import ZZ9K.Archive.Codec

namespace ZZ9K.Archive

open ZZ9K.Abi ZZ9K.Host ZZ9K.Framework

/-- The freeing of both buffers of a decoding -/
def releasePair (decoded input : SharedBuffer) : Job Unit := do
  releaseShared decoded.handle
  releaseShared input.handle

/-- `zz9k_archive_decompress_to_memory_ex` with its buffers allocated -/
def decompressBuffers (algorithm : Compression) (compressed : Bytes) (outputCapacity : Nat)
    (verifyOnly : Bool) (input decoded : SharedBuffer) : Job (Option (Bytes × DecompressResult)) := do
  let copied ← sharedCopyTo input 0 compressed
  match (if copied then buildDecompressDesc algorithm input.handle 0 compressed.length
    decoded.handle 0 outputCapacity decompressFlagExpectEnd else none) with
  | none => do
    releasePair decoded input
    pure none
  | some desc => do
    let (status,result) ← Job.codec desc
    if status = .cancelled then do
      -- the board may still be decoding into the buffers: they are abandoned
      Job.noteStatus .cancelled
      pure none
    else if status ≠ .ok then do
      printSharedDiag
      releasePair decoded input
      pure none
    else do
      let data ← (if verifyOnly then pure (some [])
        else if outputCapacity < result.bytesWritten then pure none
        else do
          let data ← sharedCopyFrom decoded 0 result.bytesWritten
          pure (data.map Subtype.val))
      releasePair decoded input
      pure (data.map fun data => (data,result))

/-- `zz9k_archive_decompress_to_memory_ex`: the decoded bytes, none of them where only the result
is wanted -/
def decompressToMemoryEx (service : CodecService) (algorithm : Compression) (compressed : Bytes)
    (outputCapacity : Nat) (verifyOnly : Bool) : Job (Option (Bytes × DecompressResult)) :=
  if service.supports algorithm = false ∨ compressed = [] ∨ outputCapacity = 0 then pure none
  else do
    let got ← (if verifyOnly then pure true else Job.tool (Tool.malloc outputCapacity))
    if got = false then pure none
    else
      match ← Job.allocShared compressed.length 16 0 with
      | .error status => do
        Job.noteStatus status
        printSharedDiag
        pure none
      | .ok input =>
        match ← Job.allocShared outputCapacity 16 0 with
        | .error status => do
          Job.noteStatus status
          printSharedDiag
          releaseShared input.handle
          pure none
        | .ok decoded =>
          decompressBuffers algorithm compressed outputCapacity verifyOnly input decoded

/-- `zz9k_archive_decompress_test_to_result` -/
def decompressTestToResult (service : CodecService) (algorithm : Compression) (compressed : Bytes)
    (outputLimit : Nat) : Job (Option DecompressResult) :=
  if service.supportsDecompressTest algorithm = false ∨ compressed = [] ∨ outputLimit = 0 then
    pure none
  else do
    match ← Job.allocShared compressed.length 16 0 with
    | .error _ => do
      printSharedDiag
      pure none
    | .ok input => do
      let copied ← sharedCopyTo input 0 compressed
      match (if copied then buildDecompressTestDesc algorithm input.handle 0 compressed.length
        outputLimit decompressFlagExpectEnd else none) with
      | none => do
        releaseShared input.handle
        pure none
      | some desc => do
        let (status,result) ← Job.codec desc
        if status ≠ .ok then do
          printSharedDiag
          releaseShared input.handle
          pure none
        else do
          releaseShared input.handle
          pure (some result)

/-- How a stream ends: the session still to be closed, zero if there is none; the status of the
request that failed; the result if it went to its end; and the state of the consumer -/
structure StreamEnd (σ : Type) where
  session : UInt32
  failure : Status := .ok
  result : Option DecompressResult := none
  consumer : σ

/-- How a streamed decoding ends -/
structure DecodeEnd (σ : Type) where
  ok : Bool
  failure : Status := .ok
  result : DecompressResult := {}
  opened : Option OpenedOutput := none
  consumer : σ

section

variable {σ : Type}

/-- What is behind the label `out` of the streamed decodings -/
def endStream (e : StreamEnd σ) (opened : Option OpenedOutput) (decoded input : SharedBuffer) :
    Job (DecodeEnd σ) := do
  let _ ← (if e.session ≠ 0 then Job.codec (.streamClose e.session 0) else pure (.ok,{}))
  let closed ← (match opened with
    | none => pure true
    | some output => Job.tool (Tool.close output.file))
  releasePair decoded input
  pure {ok := e.result.isSome && closed,failure := e.failure,result := e.result.getD {},opened,
        consumer := e.consumer}

/-- What becomes of a decoded chunk in `decoded`: it is written to the output file, if there is
one, and then given to the consumer. Without either it stays on the board. -/
def deliverChunk (decoded : SharedBuffer) (file : Option Nat)
    (onChunk : Option (σ → Bytes → Tool (Bool × σ))) (s : σ) (length : Nat) : Job (Bool × σ) :=
  if file = none ∧ onChunk.isNone then pure (true,s)
  else do
    match ← sharedCopyFrom decoded 0 length with
    | none => pure (false,s)
    | some data => do
      let written ← (match file with
        | none => pure true
        | some file => Job.tool (Tool.write file data))
      if written = false then pure (false,s)
      else
        match onChunk with
        | none => pure (true,s)
        | some take => Job.tool (take s data)

/-- One reading of a stream: it ends, or there is more -/
inductive ReadPart (σ : Type) (outputLimit total : Nat)
  | ended (e : StreamEnd σ)
  | going (result : DecompressResult) (s : σ) (hfits : total+result.bytesWritten ≤ outputLimit)

/-- The part of the stream loops that reads, with `total` bytes read before -/
def streamReadPart (session : UInt32) (decoded : SharedBuffer) (outputLimit : Nat)
    (deliver : σ → Nat → Job (Bool × σ)) (total : Nat) (s : σ) :
    Job (ReadPart σ outputLimit total) :=
  match buildStreamReadDesc session decoded.handle 0 decoded.length.toNat 0 with
  | none => pure (.ended {session,consumer := s})
  | some desc => do
    let (status,result) ← Job.codec desc
    if status ≠ .ok then do
      printSharedDiag
      pure (.ended {session := 0,failure := status,consumer := s})
    else if h : decoded.length.toNat < result.bytesWritten ∨ outputLimit < total ∨
        outputLimit-total < result.bytesWritten then pure (.ended {session,consumer := s})
    else do
      let (delivered,s) ← (if result.bytesWritten = 0 then pure (true,s)
        else deliver s result.bytesWritten)
      if delivered = false then pure (.ended {session,consumer := s})
      else if result.flags &&& decompressResultStreamEnd ≠ 0 then
        pure (.ended {session,consumer := s
                      result := some {result with
                        session := 0,bytesWritten := total+result.bytesWritten}})
      else pure (.going result s (by omega))

/-- The loop of `zz9k_archive_decompress_stream_to_file` -/
def streamReadLoop (session : UInt32) (decoded : SharedBuffer) (outputLimit : Nat)
    (deliver : σ → Nat → Job (Bool × σ)) (total : Nat) (s : σ) : Job (StreamEnd σ) := do
  match ← streamReadPart session decoded outputLimit deliver total s with
  | .ended e => pure e
  | .going result s _hfits =>
    if _h : result.bytesWritten = 0 then pure {session,consumer := s}
    else streamReadLoop session decoded outputLimit deliver (total+result.bytesWritten) s
termination_by outputLimit-total

/-- One feeding of a stream: it ends, or this much input is left -/
inductive FeedPart (σ : Type) (needInput : Bool) (left : Nat)
  | ended (e : StreamEnd σ)
  | fed (rest : Nat) (hless : rest+(if needInput then 1 else 0) ≤ left)

theorem buildStreamFeedDesc_length {session srcHandle flags : UInt32} {srcOffset srcLength : Nat}
    {desc : CodecRequest}
    (h : buildStreamFeedDesc session srcHandle srcOffset srcLength flags = some desc) :
    srcLength ≠ 0 := by
  unfold buildStreamFeedDesc at h
  split at h
  · cases h
  · next hn =>
    intro hlength
    exact hn (Or.inr (Or.inr (Or.inl hlength)))

/-- The part of the feed loops that feeds, with `left` bytes of the input still to go -/
def streamFeedPart (session : UInt32) (input : SharedBuffer)
    (copyChunk : SharedBuffer → Nat → Nat → Job Bool) (totalInput : Nat) (needInput : Bool)
    (left : Nat) (s : σ) : Job (FeedPart σ needInput left) :=
  if hneed : needInput = false then pure (.fed left (by simp [hneed]))
  else if hleft : left = 0 then pure (.ended {session,consumer := s})
  else do
    let feedLen := if input.length.toNat < left then input.length.toNat else left
    let copied ← copyChunk input (totalInput-left) feedLen
    let feedFlags := if feedLen = left then decompressStreamFeedEof else 0
    match hdesc : (if copied then buildStreamFeedDesc session input.handle 0 feedLen feedFlags
      else none) with
    | none => pure (.ended {session,consumer := s})
    | some desc => do
      let (status,_) ← Job.codec desc
      if status ≠ .ok then do
        printSharedDiag
        pure (.ended {session := 0,failure := status,consumer := s})
      else pure (.fed (left-feedLen) (by
        have hlength : feedLen ≠ 0 := by
          split at hdesc
          · exact buildStreamFeedDesc_length hdesc
          · cases hdesc
        split <;> omega))

/-- The loop of `zz9k_archive_decompress_feed_stream_parts_to_file` and of
`zz9k_archive_decompress_feed_file_parts_core` -/
def feedLoop (session : UInt32) (input decoded : SharedBuffer) (totalInput outputLimit : Nat)
    (copyChunk : SharedBuffer → Nat → Nat → Job Bool) (deliver : σ → Nat → Job (Bool × σ))
    (needInput : Bool) (left total : Nat) (s : σ) : Job (StreamEnd σ) := do
  match ← streamFeedPart session input copyChunk totalInput needInput left s with
  | .ended e => pure e
  | .fed rest _hless =>
    match ← streamReadPart session decoded outputLimit deliver total s with
    | .ended e => pure e
    | .going result s _hfits =>
      if result.flags &&& decompressResultNeedInput ≠ 0 then
        feedLoop session input decoded totalInput outputLimit copyChunk deliver true rest
          (total+result.bytesWritten) s
      else if _h : result.bytesWritten = 0 then pure {session,consumer := s}
      else
        feedLoop session input decoded totalInput outputLimit copyChunk deliver false rest
          (total+result.bytesWritten) s
termination_by 2*left+(outputLimit-total)+(if needInput then 0 else 1)
decreasing_by
  all_goals cases needInput <;> simp_all <;> omega

/-- The allocation of the output buffer in `zz9k_archive_decompress_stream_to_file` -/
def allocStreamOutput (capacity : Nat) : Job (Except Status (SharedBuffer × Nat)) :=
  if _h : archiveStreamMinChunk ≤ capacity then do
    match ← Job.allocShared capacity 16 0 with
    | .ok decoded => pure (.ok (decoded,capacity))
    | .error status =>
      if allocShrinkRetry status = false ∨ capacity = archiveStreamMinChunk then
        pure (.error status)
      else allocStreamOutput (capacity/2)
  else pure (.ok ({},capacity))
termination_by capacity
decreasing_by
  have hmin : 0 < archiveStreamMinChunk := by decide
  exact Nat.div_lt_self (by omega) (by decide)

/-- `zz9k_archive_decompress_stream_to_file` -/
def decompressStreamToFile (service : CodecService) (opts : ToolOptions) (algorithm : Compression)
    (compressed : Bytes) (outputLimit : Nat) (outputDir : CString) (entry : ArchiveEntry) :
    Job (DecodeEnd Unit) :=
  if service.supportsDecompressStream algorithm = false ∨ compressed = [] ∨ outputLimit = 0 then
    pure {ok := false,consumer := ()}
  else do
    match ← Job.allocShared compressed.length 16 0 with
    | .error _ => do
      printSharedDiag
      pure {ok := false,consumer := ()}
    | .ok input =>
      match ← allocStreamOutput service.streamChunk with
      | .error _ => do
        printSharedDiag
        endStream {session := 0,consumer := ()} none {} input
      | .ok (decoded,capacity) => do
        let got ← Job.tool (Tool.malloc capacity)
        let copied ← (if got then sharedCopyTo input 0 compressed else pure false)
        match (if copied then buildStreamBeginDesc algorithm input.handle 0 compressed.length
          outputLimit decompressFlagExpectEnd else none) with
        | none => endStream {session := 0,consumer := ()} none decoded input
        | some desc => do
          let (status,begun) ← Job.codec desc
          if status ≠ .ok then do
            printSharedDiag
            endStream {session := 0,consumer := ()} none decoded input
          else
            match ← Job.tool (openOutputEntry opts outputDir entry) with
            | none => endStream {session := begun.session,consumer := ()} none decoded input
            | some opened => do
              let e ← streamReadLoop begun.session decoded outputLimit
                (deliverChunk decoded (some opened.file) none) 0 ()
              endStream e (some opened) decoded input

/-- What a fed decoding does with its output: the file it opens, if it writes one, and the consumer
of the chunks, if there is one -/
structure FeedOutput (σ : Type) where
  openFile : Option (Tool (Option OpenedOutput))
  onChunk : Option (σ → Bytes → Tool (Bool × σ))
  consumer : σ

/-- Whether the decoded bytes leave the board -/
def FeedOutput.wanted (output : FeedOutput σ) : Bool :=
  output.openFile.isSome || output.onChunk.isSome

/-- What `zz9k_archive_decompress_feed_stream_parts_to_file` and
`zz9k_archive_decompress_feed_file_parts_core` share once the input is ready: `copyChunk` copies a
part of the input, given by offset and length, into the input buffer. -/
def decompressFeed (service : CodecService) (algorithm : Compression) (totalInput : Nat)
    (outputLimit : Nat) (copyChunk : SharedBuffer → Nat → Nat → Job Bool)
    (output : FeedOutput σ) : Job (DecodeEnd σ) := do
  match ← allocStreamPair service (if output.wanted then allocHostWindow else allocCardOnly) with
  | .error status => do
    printSharedDiag
    endStream {session := 0,failure := status,consumer := output.consumer} none {} {}
  | .ok (input,decoded,capacity) => do
    let got ← (if output.wanted then Job.tool (Tool.malloc capacity) else pure true)
    match (if got then buildStreamBeginDesc algorithm invalidHandle 0 0 outputLimit
      (decompressFlagExpectEnd ||| decompressFlagFeedInput) else none) with
    | none => endStream {session := 0,consumer := output.consumer} none decoded input
    | some desc => do
      let (status,begun) ← Job.codec desc
      if status ≠ .ok then do
        printSharedDiag
        endStream {session := 0,failure := status,consumer := output.consumer} none decoded input
      else
        match ← (match output.openFile with
          | none => pure (some none)
          | some openFile => do
            let opened ← Job.tool openFile
            pure (opened.map some)) with
        | none =>
          endStream {session := begun.session,consumer := output.consumer} none decoded input
        | some opened => do
          let e ← feedLoop begun.session input decoded totalInput outputLimit copyChunk
            (deliverChunk decoded (opened.map OpenedOutput.file) output.onChunk) true totalInput 0
            output.consumer
          endStream e opened decoded input

/-- `zz9k_archive_copy_feed_input_chunk`, for an input that is in memory: a prefix and the rest -/
def copyFeedInputChunk (prefixBytes compressed : Bytes) (input : SharedBuffer)
    (inputOffset maxLength : Nat) : Job Bool :=
  let remaining := (slice (prefixBytes++compressed) inputOffset maxLength).length
  if maxLength = 0 ∨ remaining = 0 ∨ input.length.toNat < remaining then pure false
  else do
    let part := slice prefixBytes inputOffset remaining
    let first ← (if inputOffset < prefixBytes.length then sharedCopyTo input 0 part else pure true)
    if first = false then pure false
    else if part.length = remaining then pure true
    else
      sharedCopyTo input part.length
        (slice compressed (inputOffset+part.length-prefixBytes.length) (remaining-part.length))

/-- `zz9k_archive_copy_feed_file_input_chunk`, for an input that is a prefix and then a file, which
is read on where it stands -/
def copyFeedFileInputChunk (inputPath : CString) (prefixBytes : Bytes) (fileLength : Nat)
    (input : SharedBuffer) (inputOffset maxLength : Nat) : Job Bool :=
  let total := prefixBytes.length+fileLength
  let remaining := if maxLength < total-inputOffset then maxLength else total-inputOffset
  if maxLength = 0 ∨ total ≤ inputOffset ∨ input.length.toNat < remaining then pure false
  else do
    let part := slice prefixBytes inputOffset remaining
    let first ← (if inputOffset < prefixBytes.length then sharedCopyTo input 0 part else pure true)
    if first = false then pure false
    else if part.length = remaining then pure true
    else do
      match ← Job.tool (Tool.read inputPath (remaining-part.length)) with
      | none => pure false
      | some data => .ask (.store input.handle part.length data) fun _ => .ret true

/-- `zz9k_archive_decompress_feed_stream_parts_to_file` -/
def decompressFeedStreamPartsToFile (service : CodecService) (opts : ToolOptions)
    (algorithm : Compression) (prefixBytes compressed : Bytes) (outputLimit : Nat)
    (outputDir : CString) (entry : ArchiveEntry) : Job (DecodeEnd Unit) :=
  let totalInput := prefixBytes.length+compressed.length
  if service.supportsDecompressFeed algorithm = false ∨ 2^32 ≤ totalInput ∨ totalInput = 0 ∨
      outputLimit = 0 then pure {ok := false,consumer := ()}
  else decompressFeed service algorithm totalInput outputLimit
    (copyFeedInputChunk prefixBytes compressed)
    {openFile := some (openOutputEntry opts outputDir entry),onChunk := none,consumer := ()}

/-- `zz9k_archive_decompress_feed_file_parts_core` -/
def decompressFeedFilePartsCore (service : CodecService) (algorithm : Compression)
    (prefixBytes : Bytes) (inputPath : CString) (inputStart inputLength outputLimit : Nat)
    (output : FeedOutput σ) : Job (DecodeEnd σ) :=
  let totalInput := prefixBytes.length+inputLength
  if service.supportsDecompressFeed algorithm = false ∨ 2^32 ≤ totalInput ∨ totalInput = 0 ∨
      outputLimit = 0 ∨ 0x7fffffff < inputStart then
    pure {ok := false,consumer := output.consumer}
  else do
    let opened ← Job.tool (Tool.openRead inputPath)
    let sought ← (if opened then Job.tool (Tool.seek inputPath inputStart) else pure false)
    if sought = false then pure {ok := false,consumer := output.consumer}
    else
      decompressFeed service algorithm totalInput outputLimit
        (copyFeedFileInputChunk inputPath prefixBytes inputLength) output

/-- `zz9k_archive_decompress_feed_file_parts_to_file` -/
def decompressFeedFilePartsToFile (service : CodecService) (opts : ToolOptions)
    (algorithm : Compression) (prefixBytes : Bytes) (inputPath : CString)
    (inputStart inputLength outputLimit : Nat) (outputDir : CString) (entry : ArchiveEntry) :
    Job (DecodeEnd Unit) :=
  decompressFeedFilePartsCore service algorithm prefixBytes inputPath inputStart inputLength
    outputLimit
    {openFile := some (openOutputEntry opts outputDir entry),onChunk := none,consumer := ()}

/-- `zz9k_archive_decompress_feed_file_parts_to_result_status` -/
def decompressFeedFilePartsToResult (service : CodecService) (algorithm : Compression)
    (prefixBytes : Bytes) (inputPath : CString) (inputStart inputLength outputLimit : Nat) :
    Job (DecodeEnd Unit) :=
  decompressFeedFilePartsCore service algorithm prefixBytes inputPath inputStart inputLength
    outputLimit {openFile := none,onChunk := none,consumer := ()}

/-- `zz9k_archive_decompress_feed_file_to_callback` -/
def decompressFeedFileToCallback (service : CodecService) (algorithm : Compression)
    (inputPath : CString) (inputLength outputLimit : Nat) (onChunk : σ → Bytes → Tool (Bool × σ))
    (s : σ) : Job (DecodeEnd σ) :=
  decompressFeedFilePartsCore service algorithm [] inputPath 0 inputLength outputLimit
    {openFile := none,onChunk := some onChunk,consumer := s}

end

end ZZ9K.Archive
