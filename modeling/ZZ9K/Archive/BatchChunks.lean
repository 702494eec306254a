import ZZ9K.Archive.LhaBatch
import Mathlib.Algebra.Order.BigOperators.Group.List

namespace ZZ9K.Archive

open ZZ9K.Abi ZZ9K.Host ZZ9K.Framework

/-- Ranges, by offset and length, that follow one another from one place to another -/
def Tiles : Nat → List (Nat × Nat) → Nat → Prop
  | a,[],b => a = b
  | a,r::rs,b => r.1 = a ∧ Tiles (a+r.2) rs b

/-- `ZZ9KBatchMemberDesc` -/
structure BatchMemberDesc where
  algorithm : UInt32
  srcOffset : UInt32
  srcLength : UInt32
  dstOffset : UInt32
  uncompressedSize : UInt32
  expectedCrc : UInt32
  flags : UInt32
  deriving DecidableEq

/-- `zz9k_batch_read_desc` -/
def batchReadDesc (image : Image) (desc : Nat) : BatchMemberDesc where
  algorithm := image.be32 desc
  srcOffset := image.be32 (desc+4)
  srcLength := image.be32 (desc+8)
  dstOffset := image.be32 (desc+12)
  uncompressedSize := image.be32 (desc+16)
  expectedCrc := image.be32 (desc+20)
  flags := image.be32 (desc+24)

/-- One round of the loop over the chunks: a member that is passed over, or a chunk -/
inductive BatchRound
  | skipped (member : Nat)
  | chunk (packed : List Nat)

def BatchRound.members : BatchRound → List Nat
  | skipped member => [member]
  | chunk packed => packed

/-- The rounds of the loop of `zz9k_archive_lha_batch_run_src`, as far as it gets -/
def lhaBatchRounds (batch : LhaBatch) : List Nat → List BatchRound
  | [] => []
  | first::rest =>
    match lhaBatchPlanChunk batch (first::rest) 0 0 0 with
    | [] => .skipped first::lhaBatchRounds batch rest
    | packed@(_::more) => .chunk packed::lhaBatchRounds batch (rest.drop more.length)
termination_by members => members.length
decreasing_by
  · exact Nat.lt_succ_self _
  · rw [List.length_drop,List.length_cons]
    exact Nat.lt_succ_of_le (Nat.sub_le ..)

/-- The rounds in order, up to the first chunk that stops the batch -/
def lhaBatchRunRounds (decoder : LhaDecoder) (opts : ToolOptions) (batch : LhaBatch)
    (command : ArchiveCommand) (outputDir : CString) (src : LhaSource) :
    List BatchRound → List LhaBatchState → Job (List LhaBatchState × Bool)
  | [],state => pure (state,false)
  | .skipped _::rounds,state =>
    lhaBatchRunRounds decoder opts batch command outputDir src rounds state
  | .chunk packed::rounds,state => do
    match ← lhaBatchChunk decoder opts batch command outputDir src packed state with
    | .stop state abandoned => pure (state,abandoned)
    | .next state => lhaBatchRunRounds decoder opts batch command outputDir src rounds state

theorem lhaBatchLoop_eq (decoder : LhaDecoder) (opts : ToolOptions) (batch : LhaBatch)
    (command : ArchiveCommand) (outputDir : CString) (src : LhaSource) (members : List Nat)
    (state : List LhaBatchState) :
    lhaBatchLoop decoder opts batch command outputDir src members state =
      lhaBatchRunRounds decoder opts batch command outputDir src (lhaBatchRounds batch members)
        state := by
  induction members using lhaBatchRounds.induct batch generalizing state with
  | case1 => rw [lhaBatchLoop,lhaBatchRounds,lhaBatchRunRounds]
  | case2 first rest hplan ih =>
    rw [lhaBatchLoop,lhaBatchRounds,hplan]
    exact ih state
  | case3 first rest member more hplan ih =>
    rw [lhaBatchLoop,lhaBatchRounds,hplan,lhaBatchRunRounds]
    dsimp only
    congr 1
    funext ended
    cases ended with
    | stop state abandoned => rfl
    | next state => exact ih state

/-- The unpacked bytes of a chunk: `chunk.output_length` -/
def lhaBatchOutputLength (batch : LhaBatch) (packed : List Nat) : Nat :=
  (packed.map fun i => (batch.entry i).uncompressedSize).sum

@[simp] theorem lhaBatchBlobLength_cons (batch : LhaBatch) (i : Nat) (packed : List Nat) :
    lhaBatchBlobLength batch (i::packed) =
      (batch.entry i).compressedSize+lhaBatchBlobLength batch packed := rfl

@[simp] theorem lhaBatchOutputLength_cons (batch : LhaBatch) (i : Nat) (packed : List Nat) :
    lhaBatchOutputLength batch (i::packed) =
      (batch.entry i).uncompressedSize+lhaBatchOutputLength batch packed := rfl

/-- The member alone exceeds a budget. -/
def LhaBatch.Exceeds (batch : LhaBatch) (i : Nat) : Prop :=
  batch.blobCapacity < (batch.entry i).compressedSize ∨
    batch.outputCapacity ≠ 0 ∧ batch.outputCapacity < (batch.entry i).uncompressedSize

/-- A chunk within all budgets -/
structure LhaBatch.Within (batch : LhaBatch) (packed : List Nat) : Prop where
  count : packed.length ≤ batch.memberCap
  blob : lhaBatchBlobLength batch packed ≤ batch.blobCapacity
  output : batch.outputCapacity ≠ 0 → lhaBatchOutputLength batch packed ≤ batch.outputCapacity

variable {batch : LhaBatch}

theorem lhaBatchPlanChunk_front (members : List Nat) (n blob out : Nat) :
    lhaBatchPlanChunk batch members n blob out <+: members := by
  induction members generalizing n blob out with
  | nil => exact List.prefix_rfl
  | cons member rest ih =>
    rw [lhaBatchPlanChunk]
    split_ifs
    · exact List.nil_prefix
    · exact List.prefix_cons_inj member |>.mpr (ih _ _ _)

/-- By induction on the members, from what is packed already -/
theorem lhaBatchPlanChunk_within {members : List Nat} {n blob out : Nat} (hn : n ≤ batch.memberCap)
    (hblob : blob ≤ batch.blobCapacity) (hout : batch.outputCapacity ≠ 0 →
      out ≤ batch.outputCapacity) :
    n+(lhaBatchPlanChunk batch members n blob out).length ≤ batch.memberCap ∧
    blob+lhaBatchBlobLength batch (lhaBatchPlanChunk batch members n blob out) ≤
      batch.blobCapacity ∧
    (batch.outputCapacity ≠ 0 →
      out+lhaBatchOutputLength batch (lhaBatchPlanChunk batch members n blob out) ≤
        batch.outputCapacity) := by
  induction members generalizing n blob out with
  | nil => exact ⟨hn,hblob,hout⟩
  | cons member rest ih =>
    rw [lhaBatchPlanChunk]
    split_ifs with hfull
    · exact ⟨hn,hblob,hout⟩
    · simp only [not_or,not_and,not_le,not_lt] at hfull
      obtain ⟨hcount,hc,hu⟩ := hfull
      obtain ⟨hlen,hsum,hsum'⟩ := @ih (n+1) (blob+(batch.entry member).compressedSize)
        (out+(batch.entry member).uncompressedSize) (by omega) (by omega)
        (fun hne => by
          have := hout hne
          have := hu hne
          omega)
      rw [List.length_cons,lhaBatchBlobLength_cons,lhaBatchOutputLength_cons]
      rw [Nat.add_assoc] at hsum hsum'
      exact ⟨by omega,hsum,hsum'⟩

theorem lhaBatchPlanChunk_eq_nil {first : Nat} {rest : List Nat} (hcap : 0 < batch.memberCap) :
    lhaBatchPlanChunk batch (first::rest) 0 0 0 = [] ↔ batch.Exceeds first := by
  rw [lhaBatchPlanChunk,LhaBatch.Exceeds]
  split_ifs with hfull
  · simpa [not_le.mpr hcap] using hfull
  · simpa [not_le.mpr hcap] using hfull

theorem LhaBatch.Within.not_exceeds {packed : List Nat} (h : batch.Within packed) {i : Nat}
    (hi : i ∈ packed) : ¬batch.Exceeds i := by
  have hc : (batch.entry i).compressedSize ≤ lhaBatchBlobLength batch packed :=
    List.single_le_sum (fun _ _ => Nat.zero_le _) _ (List.mem_map_of_mem hi)
  have hu : (batch.entry i).uncompressedSize ≤ lhaBatchOutputLength batch packed :=
    List.single_le_sum (fun _ _ => Nat.zero_le _) _ (List.mem_map_of_mem hi)
  rintro (hex | ⟨hne,hex⟩)
  · exact absurd (hc.trans h.blob) (Nat.not_le.mpr hex)
  · exact absurd (hu.trans (h.output hne)) (Nat.not_le.mpr hex)

/-- Every member is in one round, in the order of the list; it is passed over exactly if it alone
exceeds a budget, and every chunk keeps to the budgets. -/
theorem lhaBatchRounds_spec (hcap : 0 < batch.memberCap) (members : List Nat) :
    (lhaBatchRounds batch members).flatMap BatchRound.members = members ∧
    ∀ r ∈ lhaBatchRounds batch members,match r with
      | .skipped i => batch.Exceeds i
      | .chunk packed => packed ≠ [] ∧ batch.Within packed := by
  induction members using lhaBatchRounds.induct batch with
  | case1 => simp [lhaBatchRounds]
  | case2 first rest hplan ih =>
    rw [lhaBatchRounds,hplan]
    refine ⟨?_,?_⟩
    · rw [List.flatMap_cons,ih.1]
      rfl
    · intro r hr
      obtain rfl | hr := List.mem_cons.mp hr
      · exact (lhaBatchPlanChunk_eq_nil hcap).mp hplan
      · exact ih.2 r hr
  | case3 first rest member more hplan ih =>
    rw [lhaBatchRounds,hplan]
    have hprefix := @lhaBatchPlanChunk_front batch (first::rest) 0 0 0
    have hwithin := @lhaBatchPlanChunk_within batch (first::rest) 0 0 0 (Nat.zero_le _)
      (Nat.zero_le _) (fun _ => Nat.zero_le _)
    rw [hplan] at hprefix hwithin
    obtain ⟨rfl,tail,rfl⟩ := List.cons_prefix_cons.mp hprefix
    dsimp only
    rw [List.drop_left] at ih ⊢
    refine ⟨?_,?_⟩
    · rw [List.flatMap_cons,ih.1]
      rfl
    · intro r hr
      obtain rfl | hr := List.mem_cons.mp hr
      · rw [Nat.zero_add,Nat.zero_add,Nat.zero_add] at hwithin
        exact ⟨List.cons_ne_nil _ _,hwithin.1,hwithin.2.1,hwithin.2.2⟩
      · exact ih.2 r hr

/-- The plan in the words of the machine: `blob` and `out` are 32 bits wide. -/
def lhaBatchPlanWords (batch : LhaBatch) (blobCapacity outputCapacity : UInt32) :
    List Nat → Nat → UInt32 → UInt32 → List Nat × UInt32 × UInt32
  | [],_,blob,out => ([],blob,out)
  | member::rest,n,blob,out =>
    let compressedSize := (batch.entry member).compressedSize.toUInt32
    let uncompressedSize := (batch.entry member).uncompressedSize.toUInt32
    if batch.memberCap ≤ n ∨ blobCapacity-blob < compressedSize ∨
        (outputCapacity ≠ 0 ∧ outputCapacity-out < uncompressedSize) then ([],blob,out)
    else
      let (packed,blob,out) := lhaBatchPlanWords batch blobCapacity outputCapacity rest (n+1)
        (blob+compressedSize) (out+uncompressedSize)
      (member::packed,blob,out)

theorem word_toNat {n : Nat} (h : n < 2^32) : n.toUInt32.toNat = n := UInt32.toNat_ofNat_of_lt' h

/-- The entries hold words of 32 bits. -/
def LhaBatch.Words (batch : LhaBatch) : Prop :=
  ∀ i,(batch.entry i).compressedSize < 2^32 ∧ (batch.entry i).uncompressedSize < 2^32

/-- Nothing wraps while a chunk is planned. -/
theorem lhaBatchPlanWords_eq {blobCapacity outputCapacity : UInt32} (hwords : batch.Words)
    (hblobs : batch.blobCapacity = blobCapacity.toNat)
    (houts : batch.outputCapacity = outputCapacity.toNat) (hne : outputCapacity ≠ 0)
    {members : List Nat} {n : Nat} {blob out : UInt32} (hblob : blob ≤ blobCapacity)
    (hout : out ≤ outputCapacity) :
    let packed := lhaBatchPlanChunk batch members n blob.toNat out.toNat
    let plan := lhaBatchPlanWords batch blobCapacity outputCapacity members n blob out
    plan.1 = packed ∧ plan.2.1.toNat = blob.toNat+lhaBatchBlobLength batch packed ∧
      plan.2.2.toNat = out.toNat+lhaBatchOutputLength batch packed := by
  induction members generalizing n blob out with
  | nil => exact ⟨rfl,rfl,rfl⟩
  | cons member rest ih =>
    obtain ⟨hc,hu⟩ := hwords member
    have hcw : (batch.entry member).compressedSize.toUInt32.toNat =
        (batch.entry member).compressedSize := word_toNat hc
    have huw : (batch.entry member).uncompressedSize.toUInt32.toNat =
        (batch.entry member).uncompressedSize := word_toNat hu
    have hne' : batch.outputCapacity ≠ 0 := fun hzero =>
      hne (UInt32.toNat_inj.mp (houts.symm.trans hzero))
    have hblob' := UInt32.le_iff_toNat_le.mp hblob
    have hout' := UInt32.le_iff_toNat_le.mp hout
    have hfull : (batch.memberCap ≤ n ∨
          blobCapacity-blob < (batch.entry member).compressedSize.toUInt32 ∨
          (outputCapacity ≠ 0 ∧
            outputCapacity-out < (batch.entry member).uncompressedSize.toUInt32)) ↔
        (batch.memberCap ≤ n ∨ batch.blobCapacity-blob.toNat < (batch.entry member).compressedSize ∨
          (batch.outputCapacity ≠ 0 ∧
            batch.outputCapacity-out.toNat < (batch.entry member).uncompressedSize)) := by
      rw [UInt32.lt_iff_toNat_lt,UInt32.lt_iff_toNat_lt,UInt32.toNat_sub_of_le _ _ hblob,
        UInt32.toNat_sub_of_le _ _ hout,hcw,huw,hblobs,houts]
      simp only [hne,ne_eq,not_false_eq_true,true_and,← houts,hne']
    rw [lhaBatchPlanWords,lhaBatchPlanChunk]
    simp only [hfull]
    split_ifs with hstop
    · exact ⟨rfl,rfl,rfl⟩
    · simp only [not_or,not_and,not_le,not_lt] at hstop
      obtain ⟨-,hcfits,hufits⟩ := hstop
      have hufits := hufits hne'
      have hcap := blobCapacity.toNat_lt
      have hcap' := outputCapacity.toNat_lt
      have hsum : (blob+(batch.entry member).compressedSize.toUInt32).toNat =
          blob.toNat+(batch.entry member).compressedSize := by
        rw [UInt32.toNat_add,hcw,Nat.mod_eq_of_lt (by omega)]
      have hsum' : (out+(batch.entry member).uncompressedSize.toUInt32).toNat =
          out.toNat+(batch.entry member).uncompressedSize := by
        rw [UInt32.toNat_add,huw,Nat.mod_eq_of_lt (by omega)]
      obtain ⟨hpacked,hblobs',houts'⟩ := @ih (n+1) _ _
        (UInt32.le_iff_toNat_le.mpr (by rw [hsum]; omega))
        (UInt32.le_iff_toNat_le.mpr (by rw [hsum']; omega))
      rw [hsum,hsum'] at hpacked hblobs' houts'
      refine ⟨congrArg _ hpacked,?_,?_⟩
      · rw [lhaBatchBlobLength_cons,← Nat.add_assoc]
        exact hblobs'
      · rw [lhaBatchOutputLength_cons,← Nat.add_assoc]
        exact houts'

/-- A word that lies in the image byte by byte -/
theorem be32_of_bytes {image : Image} {o : Nat} {word : UInt32}
    (h0 : image o = (putBe32 word).b0) (h1 : image (o+1) = (putBe32 word).b1)
    (h2 : image (o+2) = (putBe32 word).b2) (h3 : image (o+3) = (putBe32 word).b3) :
    image.be32 o = word := by
  rw [Image.be32,h0,h1,h2,h3]
  exact getBe32_putBe32 word

/-- The image has these bytes from a place on. -/
def HasBytes (image : Image) (o : Nat) (bytes : Bytes) : Prop :=
  ∀ k,∀ h : k < bytes.length,image (o+k) = bytes[k]

theorem HasBytes.append {image : Image} {o : Nat} {as bs : Bytes} (h : HasBytes image o (as++bs)) :
    HasBytes image o as ∧ HasBytes image (o+as.length) bs := by
  constructor
  · intro k hk
    rw [h k (by rw [List.length_append]; omega),List.getElem_append_left hk]
  · intro k hk
    rw [Nat.add_assoc,h (as.length+k) (by rw [List.length_append]; omega),
      List.getElem_append_right (Nat.le_add_right _ _)]
    simp only [Nat.add_sub_cancel_left]

/-- A table of words is read back word by word. -/
theorem be32_table {image : Image} {o : Nat} {words : List UInt32}
    (h : HasBytes image o (words.flatMap fun word =>
      let b := putBe32 word
      [b.b0,b.b1,b.b2,b.b3])) (j : Nat) (hj : j < words.length) :
    image.be32 (o+4*j) = words[j] := by
  induction words generalizing o j with
  | nil => exact absurd hj (Nat.not_lt_zero j)
  | cons word words ih =>
    rw [List.flatMap_cons] at h
    obtain ⟨hfirst,hrest⟩ := h.append
    cases j with
    | zero =>
      exact be32_of_bytes (hfirst 0 (by simp)) (hfirst 1 (by simp)) (hfirst 2 (by simp))
        (hfirst 3 (by simp))
    | succ j =>
      have htail := ih hrest j (Nat.lt_of_succ_lt_succ hj)
      rw [Nat.mul_succ,Nat.add_comm (4*j) 4,← Nat.add_assoc]
      exact htail

/-- The words of a descriptor, in their order -/
def BatchMemberDesc.words (d : BatchMemberDesc) : List UInt32 :=
  [d.algorithm,d.srcOffset,d.srcLength,d.dstOffset,d.uncompressedSize,d.expectedCrc,d.flags]

theorem batchWriteDesc_length (d : BatchMemberDesc) : (batchWriteDesc d.words).length = 32 := rfl

/-- What is written as a descriptor is what is read. -/
theorem batchReadDesc_of_bytes {image : Image} {o : Nat} {d : BatchMemberDesc}
    (h : HasBytes image o (batchWriteDesc d.words)) : batchReadDesc image o = d := by
  have hword := be32_table h
  have hlen : (d.words++[0]).length = 8 := rfl
  rw [batchReadDesc]
  have h0 := hword 0 (by rw [hlen]; decide)
  have h1 := hword 1 (by rw [hlen]; decide)
  have h2 := hword 2 (by rw [hlen]; decide)
  have h3 := hword 3 (by rw [hlen]; decide)
  have h4 := hword 4 (by rw [hlen]; decide)
  have h5 := hword 5 (by rw [hlen]; decide)
  have h6 := hword 6 (by rw [hlen]; decide)
  rw [Nat.mul_zero,Nat.add_zero] at h0
  rw [h0,h1,h2,h3,h4,h5,h6]
  rfl

/-- The descriptors of a chunk behind so many packed and unpacked bytes -/
def lhaBatchDescList (batch : LhaBatch) : List Nat → Nat → Nat → List BatchMemberDesc
  | [],_,_ => []
  | member::rest,blob,out =>
    let entry := batch.entry member
    {
      algorithm := (lhaMethodToCompression entry.method).word
      srcOffset := blob.toUInt32
      srcLength := entry.compressedSize.toUInt32
      dstOffset := out.toUInt32
      uncompressedSize := entry.uncompressedSize.toUInt32
      expectedCrc := (entry.crc32%2^16).toUInt32
      flags := if entry.hasCrc32 then batchMemberFlagHaveCrc else 0
    }::lhaBatchDescList batch rest (blob+entry.compressedSize) (out+entry.uncompressedSize)

theorem lhaBatchDescs_eq (packed : List Nat) (blob out : Nat) :
    lhaBatchDescs batch packed blob out =
      (lhaBatchDescList batch packed blob out).flatMap fun d => batchWriteDesc d.words := by
  induction packed generalizing blob out with
  | nil => rfl
  | cons member rest ih =>
    rw [lhaBatchDescs,lhaBatchDescList,List.flatMap_cons,← ih]
    simp only [BatchMemberDesc.words]

/-- So many descriptors of a table are read back one by one. -/
theorem batchReadDesc_table {image : Image} {o : Nat} {descs : List BatchMemberDesc}
    (h : HasBytes image o (descs.flatMap fun d => batchWriteDesc d.words)) :
    (List.range descs.length).map (fun i => batchReadDesc image (o+32*i)) = descs := by
  induction descs generalizing o with
  | nil => rfl
  | cons d descs ih =>
    rw [List.flatMap_cons] at h
    obtain ⟨hfirst,hrest⟩ := h.append
    rw [batchWriteDesc_length] at hrest
    have htail := ih hrest
    rw [List.length_cons,List.range_succ_eq_map,List.map_cons,List.map_map,Nat.mul_zero,
      Nat.add_zero,batchReadDesc_of_bytes hfirst]
    conv_rhs => rw [← htail]
    simp only [Function.comp_def,Nat.mul_succ,Nat.add_comm (32*_) 32,Nat.add_assoc]

theorem lhaBatchDescList_length (packed : List Nat) (blob out : Nat) :
    (lhaBatchDescList batch packed blob out).length = packed.length := by
  induction packed generalizing blob out with
  | nil => rfl
  | cons member rest ih => rw [lhaBatchDescList,List.length_cons,List.length_cons,ih]

/-- The descriptors name the members' sizes, and their ranges follow one another. -/
theorem lhaBatchDescList_tiles (hwords : batch.Words) {packed : List Nat} {blob out : Nat}
    (hblob : blob+lhaBatchBlobLength batch packed < 2^32)
    (hout : out+lhaBatchOutputLength batch packed < 2^32) :
    (lhaBatchDescList batch packed blob out).map
        (fun d => (d.srcLength.toNat,d.uncompressedSize.toNat)) =
      packed.map (fun i => ((batch.entry i).compressedSize,(batch.entry i).uncompressedSize)) ∧
    Tiles blob ((lhaBatchDescList batch packed blob out).map
      fun d => (d.srcOffset.toNat,d.srcLength.toNat)) (blob+lhaBatchBlobLength batch packed) ∧
    Tiles out ((lhaBatchDescList batch packed blob out).map
      fun d => (d.dstOffset.toNat,d.uncompressedSize.toNat))
        (out+lhaBatchOutputLength batch packed) := by
  induction packed generalizing blob out with
  | nil => exact ⟨rfl,rfl,rfl⟩
  | cons member rest ih =>
    obtain ⟨hc,hu⟩ := hwords member
    rw [lhaBatchBlobLength_cons,← Nat.add_assoc] at hblob ⊢
    rw [lhaBatchOutputLength_cons,← Nat.add_assoc] at hout ⊢
    obtain ⟨hsizes,hsrc,hdst⟩ := ih hblob hout
    have hcw : (batch.entry member).compressedSize.toUInt32.toNat =
        (batch.entry member).compressedSize := word_toNat hc
    have huw : (batch.entry member).uncompressedSize.toUInt32.toNat =
        (batch.entry member).uncompressedSize := word_toNat hu
    have hbw : blob.toUInt32.toNat = blob := word_toNat (by omega)
    have how : out.toUInt32.toNat = out := word_toNat (by omega)
    rw [lhaBatchDescList]
    simp only [List.map_cons,Tiles,hcw,huw,hbw,how,true_and]
    exact ⟨congrArg _ hsizes,hsrc,hdst⟩

/-- The tables of a chunk, wherever they lie at the start of an arena, are accepted, and lay its
members out one behind the other. -/
structure LhaBatch.TablesRead (batch : LhaBatch) (packed : List Nat) (image : Image)
    (header : BatchParsedHeader) (descs : List BatchMemberDesc) : Prop where
  parsed : batchParseHeader image batch.layout.totalSize = .ok header
  read : descs = (List.range header.memberCount.toNat).map
    fun i => batchReadDesc image (header.descOffset.toNat+32*i)
  members : descs.map (fun d => (d.srcLength.toNat,d.uncompressedSize.toNat)) =
    packed.map fun i => ((batch.entry i).compressedSize,(batch.entry i).uncompressedSize)
  blobLength : header.blobLength.toNat = lhaBatchBlobLength batch packed
  sources : Tiles 0 (descs.map fun d => (d.srcOffset.toNat,d.srcLength.toNat))
    header.blobLength.toNat
  destinations : Tiles 0 (descs.map fun d => (d.dstOffset.toNat,d.uncompressedSize.toNat))
    (lhaBatchOutputLength batch packed)

theorem lhaBatchWriteTables_read (hexact : batch.layout.Exact)
    (hmembers : batch.layout.memberCapacity.toNat = batch.memberCap)
    (hblobs : batch.layout.blobCapacity.toNat = batch.blobCapacity) (hwords : batch.Words)
    {packed : List Nat} (hne : packed ≠ []) (hwithin : batch.Within packed)
    (hout : lhaBatchOutputLength batch packed < 2^32) {image : Image}
    (himage : HasBytes image 0 (lhaBatchWriteTables batch packed)) :
    ∃ header descs,batch.TablesRead packed image header descs := by
  have hcap := batch.layout.blobCapacity.toNat_lt
  have hcount := hwithin.count
  have hblob := hwithin.blob
  have hmax := hexact.memberCapacity
  have hpos := List.length_pos_iff.mpr hne
  have hcountw : packed.length.toUInt32.toNat = packed.length :=
    word_toNat (by omega)
  have hblobw : (lhaBatchBlobLength batch packed).toUInt32.toNat =
      lhaBatchBlobLength batch packed := word_toNat (by omega)
  obtain ⟨hhead,hdescs⟩ := himage.append
  rw [lhaBatchDescs_eq,List.length_map,List.length_range] at hdescs
  generalize hwritten : batchWriteHeader (fun _ => 0) batch.layout packed.length.toUInt32
    (lhaBatchBlobLength batch packed).toUInt32 = written at hhead
  have hsame : ∀ k < 48,image k = written k := by
    intro k hk
    have hbyte := hhead k (by simpa using hk)
    rw [Nat.zero_add] at hbyte
    simpa using hbyte
  have hread := batchWriteHeader_read (fun _ => 0) hexact packed.length.toUInt32
    (lhaBatchBlobLength batch packed).toUInt32
  dsimp only at hread
  rw [hwritten] at hread
  obtain ⟨hmagic,hversion,hfields⟩ := hread
  have hsound := @BatchLayout.Exact.sound _ hexact packed.length.toUInt32
    (lhaBatchBlobLength batch packed).toUInt32 (by omega) (UInt32.le_iff_toNat_le.mpr (by omega))
    (UInt32.le_iff_toNat_le.mpr (by omega))
  have hlong : 48 ≤ batch.layout.totalSize.toNat :=
    hsound.inside (0,48) (by simp [BatchParsedHeader.ranges])
  have hparse : batchParseHeader image batch.layout.totalSize = .ok
      (batch.layout.header packed.length.toUInt32 (lhaBatchBlobLength batch packed).toUInt32) := by
    refine batchParseHeader_eq_ok.mpr ⟨hlong,?_,?_,?_,hsound⟩
    · rw [← hmagic]
      simp [Image.be32,hsame]
    · rw [← hversion]
      simp [Image.be16,hsame]
    · rw [← hfields]
      simp [batchHeaderFields,Image.be16,Image.be32,hsame]
  have htable := batchReadDesc_table hdescs
  rw [lhaBatchDescList_length] at htable
  obtain ⟨hsizes,hsrc,hdst⟩ := @lhaBatchDescList_tiles _ hwords packed 0 0 (by omega) (by omega)
  rw [Nat.zero_add] at hsrc hdst
  refine ⟨_,_,hparse,?_,hsizes,hblobw,?_,hdst⟩
  · rw [BatchLayout.header]
    dsimp only
    rw [hcountw,hexact.descOffset,← htable]
  · rw [BatchLayout.header]
    dsimp only
    rw [hblobw]
    exact hsrc

/-- The cap on the unpacked bytes of a chunk: of the output region, or of a test, which never goes
below the largest member -/
def lhaBatchOutputCap (entries : List ArchiveEntry) (mode outputCapacity testBudget : UInt32)
    (members : List Nat) : Nat :=
  if mode = batchModeTest then
    max testBudget.toNat
      ((members.map fun i => (entries.getD i {}).uncompressedSize).foldl max 0)
  else outputCapacity.toNat

/-- A batch with budgets of `zz9k_archive_lha_batch_run_src` -/
def lhaBatchWith (entries : List ArchiveEntry) (arena : SharedBuffer) (layout : BatchLayout)
    (mode memberCap blobCapacity outputCapacity testBudget : UInt32) (members : List Nat) :
    LhaBatch where
  entries
  arena
  layout
  memberCap := memberCap.toNat
  blobCapacity := blobCapacity.toNat
  outputCapacity := lhaBatchOutputCap entries mode outputCapacity testBudget members

/-- All that holds of the chunks of a batch -/
structure LhaBatch.ChunksSound (batch : LhaBatch) (members : List Nat) : Prop where
  loop : ∀ decoder opts command outputDir src state,
    lhaBatchLoop decoder opts batch command outputDir src members state =
      lhaBatchRunRounds decoder opts batch command outputDir src (lhaBatchRounds batch members) state
  once : (lhaBatchRounds batch members).flatMap BatchRound.members = members
  skipped : ∀ i,.skipped i ∈ lhaBatchRounds batch members → batch.Exceeds i
  chunk : ∀ packed,.chunk packed ∈ lhaBatchRounds batch members →
    packed ≠ [] ∧ batch.Within packed ∧ ∀ i ∈ packed,¬batch.Exceeds i
  tables : ∀ packed,.chunk packed ∈ lhaBatchRounds batch members → ∀ image,
    HasBytes image 0 (lhaBatchWriteTables batch packed) →
      ∃ header descs,batch.TablesRead packed image header descs ∧
        header.blobLength ≤ batch.layout.blobCapacity ∧
        (batch.layout.mode = batchModeExtract →
          lhaBatchOutputLength batch packed ≤ batch.layout.outputCapacity.toNat)
  words : ∀ suffix,suffix <:+ members →
    let packed := lhaBatchPlanChunk batch suffix 0 0 0
    let plan := lhaBatchPlanWords batch batch.blobCapacity.toUInt32 batch.outputCapacity.toUInt32
      suffix 0 0 0
    plan.1 = packed ∧ plan.2.1.toNat = lhaBatchBlobLength batch packed ∧
      plan.2.2.toNat = lhaBatchOutputLength batch packed

/-- What the layout refuses -/
theorem batchLayoutInit_bounds {mode memberCapacity blobCapacity outputCapacity : UInt32}
    {layout : BatchLayout}
    (h : batchLayoutInit mode memberCapacity blobCapacity outputCapacity = some layout) :
    memberCapacity ≠ 0 ∧ (mode = batchModeTest ∨ mode = batchModeExtract ∧ outputCapacity ≠ 0) := by
  rw [batchLayoutInit] at h
  by_cases hmembers : memberCapacity = 0
  · simp [hmembers] at h
  refine ⟨hmembers,?_⟩
  by_cases htest : mode = batchModeTest
  · exact .inl htest
  by_cases hextract : mode = batchModeExtract
  · refine .inr ⟨hextract,fun hzero => ?_⟩
    simp [hextract,hzero] at h
  · simp [htest,hextract] at h

theorem foldl_max_lt {sizes : List Nat} {a n : Nat} (ha : a < n) (h : ∀ x ∈ sizes,x < n) :
    sizes.foldl max a < n := by
  induction sizes generalizing a with
  | nil => exact ha
  | cons x sizes ih =>
    rw [List.forall_mem_cons] at h
    exact ih (max_lt ha h.1) h.2

theorem le_foldl_max (sizes : List Nat) (a : Nat) :
    a ≤ sizes.foldl max a ∧ ∀ x ∈ sizes,x ≤ sizes.foldl max a := by
  induction sizes generalizing a with
  | nil => exact ⟨Nat.le_refl a,nofun⟩
  | cons x sizes ih =>
    obtain ⟨hfirst,hrest⟩ := ih (max a x)
    refine ⟨(le_max_left a x).trans hfirst,?_⟩
    rw [List.forall_mem_cons]
    exact ⟨(le_max_right a x).trans hfirst,hrest⟩

/-- Whatever the budgets, the cap is a word, and it is a cap if there is a member. -/
theorem lhaBatchOutputCap_word {batch : LhaBatch} (hwords : batch.Words)
    {mode outputCapacity : UInt32} {members : List Nat}
    (hmode : mode = batchModeTest ∨ mode = batchModeExtract ∧ outputCapacity ≠ 0)
    (hsize : ∀ i ∈ members,(batch.entry i).uncompressedSize ≠ 0) (testBudget : UInt32) :
    lhaBatchOutputCap batch.entries mode outputCapacity testBudget members < 2^32 ∧
      (members ≠ [] →
        lhaBatchOutputCap batch.entries mode outputCapacity testBudget members ≠ 0) := by
  rw [lhaBatchOutputCap]
  obtain rfl | ⟨rfl,hne⟩ := hmode
  · rw [if_pos rfl]
    refine ⟨max_lt testBudget.toNat_lt (foldl_max_lt (by decide) ?_),?_⟩
    · rintro x hx
      obtain ⟨i,-,rfl⟩ := List.mem_map.mp hx
      exact (hwords i).2
    · intro hmembers
      obtain ⟨i,hi⟩ := List.exists_mem_of_ne_nil members hmembers
      have hle := (le_foldl_max (members.map fun i => (batch.entry i).uncompressedSize) 0).2 _
        (List.mem_map_of_mem hi)
      have hpos := hsize i hi
      have hmax := le_max_right testBudget.toNat
        ((members.map fun i => (batch.entry i).uncompressedSize).foldl max 0)
      intro hzero
      rw [LhaBatch.entry] at hpos
      simp only [LhaBatch.entry] at hle hmax
      omega
  · rw [if_neg (by decide)]
    exact ⟨outputCapacity.toNat_lt,fun _ hzero => hne (UInt32.toNat_inj.mp hzero)⟩

/-- A batch with budgets that the layout accepts -/
def LhaBatch.HasBudgets (batch : LhaBatch) (entries : List ArchiveEntry) (members : List Nat) : Prop :=
  ∃ arena layout mode memberCap blobCapacity outputCapacity testBudget,
    batchLayoutInit mode memberCap blobCapacity outputCapacity = some layout ∧
    batch = lhaBatchWith entries arena layout mode memberCap blobCapacity outputCapacity testBudget
      members

/-- An arena that is allocated has the layout of the budgets it was asked for. -/
theorem lhaBatchAlloc_runs {entries : List ArchiveEntry} {mode testBudget : UInt32}
    {members : List Nat} {memberCap blobCapacity layoutOutput outputCapacity : Nat}
    {log : List (Answered JobCall JobCall.Answer)} {batch : LhaBatch}
    (hmembers : memberCap < 2^32) (hblobs : blobCapacity < 2^32)
    (hcap : outputCapacity =
      lhaBatchOutputCap entries mode layoutOutput.toUInt32 testBudget members)
    (h : Ask.Runs (lhaBatchAlloc entries mode memberCap blobCapacity layoutOutput outputCapacity) log
      (some batch)) :
    batch.HasBudgets entries members := by
  rw [lhaBatchAlloc] at h
  cases hlayout : batchLayoutInit mode memberCap.toUInt32 blobCapacity.toUInt32
      layoutOutput.toUInt32 with
  | none =>
    rw [hlayout] at h
    cases (Ask.runs_ret.mp h).2
  | some layout =>
    rw [hlayout] at h
    obtain ⟨answer,_,_,-,hend,-⟩ := Ask.runs_bind.mp h
    cases answer with
    | error status => cases (Ask.runs_ret.mp hend).2
    | ok arena =>
      cases (Ask.runs_ret.mp hend).2
      refine ⟨arena,layout,mode,_,_,_,testBudget,hlayout,?_⟩
      rw [lhaBatchWith,word_toNat hmembers,word_toNat hblobs,← hcap]

/-- Every batch has such budgets, whatever the environment variables say. -/
theorem lhaBatchArena_runs {limits : BatchLimits} {entries : List ArchiveEntry}
    {command : ArchiveCommand} {members : List Nat}
    {log : List (Answered JobCall JobCall.Answer)} {batch : LhaBatch}
    (hwords : ∀ e ∈ entries,e.compressedSize < 2^32 ∧ e.uncompressedSize < 2^32)
    (h : Ask.Runs (lhaBatchArena limits entries command members) log (some batch)) :
    batch.HasBudgets entries members := by
  have hu32 : ∀ n,u32 n < 2^32 := fun n => Nat.mod_lt n (by decide)
  have hmembers : min limits.maxMembers 256 < 2^32 := by omega
  rw [lhaBatchArena] at h
  by_cases htest : command = .test
  · -- a test: the cap is not below the largest member
    rw [if_pos htest] at h
    have hcap : max (u32 (limits.testUncompKb*1024))
          (((members.map fun i => entries.getD i {}).map ArchiveEntry.uncompressedSize).foldl max 0)
        = lhaBatchOutputCap entries batchModeTest (0 : Nat).toUInt32
          (u32 (limits.testUncompKb*1024)).toUInt32 members := by
      rw [lhaBatchOutputCap,if_pos rfl,word_toNat (hu32 _),List.map_map]
      rfl
    have hlargest : ((members.map fun i => entries.getD i {}).map
        ArchiveEntry.compressedSize).foldl max 0 < 2^32 := by
      refine foldl_max_lt (by decide) ?_
      intro x hx
      rw [List.map_map] at hx
      obtain ⟨i,-,rfl⟩ := List.mem_map.mp hx
      rw [Function.comp_apply,List.getD_eq_getElem?_getD]
      cases hget : entries[i]? with
      | none => decide
      | some e => exact (hwords e (List.mem_of_getElem? hget)).1
    obtain ⟨grown,_,_,hgrown,hend,-⟩ := Ask.runs_bind.mp h
    cases grown with
    | none => exact lhaBatchAlloc_runs hmembers (hu32 _) hcap hend
    | some first =>
      dsimp only at hend
      split_ifs at hend
      · exact lhaBatchAlloc_runs hmembers hlargest hcap hend
      · cases (Ask.runs_ret.mp hend).2
        split_ifs at hgrown
        · exact lhaBatchAlloc_runs hmembers hlargest hcap hgrown
        · cases (Ask.runs_ret.mp hgrown).2
  · rw [if_neg htest] at h
    refine @lhaBatchAlloc_runs entries batchModeExtract 0 members _ _ _ _ _ _ hmembers (hu32 _) ?_ h
    rw [lhaBatchOutputCap,if_neg (by decide),word_toNat (hu32 _)]

/-- Whatever the entries, the eligible members and the budgets that the layout accepts, the chunks
tile the members, and what is written for each is read back as ranges that tile its blob and its
output. -/
theorem lhaBatch_chunks {opts : ToolOptions} {entries : List ArchiveEntry} {length : Nat}
    {mode memberCap blobCapacity outputCapacity : UInt32} {layout : BatchLayout}
    (hlayout : batchLayoutInit mode memberCap blobCapacity outputCapacity = some layout)
    (hwords : ∀ e ∈ entries,e.compressedSize < 2^32 ∧ e.uncompressedSize < 2^32)
    {members : List Nat}
    (helig : ∀ i ∈ members,lhaBatchMemberEligible opts (entries.getD i {}) length = true)
    (arena : SharedBuffer) (testBudget : UInt32) :
    (lhaBatchWith entries arena layout mode memberCap blobCapacity outputCapacity testBudget
      members).ChunksSound members := by
  have hexact := batchLayoutInit_exact hlayout
  obtain ⟨hmode,hmembers,hblobs,houtputs⟩ := batchLayoutInit_capacity hlayout
  obtain ⟨hcap,hmodes⟩ := batchLayoutInit_bounds hlayout
  have hw : (lhaBatchWith entries arena layout mode memberCap blobCapacity outputCapacity
      testBudget members).Words := by
    intro i
    rw [LhaBatch.entry,lhaBatchWith,List.getD_eq_getElem?_getD]
    dsimp only
    cases hget : entries[i]? with
    | none => exact ⟨by decide,by decide⟩
    | some e => exact hwords e (List.mem_of_getElem? hget)
  have hword := @lhaBatchOutputCap_word _ hw mode outputCapacity members hmodes
    (fun i hi => by
      have hi := helig i hi
      simp only [lhaBatchMemberEligible,decide_eq_true_eq] at hi
      exact hi.2.2.2.1) testBudget
  generalize hbatch : lhaBatchWith entries arena layout mode memberCap blobCapacity outputCapacity
    testBudget members = batch at hw hword ⊢
  have hlay : batch.layout = layout := by rw [← hbatch]; rfl
  have hmcap : batch.memberCap = memberCap.toNat := by rw [← hbatch]; rfl
  have hbcap : batch.blobCapacity = blobCapacity.toNat := by rw [← hbatch]; rfl
  have hocap : batch.outputCapacity =
      lhaBatchOutputCap batch.entries mode outputCapacity testBudget members := by
    rw [← hbatch]
    rfl
  rw [← hocap] at hword
  have hpos : 0 < batch.memberCap := by
    rw [hmcap]
    exact Nat.pos_of_ne_zero fun hzero => hcap (UInt32.toNat_inj.mp hzero)
  obtain ⟨honce,hrounds⟩ := lhaBatchRounds_spec hpos members
  have hsome : ∀ packed,.chunk packed ∈ lhaBatchRounds batch members → members ≠ [] := by
    rintro packed hp rfl
    simp [lhaBatchRounds] at hp
  refine ⟨fun decoder opts command outputDir src state =>
    lhaBatchLoop_eq decoder opts batch command outputDir src members state,honce,
    fun i hi => hrounds _ hi,?_,?_,?_⟩
  · intro packed hp
    obtain ⟨hne,hwithin⟩ := hrounds _ hp
    exact ⟨hne,hwithin,fun i hi => hwithin.not_exceeds hi⟩
  · intro packed hp image himage
    obtain ⟨hne,hwithin⟩ := hrounds _ hp
    have hout := hwithin.output (hword.2 (hsome packed hp))
    rw [← hlay] at hexact hmembers hblobs houtputs hmode
    obtain ⟨header,descs,hread⟩ := lhaBatchWriteTables_read hexact (by rw [hmembers,hmcap])
      (by rw [hblobs,hbcap]) hw hne hwithin (lt_of_le_of_lt hout hword.1) himage
    refine ⟨header,descs,hread,?_,?_⟩
    · rw [UInt32.le_iff_toNat_le,hread.blobLength,hblobs,← hbcap]
      exact hwithin.blob
    · intro hextract
      rw [hocap,lhaBatchOutputCap,if_neg (by rw [← hmode,hextract]; decide)] at hout
      rw [houtputs]
      exact hout
  · intro suffix hsuffix
    cases suffix with
    | nil => exact ⟨rfl,rfl,rfl⟩
    | cons first rest =>
      have hne : members ≠ [] := by
        rintro rfl
        exact absurd hsuffix.length_le (by simp)
      have hbw : batch.blobCapacity.toUInt32.toNat = batch.blobCapacity := by
        rw [hbcap]
        exact word_toNat blobCapacity.toNat_lt
      have how := word_toNat hword.1
      have hplan := @lhaBatchPlanWords_eq batch batch.blobCapacity.toUInt32
        batch.outputCapacity.toUInt32 hw hbw.symm how.symm
        (fun hzero => hword.2 hne (by rw [← how,hzero]; rfl)) (first::rest) 0 0 0
        (UInt32.zero_le) (UInt32.zero_le)
      have hzero : (0 : UInt32).toNat = 0 := rfl
      simp only [hzero,Nat.zero_add] at hplan
      exact hplan

/-- Two members with 100 and 50 packed bytes -/
def batchEntries : List ArchiveEntry :=
  [{name := [0x61],method := 5,dataOffset := 30,compressedSize := 100,uncompressedSize := 300},
    {name := [0x62],method := 7,dataOffset := 160,compressedSize := 50,uncompressedSize := 200}]

theorem lhaBatch_chunks_extract : ∃ layout,batchLayoutInit 1 2 150 500 = some layout ∧
    (lhaBatchWith batchEntries {} layout 1 2 150 500 0 [0,1]).ChunksSound [0,1] := by
  have hlayout := Option.some_get (x := batchLayoutInit 1 2 150 500) (by decide)
  exact ⟨_,hlayout.symm,@lhaBatch_chunks {} batchEntries 1000 _ _ _ _ _ hlayout.symm (by decide)
    [0,1] (by decide) {} 0⟩

end ZZ9K.Archive
