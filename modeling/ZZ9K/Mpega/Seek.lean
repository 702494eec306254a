import ZZ9K.Framework.SignedOverflow
import ZZ9K.Math.Interpolation

namespace ZZ9K.Mpega

open ZZ9K.Framework ZZ9K.Math

/-- `MPEGACompatStream`, what a seek reads of it -/
structure SeekState where
  streamSize : Int32
  streamStartByte : Int32
  msDuration : UInt32
  bitrate : Int16
  xingStreamBytes : UInt32
  xingHasToc : Bool
  xingToc : Vector UInt8 100

namespace SeekState

section

variable {M : Type → Type} [Monad M] [IntArith M] (state : SeekState)

open IntArith

/-- The stream's size; it is not known unless it is positive. -/
def size : Int := state.streamSize.toInt

/-- The start byte as the seek functions take it -/
def streamStart : Int :=
  if 0 < state.streamStartByte.toInt then state.streamStartByte.toInt else 0

/-- The ends of `mpega_xing_toc_seek_byte` and `mpega_stream_seek_byte_for_ms`: -1 for a position
that is not in the stream -/
def seekBytePos (bytePos : Int) : M Int :=
  if 2147483647 < bytePos then return -1
  else if 0 < state.size ∧ state.size ≤ bytePos then return -1
  else int32 bytePos

/-- The stream bytes that the TOC is about -/
def tocStreamBytes : M Int :=
  if state.xingStreamBytes = 0 ∧ state.streamStartByte.toInt < state.size then do
    let bytes ← int32 (state.size-state.streamStartByte.toInt)
    uint32 bytes
  else return state.xingStreamBytes.toNat

/-- The entry of the TOC at an index, or 256 behind it -/
def tocEntry (index : Nat) : Int :=
  if index < 100 then (state.xingToc.getD index 0).toNat else 256

/-- The interpolation in `mpega_xing_toc_seek_byte`, in hundredths of an entry -/
def tocInterpolated (msTimePosition : UInt32) : M Int := do
  let product ← uint64 (msTimePosition.toNat*10000)
  let scaledPercent := product/state.msDuration.toNat
  let index ← uint32 (scaledPercent/100)
  let index := if 99 < index then 99 else index
  let whole ← uint64 (index*100)
  let part ← uint64 (scaledPercent-whole)
  let fraction ← uint32 part
  let fraction ← int32 fraction
  let fa := state.tocEntry index.toNat
  let fb := if index < 99 then state.tocEntry (index.toNat+1) else 256
  let base ← int32 (fa*100)
  let step ← int32 (fb-fa)
  let rise ← int32 (step*fraction)
  let interpolated ← int32 (base+rise)
  let interpolated := if interpolated < 0 then 0 else interpolated
  return if 25600 < interpolated then 25600 else interpolated

/-- `mpega_xing_toc_seek_byte` -/
def xingTocSeekByte (msTimePosition : UInt32) : M Int := do
  if ¬state.xingHasToc ∨ state.msDuration = 0 then return -1
  if state.msDuration ≤ msTimePosition then return -1
  let streamBytes ← state.tocStreamBytes
  if streamBytes = 0 then return -1
  let interpolated ← state.tocInterpolated msTimePosition
  let product ← uint64 (streamBytes*interpolated)
  let bytePos ← uint64 (state.streamStart+product/25600)
  state.seekBytePos bytePos

/-- The stream bytes that the linear estimate is about -/
def linearStreamBytes : M Int :=
  if 0 < state.streamStart ∧ state.streamStartByte.toInt < state.size then
    int32 (state.size-state.streamStartByte.toInt)
  else return state.size

/-- The part of `mpega_stream_seek_byte_for_ms` after the TOC has been refused -/
def linearSeekByte (msTimePosition : UInt32) : M Int := do
  if 0 < state.size ∧ state.msDuration ≠ 0 then
    if state.msDuration ≤ msTimePosition then return -1
    let streamBytes ← state.linearStreamBytes
    let product ← uint64 (streamBytes*msTimePosition.toNat)
    let bytePos ← uint64 (state.streamStart+product/state.msDuration.toNat)
    state.seekBytePos bytePos
  else if 0 < state.bitrate.toInt then
    let product ← uint64 (msTimePosition.toNat*state.bitrate.toInt)
    let bytePos ← uint64 (state.streamStart+product/8)
    state.seekBytePos bytePos
  else return -1

/-- `mpega_stream_seek_byte_for_ms` -/
def seekByteForMs (msTimePosition : UInt32) : M Int := do
  if msTimePosition = 0 then return state.streamStart
  let tocBytePos ← state.xingTocSeekByte msTimePosition
  if 0 ≤ tocBytePos then return tocBytePos
  state.linearSeekByte msTimePosition

end

variable (state : SeekState)

/-- The TOC never falls from one entry to the next. -/
def TocNondecreasing : Prop :=
  ∀ i j, i ≤ j → j < 100 → state.xingToc.getD i 0 ≤ state.xingToc.getD j 0

variable {state} {msTimePosition : UInt32}

section

variable (state msTimePosition)

theorem agrees_seekBytePos (bytePos : Int) :
    Agrees (state.seekBytePos bytePos) (state.seekBytePos bytePos) := by
  apply agrees_ite
  · exact agrees_pure _
  apply agrees_ite
  · exact agrees_pure _
  · exact agrees_int32 _

theorem agrees_tocStreamBytes : Agrees state.tocStreamBytes state.tocStreamBytes := by
  apply agrees_ite
  · exact (agrees_int32 _).bind fun bytes => agrees_uint32 bytes
  · exact agrees_pure _

theorem agrees_tocInterpolated :
    Agrees (state.tocInterpolated msTimePosition) (state.tocInterpolated msTimePosition) := by
  apply (agrees_uint64 _).bind
  intro product
  apply (agrees_uint32 _).bind
  intro index
  apply (agrees_uint64 _).bind
  intro whole
  apply (agrees_uint64 _).bind
  intro part
  apply (agrees_uint32 _).bind
  intro fraction
  apply (agrees_int32 _).bind
  intro fraction
  apply (agrees_int32 _).bind
  intro base
  apply (agrees_int32 _).bind
  intro step
  apply (agrees_int32 _).bind
  intro rise
  apply (agrees_int32 _).bind
  intro interpolated
  exact agrees_pure _

theorem agrees_xingTocSeekByte :
    Agrees (state.xingTocSeekByte msTimePosition) (state.xingTocSeekByte msTimePosition) := by
  apply agrees_ite
  · exact agrees_pure _
  apply agrees_ite
  · exact agrees_pure _
  apply state.agrees_tocStreamBytes.bind
  intro streamBytes
  apply agrees_ite
  · exact agrees_pure _
  apply (state.agrees_tocInterpolated msTimePosition).bind
  intro interpolated
  apply (agrees_uint64 _).bind
  intro product
  apply (agrees_uint64 _).bind
  exact state.agrees_seekBytePos

theorem agrees_linearStreamBytes : Agrees state.linearStreamBytes state.linearStreamBytes := by
  apply agrees_ite
  · exact agrees_int32 _
  · exact agrees_pure _

theorem agrees_linearSeekByte :
    Agrees (state.linearSeekByte msTimePosition) (state.linearSeekByte msTimePosition) := by
  apply agrees_ite
  · apply agrees_ite
    · exact agrees_pure _
    apply state.agrees_linearStreamBytes.bind
    intro streamBytes
    apply (agrees_uint64 _).bind
    intro product
    apply (agrees_uint64 _).bind
    exact state.agrees_seekBytePos
  apply agrees_ite
  · apply (agrees_uint64 _).bind
    intro product
    apply (agrees_uint64 _).bind
    exact state.agrees_seekBytePos
  · exact agrees_pure _

theorem agrees_seekByteForMs :
    Agrees (state.seekByteForMs msTimePosition) (state.seekByteForMs msTimePosition) := by
  apply agrees_ite
  · exact agrees_pure _
  apply (state.agrees_xingTocSeekByte msTimePosition).bind
  intro tocBytePos
  apply agrees_ite
  · exact agrees_pure _
  · exact state.agrees_linearSeekByte msTimePosition

end

/-! What the estimates come to where nothing overflows -/

section

variable (state) (msTimePosition)

/-- A position, or -1 where it is not in the stream -/
def inStream (bytePos : Int) : Int :=
  if 2147483647 < bytePos then -1
  else if 0 < state.size ∧ state.size ≤ bytePos then -1
  else bytePos

/-- The bytes the TOC divides -/
def tocBytes : Int :=
  if state.xingStreamBytes = 0 ∧ state.streamStartByte.toInt < state.size then
    state.size-state.streamStartByte.toInt
  else state.xingStreamBytes.toNat

/-- The time in ten-thousandths of the duration -/
def tocScaled : Nat := msTimePosition.toNat*10000/state.msDuration.toNat

/-- Where the TOC puts a time -/
def tocPosition : Int :=
  state.streamStart+state.tocBytes*interpolate state.tocEntry 100 (state.tocScaled msTimePosition)/25600

def tocEstimate : Int :=
  if ¬state.xingHasToc ∨ state.msDuration = 0 then -1
  else if state.msDuration ≤ msTimePosition then -1
  else if state.tocBytes = 0 then -1
  else state.inStream (state.tocPosition msTimePosition)

/-- The bytes the linear estimate divides -/
def linearBytes : Int :=
  if 0 < state.streamStart ∧ state.streamStartByte.toInt < state.size then
    state.size-state.streamStartByte.toInt
  else state.size

def linearEstimate : Int :=
  if 0 < state.size ∧ state.msDuration ≠ 0 then
    if state.msDuration ≤ msTimePosition then -1
    else state.inStream
      (state.streamStart+state.linearBytes*msTimePosition.toNat/state.msDuration.toNat)
  else if 0 < state.bitrate.toInt then
    state.inStream (state.streamStart+msTimePosition.toNat*state.bitrate.toInt/8)
  else -1

def estimate : Int :=
  if msTimePosition = 0 then state.streamStart
  else if 0 ≤ state.tocEstimate msTimePosition then state.tocEstimate msTimePosition
  else state.linearEstimate msTimePosition

end

variable (state) in
theorem streamStart_nonneg : 0 ≤ state.streamStart := by
  rw [streamStart]
  split_ifs with h
  · exact h.le
  · rfl

variable (state) in
theorem streamStart_lt : state.streamStart < 2^31 := by
  have := state.streamStartByte.toInt_lt
  rw [streamStart]
  split_ifs
  · exact this
  · decide

variable (state) in
theorem size_lt : state.size < 2^31 := state.streamSize.toInt_lt

theorem seekBytePos_eq {bytePos : Int} (hpos : 0 ≤ bytePos) :
    state.seekBytePos bytePos = some (state.inStream bytePos) := by
  rw [seekBytePos,inStream]
  split_ifs with hhigh hsize
  · rfl
  · rfl
  · exact int32_some (by omega) (by omega)

theorem inStream_lt {bytePos : Int} (h : 0 ≤ state.inStream bytePos) (hsize : 0 < state.size) :
    state.inStream bytePos < state.size := by
  rw [inStream] at h ⊢
  split_ifs at h ⊢ <;> omega

/-- Where a position is in the stream, the earlier ones are. -/
theorem inStream_mono {p q : Int} (hp : 0 ≤ p) (hpq : p ≤ q)
    (hq : 0 ≤ state.inStream (state.streamStart+q)) :
    state.streamStart ≤ state.inStream (state.streamStart+p) ∧
      state.inStream (state.streamStart+p) ≤ state.inStream (state.streamStart+q) := by
  have hstart := state.streamStart_nonneg
  rw [inStream] at hq
  rw [inStream,inStream]
  split_ifs at hq ⊢ <;> omega

variable (state) in
theorem tocEntry_nonneg (index : Nat) : 0 ≤ state.tocEntry index := by
  rw [tocEntry]
  split_ifs
  · exact Int.natCast_nonneg _
  · decide

variable (state) in
theorem tocEntry_le (index : Nat) : state.tocEntry index ≤ 256 := by
  have := (state.xingToc.getD index 0).toNat_lt
  rw [tocEntry]
  split_ifs <;> omega

theorem tocEntry_mono (htoc : state.TocNondecreasing) : Monotone state.tocEntry := by
  intro i j hij
  by_cases hj : j < 100
  · have hle := UInt8.le_iff_toNat_le.mp (htoc i j hij hj)
    rw [tocEntry,tocEntry,if_pos hj,if_pos (lt_of_le_of_lt hij hj)]
    exact_mod_cast hle
  · have hend : state.tocEntry j = 256 := if_neg hj
    rw [hend]
    exact state.tocEntry_le i

theorem tocScaled_lt (htime : msTimePosition < state.msDuration) :
    state.tocScaled msTimePosition < 10000 := by
  have hlt := UInt32.lt_iff_toNat_lt.mp htime
  rw [tocScaled,Nat.div_lt_iff_lt_mul (by omega)]
  omega

variable (state) in
theorem tocScaled_mono {t u : UInt32} (h : t ≤ u) : state.tocScaled t ≤ state.tocScaled u := by
  have hle := UInt32.le_iff_toNat_le.mp h
  exact Nat.div_le_div_right (Nat.mul_le_mul_right _ hle)

theorem interpolated_bounds (htoc : state.TocNondecreasing) (s : Nat) :
    0 ≤ interpolate state.tocEntry 100 s ∧ interpolate state.tocEntry 100 s ≤ 25600 := by
  obtain ⟨hlow,hhigh⟩ := interpolate_bounds (tocEntry_mono htoc) (by decide : 0 < 100) s
  have := state.tocEntry_nonneg (s/100)
  have := state.tocEntry_le (s/100+1)
  push_cast at hlow hhigh
  omega

/-- Where the entries do not fall, nothing in the interpolation overflows. -/
theorem tocInterpolated_eq (htoc : state.TocNondecreasing)
    (htime : msTimePosition < state.msDuration) :
    state.tocInterpolated msTimePosition
      = some (interpolate state.tocEntry 100 (state.tocScaled msTimePosition)) := by
  have hscaled := tocScaled_lt htime
  have hms := msTimePosition.toNat_lt
  obtain ⟨hlow,hhigh⟩ := interpolated_bounds htoc (state.tocScaled msTimePosition)
  generalize hs : state.tocScaled msTimePosition = s at hscaled hlow hhigh
  have hquot : (msTimePosition.toNat*10000 : Int)/state.msDuration.toNat = s := by
    rw [← hs,tocScaled]
    push_cast
    norm_num
  have hindex : (s : Int)/100 = (s/100 : Nat) := by norm_cast
  have hpart : (s : Int)-(s/100 : Nat)*100 = (s%100 : Nat) := by omega
  have hfa := state.tocEntry_nonneg (s/100)
  have hfb := state.tocEntry_le (s/100+1)
  have hle : state.tocEntry (s/100) ≤ state.tocEntry (s/100+1) := tocEntry_mono htoc (by omega)
  have hrise : 0 ≤ (state.tocEntry (s/100+1)-state.tocEntry (s/100))*(s%100 : Nat) :=
    mul_nonneg (by omega) (Int.natCast_nonneg _)
  -- behind the last entry the step goes to 256
  have hnext : (if ((s/100 : Nat) : Int) < 99 then state.tocEntry (s/100+1) else 256)
      = state.tocEntry (s/100+1) := by
    split_ifs with h
    · rfl
    · rw [tocEntry,if_neg (by omega)]
  rw [interpolate] at hlow hhigh ⊢
  push_cast only [Nat.cast_ofNat] at hlow hhigh
  rw [tocInterpolated,uint64_bind (by omega) (by omega),hquot]
  dsimp only
  rw [hindex,uint32_bind (by omega) (by omega),if_neg (by omega),Int.toNat_natCast,hnext,
    uint64_bind (by omega) (by omega),hpart,uint64_bind (by omega) (by omega),
    uint32_bind (by omega) (by omega),int32_bind (by omega) (by omega),
    int32_bind (by omega) (by omega),int32_bind (by omega) (by omega),
    int32_bind (by omega) (by omega),int32_bind (by omega) (by omega)]
  rw [if_neg (by omega : ¬_ < (0 : Int)),if_neg (by omega)]
  rfl

theorem tocBytes_bounds (hsize : state.size-state.streamStartByte.toInt < 2^31) :
    0 ≤ state.tocBytes ∧ state.tocBytes < 2^32 := by
  have := state.xingStreamBytes.toNat_lt
  rw [tocBytes]
  split_ifs <;> omega

theorem tocStreamBytes_eq (hsize : state.size-state.streamStartByte.toInt < 2^31) :
    state.tocStreamBytes = some state.tocBytes := by
  rw [tocStreamBytes,tocBytes]
  split_ifs with h
  · have hlt := h.2
    rw [int32_bind (by omega) (by omega),uint32_some (by omega) (by omega)]
  · rfl

/-- Nothing in the estimate from the TOC overflows. -/
theorem xingTocSeekByte_eq (htoc : state.xingHasToc → state.TocNondecreasing)
    (hsize : state.size-state.streamStartByte.toInt < 2^31) :
    state.xingTocSeekByte msTimePosition = some (state.tocEstimate msTimePosition) := by
  rw [xingTocSeekByte,tocEstimate,tocStreamBytes_eq hsize]
  split_ifs with habsent htime hzero
  · rfl
  · rfl
  · exact if_pos hzero
  · have htoc := htoc (not_not.mp (not_or.mp habsent).1)
    obtain ⟨hbytes,hlast⟩ := tocBytes_bounds hsize
    obtain ⟨hlow,hhigh⟩ := interpolated_bounds htoc (state.tocScaled msTimePosition)
    have hstart := state.streamStart_nonneg
    have hend := state.streamStart_lt
    have hprod := mul_nonneg hbytes hlow
    have hbound := mul_le_mul hlast.le hhigh hlow (by decide : (0 : Int) ≤ 2^32)
    rw [some_bind,if_neg hzero,
      tocInterpolated_eq htoc (UInt32.not_le.mp htime),some_bind,
      uint64_bind (by omega) (by omega),uint64_bind (by omega) (by omega),seekBytePos_eq (by omega),
      tocPosition]

theorem linearBytes_bounds (hsize : 0 < state.size) :
    0 ≤ state.linearBytes ∧ state.linearBytes < 2^31 := by
  have := state.size_lt
  rw [linearBytes,streamStart]
  split_ifs <;> omega

theorem linearStreamBytes_eq : state.linearStreamBytes = some state.linearBytes := by
  have := state.size_lt
  rw [linearStreamBytes,linearBytes]
  split_ifs with h
  · have hpos := h.1
    have hlt := h.2
    rw [streamStart] at hpos
    exact int32_some (by omega) (by split_ifs at hpos <;> omega)
  · rfl

/-- Nothing in the linear estimate overflows. -/
theorem linearSeekByte_eq :
    state.linearSeekByte msTimePosition = some (state.linearEstimate msTimePosition) := by
  have hms := msTimePosition.toNat_lt
  have hstart := state.streamStart_nonneg
  have hend := state.streamStart_lt
  rw [linearSeekByte,linearEstimate]
  split_ifs with hknown htime hrate
  · rfl
  · obtain ⟨hbytes,hlast⟩ := linearBytes_bounds hknown.1
    have hprod := mul_nonneg hbytes (Int.natCast_nonneg msTimePosition.toNat)
    have hbound := mul_le_mul hlast.le (by omega : (msTimePosition.toNat : Int) ≤ 2^32)
      (Int.natCast_nonneg _) (by decide : (0 : Int) ≤ 2^31)
    have hquot := Int.ediv_nonneg hprod (Int.natCast_nonneg state.msDuration.toNat)
    have hle := Int.ediv_le_self state.msDuration.toNat hprod
    rw [linearStreamBytes_eq,some_bind,
      uint64_bind (by omega) (by omega),uint64_bind (by omega) (by omega),seekBytePos_eq (by omega)]
  · have hhigh := state.bitrate.toInt_lt
    have hprod := mul_nonneg (Int.natCast_nonneg msTimePosition.toNat) hrate.le
    have hbound := mul_le_mul (by omega : (msTimePosition.toNat : Int) ≤ 2^32) hhigh.le hrate.le
      (by decide : (0 : Int) ≤ 2^32)
    rw [uint64_bind (by omega) (by omega),uint64_bind (by omega) (by omega),
      seekBytePos_eq (by omega)]
  · rfl

/-- Nothing in a seek overflows. -/
theorem seekByteForMs_eq (htoc : state.xingHasToc → state.TocNondecreasing)
    (hsize : state.size-state.streamStartByte.toInt < 2^31) :
    state.seekByteForMs msTimePosition = some (state.estimate msTimePosition) := by
  rw [seekByteForMs,estimate,xingTocSeekByte_eq htoc hsize]
  split_ifs with hzero htocPos
  · rfl
  · exact if_pos htocPos
  · exact (if_neg htocPos).trans linearSeekByte_eq

variable {t u : UInt32}

/-- What the TOC gives a time it gives no earlier one more, and it gives it something. -/
theorem tocEstimate_mono (htoc : state.xingHasToc → state.TocNondecreasing)
    (hsize : state.size-state.streamStartByte.toInt < 2^31) (hle : t ≤ u)
    (hu : 0 ≤ state.tocEstimate u) :
    state.streamStart ≤ state.tocEstimate t ∧ state.tocEstimate t ≤ state.tocEstimate u := by
  rw [tocEstimate] at hu
  rw [tocEstimate,tocEstimate]
  split_ifs at hu with habsent htime hzero
  · omega
  · omega
  · omega
  · have htoc := htoc (not_not.mp (not_or.mp habsent).1)
    obtain ⟨hbytes,-⟩ := tocBytes_bounds hsize
    have hlow := (interpolated_bounds htoc (state.tocScaled t)).1
    have hrise := interpolate_mono (tocEntry_mono htoc) (by decide : 0 < 100)
      (state.tocScaled_mono hle)
    rw [if_neg habsent,if_neg fun h => htime (UInt32.le_trans h hle),if_neg hzero,if_neg habsent,
      if_neg htime,if_neg hzero]
    exact inStream_mono (Int.ediv_nonneg (mul_nonneg hbytes hlow) (by decide))
      (Int.ediv_le_ediv (by decide) (mul_le_mul_of_nonneg_left hrise hbytes)) hu

theorem linearEstimate_mono (hle : t ≤ u) (ht : 0 ≤ state.linearEstimate t)
    (hu : 0 ≤ state.linearEstimate u) :
    state.streamStart ≤ state.linearEstimate t ∧
      state.linearEstimate t ≤ state.linearEstimate u := by
  have hms : (t.toNat : Int) ≤ u.toNat := by exact_mod_cast UInt32.le_iff_toNat_le.mp hle
  have htime : (0 : Int) ≤ t.toNat := Int.natCast_nonneg _
  rw [linearEstimate] at ht hu
  rw [linearEstimate,linearEstimate]
  by_cases hknown : 0 < state.size ∧ state.msDuration ≠ 0
  · rw [if_pos hknown] at ht hu
    rw [if_pos hknown,if_pos hknown]
    obtain ⟨hbytes,-⟩ := linearBytes_bounds hknown.1
    have hduration : (0 : Int) < state.msDuration.toNat := by
      have := UInt32.lt_iff_toNat_lt.mp (UInt32.pos_iff_ne_zero.mpr hknown.2)
      exact_mod_cast this
    split_ifs at ht hu ⊢
    · omega
    · omega
    · omega
    · exact inStream_mono (Int.ediv_nonneg (mul_nonneg hbytes htime) hduration.le)
        (Int.ediv_le_ediv hduration (mul_le_mul_of_nonneg_left hms hbytes)) hu
  · rw [if_neg hknown] at ht hu
    rw [if_neg hknown,if_neg hknown]
    split_ifs at ht hu ⊢ with hrate
    · exact inStream_mono (Int.ediv_nonneg (mul_nonneg htime hrate.le) (by decide))
        (Int.ediv_le_ediv (by decide) (mul_le_mul_of_nonneg_right hms hrate.le)) hu
    · omega

theorem tocEstimate_lt (h : 0 ≤ state.tocEstimate t) (hsize : 0 < state.size) :
    state.tocEstimate t < state.size := by
  rw [tocEstimate] at h ⊢
  split_ifs at h ⊢
  · omega
  · omega
  · omega
  · exact inStream_lt h hsize

theorem linearEstimate_lt (h : 0 ≤ state.linearEstimate t) (hsize : 0 < state.size) :
    state.linearEstimate t < state.size := by
  rw [linearEstimate] at h ⊢
  split_ifs at h ⊢
  · omega
  · exact inStream_lt h hsize
  · exact inStream_lt h hsize
  · omega

/-- A position that a seek may give: not before the start byte, and where the size is known and
above the start byte, before the end -/
def Inside (bytePos : Int) : Prop :=
  state.streamStartByte.toInt ≤ bytePos ∧
    (0 < state.size → state.streamStartByte.toInt < state.size → bytePos < state.size)

theorem streamStart_le_estimate (htoc : state.xingHasToc → state.TocNondecreasing)
    (hsize : state.size-state.streamStartByte.toInt < 2^31) (h : 0 ≤ state.estimate t) :
    state.streamStart ≤ state.estimate t := by
  rw [estimate] at h ⊢
  split_ifs at h ⊢
  · exact le_rfl
  · exact (tocEstimate_mono htoc hsize (UInt32.le_refl t) h).1
  · exact (linearEstimate_mono (UInt32.le_refl t) h h).1

theorem estimate_inside (htoc : state.xingHasToc → state.TocNondecreasing)
    (hsize : state.size-state.streamStartByte.toInt < 2^31) (h : 0 ≤ state.estimate t) :
    state.Inside (state.estimate t) := by
  constructor
  · have hstart : state.streamStartByte.toInt ≤ state.streamStart := by
      rw [streamStart]
      split_ifs <;> omega
    exact hstart.trans (streamStart_le_estimate htoc hsize h)
  intro hpos hlt
  rw [estimate] at h ⊢
  split_ifs at h ⊢
  · rw [streamStart]
    split_ifs <;> assumption
  · exact tocEstimate_lt h hpos
  · exact linearEstimate_lt h hpos

/-- The estimates rise with the time, but for a step from the TOC to the linear estimate. -/
theorem estimate_mono (htoc : state.xingHasToc → state.TocNondecreasing)
    (hsize : state.size-state.streamStartByte.toInt < 2^31) (hle : t ≤ u)
    (ht : 0 ≤ state.estimate t) (hu : 0 ≤ state.estimate u)
    (hstep : t ≠ 0 → 0 ≤ state.tocEstimate t → 0 ≤ state.tocEstimate u) :
    state.estimate t ≤ state.estimate u := by
  by_cases hzero : t = 0
  · have hstart : state.estimate t = state.streamStart := if_pos hzero
    rw [hstart]
    exact streamStart_le_estimate htoc hsize hu
  have hlater : u ≠ 0 := by
    rintro rfl
    exact hzero (UInt32.le_antisymm hle UInt32.zero_le)
  rw [estimate,if_neg hzero] at ht ⊢
  rw [estimate,if_neg hlater] at hu ⊢
  by_cases htocPos : 0 ≤ state.tocEstimate t
  · have hlaterPos := hstep hzero htocPos
    rw [if_pos htocPos,if_pos hlaterPos]
    exact (tocEstimate_mono htoc hsize hle hlaterPos).2
  · -- what the TOC has refused it refuses from then on
    have hlaterNeg : ¬0 ≤ state.tocEstimate u := by
      intro hlaterPos
      have := (tocEstimate_mono htoc hsize hle hlaterPos).1
      have := state.streamStart_nonneg
      omega
    rw [if_neg htocPos] at ht ⊢
    rw [if_neg hlaterNeg] at hu ⊢
    exact (linearEstimate_mono hle ht hu).2

/-- In every seek nothing overflows, a position it gives is inside the stream, and the positions rise
with the time unless the TOC gives the first one and has been refused for the second. -/
theorem seekByteForMs_rises (state : SeekState) (htoc : state.xingHasToc → state.TocNondecreasing)
    (hsize : state.streamSize.toInt-state.streamStartByte.toInt < 2^31) :
    (∀ t, state.seekByteForMs t = some (Id.run (state.seekByteForMs t))) ∧
      (∀ t, 0 ≤ Id.run (state.seekByteForMs t) → state.Inside (Id.run (state.seekByteForMs t))) ∧
      ∀ t u, t ≤ u → 0 ≤ Id.run (state.seekByteForMs t) → 0 ≤ Id.run (state.seekByteForMs u) →
        ¬(t ≠ 0 ∧ 0 ≤ Id.run (state.xingTocSeekByte t) ∧ Id.run (state.xingTocSeekByte u) < 0) →
        Id.run (state.seekByteForMs t) ≤ Id.run (state.seekByteForMs u) := by
  have hseek (t : UInt32) : Id.run (state.seekByteForMs t) = state.estimate t :=
    state.agrees_seekByteForMs t _ (seekByteForMs_eq htoc hsize)
  have htocSeek (t : UInt32) : Id.run (state.xingTocSeekByte t) = state.tocEstimate t :=
    state.agrees_xingTocSeekByte t _ (xingTocSeekByte_eq htoc hsize)
  refine ⟨?_,?_,?_⟩
  · intro t
    rw [hseek]
    exact seekByteForMs_eq htoc hsize
  · intro t ht
    rw [hseek] at ht ⊢
    exact estimate_inside htoc hsize ht
  · intro t u hle ht hu hsame
    rw [hseek] at ht hu
    rw [htocSeek,htocSeek] at hsame
    rw [hseek,hseek]
    apply estimate_mono htoc hsize hle ht hu
    intro hzero htocPos
    by_contra hlater
    exact hsame ⟨hzero,htocPos,not_le.mp hlater⟩

/-- A stream of 1000 bytes and a second, with a TOC that divides evenly what the Xing header declares -/
def evenToc (xingStreamBytes : UInt32) : SeekState where
  streamSize := 1000
  streamStartByte := 0
  msDuration := 1000
  bitrate := 0
  xingStreamBytes := xingStreamBytes
  xingHasToc := true
  xingToc := Vector.ofFn fun i : Fin 100 => (i.val*256/100).toUInt8

theorem evenToc_nondecreasing (xingStreamBytes : UInt32) :
    (evenToc xingStreamBytes).TocNondecreasing := by
  have h : ∀ j < 100, ∀ i ≤ j,
      (evenToc 0).xingToc.getD i 0 ≤ (evenToc 0).xingToc.getD j 0 := by decide +kernel
  intro i j hij hj
  exact h j hj i hij

/-- Where the Xing header declares the true size, 0.4 s are before 0.6 s. -/
theorem seekByteForMs_rises_evenToc :
    (evenToc 1000).TocNondecreasing ∧
      Id.run ((evenToc 1000).seekByteForMs 400) ≤ Id.run ((evenToc 1000).seekByteForMs 600) :=
  ⟨evenToc_nondecreasing 1000,
    (seekByteForMs_rises (evenToc 1000) (fun _ => evenToc_nondecreasing 1000) (by decide)).2.2 400 600
      (by decide) (by decide +kernel) (by decide +kernel) (by decide +kernel)⟩

/-- Where it declares twice the size, the TOC puts 0.4 s at byte 796 and is refused for 0.6 s, which
the linear estimate puts at byte 600. And a start byte of -1 is not subtracted without overflow. -/
theorem seekByteForMs_falls :
    (evenToc 2000).TocNondecreasing ∧
      Id.run ((evenToc 2000).seekByteForMs 400) = 796 ∧
      Id.run ((evenToc 2000).seekByteForMs 600) = 600 ∧
      ({ evenToc 0 with streamSize := 2147483647, streamStartByte := -1 } :
        SeekState).seekByteForMs (M := Option) 400 = none := by
  refine ⟨evenToc_nondecreasing 2000,?_,?_,?_⟩
  · decide +kernel
  · decide +kernel
  · decide +kernel

end SeekState

end ZZ9K.Mpega
