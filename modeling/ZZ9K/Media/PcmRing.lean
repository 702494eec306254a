import Mathlib.Logic.Relation
import ZZ9K.Math.Cyclic
import ZZ9K.Media.SharedCopy

namespace ZZ9K.Media

open ZZ9K.Abi ZZ9K.Host ZZ9K.Framework ZZ9K.Math

/-- `ZZPlayPCMRing` -/
structure PcmRing where
  shared : SharedBuffer
  capacity : UInt32
  acknowledged : UInt64

/-- `zzplay_pcm_ring_init` with a buffer -/
def pcmRingInit (shared : SharedBuffer) : PcmRing :=
  {shared,capacity := shared.length,acknowledged := 0}

namespace PcmRing

variable (ring : PcmRing)

/-- `zzplay_pcm_ring_available` -/
def available (produced : UInt64) : UInt64 :=
  if ring.shared.data = 0 ∨ ring.capacity = 0 ∨ produced < ring.acknowledged then 0
  else
    let available := produced-ring.acknowledged
    if available ≤ ring.capacity.toUInt64 then available else 0

/-- The bytes of whole frames that `zzplay_pcm_ring_copy` copies -/
def copyBytes (produced destinationBytes : UInt64) (frameBytes : UInt32) : UInt64 :=
  let available := ring.available produced
  let bytes := if available < destinationBytes then available else destinationBytes
  bytes-bytes%frameBytes.toUInt64

/-- The offset in the ring where a copy starts -/
def copyOffset : UInt32 := (ring.acknowledged%ring.capacity.toUInt64).toUInt32

/-- How many of the bytes a copy takes before the end of the ring -/
def copyFirst (bytes : UInt64) : UInt64 :=
  let toEnd := (ring.capacity-ring.copyOffset).toUInt64
  if toEnd < bytes then toEnd else bytes

/-- `zzplay_pcm_ring_copy`: what it returns, and the bytes it stores from `destination` on -/
def copy (produced : UInt64) (destination : Nat) (destinationBytes : UInt64)
    (frameBytes : UInt32) : Loading (UInt64 × List UInt8) :=
  if destination = 0 ∨ frameBytes = 0 then .ret (0,[])
  else
    let bytes := ring.copyBytes produced destinationBytes frameBytes
    if bytes = 0 then .ret (0,[])
    else
      let first := ring.copyFirst bytes
      sharedCopyFrom destination ring.shared ring.copyOffset first.toUInt32 >>= fun
        | none => .ret (0,[])
        | some data =>
          if first < bytes then
            sharedCopyFrom (destination+first.toNat) ring.shared 0 (bytes-first).toUInt32 >>= fun
              | none => .ret (0,data)
              | some rest => .ret (bytes,data++rest)
          else .ret (bytes,data)

/-- `zzplay_pcm_ring_acknowledge`: whether it accepts, and the ring after it -/
def acknowledge (produced bytes : UInt64) : Bool × PcmRing :=
  if ring.available produced < bytes then (false,ring)
  else (true,{ring with acknowledged := ring.acknowledged+bytes})

end PcmRing

/-- The firmware's side of a ring: its bytes, how many of the stream are written to it, and the
total reported last -/
structure PcmFirmware where
  memory : Nat → UInt8
  written : Nat
  produced : UInt64

/-- What the firmware does: it writes the next byte of the stream where the ring has room, or
reports a total of written bytes. -/
inductive PcmFirmware.Step (stream : Nat → UInt8) (capacity acknowledged : Nat) :
    PcmFirmware → PcmFirmware → Prop
  | write (fw : PcmFirmware) (hroom : fw.written < acknowledged+capacity) :
    Step stream capacity acknowledged fw
      {fw with
        memory := Function.update fw.memory (fw.written%capacity) (stream fw.written)
        written := fw.written+1}
  | report (fw : PcmFirmware) (produced : UInt64) (hmore : fw.produced ≤ produced)
      (hwritten : produced.toNat ≤ fw.written) :
    Step stream capacity acknowledged fw {fw with produced}

/-- A ring and the firmware that fills it -/
structure PcmSystem where
  ring : PcmRing
  firmware : PcmFirmware

namespace PcmSystem

variable (stream : Nat → UInt8)

/-- What the firmware can come to while the ring is not acknowledged -/
def Becomes (s : PcmSystem) : PcmFirmware → PcmFirmware → Prop :=
  Relation.ReflTransGen
    (PcmFirmware.Step stream s.ring.capacity.toNat s.ring.acknowledged.toNat)

/-- The firmware goes on while a program loads from the ring: what it has come to by each load -/
structure Meanwhile (s : PcmSystem) (path : Nat → PcmFirmware) : Prop where
  first : s.Becomes stream s.firmware (path 0)
  next : ∀ k, s.Becomes stream (path k) (path (k+1))

/-- The contents of the ring on such a path -/
def contents (path : Nat → PcmFirmware) : Nat → Nat → UInt8 := fun k => (path k).memory

/-- A step of the system: of the firmware, a copy while the firmware goes on, or an
acknowledgement. The totals that the player uses are reported ones. -/
inductive Step : PcmSystem → PcmSystem → Prop
  | firmware (s : PcmSystem) {fw : PcmFirmware}
      (h : PcmFirmware.Step stream s.ring.capacity.toNat s.ring.acknowledged.toNat s.firmware fw) :
    Step s {s with firmware := fw}
  | copy (s : PcmSystem) {produced destinationBytes : UInt64} {destination : Nat}
      {frameBytes : UInt32} {path : Nat → PcmFirmware} {log : List (Answered Load Loaded)}
      {result : UInt64 × List UInt8} (hproduced : produced ≤ s.firmware.produced)
      (hpath : s.Meanwhile stream path)
      (hruns : Ask.Runs (s.ring.copy produced destination destinationBytes frameBytes) log result)
      (hloads : changing.Allows (contents path) log) :
    Step s {s with firmware := path log.length}
  | acknowledge (s : PcmSystem) {produced : UInt64} (bytes : UInt64)
      (hproduced : produced ≤ s.firmware.produced) :
    Step s {s with ring := (s.ring.acknowledge produced bytes).2}

/-- What can be reached from a new ring, whatever its bytes are at first -/
def Reached (shared : SharedBuffer) (s : PcmSystem) : Prop :=
  ∃ memory, Relation.ReflTransGen (Step stream) ⟨pcmRingInit shared,⟨memory,0,0⟩⟩ s

end PcmSystem

/-- A buffer that was allocated, and has bytes -/
structure Mapped (shared : SharedBuffer) : Prop where
  handle : shared.handle ≠ invalidHandle
  data : shared.data ≠ 0
  length : 0 < shared.length.toNat

/-- A ring over the whole of an allocated buffer -/
structure PcmRing.Over (ring : PcmRing) (shared : SharedBuffer) : Prop where
  mapped : Mapped shared
  buffer : ring.shared = shared
  capacity : ring.capacity = shared.length

namespace PcmRing

variable {ring : PcmRing} {shared : SharedBuffer}

/-- The window of a total: what it says was produced and is not acknowledged, where the ring has
room for that -/
def window (ring : PcmRing) (produced : UInt64) : Nat :=
  if produced.toNat ≤ ring.acknowledged.toNat+ring.capacity.toNat then
    produced.toNat-ring.acknowledged.toNat else 0

theorem available_toNat (h : ring.Over shared) (produced : UInt64) :
    (ring.available produced).toNat = ring.window produced := by
  have hlength := h.mapped.length
  have hcapacity : ring.capacity ≠ 0 := by
    rw [h.capacity]
    exact fun he => absurd hlength (by rw [he]; decide)
  have hdata : ring.shared.data ≠ 0 := h.buffer ▸ h.mapped.data
  rw [available,window]
  by_cases hless : produced < ring.acknowledged
  · rw [if_pos (.inr (.inr hless))]
    rw [UInt64.lt_iff_toNat_lt] at hless
    split_ifs
    · exact (Nat.sub_eq_zero_of_le hless.le).symm
    · rfl
  · rw [if_neg (by simp [hdata,hcapacity,hless])]
    rw [UInt64.lt_iff_toNat_lt,Nat.not_lt] at hless
    have hsub := UInt64.toNat_sub_of_le _ _ (UInt64.le_iff_toNat_le.mpr hless)
    dsimp only
    simp only [UInt64.le_iff_toNat_le,hsub,UInt32.toNat_toUInt64]
    split_ifs with hfits hroom hroom
    · exact hsub
    · omega
    · omega
    · rfl

/-- How many of so many bytes are in whole frames -/
def inFrames (bytes frameBytes : Nat) : Nat := bytes-bytes%frameBytes

/-- How many bytes a copy is to take -/
def wholeFrames (ring : PcmRing) (produced destinationBytes : UInt64) (frameBytes : UInt32) : Nat :=
  inFrames (min (ring.window produced) destinationBytes.toNat) frameBytes.toNat

theorem copyBytes_toNat (h : ring.Over shared) (produced destinationBytes : UInt64)
    (frameBytes : UInt32) : (ring.copyBytes produced destinationBytes frameBytes).toNat =
      ring.wholeFrames produced destinationBytes frameBytes := by
  have hmin : (if ring.available produced < destinationBytes then ring.available produced
      else destinationBytes).toNat = min (ring.window produced) destinationBytes.toNat := by
    rw [← available_toNat h]
    split_ifs with hless
    · exact (Nat.min_eq_left (UInt64.lt_iff_toNat_lt.mp hless).le).symm
    · rw [UInt64.lt_iff_toNat_lt,Nat.not_lt] at hless
      exact (Nat.min_eq_right hless).symm
  rw [copyBytes,wholeFrames,inFrames]
  generalize (if ring.available produced < destinationBytes then ring.available produced
    else destinationBytes) = bytes at hmin ⊢
  have hle : (bytes%frameBytes.toUInt64).toNat ≤ bytes.toNat := by
    rw [UInt64.toNat_mod]
    exact Nat.mod_le _ _
  rw [UInt64.toNat_sub_of_le _ _ (UInt64.le_iff_toNat_le.mpr hle),UInt64.toNat_mod,
    UInt32.toNat_toUInt64,hmin]

theorem wholeFrames_le (ring : PcmRing) (produced destinationBytes : UInt64) (frameBytes : UInt32) :
    ring.wholeFrames produced destinationBytes frameBytes ≤ ring.window produced :=
  (Nat.sub_le _ _).trans (Nat.min_le_left _ _)

theorem window_le (produced : UInt64) : ring.window produced ≤ ring.capacity.toNat := by
  rw [window]
  split_ifs <;> omega

/-- Bytes of whole frames are whole frames. -/
theorem wholeFrames_mod (produced destinationBytes : UInt64) (frameBytes : UInt32) :
    ring.wholeFrames produced destinationBytes frameBytes%frameBytes.toNat = 0 := by
  rw [wholeFrames,inFrames]
  exact Nat.mod_eq_zero_of_dvd (Nat.dvd_sub_mod _)

/-- The places in the ring of the bytes that a copy of `n` bytes takes -/
def places (ring : PcmRing) (n : Nat) : Set Nat :=
  {x | ∃ i, i < n ∧ x = (ring.acknowledged.toNat+i)%ring.capacity.toNat}

/-- The bytes of the ring that follow the acknowledged ones -/
def newest (ring : PcmRing) (memory : Nat → UInt8) (n : Nat) : List UInt8 :=
  (List.range n).map fun i => memory ((ring.acknowledged.toNat+i)%ring.capacity.toNat)

/-- How a copy of `n` bytes is cut at the end of the ring: the offset and the length of its first
range -/
structure Cut (ring : PcmRing) (bytes first : UInt64) (offset : UInt32) : Prop where
  start : offset.toNat = ring.acknowledged.toNat%ring.capacity.toNat
  length : first.toNat = min bytes.toNat (ring.capacity.toNat-offset.toNat)

theorem copy_cut (hcapacity : 0 < ring.capacity.toNat) (bytes : UInt64) :
    ring.Cut bytes (ring.copyFirst bytes) ring.copyOffset := by
  have hlt := Nat.mod_lt ring.acknowledged.toNat hcapacity
  have hword := ring.capacity.toNat_lt
  have hoffset : ring.copyOffset.toNat = ring.acknowledged.toNat%ring.capacity.toNat := by
    rw [copyOffset,UInt64.toNat_toUInt32,UInt64.toNat_mod,UInt32.toNat_toUInt64]
    exact Nat.mod_eq_of_lt (hlt.trans hword)
  have hsub := UInt32.toNat_sub_of_le ring.capacity _
    (UInt32.le_iff_toNat_le.mpr (hoffset.trans_le hlt.le))
  refine ⟨hoffset,?_⟩
  rw [copyFirst]
  split_ifs with hend
  · rw [UInt64.lt_iff_toNat_lt,UInt32.toNat_toUInt64] at hend
    rw [UInt32.toNat_toUInt64]
    omega
  · rw [UInt64.lt_iff_toNat_lt,UInt32.toNat_toUInt64] at hend
    omega

section

variable {bytes first : UInt64} {offset : UInt32} (cut : ring.Cut bytes first offset)
  (hcapacity : 0 < ring.capacity.toNat) (hbytes : bytes.toNat ≤ ring.capacity.toNat)
include cut hcapacity

/-- The first range holds the bytes from the acknowledged ones on. -/
theorem Cut.place {i : Nat} (hi : i < first.toNat) :
    offset.toNat+i = (ring.acknowledged.toNat+i)%ring.capacity.toNat := by
  have hlt := Nat.mod_lt ring.acknowledged.toNat hcapacity
  have hoffset := cut.start
  have hfirst := cut.length
  rw [Nat.add_mod,← hoffset,Nat.mod_eq_of_lt (by omega : i < ring.capacity.toNat)]
  exact (Nat.mod_eq_of_lt (by omega)).symm

include hbytes

/-- The second range holds the bytes after those of the first. -/
theorem Cut.place_rest {i : Nat} (hi : first.toNat+i < bytes.toNat) :
    i = (ring.acknowledged.toNat+(first.toNat+i))%ring.capacity.toNat := by
  have hlt := Nat.mod_lt ring.acknowledged.toNat hcapacity
  have hoffset := cut.start
  have hfirst := cut.length
  rw [Nat.add_mod,← hoffset,Nat.mod_eq_of_lt (by omega : first.toNat+i < ring.capacity.toNat)]
  have hturn : offset.toNat+(first.toNat+i) = i+ring.capacity.toNat := by omega
  rw [hturn,Nat.add_mod_right]
  exact (Nat.mod_eq_of_lt (by omega)).symm

end

section

variable {bytes first : UInt64} {offset : UInt32} (cut : ring.Cut bytes first offset)
  (h : ring.Over shared)
include cut

theorem Cut.first_le : first.toNat ≤ bytes.toNat :=
  cut.length.trans_le (Nat.min_le_left _ _)

theorem Cut.first_word : first.toUInt32.toNat = first.toNat := by
  have hword := ring.capacity.toNat_lt
  have hlength := cut.length
  rw [UInt64.toNat_toUInt32]
  exact Nat.mod_eq_of_lt (by omega)

theorem Cut.rest_word (hbytes : bytes.toNat ≤ ring.capacity.toNat) :
    (bytes-first).toUInt32.toNat = bytes.toNat-first.toNat := by
  have hword := ring.capacity.toNat_lt
  rw [UInt64.toNat_toUInt32,
    UInt64.toNat_sub_of_le _ _ (UInt64.le_iff_toNat_le.mpr cut.first_le)]
  exact Nat.mod_eq_of_lt (by omega)

include h

theorem Cut.fits : sharedRangeFits ring.shared offset first.toUInt32 = true := by
  have hcapacity : ring.capacity.toNat = shared.length.toNat := congrArg UInt32.toNat h.capacity
  have hoffset := Nat.mod_lt ring.acknowledged.toNat (hcapacity ▸ h.mapped.length)
  have hlength := cut.length
  rw [← cut.start] at hoffset
  rw [sharedRangeFits_iff,h.buffer,cut.first_word]
  exact ⟨h.mapped.handle,h.mapped.data,by omega⟩

theorem Cut.rest_fits (hbytes : bytes.toNat ≤ ring.capacity.toNat) :
    sharedRangeFits ring.shared 0 (bytes-first).toUInt32 = true := by
  have hcapacity : ring.capacity.toNat = shared.length.toNat := congrArg UInt32.toNat h.capacity
  rw [sharedRangeFits_iff,h.buffer,cut.rest_word hbytes,UInt32.toNat_zero]
  exact ⟨h.mapped.handle,h.mapped.data,by omega⟩

end

/-- While the bytes it takes stay as they are, a copy is the newest bytes. -/
theorem copy_wp (h : ring.Over shared) {destination : Nat} (hdestination : destination ≠ 0)
    (produced destinationBytes : UInt64) (frameBytes : UInt32) {memory : Nat → Nat → UInt8}
    {f : Nat → UInt8}
    (hstill : Still memory (ring.places (ring.wholeFrames produced destinationBytes frameBytes)) f) :
    changing.wp (ring.copy produced destination destinationBytes frameBytes)
      (fun result _ =>
        result.1.toNat = ring.wholeFrames produced destinationBytes frameBytes ∧
        result.2 = ring.newest f (ring.wholeFrames produced destinationBytes frameBytes))
      memory := by
  have hbytes := copyBytes_toNat h produced destinationBytes frameBytes
  have hle := (wholeFrames_le ring produced destinationBytes frameBytes).trans
    (window_le produced)
  have hzero : frameBytes = 0 → ring.wholeFrames produced destinationBytes frameBytes = 0 := by
    rintro rfl
    simp [wholeFrames,inFrames]
  generalize ring.wholeFrames produced destinationBytes frameBytes = n at hstill hbytes hle hzero ⊢
  have hcapacity : 0 < ring.capacity.toNat := h.capacity ▸ h.mapped.length
  rw [copy]
  by_cases hframe : frameBytes = 0
  · rw [if_pos (.inr hframe),World.wp_ret,hzero hframe]
    exact ⟨rfl,rfl⟩
  rw [if_neg (by simp [hdestination,hframe])]
  generalize ring.copyBytes produced destinationBytes frameBytes = bytes at hbytes ⊢
  dsimp only
  subst hbytes
  by_cases hnone : bytes = 0
  · rw [if_pos hnone,World.wp_ret,hnone]
    exact ⟨rfl,rfl⟩
  rw [if_neg hnone]
  have cut := copy_cut hcapacity bytes
  generalize ring.copyFirst bytes = first at cut ⊢
  generalize ring.copyOffset = offset at cut ⊢
  rw [World.wp_bind]
  have hfirst : ∀ i, i < first.toUInt32.toNat → offset.toNat+i ∈ ring.places bytes.toNat := by
    intro i hi
    rw [cut.first_word] at hi
    exact ⟨i,Nat.lt_of_lt_of_le hi cut.first_le,cut.place hcapacity hi⟩
  refine changing.wp_mono (sharedCopyFrom_wp hdestination (cut.fits h) hfirst hstill) ?_
  rintro _ after ⟨rfl,hstill⟩
  have hdata : bytesAt f offset.toNat first.toUInt32.toNat = ring.newest f first.toNat := by
    rw [cut.first_word]
    exact List.map_congr_left fun i hi =>
      congrArg f (cut.place hcapacity (List.mem_range.mp hi))
  dsimp only
  rw [hdata]
  by_cases hmore : first < bytes
  · rw [if_pos hmore,World.wp_bind]
    have hrest : ∀ i, i < (bytes-first).toUInt32.toNat →
        (0 : UInt32).toNat+i ∈ ring.places bytes.toNat := by
      intro i hi
      rw [cut.rest_word hle] at hi
      rw [UInt32.toNat_zero,Nat.zero_add]
      exact ⟨first.toNat+i,by omega,cut.place_rest hcapacity hle (by omega)⟩
    refine changing.wp_mono
      (sharedCopyFrom_wp (by omega) (cut.rest_fits h hle) hrest hstill) ?_
    rintro _ after ⟨rfl,_⟩
    refine ⟨rfl,?_⟩
    have hsecond : bytesAt f (0 : UInt32).toNat (bytes-first).toUInt32.toNat =
        (List.range (bytes.toNat-first.toNat)).map fun i =>
          f ((ring.acknowledged.toNat+(first.toNat+i))%ring.capacity.toNat) := by
      rw [cut.rest_word hle,bytesAt]
      refine List.map_congr_left fun i hi => congrArg f ?_
      rw [UInt32.toNat_zero,Nat.zero_add]
      have hlt := List.mem_range.mp hi
      exact cut.place_rest hcapacity hle (by omega)
    dsimp only
    rw [hsecond,newest,newest]
    conv_rhs => rw [← Nat.add_sub_cancel' cut.first_le]
    rw [List.range_add,List.map_append,List.map_map]
    rfl
  · rw [if_neg hmore,World.wp_ret]
    rw [UInt64.lt_iff_toNat_lt,Nat.not_lt] at hmore
    refine ⟨rfl,?_⟩
    rw [Nat.le_antisymm hmore cut.first_le]

/-- A copy loads bytes of the window only, each in the place the ring has for it. -/
theorem all_copy (h : ring.Over shared) (produced : UInt64) (destination : Nat)
    (destinationBytes : UInt64) (frameBytes : UInt32) :
    (ring.copy produced destination destinationBytes frameBytes).All fun load =>
      ∀ i, i < load.width → load.offset+i ∈ ring.places (ring.window produced) := by
  have hbytes := copyBytes_toNat h produced destinationBytes frameBytes
  have hwhole := wholeFrames_le ring produced destinationBytes frameBytes
  have hle := hwhole.trans (window_le produced)
  have hcapacity : 0 < ring.capacity.toNat := h.capacity ▸ h.mapped.length
  rw [← hbytes] at hwhole hle
  rw [copy]
  by_cases hrefused : destination = 0 ∨ frameBytes = 0
  · rw [if_pos hrefused]
    trivial
  rw [if_neg hrefused]
  generalize ring.copyBytes produced destinationBytes frameBytes = bytes at hwhole hle ⊢
  dsimp only
  by_cases hnone : bytes = 0
  · rw [if_pos hnone]
    trivial
  rw [if_neg hnone]
  have cut := copy_cut hcapacity bytes
  generalize ring.copyFirst bytes = first at cut ⊢
  generalize ring.copyOffset = offset at cut ⊢
  have hfirst := cut.first_le
  refine Ask.all_bind (all_sharedCopyFrom fun _ load hlow hhigh i hi => ?_) ?_
  · rw [cut.first_word] at hhigh
    have hin : load.offset-offset.toNat+i < first.toNat := by omega
    have hplace := cut.place hcapacity hin
    have hload : offset.toNat+(load.offset-offset.toNat+i) = load.offset+i := by omega
    exact ⟨load.offset-offset.toNat+i,by omega,hload ▸ hplace⟩
  · rintro (_ | data)
    · trivial
    dsimp only
    by_cases hmore : first < bytes
    · rw [if_pos hmore]
      refine Ask.all_bind (all_sharedCopyFrom fun _ load hlow hhigh i hi => ?_) ?_
      · rw [cut.rest_word hle,UInt32.toNat_zero,Nat.zero_add] at hhigh
        exact ⟨first.toNat+(load.offset+i),by omega,cut.place_rest hcapacity hle (by omega)⟩
      · rintro (_ | rest)
        · trivial
        · trivial
    · rw [if_neg hmore]
      trivial

/-- An acknowledgement is accepted within the window, and else leaves the ring as it is. -/
theorem acknowledge_spec (h : ring.Over shared) (produced bytes : UInt64) :
    ((ring.acknowledge produced bytes).1 = true ↔ bytes.toNat ≤ ring.window produced) ∧
    (ring.acknowledge produced bytes).2.shared = ring.shared ∧
    (ring.acknowledge produced bytes).2.capacity = ring.capacity ∧
    (ring.acknowledge produced bytes).2.acknowledged.toNat =
      ring.acknowledged.toNat+if bytes.toNat ≤ ring.window produced then bytes.toNat else 0 := by
  have havailable := available_toNat h produced
  have hword := produced.toNat_lt
  rw [acknowledge]
  by_cases hless : ring.available produced < bytes
  · rw [if_pos hless]
    rw [UInt64.lt_iff_toNat_lt,havailable] at hless
    rw [if_neg (by omega)]
    exact ⟨by simpa using hless,rfl,rfl,rfl⟩
  · rw [if_neg hless]
    rw [UInt64.lt_iff_toNat_lt,havailable,Nat.not_lt] at hless
    rw [if_pos hless]
    refine ⟨by simpa using hless,rfl,rfl,?_⟩
    have hsum : bytes.toNat = 0 ∨ ring.acknowledged.toNat+bytes.toNat ≤ produced.toNat := by
      rw [window] at hless
      split_ifs at hless <;> omega
    have hacked := ring.acknowledged.toNat_lt
    rw [UInt64.toNat_add]
    exact Nat.mod_eq_of_lt (by omega)

/-- Without a window nothing is loaded. -/
theorem copy_refused (h : ring.Over shared) {produced : UInt64} (hw : ring.window produced = 0)
    (destination : Nat) (destinationBytes : UInt64) (frameBytes : UInt32) :
    ring.copy produced destination destinationBytes frameBytes = .ret (0,[]) := by
  have hbytes := copyBytes_toNat h produced destinationBytes frameBytes
  have hle := wholeFrames_le ring produced destinationBytes frameBytes
  have hzero : ring.copyBytes produced destinationBytes frameBytes = 0 :=
    UInt64.toNat_inj.mp (hbytes.trans (Nat.le_zero.mp (hw ▸ hle)))
  rw [copy,hzero]
  split_ifs
  · rfl
  · rfl

end PcmRing

/-- A firmware that has written no more than there is room for, and reported no more than it has
written -/
structure PcmFirmware.Sound (stream : Nat → UInt8) (capacity acknowledged : Nat)
    (fw : PcmFirmware) : Prop where
  reported : fw.produced.toNat ≤ fw.written
  room : fw.written ≤ acknowledged+capacity
  keeps : ∀ p, p < fw.written → fw.written ≤ p+capacity →
    fw.memory (p%capacity) = stream p

namespace PcmFirmware

variable {stream : Nat → UInt8} {capacity acknowledged : Nat} {fw fw' : PcmFirmware}

/-- What a step of the firmware keeps, and that it takes nothing back -/
theorem Sound.step (h : fw.Sound stream capacity acknowledged)
    (hstep : Step stream capacity acknowledged fw fw') :
    fw'.Sound stream capacity acknowledged ∧ fw.produced ≤ fw'.produced := by
  cases hstep with
  | write hroom =>
    refine ⟨⟨h.reported.trans (Nat.le_succ _),hroom,?_⟩,UInt64.le_refl _⟩
    intro p hp hturn
    dsimp only at hp hturn ⊢
    by_cases he : p = fw.written
    · rw [he,Function.update_self]
    · have hne := mod_ne_mod (by omega : p < fw.written) (by omega : fw.written < p+capacity)
      rw [Function.update_of_ne hne]
      exact h.keeps p (by omega) (by omega)
  | report produced hmore hwritten => exact ⟨⟨hwritten,h.room,h.keeps⟩,hmore⟩

theorem Sound.becomes (h : fw.Sound stream capacity acknowledged)
    (hsteps : Relation.ReflTransGen (Step stream capacity acknowledged) fw fw') :
    fw'.Sound stream capacity acknowledged ∧ fw.produced ≤ fw'.produced := by
  induction hsteps with
  | refl => exact ⟨h,UInt64.le_refl _⟩
  | tail _ hstep ih =>
    obtain ⟨hsound,hle⟩ := ih.1.step hstep
    exact ⟨hsound,UInt64.le_trans ih.2 hle⟩

end PcmFirmware

namespace PcmSystem

variable {stream : Nat → UInt8} {shared : SharedBuffer} {s t : PcmSystem}

/-- What holds of the ring and the firmware between the calls -/
structure Sound (stream : Nat → UInt8) (shared : SharedBuffer) (s : PcmSystem) : Prop where
  spans : s.ring.Over shared
  acked : s.ring.acknowledged ≤ s.firmware.produced
  firmware : s.firmware.Sound stream s.ring.capacity.toNat s.ring.acknowledged.toNat

theorem Sound.becomes (h : s.Sound stream shared) {fw : PcmFirmware}
    (hfw : s.Becomes stream s.firmware fw) : Sound stream shared {s with firmware := fw} := by
  obtain ⟨hsound,hle⟩ := h.firmware.becomes hfw
  exact ⟨h.spans,UInt64.le_trans h.acked hle,hsound⟩

theorem Meanwhile.becomes {path : Nat → PcmFirmware} (hpath : s.Meanwhile stream path) (k : Nat) :
    s.Becomes stream s.firmware (path k) := by
  induction k with
  | zero => exact hpath.first
  | succ k ih => exact ih.trans (hpath.next k)

/-- The window of a reported total is what the total says. -/
theorem Sound.window (h : s.Sound stream shared) {produced : UInt64}
    (hp : produced ≤ s.firmware.produced) :
    s.ring.window produced = produced.toNat-s.ring.acknowledged.toNat := by
  have hle := UInt64.le_iff_toNat_le.mp hp
  have hreported := h.firmware.reported
  have hroom := h.firmware.room
  rw [PcmRing.window,if_pos (by omega)]

theorem Sound.step (h : s.Sound stream shared) (hstep : Step stream s t) :
    t.Sound stream shared := by
  cases hstep with
  | firmware hfw => exact h.becomes (.single hfw)
  | copy _ hpath _ _ => exact h.becomes (hpath.becomes _)
  | acknowledge bytes hp =>
    rename_i produced
    obtain ⟨_,hshared,hcapacity,hacked⟩ := PcmRing.acknowledge_spec h.spans produced bytes
    rw [h.window hp] at hacked
    have hle := UInt64.le_iff_toNat_le.mp hp
    have hold := UInt64.le_iff_toNat_le.mp h.acked
    have hroom := h.firmware.room
    refine ⟨⟨h.spans.mapped,hshared.trans h.spans.buffer,hcapacity.trans h.spans.capacity⟩,?_,?_⟩
    · rw [UInt64.le_iff_toNat_le]
      dsimp only
      rw [hacked]
      split_ifs <;> omega
    · dsimp only
      rw [hcapacity,hacked]
      exact ⟨h.firmware.reported,by omega,h.firmware.keeps⟩

theorem Reached.sound (hm : Mapped shared) (h : Reached stream shared s) :
    s.Sound stream shared := by
  obtain ⟨memory,hruns⟩ := h
  induction hruns with
  | refl =>
    refine ⟨⟨hm,rfl,rfl⟩,UInt64.le_refl _,Nat.le_refl _,Nat.zero_le _,?_⟩
    exact fun p hp => absurd hp (Nat.not_lt_zero p)
  | tail _ hstep ih => exact ih.step hstep

/-- While the firmware goes on, the ring keeps the bytes that are not acknowledged. -/
theorem Sound.newest (h : s.Sound stream shared) {path : Nat → PcmFirmware}
    (hpath : s.Meanwhile stream path) {n : Nat}
    (hn : s.ring.acknowledged.toNat+n ≤ s.firmware.produced.toNat) (k i : Nat) (hi : i < n) :
    (path k).memory ((s.ring.acknowledged.toNat+i)%s.ring.capacity.toNat) =
      stream (s.ring.acknowledged.toNat+i) := by
  obtain ⟨hsound,hle⟩ := h.firmware.becomes (hpath.becomes k)
  have hproduced := UInt64.le_iff_toNat_le.mp hle
  have hreported := hsound.reported
  have hroom := hsound.room
  exact hsound.keeps _ (by omega) (by omega)

/-- A copy with a reported total is the next whole frames of the stream, also where the firmware
writes and reports more during the copy. -/
theorem Sound.copy_reaches (h : s.Sound stream shared) {produced destinationBytes : UInt64}
    (hp : produced ≤ s.firmware.produced) {destination : Nat} (hdestination : destination ≠ 0)
    {frameBytes : UInt32} {path : Nat → PcmFirmware} (hpath : s.Meanwhile stream path)
    {result : UInt64 × List UInt8} {after : Nat → Nat → UInt8}
    (hcopy : changing.Reaches (s.ring.copy produced destination destinationBytes frameBytes)
      (contents path) result after) :
    result.1.toNat = s.ring.wholeFrames produced destinationBytes frameBytes ∧
      result.2 = bytesAt stream s.ring.acknowledged.toNat result.1.toNat := by
  have hle := PcmRing.wholeFrames_le s.ring produced destinationBytes frameBytes
  rw [h.window hp] at hle
  have hproduced := UInt64.le_iff_toNat_le.mp hp
  have hacked := UInt64.le_iff_toNat_le.mp h.acked
  generalize hn : s.ring.wholeFrames produced destinationBytes frameBytes = n at hle ⊢
  have hbytes := h.newest hpath (by omega : s.ring.acknowledged.toNat+n ≤ _)
  have hstill : Still (contents path) (s.ring.places n) (path 0).memory := by
    rintro k x ⟨i,hi,rfl⟩
    exact (hbytes k i hi).trans (hbytes 0 i hi).symm
  obtain ⟨hcount,hdata⟩ := World.wp_reaches
    (PcmRing.copy_wp h.spans hdestination produced destinationBytes frameBytes (hn ▸ hstill)) hcopy
  rw [hn] at hcount hdata
  refine ⟨hcount,?_⟩
  rw [hdata,hcount]
  exact List.map_congr_left fun i hi => hbytes 0 i (List.mem_range.mp hi)

/-- The reader delivers the stream: with reported totals a copy is the next whole frames and an
acknowledgement stays within the total; with any total neither leaves the window. -/
theorem reader_delivers (hm : Mapped shared) (h : Reached stream shared s) :
    s.ring.acknowledged ≤ s.firmware.produced ∧
    (∀ produced ≤ s.firmware.produced,
      (∀ destination ≠ 0, ∀ destinationBytes frameBytes path, s.Meanwhile stream path →
        ∀ result after, changing.Reaches
          (s.ring.copy produced destination destinationBytes frameBytes) (contents path) result
            after →
        result.1.toNat%frameBytes.toNat = 0 ∧
        result.1.toNat = PcmRing.inFrames
          (min (produced.toNat-s.ring.acknowledged.toNat) destinationBytes.toNat)
          frameBytes.toNat ∧
        result.2 = bytesAt stream s.ring.acknowledged.toNat result.1.toNat) ∧
      ∀ bytes, (s.ring.acknowledge produced bytes).1 = true ↔
        bytes = 0 ∨ s.ring.acknowledged.toNat+bytes.toNat ≤ produced.toNat) ∧
    ∀ produced,
      (∀ destination destinationBytes frameBytes,
        (s.ring.copy produced destination destinationBytes frameBytes).All (fun load =>
          ∀ i, i < load.width → load.offset+i ∈ s.ring.places (s.ring.window produced)) ∧
        (s.ring.window produced = 0 →
          s.ring.copy produced destination destinationBytes frameBytes = .ret (0,[]))) ∧
      ∀ bytes, ((s.ring.acknowledge produced bytes).1 = true ↔
          bytes.toNat ≤ s.ring.window produced) ∧
        (s.ring.acknowledge produced bytes).2.acknowledged.toNat = s.ring.acknowledged.toNat+
          if (s.ring.acknowledge produced bytes).1 then bytes.toNat else 0 := by
  have hsound := h.sound hm
  refine ⟨hsound.acked,fun produced hp => ⟨?_,fun bytes => ?_⟩,fun produced => ⟨?_,fun bytes => ?_⟩⟩
  · intro destination hdestination destinationBytes frameBytes path hpath result after hcopy
    obtain ⟨hcount,hdata⟩ := hsound.copy_reaches hp hdestination hpath hcopy
    refine ⟨?_,?_,hdata⟩
    · rw [hcount]
      exact PcmRing.wholeFrames_mod _ _ _
    · rw [hcount,PcmRing.wholeFrames,hsound.window hp]
  · rw [(PcmRing.acknowledge_spec hsound.spans produced bytes).1,hsound.window hp,
      ← UInt64.toNat_inj,UInt64.toNat_zero]
    omega
  · intro destination destinationBytes frameBytes
    exact ⟨PcmRing.all_copy hsound.spans _ _ _ _,
      fun hw => PcmRing.copy_refused hsound.spans hw _ _ _⟩
  · obtain ⟨haccept,_,_,hacked⟩ := PcmRing.acknowledge_spec hsound.spans produced bytes
    refine ⟨haccept,?_⟩
    rw [hacked]
    simp only [haccept]

/-- A ring of two bytes whose first byte is acknowledged, with the next two of the stream in it -/
def turned : PcmSystem where
  ring := {pcmRingInit {handle := 1,data := 64,length := 2} with acknowledged := 1}
  firmware := {
    memory := Function.update (Function.update (Function.update (fun _ => 9) 0 10) 1 11) 0 12
    written := 3
    produced := 3}

theorem turned_reached :
    Reached (fun p => UInt8.ofNat (p+10)) {handle := 1,data := 64,length := 2} turned := by
  refine ⟨fun _ => 9,?_⟩
  refine .tail (.tail (.tail (.tail (.tail (.tail .refl
    (.firmware _ (.write _ ?_))) (.firmware _ (.write _ ?_)))
    (.firmware _ (.report _ 2 ?_ ?_))) (.acknowledge _ 1 (?_ : (2 : UInt64) ≤ _)))
    (.firmware _ (.write _ ?_))) (.firmware _ (.report _ 3 ?_ ?_))
  all_goals decide

theorem turned_copies : changing.Reaches (turned.ring.copy 3 100 8 1)
    (contents fun _ => turned.firmware) (2,[11,12]) (contents fun _ => turned.firmware) :=
  ⟨[⟨⟨1,1⟩,⟨[11],rfl⟩⟩,⟨⟨0,1⟩,⟨[12],rfl⟩⟩],.ask _ (.ask _ (.ret _)),⟨rfl,rfl,trivial⟩,rfl⟩

theorem reader_delivers_turned :
    [11,12] = bytesAt (fun p => UInt8.ofNat (p+10)) 1 2 ∧
    (turned.ring.acknowledge 3 2).1 = true ∧ ¬(turned.ring.acknowledge 3 3).1 = true := by
  have hm : Mapped {handle := 1,data := 64,length := 2} := by constructor <;> decide
  have hpath : turned.Meanwhile (fun p => UInt8.ofNat (p+10)) fun _ => turned.firmware :=
    ⟨.refl,fun _ => .refl⟩
  obtain ⟨_,hreported,_⟩ := reader_delivers hm turned_reached
  obtain ⟨hcopy,hack⟩ := hreported 3 (by decide)
  obtain ⟨_,_,hdata⟩ := hcopy 100 (by decide) 8 1 _ hpath _ _ turned_copies
  refine ⟨hdata,?_,?_⟩
  · rw [hack]
    decide
  · rw [hack]
    decide

end PcmSystem

end ZZ9K.Media
