import Mathlib
import ZZ9K.Host.Aperture

namespace ZZ9K.Audio

open ZZ9K.Abi ZZ9K.Host

def audioRingControlSize : UInt32 := 128
def audioRingControlAlign : UInt32 := 64
def audioRingControlLineSize : UInt32 := 64
def audioRingPeriodBytes : UInt32 := 3840
def audioRingPeriodUs : UInt32 := 20000
def audioRingContract48k : UInt32 := 1
def audioRingContractSourceRate : UInt32 := 2
def audioRingSlotMax : UInt32 := 2
def audioRingAcquireFlagSourceRate : UInt32 := 1
def audioRingResultGainBounded : UInt32 := 1
def audioRingResultBusZorro2 : UInt32 := 2
def audioMeterIdentitySdkStream : UInt32 := 3

/-- `ZZ9KAudioRingAcquireDesc` -/
structure AudioRingAcquireDesc where
  slot : UInt32
  identity : UInt32
  gain : UInt32
  flags : UInt32
  sourceRateHz : UInt32
  deriving DecidableEq, Repr

/-- `ZZ9KAudioRingAcquireResult`, zeroed by default -/
structure AudioRingAcquireResult where
  slot : UInt32 := 0
  generation : UInt32 := 0
  ringOffset : UInt32 := 0
  ringCapacity : UInt32 := 0
  controlOffset : UInt32 := 0
  periodBytes : UInt32 := 0
  periodUs : UInt32 := 0
  sampleContract : UInt32 := 0
  gainApplied : UInt32 := 0
  slotCount : UInt32 := 0
  flags : UInt32 := 0
  sourceRate : UInt32 := 0
  deriving DecidableEq, Repr

/-- `zz9k_audio_ring_rate_known` -/
def audioRingRateKnown (rate : UInt32) : Bool :=
  rate = 8000 ∨ rate = 12000 ∨ rate = 24000 ∨ rate = 32000 ∨ rate = 44100 ∨ rate = 48000

/-- The part of `zz9k_audio_ring_grant_valid` about the sample contract and its rate -/
def audioRingContractValid (grant : AudioRingAcquireResult) : Bool :=
  if grant.sampleContract = audioRingContract48k then grant.sourceRate = 48000
  else if grant.sampleContract = audioRingContractSourceRate then audioRingRateKnown grant.sourceRate
  else false

/-- `zz9k_audio_ring_grant_valid` -/
def audioRingGrantValid (grant : AudioRingAcquireResult) : Bool :=
  if grant.slot = 0 ∨ audioRingSlotMax < grant.slot ∨ grant.slotCount < grant.slot ∨
      grant.slotCount = 0 ∨ audioRingSlotMax < grant.slotCount ∨ grant.generation = 0 ∨
      grant.periodBytes ≠ audioRingPeriodBytes ∨ grant.periodUs ≠ audioRingPeriodUs ∨
      255 < grant.gainApplied ∨
      grant.flags &&& ~~~(audioRingResultGainBounded ||| audioRingResultBusZorro2) ≠ 0 then false
  else if audioRingContractValid grant = false then false
  else if grant.ringCapacity = 0 ∨ grant.ringCapacity % audioRingPeriodBytes ≠ 0 ∨
      grant.ringOffset &&& 3 ≠ 0 ∨ grant.controlOffset % audioRingControlAlign ≠ 0 then false
  else
    let ringEnd := grant.ringOffset.toUInt64+grant.ringCapacity.toUInt64
    let controlEnd := grant.controlOffset.toUInt64+audioRingControlSize.toUInt64
    if grant.controlOffset.toUInt64 < ringEnd ∧ grant.ringOffset.toUInt64 < controlEnd then false
    else true

/-- `zz9k_audio_ring_grant_matches_desc` -/
def audioRingGrantMatchesDesc (desc : AudioRingAcquireDesc) (grant : AudioRingAcquireResult) :
    Bool :=
  if desc.flags &&& audioRingAcquireFlagSourceRate ≠ 0 then
    grant.sampleContract = audioRingContractSourceRate ∧ grant.sourceRate = desc.sourceRateHz
  else grant.sampleContract = audioRingContract48k ∧ grant.sourceRate = 48000

/-- What a valid grant promises its producer -/
structure AudioRingAcquireResult.Usable (grant : AudioRingAcquireResult) : Prop where
  slot : 1 ≤ grant.slot ∧ grant.slot ≤ audioRingSlotMax
  generation : grant.generation ≠ 0
  capacity : 0 < grant.ringCapacity.toNat ∧ grant.ringCapacity.toNat % 3840 = 0
  apart : Disjoint (region grant.ringOffset grant.ringCapacity)
    (region grant.controlOffset audioRingControlSize)

/-- The overlap test in 64 bits is exact. -/
theorem audioRingGrantValid_usable {grant : AudioRingAcquireResult}
    (h : audioRingGrantValid grant = true) : grant.Usable := by
  unfold audioRingGrantValid at h
  dsimp only at h
  split at h
  · cases h
  rename_i hfields
  simp only [not_or] at hfields
  obtain ⟨hslot,hmax,_,_,_,hgen,_⟩ := hfields
  split at h
  · cases h
  split at h
  · cases h
  rename_i hring
  simp only [not_or,not_not] at hring
  obtain ⟨hcap,hperiod,_,_⟩ := hring
  split at h
  · cases h
  rename_i hoverlap
  have hsum (o n : UInt32) : (o.toUInt64+n.toUInt64).toNat = o.toNat+n.toNat := by
    have ho := o.toNat_lt
    have hn := n.toNat_lt
    rw [UInt64.toNat_add,UInt32.toNat_toUInt64,UInt32.toNat_toUInt64]
    exact Nat.mod_eq_of_lt (by omega)
  simp only [UInt64.lt_iff_toNat_lt,hsum,UInt32.toNat_toUInt64] at hoverlap
  have hpos : 0 < grant.ringCapacity.toNat := by
    rw [Nat.pos_iff_ne_zero]
    exact fun h0 => hcap (UInt32.toNat_inj.mp h0)
  have hslot : 1 ≤ grant.slot := by
    rw [UInt32.le_iff_toNat_le]
    apply Nat.one_le_iff_ne_zero.mpr
    exact fun h0 => hslot (UInt32.toNat_inj.mp h0)
  have hwhole : grant.ringCapacity.toNat % 3840 = 0 := by
    have hmod := congrArg UInt32.toNat hperiod
    rwa [UInt32.toNat_mod] at hmod
  refine ⟨⟨hslot,UInt32.not_lt.mp hmax⟩,hgen,⟨hpos,hwhole⟩,?_⟩
  apply disjoint_region
  omega

end ZZ9K.Audio
