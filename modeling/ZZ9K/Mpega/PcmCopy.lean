import Mathlib
import ZZ9K.Math.Multiples

namespace ZZ9K.Mpega

open ZZ9K.Math

/-- `mpega_pcm_value_from_be` -/
def pcmValueFromBe (hi lo : UInt8) : Int := (hi.toUInt16<<<8 ||| lo.toUInt16).toInt16.toInt

/-- The word that `mpega_store_scaled_pcm_value_be` stores. With the percentages up to 10000 that
`mpega_call_scale` lets through the product stays within 32 bits. -/
def scaledPcmValue (value scalePercent : Int) : Int16 :=
  let value := if scalePercent ≠ 100 then (value*scalePercent).tdiv 100 else value
  let value := if 32767 < value then 32767 else value
  let value := if value < -32768 then -32768 else value
  Int16.ofInt value

/-- The word that `mpega_store_scaled_pcm_word_be` stores -/
def scaledPcmWord (hi lo : UInt8) (scalePercent : Int) : Int16 :=
  if scalePercent = 100 then (hi.toUInt16<<<8 ||| lo.toUInt16).toInt16
  else scaledPcmValue (pcmValueFromBe hi lo) scalePercent

/-- `mpega_output_channels`, with what `mpega_output_force_mono` says -/
def outputChannels (forceMono : Bool) (sourceChannels : Nat) : Nat :=
  if 1 < sourceChannels ∧ forceMono then 1 else sourceChannels

section

variable (ring : Nat → UInt8) (length sourceChannels outChannels : Nat) (scalePercent : Int)

/-- What one round of `mpega_copy_pcm_linear` stores, a word for each output channel -/
def linearWords (src : Nat → UInt8) (sourceSample : Nat) : List Int16 :=
  let sampleSrc i := src (sourceSample*sourceChannels*2+i)
  if outChannels = 1 then
    if sourceChannels = 1 then
      [scaledPcmValue (pcmValueFromBe (sampleSrc 0) (sampleSrc 1)) scalePercent]
    else
      let leftValue := pcmValueFromBe (sampleSrc 0) (sampleSrc 1)
      let rightValue := pcmValueFromBe (sampleSrc 2) (sampleSrc 3)
      [scaledPcmValue ((leftValue+rightValue).tdiv 2) scalePercent]
  else if outChannels = 2 ∧ sourceChannels = 1 then
    let word := scaledPcmWord (sampleSrc 0) (sampleSrc 1) scalePercent
    [word,word]
  else if outChannels = 2 then
    [scaledPcmWord (sampleSrc 0) (sampleSrc 1) scalePercent,
      scaledPcmWord (sampleSrc 2) (sampleSrc 3) scalePercent]
  else []

/-- `freq_div` as the copy loops use it -/
def usedFreqDiv (freqDiv : Nat) : Nat := if freqDiv = 0 then 1 else freqDiv

theorem usedFreqDiv_pos (freqDiv : Nat) : 0 < usedFreqDiv freqDiv := by
  unfold usedFreqDiv
  split_ifs <;> omega

/-- `mpega_copy_pcm_linear`: entry `i` of the result holds `pcm[k][i]` for each output channel. -/
def copyPcmLinear (src : Nat → UInt8) (sourceSamples freqDiv : Nat) : List (List Int16) :=
  strideLoop (linearWords sourceChannels outChannels scalePercent src) sourceSamples
    (usedFreqDiv freqDiv) (usedFreqDiv_pos freqDiv) 0

/-- A byte of the ring, and the offset after it -/
def ringByte (offset : Nat) : UInt8 × Nat :=
  (ring offset,if length ≤ offset+1 then 0 else offset+1)

/-- The loop of `mpega_copy_pcm_wrapped` over so many more channels of a sample -/
def wrappedChannels : Nat → Nat → Nat → List Int16 × Nat
  | 0,_,offset => ([],offset)
  | more+1,channel,offset =>
    let (hi,offset) := ringByte ring length offset
    let (lo,offset) := ringByte ring length offset
    let (words,offset) := wrappedChannels more (channel+1) offset
    (if channel < outChannels then scaledPcmWord hi lo scalePercent::words else words,offset)

/-- What one round of `mpega_copy_pcm_wrapped` has to store, and the offset after it -/
def wrappedWords (offset : Nat) : List Int16 × Nat :=
  if outChannels = 1 ∧ sourceChannels = 2 then
    let (leftHi,offset) := ringByte ring length offset
    let (leftLo,offset) := ringByte ring length offset
    let (rightHi,offset) := ringByte ring length offset
    let (rightLo,offset) := ringByte ring length offset
    let leftValue := pcmValueFromBe leftHi leftLo
    let rightValue := pcmValueFromBe rightHi rightLo
    ([scaledPcmValue ((leftValue+rightValue).tdiv 2) scalePercent],offset)
  else wrappedChannels ring length outChannels scalePercent sourceChannels 0 offset

/-- The loop of `mpega_copy_pcm_wrapped` over so many more samples -/
def wrappedSamples (freqDiv : Nat) : Nat → Nat → Nat → List (List Int16) × Nat
  | 0,_,offset => ([],offset)
  | more+1,sourceSample,offset =>
    let (words,offset) :=
      wrappedWords ring length sourceChannels outChannels scalePercent offset
    let (samples,offset) := wrappedSamples freqDiv more (sourceSample+1) offset
    (if sourceSample%freqDiv = 0 then words::samples else samples,offset)

/-- `mpega_copy_pcm_wrapped`, with the offset that it returns -/
def copyPcmWrapped (offset sourceSamples freqDiv : Nat) : List (List Int16) × Nat :=
  wrappedSamples ring length sourceChannels outChannels scalePercent (usedFreqDiv freqDiv)
    sourceSamples 0 offset

end

/-- A sample value at a percentage, kept within 16 bits -/
def scaled (scalePercent value : Int) : Int16 :=
  Int16.ofInt (max (-32768) (min 32767 ((value*scalePercent).tdiv 100)))

/-- The words that one frame of source samples becomes: as it is or averaged to one channel, and
scaled -/
def rendered (mono : Bool) (scalePercent : Int) (frame : List Int) : List Int16 :=
  (if mono then [frame.sum.tdiv frame.length] else frame).map (scaled scalePercent)

/-- The samples of frame `f` of a PCM stream -/
def sourceFrame (pcm : Nat → UInt8) (channels f : Nat) : List Int :=
  (List.range channels).map fun c =>
    pcmValueFromBe (pcm ((f*channels+c)*2)) (pcm ((f*channels+c)*2+1))

theorem pcmValueFromBe_bounds (hi lo : UInt8) :
    -32768 ≤ pcmValueFromBe hi lo ∧ pcmValueFromBe hi lo ≤ 32767 := by
  have hlo := Int16.le_toInt (hi.toUInt16<<<8 ||| lo.toUInt16).toInt16
  have hhi := Int16.toInt_lt (hi.toUInt16<<<8 ||| lo.toUInt16).toInt16
  unfold pcmValueFromBe
  omega

theorem scaledPcmValue_eq (value scalePercent : Int) :
    scaledPcmValue value scalePercent = scaled scalePercent value := by
  unfold scaledPcmValue scaled
  apply congrArg Int16.ofInt
  by_cases hs : scalePercent = 100
  · subst hs
    rw [Int.mul_tdiv_cancel value (by decide)]
    split_ifs <;> omega
  · rw [if_pos hs]
    split_ifs <;> omega

theorem scaledPcmWord_eq (hi lo : UInt8) (scalePercent : Int) :
    scaledPcmWord hi lo scalePercent = scaled scalePercent (pcmValueFromBe hi lo) := by
  rw [← scaledPcmValue_eq]
  unfold scaledPcmWord
  split_ifs with hs
  · have hb := pcmValueFromBe_bounds hi lo
    subst hs
    unfold scaledPcmValue
    have h₁ : ¬ 32767 < pcmValueFromBe hi lo := by omega
    have h₂ : ¬ pcmValueFromBe hi lo < -32768 := by omega
    simp only [ne_eq,not_true_eq_false,if_false,if_neg h₁,if_neg h₂]
    exact (Int16.ofInt_toInt _).symm
  · rfl

/-- Stepping on round the ring -/
theorem next_place {length o : Nat} (ho : o < length) (i : Nat) :
    (if length ≤ (o+i)%length+1 then 0 else (o+i)%length+1) = (o+(i+1))%length := by
  have hlt := Nat.mod_lt (o+i) (Nat.zero_lt_of_lt ho)
  rw [← Nat.add_assoc,Nat.add_mod (o+i) 1]
  by_cases hone : length = 1
  · subst hone
    have hz : (o+i)%1 = 0 := Nat.mod_one _
    simp [hz]
  rw [Nat.mod_eq_of_lt (show 1 < length by omega)]
  split_ifs with hend
  · have hsum : (o+i)%length+1 = length := by omega
    rw [hsum,Nat.mod_self]
  · exact (Nat.mod_eq_of_lt (by omega)).symm

section

variable {pcm : Nat → UInt8} {channels : Nat} (hchannels : channels = 1 ∨ channels = 2)
  (mono : Bool) (scalePercent : Int)

include hchannels

/-- A round of the linear loop renders the frame that it reads. -/
theorem linearWords_eq {src : Nat → UInt8} {s f : Nat}
    (hsrc : ∀ i < channels*2, src (s*channels*2+i) = pcm (f*channels*2+i)) :
    linearWords channels (outputChannels mono channels) scalePercent src s =
      rendered mono scalePercent (sourceFrame pcm channels f) := by
  have h₀ := hsrc 0 (by omega)
  have h₁ := hsrc 1 (by omega)
  cases hchannels with
  | inl hc =>
    subst hc
    simp only [Nat.mul_one,Nat.add_zero] at h₀ h₁
    cases mono <;> simp [linearWords,outputChannels,rendered,sourceFrame,scaledPcmValue_eq,h₀,
      h₁]
  | inr hc =>
    subst hc
    have h₂ := hsrc 2 (by omega)
    have h₃ := hsrc 3 (by omega)
    rw [Nat.add_zero,Nat.add_zero] at h₀
    have hl : (f*2+1)*2 = f*2*2+2 := by omega
    cases mono <;> simp [linearWords,outputChannels,rendered,sourceFrame,scaledPcmValue_eq,
      scaledPcmWord_eq,List.range_succ,hl,h₀,h₁,h₂,h₃]

variable {ring : Nat → UInt8} {length : Nat}

/-- A round of the wrapped loop renders the frame that it reads, too, and goes round the ring. -/
theorem wrappedWords_eq {o f : Nat} (ho : o < length)
    (hring : ∀ i < channels*2, ring ((o+i)%length) = pcm (f*channels*2+i)) :
    wrappedWords ring length channels (outputChannels mono channels) scalePercent o =
      (rendered mono scalePercent (sourceFrame pcm channels f),(o+channels*2)%length) := by
  have h₀ := hring 0 (by omega)
  have h₁ := hring 1 (by omega)
  rw [Nat.add_zero,Nat.add_zero,Nat.mod_eq_of_lt ho] at h₀
  have hbyte : ∀ i, ringByte ring length ((o+i)%length) =
      (ring ((o+i)%length),(o+(i+1))%length) := by
    intro i
    rw [ringByte,next_place ho]
  have hfirst : ringByte ring length o = (ring o,(o+1)%length) := by
    have h := hbyte 0
    rwa [Nat.add_zero,Nat.mod_eq_of_lt ho] at h
  cases hchannels with
  | inl hc =>
    subst hc
    simp only [Nat.mul_one] at h₀ h₁
    cases mono <;> simp [wrappedWords,wrappedChannels,hfirst,hbyte,outputChannels,rendered,
      sourceFrame,scaledPcmWord_eq,h₀,h₁]
  | inr hc =>
    subst hc
    have h₂ := hring 2 (by omega)
    have h₃ := hring 3 (by omega)
    have hl : (f*2+1)*2 = f*2*2+2 := by omega
    cases mono <;> simp [wrappedWords,wrappedChannels,hfirst,hbyte,outputChannels,rendered,
      sourceFrame,scaledPcmValue_eq,scaledPcmWord_eq,List.range_succ,hl,h₀,h₁,h₂,h₃]

/-- The wrapped loop keeps what it renders at the multiples of the divisor. -/
theorem wrappedSamples_eq (freqDiv more s F : Nat) {o : Nat} (ho : o < length)
    (hring : ∀ i < more*(channels*2), ring ((o+i)%length) = pcm ((F+s)*channels*2+i)) :
    wrappedSamples ring length channels (outputChannels mono channels) scalePercent freqDiv more s
        o =
      (((List.range' s more).filter (·%freqDiv = 0)).map fun j =>
          rendered mono scalePercent (sourceFrame pcm channels (F+j)),
        (o+more*(channels*2))%length) := by
  induction more generalizing s o with
  | zero => simp [wrappedSamples,Nat.mod_eq_of_lt ho]
  | succ more ih =>
    have hlen : 0 < length := Nat.zero_lt_of_lt ho
    rw [Nat.succ_mul] at hring ⊢
    have hhead : wrappedWords ring length channels (outputChannels mono channels) scalePercent o =
        (rendered mono scalePercent (sourceFrame pcm channels (F+s)),(o+channels*2)%length) :=
      wrappedWords_eq hchannels mono scalePercent ho fun i hi => hring i (by omega)
    have hrest : ∀ i < more*(channels*2),
        ring (((o+channels*2)%length+i)%length) = pcm ((F+(s+1))*channels*2+i) := by
      intro i hi
      have hnext : (F+(s+1))*channels*2 = (F+s)*channels*2+channels*2 := by
        rw [← Nat.add_assoc,Nat.succ_mul,Nat.add_mul]
      rw [Nat.mod_add_mod,Nat.add_assoc,hring _ (by omega),hnext,Nat.add_assoc]
    have htail := ih (s+1) (Nat.mod_lt _ hlen) hrest
    have hend : ((o+channels*2)%length+more*(channels*2))%length =
        (o+(more*(channels*2)+channels*2))%length := by
      rw [Nat.mod_add_mod,Nat.add_assoc,Nat.add_comm (channels*2)]
    simp only [wrappedSamples,hhead,htail,hend,List.range'_succ]
    by_cases hs : s%freqDiv = 0
    · simp [hs]
    · simp [hs]

/-- `mpega_copy_pcm_wrapped` renders every `freq_div`-th frame. -/
theorem copyPcmWrapped_eq {freqDiv : Nat} (hdiv : 0 < freqDiv) (n F : Nat) {o : Nat}
    (ho : o < length)
    (hring : ∀ i < n*(channels*2), ring ((o+i)%length) = pcm (F*channels*2+i)) :
    copyPcmWrapped ring length channels (outputChannels mono channels) scalePercent o n freqDiv =
      ((multiples freqDiv n).map fun j =>
          rendered mono scalePercent (sourceFrame pcm channels (F+j)),
        (o+n*(channels*2))%length) := by
  have hused : usedFreqDiv freqDiv = freqDiv := if_neg (Nat.ne_of_gt hdiv)
  rw [copyPcmWrapped,hused,wrappedSamples_eq hchannels mono scalePercent freqDiv n 0 F ho hring,
    ← List.range_eq_range',filter_range_multiples hdiv]

/-- `mpega_copy_pcm_linear` renders the same. -/
theorem copyPcmLinear_eq {freqDiv : Nat} (hdiv : 0 < freqDiv) (n F : Nat) {src : Nat → UInt8}
    (hsrc : ∀ i < n*(channels*2), src i = pcm (F*channels*2+i)) :
    copyPcmLinear channels (outputChannels mono channels) scalePercent src n freqDiv =
      (multiples freqDiv n).map fun j =>
        rendered mono scalePercent (sourceFrame pcm channels (F+j)) := by
  have hused : usedFreqDiv freqDiv = freqDiv := if_neg (Nat.ne_of_gt hdiv)
  rw [copyPcmLinear,strideLoop_zero,hused]
  apply List.map_congr_left
  intro j hj
  have hlt := lt_of_mem_multiples hdiv hj
  apply linearWords_eq hchannels
  intro i hi
  have hroom : j*(channels*2)+channels*2 ≤ n*(channels*2) := by
    rw [← Nat.succ_mul]
    exact Nat.mul_le_mul_right _ hlt
  have hsum : (F+j)*channels*2 = F*channels*2+j*channels*2 := by
    rw [Nat.add_mul,Nat.add_mul]
  have hassoc : j*channels*2 = j*(channels*2) := Nat.mul_assoc _ _ _
  rw [hsrc _ (by omega),hsum,Nat.add_assoc]

end

end ZZ9K.Mpega
