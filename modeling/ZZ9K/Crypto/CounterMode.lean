import ZZ9K.Crypto.ChaCha20
import Mathlib.Data.List.GetD
import Mathlib.Logic.Function.Iterate

namespace ZZ9K.Crypto

section Chunk

theorem xorChunk_succ (out input block : List UInt8) (offset chunk : Nat) :
    xorChunk out input block offset (chunk+1) =
      (xorChunk out input block offset chunk).set (offset+chunk)
        (input.getD (offset+chunk) 0 ^^^ block.getD chunk 0) := by
  rw [xorChunk,List.range_succ,List.foldl_append]
  rfl

@[simp] theorem xorChunk_length (out input block : List UInt8) (offset chunk : Nat) :
    (xorChunk out input block offset chunk).length = out.length := by
  induction chunk with
  | zero => rfl
  | succ chunk ih => rw [xorChunk_succ,List.length_set,ih]

/-- A chunk is written, and nothing else. -/
theorem xorChunk_getD (out input block : List UInt8) (offset chunk : Nat) {i : Nat}
    (hi : i < out.length) : (xorChunk out input block offset chunk).getD i 0 =
      if offset ≤ i ∧ i < offset+chunk then input.getD i 0 ^^^ block.getD (i-offset) 0
      else out.getD i 0 := by
  induction chunk with
  | zero => rw [if_neg (by omega),xorChunk,List.range_zero,List.foldl_nil]
  | succ chunk ih =>
    rw [xorChunk_succ,List.getD_eq_getElem?_getD,List.getElem?_set]
    by_cases hat : offset+chunk = i
    · subst hat
      rw [if_pos rfl,if_pos (by simpa using hi),if_pos (by omega),Nat.add_sub_cancel_left]
      rfl
    · rw [if_neg hat,← List.getD_eq_getElem?_getD,ih]
      by_cases hin : offset ≤ i ∧ i < offset+chunk
      · rw [if_pos hin,if_pos (by omega)]
      · rw [if_neg hin,if_neg (by omega)]

theorem ext_getD {as bs : List UInt8} (hlen : as.length = bs.length)
    (h : ∀ i < as.length,as.getD i 0 = bs.getD i 0) : as = bs := by
  apply List.ext_getElem hlen
  intro i hi hi'
  have hat := h i hi
  rwa [List.getD_eq_getElem _ _ hi,List.getD_eq_getElem _ _ hi'] at hat

end Chunk

section Mode

variable {σ : Type} (size : Nat) (block : σ → List UInt8) (next : σ → σ) (s : σ)

/-- A loop that puts a text under a keystream, a block at a time: `out` is the buffer that it writes
to, and `offset` how far it is. -/
def counterMode (hsize : 0 < size) (out input : List UInt8) (s : σ) (offset : Nat) : List UInt8 :=
  if offset < input.length then
    let chunk := min (input.length-offset) size
    counterMode hsize (xorChunk out input (block s) offset chunk) input (next s) (offset+chunk)
  else out
termination_by input.length-offset

/-- Byte `i` of the keystream from `s` on -/
def keystream (i : Nat) : UInt8 := (block (next^[i/size] s)).getD (i%size) 0

/-- A text under the keystream from `s` on -/
def underKeystream (text : List UInt8) : List UInt8 :=
  text.mapIdx fun i b => b ^^^ keystream size block next s i

@[simp] theorem underKeystream_length (text : List UInt8) :
    (underKeystream size block next s text).length = text.length := by
  rw [underKeystream,List.length_mapIdx]

theorem underKeystream_getD {text : List UInt8} {i : Nat} (hi : i < text.length) :
    (underKeystream size block next s text).getD i 0 =
      text.getD i 0 ^^^ keystream size block next s i := by
  rw [List.getD_eq_getElem _ _ (by rw [underKeystream_length]; exact hi),List.getD_eq_getElem _ _ hi]
  simp [underKeystream]

/-- A text twice under one keystream is itself. -/
theorem underKeystream_twice (text : List UInt8) :
    underKeystream size block next s (underKeystream size block next s text) = text := by
  apply ext_getD (by simp)
  intro i hi
  rw [underKeystream_length,underKeystream_length] at hi
  rw [underKeystream_getD _ _ _ _ (by simpa using hi),underKeystream_getD _ _ _ _ hi,UInt8.xor_assoc,
    UInt8.xor_self,UInt8.xor_zero]

variable {size block next s}

/-- The chunk of block `j` is under the keystream. -/
theorem xorChunk_keystream (out input : List UInt8) (j : Nat) {chunk : Nat}
    (hchunk : chunk ≤ size) {i : Nat} (hi : i < out.length) :
    (xorChunk out input (block (next^[j] s)) (size*j) chunk).getD i 0 =
      if size*j ≤ i ∧ i < size*j+chunk then input.getD i 0 ^^^ keystream size block next s i
      else out.getD i 0 := by
  rw [xorChunk_getD _ _ _ _ _ hi]
  by_cases hin : size*j ≤ i ∧ i < size*j+chunk
  · have hdiv : i/size = j := Nat.div_eq_of_lt_le (by rw [Nat.mul_comm]; exact hin.1)
      (by rw [Nat.succ_mul,Nat.mul_comm]; omega)
    have hmod : i%size = i-size*j := by rw [Nat.mod_eq_sub_mul_div,hdiv]
    rw [if_pos hin,if_pos hin,keystream,hdiv,hmod]
  · rw [if_neg hin,if_neg hin]

/-- From a whole number of blocks on, the loop writes the rest of the text under the keystream:
induction on the bytes that are left. -/
theorem counterMode_getD (hsize : 0 < size) (input : List UInt8) (j : Nat) (out : List UInt8)
    (hlen : input.length ≤ out.length) :
    (counterMode size block next hsize out input (next^[j] s) (size*j)).length = out.length ∧
      ∀ i < out.length,
        (counterMode size block next hsize out input (next^[j] s) (size*j)).getD i 0 =
          if size*j ≤ i ∧ i < input.length then
            input.getD i 0 ^^^ keystream size block next s i
          else out.getD i 0 := by
  induction hleft : input.length-size*j using Nat.strong_induction_on generalizing j out with
  | _ left ih =>
    rw [counterMode]
    by_cases hmore : size*j < input.length
    · rw [if_pos hmore]
      dsimp only
      generalize hnext : xorChunk out input (block (next^[j] s)) (size*j)
        (min (input.length-size*j) size) = out'
      have hnextLen : out'.length = out.length := by rw [← hnext,xorChunk_length]
      by_cases hlast : input.length ≤ size*j+size
      · -- the last chunk, full or not: the loop ends behind it
        have hmin : min (input.length-size*j) size = input.length-size*j := by omega
        rw [hmin] at hnext ⊢
        rw [counterMode,if_neg (by omega)]
        refine ⟨hnextLen,?_⟩
        intro i hi
        have hend : size*j+(input.length-size*j) = input.length := by omega
        rw [← hnext,xorChunk_keystream _ _ _ (by omega) hi,hend]
      · have hmin : min (input.length-size*j) size = size := by omega
        rw [hmin] at hnext ⊢
        rw [← Function.iterate_succ_apply' next j s,← Nat.mul_succ]
        obtain ⟨hsame,hbytes⟩ := ih (input.length-size*(j+1)) (by rw [Nat.mul_succ]; omega) (j+1)
          out' (by omega) rfl
        refine ⟨hsame.trans hnextLen,?_⟩
        intro i hi
        rw [hbytes i (by omega),← hnext,xorChunk_keystream _ _ _ (le_refl size) hi,Nat.mul_succ]
        by_cases hlater : size*j+size ≤ i ∧ i < input.length
        · rw [if_pos hlater,if_pos (by omega)]
        · rw [if_neg hlater]
          by_cases hhere : size*j ≤ i ∧ i < size*j+size
          · rw [if_pos hhere,if_pos (by omega)]
          · rw [if_neg hhere,if_neg (by omega)]
    · rw [if_neg hmore]
      refine ⟨rfl,?_⟩
      intro i hi
      rw [if_neg (by omega)]

/-- The loop writes the text under the keystream to the head of its buffer. -/
theorem counterMode_eq (hsize : 0 < size) {input out : List UInt8}
    (hlen : input.length ≤ out.length) : counterMode size block next hsize out input s 0 =
      underKeystream size block next s input++out.drop input.length := by
  obtain ⟨hsame,hbytes⟩ : (counterMode size block next hsize out input (next^[0] s) (size*0)).length =
      out.length ∧ _ := counterMode_getD hsize input 0 out hlen
  rw [Nat.mul_zero,Function.iterate_zero_apply] at hsame hbytes
  apply ext_getD
  · rw [hsame,List.length_append,underKeystream_length,List.length_drop]
    omega
  · intro i hi
    rw [hsame] at hi
    rw [hbytes i hi]
    by_cases hin : i < input.length
    · rw [if_pos ⟨Nat.zero_le _,hin⟩,
        List.getD_append _ _ _ _ (by rw [underKeystream_length]; exact hin),
        underKeystream_getD _ _ _ _ hin]
    · rw [if_neg (by omega),
        List.getD_append_right _ _ _ _ (by rw [underKeystream_length]; omega),
        underKeystream_length,List.getD_eq_getElem?_getD,List.getD_eq_getElem?_getD,
        List.getElem?_drop]
      congr 2
      omega

end Mode

end ZZ9K.Crypto
