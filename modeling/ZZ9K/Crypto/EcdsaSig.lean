import ZZ9K.Crypto.BigNumBytes
import ZZ9K.Framework.Reading
import Mathlib.Data.Nat.Size

namespace ZZ9K.Crypto

open ZZ9K.Framework ZZ9K.Framework.Reading

/-- `zz9k_der_int_to_32`, of the integer body in `len` places from `p` on -/
def derIntTo32 (p len : Nat) : Reading UInt8 (Option (List UInt8)) := do
  let zeros ← readWhile (· = 0x00) len p
  let len := len-zeros.length
  if 32 < len then return none
  else
    let body ← readAll len (p+zeros.length)
    return some (List.replicate (32-len) 0++body)

/-- One of the two integers of `zz9k_decode_ecdsa_sig`, with its tag at place `pos`: the place after
it and its 32 bytes. The two differ in where they may end, which `ends` says. -/
def decodeEcdsaInt (ends : Nat → Bool) (derlen pos : Nat) :
    Reading UInt8 (Option (Nat × List UInt8)) :=
  if derlen ≤ pos then return none
  else .ask pos fun tag => if tag ≠ 0x02 then .ret none
  -- the length is read without a look at `derlen`
  else .ask (pos+1) fun ilen => if ilen = 0 ∨ ¬ends (pos+2+ilen.toNat) then .ret none
  else do
    let some out ← derIntTo32 (pos+2) ilen.toNat | return none
    return some (pos+2+ilen.toNat,out)

/-- `zz9k_decode_ecdsa_sig` -/
def decodeEcdsaSig (derlen : Nat) : Reading UInt8 (Option (List UInt8 × List UInt8)) :=
  if derlen < 2 then return none
  else .ask 0 fun tag => if tag ≠ 0x30 then .ret none
  else .ask 1 fun seqlen => if seqlen &&& 0x80 ≠ 0 ∨ 2+seqlen.toNat ≠ derlen then .ret none
  else do
    let some (pos,r) ← decodeEcdsaInt (· ≤ derlen) derlen 2 | return none
    let some (_,s) ← decodeEcdsaInt (· = derlen) derlen pos | return none
    return some (r,s)

/-- An `INTEGER` with this body -/
def integerTlv (body : List UInt8) : List UInt8 := 0x02::UInt8.ofNat body.length::body

/-- The body of the `INTEGER` at the head of some bytes, and what follows it -/
def integerOf : List UInt8 → Option (List UInt8 × List UInt8)
  | tag::ilen::rest =>
    if tag = 0x02 ∧ ilen ≠ 0 ∧ ilen.toNat ≤ rest.length then
      some (rest.take ilen.toNat,rest.drop ilen.toNat)
    else none
  | _ => none

@[simp] theorem integerTlv_length (body : List UInt8) :
    (integerTlv body).length = body.length+2 := by simp [integerTlv]

theorem integerOf_eq_some {bs A after : List UInt8} : integerOf bs = some (A,after) ↔
    A ≠ [] ∧ A.length < 256 ∧ bs = integerTlv A++after := by
  match bs with
  | [] => simp [integerOf,integerTlv]
  | [t] => simp [integerOf,integerTlv]
  | tag::ilen::rest =>
    rw [integerOf]
    constructor
    · intro h
      split_ifs at h with hcond
      obtain ⟨rfl,hpos,hlen⟩ := hcond
      obtain ⟨rfl,rfl⟩ := Prod.mk.inj (Option.some.inj h)
      have htake : (rest.take ilen.toNat).length = ilen.toNat := by
        rw [List.length_take]
        omega
      refine ⟨fun hnil => hpos ?_,by rw [htake]; exact ilen.toNat_lt,?_⟩
      · rw [hnil] at htake
        exact UInt8.toNat_inj.mp htake.symm
      · rw [integerTlv,htake,UInt8.ofNat_toNat,List.cons_append,List.cons_append,
          List.take_append_drop]
    · rintro ⟨hne,hlt,hbs⟩
      simp only [integerTlv,List.cons_append,List.cons.injEq] at hbs
      obtain ⟨rfl,rfl,rfl⟩ := hbs
      have hlen : (UInt8.ofNat A.length).toNat = A.length := UInt8.toNat_ofNat_of_lt' hlt
      have hpos : UInt8.ofNat A.length ≠ 0 := by
        intro hzero
        rw [hzero] at hlen
        exact hne (List.length_eq_zero_iff.mp hlen.symm)
      rw [if_pos ⟨rfl,hpos,by rw [hlen,List.length_append]; omega⟩,hlen,List.take_left,
        List.drop_left]

/-- The top bit of a length byte is set from 0x80 on. -/
theorem and_high_ne_zero {b : UInt8} : b &&& 0x80 ≠ 0 ↔ 0x80 ≤ b.toNat := by
  obtain ⟨⟨b⟩⟩ := b
  revert b
  decide +kernel

/-- A byte string starts with its first byte. -/
theorem beNat_cons_div (b : UInt8) (bs : List UInt8) :
    beNat (b::bs)/256^bs.length = b.toNat := by
  have hcons := beNat_append [b] bs
  have hb : beNat [b] = b.toNat := by simp [beNat]
  rw [List.singleton_append,hb] at hcons
  rw [hcons,Nat.add_mul_div_left _ _ (by positivity),Nat.div_eq_of_lt (beNat_lt bs),Nat.zero_add]

theorem le_beNat_cons {b : UInt8} {bs : List UInt8} {k : Nat} :
    k*256^bs.length ≤ beNat (b::bs) ↔ k ≤ b.toNat := by
  rw [← beNat_cons_div b bs,Nat.le_div_iff_mul_le (by positivity)]

theorem beNat_zero_cons (bs : List UInt8) : beNat (0::bs) = beNat bs := by
  have hcons := beNat_append [0] bs
  have hzero : beNat [0] = 0 := rfl
  rw [hzero,Nat.mul_zero,Nat.add_zero] at hcons
  exact hcons

theorem beNat_replicate_append (n : Nat) (bs : List UInt8) :
    beNat (List.replicate n 0++bs) = beNat bs := by
  induction n with
  | zero => rfl
  | succ n ih =>
    rw [List.replicate_succ,List.cons_append,beNat_zero_cons]
    exact ih

/-- Leading zeros do not count. -/
theorem beNat_dropWhile (bs : List UInt8) : beNat (bs.dropWhile (· = 0)) = beNat bs := by
  induction bs with
  | nil => rfl
  | cons b bs ih =>
    rw [List.dropWhile_cons]
    split_ifs with hb
    · rw [of_decide_eq_true hb,beNat_zero_cons]
      exact ih
    · rfl

/-- Bytes behind the leading zeros are so many as the number has. -/
theorem dropWhile_length_le {bs : List UInt8} {n : Nat} :
    (bs.dropWhile (· = 0)).length ≤ n ↔ beNat bs < 256^n := by
  rw [← beNat_dropWhile]
  constructor
  · intro h
    exact lt_of_lt_of_le (beNat_lt _) (Nat.pow_le_pow_right (by omega) h)
  · intro h
    cases hdrop : bs.dropWhile (· = 0) with
    | nil => exact Nat.zero_le n
    | cons b rest =>
      have hhead := List.head?_dropWhile_not (fun c : UInt8 => decide (c = 0)) bs
      rw [hdrop,List.head?_cons] at hhead
      have hb : 1 ≤ b.toNat := by
        have hne : b ≠ 0 := of_decide_eq_false hhead
        have hnat : b.toNat ≠ 0 := fun hzero => hne (UInt8.toNat_inj.mp hzero)
        omega
      have hle := (@le_beNat_cons b rest 1).mpr hb
      rw [hdrop] at h
      have hpow : 256^rest.length < 256^n := by omega
      exact (Nat.pow_lt_pow_iff_right (by omega)).mp hpow

/-- The number of a body has at most 32 bytes. -/
def FitsScalar (body : List UInt8) : Prop := beNat body < 256^32

instance (body : List UInt8) : Decidable (FitsScalar body) :=
  inferInstanceAs (Decidable (beNat body < 256^32))

/-- A body comes out as 32 bytes, unless its number has more. -/
theorem onBuffer_derIntTo32 {mem : List UInt8} {p len : Nat} (h : p+len ≤ mem.length) :
    onBuffer mem (derIntTo32 p len) = some (if FitsScalar ((mem.drop p).take len) then
      some (beBytes 32 (beNat ((mem.drop p).take len))) else none) := by
  have hbody : ((mem.drop p).take len).length = len := by
    rw [List.length_take,List.length_drop]
    omega
  rw [derIntTo32,onBuffer_bind,onBuffer_readWhile _ _ h,Option.bind_some]
  generalize hb : (mem.drop p).take len = body at hbody ⊢
  have hlt : (body.dropWhile (· = 0)).length ≤ 32 ↔ FitsScalar body := dropWhile_length_le
  have hvalue := beNat_dropWhile body
  have hsplit := List.takeWhile_append_dropWhile (p := fun c : UInt8 => decide (c = 0)) (l := body)
  generalize body.takeWhile (· = 0) = zeros at hsplit ⊢
  generalize body.dropWhile (· = 0) = rest at hlt hvalue hsplit
  have hcount : zeros.length+rest.length = len := by
    rw [← hbody,← hsplit,List.length_append]
  have hread : (mem.drop (p+zeros.length)).take rest.length = rest := by
    rw [← List.drop_drop,List.take_drop,hcount,hb,← hsplit,List.drop_left]
  rw [show len-zeros.length = rest.length by omega]
  by_cases hle : rest.length ≤ 32
  · -- with the zeros in front, the bytes are as many as `out` has
    have hpad : (List.replicate (32-rest.length) (0 : UInt8)++rest).length = 32 := by
      rw [List.length_append,List.length_replicate]
      omega
    have hout := beBytes_beNat (List.replicate (32-rest.length) (0 : UInt8)++rest)
    rw [hpad,beNat_replicate_append,hvalue] at hout
    rw [if_neg (by omega),onBuffer_bind,onBuffer_readAll _ (by omega),hread,if_pos (hlt.mp hle),
      hout]
    rfl
  · rw [if_pos (by omega),if_neg (mt hlt.mpr hle)]
    rfl

/-- On a byte string with some bytes of memory behind it, an integer is found where its tag and
length stand. Only where the tag is the last byte does the length come from behind. -/
theorem onBuffer_decodeEcdsaInt {pre rest beyond : List UInt8} {ends : Nat → Bool}
    (hends : ∀ e,ends e → e ≤ pre.length+rest.length) :
    onBuffer (pre++(rest++beyond)) (decodeEcdsaInt ends (pre.length+rest.length) pre.length) =
      if rest = [0x02] ∧ beyond = [] then none
      else some ((integerOf rest).bind fun (body,after) =>
        if ends (pre.length+rest.length-after.length) ∧ FitsScalar body then
          some (pre.length+rest.length-after.length,beBytes 32 (beNat body))
        else none) := by
  have hget : ∀ {bs : List UInt8} (i : Nat),(pre++bs)[pre.length+i]? = bs[i]? := by
    intro bs i
    rw [List.getElem?_append_right (Nat.le_add_right _ _),Nat.add_sub_cancel_left]
  have htag : ∀ {bs : List UInt8},(pre++bs)[pre.length]? = bs[0]? := fun {bs} => hget 0
  match rest with
  | [] =>
    rw [decodeEcdsaInt,if_pos (by simp),if_neg (by simp)]
    rfl
  | [tag] =>
    rw [decodeEcdsaInt,if_neg (by simp),onBuffer,htag]
    by_cases h2 : tag = 0x02
    · subst h2
      cases beyond with
      | nil => simp [onBuffer]
      | cons b beyond =>
        have hbeyond : ¬ends (pre.length+2+b.toNat) := by
          intro hb
          have := hends _ hb
          simp at this
          omega
        simp [onBuffer,hbeyond,integerOf]
    · simp [h2,integerOf]
  | tag::ilen::body =>
    rw [decodeEcdsaInt,if_neg (by simp),if_neg (by simp),onBuffer,htag]
    by_cases h2 : tag = 0x02
    · subst h2
      simp only [List.cons_append,List.getElem?_cons_zero,ne_eq,not_true_eq_false,if_false]
      rw [onBuffer,hget]
      simp only [List.getElem?_cons_succ,List.getElem?_cons_zero]
      have hskip : (pre++0x02::ilen::(body++beyond)).drop (pre.length+2) = body++beyond := by
        rw [← List.drop_drop,List.drop_left]
        rfl
      by_cases hin : ilen = 0 ∨ ¬ends (pre.length+2+ilen.toNat)
      · rw [if_pos hin,integerOf]
        split_ifs with hsome
        · have hafter : pre.length+(0x02::ilen::body).length-(body.drop ilen.toNat).length =
              pre.length+2+ilen.toNat := by
            simp
            omega
          have hout := hin.resolve_left hsome.2.1
          rw [Option.bind_some]
          dsimp only
          rw [hafter,if_neg fun h => hout h.1]
          rfl
        · rfl
      · rw [not_or,not_not] at hin
        have hle := hends _ hin.2
        rw [List.length_cons,List.length_cons] at hle
        have hafter : pre.length+(0x02::ilen::body).length-(body.drop ilen.toNat).length =
            pre.length+2+ilen.toNat := by
          simp
          omega
        have hbody : (body++beyond).take ilen.toNat = body.take ilen.toNat :=
          List.take_append_of_le_length (by omega)
        have hsome : integerOf (0x02::ilen::body) =
            some (body.take ilen.toNat,body.drop ilen.toNat) := by
          rw [integerOf,if_pos ⟨rfl,hin.1,by omega⟩]
        rw [if_neg (by rw [not_or,not_not]; exact hin),onBuffer_bind,
          onBuffer_derIntTo32 (by simp; omega),hskip,hbody,hsome,Option.bind_some,
          Option.bind_some]
        simp only [hafter,hin.2,true_and]
        split_ifs <;> rfl
    · simp [h2,integerOf]

/-- What the decoder makes of the bytes in the sequence, with some bytes of memory behind them -/
def sigIn (rest beyond : List UInt8) : Option (Option (List UInt8 × List UInt8)) :=
  if rest = [0x02] ∧ beyond = [] then none
  else match integerOf rest with
  | none => some none
  | some (A,after) =>
    if ¬FitsScalar A then some none
    else if after = [0x02] ∧ beyond = [] then none
    else match integerOf after with
    | none => some none
    | some (B,tail) =>
      if tail = [] ∧ FitsScalar B then some (some (beBytes 32 (beNat A),beBytes 32 (beNat B)))
      else some none

theorem onBuffer_decodeEcdsaSig_body {n : UInt8} {rest : List UInt8} (beyond : List UInt8)
    (hn : n.toNat = rest.length) (hshort : n.toNat < 0x80) :
    onBuffer (0x30::n::(rest++beyond)) (decodeEcdsaSig (2+rest.length)) = sigIn rest beyond := by
  have hlow : n &&& 0x80 = 0 := by
    by_contra h
    have := and_high_ne_zero.mp h
    omega
  rw [decodeEcdsaSig,if_neg (by omega)]
  simp only [onBuffer,List.getElem?_cons_zero,List.getElem?_cons_succ,ne_eq,not_true_eq_false,
    if_false,hlow,hn,or_self]
  rw [onBuffer_bind]
  have hfirst := @onBuffer_decodeEcdsaInt [0x30,n] rest beyond (· ≤ 2+rest.length)
    fun e he => of_decide_eq_true he
  simp only [List.cons_append,List.nil_append,List.length_cons,List.length_nil,Nat.zero_add,
    Nat.reduceAdd] at hfirst
  rw [hfirst,sigIn]
  split_ifs with htag
  · rfl
  rw [Option.bind_some]
  cases hA : integerOf rest with
  | none => rfl
  | some first =>
    obtain ⟨A,after⟩ := first
    obtain ⟨-,-,hrest⟩ := integerOf_eq_some.mp hA
    dsimp only [Option.bind_some]
    have hend : 2+rest.length-after.length ≤ 2+rest.length := Nat.sub_le _ _
    by_cases hlong : ¬FitsScalar A
    · rw [if_neg fun h => hlong h.2,if_pos hlong]
      rfl
    rw [if_pos ⟨decide_eq_true hend,not_not.mp hlong⟩,if_neg hlong]
    dsimp only
    rw [onBuffer_bind]
    have hpos : 2+rest.length-after.length = (0x30::n::integerTlv A).length := by
      rw [hrest]
      simp
      omega
    have hlen : 2+rest.length = (0x30::n::integerTlv A).length+after.length := by
      rw [hrest]
      simp
      omega
    have hsecond := @onBuffer_decodeEcdsaInt (0x30::n::integerTlv A) after beyond
      (· = 2+rest.length) fun e he => by rw [of_decide_eq_true he,hlen]
    have hmem : 0x30::n::(rest++beyond) = 0x30::n::integerTlv A++(after++beyond) := by
      rw [hrest]
      simp
    rw [← hlen,← hpos,← hmem] at hsecond
    rw [hsecond]
    split_ifs with htag
    · rfl
    rw [Option.bind_some]
    cases hB : integerOf after with
    | none => rfl
    | some second =>
      obtain ⟨B,tail⟩ := second
      dsimp only [Option.bind_some]
      have hlast : 2+rest.length-tail.length = 2+rest.length ↔ tail = [] := by
        obtain ⟨-,-,hafter⟩ := integerOf_eq_some.mp hB
        rw [hrest,hafter,← List.length_eq_zero_iff]
        simp only [List.length_append,integerTlv_length]
        omega
      simp only [decide_eq_true_eq,hlast]
      split_ifs <;> rfl

/-- The decoder leaves the bytes exactly where it comes upon a tag at their end. -/
theorem sigIn_eq_none {rest beyond : List UInt8} : sigIn rest beyond = none ↔ beyond = [] ∧
    (rest = [0x02] ∨ ∃ A,integerOf rest = some (A,[0x02]) ∧ FitsScalar A) := by
  rw [sigIn]
  by_cases htag : rest = [0x02]
  · subst htag
    cases beyond <;> simp [integerOf]
  · rw [if_neg fun h => htag h.1]
    cases hA : integerOf rest with
    | none => simp [htag]
    | some first =>
      obtain ⟨A,after⟩ := first
      dsimp only
      split_ifs with hlong hafter
      · simp [hafter,hlong]
      · cases hB : integerOf after with
        | none => simpa [htag,hlong] using fun hbeyond h => hafter ⟨h,hbeyond⟩
        | some second =>
          simp only
          split_ifs <;> simpa [htag,hlong] using fun hbeyond h => hafter ⟨h,hbeyond⟩
      · simp [htag,hlong]

/-- It accepts two integers that fill the bytes. -/
theorem sigIn_eq_some {rest beyond r s : List UInt8} : sigIn rest beyond = some (some (r,s)) ↔
    ∃ A after B,integerOf rest = some (A,after) ∧ integerOf after = some (B,[]) ∧
      FitsScalar A ∧ FitsScalar B ∧ r = beBytes 32 (beNat A) ∧ s = beBytes 32 (beNat B) := by
  rw [sigIn]
  by_cases htag : rest = [0x02]
  · subst htag
    split_ifs <;> simp [integerOf]
  rw [if_neg fun h => htag h.1]
  cases hA : integerOf rest with
  | none => simp
  | some first =>
    obtain ⟨A,after⟩ := first
    dsimp only
    split_ifs with hlong hafter
    · simp [hafter.1,integerOf]
    · cases hB : integerOf after with
      | none => simp [hB]
      | some second =>
        obtain ⟨B,tail⟩ := second
        simp only
        split_ifs with hlast
        · simp [hB,hlast,hlong,eq_comm]
        · simpa [hB] using fun htail _ hfits => absurd ⟨htail,hfits⟩ hlast
    · simp [hlong]

/-- A `SEQUENCE` of these bytes, with its length in short form -/
structure IsSequence (der rest : List UInt8) : Prop where
  bytes : der = 0x30::UInt8.ofNat rest.length::rest
  short : rest.length < 0x80

theorem IsSequence.rest_eq {der rest other : List UInt8} (h : IsSequence der rest)
    (hother : IsSequence der other) : rest = other := by
  have hbytes := h.bytes.symm.trans hother.bytes
  exact (List.cons.inj (List.cons.inj hbytes).2).2

/-- Anything but a sequence is refused before the decoder comes to an integer. -/
theorem onBuffer_decodeEcdsaSig (der beyond : List UInt8) :
    (∃ rest,IsSequence der rest ∧
      onBuffer (der++beyond) (decodeEcdsaSig der.length) = sigIn rest beyond) ∨
    (¬∃ rest,IsSequence der rest) ∧
      onBuffer (der++beyond) (decodeEcdsaSig der.length) = some none := by
  by_cases hseq : ∃ rest,IsSequence der rest
  · obtain ⟨rest,hseq⟩ := hseq
    refine .inl ⟨rest,hseq,?_⟩
    have hn : (UInt8.ofNat rest.length).toNat = rest.length :=
      UInt8.toNat_ofNat_of_lt' (lt_trans hseq.short (by decide))
    have hbody := onBuffer_decodeEcdsaSig_body beyond hn (by rw [hn]; exact hseq.short)
    rw [hseq.bytes,List.length_cons,List.length_cons,Nat.add_assoc,Nat.add_comm]
    exact hbody
  · refine .inr ⟨hseq,?_⟩
    match der with
    | [] => rfl
    | [tag] => rfl
    | tag::n::rest =>
      by_cases h30 : tag = 0x30
      · subst h30
        have hbad : n &&& 0x80 ≠ 0 ∨ 2+n.toNat ≠ rest.length+1+1 := by
          by_contra h
          rw [not_or,not_not,not_not] at h
          have hshort : ¬0x80 ≤ n.toNat := fun hhigh => and_high_ne_zero.mpr hhigh h.1
          have hlen : n.toNat = rest.length := by omega
          exact hseq ⟨rest,by rw [← hlen,UInt8.ofNat_toNat],by omega⟩
        simp [decodeEcdsaSig,onBuffer,hbad]
      · simp [decodeEcdsaSig,onBuffer,h30]

/-- The bytes end right after an `INTEGER` tag that the decoder comes to. -/
def EndsAtTag (der : List UInt8) : Prop :=
  IsSequence der [0x02] ∨
  ∃ A,IsSequence der (integerTlv A++[0x02]) ∧ A ≠ [] ∧ FitsScalar A

/-- The decoder stays in its bytes, unless they end right after a tag that it comes to: it reads the
length behind every tag. -/
theorem decodeEcdsaSig_inside (der : List UInt8) :
    onBuffer der (decodeEcdsaSig der.length) ≠ none ↔ ¬EndsAtTag der := by
  rw [not_iff_not]
  obtain ⟨rest,hseq,hrun⟩ | ⟨hseq,hrun⟩ := onBuffer_decodeEcdsaSig der []
  · rw [List.append_nil] at hrun
    rw [hrun,sigIn_eq_none]
    constructor
    · rintro ⟨-,rfl | ⟨A,hA,hfits⟩⟩
      · exact .inl hseq
      · obtain ⟨hne,-,rfl⟩ := integerOf_eq_some.mp hA
        exact .inr ⟨A,hseq,hne,hfits⟩
    · rintro (hend | ⟨A,hend,hne,hfits⟩)
      · exact ⟨rfl,.inl (hseq.rest_eq hend)⟩
      · have hrest := hseq.rest_eq hend
        have hlt := hend.short
        rw [List.length_append,integerTlv_length] at hlt
        exact ⟨rfl,.inr ⟨A,integerOf_eq_some.mpr ⟨hne,by omega,hrest⟩,hfits⟩⟩
  · rw [List.append_nil] at hrun
    rw [hrun]
    refine iff_of_false (by simp) ?_
    rintro (hend | ⟨A,hend,-⟩)
    · exact hseq ⟨_,hend⟩
    · exact hseq ⟨_,hend⟩

theorem decodeEcdsaSig_not_inside :
    ¬∀ der : List UInt8,onBuffer der (decodeEcdsaSig der.length) ≠ none :=
  fun h => h [0x30,0x01,0x02] rfl

/-- Two integers of at most 32 bytes each are accepted, however they are written. -/
theorem onBuffer_lenient {der A B : List UInt8}
    (hseq : IsSequence der (integerTlv A++integerTlv B)) (hA : A ≠ []) (hB : B ≠ [])
    (hfitsA : FitsScalar A) (hfitsB : FitsScalar B) (beyond : List UInt8) :
    onBuffer (der++beyond) (decodeEcdsaSig der.length) =
      some (some (beBytes 32 (beNat A),beBytes 32 (beNat B))) := by
  have hlt := hseq.short
  rw [List.length_append,integerTlv_length,integerTlv_length] at hlt
  have hfirst : integerOf (integerTlv A++integerTlv B) = some (A,integerTlv B) :=
    integerOf_eq_some.mpr ⟨hA,by omega,rfl⟩
  have hsecond : integerOf (integerTlv B) = some (B,[]) :=
    integerOf_eq_some.mpr ⟨hB,by omega,(List.append_nil _).symm⟩
  obtain ⟨rest,hrest,hrun⟩ | ⟨hno,-⟩ := onBuffer_decodeEcdsaSig der beyond
  · rw [hrun,sigIn_eq_some,hrest.rest_eq hseq]
    exact ⟨A,_,B,hfirst,hsecond,hfitsA,hfitsB,rfl,rfl⟩
  · exact absurd ⟨_,hseq⟩ hno

/-- With memory behind the bytes the decoder always returns, and accepts nothing else. -/
theorem onBuffer_beyond (der : List UInt8) (beyond : UInt8) : ∃ result,
    onBuffer (der++[beyond]) (decodeEcdsaSig der.length) = some result ∧
    ∀ out,result = some out → ∃ A B,IsSequence der (integerTlv A++integerTlv B) ∧ A ≠ [] ∧ B ≠ [] ∧
      FitsScalar A ∧ FitsScalar B ∧ out = (beBytes 32 (beNat A),beBytes 32 (beNat B)) := by
  obtain ⟨rest,hseq,hrun⟩ | ⟨-,hrun⟩ := onBuffer_decodeEcdsaSig der [beyond]
  · cases hresult : sigIn rest [beyond] with
    | none => cases (sigIn_eq_none.mp hresult).1
    | some result =>
      refine ⟨result,hrun.trans hresult,?_⟩
      rintro ⟨r,s⟩ rfl
      obtain ⟨A,after,B,hA,hB,hfitsA,hfitsB,rfl,rfl⟩ := sigIn_eq_some.mp hresult
      obtain ⟨hneA,-,rfl⟩ := integerOf_eq_some.mp hA
      obtain ⟨hneB,-,rfl⟩ := integerOf_eq_some.mp hB
      rw [List.append_nil] at hseq
      exact ⟨A,B,hseq,hneA,hneB,hfitsA,hfitsB,rfl⟩
  · exact ⟨none,hrun,nofun⟩

/-- A body that stands for a number at or above zero, with no byte too many -/
def Minimal : List UInt8 → Prop
  | [] => False
  | b::bs => b.toNat < 0x80 ∧ (b = 0 → ∀ c ∈ bs.head?,0x80 ≤ c.toNat)

/-- The body of an `INTEGER`: the bytes of its number, with room for the sign -/
def derContents (v : Nat) : List UInt8 := beBytes (v.size/8+1) v

/-- The encoding of `SEQUENCE { INTEGER r, INTEGER s }` -/
def derSignature (r s : Nat) : List UInt8 :=
  let rest := integerTlv (derContents r)++integerTlv (derContents s)
  0x30::UInt8.ofNat rest.length::rest

/-- The decoder accepts the bytes, whatever stands in memory behind them, exactly as the encoding of
two numbers below 2^256, and returns these. -/
def AcceptsDer (der : List UInt8) : Prop :=
  ∀ beyond : UInt8,∃ result,
    onBuffer (der++[beyond]) (decodeEcdsaSig der.length) = some result ∧
    ∀ out,result = some out ↔ ∃ r s,r < 2^256 ∧ s < 2^256 ∧ der = derSignature r s ∧
      out = (beBytes 32 r,beBytes 32 s)

theorem top_bit_pow (n : Nat) : 0x80*256^n = 2^(8*n+7) := by
  rw [pow_add,pow_mul,Nat.mul_comm]
  norm_num

theorem size_lt_iff {b : UInt8} {bs : List UInt8} :
    (beNat (b::bs)).size < 8*bs.length+8 ↔ b.toNat < 0x80 := by
  rw [Nat.lt_succ_iff,Nat.size_le,← top_bit_pow,← not_le,le_beNat_cons,not_le]

theorem le_size_iff {b : UInt8} {bs : List UInt8} :
    8*bs.length ≤ (beNat (b::bs)).size ↔ (b = 0 → ∀ c ∈ bs.head?,0x80 ≤ c.toNat) := by
  cases bs with
  | nil => simp
  | cons c cs =>
    have hsize : 8*(c::cs).length ≤ (beNat (b::c::cs)).size ↔
        0x80*256^cs.length ≤ beNat (b::c::cs) := by
      rw [top_bit_pow,← Nat.lt_size,List.length_cons]
      omega
    simp only [List.head?_cons,Option.mem_some_iff,forall_eq']
    rw [hsize]
    by_cases hb : b = 0
    · subst hb
      rw [beNat_zero_cons,le_beNat_cons]
      exact ⟨fun h _ => h,fun h => h rfl⟩
    · have hpos : 1 ≤ b.toNat := by
        have hne : b.toNat ≠ 0 := fun h => hb (UInt8.toNat_inj.mp h)
        omega
      have hle := (@le_beNat_cons b (c::cs) 1).mpr hpos
      rw [List.length_cons,pow_succ] at hle
      exact iff_of_true (by omega) fun h => absurd h hb

/-- Minimal bodies are those of numbers. -/
theorem minimal_iff {body : List UInt8} : Minimal body ↔ body = derContents (beNat body) := by
  cases body with
  | nil =>
    refine iff_of_false id fun h => ?_
    have hlen := congrArg List.length h
    simp [derContents] at hlen
  | cons b bs =>
    have hlen : b::bs = derContents (beNat (b::bs)) ↔ (beNat (b::bs)).size/8 = bs.length := by
      constructor
      · intro h
        have hlen := congrArg List.length h
        rw [derContents,beBytes_length,List.length_cons] at hlen
        omega
      · intro h
        rw [derContents,h,← List.length_cons,beBytes_beNat]
    rw [hlen,Minimal,← @size_lt_iff b bs,← le_size_iff]
    omega

theorem beNat_derContents (v : Nat) : beNat (derContents v) = v := by
  have hsize : v.size ≤ 8*(v.size/8+1) := by omega
  rw [derContents,beNat_beBytes,Nat.mod_eq_of_lt]
  rw [show (256 : Nat) = 2^8 from rfl,← pow_mul]
  exact Nat.size_le.mp hsize

theorem derContents_length {v : Nat} (h : v < 2^256) : (derContents v).length ≤ 33 := by
  have hsize := Nat.size_le.mpr h
  rw [derContents,beBytes_length]
  omega

theorem derContents_ne_nil (v : Nat) : derContents v ≠ [] :=
  List.ne_nil_of_length_pos (by simp [derContents])

theorem isSequence_derSignature {r s : Nat} (hr : r < 2^256) (hs : s < 2^256) :
    IsSequence (derSignature r s) (integerTlv (derContents r)++integerTlv (derContents s)) := by
  have hrlen := derContents_length hr
  have hslen := derContents_length hs
  refine ⟨rfl,?_⟩
  rw [List.length_append,integerTlv_length,integerTlv_length]
  omega

/-- A sequence has its two integers in one way only. -/
theorem integerTlv_inj {der A B A' B' : List UInt8}
    (hseq : IsSequence der (integerTlv A++integerTlv B))
    (hseq' : IsSequence der (integerTlv A'++integerTlv B')) (hA : A ≠ []) (hA' : A' ≠ []) :
    A = A' ∧ B = B' := by
  have hlt := hseq.short
  have hlt' := hseq'.short
  rw [List.length_append,integerTlv_length,integerTlv_length] at hlt hlt'
  have hfirst : integerOf (integerTlv A++integerTlv B) = some (A,integerTlv B) :=
    integerOf_eq_some.mpr ⟨hA,by omega,rfl⟩
  have hfirst' : integerOf (integerTlv A++integerTlv B) = some (A',integerTlv B') :=
    integerOf_eq_some.mpr ⟨hA',by omega,hseq.rest_eq hseq'⟩
  obtain ⟨rfl,htlv⟩ := Prod.mk.inj (Option.some.inj (hfirst.symm.trans hfirst'))
  exact ⟨rfl,(List.cons.inj (List.cons.inj htlv).2).2⟩

/-- What the decoder accepts is DER, as long as the bodies of both integers are minimal: it strips
any zeros, and takes every body for a number at or above zero. -/
theorem decodeEcdsaSig_accepts (der : List UInt8) : AcceptsDer der ↔
    ∀ A B,IsSequence der (integerTlv A++integerTlv B) → A ≠ [] → B ≠ [] →
      FitsScalar A → FitsScalar B → Minimal A ∧ Minimal B := by
  constructor
  · intro hder A B hseq hA hB hfitsA hfitsB
    obtain ⟨result,hrun,hout⟩ := hder 0
    have hsome := onBuffer_lenient hseq hA hB hfitsA hfitsB [0]
    rw [hrun] at hsome
    obtain ⟨r,s,hr,hs,rfl,-⟩ := (hout _).mp (Option.some.inj hsome)
    obtain ⟨rfl,rfl⟩ := integerTlv_inj hseq (isSequence_derSignature hr hs) hA
      (derContents_ne_nil r)
    simp only [minimal_iff,beNat_derContents,and_self]
  · intro hmin beyond
    obtain ⟨result,hrun,hout⟩ := onBuffer_beyond der beyond
    refine ⟨result,hrun,fun out => ⟨fun h => ?_,?_⟩⟩
    · obtain ⟨A,B,hseq,hA,hB,hfitsA,hfitsB,rfl⟩ := hout out h
      obtain ⟨hminA,hminB⟩ := hmin A B hseq hA hB hfitsA hfitsB
      refine ⟨beNat A,beNat B,hfitsA,hfitsB,?_,rfl⟩
      rw [derSignature,← minimal_iff.mp hminA,← minimal_iff.mp hminB]
      exact hseq.bytes
    · rintro ⟨r,s,hr,hs,rfl,rfl⟩
      have hfits : ∀ {v : Nat},v < 2^256 → FitsScalar (derContents v) := by
        intro v hv
        rw [FitsScalar,beNat_derContents]
        exact hv
      have hsome := onBuffer_lenient (isSequence_derSignature hr hs) (derContents_ne_nil r)
        (derContents_ne_nil s) (hfits hr) (hfits hs) [beyond]
      rw [hrun,beNat_derContents,beNat_derContents] at hsome
      exact Option.some.inj hsome

theorem decodeEcdsaSig_not_accepts : ¬∀ der,AcceptsDer der := by
  intro h
  obtain ⟨result,hrun,hout⟩ := h [0x30,0x06,0x02,0x01,0x80,0x02,0x01,0x01] 0
  have hseq : IsSequence [0x30,0x06,0x02,0x01,0x80,0x02,0x01,0x01]
      (integerTlv [0x80]++integerTlv [0x01]) := ⟨rfl,by decide⟩
  have hfits : FitsScalar [0x80] ∧ FitsScalar [0x01] := by decide
  have hsome := onBuffer_lenient hseq (by simp) (by simp) hfits.1 hfits.2 [0]
  rw [hrun] at hsome
  obtain ⟨r,s,hr,hs,hbytes,-⟩ := (hout _).mp (Option.some.inj hsome)
  have hder := isSequence_derSignature hr hs
  rw [← hbytes] at hder
  have hnegative := (integerTlv_inj hseq hder (by simp) (derContents_ne_nil r)).1
  have hmin : Minimal [0x80] := minimal_iff.mpr (by rw [hnegative,beNat_derContents])
  exact absurd hmin.1 (by decide)

end ZZ9K.Crypto
