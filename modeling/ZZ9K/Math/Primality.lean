import ZZ9K.Math.BitScan
import Mathlib.FieldTheory.Finite.Basic
import Mathlib.NumberTheory.LucasPrimality
import Mathlib.Data.Nat.Log

namespace ZZ9K.Math

/-- A power modulo `m`, from the bits of the exponent -/
def powMod (m a e : Nat) : Nat :=
  scanBits e.testBit (fun bit s => let s := s*s%m; if bit then s*a%m else s) (e.log2+1) (1%m)

theorem powMod_eq (m a e : Nat) : powMod m a e = a^e%m := by
  refine scanBits_of_lt (I := fun k s => s = a^k%m) (fun _ _ => rfl) Nat.lt_log2_self ?_ rfl
  rintro k bit s rfl
  have hsquare : a^k%m*(a^k%m)%m = a^(2*k)%m := by rw [two_mul,pow_add,← Nat.mul_mod]
  cases bit with
  | false => exact hsquare
  | true => simp only [if_true,hsquare,Bool.toNat_true,pow_succ,Nat.mod_mul_mod]

/-- Whether no number divides `q` whose square is at most `q` -/
def trialPrime (q : Nat) : Bool :=
  2 ≤ q && (List.range (2^(q.log2/2+1))).all fun d => d < 2 || q < d*d || q%d != 0

theorem prime_of_trial {q : Nat} (h : trialPrime q) : q.Prime := by
  simp only [trialPrime,Bool.and_eq_true,decide_eq_true_eq,List.all_eq_true,List.mem_range,
    Bool.or_eq_true,bne_iff_ne,or_assoc] at h
  refine Nat.prime_def_le_sqrt.mpr ⟨h.1,fun m hm hsqrt hdvd => ?_⟩
  have hsquare : m*m ≤ q := Nat.le_sqrt.mp hsqrt
  have hlt : m < 2^(q.log2/2+1) := by
    by_contra hge
    have hbig := Nat.mul_le_mul (not_lt.mp hge) (not_lt.mp hge)
    have hexp : 2^(q.log2+1) ≤ 2^(q.log2/2+1)*2^(q.log2/2+1) := by
      rw [← pow_add]
      exact Nat.pow_le_pow_right (by decide) (by omega)
    have hq : q < 2^(q.log2+1) := Nat.lt_log2_self
    omega
  rcases h.2 m hlt with hsmall | hpast | hrest
  · omega
  · omega
  · exact hrest (Nat.mod_eq_zero_of_dvd hdvd)

/-- A number, an element of full order modulo it, and the factors of its predecessor -/
structure LucasEntry where
  number : Nat
  element : Nat
  factors : List Nat

/-- Whether an entry holds, if those before it are prime: a small factor is divided for. -/
def LucasEntry.holds (proved : List Nat) (e : LucasEntry) : Bool :=
  2 ≤ e.number && e.factors.prod == e.number-1 &&
    powMod e.number e.element (e.number-1) == 1 &&
    e.factors.all fun q => (q ∈ proved || (q < 2^20 && trialPrime q)) &&
      powMod e.number e.element ((e.number-1)/q) != 1

/-- Whether all entries hold, each by those before it -/
def certified : List Nat → List LucasEntry → Bool
  | _,[] => true
  | proved,e::es => e.holds proved && certified (e.number::proved) es

theorem natCast_pow_eq_one {p : Nat} (hp : 2 ≤ p) (a n : Nat) :
    (a : ZMod p)^n = 1 ↔ powMod p a n = 1 := by
  rw [powMod_eq,← Nat.cast_pow,← Nat.cast_one,ZMod.natCast_eq_natCast_iff',
    Nat.mod_eq_of_lt (show 1 < p from hp)]

/-- The criterion of Lucas, for an entry -/
theorem LucasEntry.prime {proved : List Nat} {e : LucasEntry}
    (hproved : ∀ q ∈ proved,q.Prime) (h : e.holds proved) : e.number.Prime := by
  simp only [LucasEntry.holds,Bool.and_eq_true,decide_eq_true_eq,beq_iff_eq,bne_iff_ne,
    List.all_eq_true,Bool.or_eq_true] at h
  obtain ⟨⟨⟨htwo,hprod⟩,hone⟩,hfactors⟩ := h
  refine lucas_primality e.number e.element ((natCast_pow_eq_one htwo _ _).mpr hone) ?_
  intro q hq hdvd
  rw [← hprod] at hdvd
  obtain ⟨f,hf,hqf⟩ := (Prime.dvd_prod_iff hq.prime).mp hdvd
  obtain ⟨hprime,hne⟩ := hfactors f hf
  have hfprime : f.Prime := hprime.elim (hproved f) (fun h => prime_of_trial h.2)
  obtain rfl := (Nat.prime_dvd_prime_iff_eq hq hfprime).mp hqf
  rwa [Ne,natCast_pow_eq_one htwo]

theorem certified_prime {proved : List Nat} {es : List LucasEntry}
    (hproved : ∀ q ∈ proved,q.Prime) (h : certified proved es) : ∀ e ∈ es,e.number.Prime := by
  induction es generalizing proved with
  | nil => exact fun e he => absurd he (List.not_mem_nil)
  | cons e es ih =>
    rw [certified,Bool.and_eq_true] at h
    have hprime := e.prime hproved h.1
    have hrest := ih (List.forall_mem_cons.mpr ⟨hprime,hproved⟩) h.2
    exact List.forall_mem_cons.mpr ⟨hprime,hrest⟩

/-- The theorem of Fermat, as a way to invert -/
theorem pow_sub_two {p : Nat} [Fact p.Prime] (hp : 2 < p) (a : ZMod p) : a^(p-2) = a⁻¹ := by
  by_cases hzero : a = 0
  · rw [hzero,inv_zero,zero_pow (by omega)]
  · have hfermat := ZMod.pow_card_sub_one_eq_one hzero
    have hsplit : p-1 = p-2+1 := by omega
    rw [hsplit,pow_succ] at hfermat
    exact eq_inv_of_mul_eq_one_left hfermat

end ZZ9K.Math
