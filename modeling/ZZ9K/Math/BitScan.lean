import Mathlib.Data.Nat.Bitwise

namespace ZZ9K.Math

variable {σ : Type}

/-- A scan over the bits of a number, the highest first -/
def scanBits (bit : Nat → Bool) (step : Bool → σ → σ) : Nat → σ → σ
  | 0,s => s
  | n+1,s => scanBits bit step n (step (bit n) s)

/-- The bits of `x` seen so far are a number, and each bit more doubles it and is added: what holds of
that number and the state all through the scan holds of `x` in the end. -/
theorem scanBits_invariant {I : Nat → σ → Prop} {bit : Nat → Bool} {step : Bool → σ → σ} {x n : Nat}
    (hbit : ∀ i < n, bit i = x.testBit i)
    (hstep : ∀ k b s, I k s → I (2*k+b.toNat) (step b s)) {s : σ} (h : I (x/2^n) s) :
    I x (scanBits bit step n s) := by
  induction n generalizing s with
  | zero =>
    rw [Nat.pow_zero,Nat.div_one] at h
    exact h
  | succ n ih =>
    have hnext : x/2^n = 2*(x/2^(n+1))+(x.testBit n).toNat := by
      have hdiv : x/2^(n+1) = x/2^n/2 := by rw [Nat.pow_succ,Nat.div_div_eq_div_mul]
      have htest : (x.testBit n).toNat = x/2^n%2 := Nat.toNat_testBit x n
      rw [hdiv,htest]
      omega
    refine ih (fun i hi => hbit i (by omega)) ?_
    rw [hnext,hbit n (Nat.lt_succ_self n)]
    exact hstep _ _ _ h

/-- From a number of so many bits the scan starts at 0. -/
theorem scanBits_of_lt {I : Nat → σ → Prop} {bit : Nat → Bool} {step : Bool → σ → σ} {x n : Nat}
    (hbit : ∀ i < n, bit i = x.testBit i) (hx : x < 2^n)
    (hstep : ∀ k b s, I k s → I (2*k+b.toNat) (step b s)) {s : σ} (h : I 0 s) :
    I x (scanBits bit step n s) :=
  scanBits_invariant hbit hstep (by rw [Nat.div_eq_of_lt hx]; exact h)

end ZZ9K.Math
