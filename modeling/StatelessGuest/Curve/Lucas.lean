import Mathlib.Data.List.Prime
import Mathlib.NumberTheory.LucasPrimality

/-!
# Primes that can be checked

A large prime is checked by Lucas's test: a primitive root of it, and the prime factors of
its predecessor.  The factors are primes below `160000`, or earlier in the same chain.

## Main definitions

* `powMod` — powers, by squaring.
* `smallPrime` — trial division.
* `LucasStep`, `lucasChain` — a chain of tests.

## Main results

* `powMod_eq` — the specification of `powMod`.
* `prime_of_lucasChain` — **every number of a checked chain is prime.**
-/

namespace Curve

/-! ### Powers -/

/-- `b ^ e % m`, for an exponent of at most `bits` bits. -/
def powMod (m : ℕ) : ℕ → ℕ → ℕ → ℕ
  | 0, _, _ => 1 % m
  | bits + 1, b, e =>
    if e = 0 then 1 % m
    else if e % 2 = 0 then powMod m bits (b * b % m) (e / 2)
    else b * powMod m bits (b * b % m) (e / 2) % m

/-- **Squaring computes the power.** -/
theorem powMod_eq (m : ℕ) {bits e : ℕ} (b : ℕ) (h : e < 2 ^ bits) :
    powMod m bits b e = b ^ e % m := by
  induction bits generalizing b e with
  | zero =>
    obtain rfl : e = 0 := by rwa [pow_zero, Nat.lt_one_iff] at h
    rfl
  | succ bits ih =>
    have hsquare : (b * b % m) ^ (e / 2) % m = b ^ (2 * (e / 2)) % m := by
      rw [← Nat.pow_mod, ← pow_two, ← pow_mul]
    have hrec : powMod m bits (b * b % m) (e / 2) = b ^ (2 * (e / 2)) % m := by
      rw [ih (b * b % m) (by rw [pow_succ] at h; omega), hsquare]
    unfold powMod
    by_cases hzero : e = 0
    · rw [if_pos hzero, hzero, pow_zero]
    · rw [if_neg hzero, hrec]
      by_cases heven : e % 2 = 0
      · rw [if_pos heven, show 2 * (e / 2) = e by omega]
      · rw [if_neg heven, Nat.mul_mod_mod, ← pow_succ', show 2 * (e / 2) + 1 = e by omega]

theorem powMod_eq_one_iff {m : ℕ} (hm : 2 ≤ m) {bits e : ℕ} (b : ℕ) (h : e < 2 ^ bits) :
    powMod m bits b e = 1 ↔ (b : ZMod m) ^ e = 1 := by
  have hcast := ZMod.natCast_eq_natCast_iff' (b ^ e) 1 m
  rw [Nat.one_mod_eq_one.mpr (by omega), Nat.cast_pow, Nat.cast_one] at hcast
  rw [powMod_eq m b h, hcast]

/-! ### Small primes -/

/-- A prime below `160000`, by trial division. -/
def smallPrime (m : ℕ) : Bool :=
  2 ≤ m && m < 160000 && (List.range 400).all fun d => d < 2 || m < d * d || m % d != 0

theorem prime_of_smallPrime {m : ℕ} (h : smallPrime m = true) : m.Prime := by
  rw [smallPrime, Bool.and_eq_true, Bool.and_eq_true, List.all_eq_true] at h
  obtain ⟨⟨htwo, hlt⟩, hall⟩ := h
  rw [decide_eq_true_eq] at htwo hlt
  by_contra hcomposite
  have hsq : m.minFac ^ 2 ≤ m := Nat.minFac_sq_le_self (by omega) hcomposite
  have hfac : m.minFac < 400 := by nlinarith
  have hfacTwo : 2 ≤ m.minFac := (Nat.minFac_prime (by omega)).two_le
  have htrial := hall m.minFac (List.mem_range.mpr hfac)
  rw [pow_two] at hsq
  have hdvd : m % m.minFac = 0 := Nat.mod_eq_zero_of_dvd (Nat.minFac_dvd m)
  simp only [Bool.or_eq_true, decide_eq_true_eq, bne_iff_ne, hdvd] at htrial
  omega

/-! ### Chains of tests -/

/-- Lucas's test of one number: a primitive root, and the prime factors of its
predecessor. -/
structure LucasStep where
  prime : ℕ
  root : ℕ
  factors : List ℕ

variable (bits : ℕ)

/-- The test, given the numbers that are known to be prime. -/
def LucasStep.check (known : List ℕ) (s : LucasStep) : Bool :=
  2 ≤ s.prime && s.prime < 2 ^ bits && s.factors.prod == s.prime - 1 &&
    powMod s.prime bits s.root (s.prime - 1) == 1 &&
    s.factors.all fun q => (known.contains q || smallPrime q) &&
      powMod s.prime bits s.root ((s.prime - 1) / q) != 1

/-- A chain of tests, each of which may use the numbers before it. -/
def lucasChain : List ℕ → List LucasStep → Bool
  | _, [] => true
  | known, s :: steps => s.check bits known && lucasChain (s.prime :: known) steps

variable {bits}

/-- A number that passes the test is prime. -/
theorem LucasStep.prime_of_check {known : List ℕ} (hknown : ∀ q ∈ known, q.Prime) {s : LucasStep}
    (h : s.check bits known = true) : s.prime.Prime := by
  simp only [LucasStep.check, Bool.and_eq_true, decide_eq_true_eq, beq_iff_eq, List.all_eq_true,
    Bool.or_eq_true, List.contains_iff_mem, bne_iff_ne] at h
  obtain ⟨⟨⟨⟨htwo, hbits⟩, hprod⟩, hroot⟩, hfactors⟩ := h
  have hprime : ∀ q ∈ s.factors, q.Prime := fun q hq =>
    (hfactors q hq).1.elim (hknown q) prime_of_smallPrime
  refine lucas_primality s.prime s.root ((powMod_eq_one_iff htwo _ (by omega)).mp hroot)
    ?_
  intro q hq hdvd
  -- A prime factor of the predecessor is one of the list.
  have hmem : q ∈ s.factors := by
    rw [← hprod] at hdvd
    exact mem_list_primes_of_dvd_prod hq.prime (fun x hx => (hprime x hx).prime) hdvd
  have hlt : (s.prime - 1) / q < 2 ^ bits :=
    lt_of_le_of_lt (Nat.div_le_self _ _) (by omega)
  intro hone
  exact (hfactors q hmem).2 ((powMod_eq_one_iff htwo _ hlt).mpr hone)

/-- **Every number of a checked chain is prime.** -/
theorem prime_of_lucasChain {known : List ℕ} (hknown : ∀ q ∈ known, q.Prime)
    {steps : List LucasStep} (h : lucasChain bits known steps = true) {s : LucasStep}
    (hs : s ∈ steps) : s.prime.Prime := by
  induction steps generalizing known with
  | nil => cases hs
  | cons first steps ih =>
    rw [lucasChain, Bool.and_eq_true] at h
    have hfirst : first.prime.Prime := LucasStep.prime_of_check hknown h.1
    rcases List.mem_cons.mp hs with rfl | hs
    · exact hfirst
    · refine ih ?_ h.2 hs
      intro q hq
      rcases List.mem_cons.mp hq with rfl | hq
      · exact hfirst
      · exact hknown q hq

end Curve
