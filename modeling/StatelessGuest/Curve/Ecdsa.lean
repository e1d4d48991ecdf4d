import Mathlib.Algebra.Field.ZMod
import Mathlib.Algebra.Module.Basic

/-!
# Verification and recovery

ECDSA over any group in which a prime `n` is the order of every element: a signature
`(r, s)` of `z` is valid for the key `Q` when the first coordinate of the point
`(z / s) G + (r / s) Q`, modulo `n`, is `r`.  Recovery goes the other way, from a point
with the first coordinate `r` to the key.

## Main definitions

* `verifyPoint`, `recoverPoint` — the two points.
* `ValidSignature` — the verification equation.
* `Recoverable` — some point with the first coordinate `r` gives the key.

## Main results

* `recoverPoint_eq_iff` — recovery is the inverse of verification.
* `recoverable_iff_validSignature` — **when recovery decides validity.**
-/

namespace Curve

variable {M : Type*} [AddCommGroup M]

section

variable {K : Type*} [Field K] [Module K M]

/-- `(z / s) G + (r / s) Q` -/
def verifyPoint (G : M) (z r s : K) (Q : M) : M := (z / s) • G + (r / s) • Q

/-- `r⁻¹ (s R - z G)` -/
def recoverPoint (G : M) (z r s : K) (R : M) : M := r⁻¹ • (s • R - z • G)

/-- **Recovery is the inverse of verification.** -/
theorem recoverPoint_eq_iff {G Q R : M} {z r s : K} (hr : r ≠ 0) (hs : s ≠ 0) :
    recoverPoint G z r s R = Q ↔ R = verifyPoint G z r s Q := by
  rw [recoverPoint, inv_smul_eq_iff₀ hr, sub_eq_iff_eq_add, ← eq_inv_smul_iff₀ hs, smul_add,
    smul_smul, smul_smul, inv_mul_eq_div, inv_mul_eq_div, add_comm, verifyPoint]

/-- The point of a signature `(r, r)` of zero is the key. -/
theorem verifyPoint_zero_self {G Q : M} {r : K} (hr : r ≠ 0) : verifyPoint G 0 r r Q = Q := by
  rw [verifyPoint, zero_div, zero_smul, zero_add, div_self hr, one_smul]

end

variable {n : ℕ} [Fact n.Prime] [Module (ZMod n) M] (G : M) (xCoord : M → Option ℕ)

/-- `1 ≤ k < n` -/
def InRange (n k : ℕ) : Prop := 1 ≤ k ∧ k < n

instance (k : ℕ) : Decidable (InRange n k) := inferInstanceAs (Decidable (1 ≤ k ∧ k < n))

theorem InRange.natCast_ne_zero {k : ℕ} (h : InRange n k) : (k : ZMod n) ≠ 0 := by
  rw [Ne, ZMod.natCast_eq_zero_iff]
  exact Nat.not_dvd_of_pos_of_lt h.1 h.2

variable (n) in
/-- The signature `(r, s)` of `z` is valid for the key `Q`. -/
def ValidSignature (z r s : ℕ) (Q : M) : Prop :=
  InRange n r ∧ InRange n s ∧
    ∃ x, xCoord (verifyPoint G (z : ZMod n) r s Q) = some x ∧ x % n = r

variable (n) in
/-- The key `Q` is recovered from a point with the first coordinate `r`. -/
def Recoverable (z r s : ℕ) (Q : M) : Prop :=
  InRange n r ∧ InRange n s ∧
    ∃ R, xCoord R = some r ∧ recoverPoint G (z : ZMod n) r s R = Q

variable (n) in
/-- The point of the verification equation has the first coordinate `r + n`. -/
def Wraps (z r s : ℕ) (Q : M) : Prop :=
  InRange n r ∧ InRange n s ∧ xCoord (verifyPoint G (z : ZMod n) r s Q) = some (r + n)

variable {G xCoord} {z r s : ℕ} {Q : M}

/-- Only one point can give the key. -/
theorem recoverable_iff : Recoverable n G xCoord z r s Q ↔ InRange n r ∧ InRange n s ∧
    xCoord (verifyPoint G (z : ZMod n) r s Q) = some r := by
  refine and_congr_right fun hr => and_congr_right fun hs => ⟨?_, fun h => ⟨_, h, ?_⟩⟩
  · rintro ⟨R, hR, hQ⟩
    rwa [← (recoverPoint_eq_iff hr.natCast_ne_zero hs.natCast_ne_zero).mp hQ]
  · exact (recoverPoint_eq_iff hr.natCast_ne_zero hs.natCast_ne_zero).mpr rfl

/-- A signature is valid when its key is recovered, or in the one case that recovery misses. -/
theorem validSignature_iff (hx : ∀ R x, xCoord R = some x → x < 2 * n) :
    ValidSignature n G xCoord z r s Q ↔
      Recoverable n G xCoord z r s Q ∨ Wraps n G xCoord z r s Q := by
  rw [recoverable_iff]
  constructor
  · rintro ⟨hr, hs, x, hxr, hmod⟩
    have hlt := hx _ _ hxr
    rcases Nat.lt_or_ge x n with hsmall | hlarge
    · rw [Nat.mod_eq_of_lt hsmall] at hmod
      exact .inl ⟨hr, hs, hmod ▸ hxr⟩
    · rw [Nat.mod_eq_sub_mod hlarge, Nat.mod_eq_of_lt (by omega)] at hmod
      exact .inr ⟨hr, hs, by rw [hxr, ← hmod, Nat.sub_add_cancel hlarge]⟩
  · rintro (⟨hr, hs, hxr⟩ | ⟨hr, hs, hxr⟩)
    · exact ⟨hr, hs, r, hxr, Nat.mod_eq_of_lt hr.2⟩
    · exact ⟨hr, hs, r + n, hxr, by rw [Nat.add_mod_right, Nat.mod_eq_of_lt hr.2]⟩

/-- **Recovery decides validity** except where the first coordinate has been reduced. -/
theorem recoverable_iff_validSignature (hx : ∀ R x, xCoord R = some x → x < 2 * n) :
    (Recoverable n G xCoord z r s Q ↔ ValidSignature n G xCoord z r s Q) ↔
      ¬Wraps n G xCoord z r s Q := by
  have hexclusive : Wraps n G xCoord z r s Q → ¬Recoverable n G xCoord z r s Q := by
    rintro ⟨hr, -, hwraps⟩ hrecover
    have heq := (recoverable_iff.mp hrecover).2.2
    rw [hwraps, Option.some.injEq] at heq
    exact absurd hr (by rintro ⟨hpos, hlt⟩; omega)
  rw [validSignature_iff hx]
  constructor
  · intro h hwraps
    exact hexclusive hwraps (h.mpr (.inr hwraps))
  · intro h
    exact ⟨.inl, fun hvalid => hvalid.resolve_right h⟩

end Curve
