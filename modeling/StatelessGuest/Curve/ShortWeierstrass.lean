import Mathlib.AlgebraicGeometry.EllipticCurve.Affine.Point
import Mathlib.GroupTheory.Perm.Cycle.Type
import Mathlib.Tactic.FieldSimp
import Mathlib.Tactic.LinearCombination

/-!
# Curves without a linear term

The curves `y² = x³ + b` and their points, over any field; the formulas for doubling and for
adding an affine point in Jacobian coordinates, where the point `(X / Z², Y / Z³)` is given
by `X`, `Y` and `Z`; and the order of the group, as far as a generator decides it.

## Main definitions

* `mordell` — the curve.
* `HasCoords` — the coordinates of a point.
* `Jacobian`, `Jacobian.Represents` — Jacobian coordinates of a point.

## Main results

* `nonsingular_mordell` — the points are the solutions of the equation.
* `represents_double`, `represents_addAffine` — **the formulas compute the group law.**
* `card_point_le` — there are at most two points for each first coordinate.
* `nsmul_eq_zero_of_card_lt` — **the order of a group** that is at most twice a prime.
-/

namespace Curve

open WeierstrassCurve

variable {F : Type*} [Field F]

/-! ### The curve -/

/-- The curve `y² = x³ + b`. -/
def mordell (b : F) : Affine F where
  a₁ := 0
  a₂ := 0
  a₃ := 0
  a₄ := 0
  a₆ := b

variable {b x y x₁ y₁ x₂ y₂ : F}

theorem equation_mordell : (mordell b).Equation x y ↔ y ^ 2 = x ^ 3 + b := by
  rw [Affine.equation_iff]
  simp [mordell]

theorem negY_mordell : (mordell b).negY x y = -y := by
  simp [Affine.negY, mordell]

/-- **The points are the solutions of the equation**, unless the curve is singular. -/
theorem nonsingular_mordell (htwo : (2 : F) ≠ 0) (hthree : (3 : F) ≠ 0) (hb : b ≠ 0) :
    (mordell b).Nonsingular x y ↔ y ^ 2 = x ^ 3 + b := by
  rw [Affine.nonsingular_iff, equation_mordell, and_iff_left_iff_imp]
  intro h
  by_contra hsingular
  have hx : x = 0 := by
    by_contra hx
    exact hsingular (.inl (by simpa [mordell] using ⟨hthree, hx⟩))
  have hy : y = 0 := by
    by_contra hy
    refine hsingular (.inr fun heq => mul_ne_zero htwo hy ?_)
    simp only [mordell, zero_mul, sub_zero] at heq
    linear_combination heq
  rw [hx, hy] at h
  exact hb (by linear_combination -h)

/-! ### Coordinates -/

/-- The point has the coordinates `x` and `y`. -/
def HasCoords (P : (mordell b).Point) (x y : F) : Prop := ∃ h, P = .some x y h

theorem hasCoords_some (h : (mordell b).Nonsingular x y) : HasCoords (.some x y h) x y := ⟨h, rfl⟩

/-- A point is at infinity or has coordinates. -/
theorem eq_zero_or_hasCoords : ∀ P : (mordell b).Point, P = 0 ∨ ∃ x y, HasCoords P x y
  | .zero => .inl rfl
  | .some x y h => .inr ⟨x, y, h, rfl⟩

theorem HasCoords.ne_zero {P : (mordell b).Point} : HasCoords P x y → P ≠ 0 := by
  rintro ⟨h, rfl⟩
  exact Affine.Point.some_ne_zero h

theorem HasCoords.unique {P : (mordell b).Point} (h₁ : HasCoords P x₁ y₁)
    (h₂ : HasCoords P x₂ y₂) : x₁ = x₂ ∧ y₁ = y₂ := by
  obtain ⟨_, rfl⟩ := h₁
  obtain ⟨_, h⟩ := h₂
  cases h
  exact ⟨rfl, rfl⟩

theorem HasCoords.ext {P Q : (mordell b).Point} (hP : HasCoords P x y) (hQ : HasCoords Q x y) :
    P = Q := by
  obtain ⟨_, rfl⟩ := hP
  obtain ⟨_, rfl⟩ := hQ
  rfl

theorem HasCoords.equation {P : (mordell b).Point} : HasCoords P x y → y ^ 2 = x ^ 3 + b := by
  rintro ⟨h, -⟩
  exact equation_mordell.mp h.1

theorem HasCoords.neg {P : (mordell b).Point} : HasCoords P x y → HasCoords (-P) x (-y) := by
  rintro ⟨h, rfl⟩
  rw [Affine.Point.neg_some]
  refine ⟨?_, ?_⟩
  · rw [← negY_mordell (b := b) (x := x)]
    exact (Affine.nonsingular_neg x y).mpr h
  · congr 1
    exact negY_mordell

/-- Points with the same first coordinate are equal or opposite. -/
theorem HasCoords.eq_or_eq_neg {P Q : (mordell b).Point} (hP : HasCoords P x y₁)
    (hQ : HasCoords Q x y₂) : y₁ = y₂ ∨ y₁ = -y₂ := by
  rw [← sq_eq_sq_iff_eq_or_eq_neg, hP.equation, hQ.equation]

variable [DecidableEq F]

/-- Doubling, with the slope of the tangent. -/
theorem HasCoords.double {P : (mordell b).Point} (hP : HasCoords P x y) (hy : 2 * y ≠ 0) {ℓ : F}
    (hℓ : ℓ * (2 * y) = 3 * x ^ 2) :
    HasCoords (P + P) (ℓ ^ 2 - 2 * x) (ℓ * (3 * x - ℓ ^ 2) - y) := by
  obtain ⟨h, rfl⟩ := hP
  have hne : y ≠ (mordell b).negY x y := by
    rw [negY_mordell]
    intro heq
    exact hy (by linear_combination heq)
  have hslope : (mordell b).slope x x y y = ℓ := by
    rw [Affine.slope_of_Y_ne rfl hne, negY_mordell, sub_neg_eq_add, ← two_mul, div_eq_iff hy, hℓ]
    simp [mordell]
  rw [Affine.Point.add_self_of_Y_ne hne]
  have hx : (mordell b).addX x x ℓ = ℓ ^ 2 - 2 * x := by
    simp only [Affine.addX, mordell]
    ring
  have hy' : (mordell b).addY x x y ℓ = ℓ * (3 * x - ℓ ^ 2) - y := by
    rw [Affine.addY, negY_mordell, Affine.negAddY, hx]
    ring
  rw [← hx, ← hy', ← hslope]
  exact hasCoords_some _

/-- Addition of points with different first coordinates, with the slope of the secant. -/
theorem HasCoords.add {P Q : (mordell b).Point} (hP : HasCoords P x₁ y₁)
    (hQ : HasCoords Q x₂ y₂) (hne : x₁ ≠ x₂) {ℓ : F} (hℓ : ℓ * (x₁ - x₂) = y₁ - y₂) :
    HasCoords (P + Q) (ℓ ^ 2 - x₁ - x₂) (ℓ * (2 * x₁ + x₂ - ℓ ^ 2) - y₁) := by
  obtain ⟨h₁, rfl⟩ := hP
  obtain ⟨h₂, rfl⟩ := hQ
  have hslope : (mordell b).slope x₁ x₂ y₁ y₂ = ℓ := by
    rw [Affine.slope_of_X_ne hne, div_eq_iff (sub_ne_zero.mpr hne), hℓ]
  rw [Affine.Point.add_of_X_ne hne]
  have hx : (mordell b).addX x₁ x₂ ℓ = ℓ ^ 2 - x₁ - x₂ := by
    simp only [Affine.addX, mordell]
    ring
  have hy : (mordell b).addY x₁ x₂ y₁ ℓ = ℓ * (2 * x₁ + x₂ - ℓ ^ 2) - y₁ := by
    rw [Affine.addY, negY_mordell, Affine.negAddY, hx]
    ring
  rw [← hx, ← hy, ← hslope]
  exact hasCoords_some _

/-- A point of order two is a root of the cubic. -/
theorem HasCoords.cube_of_add_self {P : (mordell b).Point} (hP : HasCoords P x y)
    (htwo : (2 : F) ≠ 0) (h : P + P = 0) : x ^ 3 = -b := by
  have hneg := hP.neg
  rw [neg_eq_of_add_eq_zero_left h] at hneg
  have hy : 2 * y = 0 := by linear_combination (hP.unique hneg).2
  rcases mul_eq_zero.mp hy with htwo' | hzero
  · exact absurd htwo' htwo
  · have heq := hP.equation
    rw [hzero] at heq
    linear_combination -heq

/-! ### Jacobian coordinates -/

/-- Jacobian coordinates. -/
structure Jacobian (F : Type*) where
  X : F
  Y : F
  Z : F

/-- The coordinates of the point `(X / Z², Y / Z³)`. -/
def Jacobian.Represents (t : Jacobian F) (P : (mordell b).Point) : Prop :=
  t.Z ≠ 0 ∧ HasCoords P (t.X / t.Z ^ 2) (t.Y / t.Z ^ 3)

/-- The double of a point. -/
def Jacobian.double (t : Jacobian F) : Jacobian F :=
  let S := 4 * t.X * t.Y ^ 2
  let M := 3 * t.X ^ 2
  let X := M ^ 2 - 2 * S
  ⟨X, M * (S - X) - 8 * t.Y ^ 4, 2 * t.Y * t.Z⟩

/-- The sum of a point and an affine point. -/
def Jacobian.addAffine (t : Jacobian F) (x y : F) : Jacobian F :=
  let H := x * t.Z ^ 2 - t.X
  let R := y * t.Z ^ 3 - t.Y
  let V := t.X * H ^ 2
  let X := R ^ 2 - H ^ 3 - 2 * V
  ⟨X, R * (V - X) - t.Y * H ^ 3, t.Z * H⟩

omit [DecidableEq F] in
/-- An affine point. -/
theorem represents_affine {P : (mordell b).Point} (hP : HasCoords P x y) :
    Jacobian.Represents ⟨x, y, 1⟩ P := by
  refine ⟨one_ne_zero, ?_⟩
  dsimp only
  rwa [one_pow, one_pow, div_one, div_one]

/-- **Doubling.** -/
theorem represents_double {t : Jacobian F} {P : (mordell b).Point} (h : t.Represents P)
    (hZ : t.double.Z ≠ 0) : t.double.Represents (P + P) := by
  obtain ⟨X, Y, Z⟩ := t
  obtain ⟨hz, hP⟩ := h
  change 2 * Y * Z ≠ 0 at hZ
  have hz' : Z ≠ 0 := hz
  have hy : 2 * Y ≠ 0 := left_ne_zero_of_mul hZ
  have hY : Y ≠ 0 := right_ne_zero_of_mul hy
  have htwo : (2 : F) ≠ 0 := left_ne_zero_of_mul hy
  have hsum := hP.double (ℓ := 3 * X ^ 2 / (2 * Y * Z))
    (by rw [← mul_div_assoc]; exact div_ne_zero hy (pow_ne_zero 3 hz')) (by dsimp only; field_simp)
  refine ⟨hZ, ?_⟩
  convert hsum using 1 <;> dsimp only [Jacobian.double] <;> field_simp <;> ring

/-- **Adding an affine point.** -/
theorem represents_addAffine {t : Jacobian F} {P Q : (mordell b).Point} (h : t.Represents P)
    (hQ : HasCoords Q x y) (hZ : (t.addAffine x y).Z ≠ 0) :
    (t.addAffine x y).Represents (P + Q) := by
  obtain ⟨X, Y, Z⟩ := t
  obtain ⟨hz, hP⟩ := h
  have hz' : Z ≠ 0 := hz
  -- The coordinate `X` is eliminated by the difference of the first coordinates.
  obtain ⟨H, rfl⟩ : ∃ H, X = x * Z ^ 2 - H := ⟨x * Z ^ 2 - X, by ring⟩
  change Z * (x * Z ^ 2 - (x * Z ^ 2 - H)) ≠ 0 at hZ
  rw [sub_sub_cancel] at hZ
  have hH : H ≠ 0 := right_ne_zero_of_mul hZ
  have hdiff : (x * Z ^ 2 - H) / Z ^ 2 - x = -(H / Z ^ 2) := by
    field_simp
    ring
  have hne : (x * Z ^ 2 - H) / Z ^ 2 ≠ x := by
    rw [← sub_ne_zero, hdiff]
    exact neg_ne_zero.mpr (div_ne_zero hH (pow_ne_zero 2 hz'))
  have hslope : (y * Z ^ 3 - Y) / (Z * H) * ((x * Z ^ 2 - H) / Z ^ 2 - x) = Y / Z ^ 3 - y := by
    rw [hdiff]
    field_simp
    ring
  have hsum := hP.add hQ hne hslope
  refine ⟨by dsimp only [Jacobian.addAffine]; rwa [sub_sub_cancel], ?_⟩
  convert hsum using 1 <;> dsimp only [Jacobian.addAffine] <;> rw [sub_sub_cancel] <;>
    field_simp <;> ring

/-- Multiples of an affine point, by doubling and adding.  The exceptional cases of the
formulas are detected. -/
def ladder (x y : F) : ℕ → ℕ → Option (Jacobian F)
  | 0, _ => none
  | bits + 1, k =>
    if k = 1 then some ⟨x, y, 1⟩
    else (ladder x y bits (k / 2)).bind fun t =>
      if t.double.Z = 0 then none
      else if k % 2 = 0 then some t.double
      else if (t.double.addAffine x y).Z = 0 then none
      else some (t.double.addAffine x y)

/-- **The ladder computes multiples.** -/
theorem ladder_represents {G : (mordell b).Point} (hG : HasCoords G x y) {bits k : ℕ}
    {t : Jacobian F} (h : ladder x y bits k = some t) : t.Represents (k • G) := by
  induction bits generalizing k t with
  | zero => cases h
  | succ bits ih =>
    unfold ladder at h
    by_cases hone : k = 1
    · rw [if_pos hone, Option.some.injEq] at h
      rw [hone, one_nsmul, ← h]
      exact represents_affine hG
    · rw [if_neg hone, Option.bind_eq_some_iff] at h
      obtain ⟨t', ht', h⟩ := h
      by_cases hZ : t'.double.Z = 0
      · rw [if_pos hZ] at h
        cases h
      · rw [if_neg hZ] at h
        -- The recursion has stopped at no exceptional case, so the double is the point itself.
        have hdouble : t'.double.Represents ((2 * (k / 2)) • G) := by
          rw [mul_nsmul', two_nsmul]
          exact represents_double (ih ht') hZ
        by_cases heven : k % 2 = 0
        · rw [if_pos heven, Option.some.injEq] at h
          rwa [← h, show k = 2 * (k / 2) by omega]
        · rw [if_neg heven] at h
          -- An odd number takes one addition of the base point.
          by_cases hZ' : (t'.double.addAffine x y).Z = 0
          · rw [if_pos hZ'] at h
            cases h
          · rw [if_neg hZ', Option.some.injEq] at h
            rw [← h, show k = 2 * (k / 2) + 1 by omega, succ_nsmul]
            exact represents_addAffine hdouble hG hZ'

/-! ### The number of points -/

/-- A function that tells a nonzero element from its opposite. -/
def Separates (odd : F → Bool) : Prop := ∀ y, y ≠ 0 → odd (-y) ≠ odd y

/-- A point is determined by its first coordinate and the sign of the second. -/
theorem HasCoords.ext_of_separates {odd : F → Bool} (hodd : Separates odd)
    {P Q : (mordell b).Point} (hP : HasCoords P x y₁) (hQ : HasCoords Q x y₂)
    (h : odd y₁ = odd y₂) : P = Q := by
  rcases hP.eq_or_eq_neg hQ with rfl | rfl
  · exact hP.ext hQ
  · by_cases hzero : y₂ = 0
    · rw [hzero, neg_zero] at hP
      rw [hzero] at hQ
      exact hP.ext hQ
    · exact absurd h (hodd y₂ hzero)

/-- The first coordinate and the sign of the second. -/
def compress (odd : F → Bool) : (mordell b).Point → Option (F × Bool)
  | .zero => none
  | .some x y _ => some (x, odd y)

theorem compress_injective {odd : F → Bool} (hodd : Separates odd) :
    Function.Injective (compress (b := b) odd) := by
  intro P Q h
  rcases P with _ | ⟨x₁, y₁, h₁⟩ <;> rcases Q with _ | ⟨x₂, y₂, h₂⟩
  · rfl
  · cases h
  · cases h
  · rw [compress, compress, Option.some.injEq, Prod.mk.injEq] at h
    obtain ⟨rfl, hy⟩ := h
    exact (hasCoords_some h₁).ext_of_separates hodd (hasCoords_some h₂) hy

theorem finite_point [Finite F] {odd : F → Bool} (hodd : Separates odd) :
    Finite (mordell b).Point :=
  Finite.of_injective _ (compress_injective hodd)

/-- **There are at most two points for each first coordinate.** -/
theorem card_point_le [Finite F] {odd : F → Bool} (hodd : Separates odd) :
    Nat.card (mordell b).Point ≤ 2 * Nat.card F + 1 := by
  have hle := Nat.card_le_card_of_injective _ (compress_injective (b := b) hodd)
  rwa [Finite.card_option, Nat.card_prod, Nat.card_eq_fintype_card (α := Bool), Fintype.card_bool,
    Nat.mul_comm] at hle

/-! ### The order of the group -/

/-- **The order of a group** with fewer than three times as many elements as an element of
prime order, and without elements of order two: every element has that order. -/
theorem nsmul_eq_zero_of_card_lt {A : Type*} [AddCommGroup A] [Finite A] {n : ℕ} (hn : n.Prime)
    {g : A} (hg : g ≠ 0) (hng : n • g = 0) (hcard : Nat.card A < 3 * n)
    (htwo : ∀ a : A, a + a = 0 → a = 0) (a : A) : n • a = 0 := by
  have : Fact n.Prime := ⟨hn⟩
  obtain ⟨k, hk⟩ : n ∣ Nat.card A := by
    rw [← addOrderOf_eq_prime hng hg]
    exact addOrderOf_dvd_natCard g
  have hpos : 0 < Nat.card A := Nat.card_pos
  have hlt : k < 3 := by
    rw [hk, Nat.mul_comm] at hcard
    exact Nat.lt_of_mul_lt_mul_right hcard
  have hne : k ≠ 0 := by
    rintro rfl
    omega
  have hneTwo : k ≠ 2 := by
    rintro rfl
    have : Fact (Nat.Prime 2) := ⟨Nat.prime_two⟩
    obtain ⟨c, hc⟩ := exists_prime_addOrderOf_dvd_card' 2 (hk ▸ Dvd.intro_left n rfl)
    have hcc : c + c = 0 := by
      rw [← two_nsmul, ← hc]
      exact addOrderOf_nsmul_eq_zero c
    rw [htwo c hcc, addOrderOf_zero] at hc
    exact absurd hc (by decide)
  obtain rfl : k = 1 := by omega
  rw [← Nat.mul_one n, ← hk]
  exact card_nsmul_eq_zero'

end Curve
