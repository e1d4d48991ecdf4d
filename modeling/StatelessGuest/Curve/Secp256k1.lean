import StatelessGuest.Curve.Ecdsa
import StatelessGuest.Curve.Lucas
import StatelessGuest.Curve.ShortWeierstrass
import Mathlib.Algebra.Module.ZMod
import Mathlib.FieldTheory.Finite.Basic

/-!
# secp256k1

The curve `y² = x³ + 7` over the integers modulo `p`, whose points form a group of prime
order `n`.  That `p` and `n` are prime is a chain of Lucas tests; that `n` annihilates the
group is a run of the ladder on the generator, with the bound on the number of points.

## Main definitions

* `p`, `n`, `Point`, `generator` — the curve.
* `parity` — the least significant bit of a coordinate.
* `xCoord` — the first coordinate of a point, as a number.
* `liftX` — the point with a given first coordinate.

## Main results

* `prime_p`, `prime_n` — the two primes.
* `n_nsmul` — **`n` annihilates the group**, which makes it a module over the scalars.
-/

namespace Secp256k1

open Curve

/-! ### The primes -/

/-- The order of the field. -/
def p : ℕ := 2 ^ 256 - 2 ^ 32 - 977

/-- The order of the group. -/
def n : ℕ := 0xfffffffffffffffffffffffffffffffebaaedce6af48a03bbfd25e8cd0364141

/-- The primes under `p` and `n`, with their primitive roots. -/
def primeChain : List LucasStep := [
  ⟨1206781, 10, [2, 2, 3, 5, 20113]⟩,
  ⟨7240687, 3, [2, 3, 1206781]⟩,
  ⟨107590001, 3, [2, 2, 2, 2, 5, 5, 5, 5, 7, 29, 53]⟩,
  ⟨255515944373312847190720520512484175977, 3,
    [2, 2, 2, 7, 7, 11, 1627, 2657, 4423, 41201, 96557, 7240687, 107590001]⟩,
  ⟨13331831, 13, [2, 5, 971, 1373]⟩,
  ⟨173378833005251801, 6, [2, 2, 2, 5, 5, 2621, 24809, 13331831]⟩,
  ⟨22149492674086928081353, 5, [2, 2, 2, 3, 5323, 173378833005251801]⟩,
  ⟨132896956044521568488119, 6, [2, 3, 22149492674086928081353]⟩,
  ⟨205115282021455665897114700593932402728804164701536103180137503955397371, 10,
    [2, 3, 5, 29, 29, 31, 7723, 132896956044521568488119,
      255515944373312847190720520512484175977]⟩,
  ⟨p, 3, [2, 3, 7, 13441,
    205115282021455665897114700593932402728804164701536103180137503955397371]⟩,
  ⟨44706919, 6, [2, 3, 797, 9349]⟩,
  ⟨174723607534414371449, 3, [2, 2, 2, 17, 59, 4051, 120233, 44706919]⟩,
  ⟨4681609, 23, [2, 2, 2, 3, 97, 2011]⟩,
  ⟨107361793816595537, 3, [2, 2, 2, 2, 16699, 85831, 4681609]⟩,
  ⟨305873, 3, [2, 2, 2, 2, 7, 2731]⟩,
  ⟨1627771, 3, [2, 3, 5, 29, 1871]⟩,
  ⟨297159362677, 2, [2, 2, 3, 3, 11, 461, 1627771]⟩,
  ⟨545358713, 5, [2, 2, 2, 41, 59, 28181]⟩,
  ⟨29047611873442575647497758179, 2, [2, 293, 305873, 545358713, 297159362677]⟩,
  ⟨341948486974166000522343609283189, 2, [2, 2, 3, 3, 3, 109, 29047611873442575647497758179]⟩,
  ⟨n, 7, [2, 2, 2, 2, 2, 2, 3, 149, 631, 107361793816595537, 174723607534414371449,
    341948486974166000522343609283189]⟩]

theorem prime_of_mem_primeChain {s : LucasStep} (hs : s ∈ primeChain) : s.prime.Prime := by
  have hchain : lucasChain 256 [] primeChain = true := by decide +kernel
  exact prime_of_lucasChain (fun _ hq => absurd hq List.not_mem_nil) hchain hs

theorem prime_p : p.Prime := by
  refine prime_of_mem_primeChain (s := ⟨p, 3, [2, 3, 7, 13441,
    205115282021455665897114700593932402728804164701536103180137503955397371]⟩) ?_
  simp [primeChain]

theorem prime_n : n.Prime := by
  refine prime_of_mem_primeChain (s := ⟨n, 7, [2, 2, 2, 2, 2, 2, 3, 149, 631,
    107361793816595537, 174723607534414371449, 341948486974166000522343609283189]⟩) ?_
  simp [primeChain]

instance : Fact p.Prime := ⟨prime_p⟩

instance : Fact n.Prime := ⟨prime_n⟩

theorem n_lt_p : n < p := by decide +kernel

theorem p_lt_two_mul_n : p < 2 * n := by decide +kernel

theorem p_lt_two_pow : p < 2 ^ 256 := by decide +kernel

/-! ### The curve -/

/-- The points of the curve. -/
abbrev Point := (mordell (7 : ZMod p)).Point

theorem two_ne_zero_p : (2 : ZMod p) ≠ 0 := by decide +kernel

theorem nonsingular_iff {x y : ZMod p} :
    (mordell (7 : ZMod p)).Nonsingular x y ↔ y ^ 2 = x ^ 3 + 7 :=
  nonsingular_mordell two_ne_zero_p (by decide +kernel) (by decide +kernel)

/-- The first coordinate of the generator. -/
def generatorX : ZMod p := 0x79be667ef9dcbbac55a06295ce870b07029bfcdb2dce28d959f2815b16f81798

/-- The second coordinate of the generator. -/
def generatorY : ZMod p := 0x483ada7726a3c4655da4fbfc0e1108a8fd17b448a68554199c47d08ffb10d4b8

/-- The generator of the group. -/
def generator : Point := .some generatorX generatorY (nonsingular_iff.mpr (by decide +kernel))

/-- The least significant bit of a coordinate. -/
def parity (y : ZMod p) : Bool := y.val % 2 = 1

/-- The first coordinate of a point, as a number. -/
def xCoord : Point → Option ℕ
  | .zero => none
  | .some x _ _ => some x.val

theorem xCoord_lt (R : Point) (x : ℕ) (h : xCoord R = some x) : x < 2 * n := by
  cases R with
  | zero => cases h
  | some a b hab =>
    cases h
    exact lt_trans (ZMod.val_lt a) p_lt_two_mul_n

/-! ### The order of the group -/

/-- The parity tells a nonzero coordinate from its opposite. -/
theorem separates_parity : Separates parity := by
  intro y hy h
  have : NeZero y := ⟨hy⟩
  have hodd : p % 2 = 1 := by decide +kernel
  have hlt : y.val < p := ZMod.val_lt y
  rw [parity, parity, decide_eq_decide, ZMod.val_neg_of_ne_zero] at h
  omega

instance : Finite Point := finite_point separates_parity

/-- The ladder arrives at the opposite of the generator. -/
theorem pred_n_nsmul_generator : (n - 1) • generator = -generator := by
  have hladder : ∃ t ∈ ladder generatorX generatorY 256 (n - 1),
      t.X = generatorX * t.Z ^ 2 ∧ t.Y = -generatorY * t.Z ^ 3 := by decide +kernel
  obtain ⟨t, ht, hX, hY⟩ := hladder
  obtain ⟨hZ, hcoords⟩ := ladder_represents (hasCoords_some _ : HasCoords generator _ _) ht
  rw [hX, hY, mul_div_cancel_right₀ _ (pow_ne_zero 2 hZ),
    mul_div_cancel_right₀ _ (pow_ne_zero 3 hZ)] at hcoords
  exact hcoords.ext (hasCoords_some _ : HasCoords generator _ _).neg

theorem n_nsmul_generator : n • generator = 0 := by
  rw [show n = n - 1 + 1 by decide +kernel, succ_nsmul, pred_n_nsmul_generator, neg_add_cancel]

/-- There are no points of order two: `-7` is not a cube. -/
theorem eq_zero_of_add_self (P : Point) (h : P + P = 0) : P = 0 := by
  rcases eq_zero_or_hasCoords P with hzero | ⟨x, y, hP⟩
  · exact hzero
  · have hcube := hP.cube_of_add_self two_ne_zero_p h
    have hx : x ≠ 0 := by
      rintro rfl
      rw [zero_pow three_ne_zero] at hcube
      exact absurd hcube (by decide +kernel)
    have hpow : powMod p 256 (p - 7) ((p - 1) / 3) = 1 := by
      rw [powMod_eq_one_iff prime_p.two_le _ (by decide +kernel)]
      rw [Nat.cast_sub (by decide +kernel), ZMod.natCast_self, zero_sub, Nat.cast_ofNat, ← hcube,
        ← pow_mul, show 3 * ((p - 1) / 3) = p - 1 by decide +kernel]
      exact ZMod.pow_card_sub_one_eq_one hx
    exact absurd hpow (by decide +kernel)

/-- **`n` annihilates the group.** -/
theorem n_nsmul (P : Point) : n • P = 0 := by
  refine nsmul_eq_zero_of_card_lt prime_n (g := generator)
    (hasCoords_some _ : HasCoords generator _ _).ne_zero n_nsmul_generator ?_
    eq_zero_of_add_self P
  have hle := card_point_le (b := (7 : ZMod p)) separates_parity
  rw [Nat.card_zmod] at hle
  have hn : 2 * p + 1 < 3 * n := by decide +kernel
  exact lt_of_le_of_lt hle hn

instance : Module (ZMod n) Point := AddCommGroup.zmodModule n_nsmul

/-! ### Points with a given first coordinate -/

/-- A square root, where there is one. -/
def sqrt (c : ZMod p) : ZMod p := c ^ ((p + 1) / 4)

theorem sqrt_sq {c y : ZMod p} (h : y ^ 2 = c) : sqrt c ^ 2 = c := by
  have hexp : 2 * ((p + 1) / 4 * 2) = p + 1 := by decide +kernel
  rw [sqrt, ← h, ← pow_mul, ← pow_mul, hexp, pow_succ, ZMod.pow_card, pow_two]

/-- The square root of the given parity. -/
def sqrtParity (c : ZMod p) (odd : Bool) : ZMod p :=
  if parity (sqrt c) = odd then sqrt c else -sqrt c

theorem sqrtParity_sq {c y : ZMod p} (h : y ^ 2 = c) (odd : Bool) : sqrtParity c odd ^ 2 = c := by
  unfold sqrtParity
  split
  · exact sqrt_sq h
  · rw [neg_sq, sqrt_sq h]

/-- A root of the given parity is found. -/
theorem parity_sqrtParity {c y : ZMod p} (h : y ^ 2 = c) :
    parity (sqrtParity c (parity y)) = parity y := by
  unfold sqrtParity
  split
  · assumption
  · rename_i hne
    -- The root is not `y`, so it is `-y`.
    rcases sq_eq_sq_iff_eq_or_eq_neg.mp ((sqrt_sq h).trans h.symm) with heq | heq
    · exact absurd (congrArg parity heq) hne
    · rw [heq, neg_neg]

/-- The point with the first coordinate `r` and a second coordinate of the given parity. -/
def liftX (r : ℕ) (odd : Bool) : Option Point :=
  if h : sqrtParity ((r : ZMod p) ^ 3 + 7) odd ^ 2 = (r : ZMod p) ^ 3 + 7 ∧
      parity (sqrtParity ((r : ZMod p) ^ 3 + 7) odd) = odd then
    some (.some r (sqrtParity ((r : ZMod p) ^ 3 + 7) odd) (nonsingular_iff.mpr h.1))
  else none

theorem liftX_eq_some_iff {r : ℕ} (hr : r < p) {odd : Bool} {R : Point} :
    liftX r odd = some R ↔ ∃ x y, HasCoords R x y ∧ x.val = r ∧ parity y = odd := by
  have hval : (r : ZMod p).val = r := ZMod.val_natCast_of_lt hr
  constructor
  · intro h
    unfold liftX at h
    split at h
    · rename_i hy
      cases h
      exact ⟨_, _, hasCoords_some _, hval, hy.2⟩
    · cases h
  · rintro ⟨x, y, hR, hx, rfl⟩
    obtain rfl : x = r := ZMod.val_injective p (hx.trans hval.symm)
    have hparity := parity_sqrtParity hR.equation
    rw [liftX, dif_pos ⟨sqrtParity_sq hR.equation _, hparity⟩, Option.some.injEq]
    exact (hasCoords_some _).ext_of_separates separates_parity hR hparity

end Secp256k1
