import StatelessGuest.Format.Overwrite
import StatelessGuest.Format.Parser

/-!
# Numbers as limbs

A number of `8 * n` bytes, most significant byte first, is read into `n` limbs of 64 bits, the
least significant first, and written back.  How one limb is loaded and stored is a parameter.

## Main definitions

* `BigEndian` — loads and stores of one limb that keep the order of the bytes.
* `loadLimbs`, `storeLimbs` — all limbs of a number.
* `limbsNat` — the number that limbs stand for.

## Main results

* `limbsNat_loadLimbs` — the limbs that are read stand for the number.
* `window_storeLimbs`, `window_storeLimbs_apart` — **what the limbs are written as**, and what is
  unchanged.
* `limbsNat_injective` — limbs are determined by their number.
-/

namespace Format

open Ssz

/-! ### One limb -/

/-- The loads and stores of 64 bits at an offset, most significant byte first. -/
structure BigEndian (load : Bytes → ℕ → BitVec 64) (store : Bytes → ℕ → BitVec 64 → Bytes) :
    Prop where
  load_eq : ∀ {b : Bytes} {off : ℕ}, off + 8 ≤ b.length →
    (load b off).toNat = beNat (window b off 8)
  store_eq : ∀ {b : Bytes} {off : ℕ} (v : BitVec 64), off + 8 ≤ b.length →
    store b off v = overwrite b off (beBytes 8 v.toNat)

/-! ### All limbs -/

/-- The number that limbs stand for, the least significant limb first. -/
def limbsNat {n : ℕ} (r : Fin n → BitVec 64) : ℕ := ∑ i, (r i).toNat * 2 ^ (64 * i.val)

/-- The limbs of the number at an offset, from its last eight bytes on. -/
def loadLimbs (load : Bytes → ℕ → BitVec 64) (n : ℕ) (b : Bytes) (off : ℕ) :
    Fin n → BitVec 64 := fun i =>
  load b (off + (8 * n - (i + 1) * 8))

/-- The limbs, written where `loadLimbs` reads them. -/
def storeLimbs (store : Bytes → ℕ → BitVec 64 → Bytes) {n : ℕ} (r : Fin n → BitVec 64)
    (b : Bytes) (off : ℕ) : Bytes :=
  (List.finRange n).foldl (fun b (i : Fin n) => store b (off + (8 * n - (i + 1) * 8)) (r i)) b

theorem limbsNat_succ {n : ℕ} (r : Fin (n + 1) → BitVec 64) :
    limbsNat r = limbsNat (fun i : Fin n => r i.castSucc) +
      (r (Fin.last n)).toNat * 2 ^ (64 * n) := by
  rw [limbsNat, Fin.sum_univ_castSucc]
  rfl

theorem limbsNat_lt {n : ℕ} (r : Fin n → BitVec 64) : limbsNat r < 2 ^ (64 * n) := by
  induction n with
  | zero => simp [limbsNat]
  | succ n ih =>
    have hlow := ih fun i => r i.castSucc
    have htop : (r (Fin.last n)).toNat + 1 ≤ 2 ^ 64 := (r (Fin.last n)).isLt
    rw [limbsNat_succ]
    calc limbsNat (fun i : Fin n => r i.castSucc) + (r (Fin.last n)).toNat * 2 ^ (64 * n)
        < 2 ^ (64 * n) + (r (Fin.last n)).toNat * 2 ^ (64 * n) := Nat.add_lt_add_right hlow _
      _ = ((r (Fin.last n)).toNat + 1) * 2 ^ (64 * n) := by ring
      _ ≤ 2 ^ 64 * 2 ^ (64 * n) := Nat.mul_le_mul_right _ htop
      _ = 2 ^ (64 * (n + 1)) := by ring

/-- Limbs are determined by their number. -/
theorem limbsNat_injective {n : ℕ} :
    Function.Injective (limbsNat : (Fin n → BitVec 64) → ℕ) := by
  induction n with
  | zero =>
    intro r r' _
    exact Subsingleton.elim r r'
  | succ n ih =>
    intro r r' h
    rw [limbsNat_succ, limbsNat_succ] at h
    have hlow := limbsNat_lt fun i : Fin n => r i.castSucc
    have hlow' := limbsNat_lt fun i : Fin n => r' i.castSucc
    have hmod := congrArg (· % 2 ^ (64 * n)) h
    have hdiv := congrArg (· / 2 ^ (64 * n)) h
    simp only [Nat.add_mul_mod_self_right, Nat.mod_eq_of_lt hlow, Nat.mod_eq_of_lt hlow'] at hmod
    simp only [Nat.add_mul_div_right _ _ (Nat.two_pow_pos (64 * n)), Nat.div_eq_of_lt hlow,
      Nat.div_eq_of_lt hlow', Nat.zero_add] at hdiv
    have htop := BitVec.eq_of_toNat_eq hdiv
    have hrest := ih hmod
    funext i
    refine Fin.lastCases htop ?_ i
    intro i
    exact congrFun hrest i

variable {load : Bytes → ℕ → BitVec 64} {store : Bytes → ℕ → BitVec 64 → Bytes}

/-- **The limbs that are read stand for the number.** -/
theorem limbsNat_loadLimbs (hbe : BigEndian load store) {n : ℕ} {b : Bytes} {off : ℕ}
    (h : off + 8 * n ≤ b.length) :
    limbsNat (loadLimbs load n b off) = beNat (window b off (8 * n)) := by
  induction n generalizing off with
  | zero => simp [limbsNat, beNat]
  | succ n ih =>
    have hlow : (fun i : Fin n => loadLimbs load (n + 1) b off i.castSucc) =
        loadLimbs load n b (off + 8) := by
      funext i
      have hi := i.isLt
      show load b (off + (8 * (n + 1) - (i + 1) * 8)) = load b (off + 8 + (8 * n - (i + 1) * 8))
      congr 1
      omega
    have hlast : loadLimbs load (n + 1) b off (Fin.last n) = load b off := by
      show load b (off + (8 * (n + 1) - (n + 1) * 8)) = load b off
      congr 1
      omega
    have hsplit : window b off (8 * (n + 1)) = window b off 8 ++ window b (off + 8) (8 * n) := by
      rw [window_append_window b rfl]
      congr 1
      omega
    have hlen : (window b (off + 8) (8 * n)).length = 8 * n := length_window_of_le (by omega)
    rw [limbsNat_succ, hlow, hlast, ih (by omega), hbe.load_eq (by omega), hsplit, beNat_append,
      hlen, Nat.mul_comm (beNat (window b off 8)), Nat.pow_mul 2 64, Nat.pow_mul 256 8]

/-- Writing the limbs, the most significant one last. -/
theorem storeLimbs_succ {n : ℕ} (r : Fin (n + 1) → BitVec 64) (b : Bytes) (off : ℕ) :
    storeLimbs store r b off =
      store (storeLimbs store (fun i : Fin n => r i.castSucc) b (off + 8)) off
        (r (Fin.last n)) := by
  have hoff : ∀ i : Fin n,
      off + (8 * (n + 1) - (i + 1) * 8) = off + 8 + (8 * n - (i + 1) * 8) := by
    intro i
    have hi := i.isLt
    omega
  have hlast : off + (8 * (n + 1) - (n + 1) * 8) = off := by omega
  rw [storeLimbs, List.finRange_succ_last, List.foldl_append, List.foldl_map, storeLimbs]
  simp only [Fin.val_castSucc, hoff, List.foldl_cons, List.foldl_nil, Fin.val_last, hlast]

section

variable (hbe : BigEndian load store)
variable {n : ℕ} (r : Fin n → BitVec 64) {b : Bytes} {off : ℕ} (h : off + 8 * n ≤ b.length)

include hbe h

theorem length_storeLimbs : (storeLimbs store r b off).length = b.length := by
  induction n generalizing off with
  | zero => rfl
  | succ n ih =>
    have hrest : (storeLimbs store (fun i : Fin n => r i.castSucc) b (off + 8)).length =
        b.length := ih _ (by omega)
    rw [storeLimbs_succ, hbe.store_eq _ (by omega), length_overwrite, hrest]
    rw [length_beBytes, hrest]
    omega

omit h in
/-- The most significant limb, written over the others. -/
theorem storeLimbs_eq_overwrite {n : ℕ} (r : Fin (n + 1) → BitVec 64)
    (h : off + 8 * (n + 1) ≤ b.length) : storeLimbs store r b off =
      overwrite (storeLimbs store (fun i : Fin n => r i.castSucc) b (off + 8)) off
        (beBytes 8 (r (Fin.last n)).toNat) := by
  have hrest : off + 8 + 8 * n ≤ b.length := by omega
  have hlen := length_storeLimbs hbe (fun i : Fin n => r i.castSucc) hrest
  rw [storeLimbs_succ, hbe.store_eq _ (by omega)]

/-- Other parts of the byte string are as before. -/
theorem window_storeLimbs_apart {k m : ℕ} (hapart : k + m ≤ off ∨ off + 8 * n ≤ k) :
    window (storeLimbs store r b off) k m = window b k m := by
  induction n generalizing off with
  | zero => rfl
  | succ n ih =>
    have hrest : off + 8 + 8 * n ≤ b.length := by omega
    have hlen := length_storeLimbs hbe (fun i : Fin n => r i.castSucc) hrest
    rw [storeLimbs_eq_overwrite hbe r h, window_overwrite_apart, ih _ (by omega) (by omega)]
    · rw [length_beBytes, hlen]
      omega
    · rw [length_beBytes]
      omega

/-- **What the limbs are written as.** -/
theorem window_storeLimbs :
    window (storeLimbs store r b off) off (8 * n) = beBytes (8 * n) (limbsNat r) := by
  induction n generalizing off with
  | zero => simp [beBytes, leBytes]
  | succ n ih =>
    have hrest : off + 8 + 8 * n ≤ b.length := by omega
    have hlen := length_storeLimbs hbe (fun i : Fin n => r i.castSucc) hrest
    have hfits : off + (beBytes 8 (r (Fin.last n)).toNat).length ≤
        (storeLimbs store (fun i : Fin n => r i.castSucc) b (off + 8)).length := by
      rw [length_beBytes, hlen]
      omega
    have hlast := window_overwrite hfits
    rw [length_beBytes] at hlast
    have htop : (r (Fin.last n)).toNat < 256 ^ 8 := (r (Fin.last n)).isLt
    have hlow : limbsNat (fun i : Fin n => r i.castSucc) < 256 ^ (8 * n) := by
      have hlt := limbsNat_lt fun i : Fin n => r i.castSucc
      rwa [Nat.pow_mul 2 64, ← Nat.pow_mul 256 8] at hlt
    have hsplit : window (storeLimbs store r b off) off (8 * (n + 1)) =
        beBytes 8 (r (Fin.last n)).toNat ++
          beBytes (8 * n) (limbsNat fun i : Fin n => r i.castSucc) := by
      rw [← ih (fun i => r i.castSucc) hrest, ← hlast, storeLimbs_eq_overwrite hbe r h,
        ← window_overwrite_apart hfits (k := off + 8) (n := 8 * n)
          (.inr (by rw [length_beBytes])), window_append_window _ rfl]
      congr 1
      omega
    have hlen' := length_storeLimbs hbe r h
    have hwindow : (window (storeLimbs store r b off) off (8 * (n + 1))).length = 8 * (n + 1) :=
      length_window_of_le (by omega)
    have hall : limbsNat r < 256 ^ (8 * (n + 1)) := by
      have hlt := limbsNat_lt r
      rwa [Nat.pow_mul 2 64, ← Nat.pow_mul 256 8] at hlt
    apply beNat_inj (by rw [hwindow, length_beBytes])
    rw [hsplit, beNat_append, beNat_beBytes htop, beNat_beBytes hlow, length_beBytes,
      beNat_beBytes hall, limbsNat_succ, Nat.mul_comm (r (Fin.last n)).toNat, Nat.pow_mul 2 64,
      Nat.pow_mul 256 8]

end

end Format
