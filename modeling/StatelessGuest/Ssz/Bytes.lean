import Mathlib

/-!
# Byte strings

Byte strings are lists of `UInt8`, and a fixed-size byte array is a vector, so
that its length is part of its type.  Integers are stored little-endian.  The
piece of a byte string a decoder looks at is a *window*: `n` bytes from offset
`off`.

## Main definitions

* `leNat`, `leBytes` — reading and writing little-endian integers.
* `window b off n` — the `n` bytes of `b` from `off`.
* `u32At b k` — the 32-bit integer stored at `k`.
* `padTo n b` — the first `n` bytes of `b`, padded with zeros.

## Main results

* `leNat_leBytes`, `leBytes_leNat` — the two directions are inverse.
* `window_append_drop` — a window and what follows it.
-/

namespace Ssz

/-- A byte string. -/
abbrev Bytes := List UInt8

/-- An array of exactly `n` bytes. -/
abbrev ByteVec (n : ℕ) := List.Vector UInt8 n

/-- A chunk of a hash tree, and also a digest. -/
abbrev Bytes32 := ByteVec 32

/-! ### Little-endian integers -/

/-- The integer a byte string stores, least significant byte first. -/
def leNat : Bytes → ℕ
  | [] => 0
  | b :: bs => b.toNat + 256 * leNat bs

/-- The `n` low bytes of an integer, least significant byte first. -/
def leBytes : ℕ → ℕ → Bytes
  | 0, _ => []
  | n + 1, v => UInt8.ofNat v :: leBytes n (v / 256)

@[simp] theorem leNat_nil : leNat [] = 0 := rfl

@[simp] theorem leNat_cons (b : UInt8) (bs : Bytes) :
    leNat (b :: bs) = b.toNat + 256 * leNat bs := rfl

@[simp] theorem length_leBytes (n v : ℕ) : (leBytes n v).length = n := by
  induction n generalizing v with
  | zero => rfl
  | succ n ih => simp [leBytes, ih]

theorem leNat_leBytes_mod (n v : ℕ) : leNat (leBytes n v) = v % 256 ^ n := by
  induction n generalizing v with
  | zero => simp [leBytes, Nat.mod_one]
  | succ n ih =>
    have hsplit : v % 256 ^ (n + 1) = v % 256 + 256 * (v / 256 % 256 ^ n) := by
      rw [Nat.pow_succ', Nat.mod_mul]
    rw [leBytes, leNat_cons, ih, UInt8.toNat_ofNat', hsplit]

/-- An integer that fits is read back as it was written. -/
theorem leNat_leBytes {n v : ℕ} (h : v < 256 ^ n) : leNat (leBytes n v) = v := by
  rw [leNat_leBytes_mod, Nat.mod_eq_of_lt h]

theorem leNat_lt (b : Bytes) : leNat b < 256 ^ b.length := by
  induction b with
  | nil => simp
  | cons x b ih =>
    have hx : x.toNat < 256 := x.toNat_lt
    rw [leNat_cons, List.length_cons, Nat.pow_succ']
    omega

/-- Writing back what was read restores the bytes. -/
theorem leBytes_leNat (b : Bytes) : leBytes b.length (leNat b) = b := by
  induction b with
  | nil => rfl
  | cons x b ih =>
    have hx : x.toNat < 256 := x.toNat_lt
    have hdiv : (x.toNat + 256 * leNat b) / 256 = leNat b := by omega
    have hlow : UInt8.ofNat (x.toNat + 256 * leNat b) = x := by
      apply UInt8.toNat_inj.mp
      rw [UInt8.toNat_ofNat']
      omega
    rw [List.length_cons, leNat_cons, leBytes, hdiv, hlow, ih]

/-- The later bytes are the more significant ones. -/
theorem leNat_append (a b : Bytes) : leNat (a ++ b) = leNat a + 256 ^ a.length * leNat b := by
  induction a with
  | nil => simp
  | cons x a ih =>
    rw [List.cons_append, leNat_cons, ih, leNat_cons, List.length_cons, Nat.pow_succ']
    ring

theorem leNat_append_singleton (b : Bytes) (x : UInt8) :
    leNat (b ++ [x]) = leNat b + 256 ^ b.length * x.toNat := by
  rw [leNat_append, leNat_cons]
  rfl

theorem leNat_inj {a b : Bytes} (hlen : a.length = b.length) (h : leNat a = leNat b) :
    a = b := by
  rw [← leBytes_leNat a, ← leBytes_leNat b, hlen, h]

theorem leBytes_inj {n u v : ℕ} (hu : u < 256 ^ n) (hv : v < 256 ^ n)
    (h : leBytes n u = leBytes n v) : u = v := by
  rw [← leNat_leBytes hu, ← leNat_leBytes hv, h]

/-! ### Windows -/

/-- The `n` bytes of `b` from offset `off`; fewer where `b` ends before. -/
def window (b : Bytes) (off n : ℕ) : Bytes := (b.drop off).take n

@[simp] theorem length_window (b : Bytes) (off n : ℕ) :
    (window b off n).length = min n (b.length - off) := by
  simp [window]

theorem length_window_of_le {b : Bytes} {off n : ℕ} (h : off + n ≤ b.length) :
    (window b off n).length = n := by
  rw [length_window]
  omega

/-- A window inside a window. -/
theorem window_window {b : Bytes} {off n k m : ℕ} (h : k + m ≤ n) :
    window (window b off n) k m = window b (off + k) m := by
  simp only [window, List.drop_take, List.drop_drop, List.take_take]
  congr 1
  omega

theorem window_take {b : Bytes} {n k m : ℕ} (h : k + m ≤ n) :
    window (b.take n) k m = window b k m := by
  simp only [window, List.drop_take, List.take_take]
  congr 1
  omega

@[simp] theorem window_zero_right (b : Bytes) (off : ℕ) : window b off 0 = [] := by
  simp [window]

@[simp] theorem take_window (b : Bytes) (off n : ℕ) : (window b off n).take n = window b off n := by
  simp [window]

@[simp] theorem window_drop (b : Bytes) (k off n : ℕ) :
    window (b.drop k) off n = window b (k + off) n := by
  simp [window]

/-- A window followed by the rest of the string. -/
theorem window_append_drop (b : Bytes) {off n m : ℕ} (h : off + n = m) :
    window b off n ++ b.drop m = b.drop off := by
  subst h
  rw [window, ← List.drop_drop, List.take_append_drop]

/-- Two adjacent windows. -/
theorem window_append_window (b : Bytes) {off n k m : ℕ} (h : off + n = k) :
    window b off n ++ window b k m = window b off (n + m) := by
  subst h
  rw [window, window, window, ← List.drop_drop, List.take_add]

/-- A window that reaches the end of the string. -/
theorem window_eq_drop {b : Bytes} {off n : ℕ} (h : off + n = b.length) :
    window b off n = b.drop off := by
  rw [window, List.take_of_length_le]
  simp only [List.length_drop]
  omega

theorem window_append_of_le {a b : Bytes} {off n : ℕ} (h : off + n ≤ a.length) :
    window (a ++ b) off n = window a off n := by
  have hoff : off ≤ a.length := by omega
  rw [window, window, List.drop_append_of_le_length hoff,
    List.take_append_of_le_length (by simp only [List.length_drop]; omega)]

theorem window_append_of_ge {a b : Bytes} {off n : ℕ} (h : a.length ≤ off) :
    window (a ++ b) off n = window b (off - a.length) n := by
  rw [window, window, List.drop_append, List.drop_eq_nil_of_le h, List.nil_append]

/-- The window that holds the first of two concatenated strings. -/
theorem window_append_self {a b : Bytes} {n : ℕ} (h : a.length = n) :
    window (a ++ b) 0 n = a := by
  subst h
  simp [window]

theorem window_self {a : Bytes} {n : ℕ} (h : a.length = n) : window a 0 n = a := by
  subst h
  simp [window]

/-- Pieces of one size, concatenated. -/
theorem flatten_windows (b : Bytes) (k : ℕ) : ∀ m,
    ((List.range m).map fun i => window b (i * k) k).flatten = window b 0 (m * k)
  | 0 => by simp
  | m + 1 => by
      rw [List.range_succ, List.map_append, List.flatten_append, flatten_windows b k m,
        List.map_singleton, List.flatten_singleton, window_append_window b (by omega),
        Nat.succ_mul]

/-- The 32-bit little-endian integer stored at `k`. -/
def u32At (b : Bytes) (k : ℕ) : ℕ := leNat (window b k 4)

theorem u32At_lt (b : Bytes) (k : ℕ) : u32At b k < 2 ^ 32 := by
  have h := leNat_lt (window b k 4)
  have hle : (window b k 4).length ≤ 4 := by
    rw [length_window]
    omega
  calc u32At b k < 256 ^ (window b k 4).length := h
    _ ≤ 256 ^ 4 := Nat.pow_le_pow_right (by decide) hle
    _ = 2 ^ 32 := by norm_num

theorem leBytes_u32At {b : Bytes} {k : ℕ} (h : k + 4 ≤ b.length) :
    leBytes 4 (u32At b k) = window b k 4 := by
  have hlen : (window b k 4).length = 4 := length_window_of_le h
  have := leBytes_leNat (window b k 4)
  rwa [hlen] at this

theorem u32At_window {b : Bytes} {off n k : ℕ} (h : k + 4 ≤ n) :
    u32At (window b off n) k = u32At b (off + k) := by
  rw [u32At, u32At, window_window h]

/-! ### Padding -/

/-- The first `n` bytes of `b`, padded with zeros where `b` is shorter. -/
def padTo (n : ℕ) (b : Bytes) : ByteVec n := ⟨b.takeD n 0, List.takeD_length n b 0⟩

@[simp] theorem toList_padTo (n : ℕ) (b : Bytes) : (padTo n b).toList = b.takeD n 0 := rfl

/-- Zeros after the end do not change the integer a string stores. -/
theorem leNat_takeD (n : ℕ) (b : Bytes) : leNat (b.takeD n 0) = leNat (b.take n) := by
  induction n generalizing b with
  | zero => rfl
  | succ n ih =>
    rw [List.takeD_succ, leNat_cons, ih]
    cases b <;> simp

@[simp] theorem leNat_padTo (n : ℕ) (b : Bytes) : leNat (padTo n b).toList = leNat (b.take n) :=
  leNat_takeD n b

theorem takeD_eq_take {b : Bytes} {n : ℕ} (h : n ≤ b.length) : b.takeD n 0 = b.take n :=
  List.takeD_eq_take 0 h

theorem takeD_take (n : ℕ) (b : Bytes) : (b.take n).takeD n 0 = b.takeD n 0 := by
  induction n generalizing b with
  | zero => rfl
  | succ n ih =>
    rw [List.takeD_succ, List.takeD_succ, ← ih b.tail]
    cases b <;> simp

theorem takeD_self {b : Bytes} {n : ℕ} (h : b.length = n) : b.takeD n 0 = b := by
  rw [takeD_eq_take h.ge, List.take_of_length_le h.le]

theorem takeD_eq_append {b : Bytes} {n : ℕ} (h : b.length ≤ n) :
    b.takeD n 0 = b ++ List.replicate (n - b.length) 0 := by
  induction b generalizing n with
  | nil => simp
  | cons x b ih =>
    obtain ⟨n, rfl⟩ : ∃ k, n = k + 1 := ⟨n - 1, by rw [List.length_cons] at h; omega⟩
    rw [List.length_cons] at h
    rw [List.takeD_succ, List.tail_cons, ih (by omega), List.length_cons, Nat.add_sub_add_right]
    rfl

theorem take_takeD {b : Bytes} {n m : ℕ} (h : n ≤ m) : (b.takeD m 0).take n = b.takeD n 0 := by
  induction n generalizing b m with
  | zero => rfl
  | succ n ih =>
    obtain ⟨m, rfl⟩ : ∃ k, m = k + 1 := ⟨m - 1, by omega⟩
    rw [List.takeD_succ, List.takeD_succ, List.take_succ_cons, ih (by omega)]

/-- A window of a padded string is the padded window. -/
theorem window_takeD {b : Bytes} {off n m : ℕ} (h : off + n ≤ m) :
    window (b.takeD m 0) off n = (b.drop off).takeD n 0 := by
  induction off generalizing b m with
  | zero =>
    rw [window, List.drop_zero, List.drop_zero, take_takeD (by omega)]
  | succ off ih =>
    obtain ⟨m, rfl⟩ : ∃ k, m = k + 1 := ⟨m - 1, by omega⟩
    rw [List.takeD_succ, window, List.drop_succ_cons, ← window, ih (by omega), List.drop_tail]

/-- The array of `n` zero bytes. -/
def zeroVec (n : ℕ) : ByteVec n := padTo n []

theorem toList_injective {n : ℕ} : Function.Injective (List.Vector.toList : ByteVec n → Bytes) :=
  List.Vector.toList_injective

end Ssz
