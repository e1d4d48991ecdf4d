import StatelessGuest.Riscv.Asm64
import Mathlib.Data.List.GetD

/-!
# Buffers in a 64-bit memory

Byte strings written to and read from the memory, by the address of their first byte.

## Main definitions

* `Memory.write`, `Memory.read` — a byte string in memory.

## Main results

* `toNat_roundUp` — rounding up to whole double words.
* `read_write` — what has been written is read back.
* `read_write_apart` — **a write elsewhere does not disturb a buffer.**
* `read_append` — a buffer that is appended to.
-/

namespace Riscv64

theorem Addr.toNat_at_sub (a : Addr) {i : ℕ} (hi : i < 2 ^ 64) : (a.at i - a).toNat = i := by
  rw [Addr.at, BitVec.add_comm, BitVec.add_sub_cancel, BitVec.toNat_ofNat, Nat.mod_eq_of_lt hi]

theorem Addr.toNat_at (a : Addr) {i : ℕ} (hi : a.toNat + i < 2 ^ 64) :
    (a.at i).toNat = a.toNat + i := by
  rw [Addr.at, BitVec.toNat_add, BitVec.toNat_ofNat, Nat.add_mod_mod, Nat.mod_eq_of_lt hi]

/-- Clearing the three low bits. -/
theorem and_not_seven (x : Addr) : x &&& ~~~7#64 = (x >>> 3) <<< 3 := by
  ext i hi
  have hseven : (7#64)[i] = decide (i < 3) := by
    rw [BitVec.getElem_eq_testBit_toNat]
    exact Nat.testBit_two_pow_sub_one 3 i
  rw [BitVec.getElem_and, BitVec.getElem_not, hseven, BitVec.getElem_shiftLeft]
  rcases Nat.lt_or_ge i 3 with hlt | hge
  · simp [hlt]
  · simp [hge, BitVec.getLsbD_eq_getElem hi, Bool.and_comm]

/-- Rounding up to whole double words. -/
theorem toNat_roundUp {a : Addr} (h : a.toNat + 7 < 2 ^ 64) :
    ((a + 7) &&& ~~~7).toNat = 8 * ((a.toNat + 7) / 8) := by
  have hsum : (a + 7).toNat = a.toNat + 7 := by
    rw [BitVec.toNat_add]
    exact Nat.mod_eq_of_lt h
  have hround := congrArg BitVec.toNat (and_not_seven (a + 7))
  rw [BitVec.toNat_shiftLeft, BitVec.toNat_ushiftRight, hsum, Nat.shiftRight_eq_div_pow,
    Nat.shiftLeft_eq, Nat.mod_eq_of_lt (by omega), Nat.mul_comm] at hround
  exact hround

namespace Memory

/-- The memory with the bytes `b` from `ptr` on. -/
def write (m : Memory) (ptr : Addr) (b : List UInt8) : Memory := fun a =>
  if (a - ptr).toNat < b.length then (b.getD (a - ptr).toNat 0).toBitVec else m a

/-- The `n` bytes from `ptr` on. -/
def read (m : Memory) (ptr : Addr) (n : ℕ) : List UInt8 :=
  (List.range n).map fun i => UInt8.ofBitVec (m (ptr.at i))

variable (m : Memory) (ptr : Addr)

@[simp] theorem length_read (n : ℕ) : (m.read ptr n).length = n := by
  rw [read, List.length_map, List.length_range]

/-- Bytes outside the buffer are unchanged. -/
theorem write_of_ge {b : List UInt8} {a : Addr} (h : b.length ≤ (a - ptr).toNat) :
    m.write ptr b a = m a :=
  if_neg (Nat.not_lt.mpr h)

/-- A byte of the buffer. -/
theorem write_at {b : List UInt8} {i : ℕ} (hi : i < b.length) (hlen : b.length ≤ 2 ^ 64) :
    m.write ptr b (ptr.at i) = (b.getD i 0).toBitVec := by
  rw [write, Addr.toNat_at_sub ptr (Nat.lt_of_lt_of_le hi hlen), if_pos hi]

/-- A part of a string that has been written. -/
theorem read_write_at {b : List UInt8} {i n : ℕ} (hn : i + n ≤ b.length)
    (hlen : b.length ≤ 2 ^ 64) : (m.write ptr b).read (ptr.at i) n = (b.drop i).take n := by
  refine List.ext_getElem ?_ ?_
  · rw [length_read, List.length_take, List.length_drop]
    omega
  · intro j hj _
    rw [length_read] at hj
    have hj' : i + j < b.length := by omega
    simp only [read, List.getElem_map, List.getElem_range, List.getElem_take, List.getElem_drop]
    rw [Addr.at_at, write_at m ptr hj' hlen, List.getD_eq_getElem _ _ hj']

/-- A string that has been written, and is read up to its length. -/
theorem read_write {b : List UInt8} {n : ℕ} (hn : n ≤ b.length) (hlen : b.length ≤ 2 ^ 64) :
    (m.write ptr b).read ptr n = b.take n := by
  have h := read_write_at m ptr (i := 0) (by omega : 0 + n ≤ b.length) hlen
  rwa [Addr.at_zero] at h

theorem read_congr {m m' : Memory} {ptr : Addr} {n : ℕ}
    (h : ∀ i, i < n → m (ptr.at i) = m' (ptr.at i)) : m.read ptr n = m'.read ptr n :=
  List.map_congr_left fun i hi => congrArg UInt8.ofBitVec (h i (List.mem_range.mp hi))

/-- Two adjacent buffers. -/
theorem read_add (n k : ℕ) : m.read ptr (n + k) = m.read ptr n ++ m.read (ptr.at n) k := by
  rw [read, List.range_add, List.map_append, List.map_map]
  congr 1
  apply List.map_congr_left
  intro i _
  rw [Function.comp_apply, Addr.at_at]

/-- The beginning of a buffer. -/
theorem take_read {k n : ℕ} (h : k ≤ n) : (m.read ptr n).take k = m.read ptr k := by
  obtain ⟨rest, rfl⟩ := Nat.exists_eq_add_of_le h
  rw [read_add, List.take_left' (length_read m ptr k)]

/-- A byte below or above a string that is written. -/
theorem write_apart {b : List UInt8} {a : Addr} (hlen : ptr.toNat + b.length ≤ 2 ^ 64)
    (h : a.toNat < ptr.toNat ∨ ptr.toNat + b.length ≤ a.toNat) : m.write ptr b a = m a := by
  apply write_of_ge
  rw [BitVec.toNat_sub]
  have hlt := a.isLt
  omega

/-- **A write elsewhere does not disturb a buffer.** -/
theorem read_write_apart {b : List UInt8} {q : Addr} {n : ℕ}
    (hlen : ptr.toNat + b.length ≤ 2 ^ 64) (hn : q.toNat + n ≤ 2 ^ 64)
    (h : q.toNat + n ≤ ptr.toNat ∨ ptr.toNat + b.length ≤ q.toNat) :
    (m.write ptr b).read q n = m.read q n := by
  refine read_congr fun i hi => write_apart m ptr hlen ?_
  have hat := Addr.toNat_at q (i := i) (by omega)
  omega

/-- **Appending to a buffer** leaves what is in it. -/
theorem read_append {b c : List UInt8} (h : m.read ptr b.length = b)
    (hlen : ptr.toNat + b.length + c.length < 2 ^ 64) :
    (m.write (ptr.at b.length) c).read ptr (b ++ c).length = b ++ c := by
  have hend := Addr.toNat_at ptr (i := b.length) (by omega)
  have hold : (m.write (ptr.at b.length) c).read ptr b.length = b := by
    rw [read_write_apart _ _ (by omega) (by omega) (.inl (by omega)), h]
  have hnew : (m.write (ptr.at b.length) c).read (ptr.at b.length) c.length = c := by
    rw [read_write _ _ le_rfl (by omega), List.take_length]
  rw [List.length_append, read_add, hold, hnew]

/-- Clearing the eight bytes that come next. -/
theorem store_zeros {k : ℕ} (h : k + 8 ≤ 2 ^ 64) :
    (m.write ptr (List.replicate k 0)).store (ptr.at k) 8 0 =
      m.write ptr (List.replicate (k + 8) 0) := by
  funext x
  have hoff := toNat_sub_at ptr x h
  have hzero : ∀ n i, ((List.replicate n (0 : UInt8)).getD i 0).toBitVec = 0 := by
    intro n i
    rw [List.getD_eq_getElem?_getD, List.getElem?_replicate]
    split <;> rfl
  rw [store, write, write, List.length_replicate, List.length_replicate, hzero, hzero]
  rcases Decidable.em ((x - ptr.at k).toNat < 8) with hin | hout
  · rw [if_pos hin, if_pos (hoff.mp hin).2, byteAt]
    exact BitVec.extractLsb'_zero
  · rw [if_neg hout]
    by_cases hlow : (x - ptr).toNat < k
    · rw [if_pos hlow, if_pos (by omega)]
    · rw [if_neg hlow, if_neg (by omega)]

/-- Copying bytes to themselves. -/
theorem move_self (n : ℕ) : m.move ptr ptr n = m := by
  funext x
  rw [move, BitVec.add_comm, BitVec.sub_add_cancel]
  exact ite_self _

end Memory

/-! ### The double words of a buffer -/

theorem State.addr_zero (s : State) (r : Reg) : s.addr 0 r = s.regs r := by
  unfold State.addr
  exact BitVec.add_zero _

/-- An aligned double word at an offset. -/
theorem allowed_at {may : Addr → Bool} {a : Addr} {k n : ℕ} (ha : a.toNat % 8 = 0)
    (hmay : ∀ i, i < 8 * n → may (a.at i) = true) (hle : a.toNat + 8 * n ≤ 2 ^ 64) (hk : k < n) :
    allowed may (a.at (8 * k)) 8 := by
  constructor
  · rw [Addr.toNat_at a (by omega)]
    omega
  · intro i hi
    rw [Addr.at_at]
    exact hmay _ (by omega)

theorem Addr.at_add_eight (a : Addr) (k : ℕ) :
    a.at (8 * k) + BitVec.ofInt 64 8 = a.at (8 * (k + 1)) := by
  have hat := Addr.at_at a (8 * k) 8
  rwa [Addr.at] at hat

/-- The double words from `a` on, the last of which reaches the end `e`. -/
structure Words (a e : Addr) (n : ℕ) : Prop where
  le : e.toNat ≤ a.toNat + 8 * n
  lt : a.toNat + 8 * n < e.toNat + 8
  fits : a.toNat + 8 * n < 2 ^ 64

/-- The address of a double word, compared with the end. -/
theorem Words.at_lt_iff {a e : Addr} {k n : ℕ} (h : Words a e n) (hk : k ≤ n) :
    a.at (8 * k) < e ↔ k < n := by
  have hle := h.le
  have hlt := h.lt
  have hfits := h.fits
  rw [BitVec.lt_def, Addr.toNat_at _ (by omega)]
  omega

/-- There are none if the end is not above the start. -/
theorem Words.le_iff {a e : Addr} {n : ℕ} (h : Words a e n) : e ≤ a ↔ n = 0 := by
  have hle := h.le
  have hlt := h.lt
  rw [BitVec.le_def]
  omega

end Riscv64
