import StatelessGuest.Rv64.Memcpy

/-!
# `memmove` on SP1 and ZisK

`memmove` hands every move but a backward-overlapping one to `memcpy`.  So it
relies on `memcpy` copying upwards where the destination lies below the source,
with loads and stores of thirty-two bytes at a time.

## Main results

* `memcpy64_copies` — **`memcpy` copies its range**, with aligned accesses to the
  two ranges and the jump table only.
* `memmove64_moves` — **`memmove` moves its range, for every overlap and alignment.**
-/

namespace StatelessGuest.Rv64

open Riscv64 Riscv64.Reg Riscv64.Instr Rv64.CpyLabel

/-- What a call may use, and where the jump table lies. -/
structure Callable (t : Target) (env : Env CpyLabel) (mem : Memory) (dest src n : Addr) :
    Prop where
  dest_le : dest.toNat + n.toNat ≤ 2 ^ 64
  src_le : src.toNat + n.toNat ≤ 2 ^ 64
  readable : ∀ i, i < n.toNat → env.readable (src.at i) = true
  writable : ∀ i, i < n.toNat → env.writable (dest.at i) = true
  linked : Linked t env mem
  apart : ∀ b j, b < 7 * t.width → j < n.toNat → dest.at j ≠ (env.place jti).at b

/-- The copy of a call. -/
def copyOf (mem : Memory) (dest src n : Addr) : Copy := ⟨mem, dest, src, n.toNat, 0⟩

section

variable {t : Target} {env : Env CpyLabel} {mem : Memory} {dest src n : Addr}

theorem toNat_at {a : Addr} {i m : ℕ} (h : a.toNat + m ≤ 2 ^ 64) (hi : i < m) :
    (a.at i).toNat = a.toNat + i := by
  rw [Addr.at, BitVec.toNat_add, BitVec.toNat_ofNat]
  omega

/-- Copying upwards does where the ranges are apart or overlap downwards. -/
theorem upward_of_ranges (h : Callable t env mem dest src n)
    (hup : dest.toNat ≤ src.toNat ∨ src.toNat + n.toNat ≤ dest.toNat) :
    (copyOf mem dest src n).Upward := by
  intro i j hij hj heq
  have hnat := congrArg BitVec.toNat heq
  have hj : j < n.toNat := hj
  have hd : (dest.at i).toNat = dest.toNat + i := toNat_at h.dest_le (by omega)
  have hs : (src.at j).toNat = src.toNat + j := toNat_at h.src_le hj
  rw [show (copyOf mem dest src n).d = dest from rfl, show (copyOf mem dest src n).s = src from rfl,
    hd, hs] at hnat
  omega

/-- `memcpy` returns its destination, with the range copied upwards. -/
theorem memcpy_returns (h : Callable t env mem dest src n)
    (hup : dest.toNat ≤ src.toNat ∨ src.toNat + n.toNat ≤ dest.toNat) (regs : Reg → BitVec 64) :
    ∃ k, ∀ fuel, k ≤ fuel →
      memcpy t env fuel regs mem dest src n = some (dest, mem.move dest src n.toNat) := by
  have hready : Ready env (copyOf mem dest src n) :=
    ⟨upward_of_ranges h hup, n.isLt, ⟨h.readable, h.writable⟩⟩
  have hfits : Fits (copyOf mem dest src n) 0 called
      ((({ regs, mem : State }.put a0 dest).put a1 src).put a2 n) := by
    refine ⟨?_, (mem.move_zero dest src).symm⟩
    intro r
    cases r with
    | a0 => exact (BitVec.add_zero dest).symm
    | a1 => exact (BitVec.add_zero src).symm
    | a2 =>
      have hzero : (n.toNat : ℤ) - ((0 : ℕ) + 0) = (n.toNat : ℤ) := by omega
      show n = BitVec.ofInt 64 ((n.toNat : ℤ) - ((0 : ℕ) + 0))
      rw [hzero, BitVec.ofInt_natCast, BitVec.ofNat_toNat, BitVec.setWidth_eq]
    | _ => exact trivial
  obtain ⟨last, ⟨k, hk⟩, hdest, hmem⟩ := memcpyListing_copies hready h.linked h.apart hfits
  refine ⟨k, ?_⟩
  intro fuel hfuel
  rw [memcpy, callMemcpy, hk fuel hfuel, resultOf, hdest, hmem]
  rfl

/-- What a moved range holds. -/
theorem move_spec (mem : Memory) (dest src n : Addr) :
    (∀ i, i < n.toNat → mem.move dest src n.toNat (dest.at i) = mem (src.at i)) ∧
      ∀ a, (∀ i, i < n.toNat → dest.at i ≠ a) → mem.move dest src n.toNat a = mem a :=
  ⟨fun _ hi => mem.move_at _ _ hi (Nat.le_of_lt n.isLt), fun _ ha => mem.move_of_not_mem _ _ ha⟩

/-- **`memcpy` copies its range.**  The ranges are apart, or the destination
begins at or below the source; the accesses are aligned, and to the two ranges
and the jump table only, since a run with any other does not return. -/
theorem memcpy64_copies (t : Target) (env : Env CpyLabel) (regs : Reg → BitVec 64) (mem : Memory)
    (dest src n : Addr) (h : Callable t env mem dest src n)
    (hup : dest.toNat ≤ src.toNat ∨ src.toNat + n.toNat ≤ dest.toNat) :
    ∃ mem', (∃ k, ∀ fuel, k ≤ fuel → memcpy t env fuel regs mem dest src n = some (dest, mem')) ∧
      (∀ i, i < n.toNat → mem' (dest.at i) = mem (src.at i)) ∧
      ∀ a, (∀ i, i < n.toNat → dest.at i ≠ a) → mem' a = mem a :=
  ⟨_, memcpy_returns h hup regs, move_spec mem dest src n⟩

/-- Every label its own address. -/
def sampleEnv : Env CpyLabel where
  place l := BitVec.ofNat 64 (2048 + 8 * l.ctorIdx)
  labelAt a := ([.memcpy, .bb3, .bb5, .bb6, .bb7, .bb9, .bb10, .bb11, .bb12, .bb13, .bb14, .bb16,
    .bb17, .bb19, .bb20, .bb22, .bb23, .bb24, .bb25, .bb26, .bb27, .bb29, .bb30, .bb32, .bb33,
    .bb35, .bb36, .bb38, .bb39, .bb41, .bb42, .bb44, .bb45, .bb46, .bb47, .bb48, .bb50, .bb51,
    .bb52, .jti] : List CpyLabel).find? fun l => BitVec.ofNat 64 (2048 + 8 * l.ctorIdx) == a
  readable _ := true
  writable _ := true

/-- The table of words, and the address of every other byte. -/
def sampleMemory : Memory := fun a =>
  let o := (a - sampleEnv.place jti).toNat
  if o < 28 then byteAt (sampleEnv.place (tableEntries.getD (o / 4) jti)) (o % 4)
  else a.setWidth 8

theorem sample_callable {dest src : Addr} (hd : dest.toNat < 1900) (hs : src.toNat < 1900) :
    Callable .sp1 sampleEnv sampleMemory dest src 100 where
  dest_le := by
    show dest.toNat + 100 ≤ 2 ^ 64
    omega
  src_le := by
    show src.toNat + 100 ≤ 2 ^ 64
    omega
  readable _ _ := rfl
  writable _ _ := rfl
  linked := by
    refine ⟨by decide, ?_, by decide, by decide⟩
    intro i l hl
    have hi : i < 7 := (List.getElem?_eq_some_iff.mp hl).1
    interval_cases i <;>
    · obtain rfl := Option.some.inj hl
      decide +kernel
  apart b j hb hj heq := by
    have hnat := congrArg BitVec.toNat heq
    have hb : b < 28 := hb
    have hj : j < 100 := hj
    have htable : (sampleEnv.place jti).toNat = 2360 := by decide
    rw [toNat_at (m := 100) (by omega) hj, toNat_at (m := 28) (by omega) hb] at hnat
    omega

/-- A call that aligns the source and merges double words. -/
theorem memcpy64_copies_sample : ∃ mem' : Memory,
    (∃ k, ∀ fuel, k ≤ fuel →
      memcpy .sp1 sampleEnv fuel (fun _ => 0) sampleMemory 3 1001 100 = some (3, mem')) ∧
    (∀ i, i < 100 → mem' (Addr.at 3 i) = sampleMemory (Addr.at 1001 i)) ∧
    ∀ a, (∀ i, i < 100 → Addr.at 3 i ≠ a) → mem' a = sampleMemory a :=
  memcpy64_copies .sp1 sampleEnv (fun _ => 0) sampleMemory 3 1001 100
    (sample_callable (by decide) (by decide)) (Or.inl (by decide))

/-- The backward loop moves the range when the destination lies above the
source. -/
theorem copyBackward_moves (h : Callable t env mem dest src n) (hlt : src.toNat < dest.toNat) :
    ∀ {k : ℕ}, k ≤ n.toNat → copyBackward env k (dest.at k) (src.at k)
      (mem.move (dest.at k) (src.at k) (n.toNat - k)) = some (mem.move dest src n.toNat)
  | 0, _ => by rw [copyBackward, Addr.at_zero, Addr.at_zero, Nat.sub_zero]
  | k + 1, hk => by
      have hpred : ∀ a : Addr, a.at (k + 1) - 1 = a.at k := by
        intro a
        rw [← Addr.at_at]
        exact BitVec.add_sub_cancel (a.at k) 1
      have hallowed : (env.readable (src.at k) && env.writable (dest.at k)) = true := by
        rw [h.readable k hk, h.writable k hk]
        rfl
      -- The byte to read lies below those that are written.
      have hread : mem.move (dest.at (k + 1)) (src.at (k + 1)) (n.toNat - (k + 1)) (src.at k) =
          mem (src.at k) := by
        refine mem.move_of_not_mem _ _ ?_
        intro j hj heq
        have hnat := congrArg BitVec.toNat heq
        rw [Addr.at_at, toNat_at h.dest_le (by omega), toNat_at h.src_le hk] at hnat
        omega
      have hcount : n.toNat - k = n.toNat - (k + 1) + 1 := by omega
      rw [copyBackward, hpred, hpred, if_pos hallowed, ← copyBackward_moves h hlt (k := k) (by omega),
        hcount, Memory.move_succ_below _ _ _ (by have := n.isLt; omega), Memory.store_load_byte,
        hread, Addr.at_at, Addr.at_at]

/-- **`memmove` moves its range.**  Whatever the overlap and the alignment of the
ranges, it returns its destination, the destination holds what the source held
before the call, and no other byte changes.  The accesses are aligned, and to
the two ranges and the jump table only. -/
theorem memmove64_moves (t : Target) (env : Env CpyLabel) (regs : Reg → BitVec 64) (mem : Memory)
    (dest src n : Addr) (h : Callable t env mem dest src n) :
    ∃ mem', (∃ k, ∀ fuel, k ≤ fuel → memmove t env fuel regs mem dest src n = some (dest, mem')) ∧
      (∀ i, i < n.toNat → mem' (dest.at i) = mem (src.at i)) ∧
      ∀ a, (∀ i, i < n.toNat → dest.at i ≠ a) → mem' a = mem a := by
  have hd := h.dest_le
  have hs := h.src_le
  have hsum : (src + n).toNat = (src.toNat + n.toNat) % 2 ^ 64 := BitVec.toNat_add src n
  refine ⟨_, ?_, move_spec mem dest src n⟩
  rcases Decidable.em (dest ≤ src ∨ dest ≥ src + n) with hfwd | hback
  · have hup : dest.toNat ≤ src.toNat ∨ src.toNat + n.toNat ≤ dest.toNat := by
      rw [ge_iff_le, BitVec.le_def, BitVec.le_def, hsum] at hfwd
      omega
    obtain ⟨k, hk⟩ := memcpy_returns h hup regs
    refine ⟨k, ?_⟩
    intro fuel hfuel
    rw [memmove, if_pos hfwd, hk fuel hfuel]
  · have hlt : src.toNat < dest.toNat := by
      rw [BitVec.le_def] at hback
      omega
    have hmove := copyBackward_moves h hlt (k := n.toNat) (Nat.le_refl _)
    have hend : ∀ a : Addr, a.at n.toNat = a + n := by
      intro a
      rw [Addr.at, BitVec.ofNat_toNat, BitVec.setWidth_eq]
    rw [Nat.sub_self, mem.move_zero, hend, hend] at hmove
    refine ⟨0, ?_⟩
    intro fuel _
    rw [memmove, if_neg hback, hmove]
    rfl

/-- An overlapping move upwards in memory. -/
theorem memmove64_moves_overlap : ∃ mem' : Memory,
    (∃ k, ∀ fuel, k ≤ fuel →
      memmove .sp1 sampleEnv fuel (fun _ => 0) sampleMemory 1010 1001 100 = some (1010, mem')) ∧
    (∀ i, i < 100 → mem' (Addr.at 1010 i) = sampleMemory (Addr.at 1001 i)) ∧
    ∀ a, (∀ i, i < 100 → Addr.at 1010 i ≠ a) → mem' a = sampleMemory a :=
  memmove64_moves .sp1 sampleEnv (fun _ => 0) sampleMemory 1010 1001 100
    (sample_callable (by decide) (by decide))

end

end StatelessGuest.Rv64
