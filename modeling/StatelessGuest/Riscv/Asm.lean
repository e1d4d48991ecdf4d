import Mathlib.Data.List.Basic
import Mathlib.Logic.Function.Basic
import Mathlib.Data.Int.Notation
import Mathlib.Order.Basic
import Mathlib.Tactic.Common
import Mathlib.Tactic.NormNum

/-!
# Straight RISC-V assembly

A small part of the 32-bit instruction set, run as an assembler listing: lines
are instructions or labels, and a jump goes on with the lines after its label.
Word accesses to addresses that are not multiples of four trap.

## Main definitions

* `Memory`, `Memory.move` — byte memory, and a memory with one range copied over
  another.
* `Instr`, `Line`, `Instr.exec` — instructions and their effect.
* `run` — run a listing.
* `Reaches` — one point of a run is reached from another.

## Main results

* `Memory.move_succ`, `Memory.move_pred` — a range copied upwards or downwards
  by one more byte.
* `Memory.storeWord_loadWord` — copying a word copies its four bytes.
* `Reaches.trans`, `reaches_returned` — runs are put together.
-/

namespace Riscv

/-! ### Memory -/

/-- An address. -/
abbrev Addr := BitVec 32

/-- Byte memory. -/
abbrev Memory := Addr → BitVec 8

namespace Memory

/-- Store a byte. -/
def set (m : Memory) (a : Addr) (v : BitVec 8) : Memory := Function.update m a v

/-- Load the four bytes of a word, the least significant first. -/
def loadWord (m : Memory) (a : Addr) : BitVec 32 :=
  m (a + 3) ++ m (a + 2) ++ m (a + 1) ++ m a

/-- Store a word. -/
def storeWord (m : Memory) (a : Addr) (v : BitVec 32) : Memory :=
  (((m.set a (v.extractLsb' 0 8)).set (a + 1) (v.extractLsb' 8 8)).set (a + 2)
    (v.extractLsb' 16 8)).set (a + 3) (v.extractLsb' 24 8)

/-- The bytes of a word. -/
theorem extract_bytes (x₃ x₂ x₁ x₀ : BitVec 8) :
    (x₃ ++ x₂ ++ x₁ ++ x₀).extractLsb' 0 8 = x₀ ∧ (x₃ ++ x₂ ++ x₁ ++ x₀).extractLsb' 8 8 = x₁ ∧
      (x₃ ++ x₂ ++ x₁ ++ x₀).extractLsb' 16 8 = x₂ ∧
      (x₃ ++ x₂ ++ x₁ ++ x₀).extractLsb' 24 8 = x₃ := by
  refine ⟨?_, ?_, ?_, ?_⟩ <;>
  · apply BitVec.eq_of_getLsbD_eq
    intro i hi
    rw [BitVec.getLsbD_extractLsb']
    grind

/-- Copying a word copies its four bytes. -/
theorem storeWord_loadWord (m : Memory) (d s : Addr) : m.storeWord d (m.loadWord s) =
    (((m.set d (m s)).set (d + 1) (m (s + 1))).set (d + 2) (m (s + 2))).set (d + 3)
      (m (s + 3)) := by
  obtain ⟨h₀, h₁, h₂, h₃⟩ := extract_bytes (m (s + 3)) (m (s + 2)) (m (s + 1)) (m s)
  rw [storeWord, loadWord, h₀, h₁, h₂, h₃]

/-- The memory with the `n` bytes from `s` copied to `d`. -/
def move (m : Memory) (d s n : ℕ) : Memory := fun a =>
  if d ≤ a.toNat ∧ a.toNat < d + n then m (BitVec.ofNat 32 (s + (a.toNat - d))) else m a

variable (m : Memory) {d s n : ℕ}

theorem move_zero : m.move d s 0 = m := by
  funext a
  exact if_neg (by omega)

/-- One more byte at the upper end. -/
theorem move_succ (hd : d + n < 2 ^ 32) : m.move d s (n + 1) =
    (m.move d s n).set (BitVec.ofNat 32 (d + n)) (m (BitVec.ofNat 32 (s + n))) := by
  funext a
  rw [set, Function.update_apply]
  have heq : a = BitVec.ofNat 32 (d + n) ↔ a.toNat = d + n := by
    rw [← BitVec.toNat_inj, BitVec.toNat_ofNat, Nat.mod_eq_of_lt hd]
  rcases Decidable.em (a = BitVec.ofNat 32 (d + n)) with h | h
  · have ha := heq.mp h
    rw [if_pos h, move, if_pos (by omega), ha, Nat.add_sub_cancel_left]
  · have ha : a.toNat ≠ d + n := fun ha => h (heq.mpr ha)
    rw [if_neg h, move, move]
    exact if_congr (by omega) rfl rfl

/-- One more byte at the lower end. -/
theorem move_pred (hd : d < 2 ^ 32) : m.move d s (n + 1) =
    (m.move (d + 1) (s + 1) n).set (BitVec.ofNat 32 d) (m (BitVec.ofNat 32 s)) := by
  funext a
  rw [set, Function.update_apply]
  have heq : a = BitVec.ofNat 32 d ↔ a.toNat = d := by
    rw [← BitVec.toNat_inj, BitVec.toNat_ofNat, Nat.mod_eq_of_lt hd]
  rcases Decidable.em (a = BitVec.ofNat 32 d) with h | h
  · have ha := heq.mp h
    rw [if_pos h, move, if_pos (by omega), ha, Nat.sub_self, Nat.add_zero]
  · have ha : a.toNat ≠ d := fun ha => h (heq.mpr ha)
    rw [if_neg h, move, move]
    refine if_ctx_congr (by omega) ?_ fun _ => rfl
    intro hin
    have hoff : s + (a.toNat - d) = s + 1 + (a.toNat - (d + 1)) := by omega
    rw [hoff]

/-- Bytes outside the range are unchanged. -/
theorem move_of_not_mem {a : ℕ} (ha : a < 2 ^ 32) (h : a < d ∨ d + n ≤ a) :
    m.move d s n (BitVec.ofNat 32 a) = m (BitVec.ofNat 32 a) := by
  rw [move, BitVec.toNat_ofNat, Nat.mod_eq_of_lt ha]
  exact if_neg (by omega)

end Memory

/-! ### Instructions -/

/-- The registers the listings use. -/
inductive Reg
  | a0 | a1 | a2 | a3 | a4 | a5
  deriving DecidableEq, Repr

/-- Instructions, with jumps to labels of `L`. -/
inductive Instr (L : Type)
  | mv (rd rs : Reg)
  | li (rd : Reg) (imm : ℤ)
  | addi (rd rs : Reg) (imm : ℤ)
  | andi (rd rs : Reg) (imm : ℤ)
  | or (rd rs₁ rs₂ : Reg)
  | lbu (rd : Reg) (off : ℤ) (base : Reg)
  | sb (rs : Reg) (off : ℤ) (base : Reg)
  | lw (rd : Reg) (off : ℤ) (base : Reg)
  | sw (rs : Reg) (off : ℤ) (base : Reg)
  | beqz (rs : Reg) (target : L)
  | bnez (rs : Reg) (target : L)
  | bltu (rs₁ rs₂ : Reg) (target : L)
  | j (target : L)
  | ret
  deriving DecidableEq

/-- A line of a listing. -/
inductive Line (L : Type)
  | label (l : L)
  | instr (i : Instr L)
  deriving DecidableEq

/-- Registers and memory. -/
structure State where
  regs : Reg → BitVec 32
  mem : Memory

/-- Write a register. -/
def State.put (s : State) (r : Reg) (v : BitVec 32) : State :=
  { s with regs := Function.update s.regs r v }

/-- What an instruction does. -/
inductive Effect (L : Type)
  | next (s : State)
  | jump (target : L) (s : State)
  | done (s : State)
  /-- A word access to an address that is not a multiple of four. -/
  | trap

variable {L : Type}

/-- Execute one instruction. -/
def Instr.exec (i : Instr L) (s : State) : Effect L :=
  match i with
  | .mv rd rs => .next (s.put rd (s.regs rs))
  | .li rd imm => .next (s.put rd (BitVec.ofInt 32 imm))
  | .addi rd rs imm => .next (s.put rd (s.regs rs + BitVec.ofInt 32 imm))
  | .andi rd rs imm => .next (s.put rd (s.regs rs &&& BitVec.ofInt 32 imm))
  | .or rd rs₁ rs₂ => .next (s.put rd (s.regs rs₁ ||| s.regs rs₂))
  | .lbu rd off base => .next (s.put rd ((s.mem (s.regs base + BitVec.ofInt 32 off)).setWidth 32))
  | .sb rs off base => .next { s with
      mem := s.mem.set (s.regs base + BitVec.ofInt 32 off) ((s.regs rs).setWidth 8) }
  | .lw rd off base =>
      if (s.regs base + BitVec.ofInt 32 off).toNat % 4 = 0 then
        .next (s.put rd (s.mem.loadWord (s.regs base + BitVec.ofInt 32 off)))
      else .trap
  | .sw rs off base =>
      if (s.regs base + BitVec.ofInt 32 off).toNat % 4 = 0 then
        .next { s with mem := s.mem.storeWord (s.regs base + BitVec.ofInt 32 off) (s.regs rs) }
      else .trap
  | .beqz rs target => if s.regs rs = 0 then .jump target s else .next s
  | .bnez rs target => if s.regs rs ≠ 0 then .jump target s else .next s
  | .bltu rs₁ rs₂ target => if s.regs rs₁ < s.regs rs₂ then .jump target s else .next s
  | .j target => .jump target s
  | .ret => .done s

/-- Execute instructions that neither jump nor trap. -/
def block : List (Instr L) → State → Option State
  | [], s => some s
  | i :: is, s =>
      match i.exec s with
      | .next s' => block is s'
      | _ => none

@[simp] theorem State.put_self (s : State) (r : Reg) (v : BitVec 32) : (s.put r v).regs r = v := by
  simp only [State.put, Function.update_self]

@[simp] theorem State.put_of_ne (s : State) {r r' : Reg} (h : r' ≠ r) (v : BitVec 32) :
    (s.put r v).regs r' = s.regs r' := by
  simp only [State.put, Function.update_of_ne h]

@[simp] theorem State.put_mem (s : State) (r : Reg) (v : BitVec 32) : (s.put r v).mem = s.mem := rfl

/-! ### Running a listing -/

/-- How a run ends. -/
inductive Outcome
  | returned (s : State)
  | trapped
  /-- The listing was left other than by `ret`. -/
  | fellOff
  | outOfFuel

variable [DecidableEq L]

/-- The lines from a label on. -/
def linesFrom (listing : List (Line L)) (l : L) : List (Line L) :=
  listing.dropWhile (· ≠ .label l)

/-- Run from the line at the head of the list, for at most `fuel` lines. -/
def run (listing : List (Line L)) : ℕ → List (Line L) → State → Outcome
  | 0, _, _ => .outOfFuel
  | _ + 1, [], _ => .fellOff
  | fuel + 1, .label _ :: rest, s => run listing fuel rest s
  | fuel + 1, .instr i :: rest, s =>
      match i.exec s with
      | .next s' => run listing fuel rest s'
      | .jump l s' => run listing fuel (linesFrom listing l) s'
      | .done s' => .returned s'
      | .trap => .trapped

/-- The run from one point goes on to another. -/
def Reaches (listing : List (Line L)) (here : List (Line L)) (s : State)
    (there : List (Line L)) (s' : State) : Prop :=
  ∃ k, ∀ fuel, run listing (k + fuel) here s = run listing fuel there s'

namespace Reaches

variable {listing here there rest : List (Line L)} {s s' s'' : State}

theorem refl : Reaches listing here s here s := ⟨0, fun fuel => by rw [Nat.zero_add]⟩

theorem trans {last : List (Line L)} (h₁ : Reaches listing here s there s')
    (h₂ : Reaches listing there s' last s'') : Reaches listing here s last s'' := by
  obtain ⟨k₁, h₁⟩ := h₁
  obtain ⟨k₂, h₂⟩ := h₂
  exact ⟨k₁ + k₂, fun fuel => by rw [Nat.add_assoc, h₁, h₂]⟩

theorem label {l : L} : Reaches listing (.label l :: rest) s rest s :=
  ⟨1, fun fuel => by rw [Nat.add_comm, run]⟩

theorem next {i : Instr L} (h : i.exec s = .next s') :
    Reaches listing (.instr i :: rest) s rest s' :=
  ⟨1, fun fuel => by rw [Nat.add_comm, run, h]⟩

theorem jump {i : Instr L} {l : L} (h : i.exec s = .jump l s') :
    Reaches listing (.instr i :: rest) s (linesFrom listing l) s' :=
  ⟨1, fun fuel => by rw [Nat.add_comm, run, h]⟩

/-- A block is run through. -/
theorem block {is : List (Instr L)} (h : Riscv.block is s = some s') :
    Reaches listing (is.map Line.instr ++ rest) s rest s' := by
  induction is generalizing s with
  | nil =>
    obtain rfl := Option.some.inj h
    exact refl
  | cons i is ih =>
    unfold Riscv.block at h
    split at h
    · rename_i hexec
      exact (next hexec).trans (ih h)
    · cases h

/-- A run that reaches a return returns, whatever fuel is left over. -/
theorem returned {i : Instr L} (h : Reaches listing here s (.instr i :: rest) s')
    (hdone : i.exec s' = .done s'') :
    ∃ k, ∀ fuel, k ≤ fuel → run listing fuel here s = .returned s'' := by
  obtain ⟨k, h⟩ := h
  refine ⟨k + 1, ?_⟩
  intro fuel hfuel
  obtain ⟨extra, rfl⟩ := Nat.exists_eq_add_of_le hfuel
  rw [Nat.add_assoc, h, Nat.add_comm, run, hdone]

end Reaches

end Riscv
