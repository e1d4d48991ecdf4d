import Mathlib.Data.List.Basic
import Mathlib.Logic.Function.Basic
import Mathlib.Data.Int.Notation
import Mathlib.Order.Basic
import Mathlib.Tactic.Common
import Mathlib.Tactic.NormNum

/-!
# RISC-V assembly with 64-bit registers

Part of the 64-bit instruction set, run as an assembler listing of labelled
stretches.  Loads and stores trap when they are not aligned or leave the memory
they may use, and code and data have the addresses a linker gave them, so that
a jump through a table of addresses can be run.

## Main definitions

* `Memory`, `Memory.load`, `Memory.store`, `Memory.move` — byte memory.
* `Instr`, `Env`, `Instr.exec` — instructions and their effect.
* `Listing`, `run` — run a listing.
* `Reaches`, `Ends` — a run goes on from one point to another, or returns.

## Main results

* `byteAt_load`, `Memory.store_move` — loads and stores byte by byte.
* `Reaches.trans`, `Reaches.ends` — runs are put together.
-/

namespace Riscv64

/-! ### Memory -/

/-- An address. -/
abbrev Addr := BitVec 64

/-- Byte memory. -/
abbrev Memory := Addr → BitVec 8

/-- A byte of a register, the least significant first. -/
def byteAt (v : BitVec 64) (b : ℕ) : BitVec 8 := v.extractLsb' (8 * b) 8

/-- The address `i` bytes on. -/
def Addr.at (a : Addr) (i : ℕ) : Addr := a + BitVec.ofNat 64 i

namespace Memory

/-- Load `w` bytes, the least significant first. -/
def load (m : Memory) (a : Addr) : ℕ → BitVec 64
  | 0 => 0
  | w + 1 => load m (a + 1) w <<< 8 ||| (m a).setWidth 64

/-- Store the low `w` bytes of a register. -/
def store (m : Memory) (a : Addr) (w : ℕ) (v : BitVec 64) : Memory := fun x =>
  if (x - a).toNat < w then byteAt v (x - a).toNat else m x

/-- The memory with the `n` bytes from `s` copied to `d`. -/
def move (m : Memory) (d s : Addr) (n : ℕ) : Memory := fun x =>
  if (x - d).toNat < n then m (s + (x - d)) else m x

end Memory

theorem getLsbD_byteAt (v : BitVec 64) (b i : ℕ) :
    (byteAt v b).getLsbD i = (decide (i < 8) && v.getLsbD (8 * b + i)) := by
  rw [byteAt, BitVec.getLsbD_extractLsb']

/-- Shifting right by whole bytes drops them. -/
theorem byteAt_ushiftRight (v : BitVec 64) (b c : ℕ) :
    byteAt (v >>> (8 * c)) b = byteAt v (c + b) := by
  apply BitVec.eq_of_getLsbD_eq
  intro i hi
  rw [getLsbD_byteAt, getLsbD_byteAt, BitVec.getLsbD_ushiftRight, Nat.mul_add, Nat.add_assoc]

/-- Shifting left by whole bytes puts zeros below. -/
theorem byteAt_shiftLeft (v : BitVec 64) {b : ℕ} (c : ℕ) (hb : b < 8) :
    byteAt (v <<< (8 * c)) b = if b < c then 0 else byteAt v (b - c) := by
  apply BitVec.eq_of_getLsbD_eq
  intro i hi
  rw [getLsbD_byteAt, BitVec.getLsbD_shiftLeft]
  rcases Nat.lt_or_ge b c with h | h
  · rw [if_pos h]
    have hlow : 8 * b + i < 8 * c := by omega
    simp [hlow]
  · rw [if_neg (by omega), getLsbD_byteAt]
    have hlow : ¬8 * b + i < 8 * c := by omega
    have hin : 8 * b + i < 64 := by omega
    have hoff : 8 * b + i - 8 * c = 8 * (b - c) + i := by omega
    simp [hlow, hin, hoff]

/-- There are eight bytes. -/
theorem byteAt_of_ge (v : BitVec 64) {b : ℕ} (hb : 8 ≤ b) : byteAt v b = 0 := by
  apply BitVec.eq_of_getLsbD_eq
  intro i hi
  rw [getLsbD_byteAt, BitVec.getLsbD_of_ge v _ (by omega), Bool.and_false]
  exact BitVec.getLsbD_zero.symm

theorem byteAt_or (v w : BitVec 64) (b : ℕ) : byteAt (v ||| w) b = byteAt v b ||| byteAt w b := by
  apply BitVec.eq_of_getLsbD_eq
  intro i hi
  simp only [getLsbD_byteAt, BitVec.getLsbD_or, Bool.and_or_distrib_left]

theorem byteAt_setWidth (x : BitVec 8) (b : ℕ) :
    byteAt (x.setWidth 64) b = if b = 0 then x else 0 := by
  apply BitVec.eq_of_getLsbD_eq
  intro i hi
  rw [getLsbD_byteAt, BitVec.getLsbD_setWidth]
  rcases Nat.eq_zero_or_pos b with rfl | h
  · simp [hi, Nat.lt_of_lt_of_le hi (by decide : 8 ≤ 64)]
  · have hout : x.getLsbD (8 * b + i) = false := BitVec.getLsbD_of_ge x _ (by omega)
    simp [hout, Nat.ne_of_gt h]

theorem Addr.at_zero (a : Addr) : a.at 0 = a := BitVec.add_zero a

theorem Addr.at_at (a : Addr) (i j : ℕ) : (a.at i).at j = a.at (i + j) := by
  rw [Addr.at, Addr.at, Addr.at, BitVec.ofNat_add, BitVec.add_assoc]

/-- The bytes of a loaded value. -/
theorem byteAt_load (m : Memory) (a : Addr) {w b : ℕ} (hb : b < 8) :
    byteAt (m.load a w) b = if b < w then m (a.at b) else 0 := by
  induction w generalizing a b with
  | zero =>
    rw [Memory.load, if_neg (Nat.not_lt_zero b), byteAt]
    exact BitVec.extractLsb'_zero
  | succ w ih =>
    have hshift := byteAt_shiftLeft (m.load (a + 1) w) 1 hb
    rw [Memory.load, byteAt_or, byteAt_setWidth, hshift]
    cases b with
    | zero => simp [Addr.at_zero]
    | succ b =>
      have hat : (a + 1).at b = a.at (b + 1) := by
        have hone := Addr.at_at a 1 b
        rwa [Nat.add_comm 1 b] at hone
      rw [if_neg (by omega), if_neg (by omega), Nat.add_sub_cancel, ih (a + 1) (by omega), hat]
      simp

namespace Memory

/-- A load depends on the bytes it loads. -/
theorem load_congr {m m' : Memory} {a : Addr} {w : ℕ}
    (h : ∀ b, b < w → m (a.at b) = m' (a.at b)) : m.load a w = m'.load a w := by
  induction w generalizing a with
  | zero => rfl
  | succ w ih =>
    have hnext : ∀ b, (a + 1).at b = a.at (b + 1) := by
      intro b
      have hone := Addr.at_at a 1 b
      rwa [Nat.add_comm 1 b] at hone
    have hhead := h 0 (Nat.succ_pos w)
    rw [Addr.at_zero] at hhead
    rw [load, load, hhead, ih fun b hb => ?_]
    rw [hnext]
    exact h (b + 1) (Nat.succ_lt_succ hb)

variable (m : Memory) (d s : Addr)

theorem move_zero : m.move d s 0 = m := by
  funext x
  exact if_neg (Nat.not_lt_zero _)

theorem sub_at (x : Addr) (k : ℕ) : x - d.at k = x - d - BitVec.ofNat 64 k := by
  rw [Addr.at, BitVec.sub_eq_add_neg, BitVec.neg_add, BitVec.sub_eq_add_neg (-d),
    ← BitVec.add_assoc, ← BitVec.sub_eq_add_neg, ← BitVec.sub_eq_add_neg]

/-- The offset of an address from one further on. -/
theorem toNat_sub_at (x : Addr) {k w : ℕ} (h : k + w ≤ 2 ^ 64) :
    (x - d.at k).toNat < w ↔ k ≤ (x - d).toNat ∧ (x - d).toNat < k + w := by
  have hlt := (x - d).isLt
  rw [sub_at, BitVec.toNat_sub, BitVec.toNat_ofNat]
  omega

/-- Storing the bytes that come next moves on by as many. -/
theorem store_move {k w : ℕ} {v : BitVec 64} (h : k + w ≤ 2 ^ 64)
    (hv : ∀ b, b < w → byteAt v b = m (s.at (k + b))) :
    (m.move d s k).store (d.at k) w v = m.move d s (k + w) := by
  funext x
  have hoff := toNat_sub_at d x h
  unfold store
  rcases Decidable.em ((x - d.at k).toNat < w) with hin | hout
  · obtain ⟨hlow, hhigh⟩ := hoff.mp hin
    have hsum : s.at (k + (x - d.at k).toNat) = s + (x - d) := by
      have hval : BitVec.ofNat 64 (k + (x - d.at k).toNat) = x - d := by
        rw [BitVec.ofNat_add, BitVec.ofNat_toNat, BitVec.setWidth_eq, sub_at, BitVec.add_comm,
          BitVec.sub_add_cancel]
      rw [Addr.at, hval]
    rw [if_pos hin, hv _ hin, hsum, move, if_pos hhigh]
  · rw [if_neg hout, move, move]
    exact if_congr (by omega) rfl rfl

theorem toNat_sub_ne_zero {x d : Addr} (h : x ≠ d) : (x - d).toNat ≠ 0 := by
  intro hzero
  have hsub : x - d = 0#64 := BitVec.eq_of_toNat_eq hzero
  exact h (by rw [← BitVec.sub_add_cancel x d, hsub, BitVec.zero_add])

/-- One byte stored. -/
theorem store_load_byte : m.store d 1 (m.load s 1) = Function.update m d (m s) := by
  funext x
  have hbyte := byteAt_load m s (w := 1) (b := 0) (by decide)
  rw [store, Function.update_apply]
  rcases Decidable.em (x = d) with rfl | hne
  · have hzero : (x - x).toNat = 0 := by
      rw [BitVec.sub_self]
      rfl
    rw [hzero, if_pos (by decide), if_pos rfl, hbyte, if_pos (by decide), Addr.at_zero]
  · have hpos := toNat_sub_ne_zero hne
    rw [if_neg (by omega), if_neg hne]

/-- One more byte at the lower end. -/
theorem move_succ_below {n : ℕ} (hn : n + 1 ≤ 2 ^ 64) :
    m.move d s (n + 1) = Function.update (m.move (d.at 1) (s.at 1) n) d (m s) := by
  funext x
  have hoff := toNat_sub_at d x (k := 1) (w := n) (by omega)
  rw [Function.update_apply, move, move]
  rcases Decidable.em (x = d) with rfl | hne
  · have hzero : x - x = 0#64 := BitVec.sub_self x
    have hin : (0#64).toNat < n + 1 := Nat.succ_pos n
    rw [if_pos rfl, hzero, if_pos hin, BitVec.add_zero]
  · have hpos := toNat_sub_ne_zero hne
    have hsum : s.at 1 + (x - d.at 1) = s + (x - d) := by
      rw [sub_at, Addr.at, BitVec.add_assoc, BitVec.add_comm _ (x - d - _), BitVec.sub_add_cancel]
    rw [if_neg hne, hsum]
    exact if_congr (by omega) rfl rfl

/-- Bytes outside the range are unchanged. -/
theorem move_of_not_mem {x : Addr} {n : ℕ} (h : ∀ j, j < n → d.at j ≠ x) :
    m.move d s n x = m x := by
  refine if_neg fun hin => h _ hin ?_
  rw [Addr.at, BitVec.ofNat_toNat, BitVec.setWidth_eq, BitVec.add_comm, BitVec.sub_add_cancel]

/-- The moved bytes. -/
theorem move_at {i n : ℕ} (hi : i < n) (hn : n ≤ 2 ^ 64) : m.move d s n (d.at i) = m (s.at i) := by
  have hoff : d.at i - d = BitVec.ofNat 64 i := by
    rw [Addr.at, BitVec.add_comm, BitVec.add_sub_cancel]
  rw [move, hoff, BitVec.toNat_ofNat, Nat.mod_eq_of_lt (by omega), if_pos hi, Addr.at]

end Memory

/-! ### Instructions -/

/-- The registers the listings use. -/
inductive Reg
  | gp | sp | a0 | a1 | a2 | a3 | a4 | a5 | a6 | a7 | t0 | t1 | t2 | t3
  deriving DecidableEq, Repr

/-- Instructions, with labels of `L`. -/
inductive Instr (L : Type)
  | mv (rd rs : Reg)
  | li (rd : Reg) (imm : ℤ)
  | lla (rd : Reg) (sym : L)
  | addi (rd rs : Reg) (imm : ℤ)
  | andi (rd rs : Reg) (imm : ℤ)
  | add (rd rs₁ rs₂ : Reg)
  | or (rd rs₁ rs₂ : Reg)
  | slli (rd rs : Reg) (sh : ℕ)
  | srli (rd rs : Reg) (sh : ℕ)
  | lbu (rd : Reg) (off : ℤ) (base : Reg)
  | lw (rd : Reg) (off : ℤ) (base : Reg)
  | ld (rd : Reg) (off : ℤ) (base : Reg)
  | sb (rs : Reg) (off : ℤ) (base : Reg)
  | sw (rs : Reg) (off : ℤ) (base : Reg)
  | sd (rs : Reg) (off : ℤ) (base : Reg)
  /-- `sd zero, off(base)` -/
  | sdz (off : ℤ) (base : Reg)
  | beq (rs₁ rs₂ : Reg) (target : L)
  | beqz (rs : Reg) (target : L)
  | bnez (rs : Reg) (target : L)
  | bne (rs₁ rs₂ : Reg) (target : L)
  | bltu (rs₁ rs₂ : Reg) (target : L)
  | bgeu (rs₁ rs₂ : Reg) (target : L)
  | j (target : L)
  | jr (rs : Reg)
  /-- A call that does not return, so that the return address is not kept. -/
  | call (target : L)
  | ret

/-- Where the labels were placed, to which label a computed jump goes, and the memory the program
may use. -/
structure Env (L : Type) where
  place : L → Addr
  labelAt : Addr → Option L
  readable : Addr → Bool
  writable : Addr → Bool

/-- Registers and memory. -/
structure State where
  regs : Reg → BitVec 64
  mem : Memory

/-- Write a register. -/
def State.put (s : State) (r : Reg) (v : BitVec 64) : State :=
  { s with regs := Function.update s.regs r v }

/-- The address of a load or store. -/
def State.addr (s : State) (off : ℤ) (base : Reg) : Addr := s.regs base + BitVec.ofInt 64 off

@[simp] theorem State.put_self (s : State) (r : Reg) (v : BitVec 64) : (s.put r v).regs r = v := by
  simp only [State.put, Function.update_self]

@[simp] theorem State.put_of_ne (s : State) {r r' : Reg} (h : r' ≠ r) (v : BitVec 64) :
    (s.put r v).regs r' = s.regs r' := by
  simp only [State.put, Function.update_of_ne h]

@[simp] theorem State.put_mem (s : State) (r : Reg) (v : BitVec 64) : (s.put r v).mem = s.mem := rfl

/-- What an instruction does. -/
inductive Effect (L : Type)
  | next (s : State)
  | jump (target : L) (s : State)
  | done (s : State)
  /-- An access that is not aligned or not allowed, or a jump to no label. -/
  | trap

variable {L : Type}

/-- An aligned access of `w` bytes to memory that may be used. -/
def allowed (may : Addr → Bool) (a : Addr) (w : ℕ) : Prop :=
  a.toNat % w = 0 ∧ ∀ i, i < w → may (a.at i) = true

instance (may : Addr → Bool) (a : Addr) (w : ℕ) : Decidable (allowed may a w) :=
  inferInstanceAs (Decidable (_ ∧ _))

/-- Load `w` bytes, and extend them to a register. -/
def loadEffect (env : Env L) (s : State) (rd : Reg) (a : Addr) (w : ℕ)
    (extend : BitVec 64 → BitVec 64) : Effect L :=
  if allowed env.readable a w then .next (s.put rd (extend (s.mem.load a w))) else .trap

/-- Store the low `w` bytes of a value. -/
def storeValue (env : Env L) (s : State) (v : BitVec 64) (a : Addr) (w : ℕ) : Effect L :=
  if allowed env.writable a w then .next { s with mem := s.mem.store a w v } else .trap

/-- Store the low `w` bytes of a register. -/
def storeEffect (env : Env L) (s : State) (rs : Reg) (a : Addr) (w : ℕ) : Effect L :=
  storeValue env s (s.regs rs) a w

/-- Jump if a condition holds. -/
def branch (cond : Bool) (target : L) (s : State) : Effect L :=
  bif cond then .jump target s else .next s

/-- A branch that is taken. -/
theorem branch_taken {cond : Bool} {s : State} {target : L} (h : cond = true) :
    branch cond target s = .jump target s := by rw [branch, h, cond_true]

/-- A branch that is not taken. -/
theorem branch_passed {cond : Bool} {s : State} {target : L} (h : cond = false) :
    branch cond target s = .next s := by rw [branch, h, cond_false]

/-- Execute one instruction. -/
def Instr.exec (env : Env L) (i : Instr L) (s : State) : Effect L :=
  match i with
  | .mv rd rs => .next (s.put rd (s.regs rs))
  | .li rd imm => .next (s.put rd (BitVec.ofInt 64 imm))
  | .lla rd sym => .next (s.put rd (env.place sym))
  | .addi rd rs imm => .next (s.put rd (s.regs rs + BitVec.ofInt 64 imm))
  | .andi rd rs imm => .next (s.put rd (s.regs rs &&& BitVec.ofInt 64 imm))
  | .add rd rs₁ rs₂ => .next (s.put rd (s.regs rs₁ + s.regs rs₂))
  | .or rd rs₁ rs₂ => .next (s.put rd (s.regs rs₁ ||| s.regs rs₂))
  | .slli rd rs sh => .next (s.put rd (s.regs rs <<< sh))
  | .srli rd rs sh => .next (s.put rd (s.regs rs >>> sh))
  | .lbu rd off base => loadEffect env s rd (s.addr off base) 1 id
  -- `lw` extends the sign of the word.
  | .lw rd off base =>
      loadEffect env s rd (s.addr off base) 4 fun v => (v.setWidth 32).signExtend 64
  | .ld rd off base => loadEffect env s rd (s.addr off base) 8 id
  | .sb rs off base => storeEffect env s rs (s.addr off base) 1
  | .sw rs off base => storeEffect env s rs (s.addr off base) 4
  | .sd rs off base => storeEffect env s rs (s.addr off base) 8
  | .sdz off base => storeValue env s 0 (s.addr off base) 8
  | .beq rs₁ rs₂ target => branch (s.regs rs₁ == s.regs rs₂) target s
  | .beqz rs target => branch (s.regs rs == 0) target s
  | .bnez rs target => branch (s.regs rs != 0) target s
  | .bne rs₁ rs₂ target => branch (s.regs rs₁ != s.regs rs₂) target s
  | .bltu rs₁ rs₂ target => branch (s.regs rs₁ < s.regs rs₂) target s
  | .bgeu rs₁ rs₂ target => branch (s.regs rs₂ ≤ s.regs rs₁) target s
  | .j target => .jump target s
  | .jr rs =>
      match env.labelAt (s.regs rs) with
      | some l => .jump l s
      | none => .trap
  | .call target => .jump target s
  | .ret => .done s

/-- Execute instructions that neither jump nor trap. -/
def block (env : Env L) : List (Instr L) → State → Option State
  | [], s => some s
  | i :: is, s =>
      match i.exec env s with
      | .next s' => block env is s'
      | _ => none

/-! ### Running a listing -/

/-- Labelled stretches; one falls through to the next. -/
abbrev Listing (L : Type) := List (L × List (Instr L))

/-- How a run ends. -/
inductive Outcome
  | returned (s : State)
  | trapped
  /-- The listing was left other than by `ret`. -/
  | fellOff
  | outOfFuel

variable [DecidableEq L]

/-- The stretches from a label on. -/
def Listing.since (p : Listing L) (l : L) : Listing L := p.dropWhile (·.1 ≠ l)

/-- Run the instructions `now` and then the stretches `later`, for at most
`fuel` steps. -/
def run (env : Env L) (p : Listing L) :
    (fuel : ℕ) → (now : List (Instr L)) → (later : Listing L) → State → Outcome
  | 0, _, _, _ => .outOfFuel
  | _ + 1, [], [], _ => .fellOff
  | fuel + 1, [], (_, is) :: later, s => run env p fuel is later s
  | fuel + 1, i :: is, later, s =>
      match i.exec env s with
      | .next s' => run env p fuel is later s'
      | .jump l s' => run env p fuel [] (p.since l) s'
      | .done s' => .returned s'
      | .trap => .trapped

/-- The run from one point goes on to another. -/
def Reaches (env : Env L) (p : Listing L) (now : List (Instr L)) (later : Listing L) (s : State)
    (now' : List (Instr L)) (later' : Listing L) (s' : State) : Prop :=
  ∃ k, ∀ fuel, run env p (k + fuel) now later s = run env p fuel now' later' s'

/-- The run from a point returns, whatever fuel is left over. -/
def Ends (env : Env L) (p : Listing L) (now : List (Instr L)) (later : Listing L) (s : State)
    (s' : State) : Prop :=
  ∃ k, ∀ fuel, k ≤ fuel → run env p fuel now later s = .returned s'

section

variable {env : Env L} {p : Listing L} {now now' : List (Instr L)} {later later' : Listing L}
  {s s' s'' : State}

namespace Reaches

theorem refl : Reaches env p now later s now later s := ⟨0, fun fuel => by rw [Nat.zero_add]⟩

theorem trans {last : List (Instr L)} {lasts : Listing L}
    (h₁ : Reaches env p now later s now' later' s')
    (h₂ : Reaches env p now' later' s' last lasts s'') :
    Reaches env p now later s last lasts s'' := by
  obtain ⟨k₁, h₁⟩ := h₁
  obtain ⟨k₂, h₂⟩ := h₂
  exact ⟨k₁ + k₂, fun fuel => by rw [Nat.add_assoc, h₁, h₂]⟩

/-- Fall through to the next stretch. -/
theorem fall {l : L} : Reaches env p [] ((l, now) :: later) s now later s :=
  ⟨1, fun fuel => by rw [Nat.add_comm, run]⟩

theorem next {i : Instr L} {t : State} (h : i.exec env s = .next t) :
    Reaches env p (i :: now) later s now later t :=
  ⟨1, fun fuel => by rw [Nat.add_comm, run, h]⟩

theorem jump {i : Instr L} {l : L} (h : i.exec env s = .jump l s') :
    Reaches env p (i :: now) later s [] (p.since l) s' :=
  ⟨1, fun fuel => by rw [Nat.add_comm, run, h]⟩

/-- A block is run through. -/
theorem block {is : List (Instr L)} (h : Riscv64.block env is s = some s') :
    Reaches env p (is ++ now) later s now later s' := by
  induction is generalizing s with
  | nil =>
    obtain rfl := Option.some.inj h
    exact refl
  | cons i is ih =>
    unfold Riscv64.block at h
    split at h
    · rename_i hexec
      exact (next hexec).trans (ih h)
    · cases h

/-- **A loop of `n` passes**, each of which but the last goes back to its label. -/
theorem loop {l : L} {n : ℕ} {I : ℕ → State → Prop}
    (hpass : ∀ k s, k < n → I k s → ∃ s', I (k + 1) s' ∧ Reaches env p [] (p.since l) s []
      (if k + 1 < n then p.since l else later) s') :
    ∀ {k : ℕ} {s : State}, k < n → I k s →
      ∃ s', I n s' ∧ Reaches env p [] (p.since l) s [] later s' := by
  intro k s hk hI
  obtain ⟨s₁, hI₁, h₁⟩ := hpass k s hk hI
  by_cases hmore : k + 1 < n
  · rw [if_pos hmore] at h₁
    obtain ⟨s₂, hI₂, h₂⟩ := loop hpass hmore hI₁
    exact ⟨s₂, hI₂, h₁.trans h₂⟩
  · rw [if_neg hmore] at h₁
    have hlast : k + 1 = n := by omega
    exact ⟨s₁, hlast ▸ hI₁, h₁⟩
termination_by k => n - k

/-- What a run reaches decides how it ends. -/
theorem ends (h : Reaches env p now later s now' later' s')
    (hend : Ends env p now' later' s' s'') : Ends env p now later s s'' := by
  obtain ⟨k₁, h₁⟩ := h
  obtain ⟨k₂, h₂⟩ := hend
  refine ⟨k₁ + k₂, ?_⟩
  intro fuel hfuel
  obtain ⟨extra, rfl⟩ := Nat.exists_eq_add_of_le hfuel
  rw [Nat.add_assoc, h₁, h₂ _ (Nat.le_add_right k₂ extra)]

end Reaches

theorem Ends.ret : Ends env p (.ret :: now) later s s := by
  refine ⟨1, ?_⟩
  intro fuel hfuel
  obtain ⟨extra, rfl⟩ := Nat.exists_eq_add_of_le hfuel
  rw [Nat.add_comm, run, Instr.exec]

end

end Riscv64
