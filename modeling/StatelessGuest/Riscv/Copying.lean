import StatelessGuest.Riscv.Asm64

/-!
# Checking code that copies memory

A copy upwards is run on descriptions of the registers: so many bytes from the
heads of the ranges, these bytes of the source, and so on.  A block whose run on
descriptions succeeds can be run on every state they fit, and each of its
stores moves the copy on by the bytes that come next.

## Main definitions

* `Copy`, `Copy.Upward` — what is copied, and when copying upwards does it.
* `Val`, `Shape`, `Fits` — descriptions of values and of states.
* `symStep`, `check` — run blocks on descriptions.

## Main results

* `symStep_sound` — one instruction.
* `check_sound` — **a block that checks takes every state of the first shape to
  one of the second.**
-/

namespace Riscv64

/-! ### Descriptions -/

/-- A copy: the memory it starts from, its ranges, and a value kept meanwhile. -/
structure Copy where
  mem : Memory
  d : Addr
  s : Addr
  n : ℕ
  kept : BitVec 64

/-- Copying upwards never overwrites a byte that is still to be read. -/
def Copy.Upward (c : Copy) : Prop := ∀ j i, j < i → i < c.n → c.d.at j ≠ c.s.at i

/-- The source may be read and the destination written. -/
structure Copy.Usable {L : Type} (c : Copy) (env : Env L) : Prop where
  src : ∀ i, i < c.n → env.readable (c.s.at i) = true
  dst : ∀ i, i < c.n → env.writable (c.d.at i) = true

/-- What is known of a byte of a register. -/
inductive SymByte
  | zero
  /-- The byte of the source at this offset. -/
  | src (i : ℕ)
  | unknown
  deriving DecidableEq, Repr

/-- What is known of a register; offsets are from the heads of the copy. -/
inductive Val
  | unknown
  | const (z : ℤ)
  | dest
  | kept
  | src (x : ℤ)
  | dst (x : ℤ)
  /-- The bytes left behind this offset. -/
  | left (x : ℤ)
  /-- Bytes, and zeros above them. -/
  | data (bs : List SymByte)
  | masked (v : Val) (mask : ℤ)
  deriving DecidableEq, Repr

/-- What is known of the registers, and the bytes copied behind the heads. -/
structure Shape where
  regs : Reg → Val
  done : ℕ

/-- What is known of the heads: the bytes there are at least, and the offsets
from multiples of eight. -/
structure Facts where
  room : ℕ
  srcMod : Option ℕ
  dstMod : Option ℕ

def Shape.put (a : Shape) (r : Reg) (v : Val) : Shape :=
  { a with regs := fun r' => if r' = r then v else a.regs r' }

theorem Shape.put_self (a : Shape) (r : Reg) (v : Val) : (a.put r v).regs r = v := if_pos rfl

theorem Shape.put_of_ne (a : Shape) {r r' : Reg} (h : r' ≠ r) (v : Val) :
    (a.put r v).regs r' = a.regs r' := if_neg h

variable {L : Type}

section

variable (c : Copy) (k : ℕ)

/-- The byte is as described. -/
def SymByte.Holds : SymByte → BitVec 8 → Prop
  | .zero, x => x = 0
  | .src i, x => x = c.mem (c.s.at (k + i))
  | .unknown, _ => True

/-- The value is as described, with the heads behind `k` bytes. -/
def Val.Holds : Val → BitVec 64 → Prop
  | .unknown, _ => True
  | .const z, v => v = BitVec.ofInt 64 z
  | .dest, v => v = c.d
  | .kept, v => v = c.kept
  | .src x, v => v = c.s + BitVec.ofInt 64 (k + x)
  | .dst x, v => v = c.d + BitVec.ofInt 64 (k + x)
  | .left x, v => v = BitVec.ofInt 64 (c.n - (k + x))
  | .data bs, v => ∀ b, b < 8 → (bs.getD b .zero).Holds c k (byteAt v b)
  | .masked u mask, v => ∃ w, u.Holds w ∧ v = w &&& BitVec.ofInt 64 mask

/-- The state is as described. -/
structure Fits (a : Shape) (st : State) : Prop where
  regs : ∀ r, (a.regs r).Holds c k (st.regs r)
  mem : st.mem = c.mem.move c.d c.s (k + a.done)

/-- The facts hold of the heads. -/
structure Facts.Valid (f : Facts) : Prop where
  room : k + f.room ≤ c.n
  src : ∀ m, f.srcMod = some m → (c.s.at k).toNat % 8 = m
  dst : ∀ m, f.dstMod = some m → (c.d.at k).toNat % 8 = m

end

/-! ### Running on descriptions -/

namespace Val

/-- Add a constant. -/
def add (imm : ℤ) : Val → Val
  | .const z => .const (z + imm)
  | .src x => .src (x + imm)
  | .dst x => .dst (x + imm)
  | .left x => .left (x - imm)
  | _ => .unknown

/-- The bytes of a value. -/
def bytes : Val → List SymByte
  | .data bs => bs.take 8
  | _ => List.replicate 8 .unknown

/-- Shift right by `sh` bytes. -/
def shiftRight (sh : ℕ) (v : Val) : Val := .data (v.bytes.drop sh)

/-- Shift left by `sh` bytes. -/
def shiftLeft (sh : ℕ) (v : Val) : Val := .data (List.replicate sh .zero ++ v.bytes)

end Val

/-- The bits of either byte, where one is zero. -/
def SymByte.or : SymByte → SymByte → SymByte
  | .zero, y => y
  | x, .zero => x
  | _, _ => .unknown

def Val.or (v w : Val) : Val :=
  .data ((List.range 8).map fun b => (v.bytes.getD b .zero).or (w.bytes.getD b .zero))

/-- The `w` bytes of the source from an offset on. -/
def sourceBytes (i w : ℕ) : List SymByte := (List.range w).map fun b => .src (i + b)

/-- Whether an access of `w` bytes at an offset is aligned. -/
def aligned (mod : Option ℕ) (i w : ℕ) : Bool :=
  match mod with
  | none => w == 1
  | some m => (m + i) % w == 0

/-- The offset in the source of a load of `w` bytes not yet overwritten. -/
def symLoad (f : Facts) (a : Shape) (off : ℤ) (base : Reg) (w : ℕ) : Option ℕ :=
  match a.regs base with
  | .src x =>
      if 0 ≤ x + off ∧ a.done ≤ (x + off).toNat ∧ (x + off).toNat + w ≤ f.room ∧
          aligned f.srcMod (x + off).toNat w then
        some (x + off).toNat
      else none
  | _ => none

/-- Store the `w` bytes that come next. -/
def symStore (f : Facts) (a : Shape) (rs : Reg) (off : ℤ) (base : Reg) (w : ℕ) : Option Shape :=
  match a.regs base with
  | .dst x =>
      if x + off = a.done ∧ a.done + w ≤ f.room ∧ aligned f.dstMod a.done w ∧
          (a.regs rs).bytes.take w = sourceBytes a.done w then
        some { a with done := a.done + w }
      else none
  | _ => none

/-- Run an instruction on a description. -/
def symStep (f : Facts) (a : Shape) : Instr L → Option Shape
  | .mv rd rs => some (a.put rd (a.regs rs))
  | .li rd imm => some (a.put rd (.const imm))
  | .addi rd rs imm => some (a.put rd ((a.regs rs).add imm))
  | .andi rd rs imm => some (a.put rd (.masked (a.regs rs) imm))
  | .or rd rs₁ rs₂ => some (a.put rd ((a.regs rs₁).or (a.regs rs₂)))
  | .slli rd rs sh =>
      if 8 * (sh / 8) = sh then some (a.put rd ((a.regs rs).shiftLeft (sh / 8))) else none
  | .srli rd rs sh =>
      if 8 * (sh / 8) = sh then some (a.put rd ((a.regs rs).shiftRight (sh / 8))) else none
  | .lbu rd off base => (symLoad f a off base 1).map fun i => a.put rd (.data (sourceBytes i 1))
  | .lw rd off base => (symLoad f a off base 4).map fun i =>
      a.put rd (.data (sourceBytes i 4 ++ List.replicate 4 .unknown))
  | .ld rd off base => (symLoad f a off base 8).map fun i => a.put rd (.data (sourceBytes i 8))
  | .sb rs off base => symStore f a rs off base 1
  | .sw rs off base => symStore f a rs off base 4
  | .sd rs off base => symStore f a rs off base 8
  | _ => none

def symBlock (f : Facts) : List (Instr L) → Shape → Option Shape
  | [], a => some a
  | i :: is, a => (symStep f a i).bind (symBlock f is)

/-- The byte seen from heads `j` bytes further on. -/
def SymByte.rebase (j : ℕ) : SymByte → SymByte
  | .src i => if j ≤ i then .src (i - j) else .unknown
  | x => x

/-- The value seen from heads `j` bytes further on. -/
def Val.rebase (j : ℕ) : Val → Val
  | .src x => .src (x - j)
  | .dst x => .dst (x - j)
  | .left x => .left (x - j)
  | .data bs => .data (bs.map (SymByte.rebase j))
  | .masked u mask => .masked (u.rebase j) mask
  | v => v

def allRegs : List Reg := [.gp, .sp, .a0, .a1, .a2, .a3, .a4, .a5, .a6, .a7, .t0, .t1, .t2, .t3]

/-- The shape says no more than another does, seen from heads `j` bytes further on. -/
def Shape.covers (a' : Shape) (j : ℕ) (a : Shape) : Bool :=
  a.done == j + a'.done && allRegs.all fun r =>
    a'.regs r == .unknown || a'.regs r == (a.regs r).rebase j

/-- The block takes the shape `a` to the shape `a'`, with the heads `j` bytes
further on. -/
def check (f : Facts) (a : Shape) (is : List (Instr L)) (j : ℕ) (a' : Shape) : Bool :=
  match symBlock f is a with
  | none => false
  | some a₁ => a'.covers j a₁

/-! ### Soundness -/

section

variable {c : Copy} {k : ℕ} {v w : Val} {x y : BitVec 64}

theorem Val.Holds.add (imm : ℤ) (h : v.Holds c k x) :
    (v.add imm).Holds c k (x + BitVec.ofInt 64 imm) := by
  cases v with
  | const z => rw [show x = _ from h, ← BitVec.ofInt_add]; rfl
  | src z => rw [show x = _ from h, BitVec.add_assoc, ← BitVec.ofInt_add, Int.add_assoc]; rfl
  | dst z => rw [show x = _ from h, BitVec.add_assoc, ← BitVec.ofInt_add, Int.add_assoc]; rfl
  | left z =>
    have hsum : (c.n : ℤ) - (k + z) + imm = c.n - (k + (z - imm)) := by omega
    rw [show x = _ from h, ← BitVec.ofInt_add, hsum]
    rfl
  | unknown => exact trivial
  | dest => exact trivial
  | kept => exact trivial
  | data bs => exact trivial
  | masked u mask => exact trivial

/-- The bytes of a described value. -/
theorem Val.Holds.bytes (h : v.Holds c k x) {b : ℕ} (hb : b < 8) :
    (v.bytes.getD b .zero).Holds c k (byteAt x b) := by
  have hany : ((List.replicate 8 SymByte.unknown).getD b .zero).Holds c k (byteAt x b) := by
    rw [List.getD_eq_getElem?_getD, List.getElem?_replicate, if_pos hb]
    exact trivial
  cases v with
  | data bs =>
    have hbyte := h b hb
    rw [Val.bytes, List.getD_eq_getElem?_getD, List.getElem?_take_of_lt hb]
    rwa [List.getD_eq_getElem?_getD] at hbyte
  | unknown => exact hany
  | const z => exact hany
  | dest => exact hany
  | kept => exact hany
  | src z => exact hany
  | dst z => exact hany
  | left z => exact hany
  | masked u mask => exact hany

theorem length_bytes_le (v : Val) : v.bytes.length ≤ 8 := by
  cases v with
  | data bs => exact List.length_take_le 8 bs
  | _ => exact Nat.le_refl 8

theorem Val.Holds.shiftRight (sh : ℕ) (h : v.Holds c k x) :
    (v.shiftRight sh).Holds c k (x >>> (8 * sh)) := by
  intro b hb
  rw [byteAt_ushiftRight, List.getD_eq_getElem?_getD, List.getElem?_drop]
  rcases Nat.lt_or_ge (sh + b) 8 with hin | hout
  · rw [← List.getD_eq_getElem?_getD]
    exact h.bytes hin
  · have hlen := length_bytes_le v
    rw [List.getElem?_eq_none (by omega), byteAt_of_ge x hout]
    exact rfl

theorem Val.Holds.shiftLeft (sh : ℕ) (h : v.Holds c k x) :
    (v.shiftLeft sh).Holds c k (x <<< (8 * sh)) := by
  intro b hb
  rw [byteAt_shiftLeft x sh hb, List.getD_eq_getElem?_getD, List.getElem?_append,
    List.length_replicate]
  rcases Nat.lt_or_ge b sh with hlow | hhigh
  · rw [if_pos hlow, if_pos hlow, List.getElem?_replicate, if_pos hlow]
    exact rfl
  · rw [if_neg (Nat.not_lt.mpr hhigh), if_neg (Nat.not_lt.mpr hhigh),
      ← List.getD_eq_getElem?_getD]
    exact h.bytes (by omega)

theorem SymByte.Holds.or {p q : SymByte} {x y : BitVec 8} (hp : p.Holds c k x)
    (hq : q.Holds c k y) : (p.or q).Holds c k (x ||| y) := by
  have hzero : ∀ z : BitVec 8, 0 ||| z = z ∧ z ||| 0 = z := fun z =>
    ⟨BitVec.zero_or, BitVec.or_zero⟩
  cases p with
  | zero =>
    rw [show x = 0 from hp, (hzero y).1]
    exact hq
  | src i =>
    cases q with
    | zero =>
      rw [show y = 0 from hq, (hzero x).2]
      exact hp
    | src j => exact trivial
    | unknown => exact trivial
  | unknown =>
    cases q with
    | zero => exact trivial
    | src j => exact trivial
    | unknown => exact trivial

theorem Val.Holds.or (hv : v.Holds c k x) (hw : w.Holds c k y) :
    (v.or w).Holds c k (x ||| y) := by
  intro b hb
  rw [byteAt_or, List.getD_eq_getElem?_getD, List.getElem?_map, List.getElem?_range hb]
  exact (hv.bytes hb).or (hw.bytes hb)

theorem length_sourceBytes (i m : ℕ) : (sourceBytes i m).length = m := by
  rw [sourceBytes, List.length_map, List.length_range]

/-- A register that holds bytes of the source. -/
theorem getD_sourceBytes {i m b : ℕ} (hb : b < m) :
    (sourceBytes i m).getD b .zero = .src (i + b) := by
  rw [sourceBytes, List.getD_eq_getElem?_getD, List.getElem?_map, List.getElem?_range hb]
  rfl

end

section

variable {c : Copy} {k : ℕ} {f : Facts} {a a' : Shape} {st : State}

theorem Fits.put (h : Fits c k a st) (r : Reg) {v : Val} {x : BitVec 64} (hv : v.Holds c k x) :
    Fits c k (a.put r v) (st.put r x) := by
  refine ⟨?_, h.mem⟩
  intro r'
  rcases Decidable.em (r' = r) with rfl | hne
  · rw [Shape.put_self, State.put_self]
    exact hv
  · rw [Shape.put_of_ne a hne, State.put_of_ne _ hne]
    exact h.regs r'

/-- A register of which nothing is to be known. -/
theorem Fits.forget (h : Fits c k a st) (r : Reg) (x : BitVec 64) :
    Fits c k (a.put r .unknown) (st.put r x) := h.put r trivial

/-- The address of an access at an offset from the heads. -/
theorem at_of_offset (p : Addr) {x off : ℤ} (i : ℕ) (h : x + off = i) :
    p + BitVec.ofInt 64 (k + x) + BitVec.ofInt 64 off = p.at (k + i) := by
  have hsum : (k : ℤ) + x + off = ((k + i : ℕ) : ℤ) := by omega
  rw [BitVec.add_assoc, ← BitVec.ofInt_add, hsum, BitVec.ofInt_natCast, Addr.at]

/-- The alignment of an access at an offset from the heads. -/
theorem mod_of_aligned {p : Addr} {mod : Option ℕ} {i w : ℕ}
    (hmod : ∀ m, mod = some m → (p.at k).toNat % 8 = m) (hw : w ∣ 8)
    (h : aligned mod i w = true) : (p.at (k + i)).toNat % w = 0 := by
  cases mod with
  | none =>
    rw [eq_of_beq h]
    exact Nat.mod_one _
  | some m =>
    have hm := hmod m rfl
    have hi : (m + i) % w = 0 := eq_of_beq h
    have hnat : (p.at (k + i)).toNat = ((p.at k).toNat + i) % 2 ^ 64 := by
      rw [← Addr.at_at, Addr.at, BitVec.toNat_add, BitVec.toNat_ofNat, Nat.add_mod_mod]
    have hdvd : w ∣ 2 ^ 64 := Nat.dvd_trans hw ⟨2 ^ 61, by decide⟩
    rw [hnat, Nat.mod_mod_of_dvd _ hdvd, Nat.add_mod, ← Nat.mod_mod_of_dvd (p.at k).toNat hw, hm,
      ← Nat.add_mod, hi]

variable {env : Env L}

/-- A load that checks is allowed, and loads bytes of the source. -/
theorem symLoad_sound (h : Fits c k a st) (hf : f.Valid c k) (hup : c.Upward)
    (huse : c.Usable env) {off : ℤ} {base : Reg} {w i : ℕ} (hw : w ∣ 8)
    (hsym : symLoad f a off base w = some i) :
    allowed env.readable (st.addr off base) w ∧
      ∀ b, b < 8 → byteAt (st.mem.load (st.addr off base) w) b =
        if b < w then c.mem (c.s.at (k + (i + b))) else 0 := by
  have hroom := hf.room
  unfold symLoad at hsym
  split at hsym
  · rename_i x hbase
    obtain ⟨⟨hpos, hdone, hin, hal⟩, hi⟩ := Option.ite_none_right_eq_some.mp hsym
    have hi := Option.some.inj hi
    rw [hi] at hdone hin hal
    have haddr : st.addr off base = c.s.at (k + i) := by
      have hreg := h.regs base
      rw [hbase] at hreg
      rw [State.addr, show st.regs base = _ from hreg]
      exact at_of_offset c.s i (by omega)
    rw [haddr]
    refine ⟨⟨mod_of_aligned hf.src hw hal, ?_⟩, ?_⟩
    · intro b hb
      rw [Addr.at_at]
      exact huse.src _ (by omega)
    · intro b hb
      rw [byteAt_load _ _ hb, h.mem, Addr.at_at, Nat.add_assoc]
      refine if_ctx_congr Iff.rfl ?_ fun _ => rfl
      intro hbw
      exact c.mem.move_of_not_mem _ _ fun j hj => hup j _ (by omega) (by omega)
  · cases hsym

/-- A store that checks is allowed, and moves the copy on. -/
theorem symStore_sound (h : Fits c k a st) (hf : f.Valid c k) (hn : c.n ≤ 2 ^ 64)
    (huse : c.Usable env) {rs base : Reg} {off : ℤ} {w : ℕ} (hw : w ∣ 8)
    (hsym : symStore f a rs off base w = some a') :
    ∃ st', storeEffect env st rs (st.addr off base) w = .next st' ∧ Fits c k a' st' := by
  have hroom := hf.room
  have hw₈ : w ≤ 8 := Nat.le_of_dvd (by decide) hw
  unfold symStore at hsym
  split at hsym
  · rename_i x hbase
    obtain ⟨⟨hoff, hin, hal, hbytes⟩, ha⟩ := Option.ite_none_right_eq_some.mp hsym
    obtain rfl := Option.some.inj ha
    have haddr : st.addr off base = c.d.at (k + a.done) := by
      have hreg := h.regs base
      rw [hbase] at hreg
      rw [State.addr, show st.regs base = _ from hreg]
      exact at_of_offset c.d a.done hoff
    have hallowed : allowed env.writable (st.addr off base) w := by
      rw [haddr]
      refine ⟨mod_of_aligned hf.dst hw hal, ?_⟩
      intro b hb
      rw [Addr.at_at]
      exact huse.dst _ (by omega)
    refine ⟨_, if_pos hallowed, h.regs, ?_⟩
    have hv : ∀ b, b < w → byteAt (st.regs rs) b = c.mem (c.s.at (k + a.done + b)) := by
      intro b hb
      have hbyte := (h.regs rs).bytes (b := b) (by omega)
      have hsrc := getD_sourceBytes (i := a.done) hb
      rw [← hbytes, List.getD_eq_getElem?_getD, List.getElem?_take_of_lt hb,
        ← List.getD_eq_getElem?_getD] at hsrc
      rw [hsrc] at hbyte
      rw [Nat.add_assoc]
      exact hbyte
    rw [haddr, h.mem, c.mem.store_move _ _ (by omega) hv, Nat.add_assoc]
  · cases hsym

/-- A load that checks puts the bytes of the source in its register. -/
theorem symLoad_put (h : Fits c k a st) (hf : f.Valid c k) (hup : c.Upward)
    (huse : c.Usable env) {rd base : Reg} {off : ℤ} {w i : ℕ} (hw : w ∣ 8)
    (hsym : symLoad f a off base w = some i) :
    ∃ st', loadEffect env st rd (st.addr off base) w id = .next st' ∧
      Fits c k (a.put rd (.data (sourceBytes i w))) st' := by
  obtain ⟨hallowed, hbytes⟩ := symLoad_sound h hf hup huse hw hsym
  refine ⟨_, if_pos hallowed, h.put rd ?_⟩
  intro b hb
  rw [id, hbytes b hb]
  rcases Nat.lt_or_ge b w with hin | hout
  · rw [if_pos hin, getD_sourceBytes hin]
    exact rfl
  · have hlen := length_sourceBytes i w
    rw [if_neg (Nat.not_lt.mpr hout), List.getD_eq_getElem?_getD,
      List.getElem?_eq_none (by omega)]
    exact rfl

/-- The low bytes of a word whose sign is extended. -/
theorem byteAt_signExtend (v : BitVec 64) {b : ℕ} (hb : b < 4) :
    byteAt ((v.setWidth 32).signExtend 64) b = byteAt v b := by
  apply BitVec.eq_of_getLsbD_eq
  intro i hi
  have hlow : 8 * b + i < 32 := by omega
  have hin : 8 * b + i < 64 := by omega
  rw [getLsbD_byteAt, getLsbD_byteAt, BitVec.getLsbD_signExtend]
  simp [hlow, hin]

/-- **One instruction on descriptions.** -/
theorem symStep_sound (h : Fits c k a st) (hf : f.Valid c k) (hup : c.Upward)
    (hn : c.n ≤ 2 ^ 64) (huse : c.Usable env) {i : Instr L} (hsym : symStep f a i = some a') :
    ∃ st', i.exec env st = .next st' ∧ Fits c k a' st' := by
  cases i with
  | mv rd rs =>
    obtain rfl := Option.some.inj hsym
    exact ⟨_, rfl, h.put rd (h.regs rs)⟩
  | li rd imm =>
    obtain rfl := Option.some.inj hsym
    exact ⟨_, rfl, h.put rd rfl⟩
  | addi rd rs imm =>
    obtain rfl := Option.some.inj hsym
    exact ⟨_, rfl, h.put rd ((h.regs rs).add imm)⟩
  | andi rd rs imm =>
    obtain rfl := Option.some.inj hsym
    exact ⟨_, rfl, h.put rd ⟨_, h.regs rs, rfl⟩⟩
  | or rd rs₁ rs₂ =>
    obtain rfl := Option.some.inj hsym
    exact ⟨_, rfl, h.put rd ((h.regs rs₁).or (h.regs rs₂))⟩
  | slli rd rs sh =>
    obtain ⟨hsh, ha⟩ := Option.ite_none_right_eq_some.mp hsym
    obtain rfl := Option.some.inj ha
    have hshift := (h.regs rs).shiftLeft (sh / 8)
    rw [hsh] at hshift
    exact ⟨_, rfl, h.put rd hshift⟩
  | srli rd rs sh =>
    obtain ⟨hsh, ha⟩ := Option.ite_none_right_eq_some.mp hsym
    obtain rfl := Option.some.inj ha
    have hshift := (h.regs rs).shiftRight (sh / 8)
    rw [hsh] at hshift
    exact ⟨_, rfl, h.put rd hshift⟩
  | lbu rd off base =>
    obtain ⟨i, hload, rfl⟩ := Option.map_eq_some_iff.mp hsym
    exact symLoad_put h hf hup huse (by decide) hload
  | ld rd off base =>
    obtain ⟨i, hload, rfl⟩ := Option.map_eq_some_iff.mp hsym
    exact symLoad_put h hf hup huse (by decide) hload
  | lw rd off base =>
    obtain ⟨i, hload, rfl⟩ := Option.map_eq_some_iff.mp hsym
    obtain ⟨hallowed, hbytes⟩ := symLoad_sound h hf hup huse (by decide) hload
    refine ⟨_, if_pos hallowed, h.put rd ?_⟩
    intro b hb
    rw [List.getD_eq_getElem?_getD, List.getElem?_append, length_sourceBytes]
    rcases Nat.lt_or_ge b 4 with hin | hout
    · have hword := hbytes b hb
      rw [if_pos hin, ← byteAt_signExtend _ hin] at hword
      rw [if_pos hin, ← List.getD_eq_getElem?_getD, getD_sourceBytes hin]
      exact hword
    · have hhigh : b - 4 < 4 := by omega
      rw [if_neg (Nat.not_lt.mpr hout), List.getElem?_replicate, if_pos hhigh]
      exact trivial
  | sb rs off base => exact symStore_sound h hf hn huse (by decide) hsym
  | sw rs off base => exact symStore_sound h hf hn huse (by decide) hsym
  | sd rs off base => exact symStore_sound h hf hn huse (by decide) hsym
  | sdz off base => cases hsym
  | beq rs₁ rs₂ target => cases hsym
  | lla rd sym => cases hsym
  | add rd rs₁ rs₂ => cases hsym
  | beqz rs target => cases hsym
  | bnez rs target => cases hsym
  | bne rs₁ rs₂ target => cases hsym
  | bltu rs₁ rs₂ target => cases hsym
  | bgeu rs₁ rs₂ target => cases hsym
  | j target => cases hsym
  | jr rs => cases hsym
  | call target => cases hsym
  | ret => cases hsym

theorem symBlock_sound (hf : f.Valid c k) (hup : c.Upward) (hn : c.n ≤ 2 ^ 64)
    (huse : c.Usable env) : ∀ {is : List (Instr L)} {a : Shape} {st : State}, Fits c k a st →
      symBlock f is a = some a' → ∃ st', block env is st = some st' ∧ Fits c k a' st'
  | [], a, st, h, hsym => by
      obtain rfl := Option.some.inj hsym
      exact ⟨st, rfl, h⟩
  | i :: is, a, st, h, hsym => by
      obtain ⟨a₁, hstep, hrest⟩ := Option.bind_eq_some_iff.mp hsym
      obtain ⟨st₁, hexec, h₁⟩ := symStep_sound h hf hup hn huse hstep
      obtain ⟨st₂, hblock, h₂⟩ := symBlock_sound hf hup hn huse h₁ hrest
      refine ⟨st₂, ?_, h₂⟩
      rw [block, hexec]
      exact hblock

/-- The heads may be taken further on. -/
theorem Val.Holds.rebase (j : ℕ) {v : Val} : ∀ {x : BitVec 64}, v.Holds c k x →
    (v.rebase j).Holds c (k + j) x := by
  have hsum : ∀ z : ℤ, ((k + j : ℕ) : ℤ) + (z - j) = k + z := fun z => by omega
  induction v with
  | src z =>
    intro x h
    rw [Val.rebase, Val.Holds, hsum]
    exact h
  | dst z =>
    intro x h
    rw [Val.rebase, Val.Holds, hsum]
    exact h
  | left z =>
    intro x h
    rw [Val.rebase, Val.Holds, hsum]
    exact h
  | data bs =>
    intro x h b hb
    have hbyte := h b hb
    have hmap : (bs.map (SymByte.rebase j)).getD b .zero = (bs.getD b .zero).rebase j := by
      rw [List.getD_eq_getElem?_getD, List.getElem?_map, List.getD_eq_getElem?_getD]
      cases bs[b]? with
      | none => rfl
      | some p => rfl
    rw [hmap]
    cases hp : bs.getD b .zero with
    | zero => rwa [hp] at hbyte
    | unknown => exact trivial
    | src i =>
      rw [hp] at hbyte
      rw [SymByte.rebase]
      rcases Nat.lt_or_ge i j with hlow | hhigh
      · rw [if_neg (Nat.not_le.mpr hlow)]
        exact trivial
      · have hoff : k + j + (i - j) = k + i := by omega
        rw [if_pos hhigh, SymByte.Holds, hoff]
        exact hbyte
  | masked u mask ih =>
    intro x h
    obtain ⟨w, hw, hx⟩ := h
    exact ⟨w, ih hw, hx⟩
  | unknown => exact fun h => h
  | const z => exact fun h => h
  | dest => exact fun h => h
  | kept => exact fun h => h

theorem mem_allRegs (r : Reg) : r ∈ allRegs := by
  cases r <;> decide

/-- A state fits the shapes that say less, with the heads taken further on. -/
theorem Fits.of_covers {j : ℕ} (hcov : a'.covers j a = true) (h : Fits c k a st) :
    Fits c (k + j) a' st := by
  obtain ⟨hdone, hregs⟩ := Bool.and_eq_true_iff.mp hcov
  constructor
  · intro r
    have hr := List.all_eq_true.mp hregs r (mem_allRegs r)
    rcases Bool.or_eq_true_iff.mp hr with hany | heq
    · rw [eq_of_beq hany]
      exact trivial
    · rw [eq_of_beq heq]
      exact (h.regs r).rebase j
  · rw [h.mem, eq_of_beq hdone, Nat.add_assoc]

/-- **A block that checks** runs through, and takes the states of the one shape
to those of the other. -/
theorem check_sound {is : List (Instr L)} {j : ℕ} (hcheck : check f a is j a' = true)
    (h : Fits c k a st) (hf : f.Valid c k) (hup : c.Upward) (hn : c.n ≤ 2 ^ 64)
    (huse : c.Usable env) : ∃ st', block env is st = some st' ∧ Fits c (k + j) a' st' := by
  unfold check at hcheck
  split at hcheck
  · cases hcheck
  · rename_i a₁ hsym
    obtain ⟨st', hblock, h₁⟩ := symBlock_sound hf hup hn huse h hsym
    exact ⟨st', hblock, h₁.of_covers hcheck⟩

end

end Riscv64
