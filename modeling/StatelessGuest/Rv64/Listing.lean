import StatelessGuest.Riscv.Asm64

/-!
# `memcpy` and `memmove` on SP1 and ZisK

The two guests use one `memcpy` in assembly.  It aligns the source by single
bytes, then copies aligned ranges by double words, and ranges whose destination
is not aligned by merging neighbouring double words, in one of seven loops found
through a jump table; what is left is copied by its binary digits.  The guests
differ in the table, whose entries are words on SP1 and double words on ZisK.

## Main definitions

* `memcpyListing`, `memcpy` — the assembly, and a call of it.
* `memmove` — the function, with `memcpy` run on the machine.
* `Linked` — the jump table in memory.
-/

namespace StatelessGuest.Rv64

open Riscv64 Riscv64.Reg Riscv64.Instr

/-! ### The source -/

/-- The labels of `memcpy`: `.LBBmemcpy0_3` and so on, and the jump table
`.LJTI0_0`. -/
inductive CpyLabel
  | memcpy
  | bb3 | bb5 | bb6 | bb7 | bb9 | bb10 | bb11 | bb12
  | bb13 | bb14 | bb16 | bb17 | bb19 | bb20 | bb22 | bb23 | bb24 | bb25
  | bb26 | bb27 | bb29 | bb30 | bb32 | bb33 | bb35 | bb36 | bb38 | bb39 | bb41 | bb42
  | bb44 | bb45 | bb46 | bb47 | bb48 | bb50 | bb51 | bb52
  | jti
  deriving DecidableEq, Repr

open Rv64.CpyLabel

/-- The guests with this `memcpy`; they differ in the entries of the jump table. -/
inductive Target
  | sp1
  | zisk
  deriving DecidableEq, Repr

/-- The shift of an index into the table. -/
def Target.shift : Target → ℕ
  | .sp1 => 2
  | .zisk => 3

/-- Load an entry: a word on SP1, a double word on ZisK. -/
def Target.load (rd : Reg) (off : ℤ) (base : Reg) : Target → Instr CpyLabel
  | .sp1 => lw rd off base
  | .zisk => ld rd off base

/-- The entries, for the destination offsets from one. -/
def tableEntries : List CpyLabel := [bb13, bb35, bb29, bb32, bb26, bb38, bb41]

/-- One pass of a merging loop: thirty-two bytes. -/
def mergePass (shl shr : ℕ) : List (Instr CpyLabel) :=
  [srli a6 a4 shr,
    ld a7 (-24) a1,
    ld t0 (-16) a1,
    ld t1 (-8) a1,
    ld a4 0 a1,
    slli t2 a7 shl,
    srli a7 a7 shr,
    or a6 t2 a6,
    slli t2 t0 shl,
    srli t0 t0 shr,
    or a7 t2 a7,
    slli t2 t1 shl,
    srli t1 t1 shr,
    or t0 t2 t0,
    slli t2 a4 shl,
    or t1 t2 t1,
    addi a2 a2 (-32),
    sd a6 0 a3,
    sd a7 8 a3,
    sd t0 16 a3,
    sd t1 24 a3,
    addi a3 a3 32,
    addi a1 a1 32]

/-- A merging loop and the way out of it. -/
def mergeLoop (shl shr : ℕ) (self : CpyLabel) (back : ℤ) : List (Instr CpyLabel) :=
  mergePass shl shr ++
    [bltu a5 a2 self,
    addi a1 a1 back,
    li a4 32,
    bltu a2 a4 bb9]

/-- The bytes before the merging loop, by the offset of the destination. -/
def mergeLead : ℕ → List (Instr CpyLabel)
  | 1 => [srli a5 a4 8,
      srli a6 a4 16,
      srli a7 a4 24,
      srli t0 a4 32,
      srli t1 a4 40,
      sb a4 0 a3,
      sb a5 1 a3,
      sb a6 2 a3,
      sb a7 3 a3,
      srli a5 a4 48,
      addi a2 a2 (-7),
      sb t0 4 a3,
      sb t1 5 a3,
      sb a5 6 a3,
      addi a3 a3 7,
      addi a1 a1 32,
      li a5 32]
  | 2 => [srli a5 a4 8,
      srli a6 a4 16,
      srli a7 a4 24,
      srli t0 a4 32,
      sb a4 0 a3,
      sb a5 1 a3,
      sb a6 2 a3,
      sb a7 3 a3,
      srli a5 a4 40,
      addi a2 a2 (-6),
      sb t0 4 a3,
      sb a5 5 a3,
      addi a3 a3 6,
      addi a1 a1 32,
      li a5 33]
  | 3 => [srli a5 a4 8,
      srli a6 a4 16,
      srli a7 a4 24,
      srli t0 a4 32,
      addi a2 a2 (-5),
      sb a4 0 a3,
      sb a5 1 a3,
      sb a6 2 a3,
      sb a7 3 a3,
      sb t0 4 a3,
      addi a3 a3 5,
      addi a1 a1 32,
      li a5 34]
  | 4 => [srli a5 a4 8,
      srli a6 a4 16,
      srli a7 a4 24,
      addi a2 a2 (-4),
      sb a4 0 a3,
      sb a5 1 a3,
      sb a6 2 a3,
      sb a7 3 a3,
      addi a3 a3 4,
      addi a1 a1 32,
      li a5 35]
  | 5 => [srli a5 a4 8,
      srli a6 a4 16,
      addi a2 a2 (-3),
      sb a4 0 a3,
      sb a5 1 a3,
      sb a6 2 a3,
      addi a3 a3 3,
      addi a1 a1 32,
      li a5 36]
  | 6 => [srli a5 a4 8,
      addi a2 a2 (-2),
      sb a4 0 a3,
      sb a5 1 a3,
      addi a3 a3 2,
      addi a1 a1 32,
      li a5 37]
  | 7 => [sb a4 0 a3,
      addi a3 a3 1,
      addi a2 a2 (-1),
      addi a1 a1 32,
      li a5 38]
  | _ => []

/-- One byte of the source by single bytes. -/
def bytePass : List (Instr CpyLabel) :=
  [lbu a7 0 a1,
    mv a6 a2,
    addi a1 a1 1,
    andi t0 a4 7,
    sb a7 0 a3,
    addi a3 a3 1,
    addi a2 a2 (-1)]

/-- Thirty-two bytes between aligned ranges. -/
def dwordPass : List (Instr CpyLabel) :=
  [ld a5 0 a1,
    ld a6 8 a1,
    ld a7 16 a1,
    ld t0 24 a1,
    addi a1 a1 32,
    addi a2 a2 (-32),
    sd a5 0 a3,
    sd a6 8 a3,
    sd a7 16 a3,
    sd t0 24 a3,
    addi a3 a3 32]

/-- Sixteen bytes between aligned ranges. -/
def dword16 : List (Instr CpyLabel) :=
  [ld a4 0 a1,
    ld a5 8 a1,
    sd a4 0 a3,
    sd a5 8 a3,
    addi a3 a3 16,
    addi a1 a1 16]

/-- Eight bytes between aligned ranges. -/
def dword8 : List (Instr CpyLabel) :=
  [ld a4 0 a1,
    addi a1 a1 8,
    sd a4 0 a3,
    addi a3 a3 8]

/-- Four bytes between aligned ranges. -/
def word4 : List (Instr CpyLabel) :=
  [lw a4 0 a1,
    addi a1 a1 4,
    sw a4 0 a3,
    addi a3 a3 4]

/-- Thirty-two single bytes. -/
def bytes32 : List (Instr CpyLabel) :=
  [lbu a4 0 a1, lbu a5 1 a1,
    lbu a6 2 a1, lbu a7 3 a1,
    lbu t0 4 a1, lbu t1 5 a1,
    lbu t2 6 a1, lbu t3 7 a1,
    sb a4 0 a3, sb a5 1 a3,
    sb a6 2 a3, sb a7 3 a3,
    lbu a4 8 a1, lbu a5 9 a1,
    lbu a6 10 a1, lbu a7 11 a1,
    sb t0 4 a3, sb t1 5 a3,
    sb t2 6 a3, sb t3 7 a3,
    lbu t0 12 a1, lbu t1 13 a1,
    lbu t2 14 a1, lbu t3 15 a1,
    sb a4 8 a3, sb a5 9 a3,
    sb a6 10 a3, sb a7 11 a3,
    lbu a4 16 a1, lbu a5 17 a1,
    lbu a6 18 a1, lbu a7 19 a1,
    sb t0 12 a3, sb t1 13 a3,
    sb t2 14 a3, sb t3 15 a3,
    lbu t0 20 a1, lbu t1 21 a1,
    lbu t2 22 a1, lbu t3 23 a1,
    sb a4 16 a3, sb a5 17 a3,
    sb a6 18 a3, sb a7 19 a3,
    lbu a4 24 a1, lbu a5 25 a1,
    lbu a6 26 a1, lbu a7 27 a1,
    sb t0 20 a3, sb t1 21 a3,
    sb t2 22 a3, sb t3 23 a3,
    lbu t0 28 a1, lbu t1 29 a1,
    lbu t2 30 a1, lbu t3 31 a1,
    addi a1 a1 32,
    sb a4 24 a3, sb a5 25 a3,
    sb a6 26 a3, sb a7 27 a3,
    addi a4 a3 32,
    sb t0 28 a3, sb t1 29 a3,
    sb t2 30 a3, sb t3 31 a3,
    mv a3 a4]

/-- Sixteen single bytes. -/
def bytes16 : List (Instr CpyLabel) :=
  [lbu a4 0 a1, lbu a5 1 a1,
    lbu a6 2 a1, lbu a7 3 a1,
    lbu t0 4 a1, lbu t1 5 a1,
    lbu t2 6 a1, lbu t3 7 a1,
    sb a4 0 a3, sb a5 1 a3,
    sb a6 2 a3, sb a7 3 a3,
    lbu a4 8 a1, lbu a5 9 a1,
    lbu a6 10 a1, lbu a7 11 a1,
    sb t0 4 a3, sb t1 5 a3,
    sb t2 6 a3, sb t3 7 a3,
    lbu t0 12 a1, lbu t1 13 a1,
    lbu t2 14 a1, lbu t3 15 a1,
    addi a1 a1 16,
    sb a4 8 a3, sb a5 9 a3,
    sb a6 10 a3, sb a7 11 a3,
    addi a4 a3 16,
    sb t0 12 a3, sb t1 13 a3,
    sb t2 14 a3, sb t3 15 a3,
    mv a3 a4]

/-- Eight single bytes. -/
def bytes8 : List (Instr CpyLabel) :=
  [lbu a4 0 a1, lbu a5 1 a1,
    lbu a6 2 a1, lbu a7 3 a1,
    lbu t0 4 a1, lbu t1 5 a1,
    lbu t2 6 a1, lbu t3 7 a1,
    addi a1 a1 8,
    sb a4 0 a3, sb a5 1 a3,
    sb a6 2 a3, sb a7 3 a3,
    addi a4 a3 8,
    sb t0 4 a3, sb t1 5 a3,
    sb t2 6 a3, sb t3 7 a3,
    mv a3 a4]

/-- Four single bytes. -/
def bytes4 : List (Instr CpyLabel) :=
  [lbu a4 0 a1, lbu a5 1 a1,
    lbu a6 2 a1, lbu a7 3 a1,
    addi a1 a1 4,
    addi t0 a3 4,
    sb a4 0 a3, sb a5 1 a3,
    sb a6 2 a3, sb a7 3 a3,
    mv a3 t0]

/-- Two single bytes. -/
def bytes2 : List (Instr CpyLabel) :=
  [lbu a4 0 a1,
    lbu a5 1 a1,
    addi a1 a1 2,
    addi a6 a3 2,
    sb a4 0 a3,
    sb a5 1 a3,
    mv a3 a6]

/-- `memcpy`: `a0` is the destination, `a1` the source, `a2` the length. -/
def memcpyListing (t : Target) : Listing CpyLabel :=
  [(memcpy, [andi a3 a1 7,
      beqz a3 bb16,
      beqz a2 bb5,
      addi a4 a1 1,
      li a5 1,
      mv a3 a0]),
  (bb3, bytePass ++
      [beqz t0 bb6,
      addi a4 a4 1,
      bne a6 a5 bb3,
      j bb6]),
  (bb5, [mv a3 a0]),
  (bb6, [andi a4 a3 7,
      beqz a4 bb17]),
  (bb7, [li a5 64,
      bgeu a2 a5 bb12,
      li a4 32,
      bgeu a2 a4 bb44]),
  (bb9, [andi a4 a2 16,
      bnez a4 bb45]),
  (bb10, [andi a4 a2 8,
      bnez a4 bb46]),
  (bb11, [andi a4 a2 4,
      bnez a4 bb47,
      j bb48]),
  (bb12, [addi a4 a4 (-1),
      slli a4 a4 t.shift,
      lla a5 jti,
      add a4 a4 a5,
      t.load a5 0 a4,
      ld a4 0 a1,
      jr a5]),
  (bb13, mergeLead 1),
  (bb14, mergeLoop 8 56 bb14 (-25) ++ [j bb44]),
  (bb16, [mv a3 a0,
      andi a4 a0 7,
      bnez a4 bb7]),
  (bb17, [li a4 32,
      bltu a2 a4 bb20,
      li a4 31]),
  (bb19, dwordPass ++ [bltu a4 a2 bb19]),
  (bb20, [li a4 16,
      bgeu a2 a4 bb23,
      andi a4 a2 8,
      bnez a4 bb24]),
  (bb22, [andi a4 a2 4,
      bnez a4 bb25,
      j bb48]),
  (bb23, dword16 ++
      [andi a4 a2 8,
      beqz a4 bb22]),
  (bb24, dword8 ++
      [andi a4 a2 4,
      beqz a4 bb48]),
  (bb25, word4 ++ [j bb48]),
  (bb26, mergeLead 5),
  (bb27, mergeLoop 40 24 bb27 (-29) ++ [j bb44]),
  (bb29, mergeLead 3),
  (bb30, mergeLoop 24 40 bb30 (-27) ++ [j bb44]),
  (bb32, mergeLead 4),
  (bb33, mergeLoop 32 32 bb33 (-28) ++ [j bb44]),
  (bb35, mergeLead 2),
  (bb36, mergeLoop 16 48 bb36 (-26) ++ [j bb44]),
  (bb38, mergeLead 6),
  (bb39, mergeLoop 48 16 bb39 (-30) ++ [j bb44]),
  (bb41, mergeLead 7),
  (bb42, mergeLoop 56 8 bb42 (-31)),
  (bb44, bytes32 ++
      [andi a4 a2 16,
      beqz a4 bb10]),
  (bb45, bytes16 ++
      [andi a4 a2 8,
      beqz a4 bb11]),
  (bb46, bytes8 ++
      [andi a4 a2 4,
      beqz a4 bb48]),
  (bb47, bytes4),
  (bb48, [andi a4 a2 2,
      bnez a4 bb51,
      andi a2 a2 1,
      bnez a2 bb52]),
  (bb50, [ret]),
  (bb51, bytes2 ++
      [andi a2 a2 1,
      beqz a2 bb50]),
  (bb52, [lbu a1 0 a1,
      sb a1 0 a3,
      ret])]

/-- Call `memcpy`; the other registers hold whatever `regs` does. -/
def callMemcpy (t : Target) (env : Env CpyLabel) (fuel : ℕ) (regs : Reg → BitVec 64)
    (mem : Memory) (dest src n : Addr) : Outcome :=
  run env (memcpyListing t) fuel [] (memcpyListing t)
    ((({ regs, mem : State }.put a0 dest).put a1 src).put a2 n)

/-- The value and the memory a function returns, if it does. -/
def resultOf : Outcome → Option (Addr × Memory)
  | .returned s => some (s.regs a0, s.mem)
  | _ => none

/-- `memcpy`. -/
def memcpy (t : Target) (env : Env CpyLabel) (fuel : ℕ) (regs : Reg → BitVec 64) (mem : Memory)
    (dest src n : Addr) : Option (Addr × Memory) :=
  resultOf (callMemcpy t env fuel regs mem dest src n)

/-- `while (n--) *--d = *--s;` for a count of `n`; none if a byte may not be
used. -/
def copyBackward (env : Env CpyLabel) : ℕ → Addr → Addr → Memory → Option Memory
  | 0, _, _, mem => some mem
  | n + 1, d, s, mem =>
      if env.readable (s - 1) && env.writable (d - 1) then
        copyBackward env n (d - 1) (s - 1) (mem.store (d - 1) 1 (mem.load (s - 1) 1))
      else none

/-- `memmove`. -/
def memmove (t : Target) (env : Env CpyLabel) (fuel : ℕ) (regs : Reg → BitVec 64) (mem : Memory)
    (dest src n : Addr) : Option (Addr × Memory) :=
  if dest ≤ src ∨ dest ≥ src + n then memcpy t env fuel regs mem dest src n
  else (copyBackward env n.toNat (dest + n) (src + n) mem).map fun mem' => (dest, mem')

/-! ### The jump table -/

/-- The bytes of an entry. -/
def Target.width : Target → ℕ
  | .sp1 => 4
  | .zisk => 8

/-- What `.word` or `.dword` keeps of an address. -/
def Target.emit : Target → Addr → BitVec 64
  | .sp1, a => (a.setWidth 32).setWidth 64
  | .zisk, a => a

/-- The table lies in memory as the assembler and the linker put it there. -/
structure Linked (t : Target) (env : Env CpyLabel) (mem : Memory) : Prop where
  allowed : ∀ i, i < 7 → allowed env.readable ((env.place jti).at (t.width * i)) t.width
  entry : ∀ i l, tableEntries[i]? = some l →
    mem.load ((env.place jti).at (t.width * i)) t.width = t.emit (env.place l)
  /-- A word holds addresses below 2³¹ only, as it is loaded with its sign. -/
  low : ∀ l, l ∈ tableEntries → t = .sp1 → (env.place l).toNat < 2 ^ 31
  target : ∀ l, l ∈ tableEntries → env.labelAt (env.place l) = some l

end StatelessGuest.Rv64
