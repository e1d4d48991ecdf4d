import StatelessGuest.Riscv.Asm

/-!
# `memmove` on OpenVM

`memmove` hands every move but a backward-overlapping one to `memcpy`, which is
written in assembly and copies upwards, by words where both pointers are aligned.
So it relies on that direction where the destination lies below the source.

## Main definitions

* `memcpyListing` — the assembly of `memcpy`.
* `memmove` — the function, with `memcpy` run on the machine.

## Main results

* `wordLoop`, `byteLoop` — the two loops of `memcpy` copy upwards.
* `memmove_moves` — **`memmove` moves its range, for every overlap and alignment.**
-/

namespace StatelessGuest

open Riscv Riscv.Reg Riscv.Instr

/-! ### The source -/

/-- The labels of `memcpy`. -/
inductive CpyLabel
  | memcpy
  /-- `.Lcpy_word`. -/
  | cpyWord
  /-- `.Lcpy_byte`. -/
  | cpyByte
  /-- `.Lcpy_done`. -/
  | cpyDone
  deriving DecidableEq, Repr

open CpyLabel

/-- `memcpy`: `a0` is the destination, `a1` the source, `a2` the length. -/
def memcpyListing : List (Line CpyLabel) :=
  [.label memcpy,
    .instr (mv a3 a0),
    .instr (beqz a2 cpyDone),
    .instr (or a4 a0 a1),
    .instr (andi a4 a4 3),
    .instr (bnez a4 cpyByte),
  .label cpyWord,
    .instr (li a4 4),
    .instr (bltu a2 a4 cpyByte),
    .instr (lw a5 0 a1),
    .instr (sw a5 0 a0),
    .instr (addi a0 a0 4),
    .instr (addi a1 a1 4),
    .instr (addi a2 a2 (-4)),
    .instr (j cpyWord),
  .label cpyByte,
    .instr (beqz a2 cpyDone),
    .instr (lbu a4 0 a1),
    .instr (sb a4 0 a0),
    .instr (addi a0 a0 1),
    .instr (addi a1 a1 1),
    .instr (addi a2 a2 (-1)),
    .instr (j cpyByte),
  .label cpyDone,
    .instr (mv a0 a3),
    .instr ret]

/-- Call `memcpy`; the other registers hold whatever `regs` does. -/
def callMemcpy (fuel : ℕ) (regs : Reg → BitVec 32) (mem : Memory) (dest src n : Addr) : Outcome :=
  run memcpyListing fuel memcpyListing
    ((({ regs, mem : State }.put a0 dest).put a1 src).put a2 n)

/-- `while (n--) *--d = *--s;` for a count of `n`. -/
def copyBackward : ℕ → Addr → Addr → Memory → Memory
  | 0, _, _, mem => mem
  | n + 1, d, s, mem => copyBackward n (d - 1) (s - 1) (mem.set (d - 1) (mem (s - 1)))

/-- The value and the memory a function returns, if it does. -/
def resultOf : Outcome → Option (Addr × Memory)
  | .returned s => some (s.regs a0, s.mem)
  | _ => none

/-- `memmove`. -/
def memmove (fuel : ℕ) (regs : Reg → BitVec 32) (mem : Memory) (dest src n : Addr) :
    Option (Addr × Memory) :=
  if dest ≤ src ∨ dest ≥ src + n then resultOf (callMemcpy fuel regs mem dest src n)
  else some (dest, copyBackward n.toNat (dest + n) (src + n) mem)

/-! ### Copying upwards -/

/-- The move does not overwrite bytes it has yet to read when it copies upwards. -/
def Upward (d s n : ℕ) : Prop := d ≤ s ∨ s + n ≤ d

/-- The loop heads: `k` of the `n` bytes are copied, and the registers stand
behind them. -/
structure CopiedTo (mem : Memory) (d s n k : ℕ) (st : State) : Prop where
  le : k ≤ n
  a0 : st.regs .a0 = BitVec.ofNat 32 (d + k)
  a1 : st.regs .a1 = BitVec.ofNat 32 (s + k)
  a2 : st.regs .a2 = BitVec.ofNat 32 (n - k)
  a3 : st.regs .a3 = BitVec.ofNat 32 d
  mem : st.mem = mem.move d s k

/-- The straight part of the byte loop. -/
def byteBlock : List (Instr CpyLabel) :=
  [lbu a4 0 a1, sb a4 0 a0, addi a0 a0 1, addi a1 a1 1, addi a2 a2 (-1)]

/-- The straight part of the word loop. -/
def wordBlock : List (Instr CpyLabel) :=
  [lw a5 0 a1, sw a5 0 a0, addi a0 a0 4, addi a1 a1 4, addi a2 a2 (-4)]

/-- The registers and memory move on by `c` bytes. -/
structure Advances (c : ℕ) (st st' : State) : Prop where
  a0 : st'.regs .a0 = st.regs .a0 + BitVec.ofInt 32 c
  a1 : st'.regs .a1 = st.regs .a1 + BitVec.ofInt 32 c
  a2 : st'.regs .a2 = st.regs .a2 + BitVec.ofInt 32 (-c)
  a3 : st'.regs .a3 = st.regs .a3

theorem byteBlock_spec (st : State) : ∃ st', block byteBlock st = some st' ∧
    Advances 1 st st' ∧ st'.mem = st.mem.set (st.regs a0) (st.mem (st.regs a1)) := by
  refine ⟨_, rfl, ⟨?_, ?_, ?_, ?_⟩, ?_⟩
  · simp
  · simp
  · simp
  · simp
  · simp

/-- An aligned word is copied without a trap. -/
theorem wordBlock_spec (st : State) (h₀ : (st.regs a0).toNat % 4 = 0)
    (h₁ : (st.regs a1).toNat % 4 = 0) : ∃ st', block wordBlock st = some st' ∧
      Advances 4 st st' ∧
      st'.mem = st.mem.storeWord (st.regs a0) (st.mem.loadWord (st.regs a1)) := by
  have hlw : exec (lw a5 0 a1 : Instr CpyLabel) st =
      .next (st.put a5 (st.mem.loadWord (st.regs a1))) := by
    simp [exec, h₁]
  have hsw : exec (sw a5 0 a0 : Instr CpyLabel) (st.put a5 (st.mem.loadWord (st.regs a1))) =
      .next { st.put a5 (st.mem.loadWord (st.regs a1)) with
        mem := st.mem.storeWord (st.regs a0) (st.mem.loadWord (st.regs a1)) } := by
    simp [exec, h₀]
  refine ⟨_, by rw [wordBlock, block, hlw]; dsimp only; rw [block, hsw]; rfl, ⟨?_, ?_, ?_, ?_⟩, ?_⟩
  · simp
  · simp
  · simp
  · simp
  · simp

section

variable {mem : Memory} {d s n k : ℕ} {st : State}

/-- A byte that is still to be copied is as it was. -/
theorem move_at_source (hup : Upward d s n) (hs : s + n ≤ 2 ^ 32) {i : ℕ} (hk : k ≤ i)
    (hi : i < n) : mem.move d s k (BitVec.ofNat 32 (s + i)) = mem (BitVec.ofNat 32 (s + i)) := by
  apply mem.move_of_not_mem (by omega)
  rcases hup with h | h
  · exact Or.inr (by omega)
  · exact Or.inl (by omega)

/-- The registers of a loop head move on with the copy. -/
theorem CopiedTo.advance (h : CopiedTo mem d s n k st) {c : ℕ} {st' : State}
    (hadv : Advances c st st') (hc : k + c ≤ n)
    (hmem : st'.mem = mem.move d s (k + c)) : CopiedTo mem d s n (k + c) st' := by
  refine ⟨hc, ?_, ?_, ?_, ?_, hmem⟩
  · rw [hadv.a0, h.a0, BitVec.ofInt_natCast, ← BitVec.ofNat_add, Nat.add_assoc]
  · rw [hadv.a1, h.a1, BitVec.ofInt_natCast, ← BitVec.ofNat_add, Nat.add_assoc]
  · have hsplit : n - k = n - (k + c) + c := by omega
    rw [hadv.a2, h.a2, BitVec.ofInt_neg, BitVec.ofInt_natCast, hsplit, BitVec.ofNat_add,
      ← BitVec.sub_eq_add_neg, BitVec.add_sub_cancel]
  · rw [hadv.a3, h.a3]

/-- The scratch register is not part of the copy. -/
theorem CopiedTo.put_a4 (h : CopiedTo mem d s n k st) (v : BitVec 32) :
    CopiedTo mem d s n k (st.put .a4 v) := by
  refine ⟨h.le, ?_, ?_, ?_, ?_, h.mem⟩
  · rw [State.put_of_ne _ (by decide), h.a0]
  · rw [State.put_of_ne _ (by decide), h.a1]
  · rw [State.put_of_ne _ (by decide), h.a2]
  · rw [State.put_of_ne _ (by decide), h.a3]

/-- The length left is zero only at the end. -/
theorem CopiedTo.a2_eq_zero (h : CopiedTo mem d s n k st) (hn : n < 2 ^ 32) :
    st.regs .a2 = 0 ↔ k = n := by
  have hle := h.le
  have hzero : (0 : BitVec 32) = BitVec.ofNat 32 0 := rfl
  rw [h.a2, hzero, ← BitVec.toNat_inj, BitVec.toNat_ofNat, BitVec.toNat_ofNat,
    Nat.mod_eq_of_lt (by omega), Nat.mod_eq_of_lt (by norm_num)]
  omega

/-- One pass of the byte loop copies one byte. -/
theorem bytePass (hup : Upward d s n) (hd : d + n ≤ 2 ^ 32) (hs : s + n ≤ 2 ^ 32)
    (hn : n < 2 ^ 32) (h : CopiedTo mem d s n k st) (hk : k < n) :
    ∃ st', Reaches memcpyListing (linesFrom memcpyListing cpyByte) st
      (linesFrom memcpyListing cpyByte) st' ∧ CopiedTo mem d s n (k + 1) st' := by
  obtain ⟨st', hblock, hadv, hmem⟩ := byteBlock_spec st
  have hlen : st.regs a2 ≠ 0 := fun h₀ => Nat.ne_of_lt hk ((h.a2_eq_zero hn).mp h₀)
  have hnext : exec (beqz a2 cpyDone) st = .next st := if_neg hlen
  have hrun : Reaches memcpyListing (.label cpyByte :: .instr (beqz a2 cpyDone) ::
      (byteBlock.map Line.instr ++ .instr (j cpyByte) :: linesFrom memcpyListing cpyDone)) st
      (linesFrom memcpyListing cpyByte) st' :=
    Reaches.label.trans ((Reaches.next hnext).trans
      ((Reaches.block hblock).trans (Reaches.jump rfl)))
  refine ⟨st', hrun, h.advance hadv hk ?_⟩
  rw [hmem, h.a0, h.a1, h.mem, move_at_source hup hs le_rfl hk, mem.move_succ (by omega)]

/-- **The byte loop copies what is left.** -/
theorem byteLoop (hup : Upward d s n) (hd : d + n ≤ 2 ^ 32) (hs : s + n ≤ 2 ^ 32)
    (hn : n < 2 ^ 32) (h : CopiedTo mem d s n k st) :
    ∃ st', Reaches memcpyListing (linesFrom memcpyListing cpyByte) st
      (linesFrom memcpyListing cpyDone) st' ∧ CopiedTo mem d s n n st' := by
  -- The induction is on the number of bytes left.
  obtain ⟨left, hleft⟩ : ∃ left, n - k = left := ⟨_, rfl⟩
  induction left generalizing k st with
  | zero =>
    have hk : k = n := by have := h.le; omega
    have hjump : exec (beqz a2 cpyDone) st = .jump cpyDone st :=
      if_pos ((h.a2_eq_zero hn).mpr hk)
    have hrun : Reaches memcpyListing (.label cpyByte :: .instr (beqz a2 cpyDone) ::
        (byteBlock.map Line.instr ++ .instr (j cpyByte) :: linesFrom memcpyListing cpyDone)) st
        (linesFrom memcpyListing cpyDone) st :=
      Reaches.label.trans (Reaches.jump hjump)
    exact ⟨st, hrun, hk ▸ h⟩
  | succ left ih =>
    obtain ⟨st₁, hrun₁, h₁⟩ := bytePass hup hd hs hn h (by omega)
    obtain ⟨st₂, hrun₂, h₂⟩ := ih h₁ (by omega)
    exact ⟨st₂, hrun₁.trans hrun₂, h₂⟩

/-- A word at the heads of the copy is four bytes moved. -/
theorem move_word (hup : Upward d s n) (hd : d + n ≤ 2 ^ 32) (hs : s + n ≤ 2 ^ 32)
    (hk : k + 4 ≤ n) : (mem.move d s k).storeWord (BitVec.ofNat 32 (d + k))
      ((mem.move d s k).loadWord (BitVec.ofNat 32 (s + k))) = mem.move d s (k + 4) := by
  have hnext : ∀ x : ℕ, BitVec.ofNat 32 x + 1 = BitVec.ofNat 32 (x + 1) ∧
      BitVec.ofNat 32 x + 2 = BitVec.ofNat 32 (x + 2) ∧
      BitVec.ofNat 32 x + 3 = BitVec.ofNat 32 (x + 3) := fun x =>
    ⟨(BitVec.ofNat_add x 1).symm, (BitVec.ofNat_add x 2).symm, (BitVec.ofNat_add x 3).symm⟩
  obtain ⟨d₁, d₂, d₃⟩ := hnext (d + k)
  obtain ⟨s₁, s₂, s₃⟩ := hnext (s + k)
  have hbyte : ∀ i, i < 4 → mem.move d s k (BitVec.ofNat 32 (s + k + i)) =
      mem (BitVec.ofNat 32 (s + (k + i))) := by
    intro i hi
    rw [Nat.add_assoc]
    exact move_at_source hup hs (Nat.le_add_right k i) (by omega)
  have hb₀ := hbyte 0 (by omega)
  rw [Nat.add_zero, Nat.add_zero] at hb₀
  rw [Memory.storeWord_loadWord, d₁, d₂, d₃, s₁, s₂, s₃, hb₀, hbyte 1 (by omega),
    hbyte 2 (by omega), hbyte 3 (by omega), ← mem.move_succ (by omega), Nat.add_assoc d,
    ← mem.move_succ (by omega), Nat.add_assoc d, ← mem.move_succ (by omega), Nat.add_assoc d,
    ← mem.move_succ (by omega)]

/-- The length left, compared with a word. -/
theorem CopiedTo.a2_lt_four (h : CopiedTo mem d s n k st) (hn : n < 2 ^ 32) :
    st.regs .a2 < BitVec.ofInt 32 4 ↔ n < k + 4 := by
  have hle := h.le
  have hfour : BitVec.ofInt 32 4 = BitVec.ofNat 32 4 := rfl
  rw [h.a2, hfour, BitVec.lt_def, BitVec.toNat_ofNat, BitVec.toNat_ofNat,
    Nat.mod_eq_of_lt (by omega), Nat.mod_eq_of_lt (by norm_num)]
  omega

/-- One pass of the word loop copies four bytes. -/
theorem wordPass (hup : Upward d s n) (hd : d + n ≤ 2 ^ 32) (hs : s + n ≤ 2 ^ 32)
    (hn : n < 2 ^ 32) (hd₄ : (d + k) % 4 = 0) (hs₄ : (s + k) % 4 = 0)
    (h : CopiedTo mem d s n k st) (hk : k + 4 ≤ n) :
    ∃ st', Reaches memcpyListing (linesFrom memcpyListing cpyWord) st
      (linesFrom memcpyListing cpyWord) st' ∧ CopiedTo mem d s n (k + 4) st' := by
  have h' := h.put_a4 (BitVec.ofInt 32 4)
  have hlen : ¬(st.put a4 (BitVec.ofInt 32 4)).regs a2 <
      (st.put a4 (BitVec.ofInt 32 4)).regs a4 := by
    rw [State.put_self, h'.a2_lt_four hn]
    omega
  have hnext : exec (bltu a2 a4 cpyByte) (st.put a4 (BitVec.ofInt 32 4)) =
      .next (st.put a4 (BitVec.ofInt 32 4)) := if_neg hlen
  obtain ⟨st', hblock, hadv, hmem⟩ := wordBlock_spec (st.put a4 (BitVec.ofInt 32 4))
    (by rw [h'.a0, BitVec.toNat_ofNat]; omega) (by rw [h'.a1, BitVec.toNat_ofNat]; omega)
  have hrun : Reaches memcpyListing (.label cpyWord :: .instr (li a4 4) ::
      .instr (bltu a2 a4 cpyByte) ::
      (wordBlock.map Line.instr ++ .instr (j cpyWord) :: linesFrom memcpyListing cpyByte)) st
      (linesFrom memcpyListing cpyWord) st' :=
    Reaches.label.trans ((Reaches.next rfl).trans ((Reaches.next hnext).trans
      ((Reaches.block hblock).trans (Reaches.jump rfl))))
  refine ⟨st', hrun, h'.advance hadv hk ?_⟩
  rw [hmem, h'.a0, h'.a1, h'.mem, move_word hup hd hs hk]

/-- **The word loop copies all whole words**, and leaves the rest to the byte
loop. -/
theorem wordLoop (hup : Upward d s n) (hd : d + n ≤ 2 ^ 32) (hs : s + n ≤ 2 ^ 32)
    (hn : n < 2 ^ 32) (hd₄ : (d + k) % 4 = 0) (hs₄ : (s + k) % 4 = 0)
    (h : CopiedTo mem d s n k st) :
    ∃ k' st', Reaches memcpyListing (linesFrom memcpyListing cpyWord) st
      (linesFrom memcpyListing cpyByte) st' ∧ CopiedTo mem d s n k' st' := by
  -- The induction is on the number of words left.
  obtain ⟨left, hleft⟩ : ∃ left, (n - k) / 4 = left := ⟨_, rfl⟩
  induction left generalizing k st with
  | zero =>
    have h' := h.put_a4 (BitVec.ofInt 32 4)
    have hlen : (st.put a4 (BitVec.ofInt 32 4)).regs a2 <
        (st.put a4 (BitVec.ofInt 32 4)).regs a4 := by
      rw [State.put_self, h'.a2_lt_four hn]
      omega
    have hjump : exec (bltu a2 a4 cpyByte) (st.put a4 (BitVec.ofInt 32 4)) =
        .jump cpyByte (st.put a4 (BitVec.ofInt 32 4)) := if_pos hlen
    have hrun : Reaches memcpyListing (.label cpyWord :: .instr (li a4 4) ::
        .instr (bltu a2 a4 cpyByte) ::
        (wordBlock.map Line.instr ++ .instr (j cpyWord) :: linesFrom memcpyListing cpyByte)) st
        (linesFrom memcpyListing cpyByte) (st.put a4 (BitVec.ofInt 32 4)) :=
      Reaches.label.trans ((Reaches.next rfl).trans (Reaches.jump hjump))
    exact ⟨k, _, hrun, h'⟩
  | succ left ih =>
    obtain ⟨st₁, hrun₁, h₁⟩ := wordPass hup hd hs hn hd₄ hs₄ h (by omega)
    obtain ⟨k', st₂, hrun₂, h₂⟩ := ih (by omega) (by omega) h₁ (by omega)
    exact ⟨k', st₂, hrun₁.trans hrun₂, h₂⟩

end

/-! ### `memcpy` -/

/-- The alignment test looks at both pointers. -/
theorem aligned_of_or {x y : BitVec 32} (h : (x ||| y) &&& BitVec.ofInt 32 3 = 0) :
    x.toNat % 4 = 0 ∧ y.toNat % 4 = 0 := by
  have hnat := congrArg BitVec.toNat h
  have hthree : (BitVec.ofInt 32 3).toNat = 2 ^ 2 - 1 := rfl
  have hzero : (0 : BitVec 32).toNat = 0 := rfl
  rw [BitVec.toNat_and, BitVec.toNat_or, hthree, hzero, Nat.and_two_pow_sub_one_eq_mod,
    Nat.or_mod_two_pow] at hnat
  have hsplit := Nat.or_eq_zero_iff.mp hnat
  exact hsplit

/-- `memcpy` returns its destination, with the range copied upwards. -/
theorem callMemcpy_returns (regs : Reg → BitVec 32) (mem : Memory) (dest src n : Addr)
    (hup : Upward dest.toNat src.toNat n.toNat) (hd : dest.toNat + n.toNat ≤ 2 ^ 32)
    (hs : src.toNat + n.toNat ≤ 2 ^ 32) : ∃ k, ∀ fuel, k ≤ fuel →
      resultOf (callMemcpy fuel regs mem dest src n) =
        some (dest, mem.move dest.toNat src.toNat n.toNat) := by
  have hn : n.toNat < 2 ^ 32 := n.isLt
  generalize hst : ((({ regs, mem : State }.put a0 dest).put a1 src).put a2 n) = st
  have h₀ : st.regs a0 = dest := by rw [← hst]; simp
  have h₁ : st.regs a1 = src := by rw [← hst]; simp
  have h₂ : st.regs a2 = n := by rw [← hst]; simp
  have hmem : st.mem = mem := by rw [← hst]; simp
  have hstart : CopiedTo mem dest.toNat src.toNat n.toNat 0 (st.put a3 dest) := by
    refine ⟨Nat.zero_le _, ?_, ?_, ?_, ?_, ?_⟩
    · rw [State.put_of_ne _ (by decide), h₀, Nat.add_zero, BitVec.ofNat_toNat, BitVec.setWidth_eq]
    · rw [State.put_of_ne _ (by decide), h₁, Nat.add_zero, BitVec.ofNat_toNat, BitVec.setWidth_eq]
    · rw [State.put_of_ne _ (by decide), h₂, Nat.sub_zero, BitVec.ofNat_toNat, BitVec.setWidth_eq]
    · rw [State.put_self, BitVec.ofNat_toNat, BitVec.setWidth_eq]
    · rw [State.put_mem, hmem, mem.move_zero]
  have hmv : exec (mv a3 a0 : Instr CpyLabel) st = .next (st.put a3 dest) := by
    rw [exec, h₀]
  -- The three ways to the end of the copy: nothing to do, bytes only, words first.
  obtain ⟨st', hrun, hend⟩ : ∃ st', Reaches memcpyListing (.label memcpy :: .instr (mv a3 a0) ::
      .instr (beqz a2 cpyDone) :: .instr (or a4 a0 a1) :: .instr (andi a4 a4 3) ::
      .instr (bnez a4 cpyByte) :: linesFrom memcpyListing cpyWord) st
      (linesFrom memcpyListing cpyDone) st' ∧
        CopiedTo mem dest.toNat src.toNat n.toNat n.toNat st' := by
    rcases Decidable.em ((st.put a3 dest).regs a2 = 0) with hzero | hpos
    · have hjump : exec (beqz a2 cpyDone) (st.put a3 dest) = .jump cpyDone (st.put a3 dest) :=
        if_pos hzero
      refine ⟨st.put a3 dest, Reaches.label.trans ((Reaches.next hmv).trans (Reaches.jump hjump)), ?_⟩
      exact (hstart.a2_eq_zero hn).mp hzero ▸ hstart
    · have hnext : exec (beqz a2 cpyDone) (st.put a3 dest) = .next (st.put a3 dest) :=
        if_neg hpos
      generalize hor : (st.put a3 dest).put a4
        ((st.put a3 dest).regs a0 ||| (st.put a3 dest).regs a1) = st₁
      generalize hand : st₁.put a4 (st₁.regs a4 &&& BitVec.ofInt 32 3) = st₂
      have h₁' : CopiedTo mem dest.toNat src.toNat n.toNat 0 st₁ := hor ▸ hstart.put_a4 _
      have h₂' : CopiedTo mem dest.toNat src.toNat n.toNat 0 st₂ := hand ▸ h₁'.put_a4 _
      have hflag : st₂.regs a4 = (dest ||| src) &&& BitVec.ofInt 32 3 := by
        rw [← hand, State.put_self, ← hor, State.put_self, State.put_of_ne _ (by decide),
          State.put_of_ne _ (by decide), h₀, h₁]
      have hor' : exec (or a4 a0 a1 : Instr CpyLabel) (st.put a3 dest) = .next st₁ := by
        rw [exec, hor]
      have hand' : exec (andi a4 a4 3 : Instr CpyLabel) st₁ = .next st₂ := by
        rw [exec, hand]
      have hhead : Reaches memcpyListing (.label memcpy :: .instr (mv a3 a0) ::
          .instr (beqz a2 cpyDone) :: .instr (or a4 a0 a1) :: .instr (andi a4 a4 3) ::
          .instr (bnez a4 cpyByte) :: linesFrom memcpyListing cpyWord) st
          (.instr (bnez a4 cpyByte) :: linesFrom memcpyListing cpyWord) st₂ :=
        Reaches.label.trans ((Reaches.next hmv).trans ((Reaches.next hnext).trans
          ((Reaches.next hor').trans (Reaches.next hand'))))
      rcases Decidable.em (st₂.regs a4 ≠ 0) with hbad | hok
      · have hjump : exec (bnez a4 cpyByte) st₂ = .jump cpyByte st₂ := if_pos hbad
        obtain ⟨st', hrun, hend⟩ := byteLoop hup hd hs hn h₂'
        exact ⟨st', hhead.trans ((Reaches.jump hjump).trans hrun), hend⟩
      · have hnext' : exec (bnez a4 cpyByte) st₂ = .next st₂ := if_neg hok
        obtain ⟨hd₄, hs₄⟩ := aligned_of_or (hflag ▸ not_not.mp hok)
        obtain ⟨k', st₃, hrun₃, h₃⟩ := wordLoop hup hd hs hn hd₄ hs₄ h₂'
        obtain ⟨st', hrun, hend⟩ := byteLoop hup hd hs hn h₃
        exact ⟨st', hhead.trans ((Reaches.next hnext').trans (hrun₃.trans hrun)), hend⟩
  have hlast : Reaches memcpyListing (.label cpyDone :: .instr (mv a0 a3) :: [.instr ret]) st'
      [.instr ret] (st'.put a0 (st'.regs a3)) := Reaches.label.trans (Reaches.next rfl)
  obtain ⟨k, hk⟩ := (hrun.trans hlast).returned rfl
  refine ⟨k, ?_⟩
  intro fuel hfuel
  have hrun' : callMemcpy fuel regs mem dest src n = .returned (st'.put a0 (st'.regs a3)) := by
    rw [callMemcpy, hst]
    exact hk fuel hfuel
  rw [hrun', resultOf, State.put_self, State.put_mem, hend.a3, hend.mem, BitVec.ofNat_toNat,
    BitVec.setWidth_eq]

/-! ### Copying downwards -/

/-- The backward loop moves the range when the destination lies above the
source. -/
theorem copyBackward_moves (mem : Memory) {d s : ℕ} : ∀ {n k : ℕ}, s < d → d + n ≤ 2 ^ 32 →
    k ≤ n → copyBackward k (BitVec.ofNat 32 (d + k)) (BitVec.ofNat 32 (s + k))
      (mem.move (d + k) (s + k) (n - k)) = mem.move d s n
  | n, 0, _, _, _ => by rw [copyBackward, Nat.add_zero, Nat.add_zero, Nat.sub_zero]
  | n, k + 1, hsd, hd, hk => by
      have hpred : ∀ x : ℕ, BitVec.ofNat 32 (x + (k + 1)) - 1 = BitVec.ofNat 32 (x + k) := by
        intro x
        have hsplit : BitVec.ofNat 32 (x + (k + 1)) = BitVec.ofNat 32 (x + k) + 1 :=
          BitVec.ofNat_add (x + k) 1
        rw [hsplit, BitVec.add_sub_cancel]
      have hcount : n - k = n - (k + 1) + 1 := by omega
      have hread : mem.move (d + (k + 1)) (s + (k + 1)) (n - (k + 1)) (BitVec.ofNat 32 (s + k)) =
          mem (BitVec.ofNat 32 (s + k)) :=
        mem.move_of_not_mem (by omega) (Or.inl (by omega))
      rw [copyBackward, hpred, hpred, hread, ← copyBackward_moves mem hsd hd (k := k) (by omega),
        hcount, mem.move_pred (by omega), Nat.add_assoc, Nat.add_assoc]

/-- **`memmove` moves its range.**  For ranges that do not wrap, whatever their
overlap and alignment, it returns its destination, the destination holds what
the source held before the call, and no other byte changes.  No word access
traps, since a run that traps does not return. -/
theorem memmove_moves (regs : Reg → BitVec 32) (mem : Memory) (dest src n : Addr)
    (hd : dest.toNat + n.toNat ≤ 2 ^ 32) (hs : src.toNat + n.toNat ≤ 2 ^ 32) :
    ∃ mem', (∃ k, ∀ fuel, k ≤ fuel → memmove fuel regs mem dest src n = some (dest, mem')) ∧
      (∀ i, i < n.toNat → mem' (BitVec.ofNat 32 (dest.toNat + i)) =
        mem (BitVec.ofNat 32 (src.toNat + i))) ∧
      (∀ a : Addr, a.toNat < dest.toNat ∨ dest.toNat + n.toNat ≤ a.toNat → mem' a = mem a) := by
  have hsum : (src + n).toNat = (src.toNat + n.toNat) % 2 ^ 32 := BitVec.toNat_add src n
  refine ⟨mem.move dest.toNat src.toNat n.toNat, ?_, ?_, fun a ha => if_neg (by omega)⟩
  · simp only [memmove]
    -- The ranges overlap downwards or not at all, or the copy goes from the end.
    rcases Decidable.em (dest ≤ src ∨ dest ≥ src + n) with hfwd | hback
    · have hup : Upward dest.toNat src.toNat n.toNat := by
        rw [ge_iff_le, BitVec.le_def, BitVec.le_def, hsum] at hfwd
        unfold Upward
        omega
      obtain ⟨k, hk⟩ := callMemcpy_returns regs mem dest src n hup hd hs
      refine ⟨k, ?_⟩
      intro fuel hfuel
      rw [if_pos hfwd]
      exact hk fuel hfuel
    · have hlt : src.toNat < dest.toNat := by
        rw [ge_iff_le, BitVec.le_def, BitVec.le_def] at hback
        omega
      have hmove := copyBackward_moves mem hlt hd (k := n.toNat) (Nat.le_refl _)
      rw [Nat.sub_self, mem.move_zero, BitVec.ofNat_add, BitVec.ofNat_add, BitVec.ofNat_toNat,
        BitVec.ofNat_toNat, BitVec.ofNat_toNat, BitVec.setWidth_eq, BitVec.setWidth_eq,
        BitVec.setWidth_eq] at hmove
      refine ⟨0, ?_⟩
      intro fuel _
      rw [if_neg hback, hmove]
  · intro i hi
    have haddr : (BitVec.ofNat 32 (dest.toNat + i)).toNat = dest.toNat + i := by
      rw [BitVec.toNat_ofNat, Nat.mod_eq_of_lt (by omega)]
    rw [Memory.move, haddr, if_pos (by omega), Nat.add_sub_cancel_left]

/-- An overlapping move by one byte, upwards in memory. -/
theorem memmove_moves_overlap : ∃ mem' : Memory,
    (∃ k, ∀ fuel, k ≤ fuel → memmove fuel (fun _ => 0) (fun a => a.setWidth 8) 5 4 3 =
      some (5, mem')) ∧
    (∀ i, i < 3 → mem' (BitVec.ofNat 32 (5 + i)) = (BitVec.ofNat 32 (4 + i)).setWidth 8) ∧
    (∀ a : Addr, a.toNat < 5 ∨ 5 + 3 ≤ a.toNat → mem' a = a.setWidth 8) :=
  memmove_moves (fun _ => 0) (fun a => a.setWidth 8) 5 4 3 (by decide) (by decide)

end StatelessGuest
