import StatelessGuest.Riscv.Buffer64

/-!
# The entry point of the ZisK guest

Before any C++ runs, `_start` sets the global and the stack pointer, copies the initialized
data from where it was loaded to where it is used, and clears the rest of the static data.

## Main definitions

* `startListing` — `_start`.
* `Placed` — what the linker script promises of its symbols.

## Main results

* `dataCopy_pass`, `bssLoop_pass` — one pass of each loop.
* `start_initialises` — **`__start` finds its static data initialized**, the pointers set,
  and all other memory as it was loaded.
-/

namespace StatelessGuest.Zisk

open Riscv64 Riscv64.Reg Riscv64.Instr

/-! ### The listing -/

/-- The labels of `_start`, and the symbols that it uses. -/
inductive StartLabel
  | start | dataCopy | bssZero | bssLoop | runtime | spin
  | globalPointer | initStackTop | dataLoad | dataStart | dataEnd | bssStart | bssEnd
  /-- `__start`, which is not part of the listing. -/
  | runtimeStart
  deriving DecidableEq, Repr

open StartLabel

/-- `_start` -/
def startListing : Listing StartLabel :=
  [(start, [
      lla gp globalPointer,
      lla sp initStackTop,
      lla t0 dataLoad,
      lla t1 dataStart,
      lla t2 dataEnd,
      beq t0 t1 bssZero,
      bgeu t1 t2 bssZero]),
    (dataCopy, [
      ld t3 0 t0,
      sd t3 0 t1,
      addi t0 t0 8,
      addi t1 t1 8,
      bltu t1 t2 dataCopy]),
    (bssZero, [
      lla t0 bssStart,
      lla t1 bssEnd,
      bgeu t0 t1 runtime]),
    (bssLoop, [
      sdz 0 t0,
      addi t0 t0 8,
      bltu t0 t1 bssLoop]),
    (runtime, [call runtimeStart]),
    (spin, [j spin])]

/-- What the linker script promises: `d` double words of initialized data, and behind them `b`
double words to be cleared, all of them aligned.  The data is loaded where it is used, or above
it, or below. -/
structure Placed (env : Env StartLabel) (d b : ℕ) : Prop where
  data_size : (env.place dataEnd).toNat = (env.place dataStart).toNat + 8 * d
  bss_size : (env.place bssEnd).toNat = (env.place bssStart).toNat + 8 * b
  data_below : (env.place dataEnd).toNat ≤ (env.place bssStart).toNat
  data_aligned : (env.place dataStart).toNat % 8 = 0
  load_aligned : (env.place dataLoad).toNat % 8 = 0
  bss_aligned : (env.place bssStart).toNat % 8 = 0
  load_le : (env.place dataLoad).toNat + 8 * d ≤ 2 ^ 64
  upward : (env.place dataStart).toNat ≤ (env.place dataLoad).toNat ∨
    (env.place dataLoad).toNat + 8 * d ≤ (env.place dataStart).toNat
  readable : ∀ i, i < 8 * d → env.readable ((env.place dataLoad).at i) = true
  writable : ∀ i, i < 8 * d → env.writable ((env.place dataStart).at i) = true
  clearable : ∀ i, i < 8 * b → env.writable ((env.place bssStart).at i) = true

/-- The pointers are set. -/
structure PointersSet (env : Env StartLabel) (s : State) : Prop where
  gp : s.regs gp = env.place globalPointer
  sp : s.regs sp = env.place initStackTop

section

variable {env : Env StartLabel} {d b : ℕ} (h : Placed env d b) (mem : Memory)

/-! ### The data -/

/-- The state after `k` passes of the copy. -/
structure Copying (env : Env StartLabel) (mem : Memory) (k : ℕ) (s : State) : Prop where
  pointers : PointersSet env s
  source : s.regs t0 = (env.place dataLoad).at (8 * k)
  dest : s.regs t1 = (env.place dataStart).at (8 * k)
  bound : s.regs t2 = env.place dataEnd
  mem : s.mem = mem.move (env.place dataStart) (env.place dataLoad) (8 * k)

variable {mem}

include h in
theorem Placed.dataWords : Words (env.place dataStart) (env.place dataEnd) d := by
  have hdata := h.data_size
  have hend := (env.place dataEnd).isLt
  exact ⟨by omega, by omega, by omega⟩

include h in
theorem Placed.bssWords : Words (env.place bssStart) (env.place bssEnd) b := by
  have hbss := h.bss_size
  have hend := (env.place bssEnd).isLt
  exact ⟨by omega, by omega, by omega⟩

/-- The branch at the end of a loop. -/
theorem reaches_bltu {l : StartLabel} {r r' : Reg} {a e : Addr} {k n : ℕ}
    {later : Listing StartLabel} {s : State} (hr : s.regs r = a.at (8 * k)) (hr' : s.regs r' = e)
    (h : Words a e n) (hk : k ≤ n) :
    Reaches env startListing [bltu r r' l] later s []
      (if k < n then startListing.since l else later) s := by
  have hexec : (bltu r r' l : Instr StartLabel).exec env s = branch (decide (k < n)) l s := by
    rw [Instr.exec, hr, hr']
    exact congrArg (branch · l s) (decide_eq_decide.mpr (h.at_lt_iff hk))
  by_cases hmore : k < n
  · rw [if_pos hmore]
    exact Reaches.jump (hexec.trans (branch_taken (decide_eq_true hmore)))
  · rw [if_neg hmore]
    exact Reaches.next (hexec.trans (branch_passed (decide_eq_false hmore)))

include h in
/-- **One pass of the copy.** -/
theorem dataCopy_pass {k : ℕ} {s : State} (hk : k < d) (hs : Copying env mem k s) :
    ∃ s', Copying env mem (k + 1) s' ∧
      Reaches env startListing [] (startListing.since dataCopy) s []
        (if k + 1 < d then startListing.since dataCopy else startListing.since bssZero) s' := by
  have hdata := h.dataWords.fits
  have hsrc : allowed env.readable (s.regs t0) 8 := by
    rw [hs.source]
    exact allowed_at h.load_aligned h.readable h.load_le hk
  have hdst : allowed env.writable (s.regs t1) 8 := by
    rw [hs.dest]
    exact allowed_at h.data_aligned h.writable (by omega) hk
  -- The double word that is loaded has not been overwritten.
  have hword : ∀ i, i < 8 → byteAt (s.mem.load (s.regs t0) 8) i =
      mem ((env.place dataLoad).at (8 * k + i)) := by
    intro i hi
    rw [byteAt_load _ _ hi, if_pos hi, hs.source, Addr.at_at, hs.mem]
    refine mem.move_of_not_mem _ _ ?_
    intro j hj heq
    have hnat := congrArg BitVec.toNat heq
    have hup := h.upward
    have hle := h.load_le
    rw [Addr.toNat_at _ (by omega), Addr.toNat_at _ (by omega)] at hnat
    omega
  generalize hv : s.mem.load (s.regs t0) 8 = v at hword
  have hld : (ld t3 0 t0 : Instr StartLabel).exec env s = .next (s.put t3 v) := by
    rw [Instr.exec, State.addr_zero, loadEffect, if_pos hsrc, hv]
    rfl
  have hsd : (sd t3 0 t1 : Instr StartLabel).exec env (s.put t3 v) =
      .next ⟨(s.put t3 v).regs, s.mem.store (s.regs t1) 8 v⟩ := by
    rw [Instr.exec, State.addr_zero, storeEffect, storeValue]
    exact if_pos hdst
  generalize hmem : s.mem.store (s.regs t1) 8 v = mem' at hsd
  rw [hs.mem, hs.dest, Memory.store_move _ _ _ (by omega) hword] at hmem
  refine ⟨((⟨(s.put t3 v).regs, mem'⟩ : State).put t0 ((env.place dataLoad).at (8 * (k + 1)))).put
    t1 ((env.place dataStart).at (8 * (k + 1))), ⟨⟨?_, ?_⟩, ?_, ?_, ?_, ?_⟩, ?_⟩
  · simp [hs.pointers.gp]
  · simp [hs.pointers.sp]
  · simp
  · simp
  · simp [hs.bound]
  · exact hmem.symm
  · have ht₀ : (addi t0 t0 8 : Instr StartLabel).exec env ⟨(s.put t3 v).regs, mem'⟩ =
        .next ((⟨(s.put t3 v).regs, mem'⟩ : State).put t0
          ((env.place dataLoad).at (8 * (k + 1)))) := by
      rw [← Addr.at_add_eight, ← hs.source]
      rfl
    have ht₁ : (addi t1 t1 8 : Instr StartLabel).exec env
        ((⟨(s.put t3 v).regs, mem'⟩ : State).put t0 ((env.place dataLoad).at (8 * (k + 1)))) =
        .next (((⟨(s.put t3 v).regs, mem'⟩ : State).put t0
          ((env.place dataLoad).at (8 * (k + 1)))).put t1
            ((env.place dataStart).at (8 * (k + 1)))) := by
      rw [← Addr.at_add_eight (env.place dataStart), ← hs.dest]
      rfl
    refine Reaches.fall.trans ((Reaches.next hld).trans ((Reaches.next hsd).trans
      ((Reaches.next ht₀).trans ((Reaches.next ht₁).trans ?_))))
    exact reaches_bltu (State.put_self _ _ _) (by simp [hs.bound]) h.dataWords hk

include h in
/-- The first stretch and the copy. -/
theorem start_copies (s : State) : ∃ s', PointersSet env s' ∧
    s'.mem = s.mem.move (env.place dataStart) (env.place dataLoad) (8 * d) ∧
      Reaches env startListing [] startListing s [] (startListing.since bssZero) s' := by
  let s₁ : State := ((((s.put gp (env.place globalPointer)).put sp (env.place initStackTop)).put t0
    (env.place dataLoad)).put t1 (env.place dataStart)).put t2 (env.place dataEnd)
  have hpointers : PointersSet env s₁ := ⟨by simp [s₁], by simp [s₁]⟩
  have h₀ : s₁.regs t0 = env.place dataLoad := by simp [s₁]
  have h₁ : s₁.regs t1 = env.place dataStart := by simp [s₁]
  have h₂ : s₁.regs t2 = env.place dataEnd := by simp [s₁]
  have hload : Reaches env startListing [] startListing s [beq t0 t1 bssZero, bgeu t1 t2 bssZero]
      (startListing.since dataCopy) s₁ :=
    Reaches.fall.trans ((Reaches.next rfl).trans ((Reaches.next rfl).trans ((Reaches.next rfl).trans
      ((Reaches.next rfl).trans (Reaches.next rfl)))))
  by_cases hsame : env.place dataLoad = env.place dataStart
  · -- The data has been loaded where it is used.
    have hbeq : (s₁.regs t0 == s₁.regs t1) = true := by
      rw [h₀, h₁, hsame]
      exact beq_self_eq_true _
    refine ⟨s₁, hpointers, ?_, hload.trans (Reaches.jump (branch_taken hbeq))⟩
    rw [hsame, Memory.move_self]
    rfl
  · have hbeq : (s₁.regs t0 == s₁.regs t1) = false := by
      rw [h₀, h₁]
      exact beq_eq_false_iff_ne.mpr hsame
    have hnext := hload.trans (Reaches.next (branch_passed hbeq))
    have hbgeu : (bgeu t1 t2 bssZero : Instr StartLabel).exec env s₁ =
        branch (decide (env.place dataEnd ≤ env.place dataStart)) bssZero s₁ := by
      rw [Instr.exec, h₁, h₂]
    by_cases hempty : env.place dataEnd ≤ env.place dataStart
    · have hzero := h.dataWords.le_iff.mp hempty
      refine ⟨s₁, hpointers, ?_, hnext.trans (Reaches.jump (hbgeu.trans
        (branch_taken (decide_eq_true hempty))))⟩
      rw [hzero, Nat.mul_zero, Memory.move_zero]
      rfl
    · have hpos : 0 < d := Nat.pos_of_ne_zero (mt h.dataWords.le_iff.mpr hempty)
      have hbegin : Copying env s.mem 0 s₁ := by
        refine ⟨hpointers, ?_, ?_, h₂, ?_⟩
        · rw [h₀, Nat.mul_zero, Addr.at_zero]
        · rw [h₁, Nat.mul_zero, Addr.at_zero]
        · rw [Nat.mul_zero, Memory.move_zero]
          rfl
      obtain ⟨s₂, hcopied, hrun⟩ :=
        Reaches.loop (fun k s hk hs => dataCopy_pass h hk hs) hpos hbegin
      exact ⟨s₂, hcopied.pointers, hcopied.mem, (hnext.trans (Reaches.next (hbgeu.trans
        (branch_passed (decide_eq_false hempty))))).trans hrun⟩

/-! ### The data to be cleared -/

/-- The state after `k` passes of the clearing. -/
structure Clearing (env : Env StartLabel) (mem : Memory) (k : ℕ) (s : State) : Prop where
  pointers : PointersSet env s
  dest : s.regs t0 = (env.place bssStart).at (8 * k)
  bound : s.regs t1 = env.place bssEnd
  mem : s.mem = mem.write (env.place bssStart) (List.replicate (8 * k) 0)

include h in
/-- **One pass of the clearing.** -/
theorem bssLoop_pass {k : ℕ} {s : State} (hk : k < b) (hs : Clearing env mem k s) :
    ∃ s', Clearing env mem (k + 1) s' ∧
      Reaches env startListing [] (startListing.since bssLoop) s []
        (if k + 1 < b then startListing.since bssLoop else startListing.since runtime) s' := by
  have hbss := h.bssWords.fits
  have hdst : allowed env.writable (s.regs t0) 8 := by
    rw [hs.dest]
    exact allowed_at h.bss_aligned h.clearable (by omega) hk
  have hsd : (sdz 0 t0 : Instr StartLabel).exec env s =
      .next ⟨s.regs, s.mem.store (s.regs t0) 8 0⟩ := by
    rw [Instr.exec, State.addr_zero, storeValue]
    exact if_pos hdst
  generalize hmem : s.mem.store (s.regs t0) 8 0 = mem' at hsd
  rw [hs.mem, hs.dest, Memory.store_zeros _ _ (by omega)] at hmem
  refine ⟨(⟨s.regs, mem'⟩ : State).put t0 ((env.place bssStart).at (8 * (k + 1))),
    ⟨⟨?_, ?_⟩, ?_, ?_, ?_⟩, ?_⟩
  · simp [hs.pointers.gp]
  · simp [hs.pointers.sp]
  · simp
  · simp [hs.bound]
  · exact hmem.symm
  · have ht₀ : (addi t0 t0 8 : Instr StartLabel).exec env ⟨s.regs, mem'⟩ =
        .next ((⟨s.regs, mem'⟩ : State).put t0 ((env.place bssStart).at (8 * (k + 1)))) := by
      rw [← Addr.at_add_eight, ← hs.dest]
      rfl
    refine Reaches.fall.trans ((Reaches.next hsd).trans ((Reaches.next ht₀).trans ?_))
    exact reaches_bltu (State.put_self _ _ _) (by simp [hs.bound]) h.bssWords hk

include h in
/-- The last stretches. -/
theorem start_clears {s : State} (hpointers : PointersSet env s) : ∃ s', PointersSet env s' ∧
    s'.mem = s.mem.write (env.place bssStart) (List.replicate (8 * b) 0) ∧
      Reaches env startListing [] (startListing.since bssZero) s []
        (startListing.since runtime) s' := by
  let s₁ : State := (s.put t0 (env.place bssStart)).put t1 (env.place bssEnd)
  have hpointers₁ : PointersSet env s₁ := ⟨by simp [s₁, hpointers.gp], by simp [s₁, hpointers.sp]⟩
  have h₀ : s₁.regs t0 = env.place bssStart := by simp [s₁]
  have h₁ : s₁.regs t1 = env.place bssEnd := by simp [s₁]
  have hload : Reaches env startListing [] (startListing.since bssZero) s [bgeu t0 t1 runtime]
      (startListing.since bssLoop) s₁ :=
    Reaches.fall.trans ((Reaches.next rfl).trans (Reaches.next rfl))
  have hbgeu : (bgeu t0 t1 runtime : Instr StartLabel).exec env s₁ =
      branch (decide (env.place bssEnd ≤ env.place bssStart)) runtime s₁ := by
    rw [Instr.exec, h₀, h₁]
  have hnone : s.mem.write (env.place bssStart) (List.replicate (8 * 0) 0) = s.mem := by
    funext x
    exact Memory.write_of_ge _ _ (Nat.zero_le _)
  by_cases hempty : env.place bssEnd ≤ env.place bssStart
  · have hzero := h.bssWords.le_iff.mp hempty
    refine ⟨s₁, hpointers₁, ?_, hload.trans (Reaches.jump (hbgeu.trans
      (branch_taken (decide_eq_true hempty))))⟩
    rw [hzero, hnone]
    rfl
  · have hpos : 0 < b := Nat.pos_of_ne_zero (mt h.bssWords.le_iff.mpr hempty)
    have hbegin : Clearing env s.mem 0 s₁ := by
      refine ⟨hpointers₁, ?_, h₁, hnone.symm⟩
      rw [h₀, Nat.mul_zero, Addr.at_zero]
    obtain ⟨s₂, hcleared, hrun⟩ :=
      Reaches.loop (fun k s hk hs => bssLoop_pass h hk hs) hpos hbegin
    exact ⟨s₂, hcleared.pointers, hcleared.mem, (hload.trans (Reaches.next (hbgeu.trans
      (branch_passed (decide_eq_false hempty))))).trans hrun⟩

end

/-- **`_start` arrives at the call of `__start`** with the pointers set, the data copied from
where it was loaded, the rest of the static data cleared, and all other memory as it was. -/
theorem start_initialises {env : Env StartLabel} {d b : ℕ} (h : Placed env d b) (s : State) :
    ∃ s', Reaches env startListing [] startListing s [call runtimeStart]
        (startListing.since spin) s' ∧ PointersSet env s' ∧
      (∀ i, i < 8 * d →
        s'.mem ((env.place dataStart).at i) = s.mem ((env.place dataLoad).at i)) ∧
      (∀ i, i < 8 * b → s'.mem ((env.place bssStart).at i) = 0) ∧
      ∀ a, (∀ i, i < 8 * d → (env.place dataStart).at i ≠ a) →
        (∀ i, i < 8 * b → (env.place bssStart).at i ≠ a) → s'.mem a = s.mem a := by
  have hsize := h.data_size
  have hbelow := h.data_below
  have hbss := h.bssWords.fits
  have hlen : (List.replicate (8 * b) (0 : UInt8)).length = 8 * b := List.length_replicate
  obtain ⟨s₁, hpointers, hcopied, hrun₁⟩ := start_copies h s
  obtain ⟨s₂, hset, hcleared, hrun₂⟩ := start_clears h hpointers
  rw [hcopied] at hcleared
  refine ⟨s₂, (hrun₁.trans hrun₂).trans Reaches.fall, hset, ?_, ?_,
    ?_⟩
  · intro i hi
    have hat := Addr.toNat_at (env.place dataStart) (i := i) (by omega)
    rw [hcleared, Memory.write_apart _ _ (by omega) (.inl (by omega)),
      Memory.move_at _ _ _ hi (by omega)]
  · intro i hi
    rw [hcleared, Memory.write_at _ _ (by omega) (by omega), List.getD_eq_getElem?_getD,
      List.getElem?_replicate, if_pos hi]
    rfl
  · intro a hdst hclr
    have hout : 8 * b ≤ (a - env.place bssStart).toNat := by
      by_contra hin
      refine hclr _ (Nat.lt_of_not_le hin) ?_
      rw [Addr.at, BitVec.ofNat_toNat, BitVec.setWidth_eq, BitVec.add_comm, BitVec.sub_add_cancel]
    rw [hcleared, Memory.write_of_ge _ _ (by omega), Memory.move_of_not_mem _ _ _ hdst]

/-- Three double words of data at the beginning of the RAM, which were loaded at `load`, and two
double words of bss behind them. -/
def startEnv (load : Addr) : Env StartLabel where
  place
    | globalPointer => 0xa0030800
    | initStackTop => 0xa0070030
    | dataLoad => load
    | dataStart => 0xa0030000
    | dataEnd => 0xa0030018
    | bssStart => 0xa0030018
    | bssEnd => 0xa0030028
    | l => BitVec.ofNat 64 (0x80000000 + 4 * l.ctorIdx)
  labelAt _ := none
  readable _ := true
  writable a := decide (0xa0030000 ≤ a)

/-- The data is loaded where it is used, as the linker script has it. -/
theorem startEnv_placed : Placed (startEnv 0xa0030000) 3 2 := by
  refine ⟨?_, ?_, ?_, ?_, ?_, ?_, ?_, ?_, fun _ _ => rfl, ?_, ?_⟩
  all_goals decide

/-- The data is loaded above, and overlaps the place where it is used. -/
theorem startEnv_placed_above : Placed (startEnv 0xa0030010) 3 2 := by
  refine ⟨?_, ?_, ?_, ?_, ?_, ?_, ?_, ?_, fun _ _ => rfl, ?_, ?_⟩
  all_goals decide

/-- Both, over a memory that holds the address of every byte. -/
theorem start_initialises_ram :
    (∃ s', Reaches (startEnv 0xa0030000) startListing [] startListing
        ⟨fun _ => 0, fun a => a.setWidth 8⟩ [call runtimeStart] (startListing.since spin) s' ∧
      PointersSet (startEnv 0xa0030000) s' ∧
      (∀ i, i < 24 → s'.mem (Addr.at 0xa0030000 i) = (Addr.at 0xa0030000 i).setWidth 8) ∧
      (∀ i, i < 16 → s'.mem (Addr.at 0xa0030018 i) = 0) ∧
      ∀ a, (∀ i, i < 24 → Addr.at 0xa0030000 i ≠ a) → (∀ i, i < 16 → Addr.at 0xa0030018 i ≠ a) →
        s'.mem a = a.setWidth 8) ∧
    ∃ s', Reaches (startEnv 0xa0030010) startListing [] startListing
        ⟨fun _ => 0, fun a => a.setWidth 8⟩ [call runtimeStart] (startListing.since spin) s' ∧
      PointersSet (startEnv 0xa0030010) s' ∧
      (∀ i, i < 24 → s'.mem (Addr.at 0xa0030000 i) = (Addr.at 0xa0030010 i).setWidth 8) ∧
      (∀ i, i < 16 → s'.mem (Addr.at 0xa0030018 i) = 0) ∧
      ∀ a, (∀ i, i < 24 → Addr.at 0xa0030000 i ≠ a) → (∀ i, i < 16 → Addr.at 0xa0030018 i ≠ a) →
        s'.mem a = a.setWidth 8 :=
  ⟨start_initialises startEnv_placed _, start_initialises startEnv_placed_above _⟩

end StatelessGuest.Zisk
