import StatelessGuest.Riscv.Copying
import StatelessGuest.Rv64.Listing
import Mathlib.Data.Nat.Bitwise
import Mathlib.Tactic.IntervalCases

/-!
# What `memcpy` does on SP1 and ZisK

The straight parts of the assembly are checked on descriptions of the registers;
the branches and the loops are put together here, from the last stretch to the
first.

## Main definitions

* `Ready`, `Copies` — the setting, and what is to be shown of a point of the run.
* `synced`, `tail`, `merging` — the shapes of the states at the labels.
* `Left` — the bytes a tail has to copy.

## Main results

* `bb9_copies`, `bb44_copies` — the tails by single bytes.
* `mergeLoop_copies`, `bb12_copies` — the merging loops, and the dispatch to them.
* `memcpyListing_copies` — the whole listing.
-/

namespace StatelessGuest.Rv64

open Riscv64 Riscv64.Reg Riscv64.Instr Rv64.CpyLabel

/-! ### The shapes of the states -/

/-- The pointers stand behind the bytes copied, and the length left is exact. -/
def synced : Shape where
  regs
    | a0 => .dest
    | a1 => .src 0
    | a2 => .left 0
    | a3 => .dst 0
    | _ => .unknown
  done := 0

/-- The pointers stand behind the bytes copied, and `a2` is not changed. -/
def tail : Shape := synced.put a2 .kept

/-- A binary digit of the length is tested. -/
def tested (h : ℤ) : Shape := tail.put a4 (.masked .kept h)

/-- Nothing is left but to return the destination. -/
def finished : Shape where
  regs
    | a0 => .dest
    | _ => .unknown
  done := 0

/-- A merging loop, its pointers behind the last double word of the source that
was loaded. -/
def merging (p : ℕ) : Shape where
  regs
    | a0 => .dest
    | a1 => .src 32
    | a2 => .left p
    | a3 => .dst p
    | a4 => .data (sourceBytes 0 8)
    | a5 => .const (39 - p)
    | _ => .unknown
  done := p

/-! ### The setting -/

/-- The copy can be made upwards. -/
structure Ready (env : Env CpyLabel) (c : Copy) : Prop where
  up : c.Upward
  lt : c.n < 2 ^ 64
  usable : c.Usable env

/-- The run from a point returns the destination, with the range copied. -/
def Copies (env : Env CpyLabel) (t : Target) (c : Copy) (now : List (Instr CpyLabel))
    (later : Listing CpyLabel) (st : State) : Prop :=
  ∃ st', Ends env (memcpyListing t) now later st st' ∧ st'.regs a0 = c.d ∧
    st'.mem = c.mem.move c.d c.s c.n

section

variable {env : Env CpyLabel} {t : Target} {c : Copy} {k : ℕ} {st st' : State}
  {now now' : List (Instr CpyLabel)} {later later' : Listing CpyLabel}

theorem Copies.of_reaches
    (h : Reaches env (memcpyListing t) now later st now' later' st')
    (hc : Copies env t c now' later' st') : Copies env t c now later st := by
  obtain ⟨last, hends, hd, hmem⟩ := hc
  exact ⟨last, h.ends hends, hd, hmem⟩

/-- A block that checks is run, and the copy goes on behind it. -/
theorem Copies.of_check (hr : Ready env c) {f : Facts} {a b : Shape}
    {p : List (Instr CpyLabel)} {j : ℕ} (hcheck : check f a p j b = true)
    (h : Fits c k a st) (hf : f.Valid c k)
    (hrest : ∀ st', Fits c (k + j) b st' → Copies env t c now later st') :
    Copies env t c (p ++ now) later st := by
  obtain ⟨st', hblock, h'⟩ := check_sound hcheck h hf hr.up (Nat.le_of_lt hr.lt) hr.usable
  exact (hrest st' h').of_reaches (Reaches.block hblock)

/-- A jump, with the copy made from its target on. -/
theorem Copies.of_jump {i : Instr CpyLabel} {l : CpyLabel} (h : i.exec env st = .jump l st')
    (hc : Copies env t c [] ((memcpyListing t).since l) st') :
    Copies env t c (i :: now) later st :=
  hc.of_reaches (Reaches.jump h)

/-- A branch either way. -/
theorem Copies.of_branch {i : Instr CpyLabel} {cond : Bool} {l : CpyLabel}
    (hi : i.exec env st = branch cond l st)
    (htaken : cond = true → Copies env t c [] ((memcpyListing t).since l) st)
    (hpassed : cond = false → Copies env t c now later st) :
    Copies env t c (i :: now) later st := by
  cases hcond : cond with
  | true => exact (htaken hcond).of_jump (hi.trans (branch_taken hcond))
  | false => exact (hpassed hcond).of_reaches (Reaches.next (hi.trans (branch_passed hcond)))

/-- A copy that is complete. -/
theorem Copies.ret {a : Shape} (h : Fits c k a st) (ha : a.regs a0 = .dest) (hk : k + a.done = c.n) :
    Copies env t c (ret :: now) later st := by
  have h₀ := h.regs a0
  rw [ha] at h₀
  exact ⟨st, Ends.ret, h₀, by rw [h.mem, hk]⟩

/-! ### The binary digits of the length -/

/-- A digit of a register. -/
theorem and_pow_eq_zero (v : BitVec 64) {i : ℕ} (hi : i < 64) :
    v &&& BitVec.ofInt 64 (2 ^ i : ℕ) = 0 ↔ v.toNat.testBit i = false := by
  have hlt : 2 ^ i < 2 ^ 64 := Nat.pow_lt_pow_right (by decide) hi
  have hpow := Nat.two_pow_pos i
  have hzero : (0 : BitVec 64).toNat = 0 := rfl
  rw [BitVec.ofInt_natCast, ← BitVec.toNat_inj, BitVec.toNat_and, BitVec.toNat_ofNat,
    Nat.mod_eq_of_lt hlt, Nat.and_two_pow, hzero]
  cases v.toNat.testBit i with
  | false => simp
  | true => simp

/-- What is left by a digit that is tested. -/
theorem mod_of_masked {z : ℤ} {i : ℕ} {x : BitVec 64} (hx : (Val.masked .kept z).Holds c k x)
    (hi : i < 64) (hz : z = (2 ^ i : ℕ)) :
    c.kept.toNat % 2 ^ (i + 1) = c.kept.toNat % 2 ^ i + if x = 0 then 0 else 2 ^ i := by
  obtain ⟨w, hw, rfl⟩ := hx
  obtain rfl : w = c.kept := hw
  have hdigit := and_pow_eq_zero c.kept hi
  have hsplit := Nat.mod_pow_succ (x := c.kept.toNat) (b := 2) (k := i)
  rw [Nat.testBit_eq_decide_div_mod_eq, decide_eq_false_iff_not] at hdigit
  rw [hsplit, hz]
  rcases Decidable.em (c.kept &&& BitVec.ofInt 64 (2 ^ i : ℕ) = 0) with h | h
  · have hbit : c.kept.toNat / 2 ^ i % 2 = 0 := by
      have := hdigit.mp h
      omega
    rw [if_pos h, hbit, Nat.mul_zero]
  · have hbit : c.kept.toNat / 2 ^ i % 2 = 1 := by
      by_contra hne
      exact h (hdigit.mpr hne)
    rw [if_neg h, hbit, Nat.mul_one]

/-- A tail: `h` bytes are left, and those that the digits below `w` say. -/
structure Left (c : Copy) (w h k : ℕ) (st : State) : Prop where
  fits : Fits c k tail st
  len : c.n = k + h + c.kept.toNat % w

/-- The digit decides whether the next bytes are copied. -/
theorem Left.of_tested {z : ℤ} {i : ℕ} (h : Fits c k (tested z) st) (hi : i < 64)
    (hz : z = (2 ^ i : ℕ)) (hlen : c.n = k + c.kept.toNat % 2 ^ (i + 1)) :
    (st.regs a4 = 0 → Left c (2 ^ i) 0 k st) ∧ (st.regs a4 ≠ 0 → Left c (2 ^ i) (2 ^ i) k st) := by
  have hmod := mod_of_masked (h.regs a4) hi hz
  have htail : Fits c k tail st := h.of_covers (j := 0) rfl
  refine ⟨fun h₀ => ⟨htail, ?_⟩, fun h₁ => ⟨htail, ?_⟩⟩
  · rw [if_pos h₀] at hmod
    omega
  · rw [if_neg h₁] at hmod
    omega

/-- `bnez` on a digit. -/
theorem Copies.of_bnez {z : ℤ} {i : ℕ} {l : CpyLabel} (h : Fits c k (tested z) st) (hi : i < 64)
    (hz : z = (2 ^ i : ℕ)) (hlen : c.n = k + c.kept.toNat % 2 ^ (i + 1))
    (hset : Left c (2 ^ i) (2 ^ i) k st → Copies env t c [] ((memcpyListing t).since l) st)
    (hclear : Left c (2 ^ i) 0 k st → Copies env t c now later st) :
    Copies env t c (bnez a4 l :: now) later st := by
  obtain ⟨h₀, h₁⟩ := Left.of_tested h hi hz hlen
  exact Copies.of_branch rfl (fun hc => hset (h₁ (bne_iff_ne.mp hc)))
    fun hc => hclear (h₀ (bne_eq_false_iff_eq.mp hc))

/-- `beqz` on a digit. -/
theorem Copies.of_beqz {z : ℤ} {i : ℕ} {l : CpyLabel} (h : Fits c k (tested z) st) (hi : i < 64)
    (hz : z = (2 ^ i : ℕ)) (hlen : c.n = k + c.kept.toNat % 2 ^ (i + 1))
    (hclear : Left c (2 ^ i) 0 k st → Copies env t c [] ((memcpyListing t).since l) st)
    (hset : Left c (2 ^ i) (2 ^ i) k st → Copies env t c now later st) :
    Copies env t c (beqz a4 l :: now) later st := by
  obtain ⟨h₀, h₁⟩ := Left.of_tested h hi hz hlen
  exact Copies.of_branch rfl (fun hc => hclear (h₀ (beq_iff_eq.mp hc)))
    fun hc => hset (h₁ (beq_eq_false_iff_ne.mp hc))

/-! ### The tails by single bytes -/

/-- No alignment is known, and none is needed. -/
def bytesOf (m : ℕ) : Facts := ⟨m, none, none⟩

theorem bytesOf_valid {m : ℕ} (h : k + m ≤ c.n) : (bytesOf m).Valid c k :=
  ⟨h, fun _ hm => (by cases hm), fun _ hm => (by cases hm)⟩

/-- The last byte. -/
theorem bb52_copies (hr : Ready env c) {v : Val} (h : Fits c k (tail.put a2 v) st)
    (hlen : c.n = k + 1) : Copies env t c [] ((memcpyListing t).since bb52) st := by
  have hany : Fits c k (tail.put a2 .unknown) st := h.of_covers (j := 0) rfl
  apply Copies.of_reaches Reaches.fall
  apply Copies.of_check hr (p := [lbu a1 0 a1, sb a1 0 a3]) (f := bytesOf 1) (j := 1)
    (b := finished) (by decide) hany (bytesOf_valid (by omega))
  intro st' h'
  exact Copies.ret h' rfl (by rw [hlen]; rfl)

/-- The last digit in `a2`. -/
theorem last_copies (hr : Ready env c) (h : Fits c k (tail.put a2 (.masked .kept 1)) st)
    (hlen : c.n = k + c.kept.toNat % 2) :
    (st.regs a2 = 0 → Copies env t c [] ((memcpyListing t).since bb50) st) ∧
      (st.regs a2 ≠ 0 → Copies env t c [] ((memcpyListing t).since bb52) st) := by
  have hmod := mod_of_masked (i := 0) (h.regs a2) (by decide) rfl
  rw [Nat.zero_add, Nat.pow_one, Nat.pow_zero, Nat.mod_one, Nat.zero_add] at hmod
  constructor
  · intro h₀
    rw [hmod, if_pos h₀] at hlen
    exact Copies.of_reaches Reaches.fall (Copies.ret h rfl hlen.symm)
  · intro h₁
    rw [hmod, if_neg h₁] at hlen
    exact bb52_copies hr h hlen

/-- Up to three bytes. -/
theorem bb48_copies (hr : Ready env c) (h : Left c 4 0 k st) :
    Copies env t c [] ((memcpyListing t).since bb48) st := by
  have hlen := h.len
  apply Copies.of_reaches Reaches.fall
  apply Copies.of_check hr (p := [andi a4 a2 2]) (f := bytesOf 0) (j := 0) (b := tested 2)
    (by decide) h.fits (bytesOf_valid (by omega))
  intro st' h'
  refine Copies.of_bnez (i := 1) h' (by decide) rfl hlen ?_ ?_
  · intro hset
    have hlen' := hset.len
    apply Copies.of_reaches Reaches.fall
    refine Copies.of_check hr (p := bytes2 ++ [andi a2 a2 1]) (f := bytesOf 2) (j := 2)
      (b := tail.put a2 (.masked .kept 1)) (by decide) hset.fits (bytesOf_valid (by omega))
      fun st'' h'' => ?_
    obtain ⟨h₀, h₁⟩ := last_copies hr h'' hlen'
    exact Copies.of_branch rfl (fun hc => h₀ (beq_iff_eq.mp hc))
      fun hc => h₁ (beq_eq_false_iff_ne.mp hc)
  · intro hclear
    have hlen' := hclear.len
    apply Copies.of_check hr (p := [andi a2 a2 1]) (f := bytesOf 0) (j := 0)
      (b := tail.put a2 (.masked .kept 1)) (by decide) hclear.fits (bytesOf_valid (by omega))
    intro st'' h''
    obtain ⟨h₀, h₁⟩ := last_copies hr h'' hlen'
    exact Copies.of_branch rfl (fun hc => h₁ (bne_iff_ne.mp hc))
      fun hc => h₀ (bne_eq_false_iff_eq.mp hc)

/-- Four bytes and the rest. -/
theorem bb47_copies (hr : Ready env c) (h : Left c 4 4 k st) :
    Copies env t c [] ((memcpyListing t).since bb47) st := by
  have hlen := h.len
  apply Copies.of_reaches Reaches.fall
  apply Copies.of_check hr (p := bytes4) (f := bytesOf 4) (j := 4) (b := tail) (by decide)
    h.fits (bytesOf_valid (by omega))
  intro st' h'
  exact bb48_copies hr ⟨h', hlen⟩

/-- Up to seven bytes. -/
theorem bb11_copies (hr : Ready env c) (h : Left c 8 0 k st) :
    Copies env t c [] ((memcpyListing t).since bb11) st := by
  have hlen := h.len
  apply Copies.of_reaches Reaches.fall
  apply Copies.of_check hr (p := [andi a4 a2 4]) (f := bytesOf 0) (j := 0) (b := tested 4)
    (by decide) h.fits (bytesOf_valid (by omega))
  intro st' h'
  exact Copies.of_bnez (i := 2) h' (by decide) rfl hlen (bb47_copies hr)
    fun hclear => Copies.of_jump rfl (bb48_copies hr hclear)

/-- Eight bytes and the rest. -/
theorem bb46_copies (hr : Ready env c) (h : Left c 8 8 k st) :
    Copies env t c [] ((memcpyListing t).since bb46) st := by
  have hlen := h.len
  apply Copies.of_reaches Reaches.fall
  refine Copies.of_check hr (p := bytes8 ++ [andi a4 a2 4]) (f := bytesOf 8) (j := 8)
    (b := tested 4) (by decide) h.fits (bytesOf_valid (by omega)) fun st' h' => ?_
  exact Copies.of_beqz (i := 2) h' (by decide) rfl hlen (bb48_copies hr) (bb47_copies hr)

/-- Up to fifteen bytes. -/
theorem bb10_copies (hr : Ready env c) (h : Left c 16 0 k st) :
    Copies env t c [] ((memcpyListing t).since bb10) st := by
  have hlen := h.len
  apply Copies.of_reaches Reaches.fall
  apply Copies.of_check hr (p := [andi a4 a2 8]) (f := bytesOf 0) (j := 0) (b := tested 8)
    (by decide) h.fits (bytesOf_valid (by omega))
  intro st' h'
  exact Copies.of_bnez (i := 3) h' (by decide) rfl hlen (bb46_copies hr) (bb11_copies hr)

/-- Sixteen bytes and the rest. -/
theorem bb45_copies (hr : Ready env c) (h : Left c 16 16 k st) :
    Copies env t c [] ((memcpyListing t).since bb45) st := by
  have hlen := h.len
  apply Copies.of_reaches Reaches.fall
  refine Copies.of_check hr (p := bytes16 ++ [andi a4 a2 8]) (f := bytesOf 16) (j := 16)
    (b := tested 8) (by decide) h.fits (bytesOf_valid (by omega)) fun st' h' => ?_
  exact Copies.of_beqz (i := 3) h' (by decide) rfl hlen (bb11_copies hr) (bb46_copies hr)

/-- Up to thirty-one bytes. -/
theorem bb9_copies (hr : Ready env c) (h : Left c 32 0 k st) :
    Copies env t c [] ((memcpyListing t).since bb9) st := by
  have hlen := h.len
  apply Copies.of_reaches Reaches.fall
  apply Copies.of_check hr (p := [andi a4 a2 16]) (f := bytesOf 0) (j := 0) (b := tested 16)
    (by decide) h.fits (bytesOf_valid (by omega))
  intro st' h'
  exact Copies.of_bnez (i := 4) h' (by decide) rfl hlen (bb45_copies hr) (bb10_copies hr)

/-- Thirty-two bytes and the rest. -/
theorem bb44_copies (hr : Ready env c) (h : Left c 32 32 k st) :
    Copies env t c [] ((memcpyListing t).since bb44) st := by
  have hlen := h.len
  apply Copies.of_reaches Reaches.fall
  refine Copies.of_check hr (p := bytes32 ++ [andi a4 a2 16]) (f := bytesOf 32) (j := 32)
    (b := tested 16) (by decide) h.fits (bytesOf_valid (by omega)) fun st' h' => ?_
  exact Copies.of_beqz (i := 4) h' (by decide) rfl hlen (bb10_copies hr) (bb45_copies hr)

/-! ### The exact length -/

theorem toNat_of_const {z : ℤ} {m : ℕ} {x : BitVec 64} (hx : (Val.const z).Holds c k x)
    (hz : z = m) (hm : m < 2 ^ 64) : x.toNat = m := by
  rw [show x = _ from hx, hz, BitVec.ofInt_natCast, BitVec.toNat_ofNat, Nat.mod_eq_of_lt hm]

theorem toNat_of_left {z : ℤ} {m : ℕ} {x : BitVec 64} (hx : (Val.left z).Holds c k x)
    (hz : (c.n : ℤ) - (k + z) = m) (hm : m < 2 ^ 64) : x.toNat = m := by
  rw [show x = _ from hx, hz, BitVec.ofInt_natCast, BitVec.toNat_ofNat, Nat.mod_eq_of_lt hm]

/-- The length left at the heads. -/
theorem toNat_synced (hr : Ready env c) {x : BitVec 64} (hx : (Val.left 0).Holds c k x)
    (hk : k ≤ c.n) : x.toNat = c.n - k := by
  have hlt := hr.lt
  exact toNat_of_left hx (by omega) (by omega)

/-- The copy with another value kept. -/
def keep (c : Copy) (v : BitVec 64) : Copy := { c with kept := v }

theorem Ready.keep (hr : Ready env c) (v : BitVec 64) : Ready env (keep c v) :=
  ⟨hr.up, hr.lt, ⟨hr.usable.src, hr.usable.dst⟩⟩

theorem Copies.of_keep {v : BitVec 64} (h : Copies env t (keep c v) now later st) :
    Copies env t c now later st := by
  obtain ⟨st', hends, hd, hmem⟩ := h
  exact ⟨st', hends, hd, hmem⟩

/-- The exact length may be kept. -/
theorem keep_left (h : Fits c k synced st) : Fits (keep c (st.regs a2)) k tail st := by
  refine ⟨?_, h.mem⟩
  intro r
  cases r with
  | a0 => exact h.regs a0
  | a1 => exact h.regs a1
  | a2 => exact rfl
  | a3 => exact h.regs a3
  | _ => exact trivial

/-- The digits of the exact length. -/
theorem Left.of_synced (hr : Ready env c) (h : Fits c k synced st) (hk : k ≤ c.n) :
    (c.n - k < 32 → Left (keep c (st.regs a2)) 32 0 k st) ∧
      (32 ≤ c.n - k → c.n - k < 64 → Left (keep c (st.regs a2)) 32 32 k st) := by
  have hlen : (st.regs a2).toNat = c.n - k := toNat_synced hr (h.regs a2) hk
  refine ⟨fun hlow => ⟨keep_left h, ?_⟩, fun hhigh hlow => ⟨keep_left h, ?_⟩⟩
  · show c.n = k + 0 + (st.regs a2).toNat % 32
    omega
  · show c.n = k + 32 + (st.regs a2).toNat % 32
    omega

theorem bb9_synced (hr : Ready env c) (h : Fits c k synced st) (hk : k ≤ c.n)
    (hlen : c.n - k < 32) : Copies env t c [] ((memcpyListing t).since bb9) st :=
  (bb9_copies (hr.keep _) ((Left.of_synced hr h hk).1 hlen)).of_keep

theorem bb44_synced (hr : Ready env c) (h : Fits c k synced st) (hk : k ≤ c.n)
    (hlow : 32 ≤ c.n - k) (hhigh : c.n - k < 64) :
    Copies env t c [] ((memcpyListing t).since bb44) st :=
  (bb44_copies (hr.keep _) ((Left.of_synced hr h hk).2 hlow hhigh)).of_keep

/-! ### The merging loops -/

/-- The heads are as far from multiples of eight as `f` says, `j` bytes further on. -/
theorem at_mod (p : Addr) (k j : ℕ) : (p.at (k + j)).toNat % 8 = ((p.at k).toNat + j) % 8 := by
  rw [← Addr.at_at, Addr.at, BitVec.toNat_add, BitVec.toNat_ofNat]
  omega

/-- The facts a merging loop needs. -/
def mergeFacts (p : ℕ) : Facts := ⟨40, some 0, some (8 - p)⟩

theorem mergePass_checks : ∀ p, p < 8 → 0 < p →
    check (mergeFacts p) (merging p) (mergePass (64 - 8 * p) (8 * p)) 32 (merging p) = true := by
  decide +kernel

theorem mergeExit_checks : ∀ p : ℕ, p < 8 → 0 < p →
    check (bytesOf 0) (merging p) ([addi a1 a1 (-(32 - p)), li a4 32] : List (Instr CpyLabel)) p
      (synced.put a4 (.const 32)) = true := by
  decide +kernel

theorem mergeLead_checks : ∀ p, p < 8 → 0 < p →
    check (mergeFacts p) (synced.put a4 (.data (sourceBytes 0 8))) (mergeLead (8 - p)) 0
      (merging p) = true := by
  decide +kernel

/-- **A merging loop** copies all but less than forty bytes, and the tails the rest. -/
theorem mergeLoop_copies (hr : Ready env c) {p : ℕ} (hp : p < 8) (hpos : 0 < p)
    {self : CpyLabel} {exit : List (Instr CpyLabel)}
    (hself : (memcpyListing t).since self =
      (self, mergeLoop (64 - 8 * p) (8 * p) self (-(32 - p)) ++ exit) :: later)
    (hexit : ∀ st, Reaches env (memcpyListing t) exit later st []
      ((memcpyListing t).since bb44) st)
    (h : Fits c k (merging p) st) (hroom : k + 40 ≤ c.n) (hs : (c.s.at k).toNat % 8 = 0)
    (hd : (c.d.at k).toNat % 8 = 8 - p) :
    Copies env t c [] ((memcpyListing t).since self) st := by
  -- The induction is on the passes left.
  obtain ⟨left, hleft⟩ : ∃ left, (c.n - k) / 32 = left := ⟨_, rfl⟩
  induction left generalizing k st with
  | zero => omega
  | succ left ih =>
    have hvalid : (mergeFacts p).Valid c k :=
      ⟨hroom, fun m hm => Option.some.inj hm ▸ hs, fun m hm => Option.some.inj hm ▸ hd⟩
    rw [hself]
    apply Copies.of_reaches Reaches.fall
    rw [mergeLoop, List.append_assoc]
    apply Copies.of_check hr (mergePass_checks p hp hpos) h hvalid
    intro st₁ h₁
    have ha5 : (st₁.regs a5).toNat = 39 - p :=
      toNat_of_const (h₁.regs a5) (by omega) (by omega)
    have hlt := hr.lt
    have ha2 : (st₁.regs a2).toNat = c.n - (k + 32 + p) :=
      toNat_of_left (h₁.regs a2) (by omega) (by omega)
    refine Copies.of_branch rfl ?_ ?_
    · intro hmore
      have hless : (st₁.regs a5).toNat < (st₁.regs a2).toNat := of_decide_eq_true hmore
      refine ih h₁ (by omega) ?_ ?_ (by omega)
      · rw [at_mod, Nat.add_mod, hs]
      · rw [at_mod, Nat.add_mod, hd]
        omega
    · intro hdone
      have hge : ¬(st₁.regs a5).toNat < (st₁.regs a2).toNat := of_decide_eq_false hdone
      apply Copies.of_check hr (p := [addi a1 a1 (-(32 - p)), li a4 32]) (mergeExit_checks p hp hpos)
        h₁ (bytesOf_valid (by omega))
      intro st₂ h₂
      have hsync : Fits c (k + 32 + p) synced st₂ := h₂.of_covers (j := 0) rfl
      have ha4 : (st₂.regs a4).toNat = 32 := toNat_of_const (m := 32) (h₂.regs a4) rfl (by decide)
      have ha2' : (st₂.regs a2).toNat = c.n - (k + 32 + p) :=
        toNat_synced hr (hsync.regs a2) (by omega)
      refine Copies.of_branch rfl ?_ ?_
      · intro hless
        have hless' : (st₂.regs a2).toNat < (st₂.regs a4).toNat := of_decide_eq_true hless
        exact bb9_synced hr hsync (by omega) (by omega)
      · intro hmore
        have hge' : ¬(st₂.regs a2).toNat < (st₂.regs a4).toNat := of_decide_eq_false hmore
        refine (bb44_synced hr hsync (by omega) (by omega) (by omega)).of_reaches (hexit st₂)

/-- What is merged with what, by the offset of the destination. -/
theorem merge_copies (hr : Ready env c) {r : ℕ} {l : CpyLabel}
    (hl : tableEntries[r]? = some l)
    (h : Fits c k (synced.put a4 (.data (sourceBytes 0 8))) st) (hroom : k + 40 ≤ c.n)
    (hs : (c.s.at k).toNat % 8 = 0) (hd : (c.d.at k).toNat % 8 = r + 1) :
    Copies env t c [] ((memcpyListing t).since l) st := by
  have hr₇ : r < 7 := (List.getElem?_eq_some_iff.mp hl).1
  have hvalid : (mergeFacts (7 - r)).Valid c k := by
    refine ⟨hroom, fun m hm => Option.some.inj hm ▸ hs, ?_⟩
    intro m hm
    rw [hd, ← Option.some.inj hm]
    omega
  have hlead := mergeLead_checks (7 - r) (by omega) (by omega)
  -- The seven entries, with the loops behind their leads.
  have hcase : ∀ (self : CpyLabel) (exit : List (Instr CpyLabel)) {later : Listing CpyLabel},
      (memcpyListing t).since l = (l, mergeLead (8 - (7 - r))) :: (memcpyListing t).since self →
      (memcpyListing t).since self = (self, mergeLoop (64 - 8 * (7 - r)) (8 * (7 - r)) self
        (-(32 - (7 - r : ℕ))) ++ exit) :: later →
      (∀ st, Reaches env (memcpyListing t) exit later st [] ((memcpyListing t).since bb44) st) →
      Copies env t c [] ((memcpyListing t).since l) st := by
    intro self exit later hfirst hself hexit
    rw [hfirst]
    apply Copies.of_reaches Reaches.fall
    rw [← List.append_nil (mergeLead _)]
    apply Copies.of_check hr hlead h hvalid
    intro st' h'
    exact mergeLoop_copies (k := k) hr (by omega) (by omega) hself hexit h' hroom hs (by omega)
  interval_cases r
  · obtain rfl := Option.some.inj hl
    exact hcase bb14 _ rfl rfl fun st => Reaches.jump rfl
  · obtain rfl := Option.some.inj hl
    exact hcase bb36 _ rfl rfl fun st => Reaches.jump rfl
  · obtain rfl := Option.some.inj hl
    exact hcase bb30 _ rfl rfl fun st => Reaches.jump rfl
  · obtain rfl := Option.some.inj hl
    exact hcase bb33 _ rfl rfl fun st => Reaches.jump rfl
  · obtain rfl := Option.some.inj hl
    exact hcase bb27 _ rfl rfl fun st => Reaches.jump rfl
  · obtain rfl := Option.some.inj hl
    exact hcase bb39 _ rfl rfl fun st => Reaches.jump rfl
  · obtain rfl := Option.some.inj hl
    exact hcase bb42 [] rfl rfl fun st => Reaches.refl

end

/-! ### The dispatch -/

/-- The destination does not overlap the table. -/
def Apart (t : Target) (env : Env CpyLabel) (c : Copy) : Prop :=
  ∀ b j, b < 7 * t.width → j < c.n → c.d.at j ≠ (env.place jti).at b

/-- What an entry is loaded as. -/
def Target.extend : Target → BitVec 64 → BitVec 64
  | .sp1, v => (v.setWidth 32).signExtend 64
  | .zisk, v => v

section

variable {env : Env CpyLabel} {t : Target} {c : Copy} {k : ℕ} {st : State}

theorem Target.exec_load (rd : Reg) (off : ℤ) (base : Reg) : (t.load rd off base).exec env st =
    loadEffect env st rd (st.addr off base) t.width t.extend := by
  cases t with
  | sp1 => rfl
  | zisk => rfl

/-- An entry is loaded as the address that was put there. -/
theorem Linked.extend_emit {mem : Memory} (hlink : Linked t env mem) {l : CpyLabel}
    (hl : l ∈ tableEntries) : t.extend (t.emit (env.place l)) = env.place l := by
  cases t with
  | sp1 =>
    have hlow := hlink.low l hl rfl
    have hwidth : ((env.place l).setWidth 32).toNat = (env.place l).toNat := by
      rw [BitVec.toNat_setWidth, Nat.mod_eq_of_lt (by omega)]
    have hmsb : ((env.place l).setWidth 32).msb = false := by
      rw [BitVec.msb_eq_decide, decide_eq_false_iff_not, hwidth]
      omega
    rw [Target.emit, Target.extend, BitVec.setWidth_setWidth_of_le _ (by decide), BitVec.setWidth_eq,
      BitVec.signExtend_eq_setWidth_of_msb_false hmsb, ← BitVec.toNat_inj, BitVec.toNat_setWidth,
      hwidth, Nat.mod_eq_of_lt (env.place l).isLt]
  | zisk => rfl

/-- The offset of a pointer from a multiple of eight. -/
theorem toNat_of_masked (p : Addr) {x : BitVec 64}
    (hx : x = (p + BitVec.ofInt 64 (k + 0)) &&& BitVec.ofInt 64 7) :
    x.toNat = (p.at k).toNat % 8 := by
  have hseven : (BitVec.ofInt 64 7).toNat = 2 ^ 3 - 1 := rfl
  rw [hx, Int.add_zero, BitVec.ofInt_natCast, BitVec.toNat_and, hseven,
    Nat.and_two_pow_sub_one_eq_mod]
  rfl

theorem toNat_of_dst {x : BitVec 64} (hx : (Val.masked (.dst 0) 7).Holds c k x) :
    x.toNat = (c.d.at k).toNat % 8 := by
  obtain ⟨w, rfl, hx⟩ := hx
  exact toNat_of_masked c.d hx

theorem toNat_of_src {x : BitVec 64} (hx : (Val.masked (.src 0) 7).Holds c k x) :
    x.toNat = (c.s.at k).toNat % 8 := by
  obtain ⟨w, rfl, hx⟩ := hx
  exact toNat_of_masked c.s hx

/-- The index into the table. -/
theorem index_of_offset (t : Target) {r : ℕ} (hr : r < 7) :
    (BitVec.ofNat 64 (r + 1) + BitVec.ofInt 64 (-1)) <<< t.shift =
      BitVec.ofNat 64 (t.width * r) := by
  cases t with
  | sp1 =>
    interval_cases r <;> rfl
  | zisk =>
    interval_cases r <;> rfl

/-- **The dispatch** through the table. -/
theorem bb12_copies (hr : Ready env c) (hlink : Linked t env c.mem) (hapart : Apart t env c)
    (h : Fits c k (synced.put a4 (.masked (.dst 0) 7)) st) (hroom : k + 64 ≤ c.n)
    (hs : (c.s.at k).toNat % 8 = 0) (hd : (c.d.at k).toNat % 8 ≠ 0) :
    Copies env t c [] ((memcpyListing t).since bb12) st := by
  obtain ⟨r, hoff⟩ : ∃ r, (c.d.at k).toNat % 8 = r + 1 := Nat.exists_eq_succ_of_ne_zero hd
  have hr₇ : r < 7 := by omega
  obtain ⟨l, hl⟩ : ∃ l, tableEntries[r]? = some l := ⟨_, List.getElem?_eq_getElem hr₇⟩
  have hmem : l ∈ tableEntries := List.mem_of_getElem? hl
  have ha4 : st.regs a4 = BitVec.ofNat 64 (r + 1) := by
    have hnat := toNat_of_dst (h.regs a4)
    rw [hoff] at hnat
    rw [← hnat, BitVec.ofNat_toNat, BitVec.setWidth_eq]
  -- The address of the entry.
  generalize hs₁ : st.put a4 (st.regs a4 + BitVec.ofInt 64 (-1)) = s₁
  generalize hs₂ : s₁.put a4 (s₁.regs a4 <<< t.shift) = s₂
  generalize hs₃ : s₂.put a5 (env.place jti) = s₃
  generalize hs₄ : s₃.put a4 (s₃.regs a4 + s₃.regs a5) = s₄
  have hrun : Reaches env (memcpyListing t) [] ((memcpyListing t).since bb12) st
      [t.load a5 0 a4, ld a4 0 a1, jr a5] ((memcpyListing t).since bb13) s₄ := by
    refine Reaches.fall.trans ((Reaches.next (t := s₁) ?_).trans
      ((Reaches.next (t := s₂) ?_).trans ((Reaches.next (t := s₃) ?_).trans (Reaches.next ?_))))
    · rw [exec, hs₁]
    · rw [exec, hs₂]
    · rw [exec, hs₃]
    · rw [exec, hs₄]
  have h₄ : Fits c k synced s₄ := by
    rw [← hs₄, ← hs₃, ← hs₂, ← hs₁]
    exact ((((h.forget a4 _).forget a4 _).forget a5 _).forget a4 _).of_covers (j := 0) rfl
  have haddr : s₄.addr 0 a4 = (env.place jti).at (t.width * r) := by
    have hindex : s₃.regs a4 = BitVec.ofNat 64 (t.width * r) := by
      rw [← hs₃, State.put_of_ne _ (by decide), ← hs₂, State.put_self, ← hs₁, State.put_self, ha4,
        index_of_offset t hr₇]
    have hbase : s₃.regs a5 = env.place jti := by rw [← hs₃, State.put_self]
    rw [State.addr, ← hs₄, State.put_self, hindex, hbase, BitVec.add_comm _ (env.place jti)]
    exact BitVec.add_zero _
  -- The copy has not written over the table.
  have hload : s₄.mem.load ((env.place jti).at (t.width * r)) t.width = t.emit (env.place l) := by
    rw [← hlink.entry r l hl, h₄.mem]
    refine Memory.load_congr fun b hb => c.mem.move_of_not_mem _ _ ?_
    intro j hj
    have hin : t.width * r + b < 7 * t.width := by
      cases t with
      | sp1 => exact (by simp only [Target.width] at hb ⊢; omega)
      | zisk => exact (by simp only [Target.width] at hb ⊢; omega)
    have hdone : j < k := hj
    rw [Addr.at_at]
    exact hapart _ j hin (by omega)
  have hexec : (t.load a5 0 a4).exec env s₄ = .next (s₄.put a5 (env.place l)) := by
    rw [Target.exec_load, haddr, loadEffect, if_pos (hlink.allowed r hr₇), hload,
      hlink.extend_emit hmem]
  apply Copies.of_reaches (hrun.trans (Reaches.next hexec))
  -- The address is kept in `a5` while the first double word is loaded.
  have h₅ : Fits (keep c (env.place l)) k (synced.put a5 .kept) (s₄.put a5 (env.place l)) := by
    have hkeep : Fits (keep c (env.place l)) k synced s₄ := by
      refine ⟨?_, h₄.mem⟩
      intro r
      cases r with
      | a0 => exact h₄.regs a0
      | a1 => exact h₄.regs a1
      | a2 => exact h₄.regs a2
      | a3 => exact h₄.regs a3
      | _ => exact trivial
    exact hkeep.put a5 rfl
  have hvalid : (⟨8, some 0, none⟩ : Facts).Valid (keep c (env.place l)) k :=
    ⟨by show k + 8 ≤ c.n; omega, fun m hm => Option.some.inj hm ▸ hs, fun m hm => by cases hm⟩
  refine (Copies.of_check (hr.keep _) (p := [ld a4 0 a1]) (j := 0)
    (b := (synced.put a4 (.data (sourceBytes 0 8))).put a5 .kept) (by decide) h₅ hvalid
    ?_).of_keep
  intro st' h'
  have htarget : st'.regs a5 = env.place l := h'.regs a5
  have hjump : (jr a5 : Instr CpyLabel).exec env st' = .jump l st' := by
    rw [exec, htarget, hlink.target l hmem]
  apply Copies.of_jump hjump
  have hdata : Fits (keep c (env.place l)) k (synced.put a4 (.data (sourceBytes 0 8))) st' :=
    h'.of_covers (j := 0) rfl
  exact merge_copies (hr.keep _) hl hdata (by show k + 40 ≤ c.n; omega) hs hoff

/-- The destination is not aligned. -/
theorem bb7_copies (hr : Ready env c) (hlink : Linked t env c.mem) (hapart : Apart t env c)
    (h : Fits c k (synced.put a4 (.masked (.dst 0) 7)) st) (hk : k ≤ c.n)
    (hs : k < c.n → (c.s.at k).toNat % 8 = 0) (hd : (c.d.at k).toNat % 8 ≠ 0) :
    Copies env t c [] ((memcpyListing t).since bb7) st := by
  apply Copies.of_reaches Reaches.fall
  apply Copies.of_check hr (p := [li a5 64]) (f := bytesOf 0) (j := 0)
    (b := (synced.put a4 (.masked (.dst 0) 7)).put a5 (.const 64)) (by decide) h
    (bytesOf_valid (by omega))
  intro st₁ h₁
  have ha2 : (st₁.regs a2).toNat = c.n - k := toNat_synced hr (h₁.regs a2) hk
  have ha5 : (st₁.regs a5).toNat = 64 := toNat_of_const (m := 64) (h₁.regs a5) rfl (by decide)
  refine Copies.of_branch rfl ?_ ?_
  · intro hlong
    have hle : (st₁.regs a5).toNat ≤ (st₁.regs a2).toNat := of_decide_eq_true hlong
    exact bb12_copies hr hlink hapart (h₁.of_covers (j := 0) (by decide)) (by omega)
      (hs (by omega)) hd
  · intro hshort
    have hlt : ¬(st₁.regs a5).toNat ≤ (st₁.regs a2).toNat := of_decide_eq_false hshort
    apply Copies.of_check hr (p := [li a4 32]) (f := bytesOf 0) (j := 0)
      (b := synced.put a4 (.const 32)) (by decide) h₁ (bytesOf_valid (by omega))
    intro st₂ h₂
    have hsync : Fits c k synced st₂ := h₂.of_covers (j := 0) (by decide)
    have ha2' : (st₂.regs a2).toNat = c.n - k := toNat_synced hr (hsync.regs a2) hk
    have ha4 : (st₂.regs a4).toNat = 32 := toNat_of_const (m := 32) (h₂.regs a4) rfl (by decide)
    refine Copies.of_branch rfl ?_ ?_
    · intro hmore
      have hle : (st₂.regs a4).toNat ≤ (st₂.regs a2).toNat := of_decide_eq_true hmore
      exact bb44_synced hr hsync hk (by omega) (by omega)
    · intro hless
      have hlt' : ¬(st₂.regs a4).toNat ≤ (st₂.regs a2).toNat := of_decide_eq_false hless
      exact bb9_synced hr hsync hk (by omega)

/-! ### Aligned ranges -/

/-- Both heads are at multiples of eight, if anything is left. -/
def HeadsAligned (c : Copy) (k : ℕ) : Prop :=
  k < c.n → (c.s.at k).toNat % 8 = 0 ∧ (c.d.at k).toNat % 8 = 0

/-- Both heads are at multiples of eight. -/
def alignedOf (m : ℕ) : Facts := ⟨m, some 0, some 0⟩

theorem alignedOf_valid (h : HeadsAligned c k) {m : ℕ} (hpos : 0 < m) (hroom : k + m ≤ c.n) :
    (alignedOf m).Valid c k := by
  obtain ⟨hs, hd⟩ := h (by omega)
  exact ⟨hroom, fun _ hm => Option.some.inj hm ▸ hs, fun _ hm => Option.some.inj hm ▸ hd⟩

theorem HeadsAligned.add (h : HeadsAligned c k) {j : ℕ} (hj : j % 8 = 0) : HeadsAligned c (k + j) := by
  intro hlt
  obtain ⟨hs, hd⟩ := h (by omega)
  rw [at_mod, at_mod]
  omega

/-- Four bytes and the rest. -/
theorem bb25_copies (hr : Ready env c) (h : Left c 4 4 k st) (hal : HeadsAligned c k) :
    Copies env t c [] ((memcpyListing t).since bb25) st := by
  have hlen := h.len
  apply Copies.of_reaches Reaches.fall
  apply Copies.of_check hr (p := word4) (j := 4) (b := tail) (by decide) h.fits
    (alignedOf_valid hal (m := 4) (by decide) (by omega))
  intro st' h'
  exact Copies.of_jump rfl (bb48_copies hr ⟨h', hlen⟩)

/-- Eight bytes and the rest. -/
theorem bb24_copies (hr : Ready env c) (h : Left c 8 8 k st) (hal : HeadsAligned c k) :
    Copies env t c [] ((memcpyListing t).since bb24) st := by
  have hlen := h.len
  apply Copies.of_reaches Reaches.fall
  refine Copies.of_check hr (p := dword8 ++ [andi a4 a2 4]) (j := 8) (b := tested 4) (by decide)
    h.fits (alignedOf_valid hal (m := 8) (by decide) (by omega)) fun st' h' => ?_
  exact Copies.of_beqz (i := 2) h' (by decide) rfl hlen (bb48_copies hr)
    fun hset => bb25_copies hr hset (hal.add rfl)

/-- Up to seven bytes. -/
theorem bb22_copies (hr : Ready env c) (h : Left c 8 0 k st) (hal : HeadsAligned c k) :
    Copies env t c [] ((memcpyListing t).since bb22) st := by
  have hlen := h.len
  apply Copies.of_reaches Reaches.fall
  apply Copies.of_check hr (p := [andi a4 a2 4]) (f := bytesOf 0) (j := 0) (b := tested 4)
    (by decide) h.fits (bytesOf_valid (by omega))
  intro st' h'
  exact Copies.of_bnez (i := 2) h' (by decide) rfl hlen (fun hset => bb25_copies hr hset hal)
    fun hclear => Copies.of_jump rfl (bb48_copies hr hclear)

/-- Sixteen bytes and the rest. -/
theorem bb23_copies (hr : Ready env c) (h : Left c 16 16 k st) (hal : HeadsAligned c k) :
    Copies env t c [] ((memcpyListing t).since bb23) st := by
  have hlen := h.len
  apply Copies.of_reaches Reaches.fall
  refine Copies.of_check hr (p := dword16 ++ [andi a4 a2 8]) (j := 16) (b := tested 8)
    (by decide) h.fits (alignedOf_valid hal (m := 16) (by decide) (by omega)) fun st' h' => ?_
  exact Copies.of_beqz (i := 3) h' (by decide) rfl hlen
    (fun hclear => bb22_copies hr hclear (hal.add rfl))
    fun hset => bb24_copies hr hset (hal.add rfl)

/-- Up to thirty-one bytes. -/
theorem bb20_copies (hr : Ready env c) (h : Fits c k synced st) (hk : k ≤ c.n)
    (hless : c.n - k < 32) (hal : HeadsAligned c k) :
    Copies env t c [] ((memcpyListing t).since bb20) st := by
  apply Copies.of_reaches Reaches.fall
  apply Copies.of_check hr (p := [li a4 16]) (f := bytesOf 0) (j := 0)
    (b := synced.put a4 (.const 16)) (by decide) h (bytesOf_valid (by omega))
  intro st₁ h₁
  have hsync : Fits c k synced st₁ := h₁.of_covers (j := 0) (by decide)
  have ha2 : (st₁.regs a2).toNat = c.n - k := toNat_synced hr (hsync.regs a2) hk
  have ha4 : (st₁.regs a4).toNat = 16 := toNat_of_const (m := 16) (h₁.regs a4) rfl (by decide)
  have htail := keep_left hsync
  refine Copies.of_branch rfl ?_ ?_
  · intro hmore
    have hle : (st₁.regs a4).toNat ≤ (st₁.regs a2).toNat := of_decide_eq_true hmore
    have hleft : Left (keep c (st₁.regs a2)) 16 16 k st₁ := by
      refine ⟨htail, ?_⟩
      show c.n = k + 16 + (st₁.regs a2).toNat % 16
      omega
    exact (bb23_copies (hr.keep _) hleft hal).of_keep
  · intro hfew
    have hlt : ¬(st₁.regs a4).toNat ≤ (st₁.regs a2).toNat := of_decide_eq_false hfew
    have hlen : c.n = k + (st₁.regs a2).toNat % 16 := by omega
    refine (Copies.of_check (hr.keep _) (p := [andi a4 a2 8]) (f := bytesOf 0) (j := 0)
      (b := tested 8) (by decide) htail (bytesOf_valid hk) ?_).of_keep
    intro st₂ h₂
    exact Copies.of_bnez (i := 3) h₂ (by decide) rfl hlen
      (fun hset => bb24_copies (hr.keep _) hset hal)
      fun hclear => bb22_copies (hr.keep _) hclear hal

/-- The loop over double words. -/
theorem bb19_copies (hr : Ready env c) (h : Fits c k (synced.put a4 (.const 31)) st)
    (hroom : k + 32 ≤ c.n) (hal : HeadsAligned c k) :
    Copies env t c [] ((memcpyListing t).since bb19) st := by
  -- The induction is on the passes left.
  obtain ⟨left, hleft⟩ : ∃ left, (c.n - k) / 32 = left := ⟨_, rfl⟩
  induction left generalizing k st with
  | zero => omega
  | succ left ih =>
    apply Copies.of_reaches Reaches.fall
    apply Copies.of_check hr (p := dwordPass) (j := 32) (b := synced.put a4 (.const 31))
      (by decide) h (alignedOf_valid hal (m := 32) (by decide) hroom)
    intro st₁ h₁
    have hsync : Fits c (k + 32) synced st₁ := h₁.of_covers (j := 0) (by decide)
    have ha2 : (st₁.regs a2).toNat = c.n - (k + 32) := toNat_synced hr (hsync.regs a2) hroom
    have ha4 : (st₁.regs a4).toNat = 31 := toNat_of_const (m := 31) (h₁.regs a4) rfl (by decide)
    refine Copies.of_branch rfl ?_ ?_
    · intro hmore
      have hlt : (st₁.regs a4).toNat < (st₁.regs a2).toNat := of_decide_eq_true hmore
      exact ih h₁ (by omega) (hal.add rfl) (by omega)
    · intro hdone
      have hge : ¬(st₁.regs a4).toNat < (st₁.regs a2).toNat := of_decide_eq_false hdone
      exact bb20_copies hr hsync hroom (by omega) (hal.add rfl)

theorem bb17_copies (hr : Ready env c) (h : Fits c k synced st) (hk : k ≤ c.n) (hal : HeadsAligned c k) :
    Copies env t c [] ((memcpyListing t).since bb17) st := by
  apply Copies.of_reaches Reaches.fall
  apply Copies.of_check hr (p := [li a4 32]) (f := bytesOf 0) (j := 0)
    (b := synced.put a4 (.const 32)) (by decide) h (bytesOf_valid (by omega))
  intro st₁ h₁
  have hsync : Fits c k synced st₁ := h₁.of_covers (j := 0) (by decide)
  have ha2 : (st₁.regs a2).toNat = c.n - k := toNat_synced hr (hsync.regs a2) hk
  have ha4 : (st₁.regs a4).toNat = 32 := toNat_of_const (m := 32) (h₁.regs a4) rfl (by decide)
  refine Copies.of_branch rfl ?_ ?_
  · intro hless
    have hlt : (st₁.regs a2).toNat < (st₁.regs a4).toNat := of_decide_eq_true hless
    exact bb20_copies hr hsync hk (by omega) hal
  · intro hmore
    have hge : ¬(st₁.regs a2).toNat < (st₁.regs a4).toNat := of_decide_eq_false hmore
    apply Copies.of_check hr (p := [li a4 31]) (f := bytesOf 0) (j := 0)
      (b := synced.put a4 (.const 31)) (by decide) hsync (bytesOf_valid (by omega))
    intro st₂ h₂
    exact bb19_copies hr h₂ (by omega) hal

/-- The source is aligned, if anything is left. -/
theorem bb6_copies (hr : Ready env c) (hlink : Linked t env c.mem) (hapart : Apart t env c)
    (h : Fits c k synced st) (hk : k ≤ c.n) (hs : k < c.n → (c.s.at k).toNat % 8 = 0) :
    Copies env t c [] ((memcpyListing t).since bb6) st := by
  apply Copies.of_reaches Reaches.fall
  apply Copies.of_check hr (p := [andi a4 a3 7]) (f := bytesOf 0) (j := 0)
    (b := synced.put a4 (.masked (.dst 0) 7)) (by decide) h (bytesOf_valid (by omega))
  intro st₁ h₁
  have ha4 : (st₁.regs a4).toNat = (c.d.at k).toNat % 8 := toNat_of_dst (h₁.regs a4)
  refine Copies.of_branch rfl ?_ ?_
  · intro hzero
    have hd : (c.d.at k).toNat % 8 = 0 := by
      rw [← ha4, beq_iff_eq.mp hzero]
      rfl
    exact bb17_copies hr (h₁.of_covers (j := 0) (by decide)) hk fun hlt => ⟨hs hlt, hd⟩
  · intro hne
    have hd : (c.d.at k).toNat % 8 ≠ 0 := by
      intro hd
      rw [hd] at ha4
      exact beq_eq_false_iff_ne.mp hne (BitVec.eq_of_toNat_eq ha4)
    exact bb7_copies hr hlink hapart h₁ hk hs hd

/-! ### The start -/

/-- The loop by single bytes: `a4` is a byte ahead of the source. -/
def aligning : Shape := (synced.put a4 (.src 1)).put a5 (.const 1)

/-- A byte further on, before `a4` follows. -/
def alignNext : Shape :=
  (((synced.put a4 (.src 0)).put a5 (.const 1)).put a6 (.left (-1))).put t0 (.masked (.src 0) 7)

/-- The source is aligned, or nothing is left. -/
theorem bb3_copies (hr : Ready env c) (hlink : Linked t env c.mem) (hapart : Apart t env c)
    (h : Fits c k aligning st) (hk : k < c.n) :
    Copies env t c [] ((memcpyListing t).since bb3) st := by
  have hlt := hr.lt
  -- The induction is on the bytes left.
  obtain ⟨left, hleft⟩ : ∃ left, c.n - k = left := ⟨_, rfl⟩
  induction left generalizing k st with
  | zero => omega
  | succ left ih =>
    apply Copies.of_reaches Reaches.fall
    apply Copies.of_check hr (p := bytePass) (f := bytesOf 1) (j := 1) (b := alignNext)
      (by decide) h (bytesOf_valid (by omega))
    intro st₁ h₁
    have ht0 : (st₁.regs t0).toNat = (c.s.at (k + 1)).toNat % 8 := toNat_of_src (h₁.regs t0)
    refine Copies.of_branch rfl ?_ ?_
    · intro hzero
      have hs : (c.s.at (k + 1)).toNat % 8 = 0 := by
        rw [← ht0, beq_iff_eq.mp hzero]
        rfl
      exact bb6_copies hr hlink hapart (h₁.of_covers (j := 0) (by decide)) hk fun _ => hs
    · intro _
      apply Copies.of_check hr (p := [addi a4 a4 1]) (f := bytesOf 0) (j := 0)
        (b := aligning.put a6 (.left (-1))) (by decide) h₁ (bytesOf_valid (by omega))
      intro st₂ h₂
      have ha5 : (st₂.regs a5).toNat = 1 := toNat_of_const (m := 1) (h₂.regs a5) rfl (by decide)
      have ha6 : (st₂.regs a6).toNat = c.n - k :=
        toNat_of_left (k := k + 1) (h₂.regs a6) (by omega) (by omega)
      refine Copies.of_branch rfl ?_ ?_
      · intro hmore
        have hne : (st₂.regs a6).toNat ≠ (st₂.regs a5).toNat :=
          fun heq => bne_iff_ne.mp hmore (BitVec.eq_of_toNat_eq heq)
        exact ih (h₂.of_covers (j := 0) (by decide)) (by omega) (by omega)
      · intro hdone
        have heq : (st₂.regs a6).toNat = (st₂.regs a5).toNat := by
          rw [bne_eq_false_iff_eq.mp hdone]
        exact Copies.of_jump rfl (bb6_copies hr hlink hapart (h₂.of_covers (j := 0) (by decide)) hk
          fun _ => by omega)

/-- The registers at the call. -/
def called : Shape where
  regs
    | a0 => .dst 0
    | a1 => .src 0
    | a2 => .left 0
    | _ => .unknown
  done := 0

/-- At the call the destination is the pointer to it. -/
theorem Copies.of_start {a a' : Shape} (hcov : a'.covers 0 (a.put a0 .dest) = true)
    (ha : a.regs a0 = .dst 0) (h : Fits c 0 a st) : Fits c 0 a' st := by
  have hdest : Fits c 0 (a.put a0 .dest) st := by
    refine ⟨?_, h.mem⟩
    intro r
    rcases Decidable.em (r = a0) with rfl | hne
    · have h₀ := h.regs a0
      rw [ha] at h₀
      have hzero : c.d + BitVec.ofInt 64 ((0 : ℕ) + 0) = c.d := BitVec.add_zero c.d
      rw [Shape.put_self]
      exact h₀.trans hzero
    · rw [Shape.put_of_ne a hne]
      exact h.regs r
  exact hdest.of_covers hcov

/-- **The whole of `memcpy`.** -/
theorem memcpyListing_copies (hr : Ready env c) (hlink : Linked t env c.mem)
    (hapart : Apart t env c) (h : Fits c 0 called st) :
    Copies env t c [] (memcpyListing t) st := by
  apply Copies.of_reaches Reaches.fall
  refine Copies.of_check hr (p := [andi a3 a1 7]) (f := bytesOf 0) (j := 0)
    (b := called.put a3 (.masked (.src 0) 7)) (by decide) h (bytesOf_valid (Nat.zero_le _))
    ?_
  intro st₁ h₁
  have ha3 : (st₁.regs a3).toNat = (c.s.at 0).toNat % 8 := toNat_of_src (h₁.regs a3)
  refine Copies.of_branch rfl ?_ ?_
  · intro hzero
    have hs : (c.s.at 0).toNat % 8 = 0 := by
      rw [← ha3, beq_iff_eq.mp hzero]
      rfl
    apply Copies.of_reaches Reaches.fall
    refine Copies.of_check hr (p := [mv a3 a0, andi a4 a0 7]) (f := bytesOf 0) (j := 0)
      (b := (called.put a3 (.dst 0)).put a4 (.masked (.dst 0) 7)) (by decide) h₁
      (bytesOf_valid (Nat.zero_le _)) ?_
    intro st₂ h₂
    have hstart : Fits c 0 (synced.put a4 (.masked (.dst 0) 7)) st₂ :=
      Copies.of_start (by decide) rfl h₂
    have ha4 : (st₂.regs a4).toNat = (c.d.at 0).toNat % 8 := toNat_of_dst (h₂.regs a4)
    refine Copies.of_branch rfl ?_ ?_
    · intro hne
      refine bb7_copies hr hlink hapart hstart (Nat.zero_le _) (fun _ => hs) ?_
      intro hd
      rw [hd] at ha4
      exact bne_iff_ne.mp hne (BitVec.eq_of_toNat_eq ha4)
    · intro hzero'
      have hd : (c.d.at 0).toNat % 8 = 0 := by
        rw [← ha4, bne_eq_false_iff_eq.mp hzero']
        rfl
      exact bb17_copies hr (hstart.of_covers (j := 0) (by decide)) (Nat.zero_le _)
        fun _ => ⟨hs, hd⟩
  · intro _
    have ha2 : (st₁.regs a2).toNat = c.n - 0 := toNat_synced hr (h₁.regs a2) (Nat.zero_le _)
    refine Copies.of_branch rfl ?_ ?_
    · intro hnone
      have hn : c.n = 0 := by
        rw [beq_iff_eq.mp hnone] at ha2
        exact ha2.symm
      apply Copies.of_reaches Reaches.fall
      refine Copies.of_check hr (p := [mv a3 a0]) (f := bytesOf 0) (j := 0)
        (b := called.put a3 (.dst 0)) (by decide) h₁ (bytesOf_valid (Nat.zero_le _))
        ?_
      intro st₂ h₂
      exact bb6_copies hr hlink hapart (Copies.of_start (by decide) rfl h₂) (Nat.zero_le _)
        fun hlt => absurd hlt (by omega)
    · intro hsome
      have hn : c.n ≠ 0 := by
        intro hn
        rw [hn] at ha2
        exact beq_eq_false_iff_ne.mp hsome (BitVec.eq_of_toNat_eq ha2)
      refine Copies.of_check hr (p := [addi a4 a1 1, li a5 1, mv a3 a0]) (f := bytesOf 0) (j := 0)
        (b := ((called.put a3 (.dst 0)).put a4 (.src 1)).put a5 (.const 1)) (by decide) h₁
        (bytesOf_valid (Nat.zero_le _)) ?_
      intro st₂ h₂
      exact bb3_copies hr hlink hapart (Copies.of_start (by decide) rfl h₂) (by omega)

end

end StatelessGuest.Rv64
