import StatelessGuest.Ssz.Bytes

/-!
# Reading through unchecked spans

A span is a pointer and a length, and nothing ties the two together: slicing
computes a new pointer and takes the new length on trust.  A pointer is
modelled by the bytes from it to the end of the buffer, so that a read past the
end of the buffer can be told from one that merely leaves the span.

A reading computation has a value and a log of every sub-slice it made, every
read it did and every offset difference it took.  The value is what comes out
if the memory after the buffer holds zeros; it counts only where the log shows
no read out there, and otherwise the outcome is a fault.

## Main definitions

* `WordSize` — the two widths of `size_t`, with wrapping arithmetic.
* `Fault`, `Access` — why a computation stops, and what the log records.
* `Dec`, `Dec.outcome` — a reading computation, and its result or fault.
* `Dec.Every`, `Dec.Returns`, `Dec.Confined` — predicates on the whole log.
* `Dec.forRange` — a counted loop that collects its results.
* `ByteSpan` — a span, with `slice`, `from`, `read` and the integer readers.

## Main results

* `Dec.every_bind`, `Dec.every_forRange` — a predicate holds of all accesses of
  a sequence or a loop exactly when it does for each step.
* `ByteSpan.bytes_drop` — the bytes of a sub-slice that stays inside its span.
-/

namespace Ssz

/-! ### Machine words -/

/-- The width of `size_t` on a target. -/
inductive WordSize
  /-- 32-bit targets. -/
  | bits32
  /-- 64-bit targets. -/
  | bits64
  deriving DecidableEq, Repr

/-- One more than the largest `size_t`. -/
def WordSize.modulus : WordSize → ℕ
  | .bits32 => 2 ^ 32
  | .bits64 => 2 ^ 64

/-- Addition of `size_t` values. -/
def WordSize.add (w : WordSize) (a b : ℕ) : ℕ := (a + b) % w.modulus

/-- Subtraction of `size_t` values. -/
def WordSize.sub (w : WordSize) (a b : ℕ) : ℕ := (w.modulus - b + a) % w.modulus

/-- Multiplication of `size_t` values. -/
def WordSize.mul (w : WordSize) (a b : ℕ) : ℕ := (a * b) % w.modulus

/-- The number of bits of a `size_t`. -/
def WordSize.bits : WordSize → ℕ
  | .bits32 => 32
  | .bits64 => 64

/-- `v >> k`, which is undefined where `k` is not less than the width of `v`. -/
def WordSize.shr (w : WordSize) (v k : ℕ) : Option ℕ :=
  if k < w.bits then some (v >>> k) else none

theorem WordSize.le_modulus (w : WordSize) : 2 ^ 32 ≤ w.modulus := by
  cases w <;> norm_num [WordSize.modulus]

theorem WordSize.mul_eq (w : WordSize) {a b : ℕ} (h : a * b < 2 ^ 32) : w.mul a b = a * b :=
  Nat.mod_eq_of_lt (lt_of_lt_of_le h w.le_modulus)

theorem WordSize.sub_eq_of_lt (w : WordSize) {a b : ℕ} (hba : b ≤ a) (ha : a < w.modulus) :
    w.sub a b = a - b := by
  have hsplit : w.modulus - b + a = a - b + w.modulus := by omega
  rw [WordSize.sub, hsplit, Nat.add_mod_right, Nat.mod_eq_of_lt (by omega)]

theorem WordSize.sub_eq (w : WordSize) {a b : ℕ} (hba : b ≤ a) (ha : a < 2 ^ 32) :
    w.sub a b = a - b := w.sub_eq_of_lt hba (lt_of_lt_of_le ha w.le_modulus)

/-! ### Faults and the access log -/

/-- Why a computation stops without a result. -/
inductive Fault
  /-- A byte outside the buffer was read or written. -/
  | outOfBounds
  /-- A lookup in a map found no entry. -/
  | outOfRange
  /-- A result is not representable in its type. -/
  | unrepresentable
  /-- A recursion did not end. -/
  | stackOverflow
  deriving DecidableEq, Repr

/-- One entry of the access log. -/
inductive Access
  /-- A read of `n` bytes at `off` of a span of `len` bytes, with `room` bytes
  left in the buffer. -/
  | read (room len off n : ℕ)
  /-- A sub-slice of `n` bytes at `off` of a span of `len` bytes. -/
  | slice (len off n : ℕ)
  /-- A difference `hi - lo` of two offsets. -/
  | diff (hi lo : ℕ)
  deriving DecidableEq, Repr

/-- The access does not read past the end of the buffer. -/
def Access.Inside : Access → Prop
  | .read room _ off n => off + n ≤ room
  | .slice _ _ _ => True
  | .diff _ _ => True

/-- The access stays inside its span, and the difference does not wrap. -/
def Access.Confined : Access → Prop
  | .read _ len off n => off + n ≤ len
  | .slice len off n => off + n ≤ len
  | .diff hi lo => lo ≤ hi

instance : DecidablePred Access.Inside := fun a => by
  cases a
  · exact inferInstanceAs (Decidable (_ ≤ _))
  · exact inferInstanceAs (Decidable True)
  · exact inferInstanceAs (Decidable True)

instance : DecidablePred Access.Confined := fun a => by
  cases a <;> exact inferInstanceAs (Decidable (_ ≤ _))

/-- A reading computation. -/
structure Dec (α : Type) where
  /-- The result, where memory past the buffer counts as zero. -/
  val : α
  /-- Every access, in order. -/
  log : List Access

namespace Dec

variable {α β : Type}

/-- Run the second computation on the result of the first. -/
def bind (m : Dec α) (f : α → Dec β) : Dec β := ⟨(f m.val).val, m.log ++ (f m.val).log⟩

instance : Monad Dec where
  pure a := ⟨a, []⟩
  bind := bind

/-- Every access of the computation satisfies `P`. -/
def Every (P : Access → Prop) (m : Dec α) : Prop := ∀ a ∈ m.log, P a

/-- No access reads past the end of the buffer. -/
abbrev Returns (m : Dec α) : Prop := m.Every Access.Inside

/-- Every access stays inside its span. -/
abbrev Confined (m : Dec α) : Prop := m.Every Access.Confined

instance (P : Access → Prop) [DecidablePred P] (m : Dec α) : Decidable (m.Every P) :=
  inferInstanceAs (Decidable (∀ a ∈ m.log, P a))

/-- The result, unless a read left the buffer. -/
def outcome (m : Dec α) : Except Fault α := if m.Returns then .ok m.val else .error .outOfBounds

theorem outcome_eq_ok {m : Dec α} {a : α} : m.outcome = .ok a ↔ m.Returns ∧ m.val = a := by
  unfold outcome
  split
  · rename_i h
    simp [h]
  · rename_i h
    simp [h]

variable {P : Access → Prop}

-- A proof in parentheses is no unfolding for `simp` to leave to the kernel, which
-- would compare whole computations.
@[simp] theorem val_pure (a : α) : (pure a : Dec α).val = a := (rfl)

theorem bind_eq (m : Dec α) (f : α → Dec β) : m >>= f = bind m f := rfl

@[simp] theorem val_bind (m : Dec α) (f : α → Dec β) : (m >>= f).val = (f m.val).val :=
  (rfl)

@[simp] theorem every_pure (a : α) : (pure a : Dec α).Every P := by
  intro x hx
  cases hx

/-- **A predicate holds of all accesses of a sequence exactly when it does for
its two halves.** -/
@[simp] theorem every_bind (m : Dec α) (f : α → Dec β) :
    (m >>= f).Every P ↔ m.Every P ∧ (f m.val).Every P :=
  List.forall_mem_append

theorem val_ite {c : Prop} [Decidable c] (m₁ m₂ : Dec α) :
    (if c then m₁ else m₂).val = if c then m₁.val else m₂.val := by
  split <;> rfl

theorem every_ite {c : Prop} [Decidable c] (m₁ m₂ : Dec α) :
    (if c then m₁ else m₂).Every P ↔ (c → m₁.Every P) ∧ (¬c → m₂.Every P) := by
  split
  · rename_i h
    simp [h]
  · rename_i h
    simp [h]

/-! ### Counted loops -/

/-- `for (i = 0; i < n; ++i) out.push_back(f(i))`. -/
def forRange : ℕ → (ℕ → Dec α) → Dec (List α)
  | 0, _ => pure []
  | n + 1, f => do
      let out ← forRange n f
      let x ← f n
      return out ++ [x]

@[simp] theorem val_forRange (n : ℕ) (f : ℕ → Dec α) :
    (forRange n f).val = (List.range n).map fun i => (f i).val := by
  induction n with
  | zero => rfl
  | succ n ih =>
    simp only [forRange, val_bind, val_pure, ih, List.range_succ, List.map_append,
      List.map_singleton]

/-- A predicate holds of all accesses of a loop exactly when it does for each
pass. -/
@[simp] theorem every_forRange (n : ℕ) (f : ℕ → Dec α) :
    (forRange n f).Every P ↔ ∀ i, i < n → (f i).Every P := by
  induction n with
  | zero => simp [forRange]
  | succ n ih =>
    simp only [forRange, every_bind, ih, every_pure, and_true]
    constructor
    · rintro ⟨h, hn⟩ i hi
      rcases Nat.lt_succ_iff_lt_or_eq.mp hi with hi | rfl
      · exact h i hi
      · exact hn
    · intro h
      exact ⟨fun i hi => h i (by omega), h n (by omega)⟩

end Dec

/-! ### Spans -/

/-- A view of a byte buffer: a pointer, given by the bytes from it to the end of
the buffer, and a length that nothing checks against the buffer. -/
@[ext]
structure ByteSpan where
  /-- The bytes from the pointer to the end of the buffer. -/
  ptr : Bytes
  /-- The length the span claims. -/
  len : ℕ
  deriving DecidableEq, Repr

namespace ByteSpan

/-- The null span. -/
def null : ByteSpan := ⟨[], 0⟩

/-- The span of a whole buffer. -/
def ofBytes (b : Bytes) : ByteSpan := ⟨b, b.length⟩

/-- The bytes a span stands for; positions past the end of the buffer, which no
read can reach, count as zero. -/
def bytes (s : ByteSpan) : Bytes := s.ptr.takeD s.len 0

/-- The span lies inside the buffer. -/
def InBounds (s : ByteSpan) : Prop := s.len ≤ s.ptr.length

instance (s : ByteSpan) : Decidable s.InBounds := inferInstanceAs (Decidable (_ ≤ _))

/-- The first `n` bytes of the span, or all of them if it has fewer, lie inside the buffer. -/
def Holds (s : ByteSpan) (n : ℕ) : Prop := min s.len n ≤ s.ptr.length

instance (s : ByteSpan) (n : ℕ) : Decidable (s.Holds n) := inferInstanceAs (Decidable (_ ≤ _))

theorem InBounds.holds {s : ByteSpan} (h : s.InBounds) (n : ℕ) : s.Holds n :=
  (Nat.min_le_left _ _).trans h

@[simp] theorem length_bytes (s : ByteSpan) : s.bytes.length = s.len := List.takeD_length _ _ _

theorem bytes_eq_take {s : ByteSpan} (h : s.InBounds) : s.bytes = s.ptr.take s.len :=
  takeD_eq_take h

@[simp] theorem bytes_null : null.bytes = [] := rfl

@[simp] theorem ptr_ofBytes (b : Bytes) : (ofBytes b).ptr = b := rfl

@[simp] theorem len_ofBytes (b : Bytes) : (ofBytes b).len = b.length := rfl

@[simp] theorem inBounds_ofBytes (b : Bytes) : (ofBytes b).InBounds := Nat.le_refl _

@[simp] theorem bytes_ofBytes (b : Bytes) : (ofBytes b).bytes = b := by
  rw [bytes_eq_take (inBounds_ofBytes b)]
  exact List.take_length

/-- A sub-slice of a span inside the buffer. -/
theorem inBounds_drop {s : ByteSpan} (hs : s.InBounds) {off n : ℕ} (h : off + n ≤ s.len) :
    (⟨s.ptr.drop off, n⟩ : ByteSpan).InBounds := by
  have : s.len ≤ s.ptr.length := hs
  simp only [InBounds, List.length_drop]
  omega

/-- The bytes of a sub-slice that stays inside its span. -/
theorem bytes_drop {s : ByteSpan} {off n : ℕ} (h : off + n ≤ s.len) :
    (⟨s.ptr.drop off, n⟩ : ByteSpan).bytes = window s.bytes off n :=
  (window_takeD h).symm

theorem padTo_window_ptr {s : ByteSpan} {k n : ℕ} (h : k + n ≤ s.len) :
    padTo n (window s.ptr k n) = padTo n (window s.bytes k n) := by
  have hlen : (window s.bytes k n).length = n := length_window_of_le (by rwa [length_bytes])
  apply toList_injective
  rw [toList_padTo, toList_padTo, takeD_self hlen, ← bytes_drop h, bytes, window, takeD_take]

theorem leNat_window_ptr {s : ByteSpan} {k n : ℕ} (h : k + n ≤ s.len) :
    leNat (window s.ptr k n) = leNat (window s.bytes k n) := by
  rw [← bytes_drop h, bytes, leNat_takeD, window]

theorem u32At_ptr {s : ByteSpan} {k : ℕ} (h : k + 4 ≤ s.len) :
    u32At s.ptr k = u32At s.bytes k := leNat_window_ptr h

/-- `{ptr + off, n}`. -/
def slice (s : ByteSpan) (off n : ℕ) : Dec ByteSpan :=
  ⟨⟨s.ptr.drop off, n⟩, [.slice s.len off n]⟩

/-- `{ptr + off, len - off}`, with the difference taken in `size_t`. -/
def «from» (w : WordSize) (s : ByteSpan) (off : ℕ) : Dec ByteSpan :=
  ⟨⟨s.ptr.drop off, w.sub s.len off⟩, [.slice s.len off (w.sub s.len off)]⟩

/-- Copy `n` bytes from `ptr + k`. -/
def read (s : ByteSpan) (k n : ℕ) : Dec (ByteVec n) :=
  ⟨padTo n (s.ptr.drop k), [.read s.ptr.length s.len k n]⟩

/-- `read_u32le(ptr + k)`. -/
def readU32le (s : ByteSpan) (k : ℕ) : Dec ℕ :=
  ⟨leNat (padTo 4 (s.ptr.drop k)).toList, [.read s.ptr.length s.len k 4]⟩

/-- `read_u64le(ptr + k)`. -/
def readU64le (s : ByteSpan) (k : ℕ) : Dec (BitVec 64) :=
  ⟨BitVec.ofNat 64 (leNat (padTo 8 (s.ptr.drop k)).toList), [.read s.ptr.length s.len k 8]⟩

variable {P : Access → Prop} (s : ByteSpan) (k n off : ℕ)

@[simp] theorem val_slice : (s.slice off n).val = ⟨s.ptr.drop off, n⟩ := (rfl)

@[simp] theorem val_from (w : WordSize) :
    (s.from w off).val = ⟨s.ptr.drop off, w.sub s.len off⟩ := (rfl)

@[simp] theorem val_read : (s.read k n).val = padTo n (window s.ptr k n) :=
  toList_injective (takeD_take n (s.ptr.drop k)).symm

@[simp] theorem val_readU32le : (s.readU32le k).val = u32At s.ptr k := by
  rw [readU32le, toList_padTo, u32At, window, leNat_takeD]

@[simp] theorem val_readU64le : (s.readU64le k).val = BitVec.ofNat 64 (leNat (window s.ptr k 8)) := by
  rw [readU64le, toList_padTo, leNat_takeD, window]

@[simp] theorem every_slice : (s.slice off n).Every P ↔ P (.slice s.len off n) :=
  List.forall_mem_singleton

@[simp] theorem every_from (w : WordSize) :
    (s.from w off).Every P ↔ P (.slice s.len off (w.sub s.len off)) :=
  List.forall_mem_singleton

@[simp] theorem every_read : (s.read k n).Every P ↔ P (.read s.ptr.length s.len k n) :=
  List.forall_mem_singleton

@[simp] theorem every_readU32le : (s.readU32le k).Every P ↔ P (.read s.ptr.length s.len k 4) :=
  List.forall_mem_singleton

@[simp] theorem every_readU64le : (s.readU64le k).Every P ↔ P (.read s.ptr.length s.len k 8) :=
  List.forall_mem_singleton

end ByteSpan

/-! ### Offset differences -/

-- The modulus comes first in the sum: `hi + 2 ^ 32` would be unfolded by the
-- kernel one successor at a time.
/-- The difference of two 32-bit offsets, wrapping. -/
@[irreducible]
def sub32 (hi lo : ℕ) : ℕ := (2 ^ 32 - lo + hi) % 2 ^ 32

theorem sub32_lt (hi lo : ℕ) : sub32 hi lo < 2 ^ 32 := by
  unfold sub32
  exact Nat.mod_lt _ (by norm_num)

theorem sub32_eq {hi lo : ℕ} (h : lo ≤ hi) (hhi : hi < 2 ^ 32) : sub32 hi lo = hi - lo := by
  have hsplit : 2 ^ 32 - lo + hi = hi - lo + 2 ^ 32 := by omega
  rw [sub32, hsplit, Nat.add_mod_right, Nat.mod_eq_of_lt (by omega)]

/-- `hi - lo` in `uint32_t`. -/
def subU32 (hi lo : ℕ) : Dec ℕ := ⟨sub32 hi lo, [.diff hi lo]⟩

/-- `hi - lo` in `size_t`. -/
def subSize (w : WordSize) (hi lo : ℕ) : Dec ℕ := ⟨w.sub hi lo, [.diff hi lo]⟩

/-- The part of a span between two 32-bit offsets, the difference wrapping. -/
def ByteSpan.cut (s : ByteSpan) (lo hi : ℕ) : ByteSpan := ⟨s.ptr.drop lo, sub32 hi lo⟩

@[simp] theorem ByteSpan.len_cut (s : ByteSpan) (lo hi : ℕ) : (s.cut lo hi).len = sub32 hi lo := (rfl)

/-- `slice(lo, hi - lo)` for two 32-bit offsets. -/
def ByteSpan.between (s : ByteSpan) (lo hi : ℕ) : Dec ByteSpan := do
  let n ← subU32 hi lo
  s.slice lo n

section

variable {P : Access → Prop} (hi lo : ℕ)

@[simp] theorem val_subU32 : (subU32 hi lo).val = sub32 hi lo := (rfl)

@[simp] theorem val_subSize (w : WordSize) : (subSize w hi lo).val = w.sub hi lo := (rfl)

@[simp] theorem val_between (s : ByteSpan) :
    (s.between lo hi).val = s.cut lo hi := (rfl)

@[simp] theorem every_subU32 : (subU32 hi lo).Every P ↔ P (.diff hi lo) :=
  List.forall_mem_singleton

@[simp] theorem every_subSize (w : WordSize) : (subSize w hi lo).Every P ↔ P (.diff hi lo) :=
  List.forall_mem_singleton

theorem every_between (s : ByteSpan) : (s.between lo hi).Every P ↔
    P (.diff hi lo) ∧ P (.slice s.len lo (sub32 hi lo)) := by
  simp [ByteSpan.between]

@[simp] theorem returns_between (s : ByteSpan) : (s.between lo hi).Returns := by
  rw [Dec.Returns, every_between]
  exact ⟨trivial, trivial⟩

end

/-- A sub-slice between two offsets is confined exactly when they are in order
and end within the span. -/
theorem confined_between (s : ByteSpan) (lo : ℕ) {hi : ℕ} (hhi : hi < 2 ^ 32) :
    (s.between lo hi).Confined ↔ lo ≤ hi ∧ hi ≤ s.len := by
  rw [Dec.Confined, every_between]
  simp only [Access.Confined]
  constructor
  · rintro ⟨hle, hlen⟩
    rw [sub32_eq hle hhi] at hlen
    omega
  · rintro ⟨hle, hlen⟩
    rw [sub32_eq hle hhi]
    omega

end Ssz
