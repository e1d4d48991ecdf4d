import StatelessGuest.Ssz.Bytes

/-!
# Heads, offsets and bodies

A composite value is laid out as the sequence of its parts.  A fixed-size part
stands in the head in full; a variable-size part stands in the head as a 32-bit
offset and its bytes follow the head.  Offsets count from the start of the
composite, so the first one is the length of the head and the others are
running totals.

## Main definitions

* `Part` — a part, inline or with a body.
* `headLen`, `headOf`, `bodiesOf`, `layout` — the encoding of a list of parts.

## Main results

* `layout_map_inline` — fixed-size items are simply concatenated.
* `headOf_append`, `bodiesOf_append` — a layout grows part by part.
-/

namespace Ssz

/-- One part of a composite encoding. -/
inductive Part where
  /-- A fixed-size part, written in place. -/
  | inline (b : Bytes)
  /-- A variable-size part, written after the head. -/
  | body (b : Bytes)
  deriving DecidableEq, Repr

/-- The bytes of a part. -/
def Part.bytes : Part → Bytes
  | .inline b => b
  | .body b => b

/-- The length of the head. -/
def headLen : List Part → ℕ
  | [] => 0
  | .inline b :: ps => b.length + headLen ps
  | .body _ :: ps => 4 + headLen ps

/-- The head, where `next` is the offset of the first body. -/
def headOf : ℕ → List Part → Bytes
  | _, [] => []
  | next, .inline b :: ps => b ++ headOf next ps
  | next, .body b :: ps => leBytes 4 next ++ headOf (next + b.length) ps

/-- The bodies, in order. -/
def bodiesOf : List Part → Bytes
  | [] => []
  | .inline _ :: ps => bodiesOf ps
  | .body b :: ps => b ++ bodiesOf ps

/-- The encoding of a list of parts. -/
def layout (ps : List Part) : Bytes := headOf (headLen ps) ps ++ bodiesOf ps

@[simp] theorem length_headOf (next : ℕ) (ps : List Part) :
    (headOf next ps).length = headLen ps := by
  induction ps generalizing next with
  | nil => rfl
  | cons p ps ih => cases p <;> simp [headOf, headLen, ih]

theorem length_layout (ps : List Part) :
    (layout ps).length = headLen ps + (bodiesOf ps).length := by
  simp [layout]

theorem bodiesOf_append (ps qs : List Part) : bodiesOf (ps ++ qs) = bodiesOf ps ++ bodiesOf qs := by
  induction ps with
  | nil => rfl
  | cons p ps ih => cases p <;> simp [bodiesOf, ih]

theorem headOf_append (next : ℕ) (ps qs : List Part) :
    headOf next (ps ++ qs) = headOf next ps ++ headOf (next + (bodiesOf ps).length) qs := by
  induction ps generalizing next with
  | nil => rfl
  | cons p ps ih => cases p <;> simp [headOf, bodiesOf, ih, Nat.add_assoc]

/-- The length of each part is at most that of the whole. -/
theorem length_le_of_mem {p : Part} (ps : List Part) (h : p ∈ ps) :
    p.bytes.length ≤ (layout ps).length := by
  rw [length_layout]
  induction ps with
  | nil => simp at h
  | cons q ps ih =>
    rcases List.mem_cons.mp h with rfl | h
    · cases p <;> simp only [Part.bytes, headLen, bodiesOf, List.length_append] <;> omega
    · have := ih h
      cases q <;> simp only [headLen, bodiesOf, List.length_append] <;> omega

/-! ### Lists of items of one kind -/

/-- Fixed-size items are concatenated. -/
theorem layout_map_inline {α : Type*} (f : α → Bytes) (xs : List α) :
    layout (xs.map fun x => .inline (f x)) = (xs.map f).flatten := by
  have hbodies : bodiesOf (xs.map fun x => .inline (f x)) = [] := by
    induction xs with
    | nil => rfl
    | cons x xs ih => simp [bodiesOf, ih]
  have hhead : ∀ next, headOf next (xs.map fun x => .inline (f x)) = (xs.map f).flatten := by
    intro next
    clear hbodies
    induction xs with
    | nil => rfl
    | cons x xs ih => simp [headOf, ih]
  rw [layout, hhead, hbodies, List.append_nil]

@[simp] theorem headLen_map_body {α : Type*} (f : α → Bytes) (xs : List α) :
    headLen (xs.map fun x => .body (f x)) = 4 * xs.length := by
  induction xs with
  | nil => rfl
  | cons x xs ih =>
    rw [List.map_cons, headLen, ih, List.length_cons]
    omega

@[simp] theorem bodiesOf_map_body {α : Type*} (f : α → Bytes) (xs : List α) :
    bodiesOf (xs.map fun x => .body (f x)) = (xs.map f).flatten := by
  induction xs with
  | nil => rfl
  | cons x xs ih => simp [bodiesOf, ih]

end Ssz
