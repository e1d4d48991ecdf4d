import StatelessGuest.Ssz.Layout

/-!
# SSZ types and their serialization

The types of the simple-serialize format, the values of each, and the one
recursive definition of their encoding.  A value carries the lengths its type
fixes; the limits of lists and byte lists are a separate condition, since a
decoder may well hand on a list that is too long.

## Main definitions

* `SszType`, `SszType.Val` — the types and their values.
* `SszType.Fits` — every list of a value is within its limit.
* `SszType.serialize` — the encoding.
* `SszType.size` — the length of the encodings of a fixed-size type.

## Main results

* `SszType.length_serialize` — values of a fixed-size type have encodings of one length.
* `SszType.serialize_list_fixed`, `SszType.serialize_list_body` — the two ways a
  list is laid out.
-/

namespace Ssz

/-- An SSZ type. -/
inductive SszType where
  /-- An unsigned integer of `width` bytes. -/
  | uint (width : ℕ)
  /-- A byte vector of exactly `n` bytes. -/
  | bytes (n : ℕ)
  /-- A byte list of at most `limit` bytes. -/
  | byteList (limit : ℕ)
  /-- A list of at most `limit` items. -/
  | list (elem : SszType) (limit : ℕ)
  /-- A container of fields. -/
  | container (fields : List SszType)

namespace SszType

mutual

/-- The values of a type. -/
@[reducible] def Val : SszType → Type
  | .uint w => BitVec (8 * w)
  | .bytes n => ByteVec n
  | .byteList _ => Bytes
  | .list t _ => List t.Val
  | .container ts => Vals ts

/-- The values of a sequence of fields. -/
@[reducible] def Vals : List SszType → Type
  | [] => Unit
  | t :: ts => t.Val × Vals ts

end

mutual

/-- Every list and byte list of a value is within its limit. -/
def Fits : (t : SszType) → t.Val → Prop
  | .uint _, _ => True
  | .bytes _, _ => True
  | .byteList limit, v => List.length v ≤ limit
  | .list t limit, vs => List.length vs ≤ limit ∧ ∀ v ∈ (vs : List t.Val), Fits t v
  | .container ts, vs => FitsAll ts vs

/-- `Fits` for each field. -/
def FitsAll : (ts : List SszType) → Vals ts → Prop
  | [], _ => True
  | t :: ts, (v, vs) => Fits t v ∧ FitsAll ts vs

end

mutual

/-- Encodings of the type all have one length. -/
def isFixed : SszType → Bool
  | .uint _ => true
  | .bytes _ => true
  | .byteList _ => false
  | .list _ _ => false
  | .container ts => allFixed ts

/-- Every field is of fixed size. -/
def allFixed : List SszType → Bool
  | [] => true
  | t :: ts => t.isFixed && allFixed ts

end

mutual

/-- The length of the encodings of a fixed-size type. -/
def size : SszType → ℕ
  | .uint w => w
  | .bytes n => n
  | .byteList _ => 0
  | .list _ _ => 0
  | .container ts => sizes ts

/-- The length of the encodings of a sequence of fixed-size fields. -/
def sizes : List SszType → ℕ
  | [] => 0
  | t :: ts => t.size + sizes ts

end

/-- The part an encoded item contributes to the composite it stands in. -/
def part (t : SszType) (b : Bytes) : Part := if t.isFixed then .inline b else .body b

mutual

/-- The encoding of a value. -/
def serialize : (t : SszType) → t.Val → Bytes
  | .uint w, v => leBytes w (BitVec.toNat v)
  | .bytes _, v => List.Vector.toList v
  | .byteList _, v => v
  | .list t _, vs => layout (List.map (fun v => part t (serialize t v)) vs)
  | .container ts, vs => layout (parts ts vs)

/-- The parts of a sequence of fields. -/
def parts : (ts : List SszType) → Vals ts → List Part
  | [], _ => []
  | t :: ts, (v, vs) => part t (serialize t v) :: parts ts vs

end

theorem part_bytes (t : SszType) (b : Bytes) : (part t b).bytes = b := by
  rw [part]
  split <;> rfl

/-- Fixed-size items are concatenated. -/
theorem serialize_list_fixed {t : SszType} (ht : t.isFixed = true) (limit : ℕ)
    (vs : List t.Val) :
    serialize (.list t limit) vs = (vs.map (serialize t)).flatten := by
  rw [serialize]
  simp only [part, ht, if_true]
  exact layout_map_inline (serialize t) vs

/-- Variable-size items follow a table of offsets. -/
theorem serialize_list_body {t : SszType} (ht : t.isFixed = false) (limit : ℕ)
    (vs : List t.Val) :
    serialize (.list t limit) vs = layout (vs.map fun v => .body (serialize t v)) := by
  rw [serialize]
  simp only [part, ht, Bool.false_eq_true, if_false]

/-! ### Fixed-size types -/

/-- The parts of fixed-size fields all stand in the head. -/
theorem parts_of_allFixed : ∀ {ts : List SszType}, allFixed ts = true → ∀ vs : Vals ts,
    parts ts vs = ((parts ts vs).map Part.bytes).map .inline
  | [], _, _ => rfl
  | t :: ts, h, (v, vs) => by
      have hts : t.isFixed = true ∧ allFixed ts = true := by simpa [allFixed] using h
      have ih := parts_of_allFixed hts.2 vs
      rw [parts, List.map_cons, List.map_cons, ← ih, part_bytes, part, if_pos hts.1]

/-- Fixed-size fields are concatenated. -/
theorem serialize_container_fixed {ts : List SszType} (h : allFixed ts = true) (vs : Vals ts) :
    serialize (.container ts) vs = ((parts ts vs).map Part.bytes).flatten := by
  have hcat := layout_map_inline id ((parts ts vs).map Part.bytes)
  rw [List.map_id] at hcat
  rw [serialize, ← hcat]
  exact congrArg layout (parts_of_allFixed h vs)

mutual

/-- Values of a fixed-size type have encodings of one length. -/
theorem length_serialize : ∀ {t : SszType}, t.isFixed = true → ∀ v : t.Val,
    (serialize t v).length = t.size
  | .uint w, _, v => by rw [serialize, length_leBytes, size]
  | .bytes n, _, v => by
      rw [serialize, size]
      exact List.Vector.toList_length v
  | .container ts, h, vs => by
      have hts : allFixed ts = true := by simpa [isFixed] using h
      rw [serialize_container_fixed hts, size]
      exact length_parts hts vs

/-- Fixed-size fields have encodings of one total length. -/
theorem length_parts : ∀ {ts : List SszType}, allFixed ts = true → ∀ vs : Vals ts,
    ((parts ts vs).map Part.bytes).flatten.length = sizes ts
  | [], _, _ => rfl
  | t :: ts, h, (v, vs) => by
      have hts : t.isFixed = true ∧ allFixed ts = true := by simpa [allFixed] using h
      have ih := length_parts hts.2 vs
      have hv := length_serialize hts.1 v
      rw [parts, List.map_cons, part_bytes, List.flatten_cons, List.length_append, hv, ih, sizes]

end

/-! ### Types whose values can be read back -/

mutual

/-- No list has items of size zero, which would leave its length undetermined. -/
def Proper : SszType → Bool
  | .uint _ => true
  | .bytes _ => true
  | .byteList _ => true
  | .list t _ => t.Proper && (!t.isFixed || decide (0 < t.size))
  | .container ts => AllProper ts

/-- `Proper` for each field. -/
def AllProper : List SszType → Bool
  | [] => true
  | t :: ts => t.Proper && AllProper ts

end

/-! ### The longest encoding -/

mutual

/-- The length that no encoding of a value within the limits exceeds. -/
def maxSize : SszType → ℕ
  | .uint w => w
  | .bytes n => n
  | .byteList limit => limit
  | .list t limit => limit * ((if t.isFixed then 0 else 4) + maxSize t)
  | .container ts => maxSizes ts

/-- The same for a sequence of fields. -/
def maxSizes : List SszType → ℕ
  | [] => 0
  | t :: ts => ((if t.isFixed then 0 else 4) + maxSize t) + maxSizes ts

end

/-- The room an item takes in the composite it stands in. -/
theorem length_layout_part (t : SszType) (b : Bytes) (ps : List Part) :
    (layout (part t b :: ps)).length =
      ((if t.isFixed then 0 else 4) + b.length) + (layout ps).length := by
  rw [length_layout, length_layout, part]
  cases t.isFixed with
  | true =>
    simp only [if_true, headLen, bodiesOf]
    omega
  | false =>
    simp only [Bool.false_eq_true, if_false, headLen, bodiesOf, List.length_append]
    omega

mutual

/-- **Values within the limits have short encodings.** -/
theorem length_serialize_le : ∀ {t : SszType} {v : t.Val}, Fits t v →
    (serialize t v).length ≤ t.maxSize
  | .uint w, v, _ => by rw [serialize, length_leBytes, maxSize]
  | .bytes n, v, _ => by
      rw [serialize, maxSize]
      exact (List.Vector.toList_length v).le
  | .byteList limit, v, h => by
      rw [serialize, maxSize]
      exact h
  | .list t limit, vs, h => by
      rw [Fits] at h
      rw [serialize, maxSize]
      refine le_trans ?_ (Nat.mul_le_mul_right _ h.1)
      -- Each item takes its offset, unless its size is fixed, and its body.
      have hitems : ∀ us : List t.Val, (∀ u ∈ us, Fits t u) →
          (layout (us.map fun u => part t (serialize t u))).length ≤
            us.length * ((if t.isFixed then 0 else 4) + maxSize t) := by
        intro us
        induction us with
        | nil => exact fun _ => Nat.zero_le _
        | cons u us ih =>
          intro hu
          have hhead := length_serialize_le (hu u List.mem_cons_self)
          have htail := ih fun x hx => hu x (List.mem_cons_of_mem u hx)
          rw [List.map_cons, length_layout_part, List.length_cons, Nat.succ_mul]
          omega
      exact hitems vs h.2
  | .container ts, vs, h => by
      rw [serialize, maxSize]
      exact length_parts_le h

/-- The same for a sequence of fields. -/
theorem length_parts_le : ∀ {ts : List SszType} {vs : Vals ts}, FitsAll ts vs →
    (layout (parts ts vs)).length ≤ maxSizes ts
  | [], _, _ => le_rfl
  | t :: ts, (v, vs), h => by
      have hhead := length_serialize_le h.1
      have htail := length_parts_le h.2
      rw [parts, length_layout_part, maxSizes]
      omega

end

end SszType

end Ssz
