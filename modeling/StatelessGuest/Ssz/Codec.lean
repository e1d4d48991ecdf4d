import StatelessGuest.Ssz.Types

/-!
# Reading encodings back

A byte string is an encoding of a type exactly when its offset tables are in
order: the first offset is the length of the head, offsets never decrease, and
fixed-size pieces have their size.  The reader below takes every offset on
trust; on strings laid out in order it is the inverse of serialization.

## Main definitions

* `SszType.read` — the value read off a byte string.
* `SszType.Laid` — the offset tables of a byte string are in order.

## Main results

* `SszType.serialize_read` — **a string laid out in order is the encoding of
  what is read off it.**
* `SszType.laid_serialize`, `SszType.read_serialize` — encodings are laid out in
  order, and the value is read back.
-/

namespace Ssz

namespace SszType

/-! ### Offset tables -/

/-- The number of items of a table, which its first offset gives. -/
def itemCount (b : Bytes) : ℕ := u32At b 0 / 4

/-- Offset `i` of a table of `n` items; the last item ends with the string. -/
def offsetAt (b : Bytes) (n i : ℕ) : ℕ := if i < n then u32At b (4 * i) else b.length

/-- Item `i` of a table of `n` items. -/
def itemAt (b : Bytes) (n i : ℕ) : Bytes :=
  window b (offsetAt b n i) (offsetAt b n (i + 1) - offsetAt b n i)

/-- The table of a list is in order. -/
structure TableOk (b : Bytes) : Prop where
  /-- The table has room for its offsets. -/
  room : 4 * itemCount b ≤ b.length
  /-- The items start where the table ends. -/
  first : offsetAt b (itemCount b) 0 = 4 * itemCount b
  /-- The offsets do not decrease, and the last item ends with the string. -/
  mono : ∀ i, i < itemCount b →
    offsetAt b (itemCount b) i ≤ offsetAt b (itemCount b) (i + 1)

mutual

/-- The value read off a byte string. -/
def read : (t : SszType) → Bytes → t.Val
  | .uint w, b => BitVec.ofNat (8 * w) (leNat (b.take w))
  | .bytes n, b => padTo n b
  | .byteList _, b => b
  | .list t _, b =>
      if t.isFixed then
        (List.range (b.length / t.size)).map fun i => read t (window b (i * t.size) t.size)
      else (List.range (itemCount b)).map fun i => read t (itemAt b (itemCount b) i)
  | .container ts, b => readFields ts b 0

/-- The values of the fields whose part of the head starts at `k`. -/
def readFields : (ts : List SszType) → Bytes → ℕ → Vals ts
  | [], _, _ => ()
  | t :: ts, b, k =>
      if t.isFixed then (read t (window b k t.size), readFields ts b (k + t.size))
      else (read t (window b (u32At b k) (bodyStart ts b (k + 4) - u32At b k)),
        readFields ts b (k + 4))

/-- Where the first body of the fields at `k` starts, and so where the one
before it ends. -/
def bodyStart : List SszType → Bytes → ℕ → ℕ
  | [], b, _ => b.length
  | t :: ts, b, k => if t.isFixed then bodyStart ts b (k + t.size) else u32At b k

end

/-- The length of the head of a container. -/
def headSize : List SszType → ℕ
  | [] => 0
  | t :: ts => (if t.isFixed then t.size else 4) + headSize ts

mutual

/-- The offset tables of a byte string are in order. -/
def Laid : SszType → Bytes → Prop
  | .uint w, b => b.length = w
  | .bytes n, b => b.length = n
  | .byteList _, _ => True
  | .list t _, b =>
      if t.isFixed then t.size ∣ b.length
      else TableOk b ∧ ∀ i, i < itemCount b → Laid t (itemAt b (itemCount b) i)
  | .container ts, b =>
      headSize ts ≤ b.length ∧ bodyStart ts b 0 = headSize ts ∧ LaidFields ts b 0

/-- The bodies of the fields at `k` are in order. -/
def LaidFields : List SszType → Bytes → ℕ → Prop
  | [], _, _ => True
  | t :: ts, b, k =>
      if t.isFixed then LaidFields ts b (k + t.size)
      else u32At b k ≤ bodyStart ts b (k + 4) ∧
        Laid t (window b (u32At b k) (bodyStart ts b (k + 4) - u32At b k)) ∧
        LaidFields ts b (k + 4)

end

/-! ### Unfolding one level

These unfold the outermost type only. -/

section

variable {ts : List SszType} {b : Bytes}

theorem read_uint {n : ℕ} : read (.uint n) b = BitVec.ofNat (8 * n) (leNat (b.take n)) := by
  rw [read]

theorem read_bytes {n : ℕ} : read (.bytes n) b = padTo n b := by rw [read]

theorem read_byteList {n : ℕ} : read (.byteList n) b = b := by rw [read]

theorem read_container : read (.container ts) b = readFields ts b 0 := by rw [read]

theorem laid_container : Laid (.container ts) b ↔
    headSize ts ≤ b.length ∧ bodyStart ts b 0 = headSize ts ∧ LaidFields ts b 0 := by rw [Laid]

end

/-! ### Reading, then writing -/

theorem headSize_of_allFixed : ∀ {ts : List SszType}, allFixed ts = true → headSize ts = sizes ts
  | [], _ => rfl
  | t :: ts, h => by
      have hts : t.isFixed = true ∧ allFixed ts = true := by simpa [allFixed] using h
      rw [headSize, sizes, if_pos hts.1, headSize_of_allFixed hts.2]

theorem headLen_parts : ∀ {ts : List SszType} (vs : Vals ts), headLen (parts ts vs) = headSize ts
  | [], _ => rfl
  | t :: ts, (v, vs) => by
      have ih := headLen_parts vs
      rw [parts, headSize]
      cases ht : t.isFixed with
      | true => rw [part, if_pos ht, headLen, length_serialize ht, ih, if_pos rfl]
      | false => simp [part, ht, headLen, ih]

/-- Fields of fixed size have no bodies, and nothing to be out of order. -/
theorem laidFields_of_allFixed : ∀ {ts : List SszType}, allFixed ts = true → ∀ (b : Bytes) (k : ℕ),
    LaidFields ts b k ∧ bodyStart ts b k = b.length
  | [], _, _, _ => ⟨trivial, rfl⟩
  | t :: ts, h, b, k => by
      have hts : t.isFixed = true ∧ allFixed ts = true := by simpa [allFixed] using h
      rw [LaidFields, bodyStart, if_pos hts.1, if_pos hts.1]
      exact laidFields_of_allFixed hts.2 b _

/-- Every string of the right length is laid out in order for a fixed-size type. -/
theorem laid_of_isFixed : ∀ {t : SszType}, t.isFixed = true → ∀ {b : Bytes}, b.length = t.size →
    Laid t b
  | .uint _, _, _, hb => hb
  | .bytes _, _, _, hb => hb
  | .container ts, h, b, hb => by
      have hts : allFixed ts = true := by simpa [isFixed] using h
      obtain ⟨hlaid, hstart⟩ := laidFields_of_allFixed hts b 0
      rw [size, ← headSize_of_allFixed hts] at hb
      exact ⟨hb.ge, hstart.trans hb, hlaid⟩

/-- Offsets that do not decrease stay in order. -/
theorem offsetAt_le {b : Bytes} {n : ℕ}
    (h : ∀ i, i < n → offsetAt b n i ≤ offsetAt b n (i + 1)) {i j : ℕ} (hij : i ≤ j) (hj : j ≤ n) :
    offsetAt b n i ≤ offsetAt b n j := by
  induction j, hij using Nat.le_induction with
  | base => exact le_rfl
  | succ j _ ih => exact (ih (by omega)).trans (h j (by omega))

theorem offsetAt_le_length {b : Bytes} {n : ℕ}
    (h : ∀ i, i < n → offsetAt b n i ≤ offsetAt b n (i + 1)) {i : ℕ} (hi : i ≤ n) :
    offsetAt b n i ≤ b.length := by
  have hend : offsetAt b n n = b.length := if_neg (Nat.lt_irrefl n)
  exact hend ▸ offsetAt_le h hi le_rfl

/-- The first `m` items of a table, written back. -/
theorem items_layout {b : Bytes} (h : TableOk b) : ∀ m, m ≤ itemCount b →
    bodiesOf ((List.range m).map fun i => .body (itemAt b (itemCount b) i)) =
      window b (4 * itemCount b) (offsetAt b (itemCount b) m - 4 * itemCount b) ∧
    headOf (4 * itemCount b) ((List.range m).map fun i => .body (itemAt b (itemCount b) i)) =
      window b 0 (4 * m)
  | 0, _ => by simp [h.first, bodiesOf, headOf]
  | m + 1, hm => by
      obtain ⟨hbodies, hhead⟩ := items_layout h m (by omega)
      have hfirst := h.first
      have h₀ := offsetAt_le h.mono (Nat.zero_le m) (by omega)
      have hm' := h.mono m (by omega)
      have hend := offsetAt_le_length h.mono (i := m + 1) hm
      have hroom := h.room
      rw [List.range_succ, List.map_append, List.map_singleton]
      constructor
      · -- Item `m` starts where the first `m` items end.
        rw [bodiesOf_append, hbodies]
        simp only [bodiesOf, List.append_nil, itemAt]
        rw [window_append_window b (by omega)]
        congr 1
        omega
      · -- So the offset written for it is the one in the table.
        have hlen : (window b (4 * itemCount b)
            (offsetAt b (itemCount b) m - 4 * itemCount b)).length =
              offsetAt b (itemCount b) m - 4 * itemCount b := length_window_of_le (by omega)
        have hoff : 4 * itemCount b + (offsetAt b (itemCount b) m - 4 * itemCount b) =
            u32At b (4 * m) := by
          rw [Nat.add_sub_cancel' (by omega), offsetAt, if_pos (by omega)]
        rw [headOf_append, hhead, hbodies, hlen, hoff]
        simp only [headOf, List.append_nil]
        rw [leBytes_u32At (by omega), window_append_window b (by omega)]
        congr 1

/-- The items of a table in order, written back. -/
theorem layout_items {b : Bytes} (h : TableOk b) :
    layout ((List.range (itemCount b)).map fun i => .body (itemAt b (itemCount b) i)) = b := by
  obtain ⟨hbodies, hhead⟩ := items_layout h (itemCount b) le_rfl
  have hroom := h.room
  have hend : offsetAt b (itemCount b) (itemCount b) = b.length := by
    rw [offsetAt, if_neg (Nat.lt_irrefl _)]
  rw [layout, headLen_map_body, List.length_range, hhead, hbodies, hend,
    window_append_window b (by omega), window_self (by omega)]

mutual

/-- **A string laid out in order is the encoding of what is read off it.** -/
theorem serialize_read : ∀ {t : SszType} {b : Bytes}, Laid t b → serialize t (read t b) = b
  | .uint w, b, h => by
      rw [Laid] at h
      subst h
      have hlt : leNat b < 2 ^ (8 * b.length) := by
        rw [pow_mul]
        exact leNat_lt b
      rw [serialize, read, List.take_length, BitVec.toNat_ofNat, Nat.mod_eq_of_lt hlt,
        leBytes_leNat]
  | .bytes n, b, h => by
      rw [Laid] at h
      rw [serialize, read, toList_padTo, takeD_eq_take h.ge, List.take_of_length_le h.le]
  | .byteList _, b, _ => by rw [serialize, read]
  | .list t limit, b, h => by
      rw [Laid] at h
      rw [read]
      cases ht : t.isFixed with
      | true =>
        simp only [ht, if_true] at h ⊢
        rw [serialize_list_fixed ht, List.map_map]
        -- Items of fixed size lie side by side, and written back they cover the string.
        have hitem : ∀ i ∈ List.range (b.length / t.size),
            (serialize t ∘ fun i => read t (window b (i * t.size) t.size)) i =
              window b (i * t.size) t.size := by
          intro i hi
          refine serialize_read (laid_of_isFixed ht (length_window_of_le ?_))
          have hi' : i + 1 ≤ b.length / t.size := List.mem_range.mp hi
          calc i * t.size + t.size = (i + 1) * t.size := (Nat.succ_mul _ _).symm
            _ ≤ b.length / t.size * t.size := Nat.mul_le_mul_right _ hi'
            _ ≤ b.length := Nat.div_mul_le_self _ _
        rw [List.map_congr_left hitem, flatten_windows, Nat.div_mul_cancel h, window_self rfl]
      | false =>
        simp only [ht, Bool.false_eq_true, if_false] at h ⊢
        rw [serialize_list_body ht, List.map_map]
        -- Items of variable size are found by their offsets.
        have hitem : ∀ i ∈ List.range (itemCount b),
            ((fun v => Part.body (serialize t v)) ∘ fun i => read t (itemAt b (itemCount b) i)) i =
              .body (itemAt b (itemCount b) i) := by
          intro i hi
          exact congrArg Part.body (serialize_read (h.2 i (List.mem_range.mp hi)))
        rw [List.map_congr_left hitem, layout_items h.1]
  | .container ts, b, h => by
      rw [Laid] at h
      obtain ⟨hroom, hstart, hfields⟩ := h
      obtain ⟨-, hhead, hbodies⟩ := parts_readFields hfields (by omega)
      rw [serialize, read, layout, headLen_parts, ← hstart, hhead, hbodies, hstart,
        window_append_drop b (by omega), List.drop_zero]

/-- The head and the bodies of what is read off the fields at `k`. -/
theorem parts_readFields : ∀ {ts : List SszType} {b : Bytes} {k : ℕ}, LaidFields ts b k →
    k + headSize ts ≤ b.length → bodyStart ts b k ≤ b.length ∧
      headOf (bodyStart ts b k) (parts ts (readFields ts b k)) = window b k (headSize ts) ∧
      bodiesOf (parts ts (readFields ts b k)) = b.drop (bodyStart ts b k)
  | [], b, k, _, _ => by
      simp [bodyStart, parts, headOf, bodiesOf, headSize]
  | t :: ts, b, k, h, hk => by
      rw [LaidFields] at h
      rw [headSize] at hk
      rw [bodyStart, readFields, headSize]
      cases ht : t.isFixed with
      | true =>
        simp only [ht, if_true] at h hk ⊢
        -- A field of fixed size stands in the head.
        obtain ⟨hend, hhead, hbodies⟩ := parts_readFields h (by omega)
        have hitem : serialize t (read t (window b k t.size)) = window b k t.size :=
          serialize_read (laid_of_isFixed ht (length_window_of_le (by omega)))
        rw [parts, part, if_pos ht, hitem]
        refine ⟨hend, ?_, hbodies⟩
        rw [headOf, hhead, window_append_window b rfl]
      | false =>
        simp only [ht, Bool.false_eq_true, if_false] at h hk ⊢
        obtain ⟨hle, hlaid, hrest⟩ := h
        obtain ⟨hend, hhead, hbodies⟩ := parts_readFields hrest (by omega)
        have hitem := serialize_read hlaid
        have hlen : (window b (u32At b k) (bodyStart ts b (k + 4) - u32At b k)).length =
            bodyStart ts b (k + 4) - u32At b k := length_window_of_le (by omega)
        rw [parts, part, if_neg (by simp [ht]), hitem]
        refine ⟨by omega, ?_, ?_⟩
        · rw [headOf, hlen, Nat.add_sub_cancel' hle, hhead, leBytes_u32At (by omega),
            window_append_window b rfl]
        · rw [bodiesOf, hbodies, window_append_drop b (Nat.add_sub_cancel' hle)]

end

/-! ### Writing, then reading -/

/-- A piece of a concatenation, found at the total length of those before it. -/
theorem window_flatten : ∀ (cs : List Bytes) (i : ℕ) (hi : i < cs.length),
    window cs.flatten (cs.take i).flatten.length cs[i].length = cs[i]
  | [], _, hi => absurd hi (Nat.not_lt_zero _)
  | c :: cs, 0, _ => by simp [window]
  | c :: cs, i + 1, hi => by
      have ih := window_flatten cs i (by simpa using hi)
      rw [List.flatten_cons, List.take_succ_cons, List.flatten_cons, List.length_append,
        window_append_of_ge (by omega), Nat.add_sub_cancel_left]
      exact ih

/-- The offsets in the head of a list are running totals. -/
theorem window_headOf : ∀ (cs : List Bytes) (next i : ℕ), i < cs.length →
    window (headOf next (cs.map Part.body)) (4 * i) 4 =
      leBytes 4 (next + (cs.take i).flatten.length)
  | [], _, _, hi => absurd hi (Nat.not_lt_zero _)
  | c :: cs, next, 0, _ => by
      simpa [headOf] using window_append_self (length_leBytes 4 next)
  | c :: cs, next, i + 1, hi => by
      have ih := window_headOf cs (next + c.length) i (by simpa using hi)
      rw [List.map_cons, headOf, window_append_of_ge (by simp), length_leBytes,
        Nat.mul_succ, Nat.add_sub_cancel, ih, List.take_succ_cons, List.flatten_cons,
        List.length_append, Nat.add_assoc]

theorem length_flatten_take_le (cs : List Bytes) (i : ℕ) :
    (cs.take i).flatten.length ≤ cs.flatten.length :=
  ((List.take_sublist i cs).flatten).length_le

theorem length_flatten_take_succ (cs : List Bytes) {i : ℕ} (hi : i < cs.length) :
    (cs.take (i + 1)).flatten.length = (cs.take i).flatten.length + cs[i].length := by
  rw [List.take_succ_eq_append_getElem hi, List.flatten_append, List.length_append,
    List.flatten_singleton]

/-- The table of a list of items, read back. -/
theorem table_layout {cs : List Bytes} (hlt : (layout (cs.map Part.body)).length < 2 ^ 32) :
    itemCount (layout (cs.map Part.body)) = cs.length ∧
    (∀ i, i ≤ cs.length → offsetAt (layout (cs.map Part.body)) cs.length i =
      4 * cs.length + (cs.take i).flatten.length) := by
  have hhead : headLen (cs.map Part.body) = 4 * cs.length := by
    simpa using headLen_map_body id cs
  have hbodies : bodiesOf (cs.map Part.body) = cs.flatten := by
    simpa using bodiesOf_map_body id cs
  rw [length_layout, hhead, hbodies] at hlt
  -- Offset `i` is the length of the table and of the items before item `i`.
  have hu32 : ∀ i, i < cs.length → u32At (layout (cs.map Part.body)) (4 * i) =
      4 * cs.length + (cs.take i).flatten.length := by
    intro i hi
    have hle := length_flatten_take_le cs i
    rw [u32At, layout, hhead, window_append_of_le (by rw [length_headOf, hhead]; omega),
      window_headOf cs _ i hi, leNat_leBytes (by omega)]
  constructor
  · cases cs with
    | nil => rfl
    | cons c cs =>
      have h₀ := hu32 0 (by simp)
      rw [Nat.mul_zero, List.take_zero, List.flatten_nil, List.length_nil, Nat.add_zero] at h₀
      rw [itemCount, h₀, Nat.mul_div_cancel_left _ (by norm_num)]
  · intro i hi
    rw [offsetAt]
    split
    · rename_i hlt'
      exact hu32 i hlt'
    · have : i = cs.length := by omega
      rw [length_layout, hhead, hbodies, this, List.take_length]

/-- The items of a list, read back. -/
theorem itemAt_layout {cs : List Bytes} (hlt : (layout (cs.map Part.body)).length < 2 ^ 32)
    {i : ℕ} (hi : i < cs.length) : itemAt (layout (cs.map Part.body)) cs.length i = cs[i] := by
  obtain ⟨-, hoff⟩ := table_layout hlt
  have hhead : headLen (cs.map Part.body) = 4 * cs.length := by
    simpa using headLen_map_body id cs
  have hbodies : bodiesOf (cs.map Part.body) = cs.flatten := by
    simpa using bodiesOf_map_body id cs
  have hlen : 4 * cs.length + (cs.take (i + 1)).flatten.length -
      (4 * cs.length + (cs.take i).flatten.length) = cs[i].length := by
    have := length_flatten_take_succ cs hi
    omega
  rw [itemAt, hoff i (by omega), hoff (i + 1) hi, hlen, layout, hhead,
    window_append_of_ge (by rw [length_headOf, hhead]; omega), length_headOf, hhead,
    Nat.add_sub_cancel_left, hbodies, window_flatten cs i hi]

theorem tableOk_layout {cs : List Bytes} (hlt : (layout (cs.map Part.body)).length < 2 ^ 32) :
    TableOk (layout (cs.map Part.body)) := by
  obtain ⟨hcount, hoff⟩ := table_layout hlt
  refine ⟨?_, ?_, ?_⟩
  · rw [hcount, length_layout]
    have : headLen (cs.map Part.body) = 4 * cs.length := by simpa using headLen_map_body id cs
    omega
  · rw [hcount, hoff 0 (by omega), List.take_zero, List.flatten_nil, List.length_nil, Nat.add_zero]
  · rw [hcount]
    intro i hi
    have := length_flatten_take_succ cs hi
    rw [hoff i (by omega), hoff (i + 1) hi]
    omega

/-- The head of a field followed by the rest of the head. -/
theorem window_split {b x y : Bytes} {k n m : ℕ} (hx : x.length = n)
    (hk : k + (n + m) ≤ b.length) (h : window b k (n + m) = x ++ y) :
    window b k n = x ∧ window b (k + n) m = y := by
  rw [← window_append_window b rfl] at h
  exact List.append_inj h (by rw [length_window_of_le (by omega), hx])

/-- Fixed-size items, read back. -/
theorem window_flatten_fixed {k : ℕ} : ∀ (cs : List Bytes), (∀ c ∈ cs, c.length = k) →
    cs.flatten.length = cs.length * k ∧
      ∀ i (hi : i < cs.length), window cs.flatten (i * k) k = cs[i]
  | [], _ => ⟨by simp, fun _ hi => absurd hi (Nat.not_lt_zero _)⟩
  | c :: cs, h => by
      obtain ⟨hlen, hget⟩ := window_flatten_fixed cs fun x hx => h x (List.mem_cons_of_mem c hx)
      have hc := h c List.mem_cons_self
      constructor
      · rw [List.flatten_cons, List.length_append, hlen, hc, List.length_cons, Nat.succ_mul]
        omega
      · intro i hi
        rw [List.flatten_cons]
        cases i with
        | zero =>
          rw [Nat.zero_mul]
          exact window_append_self hc
        | succ i =>
          rw [Nat.succ_mul, window_append_of_ge (by omega), hc, Nat.add_sub_cancel]
          exact hget i (by simpa using hi)

mutual

/-- **Encodings are laid out in order, and the value is read back.** -/
theorem laid_read_serialize : ∀ {t : SszType}, t.Proper = true → ∀ v : t.Val,
    (serialize t v).length < 2 ^ 32 → Laid t (serialize t v) ∧ read t (serialize t v) = v
  | .uint w, _, v, _ => by
      rw [serialize, Laid, read, length_leBytes, List.take_of_length_le (by simp)]
      have hpow : (2 : ℕ) ^ (8 * w) = 256 ^ w := by rw [pow_mul]; norm_num
      refine ⟨rfl, ?_⟩
      rw [leNat_leBytes (by rw [← hpow]; exact v.isLt), BitVec.ofNat_toNat, BitVec.setWidth_eq]
  | .bytes n, _, v, _ => by
      rw [serialize, Laid, read]
      refine ⟨List.Vector.toList_length v, toList_injective ?_⟩
      rw [toList_padTo, takeD_eq_take (List.Vector.toList_length v).ge,
        List.take_of_length_le (List.Vector.toList_length v).le]
  | .byteList _, _, v, _ => by
      rw [serialize, read]
      exact ⟨trivial, rfl⟩
  | .list t limit, hp, vs, hlt => by
      rw [Proper, Bool.and_eq_true] at hp
      cases ht : t.isFixed with
      | true =>
        have hpos : 0 < t.size := by simpa [ht] using hp.2
        rw [serialize_list_fixed ht] at hlt ⊢
        obtain ⟨hlen, hget⟩ := window_flatten_fixed (vs.map (serialize t)) (k := t.size)
          (by simpa using fun v _ => length_serialize ht v)
        rw [List.length_map] at hlen
        rw [Laid, read, if_pos ht, if_pos ht, hlen, Nat.mul_div_cancel _ hpos]
        refine ⟨Nat.dvd_mul_left _ _, ?_⟩
        apply List.ext_getElem
        · simp
        · intro i h₁ h₂
          have hi : i < vs.length := h₂
          rw [List.getElem_map, List.getElem_range, hget i (by simpa using hi), List.getElem_map]
          have hsize := length_serialize ht vs[i]
          have hmul : 1 * t.size ≤ vs.length * t.size := Nat.mul_le_mul_right _ (by omega)
          exact (laid_read_serialize hp.1 vs[i] (by omega)).2
      | false =>
        rw [serialize_list_body ht] at hlt ⊢
        have hmap : (vs.map fun v => Part.body (serialize t v)) =
            (vs.map (serialize t)).map Part.body := by rw [List.map_map]; rfl
        rw [hmap] at hlt ⊢
        obtain ⟨hcount, -⟩ := table_layout hlt
        -- The table that is written is in order, and gives the encoded items back.
        have htable := tableOk_layout hlt
        have hitem : ∀ i (hi : i < vs.length), itemAt (layout ((vs.map (serialize t)).map Part.body))
            vs.length i = serialize t vs[i] := by
          intro i hi
          have := itemAt_layout hlt (i := i) (by simpa using hi)
          simpa only [List.length_map, List.getElem_map] using this
        have hread : ∀ i (hi : i < vs.length), Laid t (serialize t vs[i]) ∧
            read t (serialize t vs[i]) = vs[i] := by
          intro i hi
          apply laid_read_serialize hp.1 vs[i]
          have := length_le_of_mem (p := .body (serialize t vs[i]))
            ((vs.map (serialize t)).map Part.body)
            (List.mem_map_of_mem (List.mem_map_of_mem (List.getElem_mem hi)))
          rw [Part.bytes] at this
          omega
        rw [List.length_map] at hcount
        rw [Laid, read, if_neg (by simp [ht]), if_neg (by simp [ht]), hcount]
        refine ⟨⟨htable, ?_⟩, ?_⟩
        · intro i hi
          rw [hitem i hi]
          exact (hread i hi).1
        · apply List.ext_getElem
          · simp
          · intro i h₁ h₂
            have hi : i < vs.length := h₂
            rw [List.getElem_map, List.getElem_range, hitem i hi, (hread i hi).2]
  | .container ts, hp, vs, hlt => by
      rw [Proper] at hp
      rw [serialize] at hlt ⊢
      have hlen := length_layout (parts ts vs)
      have hhead : window (layout (parts ts vs)) 0 (headSize ts) =
          headOf (headSize ts) (parts ts vs) := by
        rw [layout, headLen_parts, window_append_self (by rw [length_headOf, headLen_parts])]
      have hbodies : (layout (parts ts vs)).drop (headSize ts) = bodiesOf (parts ts vs) := by
        rw [layout, headLen_parts, List.drop_left' (by rw [length_headOf, headLen_parts])]
      rw [headLen_parts] at hlen
      obtain ⟨hstart, hlaid, hread⟩ := laid_readFields hp vs hlt (by omega) (by omega) hhead hbodies
      rw [Laid, read]
      exact ⟨⟨by omega, hstart, hlaid⟩, hread⟩

/-- The same for the fields at `k`, whose bodies start at `next`. -/
theorem laid_readFields : ∀ {ts : List SszType}, AllProper ts = true → ∀ (vs : Vals ts)
    {b : Bytes} {k next : ℕ}, b.length < 2 ^ 32 → k + headSize ts ≤ b.length → next ≤ b.length →
    window b k (headSize ts) = headOf next (parts ts vs) →
    b.drop next = bodiesOf (parts ts vs) →
    bodyStart ts b k = next ∧ LaidFields ts b k ∧ readFields ts b k = vs
  | [], _, _, b, k, next, _, _, hnext, _, hbodies => by
      have : b.length ≤ next := by simpa [parts, bodiesOf] using hbodies
      exact ⟨by rw [bodyStart]; omega, trivial, rfl⟩
  | t :: ts, hp, (v, vs), b, k, next, hlt, hk, hnext, hhead, hbodies => by
      rw [AllProper, Bool.and_eq_true] at hp
      rw [headSize] at hk hhead
      rw [parts] at hhead hbodies
      rw [bodyStart, LaidFields, readFields]
      cases ht : t.isFixed with
      | true =>
        simp only [part, ht, if_true] at hk hhead hbodies ⊢
        have hsize := length_serialize ht v
        obtain ⟨hitem, hrest⟩ := window_split hsize hk hhead
        obtain ⟨hstart, hlaid, hread⟩ := laid_readFields hp.2 vs hlt (by omega) hnext hrest hbodies
        have hv := (laid_read_serialize hp.1 v (by omega)).2
        exact ⟨hstart, hlaid, by rw [hitem, hv, hread]⟩
      | false =>
        simp only [part, ht, Bool.false_eq_true, if_false] at hk hhead hbodies ⊢
        -- The head has the offset `next`, and the bodies start with the one of this field.
        obtain ⟨hoff, hrest⟩ := window_split (length_leBytes 4 next) hk hhead
        have hu32 : u32At b k = next := by rw [u32At, hoff, leNat_leBytes (by omega)]
        rw [bodiesOf] at hbodies
        have hvlen : next + (serialize t v).length ≤ b.length := by
          have := congrArg List.length hbodies
          rw [List.length_drop, List.length_append] at this
          omega
        have hbody : window b next (serialize t v).length = serialize t v := by
          rw [window, hbodies, List.take_left]
        have hrest' : b.drop (next + (serialize t v).length) = bodiesOf (parts ts vs) := by
          rw [← List.drop_drop, hbodies, List.drop_left]
        obtain ⟨hstart, hlaid, hread⟩ :=
          laid_readFields hp.2 vs hlt (by omega) hvlen hrest hrest'
        obtain ⟨hl, hv⟩ := laid_read_serialize hp.1 v (by omega)
        rw [hu32, hstart, Nat.add_sub_cancel_left, hbody, hv, hread]
        exact ⟨rfl, ⟨by omega, hl, hlaid⟩, rfl⟩

end

theorem laid_serialize {t : SszType} (ht : t.Proper = true) (v : t.Val)
    (hlt : (serialize t v).length < 2 ^ 32) : Laid t (serialize t v) :=
  (laid_read_serialize ht v hlt).1

theorem read_serialize {t : SszType} (ht : t.Proper = true) (v : t.Val)
    (hlt : (serialize t v).length < 2 ^ 32) : read t (serialize t v) = v :=
  (laid_read_serialize ht v hlt).2

/-- **A value can be read back from its encoding**, as long as offsets do not
overflow. -/
theorem serialize_injective {t : SszType} (ht : t.Proper = true) {v v' : t.Val}
    (hlt : (serialize t v).length < 2 ^ 32) (h : serialize t v = serialize t v') : v = v' := by
  rw [← read_serialize ht v hlt, h, read_serialize ht v' (h ▸ hlt)]

end SszType

end Ssz
