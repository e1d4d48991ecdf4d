import StatelessGuest.Ssz.Codec
import StatelessGuest.Ssz.Reader

/-!
# What an unchecked reader relies on

A reader that follows the offsets of a string without checking them stays inside
the string only if the offsets of each table it follows are in order.  It may
still meet a table with a wrong first offset, a section with a remainder, or a
string too short for its head, which it skips.

## Main definitions

* `SszType.Ordered` — the offsets of every table that is followed are in order.
* `SszType.Backed` — the buffer holds every byte that is read, whatever the
  lengths of the spans say.

## Main results

* `SszType.ordered_of_laid` — a string laid out in order is ordered.
* `SszType.backed_of_ordered` — **ordered tables keep every read inside the
  buffer.**
-/

namespace Ssz

namespace SszType

/-- The reader follows the table: its first offset is a multiple of four that
does not exceed the length. -/
def Followed (b : Bytes) : Prop := 4 ≤ b.length ∧ u32At b 0 % 4 = 0 ∧ u32At b 0 ≤ b.length

instance (b : Bytes) : Decidable (Followed b) := inferInstanceAs (Decidable (_ ∧ _ ∧ _))

mutual

/-- The offsets of every table that is followed are in order. -/
def Ordered : SszType → Bytes → Prop
  | .uint _, _ => True
  | .bytes _, _ => True
  | .byteList _, _ => True
  | .list t _, b =>
      t.isFixed = true ∨ (Followed b → ∀ i, i < itemCount b →
        offsetAt b (itemCount b) i ≤ offsetAt b (itemCount b) (i + 1) ∧
          Ordered t (itemAt b (itemCount b) i))
  | .container ts, b => headSize ts ≤ b.length → OrderedFields ts b 0

/-- The offsets of the fields at `k` are in order. -/
def OrderedFields : List SszType → Bytes → ℕ → Prop
  | [], _, _ => True
  | t :: ts, b, k =>
      if t.isFixed then OrderedFields ts b (k + t.size)
      else u32At b k ≤ bodyStart ts b (k + 4) ∧
        Ordered t (window b (u32At b k) (bodyStart ts b (k + 4) - u32At b k)) ∧
        OrderedFields ts b (k + 4)

end

mutual

/-- The buffer holds every byte that is read. -/
def Backed : SszType → ByteSpan → Prop
  | .uint _, _ => True
  | .bytes _, _ => True
  | .byteList _, _ => True
  | .list t _, s =>
      if t.isFixed then s.len / t.size * t.size ≤ s.ptr.length
      else 4 ≤ s.len → 4 ≤ s.ptr.length ∧ (Followed s.bytes → u32At s.bytes 0 ≤ s.ptr.length ∧
        ∀ i, i < itemCount s.bytes → Backed t (s.cut
          (offsetAt s.bytes (itemCount s.bytes) i) (offsetAt s.bytes (itemCount s.bytes) (i + 1))))
  | .container ts, s =>
      headSize ts ≤ s.len → headSize ts ≤ s.ptr.length ∧ BackedFields ts s 0

/-- The buffer holds every byte that is read of the fields at `k`. -/
def BackedFields : List SszType → ByteSpan → ℕ → Prop
  | [], _, _ => True
  | t :: ts, s, k =>
      if t.isFixed then BackedFields ts s (k + t.size)
      else Backed t (s.cut (u32At s.bytes k) (bodyStart ts s.bytes (k + 4))) ∧
        BackedFields ts s (k + 4)

end

section

variable {ts : List SszType} {b : Bytes} {s : ByteSpan}

theorem ordered_container :
    Ordered (.container ts) b ↔ (headSize ts ≤ b.length → OrderedFields ts b 0) := by rw [Ordered]

theorem backed_container : Backed (.container ts) s ↔
    (headSize ts ≤ s.len → headSize ts ≤ s.ptr.length ∧ BackedFields ts s 0) := by rw [Backed]

end

/-! ### Ordered tables -/

/-- The first body of ordered fields starts inside the string. -/
theorem bodyStart_le : ∀ {ts : List SszType} {b : Bytes} {k : ℕ}, OrderedFields ts b k →
    bodyStart ts b k ≤ b.length
  | [], _, _, _ => le_rfl
  | t :: ts, b, k, h => by
      unfold OrderedFields at h
      unfold bodyStart
      cases ht : t.isFixed with
      | true =>
        simp only [ht, if_true] at h ⊢
        exact bodyStart_le h
      | false =>
        simp only [ht, Bool.false_eq_true, if_false] at h ⊢
        exact h.1.trans (bodyStart_le h.2.2)

mutual

/-- A string laid out in order is ordered. -/
theorem ordered_of_laid : ∀ {t : SszType} {b : Bytes}, Laid t b → Ordered t b
  | .uint _, _, _ => trivial
  | .bytes _, _, _ => trivial
  | .byteList _, _, _ => trivial
  | .list t _, b, h => by
      unfold Laid at h
      unfold Ordered
      cases ht : t.isFixed with
      | true => exact Or.inl rfl
      | false =>
        simp only [ht, Bool.false_eq_true, if_false] at h
        exact Or.inr fun _ i hi => ⟨h.1.mono i hi, ordered_of_laid (h.2 i hi)⟩
  | .container ts, b, h => by
      unfold Laid at h
      intro _
      exact orderedFields_of_laid h.2.2

/-- The same for the fields at `k`. -/
theorem orderedFields_of_laid : ∀ {ts : List SszType} {b : Bytes} {k : ℕ}, LaidFields ts b k →
    OrderedFields ts b k
  | [], _, _, _ => trivial
  | t :: ts, b, k, h => by
      unfold LaidFields at h
      unfold OrderedFields
      cases ht : t.isFixed with
      | true =>
        simp only [ht, if_true] at h ⊢
        exact orderedFields_of_laid h
      | false =>
        simp only [ht, Bool.false_eq_true, if_false] at h ⊢
        exact ⟨h.1, ordered_of_laid h.2.1, orderedFields_of_laid h.2.2⟩

end

/-- Between two ordered offsets lies the window of the span. -/
theorem cut_of_lt {s : ByteSpan} {lo hi : ℕ} (hle : lo ≤ hi) (hhi : hi ≤ s.len)
    (hlt : hi < 2 ^ 32) :
    (s.cut lo hi).bytes = window s.bytes lo (hi - lo) ∧ (s.cut lo hi).len = hi - lo ∧
      (s.InBounds → (s.cut lo hi).InBounds) := by
  have hsub : sub32 hi lo = hi - lo := sub32_eq hle hlt
  rw [ByteSpan.cut, hsub]
  exact ⟨ByteSpan.bytes_drop (by omega), rfl, fun hs => ByteSpan.inBounds_drop hs (by omega)⟩

theorem cut_of_le {s : ByteSpan} {lo hi : ℕ} (hle : lo ≤ hi) (hhi : hi ≤ s.len)
    (hlen : s.len < 2 ^ 32) :
    (s.cut lo hi).bytes = window s.bytes lo (hi - lo) ∧ (s.cut lo hi).len = hi - lo ∧
      (s.InBounds → (s.cut lo hi).InBounds) :=
  cut_of_lt hle hhi (lt_of_le_of_lt hhi hlen)

mutual

/-- **Ordered tables keep every read inside the buffer.** -/
theorem backed_of_ordered : ∀ {t : SszType} {s : ByteSpan}, s.InBounds → s.len < 2 ^ 32 →
    Ordered t s.bytes → Backed t s
  | .uint _, _, _, _, _ => trivial
  | .bytes _, _, _, _, _ => trivial
  | .byteList _, _, _, _, _ => trivial
  | .list t _, s, hs, hlen, h => by
      have hroom : s.len ≤ s.ptr.length := hs
      unfold Ordered at h
      unfold Backed
      cases ht : t.isFixed with
      | true =>
        rw [if_pos rfl]
        exact (Nat.div_mul_le_self _ _).trans hroom
      | false =>
        simp only [ht, Bool.false_eq_true, if_false, false_or] at h ⊢
        -- The table lies inside the section, and so does every item between two of its offsets.
        refine fun h4 => ⟨by omega, fun hf => ⟨?_, ?_⟩⟩
        · have := hf.2.2
          rw [ByteSpan.length_bytes] at this
          omega
        · intro i hi
          obtain ⟨hle, hitem⟩ := h hf i hi
          have hend := offsetAt_le_length (fun j hj => (h hf j hj).1) (i := i + 1) hi
          rw [ByteSpan.length_bytes] at hend
          obtain ⟨hbytes, hlen', hin⟩ := cut_of_le hle hend hlen
          apply backed_of_ordered (hin hs) (by omega)
          rw [hbytes]
          exact hitem
  | .container ts, s, hs, hlen, h => by
      have hroom : s.len ≤ s.ptr.length := hs
      rw [Ordered, ByteSpan.length_bytes] at h
      unfold Backed
      intro hhead
      exact ⟨by omega, backedFields_of_ordered hs hlen (h hhead)⟩

/-- The same for the fields at `k`. -/
theorem backedFields_of_ordered : ∀ {ts : List SszType} {s : ByteSpan} {k : ℕ}, s.InBounds →
    s.len < 2 ^ 32 → OrderedFields ts s.bytes k → BackedFields ts s k
  | [], _, _, _, _, _ => trivial
  | t :: ts, s, k, hs, hlen, h => by
      unfold OrderedFields at h
      unfold BackedFields
      cases ht : t.isFixed with
      | true =>
        simp only [ht, if_true] at h ⊢
        exact backedFields_of_ordered hs hlen h
      | false =>
        simp only [ht, Bool.false_eq_true, if_false] at h ⊢
        have hend := bodyStart_le h.2.2
        rw [ByteSpan.length_bytes] at hend
        obtain ⟨hbytes, hlen', hin⟩ := cut_of_le h.1 hend hlen
        refine ⟨backed_of_ordered (hin hs) (by omega) ?_, backedFields_of_ordered hs hlen h.2.2⟩
        rw [hbytes]
        exact h.2.1

end

end SszType

end Ssz
