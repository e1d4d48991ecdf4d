import StatelessGuest.Ssz.Unchecked
import StatelessGuest.Items

/-!
# Decoding the sections

The decoders of the sections check that a section is long enough for its head,
and follow its offsets without checking them.  So each of them reads the right
value off a section laid out in order, stays inside the section exactly when the
tables it follows are ordered, and returns exactly when the buffer holds what it
reads.

## Main definitions

* `DecodesSection` — these three facts about a decoder.
* `ConfinedFrom` — the sections that a chain of offsets cuts out from one of them on.

## Main results

* `decodesSection_newPayloadRequest`, `decodesSection_witness`, … — **each
  section decoder has them.**
-/

namespace StatelessGuest

open Ssz SszType

variable (w : WordSize)

/-- The decoder is an unchecked reader of the type `t`. -/
structure DecodesSection (t : SszType) {α : Type} (toVal : α → t.Val) (fn : ByteSpan → Dec α) :
    Prop where
  val : ∀ s : ByteSpan, s.len < 2 ^ 32 → Laid t s.bytes → toVal (fn s).val = SszType.read t s.bytes
  returns : ∀ s : ByteSpan, s.len < 2 ^ 32 → ((fn s).Returns ↔ Backed t s)
  confined : ∀ s : ByteSpan, s.len < 2 ^ 32 → ((fn s).Confined ↔ Ordered t s.bytes)

namespace DecodesSection

variable {t : SszType} {α : Type} {toVal : α → t.Val} {fn : ByteSpan → Dec α}

/-- The value read off a nested section. -/
theorem val_cut (h : DecodesSection t toVal fn) {s : ByteSpan} (hlen : s.len < 2 ^ 32) {lo hi : ℕ}
    (hle : lo ≤ hi) (hhi : hi ≤ s.len) (hlaid : Laid t (window s.bytes lo (hi - lo))) :
    toVal (fn (s.cut lo hi)).val = SszType.read t (window s.bytes lo (hi - lo)) := by
  obtain ⟨hbytes, hcut, -⟩ := cut_of_le hle hhi hlen
  rw [← hbytes] at hlaid ⊢
  exact h.val _ (by omega) hlaid

/-- A nested section is confined when its offsets are in order and it is ordered. -/
theorem confined_cut (h : DecodesSection t toVal fn) {s : ByteSpan} (hlen : s.len < 2 ^ 32)
    (lo : ℕ) {hi : ℕ} (hhi : hi < 2 ^ 32) :
    (s.between lo hi).Confined ∧ (fn (s.cut lo hi)).Confined ↔
      (lo ≤ hi ∧ hi ≤ s.len) ∧ Ordered t (window s.bytes lo (hi - lo)) := by
  rw [confined_between s lo hhi]
  apply and_congr_right
  intro hle
  obtain ⟨hbytes, hcut, -⟩ := cut_of_le hle.1 hle.2 hlen
  rw [h.confined _ (by omega), hbytes]

theorem returns_cut (h : DecodesSection t toVal fn) (s : ByteSpan) (lo hi : ℕ) :
    (fn (s.cut lo hi)).Returns ↔ Backed t (s.cut lo hi) :=
  h.returns _ (sub32_lt hi lo)

end DecodesSection

/-- The sections from the offset `lo` on are confined exactly when they are ordered, and in
that case `lo` is not past the end. -/
structure ConfinedFrom (s : ByteSpan) (lo : ℕ) (confined ordered : Prop) : Prop where
  iff : confined ↔ ordered
  le : ordered → lo ≤ s.len

section ConfinedFrom

variable {t : SszType} {α : Type} {toVal : α → t.Val} {fn : ByteSpan → Dec α} {s : ByteSpan}
  {hi : ℕ} {confined ordered : Prop}

/-- The last section ends where the span ends. -/
theorem DecodesSection.confinedFrom_last (h : DecodesSection t toVal fn) (hlen : s.len < 2 ^ 32)
    (lo : ℕ) : ConfinedFrom s lo ((s.between lo s.len).Confined ∧ (fn (s.cut lo s.len)).Confined)
      (lo ≤ s.len ∧ Ordered t (window s.bytes lo (s.len - lo))) := by
  refine ⟨?_, fun hord => hord.1⟩
  rw [h.confined_cut hlen lo hlen]
  simp only [le_refl, and_true]

/-- A section before others. -/
theorem DecodesSection.confinedFrom_cons (h : DecodesSection t toVal fn) (hlen : s.len < 2 ^ 32)
    (lo : ℕ) (hhi : hi < 2 ^ 32) (hrest : ConfinedFrom s hi confined ordered) :
    ConfinedFrom s lo ((s.between lo hi).Confined ∧ (fn (s.cut lo hi)).Confined ∧ confined)
      (lo ≤ hi ∧ Ordered t (window s.bytes lo (hi - lo)) ∧ ordered) := by
  have hcut := h.confined_cut hlen lo hhi
  constructor
  · constructor
    · rintro ⟨hbetween, hfn, hconf⟩
      obtain ⟨⟨hle, -⟩, hord⟩ := hcut.mp ⟨hbetween, hfn⟩
      exact ⟨hle, hord, hrest.iff.mp hconf⟩
    · rintro ⟨hle, hord, hrest'⟩
      -- The end of this section is where the rest starts, which lies inside the span.
      obtain ⟨hbetween, hfn⟩ := hcut.mpr ⟨⟨hle, hrest.le hrest'⟩, hord⟩
      exact ⟨hbetween, hfn, hrest.iff.mpr hrest'⟩
  · rintro ⟨hle, -, hrest'⟩
    exact hle.trans (hrest.le hrest')

/-- A byte list at the end. -/
theorem confinedFrom_bytes_last (hlen : s.len < 2 ^ 32) (lo : ℕ) :
    ConfinedFrom s lo (s.between lo s.len).Confined (lo ≤ s.len ∧ True) := by
  refine ⟨?_, fun hord => hord.1⟩
  rw [confined_between s lo hlen]
  simp only [le_refl]

/-- A byte list before other sections, which is only cut out. -/
theorem confinedFrom_bytes (lo : ℕ) (hhi : hi < 2 ^ 32)
    (hrest : ConfinedFrom s hi confined ordered) :
    ConfinedFrom s lo ((s.between lo hi).Confined ∧ confined) (lo ≤ hi ∧ True ∧ ordered) := by
  have hcut := confined_between s lo hhi
  constructor
  · constructor
    · rintro ⟨hbetween, hconf⟩
      exact ⟨(hcut.mp hbetween).1, trivial, hrest.iff.mp hconf⟩
    · rintro ⟨hle, -, hrest'⟩
      exact ⟨hcut.mpr ⟨hle, hrest.le hrest'⟩, hrest.iff.mpr hrest'⟩
  · rintro ⟨hle, -, hrest'⟩
    exact hle.trans (hrest.le hrest')

end ConfinedFrom

/-! ### Lists -/

/-- Lists of fixed-size items. -/
theorem decodesSection_fixedList {t : SszType} {α : Type} {toVal : α → t.Val}
    {fn : ByteSpan → Dec α} (h : DecodesItem t toVal fn) (limit : ℕ) :
    DecodesSection (.list t limit) (List.map toVal)
      (fun s => decodeFixedList w s t.size fn) := by
  refine ⟨fun s hs _ => val_decodeFixedList w h hs limit, ?_, ?_⟩
  · intro s hs
    rw [returns_decodeFixedList w h hs, Backed, if_pos h.fixed]
  · intro s hs
    rw [Ordered, h.fixed]
    simp only [true_or, iff_true]
    exact confined_decodeFixedList w h hs

/-- The table of a list laid out in order is followed, unless the list is empty. -/
theorem followed_of_tableOk {b : Bytes} (h : TableOk b) (h4 : 4 ≤ b.length) :
    Followed b ∧ u32At b 0 / 4 = itemCount b := by
  have hroom := h.room
  have hfirst := h.first
  unfold offsetAt at hfirst
  split at hfirst
  · rw [Nat.mul_zero] at hfirst
    exact ⟨⟨h4, by omega, by omega⟩, rfl⟩
  · omega

section BytelistList

variable {s : ByteSpan} {n i : ℕ}

theorem offsetAt_lt (hs : s.len < 2 ^ 32) (n i : ℕ) : offsetAt s.bytes n i < 2 ^ 32 := by
  unfold offsetAt
  split
  · exact u32At_lt _ _
  · rwa [ByteSpan.length_bytes]

theorem mul_four (hs : s.len < 2 ^ 32) (hn : 4 * n ≤ s.len) (hi : i < n) : w.mul i 4 = 4 * i := by
  have hlt : i * 4 < 2 ^ 32 := by omega
  rw [w.mul_eq hlt, Nat.mul_comm]

theorem u32At_table (hn : 4 * n ≤ s.len) (hi : i < n) :
    u32At s.ptr (4 * i) = offsetAt s.bytes n i := by
  have hle : 4 * i + 4 ≤ s.len := by omega
  rw [offsetAt, if_pos hi, ByteSpan.u32At_ptr hle]

/-- The end of item `i`, and the read it takes. -/
theorem bytelistHi_spec (hs : s.len < 2 ^ 32) (hn : 4 * n ≤ s.len) (i : ℕ) :
    (bytelistHi w s n i).val = offsetAt s.bytes n (i + 1) ∧
      ((bytelistHi w s n i).Returns ↔ (i + 1 < n → 4 * (i + 2) ≤ s.ptr.length)) ∧
      (bytelistHi w s n i).Confined := by
  unfold bytelistHi
  split
  · rename_i hnext
    rw [mul_four w hs hn hnext, ByteSpan.val_readU32le, u32At_table hn hnext]
    refine ⟨rfl, ?_, ?_⟩
    · rw [Dec.Returns, ByteSpan.every_readU32le, Access.Inside]
      omega
    · rw [Dec.Confined, ByteSpan.every_readU32le, Access.Confined]
      omega
  · rename_i hlast
    rw [Dec.val_pure, offsetAt, if_neg hlast, ByteSpan.length_bytes, Nat.mod_eq_of_lt hs]
    exact ⟨rfl, by simp [Dec.Returns, hlast], Dec.every_pure _⟩

theorem val_bytelistPass (hs : s.len < 2 ^ 32) (hn : 4 * n ≤ s.len) (hi : i < n) :
    (bytelistPass w s n i).val = s.cut (offsetAt s.bytes n i) (offsetAt s.bytes n (i + 1)) := by
  obtain ⟨hval, -, -⟩ := bytelistHi_spec w hs hn i
  rw [bytelistPass, Dec.val_bind, Dec.val_bind, hval, ByteSpan.val_readU32le, mul_four w hs hn hi,
    u32At_table hn hi, val_between]

theorem returns_bytelistPass (hs : s.len < 2 ^ 32) (hn : 4 * n ≤ s.len) (hi : i < n) :
    (bytelistPass w s n i).Returns ↔
      4 * (i + 1) ≤ s.ptr.length ∧ (i + 1 < n → 4 * (i + 2) ≤ s.ptr.length) := by
  obtain ⟨-, hret, -⟩ := bytelistHi_spec w hs hn i
  unfold Dec.Returns at hret
  rw [bytelistPass, Dec.Returns, Dec.every_bind, Dec.every_bind, hret, ByteSpan.every_readU32le,
    mul_four w hs hn hi, Access.Inside]
  constructor
  · rintro ⟨h₁, h₂, -⟩
    exact ⟨by omega, h₂⟩
  · rintro ⟨h₁, h₂⟩
    exact ⟨by omega, h₂, returns_between _ _ s⟩

theorem confined_bytelistPass (hs : s.len < 2 ^ 32) (hn : 4 * n ≤ s.len) (hi : i < n) :
    (bytelistPass w s n i).Confined ↔ offsetAt s.bytes n i ≤ offsetAt s.bytes n (i + 1) ∧
      offsetAt s.bytes n (i + 1) ≤ s.len := by
  obtain ⟨hval, -, hconf⟩ := bytelistHi_spec w hs hn i
  rw [← confined_between _ _ (offsetAt_lt hs n (i + 1)), bytelistPass, Dec.Confined, Dec.every_bind,
    Dec.every_bind, hval, ByteSpan.val_readU32le, ByteSpan.every_readU32le, mul_four w hs hn hi,
    u32At_table hn hi, Access.Confined]
  exact ⟨fun h => h.2.2, fun h => ⟨by omega, hconf, h⟩⟩

/-- A section too short for an offset is an empty list. -/
theorem decodeBytelistList_of_short (h : s.len < 4) : decodeBytelistList w s = pure [] := by
  rw [decodeBytelistList, if_pos h]

/-- A section whose table is not followed is an empty list. -/
theorem decodeBytelistList_of_not_followed (h4 : 4 ≤ s.len) (h : ¬Followed s.bytes) :
    decodeBytelistList w s = s.readU32le 0 >>= fun _ => pure [] := by
  have hu32 : u32At s.ptr 0 = u32At s.bytes 0 := ByteSpan.u32At_ptr (by omega)
  have hbad : u32At s.ptr 0 % 4 ≠ 0 ∨ u32At s.ptr 0 > s.len := by
    rw [Followed, ByteSpan.length_bytes] at h
    rw [hu32]
    omega
  rw [decodeBytelistList, if_neg (by omega)]
  simp only [Dec.bind_eq, Dec.bind, ByteSpan.val_readU32le, if_pos hbad]

/-- A table that is followed is read item by item. -/
theorem decodeBytelistList_of_followed (h : Followed s.bytes) :
    decodeBytelistList w s = s.readU32le 0 >>= fun _ =>
      Dec.forRange (itemCount s.bytes) (bytelistPass w s (itemCount s.bytes)) := by
  rw [Followed, ByteSpan.length_bytes] at h
  have hu32 : u32At s.ptr 0 = u32At s.bytes 0 := ByteSpan.u32At_ptr (by omega)
  rw [decodeBytelistList, if_neg (by omega)]
  simp only [Dec.bind_eq, Dec.bind, ByteSpan.val_readU32le, hu32, itemCount]
  rw [if_neg (by omega)]

/-- A table that is followed has room for its offsets. -/
theorem room_of_followed (h : Followed s.bytes) :
    4 * itemCount s.bytes ≤ s.len ∧ u32At s.bytes 0 = 4 * itemCount s.bytes := by
  rw [Followed, ByteSpan.length_bytes] at h
  unfold itemCount
  omega

/-- The items of a table that is followed. -/
theorem val_decodeBytelistList (hs : s.len < 2 ^ 32) (h : Followed s.bytes) :
    (decodeBytelistList w s).val = (List.range (itemCount s.bytes)).map fun i =>
      s.cut (offsetAt s.bytes (itemCount s.bytes) i)
        (offsetAt s.bytes (itemCount s.bytes) (i + 1)) := by
  rw [decodeBytelistList_of_followed w h, Dec.val_bind, Dec.val_forRange]
  exact List.map_congr_left fun i hi =>
    val_bytelistPass w hs (room_of_followed h).1 (List.mem_range.mp hi)

/-- A table that is followed is read in full. -/
theorem returns_decodeBytelistList_of_followed (hs : s.len < 2 ^ 32) (h : Followed s.bytes) :
    (decodeBytelistList w s).Returns ↔
      4 ≤ s.ptr.length ∧ 4 * itemCount s.bytes ≤ s.ptr.length := by
  have hn := (room_of_followed h).1
  rw [decodeBytelistList_of_followed w h, Dec.Returns, Dec.every_bind, ByteSpan.every_readU32le,
    Access.Inside, Dec.every_forRange]
  constructor
  · rintro ⟨hread, hpass⟩
    refine ⟨by omega, ?_⟩
    rcases Nat.eq_zero_or_pos (itemCount s.bytes) with hzero | hpos
    · omega
    · -- The last pass reads the end of the table.
      have hlast : itemCount s.bytes - 1 < itemCount s.bytes := by omega
      have hroom := ((returns_bytelistPass w hs hn hlast).mp (hpass _ hlast)).1
      omega
  · rintro ⟨hfour, hroom⟩
    exact ⟨by omega, fun i hi => (returns_bytelistPass w hs hn hi).mpr ⟨by omega, by omega⟩⟩

/-- The slices of a table that is followed stay inside the section exactly when its offsets do
not decrease. -/
theorem confined_decodeBytelistList_of_followed (hs : s.len < 2 ^ 32) (h : Followed s.bytes) :
    (decodeBytelistList w s).Confined ↔ ∀ i, i < itemCount s.bytes →
      offsetAt s.bytes (itemCount s.bytes) i ≤ offsetAt s.bytes (itemCount s.bytes) (i + 1) := by
  have hn := (room_of_followed h).1
  have h4 := h.1
  rw [ByteSpan.length_bytes] at h4
  rw [decodeBytelistList_of_followed w h, Dec.Confined, Dec.every_bind, ByteSpan.every_readU32le,
    Access.Confined, Dec.every_forRange]
  constructor
  · rintro ⟨-, hpass⟩ i hi
    exact ((confined_bytelistPass w hs hn hi).mp (hpass i hi)).1
  · intro hmono
    refine ⟨by omega, fun i hi => (confined_bytelistPass w hs hn hi).mpr ⟨hmono i hi, ?_⟩⟩
    -- Offsets that do not decrease lead up to the end of the section.
    have hend := offsetAt_le_length hmono (i := i + 1) hi
    rwa [ByteSpan.length_bytes] at hend

end BytelistList

/-- Lists of byte lists. -/
theorem decodesSection_bytelistList (limit itemLimit : ℕ) :
    DecodesSection (.list (.byteList itemLimit) limit) (List.map ByteSpan.bytes)
      (decodeBytelistList w) := by
  have hfixed : (byteList itemLimit).isFixed = false := rfl
  refine ⟨?_, ?_, ?_⟩
  · intro s hs h
    rw [Laid, if_neg (by simp [hfixed])] at h
    rw [SszType.read, if_neg (by simp [hfixed])]
    rcases Nat.lt_or_ge s.len 4 with hshort | h4
    · have hcount : itemCount s.bytes = 0 := by
        have hroom := h.1.room
        rw [ByteSpan.length_bytes] at hroom
        omega
      rw [decodeBytelistList_of_short w hshort, hcount]
      rfl
    · have hf := (followed_of_tableOk h.1 (by rwa [ByteSpan.length_bytes])).1
      rw [val_decodeBytelistList w hs hf, List.map_map]
      apply List.map_congr_left
      intro i hi
      have hi := List.mem_range.mp hi
      have hend := offsetAt_le_length h.1.mono (i := i + 1) hi
      rw [ByteSpan.length_bytes] at hend
      rw [Function.comp_apply, SszType.read, (cut_of_le (h.1.mono i hi) hend hs).1, itemAt]
  · intro s hs
    rw [Backed, if_neg (by simp [hfixed])]
    rcases Nat.lt_or_ge s.len 4 with hshort | h4
    · rw [decodeBytelistList_of_short w hshort]
      exact ⟨fun _ h4 => absurd h4 (by omega), fun _ => Dec.every_pure _⟩
    · by_cases hf : Followed s.bytes
      · rw [returns_decodeBytelistList_of_followed w hs hf, (room_of_followed hf).2]
        constructor
        · rintro ⟨hfour, hroom⟩ -
          exact ⟨hfour, fun _ => ⟨hroom, fun i _ => trivial⟩⟩
        · intro h
          obtain ⟨hfour, hall⟩ := h h4
          exact ⟨hfour, (hall hf).1⟩
      · -- Only the first offset is read.
        rw [decodeBytelistList_of_not_followed w h4 hf, Dec.Returns, Dec.every_bind,
          ByteSpan.every_readU32le]
        exact ⟨fun h _ => ⟨by simpa [Access.Inside] using h.1, fun h' => absurd h' hf⟩,
          fun h => ⟨by simpa [Access.Inside] using (h h4).1, Dec.every_pure _⟩⟩
  · intro s hs
    rw [Ordered, hfixed]
    simp only [Bool.false_eq_true, false_or]
    rcases Nat.lt_or_ge s.len 4 with hshort | h4
    · rw [decodeBytelistList_of_short w hshort]
      refine ⟨fun _ hf => absurd hf.1 ?_, fun _ => Dec.every_pure _⟩
      rw [ByteSpan.length_bytes]
      omega
    · -- A table that is not followed leaves an empty list, which has no slices.
      by_cases hf : Followed s.bytes
      · rw [confined_decodeBytelistList_of_followed w hs hf]
        exact ⟨fun h _ i hi => ⟨h i hi, trivial⟩, fun h i hi => (h hf i hi).1⟩
      · rw [decodeBytelistList_of_not_followed w h4 hf, Dec.Confined, Dec.every_bind,
          ByteSpan.every_readU32le]
        exact ⟨fun _ h' => absurd h' hf,
          fun _ => ⟨by simpa [Access.Confined] using h4, Dec.every_pure _⟩⟩

/-! ### Containers -/

/-- The list of versioned hashes. -/
theorem decodesSection_versionedHashes (limit : ℕ) :
    DecodesSection (.list (.bytes 32) limit) id
      (fun s => Dec.forRange (s.len / 32) fun i => s.read (w.mul i 32) 32) := by
  have hfixed : (SszType.bytes 32).isFixed = true := rfl
  refine ⟨?_, ?_, ?_⟩
  · intro s hs _
    rw [SszType.read, if_pos hfixed, ByteSpan.length_bytes, Dec.val_forRange]
    apply List.map_congr_left
    intro i hi
    obtain ⟨hmul, hle⟩ := item_offset w hs (List.mem_range.mp hi)
    rw [hmul, ByteSpan.val_read, ByteSpan.padTo_window_ptr hle]
    rfl
  · intro s hs
    have hsize : (SszType.bytes 32).size = 32 := rfl
    rw [Backed, if_pos hfixed, Dec.Returns, Dec.every_forRange, hsize, ← items_le]
    apply forall₂_congr
    intro i hi
    obtain ⟨hmul, -⟩ := item_offset w hs hi
    rw [ByteSpan.every_read, Access.Inside, hmul]
  · intro s hs
    rw [Ordered, hfixed, Dec.Confined, Dec.every_forRange]
    refine ⟨fun _ => Or.inl rfl, ?_⟩
    intro _ i hi
    obtain ⟨hmul, hle⟩ := item_offset w hs hi
    rw [ByteSpan.every_read, hmul]
    exact hle

/-- The legacy execution requests, with three lists. -/
theorem decodesSection_threeLists :
    DecodesSection (executionRequestsType false) (fun er => SszExecutionRequests.toVal er false)
      (fun s => decodeExecutionRequests w s false) := by
  have hdep := decodesSection_fixedList w (decodesItem_depositRequest w)
    maxDepositRequestsPerPayload
  have hwdr := decodesSection_fixedList w (decodesItem_withdrawalRequest w)
    maxWithdrawalRequestsPerPayload
  have hcon := decodesSection_fixedList w (decodesItem_consolidationRequest w)
    maxConsolidationRequestsPerPayload
  have hskip : ∀ s : ByteSpan, s.len < 12 →
      decodeExecutionRequests w s false = pure { hasBuilderRequests := false } :=
    fun s hs => if_pos hs
  have hthree : ∀ s : ByteSpan, 12 ≤ s.len →
      decodeExecutionRequests w s false = decodeThreeLists w s :=
    fun s hs => if_neg (Nat.not_lt.mpr hs)
  refine ⟨?_, ?_, ?_⟩
  · intro s hs h
    simp only [laid_container, bodyStart, headSize, LaidFields, isFixed, Bool.false_eq_true,
      if_false, ByteSpan.length_bytes, Nat.reduceAdd] at h
    obtain ⟨hlen, -, h₀, hl₀, h₁, hl₁, h₂, hl₂, -⟩ := h
    simp only [read_container, bodyStart, readFields, isFixed, Bool.false_eq_true, if_false,
      ByteSpan.length_bytes, Nat.reduceAdd]
    rw [hthree s hlen, decodeThreeLists]
    simp (disch := omega) only [Dec.val_bind,
      ByteSpan.val_readU32le, val_between, Dec.val_pure, SszExecutionRequests.toVal,
      SszExecutionRequests.tailVal, ByteSpan.u32At_ptr, Nat.mod_eq_of_lt hs]
    exact Prod.ext (hdep.val_cut hs h₀ (by omega) hl₀) (Prod.ext (hwdr.val_cut hs h₁ (by omega) hl₁)
      (Prod.ext (hcon.val_cut hs h₂ le_rfl hl₂) rfl))
  · intro s hs
    simp only [backed_container, headSize, bodyStart, BackedFields, isFixed, Bool.false_eq_true,
      if_false, ByteSpan.length_bytes, Nat.reduceAdd, ← hdep.returns_cut, ← hwdr.returns_cut,
      ← hcon.returns_cut]
    -- What is read: the three offsets, and what the list decoders read.
    rcases Nat.lt_or_ge s.len 12 with hshort | hlen
    · rw [hskip s hshort]
      exact ⟨fun _ h => absurd h (by omega), fun _ => Dec.every_pure _⟩
    · rw [hthree s hlen, decodeThreeLists]
      simp (disch := omega) only [Dec.Returns, Dec.every_bind,
        ByteSpan.every_readU32le, Access.Inside, returns_between, ByteSpan.val_readU32le,
        val_between, Dec.every_pure, ByteSpan.u32At_ptr, Nat.mod_eq_of_lt hs, true_and, and_true]
      constructor
      · rintro ⟨-, -, hread, ha, hb, hc⟩ -
        exact ⟨by omega, ha, hb, hc⟩
      · intro h
        obtain ⟨hroom, ha, hb, hc⟩ := h hlen
        exact ⟨by omega, by omega, by omega, ha, hb, hc⟩
  · intro s hs
    simp only [ordered_container, headSize, bodyStart, OrderedFields, isFixed, Bool.false_eq_true,
      if_false, ByteSpan.length_bytes, Nat.reduceAdd]
    -- What is cut out: from each offset to the next one, and from the last one to the end.
    rcases Nat.lt_or_ge s.len 12 with hshort | hlen
    · rw [hskip s hshort]
      exact ⟨fun _ h => absurd h (by omega), fun _ => Dec.every_pure _⟩
    · have hchain := hdep.confinedFrom_cons hs (u32At s.bytes 0) (u32At_lt s.bytes 4)
        (hwdr.confinedFrom_cons hs _ (u32At_lt s.bytes 8) (hcon.confinedFrom_last hs _))
      rw [hthree s hlen, decodeThreeLists]
      simp (disch := omega) only [Dec.Confined, Dec.every_bind,
        ByteSpan.every_readU32le, Access.Confined, ByteSpan.val_readU32le,
        val_between, Dec.every_pure, ByteSpan.u32At_ptr, Nat.mod_eq_of_lt hs, and_true]
      constructor
      · rintro ⟨-, -, -, b₀, d₀, b₁, d₁, b₂, d₂, -⟩ -
        exact hchain.iff.mp ⟨b₀, d₀, b₁, d₁, b₂, d₂⟩
      · intro h
        -- The three spans are cut out a second time, for the raw lists.
        obtain ⟨b₀, d₀, b₁, d₁, b₂, d₂⟩ := hchain.iff.mpr (h hlen)
        exact ⟨by omega, by omega, by omega, b₀, d₀, b₁, d₁, b₂, d₂, b₀, b₁, b₂⟩

/-- The Amsterdam execution requests, with five lists. -/
theorem decodesSection_fiveLists :
    DecodesSection (executionRequestsType true) (fun er => SszExecutionRequests.toVal er true)
      (fun s => decodeExecutionRequests w s true) := by
  have hdep := decodesSection_fixedList w (decodesItem_depositRequest w)
    maxDepositRequestsPerPayload
  have hwdr := decodesSection_fixedList w (decodesItem_withdrawalRequest w)
    maxWithdrawalRequestsPerPayload
  have hcon := decodesSection_fixedList w (decodesItem_consolidationRequest w)
    maxConsolidationRequestsPerPayload
  have hbdp := decodesSection_fixedList w (decodesItem_builderDepositRequest w)
    maxBuilderDepositRequestsPerPayload
  have hbex := decodesSection_fixedList w (decodesItem_builderExitRequest w)
    maxBuilderExitRequestsPerPayload
  have hskip : ∀ s : ByteSpan, s.len < 20 →
      decodeExecutionRequests w s true = pure { hasBuilderRequests := true } :=
    fun s hs => if_pos hs
  have hfive : ∀ s : ByteSpan, 20 ≤ s.len →
      decodeExecutionRequests w s true = decodeFiveLists w s :=
    fun s hs => if_neg (Nat.not_lt.mpr hs)
  refine ⟨?_, ?_, ?_⟩
  · intro s hs h
    simp only [laid_container, bodyStart, headSize, LaidFields, isFixed, Bool.false_eq_true,
      if_false, ByteSpan.length_bytes, Nat.reduceAdd] at h
    obtain ⟨hlen, -, h₀, hl₀, h₁, hl₁, h₂, hl₂, h₃, hl₃, h₄, hl₄, -⟩ := h
    simp only [read_container, bodyStart, readFields, isFixed, Bool.false_eq_true, if_false,
      ByteSpan.length_bytes, Nat.reduceAdd]
    rw [hfive s hlen, decodeFiveLists]
    simp (disch := omega) only [Dec.val_bind, ByteSpan.val_readU32le, val_between, Dec.val_pure,
      SszExecutionRequests.toVal, SszExecutionRequests.tailVal, ByteSpan.u32At_ptr,
      Nat.mod_eq_of_lt hs]
    exact Prod.ext (hdep.val_cut hs h₀ (by omega) hl₀) (Prod.ext (hwdr.val_cut hs h₁ (by omega) hl₁)
      (Prod.ext (hcon.val_cut hs h₂ (by omega) hl₂) (Prod.ext (hbdp.val_cut hs h₃ (by omega) hl₃)
        (Prod.ext (hbex.val_cut hs h₄ le_rfl hl₄) rfl))))
  · intro s hs
    simp only [backed_container, headSize, bodyStart, BackedFields, isFixed, Bool.false_eq_true,
      if_false, ByteSpan.length_bytes, Nat.reduceAdd, ← hdep.returns_cut, ← hwdr.returns_cut,
      ← hcon.returns_cut, ← hbdp.returns_cut, ← hbex.returns_cut]
    -- A section without room for its five offsets is skipped unread.
    rcases Nat.lt_or_ge s.len 20 with hshort | hlen
    · rw [hskip s hshort]
      exact ⟨fun _ h => absurd h (by omega), fun _ => Dec.every_pure _⟩
    · rw [hfive s hlen, decodeFiveLists]
      simp (disch := omega) only [Dec.Returns, Dec.every_bind, ByteSpan.every_readU32le,
        Access.Inside, returns_between, ByteSpan.val_readU32le, val_between, Dec.every_pure,
        ByteSpan.u32At_ptr, Nat.mod_eq_of_lt hs, true_and, and_true]
      constructor
      · rintro ⟨-, -, -, -, hread, ha, hb, hc, hd, he⟩ -
        exact ⟨by omega, ha, hb, hc, hd, he⟩
      · intro h
        obtain ⟨hroom, ha, hb, hc, hd, he⟩ := h hlen
        exact ⟨by omega, by omega, by omega, by omega, by omega, ha, hb, hc, hd, he⟩
  · intro s hs
    simp only [ordered_container, headSize, bodyStart, OrderedFields, isFixed, Bool.false_eq_true,
      if_false, ByteSpan.length_bytes, Nat.reduceAdd]
    rcases Nat.lt_or_ge s.len 20 with hshort | hlen
    · rw [hskip s hshort]
      exact ⟨fun _ h => absurd h (by omega), fun _ => Dec.every_pure _⟩
    · have hchain := hdep.confinedFrom_cons hs (u32At s.bytes 0) (u32At_lt s.bytes 4)
        (hwdr.confinedFrom_cons hs _ (u32At_lt s.bytes 8)
          (hcon.confinedFrom_cons hs _ (u32At_lt s.bytes 12)
            (hbdp.confinedFrom_cons hs _ (u32At_lt s.bytes 16) (hbex.confinedFrom_last hs _))))
      rw [hfive s hlen, decodeFiveLists]
      simp (disch := omega) only [Dec.Confined, Dec.every_bind, ByteSpan.every_readU32le,
        Access.Confined, ByteSpan.val_readU32le, val_between, Dec.every_pure, ByteSpan.u32At_ptr,
        Nat.mod_eq_of_lt hs, and_true]
      constructor
      · rintro ⟨-, -, -, -, -, b₀, d₀, b₁, d₁, b₂, d₂, b₃, d₃, b₄, d₄, -⟩ -
        exact hchain.iff.mp ⟨b₀, d₀, b₁, d₁, b₂, d₂, b₃, d₃, b₄, d₄⟩
      · intro h
        obtain ⟨b₀, d₀, b₁, d₁, b₂, d₂, b₃, d₃, b₄, d₄⟩ := hchain.iff.mpr (h hlen)
        exact ⟨by omega, by omega, by omega, by omega, by omega, b₀, d₀, b₁, d₁, b₂, d₂, b₃, d₃,
          b₄, d₄, b₀, b₁, b₂, b₃, b₄⟩

/-- The execution requests. -/
theorem decodesSection_executionRequests (builderRequests : Bool) :
    DecodesSection (executionRequestsType builderRequests)
      (fun er => SszExecutionRequests.toVal er builderRequests)
      (fun s => decodeExecutionRequests w s builderRequests) := by
  cases builderRequests
  · exact decodesSection_threeLists w
  · exact decodesSection_fiveLists w

/-- The witness. -/
theorem decodesSection_witness :
    DecodesSection witnessType SszExecutionWitness.toVal (decodeWitness w) := by
  have hsta := decodesSection_bytelistList w maxWitnessNodes maxBytesPerWitnessNode
  have hcod := decodesSection_bytelistList w maxWitnessCodes maxBytesPerCode
  have hhdr := decodesSection_bytelistList w maxWitnessHeaders maxBytesPerHeader
  have hskip : ∀ s : ByteSpan, s.len < 12 → decodeWitness w s = pure {} :=
    fun s hs => if_pos hs
  refine ⟨?_, ?_, ?_⟩
  · intro s hs h
    simp only [laid_container, bodyStart, headSize, LaidFields, isFixed, Bool.false_eq_true,
      if_false, ByteSpan.length_bytes, Nat.reduceAdd] at h
    obtain ⟨hlen, -, h₀, hl₀, h₁, hl₁, h₂, hl₂, -⟩ := h
    simp only [read_container, bodyStart, readFields, isFixed, Bool.false_eq_true, if_false,
      ByteSpan.length_bytes, Nat.reduceAdd]
    rw [decodeWitness, if_neg (Nat.not_lt.mpr hlen)]
    simp (disch := omega) only [Dec.val_bind, ByteSpan.val_readU32le, val_between, Dec.val_pure,
      SszExecutionWitness.toVal, ByteSpan.u32At_ptr, Nat.mod_eq_of_lt hs]
    exact Prod.ext (hsta.val_cut hs h₀ (by omega) hl₀) (Prod.ext (hcod.val_cut hs h₁ (by omega) hl₁)
      (Prod.ext (hhdr.val_cut hs h₂ le_rfl hl₂) rfl))
  · intro s hs
    simp only [backed_container, headSize, bodyStart, BackedFields, isFixed, Bool.false_eq_true,
      if_false, ByteSpan.length_bytes, Nat.reduceAdd, ← hsta.returns_cut, ← hcod.returns_cut,
      ← hhdr.returns_cut]
    -- As for three request lists, except that no raw list is kept.
    rcases Nat.lt_or_ge s.len 12 with hshort | hlen
    · rw [hskip s hshort]
      exact ⟨fun _ h => absurd h (by omega), fun _ => Dec.every_pure _⟩
    · rw [decodeWitness, if_neg (Nat.not_lt.mpr hlen)]
      simp (disch := omega) only [Dec.Returns, Dec.every_bind, ByteSpan.every_readU32le,
        Access.Inside, returns_between, ByteSpan.val_readU32le, val_between, Dec.every_pure,
        ByteSpan.u32At_ptr, Nat.mod_eq_of_lt hs, true_and, and_true]
      constructor
      · rintro ⟨-, -, hread, ha, hb, hc⟩ -
        exact ⟨by omega, ha, hb, hc⟩
      · intro h
        obtain ⟨hroom, ha, hb, hc⟩ := h hlen
        exact ⟨by omega, by omega, by omega, ha, hb, hc⟩
  · intro s hs
    simp only [ordered_container, headSize, bodyStart, OrderedFields, isFixed, Bool.false_eq_true,
      if_false, ByteSpan.length_bytes, Nat.reduceAdd]
    rcases Nat.lt_or_ge s.len 12 with hshort | hlen
    · rw [hskip s hshort]
      exact ⟨fun _ h => absurd h (by omega), fun _ => Dec.every_pure _⟩
    · have hchain := hsta.confinedFrom_cons hs (u32At s.bytes 0) (u32At_lt s.bytes 4)
        (hcod.confinedFrom_cons hs _ (u32At_lt s.bytes 8) (hhdr.confinedFrom_last hs _))
      rw [decodeWitness, if_neg (Nat.not_lt.mpr hlen)]
      simp (disch := omega) only [Dec.Confined, Dec.every_bind, ByteSpan.every_readU32le,
        Access.Confined, ByteSpan.val_readU32le, val_between, Dec.every_pure, ByteSpan.u32At_ptr,
        Nat.mod_eq_of_lt hs, and_true]
      constructor
      · rintro ⟨-, -, -, hconf⟩ -
        exact hchain.iff.mp hconf
      · intro h
        exact ⟨by omega, by omega, by omega, hchain.iff.mpr (h hlen)⟩

/-- What the lists of a payload are. -/
theorem val_decodePayloadLists (s : ByteSpan) (offExtra offTx offWdl stop : ℕ) :
    (decodePayloadLists w s offExtra offTx offWdl stop).val =
      { extraData := s.cut offExtra offTx
        transactions := (decodeBytelistList w (s.cut offTx offWdl)).val
        withdrawals := (decodeFixedList w (s.cut offWdl stop) sszWithdrawalFixedSize
          (decodeWithdrawal w)).val } := by
  simp only [decodePayloadLists, Dec.val_bind, val_between, Dec.val_pure]

theorem every_decodePayloadLists {P : Access → Prop} (s : ByteSpan)
    (offExtra offTx offWdl stop : ℕ) :
    (decodePayloadLists w s offExtra offTx offWdl stop).Every P ↔
      (s.between offExtra offTx).Every P ∧ (s.between offTx offWdl).Every P ∧
      (decodeBytelistList w (s.cut offTx offWdl)).Every P ∧ (s.between offWdl stop).Every P ∧
      (decodeFixedList w (s.cut offWdl stop) sszWithdrawalFixedSize
        (decodeWithdrawal w)).Every P := by
  simp only [decodePayloadLists, Dec.every_bind, val_between, Dec.every_pure, and_true]

/-- The offsets in the fixed part of a payload. -/
theorem val_decodePayloadHead {s : ByteSpan} (shape : PayloadShape) (hlen : 528 ≤ s.len) :
    (decodePayloadHead s shape).val.offExtra = u32At s.bytes 436 ∧
      (decodePayloadHead s shape).val.offTx = u32At s.bytes 504 ∧
      (decodePayloadHead s shape).val.offWdl = u32At s.bytes 508 := by
  simp (disch := omega) only [decodePayloadHead, Dec.val_bind, ByteSpan.val_readU32le,
    Dec.val_pure, ByteSpan.u32At_ptr, and_self]

/-- The fixed part is read in full. -/
theorem returns_decodePayloadHead (s : ByteSpan) (shape : PayloadShape) :
    (decodePayloadHead s shape).Every Access.Inside ↔ 528 ≤ s.ptr.length := by
  simp only [decodePayloadHead, Dec.every_bind, ByteSpan.every_read,
    ByteSpan.every_readU32le, ByteSpan.every_readU64le, Dec.every_pure, Access.Inside, and_true]
  omega

theorem confined_decodePayloadHead {s : ByteSpan} (shape : PayloadShape) (hlen : 528 ≤ s.len) :
    (decodePayloadHead s shape).Every Access.Confined := by
  simp only [decodePayloadHead, Dec.every_bind, ByteSpan.every_read,
    ByteSpan.every_readU32le, ByteSpan.every_readU64le, Dec.every_pure, Access.Confined,
    and_true]
  omega

/-- The payload with 17 fields. -/
theorem decodesSection_electraFulu (balLimit : ℕ) :
    DecodesSection (executionPayloadType .electraFulu balLimit)
      (fun p => SszExecutionPayload.toVal p .electraFulu balLimit)
      (fun s => decodeExecutionPayload w s .electraFulu) := by
  have htxs := decodesSection_bytelistList w maxTransactionsPerPayload maxBytesPerTransaction
  have hwdl := decodesSection_fixedList w (decodesItem_withdrawal w) maxWithdrawalsPerPayload
  have hskip : ∀ s : ByteSpan, s.len < 528 →
      decodeExecutionPayload w s .electraFulu = pure { shape := .unsupported } :=
    fun s hs => if_pos hs
  have hlong : ∀ s : ByteSpan, 528 ≤ s.len →
      decodeExecutionPayload w s .electraFulu = decodePayloadFields w s .electraFulu :=
    fun s hs => if_neg (Nat.not_lt.mpr hs)
  refine ⟨?_, ?_, ?_⟩
  · intro s hs h
    simp only [laid_container, bodyStart, headSize, LaidFields, isFixed, Bool.false_eq_true,
      ↓reduceIte, size, ByteSpan.length_bytes, Nat.reduceAdd] at h
    obtain ⟨hlen, -, h₀, -, h₁, hl₁, h₂, hl₂, -⟩ := h
    simp only [read_container, bodyStart, readFields, isFixed, Bool.false_eq_true, ↓reduceIte,
      size, ByteSpan.length_bytes, Nat.reduceAdd]
    have htxs' := htxs.val_cut hs h₁ (by omega) hl₁
    -- The decoder states the item size as a constant, the lemma as the size of the type.
    have hwdl' : ((decodeFixedList w (s.cut (u32At s.bytes 508) s.len) sszWithdrawalFixedSize
        (decodeWithdrawal w)).val).map SszWithdrawal.toVal = _ := hwdl.val_cut hs h₂ le_rfl hl₂
    rw [hlong s hlen, decodePayloadFields, decodePayloadHead]
    simp (disch := omega) only [Dec.val_bind, ByteSpan.val_read, ByteSpan.val_readU32le,
      ByteSpan.val_readU64le, reduceCtorEq, ↓reduceIte, val_decodePayloadLists, Dec.val_pure,
      SszExecutionPayload.toVal, SszExecutionPayload.tailVal, ByteSpan.u32At_ptr,
      ByteSpan.padTo_window_ptr, ByteSpan.leNat_window_ptr, Nat.mod_eq_of_lt hs, read_uint,
      read_bytes, read_byteList, take_window, leNat_padTo, Nat.reduceMul]
    rw [htxs', hwdl', (cut_of_le h₀ (by omega) hs).1]
  · intro s hs
    simp only [backed_container, headSize, bodyStart, BackedFields, isFixed, Bool.false_eq_true,
      ↓reduceIte, size, ByteSpan.length_bytes, Nat.reduceAdd, ← htxs.returns_cut,
      ← hwdl.returns_cut]
    rcases Nat.lt_or_ge s.len 528 with hshort | hlen
    · rw [hskip s hshort]
      exact ⟨fun _ h => absurd h (by omega), fun _ => Dec.every_pure _⟩
    · obtain ⟨eExtra, eTx, eWdl⟩ := val_decodePayloadHead .electraFulu (s := s) (by omega)
      rw [hlong s hlen, decodePayloadFields, Dec.Returns, Dec.every_bind,
        returns_decodePayloadHead, eExtra, eTx, eWdl]
      simp (disch := omega) only [reduceCtorEq, ↓reduceIte, Dec.every_bind,
        every_decodePayloadLists, returns_between, Dec.every_pure, Nat.mod_eq_of_lt hs, true_and,
        and_true]
      constructor
      · rintro ⟨hroom, ha, hb⟩ -
        exact ⟨hroom, trivial, ha, hb⟩
      · intro h
        obtain ⟨hroom, -, ha, hb⟩ := h hlen
        exact ⟨hroom, ha, hb⟩
  · intro s hs
    simp only [ordered_container, headSize, bodyStart, OrderedFields, isFixed, Bool.false_eq_true,
      ↓reduceIte, size, ByteSpan.length_bytes, Nat.reduceAdd]
    rcases Nat.lt_or_ge s.len 528 with hshort | hlen
    · rw [hskip s hshort]
      exact ⟨fun _ h => absurd h (by omega), fun _ => Dec.every_pure _⟩
    · have hchain := confinedFrom_bytes (u32At s.bytes 436) (u32At_lt s.bytes 504)
        (htxs.confinedFrom_cons hs _ (u32At_lt s.bytes 508) (hwdl.confinedFrom_last hs _))
      obtain ⟨eExtra, eTx, eWdl⟩ := val_decodePayloadHead .electraFulu (s := s) (by omega)
      have hhead := confined_decodePayloadHead .electraFulu (s := s) (by omega)
      rw [hlong s hlen, decodePayloadFields, Dec.Confined, Dec.every_bind, eExtra, eTx, eWdl]
      simp (disch := omega) only [reduceCtorEq, ↓reduceIte, Dec.every_bind,
        every_decodePayloadLists, Dec.every_pure, Nat.mod_eq_of_lt hs, and_true]
      constructor
      · rintro ⟨-, hconf⟩ -
        exact hchain.iff.mp hconf
      · intro h
        exact ⟨hhead, hchain.iff.mpr (h hlen)⟩

/-- The payload with 19 fields. -/
theorem decodesSection_gloas (balLimit : ℕ) :
    DecodesSection (executionPayloadType .gloas balLimit)
      (fun p => SszExecutionPayload.toVal p .gloas balLimit)
      (fun s => decodeExecutionPayload w s .gloas) := by
  have htxs := decodesSection_bytelistList w maxTransactionsPerPayload maxBytesPerTransaction
  have hwdl := decodesSection_fixedList w (decodesItem_withdrawal w) maxWithdrawalsPerPayload
  have hskip : ∀ s : ByteSpan, s.len < 540 →
      decodeExecutionPayload w s .gloas = pure { shape := .unsupported } :=
    fun s hs => if_pos hs
  have hlong : ∀ s : ByteSpan, 540 ≤ s.len →
      decodeExecutionPayload w s .gloas = decodePayloadFields w s .gloas :=
    fun s hs => if_neg (Nat.not_lt.mpr hs)
  refine ⟨?_, ?_, ?_⟩
  · intro s hs h
    simp only [laid_container, bodyStart, headSize, LaidFields, isFixed, Bool.false_eq_true,
      ↓reduceIte, size, ByteSpan.length_bytes, Nat.reduceAdd] at h
    obtain ⟨hlen, -, h₀, -, h₁, hl₁, h₂, hl₂, h₃, -, -⟩ := h
    simp only [read_container, bodyStart, readFields, isFixed, Bool.false_eq_true, ↓reduceIte,
      size, ByteSpan.length_bytes, Nat.reduceAdd]
    have htxs' := htxs.val_cut hs h₁ (by omega) hl₁
    have hwdl' : ((decodeFixedList w (s.cut (u32At s.bytes 508) (u32At s.bytes 528))
        sszWithdrawalFixedSize (decodeWithdrawal w)).val).map SszWithdrawal.toVal = _ :=
      hwdl.val_cut hs h₂ h₃ hl₂
    rw [hlong s hlen, decodePayloadFields, decodePayloadHead]
    simp (disch := omega) only [Dec.val_bind, ByteSpan.val_read, ByteSpan.val_readU32le,
      ByteSpan.val_readU64le, ↓reduceIte, val_decodePayloadLists, Dec.val_pure, val_between,
      SszExecutionPayload.toVal, SszExecutionPayload.tailVal, ByteSpan.u32At_ptr,
      ByteSpan.padTo_window_ptr, ByteSpan.leNat_window_ptr, Nat.mod_eq_of_lt hs, read_uint,
      read_bytes, read_byteList, take_window, leNat_padTo, Nat.reduceMul]
    -- The slot and the offset of the block access list extend the head of the other shape.
    rw [htxs', hwdl', (cut_of_le h₀ (by omega) hs).1, (cut_of_le h₃ le_rfl hs).1]
  · intro s hs
    simp only [backed_container, headSize, bodyStart, BackedFields, isFixed, Bool.false_eq_true,
      ↓reduceIte, size, ByteSpan.length_bytes, Nat.reduceAdd, ← htxs.returns_cut,
      ← hwdl.returns_cut]
    rcases Nat.lt_or_ge s.len 540 with hshort | hlen
    · rw [hskip s hshort]
      exact ⟨fun _ h => absurd h (by omega), fun _ => Dec.every_pure _⟩
    · obtain ⟨eExtra, eTx, eWdl⟩ := val_decodePayloadHead .gloas (s := s) (by omega)
      rw [hlong s hlen, decodePayloadFields, Dec.Returns, Dec.every_bind,
        returns_decodePayloadHead, eExtra, eTx, eWdl]
      simp (disch := omega) only [↓reduceIte, Dec.every_bind, every_decodePayloadLists,
        ByteSpan.every_readU32le, ByteSpan.every_readU64le, Access.Inside, returns_between,
        Dec.every_pure, ByteSpan.val_readU32le, ByteSpan.u32At_ptr, Nat.mod_eq_of_lt hs, true_and,
        and_true]
      constructor
      · rintro ⟨-, -, hread, ha, hb⟩ -
        exact ⟨by omega, trivial, ha, hb, trivial⟩
      · intro h
        obtain ⟨hroom, -, ha, hb, -⟩ := h hlen
        exact ⟨by omega, by omega, by omega, ha, hb⟩
  · intro s hs
    simp only [ordered_container, headSize, bodyStart, OrderedFields, isFixed, Bool.false_eq_true,
      ↓reduceIte, size, ByteSpan.length_bytes, Nat.reduceAdd]
    rcases Nat.lt_or_ge s.len 540 with hshort | hlen
    · rw [hskip s hshort]
      exact ⟨fun _ h => absurd h (by omega), fun _ => Dec.every_pure _⟩
    · have hchain := confinedFrom_bytes (u32At s.bytes 436) (u32At_lt s.bytes 504)
        (htxs.confinedFrom_cons hs _ (u32At_lt s.bytes 508)
          (hwdl.confinedFrom_cons hs _ (u32At_lt s.bytes 528) (confinedFrom_bytes_last hs _)))
      obtain ⟨eExtra, eTx, eWdl⟩ := val_decodePayloadHead .gloas (s := s) (by omega)
      have hhead := confined_decodePayloadHead .gloas (s := s) (by omega)
      rw [hlong s hlen, decodePayloadFields, Dec.Confined, Dec.every_bind, eExtra, eTx, eWdl]
      simp (disch := omega) only [↓reduceIte, Dec.every_bind, every_decodePayloadLists,
        ByteSpan.every_readU32le, ByteSpan.every_readU64le, Access.Confined,
        Dec.every_pure, ByteSpan.val_readU32le, ByteSpan.u32At_ptr, Nat.mod_eq_of_lt hs, and_true]
      constructor
      · -- The block access list comes last in the section, and is cut out first.
        rintro ⟨-, -, -, b₃, b₀, b₁, d₁, b₂, d₂⟩ -
        exact hchain.iff.mp ⟨b₀, b₁, d₁, b₂, d₂, b₃⟩
      · intro h
        obtain ⟨b₀, b₁, d₁, b₂, d₂, b₃⟩ := hchain.iff.mpr (h hlen)
        exact ⟨hhead, by omega, by omega, b₃, b₀, b₁, d₁, b₂, d₂⟩

/-- The payload, in either shape of this guest. -/
theorem decodesSection_executionPayload {shape : PayloadShape} (hshape : shape ≠ .unsupported)
    (balLimit : ℕ) : DecodesSection (executionPayloadType shape balLimit)
      (fun p => SszExecutionPayload.toVal p shape balLimit)
      (fun s => decodeExecutionPayload w s shape) := by
  cases shape with
  | electraFulu => exact decodesSection_electraFulu w balLimit
  | gloas => exact decodesSection_gloas w balLimit
  | unsupported => exact absurd rfl hshape

section

variable {p v r : SszType} (hp : p.isFixed = false) (hv : v.isFixed = false)
  (hr : r.isFixed = false)
include hp hv hr

/-- The layout of three variable-size fields around a 32-byte one. -/
theorem laid_request (b : Bytes) : Laid (.container [p, v, .bytes 32, r]) b ↔
    44 ≤ b.length ∧ u32At b 0 = 44 ∧ u32At b 0 ≤ u32At b 4 ∧
      Laid p (window b (u32At b 0) (u32At b 4 - u32At b 0)) ∧ u32At b 4 ≤ u32At b 40 ∧
      Laid v (window b (u32At b 4) (u32At b 40 - u32At b 4)) ∧ u32At b 40 ≤ b.length ∧
      Laid r (window b (u32At b 40) (b.length - u32At b 40)) := by
  simp only [laid_container, bodyStart, headSize, LaidFields, hp, hv, hr, isFixed, size,
    Bool.false_eq_true, ↓reduceIte, Nat.reduceAdd, and_true]

theorem ordered_request (b : Bytes) : Ordered (.container [p, v, .bytes 32, r]) b ↔
    (44 ≤ b.length → u32At b 0 ≤ u32At b 4 ∧
      Ordered p (window b (u32At b 0) (u32At b 4 - u32At b 0)) ∧ u32At b 4 ≤ u32At b 40 ∧
      Ordered v (window b (u32At b 4) (u32At b 40 - u32At b 4)) ∧ u32At b 40 ≤ b.length ∧
      Ordered r (window b (u32At b 40) (b.length - u32At b 40))) := by
  simp only [ordered_container, bodyStart, headSize, OrderedFields, hp, hv, hr, isFixed, size,
    Bool.false_eq_true, ↓reduceIte, Nat.reduceAdd, and_true]

theorem backed_request (s : ByteSpan) : Backed (.container [p, v, .bytes 32, r]) s ↔
    (44 ≤ s.len → 44 ≤ s.ptr.length ∧ Backed p (s.cut (u32At s.bytes 0) (u32At s.bytes 4)) ∧
      Backed v (s.cut (u32At s.bytes 4) (u32At s.bytes 40)) ∧
      Backed r (s.cut (u32At s.bytes 40) s.len)) := by
  simp only [backed_container, bodyStart, headSize, BackedFields, hp, hv, hr, isFixed, size,
    Bool.false_eq_true, ↓reduceIte, Nat.reduceAdd, and_true, ByteSpan.length_bytes]

theorem read_request (b : Bytes) : SszType.read (.container [p, v, .bytes 32, r]) b =
    (SszType.read p (window b (u32At b 0) (u32At b 4 - u32At b 0)),
      SszType.read v (window b (u32At b 4) (u32At b 40 - u32At b 4)), padTo 32 (window b 8 32),
      SszType.read r (window b (u32At b 40) (b.length - u32At b 40)), ()) := by
  simp only [read_container, bodyStart, readFields, hp, hv, hr, isFixed, size,
    Bool.false_eq_true, ↓reduceIte, Nat.reduceAdd, read_bytes]

end

/-- **The new payload request.** -/
theorem decodesSection_newPayloadRequest {shape : PayloadShape} (hshape : shape ≠ .unsupported)
    (builderRequests : Bool) (balLimit : ℕ) :
    DecodesSection (newPayloadRequestType shape builderRequests balLimit)
      (fun r => SszNewPayloadRequest.toVal r shape builderRequests balLimit)
      (fun s => decodeNewPayloadRequest w s shape builderRequests balLimit) := by
  have hpay := decodesSection_executionPayload w hshape balLimit
  have hvhs := decodesSection_versionedHashes w maxBlobCommitmentsPerBlock
  have hreq := decodesSection_executionRequests w builderRequests
  have hp : (executionPayloadType shape balLimit).isFixed = false := rfl
  have hv : (SszType.list (.bytes 32) maxBlobCommitmentsPerBlock).isFixed = false := rfl
  have hr : (executionRequestsType builderRequests).isFixed = false := rfl
  have hskip : ∀ s : ByteSpan, s.len < 44 →
      decodeNewPayloadRequest w s shape builderRequests balLimit = pure {} :=
    fun s hs => if_pos hs
  refine ⟨?_, ?_, ?_⟩
  · intro s hs h
    -- The beacon root stands between the second offset and the third.
    rw [laid_request hp hv hr, ByteSpan.length_bytes] at h
    obtain ⟨hlen, -, h₀, hl₀, h₁, hl₁, h₂, hl₂⟩ := h
    rw [read_request hp hv hr, ByteSpan.length_bytes, ← hpay.val_cut hs h₀ (by omega) hl₀,
      ← hvhs.val_cut hs h₁ (by omega) hl₁, ← hreq.val_cut hs h₂ le_rfl hl₂,
      decodeNewPayloadRequest, if_neg (Nat.not_lt.mpr hlen)]
    simp (disch := omega) only [Dec.val_bind, ByteSpan.val_read, ByteSpan.val_readU32le,
      val_between, Dec.val_pure, SszNewPayloadRequest.toVal, ByteSpan.u32At_ptr,
      ByteSpan.padTo_window_ptr, Nat.mod_eq_of_lt hs]
    rfl
  · intro s hs
    rw [backed_request hp hv hr]
    rcases Nat.lt_or_ge s.len 44 with hshort | hlen
    · rw [hskip s hshort]
      exact ⟨fun _ h => absurd h (by omega), fun _ => Dec.every_pure _⟩
    · rw [← hpay.returns_cut, ← hvhs.returns_cut, ← hreq.returns_cut, decodeNewPayloadRequest,
        if_neg (Nat.not_lt.mpr hlen)]
      simp (disch := omega) only [Dec.Returns, Dec.every_bind, ByteSpan.every_read,
        ByteSpan.every_readU32le, Access.Inside, returns_between, ByteSpan.val_readU32le,
        val_between, Dec.every_pure, ByteSpan.u32At_ptr, Nat.mod_eq_of_lt hs, true_and, and_true]
      constructor
      · rintro ⟨-, -, -, hread, ha, hb, hc⟩ -
        exact ⟨by omega, ha, hb, hc⟩
      · intro h
        obtain ⟨hroom, ha, hb, hc⟩ := h hlen
        exact ⟨by omega, by omega, by omega, by omega, ha, hb, hc⟩
  · intro s hs
    rw [ordered_request hp hv hr, ByteSpan.length_bytes]
    rcases Nat.lt_or_ge s.len 44 with hshort | hlen
    · rw [hskip s hshort]
      exact ⟨fun _ h => absurd h (by omega), fun _ => Dec.every_pure _⟩
    · have hchain := hpay.confinedFrom_cons hs (u32At s.bytes 0) (u32At_lt s.bytes 4)
        (hvhs.confinedFrom_cons hs _ (u32At_lt s.bytes 40) (hreq.confinedFrom_last hs _))
      rw [decodeNewPayloadRequest, if_neg (Nat.not_lt.mpr hlen)]
      simp (disch := omega) only [Dec.Confined, Dec.every_bind, ByteSpan.every_read,
        ByteSpan.every_readU32le, Access.Confined, ByteSpan.val_readU32le, val_between,
        Dec.every_pure, ByteSpan.u32At_ptr, Nat.mod_eq_of_lt hs, and_true] at hchain ⊢
      constructor
      · rintro ⟨-, -, -, -, hconf⟩ -
        exact hchain.iff.mp hconf
      · intro h
        exact ⟨by omega, by omega, by omega, by omega, hchain.iff.mpr (h hlen)⟩

end StatelessGuest
