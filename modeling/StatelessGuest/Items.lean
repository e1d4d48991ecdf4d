import StatelessGuest.Containers
import StatelessGuest.Decode

/-!
# Decoding fixed-size items

What each decoder of a fixed-size item reads, and what a list of such items
reads: whole items one after the other, with a remainder that nothing looks at.

## Main definitions

* `DecodesItem` — a decoder reads exactly the values of a fixed-size type.

## Main results

* `decodesItem_withdrawal`, … — each item decoder does.
* `val_decodeFixedList`, `returns_decodeFixedList`, `confined_decodeFixedList`
  — **the list decoder, for every item decoder and every section.**
-/

namespace StatelessGuest

open Ssz SszType

variable (w : WordSize)

/-- The decoder reads the values of the fixed-size type `t`: it stays inside a
span of the size of the type, and it needs all of its bytes. -/
structure DecodesItem (t : SszType) {α : Type} (toVal : α → t.Val) (fn : ByteSpan → Dec α) :
    Prop where
  fixed : t.isFixed = true
  pos : 0 < t.size
  val : ∀ s : ByteSpan, s.len = t.size → toVal (fn s).val = read t s.bytes
  returns : ∀ s : ByteSpan, s.len = t.size → ((fn s).Returns ↔ s.InBounds)
  confined : ∀ s : ByteSpan, s.len = t.size → (fn s).Confined

/-! ### The six items -/

theorem decodesItem_withdrawal :
    DecodesItem withdrawalType SszWithdrawal.toVal (decodeWithdrawal w) := by
  have hsize : withdrawalType.size = 44 := rfl
  refine ⟨rfl, by decide, fun s hs => ?_, fun s hs => ?_, fun s hs => ?_⟩ <;> rw [hsize] at hs
  · simp [decodeWithdrawal, SszWithdrawal.toVal, SszType.read, readFields, isFixed, size,
      ByteSpan.leNat_window_ptr, ByteSpan.padTo_window_ptr, hs]
  · simp [decodeWithdrawal, Dec.Returns, Access.Inside, ByteSpan.InBounds, hs]
    omega
  · simp [decodeWithdrawal, Dec.Confined, Access.Confined, WordSize.sub_eq, hs]

theorem decodesItem_depositRequest :
    DecodesItem depositRequestType SszDepositRequest.toVal (decodeDepositRequest w) := by
  have hsize : depositRequestType.size = 192 := rfl
  refine ⟨rfl, by decide, fun s hs => ?_, fun s hs => ?_, fun s hs => ?_⟩ <;> rw [hsize] at hs
  · simp [decodeDepositRequest, SszDepositRequest.toVal, SszType.read, readFields, isFixed, size,
      ByteSpan.leNat_window_ptr, ByteSpan.padTo_window_ptr, hs]
  · simp [decodeDepositRequest, Dec.Returns, Access.Inside, ByteSpan.InBounds, hs]
    omega
  · simp [decodeDepositRequest, Dec.Confined, Access.Confined, WordSize.sub_eq, hs]

theorem decodesItem_withdrawalRequest :
    DecodesItem withdrawalRequestType SszWithdrawalRequest.toVal (decodeWithdrawalRequest w) := by
  have hsize : withdrawalRequestType.size = 76 := rfl
  refine ⟨rfl, by decide, fun s hs => ?_, fun s hs => ?_, fun s hs => ?_⟩ <;> rw [hsize] at hs
  · simp [decodeWithdrawalRequest, SszWithdrawalRequest.toVal, SszType.read, readFields, isFixed,
      size, ByteSpan.leNat_window_ptr, ByteSpan.padTo_window_ptr, hs]
  · simp [decodeWithdrawalRequest, Dec.Returns, Access.Inside, ByteSpan.InBounds, hs]
    omega
  · simp [decodeWithdrawalRequest, Dec.Confined, Access.Confined, WordSize.sub_eq, hs]

theorem decodesItem_consolidationRequest :
    DecodesItem consolidationRequestType SszConsolidationRequest.toVal
      (decodeConsolidationRequest w) := by
  have hsize : consolidationRequestType.size = 116 := rfl
  refine ⟨rfl, by decide, fun s hs => ?_, fun s hs => ?_, fun s hs => ?_⟩ <;> rw [hsize] at hs
  · simp [decodeConsolidationRequest, SszConsolidationRequest.toVal, SszType.read, readFields, isFixed,
      size, ByteSpan.padTo_window_ptr, hs]
  · simp [decodeConsolidationRequest, Dec.Returns, Access.Inside, ByteSpan.InBounds, hs]
    omega
  · simp [decodeConsolidationRequest, Dec.Confined, Access.Confined, WordSize.sub_eq, hs]

theorem decodesItem_builderDepositRequest :
    DecodesItem builderDepositRequestType SszBuilderDepositRequest.toVal
      (decodeBuilderDepositRequest w) := by
  have hsize : builderDepositRequestType.size = 184 := rfl
  refine ⟨rfl, by decide, fun s hs => ?_, fun s hs => ?_, fun s hs => ?_⟩ <;> rw [hsize] at hs
  · simp [decodeBuilderDepositRequest, SszBuilderDepositRequest.toVal, SszType.read, readFields, isFixed,
      size, ByteSpan.leNat_window_ptr, ByteSpan.padTo_window_ptr, hs]
  · simp [decodeBuilderDepositRequest, Dec.Returns, Access.Inside, ByteSpan.InBounds, hs]
    omega
  · simp [decodeBuilderDepositRequest, Dec.Confined, Access.Confined, WordSize.sub_eq, hs]

theorem decodesItem_builderExitRequest :
    DecodesItem builderExitRequestType SszBuilderExitRequest.toVal
      (decodeBuilderExitRequest w) := by
  have hsize : builderExitRequestType.size = 68 := rfl
  refine ⟨rfl, by decide, fun s hs => ?_, fun s hs => ?_, fun s hs => ?_⟩ <;> rw [hsize] at hs
  · simp [decodeBuilderExitRequest, SszBuilderExitRequest.toVal, SszType.read, readFields, isFixed,
      size, ByteSpan.padTo_window_ptr, hs]
  · simp [decodeBuilderExitRequest, Dec.Returns, Access.Inside, ByteSpan.InBounds, hs]
    omega
  · simp [decodeBuilderExitRequest, Dec.Confined, Access.Confined, WordSize.sub_eq, hs]

/-! ### Lists of items -/

variable {t : SszType} {α : Type} {toVal : α → t.Val} {fn : ByteSpan → Dec α}

/-- Item `i` of a section lies in the section, and its offset does not wrap. -/
theorem item_offset {len size i : ℕ} (hlen : len < 2 ^ 32) (hi : i < len / size) :
    w.mul i size = i * size ∧ i * size + size ≤ len := by
  have hle : i * size + size ≤ len := calc
    i * size + size = (i + 1) * size := (Nat.succ_mul _ _).symm
    _ ≤ len / size * size := Nat.mul_le_mul_right _ hi
    _ ≤ len := Nat.div_mul_le_self _ _
  exact ⟨w.mul_eq (by omega), hle⟩

/-- The items of a section are the values read off it. -/
theorem val_decodeFixedList (h : DecodesItem t toVal fn) {s : ByteSpan} (hlen : s.len < 2 ^ 32)
    (limit : ℕ) :
    (decodeFixedList w s t.size fn).val.map toVal = SszType.read (.list t limit) s.bytes := by
  simp only [decodeFixedList, Dec.val_forRange, Dec.val_bind, ByteSpan.val_slice, SszType.read,
    h.fixed, if_true, ByteSpan.length_bytes, List.map_map]
  apply List.map_congr_left
  intro i hi
  obtain ⟨hmul, hle⟩ := item_offset w hlen (List.mem_range.mp hi)
  simp only [Function.comp_apply, hmul]
  rw [h.val _ rfl, ByteSpan.bytes_drop hle]

/-- All items lie in the buffer exactly when the last one does. -/
theorem items_le {n size room : ℕ} :
    (∀ i, i < n → i * size + size ≤ room) ↔ n * size ≤ room := by
  constructor
  · intro h
    cases n with
    | zero => simp
    | succ n =>
      rw [Nat.succ_mul]
      exact h n (Nat.lt_succ_self n)
  · intro h i hi
    calc i * size + size = (i + 1) * size := (Nat.succ_mul _ _).symm
      _ ≤ n * size := Nat.mul_le_mul_right _ hi
      _ ≤ room := h

/-- Decoding a section reads all of its whole items. -/
theorem returns_decodeFixedList (h : DecodesItem t toVal fn) {s : ByteSpan} (hlen : s.len < 2 ^ 32) :
    (decodeFixedList w s t.size fn).Returns ↔ s.len / t.size * t.size ≤ s.ptr.length := by
  have hpos := h.pos
  simp only [decodeFixedList, Dec.Returns, Dec.every_forRange, Dec.every_bind,
    ByteSpan.every_slice, ByteSpan.val_slice, Access.Inside, true_and]
  rw [← items_le]
  apply forall₂_congr
  intro i hi
  obtain ⟨hmul, -⟩ := item_offset w hlen hi
  have hitem := h.returns ⟨s.ptr.drop (w.mul i t.size), t.size⟩ rfl
  unfold Dec.Returns at hitem
  rw [hitem, hmul, ByteSpan.InBounds, List.length_drop]
  dsimp only
  omega

/-- Decoding a section never leaves it. -/
theorem confined_decodeFixedList (h : DecodesItem t toVal fn) {s : ByteSpan}
    (hlen : s.len < 2 ^ 32) : (decodeFixedList w s t.size fn).Confined := by
  simp only [decodeFixedList, Dec.Confined, Dec.every_forRange, Dec.every_bind,
    ByteSpan.every_slice, ByteSpan.val_slice, Access.Confined]
  intro i hi
  obtain ⟨hmul, hle⟩ := item_offset w hlen hi
  exact ⟨by rw [hmul]; exact hle, h.confined _ rfl⟩

end StatelessGuest
