import StatelessGuest.HashTreeRoot
import StatelessGuest.Input

/-!
# The spans of a decoded request

A decoded request keeps spans of the input.  Each is cut out between two offsets, so
what every such cut preserves holds of all of them: their lengths are 32-bit numbers,
and they lie in memory where the decoder stayed inside its containers.

## Main definitions

* `CutClosed` — a property of spans that cutting preserves, given what it accesses.
* `CutFrom` — a payload whose spans all have such a property.
* `SszStatelessInput.lists`, `Positioned` — the lists of an input, and where their items end.

## Main results

* `spans_decodeNewPayloadRequest` — **what cutting preserves holds of every span.**
* `positioned_of_valid` — **the items of an accepted input have 32-bit positions.**
* `Positioned.readable` — when a decoded request can be merkleized.
-/

namespace StatelessGuest

open Ssz

/-- Cutting a span preserves `Q`, as long as its accesses satisfy `P`. -/
structure CutClosed (P : Access → Prop) (Q : ByteSpan → Prop) : Prop where
  null : Q .null
  cut : ∀ (s : ByteSpan) (lo hi : ℕ), Q s → (s.between lo hi).Every P → Q (s.cut lo hi)

/-- Every cut is shorter than `2 ^ 32`. -/
theorem cutClosed_short : CutClosed (fun _ => True) fun s => s.len < 2 ^ 32 :=
  ⟨by decide, fun _ lo hi _ _ => sub32_lt hi lo⟩

section

variable (w : WordSize) {P : Access → Prop} {Q : ByteSpan → Prop}

/-- A list of byte strings takes four bytes of its section for each of them. -/
theorem length_bytelistList (s : ByteSpan) : 4 * (decodeBytelistList w s).val.length ≤ s.len := by
  unfold decodeBytelistList
  split
  · exact Nat.zero_le _
  · simp only [Dec.val_bind, Dec.val_ite]
    split
    · exact Nat.zero_le _
    · rw [Dec.val_forRange, List.length_map, List.length_range]
      omega

/-- A payload decoded from spans that satisfy `Q`, its transactions from one of them. -/
structure CutFrom (Q : ByteSpan → Prop) (p : SszExecutionPayload) : Prop where
  spans : p.Spans Q
  table : ∃ s, Q s ∧ 4 * p.transactions.length ≤ s.len

theorem cutFrom_default (hQ : CutClosed P Q) {p : SszExecutionPayload}
    (hextra : p.extraData = .null) (htxs : p.transactions = []) (hbal : p.blockAccessList = .null) :
    CutFrom Q p := by
  refine ⟨⟨hextra ▸ hQ.null, ?_, hbal ▸ hQ.null⟩, .null, hQ.null, ?_⟩
  · rw [htxs]
    intro _ hx
    exact absurd hx List.not_mem_nil
  · rw [htxs]
    exact Nat.zero_le _

theorem spans_bytelistList (hQ : CutClosed P Q) {s : ByteSpan} (hs : Q s)
    (h : (decodeBytelistList w s).Every P) : ∀ x ∈ (decodeBytelistList w s).val, Q x := by
  unfold decodeBytelistList at h ⊢
  split at h
  · rename_i hshort
    rw [if_pos hshort]
    intro x hx
    cases hx
  · rename_i hlong
    rw [if_neg hlong]
    simp only [Dec.every_bind, Dec.val_bind, Dec.every_ite, Dec.val_ite] at h ⊢
    intro x hx
    split at hx
    · cases hx
    · rename_i hcond
      have hpasses := h.2.2 hcond
      rw [Dec.every_forRange] at hpasses
      rw [Dec.val_forRange, List.mem_map] at hx
      obtain ⟨i, hi, rfl⟩ := hx
      have hpass := hpasses i (List.mem_range.mp hi)
      rw [bytelistPass, Dec.every_bind, Dec.every_bind] at hpass
      rw [bytelistPass, Dec.val_bind, Dec.val_bind, val_between]
      exact hQ.cut _ _ _ hs hpass.2.2

theorem spans_decodePayloadFields (hQ : CutClosed P Q) {s : ByteSpan} (hs : Q s)
    (shape : PayloadShape) (h : (decodePayloadFields w s shape).Every P) :
    CutFrom Q (decodePayloadFields w s shape).val := by
  unfold decodePayloadFields at h ⊢
  simp only [Dec.every_bind, Dec.val_bind] at h ⊢
  by_cases hshape : shape = .gloas
  · simp only [hshape, ↓reduceIte, Dec.every_bind, Dec.val_bind, every_decodePayloadLists,
      val_decodePayloadLists, Dec.val_pure, val_between] at h ⊢
    obtain ⟨-, -, -, hbal, ⟨hextra, htxs, hlist, -⟩, -⟩ := h
    exact ⟨⟨hQ.cut _ _ _ hs hextra, spans_bytelistList w hQ (hQ.cut _ _ _ hs htxs) hlist,
      hQ.cut _ _ _ hs hbal⟩, _, hQ.cut _ _ _ hs htxs, length_bytelistList w _⟩
  · simp only [hshape, ↓reduceIte, Dec.every_bind, Dec.val_bind, every_decodePayloadLists,
      val_decodePayloadLists, Dec.val_pure] at h ⊢
    obtain ⟨-, ⟨hextra, htxs, hlist, -⟩, -⟩ := h
    exact ⟨⟨hQ.cut _ _ _ hs hextra, spans_bytelistList w hQ (hQ.cut _ _ _ hs htxs) hlist, hQ.null⟩,
      _, hQ.cut _ _ _ hs htxs, length_bytelistList w _⟩

theorem spans_decodeExecutionPayload (hQ : CutClosed P Q) {s : ByteSpan} (hs : Q s)
    (shape : PayloadShape) (h : (decodeExecutionPayload w s shape).Every P) :
    CutFrom Q (decodeExecutionPayload w s shape).val := by
  unfold decodeExecutionPayload at h ⊢
  split at h
  · rename_i hshort
    rw [if_pos hshort]
    exact cutFrom_default hQ rfl rfl rfl
  · rename_i hlong
    rw [if_neg hlong]
    exact spans_decodePayloadFields w hQ hs shape h

/-- **What cutting preserves holds of every span of a request.** -/
theorem spans_decodeNewPayloadRequest (hQ : CutClosed P Q) {s : ByteSpan} (hs : Q s)
    (shape : PayloadShape) (builderRequests : Bool) (balLimit : ℕ)
    (h : (decodeNewPayloadRequest w s shape builderRequests balLimit).Every P) :
    CutFrom Q (decodeNewPayloadRequest w s shape builderRequests balLimit).val.executionPayload := by
  unfold decodeNewPayloadRequest at h ⊢
  split at h
  · rename_i hshort
    rw [if_pos hshort]
    exact cutFrom_default hQ rfl rfl rfl
  · rename_i hlong
    rw [if_neg hlong]
    simp only [Dec.every_bind, Dec.val_bind, Dec.val_pure, val_between] at h ⊢
    obtain ⟨-, -, -, -, hcut, hpayload, -⟩ := h
    obtain ⟨⟨hextra, htxs, hbal⟩, htable⟩ :=
      spans_decodeExecutionPayload w hQ (hQ.cut _ _ _ hs hcut) shape hpayload
    exact ⟨⟨hextra, htxs, hbal⟩, htable⟩

/-! ### Lengths -/

theorem length_decodeFixedList {α : Type} (s : ByteSpan) (itemSize : ℕ) (fn : ByteSpan → Dec α) :
    (decodeFixedList w s itemSize fn).val.length = s.len / itemSize := by
  rw [decodeFixedList, Dec.val_forRange, List.length_map, List.length_range]

/-- The items of a list that is cut out end at a 32-bit position. -/
theorem length_cutList {α : Type} (s : ByteSpan) (lo hi itemSize : ℕ) (fn : ByteSpan → Dec α) :
    (decodeFixedList w (s.cut lo hi) itemSize fn).val.length * itemSize < 2 ^ 32 := by
  rw [length_decodeFixedList]
  exact lt_of_le_of_lt (Nat.div_mul_le_self _ _) (sub32_lt hi lo)

end

/-! ### Positions -/

/-- The lists of execution requests: how many items there are, and the bytes of each. -/
def SszExecutionRequests.lists (er : SszExecutionRequests) : List (ℕ × ℕ) :=
  [(er.deposits.length, sszDepositRequestFixedSize),
    (er.withdrawals.length, sszWithdrawalRequestFixedSize),
    (er.consolidations.length, sszConsolidationRequestFixedSize),
    (er.builderDeposits.length, sszBuilderDepositRequestFixedSize),
    (er.builderExits.length, sszBuilderExitRequestFixedSize)]

/-- The lists of a request; that of the transactions is found through a table of offsets. -/
def SszNewPayloadRequest.lists (r : SszNewPayloadRequest) : List (ℕ × ℕ) :=
  (r.executionPayload.transactions.length, 4) ::
    (r.executionPayload.withdrawals.length, sszWithdrawalFixedSize) ::
    (r.versionedHashes.length, 32) :: r.executionRequests.lists

/-- The lists of a witness, each behind a table of offsets. -/
def SszExecutionWitness.lists (x : SszExecutionWitness) : List (ℕ × ℕ) :=
  [(x.state.length, 4), (x.codes.length, 4), (x.headers.length, 4)]

/-- The lists of an input: how many items, or offsets, there are, and the bytes of each. -/
def SszStatelessInput.lists (si : SszStatelessInput) : List (ℕ × ℕ) :=
  (si.publicKeys.length, if si.schema = .legacy0001 then 4 else maxBytesPerPublicKey) ::
    (si.newPayloadRequest.lists ++ si.witness.lists)

/-- Every item ends at a 32-bit position. -/
def Positioned (lists : List (ℕ × ℕ)) : Prop := ∀ p ∈ lists, p.1 * p.2 < 2 ^ 32

/-- The position of an item does not wrap. -/
theorem Positioned.mul_eq {lists : List (ℕ × ℕ)} (h : Positioned lists) {p : ℕ × ℕ} (hp : p ∈ lists)
    {i : ℕ} (hi : i ≤ p.1) : WordSize.bits32.mul i p.2 = i * p.2 :=
  WordSize.bits32.mul_eq (lt_of_le_of_lt (Nat.mul_le_mul_right _ hi) (h p hp))

section

variable (w : WordSize)

theorem positioned_decodeExecutionRequests (s : ByteSpan) (builderRequests : Bool) :
    Positioned (decodeExecutionRequests w s builderRequests).val.lists := by
  unfold Positioned SszExecutionRequests.lists
  simp only [List.forall_mem_cons, List.not_mem_nil, false_implies, implies_true, and_true]
  have hnil : ∀ n, 0 * n < 2 ^ 32 := fun n => by omega
  unfold decodeExecutionRequests
  split
  · exact ⟨hnil _, hnil _, hnil _, hnil _, hnil _⟩
  · split
    · simp only [decodeFiveLists, Dec.val_bind, Dec.val_pure, val_between]
      exact ⟨length_cutList w s _ _ _ _, length_cutList w s _ _ _ _, length_cutList w s _ _ _ _,
        length_cutList w s _ _ _ _, length_cutList w s _ _ _ _⟩
    · simp only [decodeThreeLists, Dec.val_bind, Dec.val_pure, val_between]
      exact ⟨length_cutList w s _ _ _ _, length_cutList w s _ _ _ _, length_cutList w s _ _ _ _,
        hnil _, hnil _⟩

/-- The withdrawals of a decoded payload. -/
theorem withdrawals_decodeExecutionPayload (s : ByteSpan) (shape : PayloadShape) :
    (decodeExecutionPayload w s shape).val.withdrawals.length * sszWithdrawalFixedSize < 2 ^ 32 := by
  unfold decodeExecutionPayload
  split
  · exact of_decide_eq_true rfl
  · unfold decodePayloadFields
    by_cases hshape : shape = .gloas
    all_goals
      simp only [hshape, ↓reduceIte, Dec.val_bind, val_decodePayloadLists, Dec.val_pure]
      exact length_cutList w s _ _ _ _

/-- The lengths of the spans of a request are 32-bit numbers. -/
theorem short_decodeNewPayloadRequest {s : ByteSpan} (hs : s.len < 2 ^ 32) (shape : PayloadShape)
    (builderRequests : Bool) (balLimit : ℕ) :
    CutFrom (fun s => s.len < 2 ^ 32)
      (decodeNewPayloadRequest w s shape builderRequests balLimit).val.executionPayload :=
  spans_decodeNewPayloadRequest w cutClosed_short hs shape builderRequests balLimit
    fun _ _ => trivial

/-- **The items of a decoded request have 32-bit positions.** -/
theorem positioned_decodeNewPayloadRequest {s : ByteSpan} (hs : s.len < 2 ^ 32)
    (shape : PayloadShape) (builderRequests : Bool) (balLimit : ℕ) :
    Positioned (decodeNewPayloadRequest w s shape builderRequests balLimit).val.lists := by
  obtain ⟨-, table, htable, htxs⟩ := short_decodeNewPayloadRequest w hs shape builderRequests balLimit
  unfold Positioned SszNewPayloadRequest.lists
  simp only [List.forall_mem_cons]
  refine ⟨by omega, ?_⟩
  clear htxs
  unfold decodeNewPayloadRequest
  split
  · exact ⟨by decide, by decide, by unfold SszExecutionRequests.lists; decide⟩
  · simp only [Dec.val_bind, Dec.val_pure, val_between, Dec.val_forRange, List.length_map,
      List.length_range]
    refine ⟨withdrawals_decodeExecutionPayload w _ _, ?_, positioned_decodeExecutionRequests w _ _⟩
    exact lt_of_le_of_lt (Nat.div_mul_le_self _ _) (sub32_lt _ _)

/-- The offsets of the lists of a witness. -/
theorem positioned_decodeWitness (s : ByteSpan) :
    Positioned (decodeWitness w s).val.lists := by
  have hcut : ∀ lo hi, (decodeBytelistList w (s.cut lo hi)).val.length * 4 < 2 ^ 32 := by
    intro lo hi
    have hlen := length_bytelistList w (s.cut lo hi)
    have hlt := sub32_lt hi lo
    rw [ByteSpan.len_cut] at hlen
    omega
  unfold Positioned SszExecutionWitness.lists
  simp only [List.forall_mem_cons, List.not_mem_nil, false_implies, implies_true, and_true]
  unfold decodeWitness
  split
  · exact ⟨by decide, by decide, by decide⟩
  · simp only [Dec.val_bind, Dec.val_pure, val_between]
    exact ⟨hcut _ _, hcut _ _, hcut _ _⟩

/-- **The items of an accepted input have 32-bit positions.** -/
theorem positioned_of_valid {schema : InputSchema} {b : Bytes} {si : SszStatelessInput}
    (hok : (decodeStatelessInputOf w schema (.ofBytes b)).outcome = .ok si)
    (hvalid : si.valid = true) : Positioned si.lists := by
  obtain ⟨-, -, -, -, hnpr, hwit, hkeys, hschema⟩ := input_of_valid w schema hok hvalid
  unfold Positioned SszStatelessInput.lists
  rw [List.forall_mem_cons, List.forall_mem_append]
  refine ⟨?_, ?_, ?_⟩
  · have hlt : (keysSpan b).len < 2 ^ 32 := sub32_lt _ _
    cases schema with
    | legacy0001 =>
      have hlen := length_bytelistList w (keysSpan b)
      rw [decodeKeys, Dec.val_bind, Dec.val_pure, Option.some.injEq] at hkeys
      rw [hkeys] at hlen
      rw [hschema, if_pos rfl]
      omega
    | amsterdam01 =>
      rw [decodeKeys] at hkeys
      split at hkeys
      · cases hkeys
      · rw [Dec.val_bind, Dec.val_pure, Option.some.injEq, Dec.val_forRange] at hkeys
        rw [hschema, if_neg InputSchema.noConfusion, ← hkeys, List.length_map, List.length_range]
        exact lt_of_le_of_lt (Nat.div_mul_le_self _ _) hlt
  · rw [hnpr, decodeRequest]
    exact positioned_decodeNewPayloadRequest w (sub32_lt _ _) _ _ _
  · rw [hwit]
    exact positioned_decodeWitness w _

/-- Every item of a request but the offset of a transaction has at least 32 bytes. -/
theorem Positioned.counts {r : SszNewPayloadRequest} (h : Positioned r.lists) :
    r.executionPayload.withdrawals.length * 32 < 2 ^ 32 ∧
      r.versionedHashes.length * 32 < 2 ^ 32 ∧ r.executionRequests.Readable .bits32 := by
  have hmod : WordSize.bits32.modulus = 2 ^ 32 := rfl
  unfold Positioned SszNewPayloadRequest.lists SszExecutionRequests.lists at h
  simp only [List.forall_mem_cons, List.not_mem_nil, false_implies, implies_true, and_true,
    sszWithdrawalFixedSize, sszDepositRequestFixedSize, sszWithdrawalRequestFixedSize,
    sszConsolidationRequestFixedSize, sszBuilderDepositRequestFixedSize,
    sszBuilderExitRequestFixedSize] at h
  obtain ⟨-, hwdl, hhashes, hdep, hwdr, hcon, hbdp, hbex⟩ := h
  exact ⟨by omega, by omega, by omega, by omega, by omega, fun _ => by omega, fun _ => by omega⟩

/-- A request whose items have 32-bit positions can be merkleized when its spans lie in memory
and its transactions are not too many. -/
theorem Positioned.readable {r : SszNewPayloadRequest} (h : Positioned r.lists) {w' : WordSize}
    (hspans : r.executionPayload.Spans ByteSpan.InBounds)
    (htxs : r.executionPayload.transactions.length * 32 < w'.modulus) : r.Readable w' := by
  have hwide : ∀ {n : ℕ}, n * 32 < 2 ^ 32 → n * 32 < w'.modulus := fun h =>
    lt_of_lt_of_le h w'.le_modulus
  obtain ⟨hwdl, hhashes, her⟩ := h.counts
  exact ⟨hspans.readable htxs (hwide hwdl), hwide hhashes, hwide her.deposits,
    hwide her.withdrawals, hwide her.consolidations, fun h => hwide (her.builderDeposits h),
    fun h => hwide (her.builderExits h)⟩

end

end StatelessGuest
