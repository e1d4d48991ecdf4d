import StatelessGuest.Confinement

/-!
# The two views of the execution requests

The execution requests are decoded into structures, from which the hash tree
root is taken, and also kept as raw spans, which are hashed for the block header.
A list is decoded into as many whole items as its section holds, so the two
views agree exactly when no section has a remainder.

## Main definitions

* `RawAgrees` — the raw spans are the encodings of the decoded items.
* `RequestsWhole` — every list section is a whole number of items.

## Main results

* `rawAgrees_decodeExecutionRequests` — the two are equivalent.
* `executionRequests_agree` — **the two views of an accepted input agree exactly
  when its request sections are whole.**
-/

namespace StatelessGuest

open Ssz SszType

/-! ### One list -/

/-- The whole items of a string, written back. -/
theorem serialize_read_list {t : SszType} (ht : t.isFixed = true) (limit : ℕ) (b : Bytes) :
    serialize (.list t limit) (SszType.read (.list t limit) b) =
      window b 0 (b.length / t.size * t.size) := by
  rw [serialize_list_fixed ht, SszType.read, if_pos ht, List.map_map, ← flatten_windows]
  refine congrArg List.flatten (List.map_congr_left ?_)
  intro i hi
  refine serialize_read (laid_of_isFixed ht (length_window_of_le ?_))
  calc i * t.size + t.size = (i + 1) * t.size := (Nat.succ_mul _ _).symm
    _ ≤ b.length / t.size * t.size := Nat.mul_le_mul_right _ (List.mem_range.mp hi)
    _ ≤ b.length := Nat.div_mul_le_self _ _

theorem serialize_read_list_eq_self {t : SszType} (ht : t.isFixed = true) (limit : ℕ) (b : Bytes) :
    b = serialize (.list t limit) (SszType.read (.list t limit) b) ↔ t.size ∣ b.length := by
  rw [serialize_read_list ht]
  constructor
  · intro h
    have hlen := congrArg List.length h
    rw [length_window_of_le (by have := Nat.div_mul_le_self b.length t.size; omega)] at hlen
    exact ⟨b.length / t.size, by rw [Nat.mul_comm]; exact hlen⟩
  · intro h
    rw [Nat.div_mul_cancel h, window_self rfl]

variable (w : WordSize)

/-- A section agrees with the items decoded from it exactly when it has no
remainder. -/
theorem bytes_eq_items {t : SszType} {α : Type} {toVal : α → t.Val} {fn : ByteSpan → Dec α}
    (h : DecodesItem t toVal fn) (limit : ℕ) {s : ByteSpan} (hlen : s.len < 2 ^ 32) :
    s.bytes = serialize (.list t limit) ((decodeFixedList w s t.size fn).val.map toVal) ↔
      t.size ∣ s.len := by
  rw [val_decodeFixedList w h hlen limit, serialize_read_list_eq_self h.fixed,
    ByteSpan.length_bytes]

/-! ### All lists -/

/-- The raw span of each list is the encoding of its decoded items. -/
structure RawAgrees (er : SszExecutionRequests) : Prop where
  deposits : er.rawDeposits.bytes =
    serialize (.list depositRequestType maxDepositRequestsPerPayload)
      (er.deposits.map SszDepositRequest.toVal)
  withdrawals : er.rawWithdrawals.bytes =
    serialize (.list withdrawalRequestType maxWithdrawalRequestsPerPayload)
      (er.withdrawals.map SszWithdrawalRequest.toVal)
  consolidations : er.rawConsolidations.bytes =
    serialize (.list consolidationRequestType maxConsolidationRequestsPerPayload)
      (er.consolidations.map SszConsolidationRequest.toVal)
  builderDeposits : er.rawBuilderDeposits.bytes =
    serialize (.list builderDepositRequestType maxBuilderDepositRequestsPerPayload)
      (er.builderDeposits.map SszBuilderDepositRequest.toVal)
  builderExits : er.rawBuilderExits.bytes =
    serialize (.list builderExitRequestType maxBuilderExitRequestsPerPayload)
      (er.builderExits.map SszBuilderExitRequest.toVal)

/-- Every list section between the offsets is a whole number of items. -/
def RequestsWhole (builderRequests : Bool) (s : ByteSpan) : Prop :=
  if builderRequests then
    192 ∣ sub32 (u32At s.ptr 4) (u32At s.ptr 0) ∧ 76 ∣ sub32 (u32At s.ptr 8) (u32At s.ptr 4) ∧
      116 ∣ sub32 (u32At s.ptr 12) (u32At s.ptr 8) ∧
      184 ∣ sub32 (u32At s.ptr 16) (u32At s.ptr 12) ∧
      68 ∣ sub32 (s.len % 2 ^ 32) (u32At s.ptr 16)
  else
    192 ∣ sub32 (u32At s.ptr 4) (u32At s.ptr 0) ∧ 76 ∣ sub32 (u32At s.ptr 8) (u32At s.ptr 4) ∧
      116 ∣ sub32 (s.len % 2 ^ 32) (u32At s.ptr 8)

/-- No requests at all agree. -/
theorem rawAgrees_default (hasBuilderRequests : Bool) : RawAgrees { hasBuilderRequests } := by
  refine ⟨?_, ?_, ?_, ?_, ?_⟩ <;> (rw [serialize]; rfl)

/-- **The two views of decoded requests agree exactly when their sections are
whole**, or when the whole section is too short and skipped. -/
theorem rawAgrees_decodeExecutionRequests (s : ByteSpan) (builderRequests : Bool) :
    RawAgrees (decodeExecutionRequests w s builderRequests).val ↔
      s.len < execReqHead builderRequests ∨ RequestsWhole builderRequests s := by
  have hdep := fun lo hi => bytes_eq_items w (decodesItem_depositRequest w)
    maxDepositRequestsPerPayload (s := s.cut lo hi) (sub32_lt hi lo)
  have hwdr := fun lo hi => bytes_eq_items w (decodesItem_withdrawalRequest w)
    maxWithdrawalRequestsPerPayload (s := s.cut lo hi) (sub32_lt hi lo)
  have hcon := fun lo hi => bytes_eq_items w (decodesItem_consolidationRequest w)
    maxConsolidationRequestsPerPayload (s := s.cut lo hi) (sub32_lt hi lo)
  have hbd := fun lo hi => bytes_eq_items w (decodesItem_builderDepositRequest w)
    maxBuilderDepositRequestsPerPayload (s := s.cut lo hi) (sub32_lt hi lo)
  have hbe := fun lo hi => bytes_eq_items w (decodesItem_builderExitRequest w)
    maxBuilderExitRequestsPerPayload (s := s.cut lo hi) (sub32_lt hi lo)
  -- A raw list is the encoding of its items exactly when it leaves no remainder.
  unfold decodeExecutionRequests
  rcases Decidable.em (s.len < execReqHead builderRequests) with hshort | hlong
  · rw [if_pos hshort, Dec.val_pure]
    exact ⟨fun _ => Or.inl hshort, fun _ => rawAgrees_default builderRequests⟩
  · rw [if_neg hlong, or_iff_right hlong]
    have hempty := rawAgrees_default false
    cases builderRequests with
    | true =>
      simp only [if_true, decodeFiveLists, Dec.val_bind, Dec.val_pure, val_between,
        ByteSpan.val_readU32le, RequestsWhole]
      constructor
      · intro h
        exact ⟨(hdep _ _).mp h.deposits, (hwdr _ _).mp h.withdrawals, (hcon _ _).mp h.consolidations,
          (hbd _ _).mp h.builderDeposits, (hbe _ _).mp h.builderExits⟩
      · rintro ⟨h₁, h₂, h₃, h₄, h₅⟩
        exact ⟨(hdep _ _).mpr h₁, (hwdr _ _).mpr h₂, (hcon _ _).mpr h₃, (hbd _ _).mpr h₄,
          (hbe _ _).mpr h₅⟩
    | false =>
      simp only [Bool.false_eq_true, if_false, decodeThreeLists, Dec.val_bind, Dec.val_pure,
        val_between, ByteSpan.val_readU32le, RequestsWhole]
      constructor
      · intro h
        exact ⟨(hdep _ _).mp h.deposits, (hwdr _ _).mp h.withdrawals, (hcon _ _).mp h.consolidations⟩
      · rintro ⟨h₁, h₂, h₃⟩
        exact ⟨(hdep _ _).mpr h₁, (hwdr _ _).mpr h₂, (hcon _ _).mpr h₃, hempty.builderDeposits,
          hempty.builderExits⟩

/-! ### The input -/

/-- The section of the execution requests in the request section. -/
def executionRequestsSpan (b : Bytes) : ByteSpan :=
  (requestSpan b).cut (u32At (requestSpan b).ptr 40) ((requestSpan b).len % 2 ^ 32)

/-- The lists of execution requests that are decoded have no remainder. -/
def InputRequestsWhole (schema : InputSchema) (b : Bytes) : Prop :=
  (requestSpan b).len < nprFixed ∨
    (executionRequestsSpan b).len < execReqHead schema.builderRequests ∨
      RequestsWhole schema.builderRequests (executionRequestsSpan b)

/-- **The two views of the execution requests of an accepted input agree exactly
when no list section has a remainder.** -/
theorem executionRequests_agree (schema : InputSchema) {b : Bytes} {si : SszStatelessInput}
    (hok : (decodeStatelessInputOf w schema (.ofBytes b)).outcome = .ok si)
    (hvalid : si.valid = true) :
    RawAgrees si.newPayloadRequest.executionRequests ↔ InputRequestsWhole schema b := by
  obtain ⟨-, -, -, -, hreq, -, -, -⟩ := input_of_valid w schema hok hvalid
  rw [hreq, decodeRequest, decodeNewPayloadRequest, InputRequestsWhole]
  rcases Decidable.em ((requestSpan b).len < nprFixed) with hshort | hlong
  · rw [if_pos hshort, Dec.val_pure]
    exact ⟨fun _ => Or.inl hshort, fun _ => rawAgrees_default false⟩
  · rw [if_neg hlong, or_iff_right hlong]
    simp only [Dec.val_bind, Dec.val_pure, val_between, ByteSpan.val_readU32le]
    exact rawAgrees_decodeExecutionRequests w _ _

/-- An Amsterdam input with an empty payload and a deposit list of one byte. -/
def oneByteDepositInput : Bytes :=
  [16, 0, 0, 0, 109, 2, 0, 0, 109, 2, 0, 0, 133, 2, 0, 0] ++
    ([44, 0, 0, 0, 72, 2, 0, 0] ++ List.replicate 32 0 ++ [72, 2, 0, 0] ++ List.replicate 540 0 ++
      [20, 0, 0, 0, 21, 0, 0, 0, 21, 0, 0, 0, 21, 0, 0, 0, 21, 0, 0, 0, 7]) ++
    [1, 0, 0, 0, 0, 0, 0, 0, 12, 0, 0, 0, 4, 0, 0, 0, 8, 0, 0, 0, 8, 0, 0, 0]

theorem outcome_oneByteDepositInput :
    (decodeStatelessInputOf .bits32 .amsterdam01 (.ofBytes oneByteDepositInput)).outcome =
      .ok (decodeStatelessInputOf .bits32 .amsterdam01 (.ofBytes oneByteDepositInput)).val :=
  Dec.outcome_eq_ok.mpr ⟨by decide +kernel, rfl⟩

/-- A whole deposit, and the first byte of one. -/
theorem executionRequests_agree_deposits :
    RawAgrees (decodeStatelessInputOf .bits32 .amsterdam01 (.ofBytes (depositsInput
        (List.replicate 192 5)))).val.newPayloadRequest.executionRequests ∧
      ¬RawAgrees (decodeStatelessInputOf .bits32 .amsterdam01
        (.ofBytes oneByteDepositInput)).val.newPayloadRequest.executionRequests := by
  have hok : (decodeStatelessInputOf .bits32 .amsterdam01 (.ofBytes (depositsInput
      (List.replicate 192 5)))).outcome = .ok (decodeStatelessInputOf .bits32 .amsterdam01
        (.ofBytes (depositsInput (List.replicate 192 5)))).val :=
    Dec.outcome_eq_ok.mpr ⟨by decide +kernel, rfl⟩
  have hwhole : InputRequestsWhole .amsterdam01 (depositsInput (List.replicate 192 5)) := by
    unfold InputRequestsWhole RequestsWhole
    decide +kernel
  have hrest : ¬InputRequestsWhole .amsterdam01 oneByteDepositInput := by
    unfold InputRequestsWhole RequestsWhole
    decide +kernel
  exact ⟨(executionRequests_agree .bits32 .amsterdam01 hok (by decide +kernel)).mpr hwhole,
    fun h => hrest ((executionRequests_agree .bits32 .amsterdam01 outcome_oneByteDepositInput
      (by decide +kernel)).mp h)⟩

/-- The byte is in the raw span of the deposits, but there is no deposit. -/
theorem executionRequests_agree_counterexample :
    ¬∀ (w : WordSize) (schema : InputSchema) (b : Bytes) (si : SszStatelessInput),
      (decodeStatelessInputOf w schema (.ofBytes b)).outcome = .ok si → si.valid = true →
        RawAgrees si.newPayloadRequest.executionRequests := by
  intro h
  have hdep := (h .bits32 .amsterdam01 oneByteDepositInput _ outcome_oneByteDepositInput
    (by decide +kernel)).deposits
  revert hdep
  decide +kernel

end StatelessGuest
