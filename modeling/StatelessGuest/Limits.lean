import StatelessGuest.Confinement

/-!
# Sections in order and within their limits

When a section of the input is canonical, spelled out: conditions on its length, on its
offsets, and on the lengths and the numbers of the items of its lists.

## Main definitions

* `FixedItems`, `ByteLists` — the lists.
* `ContainerOk` — a container whose offsets are in order, and whose pieces are as asked.
* `RequestInLimits`, `WitnessInLimits`, `KeysInLimits` — the sections of the input.

## Main results

* `canonical_container` — a container is canonical exactly when its offsets are in order
  and its pieces are canonical.
* `canonical_request`, `canonical_witness`, `canonical_keys` — **the sections are canonical
  exactly when they are in order and within their limits.**
-/

namespace StatelessGuest

open Ssz SszType

/-! ### Lists -/

/-- Whole items of one size, and no more of them than the limit. -/
def FixedItems (size limit : ℕ) (b : Bytes) : Prop := size ∣ b.length ∧ b.length / size ≤ limit

/-- A table whose first offset is its own length and whose offsets do not decrease or leave
the list, and no more items and no longer ones than the limits. -/
structure ByteLists (limit itemLimit : ℕ) (b : Bytes) : Prop where
  room : 4 * itemCount b ≤ b.length
  first : offsetAt b (itemCount b) 0 = 4 * itemCount b
  mono : ∀ i < itemCount b, offsetAt b (itemCount b) i ≤ offsetAt b (itemCount b) (i + 1)
  count : itemCount b ≤ limit
  items : ∀ i < itemCount b,
    offsetAt b (itemCount b) (i + 1) - offsetAt b (itemCount b) i ≤ itemLimit

instance (size limit : ℕ) (b : Bytes) : Decidable (FixedItems size limit b) :=
  inferInstanceAs (Decidable (_ ∧ _))

theorem byteLists_iff {limit itemLimit : ℕ} {b : Bytes} : ByteLists limit itemLimit b ↔
    4 * itemCount b ≤ b.length ∧ offsetAt b (itemCount b) 0 = 4 * itemCount b ∧
      (∀ i < itemCount b, offsetAt b (itemCount b) i ≤ offsetAt b (itemCount b) (i + 1)) ∧
      itemCount b ≤ limit ∧ ∀ i < itemCount b,
        offsetAt b (itemCount b) (i + 1) - offsetAt b (itemCount b) i ≤ itemLimit := by
  constructor
  · intro h
    exact ⟨h.room, h.first, h.mono, h.count, h.items⟩
  · rintro ⟨hroom, hfirst, hmono, hcount, hitems⟩
    exact ⟨hroom, hfirst, hmono, hcount, hitems⟩

instance (limit itemLimit : ℕ) (b : Bytes) : Decidable (ByteLists limit itemLimit b) :=
  decidable_of_iff _ byteLists_iff.symm

mutual

/-- A value without lists is within every limit. -/
theorem fits_of_isFixed : ∀ {t : SszType}, t.isFixed = true → ∀ v : t.Val, Fits t v
  | .uint _, _, _ => by rw [Fits]; trivial
  | .bytes _, _, _ => by rw [Fits]; trivial
  | .container ts, h, v => by
      unfold Fits
      exact fitsAll_of_allFixed (by simpa [isFixed] using h) v

theorem fitsAll_of_allFixed : ∀ {ts : List SszType}, allFixed ts = true → ∀ vs : Vals ts,
    FitsAll ts vs
  | [], _, _ => by rw [FitsAll]; trivial
  | t :: ts, h, (v, vs) => by
      have hts : t.isFixed = true ∧ allFixed ts = true := by simpa [allFixed] using h
      unfold FitsAll
      exact ⟨fits_of_isFixed hts.1 v, fitsAll_of_allFixed hts.2 vs⟩

end

theorem canonical_byteList {limit : ℕ} {b : Bytes} :
    Canonical (.byteList limit) b ↔ b.length ≤ limit := by
  rw [Canonical, Laid, read_byteList, Fits, true_and]

theorem canonical_fixedItems {t : SszType} (ht : t.isFixed = true) {limit : ℕ} {b : Bytes} :
    Canonical (.list t limit) b ↔ FixedItems t.size limit b := by
  rw [Canonical, Laid, if_pos ht, SszType.read, if_pos ht, Fits, List.length_map, List.length_range,
    FixedItems]
  exact and_congr_right fun _ => and_iff_left fun v _ => fits_of_isFixed ht v

theorem canonical_byteLists {limit itemLimit : ℕ} {b : Bytes} :
    Canonical (.list (.byteList itemLimit) limit) b ↔ ByteLists limit itemLimit b := by
  have hvar : (SszType.byteList itemLimit).isFixed = false := rfl
  rw [Canonical, Laid, hvar, if_neg Bool.false_ne_true, SszType.read, hvar,
    if_neg Bool.false_ne_true, Fits, List.length_map, List.length_range, byteLists_iff]
  constructor
  · rintro ⟨⟨htable, -⟩, hcount, hitems⟩
    refine ⟨htable.room, htable.first, htable.mono, hcount, ?_⟩
    intro i hi
    -- The items lie inside the string, so their lengths are the distances of the offsets.
    have hend := offsetAt_le_length htable.mono (i := i + 1) hi
    have hitem := hitems _ (List.mem_map_of_mem (List.mem_range.mpr hi))
    rw [read_byteList, Fits, itemAt, length_window] at hitem
    omega
  · rintro ⟨hroom, hfirst, hmono, hcount, hitems⟩
    refine ⟨⟨⟨hroom, hfirst, hmono⟩, fun i _ => by rw [Laid]; trivial⟩, hcount, ?_⟩
    intro v hv
    obtain ⟨i, hi, rfl⟩ := List.mem_map.mp hv
    have hitem := hitems i (List.mem_range.mp hi)
    rw [read_byteList, Fits, itemAt, length_window]
    omega

/-! ### Containers -/

/-- The pieces of a container that have an offset: where in the head the offset stands, and
what is asked of the piece. -/
abbrev Pieces := List (ℕ × (Bytes → Prop))

/-- Where the first of the pieces starts, and so where the one before it ends. -/
def pieceStart (b : Bytes) : Pieces → ℕ
  | [] => b.length
  | (k, _) :: _ => u32At b k

/-- The offsets of the pieces do not decrease, and each piece is as asked. -/
def PiecesOk (b : Bytes) : Pieces → Prop
  | [] => True
  | (k, ok) :: pieces => u32At b k ≤ pieceStart b pieces ∧
      ok (window b (u32At b k) (pieceStart b pieces - u32At b k)) ∧ PiecesOk b pieces

/-- The head is there, and the first piece starts where it ends. -/
def ContainerOk (head : ℕ) (pieces : Pieces) (b : Bytes) : Prop :=
  head ≤ b.length ∧ pieceStart b pieces = head ∧ PiecesOk b pieces

/-- The pieces of the fields whose part of the head starts at `k`. -/
def piecesOf : List SszType → ℕ → Pieces
  | [], _ => []
  | t :: ts, k =>
      if t.isFixed then piecesOf ts (k + t.size) else (k, Canonical t) :: piecesOf ts (k + 4)

theorem bodyStart_eq (b : Bytes) (ts : List SszType) (k : ℕ) :
    bodyStart ts b k = pieceStart b (piecesOf ts k) := by
  induction ts generalizing k with
  | nil => rfl
  | cons t ts ih =>
    unfold bodyStart piecesOf
    split
    · exact ih _
    · rfl

theorem canonical_fields (b : Bytes) (ts : List SszType) (k : ℕ) :
    LaidFields ts b k ∧ FitsAll ts (readFields ts b k) ↔ PiecesOk b (piecesOf ts k) := by
  induction ts generalizing k with
  | nil =>
    rw [LaidFields, FitsAll, and_true]
    rfl
  | cons t ts ih =>
    unfold LaidFields readFields piecesOf
    split
    · rename_i ht
      rw [FitsAll, ← ih]
      constructor
      · rintro ⟨hlaid, -, hfits⟩
        exact ⟨hlaid, hfits⟩
      · rintro ⟨hlaid, hfits⟩
        exact ⟨hlaid, fits_of_isFixed ht _, hfits⟩
    · rw [FitsAll, PiecesOk, ← ih, ← bodyStart_eq, Canonical]
      tauto

/-- **A container is canonical exactly when its offsets are in order and its pieces are
canonical.** -/
theorem canonical_container {ts : List SszType} {b : Bytes} :
    Canonical (.container ts) b ↔ ContainerOk (headSize ts) (piecesOf ts 0) b := by
  rw [Canonical, laid_container, read_container, Fits, ContainerOk, ← canonical_fields,
    bodyStart_eq]
  tauto

/-- The same is asked of both lists of pieces. -/
abbrev SamePieces : Pieces → Pieces → Prop :=
  List.Forall₂ fun p q => p.1 = q.1 ∧ ∀ b, p.2 b ↔ q.2 b

theorem pieceStart_congr {ps qs : Pieces} (h : SamePieces ps qs) (b : Bytes) :
    pieceStart b ps = pieceStart b qs := by
  cases h with
  | nil => rfl
  | cons hhead _ => exact congrArg (u32At b) hhead.1

theorem piecesOk_congr {ps qs : Pieces} (h : SamePieces ps qs) (b : Bytes) :
    PiecesOk b ps ↔ PiecesOk b qs := by
  induction h with
  | nil => rfl
  | @cons p q ps qs hhead htail ih =>
    obtain ⟨k, ok⟩ := p
    obtain ⟨k', ok'⟩ := q
    obtain ⟨hk, hok⟩ := hhead
    have hk' : k = k' := hk
    have hok' : ∀ b, ok b ↔ ok' b := hok
    rw [PiecesOk, PiecesOk, hk', pieceStart_congr htail, ih, hok']

theorem containerOk_congr {ps qs : Pieces} (h : SamePieces ps qs) (head : ℕ) (b : Bytes) :
    ContainerOk head ps b ↔ ContainerOk head qs b := by
  rw [ContainerOk, ContainerOk, pieceStart_congr h, piecesOk_congr h]

/-! ### The sections of the input -/

/-- The three or five lists of execution requests. -/
def RequestListsInLimits : Bool → Bytes → Prop
  | false => ContainerOk execReqFixed
      [(0, FixedItems sszDepositRequestFixedSize maxDepositRequestsPerPayload),
        (4, FixedItems sszWithdrawalRequestFixedSize maxWithdrawalRequestsPerPayload),
        (8, FixedItems sszConsolidationRequestFixedSize maxConsolidationRequestsPerPayload)]
  | true => ContainerOk execReqV2Fixed
      [(0, FixedItems sszDepositRequestFixedSize maxDepositRequestsPerPayload),
        (4, FixedItems sszWithdrawalRequestFixedSize maxWithdrawalRequestsPerPayload),
        (8, FixedItems sszConsolidationRequestFixedSize maxConsolidationRequestsPerPayload),
        (12, FixedItems sszBuilderDepositRequestFixedSize maxBuilderDepositRequestsPerPayload),
        (16, FixedItems sszBuilderExitRequestFixedSize maxBuilderExitRequestsPerPayload)]

/-- The payload: extra data, transactions, withdrawals, and the block access list of Gloas. -/
def PayloadInLimits (balLimit : ℕ) : PayloadShape → Bytes → Prop
  | .gloas => ContainerOk payloadV4Fixed
      [(436, fun b => b.length ≤ maxExtraDataBytes),
        (504, ByteLists maxTransactionsPerPayload maxBytesPerTransaction),
        (508, FixedItems sszWithdrawalFixedSize maxWithdrawalsPerPayload),
        (528, fun b => b.length ≤ balLimit)]
  | _ => ContainerOk payloadV3Fixed
      [(436, fun b => b.length ≤ maxExtraDataBytes),
        (504, ByteLists maxTransactionsPerPayload maxBytesPerTransaction),
        (508, FixedItems sszWithdrawalFixedSize maxWithdrawalsPerPayload)]

/-- The request: payload, versioned hashes, and execution requests. -/
def RequestInLimits (shape : PayloadShape) (builderRequests : Bool) (balLimit : ℕ) :
    Bytes → Prop :=
  ContainerOk nprFixed
    [(0, PayloadInLimits balLimit shape), (4, FixedItems 32 maxBlobCommitmentsPerBlock),
      (40, RequestListsInLimits builderRequests)]

/-- The witness: state nodes, codes and headers. -/
def WitnessInLimits : Bytes → Prop :=
  ContainerOk witnessFixed
    [(0, ByteLists maxWitnessNodes maxBytesPerWitnessNode),
      (4, ByteLists maxWitnessCodes maxBytesPerCode),
      (8, ByteLists maxWitnessHeaders maxBytesPerHeader)]

/-- The keys: under the Amsterdam schema vectors of 65 bytes, under the legacy one none. -/
def KeysInLimits : InputSchema → Bytes → Prop
  | .legacy0001, b => b.length = 0
  | .amsterdam01, b => FixedItems maxBytesPerPublicKey maxPublicKeys b

theorem canonical_requestLists (builderRequests : Bool) (b : Bytes) :
    Canonical (executionRequestsType builderRequests) b ↔
      RequestListsInLimits builderRequests b := by
  rw [canonical_container]
  cases builderRequests with
  | false =>
    simp only [piecesOf, headSize, isFixed, Bool.false_eq_true, ↓reduceIte, Nat.reduceAdd]
    refine containerOk_congr ?_ _ _
    exact .cons ⟨rfl, fun _ => canonical_fixedItems rfl⟩
      (.cons ⟨rfl, fun _ => canonical_fixedItems rfl⟩
        (.cons ⟨rfl, fun _ => canonical_fixedItems rfl⟩ .nil))
  | true =>
    simp only [piecesOf, headSize, isFixed, Bool.false_eq_true, ↓reduceIte, Nat.reduceAdd]
    refine containerOk_congr ?_ _ _
    exact .cons ⟨rfl, fun _ => canonical_fixedItems rfl⟩
      (.cons ⟨rfl, fun _ => canonical_fixedItems rfl⟩
        (.cons ⟨rfl, fun _ => canonical_fixedItems rfl⟩
          (.cons ⟨rfl, fun _ => canonical_fixedItems rfl⟩
            (.cons ⟨rfl, fun _ => canonical_fixedItems rfl⟩ .nil))))

theorem canonical_payload (shape : PayloadShape) (balLimit : ℕ) (b : Bytes) :
    Canonical (executionPayloadType shape balLimit) b ↔ PayloadInLimits balLimit shape b := by
  have hthree : ∀ ps qs : Pieces, SamePieces ps qs → SamePieces
      ((436, Canonical (.byteList maxExtraDataBytes)) :: (504, Canonical transactionsType) ::
        (508, Canonical (.list withdrawalType maxWithdrawalsPerPayload)) :: ps)
      ((436, fun b => b.length ≤ maxExtraDataBytes) ::
        (504, ByteLists maxTransactionsPerPayload maxBytesPerTransaction) ::
        (508, FixedItems sszWithdrawalFixedSize maxWithdrawalsPerPayload) :: qs) := fun _ _ h =>
    .cons ⟨rfl, fun _ => canonical_byteList⟩ (.cons ⟨rfl, fun _ => canonical_byteLists⟩
      (.cons ⟨rfl, fun _ => canonical_fixedItems rfl⟩ h))
  rw [canonical_container]
  cases shape <;>
    simp only [piecesOf, headSize, isFixed, size, Bool.false_eq_true, ↓reduceIte, Nat.reduceAdd]
  case gloas =>
    refine containerOk_congr (hthree _ _ ?_) _ _
    exact .cons ⟨rfl, fun _ => canonical_byteList⟩ .nil
  all_goals exact containerOk_congr (hthree _ _ .nil) _ _

/-- **The request is canonical exactly when it is in order and within its limits.** -/
theorem canonical_request (shape : PayloadShape) (builderRequests : Bool) (balLimit : ℕ)
    (b : Bytes) : Canonical (newPayloadRequestType shape builderRequests balLimit) b ↔
      RequestInLimits shape builderRequests balLimit b := by
  rw [canonical_container]
  simp only [piecesOf, headSize, isFixed, size, Bool.false_eq_true, ↓reduceIte, Nat.reduceAdd]
  refine containerOk_congr ?_ _ _
  exact .cons ⟨rfl, canonical_payload shape balLimit⟩
    (.cons ⟨rfl, fun _ => canonical_fixedItems rfl⟩
      (.cons ⟨rfl, canonical_requestLists builderRequests⟩ .nil))

theorem canonical_witness (b : Bytes) : Canonical witnessType b ↔ WitnessInLimits b := by
  rw [canonical_container]
  simp only [piecesOf, headSize, isFixed, Bool.false_eq_true, ↓reduceIte, Nat.reduceAdd]
  refine containerOk_congr ?_ _ _
  exact .cons ⟨rfl, fun _ => canonical_byteLists⟩ (.cons ⟨rfl, fun _ => canonical_byteLists⟩
    (.cons ⟨rfl, fun _ => canonical_byteLists⟩ .nil))

theorem canonical_keys (b : Bytes) : Canonical (publicKeysType .flat) b ↔
    FixedItems maxBytesPerPublicKey maxPublicKeys b := canonical_fixedItems rfl

end StatelessGuest
