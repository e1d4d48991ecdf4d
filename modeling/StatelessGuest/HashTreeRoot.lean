import StatelessGuest.Containers
import StatelessGuest.Merkleize
import StatelessGuest.Ssz.Root

/-!
# The root of a new payload request

The guest commits to a request by its hash tree root, computed container by
container.  Each of these functions is shown to compute the hash tree of the type
it is written for.

## Main definitions

* `htrWithdrawal` … `htrNewPayloadRequest` — the roots of the containers.
* `Readable` — what the merkleizer reads of a request lies in memory, and its lists are
  short enough.

## Main results

* `computes_htrNewPayloadRequest` — **the request computes its hash tree**, whether
  or not its lists are within their limits.
* `htrNewPayloadRequest_returns` — it returns exactly when it can be read.
* `htrNewPayloadRequest_root` — within the limits, the result is the root of the
  specification.
-/

namespace StatelessGuest

open Ssz SszType

/-! ### The containers -/

section

variable (H : Bytes → Bytes32) (w : WordSize)

def htrWithdrawal (x : SszWithdrawal) : Merkle Bytes32 :=
  htrContainer H w [htrUint64 x.index, htrUint64 x.validatorIndex, htrByteVector H w x.address,
    htrUint64 x.amount]

def htrDepositRequest (x : SszDepositRequest) : Merkle Bytes32 :=
  htrContainer H w [htrByteVector H w x.pubkey, htrUint256 x.withdrawalCredentials,
    htrUint64 x.amount, htrByteVector H w x.signature, htrUint64 x.index]

def htrWithdrawalRequest (x : SszWithdrawalRequest) : Merkle Bytes32 :=
  htrContainer H w [htrByteVector H w x.sourceAddress, htrByteVector H w x.validatorPubkey,
    htrUint64 x.amount]

def htrConsolidationRequest (x : SszConsolidationRequest) : Merkle Bytes32 :=
  htrContainer H w [htrByteVector H w x.sourceAddress, htrByteVector H w x.sourcePubkey,
    htrByteVector H w x.targetPubkey]

def htrBuilderDepositRequest (x : SszBuilderDepositRequest) : Merkle Bytes32 :=
  htrContainer H w [htrByteVector H w x.pubkey, htrUint256 x.withdrawalCredentials,
    htrUint64 x.amount, htrByteVector H w x.signature]

def htrBuilderExitRequest (x : SszBuilderExitRequest) : Merkle Bytes32 :=
  htrContainer H w [htrByteVector H w x.sourceAddress, htrByteVector H w x.pubkey]

/-- The roots of the two lists only the Amsterdam requests have. -/
def htrBuilderLists (er : SszExecutionRequests) : List (Merkle Bytes32) :=
  if er.hasBuilderRequests then
    [htrContainerList H w (er.builderDeposits.map (htrBuilderDepositRequest H w))
      maxBuilderDepositRequestsPerPayload,
     htrContainerList H w (er.builderExits.map (htrBuilderExitRequest H w))
      maxBuilderExitRequestsPerPayload]
  else []

def htrExecutionRequests (er : SszExecutionRequests) : Merkle Bytes32 :=
  htrContainer H w
    (htrContainerList H w (er.deposits.map (htrDepositRequest H w))
      maxDepositRequestsPerPayload ::
    htrContainerList H w (er.withdrawals.map (htrWithdrawalRequest H w))
      maxWithdrawalRequestsPerPayload ::
    htrContainerList H w (er.consolidations.map (htrConsolidationRequest H w))
      maxConsolidationRequestsPerPayload ::
    htrBuilderLists H w er)

/-- The roots of the two fields only the Gloas payload has. -/
def htrPayloadTail (p : SszExecutionPayload) : List (Merkle Bytes32) :=
  if p.shape = .gloas then
    [htrByteList H w p.blockAccessList p.balHtrLimit, htrUint64 p.slotNumber]
  else []

def htrExecutionPayload (p : SszExecutionPayload) : Merkle Bytes32 :=
  htrContainer H w
    (htrUint256 p.parentHash :: htrByteVector H w p.feeRecipient :: htrUint256 p.stateRoot ::
    htrUint256 p.receiptsRoot :: htrByteVector H w p.logsBloom :: htrUint256 p.prevRandao ::
    htrUint64 p.blockNumber :: htrUint64 p.gasLimit :: htrUint64 p.gasUsed ::
    htrUint64 p.timestamp :: htrByteList H w p.extraData maxExtraDataBytes ::
    htrUint256 p.baseFeePerGas :: htrUint256 p.blockHash ::
    htrContainerList H w (p.transactions.map fun tx => htrByteList H w tx maxBytesPerTransaction)
      maxTransactionsPerPayload ::
    htrContainerList H w (p.withdrawals.map (htrWithdrawal H w)) maxWithdrawalsPerPayload ::
    htrUint64 p.blobGasUsed :: htrUint64 p.excessBlobGas :: htrPayloadTail H w p)

def htrNewPayloadRequest (r : SszNewPayloadRequest) : Merkle Bytes32 :=
  htrContainer H w
    [htrExecutionPayload H w r.executionPayload,
     htrContainerList H w (r.versionedHashes.map htrUint256) maxBlobCommitmentsPerBlock,
     htrUint256 r.parentBeaconBlockRoot,
     htrExecutionRequests H w r.executionRequests]

end

/-! ### Fields -/

section

variable {H : Bytes → Bytes32} {P : Prop} {w : WordSize}

/-- The computations return the roots of the fields. -/
abbrev FieldsCompute (H : Bytes → Bytes32) (P : Prop) (ms : List (Merkle Bytes32)) (ts : List SszType)
    (vs : Vals ts) : Prop := List.Forall₂ (Computes H P) ms (hashTrees ts vs)

theorem fieldsCompute_cons {m : Merkle Bytes32} {ms : List (Merkle Bytes32)} {t : SszType}
    {ts : List SszType} {v : t.Val} {vs : Vals ts} (h : Computes H P m (hashTree t v))
    (hs : FieldsCompute H P ms ts vs) : FieldsCompute H P (m :: ms) (t :: ts) (v, vs) := by
  unfold FieldsCompute hashTrees
  exact .cons h hs

theorem computes_container {ms : List (Merkle Bytes32)} {ts : List SszType} {vs : Vals ts}
    (h : FieldsCompute H P ms ts vs) (hne : ts ≠ []) (hlen : ts.length ≤ 32) :
    Computes H P (htrContainer H w ms) (hashTree (.container ts) vs) := by
  have hn := length_hashTrees ts vs
  have hmod := w.le_modulus
  have hc := computes_htrContainer (w := w) h (fun h0 => hne (List.eq_nil_of_length_eq_zero
    (by rw [← hn, h0]; rfl))) (by omega)
  rw [hn] at hc
  unfold hashTree
  exact hc

/-- A list of items that are no integers. -/
theorem computes_list (limit : ℕ) {α : Type} {t : SszType} (f : α → Merkle Bytes32)
    (g : α → t.Val) (xs : List α) (hitem : ∀ x ∈ xs, Computes H P (f x) (hashTree t (g x)))
    (ht : ∀ vs ts, listTree t limit vs ts = itemsTree (depth limit) ts)
    (hlen : P → xs.length * 32 < w.modulus) (hpos : 0 < limit) (hlimit : limit ≤ 2 ^ 20) :
    Computes H P (htrContainerList H w (xs.map f) limit) (hashTree (.list t limit) (xs.map g)) := by
  have hmod := w.le_modulus
  have hcap : 2 ^ Nat.clog 2 limit ≤ 2 ^ 20 :=
    Nat.pow_le_pow_right (by norm_num) (Nat.clog_le_of_le_pow hlimit)
  have hforall : List.Forall₂ (Computes H P) (xs.map f) ((xs.map g).map fun v => hashTree t v) := by
    rw [List.map_map, List.forall₂_map_left_iff, List.forall₂_map_right_iff]
    exact List.forall₂_same.mpr hitem
  have hlist := computes_htrContainerList limit (w := w) hforall
    (by rw [List.length_map, List.length_map]; exact hlen) (by omega) (by omega)
  rw [List.length_map] at hlist
  rw [hashTree, ht]
  exact hlist

theorem computes_u64 (v : BitVec 64) : Computes H P (htrUint64 v) (hashTree u64 v) := by
  unfold hashTree
  exact computes_htrUint64 v

theorem computes_bytes {n : ℕ} (v : ByteVec n) (hn : n ≤ 256) :
    Computes H P (htrByteVector H w v) (hashTree (.bytes n) v) := by
  unfold hashTree
  exact computes_htrByteVector v hn

theorem computes_bytes32 (v : Bytes32) : Computes H P (htrUint256 v) (hashTree (.bytes 32) v) := by
  have hdepth : depth (chunkCount 32) = 0 := Nat.clog_of_right_le_one (by norm_num [chunkCount]) 2
  rw [hashTree, hdepth]
  exact computes_htrUint256 v

/-- An integer of 32 bytes is stored as it is. -/
theorem computes_uint256 (v : Bytes32) :
    Computes H P (htrUint256 v) (hashTree (.uint 32) (BitVec.ofNat 256 (leNat v.toList))) := by
  have hlt := leNat_lt v.toList
  have hpad : padTo 32 (leBytes 32 (BitVec.ofNat (8 * 32) (leNat v.toList)).toNat) = v := by
    apply toList_injective
    have hback := leBytes_leNat v.toList
    rw [length_toList] at hlt hback
    rw [BitVec.toNat_ofNat, Nat.mod_eq_of_lt (lt_of_lt_of_le hlt (by norm_num)), hback, toList_padTo,
      takeD_self (length_toList v)]
  unfold hashTree
  show Computes H P (htrUint256 v) (.leaf (padTo 32 (leBytes 32 (BitVec.ofNat (8 * 32) _).toNat)))
  rw [hpad]
  exact Yields.pure _

theorem computes_byteList {s : ByteSpan} {limit : ℕ} (hs : P → s.Holds (byteListBytes limit))
    (hlen : s.len < 2 ^ 64) (hpos : 0 < limit) (hlimit : limit ≤ 2 ^ 30) :
    Computes H P (htrByteList H w s limit) (hashTree (.byteList limit) s.bytes) := by
  unfold hashTree
  exact computes_htrByteList hs hlen hpos hlimit

/-! ### The containers of the request -/

theorem computes_withdrawal (x : SszWithdrawal) :
    Computes H P (htrWithdrawal H w x) (hashTree withdrawalType x.toVal) :=
  computes_container (fieldsCompute_cons (computes_u64 _) <| fieldsCompute_cons (computes_u64 _) <|
    fieldsCompute_cons (computes_bytes _ (by norm_num)) <| fieldsCompute_cons (computes_u64 _) .nil)
    (by simp) (by simp)

theorem computes_depositRequest (x : SszDepositRequest) :
    Computes H P (htrDepositRequest H w x) (hashTree depositRequestType x.toVal) :=
  computes_container (fieldsCompute_cons (computes_bytes _ (by norm_num)) <|
    fieldsCompute_cons (computes_bytes32 _) <| fieldsCompute_cons (computes_u64 _) <|
    fieldsCompute_cons (computes_bytes _ (by norm_num)) <| fieldsCompute_cons (computes_u64 _) .nil)
    (by simp) (by simp)

theorem computes_withdrawalRequest (x : SszWithdrawalRequest) :
    Computes H P (htrWithdrawalRequest H w x) (hashTree withdrawalRequestType x.toVal) :=
  computes_container (fieldsCompute_cons (computes_bytes _ (by norm_num)) <|
    fieldsCompute_cons (computes_bytes _ (by norm_num)) <| fieldsCompute_cons (computes_u64 _) .nil)
    (by simp) (by simp)

theorem computes_consolidationRequest (x : SszConsolidationRequest) :
    Computes H P (htrConsolidationRequest H w x) (hashTree consolidationRequestType x.toVal) :=
  computes_container (fieldsCompute_cons (computes_bytes _ (by norm_num)) <|
    fieldsCompute_cons (computes_bytes _ (by norm_num)) <|
    fieldsCompute_cons (computes_bytes _ (by norm_num)) .nil)
    (by simp) (by simp)

theorem computes_builderDepositRequest (x : SszBuilderDepositRequest) :
    Computes H P (htrBuilderDepositRequest H w x) (hashTree builderDepositRequestType x.toVal) :=
  computes_container (fieldsCompute_cons (computes_bytes _ (by norm_num)) <|
    fieldsCompute_cons (computes_bytes32 _) <| fieldsCompute_cons (computes_u64 _) <|
    fieldsCompute_cons (computes_bytes _ (by norm_num)) .nil)
    (by simp) (by simp)

theorem computes_builderExitRequest (x : SszBuilderExitRequest) :
    Computes H P (htrBuilderExitRequest H w x) (hashTree builderExitRequestType x.toVal) :=
  computes_container (fieldsCompute_cons (computes_bytes _ (by norm_num)) <|
    fieldsCompute_cons (computes_bytes _ (by norm_num)) .nil)
    (by simp) (by simp)

/-- The lists of execution requests are short enough to be merkleized. -/
structure SszExecutionRequests.Readable (w : WordSize) (er : SszExecutionRequests) : Prop where
  deposits : er.deposits.length * 32 < w.modulus
  withdrawals : er.withdrawals.length * 32 < w.modulus
  consolidations : er.consolidations.length * 32 < w.modulus
  builderDeposits : er.hasBuilderRequests → er.builderDeposits.length * 32 < w.modulus
  builderExits : er.hasBuilderRequests → er.builderExits.length * 32 < w.modulus

theorem computes_executionRequests {er : SszExecutionRequests} (hr : P → er.Readable w) :
    Computes H P (htrExecutionRequests H w er)
      (hashTree (executionRequestsType er.hasBuilderRequests) (er.toVal er.hasBuilderRequests)) := by
  have htail : FieldsCompute H P (htrBuilderLists H w er) (builderRequestsTail er.hasBuilderRequests)
      (er.tailVal er.hasBuilderRequests) := by
    have hdep := fun hP => (hr hP).builderDeposits
    have hex := fun hP => (hr hP).builderExits
    unfold htrBuilderLists
    cases hb : er.hasBuilderRequests with
    | false => exact .nil
    | true =>
      exact fieldsCompute_cons (computes_list _ _ _ _ (fun x _ => computes_builderDepositRequest x)
        (fun _ _ => rfl) (fun hP => hdep hP hb) (by norm_num) (by norm_num)) <|
        fieldsCompute_cons (computes_list _ _ _ _ (fun x _ => computes_builderExitRequest x)
        (fun _ _ => rfl) (fun hP => hex hP hb) (by norm_num) (by norm_num)) .nil
  refine computes_container (fieldsCompute_cons (computes_list _ _ _ _
      (fun x _ => computes_depositRequest x) (fun _ _ => rfl) (fun hP => (hr hP).deposits)
      (by norm_num) (by norm_num)) <|
    fieldsCompute_cons (computes_list _ _ _ _ (fun x _ => computes_withdrawalRequest x)
      (fun _ _ => rfl) (fun hP => (hr hP).withdrawals) (by norm_num) (by norm_num)) <|
    fieldsCompute_cons (computes_list _ _ _ _ (fun x _ => computes_consolidationRequest x)
      (fun _ _ => rfl) (fun hP => (hr hP).consolidations) (by norm_num) (by norm_num)) htail)
    (by simp) ?_
  cases er.hasBuilderRequests <;> simp

/-- The spans of a payload satisfy `Q`. -/
structure SszExecutionPayload.Spans (Q : ByteSpan → Prop) (p : SszExecutionPayload) : Prop where
  extraData : Q p.extraData
  transactions : ∀ tx ∈ p.transactions, Q tx
  blockAccessList : Q p.blockAccessList

/-- The spans of a payload have lengths of 64 bits, and its block access list one of the
limits in use. -/
structure SszExecutionPayload.Sized (p : SszExecutionPayload) : Prop where
  spans : p.Spans fun s => s.len < 2 ^ 64
  balHtrLimit : p.balHtrLimit = maxBlockAccessListBytes ∨ p.balHtrLimit = balHtrLimitAmsterdam01

/-- The byte lists of a payload lie in memory as far as their trees have room, and its lists
are short enough to be merkleized.  Only a Gloas payload has a block access list. -/
structure SszExecutionPayload.Readable (w : WordSize) (p : SszExecutionPayload) : Prop where
  extraData : p.extraData.Holds (byteListBytes maxExtraDataBytes)
  transactionBytes : ∀ tx ∈ p.transactions, tx.Holds (byteListBytes maxBytesPerTransaction)
  blockAccessList : p.shape = .gloas → p.blockAccessList.Holds (byteListBytes p.balHtrLimit)
  transactions : p.transactions.length * 32 < w.modulus
  withdrawals : p.withdrawals.length * 32 < w.modulus

/-- A payload whose spans lie in memory. -/
theorem SszExecutionPayload.Spans.readable {p : SszExecutionPayload}
    (h : p.Spans ByteSpan.InBounds) (htxs : p.transactions.length * 32 < w.modulus)
    (hwdl : p.withdrawals.length * 32 < w.modulus) : p.Readable w where
  extraData := h.extraData.holds _
  transactionBytes tx htx := (h.transactions tx htx).holds _
  blockAccessList _ := h.blockAccessList.holds _
  transactions := htxs
  withdrawals := hwdl

theorem computes_executionPayload {p : SszExecutionPayload} (hsize : p.Sized)
    (hr : P → p.Readable w) :
    Computes H P (htrExecutionPayload H w p)
      (hashTree (executionPayloadType p.shape p.balHtrLimit) (p.toVal p.shape p.balHtrLimit)) := by
  have hlimit : 0 < p.balHtrLimit ∧ p.balHtrLimit ≤ 2 ^ 30 := by
    rcases hsize.balHtrLimit with h | h <;> rw [h] <;> norm_num
  -- Only a Gloas payload has fields after the blob gas.
  have htail : FieldsCompute H P (htrPayloadTail H w p) (payloadTail p.balHtrLimit p.shape)
      (p.tailVal p.balHtrLimit p.shape) := by
    have hbal := fun hP => (hr hP).blockAccessList
    unfold htrPayloadTail
    cases hshape : p.shape with
    | electraFulu => exact .nil
    | unsupported => exact .nil
    | gloas =>
      exact fieldsCompute_cons (computes_byteList (fun hP => hbal hP hshape)
        hsize.spans.blockAccessList hlimit.1 hlimit.2) <|
        fieldsCompute_cons (computes_u64 _) .nil
  -- The fields in the order in which the source merkleizes them.
  refine computes_container (fieldsCompute_cons (computes_bytes32 _) <|
    fieldsCompute_cons (computes_bytes _ (by norm_num)) <|
    fieldsCompute_cons (computes_bytes32 _) <| fieldsCompute_cons (computes_bytes32 _) <|
    fieldsCompute_cons (computes_bytes _ (by norm_num)) <|
    fieldsCompute_cons (computes_bytes32 _) <| fieldsCompute_cons (computes_u64 _) <|
    fieldsCompute_cons (computes_u64 _) <| fieldsCompute_cons (computes_u64 _) <|
    fieldsCompute_cons (computes_u64 _) <|
    fieldsCompute_cons (computes_byteList (fun hP => (hr hP).extraData)
      hsize.spans.extraData (by norm_num) (by norm_num)) <|
    fieldsCompute_cons (computes_uint256 _) <| fieldsCompute_cons (computes_bytes32 _) <|
    fieldsCompute_cons (computes_list _ _ _ _
      (fun tx htx => computes_byteList (fun hP => (hr hP).transactionBytes tx htx)
        (hsize.spans.transactions tx htx) (by norm_num) (by norm_num))
      (fun _ _ => rfl) (fun hP => (hr hP).transactions) (by norm_num) (by norm_num)) <|
    fieldsCompute_cons (computes_list _ _ _ _ (fun x _ => computes_withdrawal x)
      (fun _ _ => rfl) (fun hP => (hr hP).withdrawals) (by norm_num) (by norm_num)) <|
    fieldsCompute_cons (computes_u64 _) <| fieldsCompute_cons (computes_u64 _) htail) (by simp) ?_
  cases p.shape <;> simp

/-- The request can be merkleized. -/
structure SszNewPayloadRequest.Readable (w : WordSize) (r : SszNewPayloadRequest) : Prop where
  executionPayload : r.executionPayload.Readable w
  versionedHashes : r.versionedHashes.length * 32 < w.modulus
  executionRequests : r.executionRequests.Readable w

/-- The type of a request, as its own fields say. -/
abbrev SszNewPayloadRequest.type (r : SszNewPayloadRequest) : SszType :=
  newPayloadRequestType r.executionPayload.shape r.executionRequests.hasBuilderRequests
    r.executionPayload.balHtrLimit

/-- The value of a request, of its own type. -/
abbrev SszNewPayloadRequest.val (r : SszNewPayloadRequest) : r.type.Val :=
  r.toVal r.executionPayload.shape r.executionRequests.hasBuilderRequests
    r.executionPayload.balHtrLimit

/-- **The request computes its hash tree**, whether or not its lists are within their
limits; it may fault where the request cannot be read. -/
theorem computes_htrNewPayloadRequest {r : SszNewPayloadRequest}
    (hsize : r.executionPayload.Sized) (hr : P → r.Readable w) :
    Computes H P (htrNewPayloadRequest H w r) (hashTree r.type r.val) := by
  have hhashes := computes_list (H := H) (P := P) (w := w) (t := .bytes 32)
    maxBlobCommitmentsPerBlock htrUint256 (fun v => v)
    r.versionedHashes (fun v _ => computes_bytes32 v) (fun _ _ => rfl)
    (fun hP => (hr hP).versionedHashes)
    (by norm_num) (by norm_num)
  rw [List.map_id'] at hhashes
  have hpayload := computes_executionPayload (H := H) hsize fun hP => (hr hP).executionPayload
  have hrequests := computes_executionRequests (H := H) fun hP => (hr hP).executionRequests
  exact computes_container (fieldsCompute_cons hpayload <| fieldsCompute_cons hhashes <|
    fieldsCompute_cons (computes_bytes32 _) <| fieldsCompute_cons hrequests .nil) (by simp) (by simp)

/-! ### Where the root is computed -/

theorem readable_executionRequests {er : SszExecutionRequests}
    (h : Returns (htrExecutionRequests H w er)) : er.Readable w := by
  have hfields := returns_of_htrContainer h
  have hcount : ∀ {α : Type} {f : α → Merkle Bytes32} {xs : List α} {limit : ℕ},
      htrContainerList H w (xs.map f) limit ∈
          htrContainerList H w (er.deposits.map (htrDepositRequest H w)) maxDepositRequestsPerPayload ::
          htrContainerList H w (er.withdrawals.map (htrWithdrawalRequest H w))
            maxWithdrawalRequestsPerPayload ::
          htrContainerList H w (er.consolidations.map (htrConsolidationRequest H w))
            maxConsolidationRequestsPerPayload ::
          htrBuilderLists H w er → xs.length * 32 < w.modulus := by
    intro α f xs limit hmem
    have hlen := (returns_of_htrContainerList (hfields _ hmem)).2
    rwa [List.length_map] at hlen
  refine ⟨hcount List.mem_cons_self, hcount (List.mem_cons_of_mem _ List.mem_cons_self),
    hcount (List.mem_cons_of_mem _ (List.mem_cons_of_mem _ List.mem_cons_self)), ?_,
    ?_⟩
  · intro hb
    refine @hcount _ (htrBuilderDepositRequest H w) _ maxBuilderDepositRequestsPerPayload ?_
    simp [htrBuilderLists, hb]
  · intro hb
    refine @hcount _ (htrBuilderExitRequest H w) _ maxBuilderExitRequestsPerPayload ?_
    simp [htrBuilderLists, hb]

theorem readable_executionPayload {p : SszExecutionPayload}
    (hlimit : p.balHtrLimit = maxBlockAccessListBytes ∨ p.balHtrLimit = balHtrLimitAmsterdam01)
    (h : Returns (htrExecutionPayload H w p)) : p.Readable w := by
  have hfields := returns_of_htrContainer h
  simp only [List.forall_mem_cons] at hfields
  obtain ⟨-, -, -, -, -, -, -, -, -, -, hextra, -, -, htxs, hwdl, -, -, htail⟩ := hfields
  obtain ⟨htx, htxCount⟩ := returns_of_htrContainerList htxs
  have hwdlCount := (returns_of_htrContainerList hwdl).2
  rw [List.length_map] at htxCount hwdlCount
  refine ⟨holds_of_htrByteList (by norm_num) (by norm_num) hextra, fun tx hmem =>
    holds_of_htrByteList (by norm_num) (by norm_num) (htx _ (List.mem_map_of_mem hmem)),
    ?_, htxCount, hwdlCount⟩
  intro hshape
  have hbal : Returns (htrByteList H w p.blockAccessList p.balHtrLimit) := by
    refine htail _ ?_
    rw [htrPayloadTail, if_pos hshape]
    exact List.mem_cons_self
  rcases hlimit with hlimit | hlimit
  · exact holds_of_htrByteList (by rw [hlimit]; norm_num) (by rw [hlimit]; norm_num) hbal
  · exact holds_of_htrByteList (by rw [hlimit]; norm_num) (by rw [hlimit]) hbal

/-- **The root is computed exactly when the request can be read.** -/
theorem htrNewPayloadRequest_returns {r : SszNewPayloadRequest} (hsize : r.executionPayload.Sized) :
    (∃ p, htrNewPayloadRequest H w r {} = .ok p) ↔ r.Readable w := by
  constructor
  · rintro ⟨p, h⟩
    have hfields := returns_of_htrContainer (⟨_, p, h⟩ : Returns (htrNewPayloadRequest H w r))
    simp only [List.forall_mem_cons] at hfields
    obtain ⟨hpayload, hhashes, -, hrequests, -⟩ := hfields
    have hcount := (returns_of_htrContainerList hhashes).2
    rw [List.length_map] at hcount
    exact ⟨readable_executionPayload hsize.balHtrLimit hpayload, hcount,
      readable_executionRequests hrequests⟩
  · intro hr
    obtain ⟨st, h, -⟩ := (computes_htrNewPayloadRequest hsize fun _ : True => hr).run trivial
      (good_default H)
    exact ⟨_, h⟩

/-! ### The root of the specification -/

theorem fits_builderTail {er : SszExecutionRequests}
    (h : FitsAll (builderRequestsTail er.hasBuilderRequests) (er.tailVal er.hasBuilderRequests))
    (hb : er.hasBuilderRequests = true) :
    er.builderDeposits.length ≤ maxBuilderDepositRequestsPerPayload ∧
      er.builderExits.length ≤ maxBuilderExitRequestsPerPayload := by
  rw [hb] at h
  simp only [SszExecutionRequests.tailVal, FitsAll, Fits, List.length_map] at h
  exact ⟨h.1.1, h.2.1.1⟩

/-- Requests within the limits can be merkleized on either word size. -/
theorem readable_of_fits {r : SszNewPayloadRequest} (hfits : Fits r.type r.val)
    (hmem : r.executionPayload.Spans ByteSpan.InBounds)
    (hbal : r.executionPayload.blockAccessList.len < 2 ^ 64)
    (hlimit : r.executionPayload.balHtrLimit = maxBlockAccessListBytes ∨
      r.executionPayload.balHtrLimit = balHtrLimitAmsterdam01) :
    r.executionPayload.Sized ∧ r.Readable w := by
  have hmod := w.le_modulus
  simp only [SszNewPayloadRequest.toVal, SszExecutionPayload.toVal,
    SszExecutionRequests.toVal, Fits, FitsAll, List.length_map, ByteSpan.length_bytes,
    maxExtraDataBytes, maxTransactionsPerPayload, maxWithdrawalsPerPayload, maxBytesPerTransaction,
    maxBlobCommitmentsPerBlock, maxDepositRequestsPerPayload, maxWithdrawalRequestsPerPayload,
    maxConsolidationRequestsPerPayload] at hfits
  obtain ⟨⟨-, -, -, -, -, -, -, -, -, -, hextra, -, -, ⟨htxs, htx⟩, ⟨hwdl, -⟩, -, -, -⟩,
    ⟨hhashes, -⟩, -, ⟨⟨hdep, -⟩, ⟨hwdr, -⟩, ⟨hcon, -⟩, hrtail⟩, -⟩ := hfits
  simp only [List.mem_map, forall_exists_index, and_imp, forall_apply_eq_imp_iff₂,
    ByteSpan.length_bytes] at htx
  refine ⟨⟨⟨by omega, ?_, hbal⟩, hlimit⟩, hmem.readable (by omega) (by omega), by omega,
    ⟨by omega, by omega, by omega, ?_, ?_⟩⟩
  · intro tx h
    have := htx tx h
    omega
  · intro h
    have := (fits_builderTail hrtail h).1
    simp only [maxBuilderDepositRequestsPerPayload] at this
    omega
  · intro h
    have := (fits_builderTail hrtail h).2
    simp only [maxBuilderExitRequestsPerPayload] at this
    omega

end

/-- **The guest computes the hash tree root of the specification**, for requests of both
shapes and with three or five lists of execution requests, within their limits. -/
theorem htrNewPayloadRequest_root (H : Bytes → Bytes32) (w : WordSize) (r : SszNewPayloadRequest)
    (hfits : Fits r.type r.val) (hmem : r.executionPayload.Spans ByteSpan.InBounds)
    (hbal : r.executionPayload.blockAccessList.len < 2 ^ 64)
    (hlimit : r.executionPayload.balHtrLimit = maxBlockAccessListBytes ∨
      r.executionPayload.balHtrLimit = balHtrLimitAmsterdam01) (st : Statics) (hst : st.Good H) :
    ∃ st', htrNewPayloadRequest H w r st = .ok (hashTreeRoot H r.type r.val, st') := by
  obtain ⟨hsize, hr⟩ := readable_of_fits (w := w) hfits hmem hbal hlimit
  obtain ⟨st', h, -⟩ := (computes_htrNewPayloadRequest hsize fun _ : True => hr).run trivial hst
  exact ⟨st', h⟩

/-- A Gloas request whose lists and byte lists have items, each in a buffer of its own. -/
def itemsRequest : SszNewPayloadRequest where
  executionPayload :=
    { parentHash := padTo 32 [1]
      blockNumber := 1
      extraData := .ofBytes [9, 9]
      baseFeePerGas := padTo 32 [7]
      transactions := [.ofBytes [2, 3], .ofBytes (List.replicate 40 4)]
      withdrawals := [{ index := 1, validatorIndex := 2, address := padTo 20 [3], amount := 4 }]
      blockAccessList := .ofBytes [5, 6, 7]
      slotNumber := 11
      shape := .gloas
      balHtrLimit := balHtrLimitAmsterdam01 }
  versionedHashes := [padTo 32 [1], padTo 32 [2], padTo 32 [3]]
  parentBeaconBlockRoot := padTo 32 [8]
  executionRequests :=
    { deposits := [⟨padTo 48 [1], padTo 32 [2], 3, padTo 96 [4], 5⟩]
      consolidations := [⟨padTo 20 [6], padTo 48 [7], padTo 48 [8]⟩,
        ⟨padTo 20 [9], padTo 48 [7], padTo 48 [8]⟩]
      builderExits := [{ sourceAddress := padTo 20 [1], pubkey := padTo 48 [2] }]
      hasBuilderRequests := true }

theorem fits_itemsRequest : Fits itemsRequest.type itemsRequest.val := by
  simp only [itemsRequest, SszNewPayloadRequest.toVal, SszExecutionPayload.toVal,
    SszExecutionRequests.toVal, SszExecutionRequests.tailVal, SszExecutionPayload.tailVal, Fits,
    FitsAll]
  norm_num [ByteSpan.bytes_ofBytes]

/-- That request, on a cold table. -/
theorem htrNewPayloadRequest_root_items : ∃ st',
    htrNewPayloadRequest (padTo 32) .bits32 itemsRequest {} =
      .ok (hashTreeRoot (padTo 32) itemsRequest.type itemsRequest.val, st') :=
  htrNewPayloadRequest_root (padTo 32) .bits32 itemsRequest fits_itemsRequest
    ⟨by simp [itemsRequest], by simp [itemsRequest], by simp [itemsRequest]⟩
    (by simp [itemsRequest]) (.inr rfl) {} (good_default _)

end StatelessGuest
