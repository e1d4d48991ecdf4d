import StatelessGuest.Publication

/-!
# What a true verdict pins down

Two successful runs that hand the same block to the library agree on every field that
enters the block, and nothing else is pinned down: an input that agrees with a successful
one on these fields succeeds too, with the same block.  The block hash, the versioned
hashes and the block access list do not enter it, the execution requests enter it only as
a hash and only under the Amsterdam schema, and the transactions enter it decoded.

## Main definitions

* `SameContext` — two inputs carry the same witness and the same chain config.
* `SameInBlock` — two requests agree on what enters the block.

## Main results

* `success_pins_block` — **next to a successful run, another one succeeds with the same
  block exactly when its request agrees on what enters the block**, and can be read.
-/

namespace StatelessGuest

open Ssz

section

variable (L : Library)

/-- The inputs carry the same witness and the same chain config, wherever they lie. -/
structure SameContext (si₁ si₂ : SszStatelessInput) : Prop where
  state : si₁.witness.state.map ByteSpan.bytes = si₂.witness.state.map ByteSpan.bytes
  codes : si₁.witness.codes.map ByteSpan.bytes = si₂.witness.codes.map ByteSpan.bytes
  headers : si₁.witness.headers.map ByteSpan.bytes = si₂.witness.headers.map ByteSpan.bytes
  chainConfig : { si₁.chainConfig with raw := .null } = { si₂.chainConfig with raw := .null }

/-- The requests agree on what enters the block. -/
structure SameInBlock (si₁ si₂ : SszStatelessInput) : Prop where
  parentHash : si₁.newPayloadRequest.executionPayload.parentHash =
    si₂.newPayloadRequest.executionPayload.parentHash
  feeRecipient : si₁.newPayloadRequest.executionPayload.feeRecipient =
    si₂.newPayloadRequest.executionPayload.feeRecipient
  stateRoot : si₁.newPayloadRequest.executionPayload.stateRoot =
    si₂.newPayloadRequest.executionPayload.stateRoot
  receiptsRoot : si₁.newPayloadRequest.executionPayload.receiptsRoot =
    si₂.newPayloadRequest.executionPayload.receiptsRoot
  logsBloom : si₁.newPayloadRequest.executionPayload.logsBloom =
    si₂.newPayloadRequest.executionPayload.logsBloom
  prevRandao : si₁.newPayloadRequest.executionPayload.prevRandao =
    si₂.newPayloadRequest.executionPayload.prevRandao
  blockNumber : si₁.newPayloadRequest.executionPayload.blockNumber =
    si₂.newPayloadRequest.executionPayload.blockNumber
  gasLimit : si₁.newPayloadRequest.executionPayload.gasLimit =
    si₂.newPayloadRequest.executionPayload.gasLimit
  gasUsed : si₁.newPayloadRequest.executionPayload.gasUsed =
    si₂.newPayloadRequest.executionPayload.gasUsed
  timestamp : si₁.newPayloadRequest.executionPayload.timestamp =
    si₂.newPayloadRequest.executionPayload.timestamp
  extraData : si₁.newPayloadRequest.executionPayload.extraData.bytes =
    si₂.newPayloadRequest.executionPayload.extraData.bytes
  baseFeePerGas : si₁.newPayloadRequest.executionPayload.baseFeePerGas =
    si₂.newPayloadRequest.executionPayload.baseFeePerGas
  withdrawals : si₁.newPayloadRequest.executionPayload.withdrawals =
    si₂.newPayloadRequest.executionPayload.withdrawals
  blobGasUsed : si₁.newPayloadRequest.executionPayload.blobGasUsed =
    si₂.newPayloadRequest.executionPayload.blobGasUsed
  excessBlobGas : si₁.newPayloadRequest.executionPayload.excessBlobGas =
    si₂.newPayloadRequest.executionPayload.excessBlobGas
  parentBeaconBlockRoot : si₁.newPayloadRequest.parentBeaconBlockRoot =
    si₂.newPayloadRequest.parentBeaconBlockRoot
  shape : si₁.newPayloadRequest.executionPayload.shape =
    si₂.newPayloadRequest.executionPayload.shape
  slotNumber : si₁.newPayloadRequest.executionPayload.slotNumber =
    si₂.newPayloadRequest.executionPayload.slotNumber
  transactions : List.Forall₂ (fun s t => L.decodeTransaction s.bytes = L.decodeTransaction t.bytes)
    si₁.newPayloadRequest.executionPayload.transactions
    si₂.newPayloadRequest.executionPayload.transactions
  requests : si₁.schema = .amsterdam01 →
    L.requestsHash ((flatRequests si₁.newPayloadRequest.executionRequests).map fun p =>
        (p.1, p.2.bytes)) =
      L.requestsHash ((flatRequests si₂.newPayloadRequest.executionRequests).map fun p =>
        (p.1, p.2.bytes))

end

/-! ### Decoded fields -/

theorem loadUint256_injective {L : Library} (hload : L.LoadsLittleEndian) :
    Function.Injective L.loadUint256 := by
  intro a b h
  have hnat : leNat a.toList = leNat b.toList := by rw [← hload a, ← hload b, h]
  exact toList_injective (leNat_inj (by simp) hnat)

theorem toVal_withdrawal_injective : Function.Injective SszWithdrawal.toVal := by
  rintro ⟨i, v, a, m⟩ ⟨i', v', a', m'⟩ h
  cases h
  rfl

theorem withdrawalOf_injective : Function.Injective withdrawalOf := by
  rintro ⟨i, v, a, m⟩ ⟨i', v', a', m'⟩ h
  cases h
  rfl

/-- A payload of 17 fields has no slot number. -/
theorem slotNumber_decodeExecutionPayload (w : WordSize) (s : ByteSpan) (shape : PayloadShape)
    (h : shape ≠ .gloas) : (decodeExecutionPayload w s shape).val.slotNumber = 0 := by
  unfold decodeExecutionPayload
  split
  · rfl
  · unfold decodePayloadFields
    simp only [h, ↓reduceIte, Dec.val_bind, val_decodePayloadLists, Dec.val_pure]

theorem slotNumber_decodeNewPayloadRequest (w : WordSize) (s : ByteSpan) (shape : PayloadShape)
    (builderRequests : Bool) (balLimit : ℕ)
    (h : (decodeNewPayloadRequest w s shape builderRequests balLimit).val.executionPayload.shape ≠
      .gloas) :
    (decodeNewPayloadRequest w s shape builderRequests
      balLimit).val.executionPayload.slotNumber = 0 := by
  unfold decodeNewPayloadRequest at h ⊢
  split
  · rfl
  · rename_i hlong
    rw [if_neg hlong] at h
    simp only [Dec.val_bind, Dec.val_pure] at h ⊢
    by_cases hshape : shape = .gloas
    · subst hshape
      rw [shape_decodeExecutionPayload] at h
      split at h
      · rename_i hshort
        rw [decodeExecutionPayload, if_pos hshort]
        rfl
      · exact absurd rfl h
    · exact slotNumber_decodeExecutionPayload w _ shape hshape

section

variable {L : Library} {w : WordSize}

/-- The slot number of an accepted payload that is not of the Gloas shape. -/
theorem slotNumber_of_valid {schema : InputSchema} {b : Bytes} {si : SszStatelessInput}
    (hok : (decodeStatelessInputOf w schema (.ofBytes b)).outcome = .ok si) (hvalid : si.valid = true)
    (h : si.newPayloadRequest.executionPayload.shape ≠ .gloas) :
    si.newPayloadRequest.executionPayload.slotNumber = 0 := by
  obtain ⟨-, -, -, -, hnpr, -⟩ := input_of_valid w schema hok hvalid
  rw [hnpr, decodeRequest] at h ⊢
  exact slotNumber_decodeNewPayloadRequest w _ _ _ _ h

/-- The payload of an accepted input has one of the two shapes. -/
theorem shape_of_valid {schema : InputSchema} {b : Bytes} {si : SszStatelessInput}
    (hok : (decodeStatelessInputOf w schema (.ofBytes b)).outcome = .ok si) (hvalid : si.valid = true)
    (h : si.newPayloadRequest.executionPayload.shape ≠ .gloas) :
    si.newPayloadRequest.executionPayload.shape = .electraFulu := by
  obtain ⟨-, -, hreq, -, hnpr, -⟩ := input_of_valid w schema hok hvalid
  rw [RequestOk, ← hnpr] at hreq
  cases hshape : si.newPayloadRequest.executionPayload.shape with
  | electraFulu => rfl
  | gloas => exact absurd hshape h
  | unsupported => exact absurd hshape hreq

theorem schema_eq_of_valid {schema : InputSchema} {b₁ b₂ : Bytes} {si₁ si₂ : SszStatelessInput}
    (hok₁ : (decodeStatelessInputOf w schema (.ofBytes b₁)).outcome = .ok si₁)
    (hok₂ : (decodeStatelessInputOf w schema (.ofBytes b₂)).outcome = .ok si₂)
    (hvalid₁ : si₁.valid = true) (hvalid₂ : si₂.valid = true) : si₁.schema = si₂.schema := by
  obtain ⟨-, -, -, -, -, -, -, hs₁⟩ := input_of_valid w schema hok₁ hvalid₁
  obtain ⟨-, -, -, -, -, -, -, hs₂⟩ := input_of_valid w schema hok₂ hvalid₂
  rw [hs₁, hs₂]

/-- The shape and the slot number, from the slot number in the header. -/
theorem slot_of_header {schema : InputSchema} {b₁ b₂ : Bytes} {si₁ si₂ : SszStatelessInput}
    (hok₁ : (decodeStatelessInputOf w schema (.ofBytes b₁)).outcome = .ok si₁)
    (hok₂ : (decodeStatelessInputOf w schema (.ofBytes b₂)).outcome = .ok si₂)
    (hvalid₁ : si₁.valid = true) (hvalid₂ : si₂.valid = true)
    (hslot : (if si₁.newPayloadRequest.executionPayload.shape = .gloas then
        some si₁.newPayloadRequest.executionPayload.slotNumber else none) =
      if si₂.newPayloadRequest.executionPayload.shape = .gloas then
        some si₂.newPayloadRequest.executionPayload.slotNumber else none) :
    si₁.newPayloadRequest.executionPayload.shape = si₂.newPayloadRequest.executionPayload.shape ∧
      si₁.newPayloadRequest.executionPayload.slotNumber =
        si₂.newPayloadRequest.executionPayload.slotNumber := by
  by_cases h₁ : si₁.newPayloadRequest.executionPayload.shape = .gloas
  · by_cases h₂ : si₂.newPayloadRequest.executionPayload.shape = .gloas
    · rw [if_pos h₁, if_pos h₂] at hslot
      exact ⟨h₁.trans h₂.symm, Option.some.inj hslot⟩
    · rw [if_pos h₁, if_neg h₂] at hslot
      cases hslot
  · by_cases h₂ : si₂.newPayloadRequest.executionPayload.shape = .gloas
    · rw [if_neg h₁, if_pos h₂] at hslot
      cases hslot
    · rw [slotNumber_of_valid hok₁ hvalid₁ h₁, slotNumber_of_valid hok₂ hvalid₂ h₂,
        shape_of_valid hok₁ hvalid₁ h₁, shape_of_valid hok₂ hvalid₂ h₂]
      exact ⟨rfl, rfl⟩

/-- Lists of spans that decode to the same transactions. -/
theorem forall₂_decode {spans₁ spans₂ : List ByteSpan} {txs : List L.Tx}
    (h₁ : List.Forall₂ (fun span tx => span.InBounds ∧ L.decodeTransaction span.bytes = some tx)
      spans₁ txs)
    (h₂ : List.Forall₂ (fun span tx => span.InBounds ∧ L.decodeTransaction span.bytes = some tx)
      spans₂ txs) :
    List.Forall₂ (fun s t => L.decodeTransaction s.bytes = L.decodeTransaction t.bytes)
      spans₁ spans₂ := by
  induction h₁ generalizing spans₂ with
  | nil =>
    cases h₂
    exact .nil
  | cons hhead _ ih =>
    cases h₂ with
    | cons hhead₂ htail₂ => exact .cons (hhead.2.trans hhead₂.2.symm) (ih htail₂)

/-- **Equal blocks come from requests that agree on what enters the block.** -/
theorem sameInBlock_of_block (hload : L.LoadsLittleEndian) {schema : InputSchema} {b₁ b₂ : Bytes}
    {si₁ si₂ : SszStatelessInput}
    (hok₁ : (decodeStatelessInputOf w schema (.ofBytes b₁)).outcome = .ok si₁)
    (hok₂ : (decodeStatelessInputOf w schema (.ofBytes b₂)).outcome = .ok si₂)
    (hvalid₁ : si₁.valid = true) (hvalid₂ : si₂.valid = true) {x₁ : Execution L si₁}
    {x₂ : Execution L si₂} (hblock : x₁.block = x₂.block) : SameInBlock L si₁ si₂ := by
  have c₁ := x₁.carriesOver hload
  have c₂ := x₂.carriesOver hload
  have htxs : x₁.transactions = x₂.transactions := congrArg Block.transactions hblock
  have hwdl : some (si₁.newPayloadRequest.executionPayload.withdrawals.map withdrawalOf) =
      some (si₂.newPayloadRequest.executionPayload.withdrawals.map withdrawalOf) :=
    congrArg Block.withdrawals hblock
  -- Both headers are the header of one block, so what they carry over agrees.
  rw [← hblock] at c₂
  -- The slot number tells the two shapes apart: only one of them has it.
  have hslot := slot_of_header hok₁ hok₂ hvalid₁ hvalid₂ (c₁.slotNumber.symm.trans c₂.slotNumber)
  have hdec₂ := decodeTransactions_eq_some.mp x₂.decodes
  rw [← htxs] at hdec₂
  have hschema := schema_eq_of_valid hok₁ hok₂ hvalid₁ hvalid₂
  have hfee : some (L.loadUint256 si₁.newPayloadRequest.executionPayload.baseFeePerGas) =
      some (L.loadUint256 si₂.newPayloadRequest.executionPayload.baseFeePerGas) :=
    congrArg (fun block => block.header.baseFeePerGas) hblock
  have hhash : x₁.requestsHash = x₂.requestsHash :=
    congrArg (fun block => block.header.requestsHash) hblock
  exact
    { parentHash := c₁.parentHash.symm.trans c₂.parentHash
      feeRecipient := c₁.beneficiary.symm.trans c₂.beneficiary
      stateRoot := c₁.stateRoot.symm.trans c₂.stateRoot
      receiptsRoot := c₁.receiptsRoot.symm.trans c₂.receiptsRoot
      logsBloom := c₁.logsBloom.symm.trans c₂.logsBloom
      prevRandao := c₁.prevRandao.symm.trans c₂.prevRandao
      blockNumber := c₁.number.symm.trans c₂.number
      gasLimit := c₁.gasLimit.symm.trans c₂.gasLimit
      gasUsed := c₁.gasUsed.symm.trans c₂.gasUsed
      timestamp := c₁.timestamp.symm.trans c₂.timestamp
      extraData := c₁.extraData.2.symm.trans c₂.extraData.2
      baseFeePerGas := loadUint256_injective hload (Option.some.inj hfee)
      withdrawals := List.map_injective_iff.mpr withdrawalOf_injective (Option.some.inj hwdl)
      blobGasUsed := Option.some.inj (c₁.blobGasUsed.symm.trans c₂.blobGasUsed)
      excessBlobGas := Option.some.inj (c₁.excessBlobGas.symm.trans c₂.excessBlobGas)
      parentBeaconBlockRoot :=
        Option.some.inj (c₁.parentBeaconBlockRoot.symm.trans c₂.parentBeaconBlockRoot)
      shape := hslot.1
      slotNumber := hslot.2
      transactions := forall₂_decode (decodeTransactions_eq_some.mp x₁.decodes) hdec₂
      requests := fun h => by
        rw [requestsHash_of_ok x₁.requests, requestsHash_of_ok x₂.requests, if_pos h,
          if_pos (hschema ▸ h)] at hhash
        exact Option.some.inj hhash }

/-- Spans that decode to the same transactions lead to the same list. -/
theorem transactions_eq {spans₁ spans₂ : List ByteSpan} {txs₁ txs₂ : List L.Tx}
    (h : List.Forall₂ (fun s t => L.decodeTransaction s.bytes = L.decodeTransaction t.bytes)
      spans₁ spans₂)
    (h₁ : List.Forall₂ (fun span tx => span.InBounds ∧ L.decodeTransaction span.bytes = some tx)
      spans₁ txs₁)
    (h₂ : List.Forall₂ (fun span tx => span.InBounds ∧ L.decodeTransaction span.bytes = some tx)
      spans₂ txs₂) : txs₁ = txs₂ := by
  induction h generalizing txs₁ txs₂ with
  | nil =>
    cases h₁
    cases h₂
    rfl
  | cons hhead _ ih =>
    cases h₁ with
    | cons hhead₁ htail₁ =>
      cases h₂ with
      | cons hhead₂ htail₂ =>
        rw [ih htail₁ htail₂, Option.some.inj (hhead₁.2.symm.trans (hhead.trans hhead₂.2))]

/-- Nothing else enters the block. -/
theorem block_of_sameInBlock {si₁ si₂ : SszStatelessInput} (hschema : si₁.schema = si₂.schema)
    (h : SameInBlock L si₁ si₂) (x₁ : Execution L si₁) (x₂ : Execution L si₂) :
    x₁.block = x₂.block := by
  have hextra : x₁.extraData = x₂.extraData := by
    rw [← (viewOf_eq_ok.mp x₁.view_extraData).2, ← (viewOf_eq_ok.mp x₂.view_extraData).2,
      h.extraData]
  have htxs : x₁.transactions = x₂.transactions :=
    transactions_eq h.transactions (decodeTransactions_eq_some.mp x₁.decodes)
      (decodeTransactions_eq_some.mp x₂.decodes)
  have hhash : x₁.requestsHash = x₂.requestsHash := by
    rw [requestsHash_of_ok x₁.requests, requestsHash_of_ok x₂.requests]
    by_cases hs : si₁.schema = .amsterdam01
    · rw [if_pos hs, if_pos (hschema ▸ hs), h.requests hs]
    · rw [if_neg hs, if_neg (hschema ▸ hs)]
  have hheader : ∀ extraData requestsHash,
      payloadHeader L si₁.newPayloadRequest extraData requestsHash =
        payloadHeader L si₂.newPayloadRequest extraData requestsHash := by
    intro extraData requestsHash
    simp only [payloadHeader, h.parentHash, h.feeRecipient, h.stateRoot, h.receiptsRoot, h.logsBloom,
      h.prevRandao, h.blockNumber, h.gasLimit, h.gasUsed, h.timestamp, h.baseFeePerGas,
      h.blobGasUsed, h.excessBlobGas, h.parentBeaconBlockRoot, h.shape, h.slotNumber]
  simp only [Execution.block, assembleBlock, hextra, htxs, hhash, hheader, h.withdrawals]

/-! ### A second run -/

/-- The rules and the activation are read off the chain config. -/
theorem SameContext.rules {si₁ si₂ : SszStatelessInput} (h : SameContext si₁ si₂)
    (hschema : si₁.schema = si₂.schema) : chainCfgOf si₁ = chainCfgOf si₂ := by
  have hfork : si₁.chainConfig.fork = si₂.chainConfig.fork :=
    (congrArg SszChainConfig.fork h.chainConfig :)
  have hid : si₁.chainConfig.chainId = si₂.chainConfig.chainId :=
    (congrArg SszChainConfig.chainId h.chainConfig :)
  simp only [chainCfgOf, hfork, hid, hschema]

theorem SameContext.active {si₁ si₂ : SszStatelessInput} (h : SameContext si₁ si₂)
    (blockNumber timestamp : BitVec 64) :
    validateChainConfig si₁.chainConfig blockNumber timestamp =
      validateChainConfig si₂.chainConfig blockNumber timestamp :=
  (congrArg (fun cc => validateChainConfig cc blockNumber timestamp) h.chainConfig :)

/-- The same witness leads to the same state. -/
theorem SameContext.chain {si₁ si₂ : SszStatelessInput} (h : SameContext si₁ si₂)
    (hschema : si₁.schema = si₂.schema) (hsame : SameInBlock L si₁ si₂) :
    witnessChain L si₁ = witnessChain L si₂ ∧ witnessNodes L si₁ = witnessNodes L si₂ := by
  have hnodes : witnessNodes L si₁ = witnessNodes L si₂ := by
    rw [witnessNodes, witnessNodes, h.state]
  have hgenesis : ∀ headers,
      genesisHeader L headers si₁.newPayloadRequest.executionPayload =
        genesisHeader L headers si₂.newPayloadRequest.executionPayload := fun headers => by
    rw [genesisHeader, genesisHeader, hsame.parentHash, hsame.blockNumber]
  refine ⟨?_, hnodes⟩
  rw [witnessChain, witnessChain, hnodes, h.headers, h.codes, h.rules hschema, hgenesis,
    hsame.parentHash]

/-- A second input passes the gates in front of the witness. -/
theorem admitted_of_sameInBlock {si₁ si₂ : SszStatelessInput} (h : SameContext si₁ si₂)
    (hsame : SameInBlock L si₁ si₂) {x₁ : Execution L si₁} (hx₁ : x₁.Succeeds) : Admitted si₂ := by
  have hlength := congrArg List.length h.headers
  rw [List.length_map, List.length_map] at hlength
  constructor
  · rw [← h.active, ← hsame.blockNumber, ← hsame.timestamp]
    exact hx₁.active
  · exact hlength ▸ hx₁.short

/-- A second input that can be read is executed. -/
theorem execution_of_sameInBlock {si₁ si₂ : SszStatelessInput} (hsame : SameInBlock L si₁ si₂)
    (x₁ : Execution L si₁) (hadmitted : Admitted si₂) (hreads : ReadsInside w si₂) :
    Nonempty (Execution L si₂) := by
  have hsome : ∀ s ∈ si₂.newPayloadRequest.executionPayload.transactions,
      (L.decodeTransaction s.bytes).isSome = true := by
    intro s hs
    obtain ⟨i, hi, rfl⟩ := List.mem_iff_getElem.mp hs
    have hi₁ := hsame.transactions.length_eq.symm ▸ hi
    have heq := hsame.transactions.get hi₁ hi
    rw [List.get_eq_getElem, List.get_eq_getElem] at heq
    rw [← heq]
    exact (isSome_of_decodes x₁.decodes _ (List.getElem_mem hi₁)).2
  obtain ⟨txs, hdec⟩ := decodes_of_isSome fun s hs =>
    ⟨hreads.transactions hadmitted s hs, hsome s hs⟩
  obtain ⟨requestsHash, hreq⟩ := requestsHashOf_returns.mpr (hreads.requests hadmitted)
  exact ⟨⟨_, _, _, _, txs, requestsHash, views_eq_ok.mpr ⟨hreads.headers hadmitted, rfl⟩,
    views_eq_ok.mpr ⟨hreads.state hadmitted, rfl⟩, views_eq_ok.mpr ⟨hreads.codes hadmitted, rfl⟩,
    viewOf_eq_ok.mpr ⟨hreads.extraData hadmitted, rfl⟩, hdec, hreq⟩⟩

/-- **The second execution succeeds**: it inserts the same block into the same state. -/
theorem succeeds_of_sameInBlock {si₁ si₂ : SszStatelessInput} (hschema : si₁.schema = si₂.schema)
    (h : SameContext si₁ si₂) (hsame : SameInBlock L si₁ si₂) {x₁ : Execution L si₁}
    (hx₁ : x₁.Succeeds) (x₂ : Execution L si₂) : x₂.Succeeds := by
  have hadmitted := admitted_of_sameInBlock h hsame hx₁
  obtain ⟨hchain₁, hnodes₁⟩ := x₁.chain_eq_witnessChain
  obtain ⟨hchain₂, hnodes₂⟩ := x₂.chain_eq_witnessChain
  obtain ⟨hchain, hnodes⟩ := h.chain hschema hsame
  have hheaders : x₁.headers = x₂.headers := by
    rw [← (views_eq_ok.mp x₁.views_headers).2, ← (views_eq_ok.mp x₂.views_headers).2, h.headers]
  have hresult : x₁.result = x₂.result := by
    rw [Execution.result, Execution.result, hchain₁, hchain₂, hchain, h.rules hschema,
      block_of_sameInBlock hschema hsame x₁ x₂]
  have hroot : x₁.computedRoot = x₂.computedRoot := by
    rw [Execution.computedRoot, Execution.computedRoot, hnodes₁, hnodes₂, hnodes, hresult,
      hsame.blockNumber, hsame.parentHash]
  exact ⟨hadmitted.active, hadmitted.short, hheaders ▸ hx₁.chained, hresult ▸ hx₁.inserted,
    hroot.symm.trans (hx₁.root.trans (congrArg Except.ok hsame.stateRoot))⟩

end

/-- **Next to a successful run, a run over the same witness and chain config succeeds with the
same block exactly when its request agrees on what enters the block** and lies inside the
input: nothing else of the request is pinned down. -/
theorem success_pins_block (L : Library) (hload : L.LoadsLittleEndian) (w : WordSize)
    {data₁ data₂ : Bytes} {si₁ si₂ : SszStatelessInput} (hschema : schemaOf data₁ = schemaOf data₂)
    (hsi₁ : decodeInput w data₁ = some si₁) (hsi₂ : decodeInput w data₂ = some si₂)
    (hcontext : SameContext si₁ si₂) (hsuccess : Success L w data₁) :
    (Success L w data₂ ∧ ∃ (x₁ : Execution L si₁) (x₂ : Execution L si₂), x₁.Succeeds ∧
        x₂.Succeeds ∧ x₁.block = x₂.block) ↔
      ReadsInside w si₂ ∧ SameInBlock L si₁ si₂ := by
  obtain ⟨schema, hs₁, hok₁, hvalid₁⟩ := decodeInput_eq_some_iff.mp hsi₁
  obtain ⟨schema', hs₂, hok₂, hvalid₂⟩ := decodeInput_eq_some_iff.mp hsi₂
  have hsame : schema = schema' := Option.some.inj (hs₁.symm.trans (hschema.trans hs₂))
  subst hsame
  have hschemas := schema_eq_of_valid hok₁ hok₂ hvalid₁ hvalid₂
  constructor
  · rintro ⟨h₂, x₁, x₂, -, -, hblock⟩
    exact ⟨readsInside_of_success w h₂ hsi₂,
      sameInBlock_of_block hload hok₁ hok₂ hvalid₁ hvalid₂ hblock⟩
  · rintro ⟨hreads, hagree⟩
    obtain ⟨x₁, hx₁⟩ := execution_of_success hsuccess hsi₁
    obtain ⟨x₂⟩ := execution_of_sameInBlock hagree x₁ (admitted_of_sameInBlock hcontext hagree hx₁)
      hreads
    have hx₂ := succeeds_of_sameInBlock hschemas hcontext hagree hx₁ x₂
    obtain ⟨root, hroot⟩ := (htrNewPayloadRequest_returns (H := L.sha256)
      (sized_of_valid w hok₂ hvalid₂)).mpr hreads.request
    refine ⟨success_iff.mpr ⟨_, run_of_valid hs₂ hok₂ hvalid₂ hroot
      (guestVerdict_eq_true.mpr ⟨x₂, hx₂⟩), rfl⟩, x₁, x₂, hx₁, hx₂, ?_⟩
    exact block_of_sameInBlock hschemas hagree x₁ x₂

/-! ### Two requests with one block -/

/-- A transaction, with or without a length byte in front. -/
def unwrap : Bytes → Option Bytes
  | [] => none
  | first :: rest => if first.toNat = 128 + rest.length then some rest else some (first :: rest)

/-- A library that decodes transactions in both forms. -/
def wrappingLibrary : Library := { sampleLibrary with decodeTransaction := unwrap }

/-- A legacy Prague input with the given block hash, which is its only versioned hash too, and
transactions. -/
def legacyData (x : UInt8) (transactions : List Bytes) : Bytes :=
  [0x00, 0x01] ++ SszType.serialize (inputType .legacy0001 .electraFulu .flat)
    (legacyBlock (padTo 32 [x]) transactions [])

/-- The decoded input. -/
def legacyDecoded (x : UInt8) (transactions : List Bytes) : SszStatelessInput :=
  (decodeStatelessInputOf .bits64 .legacy0001 (.ofBytes ((legacyData x transactions).drop 2))).val

theorem decodeInput_legacyData {x : UInt8} {transactions : List Bytes}
    (hschema : schemaOf (legacyData x transactions) = some .legacy0001)
    (hok : (decodeStatelessInputOf .bits64 .legacy0001
      (.ofBytes ((legacyData x transactions).drop 2))).Returns)
    (hvalid : (legacyDecoded x transactions).valid = true) :
    decodeInput .bits64 (legacyData x transactions) = some (legacyDecoded x transactions) :=
  decodeInput_eq_some hschema (Dec.outcome_eq_ok.mpr ⟨hok, rfl⟩) hvalid

/-- The bare transactions. -/
theorem decodeInput_bare : decodeInput .bits64 (legacyData 1 [[2, 3], [4]]) =
    some (legacyDecoded 1 [[2, 3], [4]]) :=
  decodeInput_legacyData (by decide +kernel) (by decide +kernel) (by decide +kernel)

/-- The first of them behind a length byte, in a block of another hash. -/
theorem decodeInput_wrapped : decodeInput .bits64 (legacyData 2 [[0x82, 2, 3], [4]]) =
    some (legacyDecoded 2 [[0x82, 2, 3], [4]]) :=
  decodeInput_legacyData (by decide +kernel) (by decide +kernel) (by decide +kernel)

/-- Sections of the same bytes at the end of both inputs. -/
theorem span_eq {s t : ByteSpan} (hptr : (s.ptr == t.ptr) = true) (hlen : s.len = t.len) : s = t :=
  ByteSpan.ext (eq_of_beq hptr) hlen

theorem sections_wrapped :
    (legacyDecoded 1 [[2, 3], [4]]).witness = (legacyDecoded 2 [[0x82, 2, 3], [4]]).witness ∧
      (legacyDecoded 1 [[2, 3], [4]]).chainConfig =
        (legacyDecoded 2 [[0x82, 2, 3], [4]]).chainConfig := by
  obtain ⟨_, hs₁, hok₁, hvalid₁⟩ := decodeInput_eq_some_iff.mp decodeInput_bare
  obtain ⟨_, hs₂, hok₂, hvalid₂⟩ := decodeInput_eq_some_iff.mp decodeInput_wrapped
  obtain ⟨-, -, -, hcc₁, -, hwit₁, -⟩ := input_of_valid _ _ hok₁ hvalid₁
  obtain ⟨-, -, -, hcc₂, -, hwit₂, -⟩ := input_of_valid _ _ hok₂ hvalid₂
  have hschema := hs₁.symm.trans ((by decide +kernel : schemaOf (legacyData 1 [[2, 3], [4]]) =
    schemaOf (legacyData 2 [[0x82, 2, 3], [4]])).trans hs₂)
  have hconfig : configSpan ((legacyData 1 [[2, 3], [4]]).drop 2) =
      configSpan ((legacyData 2 [[0x82, 2, 3], [4]]).drop 2) :=
    span_eq (by decide +kernel) (by decide +kernel)
  have hwitness : witnessSpan ((legacyData 1 [[2, 3], [4]]).drop 2) =
      witnessSpan ((legacyData 2 [[0x82, 2, 3], [4]]).drop 2) :=
    span_eq (by decide +kernel) (by decide +kernel)
  rw [hcc₁, hcc₂, hwit₁, hwit₂, configOf, configOf, hconfig, hwitness, Option.some.inj hschema]
  exact ⟨rfl, rfl⟩

theorem sameContext_wrapped :
    SameContext (legacyDecoded 1 [[2, 3], [4]]) (legacyDecoded 2 [[0x82, 2, 3], [4]]) := by
  obtain ⟨hwitness, hconfig⟩ := sections_wrapped
  constructor <;> simp only [hwitness, hconfig]

/-- Neither the length byte nor the block hash enters the block. -/
theorem sameInBlock_wrapped : SameInBlock wrappingLibrary (legacyDecoded 1 [[2, 3], [4]])
    (legacyDecoded 2 [[0x82, 2, 3], [4]]) := by
  constructor
  case transactions =>
    show List.Forall₂ (fun s t : ByteSpan => unwrap s.bytes = unwrap t.bytes) _ _
    decide +kernel
  case requests => exact fun _ => rfl
  case withdrawals =>
    have hvals : (legacyDecoded 1 [[2, 3], [4]]).newPayloadRequest.executionPayload.withdrawals.map
        SszWithdrawal.toVal = (legacyDecoded 2
          [[0x82, 2, 3], [4]]).newPayloadRequest.executionPayload.withdrawals.map
            SszWithdrawal.toVal := by decide +kernel
    exact List.map_injective_iff.mpr toVal_withdrawal_injective hvals
  all_goals decide +kernel

theorem readsInside_wrapped : ReadsInside .bits64 (legacyDecoded 2 [[0x82, 2, 3], [4]]) := by
  refine ⟨⟨⟨?_, ?_, ?_, ?_, ?_⟩, ?_, ⟨?_, ?_, ?_, ?_, ?_⟩⟩, fun _ => ?_, fun _ => ?_, fun _ => ?_,
    fun _ => ?_, fun _ => ?_, fun _ => ?_⟩ <;> decide +kernel

theorem success_bare : Success wrappingLibrary .bits64 (legacyData 1 [[2, 3], [4]]) := by
  decide +kernel

/-- Two different requests, of which both runs succeed with the same block. -/
theorem success_pins_block_wrapped :
    (legacyDecoded 1 [[2, 3], [4]]).newPayloadRequest.executionPayload.blockHash ≠
        (legacyDecoded 2 [[0x82, 2, 3], [4]]).newPayloadRequest.executionPayload.blockHash ∧
      Success wrappingLibrary .bits64 (legacyData 2 [[0x82, 2, 3], [4]]) ∧
      ∃ (x₁ : Execution wrappingLibrary (legacyDecoded 1 [[2, 3], [4]]))
        (x₂ : Execution wrappingLibrary (legacyDecoded 2 [[0x82, 2, 3], [4]])), x₁.Succeeds ∧
        x₂.Succeeds ∧ x₁.block = x₂.block :=
  ⟨by decide +kernel, (success_pins_block wrappingLibrary toNat_leWord .bits64 (by decide +kernel)
    decodeInput_bare decodeInput_wrapped sameContext_wrapped success_bare).mpr
      ⟨readsInside_wrapped, sameInBlock_wrapped⟩⟩

/-- Two requests that differ in their block hash and their transactions lead to one block and
to two successful runs. -/
theorem success_pins_block_counterexample :
    ¬∀ (L : Library) (w : WordSize) (data₁ data₂ : Bytes) (si₁ si₂ : SszStatelessInput),
      schemaOf data₁ = schemaOf data₂ → decodeInput w data₁ = some si₁ →
      decodeInput w data₂ = some si₂ → si₁.witness = si₂.witness →
      si₁.chainConfig = si₂.chainConfig → Success L w data₁ → Success L w data₂ →
      (∀ (x₁ : Execution L si₁) (x₂ : Execution L si₂), x₁.block = x₂.block) →
      SameRequest si₁.newPayloadRequest si₂.newPayloadRequest := by
  intro h
  have hsame := h wrappingLibrary .bits64 _ _ _ _ (by decide +kernel) decodeInput_bare
    decodeInput_wrapped sections_wrapped.1 sections_wrapped.2 success_bare (by decide +kernel)
    (block_of_sameInBlock (by decide +kernel) sameInBlock_wrapped)
  have hhash := congrArg (fun v => v.1.2.2.2.2.2.2.2.2.2.2.2.2.1) hsame.val
  revert hhash
  decide +kernel

end StatelessGuest
