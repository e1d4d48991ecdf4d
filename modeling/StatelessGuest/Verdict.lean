import StatelessGuest.Guest

/-!
# What a true verdict means

A run that reports success has passed every gate, and has executed the block that its
input describes.  The witness headers it registers are checked against each other, but
empty entries are passed over.

## Main definitions

* `CarriesOver` — a header has the fields that the payload provides.
* `PassesGates` — an input and its block have passed every gate.
* `HeaderChain` — every header decodes and is the child of the one before it.

## Main results

* `success_gates` — **no success without every gate.**
* `headerChain_links` — the headers that pass the check form one chain exactly when none
  of them is empty.
-/

namespace StatelessGuest

open Ssz SszType

/-! ### Gates -/

theorem validateChainConfig_eq_true {cc : SszChainConfig} {blockNumber timestamp : BitVec 64} :
    validateChainConfig cc blockNumber timestamp = true ↔
      (cc.hasActivationBlockNumber = true ∨ cc.hasActivationTimestamp = true) ∧
        (cc.hasActivationBlockNumber = true → cc.activationBlockNumber ≤ blockNumber) ∧
        (cc.hasActivationTimestamp = true → cc.activationTimestamp ≤ timestamp) := by
  unfold validateChainConfig
  cases cc.hasActivationBlockNumber <;> cases cc.hasActivationTimestamp <;>
    simp [BitVec.not_lt]

section

variable {L : Library}

variable (L) in
/-- The header has every field that the payload provides for execution. -/
structure CarriesOver (si : SszStatelessInput) (header : BlockHeader L.HeaderRest) : Prop where
  parentHash : header.parentHash = si.newPayloadRequest.executionPayload.parentHash
  beneficiary : header.beneficiary = si.newPayloadRequest.executionPayload.feeRecipient
  stateRoot : header.stateRoot = si.newPayloadRequest.executionPayload.stateRoot
  receiptsRoot : header.receiptsRoot = si.newPayloadRequest.executionPayload.receiptsRoot
  logsBloom : header.logsBloom = si.newPayloadRequest.executionPayload.logsBloom
  prevRandao : header.prevRandao = si.newPayloadRequest.executionPayload.prevRandao
  number : header.number = si.newPayloadRequest.executionPayload.blockNumber
  gasLimit : header.gasLimit = si.newPayloadRequest.executionPayload.gasLimit
  gasUsed : header.gasUsed = si.newPayloadRequest.executionPayload.gasUsed
  timestamp : header.timestamp = si.newPayloadRequest.executionPayload.timestamp
  extraData : si.newPayloadRequest.executionPayload.extraData.InBounds ∧
    header.extraData = si.newPayloadRequest.executionPayload.extraData.bytes
  baseFeePerGas : ∃ fee, header.baseFeePerGas = some fee ∧
    fee.toNat = leNat si.newPayloadRequest.executionPayload.baseFeePerGas.toList
  blobGasUsed : header.blobGasUsed = some si.newPayloadRequest.executionPayload.blobGasUsed
  excessBlobGas : header.excessBlobGas = some si.newPayloadRequest.executionPayload.excessBlobGas
  parentBeaconBlockRoot :
    header.parentBeaconBlockRoot = some si.newPayloadRequest.parentBeaconBlockRoot
  slotNumber : header.slotNumber =
    if si.newPayloadRequest.executionPayload.shape = .gloas then
      some si.newPayloadRequest.executionPayload.slotNumber
    else none
  requestsHash : header.requestsHash =
    if si.schema = .amsterdam01 then
      some (L.requestsHash (List.filter (fun p => p.2 ≠ [])
        [(.kDepositRequest, si.newPayloadRequest.executionRequests.rawDeposits.bytes),
          (.kWithdrawalRequest, si.newPayloadRequest.executionRequests.rawWithdrawals.bytes),
          (.kConsolidationRequest, si.newPayloadRequest.executionRequests.rawConsolidations.bytes),
          (.kBuilderDepositRequest, si.newPayloadRequest.executionRequests.rawBuilderDeposits.bytes),
          (.kBuilderExitRequest, si.newPayloadRequest.executionRequests.rawBuilderExits.bytes)]))
    else none

/-- The withdrawal has the fields of that of the payload. -/
def SameWithdrawal (sw : SszWithdrawal) (w : Withdrawal) : Prop :=
  w.index = sw.index ∧ w.validatorIndex = sw.validatorIndex ∧ w.address = sw.address ∧
    w.amount = sw.amount

/-- The raw lists that are hashed are those of the five that are not empty. -/
theorem flatRequests_bytes (er : SszExecutionRequests) :
    (flatRequests er).map (fun p => (p.1, p.2.bytes)) = List.filter (fun p => p.2 ≠ [])
      [(.kDepositRequest, er.rawDeposits.bytes), (.kWithdrawalRequest, er.rawWithdrawals.bytes),
        (.kConsolidationRequest, er.rawConsolidations.bytes),
        (.kBuilderDepositRequest, er.rawBuilderDeposits.bytes),
        (.kBuilderExitRequest, er.rawBuilderExits.bytes)] := by
  have hempty : ∀ s : ByteSpan, s.bytes = [] ↔ s.len = 0 := fun s => by
    rw [← s.length_bytes, List.length_eq_zero_iff]
  have hmap : (fun p : FlatRequestType × Bytes => decide (p.2 ≠ [])) ∘
      (fun p : FlatRequestType × ByteSpan => (p.1, p.2.bytes)) = fun p => decide (p.2.len ≠ 0) := by
    funext p
    simp [hempty]
  rw [flatRequests, ← hmap, ← List.filter_map]
  rfl

theorem requestsHash_of_ok {si : SszStatelessInput} {requestsHash : Option Bytes32}
    (h : requestsHashOf L si = .ok requestsHash) :
    requestsHash = if si.schema = .amsterdam01 then
      some (L.requestsHash ((flatRequests si.newPayloadRequest.executionRequests).map fun p =>
        (p.1, p.2.bytes)))
    else none := by
  unfold requestsHashOf at h
  split at h
  · rename_i hschema
    obtain ⟨raws, hraws, h⟩ := bind_eq_ok.mp h
    obtain ⟨-, rfl⟩ := views_eq_ok.mp hraws
    rw [if_pos hschema, ← Except.ok.inj h, List.map_map, List.zip_map']
    rfl
  · rename_i hschema
    rw [if_neg hschema, ← Except.ok.inj h]

theorem Execution.carriesOver (hload : L.LoadsLittleEndian) {si : SszStatelessInput}
    (x : Execution L si) : CarriesOver L si x.block.header where
  parentHash := rfl
  beneficiary := rfl
  stateRoot := rfl
  receiptsRoot := rfl
  logsBloom := rfl
  prevRandao := rfl
  number := rfl
  gasLimit := rfl
  gasUsed := rfl
  timestamp := rfl
  extraData := by
    obtain ⟨hin, hbytes⟩ := viewOf_eq_ok.mp x.view_extraData
    exact ⟨hin, hbytes.symm⟩
  baseFeePerGas := ⟨_, rfl, hload _⟩
  blobGasUsed := rfl
  excessBlobGas := rfl
  parentBeaconBlockRoot := rfl
  slotNumber := rfl
  requestsHash := by
    rw [← flatRequests_bytes]
    exact requestsHash_of_ok x.requests

/-- The nodes of the witness of an input. -/
def witnessNodes (L : Library) (si : SszStatelessInput) : L.NodeStore :=
  L.populateFromPreimages (si.witness.state.map ByteSpan.bytes)

/-- The state that the block of an input is inserted into: that of its witness, in a chain
that begins with the first of its headers. -/
def witnessChain (L : Library) (si : SszStatelessInput) : L.State :=
  L.blockchain (loadState L (witnessNodes L si) (si.witness.headers.map ByteSpan.bytes)
      (si.witness.codes.map ByteSpan.bytes) si.newPayloadRequest.executionPayload.parentHash)
    (chainCfgOf si)
    (genesisHeader L (si.witness.headers.map ByteSpan.bytes) si.newPayloadRequest.executionPayload)

/-- Every view of the witness of an execution lies inside the input. -/
theorem Execution.chain_eq_witnessChain {si : SszStatelessInput} (x : Execution L si) :
    x.chain = witnessChain L si ∧ L.populateFromPreimages x.preimages = witnessNodes L si := by
  obtain ⟨-, hheaders⟩ := views_eq_ok.mp x.views_headers
  obtain ⟨-, hstate⟩ := views_eq_ok.mp x.views_state
  obtain ⟨-, hcodes⟩ := views_eq_ok.mp x.views_codes
  rw [Execution.chain, ← hheaders, ← hstate, ← hcodes]
  exact ⟨rfl, rfl⟩

/-- The input and the block have passed every gate of a run. -/
structure PassesGates (L : Library) (w : WordSize) (data : Bytes) (si : SszStatelessInput)
    (block : Block L.HeaderRest L.Tx) : Prop where
  schema : schemaOf data = some si.schema
  decoded : (decodeStatelessInputOf w si.schema (.ofBytes (data.drop 2))).outcome = .ok si
  valid : si.valid = true
  present : si.chainConfig.hasActivationBlockNumber = true ∨
    si.chainConfig.hasActivationTimestamp = true
  blockNumber : si.chainConfig.hasActivationBlockNumber = true →
    si.chainConfig.activationBlockNumber ≤ si.newPayloadRequest.executionPayload.blockNumber
  timestamp : si.chainConfig.hasActivationTimestamp = true →
    si.chainConfig.activationTimestamp ≤ si.newPayloadRequest.executionPayload.timestamp
  headers : si.witness.headers.length ≤ 256
  transactions : List.Forall₂
    (fun span tx => span.InBounds ∧ L.decodeTransaction span.bytes = some tx)
    si.newPayloadRequest.executionPayload.transactions block.transactions
  withdrawals : ∃ withdrawals, block.withdrawals = some withdrawals ∧
    List.Forall₂ SameWithdrawal si.newPayloadRequest.executionPayload.withdrawals withdrawals
  header : CarriesOver L si block.header
  accepted : (L.insertBlock (witnessChain L si) (chainCfgOf si) block).1 = .kOk
  /-- The account updates of the block lead from the root of the parent header to that of the
  payload. -/
  root : ∃ st accs stor, (L.insertBlock (witnessChain L si) (chainCfgOf si) block).2 = st ∧
    L.accountChanges st block.header.number = some accs ∧
    L.storageChanges st block.header.number = some stor ∧
    L.calcAccountRoot (witnessNodes L si)
        (prevRootOf L st block.header.number block.header.parentHash)
        (sortByKey (accUpdates L (witnessNodes L si) st accs stor)) =
      si.newPayloadRequest.executionPayload.stateRoot

/-- **No success without every gate**: the input decoded, its chain config is active, its
witness has at most 256 headers, and the library accepted the block that the payload
describes, on the state of the witness, from which the root of the payload was rebuilt. -/
theorem success_gates (L : Library) (hload : L.LoadsLittleEndian) (w : WordSize) {data : Bytes}
    {out : StatelessValidatorOutput} (hrun : runStatelessGuest L w data = .ok out)
    (hout : out.successfulValidation = true) : ∃ si block, PassesGates L w data si block := by
  obtain ⟨schema, si, hschema, hok, hvalid, x, hx⟩ := run_of_success hrun hout
  obtain ⟨-, -, -, -, -, -, -, hsame⟩ := input_of_valid w schema hok hvalid
  obtain ⟨hpresent, hnumber, htime⟩ := validateChainConfig_eq_true.mp hx.active
  obtain ⟨hchain, hnodes⟩ := x.chain_eq_witnessChain
  have hinserted := hx.inserted
  obtain ⟨accs, stor, haccs, hstor, hroot⟩ := computedStateRoot_eq_ok.mp hx.root
  subst hsame
  rw [Execution.result, hchain] at hinserted haccs hstor hroot
  rw [hnodes, rebuiltRoot] at hroot
  refine ⟨si, x.block, hschema, hok, hvalid, hpresent, hnumber, htime, hx.short,
    decodeTransactions_eq_some.mp x.decodes, ⟨_, rfl, ?_⟩, x.carriesOver hload, hinserted,
    ⟨_, accs, stor, rfl, haccs, hstor, hroot⟩⟩
  rw [List.forall₂_map_right_iff]
  exact List.forall₂_same.mpr fun _ _ => ⟨rfl, rfl, rfl, rfl⟩

end

/-- An input with items in its lists. -/
def amsterdamData : Bytes :=
  [0x15, 0x01] ++ serialize (inputType .amsterdam01 .gloas .flat) amsterdamBlock

theorem success_amsterdamData : Success sampleLibrary .bits32 amsterdamData := by decide +kernel

theorem success_gates_amsterdamData :
    ∃ si block, PassesGates sampleLibrary .bits32 amsterdamData si block := by
  obtain ⟨out, hrun, hout⟩ := success_iff.mp success_amsterdamData
  exact success_gates sampleLibrary toNat_leWord .bits32 hrun hout

/-! ### The header chain -/

section

variable (L : Library)

/-- Every header decodes, and its parent is the header before it. -/
def HeaderChain (headers : List Bytes) : Prop :=
  ∀ i, (h : i + 1 < headers.length) →
    (L.decodeHeader headers[i + 1]).1 = true ∧
      (L.decodeHeader headers[i + 1]).2.parentHash = L.keccak256 headers[i]

variable {L}

theorem headerChain_cons {prev header : Bytes} {headers : List Bytes} :
    HeaderChain L (prev :: header :: headers) ↔
      ((L.decodeHeader header).1 = true ∧
        (L.decodeHeader header).2.parentHash = L.keccak256 prev) ∧
      HeaderChain L (header :: headers) := by
  constructor
  · intro h
    exact ⟨h 0 (by simp), fun i hi => h (i + 1) (by simpa using hi)⟩
  · rintro ⟨hhead, htail⟩ i hi
    cases i with
    | zero => exact hhead
    | succ i => exact htail i (by simpa using hi)

/-- The run over these witness headers is not cut off by the header checks. -/
structure PassesHeaderChecks (L : Library) (si : SszStatelessInput) (headers : List Bytes) :
    Prop where
  short : si.witness.headers.length ≤ 256
  views : views si.witness.headers = .ok headers
  chained : headerChain L headers = true

/-- Past the header checks, the verdict is left to the execution. -/
theorem PassesHeaderChecks.guestVerdict {si : SszStatelessInput} {headers : List Bytes}
    (h : PassesHeaderChecks L si headers)
    (hactive : validateChainConfig si.chainConfig si.newPayloadRequest.executionPayload.blockNumber
      si.newPayloadRequest.executionPayload.timestamp = true) :
    guestVerdict L si = verdictOnHeaders L si headers := by
  have hlong : ¬256 < si.witness.headers.length := Nat.not_lt.mpr h.short
  unfold StatelessGuest.guestVerdict
  dsimp only
  rw [if_neg (by rw [hactive]; exact Bool.noConfusion), if_neg hlong, h.views]
  exact if_pos h.chained

variable (L) in
/-- The headers that are registered for execution. -/
def ancestors (headers : List Bytes) : List Bytes :=
  headers.filter fun header => header ≠ [] ∧ (L.decodeHeader header).1 = true

theorem foldl_registerAncestor (headers : List Bytes) (st : L.State) :
    headers.foldl (registerAncestor L) st =
      (ancestors L headers).foldl (fun st header =>
        L.insertHeader st (L.decodeHeader header).2 (L.headerHash (L.decodeHeader header).2)) st := by
  induction headers generalizing st with
  | nil => rfl
  | cons header headers ih =>
    rw [List.foldl_cons, ih, ancestors, ancestors]
    by_cases hempty : header = []
    · rw [List.filter_cons_of_neg (by simp [hempty]), registerAncestor, if_pos hempty]
    · by_cases hdecode : (L.decodeHeader header).1 = true
      · rw [List.filter_cons_of_pos (by simp [hempty, hdecode]), List.foldl_cons, registerAncestor,
          if_neg hempty, if_pos hdecode]
      · rw [List.filter_cons_of_neg (by simp [hdecode]), registerAncestor, if_neg hempty,
          if_neg hdecode]

/-- All headers of a chain but the first are registered. -/
theorem ancestors_cons {header : Bytes} {headers : List Bytes} (hempty : [] ∉ headers)
    (h : HeaderChain L (header :: headers)) :
    ancestors L (header :: headers) = headers ∨
      ancestors L (header :: headers) = header :: headers := by
  have htail : ancestors L headers = headers := by
    apply List.filter_eq_self.mpr
    intro x hx
    obtain ⟨i, hi, rfl⟩ := List.getElem_of_mem hx
    have hok := (h i (by simpa using hi)).1
    have hne : headers[i] ≠ [] := fun heq => hempty (heq ▸ hx)
    simpa [hne] using hok
  unfold ancestors at htail ⊢
  rw [List.filter_cons, htail]
  split
  · exact .inr rfl
  · exact .inl rfl

/-- The headers of a chain are linked. -/
theorem isChain_of_headerChain {headers : List Bytes} (h : HeaderChain L headers) :
    headers.IsChain fun prev header =>
      (L.decodeHeader header).2.parentHash = L.keccak256 prev := by
  rw [List.isChain_iff_getElem]
  intro i hi
  exact (h i hi).2

theorem linked_eq_true {prev header : Bytes} (hheader : header ≠ []) :
    linked L prev header = true ↔ (L.decodeHeader header).1 = true ∧
      (L.decodeHeader header).2.parentHash = headerHashOf L prev := by
  simp [linked, hheader]

/-- **The headers that pass the check form one chain exactly when none of them is empty**,
unless there is at most one. -/
theorem headerChain_links (hkeccak : L.keccak256 [] ≠ zeroVec 32)
    (hdecode : (L.decodeHeader []).1 = false) {headers : List Bytes}
    (h : headerChain L headers = true) :
    HeaderChain L headers ↔ headers.length ≤ 1 ∨ [] ∉ headers := by
  induction headers with
  | nil => simp [HeaderChain]
  | cons prev headers ih =>
    cases headers with
    | nil => simp [HeaderChain]
    | cons header headers =>
      rw [headerChain, Bool.and_eq_true] at h
      obtain ⟨hlink, hrest⟩ := h
      have hlen : ¬(prev :: header :: headers).length ≤ 1 := by simp
      rw [headerChain_cons, ih hrest]
      -- An empty header is not checked, and does not decode.
      by_cases hempty : header = []
      · subst hempty
        simp [hdecode]
      obtain ⟨hok, hparent⟩ := (linked_eq_true hempty).mp hlink
      by_cases hprev : prev = []
      · -- A header after an empty entry has a zero parent hash, and no empty parent.
        subst hprev
        have hzero : (L.decodeHeader header).2.parentHash = zeroVec 32 := by
          rw [hparent, headerHashOf, if_pos rfl]
        have hne : (L.decodeHeader header).2.parentHash ≠ L.keccak256 [] := by
          rw [hzero]
          exact hkeccak.symm
        simp [hne]
      · have hlinked : (L.decodeHeader header).2.parentHash = L.keccak256 prev := by
          rw [hparent, headerHashOf, if_neg hprev]
        -- The first link holds, so the chain is one exactly when the rest is.
        constructor
        · rintro ⟨-, hshort | hnone⟩
          · have hnil : headers = [] := by
              cases headers with
              | nil => rfl
              | cons _ _ => simp at hshort
            subst hnil
            exact .inr (by simp [Ne.symm hempty, Ne.symm hprev])
          · exact .inr (by simpa [Ne.symm hprev] using hnone)
        · rintro (hshort | hnone)
          · exact absurd hshort hlen
          · exact ⟨⟨hok, hlinked⟩, .inr fun hmem => hnone (List.mem_cons_of_mem _ hmem)⟩

/-- **Behind the header checks, the witness headers form one chain, and so do the ancestors
registered for execution, exactly when no entry is empty**, unless there is at most one. -/
theorem witnessHeaders_chain (L : Library) (hkeccak : L.keccak256 [] ≠ zeroVec 32)
    (hdecode : (L.decodeHeader []).1 = false) {si : SszStatelessInput} {headers : List Bytes}
    (h : PassesHeaderChecks L si headers) :
    (HeaderChain L headers ∧ (ancestors L headers).IsChain fun prev header =>
        (L.decodeHeader header).2.parentHash = L.keccak256 prev) ↔
      headers.length ≤ 1 ∨ [] ∉ headers := by
  have hlinks := headerChain_links hkeccak hdecode h.chained
  refine ⟨fun hchain => hlinks.mp hchain.1, fun hcond => ⟨hlinks.mpr hcond, ?_⟩⟩
  have hchain := isChain_of_headerChain (hlinks.mpr hcond)
  rcases hcond with hone | hnone
  · have hshort : (ancestors L headers).length ≤ 1 := (List.length_filter_le _ _).trans hone
    rw [List.isChain_iff_getElem]
    intro i hi
    exact absurd hi (by omega)
  · cases headers with
    | nil => exact .nil
    | cons header headers =>
      rcases ancestors_cons (fun hmem => hnone (List.mem_cons_of_mem _ hmem))
        (hlinks.mpr (.inr hnone)) with heq | heq
      · rw [heq]
        exact hchain.tail
      · rw [heq]
        exact hchain

end

/-- A header of the small library. -/
def sampleHeader (parentHash stateRoot : Bytes32) : Bytes := parentHash.toList ++ stateRoot.toList

/-- A header, and a child of it. -/
def twoHeaders : List Bytes :=
  [sampleHeader (zeroVec 32) (padTo 32 [1]),
    sampleHeader (sampleLibrary.keccak256 (sampleHeader (zeroVec 32) (padTo 32 [1]))) (zeroVec 32)]

theorem witnessHeaders_chain_twoHeaders :
    (HeaderChain sampleLibrary twoHeaders ∧
      (ancestors sampleLibrary twoHeaders).IsChain fun prev header =>
        (sampleLibrary.decodeHeader header).2.parentHash = sampleLibrary.keccak256 prev) ↔
      twoHeaders.length ≤ 1 ∨ [] ∉ twoHeaders := by
  have hpasses : PassesHeaderChecks sampleLibrary
      { witness := { headers := twoHeaders.map .ofBytes } } twoHeaders :=
    ⟨by decide, by decide, by decide +kernel⟩
  exact witnessHeaders_chain sampleLibrary (by decide) (by decide) hpasses

/-- A witness section with three header entries: an empty one stands between two headers that
have nothing to do with each other. -/
def emptyEntryWitness : Bytes :=
  leBytes 4 12 ++ leBytes 4 12 ++ leBytes 4 12 ++
    (leBytes 4 12 ++ leBytes 4 76 ++ leBytes 4 76 ++
      sampleHeader (padTo 32 [5]) (padTo 32 [1]) ++ sampleHeader (zeroVec 32) (padTo 32 [2]))

/-- The run over it goes on to execution and succeeds, but the headers are no chain. -/
theorem witnessHeaders_chain_counterexample :
    ¬∀ (L : Library) (w : WordSize) (data : Bytes) (schema : InputSchema) (si : SszStatelessInput)
        (headers : List Bytes), L.keccak256 [] ≠ zeroVec 32 → (L.decodeHeader []).1 = false →
      schemaOf data = some schema →
      (decodeStatelessInputOf w schema (.ofBytes (data.drop 2))).outcome = .ok si →
      Success L w data → PassesHeaderChecks L si headers →
      HeaderChain L headers ∧ (ancestors L headers).IsChain fun prev header =>
        (L.decodeHeader header).2.parentHash = L.keccak256 prev := by
  intro h
  have hchain := h sampleLibrary .bits32 (amsterdamInput [] emptyEntryWitness activeConfig)
    .amsterdam01 _
    [sampleHeader (padTo 32 [5]) (padTo 32 [1]), [], sampleHeader (zeroVec 32) (padTo 32 [2])]
    (by decide +kernel) (by decide +kernel) (by decide +kernel)
    (Dec.outcome_eq_ok.mpr ⟨by decide +kernel, rfl⟩) (by decide +kernel)
    ⟨by decide +kernel, views_eq_ok.mpr (by decide +kernel), by decide +kernel⟩
  have hempty := (hchain.1 0 (by decide)).1
  revert hempty
  decide

end StatelessGuest
