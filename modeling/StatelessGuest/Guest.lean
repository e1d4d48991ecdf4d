import StatelessGuest.StateRoot
import StatelessGuest.Portable

/-!
# The guest

One run of the guest: it decodes the input, computes the root of the request, checks the
chain config and the witness headers, fills the state from the witness, assembles the
block, has it executed, and compares the rebuilt root with that of the payload.

## Main definitions

* `validateChainConfig`, `headerChain` — the gates before execution.
* `preStateRoot`, `loadState`, `genesisHeader` — what the block is executed on.
* `assembleBlock` — the block.
* `runStatelessGuest` — the run.
* `Execution` — what a run reads of a decoded input, up to the execution of its block.

## Main results

* `guestVerdict_eq_true` — what a true verdict has gone through.
* `run_of_success` — the same of a whole run.
-/

namespace StatelessGuest

open Ssz

/-! ### Views -/

/-- The bytes of a view that is handed to the library. -/
def viewOf (s : ByteSpan) : Except Fault Bytes :=
  if s.InBounds then .ok s.bytes else .error .outOfBounds

/-- The bytes of several views. -/
def views (spans : List ByteSpan) : Except Fault (List Bytes) :=
  if ∀ s ∈ spans, s.InBounds then .ok (spans.map ByteSpan.bytes) else .error .outOfBounds

theorem viewOf_eq_ok {s : ByteSpan} {b : Bytes} : viewOf s = .ok b ↔ s.InBounds ∧ s.bytes = b := by
  unfold viewOf
  split
  · rename_i h
    simp [h]
  · rename_i h
    simp [h]

theorem views_eq_ok {spans : List ByteSpan} {bs : List Bytes} :
    views spans = .ok bs ↔ (∀ s ∈ spans, s.InBounds) ∧ spans.map ByteSpan.bytes = bs := by
  unfold views
  split
  · rename_i h
    exact ⟨fun heq => ⟨h, Except.ok.inj heq⟩, fun heq => congrArg _ heq.2⟩
  · rename_i h
    exact ⟨fun heq => (by cases heq), fun heq => absurd heq.1 h⟩

/-! ### The gates -/

/-- `validate_chain_config`: an activation value is present, and every one that is present
has been reached. -/
def validateChainConfig (cc : SszChainConfig) (blockNumber timestamp : BitVec 64) : Bool :=
  if ¬cc.hasActivationBlockNumber ∧ ¬cc.hasActivationTimestamp then false
  else if cc.hasActivationBlockNumber ∧ blockNumber < cc.activationBlockNumber then false
  else if cc.hasActivationTimestamp ∧ timestamp < cc.activationTimestamp then false
  else true

section

variable (L : Library)

/-- The hash of a header entry; an empty one leaves zeros. -/
def headerHashOf (header : Bytes) : Bytes32 :=
  if header = [] then zeroVec 32 else L.keccak256 header

/-- The check of one entry against the one before it; empty entries are passed over. -/
def linked (prev header : Bytes) : Bool :=
  header = [] || ((L.decodeHeader header).1 &&
    (L.decodeHeader header).2.parentHash = headerHashOf L prev)

/-- The header chain check. -/
def headerChain : List Bytes → Bool
  | prev :: header :: headers => linked L prev header && headerChain (header :: headers)
  | _ => true

/-! ### The state -/

/-- The root in the witness header whose hash is the parent hash. -/
def preStateRoot (headers : List Bytes) (parentHash : Bytes32) : Bytes32 :=
  match headers.find? fun header => header ≠ [] ∧ headerHashOf L header = parentHash with
  | none => zeroVec 32
  | some header =>
    if (L.decodeHeader header).1 then (L.decodeHeader header).2.stateRoot else zeroVec 32

/-- Register a contract. -/
def registerCode (st : L.State) (code : Bytes) : L.State :=
  if code = [] then st else L.updateAccountCode st (L.keccak256 code) code

/-- Register an ancestor, if its header decodes. -/
def registerAncestor (st : L.State) (header : Bytes) : L.State :=
  if header = [] then st
  else if (L.decodeHeader header).1 then
    L.insertHeader st (L.decodeHeader header).2 (L.headerHash (L.decodeHeader header).2)
  else st

/-- The state that the witness describes. -/
def loadState (nodes : L.NodeStore) (headers codes : List Bytes) (parentHash : Bytes32) : L.State :=
  headers.foldl (registerAncestor L)
    (codes.foldl (registerCode L) (L.witnessState nodes (preStateRoot L headers parentHash)))

/-- The genesis header given to the library: whatever decoding the first witness header
leaves, or a header made up from the payload. -/
def genesisHeader (headers : List Bytes) (ep : SszExecutionPayload) : BlockHeader L.HeaderRest :=
  if headers.headD [] ≠ [] then (L.decodeHeader (headers.headD [])).2
  else
    { parentHash := ep.parentHash
      number := if ep.blockNumber > 0 then ep.blockNumber - 1 else 0
      rest := L.headerRest }

/-- The execution rules, from the chain config of the input. -/
def chainCfgOf (si : SszStatelessInput) : ChainConfig :=
  let fork := si.chainConfig.fork
  let legacyAmsterdam := si.schema = .legacy0001 ∧ fork ≥ forkAmsterdam
  { chainId := si.chainConfig.chainId
    homesteadBlock := some 0
    tangerineWhistleBlock := some 0
    spuriousDragonBlock := some 0
    byzantiumBlock := some 0
    constantinopleBlock := some 0
    petersburgBlock := some 0
    istanbulBlock := some 0
    berlinBlock := some 0
    londonBlock := some 0
    terminalTotalDifficulty := some 0
    mergeNetsplitBlock := some 0
    shanghaiTime := some 0
    cancunTime := some 0
    pragueTime := some 0
    osakaTime := if fork ≥ forkOsaka then some 0 else none
    bpo1Time := if fork ≥ forkBpo1 then some 0 else none
    bpo2Time := if fork ≥ forkBpo2 then some 0 else none
    bpo3Time := if legacyAmsterdam then some 0 else none
    bpo4Time := if legacyAmsterdam then some 0 else none
    amsterdamTime := if si.schema = .amsterdam01 then some 0 else none }

/-! ### The block -/

/-- The transactions, up to the first that does not decode. -/
def decodeTransactions : List ByteSpan → Except Fault (Option (List L.Tx))
  | [] => .ok (some [])
  | span :: spans => do
    let b ← viewOf span
    match L.decodeTransaction b with
    | none => .ok none
    | some tx => do
      let txs ← decodeTransactions spans
      .ok (txs.map fun txs => tx :: txs)

/-- The execution requests by type; empty lists are left out. -/
def flatRequests (er : SszExecutionRequests) : List (FlatRequestType × ByteSpan) :=
  [(.kDepositRequest, er.rawDeposits), (.kWithdrawalRequest, er.rawWithdrawals),
    (.kConsolidationRequest, er.rawConsolidations),
    (.kBuilderDepositRequest, er.rawBuilderDeposits),
    (.kBuilderExitRequest, er.rawBuilderExits)].filter fun p => p.2.len ≠ 0

/-- The requests hash, which only the Amsterdam schema has. -/
def requestsHashOf (si : SszStatelessInput) : Except Fault (Option Bytes32) :=
  if si.schema = .amsterdam01 then do
    let wanted := flatRequests si.newPayloadRequest.executionRequests
    let raws ← views (wanted.map Prod.snd)
    .ok (some (L.requestsHash ((wanted.map Prod.fst).zip raws)))
  else .ok none

/-- A withdrawal of the payload. -/
def withdrawalOf (sw : SszWithdrawal) : Withdrawal :=
  { index := sw.index, validatorIndex := sw.validatorIndex, address := sw.address,
    amount := sw.amount }

/-- The header fields that the payload provides. -/
def payloadHeader (r : SszNewPayloadRequest) (extraData : Bytes) (requestsHash : Option Bytes32) :
    BlockHeader L.HeaderRest :=
  let ep := r.executionPayload
  { parentHash := ep.parentHash
    beneficiary := ep.feeRecipient
    stateRoot := ep.stateRoot
    receiptsRoot := ep.receiptsRoot
    logsBloom := ep.logsBloom
    prevRandao := ep.prevRandao
    number := ep.blockNumber
    gasLimit := ep.gasLimit
    gasUsed := ep.gasUsed
    timestamp := ep.timestamp
    extraData := extraData
    baseFeePerGas := some (L.loadUint256 ep.baseFeePerGas)
    blobGasUsed := some ep.blobGasUsed
    excessBlobGas := some ep.excessBlobGas
    parentBeaconBlockRoot := some r.parentBeaconBlockRoot
    slotNumber := if ep.shape = .gloas then some ep.slotNumber else none
    requestsHash := requestsHash
    ommersHash := L.emptyListHash
    rest := L.headerRest }

/-- The block to be executed. -/
def assembleBlock (r : SszNewPayloadRequest) (extraData : Bytes) (transactions : List L.Tx)
    (requestsHash : Option Bytes32) : Block L.HeaderRest L.Tx :=
  let body : Block L.HeaderRest L.Tx :=
    { header := payloadHeader L r extraData requestsHash
      transactions
      withdrawals := some (r.executionPayload.withdrawals.map withdrawalOf) }
  let block := { body with
    header := { body.header with transactionsRoot := L.transactionRoot body } }
  { block with header := { block.header with withdrawalsRoot := L.withdrawalsRoot block } }

/-- The execution of the block, and whether it leads to the root of the payload. -/
def executeBlock (si : SszStatelessInput) (headers preimages codes : List Bytes)
    (block : Block L.HeaderRest L.Tx) : Except Fault Bool :=
  let ep := si.newPayloadRequest.executionPayload
  let nodes := L.populateFromPreimages preimages
  let chain := L.blockchain (loadState L nodes headers codes ep.parentHash) (chainCfgOf si)
    (genesisHeader L headers ep)
  let res := L.insertBlock chain (chainCfgOf si) block
  if res.1 = .kOk then do
    let root ← computedStateRoot L nodes res.2 block.header.number block.header.parentHash
    .ok (root = block.header.stateRoot)
  else .ok false

/-! ### The run -/

/-- The part of the run after the header checks. -/
def verdictOnHeaders (si : SszStatelessInput) (headers : List Bytes) : Except Fault Bool := do
  let preimages ← views si.witness.state
  let codes ← views si.witness.codes
  let extraData ← viewOf si.newPayloadRequest.executionPayload.extraData
  let txs ← decodeTransactions L si.newPayloadRequest.executionPayload.transactions
  match txs with
  | none => .ok false
  | some transactions => do
    let requestsHash ← requestsHashOf L si
    executeBlock L si headers preimages codes
      (assembleBlock L si.newPayloadRequest extraData transactions requestsHash)

/-- The part of the run after the root has been computed. -/
def guestVerdict (si : SszStatelessInput) : Except Fault Bool :=
  let ep := si.newPayloadRequest.executionPayload
  if validateChainConfig si.chainConfig ep.blockNumber ep.timestamp = false then .ok false
  else if 256 < si.witness.headers.length then .ok false
  else do
    let headers ← views si.witness.headers
    if headerChain L headers then verdictOnHeaders L si headers else .ok false

end

/-- `kDefaultChainConfigSsz` -/
def defaultChainConfigSsz : Bytes :=
  [0, 0, 0, 0, 0, 0, 0, 0, 12, 0, 0, 0, 0, 0, 0, 0, 0, 0, 0, 0, 16, 0, 0, 0, 24, 0, 0, 0,
    8, 0, 0, 0, 8, 0, 0, 0]

/-- `kDefaultChainConfigSszAmsterdam` -/
def defaultChainConfigSszAmsterdam : Bytes :=
  [0, 0, 0, 0, 0, 0, 0, 0, 12, 0, 0, 0, 4, 0, 0, 0, 8, 0, 0, 0, 8, 0, 0, 0]

/-- The default chain config of a schema. -/
def defaultChainConfigOf : InputSchema → Bytes
  | .legacy0001 => defaultChainConfigSsz
  | .amsterdam01 => defaultChainConfigSszAmsterdam

/-- `default_failure_output` and `default_failure_output_amsterdam` -/
def defaultFailureOutput (schema : InputSchema) : StatelessValidatorOutput :=
  { chainConfigSsz := .ofBytes (defaultChainConfigOf schema) }

/-- The schema that the first two bytes name, as a big-endian number. -/
def schemaOf (data : Bytes) : Option InputSchema :=
  if data.length < 2 then none
  else
    let schemaId := (data.getD 0 0).toNat * 256 + (data.getD 1 0).toNat
    if schemaId = 0x0001 then some .legacy0001
    else if schemaId = 0x1501 then some .amsterdam01
    else none

/-- `run_stateless_guest` after decoding. -/
def runDecoded (L : Library) (w : WordSize) (schema : InputSchema) (si : SszStatelessInput) :
    Except Fault StatelessValidatorOutput :=
  if si.valid = false then .ok (defaultFailureOutput schema)
  else do
    let root ← htrNewPayloadRequest L.sha256 w si.newPayloadRequest {}
    let ok ← guestVerdict L si
    .ok { newPayloadRequestRoot := root.1, successfulValidation := ok,
          chainConfigSsz := si.chainConfig.raw }

/-- `run_stateless_guest` -/
def runStatelessGuest (L : Library) (w : WordSize) (data : Bytes) :
    Except Fault StatelessValidatorOutput :=
  match schemaOf data with
  | none => .ok (defaultFailureOutput .amsterdam01)
  | some schema => do
    let si ← (decodeStatelessInputOf w schema (.ofBytes (data.drop 2))).outcome
    runDecoded L w schema si

/-! ### What a run goes through -/

section

variable {L : Library}

theorem bind_eq_ok {α β : Type} {m : Except Fault α} {f : α → Except Fault β} {b : β} :
    m >>= f = .ok b ↔ ∃ a, m = .ok a ∧ f a = .ok b := by
  cases m with
  | error e => exact ⟨fun h => (by cases h), fun ⟨_, h, _⟩ => (by cases h)⟩
  | ok a => exact ⟨fun h => ⟨a, rfl, h⟩, fun ⟨_, h, hf⟩ => by cases h; exact hf⟩

/-- The transactions that decoded, one for each span. -/
theorem decodeTransactions_eq_some {spans : List ByteSpan} {txs : List L.Tx} :
    decodeTransactions L spans = .ok (some txs) ↔
      List.Forall₂ (fun span tx => span.InBounds ∧ L.decodeTransaction span.bytes = some tx)
        spans txs := by
  induction spans generalizing txs with
  | nil =>
    rw [decodeTransactions, List.forall₂_nil_left_iff]
    exact ⟨fun h => (Option.some.inj (Except.ok.inj h)).symm, fun h => by rw [h]⟩
  | cons span spans ih =>
    rw [decodeTransactions, bind_eq_ok]
    constructor
    · rintro ⟨b, hview, hrest⟩
      obtain ⟨hin, rfl⟩ := viewOf_eq_ok.mp hview
      -- The first transaction that does not decode ends the loop without a list.
      cases htx : L.decodeTransaction span.bytes with
      | none =>
        rw [htx] at hrest
        cases hrest
      | some tx =>
        rw [htx] at hrest
        obtain ⟨ts, hts, heq⟩ := bind_eq_ok.mp hrest
        cases ts with
        | none => cases heq
        | some ts =>
          cases heq
          exact .cons ⟨hin, htx⟩ (ih.mp hts)
    · intro h
      cases h with
      | cons hhead htail =>
        refine ⟨_, viewOf_eq_ok.mpr ⟨hhead.1, rfl⟩, ?_⟩
        rw [hhead.2]
        exact bind_eq_ok.mpr ⟨_, ih.mpr htail, rfl⟩

variable (L) in
/-- What a run reads of a decoded input up to the execution of its block. -/
structure Execution (si : SszStatelessInput) where
  headers : List Bytes
  preimages : List Bytes
  codes : List Bytes
  extraData : Bytes
  transactions : List L.Tx
  requestsHash : Option Bytes32
  views_headers : views si.witness.headers = .ok headers
  views_state : views si.witness.state = .ok preimages
  views_codes : views si.witness.codes = .ok codes
  view_extraData : viewOf si.newPayloadRequest.executionPayload.extraData = .ok extraData
  decodes : decodeTransactions L si.newPayloadRequest.executionPayload.transactions =
    .ok (some transactions)
  requests : requestsHashOf L si = .ok requestsHash

/-- The block of an execution. -/
def Execution.block {si : SszStatelessInput} (x : Execution L si) : Block L.HeaderRest L.Tx :=
  assembleBlock L si.newPayloadRequest x.extraData x.transactions x.requestsHash

/-- The state that the block is inserted into. -/
def Execution.chain {si : SszStatelessInput} (x : Execution L si) : L.State :=
  L.blockchain (loadState L (L.populateFromPreimages x.preimages) x.headers x.codes
      si.newPayloadRequest.executionPayload.parentHash)
    (chainCfgOf si) (genesisHeader L x.headers si.newPayloadRequest.executionPayload)

/-- What the library answers to the block. -/
def Execution.result {si : SszStatelessInput} (x : Execution L si) : ValidationResult × L.State :=
  L.insertBlock x.chain (chainCfgOf si) x.block

/-- The root rebuilt after the block. -/
def Execution.computedRoot {si : SszStatelessInput} (x : Execution L si) : Except Fault Bytes32 :=
  computedStateRoot L (L.populateFromPreimages x.preimages) x.result.2
    si.newPayloadRequest.executionPayload.blockNumber
    si.newPayloadRequest.executionPayload.parentHash

/-- The execution succeeds. -/
structure Execution.Succeeds {si : SszStatelessInput} (x : Execution L si) : Prop where
  active : validateChainConfig si.chainConfig si.newPayloadRequest.executionPayload.blockNumber
    si.newPayloadRequest.executionPayload.timestamp = true
  short : si.witness.headers.length ≤ 256
  chained : headerChain L x.headers = true
  inserted : x.result.1 = .kOk
  root : x.computedRoot = .ok si.newPayloadRequest.executionPayload.stateRoot

/-- The last step answers whether the block is accepted and leads to the root of the payload. -/
theorem Execution.executeBlock_eq {si : SszStatelessInput} (x : Execution L si) :
    executeBlock L si x.headers x.preimages x.codes x.block =
      if x.result.1 = .kOk then do
        let root ← x.computedRoot
        .ok (decide (root = si.newPayloadRequest.executionPayload.stateRoot))
      else .ok false := rfl

theorem Execution.executeBlock_eq_true {si : SszStatelessInput} {x : Execution L si} :
    executeBlock L si x.headers x.preimages x.codes x.block = .ok true ↔ x.result.1 = .kOk ∧
      x.computedRoot = .ok si.newPayloadRequest.executionPayload.stateRoot := by
  rw [x.executeBlock_eq]
  split
  · rename_i hok
    rw [bind_eq_ok]
    constructor
    · rintro ⟨root, hroot, heq⟩
      rw [hroot, of_decide_eq_true (Except.ok.inj heq)]
      exact ⟨hok, rfl⟩
    · rintro ⟨-, hroot⟩
      exact ⟨_, hroot, congrArg Except.ok (decide_eq_true rfl)⟩
  · rename_i hfailed
    exact ⟨fun h => (by cases h), fun h => absurd h.1 hfailed⟩

/-- Behind the gates, the verdict is left to the execution. -/
theorem Execution.guestVerdict_eq {si : SszStatelessInput} (x : Execution L si)
    (hactive : validateChainConfig si.chainConfig si.newPayloadRequest.executionPayload.blockNumber
      si.newPayloadRequest.executionPayload.timestamp = true)
    (hshort : si.witness.headers.length ≤ 256) (hchain : headerChain L x.headers = true) :
    guestVerdict L si = executeBlock L si x.headers x.preimages x.codes x.block := by
  unfold guestVerdict
  dsimp only
  rw [if_neg (by rw [hactive]; exact Bool.noConfusion), if_neg (Nat.not_lt.mpr hshort),
    x.views_headers]
  apply (if_pos hchain).trans
  rw [verdictOnHeaders, x.views_state, x.views_codes, x.view_extraData, x.decodes]
  show (requestsHashOf L si >>= fun requestsHash => _) = _
  rw [x.requests]
  rfl

/-- A true verdict is that of an execution that succeeds. -/
theorem guestVerdict_eq_true {si : SszStatelessInput} :
    guestVerdict L si = .ok true ↔ ∃ x : Execution L si, x.Succeeds := by
  constructor
  · intro h
    unfold guestVerdict at h
    dsimp only at h
    -- Each early return answers false, so a true verdict has passed all of them.
    split at h
    · cases h
    rename_i hactive
    split at h
    · cases h
    rename_i hshort
    obtain ⟨headers, hheaders, h⟩ := bind_eq_ok.mp h
    split at h
    swap
    · cases h
    rename_i hchain
    unfold verdictOnHeaders at h
    -- What the library is called with is viewed step by step.
    obtain ⟨preimages, hstate, h⟩ := bind_eq_ok.mp h
    obtain ⟨codes, hcodes, h⟩ := bind_eq_ok.mp h
    obtain ⟨extraData, hextra, h⟩ := bind_eq_ok.mp h
    obtain ⟨txs, htxs, h⟩ := bind_eq_ok.mp h
    cases txs with
    | none => cases h
    | some txs =>
      obtain ⟨requestsHash, hreq, h⟩ := bind_eq_ok.mp h
      let x : Execution L si := ⟨headers, preimages, codes, extraData, txs, requestsHash, hheaders,
        hstate, hcodes, hextra, htxs, hreq⟩
      obtain ⟨hinserted, hroot⟩ := Execution.executeBlock_eq_true (x := x).mp h
      exact ⟨x, eq_true_of_ne_false hactive, Nat.not_lt.mp hshort, hchain, hinserted, hroot⟩
  · rintro ⟨x, hactive, hshort, hchain, hinserted, hroot⟩
    have hexec := Execution.executeBlock_eq_true.mpr ⟨hinserted, hroot⟩
    exact (x.guestVerdict_eq hactive hshort hchain).trans hexec

/-- **A successful run** decodes its input, and executes it successfully. -/
theorem run_of_success {w : WordSize} {data : Bytes} {out : StatelessValidatorOutput}
    (hrun : runStatelessGuest L w data = .ok out) (hout : out.successfulValidation = true) :
    ∃ schema si, schemaOf data = some schema ∧
      (decodeStatelessInputOf w schema (.ofBytes (data.drop 2))).outcome = .ok si ∧
      si.valid = true ∧ ∃ x : Execution L si, x.Succeeds := by
  unfold runStatelessGuest at hrun
  split at hrun
  · cases hrun
    cases hout
  · rename_i schema hschema
    obtain ⟨si, hsi, hrun⟩ := bind_eq_ok.mp hrun
    unfold runDecoded at hrun
    split at hrun
    · cases hrun
      cases hout
    · rename_i hvalid
      obtain ⟨root, -, hrun⟩ := bind_eq_ok.mp hrun
      obtain ⟨ok, hok, hrun⟩ := bind_eq_ok.mp hrun
      cases hrun
      have htrue : ok = true := hout
      subst htrue
      exact ⟨schema, si, hschema, hsi, eq_true_of_ne_false hvalid, guestVerdict_eq_true.mp hok⟩

/-- The run reports success. -/
def Success (L : Library) (w : WordSize) (data : Bytes) : Prop :=
  (runStatelessGuest L w data).toOption.map StatelessValidatorOutput.successfulValidation = some true

instance (w : WordSize) (data : Bytes) : Decidable (Success L w data) :=
  inferInstanceAs (Decidable (_ = _))

theorem success_iff {w : WordSize} {data : Bytes} : Success L w data ↔
    ∃ out, runStatelessGuest L w data = .ok out ∧ out.successfulValidation = true := by
  unfold Success
  cases runStatelessGuest L w data with
  | error e => simp [Except.toOption]
  | ok out => simp [Except.toOption]

end

/-! ### Inputs -/

/-- An Amsterdam input of three sections, without public keys. -/
def amsterdamInput (request witness config : Bytes) : Bytes :=
  [0x15, 0x01] ++ leBytes 4 16 ++ leBytes 4 (16 + request.length) ++
    leBytes 4 (16 + request.length + witness.length) ++
    leBytes 4 (16 + request.length + witness.length + config.length) ++ request ++ witness ++ config

/-- A chain config that is active from block zero on. -/
def activeConfig : Bytes :=
  [1, 0, 0, 0, 0, 0, 0, 0, 12, 0, 0, 0, 4, 0, 0, 0, 8, 0, 0, 0, 16, 0, 0, 0] ++
    List.replicate 8 0

end StatelessGuest
