import StatelessGuest.Parent
import StatelessGuest.PostState

/-!
# The validator behind the guest

What the guest is for, without encodings, spans and searches: a block is proposed together
with a witness, and it is valid if its fork is active, the witness headers form one chain, one
of them is the parent, and the block is accepted on the state of the parent and leads to a
state whose root the payload names.

## Main definitions

* `Proposal` — all that the verdict depends on.
* `Commitment.root` — the root of a state, from what the tries over it hold.
* `Proposal.Valid` — the verdict.
* `Proposal.Anchored`, `Proposal.Tracked` — what the guest leaves unchecked, and what it relies
  on.
* `proposalOf` — what a decoded input proposes.
* `Proposal.ofVal` — what an SSZ value proposes.

## Main results

* `guestVerdict_iff` — **the guest answers true exactly to valid proposals.**
* `proposalOf_eq` — a decoded input proposes what the value it holds proposes.
-/

namespace StatelessGuest

open Ssz SszType

/-! ### Proposals -/

/-- Trie nodes, contract codes and headers. -/
structure Witness where
  state : List Bytes
  codes : List Bytes
  headers : List Bytes

/-- When a fork becomes active. -/
structure Activation where
  blockNumber : Option (BitVec 64)
  timestamp : Option (BitVec 64)

/-- The payload, as far as the block is made from it. -/
structure Payload where
  parentHash : Bytes32
  feeRecipient : Address
  stateRoot : Bytes32
  receiptsRoot : Bytes32
  logsBloom : ByteVec 256
  prevRandao : Bytes32
  blockNumber : BitVec 64
  gasLimit : BitVec 64
  gasUsed : BitVec 64
  timestamp : BitVec 64
  extraData : Bytes
  baseFeePerGas : BitVec 256
  transactions : List Bytes
  withdrawals : List Withdrawal
  blobGasUsed : BitVec 64
  excessBlobGas : BitVec 64
  slotNumber : Option (BitVec 64)

/-- All that the verdict depends on. -/
structure Proposal where
  schema : InputSchema
  chainId : BitVec 64
  fork : BitVec 64
  activation : Activation
  payload : Payload
  parentBeaconBlockRoot : Bytes32
  /-- The encoded lists of execution requests that are not empty. -/
  requests : List (FlatRequestType × Bytes)
  witness : Witness

/-! ### The verdict -/

/-- An activation value is present, and every one that is present has been reached. -/
structure Activation.Reached (a : Activation) (blockNumber timestamp : BitVec 64) : Prop where
  present : a.blockNumber.isSome ∨ a.timestamp.isSome
  blockNumber : ∀ n ∈ a.blockNumber, n ≤ blockNumber
  timestamp : ∀ t ∈ a.timestamp, t ≤ timestamp

/-- How states are committed to: the keys in use, and the roots of the tries. -/
structure Commitment where
  keys : KeysInUse
  storageHash : (keys.Slot → Option Bytes) → Bytes32
  accountHash : (keys.Address → Option Bytes) → Bytes32

/-- A fork that is on from the start, or never. -/
def fromStart (on : Prop) [Decidable on] : Option ℕ := if on then some 0 else none

section

variable (L : Library)

variable {L} in
/-- The root of a state. -/
def Commitment.root (c : Commitment) (world : World L) : Bytes32 :=
  c.accountHash (accountTrie c.keys c.storageHash world)

variable {L} in
/-- What a state holds. -/
def worldOf (st : L.State) : World L where
  account := L.readAccount st
  storage := L.readStorage st

/-- The requests hash, which only Amsterdam blocks have. -/
def Proposal.requestsHash (q : Proposal) : Option Bytes32 :=
  if q.schema = .amsterdam01 then some (L.requestsHash q.requests) else none

/-- The header of the block, before the roots of its body are known. -/
def Proposal.header (q : Proposal) : BlockHeader L.HeaderRest where
  parentHash := q.payload.parentHash
  ommersHash := L.emptyListHash
  beneficiary := q.payload.feeRecipient
  stateRoot := q.payload.stateRoot
  receiptsRoot := q.payload.receiptsRoot
  logsBloom := q.payload.logsBloom
  number := q.payload.blockNumber
  gasLimit := q.payload.gasLimit
  gasUsed := q.payload.gasUsed
  timestamp := q.payload.timestamp
  extraData := q.payload.extraData
  prevRandao := q.payload.prevRandao
  baseFeePerGas := some q.payload.baseFeePerGas
  blobGasUsed := some q.payload.blobGasUsed
  excessBlobGas := some q.payload.excessBlobGas
  parentBeaconBlockRoot := some q.parentBeaconBlockRoot
  requestsHash := q.requestsHash L
  slotNumber := q.payload.slotNumber
  rest := L.headerRest

/-- The block, with the roots that the library computes of its body. -/
def Proposal.block (q : Proposal) (transactions : List L.Tx) : Block L.HeaderRest L.Tx :=
  let body : Block L.HeaderRest L.Tx :=
    { header := q.header L, transactions, withdrawals := some q.payload.withdrawals }
  let block := { body with
    header := { body.header with transactionsRoot := L.transactionRoot body } }
  { block with header := { block.header with withdrawalsRoot := L.withdrawalsRoot block } }

/-- The rules of execution: all forks up to the one that is named.  The two schemas have
different blob parameters for Amsterdam. -/
def Proposal.rules (q : Proposal) : ChainConfig where
  chainId := q.chainId
  homesteadBlock := some 0
  tangerineWhistleBlock := some 0
  spuriousDragonBlock := some 0
  byzantiumBlock := some 0
  constantinopleBlock := some 0
  petersburgBlock := some 0
  istanbulBlock := some 0
  berlinBlock := some 0
  londonBlock := some 0
  terminalTotalDifficulty := some 0
  mergeNetsplitBlock := some 0
  shanghaiTime := some 0
  cancunTime := some 0
  pragueTime := some 0
  osakaTime := fromStart (forkOsaka ≤ q.fork)
  bpo1Time := fromStart (forkBpo1 ≤ q.fork)
  bpo2Time := fromStart (forkBpo2 ≤ q.fork)
  bpo3Time := fromStart (q.schema = .legacy0001 ∧ forkAmsterdam ≤ q.fork)
  bpo4Time := fromStart (q.schema = .legacy0001 ∧ forkAmsterdam ≤ q.fork)
  amsterdamTime := fromStart (q.schema = .amsterdam01)

/-- The trie nodes of the witness. -/
def Proposal.nodes (q : Proposal) : L.NodeStore := L.populateFromPreimages q.witness.state

/-- The state of the parent, with the contracts and the headers of the witness, in a chain that
begins with the first of its headers. -/
def Proposal.chain (q : Proposal) (parent : Bytes) : L.State :=
  let opened := L.witnessState (q.nodes L) (L.decodeHeader parent).2.stateRoot
  let coded := (q.witness.codes.filter fun code => code ≠ []).foldl
    (fun st code => L.updateAccountCode st (L.keccak256 code) code) opened
  let linked := q.witness.headers.foldl
    (fun st header => L.insertHeader st (L.decodeHeader header).2 (L.keccak256 header)) coded
  L.blockchain linked q.rules (L.decodeHeader (q.witness.headers.headD [])).2

/-- What the library answers to the block. -/
def Proposal.result (q : Proposal) (parent : Bytes) (transactions : List L.Tx) :
    ValidationResult × L.State :=
  L.insertBlock (q.chain L parent) q.rules (q.block L transactions)

/-- The transactions of the payload. -/
def Proposal.Transactions (q : Proposal) (transactions : List L.Tx) : Prop :=
  List.Forall₂ (fun b tx => L.decodeTransaction b = some tx) q.payload.transactions transactions

/-- A witness header is the parent of the block. -/
def Proposal.IsParent (q : Proposal) (parent : Bytes) : Prop :=
  parent ∈ q.witness.headers ∧ L.keccak256 parent = q.payload.parentHash

/-- **The proposal is valid.** -/
structure Proposal.Valid (c : Commitment) (q : Proposal) : Prop where
  active : q.activation.Reached q.payload.blockNumber q.payload.timestamp
  short : q.witness.headers.length ≤ 256
  decodes : ∀ header ∈ q.witness.headers, (L.decodeHeader header).1 = true
  chained : HeaderChain L q.witness.headers
  executes : ∃ parent transactions, q.IsParent L parent ∧ q.Transactions L transactions ∧
    (q.result L parent transactions).1 = .kOk ∧
    c.root (worldOf (q.result L parent transactions).2) = q.payload.stateRoot

/-- The first witness header decodes, none is empty, and no two have the same hash. -/
structure Proposal.Anchored (q : Proposal) : Prop where
  first : Decodes L (q.witness.headers.headD [])
  nonempty : [] ∉ q.witness.headers
  distinct : ∀ a ∈ q.witness.headers, ∀ b ∈ q.witness.headers,
    L.keccak256 a = L.keccak256 b → a = b

/-- Where the block is accepted on the state of its parent, the library has recorded how it
leads from a state with the root of the parent to the state after it, and this leaves no
account out. -/
def Proposal.Tracked (c : Commitment) (q : Proposal) : Prop :=
  ∀ parent transactions, q.IsParent L parent → q.Transactions L transactions →
    (q.result L parent transactions).1 = .kOk → ∃ accs stor pre,
      Executed c.keys (q.nodes L) (q.result L parent transactions).2 q.payload.blockNumber accs stor
        pre (worldOf (q.result L parent transactions).2) c.storageHash c.accountHash ∧
      c.root pre = (L.decodeHeader parent).2.stateRoot ∧
      ∀ addr, ¬Missed pre (worldOf (q.result L parent transactions).2) addr

end

/-! ### What an input proposes -/

/-- What a decoded payload contributes. -/
def payloadOf (ep : SszExecutionPayload) : Payload where
  parentHash := ep.parentHash
  feeRecipient := ep.feeRecipient
  stateRoot := ep.stateRoot
  receiptsRoot := ep.receiptsRoot
  logsBloom := ep.logsBloom
  prevRandao := ep.prevRandao
  blockNumber := ep.blockNumber
  gasLimit := ep.gasLimit
  gasUsed := ep.gasUsed
  timestamp := ep.timestamp
  extraData := ep.extraData.bytes
  baseFeePerGas := leWord ep.baseFeePerGas
  transactions := ep.transactions.map ByteSpan.bytes
  withdrawals := ep.withdrawals.map withdrawalOf
  blobGasUsed := ep.blobGasUsed
  excessBlobGas := ep.excessBlobGas
  slotNumber := if ep.shape = .gloas then some ep.slotNumber else none

/-- What a decoded input proposes. -/
def proposalOf (si : SszStatelessInput) : Proposal where
  schema := si.schema
  chainId := si.chainConfig.chainId
  fork := si.chainConfig.fork
  activation :=
    { blockNumber := if si.chainConfig.hasActivationBlockNumber then
        some si.chainConfig.activationBlockNumber else none
      timestamp := if si.chainConfig.hasActivationTimestamp then
        some si.chainConfig.activationTimestamp else none }
  payload := payloadOf si.newPayloadRequest.executionPayload
  parentBeaconBlockRoot := si.newPayloadRequest.parentBeaconBlockRoot
  requests := (flatRequests si.newPayloadRequest.executionRequests).map fun p => (p.1, p.2.bytes)
  witness :=
    { state := si.witness.state.map ByteSpan.bytes
      codes := si.witness.codes.map ByteSpan.bytes
      headers := si.witness.headers.map ByteSpan.bytes }

/-- The slot number is one of the two fields that only a Gloas payload has. -/
def slotOf (balLimit : ℕ) : (shape : PayloadShape) → Vals (payloadTail balLimit shape) →
    Option (BitVec 64)
  | .gloas, tail => some tail.2.1
  | .electraFulu, _ => none
  | .unsupported, _ => none

def withdrawalOfVal (x : withdrawalType.Val) : Withdrawal where
  index := x.1
  validatorIndex := x.2.1
  address := x.2.2.1
  amount := x.2.2.2.1

/-- What the value of a payload contributes. -/
def payloadOfVal {balLimit : ℕ} {shape : PayloadShape} :
    (executionPayloadType shape balLimit).Val → Payload
  | (parentHash, feeRecipient, stateRoot, receiptsRoot, logsBloom, prevRandao, blockNumber,
      gasLimit, gasUsed, timestamp, extraData, baseFeePerGas, _, transactions, withdrawals,
      blobGasUsed, excessBlobGas, tail) =>
    { parentHash, feeRecipient, stateRoot, receiptsRoot, logsBloom, prevRandao, blockNumber,
      gasLimit, gasUsed, timestamp, extraData, baseFeePerGas, transactions
      withdrawals := withdrawals.map withdrawalOfVal
      blobGasUsed, excessBlobGas
      slotNumber := slotOf balLimit shape tail }

/-- The encoded lists that only Amsterdam requests have. -/
def builderRequestsOf : (builderRequests : Bool) → Vals (builderRequestsTail builderRequests) →
    List (FlatRequestType × Bytes)
  | true, (builderDeposits, builderExits, _) =>
      [(.kBuilderDepositRequest, serialize
          (.list builderDepositRequestType maxBuilderDepositRequestsPerPayload) builderDeposits),
        (.kBuilderExitRequest, serialize
          (.list builderExitRequestType maxBuilderExitRequestsPerPayload) builderExits)]
  | false, _ => []

/-- The encoded lists of execution requests that are not empty. -/
def requestsOfVal {builderRequests : Bool} :
    (executionRequestsType builderRequests).Val → List (FlatRequestType × Bytes)
  | (deposits, withdrawals, consolidations, tail) =>
      List.filter (fun p : FlatRequestType × Bytes => p.2 ≠ [])
        ([(.kDepositRequest, serialize
            (.list depositRequestType maxDepositRequestsPerPayload) deposits),
          (.kWithdrawalRequest, serialize
            (.list withdrawalRequestType maxWithdrawalRequestsPerPayload) withdrawals),
          (.kConsolidationRequest, serialize
            (.list consolidationRequestType maxConsolidationRequestsPerPayload) consolidations)] ++
          builderRequestsOf builderRequests tail)

/-- Lists of at most one item. -/
def activationOfVal : forkActivationType.Val → Activation
  | (blockNumber, timestamp, _) => ⟨blockNumber.head?, timestamp.head?⟩

/-- The fork of a chain config, and its activation. -/
def forkOfVal : (schema : InputSchema) → (forkConfigType schema).Val → BitVec 64 × Activation
  | .legacy0001, (fork, activation, _) => (fork, activationOfVal activation)
  | .amsterdam01, (activation, _) => (forkAmsterdam, activationOfVal activation)

/-- What a value proposes. -/
def Proposal.ofVal (schema : InputSchema) {shape : PayloadShape} :
    (inputType schema shape .flat).Val → Proposal
  | ((payload, _, parentBeaconBlockRoot, requests, _), (state, codes, headers, _),
      (chainId, forkConfig, _), _) =>
    { schema, chainId
      fork := (forkOfVal schema forkConfig).1
      activation := (forkOfVal schema forkConfig).2
      payload := payloadOfVal payload
      parentBeaconBlockRoot
      requests := requestsOfVal requests
      witness := { state, codes, headers } }

/-! ### The guest -/

section

variable {L : Library}

theorem activation_reached {cc : SszChainConfig} {blockNumber timestamp : BitVec 64} :
    validateChainConfig cc blockNumber timestamp = true ↔
      Activation.Reached
        { blockNumber := if cc.hasActivationBlockNumber then some cc.activationBlockNumber else none
          timestamp := if cc.hasActivationTimestamp then some cc.activationTimestamp else none }
        blockNumber timestamp := by
  rw [validateChainConfig_eq_true]
  constructor
  · rintro ⟨hpresent, hnumber, htime⟩
    refine ⟨?_, ?_, ?_⟩
    · rcases hpresent with h | h
      · exact .inl (by rw [if_pos h]; rfl)
      · exact .inr (by rw [if_pos h]; rfl)
    · intro n hn
      obtain ⟨h, hn⟩ := Option.ite_none_right_eq_some.mp hn
      exact Option.some.inj hn ▸ hnumber h
    · intro t ht
      obtain ⟨h, ht⟩ := Option.ite_none_right_eq_some.mp ht
      exact Option.some.inj ht ▸ htime h
  · rintro ⟨hpresent, hnumber, htime⟩
    refine ⟨?_, fun h => hnumber _ (if_pos h), fun h => htime _ (if_pos h)⟩
    rcases hpresent with h | h
    · exact .inl (Option.isSome_ite.mp h)
    · exact .inr (Option.isSome_ite.mp h)

/-- Where no entry is empty, the header check is the chain. -/
theorem headerChain_iff {headers : List Bytes} (hempty : [] ∉ headers) :
    headerChain L headers = true ↔ HeaderChain L headers := by
  induction headers with
  | nil => simp [headerChain, HeaderChain]
  | cons prev headers ih =>
    cases headers with
    | nil => simp [headerChain, HeaderChain]
    | cons header headers =>
      have hprev : prev ≠ [] := fun heq => hempty (heq ▸ List.mem_cons_self)
      have hheader : header ≠ [] := fun heq =>
        hempty (heq ▸ List.mem_cons_of_mem _ List.mem_cons_self)
      rw [headerChain, Bool.and_eq_true, linked_eq_true hheader, headerHashOf, if_neg hprev,
        headerChain_cons, ih fun hmem => hempty (List.mem_cons_of_mem _ hmem)]

theorem decodes_of_chain {headers : List Bytes} (hchain : HeaderChain L headers)
    (hfirst : Decodes L (headers.headD [])) :
    ∀ header ∈ headers, (L.decodeHeader header).1 = true := by
  intro header hmem
  obtain ⟨i, hi, rfl⟩ := List.getElem_of_mem hmem
  cases i with
  | zero =>
    cases headers with
    | nil => exact absurd hi (Nat.not_lt_zero _)
    | cons head headers => exact hfirst.2
  | succ i => exact (hchain i hi).1

/-- Empty contracts are not registered. -/
theorem foldl_registerCode (codes : List Bytes) (st : L.State) :
    codes.foldl (registerCode L) st = (codes.filter fun code => code ≠ []).foldl
      (fun st code => L.updateAccountCode st (L.keccak256 code) code) st := by
  induction codes generalizing st with
  | nil => rfl
  | cons code codes ih =>
    rw [List.foldl_cons, ih]
    by_cases hcode : code = []
    · rw [registerCode, if_pos hcode, List.filter_cons_of_neg (by simp [hcode])]
    · rw [registerCode, if_neg hcode, List.filter_cons_of_pos (by simp [hcode]), List.foldl_cons]

variable {encode : BlockHeader L.HeaderRest → Bytes}

/-- Headers that decode are registered under the hashes of their encodings. -/
theorem foldl_registerAncestor_of_decodes (hr : HeaderRules L encode) {headers : List Bytes}
    (hempty : [] ∉ headers) (hdec : ∀ header ∈ headers, (L.decodeHeader header).1 = true)
    (st : L.State) : headers.foldl (registerAncestor L) st = headers.foldl
      (fun st header => L.insertHeader st (L.decodeHeader header).2 (L.keccak256 header)) st := by
  induction headers generalizing st with
  | nil => rfl
  | cons header headers ih =>
    rw [List.forall_mem_cons] at hdec
    have hne : header ≠ [] := fun heq => hempty (heq ▸ List.mem_cons_self)
    rw [List.foldl_cons, List.foldl_cons, registerAncestor, if_neg hne, if_pos hdec.1, hr.hash,
      hr.encode_decode _ hdec.1, ih (fun hmem => hempty (List.mem_cons_of_mem _ hmem)) hdec.2]

/-- The genesis header of an anchored proposal is its first witness header. -/
theorem Proposal.Anchored.genesis {q : Proposal} (h : q.Anchored L) (ep : SszExecutionPayload) :
    genesisHeader L q.witness.headers ep = (L.decodeHeader (q.witness.headers.headD [])).2 ∧
      ¬ForgedGenesis L q.witness.headers ep :=
  ⟨if_pos h.first.1, fun hforged => hforged.1 h.first⟩

/-- Nothing collides in an anchored proposal. -/
theorem Proposal.Anchored.noCollision (hr : HeaderRules L encode) {q : Proposal}
    (h : q.Anchored L) (ep : SszExecutionPayload) : NoCollision encode q.witness.headers ep := by
  have hhead : q.witness.headers.headD [] ∈ q.witness.headers := by
    cases hheaders : q.witness.headers with
    | nil => exact absurd (by rw [hheaders]; rfl) h.first.1
    | cons header headers => exact List.mem_cons_self
  have hmem : ∀ a ∈ encode (genesisHeader L q.witness.headers ep) :: q.witness.headers,
      a ∈ q.witness.headers := by
    intro a ha
    rcases List.mem_cons.mp ha with rfl | ha
    · rw [(h.genesis ep).1, hr.encode_decode _ h.first.2]
      exact hhead
    · exact ha
  intro a ha b hb
  exact h.distinct a (hmem a ha) b (hmem b hb)

/-- The headers of an execution are those of the proposal. -/
theorem Execution.headers_eq {si : SszStatelessInput} (x : Execution L si) :
    x.headers = (proposalOf si).witness.headers :=
  (views_eq_ok.mp x.views_headers).2.symm

/-- The block of an execution is the one that is proposed. -/
theorem Execution.block_eq (hload : L.LoadsLittleEndian) {si : SszStatelessInput}
    (x : Execution L si) : x.block = (proposalOf si).block L x.transactions := by
  obtain ⟨-, hextra⟩ := viewOf_eq_ok.mp x.view_extraData
  have hfee : L.loadUint256 si.newPayloadRequest.executionPayload.baseFeePerGas =
      leWord si.newPayloadRequest.executionPayload.baseFeePerGas :=
    BitVec.eq_of_toNat_eq ((hload _).trans (toNat_leWord _).symm)
  have hheader : payloadHeader L si.newPayloadRequest x.extraData x.requestsHash =
      (proposalOf si).header L := by
    rw [requestsHash_of_ok x.requests, ← hextra, payloadHeader, hfee]
    rfl
  rw [Execution.block, assembleBlock, hheader]
  rfl

/-- The state of an execution is that of the parent. -/
theorem Execution.chain_eq (hr : HeaderRules L encode) {si : SszStatelessInput}
    (x : Execution L si) (ha : (proposalOf si).Anchored L) (hchain : headerChain L x.headers = true)
    {parent : Bytes} (hparent : (proposalOf si).IsParent L parent) :
    x.chain = (proposalOf si).chain L parent := by
  obtain ⟨hmem, hhash⟩ := hparent
  rw [x.headers_eq] at hchain
  have hdec := decodes_of_chain ((headerChain_iff ha.nonempty).mp hchain) ha.first
  have hne : parent ≠ [] := fun heq => ha.nonempty (heq ▸ hmem)
  have hroot := preStateRoot_eq hmem ⟨hne, hdec parent hmem⟩ hhash
    fun a hmem' => ha.distinct a hmem' _ hmem
  rw [x.chain_eq_witnessChain.1, witnessChain, loadState, foldl_registerCode]
  change L.blockchain (List.foldl (registerAncestor L) _ (proposalOf si).witness.headers) _
    (genesisHeader L (proposalOf si).witness.headers _) = _
  rw [foldl_registerAncestor_of_decodes hr ha.nonempty hdec, (ha.genesis _).1]
  change L.blockchain (List.foldl _ (List.foldl _ (L.witnessState _
    (preStateRoot L (proposalOf si).witness.headers (proposalOf si).payload.parentHash)) _) _)
      _ _ = _
  rw [hroot]
  rfl

section

variable {si : SszStatelessInput}

theorem Execution.result_eq (hr : HeaderRules L encode) (hload : L.LoadsLittleEndian)
    (x : Execution L si) (ha : (proposalOf si).Anchored L) (hchain : headerChain L x.headers = true)
    {parent : Bytes} (hparent : (proposalOf si).IsParent L parent) :
    x.result = (proposalOf si).result L parent x.transactions := by
  rw [Execution.result, x.block_eq hload, x.chain_eq hr ha hchain hparent]
  rfl

theorem forall₂_bytes {spans : List ByteSpan} {txs : List L.Tx} :
    List.Forall₂ (fun b tx => L.decodeTransaction b = some tx) (spans.map ByteSpan.bytes) txs ↔
      List.Forall₂ (fun span tx => L.decodeTransaction span.bytes = some tx) spans txs :=
  List.forall₂_map_left_iff

theorem Execution.transactions_decode (x : Execution L si) :
    (proposalOf si).Transactions L x.transactions :=
  forall₂_bytes.mpr ((decodeTransactions_eq_some.mp x.decodes).imp fun _ _ => And.right)

/-- **The root rebuilt after an accepted block** is that of the state after it. -/
theorem Execution.computedRoot_eq (hr : HeaderRules L encode) (hload : L.LoadsLittleEndian)
    {c : Commitment} (x : Execution L si) (ha : (proposalOf si).Anchored L)
    (ht : (proposalOf si).Tracked L c) (hchain : headerChain L x.headers = true)
    (hok : x.result.1 = .kOk) :
    ∃ parent, (proposalOf si).IsParent L parent ∧ x.computedRoot =
      .ok (c.root (worldOf ((proposalOf si).result L parent x.transactions).2)) := by
  have hcoll := ha.noCollision hr si.newPayloadRequest.executionPayload
  have hforged := (ha.genesis si.newPayloadRequest.executionPayload).2
  rw [← x.headers_eq] at hcoll hforged
  -- The block is accepted only on top of a parent, which is a witness header.
  obtain ⟨parent, hmem, -, hhash, -, hprev⟩ := (authenticated_iff hr x hok hcoll).mpr hforged
  have hparent : (proposalOf si).IsParent L parent := ⟨x.headers_eq ▸ hmem, hhash⟩
  have hresult := x.result_eq hr hload ha hchain hparent
  obtain ⟨accs, stor, pre, hexecuted, hpre, hkept⟩ := ht parent x.transactions hparent
    x.transactions_decode (hresult ▸ hok)
  refine ⟨parent, hparent, ?_⟩
  rw [hresult] at hprev
  rw [Execution.computedRoot, x.chain_eq_witnessChain.2, hresult]
  have hroot := hexecuted.computedStateRoot_eq (hprev.trans hpre.symm)
  rw [hexecuted.rebuiltTrie_eq hkept] at hroot
  exact hroot

/-- An execution that succeeds is that of a valid proposal. -/
theorem Execution.Succeeds.valid (hr : HeaderRules L encode) (hload : L.LoadsLittleEndian)
    {c : Commitment} {x : Execution L si} (h : x.Succeeds) (ha : (proposalOf si).Anchored L)
    (ht : (proposalOf si).Tracked L c) : (proposalOf si).Valid L c := by
  obtain ⟨parent, hparent, hroot⟩ := x.computedRoot_eq hr hload ha ht h.chained h.inserted
  have hchain := h.chained
  rw [x.headers_eq, headerChain_iff ha.nonempty] at hchain
  have hresult := x.result_eq hr hload ha h.chained hparent
  refine ⟨activation_reached.mp h.active, ?_, decodes_of_chain hchain ha.first, hchain, parent,
    x.transactions, hparent, x.transactions_decode, hresult ▸ h.inserted,
    Except.ok.inj (hroot.symm.trans h.root)⟩
  rw [proposalOf, List.length_map]
  exact h.short

/-- What is read of a proposal lies inside the input, and its changes are recorded. -/
theorem executesInside_of_tracked {w : WordSize} (hr : HeaderRules L encode)
    (hload : L.LoadsLittleEndian) {c : Commitment} (hreads : ReadsInside w si)
    (ha : (proposalOf si).Anchored L) (ht : (proposalOf si).Tracked L c) (hadmitted : Admitted si) :
    ExecutesInside L si := by
  refine ⟨hreads.headers hadmitted, fun _ => ⟨hreads.state hadmitted, hreads.codes hadmitted,
    hreads.extraData hadmitted, viewsTransactions_of_inBounds (hreads.transactions hadmitted)⟩,
    fun _ _ => hreads.requests hadmitted, ?_⟩
  intro hchain x hok
  have hheaders : x.headers = si.witness.headers.map ByteSpan.bytes := x.headers_eq
  obtain ⟨_, -, hroot⟩ := x.computedRoot_eq hr hload ha ht (hheaders ▸ hchain) hok
  exact computedStateRoot_returns.mp ⟨_, hroot⟩

/-- A valid proposal is executed, as long as it can be read. -/
theorem Proposal.Valid.succeeds {w : WordSize} (hr : HeaderRules L encode)
    (hload : L.LoadsLittleEndian) {c : Commitment} (h : (proposalOf si).Valid L c)
    (hreads : ReadsInside w si) (ha : (proposalOf si).Anchored L)
    (ht : (proposalOf si).Tracked L c) : ∃ x : Execution L si, x.Succeeds := by
  have hactive := activation_reached.mpr h.active
  have hshort : si.witness.headers.length ≤ 256 := by
    have hlen := h.short
    rwa [proposalOf, List.length_map] at hlen
  have hadmitted : Admitted si := ⟨hactive, hshort⟩
  obtain ⟨parent, transactions, hparent, hdecoded, hok, hstate⟩ := h.executes
  obtain ⟨requestsHash, hhash⟩ := requestsHashOf_returns (L := L).mpr (hreads.requests hadmitted)
  have hdecodes : decodeTransactions L si.newPayloadRequest.executionPayload.transactions =
      .ok (some transactions) := by
    apply decodeTransactions_eq_some.mpr
    have hboth := forall₂_bytes.mp hdecoded
    rw [List.forall₂_iff_get] at hboth ⊢
    exact ⟨hboth.1, fun i hi hi' =>
      ⟨hreads.transactions hadmitted _ (List.get_mem _ _), hboth.2 i hi hi'⟩⟩
  obtain ⟨x, rfl⟩ : ∃ x : Execution L si, x.transactions = transactions :=
    ⟨⟨_, _, _, _, transactions, requestsHash, views_eq_ok.mpr ⟨hreads.headers hadmitted, rfl⟩,
      views_eq_ok.mpr ⟨hreads.state hadmitted, rfl⟩, views_eq_ok.mpr ⟨hreads.codes hadmitted, rfl⟩,
      viewOf_eq_ok.mpr ⟨hreads.extraData hadmitted, rfl⟩, hdecodes, hhash⟩, rfl⟩
  have hchain : headerChain L x.headers = true := by
    rw [x.headers_eq]
    exact (headerChain_iff ha.nonempty).mpr h.chained
  have hresult := x.result_eq hr hload ha hchain hparent
  have hinserted : x.result.1 = .kOk := by
    rw [hresult]
    exact hok
  obtain ⟨other, hother, hroot⟩ := x.computedRoot_eq hr hload ha ht hchain hinserted
  -- No other header has the hash of the parent.
  have hsame : other = parent :=
    ha.distinct _ hother.1 _ hparent.1 (hother.2.trans hparent.2.symm)
  subst hsame
  exact ⟨x, hactive, hshort, hchain, hinserted, hroot.trans (congrArg Except.ok hstate)⟩

/-- **The guest answers true exactly to valid proposals**, as long as it reads nothing
outside the input. -/
theorem guestVerdict_iff {w : WordSize} (hr : HeaderRules L encode) (hload : L.LoadsLittleEndian)
    {c : Commitment} (hreads : ReadsInside w si) (ha : (proposalOf si).Anchored L)
    (ht : (proposalOf si).Tracked L c) :
    ∃ ok, guestVerdict L si = .ok ok ∧ (ok = true ↔ (proposalOf si).Valid L c) := by
  obtain ⟨ok, hok⟩ := guestVerdict_returns.mpr (executesInside_of_tracked hr hload hreads ha ht)
  refine ⟨ok, hok, ?_⟩
  constructor
  · rintro rfl
    obtain ⟨x, hx⟩ := guestVerdict_eq_true.mp hok
    exact hx.valid hr hload ha ht
  · intro hvalid
    have htrue := guestVerdict_eq_true.mpr (hvalid.succeeds hr hload hreads ha ht)
    exact Except.ok.inj (hok.symm.trans htrue)

end

end

/-! ### Decoded inputs and values -/

/-- What a decoded payload contributes is what its value does. -/
theorem payloadOfVal_toVal {p : SszExecutionPayload} (balLimit : ℕ) :
    payloadOfVal (p.toVal p.shape balLimit) = payloadOf p := by
  have hslot : slotOf balLimit p.shape (p.tailVal balLimit p.shape) =
      if p.shape = .gloas then some p.slotNumber else none := by
    cases p.shape <;> rfl
  rw [SszExecutionPayload.toVal, payloadOfVal, hslot, payloadOf, List.map_map]
  rfl

/-- A span is empty when its bytes are. -/
theorem len_ne_zero_iff (s : ByteSpan) : s.len ≠ 0 ↔ s.bytes ≠ [] := by
  rw [← ByteSpan.length_bytes, ← List.length_pos_iff, Nat.pos_iff_ne_zero]

/-- Requests without builder lists have no raw ones either. -/
def SszExecutionRequests.Tidy (er : SszExecutionRequests) : Prop :=
  er.hasBuilderRequests = false → er.rawBuilderDeposits.bytes = [] ∧ er.rawBuilderExits.bytes = []

/-- The raw request lists are the encodings of the decoded ones. -/
theorem requestsOfVal_toVal {er : SszExecutionRequests} (h : RawAgrees er) (htidy : er.Tidy) :
    requestsOfVal (er.toVal er.hasBuilderRequests) =
      (flatRequests er).map fun p => (p.1, p.2.bytes) := by
  have hempty : (fun p : FlatRequestType × ByteSpan => decide (p.2.len ≠ 0)) =
      (fun p : FlatRequestType × Bytes => decide (p.2 ≠ [])) ∘ fun p => (p.1, p.2.bytes) :=
    funext fun p => decide_eq_decide.mpr (len_ne_zero_iff p.2)
  rw [flatRequests, hempty, ← List.filter_map]
  simp only [SszExecutionRequests.toVal, requestsOfVal, ← h.deposits, ← h.withdrawals,
    ← h.consolidations, List.map_cons, List.map_nil]
  cases hb : er.hasBuilderRequests with
  | true =>
    simp only [SszExecutionRequests.tailVal, builderRequestsOf, ← h.builderDeposits,
      ← h.builderExits]
    rfl
  | false =>
    obtain ⟨hdeposits, hexits⟩ := htidy hb
    simp only [builderRequestsOf, hdeposits, hexits, List.append_nil]
    -- The two lists that are missing are empty, and filtered out.
    simp [List.filter_cons]

theorem activationOfVal_activationVal (cc : SszChainConfig) :
    activationOfVal cc.activationVal =
      { blockNumber := if cc.hasActivationBlockNumber then some cc.activationBlockNumber else none
        timestamp := if cc.hasActivationTimestamp then some cc.activationTimestamp else none } := by
  unfold SszChainConfig.activationVal activationOfVal optional
  cases cc.hasActivationBlockNumber <;> cases cc.hasActivationTimestamp <;> rfl

/-- A decoded input has the layout of its schema. -/
structure FollowsSchema (schema : InputSchema) (shape : PayloadShape) (si : SszStatelessInput) :
    Prop where
  sameSchema : si.schema = schema
  shape : si.newPayloadRequest.executionPayload.shape = shape
  balHtrLimit : si.newPayloadRequest.executionPayload.balHtrLimit = schema.balLimit
  builderRequests : si.newPayloadRequest.executionRequests.hasBuilderRequests =
    schema.builderRequests
  tidy : si.newPayloadRequest.executionRequests.Tidy
  fork : schema = .amsterdam01 → si.chainConfig.fork = forkAmsterdam

theorem forkOfVal_forkVal {schema : InputSchema} {cc : SszChainConfig}
    (hfork : schema = .amsterdam01 → cc.fork = forkAmsterdam) :
    forkOfVal schema (cc.forkVal schema) = (cc.fork, activationOfVal cc.activationVal) := by
  cases schema with
  | legacy0001 => rfl
  | amsterdam01 => rw [hfork rfl]; rfl

/-- **A decoded input proposes what the value it holds proposes.** -/
theorem proposalOf_eq {schema : InputSchema} {shape : PayloadShape} {si : SszStatelessInput}
    {v : (inputType schema shape .flat).Val} (hlayout : FollowsSchema schema shape si)
    (hnpr : si.newPayloadRequest.toVal shape schema.builderRequests schema.balLimit = v.1)
    (hwit : si.witness.toVal = v.2.1) (hcc : si.chainConfig.toVal schema = v.2.2.1)
    (hraw : RawAgrees si.newPayloadRequest.executionRequests) :
    proposalOf si = Proposal.ofVal schema v := by
  obtain ⟨hschema, rfl, -, hbuilder, htidy, hfork⟩ := hlayout
  obtain ⟨r, wi, c, ks, _⟩ := v
  subst hnpr hwit hcc hschema
  have hrequests := requestsOfVal_toVal hraw htidy
  have hpayload := payloadOfVal_toVal (p := si.newPayloadRequest.executionPayload)
    si.schema.balLimit
  have hforkVal := forkOfVal_forkVal hfork
  simp only [SszNewPayloadRequest.toVal, SszExecutionWitness.toVal, SszChainConfig.toVal,
    Proposal.ofVal, hpayload, hforkVal, activationOfVal_activationVal]
  rw [← hbuilder, hrequests]
  rfl

end StatelessGuest
