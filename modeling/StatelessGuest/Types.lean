import StatelessGuest.Ssz.Reader

/-!
# The containers of the stateless input

The structures of `stateless_types.hpp`.  Field order follows the source, since
it is the order of serialization and of the hash tree.  Fixed-size byte arrays
are vectors; byte lists are spans into the input.  Every field defaults to what
value-initialization leaves in it, because the decoders return partly filled
structures on short input.

## Main definitions

* the limits `maxExtraDataBytes`, … of the lists.
* `SszNewPayloadRequest`, `SszExecutionWitness`, `SszChainConfig` — the three
  sections of the input, and `SszStatelessInput`, which holds them.
-/

namespace StatelessGuest

open Ssz

/-! ### Limits -/

/-- `MAX_EXTRA_DATA_BYTES`. -/
abbrev maxExtraDataBytes : ℕ := 32
/-- `MAX_BYTES_PER_TRANSACTION`. -/
abbrev maxBytesPerTransaction : ℕ := 2 ^ 30
/-- `MAX_TRANSACTIONS_PER_PAYLOAD`. -/
abbrev maxTransactionsPerPayload : ℕ := 2 ^ 20
/-- `MAX_WITHDRAWALS_PER_PAYLOAD`. -/
abbrev maxWithdrawalsPerPayload : ℕ := 16
/-- `MAX_BLOB_COMMITMENTS_PER_BLOCK`. -/
abbrev maxBlobCommitmentsPerBlock : ℕ := 4096
/-- `MAX_DEPOSIT_REQUESTS_PER_PAYLOAD`. -/
abbrev maxDepositRequestsPerPayload : ℕ := 2 ^ 13
/-- `MAX_WITHDRAWAL_REQUESTS_PER_PAYLOAD`. -/
abbrev maxWithdrawalRequestsPerPayload : ℕ := 2 ^ 4
/-- `MAX_CONSOLIDATION_REQUESTS_PER_PAYLOAD`. -/
abbrev maxConsolidationRequestsPerPayload : ℕ := 2 ^ 1
/-- `MAX_BLOCK_ACCESS_LIST_BYTES`. -/
abbrev maxBlockAccessListBytes : ℕ := 2 ^ 24
/-- `MAX_WITNESS_NODES`. -/
abbrev maxWitnessNodes : ℕ := 2 ^ 20
/-- `MAX_WITNESS_CODES`. -/
abbrev maxWitnessCodes : ℕ := 2 ^ 16
/-- `MAX_WITNESS_HEADERS`. -/
abbrev maxWitnessHeaders : ℕ := 256
/-- `MAX_BYTES_PER_WITNESS_NODE`. -/
abbrev maxBytesPerWitnessNode : ℕ := 2 ^ 20
/-- `MAX_BYTES_PER_CODE`. -/
abbrev maxBytesPerCode : ℕ := 2 ^ 24
/-- `MAX_BYTES_PER_HEADER`. -/
abbrev maxBytesPerHeader : ℕ := 2 ^ 10
/-- `MAX_PUBLIC_KEYS`. -/
abbrev maxPublicKeys : ℕ := 2 ^ 20
/-- `MAX_BYTES_PER_PUBLIC_KEY`. -/
abbrev maxBytesPerPublicKey : ℕ := 65
/-- `MAX_BUILDER_DEPOSIT_REQUESTS_PER_PAYLOAD`. -/
abbrev maxBuilderDepositRequestsPerPayload : ℕ := 2 ^ 6
/-- `MAX_BUILDER_EXIT_REQUESTS_PER_PAYLOAD`. -/
abbrev maxBuilderExitRequestsPerPayload : ℕ := 2 ^ 4
/-- `BAL_HTR_LIMIT_AMSTERDAM01`. -/
abbrev balHtrLimitAmsterdam01 : ℕ := 2 ^ 30

/-! ### Fixed-size containers -/

/-- A withdrawal. -/
structure SszWithdrawal where
  index : BitVec 64
  validatorIndex : BitVec 64
  address : ByteVec 20
  amount : BitVec 64
  deriving DecidableEq

/-- A deposit request. -/
structure SszDepositRequest where
  pubkey : ByteVec 48
  withdrawalCredentials : Bytes32
  amount : BitVec 64
  signature : ByteVec 96
  index : BitVec 64
  deriving DecidableEq

/-- A withdrawal request. -/
structure SszWithdrawalRequest where
  sourceAddress : ByteVec 20
  validatorPubkey : ByteVec 48
  amount : BitVec 64
  deriving DecidableEq

/-- A consolidation request. -/
structure SszConsolidationRequest where
  sourceAddress : ByteVec 20
  sourcePubkey : ByteVec 48
  targetPubkey : ByteVec 48
  deriving DecidableEq

/-- A builder deposit request. -/
structure SszBuilderDepositRequest where
  pubkey : ByteVec 48
  withdrawalCredentials : Bytes32
  amount : BitVec 64
  signature : ByteVec 96
  deriving DecidableEq

/-- A builder exit request. -/
structure SszBuilderExitRequest where
  sourceAddress : ByteVec 20
  pubkey : ByteVec 48
  deriving DecidableEq

/-! ### The new payload request -/

/-- The execution requests: three lists under the legacy schema, five under the
Amsterdam one, each also as the raw bytes it was decoded from. -/
structure SszExecutionRequests where
  deposits : List SszDepositRequest := []
  withdrawals : List SszWithdrawalRequest := []
  consolidations : List SszConsolidationRequest := []
  builderDeposits : List SszBuilderDepositRequest := []
  builderExits : List SszBuilderExitRequest := []
  hasBuilderRequests : Bool := false
  rawDeposits : ByteSpan := .null
  rawWithdrawals : ByteSpan := .null
  rawConsolidations : ByteSpan := .null
  rawBuilderDeposits : ByteSpan := .null
  rawBuilderExits : ByteSpan := .null
  deriving DecidableEq

/-- The container shape of a payload. -/
inductive PayloadShape
  /-- 17 fields. -/
  | electraFulu
  /-- 19 fields: a block access list and a slot number are added. -/
  | gloas
  /-- No payload of this guest. -/
  | unsupported
  deriving DecidableEq, Repr

/-- The execution payload.  The shape defaults to the first enumerator, which is
what value-initialization leaves in it. -/
structure SszExecutionPayload where
  parentHash : Bytes32 := zeroVec 32
  feeRecipient : ByteVec 20 := zeroVec 20
  stateRoot : Bytes32 := zeroVec 32
  receiptsRoot : Bytes32 := zeroVec 32
  logsBloom : ByteVec 256 := zeroVec 256
  prevRandao : Bytes32 := zeroVec 32
  blockNumber : BitVec 64 := 0
  gasLimit : BitVec 64 := 0
  gasUsed : BitVec 64 := 0
  timestamp : BitVec 64 := 0
  extraData : ByteSpan := .null
  baseFeePerGas : Bytes32 := zeroVec 32
  blockHash : Bytes32 := zeroVec 32
  transactions : List ByteSpan := []
  withdrawals : List SszWithdrawal := []
  blobGasUsed : BitVec 64 := 0
  excessBlobGas : BitVec 64 := 0
  blockAccessList : ByteSpan := .null
  slotNumber : BitVec 64 := 0
  shape : PayloadShape := .electraFulu
  balHtrLimit : ℕ := maxBlockAccessListBytes
  deriving DecidableEq

/-- The request whose hash tree root the guest commits to. -/
structure SszNewPayloadRequest where
  executionPayload : SszExecutionPayload := {}
  versionedHashes : List Bytes32 := []
  parentBeaconBlockRoot : Bytes32 := zeroVec 32
  executionRequests : SszExecutionRequests := {}
  deriving DecidableEq

/-! ### Witness and chain config -/

/-- The execution witness. -/
structure SszExecutionWitness where
  state : List ByteSpan := []
  codes : List ByteSpan := []
  headers : List ByteSpan := []
  deriving DecidableEq

/-- `FORK_PRAGUE`. -/
abbrev forkPrague : BitVec 64 := 17
/-- `FORK_OSAKA`. -/
abbrev forkOsaka : BitVec 64 := 18
/-- `FORK_BPO1`. -/
abbrev forkBpo1 : BitVec 64 := 19
/-- `FORK_BPO2`. -/
abbrev forkBpo2 : BitVec 64 := 20
/-- `FORK_AMSTERDAM`. -/
abbrev forkAmsterdam : BitVec 64 := 24

/-- The blob parameters of a fork. -/
structure SszBlobSchedule where
  present : Bool := false
  target : BitVec 64 := 0
  max : BitVec 64 := 0
  baseFeeUpdateFraction : BitVec 64 := 0
  deriving DecidableEq

/-- The chain config, with the exact bytes it was decoded from in `raw`. -/
structure SszChainConfig where
  chainId : BitVec 64 := 0
  fork : BitVec 64 := 0
  hasActivationBlockNumber : Bool := false
  activationBlockNumber : BitVec 64 := 0
  hasActivationTimestamp : Bool := false
  activationTimestamp : BitVec 64 := 0
  blobSchedule : SszBlobSchedule := {}
  raw : ByteSpan := .null
  valid : Bool := false
  deriving DecidableEq

/-! ### The input -/

/-- The wire schema of an input. -/
inductive InputSchema
  /-- Schema `0x0001`: the payload shape depends on the fork. -/
  | legacy0001
  /-- Schema `0x1501`: the payload shape is fixed. -/
  | amsterdam01
  deriving DecidableEq, Repr

/-- The top-level input; `valid` is false where decoding failed. -/
structure SszStatelessInput where
  newPayloadRequest : SszNewPayloadRequest := {}
  witness : SszExecutionWitness := {}
  chainConfig : SszChainConfig := {}
  publicKeys : List ByteSpan := []
  schema : InputSchema := .legacy0001
  valid : Bool := false
  deriving DecidableEq

end StatelessGuest
