import StatelessGuest.Ssz.Codec
import StatelessGuest.Types

/-!
# The SSZ types of the input

The container types the wire schemas stand for, and the value each decoded
structure denotes.  A span denotes its bytes, and an optional number of the
chain config is a list of at most one item.

## Main definitions

* `newPayloadRequestType`, `witnessType`, `chainConfigType`, `inputType` — the types.
* `toVal` — the value of a decoded structure.
* `Denotes` — the value of a decoded input.
-/

namespace StatelessGuest

open Ssz

/-! ### Fixed-size containers -/

/-- A 64-bit integer. -/
abbrev u64 : SszType := .uint 8

/-- `Withdrawal`. -/
abbrev withdrawalType : SszType := .container [u64, u64, .bytes 20, u64]

/-- `DepositRequest`. -/
abbrev depositRequestType : SszType :=
  .container [.bytes 48, .bytes 32, u64, .bytes 96, u64]

/-- `WithdrawalRequest`. -/
abbrev withdrawalRequestType : SszType := .container [.bytes 20, .bytes 48, u64]

/-- `ConsolidationRequest`. -/
abbrev consolidationRequestType : SszType := .container [.bytes 20, .bytes 48, .bytes 48]

/-- `BuilderDepositRequest`. -/
abbrev builderDepositRequestType : SszType := .container [.bytes 48, .bytes 32, u64, .bytes 96]

/-- `BuilderExitRequest`. -/
abbrev builderExitRequestType : SszType := .container [.bytes 20, .bytes 48]

def SszWithdrawal.toVal (x : SszWithdrawal) : withdrawalType.Val :=
  (x.index, x.validatorIndex, x.address, x.amount, ())

def SszDepositRequest.toVal (x : SszDepositRequest) : depositRequestType.Val :=
  (x.pubkey, x.withdrawalCredentials, x.amount, x.signature, x.index, ())

def SszWithdrawalRequest.toVal (x : SszWithdrawalRequest) : withdrawalRequestType.Val :=
  (x.sourceAddress, x.validatorPubkey, x.amount, ())

def SszConsolidationRequest.toVal (x : SszConsolidationRequest) : consolidationRequestType.Val :=
  (x.sourceAddress, x.sourcePubkey, x.targetPubkey, ())

def SszBuilderDepositRequest.toVal (x : SszBuilderDepositRequest) :
    builderDepositRequestType.Val :=
  (x.pubkey, x.withdrawalCredentials, x.amount, x.signature, ())

def SszBuilderExitRequest.toVal (x : SszBuilderExitRequest) : builderExitRequestType.Val :=
  (x.sourceAddress, x.pubkey, ())

/-! ### The new payload request -/

/-- The two lists only the Amsterdam requests have. -/
abbrev builderRequestsTail : Bool → List SszType
  | true => [.list builderDepositRequestType maxBuilderDepositRequestsPerPayload,
      .list builderExitRequestType maxBuilderExitRequestsPerPayload]
  | false => []

/-- `ExecutionRequests`, with three lists or with five. -/
abbrev executionRequestsType (builderRequests : Bool) : SszType :=
  .container (.list depositRequestType maxDepositRequestsPerPayload ::
    .list withdrawalRequestType maxWithdrawalRequestsPerPayload ::
    .list consolidationRequestType maxConsolidationRequestsPerPayload ::
    builderRequestsTail builderRequests)

/-- The two fields only the Gloas payload has. -/
abbrev payloadTail (balLimit : ℕ) : PayloadShape → List SszType
  | .gloas => [.byteList balLimit, u64]
  | _ => []

/-- The transactions of a payload. -/
abbrev transactionsType : SszType :=
  .list (.byteList maxBytesPerTransaction) maxTransactionsPerPayload

/-- `ExecutionPayload`, with 17 fields or with 19. -/
abbrev executionPayloadType (shape : PayloadShape) (balLimit : ℕ) : SszType :=
  .container (.bytes 32 :: .bytes 20 :: .bytes 32 :: .bytes 32 :: .bytes 256 :: .bytes 32 ::
    u64 :: u64 :: u64 :: u64 :: .byteList maxExtraDataBytes :: .uint 32 :: .bytes 32 ::
    transactionsType :: .list withdrawalType maxWithdrawalsPerPayload :: u64 :: u64 ::
    payloadTail balLimit shape)

/-- `NewPayloadRequest`. -/
abbrev newPayloadRequestType (shape : PayloadShape) (builderRequests : Bool) (balLimit : ℕ) :
    SszType :=
  .container [executionPayloadType shape balLimit,
    .list (.bytes 32) maxBlobCommitmentsPerBlock, .bytes 32, executionRequestsType builderRequests]

def SszExecutionRequests.tailVal (x : SszExecutionRequests) :
    (builderRequests : Bool) → SszType.Vals (builderRequestsTail builderRequests)
  | true => (x.builderDeposits.map SszBuilderDepositRequest.toVal,
      x.builderExits.map SszBuilderExitRequest.toVal, ())
  | false => ()

def SszExecutionRequests.toVal (x : SszExecutionRequests) (builderRequests : Bool) :
    (executionRequestsType builderRequests).Val :=
  (x.deposits.map SszDepositRequest.toVal, x.withdrawals.map SszWithdrawalRequest.toVal,
    x.consolidations.map SszConsolidationRequest.toVal, x.tailVal builderRequests)

def SszExecutionPayload.tailVal (x : SszExecutionPayload) (balLimit : ℕ) :
    (shape : PayloadShape) → SszType.Vals (payloadTail balLimit shape)
  | .gloas => (x.blockAccessList.bytes, x.slotNumber, ())
  | .electraFulu => ()
  | .unsupported => ()

def SszExecutionPayload.toVal (x : SszExecutionPayload) (shape : PayloadShape) (balLimit : ℕ) :
    (executionPayloadType shape balLimit).Val :=
  (x.parentHash, x.feeRecipient, x.stateRoot, x.receiptsRoot, x.logsBloom, x.prevRandao,
    x.blockNumber, x.gasLimit, x.gasUsed, x.timestamp, x.extraData.bytes,
    BitVec.ofNat 256 (leNat x.baseFeePerGas.toList), x.blockHash,
    x.transactions.map ByteSpan.bytes, x.withdrawals.map SszWithdrawal.toVal, x.blobGasUsed,
    x.excessBlobGas, x.tailVal balLimit shape)

def SszNewPayloadRequest.toVal (x : SszNewPayloadRequest) (shape : PayloadShape)
    (builderRequests : Bool) (balLimit : ℕ) :
    (newPayloadRequestType shape builderRequests balLimit).Val :=
  (x.executionPayload.toVal shape balLimit, x.versionedHashes, x.parentBeaconBlockRoot,
    x.executionRequests.toVal builderRequests, ())

/-! ### Witness and chain config -/

/-- `ExecutionWitness`. -/
abbrev witnessType : SszType :=
  .container [.list (.byteList maxBytesPerWitnessNode) maxWitnessNodes,
    .list (.byteList maxBytesPerCode) maxWitnessCodes,
    .list (.byteList maxBytesPerHeader) maxWitnessHeaders]

def SszExecutionWitness.toVal (x : SszExecutionWitness) : witnessType.Val :=
  (x.state.map ByteSpan.bytes, x.codes.map ByteSpan.bytes, x.headers.map ByteSpan.bytes, ())

/-- `ForkActivation`. -/
abbrev forkActivationType : SszType := .container [.list u64 1, .list u64 1]

/-- `BlobSchedule`. -/
abbrev blobScheduleType : SszType := .container [u64, u64, u64]

/-- `ForkConfig` of each schema. -/
abbrev forkConfigType : InputSchema → SszType
  | .legacy0001 => .container [u64, forkActivationType, .list blobScheduleType 1]
  | .amsterdam01 => .container [forkActivationType]

/-- `ChainConfig` of each schema. -/
abbrev chainConfigType (schema : InputSchema) : SszType := .container [u64, forkConfigType schema]

/-- An optional item, as a list. -/
def optional {α : Type} (present : Bool) (x : α) : List α := if present then [x] else []

def SszBlobSchedule.toVal (x : SszBlobSchedule) : blobScheduleType.Val :=
  (x.target, x.max, x.baseFeeUpdateFraction, ())

def SszChainConfig.activationVal (x : SszChainConfig) : forkActivationType.Val :=
  (optional x.hasActivationBlockNumber x.activationBlockNumber,
    optional x.hasActivationTimestamp x.activationTimestamp, ())

def SszChainConfig.forkVal (x : SszChainConfig) : (schema : InputSchema) → (forkConfigType schema).Val
  | .legacy0001 =>
      (x.fork, x.activationVal, optional x.blobSchedule.present x.blobSchedule.toVal, ())
  | .amsterdam01 => (x.activationVal, ())

def SszChainConfig.toVal (x : SszChainConfig) (schema : InputSchema) :
    (chainConfigType schema).Val :=
  (x.chainId, x.forkVal schema, ())

/-! ### The input -/

/-- How the public keys are laid out.  The decoder of the legacy schema reads a
table of byte lists; the Amsterdam one, and the host that writes legacy inputs,
take 65-byte vectors. -/
inductive KeyLayout
  /-- Byte lists of at most 65 bytes behind a table of offsets. -/
  | table
  /-- Vectors of 65 bytes. -/
  | flat
  deriving DecidableEq, Repr

/-- The public keys. -/
abbrev publicKeysType : KeyLayout → SszType
  | .table => .list (.byteList maxBytesPerPublicKey) maxPublicKeys
  | .flat => .list (.bytes maxBytesPerPublicKey) maxPublicKeys

/-- The keys as byte strings. -/
def keyBytes : (keys : KeyLayout) → (publicKeysType keys).Val → List Bytes
  | .table, ks => ks
  | .flat, ks => ks.map List.Vector.toList

/-- The schema has the builder request lists. -/
def InputSchema.builderRequests : InputSchema → Bool
  | .legacy0001 => false
  | .amsterdam01 => true

/-- The limit of the block access list. -/
def InputSchema.balLimit : InputSchema → ℕ
  | .legacy0001 => maxBlockAccessListBytes
  | .amsterdam01 => balHtrLimitAmsterdam01

/-- `StatelessInput`. -/
abbrev inputType (schema : InputSchema) (shape : PayloadShape) (keys : KeyLayout) : SszType :=
  .container [newPayloadRequestType shape schema.builderRequests schema.balLimit, witnessType,
    chainConfigType schema, publicKeysType keys]

/-- The decoded input is the value `v`. -/
structure Denotes (schema : InputSchema) (shape : PayloadShape) (keys : KeyLayout)
    (si : SszStatelessInput) (v : (inputType schema shape keys).Val) : Prop where
  newPayloadRequest :
    si.newPayloadRequest.toVal shape schema.builderRequests schema.balLimit = v.1
  witness : si.witness.toVal = v.2.1
  chainConfig : si.chainConfig.toVal schema = v.2.2.1
  publicKeys : si.publicKeys.map ByteSpan.bytes = keyBytes keys v.2.2.2.1

/-- Encodings of the input can be read back. -/
theorem inputType_proper (schema : InputSchema) (shape : PayloadShape) (keys : KeyLayout) :
    (inputType schema shape keys).Proper = true := by
  cases schema <;> cases shape <;> cases keys <;> rfl

end StatelessGuest
