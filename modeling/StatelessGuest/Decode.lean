import StatelessGuest.Types

/-!
# Decoding the stateless input

The decoders of `stateless.cpp`, from the fixed-size items up to the two
top-level inputs.  Offsets are read as 32-bit integers and subtracted in
32 bits; slices take the difference on trust.  `end` and `total` are the length
of the enclosing span cut to 32 bits.

## Main definitions

* `decodeFixedList`, `decodeBytelistList` — the two list decoders.
* `decodeExecutionPayload`, `decodeNewPayloadRequest`, `decodeWitness` — the sections.
* `decodeChainConfig`, `decodeChainConfigAmsterdam01` — the strict decoders.
* `decodeStatelessInput`, `decodeStatelessInputAmsterdam01` — the inputs.
-/

namespace StatelessGuest

open Ssz

variable (w : WordSize)

/-! ### Fixed-size items -/

/-- `decode_withdrawal`. -/
def decodeWithdrawal (s : ByteSpan) : Dec SszWithdrawal := do
  let index ← s.readU64le 0
  let s ← s.from w 8
  let validatorIndex ← s.readU64le 0
  let s ← s.from w 8
  let address ← s.read 0 20
  let s ← s.from w 20
  let amount ← s.readU64le 0
  return { index, validatorIndex, address, amount }

/-- `decode_deposit_request`. -/
def decodeDepositRequest (s : ByteSpan) : Dec SszDepositRequest := do
  let pubkey ← s.read 0 48
  let s ← s.from w 48
  let withdrawalCredentials ← s.read 0 32
  let s ← s.from w 32
  let amount ← s.readU64le 0
  let s ← s.from w 8
  let signature ← s.read 0 96
  let s ← s.from w 96
  let index ← s.readU64le 0
  return { pubkey, withdrawalCredentials, amount, signature, index }

/-- `decode_withdrawal_request`. -/
def decodeWithdrawalRequest (s : ByteSpan) : Dec SszWithdrawalRequest := do
  let sourceAddress ← s.read 0 20
  let s ← s.from w 20
  let validatorPubkey ← s.read 0 48
  let s ← s.from w 48
  let amount ← s.readU64le 0
  return { sourceAddress, validatorPubkey, amount }

/-- `decode_consolidation_request`. -/
def decodeConsolidationRequest (s : ByteSpan) : Dec SszConsolidationRequest := do
  let sourceAddress ← s.read 0 20
  let s ← s.from w 20
  let sourcePubkey ← s.read 0 48
  let s ← s.from w 48
  let targetPubkey ← s.read 0 48
  return { sourceAddress, sourcePubkey, targetPubkey }

/-- `decode_builder_deposit_request`. -/
def decodeBuilderDepositRequest (s : ByteSpan) : Dec SszBuilderDepositRequest := do
  let pubkey ← s.read 0 48
  let s ← s.from w 48
  let withdrawalCredentials ← s.read 0 32
  let s ← s.from w 32
  let amount ← s.readU64le 0
  let s ← s.from w 8
  let signature ← s.read 0 96
  return { pubkey, withdrawalCredentials, amount, signature }

/-- `decode_builder_exit_request`. -/
def decodeBuilderExitRequest (s : ByteSpan) : Dec SszBuilderExitRequest := do
  let sourceAddress ← s.read 0 20
  let s ← s.from w 20
  let pubkey ← s.read 0 48
  return { sourceAddress, pubkey }

/-- `SSZ_WITHDRAWAL_FIXED_SIZE`. -/
abbrev sszWithdrawalFixedSize : ℕ := 44
/-- `SSZ_DEPOSIT_REQUEST_FIXED_SIZE`. -/
abbrev sszDepositRequestFixedSize : ℕ := 192
/-- `SSZ_WITHDRAWAL_REQUEST_FIXED_SIZE`. -/
abbrev sszWithdrawalRequestFixedSize : ℕ := 76
/-- `SSZ_CONSOLIDATION_REQUEST_FIXED_SIZE`. -/
abbrev sszConsolidationRequestFixedSize : ℕ := 116
/-- `SSZ_BUILDER_DEPOSIT_REQUEST_FIXED_SIZE`. -/
abbrev sszBuilderDepositRequestFixedSize : ℕ := 184
/-- `SSZ_BUILDER_EXIT_REQUEST_FIXED_SIZE`. -/
abbrev sszBuilderExitRequestFixedSize : ℕ := 68

/-! ### Lists -/

/-- `decode_fixed_list`: as many whole items as fit; a remainder is dropped. -/
def decodeFixedList {α : Type} (data : ByteSpan) (itemSize : ℕ) (fn : ByteSpan → Dec α) :
    Dec (List α) :=
  Dec.forRange (data.len / itemSize) fun i => do
    let item ← data.slice (w.mul i itemSize) itemSize
    fn item

/-- `hi` of pass `i`: the next offset, or the end of the section for the last of
the `n` items. -/
def bytelistHi (data : ByteSpan) (n i : ℕ) : Dec ℕ :=
  if i + 1 < n then data.readU32le (w.mul (i + 1) 4) else pure (data.len % 2 ^ 32)

/-- Pass `i` of the loop over the `n` items. -/
def bytelistPass (data : ByteSpan) (n i : ℕ) : Dec ByteSpan := do
  let lo ← data.readU32le (w.mul i 4)
  let hi ← bytelistHi w data n i
  data.between lo hi

/-- `decode_bytelist_list`: the items between the offsets of the leading table,
whose length the first offset gives. -/
def decodeBytelistList (data : ByteSpan) : Dec (List ByteSpan) := do
  if data.len < 4 then return []
  let first ← data.readU32le 0
  if first % 4 ≠ 0 ∨ first > data.len then return []
  Dec.forRange (first / 4) (bytelistPass w data (first / 4))

/-! ### The sections -/

/-- `EXEC_REQ_FIXED`. -/
abbrev execReqFixed : ℕ := 12
/-- `EXEC_REQ_V2_FIXED`. -/
abbrev execReqV2Fixed : ℕ := 20
/-- `PAYLOAD_V3_FIXED`. -/
abbrev payloadV3Fixed : ℕ := 528
/-- `PAYLOAD_V4_FIXED`. -/
abbrev payloadV4Fixed : ℕ := 540
/-- `NPR_FIXED`. -/
abbrev nprFixed : ℕ := 44
/-- `WITNESS_FIXED`. -/
abbrev witnessFixed : ℕ := 12
/-- `CHAIN_CONFIG_FIXED`. -/
abbrev chainConfigFixed : ℕ := 12
/-- `FORK_CONFIG_FIXED`. -/
abbrev forkConfigFixed : ℕ := 16
/-- `STATELESS_INPUT_FIXED`. -/
abbrev statelessInputFixed : ℕ := 16

/-- The branch of `decode_execution_requests` with five lists. -/
def decodeFiveLists (s : ByteSpan) : Dec SszExecutionRequests := do
  let stop := s.len % 2 ^ 32
  let off0 ← s.readU32le 0
  let off1 ← s.readU32le 4
  let off2 ← s.readU32le 8
  let off3 ← s.readU32le 12
  let off4 ← s.readU32le 16
  let deposits ← decodeFixedList w (← s.between off0 off1)
    sszDepositRequestFixedSize (decodeDepositRequest w)
  let withdrawals ← decodeFixedList w (← s.between off1 off2)
    sszWithdrawalRequestFixedSize (decodeWithdrawalRequest w)
  let consolidations ← decodeFixedList w (← s.between off2 off3)
    sszConsolidationRequestFixedSize (decodeConsolidationRequest w)
  let builderDeposits ← decodeFixedList w (← s.between off3 off4)
    sszBuilderDepositRequestFixedSize (decodeBuilderDepositRequest w)
  let builderExits ← decodeFixedList w (← s.between off4 stop)
    sszBuilderExitRequestFixedSize (decodeBuilderExitRequest w)
  let rawDeposits ← s.between off0 off1
  let rawWithdrawals ← s.between off1 off2
  let rawConsolidations ← s.between off2 off3
  let rawBuilderDeposits ← s.between off3 off4
  let rawBuilderExits ← s.between off4 stop
  return { deposits, withdrawals, consolidations, builderDeposits, builderExits,
           hasBuilderRequests := true, rawDeposits, rawWithdrawals, rawConsolidations,
           rawBuilderDeposits, rawBuilderExits }

/-- The branch of `decode_execution_requests` with three lists. -/
def decodeThreeLists (s : ByteSpan) : Dec SszExecutionRequests := do
  let stop := s.len % 2 ^ 32
  let off0 ← s.readU32le 0
  let off1 ← s.readU32le 4
  let off2 ← s.readU32le 8
  let deposits ← decodeFixedList w (← s.between off0 off1)
    sszDepositRequestFixedSize (decodeDepositRequest w)
  let withdrawals ← decodeFixedList w (← s.between off1 off2)
    sszWithdrawalRequestFixedSize (decodeWithdrawalRequest w)
  let consolidations ← decodeFixedList w (← s.between off2 stop)
    sszConsolidationRequestFixedSize (decodeConsolidationRequest w)
  let rawDeposits ← s.between off0 off1
  let rawWithdrawals ← s.between off1 off2
  let rawConsolidations ← s.between off2 stop
  return { deposits, withdrawals, consolidations, hasBuilderRequests := false,
           rawDeposits, rawWithdrawals, rawConsolidations }

/-- The length of the fixed part of the requests. -/
def execReqHead (builderRequests : Bool) : ℕ :=
  if builderRequests then execReqV2Fixed else execReqFixed

/-- `decode_execution_requests`. -/
def decodeExecutionRequests (s : ByteSpan) (builderRequests : Bool) :
    Dec SszExecutionRequests :=
  if s.len < execReqHead builderRequests then pure { hasBuilderRequests := builderRequests }
  else if builderRequests then decodeFiveLists w s else decodeThreeLists w s

/-- `payload_shape_for_fork`. -/
def payloadShapeForFork (fork : BitVec 64) : PayloadShape :=
  if fork = forkPrague ∨ fork = forkOsaka ∨ fork = forkBpo1 ∨ fork = forkBpo2 then .electraFulu
  else if fork = forkAmsterdam then .gloas
  else .unsupported

/-- The length of the fixed part of a payload. -/
def payloadFixed (shape : PayloadShape) : ℕ :=
  if shape = .gloas then payloadV4Fixed else payloadV3Fixed

/-- The three lists every payload has. -/
structure PayloadLists where
  extraData : ByteSpan
  transactions : List ByteSpan
  withdrawals : List SszWithdrawal

/-- The extra data, transactions and withdrawals of a payload; the withdrawals
end at `stop`. -/
def decodePayloadLists (s : ByteSpan) (offExtra offTx offWdl stop : ℕ) : Dec PayloadLists := do
  let extraData ← s.between offExtra offTx
  let transactions ← decodeBytelistList w (← s.between offTx offWdl)
  let withdrawals ← decodeFixedList w (← s.between offWdl stop)
    sszWithdrawalFixedSize (decodeWithdrawal w)
  return { extraData, transactions, withdrawals }

/-- What the fixed part of every payload holds. -/
structure PayloadHead where
  fields : SszExecutionPayload
  offExtra : ℕ
  offTx : ℕ
  offWdl : ℕ

/-- Read the fixed part.  The offsets of the reads are the values the cursor
`cur` takes. -/
def decodePayloadHead (s : ByteSpan) (shape : PayloadShape) : Dec PayloadHead := do
  let parentHash ← s.read 0 32
  let feeRecipient ← s.read 32 20
  let stateRoot ← s.read 52 32
  let receiptsRoot ← s.read 84 32
  let logsBloom ← s.read 116 256
  let prevRandao ← s.read 372 32
  let blockNumber ← s.readU64le 404
  let gasLimit ← s.readU64le 412
  let gasUsed ← s.readU64le 420
  let timestamp ← s.readU64le 428
  let offExtra ← s.readU32le 436
  let baseFeePerGas ← s.read 440 32
  let blockHash ← s.read 472 32
  let offTx ← s.readU32le 504
  let offWdl ← s.readU32le 508
  let blobGasUsed ← s.readU64le 512
  let excessBlobGas ← s.readU64le 520
  let fields : SszExecutionPayload :=
    { parentHash, feeRecipient, stateRoot, receiptsRoot, logsBloom, prevRandao, blockNumber,
      gasLimit, gasUsed, timestamp, baseFeePerGas, blockHash, blobGasUsed, excessBlobGas, shape }
  return { fields, offExtra, offTx, offWdl }

/-- The part of `decode_execution_payload` after the length check. -/
def decodePayloadFields (s : ByteSpan) (shape : PayloadShape) : Dec SszExecutionPayload := do
  let h ← decodePayloadHead s shape
  let total := s.len % 2 ^ 32
  if shape = .gloas then
    let offBal ← s.readU32le 528
    let slotNumber ← s.readU64le 532
    let blockAccessList ← s.between offBal total
    let ls ← decodePayloadLists w s h.offExtra h.offTx h.offWdl offBal
    return { h.fields with
      extraData := ls.extraData, transactions := ls.transactions, withdrawals := ls.withdrawals,
      blockAccessList, slotNumber }
  else
    let ls ← decodePayloadLists w s h.offExtra h.offTx h.offWdl total
    return { h.fields with
      extraData := ls.extraData, transactions := ls.transactions, withdrawals := ls.withdrawals,
      blockAccessList := .null, slotNumber := 0 }

/-- `decode_execution_payload`. -/
def decodeExecutionPayload (s : ByteSpan) (shape : PayloadShape) : Dec SszExecutionPayload :=
  if s.len < payloadFixed shape then pure { shape := .unsupported }
  else decodePayloadFields w s shape

/-- `decode_new_payload_request`. -/
def decodeNewPayloadRequest (s : ByteSpan) (shape : PayloadShape) (builderRequests : Bool)
    (balHtrLimit : ℕ) : Dec SszNewPayloadRequest := do
  if s.len < nprFixed then return {}
  let offPayload ← s.readU32le 0
  let offHashes ← s.readU32le 4
  let parentBeaconBlockRoot ← s.read 8 32
  let offEr ← s.readU32le 40
  let total := s.len % 2 ^ 32
  let payload ← decodeExecutionPayload w (← s.between offPayload offHashes) shape
  let vh ← s.between offHashes offEr
  let versionedHashes ← Dec.forRange (vh.len / 32) fun i => vh.read (w.mul i 32) 32
  let executionRequests ← decodeExecutionRequests w (← s.between offEr total) builderRequests
  return { executionPayload := { payload with balHtrLimit }, versionedHashes,
           parentBeaconBlockRoot, executionRequests }

/-- `decode_witness`. -/
def decodeWitness (s : ByteSpan) : Dec SszExecutionWitness := do
  if s.len < witnessFixed then return {}
  let offState ← s.readU32le 0
  let offCodes ← s.readU32le 4
  let offHeaders ← s.readU32le 8
  let total := s.len % 2 ^ 32
  let state ← decodeBytelistList w (← s.between offState offCodes)
  let codes ← decodeBytelistList w (← s.between offCodes offHeaders)
  let headers ← decodeBytelistList w (← s.between offHeaders total)
  return { state, codes, headers }

/-! ### The chain config -/

/-- An activation value: present when its list is 8 bytes long. -/
def decodeActivation (act : ByteSpan) (off len : ℕ) : Dec (Bool × BitVec 64) :=
  if len = 8 then do
    let v ← act.readU64le off
    return (true, v)
  else return (false, 0)

/-- The activation point of a fork: two lists of at most one number. -/
structure ForkActivation where
  blockNumber : Bool × BitVec 64
  timestamp : Bool × BitVec 64

/-- The part of the two chain config decoders that reads the activation point;
`none` is their early return. -/
def decodeForkActivation (act : ByteSpan) : Dec (Option ForkActivation) := do
  if act.len < 8 then return none
  let offBn ← act.readU32le 0
  let offTs ← act.readU32le 4
  if offBn ≠ 8 ∨ offTs < offBn ∨ offTs > act.len then return none
  let bnLen ← subU32 offTs offBn
  let tsLen ← subSize w act.len offTs
  if (bnLen ≠ 0 ∧ bnLen ≠ 8) ∨ (tsLen ≠ 0 ∧ tsLen ≠ 8) then return none
  let blockNumber ← decodeActivation act offBn bnLen
  let timestamp ← decodeActivation act offTs tsLen
  return some { blockNumber, timestamp }

/-- The chain config with its activation point set. -/
def SszChainConfig.withActivation (cc : SszChainConfig) (a : ForkActivation) : SszChainConfig :=
  { cc with hasActivationBlockNumber := a.blockNumber.1, activationBlockNumber := a.blockNumber.2,
            hasActivationTimestamp := a.timestamp.1, activationTimestamp := a.timestamp.2 }

/-- The blob schedule: present when its list is 24 bytes long. -/
def decodeBlobSchedule (bs : ByteSpan) : Dec SszBlobSchedule :=
  if bs.len = 24 then do
    let target ← bs.readU64le 0
    let max ← bs.readU64le 8
    let baseFeeUpdateFraction ← bs.readU64le 16
    return { present := true, target, max, baseFeeUpdateFraction }
  else return {}

/-- `decode_chain_config`. -/
def decodeChainConfig (s : ByteSpan) : Dec SszChainConfig := do
  let cc : SszChainConfig := { raw := s }
  if s.len < chainConfigFixed then return cc
  let chainId ← s.readU64le 0
  let cc := { cc with chainId }
  let offFc ← s.readU32le 8
  if offFc ≠ chainConfigFixed ∨ s.len < offFc + forkConfigFixed then return cc
  let fc ← s.from w offFc
  let fork ← fc.readU64le 0
  let cc := { cc with fork }
  let offAct ← fc.readU32le 8
  let offBs ← fc.readU32le 12
  if offAct ≠ forkConfigFixed ∨ offBs < offAct ∨ offBs > fc.len then return cc
  let act ← fc.between offAct offBs
  match ← decodeForkActivation w act with
  | none => return cc
  | some a => do
    let cc := cc.withActivation a
    let bs ← fc.from w offBs
    if bs.len ≠ 0 ∧ bs.len ≠ 24 then return cc
    let blobSchedule ← decodeBlobSchedule bs
    return { cc with blobSchedule, valid := true }

/-- `decode_chain_config_amsterdam01`. -/
def decodeChainConfigAmsterdam01 (s : ByteSpan) : Dec SszChainConfig := do
  let cc : SszChainConfig := { raw := s, fork := forkAmsterdam }
  if s.len < chainConfigFixed then return cc
  let chainId ← s.readU64le 0
  let cc := { cc with chainId }
  let offFc ← s.readU32le 8
  if offFc ≠ chainConfigFixed ∨ s.len < offFc + 4 then return cc
  let fc ← s.from w offFc
  let offAct ← fc.readU32le 0
  if offAct ≠ 4 ∨ offAct > fc.len then return cc
  let act ← fc.from w offAct
  match ← decodeForkActivation w act with
  | none => return cc
  | some a => return { cc.withActivation a with valid := true }

/-! ### The inputs -/

/-- `decode_stateless_input`. -/
def decodeStatelessInput (s : ByteSpan) : Dec SszStatelessInput := do
  let si : SszStatelessInput := {}
  if s.len < statelessInputFixed then return si
  let offNpr ← s.readU32le 0
  let offWit ← s.readU32le 4
  let offCc ← s.readU32le 8
  let offPk ← s.readU32le 12
  let total := s.len % 2 ^ 32
  if offNpr ≠ statelessInputFixed ∨ offWit < offNpr ∨ offCc < offWit ∨ offPk < offCc ∨
      offPk > total then return si
  let chainConfig ← decodeChainConfig w (← s.between offCc offPk)
  let si := { si with chainConfig }
  if !chainConfig.valid then return si
  let shape := payloadShapeForFork chainConfig.fork
  if shape = .unsupported then return si
  let newPayloadRequest ← decodeNewPayloadRequest w (← s.between offNpr offWit) shape false
    maxBlockAccessListBytes
  let si := { si with newPayloadRequest }
  if newPayloadRequest.executionPayload.shape = .unsupported then return si
  let witness ← decodeWitness w (← s.between offWit offCc)
  let publicKeys ← decodeBytelistList w (← s.between offPk total)
  return { si with witness, publicKeys, valid := true }

/-- `decode_stateless_input_amsterdam01`. -/
def decodeStatelessInputAmsterdam01 (s : ByteSpan) : Dec SszStatelessInput := do
  let si : SszStatelessInput := { schema := .amsterdam01 }
  if s.len < statelessInputFixed then return si
  let offNpr ← s.readU32le 0
  let offWit ← s.readU32le 4
  let offCc ← s.readU32le 8
  let offPk ← s.readU32le 12
  let total := s.len % 2 ^ 32
  if offNpr ≠ statelessInputFixed ∨ offWit < offNpr ∨ offCc < offWit ∨ offPk < offCc ∨
      offPk > total then return si
  let chainConfig ← decodeChainConfigAmsterdam01 w (← s.between offCc offPk)
  let si := { si with chainConfig }
  if !chainConfig.valid then return si
  let newPayloadRequest ← decodeNewPayloadRequest w (← s.between offNpr offWit) .gloas true
    balHtrLimitAmsterdam01
  let si := { si with newPayloadRequest }
  if newPayloadRequest.executionPayload.shape = .unsupported then return si
  let witness ← decodeWitness w (← s.between offWit offCc)
  let si := { si with witness }
  let pk ← s.between offPk total
  if pk.len % maxBytesPerPublicKey ≠ 0 then return si
  let publicKeys ← Dec.forRange (pk.len / maxBytesPerPublicKey) fun i =>
    pk.slice (w.mul i maxBytesPerPublicKey) maxBytesPerPublicKey
  return { si with publicKeys, valid := true }

end StatelessGuest
