import StatelessGuest.Types

/-!
# The execution library

What the guest takes from the zilkworm library: the block it assembles, the chain config
it fills in, and the calls it makes.  The calls are parameters, gathered in one
structure, so that a theorem about every library is a theorem about every behaviour of
the calls that return.

## Main definitions

* `BlockHeader`, `Block`, `Withdrawal`, `ChainConfig` — the values the guest builds.
* `TrieNodeFlat`, `sortByKey` — the update lists of a trie.
* `Library` — the calls.
* `Library.RecordsChanges`, `Library.LoadsLittleEndian` — promises of a library.
-/

namespace StatelessGuest

open Ssz

/-! ### Blocks -/

/-- `evmc::address` -/
abbrev Address := ByteVec 20

/-- A block header: the fields that the guest reads or sets, and the rest. -/
structure BlockHeader (Rest : Type) where
  parentHash : Bytes32 := zeroVec 32
  ommersHash : Bytes32 := zeroVec 32
  beneficiary : Address := zeroVec 20
  stateRoot : Bytes32 := zeroVec 32
  transactionsRoot : Bytes32 := zeroVec 32
  receiptsRoot : Bytes32 := zeroVec 32
  logsBloom : ByteVec 256 := zeroVec 256
  number : BitVec 64 := 0
  gasLimit : BitVec 64 := 0
  gasUsed : BitVec 64 := 0
  timestamp : BitVec 64 := 0
  extraData : Bytes := []
  prevRandao : Bytes32 := zeroVec 32
  baseFeePerGas : Option (BitVec 256) := none
  withdrawalsRoot : Option Bytes32 := none
  blobGasUsed : Option (BitVec 64) := none
  excessBlobGas : Option (BitVec 64) := none
  parentBeaconBlockRoot : Option Bytes32 := none
  requestsHash : Option Bytes32 := none
  slotNumber : Option (BitVec 64) := none
  rest : Rest

/-- A withdrawal of a block. -/
structure Withdrawal where
  index : BitVec 64
  validatorIndex : BitVec 64
  address : Address
  amount : BitVec 64
  deriving DecidableEq

/-- A block, without ommers. -/
structure Block (Rest Tx : Type) where
  header : BlockHeader Rest
  transactions : List Tx := []
  withdrawals : Option (List Withdrawal) := none

/-- The chain config of the library: the first block, or the first time, of each fork. -/
structure ChainConfig where
  chainId : BitVec 64 := 0
  homesteadBlock : Option ℕ := none
  tangerineWhistleBlock : Option ℕ := none
  spuriousDragonBlock : Option ℕ := none
  byzantiumBlock : Option ℕ := none
  constantinopleBlock : Option ℕ := none
  petersburgBlock : Option ℕ := none
  istanbulBlock : Option ℕ := none
  berlinBlock : Option ℕ := none
  londonBlock : Option ℕ := none
  terminalTotalDifficulty : Option ℕ := none
  mergeNetsplitBlock : Option ℕ := none
  shanghaiTime : Option ℕ := none
  cancunTime : Option ℕ := none
  pragueTime : Option ℕ := none
  osakaTime : Option ℕ := none
  bpo1Time : Option ℕ := none
  bpo2Time : Option ℕ := none
  bpo3Time : Option ℕ := none
  bpo4Time : Option ℕ := none
  amsterdamTime : Option ℕ := none

/-- `silkworm::ValidationResult` -/
inductive ValidationResult
  | kOk
  | failed (code : ℕ)
  deriving DecidableEq

/-- `silkworm::FlatRequestType` -/
inductive FlatRequestType
  | kDepositRequest
  | kWithdrawalRequest
  | kConsolidationRequest
  | kBuilderDepositRequest
  | kBuilderExitRequest
  deriving DecidableEq

/-! ### Update lists -/

/-- A leaf to be written to a trie. -/
structure TrieNodeFlat where
  key : Bytes32
  value : Bytes
  deriving DecidableEq

/-- A key as a big-endian number. -/
def keyNat (key : Bytes32) : ℕ := leNat key.toList.reverse

theorem keyNat_injective : Function.Injective keyNat := by
  intro a b h
  have hlen : a.toList.reverse.length = b.toList.reverse.length := by
    rw [List.length_reverse, List.length_reverse, List.Vector.toList_length,
      List.Vector.toList_length]
  exact toList_injective (List.reverse_injective (leNat_inj hlen h))

/-- `std::sort` of an update list: nodes are ordered by their keys. -/
def sortByKey (l : List TrieNodeFlat) : List TrieNodeFlat :=
  l.insertionSort fun a b => keyNat a.key ≤ keyNat b.key

/-! ### The calls -/

/-- The account changes and the storage changes of one block, in the order in which the
hash maps are traversed: the values before the block. -/
abbrev AccountChanges (Account : Type) := List (Address × Option Account)

/-- Slots with their values before the block. -/
abbrev SlotChanges := List (Bytes32 × Bytes32)

/-- The changed slots of each account. -/
abbrev StorageChanges := List (Address × SlotChanges)

/-- The library.  A header or a state is all that a call knows of the calls before it. -/
structure Library where
  Tx : Type
  HeaderRest : Type
  Account : Type
  NodeStore : Type
  State : Type
  /-- `ssz_sha256` -/
  sha256 : Bytes → Bytes32
  /-- `ethash_keccak256`, `keccak_bytes`, `keccak_bytes32` -/
  keccak256 : Bytes → Bytes32
  /-- What value-initialization leaves in the rest of a header. -/
  headerRest : HeaderRest
  /-- `rlp::decode`, with what it leaves in the header even where it fails. -/
  decodeHeader : Bytes → Bool × BlockHeader HeaderRest
  /-- `BlockHeader::hash` -/
  headerHash : BlockHeader HeaderRest → Bytes32
  /-- `rlp::decode_transaction` -/
  decodeTransaction : Bytes → Option Tx
  /-- `FlatRequests::calculate_sha256` -/
  requestsHash : List (FlatRequestType × Bytes) → Bytes32
  /-- `kEmptyListHash` -/
  emptyListHash : Bytes32
  /-- `kEmptyRoot` -/
  emptyRoot : Bytes32
  /-- `compute_transaction_root` -/
  transactionRoot : Block HeaderRest Tx → Bytes32
  /-- `compute_withdrawals_root` -/
  withdrawalsRoot : Block HeaderRest Tx → Option Bytes32
  /-- `FlatNodeStore::populate_from_preimages` -/
  populateFromPreimages : List Bytes → NodeStore
  /-- `WitnessState` -/
  witnessState : NodeStore → Bytes32 → State
  /-- `State::update_account_code`, of the zero address -/
  updateAccountCode : State → Bytes32 → Bytes → State
  /-- `State::insert_block`, of a block without a body -/
  insertHeader : State → BlockHeader HeaderRest → Bytes32 → State
  /-- The constructor of `Blockchain`, which is given the genesis header -/
  blockchain : State → ChainConfig → BlockHeader HeaderRest → State
  /-- `Blockchain::insert_block` -/
  insertBlock : State → ChainConfig → Block HeaderRest Tx → ValidationResult × State
  /-- `State::account_changes`, and the entry of a block number if it has one -/
  accountChanges : State → BitVec 64 → Option (AccountChanges Account)
  /-- `State::storage_changes`, and the entry of a block number if it has one -/
  storageChanges : State → BitVec 64 → Option StorageChanges
  /-- `State::read_storage` -/
  readStorage : State → Address → Bytes32 → Bytes32
  /-- `State::read_account` -/
  readAccount : State → Address → Option Account
  /-- `State::read_header` -/
  readHeader : State → BitVec 64 → Bytes32 → Option (BlockHeader HeaderRest)
  /-- `Account{}` -/
  defaultAccount : Account
  /-- `operator==` of accounts -/
  accountEq : Account → Account → Bool
  /-- `Account::storage_root_` -/
  storageRoot : Account → Bytes32
  /-- `Account::rlp` -/
  accountRlp : Account → Bytes32 → Bytes
  /-- `intx::le::load<intx::uint256>` -/
  loadUint256 : Bytes32 → BitVec 256
  /-- `zeroless_view` -/
  zerolessView : Bytes32 → Bytes
  /-- `mpt::is_zero_quick` -/
  isZeroQuick : Bytes32 → Bool
  /-- `rlp::encode` of a byte string -/
  rlpEncode : Bytes → Bytes
  /-- `GridMPT<true>::calc_root_from_updates` -/
  calcStorageRoot : NodeStore → Bytes32 → List TrieNodeFlat → Bytes32
  /-- `GridMPT<false>::calc_root_from_updates` -/
  calcAccountRoot : NodeStore → Bytes32 → List TrieNodeFlat → Bytes32

/-- The maps of changes have an entry for every block that is accepted. -/
def Library.RecordsChanges (L : Library) : Prop :=
  ∀ st cfg block, (L.insertBlock st cfg block).1 = .kOk →
    (L.accountChanges (L.insertBlock st cfg block).2 block.header.number).isSome = true ∧
      (L.storageChanges (L.insertBlock st cfg block).2 block.header.number).isSome = true

/-- A word is loaded with its least significant byte first. -/
def Library.LoadsLittleEndian (L : Library) : Prop :=
  ∀ word, (L.loadUint256 word).toNat = leNat word.toList

/-! ### A small library -/

/-- A word of 32 bytes, the least significant first. -/
def leWord (word : Bytes32) : BitVec 256 := BitVec.ofNat 256 (leNat word.toList)

theorem toNat_leWord (word : Bytes32) : (leWord word).toNat = leNat word.toList := by
  have hlt := leNat_lt word.toList
  rw [List.Vector.toList_length, show (256 : ℕ) ^ 32 = 2 ^ 256 by norm_num] at hlt
  rw [leWord, BitVec.toNat_ofNat, Nat.mod_eq_of_lt hlt]

/-- A word without its leading zeros. -/
def withoutZeros (word : Bytes32) : Bytes := word.toList.dropWhile (· = 0)

/-- A small library to run the guest with.  A header is its parent hash and its state root,
hashed to its last 31 bytes; a state is the headers registered in it; every block is
accepted and changes nothing. -/
def sampleLibrary : Library where
  Tx := Bytes
  HeaderRest := Unit
  Account := Bytes × Bytes32
  NodeStore := List Bytes
  State := List (Bytes32 × BlockHeader Unit)
  sha256 := padTo 32
  keccak256 b := padTo 32 (b ++ [1]).reverse
  headerRest := ()
  decodeHeader b :=
    (b.length = 64, { parentHash := padTo 32 b, stateRoot := padTo 32 (b.drop 32), rest := () })
  headerHash header := padTo 32 (header.parentHash.toList ++ header.stateRoot.toList ++ [1]).reverse
  decodeTransaction b := if b = [] then none else some b
  requestsHash _ := zeroVec 32
  emptyListHash := zeroVec 32
  emptyRoot := zeroVec 32
  transactionRoot _ := zeroVec 32
  withdrawalsRoot _ := some (zeroVec 32)
  populateFromPreimages preimages := preimages
  witnessState _ _ := []
  updateAccountCode st _ _ := st
  insertHeader st header hash := (hash, header) :: st
  blockchain st _ genesis :=
    (padTo 32 (genesis.parentHash.toList ++ genesis.stateRoot.toList ++ [1]).reverse, genesis) :: st
  insertBlock st _ _ := (.kOk, st)
  accountChanges _ _ := some []
  storageChanges _ _ := some []
  readStorage _ _ _ := zeroVec 32
  readAccount _ _ := none
  readHeader st number hash :=
    (st.find? fun p => p.1 = hash ∧ p.2.number = number).map Prod.snd
  defaultAccount := ([], zeroVec 32)
  accountEq acc acc' := acc.1 = acc'.1
  storageRoot acc := acc.2
  accountRlp acc root := acc.1 ++ root.toList
  loadUint256 := leWord
  zerolessView := withoutZeros
  isZeroQuick root := root = zeroVec 32
  rlpEncode b := b
  calcStorageRoot _ root _ := root
  calcAccountRoot _ root _ := root

/-- The small library, except that a block is accepted only if its parent is found. -/
def strictLibrary : Library :=
  { sampleLibrary with
    insertBlock := fun st _ block =>
      (if (sampleLibrary.readHeader st (block.header.number - 1) block.header.parentHash).isSome then
        .kOk else .failed 0, st) }

end StatelessGuest
