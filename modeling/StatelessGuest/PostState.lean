import StatelessGuest.StateRoot

/-!
# The rebuilt root and the post-state

The rebuilt root should be the root of the trie over all accounts after the block.  A
trie is given here by what it holds under the hash of each key that is in use, and its
root by a function of that.  An account that the block deletes is passed over, and so is one that
the block creates equal to a value-initialized account without storage.

## Main definitions

* `update`, `Updates` — a trie with an update list applied.
* `World`, `KeysInUse`, `storageTrie`, `accountTrie` — the state and the tries over it.
* `Executed` — what the library promises after a block.
* `Missed` — an account that the update list leaves out.
* `oneAccountLibrary` — a library with one account.

## Main results

* `update_storUpdates` — the storage update list leads to the storage after the block.
* `update_accUpdates` — the account update list is right wherever no account is missed.
* `computedStateRoot_postState` — **the rebuilt root is the root of the post-state exactly
  when no account is missed.**
-/

namespace StatelessGuest

open Ssz

/-! ### Updating a trie -/

section

variable {K α : Type} (hash : K → Bytes32) (deleted : Bytes)

/-- What a trie holds under the keys of an update list is overwritten, or deleted. -/
def update (trie : K → Option Bytes) (updates : List TrieNodeFlat) : K → Option Bytes := fun k =>
  match updates.find? fun node => node.key = hash k with
  | none => trie k
  | some node => if node.value = deleted then none else some node.value

/-- The updates are sorted, and under keys of the trie. -/
structure Updates (updates : List TrieNodeFlat) : Prop where
  sorted : updates.Pairwise fun a b => keyNat a.key < keyNat b.key
  keys : ∀ node ∈ updates, ∃ k, node.key = hash k

variable {deleted} {trie : K → Option Bytes} {l : List TrieNodeFlat} {items : List α}
  {key : α → Bytes32} {writes : α → Bytes → Prop}

/-- A key that an item writes. -/
theorem update_of_writes (h : UpdateList l items key writes) {x : α} (hx : x ∈ items) {v : Bytes}
    (hv : writes x v) {k : K} (hk : key x = hash k) :
    update hash deleted trie l k = if v = deleted then none else some v := by
  have hfind : l.find? (fun node => node.key = hash k) = some ⟨key x, v⟩ := by
    rw [← List.head?_filter, ← hk, h.exactly x hx v hv]
    rfl
  unfold update
  rw [hfind]

/-- A key that no item writes. -/
theorem update_of_not_writes (h : UpdateList l items key writes) {k : K}
    (hk : ∀ x ∈ items, key x = hash k → ∀ v, ¬writes x v) :
    update hash deleted trie l k = trie k := by
  have hfind : l.find? (fun node => node.key = hash k) = none := by
    rw [List.find?_eq_none]
    intro node hnode hkey
    obtain ⟨x, hx, hnodeKey, hwrites⟩ := h.only node hnode
    exact hk x hx (hnodeKey.symm.trans (of_decide_eq_true hkey)) _ hwrites
  unfold update
  rw [hfind]

end

/-! ### The state -/

section

variable (L : Library)

/-- The accounts and their storage. -/
structure World where
  account : Address → Option L.Account
  storage : Address → Bytes32 → Bytes32

/-- The keys that a trie is used with. -/
structure KeysInUse where
  addresses : Address → Prop
  slots : Bytes32 → Prop

/-- An address in use. -/
abbrev KeysInUse.Address (U : KeysInUse) := {addr // U.addresses addr}

/-- A slot in use. -/
abbrev KeysInUse.Slot (U : KeysInUse) := {slot // U.slots slot}

variable (U : KeysInUse)

/-- The key of an account in the trie. -/
def addressHash (addr : U.Address) : Bytes32 := L.keccak256 addr.1.toList

/-- The key of a slot in the trie. -/
def slotHash (slot : U.Slot) : Bytes32 := L.keccak256 slot.1.toList

/-- What the storage trie holds for a value; zero is left out. -/
def slotLeaf (v : Bytes32) : Option Bytes :=
  if v = zeroVec 32 then none else some (L.rlpEncode (L.zerolessView v))

variable {L}

/-- The storage trie of an account. -/
def storageTrie (world : World L) (addr : Address) : U.Slot → Option Bytes := fun slot =>
  slotLeaf L (world.storage addr slot.1)

/-- The account trie, over roots of the storage tries. -/
def accountTrie (storageHash : (U.Slot → Option Bytes) → Bytes32) (world : World L) :
    U.Address → Option Bytes := fun addr =>
  (world.account addr.1).map fun acc =>
    L.accountRlp acc (storageHash (storageTrie U world addr.1))

/-- The account has been deleted, or it has been created without storage and equal to a
value-initialized account. -/
def Missed (pre post : World L) (addr : Address) : Prop :=
  ((pre.account addr).isSome = true ∧ post.account addr = none) ∨
    (pre.account addr = none ∧ ∃ cur, post.account addr = some cur ∧
      L.accountEq L.defaultAccount cur = true ∧ ∀ slot, post.storage addr slot = zeroVec 32)

/-- The library after block `number`, which leads from `pre` to `post`: what the block writes
is recorded under its number with the value before the block, reads give the values after
it, and the tries, whose roots are `storageHash` and `accountHash`, are updated as their
lists say.  No two keys in use have the same hash. -/
structure Executed (nodes : L.NodeStore) (st : L.State) (number : BitVec 64)
    (accs : AccountChanges L.Account) (stor : StorageChanges) (pre post : World L)
    (storageHash : (U.Slot → Option Bytes) → Bytes32)
    (accountHash : (U.Address → Option Bytes) → Bytes32) : Prop where
  accountChanges : L.accountChanges st number = some accs
  storageChanges : L.storageChanges st number = some stor
  keyed : Keyed L accs stor
  hash_address : Function.Injective (addressHash L U)
  hash_slot : Function.Injective (slotHash L U)
  account_inUse : ∀ addr, pre.account addr ≠ none → U.addresses addr
  slot_inUse : ∀ addr slot, pre.storage addr slot ≠ zeroVec 32 → U.slots slot
  recorded_inUse : ∀ change ∈ accs, U.addresses change.1
  recordedSlot_inUse : ∀ change ∈ stor, ∀ slot ∈ change.2, U.slots slot.1
  account_recorded : ∀ change ∈ accs, change.2 = pre.account change.1
  account_unchanged : ∀ addr, addr ∉ accs.map Prod.fst → post.account addr = pre.account addr
  slot_recorded : ∀ change ∈ stor, ∀ slot ∈ change.2, slot.2 = pre.storage change.1 slot.1
  slot_unchanged : ∀ addr slot, (∀ change ∈ stor, change.1 = addr → slot ∉ change.2.map Prod.fst) →
    post.storage addr slot = pre.storage addr slot
  slot_account : ∀ change ∈ stor, change.1 ∈ accs.map Prod.fst
  readAccount : ∀ addr, L.readAccount st addr = post.account addr
  readStorage : ∀ addr slot, L.readStorage st addr slot = post.storage addr slot
  storageRoot : ∀ addr acc, pre.account addr = some acc →
    L.storageRoot acc ≠ zeroVec 32 ∧ L.storageRoot acc = storageHash (storageTrie U pre addr) ∨
      L.storageRoot acc = zeroVec 32 ∧ ∀ slot, pre.storage addr slot = zeroVec 32
  storage_absent : ∀ addr, pre.account addr = none → ∀ slot, pre.storage addr slot = zeroVec 32
  storageRoot_default : L.storageRoot L.defaultAccount = zeroVec 32
  accountEq : ∀ acc acc', L.accountEq acc acc' = true → ∀ root,
    L.accountRlp acc root = L.accountRlp acc' root
  accountRlp_zero : ∀ acc, L.accountRlp acc (zeroVec 32) = L.accountRlp acc L.emptyRoot
  accountRlp_ne : ∀ acc root, L.accountRlp acc root ≠ L.rlpEncode []
  /-- The leading zeros are dropped. -/
  zerolessView : ∀ v, L.zerolessView v = v.toList.dropWhile (· = 0)
  isZeroQuick : ∀ root, L.isZeroQuick root = true ↔ root = zeroVec 32
  rlpEncode_ne : ∀ b, b ≠ [] → L.rlpEncode b ≠ L.rlpEncode []
  storageHash_empty : storageHash (fun _ => none) = L.emptyRoot
  storageHash_ne : ∀ addr, storageHash (storageTrie U post addr) ≠ zeroVec 32
  calcStorageRoot : ∀ addr updates, Updates (slotHash L U) updates →
    L.calcStorageRoot nodes (storageHash (storageTrie U pre addr)) updates =
      storageHash (update (slotHash L U) (L.rlpEncode []) (storageTrie U pre addr) updates)
  calcAccountRoot : ∀ updates, Updates (addressHash L U) updates →
    L.calcAccountRoot nodes (accountHash (accountTrie U storageHash pre)) updates =
      accountHash (update (addressHash L U) (L.rlpEncode []) (accountTrie U storageHash pre) updates)

/-- Only zero has no bytes but leading zeros. -/
theorem dropWhile_eq_nil {v : Bytes32} : v.toList.dropWhile (· = 0) = [] ↔ v = zeroVec 32 := by
  have hzero : (zeroVec 32).toList = List.replicate 32 0 := rfl
  rw [List.dropWhile_eq_nil_iff]
  constructor
  · intro h
    apply toList_injective
    rw [hzero, List.eq_replicate_iff]
    exact ⟨List.Vector.toList_length v, fun b hb => by simpa using h b hb⟩
  · rintro rfl b hb
    rw [hzero] at hb
    exact decide_eq_true (List.eq_of_mem_replicate hb)

variable {U} {nodes : L.NodeStore} {st : L.State} {number : BitVec 64}
  {accs : AccountChanges L.Account} {stor : StorageChanges} {pre post : World L}
  {storageHash : (U.Slot → Option Bytes) → Bytes32} {accountHash : (U.Address → Option Bytes) → Bytes32}

/-- The account trie after the update, as the guest computes it. -/
def rebuiltTrie (L : Library) {U : KeysInUse} (nodes : L.NodeStore) (st : L.State)
    (accs : AccountChanges L.Account) (stor : StorageChanges) (trie : U.Address → Option Bytes) :
    U.Address → Option Bytes :=
  update (addressHash L U) (L.rlpEncode []) trie (sortByKey (accUpdates L nodes st accs stor))

namespace Executed

variable (h : Executed U nodes st number accs stor pre post storageHash accountHash)

include h

/-- Only zero is encoded without bytes. -/
theorem zerolessView_eq_nil (v : Bytes32) : L.zerolessView v = [] ↔ v = zeroVec 32 := by
  rw [h.zerolessView]
  exact dropWhile_eq_nil

/-! ### Storage -/

/-- **The storage update list leads to the storage after the block.** -/
theorem update_storUpdates {addr : Address} {slots : SlotChanges}
    (hlookup : stor.lookup addr = some slots) :
    update (slotHash L U) (L.rlpEncode []) (storageTrie U pre addr)
      (sortByKey (storUpdates L st addr slots)) = storageTrie U post addr := by
  have hmem := (lookup_eq_some_iff h.keyed.storage).mp hlookup
  have hlist : UpdateList (sortByKey (storUpdates L st addr slots)) _ _ _ :=
    updateList_storUpdates h.keyed hmem
  funext slot
  by_cases hslot : ∃ v, (slot.1, v) ∈ slots ∧ post.storage addr slot.1 ≠ v
  · -- The slot has changed, so it is in the list.
    obtain ⟨v, hv, hne⟩ := hslot
    have hwrites : L.readStorage st addr slot.1 ≠ v := by
      rw [h.readStorage]
      exact hne
    rw [update_of_writes (slotHash L U) hlist hv ⟨hwrites, rfl⟩ rfl, h.readStorage]
    unfold storageTrie slotLeaf
    by_cases hzero : post.storage addr slot.1 = zeroVec 32
    · rw [if_pos hzero, if_pos (by rw [(h.zerolessView_eq_nil _).mpr hzero])]
    · have hne : L.zerolessView (post.storage addr slot.1) ≠ [] := fun hnil =>
        hzero ((h.zerolessView_eq_nil _).mp hnil)
      rw [if_neg hzero, if_neg (h.rlpEncode_ne _ hne)]
  · -- Nothing is written under its key, since no other slot in use has the same hash.
    have hsame : post.storage addr slot.1 = pre.storage addr slot.1 := by
      by_cases hin : slot.1 ∈ slots.map Prod.fst
      · obtain ⟨⟨other, v⟩, hv, hother⟩ := List.mem_map.mp hin
        have hvalue : v = pre.storage addr other := h.slot_recorded _ hmem _ hv
        change other = slot.1 at hother
        subst hother
        rw [← hvalue]
        exact not_not.mp fun hne => hslot ⟨v, hv, hne⟩
      · apply h.slot_unchanged addr slot.1
        intro change hchange haddr
        have hother :=
          (lookup_eq_some_iff h.keyed.storage).mpr (haddr ▸ hchange : (addr, change.2) ∈ stor)
        rw [hlookup, Option.some.injEq] at hother
        rwa [← hother]
    rw [update_of_not_writes _ hlist]
    · rw [storageTrie, storageTrie, hsame]
    · rintro ⟨other, v⟩ hv hkey b ⟨hne, -⟩
      have hused : U.slots other := h.recordedSlot_inUse _ hmem _ hv
      have hother : (⟨other, hused⟩ : U.Slot) = slot := h.hash_slot hkey
      subst hother
      rw [h.readStorage] at hne
      exact hslot ⟨v, hv, hne⟩

/-- The storage of an account that is not recorded has not changed. -/
theorem storage_of_lookup_eq_none {addr : Address} (hlookup : stor.lookup addr = none) :
    storageTrie U post addr = storageTrie U pre addr := by
  funext slot
  have hsame : post.storage addr slot.1 = pre.storage addr slot.1 := by
    apply h.slot_unchanged addr slot.1
    intro change hchange haddr
    have hsome :=
      (lookup_eq_some_iff h.keyed.storage).mpr (haddr ▸ hchange : (addr, change.2) ∈ stor)
    rw [hlookup] at hsome
    cases hsome
  rw [storageTrie, storageTrie, hsame]

/-- The storage root of the record before the block, or of a value-initialized one. -/
theorem storageRoot_recorded (addr : Address) :
    L.storageRoot ((pre.account addr).getD L.defaultAccount) ≠ zeroVec 32 ∧
        L.storageRoot ((pre.account addr).getD L.defaultAccount) =
          storageHash (storageTrie U pre addr) ∨
      L.storageRoot ((pre.account addr).getD L.defaultAccount) = zeroVec 32 ∧
        storageTrie U pre addr = fun _ => none := by
  have hempty : (∀ slot, pre.storage addr slot = zeroVec 32) →
      storageTrie U pre addr = fun _ => none := by
    intro hzero
    funext slot
    exact if_pos (hzero slot.1)
  cases hacc : pre.account addr with
  | none => exact .inr ⟨h.storageRoot_default, hempty (h.storage_absent addr hacc)⟩
  | some acc =>
    rcases h.storageRoot addr acc hacc with hroot | ⟨hzero, hslots⟩
    · exact .inl hroot
    · exact .inr ⟨hzero, hempty hslots⟩

/-- The storage root of the record encodes as that of the storage before the block. -/
theorem accountRlp_storageRoot (addr : Address) (acc : L.Account) :
    L.accountRlp acc (L.storageRoot ((pre.account addr).getD L.defaultAccount)) =
      L.accountRlp acc (storageHash (storageTrie U pre addr)) := by
  rcases h.storageRoot_recorded addr with ⟨-, hroot⟩ | ⟨hzero, hempty⟩
  · rw [hroot]
  · rw [hzero, hempty, h.storageHash_empty, h.accountRlp_zero]

/-- The base of the storage update is the storage before the block. -/
theorem base_eq (addr : Address) :
    (if L.isZeroQuick (L.storageRoot ((pre.account addr).getD L.defaultAccount)) = true then
        L.emptyRoot
      else L.storageRoot ((pre.account addr).getD L.defaultAccount)) =
        storageHash (storageTrie U pre addr) := by
  rcases h.storageRoot_recorded addr with ⟨hne, hroot⟩ | ⟨hzero, hempty⟩
  · rw [if_neg (mt (h.isZeroQuick _).mp hne), hroot]
  · rw [if_pos ((h.isZeroQuick _).mpr hzero), hempty, h.storageHash_empty]

/-- **The storage root of an account**: that of its storage after the block, unless no slot
of it has changed. -/
theorem storageRootOf_cases (addr : Address) :
    storageRootOf L nodes st stor addr ((pre.account addr).getD L.defaultAccount) =
        storageHash (storageTrie U post addr) ∨
      storageRootOf L nodes st stor addr ((pre.account addr).getD L.defaultAccount) =
          L.storageRoot ((pre.account addr).getD L.defaultAccount) ∧
        storageTrie U post addr = storageTrie U pre addr := by
  unfold storageRootOf
  cases hlookup : stor.lookup addr with
  | none => exact .inr ⟨rfl, h.storage_of_lookup_eq_none hlookup⟩
  | some slots =>
    have hupdate := h.update_storUpdates hlookup
    have hmem := (lookup_eq_some_iff h.keyed.storage).mp hlookup
    by_cases hnone : storUpdates L st addr slots = []
    · rw [hnone] at hupdate
      refine .inr ⟨if_pos hnone, hupdate.symm.trans ?_⟩
      rfl
    · have hupdates : Updates (slotHash L U) (sortByKey (storUpdates L st addr slots)) := by
        have hlist : UpdateList (sortByKey (storUpdates L st addr slots)) _ _ _ :=
          updateList_storUpdates h.keyed hmem
        refine ⟨hlist.sorted, ?_⟩
        intro node hnode
        obtain ⟨slot, hslot, hkey, -⟩ := hlist.only node hnode
        exact ⟨⟨slot.1, h.recordedSlot_inUse _ hmem _ hslot⟩, hkey⟩
      refine .inl ?_
      dsimp only
      rw [if_neg hnone, h.base_eq addr, h.calcStorageRoot addr _ hupdates, hupdate]

/-- The storage root encodes as that of the storage after the block. -/
theorem accountRlp_storageRootOf (addr : Address) (acc : L.Account) :
    L.accountRlp acc
        (storageRootOf L nodes st stor addr ((pre.account addr).getD L.defaultAccount)) =
      L.accountRlp acc (storageHash (storageTrie U post addr)) := by
  rcases h.storageRootOf_cases addr with hroot | ⟨hroot, hsame⟩
  · rw [hroot]
  · rw [hroot, h.accountRlp_storageRoot, hsame]

/-- The storage root of an absent account stays zero when no slot is written. -/
theorem storageRootOf_absent {addr : Address} (habsent : pre.account addr = none) :
    storageRootOf L nodes st stor addr ((pre.account addr).getD L.defaultAccount) =
        L.storageRoot ((pre.account addr).getD L.defaultAccount) ↔
      ∀ slot, post.storage addr slot = zeroVec 32 := by
  have hpre : ∀ slot, pre.storage addr slot = zeroVec 32 := h.storage_absent addr habsent
  have hdefault : L.storageRoot ((pre.account addr).getD L.defaultAccount) = zeroVec 32 := by
    rw [habsent]
    exact h.storageRoot_default
  constructor
  · intro heq slot
    -- A rebuilt root is not zero, so the root is the recorded one and the trie has not changed.
    rcases h.storageRootOf_cases addr with hroot | ⟨-, hsame⟩
    · rw [heq, hdefault] at hroot
      exact absurd hroot.symm (h.storageHash_ne _)
    · by_cases hused : U.slots slot
      · have hleaf := congrFun hsame ⟨slot, hused⟩
        rw [storageTrie, storageTrie, slotLeaf, slotLeaf, if_pos (hpre slot)] at hleaf
        by_contra hne
        rw [if_neg hne] at hleaf
        cases hleaf
      · -- A slot that is not in use has not been written.
        refine (h.slot_unchanged addr slot fun change hchange _ hslot => hused ?_).trans (hpre slot)
        obtain ⟨recorded, hrecorded, rfl⟩ := List.mem_map.mp hslot
        exact h.recordedSlot_inUse change hchange recorded hrecorded
  · intro hzero
    -- Every slot still has the value it was recorded with, so there is nothing to write.
    unfold storageRootOf
    cases hlookup : stor.lookup addr with
    | none => rfl
    | some slots =>
      have hmem := (lookup_eq_some_iff h.keyed.storage).mp hlookup
      have hnone : storUpdates L st addr slots = [] := by
        rw [storUpdates, List.filterMap_eq_nil_iff]
        intro slot hslot
        have hrecorded : slot.2 = zeroVec 32 := (h.slot_recorded _ hmem _ hslot).trans (hpre _)
        apply if_pos
        rw [h.readStorage, hzero, hrecorded]
      exact if_pos hnone

/-! ### Accounts -/

/-- The storage of an account that is not recorded. -/
theorem storage_of_not_mem {addr : Address} (hmem : addr ∉ accs.map Prod.fst) :
    storageTrie U post addr = storageTrie U pre addr := by
  apply h.storage_of_lookup_eq_none
  cases hlookup : stor.lookup addr with
  | none => rfl
  | some slots =>
    exact absurd (h.slot_account _ ((lookup_eq_some_iff h.keyed.storage).mp hlookup)) hmem

/-- The record of an address, and whether it is skipped, decide what is written for it. -/
theorem rebuiltTrie_of_skipped (addr : U.Address) (trie : U.Address → Option Bytes)
    (hskip : ∀ cur, post.account addr.1 = some cur →
      L.accountEq ((pre.account addr.1).getD L.defaultAccount) cur = true ∧
        storageRootOf L nodes st stor addr.1 ((pre.account addr.1).getD L.defaultAccount) =
          L.storageRoot ((pre.account addr.1).getD L.defaultAccount)) :
    rebuiltTrie L nodes st accs stor trie addr = trie addr := by
  refine update_of_not_writes _ (updateList_accUpdates h.keyed) ?_
  rintro ⟨other, accOpt⟩ hchange hkey v ⟨cur, hcur, hwrites, -⟩
  have hused : U.addresses other := h.recorded_inUse _ hchange
  have hother : (⟨other, hused⟩ : U.Address) = addr := h.hash_address hkey
  subst hother
  have hrecorded : accOpt = pre.account other := h.account_recorded _ hchange
  subst hrecorded
  rw [h.readAccount] at hcur
  exact hwrites (hskip cur hcur)

/-- An account that is not skipped is written with its storage root. -/
theorem rebuiltTrie_of_written {addr : U.Address} (trie : U.Address → Option Bytes)
    (hmem : addr.1 ∈ accs.map Prod.fst) {cur : L.Account} (hcur : post.account addr.1 = some cur)
    (hwrites : ¬(L.accountEq ((pre.account addr.1).getD L.defaultAccount) cur = true ∧
      storageRootOf L nodes st stor addr.1 ((pre.account addr.1).getD L.defaultAccount) =
        L.storageRoot ((pre.account addr.1).getD L.defaultAccount))) :
    rebuiltTrie L nodes st accs stor trie addr =
      some (L.accountRlp cur (storageHash (storageTrie U post addr.1))) := by
  obtain ⟨addr, hused⟩ := addr
  obtain ⟨⟨other, accOpt⟩, hchange, rfl⟩ := List.mem_map.mp hmem
  have hrecorded : accOpt = pre.account other := h.account_recorded _ hchange
  subst hrecorded
  have hread : L.readAccount st other = some cur := (h.readAccount other).trans hcur
  unfold rebuiltTrie
  rw [update_of_writes (addressHash L U) (updateList_accUpdates h.keyed) hchange
    ⟨cur, hread, hwrites, rfl⟩ rfl, if_neg (h.accountRlp_ne _ _), h.accountRlp_storageRootOf]

/-- **The rebuilt trie is right at an address exactly when the account is not missed.** -/
theorem rebuiltTrie_eq_iff (addr : U.Address) :
    rebuiltTrie L nodes st accs stor (accountTrie U storageHash pre) addr =
      accountTrie U storageHash post addr ↔ ¬Missed pre post addr.1 := by
  by_cases hmem : addr.1 ∈ accs.map Prod.fst
  swap
  · -- Nothing is recorded of the account, and nothing has changed.
    have hacc := h.account_unchanged addr.1 hmem
    have hnone : rebuiltTrie L nodes st accs stor (accountTrie U storageHash pre) addr =
        accountTrie U storageHash pre addr := by
      refine update_of_not_writes _ (updateList_accUpdates h.keyed) ?_
      intro change hchange hkey
      have hother : (⟨change.1, h.recorded_inUse _ hchange⟩ : U.Address) = addr :=
        h.hash_address hkey
      subst hother
      exact absurd (List.mem_map.mpr ⟨change, hchange, rfl⟩) hmem
    have hsame : accountTrie U storageHash pre addr = accountTrie U storageHash post addr := by
      unfold accountTrie
      rw [hacc, h.storage_of_not_mem hmem]
    refine ⟨?_, fun _ => hnone.trans hsame⟩
    rintro - (⟨hsome, hpost⟩ | ⟨hpre, cur, hpost, -⟩)
    · rw [← hacc, hpost] at hsome
      cases hsome
    · rw [hacc, hpre] at hpost
      cases hpost
  cases hpost : post.account addr.1 with
  | none =>
    have hskip := h.rebuiltTrie_of_skipped addr (accountTrie U storageHash pre)
      fun cur hcur => by rw [hpost] at hcur; cases hcur
    rw [hskip, accountTrie, accountTrie, hpost, Option.map_none, Option.map_eq_none_iff]
    constructor
    · rintro hpre (⟨hsome, -⟩ | ⟨-, cur, hcur, -⟩)
      · rw [hpre] at hsome
        cases hsome
      · rw [hpost] at hcur
        cases hcur
    · intro hmissed
      by_contra hpre
      exact hmissed (.inl ⟨Option.isSome_iff_ne_none.mpr hpre, hpost⟩)
  | some cur =>
    by_cases hskip : L.accountEq ((pre.account addr.1).getD L.defaultAccount) cur = true ∧
        storageRootOf L nodes st stor addr.1 ((pre.account addr.1).getD L.defaultAccount) =
          L.storageRoot ((pre.account addr.1).getD L.defaultAccount)
    · have hkept := h.rebuiltTrie_of_skipped addr (accountTrie U storageHash pre)
        fun cur' hcur' => by rw [hpost, Option.some.injEq] at hcur'; rw [← hcur']; exact hskip
      rw [hkept, accountTrie, accountTrie, hpost, Option.map_some]
      cases hpre : pre.account addr.1 with
      | none =>
        -- An account created equal to a value-initialized one is taken for unchanged.
        rw [Option.map_none]
        have hdefault := hskip.1
        rw [hpre] at hdefault
        refine ⟨fun heq => (by cases heq), ?_⟩
        intro hmissed
        exact absurd (.inr ⟨hpre, cur, hpost, hdefault, (h.storageRootOf_absent hpre).mp hskip.2⟩)
          hmissed
      | some acc =>
        have hleaf : L.accountRlp acc (storageHash (storageTrie U pre addr.1)) =
            L.accountRlp cur (storageHash (storageTrie U post addr.1)) := by
          have heq := hskip.1
          rw [hpre] at heq
          calc L.accountRlp acc (storageHash (storageTrie U pre addr.1))
              = L.accountRlp cur (storageHash (storageTrie U pre addr.1)) := h.accountEq _ _ heq _
            _ = L.accountRlp cur (L.storageRoot ((pre.account addr.1).getD L.defaultAccount)) :=
              (h.accountRlp_storageRoot addr.1 cur).symm
            _ = L.accountRlp cur (storageHash (storageTrie U post addr.1)) := by
              rw [← hskip.2, h.accountRlp_storageRootOf]
        rw [Option.map_some, hleaf]
        refine ⟨?_, fun _ => rfl⟩
        rintro - (⟨-, hnone⟩ | ⟨hnone, -⟩)
        · rw [hpost] at hnone
          cases hnone
        · rw [hpre] at hnone
          cases hnone
    · rw [h.rebuiltTrie_of_written _ hmem hpost hskip, accountTrie, hpost, Option.map_some]
      refine ⟨?_, fun _ => rfl⟩
      rintro - (⟨-, hnone⟩ | ⟨hnone, cur', hcur', heq, hzero⟩)
      · rw [hpost] at hnone
        cases hnone
      · rw [hpost, Option.some.injEq] at hcur'
        subst hcur'
        refine hskip ⟨?_, (h.storageRootOf_absent hnone).mpr hzero⟩
        rw [hnone]
        exact heq

/-- The account updates are sorted, and under keys of the account trie. -/
theorem updates_accUpdates :
    Updates (addressHash L U) (sortByKey (accUpdates L nodes st accs stor)) := by
  have hlist : UpdateList (sortByKey (accUpdates L nodes st accs stor)) _ _ _ :=
    updateList_accUpdates h.keyed
  refine ⟨hlist.sorted, ?_⟩
  intro node hnode
  obtain ⟨change, hchange, hkey, -⟩ := hlist.only node hnode
  exact ⟨⟨change.1, h.recorded_inUse _ hchange⟩, hkey⟩

/-- The rebuilt root is that of the rebuilt trie. -/
theorem computedStateRoot_eq {parentHash : Bytes32}
    (hprev : prevRootOf L st number parentHash = accountHash (accountTrie U storageHash pre)) :
    computedStateRoot L nodes st number parentHash =
      .ok (accountHash (rebuiltTrie L nodes st accs stor (accountTrie U storageHash pre))) := by
  refine computedStateRoot_eq_ok.mpr ⟨accs, stor, h.accountChanges, h.storageChanges, ?_⟩
  rw [rebuiltRoot, hprev, h.calcAccountRoot _ h.updates_accUpdates]
  rfl

/-- The rebuilt trie, where no account is missed. -/
theorem rebuiltTrie_eq (hmissed : ∀ addr, ¬Missed pre post addr) :
    rebuiltTrie L nodes st accs stor (accountTrie U storageHash pre) =
      accountTrie U storageHash post := by
  funext addr
  exact (h.rebuiltTrie_eq_iff addr).mpr (hmissed addr.1)

/-- An address that is not in use has no account, before the block or after it. -/
theorem not_missed_of_not_inUse {addr : Address} (hused : ¬U.addresses addr) :
    ¬Missed pre post addr := by
  have hpre : pre.account addr = none := by
    by_contra hne
    exact hused (h.account_inUse addr hne)
  have hpost : post.account addr = none := by
    rw [h.account_unchanged addr, hpre]
    intro hmem
    obtain ⟨change, hchange, rfl⟩ := List.mem_map.mp hmem
    exact hused (h.recorded_inUse change hchange)
  rintro (⟨hsome, -⟩ | ⟨-, cur, hcur, -⟩)
  · rw [hpre] at hsome
    cases hsome
  · rw [hpost] at hcur
    cases hcur

end Executed

end

/-- **The rebuilt root is the root of the post-state exactly when no account is missed**, if
the root tells the rebuilt trie and that of the post-state apart. -/
theorem computedStateRoot_postState (L : Library) (U : KeysInUse) {nodes : L.NodeStore}
    {st : L.State} {number : BitVec 64} {parentHash : Bytes32} {accs : AccountChanges L.Account}
    {stor : StorageChanges} {pre post : World L} {storageHash : (U.Slot → Option Bytes) → Bytes32}
    {accountHash : (U.Address → Option Bytes) → Bytes32}
    (h : Executed U nodes st number accs stor pre post storageHash accountHash)
    (hprev : prevRootOf L st number parentHash = accountHash (accountTrie U storageHash pre))
    (hroot : accountHash (rebuiltTrie L nodes st accs stor (accountTrie U storageHash pre)) =
        accountHash (accountTrie U storageHash post) →
      rebuiltTrie L nodes st accs stor (accountTrie U storageHash pre) =
        accountTrie U storageHash post) :
    computedStateRoot L nodes st number parentHash =
        .ok (accountHash (accountTrie U storageHash post)) ↔
      ∀ addr, ¬Missed pre post addr := by
  rw [h.computedStateRoot_eq hprev, Except.ok.injEq]
  constructor
  · intro heq addr
    -- The root tells the tries apart at the addresses in use; no other address has an
    -- account.
    by_cases hused : U.addresses addr
    · exact (h.rebuiltTrie_eq_iff ⟨addr, hused⟩).mp (congrFun (hroot heq) ⟨addr, hused⟩)
    · exact h.not_missed_of_not_inUse hused
  · intro hmissed
    rw [h.rebuiltTrie_eq hmissed]

/-! ### A block that changes one account -/

/-- The root of a trie with at most one leaf. -/
def leafRoot : Option Bytes → Bytes32
  | none => padTo 32 [1]
  | some v => padTo 32 (2 :: v)

/-- The root of such a trie after an update. -/
def leafUpdate (key root : Bytes32) (updates : List TrieNodeFlat) : Bytes32 :=
  match updates.find? fun node => node.key = key with
  | none => root
  | some node => leafRoot (if node.value = [] then none else some node.value)

theorem leafRoot_update {K : Type} (hash : K → Bytes32) (trie : K → Option Bytes)
    (updates : List TrieNodeFlat) (k : K) :
    leafUpdate (hash k) (leafRoot (trie k)) updates = leafRoot (update hash [] trie updates k) := by
  unfold leafUpdate update
  cases updates.find? fun node => node.key = hash k with
  | none => rfl
  | some node => rfl

/-- The empty and the single leaf are not zero. -/
theorem leafRoot_ne (leaf : Option Bytes) : leafRoot leaf ≠ zeroVec 32 := by
  intro h
  have hhead := congrArg (fun v : Bytes32 => v.toList.head?) h
  cases leaf with
  | none => exact absurd hhead (by decide)
  | some v =>
    change some (2 : UInt8) = some 0 at hhead
    exact absurd hhead (by decide)

variable (before after : Option (Bytes × Bytes32)) (slotAfter : Bytes32)

/-- The state before the block: one account, without storage. -/
def accountBefore (L : Library) (acc : Option L.Account) : World L where
  account addr := if addr = zeroVec 20 then acc else none
  storage _ _ := zeroVec 32

/-- The state after the block: one account, with one slot. -/
def accountAfter (L : Library) (acc : Option L.Account) (v : Bytes32) : World L where
  account addr := if addr = zeroVec 20 then acc else none
  storage addr slot := if addr = zeroVec 20 ∧ slot = zeroVec 32 then v else zeroVec 32

/-- A library whose tries have at most one leaf, after a block that has written the account
of the zero address and its slot zero. -/
def oneAccountLibrary : Library :=
  { strictLibrary with
    emptyRoot := leafRoot none
    accountChanges := fun _ number => if number = 1 then some [(zeroVec 20, before)] else none
    storageChanges := fun _ number =>
      if number = 1 then some [(zeroVec 20, [(zeroVec 32, zeroVec 32)])] else none
    readAccount := fun _ addr => if addr = zeroVec 20 then after else none
    readStorage := fun _ addr slot =>
      if addr = zeroVec 20 ∧ slot = zeroVec 32 then slotAfter else zeroVec 32
    accountRlp := fun acc root =>
      acc.1 ++ (if root = zeroVec 32 then leafRoot none else root).toList
    calcStorageRoot := fun _ => leafUpdate (strictLibrary.keccak256 (zeroVec 32).toList)
    calcAccountRoot := fun _ => leafUpdate (strictLibrary.keccak256 (zeroVec 20).toList) }

/-- A state with the header before the block, which names the root of the state before it. -/
def stateBefore : List (Bytes32 × BlockHeader Unit) :=
  [(zeroVec 32,
    { stateRoot := leafRoot (before.map fun acc => acc.1 ++ (leafRoot none).toList), rest := () })]

/-- The keys of that library. -/
def zeroKeys : KeysInUse where
  addresses addr := addr = zeroVec 20
  slots slot := slot = zeroVec 32

/-- The root of its storage tries. -/
def oneSlotRoot (trie : zeroKeys.Slot → Option Bytes) : Bytes32 := leafRoot (trie ⟨zeroVec 32, rfl⟩)

/-- The root of its account trie. -/
def oneAddressRoot (trie : zeroKeys.Address → Option Bytes) : Bytes32 :=
  leafRoot (trie ⟨zeroVec 20, rfl⟩)

theorem zeroKeys_slot : ∀ slot : zeroKeys.Slot, slot = ⟨zeroVec 32, rfl⟩
  | ⟨_, rfl⟩ => rfl

theorem zeroKeys_address : ∀ addr : zeroKeys.Address, addr = ⟨zeroVec 20, rfl⟩
  | ⟨_, rfl⟩ => rfl

/-- The library keeps its promises. -/
theorem executed_oneAccount (nodes : List Bytes) (st : List (Bytes32 × BlockHeader Unit))
    (hbefore : ∀ acc, before = some acc → acc.2 = zeroVec 32) :
    Executed (L := oneAccountLibrary before after slotAfter) zeroKeys nodes st 1
      [(zeroVec 20, before)]
      [(zeroVec 20, [(zeroVec 32, zeroVec 32)])] (accountBefore _ before)
      (accountAfter _ after slotAfter) oneSlotRoot oneAddressRoot where
  accountChanges := rfl
  storageChanges := rfl
  keyed := ⟨by simp, by simp, by simp, by simp, by simp⟩
  hash_address a b _ := (zeroKeys_address a).trans (zeroKeys_address b).symm
  hash_slot a b _ := (zeroKeys_slot a).trans (zeroKeys_slot b).symm
  account_inUse := by
    intro addr hacc
    by_contra hne
    exact hacc (if_neg hne)
  slot_inUse := by
    intro addr slot hslot
    exact absurd rfl hslot
  recorded_inUse := by
    intro change hchange
    rw [List.mem_singleton] at hchange
    rw [hchange]
    rfl
  recordedSlot_inUse := by
    intro change hchange slot hslot
    rw [List.mem_singleton] at hchange
    rw [hchange, List.mem_singleton] at hslot
    rw [hslot]
    rfl
  account_recorded := by
    intro change hchange
    rw [List.mem_singleton] at hchange
    rw [hchange]
    exact (if_pos rfl : (if zeroVec 20 = zeroVec 20 then before else none) = before).symm
  account_unchanged := by
    intro addr haddr
    have hne : addr ≠ zeroVec 20 := by simpa using haddr
    exact (if_neg hne).trans (if_neg hne).symm
  slot_recorded := by
    intro change hchange slot hslot
    rw [List.mem_singleton] at hchange
    rw [hchange, List.mem_singleton] at hslot
    rw [hslot]
    rfl
  slot_unchanged := by
    intro addr slot hunwritten
    apply if_neg
    rintro ⟨rfl, rfl⟩
    exact hunwritten _ List.mem_cons_self rfl (by simp)
  slot_account := by simp
  readAccount _ := rfl
  readStorage _ _ := rfl
  -- No storage before the block: both roots of the record are zero.
  storageRoot := by
    intro addr acc hacc
    refine .inr ⟨?_, fun _ => rfl⟩
    by_cases haddr : addr = zeroVec 20
    · exact hbefore acc ((if_pos haddr).symm.trans hacc)
    · cases (if_neg haddr).symm.trans hacc
  storage_absent _ _ _ := rfl
  storageRoot_default := rfl
  accountEq := by
    intro acc acc' heq root
    have hfst : acc.1 = acc'.1 := of_decide_eq_true heq
    change acc.1 ++ _ = acc'.1 ++ _
    rw [hfst]
  accountRlp_zero acc := by
    change acc.1 ++ _ =
      acc.1 ++ (if leafRoot none = zeroVec 32 then leafRoot none else leafRoot none).toList
    rw [if_pos rfl, ite_self]
  accountRlp_ne := by
    intro acc root hnil
    have hlen := congrArg List.length hnil
    change (acc.1 ++ (if root = zeroVec 32 then leafRoot none else root).toList).length = 0 at hlen
    rw [List.length_append, List.Vector.toList_length] at hlen
    omega
  zerolessView _ := rfl
  isZeroQuick _ := decide_eq_true_iff
  rlpEncode_ne _ h := h
  storageHash_empty := rfl
  storageHash_ne _ := leafRoot_ne _
  calcStorageRoot addr updates _ :=
    leafRoot_update (slotHash (oneAccountLibrary before after slotAfter) zeroKeys)
      (storageTrie zeroKeys (accountBefore (oneAccountLibrary before after slotAfter) before) addr)
      updates ⟨zeroVec 32, rfl⟩
  calcAccountRoot updates _ :=
    leafRoot_update (addressHash (oneAccountLibrary before after slotAfter) zeroKeys)
      (accountTrie zeroKeys oneSlotRoot
        (accountBefore (oneAccountLibrary before after slotAfter) before))
      updates ⟨zeroVec 20, rfl⟩

/-- The base of the rebuild is the root of the state before the block. -/
theorem prevRoot_oneAccount :
    prevRootOf (oneAccountLibrary before after slotAfter) (stateBefore before) 1 (zeroVec 32) =
      oneAddressRoot (accountTrie zeroKeys oneSlotRoot
        (accountBefore (oneAccountLibrary before after slotAfter) before)) := by
  cases before with
  | none => rfl
  | some acc =>
    change leafRoot (some (acc.1 ++ (leafRoot none).toList)) =
      leafRoot (some (acc.1 ++
        (if leafRoot none = zeroVec 32 then leafRoot none else leafRoot none).toList))
    rw [ite_self]

/-- An account that exists before and after the block is not missed. -/
theorem not_missed_oneAccount {L : Library} (acc acc' : L.Account) (v : Bytes32) (addr : Address) :
    ¬Missed (accountBefore L (some acc)) (accountAfter L (some acc') v) addr := by
  by_cases haddr : addr = zeroVec 20
  · have hpre : (accountBefore L (some acc)).account addr = some acc := if_pos haddr
    have hpost : (accountAfter L (some acc') v).account addr = some acc' := if_pos haddr
    rintro (⟨-, hnone⟩ | ⟨hnone, -⟩)
    · rw [hpost] at hnone
      cases hnone
    · rw [hpre] at hnone
      cases hnone
  · have hpre : (accountBefore L (some acc)).account addr = none := if_neg haddr
    have hpost : (accountAfter L (some acc') v).account addr = none := if_neg haddr
    rintro (⟨hsome, -⟩ | ⟨-, cur, hcur, -⟩)
    · rw [hpre] at hsome
      cases hsome
    · rw [hpost] at hcur
      cases hcur

/-- An account whose balance changes and whose slot is set. -/
theorem computedStateRoot_postState_modified :
    computedStateRoot (oneAccountLibrary (some ([7], zeroVec 32)) (some ([8], zeroVec 32))
        (padTo 32 [9])) [] (stateBefore (some ([7], zeroVec 32))) 1 (zeroVec 32) =
      .ok (oneAddressRoot (accountTrie zeroKeys oneSlotRoot
        (accountAfter (oneAccountLibrary (some ([7], zeroVec 32)) (some ([8], zeroVec 32))
          (padTo 32 [9])) (some ([8], zeroVec 32)) (padTo 32 [9])))) := by
  have hexecuted := executed_oneAccount (some ([7], zeroVec 32)) (some ([8], zeroVec 32))
    (padTo 32 [9]) [] (stateBefore (some ([7], zeroVec 32))) fun acc hacc => by cases hacc; rfl
  have hkept := not_missed_oneAccount (L := oneAccountLibrary (some ([7], zeroVec 32))
    (some ([8], zeroVec 32)) (padTo 32 [9])) ([7], zeroVec 32) ([8], zeroVec 32) (padTo 32 [9])
  exact (computedStateRoot_postState _ zeroKeys hexecuted (prevRoot_oneAccount _ _ _)
    fun _ => hexecuted.rebuiltTrie_eq hkept).mpr hkept

/-- The block deletes the only account, but the rebuilt root is that of the state before. -/
theorem computedStateRoot_postState_counterexample :
    Executed (L := oneAccountLibrary (some ([7], zeroVec 32)) none (zeroVec 32)) zeroKeys []
        (stateBefore (some ([7], zeroVec 32))) 1 [(zeroVec 20, some ([7], zeroVec 32))]
        [(zeroVec 20, [(zeroVec 32, zeroVec 32)])] (accountBefore _ (some ([7], zeroVec 32)))
        (accountAfter _ none (zeroVec 32)) oneSlotRoot oneAddressRoot ∧
      prevRootOf (oneAccountLibrary (some ([7], zeroVec 32)) none (zeroVec 32))
          (stateBefore (some ([7], zeroVec 32))) 1 (zeroVec 32) =
        oneAddressRoot (accountTrie zeroKeys oneSlotRoot
          (accountBefore (oneAccountLibrary (some ([7], zeroVec 32)) none (zeroVec 32))
            (some ([7], zeroVec 32)))) ∧
      computedStateRoot (oneAccountLibrary (some ([7], zeroVec 32)) none (zeroVec 32)) []
          (stateBefore (some ([7], zeroVec 32))) 1 (zeroVec 32) ≠
        .ok (oneAddressRoot (accountTrie zeroKeys oneSlotRoot
          (accountAfter (oneAccountLibrary (some ([7], zeroVec 32)) none (zeroVec 32)) none
            (zeroVec 32)))) :=
  ⟨executed_oneAccount _ _ _ _ _ fun acc hacc => by cases hacc; rfl,
    prevRoot_oneAccount _ _ _, by decide⟩

end StatelessGuest
