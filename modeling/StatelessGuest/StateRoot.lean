import Mathlib.Data.List.Sort
import StatelessGuest.Zilkworm

/-!
# The post-state root

After the block has been executed, the guest collects what the block changed into update
lists, one for each account with changed storage and one for the accounts, and hands
them to the tries.  The changes come out of hash maps, in any order.

## Main definitions

* `slotUpdate`, `storUpdates`, `storageRootOf` — the update list and the root of the
  storage of one account.
* `accUpdate`, `accUpdates`, `computedStateRoot` — those of the accounts.
* `SameMap` — the same changes, traversed in another order.

## Main results

* `sortByKey_strict`, `sortByKey_perm` — sorting a list without repeated keys.
* `updates_canonical` — **the update lists are sorted, complete and free of
  duplicates**, and the root does not depend on the order of traversal.
-/

namespace StatelessGuest

open Ssz

section

variable (L : Library) (nodes : L.NodeStore) (st : L.State)

/-! ### The updates -/

/-- A slot whose value has changed. -/
def slotUpdate (addr : Address) (slot : Bytes32 × Bytes32) : Option TrieNodeFlat :=
  let cur := L.readStorage st addr slot.1
  if cur = slot.2 then none
  else some ⟨L.keccak256 slot.1.toList, L.rlpEncode (L.zerolessView cur)⟩

/-- The updates of the storage of an account, in the order of traversal. -/
def storUpdates (addr : Address) (slots : SlotChanges) : List TrieNodeFlat :=
  slots.filterMap (slotUpdate L st addr)

/-- The storage root of an account after the block. -/
def storageRootOf (stor : StorageChanges) (addr : Address) (acc : L.Account) : Bytes32 :=
  match stor.lookup addr with
  | none => L.storageRoot acc
  | some slots =>
    if storUpdates L st addr slots = [] then L.storageRoot acc
    else L.calcStorageRoot nodes
      (if L.isZeroQuick (L.storageRoot acc) = true then L.emptyRoot else L.storageRoot acc)
      (sortByKey (storUpdates L st addr slots))

/-- An account that exists and has changed. -/
def accUpdate (stor : StorageChanges) (change : Address × Option L.Account) :
    Option TrieNodeFlat :=
  let acc := change.2.getD L.defaultAccount
  let storageRoot := storageRootOf L nodes st stor change.1 acc
  match L.readAccount st change.1 with
  | none => none
  | some cur =>
    if L.accountEq acc cur = true ∧ storageRoot = L.storageRoot acc then none
    else some ⟨L.keccak256 change.1.toList, L.accountRlp cur storageRoot⟩

/-- The updates of the account trie, in the order of traversal. -/
def accUpdates (accs : AccountChanges L.Account) (stor : StorageChanges) : List TrieNodeFlat :=
  accs.filterMap (accUpdate L nodes st stor)

/-- The state root rebuilt from the changes, over the root of the parent header. -/
def rebuiltRoot (prevRoot : Bytes32) (accs : AccountChanges L.Account) (stor : StorageChanges) :
    Bytes32 :=
  L.calcAccountRoot nodes prevRoot (sortByKey (accUpdates L nodes st accs stor))

/-- The root that the post-state is rebuilt from. -/
def prevRootOf (number : BitVec 64) (parentHash : Bytes32) : Bytes32 :=
  match L.readHeader st (number - 1) parentHash with
  | some parent => parent.stateRoot
  | none => zeroVec 32

/-- `.at` of a map throws where there is no entry. -/
def entryAt {α : Type} (entry : Option α) : Except Fault α :=
  match entry with
  | some a => .ok a
  | none => .error .outOfRange

/-- `computed_state_root` -/
def computedStateRoot (number : BitVec 64) (parentHash : Bytes32) : Except Fault Bytes32 := do
  let accs ← entryAt (L.accountChanges st number)
  let stor ← entryAt (L.storageChanges st number)
  .ok (rebuiltRoot L nodes st (prevRootOf L st number parentHash) accs stor)

end

theorem entryAt_eq_ok {α : Type} {entry : Option α} {a : α} :
    entryAt entry = .ok a ↔ entry = some a := by
  cases entry with
  | none => exact ⟨fun h => (by cases h), fun h => (by cases h)⟩
  | some b => exact ⟨fun h => congrArg some (Except.ok.inj h), fun h => congrArg _ (Option.some.inj h)⟩

/-- The root is computed where both maps have an entry for the block. -/
theorem computedStateRoot_eq_ok {L : Library} {nodes : L.NodeStore} {st : L.State}
    {number : BitVec 64} {parentHash root : Bytes32} :
    computedStateRoot L nodes st number parentHash = .ok root ↔
      ∃ accs stor, L.accountChanges st number = some accs ∧ L.storageChanges st number = some stor ∧
        rebuiltRoot L nodes st (prevRootOf L st number parentHash) accs stor = root := by
  unfold computedStateRoot
  cases haccs : L.accountChanges st number with
  | none => exact ⟨fun h => (by cases h), fun ⟨_, _, h, _⟩ => (by cases h)⟩
  | some accs =>
    cases hstor : L.storageChanges st number with
    | none => exact ⟨fun h => (by cases h), fun ⟨_, _, _, h, _⟩ => (by cases h)⟩
    | some stor =>
      constructor
      · intro h
        exact ⟨accs, stor, rfl, rfl, Except.ok.inj h⟩
      · rintro ⟨accs', stor', haccs', hstor', hroot⟩
        cases haccs'
        cases hstor'
        exact congrArg Except.ok hroot

/-! ### Sorting -/

theorem sortByKey_perm_self (l : List TrieNodeFlat) : (sortByKey l).Perm l :=
  List.perm_insertionSort _ l

theorem mem_sortByKey {l : List TrieNodeFlat} {node : TrieNodeFlat} :
    node ∈ sortByKey l ↔ node ∈ l :=
  (sortByKey_perm_self l).mem_iff

/-- A list whose keys differ is sorted strictly. -/
theorem sortByKey_strict {l : List TrieNodeFlat} (h : (l.map TrieNodeFlat.key).Nodup) :
    (sortByKey l).Pairwise fun a b => keyNat a.key < keyNat b.key := by
  have hle : (sortByKey l).Pairwise fun a b => keyNat a.key ≤ keyNat b.key := by
    unfold sortByKey
    apply List.pairwise_insertionSort
  have hne : (sortByKey l).Pairwise fun a b => a.key ≠ b.key := by
    have hnodup := ((sortByKey_perm_self l).map TrieNodeFlat.key).nodup_iff.mpr h
    exact List.pairwise_map.mp hnodup
  refine hle.imp₂ ?_ hne
  intro a b hab hkey
  exact lt_of_le_of_ne hab fun heq => hkey (keyNat_injective heq)

/-- The order in which the nodes come makes no difference. -/
theorem sortByKey_perm {l l' : List TrieNodeFlat} (h : (l.map TrieNodeFlat.key).Nodup)
    (hperm : l.Perm l') : sortByKey l = sortByKey l' := by
  have h' : (l'.map TrieNodeFlat.key).Nodup := (hperm.map _).nodup_iff.mp h
  have hsorted : (sortByKey l).Perm (sortByKey l') :=
    ((sortByKey_perm_self l).trans hperm).trans (sortByKey_perm_self l').symm
  refine hsorted.eq_of_pairwise ?_ (sortByKey_strict h)
    (sortByKey_strict h')
  intro a b _ _ hab hba
  omega

/-! ### Update lists -/

section

variable {α : Type}

/-- A list of updates is sorted strictly, and holds exactly one node under the key of every
item that writes a value, and no other node. -/
structure UpdateList (l : List TrieNodeFlat) (items : List α) (key : α → Bytes32)
    (writes : α → Bytes → Prop) : Prop where
  sorted : l.Pairwise fun a b => keyNat a.key < keyNat b.key
  exactly : ∀ x ∈ items, ∀ v, writes x v → l.filter (fun node => node.key = key x) = [⟨key x, v⟩]
  only : ∀ node ∈ l, ∃ x ∈ items, node.key = key x ∧ writes x node.value

/-- In a strictly sorted list, a node is alone under its key. -/
theorem filter_key_of_mem {l : List TrieNodeFlat}
    (h : l.Pairwise fun a b => keyNat a.key < keyNat b.key) {node : TrieNodeFlat} (hmem : node ∈ l) :
    l.filter (fun n => n.key = node.key) = [node] := by
  induction l with
  | nil => cases hmem
  | cons head l ih =>
    obtain ⟨hhead, htail⟩ := List.pairwise_cons.mp h
    rcases List.mem_cons.mp hmem with rfl | hmem'
    · rw [List.filter_cons_of_pos (by simp)]
      congr 1
      apply List.filter_eq_nil_iff.mpr
      intro n hn heq
      have hlt := hhead n hn
      rw [of_decide_eq_true heq] at hlt
      exact lt_irrefl _ hlt
    · have hne : head.key ≠ node.key := fun heq => by
        have hlt := hhead node hmem'
        rw [heq] at hlt
        exact lt_irrefl _ hlt
      rw [List.filter_cons_of_neg (by simpa using hne)]
      exact ih htail hmem'

variable {entry : α → Option TrieNodeFlat} {key : α → Bytes32} {writes : α → Bytes → Prop}

/-- The keys of the nodes are keys of items, in their order. -/
theorem keys_filterMap (hkey : ∀ x node, entry x = some node → node.key = key x) (items : List α) :
    ((items.filterMap entry).map TrieNodeFlat.key).Sublist (items.map key) := by
  induction items with
  | nil => exact List.Sublist.slnil
  | cons x items ih =>
    cases hx : entry x with
    | none =>
      rw [List.filterMap_cons_none hx, List.map_cons]
      exact ih.cons _
    | some node =>
      rw [List.filterMap_cons_some hx, List.map_cons, List.map_cons, hkey x node hx]
      exact ih.cons_cons _

/-- Sorting what the items write gives an update list, if their keys differ. -/
theorem updateList_filterMap
    (hentry : ∀ x node, entry x = some node ↔ node.key = key x ∧ writes x node.value)
    {items : List α} (hnodup : (items.map key).Nodup) :
    UpdateList (sortByKey (items.filterMap entry)) items key writes := by
  have hkeys : ((items.filterMap entry).map TrieNodeFlat.key).Nodup :=
    hnodup.sublist (keys_filterMap (fun x node h => ((hentry x node).mp h).1) items)
  have hsorted := sortByKey_strict hkeys
  refine ⟨hsorted, ?_, ?_⟩
  · intro x hx v hv
    have hmem : (⟨key x, v⟩ : TrieNodeFlat) ∈ sortByKey (items.filterMap entry) := by
      rw [mem_sortByKey, List.mem_filterMap]
      exact ⟨x, hx, (hentry x _).mpr ⟨rfl, hv⟩⟩
    exact filter_key_of_mem hsorted hmem
  · intro node hnode
    rw [mem_sortByKey, List.mem_filterMap] at hnode
    obtain ⟨x, hx, hnode⟩ := hnode
    exact ⟨x, hx, (hentry x node).mp hnode⟩

end

/-! ### Maps -/

/-- Two association lists with the same entries, at both levels. -/
def SameMap (stor stor' : StorageChanges) : Prop :=
  ∃ mid, List.Forall₂ (fun p q => p.1 = q.1 ∧ p.2.Perm q.2) stor mid ∧ mid.Perm stor'

theorem lookup_eq_some_iff {α β : Type} [DecidableEq α] {l : List (α × β)}
    (h : (l.map Prod.fst).Nodup) {a : α} {b : β} : l.lookup a = some b ↔ (a, b) ∈ l := by
  induction l with
  | nil => simp
  | cons p l ih =>
    obtain ⟨k, v⟩ := p
    rw [List.map_cons, List.nodup_cons] at h
    by_cases hk : a = k
    · subst hk
      have hnot : (a, b) ∉ l := fun hmem => h.1 (List.mem_map.mpr ⟨_, hmem, rfl⟩)
      simp [hnot, eq_comm]
    · rw [List.lookup_cons, beq_false_of_ne hk, List.mem_cons, Prod.mk.injEq]
      simp only [hk, false_and, false_or]
      exact ih h.2

section

variable (L : Library)

/-- The changes come out of maps: no key occurs twice, and `keccak256` tells the keys
apart. -/
structure Keyed (accs : AccountChanges L.Account) (stor : StorageChanges) : Prop where
  accounts : (accs.map Prod.fst).Nodup
  storage : (stor.map Prod.fst).Nodup
  slots : ∀ p ∈ stor, (p.2.map Prod.fst).Nodup
  hashAccounts : ∀ a ∈ accs.map Prod.fst, ∀ b ∈ accs.map Prod.fst,
    L.keccak256 a.toList = L.keccak256 b.toList → a = b
  hashSlots : ∀ p ∈ stor, ∀ a ∈ p.2.map Prod.fst, ∀ b ∈ p.2.map Prod.fst,
    L.keccak256 a.toList = L.keccak256 b.toList → a = b

variable {L} in
/-- The hashed addresses differ. -/
theorem Keyed.nodup_accounts {accs : AccountChanges L.Account} {stor : StorageChanges}
    (h : Keyed L accs stor) : (accs.map fun change => L.keccak256 change.1.toList).Nodup := by
  have hmap := h.accounts.map_on h.hashAccounts
  rwa [List.map_map] at hmap

variable {L} in
/-- The hashed slots of an account differ. -/
theorem Keyed.nodup_slots {accs : AccountChanges L.Account} {stor : StorageChanges}
    (h : Keyed L accs stor) {p : Address × SlotChanges} (hp : p ∈ stor) :
    (p.2.map fun slot => L.keccak256 slot.1.toList).Nodup := by
  have hmap := (h.slots p hp).map_on (h.hashSlots p hp)
  rwa [List.map_map] at hmap

variable {L} {nodes : L.NodeStore} {st : L.State} {accs accs' : AccountChanges L.Account}
  {stor stor' : StorageChanges}

theorem slotUpdate_eq_some {addr : Address} {slot : Bytes32 × Bytes32} {node : TrieNodeFlat} :
    slotUpdate L st addr slot = some node ↔ node.key = L.keccak256 slot.1.toList ∧
      L.readStorage st addr slot.1 ≠ slot.2 ∧
      node.value = L.rlpEncode (L.zerolessView (L.readStorage st addr slot.1)) := by
  obtain ⟨nodeKey, nodeValue⟩ := node
  by_cases hcur : L.readStorage st addr slot.1 = slot.2
  · simp [slotUpdate, hcur]
  · simp only [slotUpdate, hcur, ↓reduceIte, Option.some.injEq, TrieNodeFlat.mk.injEq, ne_eq,
      not_false_eq_true, true_and]
    exact ⟨fun h => ⟨h.1.symm, h.2.symm⟩, fun h => ⟨h.1.symm, h.2.symm⟩⟩

theorem accUpdate_eq_some {change : Address × Option L.Account} {node : TrieNodeFlat} :
    accUpdate L nodes st stor change = some node ↔ node.key = L.keccak256 change.1.toList ∧
      ∃ cur, L.readAccount st change.1 = some cur ∧
        ¬(L.accountEq (change.2.getD L.defaultAccount) cur = true ∧
          storageRootOf L nodes st stor change.1 (change.2.getD L.defaultAccount) =
            L.storageRoot (change.2.getD L.defaultAccount)) ∧
        node.value = L.accountRlp cur
          (storageRootOf L nodes st stor change.1 (change.2.getD L.defaultAccount)) := by
  obtain ⟨nodeKey, nodeValue⟩ := node
  unfold accUpdate
  cases hread : L.readAccount st change.1 with
  | none => simp
  | some cur =>
    simp only [Option.some.injEq, exists_eq_left']
    split
    · rename_i hsame
      simp [hsame]
    · rename_i hchanged
      simp only [Option.some.injEq, TrieNodeFlat.mk.injEq, hchanged, not_false_eq_true, true_and]
      exact ⟨fun h => ⟨h.1.symm, h.2.symm⟩, fun h => ⟨h.1.symm, h.2.symm⟩⟩

theorem keys_storUpdates {addr : Address} {slots : SlotChanges}
    (h : (slots.map fun slot => L.keccak256 slot.1.toList).Nodup) :
    ((storUpdates L st addr slots).map TrieNodeFlat.key).Nodup :=
  h.sublist (keys_filterMap (fun _ _ hx => (slotUpdate_eq_some.mp hx).1) slots)

theorem keys_accUpdates (h : Keyed L accs stor) :
    ((accUpdates L nodes st accs stor).map TrieNodeFlat.key).Nodup :=
  h.nodup_accounts.sublist (keys_filterMap (fun _ _ hx => (accUpdate_eq_some.mp hx).1) accs)

/-- The sorted updates of the storage of an account. -/
theorem updateList_storUpdates (hkeyed : Keyed L accs stor) {addr : Address} {slots : SlotChanges}
    (hmem : (addr, slots) ∈ stor) :
    UpdateList (sortByKey (storUpdates L st addr slots)) slots
      (fun slot => L.keccak256 slot.1.toList)
      (fun slot v => L.readStorage st addr slot.1 ≠ slot.2 ∧
        v = L.rlpEncode (L.zerolessView (L.readStorage st addr slot.1))) :=
  updateList_filterMap (fun _ _ => slotUpdate_eq_some) (hkeyed.nodup_slots hmem)

/-- The sorted updates of the account trie. -/
theorem updateList_accUpdates (hkeyed : Keyed L accs stor) :
    UpdateList (sortByKey (accUpdates L nodes st accs stor)) accs
      (fun change => L.keccak256 change.1.toList)
      (fun change v => ∃ cur, L.readAccount st change.1 = some cur ∧
        ¬(L.accountEq (change.2.getD L.defaultAccount) cur = true ∧
          storageRootOf L nodes st stor change.1 (change.2.getD L.defaultAccount) =
            L.storageRoot (change.2.getD L.defaultAccount)) ∧
        v = L.accountRlp cur
          (storageRootOf L nodes st stor change.1 (change.2.getD L.defaultAccount))) :=
  updateList_filterMap (fun _ _ => accUpdate_eq_some) hkeyed.nodup_accounts

/-- Looking up in the same map gives the same slots, in some order. -/
theorem lookup_sameMap (hstor : (stor.map Prod.fst).Nodup) (hsame : SameMap stor stor')
    (addr : Address) :
    Option.Rel (fun slots slots' => slots.Perm slots') (stor.lookup addr) (stor'.lookup addr) := by
  obtain ⟨mid, hmid, hperm⟩ := hsame
  -- The two maps differ by the order of the accounts, and by the order of the slots of each
  -- account.
  have hkeys : stor.map Prod.fst = mid.map Prod.fst := by
    induction hmid with
    | nil => rfl
    | cons hpq _ ih =>
      rw [List.map_cons, List.nodup_cons] at hstor
      rename_i l₁ l₂ hrest
      rw [List.map_cons, List.map_cons, hpq.1]
      congr 1
      refine List.forall₂_eq_eq_eq.le _ _ ?_
      rw [List.forall₂_map_left_iff, List.forall₂_map_right_iff]
      exact hrest.imp fun _ _ h => h.1
  have hmidNodup : (mid.map Prod.fst).Nodup := hkeys ▸ hstor
  have hnodup' : (stor'.map Prod.fst).Nodup := (hperm.map _).nodup_iff.mp hmidNodup
  have hlookup : mid.lookup addr = stor'.lookup addr := by
    apply Option.ext
    intro slots
    rw [lookup_eq_some_iff hmidNodup, lookup_eq_some_iff hnodup', hperm.mem_iff]
  rw [← hlookup]
  clear hlookup hnodup' hperm hmidNodup hkeys hstor
  -- The order of the accounts is dealt with, and that of the slots is left.
  induction hmid with
  | nil => exact Option.Rel.none
  | cons hpq _ ih =>
    rename_i p q _ _ _
    obtain ⟨k, slots⟩ := p
    obtain ⟨k', slots'⟩ := q
    obtain ⟨rfl, hslots⟩ := hpq
    rw [List.lookup_cons, List.lookup_cons]
    cases addr == k with
    | true => exact Option.Rel.some hslots
    | false => exact ih

/-- The order of traversal does not change the root of a storage. -/
theorem storageRootOf_sameMap (hkeyed : Keyed L accs stor) (hsame : SameMap stor stor')
    (addr : Address) (acc : L.Account) :
    storageRootOf L nodes st stor addr acc = storageRootOf L nodes st stor' addr acc := by
  have hrel := lookup_sameMap hkeyed.storage hsame addr
  unfold storageRootOf
  cases hlookup : stor.lookup addr with
  | none =>
    rw [hlookup] at hrel
    cases hlookup' : stor'.lookup addr with
    | none => rfl
    | some slots' =>
      rw [hlookup'] at hrel
      cases hrel
  | some slots =>
    rw [hlookup] at hrel
    cases hlookup' : stor'.lookup addr with
    | none =>
      rw [hlookup'] at hrel
      cases hrel
    | some slots' =>
      rw [hlookup'] at hrel
      have hslots : slots.Perm slots' := by
        cases hrel with
        | some h => exact h
      have hmem := (lookup_eq_some_iff hkeyed.storage).mp hlookup
      have hperm : (storUpdates L st addr slots).Perm (storUpdates L st addr slots') :=
        hslots.filterMap _
      have hkeys : ((storUpdates L st addr slots).map TrieNodeFlat.key).Nodup :=
        keys_storUpdates (hkeyed.nodup_slots hmem)
      -- Different keys in the list, so sorting it forgets the order of traversal.
      have hsort := sortByKey_perm hkeys hperm
      have hempty : storUpdates L st addr slots = [] ↔ storUpdates L st addr slots' = [] :=
        ⟨fun h => (h ▸ hperm).nil_eq.symm, fun h => (h ▸ hperm).eq_nil⟩
      simp only [hsort, hempty]

/-- The order of traversal does not change the rebuilt root. -/
theorem rebuiltRoot_sameMap (hkeyed : Keyed L accs stor) (haccs : accs.Perm accs')
    (hsame : SameMap stor stor') (prevRoot : Bytes32) :
    rebuiltRoot L nodes st prevRoot accs stor = rebuiltRoot L nodes st prevRoot accs' stor' := by
  have hupdate : accUpdate L nodes st stor = accUpdate L nodes st stor' := by
    funext change
    simp only [accUpdate, storageRootOf_sameMap hkeyed hsame]
  have hperm : (accUpdates L nodes st accs stor).Perm (accUpdates L nodes st accs' stor') := by
    rw [accUpdates, accUpdates, ← hupdate]
    exact haccs.filterMap _
  rw [rebuiltRoot, rebuiltRoot, sortByKey_perm (keys_accUpdates hkeyed) hperm]

theorem sortByKey_eq_nil {l : List TrieNodeFlat} : sortByKey l = [] ↔ l = [] := by
  constructor
  · intro h
    have hperm := sortByKey_perm_self l
    rw [h] at hperm
    exact hperm.nil_eq.symm
  · rintro rfl
    rfl

variable (L nodes st) in
/-- What the tries are given for these changes: strictly increasing lists with exactly what
has changed, whatever the order in which the maps are traversed. -/
structure CanonicalUpdates (number : BitVec 64) (parentHash : Bytes32)
    (accs : AccountChanges L.Account) (stor : StorageChanges) : Prop where
  /-- The list given to the storage trie of an account; without an update there is no trie. -/
  storage : ∀ addr ∈ accs.map Prod.fst, ∀ slots, stor.lookup addr = some slots →
    ∃ updates, UpdateList updates slots (fun slot => L.keccak256 slot.1.toList)
        (fun slot v => L.readStorage st addr slot.1 ≠ slot.2 ∧
          v = L.rlpEncode (L.zerolessView (L.readStorage st addr slot.1))) ∧
      ∀ acc, storageRootOf L nodes st stor addr acc =
        if updates = [] then L.storageRoot acc
        else L.calcStorageRoot nodes
          (if L.isZeroQuick (L.storageRoot acc) = true then L.emptyRoot else L.storageRoot acc)
          updates
  untouched : ∀ addr acc, stor.lookup addr = none →
    storageRootOf L nodes st stor addr acc = L.storageRoot acc
  /-- The list given to the account trie. -/
  accounts : ∃ updates, UpdateList updates accs (fun change => L.keccak256 change.1.toList)
      (fun change v => ∃ cur, L.readAccount st change.1 = some cur ∧
        ¬(L.accountEq (change.2.getD L.defaultAccount) cur = true ∧
          storageRootOf L nodes st stor change.1 (change.2.getD L.defaultAccount) =
            L.storageRoot (change.2.getD L.defaultAccount)) ∧
        v = L.accountRlp cur
          (storageRootOf L nodes st stor change.1 (change.2.getD L.defaultAccount))) ∧
    computedStateRoot L nodes st number parentHash =
      .ok (L.calcAccountRoot nodes (prevRootOf L st number parentHash) updates)
  order : ∀ accs' stor', accs.Perm accs' → SameMap stor stor' →
    computedStateRoot L nodes st number parentHash =
      .ok (rebuiltRoot L nodes st (prevRootOf L st number parentHash) accs' stor')

variable (nodes st) in
/-- **The update lists given to the tries are canonical**: each is sorted strictly by hashed
key and holds exactly what has changed, and the computed root does not depend on the order
in which the maps are traversed. -/
theorem updates_canonical {number : BitVec 64} (parentHash : Bytes32)
    (haccs : L.accountChanges st number = some accs)
    (hstor : L.storageChanges st number = some stor) (hkeyed : Keyed L accs stor) :
    CanonicalUpdates L nodes st number parentHash accs stor := by
  have hroot : computedStateRoot L nodes st number parentHash =
      .ok (rebuiltRoot L nodes st (prevRootOf L st number parentHash) accs stor) :=
    computedStateRoot_eq_ok.mpr ⟨accs, stor, haccs, hstor, rfl⟩
  refine ⟨?_, ?_,
    ⟨_, updateList_accUpdates hkeyed, hroot⟩, ?_⟩
  · intro addr _ slots hlookup
    have hmem := (lookup_eq_some_iff hkeyed.storage).mp hlookup
    refine ⟨_, updateList_storUpdates hkeyed hmem, ?_⟩
    intro acc
    simp only [storageRootOf, hlookup, sortByKey_eq_nil]
  · intro addr acc hlookup
    simp only [storageRootOf, hlookup]
  · intro accs' stor' hperm hsame
    rw [hroot, rebuiltRoot_sameMap hkeyed hperm hsame]

end

/-! ### Two accounts -/

/-- The addresses of the two accounts. -/
def firstAddress : Address := padTo 20 [1]
def secondAddress : Address := padTo 20 [2]

/-- The records of two accounts before a block. -/
def twoAccounts : AccountChanges (Bytes × Bytes32) :=
  [(secondAddress, none), (firstAddress, some ([7], padTo 32 [5]))]

/-- Three slots of the first account and one of the second, before a block. -/
def twoStorages : StorageChanges :=
  [(secondAddress, [(padTo 32 [3], padTo 32 [3])]),
    (firstAddress, [(padTo 32 [3], zeroVec 32), (padTo 32 [1], padTo 32 [8]),
      (padTo 32 [2], padTo 32 [4])])]

/-- A library after a block in which the first account sets a slot, clears a slot and leaves
one alone, and in which the second account is created. -/
def twoAccountLibrary : Library :=
  { sampleLibrary with
    keccak256 := padTo 32
    accountChanges := fun _ number => if number = 1 then some twoAccounts else none
    storageChanges := fun _ number => if number = 1 then some twoStorages else none
    readAccount := fun _ addr => some (addr.toList, padTo 32 [5])
    readStorage := fun _ addr slot =>
      if addr = firstAddress ∧ slot = padTo 32 [1] then zeroVec 32
      else if addr = firstAddress ∧ slot = padTo 32 [2] then padTo 32 [4]
      else padTo 32 [3]
    calcStorageRoot := fun _ root updates =>
      padTo 32 (root.toList.take 1 ++ updates.flatMap TrieNodeFlat.value)
    calcAccountRoot := fun _ root updates =>
      padTo 32 (root.toList.take 1 ++ updates.flatMap TrieNodeFlat.value) }

/-- Padding tells strings of one length apart. -/
theorem padTo_inj {n : ℕ} (hn : n ≤ 32) {a b : ByteVec n}
    (h : (padTo 32 a.toList : Bytes32) = padTo 32 b.toList) : a = b := by
  have ha : a.toList.length = n := List.Vector.toList_length a
  have hb : b.toList.length = n := List.Vector.toList_length b
  have hlist := congrArg List.Vector.toList h
  rw [toList_padTo, toList_padTo, takeD_eq_append (by omega), takeD_eq_append (by omega), ha, hb] at hlist
  exact toList_injective (List.append_cancel_right hlist)

theorem keyed_twoAccounts : Keyed twoAccountLibrary twoAccounts twoStorages where
  accounts := by decide
  storage := by decide
  slots := by decide
  hashAccounts _ _ _ _ h := padTo_inj (by norm_num) h
  hashSlots _ _ _ _ _ _ h := padTo_inj (by norm_num) h

/-- The lists for the two accounts. -/
theorem updates_canonical_twoAccounts :
    CanonicalUpdates twoAccountLibrary [] [] 1 (zeroVec 32) twoAccounts twoStorages :=
  updates_canonical (L := twoAccountLibrary) [] [] (zeroVec 32) rfl rfl keyed_twoAccounts

example : (storUpdates twoAccountLibrary [] firstAddress twoStorages[1].2).length = 2 ∧
    (accUpdates twoAccountLibrary [] [] twoAccounts twoStorages).length = 2 := by
  decide +kernel

end StatelessGuest
