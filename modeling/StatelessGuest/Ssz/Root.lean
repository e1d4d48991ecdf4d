import StatelessGuest.Ssz.HashTree

/-!
# Hash tree roots

The hash tree of a value, by recursion on its type.  Lists are padded to the
capacity of their limit; what a list holds beyond its capacity does not enter the
tree.  The root binds everything else.

## Main definitions

* `SszType.hashTree` — the hash tree of a value.
* `SszType.hashTreeRoot` — its root.
* `SszType.Bounded n` — every list of a value is shorter than `n`.
* `SszType.Agree` — equality up to what exceeds a capacity.

## Main results

* `SszType.hashTree_injective` — **equal roots come from values that agree**, unless
  the hash function collides on the strings hashed.
* `SszType.hashTree_congr` — values that agree have one tree.
* `SszType.eq_of_agree` — a value within its limits agrees with no other one.
-/

namespace Ssz

namespace SszType

/-- The depth of a tree with room for `n` leaves. -/
abbrev depth (n : ℕ) : ℕ := Nat.clog 2 n

/-- The chunks `n` bytes take. -/
abbrev chunkCount (n : ℕ) : ℕ := (n + 31) / 32

/-- The integers of a list, one after the other. -/
def packUints {w : ℕ} (vs : List (BitVec (8 * w))) : Bytes :=
  (vs.map fun v => leBytes w v.toNat).flatten

/-- The chunks of a list: integers are packed, other items have a subtree each. -/
def listTree : (t : SszType) → (limit : ℕ) → List t.Val → List HashTree → HashTree
  | .uint w, limit, vs, _ => packTree (depth (chunkCount (limit * w))) (packUints vs)
  | .bytes _, limit, _, ts => itemsTree (depth limit) ts
  | .byteList _, limit, _, ts => itemsTree (depth limit) ts
  | .list _ _, limit, _, ts => itemsTree (depth limit) ts
  | .container _, limit, _, ts => itemsTree (depth limit) ts

mutual

/-- The hash tree of a value. -/
def hashTree : (t : SszType) → t.Val → HashTree
  | .uint w, v => .leaf (padTo 32 (leBytes w (BitVec.toNat v)))
  | .bytes n, v => packTree (depth (chunkCount n)) (List.Vector.toList v)
  | .byteList limit, v => withLength (packTree (depth (chunkCount limit)) v) (List.length v)
  | .list t limit, vs =>
      withLength (listTree t limit vs (List.map (fun v => hashTree t v) vs)) (List.length vs)
  | .container ts, vs => itemsTree (depth ts.length) (hashTrees ts vs)

/-- The hash trees of a sequence of fields. -/
def hashTrees : (ts : List SszType) → Vals ts → List HashTree
  | [], _ => []
  | t :: ts, (v, vs) => hashTree t v :: hashTrees ts vs

end

/-- The hash tree root of a value. -/
def hashTreeRoot (H : Bytes → Bytes32) (t : SszType) (v : t.Val) : Bytes32 := (hashTree t v).root H

mutual

/-- Integers fit into a chunk. -/
def chunked : SszType → Bool
  | .uint w => w ≤ 32
  | .bytes _ => true
  | .byteList _ => true
  | .list t _ => t.chunked
  | .container ts => allChunked ts

/-- Integers in every field fit into a chunk. -/
def allChunked : List SszType → Bool
  | [] => true
  | t :: ts => t.chunked && allChunked ts

end

mutual

/-- Every list and byte list of a value is shorter than `n`. -/
def Bounded (n : ℕ) : (t : SszType) → t.Val → Prop
  | .uint _, _ => True
  | .bytes _, _ => True
  | .byteList _, v => List.length v < n
  | .list t _, vs => List.length vs < n ∧ ∀ v ∈ (vs : List t.Val), Bounded n t v
  | .container ts, vs => BoundedAll n ts vs

/-- `Bounded` for each field. -/
def BoundedAll (n : ℕ) : (ts : List SszType) → Vals ts → Prop
  | [], _ => True
  | t :: ts, (v, vs) => Bounded n t v ∧ BoundedAll n ts vs

end

/-- Lists that agree: packed integers byte by byte, other items one by one, each up to
the capacity. -/
def ListAgree : (t : SszType) → (limit : ℕ) → (t.Val → t.Val → Prop) → List t.Val → List t.Val → Prop
  | .uint w, limit, _, vs, us =>
      (packUints vs).take (32 * 2 ^ depth (chunkCount (limit * w))) =
        (packUints us).take (32 * 2 ^ depth (chunkCount (limit * w)))
  | .bytes _, limit, R, vs, us => List.Forall₂ R (vs.take (2 ^ depth limit)) (us.take (2 ^ depth limit))
  | .byteList _, limit, R, vs, us =>
      List.Forall₂ R (vs.take (2 ^ depth limit)) (us.take (2 ^ depth limit))
  | .list _ _, limit, R, vs, us =>
      List.Forall₂ R (vs.take (2 ^ depth limit)) (us.take (2 ^ depth limit))
  | .container _, limit, R, vs, us =>
      List.Forall₂ R (vs.take (2 ^ depth limit)) (us.take (2 ^ depth limit))

mutual

/-- The values are equal up to what exceeds the capacity of a list. -/
def Agree : (t : SszType) → t.Val → t.Val → Prop
  | .uint _, v, u => v = u
  | .bytes _, v, u => v = u
  | .byteList limit, v, u => List.length v = List.length u ∧
      List.take (32 * 2 ^ depth (chunkCount limit)) v = List.take (32 * 2 ^ depth (chunkCount limit)) u
  | .list t limit, vs, us => List.length vs = List.length us ∧
      ListAgree t limit (fun v u => Agree t v u) vs us
  | .container ts, vs, us => AgreeAll ts vs us

/-- `Agree` for each field. -/
def AgreeAll : (ts : List SszType) → Vals ts → Vals ts → Prop
  | [], _, _ => True
  | t :: ts, (v, vs), (u, us) => Agree t v u ∧ AgreeAll ts vs us

end

/-! ### Subtrees -/

section

variable {H : Bytes → Bytes32} {M : Set Bytes}

/-- The subtrees under equal roots, pairwise. -/
theorem itemsTree_injective (hM : CollisionFree H M) {d : ℕ} {ts us : List HashTree}
    (hlen : ts.length = us.length) (ht : ∀ m ∈ (itemsTree d ts).messages H, m ∈ M)
    (hu : ∀ m ∈ (itemsTree d us).messages H, m ∈ M)
    (h : (itemsTree d ts).root H = (itemsTree d us).root H) :
    List.Forall₂ (fun t u => (∀ m ∈ t.messages H, m ∈ M) ∧ (∀ m ∈ u.messages H, m ∈ M) ∧
      t.root H = u.root H) (ts.take (2 ^ d)) (us.take (2 ^ d)) := by
  rw [List.forall₂_iff_get]
  refine ⟨by simp [hlen], ?_⟩
  intro i hi hi'
  rw [List.length_take] at hi hi'
  have hid : i < 2 ^ d := by omega
  have hts : ts.getD i (.leaf zeroChunk) = ts[i] := List.getD_eq_getElem _ _ (by omega)
  have hus : us.getD i (.leaf zeroChunk) = us[i] := List.getD_eq_getElem _ _ (by omega)
  have hroot := perfect_root_injective hM ht hu h i hid
  simp only [List.get_eq_getElem, List.getElem_take]
  rw [← hts, ← hus]
  exact ⟨fun m hm => ht m (messages_perfect hid hm), fun m hm => hu m (messages_perfect hid hm),
    hroot⟩

/-- Only the subtrees within the capacity matter. -/
theorem itemsTree_congr {d : ℕ} {ts us : List HashTree} (h : ts.take (2 ^ d) = us.take (2 ^ d)) :
    itemsTree d ts = itemsTree d us := by
  apply perfect_congr
  intro i hi
  have hget : ∀ l : List HashTree, l.getD i (.leaf zeroChunk) =
      (l.take (2 ^ d)).getD i (.leaf zeroChunk) := by
    intro l
    simp [List.getD_eq_getElem?_getD, List.getElem?_take_of_lt hi]
  rw [hget ts, h, ← hget us]

/-- A relation of items may use what holds of every item. -/
theorem forall₂_imp_mem {α : Type} {P R : α → α → Prop} {B : α → Prop} {vs us : List α} {n : ℕ}
    (hv : ∀ v ∈ vs, B v) (hu : ∀ u ∈ us, B u) (h : List.Forall₂ P (vs.take n) (us.take n))
    (himp : ∀ v u, B v → B u → P v u → R v u) : List.Forall₂ R (vs.take n) (us.take n) := by
  rw [List.forall₂_iff_get] at h ⊢
  refine ⟨h.1, fun i hi hi' => himp _ _ (hv _ ?_) (hu _ ?_) (h.2 i hi hi')⟩
  · exact List.mem_of_mem_take (List.get_mem _ _)
  · exact List.mem_of_mem_take (List.get_mem _ _)

theorem length_hashTrees : (ts : List SszType) → (vs : Vals ts) → (hashTrees ts vs).length = ts.length
  | [], _ => by rw [hashTrees]; rfl
  | t :: ts, (v, vs) => by rw [hashTrees, List.length_cons, length_hashTrees ts vs, List.length_cons]

theorem take_hashTrees (ts : List SszType) (vs : Vals ts) :
    (hashTrees ts vs).take (2 ^ depth ts.length) = hashTrees ts vs :=
  List.take_of_length_le (by rw [length_hashTrees]; exact Nat.le_pow_clog (by norm_num) _)

/-- A tree has room for all the bytes that it is made for. -/
theorem le_capacity (n : ℕ) : n ≤ 32 * 2 ^ depth (chunkCount n) := by
  have hchunks : chunkCount n ≤ 2 ^ depth (chunkCount n) := Nat.le_pow_clog (by norm_num) _
  simp only [chunkCount] at hchunks ⊢
  omega

theorem length_packUints {w : ℕ} (vs : List (BitVec (8 * w))) :
    (packUints vs).length = vs.length * w := by
  unfold packUints
  induction vs with
  | nil => simp
  | cons v vs ih =>
    rw [List.map_cons, List.flatten_cons, List.length_append, ih, length_leBytes, List.length_cons]
    ring

/-- The subtrees of a list that agree item by item. -/
theorem listAgree_of_trees (hM : CollisionFree H M) {t : SszType} {limit : ℕ} {vs us : List t.Val}
    {B : t.Val → Prop} (hv : ∀ v ∈ vs, B v) (hu : ∀ u ∈ us, B u) (hlen : vs.length = us.length)
    (himp : ∀ v u : t.Val, B v → B u → (∀ m ∈ (hashTree t v).messages H, m ∈ M) →
      (∀ m ∈ (hashTree t u).messages H, m ∈ M) → (hashTree t v).root H = (hashTree t u).root H →
      Agree t v u)
    (ht : ∀ m ∈ (listTree t limit vs (vs.map fun v => hashTree t v)).messages H, m ∈ M)
    (ht' : ∀ m ∈ (listTree t limit us (us.map fun v => hashTree t v)).messages H, m ∈ M)
    (h : (listTree t limit vs (vs.map fun v => hashTree t v)).root H =
      (listTree t limit us (us.map fun v => hashTree t v)).root H) :
    ListAgree t limit (fun v u => Agree t v u) vs us := by
  cases t with
  | uint w =>
    have hlenp : (packUints vs).length = (packUints us).length := by
      rw [length_packUints, length_packUints, hlen]
    exact packTree_injective hM hlenp ht ht' h
  | _ =>
    have hsub := itemsTree_injective hM (by rw [List.length_map, List.length_map, hlen]) ht ht' h
    rw [← List.map_take, ← List.map_take, List.forall₂_map_left_iff, List.forall₂_map_right_iff] at hsub
    exact forall₂_imp_mem hv hu hsub fun v u bv bu hm => himp v u bv bu hm.1 hm.2.1 hm.2.2

/-- Lists that agree have one tree. -/
theorem listTree_congr {t : SszType} {limit : ℕ} {vs us : List t.Val}
    (h : ListAgree t limit (fun v u => Agree t v u) vs us)
    (hcongr : ∀ v u : t.Val, Agree t v u → hashTree t v = hashTree t u) :
    listTree t limit vs (vs.map fun v => hashTree t v) =
      listTree t limit us (us.map fun v => hashTree t v) := by
  cases t with
  | uint w => exact packTree_congr h
  | _ =>
    apply itemsTree_congr
    rw [← List.map_take, ← List.map_take]
    exact List.forall₂_eq_eq_eq ▸ (List.forall₂_map_left_iff.mpr (List.forall₂_map_right_iff.mpr
      (h.imp fun v u hvu => hcongr v u hvu)))

mutual

/-- **Equal roots come from values that agree.** -/
theorem hashTree_injective (hM : CollisionFree H M) : (t : SszType) → t.chunked = true →
    {v u : t.Val} → Bounded (2 ^ 256) t v → Bounded (2 ^ 256) t u →
    (∀ m ∈ (hashTree t v).messages H, m ∈ M) → (∀ m ∈ (hashTree t u).messages H, m ∈ M) →
    (hashTree t v).root H = (hashTree t u).root H → Agree t v u
  | .uint w, hc, v, u, _, _, _, _, h => by
      have hw : w ≤ 32 := by simpa [chunked] using hc
      unfold hashTree HashTree.root at h
      -- A chunk holds the number in its first bytes, so equal chunks give equal numbers.
      have hbytes := congrArg (fun c => (List.Vector.toList c).take w) h
      simp only [toList_padTo] at hbytes
      rw [take_takeD hw, take_takeD hw, takeD_self (length_leBytes _ _),
        takeD_self (length_leBytes _ _)] at hbytes
      have hpow : (2 : ℕ) ^ (8 * w) = 256 ^ w := by rw [Nat.pow_mul]
      have hlt : ∀ x : BitVec (8 * w), x.toNat < 256 ^ w := fun x => hpow ▸ x.isLt
      unfold Agree
      exact BitVec.eq_of_toNat_eq (leBytes_inj (hlt v) (hlt u) hbytes)
  | .bytes n, _, v, u, _, _, hv, hu, h => by
      unfold hashTree at hv hu
      unfold hashTree at h
      -- The tree has room for all bytes, so none of them is cut off.
      have hcap := le_capacity n
      have htake := packTree_injective hM (by rw [length_toList, length_toList]) hv hu h
      rw [List.take_of_length_le (by rwa [length_toList]),
        List.take_of_length_le (by rwa [length_toList])] at htake
      unfold Agree
      exact toList_injective htake
  | .byteList limit, _, v, u, bv, bu, hv, hu, h => by
      unfold hashTree at hv hu
      unfold hashTree at h
      unfold Bounded at bv bu
      obtain ⟨hroot, hlen⟩ := withLength_injective hM bv bu hv hu h
      unfold Agree
      -- Only the bytes within the limit enter the tree, and the length is mixed in.
      exact ⟨hlen, packTree_injective hM hlen (fun m hm => hv m (messages_withLength hm))
        (fun m hm => hu m (messages_withLength hm)) hroot⟩
  | .list t limit, hc, vs, us, bv, bu, hv, hu, h => by
      unfold hashTree at hv hu
      unfold hashTree at h
      unfold Bounded at bv bu
      unfold chunked at hc
      obtain ⟨hroot, hlen⟩ := withLength_injective hM bv.1 bu.1 hv hu h
      unfold Agree
      exact ⟨hlen, listAgree_of_trees hM bv.2 bu.2 hlen
        (fun v u bv bu hv hu h => hashTree_injective hM t hc bv bu hv hu h)
        (fun m hm => hv m (messages_withLength hm)) (fun m hm => hu m (messages_withLength hm)) hroot⟩
  | .container ts, hc, vs, us, bv, bu, hv, hu, h => by
      unfold hashTree at hv hu
      unfold hashTree at h
      unfold Bounded at bv bu
      unfold chunked at hc
      have hsub := itemsTree_injective hM (by rw [length_hashTrees, length_hashTrees]) hv hu h
      rw [take_hashTrees, take_hashTrees] at hsub
      unfold Agree
      exact hashTrees_injective hM ts hc bv bu hsub

/-- `hashTree_injective` for each field. -/
theorem hashTrees_injective (hM : CollisionFree H M) : (ts : List SszType) →
    allChunked ts = true → {vs us : Vals ts} → BoundedAll (2 ^ 256) ts vs →
    BoundedAll (2 ^ 256) ts us →
    List.Forall₂ (fun t u => (∀ m ∈ t.messages H, m ∈ M) ∧ (∀ m ∈ u.messages H, m ∈ M) ∧
      t.root H = u.root H) (hashTrees ts vs) (hashTrees ts us) → AgreeAll ts vs us
  | [], _, _, _, _, _, _ => by rw [AgreeAll]; trivial
  | t :: ts, hc, (v, vs), (u, us), bv, bu, h => by
      rw [hashTrees, hashTrees, List.forall₂_cons] at h
      rw [allChunked, Bool.and_eq_true] at hc
      unfold BoundedAll at bv bu
      unfold AgreeAll
      exact ⟨hashTree_injective hM t hc.1 bv.1 bu.1 h.1.1 h.1.2.1 h.1.2.2,
        hashTrees_injective hM ts hc.2 bv.2 bu.2 h.2⟩

end

mutual

/-- Values that agree have one tree. -/
theorem hashTree_congr : (t : SszType) → {v u : t.Val} → Agree t v u → hashTree t v = hashTree t u
  | .uint _, _, _, h => by
      unfold Agree at h
      rw [h]
  | .bytes _, _, _, h => by
      unfold Agree at h
      rw [h]
  | .byteList limit, v, u, h => by
      unfold Agree at h
      rw [hashTree, hashTree, h.1, packTree_congr h.2]
  | .list t limit, vs, us, h => by
      unfold Agree at h
      rw [hashTree, hashTree, h.1]
      congr 1
      exact listTree_congr h.2 fun v u hvu => hashTree_congr t hvu
  | .container ts, vs, us, h => by
      unfold Agree at h
      rw [hashTree, hashTree, hashTrees_congr ts h]

/-- `hashTree_congr` for each field. -/
theorem hashTrees_congr : (ts : List SszType) → {vs us : Vals ts} → AgreeAll ts vs us →
    hashTrees ts vs = hashTrees ts us
  | [], _, _, _ => rfl
  | t :: ts, (v, vs), (u, us), h => by
      unfold AgreeAll at h
      rw [hashTrees, hashTrees, hashTree_congr t h.1, hashTrees_congr ts h.2]

end

end

/-! ### Values within their limits -/

/-- The bytes of packed integers determine them. -/
theorem packUints_injective {w : ℕ} {vs us : List (BitVec (8 * w))} (hlen : vs.length = us.length)
    (h : packUints vs = packUints us) : vs = us := by
  induction vs generalizing us with
  | nil => exact (List.length_eq_zero_iff.mp hlen.symm).symm
  | cons v vs ih =>
    cases us with
    | nil => cases hlen
    | cons u us =>
      rw [packUints, packUints, List.map_cons, List.map_cons, List.flatten_cons,
        List.flatten_cons] at h
      obtain ⟨hhead, htail⟩ := List.append_inj h (by rw [length_leBytes, length_leBytes])
      have hlt : ∀ x : BitVec (8 * w), x.toNat < 256 ^ w := by
        intro x
        have hx := x.isLt
        rwa [Nat.pow_mul] at hx
      rw [BitVec.eq_of_toNat_eq (leBytes_inj (hlt v) (hlt u) hhead),
        ih (Nat.succ.inj hlen) htail]

/-- Lists within their limit that agree are equal, if their items are. -/
theorem eq_of_listAgree {t : SszType} {limit : ℕ} {vs us : List t.Val} (hlen : vs.length = us.length)
    (hlimit : us.length ≤ limit) (hitem : ∀ v, ∀ u ∈ us, Agree t v u → v = u)
    (h : ListAgree t limit (fun v u => Agree t v u) vs us) : vs = us := by
  cases t with
  | uint w =>
    have hroom : us.length * w ≤ 32 * 2 ^ depth (chunkCount (limit * w)) :=
      (Nat.mul_le_mul_right w hlimit).trans (le_capacity _)
    rw [ListAgree, List.take_of_length_le (by rw [length_packUints, hlen]; exact hroom),
      List.take_of_length_le (by rw [length_packUints]; exact hroom)] at h
    exact packUints_injective hlen h
  | _ =>
    have hroom : us.length ≤ 2 ^ depth limit := hlimit.trans (Nat.le_pow_clog (by norm_num) _)
    rw [ListAgree, List.take_of_length_le (by rw [hlen]; exact hroom),
      List.take_of_length_le hroom, List.forall₂_iff_get] at h
    refine List.ext_get hlen fun i hi hi' => hitem _ _ (List.get_mem _ _) (h.2 i hi hi')

mutual

/-- **A value within its limits agrees with no other one.** -/
theorem eq_of_agree : (t : SszType) → {v u : t.Val} → Fits t u → Agree t v u → v = u
  | .uint _, _, _, _, h => by rwa [Agree] at h
  | .bytes _, _, _, _, h => by rwa [Agree] at h
  | .byteList limit, v, u, hu, h => by
      unfold Fits at hu
      unfold Agree at h
      have hroom := hu.trans (le_capacity limit)
      have htake := h.2
      rwa [List.take_of_length_le (by rw [h.1]; exact hroom),
        List.take_of_length_le hroom] at htake
  | .list t limit, vs, us, hu, h => by
      unfold Fits at hu
      unfold Agree at h
      exact eq_of_listAgree h.1 hu.1 (fun v u hmem => eq_of_agree t (hu.2 u hmem)) h.2
  | .container ts, vs, us, hu, h => by
      unfold Fits at hu
      unfold Agree at h
      exact eq_of_agreeAll ts hu h

/-- `eq_of_agree` for each field. -/
theorem eq_of_agreeAll : (ts : List SszType) → {vs us : Vals ts} → FitsAll ts us →
    AgreeAll ts vs us → vs = us
  | [], _, _, _, _ => rfl
  | t :: ts, (v, vs), (u, us), hu, h => by
      unfold FitsAll at hu
      unfold AgreeAll at h
      rw [eq_of_agree t hu.1 h.1, eq_of_agreeAll ts hu.2 h.2]

end

end SszType

end Ssz
