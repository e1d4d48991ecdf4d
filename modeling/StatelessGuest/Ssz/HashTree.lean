import StatelessGuest.Ssz.Types

/-!
# Binary hash trees

A hash tree keeps the computation behind a root: which chunks it started from
and which pairs were hashed.  Nothing here depends on the hash function, which
is a parameter throughout.  A root determines the tree under it as long as the
hash function does not collide on the strings that were hashed.

## Main definitions

* `HashTree`, `HashTree.root`, `HashTree.messages` — trees, their roots, and the
  strings hashed on the way.
* `perfect d f` — the tree of depth `d` over the subtrees `f 0, f 1, …`.
* `packTree`, `itemsTree`, `withLength` — chunks of a byte string, subtrees of a
  list, and a length mixed in.
* `CollisionFree` — the hash function is injective on a set of strings.

## Main results

* `perfect_root_injective` — **equal roots of perfect trees have equal subtree
  roots.**
* `packTree_injective` — the packed bytes can be recovered up to the capacity.
-/

namespace Ssz

/-- The zero chunk. -/
def zeroChunk : Bytes32 := zeroVec 32

/-- A hash tree over 32-byte chunks. -/
inductive HashTree where
  /-- A chunk. -/
  | leaf (c : Bytes32)
  /-- The hash of two roots. -/
  | node (l r : HashTree)

namespace HashTree

/-- The root of a tree under the hash function `H`. -/
def root (H : Bytes → Bytes32) : HashTree → Bytes32
  | .leaf c => c
  | .node l r => H ((l.root H).toList ++ (r.root H).toList)

/-- The strings hashed to compute the root. -/
def messages (H : Bytes → Bytes32) : HashTree → List Bytes
  | .leaf _ => []
  | .node l r => ((l.root H).toList ++ (r.root H).toList) :: (l.messages H ++ r.messages H)

end HashTree

/-- `H` has no collision among the strings of `M`. -/
def CollisionFree (H : Bytes → Bytes32) (M : Set Bytes) : Prop :=
  ∀ a ∈ M, ∀ b ∈ M, H a = H b → a = b

theorem length_toList {n : ℕ} (v : ByteVec n) : v.toList.length = n := List.Vector.toList_length v

/-- Equal roots of two nodes have equal children's roots. -/
theorem HashTree.node_root_injective {H : Bytes → Bytes32} {M : Set Bytes}
    (hM : CollisionFree H M) {l r l' r' : HashTree}
    (h₁ : ∀ m ∈ (node l r).messages H, m ∈ M) (h₂ : ∀ m ∈ (node l' r').messages H, m ∈ M)
    (h : (node l r).root H = (node l' r').root H) :
    l.root H = l'.root H ∧ r.root H = r'.root H := by
  have hmsg := hM _ (h₁ _ List.mem_cons_self) _ (h₂ _ List.mem_cons_self) h
  obtain ⟨hl, hr⟩ := List.append_inj hmsg (by rw [length_toList, length_toList])
  exact ⟨toList_injective hl, toList_injective hr⟩

/-! ### Perfect trees -/

/-- The tree of depth `d` over the subtrees `f 0, …, f (2 ^ d - 1)`. -/
def perfect : ℕ → (ℕ → HashTree) → HashTree
  | 0, f => f 0
  | d + 1, f => .node (perfect d f) (perfect d fun i => f (i + 2 ^ d))

/-- The root of depth `d` over the chunks `f 0, …, f (2 ^ d - 1)`. -/
def merkleRoot (H : Bytes → Bytes32) : ℕ → (ℕ → Bytes32) → Bytes32
  | 0, f => f 0
  | d + 1, f => H ((merkleRoot H d f).toList ++ (merkleRoot H d fun i => f (i + 2 ^ d)).toList)

theorem root_perfect (H : Bytes → Bytes32) (d : ℕ) (f : ℕ → HashTree) :
    (perfect d f).root H = merkleRoot H d fun i => (f i).root H := by
  induction d generalizing f with
  | zero => rfl
  | succ d ih => rw [perfect, HashTree.root, merkleRoot, ih, ih]

theorem perfect_congr {d : ℕ} {f g : ℕ → HashTree} (h : ∀ i, i < 2 ^ d → f i = g i) :
    perfect d f = perfect d g := by
  induction d generalizing f g with
  | zero => exact h 0 (by norm_num)
  | succ d ih =>
    have hpow : (2 : ℕ) ^ (d + 1) = 2 ^ d + 2 ^ d := by rw [pow_succ]; omega
    rw [perfect, perfect, ih fun i hi => h i (by omega),
      ih fun i hi => h (i + 2 ^ d) (by omega)]

/-- What a subtree hashes, the whole tree hashes. -/
theorem messages_perfect {H : Bytes → Bytes32} {d : ℕ} {f : ℕ → HashTree} {i : ℕ}
    (hi : i < 2 ^ d) {m : Bytes} (hm : m ∈ (f i).messages H) :
    m ∈ (perfect d f).messages H := by
  induction d generalizing f i with
  | zero =>
    have : i = 0 := by simpa using hi
    subst this
    exact hm
  | succ d ih =>
    rw [pow_succ] at hi
    unfold perfect HashTree.messages
    refine List.mem_cons_of_mem _ (List.mem_append.mpr ?_)
    rcases Nat.lt_or_ge i (2 ^ d) with hlt | hge
    · exact Or.inl (ih hlt hm)
    · refine Or.inr (ih (i := i - 2 ^ d) (by omega) ?_)
      rwa [Nat.sub_add_cancel hge]

/-- **Equal roots of perfect trees have equal subtree roots.** -/
theorem perfect_root_injective {H : Bytes → Bytes32} {M : Set Bytes} (hM : CollisionFree H M)
    {d : ℕ} {f g : ℕ → HashTree} (hf : ∀ m ∈ (perfect d f).messages H, m ∈ M)
    (hg : ∀ m ∈ (perfect d g).messages H, m ∈ M)
    (h : (perfect d f).root H = (perfect d g).root H) :
    ∀ i, i < 2 ^ d → (f i).root H = (g i).root H := by
  induction d generalizing f g with
  | zero =>
    intro i hi
    have : i = 0 := by simpa using hi
    subst this
    exact h
  | succ d ih =>
    intro i hi
    rw [pow_succ] at hi
    have hsub : ∀ {t : HashTree × HashTree}, (∀ m ∈ (HashTree.node t.1 t.2).messages H, m ∈ M) →
        (∀ m ∈ t.1.messages H, m ∈ M) ∧ (∀ m ∈ t.2.messages H, m ∈ M) := by
      intro t ht
      refine ⟨fun m hm => ht m ?_, fun m hm => ht m ?_⟩
      · exact List.mem_cons_of_mem _ (List.mem_append_left _ hm)
      · exact List.mem_cons_of_mem _ (List.mem_append_right _ hm)
    obtain ⟨hl, hr⟩ := HashTree.node_root_injective hM hf hg h
    obtain ⟨hfl, hfr⟩ := hsub (t := (_, _)) hf
    obtain ⟨hgl, hgr⟩ := hsub (t := (_, _)) hg
    rcases Nat.lt_or_ge i (2 ^ d) with hlt | hge
    · exact ih hfl hgl hl i hlt
    · have := ih hfr hgr hr (i - 2 ^ d) (by omega)
      simpa only [Nat.sub_add_cancel hge] using this

/-! ### Chunks of a byte string -/

/-- The `i`-th 32-byte chunk of a byte string, padded with zeros. -/
def chunkAt (b : Bytes) (i : ℕ) : Bytes32 := padTo 32 (b.drop (32 * i))

/-- The chunks of a byte string, padded with zero chunks to `2 ^ d`. -/
def packTree (d : ℕ) (b : Bytes) : HashTree := perfect d fun i => .leaf (chunkAt b i)

/-- Reading past the end of a string gives the padding. -/
theorem takeD_eq_map_getD (n : ℕ) (b : Bytes) :
    b.takeD n 0 = (List.range n).map fun j => b.getD j 0 := by
  induction n generalizing b with
  | zero => rfl
  | succ n ih =>
    rw [List.takeD_succ, ih, List.range_succ_eq_map, List.map_cons, List.map_map]
    cases b <;> rfl

/-- Byte `j` of a chunk. -/
theorem getD_chunkAt (b : Bytes) (i j : ℕ) (hj : j < 32) :
    (chunkAt b i).toList.getD j 0 = b.getD (32 * i + j) 0 := by
  rw [chunkAt, toList_padTo, takeD_eq_map_getD]
  simp [List.getD_eq_getElem?_getD, List.getElem?_range hj, List.getElem?_drop]

/-- Only the bytes within the capacity matter. -/
theorem packTree_congr {d : ℕ} {a b : Bytes}
    (h : a.take (32 * 2 ^ d) = b.take (32 * 2 ^ d)) : packTree d a = packTree d b := by
  apply perfect_congr
  intro i hi
  have hget : ∀ c : Bytes, ∀ j, j < 32 →
      c.getD (32 * i + j) 0 = (c.take (32 * 2 ^ d)).getD (32 * i + j) 0 := by
    intro c j hj
    have : 32 * i + j < 32 * 2 ^ d := by omega
    simp [List.getD_eq_getElem?_getD, this]
  have hlist : (chunkAt a i).toList = (chunkAt b i).toList := by
    rw [chunkAt, chunkAt, toList_padTo, toList_padTo, takeD_eq_map_getD, takeD_eq_map_getD]
    apply List.map_congr_left
    intro j hj
    have hj' : j < 32 := List.mem_range.mp hj
    have := getD_chunkAt a i j hj'
    have := getD_chunkAt b i j hj'
    simp only [List.getD_eq_getElem?_getD, List.getElem?_drop] at hget ⊢
    rw [hget a j hj', hget b j hj', h]
  rw [toList_injective hlist]

/-- **The packed bytes can be recovered up to the capacity.** -/
theorem packTree_injective {H : Bytes → Bytes32} {M : Set Bytes} (hM : CollisionFree H M)
    {d : ℕ} {a b : Bytes} (hlen : a.length = b.length)
    (ha : ∀ m ∈ (packTree d a).messages H, m ∈ M) (hb : ∀ m ∈ (packTree d b).messages H, m ∈ M)
    (h : (packTree d a).root H = (packTree d b).root H) :
    a.take (32 * 2 ^ d) = b.take (32 * 2 ^ d) := by
  have hchunk := perfect_root_injective hM ha hb h
  apply List.ext_getElem
  · simp [hlen]
  · intro k hk hk'
    rw [List.length_take] at hk
    have hkd : k / 32 < 2 ^ d := by omega
    have hroot : chunkAt a (k / 32) = chunkAt b (k / 32) := hchunk _ hkd
    have hmod : k % 32 < 32 := Nat.mod_lt _ (by norm_num)
    have hsplit : 32 * (k / 32) + k % 32 = k := Nat.div_add_mod k 32
    have ha' := getD_chunkAt a (k / 32) (k % 32) hmod
    have hb' := getD_chunkAt b (k / 32) (k % 32) hmod
    rw [hsplit] at ha' hb'
    rw [hroot, hb'] at ha'
    have hka : k < a.length := by omega
    have hkb : k < b.length := by omega
    rw [List.getElem_take, List.getElem_take]
    simpa [List.getD_eq_getElem?_getD, List.getElem?_eq_getElem, hka, hkb] using ha'.symm

/-! ### Lists of subtrees -/

/-- The given subtrees, padded with zero chunks to `2 ^ d`. -/
def itemsTree (d : ℕ) (ts : List HashTree) : HashTree :=
  perfect d fun i => ts.getD i (.leaf zeroChunk)

/-- A tree with a length mixed in. -/
def withLength (t : HashTree) (n : ℕ) : HashTree := .node t (.leaf (padTo 32 (leBytes 32 n)))

theorem withLength_injective {H : Bytes → Bytes32} {M : Set Bytes} (hM : CollisionFree H M)
    {t u : HashTree} {n k : ℕ} (hn : n < 2 ^ 256) (hk : k < 2 ^ 256)
    (ht : ∀ m ∈ (withLength t n).messages H, m ∈ M)
    (hu : ∀ m ∈ (withLength u k).messages H, m ∈ M)
    (h : (withLength t n).root H = (withLength u k).root H) :
    t.root H = u.root H ∧ n = k := by
  obtain ⟨hroot, hlen⟩ := HashTree.node_root_injective hM ht hu h
  refine ⟨hroot, ?_⟩
  have hbytes : leBytes 32 n = leBytes 32 k := by
    have := congrArg List.Vector.toList hlen
    simp only [HashTree.root, toList_padTo] at this
    rwa [takeD_eq_take (by simp), takeD_eq_take (by simp), List.take_of_length_le (by simp),
      List.take_of_length_le (by simp)] at this
  have hpow : (256 : ℕ) ^ 32 = 2 ^ 256 := by norm_num
  exact leBytes_inj (by rwa [hpow]) (by rwa [hpow]) hbytes

theorem messages_withLength {H : Bytes → Bytes32} {t : HashTree} {n : ℕ} {m : Bytes}
    (hm : m ∈ t.messages H) : m ∈ (withLength t n).messages H :=
  List.mem_cons_of_mem _ (List.mem_append_left _ hm)

end Ssz
