import StatelessGuest.Ssz.HashTree
import StatelessGuest.Ssz.Reader

/-!
# Merkleization with a ladder of zero subtrees

The merkleizer of the guest splits byte lengths, not chunk counts, and looks up
the roots of empty subtrees in a table that it fills on demand and keeps between
calls.  Every function here is shown to compute the root of a hash tree, from any
state of the table.  Part of the state is a log: of the strings that are hashed, and of
whether a size has wrapped.

## Main definitions

* `Statics`, `Merkle` — the table and the log, and computations over them.
* `zeroSubtreeRoot`, `merkleizePowerOfTwo`, `merkleizeChunks`, `merkleize` — the
  merkleizer.
* `mixInLength`, `htrUint64`, `htrByteVector`, `htrByteList`, `htrContainer` — the
  roots built with it.
* `Computes` — a computation returns the root of a tree, having hashed every
  string of it, and no size wraps.
* `treeBytes`, `byteListBytes` — how many bytes the merkleizer reads at most.

## Main results

* `computes_merkleizePowerOfTwo` — **the merkleizer computes the packed tree.**
* `merkleize_fullTree` — **the ladder does not change the root of the full tree.**
-/

namespace StatelessGuest

open Ssz

/-! ### The merkleizer -/

/-- What is kept between calls: the filled levels of the table of zero subtrees, the
strings hashed so far, and whether a product or a sum of sizes has wrapped. -/
structure Statics where
  table : List Bytes32 := []
  calls : List Bytes := []
  wrapped : Bool := false

/-- A computation over the statics. -/
abbrev Merkle := StateT Statics (Except Fault)

section

variable (H : Bytes → Bytes32) (w : WordSize)

/-- `sha256_bytes` -/
def sha256Bytes (m : Bytes) : Merkle Bytes32 := fun st => .ok (H m, { st with calls := m :: st.calls })

/-- `sha256_pair` -/
def sha256Pair (l r : Bytes32) : Merkle Bytes32 := sha256Bytes H (l.toList ++ r.toList)

/-- A size computed as `size`, which wraps where it is not less than the modulus. -/
def sizeT (size : ℕ) : Merkle ℕ := fun st =>
  .ok (size % w.modulus, { st with wrapped := st.wrapped || decide (w.modulus ≤ size) })

/-- The level above the filled ones. -/
def nextLevel (table : List Bytes32) : Merkle Bytes32 :=
  match table.getLast? with
  | none => pure zeroChunk
  | some z => sha256Pair H z z

/-- One pass of the loop that fills the table. -/
def fillLevel : Merkle Unit := do
  let st ← get
  let level ← nextLevel H st.table
  modify fun st => { st with table := st.table ++ [level] }

/-- `n` passes of the loop that fills the table. -/
def fillLevels : ℕ → Merkle Unit
  | 0 => pure ()
  | n + 1 => do
      fillLevel H
      fillLevels n

/-- `while (filled <= depth)` runs as often as levels are missing. -/
def zeroSubtreeRoot (depth : ℕ) : Merkle Bytes32 := do
  let depth := if depth ≥ 64 then 63 else depth
  let st ← get
  fillLevels H (depth + 1 - st.table.length)
  let st ← get
  pure (st.table.getD depth zeroChunk)

/-- `memcpy` of the first `n` bytes of a span into a chunk of zeros. -/
def copyChunk (s : ByteSpan) (n : ℕ) : Merkle Bytes32 :=
  if n ≤ s.ptr.length then pure (padTo 32 (s.ptr.take n)) else throw .outOfBounds

/-- The recursion over `total` leaves, to a depth of `fuel`. -/
def merkleizeHalves : ℕ → ByteSpan → ℕ → Merkle Bytes32
  | 0, _, _ => throw .stackOverflow
  | fuel + 1, s, total =>
      if s.len = 0 then zeroSubtreeRoot H (Nat.clog 2 total)
      else if total = 1 then copyChunk s (if s.len ≥ 32 then 32 else s.len)
      else do
        let half := total / 2
        let halfBytes ← sizeT w (half * 32)
        let leftLen := if s.len > halfBytes then halfBytes else s.len
        let rightLen := if s.len > halfBytes then s.len - halfBytes else 0
        let left ← merkleizeHalves fuel ⟨s.ptr, leftLen⟩ half
        let right ← merkleizeHalves fuel ⟨s.ptr.drop halfBytes, rightLen⟩ half
        sha256Pair H left right

/-- `merkleize_power_of_two`: 64 halvings reach one leaf from any `size_t` but zero. -/
def merkleizePowerOfTwo (s : ByteSpan) (total : ℕ) : Merkle Bytes32 := merkleizeHalves H w 65 s total

/-- `std::bit_ceil`, which is undefined where the result is no `size_t`. -/
def bitCeil (n : ℕ) : Merkle ℕ :=
  if 2 ^ Nat.clog 2 n < w.modulus then pure (2 ^ Nat.clog 2 n) else throw .unrepresentable

def merkleizeChunks (chunks : Bytes) (chunkCount : ℕ) : Merkle Bytes32 := do
  if chunkCount = 0 then sha256Pair H zeroChunk zeroChunk
  else
    let padded ← bitCeil w chunkCount
    let len ← sizeT w (chunkCount * 32)
    merkleizePowerOfTwo H w ⟨chunks, len⟩ padded

def merkleize (data : ByteSpan) (limit : ℕ) : Merkle Bytes32 := do
  if limit = 0 then pure zeroChunk
  else
    let padded ← bitCeil w limit
    merkleizePowerOfTwo H w data padded

/-- The length is a 64-bit integer in a chunk of zeros. -/
def mixInLength (root : Bytes32) (length : ℕ) : Merkle Bytes32 :=
  sha256Bytes H (root.toList ++ (padTo 32 (leBytes 8 length)).toList)

def htrUint64 (v : BitVec 64) : Merkle Bytes32 := pure (padTo 32 (leBytes 8 v.toNat))

def htrUint256 (v : Bytes32) : Merkle Bytes32 := pure v

/-- `MAX_CHUNKS` -/
def maxChunks : ℕ := 8

/-- The zeroed chunks, with the data copied into the first of them. -/
def htrByteVector {n : ℕ} (data : ByteVec n) : Merkle Bytes32 :=
  if n ≤ 32 then pure (padTo 32 data.toList)
  else merkleizeChunks H w (data.toList.takeD (32 * maxChunks) 0) ((n + 31) / 32)

def htrByteList (data : ByteSpan) (limitBytes : ℕ) : Merkle Bytes32 := do
  let rounded ← sizeT w (limitBytes + 31)
  let root ← merkleize H w data (rounded / 32)
  mixInLength H root data.len

/-- The roots of the fields, in order. -/
def htrFields : List (Merkle Bytes32) → Merkle (List Bytes32)
  | [] => pure []
  | f :: fs => do
      let root ← f
      let roots ← htrFields fs
      pure (root :: roots)

/-- The bytes of a sequence of roots. -/
def chunkBytes (roots : List Bytes32) : Bytes := (roots.map List.Vector.toList).flatten

def htrContainer (fields : List (Merkle Bytes32)) : Merkle Bytes32 := do
  let roots ← htrFields fields
  merkleizeChunks H w (chunkBytes roots) roots.length

/-- `htr_container_list`, and the same loop written out for the transactions and the
versioned hashes.  The roots are written to a vector of `n * 32` bytes, and would leave
it if that product wrapped. -/
def htrContainerList (items : List (Merkle Bytes32)) (limit : ℕ) : Merkle Bytes32 := do
  let chunks ← htrFields items
  let len ← sizeT w (chunks.length * 32)
  if len < chunks.length * 32 then throw .outOfBounds
  else
    let root ← merkleize H w ⟨chunkBytes chunks, len⟩ limit
    mixInLength H root chunks.length

end

/-- Running one computation after another. -/
theorem bind_of_ok {α β : Type} {m : Merkle α} {f : α → Merkle β} {st : Statics} {p : α × Statics}
    (h : m st = .ok p) : (m >>= f) st = f p.1 p.2 := by
  have hrun : (m >>= f) st = (m st >>= fun p => f p.1 p.2) := rfl
  rw [hrun, h]
  rfl

/-! ### Computing a tree -/

/-- The tree over `2 ^ d` zero chunks. -/
def zeroTree (d : ℕ) : HashTree := perfect d fun _ => .leaf zeroChunk

/-- The filled levels are the roots of zero trees, whose strings have been hashed. -/
structure Statics.Good (H : Bytes → Bytes32) (st : Statics) : Prop where
  length_le : st.table.length ≤ 64
  root : ∀ d, d < st.table.length → st.table.getD d zeroChunk = (zeroTree d).root H
  calls : ∀ d, d < st.table.length → ∀ m ∈ (zeroTree d).messages H, m ∈ st.calls

theorem good_default (H : Bytes → Bytes32) : Statics.Good H {} :=
  ⟨Nat.zero_le _, fun _ h => absurd h (Nat.not_lt_zero _), fun _ h => absurd h (Nat.not_lt_zero _)⟩

section

variable (H : Bytes → Bytes32) (P : Prop) {w : WordSize} {α β : Type}

/-- From any good state the computation returns `a`, has hashed `M` afterwards, and no size
has wrapped on the way; it may fault where `P` does not hold. -/
def Yields (m : Merkle α) (a : α) (M : List Bytes) : Prop :=
  ∀ st : Statics, st.Good H → (¬P ∧ ∃ e, m st = .error e) ∨
    ∃ st' : Statics, m st = .ok (a, st') ∧ st'.Good H ∧ st.calls ⊆ st'.calls ∧ M ⊆ st'.calls ∧
      st'.wrapped = st.wrapped

/-- The computation returns the root of `t`, and has hashed every string of it. -/
abbrev Computes (m : Merkle Bytes32) (t : HashTree) : Prop := Yields H P m (t.root H) (t.messages H)

variable {H P}

/-- Where `P` holds the computation returns. -/
theorem Yields.run {m : Merkle α} {a : α} {M : List Bytes} (h : Yields H P m a M) (hP : P)
    {st : Statics} (hst : st.Good H) : ∃ st' : Statics, m st = .ok (a, st') ∧ st'.Good H ∧
      st.calls ⊆ st'.calls ∧ M ⊆ st'.calls ∧ st'.wrapped = st.wrapped :=
  (h st hst).resolve_left fun hfault => hfault.1 hP

theorem Yields.pure (a : α) : Yields H P (pure a) a [] :=
  fun st h => .inr ⟨st, rfl, h, List.Subset.refl _, List.nil_subset _, rfl⟩

theorem Yields.bind {m : Merkle α} {f : α → Merkle β} {a : α} {b : β} {M N : List Bytes}
    (hm : Yields H P m a M) (hf : Yields H P (f a) b N) : Yields H P (m >>= f) b (M ++ N) := by
  intro st h
  have hrun : (m >>= f) st = (m st >>= fun p => f p.1 p.2) := rfl
  rw [hrun]
  rcases hm st h with ⟨hP, e, h₁⟩ | ⟨st₁, h₁, g₁, c₁, m₁, w₁⟩
  · exact .inl ⟨hP, e, by rw [h₁]; rfl⟩
  · rw [h₁]
    rcases hf st₁ g₁ with ⟨hP, e, h₂⟩ | ⟨st₂, h₂, g₂, c₂, m₂, w₂⟩
    · exact .inl ⟨hP, e, h₂⟩
    · exact .inr ⟨st₂, h₂, g₂, List.Subset.trans c₁ c₂,
        List.append_subset.mpr ⟨List.Subset.trans m₁ c₂, m₂⟩, w₂.trans w₁⟩

theorem Yields.weaken {m : Merkle α} {a : α} {M N : List Bytes} (h : Yields H P m a M) (hN : N ⊆ M) :
    Yields H P m a N := fun st hst =>
  (h st hst).imp id fun ⟨st', h₁, g, c, hm, hw⟩ => ⟨st', h₁, g, c, List.Subset.trans hN hm, hw⟩

/-- A computation that may fault outside `P`. -/
theorem yields_throw {e : Fault} {a : α} {M : List Bytes} (hP : ¬P) :
    Yields H P (throw e) a M := fun _ _ => .inl ⟨hP, e, rfl⟩

theorem yields_sha256Bytes (m : Bytes) : Yields H P (sha256Bytes H m) (H m) [m] := by
  intro st h
  refine .inr ⟨{ st with calls := m :: st.calls }, rfl, ⟨h.length_le, h.root, ?_⟩,
    List.subset_cons_self _ _, ?_, rfl⟩
  · intro d hd x hx
    exact List.mem_cons_of_mem _ (h.calls d hd x hx)
  · exact List.cons_subset.mpr ⟨List.mem_cons_self, List.nil_subset _⟩

/-- A size that does not wrap. -/
theorem yields_sizeT {size : ℕ} (h : size < w.modulus) : Yields H P (sizeT w size) size [] := by
  intro st hst
  have hrun : sizeT w size st = .ok (size, st) := by
    rw [sizeT, Nat.mod_eq_of_lt h, decide_eq_false (Nat.not_le.mpr h), Bool.or_false]
  exact .inr ⟨st, hrun, hst, List.Subset.refl _, List.nil_subset _, rfl⟩

/-- Hashing two roots computes the node over their trees. -/
theorem Computes.node {l r : Merkle Bytes32} {t u : HashTree} (hl : Computes H P l t)
    (hr : Computes H P r u) :
    Computes H P (do let a ← l; let b ← r; sha256Pair H a b) (.node t u) := by
  refine (hl.bind (hr.bind (yields_sha256Bytes _))).weaken ?_
  intro x hx
  simp only [HashTree.messages, List.mem_cons, List.mem_append] at hx ⊢
  tauto

/-! ### The table -/

theorem zeroTree_succ (d : ℕ) : zeroTree (d + 1) = .node (zeroTree d) (zeroTree d) := rfl

/-- One pass adds a level. -/
theorem fillLevel_good {st : Statics} (h : st.Good H) (hlt : st.table.length < 64) :
    ∃ st' : Statics, fillLevel H st = .ok ((), st') ∧ st'.Good H ∧
      st'.table.length = st.table.length + 1 ∧ st.calls ⊆ st'.calls ∧
        st'.wrapped = st.wrapped := by
  -- The new level is the zero tree of its own depth, whatever the table held.
  obtain ⟨st₁, h₁, g₁, c₁, t₁, m₁, w₁⟩ : ∃ st₁ : Statics,
      nextLevel H st.table st = .ok ((zeroTree st.table.length).root H, st₁) ∧ st₁.Good H ∧
        st.calls ⊆ st₁.calls ∧ st₁.table = st.table ∧
          (zeroTree st.table.length).messages H ⊆ st₁.calls ∧ st₁.wrapped = st.wrapped := by
    rcases List.eq_nil_or_concat st.table with hnil | ⟨init, z, hz⟩
    · rw [nextLevel, hnil]
      exact ⟨st, rfl, h, List.Subset.refl _, hnil, List.nil_subset _, rfl⟩
    · rw [List.concat_eq_append] at hz
      have hlen : st.table.length = init.length + 1 := by rw [hz, List.length_append]; rfl
      have hroot : z = (zeroTree init.length).root H := by
        rw [← h.root init.length (by omega), hz]
        simp [List.getD_eq_getElem?_getD]
      obtain ⟨st₂, h₂, g₂, c₂, m₂, w₂⟩ :=
        (yields_sha256Bytes (H := H) (P := True) (z.toList ++ z.toList)).run trivial h
      refine ⟨st₂, ?_, g₂, c₂, ?_, ?_, w₂⟩
      · rw [nextLevel, hz, List.getLast?_append, List.getLast?_singleton, ← hz, hlen, zeroTree_succ,
          HashTree.root, ← hroot]
        exact h₂
      · cases h₂
        rfl
      · rw [hlen, zeroTree_succ, HashTree.messages, ← hroot]
        have hold := List.Subset.trans (h.calls init.length (by omega)) c₂
        exact List.cons_subset.mpr ⟨m₂ List.mem_cons_self, List.append_subset.mpr ⟨hold, hold⟩⟩
  refine ⟨{ st₁ with table := st₁.table ++ [(zeroTree st.table.length).root H] }, ?_, ?_, ?_, c₁, w₁⟩
  · show (nextLevel H st.table st >>= fun p =>
      .ok ((), { p.2 with table := p.2.table ++ [p.1] })) = _
    rw [h₁]
    rfl
  · have hcases : ∀ d, d < (st₁.table ++ [(zeroTree st.table.length).root H]).length →
        d < st₁.table.length ∨ d = st.table.length := by
      intro d hd
      rw [List.length_append, List.length_singleton, t₁] at hd
      rw [t₁]
      omega
    refine ⟨?_, ?_, ?_⟩
    · show (st₁.table ++ [_]).length ≤ 64
      rw [List.length_append, List.length_singleton, t₁]
      omega
    · intro d hd
      show (st₁.table ++ [_]).getD d zeroChunk = _
      rcases hcases d hd with hlt | rfl
      · rw [List.getD_append _ _ _ _ hlt, g₁.root d hlt]
      · rw [← t₁]
        simp [List.getD_eq_getElem?_getD]
    · intro d hd
      rcases hcases d hd with hlt | rfl
      · exact g₁.calls d hlt
      · exact m₁
  · show (st₁.table ++ [_]).length = _
    rw [List.length_append, List.length_singleton, t₁]

/-- Several passes add as many levels. -/
theorem fillLevels_good {st : Statics} (h : st.Good H) {n : ℕ} (hle : st.table.length + n ≤ 64) :
    ∃ st' : Statics, fillLevels H n st = .ok ((), st') ∧ st'.Good H ∧
      st'.table.length = st.table.length + n ∧ st.calls ⊆ st'.calls ∧ st'.wrapped = st.wrapped := by
  induction n generalizing st with
  | zero => exact ⟨st, rfl, h, rfl, List.Subset.refl _, rfl⟩
  | succ n ih =>
    obtain ⟨st₁, h₁, g₁, l₁, c₁, w₁⟩ := fillLevel_good h (by omega)
    obtain ⟨st₂, h₂, g₂, l₂, c₂, w₂⟩ := ih g₁ (by omega)
    refine ⟨st₂, ?_, g₂, by omega, List.Subset.trans c₁ c₂, w₂.trans w₁⟩
    show fillLevel H st >>= (fun p => fillLevels H n p.2) = _
    rw [h₁]
    exact h₂

/-- **The table holds the roots of the zero trees.** -/
theorem computes_zeroSubtreeRoot {d : ℕ} (hd : d < 64) :
    Computes H P (zeroSubtreeRoot H d) (zeroTree d) := by
  intro st h
  obtain ⟨st₁, h₁, g₁, l₁, c₁, w₁⟩ := fillLevels_good h (n := d + 1 - st.table.length)
    (by have := h.length_le; omega)
  have hlt : d < st₁.table.length := by omega
  refine .inr ⟨st₁, ?_, g₁, c₁, g₁.calls d hlt, w₁⟩
  rw [zeroSubtreeRoot, if_neg (by omega)]
  show (fillLevels H (d + 1 - st.table.length) st >>= fun p =>
    .ok (p.2.table.getD d zeroChunk, p.2)) = _
  rw [h₁, ← g₁.root d hlt]
  rfl

/-! ### The recursion -/

/-- The bytes that a tree over `bit_ceil(limit)` chunks has room for. -/
def treeBytes (limit : ℕ) : ℕ := 2 ^ Nat.clog 2 limit * 32

/-- The bytes that the tree of a byte list has room for. -/
def byteListBytes (limitBytes : ℕ) : ℕ := treeBytes ((limitBytes + 31) / 32)

/-- A chunk behind the first half of the chunks. -/
theorem chunkAt_add (b : Bytes) (i d : ℕ) :
    chunkAt b (i + 2 ^ d) = chunkAt (b.drop (2 ^ d * 32)) i := by
  rw [chunkAt, chunkAt, List.drop_drop]
  congr 2
  ring

theorem chunkAt_nil (i : ℕ) : chunkAt [] i = zeroChunk := by
  rw [chunkAt, List.drop_nil]
  rfl

theorem packTree_nil (d : ℕ) : packTree d [] = zeroTree d :=
  perfect_congr fun i _ => by rw [chunkAt_nil]

/-- The two halves of packed bytes. -/
theorem packTree_succ (d : ℕ) (b : Bytes) :
    packTree (d + 1) b =
      .node (packTree d (b.take (2 ^ d * 32))) (packTree d (b.drop (2 ^ d * 32))) := by
  rw [packTree, perfect]
  congr 1
  · exact packTree_congr (by rw [List.take_take, Nat.mul_comm, Nat.min_self])
  · exact perfect_congr fun i _ => by rw [chunkAt_add]

theorem computes_copyChunk {s : ByteSpan} (hs : P → s.Holds 32) :
    Computes H P (copyChunk s (if s.len ≥ 32 then 32 else s.len)) (packTree 0 s.bytes) := by
  set n := if s.len ≥ 32 then 32 else s.len with hn
  have hmin : n = min 32 s.len := by
    rw [hn]
    split <;> omega
  unfold copyChunk
  split
  · rename_i hroom
    have hval : padTo 32 (s.ptr.take n) = chunkAt s.bytes 0 := by
      apply toList_injective
      rw [chunkAt, toList_padTo, toList_padTo, Nat.mul_zero, List.drop_zero, ByteSpan.bytes,
        ← takeD_take 32 (s.ptr.takeD s.len 0), ← takeD_take 32 (s.ptr.take n), List.take_take, hmin]
      congr 1
      rcases Nat.le_total 32 s.len with hle | hle
      · rw [take_takeD hle, takeD_eq_take (by omega), Nat.min_eq_left hle, Nat.min_self]
      · have hroom' : s.len ≤ s.ptr.length := by omega
        rw [takeD_eq_take hroom', List.take_take, Nat.min_eq_right hle, Nat.min_eq_right hle]
    rw [hval]
    exact Yields.pure _
  · rename_i hroom
    refine yields_throw fun hP => hroom ?_
    have hlen : min s.len 32 ≤ s.ptr.length := hs hP
    omega

/-- **The merkleizer computes the packed tree**, as long as no half wraps around. -/
theorem computes_merkleizeHalves {d fuel : ℕ} {s : ByteSpan} (hs : P → s.Holds (2 ^ d * 32)) (hd : d < 64)
    (hfuel : d < fuel) (hfit : 2 ^ d * 16 < w.modulus) :
    Computes H P (merkleizeHalves H w fuel s (2 ^ d)) (packTree d s.bytes) := by
  obtain ⟨fuel, rfl⟩ : ∃ k, fuel = k + 1 := ⟨fuel - 1, by omega⟩
  induction d generalizing s fuel with
  | zero =>
    unfold merkleizeHalves
    rcases Nat.eq_zero_or_pos s.len with hzero | hpos
    · rw [if_pos hzero, List.eq_nil_of_length_eq_zero (s.length_bytes.trans hzero), packTree_nil,
        Nat.pow_zero, Nat.clog_one_right]
      exact computes_zeroSubtreeRoot hd
    · rw [if_neg (by omega), if_pos (Nat.pow_zero 2)]
      exact computes_copyChunk fun hP => by simpa using hs hP
  | succ d ih =>
    have hpow : 2 ^ (d + 1) = 2 * 2 ^ d := Nat.pow_succ'
    have hpos : 0 < 2 ^ d := Nat.two_pow_pos d
    obtain ⟨fuel, rfl⟩ : ∃ k, fuel = k + 1 := ⟨fuel - 1, by omega⟩
    unfold merkleizeHalves
    rcases Nat.eq_zero_or_pos s.len with hzero | hlen
    · rw [if_pos hzero, List.eq_nil_of_length_eq_zero (s.length_bytes.trans hzero), packTree_nil,
        Nat.clog_pow 2 _ (by norm_num)]
      exact computes_zeroSubtreeRoot hd
    · -- The left half keeps at most half the bytes, the right half what is left over.
      have hhalf : 2 ^ (d + 1) / 2 = 2 ^ d := by omega
      have hsize : Yields H P (sizeT w (2 ^ d * 32)) (2 ^ d * 32) [] := yields_sizeT (by omega)
      rw [if_neg (by omega), if_neg (by omega)]
      simp only [hhalf]
      rw [packTree_succ]
      have hleft := ih (s := ⟨s.ptr, if s.len > 2 ^ d * 32 then 2 ^ d * 32 else s.len⟩)
        (fun hP => by
          have hbound : min s.len (2 ^ (d + 1) * 32) ≤ s.ptr.length := hs hP
          show min (ite _ _ _) _ ≤ s.ptr.length
          split <;> omega) (by omega) (by omega) fuel (by omega)
      have hright := ih (s := ⟨s.ptr.drop (2 ^ d * 32),
          if s.len > 2 ^ d * 32 then s.len - 2 ^ d * 32 else 0⟩)
        (fun hP => by
          have hbound : min s.len (2 ^ (d + 1) * 32) ≤ s.ptr.length := hs hP
          show min (ite _ _ _) _ ≤ (s.ptr.drop _).length
          rw [List.length_drop]
          split <;> omega) (by omega) (by omega) fuel (by omega)
      have hl : (ByteSpan.mk s.ptr (if s.len > 2 ^ d * 32 then 2 ^ d * 32 else s.len)).bytes =
          s.bytes.take (2 ^ d * 32) := by
        unfold ByteSpan.bytes
        rcases Nat.lt_or_ge (2 ^ d * 32) s.len with hgt | hle
        · rw [if_pos hgt, take_takeD hgt.le]
        · rw [if_neg (by omega), List.take_of_length_le (by rw [List.takeD_length]; exact hle)]
      have hr : (ByteSpan.mk (s.ptr.drop (2 ^ d * 32))
          (if s.len > 2 ^ d * 32 then s.len - 2 ^ d * 32 else 0)).bytes =
          s.bytes.drop (2 ^ d * 32) := by
        rcases Nat.lt_or_ge (2 ^ d * 32) s.len with hgt | hle
        · have hsplit : 2 ^ d * 32 + (s.len - 2 ^ d * 32) = s.len := by omega
          have hdrop : s.bytes.drop (2 ^ d * 32) =
              window s.bytes (2 ^ d * 32) (s.len - 2 ^ d * 32) :=
            (window_eq_drop (by rw [ByteSpan.length_bytes]; exact hsplit)).symm
          rw [if_pos hgt, hdrop, ByteSpan.bytes, ByteSpan.bytes, window_takeD hsplit.le]
        · have hdrop : s.bytes.drop (2 ^ d * 32) = [] :=
            List.drop_eq_nil_of_le (by rw [ByteSpan.length_bytes]; exact hle)
          rw [if_neg (by omega), hdrop]
          rfl
      -- With these two strings the halves are the two subtrees of the packed tree.
      rw [hl] at hleft
      rw [hr] at hright
      exact hsize.bind (hleft.node hright)

theorem computes_merkleizePowerOfTwo {d : ℕ} {s : ByteSpan} (hs : P → s.Holds (2 ^ d * 32))
    (hd : d < 64) (hfit : 2 ^ d * 16 < w.modulus) :
    Computes H P (merkleizePowerOfTwo H w s (2 ^ d)) (packTree d s.bytes) :=
  computes_merkleizeHalves hs hd (by omega) hfit

theorem yields_bitCeil {n : ℕ} (h : 2 ^ Nat.clog 2 n < w.modulus) :
    Yields H P (bitCeil w n) (2 ^ Nat.clog 2 n) [] := by
  rw [bitCeil, if_pos h]
  exact Yields.pure _

theorem clog_lt {n : ℕ} (h : 2 ^ Nat.clog 2 n * 16 < w.modulus) : Nat.clog 2 n < 64 := by
  by_contra hge
  have hpow : 2 ^ 64 ≤ 2 ^ Nat.clog 2 n := Nat.pow_le_pow_right (by norm_num) (by omega)
  have hmod : w.modulus ≤ 2 ^ 64 := by cases w <;> norm_num [WordSize.modulus]
  omega

/-- `merkleize` computes the tree over `bit_ceil(limit)` chunks. -/
theorem computes_merkleize {s : ByteSpan} {limit : ℕ} (hs : P → s.Holds (treeBytes limit))
    (hlimit : limit ≠ 0) (hfit : 2 ^ Nat.clog 2 limit * 16 < w.modulus) :
    Computes H P (merkleize H w s limit) (packTree (Nat.clog 2 limit) s.bytes) := by
  rw [merkleize, if_neg hlimit]
  exact (yields_bitCeil (by omega)).bind (computes_merkleizePowerOfTwo hs (clog_lt hfit) hfit)

/-- `merkleize_chunks` computes the tree over the chunks. -/
theorem computes_merkleizeChunks (chunks : Bytes) {n : ℕ} (hn : n ≠ 0)
    (hlen : n * 32 ≤ chunks.length) (hfit : n * 32 < w.modulus) :
    Computes H P (merkleizeChunks H w chunks n)
      (packTree (Nat.clog 2 n) (chunks.take (n * 32))) := by
  have hceil : 2 ^ Nat.clog 2 n * 16 < w.modulus := by
    rcases Nat.lt_or_ge n 2 with hone | htwo
    · have : n = 1 := by omega
      subst this
      rw [Nat.clog_one_right]
      exact lt_of_lt_of_le (by norm_num) w.le_modulus
    · have hpred := Nat.pow_pred_clog_lt_self (b := 2) (by norm_num) (x := n) (by omega)
      have hpos : 0 < Nat.clog 2 n := Nat.clog_pos (by norm_num) htwo
      have hsucc : 2 ^ Nat.clog 2 n = 2 * 2 ^ (Nat.clog 2 n).pred := by
        rw [← Nat.pow_succ', Nat.succ_pred_eq_of_pos hpos]
      omega
  rw [merkleizeChunks, if_neg hn]
  have hs : (ByteSpan.mk chunks (n * 32)).InBounds := hlen
  rw [← ByteSpan.bytes_eq_take hs]
  exact (yields_bitCeil (by omega)).bind ((yields_sizeT hfit).bind
    (computes_merkleizePowerOfTwo (fun _ => hs.holds _) (clog_lt hceil) hceil))

end

/-! ### Roots of fields and items -/

section

variable {H : Bytes → Bytes32} {P : Prop} {w : WordSize}

/-- Strings that read the same have the same chunks. -/
theorem chunkAt_congr {a b : Bytes} (h : ∀ j, a.getD j 0 = b.getD j 0) (i : ℕ) :
    chunkAt a i = chunkAt b i := by
  apply toList_injective
  rw [chunkAt, chunkAt, toList_padTo, toList_padTo, takeD_eq_map_getD, takeD_eq_map_getD]
  apply List.map_congr_left
  intro j _
  have := h (32 * i + j)
  simpa only [List.getD_eq_getElem?_getD, List.getElem?_drop] using this

/-- Padding with zeros does not change the packed tree. -/
theorem packTree_takeD {d n : ℕ} {b : Bytes} (h : b.length ≤ n) :
    packTree d (b.takeD n 0) = packTree d b := by
  refine perfect_congr fun i _ => congrArg HashTree.leaf (chunkAt_congr ?_ i)
  intro j
  rw [takeD_eq_append h]
  rcases Nat.lt_or_ge j b.length with hlt | hge
  · rw [List.getD_append _ _ _ _ hlt]
  · rw [List.getD_append_right _ _ _ _ hge, List.getD_eq_default _ _ hge, List.getD_eq_getElem?_getD,
      List.getElem?_replicate]
    split <;> rfl

theorem length_chunkBytes (roots : List Bytes32) : (chunkBytes roots).length = roots.length * 32 := by
  induction roots with
  | nil => rfl
  | cons r roots ih =>
    have hcons : chunkBytes (r :: roots) = r.toList ++ chunkBytes roots := rfl
    rw [hcons, List.length_append, ih, length_toList, List.length_cons]
    ring

/-- Chunk `i` of a sequence of roots. -/
theorem chunkAt_chunkBytes (roots : List Bytes32) (i : ℕ) :
    chunkAt (chunkBytes roots) i = roots.getD i zeroChunk := by
  induction roots generalizing i with
  | nil => exact chunkAt_nil i
  | cons r roots ih =>
    have hcons : chunkBytes (r :: roots) = r.toList ++ chunkBytes roots := rfl
    cases i with
    | zero =>
      apply toList_injective
      rw [chunkAt, hcons, toList_padTo, Nat.mul_zero, List.drop_zero,
        takeD_eq_take (by rw [List.length_append, length_toList]; omega),
        List.take_left' (length_toList _)]
      rfl
    | succ i =>
      have hdrop : (r.toList ++ chunkBytes roots).drop (32 * (i + 1)) =
          (chunkBytes roots).drop (32 * i) := by
        rw [List.drop_append, List.drop_eq_nil_of_le (by rw [length_toList]; omega),
          List.nil_append, length_toList]
        congr 1
      rw [chunkAt, hcons, hdrop, ← chunkAt, ih, List.getD_cons_succ]

/-- What a tree over subtrees hashes is hashed over their roots or in one of them. -/
theorem messages_perfect_subset {d : ℕ} {f : ℕ → HashTree} {m : Bytes}
    (h : m ∈ (perfect d f).messages H) :
    m ∈ (perfect d fun i => .leaf ((f i).root H)).messages H ∨ ∃ i, m ∈ (f i).messages H := by
  induction d generalizing f with
  | zero => exact Or.inr ⟨0, h⟩
  | succ d ih =>
    rw [perfect, HashTree.messages] at h ⊢
    simp only [root_perfect, List.mem_cons, List.mem_append] at h ⊢
    rcases h with hnode | hl | hr
    · exact Or.inl (Or.inl hnode)
    · exact (ih hl).imp (fun h => Or.inr (Or.inl h)) id
    · rcases ih hr with hnode | ⟨i, hi⟩
      · exact Or.inl (Or.inr (Or.inr hnode))
      · exact Or.inr ⟨_, hi⟩

/-- Packed roots are the tree over the roots of the subtrees. -/
theorem packTree_chunkBytes (d : ℕ) (ts : List HashTree) :
    packTree d (chunkBytes (ts.map (HashTree.root H))) =
      perfect d fun i => .leaf ((ts.getD i (.leaf zeroChunk)).root H) := by
  refine perfect_congr fun i _ => congrArg HashTree.leaf ?_
  rw [chunkAt_chunkBytes]
  exact List.getD_map ts (.leaf zeroChunk) (HashTree.root H)

/-- The tree over subtrees has the root of the packed roots. -/
theorem root_packTree_chunkBytes (d : ℕ) (ts : List HashTree) :
    (packTree d (chunkBytes (ts.map (HashTree.root H)))).root H = (itemsTree d ts).root H := by
  rw [packTree_chunkBytes, itemsTree, root_perfect, root_perfect]
  rfl

/-- What the tree over subtrees hashes: the packed roots, and the subtrees. -/
theorem messages_itemsTree_subset (d : ℕ) (ts : List HashTree) :
    (itemsTree d ts).messages H ⊆ ts.flatMap (HashTree.messages H) ++
      (packTree d (chunkBytes (ts.map (HashTree.root H)))).messages H := by
  intro x hx
  rcases messages_perfect_subset hx with hnode | ⟨i, hi⟩
  · rw [packTree_chunkBytes]
    exact List.mem_append_right _ hnode
  · refine List.mem_append_left _ (List.mem_flatMap.mpr ?_)
    rcases Nat.lt_or_ge i ts.length with hlt | hge
    · rw [List.getD_eq_getElem _ _ hlt] at hi
      exact ⟨_, List.getElem_mem hlt, hi⟩
    · rw [List.getD_eq_default _ _ hge] at hi
      cases hi

/-- The roots of the fields, having hashed everything under them. -/
theorem yields_htrFields {ms : List (Merkle Bytes32)} {ts : List HashTree}
    (h : List.Forall₂ (Computes H P) ms ts) :
    Yields H P (htrFields ms) (ts.map (HashTree.root H)) (ts.flatMap (HashTree.messages H)) := by
  induction h with
  | nil => exact Yields.pure []
  | cons hm _ ih =>
    rw [htrFields, List.flatMap_cons]
    refine (hm.bind (ih.bind (f := fun roots => pure (_ :: roots)) (Yields.pure _))).weaken ?_
    rw [List.append_nil]
    exact List.Subset.refl _

/-- **A container computes the tree over its fields.** -/
theorem computes_htrContainer {ms : List (Merkle Bytes32)} {ts : List HashTree}
    (h : List.Forall₂ (Computes H P) ms ts) (hne : ts ≠ []) (hlen : ts.length * 32 < w.modulus) :
    Computes H P (htrContainer H w ms) (itemsTree (Nat.clog 2 ts.length) ts) := by
  have hn : (ts.map (HashTree.root H)).length = ts.length := List.length_map _
  have hbytes := length_chunkBytes (ts.map (HashTree.root H))
  rw [hn] at hbytes
  have hroot := computes_merkleizeChunks (H := H) (P := P) (w := w)
    (chunkBytes (ts.map (HashTree.root H))) (n := ts.length)
    (fun h0 => hne (List.eq_nil_of_length_eq_zero h0)) hbytes.ge hlen
  rw [← hbytes, List.take_length] at hroot
  unfold Computes at hroot
  rw [root_packTree_chunkBytes] at hroot
  refine ((yields_htrFields h).bind (f := fun roots =>
    merkleizeChunks H w (chunkBytes roots) roots.length) ?_).weaken (messages_itemsTree_subset _ _)
  rw [hn]
  exact hroot

/-- A 64-bit length fills a chunk as a 256-bit one does. -/
theorem padTo_length {n : ℕ} (h : n < 2 ^ 64) : padTo 32 (leBytes 8 n) = padTo 32 (leBytes 32 n) := by
  apply toList_injective
  apply leNat_inj (by rw [length_toList, length_toList])
  rw [leNat_padTo, leNat_padTo, List.take_of_length_le (by rw [length_leBytes]; norm_num),
    List.take_of_length_le (by rw [length_leBytes]),
    leNat_leBytes (lt_of_lt_of_le h (by norm_num)), leNat_leBytes (lt_of_lt_of_le h (by norm_num))]

/-- Mixing a length in. -/
theorem computes_mixInLength {m : Merkle Bytes32} {t : HashTree} {n : ℕ} (hm : Computes H P m t)
    (hn : n < 2 ^ 64) : Computes H P (do let root ← m; mixInLength H root n) (withLength t n) := by
  have hmix : mixInLength H (t.root H) n =
      sha256Bytes H ((t.root H).toList ++ (padTo 32 (leBytes 32 n)).toList) := by
    rw [mixInLength, padTo_length hn]
  refine (hm.bind (hmix ▸ yields_sha256Bytes _)).weaken ?_
  intro x hx
  simp only [withLength, HashTree.messages, HashTree.root, List.mem_cons, List.mem_append,
    List.append_nil, List.not_mem_nil, or_false] at hx ⊢
  tauto

theorem modulus_le (w : WordSize) : w.modulus ≤ 2 ^ 64 := by
  cases w <;> norm_num [WordSize.modulus]

/-- **A list computes the tree over its items, with their number mixed in.** -/
theorem computes_htrContainerList (limit : ℕ) {ms : List (Merkle Bytes32)} {ts : List HashTree}
    (h : List.Forall₂ (Computes H P) ms ts) (hlen : P → ts.length * 32 < w.modulus)
    (hlimit : limit ≠ 0) (hfit : 2 ^ Nat.clog 2 limit * 16 < w.modulus) :
    Computes H P (htrContainerList H w ms limit)
      (withLength (itemsTree (Nat.clog 2 limit) ts) ts.length) := by
  have hn : (ts.map (HashTree.root H)).length = ts.length := List.length_map _
  have hbytes := length_chunkBytes (ts.map (HashTree.root H))
  rw [hn] at hbytes
  have hspan : (ByteSpan.mk (chunkBytes (ts.map (HashTree.root H))) (ts.length * 32)).InBounds :=
    hbytes.ge
  have hroot := computes_merkleize (H := H) (P := P) (w := w) (fun _ => hspan.holds _) hlimit hfit
  rw [ByteSpan.bytes_eq_take hspan, ← hbytes, List.take_length, hbytes] at hroot
  -- The chunks of the roots are packed into one tree, whose root is that of the tree over
  -- the items.
  have hwith : (withLength (packTree (Nat.clog 2 limit) (chunkBytes (ts.map (HashTree.root H))))
      ts.length).root H = (withLength (itemsTree (Nat.clog 2 limit) ts) ts.length).root H := by
    simp only [withLength, HashTree.root, root_packTree_chunkBytes]
  have hbody : Yields H P ((fun chunks : List Bytes32 => do
        let len ← sizeT w (chunks.length * 32)
        if len < chunks.length * 32 then throw .outOfBounds
        else do
          let root ← merkleize H w ⟨chunkBytes chunks, len⟩ limit
          mixInLength H root chunks.length : List Bytes32 → Merkle Bytes32)
        (ts.map (HashTree.root H)))
      ((withLength (itemsTree (Nat.clog 2 limit) ts) ts.length).root H)
      ((withLength (packTree (Nat.clog 2 limit) (chunkBytes (ts.map (HashTree.root H))))
        ts.length).messages H) := by
    simp only [hn]
    rcases Nat.lt_or_ge (ts.length * 32) w.modulus with hlt | hwrap
    · have hmod := modulus_le w
      have hmix := computes_mixInLength hroot (n := ts.length) (by omega)
      unfold Computes at hmix
      rw [hwith] at hmix
      apply (yields_sizeT hlt).bind
      rw [if_neg (lt_irrefl _)]
      exact hmix
    · -- The byte length wraps around, and the roots are written past the end of the vector.
      intro st _
      have hcut : ts.length * 32 % w.modulus < ts.length * 32 :=
        (Nat.mod_lt _ (lt_of_lt_of_le (by norm_num) w.le_modulus)).trans_le hwrap
      refine .inl ⟨fun hP => absurd (hlen hP) (Nat.not_lt.mpr hwrap), .outOfBounds, ?_⟩
      show (if ts.length * 32 % w.modulus < ts.length * 32 then throw Fault.outOfBounds
        else _ : Merkle Bytes32) _ = _
      rw [if_pos hcut]
      rfl
  -- The strings hashed are those of the items, those of the packed tree and the last one,
  -- where the length is mixed in.
  apply ((yields_htrFields h).bind hbody).weaken
  intro x hx
  have hsub := messages_itemsTree_subset (H := H) (Nat.clog 2 limit) ts
  simp only [withLength, HashTree.messages, root_packTree_chunkBytes, List.mem_cons,
    List.mem_append, List.append_nil] at hx ⊢
  rcases hx with hx | hx
  · exact Or.inr (Or.inl hx)
  · rcases List.mem_append.mp (hsub hx) with hf | hp
    · exact Or.inl hf
    · exact Or.inr (Or.inr hp)

theorem computes_htrUint64 (v : BitVec 64) :
    Computes H P (htrUint64 v) (.leaf (padTo 32 (leBytes 8 v.toNat))) := Yields.pure _

theorem computes_htrUint256 (v : Bytes32) : Computes H P (htrUint256 v) (packTree 0 v.toList) := by
  have hchunk : chunkAt v.toList 0 = v := by
    apply toList_injective
    rw [chunkAt, toList_padTo, Nat.mul_zero, List.drop_zero, takeD_self (length_toList _)]
  have htree : packTree 0 v.toList = .leaf v := congrArg HashTree.leaf hchunk
  rw [htree]
  exact Yields.pure _

/-- **A byte vector of at most 256 bytes computes its packed tree.** -/
theorem computes_htrByteVector {n : ℕ} (v : ByteVec n) (hn : n ≤ 256) :
    Computes H P (htrByteVector H w v) (packTree (Nat.clog 2 ((n + 31) / 32)) v.toList) := by
  unfold htrByteVector
  rcases Nat.lt_or_ge 32 n with hlong | hshort
  · rw [if_neg (by omega)]
    have hmod := w.le_modulus
    have hchunks := computes_merkleizeChunks (H := H) (P := P) (w := w)
      (v.toList.takeD (32 * maxChunks) 0) (n := (n + 31) / 32) (by omega)
      (by rw [List.takeD_length, maxChunks]; omega) (by omega)
    rw [take_takeD (by rw [maxChunks]; omega), packTree_takeD (by rw [length_toList]; omega)] at hchunks
    exact hchunks
  · have hdepth : Nat.clog 2 ((n + 31) / 32) = 0 := Nat.clog_of_right_le_one (by omega) 2
    rw [if_pos hshort, hdepth]
    exact Yields.pure _

/-- **A byte list computes its packed tree, with its length mixed in.** -/
theorem computes_htrByteList {data : ByteSpan} {limit : ℕ}
    (hdata : P → data.Holds (byteListBytes limit)) (hlen : data.len < 2 ^ 64) (hpos : 0 < limit)
    (hlimit : limit ≤ 2 ^ 30) :
    Computes H P (htrByteList H w data limit)
      (withLength (packTree (Nat.clog 2 ((limit + 31) / 32)) data.bytes) data.bytes.length) := by
  have hmod := w.le_modulus
  have hclog : Nat.clog 2 ((limit + 31) / 32) ≤ 25 :=
    Nat.clog_le_of_le_pow (by norm_num; omega)
  have hcap : 2 ^ Nat.clog 2 ((limit + 31) / 32) ≤ 2 ^ 25 := Nat.pow_le_pow_right (by norm_num) hclog
  rw [htrByteList, ByteSpan.length_bytes]
  exact (yields_sizeT (by omega)).bind
    (computes_mixInLength (computes_merkleize hdata (by omega) (by omega)) hlen)

end

/-! ### Where a computation returns -/

section

variable {H : Bytes → Bytes32} {w : WordSize} {α β : Type}

/-- The computation returns from some state. -/
def Returns (m : Merkle α) : Prop := ∃ st p, m st = .ok p

theorem run_bind_eq_ok {m : Merkle α} {f : α → Merkle β} {st : Statics} {q : β × Statics} :
    (m >>= f) st = .ok q ↔ ∃ p, m st = .ok p ∧ f p.1 p.2 = .ok q := by
  constructor
  · intro h
    have hrun : (m >>= f) st = (m st >>= fun p => f p.1 p.2) := rfl
    rw [hrun] at h
    cases hm : m st with
    | error e =>
      rw [hm] at h
      cases h
    | ok p =>
      rw [hm] at h
      exact ⟨p, rfl, h⟩
  · rintro ⟨p, hm, hf⟩
    rw [bind_of_ok hm]
    exact hf

theorem Returns.left {m : Merkle α} {f : α → Merkle β} (h : Returns (m >>= f)) : Returns m := by
  obtain ⟨st, q, h⟩ := h
  obtain ⟨p, hm, -⟩ := run_bind_eq_ok.mp h
  exact ⟨st, p, hm⟩

theorem Returns.right {m : Merkle α} {f : α → Merkle β} (h : Returns (m >>= f)) :
    ∃ a, Returns (f a) := by
  obtain ⟨st, q, h⟩ := h
  obtain ⟨p, -, hf⟩ := run_bind_eq_ok.mp h
  exact ⟨p.1, p.2, q, hf⟩

/-- What follows a size that does not wrap. -/
theorem Returns.sizeT {size : ℕ} (hsize : size < w.modulus) {f : ℕ → Merkle β}
    (h : Returns (sizeT w size >>= f)) : Returns (f size) := by
  obtain ⟨st, q, h⟩ := h
  obtain ⟨p, hp, hf⟩ := run_bind_eq_ok.mp h
  rw [StatelessGuest.sizeT, Except.ok.injEq] at hp
  rw [← hp, Nat.mod_eq_of_lt hsize] at hf
  exact ⟨_, q, hf⟩

/-- **The merkleizer reads the bytes that its tree has room for.** -/
theorem holds_of_merkleizeHalves {d fuel : ℕ} {s : ByteSpan} (hfit : 2 ^ d * 16 < w.modulus)
    (h : Returns (merkleizeHalves H w fuel s (2 ^ d))) : s.Holds (2 ^ d * 32) := by
  induction d generalizing s fuel with
  | zero =>
    cases fuel with
    | zero =>
      obtain ⟨st, p, h⟩ := h
      cases h
    | succ fuel =>
      unfold merkleizeHalves at h
      show min s.len (2 ^ 0 * 32) ≤ s.ptr.length
      rcases Nat.eq_zero_or_pos s.len with hzero | hpos
      · omega
      · rw [if_neg (by omega), if_pos (Nat.pow_zero 2), copyChunk] at h
        by_cases hroom : (if s.len ≥ 32 then 32 else s.len) ≤ s.ptr.length
        · split at hroom <;> omega
        · rw [if_neg hroom] at h
          obtain ⟨st, p, h⟩ := h
          cases h
  | succ d ih =>
    cases fuel with
    | zero =>
      obtain ⟨st, p, h⟩ := h
      cases h
    | succ fuel =>
      have hpow : 2 ^ (d + 1) = 2 * 2 ^ d := Nat.pow_succ'
      have hpos : 0 < 2 ^ d := Nat.two_pow_pos d
      have hhalf : 2 ^ (d + 1) / 2 = 2 ^ d := by omega
      unfold merkleizeHalves at h
      show min s.len (2 ^ (d + 1) * 32) ≤ s.ptr.length
      rcases Nat.eq_zero_or_pos s.len with hzero | hlen
      · omega
      · rw [if_neg (by omega), if_neg (by omega)] at h
        simp only [hhalf] at h
        have hbody := h.sizeT (by omega)
        -- The left half is read first, then the right half.
        have hleft : min (if s.len > 2 ^ d * 32 then 2 ^ d * 32 else s.len) (2 ^ d * 32) ≤
            s.ptr.length := ih (by omega) hbody.left
        obtain ⟨left, hbody⟩ := hbody.right
        have hright : min (if s.len > 2 ^ d * 32 then s.len - 2 ^ d * 32 else 0) (2 ^ d * 32) ≤
            (s.ptr.drop (2 ^ d * 32)).length := ih (by omega) hbody.left
        rw [List.length_drop] at hright
        split at hleft <;> split at hright <;> omega

theorem holds_of_merkleize {s : ByteSpan} {limit : ℕ} (hlimit : limit ≠ 0)
    (hfit : 2 ^ Nat.clog 2 limit * 16 < w.modulus) (h : Returns (merkleize H w s limit)) :
    s.Holds (treeBytes limit) := by
  rw [merkleize, if_neg hlimit, bitCeil, if_pos (by omega), pure_bind] at h
  exact holds_of_merkleizeHalves hfit h

/-- **A byte list is read as far as its tree has room.** -/
theorem holds_of_htrByteList {data : ByteSpan} {limit : ℕ} (hpos : 0 < limit)
    (hlimit : limit ≤ 2 ^ 30) (h : Returns (htrByteList H w data limit)) :
    data.Holds (byteListBytes limit) := by
  have hmod := w.le_modulus
  have hclog : Nat.clog 2 ((limit + 31) / 32) ≤ 25 :=
    Nat.clog_le_of_le_pow (by norm_num; omega)
  have hcap : 2 ^ Nat.clog 2 ((limit + 31) / 32) ≤ 2 ^ 25 := Nat.pow_le_pow_right (by norm_num) hclog
  unfold htrByteList at h
  exact holds_of_merkleize (by omega) (by omega) (h.sizeT (by omega)).left

theorem length_of_htrFields {ms : List (Merkle Bytes32)} {st : Statics}
    {p : List Bytes32 × Statics} (h : htrFields ms st = .ok p) : p.1.length = ms.length := by
  induction ms generalizing st p with
  | nil =>
    cases h
    rfl
  | cons m ms ih =>
    obtain ⟨q, -, h⟩ := run_bind_eq_ok.mp h
    obtain ⟨r, hr, h⟩ := run_bind_eq_ok.mp h
    cases h
    rw [List.length_cons, List.length_cons, ih hr]

theorem returns_of_htrFields {ms : List (Merkle Bytes32)} (h : Returns (htrFields ms)) :
    ∀ m ∈ ms, Returns m := by
  induction ms with
  | nil => exact fun m hm => absurd hm List.not_mem_nil
  | cons m ms ih =>
    rw [List.forall_mem_cons]
    obtain ⟨_, hrest⟩ := h.right
    exact ⟨h.left, ih hrest.left⟩

/-- The fields of a container whose root is computed. -/
theorem returns_of_htrContainer {ms : List (Merkle Bytes32)} (h : Returns (htrContainer H w ms)) :
    ∀ m ∈ ms, Returns m := returns_of_htrFields h.left

/-- The items of a list whose root is computed, and their number. -/
theorem returns_of_htrContainerList {ms : List (Merkle Bytes32)} {limit : ℕ}
    (h : Returns (htrContainerList H w ms limit)) :
    (∀ m ∈ ms, Returns m) ∧ ms.length * 32 < w.modulus := by
  refine ⟨returns_of_htrFields h.left, ?_⟩
  obtain ⟨st, q, h⟩ := h
  obtain ⟨p, hp, h⟩ := run_bind_eq_ok.mp h
  obtain ⟨n, hn, h⟩ := run_bind_eq_ok.mp h
  rw [sizeT, length_of_htrFields hp, Except.ok.injEq] at hn
  rw [length_of_htrFields hp, ← hn] at h
  by_contra hwrap
  have hcut : ms.length * 32 % w.modulus < ms.length * 32 :=
    (Nat.mod_lt _ (lt_of_lt_of_le (by norm_num) w.le_modulus)).trans_le (Nat.not_lt.mp hwrap)
  dsimp only at h
  rw [if_pos hcut] at h
  cases h

end

/-! ### The plain tree -/

/-- Calls of `zero_subtree_root` made before. -/
def zeroSubtreeRoots (H : Bytes → Bytes32) : List ℕ → Merkle Unit
  | [] => pure ()
  | depth :: depths => do
      let _ ← zeroSubtreeRoot H depth
      zeroSubtreeRoots H depths

/-- Whatever calls were made, the table is good. -/
theorem yields_zeroSubtreeRoots (H : Bytes → Bytes32) (depths : List ℕ) :
    Yields H True (zeroSubtreeRoots H depths) () [] := by
  induction depths with
  | nil => exact Yields.pure ()
  | cons depth depths ih =>
    have hclamp : zeroSubtreeRoot H depth = zeroSubtreeRoot H (min depth 63) := by
      have hmin : (if depth ≥ 64 then 63 else depth) = min depth 63 := by
        split <;> omega
      rw [zeroSubtreeRoot, zeroSubtreeRoot, hmin, if_neg (by omega)]
    rw [zeroSubtreeRoots, hclamp]
    exact ((computes_zeroSubtreeRoot (by omega)).bind ih).weaken (List.nil_subset _)

theorem root_packTree (H : Bytes → Bytes32) (d : ℕ) (b : Bytes) :
    (packTree d b).root H = merkleRoot H d (chunkAt b) :=
  root_perfect H d _

/-- Without data the tree is looked up, whatever the limit. -/
theorem computes_merkleize_empty {H : Bytes → Bytes32} {P : Prop} {w : WordSize} {s : ByteSpan}
    {limit : ℕ} (hs : s.len = 0) (hlimit : limit ≠ 0) (hfit : 2 ^ Nat.clog 2 limit < w.modulus) :
    Computes H P (merkleize H w s limit) (packTree (Nat.clog 2 limit) s.bytes) := by
  have hdepth : Nat.clog 2 limit < 64 := by
    by_contra hge
    have hpow : 2 ^ 64 ≤ 2 ^ Nat.clog 2 limit := Nat.pow_le_pow_right (by norm_num) (by omega)
    have hmod := modulus_le w
    omega
  rw [merkleize, if_neg hlimit, List.eq_nil_of_length_eq_zero (s.length_bytes.trans hs),
    packTree_nil]
  refine (yields_bitCeil hfit).bind (?_ : Computes _ _ _ _)
  rw [merkleizePowerOfTwo, merkleizeHalves, if_pos hs, Nat.clog_pow 2 _ (by norm_num)]
  exact computes_zeroSubtreeRoot hdepth

/-- **The merkleizer with a ladder of zero subtrees returns the root of the full tree**,
whatever calls filled the ladder before, for every limit that leaves the byte length of
half the leaves a `size_t`, and without data for every limit that has a power of two above
it. -/
theorem merkleize_fullTree (H : Bytes → Bytes32) (w : WordSize) (depths : List ℕ) :
    ∃ st, zeroSubtreeRoots H depths {} = .ok ((), st) ∧
      (∀ (data : ByteSpan) (limit : ℕ), data.InBounds → 1 ≤ limit →
        (2 ^ Nat.clog 2 limit * 16 < w.modulus ∨
          data.len = 0 ∧ 2 ^ Nat.clog 2 limit < w.modulus) →
        (data.len + 31) / 32 ≤ 2 ^ Nat.clog 2 limit →
        ∃ st', merkleize H w data limit st =
          .ok (merkleRoot H (Nat.clog 2 limit) (chunkAt data.bytes), st')) ∧
      ∀ (chunks : Bytes) (n : ℕ), 1 ≤ n → chunks.length = n * 32 → n * 32 < w.modulus →
        ∃ st', merkleizeChunks H w chunks n st =
          .ok (merkleRoot H (Nat.clog 2 n) (chunkAt chunks), st') := by
  obtain ⟨st, hst, good, -, -⟩ := (yields_zeroSubtreeRoots H depths).run trivial (good_default H)
  refine ⟨st, hst, ?_, ?_⟩
  · intro data limit hdata hlimit hfit _
    have hroot : Computes H True (merkleize H w data limit)
        (packTree (Nat.clog 2 limit) data.bytes) := by
      rcases hfit with hfit | ⟨hempty, hfit⟩
      · exact computes_merkleize (fun _ => hdata.holds _) (Nat.ne_of_gt hlimit) hfit
      · exact computes_merkleize_empty hempty (Nat.ne_of_gt hlimit) hfit
    obtain ⟨st', h, -⟩ := hroot.run trivial good
    exact ⟨st', by rw [h, root_packTree]⟩
  · intro chunks n hn hlen hfit
    obtain ⟨st', h, -⟩ := (computes_merkleizeChunks (H := H) (P := True) chunks
      (Nat.ne_of_gt hn) hlen.ge hfit).run trivial good
    rw [← hlen, List.take_length] at h
    exact ⟨st', by rw [h, root_packTree]⟩

/-- A partial chunk under a limit of three, after two calls, and one full chunk. -/
theorem merkleize_fullTree_partialChunk :
    ∃ st, zeroSubtreeRoots (padTo 32) [2, 70] {} = .ok ((), st) ∧
      (∃ st', merkleize (padTo 32) .bits32 (.ofBytes [7]) 3 st =
        .ok (merkleRoot (padTo 32) (Nat.clog 2 3) (chunkAt (ByteSpan.ofBytes [7]).bytes), st')) ∧
      ∃ st', merkleizeChunks (padTo 32) .bits32 zeroChunk.toList 1 st =
        .ok (merkleRoot (padTo 32) (Nat.clog 2 1) (chunkAt zeroChunk.toList), st') := by
  have hclog : Nat.clog 2 3 = 2 := by decide +kernel
  obtain ⟨st, hst, hdata, hchunks⟩ := merkleize_fullTree (padTo 32) .bits32 [2, 70]
  refine ⟨st, hst, hdata _ 3 (ByteSpan.inBounds_ofBytes _) (by norm_num) ?_ ?_,
    hchunks _ 1 le_rfl (length_toList _) (by decide)⟩
  · rw [hclog]
    exact .inl (by decide)
  · rw [hclog, ByteSpan.len_ofBytes]
    decide

/-- A hash that keeps its left argument has the first chunk as every root. -/
theorem merkleRoot_padTo (d : ℕ) (f : ℕ → Bytes32) : merkleRoot (padTo 32) d f = f 0 := by
  induction d generalizing f with
  | zero => rfl
  | succ d ih =>
    rw [merkleRoot, ih f]
    apply toList_injective
    rw [toList_padTo, takeD_eq_take (by rw [List.length_append, length_toList]; omega),
      List.take_left' (length_toList _)]

/-- With `2 ^ 60` leaves the byte length of half the leaves wraps to zero, and the data
ends up in the right half. -/
theorem merkleize_fullTree_counterexample :
    ¬∃ st', merkleize (padTo 32) .bits64 (.ofBytes [1]) (2 ^ 60) {} =
      .ok (merkleRoot (padTo 32) 60 (chunkAt [1]), st') := by
  rintro ⟨st', h⟩
  have hclog : Nat.clog 2 (2 ^ 60) = 60 := Nat.clog_pow 2 60 (by norm_num)
  have hclog' : Nat.clog 2 (2 ^ 59) = 59 := Nat.clog_pow 2 59 (by norm_num)
  have hleft : Computes (padTo 32) True (merkleizeHalves (padTo 32) .bits64 64 ⟨[1], 0⟩ (2 ^ 59))
      (zeroTree 59) := by
    rw [merkleizeHalves, if_pos rfl, hclog']
    exact computes_zeroSubtreeRoot (by norm_num)
  have hright : Computes (padTo 32) True (merkleizeHalves (padTo 32) .bits64 64 ⟨[1], 1⟩ (2 ^ 59))
      (packTree 59 (ByteSpan.ofBytes [1]).bytes) :=
    computes_merkleizeHalves (fun _ => (ByteSpan.inBounds_ofBytes [1]).holds _) (by norm_num) (by norm_num)
      (by norm_num [WordSize.modulus])
  -- The byte length of half the leaves is zero: the left half is told to have no bytes, the
  -- right half all of them.
  have hsize : sizeT .bits64 (2 ^ 60 / 2 * 32) {} = .ok (0, { wrapped := true }) := by
    norm_num [sizeT, WordSize.modulus]
  have hsplit : merkleizePowerOfTwo (padTo 32) .bits64 (.ofBytes [1]) (2 ^ 60) {} =
      (do
        let a ← merkleizeHalves (padTo 32) .bits64 64 ⟨[1], 0⟩ (2 ^ 59)
        let b ← merkleizeHalves (padTo 32) .bits64 64 ⟨[1], 1⟩ (2 ^ 59)
        sha256Pair (padTo 32) a b : Merkle Bytes32) { wrapped := true } := by
    rw [merkleizePowerOfTwo, merkleizeHalves, if_neg (by norm_num [ByteSpan.ofBytes]),
      if_neg (by norm_num)]
    rw [bind_of_ok hsize]
    norm_num [ByteSpan.ofBytes]
  have hrun : merkleize (padTo 32) .bits64 (.ofBytes [1]) (2 ^ 60) {} =
      merkleizePowerOfTwo (padTo 32) .bits64 (.ofBytes [1]) (2 ^ 60) {} := by
    rw [merkleize, if_neg (by norm_num), bitCeil, hclog, if_pos (by norm_num [WordSize.modulus]),
      pure_bind]
  have hgood : Statics.Good (padTo 32) { wrapped := true } := ⟨Nat.zero_le _, by simp, by simp⟩
  obtain ⟨st₁, h₁, -⟩ := (hleft.node hright).run trivial hgood
  rw [hrun, hsplit, h₁, merkleRoot_padTo] at h
  -- With a hash that pads or cuts off, the root is the first chunk, which is now zero.
  have hroot : _ = chunkAt [1] 0 := congrArg Prod.fst (Except.ok.inj h)
  have hnode : (HashTree.node (zeroTree 59) (packTree 59 (ByteSpan.ofBytes [1]).bytes)).root
      (padTo 32) = zeroChunk := by
    rw [HashTree.root, zeroTree, root_perfect, merkleRoot_padTo]
    rfl
  have hne : zeroChunk = chunkAt [1] 0 := hnode.symm.trans hroot
  exact absurd (congrArg (fun v => v.toList.getD 0 0) hne) (by decide)

end StatelessGuest
