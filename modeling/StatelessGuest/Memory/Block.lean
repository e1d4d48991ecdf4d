import StatelessGuest.Ssz.Bytes

/-!
# Blocks of memory

A local array of a function is a block of bytes, each of which is uninitialized until it
is written.  Writing outside the block is refused, and so is reading a byte outside it or
one that is not initialized.  Code that fills a block from front to back is described by
what it *appends*.

## Main definitions

* `Block` — a block; `Block.uninit`, `Block.ofBytes` — fresh and initialized blocks.
* `Block.store`, `Block.load` — writing and reading a run of bytes.
* `Block.forRange` — a counted loop over a block.
* `Appends f src off` — `f` writes `src` from `off` on, and nothing else.

## Main results

* `Block.load_append` — what has been appended is read back.
* `Appends.bind`, `Appends.forRange` — **code that appends, in sequence and in a loop.**
-/

namespace Memory

open Ssz

/-- A block of memory; `none` is a byte that is not initialized. -/
abbrev Block := List (Option UInt8)

namespace Block

/-- A fresh block of `n` bytes. -/
def uninit (n : ℕ) : Block := List.replicate n none

/-- A block that holds `b`. -/
def ofBytes (b : Bytes) : Block := b.map some

@[simp] theorem length_uninit (n : ℕ) : (uninit n).length = n := List.length_replicate

@[simp] theorem length_ofBytes (b : Bytes) : (ofBytes b).length = b.length := List.length_map ..

@[simp] theorem ofBytes_nil : ofBytes [] = [] := rfl

@[simp] theorem ofBytes_append (a b : Bytes) : ofBytes (a ++ b) = ofBytes a ++ ofBytes b :=
  List.map_append

/-- The bytes of a block, if all of them are initialized. -/
def initialized : Block → Option Bytes
  | [] => some []
  | none :: _ => none
  | some x :: block => (initialized block).map (x :: ·)

@[simp] theorem initialized_ofBytes (b : Bytes) : initialized (ofBytes b) = some b := by
  induction b with
  | nil => rfl
  | cons x b ih =>
    change (initialized (ofBytes b)).map (x :: ·) = _
    rw [ih]
    rfl

/-- `memcpy(block + off, src, src.length)` -/
def store (src : Bytes) (off : ℕ) (block : Block) : Option Block :=
  if off + src.length ≤ block.length then
    some (block.take off ++ ofBytes src ++ block.drop (off + src.length))
  else none

/-- The `n` bytes from `block + off` on. -/
def load (block : Block) (off n : ℕ) : Option Bytes :=
  if off + n ≤ block.length then initialized ((block.drop off).take n) else none

/-- `for (i = 0; i < n; ++i)`, with a body that works on a block. -/
def forRange (n : ℕ) (body : ℕ → Block → Option Block) (block : Block) : Option Block :=
  (List.range n).foldlM (fun block i => body i block) block

@[simp] theorem forRange_zero (body : ℕ → Block → Option Block) (block : Block) :
    forRange 0 body block = some block := rfl

theorem forRange_succ (n : ℕ) (body : ℕ → Block → Option Block) (block : Block) :
    forRange (n + 1) body block = (forRange n body block).bind (body n) := by
  rw [forRange, List.range_succ, List.foldlM_append]
  simp [forRange]

/-- Writing nothing. -/
theorem store_nil {off : ℕ} {block : Block} (h : off ≤ block.length) :
    store [] off block = some block := by
  rw [store, List.length_nil, Nat.add_zero, if_pos h, ofBytes_nil, List.append_nil,
    List.take_append_drop]

/-- Writing in the middle of a block. -/
theorem store_append_append {a c : Block} {src : Bytes} {b : Block} (hb : b.length = src.length) :
    store src a.length (a ++ b ++ c) = some (a ++ ofBytes src ++ c) := by
  have hdrop : (a ++ b ++ c).drop (a.length + src.length) = c := by
    rw [← hb, ← List.length_append, List.drop_left]
  rw [store, if_pos (by simp only [List.length_append]; omega), hdrop, List.append_assoc a b c,
    List.take_left]

/-- Writing a byte in front of bytes that have just been written. -/
theorem store_cons {x : UInt8} {src : Bytes} {off : ℕ} {block block' : Block}
    (h : store src (off + 1) block = some block') :
    store [x] off block' = store (x :: src) off block := by
  by_cases hle : off + 1 + src.length ≤ block.length
  · rw [store, if_pos hle, List.append_assoc] at h
    obtain rfl := Option.some.inj h
    have hlen : (block.take (off + 1)).length = off + 1 := by rw [List.length_take]; omega
    have htake : (block.take (off + 1) ++ (ofBytes src ++ block.drop (off + 1 + src.length))).take
        off = block.take off := by
      rw [List.take_append_of_le_length (by omega), List.take_take, Nat.min_eq_left (by omega)]
    have hdrop : (block.take (off + 1) ++ (ofBytes src ++ block.drop (off + 1 + src.length))).drop
        (off + 1) = ofBytes src ++ block.drop (off + 1 + src.length) := List.drop_left' hlen
    have hend : off + (x :: src).length = off + 1 + src.length := by rw [List.length_cons]; omega
    rw [store, if_pos, htake, List.length_singleton, hdrop, store, if_pos (by omega), hend,
      List.append_assoc, List.append_assoc]
    · rfl
    · simp only [List.length_append, hlen, List.length_singleton]
      omega
  · rw [store, if_neg hle] at h
    cases h

/-- What a block begins with is read back. -/
theorem load_append (b : Bytes) (tail : Block) : load (ofBytes b ++ tail) 0 b.length = some b := by
  rw [load, if_pos (by rw [List.length_append, length_ofBytes]; omega), List.drop_zero]
  have htake : (ofBytes b ++ tail).take b.length = ofBytes b := by
    rw [← length_ofBytes, List.take_left]
  rw [htake, initialized_ofBytes]

/-- A window of an initialized block. -/
theorem load_ofBytes {b : Bytes} {off n : ℕ} (h : off + n ≤ b.length) :
    load (ofBytes b) off n = some (window b off n) := by
  rw [load, if_pos (by rwa [length_ofBytes]), ofBytes, ← List.map_drop, ← List.map_take]
  exact initialized_ofBytes _

end Block

/-! ### Appending -/

/-- `f` writes `src` from `off` on into any block with room for it, and nothing else. -/
def Appends (f : Block → Option Block) (src : Bytes) (off : ℕ) : Prop :=
  ∀ (b : Bytes) (tail : Block), b.length = off → src.length ≤ tail.length →
    f (Block.ofBytes b ++ tail) = some (Block.ofBytes (b ++ src) ++ tail.drop src.length)

theorem appends_store (src : Bytes) (off : ℕ) : Appends (Block.store src off) src off := by
  rintro b tail rfl hlen
  have htail : tail.take src.length ++ tail.drop src.length = tail := List.take_append_drop ..
  have hroom : (tail.take src.length).length = src.length := by rw [List.length_take]; omega
  have h := Block.store_append_append (a := Block.ofBytes b) (c := tail.drop src.length) hroom
  rw [List.append_assoc, htail, Block.length_ofBytes] at h
  rw [h, Block.ofBytes_append]

theorem appends_pure (off : ℕ) : Appends some [] off := by
  rintro b tail - -
  rw [List.append_nil, List.length_nil, List.drop_zero]

/-- **Appending in sequence.** -/
theorem Appends.bind {f g : Block → Option Block} {s t : Bytes} {off : ℕ} (hf : Appends f s off)
    (hg : Appends g t (off + s.length)) : Appends (fun block => f block >>= g) (s ++ t) off := by
  intro b tail hb hlen
  rw [List.length_append] at hlen
  have hnext := hg (b ++ s) (tail.drop s.length) (by rw [List.length_append, hb])
    (by rw [List.length_drop]; omega)
  change (f (Block.ofBytes b ++ tail)).bind g = _
  rw [hf b tail hb (by omega), Option.bind_some, hnext, List.append_assoc, List.drop_drop,
    List.length_append]

/-- The length of pieces of one length, put together. -/
theorem length_flatMap_of_length {α : Type} {l : List α} {f : α → Bytes} {k : ℕ}
    (h : ∀ a ∈ l, (f a).length = k) : (l.flatMap f).length = l.length * k := by
  rw [List.length_flatMap, List.map_congr_left h, List.map_const', List.sum_replicate, smul_eq_mul]

/-- **Appending in a loop**, as many bytes in every round. -/
theorem Appends.forRange {body : ℕ → Block → Option Block} {src : ℕ → Bytes} (stride : ℕ)
    {n off : ℕ} (hlen : ∀ i < n, (src i).length = stride)
    (hbody : ∀ i < n, Appends (body i) (src i) (off + i * stride)) :
    Appends (Block.forRange n body) ((List.range n).flatMap src) off := by
  have htotal : ∀ m ≤ n, ((List.range m).flatMap src).length = m * stride := by
    intro m hm
    rw [length_flatMap_of_length fun i hi => hlen i ((List.mem_range.mp hi).trans_le hm),
      List.length_range]
  induction n with
  | zero => exact appends_pure off
  | succ n ih =>
    have hprefix := ih (fun i hi => hlen i (by omega)) (fun i hi => hbody i (by omega))
      fun m hm => htotal m (by omega)
    have hlast := hbody n (by omega)
    rw [← htotal n (by omega)] at hlast
    have hall := hprefix.bind hlast
    rw [List.range_succ, List.flatMap_append, List.flatMap_singleton]
    intro b tail hb htail
    rw [Block.forRange_succ]
    exact hall b tail hb htail

end Memory
