import StatelessGuest.Riscv.Asm
import StatelessGuest.Ssz.Bytes

/-!
# The input of OpenVM

OpenVM hands the input over as a stream of words, which the guest consumes by
instructions: one word at a time, or up to 1023 words into a buffer.  `read_vec_raw` reads
a length and as many words as hold that many bytes; `read_input` does so once, and keeps
the buffer.

## Main definitions

* `storeBytes`, `readBuffer` — bytes in memory.
* `HintMachine` — the memory, the heap, the streams, and the buffer instructions so far.
* `hintInput`, `hintStoreU32`, `hintBufferU32` — the instructions.
* `hintBufferChunked`, `readVecRaw`, `readInput` — the functions over them.
* `Covers`, `Delivers` — what a read has done.

## Main results

* `storeBytes_storeBytes` — adjacent runs of bytes.
* `hintBufferChunked_covers` — the chunking loop reads its words in order, once each.
* `readVecRaw_delivers` — **`read_vec_raw` delivers the payload**, and `read_input` reads
  it once.
-/

namespace StatelessGuest

open Ssz Riscv

/-! ### Bytes in memory -/

/-- The memory with the bytes `b` stored from `ptr` on. -/
def storeBytes (mem : Memory) (ptr : Addr) (b : Bytes) : Memory := fun a =>
  if (a - ptr).toNat < b.length then (b.getD (a - ptr).toNat 0).toBitVec else mem a

/-- The `n` bytes from `ptr` on. -/
def readBuffer (mem : Memory) (ptr : Addr) (n : ℕ) : Bytes :=
  (List.range n).map fun i => UInt8.ofBitVec (mem (ptr + BitVec.ofNat 32 i))

/-! ### The instructions -/

/-- The state that the input instructions work on. -/
structure HintMachine where
  mem : Memory
  heapPtr : Addr
  /-- The input streams that have not been opened. -/
  streams : List Bytes
  /-- What is left of the current stream. -/
  hint : Bytes
  /-- The `hint_buffer_u32` instructions so far, with their pointers and word counts. -/
  calls : List (Addr × ℕ)

/-- `MAX_HINT_BUFFER_WORDS` -/
def maxHintBufferWords : ℕ := 1023

/-- `hint_input`: open the next stream. -/
def hintInput (m : HintMachine) : Option HintMachine :=
  match m.streams with
  | [] => none
  | stream :: streams => some { m with hint := stream, streams }

/-- `hint_store_u32` -/
def hintStoreU32 (ptr : Addr) (m : HintMachine) : Option HintMachine :=
  if 4 ≤ m.hint.length then
    some { m with mem := storeBytes m.mem ptr (m.hint.take 4), hint := m.hint.drop 4 }
  else none

/-- `hint_buffer_u32`, which takes a limited number of words. -/
def hintBufferU32 (ptr : Addr) (len : ℕ) (m : HintMachine) : Option HintMachine :=
  if len ≤ maxHintBufferWords ∧ 4 * len ≤ m.hint.length then
    some { m with
      mem := storeBytes m.mem ptr (m.hint.take (4 * len))
      hint := m.hint.drop (4 * len)
      calls := m.calls ++ [(ptr, len)] }
  else none

/-! ### The functions -/

/-- `hint_read_u32` -/
def hintReadU32 (scratchWord : Addr) (m : HintMachine) : Option (BitVec 32 × HintMachine) := do
  let m ← hintStoreU32 scratchWord m
  pure (m.mem.loadWord scratchWord, m)

/-- `hint_buffer_chunked` -/
def hintBufferChunked (ptr : Addr) (numWords : ℕ) (m : HintMachine) : Option HintMachine :=
  if numWords > 0 then
    let chunk := if numWords < maxHintBufferWords then numWords else maxHintBufferWords
    (hintBufferU32 ptr chunk m).bind
      (hintBufferChunked (ptr + BitVec.ofNat 32 (chunk * 4)) (numWords - chunk))
  else some m
termination_by numWords
decreasing_by
  unfold maxHintBufferWords
  split <;> omega

/-- `_sbrk` -/
def heapSbrk (incr : BitVec 32) (m : HintMachine) : Addr × HintMachine :=
  (m.heapPtr, { m with heapPtr := m.heapPtr + incr })

/-- `ReadVecResult` -/
structure ReadVecResult where
  ptr : Addr
  len : BitVec 32
  capacity : BitVec 32

/-- `read_vec_raw`, with its scratch word at an address of the stack. -/
def readVecRaw (scratch : Addr) (m : HintMachine) : Option (ReadVecResult × HintMachine) := do
  let m ← hintInput m
  let m := { m with mem := m.mem.storeWord scratch 0 }
  let (len, m) ← hintReadU32 scratch m
  if len = 0 then pure (⟨0, 0, 0⟩, m)
  else
    let capacity := (len + 3) &&& ~~~3
    let (ptr, m) := heapSbrk capacity m
    let m ← hintBufferChunked ptr (capacity / 4).toNat m
    pure (⟨ptr, len, capacity⟩, m)

/-- The machine and the static variables `g_input_ptr`, `g_input_len` and `g_input_read`. -/
structure GuestInput where
  machine : HintMachine
  ptr : Addr := 0
  len : BitVec 32 := 0
  read : Bool := false

/-- `read_input` -/
def readInput (scratch : Addr) (g : GuestInput) : Option ((Addr × BitVec 32) × GuestInput) := do
  let g ← if g.read then some g else do
    let (v, machine) ← readVecRaw scratch g.machine
    pure { machine, ptr := v.ptr, len := v.len, read := true }
  pure ((g.ptr, g.len), g)

/-- A sequence of `read_input` calls. -/
def readInputs (scratch : Addr) : ℕ → GuestInput → Option (List (Addr × BitVec 32) × GuestInput)
  | 0, g => some ([], g)
  | n + 1, g => do
      let (buf, g) ← readInput scratch g
      let (bufs, g) ← readInputs scratch n g
      pure (buf :: bufs, g)

/-! ### Runs of bytes -/

/-- **Adjacent runs of bytes**, as long as they do not go around the memory. -/
theorem storeBytes_storeBytes (mem : Memory) (ptr : Addr) {b c : Bytes}
    (h : b.length + c.length < 2 ^ 32) :
    storeBytes (storeBytes mem ptr b) (ptr + BitVec.ofNat 32 b.length) c =
      storeBytes mem ptr (b ++ c) := by
  funext a
  have hoff : (a - (ptr + BitVec.ofNat 32 b.length)).toNat =
      (2 ^ 32 - b.length + (a - ptr).toNat) % 2 ^ 32 := by
    rw [← BitVec.sub_sub, BitVec.toNat_sub, BitVec.toNat_ofNat,
      Nat.mod_eq_of_lt (show b.length < 2 ^ 32 by omega)]
  have hlt : (a - ptr).toNat < 2 ^ 32 := BitVec.isLt _
  unfold storeBytes
  rw [hoff, List.length_append]
  rcases Nat.lt_or_ge (a - ptr).toNat b.length with hin | hout
  · rw [if_neg (by omega), if_pos hin, if_pos (by omega), List.getD_append _ _ _ _ hin]
  · have hsub : (2 ^ 32 - b.length + (a - ptr).toNat) % 2 ^ 32 = (a - ptr).toNat - b.length := by
      omega
    rw [hsub, if_neg (by omega : ¬(a - ptr).toNat < b.length), List.getD_append_right _ _ _ _ hout]
    exact if_congr (by omega) rfl rfl

/-- A byte that has been stored. -/
theorem storeBytes_add (mem : Memory) (ptr : Addr) {b : Bytes} {i : ℕ} (hi : i < b.length)
    (hlen : b.length < 2 ^ 32) :
    storeBytes mem ptr b (ptr + BitVec.ofNat 32 i) = (b.getD i 0).toBitVec := by
  have hoff : (ptr + BitVec.ofNat 32 i - ptr).toNat = i := by
    rw [BitVec.add_comm, BitVec.add_sub_cancel, BitVec.toNat_ofNat, Nat.mod_eq_of_lt (by omega)]
  rw [storeBytes, hoff, if_pos hi]

/-- What has been stored is read back. -/
theorem readBuffer_storeBytes (mem : Memory) (ptr : Addr) {b : Bytes} {n : ℕ}
    (hlen : b.length < 2 ^ 32) (hn : n ≤ b.length) :
    readBuffer (storeBytes mem ptr b) ptr n = b.take n := by
  apply List.ext_getElem (by rw [readBuffer, List.length_map, List.length_range,
    List.length_take, Nat.min_eq_left hn])
  intro i hi _
  rw [readBuffer, List.length_map, List.length_range] at hi
  simp only [readBuffer, List.getElem_map, List.getElem_range, List.getElem_take]
  rw [storeBytes_add mem ptr (by omega) hlen, List.getD_eq_getElem _ _ (by omega)]

/-- The `i`-th address from `ptr` on. -/
theorem toNat_add_ofNat (ptr : Addr) {i : ℕ} (h : ptr.toNat + i < 2 ^ 32) :
    (ptr + BitVec.ofNat 32 i).toNat = ptr.toNat + i := by
  rw [BitVec.toNat_add, BitVec.toNat_ofNat, Nat.add_mod_mod, Nat.mod_eq_of_lt h]

/-- A byte below or above a string that is stored. -/
theorem storeBytes_apart (mem : Memory) (ptr : Addr) {b : Bytes} {a : Addr}
    (hlen : ptr.toNat + b.length ≤ 2 ^ 32)
    (h : a.toNat < ptr.toNat ∨ ptr.toNat + b.length ≤ a.toNat) : storeBytes mem ptr b a = mem a := by
  apply if_neg
  have hlt := a.isLt
  rw [BitVec.toNat_sub]
  omega

theorem readBuffer_congr {mem mem' : Memory} {ptr : Addr} {n : ℕ}
    (h : ∀ i < n, mem (ptr + BitVec.ofNat 32 i) = mem' (ptr + BitVec.ofNat 32 i)) :
    readBuffer mem ptr n = readBuffer mem' ptr n :=
  List.map_congr_left fun i hi => congrArg UInt8.ofBitVec (h i (List.mem_range.mp hi))

/-- A string that is stored elsewhere does not disturb a buffer. -/
theorem readBuffer_apart (mem : Memory) {ptr q : Addr} {n : ℕ} {b : Bytes}
    (hlen : ptr.toNat + b.length ≤ 2 ^ 32) (hn : q.toNat + n ≤ 2 ^ 32)
    (h : q.toNat + n ≤ ptr.toNat ∨ ptr.toNat + b.length ≤ q.toNat) :
    readBuffer (storeBytes mem ptr b) q n = readBuffer mem q n := by
  refine readBuffer_congr fun i hi => storeBytes_apart mem ptr hlen ?_
  rw [toNat_add_ofNat q (by omega)]
  omega

/-- Two adjacent buffers. -/
theorem readBuffer_add (mem : Memory) (ptr : Addr) (n k : ℕ) : readBuffer mem ptr (n + k) =
    readBuffer mem ptr n ++ readBuffer mem (ptr + BitVec.ofNat 32 n) k := by
  rw [readBuffer, List.range_add, List.map_append, List.map_map]
  congr 1
  apply List.map_congr_left
  intro i _
  rw [Function.comp_apply, BitVec.ofNat_add, BitVec.add_assoc]

theorem take_readBuffer (mem : Memory) (ptr : Addr) {k n : ℕ} (h : k ≤ n) :
    (readBuffer mem ptr n).take k = readBuffer mem ptr k := by
  obtain ⟨rest, rfl⟩ := Nat.exists_eq_add_of_le h
  have hlen : (readBuffer mem ptr k).length = k := by
    rw [readBuffer, List.length_map, List.length_range]
  rw [readBuffer_add, List.take_left' hlen]

/-- **Appending to a buffer** leaves what is in it. -/
theorem readBuffer_append (mem : Memory) (ptr : Addr) {b c : Bytes}
    (h : readBuffer mem ptr b.length = b) (hlen : ptr.toNat + b.length + c.length < 2 ^ 32) :
    readBuffer (storeBytes mem (ptr + BitVec.ofNat 32 b.length) c) ptr (b ++ c).length =
      b ++ c := by
  have hend := toNat_add_ofNat ptr (i := b.length) (by omega)
  have hold : readBuffer (storeBytes mem (ptr + BitVec.ofNat 32 b.length) c) ptr b.length = b := by
    rw [readBuffer_apart _ (by omega) (by omega) (.inl (by omega)), h]
  have hnew : readBuffer (storeBytes mem (ptr + BitVec.ofNat 32 b.length) c)
      (ptr + BitVec.ofNat 32 b.length) c.length = c := by
    rw [readBuffer_storeBytes _ _ (by omega) le_rfl, List.take_length]
  rw [List.length_append, readBuffer_add, hold, hnew]

/-- The value of two words put together. -/
theorem toNat_append_eq {v w : ℕ} (x : BitVec v) (y : BitVec w) :
    (x ++ y).toNat = x.toNat * 2 ^ w + y.toNat := by
  rw [BitVec.toNat_append, ← Nat.shiftLeft_add_eq_or_of_lt y.isLt, Nat.shiftLeft_eq]

/-- The bytes of a word, as a number. -/
theorem toNat_word (x₃ x₂ x₁ x₀ : BitVec 8) : (x₃ ++ x₂ ++ x₁ ++ x₀).toNat =
    x₀.toNat + 256 * (x₁.toNat + 256 * (x₂.toNat + 256 * x₃.toNat)) := by
  rw [toNat_append_eq, toNat_append_eq, toNat_append_eq]
  ring

theorem leNat_of_length_eq_four : ∀ {b : Bytes}, b.length = 4 → leNat b = (b.getD 0 0).toNat +
    256 * ((b.getD 1 0).toNat + 256 * ((b.getD 2 0).toNat + 256 * (b.getD 3 0).toNat))
  | [_, _, _, _], _ => rfl

/-- The word that four bytes make. -/
theorem loadWord_storeBytes (mem : Memory) (ptr : Addr) {b : Bytes} (h : b.length = 4) :
    (storeBytes mem ptr b).loadWord ptr = BitVec.ofNat 32 (leNat b) := by
  have hbyte : ∀ i < 4, storeBytes mem ptr b (ptr + BitVec.ofNat 32 i) =
      (b.getD i 0).toBitVec := fun i hi => storeBytes_add mem ptr (by omega) (by omega)
  have h₀ := hbyte 0 (by decide)
  rw [BitVec.add_zero] at h₀
  have hword : (storeBytes mem ptr b).loadWord ptr = (b.getD 3 0).toBitVec ++
      (b.getD 2 0).toBitVec ++ (b.getD 1 0).toBitVec ++ (b.getD 0 0).toBitVec := by
    rw [← hbyte 3 (by decide), ← hbyte 2 (by decide), ← hbyte 1 (by decide), ← h₀]
    rfl
  have hlt : leNat b < 2 ^ 32 := by
    have := leNat_lt b
    rwa [h] at this
  apply BitVec.eq_of_toNat_eq
  rw [hword, toNat_word, BitVec.toNat_ofNat, Nat.mod_eq_of_lt hlt,
    leNat_of_length_eq_four h]
  rfl

/-- Clearing the two low bits. -/
theorem and_not_three (x : BitVec 32) : x &&& ~~~3#32 = (x >>> 2) <<< 2 := by
  ext i hi
  have hthree : (3#32)[i] = decide (i < 2) := by
    rw [BitVec.getElem_eq_testBit_toNat]
    exact Nat.testBit_two_pow_sub_one 2 i
  rw [BitVec.getElem_and, BitVec.getElem_not, hthree, BitVec.getElem_shiftLeft]
  rcases Nat.lt_or_ge i 2 with hlt | hge
  · simp [hlt]
  · simp [hge, BitVec.getLsbD_eq_getElem hi, Bool.and_comm]

/-- Rounding up to whole words. -/
theorem toNat_capacity {len : BitVec 32} (h : len.toNat + 3 < 2 ^ 32) :
    ((len + 3) &&& ~~~3).toNat = 4 * ((len.toNat + 3) / 4) := by
  have hsum : (len + 3).toNat = len.toNat + 3 := by
    rw [BitVec.toNat_add]
    exact Nat.mod_eq_of_lt h
  have hround := congrArg BitVec.toNat (and_not_three (len + 3))
  rw [BitVec.toNat_shiftLeft, BitVec.toNat_ushiftRight, hsum, Nat.shiftRight_eq_div_pow,
    Nat.shiftLeft_eq, Nat.mod_eq_of_lt (by omega), Nat.mul_comm] at hround
  exact hround

/-! ### Reading in chunks -/

/-- The calls take the words from `ptr` on in order, each once, and none takes too many. -/
structure Covers (ptr : Addr) (calls : List (Addr × ℕ)) (words : ℕ) : Prop where
  limit : ∀ call ∈ calls, call.2 ≤ maxHintBufferWords
  words : calls.flatMap (fun call =>
      (List.range call.2).map fun i => call.1 + BitVec.ofNat 32 (4 * i)) =
    (List.range words).map fun i => ptr + BitVec.ofNat 32 (4 * i)

/-- One more call in front. -/
theorem Covers.cons {ptr : Addr} {chunk n : ℕ} {calls : List (Addr × ℕ)}
    (hchunk : chunk ≤ maxHintBufferWords)
    (h : Covers (ptr + BitVec.ofNat 32 (chunk * 4)) calls n) :
    Covers ptr ((ptr, chunk) :: calls) (chunk + n) := by
  constructor
  · intro call hcall
    rcases List.mem_cons.mp hcall with rfl | hcall
    · exact hchunk
    · exact h.limit call hcall
  · rw [List.flatMap_cons, h.words, List.range_add, List.map_append, List.map_map]
    congr 1
    apply List.map_congr_left
    intro i _
    have hsplit : 4 * (chunk + i) = chunk * 4 + 4 * i := by ring
    rw [Function.comp_apply, hsplit, BitVec.ofNat_add, BitVec.add_assoc]

/-- **The chunking loop reads its words in order**, once each. -/
theorem hintBufferChunked_covers (numWords : ℕ) (ptr : Addr) (m : HintMachine)
    {payload rest : Bytes} (hhint : m.hint = payload ++ rest)
    (hlen : payload.length = 4 * numWords) (hsize : payload.length < 2 ^ 32) :
    ∃ calls, hintBufferChunked ptr numWords m =
      some { m with mem := storeBytes m.mem ptr payload, hint := rest, calls := m.calls ++ calls } ∧
      Covers ptr calls numWords := by
  induction numWords using Nat.strong_induction_on generalizing ptr m payload with
  | _ numWords ih =>
    unfold hintBufferChunked
    rcases Nat.eq_zero_or_pos numWords with rfl | hpos
    · obtain rfl : payload = [] := List.eq_nil_of_length_eq_zero hlen
      rw [List.nil_append] at hhint
      refine ⟨[], ?_, fun _ hcall => (by cases hcall), rfl⟩
      have hmem : storeBytes m.mem ptr [] = m.mem := funext fun a => if_neg (Nat.not_lt_zero _)
      rw [if_neg (by decide), hmem, List.append_nil, ← hhint]
    · -- One call takes the first chunk, and the loop goes on with the rest of the payload.
      set chunk := if numWords < maxHintBufferWords then numWords else maxHintBufferWords
        with hchunk
      have hbounds : 0 < chunk ∧ chunk ≤ numWords ∧ chunk ≤ maxHintBufferWords := by
        unfold maxHintBufferWords at hchunk ⊢
        split at hchunk <;> omega
      obtain ⟨hchunkPos, hle, hmax⟩ := hbounds
      have htake : (payload.take (4 * chunk)).length = 4 * chunk := by
        rw [List.length_take]
        omega
      have hfirst : m.hint.take (4 * chunk) = payload.take (4 * chunk) := by
        rw [hhint, List.take_append_of_le_length (by omega)]
      have hrest : m.hint.drop (4 * chunk) = payload.drop (4 * chunk) ++ rest := by
        rw [hhint, List.drop_append_of_le_length (by omega)]
      have hroom : 4 * chunk ≤ m.hint.length := by
        rw [hhint, List.length_append]
        omega
      obtain ⟨calls, hcalls, hcovers⟩ := ih (numWords - chunk) (by omega)
        (ptr + BitVec.ofNat 32 (chunk * 4))
        { m with
          mem := storeBytes m.mem ptr (payload.take (4 * chunk))
          hint := payload.drop (4 * chunk) ++ rest
          calls := m.calls ++ [(ptr, chunk)] }
        rfl (by rw [List.length_drop]; omega) (by rw [List.length_drop]; omega)
      -- The two stores lie side by side, and write the payload together.
      have hmem : storeBytes (storeBytes m.mem ptr (payload.take (4 * chunk)))
          (ptr + BitVec.ofNat 32 (chunk * 4)) (payload.drop (4 * chunk)) =
            storeBytes m.mem ptr payload := by
        have h := storeBytes_storeBytes m.mem ptr (b := payload.take (4 * chunk))
          (c := payload.drop (4 * chunk)) (by rw [htake, List.length_drop]; omega)
        rw [htake, List.take_append_drop] at h
        rw [Nat.mul_comm chunk 4, h]
      refine ⟨(ptr, chunk) :: calls, ?_, ?_⟩
      · have hstep : hintBufferU32 ptr chunk m = some { m with
            mem := storeBytes m.mem ptr (payload.take (4 * chunk))
            hint := payload.drop (4 * chunk) ++ rest
            calls := m.calls ++ [(ptr, chunk)] } := by
          rw [hintBufferU32, if_pos ⟨hmax, hroom⟩, hfirst, hrest]
        rw [if_pos hpos]
        change (hintBufferU32 ptr chunk m).bind _ = _
        rw [hstep, Option.bind_some, hcalls]
        simp only [hmem, List.append_assoc, List.singleton_append]
      · have h := hcovers.cons hmax
        rwa [Nat.add_sub_cancel' hle] at h

/-! ### Reading the input -/

/-- The read has delivered `len` bytes of the payload of a stream, into the next free
memory, and has left the stream where the payload ends. -/
structure Delivers (scratch : Addr) (m : HintMachine) (len : ℕ) (payload rest : Bytes)
    (streams : List Bytes) (v : ReadVecResult) (m' : HintMachine) : Prop where
  length : v.len.toNat = len
  bytes : readBuffer m'.mem v.ptr len = payload.take len
  calls : ∃ calls, m'.calls = m.calls ++ calls ∧ Covers v.ptr calls ((len + 3) / 4)
  hint : m'.hint = rest
  streams : m'.streams = streams
  ptr : 0 < len → v.ptr = m.heapPtr
  heapPtr : m'.heapPtr = m.heapPtr + BitVec.ofNat 32 (4 * ((len + 3) / 4))
  frame : ∀ a, 4 ≤ (a - scratch).toNat → 4 * ((len + 3) / 4) ≤ (a - v.ptr).toNat →
    m'.mem a = m.mem a

/-- Storing a word leaves the other bytes as they are. -/
theorem storeWord_of_ge (mem : Memory) (ptr : Addr) (v : BitVec 32) {a : Addr}
    (h : 4 ≤ (a - ptr).toNat) : mem.storeWord ptr v a = mem a := by
  have hne : ∀ i < 4, a ≠ ptr + BitVec.ofNat 32 i := by
    rintro i hi rfl
    rw [BitVec.add_comm, BitVec.add_sub_cancel, BitVec.toNat_ofNat] at h
    omega
  have h₀ := hne 0 (by decide)
  rw [BitVec.add_zero] at h₀
  have h₁ : a ≠ ptr + 1 := hne 1 (by decide)
  have h₂ : a ≠ ptr + 2 := hne 2 (by decide)
  have h₃ : a ≠ ptr + 3 := hne 3 (by decide)
  rw [Memory.storeWord, Memory.set, Memory.set, Memory.set, Memory.set,
    Function.update_of_ne h₃, Function.update_of_ne h₂, Function.update_of_ne h₁,
    Function.update_of_ne h₀]

theorem storeBytes_of_ge (mem : Memory) (ptr : Addr) (b : Bytes) {a : Addr}
    (h : b.length ≤ (a - ptr).toNat) : storeBytes mem ptr b a = mem a :=
  if_neg (by omega)

/-- The scratch word holds what the stream has next. -/
theorem hintReadU32_leBytes (scratch : Addr) (m : HintMachine) {len : ℕ} {rest : Bytes}
    (hlen : len < 2 ^ 32) (hhint : m.hint = leBytes 4 len ++ rest) :
    hintReadU32 scratch m = some (BitVec.ofNat 32 len,
      { m with mem := storeBytes m.mem scratch (leBytes 4 len), hint := rest }) := by
  have hfour : (leBytes 4 len).length = 4 := length_leBytes 4 len
  have htake : m.hint.take 4 = leBytes 4 len := by
    rw [hhint, List.take_left' hfour]
  have hdrop : m.hint.drop 4 = rest := by
    rw [hhint, List.drop_left' hfour]
  have hroom : 4 ≤ m.hint.length := by
    rw [hhint, List.length_append, hfour]
    omega
  have hload := loadWord_storeBytes m.mem scratch hfour
  rw [leNat_leBytes hlen] at hload
  rw [hintReadU32, hintStoreU32, if_pos hroom, htake, hdrop]
  simp only [Option.bind_eq_bind, Option.bind_some, hload]
  rfl

/-- A read of the next stream, up to the length. -/
theorem readVecRaw_eq (scratch : Addr) (m : HintMachine) {len : ℕ} {rest : Bytes}
    {streams : List Bytes} (hlen : len < 2 ^ 32)
    (hstream : m.streams = (leBytes 4 len ++ rest) :: streams) :
    ∃ m₁ : HintMachine, m₁.hint = rest ∧ m₁.streams = streams ∧ m₁.calls = m.calls ∧
      m₁.heapPtr = m.heapPtr ∧ (∀ a, 4 ≤ (a - scratch).toNat → m₁.mem a = m.mem a) ∧
      readVecRaw scratch m =
        if BitVec.ofNat 32 len = 0 then some (⟨0, 0, 0⟩, m₁) else
          let capacity := (BitVec.ofNat 32 len + 3) &&& ~~~3
          (hintBufferChunked m₁.heapPtr (capacity / 4).toNat
            { m₁ with heapPtr := m₁.heapPtr + capacity }).bind fun m' =>
              some (⟨m₁.heapPtr, BitVec.ofNat 32 len, capacity⟩, m') := by
  refine ⟨{ m with
    mem := storeBytes (m.mem.storeWord scratch 0) scratch (leBytes 4 len)
    hint := rest, streams }, rfl, rfl, rfl, rfl, ?_, ?_⟩
  · intro a ha
    exact (storeBytes_of_ge _ _ _ (by rwa [length_leBytes])).trans (storeWord_of_ge _ _ _ ha)
  · have hopen : hintInput m = some { m with hint := leBytes 4 len ++ rest, streams } := by
      rw [hintInput, hstream]
    have hread := hintReadU32_leBytes scratch
      { m with mem := m.mem.storeWord scratch 0, hint := leBytes 4 len ++ rest, streams }
      hlen rfl
    rw [readVecRaw, hopen]
    simp only [Option.bind_eq_bind, Option.bind_some, hread]
    rfl

/-- The length and the payload are read off the next stream. -/
theorem readVecRaw_eq_some (scratch : Addr) (m : HintMachine) {len : ℕ} {payload rest : Bytes}
    {streams : List Bytes} (hlen : len + 3 < 2 ^ 32)
    (hpayload : payload.length = 4 * ((len + 3) / 4))
    (hstream : m.streams = (leBytes 4 len ++ (payload ++ rest)) :: streams) :
    ∃ v m', readVecRaw scratch m = some (v, m') ∧
      Delivers scratch m len payload rest streams v m' := by
  obtain ⟨m₁, hhint, hstreams, hcalls, hheap, hframe, heq⟩ :=
    readVecRaw_eq scratch m (by omega) hstream
  have hlenNat : (BitVec.ofNat 32 len).toNat = len := by
    rw [BitVec.toNat_ofNat, Nat.mod_eq_of_lt (by omega)]
  rw [heq]
  rcases Nat.eq_zero_or_pos len with rfl | hpos
  · obtain rfl : payload = [] := List.eq_nil_of_length_eq_zero hpayload
    -- An empty input is neither allocated nor read.
    refine ⟨⟨0, 0, 0⟩, m₁, if_pos rfl, ?_⟩
    exact
      { length := rfl
        bytes := rfl
        calls := ⟨[], by rw [hcalls, List.append_nil], fun _ hcall => (by cases hcall), rfl⟩
        hint := hhint
        streams := hstreams
        ptr := fun h => absurd h (Nat.lt_irrefl 0)
        heapPtr := by rw [hheap]; exact (BitVec.add_zero _).symm
        frame := fun a ha _ => hframe a ha }
  · have hne : ¬BitVec.ofNat 32 len = 0 := fun h => by
      rw [h] at hlenNat
      exact absurd hlenNat (by simpa using hpos.ne)
    -- The capacity is the length rounded up to whole words, which does not wrap.
    have hcapacity : ((BitVec.ofNat 32 len + 3) &&& ~~~3).toNat = 4 * ((len + 3) / 4) := by
      rw [toNat_capacity (by rwa [hlenNat]), hlenNat]
    have hwords : (((BitVec.ofNat 32 len + 3) &&& ~~~3) / 4).toNat = (len + 3) / 4 := by
      rw [BitVec.toNat_udiv, hcapacity]
      exact Nat.mul_div_cancel_left _ (by decide)
    have hcapacity' : (BitVec.ofNat 32 len + 3) &&& ~~~3 =
        BitVec.ofNat 32 (4 * ((len + 3) / 4)) := by
      rw [← hcapacity, BitVec.ofNat_toNat, BitVec.setWidth_eq]
    obtain ⟨calls, hchunked, hcovers⟩ := hintBufferChunked_covers ((len + 3) / 4) m₁.heapPtr
      { m₁ with heapPtr := m₁.heapPtr + ((BitVec.ofNat 32 len + 3) &&& ~~~3) }
      hhint hpayload (by omega)
    rw [if_neg hne]
    dsimp only
    rw [hwords, hchunked, Option.bind_some]
    refine ⟨_, _, rfl, ?_⟩
    exact
      { length := hlenNat
        bytes := readBuffer_storeBytes _ _ (by omega) (by omega)
        calls := ⟨calls, by rw [← hcalls], hcovers⟩
        hint := rfl
        streams := hstreams
        ptr := fun _ => hheap
        heapPtr := by rw [← hheap, ← hcapacity']
        frame := fun a ha hout => by
          rw [← hpayload] at hout
          exact (storeBytes_of_ge _ _ _ hout).trans (hframe a ha) }

/-- Once the input has been read, `read_input` gives the same buffer again. -/
theorem readInputs_of_read (scratch : Addr) {g : GuestInput} (h : g.read = true) (n : ℕ) :
    readInputs scratch n g = some (List.replicate n (g.ptr, g.len), g) := by
  induction n with
  | zero => rfl
  | succ n ih =>
    have hcall : readInput scratch g = some ((g.ptr, g.len), g) := by
      rw [readInput, if_pos h]
      rfl
    rw [readInputs, hcall]
    simp only [Option.bind_eq_bind, Option.bind_some, ih, List.replicate_succ]
    rfl

/-- **OpenVM delivers the payload of the next stream**: the read ends, its buffer holds the
payload, and every later `read_input` gives that buffer and takes nothing from the stream. -/
theorem readVecRaw_delivers (scratch : Addr) (m : HintMachine) {len : ℕ} {payload rest : Bytes}
    {streams : List Bytes} (hlen : len + 3 < 2 ^ 32)
    (hpayload : payload.length = 4 * ((len + 3) / 4))
    (hstream : m.streams = (leBytes 4 len ++ (payload ++ rest)) :: streams) :
    ∃ v m', readVecRaw scratch m = some (v, m') ∧
      Delivers scratch m len payload rest streams v m' ∧
      ∀ n, readInputs scratch (n + 1) { machine := m } =
        some (List.replicate (n + 1) (v.ptr, v.len),
          { machine := m', ptr := v.ptr, len := v.len, read := true }) := by
  obtain ⟨v, m', hread, hdelivers⟩ := readVecRaw_eq_some scratch m hlen hpayload hstream
  refine ⟨v, m', hread, hdelivers, ?_⟩
  intro n
  have hfirst : readInput scratch { machine := m } = some ((v.ptr, v.len),
      { machine := m', ptr := v.ptr, len := v.len, read := true }) := by
    rw [readInput, if_neg Bool.false_ne_true]
    simp only [Option.bind_eq_bind, Option.bind_some, hread]
    rfl
  have hlater := readInputs_of_read scratch
    (g := { machine := m', ptr := v.ptr, len := v.len, read := true }) rfl n
  rw [readInputs, hfirst]
  simp only [Option.bind_eq_bind, Option.bind_some, hlater, List.replicate_succ]
  rfl

/-- Five bytes, in two words. -/
theorem readVecRaw_delivers_five : ∃ v m', readVecRaw 0x1000 ⟨fun _ => 0, 0x2000,
      [[5, 0, 0, 0, 1, 2, 3, 4, 5, 0, 0, 0]], [], []⟩ = some (v, m') ∧
    readBuffer m'.mem v.ptr 5 = [1, 2, 3, 4, 5] ∧ m'.hint = [] := by
  obtain ⟨v, m', hread, hdelivers, -⟩ := @readVecRaw_delivers 0x1000
    ⟨fun _ => 0, 0x2000, [[5, 0, 0, 0, 1, 2, 3, 4, 5, 0, 0, 0]], [], []⟩ 5
    [1, 2, 3, 4, 5, 0, 0, 0] [] [] (by decide) rfl (by decide)
  exact ⟨v, m', hread, hdelivers.bytes, hdelivers.hint⟩

end StatelessGuest
