import StatelessGuest.Ssz.Codec
import StatelessGuest.Ssz.Reader

/-!
# The public output of the three targets

`write_output` appends to a buffer on every target.  SP1 grows its buffer and
commits to a hash of it at the end; ZisK and OpenVM have a buffer of fixed size,
which they pack into 32-bit output slots.

## Main definitions

* `copyIn` — copying bytes into a block of memory, inside its bounds.
* `PvBuf`, `pvBufAppend`, `syscallHalt` — the output of SP1.
* `OutBuf`, `writeOutput` — the buffer of ZisK and OpenVM.
* `writeOutputBytes`, `revealWords` — how these two pack it.
* `SlotsHold` — output slots that hold a byte string.

## Main results

* `pvBufAppend_holds` — one append, whether or not the buffer grows.
* `slotsHold_packed` — packed slots hold the byte string.
* `publicOutputs_agree` — **the three targets publish the same bytes.**
-/

namespace StatelessGuest

open Ssz

/-! ### Memory -/

/-- `for (i = 0; i < n; ++i) buf[off + i] = data[i]`, inside the block `buf`. -/
def copyIn : Bytes → ℕ → Bytes → Option Bytes
  | [], _, buf => some buf
  | x :: data, off, buf =>
      if off < buf.length then copyIn data (off + 1) (buf.set off x) else none

/-- Copying replaces the bytes from `off` on, and no others. -/
theorem copyIn_eq {data : Bytes} {off : ℕ} {buf : Bytes} (h : off + data.length ≤ buf.length) :
    copyIn data off buf = some (buf.take off ++ data ++ buf.drop (off + data.length)) := by
  induction data generalizing off buf with
  | nil => simp [copyIn]
  | cons x data ih =>
    rw [List.length_cons] at h ⊢
    have hoff : off < buf.length := by omega
    rw [copyIn, if_pos hoff, ih (by rw [List.length_set]; omega)]
    have htake : (buf.set off x).take (off + 1) = buf.take off ++ [x] := by
      rw [List.take_succ_eq_append_getElem (by rwa [List.length_set]), List.getElem_set_self,
        List.take_set_of_le le_rfl]
    have hdrop : (buf.set off x).drop (off + 1 + data.length) =
        buf.drop (off + (data.length + 1)) := by
      rw [List.drop_set, if_pos (by omega)]
      congr 1
      omega
    rw [htake, hdrop]
    simp

/-- Copying behind the first `off` bytes extends what the buffer holds. -/
theorem copyIn_holds (data : Bytes) (off : ℕ) (buf : Bytes) (h : off + data.length ≤ buf.length) :
    ∃ buf', copyIn data off buf = some buf' ∧ buf'.length = buf.length ∧
      buf'.take (off + data.length) = buf.take off ++ data := by
  refine ⟨_, copyIn_eq h, ?_, ?_⟩
  · simp only [List.length_append, List.length_take, List.length_drop]
    omega
  · rw [List.take_append_of_le_length, List.take_of_length_le]
    all_goals simp only [List.length_append, List.length_take]; omega

/-! ### SP1 -/

/-- The public values buffer, with the heap pointer of the bump allocator. -/
structure PvBuf where
  heapPtr : ℕ
  buf : Bytes
  len : ℕ
  cap : ℕ

/-- What the guest asks the prover to do. -/
inductive Ecall
  /-- `SC_WRITE` -/
  | write (fd : ℕ) (bytes : Bytes)
  /-- `SC_COMMIT` -/
  | commit (index : ℕ) (word : BitVec 32)
  /-- `SC_COMMIT_DEFERRED_PROOFS` -/
  | commitDeferredProofs (index : ℕ) (word : BitVec 32)
  /-- `SC_HALT` -/
  | halt (exitCode : UInt8)

section Sp1

variable (heap : ℕ → UInt8)

/-- The block `_sbrk` returns: the next `incr` bytes of the heap, as long as `incr`
is a positive `ptrdiff_t`. -/
def sbrk (heapPtr incr : ℕ) : Option Bytes :=
  if incr < 2 ^ 63 then some ((List.range incr).map fun i => heap (heapPtr + i)) else none

def pvBufInitialCap : ℕ := 4096

def pvBufInit (heapPtr : ℕ) : Option PvBuf := do
  let buf ← sbrk heap heapPtr pvBufInitialCap
  pure { heapPtr := heapPtr + pvBufInitialCap, buf, len := 0, cap := pvBufInitialCap }

/-- `while (new_cap < need) new_cap *= 2`.  After 64 doublings the capacity is 0, and
the loop does not end. -/
def growCap (need : ℕ) : ℕ → ℕ → Option ℕ
  | 0, _ => none
  | fuel + 1, cap =>
      if cap < need then growCap need fuel (WordSize.bits64.mul cap 2) else some cap

/-- The buffer with room for `need` bytes. -/
def PvBuf.grow (pv : PvBuf) (need : ℕ) : Option PvBuf := do
  let newCap ← growCap need 65 pv.cap
  let newBuf ← sbrk heap pv.heapPtr newCap
  let newBuf ← copyIn (pv.buf.take pv.len) 0 newBuf
  pure { heapPtr := pv.heapPtr + newCap, buf := newBuf, len := pv.len, cap := newCap }

/-- The buffer, grown where `need` bytes do not fit. -/
def PvBuf.reserve (pv : PvBuf) (need : ℕ) : Option PvBuf :=
  if need > pv.cap then pv.grow heap need else some pv

def pvBufAppend (data : Bytes) (pv : PvBuf) : Option PvBuf := do
  let pv ← pv.reserve heap (WordSize.bits64.add pv.len data.length)
  let buf ← copyIn data pv.len pv.buf
  pure { pv with buf, len := WordSize.bits64.add pv.len data.length }

def sp1FdPublicValues : ℕ := 13

def syscallWrite (fd : ℕ) (writeBuf : Bytes) (pv : PvBuf) : Option (List Ecall × PvBuf) := do
  let pv ← if fd = sp1FdPublicValues then pvBufAppend heap writeBuf pv else some pv
  pure ([.write fd writeBuf], pv)

/-- A sequence of `write_output` calls. -/
def sp1WriteOutputs : List Bytes → PvBuf → Option (List Ecall × PvBuf)
  | [], pv => some ([], pv)
  | output :: outputs, pv => do
      let (calls, pv) ← syscallWrite heap sp1FdPublicValues output pv
      let (rest, pv) ← sp1WriteOutputs outputs pv
      pure (calls ++ rest, pv)

/-- Word `i` of the eight words of a digest. -/
def digestWord (digest : Bytes32) (i : ℕ) : BitVec 32 := BitVec.ofNat 32 (u32At digest.toList (4 * i))

/-- `syscall_halt`, over the hash function of the library. -/
def syscallHalt (sha256 : Bytes → Bytes32) (exitCode : UInt8) (pv : PvBuf) : List Ecall :=
  (List.range 8).map (fun i => .commit i (digestWord (sha256 (pv.buf.take pv.len)) i)) ++
    (List.range 8).map (fun i => .commitDeferredProofs i 0) ++ [.halt exitCode]

/-- The buffer is as large as its capacity and holds `b`. -/
structure PvBuf.Holds (pv : PvBuf) (b : Bytes) : Prop where
  size : pv.buf.length = pv.cap
  cap_pos : 0 < pv.cap
  cap_lt : pv.cap < 2 ^ 63
  len : pv.len = b.length
  bytes : pv.buf.take b.length = b

theorem PvBuf.Holds.length_le {pv : PvBuf} {b : Bytes} (h : pv.Holds b) : b.length ≤ pv.cap := by
  have hlen := congrArg List.length h.bytes
  rw [List.length_take, h.size] at hlen
  omega

theorem length_sbrk (heapPtr : ℕ) {incr : ℕ} (h : incr < 2 ^ 63) :
    ∃ b, sbrk heap heapPtr incr = some b ∧ b.length = incr :=
  ⟨_, if_pos h, by simp⟩

theorem pvBufInit_holds (heapPtr : ℕ) : ∃ pv, pvBufInit heap heapPtr = some pv ∧ pv.Holds [] := by
  obtain ⟨b, hb, hlen⟩ := length_sbrk heap heapPtr (show pvBufInitialCap < 2 ^ 63 by decide)
  refine ⟨_, by rw [pvBufInit, hb]; rfl, hlen, ?_, ?_, rfl, rfl⟩
  all_goals exact of_decide_eq_true rfl

/-- The doubling loop ends at a capacity that is large enough, and less than twice too
large. -/
theorem growCap_spec {need : ℕ} (hneed : need ≤ 2 ^ 62) : ∀ {fuel cap : ℕ}, 0 < cap →
    cap < 2 ^ 63 → need ≤ cap * 2 ^ fuel →
    ∃ c, growCap need (fuel + 1) cap = some c ∧ need ≤ c ∧ 0 < c ∧ c < 2 ^ 63
  | 0, cap, hpos, hcap, h => ⟨cap, if_neg (by omega), by omega, hpos, hcap⟩
  | fuel + 1, cap, hpos, hcap, h => by
      rcases Nat.lt_or_ge cap need with hlt | hge
      · have hmul : WordSize.bits64.mul cap 2 = cap * 2 :=
          Nat.mod_eq_of_lt (show cap * 2 < 2 ^ 64 by omega)
        rw [growCap, if_pos hlt, hmul]
        apply growCap_spec hneed (by omega) (by omega)
        rwa [Nat.mul_assoc, ← Nat.pow_succ']
      · exact ⟨cap, if_neg (by omega), hge, hpos, hcap⟩

/-- A larger buffer holds the same bytes. -/
theorem grow_holds {pv : PvBuf} {b : Bytes} {need : ℕ} (h : pv.Holds b) (hb : b.length ≤ need)
    (hneed : need ≤ 2 ^ 62) :
    ∃ pv', pv.grow heap need = some pv' ∧ pv'.Holds b ∧ need ≤ pv'.cap := by
  have hfuel : need ≤ pv.cap * 2 ^ 64 :=
    calc need ≤ 2 ^ 62 := hneed
      _ ≤ 1 * 2 ^ 64 := by norm_num
      _ ≤ pv.cap * 2 ^ 64 := Nat.mul_le_mul_right _ h.cap_pos
  obtain ⟨c, hc, hle, hpos, hlt⟩ := growCap_spec hneed h.cap_pos h.cap_lt hfuel
  obtain ⟨fresh, hfresh, hsize⟩ := length_sbrk heap pv.heapPtr hlt
  obtain ⟨buf, hbuf, hlen, htake⟩ := copyIn_holds b 0 fresh (by omega)
  refine ⟨⟨pv.heapPtr + c, buf, pv.len, c⟩, ?_, ⟨hlen.trans hsize, hpos, hlt, h.len, ?_⟩, hle⟩
  · rw [PvBuf.grow, hc, Option.bind_eq_bind, Option.bind_some, hfresh, Option.bind_eq_bind,
      Option.bind_some, h.len, h.bytes, hbuf]
    rfl
  · rwa [Nat.zero_add, List.take_zero, List.nil_append] at htake

theorem reserve_holds {pv : PvBuf} {b : Bytes} {need : ℕ} (h : pv.Holds b) (hb : b.length ≤ need)
    (hneed : need ≤ 2 ^ 62) :
    ∃ pv', pv.reserve heap need = some pv' ∧ pv'.Holds b ∧ need ≤ pv'.cap := by
  rcases Nat.lt_or_ge pv.cap need with hlt | hge
  · rw [PvBuf.reserve, if_pos hlt]
    exact grow_holds heap h hb hneed
  · rw [PvBuf.reserve, if_neg (by omega)]
    exact ⟨pv, rfl, h, hge⟩

/-- **One append**, whether or not the buffer grows. -/
theorem pvBufAppend_holds (data : Bytes) {pv : PvBuf} {b : Bytes} (h : pv.Holds b)
    (hlen : b.length + data.length ≤ 2 ^ 62) :
    ∃ pv', pvBufAppend heap data pv = some pv' ∧ pv'.Holds (b ++ data) := by
  have hadd : WordSize.bits64.add pv.len data.length = b.length + data.length := by
    rw [h.len]
    exact Nat.mod_eq_of_lt (show _ < 2 ^ 64 by omega)
  obtain ⟨pv₁, hpv₁, h₁, hcap⟩ := reserve_holds heap h (Nat.le_add_right _ data.length) hlen
  obtain ⟨buf, hbuf, hsize, htake⟩ := copyIn_holds data pv₁.len pv₁.buf
    (by rw [h₁.len, h₁.size]; exact hcap)
  have hadd₁ : WordSize.bits64.add pv₁.len data.length = b.length + data.length := by
    rw [h₁.len, ← hadd, h.len]
  refine ⟨{ pv₁ with buf, len := b.length + data.length }, ?_,
    ⟨hsize.trans h₁.size, h₁.cap_pos, h₁.cap_lt, (List.length_append ..).symm, ?_⟩⟩
  · rw [pvBufAppend, hadd, hpv₁, Option.bind_eq_bind, Option.bind_some, hbuf,
      Option.bind_eq_bind, Option.bind_some, hadd₁]
    rfl
  · rw [h₁.len, h₁.bytes] at htake
    rw [List.length_append, htake]

/-- The buffer holds the concatenation of what was written. -/
theorem sp1WriteOutputs_holds (outputs : List Bytes) {pv : PvBuf} {b : Bytes} (h : pv.Holds b)
    (hlen : b.length + outputs.flatten.length ≤ 2 ^ 62) :
    ∃ calls pv', sp1WriteOutputs heap outputs pv = some (calls, pv') ∧
      pv'.Holds (b ++ outputs.flatten) := by
  induction outputs generalizing pv b with
  | nil => exact ⟨[], pv, rfl, by simpa using h⟩
  | cons output outputs ih =>
    rw [List.flatten_cons, List.length_append] at hlen
    obtain ⟨pv₁, hpv₁, h₁⟩ := pvBufAppend_holds heap output h (by omega)
    obtain ⟨calls, pv₂, hpv₂, h₂⟩ := ih h₁ (by rw [List.length_append]; omega)
    refine ⟨[.write sp1FdPublicValues output] ++ calls, pv₂, ?_,
      by rwa [List.flatten_cons, ← List.append_assoc]⟩
    simp only [sp1WriteOutputs, syscallWrite, ↓reduceIte, hpv₁, Option.bind_eq_bind,
      Option.bind_some, Option.pure_def, hpv₂]

end Sp1

/-! ### ZisK and OpenVM -/

/-- The static output buffer, and how much of it is in use. -/
structure OutBuf where
  buf : Bytes
  len : ℕ

/-- The zeroed buffer of `cap` bytes. -/
def OutBuf.empty (cap : ℕ) : OutBuf := { buf := List.replicate cap 0, len := 0 }

@[simp] theorem length_empty (cap : ℕ) : (OutBuf.empty cap).buf.length = cap :=
  List.length_replicate

/-- `write_output`: what does not fit is dropped. -/
def writeOutput (w : WordSize) (output : Bytes) (out : OutBuf) : Option OutBuf := do
  let n := if w.add out.len output.length > out.buf.length then w.sub out.buf.length out.len
    else output.length
  let buf ← copyIn (output.take n) out.len out.buf
  pure { buf, len := w.add out.len n }

/-- A sequence of `write_output` calls. -/
def writeOutputs (w : WordSize) : List Bytes → OutBuf → Option OutBuf
  | [], out => some out
  | output :: outputs, out => do
      let out ← writeOutput w output out
      writeOutputs w outputs out

/-- The buffer holds `b`. -/
structure OutBuf.Holds (out : OutBuf) (b : Bytes) : Prop where
  len : out.len = b.length
  bytes : out.buf.take b.length = b

/-- Output that fits is kept. -/
theorem writeOutputs_holds (w : WordSize) (outputs : List Bytes) {out : OutBuf} {b : Bytes}
    (h : out.Holds b) (hcap : out.buf.length < 2 ^ 32)
    (hlen : b.length + outputs.flatten.length ≤ out.buf.length) :
    ∃ out', writeOutputs w outputs out = some out' ∧ out'.Holds (b ++ outputs.flatten) := by
  induction outputs generalizing out b with
  | nil => exact ⟨out, rfl, by simpa using h⟩
  | cons output outputs ih =>
    rw [List.flatten_cons, List.length_append] at hlen
    have hadd : w.add out.len output.length = b.length + output.length := by
      rw [h.len]
      exact Nat.mod_eq_of_lt (lt_of_lt_of_le (by omega) w.le_modulus)
    obtain ⟨buf, hbuf, hsize, htake⟩ := copyIn_holds output out.len out.buf
      (by rw [h.len]; omega)
    have hwrite : writeOutput w output out = some ⟨buf, b.length + output.length⟩ := by
      simp only [writeOutput, hadd]
      rw [if_neg (by omega), List.take_length, hbuf, hadd]
      rfl
    have hholds : OutBuf.Holds ⟨buf, b.length + output.length⟩ (b ++ output) := by
      rw [h.len, h.bytes] at htake
      exact ⟨(List.length_append ..).symm, by rw [List.length_append, htake]⟩
    obtain ⟨out', hout', h'⟩ := ih hholds (by rwa [hsize])
      (by rw [List.length_append, hsize]; omega)
    refine ⟨out', ?_, by rwa [List.flatten_cons, ← List.append_assoc]⟩
    rw [writeOutputs, hwrite, Option.bind_eq_bind, Option.bind_some, hout']

/-- The writes of the loop of ZisK's `write_output_bytes` from byte `i` on. -/
def writeOutputBytes (data : Bytes) (len i slot : ℕ) : List (ℕ × BitVec 32) :=
  if i + 4 ≤ len then
    (slot, BitVec.ofNat 32 (leNat (window data i 4))) ::
      writeOutputBytes data len (i + 4) (slot + 1)
  else if i < len then
    [(slot, BitVec.ofNat 32 (leNat ((window data i (len - i)).takeD 4 0)))]
  else []
termination_by len - i

/-- The word OpenVM shifts together from `n` bytes of the buffer. -/
def shiftWord (buf : Bytes) (off : ℕ) : ℕ → BitVec 32
  | 0 => 0
  | b + 1 => shiftWord buf off b |||
      (BitVec.ofNat 32 (buf.getD (off + b) 0).toNat <<< (8 * b))

/-- The words OpenVM's `zkvm_io_flush` reveals from word `i` on. -/
def revealWords (buf : Bytes) (len i : ℕ) : List (ℕ × BitVec 32) :=
  if i * 4 < len then
    (i, shiftWord buf (i * 4) (if len - i * 4 < 4 then len - i * 4 else 4)) ::
      revealWords buf len (i + 1)
  else []
termination_by len - i * 4

/-- The slots hold `b`, padded with zeros to whole words: slot by slot, each is
written once. -/
structure SlotsHold (slots : List (ℕ × BitVec 32)) (b : Bytes) : Prop where
  indices : slots.map Prod.fst = List.range ((b.length + 3) / 4)
  bytes : (slots.map fun s => leBytes 4 s.2.toNat).flatten =
    b ++ List.replicate (4 * ((b.length + 3) / 4) - b.length) 0

/-- The words of `b` from word `i` on. -/
def packed (b : Bytes) (i : ℕ) : List (ℕ × BitVec 32) :=
  (List.range' i ((b.length + 3) / 4 - i)).map fun k =>
    (k, BitVec.ofNat 32 (leNat (window b (4 * k) 4)))

theorem packed_of_lt {b : Bytes} {i : ℕ} (h : 4 * i < b.length) :
    packed b i = (i, BitVec.ofNat 32 (leNat (window b (4 * i) 4))) :: packed b (i + 1) := by
  have hcount : (b.length + 3) / 4 - i = (b.length + 3) / 4 - (i + 1) + 1 := by omega
  rw [packed, hcount, List.range'_succ, List.map_cons, packed]

theorem packed_of_ge {b : Bytes} {i : ℕ} (h : b.length ≤ 4 * i) : packed b i = [] := by
  have hcount : (b.length + 3) / 4 - i = 0 := by omega
  rw [packed, hcount]
  rfl

/-- A packed word stores four of the bytes, or what is left of them and zeros. -/
theorem leBytes_word {b : Bytes} {k n : ℕ} (h : 4 * k + 4 ≤ n) :
    leBytes 4 (BitVec.ofNat 32 (leNat (window b (4 * k) 4))).toNat =
      window (b.takeD n 0) (k * 4) 4 := by
  have hlt : leNat (window b (4 * k) 4) < 2 ^ 32 := u32At_lt b (4 * k)
  rw [BitVec.toNat_ofNat, Nat.mod_eq_of_lt hlt, window_takeD (by omega), Nat.mul_comm k 4, window,
    ← leNat_takeD]
  have := leBytes_leNat ((b.drop (4 * k)).takeD 4 0)
  rwa [List.takeD_length] at this

/-- The packed words of `b`, as many as fill `4 * m` bytes. -/
theorem flatten_words (b : Bytes) (m : ℕ) :
    ((List.range m).map fun k =>
      leBytes 4 (BitVec.ofNat 32 (leNat (window b (4 * k) 4))).toNat).flatten =
        b.takeD (m * 4) 0 := by
  calc _ = ((List.range m).map fun k => window (b.takeD (m * 4) 0) (k * 4) 4).flatten := by
        refine congrArg List.flatten (List.map_congr_left fun k hk => leBytes_word ?_)
        have := List.mem_range.mp hk
        omega
    _ = b.takeD (m * 4) 0 := by
        rw [flatten_windows, window_self (List.takeD_length ..)]

/-- **Packed words hold the bytes.** -/
theorem slotsHold_packed (b : Bytes) : SlotsHold (packed b 0) b := by
  have hrange : List.range' 0 ((b.length + 3) / 4 - 0) = List.range ((b.length + 3) / 4) := by
    rw [List.range_eq_range', Nat.sub_zero]
  constructor
  · rw [packed, hrange, List.map_map]
    exact List.map_id _
  · rw [packed, hrange, List.map_map, Nat.mul_comm 4, ← takeD_eq_append (by omega)]
    exact flatten_words b _

/-- ZisK's loop writes the packed words. -/
theorem writeOutputBytes_eq {data b : Bytes} (h : data.take b.length = b) (i : ℕ) :
    writeOutputBytes data b.length (4 * i) i = packed b i := by
  have hwindow : ∀ n, 4 * i + n ≤ b.length → window data (4 * i) n = window b (4 * i) n := by
    intro n hn
    rw [← window_take hn, h]
  unfold writeOutputBytes
  rcases Nat.lt_or_ge b.length (4 * i + 4) with hlt | hge
  · rw [if_neg (by omega)]
    rcases Nat.lt_or_ge (4 * i) b.length with hpart | hend
    · have hrest : window b (4 * i) (b.length - 4 * i) = b.drop (4 * i) := window_eq_drop (by omega)
      rw [if_pos hpart, packed_of_lt hpart, packed_of_ge (by omega), hwindow _ (by omega), hrest,
        leNat_takeD, window]
    · rw [if_neg (by omega), packed_of_ge hend]
  · rw [if_pos hge, packed_of_lt (by omega), hwindow 4 hge, ← writeOutputBytes_eq h (i + 1),
      Nat.mul_succ]
termination_by b.length - 4 * i

/-- Shifting bytes into a word reads them as a little-endian integer. -/
theorem toNat_shiftWord (buf : Bytes) (off : ℕ) : ∀ {n : ℕ}, n ≤ 4 → off + n ≤ buf.length →
    (shiftWord buf off n).toNat = leNat (window buf off n)
  | 0, _, _ => by simp [shiftWord]
  | n + 1, hn, hlen => by
      have ih := toNat_shiftWord buf off (n := n) (by omega) (by omega)
      have hw : (window buf off n).length = n := length_window_of_le (by omega)
      have hlow : leNat (window buf off n) < 2 ^ (8 * n) := by
        have := leNat_lt (window buf off n)
        rwa [hw, show 256 = 2 ^ 8 from rfl, ← Nat.pow_mul] at this
      have hsplit : window buf off (n + 1) = window buf off n ++ [buf.getD (off + n) 0] := by
        rw [← window_append_window buf rfl, List.getD_eq_getElem _ _ (by omega)]
        congr 1
        rw [window, List.take_one_drop_eq_of_lt_length (by omega)]
        rfl
      have hbyte : (buf.getD (off + n) 0).toNat < 2 ^ 8 := UInt8.toNat_lt _
      have hshift : (buf.getD (off + n) 0).toNat * 2 ^ (8 * n) < 2 ^ 32 :=
        calc _ < 2 ^ 8 * 2 ^ (8 * n) := Nat.mul_lt_mul_of_pos_right hbyte (Nat.two_pow_pos _)
          _ = 2 ^ (8 + 8 * n) := (Nat.pow_add ..).symm
          _ ≤ 2 ^ 32 := Nat.pow_le_pow_right (by decide) (by omega)
      have hword : (BitVec.ofNat 32 (buf.getD (off + n) 0).toNat <<< (8 * n)).toNat =
          (buf.getD (off + n) 0).toNat <<< (8 * n) := by
        rw [BitVec.toNat_shiftLeft, BitVec.toNat_ofNat,
          Nat.mod_eq_of_lt (hbyte.trans (by norm_num)), Nat.shiftLeft_eq, Nat.mod_eq_of_lt hshift]
      rw [shiftWord, BitVec.toNat_or, ih, hword, Nat.or_comm,
        ← Nat.shiftLeft_add_eq_or_of_lt hlow, hsplit, leNat_append_singleton, hw,
        Nat.shiftLeft_eq, show 256 = 2 ^ 8 from rfl, ← Nat.pow_mul, Nat.mul_comm (2 ^ _), Nat.add_comm]

/-- OpenVM's loop reveals the packed words. -/
theorem revealWords_eq {buf b : Bytes} (h : buf.take b.length = b) (i : ℕ) :
    revealWords buf b.length i = packed b i := by
  have hlen : b.length ≤ buf.length := by
    have := congrArg List.length h
    rw [List.length_take] at this
    omega
  unfold revealWords
  rcases Nat.lt_or_ge (4 * i) b.length with hlt | hend
  · have hword : ∀ n, n ≤ 4 → 4 * i + n ≤ b.length → window b (4 * i) n = window b (4 * i) 4 →
        shiftWord buf (i * 4) n = BitVec.ofNat 32 (leNat (window b (4 * i) 4)) := by
      intro n hn hle hwin
      apply BitVec.eq_of_toNat_eq
      have hfit : leNat (window b (4 * i) 4) < 2 ^ 32 := u32At_lt b (4 * i)
      rw [Nat.mul_comm i 4, toNat_shiftWord _ _ hn (by omega), BitVec.toNat_ofNat,
        Nat.mod_eq_of_lt hfit, ← hwin, ← window_take hle, h]
    rw [if_pos (by omega), packed_of_lt hlt, revealWords_eq h (i + 1)]
    congr 2
    rcases Nat.lt_or_ge b.length (4 * i + 4) with hpart | hfull
    · rw [if_pos (by omega)]
      refine hword _ (by omega) (by omega) ?_
      rw [window_eq_drop (by omega), window, List.take_of_length_le]
      rw [List.length_drop]
      omega
    · rw [if_neg (by omega)]
      exact hword 4 le_rfl hfull rfl
  · rw [if_neg (by omega), packed_of_ge hend]
termination_by b.length - 4 * i

/-! ### The published bytes -/

/-- What the buffer of SP1 holds after the writes, and the requests of the halt. -/
def sp1Outputs (heap : ℕ → UInt8) (heapPtr : ℕ) (sha256 : Bytes → Bytes32) (exitCode : UInt8)
    (outputs : List Bytes) : Option (Bytes × List Ecall) := do
  let pv ← pvBufInit heap heapPtr
  let (_, pv) ← sp1WriteOutputs heap outputs pv
  pure (pv.buf.take pv.len, syscallHalt sha256 exitCode pv)

/-- The slots ZisK exposes. -/
def ziskOutputs (outputs : List Bytes) : Option (List (ℕ × BitVec 32)) := do
  let out ← writeOutputs .bits64 outputs (.empty 1024)
  pure (writeOutputBytes out.buf out.len 0 0)

/-- The words OpenVM reveals. -/
def openVmOutputs (outputs : List Bytes) : Option (List (ℕ × BitVec 32)) := do
  let out ← writeOutputs .bits32 outputs (.empty 256)
  pure (revealWords out.buf out.len 0)

/-- The words of the commit requests. -/
def committed (calls : List Ecall) : List (ℕ × BitVec 32) :=
  calls.filterMap fun
    | .commit index word => some (index, word)
    | _ => none

theorem empty_holds (cap : ℕ) : (OutBuf.empty cap).Holds [] := ⟨rfl, rfl⟩

/-- Output that fits the buffer of ZisK is packed as a whole. -/
theorem ziskOutputs_eq {outputs : List Bytes} (hlen : outputs.flatten.length ≤ 1024) :
    ziskOutputs outputs = some (packed outputs.flatten 0) := by
  obtain ⟨out, hout, h⟩ := writeOutputs_holds .bits64 outputs (empty_holds 1024)
    (by rw [length_empty]; norm_num) (by rw [length_empty, List.length_nil]; omega)
  rw [List.nil_append] at h
  rw [ziskOutputs, hout, Option.bind_eq_bind, Option.bind_some, h.len]
  exact congrArg some (writeOutputBytes_eq h.bytes 0)

/-- Output that fits the buffer of OpenVM is revealed as a whole. -/
theorem openVmOutputs_eq {outputs : List Bytes} (hlen : outputs.flatten.length ≤ 256) :
    openVmOutputs outputs = some (packed outputs.flatten 0) := by
  obtain ⟨out, hout, h⟩ := writeOutputs_holds .bits32 outputs (empty_holds 256)
    (by rw [length_empty]; norm_num) (by rw [length_empty, List.length_nil]; omega)
  rw [List.nil_append] at h
  rw [openVmOutputs, hout, Option.bind_eq_bind, Option.bind_some, h.len]
  exact congrArg some (revealWords_eq h.bytes 0)

theorem committed_syscallHalt (sha256 : Bytes → Bytes32) (exitCode : UInt8) (pv : PvBuf) :
    committed (syscallHalt sha256 exitCode pv) =
      packed (sha256 (pv.buf.take pv.len)).toList 0 := by
  have hdefer : ∀ l : List ℕ,
      committed (l.map fun i => Ecall.commitDeferredProofs i 0) = [] := by
    intro l
    rw [committed, List.filterMap_map]
    exact List.filterMap_eq_nil_iff.mpr fun _ _ => rfl
  have hcommit : ∀ (l : List ℕ) (f : ℕ → BitVec 32),
      committed (l.map fun i => .commit i (f i)) = l.map fun i => (i, f i) := by
    intro l f
    rw [committed, List.filterMap_map]
    exact List.filterMap_eq_map_iff_forall_eq_some.mpr fun _ _ => rfl
  have happend : ∀ a b : List Ecall, committed (a ++ b) = committed a ++ committed b :=
    fun a b => List.filterMap_append
  rw [syscallHalt, happend, happend, hcommit, hdefer, packed, List.Vector.toList_length]
  exact List.append_nil _

/-- **The three targets publish the same bytes.**  SP1 commits to the hash of the
concatenated outputs, of any length for which the size of the buffer is a `ptrdiff_t`;
ZisK and OpenVM expose up to 256 bytes of it in slots. -/
theorem publicOutputs_agree (heap : ℕ → UInt8) (heapPtr : ℕ) (sha256 : Bytes → Bytes32)
    (exitCode : UInt8) (outputs : List Bytes) :
    (outputs.flatten.length ≤ 2 ^ 62 → ∃ calls,
      sp1Outputs heap heapPtr sha256 exitCode outputs = some (outputs.flatten, calls) ∧
      SlotsHold (committed calls) (sha256 outputs.flatten).toList) ∧
    (outputs.flatten.length ≤ 256 →
      (∃ slots, ziskOutputs outputs = some slots ∧ SlotsHold slots outputs.flatten) ∧
      ∃ slots, openVmOutputs outputs = some slots ∧ SlotsHold slots outputs.flatten) := by
  refine ⟨?_, fun hlen => ⟨?_, ?_⟩⟩
  · intro hlen
    obtain ⟨pv₀, hinit, h₀⟩ := pvBufInit_holds heap heapPtr
    obtain ⟨calls, pv, hwrite, h⟩ := sp1WriteOutputs_holds heap outputs h₀
      (by simpa using hlen)
    rw [List.nil_append] at h
    have hbuf : pv.buf.take pv.len = outputs.flatten := by rw [h.len, h.bytes]
    refine ⟨syscallHalt sha256 exitCode pv, ?_, ?_⟩
    · rw [sp1Outputs, hinit, Option.bind_eq_bind, Option.bind_some, hwrite, ← hbuf]
      rfl
    · rw [committed_syscallHalt, hbuf]
      exact slotsHold_packed _
  · exact ⟨_, ziskOutputs_eq (by omega), slotsHold_packed _⟩
  · exact ⟨_, openVmOutputs_eq hlen, slotsHold_packed _⟩

/-- Two calls, with five bytes in all. -/
theorem publicOutputs_agree_twoCalls :
    (∃ calls, sp1Outputs (fun _ => 0) 0 (fun _ => zeroVec 32) 0 [[1, 2, 3], [4, 5]] =
      some ([1, 2, 3, 4, 5], calls) ∧ SlotsHold (committed calls) (zeroVec 32).toList) ∧
    (∃ slots, ziskOutputs [[1, 2, 3], [4, 5]] = some slots ∧ SlotsHold slots [1, 2, 3, 4, 5]) ∧
    ∃ slots, openVmOutputs [[1, 2, 3], [4, 5]] = some slots ∧ SlotsHold slots [1, 2, 3, 4, 5] :=
  have h := publicOutputs_agree (fun _ => 0) 0 (fun _ => zeroVec 32) 0 [[1, 2, 3], [4, 5]]
  ⟨h.1 (by norm_num), h.2 (by norm_num)⟩

end StatelessGuest
