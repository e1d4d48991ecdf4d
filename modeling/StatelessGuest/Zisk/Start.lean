import StatelessGuest.Io
import StatelessGuest.OutputWindow
import StatelessGuest.Riscv.Buffer64

/-!
# The runtime of ZisK

The input is a record in a region of the memory, and `read_input` points into it.  Output is
kept in a static buffer, which `zkvm_io_flush` packs into slots after `main` has returned.  The
heap lies above both.

## Main definitions

* `Guest`, `writeOutput`, `io` — the state of the runtime and its calls.
* `start` — `__start`, over the program it calls.
* `Record` — an input region that holds a record.

## Main results

* `implements` — **the runtime implements the io-interface**, up to the size of its buffer.
* `start_eq` — what ZisK exposes of a program.
-/

namespace StatelessGuest.Zisk

open Ssz Refine Riscv64

/-! ### The runtime -/

/-- The memory, with the static variables `_heap_ptr` and `g_output_len`. -/
structure Guest where
  mem : Memory
  heapPtr : Addr
  outputLen : ℕ := 0

/-- `ZISK_INPUT_ADDR` -/
def ziskInputAddr : Addr := 0x40000000

/-- `ZISK_INPUT_HEADER` -/
def ziskInputHeader : Addr := 8

/-- `sizeof(g_output_buf)` -/
def outputCap : ℕ := 1024

/-- `read_input_raw` -/
def readInputRaw (mem : Memory) : Addr × Addr :=
  let base := ziskInputAddr + ziskInputHeader
  let len := mem.load base 8
  (base + 8, len)

/-- `write_output`, to `g_output_buf`: what does not fit is dropped. -/
def writeOutput (outputBuf : Addr) (output : Bytes) (g : Guest) : Guest :=
  let n :=
    if WordSize.bits64.add g.outputLen output.length > outputCap then
      WordSize.bits64.sub outputCap g.outputLen
    else output.length
  { g with mem := g.mem.write (outputBuf.at g.outputLen) (output.take n)
           outputLen := WordSize.bits64.add g.outputLen n }

/-- `read_input`, `write_output` and `_sbrk`. -/
def io (outputBuf : Addr) : Machine RuntimeCall.Reply Guest
  | .readInput, g =>
      let (ptr, len) := readInputRaw g.mem
      some (g.mem.read ptr len.toNat, g)
  | .writeOutput output, g => some ((), writeOutput outputBuf output g)
  | .allocate block, g =>
      some ((), { g with
        mem := g.mem.write g.heapPtr block
        heapPtr := g.heapPtr.at block.length })

/-- The writes to the output slots, and the exit code of `sys_halt`. -/
structure Halted where
  writes : List (ℕ × BitVec 32)
  exitCode : BitVec 8

/-- `zkvm_io_flush` -/
def ioFlush (outputBuf : Addr) (g : Guest) : List (ℕ × BitVec 32) :=
  writeOutputBytes (g.mem.read outputBuf outputCap) g.outputLen 0 0

/-- `__start`, over the program it calls. -/
def start (outputBuf : Addr) (program : Client RuntimeCall.Reply ℤ) (mem : Memory)
    (heapStart : Addr) : Option Halted := do
  let heapPtr := (heapStart + 7) &&& ~~~7
  let (rc, g) ← program.run (io outputBuf) { mem, heapPtr }
  pure { writes := ioFlush outputBuf g, exitCode := BitVec.ofInt 8 rc }

/-! ### The interface -/

/-- The first record of the input region. -/
structure Record (mem : Memory) (b : Bytes) : Prop where
  length : (readInputRaw mem).2.toNat = b.length
  bytes : mem.read (readInputRaw mem).1 b.length = b

/-- Where the record begins. -/
theorem readInputRaw_fst (mem : Memory) : (readInputRaw mem).1 = 0x40000010 := rfl

/-- A loaded value is the number that its bytes make. -/
theorem toNat_load (m : Memory) (a : Addr) {w : ℕ} (hw : w ≤ 8) :
    (m.load a w).toNat = leNat (m.read a w) := by
  induction w generalizing a with
  | zero => rfl
  | succ w ih =>
    have hrest := ih (a + 1) (by omega)
    have hlt := leNat_lt (m.read (a + 1) w)
    have hpow : 256 ^ w * 256 ≤ 2 ^ 64 :=
      calc 256 ^ w * 256 = 256 ^ (w + 1) := (Nat.pow_succ ..).symm
        _ ≤ 256 ^ 8 := Nat.pow_le_pow_right (by decide) hw
        _ = 2 ^ 64 := by norm_num
    rw [Memory.length_read] at hlt
    have hread : m.read a (w + 1) = UInt8.ofBitVec (m a) :: m.read (a + 1) w := by
      have hat : ∀ i, a.at (i + 1) = (a + 1).at i := by
        intro i
        rw [Nat.add_comm, ← Addr.at_at]
        rfl
      rw [Memory.read, List.range_succ_eq_map, List.map_cons, List.map_map, Addr.at_zero]
      exact congrArg (List.cons _) (List.map_congr_left fun i _ => by
        rw [Function.comp_apply, hat])
    have hshift : (m.load (a + 1) w <<< 8).toNat = leNat (m.read (a + 1) w) <<< 8 := by
      rw [BitVec.toNat_shiftLeft, hrest, Nat.shiftLeft_eq, Nat.mod_eq_of_lt (by omega)]
    have hlow : ((m a).setWidth 64).toNat = (m a).toNat := by
      rw [BitVec.toNat_setWidth, Nat.mod_eq_of_lt (lt_trans (m a).isLt (by norm_num))]
    rw [Memory.load, BitVec.toNat_or, hshift, hlow, ← Nat.shiftLeft_add_eq_or_of_lt (m a).isLt,
      Nat.shiftLeft_eq, hread, leNat_cons, Nat.mul_comm, Nat.add_comm]
    rfl

/-- The record that the prover puts behind the header. -/
theorem record_write (mem : Memory) {b : Bytes} (hlen : b.length < 2 ^ 63) :
    Record (mem.write (ziskInputAddr + ziskInputHeader) (leBytes 8 b.length ++ b)) b := by
  have height : (leBytes 8 b.length).length = 8 := length_leBytes 8 _
  have hsize : (leBytes 8 b.length ++ b).length = 8 + b.length := by
    rw [List.length_append, height]
  constructor
  · unfold readInputRaw
    dsimp only
    rw [toNat_load _ _ le_rfl, Memory.read_write _ _ (by omega) (by omega),
      List.take_left' height, leNat_leBytes (lt_trans hlen (by norm_num))]
  · have h := Memory.read_write_at mem (ziskInputAddr + ziskInputHeader)
      (b := leBytes 8 b.length ++ b) (i := 8) (n := b.length) (by omega) (by omega)
    rw [List.drop_left' height, List.take_length] at h
    exact h

/-- A record stays when something is written above it. -/
theorem Record.write {mem : Memory} {b block : Bytes} {ptr : Addr} (h : Record mem b)
    (hbelow : 0x40000010 + b.length ≤ ptr.toNat) (hlen : ptr.toNat + block.length < 2 ^ 64) :
    Record (mem.write ptr block) b := by
  have hptr : (0x40000010 : Addr).toNat = 0x40000010 := rfl
  have hbase : (ziskInputAddr + ziskInputHeader).toNat = 0x40000008 := rfl
  have hload : (readInputRaw (mem.write ptr block)).2 = (readInputRaw mem).2 := by
    apply Memory.load_congr
    intro i hi
    apply Memory.write_apart _ _ (by omega)
    have hat := Addr.toNat_at (ziskInputAddr + ziskInputHeader) (i := i) (by omega)
    omega
  refine ⟨by rw [hload, h.length], ?_⟩
  have hbytes := h.bytes
  rw [readInputRaw_fst] at hbytes ⊢
  rw [Memory.read_write_apart _ _ (by omega) (by omega) (by omega), hbytes]

/-- The runtime provides `s`: the input is in its record, the output in the buffer, and what is
to come fits the heap above them. -/
structure Provides (outputBuf : Addr) (g : Guest) (s : Io) : Prop where
  record : Record g.mem s.input
  below : 0x40000010 + s.input.length ≤ outputBuf.toNat
  apart : outputBuf.toNat + outputCap ≤ g.heapPtr.toNat
  room : g.heapPtr.toNat + s.room < 2 ^ 64
  len : g.outputLen = s.output.length
  fits : s.output.length ≤ outputCap
  bytes : g.mem.read outputBuf s.output.length = s.output

/-- **The runtime implements the io-interface**: the input stays what it is and the output
grows, whatever is allocated and stored in between. -/
theorem implements (outputBuf : Addr) :
    Implements (io outputBuf) (ioStandard outputCap) (Provides outputBuf) := by
  intro call g s reply s' h hstep
  have hbelow := h.below
  have hapart := h.apart
  have htotal := h.room
  have hfits := h.fits
  cases call with
  | readInput =>
    obtain ⟨rfl, rfl⟩ := Prod.mk.inj (Option.some.inj hstep)
    refine ⟨g, ?_, h⟩
    have hlen := h.record.length
    have hbytes := h.record.bytes
    rw [← hlen] at hbytes
    exact congrArg (fun b => some (b, g)) hbytes
  | writeOutput output =>
    obtain ⟨hlen, hs⟩ := Option.ite_none_right_eq_some.mp hstep
    obtain ⟨-, rfl⟩ := Prod.mk.inj (Option.some.inj hs)
    have hcap : outputCap = 1024 := rfl
    have hadd : WordSize.bits64.add s.output.length output.length =
        s.output.length + output.length := Nat.mod_eq_of_lt (show _ < 2 ^ 64 by omega)
    have hwrite : writeOutput outputBuf output g =
        { g with mem := g.mem.write (outputBuf.at s.output.length) output
                 outputLen := s.output.length + output.length } := by
      simp only [writeOutput, h.len, hadd]
      rw [if_neg (by omega), hadd, List.take_length]
    have hptr := Addr.toNat_at outputBuf (i := s.output.length) (by omega)
    refine ⟨_, congrArg (fun g => some ((), g)) hwrite, ?_, hbelow, hapart, htotal,
      (List.length_append ..).symm, by rw [List.length_append]; exact hlen, ?_⟩
    · exact h.record.write (by omega) (by omega)
    · exact Memory.read_append g.mem outputBuf h.bytes (by omega)
  | allocate block =>
    obtain ⟨hroom, hs⟩ := Option.ite_none_right_eq_some.mp hstep
    obtain ⟨-, rfl⟩ := Prod.mk.inj (Option.some.inj hs)
    have hptr := Addr.toNat_at g.heapPtr (i := block.length) (by omega)
    refine ⟨_, rfl, h.record.write (by omega) (by omega), hbelow, ?_, ?_, h.len, hfits, ?_⟩
    · dsimp only
      omega
    · dsimp only
      omega
    · dsimp only
      rw [Memory.read_write_apart _ _ (by omega) (by omega) (.inl (by omega)), h.bytes]

/-- **What ZisK exposes of a program**: its output, packed into slots, and its exit code. -/
theorem start_eq {outputBuf : Addr} {program : Client RuntimeCall.Reply ℤ} {mem : Memory}
    {heapStart : Addr} {input : Bytes} {room : ℕ} {rc : ℤ} {s : Io} (hrecord : Record mem input)
    (hbelow : 0x40000010 + input.length ≤ outputBuf.toNat)
    (hapart : outputBuf.toNat + outputCap ≤ heapStart.toNat)
    (hroom : heapStart.toNat + 7 + room < 2 ^ 64)
    (hrun : program.run (ioStandard outputCap) ⟨input, [], room⟩ = some (rc, s)) :
    start outputBuf program mem heapStart = some ⟨packed s.output 0, BitVec.ofInt 8 rc⟩ := by
  have hheap := @toNat_roundUp heapStart (by omega)
  have hprovides : Provides outputBuf { mem, heapPtr := (heapStart + 7) &&& ~~~7 }
      ⟨input, [], room⟩ :=
    { record := hrecord
      below := hbelow
      apart := by dsimp only; omega
      room := by dsimp only; omega
      len := rfl
      fits := Nat.zero_le _
      bytes := rfl }
  obtain ⟨g, hg, hend⟩ := Implements.run (implements outputBuf) program hprovides hrun
  have hheld : (g.mem.read outputBuf outputCap).take s.output.length = s.output := by
    rw [Memory.take_read _ _ hend.fits]
    exact hend.bytes
  have hflush := writeOutputBytes_eq hheld 0
  rw [← hend.len] at hflush
  unfold start
  simp only [hg, Option.bind_eq_bind, Option.bind_some]
  exact congrArg (fun writes => some (Halted.mk writes _)) hflush

end StatelessGuest.Zisk
