import StatelessGuest.Io
import StatelessGuest.OutputWindow
import StatelessGuest.OpenVm.HintStream

/-!
# The runtime of OpenVM

The input is read off the hint stream into the heap, at the first call of `read_input`.
Output is kept in a static buffer, which `zkvm_io_flush` reveals after `main` has returned.  The
stack, with the scratch word of `read_vec_raw`, lies below that buffer and the heap above it.

## Main definitions

* `Guest`, `writeOutput`, `io` — the state of the runtime and its calls.
* `start` — `__start`, over the program it calls.
* `Stream` — a hint stream that holds an input.

## Main results

* `implements` — **the runtime implements the io-interface**, up to the size of its buffer.
* `start_eq` — what OpenVM reveals of a program.
-/

namespace StatelessGuest.OpenVm

open Ssz Refine Riscv

/-! ### The runtime -/

/-- The input with the memory and the heap, and the static variable `g_output_len`. -/
structure Guest where
  input : GuestInput
  outputLen : ℕ := 0

/-- The memory. -/
def Guest.mem (g : Guest) : Memory := g.input.machine.mem

/-- `sizeof(g_output_buf)` -/
def outputCap : ℕ := 256

/-- `write_output`, to `g_output_buf`: what does not fit is dropped. -/
def writeOutput (outputBuf : Addr) (output : Bytes) (g : Guest) : Guest :=
  let n :=
    if WordSize.bits32.add g.outputLen output.length > outputCap then
      WordSize.bits32.sub outputCap g.outputLen
    else output.length
  { g with
    input.machine.mem :=
      storeBytes g.mem (outputBuf + BitVec.ofNat 32 g.outputLen) (output.take n)
    outputLen := WordSize.bits32.add g.outputLen n }

/-- `read_input`, `write_output` and `_sbrk`. -/
def io (scratch outputBuf : Addr) : Machine RuntimeCall.Reply Guest
  | .readInput, g => do
      let ((ptr, len), input) ← readInput scratch g.input
      pure (readBuffer input.machine.mem ptr len.toNat, { g with input })
  | .writeOutput output, g => some ((), writeOutput outputBuf output g)
  | .allocate block, g =>
      let (ptr, m) := heapSbrk (BitVec.ofNat 32 block.length) g.input.machine
      some ((), { g with input.machine := { m with mem := storeBytes m.mem ptr block } })

/-- The revealed words, and the exit code of the termination. -/
structure Halted where
  words : List (ℕ × BitVec 32)
  exitCode : ℕ

/-- `zkvm_io_flush` -/
def ioFlush (outputBuf : Addr) (g : Guest) : List (ℕ × BitVec 32) :=
  revealWords (readBuffer g.mem outputBuf outputCap) g.outputLen 0

/-- `__start`, over the program it calls. -/
def start (scratch outputBuf : Addr) (program : Client RuntimeCall.Reply ℤ) (m : HintMachine)
    (heapStart : Addr) : Option Halted := do
  let heapPtr := (heapStart + 3) &&& ~~~3
  let (rc, g) ← program.run (io scratch outputBuf) { input := { machine := { m with heapPtr } } }
  pure { words := ioFlush outputBuf g, exitCode := if rc = 0 then 0 else 1 }

/-! ### The input -/

/-- The next stream holds the length of `b`, and `b` in whole words. -/
def Stream (m : HintMachine) (b : Bytes) : Prop :=
  ∃ payload rest streams, payload.length = 4 * ((b.length + 3) / 4) ∧ payload.take b.length = b ∧
    m.streams = (leBytes 4 b.length ++ (payload ++ rest)) :: streams

/-- `b` is in memory from `base` on and below the heap, and `read_input` points to it. -/
structure Buffered (base : ℕ) (g : GuestInput) (b : Bytes) : Prop where
  read : g.read = true
  length : g.len.toNat = b.length
  bytes : readBuffer g.machine.mem g.ptr b.length = b
  placed : 0 < b.length → base ≤ g.ptr.toNat ∧ g.ptr.toNat + b.length ≤ g.machine.heapPtr.toNat

/-- The first call puts the input below the heap, and leaves what lies between the scratch word
and it. -/
theorem readInput_of_stream {scratch : Addr} {base : ℕ} {g : GuestInput} {b : Bytes}
    (hunread : g.read = false) (hstream : Stream g.machine b)
    (hfit : g.machine.heapPtr.toNat + 4 * ((b.length + 3) / 4) < 2 ^ 32)
    (hbase : base ≤ g.machine.heapPtr.toNat) :
    ∃ g', readInput scratch g = some ((g'.ptr, g'.len), g') ∧ Buffered base g' b ∧
      g'.machine.heapPtr.toNat = g.machine.heapPtr.toNat + 4 * ((b.length + 3) / 4) ∧
      ∀ a : Addr, scratch.toNat + 4 ≤ a.toNat → a.toNat < g.machine.heapPtr.toNat →
        g'.machine.mem a = g.machine.mem a := by
  obtain ⟨payload, rest, streams, hsize, htake, hnext⟩ := hstream
  obtain ⟨v, m', hread, hdelivers⟩ :=
    readVecRaw_eq_some scratch g.machine (by omega) hsize hnext
  have hheap : m'.heapPtr.toNat = g.machine.heapPtr.toNat + 4 * ((b.length + 3) / 4) := by
    rw [hdelivers.heapPtr, toNat_add_ofNat _ hfit]
  refine ⟨⟨m', v.ptr, v.len, true⟩, ?_, ⟨rfl, hdelivers.length, ?_, ?_⟩, hheap,
    fun a habove hbelow => hdelivers.frame a ?_ ?_⟩
  · rw [readInput, if_neg (by rw [hunread]; exact Bool.false_ne_true)]
    simp only [Option.bind_eq_bind, Option.bind_some, hread]
    rfl
  · exact hdelivers.bytes.trans htake
  · intro hpos
    have hptr := hdelivers.ptr hpos
    dsimp only
    rw [hheap, hptr]
    omega
  · rw [BitVec.toNat_sub]
    have hlt := a.isLt
    omega
  · -- An empty input takes no room, and any other lies from the heap pointer on.
    rcases Nat.eq_zero_or_pos b.length with hzero | hpos
    · rw [hzero]
      exact Nat.zero_le _
    · have hlt := g.machine.heapPtr.isLt
      rw [hdelivers.ptr hpos, BitVec.toNat_sub]
      omega

/-- The input stays when nothing is stored where it lies. -/
theorem Buffered.congr {base : ℕ} {g : GuestInput} {b : Bytes} (h : Buffered base g b)
    {mem : Memory} {heapPtr : Addr} (hheap : g.machine.heapPtr.toNat ≤ heapPtr.toNat)
    (hmem : ∀ a : Addr, base ≤ a.toNat → a.toNat < g.machine.heapPtr.toNat →
      mem a = g.machine.mem a) :
    Buffered base { g with machine := { g.machine with mem, heapPtr } } b := by
  refine ⟨h.read, h.length, ?_, ?_⟩
  · rcases Nat.eq_zero_or_pos b.length with hzero | hpos
    · obtain rfl := List.eq_nil_of_length_eq_zero hzero
      rfl
    · obtain ⟨hbase, hbelow⟩ := h.placed hpos
      have hlt := g.machine.heapPtr.isLt
      have hread : readBuffer mem g.ptr b.length = readBuffer g.machine.mem g.ptr b.length := by
        apply readBuffer_congr
        intro i hi
        have hat := toNat_add_ofNat g.ptr (i := i) (by omega)
        exact hmem _ (by omega) (by omega)
      exact hread.trans h.bytes
  · intro hpos
    obtain ⟨hbase, hbelow⟩ := h.placed hpos
    exact ⟨hbase, hbelow.trans hheap⟩

/-! ### The interface -/

/-- The input is in the stream or in memory, and the heap has room for it and `room` bytes. -/
def Supplies (base : ℕ) (g : GuestInput) (b : Bytes) (room : ℕ) : Prop :=
  (g.read = false ∧ Stream g.machine b ∧
      g.machine.heapPtr.toNat + 4 * ((b.length + 3) / 4) + room < 2 ^ 32) ∨
    (Buffered base g b ∧ g.machine.heapPtr.toNat + room < 2 ^ 32)

/-- The runtime provides `s`: the input is in the stream or in memory, the output is in the
buffer, and the heap lies above it and has room for what is to come. -/
structure Provides (outputBuf : Addr) (g : Guest) (s : Io) : Prop where
  input : Supplies (outputBuf.toNat + outputCap) g.input s.input s.room
  apart : outputBuf.toNat + outputCap ≤ g.input.machine.heapPtr.toNat
  len : g.outputLen = s.output.length
  fits : s.output.length ≤ outputCap
  bytes : readBuffer g.mem outputBuf s.output.length = s.output

theorem Supplies.room_lt {base : ℕ} {g : GuestInput} {b : Bytes} {room : ℕ}
    (h : Supplies base g b room) : g.machine.heapPtr.toNat + room < 2 ^ 32 := by
  rcases h with ⟨-, -, hroom⟩ | ⟨-, hroom⟩
  · omega
  · exact hroom

/-- **The runtime implements the io-interface**: the input is read once and stays what it
is, and the output grows, whatever is allocated and stored in between. -/
theorem implements {scratch outputBuf : Addr} (hscratch : scratch.toNat + 4 ≤ outputBuf.toNat) :
    Implements (io scratch outputBuf) (ioStandard outputCap) (Provides outputBuf) := by
  intro call g s reply s' h hstep
  have hapart := h.apart
  have hfits := h.fits
  have hcap : outputCap = 256 := rfl
  have htotal := h.input.room_lt
  cases call with
  | readInput =>
    obtain ⟨rfl, rfl⟩ := Prod.mk.inj (Option.some.inj hstep)
    have hbuffered : ∃ input, readInput scratch g.input = some ((input.ptr, input.len), input) ∧
        Buffered (outputBuf.toNat + outputCap) input s.input ∧
        input.machine.heapPtr.toNat + s.room < 2 ^ 32 ∧
        g.input.machine.heapPtr.toNat ≤ input.machine.heapPtr.toNat ∧
        ∀ a : Addr, scratch.toNat + 4 ≤ a.toNat → a.toNat < g.input.machine.heapPtr.toNat →
          input.machine.mem a = g.mem a := by
      rcases h.input with ⟨hunread, hstream, hroom⟩ | ⟨hbuffered, hroom⟩
      · obtain ⟨input, hread, hb, hheap, hframe⟩ :=
          @readInput_of_stream scratch _ _ _ hunread hstream (by omega) hapart
        exact ⟨input, hread, hb, by omega, by omega, hframe⟩
      · refine ⟨g.input, ?_, hbuffered, hroom, le_rfl, fun _ _ _ => rfl⟩
        rw [readInput, if_pos hbuffered.read]
        rfl
    obtain ⟨input, hread, hb, hroom, hheap, hframe⟩ := hbuffered
    have hbytes := hb.bytes
    rw [← hb.length] at hbytes
    -- The scratch word lies below the output buffer, and the input above it.
    have hkept : readBuffer input.machine.mem outputBuf s.output.length =
        readBuffer g.mem outputBuf s.output.length := by
      apply readBuffer_congr
      intro i hi
      have hat := toNat_add_ofNat outputBuf (i := i) (by omega)
      exact hframe _ (by omega) (by omega)
    refine ⟨{ g with input }, Option.bind_eq_some_iff.mpr ⟨_, hread, ?_⟩, .inr ⟨hb, hroom⟩,
      hapart.trans hheap, h.len, hfits, hkept.trans h.bytes⟩
    exact congrArg (fun b => some (b, { g with input })) hbytes
  | writeOutput output =>
    obtain ⟨hlen, hs⟩ := Option.ite_none_right_eq_some.mp hstep
    obtain ⟨-, rfl⟩ := Prod.mk.inj (Option.some.inj hs)
    have hadd : WordSize.bits32.add s.output.length output.length =
        s.output.length + output.length := Nat.mod_eq_of_lt (show _ < 2 ^ 32 by omega)
    have hptr := toNat_add_ofNat outputBuf (i := s.output.length) (by omega)
    have hwrite : writeOutput outputBuf output g =
        { g with
          input.machine.mem :=
            storeBytes g.mem (outputBuf + BitVec.ofNat 32 s.output.length) output
          outputLen := s.output.length + output.length } := by
      simp only [writeOutput, h.len, hadd]
      rw [if_neg (by omega), hadd, List.take_length]
    refine ⟨_, congrArg (fun g => some ((), g)) hwrite, ?_, hapart, (List.length_append ..).symm,
      by rw [List.length_append]; exact hlen, ?_⟩
    · rcases h.input with ⟨hunread, hstream, hroom⟩ | ⟨hbuffered, hroom⟩
      · exact .inl ⟨hunread, hstream, hroom⟩
      · refine .inr ⟨hbuffered.congr le_rfl ?_, hroom⟩
        intro a habove _
        exact storeBytes_apart _ _ (by omega) (.inr (by omega))
    · exact readBuffer_append g.mem outputBuf h.bytes (by omega)
  | allocate block =>
    obtain ⟨hfit, hs⟩ := Option.ite_none_right_eq_some.mp hstep
    obtain ⟨-, rfl⟩ := Prod.mk.inj (Option.some.inj hs)
    have hheap := toNat_add_ofNat g.input.machine.heapPtr (i := block.length) (by omega)
    refine ⟨_, rfl, ?_, ?_, h.len, hfits, ?_⟩
    · rcases h.input with ⟨hunread, hstream, hroom⟩ | ⟨hbuffered, hroom⟩
      · refine .inl ⟨hunread, hstream, ?_⟩
        dsimp only [heapSbrk]
        omega
      · have hle : g.input.machine.heapPtr.toNat ≤
            (g.input.machine.heapPtr + BitVec.ofNat 32 block.length).toNat := by omega
        refine .inr ⟨hbuffered.congr hle ?_, ?_⟩
        · intro a _ hbelow
          exact storeBytes_apart _ _ (by omega) (.inl hbelow)
        · dsimp only [heapSbrk]
          omega
    · dsimp only [heapSbrk]
      omega
    · have hkept := @readBuffer_apart g.mem g.input.machine.heapPtr outputBuf s.output.length block
        (by omega) (by omega) (.inl (by omega))
      exact hkept.trans h.bytes

/-- **What OpenVM reveals of a program**: its output, packed into words, and whether it
returns 0. -/
theorem start_eq {scratch outputBuf : Addr} {program : Client RuntimeCall.Reply ℤ}
    {m : HintMachine} {heapStart : Addr} {input : Bytes} {room : ℕ} {rc : ℤ} {s : Io}
    (hstream : Stream m input) (hscratch : scratch.toNat + 4 ≤ outputBuf.toNat)
    (hapart : outputBuf.toNat + outputCap ≤ heapStart.toNat)
    (hroom : heapStart.toNat + 3 + 4 * ((input.length + 3) / 4) + room < 2 ^ 32)
    (hrun : program.run (ioStandard outputCap) ⟨input, [], room⟩ = some (rc, s)) :
    start scratch outputBuf program m heapStart =
      some ⟨packed s.output 0, if rc = 0 then 0 else 1⟩ := by
  have hheap := @toNat_capacity heapStart (by omega)
  have hprovides : Provides outputBuf
      { input := { machine := { m with heapPtr := (heapStart + 3) &&& ~~~3 } } }
      ⟨input, [], room⟩ :=
    { input := .inl ⟨rfl, hstream, by dsimp only; omega⟩
      apart := by dsimp only; omega
      len := rfl
      fits := Nat.zero_le _
      bytes := rfl }
  obtain ⟨g, hg, hend⟩ := Implements.run (implements hscratch) program hprovides hrun
  have hheld : (readBuffer g.mem outputBuf outputCap).take s.output.length = s.output := by
    rw [take_readBuffer _ _ hend.fits]
    exact hend.bytes
  have hflush := revealWords_eq hheld 0
  rw [← hend.len] at hflush
  unfold start
  simp only [hg, Option.bind_eq_bind, Option.bind_some]
  exact congrArg (fun words => some (Halted.mk words _)) hflush

end StatelessGuest.OpenVm
