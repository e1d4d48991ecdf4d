import StatelessGuest.Io
import StatelessGuest.Runtimes
import StatelessGuest.Sp1.HintStream

/-!
# The runtime of SP1

The input is read off the hint stream into a region of its own, at the first call of
`read_input`.  Output is written at once and also kept in a buffer on the heap, which grows
by abandoning the old one; `syscall_halt` commits to its hash.  What the program allocates
and fills lies on the same heap.

## Main definitions

* `Guest` — the memory and the static variables.
* `pvBufAppend`, `syscallWrite`, `io` — the calls of the runtime.
* `start` — `__start`, over the program it calls.
* `Stream` — a hint stream that holds an input.
* `Guest.Holds` — the buffer holds the output, and lies below the heap pointer.

## Main results

* `pvBufAppend_holds` — an append, whether or not the buffer grows.
* `implements` — **the runtime implements the io-interface**, up to what fits the heap.
* `start_eq` — what SP1 sees of a program.
-/

namespace StatelessGuest.Sp1

open Ssz Refine Riscv64

/-! ### The runtime -/

/-- The memory and the static variables of the input, `_heap_ptr`, `g_pv_buf`, `g_pv_len` and
`g_pv_cap`, and the calls so far. -/
structure Guest where
  input : GuestInput
  heapPtr : Addr
  pvBuf : Addr := 0
  pvLen : ℕ := 0
  pvCap : ℕ := 0
  calls : List Ecall := []

/-- The memory. -/
def Guest.mem (g : Guest) : Memory := g.input.machine.mem

/-- The bytes `b` are stored from `ptr` on. -/
def Guest.write (g : Guest) (ptr : Addr) (b : Bytes) : Guest :=
  { g with input.machine.mem := g.mem.write ptr b }

/-- `pv_buf_init` -/
def pvBufInit (g : Guest) : Guest :=
  { g with heapPtr := g.heapPtr.at pvBufInitialCap, pvBuf := g.heapPtr, pvLen := 0
           pvCap := pvBufInitialCap }

/-- The branch of `pv_buf_append` that grows the buffer. -/
def pvBufGrow (need : ℕ) (g : Guest) : Option Guest := do
  let newCap ← growCap need 65 g.pvCap
  let newBuf := g.heapPtr
  let g := { g with heapPtr := g.heapPtr.at newCap }
  let g := g.write newBuf (g.mem.read g.pvBuf g.pvLen)
  pure { g with pvBuf := newBuf, pvCap := newCap }

/-- The buffer, grown where `need` bytes do not fit. -/
def pvBufReserve (need : ℕ) (g : Guest) : Option Guest :=
  if need > g.pvCap then pvBufGrow need g else some g

/-- `pv_buf_append` -/
def pvBufAppend (data : Bytes) (g : Guest) : Option Guest := do
  let need := WordSize.bits64.add g.pvLen data.length
  let g ← pvBufReserve need g
  pure { g.write (g.pvBuf.at g.pvLen) data with pvLen := need }

/-- `syscall_write` -/
def syscallWrite (fd : ℕ) (writeBuf : Bytes) (g : Guest) : Option Guest :=
  let g := { g with calls := g.calls ++ [.write fd writeBuf] }
  if fd = sp1FdPublicValues then pvBufAppend writeBuf g else some g

/-- The buffer that `syscall_halt` hashes, as it stands in memory. -/
def Guest.pv (g : Guest) : PvBuf :=
  { heapPtr := g.heapPtr.toNat, buf := g.mem.read g.pvBuf g.pvLen, len := g.pvLen, cap := g.pvCap }

/-- `read_input`, `write_output` and `_sbrk`. -/
def io : Machine RuntimeCall.Reply Guest
  | .readInput, g => do
      let ((ptr, len), input) ← readInput g.input
      pure (input.machine.mem.read ptr len.toNat, { g with input })
  | .writeOutput output, g => do
      let g ← syscallWrite sp1FdPublicValues output g
      pure ((), g)
  | .allocate block, g =>
      some ((), { g.write g.heapPtr block with heapPtr := g.heapPtr.at block.length })

/-- `__start`, over the program it calls. -/
def start (sha256 : Bytes → Bytes32) (program : Client RuntimeCall.Reply ℤ) (m : HintMachine)
    (heapStart : Addr) : Option (List Ecall) := do
  let g := pvBufInit { input := { machine := m }, heapPtr := (heapStart + 7) &&& ~~~7 }
  let (rc, g) ← program.run io g
  pure (g.calls ++ syscallHalt sha256 (.ofBitVec (.ofInt 8 rc)) g.pv)

/-! ### The public values -/

/-- The doubling loop at least doubles, and stops below twice what is needed. -/
theorem growCap_bounds {need : ℕ} (hneed : need ≤ 2 ^ 62) : ∀ {fuel cap c : ℕ}, cap < need →
    growCap need fuel cap = some c → 2 * cap ≤ c ∧ c < 2 * need
  | 0, _, _, _, h => by cases h
  | fuel + 1, cap, c, hlt, h => by
      have hmul : WordSize.bits64.mul cap 2 = cap * 2 :=
        Nat.mod_eq_of_lt (show cap * 2 < 2 ^ 64 by omega)
      rw [growCap, if_pos hlt, hmul] at h
      rcases Nat.lt_or_ge (cap * 2) need with hmore | hend
      · have := growCap_bounds hneed hmore h
        omega
      · cases fuel with
        | zero => cases h
        | succ fuel =>
          rw [growCap, if_neg (Nat.not_lt.mpr hend)] at h
          have := Option.some.inj h
          omega

/-- The buffer holds `b`, and lies below the heap pointer. -/
structure Guest.Holds (g : Guest) (b : Bytes) : Prop where
  len : g.pvLen = b.length
  fits : b.length ≤ g.pvCap
  cap_pos : 0 < g.pvCap
  bytes : g.mem.read g.pvBuf b.length = b
  below : g.pvBuf.toNat + g.pvCap ≤ g.heapPtr.toNat

/-- Nothing from the new heap pointer on changes, and no other variable does. -/
structure Guest.Keeps (g g' : Guest) : Prop where
  input : g'.input = { g.input with machine := { g.input.machine with mem := g'.mem } }
  mem : ∀ a : Addr, g'.heapPtr.toNat ≤ a.toNat → g'.mem a = g.mem a
  calls : g'.calls = g.calls

/-- What is stored from the heap pointer on does not disturb the buffer. -/
theorem Guest.Holds.congr {g g' : Guest} {b : Bytes} (h : g.Holds b) (hbuf : g'.pvBuf = g.pvBuf)
    (hlen : g'.pvLen = g.pvLen) (hcap : g'.pvCap = g.pvCap)
    (hheap : g.heapPtr.toNat ≤ g'.heapPtr.toNat)
    (hmem : ∀ a : Addr, a.toNat < g.heapPtr.toNat → g'.mem a = g.mem a) : g'.Holds b := by
  have hbelow := h.below
  have hfits := h.fits
  refine ⟨hlen.trans h.len, hcap ▸ hfits, hcap ▸ h.cap_pos, ?_, by rw [hbuf, hcap]; omega⟩
  rw [hbuf, ← h.bytes, Memory.length_read]
  refine Memory.read_congr fun i hi => hmem _ ?_
  have hlt := g.heapPtr.isLt
  rw [Addr.toNat_at _ (by omega)]
  omega

/-- **Growing the buffer** copies it into a block of the new capacity, which is at least twice
the old one. -/
theorem pvBufGrow_holds {g : Guest} {b : Bytes} {need : ℕ} (h : g.Holds b) (hgrow : g.pvCap < need)
    (hheap : g.heapPtr.toNat + 2 * need ≤ 2 ^ 62) :
    ∃ g', pvBufGrow need g = some g' ∧ g'.Holds b ∧ g.Keeps g' ∧ need ≤ g'.pvCap ∧
      g'.heapPtr.toNat = g.heapPtr.toNat + g'.pvCap ∧ 2 * g.pvCap ≤ g'.pvCap ∧
      g'.pvCap < 2 * need := by
  have hfuel : need ≤ g.pvCap * 2 ^ 64 :=
    calc need ≤ 1 * 2 ^ 64 := by omega
      _ ≤ g.pvCap * 2 ^ 64 := Nat.mul_le_mul_right _ h.cap_pos
  obtain ⟨c, hc, hle, hpos, -⟩ := growCap_spec (by omega) h.cap_pos (by omega) hfuel
  obtain ⟨hdouble, hless⟩ := growCap_bounds (by omega) hgrow hc
  have hfits := h.fits
  have hptr := Addr.toNat_at g.heapPtr (i := c) (by omega)
  have hread : g.mem.read g.pvBuf g.pvLen = b := by
    rw [h.len]
    exact h.bytes
  refine ⟨{ g.write g.heapPtr b with heapPtr := g.heapPtr.at c, pvBuf := g.heapPtr, pvCap := c },
    ?_, ⟨h.len, by dsimp only; omega, hpos, ?_, ?_⟩, ⟨rfl, ?_, rfl⟩, hle, hptr,
    hdouble, hless⟩
  · rw [pvBufGrow, hc]
    exact congrArg (fun bytes => some { g.write g.heapPtr bytes with
      heapPtr := g.heapPtr.at c, pvBuf := g.heapPtr, pvCap := c }) hread
  · exact (Memory.read_write _ _ le_rfl (by omega)).trans (List.take_length ..)
  · dsimp only
    omega
  · intro a ha
    dsimp only at ha
    exact Memory.write_apart _ _ (by omega) (.inr (by omega))

/-- **One append**, whether or not the buffer grows.  It takes nothing of the heap, or a block
of the new capacity. -/
theorem pvBufAppend_holds (data : Bytes) {g : Guest} {b : Bytes} (h : g.Holds b)
    (hheap : g.heapPtr.toNat + 2 * (b.length + data.length) ≤ 2 ^ 62) :
    ∃ g', pvBufAppend data g = some g' ∧ g'.Holds (b ++ data) ∧ g.Keeps g' ∧
      ((g'.heapPtr = g.heapPtr ∧ g'.pvCap = g.pvCap) ∨
        (g'.heapPtr.toNat = g.heapPtr.toNat + g'.pvCap ∧ 2 * g.pvCap ≤ g'.pvCap ∧
          g'.pvCap < 2 * (b.length + data.length))) := by
  have hadd : WordSize.bits64.add g.pvLen data.length = b.length + data.length := by
    rw [h.len]
    exact Nat.mod_eq_of_lt (show _ < 2 ^ 64 by omega)
  have hreserve : ∃ g₁, pvBufReserve (b.length + data.length) g = some g₁ ∧ g₁.Holds b ∧
      g.Keeps g₁ ∧ b.length + data.length ≤ g₁.pvCap ∧
      ((g₁.heapPtr = g.heapPtr ∧ g₁.pvCap = g.pvCap) ∨
        (g₁.heapPtr.toNat = g.heapPtr.toNat + g₁.pvCap ∧ 2 * g.pvCap ≤ g₁.pvCap ∧
          g₁.pvCap < 2 * (b.length + data.length))) := by
    rcases Nat.lt_or_ge g.pvCap (b.length + data.length) with hlt | hge
    · obtain ⟨g₁, hg₁, hholds, hkeeps, hcap, hptr, hdouble, hless⟩ := pvBufGrow_holds h hlt hheap
      exact ⟨g₁, (if_pos hlt).trans hg₁, hholds, hkeeps, hcap, .inr ⟨hptr, hdouble, hless⟩⟩
    · exact ⟨g, if_neg (Nat.not_lt.mpr hge), h, ⟨rfl, fun _ _ => rfl, rfl⟩, hge, .inl ⟨rfl, rfl⟩⟩
  obtain ⟨g₁, hg₁, h₁, hkeeps, hcap, hgrown⟩ := hreserve
  have hbelow := h₁.below
  have hlt := g₁.heapPtr.isLt
  have hend : (g₁.pvBuf.at g₁.pvLen).toNat = g₁.pvBuf.toNat + b.length := by
    rw [h₁.len, Addr.toNat_at _ (by omega)]
  have happend := Memory.read_append g₁.mem g₁.pvBuf (c := data) h₁.bytes (by omega)
  rw [← h₁.len] at happend
  refine ⟨{ g₁.write (g₁.pvBuf.at g₁.pvLen) data with pvLen := b.length + data.length }, ?_,
    ⟨(List.length_append ..).symm, by rw [List.length_append]; exact hcap, h₁.cap_pos, happend,
      hbelow⟩,
    ⟨?_, ?_, hkeeps.calls⟩, hgrown⟩
  · rw [pvBufAppend, hadd, hg₁]
    rfl
  · rw [Guest.write, hkeeps.input]
    rfl
  · intro a ha
    refine Eq.trans ?_ (hkeeps.mem a ha)
    exact Memory.write_apart _ _ (by omega) (.inr (by dsimp only [Guest.write] at ha; omega))

/-! ### The input -/

/-- The first vector is `b`, and fits the input region; no vector is an empty one. -/
structure Stream (m : HintMachine) (b : Bytes) : Prop where
  hints : m.hints.headD [] = b
  inputPtr : m.inputPtr = inputRegionStart
  fits : room b ≤ inputRegionSize.toNat

/-- `b` is in the input region, and `read_input` points to it. -/
structure Buffered (g : GuestInput) (b : Bytes) : Prop where
  read : g.read = true
  length : g.len.toNat = b.length
  bytes : g.machine.mem.read g.ptr b.length = b
  above : 0 < b.length → inputRegionStart.toNat ≤ g.ptr.toNat ∧ g.ptr.toNat + b.length ≤ 2 ^ 64

theorem toNat_inputRegionStart : inputRegionStart.toNat = 2 ^ 37 - 2 ^ 34 := by decide

/-- The first call puts the input into the input region, and leaves what lies below. -/
theorem readInput_of_stream {g : GuestInput} {b : Bytes} (hunread : g.read = false)
    (h : Stream g.machine b) :
    ∃ g', readInput g = some ((g'.ptr, g'.len), g') ∧ Buffered g' b ∧
      ∀ a : Addr, a.toNat < inputRegionStart.toNat → g'.machine.mem a = g.machine.mem a := by
  obtain ⟨hhead, hptr, hfits⟩ := h
  have hsize : inputRegionSize.toNat = 2 ^ 34 := by decide
  have hstart := toNat_inputRegionStart
  have hread : ∃ v m', readVecRaw g.machine = some (v, m') ∧ Buffered ⟨m', v.ptr, v.len, true⟩ b ∧
      ∀ a : Addr, a.toNat < inputRegionStart.toNat → m'.mem a = g.machine.mem a := by
    cases hhints : g.machine.hints with
    | nil =>
      rw [hhints] at hhead
      obtain rfl : [] = b := hhead
      exact ⟨_, _, readVecRaw_nil hhints,
        ⟨rfl, rfl, rfl, fun hpos => absurd hpos (Nat.lt_irrefl 0)⟩, fun _ _ => rfl⟩
    | cons v hints =>
      rw [hhints] at hhead
      obtain rfl : v = b := hhead
      obtain ⟨hle, -⟩ := length_le_room v
      have hlen : (BitVec.ofNat 64 v.length).toNat = v.length := by
        rw [BitVec.toNat_ofNat, Nat.mod_eq_of_lt (by omega)]
      refine ⟨_, _, readVecRaw_cons hhints (by omega) (by rw [hptr]; decide),
        ⟨rfl, hlen, ?_, ?_⟩, ?_⟩
      · rw [Memory.read_write _ _ (by rw [length_padded]; exact hle)
          (by rw [length_padded]; omega), takeD_eq_append hle, List.take_left]
      · intro _
        dsimp only
        rw [hptr]
        omega
      · intro a ha
        rw [hptr]
        exact Memory.write_apart _ _ (by rw [length_padded]; omega) (.inl ha)
  obtain ⟨v, m', hrun, hbuffered, hframe⟩ := hread
  refine ⟨⟨m', v.ptr, v.len, true⟩, ?_, hbuffered, hframe⟩
  rw [readInput, if_neg (by rw [hunread]; exact Bool.false_ne_true)]
  simp only [Option.bind_eq_bind, Option.bind_some, hrun]
  rfl

/-- The input stays when nothing is stored in the input region. -/
theorem Buffered.congr {g : GuestInput} {b : Bytes} (h : Buffered g b) {mem : Memory}
    (hmem : ∀ a : Addr, inputRegionStart.toNat ≤ a.toNat → mem a = g.machine.mem a) :
    Buffered { g with machine := { g.machine with mem } } b := by
  refine ⟨h.read, h.length, ?_, h.above⟩
  rcases Nat.eq_zero_or_pos b.length with hzero | hpos
  · obtain rfl := List.eq_nil_of_length_eq_zero hzero
    rfl
  · obtain ⟨habove, hend⟩ := h.above hpos
    have hread : mem.read g.ptr b.length = g.machine.mem.read g.ptr b.length := by
      refine Memory.read_congr fun i hi => hmem _ ?_
      rw [Addr.toNat_at _ (by omega)]
      omega
    exact hread.trans h.bytes

/-! ### The interface -/

/-- The input is in the stream or in the input region. -/
def Supplies (g : GuestInput) (b : Bytes) : Prop :=
  (g.read = false ∧ Stream g.machine b) ∨ Buffered g b

theorem Supplies.congr {g : GuestInput} {b : Bytes} (h : Supplies g b) {mem : Memory}
    (hmem : ∀ a : Addr, inputRegionStart.toNat ≤ a.toNat → mem a = g.machine.mem a) :
    Supplies { g with machine := { g.machine with mem } } b := by
  rcases h with ⟨hunread, hstream⟩ | hbuffered
  · exact .inl ⟨hunread, hstream.hints, hstream.inputPtr, hstream.fits⟩
  · exact .inr (hbuffered.congr hmem)

/-- The runtime provides `s`: the input is in the stream or in the input region, the output is
in the buffer, and what is to come fits the heap between the two. -/
structure Provides (limit : ℕ) (g : Guest) (s : Io) : Prop where
  input : Supplies g.input s.input
  output : g.Holds s.output
  room : g.heapPtr.toNat + s.room ≤ inputRegionStart.toNat
  /-- The buffers to come have at most `4 * limit` bytes together: each is at least twice as
  large as the one before it. -/
  growth : g.heapPtr.toNat + s.room + 4 * limit ≤ inputRegionStart.toNat + 2 * g.pvCap
  calls : ∃ outputs : List Bytes, g.calls = outputs.map (Ecall.write sp1FdPublicValues) ∧
    outputs.flatten = s.output

/-- **The runtime implements the io-interface**: the input is read once and stays what it
is, and the output grows, whatever is allocated and stored in between. -/
theorem implements {limit : ℕ} (hlimit : limit ≤ 2 ^ 60) :
    Implements io (ioStandard limit) (Provides limit) := by
  intro call g s reply s' h hstep
  have hstart := toNat_inputRegionStart
  have hroom := h.room
  have hgrowth := h.growth
  cases call with
  | readInput =>
    obtain ⟨rfl, rfl⟩ := Prod.mk.inj (Option.some.inj hstep)
    have hbuffered : ∃ input, readInput g.input = some ((input.ptr, input.len), input) ∧
        Buffered input s.input ∧ ∀ a : Addr, a.toNat < inputRegionStart.toNat →
          input.machine.mem a = g.mem a := by
      rcases h.input with ⟨hunread, hstream⟩ | hbuffered
      · exact readInput_of_stream hunread hstream
      · refine ⟨g.input, ?_, hbuffered, fun _ _ => rfl⟩
        rw [readInput, if_pos hbuffered.read]
        rfl
    obtain ⟨input, hread, hb, hframe⟩ := hbuffered
    have hbytes := hb.bytes
    rw [← hb.length] at hbytes
    refine ⟨{ g with input }, Option.bind_eq_some_iff.mpr ⟨_, hread, ?_⟩, .inr hb,
      h.output.congr rfl rfl rfl le_rfl fun a ha => hframe a (by omega), hroom, hgrowth, h.calls⟩
    exact congrArg (fun b => some (b, { g with input })) hbytes
  | writeOutput output =>
    obtain ⟨hlen, hs⟩ := Option.ite_none_right_eq_some.mp hstep
    obtain ⟨-, rfl⟩ := Prod.mk.inj (Option.some.inj hs)
    -- The call to the host changes no memory.
    have hcalled : Guest.Holds { g with calls := g.calls ++ [.write sp1FdPublicValues output] }
        s.output := ⟨h.output.len, h.output.fits, h.output.cap_pos, h.output.bytes, h.output.below⟩
    obtain ⟨g', hg', hholds, hkeeps, hgrown⟩ := pvBufAppend_holds output hcalled
      (by dsimp only; omega)
    dsimp only at hgrown
    obtain ⟨outputs, hcalls, hflat⟩ := h.calls
    have hptr : g'.heapPtr.toNat + s.room ≤ inputRegionStart.toNat := by
      rcases hgrown with ⟨hsame, -⟩ | hgrown
      · rwa [hsame]
      · omega
    refine ⟨g', ?_, ?_, hholds, hptr, ?_, outputs ++ [output], ?_, ?_⟩
    · refine Option.bind_eq_some_iff.mpr ⟨g', ?_, rfl⟩
      rw [syscallWrite, if_pos rfl]
      exact hg'
    · rw [hkeeps.input]
      exact h.input.congr fun a ha => hkeeps.mem a (by omega)
    · rcases hgrown with ⟨hsame, hcap⟩ | hgrown
      · dsimp only
        rw [hsame, hcap]
        omega
      · dsimp only
        omega
    · rw [hkeeps.calls, List.map_append, ← hcalls]
      rfl
    · rw [List.flatten_append, hflat, List.flatten_singleton]
  | allocate block =>
    obtain ⟨hfit, hs⟩ := Option.ite_none_right_eq_some.mp hstep
    obtain ⟨-, rfl⟩ := Prod.mk.inj (Option.some.inj hs)
    have hptr := Addr.toNat_at g.heapPtr (i := block.length) (by omega)
    refine ⟨_, rfl, ?_, ?_, ?_, ?_, h.calls⟩
    · apply h.input.congr
      intro a ha
      exact Memory.write_apart _ _ (by omega) (.inr (by omega))
    · refine h.output.congr rfl rfl rfl (by dsimp only; omega) fun a ha => ?_
      exact Memory.write_apart _ _ (by omega) (.inl ha)
    · dsimp only
      omega
    · dsimp only [Guest.write]
      omega

/-- **What SP1 sees of a program**: writes of its output, and a halt on a buffer that holds
the output, with its exit code. -/
theorem start_eq {sha256 : Bytes → Bytes32} {program : Client RuntimeCall.Reply ℤ}
    {m : HintMachine} {heapStart : Addr} {input : Bytes} {room limit : ℕ} {rc : ℤ} {s : Io}
    (hstream : Stream m input)
    (hroom : heapStart.toNat + 7 + pvBufInitialCap + room + 4 * limit ≤ inputRegionStart.toNat)
    (hrun : program.run (ioStandard limit) ⟨input, [], room⟩ = some (rc, s)) :
    ∃ (outputs : List Bytes) (pv : PvBuf), outputs.flatten = s.output ∧
      pv.buf.take pv.len = s.output ∧
      start sha256 program m heapStart = some (outputs.map (Ecall.write sp1FdPublicValues) ++
        syscallHalt sha256 (.ofBitVec (.ofInt 8 rc)) pv) := by
  have hstart := toNat_inputRegionStart
  have hheap := @toNat_roundUp heapStart (by omega)
  have hcap : pvBufInitialCap = 4096 := rfl
  have hptr := Addr.toNat_at ((heapStart + 7) &&& ~~~7) (i := pvBufInitialCap) (by omega)
  have hprovides : Provides limit
      (pvBufInit { input := { machine := m }, heapPtr := (heapStart + 7) &&& ~~~7 })
      ⟨input, [], room⟩ := by
    refine ⟨.inl ⟨rfl, hstream⟩, ⟨rfl, Nat.zero_le _, of_decide_eq_true rfl, rfl, ?_⟩, ?_, ?_,
      ⟨[], rfl, rfl⟩⟩
    all_goals dsimp only [pvBufInit]; omega
  obtain ⟨g, hg, hend⟩ := Implements.run (implements (by omega)) program hprovides hrun
  obtain ⟨outputs, hcalls, hflat⟩ := hend.calls
  have hheld := hend.output.bytes
  rw [← hend.output.len] at hheld
  refine ⟨outputs, g.pv, hflat, ?_, ?_⟩
  · exact (List.take_of_length_le (Memory.length_read ..).le).trans hheld
  · unfold start
    simp only [hg, Option.bind_eq_bind, Option.bind_some, hcalls]
    rfl

end StatelessGuest.Sp1
