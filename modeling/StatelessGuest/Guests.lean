import StatelessGuest.Canonical
import StatelessGuest.OpenVm.Start
import StatelessGuest.Sp1.Start
import StatelessGuest.Zisk.Start

/-!
# The guest on the three targets

Each of the three runtimes calls `main` over the same io-interface and ends with its exit
code.  A program that keeps to the interface therefore has the same result on all of them,
and so has the guest on the encoding of a value.

## Main definitions

* `Launch` — the three machines, loaded with an input.
* `Halts` — what the three targets show of an output and an exit code.

## Main results

* `runtimes_agree` — **a program has the same result on the three targets.**
* `guests_agree` — **so has the guest, whatever the input**, where it is decoded inside its
  containers.
* `guests_publish` — **what they show on the encoding of a value.**
-/

namespace StatelessGuest

open Ssz Refine

/-- The limit on the output that fits the buffers of all targets. -/
def outputLimit : ℕ := OpenVm.outputCap

/-! ### The memory maps -/

/-- The `text-segment` of SP1's linker script. -/
def Sp1.textSegment : ℕ := 0x79000000

/-- The size of the input region that begins at `ZISK_INPUT_ADDR`. -/
def Zisk.inputSize : ℕ := 128 * 1024 * 1024

/-- `AVAILABLE_MEM`, where the writable sections begin. -/
def Zisk.availableMem : ℕ := 0xa0030000

/-- What the linker script of ZisK leaves for the stack, between `_end` and `_heap_start`. -/
def Zisk.stackSize : ℕ := 0x40000

/-- `END_OF_RAM` -/
def Zisk.endOfRam : ℕ := 0xC0000000

/-- `GUEST_MIN_MEM` -/
def OpenVm.guestMinMem : ℕ := 0x00000400

/-- `STACK_TOP` -/
def OpenVm.stackTop : ℕ := 0x00200400

/-- `TEXT_START` -/
def OpenVm.textStart : ℕ := 0x00200800

/-- `GUEST_MAX_MEM` -/
def OpenVm.guestMaxMem : ℕ := 0x20000000

/-- The three machines before `__start`, loaded with an input and laid out as their linker
scripts say, with `room` bytes of heap besides what the runtimes take. -/
structure Launch (input : Bytes) (room : ℕ) where
  sp1 : Sp1.HintMachine
  sp1HeapStart : Riscv64.Addr
  sp1_stream : Sp1.Stream sp1 input
  sp1_text : Sp1.textSegment ≤ sp1HeapStart.toNat
  /-- The buffers of the public values take at most `4 * outputLimit` bytes besides the first,
  and the heap ends at `0x1C00000000`. -/
  sp1_room : sp1HeapStart.toNat + 7 + pvBufInitialCap + room + 4 * outputLimit ≤
    Sp1.inputRegionStart.toNat
  zisk : Riscv64.Memory
  ziskOutputBuf : Riscv64.Addr
  ziskHeapStart : Riscv64.Addr
  zisk_record : Zisk.Record zisk input
  /-- The record, behind its header and its length. -/
  zisk_input : 16 + input.length ≤ Zisk.inputSize
  zisk_ram : Zisk.availableMem ≤ ziskOutputBuf.toNat
  zisk_stack : ziskOutputBuf.toNat + Zisk.outputCap + Zisk.stackSize ≤ ziskHeapStart.toNat
  zisk_room : ziskHeapStart.toNat + 7 + room ≤ Zisk.endOfRam
  /-- The address of `scratch` on the stack of OpenVM. -/
  scratch : Riscv.Addr
  openVm : HintMachine
  openVmOutputBuf : Riscv.Addr
  openVmHeapStart : Riscv.Addr
  openVm_stream : OpenVm.Stream openVm input
  openVm_stack : OpenVm.guestMinMem ≤ scratch.toNat ∧ scratch.toNat + 4 ≤ OpenVm.stackTop
  openVm_text : OpenVm.textStart ≤ openVmOutputBuf.toNat
  openVm_bss : openVmOutputBuf.toNat + OpenVm.outputCap ≤ openVmHeapStart.toNat
  /-- The input is stored in whole words. -/
  openVm_room : openVmHeapStart.toNat + 3 + 4 * ((input.length + 3) / 4) + room ≤
    OpenVm.guestMaxMem

/-- What the maps hold is below `2 ^ 29` bytes. -/
theorem Launch.length_lt {input : Bytes} {room : ℕ} (l : Launch input room) :
    input.length < 2 ^ 29 := by
  have hroom := l.openVm_room
  have hmax : OpenVm.guestMaxMem = 2 ^ 29 := rfl
  have hpos : 0 < OpenVm.textStart := by decide
  have htext := l.openVm_text
  have hbss := l.openVm_bss
  omega

section

variable {input : Bytes} (hlen : input.length < 2 ^ 26)

include hlen

theorem stream_sp1Loaded : Sp1.Stream ⟨fun _ => 0, Sp1.inputRegionStart, [input]⟩ input := by
  have hsize : Sp1.inputRegionSize.toNat = 2 ^ 34 := by decide
  refine ⟨rfl, rfl, ?_⟩
  rw [hsize, Sp1.room]
  omega

theorem record_ziskLoaded : Zisk.Record
    (Riscv64.Memory.write (fun _ => 0) (Zisk.ziskInputAddr + Zisk.ziskInputHeader)
      (leBytes 8 input.length ++ input)) input :=
  Zisk.record_write _ (by omega)

theorem ziskLoaded_input : 16 + input.length ≤ Zisk.inputSize := by
  have hsize : Zisk.inputSize = 2 ^ 27 := rfl
  omega

theorem openVmLoaded_room : (0x00300000 : Riscv.Addr).toNat + 3 + 4 * ((input.length + 3) / 4) +
    2 ^ 26 ≤ OpenVm.guestMaxMem := by
  have hstart : (0x00300000 : Riscv.Addr).toNat = 0x00300000 := rfl
  have hmax : OpenVm.guestMaxMem = 2 ^ 29 := rfl
  omega

end

theorem sp1Loaded_text : Sp1.textSegment ≤ (0x79100000 : Riscv64.Addr).toNat := by decide

theorem sp1Loaded_room : (0x79100000 : Riscv64.Addr).toNat + 7 + pvBufInitialCap + 2 ^ 26 +
    4 * outputLimit ≤ Sp1.inputRegionStart.toNat := by
  decide

theorem ziskLoaded_ram : Zisk.availableMem ≤ (0xa0030000 : Riscv64.Addr).toNat := by decide

theorem ziskLoaded_stack : (0xa0030000 : Riscv64.Addr).toNat + Zisk.outputCap + Zisk.stackSize ≤
    (0xa0080000 : Riscv64.Addr).toNat := by
  decide

theorem ziskLoaded_room : (0xa0080000 : Riscv64.Addr).toNat + 7 + 2 ^ 26 ≤ Zisk.endOfRam := by
  decide

theorem stream_openVmLoaded (input : Bytes) : OpenVm.Stream ⟨fun _ => 0, 0,
    [leBytes 4 input.length ++ (input.takeD (4 * ((input.length + 3) / 4)) 0 ++ [])], [], []⟩
      input := by
  refine ⟨_, [], [], List.takeD_length .., ?_, rfl⟩
  rw [takeD_eq_append (by omega), List.take_left]

theorem openVmLoaded_stack : OpenVm.guestMinMem ≤ (0x00200000 : Riscv.Addr).toNat ∧
    (0x00200000 : Riscv.Addr).toNat + 4 ≤ OpenVm.stackTop := by
  decide

theorem openVmLoaded_text : OpenVm.textStart ≤ (0x00280000 : Riscv.Addr).toNat := by decide

theorem openVmLoaded_bss : (0x00280000 : Riscv.Addr).toNat + OpenVm.outputCap ≤
    (0x00300000 : Riscv.Addr).toNat := by
  decide

/-- Every input of moderate size can be loaded. -/
def Launch.ofInput (input : Bytes) (hlen : input.length < 2 ^ 26) : Launch input (2 ^ 26) where
  sp1 := ⟨fun _ => 0, Sp1.inputRegionStart, [input]⟩
  sp1HeapStart := 0x79100000
  sp1_stream := stream_sp1Loaded hlen
  sp1_text := sp1Loaded_text
  sp1_room := sp1Loaded_room
  zisk := Riscv64.Memory.write (fun _ => 0) (Zisk.ziskInputAddr + Zisk.ziskInputHeader)
    (leBytes 8 input.length ++ input)
  ziskOutputBuf := 0xa0030000
  ziskHeapStart := 0xa0080000
  zisk_record := record_ziskLoaded hlen
  zisk_input := ziskLoaded_input hlen
  zisk_ram := ziskLoaded_ram
  zisk_stack := ziskLoaded_stack
  zisk_room := ziskLoaded_room
  scratch := 0x00200000
  openVm := ⟨fun _ => 0, 0,
    [leBytes 4 input.length ++ (input.takeD (4 * ((input.length + 3) / 4)) 0 ++ [])], [], []⟩
  openVmOutputBuf := 0x00280000
  openVmHeapStart := 0x00300000
  openVm_stream := stream_openVmLoaded input
  openVm_stack := openVmLoaded_stack
  openVm_text := openVmLoaded_text
  openVm_bss := openVmLoaded_bss
  openVm_room := openVmLoaded_room hlen

/-! ### The targets -/

/-- SP1 sees writes of `output` and then a halt with the hash of it, ZisK shows it in its
window, and OpenVM in the words that it reveals. -/
structure Halts (sha256 : Bytes → Bytes32) (output : Bytes) (rc : ℤ) (calls : Option (List Ecall))
    (zisk : Option Zisk.Halted) (openVm : Option OpenVm.Halted) : Prop where
  sp1 : ∃ (outputs : List Bytes) (halt : List Ecall), outputs.flatten = output ∧
    calls = some (outputs.map (.write sp1FdPublicValues) ++ halt) ∧
    SlotsHold (committed halt) (sha256 output).toList ∧
    halt.getLast? = some (.halt (.ofBitVec (.ofInt 8 rc)))
  zisk : ∃ writes, zisk = some ⟨writes, .ofInt 8 rc⟩ ∧ InWindow writes output
  openVm : ∃ words, openVm = some ⟨words, if rc = 0 then 0 else 1⟩ ∧ SlotsHold words output

/-- A larger limit changes nothing for what keeps to the smaller one. -/
theorem ioStandard_mono {limit limit' : ℕ} (h : limit ≤ limit') :
    Implements (ioStandard limit') (ioStandard limit) Eq := by
  rintro call io _ reply io' rfl hstep
  refine ⟨io', ?_, rfl⟩
  cases call with
  | readInput => exact hstep
  | writeOutput output =>
    obtain ⟨hlen, hio⟩ := Option.ite_none_right_eq_some.mp hstep
    exact (if_pos (hlen.trans h)).trans hio
  | allocate block => exact hstep

theorem getLast?_syscallHalt (sha256 : Bytes → Bytes32) (exitCode : UInt8) (pv : PvBuf) :
    (syscallHalt sha256 exitCode pv).getLast? = some (.halt exitCode) := by
  unfold syscallHalt
  exact List.getLast?_concat ..

/-- The output of a run stays within the limit. -/
theorem length_output_le {limit : ℕ} {program : Client RuntimeCall.Reply ℤ} {io io' : Io} {rc : ℤ}
    (h : io.output.length ≤ limit) (hrun : program.run (ioStandard limit) io = some (rc, io')) :
    io'.output.length ≤ limit := by
  refine run_invariant (I := fun io => io.output.length ≤ limit) ?_ program h hrun
  intro call io reply io' hle hstep
  cases call with
  | readInput =>
    obtain ⟨-, rfl⟩ := Prod.mk.inj (Option.some.inj hstep)
    exact hle
  | writeOutput output =>
    obtain ⟨hlen, hio⟩ := Option.ite_none_right_eq_some.mp hstep
    obtain ⟨-, rfl⟩ := Prod.mk.inj (Option.some.inj hio)
    rwa [List.length_append]
  | allocate block =>
    obtain ⟨-, hio⟩ := Option.ite_none_right_eq_some.mp hstep
    obtain ⟨-, rfl⟩ := Prod.mk.inj (Option.some.inj hio)
    exact hle

section

variable {input : Bytes} {room : ℕ} (l : Launch input room) (sha256 : Bytes → Bytes32)
variable {program : Client RuntimeCall.Reply ℤ} {rc : ℤ} {io : Io}

/-- A program that runs on the interface, on SP1. -/
theorem sp1_of_run
    (hrun : program.run (ioStandard outputLimit) ⟨input, [], room⟩ = some (rc, io)) :
    ∃ (outputs : List Bytes) (halt : List Ecall), outputs.flatten = io.output ∧
      Sp1.start sha256 program l.sp1 l.sp1HeapStart =
        some (outputs.map (.write sp1FdPublicValues) ++ halt) ∧
      SlotsHold (committed halt) (sha256 io.output).toList ∧
      halt.getLast? = some (.halt (.ofBitVec (.ofInt 8 rc))) := by
  obtain ⟨outputs, pv, hflat, hholds, hstart⟩ := Sp1.start_eq l.sp1_stream l.sp1_room hrun
  refine ⟨outputs, _, hflat, hstart, ?_, getLast?_syscallHalt ..⟩
  rw [committed_syscallHalt, hholds]
  exact slotsHold_packed _

/-- The program on ZisK. -/
theorem zisk_of_run
    (hrun : program.run (ioStandard outputLimit) ⟨input, [], room⟩ = some (rc, io)) :
    ∃ writes, Zisk.start l.ziskOutputBuf program l.zisk l.ziskHeapStart =
        some ⟨writes, .ofInt 8 rc⟩ ∧ InWindow writes io.output := by
  have hshort := length_output_le (Nat.zero_le _) hrun
  obtain ⟨_, hzisk, rfl⟩ := Implements.run
    (ioStandard_mono (by decide : outputLimit ≤ Zisk.outputCap)) program rfl hrun
  have hinput := l.zisk_input
  have hram := l.zisk_ram
  have hstack := l.zisk_stack
  have hroom := l.zisk_room
  -- The input region lies below the RAM.
  have hregion : 0x40000000 + Zisk.inputSize ≤ Zisk.availableMem := by decide
  have hend : Zisk.endOfRam < 2 ^ 64 := by decide
  have hstart := Zisk.start_eq l.zisk_record (show _ ≤ l.ziskOutputBuf.toNat by omega)
    (show _ ≤ l.ziskHeapStart.toNat by omega) (by omega) hzisk
  exact ⟨_, hstart, (packed_inWindow _).mpr hshort, publishedBytes_packed _⟩

/-- The program on OpenVM. -/
theorem openVm_of_run
    (hrun : program.run (ioStandard outputLimit) ⟨input, [], room⟩ = some (rc, io)) :
    ∃ words, OpenVm.start l.scratch l.openVmOutputBuf program l.openVm l.openVmHeapStart =
        some ⟨words, if rc = 0 then 0 else 1⟩ ∧ SlotsHold words io.output := by
  obtain ⟨-, hscratch⟩ := l.openVm_stack
  have htext := l.openVm_text
  have hroom := l.openVm_room
  have hstack : OpenVm.stackTop ≤ OpenVm.textStart := by decide
  have hmax : OpenVm.guestMaxMem < 2 ^ 32 := by decide
  have hbelow : l.scratch.toNat + 4 ≤ l.openVmOutputBuf.toNat := by omega
  have hstart := OpenVm.start_eq l.openVm_stream hbelow l.openVm_bss (by omega) hrun
  exact ⟨_, hstart, slotsHold_packed _⟩

end

section

variable (L : Library) {data : Bytes} {room : ℕ} (l : Launch data room)
variable {blocks₁ blocks₂ blocks₃ : Bytes → List Bytes}

/-- What the guest publishes on both word sizes, the three targets show. -/
theorem halts_of_publish {output : Bytes} (hpublish : ∀ w, publish w L data = .ok output)
    (hshort : output.length ≤ outputLimit) (hblocks₁ : (blocks₁ data).flatten.length ≤ room)
    (hblocks₂ : (blocks₂ data).flatten.length ≤ room)
    (hblocks₃ : (blocks₃ data).flatten.length ≤ room) :
    Halts L.sha256 output 0
      (Sp1.start L.sha256 (main .bits64 L blocks₁) l.sp1 l.sp1HeapStart)
      (Zisk.start l.ziskOutputBuf (main .bits64 L blocks₂) l.zisk l.ziskHeapStart)
      (OpenVm.start l.scratch l.openVmOutputBuf (main .bits32 L blocks₃) l.openVm
        l.openVmHeapStart) := by
  have hlimit : ([] : Bytes).length + output.length ≤ outputLimit := by
    rw [List.length_nil]
    omega
  have hrun₁ := @run_main .bits64 L blocks₁ _ ⟨data, [], room⟩ _ (hpublish _) hblocks₁ hlimit
  have hrun₂ := @run_main .bits64 L blocks₂ _ ⟨data, [], room⟩ _ (hpublish _) hblocks₂ hlimit
  have hrun₃ := @run_main .bits32 L blocks₃ _ ⟨data, [], room⟩ _ (hpublish _) hblocks₃ hlimit
  exact ⟨sp1_of_run l L.sha256 hrun₁, zisk_of_run l hrun₂, openVm_of_run l hrun₃⟩

/-- **The guest has the same result on the three targets**, on every input that is loaded and
that is decoded inside its containers, well formed or not: they show what is published on
either word size, the default failure where decoding fails, and they end with exit code 0. -/
theorem guests_agree (hrecords : L.RecordsChanges) (hconf : DecodesInside data)
    (hblocks₁ : (blocks₁ data).flatten.length ≤ room)
    (hblocks₂ : (blocks₂ data).flatten.length ≤ room)
    (hblocks₃ : (blocks₃ data).flatten.length ≤ room) :
    ∃ root ok config,
      (∀ w, publish w L data = .ok (publicValues root ok config)) ∧
      Halts L.sha256 (publicValues root ok config) 0
        (Sp1.start L.sha256 (main .bits64 L blocks₁) l.sp1 l.sp1HeapStart)
        (Zisk.start l.ziskOutputBuf (main .bits64 L blocks₂) l.zisk l.ziskHeapStart)
        (OpenVm.start l.scratch l.openVmOutputBuf (main .bits32 L blocks₃) l.openVm
          l.openVmHeapStart) ∧
      (decodeInput .bits32 data = none →
        root = zeroVec 32 ∧ ok = false ∧ config = defaultChainConfigOf (publishedSchema data)) := by
  have hlen := l.length_lt
  obtain ⟨root, ok, config, hconfig, hpublish, hdefault⟩ :=
    publish_of_confined hrecords (by rw [List.length_drop]; omega) hconf
  have hcap : outputLimit = 256 := rfl
  exact ⟨root, ok, config, hpublish, halts_of_publish L l hpublish
    (by rw [length_publicValues]; omega) hblocks₁ hblocks₂ hblocks₃, hdefault⟩

end

/-- An input with a byte behind its last key. -/
def oddKeysData : Bytes := amsterdamData ++ [7]

theorem decodesInside_amsterdamData : DecodesInside amsterdamData := by
  have hschema : schemaOf amsterdamData = some .amsterdam01 := by decide +kernel
  intro schema h
  obtain rfl := Option.some.inj (hschema.symm.trans h)
  decide +kernel

theorem decodesInside_oddKeysData : DecodesInside oddKeysData := by
  have hschema : schemaOf oddKeysData = some .amsterdam01 := by decide +kernel
  intro schema h
  obtain rfl := Option.some.inj (hschema.symm.trans h)
  decide +kernel

theorem length_amsterdamData : amsterdamData.length < 2 ^ 26 := by decide +kernel

theorem length_oddKeysData : oddKeysData.length < 2 ^ 26 := by decide +kernel

theorem recordsChanges_sample : sampleLibrary.RecordsChanges := fun _ _ _ _ => ⟨rfl, rfl⟩

theorem decodeInput_oddKeysData : decodeInput .bits32 oddKeysData = none := by
  have hnone : (decodeInput .bits32 oddKeysData).isNone = true := by decide +kernel
  exact Option.isNone_iff_eq_none.mp hnone

/-- The byte behind the root. -/
theorem getElem?_publicValues (root : Bytes32) (ok : Bool) (config : Bytes) :
    (publicValues root ok config)[32]? = some (if ok then 1 else 0) := by
  have hroot : root.toList.length = 32 := root.2
  rw [publicValues, List.append_assoc, List.append_assoc,
    List.getElem?_append_right (by rw [hroot]), hroot]
  rfl

theorem publish_amsterdamData {root : Bytes32} {ok : Bool} {config : Bytes}
    (h : publish .bits64 sampleLibrary amsterdamData = .ok (publicValues root ok config)) :
    ok = true := by
  have hbyte : (publish .bits64 sampleLibrary amsterdamData).toOption.bind (fun b => b[32]?) =
      some 1 := by
    decide +kernel
  rw [h, Except.toOption, Option.bind_some, getElem?_publicValues] at hbyte
  cases ok with
  | true => rfl
  | false => exact absurd (Option.some.inj hbyte) (by decide)

/-- An input that is decoded, and one that the decoder gives up on after the rest of it. -/
theorem guests_agree_amsterdamData :
    (∃ root config writes,
      Zisk.start 0xa0030000 (main .bits64 sampleLibrary fun _ => [[1, 2, 3]])
          (Launch.ofInput _ length_amsterdamData).zisk 0xa0080000 = some ⟨writes, 0⟩ ∧
        InWindow writes (publicValues root true config)) ∧
      ∃ writes, Zisk.start 0xa0030000 (main .bits64 sampleLibrary fun _ => [])
          (Launch.ofInput _ length_oddKeysData).zisk 0xa0080000 = some ⟨writes, 0⟩ ∧
        InWindow writes (publicValues (zeroVec 32) false
          (defaultChainConfigOf (publishedSchema oddKeysData))) := by
  constructor
  · obtain ⟨root, ok, config, hpublish, hhalts, -⟩ := @guests_agree sampleLibrary _ _
      (Launch.ofInput _ length_amsterdamData) (fun _ => [[1, 2, 3]]) (fun _ => [[1, 2, 3]])
      (fun _ => [[1, 2, 3]]) recordsChanges_sample decodesInside_amsterdamData (by decide)
      (by decide) (by decide)
    have hok := publish_amsterdamData (hpublish .bits64)
    rw [hok] at hhalts
    exact ⟨root, config, hhalts.zisk⟩
  · obtain ⟨root, ok, config, -, hhalts, hdefault⟩ := @guests_agree sampleLibrary _ _
      (Launch.ofInput _ length_oddKeysData) (fun _ => []) (fun _ => []) (fun _ => [])
      recordsChanges_sample decodesInside_oddKeysData (Nat.zero_le _) (Nat.zero_le _)
      (Nat.zero_le _)
    obtain ⟨hroot, hok, hconfig⟩ := hdefault decodeInput_oddKeysData
    rw [hroot, hok, hconfig] at hhalts
    exact hhalts.zisk

/-- **On the encoding of a value, the three targets show** the root of its request, whether
what it proposes is valid, and its chain config, and they end with exit code 0 whatever the
verdict.  The heap has room for what the guest allocates and fills on each of them; the library
reads numbers as they are written, keeps the rules of headers and tracks the state, and the
witness begins with a header and has no empty one. -/
theorem guests_publish (L : Library) (hload : L.LoadsLittleEndian)
    {encode : BlockHeader L.HeaderRest → Bytes} (hr : HeaderRules L encode) {schema : InputSchema}
    (x : CanonicalInput schema) (c : Commitment) (ha : x.proposal.Anchored L)
    (ht : x.proposal.Tracked L c) {room : ℕ} (l : Launch x.bytes room)
    {blocks₁ blocks₂ blocks₃ : Bytes → List Bytes}
    (hblocks₁ : (blocks₁ x.bytes).flatten.length ≤ room)
    (hblocks₂ : (blocks₂ x.bytes).flatten.length ≤ room)
    (hblocks₃ : (blocks₃ x.bytes).flatten.length ≤ room) :
    ∃ ok, (ok = true ↔ x.proposal.Valid L c) ∧
      Halts L.sha256 (publicValues (x.root L.sha256) ok x.configBytes) 0
        (Sp1.start L.sha256 (main .bits64 L blocks₁) l.sp1 l.sp1HeapStart)
        (Zisk.start l.ziskOutputBuf (main .bits64 L blocks₂) l.zisk l.ziskHeapStart)
        (OpenVm.start l.scratch l.openVmOutputBuf (main .bits32 L blocks₃) l.openVm
          l.openVmHeapStart) := by
  obtain ⟨ok, h64, hvalid⟩ := publish_canonical hload hr .bits64 x ha ht
  obtain ⟨ok', h32, hvalid'⟩ := publish_canonical hload hr .bits32 x ha ht
  obtain rfl : ok = ok' := Bool.eq_iff_iff.mpr (hvalid.trans hvalid'.symm)
  have hpublish : ∀ w, publish w L x.bytes =
      .ok (publicValues (x.root L.sha256) ok x.configBytes) := by
    intro w
    cases w with
    | bits32 => exact h32
    | bits64 => exact h64
  have hconfig := length_chainConfig
    ((canonical_chainConfig_iff schema x.configBytes).mpr ⟨_, x.config, rfl⟩)
  have hcap : outputLimit = 256 := rfl
  exact ⟨ok, hvalid, halts_of_publish L l hpublish (by rw [length_publicValues]; omega)
    hblocks₁ hblocks₂ hblocks₃⟩

theorem length_childCanonical (updated : Bool) :
    (childCanonical updated).bytes.length < 2 ^ 26 := by
  cases updated <;> decide +kernel

/-- A valid child, and one that names the wrong root. -/
theorem guests_publish_child :
    (∃ writes, Zisk.start 0xa0030000 (main .bits64 childLibrary fun _ => [[1, 2, 3]])
          (Launch.ofInput _ (length_childCanonical true)).zisk 0xa0080000 = some ⟨writes, 0⟩ ∧
        InWindow writes (publicValues ((childCanonical true).root childLibrary.sha256) true
          (childCanonical true).configBytes)) ∧
      ∃ words, OpenVm.start 0x00200000 0x00280000 (main .bits32 childLibrary fun _ => [])
          (Launch.ofInput _ (length_childCanonical false)).openVm 0x00300000 = some ⟨words, 0⟩ ∧
        SlotsHold words (publicValues ((childCanonical false).root childLibrary.sha256) false
          (childCanonical false).configBytes) := by
  constructor
  · obtain ⟨ok, hvalid, hhalts⟩ := @guests_publish childLibrary toNat_leWord _ headerRules_child _
      (childCanonical true) childCommitment (anchored_child true) (tracked_child true) _
      (Launch.ofInput _ (length_childCanonical true)) (fun _ => []) (fun _ => [[1, 2, 3]])
      (fun _ => []) (by decide) (by decide) (by decide)
    obtain rfl := hvalid.mpr valid_child
    exact hhalts.zisk
  · obtain ⟨ok, hvalid, hhalts⟩ := @guests_publish childLibrary toNat_leWord _ headerRules_child _
      (childCanonical false) childCommitment (anchored_child false) (tracked_child false) _
      (Launch.ofInput _ (length_childCanonical false)) (fun _ => []) (fun _ => [[1, 2, 3]])
      (fun _ => []) (by decide) (by decide) (by decide)
    obtain rfl : ok = false := Bool.eq_false_iff.mpr fun hok => not_valid_child (hvalid.mp hok)
    exact hhalts.openVm

end StatelessGuest
