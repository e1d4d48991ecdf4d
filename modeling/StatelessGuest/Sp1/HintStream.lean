import StatelessGuest.Riscv.Buffer64
import StatelessGuest.Ssz.Bytes

/-!
# The input of SP1

SP1 hands the input over as a stream of vectors.  `read_vec_raw` asks for the length of the
next one and has it written to the dedicated input region, from which it allocates by
moving a pointer; `read_input` does so once, and keeps the buffer.

## Main definitions

* `HintMachine` — the memory, the input pointer, and the vectors that are left.
* `hintLen`, `hintRead` — the calls to the host.
* `readVecRaw`, `readInput` — the functions over them.
* `Delivered` — buffers one behind the other that hold a list of vectors.

## Main results

* `readVecs_delivers` — a run of reads, whatever the lengths.
* `readVecs_inputRegion` — **every vector is delivered, and none is overwritten by a later
  read**; when the stream is exhausted, reads return no buffer and change nothing.
-/

namespace StatelessGuest.Sp1

open Ssz Riscv64

/-! ### The calls -/

/-- What is left in a stream, with the memory and `_input_ptr`. -/
structure HintMachine where
  mem : Memory
  inputPtr : Addr
  hints : List Bytes

/-- `INPUT_REGION_SIZE` -/
def inputRegionSize : Addr := 1 <<< 34

/-- `MAX_MEMORY` -/
def maxMemory : Addr := 1 <<< 37

/-- `INPUT_REGION_START` -/
def inputRegionStart : Addr := maxMemory - inputRegionSize

/-- `SIZE_MAX` -/
def sizeMax : Addr := BitVec.allOnes 64

/-- The size of a vector in whole double words. -/
def room (v : Bytes) : ℕ := 8 * ((v.length + 7) / 8)

/-- `SC_HINT_LEN`: the length of the next vector, or `SIZE_MAX` where there is none. -/
def hintLen (m : HintMachine) : Addr :=
  match m.hints with
  | [] => sizeMax
  | v :: _ => BitVec.ofNat 64 v.length

/-- `SC_HINT_READ`: the next vector is written to `ptr`, in whole double words.  The host
refuses a pointer that is not aligned, and a length that is not that of the vector. -/
def hintRead (ptr len : Addr) (m : HintMachine) : Option HintMachine :=
  match m.hints with
  | [] => none
  | v :: hints =>
      if ptr.toNat % 8 = 0 ∧ len.toNat = v.length then
        some { m with mem := m.mem.write ptr (v.takeD (room v) 0), hints }
      else none

/-! ### The functions -/

/-- `ReadVecResult` -/
structure ReadVecResult where
  ptr : Addr
  len : Addr
  capacity : Addr
  deriving DecidableEq

/-- `read_vec_raw` -/
def readVecRaw (m : HintMachine) : Option (ReadVecResult × HintMachine) :=
  let len := hintLen m
  if len = sizeMax then some (⟨0, 0, 0⟩, m)
  else do
    let capacity := (len + 7) &&& ~~~7
    let ptr := m.inputPtr
    let m ← hintRead ptr len { m with inputPtr := m.inputPtr + capacity }
    pure (⟨ptr, len, capacity⟩, m)

/-- A sequence of `read_vec_raw` calls. -/
def readVecs : ℕ → HintMachine → Option (List ReadVecResult × HintMachine)
  | 0, m => some ([], m)
  | n + 1, m => do
      let (r, m) ← readVecRaw m
      let (rs, m) ← readVecs n m
      pure (r :: rs, m)

/-- The machine and the static variables `g_input_ptr`, `g_input_len` and `g_input_read`. -/
structure GuestInput where
  machine : HintMachine
  ptr : Addr := 0
  len : Addr := 0
  read : Bool := false

/-- `read_input` -/
def readInput (g : GuestInput) : Option ((Addr × Addr) × GuestInput) := do
  let g ← if g.read then some g else do
    let (v, machine) ← readVecRaw g.machine
    pure { machine, ptr := v.ptr, len := v.len, read := true }
  pure ((g.ptr, g.len), g)

/-! ### One read -/

/-- The memory a list of vectors takes. -/
def roomOf (vs : List Bytes) : ℕ := (vs.map room).sum

theorem length_le_room (v : Bytes) : v.length ≤ room v ∧ room v % 8 = 0 := by
  unfold room
  omega

/-- A read of the next vector. -/
theorem readVecRaw_cons {m : HintMachine} {v : Bytes} {hints : List Bytes}
    (hhints : m.hints = v :: hints) (hlen : v.length + 7 < 2 ^ 64)
    (haligned : m.inputPtr.toNat % 8 = 0) :
    readVecRaw m = some (⟨m.inputPtr, BitVec.ofNat 64 v.length, BitVec.ofNat 64 (room v)⟩,
      { mem := m.mem.write m.inputPtr (v.takeD (room v) 0)
        inputPtr := m.inputPtr.at (room v), hints }) := by
  have hnat : (BitVec.ofNat 64 v.length).toNat = v.length := by
    rw [BitVec.toNat_ofNat, Nat.mod_eq_of_lt (by omega)]
  have hsize : hintLen m = BitVec.ofNat 64 v.length := by rw [hintLen, hhints]
  have hmore : ¬hintLen m = sizeMax := by
    intro hmax
    have h := congrArg BitVec.toNat (hsize.symm.trans hmax)
    rw [hnat, sizeMax, BitVec.toNat_allOnes] at h
    omega
  have hcapacity : (hintLen m + 7) &&& ~~~7 = BitVec.ofNat 64 (room v) := by
    have h := @toNat_roundUp (hintLen m) (by rw [hsize, hnat]; exact hlen)
    rw [hsize, hnat] at h
    rw [hsize, room, ← h, BitVec.ofNat_toNat, BitVec.setWidth_eq]
  have hread : hintRead m.inputPtr (hintLen m)
      { m with inputPtr := m.inputPtr + BitVec.ofNat 64 (room v) } =
        some { mem := m.mem.write m.inputPtr (v.takeD (room v) 0)
               inputPtr := m.inputPtr.at (room v), hints } := by
    rw [hsize]
    simp only [hintRead, hhints]
    exact if_pos ⟨haligned, hnat⟩
  rw [readVecRaw, if_neg hmore, hcapacity]
  simp only [hread, Option.bind_eq_bind, Option.bind_some]
  rw [hsize]
  rfl

/-- When no vector is left, a read changes nothing. -/
theorem readVecRaw_nil {m : HintMachine} (hhints : m.hints = []) :
    readVecRaw m = some (⟨0, 0, 0⟩, m) := by
  have hmax : hintLen m = sizeMax := by rw [hintLen, hhints]
  exact if_pos hmax

/-! ### A run of reads -/

/-- The buffers lie one behind the other from `ptr` on, and hold the vectors. -/
def Delivered (mem : Memory) : Addr → List Bytes → List ReadVecResult → Prop
  | _, [], [] => True
  | ptr, v :: vs, r :: rs =>
      r.ptr = ptr ∧ r.len.toNat = v.length ∧ r.capacity.toNat = room v ∧
        mem.read ptr v.length = v ∧ Delivered mem (ptr.at (room v)) vs rs
  | _, _, _ => False

/-- A vector, padded to its room. -/
theorem length_padded (v : Bytes) : (v.takeD (room v) 0).length = room v := List.takeD_length ..

/-- **A run of reads**, whatever the lengths of the vectors. -/
theorem readVecs_delivers {vs rest : List Bytes} {m : HintMachine} (hhints : m.hints = vs ++ rest)
    (haligned : m.inputPtr.toNat % 8 = 0) (hfit : m.inputPtr.toNat + roomOf vs < 2 ^ 64) :
    ∃ rs m', readVecs vs.length m = some (rs, m') ∧ m'.hints = rest ∧
      m'.inputPtr = m.inputPtr.at (roomOf vs) ∧ Delivered m'.mem m.inputPtr vs rs ∧
      ∀ a, roomOf vs ≤ (a - m.inputPtr).toNat → m'.mem a = m.mem a := by
  induction vs generalizing m with
  | nil => exact ⟨[], m, rfl, hhints, (Addr.at_zero _).symm, trivial, fun _ _ => rfl⟩
  | cons v vs ih =>
    rw [roomOf, List.map_cons, List.sum_cons, ← roomOf] at hfit ⊢
    obtain ⟨hle, hmod⟩ := length_le_room v
    have hnextHint : m.hints = v :: (vs ++ rest) := hhints
    have hread := readVecRaw_cons hnextHint (by omega) haligned
    have hnext := Addr.toNat_at m.inputPtr (i := room v) (by omega)
    obtain ⟨rs, m', hrs, hrest, hptr, hdelivered, hframe⟩ := ih
      (m := ⟨m.mem.write m.inputPtr (v.takeD (room v) 0), m.inputPtr.at (room v), vs ++ rest⟩) rfl
      (by rw [hnext]; omega) (by rw [hnext]; omega)
    dsimp only at hptr hdelivered hframe
    refine ⟨⟨m.inputPtr, BitVec.ofNat 64 v.length, BitVec.ofNat 64 (room v)⟩ :: rs, m', ?_, hrest,
      ?_, ⟨rfl, ?_, ?_, ?_, hdelivered⟩, ?_⟩
    · rw [List.length_cons, readVecs, hread]
      simp only [Option.bind_eq_bind, Option.bind_some, hrs]
      rfl
    · rw [hptr, Addr.at_at]
    · rw [BitVec.toNat_ofNat, Nat.mod_eq_of_lt (by omega)]
    · rw [BitVec.toNat_ofNat, Nat.mod_eq_of_lt (by omega)]
    · -- The reads that follow write behind this buffer.
      have hkept : m'.mem.read m.inputPtr v.length =
          (m.mem.write m.inputPtr (v.takeD (room v) 0)).read m.inputPtr v.length := by
        refine Memory.read_congr fun i hi => hframe _ ?_
        have hoff := Memory.toNat_sub_at m.inputPtr (m.inputPtr.at i) (k := room v)
          (w := roomOf vs) (by omega)
        rw [Addr.toNat_at_sub _ (by omega)] at hoff
        omega
      rw [hkept, Memory.read_write _ _ (by rw [length_padded]; exact hle)
        (by rw [length_padded]; omega), takeD_eq_append hle, List.take_left]
    · intro a ha
      have hoff := Memory.toNat_sub_at m.inputPtr a (k := room v) (w := roomOf vs) (by omega)
      rw [hframe a (by omega)]
      exact Memory.write_of_ge _ _ (by rw [length_padded]; omega)

/-- When no vector is left, reads change nothing. -/
theorem readVecs_nil {m : HintMachine} (hhints : m.hints = []) (n : ℕ) :
    readVecs n m = some (List.replicate n ⟨0, 0, 0⟩, m) := by
  induction n with
  | zero => rfl
  | succ n ih =>
    rw [readVecs, readVecRaw_nil hhints]
    simp only [Option.bind_eq_bind, Option.bind_some, ih, List.replicate_succ]
    rfl

/-- One run after another. -/
theorem readVecs_add {n k : ℕ} {m m₁ m₂ : HintMachine} {rs rs' : List ReadVecResult}
    (h : readVecs n m = some (rs, m₁)) (h' : readVecs k m₁ = some (rs', m₂)) :
    readVecs (n + k) m = some (rs ++ rs', m₂) := by
  induction n generalizing m rs with
  | zero =>
    obtain ⟨rfl, rfl⟩ := Prod.mk.inj (Option.some.inj h)
    rw [Nat.zero_add]
    exact h'
  | succ n ih =>
    rw [readVecs, Option.bind_eq_bind, Option.bind_eq_some_iff] at h
    obtain ⟨⟨r, m'⟩, hread, h⟩ := h
    obtain ⟨⟨rs₁, m''⟩, hrest, h⟩ := Option.bind_eq_some_iff.mp h
    obtain ⟨rfl, rfl⟩ := Prod.mk.inj (Option.some.inj h)
    rw [Nat.succ_add, readVecs, hread]
    simp only [Option.bind_eq_bind, Option.bind_some, ih hrest]
    rfl

/-- The buffers lie in the room that the vectors take. -/
theorem Delivered.within {mem : Memory} : ∀ {ptr : Addr} {vs : List Bytes}
    {rs : List ReadVecResult}, Delivered mem ptr vs rs → ptr.toNat + roomOf vs < 2 ^ 64 →
    ∀ r ∈ rs, ptr.toNat ≤ r.ptr.toNat ∧
      r.ptr.toNat + r.capacity.toNat ≤ ptr.toNat + roomOf vs
  | _, [], [], _, _ => fun _ hr => absurd hr List.not_mem_nil
  | ptr, v :: vs, r :: rs, h, hfit => by
      obtain ⟨hptr, -, hcapacity, -, hrest⟩ := h
      rw [roomOf, List.map_cons, List.sum_cons, ← roomOf] at hfit ⊢
      have hnext := Addr.toNat_at ptr (i := room v) (by omega)
      have ih := hrest.within (by omega)
      rw [hnext] at ih
      intro r' hr'
      rcases List.mem_cons.mp hr' with rfl | hmem
      · rw [hptr, hcapacity]
        omega
      · have := ih r' hmem
        omega

/-- **Every vector of the stream is delivered, and none is overwritten by a later read**, as
long as they fit the input region: the buffers lie in it one behind the other, and nothing
outside it changes.  However many reads follow, they return no buffer, and leave the
pointer and the memory as they are. -/
theorem readVecs_inputRegion (mem : Memory) {vs : List Bytes}
    (hfit : roomOf vs ≤ inputRegionSize.toNat) :
    ∃ rs m', (∀ k, readVecs (vs.length + k) ⟨mem, inputRegionStart, vs⟩ =
        some (rs ++ List.replicate k ⟨0, 0, 0⟩, m')) ∧
      m'.hints = [] ∧ Delivered m'.mem inputRegionStart vs rs ∧
      (∀ r ∈ rs, inputRegionStart.toNat ≤ r.ptr.toNat ∧
        r.ptr.toNat + r.capacity.toNat ≤ maxMemory.toNat) ∧
      ∀ a, a.toNat < inputRegionStart.toNat ∨ maxMemory.toNat ≤ a.toNat → m'.mem a = mem a := by
  have hstart : inputRegionStart.toNat = 2 ^ 37 - 2 ^ 34 := by decide
  have hmax : maxMemory.toNat = 2 ^ 37 := by decide
  have hsize : inputRegionSize.toNat = 2 ^ 34 := by decide
  rw [hsize] at hfit
  obtain ⟨rs, m', hrs, hrest, -, hdelivered, hframe⟩ := @readVecs_delivers vs []
    ⟨mem, inputRegionStart, vs⟩ (List.append_nil vs).symm
    (show inputRegionStart.toNat % 8 = 0 by decide)
    (show inputRegionStart.toNat + roomOf vs < 2 ^ 64 by omega)
  dsimp only at hdelivered hframe
  refine ⟨rs, m', ?_, hrest, hdelivered, ?_, fun a ha => hframe a ?_⟩
  · intro k
    exact readVecs_add hrs (readVecs_nil hrest k)
  · intro r hr
    have := hdelivered.within (by omega) r hr
    omega
  · rw [BitVec.toNat_sub, hstart]
    omega

/-- Two short vectors, and one read too many. -/
theorem readVecs_inputRegion_two :
    roomOf [[1, 2, 3], [4]] = 16 ∧
      ∃ rs m', readVecs 3 ⟨fun _ => 0, inputRegionStart, [[1, 2, 3], [4]]⟩ =
          some (rs ++ [⟨0, 0, 0⟩], m') ∧
        Delivered m'.mem inputRegionStart [[1, 2, 3], [4]] rs := by
  obtain ⟨rs, m', hrun, -, hdelivered, -⟩ :=
    @readVecs_inputRegion (fun _ => 0) [[1, 2, 3], [4]] (by decide)
  exact ⟨rfl, rs, m', hrun 1, hdelivered⟩

end StatelessGuest.Sp1
