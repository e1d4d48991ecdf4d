import StatelessGuest.Format.Overwrite

/-!
# Section types of the ZisK guest

The loader of ZisK takes a section of a guest only if its type is `SHT_PROGBITS` or
`SHT_NOBITS`, and the toolchain gives the tables of constructors and destructors types of
their own.  `fix_elf_sections.py` changes these types in the file.

## Main definitions

* `patchElf` — the script, on the bytes of the file.
* `Elf64` — a little-endian ELF64 file whose section headers lie inside it.
* `Elf64.Loaded` — the loader takes the section.

## Main results

* `patchSection_step`, `patchSections_run` — one pass of the loop, and its run.
* `patchElf_loads` — **the tables become `SHT_PROGBITS`**, so that they are loaded besides the
  sections that were; nothing else of the file changes, and there is nothing left to patch.
-/

namespace StatelessGuest.Zisk

open Ssz Format

/-! ### The script -/

/-- What Python raises outside a buffer. -/
inductive PyError
  | indexError
  | structError
  deriving DecidableEq, Repr

/-- `data[i]` -/
def item (data : Bytes) (i : ℕ) : Except PyError UInt8 :=
  match data[i]? with
  | some x => .ok x
  | none => .error .indexError

/-- `struct.unpack_from`, for one little-endian number of `n` bytes. -/
def unpackFrom (n : ℕ) (data : Bytes) (off : ℕ) : Except PyError ℕ :=
  if off + n ≤ data.length then .ok (leNat (window data off n)) else .error .structError

/-- `struct.pack_into` -/
def packInto (n : ℕ) (data : Bytes) (off v : ℕ) : Except PyError Bytes :=
  if off + n ≤ data.length then .ok (overwrite data off (leBytes n v)) else .error .structError

def shtProgbits : ℕ := 1

def shtNobits : ℕ := 8

def shtInitArray : ℕ := 14

def shtFiniArray : ℕ := 15

def shtPreinitArray : ℕ := 16

/-- `CONVERT_TYPES` -/
def convertTypes : List ℕ := [shtInitArray, shtFiniArray, shtPreinitArray]

/-- `b"\x7fELF"` -/
def elfMagic : Bytes := [0x7f, 0x45, 0x4c, 0x46]

/-- The body of the loop over the section headers. -/
def patchSection (eShoff eShentsize : ℕ) (st : Bytes × ℕ) (i : ℕ) : Except PyError (Bytes × ℕ) := do
  let shOff := eShoff + i * eShentsize
  let shType ← unpackFrom 4 st.1 (shOff + 4)
  if shType ∈ convertTypes then
    let data ← packInto 4 st.1 (shOff + 4) shtProgbits
    pure (data, st.2 + 1)
  else pure st

/-- `patch_elf`: the number of sections that were patched, and what is written back.  A file
that is refused is not written to, and neither is one that raises an error. -/
def patchElf (data : Bytes) : Except PyError (Option (ℕ × Bytes)) := do
  if data.take 4 ≠ elfMagic then return none
  let eiClass ← item data 4
  if eiClass ≠ 2 then return none
  let eShoff ← unpackFrom 8 data 40
  let eShentsize ← unpackFrom 2 data 58
  let eShnum ← unpackFrom 2 data 60
  let st ← (List.range eShnum).foldlM (patchSection eShoff eShentsize) (data, 0)
  return some (st.2, st.1)

/-! ### Files -/

/-- The offset of the section headers, the size of one, and their number. -/
def shoff (b : Bytes) : ℕ := leNat (window b 40 8)

def shentsize (b : Bytes) : ℕ := leNat (window b 58 2)

def shnum (b : Bytes) : ℕ := leNat (window b 60 2)

/-- The section headers lie in the file, behind the file header. -/
structure SectionTable (b : Bytes) : Prop where
  behind : 64 ≤ shoff b
  entsize : 8 ≤ shentsize b
  inside : shoff b + shnum b * shentsize b ≤ b.length

/-- A little-endian ELF64 file with a table of section headers, or without sections. -/
structure Elf64 where
  bytes : Bytes
  magic : bytes.take 4 = elfMagic
  class64 : bytes[4]? = some 2
  /-- `ELFDATA2LSB` -/
  lsb : bytes[5]? = some 1
  header : 64 ≤ bytes.length
  /-- The file header counts the sections: from `SHN_LORESERVE` sections on it has zero for their
  number, with an offset of the table. -/
  counted : shnum bytes = 0 → shoff bytes = 0
  table : shnum bytes ≠ 0 → SectionTable bytes

namespace Elf64

variable (f : Elf64)

/-- The offset of the type of a section. -/
def typeOffset (i : ℕ) : ℕ := shoff f.bytes + i * shentsize f.bytes + 4

/-- The type of a section. -/
def sectionType (i : ℕ) : ℕ := leNat (window f.bytes (f.typeOffset i) 4)

/-- A table of constructors or destructors. -/
def IsTable (i : ℕ) : Prop := f.sectionType i ∈ convertTypes

instance (i : ℕ) : Decidable (f.IsTable i) := inferInstanceAs (Decidable (_ ∈ _))

/-- The loader takes a section that is `SHT_PROGBITS` or `SHT_NOBITS`. -/
def Loaded (i : ℕ) : Prop := f.sectionType i = shtProgbits ∨ f.sectionType i = shtNobits

/-- The number of tables among the first `k` sections. -/
def tables (k : ℕ) : ℕ := ((List.range k).filter (f.IsTable ·)).length

theorem tables_succ (k : ℕ) : f.tables (k + 1) = f.tables k + if f.IsTable k then 1 else 0 := by
  rw [tables, List.range_succ, List.filter_append, List.length_append, tables]
  by_cases h : f.IsTable k <;> simp [h]

variable {f}

theorem typeOffset_le {i : ℕ} (hi : i < shnum f.bytes) : f.typeOffset i + 4 ≤ f.bytes.length := by
  have hmul := Nat.mul_le_mul_right (shentsize f.bytes) (Nat.succ_le_of_lt hi)
  obtain ⟨-, hentsize, hinside⟩ := f.table (Nat.ne_zero_of_lt hi)
  rw [Nat.succ_mul] at hmul
  unfold typeOffset
  omega

/-- The types of two sections do not overlap. -/
theorem typeOffset_lt (htable : SectionTable f.bytes) {i j : ℕ} (h : i < j) :
    f.typeOffset i + 4 ≤ f.typeOffset j := by
  have hmul := Nat.mul_le_mul_right (shentsize f.bytes) (Nat.succ_le_of_lt h)
  have hentsize := htable.entsize
  rw [Nat.succ_mul] at hmul
  unfold typeOffset
  omega

end Elf64

/-! ### The loop -/

/-- The data after `k` passes. -/
structure Patched (f : Elf64) (k : ℕ) (data : Bytes) : Prop where
  passes : k ≤ shnum f.bytes
  length : data.length = f.bytes.length
  types : ∀ i, leNat (window data (f.typeOffset i) 4) =
    if i < k ∧ f.IsTable i then shtProgbits else f.sectionType i
  frame : ∀ off n,
    (∀ i, i < k → f.IsTable i → off + n ≤ f.typeOffset i ∨ f.typeOffset i + 4 ≤ off) →
    window data off n = window f.bytes off n

section

variable {f : Elf64} {k : ℕ} {data : Bytes}

theorem patched_zero : Patched f 0 f.bytes :=
  ⟨Nat.zero_le _, rfl, fun _ => (if_neg fun h => Nat.not_lt_zero _ h.1).symm, fun _ _ _ => rfl⟩

/-- **One pass** patches the section if it is a table. -/
theorem patchSection_step (h : Patched f k data) (hk : k < shnum f.bytes) :
    ∃ data', patchSection (shoff f.bytes) (shentsize f.bytes) (data, f.tables k) k =
      .ok (data', f.tables (k + 1)) ∧ Patched f (k + 1) data' := by
  have hroom : f.typeOffset k + 4 ≤ data.length := h.length ▸ Elf64.typeOffset_le hk
  have hheaders := f.table (Nat.ne_zero_of_lt hk)
  have hread : unpackFrom 4 data (f.typeOffset k) = .ok (f.sectionType k) := by
    have htype := h.types k
    rw [if_neg fun hlt => Nat.lt_irrefl k hlt.1] at htype
    rw [unpackFrom, if_pos hroom, htype]
  have hpass : ∀ patched, patchSection (shoff f.bytes) (shentsize f.bytes) (data, patched) k =
      if f.IsTable k then .ok (overwrite data (f.typeOffset k) (leBytes 4 shtProgbits), patched + 1)
      else .ok (data, patched) := by
    intro patched
    unfold patchSection
    dsimp only
    rw [← Elf64.typeOffset, hread]
    by_cases htable : f.IsTable k
    · rw [if_pos htable]
      apply (if_pos htable).trans
      rw [packInto, if_pos hroom]
      rfl
    · rw [if_neg htable]
      exact if_neg htable
  rw [hpass, f.tables_succ]
  have hwrite : f.typeOffset k + (leBytes 4 shtProgbits).length ≤ data.length := by
    rwa [length_leBytes]
  by_cases htable : f.IsTable k
  · rw [if_pos htable, if_pos htable]
    refine ⟨_, rfl, hk, ?_, ?_, ?_⟩
    · rw [length_overwrite hwrite, h.length]
    · intro i
      rcases Nat.lt_trichotomy i k with hlt | rfl | hgt
      · rw [window_overwrite_apart hwrite (.inl (Elf64.typeOffset_lt hheaders hlt)), h.types i]
        simp only [hlt, Nat.lt_succ_of_lt hlt]
      · have hnew := window_overwrite hwrite
        rw [length_leBytes] at hnew
        rw [hnew, leNat_leBytes (by decide), if_pos ⟨Nat.lt_succ_self i, htable⟩]
      · have habove := Elf64.typeOffset_lt hheaders hgt
        rw [window_overwrite_apart hwrite (.inr (by rwa [length_leBytes])), h.types i,
          if_neg (by omega), if_neg (by omega)]
    · intro off n hapart
      have hhere := hapart k (Nat.lt_succ_self k) htable
      rw [window_overwrite_apart hwrite (by rwa [length_leBytes]),
        h.frame off n fun i hi => hapart i (Nat.lt_succ_of_lt hi)]
  · rw [if_neg htable, if_neg htable]
    refine ⟨data, rfl, hk, h.length, ?_, fun off n hapart =>
      h.frame off n fun i hi => hapart i (Nat.lt_succ_of_lt hi)⟩
    intro i
    rw [h.types i]
    have hiff : (i < k ∧ f.IsTable i) ↔ i < k + 1 ∧ f.IsTable i := by
      constructor
      · rintro ⟨hlt, hi⟩
        exact ⟨Nat.lt_succ_of_lt hlt, hi⟩
      · rintro ⟨hle, hi⟩
        refine ⟨Nat.lt_of_le_of_ne (Nat.le_of_lt_succ hle) ?_, hi⟩
        rintro rfl
        exact htable hi
    exact if_congr hiff rfl rfl

/-- **The run of the loop.** -/
theorem patchSections_run : ∀ {k : ℕ}, k ≤ shnum f.bytes →
    ∃ data, (List.range k).foldlM (patchSection (shoff f.bytes) (shentsize f.bytes)) (f.bytes, 0) =
      .ok (data, f.tables k) ∧ Patched f k data
  | 0, _ => ⟨f.bytes, rfl, patched_zero⟩
  | k + 1, hk => by
      obtain ⟨data, hrun, hdata⟩ := patchSections_run (k := k) (by omega)
      obtain ⟨data', hstep, hdata'⟩ := patchSection_step hdata (by omega)
      refine ⟨data', ?_, hdata'⟩
      rw [List.range_succ, List.foldlM_append, hrun]
      show [k].foldlM (patchSection (shoff f.bytes) (shentsize f.bytes)) (data, f.tables k) = _
      rw [List.foldlM_cons, hstep]
      rfl

/-- The script on a file: it writes back what the loop leaves. -/
theorem patchElf_run (f : Elf64) : ∃ data,
    patchElf f.bytes = .ok (some (f.tables (shnum f.bytes), data)) ∧
      Patched f (shnum f.bytes) data := by
  obtain ⟨data, hrun, hdata⟩ := patchSections_run (f := f) le_rfl
  refine ⟨data, ?_, hdata⟩
  have hlen := f.header
  have hheader : ∀ n off, off + n ≤ 64 →
      unpackFrom n f.bytes off = .ok (leNat (window f.bytes off n)) := fun n off h =>
    if_pos (by omega)
  have hclass : item f.bytes 4 = .ok 2 := by rw [item, f.class64]
  rw [patchElf, if_neg (not_not.mpr f.magic), hclass, hheader 8 40 (by omega),
    hheader 2 58 (by omega), hheader 2 60 (by omega)]
  show ((List.range (shnum f.bytes)).foldlM (patchSection (shoff f.bytes) (shentsize f.bytes))
    (f.bytes, 0)).bind _ = _
  rw [hrun]
  rfl

/-- The file header is left alone. -/
theorem Patched.window_eq (h : Patched f k data) {off n : ℕ} (hoff : off + n ≤ 64) :
    window data off n = window f.bytes off n := by
  refine h.frame off n fun i hi _ => .inl ?_
  have hbehind := (f.table (Nat.ne_zero_of_lt (hi.trans_le h.passes))).behind
  unfold Elf64.typeOffset
  omega

/-- So are its bytes. -/
theorem Patched.getElem?_eq (h : Patched f k data) {i : ℕ} (hi : i + 1 ≤ 64) :
    data[i]? = f.bytes[i]? := by
  have hsame := congrArg (·[0]?) (h.window_eq hi)
  simpa only [window, List.getElem?_take, List.getElem?_drop, Nat.add_zero, Nat.zero_lt_one,
    if_pos] using hsame

theorem Patched.shnum_eq (h : Patched f k data) : shnum data = shnum f.bytes :=
  congrArg leNat (h.window_eq (by omega))

theorem Patched.shoff_eq (h : Patched f k data) : shoff data = shoff f.bytes :=
  congrArg leNat (h.window_eq (by omega))

theorem Patched.shentsize_eq (h : Patched f k data) : shentsize data = shentsize f.bytes :=
  congrArg leNat (h.window_eq (by omega))

theorem Patched.sectionTable (h : Patched f k data) (ht : SectionTable f.bytes) :
    SectionTable data := by
  refine ⟨?_, ?_, ?_⟩
  · rw [h.shoff_eq]
    exact ht.behind
  · rw [h.shentsize_eq]
    exact ht.entsize
  · rw [h.shoff_eq, h.shnum_eq, h.shentsize_eq, h.length]
    exact ht.inside

theorem Patched.magic (h : Patched f k data) : data.take 4 = elfMagic := by
  have hsame : window data 0 4 = window f.bytes 0 4 := h.window_eq (by omega)
  exact hsame.trans f.magic

/-- The file after the script. -/
def Patched.elf (h : Patched f k data) : Elf64 where
  bytes := data
  magic := h.magic
  class64 := (h.getElem?_eq (by omega)).trans f.class64
  lsb := (h.getElem?_eq (by omega)).trans f.lsb
  header := h.length ▸ f.header
  counted hnone := h.shoff_eq.trans (f.counted (h.shnum_eq.symm.trans hnone))
  table hsome := h.sectionTable (f.table fun hnone => hsome (h.shnum_eq.trans hnone))

/-- The type of a section after the script. -/
theorem Patched.sectionType_eq (h : Patched f k data) (i : ℕ) :
    h.elf.sectionType i = if i < k ∧ f.IsTable i then shtProgbits else f.sectionType i := by
  rw [← h.types i, Elf64.typeOffset, ← h.shoff_eq, ← h.shentsize_eq]
  rfl

/-- A file without tables is written back as it is. -/
theorem patchElf_of_no_tables (f : Elf64) (h : ∀ i, i < shnum f.bytes → ¬f.IsTable i) :
    patchElf f.bytes = .ok (some (0, f.bytes)) := by
  obtain ⟨data, hrun, hdata⟩ := patchElf_run f
  have hsame : data = f.bytes := by
    have hwhole := hdata.frame 0 f.bytes.length fun i hi htable => absurd htable (h i hi)
    rwa [window_self hdata.length, window_self rfl] at hwhole
  have hnone : f.tables (shnum f.bytes) = 0 := by
    rw [Elf64.tables, List.length_eq_zero_iff, List.filter_eq_nil_iff]
    intro i hi htable
    exact h i (List.mem_range.mp hi) (of_decide_eq_true htable)
  rw [hrun, hnone, hsame]

end

/-- **The script makes the loader take the tables**: the tables of constructors and destructors
become `SHT_PROGBITS`, so that they are loaded besides the sections that were.  Nothing changes
but the types of these tables, and there is nothing left to patch. -/
theorem patchElf_loads (f : Elf64) : ∃ g : Elf64,
    patchElf f.bytes = .ok (some (f.tables (shnum f.bytes), g.bytes)) ∧
      shnum g.bytes = shnum f.bytes ∧
      (∀ i, i < shnum f.bytes →
        g.sectionType i = if f.IsTable i then shtProgbits else f.sectionType i) ∧
      (∀ i, i < shnum f.bytes → (g.Loaded i ↔ f.Loaded i ∨ f.IsTable i)) ∧
      g.bytes.length = f.bytes.length ∧
      (∀ off n, (∀ i, i < shnum f.bytes → f.IsTable i →
          off + n ≤ f.typeOffset i ∨ f.typeOffset i + 4 ≤ off) →
        window g.bytes off n = window f.bytes off n) ∧
      patchElf g.bytes = .ok (some (0, g.bytes)) := by
  obtain ⟨data, hrun, hdata⟩ := patchElf_run f
  have hprogbits : shtProgbits ∉ convertTypes := by decide
  have htypes : ∀ i, i < shnum f.bytes →
      hdata.elf.sectionType i = if f.IsTable i then shtProgbits else f.sectionType i := by
    intro i hi
    rw [hdata.sectionType_eq]
    exact if_congr (and_iff_right hi) rfl rfl
  refine ⟨hdata.elf, hrun, hdata.shnum_eq, htypes, ?_, hdata.length, hdata.frame,
    patchElf_of_no_tables _ ?_⟩
  · intro i hi
    rw [Elf64.Loaded, Elf64.Loaded, htypes i hi]
    by_cases htable : f.IsTable i
    · rw [if_pos htable]
      exact ⟨fun _ => .inr htable, fun _ => .inl rfl⟩
    · rw [if_neg htable]
      exact ⟨.inl, fun h => h.resolve_right htable⟩
  · intro i hi
    have hi : i < shnum f.bytes := hdata.shnum_eq ▸ hi
    rw [Elf64.IsTable, htypes i hi]
    by_cases htable : f.IsTable i
    · rw [if_pos htable]
      exact hprogbits
    · rw [if_neg htable]
      exact htable

/-- A section header without anything but its type. -/
def sampleSection (shType : ℕ) : Bytes := leBytes 4 0 ++ leBytes 4 shType ++ List.replicate 56 0

def sampleBytes : Bytes :=
  elfMagic ++ [2, 1] ++ List.replicate 34 0 ++ leBytes 8 64 ++ List.replicate 10 0 ++
    leBytes 2 64 ++ leBytes 2 3 ++ [0, 0] ++ sampleSection 0 ++ sampleSection shtInitArray ++
      sampleSection shtNobits

theorem sectionTable_sample : SectionTable sampleBytes := by
  refine ⟨?_, ?_, ?_⟩
  all_goals decide +kernel

theorem shnum_sample : shnum sampleBytes = 3 := by decide +kernel

/-- Three sections, the second of which is a table of constructors. -/
def sampleElf : Elf64 where
  bytes := sampleBytes
  magic := by decide
  class64 := by decide
  lsb := by decide
  header := by decide +kernel
  counted hnone := absurd (shnum_sample.symm.trans hnone) (by decide)
  table _ := sectionTable_sample

theorem sectionType_sample : sampleElf.sectionType 1 = shtInitArray ∧
    sampleElf.sectionType 2 = shtNobits ∧ sampleElf.tables 3 = 1 := by
  decide +kernel

/-- The table is converted, and then loaded like the other section. -/
theorem patchElf_loads_sample : ∃ g : Elf64,
    patchElf sampleBytes = .ok (some (1, g.bytes)) ∧ g.sectionType 1 = shtProgbits ∧
      g.sectionType 2 = shtNobits ∧ g.Loaded 1 ∧ ¬sampleElf.Loaded 1 ∧
      g.bytes.length = sampleBytes.length ∧ patchElf g.bytes = .ok (some (0, g.bytes)) := by
  obtain ⟨hinit, hnobits, hone⟩ := sectionType_sample
  obtain ⟨g, hrun, -, htypes, hloaded, hlen, -, hagain⟩ := patchElf_loads sampleElf
  have hnum : shnum sampleElf.bytes = 3 := shnum_sample
  rw [hnum] at hrun htypes hloaded
  have htable : sampleElf.IsTable 1 := by
    rw [Elf64.IsTable, hinit]
    decide
  have hother : ¬sampleElf.IsTable 2 := by
    rw [Elf64.IsTable, hnobits]
    decide
  refine ⟨g, ?_, ?_, ?_, (hloaded 1 (by decide)).mpr (.inr htable), ?_, hlen, hagain⟩
  · rw [hone] at hrun
    exact hrun
  · exact (htypes 1 (by decide)).trans (if_pos htable)
  · exact ((htypes 2 (by decide)).trans (if_neg hother)).trans hnobits
  · rw [Elf64.Loaded, hinit]
    decide

end StatelessGuest.Zisk
