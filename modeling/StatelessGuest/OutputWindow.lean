import StatelessGuest.Runtimes

/-!
# The output window of ZisK

ZisK exposes the first 64 output slots.  The buffer behind `write_output` has room for
256 of them, and the slot counter is never compared with the limit, so that longer output
runs past the window.  What the window itself shows is right all the same.

## Main definitions

* `ziskMaxOutputSlots` — the number of slots ZisK exposes.
* `setOutputs`, `publishedBytes` — the output region after a list of writes.
* `InWindow` — writes that stay in the window, which then shows a byte string.

## Main results

* `writeOutputs_truncates` — the buffer keeps what fits, over any sequence of calls.
* `publishedBytes_ziskOutputs` — the window shows the first 256 bytes of the output.
* `ziskOutputs_window` — **the writes stay in the window exactly when the output has at
  most 256 bytes.**
-/

namespace StatelessGuest

open Ssz

/-- `ZISK_MAX_OUTPUT_SLOTS` -/
def ziskMaxOutputSlots : ℕ := 64

/-- The output slots after `zisk_set_output` has been called with each of the writes. -/
def setOutputs : List (ℕ × BitVec 32) → (ℕ → BitVec 32) → ℕ → BitVec 32
  | [], slots => slots
  | (slot, value) :: writes, slots => setOutputs writes (Function.update slots slot value)

/-- The bytes of the exposed slots, which are zero to begin with. -/
def publishedBytes (writes : List (ℕ × BitVec 32)) : Bytes :=
  ((List.range ziskMaxOutputSlots).map fun k =>
    leBytes 4 (setOutputs writes (fun _ => 0) k).toNat).flatten

/-- Every write is to an exposed slot, and the slots show the first 256 bytes of `b`,
padded with zeros. -/
structure InWindow (writes : List (ℕ × BitVec 32)) (b : Bytes) : Prop where
  slots : ∀ write ∈ writes, write.1 < ziskMaxOutputSlots
  bytes : publishedBytes writes = b.takeD 256 0

/-! ### The buffer -/

/-- Copying that leaves the block is refused. -/
theorem copyIn_eq_none {data : Bytes} {off : ℕ} {buf : Bytes} (hoff : off ≤ buf.length)
    (h : buf.length < off + data.length) : copyIn data off buf = none := by
  induction data generalizing off buf with
  | nil =>
    rw [List.length_nil] at h
    omega
  | cons x data ih =>
    rw [List.length_cons] at h
    unfold copyIn
    split
    · exact ih (by rw [List.length_set]; omega) (by rw [List.length_set]; omega)
    · rfl

/-- A call that returns has copied what fits, and no more. -/
theorem writeOutput_eq_some (w : WordSize) {output : Bytes} {out out' : OutBuf}
    (hlen : out.len ≤ out.buf.length) (hcap : out.buf.length < 2 ^ 32)
    (hwrite : writeOutput w output out = some out') :
    ∃ n, n ≤ output.length ∧ out.len + n ≤ out.buf.length ∧
      (n = output.length ∨ out.len + n = out.buf.length) ∧
      copyIn (output.take n) out.len out.buf = some out'.buf ∧ out'.len = out.len + n := by
  have hmod := w.le_modulus
  have hadd : ∀ n, out.len + n ≤ out.buf.length → w.add out.len n = out.len + n :=
    fun n hn => Nat.mod_eq_of_lt (by omega)
  unfold writeOutput at hwrite
  by_cases hclamp : w.add out.len output.length > out.buf.length
  · have hn : w.sub out.buf.length out.len = out.buf.length - out.len := w.sub_eq hlen hcap
    rw [if_pos hclamp, hn] at hwrite
    obtain ⟨buf, hbuf, hout⟩ := Option.bind_eq_some_iff.mp hwrite
    obtain rfl := Option.some.inj hout
    refine ⟨out.buf.length - out.len, ?_, by omega, .inr (by omega), hbuf, hadd _ (by omega)⟩
    by_contra hshort
    rw [hadd _ (by omega)] at hclamp
    omega
  · rw [if_neg hclamp] at hwrite
    obtain ⟨buf, hbuf, hout⟩ := Option.bind_eq_some_iff.mp hwrite
    obtain rfl := Option.some.inj hout
    have hfit : out.len + output.length ≤ out.buf.length := by
      -- Where the sum has wrapped, the copy leaves the buffer.
      by_contra hlong
      rw [List.take_length, copyIn_eq_none hlen (by omega)] at hbuf
      cases hbuf
    exact ⟨output.length, le_rfl, hfit, .inl rfl, hbuf, hadd _ hfit⟩

/-- One call keeps what fits behind the bytes that are there. -/
theorem writeOutput_truncates (w : WordSize) {output : Bytes} {out out' : OutBuf} {b : Bytes}
    (h : out.Holds (b.take out.buf.length)) (hcap : out.buf.length < 2 ^ 32)
    (hwrite : writeOutput w output out = some out') :
    out'.buf.length = out.buf.length ∧ out'.Holds ((b ++ output).take out.buf.length) := by
  have hlen : out.len = min out.buf.length b.length := by rw [h.len, List.length_take]
  obtain ⟨n, hn, hfit, hall, hcopy, hlen'⟩ := writeOutput_eq_some w (by omega) hcap hwrite
  have hcopied : (output.take n).length = n := by rw [List.length_take]; omega
  obtain ⟨buf, hbuf, hsize, htake⟩ := copyIn_holds (output.take n) out.len out.buf (by omega)
  obtain rfl : buf = out'.buf := Option.some.inj (hbuf.symm.trans hcopy)
  have hkept : output.take (out.buf.length - b.length) = output.take n := by
    rcases hall with hall | hall
    · rw [hall, List.take_length, List.take_of_length_le (by omega)]
    · congr 1
      omega
  have hbytes : (b ++ output).take out.buf.length = b.take out.buf.length ++ output.take n := by
    rw [List.take_append, hkept]
  have hsum : ((b ++ output).take out.buf.length).length = out.len + n := by
    rw [hbytes, List.length_append, hcopied, ← h.len]
  refine ⟨hsize, ?_, ?_⟩
  · rw [hlen', hsum]
  · have hprefix : out.buf.take out.len = b.take out.buf.length := by
      conv_rhs => rw [← h.bytes, ← h.len]
    rw [hsum, hbytes]
    rwa [hcopied, hprefix] at htake

/-- A call that fits the buffer. -/
theorem writeOutput_holds (w : WordSize) (output : Bytes) {b : Bytes} {out : OutBuf} (h : out.Holds b)
    (hcap : out.buf.length < 2 ^ 32) (hlen : b.length + output.length ≤ out.buf.length) :
    ∃ out', writeOutput w output out = some out' ∧ out'.buf.length = out.buf.length ∧
      out'.Holds (b ++ output) := by
  have hfull : b.take out.buf.length = b := List.take_of_length_le (by omega)
  obtain ⟨out', hrun, -⟩ := writeOutputs_holds w [output] h hcap (by simpa using hlen)
  rw [writeOutputs, Option.bind_eq_bind, Option.bind_eq_some_iff] at hrun
  obtain ⟨out₁, hwrite, -⟩ := hrun
  obtain ⟨hsize, hholds⟩ := writeOutput_truncates w (by rwa [hfull]) hcap hwrite
  rw [List.take_of_length_le (by rwa [List.length_append])] at hholds
  exact ⟨out₁, hwrite, hsize, hholds⟩

/-- **The buffer keeps what fits**, over any sequence of calls. -/
theorem writeOutputs_truncates (w : WordSize) {outputs : List Bytes} {out out' : OutBuf} {b : Bytes}
    (h : out.Holds (b.take out.buf.length)) (hcap : out.buf.length < 2 ^ 32)
    (hwrite : writeOutputs w outputs out = some out') :
    out'.Holds ((b ++ outputs.flatten).take out.buf.length) := by
  induction outputs generalizing out b with
  | nil =>
    obtain rfl : out = out' := Option.some.inj hwrite
    simpa using h
  | cons output outputs ih =>
    rw [writeOutputs, Option.bind_eq_bind, Option.bind_eq_some_iff] at hwrite
    obtain ⟨out₁, hstep, hrest⟩ := hwrite
    obtain ⟨hsize, h₁⟩ := writeOutput_truncates w h hcap hstep
    have hrun := ih (hsize ▸ h₁) (by rwa [hsize]) hrest
    rwa [hsize, List.append_assoc, ← List.flatten_cons] at hrun

/-! ### The window -/

/-- ZisK writes as much of the output as the buffer has kept. -/
theorem ziskOutputs_eq_some {outputs : List Bytes} {writes : List (ℕ × BitVec 32)}
    (h : ziskOutputs outputs = some writes) : writes = packed (outputs.flatten.take 1024) 0 := by
  rw [ziskOutputs, Option.bind_eq_bind, Option.bind_eq_some_iff] at h
  obtain ⟨out, hout, hwrites⟩ := h
  have hempty : (OutBuf.empty 1024).Holds (List.take (OutBuf.empty 1024).buf.length []) := by
    rw [List.take_nil]
    exact empty_holds 1024
  have hholds := writeOutputs_truncates .bits64 hempty (by rw [length_empty]; norm_num) hout
  rw [length_empty, List.nil_append] at hholds
  rw [← Option.some.inj hwrites, hholds.len]
  exact writeOutputBytes_eq hholds.bytes 0

/-- The slots after the packed words have been written, each once and in order. -/
theorem setOutputs_packed (b : Bytes) (i : ℕ) (slots : ℕ → BitVec 32) (k : ℕ) :
    setOutputs (packed b i) slots k =
      if i ≤ k ∧ 4 * k < b.length then BitVec.ofNat 32 (leNat (window b (4 * k) 4))
      else slots k := by
  rcases Nat.lt_or_ge (4 * i) b.length with hlt | hge
  · rw [packed_of_lt hlt, setOutputs, setOutputs_packed b (i + 1)]
    rcases Nat.lt_trichotomy k i with hk | rfl | hk
    · rw [if_neg (by omega), if_neg (by omega), Function.update_of_ne (by omega)]
    · rw [if_neg (by omega), if_pos ⟨le_rfl, hlt⟩, Function.update_self]
    · rw [Function.update_of_ne (by omega)]
      simp only [show i + 1 ≤ k ↔ i ≤ k by omega]
  · rw [packed_of_ge hge, if_neg (by omega), setOutputs]
termination_by b.length - 4 * i

/-- The window shows the first 256 bytes of what is packed. -/
theorem publishedBytes_packed (b : Bytes) : publishedBytes (packed b 0) = b.takeD 256 0 := by
  have hslot : ∀ k, setOutputs (packed b 0) (fun _ => 0) k =
      BitVec.ofNat 32 (leNat (window b (4 * k) 4)) := by
    intro k
    rw [setOutputs_packed]
    split
    · rfl
    · have hend : window b (4 * k) 4 = [] := by
        rw [window, List.drop_eq_nil_of_le (by omega), List.take_nil]
      rw [hend]
      rfl
  simp only [publishedBytes, hslot]
  exact flatten_words b 64

/-- **The window shows the first 256 bytes of the output**, however much is written. -/
theorem publishedBytes_ziskOutputs {outputs : List Bytes} {writes : List (ℕ × BitVec 32)}
    (h : ziskOutputs outputs = some writes) :
    publishedBytes writes = outputs.flatten.takeD 256 0 := by
  rw [ziskOutputs_eq_some h, publishedBytes_packed, ← takeD_take 256, List.take_take,
    show min 256 1024 = 256 from rfl, takeD_take]

/-- The packed words are in the window exactly when there are at most 64. -/
theorem packed_inWindow (b : Bytes) :
    (∀ write ∈ packed b 0, write.1 < ziskMaxOutputSlots) ↔ b.length ≤ 256 := by
  have hmem : ∀ k, (∃ write ∈ packed b 0, write.1 = k) ↔ k < (b.length + 3) / 4 := by
    intro k
    rw [← List.mem_range, ← (slotsHold_packed b).indices, List.mem_map]
  unfold ziskMaxOutputSlots
  constructor
  · intro h
    by_contra hlong
    obtain ⟨write, hwrite, hslot⟩ := (hmem 64).mpr (by omega)
    have := h write hwrite
    omega
  · intro hlen write hwrite
    have := (hmem write.1).mp ⟨write, hwrite, rfl⟩
    omega

/-- **The writes stay in the window exactly when the output has at most 256 bytes**, for any
number of calls of any sizes. -/
theorem ziskOutputs_window (outputs : List Bytes) :
    (∃ writes, ziskOutputs outputs = some writes ∧ InWindow writes outputs.flatten) ↔
      outputs.flatten.length ≤ 256 := by
  constructor
  · rintro ⟨writes, hwrites, hwindow⟩
    have hslots := hwindow.slots
    rw [ziskOutputs_eq_some hwrites, packed_inWindow, List.length_take] at hslots
    omega
  · intro hlen
    have hwrites := ziskOutputs_eq (hlen.trans (by norm_num : 256 ≤ 1024))
    exact ⟨_, hwrites, (packed_inWindow _).mpr hlen, publishedBytes_ziskOutputs hwrites⟩

/-- One call with a byte too many: the last word goes to slot 64. -/
theorem ziskOutputs_window_counterexample :
    ∃ writes, ziskOutputs [List.replicate 257 7] = some writes ∧
      ¬InWindow writes [List.replicate 257 7].flatten := by
  have hlen : [List.replicate 257 (7 : UInt8)].flatten.length = 257 := by
    rw [List.flatten_singleton, List.length_replicate]
  refine ⟨_, ziskOutputs_eq (by omega), ?_⟩
  intro hwindow
  have := (packed_inWindow _).mp hwindow.slots
  omega

end StatelessGuest
