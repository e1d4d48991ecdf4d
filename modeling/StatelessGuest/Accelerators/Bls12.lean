import StatelessGuest.Accelerators.Precompile
import StatelessGuest.Format.Parser

/-!
# BLS12-381: sums and pairings

The accelerator functions take points whose field elements have 48 bytes; the precompiles
take them with 64, the first 16 of which are zero.  The functions over several pairs fill a
local array that is not initialized, one pair after the other, and hand its front to the
precompile.

## Main definitions

* `padFp`, `padG1`, `padG2`, `unpadFp`, `unpadG1`, `unpadG2` — adding and removing the zeros.
* `bls12Call` — what the three functions share.
* `zkvmBls12G1Msm`, `zkvmBls12G2Msm`, `zkvmBls12Pairing` — the functions.
* `point`, `g1MsmPair`, `g2MsmPair`, `pairingPair` — the layouts of the precompiles.
* `Faithful` — a function hands over exactly the pairs it is given.

## Main results

* `appends_padFields`, `appends_unpadFields` — the padding of any number of field elements.
* `faithful_bls12Call` — what has to be known of the code for one pair.
* `bls12_faithful` — **the three functions are faithful.**
-/

namespace StatelessGuest

open Ssz Memory Format

/-! ### The types -/

/-- `zkvm_bls12_381_g1_point` -/
abbrev G1Point := ByteVec 96

/-- `zkvm_bls12_381_g2_point` -/
abbrev G2Point := ByteVec 192

/-- `zkvm_bls12_381_scalar` -/
abbrev Bls12Scalar := ByteVec 32

/-- `zkvm_bls12_381_g1_msm_pair` -/
structure G1MsmPair where
  point : G1Point
  scalar : Bls12Scalar

/-- `zkvm_bls12_381_g2_msm_pair` -/
structure G2MsmPair where
  point : G2Point
  scalar : Bls12Scalar

/-- `zkvm_bls12_381_pairing_pair` -/
structure PairingPair where
  g1 : G1Point
  g2 : G2Point

/-! ### Padding -/

/-- `pad_fp(out + off, in + pos)` -/
def padFp (src : Block) (pos off : ℕ) (out : Block) : Option Block := do
  let out ← out.store (List.replicate 16 0) off
  let value ← src.load pos 48
  out.store value (off + 16)

/-- `unpad_fp(out + off, in + pos)` -/
def unpadFp (src : Block) (pos off : ℕ) (out : Block) : Option Block := do
  let value ← src.load (pos + 16) 48
  out.store value off

/-- `pad_g1(out + off, in)` -/
def padG1 (src : Block) (off : ℕ) (out : Block) : Option Block := do
  let out ← padFp src 0 off out
  padFp src 48 (off + 64) out

/-- `unpad_g1(out, in)` -/
def unpadG1 (src out : Block) : Option Block := do
  let out ← unpadFp src 0 0 out
  unpadFp src 64 48 out

/-- `pad_g2(out + off, in)` -/
def padG2 (src : Block) (off : ℕ) : Block → Option Block :=
  Block.forRange 4 fun i out => padFp src (48 * i) (off + 64 * i) out

/-- `unpad_g2(out, in)` -/
def unpadG2 (src : Block) : Block → Option Block :=
  Block.forRange 4 fun i out => unpadFp src (64 * i) (48 * i) out

/-! ### The functions -/

section

variable {α β : Type}

/-- What the functions share: at most `maxPairs` pairs, marshalled at a distance of `stride`
bytes; the precompile with the low address byte `idLo`, with an output of `outLen` bytes;
and what is done with the output. -/
def bls12Call (idLo : UInt8) (maxPairs stride outLen : ℕ)
    (marshal : α → ℕ → Block → Option Block) (finish : Block → β → Option β)
    (call : CallPrecompile) (pairs : List α) (numPairs : ℕ) (output : β) :
    Option (ZkvmStatus × β) :=
  if numPairs = 0 ∨ numPairs > maxPairs then some (.efail, output)
  else do
    let input := Block.uninit (maxPairs * stride)
    let out := Block.uninit outLen
    let input ← Block.forRange numPairs (fun i input => do
      let pair ← pairs[i]?
      marshal pair (i * stride) input) input
    let (ok, out) ← runPrecompile call idLo 0 input (numPairs * stride) out outLen
    if ok then do
      let output ← finish out output
      pure (.eok, output)
    else pure (.efail, output)

end

/-- `zkvm_bls12_g1_msm` -/
def zkvmBls12G1Msm : CallPrecompile → List G1MsmPair → ℕ → Block → Option (ZkvmStatus × Block) :=
  bls12Call 0x0c 64 160 128
    (fun pair off input => do
      let input ← padG1 (.ofBytes pair.point.toList) off input
      input.store pair.scalar.toList (off + 128))
    unpadG1

/-- `zkvm_bls12_g2_msm` -/
def zkvmBls12G2Msm : CallPrecompile → List G2MsmPair → ℕ → Block → Option (ZkvmStatus × Block) :=
  bls12Call 0x0e 32 288 256
    (fun pair off input => do
      let input ← padG2 (.ofBytes pair.point.toList) off input
      input.store pair.scalar.toList (off + 256))
    unpadG2

/-- `zkvm_bls12_pairing` -/
def zkvmBls12Pairing : CallPrecompile → List PairingPair → ℕ → Bool → Option (ZkvmStatus × Bool) :=
  bls12Call 0x0f 32 384 32
    (fun pair off input => do
      let input ← padG1 (.ofBytes pair.g1.toList) off input
      padG2 (.ofBytes pair.g2.toList) (off + 128) input)
    (fun out _ => do
      let last ← out.load 31 1
      pure (decide (last = [1])))

/-! ### The layouts -/

/-- A field element: 16 zero bytes and 48 bytes. -/
def fieldElement : Parser Bytes := do
  zeros 16
  bytes 48

/-- A point with `n` field elements as coordinates. -/
def point (n : ℕ) : Parser (ByteVec (n * 48)) := do
  let fields ← many fieldElement n
  pure (padTo _ fields.flatten)

/-- A point of G1 and a scalar. -/
def g1MsmPair : Parser G1MsmPair := do
  let point ← point 2
  let scalar ← array 32
  pure ⟨point, scalar⟩

/-- A point of G2 and a scalar. -/
def g2MsmPair : Parser G2MsmPair := do
  let point ← point 4
  let scalar ← array 32
  pure ⟨point, scalar⟩

/-- A point of G1 and a point of G2. -/
def pairingPair : Parser PairingPair := do
  let g1 ← point 2
  let g2 ← point 4
  pure ⟨g1, g2⟩

/-- The field elements of a point, padded. -/
def padFields (n : ℕ) (b : Bytes) : Bytes :=
  (List.range n).flatMap fun i => List.replicate 16 0 ++ window b (48 * i) 48

/-- The field elements of a padded point, without the first 16 bytes of each. -/
def unpadFields (n : ℕ) (b : Bytes) : Bytes :=
  (List.range n).flatMap fun i => window b (64 * i + 16) 48

/-! ### Padding and its layout -/

theorem length_padFields_item {b : Bytes} {i : ℕ} (h : 48 * i + 48 ≤ b.length) :
    (List.replicate 16 0 ++ window b (48 * i) 48).length = 64 := by
  rw [List.length_append, List.length_replicate, length_window_of_le h]

theorem length_padFields (n : ℕ) {b : Bytes} (h : 48 * n ≤ b.length) :
    (padFields n b).length = n * 64 := by
  rw [padFields, length_flatMap_of_length fun i hi =>
    length_padFields_item (by have := List.mem_range.mp hi; omega), List.length_range]

/-- `pad_fp` writes zeros and a field element. -/
theorem appends_padFp {b : Bytes} {pos : ℕ} (off : ℕ) (h : pos + 48 ≤ b.length) :
    Appends (padFp (.ofBytes b) pos off) (List.replicate 16 0 ++ window b pos 48) off := by
  have hpad : padFp (.ofBytes b) pos off = fun out =>
      out.store (List.replicate 16 0) off >>= Block.store (window b pos 48) (off + 16) := by
    funext out
    rw [padFp, Block.load_ofBytes h]
    rfl
  rw [hpad]
  exact (appends_store _ off).bind (appends_store _ (off + 16))

/-- `unpad_fp` writes a field element. -/
theorem appends_unpadFp {b : Bytes} {pos : ℕ} (off : ℕ) (h : pos + 64 ≤ b.length) :
    Appends (unpadFp (.ofBytes b) pos off) (window b (pos + 16) 48) off := by
  have hunpad : unpadFp (.ofBytes b) pos off = Block.store (window b (pos + 16) 48) off := by
    funext out
    rw [unpadFp, Block.load_ofBytes (by omega)]
    rfl
  rw [hunpad]
  exact appends_store _ off

/-- **Padding the field elements of a point.** -/
theorem appends_padFields {n : ℕ} {b : Bytes} (off : ℕ) (h : 48 * n ≤ b.length) :
    Appends (Block.forRange n fun i out => padFp (.ofBytes b) (48 * i) (off + 64 * i) out)
      (padFields n b) off := by
  refine Appends.forRange 64 (fun i hi => length_padFields_item (by omega)) ?_
  intro i hi
  rw [Nat.mul_comm i 64]
  exact appends_padFp _ (by omega)

/-- **Removing the padding of a point.** -/
theorem appends_unpadFields {n : ℕ} {b : Bytes} (h : 64 * n ≤ b.length) :
    Appends (Block.forRange n fun i out => unpadFp (.ofBytes b) (64 * i) (48 * i) out)
      (unpadFields n b) 0 := by
  refine Appends.forRange 48 (fun i hi => length_window_of_le (by omega)) ?_
  intro i hi
  rw [Nat.mul_comm i 48, Nat.zero_add]
  exact appends_unpadFp _ (by omega)

theorem padG1_eq (src : Block) (off : ℕ) :
    padG1 src off = Block.forRange 2 fun i out => padFp src (48 * i) (off + 64 * i) out := by
  funext out
  rw [Block.forRange_succ, Block.forRange_succ, Block.forRange_zero]
  rfl

theorem unpadG1_eq (src : Block) :
    unpadG1 src = Block.forRange 2 fun i out => unpadFp src (64 * i) (48 * i) out := by
  funext out
  rw [Block.forRange_succ, Block.forRange_succ, Block.forRange_zero]
  rfl

/-- A padded point is read back. -/
theorem parses_point (n : ℕ) (v : ByteVec (n * 48)) :
    Parses (point n) (padFields n v.toList) v := by
  set fields := (List.range n).map fun i => window v.toList (i * 48) 48 with hfields
  have hlen : fields.length = n := by rw [hfields, List.length_map, List.length_range]
  have hfield : ∀ field ∈ fields, Parses fieldElement (List.replicate 16 0 ++ field) field := by
    intro field hmem
    obtain ⟨i, hi, rfl⟩ := List.mem_map.mp hmem
    have hi := List.mem_range.mp hi
    have hwindow : (window v.toList (i * 48) 48).length = 48 :=
      length_window_of_le (by rw [v.toList_length]; omega)
    exact (parses_zeros 16).bind (parses_bytes hwindow)
  have hmany := (Parses.many hfield).map fun fields => padTo (n * 48) fields.flatten
  have henc : fields.flatMap (fun field => List.replicate 16 0 ++ field) =
      padFields n v.toList := by
    rw [hfields, List.flatMap_map]
    simp only [padFields, Nat.mul_comm]
  have hvalue : padTo (n * 48) fields.flatten = v := by
    apply toList_injective
    rw [toList_padTo, hfields, flatten_windows, window_self v.toList_length,
      takeD_self v.toList_length]
  rwa [hlen, henc, hvalue] at hmany

/-! ### One pair -/

/-- A point of G1 and a scalar, as the precompile takes them. -/
def padG1MsmPair (pair : G1MsmPair) : Bytes := padFields 2 pair.point.toList ++ pair.scalar.toList

/-- A point of G2 and a scalar. -/
def padG2MsmPair (pair : G2MsmPair) : Bytes := padFields 4 pair.point.toList ++ pair.scalar.toList

/-- A point of G1 and a point of G2. -/
def padPairingPair (pair : PairingPair) : Bytes :=
  padFields 2 pair.g1.toList ++ padFields 4 pair.g2.toList

theorem parses_g1MsmPair (pair : G1MsmPair) : Parses g1MsmPair (padG1MsmPair pair) pair :=
  (parses_point 2 pair.point).bind ((parses_array pair.scalar).map (G1MsmPair.mk pair.point))

theorem parses_g2MsmPair (pair : G2MsmPair) : Parses g2MsmPair (padG2MsmPair pair) pair :=
  (parses_point 4 pair.point).bind ((parses_array pair.scalar).map (G2MsmPair.mk pair.point))

theorem parses_pairingPair (pair : PairingPair) : Parses pairingPair (padPairingPair pair) pair :=
  (parses_point 2 pair.g1).bind ((parses_point 4 pair.g2).map (PairingPair.mk pair.g1))

/-! ### Several pairs -/

section

variable {α β : Type}

/-- A function over several pairs hands exactly the pairs it is given to the precompile, in
order, and passes on the output of a successful call.  The layout of a pair is `pair`, the
caller's object meets `room`, and `result` is what it becomes.  A number of pairs that is
out of range, or a call that fails, leaves the object as it is. -/
structure Faithful (f : CallPrecompile → List α → ℕ → β → Option (ZkvmStatus × β)) (idLo : UInt8)
    (maxPairs outLen : ℕ) (pair : Parser α) (room : β → Prop) (result : Bytes → β) : Prop where
  marshals : ∀ pairs numPairs, 0 < numPairs → numPairs ≤ maxPairs → numPairs ≤ pairs.length →
    ∃ input, (many pair numPairs).all input = some (pairs.take numPairs) ∧ ∀ call output,
      ((call (precompileMessage idLo 0 input)).Succeeds outLen → room output →
        f call pairs numPairs output =
          some (.eok, result (call (precompileMessage idLo 0 input)).outputData)) ∧
      (¬(call (precompileMessage idLo 0 input)).Succeeds outLen →
        f call pairs numPairs output = some (.efail, output))
  rejects : ∀ pairs numPairs, numPairs = 0 ∨ maxPairs < numPairs → ∀ call output,
    f call pairs numPairs output = some (.efail, output)

/-- Reading the elements of a list by index. -/
theorem flatMap_range_getElem? (encode : α → Bytes) (l : List α) (n : ℕ) :
    ((List.range n).flatMap fun i => (l[i]?.map encode).getD []) = (l.take n).flatMap encode := by
  induction n with
  | zero => rfl
  | succ n ih =>
    rw [List.range_succ, List.flatMap_append, ih, List.take_add_one, List.flatMap_append,
      List.flatMap_singleton]
    cases l[n]? <;> simp

/-- **What has to be known of the code for one pair**: it appends an encoding of the pair,
of the length of the stride, and the last step gives the result. -/
theorem faithful_bls12Call {idLo : UInt8} {maxPairs stride outLen : ℕ}
    {marshal : α → ℕ → Block → Option Block} {finish : Block → β → Option β} {encode : α → Bytes}
    {pair : Parser α} {room : β → Prop} {result : Bytes → β}
    (hmarshal : ∀ a off, Appends (marshal a off) (encode a) off)
    (hstride : ∀ a, (encode a).length = stride) (hparse : ∀ a, Parses pair (encode a) a)
    (hfinish : ∀ data output, data.length = outLen → room output →
      finish (.ofBytes data) output = some (result data)) :
    Faithful (bls12Call idLo maxPairs stride outLen marshal finish) idLo maxPairs outLen pair room
      result := by
  refine ⟨?_, fun pairs numPairs hout call output =>
    if_pos hout⟩
  intro pairs numPairs hpos hmax hpairs
  set input := (pairs.take numPairs).flatMap encode with hinput
  have htake : (pairs.take numPairs).length = numPairs := by rw [List.length_take]; omega
  have hsize : input.length = numPairs * stride := by
    rw [hinput, length_flatMap_of_length fun a _ => hstride a, htake]
  have hparsed : (many pair numPairs).all input = some (pairs.take numPairs) := by
    have h := (Parses.many (l := pairs.take numPairs) fun a _ => hparse a).all
    rwa [htake] at h
  -- The loop appends one pair after the other.
  have hloop : Appends (Block.forRange numPairs fun i input => do
      let pair ← pairs[i]?
      marshal pair (i * stride) input) input 0 := by
    rw [hinput, ← flatMap_range_getElem?]
    have hget : ∀ i < numPairs, ∃ a, pairs[i]? = some a :=
      fun i hi => ⟨_, List.getElem?_eq_getElem (hi.trans_le hpairs)⟩
    refine Appends.forRange stride ?_ ?_
    · intro i hi
      obtain ⟨a, ha⟩ := hget i hi
      rw [ha]
      exact hstride a
    · intro i hi
      obtain ⟨a, ha⟩ := hget i hi
      rw [ha, Nat.zero_add]
      exact hmarshal a _
  have hfilled := hloop [] (.uninit (maxPairs * stride)) rfl
    (by rw [hsize, Block.length_uninit]; exact Nat.mul_le_mul_right _ hmax)
  rw [Block.ofBytes_nil, List.nil_append, List.nil_append] at hfilled
  have hcall : ∀ call output, bls12Call idLo maxPairs stride outLen marshal finish call pairs
      numPairs output =
        ((call (precompileMessage idLo 0 input)).copyTo (.uninit outLen) outLen).bind fun x =>
          if x.1 then (finish x.2 output).bind fun output => some (.eok, output)
          else some (.efail, output) := by
    intro call output
    rw [bls12Call, if_neg (by omega)]
    simp only [hfilled]
    simp only [Option.bind_eq_bind, Option.bind_some, runPrecompile_append call idLo 0 hsize]
    rfl
  refine ⟨input, hparsed, fun call output => ⟨?_, ?_⟩⟩
  · intro hok hroom
    rw [hcall, copyTo_of_success hok (Block.length_uninit outLen), Option.bind_some, if_pos rfl,
      hfinish _ _ hok.2 hroom, Option.bind_some]
  · intro hfail
    rw [hcall, copyTo_of_failure hfail]
    rfl

end

/-! ### The three functions -/

/-- `unpad_g1` and `unpad_g2` fill the caller's point. -/
theorem unpad_eq {n : ℕ} {data : Bytes} {output : Block} (hdata : data.length = 64 * n)
    (houtput : output.length = 48 * n) :
    Block.forRange n (fun i out => unpadFp (.ofBytes data) (64 * i) (48 * i) out) output =
      some (.ofBytes (unpadFields n data)) := by
  have hlen : (unpadFields n data).length = output.length := by
    rw [unpadFields, length_flatMap_of_length fun i hi =>
      length_window_of_le (by have := List.mem_range.mp hi; omega), List.length_range, houtput,
      Nat.mul_comm]
  have h := appends_unpadFields hdata.ge [] output rfl hlen.le
  rwa [Block.ofBytes_nil, List.nil_append, List.nil_append, hlen, List.drop_length,
    List.append_nil] at h

/-- The last byte of a string. -/
theorem window_last {data : Bytes} {n : ℕ} {x : UInt8} (h : data.length = n + 1) :
    window data n 1 = [x] ↔ data.getLast? = some x := by
  obtain ⟨last, hlast⟩ := List.length_eq_one_iff.mp
    (show (data.drop n).length = 1 by rw [List.length_drop]; omega)
  have hdata : data = data.take n ++ [last] := by rw [← hlast, List.take_append_drop]
  rw [window_eq_drop h.symm, hlast, hdata, List.getLast?_concat, Option.some.injEq,
    List.singleton_inj]

/-- **The three functions are faithful**: `zkvm_bls12_g1_msm` for up to 64 pairs,
`zkvm_bls12_g2_msm` and `zkvm_bls12_pairing` for up to 32. -/
theorem bls12_faithful :
    Faithful zkvmBls12G1Msm 0x0c 64 128 g1MsmPair (fun output => output.length = 96)
      (fun data => .ofBytes (unpadFields 2 data)) ∧
    Faithful zkvmBls12G2Msm 0x0e 32 256 g2MsmPair (fun output => output.length = 192)
      (fun data => .ofBytes (unpadFields 4 data)) ∧
    Faithful zkvmBls12Pairing 0x0f 32 32 pairingPair (fun _ => True)
      (fun data => decide (data.getLast? = some 1)) := by
  refine ⟨?_, ?_, ?_⟩
  · -- Each call is settled by what one pair appends, its length, its parse and the output.
    refine faithful_bls12Call ?_ ?_ parses_g1MsmPair
      ?_
    · intro pair off
      have hpoint := appends_padFields (n := 2) off pair.point.toList_length.ge
      rw [← padG1_eq] at hpoint
      apply hpoint.bind
      rw [length_padFields 2 pair.point.toList_length.ge]
      exact appends_store _ _
    · intro pair
      rw [padG1MsmPair, List.length_append, length_padFields 2 pair.point.toList_length.ge,
        pair.scalar.toList_length]
    · intro data output hdata hroom
      rw [unpadG1_eq]
      exact unpad_eq hdata hroom
  · refine faithful_bls12Call ?_ ?_ parses_g2MsmPair
      fun data output hdata hroom => unpad_eq hdata hroom
    · intro pair off
      apply (appends_padFields (n := 4) off pair.point.toList_length.ge).bind
      rw [length_padFields 4 pair.point.toList_length.ge]
      exact appends_store _ _
    · intro pair
      rw [padG2MsmPair, List.length_append, length_padFields 4 pair.point.toList_length.ge,
        pair.scalar.toList_length]
  · refine faithful_bls12Call ?_ ?_ parses_pairingPair
      ?_
    · intro pair off
      have hpoint := appends_padFields (n := 2) off pair.g1.toList_length.ge
      rw [← padG1_eq] at hpoint
      apply hpoint.bind
      rw [length_padFields 2 pair.g1.toList_length.ge]
      exact appends_padFields _ pair.g2.toList_length.ge
    · intro pair
      rw [padPairingPair, List.length_append, length_padFields 2 pair.g1.toList_length.ge,
        length_padFields 4 pair.g2.toList_length.ge]
    · intro data output hdata _
      rw [Block.load_ofBytes (by omega), Option.bind_eq_bind, Option.bind_some]
      exact congrArg some (decide_eq_decide.mpr (window_last hdata))

end StatelessGuest
