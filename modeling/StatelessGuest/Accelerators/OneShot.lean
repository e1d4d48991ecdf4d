import StatelessGuest.Accelerators.Bls12

/-!
# Accelerators with a fixed input

The remaining accelerator functions fill an input of a fixed size and run one precompile on
it.  Some of them have the output written to the caller's object, some remove the padding
from a local array, and some only look at the last byte.

## Main definitions

* `runInto`, `runThrough` — the two ways in which the output reaches the caller.
* `zkvmBn254G1Add`, …, `zkvmSecp256r1Verify` — the functions.
* `HandsOver` — a function hands over exactly its arguments, and passes on the output.

## Main results

* `runInto_passes`, `runThrough_passes` — what has to be known of the code that fills the
  input.
* `oneShot_faithful` — **the functions with an output object hand over their arguments.**
* `verdicts_faithful` — **so do the functions that answer yes or no.**
-/

namespace StatelessGuest

open Ssz Memory Format

/-! ### The types -/

/-- `zkvm_bn254_g1_point` -/
abbrev Bn254G1Point := ByteVec 64

/-- `zkvm_bn254_g2_point` -/
abbrev Bn254G2Point := ByteVec 128

/-- `zkvm_bn254_pairing_pair` -/
structure Bn254PairingPair where
  g1 : Bn254G1Point
  g2 : Bn254G2Point

/-- What `zkvm_blake2f` compresses: the state before, and the other arguments. -/
structure Blake2fArgs where
  rounds : UInt32
  state : ByteVec 64
  message : ByteVec 128
  offset : ByteVec 16
  finalBlock : UInt8

/-- What the point evaluation is about. -/
structure KzgClaim where
  versionedHash : ByteVec 32
  z : ByteVec 32
  y : ByteVec 32
  commitment : ByteVec 48
  proof : ByteVec 48

/-- What a signature on secp256r1 is about. -/
structure Secp256r1Claim where
  msg : ByteVec 32
  sig : ByteVec 64
  pubkey : ByteVec 64

/-! ### What the functions share -/

section

variable {β : Type}

/-- Fill a local array of `inputLen` bytes and run the precompile on it, with its output
straight to the caller's object. -/
def runInto (idLo : UInt8) (inputLen outLen : ℕ) (marshal : Block → Option Block)
    (call : CallPrecompile) (output : Block) : Option (ZkvmStatus × Block) := do
  let input ← marshal (Block.uninit inputLen)
  let (ok, output) ← runPrecompile call idLo 0 input inputLen output outLen
  pure (.ofBool ok, output)

/-- The same with its output to a local array, from which the caller's object is made. -/
def runThrough (idLo : UInt8) (inputLen outLen : ℕ) (marshal : Block → Option Block)
    (finish : Block → β → Option β) (call : CallPrecompile) (output : β) :
    Option (ZkvmStatus × β) := do
  let input ← marshal (Block.uninit inputLen)
  let (ok, out) ← runPrecompile call idLo 0 input inputLen (Block.uninit outLen) outLen
  if ok then do
    let output ← finish out output
    pure (.eok, output)
  else pure (.efail, output)

end

/-! ### The functions -/

/-- `zkvm_ripemd160` -/
def zkvmRipemd160 (call : CallPrecompile) (data : Block) (len : ℕ) (output : Block) :
    Option (ZkvmStatus × Block) := do
  let (ok, output) ← runPrecompile call 0x03 0 data len output 32
  pure (.ofBool ok, output)

/-- `zkvm_bn254_g1_add` -/
def zkvmBn254G1Add (call : CallPrecompile) (p1 p2 : Bn254G1Point) :
    Block → Option (ZkvmStatus × Block) :=
  runInto 0x06 128 64 (fun input => do
    let input ← input.store p1.toList 0
    input.store p2.toList 64) call

/-- `zkvm_bn254_g1_mul` -/
def zkvmBn254G1Mul (call : CallPrecompile) (point : Bn254G1Point) (scalar : ByteVec 32) :
    Block → Option (ZkvmStatus × Block) :=
  runInto 0x07 96 64 (fun input => do
    let input ← input.store point.toList 0
    input.store scalar.toList 64) call

/-- `zkvm_blake2f`, which compresses the state in place. -/
def zkvmBlake2f (call : CallPrecompile) (rounds : UInt32) (message : ByteVec 128)
    (offset : ByteVec 16) (finalBlock : UInt8) (state : Block) : Option (ZkvmStatus × Block) :=
  runInto 0x09 213 64 (fun input => do
    let input ← input.store [(rounds >>> 24).toUInt8] 0
    let input ← input.store [(rounds >>> 16).toUInt8] 1
    let input ← input.store [(rounds >>> 8).toUInt8] 2
    let input ← input.store [rounds.toUInt8] 3
    let h ← state.load 0 64
    let input ← input.store h 4
    let input ← input.store message.toList 68
    let input ← input.store offset.toList 196
    input.store [finalBlock] 212) call state

/-- `zkvm_bls12_g1_add` -/
def zkvmBls12G1Add (call : CallPrecompile) (p1 p2 : G1Point) :
    Block → Option (ZkvmStatus × Block) :=
  runThrough 0x0b 256 128 (fun input => do
    let input ← padG1 (.ofBytes p1.toList) 0 input
    padG1 (.ofBytes p2.toList) 128 input) unpadG1 call

/-- `zkvm_bls12_g2_add` -/
def zkvmBls12G2Add (call : CallPrecompile) (p1 p2 : G2Point) :
    Block → Option (ZkvmStatus × Block) :=
  runThrough 0x0d 512 256 (fun input => do
    let input ← padG2 (.ofBytes p1.toList) 0 input
    padG2 (.ofBytes p2.toList) 256 input) unpadG2 call

/-- `zkvm_bls12_map_fp_to_g1` -/
def zkvmBls12MapFpToG1 (call : CallPrecompile) (fieldElement : ByteVec 48) :
    Block → Option (ZkvmStatus × Block) :=
  runThrough 0x10 64 128 (padFp (.ofBytes fieldElement.toList) 0 0) unpadG1 call

/-- `zkvm_bls12_map_fp2_to_g2` -/
def zkvmBls12MapFp2ToG2 (call : CallPrecompile) (fieldElement : ByteVec 96) :
    Block → Option (ZkvmStatus × Block) :=
  runThrough 0x11 128 256 (fun input => do
    let input ← padFp (.ofBytes fieldElement.toList) 0 0 input
    padFp (.ofBytes fieldElement.toList) 48 64 input) unpadG2 call

/-- The bytes of an array of pairs in memory. -/
def Bn254PairingPair.toBytes (pair : Bn254PairingPair) : Bytes := pair.g1.toList ++ pair.g2.toList

/-- `zkvm_bn254_pairing`, which hands over the caller's array. -/
def zkvmBn254Pairing (call : CallPrecompile) (pairs : List Bn254PairingPair) (numPairs : ℕ)
    (output : Bool) : Option (ZkvmStatus × Bool) := do
  let (ok, out) ← runPrecompile call 0x08 0 (.ofBytes (pairs.flatMap Bn254PairingPair.toBytes))
    (numPairs * 192) (Block.uninit 32) 32
  if ok then do
    let last ← out.load 31 1
    pure (.eok, decide (last = [1]))
  else pure (.efail, output)

/-- `zkvm_kzg_point_eval`, which never fails. -/
def zkvmKzgPointEval (sha256 : Bytes → Bytes32) (call : CallPrecompile) (commitment : ByteVec 48)
    (z y : ByteVec 32) (proof : ByteVec 48) : Option (ZkvmStatus × Bool) := do
  let vh ← (Block.ofBytes (sha256 commitment.toList).toList).store [0x01] 0
  let hash ← vh.load 0 32
  let fill : Block → Option Block := fun input => do
    let input ← input.store hash 0
    let input ← input.store z.toList 32
    let input ← input.store y.toList 64
    let input ← input.store commitment.toList 96
    input.store proof.toList 144
  let input ← fill (Block.uninit 192)
  let (ok, _) ← runPrecompile call 0x0a 0 input 192 (Block.uninit 64) 64
  pure (.eok, ok)

/-- `zkvm_secp256r1_verify` -/
def zkvmSecp256r1Verify (call : CallPrecompile) (msg : ByteVec 32) (sig pubkey : ByteVec 64)
    (verified : Bool) : Option (ZkvmStatus × Bool) := do
  let fill : Block → Option Block := fun input => do
    let input ← input.store msg.toList 0
    let input ← input.store sig.toList 32
    input.store pubkey.toList 96
  let input ← fill (Block.uninit 160)
  let inputData ← input.load 0 160
  let res := call (precompileMessage 0 0x01 inputData)
  if res.statusCode ≠ .success then pure (.efail, verified)
  else pure (.eok, decide (res.outputData.length = 32 ∧ res.outputData[31]? = some 1))

/-! ### The layouts -/

/-- Two values in sequence. -/
def both {α β : Type} (p : Parser α) (q : Parser β) : Parser (α × β) := do
  let a ← p
  let b ← q
  pure (a, b)

/-- The rounds, the state, the message, the offset and the flag. -/
def blake2fInput : Parser Blake2fArgs := do
  let rounds ← natBE 4
  let state ← array 64
  let message ← array 128
  let offset ← array 16
  let finalBlock ← natBE 1
  pure ⟨.ofNat rounds, state, message, offset, .ofNat finalBlock⟩

/-- A point of G1 and a point of G2. -/
def bn254PairingPair : Parser Bn254PairingPair := do
  let g1 ← array 64
  let g2 ← array 128
  pure ⟨g1, g2⟩

/-- The versioned hash, the point, its value, the commitment and the proof. -/
def kzgInput : Parser KzgClaim := do
  let versionedHash ← array 32
  let z ← array 32
  let y ← array 32
  let commitment ← array 48
  let proof ← array 48
  pure ⟨versionedHash, z, y, commitment, proof⟩

/-- The hash, the two halves of the signature, and the two coordinates of the key. -/
def secp256r1Input : Parser Secp256r1Claim := do
  let msg ← array 32
  let sig ← array 64
  let pubkey ← array 64
  pure ⟨msg, sig, pubkey⟩

/-! ### What a function answers -/

section

variable {α β : Type}

/-- The answer passes on the output of a successful call, and is a failure that leaves the
caller's object as it is for any other. -/
def Passes (res : EvmcResult) (outLen : ℕ) (answer : Option (ZkvmStatus × β)) (output : β)
    (result : Bytes → β) : Prop :=
  (res.Succeeds outLen → answer = some (.eok, result res.outputData)) ∧
    (¬res.Succeeds outLen → answer = some (.efail, output))

/-- A function hands exactly its arguments to the precompile, in the layout `format`, and
passes on its output.  The caller's object meets `room`, and `result` is what it becomes. -/
def HandsOver (f : CallPrecompile → α → β → Option (ZkvmStatus × β)) (idLo : UInt8) (outLen : ℕ)
    (format : Parser α) (room : α → β → Prop) (result : Bytes → β) : Prop :=
  ∀ a, ∃ input, format.all input = some a ∧ ∀ call output, room a output →
    Passes (call (precompileMessage idLo 0 input)) outLen (f call a output) output result

variable {idLo : UInt8} {inputLen outLen : ℕ} {marshal : Block → Option Block} {input : Bytes}

/-- Code that appends an input fills a local array of its size. -/
theorem fills_of_appends (h : Appends marshal input 0) :
    marshal (Block.uninit input.length) = some (.ofBytes input) := by
  have hfilled := h [] (Block.uninit input.length) rfl (Block.length_uninit _).ge
  rwa [Block.ofBytes_nil, List.nil_append, List.nil_append, Block.uninit, List.drop_replicate,
    Nat.sub_self, List.replicate_zero, List.append_nil] at hfilled

/-- A call on a filled array. -/
theorem runPrecompile_ofBytes (call : CallPrecompile) (idHi : UInt8) (out : Block) :
    runPrecompile call idLo idHi (.ofBytes input) input.length out outLen =
      (call (precompileMessage idLo idHi input)).copyTo out outLen := by
  have h := @runPrecompile_append call idLo idHi input [] _ rfl out outLen
  rwa [List.append_nil] at h

/-- The output of a successful call fills the caller's object. -/
theorem runInto_passes (h : Appends marshal input 0) (call : CallPrecompile) {output : Block}
    (houtput : output.length = outLen) :
    Passes (call (precompileMessage idLo 0 input)) outLen
      (runInto idLo input.length outLen marshal call output) output .ofBytes := by
  have hrun : runInto idLo input.length outLen marshal call output =
      ((call (precompileMessage idLo 0 input)).copyTo output outLen).bind fun x =>
        some (.ofBool x.1, x.2) := by
    rw [runInto, fills_of_appends h]
    simp only [Option.bind_eq_bind, Option.bind_some, runPrecompile_ofBytes]
    rfl
  constructor
  · intro hok
    rw [hrun, copyTo_of_success hok houtput]
    rfl
  · intro hfail
    rw [hrun, copyTo_of_failure hfail]
    rfl

/-- The output of a successful call is finished into the caller's object. -/
theorem runThrough_passes {finish : Block → β → Option β} {result : Bytes → β}
    (h : Appends marshal input 0) (call : CallPrecompile) {output : β}
    (hfinish : ∀ data : Bytes, data.length = outLen →
      finish (.ofBytes data) output = some (result data)) :
    Passes (call (precompileMessage idLo 0 input)) outLen
      (runThrough idLo input.length outLen marshal finish call output) output result := by
  have hrun : runThrough idLo input.length outLen marshal finish call output =
      ((call (precompileMessage idLo 0 input)).copyTo (.uninit outLen) outLen).bind fun x =>
        if x.1 then (finish x.2 output).bind fun output => some (.eok, output)
        else some (.efail, output) := by
    rw [runThrough, fills_of_appends h]
    simp only [Option.bind_eq_bind, Option.bind_some, runPrecompile_ofBytes]
    rfl
  constructor
  · intro hok
    rw [hrun, copyTo_of_success hok (Block.length_uninit outLen), Option.bind_some, if_pos rfl,
      hfinish _ hok.2, Option.bind_some]
  · intro hfail
    rw [hrun, copyTo_of_failure hfail]
    rfl

/-- **What has to be known of a function that writes to the caller's object.** -/
theorem handsOver_runInto {format : Parser α} {encode : α → Bytes}
    {marshal : α → Block → Block → Option Block} {room : α → Block → Prop}
    (hlen : ∀ a, (encode a).length = inputLen) (hparse : ∀ a, Parses format (encode a) a)
    (happends : ∀ a output, room a output → Appends (marshal a output) (encode a) 0)
    (hroom : ∀ a output, room a output → output.length = outLen) :
    HandsOver (fun call a output => runInto idLo inputLen outLen (marshal a output) call output)
      idLo outLen format room .ofBytes := by
  intro a
  refine ⟨encode a, (hparse a).all, ?_⟩
  intro call output h
  have hpasses : Passes (call (precompileMessage idLo 0 (encode a))) outLen
      (runInto idLo (encode a).length outLen (marshal a output) call output) output .ofBytes :=
    runInto_passes (happends a output h) call (hroom a output h)
  rwa [hlen a] at hpasses

/-- **What has to be known of a function that finishes the output.** -/
theorem handsOver_runThrough {format : Parser α} {encode : α → Bytes}
    {marshal : α → Block → Option Block} {finish : Block → β → Option β} {room : β → Prop}
    {result : Bytes → β} (hlen : ∀ a, (encode a).length = inputLen)
    (hparse : ∀ a, Parses format (encode a) a)
    (happends : ∀ a, Appends (marshal a) (encode a) 0)
    (hfinish : ∀ (data : Bytes) output, data.length = outLen → room output →
      finish (.ofBytes data) output = some (result data)) :
    HandsOver (fun call a output => runThrough idLo inputLen outLen (marshal a) finish call output)
      idLo outLen format (fun _ => room) result := by
  intro a
  refine ⟨encode a, (hparse a).all, ?_⟩
  intro call output h
  have hpasses : Passes (call (precompileMessage idLo 0 (encode a))) outLen
      (runThrough idLo (encode a).length outLen (marshal a) finish call output) output result :=
    runThrough_passes (happends a) call fun data hdata => hfinish data output hdata h
  rwa [hlen a] at hpasses

end

/-! ### Filling the input -/

theorem parses_both {α β : Type} {p : Parser α} {q : Parser β} {enc enc' : Bytes} {a : α} {b : β}
    (hp : Parses p enc a) (hq : Parses q enc' b) : Parses (both p q) (enc ++ enc') (a, b) :=
  hp.bind (hq.map (Prod.mk a))

/-- An array is read as a whole. -/
theorem load_whole {n : ℕ} (v : ByteVec n) : (Block.ofBytes v.toList).load 0 n = some v.toList := by
  rw [Block.load_ofBytes (by rw [v.toList_length, Nat.zero_add]), window_self v.toList_length]

/-- Two arguments, the first of which is `k` bytes long. -/
theorem appends_two {f g : Block → Option Block} {a b : Bytes} {k : ℕ} (ha : a.length = k)
    (hf : Appends f a 0) (hg : Appends g b k) :
    Appends (fun input => f input >>= g) (a ++ b) 0 :=
  hf.bind (by rwa [Nat.zero_add, ha])

/-- The input of the compression. -/
def blake2fBytes (a : Blake2fArgs) : Bytes :=
  beBytes 4 a.rounds.toNat ++ (a.state.toList ++ (a.message.toList ++ (a.offset.toList ++
    beBytes 1 a.finalBlock.toNat)))

theorem length_blake2fBytes (a : Blake2fArgs) : (blake2fBytes a).length = 213 := by
  simp only [blake2fBytes, List.length_append, length_beBytes, List.Vector.toList_length]

theorem parses_blake2f (a : Blake2fArgs) : Parses blake2fInput (blake2fBytes a) a := by
  obtain ⟨rounds, state, message, offset, finalBlock⟩ := a
  have h : Parses blake2fInput (blake2fBytes ⟨rounds, state, message, offset, finalBlock⟩)
      ⟨.ofNat rounds.toNat, state, message, offset, .ofNat finalBlock.toNat⟩ :=
    (parses_natBE rounds.toNat_lt).bind ((parses_array state).bind
      ((parses_array message).bind ((parses_array offset).bind
        ((parses_natBE finalBlock.toNat_lt).map fun n =>
          Blake2fArgs.mk _ state message offset (.ofNat n)))))
  rwa [UInt32.ofNat_toNat, UInt8.ofNat_toNat] at h

/-- The bytes of the rounds, most significant byte first. -/
theorem beBytes_rounds (rounds : UInt32) : beBytes 4 rounds.toNat =
    [(rounds >>> 24).toUInt8, (rounds >>> 16).toUInt8, (rounds >>> 8).toUInt8, rounds.toUInt8] := by
  have hbyte : ∀ k : UInt32, ∀ n, k.toNat % 32 = 8 * n →
      UInt8.ofNat (rounds.toNat / 256 ^ n) = (rounds >>> k).toUInt8 := by
    intro k n hk
    rw [← UInt8.toNat_inj, UInt32.toNat_toUInt8, UInt32.toNat_shiftRight, hk,
      Nat.shiftRight_eq_div_pow, Nat.pow_mul]
    rfl
  have h₃ := hbyte 24 3 rfl
  have h₂ := hbyte 16 2 rfl
  have h₁ := hbyte 8 1 rfl
  have h₀ : UInt8.ofNat (rounds.toNat / 256 ^ 0) = rounds.toUInt8 := by
    rw [Nat.pow_zero, Nat.div_one]
    rfl
  rw [beBytes_succ, beBytes_succ, beBytes_succ, beBytes_succ, h₃, h₂, h₁, h₀]
  rfl

/-- `zkvm_blake2f` fills its input with its arguments. -/
theorem appends_blake2f (a : Blake2fArgs) :
    Appends (fun input => do
      let input ← input.store [(a.rounds >>> 24).toUInt8] 0
      let input ← input.store [(a.rounds >>> 16).toUInt8] 1
      let input ← input.store [(a.rounds >>> 8).toUInt8] 2
      let input ← input.store [a.rounds.toUInt8] 3
      let h ← (Block.ofBytes a.state.toList).load 0 64
      let input ← input.store h 4
      let input ← input.store a.message.toList 68
      let input ← input.store a.offset.toList 196
      input.store [a.finalBlock] 212) (blake2fBytes a) 0 := by
  simp only [load_whole, Option.bind_eq_bind, Option.bind_some]
  have hfinal : beBytes 1 a.finalBlock.toNat = [a.finalBlock] := by
    rw [beBytes_succ, Nat.pow_zero, Nat.div_one, UInt8.ofNat_toNat]
    rfl
  rw [blake2fBytes, beBytes_rounds, hfinal]
  -- The stores follow each other, each where the one before it ends.
  have hoffset := (appends_store a.offset.toList 196).bind
    (by rw [a.offset.toList_length]; exact appends_store [a.finalBlock] 212)
  have hmessage := (appends_store a.message.toList 68).bind
    (by rw [a.message.toList_length]; exact hoffset)
  have hstate := (appends_store a.state.toList 4).bind
    (by rw [a.state.toList_length]; exact hmessage)
  exact (appends_store [_] 0).bind ((appends_store [_] 1).bind ((appends_store [_] 2).bind
    ((appends_store [_] 3).bind hstate)))

/-- A padded point from `off` on. -/
theorem appends_padG1 (p : G1Point) (off : ℕ) :
    Appends (padG1 (.ofBytes p.toList) off) (padFields 2 p.toList) off := by
  rw [padG1_eq]
  exact appends_padFields off p.toList_length.ge

theorem appends_padG2 (p : G2Point) (off : ℕ) :
    Appends (padG2 (.ofBytes p.toList) off) (padFields 4 p.toList) off :=
  appends_padFields off p.toList_length.ge

/-- A single field element. -/
theorem appends_padFp_one (fieldElement : ByteVec 48) :
    Appends (padFp (.ofBytes fieldElement.toList) 0 0) (padFields 1 fieldElement.toList) 0 := by
  have hloop : padFp (.ofBytes fieldElement.toList) 0 0 = Block.forRange 1 fun i out =>
      padFp (.ofBytes fieldElement.toList) (48 * i) (0 + 64 * i) out := by
    funext out
    rw [Block.forRange_succ, Block.forRange_zero]
    rfl
  rw [hloop]
  exact appends_padFields 0 fieldElement.toList_length.ge

/-! ### The functions with an output object -/

/-- Two byte arrays for one of the functions on BN254. -/
theorem handsOver_arrays {n k outLen inputLen : ℕ} {idLo : UInt8} (hsum : n + k = inputLen) :
    HandsOver (fun call a => runInto idLo inputLen outLen (fun input => do
        let input ← input.store a.1.toList 0
        input.store a.2.toList n) call) idLo outLen (both (array n) (array k))
      (fun _ output => output.length = outLen) .ofBytes := by
  have hlen : ∀ a : ByteVec n × ByteVec k, (a.1.toList ++ a.2.toList).length = inputLen := by
    intro a
    rw [List.length_append, a.1.toList_length, a.2.toList_length, hsum]
  exact handsOver_runInto hlen (fun a => parses_both (parses_array a.1) (parses_array a.2))
    (fun a _ _ => appends_two a.1.toList_length (appends_store _ 0) (appends_store _ n))
    fun _ _ h => h

theorem handsOver_blake2f :
    HandsOver (fun call a => zkvmBlake2f call a.rounds a.message a.offset a.finalBlock) 0x09 64
      blake2fInput (fun a state => state = .ofBytes a.state.toList) .ofBytes := by
  refine handsOver_runInto length_blake2fBytes parses_blake2f ?_ ?_
  · rintro a _ rfl
    exact appends_blake2f a
  · rintro a _ rfl
    rw [Block.length_ofBytes, a.state.toList_length]

theorem unpadG1_ofBytes (data : Bytes) (output : Block) (hdata : data.length = 128)
    (houtput : output.length = 96) :
    unpadG1 (.ofBytes data) output = some (.ofBytes (unpadFields 2 data)) := by
  rw [unpadG1_eq]
  exact unpad_eq hdata houtput

theorem unpadG2_ofBytes (data : Bytes) (output : Block) (hdata : data.length = 256)
    (houtput : output.length = 192) :
    unpadG2 (.ofBytes data) output = some (.ofBytes (unpadFields 4 data)) :=
  unpad_eq hdata houtput

theorem handsOver_bls12G1Add :
    HandsOver (fun call a => zkvmBls12G1Add call a.1 a.2) 0x0b 128 (both (point 2) (point 2))
      (fun _ output => output.length = 96) (fun data => .ofBytes (unpadFields 2 data)) := by
  have hlen : ∀ p : G1Point, (padFields 2 p.toList).length = 128 :=
    fun p => length_padFields 2 p.toList_length.ge
  have happends : ∀ a : G1Point × G1Point,
      Appends (fun input => padG1 (.ofBytes a.1.toList) 0 input >>= padG1 (.ofBytes a.2.toList) 128)
        (padFields 2 a.1.toList ++ padFields 2 a.2.toList) 0 :=
    fun a => appends_two (hlen a.1) (appends_padG1 a.1 0) (appends_padG1 a.2 128)
  exact handsOver_runThrough (fun a => by rw [List.length_append, hlen, hlen])
    (fun a => parses_both (parses_point 2 a.1) (parses_point 2 a.2)) happends unpadG1_ofBytes

theorem handsOver_bls12G2Add :
    HandsOver (fun call a => zkvmBls12G2Add call a.1 a.2) 0x0d 256 (both (point 4) (point 4))
      (fun _ output => output.length = 192) (fun data => .ofBytes (unpadFields 4 data)) := by
  have hlen : ∀ p : G2Point, (padFields 4 p.toList).length = 256 :=
    fun p => length_padFields 4 p.toList_length.ge
  have happends : ∀ a : G2Point × G2Point,
      Appends (fun input => padG2 (.ofBytes a.1.toList) 0 input >>= padG2 (.ofBytes a.2.toList) 256)
        (padFields 4 a.1.toList ++ padFields 4 a.2.toList) 0 :=
    fun a => appends_two (hlen a.1) (appends_padG2 a.1 0) (appends_padG2 a.2 256)
  exact handsOver_runThrough (fun a => by rw [List.length_append, hlen, hlen])
    (fun a => parses_both (parses_point 4 a.1) (parses_point 4 a.2)) happends unpadG2_ofBytes

theorem handsOver_bls12MapFpToG1 :
    HandsOver (fun call a => zkvmBls12MapFpToG1 call a) 0x10 128 (point 1)
      (fun _ output => output.length = 96) (fun data => .ofBytes (unpadFields 2 data)) :=
  handsOver_runThrough (fun a => length_padFields 1 a.toList_length.ge) (parses_point 1)
    appends_padFp_one unpadG1_ofBytes

theorem handsOver_bls12MapFp2ToG2 :
    HandsOver (fun call a => zkvmBls12MapFp2ToG2 call a) 0x11 256 (point 2)
      (fun _ output => output.length = 192) (fun data => .ofBytes (unpadFields 4 data)) :=
  handsOver_runThrough (fun a => length_padFields 2 a.toList_length.ge) (parses_point 2)
    (fun a => appends_padG1 a 0) unpadG2_ofBytes

/-- `zkvm_ripemd160` hands over its data. -/
theorem zkvmRipemd160_passes (call : CallPrecompile) (data : Bytes) (tail : Block) {output : Block}
    (houtput : output.length = 32) :
    Passes (call (precompileMessage 0x03 0 data)) 32
      (zkvmRipemd160 call (.ofBytes data ++ tail) data.length output) output .ofBytes := by
  have hrun : zkvmRipemd160 call (.ofBytes data ++ tail) data.length output =
      ((call (precompileMessage 0x03 0 data)).copyTo output 32).bind fun x =>
        some (.ofBool x.1, x.2) := by
    rw [zkvmRipemd160, runPrecompile_append call 0x03 0 rfl]
    rfl
  constructor
  · intro hok
    rw [hrun, copyTo_of_success hok houtput]
    rfl
  · intro hfail
    rw [hrun, copyTo_of_failure hfail]
    rfl

/-- **The functions with an output object hand over their arguments**: each gives its
precompile an input that reads as exactly the arguments, fills the caller's object with the
output of a successful call, and otherwise leaves it as it is. -/
theorem oneShot_faithful :
    (∀ call data tail (output : Block), output.length = 32 →
      Passes (call (precompileMessage 0x03 0 data)) 32
        (zkvmRipemd160 call (.ofBytes data ++ tail) data.length output) output .ofBytes) ∧
    HandsOver (fun call a => zkvmBn254G1Add call a.1 a.2) 0x06 64 (both (array 64) (array 64))
      (fun _ output => output.length = 64) .ofBytes ∧
    HandsOver (fun call a => zkvmBn254G1Mul call a.1 a.2) 0x07 64 (both (array 64) (array 32))
      (fun _ output => output.length = 64) .ofBytes ∧
    HandsOver (fun call a => zkvmBlake2f call a.rounds a.message a.offset a.finalBlock) 0x09 64
      blake2fInput (fun a state => state = .ofBytes a.state.toList) .ofBytes ∧
    HandsOver (fun call a => zkvmBls12G1Add call a.1 a.2) 0x0b 128 (both (point 2) (point 2))
      (fun _ output => output.length = 96) (fun data => .ofBytes (unpadFields 2 data)) ∧
    HandsOver (fun call a => zkvmBls12G2Add call a.1 a.2) 0x0d 256 (both (point 4) (point 4))
      (fun _ output => output.length = 192) (fun data => .ofBytes (unpadFields 4 data)) ∧
    HandsOver (fun call a => zkvmBls12MapFpToG1 call a) 0x10 128 (point 1)
      (fun _ output => output.length = 96) (fun data => .ofBytes (unpadFields 2 data)) ∧
    HandsOver (fun call a => zkvmBls12MapFp2ToG2 call a) 0x11 256 (point 2)
      (fun _ output => output.length = 192) (fun data => .ofBytes (unpadFields 4 data)) :=
  ⟨fun call data tail _ => zkvmRipemd160_passes call data tail,
    handsOver_arrays rfl, handsOver_arrays rfl, handsOver_blake2f, handsOver_bls12G1Add,
    handsOver_bls12G2Add, handsOver_bls12MapFpToG1, handsOver_bls12MapFp2ToG2⟩

/-! ### The functions that answer yes or no -/

theorem parses_bn254PairingPair (pair : Bn254PairingPair) :
    Parses bn254PairingPair pair.toBytes pair :=
  (parses_array pair.g1).bind ((parses_array pair.g2).map (Bn254PairingPair.mk pair.g1))

/-- `zkvm_bn254_pairing` hands over the pairs it is given, also when there are none. -/
theorem zkvmBn254Pairing_passes {pairs : List Bn254PairingPair} {numPairs : ℕ}
    (h : numPairs ≤ pairs.length) :
    ∃ input, (many bn254PairingPair numPairs).all input = some (pairs.take numPairs) ∧
      ∀ call output, Passes (call (precompileMessage 0x08 0 input)) 32
        (zkvmBn254Pairing call pairs numPairs output) output
        fun data => decide (data.getLast? = some 1) := by
  have htake : (pairs.take numPairs).length = numPairs := by rw [List.length_take]; omega
  have hsize :
      ((pairs.take numPairs).flatMap Bn254PairingPair.toBytes).length = numPairs * 192 := by
    rw [length_flatMap_of_length fun pair _ => ?_, htake]
    rw [Bn254PairingPair.toBytes, List.length_append, pair.g1.toList_length, pair.g2.toList_length]
  have hparse := (Parses.many (l := pairs.take numPairs) fun a _ => parses_bn254PairingPair a).all
  rw [htake] at hparse
  have hsplit : pairs.flatMap Bn254PairingPair.toBytes =
      (pairs.take numPairs).flatMap Bn254PairingPair.toBytes ++
        (pairs.drop numPairs).flatMap Bn254PairingPair.toBytes := by
    rw [← List.flatMap_append, List.take_append_drop]
  refine ⟨_, hparse, ?_⟩
  intro call output
  generalize (pairs.take numPairs).flatMap Bn254PairingPair.toBytes = input at *
  have hrun : zkvmBn254Pairing call pairs numPairs output =
      ((call (precompileMessage 0x08 0 input)).copyTo (.uninit 32) 32).bind fun x =>
        if x.1 then (x.2.load 31 1).bind fun last => some (.eok, decide (last = [1]))
        else some (.efail, output) := by
    rw [zkvmBn254Pairing, hsplit, Block.ofBytes_append, runPrecompile_append call 0x08 0 hsize]
    rfl
  constructor
  · intro hok
    have hlast : (call (precompileMessage 0x08 0 input)).outputData.length = 31 + 1 := hok.2
    rw [hrun, copyTo_of_success hok (Block.length_uninit 32), Option.bind_some, if_pos rfl,
      Block.load_ofBytes (by omega), Option.bind_some]
    exact congrArg (fun b => some (ZkvmStatus.eok, b)) (decide_eq_decide.mpr (window_last hlast))
  · intro hfail
    rw [hrun, copyTo_of_failure hfail]
    rfl

/-- The versioned hash of a commitment. -/
def versionedHash (sha256 : Bytes → Bytes32) (commitment : ByteVec 48) : ByteVec 32 :=
  padTo 32 ((0x01 : UInt8) :: (sha256 commitment.toList).toList.drop 1)

/-- The input of the point evaluation. -/
def kzgBytes (a : KzgClaim) : Bytes :=
  a.versionedHash.toList ++ (a.z.toList ++ (a.y.toList ++ (a.commitment.toList ++ a.proof.toList)))

theorem parses_kzgInput (a : KzgClaim) : Parses kzgInput (kzgBytes a) a :=
  (parses_array a.versionedHash).bind ((parses_array a.z).bind ((parses_array a.y).bind
    ((parses_array a.commitment).bind
      ((parses_array a.proof).map (KzgClaim.mk a.versionedHash a.z a.y a.commitment)))))

theorem length_kzgBytes (a : KzgClaim) : (kzgBytes a).length = 192 := by
  simp only [kzgBytes, List.length_append, List.Vector.toList_length]

/-- `zkvm_kzg_point_eval` fills its input. -/
theorem appends_kzg (a : KzgClaim) :
    Appends (fun input => do
      let input ← input.store a.versionedHash.toList 0
      let input ← input.store a.z.toList 32
      let input ← input.store a.y.toList 64
      let input ← input.store a.commitment.toList 96
      input.store a.proof.toList 144) (kzgBytes a) 0 := by
  -- The arguments follow each other, each where the one before it ends.
  have hcommitment := (appends_store a.commitment.toList 96).bind
    (by rw [a.commitment.toList_length]; exact appends_store a.proof.toList 144)
  have hy := (appends_store a.y.toList 64).bind (by rw [a.y.toList_length]; exact hcommitment)
  have hz := (appends_store a.z.toList 32).bind (by rw [a.z.toList_length]; exact hy)
  exact appends_two a.versionedHash.toList_length (appends_store _ 0) hz

/-- The input of the verification. -/
def secp256r1Bytes (a : Secp256r1Claim) : Bytes :=
  a.msg.toList ++ (a.sig.toList ++ a.pubkey.toList)

theorem parses_secp256r1Input (a : Secp256r1Claim) :
    Parses secp256r1Input (secp256r1Bytes a) a :=
  (parses_array a.msg).bind ((parses_array a.sig).bind
    ((parses_array a.pubkey).map (Secp256r1Claim.mk a.msg a.sig)))

theorem length_secp256r1Bytes (a : Secp256r1Claim) : (secp256r1Bytes a).length = 160 := by
  simp only [secp256r1Bytes, List.length_append, List.Vector.toList_length]

/-- `zkvm_secp256r1_verify` fills its input. -/
theorem appends_secp256r1 (a : Secp256r1Claim) :
    Appends (fun input => do
      let input ← input.store a.msg.toList 0
      let input ← input.store a.sig.toList 32
      input.store a.pubkey.toList 96) (secp256r1Bytes a) 0 := by
  have hsig := (appends_store a.sig.toList 32).bind
    (by rw [a.sig.toList_length]; exact appends_store a.pubkey.toList 96)
  exact appends_two a.msg.toList_length (appends_store _ 0) hsig

/-- The first byte of the hash is replaced. -/
theorem store_versionedHash (sha256 : Bytes → Bytes32) (commitment : ByteVec 48) :
    (Block.ofBytes (sha256 commitment.toList).toList).store [0x01] 0 =
      some (.ofBytes (versionedHash sha256 commitment).toList) := by
  have hlen : (sha256 commitment.toList).toList.length = 32 := List.Vector.toList_length _
  have hbytes : (versionedHash sha256 commitment).toList =
      (0x01 : UInt8) :: (sha256 commitment.toList).toList.drop 1 := by
    rw [versionedHash, toList_padTo, takeD_self]
    rw [List.length_cons, List.length_drop, hlen]
  rw [Block.store, if_pos (by rw [Block.length_ofBytes, hlen]; decide), hbytes]
  simp [Block.ofBytes]

/-- `zkvm_kzg_point_eval` asks about the commitment and its versioned hash, and answers
whether the call succeeds. -/
theorem zkvmKzgPointEval_decides (sha256 : Bytes → Bytes32) (commitment : ByteVec 48)
    (z y : ByteVec 32) (proof : ByteVec 48) :
    ∃ input, kzgInput.all input =
        some ⟨versionedHash sha256 commitment, z, y, commitment, proof⟩ ∧
      ∀ call, ∃ verified, zkvmKzgPointEval sha256 call commitment z y proof =
          some (.eok, verified) ∧
        (verified = true ↔ (call (precompileMessage 0x0a 0 input)).Succeeds 64) := by
  refine ⟨_, (parses_kzgInput ⟨versionedHash sha256 commitment, z, y, commitment, proof⟩).all,
    ?_⟩
  intro call
  have hfill := fills_of_appends
    (appends_kzg ⟨versionedHash sha256 commitment, z, y, commitment, proof⟩)
  have hlen := length_kzgBytes ⟨versionedHash sha256 commitment, z, y, commitment, proof⟩
  generalize kzgBytes ⟨versionedHash sha256 commitment, z, y, commitment, proof⟩ = input at *
  have hcall := @runPrecompile_ofBytes 0x0a 64 input call 0 (.uninit 64)
  rw [hlen] at hfill hcall
  have hrun : zkvmKzgPointEval sha256 call commitment z y proof =
      ((call (precompileMessage 0x0a 0 input)).copyTo (.uninit 64) 64).bind fun x =>
        some (.eok, x.1) := by
    rw [zkvmKzgPointEval, store_versionedHash, Option.bind_eq_bind, Option.bind_some, load_whole,
      Option.bind_eq_bind, Option.bind_some, ← hcall]
    dsimp only at hfill ⊢
    rw [hfill]
    rfl
  by_cases hok : (call (precompileMessage 0x0a 0 input)).Succeeds 64
  · refine ⟨true, ?_, fun _ => hok, fun _ => rfl⟩
    rw [hrun, copyTo_of_success hok (Block.length_uninit 64)]
    rfl
  · refine ⟨false, ?_, fun h => absurd h Bool.false_ne_true, fun h => absurd h hok⟩
    rw [hrun, copyTo_of_failure hok]
    rfl

/-- `zkvm_secp256r1_verify` asks about the hash, the signature and the key, fails where the
call does, and otherwise answers whether the output is the number one. -/
theorem zkvmSecp256r1Verify_decides (msg : ByteVec 32) (sig pubkey : ByteVec 64) :
    ∃ input, secp256r1Input.all input = some ⟨msg, sig, pubkey⟩ ∧ ∀ call verified,
      ((call (precompileMessage 0 0x01 input)).statusCode = .success →
        ∃ b, zkvmSecp256r1Verify call msg sig pubkey verified = some (.eok, b) ∧
          (b = true ↔ (call (precompileMessage 0 0x01 input)).outputData.length = 32 ∧
            (call (precompileMessage 0 0x01 input)).outputData.getLast? = some 1)) ∧
      ((call (precompileMessage 0 0x01 input)).statusCode ≠ .success →
        zkvmSecp256r1Verify call msg sig pubkey verified = some (.efail, verified)) := by
  refine ⟨_, (parses_secp256r1Input ⟨msg, sig, pubkey⟩).all, ?_⟩
  intro call verified
  have hfill := fills_of_appends (appends_secp256r1 ⟨msg, sig, pubkey⟩)
  have hlen := length_secp256r1Bytes ⟨msg, sig, pubkey⟩
  generalize secp256r1Bytes ⟨msg, sig, pubkey⟩ = input at *
  rw [hlen] at hfill
  have hload : (Block.ofBytes input).load 0 160 = some input := by
    rw [Block.load_ofBytes hlen.ge, window_self hlen]
  have hrun : zkvmSecp256r1Verify call msg sig pubkey verified =
      if (call (precompileMessage 0 0x01 input)).statusCode ≠ .success then some (.efail, verified)
      else some (.eok, decide ((call (precompileMessage 0 0x01 input)).outputData.length = 32 ∧
        (call (precompileMessage 0 0x01 input)).outputData[31]? = some 1)) := by
    unfold zkvmSecp256r1Verify
    dsimp only at hfill ⊢
    rw [hfill, Option.bind_eq_bind, Option.bind_some, hload]
    rfl
  generalize call (precompileMessage 0 0x01 input) = res at hrun ⊢
  constructor
  · intro hok
    refine ⟨_, hrun.trans (if_neg (not_not.mpr hok)), ?_⟩
    rw [decide_eq_true_iff]
    apply and_congr_right
    intro hsize
    rw [List.getLast?_eq_getElem?, hsize]
  · intro hfail
    exact hrun.trans (if_pos hfail)

/-- **The functions that answer yes or no hand over their arguments**: the pairing check the
pairs it is given, also when there are none, the point evaluation the versioned hash of the
commitment with the rest, and the signature check its three arguments.  What they answer is
read off the outcome of the call. -/
theorem verdicts_faithful :
    (∀ (pairs : List Bn254PairingPair) (numPairs : ℕ), numPairs ≤ pairs.length →
      ∃ input, (many bn254PairingPair numPairs).all input = some (pairs.take numPairs) ∧
        ∀ call output, Passes (call (precompileMessage 0x08 0 input)) 32
          (zkvmBn254Pairing call pairs numPairs output) output
          fun data => decide (data.getLast? = some 1)) ∧
    (∀ sha256 commitment z y proof, ∃ input, kzgInput.all input =
        some ⟨versionedHash sha256 commitment, z, y, commitment, proof⟩ ∧
      ∀ call, ∃ verified, zkvmKzgPointEval sha256 call commitment z y proof =
          some (.eok, verified) ∧
        (verified = true ↔ (call (precompileMessage 0x0a 0 input)).Succeeds 64)) ∧
    ∀ msg sig pubkey, ∃ input, secp256r1Input.all input = some ⟨msg, sig, pubkey⟩ ∧
      ∀ call verified,
        ((call (precompileMessage 0 0x01 input)).statusCode = .success →
          ∃ b, zkvmSecp256r1Verify call msg sig pubkey verified = some (.eok, b) ∧
            (b = true ↔ (call (precompileMessage 0 0x01 input)).outputData.length = 32 ∧
              (call (precompileMessage 0 0x01 input)).outputData.getLast? = some 1)) ∧
        ((call (precompileMessage 0 0x01 input)).statusCode ≠ .success →
          zkvmSecp256r1Verify call msg sig pubkey verified = some (.efail, verified)) :=
  ⟨fun _ _ => zkvmBn254Pairing_passes, zkvmKzgPointEval_decides, zkvmSecp256r1Verify_decides⟩

end StatelessGuest
