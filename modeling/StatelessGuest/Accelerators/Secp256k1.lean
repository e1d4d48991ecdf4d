import StatelessGuest.Accelerators.Precompile
import StatelessGuest.Curve.Secp256k1
import StatelessGuest.Format.Parser

/-!
# secp256k1: verification by recovery

`zkvm_secp256k1_verify` recovers a key with each of the two recovery ids and compares the
keys with the one it is given.  Recovery starts from the point with the first coordinate
`r`; the verification equation only asks for `r` modulo the order of the group.

## Main definitions

* `Secp256k1Library`, `Secp256k1Library.Spec` — the library, and what is known of it.
* `zkvmSecp256k1Ecrecover`, `zkvmSecp256k1Verify` — the functions.
* `uncompressedKey` — the bytes of a public key.

## Main results

* `verified_iff` — what the loop over the recovery ids decides.
* `verified_iff_recoverable` — it decides whether the key can be recovered.
* `zkvmSecp256k1Verify_decides` — **when verification by recovery is verification.**
-/

namespace StatelessGuest

open Ssz Memory Format Curve Secp256k1

/-! ### The library -/

/-- `AffinePoint` -/
structure AffinePoint where
  x : ZMod p
  y : ZMod p

/-- What the functions use of the library. -/
structure Secp256k1Library where
  /-- `secp256k1_ecdsa_recover`, on the bytes of the hash, of `r` and of `s`, and the parity. -/
  ecdsaRecover : Bytes → Bytes → Bytes → Bool → Option AffinePoint
  /-- `to_bytes` of a coordinate. -/
  toBytes : ZMod p → Bytes

/-- A point is returned as its coordinates; the point at infinity is not returned, or as zeros. -/
def ReturnsPoint (result : Option AffinePoint) : Point → Prop
  | .zero => result = none ∨ result = some ⟨0, 0⟩
  | .some x y _ => result = some ⟨x, y⟩

/-- The behaviour of the library. -/
structure Secp256k1Library.Spec (lib : Secp256k1Library) : Prop where
  toBytes : ∀ a, lib.toBytes a = beBytes 32 a.val
  /-- Nothing is returned when `r` or `s` is out of range. -/
  outOfRange : ∀ hash r s odd, ¬(InRange n (beNat r) ∧ InRange n (beNat s)) →
    lib.ecdsaRecover hash r s odd = none
  /-- Nothing is returned when there is no point with the coordinate `r` and the parity. -/
  noPoint : ∀ hash r s odd,
    (∀ (R : Point) x y, HasCoords R x y → x.val = beNat r → parity y ≠ odd) →
      lib.ecdsaRecover hash r s odd = none
  /-- Otherwise the key is recovered from that point. -/
  point : ∀ hash r s odd, InRange n (beNat r) → InRange n (beNat s) →
    ∀ (R : Point) x y, HasCoords R x y → x.val = beNat r → parity y = odd →
      ReturnsPoint (lib.ecdsaRecover hash r s odd)
        (recoverPoint generator (beNat hash : ZMod n) (beNat r) (beNat s) R)

/-! ### The functions -/

/-- `zkvm_secp256k1_ecrecover` -/
def zkvmSecp256k1Ecrecover (lib : Secp256k1Library) (msg : ByteVec 32) (sig : ByteVec 64)
    (recid : UInt8) (output : Block) : Option (ZkvmStatus × Block) :=
  if recid > 1 then some (.efail, output)
  else
    match lib.ecdsaRecover msg.toList (window sig.toList 0 32) (window sig.toList 32 32)
        (recid != 0) with
    | none => some (.efail, output)
    | some pt => do
        let output ← output.store (lib.toBytes pt.x) 0
        let output ← output.store (lib.toBytes pt.y) 32
        pure (.eok, output)

/-- The loop of `zkvm_secp256k1_verify`, which ends at the first key that is the same. -/
def verifyWith (lib : Secp256k1Library) (msg : ByteVec 32) (sig : ByteVec 64)
    (pubkey : ByteVec 64) : List UInt8 → Option Bool
  | [] => some false
  | recid :: recids => do
      let (status, recovered) ← zkvmSecp256k1Ecrecover lib msg sig recid (.uninit 64)
      if status = .eok then do
        let data ← recovered.load 0 64
        if data = pubkey.toList then pure true else verifyWith lib msg sig pubkey recids
      else verifyWith lib msg sig pubkey recids

/-- `zkvm_secp256k1_verify` -/
def zkvmSecp256k1Verify (lib : Secp256k1Library) (msg : ByteVec 32) (sig : ByteVec 64)
    (pubkey : ByteVec 64) : Option (ZkvmStatus × Bool) := do
  let verified ← verifyWith lib msg sig pubkey [0, 1]
  pure (.eok, verified)

/-- The uncompressed public key with the coordinates `x` and `y`. -/
def uncompressedKey (x y : ZMod p) : ByteVec 64 :=
  ⟨beBytes 32 x.val ++ beBytes 32 y.val, by
    rw [List.length_append, length_beBytes, length_beBytes]⟩

/-! ### What the loop decides -/

variable {lib : Secp256k1Library} {msg : ByteVec 32} {sig pubkey : ByteVec 64}

/-- The library is asked to recover a key. -/
def recoverKey (lib : Secp256k1Library) (msg : ByteVec 32) (sig : ByteVec 64) (odd : Bool) :
    Option AffinePoint :=
  lib.ecdsaRecover msg.toList (window sig.toList 0 32) (window sig.toList 32 32) odd

/-- A recovered key fills the output. -/
theorem zkvmSecp256k1Ecrecover_eq (hlib : lib.Spec) {recid : UInt8} (hrecid : recid ≤ 1) :
    zkvmSecp256k1Ecrecover lib msg sig recid (.uninit 64) =
      match recoverKey lib msg sig (recid != 0) with
      | none => some (.efail, .uninit 64)
      | some pt => some (.eok, .ofBytes (uncompressedKey pt.x pt.y).toList) := by
  rw [zkvmSecp256k1Ecrecover, if_neg (by rwa [gt_iff_lt, UInt8.not_lt]), recoverKey]
  cases lib.ecdsaRecover msg.toList (window sig.toList 0 32) (window sig.toList 32 32)
      (recid != 0) with
  | none => rfl
  | some pt =>
    have hlen : ∀ a, (lib.toBytes a).length = 32 := fun a => by rw [hlib.toBytes, length_beBytes]
    have hfill := (appends_store (lib.toBytes pt.x) 0).bind
      (by rw [hlen, Nat.zero_add]; exact appends_store (lib.toBytes pt.y) 32)
    have hall := hfill [] (.uninit 64) rfl
      (by rw [List.length_append, hlen, hlen, Block.length_uninit])
    have hdrop : (Block.uninit 64).drop (lib.toBytes pt.x ++ lib.toBytes pt.y).length = [] := by
      rw [List.length_append, hlen, hlen]
      rfl
    rw [Block.ofBytes_nil, List.nil_append, List.nil_append, hdrop, List.append_nil] at hall
    simp only [Option.bind_eq_bind, Option.pure_def] at hall ⊢
    rw [← Option.bind_assoc, hall, Option.bind_some, hlib.toBytes, hlib.toBytes]
    rfl

/-- One round of the loop. -/
theorem verifyWith_cons (hlib : lib.Spec) {recid : UInt8} (hrecid : recid ≤ 1)
    (recids : List UInt8) {rest : Bool} (h : verifyWith lib msg sig pubkey recids = some rest) :
    ∃ verified, verifyWith lib msg sig pubkey (recid :: recids) = some verified ∧
      (verified = true ↔ (∃ pt, recoverKey lib msg sig (recid != 0) = some pt ∧
        uncompressedKey pt.x pt.y = pubkey) ∨ rest = true) := by
  rw [verifyWith, zkvmSecp256k1Ecrecover_eq hlib hrecid]
  cases hkey : recoverKey lib msg sig (recid != 0) with
  | none => exact ⟨rest, h, by simp⟩
  | some pt =>
    have hload : Block.load (.ofBytes (uncompressedKey pt.x pt.y).toList) 0 64 =
        some (uncompressedKey pt.x pt.y).toList := by
      have := Block.load_append (uncompressedKey pt.x pt.y).toList []
      rwa [List.append_nil, List.Vector.toList_length] at this
    simp only [Option.bind_eq_bind, Option.bind_some, hload, if_true]
    by_cases heq : (uncompressedKey pt.x pt.y).toList = pubkey.toList
    · rw [if_pos heq]
      exact ⟨true, rfl, iff_of_true rfl (.inl ⟨pt, rfl, toList_injective heq⟩)⟩
    · rw [if_neg heq]
      refine ⟨rest, h, .inr, fun hor => hor.resolve_left ?_⟩
      rintro ⟨_, ⟨⟩, rfl⟩
      exact heq rfl

/-- **What the loop decides**: some recovery id gives the key. -/
theorem verified_iff (hlib : lib.Spec) (msg : ByteVec 32) (sig pubkey : ByteVec 64) :
    ∃ verified, zkvmSecp256k1Verify lib msg sig pubkey = some (.eok, verified) ∧
      (verified = true ↔ ∃ odd pt, recoverKey lib msg sig odd = some pt ∧
        uncompressedKey pt.x pt.y = pubkey) := by
  obtain ⟨second, hsecond, hiff₁⟩ := verifyWith_cons hlib (by decide : (1 : UInt8) ≤ 1) [] rfl
  obtain ⟨verified, hverified, hiff₀⟩ := verifyWith_cons hlib (by decide : (0 : UInt8) ≤ 1) [1] hsecond
  refine ⟨verified, ?_, ?_⟩
  · rw [zkvmSecp256k1Verify, hverified]
    rfl
  · rw [hiff₀, hiff₁, Bool.exists_bool, or_iff_left (b := false = true) Bool.false_ne_true]
    rfl

/-! ### Recovery and verification -/

theorem beNat_toBytes (a : ZMod p) : beNat (beBytes 32 a.val) = a.val :=
  beNat_beBytes (lt_trans (ZMod.val_lt a) p_lt_two_pow)

/-- The bytes of a key determine its coordinates. -/
theorem uncompressedKey_injective {x y x' y' : ZMod p}
    (h : uncompressedKey x y = uncompressedKey x' y') : x = x' ∧ y = y' := by
  have hlist := congrArg List.Vector.toList h
  change beBytes 32 x.val ++ beBytes 32 y.val = beBytes 32 x'.val ++ beBytes 32 y'.val at hlist
  obtain ⟨hx, hy⟩ := List.append_inj hlist (by rw [length_beBytes, length_beBytes])
  have hx' := congrArg beNat hx
  have hy' := congrArg beNat hy
  rw [beNat_toBytes, beNat_toBytes] at hx' hy'
  exact ⟨ZMod.val_injective p hx', ZMod.val_injective p hy'⟩

/-- A point with a first coordinate has a second one. -/
theorem exists_hasCoords {R : Point} {r : ℕ} (h : xCoord R = some r) :
    ∃ x y, HasCoords R x y ∧ x.val = r := by
  cases R with
  | zero => cases h
  | some x y hxy => exact ⟨x, y, hasCoords_some hxy, Option.some.inj h⟩

theorem xCoord_of_hasCoords {R : Point} {x y : ZMod p} : HasCoords R x y →
    xCoord R = some x.val := by
  rintro ⟨_, rfl⟩
  rfl

/-- The origin is not a point of the curve. -/
theorem ne_origin_of_hasCoords {Q : Point} {x y : ZMod p} (hQ : HasCoords Q x y) :
    ¬((⟨0, 0⟩ : AffinePoint) = ⟨x, y⟩) := by
  intro h
  rw [AffinePoint.mk.injEq] at h
  have heq := hQ.equation
  rw [← h.1, ← h.2] at heq
  exact absurd heq (by decide +kernel)

/-- A result has the coordinates of a point exactly when it is that point. -/
theorem ReturnsPoint.eq_some_iff {result : Option AffinePoint} {P Q : Point} {x y : ZMod p}
    (h : ReturnsPoint result P) (hQ : HasCoords Q x y) : result = some ⟨x, y⟩ ↔ P = Q := by
  cases P with
  | zero =>
    refine iff_of_false ?_ fun hzero => hQ.ne_zero hzero.symm
    intro hres
    rcases h with rfl | rfl
    · cases hres
    · exact ne_origin_of_hasCoords hQ (Option.some.inj hres)
  | some a b hab =>
    obtain rfl : result = some ⟨a, b⟩ := h
    rw [Option.some.injEq, AffinePoint.mk.injEq]
    constructor
    · rintro ⟨rfl, rfl⟩
      exact (hasCoords_some hab).ext hQ
    · rintro rfl
      exact (hasCoords_some hab).unique hQ

/-- The numbers `r` and `s` of a signature. -/
def sigR (sig : ByteVec 64) : ℕ := beNat (window sig.toList 0 32)

/-- The numbers `r` and `s` of a signature. -/
def sigS (sig : ByteVec 64) : ℕ := beNat (window sig.toList 32 32)

/-- **The loop decides whether the key can be recovered.** -/
theorem verified_iff_recoverable (hlib : lib.Spec) (msg : ByteVec 32) (sig : ByteVec 64) {Q : Point}
    {x y : ZMod p} (hQ : HasCoords Q x y) :
    ∃ verified, zkvmSecp256k1Verify lib msg sig (uncompressedKey x y) = some (.eok, verified) ∧
      (verified = true ↔
        Recoverable n generator xCoord (beNat msg.toList) (sigR sig) (sigS sig) Q) := by
  obtain ⟨verified, hverify, hiff⟩ := verified_iff hlib msg sig (uncompressedKey x y)
  refine ⟨verified, hverify, hiff.trans ⟨?_, ?_⟩⟩
  · rintro ⟨odd, ⟨x', y'⟩, hkey, heq⟩
    obtain ⟨rfl, rfl⟩ := uncompressedKey_injective heq
    -- The library recovers a key only from numbers in range and from a point.
    have hrange : InRange n (sigR sig) ∧ InRange n (sigS sig) := by
      by_contra hout
      have hnone := hlib.outOfRange msg.toList _ _ odd hout
      rw [recoverKey, hnone] at hkey
      cases hkey
    by_cases hpoint : ∃ (R : Point) (a b : ZMod p), HasCoords R a b ∧ a.val = sigR sig ∧
        parity b = odd
    · obtain ⟨R, a, b, hR, ha, hb⟩ := hpoint
      have hreturns := hlib.point msg.toList _ _ odd hrange.1 hrange.2 R a b hR ha hb
      exact ⟨hrange.1, hrange.2, R, by rw [xCoord_of_hasCoords hR, ha],
        (hreturns.eq_some_iff hQ).mp hkey⟩
    · have hnone := hlib.noPoint msg.toList (window sig.toList 0 32) (window sig.toList 32 32) odd
        fun R a b hR ha hb => hpoint ⟨R, a, b, hR, ha, hb⟩
      rw [recoverKey, hnone] at hkey
      cases hkey
  · rintro ⟨hr, hs, R, hR, hkey⟩
    -- The recovery id that finds the point is the parity of its second coordinate.
    obtain ⟨a, b, hcoords, ha⟩ := exists_hasCoords hR
    have hreturns := hlib.point msg.toList _ _ (parity b) hr hs R a b hcoords ha rfl
    exact ⟨parity b, ⟨x, y⟩, (hreturns.eq_some_iff hQ).mpr hkey, rfl⟩

/-- **Verification by recovery is verification** except where the first coordinate of the
point of the verification equation is `r + n`. -/
theorem zkvmSecp256k1Verify_decides (hlib : lib.Spec) (msg : ByteVec 32) (sig : ByteVec 64)
    {Q : Point} {x y : ZMod p} (hQ : HasCoords Q x y) :
    (∃ verified, zkvmSecp256k1Verify lib msg sig (uncompressedKey x y) = some (.eok, verified) ∧
      (verified = true ↔
        ValidSignature n generator xCoord (beNat msg.toList) (sigR sig) (sigS sig) Q)) ↔
      ¬Wraps n generator xCoord (beNat msg.toList) (sigR sig) (sigS sig) Q := by
  obtain ⟨verified, hverify, hiff⟩ := verified_iff_recoverable hlib msg sig hQ
  rw [← recoverable_iff_validSignature xCoord_lt, ← hiff, hverify]
  constructor
  · rintro ⟨_, ⟨⟩, h⟩
    exact h
  · intro h
    exact ⟨verified, rfl, h⟩

/-! ### Recovery by the formula -/

/-- The coordinates of a point. -/
def affine : Point → Option AffinePoint
  | .zero => none
  | .some x y _ => some ⟨x, y⟩

theorem returnsPoint_affine : ∀ P : Point, ReturnsPoint (affine P) P
  | .zero => .inl rfl
  | .some _ _ _ => rfl

/-- A library that recovers keys by the formula. -/
def formulaLibrary : Secp256k1Library where
  ecdsaRecover hash r s odd :=
    if InRange n (beNat r) ∧ InRange n (beNat s) then
      (liftX (beNat r) odd).bind fun R =>
        affine (recoverPoint generator (beNat hash : ZMod n) (beNat r) (beNat s) R)
    else none
  toBytes a := beBytes 32 a.val

theorem formulaLibrary_spec : formulaLibrary.Spec where
  toBytes _ := rfl
  outOfRange _ _ _ _ hout := if_neg hout
  noPoint hash r s odd hno := by
    by_cases hrange : InRange n (beNat r) ∧ InRange n (beNat s)
    · have hnone : liftX (beNat r) odd = none := by
        apply Option.eq_none_iff_forall_ne_some.mpr
        intro R hR
        obtain ⟨x, y, hcoords, hx, hy⟩ :=
          (liftX_eq_some_iff (lt_trans hrange.1.2 n_lt_p)).mp hR
        exact hno R x y hcoords hx hy
      change (if _ then _ else _) = _
      rw [if_pos hrange, hnone]
      rfl
    · exact if_neg hrange
  point hash r s odd hr hs R x y hR hx hy := by
    have hlift : liftX (beNat r) odd = some R :=
      (liftX_eq_some_iff (lt_trans hr.2 n_lt_p)).mpr ⟨x, y, hR, hx, hy⟩
    change ReturnsPoint (if _ then _ else _) _
    rw [if_pos ⟨hr, hs⟩, hlift]
    exact returnsPoint_affine _

/-- The signature with the numbers `r` and `s`. -/
def signature (r s : ℕ) : ByteVec 64 :=
  ⟨beBytes 32 r ++ beBytes 32 s, by rw [List.length_append, length_beBytes, length_beBytes]⟩

theorem sigR_signature {r : ℕ} (hr : InRange n r) (s : ℕ) : sigR (signature r s) = r := by
  have hwindow : window (signature r s).toList 0 32 = beBytes 32 r :=
    List.take_left' (length_beBytes 32 r)
  rw [sigR, hwindow]
  exact beNat_beBytes (lt_trans hr.2 (lt_trans n_lt_p p_lt_two_pow))

theorem sigS_signature {s : ℕ} (hs : InRange n s) (r : ℕ) : sigS (signature r s) = s := by
  have hwindow : window (signature r s).toList 32 32 = beBytes 32 s := by
    change ((beBytes 32 r ++ beBytes 32 s).drop 32).take 32 = _
    rw [List.drop_left' (length_beBytes 32 r), List.take_of_length_le (length_beBytes 32 s).le]
  rw [sigS, hwindow]
  exact beNat_beBytes (lt_trans hs.2 (lt_trans n_lt_p p_lt_two_pow))

/-- The point of a signature `(r, r)` of a zero hash. -/
theorem verifyPoint_signature {r : ℕ} (hr : InRange n r) (Q : Point) :
    verifyPoint generator (beNat (zeroVec 32).toList : ZMod n) (sigR (signature r r))
      (sigS (signature r r)) Q = Q := by
  have hzero : beNat (zeroVec 32).toList = 0 := by decide
  rw [hzero, Nat.cast_zero, sigR_signature hr, sigS_signature hr]
  exact verifyPoint_zero_self hr.natCast_ne_zero

/-- The first coordinate of the generator is below the order of the group. -/
theorem zkvmSecp256k1Verify_decides_generator :
    zkvmSecp256k1Verify formulaLibrary (zeroVec 32) (signature generatorX.val generatorX.val)
      (uncompressedKey generatorX generatorY) = some (.eok, true) := by
  have hrange : InRange n generatorX.val := by decide +kernel
  have hcoord : xCoord (verifyPoint generator (beNat (zeroVec 32).toList : ZMod n)
      (sigR (signature generatorX.val generatorX.val))
      (sigS (signature generatorX.val generatorX.val)) generator) = some generatorX.val := by
    rw [verifyPoint_signature hrange]
    rfl
  have hvalid : ValidSignature n generator xCoord (beNat (zeroVec 32).toList)
      (sigR (signature generatorX.val generatorX.val))
      (sigS (signature generatorX.val generatorX.val)) generator := by
    refine ⟨?_, ?_, generatorX.val, hcoord, ?_⟩
    · rwa [sigR_signature hrange]
    · rwa [sigS_signature hrange]
    · rw [sigR_signature hrange, Nat.mod_eq_of_lt hrange.2]
  have hwraps : ¬Wraps n generator xCoord (beNat (zeroVec 32).toList)
      (sigR (signature generatorX.val generatorX.val))
      (sigS (signature generatorX.val generatorX.val)) generator := by
    rintro ⟨-, -, h⟩
    rw [hcoord, Option.some.injEq, sigR_signature hrange] at h
    exact absurd h (by rw [Nat.left_eq_add]; exact prime_n.ne_zero)
  obtain ⟨verified, hverify, hiff⟩ := (zkvmSecp256k1Verify_decides formulaLibrary_spec (zeroVec 32)
    (signature generatorX.val generatorX.val) (hasCoords_some _ : HasCoords generator _ _)).mpr hwraps
  rwa [hiff.mpr hvalid] at hverify

/-- A first coordinate above the order of the group. -/
def largeX : ZMod p := 0xfffffffffffffffffffffffffffffffebaaedce6af48a03bbfd25e8cd0364143

/-- A second coordinate to it. -/
def largeY : ZMod p := 0x36b1aa62eb77c1973025cbcbea9740eed8eacdab8772268b395064453269d1d3

theorem nonsingular_large : (mordell (7 : ZMod p)).Nonsingular largeX largeY :=
  nonsingular_iff.mpr (by decide +kernel)

/-- A key whose first coordinate is `n + 2`. -/
def largeKey : Point := .some largeX largeY nonsingular_large

/-- The signature `(2, 2)` of zero is valid for a key whose first coordinate is `n + 2`, but
neither recovery id gives that key. -/
theorem zkvmSecp256k1Verify_counterexample : formulaLibrary.Spec ∧
    HasCoords largeKey largeX largeY ∧
    ValidSignature n generator xCoord (beNat (zeroVec 32).toList) (sigR (signature 2 2))
      (sigS (signature 2 2)) largeKey ∧
    zkvmSecp256k1Verify formulaLibrary (zeroVec 32) (signature 2 2)
      (uncompressedKey largeX largeY) = some (.eok, false) := by
  have hrange : InRange n 2 := by decide +kernel
  have hcoord : xCoord (verifyPoint generator (beNat (zeroVec 32).toList : ZMod n)
      (sigR (signature 2 2)) (sigS (signature 2 2)) largeKey) = some (2 + n) := by
    rw [verifyPoint_signature hrange]
    decide +kernel
  have hwraps : Wraps n generator xCoord (beNat (zeroVec 32).toList) (sigR (signature 2 2))
      (sigS (signature 2 2)) largeKey := by
    refine ⟨?_, ?_, ?_⟩
    · rwa [sigR_signature hrange]
    · rwa [sigS_signature hrange]
    · rw [hcoord, sigR_signature hrange]
  have hvalid := (validSignature_iff xCoord_lt).mpr (.inr hwraps)
  obtain ⟨verified, hverify, hiff⟩ := verified_iff_recoverable formulaLibrary_spec (zeroVec 32)
    (signature 2 2) (hasCoords_some _ : HasCoords largeKey largeX largeY)
  refine ⟨formulaLibrary_spec, hasCoords_some _, hvalid, ?_⟩
  have hnot : ¬verified = true := fun htrue =>
    recoverable_iff_validSignature xCoord_lt |>.mp (iff_of_true (hiff.mp htrue) hvalid) hwraps
  rwa [Bool.eq_false_of_not_eq_true hnot] at hverify

end StatelessGuest
