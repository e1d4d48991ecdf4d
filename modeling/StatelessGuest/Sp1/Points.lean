import StatelessGuest.Format.Limbs

/-!
# Affine points of the SP1 guest

The curve syscalls of SP1 take a point as eight limbs of 64 bits, the accelerators and the
precompiles as 64 bytes.  One limb is read with `intx::be::unsafe::load` and written with
`intx::be::unsafe::store`, which are parameters.

## Main definitions

* `AffinePoint`, `pointFromBytes`, `pointToBytes` — the two forms of a point.
* `isZero`, `eqPoint` — tests on the limbs.

## Main results

* `points_roundTrip` — **the two forms carry the same points**, the limbs of a coordinate stand
  for its number, and the tests decide what they say.
-/

namespace StatelessGuest.Sp1

open Ssz Format

/-- `sp1_AffinePoint`: the limbs of the first coordinate, and those of the second. -/
abbrev AffinePoint := Fin (4 + 4) → BitVec 64

/-- `sp1_point_from_bytes` -/
def pointFromBytes (load : Bytes → ℕ → BitVec 64) (bytes : Bytes) : AffinePoint :=
  Fin.append (loadLimbs load 4 bytes 0) (loadLimbs load 4 bytes 32)

/-- `sp1_point_to_bytes`, over the bytes that the buffer holds before. -/
def pointToBytes (store : Bytes → ℕ → BitVec 64 → Bytes) (bytes : Bytes) (r : AffinePoint) :
    Bytes :=
  storeLimbs store (fun i => r (Fin.natAdd 4 i))
    (storeLimbs store (fun i => r (Fin.castAdd 4 i)) bytes 0) 32

/-- `is_zero` -/
def isZero (p : AffinePoint) : Bool :=
  (List.finRange 8).foldl (fun fold i => fold ||| p i) 0 == 0

/-- `eq` -/
def eqPoint (p q : AffinePoint) : Bool :=
  (List.finRange 8).foldl (fun fold i => fold ||| (p i ^^^ q i)) 0 == 0

/-! ### The tests -/

/-- A disjunction of limbs is zero if all of them are. -/
theorem foldl_or_eq_zero {α : Type} (f : α → BitVec 64) (l : List α) (acc : BitVec 64) :
    l.foldl (fun fold i => fold ||| f i) acc = 0 ↔ acc = 0 ∧ ∀ i ∈ l, f i = 0 := by
  induction l generalizing acc with
  | nil => simp
  | cons x l ih =>
    have hor : acc ||| f x = 0 ↔ acc = 0 ∧ f x = 0 := BitVec.or_eq_zero_iff
    rw [List.foldl_cons, ih, hor, List.forall_mem_cons, and_assoc]

theorem isZero_iff (p : AffinePoint) : isZero p = true ↔ p = 0 := by
  rw [isZero, beq_iff_eq, foldl_or_eq_zero]
  constructor
  · intro h
    funext i
    exact h.2 i (List.mem_finRange i)
  · intro h
    subst h
    exact ⟨rfl, fun _ _ => rfl⟩

theorem eqPoint_iff (p q : AffinePoint) : eqPoint p q = true ↔ p = q := by
  rw [eqPoint, beq_iff_eq, foldl_or_eq_zero]
  constructor
  · intro h
    funext i
    exact BitVec.xor_eq_zero_iff.mp (h.2 i (List.mem_finRange i))
  · intro h
    subst h
    exact ⟨rfl, fun _ _ => BitVec.xor_self⟩

/-! ### The two forms -/

/-- A point is determined by its coordinates. -/
theorem point_ext {p q : AffinePoint}
    (hx : limbsNat (fun i => p (Fin.castAdd 4 i)) = limbsNat fun i => q (Fin.castAdd 4 i))
    (hy : limbsNat (fun i => p (Fin.natAdd 4 i)) = limbsNat fun i => q (Fin.natAdd 4 i)) :
    p = q := by
  funext i
  refine Fin.addCases ?_ ?_ i
  · intro i
    exact congrFun (limbsNat_injective hx) i
  · intro i
    exact congrFun (limbsNat_injective hy) i

/-- 64 bytes are their two halves. -/
theorem eq_of_halves {a b : Bytes} (ha : a.length = 64) (hb : b.length = 64)
    (hx : window a 0 32 = window b 0 32) (hy : window a 32 32 = window b 32 32) : a = b := by
  have hsplit : ∀ c : Bytes, c.length = 64 → window c 0 32 ++ window c 32 32 = c := by
    intro c hc
    rw [window_append_window c (Nat.zero_add 32), window_self hc]
  rw [← hsplit a ha, ← hsplit b hb, hx, hy]

section

variable {load : Bytes → ℕ → BitVec 64} {store : Bytes → ℕ → BitVec 64 → Bytes}
variable (hbe : BigEndian load store)

include hbe

section

variable {bytes : Bytes} (h : bytes.length = 64)

include h

theorem fst_pointFromBytes :
    limbsNat (fun i => pointFromBytes load bytes (Fin.castAdd 4 i)) =
      beNat (window bytes 0 32) := by
  have hx : (fun i => pointFromBytes load bytes (Fin.castAdd 4 i)) = loadLimbs load 4 bytes 0 := by
    funext i
    exact Fin.append_left _ _ i
  rw [hx, limbsNat_loadLimbs hbe (by omega)]

theorem snd_pointFromBytes :
    limbsNat (fun i => pointFromBytes load bytes (Fin.natAdd 4 i)) =
      beNat (window bytes 32 32) := by
  have hy : (fun i => pointFromBytes load bytes (Fin.natAdd 4 i)) = loadLimbs load 4 bytes 32 := by
    funext i
    exact Fin.append_right _ _ i
  rw [hy, limbsNat_loadLimbs hbe (by omega)]

/-- The first coordinate, written. -/
theorem length_storeFst (r : AffinePoint) :
    (storeLimbs store (fun i => r (Fin.castAdd 4 i)) bytes 0).length = bytes.length :=
  length_storeLimbs hbe _ (by omega)

theorem length_pointToBytes (r : AffinePoint) : (pointToBytes store bytes r).length = 64 := by
  have hfst := length_storeFst hbe h r
  rw [pointToBytes, length_storeLimbs hbe _ (by omega), hfst, h]

/-- The coordinates, written. -/
theorem window_pointToBytes (r : AffinePoint) :
    window (pointToBytes store bytes r) 0 32 =
        beBytes 32 (limbsNat fun i => r (Fin.castAdd 4 i)) ∧
      window (pointToBytes store bytes r) 32 32 =
        beBytes 32 (limbsNat fun i => r (Fin.natAdd 4 i)) := by
  have hfst := length_storeFst hbe h r
  constructor
  · rw [pointToBytes, window_storeLimbs_apart hbe _ (by omega) (.inl (by decide))]
    exact window_storeLimbs hbe _ (by omega)
  · unfold pointToBytes
    exact window_storeLimbs hbe _ (by omega)

theorem pointFromBytes_pointToBytes (r : AffinePoint) :
    pointFromBytes load (pointToBytes store bytes r) = r := by
  have hlen := length_pointToBytes hbe h r
  have hwindow := window_pointToBytes hbe h r
  refine point_ext ?_ ?_
  · rw [fst_pointFromBytes hbe hlen, hwindow.1]
    exact beNat_beBytes (limbsNat_lt _)
  · rw [snd_pointFromBytes hbe hlen, hwindow.2]
    exact beNat_beBytes (limbsNat_lt _)

end

/-- 64 zero bytes are the point whose limbs are zero. -/
theorem pointFromBytes_zero : pointFromBytes load (List.replicate 64 0) = 0 := by
  have hlen : (List.replicate 64 (0 : UInt8)).length = 64 := List.length_replicate
  refine point_ext ?_ ?_
  · rw [fst_pointFromBytes hbe hlen]
    decide
  · rw [snd_pointFromBytes hbe hlen]
    decide

/-- The point determines the bytes. -/
theorem pointFromBytes_inj {a b : Bytes} (ha : a.length = 64) (hb : b.length = 64)
    (h : pointFromBytes load a = pointFromBytes load b) : a = b := by
  have hx := fst_pointFromBytes hbe ha
  have hy := snd_pointFromBytes hbe ha
  rw [h, fst_pointFromBytes hbe hb] at hx
  rw [h, snd_pointFromBytes hbe hb] at hy
  have hlen : ∀ k, k + 32 ≤ 64 → (window a k 32).length = (window b k 32).length := by
    intro k hk
    rw [length_window_of_le (by omega), length_window_of_le (by omega)]
  exact eq_of_halves ha hb (beNat_inj (hlen 0 (by decide)) hx.symm)
    (beNat_inj (hlen 32 (by decide)) hy.symm)

/-- **The two forms of a point.**  The bytes are read into a point whose limbs stand for the
coordinates and are written back whatever the buffer held, and so is every point; the tests on
the limbs are the tests on the bytes. -/
theorem points_roundTrip (bytes old : ByteVec 64) (r : AffinePoint) :
    pointToBytes store old.toList (pointFromBytes load bytes.toList) = bytes.toList ∧
      pointFromBytes load (pointToBytes store old.toList r) = r ∧
      limbsNat (fun i => pointFromBytes load bytes.toList (Fin.castAdd 4 i)) =
        beNat (bytes.toList.take 32) ∧
      limbsNat (fun i => pointFromBytes load bytes.toList (Fin.natAdd 4 i)) =
        beNat (bytes.toList.drop 32) ∧
      (eqPoint (pointFromBytes load bytes.toList) (pointFromBytes load old.toList) = true ↔
        bytes = old) ∧
      (isZero (pointFromBytes load bytes.toList) = true ↔
        bytes.toList = List.replicate 64 0) := by
  have hbytes := bytes.toList_length
  have hold := old.toList_length
  have hzero : (List.replicate 64 (0 : UInt8)).length = 64 := List.length_replicate
  refine ⟨?_, pointFromBytes_pointToBytes hbe hold r, fst_pointFromBytes hbe hbytes, ?_, ?_, ?_⟩
  · exact pointFromBytes_inj hbe (length_pointToBytes hbe hold _) hbytes
      (pointFromBytes_pointToBytes hbe hold _)
  · rw [snd_pointFromBytes hbe hbytes, window_eq_drop (by rw [hbytes])]
  · rw [eqPoint_iff]
    exact ⟨fun h => toList_injective (pointFromBytes_inj hbe hbytes hold h), fun h => h ▸ rfl⟩
  · rw [isZero_iff, ← pointFromBytes_zero hbe]
    exact ⟨fun h => pointFromBytes_inj hbe hbytes hzero h, fun h => h ▸ rfl⟩

end

/-- A load that puts the first byte on top. -/
def sampleLoad (b : Bytes) (off : ℕ) : BitVec 64 := BitVec.ofNat 64 (beNat (window b off 8))

/-- The store that it reads back. -/
def sampleStore (b : Bytes) (off : ℕ) (v : BitVec 64) : Bytes :=
  overwrite b off (beBytes 8 v.toNat)

theorem bigEndian_sample : BigEndian sampleLoad sampleStore where
  load_eq := by
    intro b off h
    have hlt := beNat_lt (window b off 8)
    rw [length_window_of_le h] at hlt
    rw [sampleLoad, BitVec.toNat_ofNat]
    exact Nat.mod_eq_of_lt hlt
  store_eq := fun _ _ => rfl

/-- The bytes of the point (1, 2). -/
def oneTwo : ByteVec 64 := ⟨beBytes 32 1 ++ beBytes 32 2, by decide⟩

/-- A buffer that holds something else. -/
def sevens : ByteVec 64 := ⟨List.replicate 64 7, by decide⟩

theorem points_roundTrip_oneTwo :
    pointToBytes sampleStore sevens.toList (pointFromBytes sampleLoad oneTwo.toList) =
        oneTwo.toList ∧
      pointFromBytes sampleLoad (pointToBytes sampleStore sevens.toList
        ![1, 0, 0, 0, 2, 0, 0, 0]) = ![1, 0, 0, 0, 2, 0, 0, 0] ∧
      limbsNat (fun i => pointFromBytes sampleLoad oneTwo.toList (Fin.castAdd 4 i)) = 1 ∧
      limbsNat (fun i => pointFromBytes sampleLoad oneTwo.toList (Fin.natAdd 4 i)) = 2 ∧
      eqPoint (pointFromBytes sampleLoad oneTwo.toList)
        (pointFromBytes sampleLoad sevens.toList) = false ∧
      isZero (pointFromBytes sampleLoad oneTwo.toList) = false := by
  obtain ⟨hread, hwrite, hfst, hsnd, heq, hzero⟩ :=
    points_roundTrip bigEndian_sample oneTwo sevens ![1, 0, 0, 0, 2, 0, 0, 0]
  refine ⟨hread, hwrite, hfst.trans (by decide), hsnd.trans (by decide), ?_, ?_⟩
  · exact Bool.eq_false_iff.mpr fun h => absurd (heq.mp h) (by decide)
  · exact Bool.eq_false_iff.mpr fun h => absurd (hzero.mp h) (by decide)

end StatelessGuest.Sp1
