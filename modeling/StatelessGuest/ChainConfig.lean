import StatelessGuest.Ssz.Unchecked
import StatelessGuest.Containers
import StatelessGuest.Decode

/-!
# Decoding the chain config

The chain config decoders check every offset they follow and every length, so
they accept exactly the canonical encodings.

## Main definitions

* `Canonical` — laid out in order and within the limits.
* `AcceptsCanonical` — a decoder accepts the canonical encodings, and only them.

## Main results

* `canonical_iff_serialize` — canonical strings are the encodings of the values
  within the limits.
* `acceptsCanonical_legacy0001`, `acceptsCanonical_amsterdam01` — **both
  decoders accept exactly the canonical strings.**
* `decodeChainConfig_canonical` — the same in terms of encodings and values.
-/

namespace StatelessGuest

open Ssz SszType

variable (w : WordSize)

/-- The string is laid out in order, and its lists are within their limits. -/
def Canonical (t : SszType) (b : Bytes) : Prop := Laid t b ∧ Fits t (SszType.read t b)

/-- Canonical strings are the encodings of the values within the limits. -/
theorem canonical_iff_serialize {t : SszType} (ht : t.Proper = true) (hmax : t.maxSize < 2 ^ 32)
    {b : Bytes} : Canonical t b ↔ ∃ v : t.Val, Fits t v ∧ serialize t v = b := by
  constructor
  · rintro ⟨hlaid, hfits⟩
    exact ⟨_, hfits, serialize_read hlaid⟩
  · rintro ⟨v, hfits, rfl⟩
    have hlen : (serialize t v).length < 2 ^ 32 := lt_of_le_of_lt (length_serialize_le hfits) hmax
    rw [Canonical, read_serialize ht v hlen]
    exact ⟨laid_serialize ht v hlen, hfits⟩

/-- The access stays inside its span, and inside the buffer if the section does. -/
def Safe (s : ByteSpan) (a : Access) : Prop := a.Confined ∧ (s.InBounds → a.Inside)

/-- Accesses that are safe for a nested span are safe for the section. -/
theorem every_safe {s s' : ByteSpan} (h : s.InBounds → s'.InBounds) {α : Type} {d : Dec α}
    (hd : d.Every (Safe s')) : d.Every (Safe s) :=
  fun a ha => ⟨(hd a ha).1, fun hs => (hd a ha).2 (h hs)⟩

/-! ### Optional items -/

/-- A list of at most one item is empty or holds the item. -/
theorem canonical_optional {t : SszType} (ht : t.isFixed = true) (hpos : 0 < t.size)
    (hfits : ∀ v, Fits t v) (b : Bytes) :
    Canonical (.list t 1) b ↔ b.length = 0 ∨ b.length = t.size := by
  rw [Canonical, Laid, if_pos ht, SszType.read, if_pos ht, Fits, List.length_map, List.length_range]
  constructor
  · rintro ⟨⟨k, hk⟩, hle, -⟩
    rw [hk, Nat.mul_div_cancel_left _ hpos] at hle
    rcases Nat.le_one_iff_eq_zero_or_eq_one.mp hle with rfl | rfl
    · exact Or.inl (by rw [hk, Nat.mul_zero])
    · exact Or.inr (by rw [hk, Nat.mul_one])
  · rintro (h | h)
    · rw [h, Nat.zero_div]
      exact ⟨dvd_zero _, by omega, fun v _ => hfits v⟩
    · rw [h, Nat.div_self hpos]
      exact ⟨dvd_rfl, le_rfl, fun v _ => hfits v⟩

/-- What is read off a list of at most one item. -/
theorem read_optional {t : SszType} (ht : t.isFixed = true) (hpos : 0 < t.size) {b : Bytes}
    (hb : b.length = 0 ∨ b.length = t.size) :
    SszType.read (.list t 1) b = optional (decide (b.length = t.size)) (SszType.read t b) := by
  rw [SszType.read, if_pos ht]
  rcases hb with h | h
  · rw [h, Nat.zero_div, decide_eq_false (by omega)]
    rfl
  · rw [h, Nat.div_self hpos, decide_eq_true rfl]
    show [SszType.read t (window b (0 * t.size) t.size)] = _
    rw [Nat.zero_mul, window_self h]
    rfl

/-! ### The activation point -/

/-- The value of an activation point. -/
def ForkActivation.toVal (a : ForkActivation) : forkActivationType.Val :=
  (optional a.blockNumber.1 a.blockNumber.2, optional a.timestamp.1 a.timestamp.2, ())

theorem canonical_u64 (b : Bytes) : Canonical (.list u64 1) b ↔ b.length = 0 ∨ b.length = 8 :=
  canonical_optional (t := u64) rfl (by decide) (fun _ => by rw [Fits]; trivial) b

/-- The checks that make an activation point canonical. -/
theorem canonical_forkActivation (b : Bytes) : Canonical forkActivationType b ↔
    8 ≤ b.length ∧ u32At b 0 = 8 ∧ (8 ≤ u32At b 4 ∧ u32At b 4 ≤ b.length) ∧
      (u32At b 4 - 8 = 0 ∨ u32At b 4 - 8 = 8) ∧
      (b.length - u32At b 4 = 0 ∨ b.length - u32At b 4 = 8) := by
  have hcan : Canonical forkActivationType b ↔ 8 ≤ b.length ∧ u32At b 0 = 8 ∧
      (u32At b 0 ≤ u32At b 4 ∧ u32At b 4 ≤ b.length) ∧
      Canonical (.list u64 1) (window b (u32At b 0) (u32At b 4 - u32At b 0)) ∧
      Canonical (.list u64 1) (window b (u32At b 4) (b.length - u32At b 4)) := by
    simp only [Canonical, laid_container, read_container, bodyStart, headSize, LaidFields,
      readFields, isFixed, Bool.false_eq_true, ↓reduceIte, Nat.reduceAdd, and_true, Fits, FitsAll]
    tauto
  rw [hcan, canonical_u64, canonical_u64, length_window, length_window]
  constructor
  · rintro ⟨h₁, h₂, h₃, h₄, h₅⟩
    rw [h₂] at h₃ h₄
    exact ⟨h₁, h₂, h₃, by omega, by omega⟩
  · rintro ⟨h₁, h₂, h₃, h₄, h₅⟩
    rw [h₂]
    exact ⟨h₁, rfl, h₃, by omega, by omega⟩

/-- The value read off a canonical activation point. -/
theorem read_forkActivation {b : Bytes} (h : Canonical forkActivationType b) :
    SszType.read forkActivationType b =
      (optional (decide (u32At b 4 - 8 = 8)) (BitVec.ofNat 64 (leNat (window b 8 8))),
        optional (decide (b.length - u32At b 4 = 8))
          (BitVec.ofNat 64 (leNat (window b (u32At b 4) 8))), ()) := by
  have hcan := h
  rw [canonical_forkActivation] at h
  obtain ⟨h₁, h₂, h₃, h₄, h₅⟩ := h
  have hopt : ∀ {off len : ℕ}, off + len ≤ b.length → len = 0 ∨ len = 8 →
      SszType.read (.list u64 1) (window b off len) =
        optional (decide (len = 8)) (BitVec.ofNat 64 (leNat (window b off 8))) := by
    intro off len hle hlen
    have hw : (window b off len).length = len := length_window_of_le hle
    rw [read_optional rfl (by decide) (by rw [hw]; exact hlen), hw]
    rcases hlen with rfl | rfl
    · rfl
    · rw [read_uint, take_window]
      rfl
  simp only [read_container, bodyStart, readFields, isFixed, Bool.false_eq_true, ↓reduceIte,
    Nat.reduceAdd, h₂]
  rw [hopt (by omega) h₄, hopt (by omega) h₅]

theorem every_decodeActivation {P : Access → Prop} (act : ByteSpan) (off len : ℕ) :
    (decodeActivation act off len).Every P ↔
      (len = 8 → P (.read act.ptr.length act.len off 8)) := by
  unfold decodeActivation
  split
  · rename_i h
    simp [h]
  · rename_i h
    simp [h]

theorem val_decodeActivation {act : ByteSpan} {off len : ℕ} (h : off + len ≤ act.len) :
    optional (decodeActivation act off len).val.1 (decodeActivation act off len).val.2 =
      optional (decide (len = 8)) (BitVec.ofNat 64 (leNat (window act.bytes off 8))) := by
  unfold decodeActivation
  split
  · rename_i h8
    simp (disch := omega) [h8, ByteSpan.leNat_window_ptr]
  · rename_i h8
    simp [h8, optional]

/-- **The activation point is accepted exactly when it is canonical**, and then
read as it is. -/
theorem decodeForkActivation_spec (act : ByteSpan) (hs : act.len < w.modulus) :
    ((decodeForkActivation w act).val.isSome ↔ Canonical forkActivationType act.bytes) ∧
      (∀ a, (decodeForkActivation w act).val = some a →
        a.toVal = SszType.read forkActivationType act.bytes) ∧
      (decodeForkActivation w act).Every (Safe act) := by
  rw [canonical_forkActivation, ByteSpan.length_bytes, decodeForkActivation]
  rcases Nat.lt_or_ge act.len 8 with hshort | h8
  · rw [if_pos hshort]
    refine ⟨?_, ?_, Dec.every_pure _⟩
    · simp only [Dec.val_pure, Option.isSome_none, Bool.false_eq_true, false_iff]
      omega
    · intro a ha
      cases ha
  · have e₀ : u32At act.ptr 0 = u32At act.bytes 0 := ByteSpan.u32At_ptr (by omega)
    have e₄ : u32At act.ptr 4 = u32At act.bytes 4 := ByteSpan.u32At_ptr (by omega)
    rw [if_neg (by omega)]
    simp only [Dec.val_bind, Dec.every_bind, ByteSpan.val_readU32le, ByteSpan.every_readU32le, e₀,
      e₄, Safe, Access.Confined, Access.Inside, ByteSpan.InBounds]
    -- The offsets are checked before they are subtracted, so that neither difference below
    -- wraps.
    by_cases hoff : u32At act.bytes 0 ≠ 8 ∨ u32At act.bytes 4 < u32At act.bytes 0 ∨
        u32At act.bytes 4 > act.len
    · rw [if_pos hoff]
      refine ⟨?_, ?_, by omega, by omega, Dec.every_pure _⟩
      · simp only [Dec.val_pure, Option.isSome_none, Bool.false_eq_true, false_iff]
        omega
      · intro a ha
        cases ha
    · have hb : sub32 (u32At act.bytes 4) (u32At act.bytes 0) = u32At act.bytes 4 - 8 := by
        rw [sub32_eq (by omega) (u32At_lt _ _)]
        omega
      have ht : w.sub act.len (u32At act.bytes 4) = act.len - u32At act.bytes 4 :=
        w.sub_eq_of_lt (by omega) hs
      rw [if_neg hoff]
      simp only [Dec.val_bind, Dec.every_bind, val_subU32, every_subU32, val_subSize,
        every_subSize, hb, ht, Safe, Access.Confined, Access.Inside, ByteSpan.InBounds,
        implies_true, and_true]
      -- Each of the two lists is empty or holds one number.
      by_cases hlen : (u32At act.bytes 4 - 8 ≠ 0 ∧ u32At act.bytes 4 - 8 ≠ 8) ∨
          (act.len - u32At act.bytes 4 ≠ 0 ∧ act.len - u32At act.bytes 4 ≠ 8)
      · rw [if_pos hlen]
        refine ⟨?_, ?_, by omega, by omega, by omega, by omega, Dec.every_pure _⟩
        · simp only [Dec.val_pure, Option.isSome_none, Bool.false_eq_true, false_iff]
          omega
        · intro a ha
          cases ha
      · have hcan : Canonical forkActivationType act.bytes := by
          rw [canonical_forkActivation, ByteSpan.length_bytes]
          omega
        rw [if_neg hlen]
        simp only [Dec.val_bind, Dec.every_bind, every_decodeActivation, Dec.val_pure,
          Dec.every_pure, and_true, Safe, Access.Confined, Access.Inside, ByteSpan.InBounds]
        refine ⟨⟨fun _ => by omega, fun _ => rfl⟩, ?_, by omega, by omega, by omega,
          by omega, by omega, by omega⟩
        intro a ha
        have h₈ : u32At act.bytes 0 = 8 := by omega
        obtain rfl := Option.some.inj ha
        rw [read_forkActivation hcan, ForkActivation.toVal, h₈, ByteSpan.length_bytes]
        rw [val_decodeActivation (by omega), val_decodeActivation (by omega)]

/-! ### The blob schedule -/

theorem canonical_blobSchedule (b : Bytes) :
    Canonical (.list blobScheduleType 1) b ↔ b.length = 0 ∨ b.length = 24 :=
  canonical_optional (t := blobScheduleType) rfl (by decide)
    (fun _ => by simp only [Fits, FitsAll, and_self]) b

theorem every_decodeBlobSchedule {P : Access → Prop} (bs : ByteSpan) :
    (decodeBlobSchedule bs).Every P ↔ (bs.len = 24 →
      P (.read bs.ptr.length bs.len 0 8) ∧ P (.read bs.ptr.length bs.len 8 8) ∧
        P (.read bs.ptr.length bs.len 16 8)) := by
  unfold decodeBlobSchedule
  split
  · rename_i h
    simp [h]
  · rename_i h
    simp [h]

/-- The blob schedule read off a section of the right length. -/
theorem val_decodeBlobSchedule {bs : ByteSpan} (h : bs.len = 0 ∨ bs.len = 24) :
    optional (decodeBlobSchedule bs).val.present (decodeBlobSchedule bs).val.toVal =
      SszType.read (.list blobScheduleType 1) bs.bytes := by
  rw [read_optional rfl (by decide) (by rwa [ByteSpan.length_bytes]), ByteSpan.length_bytes,
    decodeBlobSchedule]
  rcases h with h | h
  · rw [if_neg (by omega), h]
    rfl
  · rw [if_pos h]
    simp (disch := omega) only [Dec.val_bind, Dec.val_pure, ByteSpan.val_readU64le,
      ByteSpan.leNat_window_ptr, SszBlobSchedule.toVal, read_container, readFields, isFixed, size,
      ↓reduceIte, read_uint, h, take_window, Nat.zero_add, Nat.reduceAdd]
    rfl

/-! ### Containers with a chain of offsets -/

section

variable {p q : SszType} (hp : p.isFixed = false) (hq : q.isFixed = false)
include hp

/-- A number before one variable-size field. -/
theorem canonical_u64_field (b : Bytes) : Canonical (.container [u64, p]) b ↔
    12 ≤ b.length ∧ u32At b 8 = 12 ∧ Canonical p (window b 12 (b.length - 12)) := by
  have hcan : Canonical (.container [u64, p]) b ↔ 12 ≤ b.length ∧ u32At b 8 = 12 ∧
      u32At b 8 ≤ b.length ∧ Canonical p (window b (u32At b 8) (b.length - u32At b 8)) := by
    simp only [Canonical, laid_container, read_container, bodyStart, headSize, LaidFields,
      readFields, hp, isFixed, size, Bool.false_eq_true, ↓reduceIte, Nat.reduceAdd, and_true,
      Fits, FitsAll, true_and]
    tauto
  rw [hcan]
  constructor
  · rintro ⟨h₁, h₂, -, h₃⟩
    rw [h₂] at h₃
    exact ⟨h₁, h₂, h₃⟩
  · rintro ⟨h₁, h₂, h₃⟩
    rw [h₂]
    exact ⟨h₁, rfl, h₁, h₃⟩

theorem read_u64_field {b : Bytes} (h : u32At b 8 = 12) :
    SszType.read (.container [u64, p]) b = (BitVec.ofNat 64 (leNat (window b 0 8)),
      SszType.read p (window b 12 (b.length - 12)), ()) := by
  simp only [read_container, bodyStart, readFields, hp, isFixed, size, Bool.false_eq_true,
    ↓reduceIte, Nat.zero_add, read_uint, take_window, h]

/-- One variable-size field. -/
theorem canonical_field (b : Bytes) : Canonical (.container [p]) b ↔
    4 ≤ b.length ∧ u32At b 0 = 4 ∧ Canonical p (window b 4 (b.length - 4)) := by
  have hcan : Canonical (.container [p]) b ↔ 4 ≤ b.length ∧ u32At b 0 = 4 ∧
      u32At b 0 ≤ b.length ∧ Canonical p (window b (u32At b 0) (b.length - u32At b 0)) := by
    simp only [Canonical, laid_container, read_container, bodyStart, headSize, LaidFields,
      readFields, hp, Bool.false_eq_true, ↓reduceIte, Nat.add_zero, and_true, Fits, FitsAll]
    tauto
  rw [hcan]
  constructor
  · rintro ⟨h₁, h₂, -, h₃⟩
    rw [h₂] at h₃
    exact ⟨h₁, h₂, h₃⟩
  · rintro ⟨h₁, h₂, h₃⟩
    rw [h₂]
    exact ⟨h₁, rfl, h₁, h₃⟩

theorem read_field {b : Bytes} (h : u32At b 0 = 4) :
    SszType.read (.container [p]) b = (SszType.read p (window b 4 (b.length - 4)), ()) := by
  simp only [read_container, bodyStart, readFields, hp, Bool.false_eq_true, ↓reduceIte, h]

include hq

/-- A number before two variable-size fields. -/
theorem canonical_u64_fields (b : Bytes) : Canonical (.container [u64, p, q]) b ↔
    16 ≤ b.length ∧ u32At b 8 = 16 ∧ (16 ≤ u32At b 12 ∧ u32At b 12 ≤ b.length) ∧
      Canonical p (window b 16 (u32At b 12 - 16)) ∧
      Canonical q (window b (u32At b 12) (b.length - u32At b 12)) := by
  have hcan : Canonical (.container [u64, p, q]) b ↔ 16 ≤ b.length ∧ u32At b 8 = 16 ∧
      (u32At b 8 ≤ u32At b 12 ∧ u32At b 12 ≤ b.length) ∧
      Canonical p (window b (u32At b 8) (u32At b 12 - u32At b 8)) ∧
      Canonical q (window b (u32At b 12) (b.length - u32At b 12)) := by
    simp only [Canonical, laid_container, read_container, bodyStart, headSize, LaidFields,
      readFields, hp, hq, isFixed, size, Bool.false_eq_true, ↓reduceIte, Nat.reduceAdd, and_true,
      Fits, FitsAll, true_and]
    tauto
  rw [hcan]
  constructor
  · rintro ⟨h₁, h₂, h₃⟩
    rw [h₂] at h₃
    exact ⟨h₁, h₂, h₃⟩
  · rintro ⟨h₁, h₂, h₃⟩
    rw [h₂]
    exact ⟨h₁, rfl, h₃⟩

theorem read_u64_fields {b : Bytes} (h : u32At b 8 = 16) :
    SszType.read (.container [u64, p, q]) b = (BitVec.ofNat 64 (leNat (window b 0 8)),
      SszType.read p (window b 16 (u32At b 12 - 16)),
      SszType.read q (window b (u32At b 12) (b.length - u32At b 12)), ()) := by
  simp only [read_container, bodyStart, readFields, hp, hq, isFixed, size, Bool.false_eq_true,
    ↓reduceIte, Nat.zero_add, Nat.reduceAdd, read_uint, take_window, h]

end

/-! ### The chain config -/

/-- The result accepts exactly the canonical encodings, holds what is read off
them, and keeps the section it was given. -/
structure AcceptsCanonical (schema : InputSchema) (d : Dec SszChainConfig) (s : ByteSpan) :
    Prop where
  valid : d.val.valid = true ↔ Canonical (chainConfigType schema) s.bytes
  val : d.val.valid = true → d.val.toVal schema = SszType.read (chainConfigType schema) s.bytes
  safe : d.Every (Safe s)
  raw : d.val.raw = s

namespace AcceptsCanonical

variable {schema : InputSchema} {s : ByteSpan}

/-- An early return. -/
theorem reject {cc : SszChainConfig} (hvalid : cc.valid = false)
    (hcan : ¬Canonical (chainConfigType schema) s.bytes) (hraw : cc.raw = s) :
    AcceptsCanonical schema (pure cc) s := by
  refine ⟨?_, ?_, Dec.every_pure _, hraw⟩
  · rw [Dec.val_pure, hvalid]
    exact ⟨fun h => absurd h Bool.false_ne_true, fun h => absurd h hcan⟩
  · intro h
    rw [Dec.val_pure, hvalid] at h
    exact absurd h Bool.false_ne_true

/-- One step that stays inside the section. -/
theorem bind {α : Type} {x : Dec α} {f : α → Dec SszChainConfig} (hx : x.Every (Safe s))
    (h : AcceptsCanonical schema (f x.val) s) : AcceptsCanonical schema (x >>= f) s :=
  ⟨by rw [Dec.val_bind]; exact h.valid, by rw [Dec.val_bind]; exact h.val,
    (Dec.every_bind x f).mpr ⟨hx, h.safe⟩, by rw [Dec.val_bind]; exact h.raw⟩

/-- On a section inside the buffer, nothing past the buffer is read. -/
theorem returns {d : Dec SszChainConfig} (h : AcceptsCanonical schema d s) (hs : s.InBounds) :
    d.Returns :=
  fun a ha => (h.safe a ha).2 hs

theorem confined {d : Dec SszChainConfig} (h : AcceptsCanonical schema d s) : d.Confined :=
  fun a ha => (h.safe a ha).1

end AcceptsCanonical

/-- The section holds a nested span, which lies inside the buffer if the section
does. -/
structure Nested (s fc : ByteSpan) (off n : ℕ) : Prop where
  eq : fc = ⟨s.ptr.drop off, n⟩
  inBounds : s.InBounds → fc.InBounds
  bytes : fc.bytes = window s.bytes off n

theorem Nested.len {s fc : ByteSpan} {off n : ℕ} (h : Nested s fc off n) : fc.len = n := by
  rw [h.eq]

theorem nested {s : ByteSpan} {off n : ℕ} (h : off + n ≤ s.len) :
    Nested s ⟨s.ptr.drop off, n⟩ off n :=
  ⟨rfl, fun hs => ByteSpan.inBounds_drop hs h, ByteSpan.bytes_drop h⟩

theorem safe_readU64le {s fc : ByteSpan} (hin : s.InBounds → fc.InBounds) {k : ℕ}
    (h : k + 8 ≤ fc.len) : (fc.readU64le k).Every (Safe s) :=
  (ByteSpan.every_readU64le fc k).mpr ⟨h, fun hs => h.trans (hin hs)⟩

theorem safe_readU32le {s fc : ByteSpan} (hin : s.InBounds → fc.InBounds) {k : ℕ}
    (h : k + 4 ≤ fc.len) : (fc.readU32le k).Every (Safe s) :=
  (ByteSpan.every_readU32le fc k).mpr ⟨h, fun hs => h.trans (hin hs)⟩

/-- The rest of a span, as the decoders cut it off. -/
theorem from_spec (s fc : ByteSpan) (hfc : fc.len < w.modulus) (off : ℕ) (hoff : off ≤ fc.len) :
    (fc.from w off).val = ⟨fc.ptr.drop off, fc.len - off⟩ ∧ (fc.from w off).Every (Safe s) := by
  have hsub : w.sub fc.len off = fc.len - off := w.sub_eq_of_lt hoff hfc
  refine ⟨by rw [ByteSpan.val_from, hsub], ?_⟩
  rw [ByteSpan.every_from, hsub]
  exact ⟨(Nat.add_sub_cancel' hoff).le, fun _ => trivial⟩

/-- The span between two ordered offsets, as the decoders cut it out. -/
theorem between_spec (s fc : ByteSpan) (lo : ℕ) {hi : ℕ} (hle : lo ≤ hi) (hhi : hi ≤ fc.len)
    (hlt : hi < 2 ^ 32) : (fc.between lo hi).val = ⟨fc.ptr.drop lo, hi - lo⟩ ∧
      (fc.between lo hi).Every (Safe s) := by
  rw [val_between, ByteSpan.cut, every_between, sub32_eq hle hlt]
  exact ⟨rfl, ⟨hle, fun _ => trivial⟩, (Nat.add_sub_cancel' hle).le.trans hhi, fun _ => trivial⟩

/-- **The Amsterdam chain config** is accepted exactly when it is canonical. -/
theorem acceptsCanonical_amsterdam01 {s : ByteSpan} (hs : s.len < w.modulus) :
    AcceptsCanonical .amsterdam01 (decodeChainConfigAmsterdam01 w s) s := by
  have hfork : (forkConfigType .amsterdam01).isFixed = false := rfl
  have hact : forkActivationType.isFixed = false := rfl
  have hcan : Canonical (chainConfigType .amsterdam01) s.bytes ↔ 12 ≤ s.len ∧
      u32At s.bytes 8 = 12 ∧
        Canonical (forkConfigType .amsterdam01) (window s.bytes 12 (s.len - 12)) := by
    rw [chainConfigType, canonical_u64_field hfork, ByteSpan.length_bytes]
  unfold decodeChainConfigAmsterdam01
  -- The decoder is followed from check to check: where it returns early the section is not
  -- canonical, and where it goes on the offset has its canonical value.
  rcases Nat.lt_or_ge s.len 12 with hshort | h12
  · rw [if_pos hshort]
    exact .reject rfl (by rw [hcan]; omega) rfl
  rw [if_neg (Nat.not_lt.mpr h12)]
  refine .bind (safe_readU64le id (by omega)) (.bind (safe_readU32le id (by omega)) ?_)
  rw [ByteSpan.val_readU64le, ByteSpan.val_readU32le, ByteSpan.u32At_ptr (by omega)]
  rcases Decidable.em (u32At s.bytes 8 ≠ 12 ∨ s.len < u32At s.bytes 8 + 4) with hoff | hoff
  · rw [if_pos hoff]
    refine .reject rfl ?_ rfl
    rw [hcan, forkConfigType, canonical_field hact, length_window, ByteSpan.length_bytes]
    omega
  rw [if_neg hoff]
  have h₈ : u32At s.bytes 8 = 12 := by omega
  obtain ⟨hfc, cfc⟩ := from_spec w s _ hs 12 h12
  rw [h₈]
  refine .bind cfc ?_
  rw [hfc]
  have nfc : Nested s ⟨s.ptr.drop 12, s.len - 12⟩ 12 (s.len - 12) := nested (by omega)
  -- Only the length and the bytes of a nested span matter from here on.
  generalize (⟨s.ptr.drop 12, s.len - 12⟩ : ByteSpan) = fc at nfc ⊢
  have lfc := nfc.len
  have bfc := nfc.bytes
  refine .bind (safe_readU32le nfc.inBounds (by omega)) ?_
  rw [ByteSpan.val_readU32le, ByteSpan.u32At_ptr (by omega)]
  rcases Decidable.em (u32At fc.bytes 0 ≠ 4 ∨ u32At fc.bytes 0 > fc.len) with hoff | hoff
  · rw [if_pos hoff]
    refine .reject rfl ?_ rfl
    rw [hcan, ← bfc, forkConfigType, canonical_field hact, ByteSpan.length_bytes]
    omega
  rw [if_neg hoff]
  have h₀ : u32At fc.bytes 0 = 4 := by omega
  obtain ⟨hact', cact⟩ := from_spec w s fc (by omega) 4 (by omega)
  rw [h₀]
  refine .bind cact ?_
  rw [hact']
  have nact : Nested fc ⟨fc.ptr.drop 4, fc.len - 4⟩ 4 (fc.len - 4) := nested (by omega)
  generalize (⟨fc.ptr.drop 4, fc.len - 4⟩ : ByteSpan) = act at nact ⊢
  have lact := nact.len
  have bact := nact.bytes
  obtain ⟨hsome, hread, hsafe⟩ := decodeForkActivation_spec w act (by omega)
  refine .bind (every_safe (nact.inBounds ∘ nfc.inBounds) hsafe) ?_
  -- Every check but the one of the activation has passed.
  have hcan' : Canonical (chainConfigType .amsterdam01) s.bytes ↔
      Canonical forkActivationType act.bytes := by
    rw [hcan, ← bfc, forkConfigType, canonical_field hact, ByteSpan.length_bytes, bact]
    exact ⟨fun h => h.2.2.2.2, fun h => ⟨h12, h₈, by omega, h₀, h⟩⟩
  cases ha : (decodeForkActivation w act).val with
  | none =>
    refine .reject rfl ?_ rfl
    rw [hcan', ← hsome, ha]
    exact Bool.false_ne_true
  | some a =>
    refine ⟨?_, ?_, Dec.every_pure _, rfl⟩
    · rw [hcan', ← hsome, ha]
      exact Iff.rfl
    · intro _
      have hfc : SszType.read (forkConfigType .amsterdam01) fc.bytes =
          (SszType.read forkActivationType (window fc.bytes 4 (fc.bytes.length - 4)), ()) :=
        read_field hact h₀
      rw [ByteSpan.length_bytes, ← bact, ← hread a ha] at hfc
      rw [read_u64_field hfork h₈, ByteSpan.length_bytes, ← bfc, hfc,
        ← ByteSpan.leNat_window_ptr (by omega)]
      rfl

/-- **The legacy chain config** is accepted exactly when it is canonical. -/
theorem acceptsCanonical_legacy0001 {s : ByteSpan} (hs : s.len < w.modulus) :
    AcceptsCanonical .legacy0001 (decodeChainConfig w s) s := by
  have hfork : (forkConfigType .legacy0001).isFixed = false := rfl
  have hact : forkActivationType.isFixed = false := rfl
  have hblob : (SszType.list blobScheduleType 1).isFixed = false := rfl
  have hcan : Canonical (chainConfigType .legacy0001) s.bytes ↔ 12 ≤ s.len ∧
      u32At s.bytes 8 = 12 ∧
        Canonical (forkConfigType .legacy0001) (window s.bytes 12 (s.len - 12)) := by
    rw [chainConfigType, canonical_u64_field hfork, ByteSpan.length_bytes]
  unfold decodeChainConfig
  -- The head is checked as for Amsterdam; the fork config has a head of sixteen bytes.
  rcases Nat.lt_or_ge s.len 12 with hshort | h12
  · rw [if_pos hshort]
    exact .reject rfl (by rw [hcan]; omega) rfl
  rw [if_neg (Nat.not_lt.mpr h12)]
  refine .bind (safe_readU64le id (by omega)) (.bind (safe_readU32le id (by omega)) ?_)
  rw [ByteSpan.val_readU64le, ByteSpan.val_readU32le, ByteSpan.u32At_ptr (by omega)]
  rcases Decidable.em (u32At s.bytes 8 ≠ 12 ∨ s.len < u32At s.bytes 8 + 16) with hoff | hoff
  · rw [if_pos hoff]
    refine .reject rfl ?_ rfl
    rw [hcan, forkConfigType, canonical_u64_fields hact hblob, length_window,
      ByteSpan.length_bytes]
    omega
  rw [if_neg hoff]
  have h₈ : u32At s.bytes 8 = 12 := by omega
  obtain ⟨hfc, cfc⟩ := from_spec w s _ hs 12 h12
  rw [h₈]
  refine .bind cfc ?_
  rw [hfc]
  have nfc : Nested s ⟨s.ptr.drop 12, s.len - 12⟩ 12 (s.len - 12) := nested (by omega)
  generalize (⟨s.ptr.drop 12, s.len - 12⟩ : ByteSpan) = fc at nfc ⊢
  have lfc := nfc.len
  have bfc := nfc.bytes
  refine .bind (safe_readU64le nfc.inBounds (by omega))
    (.bind (safe_readU32le nfc.inBounds (by omega))
      (.bind (safe_readU32le nfc.inBounds (by omega)) ?_))
  rw [ByteSpan.val_readU64le, ByteSpan.val_readU32le, ByteSpan.val_readU32le,
    ByteSpan.u32At_ptr (by omega), ByteSpan.u32At_ptr (by omega)]
  -- What is left to check is the fork config: its two offsets, the activation between them
  -- and the blob schedule after the second.
  have hcan' : Canonical (chainConfigType .legacy0001) s.bytes ↔ u32At fc.bytes 8 = 16 ∧
      (16 ≤ u32At fc.bytes 12 ∧ u32At fc.bytes 12 ≤ fc.len) ∧
      Canonical forkActivationType (window fc.bytes 16 (u32At fc.bytes 12 - 16)) ∧
      (fc.len - u32At fc.bytes 12 = 0 ∨ fc.len - u32At fc.bytes 12 = 24) := by
    have hlen : 16 ≤ fc.len := by omega
    rw [hcan, ← bfc, forkConfigType, canonical_u64_fields hact hblob, canonical_blobSchedule,
      length_window, ByteSpan.length_bytes, Nat.min_eq_left (by omega)]
    exact ⟨fun h => h.2.2.2, fun h => ⟨h12, h₈, hlen, h⟩⟩
  rcases Decidable.em (u32At fc.bytes 8 ≠ 16 ∨ u32At fc.bytes 12 < u32At fc.bytes 8 ∨
    u32At fc.bytes 12 > fc.len) with hoff | hoff
  · rw [if_pos hoff]
    refine .reject rfl ?_ rfl
    rw [hcan']
    omega
  rw [if_neg hoff]
  have h₈' : u32At fc.bytes 8 = 16 := by omega
  rw [h₈']
  have h₁₂ : u32At fc.bytes 12 < 2 ^ 32 := u32At_lt fc.bytes 12
  obtain ⟨hact', cact⟩ := between_spec s fc 16 (by omega) (by omega) h₁₂
  refine .bind cact ?_
  rw [hact']
  have nact : Nested fc ⟨fc.ptr.drop 16, u32At fc.bytes 12 - 16⟩ 16 (u32At fc.bytes 12 - 16) :=
    nested (by omega)
  generalize (⟨fc.ptr.drop 16, u32At fc.bytes 12 - 16⟩ : ByteSpan) = act at nact ⊢
  have lact := nact.len
  have bact := nact.bytes
  obtain ⟨hsome, hread, hsafe⟩ := decodeForkActivation_spec w act
    (by have := w.le_modulus; omega)
  refine .bind (every_safe (nact.inBounds ∘ nfc.inBounds) hsafe) ?_
  cases ha : (decodeForkActivation w act).val with
  | none =>
    refine .reject rfl ?_ rfl
    rw [hcan', ← bact, ← hsome, ha]
    intro h
    exact absurd h.2.2.1 Bool.false_ne_true
  | some a =>
    have hcact : Canonical forkActivationType act.bytes := hsome.mp (by rw [ha]; rfl)
    obtain ⟨hbs, cbs⟩ := from_spec w s fc (by omega) (u32At fc.bytes 12)
      (by omega)
    refine .bind cbs ?_
    rw [hbs]
    have nbs : Nested fc ⟨fc.ptr.drop (u32At fc.bytes 12), fc.len - u32At fc.bytes 12⟩
        (u32At fc.bytes 12) (fc.len - u32At fc.bytes 12) := nested (by omega)
    generalize (⟨fc.ptr.drop (u32At fc.bytes 12), fc.len - u32At fc.bytes 12⟩ : ByteSpan) = bs
      at nbs ⊢
    have lbs := nbs.len
    have bbs := nbs.bytes
    -- Any other length of the blob schedule is refused before it is read.
    rcases Decidable.em (bs.len ≠ 0 ∧ bs.len ≠ 24) with hlen | hlen
    · rw [if_pos hlen]
      refine .reject rfl ?_ rfl
      rw [hcan']
      omega
    rw [if_neg hlen]
    refine .bind ((every_decodeBlobSchedule bs).mpr ?_) ?_
    · intro h
      have hread : ∀ k, k + 8 ≤ bs.len → Safe s (.read bs.ptr.length bs.len k 8) :=
        fun k hk => ⟨hk, fun hs => hk.trans (nbs.inBounds (nfc.inBounds hs))⟩
      exact ⟨hread 0 (by omega), hread 8 (by omega), hread 16 (by omega)⟩
    · refine ⟨⟨?_, fun _ => rfl⟩, ?_, Dec.every_pure _, rfl⟩
      · intro _
        rw [hcan', ← bact]
        exact ⟨h₈', by omega, hcact, by omega⟩
      · intro _
        have hfc : SszType.read (forkConfigType .legacy0001) fc.bytes =
            (BitVec.ofNat 64 (leNat (window fc.bytes 0 8)),
              SszType.read forkActivationType (window fc.bytes 16 (u32At fc.bytes 12 - 16)),
              SszType.read (.list blobScheduleType 1)
                (window fc.bytes (u32At fc.bytes 12) (fc.bytes.length - u32At fc.bytes 12)), ()) :=
          read_u64_fields hact hblob h₈'
        rw [ByteSpan.length_bytes, ← bact, ← hread a ha, ← bbs,
          ← val_decodeBlobSchedule (by omega), ← ByteSpan.leNat_window_ptr (by omega)] at hfc
        rw [read_u64_field hfork h₈, ByteSpan.length_bytes, ← bfc, hfc,
          ← ByteSpan.leNat_window_ptr (by omega)]
        rfl

/-- The chain config decoder of a schema. -/
def decodeChainConfigOf (w : WordSize) : InputSchema → ByteSpan → Dec SszChainConfig
  | .legacy0001 => decodeChainConfig w
  | .amsterdam01 => decodeChainConfigAmsterdam01 w

/-- Both decoders accept exactly the canonical strings. -/
theorem acceptsCanonical (schema : InputSchema) {s : ByteSpan} (hs : s.len < w.modulus) :
    AcceptsCanonical schema (decodeChainConfigOf w schema s) s := by
  cases schema with
  | legacy0001 => exact acceptsCanonical_legacy0001 w hs
  | amsterdam01 => exact acceptsCanonical_amsterdam01 w hs

theorem chainConfigType_proper (schema : InputSchema) :
    (chainConfigType schema).Proper = true := by
  cases schema <;> rfl

theorem maxSize_chainConfigType (schema : InputSchema) :
    (chainConfigType schema).maxSize ≤ 76 := by
  cases schema <;> decide

theorem canonical_chainConfig_iff (schema : InputSchema) (b : Bytes) :
    Canonical (chainConfigType schema) b ↔
      ∃ v, Fits (chainConfigType schema) v ∧ serialize (chainConfigType schema) v = b :=
  canonical_iff_serialize (chainConfigType_proper schema)
    (lt_of_le_of_lt (maxSize_chainConfigType schema) (by norm_num))

/-- The fields of an accepted chain config, encoded, are the section it came from. -/
theorem serialize_decodeChainConfigOf (schema : InputSchema) {s : ByteSpan}
    (hs : s.len < w.modulus) (hvalid : (decodeChainConfigOf w schema s).val.valid = true) :
    serialize (chainConfigType schema)
      ((decodeChainConfigOf w schema s).val.toVal schema) = s.bytes := by
  have h := acceptsCanonical w schema hs
  rw [h.val hvalid]
  exact serialize_read (h.valid.mp hvalid).1

/-- **The chain config decoders accept exactly the canonical encodings.**  The
decoder of each schema accepts a byte string if and only if it encodes a chain
config with at most one item in each list.  The decoded fields are then
re-encoded to the string, which is also what `raw` keeps, so two accepted
strings decode to the same config only if they are equal. -/
theorem decodeChainConfig_canonical (schema : InputSchema) (s : Bytes)
    (hs : s.length < w.modulus) : ∃ cc : SszChainConfig,
      (decodeChainConfigOf w schema (.ofBytes s)).outcome = .ok cc ∧
      (cc.valid = true ↔
        ∃ v, Fits (chainConfigType schema) v ∧ serialize (chainConfigType schema) v = s) ∧
      cc.raw = .ofBytes s ∧
      (cc.valid = true → serialize (chainConfigType schema) (cc.toVal schema) = s ∧
        ∀ s' cc', s'.length < w.modulus →
          (decodeChainConfigOf w schema (.ofBytes s')).outcome = .ok cc' → cc'.valid = true →
          ((cc.toVal schema = cc'.toVal schema ↔ s = s') ∧
            (cc.raw.bytes = cc'.raw.bytes ↔ cc = cc'))) := by
  have h := acceptsCanonical w schema (s := .ofBytes s) hs
  have hcan := h.valid
  rw [ByteSpan.bytes_ofBytes, canonical_chainConfig_iff] at hcan
  refine ⟨_, Dec.outcome_eq_ok.mpr ⟨h.returns (ByteSpan.inBounds_ofBytes s), rfl⟩, hcan, h.raw,
    ?_⟩
  intro hvalid
  have hser := serialize_decodeChainConfigOf w schema (s := .ofBytes s) hs hvalid
  rw [ByteSpan.bytes_ofBytes] at hser
  refine ⟨hser, ?_⟩
  intro s' cc' hs' hok hvalid'
  obtain ⟨-, rfl⟩ := Dec.outcome_eq_ok.mp hok
  have hser' := serialize_decodeChainConfigOf w schema (s := .ofBytes s') hs' hvalid'
  rw [ByteSpan.bytes_ofBytes] at hser'
  have h' := acceptsCanonical w schema (s := .ofBytes s') hs'
  constructor
  · refine ⟨?_, fun heq => by rw [heq]⟩
    intro heq
    rw [← hser, ← hser', heq]
  · refine ⟨?_, fun heq => by rw [heq]⟩
    intro heq
    rw [h.raw, h'.raw, ByteSpan.bytes_ofBytes, ByteSpan.bytes_ofBytes] at heq
    rw [heq]

/-- The Amsterdam config of chain 1, active from block 7 on. -/
def blockSevenConfig : Bytes :=
  [1, 0, 0, 0, 0, 0, 0, 0, 12, 0, 0, 0, 4, 0, 0, 0, 8, 0, 0, 0, 16, 0, 0, 0, 7, 0, 0, 0, 0, 0, 0, 0]

theorem decodeChainConfig_canonical_blockSeven : ∃ cc : SszChainConfig,
    (decodeChainConfigOf .bits32 .amsterdam01 (.ofBytes blockSevenConfig)).outcome = .ok cc ∧
      cc.valid = true ∧
      serialize (chainConfigType .amsterdam01) (cc.toVal .amsterdam01) = blockSevenConfig := by
  obtain ⟨cc, hok, hvalid, -, hser⟩ :=
    decodeChainConfig_canonical .bits32 .amsterdam01 blockSevenConfig (by decide)
  have hacc : cc.valid = true := by
    refine hvalid.mpr ⟨((1 : BitVec 64), (([(7 : BitVec 64)], [], ()), ()), ()), ?_, ?_⟩
    · simp [Fits, FitsAll]
    · decide +kernel
  exact ⟨cc, hok, hacc, (hser hacc).1⟩

end StatelessGuest
