import StatelessGuest.Limits
import StatelessGuest.RoundTrip

/-!
# What the input decoders accept

The checks of the input decoders cover the head, the chain config, the length of
the payload and, under the Amsterdam schema, the length of the public keys.  An
input that passes them is canonical only if the unchecked sections are in order and
within their limits.

## Main definitions

* `DecodesCanonically` — the input is rejected, or canonical and decoded to the
  value it encodes.
* `CheckedOrInLimits` — the input fails a check, or its unchecked sections are in
  order and within their limits.

## Main results

* `decodeStatelessInput_canonical` — **the two are equivalent.**
-/

namespace StatelessGuest

open Ssz SszType

variable (w : WordSize) (schema : InputSchema) (b : Bytes)

/-- The input fails a check before a read leaves it, or the offsets of the sections that are
not checked are in order, and their lengths and their numbers of items within the limits. -/
def CheckedOrInLimits : Prop :=
  InputHead b → ConfigAccepted schema b →
    (¬PayloadFound schema b ∧ Backed (inputRequestType schema b) (requestSpan b)) ∨
    (schema = .amsterdam01 ∧ ¬maxBytesPerPublicKey ∣ (keysSection b).length ∧
      Backed (inputRequestType schema b) (requestSpan b) ∧ Backed witnessType (witnessSpan b)) ∨
    (RequestInLimits (dictatedShape schema b) schema.builderRequests schema.balLimit
        (requestSection b) ∧
      WitnessInLimits (witnessSection b) ∧ KeysInLimits schema (keysSection b))

/-- The decoder reports the input invalid, or the input is the encoding of the
decoded value, which is within the limits. -/
def DecodesCanonically : Prop :=
  ∃ si, (decodeStatelessInputOf w schema (.ofBytes b)).outcome = .ok si ∧
    (si.valid = true → ∃ v : (inputType schema (dictatedShape schema b) .flat).Val,
      Fits (inputType schema (dictatedShape schema b) .flat) v ∧
      serialize (inputType schema (dictatedShape schema b) .flat) v = b ∧
      Denotes schema (dictatedShape schema b) .flat si v)

variable {schema b}

theorem fits_four {p q r u : SszType} (x : p.Val) (y : q.Val) (z : r.Val) (t : u.Val) :
    Fits (.container [p, q, r, u]) (x, y, z, t, ()) ↔ Fits p x ∧ Fits q y ∧ Fits r z ∧ Fits u t := by
  rw [Fits]
  simp only [FitsAll, and_true]

/-- An input is canonical when its head and its sections are. -/
theorem canonical_input {shape : PayloadShape} (hlen : b.length < 2 ^ 32) :
    Canonical (inputType schema shape .flat) b ↔ InputHead b ∧
      Canonical (newPayloadRequestType shape schema.builderRequests schema.balLimit)
        (requestSection b) ∧
      Canonical witnessType (witnessSection b) ∧
      Canonical (chainConfigType schema) (configSection b) ∧
      Canonical (publicKeysType .flat) (keysSection b) := by
  rw [Canonical, laid_input hlen, read_input hlen]
  constructor
  · rintro ⟨⟨h, l₁, l₂, l₃, l₄⟩, hfits⟩
    obtain ⟨f₁, f₂, f₃, f₄⟩ := (fits_four _ _ _ _).mp hfits
    exact ⟨h, ⟨l₁, f₁⟩, ⟨l₂, f₂⟩, ⟨l₃, f₃⟩, ⟨l₄, f₄⟩⟩
  · rintro ⟨h, ⟨l₁, f₁⟩, ⟨l₂, f₂⟩, ⟨l₃, f₃⟩, ⟨l₄, f₄⟩⟩
    exact ⟨⟨h, l₁, l₂, l₃, l₄⟩, (fits_four _ _ _ _).mpr ⟨f₁, f₂, f₃, f₄⟩⟩

/-- The decoder returns when its reads are backed. -/
theorem returns_iff_backed (h : InputHead b) (hc : ConfigOk w schema b) :
    (decodeStatelessInputOf w schema (.ofBytes b)).Returns ↔
      Backed (inputRequestType schema b) (requestSpan b) ∧
        (PayloadFound schema b → Backed witnessType (witnessSpan b)) := by
  have hshape := ((configOk_iff w schema h).mp hc).2
  have hreq : (decodeRequest w schema b).Returns ↔
      Backed (inputRequestType schema b) (requestSpan b) := by
    rw [decodeRequest_eq w schema h hc]
    exact (decodesSection_request w hshape).returns _ (sub32_lt _ _)
  have hwit : (decodeWitness w (witnessSpan b)).Returns ↔ Backed witnessType (witnessSpan b) :=
    (decodesSection_witness w).returns _ (sub32_lt _ _)
  have hkeys := (returns_of_ordered w schema h).2.2
  rw [returns_decodeStatelessInputOf w h, hreq, hwit, requestOk_iff w schema h hc]
  exact ⟨fun hr => ⟨(hr hc).1, fun hp => ((hr hc).2 hp).1⟩,
    fun hr _ => ⟨hr.1, fun hp => ⟨hr.2 hp, hkeys⟩⟩⟩

/-- The Amsterdam keys are accepted when they leave no remainder. -/
theorem isSome_decodeKeys (h : InputHead b) : (decodeKeys w schema (keysSpan b)).val.isSome = true ↔
    (schema = .amsterdam01 → maxBytesPerPublicKey ∣ (keysSection b).length) := by
  have hlen : (keysSection b).length = (keysSpan b).len := by
    rw [← bytes_keysSpan h, ByteSpan.length_bytes]
  cases schema with
  | legacy0001 =>
    rw [decodeKeys, Dec.val_bind, Dec.val_pure]
    exact ⟨fun _ hs => InputSchema.noConfusion hs, fun _ => rfl⟩
  | amsterdam01 =>
    rw [decodeKeys, hlen, Nat.dvd_iff_mod_eq_zero]
    split
    · rename_i hmod
      simp [hmod]
    · rename_i hmod
      simp [not_not.mp hmod]

/-- Only the empty list of legacy keys is read as it is. -/
theorem keysInLimits_of_decoded (h : InputHead b) {ks : List ByteSpan}
    (hks : (decodeKeys w schema (keysSpan b)).val = some ks)
    (hcan : Canonical (publicKeysType .flat) (keysSection b))
    (heq : ks.map ByteSpan.bytes =
      keyBytes .flat (SszType.read (publicKeysType .flat) (keysSection b))) :
    KeysInLimits schema (keysSection b) := by
  cases schema with
  | amsterdam01 => exact (canonical_keys _).mp hcan
  | legacy0001 =>
    have hsection : (keysSection b).length =
        (keyBytes .flat (SszType.read (publicKeysType .flat) (keysSection b))).length * 65 := by
      rw [← length_serialize_keys, serialize_read hcan.1]
    have hlen : (keysSpan b).len = (keysSection b).length := by
      rw [← bytes_keysSpan h, ByteSpan.length_bytes]
    rw [decodeKeys, Dec.val_bind, Dec.val_pure] at hks
    have hks' := Option.some.inj hks
    rw [KeysInLimits, hsection]
    refine Nat.mul_eq_zero.mpr (Or.inl (count_eq_zero_of_table w (sub32_lt _ _)
      (hlen.trans hsection) ?_ ?_))
    · rw [hks', ← heq, List.length_map]
    · intro x hx
      rw [hks'] at hx
      have hmem : x.bytes ∈ keyBytes .flat (SszType.read (publicKeysType .flat) (keysSection b)) :=
        heq ▸ List.mem_map_of_mem hx
      obtain ⟨key, -, hkey⟩ := List.mem_map.mp hmem
      rw [← ByteSpan.length_bytes, ← hkey]
      exact List.Vector.toList_length key

/-- The empty list is canonical. -/
theorem canonical_list_nil {t : SszType} (ht : t.isFixed = true) (limit : ℕ) :
    Canonical (.list t limit) [] := by
  refine ⟨by rw [Laid, if_pos ht]; exact dvd_zero _, ?_⟩
  rw [read_list_fixed ht, List.length_nil, Nat.zero_div, Fits]
  exact ⟨Nat.zero_le _, fun v hv => absurd hv List.not_mem_nil⟩

/-- Keys within the limits are canonical for both schemas, and read as they are. -/
theorem keys_of_inLimits (h : InputHead b) (hkeys : KeysInLimits schema (keysSection b)) :
    Canonical (publicKeysType .flat) (keysSection b) ∧
      ∃ ks, (decodeKeys w schema (keysSpan b)).val = some ks ∧ ks.map ByteSpan.bytes =
        keyBytes .flat (SszType.read (publicKeysType .flat) (keysSection b)) := by
  cases schema with
  | amsterdam01 =>
    have hcan := (canonical_keys _).mpr hkeys
    have hlaid := hcan.1
    rw [← bytes_keysSpan h] at hlaid
    obtain ⟨ks, hks, hmap⟩ := decodeKeys_amsterdam w (sub32_lt _ _) hlaid
    rw [bytes_keysSpan h] at hmap
    exact ⟨hcan, ks, hks, hmap⟩
  | legacy0001 =>
    have hnil : keysSection b = [] := List.eq_nil_of_length_eq_zero hkeys
    have hshort : (keysSpan b).len < 4 := by
      rw [← ByteSpan.length_bytes, bytes_keysSpan h, hnil]
      norm_num
    rw [hnil, decodeKeys, decodeBytelistList_of_short w hshort]
    exact ⟨canonical_list_nil rfl maxPublicKeys, [], rfl, rfl⟩

/-- **What is accepted is canonical exactly where the unchecked sections are in order.**  The
decoder of a schema reports an input invalid or decodes it to the value it
encodes exactly when the input fails one of the checks, with the reads up to
there inside it, or the offsets, the lengths and the numbers of items of its request,
witness and key sections are in order and within their limits. -/
theorem decodeStatelessInput_canonical (hlen : b.length < 2 ^ 32) :
    DecodesCanonically w schema b ↔ CheckedOrInLimits schema b := by
  constructor
  · rintro ⟨si, hok, hsi⟩ h hcc
    have hc : ConfigOk w schema b := (configOk_iff w schema h).mpr hcc
    obtain ⟨hret, hval⟩ := Dec.outcome_eq_ok.mp hok
    obtain ⟨breq, bwit⟩ := (returns_iff_backed w h hc).mp hret
    rcases Decidable.em (RequestOk w schema b) with hr | hr
    · have hp := (requestOk_iff w schema h hc).mp hr
      -- Only an input that passes every check is accepted, and then all sections are canonical.
      rcases Decidable.em ((decodeKeys w schema (keysSpan b)).val.isSome = true) with hk | hk
      · have hvalid : si.valid = true := by
          rw [← hval]
          exact (valid_decodeStatelessInputOf w schema).mpr ⟨h, hc, hr, hk⟩
        obtain ⟨-, -, -, -, -, -, hkeys, -⟩ := input_of_valid w schema hok hvalid
        obtain ⟨v, hfits, hser, hden⟩ := hsi hvalid
        have hcan : Canonical (inputType schema (dictatedShape schema b) .flat) b := by
          have hl := laid_serialize (inputType_proper _ _ _) v (by rw [hser]; exact hlen)
          have hrd := read_serialize (inputType_proper _ _ _) v (by rw [hser]; exact hlen)
          rw [hser] at hl hrd
          exact ⟨hl, by rw [hrd]; exact hfits⟩
        obtain ⟨-, creq, cwit, -, ckeys⟩ := (canonical_input hlen).mp hcan
        obtain ⟨-, -, -, -, -, -, -, -, ekeys⟩ :=
          laid_of_serialize (by rw [hser]; exact hlen) hser
        have heq := hden.publicKeys
        rw [← ekeys] at heq
        exact Or.inr (Or.inr ⟨(canonical_request _ _ _ _).mp creq, (canonical_witness _).mp cwit,
          keysInLimits_of_decoded w h hkeys ckeys heq⟩)
      · rw [isSome_decodeKeys w h, Classical.not_imp] at hk
        exact Or.inr (Or.inl ⟨hk.1, hk.2, breq, bwit hp⟩)
    · exact Or.inl ⟨fun hp => hr ((requestOk_iff w schema h hc).mpr hp), breq⟩
  · intro hq
    -- An input that is rejected decodes canonically as soon as the decoder returns.
    have hreject : ∀ d : Dec SszStatelessInput, d.Returns → d.val.valid = false →
        ∃ si, d.outcome = .ok si ∧ (si.valid = true →
          ∃ v : (inputType schema (dictatedShape schema b) .flat).Val,
            Fits (inputType schema (dictatedShape schema b) .flat) v ∧
            serialize (inputType schema (dictatedShape schema b) .flat) v = b ∧
            Denotes schema (dictatedShape schema b) .flat si v) := by
      intro d hret hinvalid
      refine ⟨d.val, Dec.outcome_eq_ok.mpr ⟨hret, rfl⟩, ?_⟩
      intro hvalid
      rw [hinvalid] at hvalid
      exact absurd hvalid Bool.false_ne_true
    have hinvalid : ¬(InputHead b ∧ ConfigOk w schema b ∧ RequestOk w schema b ∧
        (decodeKeys w schema (keysSpan b)).val.isSome = true) →
        (decodeStatelessInputOf w schema (.ofBytes b)).val.valid = false := by
      intro hn
      rw [← valid_decodeStatelessInputOf, Bool.not_eq_true] at hn
      exact hn
    rcases Decidable.em (InputHead b) with h | h
    · rcases Decidable.em (ConfigOk w schema b) with hc | hc
      · -- The three cases are: a bad request, keys with a remainder, and a canonical input.
        rcases hq h ((configOk_iff w schema h).mp hc) with
          ⟨hp, breq⟩ | ⟨hs, hdvd, breq, bwit⟩ | ⟨lreq, lwit, lkeys⟩
        · refine hreject _ ((returns_iff_backed w h hc).mpr ⟨breq, fun hp' => absurd hp' hp⟩)
            (hinvalid fun hv => hp ((requestOk_iff w schema h hc).mp hv.2.2.1))
        · refine hreject _ ((returns_iff_backed w h hc).mpr ⟨breq, fun _ => bwit⟩)
            (hinvalid fun hv => hdvd ((isSome_decodeKeys w h).mp hv.2.2.2 hs))
        · have creq := (canonical_request _ _ _ _).mpr lreq
          have cwit := (canonical_witness _).mpr lwit
          obtain ⟨hkeys, ks, hks, hmap⟩ := keys_of_inLimits w h lkeys
          have hcc := (configOk_iff w schema h).mp hc
          obtain ⟨si, hok, hsi⟩ := laidInput_decode w h hcc creq.1 cwit.1 (by rw [hks]; rfl)
          have hcan := (canonical_input hlen).mpr ⟨h, creq, cwit, hcc.1, hkeys⟩
          refine ⟨si, hok, fun _ => ⟨_, hcan.2, serialize_read hcan.1, ?_⟩⟩
          rw [read_input hlen]
          have hpk := hsi.publicKeys
          rw [hks] at hpk
          refine ⟨hsi.newPayloadRequest, hsi.witness, hsi.chainConfig, ?_⟩
          rw [← Option.some.inj hpk]
          exact hmap
      · refine hreject _ ((returns_decodeStatelessInputOf w h).mpr fun hc' => absurd hc' hc)
          (hinvalid fun hv => hc hv.2.1)
    · exact hreject _ (every_decodeStatelessInputOf_of_not_head w h fun _ hk => hk)
        (hinvalid fun hv => h hv.1)

/-- The sections of an input with items in its lists. -/
theorem inLimits_amsterdamBlock : CheckedOrInLimits .amsterdam01
    (serialize (inputType .amsterdam01 .gloas .flat) amsterdamBlock) := by
  refine fun _ _ => .inr (.inr ⟨?_, ?_, ?_⟩)
  · show ContainerOk _ _ _
    simp only [ContainerOk, PiecesOk, pieceStart, PayloadInLimits, RequestListsInLimits,
      dictatedShape, InputSchema.builderRequests]
    decide +kernel
  · simp only [WitnessInLimits, ContainerOk, PiecesOk, pieceStart]
    decide +kernel
  · simp only [KeysInLimits]
    decide +kernel

theorem decodeStatelessInput_canonical_amsterdamBlock : DecodesCanonically .bits32 .amsterdam01
    (serialize (inputType .amsterdam01 .gloas .flat) amsterdamBlock) :=
  (decodeStatelessInput_canonical .bits32
    (lt_of_lt_of_le length_amsterdamBlock (by norm_num))).mpr inLimits_amsterdamBlock

/-- The input without a request is accepted, and is no encoding. -/
theorem decodeStatelessInput_canonical_counterexample :
    ¬∀ (w : WordSize) (schema : InputSchema) (b : Bytes), b.length < 2 ^ 32 →
      DecodesCanonically w schema b := by
  intro h
  obtain ⟨si, hok, hsi⟩ := h .bits32 .amsterdam01 emptyRequestInput (by decide)
  obtain ⟨-, hval⟩ := Dec.outcome_eq_ok.mp hok
  have hvalid : si.valid = true := by
    rw [← hval]
    decide +kernel
  obtain ⟨v, -, hser, -⟩ := hsi hvalid
  obtain ⟨-, lreq, -⟩ := laid_of_serialize (by rw [hser]; decide) hser
  have hlong := ((laid_request rfl rfl rfl _).mp lreq).1
  revert hlong
  decide +kernel

end StatelessGuest
