import StatelessGuest.Requests

/-!
# Decoding what was encoded

The encoding of an input is laid out in order at every level, so the decoders
find every section where the encoder put it.

## Main definitions

* `shapeOf` — the payload shape that goes with a chain config.
* `HoldsValue` — a decoded input holds a value, and the raw request spans are
  the encoded lists.

## Main results

* `laidInput_decode` — a string laid out in order is decoded to what is read off it.
* `decodeStatelessInput_serialize` — **decoding undoes encoding.**
* `publicKeys_legacy` — **legacy public keys survive only if there are none.**
-/

namespace StatelessGuest

open Ssz SszType

variable (w : WordSize)

/-! ### The layout of an input -/

section

variable {p q r u : SszType} (hp : p.isFixed = false) (hq : q.isFixed = false)
  (hr : r.isFixed = false) (hu : u.isFixed = false)
include hp hq hr hu

/-- The layout of four variable-size fields. -/
theorem laid_four (b : Bytes) : Laid (.container [p, q, r, u]) b ↔
    16 ≤ b.length ∧ u32At b 0 = 16 ∧ u32At b 0 ≤ u32At b 4 ∧
      Laid p (window b (u32At b 0) (u32At b 4 - u32At b 0)) ∧ u32At b 4 ≤ u32At b 8 ∧
      Laid q (window b (u32At b 4) (u32At b 8 - u32At b 4)) ∧ u32At b 8 ≤ u32At b 12 ∧
      Laid r (window b (u32At b 8) (u32At b 12 - u32At b 8)) ∧ u32At b 12 ≤ b.length ∧
      Laid u (window b (u32At b 12) (b.length - u32At b 12)) := by
  simp only [laid_container, bodyStart, headSize, LaidFields, hp, hq, hr, hu, Bool.false_eq_true,
    ↓reduceIte, Nat.reduceAdd, and_true]

theorem read_four (b : Bytes) : SszType.read (.container [p, q, r, u]) b =
    (SszType.read p (window b (u32At b 0) (u32At b 4 - u32At b 0)),
      SszType.read q (window b (u32At b 4) (u32At b 8 - u32At b 4)),
      SszType.read r (window b (u32At b 8) (u32At b 12 - u32At b 8)),
      SszType.read u (window b (u32At b 12) (b.length - u32At b 12)), ()) := by
  simp only [read_container, bodyStart, readFields, hp, hq, hr, hu, Bool.false_eq_true, ↓reduceIte,
    Nat.reduceAdd]

end

variable {schema : InputSchema} {shape : PayloadShape} {keys : KeyLayout} {b : Bytes}

/-- An input laid out in order passes the check of its head, and its sections are
laid out in order. -/
theorem laid_input (hlen : b.length < 2 ^ 32) : Laid (inputType schema shape keys) b ↔
    InputHead b ∧
      Laid (newPayloadRequestType shape schema.builderRequests schema.balLimit)
        (requestSection b) ∧
      Laid witnessType (witnessSection b) ∧ Laid (chainConfigType schema) (configSection b) ∧
      Laid (publicKeysType keys) (keysSection b) := by
  have hc : (chainConfigType schema).isFixed = false := by cases schema <;> rfl
  have hk : (publicKeysType keys).isFixed = false := by cases keys <;> rfl
  rw [inputType, laid_four rfl rfl hc hk, InputHead, requestSection, witnessSection,
    configSection, keysSection, Nat.mod_eq_of_lt hlen]
  constructor
  · rintro ⟨h₁, h₂, h₃, l₁, h₄, l₂, h₅, l₃, h₆, l₄⟩
    exact ⟨⟨h₁, h₂, h₂ ▸ h₃, h₄, h₅, h₆⟩, l₁, l₂, l₃, l₄⟩
  · rintro ⟨⟨h₁, h₂, h₃, h₄, h₅, h₆⟩, l₁, l₂, l₃, l₄⟩
    exact ⟨h₁, h₂, h₂.symm ▸ h₃, l₁, h₄, l₂, h₅, l₃, h₆, l₄⟩

theorem read_input (hlen : b.length < 2 ^ 32) : SszType.read (inputType schema shape keys) b =
    (SszType.read (newPayloadRequestType shape schema.builderRequests schema.balLimit)
        (requestSection b),
      SszType.read witnessType (witnessSection b),
      SszType.read (chainConfigType schema) (configSection b),
      SszType.read (publicKeysType keys) (keysSection b), ()) := by
  have hc : (chainConfigType schema).isFixed = false := by cases schema <;> rfl
  have hk : (publicKeysType keys).isFixed = false := by cases keys <;> rfl
  rw [requestSection, witnessSection, configSection, keysSection, Nat.mod_eq_of_lt hlen]
  exact read_four rfl rfl hc hk b

/-- The lists of requests laid out in order have no remainder. -/
theorem requestsWhole_of_laid {builderRequests : Bool} {s : ByteSpan} (hs : s.len < 2 ^ 32)
    (h : Laid (executionRequestsType builderRequests) s.bytes) :
    RequestsWhole builderRequests s := by
  have hcut : ∀ {lo hi n : ℕ}, lo ≤ hi → hi ≤ s.len →
      n ∣ (window s.bytes lo (hi - lo)).length → n ∣ sub32 hi lo := by
    intro lo hi n hle hhi hdvd
    rwa [length_window_of_le (by rw [ByteSpan.length_bytes]; omega),
      ← sub32_eq hle (by omega)] at hdvd
  cases builderRequests with
  | true =>
    simp only [laid_container, bodyStart, headSize, LaidFields, isFixed, Bool.false_eq_true,
      if_false, ByteSpan.length_bytes, Nat.reduceAdd] at h
    obtain ⟨hlen, -, h₀, hl₀, h₁, hl₁, h₂, hl₂, h₃, hl₃, h₄, hl₄, -⟩ := h
    simp only [RequestsWhole, if_true, Nat.mod_eq_of_lt hs]
    rw [ByteSpan.u32At_ptr (by omega), ByteSpan.u32At_ptr (by omega),
      ByteSpan.u32At_ptr (by omega), ByteSpan.u32At_ptr (by omega), ByteSpan.u32At_ptr (by omega)]
    exact ⟨hcut h₀ (by omega) hl₀, hcut h₁ (by omega) hl₁, hcut h₂ (by omega) hl₂,
      hcut h₃ (by omega) hl₃, hcut h₄ le_rfl hl₄⟩
  | false =>
    simp only [laid_container, bodyStart, headSize, LaidFields, isFixed, Bool.false_eq_true,
      if_false, ByteSpan.length_bytes, Nat.reduceAdd] at h
    obtain ⟨hlen, -, h₀, hl₀, h₁, hl₁, h₂, hl₂, -⟩ := h
    simp only [RequestsWhole, Bool.false_eq_true, if_false, Nat.mod_eq_of_lt hs]
    rw [ByteSpan.u32At_ptr (by omega), ByteSpan.u32At_ptr (by omega),
      ByteSpan.u32At_ptr (by omega)]
    exact ⟨hcut h₀ (by omega) hl₀, hcut h₁ (by omega) hl₁, hcut h₂ le_rfl hl₂⟩

/-! ### Decoding a laid input -/

theorem payloadFixed_le_headSize (shape : PayloadShape) (balLimit : ℕ) :
    payloadFixed shape ≤ headSize (.bytes 32 :: .bytes 20 :: .bytes 32 :: .bytes 32 ::
      .bytes 256 :: .bytes 32 :: u64 :: u64 :: u64 :: u64 :: .byteList maxExtraDataBytes ::
      .uint 32 :: .bytes 32 :: transactionsType ::
      .list withdrawalType maxWithdrawalsPerPayload :: u64 :: u64 :: payloadTail balLimit shape) := by
  cases shape <;>
    simp [payloadFixed, headSize, isFixed, size, payloadV3Fixed, payloadV4Fixed]

/-- A request laid out in order has a payload, and its request lists agree with
their raw spans. -/
theorem request_of_laid (h : InputHead b) (hc : ConfigOk w schema b)
    (hlaid : Laid (inputRequestType schema b) (requestSection b)) :
    RequestOk w schema b ∧ RawAgrees (decodeRequest w schema b).val.executionRequests := by
  have hs : (requestSpan b).len < 2 ^ 32 := sub32_lt _ _
  have hr : (executionRequestsType schema.builderRequests).isFixed = false := rfl
  have hp : (executionPayloadType (dictatedShape schema b) schema.balLimit).isFixed = false := rfl
  have hbytes := bytes_requestSpan h
  have hlaid' := hlaid
  rw [inputRequestType, laid_request hp rfl hr, ← hbytes, ByteSpan.length_bytes] at hlaid'
  obtain ⟨hlen, -, h₀, hl₀, h₁, -, h₂, hl₂⟩ := hlaid'
  constructor
  · rw [requestOk_iff w schema h hc, PayloadFound, ← hbytes, sub32_eq h₀ (u32At_lt _ _)]
    apply Or.inr
    have hhead := (laid_container.mp hl₀).1
    rw [length_window_of_le (by rw [ByteSpan.length_bytes]; omega)] at hhead
    refine le_trans ?_ hhead
    exact payloadFixed_le_headSize _ _
  · rw [decodeRequest_eq w schema h hc, decodeNewPayloadRequest, if_neg (Nat.not_lt.mpr hlen)]
    simp (disch := omega) only [Dec.val_bind, Dec.val_pure, val_between, ByteSpan.val_readU32le,
      ByteSpan.u32At_ptr, Nat.mod_eq_of_lt hs]
    rw [rawAgrees_decodeExecutionRequests]
    obtain ⟨hcut, -, -⟩ := cut_of_le h₂ le_rfl hs
    rw [← hcut] at hl₂
    exact Or.inr (requestsWhole_of_laid (sub32_lt _ _) hl₂)

/-- The decoded input holds what is read off the sections. -/
structure HoldsSections (schema : InputSchema) (b : Bytes) (si : SszStatelessInput) : Prop where
  valid : si.valid = true
  newPayloadRequest : si.newPayloadRequest.toVal (dictatedShape schema b) schema.builderRequests
    schema.balLimit = SszType.read (inputRequestType schema b) (requestSection b)
  witness : si.witness.toVal = SszType.read witnessType (witnessSection b)
  chainConfig : si.chainConfig.toVal schema =
    SszType.read (chainConfigType schema) (configSection b)
  publicKeys : (decodeKeys w schema (keysSpan b)).val = some si.publicKeys
  raw : RawAgrees si.newPayloadRequest.executionRequests

/-- An input laid out in order is decoded to what is read off it. -/
theorem laidInput_decode (h : InputHead b) (hcc : ConfigAccepted schema b)
    (hreq : Laid (inputRequestType schema b) (requestSection b))
    (hwit : Laid witnessType (witnessSection b))
    (hkeys : (decodeKeys w schema (keysSpan b)).val.isSome = true) :
    ∃ si, (decodeStatelessInputOf w schema (.ofBytes b)).outcome = .ok si ∧
      HoldsSections w schema b si := by
  have hc : ConfigOk w schema b := (configOk_iff w schema h).mpr hcc
  obtain ⟨hrok, hraw⟩ := request_of_laid w h hc hreq
  obtain ⟨rreq, rwit, rkeys⟩ := returns_of_ordered w schema h
  have hret : (decodeStatelessInputOf w schema (.ofBytes b)).Returns :=
    (returns_decodeStatelessInputOf w h).mpr fun _ =>
      ⟨rreq hc (ordered_of_laid hreq), fun _ => ⟨rwit (ordered_of_laid hwit), rkeys⟩⟩
  have hok := Dec.outcome_eq_ok.mpr ⟨hret, rfl⟩
  have hvalid := (valid_decodeStatelessInputOf w schema).mpr ⟨h, hc, hrok, hkeys⟩
  obtain ⟨-, -, -, ecc, ereq, ewit, ekeys, -⟩ := input_of_valid w schema hok hvalid
  -- Each section is read off its own bytes, which are those of the input.
  refine ⟨_, hok, hvalid, ?_, ?_, ?_, ekeys, by rw [ereq]; exact hraw⟩
  · rw [ereq, decodeRequest_eq w schema h hc]
    have hval := (decodesSection_request w hcc.2).val (requestSpan b) (sub32_lt _ _)
      (by rw [bytes_requestSpan h]; exact hreq)
    rw [bytes_requestSpan h] at hval
    exact hval
  · rw [ewit]
    have hval := (decodesSection_witness w).val (witnessSpan b) (sub32_lt _ _)
      (by rw [bytes_witnessSpan h]; exact hwit)
    rw [bytes_witnessSpan h] at hval
    exact hval
  · rw [ecc]
    have hval := (acceptsCanonical w schema (configSpan_lt (b := b) w)).val hc.1
    rw [(sections_of_head h).2.2.1.1] at hval
    exact hval

/-! ### The round trip -/

/-- The payload shape that goes with a chain config. -/
def shapeOf : (schema : InputSchema) → (chainConfigType schema).Val → PayloadShape
  | .legacy0001, c => payloadShapeForFork c.2.1.1
  | .amsterdam01, _ => .gloas

/-- The decoded input holds the value `v`, and the raw spans of its execution
requests are the encoded lists.  The keys are compared under the Amsterdam
schema only. -/
structure HoldsValue (schema : InputSchema) (shape : PayloadShape) (si : SszStatelessInput)
    (v : (inputType schema shape .flat).Val) : Prop where
  newPayloadRequest :
    si.newPayloadRequest.toVal shape schema.builderRequests schema.balLimit = v.1
  witness : si.witness.toVal = v.2.1
  chainConfig : si.chainConfig.toVal schema = v.2.2.1
  publicKeys : schema = .amsterdam01 →
    si.publicKeys.map ByteSpan.bytes = keyBytes .flat v.2.2.2.1
  raw : RawAgrees si.newPayloadRequest.executionRequests

/-- What is read off a list of fixed-size items. -/
theorem read_list_fixed {t : SszType} (ht : t.isFixed = true) (limit : ℕ) (b : Bytes) :
    SszType.read (.list t limit) b =
      (List.range (b.length / t.size)).map fun i => SszType.read t (window b (i * t.size) t.size) := by
  rw [SszType.read, if_pos ht]

/-- The Amsterdam keys are read as they are. -/
theorem decodeKeys_amsterdam {s : ByteSpan} (hs : s.len < 2 ^ 32)
    (h : Laid (publicKeysType .flat) s.bytes) :
    ∃ ks, (decodeKeys w .amsterdam01 s).val = some ks ∧
      ks.map ByteSpan.bytes = keyBytes .flat (SszType.read (publicKeysType .flat) s.bytes) := by
  have hfixed : (SszType.bytes maxBytesPerPublicKey).isFixed = true := rfl
  have hdvd : maxBytesPerPublicKey ∣ s.len := by
    rw [publicKeysType, Laid, if_pos hfixed, ByteSpan.length_bytes] at h
    exact h
  rw [decodeKeys, if_neg (not_not.mpr (Nat.mod_eq_zero_of_dvd hdvd))]
  refine ⟨_, by rw [Dec.val_bind, Dec.val_pure], ?_⟩
  have hread : SszType.read (publicKeysType .flat) s.bytes =
      (List.range (s.bytes.length / maxBytesPerPublicKey)).map fun i =>
        SszType.read (.bytes maxBytesPerPublicKey)
          (window s.bytes (i * maxBytesPerPublicKey) maxBytesPerPublicKey) :=
    read_list_fixed hfixed _ _
  rw [Dec.val_forRange, keyBytes, hread, List.map_map, List.map_map, ByteSpan.length_bytes]
  apply List.map_congr_left
  intro i hi
  obtain ⟨hmul, hle⟩ := item_offset w hs (List.mem_range.mp hi)
  rw [Function.comp_apply, Function.comp_apply, hmul, ByteSpan.val_slice, ByteSpan.bytes_drop hle,
    read_bytes, toList_padTo]
  exact (takeD_self (length_window_of_le (by rw [ByteSpan.length_bytes]; exact hle))).symm

/-- The fork number in the encoding of a legacy input is that of its chain config. -/
theorem dictatedShape_eq_shapeOf (h : InputHead b)
    (hcan : Canonical (chainConfigType schema) (configSection b)) :
    dictatedShape schema b =
      shapeOf schema (SszType.read (chainConfigType schema) (configSection b)) := by
  cases schema with
  | amsterdam01 => rfl
  | legacy0001 =>
    have hacc := acceptsCanonical .bits32 .legacy0001 (configSpan_lt (b := b) .bits32)
    have hvalid : (configOf .bits32 .legacy0001 b).valid = true :=
      hacc.valid.mpr (by rw [(sections_of_head h).2.2.1.1]; exact hcan)
    have hval := hacc.val hvalid
    rw [(sections_of_head h).2.2.1.1] at hval
    rw [dictatedShape, ← fork_configOf .bits32 h hvalid]
    exact congrArg (shapeOf .legacy0001) hval

/-- What an encoded input looks like to the decoders. -/
theorem laid_of_serialize {v : (inputType schema shape .flat).Val}
    (hlen : (serialize (inputType schema shape .flat) v).length < 2 ^ 32)
    (hb : serialize (inputType schema shape .flat) v = b) :
    InputHead b ∧
      Laid (newPayloadRequestType shape schema.builderRequests schema.balLimit)
        (requestSection b) ∧
      Laid witnessType (witnessSection b) ∧ Laid (chainConfigType schema) (configSection b) ∧
      Laid (publicKeysType .flat) (keysSection b) ∧
      SszType.read (newPayloadRequestType shape schema.builderRequests schema.balLimit)
        (requestSection b) = v.1 ∧
      SszType.read witnessType (witnessSection b) = v.2.1 ∧
      SszType.read (chainConfigType schema) (configSection b) = v.2.2.1 ∧
      SszType.read (publicKeysType .flat) (keysSection b) = v.2.2.2.1 := by
  have hlaid := laid_serialize (inputType_proper schema shape .flat) v hlen
  have hread := read_serialize (inputType_proper schema shape .flat) v hlen
  rw [hb] at hlen hlaid hread
  obtain ⟨h, lreq, lwit, lcc, lkeys⟩ := (laid_input hlen).mp hlaid
  rw [read_input hlen] at hread
  exact ⟨h, lreq, lwit, lcc, lkeys, congrArg (fun u => u.1) hread,
    congrArg (fun u => u.2.1) hread, congrArg (fun u => u.2.2.1) hread,
    congrArg (fun u => u.2.2.2.1) hread⟩

/-- An encoded input is decoded to what is read off its sections. -/
theorem decode_of_serialize {v : (inputType schema shape .flat).Val}
    (hshape : shape = shapeOf schema v.2.2.1) (hsupported : shape ≠ .unsupported)
    (hfits : Fits (chainConfigType schema) v.2.2.1)
    (hlen : (serialize (inputType schema shape .flat) v).length < 2 ^ 32)
    (hb : serialize (inputType schema shape .flat) v = b) :
    dictatedShape schema b = shape ∧
      ∃ si, (decodeStatelessInputOf w schema (.ofBytes b)).outcome = .ok si ∧
        HoldsSections w schema b si := by
  obtain ⟨h, lreq, lwit, lcc, lkeys, -, -, ecc, -⟩ := laid_of_serialize hlen hb
  have hcan : Canonical (chainConfigType schema) (configSection b) := ⟨lcc, by rw [ecc]; exact hfits⟩
  have hdict : dictatedShape schema b = shape :=
    (dictatedShape_eq_shapeOf h hcan).trans ((congrArg (shapeOf schema) ecc).trans hshape.symm)
  refine ⟨hdict, ?_⟩
  subst hdict
  have hkeys : (decodeKeys w schema (keysSpan b)).val.isSome = true := by
    cases schema with
    | legacy0001 => rw [decodeKeys, Dec.val_bind, Dec.val_pure, Option.isSome_some]
    | amsterdam01 =>
      rw [← bytes_keysSpan h] at lkeys
      obtain ⟨ks, hks, -⟩ := decodeKeys_amsterdam w (sub32_lt _ _) lkeys
      rw [hks, Option.isSome_some]
  exact laidInput_decode w h ⟨hcan, hsupported⟩ lreq lwit hkeys

/-- **Decoding undoes encoding.**  The encoding of an input whose chain config
selects a payload shape, and whose offsets do not overflow, is decoded to that
input. -/
theorem decodeStatelessInput_serialize (schema : InputSchema) {shape : PayloadShape}
    (v : (inputType schema shape .flat).Val) (hshape : shape = shapeOf schema v.2.2.1)
    (hsupported : shape ≠ .unsupported) (hfits : Fits (chainConfigType schema) v.2.2.1)
    (hlen : (serialize (inputType schema shape .flat) v).length < 2 ^ 32) :
    ∃ si, (decodeStatelessInputOf w schema
        (.ofBytes (serialize (inputType schema shape .flat) v))).outcome = .ok si ∧
      si.valid = true ∧ HoldsValue schema shape si v := by
  obtain ⟨h, -, -, -, lkeys, ereq, ewit, ecc, ekeys⟩ := laid_of_serialize hlen rfl
  obtain ⟨hdict, si, hok, hsi⟩ := decode_of_serialize w hshape hsupported hfits hlen rfl
  generalize serialize (inputType schema shape .flat) v = b at *
  subst hdict
  refine ⟨si, hok, hsi.valid, hsi.newPayloadRequest.trans ereq, hsi.witness.trans ewit,
    hsi.chainConfig.trans ecc, ?_, hsi.raw⟩
  intro hs
  subst hs
  have hkeys := hsi.publicKeys
  rw [← bytes_keysSpan h] at lkeys ekeys
  obtain ⟨ks, hks, hmap⟩ := decodeKeys_amsterdam w (sub32_lt _ _) lkeys
  rw [hks] at hkeys
  rw [← Option.some.inj hkeys]
  exact hmap.trans (congrArg (keyBytes .flat) ekeys)

/-! ### Legacy public keys -/

/-- Read as a table, a section of `k` keys cannot give `k` items of 65 bytes:
the items would cover the table too. -/
theorem count_eq_zero_of_table {s : ByteSpan} {k : ℕ} (hs : s.len < 2 ^ 32)
    (hlen : s.len = k * 65) (hcount : (decodeBytelistList w s).val.length = k)
    (hitems : ∀ x ∈ (decodeBytelistList w s).val, x.len = 65) : k = 0 := by
  rcases Nat.eq_zero_or_pos k with hk | hk
  · exact hk
  exfalso
  rcases Decidable.em (Followed s.bytes) with hf | hf
  · rw [val_decodeBytelistList w hs hf] at hcount hitems
    rw [List.length_map, List.length_range] at hcount
    rw [hcount] at hitems
    have hfirst : offsetAt s.bytes k 0 = 4 * k := by
      have hmod := hf.2.1
      rw [offsetAt, if_pos hk, Nat.mul_zero, ← hcount, itemCount]
      omega
    have hlast : offsetAt s.bytes k k = k * 65 := by
      rw [offsetAt, if_neg (Nat.lt_irrefl k), ByteSpan.length_bytes, hlen]
    have hstep : ∀ i, i < k →
        offsetAt s.bytes k (i + 1) % 2 ^ 32 = (offsetAt s.bytes k i + 65) % 2 ^ 32 := by
      intro i hi
      have hitem := hitems _ (List.mem_map_of_mem (List.mem_range.mpr hi))
      have hlo := offsetAt_lt hs k i
      rw [ByteSpan.len_cut, sub32] at hitem
      omega
    -- Modulo the word size, the offsets advance by 65 each.
    have hrun : ∀ i, i ≤ k → offsetAt s.bytes k i % 2 ^ 32 = (4 * k + i * 65) % 2 ^ 32 := by
      intro i
      induction i with
      | zero => intro _; rw [hfirst, Nat.zero_mul, Nat.add_zero]
      | succ i ih =>
        intro hi
        have h₁ := hstep i hi
        have h₂ := ih (Nat.le_of_succ_le hi)
        omega
    have hend := hrun k le_rfl
    rw [hlast] at hend
    omega
  · have h4 : 4 ≤ s.len := by omega
    rw [decodeBytelistList_of_not_followed w h4 hf, Dec.val_bind, Dec.val_pure,
      List.length_nil] at hcount
    omega

/-- The keys decoded from a legacy input are the keys `ks`, and the ones decoded
from any Amsterdam input with these keys. -/
def KeysSurvive (ks : (publicKeysType .flat).Val) (si : SszStatelessInput) : Prop :=
  si.publicKeys.map ByteSpan.bytes = keyBytes .flat ks ∧
    ∀ (v : (inputType .amsterdam01 .gloas .flat).Val) (si' : SszStatelessInput),
      v.2.2.2.1 = ks →
      (serialize (inputType .amsterdam01 .gloas .flat) v).length < 2 ^ 32 →
      (decodeStatelessInputOf w .amsterdam01
        (.ofBytes (serialize (inputType .amsterdam01 .gloas .flat) v))).outcome = .ok si' →
      si'.valid = true → si'.publicKeys.map ByteSpan.bytes = si.publicKeys.map ByteSpan.bytes

/-- The keys of an accepted Amsterdam input are those that were encoded. -/
theorem publicKeys_amsterdam {v : (inputType .amsterdam01 shape .flat).Val}
    (hlen : (serialize (inputType .amsterdam01 shape .flat) v).length < 2 ^ 32)
    {si : SszStatelessInput}
    (hok : (decodeStatelessInputOf w .amsterdam01
      (.ofBytes (serialize (inputType .amsterdam01 shape .flat) v))).outcome = .ok si)
    (hvalid : si.valid = true) :
    si.publicKeys.map ByteSpan.bytes = keyBytes .flat v.2.2.2.1 := by
  obtain ⟨h, -, -, -, lkeys, -, -, -, ekeys⟩ := laid_of_serialize hlen rfl
  obtain ⟨-, -, -, -, -, -, hkeys, -⟩ := input_of_valid w .amsterdam01 hok hvalid
  rw [← bytes_keysSpan h] at lkeys ekeys
  obtain ⟨ks, hks, hmap⟩ := decodeKeys_amsterdam w (sub32_lt _ _) lkeys
  rw [hks] at hkeys
  rw [← Option.some.inj hkeys]
  exact hmap.trans (congrArg (keyBytes .flat) ekeys)

/-- Encoded keys take 65 bytes each. -/
theorem length_serialize_keys (ks : (publicKeysType .flat).Val) :
    (serialize (publicKeysType .flat) ks).length = (keyBytes .flat ks).length * 65 := by
  have hfixed : (SszType.bytes maxBytesPerPublicKey).isFixed = true := rfl
  have hflat := (window_flatten_fixed (k := 65)
    (List.map (serialize (.bytes maxBytesPerPublicKey)) ks) fun c hc => by
      obtain ⟨key, -, rfl⟩ := List.mem_map.mp hc
      exact length_serialize hfixed key).1
  have hser : serialize (publicKeysType .flat) ks =
      (List.map (serialize (.bytes maxBytesPerPublicKey)) ks).flatten :=
    serialize_list_fixed hfixed _ ks
  rw [hser, hflat, List.length_map, keyBytes, List.length_map]

/-- **Legacy public keys survive the wire format exactly if there are none.**
The legacy decoder takes the concatenated keys for a table of offsets. -/
theorem publicKeys_legacy {shape : PayloadShape} (v : (inputType .legacy0001 shape .flat).Val)
    (hshape : shape = shapeOf .legacy0001 v.2.2.1) (hsupported : shape ≠ .unsupported)
    (hfits : Fits (chainConfigType .legacy0001) v.2.2.1)
    (hlen : (serialize (inputType .legacy0001 shape .flat) v).length < 2 ^ 32) :
    ∃ si, (decodeStatelessInputOf w .legacy0001
        (.ofBytes (serialize (inputType .legacy0001 shape .flat) v))).outcome = .ok si ∧
      si.valid = true ∧
      (KeysSurvive w v.2.2.2.1 si ↔ List.length (keyBytes .flat v.2.2.2.1) = 0) := by
  obtain ⟨h, -, -, -, lkeys, -, -, -, ekeys⟩ := laid_of_serialize hlen rfl
  obtain ⟨-, si, hok, hsi⟩ := decode_of_serialize w hshape hsupported hfits hlen rfl
  refine ⟨si, hok, hsi.valid, ?_⟩
  generalize serialize (inputType .legacy0001 shape .flat) v = b at *
  generalize hks : v.2.2.2.1 = ks at *
  have hsection : (keysSpan b).len = (keyBytes .flat ks).length * 65 := by
    rw [← ByteSpan.length_bytes, bytes_keysSpan h, ← serialize_read lkeys, ekeys]
    exact length_serialize_keys ks
  have hval : (decodeBytelistList w (keysSpan b)).val = si.publicKeys := by
    have hkeys := hsi.publicKeys
    rw [decodeKeys, Dec.val_bind, Dec.val_pure] at hkeys
    exact Option.some.inj hkeys
  constructor
  · rintro ⟨hsame, -⟩
    -- Keys that survive are as many items of 65 bytes, which no table gives.
    refine count_eq_zero_of_table w (sub32_lt _ _) hsection ?_ ?_
    · rw [hval, ← hsame, List.length_map]
    · intro x hx
      rw [hval] at hx
      have hmem : x.bytes ∈ keyBytes .flat ks := hsame ▸ List.mem_map_of_mem hx
      obtain ⟨key, -, hkey⟩ := List.mem_map.mp hmem
      rw [← ByteSpan.length_bytes, ← hkey]
      exact List.Vector.toList_length key
  · intro hzero
    -- Without keys the section is too short for a table.
    have hnone : keyBytes .flat ks = [] := List.eq_nil_of_length_eq_zero hzero
    have hshort : (keysSpan b).len < 4 := by
      rw [hsection, hzero]
      norm_num
    rw [decodeBytelistList_of_short w hshort, Dec.val_pure] at hval
    refine ⟨by rw [← hval, hnone]; rfl, ?_⟩
    intro v' si' hv' hlen' hok' hvalid'
    rw [publicKeys_amsterdam w hlen' hok' hvalid', hv', hnone, ← hval]
    rfl

/-- A legacy Prague input with an empty payload and witness, and the given keys. -/
def emptyInput (ks : List (ByteVec 65)) : (inputType .legacy0001 .electraFulu .flat).Val :=
  (((zeroVec 32, zeroVec 20, zeroVec 32, zeroVec 32, zeroVec 256, zeroVec 32, (0 : BitVec 64),
      (0 : BitVec 64), (0 : BitVec 64), (0 : BitVec 64), [], (0 : BitVec 256), zeroVec 32, [], [],
      (0 : BitVec 64), (0 : BitVec 64), ()), [], zeroVec 32, ([], [], [], ()), ()),
    ([], [], [], ()), ((1 : BitVec 64), ((17 : BitVec 64), ([], [], ()), [], ()), ()), ks, ())

theorem fits_emptyInput (ks : List (ByteVec 65)) :
    Fits (chainConfigType .legacy0001) (emptyInput ks).2.2.1 := by
  simp [emptyInput, Fits, FitsAll]

/-! ### Inputs with items -/

/-- A parent header for inputs with items: the hash of its own parent, and its state root. -/
def sampleParent : Bytes := List.replicate 32 3 ++ List.replicate 32 5

/-- A payload of block 1, on top of that parent: two transactions, one of them behind a
length byte, and a withdrawal. -/
def samplePayload {balLimit : ℕ} {shape : PayloadShape} (blockHash : Bytes32)
    (transactions : List Bytes) (tail : Vals (payloadTail balLimit shape)) :
    (executionPayloadType shape balLimit).Val :=
  (padTo 32 (sampleParent ++ [1]).reverse, padTo 20 [4], padTo 32 (List.replicate 32 5),
    padTo 32 [6], padTo 256 [7], padTo 32 [8], (1 : BitVec 64), (30000000 : BitVec 64),
    (21000 : BitVec 64), (12 : BitVec 64), [9, 9], (7 : BitVec 256), blockHash, transactions,
    [((1 : BitVec 64), (2 : BitVec 64), padTo 20 [3], (4 : BitVec 64), ())], (0 : BitVec 64),
    (1 : BitVec 64), tail)

/-- Execution requests: a deposit, no withdrawal, and two consolidations. -/
def sampleRequests {builderRequests : Bool} (tail : Vals (builderRequestsTail builderRequests)) :
    (executionRequestsType builderRequests).Val :=
  ([(padTo 48 [1], padTo 32 [2], (3 : BitVec 64), padTo 96 [4], (5 : BitVec 64), ())], [],
    [(padTo 20 [6], padTo 48 [7], padTo 48 [8], ()), (padTo 20 [9], padTo 48 [7], padTo 48 [8], ())],
    tail)

/-- Two state nodes, a code and the parent header. -/
def sampleWitness : witnessType.Val := ([[1, 2], [3]], [[4]], [sampleParent], ())

/-- An Amsterdam input with items in its lists, and two public keys. -/
def amsterdamBlock : (inputType .amsterdam01 .gloas .flat).Val :=
  ((samplePayload (padTo 32 [10]) [[2, 3], [0x81, 4]] ([5, 6, 7], (11 : BitVec 64), ()),
      [padTo 32 [1], padTo 32 [2]], padTo 32 [12],
      sampleRequests ([], [(padTo 20 [1], padTo 48 [2], ())], ()), ()),
    sampleWitness, ((1 : BitVec 64), (([(1 : BitVec 64)], [(12 : BitVec 64)], ()), ()), ()),
    [padTo 65 [1], padTo 65 [2]], ())

/-- A legacy input with items in its lists, and the given keys. -/
def legacyBlock (blockHash : Bytes32) (transactions : List Bytes) (ks : List (ByteVec 65)) :
    (inputType .legacy0001 .electraFulu .flat).Val :=
  ((samplePayload blockHash transactions (), [blockHash], padTo 32 [12], sampleRequests (), ()),
    sampleWitness, ((1 : BitVec 64), ((17 : BitVec 64), ([(0 : BitVec 64)], [], ()),
      [((6 : BitVec 64), (9 : BitVec 64), (5007716 : BitVec 64), ())], ()), ()), ks, ())

theorem fits_amsterdamBlock : Fits (chainConfigType .amsterdam01) amsterdamBlock.2.2.1 := by
  simp [amsterdamBlock, Fits, FitsAll]

theorem fits_legacyBlock (blockHash : Bytes32) (transactions : List Bytes)
    (ks : List (ByteVec 65)) :
    Fits (chainConfigType .legacy0001) (legacyBlock blockHash transactions ks).2.2.1 := by
  simp [legacyBlock, Fits, FitsAll]

theorem length_amsterdamBlock :
    (serialize (inputType .amsterdam01 .gloas .flat) amsterdamBlock).length < 2 ^ 29 := by
  decide +kernel

theorem decodeStatelessInput_serialize_amsterdamBlock :
    ∃ si, (decodeStatelessInputOf .bits32 .amsterdam01 (.ofBytes
        (serialize (inputType .amsterdam01 .gloas .flat) amsterdamBlock))).outcome = .ok si ∧
      si.valid = true ∧ HoldsValue .amsterdam01 .gloas si amsterdamBlock :=
  decodeStatelessInput_serialize .bits32 .amsterdam01 amsterdamBlock rfl PayloadShape.noConfusion
    fits_amsterdamBlock (lt_of_lt_of_le length_amsterdamBlock (by norm_num))

/-- Without keys, and with one. -/
theorem publicKeys_legacy_legacyBlock :
    (∃ si, (decodeStatelessInputOf .bits32 .legacy0001 (.ofBytes (serialize
        (inputType .legacy0001 .electraFulu .flat) (legacyBlock (padTo 32 [1]) [[2]] [])))).outcome =
          .ok si ∧
      si.valid = true ∧ (KeysSurvive .bits32 (legacyBlock (padTo 32 [1]) [[2]] []).2.2.2.1 si ↔
        List.length (keyBytes .flat (legacyBlock (padTo 32 [1]) [[2]] []).2.2.2.1) = 0)) ∧
    ∃ si, (decodeStatelessInputOf .bits32 .legacy0001 (.ofBytes (serialize
        (inputType .legacy0001 .electraFulu .flat) (emptyInput [zeroVec 65])))).outcome = .ok si ∧
      si.valid = true ∧ (KeysSurvive .bits32 (emptyInput [zeroVec 65]).2.2.2.1 si ↔
        List.length (keyBytes .flat (emptyInput [zeroVec 65]).2.2.2.1) = 0) :=
  ⟨publicKeys_legacy .bits32 (legacyBlock (padTo 32 [1]) [[2]] []) rfl PayloadShape.noConfusion
      (fits_legacyBlock _ _ _) (by decide +kernel),
    publicKeys_legacy .bits32 (emptyInput [zeroVec 65]) rfl PayloadShape.noConfusion
      (fits_emptyInput _) (by decide +kernel)⟩

/-- A key of zeros is taken for an empty table. -/
theorem publicKeys_legacy_counterexample :
    ¬∀ (w : WordSize) (shape : PayloadShape) (v : (inputType .legacy0001 shape .flat).Val),
      shape = shapeOf .legacy0001 v.2.2.1 → shape ≠ .unsupported →
      Fits (chainConfigType .legacy0001) v.2.2.1 →
      (serialize (inputType .legacy0001 shape .flat) v).length < 2 ^ 32 →
      ∃ si, (decodeStatelessInputOf w .legacy0001
          (.ofBytes (serialize (inputType .legacy0001 shape .flat) v))).outcome = .ok si ∧
        si.valid = true ∧ KeysSurvive w v.2.2.2.1 si := by
  intro h
  obtain ⟨si, hok, -, hsame, -⟩ := h .bits32 .electraFulu (emptyInput [zeroVec 65]) rfl
    PayloadShape.noConfusion (fits_emptyInput _) (by decide +kernel)
  obtain ⟨-, rfl⟩ := Dec.outcome_eq_ok.mp hok
  revert hsame
  decide +kernel

end StatelessGuest
