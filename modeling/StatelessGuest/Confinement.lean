import StatelessGuest.Input

/-!
# Decoding inside the containers

The decoders below the input follow offsets without checking them.  So they stay
inside their containers exactly when the offset tables they come to are in
order, and then they stay inside the input buffer too.

## Main definitions

* `ConfigAccepted`, `PayloadFound` — the checks that let the decoders go on, in
  terms of the bytes of the input.
* `InputOrdered` — the tables that are reached are in order.

## Main results

* `decodeStatelessInput_confined` — **decoding stays inside its containers
  exactly when the tables it reaches are in order.**
-/

namespace StatelessGuest

open Ssz SszType

variable (w : WordSize) (schema : InputSchema) (b : Bytes)

/-! ### The checks, on the bytes -/

/-- The payload shape dictated by the schema or by the fork number. -/
def dictatedShape : PayloadShape :=
  match schema with
  | .legacy0001 => payloadShapeForFork (forkNumber b)
  | .amsterdam01 => .gloas

/-- The request section. -/
def requestSection : Bytes := window b (u32At b 0) (u32At b 4 - u32At b 0)

/-- The witness section. -/
def witnessSection : Bytes := window b (u32At b 4) (u32At b 8 - u32At b 4)

/-- The chain config section. -/
def configSection : Bytes := window b (u32At b 8) (u32At b 12 - u32At b 8)

/-- The public key section. -/
def keysSection : Bytes := window b (u32At b 12) (b.length % 2 ^ 32 - u32At b 12)

/-- The chain config is canonical, and its fork is one of this guest's. -/
def ConfigAccepted : Prop :=
  Canonical (chainConfigType schema) (configSection b) ∧ dictatedShape schema b ≠ .unsupported

/-- The payload between its two offsets is long enough, or the request is skipped
altogether. -/
def PayloadFound : Prop :=
  (requestSection b).length < nprFixed ∨ payloadFixed (dictatedShape schema b) ≤
    sub32 (u32At (requestSection b) 4) (u32At (requestSection b) 0)

/-- The request type of an input. -/
abbrev inputRequestType : SszType :=
  newPayloadRequestType (dictatedShape schema b) schema.builderRequests schema.balLimit

/-- The tables that are reached are in order. -/
def InputOrdered : Prop :=
  InputHead b → ConfigAccepted schema b →
    Ordered (inputRequestType schema b) (requestSection b) ∧
      (PayloadFound schema b → Ordered witnessType (witnessSection b) ∧
        (schema = .legacy0001 → Ordered (publicKeysType .table) (keysSection b)))

variable {b}

theorem inputShape_configOf (h : InputHead b) (hvalid : (configOf w schema b).valid = true) :
    inputShape schema (configOf w schema b) = dictatedShape schema b := by
  cases schema with
  | legacy0001 => rw [inputShape, dictatedShape, fork_configOf w h hvalid]
  | amsterdam01 => rfl

theorem configSpan_lt : (configSpan b).len < w.modulus :=
  lt_of_lt_of_le (sub32_lt _ _) w.le_modulus

theorem configOk_iff (h : InputHead b) : ConfigOk w schema b ↔ ConfigAccepted schema b := by
  have hacc := (acceptsCanonical w schema (configSpan_lt (b := b) w)).valid
  rw [(sections_of_head h).2.2.1.1] at hacc
  constructor
  · rintro ⟨hvalid, hshape⟩
    rw [inputShape_configOf w schema h hvalid] at hshape
    exact ⟨hacc.mp hvalid, hshape⟩
  · rintro ⟨hcan, hshape⟩
    have hvalid : (configOf w schema b).valid = true := hacc.mpr hcan
    exact ⟨hvalid, by rwa [inputShape_configOf w schema h hvalid]⟩

theorem decodeRequest_eq (h : InputHead b) (hc : ConfigOk w schema b) :
    decodeRequest w schema b = decodeNewPayloadRequest w (requestSpan b) (dictatedShape schema b)
      schema.builderRequests schema.balLimit := by
  rw [decodeRequest, inputShape_configOf w schema h hc.1]

theorem bytes_requestSpan (h : InputHead b) : (requestSpan b).bytes = requestSection b := by
  rw [(sections_of_head h).1.1, requestSection, h.2.1]

theorem requestOk_iff (h : InputHead b) (hc : ConfigOk w schema b) :
    RequestOk w schema b ↔ PayloadFound schema b := by
  have hshape : dictatedShape schema b ≠ .unsupported :=
    ((configOk_iff w schema h).mp hc).2
  have hlen : (requestSection b).length = (requestSpan b).len := by
    rw [← bytes_requestSpan h, ByteSpan.length_bytes]
  rw [RequestOk, decodeRequest_eq w schema h hc, PayloadFound, hlen, decodeNewPayloadRequest]
  rcases Decidable.em ((requestSpan b).len < nprFixed) with hshort | hlong
  · rw [if_pos hshort, Dec.val_pure]
    exact ⟨fun _ => Or.inl hshort, fun _ => PayloadShape.noConfusion⟩
  · have h44 : 44 ≤ (requestSpan b).len := Nat.not_lt.mp hlong
    rw [if_neg hlong]
    simp only [Dec.val_bind, Dec.val_pure, shape_decodeExecutionPayload, val_between,
      ByteSpan.val_readU32le, ByteSpan.len_cut, hlong, false_or]
    rw [ByteSpan.u32At_ptr (by omega), ByteSpan.u32At_ptr (by omega), bytes_requestSpan h]
    split
    · rename_i hlt
      exact ⟨fun hne => absurd rfl hne, fun hle => absurd hle (Nat.not_le.mpr hlt)⟩
    · rename_i hle
      exact ⟨fun _ => Nat.not_lt.mp hle, fun _ => hshape⟩

/-! ### The sections -/

variable {schema}

theorem bytes_witnessSpan (h : InputHead b) : (witnessSpan b).bytes = witnessSection b :=
  (sections_of_head h).2.1.1

theorem bytes_keysSpan (h : InputHead b) : (keysSpan b).bytes = keysSection b :=
  (sections_of_head h).2.2.2.1

theorem decodesSection_request (hshape : dictatedShape schema b ≠ .unsupported) :
    DecodesSection (inputRequestType schema b)
      (fun r => r.toVal (dictatedShape schema b) schema.builderRequests schema.balLimit)
      (fun s => decodeNewPayloadRequest w s (dictatedShape schema b) schema.builderRequests
        schema.balLimit) :=
  decodesSection_newPayloadRequest w hshape _ _

/-- The request decoder stays inside its section when the section is ordered. -/
theorem confined_decodeRequest (h : InputHead b) (hc : ConfigOk w schema b) :
    (decodeRequest w schema b).Confined ↔
      Ordered (inputRequestType schema b) (requestSection b) := by
  rw [decodeRequest_eq w schema h hc, ← bytes_requestSpan h]
  exact (decodesSection_request w ((configOk_iff w schema h).mp hc).2).confined _ (sub32_lt _ _)

theorem confined_witness (h : InputHead b) :
    (decodeWitness w (witnessSpan b)).Confined ↔ Ordered witnessType (witnessSection b) := by
  rw [← bytes_witnessSpan h]
  exact (decodesSection_witness w).confined _ (sub32_lt _ _)

/-- Amsterdam keys are always read inside their section. -/
theorem confined_keys (h : InputHead b) : (decodeKeys w schema (keysSpan b)).Confined ↔
    (schema = .legacy0001 → Ordered (publicKeysType .table) (keysSection b)) := by
  cases schema with
  | legacy0001 =>
    have hkeys := (decodesSection_bytelistList w maxPublicKeys maxBytesPerPublicKey).confined
      (keysSpan b) (sub32_lt _ _)
    rw [bytes_keysSpan h] at hkeys
    simp only [decodeKeys, Dec.Confined, Dec.every_bind, Dec.every_pure, and_true, forall_const]
    exact hkeys
  | amsterdam01 =>
    refine ⟨fun _ hschema => InputSchema.noConfusion hschema, ?_⟩
    intro _
    have hlt : (keysSpan b).len < 2 ^ 32 := sub32_lt _ _
    rw [decodeKeys]
    split
    · exact Dec.every_pure _
    · simp only [Dec.Confined, Dec.every_bind, Dec.every_pure, and_true, Dec.every_forRange,
        ByteSpan.every_slice]
      intro i hi
      obtain ⟨hmul, hle⟩ := item_offset w hlt hi
      rw [hmul]
      exact hle

/-- What is read of ordered sections lies inside the input. -/
theorem returns_of_ordered (schema : InputSchema) (h : InputHead b) :
    (ConfigOk w schema b → Ordered (inputRequestType schema b) (requestSection b) →
      (decodeRequest w schema b).Returns) ∧
    (Ordered witnessType (witnessSection b) → (decodeWitness w (witnessSpan b)).Returns) ∧
    (decodeKeys w schema (keysSpan b)).Returns := by
  obtain ⟨⟨-, -, hreq⟩, ⟨-, -, hwit⟩, -, ⟨-, -, hkeys⟩⟩ := sections_of_head h
  refine ⟨?_, ?_, ?_⟩
  · intro hc ho
    rw [← bytes_requestSpan h] at ho
    rw [decodeRequest_eq w schema h hc]
    exact ((decodesSection_request w ((configOk_iff w schema h).mp hc).2).returns _
      (sub32_lt _ _)).mpr (backed_of_ordered hreq (sub32_lt _ _) ho)
  · intro ho
    rw [← bytes_witnessSpan h] at ho
    exact ((decodesSection_witness w).returns _ (sub32_lt _ _)).mpr
      (backed_of_ordered hwit (sub32_lt _ _) ho)
  · cases schema with
    | legacy0001 =>
      -- The offsets are read inside the section, and the items are not read at all.
      have hin : (keysSpan b).len ≤ (keysSpan b).ptr.length := hkeys
      have hback : Backed (publicKeysType .table) (keysSpan b) := by
        rw [publicKeysType, Backed, if_neg (by simp [isFixed])]
        intro h4
        refine ⟨h4.trans hin, fun hf => ⟨?_, fun _ _ => by rw [Backed]; trivial⟩⟩
        exact (by simpa using hf.2.2 : _ ≤ (keysSpan b).len).trans hin
      have hret := ((decodesSection_bytelistList w maxPublicKeys maxBytesPerPublicKey).returns
        (keysSpan b) (sub32_lt _ _)).mpr hback
      rw [decodeKeys, Dec.Returns, Dec.every_bind]
      exact ⟨hret, Dec.every_pure _⟩
    | amsterdam01 =>
      rw [decodeKeys]
      split
      · exact Dec.every_pure _
      · simp only [Dec.Returns, Dec.every_bind, Dec.every_pure, and_true, Dec.every_forRange,
          ByteSpan.every_slice]
        intro _ _
        exact trivial

/-! ### The input -/

/-- An input with a bad head is read at its offsets only. -/
theorem every_decodeStatelessInputOf_of_not_head {P : Access → Prop} (h : ¬InputHead b)
    (hP : ∀ k, k + 4 ≤ b.length → P (.read b.length b.length k 4)) :
    (decodeStatelessInputOf w schema (.ofBytes b)).Every P := by
  rw [inputHead_iff, not_and, not_not] at h
  rcases Decidable.em (b.length < statelessInputFixed) with hlen | hlen
  · cases schema with
    | legacy0001 =>
      rw [decodeStatelessInputOf, decodeStatelessInput, ByteSpan.len_ofBytes, if_pos hlen]
      exact Dec.every_pure _
    | amsterdam01 =>
      rw [decodeStatelessInputOf, decodeStatelessInputAmsterdam01, ByteSpan.len_ofBytes,
        if_pos hlen]
      exact Dec.every_pure _
  · -- The four offsets are read, and nothing else.
    have h16 : 16 ≤ b.length := Nat.not_lt.mp hlen
    cases schema with
    | legacy0001 =>
      rw [decodeStatelessInputOf, decodeStatelessInput, ByteSpan.len_ofBytes, if_neg hlen]
      simp only [Dec.every_bind, ByteSpan.every_readU32le, ByteSpan.val_readU32le,
        ByteSpan.ptr_ofBytes, ByteSpan.len_ofBytes]
      rw [if_pos (h hlen)]
      exact ⟨hP 0 (by omega), hP 4 (by omega), hP 8 (by omega), hP 12 (by omega),
        Dec.every_pure _⟩
    | amsterdam01 =>
      rw [decodeStatelessInputOf, decodeStatelessInputAmsterdam01, ByteSpan.len_ofBytes,
        if_neg hlen]
      simp only [Dec.every_bind, ByteSpan.every_readU32le, ByteSpan.val_readU32le,
        ByteSpan.ptr_ofBytes, ByteSpan.len_ofBytes]
      rw [if_pos (h hlen)]
      exact ⟨hP 0 (by omega), hP 4 (by omega), hP 8 (by omega), hP 12 (by omega),
        Dec.every_pure _⟩

/-- The four sections are cut out inside the input. -/
theorem confined_sections (h : InputHead b) :
    ((ByteSpan.ofBytes b).between (u32At b 0) (u32At b 4)).Confined ∧
      ((ByteSpan.ofBytes b).between (u32At b 4) (u32At b 8)).Confined ∧
      ((ByteSpan.ofBytes b).between (u32At b 8) (u32At b 12)).Confined ∧
      ((ByteSpan.ofBytes b).between (u32At b 12) (b.length % 2 ^ 32)).Confined := by
  obtain ⟨-, h₁, h₂, h₃, h₄, h₅⟩ := h
  have htotal : b.length % 2 ^ 32 ≤ b.length := Nat.mod_le _ _
  have hlt : b.length % 2 ^ 32 < 2 ^ 32 := Nat.mod_lt _ (by norm_num)
  rw [confined_between _ _ (u32At_lt b 4), confined_between _ _ (u32At_lt b 8),
    confined_between _ _ (u32At_lt b 12), confined_between _ _ hlt, ByteSpan.len_ofBytes]
  omega

theorem confined_decodeStatelessInputOf (h : InputHead b) :
    (decodeStatelessInputOf w schema (.ofBytes b)).Confined ↔ (ConfigOk w schema b →
      (decodeRequest w schema b).Confined ∧ (RequestOk w schema b →
        (decodeWitness w (witnessSpan b)).Confined ∧
          (decodeKeys w schema (keysSpan b)).Confined)) := by
  obtain ⟨c₁, c₂, c₃, c₄⟩ := confined_sections h
  have h16 : 16 ≤ b.length := h.1
  have hcc : (decodeChainConfigOf w schema (configSpan b)).Confined :=
    (acceptsCanonical w schema (configSpan_lt w)).confined
  rw [Dec.Confined, every_decodeStatelessInputOf w schema h]
  constructor
  · rintro ⟨-, -, hrest⟩ hc
    obtain ⟨⟨-, hr⟩, hrest⟩ := hrest hc
    exact ⟨hr, fun hok => ⟨(hrest hok).1.2, (hrest hok).2.2⟩⟩
  · intro hrest
    refine ⟨?_, ⟨c₃, hcc⟩, fun hc => ⟨⟨c₁, (hrest hc).1⟩, ?_⟩⟩
    · simp only [Access.Confined]
      omega
    · intro hr
      exact ⟨⟨c₂, ((hrest hc).2 hr).1⟩, c₄, ((hrest hc).2 hr).2⟩

theorem returns_decodeStatelessInputOf (h : InputHead b) :
    (decodeStatelessInputOf w schema (.ofBytes b)).Returns ↔ (ConfigOk w schema b →
      (decodeRequest w schema b).Returns ∧ (RequestOk w schema b →
        (decodeWitness w (witnessSpan b)).Returns ∧
          (decodeKeys w schema (keysSpan b)).Returns)) := by
  have h16 : 16 ≤ b.length := h.1
  have hcc : (decodeChainConfigOf w schema (configSpan b)).Returns :=
    (acceptsCanonical w schema (configSpan_lt w)).returns (sections_of_head h).2.2.1.2.2
  rw [Dec.Returns, every_decodeStatelessInputOf w schema h]
  constructor
  · rintro ⟨-, -, hrest⟩ hc
    obtain ⟨⟨-, hr⟩, hrest⟩ := hrest hc
    exact ⟨hr, fun hok => ⟨(hrest hok).1.2, (hrest hok).2.2⟩⟩
  · intro hrest
    refine ⟨?_, ⟨returns_between _ _ _, hcc⟩, fun hc =>
      ⟨⟨returns_between _ _ _, (hrest hc).1⟩, ?_⟩⟩
    · simp only [Access.Inside]
      omega
    · intro hr
      exact ⟨⟨returns_between _ _ _, ((hrest hc).2 hr).1⟩, returns_between _ _ _,
        ((hrest hc).2 hr).2⟩

variable (schema b)

/-- **Decoding stays inside its containers, and so inside the input, exactly
when the offset tables it reaches are in order.**  These are the table of the
request and those below it, and, if the payload is long enough, those of the
witness and of the legacy public keys. -/
theorem decodeStatelessInput_confined :
    ((decodeStatelessInputOf w schema (.ofBytes b)).Confined ∧
      (decodeStatelessInputOf w schema (.ofBytes b)).Returns) ↔ InputOrdered schema b := by
  rcases Decidable.em (InputHead b) with h | h
  · rw [confined_decodeStatelessInputOf w h, returns_decodeStatelessInputOf w h, InputOrdered]
    simp only [h, forall_const]
    rcases Decidable.em (ConfigOk w schema b) with hc | hc
    · have hca := (configOk_iff w schema h).mp hc
      obtain ⟨rreq, rwit, rkeys⟩ := returns_of_ordered w schema h
      simp only [hc, hca, forall_const, confined_decodeRequest w h hc, confined_witness w h,
        confined_keys w h, requestOk_iff w schema h hc]
      constructor
      · intro hrest
        exact hrest.1
      · intro ho
        exact ⟨ho, rreq hc ho.1, fun hp => ⟨rwit (ho.2 hp).1, rkeys⟩⟩
    · have hca : ¬ConfigAccepted schema b := fun hca => hc ((configOk_iff w schema h).mpr hca)
      simp only [hc, hca, false_imp_iff, and_self]
  · refine ⟨fun _ hh => absurd hh h, fun _ => ⟨?_, ?_⟩⟩
    · exact every_decodeStatelessInputOf_of_not_head w h fun k hk => hk
    · exact every_decodeStatelessInputOf_of_not_head w h fun k hk => hk

/-- An Amsterdam input whose request starts with decreasing offsets: its payload
would end before it starts, and its length wraps. -/
def decreasingOffsetsInput : Bytes :=
  [16, 0, 0, 0, 60, 0, 0, 0, 60, 0, 0, 0, 84, 0, 0, 0] ++
    ([44, 0, 0, 0, 32, 0, 0, 0] ++ List.replicate 32 0 ++ [44, 0, 0, 0]) ++
    [1, 0, 0, 0, 0, 0, 0, 0, 12, 0, 0, 0, 4, 0, 0, 0, 8, 0, 0, 0, 8, 0, 0, 0]

/-- A sub-slice leaves its container. -/
theorem decodeStatelessInput_confined_counterexample :
    ¬∀ (w : WordSize) (schema : InputSchema) (b : Bytes),
      (decodeStatelessInputOf w schema (.ofBytes b)).Confined ∧
        (decodeStatelessInputOf w schema (.ofBytes b)).Returns := by
  intro h
  have hconf := (h .bits32 .amsterdam01 decreasingOffsetsInput).1
  revert hconf
  decide +kernel

end StatelessGuest
