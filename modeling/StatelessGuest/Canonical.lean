import StatelessGuest.Validator

/-!
# The guest on canonical inputs

An input that encodes a value is decoded to that value without reading anything outside
it, so the guest publishes the root of the request of the value, the verdict on what it
proposes, and its chain config.

## Main definitions

* `schemaId` — the first two bytes of an input.
* `CanonicalInput` — a value that encodes as an input.

## Main results

* `readsInside_of_confined` — an input that is decoded inside its containers is executed
  inside them too.
* `publish_serialize` — **what the guest publishes for the encoding of a value.**
-/

namespace StatelessGuest

open Ssz SszType

/-! ### The spans of an input -/

theorem cutClosed_inBounds : CutClosed Access.Confined ByteSpan.InBounds := by
  refine ⟨Nat.zero_le _, ?_⟩
  intro s lo hi hs h
  rw [every_between] at h
  exact ByteSpan.inBounds_drop hs h.2

section

variable (w : WordSize) {P : Access → Prop} {Q : ByteSpan → Prop}

/-- What cutting preserves holds of every span of a witness. -/
theorem spans_decodeWitness (hQ : CutClosed P Q) {s : ByteSpan} (hs : Q s)
    (h : (decodeWitness w s).Every P) :
    (∀ x ∈ (decodeWitness w s).val.state, Q x) ∧ (∀ x ∈ (decodeWitness w s).val.codes, Q x) ∧
      ∀ x ∈ (decodeWitness w s).val.headers, Q x := by
  unfold decodeWitness at h ⊢
  split at h
  · rename_i hshort
    rw [if_pos hshort]
    exact ⟨fun _ hx => absurd hx List.not_mem_nil, fun _ hx => absurd hx List.not_mem_nil,
      fun _ hx => absurd hx List.not_mem_nil⟩
  · rename_i hlong
    rw [if_neg hlong]
    simp only [Dec.every_bind, Dec.val_bind, Dec.val_pure, val_between] at h ⊢
    obtain ⟨-, -, -, hcut₁, hstate, hcut₂, hcodes, hcut₃, hheaders, -⟩ := h
    exact ⟨spans_bytelistList w hQ (hQ.cut _ _ _ hs hcut₁) hstate,
      spans_bytelistList w hQ (hQ.cut _ _ _ hs hcut₂) hcodes,
      spans_bytelistList w hQ (hQ.cut _ _ _ hs hcut₃) hheaders⟩

/-- What cutting preserves holds of the raw spans of the execution requests. -/
theorem spans_decodeExecutionRequests (hQ : CutClosed P Q) {s : ByteSpan} (hs : Q s)
    (builderRequests : Bool) (h : (decodeExecutionRequests w s builderRequests).Every P) :
    ∀ p ∈ flatRequests (decodeExecutionRequests w s builderRequests).val, Q p.2 := by
  have hnone : ∀ hasBuilderRequests,
      ∀ p ∈ flatRequests { hasBuilderRequests }, Q p.2 := by
    intro _ p hp
    exact absurd hp (by simp [flatRequests, ByteSpan.null])
  unfold decodeExecutionRequests at h ⊢
  split at h
  · rename_i hshort
    rw [if_pos hshort]
    exact hnone _
  rename_i hlong
  rw [if_neg hlong]
  intro p hp
  rw [flatRequests, List.mem_filter] at hp
  split at h
  · rename_i hfive
    simp only [hfive, ↓reduceIte, decodeFiveLists, Dec.every_bind, Dec.val_bind, Dec.val_pure,
      val_between, List.mem_cons, List.not_mem_nil, or_false] at h hp
    obtain ⟨-, -, -, -, -, -, -, -, -, -, -, -, -, -, -, c₁, c₂, c₃, c₄, c₅, -⟩ := h
    rcases hp.1 with rfl | rfl | rfl | rfl | rfl
    all_goals exact hQ.cut _ _ _ hs ‹_›
  · rename_i hthree
    simp only [hthree, Bool.false_eq_true, ↓reduceIte, decodeThreeLists, Dec.every_bind,
      Dec.val_bind, Dec.val_pure, val_between, List.mem_cons, List.not_mem_nil, or_false] at h hp
    obtain ⟨-, -, -, -, -, -, -, -, -, c₁, c₂, c₃, -⟩ := h
    rcases hp.1 with rfl | rfl | rfl | rfl | rfl
    · exact hQ.cut _ _ _ hs c₁
    · exact hQ.cut _ _ _ hs c₂
    · exact hQ.cut _ _ _ hs c₃
    all_goals exact hQ.null

/-- The raw spans of the execution requests of a request. -/
theorem spans_flatRequests (hQ : CutClosed P Q) {s : ByteSpan} (hs : Q s) (shape : PayloadShape)
    (builderRequests : Bool) (balLimit : ℕ)
    (h : (decodeNewPayloadRequest w s shape builderRequests balLimit).Every P) :
    ∀ p ∈ flatRequests
      (decodeNewPayloadRequest w s shape builderRequests balLimit).val.executionRequests, Q p.2 := by
  unfold decodeNewPayloadRequest at h ⊢
  split at h
  · rename_i hshort
    rw [if_pos hshort]
    intro p hp
    exact absurd hp (by simp [flatRequests, ByteSpan.null])
  · rename_i hlong
    rw [if_neg hlong]
    simp only [Dec.every_bind, Dec.val_bind, Dec.val_pure, val_between] at h ⊢
    obtain ⟨-, -, -, -, -, -, -, -, hcut, hrequests, -⟩ := h
    exact spans_decodeExecutionRequests w hQ (hQ.cut _ _ _ hs hcut) builderRequests hrequests

end

section

variable {w : WordSize} {schema : InputSchema} {b : Bytes}

/-- **An input that is decoded inside its containers is executed inside them too**, as long
as the lists of its request can be merkleized. -/
theorem readsInside_of_confined {si : SszStatelessInput}
    (hok : (decodeStatelessInputOf w schema (.ofBytes b)).outcome = .ok si)
    (hvalid : si.valid = true) (hreq : (decodeRequest w schema b).Confined)
    (hwit : (decodeWitness w (witnessSpan b)).Confined)
    (hread : si.newPayloadRequest.executionPayload.Spans ByteSpan.InBounds →
      si.newPayloadRequest.Readable w) : ReadsInside w si := by
  obtain ⟨hh, -, -, -, hnpr, hwitness, -⟩ := input_of_valid w schema hok hvalid
  obtain ⟨⟨-, -, hreqIn⟩, ⟨-, -, hwitIn⟩, -⟩ := sections_of_head hh
  unfold decodeRequest at hreq
  obtain ⟨hspans, -⟩ := spans_decodeNewPayloadRequest w cutClosed_inBounds hreqIn _ _ _ hreq
  have hraw := spans_flatRequests w cutClosed_inBounds hreqIn _ _ _ hreq
  rw [← decodeRequest, ← hnpr] at hspans hraw
  obtain ⟨hstate, hcodes, hheaders⟩ := spans_decodeWitness w cutClosed_inBounds hwitIn hwit
  rw [← hwitness] at hstate hcodes hheaders
  exact ⟨hread hspans, fun _ => hheaders, fun _ => hstate, fun _ => hcodes,
    fun _ => hspans.extraData, fun _ => hspans.transactions, fun _ _ => hraw⟩

/-! ### The layout -/

theorem tidy_decodeExecutionRequests (s : ByteSpan) (builderRequests : Bool) :
    (decodeExecutionRequests w s builderRequests).val.Tidy := by
  intro hnone
  rw [hasBuilderRequests_decodeExecutionRequests] at hnone
  rw [hnone, decodeExecutionRequests]
  split
  · exact ⟨rfl, rfl⟩
  · simp only [Bool.false_eq_true, ↓reduceIte, decodeThreeLists, Dec.val_bind, Dec.val_pure]
    exact ⟨rfl, rfl⟩

theorem tidy_decodeNewPayloadRequest (s : ByteSpan) (shape : PayloadShape) (builderRequests : Bool)
    (balLimit : ℕ) :
    (decodeNewPayloadRequest w s shape builderRequests balLimit).val.executionRequests.Tidy := by
  unfold decodeNewPayloadRequest
  split
  · intro _
    exact ⟨rfl, rfl⟩
  · simp only [Dec.val_bind, Dec.val_pure]
    exact tidy_decodeExecutionRequests _ _

/-- The Amsterdam chain config does not name its fork. -/
theorem fork_decodeChainConfigAmsterdam01 (s : ByteSpan) :
    (decodeChainConfigAmsterdam01 w s).val.fork = forkAmsterdam := by
  unfold decodeChainConfigAmsterdam01
  split
  · rfl
  simp only [Dec.val_bind]
  split
  · rfl
  simp only [Dec.val_bind]
  split
  · rfl
  simp only [Dec.val_bind]
  split <;> rfl

theorem followsSchema_of_valid {si : SszStatelessInput}
    (hok : (decodeStatelessInputOf w schema (.ofBytes b)).outcome = .ok si)
    (hvalid : si.valid = true) (hlong : ¬(requestSpan b).len < nprFixed) :
    FollowsSchema schema (dictatedShape schema b) si := by
  obtain ⟨hh, hc, hr, hcc, hnpr, -, -, hschema⟩ := input_of_valid w schema hok hvalid
  rw [RequestOk, decodeRequest_eq w schema hh hc] at hr
  obtain ⟨hshape, hbal, hbuilder⟩ := shape_decodeNewPayloadRequest w hlong hr
  rw [decodeRequest_eq w schema hh hc] at hnpr
  refine ⟨hschema, by rw [hnpr]; exact hshape, by rw [hnpr]; exact hbal,
    by rw [hnpr]; exact hbuilder, by rw [hnpr]; exact tidy_decodeNewPayloadRequest _ _ _ _, ?_⟩
  rintro rfl
  rw [hcc]
  exact fork_decodeChainConfigAmsterdam01 _

/-! ### What is published -/

/-- What a run over a decoded input publishes. -/
theorem publish_eq {L : Library} {data : Bytes} {si : SszStatelessInput}
    (hschema : schemaOf data = some schema)
    (hok : (decodeStatelessInputOf w schema (.ofBytes (data.drop 2))).outcome = .ok si)
    (hvalid : si.valid = true) {root : Bytes32 × Statics} {ok : Bool}
    (hroot : htrNewPayloadRequest L.sha256 w si.newPayloadRequest {} = .ok root)
    (hverdict : guestVerdict L si = .ok ok) :
    publish w L data = .ok (publicValues root.1 ok (configSection (data.drop 2))) := by
  obtain ⟨hin, hbytes, hcan⟩ := config_of_valid hok hvalid
  have hlen : si.chainConfig.raw.len ≤ 76 := by
    rw [← ByteSpan.length_bytes, hbytes]
    exact (length_chainConfig hcan).2
  have hrun := run_of_valid hschema hok hvalid hroot hverdict
  rw [publish, hrun, ← hbytes]
  exact encodePublicValues_eq hin hlen

end

/-- The schema in front of an input. -/
def schemaId : InputSchema → Bytes
  | .legacy0001 => [0x00, 0x01]
  | .amsterdam01 => [0x15, 0x01]

theorem schemaOf_schemaId (schema : InputSchema) (b : Bytes) :
    schemaOf (schemaId schema ++ b) = some schema := by
  cases schema <;> simp [schemaOf, schemaId]

theorem drop_schemaId (schema : InputSchema) (b : Bytes) : (schemaId schema ++ b).drop 2 = b := by
  cases schema <;> rfl

/-- A request of a given layout is of the type of that layout. -/
theorem type_of_layout {H : Bytes → Bytes32} {r : SszNewPayloadRequest} {shape : PayloadShape}
    {builderRequests : Bool} {balLimit : ℕ} (hshape : r.executionPayload.shape = shape)
    (hbuilder : r.executionRequests.hasBuilderRequests = builderRequests)
    (hbal : r.executionPayload.balHtrLimit = balLimit) :
    (Fits (newPayloadRequestType shape builderRequests balLimit)
        (r.toVal shape builderRequests balLimit) ↔ Fits r.type r.val) ∧
      hashTreeRoot H (newPayloadRequestType shape builderRequests balLimit)
        (r.toVal shape builderRequests balLimit) = hashTreeRoot H r.type r.val := by
  subst hshape hbuilder hbal
  exact ⟨Iff.rfl, rfl⟩

/-- A request that is laid out is not left out. -/
theorem requestSpan_of_laid {shape : PayloadShape} {builderRequests : Bool} {balLimit : ℕ}
    {b : Bytes} (h : InputHead b)
    (hlaid : Laid (newPayloadRequestType shape builderRequests balLimit) (requestSection b)) :
    ¬(requestSpan b).len < nprFixed := by
  have hhead := ((laid_request rfl rfl rfl _).mp hlaid).1
  rw [← bytes_requestSpan h, ByteSpan.length_bytes] at hhead
  exact Nat.not_lt.mpr hhead

/-- A value that encodes as an input: its request has the layout that its chain config asks
for, and both are within their limits. -/
structure CanonicalInput (schema : InputSchema) where
  shape : PayloadShape
  val : (inputType schema shape .flat).Val
  shape_eq : shape = shapeOf schema val.2.2.1
  supported : shape ≠ .unsupported
  request : Fits (newPayloadRequestType shape schema.builderRequests schema.balLimit) val.1
  config : Fits (chainConfigType schema) val.2.2.1
  length_lt : (serialize (inputType schema shape .flat) val).length < 2 ^ 32

namespace CanonicalInput

variable {schema : InputSchema} (x : CanonicalInput schema)

/-- The input. -/
def bytes : Bytes := schemaId schema ++ serialize (inputType schema x.shape .flat) x.val

/-- The root of the request. -/
def root (H : Bytes → Bytes32) : Bytes32 :=
  hashTreeRoot H (newPayloadRequestType x.shape schema.builderRequests schema.balLimit) x.val.1

/-- The chain config. -/
def configBytes : Bytes := serialize (chainConfigType schema) x.val.2.2.1

/-- What the input proposes. -/
def proposal : Proposal := Proposal.ofVal schema x.val

end CanonicalInput

/-- A canonical input is decoded to its value, without reading anything outside it. -/
theorem CanonicalInput.decoded (w : WordSize) {schema : InputSchema} (x : CanonicalInput schema) :
    ∃ si, (decodeStatelessInputOf w schema (.ofBytes (x.bytes.drop 2))).outcome = .ok si ∧
      si.valid = true ∧ ReadsInside w si ∧ proposalOf si = x.proposal ∧
      configSection (x.bytes.drop 2) = x.configBytes ∧
      ∀ H : Bytes → Bytes32,
        (hashTree si.newPayloadRequest.type si.newPayloadRequest.val).root H = x.root H := by
  obtain ⟨shape, v, hshape, hsupported, hreq, hcc, hlen⟩ := x
  simp only [CanonicalInput.bytes, CanonicalInput.root, CanonicalInput.configBytes,
    CanonicalInput.proposal, drop_schemaId]
  obtain ⟨hh, lreq, lwit, lcc, -, ereq, ewit, ecc, -⟩ := laid_of_serialize hlen rfl
  obtain ⟨hdict, si, hok, hsi⟩ := decode_of_serialize w hshape hsupported hcc hlen rfl
  generalize serialize (inputType schema shape .flat) v = b at *
  subst hdict
  have hvalid := hsi.valid
  obtain ⟨-, hc, -⟩ := input_of_valid w schema hok hvalid
  have hnpr := hsi.newPayloadRequest.trans ereq
  have hlayout := followsSchema_of_valid hok hvalid (requestSpan_of_laid hh lreq)
  have hproposal := proposalOf_eq hlayout hnpr (hsi.witness.trans ewit) (hsi.chainConfig.trans ecc)
    hsi.raw
  have hconfig : configSection b = serialize (chainConfigType schema) v.2.2.1 := by
    rw [← ecc, serialize_read lcc]
  -- The request within its limits can be merkleized, and its root is that of its value.
  have htype := fun H => type_of_layout (H := H) hlayout.shape hlayout.builderRequests
    hlayout.balHtrLimit
  have hsized := sized_of_valid w hok hvalid
  have hread : si.newPayloadRequest.executionPayload.Spans ByteSpan.InBounds →
      si.newPayloadRequest.Readable w := fun hspans =>
    (readable_of_fits ((htype fun _ => zeroVec 32).1.mp (hnpr ▸ hreq)) hspans
      hsized.spans.blockAccessList hsized.balHtrLimit).2
  refine ⟨si, hok, hvalid, readsInside_of_confined hok hvalid
    ((confined_decodeRequest w hh hc).mpr (ordered_of_laid lreq))
    ((confined_witness w hh).mpr (ordered_of_laid lwit)) hread, hproposal, hconfig, ?_⟩
  intro H
  rw [← hnpr, (htype H).2, hashTreeRoot]

/-- The run on the encoding of a value, given its verdict: the root of its request, and its
chain config. -/
theorem publish_of_verdict (L : Library) (w : WordSize) {schema : InputSchema}
    (x : CanonicalInput schema) {si : SszStatelessInput}
    (hok : (decodeStatelessInputOf w schema (.ofBytes (x.bytes.drop 2))).outcome = .ok si)
    {ok : Bool} (hverdict : guestVerdict L si = .ok ok) :
    publish w L x.bytes = .ok (publicValues (x.root L.sha256) ok x.configBytes) := by
  obtain ⟨si', hok', hvalid, hreads, -, hconfig, hroot⟩ := x.decoded w
  obtain rfl : si' = si := Except.ok.inj (hok'.symm.trans hok)
  obtain ⟨root, hrun⟩ := (htrNewPayloadRequest_returns (H := L.sha256)
    (sized_of_valid w hok hvalid)).mpr hreads.request
  rw [← hconfig, ← hroot, ← (root_of_run w hok hvalid hrun).1]
  exact publish_eq (schemaOf_schemaId schema _) hok hvalid hrun hverdict

/-- The run on the encoding of a value: the root of its request, the verdict on what it
proposes, and its chain config. -/
theorem publish_canonical {L : Library} (hload : L.LoadsLittleEndian)
    {encode : BlockHeader L.HeaderRest → Bytes} (hr : HeaderRules L encode) (w : WordSize)
    {schema : InputSchema} (x : CanonicalInput schema) {c : Commitment}
    (ha : x.proposal.Anchored L) (ht : x.proposal.Tracked L c) :
    ∃ ok, publish w L x.bytes = .ok (publicValues (x.root L.sha256) ok x.configBytes) ∧
      (ok = true ↔ x.proposal.Valid L c) := by
  obtain ⟨si, hok, -, hreads, hproposal, -⟩ := x.decoded w
  rw [← hproposal] at ha ht ⊢
  obtain ⟨ok, hverdict, hiff⟩ := guestVerdict_iff hr hload hreads ha ht
  exact ⟨ok, publish_of_verdict L w x hok hverdict, hiff⟩

/-- **What the guest publishes for the encoding of a value**, on either word size: the root of
its request and its chain config, with success exactly when what it proposes is valid.  The
library reads numbers as they are written, keeps the rules of headers and tracks the state, and
the witness begins with a header and has no empty one. -/
theorem publish_serialize (L : Library) (hload : L.LoadsLittleEndian)
    {encode : BlockHeader L.HeaderRest → Bytes} (hr : HeaderRules L encode) (w : WordSize)
    {schema : InputSchema} (x : CanonicalInput schema) (c : Commitment)
    (ha : x.proposal.Anchored L) (ht : x.proposal.Tracked L c) :
    (x.proposal.Valid L c →
      publish w L x.bytes = .ok (publicValues (x.root L.sha256) true x.configBytes)) ∧
    (¬x.proposal.Valid L c →
      publish w L x.bytes = .ok (publicValues (x.root L.sha256) false x.configBytes)) := by
  obtain ⟨ok, hpublish, hiff⟩ := publish_canonical hload hr w x ha ht
  constructor
  · intro hvalid
    rw [hpublish, hiff.mpr hvalid]
  · intro hinvalid
    have hok : ok = false := Bool.eq_false_iff.mpr fun hok => hinvalid (hiff.mp hok)
    rw [hpublish, hok]

/-! ### Other inputs -/

/-- The decoder of the input, where it has one, reads nothing outside its containers. -/
def DecodesInside (data : Bytes) : Prop :=
  ∀ schema, schemaOf data = some schema →
    (decodeStatelessInputOf .bits32 schema (.ofBytes (data.drop 2))).Confined

/-- A run over a short input that has been decoded. -/
theorem publish_of_valid (L : Library) (w : WordSize) {schema : InputSchema} {data : Bytes}
    {si : SszStatelessInput} (hlen : (data.drop 2).length < 2 ^ 29)
    (hschema : schemaOf data = some schema)
    (hconf : (decodeStatelessInputOf .bits32 schema (.ofBytes (data.drop 2))).Confined)
    (hok : (decodeStatelessInputOf .bits32 schema (.ofBytes (data.drop 2))).outcome = .ok si)
    (hvalid : si.valid = true) {ok : Bool} (hverdict : guestVerdict L si = .ok ok) :
    publish w L data = .ok (publicValues
      ((hashTree si.newPayloadRequest.type si.newPayloadRequest.val).root L.sha256) ok
      (configSection (data.drop 2))) := by
  have hread : si.newPayloadRequest.Readable w := by
    have hread32 := (within_of_confined hlen hconf hok hvalid).2.1
    cases w with
    | bits32 => exact hread32
    | bits64 => exact hread32.widen
  rw [decodeStatelessInputOf_wordSize .bits32 w schema] at hok
  obtain ⟨st, hrun, -⟩ := (computes_htrNewPayloadRequest (H := L.sha256) (w := w) (P := True)
    (sized_of_valid w hok hvalid) fun _ => hread).run trivial (good_default L.sha256)
  rw [← (root_of_run w hok hvalid hrun).1]
  exact publish_eq hschema hok hvalid hrun hverdict

/-- **On a short input that is decoded inside its containers, the word size does not matter**:
the same bytes are published, and where decoding fails they are the default failure. -/
theorem publish_of_confined {L : Library} (hrecords : L.RecordsChanges) {data : Bytes}
    (hlen : (data.drop 2).length < 2 ^ 29) (hconf : DecodesInside data) :
    ∃ root ok config, config.length ≤ 76 ∧
      (∀ w, publish w L data = .ok (publicValues root ok config)) ∧
      (decodeInput .bits32 data = none →
        root = zeroVec 32 ∧ ok = false ∧ config = defaultChainConfigOf (publishedSchema data)) := by
  have hdefault : (∀ w, decodeInput w data = none) →
      (∀ w, runStatelessGuest L w data = .ok (defaultFailureOutput (publishedSchema data))) →
      ∃ root ok config, config.length ≤ 76 ∧
        (∀ w, publish w L data = .ok (publicValues root ok config)) ∧
        (decodeInput .bits32 data = none → root = zeroVec 32 ∧ ok = false ∧
          config = defaultChainConfigOf (publishedSchema data)) := by
    intro hnone hrun
    refine ⟨zeroVec 32, false, defaultChainConfigOf (publishedSchema data),
      (length_chainConfig (canonical_defaultChainConfig _)).2, ?_,
      fun _ => ⟨rfl, rfl, rfl⟩⟩
    intro w
    obtain ⟨root, ok, config, hpublish, -, -, -, hvalues, -⟩ := publish_default (hnone w) (hrun w)
    obtain ⟨rfl, rfl, rfl⟩ := hvalues (hnone w)
    exact hpublish
  cases hschema : schemaOf data with
  | none =>
    refine hdefault (fun w => by rw [decodeInput, hschema]) ?_
    intro w
    rw [runStatelessGuest, publishedSchema, hschema]
    rfl
  | some schema =>
    have hin := hconf schema hschema
    have hok := Dec.outcome_eq_ok.mpr ⟨returns_of_confined hin, rfl⟩
    have hok' : ∀ w, (decodeStatelessInputOf w schema (.ofBytes (data.drop 2))).outcome =
        .ok (decodeStatelessInputOf .bits32 schema (.ofBytes (data.drop 2))).val := by
      intro w
      rw [decodeStatelessInputOf_wordSize w .bits32 schema, hok]
    generalize (decodeStatelessInputOf .bits32 schema (.ofBytes (data.drop 2))).val = si at *
    cases hvalid : si.valid with
    | false =>
      refine hdefault ?_ ?_
      · intro w
        rw [decodeInput, hschema]
        dsimp only
        rw [hok' w]
        exact if_neg (by rw [hvalid]; exact Bool.false_ne_true)
      · intro w
        rw [runStatelessGuest, publishedSchema, hschema]
        exact bind_eq_ok.mpr ⟨si, hok' w, if_pos hvalid⟩
    | true =>
      obtain ⟨hh, hc, hp, -, -, -⟩ := input_of_valid .bits32 schema hok hvalid
      obtain ⟨hreq, hrest⟩ := (confined_decodeStatelessInputOf .bits32 hh).mp hin hc
      have hreads := readsInside_of_confined hok hvalid hreq (hrest hp).1 fun _ =>
        (within_of_confined hlen hin hok hvalid).2.1
      obtain ⟨ok, hverdict⟩ := hreads.returns hrecords
      refine ⟨_, ok, configSection (data.drop 2), ?_, fun w =>
        publish_of_valid L w hlen hschema hin hok hvalid hverdict, ?_⟩
      · exact (length_chainConfig (config_of_valid hok hvalid).2.2).2
      · intro hnone
        rw [decodeInput_eq_some hschema hok hvalid] at hnone
        cases hnone

/-! ### A child of a known parent -/

/-- A library whose blocks create the account of the zero address, and set a slot of it. -/
def childLibrary : Library := oneAccountLibrary none (some ([7], zeroVec 32)) (padTo 32 [9])

def childCommitment : Commitment := ⟨zeroKeys, oneSlotRoot, oneAddressRoot⟩

/-- The state after such a block. -/
def childWorld : World childLibrary :=
  accountAfter childLibrary (some ([7], zeroVec 32)) (padTo 32 [9])

/-- The parent header names the root of the state without an account. -/
def childParent : Bytes := sampleHeader (zeroVec 32) (leafRoot none)

/-- An Amsterdam input on top of that parent, which names the root of the state after it, or
that of the state before it. -/
def childBlock (updated : Bool) : (inputType .amsterdam01 .gloas .flat).Val :=
  match amsterdamBlock with
  | (((_, feeRecipient, _, payload), request), (state, codes, _), rest) =>
    (((childLibrary.keccak256 childParent, feeRecipient,
        if updated then childCommitment.root childWorld else leafRoot none, payload), request),
      (state, codes, [childParent], ()), rest)

theorem fits_childBlock (updated : Bool) :
    Fits (newPayloadRequestType .gloas InputSchema.amsterdam01.builderRequests
      InputSchema.amsterdam01.balLimit) (childBlock updated).1 := by
  have hbal : 3 ≤ InputSchema.amsterdam01.balLimit := by decide
  simp [childBlock, amsterdamBlock, samplePayload, sampleRequests, Fits, FitsAll,
    InputSchema.builderRequests]
  decide

theorem length_childBlock (updated : Bool) :
    (serialize (inputType .amsterdam01 .gloas .flat) (childBlock updated)).length < 2 ^ 32 := by
  cases updated <;> decide +kernel

def childCanonical (updated : Bool) : CanonicalInput .amsterdam01 where
  shape := .gloas
  val := childBlock updated
  shape_eq := rfl
  supported := PayloadShape.noConfusion
  request := fits_childBlock updated
  config := fits_amsterdamBlock
  length_lt := length_childBlock updated

theorem headerRules_child : HeaderRules childLibrary strictEncode where
  hash := headerRules_strict.hash
  encode_decode := headerRules_strict.encode_decode
  stateRoot_encode := headerRules_strict.stateRoot_encode
  read_witness := headerRules_strict.read_witness
  read_code := headerRules_strict.read_code
  read_insert := headerRules_strict.read_insert
  read_blockchain := headerRules_strict.read_blockchain
  read_executed := headerRules_strict.read_executed
  parent_found := headerRules_strict.parent_found

theorem headers_child (updated : Bool) :
    (childCanonical updated).proposal.witness.headers = [childParent] := rfl

theorem anchored_child (updated : Bool) :
    (childCanonical updated).proposal.Anchored childLibrary := by
  refine ⟨?_, ?_, ?_⟩
  · rw [headers_child]
    exact ⟨by decide, by decide⟩
  · rw [headers_child]
    decide
  · rw [headers_child]
    intro a ha b hb _
    rw [List.mem_singleton.mp ha, List.mem_singleton.mp hb]

/-- The account that is created is not missed. -/
theorem not_missed_child (addr : Address) :
    ¬Missed (accountBefore childLibrary none) childWorld addr := by
  rintro (⟨hsome, -⟩ | ⟨-, cur, hcur, hdefault, -⟩)
  · have hnone : (accountBefore childLibrary none).account addr = none := ite_self none
    rw [hnone] at hsome
    cases hsome
  · obtain ⟨-, hcur⟩ := Option.ite_none_right_eq_some.mp hcur
    rw [← Option.some.inj hcur] at hdefault
    revert hdefault
    decide

theorem tracked_child (updated : Bool) :
    (childCanonical updated).proposal.Tracked childLibrary childCommitment := by
  intro parent transactions hparent _ _
  have hmem := hparent.1
  rw [headers_child, List.mem_singleton] at hmem
  refine ⟨[(zeroVec 20, none)], [(zeroVec 20, [(zeroVec 32, zeroVec 32)])],
    accountBefore childLibrary none, ?_, ?_, not_missed_child⟩
  · exact executed_oneAccount none (some ([7], zeroVec 32)) (padTo 32 [9]) _ _
      fun acc hacc => by cases hacc
  · rw [hmem]
    decide

theorem accepted_child (updated : Bool) (transactions : List childLibrary.Tx) :
    ((childCanonical updated).proposal.result childLibrary childParent transactions).1 = .kOk := by
  have hfound : (sampleLibrary.readHeader
      ((childCanonical updated).proposal.chain childLibrary childParent)
      ((childCanonical updated).proposal.payload.blockNumber - 1)
      (childCanonical updated).proposal.payload.parentHash).isSome = true := by
    cases updated <;> decide +kernel
  change (if _ then ValidationResult.kOk else .failed 0) = _
  exact if_pos hfound

theorem transactions_child (updated : Bool) :
    (childCanonical updated).proposal.Transactions childLibrary [[2, 3], [0x81, 4]] := by
  have htransactions : (childCanonical updated).proposal.payload.transactions =
      [[2, 3], [0x81, 4]] := rfl
  rw [Proposal.Transactions, htransactions]
  exact .cons rfl (.cons rfl .nil)

/-- The block leads to the state after it, whichever root is named. -/
theorem root_child (updated : Bool) (transactions : List childLibrary.Tx) : childCommitment.root
    (worldOf ((childCanonical updated).proposal.result childLibrary childParent transactions).2) =
      childCommitment.root childWorld := rfl

theorem active_child (updated : Bool) : (childCanonical updated).proposal.activation.Reached
    (childCanonical updated).proposal.payload.blockNumber
    (childCanonical updated).proposal.payload.timestamp := by
  have hactive : (childCanonical updated).proposal.activation = ⟨some 1, some 12⟩ := rfl
  have hnumber : (childCanonical updated).proposal.payload.blockNumber = 1 := rfl
  have htime : (childCanonical updated).proposal.payload.timestamp = 12 := rfl
  rw [hactive, hnumber, htime]
  refine ⟨.inl rfl, ?_, ?_⟩
  · rintro n ⟨⟩
    exact BitVec.le_refl _
  · rintro t ⟨⟩
    exact BitVec.le_refl _

theorem valid_child : (childCanonical true).proposal.Valid childLibrary childCommitment := by
  have hparent : (childCanonical true).proposal.IsParent childLibrary childParent := by
    refine ⟨?_, rfl⟩
    rw [headers_child]
    exact List.mem_singleton_self _
  have hstate : (childCanonical true).proposal.payload.stateRoot =
      childCommitment.root childWorld := rfl
  refine ⟨active_child true, ?_, ?_, ?_, childParent, _, hparent, transactions_child true,
    accepted_child true _, (root_child true _).trans hstate.symm⟩
  · rw [headers_child]
    decide
  · rw [headers_child]
    decide
  · rw [headers_child]
    intro i hi
    exact absurd hi (by simp)

/-- The root of the state before the block is not that of the state after it. -/
theorem not_valid_child :
    ¬(childCanonical false).proposal.Valid childLibrary childCommitment := by
  rintro ⟨-, -, -, -, parent, transactions, -, -, -, hroot⟩
  change childCommitment.root childWorld = leafRoot none at hroot
  revert hroot
  decide

/-- A valid child, and one that names the wrong root. -/
theorem publish_serialize_child :
    publish .bits64 childLibrary (childCanonical true).bytes = .ok (publicValues
        ((childCanonical true).root childLibrary.sha256) true (childCanonical true).configBytes) ∧
      publish .bits32 childLibrary (childCanonical false).bytes = .ok (publicValues
        ((childCanonical false).root childLibrary.sha256) false
          (childCanonical false).configBytes) :=
  ⟨(publish_serialize childLibrary toNat_leWord headerRules_child .bits64 (childCanonical true)
      childCommitment (anchored_child true) (tracked_child true)).1 valid_child,
    (publish_serialize childLibrary toNat_leWord headerRules_child .bits32 (childCanonical false)
      childCommitment (anchored_child false) (tracked_child false)).2 not_valid_child⟩

end StatelessGuest
