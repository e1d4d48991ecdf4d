import StatelessGuest.Verdict

/-!
# The published bytes

The guest publishes the root of the request, the verdict, and the chain config.  For any
library that returns, it publishes a well-formed result as long as no view of the
decoded input that is read after decoding leaves the input, and the changes of an accepted
block are found.

## Main definitions

* `publish` — the run and the encoding of its result.
* `WellPublished` — what should be published.
* `RunsInside` — nothing outside the input is read after decoding, with one library.
* `ReadsInside` — the same with every library.

## Main results

* `publish_wellFormed` — **the result is well formed exactly when nothing outside the input
  is read**, and the changes of an accepted block are recorded.
-/

namespace StatelessGuest

open Ssz

/-! ### Chain configs -/

/-- An accepted chain config has between 24 and 76 bytes. -/
theorem length_chainConfig {schema : InputSchema} {b : Bytes}
    (h : Canonical (chainConfigType schema) b) : 24 ≤ b.length ∧ b.length ≤ 76 := by
  constructor
  · cases schema with
    | legacy0001 =>
      have hfork : (forkConfigType .legacy0001).isFixed = false := rfl
      obtain ⟨h12, -, hfc⟩ := (canonical_u64_field hfork b).mp h
      have h16 := ((canonical_u64_fields rfl rfl _).mp hfc).1
      rw [length_window] at h16
      omega
    | amsterdam01 =>
      have hfork : (forkConfigType .amsterdam01).isFixed = false := rfl
      obtain ⟨h12, -, hfc⟩ := (canonical_u64_field hfork b).mp h
      obtain ⟨h4, -, hact⟩ := (canonical_field rfl _).mp hfc
      have h8 := ((canonical_forkActivation _).mp hact).1
      rw [length_window] at h4 h8
      rw [length_window] at h8
      omega
  · obtain ⟨v, hfits, rfl⟩ := (canonical_chainConfig_iff schema b).mp h
    exact (SszType.length_serialize_le hfits).trans (maxSize_chainConfigType schema)

section

variable (w : WordSize)

/-- The decoder of the schema accepts the chain config. -/
def AcceptsConfig (schema : InputSchema) (config : Bytes) : Prop :=
  ∃ cc, (decodeChainConfigOf w schema (.ofBytes config)).outcome = .ok cc ∧ cc.valid = true

theorem acceptsConfig_of_canonical {schema : InputSchema} {config : Bytes}
    (h : Canonical (chainConfigType schema) config) : AcceptsConfig w schema config := by
  have hlen : (ByteSpan.ofBytes config).len < w.modulus := by
    have := (length_chainConfig h).2
    exact lt_of_lt_of_le (show config.length < 2 ^ 32 by omega) w.le_modulus
  have hacc := acceptsCanonical w schema hlen
  unfold AcceptsConfig
  refine ⟨_, Dec.outcome_eq_ok.mpr ⟨hacc.returns (ByteSpan.inBounds_ofBytes config), rfl⟩, ?_⟩
  rw [hacc.valid, ByteSpan.bytes_ofBytes]
  exact h

/-- The default chain configs are chain configs. -/
theorem canonical_defaultChainConfig (schema : InputSchema) :
    Canonical (chainConfigType schema) (defaultChainConfigOf schema) := by
  have hlen : (ByteSpan.ofBytes (defaultChainConfigOf schema)).len < WordSize.bits32.modulus := by
    cases schema <;> decide
  have hacc := (acceptsCanonical .bits32 schema hlen).valid
  rw [ByteSpan.bytes_ofBytes] at hacc
  apply hacc.mp
  cases schema <;> decide +kernel

/-! ### What is published -/

/-- The root, the verdict, the offset of the chain config, and the chain config. -/
def publicValues (root : Bytes32) (ok : Bool) (config : Bytes) : Bytes :=
  root.toList ++ [if ok then 1 else 0] ++ leBytes 4 37 ++ config

@[simp] theorem length_publicValues (root : Bytes32) (ok : Bool) (config : Bytes) :
    (publicValues root ok config).length = 37 + config.length := by
  simp only [publicValues, List.length_append, List.Vector.toList_length, List.length_singleton,
    length_leBytes]

/-- The run, and the encoding of its result into the buffer of the guest. -/
def publish (L : Library) (data : Bytes) : Except Fault Bytes := do
  let out ← runStatelessGuest L w data
  encodePublicValues w out maxPublicValuesSize

/-- The input, where it is decoded. -/
def decodeInput (data : Bytes) : Option SszStatelessInput :=
  match schemaOf data with
  | none => none
  | some schema =>
    match (decodeStatelessInputOf w schema (.ofBytes (data.drop 2))).outcome with
    | .error _ => none
    | .ok si => if si.valid then some si else none

/-- The schema whose chain config is published. -/
def publishedSchema (data : Bytes) : InputSchema := (schemaOf data).getD .amsterdam01

/-- A well-formed result: the default failure where decoding fails, and the root and the
chain config of the input where it does not. -/
def WellPublished (L : Library) (data : Bytes) : Prop :=
  ∃ root ok config, publish w L data = .ok (publicValues root ok config) ∧
    61 ≤ (publicValues root ok config).length ∧ (publicValues root ok config).length ≤ 113 ∧
    AcceptsConfig w (publishedSchema data) config ∧
    (decodeInput w data = none → root = zeroVec 32 ∧ ok = false ∧
      config = defaultChainConfigOf (publishedSchema data)) ∧
    ∀ si, decodeInput w data = some si →
      (∃ st, htrNewPayloadRequest L.sha256 w si.newPayloadRequest {} = .ok (root, st)) ∧
        config = configSection (data.drop 2)

/-- The run goes on to the witness headers. -/
structure Admitted (si : SszStatelessInput) : Prop where
  active : validateChainConfig si.chainConfig si.newPayloadRequest.executionPayload.blockNumber
    si.newPayloadRequest.executionPayload.timestamp = true
  short : si.witness.headers.length ≤ 256

/-- The transactions up to the first that does not decode lie inside the input. -/
def ViewsTransactions (L : Library) : List ByteSpan → Prop
  | [] => True
  | span :: spans => span.InBounds ∧
      ((L.decodeTransaction span.bytes).isSome = true → ViewsTransactions L spans)

/-- What is handed to this library lies inside the input, and the changes of a block that it
accepts are recorded. -/
structure ExecutesInside (L : Library) (si : SszStatelessInput) : Prop where
  headers : ∀ s ∈ si.witness.headers, s.InBounds
  witness : headerChain L (si.witness.headers.map ByteSpan.bytes) = true →
    (∀ s ∈ si.witness.state, s.InBounds) ∧ (∀ s ∈ si.witness.codes, s.InBounds) ∧
      si.newPayloadRequest.executionPayload.extraData.InBounds ∧
      ViewsTransactions L si.newPayloadRequest.executionPayload.transactions
  requests : headerChain L (si.witness.headers.map ByteSpan.bytes) = true →
    (∀ s ∈ si.newPayloadRequest.executionPayload.transactions,
      (L.decodeTransaction s.bytes).isSome = true) → si.schema = .amsterdam01 →
    ∀ p ∈ flatRequests si.newPayloadRequest.executionRequests, p.2.InBounds
  changes : headerChain L (si.witness.headers.map ByteSpan.bytes) = true →
    ∀ x : Execution L si, x.result.1 = .kOk →
      (L.accountChanges x.result.2
          si.newPayloadRequest.executionPayload.blockNumber).isSome = true ∧
        (L.storageChanges x.result.2
          si.newPayloadRequest.executionPayload.blockNumber).isSome = true

/-- Neither the merkleizer nor, where it is reached, the execution with this library reads
outside the input. -/
structure RunsInside (L : Library) (si : SszStatelessInput) : Prop where
  request : si.newPayloadRequest.Readable w
  execution : Admitted si → ExecutesInside L si

/-- What the merkleizer reads lies inside the input, and so does, where the run goes on to the
witness headers, everything that is handed to the library. -/
structure ReadsInside (si : SszStatelessInput) : Prop where
  request : si.newPayloadRequest.Readable w
  headers : Admitted si → ∀ s ∈ si.witness.headers, s.InBounds
  state : Admitted si → ∀ s ∈ si.witness.state, s.InBounds
  codes : Admitted si → ∀ s ∈ si.witness.codes, s.InBounds
  extraData : Admitted si → si.newPayloadRequest.executionPayload.extraData.InBounds
  transactions : Admitted si →
    ∀ s ∈ si.newPayloadRequest.executionPayload.transactions, s.InBounds
  requests : Admitted si → si.schema = .amsterdam01 →
    ∀ p ∈ flatRequests si.newPayloadRequest.executionRequests, p.2.InBounds

variable {w}

/-! ### Returning -/

theorem decodeTransactions_returns {L : Library} {spans : List ByteSpan} :
    (∃ txs, decodeTransactions L spans = .ok txs) ↔ ViewsTransactions L spans := by
  induction spans with
  | nil => exact ⟨fun _ => trivial, fun _ => ⟨_, rfl⟩⟩
  | cons span spans ih =>
    rw [ViewsTransactions, ← ih]
    constructor
    · rintro ⟨txs, h⟩
      obtain ⟨b, hview, h⟩ := bind_eq_ok.mp h
      obtain ⟨hin, rfl⟩ := viewOf_eq_ok.mp hview
      refine ⟨hin, ?_⟩
      intro hsome
      obtain ⟨tx, htx⟩ := Option.isSome_iff_exists.mp hsome
      rw [htx] at h
      obtain ⟨rest, hrest, -⟩ := bind_eq_ok.mp h
      exact ⟨rest, hrest⟩
    · rintro ⟨hin, hrest⟩
      have hview : viewOf span = .ok span.bytes := viewOf_eq_ok.mpr ⟨hin, rfl⟩
      cases htx : L.decodeTransaction span.bytes with
      | none => exact ⟨none, bind_eq_ok.mpr ⟨_, hview, by rw [htx]⟩⟩
      | some tx =>
        obtain ⟨txs, htxs⟩ := hrest (by rw [htx]; rfl)
        refine ⟨txs.map fun txs => tx :: txs, bind_eq_ok.mpr ⟨_, hview, ?_⟩⟩
        rw [htx]
        exact bind_eq_ok.mpr ⟨_, htxs, rfl⟩

theorem viewsTransactions_of_inBounds {L : Library} {spans : List ByteSpan}
    (h : ∀ s ∈ spans, s.InBounds) : ViewsTransactions L spans := by
  induction spans with
  | nil => trivial
  | cons span spans ih =>
    rw [List.forall_mem_cons] at h
    exact ⟨h.1, fun _ => ih h.2⟩

theorem inBounds_of_viewsTransactions {L : Library} {spans : List ByteSpan}
    (hsome : ∀ s ∈ spans, (L.decodeTransaction s.bytes).isSome = true)
    (h : ViewsTransactions L spans) : ∀ s ∈ spans, s.InBounds := by
  induction spans with
  | nil => exact fun s hs => absurd hs List.not_mem_nil
  | cons span spans ih =>
    rw [List.forall_mem_cons] at hsome ⊢
    exact ⟨h.1, ih hsome.2 (h.2 hsome.1)⟩

/-- All transactions decode. -/
theorem isSome_of_decodes {L : Library} {spans : List ByteSpan} {txs : List L.Tx}
    (h : decodeTransactions L spans = .ok (some txs)) :
    ∀ s ∈ spans, s.InBounds ∧ (L.decodeTransaction s.bytes).isSome = true := by
  have hall := decodeTransactions_eq_some.mp h
  clear h
  induction hall with
  | nil => exact fun s hs => absurd hs List.not_mem_nil
  | cons hhead _ ih =>
    rw [List.forall_mem_cons]
    exact ⟨⟨hhead.1, by rw [hhead.2]; rfl⟩, ih⟩

theorem decodes_of_isSome {L : Library} {spans : List ByteSpan}
    (h : ∀ s ∈ spans, s.InBounds ∧ (L.decodeTransaction s.bytes).isSome = true) :
    ∃ txs, decodeTransactions L spans = .ok (some txs) := by
  induction spans with
  | nil => exact ⟨[], rfl⟩
  | cons span spans ih =>
    rw [List.forall_mem_cons] at h
    obtain ⟨txs, htxs⟩ := ih h.2
    obtain ⟨tx, htx⟩ := Option.isSome_iff_exists.mp h.1.2
    exact ⟨tx :: txs, decodeTransactions_eq_some.mpr
      (.cons ⟨h.1.1, htx⟩ (decodeTransactions_eq_some.mp htxs))⟩

theorem requestsHashOf_returns {L : Library} {si : SszStatelessInput} :
    (∃ requestsHash, requestsHashOf L si = .ok requestsHash) ↔ (si.schema = .amsterdam01 →
      ∀ p ∈ flatRequests si.newPayloadRequest.executionRequests, p.2.InBounds) := by
  unfold requestsHashOf
  by_cases hschema : si.schema = .amsterdam01
  · rw [if_pos hschema]
    constructor
    · rintro ⟨requestsHash, h⟩ - p hp
      obtain ⟨raws, hraws, -⟩ := bind_eq_ok.mp h
      exact (views_eq_ok.mp hraws).1 _ (List.mem_map_of_mem hp)
    · intro h
      have hviews : ∀ s ∈ (flatRequests si.newPayloadRequest.executionRequests).map Prod.snd,
          s.InBounds := by
        intro s hs
        obtain ⟨p, hp, rfl⟩ := List.mem_map.mp hs
        exact h hschema p hp
      exact ⟨_, bind_eq_ok.mpr ⟨_, views_eq_ok.mpr ⟨hviews, rfl⟩, rfl⟩⟩
  · rw [if_neg hschema]
    exact ⟨fun _ h => absurd h hschema, fun _ => ⟨none, rfl⟩⟩

/-- The root is computed where the changes are recorded. -/
theorem computedStateRoot_returns {L : Library} {nodes : L.NodeStore} {st : L.State}
    {number : BitVec 64} {parentHash : Bytes32} :
    (∃ root, computedStateRoot L nodes st number parentHash = .ok root) ↔
      (L.accountChanges st number).isSome = true ∧ (L.storageChanges st number).isSome = true := by
  constructor
  · rintro ⟨root, h⟩
    obtain ⟨accs, stor, haccs, hstor, -⟩ := computedStateRoot_eq_ok.mp h
    exact ⟨by rw [haccs]; rfl, by rw [hstor]; rfl⟩
  · rintro ⟨haccs, hstor⟩
    obtain ⟨accs, haccs⟩ := Option.isSome_iff_exists.mp haccs
    obtain ⟨stor, hstor⟩ := Option.isSome_iff_exists.mp hstor
    exact ⟨_, computedStateRoot_eq_ok.mpr ⟨accs, stor, haccs, hstor, rfl⟩⟩

/-- The last step returns where the changes of an accepted block are recorded. -/
theorem Execution.executeBlock_returns {L : Library} {si : SszStatelessInput} (x : Execution L si) :
    (∃ ok, executeBlock L si x.headers x.preimages x.codes x.block = .ok ok) ↔
      (x.result.1 = .kOk →
        (L.accountChanges x.result.2
            si.newPayloadRequest.executionPayload.blockNumber).isSome = true ∧
          (L.storageChanges x.result.2
            si.newPayloadRequest.executionPayload.blockNumber).isSome = true) := by
  rw [x.executeBlock_eq, ← @computedStateRoot_returns L (L.populateFromPreimages x.preimages)
    x.result.2 _ si.newPayloadRequest.executionPayload.parentHash]
  by_cases hok : x.result.1 = .kOk
  · rw [if_pos hok]
    constructor
    · rintro ⟨ok, h⟩ -
      obtain ⟨root, hroot, -⟩ := bind_eq_ok.mp h
      exact ⟨root, hroot⟩
    · intro h
      obtain ⟨root, hroot⟩ := h hok
      exact ⟨_, bind_eq_ok.mpr ⟨root, hroot, rfl⟩⟩
  · rw [if_neg hok]
    exact ⟨fun _ h => absurd h hok, fun _ => ⟨false, rfl⟩⟩

theorem guestVerdict_of_not_admitted {L : Library} {si : SszStatelessInput} (h : ¬Admitted si) :
    guestVerdict L si = .ok false := by
  unfold guestVerdict
  dsimp only
  split
  · rfl
  rename_i hactive
  split
  · rfl
  rename_i hshort
  exact absurd ⟨eq_true_of_ne_false hactive, Nat.not_lt.mp hshort⟩ h

theorem guestVerdict_of_admitted {L : Library} {si : SszStatelessInput} (h : Admitted si) :
    guestVerdict L si = views si.witness.headers >>= fun headers =>
      if headerChain L headers then verdictOnHeaders L si headers else .ok false := by
  unfold guestVerdict
  dsimp only
  rw [if_neg (by rw [h.active]; exact Bool.noConfusion), if_neg (Nat.not_lt.mpr h.short)]

/-- What an execution stage that returns has read. -/
theorem executesInside_of_returns {L : Library} {si : SszStatelessInput} (hadmitted : Admitted si)
    {ok : Bool} (h : guestVerdict L si = .ok ok) : ExecutesInside L si := by
  have hrun := h
  rw [guestVerdict_of_admitted hadmitted] at hrun
  obtain ⟨headers, hheaders, hrun⟩ := bind_eq_ok.mp hrun
  obtain ⟨hin, hbytes⟩ := views_eq_ok.mp hheaders
  have hstages : headerChain L headers = true →
      ((∀ s ∈ si.witness.state, s.InBounds) ∧ (∀ s ∈ si.witness.codes, s.InBounds) ∧
        si.newPayloadRequest.executionPayload.extraData.InBounds ∧
        ViewsTransactions L si.newPayloadRequest.executionPayload.transactions) ∧
      ((∀ s ∈ si.newPayloadRequest.executionPayload.transactions,
        (L.decodeTransaction s.bytes).isSome = true) → ∃ requestsHash,
          requestsHashOf L si = .ok requestsHash) := by
    intro hchain
    rw [if_pos hchain] at hrun
    obtain ⟨preimages, hstate, hrun⟩ := bind_eq_ok.mp hrun
    obtain ⟨codes, hcodes, hrun⟩ := bind_eq_ok.mp hrun
    obtain ⟨extraData, hextra, hrun⟩ := bind_eq_ok.mp hrun
    obtain ⟨txs, htxs, hrun⟩ := bind_eq_ok.mp hrun
    have hviewed := decodeTransactions_returns.mp ⟨txs, htxs⟩
    refine ⟨⟨(views_eq_ok.mp hstate).1, (views_eq_ok.mp hcodes).1, (viewOf_eq_ok.mp hextra).1,
      hviewed⟩, ?_⟩
    intro hsome
    cases txs with
    | none =>
      -- Some transaction has not decoded.
      obtain ⟨txs, htxs'⟩ := decodes_of_isSome fun s hs =>
        ⟨inBounds_of_viewsTransactions hsome hviewed s hs, hsome s hs⟩
      rw [htxs] at htxs'
      cases htxs'
    | some txs =>
      obtain ⟨requestsHash, hreq, -⟩ := bind_eq_ok.mp hrun
      exact ⟨requestsHash, hreq⟩
  refine ⟨hin, fun hchain => (hstages (hbytes ▸ hchain)).1, fun hchain hsome =>
    requestsHashOf_returns.mp ((hstages (hbytes ▸ hchain)).2 hsome), ?_⟩
  intro hchain x
  have hheaders' : x.headers = si.witness.headers.map ByteSpan.bytes :=
    (views_eq_ok.mp x.views_headers).2.symm
  rw [x.guestVerdict_eq hadmitted.active hadmitted.short (hheaders' ▸ hchain)] at h
  exact x.executeBlock_returns.mp ⟨ok, h⟩

/-- **The execution stage returns** when what it reads lies inside the input. -/
theorem ExecutesInside.returns {L : Library} {si : SszStatelessInput} (hadmitted : Admitted si)
    (h : ExecutesInside L si) : ∃ ok, guestVerdict L si = .ok ok := by
  have hviews := views_eq_ok.mpr ⟨h.headers, rfl⟩
  by_cases hchain : headerChain L (si.witness.headers.map ByteSpan.bytes) = true
  swap
  · rw [guestVerdict_of_admitted hadmitted]
    exact ⟨false, bind_eq_ok.mpr ⟨_, hviews, if_neg hchain⟩⟩
  obtain ⟨hstate, hcodes, hextra, htxs⟩ := h.witness hchain
  obtain ⟨txs, hdec⟩ := decodeTransactions_returns.mpr htxs
  cases txs with
  | none =>
    rw [guestVerdict_of_admitted hadmitted]
    exact ⟨false, bind_eq_ok.mpr ⟨_, hviews, (if_pos hchain).trans (bind_eq_ok.mpr ⟨_,
      views_eq_ok.mpr ⟨hstate, rfl⟩, bind_eq_ok.mpr ⟨_, views_eq_ok.mpr ⟨hcodes, rfl⟩,
      bind_eq_ok.mpr ⟨_, viewOf_eq_ok.mpr ⟨hextra, rfl⟩, bind_eq_ok.mpr ⟨_, hdec, rfl⟩⟩⟩⟩)⟩⟩
  | some txs =>
    obtain ⟨requestsHash, hreq⟩ := requestsHashOf_returns.mpr
      (h.requests hchain fun s hs => (isSome_of_decodes hdec s hs).2)
    -- Everything is read, so the run is an execution.
    have x : Execution L si := ⟨_, _, _, _, txs, requestsHash, hviews,
      views_eq_ok.mpr ⟨hstate, rfl⟩, views_eq_ok.mpr ⟨hcodes, rfl⟩, viewOf_eq_ok.mpr ⟨hextra, rfl⟩,
      hdec, hreq⟩
    have hheaders' : x.headers = si.witness.headers.map ByteSpan.bytes :=
      (views_eq_ok.mp x.views_headers).2.symm
    rw [x.guestVerdict_eq hadmitted.active hadmitted.short (hheaders' ▸ hchain)]
    exact x.executeBlock_returns.mpr (h.changes hchain x)

/-- **The execution stage returns exactly when what it reads lies inside the input**, and the
changes of an accepted block are recorded. -/
theorem guestVerdict_returns {L : Library} {si : SszStatelessInput} :
    (∃ ok, guestVerdict L si = .ok ok) ↔ (Admitted si → ExecutesInside L si) := by
  constructor
  · rintro ⟨ok, h⟩ hadmitted
    exact executesInside_of_returns hadmitted h
  · intro h
    by_cases hadmitted : Admitted si
    · exact (h hadmitted).returns hadmitted
    · exact ⟨false, guestVerdict_of_not_admitted hadmitted⟩

/-- What can be read with every library can be read with one that records changes. -/
theorem ReadsInside.runsInside {L : Library} (hrecords : L.RecordsChanges) {si : SszStatelessInput}
    (h : ReadsInside w si) : RunsInside w L si := by
  refine ⟨h.request, fun hadmitted => ⟨h.headers hadmitted, fun _ => ⟨h.state hadmitted,
    h.codes hadmitted, h.extraData hadmitted, ?_⟩, fun _ _ => h.requests hadmitted,
    ?_⟩⟩
  · exact viewsTransactions_of_inBounds (h.transactions hadmitted)
  · intro _ x hok
    exact hrecords _ _ _ hok

/-- The execution of an input that can be read. -/
theorem ReadsInside.returns {L : Library} (hrecords : L.RecordsChanges) {si : SszStatelessInput}
    (h : ReadsInside w si) : ∃ ok, guestVerdict L si = .ok ok :=
  guestVerdict_returns.mpr (h.runsInside hrecords).execution

/-! ### Encoding -/

/-- A chain config in memory is published if it fits. -/
theorem encodePublicValues_eq {out : StatelessValidatorOutput} (hin : out.chainConfigSsz.InBounds)
    (hlen : out.chainConfigSsz.len ≤ 76) :
    encodePublicValues w out maxPublicValuesSize = .ok (publicValues out.newPayloadRequestRoot
      out.successfulValidation out.chainConfigSsz.bytes) := by
  have hadd : w.add (32 + 1 + 4) out.chainConfigSsz.len = 32 + 1 + 4 + out.chainConfigSsz.len :=
    Nat.mod_eq_of_lt (lt_of_lt_of_le (by omega) w.le_modulus)
  simp only [encodePublicValues, hadd, maxPublicValuesSize]
  rw [if_neg (by omega), if_pos ⟨hin, by omega⟩, ByteSpan.bytes_eq_take hin]
  rfl

/-- The default failure is well formed. -/
theorem publish_default {L : Library} {data : Bytes} (hdec : decodeInput w data = none)
    (hrun : runStatelessGuest L w data = .ok (defaultFailureOutput (publishedSchema data))) :
    WellPublished w L data := by
  have hcan := canonical_defaultChainConfig (publishedSchema data)
  have hlen := length_chainConfig hcan
  refine ⟨zeroVec 32, false, defaultChainConfigOf (publishedSchema data), ?_, ?_, ?_,
    acceptsConfig_of_canonical w hcan, fun _ => ⟨rfl, rfl, rfl⟩, ?_⟩
  · rw [publish, hrun]
    refine Eq.trans (encodePublicValues_eq (ByteSpan.inBounds_ofBytes _) hlen.2) ?_
    show Except.ok (publicValues _ _ (ByteSpan.ofBytes _).bytes) = _
    rw [ByteSpan.bytes_ofBytes]
    rfl
  · rw [length_publicValues]
    omega
  · rw [length_publicValues]
    omega
  · intro si hsi
    rw [hdec] at hsi
    cases hsi

/-- The chain config of a decoded input is its section. -/
theorem config_of_valid {schema : InputSchema} {data : Bytes} {si : SszStatelessInput}
    (hok : (decodeStatelessInputOf w schema (.ofBytes (data.drop 2))).outcome = .ok si)
    (hvalid : si.valid = true) :
    si.chainConfig.raw.InBounds ∧ si.chainConfig.raw.bytes = configSection (data.drop 2) ∧
      Canonical (chainConfigType schema) (configSection (data.drop 2)) := by
  obtain ⟨hh, hc, -, hcc, -⟩ := input_of_valid w schema hok hvalid
  obtain ⟨-, -, ⟨hbytes, -, hin⟩, -⟩ := sections_of_head hh
  have hacc := acceptsCanonical w schema (configSpan_lt (b := data.drop 2) w)
  have hraw : si.chainConfig.raw = configSpan (data.drop 2) := by
    rw [hcc]
    exact hacc.raw
  have hsection : (configSpan (data.drop 2)).bytes = configSection (data.drop 2) := hbytes
  rw [hraw]
  exact ⟨hin, hsection, hsection ▸ hacc.valid.mp hc.1⟩

theorem decodeInput_eq_some {schema : InputSchema} {data : Bytes} {si : SszStatelessInput}
    (hschema : schemaOf data = some schema)
    (hok : (decodeStatelessInputOf w schema (.ofBytes (data.drop 2))).outcome = .ok si)
    (hvalid : si.valid = true) : decodeInput w data = some si := by
  rw [decodeInput, hschema]
  dsimp only
  rw [hok]
  exact if_pos hvalid

theorem decodeInput_eq_some_iff {data : Bytes} {si : SszStatelessInput} :
    decodeInput w data = some si ↔ ∃ schema, schemaOf data = some schema ∧
      (decodeStatelessInputOf w schema (.ofBytes (data.drop 2))).outcome = .ok si ∧
      si.valid = true := by
  constructor
  · intro h
    unfold decodeInput at h
    split at h
    · cases h
    · rename_i schema hschema
      split at h
      · cases h
      · rename_i si' hok
        obtain ⟨hvalid, h⟩ := Option.ite_none_right_eq_some.mp h
        cases h
        exact ⟨schema, hschema, hok, hvalid⟩
  · rintro ⟨schema, hschema, hok, hvalid⟩
    exact decodeInput_eq_some hschema hok hvalid

/-- A successful run executes its decoded input. -/
theorem execution_of_success {L : Library} {data : Bytes} {si : SszStatelessInput}
    (h : Success L w data) (hdec : decodeInput w data = some si) :
    ∃ x : Execution L si, x.Succeeds := by
  obtain ⟨out, hrun, hout⟩ := success_iff.mp h
  obtain ⟨schema, si', hschema, hok, hvalid, hx⟩ := run_of_success hrun hout
  have hsame : si' = si :=
    Option.some.inj ((decodeInput_eq_some hschema hok hvalid).symm.trans hdec)
  exact hsame ▸ hx

/-- A run over a decoded input, where the merkleizer and the execution return. -/
theorem run_of_valid {L : Library} {schema : InputSchema} {data : Bytes} {si : SszStatelessInput}
    (hschema : schemaOf data = some schema)
    (hok : (decodeStatelessInputOf w schema (.ofBytes (data.drop 2))).outcome = .ok si)
    (hvalid : si.valid = true) {root : Bytes32 × Statics} {ok : Bool}
    (hroot : htrNewPayloadRequest L.sha256 w si.newPayloadRequest {} = .ok root)
    (hverdict : guestVerdict L si = .ok ok) : runStatelessGuest L w data = .ok
      { newPayloadRequestRoot := root.1, successfulValidation := ok,
        chainConfigSsz := si.chainConfig.raw } := by
  rw [runStatelessGuest, hschema]
  refine bind_eq_ok.mpr ⟨si, hok, ?_⟩
  rw [runDecoded, hvalid]
  exact bind_eq_ok.mpr ⟨_, hroot, bind_eq_ok.mpr ⟨_, hverdict, rfl⟩⟩

/-- A run over a decoded input is well formed if it returns. -/
theorem publish_decoded {L : Library} {schema : InputSchema} {data : Bytes} {si : SszStatelessInput}
    (hschema : schemaOf data = some schema)
    (hok : (decodeStatelessInputOf w schema (.ofBytes (data.drop 2))).outcome = .ok si)
    (hvalid : si.valid = true) {root : Bytes32 × Statics} {ok : Bool}
    (hroot : htrNewPayloadRequest L.sha256 w si.newPayloadRequest {} = .ok root)
    (hverdict : guestVerdict L si = .ok ok) : WellPublished w L data := by
  obtain ⟨hin, hbytes, hcan⟩ := config_of_valid hok hvalid
  have hlen := length_chainConfig hcan
  have hrun := run_of_valid hschema hok hvalid hroot hverdict
  have hdec := decodeInput_eq_some hschema hok hvalid
  have hrawLen : si.chainConfig.raw.len ≤ 76 := by
    rw [← ByteSpan.length_bytes, hbytes]
    exact hlen.2
  -- The chain config of a valid input is canonical, so its raw section fits and is accepted.
  refine ⟨root.1, ok, configSection (data.drop 2), ?_, ?_, ?_, ?_, ?_,
    ?_⟩
  · rw [publish, hrun]
    apply Eq.trans (encodePublicValues_eq hin hrawLen)
    show Except.ok (publicValues _ _ si.chainConfig.raw.bytes) = _
    rw [hbytes]
  · rw [length_publicValues]
    omega
  · rw [length_publicValues]
    omega
  · rw [publishedSchema, hschema]
    exact acceptsConfig_of_canonical w hcan
  · intro hnone
    rw [hdec] at hnone
    cases hnone
  · intro si' hsi'
    rw [hdec] at hsi'
    cases hsi'
    exact ⟨⟨root.2, hroot⟩, rfl⟩

/-! ### The converse -/

/-- A library that every header and every transaction satisfies. -/
def permissiveLibrary (H : Bytes → Bytes32) : Library :=
  { sampleLibrary with
    sha256 := H
    keccak256 := fun _ => zeroVec 32
    decodeHeader := fun _ => (true, { rest := () })
    decodeTransaction := fun tx => some tx }

theorem headerChain_permissive (H : Bytes → Bytes32) (headers : List Bytes) :
    headerChain (permissiveLibrary H) headers = true := by
  have hlinked : ∀ prev header, linked (permissiveLibrary H) prev header = true := by
    intro prev header
    by_cases hprev : prev = [] <;> simp [linked, headerHashOf, permissiveLibrary, hprev]
  induction headers with
  | nil => rfl
  | cons prev headers ih =>
    cases headers with
    | nil => rfl
    | cons header headers =>
      rw [headerChain, hlinked, ih]
      rfl

theorem recordsChanges_permissive (H : Bytes → Bytes32) : (permissiveLibrary H).RecordsChanges :=
  fun _ _ _ _ => ⟨rfl, rfl⟩

/-- What is read with that library is read with every library. -/
theorem readsInside_of_permissive {H : Bytes → Bytes32} {si : SszStatelessInput}
    (h : RunsInside w (permissiveLibrary H) si) : ReadsInside w si := by
  have hchain := headerChain_permissive H (si.witness.headers.map ByteSpan.bytes)
  have hsome : ∀ s ∈ si.newPayloadRequest.executionPayload.transactions,
      ((permissiveLibrary H).decodeTransaction s.bytes).isSome = true := fun _ _ => rfl
  have hwitness := fun hadmitted => (h.execution hadmitted).witness hchain
  exact ⟨h.request, fun ha => (h.execution ha).headers, fun ha => (hwitness ha).1,
    fun ha => (hwitness ha).2.1, fun ha => (hwitness ha).2.2.1,
    fun ha => inBounds_of_viewsTransactions hsome (hwitness ha).2.2.2,
    fun ha => (h.execution ha).requests hchain hsome⟩

variable (w)

/-- A run that returns has stayed inside the input. -/
theorem runsInside_of_run {L : Library} {data : Bytes} {out : StatelessValidatorOutput}
    (hout : runStatelessGuest L w data = .ok out) {si : SszStatelessInput}
    (hsi : decodeInput w data = some si) : RunsInside w L si := by
  obtain ⟨schema, hschema, hok, hvalid⟩ := decodeInput_eq_some_iff.mp hsi
  rw [runStatelessGuest, hschema] at hout
  obtain ⟨si', hsi', hout⟩ := bind_eq_ok.mp hout
  have hsame : si' = si := Except.ok.inj (hsi'.symm.trans hok)
  rw [hsame, runDecoded, hvalid] at hout
  obtain ⟨root, hroot, hout⟩ := bind_eq_ok.mp hout
  obtain ⟨ok, hverdict, -⟩ := bind_eq_ok.mp hout
  exact ⟨(htrNewPayloadRequest_returns (sized_of_valid w hok hvalid)).mp ⟨root, hroot⟩,
    guestVerdict_returns.mp ⟨ok, hverdict⟩⟩

theorem WellPublished.runsInside {L : Library} {data : Bytes} (h : WellPublished w L data)
    {si : SszStatelessInput} (hsi : decodeInput w data = some si) : RunsInside w L si := by
  obtain ⟨_, _, _, hpublish, -⟩ := h
  obtain ⟨out, hout, -⟩ := bind_eq_ok.mp hpublish
  exact runsInside_of_run w hout hsi

/-- A successful run has read everything. -/
theorem readsInside_of_success {L : Library} {data : Bytes} {si : SszStatelessInput}
    (h : Success L w data) (hsi : decodeInput w data = some si) : ReadsInside w si := by
  obtain ⟨out, hrun, -⟩ := success_iff.mp h
  obtain ⟨x, -⟩ := execution_of_success h hsi
  exact ⟨(runsInside_of_run w hrun hsi).request, fun _ => (views_eq_ok.mp x.views_headers).1,
    fun _ => (views_eq_ok.mp x.views_state).1, fun _ => (views_eq_ok.mp x.views_codes).1,
    fun _ => (viewOf_eq_ok.mp x.view_extraData).1,
    fun _ s hs => (isSome_of_decodes x.decodes s hs).1, fun _ => requestsHashOf_returns.mp ⟨_, x.requests⟩⟩

/-- **With one library, the result is well formed exactly when the run stays inside the
input.** -/
theorem wellPublished_iff (L : Library) {data : Bytes}
    (hdec : ∀ schema, schemaOf data = some schema →
      (decodeStatelessInputOf w schema (.ofBytes (data.drop 2))).Returns) :
    WellPublished w L data ↔ ∀ si, decodeInput w data = some si → RunsInside w L si := by
  refine ⟨fun h si hsi => h.runsInside w hsi, ?_⟩
  intro h
  cases hschema : schemaOf data with
  | none =>
    apply publish_default (by rw [decodeInput, hschema])
    rw [runStatelessGuest, publishedSchema, hschema]
    rfl
  | some schema =>
    have hok := Dec.outcome_eq_ok.mpr ⟨hdec schema hschema, rfl⟩
    generalize (decodeStatelessInputOf w schema (.ofBytes (data.drop 2))).val = si at hok
    by_cases hvalid : si.valid = true
    · have hruns := h si (decodeInput_eq_some hschema hok hvalid)
      obtain ⟨root, hroot⟩ := (htrNewPayloadRequest_returns (H := L.sha256)
        (sized_of_valid w hok hvalid)).mpr hruns.request
      obtain ⟨ok, hverdict⟩ := guestVerdict_returns.mpr hruns.execution
      exact publish_decoded hschema hok hvalid hroot hverdict
    · -- A rejected input publishes the default, whatever the library.
      have hnone : decodeInput w data = none := by
        rw [decodeInput, hschema]
        dsimp only
        rw [hok]
        exact if_neg hvalid
      apply publish_default hnone
      rw [runStatelessGuest, publishedSchema, hschema]
      exact bind_eq_ok.mpr ⟨si, hok, if_pos (eq_false_of_ne_true hvalid)⟩

/-- **Where decoding stays inside the input, the guest publishes a well-formed result exactly
when the merkleizer and the execution stay inside it too and the changes of an accepted
block are recorded**; with every library that records them, exactly when all that is read
lies inside the input. -/
theorem publish_wellFormed {data : Bytes}
    (hdec : ∀ schema, schemaOf data = some schema →
      (decodeStatelessInputOf w schema (.ofBytes (data.drop 2))).Returns) :
    (∀ L : Library, WellPublished w L data ↔
      ∀ si, decodeInput w data = some si → RunsInside w L si) ∧
    ((∀ L : Library, L.RecordsChanges → WellPublished w L data) ↔
      ∀ si, decodeInput w data = some si → ReadsInside w si) := by
  refine ⟨fun L => wellPublished_iff w L hdec, ?_, ?_⟩
  · intro h si hsi
    -- A library that accepts every header and every transaction reads everything.
    exact readsInside_of_permissive
      ((h _ (recordsChanges_permissive fun _ => zeroVec 32)).runsInside w hsi)
  · intro h L hrecords
    exact (wellPublished_iff w L hdec).mpr fun si hsi => (h si hsi).runsInside hrecords

end

theorem decodes_amsterdamData : ∀ schema, schemaOf amsterdamData = some schema →
    (decodeStatelessInputOf .bits32 schema (.ofBytes (amsterdamData.drop 2))).Returns := by
  intro schema hschema
  have hamsterdam : schemaOf amsterdamData = some .amsterdam01 := by decide +kernel
  rw [hamsterdam] at hschema
  cases hschema
  decide +kernel

theorem decodeInput_amsterdamData : ∃ si, decodeInput .bits32 amsterdamData = some si ∧
    Admitted si := by
  have hadmitted : ((decodeInput .bits32 amsterdamData).any fun si =>
      validateChainConfig si.chainConfig si.newPayloadRequest.executionPayload.blockNumber
        si.newPayloadRequest.executionPayload.timestamp && si.witness.headers.length ≤ 256) =
      true := by
    decide +kernel
  obtain ⟨si, hsi, h⟩ := (Option.any_eq_true _ _).mp hadmitted
  rw [Bool.and_eq_true, decide_eq_true_eq] at h
  exact ⟨si, hsi, h.1, h.2⟩

/-- An input with items in its lists, of which everything is read. -/
theorem publish_wellFormed_amsterdamData :
    (∃ si, decodeInput .bits32 amsterdamData = some si ∧ Admitted si ∧ ReadsInside .bits32 si) ∧
      ∀ L : Library, L.RecordsChanges → WellPublished .bits32 L amsterdamData := by
  obtain ⟨si, hsi, hadmitted⟩ := decodeInput_amsterdamData
  have hreads := readsInside_of_success .bits32 success_amsterdamData hsi
  refine ⟨⟨si, hsi, hadmitted, hreads⟩,
    (publish_wellFormed .bits32 decodes_amsterdamData).2.mpr ?_⟩
  intro si' hsi'
  rw [hsi] at hsi'
  cases hsi'
  exact hreads

/-- A witness section whose header list puts its second entry far behind its end. -/
def farHeaderWitness : Bytes :=
  leBytes 4 12 ++ leBytes 4 12 ++ leBytes 4 12 ++ (leBytes 4 8 ++ leBytes 4 1000)

/-- Decoding reads nothing outside the input, but hashing the headers does. -/
theorem publish_wellFormed_counterexample :
    ¬∀ (L : Library) (w : WordSize) (data : Bytes), L.RecordsChanges →
      (∀ schema, schemaOf data = some schema →
        (decodeStatelessInputOf w schema (.ofBytes (data.drop 2))).Returns) →
      WellPublished w L data := by
  intro h
  obtain ⟨_, _, _, hpublish, -⟩ := h sampleLibrary .bits32
    (amsterdamInput [] farHeaderWitness activeConfig) (fun _ _ _ _ => ⟨rfl, rfl⟩)
    (fun schema hschema => by
      have hamsterdam : schemaOf (amsterdamInput [] farHeaderWitness activeConfig) =
          some .amsterdam01 := by decide +kernel
      rw [hamsterdam] at hschema
      cases hschema
      decide +kernel)
  have hfault : (publish .bits32 sampleLibrary
      (amsterdamInput [] farHeaderWitness activeConfig)).isOk = false := by decide +kernel
  rw [hpublish] at hfault
  cases hfault

end StatelessGuest
