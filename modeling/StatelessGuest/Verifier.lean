import StatelessGuest.Canonical
import StatelessGuest.Recovery

/-!
# What a verifier learns

A verifier knows a request and a chain config.  It computes the root of the request, and
compares the window with the result that claims success for the two.  The input of the run
behind the window is not known to it: the witness, the lengths and the offsets are whatever
the prover has chosen.

## Main definitions

* `configShape` — the payload shape that the bytes of a chain config ask for.
* `SszNewPayloadRequest.messages`, `CanonicalInput.messages` — what is hashed for a root.

## Main results

* `publish_cases` — the two kinds of results.
* `schema_eq_of_takeD` — the chain configs of the two schemas differ in the window.
* `window_sound` — **a window that claims success is that of a successful run on the very
  request**, unless hashed strings collide.
-/

namespace StatelessGuest

open Ssz SszType

/-! ### Chain configs of the two schemas -/

/-- The payload shape that the bytes of a chain config ask for. -/
def configShape : InputSchema → Bytes → PayloadShape
  | .legacy0001, config => payloadShapeForFork (.ofNat 64 (leNat (window config 12 8)))
  | .amsterdam01, _ => .gloas

/-- The shape of an input is read off its chain config. -/
theorem dictatedShape_eq_configShape {schema : InputSchema} {b : Bytes}
    (h : Canonical (chainConfigType schema) (configSection b)) :
    dictatedShape schema b = configShape schema (configSection b) := by
  cases schema with
  | amsterdam01 => rfl
  | legacy0001 =>
    have hlen := (length_of_canonical h).1 rfl
    rw [configSection, length_window] at hlen
    rw [dictatedShape, configShape, forkNumber, configSection, window_window (by omega)]

/-- The fork numbers of the guest are small. -/
theorem lt_of_payloadShapeForFork {fork : BitVec 64}
    (h : payloadShapeForFork fork ≠ .unsupported) : fork.toNat < 2 ^ 32 := by
  unfold payloadShapeForFork at h
  split at h
  · rename_i hfork
    rcases hfork with rfl | rfl | rfl | rfl <;> decide
  · split at h
    · rename_i hfork
      rw [hfork]
      decide
    · exact absurd rfl h

/-- Behind the chain id and the offset stand a small fork number, or an offset of 4 and one
of 8. -/
theorem u32At_config {schema : InputSchema} {config : Bytes}
    (h : Canonical (chainConfigType schema) config)
    (hshape : configShape schema config ≠ .unsupported) :
    u32At config 16 = match schema with
      | .legacy0001 => 0
      | .amsterdam01 => 8 := by
  obtain ⟨hlegacy, -⟩ := length_of_canonical h
  cases schema with
  | legacy0001 =>
    have hsmall := lt_of_payloadShapeForFork hshape
    have hsplit : window config 12 4 ++ window config 16 4 = window config 12 (4 + 4) :=
      window_append_window config rfl
    have hlen : (window config 12 4).length = 4 :=
      length_window_of_le (by have := hlegacy rfl; omega)
    have hlt : leNat (window config 12 8) < 2 ^ 64 := by
      have := leNat_lt (window config 12 8)
      rw [length_window_of_le (by have := hlegacy rfl; omega)] at this
      omega
    rw [BitVec.toNat_ofNat, Nat.mod_eq_of_lt hlt, ← hsplit, leNat_append, hlen] at hsmall
    unfold u32At
    dsimp only
    omega
  | amsterdam01 =>
    have hfork : (forkConfigType .amsterdam01).isFixed = false := rfl
    obtain ⟨h12, -, hfc⟩ := (canonical_u64_field hfork config).mp h
    obtain ⟨h4, -, hact⟩ := (canonical_field rfl _).mp hfc
    obtain ⟨h8, hoff, -⟩ := (canonical_forkActivation _).mp hact
    rw [length_window] at h4 h8 hoff
    rw [length_window] at h8
    rwa [u32At_window (by omega), u32At_window (by omega)] at hoff

/-- **The chain configs of the two schemas differ**, padded or not. -/
theorem schema_eq_of_takeD {schema schema' : InputSchema} {config config' : Bytes}
    (h : Canonical (chainConfigType schema) config)
    (h' : Canonical (chainConfigType schema') config')
    (hshape : configShape schema config ≠ .unsupported)
    (hshape' : configShape schema' config' ≠ .unsupported)
    (heq : config.takeD 219 0 = config'.takeD 219 0) : schema = schema' := by
  have hpadded : ∀ {schema : InputSchema} {config : Bytes},
      Canonical (chainConfigType schema) config →
        u32At (config.takeD 219 0) 16 = u32At config 16 := by
    intro schema config h
    obtain ⟨hmin, hmax⟩ := length_chainConfig h
    rw [takeD_eq_append (by omega), u32At, u32At, window_append_of_le (by omega)]
  have hmark : u32At config 16 = u32At config' 16 := by
    rw [← hpadded h, ← hpadded h', heq]
  rw [u32At_config h hshape, u32At_config h' hshape'] at hmark
  cases schema <;> cases schema' <;> first | rfl | cases hmark

/-- An item of zeros behind a chain config does not change the shape. -/
theorem configShape_eq {schema : InputSchema} {config config' : Bytes}
    (h : Canonical (chainConfigType schema) config)
    (h' : Canonical (chainConfigType schema) config')
    (hsame : SameButZeros schema config config') :
    configShape schema config = configShape schema config' := by
  cases schema with
  | amsterdam01 => rfl
  | legacy0001 =>
    have hlen := (length_of_canonical h).1 rfl
    have hlen' := (length_of_canonical h').1 rfl
    rcases hsame with rfl | rfl | rfl
    · rfl
    · rw [configShape, configShape, window_append_of_le (by omega)]
    · rw [configShape, configShape, window_append_of_le (by omega)]

/-! ### The two kinds of results -/

section

variable {L : Library} {w : WordSize} {data out : Bytes}

/-- **A published result** is the default failure, or holds the root, the verdict and the
chain config of a decoded input. -/
theorem publish_cases (h : publish w L data = .ok out) :
    (∃ config, out = publicValues (zeroVec 32) false config ∧ config.length ≤ 76) ∨
      ∃ schema si root ok, schemaOf data = some schema ∧
        (decodeStatelessInputOf w schema (.ofBytes (data.drop 2))).outcome = .ok si ∧
        si.valid = true ∧ htrNewPayloadRequest L.sha256 w si.newPayloadRequest {} = .ok root ∧
        guestVerdict L si = .ok ok ∧
        out = publicValues root.1 ok (configSection (data.drop 2)) := by
  have hdefault : ∀ schema, publishedSchema data = schema → decodeInput w data = none →
      runStatelessGuest L w data = .ok (defaultFailureOutput schema) →
      ∃ config, out = publicValues (zeroVec 32) false config ∧ config.length ≤ 76 := by
    rintro schema rfl hnone hrun
    obtain ⟨root, ok, config, hpublish, -, hlen, -, hvalues, -⟩ := publish_default hnone hrun
    obtain ⟨rfl, rfl, -⟩ := hvalues hnone
    rw [length_publicValues] at hlen
    exact ⟨config, Except.ok.inj (h.symm.trans hpublish), by omega⟩
  cases hschema : schemaOf data with
  | none =>
    refine .inl (hdefault .amsterdam01 ?_ ?_ ?_)
    · rw [publishedSchema, hschema]
      rfl
    · rw [decodeInput, hschema]
    · rw [runStatelessGuest, hschema]
  | some schema =>
    obtain ⟨result, hrun, -⟩ := bind_eq_ok.mp h
    have hpublished : publishedSchema data = schema := by
      rw [publishedSchema, hschema]
      rfl
    rw [runStatelessGuest, hschema] at hrun
    obtain ⟨si, hok, hrun⟩ := bind_eq_ok.mp hrun
    by_cases hvalid : si.valid = true
    · rw [runDecoded, hvalid] at hrun
      obtain ⟨root, hroot, hrun⟩ := bind_eq_ok.mp hrun
      obtain ⟨ok, hverdict, -⟩ := bind_eq_ok.mp hrun
      refine .inr ⟨schema, si, root, ok, rfl, hok, hvalid, hroot, hverdict, ?_⟩
      exact Except.ok.inj (h.symm.trans (publish_eq hschema hok hvalid hroot hverdict))
    · refine .inl (hdefault schema hpublished ?_ ?_)
      · rw [decodeInput, hschema]
        dsimp only
        rw [hok]
        exact if_neg hvalid
      · rw [runStatelessGuest, hschema]
        exact bind_eq_ok.mpr ⟨si, hok, if_pos (eq_false_of_ne_true hvalid)⟩

end

/-! ### The request behind a root -/

/-- What is hashed for the root of a request. -/
def SszNewPayloadRequest.messages (H : Bytes → Bytes32) (r : SszNewPayloadRequest) : List Bytes :=
  (hashTree r.type r.val).messages H

namespace CanonicalInput

variable {schema : InputSchema} (x : CanonicalInput schema)

/-- What is hashed for the root of the request of an input. -/
def messages (H : Bytes → Bytes32) : List Bytes :=
  (hashTree (newPayloadRequestType x.shape schema.builderRequests schema.balLimit)
    x.val.1).messages H

theorem canonical_configBytes : Canonical (chainConfigType schema) x.configBytes :=
  (canonical_chainConfig_iff schema x.configBytes).mpr ⟨_, x.config, rfl⟩

/-- The layout of the request is the one that goes with its shape. -/
theorem layoutOf_shape :
    layoutOf schema x.shape = (schema.builderRequests, schema.balLimit) := by
  rw [x.shape_eq]
  cases schema <;> rfl

theorem shape_eq_configShape : x.shape = configShape schema x.configBytes := by
  obtain ⟨hh, -, -, lcc, -, -, -, ecc, -⟩ := laid_of_serialize x.length_lt rfl
  generalize serialize (inputType schema x.shape .flat) x.val = b at hh lcc ecc
  have hcan : Canonical (chainConfigType schema) (configSection b) :=
    ⟨lcc, by rw [ecc]; exact x.config⟩
  have hconfig : x.configBytes = configSection b := by
    rw [configBytes, ← ecc, serialize_read lcc]
  rw [hconfig, ← dictatedShape_eq_configShape hcan, dictatedShape_eq_shapeOf hh hcan, ecc]
  exact x.shape_eq

/-- Every list of the request is short. -/
theorem bounded_request : Bounded (2 ^ 256)
    (newPayloadRequestType x.shape schema.builderRequests schema.balLimit) x.val.1 := by
  obtain ⟨shape, v, hshape, hsupported, -, hcc, hlen⟩ := x
  dsimp only
  obtain ⟨hh, lreq, -, -, -, ereq, -⟩ := laid_of_serialize hlen rfl
  obtain ⟨hdict, si, hok, hsi⟩ := decode_of_serialize .bits32 hshape hsupported hcc hlen rfl
  generalize serialize (inputType schema shape .flat) v = b at *
  subst hdict
  have hlayout := followsSchema_of_valid hok hsi.valid (requestSpan_of_laid hh lreq)
  rw [← ereq, ← hsi.newPayloadRequest]
  exact bounded_layout hlayout.shape.symm hlayout.builderRequests.symm hlayout.balHtrLimit.symm
    (bounded_of_valid .bits32 hok hsi.valid)

end CanonicalInput

section

variable {w : WordSize} {schema : InputSchema} {b : Bytes} {si : SszStatelessInput}

/-- The shape of a request that is not left out is the one that the chain config asks for. -/
theorem shape_of_keepsShape (hok : (decodeStatelessInputOf w schema (.ofBytes b)).outcome = .ok si)
    (hvalid : si.valid = true) (h : KeepsShape schema b) :
    si.newPayloadRequest.executionPayload.shape = dictatedShape schema b := by
  by_cases hshort : (requestSpan b).len < nprFixed
  · obtain ⟨hh, -, -, -, hnpr, -⟩ := input_of_valid w schema hok hvalid
    have hlen := (sections_of_head hh).1.2.1
    rcases h with hroom | hfork
    · omega
    · obtain ⟨rfl, hfork⟩ := hfork
      rw [hnpr, decodeRequest, decodeNewPayloadRequest, if_pos hshort, dictatedShape, hfork]
      rfl
  · exact (followsSchema_of_valid hok hvalid hshort).shape

/-- Strings of which no two collide. -/
theorem collisionFree_of_not_collision {H : Bytes → Bytes32} {calls : List Bytes}
    (h : ¬Collision H calls) : CollisionFree H {m | m ∈ calls} := by
  intro y hy z hz hyz
  by_contra hne
  exact h ⟨y, hy, z, hz, hne, hyz⟩

/-- **The request behind a root.**  A decoded request with the root of a request within its
limits is that request, unless hashed strings collide. -/
theorem eq_or_collision {H : Bytes → Bytes32} (x : CanonicalInput schema)
    (hok : (decodeStatelessInputOf w schema (.ofBytes b)).outcome = .ok si)
    (hvalid : si.valid = true)
    (hshape : si.newPayloadRequest.executionPayload.shape = x.shape)
    (hroot : (hashTree si.newPayloadRequest.type si.newPayloadRequest.val).root H = x.root H) :
    si.newPayloadRequest.toVal x.shape schema.builderRequests schema.balLimit = x.val.1 ∨
      Collision H (x.messages H ++ si.newPayloadRequest.messages H) := by
  have hlayout := layout_of_valid w hok hvalid
  rw [hshape, x.layoutOf_shape, Prod.mk.injEq] at hlayout
  obtain ⟨hbuilder, hbal⟩ := hlayout
  have hbound := bounded_layout hshape.symm hbuilder.symm hbal.symm (bounded_of_valid w hok hvalid)
  have htree := hashTree_layout si.newPayloadRequest hshape.symm hbuilder.symm hbal.symm
  rw [SszNewPayloadRequest.messages, htree]
  rw [htree] at hroot
  by_cases hcoll : Collision H (x.messages H ++ (hashTree (newPayloadRequestType x.shape
      schema.builderRequests schema.balLimit) (si.newPayloadRequest.toVal x.shape
        schema.builderRequests schema.balLimit)).messages H)
  · exact .inr hcoll
  · refine .inl (eq_of_agree _ x.request ?_)
    -- Without a collision among the hashed strings the tree is determined by its root.
    exact hashTree_injective (collisionFree_of_not_collision hcoll) _ (chunked_requestType _ _ _)
      hbound x.bounded_request (fun m hm => List.mem_append_right _ hm)
      (fun m hm => List.mem_append_left _ hm) hroot

end

/-- **What a claim of success in the window is worth.**  Whatever the input of the run behind
it, it is of the schema of the claim, its chain config is that of the claim up to an item of
zeros, its execution succeeded, and its request is the one of the claim, unless the input
left its request out or hashed strings collide. -/
theorem window_sound (L : Library) (w : WordSize) {schema : InputSchema} (x : CanonicalInput schema)
    {data out : Bytes} {writes : List (ℕ × BitVec 32)} (hpublish : publish w L data = .ok out)
    (hshown : InWindow writes out)
    (hclaim : publishedBytes writes =
      (publicValues (x.root L.sha256) true x.configBytes).takeD 256 0) :
    schemaOf data = some schema ∧ SameButZeros schema (configSection (data.drop 2)) x.configBytes ∧
      ∃ si, decodeInput w data = some si ∧ (∃ e : Execution L si, e.Succeeds) ∧
        (si.newPayloadRequest.toVal x.shape schema.builderRequests schema.balLimit = x.val.1 ∨
          ¬KeepsShape schema (data.drop 2) ∨
          Collision L.sha256 (x.messages L.sha256 ++ si.newPayloadRequest.messages L.sha256)) := by
  rw [hshown.bytes] at hclaim
  have hcan' := x.canonical_configBytes
  have hlen' := (length_chainConfig hcan').2
  rcases publish_cases hpublish with hdefault | hdecoded
  · -- The default failure does not claim success.
    obtain ⟨config, rfl, hlen⟩ := hdefault
    obtain ⟨-, hok, -⟩ := (takeD_publicValues_iff hlen hlen').mp hclaim
    cases hok
  · obtain ⟨schema', si, root, ok, hschema, hok, hvalid, hroot, hverdict, rfl⟩ := hdecoded
    obtain ⟨hh, hc, -⟩ := input_of_valid w schema' hok hvalid
    obtain ⟨hcan, hsupported⟩ := (configOk_iff w schema' hh).mp hc
    obtain ⟨hrooteq, rfl, hconfig⟩ :=
      (takeD_publicValues_iff (length_chainConfig hcan).2 hlen').mp hclaim
    rw [dictatedShape_eq_configShape hcan] at hsupported
    -- The schema shows in the chain config, so the two can be compared.
    obtain rfl : schema' = schema := schema_eq_of_takeD hcan hcan' hsupported
      (x.shape_eq_configShape ▸ x.supported) hconfig
    have hsame := (takeD_config_iff hcan hcan').mp hconfig
    refine ⟨hschema, hsame, si, decodeInput_eq_some hschema hok hvalid,
      guestVerdict_eq_true.mp hverdict, ?_⟩
    by_cases hkeeps : KeepsShape schema' (data.drop 2)
    · have hshape : si.newPayloadRequest.executionPayload.shape = x.shape := by
        rw [shape_of_keepsShape hok hvalid hkeeps, dictatedShape_eq_configShape hcan,
          configShape_eq hcan hcan' hsame, x.shape_eq_configShape]
      rw [(root_of_run w hok hvalid hroot).1] at hrooteq
      rcases eq_or_collision x hok hvalid hshape hrooteq with heq | hcoll
      · exact .inl heq
      · exact .inr (.inr hcoll)
    · exact .inr (.inl hkeeps)

/-- A valid child, run as it is claimed. -/
theorem window_sound_child :
    ∃ si, decodeInput .bits32 (childCanonical true).bytes = some si ∧
      (∃ e : Execution childLibrary si, e.Succeeds) ∧
      (si.newPayloadRequest.toVal .gloas InputSchema.amsterdam01.builderRequests
          InputSchema.amsterdam01.balLimit = (childBlock true).1 ∨
        ¬KeepsShape .amsterdam01 ((childCanonical true).bytes.drop 2) ∨
        Collision childLibrary.sha256 ((childCanonical true).messages childLibrary.sha256 ++
          si.newPayloadRequest.messages childLibrary.sha256)) := by
  obtain ⟨ok, hpublish, hvalid⟩ := @publish_canonical childLibrary toNat_leWord _ headerRules_child
    .bits32 _ (childCanonical true) _ (anchored_child true) (tracked_child true)
  rw [hvalid.mpr valid_child] at hpublish
  have hlen := (length_chainConfig (childCanonical true).canonical_configBytes).2
  have hshown := inWindow_packed (b := publicValues ((childCanonical true).root childLibrary.sha256)
    true (childCanonical true).configBytes) (by rw [length_publicValues]; omega)
  obtain ⟨-, -, hsi⟩ :=
    window_sound childLibrary .bits32 (childCanonical true) hpublish hshown hshown.bytes
  exact hsi

end StatelessGuest
