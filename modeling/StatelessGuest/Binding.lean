import StatelessGuest.RoundTrip
import StatelessGuest.Spans

/-!
# What the committed root binds

Two decoded requests with the same root are equal as far as the merkleizer looks:
it pads a list to the capacity of its limit, and the decoders let longer lists
through, whose rest does not enter the root.

## Main definitions

* `SameRequest` — two decoded requests are equal in every field.
* `AgreeRequest` — they are equal up to what exceeds the capacity of a list.
* `Collision` — two different strings among the hashed ones have one digest.

## Main results

* `htrNewPayloadRequest_binding` — **the root binds the request exactly when no list
  exceeds its capacity**, unless the hash function collides.
-/

namespace StatelessGuest

open Ssz SszType

/-- Two requests are equal, field by field. -/
structure SameRequest (r₁ r₂ : SszNewPayloadRequest) : Prop where
  shape : r₁.executionPayload.shape = r₂.executionPayload.shape
  balHtrLimit : r₁.executionPayload.balHtrLimit = r₂.executionPayload.balHtrLimit
  hasBuilderRequests :
    r₁.executionRequests.hasBuilderRequests = r₂.executionRequests.hasBuilderRequests
  val : r₁.val = r₂.toVal r₁.executionPayload.shape r₁.executionRequests.hasBuilderRequests
    r₁.executionPayload.balHtrLimit

/-- Two requests of one layout are equal up to what exceeds the capacity of a list. -/
def AgreeRequest (r₁ r₂ : SszNewPayloadRequest) : Prop :=
  Agree r₁.type r₁.val (r₂.toVal r₁.executionPayload.shape r₁.executionRequests.hasBuilderRequests
    r₁.executionPayload.balHtrLimit)

/-- Two of the hashed strings collide. -/
def Collision (H : Bytes → Bytes32) (calls : List Bytes) : Prop :=
  ∃ a ∈ calls, ∃ b ∈ calls, a ≠ b ∧ H a = H b

section

variable (w : WordSize) {schema : InputSchema} {b : Bytes} {si : SszStatelessInput}

/-- The layout of a request, by its shape: under the Amsterdam schema only a request that
was left out has no Gloas payload. -/
def layoutOf : InputSchema → PayloadShape → Bool × ℕ
  | .legacy0001, _ => (false, maxBlockAccessListBytes)
  | .amsterdam01, .gloas => (true, balHtrLimitAmsterdam01)
  | .amsterdam01, _ => (false, maxBlockAccessListBytes)

theorem layout_of_valid (hok : (decodeStatelessInputOf w schema (.ofBytes b)).outcome = .ok si)
    (hvalid : si.valid = true) :
    (si.newPayloadRequest.executionRequests.hasBuilderRequests,
      si.newPayloadRequest.executionPayload.balHtrLimit) =
        layoutOf schema si.newPayloadRequest.executionPayload.shape := by
  obtain ⟨-, -, hreq, -, hnpr, -⟩ := input_of_valid w schema hok hvalid
  rw [hnpr]
  unfold RequestOk at hreq
  unfold decodeRequest at hreq ⊢
  by_cases hlen : (requestSpan b).len < nprFixed
  · have hdefault : (decodeNewPayloadRequest w (requestSpan b)
        (inputShape schema (configOf w schema b)) schema.builderRequests schema.balLimit).val = {} := by
      rw [decodeNewPayloadRequest, if_pos hlen]
      rfl
    rw [hdefault]
    cases schema <;> rfl
  · obtain ⟨hshape, hbal, hbuilder⟩ := shape_decodeNewPayloadRequest w hlen hreq
    rw [hshape, hbal, hbuilder]
    cases schema <;> rfl

theorem layoutOf_snd (schema : InputSchema) (shape : PayloadShape) :
    (layoutOf schema shape).2 = maxBlockAccessListBytes ∨
      (layoutOf schema shape).2 = balHtrLimitAmsterdam01 := by
  cases schema <;> cases shape <;> simp [layoutOf]

theorem cutFrom_of_valid (hok : (decodeStatelessInputOf w schema (.ofBytes b)).outcome = .ok si)
    (hvalid : si.valid = true) :
    CutFrom (fun s => s.len < 2 ^ 32) si.newPayloadRequest.executionPayload := by
  obtain ⟨-, -, -, -, hnpr, -⟩ := input_of_valid w schema hok hvalid
  rw [hnpr, decodeRequest]
  exact short_decodeNewPayloadRequest w (sub32_lt _ _) _ _ _

/-- A decoded request is sized. -/
theorem sized_of_valid (hok : (decodeStatelessInputOf w schema (.ofBytes b)).outcome = .ok si)
    (hvalid : si.valid = true) : si.newPayloadRequest.executionPayload.Sized := by
  obtain ⟨hextra, htxs, hbal⟩ := (cutFrom_of_valid w hok hvalid).spans
  have hwide : ∀ {n : ℕ}, n < 2 ^ 32 → n < 2 ^ 64 := fun h => lt_trans h (by norm_num)
  have hlayout : si.newPayloadRequest.executionPayload.balHtrLimit = _ :=
    congrArg Prod.snd (layout_of_valid w hok hvalid)
  refine ⟨⟨hwide hextra, fun tx h => hwide (htxs tx h), hwide hbal⟩, ?_⟩
  rw [hlayout]
  exact layoutOf_snd _ _

/-- Every list of a decoded request is short. -/
theorem bounded_of_valid (hok : (decodeStatelessInputOf w schema (.ofBytes b)).outcome = .ok si)
    (hvalid : si.valid = true) :
    Bounded (2 ^ 256) si.newPayloadRequest.type si.newPayloadRequest.val := by
  have hwide : ∀ {n : ℕ}, n < 2 ^ 32 → n < 2 ^ 256 := fun h => lt_trans h (by norm_num)
  obtain ⟨⟨hextra, htxs, hbal⟩, table, htable, hcount⟩ := cutFrom_of_valid w hok hvalid
  obtain ⟨hwdl, hhashes, her⟩ : si.newPayloadRequest.executionPayload.withdrawals.length * 32 <
        2 ^ 32 ∧ si.newPayloadRequest.versionedHashes.length * 32 < 2 ^ 32 ∧
      si.newPayloadRequest.executionRequests.Readable .bits32 := by
    obtain ⟨-, -, -, -, hnpr, -⟩ := input_of_valid w schema hok hvalid
    rw [hnpr, decodeRequest]
    exact (positioned_decodeNewPayloadRequest w (sub32_lt _ _) _ _ _).counts
  generalize si.newPayloadRequest = r at hextra htxs hbal hcount hwdl hhashes her ⊢
  have hcount' : ∀ {n : ℕ}, n * 32 < WordSize.bits32.modulus → n < 2 ^ 256 := by
    intro n hn
    have hmod : WordSize.bits32.modulus = 2 ^ 32 := rfl
    exact hwide (by omega)
  -- The fields that depend on the shape or the schema are bounded on their own.
  have hptail : BoundedAll (2 ^ 256) (payloadTail r.executionPayload.balHtrLimit
      r.executionPayload.shape) (r.executionPayload.tailVal r.executionPayload.balHtrLimit
      r.executionPayload.shape) := by
    cases r.executionPayload.shape with
    | gloas =>
      simp only [SszExecutionPayload.tailVal, BoundedAll, Bounded, ByteSpan.length_bytes, and_self,
        and_true]
      exact hwide hbal
    | _ => trivial
  have hrtail : BoundedAll (2 ^ 256) (builderRequestsTail r.executionRequests.hasBuilderRequests)
      (r.executionRequests.tailVal r.executionRequests.hasBuilderRequests) := by
    have hdep := her.builderDeposits
    have hex := her.builderExits
    cases hb : r.executionRequests.hasBuilderRequests with
    | false => trivial
    | true =>
      simp only [SszExecutionRequests.tailVal, BoundedAll, Bounded, List.length_map, List.mem_map,
        implies_true, and_self, and_true]
      exact ⟨hcount' (hdep hb), hcount' (hex hb)⟩
  simp only [SszNewPayloadRequest.toVal, SszExecutionPayload.toVal, SszExecutionRequests.toVal,
    Bounded, BoundedAll, List.length_map, ByteSpan.length_bytes, List.mem_map, implies_true,
    forall_exists_index, and_imp, forall_apply_eq_imp_iff₂, true_and, and_true]
  exact ⟨⟨hwide hextra, ⟨hwide (by omega), fun tx h => hwide (htxs tx h)⟩, hwide (by omega), hptail⟩,
    hwide (by omega), hcount' her.deposits, hcount' her.withdrawals, hcount' her.consolidations,
    hrtail⟩

/-- What a run of the merkleizer on a decoded request returns and hashes. -/
theorem root_of_run {H : Bytes → Bytes32}
    (hok : (decodeStatelessInputOf w schema (.ofBytes b)).outcome = .ok si)
    (hvalid : si.valid = true) {root : Bytes32} {st : Statics}
    (hrun : htrNewPayloadRequest H w si.newPayloadRequest {} = .ok (root, st)) :
    root = (hashTree si.newPayloadRequest.type si.newPayloadRequest.val).root H ∧
      (hashTree si.newPayloadRequest.type si.newPayloadRequest.val).messages H ⊆ st.calls := by
  have hc := computes_htrNewPayloadRequest (H := H) (w := w)
    (P := si.newPayloadRequest.Readable w) (sized_of_valid w hok hvalid) id
  rcases hc {} (good_default H) with ⟨-, e, herr⟩ | ⟨st', hst', -, -, hmsg, -⟩
  · rw [hrun] at herr
    cases herr
  · rw [hrun] at hst'
    cases hst'
    exact ⟨rfl, hmsg⟩

/-- The tree of a request, at another spelling of its layout. -/
theorem hashTree_layout (r : SszNewPayloadRequest) {shape : PayloadShape} {builderRequests : Bool}
    {balLimit : ℕ} (hshape : shape = r.executionPayload.shape)
    (hbuilder : builderRequests = r.executionRequests.hasBuilderRequests)
    (hbal : balLimit = r.executionPayload.balHtrLimit) :
    hashTree r.type r.val = hashTree (newPayloadRequestType shape builderRequests balLimit)
      (r.toVal shape builderRequests balLimit) := by
  subst hshape hbuilder hbal
  rfl

theorem bounded_layout {r : SszNewPayloadRequest} {shape : PayloadShape} {builderRequests : Bool}
    {balLimit : ℕ} (hshape : shape = r.executionPayload.shape)
    (hbuilder : builderRequests = r.executionRequests.hasBuilderRequests)
    (hbal : balLimit = r.executionPayload.balHtrLimit) (h : Bounded (2 ^ 256) r.type r.val) :
    Bounded (2 ^ 256) (newPayloadRequestType shape builderRequests balLimit)
      (r.toVal shape builderRequests balLimit) := by
  subst hshape hbuilder hbal
  exact h

theorem chunked_requestType (shape : PayloadShape) (builderRequests : Bool) (balLimit : ℕ) :
    (newPayloadRequestType shape builderRequests balLimit).chunked = true := by
  cases shape <;> cases builderRequests <;> rfl

end

/-- **What the root binds.**  For two valid inputs of one schema and shape, an equal root
means an equal request, unless hashed strings collide, exactly when the two do not differ
in nothing but what exceeds the capacity of a list. -/
theorem htrNewPayloadRequest_binding (H : Bytes → Bytes32) (w : WordSize) (schema : InputSchema)
    {b₁ b₂ : Bytes} {si₁ si₂ : SszStatelessInput}
    (hok₁ : (decodeStatelessInputOf w schema (.ofBytes b₁)).outcome = .ok si₁)
    (hvalid₁ : si₁.valid = true)
    (hok₂ : (decodeStatelessInputOf w schema (.ofBytes b₂)).outcome = .ok si₂)
    (hvalid₂ : si₂.valid = true)
    (hshape : si₁.newPayloadRequest.executionPayload.shape =
      si₂.newPayloadRequest.executionPayload.shape)
    {root₁ root₂ : Bytes32} {st₁ st₂ : Statics}
    (hrun₁ : htrNewPayloadRequest H w si₁.newPayloadRequest {} = .ok (root₁, st₁))
    (hrun₂ : htrNewPayloadRequest H w si₂.newPayloadRequest {} = .ok (root₂, st₂)) :
    (root₁ = root₂ → SameRequest si₁.newPayloadRequest si₂.newPayloadRequest ∨
        Collision H (st₁.calls ++ st₂.calls)) ↔
      ((AgreeRequest si₁.newPayloadRequest si₂.newPayloadRequest →
          SameRequest si₁.newPayloadRequest si₂.newPayloadRequest) ∨
        Collision H (st₁.calls ++ st₂.calls)) := by
  have hlayout := layout_of_valid w hok₁ hvalid₁
  rw [hshape, ← layout_of_valid w hok₂ hvalid₂, Prod.mk.injEq] at hlayout
  obtain ⟨hbuilder, hbal⟩ := hlayout
  obtain ⟨rfl, hmsg₁⟩ := root_of_run w hok₁ hvalid₁ hrun₁
  obtain ⟨rfl, hmsg₂⟩ := root_of_run w hok₂ hvalid₂ hrun₂
  have hbound₁ := bounded_of_valid w hok₁ hvalid₁
  have hbound₂ := bounded_layout hshape hbuilder hbal (bounded_of_valid w hok₂ hvalid₂)
  have htree₂ := hashTree_layout si₂.newPayloadRequest hshape hbuilder hbal
  -- One layout for both requests, so that their trees can be compared.
  rw [htree₂] at hmsg₂ ⊢
  constructor
  · intro hbind
    by_cases hcoll : Collision H (st₁.calls ++ st₂.calls)
    · exact Or.inr hcoll
    · refine Or.inl fun hagree => (hbind ?_).resolve_right hcoll
      -- Requests that agree have one tree, and hence equal roots.
      rw [hashTree_congr _ hagree]
  · intro hcond hroot
    by_cases hcoll : Collision H (st₁.calls ++ st₂.calls)
    · exact Or.inr hcoll
    · refine Or.inl (hcond.resolve_right hcoll ?_)
      -- Without a collision among the hashed strings the tree is determined by its root.
      have hfree : CollisionFree H {m | m ∈ st₁.calls ++ st₂.calls} := by
        intro x hx y hy hxy
        by_contra hne
        exact hcoll ⟨x, hx, y, hy, hne, hxy⟩
      exact hashTree_injective hfree _ (chunked_requestType _ _ _) hbound₁ hbound₂
        (fun m hm => List.mem_append_left _ (hmsg₁ hm))
        (fun m hm => List.mem_append_right _ (hmsg₂ hm)) hroot

/-! ### Extra data beyond its limit -/

/-- A legacy Prague input whose extra data has 33 bytes, the last of them `x`. -/
def longExtraValue (x : UInt8) : (inputType .legacy0001 .electraFulu .flat).Val :=
  (((zeroVec 32, zeroVec 20, zeroVec 32, zeroVec 32, zeroVec 256, zeroVec 32, (0 : BitVec 64),
      (0 : BitVec 64), (0 : BitVec 64), (0 : BitVec 64), List.replicate 32 0 ++ [x],
      (0 : BitVec 256), zeroVec 32, [], [], (0 : BitVec 64), (0 : BitVec 64), ()), [], zeroVec 32,
      ([], [], [], ()), ()),
    ([], [], [], ()), ((1 : BitVec 64), ((17 : BitVec 64), ([], [], ()), [], ()), ()), [], ())

def longExtraBytes (x : UInt8) : Bytes :=
  serialize (inputType .legacy0001 .electraFulu .flat) (longExtraValue x)

def longExtraInput (x : UInt8) : SszStatelessInput :=
  (decodeStatelessInputOf .bits64 .legacy0001 (.ofBytes (longExtraBytes x))).val

/-- A hash function that does not collide on the strings of this request. -/
def addOne (m : Bytes) : Bytes32 := padTo 32 (leBytes 32 ((leNat m + 1) % 10 ^ 76))

/-- The root and the hashed strings of the request. -/
def longExtraRun (x : UInt8) : Except Fault (Bytes32 × Statics) :=
  htrNewPayloadRequest addOne .bits64 (longExtraInput x).newPayloadRequest {}

theorem outcome_longExtraBytes :
    (decodeStatelessInputOf .bits64 .legacy0001 (.ofBytes (longExtraBytes 1))).outcome =
        .ok (longExtraInput 1) ∧
      (decodeStatelessInputOf .bits64 .legacy0001 (.ofBytes (longExtraBytes 2))).outcome =
        .ok (longExtraInput 2) :=
  ⟨Dec.outcome_eq_ok.mpr ⟨by decide +kernel, rfl⟩, Dec.outcome_eq_ok.mpr ⟨by decide +kernel, rfl⟩⟩

/-- Two inputs with items in their lists, which differ in the block hash. -/
def blockHashBytes (x : UInt8) : Bytes :=
  serialize (inputType .legacy0001 .electraFulu .flat) (legacyBlock (padTo 32 [x]) [[2, 3], [4]] [])

def blockHashInput (x : UInt8) : SszStatelessInput :=
  (decodeStatelessInputOf .bits64 .legacy0001 (.ofBytes (blockHashBytes x))).val

theorem outcome_blockHashBytes :
    (decodeStatelessInputOf .bits64 .legacy0001 (.ofBytes (blockHashBytes 1))).outcome =
        .ok (blockHashInput 1) ∧
      (decodeStatelessInputOf .bits64 .legacy0001 (.ofBytes (blockHashBytes 2))).outcome =
        .ok (blockHashInput 2) :=
  ⟨Dec.outcome_eq_ok.mpr ⟨by decide +kernel, rfl⟩, Dec.outcome_eq_ok.mpr ⟨by decide +kernel, rfl⟩⟩

theorem not_agree_blockHash :
    ¬AgreeRequest (blockHashInput 1).newPayloadRequest (blockHashInput 2).newPayloadRequest := by
  intro h
  obtain ⟨⟨-, -, -, -, -, -, -, -, -, -, -, -, hhash, -⟩, -⟩ := h
  simp only [Agree] at hhash
  revert hhash
  decide +kernel

theorem ok_of_isOk {α : Type} {m : Except Fault α} (h : m.isOk = true) : ∃ a, m = .ok a := by
  cases m with
  | ok a => exact ⟨a, rfl⟩
  | error e => cases h

/-- The condition holds of the two inputs that differ in the block hash, and fails for the two
with extra data beyond its limit. -/
theorem htrNewPayloadRequest_binding_blockHash :
    (∃ root₁ st₁ root₂ st₂,
      htrNewPayloadRequest addOne .bits64 (blockHashInput 1).newPayloadRequest {} = .ok (root₁, st₁) ∧
      htrNewPayloadRequest addOne .bits64 (blockHashInput 2).newPayloadRequest {} = .ok (root₂, st₂) ∧
      (root₁ = root₂ →
        SameRequest (blockHashInput 1).newPayloadRequest (blockHashInput 2).newPayloadRequest ∨
          Collision addOne (st₁.calls ++ st₂.calls))) ∧
    ∃ root₁ st₁ root₂ st₂, longExtraRun 1 = .ok (root₁, st₁) ∧ longExtraRun 2 = .ok (root₂, st₂) ∧
      ((root₁ = root₂ → SameRequest (longExtraInput 1).newPayloadRequest
          (longExtraInput 2).newPayloadRequest ∨ Collision addOne (st₁.calls ++ st₂.calls)) ↔
        ((AgreeRequest (longExtraInput 1).newPayloadRequest (longExtraInput 2).newPayloadRequest →
            SameRequest (longExtraInput 1).newPayloadRequest (longExtraInput 2).newPayloadRequest) ∨
          Collision addOne (st₁.calls ++ st₂.calls))) := by
  constructor
  · obtain ⟨p₁, h₁⟩ := ok_of_isOk (m := htrNewPayloadRequest addOne .bits64
      (blockHashInput 1).newPayloadRequest {}) (by decide +kernel)
    obtain ⟨p₂, h₂⟩ := ok_of_isOk (m := htrNewPayloadRequest addOne .bits64
      (blockHashInput 2).newPayloadRequest {}) (by decide +kernel)
    exact ⟨p₁.1, p₁.2, p₂.1, p₂.2, h₁, h₂, (htrNewPayloadRequest_binding addOne .bits64 .legacy0001
      outcome_blockHashBytes.1 (by decide +kernel) outcome_blockHashBytes.2 (by decide +kernel)
      (by decide +kernel) h₁ h₂).mpr (.inl fun hagree => absurd hagree not_agree_blockHash)⟩
  · obtain ⟨p₁, h₁⟩ := ok_of_isOk (m := longExtraRun 1) (by decide +kernel)
    obtain ⟨p₂, h₂⟩ := ok_of_isOk (m := longExtraRun 2) (by decide +kernel)
    exact ⟨p₁.1, p₁.2, p₂.1, p₂.2, h₁, h₂, htrNewPayloadRequest_binding addOne .bits64 .legacy0001
      outcome_longExtraBytes.1 (by decide +kernel) outcome_longExtraBytes.2 (by decide +kernel)
      (by decide +kernel) h₁ h₂⟩

/-- The two requests differ, have one root, and no hashed strings collide. -/
theorem htrNewPayloadRequest_binding_counterexample :
    ((longExtraInput 1).valid = true ∧ (longExtraInput 2).valid = true) ∧
      ¬SameRequest (longExtraInput 1).newPayloadRequest (longExtraInput 2).newPayloadRequest ∧
      ∃ root calls,
        (longExtraRun 1).toOption.map (fun p => (p.1, p.2.calls)) = some (root, calls) ∧
        (longExtraRun 2).toOption.map (fun p => (p.1, p.2.calls)) = some (root, calls) ∧
        ¬Collision addOne (calls ++ calls) := by
  refine ⟨by decide +kernel, ?_, ?_⟩
  · intro h
    have hextra := congrArg (fun v => v.1.2.2.2.2.2.2.2.2.2.2.1) h.val
    revert hextra
    decide +kernel
  · have hsome : ((longExtraRun 1).toOption.map fun p => (p.1, p.2.calls)).isSome = true := by
      decide +kernel
    obtain ⟨⟨root, calls⟩, hrun⟩ := Option.isSome_iff_exists.mp hsome
    have hsame : (longExtraRun 2).toOption.map (fun p => (p.1, p.2.calls)) =
        (longExtraRun 1).toOption.map (fun p => (p.1, p.2.calls)) := by
      decide +kernel
    have hdistinct : ∀ p, (longExtraRun 1).toOption.map (fun p => (p.1, p.2.calls)) = some p →
        (p.2.dedup.map addOne).Nodup := by
      decide +kernel
    refine ⟨root, calls, hrun, hsame.trans hrun, ?_⟩
    rintro ⟨x, hx, y, hy, hne, hxy⟩
    rw [List.mem_append, or_self] at hx hy
    exact hne (List.inj_on_of_nodup_map (hdistinct _ hrun) (List.mem_dedup.mpr hx)
      (List.mem_dedup.mpr hy) hxy)

end StatelessGuest
