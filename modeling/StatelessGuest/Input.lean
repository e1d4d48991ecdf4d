import StatelessGuest.ChainConfig
import StatelessGuest.Sections

/-!
# Decoding the input

The two input decoders check the four offsets of the input, then decode the
chain config, and go on to the other three sections if it is accepted.

## Main definitions

* `InputHead` — the check on the four offsets.
* `configSpan`, `requestSpan`, `witnessSpan`, `keysSpan` — the four sections.
* `decodeKeys` — the public keys, which each schema lays out in its own way.

## Main results

* `val_decodeStatelessInputOf`, `every_decodeStatelessInputOf` — the result and
  the accesses of both decoders, section by section.
* `valid_decodeStatelessInputOf` — when an input is accepted.
-/

namespace StatelessGuest

open Ssz SszType

variable (w : WordSize)

/-- The input decoder of a schema. -/
def decodeStatelessInputOf : InputSchema → ByteSpan → Dec SszStatelessInput
  | .legacy0001 => decodeStatelessInput w
  | .amsterdam01 => decodeStatelessInputAmsterdam01 w

/-! ### The four sections -/

/-- The four offsets are in order, and the first is that of the head's end.  The
end of the input is truncated to 32 bits, as the offsets are. -/
def InputHead (b : Bytes) : Prop :=
  16 ≤ b.length ∧ u32At b 0 = 16 ∧ 16 ≤ u32At b 4 ∧ u32At b 4 ≤ u32At b 8 ∧
    u32At b 8 ≤ u32At b 12 ∧ u32At b 12 ≤ b.length % 2 ^ 32

instance (b : Bytes) : Decidable (InputHead b) :=
  inferInstanceAs (Decidable (_ ∧ _ ∧ _ ∧ _ ∧ _ ∧ _))

variable (schema : InputSchema) (b : Bytes)

/-- The request section. -/
def requestSpan : ByteSpan := (ByteSpan.ofBytes b).cut (u32At b 0) (u32At b 4)

/-- The witness section. -/
def witnessSpan : ByteSpan := (ByteSpan.ofBytes b).cut (u32At b 4) (u32At b 8)

/-- The chain config section. -/
def configSpan : ByteSpan := (ByteSpan.ofBytes b).cut (u32At b 8) (u32At b 12)

/-- The public key section. -/
def keysSpan : ByteSpan := (ByteSpan.ofBytes b).cut (u32At b 12) (b.length % 2 ^ 32)

/-- The public keys: a table of byte lists under the legacy schema, vectors
under the Amsterdam one, which rejects a remainder. -/
def decodeKeys : InputSchema → ByteSpan → Dec (Option (List ByteSpan))
  | .legacy0001, pk => do return some (← decodeBytelistList w pk)
  | .amsterdam01, pk =>
      if pk.len % maxBytesPerPublicKey ≠ 0 then pure none
      else do return some (← Dec.forRange (pk.len / maxBytesPerPublicKey) fun i =>
        pk.slice (w.mul i maxBytesPerPublicKey) maxBytesPerPublicKey)

/-- The payload shape that the schema or the fork dictates. -/
def inputShape (cc : SszChainConfig) : PayloadShape :=
  match schema with
  | .legacy0001 => payloadShapeForFork cc.fork
  | .amsterdam01 => .gloas

/-- The decoded chain config. -/
def configOf : SszChainConfig := (decodeChainConfigOf w schema (configSpan b)).val

/-- The request decoder, at the shape the chain config dictates. -/
def decodeRequest : Dec SszNewPayloadRequest :=
  decodeNewPayloadRequest w (requestSpan b) (inputShape schema (configOf w schema b))
    schema.builderRequests schema.balLimit

/-- The decoders go past the chain config. -/
def ConfigOk : Prop :=
  (configOf w schema b).valid = true ∧ inputShape schema (configOf w schema b) ≠ .unsupported

/-- The decoders go past the request. -/
def RequestOk : Prop := (decodeRequest w schema b).val.executionPayload.shape ≠ .unsupported

instance : Decidable (ConfigOk w schema b) := inferInstanceAs (Decidable (_ ∧ _))

instance : Decidable (RequestOk w schema b) := inferInstanceAs (Decidable (¬_))

/-! ### The result and the accesses -/

/-- What an input decoder returns once the offsets are checked. -/
def inputOf : SszStatelessInput :=
  let si : SszStatelessInput := { schema, chainConfig := configOf w schema b }
  if ¬ConfigOk w schema b then si
  else
    let si := { si with newPayloadRequest := (decodeRequest w schema b).val }
    if ¬RequestOk w schema b then si
    else
      let si := { si with witness := (decodeWitness w (witnessSpan b)).val }
      match (decodeKeys w schema (keysSpan b)).val with
      | none => si
      | some publicKeys => { si with publicKeys, valid := true }

variable {b}

/-- The head as the decoders check it. -/
theorem inputHead_iff : InputHead b ↔ ¬b.length < statelessInputFixed ∧
    ¬(u32At b 0 ≠ statelessInputFixed ∨ u32At b 4 < u32At b 0 ∨ u32At b 8 < u32At b 4 ∨
      u32At b 12 < u32At b 8 ∨ u32At b 12 > b.length % 2 ^ 32) := by
  simp only [InputHead, statelessInputFixed]
  omega

/-- An input with a bad head is rejected. -/
theorem val_decodeStatelessInputOf_of_not_head (h : ¬InputHead b) :
    (decodeStatelessInputOf w schema (.ofBytes b)).val = { schema } := by
  rw [inputHead_iff, not_and, not_not] at h
  rcases Decidable.em (b.length < statelessInputFixed) with hlen | hlen
  · cases schema with
    | legacy0001 =>
      rw [decodeStatelessInputOf, decodeStatelessInput, ByteSpan.len_ofBytes, if_pos hlen,
        Dec.val_pure]
    | amsterdam01 =>
      rw [decodeStatelessInputOf, decodeStatelessInputAmsterdam01, ByteSpan.len_ofBytes,
        if_pos hlen, Dec.val_pure]
  · cases schema with
    | legacy0001 =>
      rw [decodeStatelessInputOf, decodeStatelessInput, ByteSpan.len_ofBytes, if_neg hlen]
      simp only [Dec.val_bind, ByteSpan.val_readU32le, ByteSpan.ptr_ofBytes]
      rw [if_pos (h hlen), Dec.val_pure]
    | amsterdam01 =>
      rw [decodeStatelessInputOf, decodeStatelessInputAmsterdam01, ByteSpan.len_ofBytes,
        if_neg hlen]
      simp only [Dec.val_bind, ByteSpan.val_readU32le, ByteSpan.ptr_ofBytes]
      rw [if_pos (h hlen), Dec.val_pure]

/-- **What an input decoder returns.** -/
theorem val_decodeStatelessInputOf (h : InputHead b) :
    (decodeStatelessInputOf w schema (.ofBytes b)).val = inputOf w schema b := by
  rw [inputHead_iff] at h
  obtain ⟨hlen, hoff⟩ := h
  cases schema with
  | legacy0001 =>
    have hcc : (decodeChainConfig w ((ByteSpan.ofBytes b).cut (u32At b 8) (u32At b 12))).val =
        configOf w .legacy0001 b := rfl
    have hreq : decodeNewPayloadRequest w ((ByteSpan.ofBytes b).cut (u32At b 0) (u32At b 4))
        (payloadShapeForFork (configOf w .legacy0001 b).fork) false maxBlockAccessListBytes =
          decodeRequest w .legacy0001 b := rfl
    rw [decodeStatelessInputOf, decodeStatelessInput, ByteSpan.len_ofBytes, if_neg hlen]
    simp only [Dec.val_bind, ByteSpan.val_readU32le, ByteSpan.ptr_ofBytes]
    rw [if_neg hoff]
    simp only [Dec.val_bind, val_between, hcc]
    unfold inputOf
    -- The decoder checks the config and its fork one after the other, `ConfigOk` at once.
    rcases Decidable.em (ConfigOk w .legacy0001 b) with hc | hc
    · have hs : payloadShapeForFork (configOf w .legacy0001 b).fork ≠ .unsupported := hc.2
      rw [if_neg (by rw [hc.1]; exact Bool.false_ne_true), if_neg hs, if_neg (not_not.mpr hc)]
      simp only [Dec.val_bind, val_between, hreq]
      rcases Decidable.em (RequestOk w .legacy0001 b) with hr | hr
      · rw [if_neg hr, if_neg (not_not.mpr hr)]
        rfl
      · rw [if_pos (not_not.mp hr), if_pos hr]
        rfl
    · rw [if_pos hc]
      rcases Decidable.em ((configOf w .legacy0001 b).valid = true) with hv | hv
      · have hs : payloadShapeForFork (configOf w .legacy0001 b).fork = .unsupported :=
          not_not.mp fun hs => hc ⟨hv, hs⟩
        rw [if_neg (by rw [hv]; exact Bool.false_ne_true), if_pos hs, Dec.val_pure]
      · rw [if_pos (by simpa using hv), Dec.val_pure]
  | amsterdam01 =>
    have hcc : (decodeChainConfigAmsterdam01 w
        ((ByteSpan.ofBytes b).cut (u32At b 8) (u32At b 12))).val = configOf w .amsterdam01 b := rfl
    have hreq : decodeNewPayloadRequest w ((ByteSpan.ofBytes b).cut (u32At b 0) (u32At b 4))
        .gloas true balHtrLimitAmsterdam01 = decodeRequest w .amsterdam01 b := rfl
    rw [decodeStatelessInputOf, decodeStatelessInputAmsterdam01, ByteSpan.len_ofBytes,
      if_neg hlen]
    simp only [Dec.val_bind, ByteSpan.val_readU32le, ByteSpan.ptr_ofBytes]
    rw [if_neg hoff]
    simp only [Dec.val_bind, val_between, hcc]
    unfold inputOf
    -- Here the payload shape does not depend on the fork, so only the config is checked.
    rcases Decidable.em (ConfigOk w .amsterdam01 b) with hc | hc
    · rw [if_neg (by rw [hc.1]; exact Bool.false_ne_true), if_neg (not_not.mpr hc)]
      simp only [Dec.val_bind, val_between, hreq]
      rcases Decidable.em (RequestOk w .amsterdam01 b) with hr | hr
      · rw [if_neg hr, if_neg (not_not.mpr hr)]
        have hkeys : (ByteSpan.ofBytes b).cut (u32At b 12) (b.length % 2 ^ 32) = keysSpan b := rfl
        simp only [Dec.val_bind, val_between, decodeKeys, hkeys]
        -- The keys are one flat string, refused when it leaves a remainder.
        rcases Decidable.em ((keysSpan b).len % maxBytesPerPublicKey ≠ 0) with hk | hk
        · rw [if_pos hk, if_pos hk]
          rfl
        · rw [if_neg hk, if_neg hk]
          rfl
      · rw [if_pos (not_not.mp hr), if_pos hr]
        rfl
    · have hv : (configOf w .amsterdam01 b).valid ≠ true :=
        fun hv => hc ⟨hv, PayloadShape.noConfusion⟩
      rw [if_pos hc, if_pos (by simpa using hv), Dec.val_pure]

variable {P : Access → Prop}

/-- **The accesses of an input decoder.** -/
theorem every_decodeStatelessInputOf (h : InputHead b) :
    (decodeStatelessInputOf w schema (.ofBytes b)).Every P ↔
      (P (.read b.length b.length 0 4) ∧ P (.read b.length b.length 4 4) ∧
        P (.read b.length b.length 8 4) ∧ P (.read b.length b.length 12 4)) ∧
      (((ByteSpan.ofBytes b).between (u32At b 8) (u32At b 12)).Every P ∧
        (decodeChainConfigOf w schema (configSpan b)).Every P) ∧
      (ConfigOk w schema b →
        (((ByteSpan.ofBytes b).between (u32At b 0) (u32At b 4)).Every P ∧
          (decodeRequest w schema b).Every P) ∧
        (RequestOk w schema b →
          (((ByteSpan.ofBytes b).between (u32At b 4) (u32At b 8)).Every P ∧
            (decodeWitness w (witnessSpan b)).Every P) ∧
          ((ByteSpan.ofBytes b).between (u32At b 12) (b.length % 2 ^ 32)).Every P ∧
            (decodeKeys w schema (keysSpan b)).Every P)) := by
  rw [inputHead_iff] at h
  obtain ⟨hlen, hoff⟩ := h
  cases schema with
  | legacy0001 =>
    have hcc : (decodeChainConfig w ((ByteSpan.ofBytes b).cut (u32At b 8) (u32At b 12))).val =
        configOf w .legacy0001 b := rfl
    have hreq : decodeNewPayloadRequest w ((ByteSpan.ofBytes b).cut (u32At b 0) (u32At b 4))
        (payloadShapeForFork (configOf w .legacy0001 b).fork) false maxBlockAccessListBytes =
          decodeRequest w .legacy0001 b := rfl
    rw [decodeStatelessInputOf, decodeStatelessInput, ByteSpan.len_ofBytes, if_neg hlen]
    simp only [Dec.every_bind, ByteSpan.every_readU32le, ByteSpan.val_readU32le,
      ByteSpan.ptr_ofBytes, ByteSpan.len_ofBytes]
    rw [if_neg hoff]
    simp only [Dec.every_bind, val_between, hcc]
    -- The cases are those of the value: what a failed check skips is not accessed.
    rcases Decidable.em (ConfigOk w .legacy0001 b) with hc | hc
    · have hs : payloadShapeForFork (configOf w .legacy0001 b).fork ≠ .unsupported := hc.2
      rw [if_neg (by rw [hc.1]; exact Bool.false_ne_true), if_neg hs]
      simp only [Dec.every_bind, val_between, hreq, hc, forall_const]
      rcases Decidable.em (RequestOk w .legacy0001 b) with hr | hr
      · rw [if_neg hr]
        simp only [Dec.every_bind, Dec.every_pure, val_between, hr, forall_const, decodeKeys,
          and_true, and_assoc]
        rfl
      · rw [if_pos (not_not.mp hr)]
        simp only [Dec.every_pure, hr, false_imp_iff, and_true, and_assoc]
        rfl
    · simp only [hc, false_imp_iff, and_true]
      rcases Decidable.em ((configOf w .legacy0001 b).valid = true) with hv | hv
      · have hs : payloadShapeForFork (configOf w .legacy0001 b).fork = .unsupported :=
          not_not.mp fun hs => hc ⟨hv, hs⟩
        rw [if_neg (by rw [hv]; exact Bool.false_ne_true), if_pos hs]
        simp only [Dec.every_pure, and_true, and_assoc]
        rfl
      · rw [if_pos (by simpa using hv)]
        simp only [Dec.every_pure, and_true, and_assoc]
        rfl
  | amsterdam01 =>
    have hcc : (decodeChainConfigAmsterdam01 w
        ((ByteSpan.ofBytes b).cut (u32At b 8) (u32At b 12))).val = configOf w .amsterdam01 b := rfl
    have hreq : decodeNewPayloadRequest w ((ByteSpan.ofBytes b).cut (u32At b 0) (u32At b 4))
        .gloas true balHtrLimitAmsterdam01 = decodeRequest w .amsterdam01 b := rfl
    rw [decodeStatelessInputOf, decodeStatelessInputAmsterdam01, ByteSpan.len_ofBytes,
      if_neg hlen]
    simp only [Dec.every_bind, ByteSpan.every_readU32le, ByteSpan.val_readU32le,
      ByteSpan.ptr_ofBytes, ByteSpan.len_ofBytes]
    rw [if_neg hoff]
    simp only [Dec.every_bind, val_between, hcc]
    rcases Decidable.em (ConfigOk w .amsterdam01 b) with hc | hc
    · rw [if_neg (by rw [hc.1]; exact Bool.false_ne_true)]
      simp only [Dec.every_bind, val_between, hreq, hc, forall_const]
      rcases Decidable.em (RequestOk w .amsterdam01 b) with hr | hr
      · have hkeys : (ByteSpan.ofBytes b).cut (u32At b 12) (b.length % 2 ^ 32) = keysSpan b := rfl
        rw [if_neg hr]
        simp only [Dec.every_bind, val_between, hr, forall_const, decodeKeys, hkeys, and_assoc]
        -- A remainder is found before any key is cut out.
        rcases Decidable.em ((keysSpan b).len % maxBytesPerPublicKey ≠ 0) with hk | hk
        · rw [if_pos hk, if_pos hk]
          simp only [Dec.every_pure, and_true]
          rfl
        · rw [if_neg hk, if_neg hk]
          simp only [Dec.every_bind, Dec.every_pure, and_true]
          rfl
      · rw [if_pos (not_not.mp hr)]
        simp only [Dec.every_pure, hr, false_imp_iff, and_true, and_assoc]
        rfl
    · have hv : (configOf w .amsterdam01 b).valid ≠ true :=
        fun hv => hc ⟨hv, PayloadShape.noConfusion⟩
      rw [if_pos (by simpa using hv)]
      simp only [Dec.every_pure, hc, false_imp_iff, and_true, and_assoc]
      rfl

/-- **When an input is accepted**: its offsets, its chain config and its payload
section pass the checks, and the Amsterdam keys leave no remainder. -/
theorem valid_decodeStatelessInputOf :
    (decodeStatelessInputOf w schema (.ofBytes b)).val.valid = true ↔
      InputHead b ∧ ConfigOk w schema b ∧ RequestOk w schema b ∧
        (decodeKeys w schema (keysSpan b)).val.isSome = true := by
  rcases Decidable.em (InputHead b) with h | h
  · rw [val_decodeStatelessInputOf w schema h, inputOf]
    rcases Decidable.em (ConfigOk w schema b) with hc | hc
    · rw [if_neg (not_not.mpr hc)]
      rcases Decidable.em (RequestOk w schema b) with hr | hr
      · simp only [hr, hc, h, not_true, if_false, true_and]
        cases (decodeKeys w schema (keysSpan b)).val with
        | none => simp
        | some ks => simp
      · simp [hr]
    · rw [if_pos hc]
      simp [hc]
  · rw [val_decodeStatelessInputOf_of_not_head w schema h]
    simp [h]

/-- The parts of an accepted input. -/
theorem input_of_valid {si : SszStatelessInput}
    (hok : (decodeStatelessInputOf w schema (.ofBytes b)).outcome = .ok si)
    (hvalid : si.valid = true) :
    InputHead b ∧ ConfigOk w schema b ∧ RequestOk w schema b ∧
      si.chainConfig = configOf w schema b ∧ si.newPayloadRequest = (decodeRequest w schema b).val ∧
      si.witness = (decodeWitness w (witnessSpan b)).val ∧
      (decodeKeys w schema (keysSpan b)).val = some si.publicKeys ∧ si.schema = schema := by
  obtain ⟨-, rfl⟩ := Dec.outcome_eq_ok.mp hok
  obtain ⟨hh, hc, hr, hk⟩ := (valid_decodeStatelessInputOf w schema).mp hvalid
  refine ⟨hh, hc, hr, ?_⟩
  obtain ⟨ks, hks⟩ := Option.isSome_iff_exists.mp hk
  rw [val_decodeStatelessInputOf w schema hh, inputOf, if_neg (not_not.mpr hc)]
  simp only [hr, not_true, if_false, hks, and_self]

/-! ### The shape of an accepted input -/

/-- A payload carries the shape it was decoded at, unless it is too short. -/
theorem shape_decodeExecutionPayload (s : ByteSpan) (shape : PayloadShape) :
    (decodeExecutionPayload w s shape).val.shape =
      if s.len < payloadFixed shape then .unsupported else shape := by
  unfold decodeExecutionPayload
  split
  · rfl
  · unfold decodePayloadFields
    simp only [Dec.val_bind]
    split
    · simp only [Dec.val_bind, Dec.val_pure, decodePayloadHead]
    · simp only [Dec.val_bind, Dec.val_pure, decodePayloadHead]

/-- The requests carry the layout they were decoded at, however short they are. -/
theorem hasBuilderRequests_decodeExecutionRequests (s : ByteSpan) (builderRequests : Bool) :
    (decodeExecutionRequests w s builderRequests).val.hasBuilderRequests = builderRequests := by
  unfold decodeExecutionRequests
  split
  · rfl
  · cases builderRequests with
    | true => simp only [if_true, decodeFiveLists, Dec.val_bind, Dec.val_pure]
    | false =>
      simp only [Bool.false_eq_true, if_false, decodeThreeLists, Dec.val_bind, Dec.val_pure]

/-- A request section with room for its head carries the shape, the limit and
the layout it was decoded at, unless its payload is too short. -/
theorem shape_decodeNewPayloadRequest {s : ByteSpan} {shape : PayloadShape}
    {builderRequests : Bool} {balLimit : ℕ} (hlen : ¬s.len < nprFixed)
    (hok : (decodeNewPayloadRequest w s shape builderRequests balLimit).val.executionPayload.shape
      ≠ .unsupported) :
    (decodeNewPayloadRequest w s shape builderRequests balLimit).val.executionPayload.shape = shape ∧
      (decodeNewPayloadRequest w s shape builderRequests balLimit).val.executionPayload.balHtrLimit =
        balLimit ∧
      (decodeNewPayloadRequest w s shape builderRequests
        balLimit).val.executionRequests.hasBuilderRequests = builderRequests := by
  rw [decodeNewPayloadRequest, if_neg hlen] at hok ⊢
  simp only [Dec.val_bind, Dec.val_pure, hasBuilderRequests_decodeExecutionRequests,
    shape_decodeExecutionPayload, and_true] at hok ⊢
  split at hok
  · exact absurd rfl hok
  · rename_i h
    exact if_neg h

/-- The sections of an input whose offsets are in order. -/
theorem sections_of_head (h : InputHead b) :
    ((requestSpan b).bytes = window b 16 (u32At b 4 - 16) ∧
      (requestSpan b).len = u32At b 4 - 16 ∧ (requestSpan b).InBounds) ∧
    ((witnessSpan b).bytes = window b (u32At b 4) (u32At b 8 - u32At b 4) ∧
      (witnessSpan b).len = u32At b 8 - u32At b 4 ∧ (witnessSpan b).InBounds) ∧
    ((configSpan b).bytes = window b (u32At b 8) (u32At b 12 - u32At b 8) ∧
      (configSpan b).len = u32At b 12 - u32At b 8 ∧ (configSpan b).InBounds) ∧
    ((keysSpan b).bytes = window b (u32At b 12) (b.length % 2 ^ 32 - u32At b 12) ∧
      (keysSpan b).len = b.length % 2 ^ 32 - u32At b 12 ∧ (keysSpan b).InBounds) := by
  obtain ⟨-, h₁, h₂, h₃, h₄, h₅⟩ := h
  have htotal : b.length % 2 ^ 32 ≤ b.length := Nat.mod_le _ _
  have hcut : ∀ {lo hi : ℕ}, lo ≤ hi → hi ≤ b.length % 2 ^ 32 →
      ((ByteSpan.ofBytes b).cut lo hi).bytes = window b lo (hi - lo) ∧
        ((ByteSpan.ofBytes b).cut lo hi).len = hi - lo ∧
        ((ByteSpan.ofBytes b).cut lo hi).InBounds := by
    intro lo hi hle hhi
    have hlt : hi < 2 ^ 32 := lt_of_le_of_lt hhi (Nat.mod_lt _ (by norm_num))
    obtain ⟨hb, hl, hin⟩ := cut_of_lt (s := .ofBytes b) hle (hhi.trans htotal) hlt
    exact ⟨by rw [hb, ByteSpan.bytes_ofBytes], hl, hin (ByteSpan.inBounds_ofBytes b)⟩
  have hreq := hcut h₂ (by omega)
  rw [requestSpan, h₁]
  exact ⟨hreq, hcut h₃ (by omega), hcut h₄ (by omega), hcut h₅ le_rfl⟩

variable (b) in
/-- The fork number in the chain config section of a legacy input. -/
def forkNumber : BitVec 64 := BitVec.ofNat 64 (leNat (window b (u32At b 8 + 12) 8))

/-- The fork of an accepted legacy chain config. -/
theorem fork_configOf (h : InputHead b) (hvalid : (configOf w .legacy0001 b).valid = true) :
    (configOf w .legacy0001 b).fork = forkNumber b := by
  obtain ⟨-, -, ⟨hbytes, hlen, -⟩, -⟩ := sections_of_head h
  have hs : (configSpan b).len < w.modulus := by
    have := w.le_modulus
    have := u32At_lt b 12
    omega
  have hacc := acceptsCanonical w .legacy0001 hs
  have hcan := hacc.valid.mp hvalid
  have hval := hacc.val hvalid
  have hfork : (forkConfigType .legacy0001).isFixed = false := rfl
  have hact : forkActivationType.isFixed = false := rfl
  have hblob : (SszType.list blobScheduleType 1).isFixed = false := rfl
  have h₁ := (canonical_u64_field hfork _).mp hcan
  have h₂ := (canonical_u64_fields hact hblob _).mp h₁.2.2
  have hfc : SszType.read (chainConfigType .legacy0001) (configSpan b).bytes = _ :=
    read_u64_field hfork h₁.2.1
  have hfc' : SszType.read (forkConfigType .legacy0001)
      (window (configSpan b).bytes 12 ((configSpan b).bytes.length - 12)) = _ :=
    read_u64_fields hact hblob h₂.2.1
  rw [hfc, hfc'] at hval
  have hf := congrArg (fun v => v.2.1.1) hval
  have hread : (configOf w .legacy0001 b).fork = BitVec.ofNat 64 (leNat (window (window
      (configSpan b).bytes 12 ((configSpan b).bytes.length - 12)) 0 8)) := hf
  have hroom := h₂.1
  rw [length_window, ByteSpan.length_bytes] at hroom
  rw [hread, forkNumber, window_window (by rw [ByteSpan.length_bytes]; omega), hbytes,
    window_window (by omega)]

variable (b) in
/-- The request section has room for its head, or the fork dictates the shape
that a section without one is left with. -/
def KeepsShape : Prop :=
  16 + nprFixed ≤ u32At b 4 ∨
    (schema = .legacy0001 ∧ payloadShapeForFork (forkNumber b) = .electraFulu)

/-- **The shape of an accepted input.**  It is the shape, limit and request
layout that the schema and the fork dictate exactly when the request section has
room for its head, or the fork dictates what the decoder leaves in place of a
missing request. -/
theorem decodeStatelessInput_shape {si : SszStatelessInput}
    (hok : (decodeStatelessInputOf w schema (.ofBytes b)).outcome = .ok si)
    (hvalid : si.valid = true) :
    (si.newPayloadRequest.executionPayload.shape = inputShape schema si.chainConfig ∧
        si.newPayloadRequest.executionPayload.balHtrLimit = schema.balLimit ∧
        si.newPayloadRequest.executionRequests.hasBuilderRequests = schema.builderRequests) ↔
      KeepsShape schema b := by
  obtain ⟨hhead, hc, hr, hcc, hreq, -, -, -⟩ := input_of_valid w schema hok hvalid
  have hlen := (sections_of_head hhead).1.2.1
  have h16 : 16 ≤ u32At b 4 := hhead.2.2.1
  rw [hcc, hreq]
  rcases Decidable.em ((requestSpan b).len < nprFixed) with hshort | hlong
  · -- The section is skipped, and the request is the default one.
    have hval : (decodeRequest w schema b).val = {} := by
      rw [decodeRequest, decodeNewPayloadRequest, if_pos hshort, Dec.val_pure]
    have hbad : ¬16 + nprFixed ≤ u32At b 4 := by
      rw [hlen] at hshort
      omega
    rw [hval, KeepsShape]
    simp only [hbad, false_or]
    cases schema with
    | legacy0001 =>
      rw [← fork_configOf w hhead hc.1]
      simp only [inputShape, InputSchema.balLimit, InputSchema.builderRequests, and_true, true_and]
      exact eq_comm
    | amsterdam01 =>
      simp [inputShape]
  · have hgood : 16 + nprFixed ≤ u32At b 4 := by
      rw [hlen] at hlong
      omega
    exact ⟨fun _ => Or.inl hgood, fun _ => shape_decodeNewPayloadRequest w hlong hr⟩

/-- An Amsterdam input whose request and witness sections are empty. -/
def emptyRequestInput : Bytes :=
  [16, 0, 0, 0, 16, 0, 0, 0, 16, 0, 0, 0, 40, 0, 0, 0] ++
    [1, 0, 0, 0, 0, 0, 0, 0, 12, 0, 0, 0, 4, 0, 0, 0, 8, 0, 0, 0, 8, 0, 0, 0]

/-- An Amsterdam input with an empty payload and the given list of deposits. -/
def depositsInput (deposits : Bytes) : Bytes :=
  leBytes 4 16 ++ leBytes 4 (620 + deposits.length) ++ leBytes 4 (620 + deposits.length) ++
    leBytes 4 (644 + deposits.length) ++
    (leBytes 4 44 ++ leBytes 4 584 ++ List.replicate 32 0 ++ leBytes 4 584 ++
      List.replicate 540 0 ++ (leBytes 4 20 ++ leBytes 4 (20 + deposits.length) ++
        leBytes 4 (20 + deposits.length) ++ leBytes 4 (20 + deposits.length) ++
        leBytes 4 (20 + deposits.length) ++ deposits)) ++
    [1, 0, 0, 0, 0, 0, 0, 0, 12, 0, 0, 0, 4, 0, 0, 0, 8, 0, 0, 0, 8, 0, 0, 0]

/-- The shape that is dictated, with a request and without one. -/
theorem decodeStatelessInput_shape_depositsInput :
    ((decodeStatelessInputOf .bits32 .amsterdam01
          (.ofBytes (depositsInput []))).val.newPayloadRequest.executionPayload.shape = .gloas ∧
      (decodeStatelessInputOf .bits32 .amsterdam01
          (.ofBytes (depositsInput []))).val.newPayloadRequest.executionPayload.balHtrLimit =
            balHtrLimitAmsterdam01 ∧
      (decodeStatelessInputOf .bits32 .amsterdam01 (.ofBytes
          (depositsInput []))).val.newPayloadRequest.executionRequests.hasBuilderRequests = true) ∧
    ¬((decodeStatelessInputOf .bits32 .amsterdam01
          (.ofBytes emptyRequestInput)).val.newPayloadRequest.executionPayload.shape = .gloas ∧
      (decodeStatelessInputOf .bits32 .amsterdam01
          (.ofBytes emptyRequestInput)).val.newPayloadRequest.executionPayload.balHtrLimit =
            balHtrLimitAmsterdam01 ∧
      (decodeStatelessInputOf .bits32 .amsterdam01 (.ofBytes
          emptyRequestInput)).val.newPayloadRequest.executionRequests.hasBuilderRequests = true) := by
  have hok : (decodeStatelessInputOf .bits32 .amsterdam01 (.ofBytes (depositsInput []))).outcome =
      .ok (decodeStatelessInputOf .bits32 .amsterdam01 (.ofBytes (depositsInput []))).val :=
    Dec.outcome_eq_ok.mpr ⟨by decide +kernel, rfl⟩
  have hempty : (decodeStatelessInputOf .bits32 .amsterdam01 (.ofBytes emptyRequestInput)).outcome =
      .ok (decodeStatelessInputOf .bits32 .amsterdam01 (.ofBytes emptyRequestInput)).val :=
    Dec.outcome_eq_ok.mpr ⟨by decide +kernel, rfl⟩
  constructor
  · apply (decodeStatelessInput_shape .bits32 .amsterdam01 hok (by decide +kernel)).mpr
    exact .inl (by decide +kernel)
  · intro h
    have hkeeps := (decodeStatelessInput_shape .bits32 .amsterdam01 hempty (by decide +kernel)).mp h
    rcases hkeeps with hlong | ⟨hlegacy, -⟩
    · revert hlong
      decide +kernel
    · cases hlegacy

/-- The input is accepted, but its request has the shape and the limit of
another layout. -/
theorem decodeStatelessInput_shape_counterexample :
    ¬∀ (w : WordSize) (schema : InputSchema) (b : Bytes) (si : SszStatelessInput),
      (decodeStatelessInputOf w schema (.ofBytes b)).outcome = .ok si → si.valid = true →
        si.newPayloadRequest.executionPayload.shape = inputShape schema si.chainConfig ∧
        si.newPayloadRequest.executionPayload.balHtrLimit = schema.balLimit ∧
        si.newPayloadRequest.executionRequests.hasBuilderRequests = schema.builderRequests := by
  intro h
  have hok : (decodeStatelessInputOf .bits32 .amsterdam01 (.ofBytes emptyRequestInput)).outcome =
      .ok (decodeStatelessInputOf .bits32 .amsterdam01 (.ofBytes emptyRequestInput)).val :=
    Dec.outcome_eq_ok.mpr ⟨by decide +kernel, rfl⟩
  have hlimit := (h .bits32 .amsterdam01 emptyRequestInput _ hok (by decide +kernel)).2.1
  revert hlimit
  decide +kernel

end StatelessGuest
