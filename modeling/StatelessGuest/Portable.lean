import StatelessGuest.Binding
import StatelessGuest.Confinement

/-!
# The two word sizes

The guest is built for targets with 32-bit and with 64-bit sizes.  The decoders are
the same computation on both, for any input of less than `2 ^ 32` bytes: wherever
they subtract, a guard has compared the operands before.  The merkleizer multiplies
list lengths, and needs shorter inputs, whose spans lie inside the input.

## Main definitions

* `StatelessValidatorOutput`, `encodePublicValues` — the published result.

## Main results

* `decodeStatelessInputOf_wordSize` — **the decoders do not depend on the word size.**
* `wordSize_independent` — neither do the root and the published bytes.
-/

namespace StatelessGuest

open Ssz SszType

/-! ### The published result -/

/-- The result of a run: the root of the request, the verdict, and the chain config. -/
structure StatelessValidatorOutput where
  newPayloadRequestRoot : Bytes32 := zeroVec 32
  successfulValidation : Bool := false
  chainConfigSsz : ByteSpan := .null
  deriving DecidableEq

/-- `MAX_PUBLIC_VALUES_SIZE` -/
abbrev maxPublicValuesSize : ℕ := 256

/-- `encode_public_values` into a buffer of `cap` bytes; nothing where they do not fit. -/
def encodePublicValues (w : WordSize) (out : StatelessValidatorOutput) (cap : ℕ) :
    Except Fault Bytes :=
  let fixed := 32 + 1 + 4
  let total := w.add fixed out.chainConfigSsz.len
  if total > cap then .ok []
  else if out.chainConfigSsz.len ≤ out.chainConfigSsz.ptr.length ∧
      fixed + out.chainConfigSsz.len ≤ cap then
    .ok (out.newPayloadRequestRoot.toList ++ [if out.successfulValidation then 1 else 0] ++
      leBytes 4 fixed ++ out.chainConfigSsz.ptr.take out.chainConfigSsz.len)
  else .error .outOfBounds

/-! ### Sequences and loops -/

section

variable {α β : Type}

theorem bind_congr' {m m' : Dec α} {f g : α → Dec β} (hm : m = m') (h : f m.val = g m.val) :
    (m >>= f) = (m' >>= g) := by
  subst hm
  rw [Dec.bind_eq, Dec.bind_eq, Dec.bind, Dec.bind, h]

theorem forRange_congr {n : ℕ} {f g : ℕ → Dec α} (h : ∀ i, i < n → f i = g i) :
    Dec.forRange n f = Dec.forRange n g := by
  induction n with
  | zero => rfl
  | succ n ih =>
    rw [Dec.forRange, Dec.forRange, ih fun i hi => h i (by omega), h n (by omega)]

end

section

variable (w w' : WordSize)

/-- What a guard has compared is subtracted without wrapping. -/
theorem from_wordSize {s : ByteSpan} {off : ℕ} (hoff : off ≤ s.len) (hs : s.len < 2 ^ 32) :
    s.from w off = s.from w' off := by
  rw [ByteSpan.from, ByteSpan.from, w.sub_eq hoff hs, w'.sub_eq hoff hs]

/-! ### Items and lists -/

variable {w w'} in
theorem decodeFixedList_wordSize {α : Type} {s : ByteSpan} (hs : s.len < 2 ^ 32) {itemSize : ℕ}
    {fn fn' : ByteSpan → Dec α} (hfn : ∀ t : ByteSpan, t.len = itemSize → fn t = fn' t) :
    decodeFixedList w s itemSize fn = decodeFixedList w' s itemSize fn' := by
  apply forRange_congr
  intro i hi
  have hmul : i * itemSize < 2 ^ 32 := by
    have hle : i * itemSize ≤ s.len / itemSize * itemSize := Nat.mul_le_mul_right _ hi.le
    have := Nat.div_mul_le_self s.len itemSize
    omega
  rw [w.mul_eq hmul, w'.mul_eq hmul]
  exact bind_congr' rfl (hfn _ rfl)

theorem decodeWithdrawal_wordSize {s : ByteSpan} (h : s.len = sszWithdrawalFixedSize) :
    decodeWithdrawal w s = decodeWithdrawal w' s := by
  simp (disch := norm_num) only [decodeWithdrawal, Dec.bind_eq, Dec.bind, ByteSpan.from, h,
    WordSize.sub_eq]

theorem decodeDepositRequest_wordSize {s : ByteSpan} (h : s.len = sszDepositRequestFixedSize) :
    decodeDepositRequest w s = decodeDepositRequest w' s := by
  simp (disch := norm_num) only [decodeDepositRequest, Dec.bind_eq, Dec.bind, ByteSpan.from, h,
    WordSize.sub_eq]

theorem decodeWithdrawalRequest_wordSize {s : ByteSpan}
    (h : s.len = sszWithdrawalRequestFixedSize) :
    decodeWithdrawalRequest w s = decodeWithdrawalRequest w' s := by
  simp (disch := norm_num) only [decodeWithdrawalRequest, Dec.bind_eq, Dec.bind, ByteSpan.from, h,
    WordSize.sub_eq]

theorem decodeConsolidationRequest_wordSize {s : ByteSpan}
    (h : s.len = sszConsolidationRequestFixedSize) :
    decodeConsolidationRequest w s = decodeConsolidationRequest w' s := by
  simp (disch := norm_num) only [decodeConsolidationRequest, Dec.bind_eq, Dec.bind, ByteSpan.from,
    h, WordSize.sub_eq]

theorem decodeBuilderDepositRequest_wordSize {s : ByteSpan}
    (h : s.len = sszBuilderDepositRequestFixedSize) :
    decodeBuilderDepositRequest w s = decodeBuilderDepositRequest w' s := by
  simp (disch := norm_num) only [decodeBuilderDepositRequest, Dec.bind_eq, Dec.bind, ByteSpan.from,
    h, WordSize.sub_eq]

theorem decodeBuilderExitRequest_wordSize {s : ByteSpan}
    (h : s.len = sszBuilderExitRequestFixedSize) :
    decodeBuilderExitRequest w s = decodeBuilderExitRequest w' s := by
  simp (disch := norm_num) only [decodeBuilderExitRequest, Dec.bind_eq, Dec.bind, ByteSpan.from, h,
    WordSize.sub_eq]

theorem decodeBytelistList_wordSize {s : ByteSpan} (hs : s.len < 2 ^ 32) :
    decodeBytelistList w s = decodeBytelistList w' s := by
  unfold decodeBytelistList
  refine if_ctx_congr Iff.rfl (fun _ => rfl) fun _ => bind_congr' rfl ?_
  refine if_ctx_congr Iff.rfl (fun _ => rfl) fun hcond => forRange_congr ?_
  intro i hi
  have hmul : ∀ k, k ≤ i → w.mul k 4 = w'.mul k 4 := fun k hk => by
    rw [w.mul_eq (by omega), w'.mul_eq (by omega)]
  rw [bytelistPass, bytelistPass, hmul i le_rfl]
  refine bind_congr' rfl (bind_congr' ?_ rfl)
  unfold bytelistHi
  refine if_ctx_congr Iff.rfl ?_ fun _ => rfl
  intro hnext
  rw [w.mul_eq (by omega), w'.mul_eq (by omega)]

/-! ### The sections -/

theorem decodeExecutionRequests_wordSize (s : ByteSpan) (builderRequests : Bool) :
    decodeExecutionRequests w s builderRequests = decodeExecutionRequests w' s builderRequests := by
  have hdep : ∀ lo hi, decodeFixedList w (s.cut lo hi) sszDepositRequestFixedSize
      (decodeDepositRequest w) = decodeFixedList w' (s.cut lo hi) sszDepositRequestFixedSize
      (decodeDepositRequest w') := fun lo hi =>
    decodeFixedList_wordSize (sub32_lt _ _) fun _ => decodeDepositRequest_wordSize w w'
  have hwdr : ∀ lo hi, decodeFixedList w (s.cut lo hi) sszWithdrawalRequestFixedSize
      (decodeWithdrawalRequest w) = decodeFixedList w' (s.cut lo hi) sszWithdrawalRequestFixedSize
      (decodeWithdrawalRequest w') := fun lo hi =>
    decodeFixedList_wordSize (sub32_lt _ _) fun _ => decodeWithdrawalRequest_wordSize w w'
  have hcon : ∀ lo hi, decodeFixedList w (s.cut lo hi) sszConsolidationRequestFixedSize
      (decodeConsolidationRequest w) = decodeFixedList w' (s.cut lo hi)
      sszConsolidationRequestFixedSize (decodeConsolidationRequest w') := fun lo hi =>
    decodeFixedList_wordSize (sub32_lt _ _) fun _ => decodeConsolidationRequest_wordSize w w'
  have hbdp : ∀ lo hi, decodeFixedList w (s.cut lo hi) sszBuilderDepositRequestFixedSize
      (decodeBuilderDepositRequest w) = decodeFixedList w' (s.cut lo hi)
      sszBuilderDepositRequestFixedSize (decodeBuilderDepositRequest w') := fun lo hi =>
    decodeFixedList_wordSize (sub32_lt _ _) fun _ => decodeBuilderDepositRequest_wordSize w w'
  have hbex : ∀ lo hi, decodeFixedList w (s.cut lo hi) sszBuilderExitRequestFixedSize
      (decodeBuilderExitRequest w) = decodeFixedList w' (s.cut lo hi)
      sszBuilderExitRequestFixedSize (decodeBuilderExitRequest w') := fun lo hi =>
    decodeFixedList_wordSize (sub32_lt _ _) fun _ => decodeBuilderExitRequest_wordSize w w'
  unfold decodeExecutionRequests
  refine if_ctx_congr Iff.rfl (fun _ => rfl) fun _ => if_ctx_congr Iff.rfl ?_ ?_
  · intro _
    simp only [decodeFiveLists, Dec.bind_eq, Dec.bind, val_between, hdep, hwdr, hcon, hbdp, hbex]
  · intro _
    simp only [decodeThreeLists, Dec.bind_eq, Dec.bind, val_between, hdep, hwdr, hcon]

theorem decodePayloadLists_wordSize (s : ByteSpan) (offExtra offTx offWdl stop : ℕ) :
    decodePayloadLists w s offExtra offTx offWdl stop =
      decodePayloadLists w' s offExtra offTx offWdl stop := by
  have htxs := decodeBytelistList_wordSize w w' (s := s.cut offTx offWdl) (sub32_lt _ _)
  have hwdl : decodeFixedList w (s.cut offWdl stop) sszWithdrawalFixedSize (decodeWithdrawal w) =
      decodeFixedList w' (s.cut offWdl stop) sszWithdrawalFixedSize (decodeWithdrawal w') :=
    decodeFixedList_wordSize (sub32_lt _ _) fun _ => decodeWithdrawal_wordSize w w'
  simp only [decodePayloadLists, Dec.bind_eq, Dec.bind, val_between, htxs, hwdl]

theorem decodeExecutionPayload_wordSize (s : ByteSpan) (shape : PayloadShape) :
    decodeExecutionPayload w s shape = decodeExecutionPayload w' s shape := by
  have hlists : decodePayloadLists w = decodePayloadLists w' := by
    funext s offExtra offTx offWdl stop
    exact decodePayloadLists_wordSize w w' s offExtra offTx offWdl stop
  simp only [decodeExecutionPayload, decodePayloadFields, hlists]

theorem decodeNewPayloadRequest_wordSize (s : ByteSpan) (shape : PayloadShape)
    (builderRequests : Bool) (balLimit : ℕ) :
    decodeNewPayloadRequest w s shape builderRequests balLimit =
      decodeNewPayloadRequest w' s shape builderRequests balLimit := by
  have hhashes : ∀ lo hi, (Dec.forRange ((s.cut lo hi).len / 32) fun i =>
        (s.cut lo hi).read (w.mul i 32) 32) =
      Dec.forRange ((s.cut lo hi).len / 32) fun i => (s.cut lo hi).read (w'.mul i 32) 32 := by
    intro lo hi
    apply forRange_congr
    intro i hi'
    have hlt := sub32_lt hi lo
    rw [ByteSpan.len_cut] at hi'
    rw [w.mul_eq (by omega), w'.mul_eq (by omega)]
  simp only [decodeNewPayloadRequest, Dec.bind_eq, Dec.bind, val_between, hhashes,
    decodeExecutionPayload_wordSize w w', decodeExecutionRequests_wordSize w w']

theorem decodeWitness_wordSize (s : ByteSpan) : decodeWitness w s = decodeWitness w' s := by
  have hlist : ∀ lo hi, decodeBytelistList w (s.cut lo hi) = decodeBytelistList w' (s.cut lo hi) :=
    fun lo hi => decodeBytelistList_wordSize w w' (sub32_lt _ _)
  simp only [decodeWitness, Dec.bind_eq, Dec.bind, val_between, hlist]

/-! ### The chain config -/

theorem decodeForkActivation_wordSize {act : ByteSpan} (h : act.len < 2 ^ 32) :
    decodeForkActivation w act = decodeForkActivation w' act := by
  unfold decodeForkActivation
  refine if_ctx_congr Iff.rfl (fun _ => rfl) fun _ => bind_congr' rfl (bind_congr' rfl ?_)
  refine if_ctx_congr Iff.rfl (fun _ => rfl) fun hoff => bind_congr' rfl (bind_congr' ?_ rfl)
  rw [subSize, subSize, w.sub_eq (by omega) h, w'.sub_eq (by omega) h]

theorem decodeChainConfig_wordSize {s : ByteSpan} (h : s.len < 2 ^ 32) :
    decodeChainConfig w s = decodeChainConfig w' s := by
  unfold decodeChainConfig
  refine if_ctx_congr Iff.rfl (fun _ => rfl) fun _ => bind_congr' rfl (bind_congr' rfl ?_)
  refine if_ctx_congr Iff.rfl (fun _ => rfl) ?_
  intro hoff
  have hle : (s.readU32le 8).val ≤ s.len := by omega
  apply bind_congr' (from_wordSize w w' hle h)
  rw [from_wordSize w w' hle h]
  have hfc : (s.from w' (s.readU32le 8).val).val.len < 2 ^ 32 := by
    rw [ByteSpan.val_from, w'.sub_eq hle h]
    show s.len - _ < _
    omega
  generalize (s.from w' (s.readU32le 8).val).val = fc at hfc
  refine bind_congr' rfl (bind_congr' rfl (bind_congr' rfl ?_))
  refine if_ctx_congr Iff.rfl (fun _ => rfl) fun hbs => bind_congr' rfl (bind_congr' ?_ ?_)
  · exact decodeForkActivation_wordSize w w' (sub32_lt _ _)
  · rw [decodeForkActivation_wordSize w w' (sub32_lt _ _)]
    split
    · rfl
    · apply bind_congr' (from_wordSize w w' (by omega) hfc)
      rw [from_wordSize w w' (by omega) hfc]

theorem decodeChainConfigAmsterdam01_wordSize {s : ByteSpan} (h : s.len < 2 ^ 32) :
    decodeChainConfigAmsterdam01 w s = decodeChainConfigAmsterdam01 w' s := by
  unfold decodeChainConfigAmsterdam01
  refine if_ctx_congr Iff.rfl (fun _ => rfl) fun _ => bind_congr' rfl (bind_congr' rfl ?_)
  refine if_ctx_congr Iff.rfl (fun _ => rfl) ?_
  intro hoff
  have hle : (s.readU32le 8).val ≤ s.len := by omega
  apply bind_congr' (from_wordSize w w' hle h)
  rw [from_wordSize w w' hle h]
  have hfc : (s.from w' (s.readU32le 8).val).val.len < 2 ^ 32 := by
    rw [ByteSpan.val_from, w'.sub_eq hle h]
    show s.len - _ < _
    omega
  generalize (s.from w' (s.readU32le 8).val).val = fc at hfc
  refine bind_congr' rfl (if_ctx_congr Iff.rfl (fun _ => rfl) ?_)
  intro hact
  have hact' : (fc.readU32le 0).val ≤ fc.len := by omega
  apply bind_congr' (from_wordSize w w' hact' hfc)
  rw [from_wordSize w w' hact' hfc]
  have hlen : (fc.from w' (fc.readU32le 0).val).val.len < 2 ^ 32 := by
    rw [ByteSpan.val_from, w'.sub_eq hact' hfc]
    show fc.len - _ < _
    omega
  apply bind_congr' (decodeForkActivation_wordSize w w' hlen)
  rw [decodeForkActivation_wordSize w w' hlen]

/-! ### The input -/

/-- **The decoders do not depend on the word size.** -/
theorem decodeStatelessInputOf_wordSize (schema : InputSchema) {s : ByteSpan} :
    decodeStatelessInputOf w schema s = decodeStatelessInputOf w' schema s := by
  have hreq := fun s shape builderRequests balLimit =>
    decodeNewPayloadRequest_wordSize w w' s shape builderRequests balLimit
  have hwit := fun s => decodeWitness_wordSize w w' s
  have hkeys : ∀ lo hi, decodeBytelistList w (s.cut lo hi) = decodeBytelistList w' (s.cut lo hi) :=
    fun lo hi => decodeBytelistList_wordSize w w' (sub32_lt _ _)
  cases schema with
  | legacy0001 =>
    have hcc : ∀ lo hi, decodeChainConfig w (s.cut lo hi) = decodeChainConfig w' (s.cut lo hi) :=
      fun lo hi => decodeChainConfig_wordSize w w' (sub32_lt _ _)
    simp only [decodeStatelessInputOf, decodeStatelessInput, Dec.bind_eq, Dec.bind, val_between,
      hreq, hwit, hkeys, hcc]
  | amsterdam01 =>
    have hcc : ∀ lo hi, decodeChainConfigAmsterdam01 w (s.cut lo hi) =
        decodeChainConfigAmsterdam01 w' (s.cut lo hi) :=
      fun lo hi => decodeChainConfigAmsterdam01_wordSize w w' (sub32_lt _ _)
    -- The keys are indexed by a product in `size_t`, which does not wrap below their end.
    have hvec : ∀ lo hi, (Dec.forRange ((s.cut lo hi).len / maxBytesPerPublicKey) fun i =>
          (s.cut lo hi).slice (w.mul i maxBytesPerPublicKey) maxBytesPerPublicKey) =
        Dec.forRange ((s.cut lo hi).len / maxBytesPerPublicKey) fun i =>
          (s.cut lo hi).slice (w'.mul i maxBytesPerPublicKey) maxBytesPerPublicKey := by
      intro lo hi
      apply forRange_congr
      intro i hi'
      have hlt := sub32_lt hi lo
      rw [ByteSpan.len_cut, maxBytesPerPublicKey] at hi'
      rw [maxBytesPerPublicKey, w.mul_eq (by omega), w'.mul_eq (by omega)]
    simp only [decodeStatelessInputOf, decodeStatelessInputAmsterdam01, Dec.bind_eq, Dec.bind,
      val_between, hreq, hwit, hvec, hcc]

variable {w : WordSize} {schema : InputSchema} {b : Bytes}

/-- What 32-bit sizes can merkleize, 64-bit sizes can. -/
theorem SszNewPayloadRequest.Readable.widen {r : SszNewPayloadRequest} (h : r.Readable .bits32) :
    r.Readable .bits64 := by
  have hwide : ∀ {n : ℕ}, n * 32 < WordSize.bits32.modulus → n * 32 < WordSize.bits64.modulus :=
    fun h => lt_trans h (by decide)
  obtain ⟨⟨hextra, htxs, hbal, htxCount, hwdl⟩, hhashes, hdep, hwdr, hcon, hbdp, hbex⟩ := h
  exact ⟨⟨hextra, htxs, hbal, hwide htxCount, hwide hwdl⟩, hwide hhashes, hwide hdep, hwide hwdr,
    hwide hcon, fun hb => hwide (hbdp hb), fun hb => hwide (hbex hb)⟩

/-- What stays inside its containers stays inside the input. -/
theorem returns_of_confined (h : (decodeStatelessInputOf w schema (.ofBytes b)).Confined) :
    (decodeStatelessInputOf w schema (.ofBytes b)).Returns := by
  by_cases hh : InputHead b
  · rw [confined_decodeStatelessInputOf w hh] at h
    rw [returns_decodeStatelessInputOf w hh]
    intro hc
    obtain ⟨hr, hrest⟩ := h hc
    obtain ⟨rreq, rwit, rkeys⟩ := returns_of_ordered w schema hh
    exact ⟨rreq hc ((confined_decodeRequest w hh hc).mp hr), fun hp =>
      ⟨rwit ((confined_witness w hh).mp (hrest hp).1), rkeys⟩⟩
  · exact every_decodeStatelessInputOf_of_not_head w hh fun k hk => hk

/-- The span lies in the buffer, and has at most `n` bytes. -/
def Within (n : ℕ) (s : ByteSpan) : Prop := s.InBounds ∧ s.len ≤ n

theorem cutClosed_within (n : ℕ) : CutClosed Access.Confined (Within n) := by
  refine ⟨⟨Nat.zero_le _, Nat.zero_le _⟩, ?_⟩
  intro s lo hi hs h
  rw [every_between] at h
  have hle : lo + sub32 hi lo ≤ s.len := h.2
  have hlen := hs.2
  exact ⟨ByteSpan.inBounds_drop hs.1 hle, show sub32 hi lo ≤ n by omega⟩

/-- **The request of a short input can be merkleized with 32-bit sizes**: no count of chunks
wraps. -/
theorem within_of_confined (hlen : b.length < 2 ^ 29)
    (hconf : (decodeStatelessInputOf w schema (.ofBytes b)).Confined) {si : SszStatelessInput}
    (hok : (decodeStatelessInputOf w schema (.ofBytes b)).outcome = .ok si)
    (hvalid : si.valid = true) :
    si.newPayloadRequest.executionPayload.Spans (Within b.length) ∧
      si.newPayloadRequest.Readable .bits32 ∧ Within b.length si.chainConfig.raw := by
  obtain ⟨hh, hc, -, hcc, hnpr, -⟩ := input_of_valid w schema hok hvalid
  obtain ⟨⟨-, hreqLen, hreqIn⟩, -, ⟨-, hccLen, hccIn⟩, -⟩ := sections_of_head hh
  have hdec := ((confined_decodeStatelessInputOf w hh).mp hconf hc).1
  have htotal : b.length % 2 ^ 32 ≤ b.length := Nat.mod_le _ _
  obtain ⟨-, -, hfirst, hsecond, hthird, hend⟩ := hh
  unfold decodeRequest at hdec
  obtain ⟨hspans, s, hs, hcount⟩ := spans_decodeNewPayloadRequest w (cutClosed_within b.length)
    (s := requestSpan b) ⟨hreqIn, by omega⟩ _ _ _ hdec
  have hraw : (configOf w schema b).raw = configSpan b :=
    (acceptsCanonical w schema (configSpan_lt w)).raw
  have hn := hs.2
  have hmod : WordSize.bits32.modulus = 2 ^ 32 := rfl
  rw [hcc, hraw, hnpr, decodeRequest]
  refine ⟨hspans, (positioned_decodeNewPayloadRequest w (sub32_lt _ _) _ _ _).readable ?_ ?_, hccIn,
    by omega⟩
  · exact ⟨hspans.extraData.1, fun tx h => (hspans.transactions tx h).1, hspans.blockAccessList.1⟩
  · omega

/-- Both sizes publish the same bytes. -/
theorem encodePublicValues_wordSize {out : StatelessValidatorOutput} (w' : WordSize)
    (h : Within (2 ^ 29) out.chainConfigSsz) (cap : ℕ) :
    ∃ bytes, encodePublicValues w out cap = .ok bytes ∧ encodePublicValues w' out cap = .ok bytes := by
  obtain ⟨hin, hlen⟩ := h
  have hadd : ∀ w : WordSize, w.add (32 + 1 + 4) out.chainConfigSsz.len =
      32 + 1 + 4 + out.chainConfigSsz.len := fun w =>
    Nat.mod_eq_of_lt (lt_of_lt_of_le (by omega) w.le_modulus)
  simp only [encodePublicValues, hadd]
  by_cases hcap : 32 + 1 + 4 + out.chainConfigSsz.len > cap
  · rw [if_pos hcap]
    exact ⟨_, rfl, rfl⟩
  · rw [if_neg hcap, if_pos ⟨hin, by omega⟩]
    exact ⟨_, rfl, rfl⟩

end

/-- What both word sizes make of a decoded input: 32-bit sizes do not wrap, neither in the
positions of the items of its lists nor where its root is computed, so that both return the
same root and publish the same bytes. -/
structure SameOnBoth (H : Bytes → Bytes32) (n : ℕ) (si : SszStatelessInput) : Prop where
  /-- `i * item_size`, for the items of every list -/
  positions : ∀ p ∈ si.lists, ∀ i ≤ p.1, WordSize.bits32.mul i p.2 = i * p.2
  spans : si.newPayloadRequest.executionPayload.Spans (Within n)
  /-- `n * 32`, for the items of every list -/
  counts : si.newPayloadRequest.Readable .bits32
  /-- `half * 32`, `limit_bytes + 31`, `n * 32` and `bit_ceil`, in every step of the run -/
  root : ∃ root st st', htrNewPayloadRequest H .bits32 si.newPayloadRequest {} = .ok (root, st) ∧
    st.wrapped = false ∧ htrNewPayloadRequest H .bits64 si.newPayloadRequest {} = .ok (root, st') ∧
    ∀ successfulValidation cap, ∃ bytes,
      encodePublicValues .bits32 ⟨root, successfulValidation, si.chainConfig.raw⟩ cap = .ok bytes ∧
        encodePublicValues .bits64 ⟨root, successfulValidation, si.chainConfig.raw⟩ cap = .ok bytes

/-- **A short input whose slices stay inside their containers is decoded, merkleized and
published alike with 32-bit and with 64-bit sizes**, and no size wraps at 32 bits. -/
theorem wordSize_independent (H : Bytes → Bytes32) (schema : InputSchema) {b : Bytes}
    (hlen : b.length < 2 ^ 29)
    (hconf : (decodeStatelessInputOf .bits32 schema (.ofBytes b)).Confined) :
    ∃ si, (decodeStatelessInputOf .bits32 schema (.ofBytes b)).outcome = .ok si ∧
      decodeStatelessInputOf .bits64 schema (.ofBytes b) =
        decodeStatelessInputOf .bits32 schema (.ofBytes b) ∧
      (si.valid = true → SameOnBoth H b.length si) ∧
      ∀ out cap, Within (2 ^ 29) out.chainConfigSsz → ∃ bytes,
        encodePublicValues .bits32 out cap = .ok bytes ∧
          encodePublicValues .bits64 out cap = .ok bytes := by
  have hok := Dec.outcome_eq_ok.mpr ⟨returns_of_confined hconf, rfl⟩
  refine ⟨_, hok, decodeStatelessInputOf_wordSize .bits64 .bits32 schema, ?_,
    fun out cap h => encodePublicValues_wordSize .bits64 h cap⟩
  intro hvalid
  -- Below 2^29 bytes no length or count of a valid request wraps at 32 bits.
  obtain ⟨hspans, hread, hraw⟩ := within_of_confined hlen hconf hok hvalid
  have hpositions := positioned_of_valid .bits32 hok hvalid
  have hsized := sized_of_valid .bits32 hok hvalid
  have hread' : (decodeStatelessInputOf .bits32 schema
      (.ofBytes b)).val.newPayloadRequest.Readable .bits64 := hread.widen
  obtain ⟨st, hrun, -, -, -, hwrapped⟩ := (computes_htrNewPayloadRequest (H := H) (w := .bits32)
    (P := True) hsized fun _ => hread).run trivial (good_default H)
  obtain ⟨st', hrun', -⟩ := (computes_htrNewPayloadRequest (H := H) (w := .bits64) (P := True) hsized
    fun _ => hread').run trivial (good_default H)
  exact ⟨fun p hp i hi => hpositions.mul_eq hp hi, hspans, hread, _, st, st', hrun, hwrapped, hrun',
    fun ok cap => encodePublicValues_wordSize .bits64 ⟨hraw.1, hraw.2.trans hlen.le⟩ cap⟩

/-- An accepted input with items in its lists. -/
theorem wordSize_independent_amsterdamBlock :
    ∃ si, (decodeStatelessInputOf .bits32 .amsterdam01 (.ofBytes
        (serialize (inputType .amsterdam01 .gloas .flat) amsterdamBlock))).outcome = .ok si ∧
      decodeStatelessInputOf .bits64 .amsterdam01 (.ofBytes
          (serialize (inputType .amsterdam01 .gloas .flat) amsterdamBlock)) =
        decodeStatelessInputOf .bits32 .amsterdam01 (.ofBytes
          (serialize (inputType .amsterdam01 .gloas .flat) amsterdamBlock)) ∧
      SameOnBoth (padTo 32)
        (serialize (inputType .amsterdam01 .gloas .flat) amsterdamBlock).length si := by
  have hvalid : (decodeStatelessInputOf .bits32 .amsterdam01 (.ofBytes
      (serialize (inputType .amsterdam01 .gloas .flat) amsterdamBlock))).val.valid = true := by
    decide +kernel
  obtain ⟨si, hok, heq, hsame, -⟩ := wordSize_independent (padTo 32) .amsterdam01
    (b := serialize (inputType .amsterdam01 .gloas .flat) amsterdamBlock) length_amsterdamBlock
    (by decide +kernel)
  obtain ⟨-, rfl⟩ := Dec.outcome_eq_ok.mp hok
  exact ⟨_, hok, heq, hsame hvalid⟩

end StatelessGuest
