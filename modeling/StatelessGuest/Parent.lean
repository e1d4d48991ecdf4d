import StatelessGuest.Publication

/-!
# The parent header

The parent state is looked up twice: by the hash of the raw witness headers, for the root
that the witness is read from, and by number and hash in the state, for the root that the
post-state is rebuilt from.  The state also holds the genesis header, which is whatever
decoding the first witness header leaves.

## Main definitions

* `HeaderRules` — what the library promises about headers.
* `Authenticated` — both lookups give the state root of one decoded witness header.
* `ForgedGenesis` — the genesis header takes the place of the parent.

## Main results

* `registered_of_read` — where a header found in the state comes from.
* `parent_authenticated` — **a successful run has an authenticated parent exactly when its
  genesis header is not forged.**
-/

namespace StatelessGuest

open Ssz

section

variable (L : Library)

/-- What the library promises: a header is hashed by its encoding, decoding accepts only
encodings, a header found in the state was registered there, and a block is accepted only
if its parent is found. -/
structure HeaderRules (encode : BlockHeader L.HeaderRest → Bytes) : Prop where
  hash : ∀ header, L.headerHash header = L.keccak256 (encode header)
  encode_decode : ∀ b, (L.decodeHeader b).1 = true → encode (L.decodeHeader b).2 = b
  stateRoot_encode : ∀ header, (L.decodeHeader (encode header)).2.stateRoot = header.stateRoot
  read_witness : ∀ nodes root n hash, L.readHeader (L.witnessState nodes root) n hash = none
  read_code : ∀ st codeHash code n hash,
    L.readHeader (L.updateAccountCode st codeHash code) n hash = L.readHeader st n hash
  read_insert : ∀ st header key n hash found,
    L.readHeader (L.insertHeader st header key) n hash = some found →
      found = header ∧ n = header.number ∧ hash = key ∨ L.readHeader st n hash = some found
  read_blockchain : ∀ st cfg genesis n hash found,
    L.readHeader (L.blockchain st cfg genesis) n hash = some found →
      found = genesis ∧ n = genesis.number ∧ hash = L.headerHash genesis ∨
        L.readHeader st n hash = some found
  read_executed : ∀ st cfg block,
    L.readHeader (L.insertBlock st cfg block).2 (block.header.number - 1) block.header.parentHash =
      L.readHeader st (block.header.number - 1) block.header.parentHash
  parent_found : ∀ st cfg block, (L.insertBlock st cfg block).1 = .kOk →
    (L.readHeader st (block.header.number - 1) block.header.parentHash).isSome = true

/-- The entry is a header that decodes. -/
def Decodes (header : Bytes) : Prop := header ≠ [] ∧ (L.decodeHeader header).1 = true

/-- The genesis header was not decoded from the witness, but passes for the parent, and
no witness header does. -/
def ForgedGenesis (headers : List Bytes) (ep : SszExecutionPayload) : Prop :=
  ¬Decodes L (headers.headD []) ∧ L.headerHash (genesisHeader L headers ep) = ep.parentHash ∧
    (genesisHeader L headers ep).number = ep.blockNumber - 1 ∧
    ∀ header ∈ headers, Decodes L header → L.keccak256 header ≠ ep.parentHash

variable {L}

/-- One witness header is the parent, and both lookups give its state root. -/
def Authenticated {si : SszStatelessInput} (x : Execution L si) : Prop :=
  ∃ header ∈ x.headers, Decodes L header ∧
    L.keccak256 header = si.newPayloadRequest.executionPayload.parentHash ∧
    preStateRoot L x.headers si.newPayloadRequest.executionPayload.parentHash =
      (L.decodeHeader header).2.stateRoot ∧
    prevRootOf L x.result.2 si.newPayloadRequest.executionPayload.blockNumber
      si.newPayloadRequest.executionPayload.parentHash = (L.decodeHeader header).2.stateRoot

/-- The hash tells the witness headers and the genesis header apart. -/
def NoCollision (encode : BlockHeader L.HeaderRest → Bytes) (headers : List Bytes)
    (ep : SszExecutionPayload) : Prop :=
  ∀ a ∈ encode (genesisHeader L headers ep) :: headers,
    ∀ b ∈ encode (genesisHeader L headers ep) :: headers, L.keccak256 a = L.keccak256 b → a = b

variable {encode : BlockHeader L.HeaderRest → Bytes}

/-! ### Registered headers -/

/-- The header comes from a decoded witness header with this hash. -/
def FromWitness (headers : List Bytes) (hash : Bytes32) (found : BlockHeader L.HeaderRest) : Prop :=
  ∃ header ∈ headers, Decodes L header ∧ found = (L.decodeHeader header).2 ∧
    L.keccak256 header = hash

theorem read_registerCode (hr : HeaderRules L encode) (codes : List Bytes) (st : L.State)
    (n : BitVec 64) (hash : Bytes32) :
    L.readHeader (codes.foldl (registerCode L) st) n hash = L.readHeader st n hash := by
  induction codes generalizing st with
  | nil => rfl
  | cons code codes ih =>
    rw [List.foldl_cons, ih]
    unfold registerCode
    by_cases hcode : code = []
    · rw [if_pos hcode]
    · rw [if_neg hcode, hr.read_code]

/-- What registering ancestors adds. -/
theorem read_registerAncestor (hr : HeaderRules L encode) (headers : List Bytes) :
    ∀ (st : L.State) (n : BitVec 64) (hash : Bytes32) (found : BlockHeader L.HeaderRest),
      L.readHeader (headers.foldl (registerAncestor L) st) n hash = some found →
        FromWitness headers hash found ∨ L.readHeader st n hash = some found := by
  induction headers with
  | nil =>
    intro st n hash found h
    exact .inr h
  | cons header headers ih =>
    intro st n hash found h
    rw [List.foldl_cons] at h
    rcases ih _ n hash found h with ⟨other, hmem, hother⟩ | hread
    · exact .inl ⟨other, List.mem_cons_of_mem _ hmem, hother⟩
    · unfold registerAncestor at hread
      by_cases hempty : header = []
      · rw [if_pos hempty] at hread
        exact .inr hread
      rw [if_neg hempty] at hread
      by_cases hdecode : (L.decodeHeader header).1 = true
      · rw [if_pos hdecode] at hread
        rcases hr.read_insert _ _ _ _ _ _ hread with ⟨rfl, -, hkey⟩ | hread
        · have hhash : L.keccak256 header = hash := by
            rw [hkey, hr.hash, hr.encode_decode header hdecode]
          exact .inl ⟨header, List.mem_cons_self, ⟨hempty, hdecode⟩, rfl, hhash⟩
        · exact .inr hread
      · rw [if_neg hdecode] at hread
        exact .inr hread

/-- **A header found in the state is a decoded witness header or the genesis header.** -/
theorem registered_of_read (hr : HeaderRules L encode) {si : SszStatelessInput}
    (x : Execution L si) {n : BitVec 64} {hash : Bytes32} {found : BlockHeader L.HeaderRest}
    (h : L.readHeader x.chain n hash = some found) :
    FromWitness x.headers hash found ∨
      found = genesisHeader L x.headers si.newPayloadRequest.executionPayload ∧
        n = found.number ∧ hash = L.headerHash found := by
  rcases hr.read_blockchain _ _ _ _ _ _ h with ⟨rfl, hn, hhash⟩ | hread
  · exact .inr ⟨rfl, hn, hhash⟩
  · unfold loadState at hread
    rcases read_registerAncestor hr _ _ _ _ _ hread with hfrom | hread
    · exact .inl hfrom
    · rw [read_registerCode hr, hr.read_witness] at hread
      cases hread

/-! ### The two lookups -/

/-- The raw search finds the parent. -/
theorem preStateRoot_eq {headers : List Bytes} {parentHash : Bytes32} {header : Bytes}
    (hmem : header ∈ headers) (hdec : Decodes L header) (hhash : L.keccak256 header = parentHash)
    (hinj : ∀ a ∈ headers, L.keccak256 a = L.keccak256 header → a = header) :
    preStateRoot L headers parentHash = (L.decodeHeader header).2.stateRoot := by
  have hfind : headers.find? (fun h => h ≠ [] ∧ headerHashOf L h = parentHash) = some header := by
    have hsome : (headers.find? fun h => h ≠ [] ∧ headerHashOf L h = parentHash).isSome = true := by
      rw [List.find?_isSome]
      refine ⟨header, hmem, decide_eq_true ⟨hdec.1, ?_⟩⟩
      rw [headerHashOf, if_neg hdec.1, hhash]
    obtain ⟨first, hfirst⟩ := Option.isSome_iff_exists.mp hsome
    have hprop := List.find?_some hfirst
    obtain ⟨hne, hkey⟩ := of_decide_eq_true hprop
    rw [headerHashOf, if_neg hne] at hkey
    rw [hfirst, hinj first (List.mem_of_find?_eq_some hfirst) (hkey.trans hhash.symm)]
  unfold preStateRoot
  rw [hfind]
  exact if_pos hdec.2

/-- A decoded witness header with the parent hash authenticates the parent. -/
theorem authenticated_of_mem (hr : HeaderRules L encode) {si : SszStatelessInput}
    (x : Execution L si) (hok : x.result.1 = .kOk)
    (hcoll : NoCollision encode x.headers si.newPayloadRequest.executionPayload) {header : Bytes}
    (hmem : header ∈ x.headers) (hdec : Decodes L header)
    (hhash : L.keccak256 header = si.newPayloadRequest.executionPayload.parentHash) :
    Authenticated x := by
  have hinj : ∀ a ∈ x.headers, L.keccak256 a = L.keccak256 header → a = header := fun a ha =>
    hcoll a (List.mem_cons_of_mem _ ha) header (List.mem_cons_of_mem _ hmem)
  refine ⟨header, hmem, hdec, hhash, preStateRoot_eq hmem hdec hhash hinj, ?_⟩
  obtain ⟨found, hfound⟩ := Option.isSome_iff_exists.mp (hr.parent_found _ _ _ hok)
  have hpost : L.readHeader x.result.2 (si.newPayloadRequest.executionPayload.blockNumber - 1)
      si.newPayloadRequest.executionPayload.parentHash = some found :=
    (hr.read_executed _ _ _).trans hfound
  have hroot : found.stateRoot = (L.decodeHeader header).2.stateRoot := by
    rcases registered_of_read hr x hfound with ⟨other, hother, -, rfl, hkey⟩ | ⟨hgenesis, -, hkey⟩
    · rw [hinj other hother (hkey.trans hhash.symm)]
    · -- The genesis header hashes to the parent hash, so it is encoded as the witness header.
      have hencode : encode found = header := by
        refine hcoll _ (hgenesis ▸ List.mem_cons_self) header (List.mem_cons_of_mem _ hmem) ?_
        rw [← hr.hash, hhash]
        exact hkey.symm
      rw [← hencode, hr.stateRoot_encode]
  unfold prevRootOf
  rw [hpost]
  exact hroot

/-- **A successful execution has an authenticated parent exactly when its genesis header is
not forged.** -/
theorem authenticated_iff (hr : HeaderRules L encode) {si : SszStatelessInput}
    (x : Execution L si) (hok : x.result.1 = .kOk)
    (hcoll : NoCollision encode x.headers si.newPayloadRequest.executionPayload) :
    Authenticated x ↔ ¬ForgedGenesis L x.headers si.newPayloadRequest.executionPayload := by
  constructor
  · rintro ⟨header, hmem, hdec, hhash, -⟩ ⟨-, -, -, hnone⟩
    exact hnone header hmem hdec hhash
  · intro hforged
    have hexists : ∃ header ∈ x.headers, Decodes L header ∧
        L.keccak256 header = si.newPayloadRequest.executionPayload.parentHash := by
      -- The library has found a parent: without a witness header it is the genesis header.
      by_contra hnone
      obtain ⟨found, hfound⟩ := Option.isSome_iff_exists.mp (hr.parent_found _ _ _ hok)
      rcases registered_of_read hr x hfound with ⟨header, hmem, hdec, -, hhash⟩ | ⟨rfl, hn, hkey⟩
      · exact hnone ⟨header, hmem, hdec, hhash⟩
      · -- A genesis header that decodes is the first witness header.
        by_cases hfirst : Decodes L (x.headers.headD [])
        · have hmem : x.headers.headD [] ∈ x.headers := by
            cases hheaders : x.headers with
            | nil => exact absurd (by rw [hheaders]; rfl) hfirst.1
            | cons header headers => exact List.mem_cons_self
          have hgenesis : genesisHeader L x.headers si.newPayloadRequest.executionPayload =
              (L.decodeHeader (x.headers.headD [])).2 := if_pos hfirst.1
          refine hnone ⟨_, hmem, hfirst, ?_⟩
          rw [← hr.encode_decode _ hfirst.2, ← hr.hash, ← hgenesis]
          exact hkey.symm
        · exact hforged ⟨hfirst, hkey.symm, hn.symm, fun header hmem hdec hhash =>
            hnone ⟨header, hmem, hdec, hhash⟩⟩
    obtain ⟨header, hmem, hdec, hhash⟩ := hexists
    exact authenticated_of_mem hr x hok hcoll hmem hdec hhash

end

/-- **In every successful run, the parent state is authenticated exactly when the genesis
header is not forged**, if nothing collides. -/
theorem parent_authenticated (L : Library) {encode : BlockHeader L.HeaderRest → Bytes}
    (hr : HeaderRules L encode) (w : WordSize) {data : Bytes} (h : Success L w data) :
    ∃ si, decodeInput w data = some si ∧ ∃ x : Execution L si, x.Succeeds ∧
      (NoCollision encode x.headers si.newPayloadRequest.executionPayload →
        (Authenticated x ↔ ¬ForgedGenesis L x.headers si.newPayloadRequest.executionPayload)) := by
  obtain ⟨out, hrun, hout⟩ := success_iff.mp h
  obtain ⟨schema, si, hschema, hok, hvalid, x, hx⟩ := run_of_success hrun hout
  exact ⟨si, decodeInput_eq_some hschema hok hvalid, x, hx, authenticated_iff hr x hx.inserted⟩

/-! ### A library that keeps the rules -/

/-- The encoding of the headers of the strict library. -/
def strictEncode (header : BlockHeader Unit) : Bytes :=
  header.parentHash.toList ++ header.stateRoot.toList

/-- What is found after a header has been registered. -/
theorem find_registered {st : List (Bytes32 × BlockHeader Unit)} {key hash : Bytes32}
    {header found : BlockHeader Unit} {n : BitVec 64}
    (h : (((key, header) :: st).find? fun p => p.1 = hash ∧ p.2.number = n).map Prod.snd =
      some found) :
    found = header ∧ n = header.number ∧ hash = key ∨
      (st.find? fun p => p.1 = hash ∧ p.2.number = n).map Prod.snd = some found := by
  by_cases hkey : key = hash ∧ header.number = n
  · rw [List.find?_cons_of_pos (by simpa using hkey)] at h
    exact .inl ⟨(Option.some.inj h).symm, hkey.2.symm, hkey.1.symm⟩
  · rw [List.find?_cons_of_neg (by simpa using hkey)] at h
    exact .inr h

theorem headerRules_strict : HeaderRules strictLibrary strictEncode where
  hash _ := rfl
  encode_decode b h := by
    have hlen : b.length = 64 := of_decide_eq_true h
    show (padTo 32 b).toList ++ (padTo 32 (b.drop 32)).toList = b
    rw [toList_padTo, toList_padTo, takeD_eq_take (by omega), takeD_self (by simp [hlen]),
      List.take_append_drop]
  stateRoot_encode header := by
    show padTo 32 ((header.parentHash.toList ++ header.stateRoot.toList).drop 32) = _
    apply toList_injective
    rw [List.drop_left' (List.Vector.toList_length _), toList_padTo,
      takeD_self (List.Vector.toList_length _)]
  read_witness _ _ _ _ := rfl
  read_code _ _ _ _ _ := rfl
  read_insert _ _ _ _ _ _ h := find_registered h
  read_blockchain _ _ _ _ _ _ h := find_registered h
  read_executed _ _ _ := rfl
  parent_found st _ block h := by
    change (if _ then _ else _) = _ at h
    split at h
    · assumption
    · cases h

/-- A legacy Prague input for block 1, with these witness headers. -/
def childInput (parentHash stateRoot : Bytes32) (headers : List Bytes) : Bytes :=
  [0x00, 0x01] ++ SszType.serialize (inputType .legacy0001 .electraFulu .flat)
    (((parentHash, zeroVec 20, stateRoot, zeroVec 32, zeroVec 256, zeroVec 32, (1 : BitVec 64),
      (0 : BitVec 64), (0 : BitVec 64), (0 : BitVec 64), [], (0 : BitVec 256), zeroVec 32, [], [],
      (0 : BitVec 64), (0 : BitVec 64), ()), [], zeroVec 32, ([], [], [], ()), ()),
    ([], [], headers, ()),
    ((1 : BitVec 64), ((17 : BitVec 64), ([(0 : BitVec 64)], [], ()), [], ()), ()), [], ())

/-- The state root of block 0. -/
def parentRoot : Bytes32 := padTo 32 (List.replicate 31 0 ++ [9])

/-- The header of block 0. -/
def parentHeader : Bytes := sampleHeader (zeroVec 32) parentRoot

/-- A child of it, with it as its witness. -/
theorem parent_authenticated_child :
    ∃ si, decodeInput .bits64 (childInput (strictLibrary.keccak256 parentHeader) parentRoot
        [parentHeader]) = some si ∧ ∃ x : Execution strictLibrary si, x.Succeeds ∧
      (NoCollision (L := strictLibrary) strictEncode x.headers
          si.newPayloadRequest.executionPayload →
        (Authenticated x ↔
          ¬ForgedGenesis strictLibrary x.headers si.newPayloadRequest.executionPayload)) :=
  parent_authenticated strictLibrary headerRules_strict .bits64 (by decide +kernel)

/-- The header of block 0 with one byte too many: it does not decode, but leaves the header
behind. -/
def trailingHeader : Bytes := parentHeader ++ [0]

/-- The same child, whose witness has no header that decodes. -/
def orphanInput : Bytes :=
  childInput (strictLibrary.keccak256 parentHeader) parentRoot [trailingHeader]

def orphanDecoded : SszStatelessInput :=
  (decodeStatelessInputOf .bits64 .legacy0001 (.ofBytes (orphanInput.drop 2))).val

theorem decodeInput_orphanInput : decodeInput .bits64 orphanInput = some orphanDecoded := by
  have hok : (decodeStatelessInputOf .bits64 .legacy0001 (.ofBytes (orphanInput.drop 2))).outcome =
      .ok orphanDecoded := Dec.outcome_eq_ok.mpr ⟨by decide +kernel, rfl⟩
  exact decodeInput_eq_some (by decide +kernel) hok (by decide +kernel)

theorem headers_orphanDecoded (x : Execution strictLibrary orphanDecoded) :
    x.headers = [trailingHeader] := by
  rw [← (views_eq_ok.mp x.views_headers).2]
  decide +kernel

/-- The run over it succeeds, although no witness header is the parent. -/
theorem parent_authenticated_counterexample :
    ¬∀ (L : Library) (encode : BlockHeader L.HeaderRest → Bytes) (w : WordSize) (data : Bytes)
        (si : SszStatelessInput) (x : Execution L si), HeaderRules L encode →
      Success L w data → decodeInput w data = some si → x.Succeeds →
      NoCollision encode x.headers si.newPayloadRequest.executionPayload → Authenticated x := by
  intro h
  have hsuccess : Success strictLibrary .bits64 orphanInput := by decide +kernel
  obtain ⟨x, hx⟩ := execution_of_success hsuccess decodeInput_orphanInput
  have hheaders := headers_orphanDecoded x
  have hcoll : NoCollision (L := strictLibrary) strictEncode x.headers
      orphanDecoded.newPayloadRequest.executionPayload := by
    rw [hheaders]
    unfold NoCollision
    decide +kernel
  obtain ⟨header, hmem, hdec, -⟩ := h strictLibrary strictEncode .bits64 orphanInput _ x
    headerRules_strict hsuccess decodeInput_orphanInput hx hcoll
  rw [hheaders, List.mem_singleton] at hmem
  rw [hmem] at hdec
  have hfails : (strictLibrary.decodeHeader trailingHeader).1 = false := by decide +kernel
  exact Bool.false_ne_true (hfails.symm.trans hdec.2)

end StatelessGuest
