import StatelessGuest.OutputWindow
import StatelessGuest.Publication

/-!
# What the window determines

A verifier sees the published result padded with zeros to the size of the window.  The root
and the verdict stand at fixed places, and the chain config has no length of its own: its
last list ends where the bytes end, so that an item of zeros cannot be told from the padding.

## Main definitions

* `lastItemSize`, `lastOffset` — the last list of a chain config.

## Main results

* `takeD_eq_takeD_iff` — when two strings agree after padding.
* `publishedBytes_eq_iff` — **the window determines the root, the verdict and the chain
  config, up to a last item of zeros.**
-/

namespace StatelessGuest

open Ssz SszType

/-! ### The last list -/

/-- The size of an item of the last list: the blob schedule, or the time of activation. -/
def lastItemSize : InputSchema → ℕ
  | .legacy0001 => 24
  | .amsterdam01 => 8

/-- Where the last list begins. -/
def lastOffset (schema : InputSchema) (b : Bytes) : ℕ :=
  match schema with
  | .legacy0001 => 12 + u32At b 24
  | .amsterdam01 => 16 + u32At b 20

/-- The last list has at most one item, and its offset stands in the first 28 or 24 bytes. -/
theorem length_of_canonical {schema : InputSchema} {b : Bytes}
    (h : Canonical (chainConfigType schema) b) :
    (schema = .legacy0001 → 28 ≤ b.length) ∧ 24 ≤ b.length ∧
      (b.length = lastOffset schema b ∨ b.length = lastOffset schema b + lastItemSize schema) := by
  cases schema with
  | legacy0001 =>
    have hfork : (forkConfigType .legacy0001).isFixed = false := rfl
    obtain ⟨h12, -, hfc⟩ := (canonical_u64_field hfork b).mp h
    obtain ⟨h16, -, ⟨-, hle⟩, -, hblobs⟩ := (canonical_u64_fields rfl rfl _).mp hfc
    rw [length_window] at h16 hle
    have hoff : u32At (window b 12 (b.length - 12)) 12 = u32At b 24 := u32At_window (by omega)
    rw [canonical_blobSchedule, length_window, length_window, hoff] at hblobs
    rw [hoff] at hle
    rw [lastOffset, lastItemSize]
    omega
  | amsterdam01 =>
    have hfork : (forkConfigType .amsterdam01).isFixed = false := rfl
    obtain ⟨h12, -, hfc⟩ := (canonical_u64_field hfork b).mp h
    obtain ⟨h4, -, hact⟩ := (canonical_field rfl _).mp hfc
    obtain ⟨h8, -, ⟨-, hle⟩, -, htime⟩ := (canonical_forkActivation _).mp hact
    rw [length_window] at h4 h8 hle htime
    rw [length_window] at h8 hle htime
    have hoff : u32At (window (window b 12 (b.length - 12)) 4
        ((window b 12 (b.length - 12)).length - 4)) 4 = u32At b 20 := by
      rw [length_window, u32At_window (by omega), u32At_window (by omega)]
    rw [length_window] at hoff
    rw [hoff] at hle htime
    rw [lastOffset, lastItemSize]
    exact ⟨InputSchema.noConfusion, by omega⟩

/-! ### Padding -/

/-- **Two strings agree after padding** exactly when one is the other with zeros behind it. -/
theorem takeD_eq_takeD_iff {a b : Bytes} {n : ℕ} (hab : a.length ≤ b.length) (hb : b.length ≤ n) :
    a.takeD n 0 = b.takeD n 0 ↔ b = a ++ List.replicate (b.length - a.length) 0 := by
  rw [takeD_eq_append (hab.trans hb), takeD_eq_append hb]
  constructor
  · intro h
    have htake := congrArg (List.take b.length) h
    rw [List.take_left, List.take_append, List.take_of_length_le hab, List.take_replicate,
      Nat.min_eq_left (by omega)] at htake
    exact htake.symm
  · intro h
    have hsplit : List.replicate (n - a.length) (0 : UInt8) =
        List.replicate (b.length - a.length) 0 ++ List.replicate (n - b.length) 0 := by
      rw [List.replicate_append_replicate]
      congr 1
      omega
    rw [hsplit, ← List.append_assoc, ← h]

/-- Zeros behind a canonical chain config that make another one make up one item. -/
theorem eq_of_canonical_append {schema : InputSchema} {b b' : Bytes}
    (h : Canonical (chainConfigType schema) b) (h' : Canonical (chainConfigType schema) b')
    (hle : b.length ≤ b'.length) (heq : b' = b ++ List.replicate (b'.length - b.length) 0) :
    b = b' ∨ b' = b ++ List.replicate (lastItemSize schema) 0 := by
  obtain ⟨hlegacy, hhead, hend⟩ := length_of_canonical h
  obtain ⟨-, -, hend'⟩ := length_of_canonical h'
  have hoff : lastOffset schema b' = lastOffset schema b := by
    have hsame : ∀ k, k + 4 ≤ b.length → u32At b' k = u32At b k := by
      intro k hk
      rw [heq, u32At, u32At, window_append_of_le hk]
    cases schema with
    | legacy0001 => rw [lastOffset, lastOffset, hsame 24 (hlegacy rfl)]
    | amsterdam01 => rw [lastOffset, lastOffset, hsame 20 hhead]
  rw [hoff] at hend'
  rcases Nat.eq_or_lt_of_le hle with hlen | hlt
  · refine .inl ?_
    rw [heq, hlen, Nat.sub_self, List.replicate_zero, List.append_nil]
  · refine .inr ?_
    have hsize : b'.length - b.length = lastItemSize schema := by omega
    rwa [hsize] at heq

/-! ### The window -/

/-- A chain config is the other one, or one of them has an item of zeros more. -/
def SameButZeros (schema : InputSchema) (c c' : Bytes) : Prop :=
  c = c' ∨ c' = c ++ List.replicate (lastItemSize schema) 0 ∨
    c = c' ++ List.replicate (lastItemSize schema) 0

/-- Two chain configs agree after padding exactly when they are the same but for zeros. -/
theorem takeD_config_iff {schema : InputSchema} {c c' : Bytes}
    (h : Canonical (chainConfigType schema) c) (h' : Canonical (chainConfigType schema) c') :
    c.takeD 219 0 = c'.takeD 219 0 ↔ SameButZeros schema c c' := by
  have hlen := (length_chainConfig h).2
  have hlen' := (length_chainConfig h').2
  constructor
  · intro heq
    rcases Nat.le_total c.length c'.length with hle | hle
    · have hzeros := (takeD_eq_takeD_iff hle (by omega)).mp heq
      rcases eq_of_canonical_append h h' hle hzeros with hsame | hmore
      · exact .inl hsame
      · exact .inr (.inl hmore)
    · have hzeros := (takeD_eq_takeD_iff hle (by omega)).mp heq.symm
      rcases eq_of_canonical_append h' h hle hzeros with hsame | hmore
      · exact .inl hsame.symm
      · exact .inr (.inr hmore)
  · have hpad : ∀ {a b : Bytes}, b.length ≤ 76 →
        b = a ++ List.replicate (lastItemSize schema) 0 → a.takeD 219 0 = b.takeD 219 0 := by
      intro a b hb heq
      have hsum : b.length = a.length + lastItemSize schema := by
        rw [heq, List.length_append, List.length_replicate]
      rw [takeD_eq_takeD_iff (by omega) (by omega)]
      rwa [hsum, Nat.add_sub_cancel_left]
    rintro (rfl | hmore | hmore)
    · rfl
    · exact hpad hlen' hmore
    · exact (hpad hlen hmore).symm

/-- A published result, padded. -/
theorem takeD_publicValues (root : Bytes32) (ok : Bool) {config : Bytes}
    (hlen : config.length ≤ 76) : (publicValues root ok config).takeD 256 0 =
      root.toList ++ ([if ok then 1 else 0] ++ (leBytes 4 37 ++ config.takeD 219 0)) := by
  rw [takeD_eq_append (by rw [length_publicValues]; omega), length_publicValues,
    takeD_eq_append (hlen.trans (by norm_num)), publicValues]
  have hpad : 256 - (37 + config.length) = 219 - config.length := by omega
  rw [hpad]
  simp only [List.append_assoc]

/-- Two published results agree after padding exactly when they agree part by part. -/
theorem takeD_publicValues_iff {root root' : Bytes32} {ok ok' : Bool} {config config' : Bytes}
    (hlen : config.length ≤ 76) (hlen' : config'.length ≤ 76) :
    (publicValues root ok config).takeD 256 0 = (publicValues root' ok' config').takeD 256 0 ↔
      root = root' ∧ ok = ok' ∧ config.takeD 219 0 = config'.takeD 219 0 := by
  rw [takeD_publicValues _ _ hlen, takeD_publicValues _ _ hlen']
  constructor
  · intro heq
    obtain ⟨hroot, hrest⟩ := List.append_inj heq
      (by rw [root.toList_length, root'.toList_length])
    obtain ⟨hok, hrest⟩ := List.append_inj hrest rfl
    refine ⟨toList_injective hroot, ?_, List.append_cancel_left hrest⟩
    cases ok <;> cases ok' <;> first | rfl | exact absurd hok (by decide)
  · rintro ⟨rfl, rfl, heq⟩
    rw [heq]

/-- **The window determines the root, the verdict and the chain config**, up to a last item of
zeros: two results of one schema show the same bytes exactly when they agree on the root and
the verdict, and their chain configs are the same but for such an item. -/
theorem publishedBytes_eq_iff {schema : InputSchema} {root root' : Bytes32} {ok ok' : Bool}
    {config config' : Bytes} {writes writes' : List (ℕ × BitVec 32)}
    (hconfig : Canonical (chainConfigType schema) config)
    (hconfig' : Canonical (chainConfigType schema) config')
    (h : InWindow writes (publicValues root ok config))
    (h' : InWindow writes' (publicValues root' ok' config')) :
    publishedBytes writes = publishedBytes writes' ↔
      root = root' ∧ ok = ok' ∧ SameButZeros schema config config' := by
  rw [h.bytes, h'.bytes, ← takeD_config_iff hconfig hconfig']
  exact takeD_publicValues_iff (length_chainConfig hconfig).2 (length_chainConfig hconfig').2

/-- A chain config with empty lists only. -/
def bareConfig : Bytes :=
  [1, 0, 0, 0, 0, 0, 0, 0, 12, 0, 0, 0, 3, 0, 0, 0, 0, 0, 0, 0, 16, 0, 0, 0, 24, 0, 0, 0,
    8, 0, 0, 0, 8, 0, 0, 0]

/-- A result that fits the window is shown in it. -/
theorem inWindow_packed {b : Bytes} (h : b.length ≤ 256) : InWindow (packed b 0) b :=
  ⟨(packed_inWindow b).mpr h, publishedBytes_packed b⟩

/-- A blob schedule of zeros is shown as no blob schedule. -/
theorem publishedBytes_eq_iff_bareConfig :
    publishedBytes (packed (publicValues (zeroVec 32) true bareConfig) 0) =
      publishedBytes (packed (publicValues (zeroVec 32) true
        (bareConfig ++ List.replicate 24 0)) 0) := by
  have hbare := (acceptsCanonical .bits32 .legacy0001 (s := .ofBytes bareConfig) (by decide)).valid
  have hzeros := (acceptsCanonical .bits32 .legacy0001
    (s := .ofBytes (bareConfig ++ List.replicate 24 0)) (by decide)).valid
  rw [ByteSpan.bytes_ofBytes] at hbare hzeros
  exact (publishedBytes_eq_iff (hbare.mp (by decide +kernel)) (hzeros.mp (by decide +kernel))
    (inWindow_packed (by decide)) (inWindow_packed (by decide))).mpr ⟨rfl, rfl, .inr (.inl rfl)⟩

end StatelessGuest
