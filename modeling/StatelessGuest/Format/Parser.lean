import StatelessGuest.Ssz.Bytes

/-!
# Parsing byte strings

A parser takes a value off the front of a byte string.  A format is given by a parser, so
that an encoder can be checked against it: `Parses p enc a` says that `p` reads the bytes
`enc` as `a`, whatever follows them.

## Main definitions

* `Parser` — a parser, in the state monad over the rest of the input.
* `zeros`, `array`, `bytes`, `natBE`, `many` — padding, arrays, strings, big-endian
  integers and repetition.
* `Parser.all` — parsing a whole byte string.
* `Parses` — how a parser reads an encoding.
* `beBytes` — writing a big-endian integer.

## Main results

* `Parses.bind`, `Parses.many` — **encodings in sequence and repeated.**
* `Parses.all` — an encoding on its own.
-/

namespace Format

open Ssz

/-! ### Big-endian integers -/

/-- The `n` low bytes of an integer, most significant byte first. -/
def beBytes (n v : ℕ) : Bytes := (leBytes n v).reverse

/-- The integer a byte string stores, most significant byte first. -/
def beNat (b : Bytes) : ℕ := leNat b.reverse

@[simp] theorem length_beBytes (n v : ℕ) : (beBytes n v).length = n := by
  rw [beBytes, List.length_reverse, length_leBytes]

/-- An integer that fits is read back as it was written. -/
theorem beNat_beBytes {n v : ℕ} (h : v < 256 ^ n) : beNat (beBytes n v) = v := by
  rw [beNat, beBytes, List.reverse_reverse, leNat_leBytes h]

theorem beBytes_beNat (b : Bytes) : beBytes b.length (beNat b) = b := by
  have h := leBytes_leNat b.reverse
  rw [List.length_reverse] at h
  rw [beBytes, beNat, h, List.reverse_reverse]

/-- The earlier bytes are the more significant ones. -/
theorem beNat_append (a b : Bytes) : beNat (a ++ b) = beNat b + 256 ^ b.length * beNat a := by
  rw [beNat, List.reverse_append, leNat_append, List.length_reverse]
  rfl

theorem beNat_lt (b : Bytes) : beNat b < 256 ^ b.length := by
  have h := leNat_lt b.reverse
  rwa [List.length_reverse] at h

theorem beNat_inj {a b : Bytes} (hlen : a.length = b.length) (h : beNat a = beNat b) : a = b := by
  rw [← beBytes_beNat a, ← beBytes_beNat b, hlen, h]

/-- One more byte in front. -/
theorem beBytes_succ (n v : ℕ) :
    beBytes (n + 1) v = UInt8.ofNat (v / 256 ^ n) :: beBytes n v := by
  have hlow : ∀ n v, leBytes (n + 1) v = leBytes n v ++ [UInt8.ofNat (v / 256 ^ n)] := by
    intro n
    induction n with
    | zero =>
      intro v
      rw [Nat.pow_zero, Nat.div_one]
      rfl
    | succ n ih =>
      intro v
      rw [leBytes, ih, leBytes, List.cons_append, Nat.div_div_eq_div_mul, ← Nat.pow_succ']
  rw [beBytes, hlow, List.reverse_append]
  rfl

/-- Leading zero bytes. -/
theorem beBytes_eq_replicate_append {n m v : ℕ} (h : v < 256 ^ m) :
    beBytes (n + m) v = List.replicate n 0 ++ beBytes m v := by
  induction n with
  | zero => rw [Nat.zero_add, List.replicate_zero, List.nil_append]
  | succ n ih =>
    have hzero : v / 256 ^ (n + m) = 0 :=
      Nat.div_eq_of_lt (h.trans_le (Nat.pow_le_pow_right (by decide) (by omega)))
    rw [Nat.add_right_comm, beBytes_succ, hzero, ih, List.replicate_succ]
    rfl

/-! ### Parsers -/

/-- A parser: a value and the rest of the input, or no value. -/
abbrev Parser := StateT Bytes Option

/-- `n` bytes. -/
def bytes (n : ℕ) : Parser Bytes := fun b =>
  if n ≤ b.length then some (b.take n, b.drop n) else none

/-- An array of `n` bytes. -/
def array (n : ℕ) : Parser (ByteVec n) := do
  let b ← bytes n
  pure (padTo n b)

/-- `n` zero bytes. -/
def zeros (n : ℕ) : Parser Unit := do
  let b ← bytes n
  if b = List.replicate n 0 then pure () else failure

/-- A big-endian integer of `n` bytes. -/
def natBE (n : ℕ) : Parser ℕ := do
  let b ← bytes n
  pure (beNat b)

section

variable {α β : Type}

/-- As many values as are asked for. -/
def many (p : Parser α) : ℕ → Parser (List α)
  | 0 => pure []
  | n + 1 => do
      let a ← p
      let as ← many p n
      pure (a :: as)

/-- A whole byte string: nothing may be left. -/
def Parser.all (p : Parser α) (b : Bytes) : Option α :=
  match p.run b with
  | some (a, []) => some a
  | _ => none

/-- `p` reads the bytes `enc` as `a`, and leaves what follows. -/
def Parses (p : Parser α) (enc : Bytes) (a : α) : Prop :=
  ∀ rest, p.run (enc ++ rest) = some (a, rest)

theorem parses_pure (a : α) : Parses (pure a) [] a := fun _ => rfl

/-- **Encodings in sequence.** -/
theorem Parses.bind {p : Parser α} {q : α → Parser β} {enc enc' : Bytes} {a : α} {b : β}
    (hp : Parses p enc a) (hq : Parses (q a) enc' b) : Parses (p >>= q) (enc ++ enc') b := by
  intro rest
  rw [StateT.run_bind, List.append_assoc, hp, Option.bind_eq_bind, Option.bind_some]
  exact hq rest

/-- A value that is converted after it has been read. -/
theorem Parses.map {p : Parser α} {enc : Bytes} {a : α} (hp : Parses p enc a) (f : α → β) :
    Parses (p >>= fun a => pure (f a)) enc (f a) := by
  have h := hp.bind (q := fun a => pure (f a)) (parses_pure (f a))
  rwa [List.append_nil] at h

/-- **Repeated encodings.** -/
theorem Parses.many {p : Parser α} {encode : α → Bytes} {l : List α}
    (hp : ∀ a ∈ l, Parses p (encode a) a) : Parses (many p l.length) (l.flatMap encode) l := by
  induction l with
  | nil => exact parses_pure []
  | cons a l ih =>
    rw [List.flatMap_cons]
    have hrest := ih fun b hb => hp b (List.mem_cons_of_mem a hb)
    exact (hp a List.mem_cons_self).bind (hrest.map (a :: ·))

/-- **An encoding on its own.** -/
theorem Parses.all {p : Parser α} {enc : Bytes} {a : α} (hp : Parses p enc a) :
    p.all enc = some a := by
  have h := hp []
  rw [List.append_nil] at h
  rw [Parser.all, h]

theorem parses_bytes {n : ℕ} {b : Bytes} (h : b.length = n) : Parses (bytes n) b b := by
  subst h
  intro rest
  change (if b.length ≤ (b ++ rest).length then _ else _) = _
  rw [if_pos (by rw [List.length_append]; omega), List.take_left, List.drop_left]

theorem parses_array {n : ℕ} (v : ByteVec n) : Parses (array n) v.toList v := by
  have hv : padTo n v.toList = v :=
    toList_injective ((toList_padTo n v.toList).trans (takeD_self v.toList_length))
  have h := (parses_bytes v.toList_length).map (padTo n)
  rwa [hv] at h

theorem parses_zeros (n : ℕ) : Parses (zeros n) (List.replicate n 0) () := by
  have hcheck : Parses (if List.replicate n (0 : UInt8) = List.replicate n 0 then pure ()
      else failure : Parser Unit) [] () := by
    rw [if_pos rfl]
    exact parses_pure ()
  have h := (parses_bytes (List.length_replicate : (List.replicate n (0 : UInt8)).length = n)).bind
    (q := fun b => if b = List.replicate n 0 then pure () else failure) hcheck
  rwa [List.append_nil] at h

theorem parses_natBE {n v : ℕ} (h : v < 256 ^ n) : Parses (natBE n) (beBytes n v) v := by
  have hread := (parses_bytes (length_beBytes n v)).map beNat
  rwa [beNat_beBytes h] at hread

end

end Format
