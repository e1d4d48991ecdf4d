import StatelessGuest.Accelerators.Precompile
import StatelessGuest.Format.Parser
import StatelessGuest.Ssz.Reader

/-!
# Modular exponentiation

`zkvm_modexp` writes three lengths, each as a 32-byte big-endian integer, and the
operands behind them.  A length is a `size_t`, of which the eight low bytes are shifted
out, whatever its width; shifting a 32-bit value by 32 bits or more is undefined.

## Main definitions

* `putLen`, `zkvmModexp` — the function.
* `modexpOperands` — the layout of the input of the precompile.

## Main results

* `putLen_bits64` — on a 64-bit target the loop writes the length.
* `zkvmModexp_bits64` — the input of the precompile on a 64-bit target.
* `zkvmModexp_marshals` — **the operands reach the precompile exactly on the 64-bit
  targets.**
-/

namespace StatelessGuest

open Ssz Memory Format

/-- `put_len` -/
def putLen (w : WordSize) (off v : ℕ) : Block → Option Block :=
  Block.forRange 8 fun i input => do
    let byte ← w.shr v (8 * i)
    input.store [UInt8.ofNat byte] (off + 31 - i)

/-- `zkvm_modexp` -/
def zkvmModexp (w : WordSize) (call : CallPrecompile) (base exp mod : Bytes) (output : Block) :
    Option (ZkvmStatus × Block) :=
  if base.length > 1024 ∨ exp.length > 1024 ∨ mod.length > 1024 then some (.efail, output)
  else do
    let input := Block.ofBytes (List.replicate (96 + 3 * 1024) 0)
    let input ← putLen w 0 base.length input
    let input ← putLen w 32 exp.length input
    let input ← putLen w 64 mod.length input
    let p := 96
    let input ← input.store base p
    let p := p + base.length
    let input ← input.store exp p
    let p := p + exp.length
    let input ← input.store mod p
    let inputLen := 96 + base.length + exp.length + mod.length
    let (ok, output) ← runPrecompile call 0x05 0 input inputLen output mod.length
    pure (.ofBool ok, output)

/-! ### The layout -/

/-- The layout of the input: three lengths of 32 bytes, and operands of these lengths. -/
def modexpOperands : Parser (Bytes × Bytes × Bytes) := do
  let baseLen ← natBE 32
  let expLen ← natBE 32
  let modLen ← natBE 32
  let base ← bytes baseLen
  let exp ← bytes expLen
  let mod ← bytes modLen
  pure (base, exp, mod)

/-- The input for three operands. -/
def modexpInput (base exp mod : Bytes) : Bytes :=
  beBytes 32 base.length ++ (beBytes 32 exp.length ++ (beBytes 32 mod.length ++
    (base ++ (exp ++ mod))))

theorem parses_modexpInput {base exp mod : Bytes} (hbase : base.length < 256 ^ 32)
    (hexp : exp.length < 256 ^ 32) (hmod : mod.length < 256 ^ 32) :
    Parses modexpOperands (modexpInput base exp mod) (base, exp, mod) :=
  (parses_natBE hbase).bind <| (parses_natBE hexp).bind <| (parses_natBE hmod).bind <|
    (parses_bytes rfl).bind <| (parses_bytes rfl).bind <|
      (parses_bytes rfl).map fun mod => (base, exp, mod)

/-! ### The lengths -/

/-- A byte of a length that is in reach of a shift. -/
theorem shr_eq_div {w : WordSize} {v i : ℕ} (h : 8 * i < w.bits) :
    w.shr v (8 * i) = some (v / 256 ^ i) := by
  rw [WordSize.shr, if_pos h, Nat.shiftRight_eq_div_pow, Nat.pow_mul]

/-- On a 64-bit target the loop writes the eight bytes of the length. -/
theorem putLen_bits64 {off v : ℕ} {input : Block} (h : off + 32 ≤ input.length) :
    putLen .bits64 off v input = input.store (beBytes 8 v) (off + 24) := by
  -- After `i` rounds the `i` low bytes have been written.
  have hrounds : ∀ i ≤ 8, Block.forRange i (fun i input => do
      let byte ← WordSize.bits64.shr v (8 * i)
      input.store [UInt8.ofNat byte] (off + 31 - i)) input =
        input.store (beBytes i v) (off + 32 - i) := by
    intro i
    induction i with
    | zero =>
      intro _
      exact (Block.store_nil h).symm
    | succ i ih =>
      intro hi
      have hbyte : WordSize.bits64.shr v (8 * i) = some (v / 256 ^ i) :=
        shr_eq_div (show 8 * i < 64 by omega)
      have hfits : (input.store (beBytes i v) (off + 31 - i + 1)).isSome = true := by
        rw [Block.store, if_pos (by rw [length_beBytes]; omega)]
        rfl
      obtain ⟨written, hwritten⟩ := Option.isSome_iff_exists.mp hfits
      have hnext : off + 31 - i + 1 = off + 32 - i := by omega
      rw [Block.forRange_succ, ih (by omega), ← hnext, hwritten, Option.bind_some, hbyte,
        Option.bind_eq_bind, Option.bind_some, Block.store_cons hwritten, beBytes_succ]
      congr 1
      omega
  exact hrounds 8 le_rfl

/-- On a 32-bit target the loop shifts too far. -/
theorem putLen_bits32 (off v : ℕ) (input : Block) : putLen .bits32 off v input = none := by
  rw [putLen, Block.forRange_succ]
  cases Block.forRange 7 _ input <;> rfl

/-- A length is written into zeros. -/
theorem putLen_zeros {b : Bytes} {off v : ℕ} (k : ℕ) (hb : b.length = off) (hv : v < 256 ^ 8) :
    putLen .bits64 off v (.ofBytes (b ++ List.replicate (32 + k) 0)) =
      some (.ofBytes (b ++ beBytes 32 v ++ List.replicate k 0)) := by
  subst hb
  have hzeros : List.replicate (32 + k) (0 : UInt8) =
      List.replicate 24 0 ++ (List.replicate 8 0 ++ List.replicate k 0) := by
    rw [List.replicate_append_replicate, List.replicate_append_replicate]
    congr 1
    omega
  have hoff : b.length + 24 = (Block.ofBytes (b ++ List.replicate 24 0)).length := by
    rw [Block.length_ofBytes, List.length_append, List.length_replicate]
  have hlow : (List.replicate 24 (0 : UInt8)) ++ beBytes 8 v = beBytes 32 v :=
    (beBytes_eq_replicate_append hv).symm
  rw [putLen_bits64 (by simp), hzeros, ← List.append_assoc, ← List.append_assoc,
    Block.ofBytes_append, Block.ofBytes_append (b ++ _), hoff,
    Block.store_append_append (by simp), ← Block.ofBytes_append, ← Block.ofBytes_append,
    List.append_assoc b, hlow]

/-! ### The input of the precompile -/

/-- What becomes of the answer of the precompile. -/
def modexpResult (res : EvmcResult) (output : Block) (modLen : ℕ) :
    Option (ZkvmStatus × Block) := do
  let (ok, output) ← res.copyTo output modLen
  pure (.ofBool ok, output)

/-- The operands are appended to the lengths. -/
theorem appends_operands (base exp mod : Bytes) :
    Appends (fun input => input.store base 96 >>= fun input =>
      input.store exp (96 + base.length) >>= fun input =>
        input.store mod (96 + base.length + exp.length)) (base ++ (exp ++ mod)) 96 :=
  (appends_store base 96).bind <| (appends_store exp _).bind <| appends_store mod _

/-- **The input of the precompile on a 64-bit target.** -/
theorem zkvmModexp_bits64 (call : CallPrecompile) {base exp mod : Bytes} (output : Block)
    (hbase : base.length ≤ 1024) (hexp : exp.length ≤ 1024) (hmod : mod.length ≤ 1024) :
    zkvmModexp .bits64 call base exp mod output =
      modexpResult (call (precompileMessage 0x05 0 (modexpInput base exp mod))) output
        mod.length := by
  have hguard : ¬(base.length > 1024 ∨ exp.length > 1024 ∨ mod.length > 1024) := by omega
  have hsmall : ∀ n ≤ 1024, n < 256 ^ 8 := fun n hn => lt_of_le_of_lt hn (by norm_num)
  have hlen₁ : putLen .bits64 0 base.length (.ofBytes (List.replicate (96 + 3 * 1024) 0)) =
      some (.ofBytes (beBytes 32 base.length ++ List.replicate 3136 0)) :=
    putLen_zeros (b := []) 3136 rfl (hsmall _ hbase)
  have hlen₂ : putLen .bits64 32 exp.length
      (.ofBytes (beBytes 32 base.length ++ List.replicate 3136 0)) =
      some (.ofBytes (beBytes 32 base.length ++ beBytes 32 exp.length ++
        List.replicate 3104 0)) :=
    putLen_zeros 3104 (length_beBytes ..) (hsmall _ hexp)
  have hlen₃ := putLen_zeros (b := beBytes 32 base.length ++ beBytes 32 exp.length) 3072
    (by rw [List.length_append, length_beBytes, length_beBytes]) (hsmall _ hmod)
  have hops := appends_operands base exp mod
    (beBytes 32 base.length ++ beBytes 32 exp.length ++ beBytes 32 mod.length)
    (.ofBytes (List.replicate 3072 0))
    (by rw [List.length_append, List.length_append, length_beBytes, length_beBytes, length_beBytes])
    (by rw [Block.length_ofBytes, List.length_replicate, List.length_append, List.length_append]
        omega)
  have hinput : beBytes 32 base.length ++ beBytes 32 exp.length ++ beBytes 32 mod.length ++
      (base ++ (exp ++ mod)) = modexpInput base exp mod := by
    simp only [modexpInput, List.append_assoc]
  have hsize : (modexpInput base exp mod).length = 96 + base.length + exp.length + mod.length := by
    simp only [modexpInput, List.length_append, length_beBytes]
    omega
  rw [← Block.ofBytes_append, hinput] at hops
  rw [zkvmModexp, if_neg hguard]
  simp only [hlen₁, hlen₂, hlen₃, Option.bind_eq_bind, Option.bind_some]
  -- The call is made on what the stores leave.
  have hcall := congrArg (fun stored => stored.bind fun input => (runPrecompile call 0x05 0 input
    (96 + base.length + exp.length + mod.length) output mod.length).bind
      fun x => pure (ZkvmStatus.ofBool x.1, x.2)) hops
  simp only [Option.bind_eq_bind, Option.bind_assoc, Option.bind_some] at hcall
  rw [hcall, runPrecompile_append _ _ _ hsize]
  rfl

/-- On a 32-bit target the first length cannot be written. -/
theorem zkvmModexp_bits32 (call : CallPrecompile) {base exp mod : Bytes} (output : Block)
    (hbase : base.length ≤ 1024) (hexp : exp.length ≤ 1024) (hmod : mod.length ≤ 1024) :
    zkvmModexp .bits32 call base exp mod output = none := by
  have hguard : ¬(base.length > 1024 ∨ exp.length > 1024 ∨ mod.length > 1024) := by omega
  rw [zkvmModexp, if_neg hguard]
  simp only [putLen_bits32, Option.bind_eq_bind, Option.bind_none]

/-- **The operands reach the precompile exactly on the 64-bit targets**: the input it is
called with, whatever it answers, parses back to them. -/
theorem zkvmModexp_marshals (w : WordSize) {base exp mod : Bytes} (hbase : base.length ≤ 1024)
    (hexp : exp.length ≤ 1024) (hmod : mod.length ≤ 1024) :
    (∃ input, modexpOperands.all input = some (base, exp, mod) ∧ ∀ call output,
      zkvmModexp w call base exp mod output =
        modexpResult (call (precompileMessage 0x05 0 input)) output mod.length) ↔ w = .bits64 := by
  constructor
  · rintro ⟨input, -, hcall⟩
    cases w with
    | bits32 =>
      have hfail := hcall (fun _ => ⟨.failure 1, []⟩) []
      rw [zkvmModexp_bits32 _ _ hbase hexp hmod] at hfail
      cases hfail
    | bits64 => rfl
  · rintro rfl
    have hsmall : ∀ n ≤ 1024, n < 256 ^ 32 := fun n hn => lt_of_le_of_lt hn (by norm_num)
    exact ⟨modexpInput base exp mod,
      (parses_modexpInput (hsmall _ hbase) (hsmall _ hexp) (hsmall _ hmod)).all,
      fun call output => zkvmModexp_bits64 call output hbase hexp hmod⟩

/-- Operands of two, one and three bytes. -/
theorem zkvmModexp_marshals_lengths :
    ∃ input, modexpOperands.all input = some ([3, 7], [2], [5, 0, 1]) ∧ ∀ call output,
      zkvmModexp .bits64 call [3, 7] [2] [5, 0, 1] output =
        modexpResult (call (precompileMessage 0x05 0 input)) output 3 :=
  (zkvmModexp_marshals .bits64 (by decide) (by decide) (by decide)).mpr rfl

/-- On OpenVM no operands reach the precompile. -/
theorem zkvmModexp_marshals_counterexample :
    ¬∃ input, modexpOperands.all input = some ([3], [2], [5]) ∧ ∀ call output,
      zkvmModexp .bits32 call [3] [2] [5] output =
        modexpResult (call (precompileMessage 0x05 0 input)) output 1 := by
  rintro ⟨input, -, hcall⟩
  have hfail := hcall (fun _ => ⟨.failure 1, []⟩) []
  rw [zkvmModexp_bits32 _ _ (by decide) (by decide) (by decide)] at hfail
  cases hfail

end StatelessGuest
