import StatelessGuest.Memory.Block

/-!
# Running a precompile

The accelerator functions are built over the precompiles of the EVM: they marshal their
arguments into a message and hand it to the library, whose answer is a parameter here.

## Main definitions

* `ZkvmStatus` — the status an accelerator function returns.
* `EvmcMessage`, `EvmcResult` — what goes to the library, and what comes back.
* `runPrecompile` — one call.

## Main results

* `runPrecompile_append` — a call on a block that begins with the input.
* `copyTo_of_success`, `copyTo_of_failure` — what reaches the caller's block.
-/

namespace StatelessGuest

open Ssz Memory

/-- `zkvm_status` -/
inductive ZkvmStatus
  /-- `ZKVM_EOK` -/
  | eok
  /-- `ZKVM_EFAIL` -/
  | efail
  deriving DecidableEq, Repr

/-- `ok ? ZKVM_EOK : ZKVM_EFAIL` -/
def ZkvmStatus.ofBool : Bool → ZkvmStatus
  | true => .eok
  | false => .efail

/-- `evmc_status_code`: success, or the code of a failure. -/
inductive EvmcStatus
  | success
  | failure (code : ℤ)
  deriving DecidableEq, Repr

/-- The fields of an `evmc_message` that are set; the others are zero. -/
structure EvmcMessage where
  gas : ℕ
  recipient : ByteVec 20
  codeAddress : ByteVec 20
  inputData : Bytes

/-- The fields of an `evmc_result` that are read. -/
structure EvmcResult where
  statusCode : EvmcStatus
  outputData : Bytes

/-- `evmone::state::call_precompile`, at the latest revision. -/
abbrev CallPrecompile := EvmcMessage → EvmcResult

/-- The address `0x00..<id_hi><id_lo>`. -/
def precompileAddress (idLo idHi : UInt8) : ByteVec 20 := ⟨List.replicate 18 0 ++ [idHi, idLo], rfl⟩

/-- The message for the precompile at an address. -/
def precompileMessage (idLo idHi : UInt8) (input : Bytes) : EvmcMessage where
  gas := 0x7fffffffffffffff
  recipient := precompileAddress idLo idHi
  codeAddress := precompileAddress idLo idHi
  inputData := input

/-- The output of a call that has succeeded with the expected size is copied to `out`. -/
def EvmcResult.copyTo (res : EvmcResult) (out : Block) (outLen : ℕ) : Option (Bool × Block) :=
  if res.statusCode ≠ .success ∨ res.outputData.length ≠ outLen then some (false, out)
  else (out.store res.outputData 0).map fun out => (true, out)

/-- `run_precompile` -/
def runPrecompile (call : CallPrecompile) (idLo idHi : UInt8) (input : Block) (inputLen : ℕ)
    (out : Block) (outLen : ℕ) : Option (Bool × Block) := do
  let input ← input.load 0 inputLen
  (call (precompileMessage idLo idHi input)).copyTo out outLen

/-- A call on a block that begins with the input. -/
theorem runPrecompile_append (call : CallPrecompile) (idLo idHi : UInt8) {input : Bytes}
    {tail : Block} {inputLen : ℕ} (h : input.length = inputLen) (out : Block) (outLen : ℕ) :
    runPrecompile call idLo idHi (.ofBytes input ++ tail) inputLen out outLen =
      (call (precompileMessage idLo idHi input)).copyTo out outLen := by
  subst h
  rw [runPrecompile, Block.load_append]
  rfl

/-- The call has succeeded, with an output of the expected size. -/
def EvmcResult.Succeeds (res : EvmcResult) (outLen : ℕ) : Prop :=
  res.statusCode = .success ∧ res.outputData.length = outLen

/-- The output of a successful call fills a fresh block. -/
theorem copyTo_of_success {res : EvmcResult} {outLen : ℕ} (h : res.Succeeds outLen) {out : Block}
    (hout : out.length = outLen) :
    res.copyTo out outLen = some (true, .ofBytes res.outputData) := by
  have hstore := appends_store res.outputData 0 [] out rfl (by rw [h.2, hout])
  rw [Block.ofBytes_nil, List.nil_append, List.nil_append, h.2, ← hout, List.drop_length,
    List.append_nil] at hstore
  rw [EvmcResult.copyTo, if_neg (by rintro (hs | hl); exacts [hs h.1, hl h.2]), hstore]
  rfl

/-- Any other call leaves the block as it is. -/
theorem copyTo_of_failure {res : EvmcResult} {outLen : ℕ} (h : ¬res.Succeeds outLen) (out : Block) :
    res.copyTo out outLen = some (false, out) := by
  apply if_pos
  by_contra hboth
  rw [not_or, not_not, not_not] at hboth
  exact h hboth

end StatelessGuest
