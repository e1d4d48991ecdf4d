import StatelessGuest.Publication
import StatelessGuest.Refine.Client

/-!
# The io-interface

A guest uses its runtime for two things: the io-interface, by which it reads its input and
appends to its output, and the heap.  `Io` is what a guest may rely on: the input is the
same at every call, the outputs are observed as if they were concatenated, and what is
allocated and filled in between disturbs neither.

## Main definitions

* `RuntimeCall` — `read_input`, `write_output` and `_sbrk`.
* `ioStandard` — the interface, up to a limit on the output and the heap.
* `main` — the guest program, which is the same on every target.

## Main results

* `run_main` — the guest program on the interface.
-/

namespace StatelessGuest

open Ssz Refine

/-- The calls of a guest to its runtime. -/
inductive RuntimeCall
  /-- `read_input` -/
  | readInput
  /-- `write_output` -/
  | writeOutput (output : Bytes)
  /-- A block of memory from `_sbrk`, with what is stored in it. -/
  | allocate (block : Bytes)

/-- `read_input` gives a buffer, here the bytes in it when the call returns. -/
def RuntimeCall.Reply : RuntimeCall → Type
  | .readInput => Bytes
  | .writeOutput _ => Unit
  | .allocate _ => Unit

/-- The input, the output so far, and how much of the heap is left. -/
structure Io where
  input : Bytes
  output : Bytes
  room : ℕ

/-- The interface, with output up to `limit` bytes. -/
def ioStandard (limit : ℕ) : Machine RuntimeCall.Reply Io
  | .readInput, io => some (io.input, io)
  | .writeOutput output, io =>
      if io.output.length + output.length ≤ limit then
        some ((), { io with output := io.output ++ output })
      else none
  | .allocate block, io =>
      if block.length ≤ io.room then some ((), { io with room := io.room - block.length })
      else none

/-- `main`, which allocates `blocks` on the way. -/
def main (w : WordSize) (L : Library) (blocks : Bytes → List Bytes) :
    Client RuntimeCall.Reply ℤ :=
  .call .readInput fun data =>
    Client.after
      (match publish w L data with
        | .error _ => .stuck
        | .ok pv => .call (.writeOutput pv) fun _ => .done 0)
      ((blocks data).map .allocate)

/-! ### The guest program on the interface -/

/-- Blocks that fit the heap. -/
theorem run_after_allocate {α : Type} {limit : ℕ} {client : Client RuntimeCall.Reply α}
    {blocks : List Bytes} {io : Io} (h : blocks.flatten.length ≤ io.room) :
    (client.after (blocks.map .allocate)).run (ioStandard limit) io =
      client.run (ioStandard limit) { io with room := io.room - blocks.flatten.length } := by
  induction blocks generalizing io with
  | nil => rfl
  | cons block blocks ih =>
    rw [List.flatten_cons, List.length_append] at h
    have hstep : ioStandard limit (.allocate block) io =
        some ((), { io with room := io.room - block.length }) :=
      if_pos (show block.length ≤ io.room by omega)
    rw [List.map_cons, Client.after, run_call hstep, ih (show _ ≤ io.room - block.length by omega),
      List.flatten_cons, List.length_append, Nat.sub_sub]

/-- **The guest program** returns 0, and its output is what it publishes. -/
theorem run_main {w : WordSize} {L : Library} {blocks : Bytes → List Bytes} {limit : ℕ} {io : Io}
    {pv : Bytes} (hpublish : publish w L io.input = .ok pv)
    (hblocks : (blocks io.input).flatten.length ≤ io.room)
    (hlimit : io.output.length + pv.length ≤ limit) :
    (main w L blocks).run (ioStandard limit) io =
      some (0, { io with
        output := io.output ++ pv
        room := io.room - (blocks io.input).flatten.length }) := by
  have hread : ioStandard limit .readInput io = some (io.input, io) := rfl
  have hwrite : ioStandard limit (.writeOutput pv)
      { io with room := io.room - (blocks io.input).flatten.length } =
        some ((), { io with
          output := io.output ++ pv
          room := io.room - (blocks io.input).flatten.length }) := if_pos hlimit
  rw [main, run_call hread, run_after_allocate hblocks, hpublish]
  exact run_call hwrite

end StatelessGuest
