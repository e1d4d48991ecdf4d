import Mathlib.Tactic.NormNum

/-!
# Programs over an interface

An interface is a type of calls, each with its type of replies.  A machine that provides it
may be undefined on a call; a program that uses it chooses every call by the replies it has
seen.  A machine implements another one when it follows every call that the other defines,
with the same reply; it then follows every program.

## Main definitions

* `Machine` — the calls of an interface on a type of states.
* `Client`, `Client.run` — a program, and its run on a machine.
* `Implements` — a forward simulation.

## Main results

* `Implements.run` — **what a program computes on the specification, it computes on the
  implementation.**
* `run_invariant` — an invariant of the calls is an invariant of the runs.
-/

namespace Refine

variable {Call : Type} {Reply : Call → Type} {α σ τ : Type}

/-- A machine: each call is undefined in a state, or gives a reply and the next state. -/
abbrev Machine (Reply : Call → Type) (σ : Type) :=
  (call : Call) → σ → Option (Reply call × σ)

/-- A program over the calls of an interface. -/
inductive Client (Reply : Call → Type) (α : Type)
  /-- The program returns. -/
  | done (result : α)
  /-- The program goes wrong. -/
  | stuck
  /-- The program makes a call, and goes on with the reply. -/
  | call (c : Call) (next : Reply c → Client Reply α)

/-- The run of a program on a machine. -/
def Client.run (m : Machine Reply σ) : Client Reply α → σ → Option (α × σ)
  | .done result, s => some (result, s)
  | .stuck, _ => none
  | .call c next, s =>
      match m c s with
      | none => none
      | some (reply, s) => (next reply).run m s

/-- The program makes the calls one after another, whatever the replies. -/
def Client.after (client : Client Reply α) : List Call → Client Reply α
  | [] => client
  | c :: calls => .call c fun _ => client.after calls

section

variable {m : Machine Reply σ}

theorem run_call {c : Call} {next : Reply c → Client Reply α} {s s' : σ} {reply : Reply c}
    (h : m c s = some (reply, s')) : (Client.call c next).run m s = (next reply).run m s' := by
  rw [Client.run, h]

theorem run_call_eq_some {c : Call} {next : Reply c → Client Reply α} {s s' : σ} {result : α}
    (h : (Client.call c next).run m s = some (result, s')) :
    ∃ reply s₁, m c s = some (reply, s₁) ∧ (next reply).run m s₁ = some (result, s') := by
  unfold Client.run at h
  cases hcall : m c s with
  | none =>
    rw [hcall] at h
    cases h
  | some p =>
    rw [hcall] at h
    exact ⟨p.1, p.2, rfl, h⟩

end

/-- `R` relates the states of an implementation to those of its specification: every call
that is defined on the specification is followed, with the same reply. -/
def Implements (c : Machine Reply σ) (a : Machine Reply τ) (R : σ → τ → Prop) : Prop :=
  ∀ {call s t reply t'}, R s t → a call t = some (reply, t') →
    ∃ s', c call s = some (reply, s') ∧ R s' t'

/-- **A program computes on the implementation what it computes on the specification.** -/
theorem Implements.run {c : Machine Reply σ} {a : Machine Reply τ} {R : σ → τ → Prop}
    (h : Implements c a R) (client : Client Reply α) {s : σ} {t t' : τ} {result : α}
    (hR : R s t) (hrun : client.run a t = some (result, t')) :
    ∃ s', client.run c s = some (result, s') ∧ R s' t' := by
  induction client generalizing s t with
  | done r =>
    obtain ⟨rfl, rfl⟩ := Prod.mk.inj (Option.some.inj hrun)
    exact ⟨s, rfl, hR⟩
  | stuck => cases hrun
  | call call next ih =>
    obtain ⟨reply, t₁, hcall, hrest⟩ := run_call_eq_some hrun
    obtain ⟨s₁, hstep, hR₁⟩ := h hR hcall
    obtain ⟨s', hs', hR'⟩ := ih reply hR₁ hrest
    exact ⟨s', (run_call hstep).trans hs', hR'⟩

/-- What every call preserves holds after a run. -/
theorem run_invariant {m : Machine Reply σ} {I : σ → Prop}
    (h : ∀ {c s reply s'}, I s → m c s = some (reply, s') → I s') (client : Client Reply α)
    {s s' : σ} {result : α} (hs : I s) (hrun : client.run m s = some (result, s')) : I s' := by
  have hkeeps : Implements m m fun s t => s = t ∧ I s := by
    rintro c s _ reply t' ⟨rfl, hs⟩ hstep
    exact ⟨t', hstep, rfl, h hs hstep⟩
  obtain ⟨_, -, rfl, hend⟩ := hkeeps.run client ⟨rfl, hs⟩ hrun
  exact hend

end Refine
