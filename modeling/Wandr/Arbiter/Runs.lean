import Wandr.Arbiter.Conduct

/-!
# Runs of a group of modules

A group of modules on a bus of its own: commands go to its members, events come
from outside, and the rest of the system writes to the store in between. A run
takes such stimuli one after the other, each allowed by a condition on the state
before it; a stimulus that makes a handler fail its expectation leaves no state
behind, and is no step.

* `Arbiter.Run.invariant`: what the start satisfies and each step keeps, every
  state of a run satisfies;
* `Arbiter.command_settles` and `Arbiter.inject_settles`: an invariant that
  mentions the pending events, kept by the fan of each of them, holds after a
  dispatch with none pending.
-/

namespace Wandr

variable [Fpu]

/-- What happens to a group of modules. -/
inductive Stimulus
  | command (verb : Verb) (args : String)
  | inject (e : Event)
  | environment (s : Store)

namespace Arbiter

/-- The group takes a stimulus. -/
def respond (reg : Registry) (clock : Clock) (a : Arbiter) : Stimulus → Arbiter × List Effect
  | .command verb args => let r := a.command reg clock verb args; (r.1, r.2.1)
  | .inject e => a.inject reg clock e
  | .environment s => ({ a with store := s }, [])

theorem respond_command {reg : Registry} {clock : Clock} {a : Arbiter} {verb : Verb}
    {args : String} :
    a.respond reg clock (.command verb args) =
      ((a.command reg clock verb args).1, (a.command reg clock verb args).2.1) := rfl

/-- The states of a run, with the effects requested since its start. -/
inductive Run (reg : Registry) (Ok : Arbiter → Stimulus → Prop) (a₀ : Arbiter) :
    Arbiter → List Effect → Prop
  | start : Run reg Ok a₀ a₀ []
  | step {a : Arbiter} {fx : List Effect} (clock : Clock) (i : Stimulus) : Run reg Ok a₀ a fx →
      Ok a i → (a.respond reg clock i).1.panicked = false →
      Run reg Ok a₀ (a.respond reg clock i).1 (fx ++ (a.respond reg clock i).2)

variable {reg : Registry} {Ok : Arbiter → Stimulus → Prop} {a₀ a : Arbiter} {fx : List Effect}

/-- What holds at the start and is kept by each step holds throughout. -/
theorem Run.invariant {J : Arbiter → List Effect → Prop} (h : Run reg Ok a₀ a fx) (h₀ : J a₀ [])
    (hs : ∀ {a fx} clock i, J a fx → Ok a i → (a.respond reg clock i).1.panicked = false →
      J (a.respond reg clock i).1 (fx ++ (a.respond reg clock i).2)) : J a fx := by
  induction h with
  | start => exact h₀
  | step clock i _ hi hp ih => exact hs clock i ih hi hp

/-- The states of a run whose steps are allowed by the time they are taken at, too. -/
inductive TimedRun (reg : Registry) (Ok : Clock → Arbiter → Stimulus → Prop) (a₀ : Arbiter) :
    Arbiter → List Effect → Prop
  | start : TimedRun reg Ok a₀ a₀ []
  | step {a : Arbiter} {fx : List Effect} (clock : Clock) (i : Stimulus) :
      TimedRun reg Ok a₀ a fx → Ok clock a i → (a.respond reg clock i).1.panicked = false →
      TimedRun reg Ok a₀ (a.respond reg clock i).1 (fx ++ (a.respond reg clock i).2)

/-- What holds at the start and is kept by each step holds throughout. -/
theorem TimedRun.invariant {Ok : Clock → Arbiter → Stimulus → Prop}
    {J : Arbiter → List Effect → Prop} (h : TimedRun reg Ok a₀ a fx) (h₀ : J a₀ [])
    (hs : ∀ {a fx} clock i, J a fx → Ok clock a i → (a.respond reg clock i).1.panicked = false →
      J (a.respond reg clock i).1 (fx ++ (a.respond reg clock i).2)) : J a fx := by
  induction h with
  | start => exact h₀
  | step clock i _ hi hp ih => exact hs clock i ih hi hp

/-- The states of a run whose steps are allowed by what was requested before, too. -/
inductive TracedRun (reg : Registry) (Ok : Arbiter → List Effect → Stimulus → Prop)
    (a₀ : Arbiter) : Arbiter → List Effect → Prop
  | start : TracedRun reg Ok a₀ a₀ []
  | step {a : Arbiter} {fx : List Effect} (clock : Clock) (i : Stimulus) :
      TracedRun reg Ok a₀ a fx → Ok a fx i → (a.respond reg clock i).1.panicked = false →
      TracedRun reg Ok a₀ (a.respond reg clock i).1 (fx ++ (a.respond reg clock i).2)

/-- What holds at the start and is kept by each step holds throughout. -/
theorem TracedRun.invariant {Ok : Arbiter → List Effect → Stimulus → Prop}
    {J : Arbiter → List Effect → Prop} (h : TracedRun reg Ok a₀ a fx) (h₀ : J a₀ [])
    (hs : ∀ {a fx} clock i, J a fx → Ok a fx i → (a.respond reg clock i).1.panicked = false →
      J (a.respond reg clock i).1 (fx ++ (a.respond reg clock i).2)) : J a fx := by
  induction h with
  | start => exact h₀
  | step clock i _ hi hp ih => exact hs clock i ih hi hp

/-- The group takes one stimulus after the other. -/
def respondAll (reg : Registry) (clock : Clock) : Arbiter → List Stimulus → Arbiter × List Effect
  | a, [] => (a, [])
  | a, i :: is =>
    let r := a.respond reg clock i
    let rs := respondAll reg clock r.1 is
    (rs.1, r.2 ++ rs.2)

/-- Each of the stimuli is a step of a run. -/
def Goes (reg : Registry) (Ok : Arbiter → Stimulus → Prop) (clock : Clock) :
    Arbiter → List Stimulus → Prop
  | _, [] => True
  | a, i :: is => Ok a i ∧ (a.respond reg clock i).1.panicked = false ∧
    Goes reg Ok clock (a.respond reg clock i).1 is

theorem Run.respondAll {clock : Clock} {is : List Stimulus} (h : Run reg Ok a₀ a fx)
    (hs : Goes reg Ok clock a is) : Run reg Ok a₀ (a.respondAll reg clock is).1
      (fx ++ (a.respondAll reg clock is).2) := by
  induction is generalizing a fx with
  | nil => simpa [Arbiter.respondAll] using h
  | cons i is ih =>
    obtain ⟨hi, hp, hs⟩ := hs
    have := ih (.step clock i h hi hp) hs
    rwa [List.append_assoc] at this

/-! ## Invariants that mention the pending events -/

variable {J : Arbiter → List Event → List Effect → Prop} {clock : Clock}

/-- The invariant, seen after some effects. -/
theorem settles_after (fx₀ : List Effect) (hJ : Bus.Settles J (handlers reg clock)) :
    Bus.Settles (fun s q fx => J s q (fx₀ ++ fx)) (handlers reg clock) := by
  intro s e q fx h
  have := hJ _ _ _ _ h
  rwa [List.append_assoc] at this

theorem command_settles (fx : List Effect) (hJ : Bus.Settles J (handlers reg clock)) {verb : Verb}
    {args : String}
    (h : J (a.handle clock verb args).1.state (a.handle clock verb args).1.events
      (fx ++ (a.handle clock verb args).1.effects)) :
    J (a.command reg clock verb args).1 [] (fx ++ (a.command reg clock verb args).2.1) :=
  Bus.Settles.drain (settles_after fx hJ) handlers_ranked (fun e _ => rank_lt_maxCascadeDepth e) h

theorem inject_settles (fx : List Effect) (hJ : Bus.Settles J (handlers reg clock)) {e : Event}
    (h : J a [e] fx) :
    J (a.inject reg clock e).1 [] (fx ++ (a.inject reg clock e).2) :=
  Bus.Settles.drain (settles_after fx hJ) handlers_ranked (fun e _ => rank_lt_maxCascadeDepth e)
    (by simpa using h)

end Arbiter

end Wandr
