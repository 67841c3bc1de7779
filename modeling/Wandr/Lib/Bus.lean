import Mathlib.Data.List.Basic

/-!
# Event buses

A bus fans events out to handlers over a shared state. A handler reacts to an
event by changing the state, emitting further events and requesting effects;
the emitted events form the next batch, and the bus drains batch after batch
until nothing is pending or a bound on the number of batches is reached, at
which point the pending events are dropped.

* `Bus.drain` is the loop, `Bus.fan` the reaction of every handler to one event;
* `Bus.Keeps.drain`: what every handler keeps, for the events of a class closed
  under emission, the whole loop keeps;
* `Bus.turns` are the rounds without the bound, `Bus.Ranked.turns` bounds their
  number by a rank of the events, and `Bus.drain_eq_turns` says that a loop that
  empties its queue in time is the unbounded one;
* `Bus.Settles.drain`: when every handler emits events ranking below the one it
  reacts to, the loop ends before the bound and drops nothing, so that an
  invariant mentioning the pending events holds at its end with none pending.
-/

namespace Bus

variable {σ ε φ : Type}

/-- What reactions leave behind: the state, the events emitted and the effects
    requested, both in order. -/
structure Out (σ ε φ : Type) where
  state : σ
  events : List ε
  effects : List φ

/-- A handler reacts to an event in a state. -/
abbrev Handler (σ ε φ : Type) := ε → σ → Out σ ε φ

/-- Nothing emitted and nothing requested yet. -/
def Out.start (s : σ) : Out σ ε φ := ⟨s, [], []⟩

@[simp] theorem Out.start_state (s : σ) : (Out.start s : Out σ ε φ).state = s := rfl
@[simp] theorem Out.start_events (s : σ) : (Out.start s : Out σ ε φ).events = [] := rfl
@[simp] theorem Out.start_effects (s : σ) : (Out.start s : Out σ ε φ).effects = [] := rfl

/-- One reaction, after those that left `o` behind. -/
def Out.react (e : ε) (o : Out σ ε φ) (h : Handler σ ε φ) : Out σ ε φ where
  state := (h e o.state).state
  events := o.events ++ (h e o.state).events
  effects := o.effects ++ (h e o.state).effects

/-- The reaction of every handler, in order, to one event. -/
def fan (hs : List (Handler σ ε φ)) (o : Out σ ε φ) (e : ε) : Out σ ε φ :=
  hs.foldl (Out.react e) o

/-- Fan a batch of events out, one after the other. -/
def round (hs : List (Handler σ ε φ)) (batch : List ε) (o : Out σ ε φ) : Out σ ε φ :=
  batch.foldl (fan hs) o

/-- Fan the pending events out, then those emitted meanwhile, and so on for at
    most `n` rounds; events still pending then are dropped. -/
def drain (hs : List (Handler σ ε φ)) : Nat → Out σ ε φ → Out σ ε φ
  | 0, o => { o with events := [] }
  | n + 1, o =>
    if o.events.isEmpty then o else drain hs n (round hs o.events { o with events := [] })

variable {hs : List (Handler σ ε φ)}

theorem drain_of_events_nil {n : Nat} {o : Out σ ε φ} (h : o.events = []) :
    drain hs n o = o := by
  obtain ⟨s, es, fx⟩ := o
  cases n with
  | zero => simp_all [drain]
  | succ n => simp_all [drain]

theorem drain_succ {n : Nat} {o : Out σ ε φ} (h : o.events ≠ []) :
    drain hs (n + 1) o = drain hs n (round hs o.events { o with events := [] }) := by
  simp [drain, h]

/-- What every handler keeps at an event, its fan keeps. -/
theorem fan_keeps {Q : σ → Prop} {e : ε} (hk : ∀ h ∈ hs, ∀ s, Q s → Q (h e s).state)
    {o : Out σ ε φ} (ho : Q o.state) : Q (fan hs o e).state := by
  induction hs generalizing o with
  | nil => exact ho
  | cons h hs ih =>
    exact ih (fun h' hm => hk h' (List.mem_cons_of_mem _ hm)) (hk h List.mem_cons_self _ ho)

/-- What one handler brings about at an event and the others keep holds after the
    fan. -/
theorem fan_brings {Q : σ → Prop} {e : ε} {h : Handler σ ε φ} (hm : h ∈ hs)
    (hQ : ∀ s, Q (h e s).state) (hk : ∀ h ∈ hs, ∀ s, Q s → Q (h e s).state) (o : Out σ ε φ) :
    Q (fan hs o e).state := by
  induction hs generalizing o with
  | nil => exact absurd hm List.not_mem_nil
  | cons h' hs ih =>
    have hk' : ∀ h ∈ hs, ∀ s, Q s → Q (h e s).state :=
      fun h' hm => hk h' (List.mem_cons_of_mem _ hm)
    rcases List.mem_cons.mp hm with rfl | hm
    · exact fan_keeps hk' (hQ _)
    · exact ih hm hk' _

/-- The handlers of two lists react one list after the other. -/
theorem fan_append {hs' : List (Handler σ ε φ)} {o : Out σ ε φ} {e : ε} :
    fan (hs ++ hs') o e = fan hs' (fan hs o e) e :=
  List.foldl_append

/-- When no handler emits anything, nothing more is pending after the fan. -/
theorem fan_events_eq {e : ε} (hq : ∀ h ∈ hs, ∀ s, (h e s).events = []) {o : Out σ ε φ} :
    (fan hs o e).events = o.events := by
  induction hs generalizing o with
  | nil => rfl
  | cons h hs ih =>
    have ht := ih (fun h' hm => hq h' (List.mem_cons_of_mem _ hm)) (o := o.react e h)
    refine ht.trans ?_
    rw [Out.react, hq h List.mem_cons_self, List.append_nil]

/-! ## Rounds, without the bound -/

/-- One round of an unbounded loop: the pending events are fanned out, and what
    the handlers emit meanwhile is pending next. -/
def turn (hs : List (Handler σ ε φ)) (o : Out σ ε φ) : Out σ ε φ :=
  round hs o.events { o with events := [] }

/-- The first `n` rounds of an unbounded loop. -/
def turns (hs : List (Handler σ ε φ)) : Nat → Out σ ε φ → Out σ ε φ
  | 0, o => o
  | n + 1, o => turns hs n (turn hs o)

/-- The events fanned out to the handlers in the first `n` rounds. -/
def delivered (hs : List (Handler σ ε φ)) : Nat → Out σ ε φ → List ε
  | 0, _ => []
  | n + 1, o => o.events ++ delivered hs n (turn hs o)

theorem turn_of_events_nil {o : Out σ ε φ} (h : o.events = []) : turn hs o = o := by
  obtain ⟨s, es, fx⟩ := o
  subst h
  rfl

theorem turns_of_events_nil {n : Nat} {o : Out σ ε φ} (h : o.events = []) : turns hs n o = o := by
  induction n with
  | zero => rfl
  | succ n ih => rw [turns, turn_of_events_nil h, ih]

/-- A loop that empties its queue within the bound is the unbounded one. -/
theorem drain_eq_turns {k n : Nat} {o : Out σ ε φ} (hk : k ≤ n) (h : (turns hs k o).events = []) :
    drain hs n o = turns hs k o := by
  induction k generalizing n o with
  | zero => exact drain_of_events_nil h
  | succ k ih =>
    obtain ⟨n, rfl⟩ : ∃ m, n = m + 1 := ⟨n - 1, by omega⟩
    by_cases ho : o.events = []
    · rw [drain_of_events_nil ho, turns_of_events_nil ho]
    · rw [drain_succ ho]
      exact ih (by omega) h

/-- Once the queue is empty, every event that was ever pending has been fanned
    out. -/
theorem mem_delivered {i k : Nat} {o : Out σ ε φ} {e : ε} (h : (turns hs k o).events = [])
    (he : e ∈ (turns hs i o).events) : e ∈ delivered hs k o := by
  induction k generalizing i o with
  | zero =>
    have ho : o.events = [] := h
    rw [turns_of_events_nil ho, ho] at he
    exact absurd he List.not_mem_nil
  | succ k ih =>
    cases i with
    | zero => exact List.mem_append_left _ he
    | succ i => exact List.mem_append_right _ (ih h he)

/-! ## Invariants of the handlers -/

/-- A handler keeps `J`, a property of the state and of the effects requested so
    far, whenever it reacts to an event of the class `E`, and emits events of
    that class only. -/
structure Keeps (J : σ → List φ → Prop) (E : ε → Prop) (h : Handler σ ε φ) : Prop where
  inv : ∀ {e s fx}, E e → J s fx → J (h e s).state (fx ++ (h e s).effects)
  emits : ∀ {e s fx}, E e → J s fx → ∀ e' ∈ (h e s).events, E e'

section Keeps

variable {J : σ → List φ → Prop} {E : ε → Prop} (hk : ∀ h ∈ hs, Keeps J E h)

include hk

theorem Keeps.fan {o : Out σ ε φ} {e : ε} (he : E e) (hJ : J o.state o.effects)
    (hE : ∀ e ∈ o.events, E e) :
    J (fan hs o e).state (fan hs o e).effects ∧ ∀ e' ∈ (fan hs o e).events, E e' := by
  induction hs generalizing o with
  | nil => exact ⟨hJ, hE⟩
  | cons h hs ih =>
    have hh := hk h List.mem_cons_self
    refine ih (fun h' hm => hk h' (List.mem_cons_of_mem _ hm)) (hh.inv he hJ) ?_
    intro e' he'
    rcases List.mem_append.mp he' with hm | hm
    · exact hE e' hm
    · exact hh.emits he hJ e' hm

theorem Keeps.round {o : Out σ ε φ} {batch : List ε} (hb : ∀ e ∈ batch, E e)
    (hJ : J o.state o.effects) (hE : ∀ e ∈ o.events, E e) :
    J (round hs batch o).state (round hs batch o).effects ∧
      ∀ e' ∈ (round hs batch o).events, E e' := by
  induction batch generalizing o with
  | nil => exact ⟨hJ, hE⟩
  | cons e es ih =>
    obtain ⟨hJ', hE'⟩ := Keeps.fan hk (hb e List.mem_cons_self) hJ hE
    exact ih (fun e' hm => hb e' (List.mem_cons_of_mem _ hm)) hJ' hE'

/-- What every handler keeps, the cascade keeps. -/
theorem Keeps.drain {n : Nat} {o : Out σ ε φ} (hJ : J o.state o.effects)
    (hE : ∀ e ∈ o.events, E e) : J (drain hs n o).state (drain hs n o).effects := by
  induction n generalizing o with
  | zero => exact hJ
  | succ n ih =>
    by_cases h : o.events = []
    · rw [drain_of_events_nil h]
      exact hJ
    · rw [drain_succ h]
      obtain ⟨hJ', hE'⟩ := Keeps.round hk (o := { o with events := [] }) hE hJ (by simp)
      exact ih hJ' hE'

end Keeps

/-! ## Termination of the cascade -/

/-- Every event a handler emits ranks below the one it reacts to. -/
def Ranked (rank : ε → Nat) (h : Handler σ ε φ) : Prop :=
  ∀ e s, ∀ e' ∈ (h e s).events, rank e' < rank e

section Ranked

variable {rank : ε → Nat} (hr : ∀ h ∈ hs, Ranked rank h)

include hr

theorem Ranked.fan {o : Out σ ε φ} {e : ε} {n : Nat} (he : rank e < n + 1)
    (hn : ∀ e ∈ o.events, rank e < n) : ∀ e' ∈ (fan hs o e).events, rank e' < n := by
  induction hs generalizing o with
  | nil => exact hn
  | cons h hs ih =>
    refine ih (fun h' hm => hr h' (List.mem_cons_of_mem _ hm)) ?_
    intro e' he'
    rcases List.mem_append.mp he' with hm | hm
    · exact hn e' hm
    · have := hr h List.mem_cons_self e o.state e' hm
      omega

theorem Ranked.round {o : Out σ ε φ} {batch : List ε} {n : Nat}
    (hb : ∀ e ∈ batch, rank e < n + 1) (hn : ∀ e ∈ o.events, rank e < n) :
    ∀ e' ∈ (round hs batch o).events, rank e' < n := by
  induction batch generalizing o with
  | nil => exact hn
  | cons e es ih =>
    exact ih (fun e' hm => hb e' (List.mem_cons_of_mem _ hm))
      (Ranked.fan hr (hb e List.mem_cons_self) hn)

/-- Ranks bound the rounds it takes to empty the queue. -/
theorem Ranked.turns {o : Out σ ε φ} {n : Nat} (hn : ∀ e ∈ o.events, rank e < n) :
    (turns hs n o).events = [] := by
  induction n generalizing o with
  | zero => exact List.eq_nil_iff_forall_not_mem.mpr fun e he => by simpa using hn e he
  | succ n ih => exact ih (Ranked.round hr hn (by simp))

end Ranked

/-! ## Invariants that mention the pending events -/

/-- A property of the state, of the events still pending and of the effects
    requested so far, that the fan of the first pending event keeps. -/
def Settles (J : σ → List ε → List φ → Prop) (hs : List (Handler σ ε φ)) : Prop :=
  ∀ s e q fx, J s (e :: q) fx →
    J (fan hs (.start s) e).state (q ++ (fan hs (.start s) e).events)
      (fx ++ (fan hs (.start s) e).effects)

/-- A fan adds what it does to what was done before. -/
theorem fan_eq (o : Out σ ε φ) (e : ε) :
    fan hs o e = ⟨(fan hs (.start o.state) e).state, o.events ++ (fan hs (.start o.state) e).events,
      o.effects ++ (fan hs (.start o.state) e).effects⟩ := by
  induction hs generalizing o with
  | nil => simp [fan]
  | cons h hs ih =>
    have h1 := ih (o.react e h)
    have h2 := ih ((Out.start o.state).react e h)
    simp only [fan, List.foldl_cons] at h1 h2 ⊢
    rw [h1, h2]
    simp [Out.react]

variable {J : σ → List ε → List φ → Prop}

theorem Settles.round (hJ : Settles J hs) {batch : List ε} {o : Out σ ε φ}
    (h : J o.state (batch ++ o.events) o.effects) :
    J (round hs batch o).state (round hs batch o).events (round hs batch o).effects := by
  induction batch generalizing o with
  | nil => exact h
  | cons e es ih =>
    refine ih ?_
    rw [fan_eq]
    have := hJ _ _ _ _ h
    simpa [List.append_assoc] using this

/-- When ranks bound the cascade, an invariant of the pending events holds at its
    end with none pending. -/
theorem Settles.drain (hJ : Settles J hs) {rank : ε → Nat} (hr : ∀ h ∈ hs, Ranked rank h)
    {n : Nat} {o : Out σ ε φ} (hn : ∀ e ∈ o.events, rank e < n)
    (h : J o.state o.events o.effects) : J (drain hs n o).state [] (drain hs n o).effects := by
  induction n generalizing o with
  | zero =>
    have ho : o.events = [] := List.eq_nil_iff_forall_not_mem.mpr fun e he => by
      simpa using hn e he
    rw [ho] at h
    exact h
  | succ n ih =>
    by_cases ho : o.events = []
    · rw [drain_of_events_nil ho]
      rwa [ho] at h
    · rw [drain_succ ho]
      refine ih (Ranked.round hr hn (by simp)) (hJ.round ?_)
      simpa using h

end Bus
