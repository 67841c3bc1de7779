import Wandr.Arbiter.Calls

/-!
# The resources of a live call

A call, once started, holds the proximity sensor and an entry of the focus stack.

* `Arbiter.live_call_keeps_resources`: as long as its process does not stop a ring
  of its own meanwhile, the call keeps both, and the sensor is on, so that a
  blanked panel can be uncovered;
* `Arbiter.live_call_declines`: a call left without its sensor as a ring is
  stopped, since the ring and the call hold it under one name.
-/

namespace Wandr

open Text

/-- The event takes the proximity sensor from a process. -/
def Event.Drops (p : Pid) (e : Event) : Prop :=
  e = .commsActive p false ∨ e = .surfaceRemoved p ∨ e = .sensorRelease .proximity p

namespace Arbiter

/-! ## What happens during a call -/

/-- The arguments of an audio verb name a process. -/
def Names (args : String) (a : Arbiter) (p : Pid) : Prop :=
  ∃ app, AudioModule.resolve (trim args) a.store = some (p, app)

/-- The call of a process goes on: the process neither ends it nor dies. -/
def LiveCall (p : Pid) (a : Arbiter) : Stimulus → Prop
  | .command (.audio .callEnd) args => Names args a p → a.mods.audio.comms ≠ some p
  | .command (.sensors .sensorHold) _ => p ≠ manualRequester
  | .command verb _ => verb.owner ∈ phoneModules
  | .inject e => ¬ e.Drops p
  | .environment _ => True

/-- A process declines a ring of its own. -/
def Declines (p : Pid) (a : Arbiter) : Stimulus → Prop
  | .command (.audio .ringStop) args => Names args a p ∧ a.mods.audio.ringing = some p
  | _ => False

/-- A process abandons the focus, or another one gains it for good. -/
def Forfeits (p : Pid) (a : Arbiter) : Stimulus → Prop
  | .command (.audio .focusAbandon) args => Names args a p
  | .command (.audio .focusRequest) args =>
    ∃ q app, q ≠ p ∧ AudioModule.focusWanted args a.store = some (q, app, .gain)
  | _ => False

variable {p : Pid} {a : Arbiter} {q : List Event} {fx : List Effect}

theorem LiveCall.owner {verb : Verb} {args : String} (h : LiveCall p a (.command verb args)) :
    verb.owner ∈ phoneModules := by
  unfold LiveCall at h
  split at h <;> simp_all [Verb.owner, phoneModules]

variable [Fpu] {clock : Clock}

/-! ## The proximity sensor follows its holders -/

theorem tracks_settles {b : Bool} {kind : SensorKind} (hk : kind ≠ .light) :
    Bus.Settles (fun a _ fx => SensorsModule.Tracks b kind a.mods.sensors fx)
      (handlers phoneModules clock) := by
  intro a e q fx h
  rw [fan_phoneModules]
  have hp : ∀ f ∈ (a.powerReacts clock e).2.effects, f.sensorOn kind = none := fun f hf =>
    Effect.sensorOn_of_power hk ((PowerModule.onEvent_follows e).forall_effects rfl f hf)
  have ha : ∀ f ∈ (a.audioReacts e).2.effects, f.sensorOn kind = none := fun f hf =>
    Effect.sensorOn_of_audio
      ((AudioModule.onEvent_aside (R := Store.Agree) (E := fun _ => False) e).forall_effects rfl f
        hf)
  have hpa := (h.append hp).append ha
  simp only [phonesReact]
  rw [← List.append_assoc, ← List.append_assoc, SensorsModule.tracks_append]
  exact SensorsModule.Tracks.onEvent (SensorsModule.tracks_append.mp (by simpa using hpa))

theorem tracks_command {b : Bool} {kind : SensorKind} (hk : kind ≠ .light) {verb : Verb}
    {args : String} (hv : verb.owner ∈ phoneModules)
    (h : SensorsModule.Tracks b kind a.mods.sensors fx) :
    SensorsModule.Tracks b kind (a.handle clock verb args).1.state.mods.sensors
      (fx ++ (a.handle clock verb args).1.effects) := by
  obtain ⟨v, rfl⟩ | ⟨v, rfl⟩ | ⟨v, rfl⟩ := owner_mem_phoneModules hv
  · refine h.append fun f hf => Effect.sensorOn_of_power hk ?_
    exact (PowerModule.onCommand_within (R := Store.Agree) (E := fun _ => True) (fun _ => trivial)
      v args).forall_effects rfl f hf
  · refine h.append fun f hf => Effect.sensorOn_of_audio ?_
    exact (AudioModule.onCommand_aside (R := Store.Agree) v args).forall_effects rfl f hf
  · rw [SensorsModule.tracks_append]
    exact SensorsModule.Tracks.onCommand (SensorsModule.tracks_append.mp (by simpa using h))

/-- In a run of the group the sensor is on when somebody holds it. -/
theorem Run.tracks {Ok : Arbiter → Stimulus → Prop} {a₀ : Arbiter} {b : Bool} {kind : SensorKind}
    (hk : kind ≠ .light)
    (hOk : ∀ {a verb args}, Ok a (.command verb args) → verb.owner ∈ phoneModules)
    (h₀ : SensorsModule.Tracks b kind a₀.mods.sensors []) (h : Run phoneModules Ok a₀ a fx) :
    SensorsModule.Tracks b kind a.mods.sensors fx := by
  refine h.invariant (J := fun a fx => SensorsModule.Tracks b kind a.mods.sensors fx) h₀
    fun clock i hJ hi _ => ?_
  cases i with
  | command verb args =>
    exact command_settles _ (tracks_settles hk) (tracks_command hk (hOk hi) hJ)
  | inject e => exact inject_settles _ (tracks_settles hk) hJ
  | environment s => simpa [respond] using hJ

/-! ## The call keeps the sensor -/

/-- A process holds the proximity sensor, or is about to. -/
structure Held (p : Pid) (a : Arbiter) (q : List Event) : Prop where
  sensor : p ∈ a.mods.sensors.holders .proximity ∨ .sensorAcquire .proximity p ∈ q ∨
    .commsActive p true ∈ q
  keep : ∀ e ∈ q, ¬ e.Drops p

omit [Fpu] in
theorem mem_holdersAfter {e : Event} {hs : List Pid} (he : ¬ e.Drops p) (hp : p ∈ hs) :
    p ∈ SensorsModule.holdersAfter .proximity e hs := by
  cases e with
  | sensorAcquire k r =>
    rw [SensorsModule.holdersAfter]
    split
    · exact List.mem_append_left _ hp
    · exact hp
  | sensorRelease k r =>
    rw [SensorsModule.holdersAfter]
    split
    · next hk =>
      have hr : p ≠ r := fun h => he (.inr (.inr (by rw [hk, h])))
      exact List.mem_filter.mpr ⟨hp, by simpa using hr⟩
    · exact hp
  | surfaceRemoved r =>
    have hr : p ≠ r := fun h => he (.inr (.inl (by rw [h])))
    exact List.mem_filter.mpr ⟨hp, by simpa using hr⟩
  | _ => exact hp

omit [Fpu] in
/-- Only the end of the call makes the power module give up the sensor. -/
theorem not_drops_of_follows {e e' : Event} (he : ¬ e.Drops p) (h : PowerModule.Follows e e') :
    ¬ e'.Drops p := by
  rcases h with ⟨r, rfl, rfl⟩ | ⟨r, rfl, rfl⟩ | rfl
  · simp [Event.Drops]
  · have hr : r ≠ p := fun h => he (.inl (by rw [h]))
    simp [Event.Drops, hr]
  · simp [Event.Drops]

/-- No event of a live call ends it. -/
theorem phonesReact_keep {e : Event} (he : ¬ e.Drops p) :
    ∀ e' ∈ (a.phonesReact clock e).events, ¬ e'.Drops p := by
  intro e' he'
  rcases phonesReact_emits e' he' with hf | ⟨near, rfl⟩
  · exact not_drops_of_follows he hf
  · simp [Event.Drops]

theorem held_settles : Bus.Settles (fun a q _ => Held p a q) (handlers phoneModules clock) := by
  intro a e q fx h
  rw [fan_phoneModules]
  have he := h.keep e List.mem_cons_self
  have hs : (a.phonesReact clock e).state.mods.sensors.holders .proximity =
      SensorsModule.holdersAfter .proximity e (a.mods.sensors.holders .proximity) :=
    SensorsModule.holders_onEvent
  refine ⟨?_, fun e' he' => ?_⟩
  · rw [hs]
    rcases h.sensor with hp | hp | hp
    · exact .inl (mem_holdersAfter he hp)
    · rcases List.mem_cons.mp hp with rfl | hp
      · left
        by_cases hm : p ∈ a.mods.sensors.holders .proximity <;>
          simp [SensorsModule.holdersAfter, hm]
      · exact .inr (.inl (List.mem_append_left _ hp))
    · rcases List.mem_cons.mp hp with rfl | hp
      · refine .inr (.inl (List.mem_append_right _ (List.mem_append_left _ ?_)))
        rw [powerReacts, PowerModule.onEvent, PowerModule.onCommsActive_events]
        simp
      · exact .inr (.inr (List.mem_append_left _ hp))
  · rcases List.mem_append.mp he' with he' | he'
    · exact h.keep e' (List.mem_cons_of_mem _ he')
    · exact phonesReact_keep he e' he'

/-- What the command of a live call emits, unless it declines a ring. -/
theorem keep_command {verb : Verb} {args : String} (hl : LiveCall p a (.command verb args))
    (hd : ¬ Declines p a (.command verb args)) :
    ∀ e ∈ (a.handle clock verb args).1.events, ¬ e.Drops p := by
  intro e he
  obtain ⟨v, rfl⟩ | ⟨v, rfl⟩ | ⟨v, rfl⟩ := owner_mem_phoneModules hl.owner
  · obtain ⟨on, rfl⟩ := (PowerModule.onCommand_within (R := Store.Agree)
      (E := fun e => ∃ on, e = .screenState on) (fun on => ⟨on, rfl⟩) v args).forall_events rfl e he
    simp [Event.Drops]
  · have hv := AudioModule.onCommand_step (m := a.mods.audio) (c := { store := a.store })
      v args
    have he : e ∈ (a.mods.audio.onCommand v args { store := a.store }).2.1.events := he
    generalize (a.mods.audio.onCommand v args { store := a.store }).1 = m' at hv
    generalize (a.mods.audio.onCommand v args { store := a.store }).2.1 = c' at hv he
    cases hv with
    | request => simp at he
    | abandon => simp at he
    | callStart =>
      rw [AudioModule.callStart_events] at he
      simp_all [Event.Drops]
    | @callEnd _ r app hr hc =>
      have hne : r ≠ p := fun h => hl ⟨app, h ▸ hr⟩ (h ▸ hc)
      have he : e = .videoCallActive r false ∨ e = .commsActive r false := by
        simpa [AudioModule.callEnd_events] using he
      rcases he with rfl | rfl <;> simp [Event.Drops, hne]
    | callVideo => simp_all [Event.Drops]
    | ringStart =>
      rw [AudioModule.ringStart_events] at he
      simp_all [Event.Drops]
    | @ringStop _ r app hr hc =>
      have hne : r ≠ p := fun h => hd ⟨⟨app, h ▸ hr⟩, h ▸ hc⟩
      have he : e = .sensorRelease .proximity r := by
        simpa [AudioModule.ringStop_events] using he
      simp [he, Event.Drops, hne]
    | quiet _ _ _ _ hq => simp [hq] at he
  · have := (SensorsModule.onCommand_aside (R := Store.Agree) v args).forall_events rfl e he
    cases e <;> simp_all [ModuleId.mayEmit, Event.Drops]

/-- A command of a live call leaves its process a holder. -/
theorem Held.command {verb : Verb} {args : String} (h : Held p a [])
    (hl : LiveCall p a (.command verb args)) (hd : ¬ Declines p a (.command verb args)) :
    Held p (a.handle clock verb args).1.state (a.handle clock verb args).1.events := by
  refine ⟨.inl ?_, keep_command hl hd⟩
  have hp : p ∈ a.mods.sensors.holders .proximity := by simpa using h.sensor
  obtain ⟨v, rfl⟩ | ⟨v, rfl⟩ | ⟨v, rfl⟩ := owner_mem_phoneModules hl.owner
  · exact hp
  · exact hp
  · refine (SensorsModule.mem_holders_onCommand ?_).mpr hp
    rintro rfl
    exact hl

/-- The start of a call asks for the sensor. -/
theorem held_callStart {args app : String}
    (hp : AudioModule.resolve (trim args) a.store = some (p, app)) :
    Held p (a.handle clock (.audio .callStart) args).1.state
      (a.handle clock (.audio .callStart) args).1.events := by
  have he : (a.handle clock (.audio .callStart) args).1.events = [.commsActive p true] := by
    have := AudioModule.callStart_events (m := a.mods.audio) (p := p) (a := app)
      (c := { store := a.store })
    simpa [handle, Modules.onCommand, AudioModule.onCommand, AudioModule.cmdCallStart, hp]
      using this
  rw [he]
  exact ⟨.inr (.inr List.mem_cons_self), by simp [Event.Drops]⟩

/-! ## The call keeps the focus -/

/-- A process is in the focus stack, and nothing pending removes it. -/
structure Focused (p : Pid) (a : Arbiter) (q : List Event) : Prop where
  focus : p ∈ a.mods.audio.focused
  keep : ∀ e ∈ q, ¬ e.Drops p

theorem focused_settles :
    Bus.Settles (fun a q _ => Focused p a q) (handlers phoneModules clock) := by
  intro a e q fx h
  rw [fan_phoneModules]
  have he := h.keep e List.mem_cons_self
  refine ⟨AudioModule.mem_focused_onEvent.mpr ⟨fun hs => he (.inr (.inl hs)), h.focus⟩,
    fun e' he' => ?_⟩
  rcases List.mem_append.mp he' with he' | he'
  · exact h.keep e' (List.mem_cons_of_mem _ he')
  · exact phonesReact_keep he e' he'

/-- A command of a live call that does not forfeit the focus leaves its process in
    the stack. -/
theorem Focused.command {verb : Verb} {args : String} (h : Focused p a [])
    (hl : LiveCall p a (.command verb args)) (hd : ¬ Declines p a (.command verb args))
    (hf : ¬ Forfeits p a (.command verb args)) :
    Focused p (a.handle clock verb args).1.state (a.handle clock verb args).1.events := by
  refine ⟨?_, keep_command hl hd⟩
  obtain ⟨v, rfl⟩ | ⟨v, rfl⟩ | ⟨v, rfl⟩ := owner_mem_phoneModules hl.owner
  · exact h.focus
  · have hv := AudioModule.onCommand_step (m := a.mods.audio) (c := { store := a.store })
      v args
    show p ∈ (a.mods.audio.onCommand v args { store := a.store }).1.focused
    generalize (a.mods.audio.onCommand v args { store := a.store }).1 = m' at hv
    generalize (a.mods.audio.onCommand v args { store := a.store }).2.1 = c' at hv
    have hp := h.focus
    cases hv with
    | @request _ r app kind hr =>
      refine AudioModule.mem_focused_grant.mpr ?_
      by_cases hne : r = p
      · exact .inl hne.symm
      · refine .inr ⟨?_, hp⟩
        rintro rfl
        exact hf ⟨r, app, hne, hr⟩
    | @abandon _ r app hr =>
      refine AudioModule.mem_focused_dropPid.mpr ⟨?_, hp⟩
      rintro rfl
      exact hf ⟨app, hr⟩
    | callStart => exact AudioModule.mem_focused_callStart.mpr (.inr hp)
    | @callEnd _ r app hr hc =>
      refine AudioModule.mem_focused_callEnd.mpr ⟨?_, hp⟩
      rintro rfl
      exact hl ⟨app, hr⟩ hc
    | callVideo => exact hp
    | ringStart => exact AudioModule.mem_focused_ringStart.mpr (.inr hp)
    | @ringStop _ r app hr hc =>
      refine AudioModule.mem_focused_ringStop.mpr ⟨?_, hp⟩
      rintro rfl
      exact hd ⟨⟨app, hr⟩, hc⟩
    | quiet hs => rwa [AudioModule.focused, hs]
  · exact h.focus

/-- The start of a call takes the focus. -/
theorem focused_callStart {args app : String}
    (hp : AudioModule.resolve (trim args) a.store = some (p, app)) :
    Focused p (a.handle clock (.audio .callStart) args).1.state
      (a.handle clock (.audio .callStart) args).1.events := by
  refine ⟨?_, (held_callStart hp).keep⟩
  have hm : (a.handle clock (.audio .callStart) args).1.state.mods.audio =
      (a.mods.audio.callStart p app { store := a.store }).1 := by
    simp [handle, Modules.onCommand, AudioModule.onCommand, AudioModule.cmdCallStart, hp]
  rw [hm]
  exact AudioModule.mem_focused_callStart.mpr (.inl rfl)

/-! ## A run from the start of the call -/

/-- Stimuli of the group. -/
def OfPhone : Stimulus → Prop
  | .command verb _ => verb.owner ∈ phoneModules
  | _ => True

/-- The call of a process goes on, and the process declines no ring. -/
def QuietCall (p : Pid) (a : Arbiter) (i : Stimulus) : Prop := LiveCall p a i ∧ ¬ Declines p a i

theorem Run.held {a₀ : Arbiter} (h₀ : Held p a₀ []) (h : Run phoneModules (QuietCall p) a₀ a fx) :
    Held p a [] := by
  refine h.invariant (J := fun a _ => Held p a []) h₀ fun {a fx} clock i hJ hi _ => ?_
  cases i with
  | command verb args =>
    exact command_settles (J := fun a q _ => Held p a q) fx held_settles
      (hJ.command hi.1 hi.2)
  | inject e =>
    have hs : p ∈ a.mods.sensors.holders .proximity := by simpa using hJ.sensor
    refine inject_settles (J := fun a q _ => Held p a q) fx held_settles ⟨.inl hs, ?_⟩
    exact List.forall_mem_singleton.mpr hi.1
  | environment s => exact ⟨hJ.sensor, hJ.keep⟩

theorem Run.focused {a₀ : Arbiter} (h₀ : Focused p a₀ [])
    (h : Run phoneModules (fun a i => QuietCall p a i ∧ ¬ Forfeits p a i) a₀ a fx) :
    Focused p a [] := by
  refine h.invariant (J := fun a _ => Focused p a []) h₀ fun {a fx} clock i hJ hi _ => ?_
  cases i with
  | command verb args =>
    exact command_settles (J := fun a q _ => Focused p a q) fx focused_settles
      (hJ.command hi.1.1 hi.1.2 hi.2)
  | inject e =>
    refine inject_settles (J := fun a q _ => Focused p a q) fx focused_settles ⟨hJ.focus, ?_⟩
    exact List.forall_mem_singleton.mpr hi.1.1
  | environment s => exact ⟨hJ.focus, hJ.keep⟩

/-- The state after the start of a call. -/
def callStarted (clock : Clock) (a : Arbiter) (args : String) : Arbiter × List Effect :=
  a.respond phoneModules clock (.command (.audio .callStart) args)

theorem callStarted_settles {J : Arbiter → List Event → List Effect → Prop} {args : String}
    (fx : List Effect)
    (hJ : Bus.Settles J (handlers phoneModules clock))
    (h : J (a.handle clock (.audio .callStart) args).1.state
      (a.handle clock (.audio .callStart) args).1.events
      (fx ++ (a.handle clock (.audio .callStart) args).1.effects)) :
    J (a.callStarted clock args).1 [] (fx ++ (a.callStarted clock args).2) := by
  simp only [callStarted, respond_command]
  exact command_settles fx hJ h

/-- From the start of a call to its end or to the death of its process, whatever
    commands, events and changes of the store come in between: as long as the
    process stops no ring of its own, it holds the proximity sensor, the sensor is
    on whenever the panel is blanked, and the process stays in the focus stack
    unless it abandons the focus or another process gains it for good. -/
theorem live_call_keeps_resources {a₀ b : Arbiter} {fx gx : List Effect} {args app : String}
    (h₀ : a₀.mods.sensors = {}) (h : Run phoneModules (fun _ => OfPhone) a₀ a fx)
    (hp : AudioModule.resolve (trim args) a.store = some (p, app))
    (hb : Run phoneModules (QuietCall p) (a.callStarted clock args).1 b gx) :
    p ∈ b.mods.sensors.holders .proximity ∧
    (b.mods.power.blanked →
      Trace.last (Effect.sensorOn .proximity) false
        (fx ++ (a.callStarted clock args).2 ++ gx) = true) ∧
    (Run phoneModules (fun a i => QuietCall p a i ∧ ¬ Forfeits p a i)
      (a.callStarted clock args).1 b gx → p ∈ b.mods.audio.focused) := by
  have hkind : SensorKind.proximity ≠ .light := by decide
  have hsensor : p ∈ b.mods.sensors.holders .proximity := by
    have hs : Held p (a.callStarted clock args).1 [] :=
      callStarted_settles (J := fun a q _ => Held p a q) fx held_settles
        (held_callStart hp)
    simpa using (hb.held hs).sensor
  have htracks : SensorsModule.Tracks false .proximity b.mods.sensors
      (fx ++ (a.callStarted clock args).2 ++ gx) := by
    have h₁ : SensorsModule.Tracks false .proximity a.mods.sensors fx :=
      h.tracks hkind (fun h => h) (by simp [SensorsModule.Tracks, h₀])
    have h₂ : SensorsModule.Tracks false .proximity (a.callStarted clock args).1.mods.sensors
        (fx ++ (a.callStarted clock args).2) :=
      callStarted_settles (J := fun a _ fx =>
        SensorsModule.Tracks false .proximity a.mods.sensors fx)
        fx (tracks_settles hkind) (tracks_command hkind (by decide) h₁)
    rw [SensorsModule.tracks_append]
    exact hb.tracks hkind (fun h => h.1.owner) (SensorsModule.tracks_append.mp (by simpa using h₂))
  refine ⟨hsensor, fun _ => ?_, fun hf => ?_⟩
  · rw [htracks]
    cases hh : b.mods.sensors.holders .proximity with
    | nil => simp [hh] at hsensor
    | cons => rfl
  · have hs : Focused p (a.callStarted clock args).1 [] :=
      callStarted_settles (J := fun a q _ => Focused p a q) fx focused_settles
        (focused_callStart hp)
    exact (hf.focused hs).focus

end Arbiter

section

attribute [local instance] Fpu.comparator

namespace Arbiter

/-- A call during which another process rings and the phone is held to the ear. -/
theorem live_call_keeps_resources_atEar :
    let a := (callStarted ⟨0, 0⟩ {} "7").1
    let b := a.respond phoneModules ⟨0, 0⟩ (.command (.audio .ringStart) "8")
    let c := b.1.respond phoneModules ⟨0, 0⟩ (.inject (.proximityChanged true))
    c.1.mods.power.blanked = true ∧ (7 : Pid) ∈ c.1.mods.sensors.holders .proximity := by
  intro a b c
  have hb : Run phoneModules (QuietCall 7) a b.1 ([] ++ b.2) :=
    .step ⟨0, 0⟩ (.command (.audio .ringStart) "8") .start
      ⟨show ModuleId.audio ∈ phoneModules by decide, id⟩ (by decide)
  have hc : Run phoneModules (QuietCall 7) a c.1 ([] ++ b.2 ++ c.2) :=
    .step ⟨0, 0⟩ (.inject (.proximityChanged true)) hb ⟨by simp [LiveCall, Event.Drops], id⟩
      (by decide)
  have hp : AudioModule.resolve (trim "7") ({} : Arbiter).store = some (7, "?") := by decide
  exact ⟨by decide, (live_call_keeps_resources rfl .start hp hc).1⟩

/-- The process of a call is rung again and declines, with the phone at the ear: the
    call goes on, but without the sensor that would uncover the panel and without
    the focus. -/
theorem live_call_declines :
    let a := (callStarted ⟨0, 0⟩ {} "7").1
    ∃ b gx, Run phoneModules (fun a i => LiveCall 7 a i ∧ ¬ Forfeits 7 a i) a b gx ∧
      b.mods.power.comms = {7} ∧ b.mods.power.blanked = true ∧
      b.mods.sensors.holders .proximity = [] ∧ b.mods.audio.focused = [] ∧
      Trace.last (Effect.sensorOn .proximity) false ((callStarted ⟨0, 0⟩ {} "7").2 ++ gx) =
        false := by
  intro a
  let b := a.respond phoneModules ⟨0, 0⟩ (.command (.audio .ringStart) "7")
  let c := b.1.respond phoneModules ⟨0, 0⟩ (.inject (.proximityChanged true))
  let d := c.1.respond phoneModules ⟨0, 0⟩ (.command (.audio .ringStop) "7")
  refine ⟨d.1, [] ++ b.2 ++ c.2 ++ d.2, ?_, by decide, by decide, by decide, by decide, by decide⟩
  have hb : Run phoneModules (fun a i => LiveCall 7 a i ∧ ¬ Forfeits 7 a i) a b.1 ([] ++ b.2) :=
    .step ⟨0, 0⟩ (.command (.audio .ringStart) "7") .start
      ⟨show ModuleId.audio ∈ phoneModules by decide, id⟩ (by decide)
  have hc : Run phoneModules (fun a i => LiveCall 7 a i ∧ ¬ Forfeits 7 a i) a c.1
      ([] ++ b.2 ++ c.2) :=
    .step ⟨0, 0⟩ (.inject (.proximityChanged true)) hb ⟨by simp [LiveCall, Event.Drops], id⟩
      (by decide)
  exact .step ⟨0, 0⟩ (.command (.audio .ringStop) "7") hc
    ⟨show ModuleId.audio ∈ phoneModules by decide, id⟩ (by decide)

end Arbiter

end

end Wandr
