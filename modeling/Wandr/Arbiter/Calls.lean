import Wandr.Arbiter.Panel
import Wandr.Arbiter.Runs

/-!
# Calls

What the modules concerned with calls know of one, together: the audio module
its session, the power module who is in a call, the sensors module who holds the
proximity sensor, and the notifications the badge of the call.

The functions of the modules are described first, as functions of what they know
(`AudioModule.onEvent_comms`, `PowerModule.onEvent_comms`,
`SensorsModule.holders_onEvent` and so on). An invariant of the group mentions the
events still pending, and is kept by the fan of the first of them
(`Arbiter.fan_phoneModules`).
-/

namespace Wandr

open Text

/-! ## The session of the audio module -/

namespace AudioModule

variable {m : AudioModule} {c : Ctx} {p q : Pid} {a : String} {kind : FocusKind}

/-- The process in the focus stack. -/
def focused (m : AudioModule) : List Pid := m.stack.map FocusEntry.pid

@[simp] theorem grant_comms : (m.grant p a kind c).1.comms = m.comms := by cases kind <;> rfl
@[simp] theorem grant_ringing : (m.grant p a kind c).1.ringing = m.ringing := by cases kind <;> rfl

@[simp] theorem grant_store : (m.grant p a kind c).2.store = c.store := by
  cases kind with
  | gain => simp [grant]
  | gainTransient => simp only [grant]; split <;> rfl
  | gainTransientMayDuck => simp only [grant]; split <;> rfl

@[simp] theorem grant_events : (m.grant p a kind c).2.events = c.events :=
  (grant_aside (R := Store.Agree) (E := fun _ => False)).events_eq

theorem mem_focused_filter :
    q ∈ (m.stack.filter fun e => e.pid ≠ p).map FocusEntry.pid ↔ q ≠ p ∧ q ∈ m.focused := by
  constructor
  · intro h
    obtain ⟨e, he, rfl⟩ := List.mem_map.mp h
    obtain ⟨he, hp⟩ := List.mem_filter.mp he
    exact ⟨by simpa using hp, List.mem_map_of_mem he⟩
  · rintro ⟨hq, h⟩
    obtain ⟨e, he, rfl⟩ := List.mem_map.mp h
    exact List.mem_map_of_mem (List.mem_filter.mpr ⟨he, by simpa using hq⟩)

/-- A grant puts its process in the stack, and only a permanent one removes
    another. -/
theorem mem_focused_grant :
    q ∈ (m.grant p a kind c).1.focused ↔ q = p ∨ (kind ≠ .gain ∧ q ∈ m.focused) := by
  have hrest : q ∈ (m.stack.filter fun e => e.pid ≠ p).map FocusEntry.pid ++ [p] ↔
      q = p ∨ q ∈ m.focused := by
    rw [List.mem_append, mem_focused_filter, List.mem_singleton]
    tauto
  cases kind with
  | gain => simp [grant, focused]
  | gainTransient => simpa [grant, focused] using hrest
  | gainTransientMayDuck => simpa [grant, focused] using hrest

@[simp] theorem dropPid_comms : (m.dropPid p c).1.comms = m.comms := by
  unfold dropPid; dsimp only; split <;> rfl
@[simp] theorem dropPid_ringing : (m.dropPid p c).1.ringing = m.ringing := by
  unfold dropPid; dsimp only; split <;> rfl

@[simp] theorem dropPid_store : (m.dropPid p c).2.store = c.store := by
  unfold dropPid
  dsimp only
  split
  · split <;> rfl
  · rfl

@[simp] theorem dropPid_events : (m.dropPid p c).2.events = c.events :=
  (dropPid_aside (R := Store.Agree) (E := fun _ => False)).events_eq

theorem mem_focused_dropPid : q ∈ (m.dropPid p c).1.focused ↔ q ≠ p ∧ q ∈ m.focused := by
  unfold dropPid
  dsimp only
  split
  · exact mem_focused_filter
  · next h =>
    have hp : p ∉ m.focused := by simpa [focused] using h
    exact ⟨fun hq => ⟨fun e => hp (e ▸ hq), hq⟩, And.right⟩

@[simp] theorem stopRing_comms : (m.stopRing p a c).1.comms = m.comms := by
  unfold stopRing; split <;> rfl

@[simp] theorem stopRing_focused : (m.stopRing p a c).1.focused = m.focused := by
  unfold stopRing; split <;> rfl

@[simp] theorem stopRing_events : (m.stopRing p a c).2.events = c.events :=
  (stopRing_aside (R := Store.Agree) (E := fun _ => False)).events_eq

@[simp] theorem callStart_comms : (m.callStart p a c).1.comms = some p := rfl
@[simp] theorem callEnd_comms : (m.callEnd p a c).1.comms = none := by simp [callEnd]

@[simp] theorem ringStart_comms : (m.ringStart p a c).1.comms = m.comms := by simp [ringStart]
@[simp] theorem ringStop_comms : (m.ringStop p a c).1.comms = m.comms := by simp [ringStop]

theorem callStart_events : (m.callStart p a c).2.events = c.events ++ [.commsActive p true] := by
  simp [callStart]

theorem callEnd_events : (m.callEnd p a c).2.events =
    c.events ++ [.videoCallActive p false, .commsActive p false] := by
  simp [callEnd]

theorem ringStart_events :
    (m.ringStart p a c).2.events = c.events ++ [.sensorAcquire .proximity p] := by
  unfold ringStart
  cases hm : ({ m with ringing := some p }.grant p a .gainTransient
    (c.emit (.sensorAcquire .proximity p))).1.ringerMode <;> simp [hm]

theorem ringStop_events :
    (m.ringStop p a c).2.events = c.events ++ [.sensorRelease .proximity p] := by
  simp [ringStop]

/-- What becomes of the session when an event is heard. -/
def commsAfter : Event → Option Pid → Option Pid
  | .surfaceRemoved p, o => if o = some p then none else o
  | _, o => o

theorem onEvent_comms {e : Event} : (m.onEvent e c).1.comms = commsAfter e m.comms := by
  unfold onEvent
  split
  · next p =>
    by_cases hc : m.comms = some p <;> by_cases hr : m.ringing = some p <;>
      simp [onSurfaceRemoved, commsAfter, hc, hr]
  · next h =>
    cases e with
    | surfaceRemoved p => exact absurd rfl (h p)
    | _ => rfl

theorem onEvent_events {e : Event} : (m.onEvent e c).2.events = c.events :=
  (onEvent_aside (R := Store.Agree) (E := fun _ => False) e).events_eq

theorem mem_focused_callStart :
    q ∈ (m.callStart p a c).1.focused ↔ q = p ∨ q ∈ m.focused := by
  simp only [callStart]
  exact mem_focused_grant.trans (by simp)

theorem mem_focused_callEnd : q ∈ (m.callEnd p a c).1.focused ↔ q ≠ p ∧ q ∈ m.focused :=
  mem_focused_dropPid

theorem mem_focused_ringStart :
    q ∈ (m.ringStart p a c).1.focused ↔ q = p ∨ q ∈ m.focused := by
  simp only [ringStart]
  exact mem_focused_grant.trans (by simp [focused])

theorem mem_focused_ringStop : q ∈ (m.ringStop p a c).1.focused ↔ q ≠ p ∧ q ∈ m.focused := by
  simp only [ringStop]
  exact mem_focused_dropPid.trans (by simp)

theorem mem_focused_onEvent {e : Event} :
    q ∈ (m.onEvent e c).1.focused ↔ e ≠ .surfaceRemoved q ∧ q ∈ m.focused := by
  unfold onEvent
  split
  · next p =>
    have h : q ∈ (m.onSurfaceRemoved p c).1.focused ↔ q ≠ p ∧ q ∈ m.focused := by
      unfold onSurfaceRemoved
      dsimp only
      rw [mem_focused_dropPid]
      by_cases hc : m.comms = some p <;> by_cases hr : m.ringing = some p <;> simp [focused, hc, hr]
    rw [h, ne_comm]
    simp
  · next h => exact ⟨fun hq => ⟨h q, hq⟩, And.right⟩

/-- The focus that the arguments of `audio-focus-request` ask for. -/
def focusWanted (args : String) (s : Store) : Option (Pid × String × FocusKind) :=
  match splitWhitespace args with
  | [owner, kindTok] =>
    (FocusKind.fromWire kindTok).bind fun kind => (resolve owner s).map fun r => (r.1, r.2, kind)
  | _ => none

/-- What a verb does to the focus, to the session and to the ring. -/
inductive Step (m : AudioModule) (c : Ctx) : Verb → String → AudioModule → Ctx → Prop
  | request {args : String} {p : Pid} {a : String} {kind : FocusKind} :
      focusWanted args c.store = some (p, a, kind) →
      Step m c .focusRequest args (m.grant p a kind c).1 (m.grant p a kind c).2
  | abandon {args : String} {p : Pid} {a : String} : resolve (trim args) c.store = some (p, a) →
      Step m c .focusAbandon args (m.dropPid p c).1 (m.dropPid p c).2
  | callStart {args : String} {p : Pid} {a : String} : resolve (trim args) c.store = some (p, a) →
      Step m c .callStart args (m.callStart p a c).1 (m.callStart p a c).2
  | callEnd {args : String} {p : Pid} {a : String} : resolve (trim args) c.store = some (p, a) →
      m.comms = some p → Step m c .callEnd args (m.callEnd p a c).1 (m.callEnd p a c).2
  | callVideo {args : String} {p : Pid} {active : Bool} : m.comms = some p →
      Step m c .callVideo args m (c.emit (.videoCallActive p active))
  | ringStart {args : String} {p : Pid} {a : String} : resolve (trim args) c.store = some (p, a) →
      Step m c .ringStart args (m.ringStart p a c).1 (m.ringStart p a c).2
  | ringStop {args : String} {p : Pid} {a : String} : resolve (trim args) c.store = some (p, a) →
      m.ringing = some p → Step m c .ringStop args (m.ringStop p a c).1 (m.ringStop p a c).2
  | quiet {verb : Verb} {args : String} {m' : AudioModule} {c' : Ctx} : m'.stack = m.stack →
      m'.comms = m.comms → m'.ringing = m.ringing → c'.store = c.store → c'.events = c.events →
      Step m c verb args m' c'

variable {args : String}

theorem Step.refl {verb : Verb} : Step m c verb args m c := .quiet rfl rfl rfl rfl rfl

theorem cmdRequest_step :
    Step m c .focusRequest args (m.cmdRequest args c).1 (m.cmdRequest args c).2.1 := by
  unfold cmdRequest
  split
  · next owner kindTok hargs =>
    split
    · exact .refl
    · next kind hkind =>
      split
      · exact .refl
      · next p a hp => exact .request (by simp [focusWanted, hargs, hkind, hp])
  · exact .refl

theorem cmdAbandon_step :
    Step m c .focusAbandon args (m.cmdAbandon args c).1 (m.cmdAbandon args c).2.1 := by
  unfold cmdAbandon
  dsimp only
  split
  · exact .refl
  · split
    · exact .refl
    · next hp => exact .abandon hp

theorem cmdCallStart_step :
    Step m c .callStart args (m.cmdCallStart args c).1 (m.cmdCallStart args c).2.1 := by
  unfold cmdCallStart
  dsimp only
  split
  · exact .refl
  · next hp => exact .callStart hp

theorem cmdCallEnd_step :
    Step m c .callEnd args (m.cmdCallEnd args c).1 (m.cmdCallEnd args c).2.1 := by
  unfold cmdCallEnd
  dsimp only
  split
  · exact .refl
  · next hp =>
    split
    · exact .refl
    · next hc => exact .callEnd hp (not_not.mp hc)

theorem cmdCallVideo_step :
    Step m c .callVideo args (m.cmdCallVideo args c).1 (m.cmdCallVideo args c).2.1 := by
  unfold cmdCallVideo
  dsimp only
  split
  · exact .refl
  · split
    · exact .refl
    · next hc => exact .callVideo (not_not.mp hc)

theorem cmdRingStart_step :
    Step m c .ringStart args (m.cmdRingStart args c).1 (m.cmdRingStart args c).2.1 := by
  unfold cmdRingStart
  dsimp only
  split
  · exact .refl
  · next hp => exact .ringStart hp

theorem cmdRingStop_step :
    Step m c .ringStop args (m.cmdRingStop args c).1 (m.cmdRingStop args c).2.1 := by
  unfold cmdRingStop
  dsimp only
  split
  · exact .refl
  · next hp =>
    split
    · exact .refl
    · next hr => exact .ringStop hp (not_not.mp hr)

theorem onCommand_step (verb : Verb) (args : String) :
    Step m c verb args (m.onCommand verb args c).1 (m.onCommand verb args c).2.1 := by
  cases verb with
  | focusRequest => simpa only [onCommand] using cmdRequest_step
  | focusAbandon => simpa only [onCommand] using cmdAbandon_step
  | focusList => exact .refl
  | callStart => simpa only [onCommand] using cmdCallStart_step
  | callEnd => simpa only [onCommand] using cmdCallEnd_step
  | callVideo => simpa only [onCommand] using cmdCallVideo_step
  | ringStart => simpa only [onCommand] using cmdRingStart_step
  | ringStop => simpa only [onCommand] using cmdRingStop_step
  | route =>
    simp only [onCommand]
    unfold cmdRoute
    split
    · split
      · exact .refl
      · split
        · exact .refl
        · exact .quiet rfl rfl rfl rfl rfl
    · exact .refl
  | ringerMode =>
    simp only [onCommand]
    unfold cmdRingerMode
    split
    · exact .quiet rfl rfl rfl rfl rfl
    · exact .refl
  | volume =>
    simp only [onCommand]
    unfold cmdVolume
    dsimp only
    split
    · exact .refl
    · split
      · exact .refl
      · exact .quiet rfl rfl rfl rfl rfl
  | mute =>
    simp only [onCommand]
    unfold cmdMute
    dsimp only
    split
    · exact .refl
    · split
      · exact .refl
      · exact .quiet rfl rfl rfl rfl rfl
  | appMute =>
    simp only [onCommand]
    unfold cmdAppMute
    split
    · split
      · exact .refl
      · split
        · exact .refl
        · exact .quiet rfl rfl rfl rfl rfl
    · exact .refl
  | micMute =>
    simp only [onCommand]
    unfold cmdMicMute
    split
    · exact .refl
    · exact .quiet rfl rfl rfl (by simp) (by simp)
  | appMicMute =>
    simp only [onCommand]
    unfold cmdAppMicMute
    split
    · split
      · exact .refl
      · split
        · exact .refl
        · exact .quiet rfl rfl rfl rfl rfl
    · exact .refl
  | playTone =>
    simp only [onCommand]
    unfold cmdPlayTone
    dsimp only
    split
    · exact .refl
    · exact .quiet rfl rfl rfl rfl rfl

end AudioModule

/-! ## The calls of the power module -/

namespace PowerModule

variable {clock : Clock} {m : PowerModule} {c : Ctx}

/-- What becomes of who is in a call when an event is heard. -/
def commsAfter : Event → Finset Pid → Finset Pid
  | .commsActive p true, s => insert p s
  | .commsActive p false, s | .surfaceRemoved p, s => s.erase p
  | _, s => s

/-- The module answers the start and the end of a call with a request for the
    proximity sensor. -/
theorem onCommsActive_events {p : Pid} {active : Bool} : (m.onCommsActive p active c).2.events =
    c.events ++ [if active then .sensorAcquire .proximity p else .sensorRelease .proximity p] := by
  have h (m : PowerModule) : (m.ensureUnblanked c).2.events = c.events :=
    (ensureUnblanked_within (R := Eq) (E := fun _ => False)).events_eq
  cases active with
  | true =>
    unfold onCommsActive
    simp only [Bool.not_true, Bool.false_eq_true, false_and, if_false, if_true]
    split <;> simp
  | false =>
    unfold onCommsActive
    simp only [Bool.not_false, if_true, true_and, Bool.false_eq_true, if_false]
    split <;> split <;> simp [h]

theorem setPanelOn_comms {on : Bool} : (m.setPanelOn clock on c).1.comms = m.comms :=
  (setPanelOn_eq clock m c on).1.comms

theorem onIdleTick_comms : (m.onIdleTick clock c).1.comms = m.comms := by
  have h := (reconcileLight_onlyMinor (m := m) (c := c) clock).panel.comms
  unfold onIdleTick
  generalize m.reconcileLight clock c = r at h ⊢
  obtain ⟨m', c'⟩ := r
  dsimp only at h ⊢
  split
  · exact h
  · split
    · exact h
    · split
      · exact h
      · split
        · exact h
        · split
          · exact setPanelOn_comms.trans h
          · exact h

theorem onProximityChanged_comms {near : Bool} :
    (m.onProximityChanged near c).1.comms = m.comms := by
  unfold onProximityChanged
  dsimp only
  split
  · rfl
  · split
    · exact ensureUnblanked_eq.1.comms
    · split
      · exact ensureUnblanked_eq.1.comms
      · rfl

variable [Fpu]

theorem onEvent_comms {e : Event} : (m.onEvent clock e c).1.comms = commsAfter e m.comms := by
  unfold onEvent
  split
  · exact onScreenState_onlyMinor.panel.comms
  · exact onSurfaceRemoved_eq.1.comms
  · next p active =>
    cases active with
    | true => exact onCommsActive_true_eq.1.comms
    | false => exact onCommsActive_false_eq.1.comms
  · next p active =>
    cases active with
    | true =>
      exact (ensureUnblanked_eq (m := { m with videoCalls := insert p m.videoCalls })).1.comms
    | false => rfl
  · exact onProximityChanged_comms
  · exact onLight_onlyMinor.panel.comms
  · exact onIdleTick_comms
  · next hs hc _ _ _ _ =>
    cases e with
    | surfaceRemoved p => exact absurd rfl (hs p)
    | commsActive p active => exact absurd rfl (hc p active)
    | _ => rfl

/-- The events a reaction of the module can emit. -/
def Follows (e e' : Event) : Prop :=
  (∃ p, e = .commsActive p true ∧ e' = .sensorAcquire .proximity p) ∨
  (∃ p, e = .commsActive p false ∧ e' = .sensorRelease .proximity p) ∨ e' = .screenState false

/-- The module reacts to calls with requests for the proximity sensor, and to
    nothing else, but for the sleep of an idle panel. -/
theorem onEvent_follows (e : Event) :
    c.Within Eq (Follows e) (ModuleId.mayRequest .power) (m.onEvent clock e c).2 := by
  unfold onEvent
  split
  · exact onScreenState_within
  · exact onSurfaceRemoved_within
  · next p active =>
    cases active with
    | true => exact onCommsActive_within (.inl ⟨p, rfl, rfl⟩)
    | false => exact onCommsActive_within (.inr (.inl ⟨p, rfl, rfl⟩))
  · exact onVideoCallActive_within
  · exact onProximityChanged_within
  · exact applyAutoBrightness_within
  · exact onIdleTick_within (.inr (.inr rfl))
  · exact .refl

end PowerModule

/-! ## The holders of a sensor -/

/-- What an effect tells of whether a sensor is on. -/
def Effect.sensorOn (kind : SensorKind) : Effect → Option Bool
  | .setSensor k on _ => if k = kind then some on else none
  | _ => none

/-- The power module commands the light sensor only. -/
theorem Effect.sensorOn_of_power {kind : SensorKind} {f : Effect} (hk : kind ≠ .light)
    (h : ModuleId.mayRequest .power f) : f.sensorOn kind = none := by
  cases f with
  | setSensor k on rate =>
    cases k with
    | light => simp [sensorOn, hk.symm]
    | _ => simp [ModuleId.mayRequest] at h
  | _ => rfl

/-- The audio module commands no sensor. -/
theorem Effect.sensorOn_of_audio {kind : SensorKind} {f : Effect}
    (h : ModuleId.mayRequest .audio f) : f.sensorOn kind = none := by
  cases f with
  | setSensor k on rate => simp [ModuleId.mayRequest] at h
  | _ => rfl

namespace SensorsModule

variable {m : SensorsModule} {c : Ctx} {k kind : SensorKind} {p q : Pid}

/-- What becomes of the holders of a kind when an event is heard. -/
def holdersAfter (kind : SensorKind) : Event → List Pid → List Pid
  | .sensorAcquire k p, hs => if k = kind ∧ p ∉ hs then hs ++ [p] else hs
  | .sensorRelease k p, hs => if k = kind then hs.filter fun r => r ≠ p else hs
  | .surfaceRemoved p, hs => hs.filter fun r => r ≠ p
  | _, hs => hs

@[simp]
theorem holders_setHolders {hs : List Pid} :
    (m.setHolders k hs).holders kind = if kind = k then hs else m.holders kind :=
  Function.update_apply ..

theorem holders_acquire :
    (m.acquire k p c).1.holders kind = holdersAfter kind (.sensorAcquire k p) (m.holders kind) := by
  unfold acquire
  by_cases hk : k = kind
  · subst hk
    by_cases hp : p ∈ m.holders k <;> simp [holdersAfter, hp]
  · by_cases hp : p ∈ m.holders k <;> simp [holdersAfter, hp, hk, Ne.symm hk]

theorem holders_release :
    (m.release k p c).1.holders kind = holdersAfter kind (.sensorRelease k p) (m.holders kind) := by
  have h : (m.release k p c).1.holders = (m.setHolders k ((m.holders k).filter
      fun r => r ≠ p)).holders := by
    unfold release
    dsimp only
    split <;> rfl
  rw [h, holders_setHolders, holdersAfter]
  by_cases hk : kind = k
  · subst hk
    simp
  · simp [hk, Ne.symm hk]

theorem acquire_effects : (m.acquire k p c).2.effects =
    c.effects ++ if (m.holders k).isEmpty then [.setSensor k true (rateFor k)] else [] := by
  unfold acquire
  dsimp only
  split <;> simp

theorem acquire_store : (m.acquire k p c).2.store = c.store := by
  unfold acquire
  dsimp only
  split <;> rfl

theorem release_store : (m.release k p c).2.store = c.store := by
  unfold release
  dsimp only
  split <;> rfl

theorem releaseAll_store : (m.releaseAll p c).2.store = c.store := by
  unfold releaseAll
  generalize kinds.filter _ = ks
  induction ks generalizing m c with
  | nil => rfl
  | cons k ks ih => exact ih.trans release_store

theorem release_effects : (m.release k p c).2.effects = c.effects ++
    if ((m.holders k).filter fun r => r ≠ p).isEmpty ∧ ¬(m.holders k).isEmpty then
      [.setSensor k false (rateFor k)] else [] := by
  unfold release
  dsimp only
  split <;> simp

/-- The sensor is on when somebody holds it. -/
def Tracks (b : Bool) (kind : SensorKind) (m : SensorsModule) (fx : List Effect) : Prop :=
  Trace.last (Effect.sensorOn kind) b fx = !(m.holders kind).isEmpty

variable {b : Bool}

theorem tracks_append {fx gx : List Effect} : Tracks b kind m (fx ++ gx) ↔
    Tracks (Trace.last (Effect.sensorOn kind) b fx) kind m gx := by
  simp [Tracks]

/-- Effects on other things leave the sensor as it was. -/
theorem Tracks.append {fx gx : List Effect} (h : Tracks b kind m fx)
    (hg : ∀ f ∈ gx, f.sensorOn kind = none) : Tracks b kind m (fx ++ gx) := by
  rw [Tracks, Trace.last_append, Trace.last_of_silent hg]
  exact h

theorem Tracks.acquire (h : Tracks b kind m c.effects) :
    Tracks b kind (m.acquire k p c).1 (m.acquire k p c).2.effects := by
  unfold Tracks at h ⊢
  rw [holders_acquire, acquire_effects, Trace.last_append, h, holdersAfter]
  by_cases hk : k = kind
  · subst hk
    cases m.holders k with
    | nil => simp [Effect.sensorOn]
    | cons r rs =>
      simp only [List.isEmpty_cons, Bool.false_eq_true, if_false, Trace.last_nil]
      split <;> rfl
  · cases (m.holders k).isEmpty <;> simp [Effect.sensorOn, hk]

theorem Tracks.release (h : Tracks b kind m c.effects) :
    Tracks b kind (m.release k p c).1 (m.release k p c).2.effects := by
  unfold Tracks at h ⊢
  rw [holders_release, release_effects, Trace.last_append, h, holdersAfter]
  by_cases hk : k = kind
  · subst hk
    rw [if_pos rfl]
    cases hh : m.holders k with
    | nil => simp
    | cons r rs =>
      cases hl : ((r :: rs).filter fun r => r ≠ p).isEmpty <;> simp [Effect.sensorOn]
  · rw [if_neg hk]
    split <;> simp [Effect.sensorOn, hk]

/-- A process released from some kinds holds none of these. -/
theorem holders_foldl_release {ks : List SensorKind} {mc : SensorsModule × Ctx} :
    (ks.foldl (fun mc k => mc.1.release k p mc.2) mc).1.holders kind =
      if kind ∈ ks then (mc.1.holders kind).filter fun r => r ≠ p else mc.1.holders kind := by
  induction ks generalizing mc with
  | nil => simp
  | cons k ks ih =>
    rw [List.foldl_cons, ih, holders_release, holdersAfter]
    by_cases hk : k = kind
    · subst hk
      simp
    · simp [hk, Ne.symm hk]

/-- A process gone holds no sensor. -/
theorem holders_releaseAll :
    (m.releaseAll p c).1.holders kind = (m.holders kind).filter fun r => r ≠ p := by
  rw [releaseAll, holders_foldl_release]
  split
  · rfl
  · next h =>
    have hp : p ∉ m.holders kind := by
      intro hp
      refine h (List.mem_filter.mpr ⟨by cases kind <;> simp [kinds], by simpa using hp⟩)
    refine (List.filter_eq_self.mpr fun r hr => ?_).symm
    have : r ≠ p := fun he => hp (he ▸ hr)
    simpa using this

theorem Tracks.releaseAll (h : Tracks b kind m c.effects) :
    Tracks b kind (m.releaseAll p c).1 (m.releaseAll p c).2.effects := by
  unfold SensorsModule.releaseAll
  generalize kinds.filter _ = ks
  induction ks generalizing m c with
  | nil => exact h
  | cons k ks ih => exact ih h.release

variable [Fpu]

theorem onReading_eq {x y z : F32} {ts : Nat} : (m.onReading k x y z ts c).1.holders = m.holders ∧
    (m.onReading k x y z ts c).2.effects = c.effects := by
  unfold onReading
  dsimp only
  split
  · unfold translateProximity
    split
    · exact ⟨rfl, rfl⟩
    · dsimp only
      split <;> split <;> exact ⟨rfl, rfl⟩
  · exact ⟨rfl, rfl⟩

theorem holders_onEvent {e : Event} :
    (m.onEvent e c).1.holders kind = holdersAfter kind e (m.holders kind) := by
  unfold onEvent
  split
  · exact holders_acquire
  · exact holders_release
  · exact congrFun onReading_eq.1 kind
  · exact holders_releaseAll
  · next ha hr _ hs =>
    cases e with
    | sensorAcquire k p => exact absurd rfl (ha k p)
    | sensorRelease k p => exact absurd rfl (hr k p)
    | surfaceRemoved p => exact absurd rfl (hs p)
    | _ => rfl

theorem Tracks.onEvent {e : Event} (h : Tracks b kind m c.effects) :
    Tracks b kind (m.onEvent e c).1 (m.onEvent e c).2.effects := by
  unfold SensorsModule.onEvent
  split
  · exact h.acquire
  · exact h.release
  · unfold Tracks
    rw [onReading_eq.1, onReading_eq.2]
    exact h
  · exact h.releaseAll
  · exact h

/-- Of the verbs only `sensor-hold` changes who holds a sensor, and only for the
    holder that stands for it. -/
theorem mem_holders_onCommand {verb : Verb} {args : String}
    (hp : verb = .sensorHold → p ≠ manualRequester) :
    p ∈ (m.onCommand verb args c).1.holders kind ↔ p ∈ m.holders kind := by
  cases verb with
  | reportSensor =>
    simp only [onCommand]
    unfold cmdReportSensor
    split
    · rfl
    · split
      · rfl
      · dsimp only
        split <;> rfl
  | reportSensorDescriptor =>
    simp only [onCommand]
    unfold cmdReportSensorDescriptor
    split
    · split
      · rfl
      · split <;> rfl
    · rfl
  | sensorState => rfl
  | sensorHold =>
    have hp := hp rfl
    simp only [onCommand]
    unfold cmdSensorHold
    split
    · rfl
    · split
      · rfl
      · split
        · rfl
        · dsimp only
          split
          · rw [holders_acquire, holdersAfter]
            split
            · simp [hp]
            · rfl
          · rw [holders_release, holdersAfter]
            split
            · simp [hp]
            · rfl

theorem Tracks.onCommand {verb : Verb} {args : String} (h : Tracks b kind m c.effects) :
    Tracks b kind (m.onCommand verb args c).1 (m.onCommand verb args c).2.1.effects := by
  cases verb with
  | reportSensor =>
    simp only [SensorsModule.onCommand]
    unfold cmdReportSensor
    split
    · exact h
    · split
      · exact h
      · dsimp only
        split <;> exact h
  | reportSensorDescriptor =>
    simp only [SensorsModule.onCommand]
    unfold cmdReportSensorDescriptor
    split
    · split
      · exact h
      · split <;> exact h
    · exact h
  | sensorState => exact h
  | sensorHold =>
    simp only [SensorsModule.onCommand]
    unfold cmdSensorHold
    split
    · exact h
    · split
      · exact h
      · split
        · exact h
        · dsimp only
          split
          · exact h.acquire
          · exact h.release

end SensorsModule

/-! ## The group of modules -/

/-- The modules concerned with calls. -/
def phoneModules : Registry := [.power, .audio, .sensors]

namespace Arbiter

variable [Fpu] {clock : Clock} {a : Arbiter} {e : Event}

/-- The power module, reacting to an event. -/
def powerReacts (clock : Clock) (a : Arbiter) (e : Event) : PowerModule × Ctx :=
  a.mods.power.onEvent clock e { store := a.store }

/-- The audio module, reacting to an event. -/
def audioReacts (a : Arbiter) (e : Event) : AudioModule × Ctx :=
  a.mods.audio.onEvent e { store := a.store }

/-- The sensors module, reacting to an event after the audio module. -/
def sensorsReact (a : Arbiter) (e : Event) : SensorsModule × Ctx :=
  a.mods.sensors.onEvent e { store := (a.audioReacts e).2.store }

/-- The three modules, reacting to an event one after the other. -/
def phonesReact (clock : Clock) (a : Arbiter) (e : Event) : Bus.Out Arbiter Event Effect where
  state := {
    store := (a.sensorsReact e).2.store
    mods := { a.mods with
      power := (a.powerReacts clock e).1
      audio := (a.audioReacts e).1
      sensors := (a.sensorsReact e).1 }
    panicked := a.panicked || (a.powerReacts clock e).2.panicked ||
      (a.audioReacts e).2.panicked || (a.sensorsReact e).2.panicked }
  events := (a.powerReacts clock e).2.events ++ (a.sensorsReact e).2.events
  effects := (a.powerReacts clock e).2.effects ++ (a.audioReacts e).2.effects ++
    (a.sensorsReact e).2.effects

theorem powerReacts_store : (a.powerReacts clock e).2.store = a.store :=
  (PowerModule.onEvent_follows e).store.symm

omit [Fpu] in
theorem audioReacts_events : (a.audioReacts e).2.events = [] := AudioModule.onEvent_events

theorem fan_phoneModules :
    Bus.fan (handlers phoneModules clock) (.start a) e = a.phonesReact clock e := by
  have hp : (a.powerReacts clock e).2.store = a.store := powerReacts_store
  have ha : (a.audioReacts e).2.events = [] := audioReacts_events
  unfold powerReacts at hp
  unfold audioReacts at ha
  simp [Bus.fan, handlers, phoneModules, Bus.Out.react, handler, out, Modules.onEvent,
    phonesReact, sensorsReact, audioReacts, powerReacts, hp, ha]

/-- The events that follow one on calls. -/
theorem phonesReact_emits : ∀ e' ∈ (a.phonesReact clock e).events,
    PowerModule.Follows e e' ∨ ∃ near, e' = .proximityChanged near := by
  intro e' he'
  rcases List.mem_append.mp he' with he' | he'
  · exact .inl ((PowerModule.onEvent_follows e).forall_events rfl e' he')
  · exact .inr ((SensorsModule.onEvent_aside (R := Store.Agree) e).forall_events rfl e' he').2

omit [Fpu] in
/-- The verbs of the group. -/
theorem owner_mem_phoneModules {verb : Verb} (h : verb.owner ∈ phoneModules) :
    (∃ v, verb = .power v) ∨ (∃ v, verb = .audio v) ∨ ∃ v, verb = .sensors v := by
  cases verb with
  | power v => exact .inl ⟨v, rfl⟩
  | audio v => exact .inr (.inl ⟨v, rfl⟩)
  | sensors v => exact .inr (.inr ⟨v, rfl⟩)
  | _ => simp [Verb.owner, phoneModules] at h

end Arbiter

end Wandr
