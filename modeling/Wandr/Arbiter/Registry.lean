import Wandr.Arbiter.Alarm
import Wandr.Arbiter.Audio
import Wandr.Arbiter.EventBroker
import Wandr.Arbiter.Keyguard
import Wandr.Arbiter.MediaSession
import Wandr.Arbiter.Net
import Wandr.Arbiter.Notify
import Wandr.Arbiter.Power
import Wandr.Arbiter.Sensors
import Wandr.Arbiter.Shell
import Wandr.Arbiter.Wm
import Wandr.Lib.Bus

/-!
# The registry

The modules on one bus. A command goes to the module owning its verb, and then
the events it emitted are fanned to every registered module, in the order of
registration, round after round; an event from outside the modules starts the
same cascade.

A registry is the list of the modules registered, so that a group of modules can
be studied by itself; `buildRegistry` is the one of the daemon. `Arbiter.command`
and `Arbiter.inject` are the two entries, and `Arbiter.command_keeps` and
`Arbiter.inject_keeps` reduce an invariant of a dispatch to the handlers.
-/

namespace Wandr

/-- The modules of the arbiter. -/
inductive ModuleId
  | wm
  | shell
  | alarm
  | notify
  | power
  | keyguard
  | audio
  | sensors
  | net
  | events
  | mediaSession
  deriving DecidableEq

/-- A verb of some module. -/
inductive Verb
  | wm (v : Wm.Verb)
  | shell (v : Shell.Verb)
  | alarm (v : AlarmManager.Verb)
  | notify (v : Notify.Verb)
  | power (v : PowerModule.Verb)
  | keyguard (v : KeyguardModule.Verb)
  | audio (v : AudioModule.Verb)
  | sensors (v : SensorsModule.Verb)
  | net (v : NetModule.Verb)
  | events (v : EventsModule.Verb)
  | mediaSession (v : MediaSessionModule.Verb)
  deriving DecidableEq

namespace Verb

/-- The module owning a verb. -/
def owner : Verb → ModuleId
  | .wm _ => .wm
  | .shell _ => .shell
  | .alarm _ => .alarm
  | .notify _ => .notify
  | .power _ => .power
  | .keyguard _ => .keyguard
  | .audio _ => .audio
  | .sensors _ => .sensors
  | .net _ => .net
  | .events _ => .events
  | .mediaSession _ => .mediaSession

/-- A verb on the wire. -/
def wire : Verb → String
  | .wm v => v.wire
  | .shell v => v.wire
  | .alarm v => v.wire
  | .notify v => v.wire
  | .power v => v.wire
  | .keyguard v => v.wire
  | .audio v => v.wire
  | .sensors v => v.wire
  | .net v => v.wire
  | .events v => v.wire
  | .mediaSession v => v.wire

/-- Every verb of every module. -/
def all : List Verb :=
  [Wm.Verb.reportOrientation, .setOrientationLock, .reportPanel, .setImmersive].map .wm ++
  [Shell.Verb.foreground, .registerChrome, .kill, .setIme, .attachEditor, .detachEditor,
    .imeOverlayHeight, .ime .commitText, .ime .sendKeyEvent, .ime .setComposingText,
    .ime .finishComposingText, .ime .setSelection, .back, .cycleTask, .overlay, .overlayClear,
    .list, .taskList, .taskKill].map .shell ++
  [AlarmManager.Verb.schedule, .cancel].map .alarm ++
  [Notify.Verb.post, .cancel, .list, .click].map .notify ++
  [PowerModule.Verb.reportPowerClass, .powerKey, .panel, .brightness, .brightnessScale,
    .userActivity, .screenTimeout].map .power ++
  [KeyguardModule.Verb.lock, .unlock, .powerMenu, .pmDismiss].map .keyguard ++
  [AudioModule.Verb.focusRequest, .focusAbandon, .focusList, .callStart, .callEnd, .callVideo,
    .route, .ringStart, .ringStop, .ringerMode, .volume, .mute, .appMute, .micMute, .appMicMute,
    .playTone].map .audio ++
  [SensorsModule.Verb.reportSensor, .reportSensorDescriptor, .sensorState,
    .sensorHold].map .sensors ++
  [NetModule.Verb.reportNetState, .netStatus, .netSubscribe, .savedList, .savedAdd, .savedUpdate,
    .savedRemove, .savedAutoConnect, .savedCreds, .autoNetwork].map .net ++
  [EventsModule.Verb.subscribe, .unsubscribe, .publish].map .events ++
  [MediaSessionModule.Verb.setMetadata, .setArt, .setState, .setPosition, .clear, .nowPlaying,
    .artwork, .action].map .mediaSession

/-- The verb a word of the wire names. -/
def ofWire (s : String) : Option Verb := all.find? fun v => v.wire = s

theorem mem_all (v : Verb) : v ∈ all := by
  rcases v with v | v | v | v | v | v | v | v | v | v | v
  case shell =>
    rcases v with _ | _ | _ | _ | _ | _ | _ | r
    case ime => cases r <;> decide
    all_goals decide
  all_goals cases v <;> decide

/-- No verb is registered by two modules. -/
theorem nodup_wire_all : (all.map wire).Nodup := by decide

theorem ofWire_wire (v : Verb) : ofWire v.wire = some v := by
  cases h : ofWire v.wire with
  | none => simpa using List.find?_eq_none.mp h v (mem_all v)
  | some u =>
    have hu : u.wire = v.wire := by simpa using List.find?_some h
    rw [List.inj_on_of_nodup_map nodup_wire_all (mem_all u) (mem_all v) hu]

end Verb

/-- The state of the modules that keep one. -/
structure Modules where
  power : PowerModule := {}
  keyguard : KeyguardModule := {}
  audio : AudioModule := {}
  sensors : SensorsModule := {}
  net : NetModule := {}
  events : EventsModule := {}
  mediaSession : MediaSessionModule := {}

/-- The store and the modules; `panicked` records that a handler hit a failed
    expectation. -/
structure Arbiter where
  store : Store := {}
  mods : Modules := {}
  panicked : Bool := false

/-- The modules registered on a bus, in order. -/
abbrev Registry := List ModuleId

/-- The registry of the daemon. -/
def buildRegistry : Registry :=
  [.wm, .shell, .alarm, .notify, .power, .keyguard, .audio, .sensors, .net, .events, .mediaSession]

/-- The bound on the rounds of a cascade. -/
def maxCascadeDepth : Nat := 16

variable [Fpu]

namespace Modules

/-- The owner of a verb handles it. -/
def onCommand (clock : Clock) (m : Modules) (verb : Verb) (args : String) (c : Ctx) :
    Modules × Ctx × Reply :=
  match verb with
  | .wm v => (m, Wm.onCommand v args c)
  | .shell v => (m, Shell.onCommand clock v args c)
  | .alarm v => (m, AlarmManager.onCommand v args c)
  | .notify v => (m, Notify.onCommand v args c)
  | .power v => let r := m.power.onCommand clock v args c; ({ m with power := r.1 }, r.2)
  | .keyguard v => let r := m.keyguard.onCommand v c; ({ m with keyguard := r.1 }, r.2)
  | .audio v => let r := m.audio.onCommand v args c; ({ m with audio := r.1 }, r.2)
  | .sensors v => let r := m.sensors.onCommand v args c; ({ m with sensors := r.1 }, r.2)
  | .net v => let r := m.net.onCommand v args c; ({ m with net := r.1 }, r.2)
  | .events v => let r := m.events.onCommand v args c; ({ m with events := r.1 }, r.2)
  | .mediaSession v =>
    let r := m.mediaSession.onCommand v args c
    ({ m with mediaSession := r.1 }, r.2)

/-- A module reacts to an event. -/
def onEvent (clock : Clock) (m : Modules) (id : ModuleId) (e : Event) (c : Ctx) : Modules × Ctx :=
  match id with
  | .wm => (m, Wm.onEvent e c)
  | .shell => (m, Shell.onEvent e c)
  | .alarm => (m, AlarmManager.onEvent e c)
  | .notify => (m, c)
  | .power => let r := m.power.onEvent clock e c; ({ m with power := r.1 }, r.2)
  | .keyguard => let r := m.keyguard.onEvent e c; ({ m with keyguard := r.1 }, r.2)
  | .audio => let r := m.audio.onEvent e c; ({ m with audio := r.1 }, r.2)
  | .sensors => let r := m.sensors.onEvent e c; ({ m with sensors := r.1 }, r.2)
  | .net => let r := m.net.onEvent e c; ({ m with net := r.1 }, r.2)
  | .events => let r := m.events.onEvent e c; ({ m with events := r.1 }, r.2)
  | .mediaSession => let r := m.mediaSession.onEvent e c; ({ m with mediaSession := r.1 }, r.2)

end Modules

namespace Arbiter

/-- What a handler left behind, on the bus. -/
def out (a : Arbiter) (m : Modules) (c : Ctx) : Bus.Out Arbiter Event Effect where
  state := { store := c.store, mods := m, panicked := a.panicked || c.panicked }
  events := c.events
  effects := c.effects

section

variable {a : Arbiter} {m : Modules} {c : Ctx}

omit [Fpu]

@[simp] theorem state_out : (a.out m c).state = ⟨c.store, m, a.panicked || c.panicked⟩ := rfl
@[simp] theorem events_out : (a.out m c).events = c.events := rfl
@[simp] theorem effects_out : (a.out m c).effects = c.effects := rfl

end

/-- A module as a handler on the bus. -/
def handler (clock : Clock) (id : ModuleId) : Bus.Handler Arbiter Event Effect := fun e a =>
  let r := a.mods.onEvent clock id e { store := a.store }
  a.out r.1 r.2

/-- The handlers of a registry. -/
def handlers (reg : Registry) (clock : Clock) : List (Bus.Handler Arbiter Event Effect) :=
  reg.map (handler clock)

/-- Fan the pending events out to a fixpoint. -/
def drainCascade (reg : Registry) (clock : Clock) (o : Bus.Out Arbiter Event Effect) :
    Arbiter × List Effect :=
  let o := Bus.drain (handlers reg clock) maxCascadeDepth o
  (o.state, o.effects)

/-- A command by itself, before the cascade it starts. -/
def handle (clock : Clock) (a : Arbiter) (verb : Verb) (args : String) :
    Bus.Out Arbiter Event Effect × Reply :=
  let r := a.mods.onCommand clock verb args { store := a.store }
  (a.out r.1 r.2.1, r.2.2)

/-- Run a command in the module owning its verb, then the cascade it started. -/
def command (reg : Registry) (clock : Clock) (a : Arbiter) (verb : Verb) (args : String) :
    Arbiter × List Effect × Reply :=
  let (o, reply) := a.handle clock verb args
  let (a, fx) := drainCascade reg clock o
  (a, fx, reply)

/-- Inject an event from outside the modules, and run the cascade. -/
def inject (reg : Registry) (clock : Clock) (a : Arbiter) (e : Event) : Arbiter × List Effect :=
  drainCascade reg clock ⟨a, [e], []⟩

/-- A command, dispatched to a registry that may not own the verb. -/
def dispatchCommand (reg : Registry) (clock : Clock) (a : Arbiter) (verb : Verb) (args : String) :
    Option (Arbiter × List Effect × Reply) :=
  if verb.owner ∈ reg then some (a.command reg clock verb args) else none

theorem dispatchCommand_buildRegistry {clock : Clock} {a : Arbiter} {verb : Verb} {args : String} :
    a.dispatchCommand buildRegistry clock verb args =
      some (a.command buildRegistry clock verb args) := by
  rw [dispatchCommand, if_pos]
  cases verb <;> simp [Verb.owner, buildRegistry]

/-! ## Invariants of a dispatch -/

variable {reg : Registry} {clock : Clock} {J : Arbiter → List Effect → Prop} {E : Event → Prop}

theorem handlers_keep (hk : ∀ id ∈ reg, Bus.Keeps J E (handler clock id)) :
    ∀ h ∈ handlers reg clock, Bus.Keeps J E h := by
  simpa [handlers] using hk

/-- What the command and the handlers keep, the dispatch of a command keeps. -/
theorem command_keeps (hk : ∀ id ∈ reg, Bus.Keeps J E (handler clock id)) {a : Arbiter}
    {verb : Verb} {args : String}
    (hJ : J (a.handle clock verb args).1.state (a.handle clock verb args).1.effects)
    (hE : ∀ e ∈ (a.handle clock verb args).1.events, E e) :
    J (a.command reg clock verb args).1 (a.command reg clock verb args).2.1 :=
  Bus.Keeps.drain (handlers_keep hk) hJ hE

/-- What the handlers keep, the dispatch of an event keeps. -/
theorem inject_keeps (hk : ∀ id ∈ reg, Bus.Keeps J E (handler clock id)) {a : Arbiter} {e : Event}
    (hJ : J a []) (hE : E e) : J (a.inject reg clock e).1 (a.inject reg clock e).2 :=
  Bus.Keeps.drain (handlers_keep hk) hJ (by simpa using hE)

end Arbiter

end Wandr
