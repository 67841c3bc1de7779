import Wandr.Arbiter.Store

/-!
# Events, effects and the handle of a module

The whole alphabet of the bus the modules react on, the side effects they may
request, and the handle a module works through (`Ctx`): the store, the events it
emits and the effects it requests, in order. A module performs nothing itself;
it never calls another one.

The lines pushed to a host are an enumeration; `Line.render` is their text.
-/

namespace Wandr

/-- What happened, as the modules learn it. -/
inductive Event
  | displayAdded (id : DisplayId)
  | panelMeasured (id : DisplayId) (w h : Nat) (density : F32)
  | orientationChanged (id : DisplayId) (orient : Nat)
  | insetsChanged (id : DisplayId) (top bottom : Nat)
  | imeHeightChanged (id : DisplayId) (px : Nat)
  | foregroundChanged (appId : Option String) (pid : Option Pid)
  | editorFocusChanged (editor : Pid) (focused : Bool)
  | geometryRecomputed (id : DisplayId)
  | surfaceRemoved (pid : Pid)
  | alarmTick (nowMs : Nat)
  | screenState (live : Bool)
  | commsActive (pid : Pid) (active : Bool)
  | videoCallActive (pid : Pid) (active : Bool)
  | sensorAcquire (kind : SensorKind) (requester : Pid)
  | sensorRelease (kind : SensorKind) (requester : Pid)
  | sensorReading (kind : SensorKind) (x y z : F32) (tsNs : Nat)
  | proximityChanged (near : Bool)
  | idleTick
  deriving DecidableEq

/-- What an audio-focus owner is told. -/
inductive FocusChange
  | loss
  | lossTransient
  | duck
  | gain
  deriving DecidableEq

/-- The token on the wire. -/
def FocusChange.asWire : FocusChange → String
  | .loss => "loss"
  | .lossTransient => "loss-transient"
  | .duck => "duck"
  | .gain => "gain"

/-- `"1"` or `"0"`. -/
def bit (b : Bool) : String := if b then "1" else "0"

/-- `"on"` or `"off"`. -/
def onOff (b : Bool) : String := if b then "on" else "off"

/-- `"up"` or `"down"`. -/
def upDown (b : Bool) : String := if b then "up" else "down"

/-- The device an audio control acts on. -/
def audioDevice (speaker : Bool) : String := if speaker then "speaker" else "earpiece"

/-- A line pushed to the control socket of a host. -/
inductive Line
  | geometry (insetTop insetBottom keyboardPx orient : Nat)
  | keyEvent (codePoint keyId edge : String)
  | editorAttached (inputType hint text : String)
  | editorDetached
  | alarmFired (alarmId : Nat)
  | notificationClicked (appNotifId : Nat)
  | inputSuppress (on : Bool)
  | doze (cadenceMs : Nat)
  | onFocusChanged (change : FocusChange)
  | setMode (comm : Bool)
  | setRoute (speaker : Bool)
  | volume (up speaker : Bool)
  | mute (on speaker : Bool)
  | micMute (on : Bool)
  | appMute (on : Bool)
  | ringtone (start : Bool)
  | haptics (start : Bool)
  | playTone (ms hz vol : String)
  | netChanged (wire : String)
  | event (topic payload : String)
  | mediaSessionAction (action seek : String)
  deriving DecidableEq

/-- The text of a line. -/
def Line.render : Line → String
  | .geometry top bottom kb orient => s!"geometry {top} {bottom} {kb} {orient}\n"
  | .keyEvent cp key edge => s!"key-event {cp} {key} {edge}\n"
  | .editorAttached ty hint text => s!"editor-attached {ty} {hint} {text} 0 0\n"
  | .editorDetached => "editor-detached\n"
  | .alarmFired id => s!"alarm-fired {id}\n"
  | .notificationClicked id => s!"notification-clicked {id}\n"
  | .inputSuppress on => s!"input-suppress {bit on}\n"
  | .doze cadence => s!"doze {cadence}\n"
  | .onFocusChanged change => s!"on-focus-changed {change.asWire}\n"
  | .setMode comm =>
    if comm then "audio-policy set-mode comm\n" else "audio-policy set-mode normal\n"
  | .setRoute speaker => s!"audio-policy set-route {audioDevice speaker}\n"
  | .volume up speaker =>
    s!"audio-policy volume {upDown up} {audioDevice speaker}\n"
  | .mute on speaker => s!"audio-policy mute {onOff on} {audioDevice speaker}\n"
  | .micMute on => s!"audio-policy mic-mute {onOff on}\n"
  | .appMute on => s!"audio-policy app-mute {onOff on}\n"
  | .ringtone start => if start then "ringtone start\n" else "ringtone stop\n"
  | .haptics start => if start then "haptics ring-start\n" else "haptics ring-stop\n"
  | .playTone ms hz vol => s!"play-tone {ms} {hz} {vol}\n"
  | .netChanged wire => s!"net-changed {wire}\n"
  | .event topic payload => s!"event {topic} {payload}\n"
  | .mediaSessionAction action seek => s!"media-session-action {action} {seek}\n"

/-- A side effect a module requests and the daemon performs. -/
inductive Effect
  | setRole (pid : Pid) (role : Role)
  | signalVisible (pid : Pid) (visible : Bool)
  | launch (appId : String) (kind : LaunchKind)
  | foreground (appId : String)
  | kill (pid : Pid)
  | persist
  | hostLine (pid : Pid) (line : Line)
  | setDisplayPower (on : Bool)
  | setSensor (kind : SensorKind) (on : Bool) (rateHz : Nat)
  | setBacklight (level : F32) (sensor : Bool)
  deriving DecidableEq

/-- The outcome of a command. -/
inductive Reply
  | ok (body : String)
  | err (body : String)
  deriving DecidableEq

/-- The single wire line of a reply. -/
def Reply.render : Reply → String
  | .ok s => s!"OK {s}"
  | .err s => s!"ERR {s}"

/-- The two clocks of the machine, read once for each dispatch: the monotonic
    one, in nanoseconds, and the wall clock, in seconds. -/
structure Clock where
  mono : Nat
  unix : Nat

/-- The nanoseconds since an instant. -/
def Clock.elapsed (clock : Clock) (t : Nat) : Nat := clock.mono - t

/-- Nanoseconds as whole milliseconds. -/
def asMillis (ns : Nat) : Nat := ns / 1000000

/-- The handle a module works through; `panicked` records that a handler hit a
    failed expectation. -/
structure Ctx where
  store : Store
  events : List Event := []
  effects : List Effect := []
  panicked : Bool := false

namespace Ctx

/-- Emit an event for every module to react to. -/
def emit (c : Ctx) (e : Event) : Ctx := { c with events := c.events ++ [e] }

/-- Request a side effect. -/
def request (c : Ctx) (f : Effect) : Ctx := { c with effects := c.effects ++ [f] }

/-- Queue a line for a host. -/
def deliverToHost (c : Ctx) (pid : Pid) (line : Line) : Ctx := c.request (.hostLine pid line)

/-- Queue a line for each of several hosts. -/
def deliverToAll (c : Ctx) (pids : List Pid) (line : Pid → Line) : Ctx :=
  pids.foldl (fun c pid => c.deliverToHost pid (line pid)) c

/-- Write to the store. -/
def modifyStore (c : Ctx) (f : Store → Store) : Ctx := { c with store := f c.store }

/-- Write to the primary display. -/
def modifyPrimary (c : Ctx) (f : DisplayState → DisplayState) : Ctx :=
  c.modifyStore fun s => s.modifyDisplay primaryDisplay f

/-- A failed expectation. -/
def panic (c : Ctx) : Ctx := { c with panicked := true }

variable {c : Ctx} {e : Event} {f : Effect} {p : Pid} {l : Line}

@[simp] theorem store_emit : (c.emit e).store = c.store := rfl
@[simp] theorem events_emit : (c.emit e).events = c.events ++ [e] := rfl
@[simp] theorem effects_emit : (c.emit e).effects = c.effects := rfl
@[simp] theorem panicked_emit : (c.emit e).panicked = c.panicked := rfl

@[simp] theorem store_request : (c.request f).store = c.store := rfl
@[simp] theorem events_request : (c.request f).events = c.events := rfl
@[simp] theorem effects_request : (c.request f).effects = c.effects ++ [f] := rfl
@[simp] theorem panicked_request : (c.request f).panicked = c.panicked := rfl

@[simp] theorem store_deliverToHost : (c.deliverToHost p l).store = c.store := rfl
@[simp] theorem events_deliverToHost : (c.deliverToHost p l).events = c.events := rfl
@[simp] theorem effects_deliverToHost :
    (c.deliverToHost p l).effects = c.effects ++ [.hostLine p l] := rfl
@[simp] theorem panicked_deliverToHost : (c.deliverToHost p l).panicked = c.panicked := rfl

theorem deliverToAll_eq (ps : List Pid) (line : Pid → Line) :
    c.deliverToAll ps line =
      { c with effects := c.effects ++ ps.map fun p => .hostLine p (line p) } := by
  unfold deliverToAll
  induction ps generalizing c with
  | nil => simp
  | cons p ps ih =>
    rw [List.foldl_cons, ih]
    simp

variable {ps : List Pid} {line : Pid → Line}

@[simp] theorem store_deliverToAll : (c.deliverToAll ps line).store = c.store := by
  rw [deliverToAll_eq]
@[simp] theorem events_deliverToAll : (c.deliverToAll ps line).events = c.events := by
  rw [deliverToAll_eq]
@[simp] theorem effects_deliverToAll :
    (c.deliverToAll ps line).effects = c.effects ++ ps.map fun p => .hostLine p (line p) := by
  rw [deliverToAll_eq]
@[simp] theorem panicked_deliverToAll : (c.deliverToAll ps line).panicked = c.panicked := by
  rw [deliverToAll_eq]

variable {g : Store → Store} {k : DisplayState → DisplayState}

@[simp] theorem store_modifyStore : (c.modifyStore g).store = g c.store := rfl
@[simp] theorem events_modifyStore : (c.modifyStore g).events = c.events := rfl
@[simp] theorem effects_modifyStore : (c.modifyStore g).effects = c.effects := rfl
@[simp] theorem panicked_modifyStore : (c.modifyStore g).panicked = c.panicked := rfl

@[simp] theorem store_modifyPrimary :
    (c.modifyPrimary k).store = c.store.modifyDisplay primaryDisplay k := rfl
@[simp] theorem events_modifyPrimary : (c.modifyPrimary k).events = c.events := rfl
@[simp] theorem effects_modifyPrimary : (c.modifyPrimary k).effects = c.effects := rfl
@[simp] theorem panicked_modifyPrimary : (c.modifyPrimary k).panicked = c.panicked := rfl

@[simp] theorem store_panic : c.panic.store = c.store := rfl
@[simp] theorem events_panic : c.panic.events = c.events := rfl
@[simp] theorem effects_panic : c.panic.effects = c.effects := rfl
@[simp] theorem panicked_panic : c.panic.panicked = true := rfl

end Ctx

end Wandr
