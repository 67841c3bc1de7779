import Mathlib.Algebra.Group.Nat.Defs
import Mathlib.Logic.Function.Basic
import Wandr.Arbiter.Surface

/-!
# The store

The single source of truth the arbiter's modules share: the state of every
display, the registry of running apps, the designated home app, the scheduled
alarms, the active notifications and the sensors.

Apps are keyed by their app-id, alarms and notifications by their owner and the
identifier the owner chose. `Store.primary` is the state of the primary display
as its readers see it, untouched or not; `Store.primary_modifyDisplay` is how
writes to it are read back.
-/

namespace Wandr

/-- How a process is launched. -/
inductive LaunchKind
  | gui
  | guiOverlay
  | headless
  deriving DecidableEq

namespace LaunchKind

/-- The token on the wire. -/
def asWire : LaunchKind → String
  | .gui => "gui"
  | .guiOverlay => "gui-overlay"
  | .headless => "headless"

/-- Parse a token; an unknown one is a headless launch. -/
def fromWire : String → LaunchKind
  | "gui" => .gui
  | "gui-overlay" => .guiOverlay
  | _ => .headless

theorem fromWire_asWire : ∀ k : LaunchKind, fromWire k.asWire = k
  | .gui | .guiOverlay | .headless => rfl

end LaunchKind

/-- A hardware sensor the arbiter arbitrates. -/
inductive SensorKind
  | proximity
  | accelerometer
  | light
  | deviceOrientation
  deriving DecidableEq

namespace SensorKind

/-- The token on the wire. -/
def asWire : SensorKind → String
  | .proximity => "proximity"
  | .accelerometer => "accelerometer"
  | .light => "light"
  | .deviceOrientation => "device-orientation"

/-- Parse a token. -/
def fromWire : String → Option SensorKind
  | "proximity" => some .proximity
  | "accelerometer" | "accel" => some .accelerometer
  | "light" => some .light
  | "device-orientation" | "device_orientation" | "orientation" => some .deviceOrientation
  | _ => none

theorem fromWire_asWire : ∀ k : SensorKind, fromWire k.asWire = some k
  | .proximity | .accelerometer | .light | .deviceOrientation => rfl

end SensorKind

/-- A running app; the launch is dated by the wall clock, in seconds, and by the
    monotonic one, in nanoseconds. -/
structure AppState where
  appId : String
  pid : Pid
  launchedAt : Nat
  launchedMono : Nat
  deriving DecidableEq

/-- A scheduled wake. A period of `0` fires once; `pendingDeliver` marks an alarm
    whose owner was dead when it fired. -/
structure Alarm where
  appId : String
  alarmId : Nat
  nextFireMs : Nat
  repeatMs : Nat
  wakeKind : LaunchKind
  pendingDeliver : Bool
  deriving DecidableEq

/-- An alarm is identified by its owner and the owner's number for it. -/
def Alarm.key (a : Alarm) : String × Nat := (a.appId, a.alarmId)

/-- An active notification; `nid` is the handle the arbiter assigned. -/
structure Notification where
  nid : Nat
  appId : String
  appNotifId : Nat
  title : String
  body : String
  deriving DecidableEq

/-- A notification is identified by its owner and the owner's number for it. -/
def Notification.key (n : Notification) : String × Nat := (n.appId, n.appNotifId)

/-- What is known of a sensor: its descriptor and its last reading. -/
structure SensorSlot where
  maxRange : F32 := F32.zero
  resolution : F32 := F32.zero
  lastX : F32 := F32.zero
  lastY : F32 := F32.zero
  lastZ : F32 := F32.zero
  lastTsNs : Nat := 0
  hasReading : Bool := false

/-- The height of the soft keyboard until the input method reports it. -/
def defaultImeHeightPx : Nat := 1200

/-- The state every module reads and writes. -/
structure Store where
  displays : DisplayId → Option DisplayState := fun _ => none
  apps : Table AppState.appId := .empty
  home : Option String := none
  imeHeight : Nat := defaultImeHeightPx
  alarms : Table Alarm.key := .empty
  notifications : Table Notification.key := .empty
  nextNid : Nat := 0
  sensors : SensorKind → Option SensorSlot := fun _ => none

namespace Store

/-! ## Displays -/

/-- A display, if it was ever touched. -/
def display (s : Store) (id : DisplayId) : Option DisplayState := s.displays id

/-- Write to a display, touching it. -/
def modifyDisplay (s : Store) (id : DisplayId) (f : DisplayState → DisplayState) : Store :=
  { s with displays := Function.update s.displays id (some (f ((s.displays id).getD {}))) }

/-- The geometry policy of a display, if it was ever touched. -/
def geometry (s : Store) (id : DisplayId) : Option DisplayGeometry :=
  (s.display id).map DisplayState.geometry

/-- Write to the geometry policy of a display, touching it. -/
def modifyGeometry (s : Store) (id : DisplayId) (f : DisplayGeometry → DisplayGeometry) : Store :=
  s.modifyDisplay id fun d => { d with geometry := f d.geometry }

/-- The primary display, as it reads when it was never touched. -/
def primary (s : Store) : DisplayState := (s.display primaryDisplay).getD {}

/-! ## The app registry -/

/-- Insert an app, replacing the one with its app-id. -/
def insertApp (s : Store) (a : AppState) : Store := { s with apps := s.apps.put a }

/-- Remove an app from the registry; its surface is removed separately. -/
def removeApp (s : Store) (appId : String) : Store := { s with apps := s.apps.erase appId }

/-- A running app by its app-id. -/
def app (s : Store) (appId : String) : Option AppState := s.apps.get? appId

/-- A running app by its process. -/
def appByPid (s : Store) (pid : Pid) : Option AppState := s.apps.rows.find? (fun a => a.pid = pid)

/-- Every running app. -/
def appsSnapshot (s : Store) : List AppState := s.apps.rows

/-- Designate the home app, or none. -/
def setHome (s : Store) (home : Option String) : Store := { s with home }

/-! ## Alarms and notifications -/

/-- Schedule an alarm, replacing the one with its key. -/
def upsertAlarm (s : Store) (a : Alarm) : Store := { s with alarms := s.alarms.put a }

/-- Cancel an alarm; also whether there was one. -/
def cancelAlarm (s : Store) (appId : String) (alarmId : Nat) : Store × Bool :=
  ({ s with alarms := s.alarms.erase (appId, alarmId) }, s.alarms.contains (appId, alarmId))

/-- Whether any alarm is scheduled. -/
def hasAlarms (s : Store) : Bool := !s.alarms.rows.isEmpty

/-- Raise a notification, or replace the text of the one with its key; also its
    handle. The counter of handles is a 64-bit one. -/
def postNotification (s : Store) (appId : String) (appNotifId : Nat) (title body : String) :
    Store × Nat :=
  match s.notifications.get? (appId, appNotifId) with
  | some n => ({ s with notifications := s.notifications.put { n with title, body } }, n.nid)
  | none =>
    let nid := (s.nextNid + 1) % 2 ^ 64
    ({ s with
        nextNid := nid
        notifications := s.notifications.put { nid, appId, appNotifId, title, body } }, nid)

/-- Clear a notification by its key; also whether there was one. -/
def cancelNotification (s : Store) (appId : String) (appNotifId : Nat) : Store × Bool :=
  ({ s with notifications := s.notifications.erase (appId, appNotifId) },
    s.notifications.contains (appId, appNotifId))

/-- Remove the first notification with a handle; also the notification. -/
def takeNotification (s : Store) (nid : Nat) : Store × Option Notification :=
  match s.notifications.rows.find? (fun n => n.nid = nid) with
  | some n => ({ s with notifications := s.notifications.erase n.key }, some n)
  | none => (s, none)

/-! ## Sensors -/

/-- What is known of a sensor. -/
def sensor (s : Store) (kind : SensorKind) : Option SensorSlot := s.sensors kind

/-- Write to what is known of a sensor. -/
def modifySensor (s : Store) (kind : SensorKind) (f : SensorSlot → SensorSlot) : Store :=
  { s with sensors := Function.update s.sensors kind (some (f ((s.sensors kind).getD {}))) }

/-- Record the descriptor of a sensor, keeping its last reading. -/
def setSensorDescriptor (s : Store) (kind : SensorKind) (maxRange resolution : F32) : Store :=
  s.modifySensor kind fun slot => { slot with maxRange, resolution }

/-! ## The primary display, read and written -/

variable {s : Store} {f : DisplayState → DisplayState}

@[simp]
theorem display_modifyDisplay :
    (s.modifyDisplay primaryDisplay f).display primaryDisplay = some (f s.primary) := by
  simp [modifyDisplay, display, primary]

@[simp]
theorem primary_modifyDisplay : (s.modifyDisplay primaryDisplay f).primary = f s.primary := by
  simp [primary, modifyDisplay, display]

@[simp] theorem apps_modifyDisplay {id : DisplayId} : (s.modifyDisplay id f).apps = s.apps := rfl
@[simp] theorem home_modifyDisplay {id : DisplayId} : (s.modifyDisplay id f).home = s.home := rfl

theorem bind_display_visibleApp :
    (s.display primaryDisplay).bind DisplayState.visibleApp = s.primary.visibleApp := by
  unfold primary
  cases s.display primaryDisplay <;> rfl

theorem bind_display_foregroundSlot :
    (s.display primaryDisplay).bind DisplayState.foregroundSlot = s.primary.foregroundSlot := by
  unfold primary
  cases s.display primaryDisplay <;> rfl

@[simp] theorem primary_insertApp {a : AppState} : (s.insertApp a).primary = s.primary := rfl
@[simp] theorem primary_removeApp {a : String} : (s.removeApp a).primary = s.primary := rfl

end Store

end Wandr
