import Wandr.Arbiter.Registry

/-!
# The daemon

The binary around the registry: it parses the lines of its clients, performs the
effects the modules request, launches processes through the zygote, handles the
exits of its children, and injects the events of its timers.

Performing an effect is recorded in `Daemon.trace`; what the process numbers of
future launches will be is an oracle in the state, `Daemon.zygote`. A request to
bring an app to the foreground re-enters the dispatcher, so performing effects is
recursive; `Execution.lean` shows that the recursion never goes deeper than
`effectDepth`.
-/

namespace Wandr

open Text

/-- What the daemon reads of the world during a step: the clocks, which apps
    declare themselves immersive, which processes are alive, and the answers of
    the network daemon and of the zygote to a preload. -/
structure World where
  clock : Clock
  immersive : String → Bool
  alive : Pid → Bool
  relay : String → Except String String
  preload : String → Except String String

/-- The state of the daemon. -/
structure Daemon where
  arbiter : Arbiter := {}
  trace : List Effect := []
  zygote : List (Except String Pid) := []
  powerPending : Option (Nat × Nat) := none
  powerGen : Nat := 0
  reboots : List Bool := []

/-- The verbs the daemon handles itself. -/
inductive LegacyVerb
  | launch
  | launchHeadless
  | launchOverlay
  | preload
  | setHome
  | goHome
  | wifiScan
  | wifiConnect
  | wifiSetEnabled
  | wifiIsEnabled
  | wifiConnectSaved
  | pmLock
  | pmPoweroff
  | pmRestart
  | pmEmergency
  | powerDown
  | powerUp
  deriving DecidableEq

namespace LegacyVerb

/-- A verb on the wire. -/
def wire : LegacyVerb → String
  | .launch => "launch"
  | .launchHeadless => "launch-headless"
  | .launchOverlay => "launch-overlay"
  | .preload => "preload"
  | .setHome => "set-home"
  | .goHome => "go-home"
  | .wifiScan => "wifi-scan"
  | .wifiConnect => "wifi-connect"
  | .wifiSetEnabled => "wifi-set-enabled"
  | .wifiIsEnabled => "wifi-is-enabled"
  | .wifiConnectSaved => "wifi-connect-saved"
  | .pmLock => "pm-lock"
  | .pmPoweroff => "pm-poweroff"
  | .pmRestart => "pm-restart"
  | .pmEmergency => "pm-emergency"
  | .powerDown => "power-down"
  | .powerUp => "power-up"

/-- Every verb the daemon handles itself. -/
def all : List LegacyVerb :=
  [.launch, .launchHeadless, .launchOverlay, .preload, .setHome, .goHome, .wifiScan, .wifiConnect,
    .wifiSetEnabled, .wifiIsEnabled, .wifiConnectSaved, .pmLock, .pmPoweroff, .pmRestart,
    .pmEmergency, .powerDown, .powerUp]

/-- The verb a word of the wire names. -/
def ofWire (s : String) : Option LegacyVerb := all.find? fun v => v.wire = s

end LegacyVerb

/-- A command of a client. -/
inductive Command
  | module (verb : Verb) (args : String)
  | legacy (verb : LegacyVerb) (args : String)
  | unknown (verb : String)

/-- The command a line of a client stands for. The modules are asked first. -/
def Command.ofLine (line : String) : Command :=
  let (verb, args) := match splitn 2 ' ' line with
    | [v, r] => (v, trim r)
    | [v] => (v, "")
    | _ => ("", "")
  match Verb.ofWire verb with
  | some v => .module v args
  | none => match LegacyVerb.ofWire verb with
    | some v => .legacy v args
    | none => .unknown verb

namespace Daemon

/-- The app in the foreground slot. -/
def foregroundSlot (d : Daemon) : Option String :=
  ((d.arbiter.store.display primaryDisplay).bind DisplayState.foregroundSlot).map Surface.appId

/-- Write to the store. -/
def modifyStore (d : Daemon) (f : Store → Store) : Daemon :=
  { d with arbiter := { d.arbiter with store := f d.arbiter.store } }

/-- Record an effect as performed. -/
def perform (d : Daemon) (f : Effect) : Daemon := { d with trace := d.trace ++ [f] }

/-- Ask the zygote for a process. -/
def askZygote (d : Daemon) : Daemon × Except String Pid :=
  match d.zygote with
  | [] => (d, .error "zygote unreachable")
  | answer :: rest => ({ d with zygote := rest }, answer)

/-- Register a launched process and place its surface. -/
def registerLaunch (d : Daemon) (clock : Clock) (appId : String) (pid : Pid) (role : Role) :
    Daemon :=
  d.modifyStore fun s =>
    (s.insertApp { appId, pid, launchedAt := clock.unix, launchedMono := clock.mono }).modifyDisplay
      primaryDisplay fun disp => disp.putSurface pid appId role

variable [Fpu]

/-- Run a command of a module. -/
def runModule (d : Daemon) (w : World) (verb : Verb) (args : String) :
    Daemon × List Effect × Reply :=
  let (a, fx, reply) := d.arbiter.command buildRegistry w.clock verb args
  ({ d with arbiter := a }, fx, reply)

section Dispatch

variable (execute : List Effect → Daemon → Daemon) (w : World)

/-- Run a command of a module and perform its effects. -/
def runAndExecute (verb : Verb) (args : String) (d : Daemon) : Daemon × Reply :=
  let (d, fx, reply) := d.runModule w verb args
  (execute fx d, reply)

/-- Make the chrome agree with whether the foreground app is immersive. -/
def reconcileImmersive (d : Daemon) : Daemon :=
  let immersive := (d.foregroundSlot.map w.immersive).getD false
  (runAndExecute execute w (.wm .setImmersive) (bit immersive) d).1

/-- Bring a tracked app to the foreground. -/
def dispatchForeground (appId : String) (d : Daemon) : Daemon :=
  reconcileImmersive execute w (runAndExecute execute w (.shell .foreground) appId d).1

/-- Launch an app the modules asked for; it starts in the background. -/
def launchEffect (appId : String) (kind : LaunchKind) (d : Daemon) : Daemon :=
  match d.askZygote with
  | (d, .error _) => d
  | (d, .ok pid) =>
    let role := if kind = .headless then .headless else .background
    (d.registerLaunch w.clock appId pid role).perform (.setRole pid role)

/-- Perform one effect. -/
def executeEffect (f : Effect) (d : Daemon) : Daemon :=
  let d := d.perform f
  match f with
  | .foreground appId => dispatchForeground execute w appId d
  | .launch appId kind => launchEffect w appId kind d
  | _ => d

end Dispatch

/-- Perform effects in order, re-entering the dispatcher at most `n` deep. -/
def executeWithin (w : World) : Nat → List Effect → Daemon → Daemon
  | 0, _, d => d
  | n + 1, fx, d => fx.foldl (fun d f => executeEffect (executeWithin w n) w f d) d

/-- The depth to which performing effects can re-enter the dispatcher. -/
def effectDepth : Nat := 2

/-- Perform effects in order. -/
def executeEffects (w : World) (fx : List Effect) (d : Daemon) : Daemon :=
  executeWithin w effectDepth fx d

/-- Run a command of a module and perform its effects. -/
def run (w : World) (verb : Verb) (args : String) (d : Daemon) : Daemon × Reply :=
  runAndExecute (executeEffects w) w verb args d

/-- Bring a tracked app to the foreground. -/
def foreground (w : World) (appId : String) (d : Daemon) : Daemon :=
  dispatchForeground (executeEffects w) w appId d

/-- Reconcile the chrome when a dispatch changed the app in the foreground slot. -/
def reconcileIfChanged (w : World) (before d : Daemon) : Daemon :=
  if d.foregroundSlot ≠ before.foregroundSlot then reconcileImmersive (executeEffects w) w d else d

/-- Serve a command of a module. -/
def dispatchModule (w : World) (verb : Verb) (args : String) (d : Daemon) : Daemon × String :=
  let (d', reply) := run w verb args d
  (reconcileIfChanged w d d', reply.render)

/-- Inject an event and perform the effects of the reactions. -/
def busEmit (w : World) (e : Event) (d : Daemon) : Daemon :=
  let (a, fx) := d.arbiter.inject buildRegistry w.clock e
  reconcileIfChanged w d (executeEffects w fx { d with arbiter := a })

/-! ## Launches and the home app -/

/-- Bring the home app to the foreground, launching it if it is not running. -/
def ensureHomeForeground (w : World) (d : Daemon) : Daemon :=
  match d.arbiter.store.home with
  | none => d
  | some home =>
    if d.foregroundSlot = some home then d
    else if (d.arbiter.store.app home).isSome then foreground w home d
    else match d.askZygote with
      | (d, .error _) => d
      | (d, .ok pid) => foreground w home (d.registerLaunch w.clock home pid .background)

/-- What a launch that could not be answered by an app already running does. -/
def launchFresh (w : World) (appId : String) (kind : LaunchKind) (d : Daemon) : Daemon × String :=
  match d.askZygote with
  | (d, .error e) => (d, s!"ERR launch-failed {e}")
  | (d, .ok pid) =>
    let key := if appId = "" then "<dev-cwasm>" else appId
    let d := d.registerLaunch w.clock key pid (if kind = .headless then .headless else .background)
    let d := match kind with
      | .gui => foreground w key d
      | .guiOverlay => d.perform (.signalVisible pid false)
      | .headless => d
    (d, s!"OK pid={pid} app={key}")

def cmdLaunch (w : World) (appId : String) (kind : LaunchKind) (d : Daemon) : Daemon × String :=
  if appId = "" ∧ kind ≠ .gui then (d, "ERR launch-empty-app-id")
  else
    -- an app already running comes forward instead of being launched twice
    match if kind = .gui ∧ appId ≠ "" then
        (d.arbiter.store.app appId).filter fun s => w.alive s.pid else none with
    | some s => (foreground w s.appId d, s!"OK pid={s.pid} app={appId} foregrounded")
    | none => launchFresh w appId kind d

def cmdSetHome (w : World) (rest : String) (d : Daemon) : Daemon × String :=
  let appId := trim rest
  if appId = "" then (d, "ERR set-home-empty-app-id")
  else
    let prev := d.arbiter.store.home.getD "(none)"
    if appId = "-" then (d.modifyStore fun s => s.setHome none, s!"OK home cleared prev={prev}")
    else
      (ensureHomeForeground w (d.modifyStore fun s => s.setHome (some appId)),
        s!"OK home={appId} prev={prev}")

def cmdGoHome (w : World) (d : Daemon) : Daemon × String :=
  match d.arbiter.store.home with
  | some home => (ensureHomeForeground w d, s!"OK go-home={home}")
  | none => (d, "ERR no-home-set (use: set-home <app-id>)")

def cmdPreload (w : World) (appId : String) (d : Daemon) : Daemon × String :=
  if appId = "" then (d, "ERR preload-empty-app-id")
  else match w.preload appId with
    | .ok reply => (d, reply)
    | .error e => (d, s!"ERR preload-failed {appId}: {e}")

/-! ## Wifi -/

/-- The reply of the network daemon to a line. -/
def relayWifi (w : World) (line : String) : String :=
  match w.relay line with
  | .ok reply => reply
  | .error e => s!"err wifi-relay {e} (wandr-net daemon down?)"

/-- The value of a key in a list of assignments. -/
def assignment (key body : String) : String :=
  ((splitWhitespace body).findSome? fun kv =>
    if key.toList.isPrefixOf kv.toList then some (String.ofList (kv.toList.drop key.length))
    else none).getD ""

/-- Connect to a saved network; its credentials are looked up without effects. -/
def cmdWifiConnectSaved (w : World) (rest : String) (d : Daemon) : Daemon × String :=
  match d.runModule w (.net .savedCreds) rest with
  | (d, _, .err e) => (d, s!"err {e}")
  | (d, _, .ok body) =>
    let ssid := assignment "ssid=" body
    let psk := assignment "psk=" body
    if ssid = "" then (d, "err saved-creds-malformed")
    else (d, relayWifi w s!"connect {ssid} {psk}")

/-! ## The power menu and the POWER key -/

/-- The buttons of the power menu. -/
inductive PmAction
  | lock
  | poweroff
  | restart
  | emergency

/-- Hide the power menu, then perform the action. -/
def cmdPmAction (w : World) (action : PmAction) (d : Daemon) : Daemon × String :=
  let d := (run w (.keyguard .pmDismiss) "" d).1
  match action with
  | .lock => ((run w (.keyguard .lock) "" d).1, "OK pm-lock")
  | .poweroff => ({ d with reboots := d.reboots ++ [true] }, "OK pm-poweroff")
  | .restart => ({ d with reboots := d.reboots ++ [false] }, "OK pm-restart")
  | .emergency => (d, "OK pm-emergency")

/-- Open the power menu, waking the panel first. -/
def showPowerMenu (w : World) (d : Daemon) : Daemon :=
  (run w (.keyguard .powerMenu) "" (run w (.power .panel) "on" d).1).1

/-- A press of the POWER key; a repetition within two seconds is the same press
    seen by another host. -/
def cmdPowerDown (w : World) (d : Daemon) : Daemon × String :=
  match d.powerPending.filter fun p => w.clock.elapsed p.2 ≤ millis 2000 with
  | some _ => (d, "OK power-down (dup)")
  | none =>
    let gen := (d.powerGen + 1) % 2 ^ 64
    ({ d with powerGen := gen, powerPending := some (gen, w.clock.mono) }, "OK power-down")

/-- The timer of a press: when the key is still held, the menu opens. -/
def holdTimer (w : World) (gen : Nat) (d : Daemon) : Daemon :=
  match d.powerPending.filter fun p => p.1 = gen with
  | some _ => showPowerMenu w { d with powerPending := none }
  | none => d

/-- A release of the POWER key: a short press toggles the panel. -/
def cmdPowerUp (w : World) (d : Daemon) : Daemon × String :=
  match d.powerPending with
  | none => (d, "OK power-up")
  | some (_, t) =>
    let d := { d with powerPending := none }
    let d :=
      if millis 1000 ≤ w.clock.elapsed t then showPowerMenu w d
      else (run w (.power .powerKey) "" d).1
    (d, "OK power-up")

/-! ## Clients, exits and timers -/

/-- Serve a verb the daemon handles itself. -/
def legacy (w : World) (verb : LegacyVerb) (rest : String) (d : Daemon) : Daemon × String :=
  match verb with
  | .launch => cmdLaunch w rest .gui d
  | .launchHeadless => cmdLaunch w rest .headless d
  | .launchOverlay => cmdLaunch w rest .guiOverlay d
  | .preload => cmdPreload w rest d
  | .setHome => cmdSetHome w rest d
  | .goHome => cmdGoHome w d
  | .wifiScan => (d, relayWifi w "scan")
  | .wifiConnect => (d, relayWifi w s!"connect {rest}")
  | .wifiSetEnabled => (d, relayWifi w s!"set-enabled {rest}")
  | .wifiIsEnabled => (d, relayWifi w "is-enabled")
  | .wifiConnectSaved => cmdWifiConnectSaved w rest d
  | .pmLock => cmdPmAction w .lock d
  | .pmPoweroff => cmdPmAction w .poweroff d
  | .pmRestart => cmdPmAction w .restart d
  | .pmEmergency => cmdPmAction w .emergency d
  | .powerDown => cmdPowerDown w d
  | .powerUp => cmdPowerUp w d

/-- Serve a client. -/
def handleClient (w : World) (cmd : Command) (d : Daemon) : Daemon × String :=
  match cmd with
  | .module verb args => dispatchModule w verb args d
  | .legacy verb args => legacy w verb args d
  | .unknown verb => (d, s!"ERR unknown-command {verb}")

/-- Clean up after a child that exited. When its exit leaves the foreground slot
    empty, the home app comes forward. -/
def handleChildExit (w : World) (pid : Pid) (d : Daemon) : Daemon :=
  if (d.arbiter.store.appByPid pid).isNone then d
  else
    let d := busEmit w (.surfaceRemoved pid) d
    if d.foregroundSlot.isNone ∧ d.arbiter.store.home.isSome then ensureHomeForeground w d else d

/-- What happens to the daemon. -/
inductive Input
  | client (cmd : Command)
  | childExit (pid : Pid)
  | holdTimer (gen : Nat)
  | alarmTimer (nowMs : Nat)
  | screenPoll (live : Bool)
  | idleTimer
  | sensorSample (kind : SensorKind) (x y z : F32) (tsNs : Nat)
  | sensorDescriptor (kind : SensorKind) (maxRange resolution : F32)

/-- One step of the daemon. -/
def step (w : World) (i : Input) (d : Daemon) : Daemon :=
  match i with
  | .client cmd => (handleClient w cmd d).1
  | .childExit pid => handleChildExit w pid d
  | .holdTimer gen => holdTimer w gen d
  | .alarmTimer nowMs =>
    -- the timer skips the bus while no alarm is scheduled
    if d.arbiter.store.hasAlarms then busEmit w (.alarmTick nowMs) d else d
  | .screenPoll live => busEmit w (.screenState live) d
  | .idleTimer => busEmit w .idleTick d
  | .sensorSample kind x y z tsNs => busEmit w (.sensorReading kind x y z tsNs) d
  | .sensorDescriptor kind maxRange resolution =>
    d.modifyStore fun s => s.setSensorDescriptor kind maxRange resolution

/-! ## Boot -/

/-- The surfaces of the restored apps: all in the background but the one that was
    in the foreground. -/
def seedSurfaces (apps : List AppState) (restoredFg : Option String) (d : DisplayState) :
    DisplayState :=
  apps.foldl (fun d a =>
    d.putSurface a.pid a.appId (if restoredFg = some a.appId then .foreground else .background))
    d.clear

/-- What a daemon starts from: the state restored from its file, the file of the
    saved networks, and the launches to come. -/
structure Restored where
  apps : Table AppState.appId := .empty
  home : Option String := none
  alarms : Table Alarm.key := .empty
  foreground : Option String := none
  networks : Option String := none
  zygote : List (Except String Pid) := []

/-- The daemon before it serves its first client: the home app, if there is one,
    is brought to the foreground. -/
def boot (w : World) (r : Restored) : Daemon :=
  let store : Store := { apps := r.apps, home := r.home, alarms := r.alarms }
  let store := store.modifyDisplay primaryDisplay (seedSurfaces r.apps.rows r.foreground)
  ensureHomeForeground w
    { arbiter := { store, mods := { net := .withStore r.networks } }, zygote := r.zygote }

/-- The states a daemon can be in: a step is taken from states without a failed
    expectation only. -/
inductive Reachable : Daemon → Prop
  | boot (w : World) (r : Restored) : Reachable (boot w r)
  | step {d : Daemon} (w : World) (i : Input) : Reachable d → d.arbiter.panicked = false →
      Reachable (step w i d)

end Daemon

end Wandr
