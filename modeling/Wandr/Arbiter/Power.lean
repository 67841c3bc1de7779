import Mathlib.Data.Finset.Basic
import Wandr.Arbiter.Vocabulary
import Wandr.Lib.Text

/-!
# Power

The module that decides on dozing, on the power of the panel and on its
brightness. The panel has two owners: the POWER key, whose wish is `panelOn`,
and the proximity sensor, which blanks it during a call (`blanked`). Blanking
also suppresses the touch of every running app.

Who is in a call (`comms`), and in a video call (`videoCalls`), the module hears
from the audio module; it asks for the proximity sensor while a call lasts.
-/

namespace Wandr

open Text

/-- Milliseconds, in nanoseconds. -/
def millis (ms : Nat) : Nat := ms * 1000000

/-- The screen is off this long before the device dozes. -/
def dozeGraceMs : Nat := 60000

/-- The cadence of a background service while dozing. -/
def dozeMaintenanceMs : Nat := 10000

/-- The cadence of every other app while dozing. -/
def dozeSuspendMs : Nat := 60000

/-- The screen goes off after this long without input. -/
def defaultScreenOffTimeoutMs : Nat := 60000

/-- The light sensor stays on this long after the screen went off. -/
def alsWarmGraceMs : Nat := 120000

/-- The smallest backlight level, `0.04`. -/
def minFraction : F32 := ⟨0x3D23D70A⟩

/-- The smallest change of the backlight level, `0.03`. -/
def minStep : F32 := ⟨0x3CF5C28F⟩

/-- The ambient light at which the panel is at full brightness, `600`. -/
def fullScaleLuxDefault : F32 := ⟨0x44160000⟩

/-- The sample rate of the light sensor. -/
def lightRateHz : Nat := 5

structure PowerModule where
  screenOffAt : Option Nat := none
  dozing : Bool := false
  bgService : Finset Pid := ∅
  comms : Finset Pid := ∅
  videoCalls : Finset Pid := ∅
  blanked : Bool := false
  panelOn : Bool := true
  lightFrac : Option F32 := none
  manualFrac : Option F32 := none
  lastAppliedFrac : Option F32 := none
  fullScaleLux : F32 := fullScaleLuxDefault
  lastLux : Option F32 := none
  lastActivity : Option Nat := none
  screenOffTimeout : Option Nat := some (millis defaultScreenOffTimeoutMs)
  lightOn : Bool := false

/-- Whether to start or stop dozing, given how long the screen has been off. -/
def dozeDecision (offMs : Option Nat) (dozing : Bool) : Option Bool :=
  let dozingNow := (offMs.map fun ms => decide (dozeGraceMs ≤ ms)).getD false
  if dozingNow ≠ dozing then some dozingNow else none

/-- The backlight level for an ambient light. -/
def luxToFraction [Fpu] (lux fullScaleLux : F32) : F32 :=
  if Fpu.le fullScaleLux F32.zero then minFraction
  else
    let frac := Fpu.div (Fpu.log10 (Fpu.add (Fpu.max lux F32.zero) F32.one))
      (Fpu.log10 (Fpu.add fullScaleLux F32.one))
    Fpu.clamp frac minFraction F32.one

/-- Sleep once the input has been idle as long as the timeout. -/
def idleShouldSleep (idle timeout : Nat) : Bool := decide (timeout ≤ idle)

namespace PowerModule

/-! ## Doze -/

/-- The cadence of an app while dozing; a call is never dozed. -/
def cadenceFor (m : PowerModule) (pid : Pid) : Nat :=
  if pid ∈ m.comms then 0
  else if pid ∈ m.bgService then dozeMaintenanceMs
  else dozeSuspendMs

def onScreenState (clock : Clock) (m : PowerModule) (live : Bool) (c : Ctx) : PowerModule × Ctx :=
  let m :=
    if live then { m with screenOffAt := none }
    else if m.screenOffAt.isNone then { m with screenOffAt := some clock.mono }
    else m
  let offMs := m.screenOffAt.map fun t => asMillis (clock.elapsed t)
  match dozeDecision offMs m.dozing with
  | none => (m, c)
  | some newDozing =>
    let m := { m with dozing := newDozing }
    (m, c.deliverToAll (c.store.appsSnapshot.map AppState.pid) fun pid =>
      .doze (if newDozing then m.cadenceFor pid else 0))

def cmdReportClass (m : PowerModule) (args : String) (c : Ctx) : PowerModule × Ctx × Reply :=
  match splitWhitespace args with
  | pidS :: cls :: _ =>
    match parseSigned 32 pidS with
    | none => (m, c, .err s!"report-power-class-bad-pid {pidS}")
    | some pid =>
      let bgService := if cls = "bg-service" then insert pid m.bgService else m.bgService.erase pid
      ({ m with bgService }, c, .ok s!"power-class pid={pid} class={cls}")
  | _ => (m, c, .err "report-power-class-args: expected <pid> <bg-service|normal>")

/-! ## Brightness -/

/-- Whether the ambient light may drive the panel. -/
def autoBrightnessActive (m : PowerModule) : Bool :=
  m.panelOn && !m.blanked && m.manualFrac.isNone

/-- Whether the light sensor should be on. -/
def lightShouldBeWarm (clock : Clock) (m : PowerModule) : Bool :=
  if m.manualFrac.isSome then false
  else if m.panelOn then true
  else match m.screenOffAt with
    | some t => decide (clock.elapsed t < millis alsWarmGraceMs)
    | none => true

/-- Switch the light sensor to what it should be. -/
def reconcileLight (clock : Clock) (m : PowerModule) (c : Ctx) : PowerModule × Ctx :=
  let want := m.lightShouldBeWarm clock
  if want ≠ m.lightOn then
    ({ m with lightOn := want }, c.request (.setSensor .light want lightRateHz))
  else (m, c)

/-- Set the backlight again after a wake, an uncover or a return to ambient light. -/
def reassertBacklight (m : PowerModule) (c : Ctx) : PowerModule × Ctx :=
  if !m.panelOn || m.blanked then (m, c)
  else match m.manualFrac.or m.lightFrac with
    | some frac =>
      ({ m with lastAppliedFrac := some frac }, c.request (.setBacklight frac m.manualFrac.isNone))
    | none => (m, c)

section

variable [Fpu]

/-- Set the backlight to the ambient level, if that changes it enough. -/
def applyAutoBrightness (m : PowerModule) (c : Ctx) : PowerModule × Ctx :=
  if !m.autoBrightnessActive then (m, c)
  else match m.lightFrac with
    | none => (m, c)
    | some frac =>
      let still := (m.lastAppliedFrac.map fun last =>
        Fpu.lt (Fpu.abs (Fpu.sub frac last)) minStep).getD false
      if still then (m, c)
      else ({ m with lastAppliedFrac := some frac }, c.request (.setBacklight frac true))

def onLight (m : PowerModule) (lux : F32) (c : Ctx) : PowerModule × Ctx :=
  { m with lastLux := some lux, lightFrac := some (luxToFraction lux m.fullScaleLux) }
    |>.applyAutoBrightness c

def cmdBrightness (m : PowerModule) (args : String) (c : Ctx) : PowerModule × Ctx × Reply :=
  match (splitWhitespace args).head? with
  | some "auto" =>
    let (m, c) := { m with manualFrac := none }.reassertBacklight c
    (m, c, .ok "brightness auto")
  | some tok =>
    match (Fpu.parse tok).filter fun f => Fpu.le F32.zero f && Fpu.le f F32.one with
    | some f =>
      let m := { m with manualFrac := some f }
      let (m, c) :=
        if m.panelOn && !m.blanked then
          ({ m with lastAppliedFrac := some f }, c.request (.setBacklight f false))
        else (m, c)
      (m, c, .ok s!"brightness {Fpu.display f}")
    | none => (m, c, .err "brightness-args: expected auto|0.0..1.0")
  | none => (m, c, .err "brightness-usage: brightness <auto|0.0..1.0>")

def cmdBrightnessScale (m : PowerModule) (args : String) (c : Ctx) : PowerModule × Ctx × Reply :=
  match (splitWhitespace args).head? with
  | none => (m, c, .err "brightness-scale-usage: brightness-scale <lux>")
  | some tok =>
    match Fpu.parse tok with
    | none => (m, c, .err s!"brightness-scale-bad-lux {quote tok}")
    | some lux =>
      if Fpu.le lux F32.zero then (m, c, .err "brightness-scale: lux must be > 0")
      else
        let m := { m with fullScaleLux := lux }
        let (m, c) := match m.lastLux with
          | some last =>
            let m := { m with lightFrac := some (luxToFraction last m.fullScaleLux) }
            if m.manualFrac.isNone then m.reassertBacklight c else (m, c)
          | none => (m, c)
        (m, c, .ok s!"brightness-scale {Fpu.display lux}")

end

/-! ## The panel -/

/-- Set the panel power the user sees, and broadcast it. A blanked panel is left
    to the proximity sensor. -/
def setPanelOn (clock : Clock) (m : PowerModule) (on : Bool) (c : Ctx) : PowerModule × Ctx :=
  let m := { m with panelOn := on }
  let c := if !m.blanked then c.request (.setDisplayPower on) else c
  let (m, c) :=
    if on then
      let (m, c) := m.reassertBacklight c
      ({ m with lastActivity := some clock.mono }, c)
    else (m, c)
  m.reconcileLight clock (c.emit (.screenState on))

def cmdPowerKey (clock : Clock) (m : PowerModule) (c : Ctx) : PowerModule × Ctx × Reply :=
  let on := !m.panelOn
  let (m, c) := m.setPanelOn clock on c
  (m, c, .ok s!"panel {onOff on}")

/-- A switch of the wire. -/
def parsePanel : Option String → Option Bool
  | some "on" | some "1" => some true
  | some "off" | some "0" => some false
  | _ => none

def cmdPanel (clock : Clock) (m : PowerModule) (args : String) (c : Ctx) :
    PowerModule × Ctx × Reply :=
  let tok := (splitWhitespace args).head?
  match parsePanel tok with
  | some on =>
    let (m, c) := m.setPanelOn clock on c
    (m, c, .ok s!"panel {onOff on}")
  | none => (m, c, .err s!"panel-args: expected on|off, got {quoteOption tok}")

/-- Blank the panel or lift the blank, the touch of every app with it. Lifting it
    restores the power the user sees. -/
def setPanelBlanked (m : PowerModule) (blank : Bool) (c : Ctx) : PowerModule × Ctx :=
  let on := if blank then false else m.panelOn
  let c := c.request (.setDisplayPower on)
  let c := c.deliverToAll (c.store.appsSnapshot.map AppState.pid) fun _ => .inputSuppress blank
  ({ m with blanked := blank }, c)

/-- Lift the blank, if there is one. -/
def ensureUnblanked (m : PowerModule) (c : Ctx) : PowerModule × Ctx :=
  if m.blanked then
    let (m, c) := m.setPanelBlanked false c
    m.reassertBacklight c
  else (m, c)

/-! ## The screen-off timeout -/

def cmdUserActivity (clock : Clock) (m : PowerModule) (c : Ctx) : PowerModule × Ctx × Reply :=
  ({ m with lastActivity := some clock.mono }, c, .ok "user-activity")

def cmdScreenTimeout (clock : Clock) (m : PowerModule) (args : String) (c : Ctx) :
    PowerModule × Ctx × Reply :=
  match (splitWhitespace args).head? with
  | some "off" | some "none" | some "0" =>
    ({ m with screenOffTimeout := none }, c, .ok "screen-timeout off")
  | some tok =>
    match parseUnsigned 64 tok with
    | some ms =>
      ({ m with screenOffTimeout := some (millis ms), lastActivity := some clock.mono }, c,
        .ok s!"screen-timeout {ms}")
    | none => (m, c, .err "screen-timeout-args: expected <ms|off>")
  | none => (m, c, .err "screen-timeout-usage: screen-timeout <ms|off>")

/-- Put the panel to sleep when the input has been idle too long; never while it
    is off or blanked, nor during a call. -/
def onIdleTick (clock : Clock) (m : PowerModule) (c : Ctx) : PowerModule × Ctx :=
  let (m, c) := m.reconcileLight clock c
  if !m.panelOn || m.blanked then (m, c)
  else if m.comms ≠ ∅ then (m, c)
  else match m.screenOffTimeout with
    | none => (m, c)
    | some timeout =>
      match m.lastActivity with
      | none => ({ m with lastActivity := some clock.mono }, c)
      | some t =>
        if idleShouldSleep (clock.elapsed t) timeout then m.setPanelOn clock false c else (m, c)

/-! ## Calls -/

def onSurfaceRemoved (m : PowerModule) (pid : Pid) (c : Ctx) : PowerModule × Ctx :=
  let m := { m with
    videoCalls := m.videoCalls.erase pid
    bgService := m.bgService.erase pid
    comms := m.comms.erase pid }
  -- the host of the last call is gone, so nothing else would lift the blank
  if m.comms = ∅ then m.ensureUnblanked c else (m, c)

def onCommsActive (m : PowerModule) (pid : Pid) (active : Bool) (c : Ctx) : PowerModule × Ctx :=
  let m := if !active then { m with videoCalls := m.videoCalls.erase pid } else m
  let m := { m with comms := if active then insert pid m.comms else m.comms.erase pid }
  let (m, c) := if !active ∧ m.comms = ∅ then m.ensureUnblanked c else (m, c)
  let c :=
    if active then c.emit (.sensorAcquire .proximity pid)
    else c.emit (.sensorRelease .proximity pid)
  if m.dozing then (m, c.deliverToHost pid (.doze (m.cadenceFor pid))) else (m, c)

def onVideoCallActive (m : PowerModule) (pid : Pid) (active : Bool) (c : Ctx) :
    PowerModule × Ctx :=
  if active then { m with videoCalls := insert pid m.videoCalls }.ensureUnblanked c
  else ({ m with videoCalls := m.videoCalls.erase pid }, c)

def onProximityChanged (m : PowerModule) (near : Bool) (c : Ctx) : PowerModule × Ctx :=
  let inCall := decide (m.comms ≠ ∅ ∧ m.videoCalls = ∅)
  if inCall && near && !m.blanked then m.setPanelBlanked true c
  else if !near && m.blanked then m.ensureUnblanked c
  else if !inCall && m.blanked then m.ensureUnblanked c
  else (m, c)

/-! ## The module -/

/-- The verbs of the module. -/
inductive Verb
  | reportPowerClass
  | powerKey
  | panel
  | brightness
  | brightnessScale
  | userActivity
  | screenTimeout
  deriving DecidableEq

/-- A verb on the wire. -/
def Verb.wire : Verb → String
  | .reportPowerClass => "report-power-class"
  | .powerKey => "power-key"
  | .panel => "panel"
  | .brightness => "brightness"
  | .brightnessScale => "brightness-scale"
  | .userActivity => "user-activity"
  | .screenTimeout => "screen-timeout"

variable [Fpu]

def onCommand (clock : Clock) (m : PowerModule) (verb : Verb) (args : String) (c : Ctx) :
    PowerModule × Ctx × Reply :=
  match verb with
  | .reportPowerClass => m.cmdReportClass args c
  | .powerKey => m.cmdPowerKey clock c
  | .panel => m.cmdPanel clock args c
  | .brightness => m.cmdBrightness args c
  | .brightnessScale => m.cmdBrightnessScale args c
  | .userActivity => m.cmdUserActivity clock c
  | .screenTimeout => m.cmdScreenTimeout clock args c

def onEvent (clock : Clock) (m : PowerModule) (e : Event) (c : Ctx) : PowerModule × Ctx :=
  match e with
  | .screenState live => m.onScreenState clock live c
  | .surfaceRemoved pid => m.onSurfaceRemoved pid c
  | .commsActive pid active => m.onCommsActive pid active c
  | .videoCallActive pid active => m.onVideoCallActive pid active c
  | .proximityChanged near => m.onProximityChanged near c
  | .sensorReading .light x _ _ _ => m.onLight x c
  | .idleTick => m.onIdleTick clock c
  | _ => (m, c)

end PowerModule

end Wandr
