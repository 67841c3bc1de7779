import Wandr.Arbiter.Vocabulary
import Wandr.Lib.Text

/-!
# Sensors

The single owner of the hardware sensors. Each kind has a list of holders, the
first of which switches the sensor on and the last of which switches it off. The
raw readings of the proximity sensor become a debounced near or far.
-/

namespace Wandr

open Text

/-- Near is closer than this fraction of the range, `0.5`. -/
def proximityNearFraction : F32 := ⟨0x3F000000⟩

/-- Half the dead band, as a fraction of the range, `0.1`. -/
def proximityHystFraction : F32 := ⟨0x3DCCCCCD⟩

/-- The sample rate of a sensor whose latency does not matter. -/
def defaultRateHz : Nat := 0

/-- The sample rate of the proximity sensor. -/
def proximityRateHz : Nat := 20

/-- The sample rate requested for a kind. -/
def rateFor : SensorKind → Nat
  | .proximity => proximityRateHz
  | _ => defaultRateHz

/-- The holder standing for the `sensor-hold` verb. -/
def manualRequester : Pid := -1

structure SensorsModule where
  holders : SensorKind → List Pid := fun _ => []
  proxNear : Option Bool := none

namespace SensorsModule

/-- Replace the holders of a kind. -/
def setHolders (m : SensorsModule) (kind : SensorKind) (hs : List Pid) : SensorsModule :=
  { m with holders := Function.update m.holders kind hs }

/-- Add a holder; the first one switches the sensor on. -/
def acquire (m : SensorsModule) (kind : SensorKind) (requester : Pid) (c : Ctx) :
    SensorsModule × Ctx :=
  let holders := m.holders kind
  let m := if holders.contains requester then m else m.setHolders kind (holders ++ [requester])
  (m, if holders.isEmpty then c.request (.setSensor kind true (rateFor kind)) else c)

/-- Drop a holder; the last one switches the sensor off. -/
def release (m : SensorsModule) (kind : SensorKind) (requester : Pid) (c : Ctx) :
    SensorsModule × Ctx :=
  let holders := m.holders kind
  let left := holders.filter fun r => r ≠ requester
  let m := m.setHolders kind left
  if left.isEmpty ∧ ¬ holders.isEmpty then
    ({ m with proxNear := if kind = .proximity then none else m.proxNear },
      c.request (.setSensor kind false (rateFor kind)))
  else (m, c)

/-- Every kind of sensor. -/
def kinds : List SensorKind := [.proximity, .accelerometer, .light, .deviceOrientation]

/-- Drop a holder from every kind it holds. -/
def releaseAll (m : SensorsModule) (requester : Pid) (c : Ctx) : SensorsModule × Ctx :=
  (kinds.filter fun k => (m.holders k).contains requester).foldl
    (fun mc k => mc.1.release k requester mc.2) (m, c)

section

variable [Fpu]

/-- A reading of the proximity sensor as near or far; ignored while the range of
    the sensor is unknown. -/
def translateProximity (m : SensorsModule) (x : F32) (c : Ctx) : SensorsModule × Ctx :=
  match (c.store.sensor .proximity).filter fun slot => Fpu.lt F32.zero slot.maxRange with
  | none => (m, c)
  | some slot =>
    let mid := Fpu.mul slot.maxRange proximityNearFraction
    let band := Fpu.mul slot.maxRange proximityHystFraction
    let near := match m.proxNear with
      | none => Fpu.lt x mid
      | some true => Fpu.lt x (Fpu.add mid band)
      | some false => Fpu.lt x (Fpu.sub mid band)
    if m.proxNear ≠ some near then
      ({ m with proxNear := some near }, c.emit (.proximityChanged near))
    else (m, c)

/-- Cache a reading and translate it. -/
def onReading (m : SensorsModule) (kind : SensorKind) (x y z : F32) (tsNs : Nat) (c : Ctx) :
    SensorsModule × Ctx :=
  let c := c.modifyStore fun s => s.modifySensor kind fun slot =>
    { slot with lastX := x, lastY := y, lastZ := z, lastTsNs := tsNs, hasReading := true }
  if kind = .proximity then m.translateProximity x c else (m, c)

/-! ## Commands -/

def cmdReportSensor (m : SensorsModule) (args : String) (c : Ctx) : SensorsModule × Ctx × Reply :=
  match splitWhitespace args with
  | [] => (m, c, .err "report-sensor-usage <kind> <x> [y z]")
  | kindTok :: coords =>
    match SensorKind.fromWire kindTok with
    | none => (m, c, .err s!"report-sensor-unknown-kind {quote kindTok}")
    | some kind =>
      let coord (i : Nat) : F32 := (coords[i]?.bind Fpu.parse).getD F32.zero
      if coords.isEmpty then (m, c, .err "report-sensor-missing-x")
      else
        let (x, y, z) := (coord 0, coord 1, coord 2)
        (m, c.emit (.sensorReading kind x y z 0),
          .ok (s!"report-sensor {kind.asWire} x={Fpu.display x} y={Fpu.display y} " ++
            s!"z={Fpu.display z}"))

def cmdReportSensorDescriptor (m : SensorsModule) (args : String) (c : Ctx) :
    SensorsModule × Ctx × Reply :=
  match splitWhitespace args with
  | kindTok :: mrTok :: rest =>
    match SensorKind.fromWire kindTok with
    | none => (m, c, .err s!"report-sensor-descriptor-unknown-kind {quote kindTok}")
    | some kind =>
      match Fpu.parse mrTok with
      | none => (m, c, .err s!"report-sensor-descriptor-bad-max-range {quote mrTok}")
      | some maxRange =>
        let resolution := (rest.head?.bind Fpu.parse).getD F32.zero
        (m, c.modifyStore fun s => s.setSensorDescriptor kind maxRange resolution,
          .ok (s!"report-sensor-descriptor {kind.asWire} max_range={Fpu.display maxRange} " ++
            s!"resolution={Fpu.display resolution}"))
  | _ => (m, c, .err "report-sensor-descriptor-usage <kind> <max_range> <resolution>")

omit [Fpu] in
/-- A switch of the wire. -/
def parseSwitch : Option String → Option Bool
  | some "on" | some "1" | some "true" => some true
  | some "off" | some "0" | some "false" => some false
  | _ => none

omit [Fpu] in
def cmdSensorHold (m : SensorsModule) (args : String) (c : Ctx) : SensorsModule × Ctx × Reply :=
  match splitWhitespace args with
  | [] => (m, c, .err "sensor-hold-usage <kind> <on|off>")
  | kindTok :: rest =>
    match SensorKind.fromWire kindTok with
    | none => (m, c, .err s!"sensor-hold-unknown-kind {quote kindTok}")
    | some kind =>
      match parseSwitch rest.head? with
      | none => (m, c, .err "sensor-hold-usage <kind> <on|off>")
      | some on =>
        let (m, c) :=
          if on then m.acquire kind manualRequester c else m.release kind manualRequester c
        (m, c, .ok s!"sensor-hold {kind.asWire} {onOff on}")

def cmdSensorState (m : SensorsModule) (c : Ctx) : SensorsModule × Ctx × Reply :=
  let part (kind : SensorKind) : String :=
    let val := match c.store.sensor kind with
      | some slot =>
        if slot.hasReading then
          s!"x={Fpu.displayFixed 3 slot.lastX} max={Fpu.displayFixed 3 slot.maxRange}"
        else s!"max={Fpu.displayFixed 3 slot.maxRange} (no reading)"
      | none => "unknown"
    s!"{kind.asWire}[holders={(m.holders kind).length} {val}]"
  let near := match m.proxNear with
    | some true => "near"
    | some false => "far"
    | none => "unknown"
  let parts := String.intercalate " " ([SensorKind.proximity, .accelerometer, .light].map part)
  (m, c, .ok s!"sensors prox={near} {parts}")

end

/-! ## The module -/

/-- The verbs of the module. -/
inductive Verb
  | reportSensor
  | reportSensorDescriptor
  | sensorState
  | sensorHold
  deriving DecidableEq

/-- A verb on the wire. -/
def Verb.wire : Verb → String
  | .reportSensor => "report-sensor"
  | .reportSensorDescriptor => "report-sensor-descriptor"
  | .sensorState => "sensor-state"
  | .sensorHold => "sensor-hold"

variable [Fpu]

def onCommand (m : SensorsModule) (verb : Verb) (args : String) (c : Ctx) :
    SensorsModule × Ctx × Reply :=
  match verb with
  | .reportSensor => m.cmdReportSensor args c
  | .reportSensorDescriptor => m.cmdReportSensorDescriptor args c
  | .sensorState => m.cmdSensorState c
  | .sensorHold => m.cmdSensorHold args c

def onEvent (m : SensorsModule) (e : Event) (c : Ctx) : SensorsModule × Ctx :=
  match e with
  | .sensorAcquire kind requester => m.acquire kind requester c
  | .sensorRelease kind requester => m.release kind requester c
  | .sensorReading kind x y z tsNs => m.onReading kind x y z tsNs c
  | .surfaceRemoved pid => m.releaseAll pid c
  | _ => (m, c)

end SensorsModule

end Wandr
