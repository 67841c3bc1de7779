import Wandr.Arbiter.Vocabulary
import Wandr.Lib.Text

/-!
# The window manager

The geometry policy: what insets, keyboard occlusion and orientation each
surface is told to apply. The module keeps no state of its own. It reacts to the
events that bear on geometry by pushing a `geometry` line to the hosts
concerned, and of the store it writes the geometry of a display only.
-/

namespace Wandr.Wm

open Text

/-- The rotation of the content that undoes a rotation of the device. -/
def deviceRotationToOrient (rot : Nat) : Nat :=
  match rot % 4 with
  | 0 => 0
  | 1 => 4
  | 2 => 3
  | _ => 7

def focusedEditor (s : Store) (id : DisplayId) : Option Pid :=
  (s.display id).bind fun d => d.imeEditor.map Prod.fst

/-- The orientation every visible surface displays at: portrait under a lock
    screen or while the foreground app pins it. -/
def effectiveOrient (s : Store) (id : DisplayId) : Nat :=
  if ((s.display id).map fun d => d.surfaces.rows.any fun f => f.role = .lockscreen).getD false
  then 0
  else ((s.geometry id).map fun g =>
    if g.orientationLocked then 0 else g.orientation).getD orientHostOwned

def keyboardPx (s : Store) (id : DisplayId) : Nat :=
  ((s.geometry id).map DisplayGeometry.keyboardPx).getD 0

section

variable [Fpu]

/-- The insets on the wire: none for an immersive app, the authored ones once
    the density is known, and the host's own until then. -/
def insetFields (s : Store) (id : DisplayId) : Nat × Nat :=
  match s.geometry id with
  | some g =>
    if g.immersive then (0, 0)
    else if g.densityKnown then g.chromeInsets
    else (insetHostOwned, insetHostOwned)
  | none => (insetHostOwned, insetHostOwned)

/-- Whether there is any policy to push to a surface without an editor. -/
def hasSurfacePolicy (s : Store) (id : DisplayId) : Bool :=
  ((s.geometry id).map fun g =>
    g.densityKnown || decide (g.orientation ≠ orientHostOwned)).getD false

def geometryLine (s : Store) (id : DisplayId) (keyboardPx : Nat) : Line :=
  let (top, bottom) := insetFields s id
  .geometry top bottom keyboardPx (effectiveOrient s id)

/-- The surfaces that follow the system orientation without being an app. -/
def overlayTargets (s : Store) (id : DisplayId) : List Pid :=
  let targets := ((s.display id).map fun d =>
    (d.surfaces.rows.filter fun f => f.role = .chrome ∨ f.role = .lockscreen).map
      Surface.pid).getD []
  match (s.display id).bind DisplayState.activeIme with
  | some ime => if targets.contains ime then targets else targets ++ [ime]
  | none => targets

/-- Fan the orientation to the chrome, the lock screen and the input method. -/
def fanOverlays (c : Ctx) (id : DisplayId) : Ctx :=
  if effectiveOrient c.store id = orientHostOwned then c
  else
    let line := geometryLine c.store id 0
    c.deliverToAll (overlayTargets c.store id) fun _ => line

omit [Fpu] in
def applyDeviceRotation (c : Ctx) (raw : Nat) : Ctx × Nat :=
  let orient := deviceRotationToOrient raw
  (c.emit (.orientationChanged primaryDisplay orient), orient)

/-- Push the system orientation to the focused editor, the visible app and the
    overlays. -/
def pushSystemOrientation (c : Ctx) (id : DisplayId) : Ctx :=
  let editor := focusedEditor c.store id
  let c := match editor with
    | some ed => c.deliverToHost ed (geometryLine c.store id (keyboardPx c.store id))
    | none => c
  let c := match (c.store.display id).bind DisplayState.visibleApp with
    | some fg =>
      if editor ≠ some fg then c.deliverToHost fg (geometryLine c.store id 0) else c
    | none => c
  fanOverlays c id

/-! ## Commands -/

omit [Fpu] in
def cmdReportOrientation (c : Ctx) (args : String) : Ctx × Reply :=
  match splitWhitespace args with
  | [] => (c, .err "report-orientation-missing-raw")
  | rawTok :: _ =>
    match parseUnsigned 32 rawTok with
    | none => (c, .err s!"report-orientation-bad-raw {quote rawTok}")
    | some raw =>
      let (c, orient) := applyDeviceRotation c raw
      (c, .ok s!"orientation raw={raw} orient={orient}")

omit [Fpu] in
/-- A flag of the wire. -/
def parseBit : String → Option Bool
  | "1" => some true
  | "0" => some false
  | _ => none

def cmdSetOrientationLock (c : Ctx) (args : String) : Ctx × Reply :=
  match parseBit (trim args) with
  | none => (c, .err s!"set-orientation-lock-bad-arg {quote (trim args)}")
  | some locked =>
    let c := c.modifyStore fun s => s.modifyGeometry primaryDisplay fun g =>
      { g with orientationLocked := locked }
    (pushSystemOrientation c primaryDisplay, .ok s!"orientation-lock {bit locked}")

/-- What `report-panel` does to a report it could parse. -/
def reportPanel (c : Ctx) (w h dpi : Nat) : Ctx × Reply :=
  let density := Fpu.div (Fpu.ofNat dpi) ⟨0x43200000⟩
  let g := ((c.store.geometry primaryDisplay).getD {})
  let changed := Fpu.lt ⟨0x34000000⟩ (Fpu.abs (Fpu.sub g.density density)) ||
    decide (g.panelW ≠ w) || decide (g.panelH ≠ h)
  let c := c.modifyStore fun s => s.modifyGeometry primaryDisplay fun g =>
    { g with panelW := w, panelH := h, density }
  let (top, bottom) := ((c.store.geometry primaryDisplay).map
    DisplayGeometry.chromeInsets).getD (insetHostOwned, insetHostOwned)
  let c :=
    if changed then
      pushSystemOrientation (c.emit (.panelMeasured primaryDisplay w h density)) primaryDisplay
    else c
  (c, .ok (s!"panel w={w} h={h} density={Fpu.displayFixed 3 density} " ++
    s!"inset-top={top} inset-bottom={bottom}"))

def cmdReportPanel (c : Ctx) (args : String) : Ctx × Reply :=
  match splitWhitespace args with
  | [wTok, hTok, dpiTok] =>
    match parseUnsigned 32 wTok, parseUnsigned 32 hTok, parseUnsigned 32 dpiTok with
    | some w, some h, some dpi => reportPanel c w h dpi
    | _, _, _ => (c, .err s!"report-panel-bad-args {quote args}")
  | _ => (c, .err "report-panel-args: expected <w> <h> <dpi>")

/-- What `set-immersive` does when the flag changes. -/
def setImmersive (c : Ctx) (imm : Bool) : Ctx :=
  let c := c.modifyStore fun s => s.modifyGeometry primaryDisplay fun g =>
    { g with immersive := imm }
  let chromePids := ((c.store.display primaryDisplay).map fun d =>
    (d.surfaces.rows.filter fun f => f.role = .chrome).map Surface.pid).getD []
  let c := chromePids.foldl (fun c pid => c.request (.signalVisible pid !imm)) c
  match (c.store.display primaryDisplay).bind DisplayState.visibleApp with
  | some fg => c.deliverToHost fg (geometryLine c.store primaryDisplay 0)
  | none => c

def cmdSetImmersive (c : Ctx) (args : String) : Ctx × Reply :=
  match parseBit (trim args) with
  | none => (c, .err s!"set-immersive-bad-arg {quote (trim args)}")
  | some imm =>
    if (c.store.geometry primaryDisplay).map DisplayGeometry.immersive = some imm then
      (c, .ok s!"immersive {bit imm} (unchanged)")
    else (setImmersive c imm, .ok s!"immersive {bit imm}")

/-- The verbs of the window manager. -/
inductive Verb
  | reportOrientation
  | setOrientationLock
  | reportPanel
  | setImmersive
  deriving DecidableEq

omit [Fpu] in
/-- A verb on the wire. -/
def Verb.wire : Verb → String
  | .reportOrientation => "report-orientation"
  | .setOrientationLock => "set-orientation-lock"
  | .reportPanel => "report-panel"
  | .setImmersive => "set-immersive"

def onCommand (verb : Verb) (args : String) (c : Ctx) : Ctx × Reply :=
  match verb with
  | .reportOrientation => cmdReportOrientation c args
  | .setOrientationLock => cmdSetOrientationLock c args
  | .reportPanel => cmdReportPanel c args
  | .setImmersive => cmdSetImmersive c args

def onEvent (e : Event) (c : Ctx) : Ctx :=
  match e with
  | .imeHeightChanged id px =>
    let c := c.modifyStore fun s => s.modifyGeometry id fun g => { g with keyboardPx := px }
    match focusedEditor c.store id with
    | some ed => c.deliverToHost ed (geometryLine c.store id px)
    | none => c
  | .editorFocusChanged editor focused =>
    -- on gain the height event emitted with it has pushed the inset already
    if focused then c else c.deliverToHost editor (geometryLine c.store primaryDisplay 0)
  | .foregroundChanged _ (some fg) =>
    if hasSurfacePolicy c.store primaryDisplay then
      c.deliverToHost fg (geometryLine c.store primaryDisplay 0)
    else c
  | .orientationChanged id orient =>
    pushSystemOrientation
      (c.modifyStore fun s => s.modifyGeometry id fun g => { g with orientation := orient }) id
  | .sensorReading .deviceOrientation x _ _ _ =>
    let raw := (Fpu.toI64 (Fpu.round x)).emod 4 |>.toNat
    let orient := deviceRotationToOrient raw
    if (c.store.geometry primaryDisplay).map DisplayGeometry.orientation ≠ some orient then
      (applyDeviceRotation c raw).1
    else c
  | _ => c

end

end Wandr.Wm
