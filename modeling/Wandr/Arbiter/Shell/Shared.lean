import Wandr.Arbiter.Vocabulary

/-!
# The shell: promotion and the overlay split

The orchestration the two halves of the shell share: promoting an app to the
foreground, engaging and tearing down the overlay split of the input method,
and the reconciliation of the overlay with what the display wants
(`reconcileOverlay`).

The shell reads the primary display only; `visibleApp_eq`, `overlayDesired_eq`
and the others reduce its readers to those of `Store.primary`.
-/

namespace Wandr.Shell

/-- The app-ids of the system surfaces, which are no switchable apps. -/
def chromeAppIds : List String :=
  ["wandr.statusbar", "wandr.taskbar", "wandr.ime.keyboard", "wandr.keyguard", "wandr.powermenu"]

/-! ## Readers of the store -/

def visibleApp (s : Store) : Option Pid := (s.display primaryDisplay).bind DisplayState.visibleApp

def overlayDesired (s : Store) : Option Pid :=
  (s.display primaryDisplay).bind DisplayState.overlayDesired

def overlayEngaged (s : Store) : Bool :=
  ((s.display primaryDisplay).map DisplayState.overlayEngaged).getD false

def foregroundSlot (s : Store) : Option (Pid × String) :=
  ((s.display primaryDisplay).bind DisplayState.foregroundSlot).map fun f => (f.pid, f.appId)

def rolePid (s : Store) (role : Role) : Option (Pid × String) :=
  ((s.display primaryDisplay).bind fun d => d.firstWithRole role).map fun f => (f.pid, f.appId)

def activeIme (s : Store) : Option (Pid × String) :=
  ((s.display primaryDisplay).bind DisplayState.activeImeSurface).map fun f => (f.pid, f.appId)

def imeEditor (s : Store) : Option (Pid × EditorInfo) :=
  (s.display primaryDisplay).bind DisplayState.imeEditor

/-! ## Role transitions -/

/-- Set the role of a surface, and have the mechanism applied. -/
def apply (c : Ctx) (pid : Pid) (role : Role) : Ctx :=
  (c.request (.setRole pid role)).modifyPrimary fun d => d.setRole pid role

/-- Place a surface in a role, creating it if needed. -/
def place (c : Ctx) (pid : Pid) (appId : String) (role : Role) : Ctx :=
  (c.request (.setRole pid role)).modifyPrimary fun d => d.putSurface pid appId role

/-! ## Orchestration -/

/-- Tear the overlay split down: the overlay goes to the background and the app
    behind it to the foreground. Returns both, if there was a split. -/
def demoteFromOverlay (c : Ctx) : Ctx × Option (Pid × Pid) :=
  match rolePid c.store .overlay with
  | none => (c, none)
  | some (overlayPid, _) =>
    let behindPid := (rolePid c.store .overlayBehind).map Prod.fst
    let c := apply c overlayPid .background
    let c := match behindPid with
      | some bp => apply c bp .foreground
      | none => c
    (c, some (overlayPid, behindPid.getD 0))

/-- Record an app as the one behind the overlay, without having it signalled. -/
def markBehind (c : Ctx) : Option Pid → Ctx
  | some pid => c.modifyPrimary fun d => d.setRole pid .overlayBehind
  | none => c

/-- Promote an overlay above the current foreground, which goes behind it; the
    hint stands in when no other app is in the foreground. Returns the app now
    behind. -/
def promoteToOverlay (c : Ctx) (overlayAppId : String) (overlayPid : Pid)
    (behindPidHint : Option Pid) : Ctx × Option Pid :=
  let (c, demoted) :=
    match rolePid c.store .foreground with
    | some (prevPid, _) =>
      if prevPid ≠ overlayPid then (apply c prevPid .overlayBehind, some prevPid)
      else (markBehind c behindPidHint, behindPidHint)
    | none => (markBehind c behindPidHint, behindPidHint)
  (place c overlayPid overlayAppId .overlay, demoted)

/-- Make the overlay agree with what the display wants. The input method is
    expected to have a surface when its overlay is wanted. -/
def reconcileOverlay (c : Ctx) : Ctx :=
  let visible := visibleApp c.store
  match overlayDesired c.store, overlayEngaged c.store with
  | some _, false =>
    match activeIme c.store with
    | some (imePid, imeApp) => (promoteToOverlay c imeApp imePid visible).1
    | none => c.panic
  | none, true => (demoteFromOverlay c).1
  | _, _ => c

/-- Clear the editor focus if `pid` holds it, and tell the input method. -/
def dropEditorFocusOf (c : Ctx) (pid : Pid) : Ctx :=
  if (imeEditor c.store).map Prod.fst ≠ some pid then c
  else
    let c := c.modifyPrimary fun d => { d with imeEditor := none }
    let c := match activeIme c.store with
      | some (imePid, _) => c.deliverToHost imePid .editorDetached
      | none => c
    c.emit (.editorFocusChanged pid false)

/-- Promote an app to the foreground, in place of the app there: tear down an
    overlay split, demote the app, and derive the overlay again. -/
def promoteToForeground (c : Ctx) (appId : String) (pid : Pid) : Ctx :=
  let c := if overlayEngaged c.store then (demoteFromOverlay c).1 else c
  let c := match rolePid c.store .foreground with
    | some (prevPid, _) =>
      if prevPid ≠ pid then dropEditorFocusOf (apply c prevPid .background) prevPid else c
    | none => c
  let c := place c pid appId .foreground
  let c := reconcileOverlay c
  c.emit (.foregroundChanged (some appId) (some pid))

/-- Prune the surface of a process that exited, after tearing down the overlay
    split it was a side of. -/
def onSurfaceRemoved (c : Ctx) (pid : Pid) : Ctx :=
  let c :=
    if overlayEngaged c.store ∧
        ((rolePid c.store .overlay).map Prod.fst = some pid ∨
          (rolePid c.store .overlayBehind).map Prod.fst = some pid) then
      (demoteFromOverlay c).1
    else c
  let c := match c.store.appByPid pid with
    | some app => c.modifyStore fun s => s.removeApp app.appId
    | none => c
  c.modifyPrimary fun d => d.removeSurface pid

/-! ## The readers, on the primary display -/

variable {s : Store}

@[simp]
theorem visibleApp_eq : visibleApp s = s.primary.visibleApp := Store.bind_display_visibleApp

@[simp]
theorem overlayDesired_eq : overlayDesired s = s.primary.overlayDesired := by
  unfold overlayDesired Store.primary
  cases s.display primaryDisplay <;> rfl

@[simp]
theorem overlayEngaged_eq : overlayEngaged s = s.primary.overlayEngaged := by
  unfold overlayEngaged Store.primary
  cases s.display primaryDisplay <;> rfl

@[simp]
theorem foregroundSlot_eq :
    foregroundSlot s = s.primary.foregroundSlot.map fun f => (f.pid, f.appId) := by
  unfold foregroundSlot
  rw [Store.bind_display_foregroundSlot]

@[simp]
theorem rolePid_eq {role : Role} :
    rolePid s role = (s.primary.firstWithRole role).map fun f => (f.pid, f.appId) := by
  unfold rolePid Store.primary
  cases s.display primaryDisplay <;> rfl

@[simp]
theorem activeIme_eq :
    activeIme s = s.primary.activeImeSurface.map fun f => (f.pid, f.appId) := by
  unfold activeIme Store.primary
  cases s.display primaryDisplay <;> rfl

@[simp]
theorem imeEditor_eq : imeEditor s = s.primary.imeEditor := by
  unfold imeEditor Store.primary
  cases s.display primaryDisplay <;> rfl

end Wandr.Shell
