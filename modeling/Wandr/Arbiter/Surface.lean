import Mathlib.Tactic.Common
import Wandr.Lib.Fpu
import Wandr.Lib.Table

/-!
# Surfaces and roles

The state of one display: its geometry policy, the surfaces shown on it, each
with a role, the focused editor and the active input method. What the user is
looking at (`visibleApp`) and whether the keyboard should be up
(`overlayDesired`) are derived from it.

Surfaces are keyed by process, so a display is for most purposes the function
`roleOf` from processes to roles: `roleOf_putSurface`, `roleOf_setRole` and
`roleOf_removeSurface` say how the operations change it, and
`firstWithRole_eq_none_iff` and `roleOf_of_firstWithRole` read the searches by
role off it. That at most one surface has each of the roles of a visible app is
not part of the structure: the operations do not enforce it.
-/

namespace Wandr

/-- A process, as the operating system numbers it. -/
abbrev Pid := Int

/-- A physical display. -/
abbrev DisplayId := Nat

/-- The primary, and currently only, display. -/
def primaryDisplay : DisplayId := 0

/-- The orientation that leaves the rotation to the host. -/
def orientHostOwned : Nat := 255

/-- The inset that leaves the chrome heights to the host. -/
def insetHostOwned : Nat := 0xFFFF

/-- The height of the status bar, in density-independent pixels. -/
def statusBarDp : Nat := 38

/-- The height of the taskbar, in density-independent pixels. -/
def taskbarDp : Nat := 43

/-- The geometry policy of a display. -/
structure DisplayGeometry where
  panelW : Nat := 0
  panelH : Nat := 0
  density : F32 := F32.zero
  orientation : Nat := orientHostOwned
  insetTop : Nat := 0
  insetBottom : Nat := 0
  keyboardPx : Nat := 0
  orientationLocked : Bool := false
  immersive : Bool := false

namespace DisplayGeometry

variable [Fpu]

/-- The host has reported the density of the panel. -/
def densityKnown (g : DisplayGeometry) : Bool := Fpu.lt F32.zero g.density

/-- Density-independent pixels as pixels of the panel; `0` while the density is
    unknown. -/
def dpToPx (g : DisplayGeometry) (dp : Nat) : Nat :=
  if !g.densityKnown then 0 else Fpu.toU32 (Fpu.round (Fpu.mul (Fpu.ofNat dp) g.density))

/-- The heights of the status bar and of the taskbar, in pixels. -/
def chromeInsets (g : DisplayGeometry) : Nat × Nat := (g.dpToPx statusBarDp, g.dpToPx taskbarDp)

end DisplayGeometry

/-- What a surface is for right now. -/
inductive Role
  | foreground
  | overlayBehind
  | overlay
  | background
  | chrome
  | headless
  | lockscreen
  deriving DecidableEq

/-- The edge of the screen a chrome surface is anchored to. -/
inductive ChromeAnchor
  | top
  | bottom
  deriving DecidableEq

/-- One process shown on a display. -/
structure Surface where
  pid : Pid
  appId : String
  role : Role
  anchor : Option ChromeAnchor
  deriving DecidableEq

/-- What an editor tells the input method about itself. -/
structure EditorInfo where
  inputType : String
  hint : String
  initialText : String
  initialSelectionStart : Nat
  initialSelectionEnd : Nat
  deriving DecidableEq

/-- The state of one display. The focusable resources are one kind so far, the
    focused editor, with at most one holder. -/
structure DisplayState where
  geometry : DisplayGeometry := {}
  surfaces : Table Surface.pid := .empty
  imeEditor : Option (Pid × EditorInfo) := none
  activeIme : Option Pid := none

namespace DisplayState

/-! ## The surface stack -/

/-- Insert or update the surface of a process; its anchor is kept. -/
def putSurface (d : DisplayState) (pid : Pid) (appId : String) (role : Role) : DisplayState :=
  match d.surfaces.get? pid with
  | some s => { d with surfaces := d.surfaces.put { s with pid, appId, role } }
  | none => { d with surfaces := d.surfaces.put { pid, appId, role, anchor := none } }

/-- Record the edge a chrome surface is anchored to. -/
def setChromeAnchor (d : DisplayState) (pid : Pid) (anchor : ChromeAnchor) : DisplayState :=
  { d with surfaces :=
      d.surfaces.modify pid (fun s => { s with anchor := some anchor }) fun _ => rfl }

/-- Set the role of a surface, if it is present. -/
def setRole (d : DisplayState) (pid : Pid) (role : Role) : DisplayState :=
  { d with surfaces := d.surfaces.modify pid (fun s => { s with role }) fun _ => rfl }

/-- Remove a surface, with the editor focus and the input method it held. -/
def removeSurface (d : DisplayState) (pid : Pid) : DisplayState :=
  { d with
    surfaces := d.surfaces.erase pid
    activeIme := if d.activeIme = some pid then none else d.activeIme
    imeEditor := if d.imeEditor.map Prod.fst = some pid then none else d.imeEditor }

/-- Drop every surface, the editor focus and the input method. -/
def clear (d : DisplayState) : DisplayState :=
  { d with surfaces := .empty, imeEditor := none, activeIme := none }

/-- The surface of a process. -/
def surface (d : DisplayState) (pid : Pid) : Option Surface := d.surfaces.get? pid

/-- The role of a process on the display. -/
def roleOf (d : DisplayState) (pid : Pid) : Option Role := (d.surfaces.get? pid).map Surface.role

/-- The first surface in a role. -/
def firstWithRole (d : DisplayState) (role : Role) : Option Surface :=
  d.surfaces.rows.find? (fun s => s.role = role)

/-! ## Derivations -/

/-- The process the user is looking at: the app behind an overlay, else the
    foreground app. -/
def visibleApp (d : DisplayState) : Option Pid :=
  ((d.firstWithRole .overlayBehind).or (d.firstWithRole .foreground)).map Surface.pid

/-- The input method to show, if it should be: there is one, an editor is
    focused, the editor is the visible app, and the input method is another
    process. -/
def overlayDesired (d : DisplayState) : Option Pid :=
  match d.activeIme, d.imeEditor, d.visibleApp with
  | some ime, some (editor, _), some vis => if editor = vis ∧ ime ≠ vis then some ime else none
  | _, _, _ => none

/-- The overlay when there is one, else the foreground surface. -/
def foregroundSlot (d : DisplayState) : Option Surface :=
  (d.firstWithRole .overlay).or (d.firstWithRole .foreground)

/-- An overlay is engaged. -/
def overlayEngaged (d : DisplayState) : Bool := (d.firstWithRole .overlay).isSome

/-- The surface of the active input method. -/
def activeImeSurface (d : DisplayState) : Option Surface := d.activeIme.bind d.surface

/-! ## The operations, as functions from processes to roles -/

variable {d : DisplayState} {p q : Pid} {a : String} {r r' : Role}

theorem roleOf_putSurface :
    (d.putSurface p a r).roleOf q = if q = p then some r else d.roleOf q := by
  unfold putSurface roleOf
  split <;> rw [Table.get?_put] <;> split <;> simp_all

theorem roleOf_setRole :
    (d.setRole p r).roleOf q = if q = p then (d.roleOf q).map (fun _ => r) else d.roleOf q := by
  unfold setRole roleOf
  rw [Table.get?_modify]
  split
  · cases d.surfaces.get? q <;> rfl
  · rfl

theorem isSome_roleOf_setRole : ((d.setRole p r).roleOf q).isSome = (d.roleOf q).isSome := by
  rw [roleOf_setRole]
  split <;> simp

theorem roleOf_removeSurface :
    (d.removeSurface p).roleOf q = if q = p then none else d.roleOf q := by
  unfold removeSurface roleOf
  rw [Table.get?_erase]
  split <;> rfl

theorem isSome_roleOf_removeSurface (h : ((d.removeSurface p).roleOf q).isSome) :
    (d.roleOf q).isSome := by
  rw [roleOf_removeSurface] at h
  split at h
  · cases h
  · exact h

@[simp]
theorem roleOf_setChromeAnchor {e : ChromeAnchor} :
    (d.setChromeAnchor p e).roleOf q = d.roleOf q := by
  unfold setChromeAnchor roleOf
  rw [Table.get?_modify]
  split
  · cases d.surfaces.get? q <;> rfl
  · rfl

theorem roleOf_of_mem {s : Surface} (h : s ∈ d.surfaces.rows) : d.roleOf s.pid = some s.role := by
  rw [roleOf, Table.get?_of_mem h, Option.map_some]

theorem exists_of_roleOf (h : d.roleOf p = some r) :
    ∃ s ∈ d.surfaces.rows, s.pid = p ∧ s.role = r := by
  obtain ⟨s, hs, rfl⟩ := Option.map_eq_some_iff.mp h
  exact ⟨s, Table.mem_of_get? hs, Table.key_of_get? hs, rfl⟩

theorem roleOf_of_firstWithRole {s : Surface} (h : d.firstWithRole r = some s) :
    d.roleOf s.pid = some r := by
  rw [roleOf_of_mem (List.mem_of_find?_eq_some h)]
  simpa using List.find?_some h

theorem firstWithRole_eq_none_iff : d.firstWithRole r = none ↔ ∀ p, d.roleOf p ≠ some r := by
  unfold firstWithRole
  rw [List.find?_eq_none]
  constructor
  · intro h p hp
    obtain ⟨s, hs, -, hr⟩ := exists_of_roleOf hp
    exact h s hs (by simpa using hr)
  · intro h s hs hr
    have hr : s.role = r := by simpa using hr
    exact h s.pid (hr ▸ roleOf_of_mem hs)

theorem firstWithRole_isSome_iff :
    (d.firstWithRole r).isSome ↔ ∃ p, d.roleOf p = some r := by
  rw [← not_iff_not, Bool.not_eq_true, Option.isSome_eq_false_iff, Option.isNone_iff_eq_none,
    firstWithRole_eq_none_iff]
  push Not
  rfl

theorem visibleApp_eq_none_iff :
    d.visibleApp = none ↔ ∀ p, d.roleOf p ≠ some .overlayBehind ∧
      d.roleOf p ≠ some .foreground := by
  unfold visibleApp
  rw [Option.map_eq_none_iff, forall_and, ← firstWithRole_eq_none_iff, ← firstWithRole_eq_none_iff]
  cases d.firstWithRole .overlayBehind <;> simp

/-- The visible app is behind the overlay or in the foreground. -/
theorem roleOf_visibleApp (h : d.visibleApp = some p) :
    d.roleOf p = some .overlayBehind ∨
      (d.roleOf p = some .foreground ∧ ∀ q, d.roleOf q ≠ some .overlayBehind) := by
  unfold visibleApp at h
  cases hb : d.firstWithRole .overlayBehind with
  | some s =>
    simp only [hb, Option.some_or, Option.map_some, Option.some.injEq] at h
    exact .inl (h ▸ roleOf_of_firstWithRole hb)
  | none =>
    rw [hb, Option.none_or] at h
    obtain ⟨s, hs, rfl⟩ := Option.map_eq_some_iff.mp h
    exact .inr ⟨roleOf_of_firstWithRole hs, firstWithRole_eq_none_iff.mp hb⟩

/-! ## What the operations leave alone -/

@[simp] theorem geometry_putSurface : (d.putSurface p a r).geometry = d.geometry := by
  unfold putSurface; split <;> rfl
@[simp] theorem imeEditor_putSurface : (d.putSurface p a r).imeEditor = d.imeEditor := by
  unfold putSurface; split <;> rfl
@[simp] theorem activeIme_putSurface : (d.putSurface p a r).activeIme = d.activeIme := by
  unfold putSurface; split <;> rfl
@[simp] theorem geometry_setRole : (d.setRole p r).geometry = d.geometry := rfl
@[simp] theorem imeEditor_setRole : (d.setRole p r).imeEditor = d.imeEditor := rfl
@[simp] theorem activeIme_setRole : (d.setRole p r).activeIme = d.activeIme := rfl

end DisplayState

end Wandr
