import Wandr.Arbiter.Vocabulary
import Wandr.Lib.Text

/-!
# The keyguard

The module of the lock screen and of the power menu, two modal overlays of one
mechanism: the visible app is demoted to the background and its touch
suppressed, and the surface of the overlay takes the role of a lock screen. The
power menu opened over the lock screen demotes the surface of the keyguard as
well, to take its place, and restores it when dismissed.

The lock state is the module's own; no other module reads it.
-/

namespace Wandr

open Text

/-- The app-id of the keyguard guest. -/
def keyguardAppId : String := "wandr.keyguard"

/-- The app-id of the power-menu guest. -/
def powermenuAppId : String := "wandr.powermenu"

structure KeyguardModule where
  locked : Bool := false
  savedFg : Option String := none
  suppressedPid : Option Pid := none
  menuShown : Bool := false
  menuSavedFg : Option String := none
  menuSuppressedPid : Option Pid := none
  menuCoveredKeyguard : Bool := false

namespace KeyguardModule

def keyguardPid (s : Store) : Option Pid := (s.app keyguardAppId).map AppState.pid

def powermenuPid (s : Store) : Option Pid := (s.app powermenuAppId).map AppState.pid

/-- Set the role of a surface, and have the mechanism applied. -/
def setRole (c : Ctx) (pid : Pid) (role : Role) : Ctx :=
  (c.request (.setRole pid role)).modifyPrimary fun d => d.setRole pid role

/-- Show the surface of an overlay as a lock screen. -/
def showLockscreen (c : Ctx) (pid : Pid) (appId : String) : Ctx :=
  (c.request (.setRole pid .lockscreen)).modifyPrimary fun d => d.putSurface pid appId .lockscreen

/-- Demote the surface of a guest, if the guest is running. -/
def lower (c : Ctx) : Option Pid → Ctx
  | some pid => setRole c pid .background
  | none => c

/-- Lift the suppression of the touch of an app, if one was suppressed. -/
def unsuppress (c : Ctx) : Option Pid → Ctx
  | some pid => c.deliverToHost pid (.inputSuppress false)
  | none => c

/-- Bring the app that was covered back to the foreground, if there was one. -/
def refocus (c : Ctx) : Option String → Ctx
  | some appId => c.request (.foreground appId)
  | none => c

def visibleApp (s : Store) : Option Pid := (s.display primaryDisplay).bind DisplayState.visibleApp

/-- Demote the visible app and suppress its touch. -/
def coverVisible (c : Ctx) : Ctx :=
  match visibleApp c.store with
  | some pid => (setRole c pid .background).deliverToHost pid (.inputSuppress true)
  | none => c

/-- Have the orientation pushed again. -/
def refanOrientation (c : Ctx) : Ctx :=
  let orient := ((c.store.geometry primaryDisplay).map DisplayGeometry.orientation).getD 0
  c.emit (.orientationChanged primaryDisplay orient)

def doLock (m : KeyguardModule) (c : Ctx) : KeyguardModule × Ctx × Reply :=
  if m.locked then (m, c, .ok "already-locked")
  else match keyguardPid c.store with
    | none => (m, c, .err "keyguard-not-running (launch wandr.keyguard first)")
    | some kg =>
      let vis := visibleApp c.store
      let savedFg := vis.bind fun pid => (c.store.appByPid pid).map AppState.appId
      let m := { m with savedFg, suppressedPid := vis.or m.suppressedPid, locked := true }
      let c := coverVisible c
      let c := showLockscreen c kg keyguardAppId
      let c := c.emit (.foregroundChanged (some keyguardAppId) (some kg))
      (m, refanOrientation c, .ok s!"locked covering={quoteOption savedFg}")

def doShowMenu (m : KeyguardModule) (c : Ctx) : KeyguardModule × Ctx × Reply :=
  if m.menuShown then (m, c, .ok "power-menu-already-shown")
  else match powermenuPid c.store with
    | none => (m, c, .err "powermenu-not-running (launch wandr.powermenu first)")
    | some pm =>
      let vis := visibleApp c.store
      let menuSavedFg := vis.bind fun pid => (c.store.appByPid pid).map AppState.appId
      let m := { m with
        menuSavedFg
        menuSuppressedPid := vis.or m.menuSuppressedPid
        menuShown := true }
      let c := coverVisible c
      -- over the lock screen the surface of the keyguard gives way to the menu
      let (m, c) :=
        match if m.locked then keyguardPid c.store else none with
        | some kg => ({ m with menuCoveredKeyguard := true }, setRole c kg .background)
        | none => (m, c)
      let c := showLockscreen c pm powermenuAppId
      let c := c.emit (.foregroundChanged (some powermenuAppId) (some pm))
      (m, refanOrientation c, .ok "power-menu shown")

/-- What dismissing the menu restores. -/
def restoreFromMenu (m : KeyguardModule) (c : Ctx) : KeyguardModule × Ctx :=
  let c := unsuppress c m.menuSuppressedPid
  let c :=
    match if m.menuCoveredKeyguard then keyguardPid c.store else none with
    | some kg => showLockscreen c kg keyguardAppId
    | none => c
  let c := refocus c m.menuSavedFg
  ({ m with
      menuSuppressedPid := none
      menuCoveredKeyguard := false
      menuSavedFg := none
      menuShown := false }, refanOrientation c)

def doHideMenu (m : KeyguardModule) (c : Ctx) : KeyguardModule × Ctx × Reply :=
  let c := lower c (powermenuPid c.store)
  let (m, c) := if m.menuShown then m.restoreFromMenu c else (m, c)
  (m, c, .ok "power-menu hidden")

def doUnlock (m : KeyguardModule) (c : Ctx) : KeyguardModule × Ctx × Reply :=
  if !m.locked then (m, c, .ok "already-unlocked")
  else
    let c := lower c (keyguardPid c.store)
    let c := unsuppress c m.suppressedPid
    let c := refocus c m.savedFg
    ({ m with suppressedPid := none, savedFg := none, locked := false }, refanOrientation c,
      .ok "unlocked")

/-- Forget an app to restore when its process exited. -/
def onSurfaceRemoved (m : KeyguardModule) (pid : Pid) (c : Ctx) : KeyguardModule × Ctx :=
  let gone := (c.store.appByPid pid).map AppState.appId
  ({ m with
      savedFg := if gone = m.savedFg then none else m.savedFg
      menuSavedFg := if gone = m.menuSavedFg then none else m.menuSavedFg }, c)

/-- The verbs of the module. -/
inductive Verb
  | lock
  | unlock
  | powerMenu
  | pmDismiss
  deriving DecidableEq

/-- A verb on the wire. -/
def Verb.wire : Verb → String
  | .lock => "lock"
  | .unlock => "unlock"
  | .powerMenu => "power-menu"
  | .pmDismiss => "pm-dismiss"

def onCommand (m : KeyguardModule) (verb : Verb) (c : Ctx) : KeyguardModule × Ctx × Reply :=
  match verb with
  | .lock => m.doLock c
  | .unlock => m.doUnlock c
  | .powerMenu => m.doShowMenu c
  | .pmDismiss => m.doHideMenu c

/-- The screen going off locks the device. -/
def onEvent (m : KeyguardModule) (e : Event) (c : Ctx) : KeyguardModule × Ctx :=
  match e with
  | .screenState false =>
    let (m, c, _) := m.doLock c
    (m, c)
  | .surfaceRemoved pid => m.onSurfaceRemoved pid c
  | _ => (m, c)

end KeyguardModule

end Wandr
