import Wandr.Arbiter.Shell.Am
import Wandr.Arbiter.Shell.Ime

/-!
# The shell

The module of the activity and input-method managers. It keeps no state of its
own: everything it decides on is in the store.
-/

namespace Wandr.Shell

variable [Fpu]

/-- The verbs of the shell. -/
inductive Verb
  | foreground
  | registerChrome
  | kill
  | setIme
  | attachEditor
  | detachEditor
  | imeOverlayHeight
  | ime (route : ImeRoute)
  | back
  | cycleTask
  | overlay
  | overlayClear
  | list
  | taskList
  | taskKill
  deriving DecidableEq

/-- A verb on the wire. -/
def Verb.wire : Verb → String
  | .foreground => "foreground"
  | .registerChrome => "register-chrome"
  | .kill => "kill"
  | .setIme => "set-ime"
  | .attachEditor => "attach-editor"
  | .detachEditor => "detach-editor"
  | .imeOverlayHeight => "ime-overlay-height"
  | .ime route => "ime-" ++ route.wire
  | .back => "back"
  | .cycleTask => "cycle-task"
  | .overlay => "overlay"
  | .overlayClear => "overlay-clear"
  | .list => "list"
  | .taskList => "task-list"
  | .taskKill => "task-kill"

def onCommand (clock : Clock) (verb : Verb) (args : String) (c : Ctx) : Ctx × Reply :=
  match verb with
  | .foreground => cmdForeground c args
  | .registerChrome => cmdRegisterChrome clock c args
  | .kill => cmdKill c args
  | .back => cmdBack c
  | .cycleTask => cmdCycleTask c
  | .list => cmdList clock c
  | .taskList => cmdTaskList clock c
  | .taskKill => cmdTaskKill c args
  | .setIme => cmdSetIme c args
  | .attachEditor => cmdAttachEditor c args
  | .detachEditor => cmdDetachEditor c args
  | .imeOverlayHeight => cmdImeOverlayHeight c args
  | .ime route => cmdImeRoute c route args
  | .overlay => cmdOverlay c args
  | .overlayClear => cmdOverlayClear c

/-- A foreground change that bypassed the shell still takes the focus from an
    editor no longer visible, and the overlay is derived again. -/
def onForegroundChanged (c : Ctx) : Ctx :=
  let c := match imeEditor c.store with
    | some (editorPid, _) =>
      if visibleApp c.store ≠ some editorPid then dropEditorFocusOf c editorPid else c
    | none => c
  reconcileOverlay c

def onEvent (e : Event) (c : Ctx) : Ctx :=
  match e with
  | .surfaceRemoved pid => onSurfaceRemoved c pid
  | .foregroundChanged _ _ => onForegroundChanged c
  | _ => c

end Wandr.Shell
