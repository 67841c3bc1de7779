import Mathlib.Data.List.Sort
import Wandr.Arbiter.Shell.Shared
import Wandr.Lib.Text

/-!
# The shell: apps and tasks

The commands of the activity manager: bring an app to the foreground, register a
chrome surface, kill an app, go back, cycle through the tasks, and list them.

Killing an app prunes the registry and the display at once, before the exit of
the process is noticed; the other modules hear of it only from that exit.
-/

namespace Wandr.Shell

open Text

variable [Fpu]

/-- Apps in the order of their app-ids. -/
def sortByAppId (apps : List AppState) : List AppState :=
  apps.insertionSort fun a b => a.appId ≤ b.appId

def cmdForeground (c : Ctx) (appId : String) : Ctx × Reply :=
  if appId = "" then (c, .err "foreground-empty-app-id")
  else match c.store.app appId with
    | none => (c, .err s!"not-tracked {appId}")
    | some s =>
      let prev := ((foregroundSlot c.store).map Prod.snd).getD "(none)"
      let c := promoteToForeground c s.appId s.pid
      (c, .ok s!"fg={appId} prev={prev} pid={s.pid}")

/-- A chrome overlay registers itself; the reply carries the height of its strip. -/
def cmdRegisterChrome (clock : Clock) (c : Ctx) (rest : String) : Ctx × Reply :=
  match splitWhitespace rest with
  | appId :: pidS :: parts =>
    match parseSigned 32 pidS with
    | none => (c, .err s!"register-chrome-bad-pid {pidS}")
    | some pid =>
      let anchor := parts.head?.getD ""
      let c := c.modifyStore fun s => s.insertApp
        { appId, pid, launchedAt := clock.unix, launchedMono := clock.mono }
      let c := c.modifyPrimary fun d => d.putSurface pid appId .chrome
      let (dp, chromeAnchor) : Nat × Option ChromeAnchor :=
        match anchor with
        | "top" => (statusBarDp, some .top)
        | "bottom-bar" => (taskbarDp, some .bottom)
        | _ => (0, none)
      let c := match chromeAnchor with
        | some a => c.modifyPrimary fun d => d.setChromeAnchor pid a
        | none => c
      let height := ((c.store.geometry primaryDisplay).map fun g => g.dpToPx dp).getD 0
      (c, .ok s!"chrome {appId} pid={pid} height={height}")
  | _ => (c, .err "register-chrome-args: expected <app-id> <pid> <anchor>")

omit [Fpu] in
/-- What `kill` and `task-kill` do to the app they settled on. -/
def killApp (c : Ctx) (appId : String) (s : AppState) : Ctx × Reply :=
  let c := c.request (.kill s.pid)
  let c := c.modifyStore fun st => st.removeApp appId
  let c := c.modifyPrimary fun d => d.removeSurface s.pid
  (c, .ok s!"killed app={appId} pid={s.pid}")

def cmdKill (c : Ctx) (appId : String) : Ctx × Reply :=
  if appId = "" then (c, .err "kill-empty-app-id")
  else match c.store.app appId with
    | none => (c, .err s!"not-tracked {appId}")
    | some s => killApp c appId s

/-- Go back: dismiss the input method when its overlay is up, else hand the key
    to the foreground app. -/
def cmdBack (c : Ctx) : Ctx × Reply :=
  if overlayEngaged c.store then
    let c := match imeEditor c.store with
      | some (editorPid, _) => dropEditorFocusOf c editorPid
      | none => c
    (reconcileOverlay c, .ok "back → ime dismissed")
  else match foregroundSlot c.store with
    | none => (c, .ok "back noop (no foreground app)")
    | some (fgPid, _) =>
      let c := c.deliverToHost fgPid (.keyEvent "0" "27" "down")
      let c := c.deliverToHost fgPid (.keyEvent "0" "27" "up")
      (c, .ok s!"back → pid={fgPid} (esc)")

/-- The apps the user can switch between. -/
def switchable (s : Store) : List AppState :=
  sortByAppId (s.appsSnapshot.filter fun a => !chromeAppIds.contains a.appId)

/-- The app after the visible one, in the order of the app-ids and around. -/
def nextTask (s : Store) : Option AppState :=
  let apps := switchable s
  let idx := match (visibleApp s).bind fun p => apps.findIdx? fun a => a.pid = p with
    | some i => (i + 1) % apps.length
    | none => 0
  apps[idx]?

def cmdCycleTask (c : Ctx) : Ctx × Reply :=
  let apps := switchable c.store
  if apps.length < 2 then (c, .ok s!"cycle-task noop ({apps.length} switchable app(s))")
  else match nextTask c.store with
    | none => (c.panic, .err "")
    | some next =>
      (promoteToForeground c next.appId next.pid, .ok s!"cycle-task → {next.appId} pid={next.pid}")

/-- The state of an app as a guest sees it. -/
def roleToState : Role → String
  | .foreground | .overlayBehind => "foreground"
  | .overlay | .chrome | .lockscreen => "overlay"
  | .headless => "headless"
  | .background => "background"

def cmdTaskList (clock : Clock) (c : Ctx) : Ctx × Reply :=
  let apps := sortByAppId c.store.appsSnapshot
  let line (app : AppState) : String :=
    let uptimeMs := asMillis (clock.elapsed app.launchedMono)
    let state := (((c.store.display primaryDisplay).bind fun d => d.roleOf app.pid).map
      roleToState).getD "background"
    s!"\napp={app.appId} pid={app.pid} state={state} uptime_ms={uptimeMs}"
  (c, .ok (s!"count={apps.length}" ++ String.join (apps.map line)))

/-- Kill an app on behalf of the task manager, which may not kill the surfaces
    the system would relaunch. -/
def cmdTaskKill (c : Ctx) (appId : String) : Ctx × Reply :=
  if appId = "" then (c, .err "not-found")
  else match c.store.app appId with
    | none => (c, .err "not-found")
    | some s =>
      if chromeAppIds.contains appId ∨ c.store.home = some appId then (c, .err "protected")
      else killApp c appId s

def cmdList (clock : Clock) (c : Ctx) : Ctx × Reply :=
  let apps := sortByAppId c.store.appsSnapshot
  let fg := (foregroundSlot c.store).map Prod.snd
  let ime := (activeIme c.store).map Prod.snd
  let focus := imeEditor c.store
  let line (app : AppState) : String :=
    let elapsedMs := asMillis (clock.elapsed app.launchedMono)
    let fgMark := if fg = some app.appId then " [fg]" else ""
    let imeMark := if ime = some app.appId then " [ime]" else ""
    let editorMark := match focus with
      | some (pid, info) => if pid = app.pid then s!" [editor:{info.inputType}]" else ""
      | none => ""
    s!"\n  app={app.appId} pid={app.pid} elapsed_ms={elapsedMs}{fgMark}{imeMark}{editorMark}"
  (c, .ok (s!"count={apps.length}" ++ String.join (apps.map line)))

end Wandr.Shell
