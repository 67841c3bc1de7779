import Wandr.Arbiter.Shell.Shared
import Wandr.Lib.Text

/-!
# The shell: input methods

The commands of the input-method manager: designate the active input method,
attach and detach an editor, route input to the focused editor, and engage or
clear the overlay split by hand.

Attaching and detaching an editor reconcile the overlay; designating another
input method does not.
-/

namespace Wandr.Shell

open Text

/-- A field of the wire: spaces become underscores, and an empty field a dash. -/
def escapeUnderscores (s : String) : String := if s = "" then "-" else replaceChar s ' ' '_'

def cmdSetIme (c : Ctx) (appId : String) : Ctx × Reply :=
  if appId = "" then (c, .err "set-ime-empty-app-id")
  else
    let prevId := ((activeIme c.store).map Prod.snd).getD "(none)"
    if appId = "-" then
      (c.modifyPrimary fun d => { d with activeIme := none }, .ok s!"cleared prev={prevId}")
    else match c.store.app appId with
      | none => (c, .err s!"not-running {appId} (launch first)")
      | some s =>
        (c.modifyPrimary fun d => { d with activeIme := some s.pid },
          .ok s!"ime={appId} pid={s.pid} prev={prevId}")

def cmdImeOverlayHeight (c : Ctx) (rest : String) : Ctx × Reply :=
  match parseUnsigned 32 (trim rest) with
  | none => (c, .err s!"ime-overlay-height-bad-px {quote rest}")
  | some px =>
    let c := c.modifyStore fun s => { s with imeHeight := px }
    (c.emit (.imeHeightChanged primaryDisplay px), .ok s!"ime-overlay-height {px}")

/-- What `attach-editor` does to an editor it could resolve. -/
def attachEditor (c : Ctx) (pid : Pid) (owner : AppState) (inputType hint initialText : String) :
    Ctx × Reply :=
  let prevPid := ((imeEditor c.store).map fun e => toString e.1).getD "-"
  let c := c.modifyPrimary fun d =>
    { d with imeEditor := some (pid, ⟨inputType, hint, initialText, 0, 0⟩) }
  let ime := activeIme c.store
  let imeDest := (ime.map fun i => s!"{i.2} (pid={i.1})").getD "(no active IME — set-ime first)"
  let c := reconcileOverlay c
  let autoOverlay := overlayEngaged c.store && visibleApp c.store = some pid
  let c := match ime with
    | some (imePid, _) => c.deliverToHost imePid
        (.editorAttached inputType (escapeUnderscores hint) (escapeUnderscores initialText))
    | none => c
  -- the keyboard occludes the editor only when it belongs to another process
  let c := match ime with
    | some (imePid, _) =>
      if imePid ≠ pid then
        (c.emit (.imeHeightChanged primaryDisplay c.store.imeHeight)).emit
          (.editorFocusChanged pid true)
      else c
    | none => c
  let overlay := if autoOverlay then "engaged" else "skipped"
  (c, .ok (s!"attached editor pid={pid} app={owner.appId} input-type={inputType} " ++
    s!"prev-pid={prevPid} route→{imeDest} " ++
    s!"overlay={overlay} routed={ime.isSome}"))

def cmdAttachEditor (c : Ctx) (rest : String) : Ctx × Reply :=
  match splitn 4 ' ' rest with
  | [] => (c, .err "attach-editor-missing-pid")
  | pidS :: parts =>
    match parseSigned 32 pidS with
    | none => (c, .err s!"attach-editor-bad-pid {pidS}")
    | some pid =>
      match c.store.appByPid pid with
      | none => (c, .err s!"attach-editor-unknown-pid {pid}")
      | some owner =>
        attachEditor c pid owner (parts[0]?.getD "text") (parts[1]?.getD "") (parts[2]?.getD "")

/-- What `detach-editor` does to the focused editor. -/
def detachEditor (c : Ctx) (pid : Pid) : Ctx × Reply :=
  let c := c.modifyPrimary fun d => { d with imeEditor := none }
  let ime := activeIme c.store
  let imeDest := (ime.map fun i => s!"{i.2} (pid={i.1})").getD "(no active IME)"
  let wasEngaged := overlayEngaged c.store && visibleApp c.store = some pid
  let c := reconcileOverlay c
  let cleared := wasEngaged && !overlayEngaged c.store
  let c := match ime with
    | some (imePid, _) => c.deliverToHost imePid .editorDetached
    | none => c
  let overlay := if cleared then "cleared" else "skipped"
  (c.emit (.editorFocusChanged pid false),
    .ok (s!"detached pid={pid} route→{imeDest} " ++
      s!"overlay={overlay} routed={ime.isSome}"))

def cmdDetachEditor (c : Ctx) (rest : String) : Ctx × Reply :=
  let pidS := trim rest
  if pidS = "" then (c, .err "detach-editor-missing-pid")
  else match parseSigned 32 pidS with
    | none => (c, .err s!"detach-editor-bad-pid {pidS}")
    | some pid =>
      if (imeEditor c.store).map Prod.fst ≠ some pid then
        (c, .ok s!"no-op pid={pid} (not focused)")
      else detachEditor c pid

/-- The input routed to the focused editor. -/
inductive ImeRoute
  | commitText
  | sendKeyEvent
  | setComposingText
  | finishComposingText
  | setSelection
  deriving DecidableEq

/-- The name of a route. -/
def ImeRoute.wire : ImeRoute → String
  | .commitText => "commit-text"
  | .sendKeyEvent => "send-key-event"
  | .setComposingText => "set-composing-text"
  | .finishComposingText => "finish-composing-text"
  | .setSelection => "set-selection"

/-- Route input to the focused editor; only key events reach it so far. -/
def cmdImeRoute (c : Ctx) (route : ImeRoute) (rest : String) : Ctx × Reply :=
  match imeEditor c.store with
  | none => (c, .err "no-focused-editor")
  | some (focusPid, focusInfo) =>
    if route = .sendKeyEvent then
      match splitWhitespace rest with
      | [codePoint, keyId, edge] =>
        (c.deliverToHost focusPid (.keyEvent codePoint keyId edge),
          .ok s!"route→pid={focusPid} (key-event {codePoint} {keyId} {edge})")
      | _ => (c, .err "send-key-event-bad-args: expected <code-point> <key-id> <down|up>")
    else
      (c, .ok (s!"route→pid={focusPid} (input-type={focusInfo.inputType}) {route.wire} " ++
        s!"args={quote rest} [step 3b — log only]"))

def cmdOverlay (c : Ctx) (appId : String) : Ctx × Reply :=
  if appId = "" then (c, .err "overlay-empty-app-id")
  else match c.store.app appId with
    | none => (c, .err s!"overlay-not-tracked {appId}")
    | some ime =>
      let prevFg := foregroundSlot c.store
      let (c, demoted) := promoteToOverlay c ime.appId ime.pid (prevFg.map Prod.fst)
      let prev := (prevFg.map Prod.snd).getD "(none)"
      let behind := (demoted.map toString).getD "-"
      (c, .ok s!"overlay={appId} pid={ime.pid} prev-fg={prev} behind-pid={behind}")

def cmdOverlayClear (c : Ctx) : Ctx × Reply :=
  match demoteFromOverlay c with
  | (c, some (imePid, behindPid)) =>
    (c, .ok s!"overlay-cleared ime-pid={imePid} repromoted-behind-pid={behindPid}")
  | (c, none) => (c, .ok "overlay-was-not-active")

end Wandr.Shell
