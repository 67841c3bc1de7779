import Wandr.Arbiter.Vocabulary
import Wandr.Lib.Percent

/-!
# Notifications

The module of the active user notifications. Titles and bodies arrive
percent-encoded. A click clears the notification, brings its owner to the
foreground, launching it first if it is dead, and tells an owner that was alive
which of its notifications was clicked.
-/

namespace Wandr.Notify

open Text

def pctEncode (s : String) : String := Percent.encode s

def pctDecode (s : String) : String := Percent.decode s

/-- An owner on the wire: a bare integer is a process, resolved to its app-id,
    and anything else an app-id. -/
def resolveOwner (token : String) (c : Ctx) : Option String :=
  match parseSigned 32 token with
  | some pid => (c.store.appByPid pid).map AppState.appId
  | none => some token

def cmdPost (c : Ctx) (args : String) : Ctx × Reply :=
  match splitWhitespace args with
  | owner :: idTok :: encTitle :: encBody =>
    match resolveOwner owner c with
    | none => (c, .err s!"notify-post-unknown-owner {owner}")
    | some appId =>
      match parseUnsigned 64 idTok with
      | none => (c, .err s!"notify-post-bad-id {quote idTok}")
      | some id =>
        let title := pctDecode encTitle
        let body := (encBody.head?.map pctDecode).getD ""
        let (s, nid) := c.store.postNotification appId id title body
        ({ c with store := s }, .ok s!"notify app={appId} id={id} nid={nid}")
  | _ => (c, .err "notify-post-args: expected <owner> <id> <enc-title> [enc-body]")

def cmdCancel (c : Ctx) (args : String) : Ctx × Reply :=
  match splitWhitespace args with
  | [owner, idTok] =>
    match resolveOwner owner c with
    | none => (c, .err s!"notify-cancel-unknown-owner {owner}")
    | some appId =>
      match parseUnsigned 64 idTok with
      | none => (c, .err s!"notify-cancel-bad-id {quote idTok}")
      | some id =>
        let (s, removed) := c.store.cancelNotification appId id
        ({ c with store := s }, .ok s!"cancel app={appId} id={id} removed={removed}")
  | _ => (c, .err "notify-cancel-args: expected <owner> <id>")

def cmdList (c : Ctx) : Ctx × Reply :=
  let ns := c.store.notifications.rows
  let line (n : Notification) : String :=
    s!"\n  nid={n.nid} app={n.appId} id={n.appNotifId} title={pctEncode n.title}"
  (c, .ok (s!"count={ns.length}" ++ String.join (ns.map line)))

/-- The effects of a click on a notification of `n`'s owner. -/
def click (c : Ctx) (n : Notification) : Ctx :=
  match c.store.app n.appId with
  | some app =>
    (c.request (.foreground n.appId)).deliverToHost app.pid (.notificationClicked n.appNotifId)
  | none => (c.request (.launch n.appId .gui)).request (.foreground n.appId)

def cmdClick (c : Ctx) (args : String) : Ctx × Reply :=
  match parseUnsigned 64 (trim args) with
  | none => (c, .err s!"notify-click-bad-nid {quote args}")
  | some nid =>
    match c.store.takeNotification nid with
    | (_, none) => (c, .err s!"notify-click-unknown-nid {nid}")
    | (s, some n) =>
      (click { c with store := s } n, .ok s!"click nid={nid} app={n.appId} id={n.appNotifId}")

/-- The verbs of the module. -/
inductive Verb
  | post
  | cancel
  | list
  | click
  deriving DecidableEq

/-- A verb on the wire. -/
def Verb.wire : Verb → String
  | .post => "notify-post"
  | .cancel => "notify-cancel"
  | .list => "notify-list"
  | .click => "notify-click"

def onCommand (verb : Verb) (args : String) (c : Ctx) : Ctx × Reply :=
  match verb with
  | .post => cmdPost c args
  | .cancel => cmdCancel c args
  | .list => cmdList c
  | .click => cmdClick c args

end Wandr.Notify
