import Wandr.Arbiter.Vocabulary
import Wandr.Lib.Text

/-!
# Alarms

The module of timed wakes. A tick fires every due alarm: one whose owner is
running is delivered and then rescheduled or dropped; one whose owner is dead is
kept due and marked, and its owner relaunched once.
-/

namespace Wandr.AlarmManager

open Text

/-- An owner on the wire: a bare integer is a process, resolved to its app-id,
    and anything else an app-id. -/
def resolveOwner (c : Ctx) (token : String) : Except Pid String :=
  match parseSigned 32 token with
  | some pid =>
    match c.store.appByPid pid with
    | some app => .ok app.appId
    | none => .error pid
  | none => .ok token

def cmdSchedule (c : Ctx) (args : String) : Ctx × Reply :=
  match splitWhitespace args with
  | owner :: idTok :: whenTok :: repeatTok :: kindTok =>
    match resolveOwner c owner with
    | .error pid => (c, .err s!"schedule-alarm-unknown-pid {pid}")
    | .ok appId =>
      match parseUnsigned 64 idTok, parseUnsigned 64 whenTok, parseUnsigned 64 repeatTok with
      | some alarmId, some whenMs, some repeatMs =>
        let wakeKind := (kindTok.head?.map LaunchKind.fromWire).getD .headless
        (c.modifyStore fun s => s.upsertAlarm
            { appId, alarmId, nextFireMs := whenMs, repeatMs, wakeKind, pendingDeliver := false },
          .ok s!"alarm app={appId} id={alarmId} when={whenMs} repeat={repeatMs}ms")
      | _, _, _ => (c, .err s!"schedule-alarm-bad-args {quote args}")
  | _ => (c, .err ("schedule-alarm-args: expected <owner-pid-or-app-id> <id> <when-unix-ms> " ++
      "<repeat-ms> [kind]"))

def cmdCancel (c : Ctx) (args : String) : Ctx × Reply :=
  match splitWhitespace args with
  | [owner, idTok] =>
    match parseUnsigned 64 idTok with
    | none => (c, .err s!"cancel-alarm-bad-id {quote idTok}")
    | some alarmId =>
      match resolveOwner c owner with
      | .error pid => (c, .err s!"cancel-alarm-unknown-pid {pid}")
      | .ok appId =>
        let (s, removed) := c.store.cancelAlarm appId alarmId
        ({ c with store := s }, .ok s!"cancel app={appId} id={alarmId} removed={removed}")
  | _ => (c, .err "cancel-alarm-args: expected <owner-pid-or-app-id> <id>")

/-- The due alarms whose owner is running. -/
def delivered (s : Store) (nowMs : Nat) : List Alarm :=
  s.alarms.rows.filter fun a => a.nextFireMs ≤ nowMs ∧ (s.app a.appId).isSome

/-- The due alarms whose owner is dead. -/
def orphaned (s : Store) (nowMs : Nat) : List Alarm :=
  s.alarms.rows.filter fun a => a.nextFireMs ≤ nowMs ∧ (s.app a.appId).isNone

/-- An alarm after its delivery; the sum is a 64-bit one. -/
def rescheduled (nowMs : Nat) (a : Alarm) : Alarm :=
  { a with nextFireMs := (nowMs + a.repeatMs) % 2 ^ 64, pendingDeliver := false }

def onTick (nowMs : Nat) (c : Ctx) : Ctx :=
  let delivers := delivered c.store nowMs
  let dead := orphaned c.store nowMs
  let deliveries := delivers.filterMap fun a =>
    (c.store.app a.appId).map fun app => (app.pid, a.alarmId)
  let launches := dead.filter fun a => !a.pendingDeliver
  let alarms := (delivers.filter fun a => a.repeatMs > 0).foldl
    (fun t a => t.modify a.key (rescheduled nowMs) fun _ => rfl) c.store.alarms
  let alarms := dead.foldl
    (fun t a => t.modify a.key (fun b => { b with pendingDeliver := true }) fun _ => rfl) alarms
  let alarms := (delivers.filter fun a => a.repeatMs = 0).foldl (fun t a => t.erase a.key) alarms
  let c := c.modifyStore fun s => { s with alarms }
  let c := launches.foldl (fun c a => c.request (.launch a.appId a.wakeKind)) c
  deliveries.foldl (fun c d => c.deliverToHost d.1 (.alarmFired d.2)) c

/-- The verbs of the module. -/
inductive Verb
  | schedule
  | cancel
  deriving DecidableEq

/-- A verb on the wire. -/
def Verb.wire : Verb → String
  | .schedule => "schedule-alarm"
  | .cancel => "cancel-alarm"

def onCommand (verb : Verb) (args : String) (c : Ctx) : Ctx × Reply :=
  match verb with
  | .schedule => cmdSchedule c args
  | .cancel => cmdCancel c args

def onEvent (e : Event) (c : Ctx) : Ctx :=
  match e with
  | .alarmTick nowMs => onTick nowMs c
  | _ => c

end Wandr.AlarmManager
