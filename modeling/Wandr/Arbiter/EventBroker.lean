import Wandr.Arbiter.Vocabulary
import Wandr.Lib.Text

/-!
# The event broker

Topics with subscribers and a retained payload each. A payload is opaque: it is
stored and delivered verbatim, to the subscribers when it is published and to a
new subscriber when it subscribes.
-/

namespace Wandr

open Text

structure EventsModule where
  subscribers : String → List Pid := fun _ => []
  retained : String → Option String := fun _ => none

namespace EventsModule

/-- A subscriber and a topic on the wire. -/
def parseSubscription (args : String) : Option (Pid × String) :=
  match splitWhitespace args with
  | pidTok :: topic :: _ => (parseSigned 32 pidTok).map fun pid => (pid, topic)
  | _ => none

/-- Replace the subscribers of a topic. -/
def setSubscribers (m : EventsModule) (topic : String) (subs : List Pid) : EventsModule :=
  { m with subscribers := Function.update m.subscribers topic subs }

def cmdSubscribe (m : EventsModule) (args : String) (c : Ctx) : EventsModule × Ctx × Reply :=
  match parseSubscription args with
  | none => (m, c, .err "evt-subscribe-usage <pid> <topic>")
  | some (pid, topic) =>
    let subs := m.subscribers topic
    let m := if subs.contains pid then m else m.setSubscribers topic (subs ++ [pid])
    let c := match m.retained topic with
      | some payload => c.deliverToHost pid (.event topic payload)
      | none => c
    (m, c, .ok s!"evt-subscribe {pid} {topic}")

def cmdUnsubscribe (m : EventsModule) (args : String) (c : Ctx) : EventsModule × Ctx × Reply :=
  match parseSubscription args with
  | none => (m, c, .err "evt-unsubscribe-usage <pid> <topic>")
  | some (pid, topic) =>
    (m.setSubscribers topic ((m.subscribers topic).filter fun p => p ≠ pid), c,
      .ok s!"evt-unsubscribe {pid} {topic}")

def cmdPublish (m : EventsModule) (args : String) (c : Ctx) : EventsModule × Ctx × Reply :=
  match splitn 2 ' ' (trim args) with
  | [] => (m, c, .err "evt-publish-usage <topic> <payload-base64>")
  | topic :: rest =>
    if topic = "" then (m, c, .err "evt-publish-usage <topic> <payload-base64>")
    else
      let payload := rest.head?.getD ""
      let m := { m with retained := Function.update m.retained topic (some payload) }
      let subs := m.subscribers topic
      (m, c.deliverToAll subs fun _ => .event topic payload,
        .ok s!"evt-publish {topic} subscribers={subs.length}")

/-- The verbs of the module. -/
inductive Verb
  | subscribe
  | unsubscribe
  | publish
  deriving DecidableEq

/-- A verb on the wire. -/
def Verb.wire : Verb → String
  | .subscribe => "evt-subscribe"
  | .unsubscribe => "evt-unsubscribe"
  | .publish => "evt-publish"

def onCommand (m : EventsModule) (verb : Verb) (args : String) (c : Ctx) :
    EventsModule × Ctx × Reply :=
  match verb with
  | .subscribe => m.cmdSubscribe args c
  | .unsubscribe => m.cmdUnsubscribe args c
  | .publish => m.cmdPublish args c

def onEvent (m : EventsModule) (e : Event) (c : Ctx) : EventsModule × Ctx :=
  match e with
  | .surfaceRemoved pid =>
    ({ m with subscribers := fun topic => (m.subscribers topic).filter fun p => p ≠ pid }, c)
  | _ => (m, c)

end EventsModule

end Wandr
