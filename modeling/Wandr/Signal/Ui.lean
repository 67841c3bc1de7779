import Mathlib.Logic.Function.Basic
import Wandr.Lib.First
import Wandr.Signal.History

/-!
# The user interface of Signal

The interface draws a model of the engine's messages. The model is pumped from three places: by
each frame, by the tick in the background and by an alarm (`pump`). The component draws the
screen from the model and from what the user has opened (`app`); the renderer runs it only when
it is dirty (`renderFrame`).

* `Ui.observe` notes what is done, each with the conversation that is shown at the time;
* `Ui.step` is the whole of the interface.
-/

namespace Wandr.SignalUi

open Signal (Message)

/-! ## The model -/

structure Contact where
  id : String
  name : String
  phone : Option String
  deriving DecidableEq

structure Group where
  id : String
  title : String
  members : List String
  deriving DecidableEq

structure Profile where
  name : String
  phone : String
  about : String
  aboutEmoji : String
  deriving DecidableEq

/-- An open conversation. -/
structure Thread where
  id : String
  title : String
  isGroup : Bool
  deriving DecidableEq

inductive CallState
  | idle
  | outgoing
  | ringing
  | connecting
  | connected
  | ended
  deriving DecidableEq

/-- What the engine says of the call when it is asked. -/
structure CallInfo where
  status : CallState := .idle
  peer : String := ""
  videoLocal : Bool := false
  videoRemote : Bool := false
  deriving DecidableEq

/-- What the components read. -/
structure Model where
  state : String := ""
  linkUrl : Option String := none
  messages : List Message := []
  contacts : List Contact := []
  groups : List Group := []
  myProfile : Option Profile := none
  accountId : String := ""
  unread : String → Nat := fun _ => 0

inductive Event
  | message (m : Message)
  | linkUrl (url : String)
  | linked (aci : String)
  | connected
  | disconnected
  | contactsUpdated (n : Nat)
  | groupsUpdated (n : Nat)
  | statusChanged (id : Nat) (status : Signal.Delivery)
  | reactionChanged (id : Nat) (reactions : Multiset String)
  | profileUpdated
  | callIncoming (peer : String)
  | callStateChanged (s : CallState)

/-- What a pump hears from the engine: its history and first lists, which are asked for once,
    its events, and what it is asked after them. -/
structure Answers where
  history : List Message := []
  initContacts : List Contact := []
  initGroups : List Group := []
  initProfile : Option Profile := none
  events : List Event := []
  contacts : List Contact := []
  groups : List Group := []
  profile : Option Profile := none
  state : String := ""
  accountId : String := ""

/-- What is asked of the engine and of the host. -/
inductive HostCall
  | init
  | schedule (id delayMs intervalMs : Nat)
  | markRead (thread : String)
  | post (nid : UInt64) (title body : String)
  | cancel (nid : UInt64)
  deriving DecidableEq

/-- What is noted of a run: a new message that comes in, a call, or nothing. -/
inductive Note
  | delivered (m : Message)
  | call (c : HostCall)
  | still
  deriving DecidableEq

/-! ## The screen -/

/-- What the component returns. -/
inductive View
  | video (localOn : Bool)
  | link (state url : String)
  | profile (p : Profile)
  | conversation (call : CallInfo) (thread : Thread) (isSelf : Bool) (messages : List Message)
      (contacts : List Contact)
  | lists (tab : Nat) (call : CallInfo) (model : Model)

/-- The interface: its globals, the signals of the root component, what the engine says of the
    call, and the renderer, with what the component read of the call when it was run last. -/
structure Ui where
  model : Model := {}
  started : Bool := false
  viewing : Option String := none
  nidThread : UInt64 → Option String := fun _ => none
  pendingOpen : Option String := none
  tab : Nat := 0
  current : Option Thread := none
  showProfile : Bool := false
  call : CallInfo := {}
  lifecyclePaused : Bool := false
  dirty : Bool := true
  painted : Option View := none
  paintedCall : CallInfo := {}
  log : List (Option String × Note) := []

def keepaliveId : Nat := 1

def keepaliveMs : Nat := 900000

/-- FNV-1a. -/
def threadNid (thread : String) : UInt64 :=
  thread.toUTF8.toList.foldl (fun h b => (h ^^^ b.toUInt64) * 0x00000100000001b3)
    0xcbf29ce484222325

def shortSender (s : String) : String :=
  let inner := ((s.toList.dropWhile (· = '<')).reverse.dropWhile (· = '>')).reverse
  String.ofList (((inner.splitOn ':')[1]?.getD inner).take 8)

/-- The title of a thread, and whether it is a group. -/
def resolveThread (id selfId : String) (contacts : List Contact) (groups : List Group) :
    String × Bool :=
  match groups.find? (·.id = id) with
  | some g => (g.title, true)
  | none =>
    if id = "" ∨ selfId ≠ "" ∧ id = selfId then ("Note to Self", false)
    else
      ((((contacts.find? (·.id = id)).map Contact.name).filter (· ≠ "")).getD (shortSender id),
        false)

/-- What a notification says of a message. -/
def preview (m : Message) : String :=
  if m.text = "" ∧ m.attachments ≠ [] then "📷 Photo"
  else String.ofList (m.text.toList.take 120)

namespace Ui

/-- A connected call with video takes the whole screen. -/
def inVideo (s : Ui) : Bool :=
  s.call.status = .connected && (s.call.videoLocal || s.call.videoRemote)

/-- What the component draws of a model, when there is no call with video. -/
def viewOf (m : Model) (s : Ui) : View :=
  match m.linkUrl with
  | some url => .link m.state url
  | none =>
    match if s.showProfile then m.myProfile else none with
    | some p => .profile p
    | none =>
      match s.current with
      | some thread =>
        .conversation s.call thread (thread.id = m.accountId)
          (m.messages.filter (·.thread = thread.id)) m.contacts
      | none => .lists s.tab s.call m

/-- The screen that the root component shows. -/
def screen (s : Ui) : View := if s.inVideo then .video s.call.videoLocal else viewOf s.model s

/-- The thread whose conversation the user sees. -/
def shown (s : Ui) : Option String :=
  if s.lifecyclePaused then none
  else
    match s.screen with
    | .conversation _ thread _ _ _ => some thread.id
    | _ => none

/-- Note what was done. -/
def observe (s : Ui) (notes : List Note) : Ui :=
  { s with log := s.log ++ notes.map fun n => (s.shown, n) }

/-! ## The pump -/

/-- Open a conversation: its messages are read, and its notification goes away. -/
def openThread (id : String) (s : Ui) : Ui × List HostCall :=
  ({ s with
      viewing := some id
      model := { s.model with unread := Function.update s.model.unread id 0 }
      nidThread := Function.update s.nidThread (threadNid id) none },
    [.markRead id, .cancel (threadNid id)])

/-- Leave the conversation. -/
def closeThread (s : Ui) : Ui := { s with viewing := none }

/-- A pump under way. -/
structure Pump where
  ui : Ui
  refresh : Bool := false
  refreshGroups : Bool := false
  toNotify : List (String × String) := []

/-- The first pump starts the engine. -/
def start (a : Answers) (s : Ui) : Ui :=
  if s.started then s
  else
    { s with
      started := true
      model :=
        { s.model with
          contacts := a.initContacts
          groups := a.initGroups
          myProfile := a.initProfile
          messages := s.model.messages ++ a.history } }.observe
      [.call .init, .call (.schedule keepaliveId keepaliveMs keepaliveMs)]

def pushMessage (m : Message) (s : Ui) : Ui :=
  { s with model := { s.model with messages := s.model.messages ++ [m] } }

/-- A message of the open conversation is read, any other that comes in is counted and the user
    is told of it. -/
def onMessage (m : Message) (p : Pump) : Pump :=
  if p.ui.model.messages.any fun x => x.id = m.id then p
  else if m.outgoing then { p with ui := p.ui.pushMessage m }
  else if p.ui.viewing ≠ some m.thread then
    { p with
      ui := { p.ui with
          model :=
            { p.ui.model with
              unread := Function.update p.ui.model.unread m.thread
                (p.ui.model.unread m.thread + 1) } }.observe [.delivered m] |>.pushMessage m
      toNotify := p.toNotify ++ [(m.thread, preview m)] }
  else
    { p with ui := p.ui.observe [.delivered m, .call (.markRead m.thread)] |>.pushMessage m }

def modifyModel (f : Model → Model) (p : Pump) : Pump :=
  { p with ui := { p.ui with model := f p.ui.model }.observe [.still] }

def onEvent (profile : Option Profile) (p : Pump) : Event → Pump
  | .message m => onMessage m p
  | .statusChanged id status =>
    modifyModel (fun m => { m with
      messages := First.modify (·.id = id) (fun x => { x with status }) m.messages }) p
  | .reactionChanged id reactions =>
    modifyModel (fun m => { m with
      messages := First.modify (·.id = id) (fun x => { x with reactions }) m.messages }) p
  | .linkUrl url => modifyModel (fun m => { m with linkUrl := some url }) p
  | .linked _ | .connected => modifyModel (fun m => { m with linkUrl := none }) p
  | .profileUpdated => modifyModel (fun m => { m with myProfile := profile }) p
  | .contactsUpdated _ => { p with refresh := true }
  | .groupsUpdated _ => { p with refreshGroups := true }
  | .disconnected | .callIncoming _ | .callStateChanged _ => p

/-- One notification is posted. -/
def notify (s : Ui) (n : String × String) : Ui :=
  let (title, _) := resolveThread n.1 s.model.accountId s.model.contacts s.model.groups
  { s.observe [.call (.post (threadNid n.1) title n.2)] with
    nidThread := Function.update s.nidThread (threadNid n.1) (some n.1) }

/-- The lists that the events say are new. -/
def refreshLists (a : Answers) (p : Pump) : Ui :=
  { p.ui with
    model :=
      { p.ui.model with
        contacts := if p.refresh then a.contacts else p.ui.model.contacts
        groups := if p.refreshGroups then a.groups else p.ui.model.groups } }

/-- The state of the engine, and the account once it is known. It is told whether they changed. -/
def takeState (a : Answers) (s : Ui) : Ui × Bool :=
  let stateChanged := s.model.state ≠ a.state
  let idChanged := a.accountId ≠ "" ∧ s.model.accountId ≠ a.accountId
  ({ s with
      model :=
        { s.model with
          state := if stateChanged then a.state else s.model.state
          accountId := if idChanged then a.accountId else s.model.accountId } },
    stateChanged || idChanged)

/-- What the events ask for is done. -/
def finish (a : Answers) (p : Pump) : Ui × Bool :=
  let (s, changed) := takeState a (p.toNotify.foldl notify (refreshLists a p))
  (s, !a.events.isEmpty || changed)

/-- Take what the engine has to say into the model. It is told whether anything changed. -/
def pump (a : Answers) (s : Ui) : Ui × Bool :=
  finish a (a.events.foldl (onEvent a.profile) { ui := s.start a })

/-! ## Frames -/

/-- Open a thread that was asked for, under its title. -/
def openPending (id : String) (s : Ui) : Ui × List HostCall :=
  let (title, isGroup) := resolveThread id s.model.accountId s.model.contacts s.model.groups
  let (s, calls) := openThread id { s with pendingOpen := none }
  ({ s with current := some ⟨id, title, isGroup⟩ }, calls)

/-- The root component, which opens a thread that was asked for by a tap on its notification. -/
def app (s : Ui) : View × Ui × List HostCall :=
  if s.inVideo then (.video s.call.videoLocal, s, [])
  else
    match s.pendingOpen with
    | none => (viewOf s.model s, s, [])
    | some id =>
      let (s', calls) := openPending id s
      (viewOf s.model s', s', calls)

/-- A frame is not drawn while the surface is hidden. It runs the component only when the renderer
    is dirty, and draws what it returned last otherwise. -/
def renderFrame (s : Ui) : Ui :=
  if s.lifecyclePaused then s
  else if s.dirty then
    let (view, s', calls) := app s
    { s' with painted := some view, paintedCall := s.call, dirty := false }.observe
      (calls.map Note.call ++ [Note.still])
  else s

/-! ## The host's calls -/

inductive Input
  | onFrame (rescaled : Bool) (a : Answers)
  | bgTick (a : Answers)
  | onAlarm (a : Answers)
  | onNotificationClick (id : UInt64)
  | onLifecycleChanged (state : Nat)
  | onResize
  /-- The user taps the row of a thread, the arrow in its header, a tab, the avatar in the title
      or the arrow in the profile, or gives other input to the renderer. -/
  | clickRow (thread : Thread)
  | clickBack
  | clickTab (tab : Nat)
  | clickProfile (shown : Bool)
  | otherInput (dirty : Bool)
  /-- The engine's call gets along. -/
  | callChanged (call : CallInfo)

def step (s : Ui) : Input → Ui
  | .onFrame rescaled a =>
    let (s, changed) := pump a { s with dirty := s.dirty || rescaled }
    renderFrame { s with dirty := s.dirty || changed }
  | .bgTick a | .onAlarm a => (pump a s).1
  | .onNotificationClick id =>
    match s.nidThread id with
    | some thread => { s with pendingOpen := some thread }
    | none => s
  | .onLifecycleChanged state =>
    { s with lifecyclePaused := state = 4 ∨ state = 5 }.observe [.still]
  | .onResize => { s with dirty := true }
  | .clickRow thread =>
    let (s, calls) := openThread thread.id s
    { s with current := some thread, dirty := true }.observe (calls.map Note.call)
  | .clickBack => { closeThread s with current := none, dirty := true }.observe [.still]
  | .clickTab tab => { s with tab, dirty := true }
  | .clickProfile shown => { s with showProfile := shown, dirty := true }.observe [.still]
  | .otherInput dirty => { s with dirty := s.dirty || dirty }
  | .callChanged call => { s with call }.observe [.still]

/-! ## What a frame does -/

variable {s : Ui}

/-- The component opens the thread that was asked for, or nothing. -/
theorem app_cases (s : Ui) :
    app s = (s.screen, s, []) ∧ (s.inVideo = true ∨ s.pendingOpen = none) ∨
    ∃ id, s.inVideo = false ∧ s.pendingOpen = some id ∧
      app s = (viewOf s.model (openPending id s).1, openPending id s) := by
  rw [app, screen]
  cases hvideo : s.inVideo with
  | true => exact .inl ⟨rfl, .inl rfl⟩
  | false =>
    cases hpending : s.pendingOpen with
    | none => exact .inl ⟨rfl, .inr rfl⟩
    | some id => exact .inr ⟨id, rfl, rfl, rfl⟩

theorem renderFrame_paused (h : s.lifecyclePaused = true) : renderFrame s = s := if_pos h

theorem renderFrame_clean (h : s.dirty = false) : renderFrame s = s := by
  rw [renderFrame, h]
  split <;> rfl

theorem renderFrame_dirty (hp : s.lifecyclePaused = false) (h : s.dirty = true) :
    renderFrame s = { (app s).2.1 with
        painted := some (app s).1, paintedCall := s.call, dirty := false }.observe
      ((app s).2.2.map Note.call ++ [Note.still]) := by
  rw [renderFrame, hp, h]
  rfl

end Ui

end Wandr.SignalUi
