import Mathlib.Data.Multiset.MapFold
import Wandr.Lib.First
import Wandr.Lib.Table
import Wandr.Lib.Text

/-!
# The history of a messenger

The engine keeps the messages of all conversations in one list. What comes later and is about a
message, a receipt or a reaction, names it by the time it was sent, and the engine looks for the
first message of that time. On the disk there are four stores: the messages as they were when
they came, the delivery states and the reactions by time, and the files of the attachments.

* `setStatus` and `applyReaction` change the first message of a time, in memory and on the disk;
* `addMessage` appends one;
* `loadHistory` puts the stores together when the engine starts.
-/

namespace Wandr.Signal

/-! ## Messages -/

inductive Delivery
  | sending
  | sent
  | delivered
  | read
  deriving DecidableEq

/-- How far along a message is. -/
def Delivery.rank : Delivery → Nat
  | .sending => 0
  | .sent => 1
  | .delivered => 2
  | .read => 3

def statusCode (d : Delivery) : Nat := d.rank

def statusFromCode (c : Nat) : Delivery :=
  if c = 0 then .sending else if c = 2 then .delivered else if c = 3 then .read else .sent

theorem statusFromCode_statusCode (d : Delivery) : statusFromCode (statusCode d) = d := by
  cases d <;> rfl

inductive CallLog
  | outAnswered
  | outMissed
  | outBusy
  | inAnswered
  | inMissed
  | inDeclined
  deriving DecidableEq

def callLogCode : CallLog → String
  | .outAnswered => "out-answered"
  | .outMissed => "out-missed"
  | .outBusy => "out-busy"
  | .inAnswered => "in-answered"
  | .inMissed => "in-missed"
  | .inDeclined => "in-declined"

def callLogFromCode (s : String) : Option CallLog :=
  if s = "out-answered" then some .outAnswered
  else if s = "out-missed" then some .outMissed
  else if s = "out-busy" then some .outBusy
  else if s = "in-answered" then some .inAnswered
  else if s = "in-missed" then some .inMissed
  else if s = "in-declined" then some .inDeclined
  else none

theorem callLogFromCode_callLogCode (c : CallLog) : callLogFromCode (callLogCode c) = some c := by
  cases c <;> decide

structure Attachment where
  contentType : String
  data : List UInt8
  width : Nat
  height : Nat
  deriving DecidableEq

/-- A message. Its reactions are shown in no order, each emoji as often as it was chosen. -/
structure Message where
  id : Nat
  sender : String
  text : String
  ts : Nat
  outgoing : Bool
  thread : String
  status : Delivery
  reactions : Multiset String
  attachments : List Attachment
  call : Option CallLog
  deriving DecidableEq

/-- A message gets along, if it is not as far yet. -/
def Message.advance (new : Delivery) (m : Message) : Message :=
  if m.status.rank < new.rank then { m with status := new } else m

/-- The reactions to the message of a time: those who reacted, and their emojis. -/
structure Reacted where
  ts : Nat
  per : Table (Prod.fst : String × String → String)

/-- What the reactions to a message show. -/
def reactionsToString (per : Table (Prod.fst : String × String → String)) : Multiset String :=
  (per.rows.map Prod.snd : Multiset String)

/-! ## The disk -/

structure StoredAttachment where
  contentType : String
  width : Nat
  height : Nat
  file : String

structure StoredMessage where
  sender : String
  text : String
  ts : Nat
  outgoing : Bool
  thread : String
  attachments : List StoredAttachment
  call : Option String

/-- What is on the disk: the messages in order, the codes of delivery states and the reactions by
    time, and the files of attachments by name. -/
structure Disk where
  messages : List StoredMessage := []
  statuses : Table (Prod.fst : Nat × Nat → Nat) := .empty
  reactions : Table Reacted.ts := .empty
  files : Table (Prod.fst : String × List UInt8 → String) := .empty

namespace Disk

variable (d : Disk)

def saveAttachment (name : String) (bytes : List UInt8) : Disk :=
  { d with files := d.files.put (name, bytes) }

def loadAttachment (name : String) : Option (List UInt8) := (d.files.get? name).map Prod.snd

def appendMessage (m : StoredMessage) : Disk := { d with messages := d.messages ++ [m] }

def setStatus (ts code : Nat) : Disk := { d with statuses := d.statuses.put (ts, code) }

/-- No reactions are no entry. -/
def setReactions (r : Reacted) : Disk :=
  { d with
    reactions := if r.per.rows.isEmpty then d.reactions.erase r.ts else d.reactions.put r }

end Disk

/-- What stands after the last slash of a media type. -/
def extension (contentType : String) : String :=
  match (Text.splitChar '/' contentType.toList).getLast? with
  | some e => if e.isEmpty then "bin" else String.ofList e
  | none => "bin"

/-- The name of the file of an attachment. -/
def fileName (ts i : Nat) (a : Attachment) : String :=
  toString ts ++ "_" ++ toString i ++ "." ++ extension a.contentType

/-- The attachments of a message go to files of their own, numbered from `i` on. -/
def storeAttachments (ts : Nat) : Nat → List Attachment → Disk → Disk × List StoredAttachment
  | _, [], d => (d, [])
  | i, a :: as, d =>
    let stored := storeAttachments ts (i + 1) as (d.saveAttachment (fileName ts i a) a.data)
    (stored.1, ⟨a.contentType, a.width, a.height, fileName ts i a⟩ :: stored.2)

def toStored (m : Message) (d : Disk) : Disk × StoredMessage :=
  let stored := storeAttachments m.ts 0 m.attachments d
  (stored.1, { sender := m.sender
               text := m.text
               ts := m.ts
               outgoing := m.outgoing
               thread := m.thread
               attachments := stored.2
               call := m.call.map callLogCode })

/-- An attachment, if its file is there. -/
def loadAttachment (d : Disk) (a : StoredAttachment) : Option Attachment :=
  (d.loadAttachment a.file).map fun data => ⟨a.contentType, data, a.width, a.height⟩

/-- A message as it is when the engine starts. -/
def loadMessage (d : Disk) (id : Nat) (m : StoredMessage) : Message where
  id := id
  sender := m.sender
  text := m.text
  ts := m.ts
  outgoing := m.outgoing
  thread := m.thread
  status := ((d.statuses.get? m.ts).map fun c => statusFromCode c.2).getD .sent
  reactions := ((d.reactions.get? m.ts).map fun r => reactionsToString r.per).getD 0
  attachments := m.attachments.filterMap (loadAttachment d)
  call := m.call.bind callLogFromCode

/-- The messages get their numbers in order. -/
def loadHistory (d : Disk) : List Message :=
  d.messages.zipIdx.map fun m => loadMessage d (m.2 + 1) m.1

/-! ## The engine -/

/-- A message to be sent: its thread, text and time. Which message of the history it is, the
    engine does not keep. -/
structure Outgoing where
  thread : String
  text : String
  ts : Nat
  id : Nat
  deriving DecidableEq

/-- A receipt to be sent. Its number is not kept either. -/
structure ReceiptJob where
  recipient : String
  read : Bool
  timestamps : List Nat
  id : Nat
  deriving DecidableEq

/-- How a group is reached. -/
structure GroupRoute where
  thread : String
  members : List String

/-- What is taken from a message that came: who sent it, what it says, whether it is one of ours,
    from another device, the thread and the time it names, and its images. -/
structure Incoming where
  peer : String
  body : Option String
  outgoing : Bool
  thread : Option String
  wireTs : Option Nat
  attachments : List Attachment
  now : Nat

/-- What is said of a call that has ended. -/
structure EndedCall where
  peerAci : String
  outgoing : Bool
  connected : Bool
  busy : Bool
  declined : Bool
  deriving DecidableEq

def endedCallLog (e : EndedCall) : CallLog :=
  if e.busy && e.outgoing then .outBusy
  else if e.outgoing then if e.connected then .outAnswered else .outMissed
  else if e.connected then .inAnswered
  else if e.declined then .inDeclined
  else .inMissed

/-- The text of a call in its thread. -/
def callLogLabel : CallLog → String
  | .outAnswered => "Outgoing call"
  | .outMissed => "Outgoing call (no answer)"
  | .outBusy => "Busy"
  | .inAnswered => "Incoming call"
  | .inMissed => "Missed call"
  | .inDeclined => "Declined call"

/-- What the parts of the engine share. -/
structure Shared where
  history : List Message := []
  outbox : List Outgoing := []
  nextId : Nat := 0
  reactions : Table Reacted.ts := .empty
  receiptOutbox : List ReceiptJob := []
  nextReceipt : Nat := 0
  readAcked : List Nat := []
  groupRoutes : Table GroupRoute.thread := .empty
  disk : Disk := {}

namespace Shared

variable (s : Shared)

/-- A message goes to the disk and into the history. -/
def addMessage (m : Message) : Shared :=
  { s with
    history := s.history ++ [m]
    nextId := s.nextId + 1
    disk := (toStored m s.disk).1.appendMessage (toStored m s.disk).2 }

/-- The first message of ours of a time gets along, if it is not as far yet. -/
def setStatus (ts : Nat) (new : Delivery) : Shared :=
  match s.history.find? fun m => m.ts = ts && m.outgoing with
  | some m =>
    if m.status.rank < new.rank then
      { s with
        history := First.modify (fun m => m.ts = ts && m.outgoing)
          (fun m => { m with status := new }) s.history
        disk := s.disk.setStatus ts (statusCode new) }
    else s
  | none => s

/-- What there is for a time. -/
def reactionsOf (ts : Nat) : Table (Prod.fst : String × String → String) :=
  ((s.reactions.get? ts).map Reacted.per).getD .empty

def reactionsString (ts : Nat) : Multiset String := reactionsToString (s.reactionsOf ts)

/-- Someone reacts to the message of a time, or does not any more. -/
def react (ts : Nat) (reactor emoji : String) (remove : Bool) : Reacted where
  ts := ts
  per :=
    if remove then (s.reactionsOf ts).erase reactor
    else (s.reactionsOf ts).put (reactor, emoji)

/-- The first message of a time shows the reactions to it. They are kept if there is no such
    message. -/
def applyReaction (ts : Nat) (reactor emoji : String) (remove : Bool) : Shared :=
  let r := s.react ts reactor emoji remove
  { s with
    reactions := if r.per.rows.isEmpty then s.reactions.erase ts else s.reactions.put r
    history := First.modify (fun m => m.ts = ts)
      (fun m => { m with reactions := reactionsToString r.per }) s.history
    disk := s.disk.setReactions r }

/-- A message is to be sent. It is in the history at once. -/
def send (thread text : String) (now : Nat) : Except String Shared :=
  if (Text.trim text).isEmpty then .error "empty message"
  else
    let m : Message :=
      { id := s.nextId + 1
        sender := "me"
        text := text
        ts := now
        outgoing := true
        thread := thread
        status := .sending
        reactions := 0
        attachments := []
        call := none }
    .ok { s.addMessage m with outbox := s.outbox ++ [⟨thread, text, now, m.id⟩] }

/-- The delivery of a message from someone else is acknowledged. -/
def pushReceipt (recipient : String) (read : Bool) (timestamps : List Nat) : Shared :=
  { s with
    receiptOutbox := s.receiptOutbox ++ [⟨recipient, read, timestamps, s.nextReceipt⟩]
    nextReceipt := s.nextReceipt + 1 }

/-- A message comes. One that says nothing and shows nothing is none. -/
def receive (i : Incoming) : Shared :=
  if i.body.isNone ∧ i.attachments.isEmpty then s
  else
    let ts := i.wireTs.getD i.now
    let s' := if i.outgoing then s else s.pushReceipt i.peer false [ts]
    s'.addMessage
      { id := s.nextId + 1
        sender := if i.outgoing then "me" else i.peer
        text := i.body.getD ""
        ts := ts
        outgoing := i.outgoing
        thread := i.thread.getD i.peer
        status := .sent
        reactions := s.reactionsString ts
        attachments := i.attachments
        call := none }

/-- The messages of a thread to be acknowledged as read: by whom they were sent, and when. -/
def unread (parseUuid : String → Option String) (thread : String) :
    List Message → List Nat → List (String × Nat)
  | [], _ => []
  | m :: ms, acked =>
    if m.thread = thread ∧ m.outgoing = false ∧ m.ts ∉ acked then
      match parseUuid m.sender with
      | some uuid => (uuid, m.ts) :: unread parseUuid thread ms (m.ts :: acked)
      | none => unread parseUuid thread ms acked
    else unread parseUuid thread ms acked

/-- A thread is read. There is a receipt for each sender, in no order. -/
def markRead (parseUuid : String → Option String) (thread : String) : Shared :=
  let ms := unread parseUuid thread s.history s.readAcked
  (ms.map Prod.fst).dedup.foldl
    (fun s uuid => s.pushReceipt uuid true ((ms.filter fun m => m.1 = uuid).map Prod.snd))
    { s with readAcked := ms.map Prod.snd ++ s.readAcked }

/-- A call that has ended is noted in its thread. -/
def addCallLog (e : EndedCall) (now : Nat) : Shared :=
  s.addMessage
    { id := s.nextId + 1
      sender := if e.outgoing then "me" else e.peerAci
      text := callLogLabel (endedCallLog e)
      ts := now
      outgoing := e.outgoing
      thread := e.peerAci
      status := .sent
      reactions := 0
      attachments := []
      call := some (endedCallLog e) }

/-- The engine starts from what is on the disk. -/
def loadState (d : Disk) (groupRoutes : Table GroupRoute.thread) : Shared where
  history := loadHistory d
  nextId := d.messages.length
  reactions := d.reactions
  groupRoutes := groupRoutes
  disk := d

variable {s}

/-- What is sent goes into the history and the outbox. -/
theorem send_ok {thread text : String} {now : Nat} {s' : Shared}
    (h : s.send thread text now = .ok s') :
    ∃ m : Message, m.id = s.nextId + 1 ∧ m.ts = now ∧ m.outgoing ∧ m.status = .sending ∧
      m.reactions = 0 ∧ m.attachments = [] ∧
      s' = { s.addMessage m with outbox := s.outbox ++ [⟨thread, text, now, m.id⟩] } := by
  unfold send at h
  split at h
  · cases h
  · exact ⟨_, rfl, rfl, rfl, rfl, rfl, rfl, (Except.ok.inj h).symm⟩

/-! ## Changing a message -/

/-- The first message of ours of a time gets along, if it is not as far yet. -/
theorem setStatus_history {ts : Nat} {new : Delivery} :
    (s.setStatus ts new).history =
      First.modify (fun m => m.ts = ts && m.outgoing) (fun m => m.advance new) s.history := by
  unfold setStatus
  cases hf : s.history.find? fun m => m.ts = ts && m.outgoing with
  | none =>
    exact (First.modify_eq_self.2 fun a ha => nomatch hf.symm.trans ha).symm
  | some m =>
    dsimp only
    split
    · next hlt =>
      refine First.modify_congr fun a ha => ?_
      cases hf.symm.trans ha
      exact (if_pos hlt).symm
    · next hge =>
      refine (First.modify_eq_self.2 fun a ha => ?_).symm
      cases hf.symm.trans ha
      exact if_neg hge

/-- The first message of a time shows the reactions to it. -/
theorem applyReaction_history {ts : Nat} {reactor emoji : String} {remove : Bool} :
    (s.applyReaction ts reactor emoji remove).history = First.modify (fun m => m.ts = ts)
      (fun m => { m with reactions := reactionsToString (s.react ts reactor emoji remove).per })
      s.history := rfl

end Shared

end Wandr.Signal
