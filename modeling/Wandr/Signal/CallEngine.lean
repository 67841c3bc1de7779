import Wandr.Call.SignalCall
import Wandr.Lib.Purge
import Wandr.Signal.History

/-!
# The call of the engine

The engine has at most one call. Each message of a call carries signals; the first offer of one
who is not in a call starts it, and everything else is fed to the call, which takes the signals of
its own number. Who sent the message is not looked at, and a busy signal is noted before its number
is.

* `CallEngine`: the operations of the call;
* `CallEngine.unseen`: a message of someone else, or of another call, none of whose signals the
  call heeds, leaves it as it is;
* `nobody_else`: and so it is in a run.
-/

namespace Wandr.Signal

open Machine Purge

/-! ## Messages -/

structure CallOffer where
  id : Option UInt64
  blob : Option (List UInt8)

structure CallAnswer where
  id : Option UInt64
  blob : Option (List UInt8)

structure CallIceUpdate where
  id : Option UInt64
  blob : Option (List UInt8)

structure CallHangup where
  id : Option UInt64
  type : Option Int
  deviceId : Option Nat

structure CallBusy where
  id : Option UInt64

/-- A message of a call. -/
structure CallMessage where
  offer : Option CallOffer := none
  answer : Option CallAnswer := none
  iceUpdate : List CallIceUpdate := []
  hangup : Option CallHangup := none
  busy : Option CallBusy := none

def hangupAccepted : Int := 1

def hangupDeclined : Int := 2

def hangupBusy : Int := 3

def hangupKind (t : Option Int) : HangupKind :=
  if t = some hangupAccepted then .accepted
  else if t = some hangupDeclined then .declined
  else if t = some hangupBusy then .busy
  else .normal

/-- The signals that a message carries. -/
def callMessageToSignals (cm : CallMessage) : List CallSignal :=
  (cm.offer.bind fun o => o.id.bind fun id => o.blob.map (.offer id)).toList ++
    (cm.answer.bind fun a => a.id.bind fun id => a.blob.map (.answer id)).toList ++
    cm.iceUpdate.filterMap (fun ice => ice.id.bind fun id => ice.blob.map (.ice id)) ++
    (cm.hangup.bind fun h => h.id.map (.hangup · (hangupKind h.type))).toList ++
    (cm.busy.bind fun b => b.id.map .busy).toList

/-- A hangup by which the devices of a user are told what one of them did, of this one. -/
def CallMessage.selfCoordination (cm : CallMessage) (myDeviceId : Nat) : Bool :=
  match cm.hangup with
  | none => false
  | some h => (h.type = some hangupAccepted || h.type = some hangupDeclined ||
      h.type = some hangupBusy) && h.deviceId = some myDeviceId

/-! ## The call -/

/-- A call, who it is with, and what will be noted of it. -/
structure ActiveCall (Secret : Type) where
  call : SignalCall Secret
  peerAci : String
  outgoing : Bool
  lastState : CallState
  connected : Bool := false
  accepted : Bool := false
  declined : Bool := false
  busy : Bool := false

/-- The call, if there is one, and what is to be noted of one that has ended. -/
structure CallEngine (Secret : Type) where
  active : Option (ActiveCall Secret) := none
  ended : Option EndedCall := none

/-- The socket of a new call, and what is drawn for it. -/
structure Bound (Secret : Type) where
  localAddr : SocketAddr
  ufrag : String
  pwd : String
  secret : Secret
  turn : Option SocketAddr

/-- A message of a call as it comes, with what is found out for it: the identities, a socket if
    there is to be a new call, and the agent after each signal. -/
structure InboundCall (Secret : Type) where
  cm : CallMessage
  sender : String
  myIdentity : List UInt8
  senderIdentity : List UInt8
  myDeviceId : Nat
  bound : Except String (Bound Secret)
  now : Nat
  agent : SignalCall Secret → CallSignal → Option Agent

/-- What comes to a call in a tick. What is told and played over the media path is told by what it
    makes of the session. -/
structure CallTick (Secret : Type) where
  now : Nat
  timeout : SessionTimeout
  poll : PollAnswer
  datagrams : List (SocketAddr × List UInt8 × List TurnEvent × (Nat → ReadAnswer) × MediaAnswer)
  media : PeerSession Secret → PeerSession Secret

/-- What the engine gives out: signals and datagrams to be sent, who calls, where the call stands
    now, and what is to be noted. -/
structure CallOutput where
  signals : List CallSignal := []
  datagrams : List (SocketAddr × List UInt8) := []
  incoming : Option String := none
  state : Option CallState := none
  ended : Option EndedCall := none

variable {Secret : Type} (C : Crypto Secret) (P : Prost)
  (parseIp : String → Option (String × Bool))

namespace ActiveCall

def new (call : SignalCall Secret) (peerAci : String) (outgoing : Bool) : ActiveCall Secret where
  call := call
  peerAci := peerAci
  outgoing := outgoing
  lastState := call.state

def outcome (a : ActiveCall Secret) : EndedCall where
  peerAci := a.peerAci
  outgoing := a.outgoing
  connected := a.connected
  busy := a.busy
  declined := a.declined

def isBusy : CallSignal → Bool
  | .busy _ => true
  | _ => false

/-- A signal is fed to the call. -/
def feed (a : ActiveCall Secret) (m : InboundCall Secret) (sig : CallSignal) :
    ActiveCall Secret :=
  { a with
    busy := a.busy || isBusy sig
    call := (a.call.onSignal P parseIp m.now sig (m.agent a.call sig)).1 }

/-- The call takes what comes in a tick. -/
def pump (a : ActiveCall Secret) (t : CallTick Secret) :
    ActiveCall Secret × List (SocketAddr × List UInt8) :=
  let (call, datagrams) := (a.call.handleTimeout C P t.now t.timeout).pollTransmit C t.poll
  let call := t.datagrams.foldl
    (fun call d => (call.handleDatagram P d.1 d.2.1 d.2.2.1 d.2.2.2.1 d.2.2.2.2).1) call
  if call.session.isConnected then
    ({ a with call := { call with session := t.media call.session }, connected := true }, datagrams)
  else ({ a with call }, datagrams)

end ActiveCall

namespace CallEngine

/-- A call comes in. -/
def startIncoming (m : InboundCall Secret) (callId : UInt64) (blob : List UInt8) :
    Option (ActiveCall Secret) :=
  if m.senderIdentity.isEmpty || m.myIdentity.isEmpty then none
  else match m.bound with
    | .error _ => none
    | .ok b =>
      match SignalCall.incoming P callId b.localAddr b.ufrag b.pwd b.secret m.senderIdentity
        m.myIdentity blob b.turn with
      | .error _ => none
      | .ok call => some (.new call m.sender false)

/-- A signal of a message is taken. -/
def onSignal (m : InboundCall Secret) (s : CallEngine Secret × CallOutput) (sig : CallSignal) :
    CallEngine Secret × CallOutput :=
  match sig, s.1.active with
  | .offer callId blob, none =>
    match startIncoming P m callId blob with
    | some a => ({ s.1 with active := some a }, { s.2 with incoming := some m.sender })
    | none => (s.1, { s.2 with signals := s.2.signals ++ [.busy callId] })
  | .offer callId _, some a =>
    if a.call.callId ≠ callId then (s.1, { s.2 with signals := s.2.signals ++ [.busy callId] })
    else s
  | .hangup callId kind, some a =>
    -- What this device did itself comes back to it.
    if m.cm.selfCoordination m.myDeviceId then s
    else ({ s.1 with active := some (a.feed P parseIp m (.hangup callId kind)) }, s.2)
  | sig, some a => ({ s.1 with active := some (a.feed P parseIp m sig) }, s.2)
  | _, none => s

def onCallMessage (e : CallEngine Secret) (m : InboundCall Secret) :
    CallEngine Secret × CallOutput :=
  (callMessageToSignals m.cm).foldl (onSignal P parseIp m) (e, {})

/-- A call is placed, if there is none. -/
def place (e : CallEngine Secret) (callId : UInt64) (myIdentity peerIdentity : List UInt8)
    (peerAci : String) (bound : Except String (Bound Secret)) : CallEngine Secret × CallOutput :=
  match e.active, bound with
  | none, .ok b =>
    match SignalCall.place C P callId b.localAddr b.ufrag b.pwd b.secret myIdentity peerIdentity
      b.turn with
    | .ok call =>
      let (call, signals) := call.pollSignals
      ({ e with active := some { ActiveCall.new call peerAci true with call } }, { signals })
    | .error _ => (e, {})
  | none, .error _ => (e, {})
  | some _, _ => (e, {})

def accept (e : CallEngine Secret) (now : Nat) (ice : Option Agent) :
    CallEngine Secret × CallOutput :=
  match e.active with
  | none => (e, {})
  | some a =>
    let (call, signals) := (a.call.accept C P parseIp now ice).1.pollSignals
    ({ e with active := some { a with call, accepted := true } }, { signals })

/-- We hang up. An incoming call that we did not accept was declined. -/
def hangup (e : CallEngine Secret) : CallEngine Secret × CallOutput :=
  match e.active with
  | none => (e, {})
  | some a =>
    let a := if !a.outgoing && !a.connected && !a.accepted then { a with declined := true } else a
    ({ active := none, ended := some a.outcome }, { signals := a.call.hangup.pollSignals.2 })

def tick (e : CallEngine Secret) (t : CallTick Secret) : CallEngine Secret × CallOutput :=
  match e.active with
  | none => (e, {})
  | some a =>
    let (a, datagrams) := a.pump C P t
    let (call, signals) := a.call.pollSignals
    let state := if call.state ≠ a.lastState then some call.state else none
    let a := { a with call, lastState := call.state }
    if call.state = .ended then
      ({ active := none, ended := some a.outcome }, { signals, datagrams, state })
    else ({ e with active := some a }, { signals, datagrams, state })

/-- What is to be noted is taken. -/
def takeEnded (e : CallEngine Secret) : CallEngine Secret × CallOutput :=
  ({ e with ended := none }, { ended := e.ended })

end CallEngine

/-! ## Messages of someone else -/

/-- What happens to the call. -/
inductive CallEvent (Secret : Type)
  | message (m : InboundCall Secret)
  | place (callId : UInt64) (myIdentity peerIdentity : List UInt8) (peerAci : String)
    (bound : Except String (Bound Secret))
  | accept (now : Nat) (ice : Option Agent)
  | hangup
  | tick (t : CallTick Secret)
  | takeEnded

namespace ActiveCall

/-- A message that is not from the other end, or that carries signals of other calls only. -/
def Foreign (a : ActiveCall Secret) (m : InboundCall Secret) : Prop :=
  m.sender ≠ a.peerAci ∨ ∀ sig ∈ callMessageToSignals m.cm, sig.callId ≠ a.call.callId

/-- A call takes no notice of a signal: it is an offer; or one of another call, or that comes in
    another state or cannot be read, except for a busy signal, which is always noted; or it says
    what this device did itself. -/
def Ignores (a : ActiveCall Secret) (m : InboundCall Secret) : CallSignal → Prop
  | .offer _ _ => True
  | .answer callId blob => callId ≠ a.call.callId ∨ a.call.state ≠ .outgoing ∨
      (decodeAnswer P blob).toOption = none
  | .ice callId blob => callId ≠ a.call.callId ∨
      (decodeIceCandidate P blob).toOption.join = none
  | .hangup callId _ => callId ≠ a.call.callId ∨ a.call.state = .ended ∨
      m.cm.selfCoordination m.myDeviceId
  | .busy callId => a.busy ∧ (callId ≠ a.call.callId ∨ a.call.state = .ended)

/-- The answer to an offer of another call. -/
def reply (a : ActiveCall Secret) : CallSignal → List CallSignal
  | .offer callId _ => if a.call.callId ≠ callId then [.busy callId] else []
  | _ => []

variable {P parseIp} {a : ActiveCall Secret} {m : InboundCall Secret} {sig : CallSignal}

/-- What the driver takes no notice of changes nothing, unless it says busy for the first time. -/
theorem feed_eq_self (hb : isBusy sig = true → a.busy)
    (hc : (a.call.onSignal P parseIp m.now sig (m.agent a.call sig)).1 = a.call) :
    a.feed P parseIp m sig = a := by
  have hbusy : (a.busy || isBusy sig) = a.busy := by
    cases h : isBusy sig with
    | true => rw [hb h, Bool.true_or]
    | false => exact Bool.or_false _
  unfold feed
  rw [hc, hbusy]

theorem Ignores.feed (h : a.Ignores P m sig)
    (hh : m.cm.selfCoordination m.myDeviceId = true → ∀ callId kind, sig ≠ .hangup callId kind) :
    a.feed P parseIp m sig = a := by
  refine feed_eq_self (fun hb => ?_) ?_
  · cases sig with
    | busy callId => exact h.1
    | offer | answer | ice | hangup => cases hb
  · unfold SignalCall.onSignal
    by_cases hid : sig.callId = a.call.callId
    · rw [if_neg (not_not.2 hid)]
      cases sig with
      | offer callId blob => rfl
      | answer callId blob =>
        rcases h with h | h | h
        · exact (h hid).elim
        · exact congrArg Prod.fst (if_neg h)
        · dsimp only
          split
          · cases hd : decodeAnswer P blob with
            | error e => rfl
            | ok answer => rw [hd] at h; cases h
          · rfl
      | ice callId blob =>
        rcases h with h | h
        · exact (h hid).elim
        · dsimp only
          rcases hd : decodeIceCandidate P blob with e | line
          · rfl
          · rw [hd] at h
            cases h
            rfl
      | hangup callId kind =>
        rcases h with h | h | h
        · exact (h hid).elim
        · rw [← h]
        · exact (hh h callId kind rfl).elim
      | busy callId =>
        rcases h.2 with h | h
        · exact (h hid).elim
        · rw [← h]
    · rw [if_pos hid]

end ActiveCall

namespace CallEngine

def handle (e : CallEngine Secret) : CallEvent Secret → CallEngine Secret × CallOutput
  | .message m => e.onCallMessage P parseIp m
  | .place callId myIdentity peerIdentity peerAci bound =>
    e.place C P callId myIdentity peerIdentity peerAci bound
  | .accept now ice => e.accept C P parseIp now ice
  | .hangup => e.hangup
  | .tick t => e.tick C P t
  | .takeEnded => e.takeEnded

def next (e : CallEngine Secret) (i : CallEvent Secret) : CallEngine Secret :=
  (e.handle C P parseIp i).1

def output (e : CallEngine Secret) (i : CallEvent Secret) : CallOutput :=
  (e.handle C P parseIp i).2

/-- A foreign message during a call. -/
def Foreign (e : CallEngine Secret) : CallEvent Secret → Prop
  | .message m => ∃ a ∈ e.active, a.Foreign m
  | _ => False

/-- The call takes no notice of the signals of a foreign message. -/
def Unheeded (e : CallEngine Secret) : CallEvent Secret → Prop
  | .message m => ∀ a ∈ e.active, a.Foreign m →
      ∀ sig ∈ callMessageToSignals m.cm, a.Ignores P m sig
  | _ => True

/-- A foreign message leaves the call as it is, and gets no answer, but that we are busy to an
    offer of another call. -/
def Untouched (e : CallEngine Secret) : CallEvent Secret → Prop
  | .message m => ∀ a ∈ e.active, a.Foreign m →
      (e.onCallMessage P parseIp m).1 = e ∧ (e.onCallMessage P parseIp m).2.incoming = none ∧
      ∀ sig ∈ (e.onCallMessage P parseIp m).2.signals, ∃ callId blob, sig = .busy callId ∧
        .offer callId blob ∈ callMessageToSignals m.cm ∧ callId ≠ a.call.callId
  | _ => True

instance (a : ActiveCall Secret) (m : InboundCall Secret) : Decidable (a.Foreign m) :=
  inferInstanceAs (Decidable (_ ∨ _))

instance (e : CallEngine Secret) : (i : CallEvent Secret) → Decidable (e.Foreign i)
  | .message m => inferInstanceAs (Decidable (∃ a ∈ e.active, a.Foreign m))
  | .place .. | .accept .. | .hangup | .tick _ | .takeEnded => inferInstanceAs (Decidable False)

variable {C P parseIp} {e : CallEngine Secret} {m : InboundCall Secret} {a : ActiveCall Secret}

/-- A signal that the call takes no notice of changes nothing. -/
theorem onSignal_ignored {o : CallOutput} {sig : CallSignal} (ha : e.active = some a)
    (hi : a.Ignores P m sig) :
    onSignal P parseIp m (e, o) sig = (e, { o with signals := o.signals ++ a.reply sig }) := by
  have hfeed (h : a.feed P parseIp m sig = a) :
      ({ e with active := some (a.feed P parseIp m sig) } : CallEngine Secret) = e := by
    rw [h, ← ha]
  cases sig with
  | offer callId blob =>
    unfold onSignal ActiveCall.reply
    dsimp only
    rw [ha]
    dsimp only
    split
    · rfl
    · rw [List.append_nil]
  | hangup callId kind =>
    unfold onSignal ActiveCall.reply
    dsimp only
    rw [ha, List.append_nil]
    dsimp only
    split
    · rfl
    · next hn => rw [hfeed (hi.feed fun h => absurd h hn)]
  | answer | ice | busy =>
    unfold onSignal ActiveCall.reply
    dsimp only
    rw [ha, List.append_nil]
    dsimp only
    rw [hfeed (hi.feed fun _ _ _ h => CallSignal.noConfusion h)]

/-- A message that the call takes no notice of changes nothing. -/
theorem onCallMessage_ignored (ha : e.active = some a)
    (hi : ∀ sig ∈ callMessageToSignals m.cm, a.Ignores P m sig) :
    e.onCallMessage P parseIp m =
      (e, { signals := (callMessageToSignals m.cm).flatMap a.reply }) := by
  have hf (sigs : List CallSignal) (hi : ∀ sig ∈ sigs, a.Ignores P m sig) (o : CallOutput) :
      sigs.foldl (onSignal P parseIp m) (e, o) =
        (e, { o with signals := o.signals ++ sigs.flatMap a.reply }) := by
    induction sigs generalizing o with
    | nil => rw [List.flatMap_nil, List.append_nil]; rfl
    | cons sig sigs ih =>
      rw [List.foldl_cons, onSignal_ignored ha (hi sig List.mem_cons_self),
        ih (fun s hs => hi s (List.mem_cons_of_mem _ hs)), List.flatMap_cons, List.append_assoc]
  exact hf _ hi {}

theorem Unheeded.untouched {i : CallEvent Secret} (h : e.Unheeded P i) :
    e.Untouched P parseIp i ∧ Unseen (next C P parseIp) Foreign e i := by
  cases i with
  | message m =>
    constructor
    · intro a ha hf
      rw [onCallMessage_ignored ha (h a ha hf)]
      refine ⟨rfl, rfl, fun sig hs => ?_⟩
      obtain ⟨o, ho, hr⟩ := List.mem_flatMap.1 hs
      cases o with
      | offer callId blob =>
        dsimp only [ActiveCall.reply] at hr
        split at hr
        · next hne => exact ⟨callId, blob, List.mem_singleton.1 hr, ho, Ne.symm hne⟩
        · cases hr
      | answer | ice | hangup | busy => cases hr
    · rintro ⟨a, ha, hf⟩
      exact congrArg Prod.fst (onCallMessage_ignored ha (h a ha hf))
  | place | accept | hangup | tick | takeEnded => exact ⟨trivial, fun hf => hf.elim⟩

end CallEngine

/-- In a run in which the call takes no notice of what is in foreign messages, each of them leaves
    the call as it is, and is answered only by that we are busy; and every run that differs from it
    only in such messages goes the same way, in what is sent, shown and noted. -/
theorem nobody_else (e : CallEngine Secret) (is : List (CallEvent Secret))
    (h : Goes (CallEngine.next C P parseIp) (CallEngine.Unheeded P) e is) :
    Goes (CallEngine.next C P parseIp) (CallEngine.Untouched P parseIp) e is ∧
    ∀ js, Goes (CallEngine.next C P parseIp) (CallEngine.Unheeded P) e js →
      purge (CallEngine.next C P parseIp) CallEngine.Foreign e is =
        purge (CallEngine.next C P parseIp) CallEngine.Foreign e js →
      seen (CallEngine.next C P parseIp) (CallEngine.output C P parseIp) CallEngine.Foreign e is =
          seen (CallEngine.next C P parseIp) (CallEngine.output C P parseIp) CallEngine.Foreign e
            js ∧
        is.foldl (CallEngine.next C P parseIp) e = js.foldl (CallEngine.next C P parseIp) e := by
  have hgo {is : List (CallEvent Secret)} {e : CallEngine Secret}
      (h : Goes (CallEngine.next C P parseIp) (CallEngine.Unheeded P) e is) :
      Goes (CallEngine.next C P parseIp) (CallEngine.Untouched P parseIp) e is ∧
        Goes (CallEngine.next C P parseIp)
          (Unseen (CallEngine.next C P parseIp) CallEngine.Foreign) e is := by
    induction is generalizing e with
    | nil => exact ⟨trivial, trivial⟩
    | cons i is ih =>
      have hu : e.Untouched P parseIp i ∧
          Unseen (CallEngine.next C P parseIp) CallEngine.Foreign e i := h.1.untouched
      exact ⟨⟨hu.1, (ih h.2).1⟩, hu.2, (ih h.2).2⟩
  exact ⟨(hgo h).1, fun js hj hp => seen_congr (hgo h).2 (hgo hj).2 hp⟩

/-- During a call of number 7 that we placed to Bob. -/
def withBob : CallEngine Bool where
  active := some
    { call :=
        { callId := 7
          state := .outgoing
          session := .newSignal .offerer ⟨"192.168.1.2", true, 40000⟩ "abcdefgh"
            "abcdefghijklmnopqrstuvwx" false [] [] none }
      peerAci := "bob"
      outgoing := true
      lastState := .outgoing }

def fromMallory (cm : CallMessage) : InboundCall Bool where
  cm := cm
  sender := "mallory"
  myIdentity := []
  senderIdentity := []
  myDeviceId := 1
  bound := .error "bind udp"
  now := 0
  agent := fun _ _ => none

/-- Mallory calls. -/
def foreignOffer : InboundCall Bool := fromMallory { offer := some ⟨some 9, some []⟩ }

theorem nobody_else_sample :
    Goes (CallEngine.next sampleCrypto sampleProst fun _ => none)
      (CallEngine.Untouched sampleProst fun _ => none) withBob [.message foreignOffer] := by
  refine (nobody_else _ _ (fun _ => none) withBob [.message foreignOffer] ?_).1
  refine ⟨fun a _ _ sig hs => ?_, trivial⟩
  cases List.mem_singleton.1 hs
  exact trivial

/-- Mallory says that she is busy, in a call of her own. It is noted that Bob was. -/
theorem foreign_busy :
    ¬ withBob.Untouched sampleProst (fun _ => none)
      (.message (fromMallory { busy := some ⟨some 9⟩ })) := by
  intro h
  have hb := congrArg (fun e => e.active.map (·.busy)) (h _ rfl (.inl (by decide))).1
  exact absurd hb (by decide)

end Wandr.Signal
