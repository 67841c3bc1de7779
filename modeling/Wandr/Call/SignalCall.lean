import Wandr.Call.PeerState

/-!
# A Signal call

A Signal call is a session and where the call stands. The ends tell each other of the call
by signals: the caller offers, the callee answers once the user accepts, both send the
candidates they find, and either hangs up.

The other end gives up a call whose candidates come before the offer or the answer. A
candidate may be found at any moment, that of the relay by a timer.

* `SignalCall.signals_in_order`: the signals of a call come in the order the other end
  expects, no candidate twice, and the call only moves forward.
-/

namespace Wandr

/-- Where a call stands. -/
inductive CallState
  | outgoing
  | ringing
  | connecting
  | connected
  | ended
  deriving DecidableEq

/-- Why a call ended. -/
inductive HangupKind
  | normal
  | accepted
  | declined
  | busy
  deriving DecidableEq

/-- What the ends of a call send each other. -/
inductive CallSignal
  | offer (callId : UInt64) (blob : List UInt8)
  | answer (callId : UInt64) (blob : List UInt8)
  | ice (callId : UInt64) (blob : List UInt8)
  | hangup (callId : UInt64) (kind : HangupKind)
  | busy (callId : UInt64)
  deriving DecidableEq

def CallSignal.callId : CallSignal → UInt64
  | .offer callId _ => callId
  | .answer callId _ => callId
  | .ice callId _ => callId
  | .hangup callId _ => callId
  | .busy callId => callId

/-- A call between two ends. -/
structure SignalCall (Secret : Type) where
  callId : UInt64
  state : CallState
  session : PeerSession Secret
  pendingOffer : Option Signaling := none
  out : List CallSignal := []

namespace SignalCall

variable {Secret : Type} (C : Crypto Secret) (P : Prost)
  (parseIp : String → Option (String × Bool))

/-- Queue candidates. -/
def queueLocalCandidates (c : SignalCall Secret) (candidates : List String) : SignalCall Secret :=
  { c with out := c.out ++ candidates.map fun line => .ice c.callId (encodeIceCandidate P line) }

/-- Place a call. -/
def place (callId : UInt64) (localAddr : SocketAddr) (ufrag pwd : String) (secret : Secret)
    (callerIdentity calleeIdentity : List UInt8) (turn : Option SocketAddr) :
    Except CallError (SignalCall Secret) :=
  let session : PeerSession Secret :=
    .newSignal .offerer localAddr ufrag pwd secret callerIdentity calleeIdentity turn
  let sig := session.localSignaling C
  match encodeOffer P sig with
  | .error e => .error e
  | .ok blob =>
    let c : SignalCall Secret :=
      { callId, state := .outgoing, session, out := [.offer callId blob] }
    .ok (c.queueLocalCandidates P sig.candidates)

/-- A call comes in. -/
def incoming (callId : UInt64) (localAddr : SocketAddr) (ufrag pwd : String) (secret : Secret)
    (callerIdentity calleeIdentity offerBlob : List UInt8) (turn : Option SocketAddr) :
    Except CallError (SignalCall Secret) :=
  let session : PeerSession Secret :=
    .newSignal .answerer localAddr ufrag pwd secret callerIdentity calleeIdentity turn
  match decodeOffer P offerBlob with
  | .error e => .error e
  | .ok offer => .ok { callId, state := .ringing, session, pendingOffer := some offer }

/-- The user accepts the call; `ice` is the agent if it starts the checks. -/
def accept (c : SignalCall Secret) (now : Nat) (ice : Option Agent) :
    SignalCall Secret × Except CallError Unit :=
  if c.state ≠ .ringing then (c, .ok ())
  else match c.pendingOffer with
    | none => (c, .ok ())
    | some offer =>
      let c := { c with pendingOffer := none }
      match c.session.setRemoteSignaling parseIp now offer ice with
      | (session, .error e) => ({ c with session }, .error e)
      | (session, .ok ()) =>
        let c := { c with session }
        let sig := c.session.localSignaling C
        match encodeAnswer P sig with
        | .error e => (c, .error e)
        | .ok blob =>
          let c := { c with out := c.out ++ [CallSignal.answer c.callId blob] }
          ({ c.queueLocalCandidates P sig.candidates with state := .connecting }, .ok ())

/-- Take a signal of the other end, if it is of this call; `ice` is the agent after it. -/
def onSignal (c : SignalCall Secret) (now : Nat) (sig : CallSignal) (ice : Option Agent) :
    SignalCall Secret × Except CallError Unit :=
  if sig.callId ≠ c.callId then (c, .ok ())
  else match sig with
    | .answer _ blob =>
      if c.state = .outgoing then
        match decodeAnswer P blob with
        | .error e => (c, .error e)
        | .ok answer =>
          match c.session.setRemoteSignaling parseIp now answer ice with
          | (session, .error e) => ({ c with session }, .error e)
          | (session, .ok ()) => ({ c with session, state := .connecting }, .ok ())
      else (c, .ok ())
    | .ice _ blob =>
      match decodeIceCandidate P blob with
      | .error e => (c, .error e)
      | .ok none => (c, .ok ())
      | .ok (some line) =>
        let (session, r) := c.session.addRemoteCandidate parseIp line ice
        ({ c with session }, r)
    | .hangup _ _ => ({ c with state := .ended }, .ok ())
    | .busy _ => ({ c with state := .ended }, .ok ())
    | .offer _ _ => (c, .ok ())

/-- The user hangs up. -/
def hangup (c : SignalCall Secret) : SignalCall Secret :=
  if c.state ≠ .ended then
    { c with out := c.out ++ [.hangup c.callId .normal], state := .ended }
  else c

/-- Drain the signals. -/
def pollSignals (c : SignalCall Secret) : SignalCall Secret × List CallSignal :=
  ({ c with out := [] }, c.out)

/-- Drain the datagrams. -/
def pollTransmit (c : SignalCall Secret) (a : PollAnswer) :
    SignalCall Secret × List (SocketAddr × List UInt8) :=
  if c.state = .ended then (c, [])
  else
    let (session, out) := c.session.pollTransmit C a
    ({ c with session }, out)

/-- Take a datagram from the socket. -/
def handleDatagram (c : SignalCall Secret) (src : SocketAddr) (data : List UInt8)
    (turn : List TurnEvent) (answer : Nat → ReadAnswer) (a : MediaAnswer) :
    SignalCall Secret × Except CallError Unit :=
  let (session, r) := c.session.handleDatagram P src data turn answer a
  ({ c with session }, r)

/-- Queue new candidates, unless the call ended or the user did not accept it yet. -/
def trickle (c : SignalCall Secret) : SignalCall Secret :=
  if c.state = .ended ∨ c.state = .ringing then c
  else
    let (session, lines) := c.session.takeNewLocalCandidates
    ({ c with session } : SignalCall Secret).queueLocalCandidates P lines

/-- The call is connected once the session is. -/
def connect (c : SignalCall Secret) : SignalCall Secret :=
  if c.state = .connecting ∧ c.session.isConnected then { c with state := .connected } else c

/-- The call ended if the other end hung up on the media path. -/
def heedHangup (c : SignalCall Secret) : SignalCall Secret :=
  let (session, hungUp) := c.session.takePeerRtpHangup
  let c := { c with session }
  if hungUp ∧ c.state ≠ .ended then { c with state := .ended } else c

def handleTimeout (c : SignalCall Secret) (now : Nat) (a : SessionTimeout) : SignalCall Secret :=
  ({ c with session := c.session.handleTimeout C P now a }.trickle P).connect.heedHangup

end SignalCall

/-! ## Candidates -/

/-- The line of a relayed candidate. -/
def IsRelayLine (line : String) : Prop := ∃ relayed base, line = relayCandidateString relayed base

/-- A host candidate is no relayed one. -/
theorem not_isRelayLine (addr : SocketAddr) : ¬ IsRelayLine (candidateString addr) := by
  rintro ⟨relayed, base, h⟩
  have hh : (candidateString addr).toList[8]? = some '2' := by
    unfold candidateString
    simp only [String.toList_append, List.append_assoc]
    rw [List.getElem?_append_left (by decide)]
    rfl
  have hr : (relayCandidateString relayed base).toList[8]? = some '1' := by
    unfold relayCandidateString
    simp only [String.toList_append, List.append_assoc]
    rw [List.getElem?_append_left (by decide)]
    rfl
  rw [h, hr] at hh
  exact absurd hh (by decide)

/-- Whether the TURN client announces an address. -/
def TurnEvent.isAllocate : TurnEvent → Bool
  | .allocateResponse _ => true
  | _ => false

/-- At most so many lines were added, all of them of relayed candidates. -/
def Gathers (n : Nat) (lines lines' : List String) : Prop :=
  ∃ new, lines' = lines ++ new ∧ new.length ≤ n ∧ ∀ line ∈ new, IsRelayLine line

theorem Gathers.refl (lines : List String) : Gathers 0 lines lines :=
  ⟨[], (List.append_nil _).symm, le_rfl, nofun⟩

theorem Gathers.trans {m n : Nat} {l l' l'' : List String} (h : Gathers m l l')
    (h' : Gathers n l' l'') : Gathers (m + n) l l'' := by
  obtain ⟨new, rfl, hn, hr⟩ := h
  obtain ⟨new', rfl, hn', hr'⟩ := h'
  refine ⟨new ++ new', List.append_assoc .., ?_, fun line hl => ?_⟩
  · rw [List.length_append]
    omega
  · exact (List.mem_append.1 hl).elim (hr line) (hr' line)

theorem Gathers.mono {m n : Nat} {l l' : List String} (h : Gathers m l l') (hmn : m ≤ n) :
    Gathers n l l' :=
  let ⟨new, he, hn, hr⟩ := h
  ⟨new, he, hn.trans hmn, hr⟩

namespace RelayState

theorem permit_newCandidates (r : RelayState) (addr : SocketAddr) :
    (r.permit addr).newCandidates = r.newCandidates := by
  unfold permit
  split
  · rfl
  · split <;> rfl

theorem permit_foldl_newCandidates (addrs : List SocketAddr) (r : RelayState) :
    (addrs.foldl permit r).newCandidates = r.newCandidates := by
  induction addrs generalizing r with
  | nil => rfl
  | cons addr addrs ih => rw [List.foldl_cons, ih, permit_newCandidates]

theorem onEvent_gathers (r : RelayState) (e : TurnEvent) :
    Gathers ([e].countP TurnEvent.isAllocate) r.newCandidates (r.onEvent e).newCandidates := by
  cases e with
  | allocateResponse relayed =>
    rw [onEvent, permit_foldl_newCandidates]
    exact ⟨[_], rfl, le_rfl, fun line hl => ⟨relayed, r.localAddr, List.mem_singleton.1 hl⟩⟩
  | dataIndicationOrChannelData peer data =>
    rw [onEvent]
    dsimp only
    rw [permit_newCandidates]
    exact .refl _
  | other => exact .refl _

theorem drainEvents_gathers (events : List TurnEvent) (r : RelayState) :
    Gathers (events.countP TurnEvent.isAllocate) r.newCandidates
      (r.drainEvents events).newCandidates := by
  induction events generalizing r with
  | nil => exact .refl _
  | cons e events ih =>
    rw [← List.singleton_append, List.countP_append, List.singleton_append, drainEvents,
      List.foldl_cons]
    exact (r.onEvent_gathers e).trans (ih _)

theorem sendVia_newCandidates (r : RelayState) (bytes : List UInt8) (peer : SocketAddr) :
    (r.sendVia bytes peer).newCandidates = r.newCandidates := by
  unfold sendVia
  split <;> rfl

end RelayState

namespace Transport

variable {Secret : Type} {C : Crypto Secret} {t : Transport Secret}

/-- The lines of local candidates that the other end was not told of yet. -/
def gathered (t : Transport Secret) : List String := (t.relay.map (·.newCandidates)).getD []

theorem gathered_congr {t' : Transport Secret} (h : t'.relay = t.relay) :
    t'.gathered = t.gathered := by rw [gathered, gathered, h]

theorem modifyRelay_gathered {f : RelayState → RelayState}
    (hf : ∀ r, (f r).newCandidates = r.newCandidates) :
    (t.modifyRelay f).gathered = t.gathered := by
  unfold modifyRelay gathered
  cases t.relay with
  | none => rfl
  | some r => exact hf r

theorem setRemote_gathered {now : Nat} {fingerprint : String}
    {remotePublic : Option (List UInt8)} {remotes : List SocketAddr} {ice : Option Agent} :
    (t.setRemote now fingerprint remotePublic remotes ice).1.gathered = t.gathered := by
  have hk : ∀ t', t.setRemoteKeying fingerprint remotePublic = .ok t' → t'.relay = t.relay := by
    intro t' h
    obtain ⟨keying, rfl⟩ := setRemoteKeying_eq h
    rfl
  unfold setRemote
  split
  · rfl
  · next t' h =>
    have hg := (modifyRelay_gathered (t := t') fun r => r.permit_foldl_newCandidates
      (remotes.filter fun r => r.isIpv4 = t'.localAddr.isIpv4)).trans (gathered_congr (hk t' h))
    cases ice <;> exact hg

theorem addRemoteCandidate_gathered {addr : SocketAddr} {ice : Option Agent} :
    (t.addRemoteCandidate addr ice).1.gathered = t.gathered := by
  have hg := modifyRelay_gathered (t := t) fun r => r.permit_newCandidates addr
  unfold addRemoteCandidate
  split
  · rfl
  · cases ice <;> exact hg

theorem takeNewLocalCandidates_gathered :
    t.takeNewLocalCandidates.1.gathered = [] ∧ t.takeNewLocalCandidates.2 = t.gathered := by
  unfold takeNewLocalCandidates gathered
  cases hr : t.relay with
  | none => exact ⟨by rw [hr]; rfl, rfl⟩
  | some r => exact ⟨rfl, rfl⟩

theorem demuxPayload_relay {data : List UInt8} {a : ReadAnswer} :
    (t.demuxPayload data a).1.relay = t.relay := by
  have hd {state : Option DtlsState} : (t.onDtlsDone state).1.relay = t.relay := by
    unfold onDtlsDone
    repeat' (first | rfl | split)
  unfold demuxPayload
  repeat' (first | rfl | exact hd | split)

theorem handleDatagram_gathers {src : SocketAddr} {data : List UInt8} {turn : List TurnEvent}
    {answer : Nat → ReadAnswer} :
    Gathers (turn.countP TurnEvent.isAllocate) t.gathered
      (t.handleDatagram src data turn answer).1.gathered := by
  have hp : Gathers (turn.countP TurnEvent.isAllocate) t.gathered
      (t.demuxPayload data (answer 0)).1.gathered := by
    rw [gathered_congr demuxPayload_relay]
    exact (Gathers.refl _).mono (Nat.zero_le _)
  unfold handleDatagram
  cases hr : t.relay with
  | none => exact hp
  | some r =>
    dsimp only
    split
    · rw [gathered_congr (demuxRelayed_frame fun _ _ _ => demuxPayload_relay), gathered, hr]
      exact r.drainEvents_gathers turn
    · exact hp

theorem timedOut_relay {now : Nat} {a : TimeoutAnswer} :
    (t.timedOut now a).relay = t.relay.map (·.drainEvents a.turn) := by
  have hs (t' : Transport Secret) : (t'.selfSelect now a.selfSelected).relay = t'.relay := by
    unfold selfSelect
    split
    · split <;> rfl
    · rfl
  have hd (t' : Transport Secret) : (t'.dtlsTimeout a.dtls).relay = t'.relay := by
    unfold dtlsTimeout
    split
    · split <;> rfl
    · rfl
  unfold timedOut
  dsimp only
  rw [hs]
  obtain ⟨b, hb⟩ := (({ t with ice := a.ice }.dtlsTimeout a.dtls).modifyRelay
    (·.drainEvents a.turn)).ensureRelayLocalCandidate_eq a.added
  rw [hb, modifyRelay, hd]

theorem handleTimeout_gathers {now : Nat} {a : TimeoutAnswer} :
    Gathers (a.turn.countP TurnEvent.isAllocate) t.gathered
      (t.handleTimeout C now a).gathered := by
  have hg : (t.handleTimeout C now a).gathered = (t.timedOut now a).gathered :=
    gathered_congr maybeAdvance_relay
  rw [hg, gathered, gathered, timedOut_relay]
  cases t.relay with
  | none => exact (Gathers.refl _).mono (Nat.zero_le _)
  | some r => exact r.drainEvents_gathers a.turn

theorem pollTransmit_gathered {a : PollAnswer} :
    (t.pollTransmit C a).1.gathered = t.gathered := by
  have hw (t' : Transport Secret) (sent : List Sent) : (t'.wrap sent).gathered = t'.gathered := by
    refine modifyRelay_gathered fun r => ?_
    generalize sent.filter (·.viaRelay) = l
    induction l generalizing r with
    | nil => rfl
    | cons x l ih => rw [List.foldl_cons, ih, RelayState.sendVia_newCandidates]
  have hp : ({ t with ice := a.ice }.maybeAdvance C |>.ensureRelayLocalCandidate a.added).relay =
      t.relay := by
    obtain ⟨b, hb⟩ := ({ t with ice := a.ice }.maybeAdvance C).ensureRelayLocalCandidate_eq a.added
    rw [hb]
    exact maybeAdvance_relay
  unfold pollTransmit
  dsimp only
  generalize ({ t with ice := a.ice }.maybeAdvance C).ensureRelayLocalCandidate a.added = t' at hp ⊢
  cases t'.keying with
  | dtls d => exact (hw _ _).trans (gathered_congr hp)
  | signal k => exact (hw _ _).trans (gathered_congr hp)

end Transport

/-! ## The lines of a session -/

namespace PeerSession

variable {Secret : Type} {C : Crypto Secret} {P : Prost}
  {parseIp : String → Option (String × Bool)} {s : PeerSession Secret}

/-- The lines of local candidates that the other end was not told of yet. -/
def gathered (s : PeerSession Secret) : List String := s.transport.gathered

theorem setRemoteSignaling_gathered {now : Nat} {remote : Signaling} {ice : Option Agent} :
    (s.setRemoteSignaling parseIp now remote ice).1.gathered = s.gathered :=
  Transport.setRemote_gathered

theorem addRemoteCandidate_gathered {candidate : String} {ice : Option Agent} :
    (s.addRemoteCandidate parseIp candidate ice).1.gathered = s.gathered := by
  unfold addRemoteCandidate
  split
  · exact Transport.addRemoteCandidate_gathered
  · rfl

theorem handleDatagram_gathers {src : SocketAddr} {data : List UInt8} {turn : List TurnEvent}
    {answer : Nat → ReadAnswer} {a : MediaAnswer} :
    Gathers (turn.countP TurnEvent.isAllocate) s.gathered
      (s.handleDatagram P src data turn answer a).1.gathered := by
  obtain ⟨keys, hk⟩ := handleDatagram_transport (P := P) (s := s) src data turn answer a
  rw [gathered, gathered, hk]
  exact Transport.handleDatagram_gathers

theorem handleTimeout_gathers {now : Nat} {a : SessionTimeout} :
    Gathers (a.turn.countP TurnEvent.isAllocate) s.gathered
      (s.handleTimeout C P now a).gathered := by
  obtain ⟨keys, mediaOut, hk⟩ := handleTimeout_transport (C := C) (P := P) (s := s) now a
  rw [gathered, gathered, hk]
  exact Transport.handleTimeout_gathers

end PeerSession

/-! ## Runs of a call -/

/-- What happens to a call. -/
inductive CallInput
  | accept (now : Nat) (ice : Option Agent)
  | onSignal (now : Nat) (sig : CallSignal) (ice : Option Agent)
  | hangup
  | timeout (now : Nat) (a : SessionTimeout)
  | pollSignals
  | pollTransmit (a : PollAnswer)
  | datagram (src : SocketAddr) (data : List UInt8) (turn : List TurnEvent)
    (answer : Nat → ReadAnswer) (a : MediaAnswer)

/-- What the TURN client tells at an input. -/
def CallInput.turn : CallInput → List TurnEvent
  | .timeout _ a => a.turn
  | .datagram _ _ turn _ _ => turn
  | _ => []

/-- How far a call got. -/
def CallState.rank : CallState → Nat
  | .outgoing => 0
  | .ringing => 0
  | .connecting => 1
  | .connected => 2
  | .ended => 3

/-- A state comes after another one, or is the same. -/
def CallState.Forward (a b : CallState) : Prop := a = b ∨ a.rank < b.rank

theorem CallState.Forward.refl (a : CallState) : Forward a a := .inl rfl

theorem CallState.Forward.trans {a b c : CallState} (h : Forward a b) (h' : Forward b c) :
    Forward a c := by
  rcases h with rfl | h
  · exact h'
  · rcases h' with rfl | h'
    · exact .inr h
    · exact .inr (h.trans h')

theorem CallState.forward_ended (a : CallState) : Forward a .ended := by
  cases a <;> first | exact .inl rfl | exact .inr (by decide)

theorem CallState.Forward.eq_ended {b : CallState} (h : Forward .ended b) : b = .ended := by
  rcases h with rfl | h
  · rfl
  · exact absurd h (by cases b <;> decide)

namespace SignalCall

variable {Secret : Type} (C : Crypto Secret) (P : Prost)
  (parseIp : String → Option (String × Bool))

/-- The calls before anything happened to them, by the role in them. -/
inductive Begun : CallRole → SignalCall Secret → Prop
  | place {callId : UInt64} {localAddr : SocketAddr} {ufrag pwd : String} {secret : Secret}
    {callerIdentity calleeIdentity : List UInt8} {turn : Option SocketAddr}
    {c : SignalCall Secret} :
    place C P callId localAddr ufrag pwd secret callerIdentity calleeIdentity turn = .ok c →
      Begun .offerer c
  | incoming {callId : UInt64} {localAddr : SocketAddr} {ufrag pwd : String} {secret : Secret}
    {callerIdentity calleeIdentity offerBlob : List UInt8} {turn : Option SocketAddr}
    {c : SignalCall Secret} :
    incoming P callId localAddr ufrag pwd secret callerIdentity calleeIdentity offerBlob turn =
      .ok c → Begun .answerer c

/-- What a call becomes of an input. -/
def next (c : SignalCall Secret) : CallInput → SignalCall Secret
  | .accept now ice => (c.accept C P parseIp now ice).1
  | .onSignal now sig ice => (c.onSignal P parseIp now sig ice).1
  | .hangup => c.hangup
  | .timeout now a => c.handleTimeout C P now a
  | .pollSignals => c.pollSignals.1
  | .pollTransmit a => (c.pollTransmit C a).1
  | .datagram src data turn answer a => (c.handleDatagram P src data turn answer a).1

/-- The signals that an input drains. -/
def drained (c : SignalCall Secret) : CallInput → List CallSignal
  | .pollSignals => c.pollSignals.2
  | _ => []

/-- The call, and the signals drained of it. -/
def watch (s : SignalCall Secret × List CallSignal) (i : CallInput) :
    SignalCall Secret × List CallSignal :=
  (s.1.next C P parseIp i, s.2 ++ s.1.drained i)

/-- The first signal of an end. -/
def opening (callId : UInt64) (blob : List UInt8) : CallRole → CallSignal
  | .offerer => .offer callId blob
  | .answerer => .answer callId blob

/-- The signals of an end up to now: the first one and those of the candidates, if the first
    one was sent, and then that of hanging up, if the user did. -/
def script (role : CallRole) (callId : UInt64) (blob : List UInt8) (lines : Option (List String))
    (hung : Bool) : List CallSignal :=
  (match lines with
    | none => []
    | some lines =>
      opening callId blob role :: lines.map fun line => .ice callId (encodeIceCandidate P line)) ++
    if hung then [.hangup callId .normal] else []

/-- The signals come in the order the other end expects: the offer of a caller, the answer of
    a callee if it accepted; the candidates after it, none twice; and that the user hung up. -/
def InOrder (role : CallRole) (callId : UInt64) (log : List CallSignal) : Prop :=
  ∃ blob lines hung, log = script P role callId blob lines hung ∧
    (role = .offerer → lines ≠ none) ∧ ∀ l, lines = some l → l.Nodup

/-- The lines of the candidates that were sent: that of the host, and those of relays. -/
def sentLines (sent : Option (SocketAddr × List String)) : Option (List String) :=
  sent.map fun p => candidateString p.1 :: p.2

/-- The lines of relays among them. -/
def sentRelays (sent : Option (SocketAddr × List String)) : List String :=
  (sent.map (·.2)).getD []

/-- What holds of a call in a run: what was drained and what is still to be drained are the
    signals of an end, the user hung up only if the call ended, the first signal was sent
    unless the call rings or ended, and there are at most so many relayed candidates. -/
structure Keeps (role : CallRole) (callId : UInt64) (n : Nat) (blob : List UInt8)
    (sent : Option (SocketAddr × List String)) (hung : Bool)
    (s : SignalCall Secret × List CallSignal) : Prop where
  id : s.1.callId = callId
  log : s.2 ++ s.1.out = script P role callId blob (sentLines sent) hung
  ended : hung → s.1.state = .ended
  opened : sent = none → role = .answerer ∧ (s.1.state = .ringing ∨ s.1.state = .ended)
  unopened : s.1.state = .ringing → sent = none
  count : (sentRelays sent ++ s.1.session.gathered).length ≤ n
  relay : ∀ line ∈ sentRelays sent ++ s.1.session.gathered, IsRelayLine line

/-- What holds of a call in a run. -/
def Kept (role : CallRole) (callId : UInt64) (n : Nat) (s : SignalCall Secret × List CallSignal) :
    Prop :=
  ∃ blob sent hung, Keeps P role callId n blob sent hung s

variable {C P parseIp} {role : CallRole} {callId : UInt64} {n m : Nat} {c : SignalCall Secret}
  {log : List CallSignal}

/-- The session may find candidates. -/
theorem Kept.session {session : PeerSession Secret} (h : Kept P role callId n (c, log))
    (hg : Gathers m c.session.gathered session.gathered) :
    Kept P role callId (n + m) ({ c with session }, log) := by
  obtain ⟨blob, sent, hung, h⟩ := h
  obtain ⟨new, hnew, hm, hr⟩ := hg
  refine ⟨blob, sent, hung, h.id, h.log, h.ended, h.opened, h.unopened, ?_, ?_⟩
  · have := h.count
    rw [hnew, ← List.append_assoc, List.length_append]
    exact Nat.add_le_add this hm
  · rw [hnew, ← List.append_assoc]
    exact fun line hl => (List.mem_append.1 hl).elim (h.relay line) (hr line)

theorem Kept.session_eq {session : PeerSession Secret} (h : Kept P role callId n (c, log))
    (hg : session.gathered = c.session.gathered) :
    Kept P role callId n ({ c with session }, log) :=
  h.session (m := 0) (hg ▸ .refl _)

theorem Kept.mono {s : SignalCall Secret × List CallSignal} (h : Kept P role callId n s)
    (hnm : n ≤ m) : Kept P role callId m s :=
  let ⟨blob, sent, hung, h⟩ := h
  ⟨blob, sent, hung, h.id, h.log, h.ended, h.opened, h.unopened, h.count.trans hnm, h.relay⟩

/-- The call may end. -/
theorem Kept.ending (h : Kept P role callId n (c, log)) :
    Kept P role callId n ({ c with state := .ended }, log) :=
  let ⟨blob, sent, hung, h⟩ := h
  ⟨blob, sent, hung, h.id, h.log, fun _ => rfl, fun hs => ⟨(h.opened hs).1, .inr rfl⟩, nofun,
    h.count, h.relay⟩

/-- A call that was opened and did not end may go on. -/
theorem Kept.advance {state : CallState} (h : Kept P role callId n (c, log))
    (hr : c.state ≠ .ringing) (he : c.state ≠ .ended) (hs : state ≠ .ringing) :
    Kept P role callId n ({ c with state }, log) := by
  obtain ⟨blob, sent, hung, h⟩ := h
  refine ⟨blob, sent, hung, h.id, h.log, fun hh => absurd (h.ended hh) he, fun hn => ?_,
    fun h => absurd h hs, h.count, h.relay⟩
  rcases (h.opened hn).2 with h | h
  · exact absurd h hr
  · exact absurd h he

theorem Kept.forget (h : Kept P role callId n (c, log)) :
    Kept P role callId n ({ c with pendingOffer := none }, log) :=
  let ⟨blob, sent, hung, h⟩ := h
  ⟨blob, sent, hung, h.id, h.log, h.ended, h.opened, h.unopened, h.count, h.relay⟩

/-- The callee answers, with the candidate of the host. -/
theorem Kept.answer {blob : List UInt8} {addr : SocketAddr} {c' : SignalCall Secret}
    (h : Kept P role callId n (c, log)) (hr : c.state = .ringing)
    (hc : c' = { c with out := c.out ++ [.answer c.callId blob] }) :
    Kept P role callId n
      ({ c'.queueLocalCandidates P [candidateString addr] with state := .connecting }, log) := by
  subst hc
  obtain ⟨blob', sent, hung, h⟩ := h
  obtain rfl := h.unopened hr
  obtain ⟨rfl, -⟩ := h.opened rfl
  have hh : hung = false := by
    cases hung with
    | true => exact absurd ((h.ended rfl).symm.trans hr) nofun
    | false => rfl
  subst hh
  have hid : c.callId = callId := h.id
  refine ⟨blob, some (addr, []), false, hid, ?_, nofun, nofun, nofun, h.count, h.relay⟩
  have hl : log ++ c.out = [] := h.log
  rw [queueLocalCandidates]
  dsimp only
  rw [hid, ← List.append_assoc, ← List.append_assoc, hl]
  rfl

theorem Kept.trickle (h : Kept P role callId n (c, log)) :
    Kept P role callId n (c.trickle P, log) := by
  unfold SignalCall.trickle
  split
  · exact h
  · next hs =>
    obtain ⟨blob, sent, hung, h⟩ := h
    obtain ⟨⟨addr, relays⟩, rfl⟩ : ∃ p, sent = some p := by
      cases sent with
      | none => exact absurd ((h.opened rfl).2.symm) hs
      | some p => exact ⟨p, rfl⟩
    have hh : hung = false := by
      cases hung with
      | true => exact absurd (.inl (h.ended rfl)) hs
      | false => rfl
    subst hh
    have hid : c.callId = callId := h.id
    obtain ⟨hg, hl⟩ := Transport.takeNewLocalCandidates_gathered (t := c.session.transport)
    have hg : c.session.takeNewLocalCandidates.1.gathered = [] := hg
    have hl : c.session.takeNewLocalCandidates.2 = c.session.gathered := hl
    generalize c.session.takeNewLocalCandidates = r at hg hl ⊢
    obtain ⟨session, lines⟩ := r
    dsimp only at hg hl
    subst hl
    have hlog : log ++ c.out = script P role callId blob (sentLines (some (addr, relays))) false :=
      h.log
    refine ⟨blob, some (addr, relays ++ c.session.gathered), false, hid, ?_, nofun, nofun,
      fun hr => absurd (.inr hr) hs, ?_, ?_⟩
    · change log ++ (c.out ++ _) = _
      rw [← List.append_assoc, hlog]
      simp [script, sentLines, hid]
    · change (_ ++ session.gathered).length ≤ n
      rw [hg, List.append_nil]
      exact h.count
    · change ∀ line ∈ _ ++ session.gathered, _
      rw [hg, List.append_nil]
      exact h.relay

theorem Kept.accept {now : Nat} {ice : Option Agent} (h : Kept P role callId n (c, log)) :
    Kept P role callId n ((c.accept C P parseIp now ice).1, log) := by
  unfold SignalCall.accept
  split
  · exact h
  · next hr =>
    have hr : c.state = .ringing := not_not.1 hr
    cases c.pendingOffer with
    | none => exact h
    | some offer =>
      have hg : (c.session.setRemoteSignaling parseIp now offer ice).1.gathered =
        c.session.gathered := PeerSession.setRemoteSignaling_gathered
      dsimp only
      split
      · next he =>
        rw [he] at hg
        exact h.forget.session_eq hg
      · next he =>
        rw [he] at hg
        split
        · exact h.forget.session_eq hg
        · exact (h.forget.session_eq hg).answer hr rfl

theorem Kept.onSignal {now : Nat} {sig : CallSignal} {ice : Option Agent}
    (h : Kept P role callId n (c, log)) :
    Kept P role callId n ((c.onSignal P parseIp now sig ice).1, log) := by
  unfold SignalCall.onSignal
  split
  · exact h
  · cases sig with
    | answer id blob =>
      dsimp only
      split
      · next ho =>
        split
        · exact h
        · next answer _ =>
          have hg : (c.session.setRemoteSignaling parseIp now answer ice).1.gathered =
            c.session.gathered := PeerSession.setRemoteSignaling_gathered
          split
          · next he =>
            rw [he] at hg
            exact h.session_eq hg
          · next he =>
            rw [he] at hg
            exact (h.session_eq hg).advance (by rw [ho]; nofun) (by rw [ho]; nofun) nofun
      · exact h
    | ice id blob =>
      dsimp only
      split
      · exact h
      · exact h
      · exact h.session_eq PeerSession.addRemoteCandidate_gathered
    | hangup => exact h.ending
    | busy => exact h.ending
    | offer => exact h

theorem Kept.hangup (h : Kept P role callId n (c, log)) :
    Kept P role callId n (c.hangup, log) := by
  unfold SignalCall.hangup
  split
  · next hs =>
    obtain ⟨blob, sent, hung, h⟩ := h
    have hh : hung = false := by
      cases hung with
      | true => exact absurd (h.ended rfl) hs
      | false => rfl
    subst hh
    have hid : c.callId = callId := h.id
    have hlog : log ++ c.out = script P role callId blob (sentLines sent) false := h.log
    refine ⟨blob, sent, true, hid, ?_, fun _ => rfl, fun hn => ⟨(h.opened hn).1, .inr rfl⟩, nofun,
      h.count, h.relay⟩
    change log ++ (c.out ++ _) = _
    rw [← List.append_assoc, hlog]
    simp [script, hid]
  · exact h

theorem Kept.connect (h : Kept P role callId n (c, log)) :
    Kept P role callId n (c.connect, log) := by
  unfold SignalCall.connect
  split
  · next hc => exact h.advance (by rw [hc.1]; nofun) (by rw [hc.1]; nofun) nofun
  · exact h

theorem Kept.heedHangup (h : Kept P role callId n (c, log)) :
    Kept P role callId n (c.heedHangup, log) := by
  have hs : Kept P role callId n ({ c with session := c.session.takePeerRtpHangup.1 }, log) :=
    h.session_eq rfl
  unfold SignalCall.heedHangup
  dsimp only
  split
  · exact hs.ending
  · exact hs

/-- What holds of a call is kept by each input. -/
theorem Kept.step {i : CallInput} (h : Kept P role callId n (c, log)) :
    Kept P role callId (n + i.turn.countP TurnEvent.isAllocate)
      (watch C P parseIp (c, log) i) := by
  unfold watch
  cases i with
  | accept => exact (List.append_nil log).symm ▸ h.accept
  | onSignal => exact (List.append_nil log).symm ▸ h.onSignal
  | hangup => exact (List.append_nil log).symm ▸ h.hangup
  | timeout now a =>
    exact (List.append_nil log).symm ▸
      ((h.session PeerSession.handleTimeout_gathers).trickle.connect).heedHangup
  | pollSignals =>
    obtain ⟨blob, sent, hung, h⟩ := h
    exact ⟨blob, sent, hung, h.id, (List.append_nil _).trans h.log, h.ended, h.opened, h.unopened,
      h.count, h.relay⟩
  | pollTransmit a =>
    refine (List.append_nil log).symm ▸ ?_
    unfold next SignalCall.pollTransmit
    dsimp only
    split
    · exact h
    · exact h.session_eq Transport.pollTransmit_gathered
  | datagram => exact (List.append_nil log).symm ▸ h.session PeerSession.handleDatagram_gathers

/-- A call only moves forward. -/
theorem forward (i : CallInput) : c.state.Forward (c.next C P parseIp i).state := by
  cases i with
  | accept now ice =>
    unfold next SignalCall.accept
    dsimp only
    split
    · exact .refl _
    · next hr =>
      have hr : c.state = .ringing := not_not.1 hr
      split
      · exact .refl _
      · split
        · exact .refl _
        · split
          · exact .refl _
          · exact .inr (by rw [hr]; exact Nat.zero_lt_one)
  | onSignal now sig ice =>
    unfold next SignalCall.onSignal
    dsimp only
    split
    · exact .refl _
    · cases sig with
      | answer id blob =>
        dsimp only
        split
        · next ho =>
          split
          · exact .refl _
          · split
            · exact .refl _
            · exact .inr (by rw [ho]; exact Nat.zero_lt_one)
        · exact .refl _
      | ice id blob =>
        dsimp only
        split <;> exact .refl _
      | hangup => exact CallState.forward_ended _
      | busy => exact CallState.forward_ended _
      | offer => exact .refl _
  | hangup =>
    unfold next SignalCall.hangup
    dsimp only
    split
    · exact CallState.forward_ended _
    · exact .refl _
  | timeout now a =>
    have ht (c : SignalCall Secret) : (c.trickle P).state = c.state := by
      unfold SignalCall.trickle
      split <;> rfl
    have hc (c : SignalCall Secret) : c.state.Forward c.connect.state := by
      unfold SignalCall.connect
      split
      · next hc => exact .inr (by rw [hc.1]; exact Nat.one_lt_two)
      · exact .refl _
    have hh (c : SignalCall Secret) : c.state.Forward c.heedHangup.state := by
      unfold SignalCall.heedHangup
      dsimp only
      split
      · exact CallState.forward_ended _
      · exact .refl _
    exact (ht { c with session := c.session.handleTimeout C P now a } ▸ hc _).trans (hh _)
  | pollSignals => exact .refl _
  | pollTransmit a =>
    unfold next SignalCall.pollTransmit
    dsimp only
    split <;> exact .refl _
  | datagram => exact .refl _

theorem Begun.kept (h : Begun C P role c) : Kept P role c.callId 0 (c, []) := by
  have hg (role : CallRole) (localAddr : SocketAddr) (ufrag pwd : String) (secret : Secret)
      (callerIdentity calleeIdentity : List UInt8) (turn : Option SocketAddr) :
      (PeerSession.newSignal role localAddr ufrag pwd secret callerIdentity calleeIdentity
        turn).gathered = [] := by
    cases turn <;> rfl
  cases h with
  | @place _ localAddr _ _ _ _ _ _ _ h =>
    unfold SignalCall.place at h
    dsimp only at h
    split at h
    · cases h
    · next blob _ =>
      cases h
      refine ⟨blob, some (localAddr, []), false, rfl, rfl, nofun, nofun, nofun, ?_, ?_⟩
      · exact (congrArg List.length (hg ..)).le
      · exact fun line hl => nomatch (hg ..) ▸ hl
  | incoming h =>
    unfold SignalCall.incoming at h
    dsimp only at h
    split at h
    · cases h
    · cases h
      refine ⟨[], none, false, rfl, rfl, nofun, fun _ => ⟨rfl, .inl rfl⟩, fun _ => rfl, ?_, ?_⟩
      · exact (congrArg List.length (hg ..)).le
      · exact fun line hl => nomatch (hg ..) ▸ hl

theorem Kept.run (h : Kept P role callId n (c, log)) (is : List CallInput) :
    Kept P role callId (n + (is.flatMap CallInput.turn).countP TurnEvent.isAllocate)
      (is.foldl (watch C P parseIp) (c, log)) := by
  induction is generalizing n c log with
  | nil => exact h
  | cons i is ih =>
    rw [List.flatMap_cons, List.countP_append, ← Nat.add_assoc, List.foldl_cons]
    exact ih h.step

/-- What was drained is in order when nothing is left. -/
theorem Kept.inOrder (h : Kept P role callId 1 (c, log)) (ho : c.out = []) :
    InOrder P role callId log := by
  obtain ⟨blob, sent, hung, h⟩ := h
  have hlog : log ++ c.out = script P role callId blob (sentLines sent) hung := h.log
  rw [ho, List.append_nil] at hlog
  refine ⟨blob, sentLines sent, hung, hlog, fun hr hn => ?_, fun l hl => ?_⟩
  · have hn : sent = none := Option.map_eq_none_iff.1 hn
    exact absurd (hr.symm.trans (h.opened hn).1) nofun
  · obtain ⟨⟨addr, relays⟩, rfl, rfl⟩ := Option.map_eq_some_iff.1 hl
    have hc := h.count
    have hr := h.relay
    rw [List.length_append] at hc
    refine List.nodup_cons.2 ⟨fun hm => ?_, ?_⟩
    · exact not_isRelayLine addr (hr _ (List.mem_append_left _ hm))
    · have hc : relays.length ≤ 1 := (Nat.le_add_right ..).trans hc
      match relays, hc with
      | [], _ => exact List.nodup_nil
      | [_], _ => exact List.nodup_singleton _

theorem run_forward (s : SignalCall Secret × List CallSignal) (is : List CallInput) :
    s.1.state.Forward (is.foldl (watch C P parseIp) s).1.state := by
  induction is generalizing s with
  | nil => exact .refl _
  | cons i is ih => exact (forward i).trans (ih (watch C P parseIp s i))

/-- In a run of a call whose TURN client announces an address at most once: once signals were
    drained, those that were are in order, each candidate among them once; the call only moves
    forward; and once it ended it stays so, and sends nothing. -/
theorem signals_in_order (h : Begun C P role c) (is : List CallInput)
    (hturn : (is.flatMap CallInput.turn).countP TurnEvent.isAllocate ≤ 1) :
    ((.pollSignals ∈ is → InOrder P role c.callId (is.foldl (watch C P parseIp) (c, [])).2) ∧
      (.pollSignals ∉ is → (is.foldl (watch C P parseIp) (c, [])).2 = [])) ∧
    ∀ js, (is.foldl (watch C P parseIp) (c, [])).1.state.Forward
        ((is ++ js).foldl (watch C P parseIp) (c, [])).1.state ∧
      ((is.foldl (watch C P parseIp) (c, [])).1.state = .ended →
        ((is ++ js).foldl (watch C P parseIp) (c, [])).1.state = .ended ∧
          ∀ a, (((is ++ js).foldl (watch C P parseIp) (c, [])).1.pollTransmit C a).2 = []) := by
  refine ⟨?_, fun js => ?_⟩
  · induction is using List.reverseRecOn with
    | nil => exact ⟨nofun, fun _ => rfl⟩
    | append_singleton is i ih =>
      have hle : (is.flatMap CallInput.turn).countP TurnEvent.isAllocate ≤ 1 := by
        rw [List.flatMap_append, List.countP_append] at hturn
        omega
      rw [List.foldl_append, List.foldl_cons, List.foldl_nil]
      generalize hs : is.foldl (watch C P parseIp) (c, []) = s at ih
      by_cases hi : i = .pollSignals
      · subst hi
        have hk : Kept P role c.callId 1 s := hs ▸ (h.kept.run is).mono (by rwa [Nat.zero_add])
        have hk' : Kept P role c.callId
            (1 + (CallInput.turn .pollSignals).countP TurnEvent.isAllocate)
            (watch C P parseIp s .pollSignals) := hk.step
        exact ⟨fun _ => hk'.inOrder rfl, fun hn => absurd (by simp) hn⟩
      · have hd : s.1.drained i = [] := by
          cases i with
          | pollSignals => exact absurd rfl hi
          | _ => rfl
        have hm : .pollSignals ∈ is ++ [i] ↔ .pollSignals ∈ is := by
          rw [List.mem_append, List.mem_singleton, or_iff_left (Ne.symm hi)]
        rw [hm, watch, hd, List.append_nil]
        exact ih hle
  · rw [List.foldl_append]
    generalize is.foldl (watch C P parseIp) (c, []) = s
    have hf : s.1.state.Forward (js.foldl (watch C P parseIp) s).1.state := run_forward s js
    refine ⟨hf, fun he => ?_⟩
    have he' := (he ▸ hf).eq_ended
    exact ⟨he', fun a => by rw [pollTransmit, if_pos he']⟩

/-- A caller whose relay is announced before the callee answers, and that hangs up. -/
def hangingUp : List CallInput :=
  [.timeout 0 { ice := {}, turn := [.allocateResponse ⟨"203.0.113.9", true, 50000⟩] },
    .pollSignals, .hangup, .pollSignals]

theorem signals_in_order_sample :
    ∃ c, place sampleCrypto sampleProst 7 ⟨"192.168.1.2", true, 40000⟩ "abcdefgh"
        "abcdefghijklmnopqrstuvwx" false [] [] (some ⟨"203.0.113.1", true, 3478⟩) = .ok c ∧
      InOrder sampleProst .offerer 7
        (hangingUp.foldl (watch sampleCrypto sampleProst fun _ => none) (c, [])).2 :=
  ⟨_, rfl, (signals_in_order (.place rfl) hangingUp (by decide)).1.1 (by simp [hangingUp])⟩

end SignalCall

end Wandr
