import Wandr.Call.Keying
import Wandr.Lib.Machine
import Wandr.Lib.Text

/-!
# The transport of a call

The transport of a call finds a way to the other end with an ICE agent, agrees on keys over
it, and sends the media. The agent checks pairs of a local and a remote candidate and
selects one of them; one local candidate may be an address that a TURN server relays for
the call, and what is sent from there is wrapped through the client of that server.

The agent, the DTLS endpoint and the TURN client are kept by libraries; what they answer is
an input of each call of the transport.
-/

namespace Wandr

/-- An address: the text of an IP of one of the two families, and a port. -/
structure SocketAddr where
  ip : String
  isIpv4 : Bool := true
  port : UInt16
  deriving DecidableEq

/-! ## The relay -/

/-- An event of the TURN client. -/
inductive TurnEvent
  | allocateResponse (relayed : SocketAddr)
  | dataIndicationOrChannelData (peer : SocketAddr) (data : List UInt8)
  | other
  deriving DecidableEq

/-- What the TURN client is asked for. -/
inductive TurnRequest
  | createPermission (relayed peer : SocketAddr)
  | sendTo (relayed : SocketAddr) (bytes : List UInt8) (peer : SocketAddr)
  deriving DecidableEq

/-- The line of a relayed address as a candidate. -/
def relayCandidateString (relayed base : SocketAddr) : String :=
  s!"1 1 udp 16777215 {relayed.ip} {relayed.port} typ relay raddr {base.ip} rport {base.port}"

/-- The address that a TURN server relays for the call, once it is allocated. -/
structure RelayState where
  turnServAddr : SocketAddr
  localAddr : SocketAddr
  relayedAddr : Option SocketAddr := none
  newCandidates : List String := []
  permitted : List SocketAddr := []
  pendingRemotes : List SocketAddr := []
  relayedIn : List (SocketAddr × List UInt8) := []
  requests : List TurnRequest := []
  deriving DecidableEq

namespace RelayState

/-- Let an address send to the relay, as soon as there is one. -/
def permit (r : RelayState) (addr : SocketAddr) : RelayState :=
  if addr ∈ r.permitted then r
  else match r.relayedAddr with
    | some relayed =>
      { r with
        requests := r.requests ++ [.createPermission relayed addr]
        permitted := addr :: r.permitted }
    | none => { r with pendingRemotes := r.pendingRemotes ++ [addr] }

/-- Take an event of the client. -/
def onEvent (r : RelayState) : TurnEvent → RelayState
  | .allocateResponse relayed =>
    let pending := r.pendingRemotes
    pending.foldl permit { r with
      relayedAddr := some relayed
      newCandidates := r.newCandidates ++ [relayCandidateString relayed r.localAddr]
      pendingRemotes := [] }
  | .dataIndicationOrChannelData peer data =>
    let r := r.permit peer
    { r with relayedIn := r.relayedIn ++ [(peer, data)] }
  | .other => r

/-- Take the events of the client in order. -/
def drainEvents (r : RelayState) (events : List TurnEvent) : RelayState := events.foldl onEvent r

/-- Send to an address through the relay. -/
def sendVia (r : RelayState) (bytes : List UInt8) (peer : SocketAddr) : RelayState :=
  match r.relayedAddr with
  | some relayed => { r with requests := r.requests ++ [.sendTo relayed bytes peer] }
  | none => r

end RelayState

/-! ## The libraries -/

/-- A datagram of a library, with the local address it is sent from. -/
structure Outgoing where
  localAddr : SocketAddr
  peerAddr : SocketAddr
  bytes : List UInt8
  deriving DecidableEq

/-- What the transport sees of the ICE agent: whether it is connected, the local and the
    remote candidate of the pair it selected, and what it has to send. -/
structure Agent where
  connected : Bool := false
  selected : Option (SocketAddr × SocketAddr) := none
  out : List Outgoing := []
  deriving DecidableEq

/-- The keys of a DTLS handshake: whether it was started, with whom, the fingerprints of both
    ends, and what the endpoint has to send. -/
structure DtlsKeying where
  isClient : Bool
  started : Bool := false
  connecting : Option SocketAddr := none
  fingerprint : String
  expectedRemoteFp : Option String := none
  out : List Outgoing := []
  deriving DecidableEq

/-- Start the handshake with an address, unless it is started; a server waits for it. -/
def DtlsKeying.start (d : DtlsKeying) (remote : SocketAddr) : DtlsKeying :=
  if d.started then d
  else { d with started := true, connecting := if d.isClient then some remote else d.connecting }

/-- The DTLS connection with an address: the fingerprint of the certificate of the other end
    and what is exported from the handshake. -/
structure DtlsState where
  peerFingerprint : Option String
  exported : Option (Bytes 60)

/-- How the keys are agreed on. -/
inductive Keying (Secret : Type)
  | dtls (d : DtlsKeying)
  | signal (s : SignalKeying Secret)

/-- What the libraries answer to a datagram: the agent after it, and whether the DTLS
    handshake is complete with it, of which connection. -/
structure ReadAnswer where
  ice : Agent
  dtls : Except String Bool := .ok false
  state : Option DtlsState := none

/-- What the libraries answer to a timeout: the agent after it, what the endpoint has to
    send, the events of the TURN client, whether the agent takes the relayed address for a
    candidate, and the agent if it selects the best pair by itself. -/
structure TimeoutAnswer where
  ice : Agent
  dtls : List Outgoing := []
  turn : List TurnEvent := []
  added : Bool := true
  selfSelected : Option Agent := none

/-- What the libraries answer to a poll: the agent, whether it takes the relayed address for
    a candidate, and the datagrams of the TURN client. -/
structure PollAnswer where
  ice : Agent
  added : Bool := true
  turn : List (SocketAddr × List UInt8) := []

/-! ## The transport -/

/-- The transport of an end of a call. An instant is a number of nanoseconds. -/
structure Transport (Secret : Type) where
  role : CallRole
  localAddr : SocketAddr
  remote : Option SocketAddr := none
  ice : Agent := {}
  keying : Keying Secret
  keys : Option (SrtpKeys × SrtpKeys) := none
  done : Bool := false
  mediaOut : List (List UInt8) := []
  relay : Option RelayState := none
  relayLocalAdded : Bool := false
  mediaViaRelay : Bool := false
  selfSelectAt : Option Nat := none

/-- What a datagram turns out to be. -/
inductive Demux
  | consumed
  | media (datagram : List UInt8)
  deriving DecidableEq

/-- A datagram on its way: where to, and whether it is wrapped through the TURN client. -/
structure Sent where
  dest : SocketAddr
  viaRelay : Bool
  datagram : List UInt8
  deriving DecidableEq

/-- What a poll drains: the datagrams of the agent and of the DTLS endpoint, the media, and
    what the TURN client sends. -/
structure Transmits where
  checks : List Sent
  media : List Sent
  turn : List (SocketAddr × List UInt8)

/-- The datagrams for the socket. -/
def Transmits.datagrams (x : Transmits) : List (SocketAddr × List UInt8) :=
  ((x.checks ++ x.media).filter fun s => !s.viaRelay).map (fun s => (s.dest, s.datagram)) ++ x.turn

namespace Transport

variable {Secret : Type} (C : Crypto Secret)

/-- How long the answerer waits for the other end to nominate a pair. -/
def answererSelfSelectGrace : Nat := 4000000000

/-- The transport of an end that agrees on keys by a DTLS handshake, of which the answerer is
    the client. -/
def new (role : CallRole) (localAddr : SocketAddr) (fingerprint : String) : Transport Secret where
  role
  localAddr
  keying := .dtls { isClient := role = .answerer, fingerprint }

/-- The transport of an end of a Signal call, with the TURN server that is to relay for it. -/
def newSignal (role : CallRole) (localAddr : SocketAddr) (secret : Secret)
    (callerIdentity calleeIdentity : List UInt8) (turn : Option SocketAddr) : Transport Secret where
  role
  localAddr
  keying := .signal { secret, callerIdentity, calleeIdentity }
  relay := turn.map fun turnServAddr => { turnServAddr, localAddr }

/-- The address that is relayed for the call. -/
def relayedAddr (t : Transport Secret) : Option SocketAddr := t.relay.bind (·.relayedAddr)

/-- Change the relay, if there is one. -/
def modifyRelay (t : Transport Secret) (f : RelayState → RelayState) : Transport Secret :=
  { t with relay := t.relay.map f }

/-- Offer the relayed address to the agent as a local candidate, once. -/
def ensureRelayLocalCandidate (t : Transport Secret) (added : Bool) : Transport Secret :=
  if t.relayLocalAdded ∨ t.relayedAddr = none then t else { t with relayLocalAdded := added }

/-- A fingerprint in the form that fingerprints are compared in. -/
def normalizeFp (fp : String) : String :=
  " ".intercalate (Text.splitWhitespace (String.ofList (fp.toList.map Char.toUpper)))

/-- The fingerprint to advertise. -/
def fingerprint (t : Transport Secret) : String :=
  match t.keying with
  | .dtls d => d.fingerprint
  | .signal _ => ""

/-- The public key to advertise. -/
def signalPublicKey (t : Transport Secret) : Option (Bytes 32) :=
  match t.keying with
  | .dtls _ => none
  | .signal s => some (s.signalPublicKey C)

/-- Take what the keys rest on from the signaling of the other end. -/
def setRemoteKeying (t : Transport Secret) (fingerprint : String)
    (remotePublic : Option (List UInt8)) : Except CallError (Transport Secret) :=
  match t.keying with
  | .dtls d =>
    .ok (if fingerprint = "" then t
      else { t with keying := .dtls { d with expectedRemoteFp := some (normalizeFp fingerprint) } })
  | .signal s => (s.setRemotePublic remotePublic).map fun s => { t with keying := .signal s }

/-- Apply the signaling of the other end, and start the checks; `ice` is the agent if it
    started them. -/
def setRemote (t : Transport Secret) (now : Nat) (fingerprint : String)
    (remotePublic : Option (List UInt8)) (remotes : List SocketAddr) (ice : Option Agent) :
    Transport Secret × Except CallError Unit :=
  match t.setRemoteKeying fingerprint remotePublic with
  | .error e => (t, .error e)
  | .ok t =>
    let reachable := remotes.filter fun r => r.isIpv4 = t.localAddr.isIpv4
    let t := t.modifyRelay fun r => reachable.foldl RelayState.permit r
    match ice with
    | none => (t, .error (.ice "start checks"))
    | some ice =>
      ({ t with
        ice
        selfSelectAt :=
          if t.role = .answerer then some (now + answererSelfSelectGrace) else t.selfSelectAt },
        .ok ())

/-- Take a candidate of the other end; `ice` is the agent if it takes it. -/
def addRemoteCandidate (t : Transport Secret) (addr : SocketAddr) (ice : Option Agent) :
    Transport Secret × Except CallError Unit :=
  if addr.isIpv4 ≠ t.localAddr.isIpv4 then (t, .ok ())
  else
    let t := t.modifyRelay (·.permit addr)
    match ice with
    | none => (t, .error (.ice "add remote candidate"))
    | some ice => ({ t with ice }, .ok ())

/-- The lines of new local candidates. -/
def takeNewLocalCandidates (t : Transport Secret) : Transport Secret × List String :=
  match t.relay with
  | some r => ({ t with relay := some { r with newCandidates := [] } }, r.newCandidates)
  | none => (t, [])

/-- The agent has a connection and the keys are agreed on. -/
def isConnected (t : Transport Secret) : Bool := t.ice.connected && t.done

/-- Once the agent has selected a pair, note where media goes, and agree on keys. -/
def maybeAdvance (t : Transport Secret) : Transport Secret :=
  if t.done ∨ ¬ t.ice.connected then t
  else match t.ice.selected with
    | none => t
    | some (localAddr, remote) =>
      let t := { t with
        remote := some remote
        mediaViaRelay := t.relayedAddr = some localAddr }
      match t.keying with
      | .dtls d => { t with keying := .dtls (d.start remote) }
      | .signal s =>
        match s.derive C t.role with
        | .ok keys => { t with keys := some keys, done := true }
        | .error _ => t

/-- The keys of a DTLS handshake that is complete. -/
def onDtlsDone (t : Transport Secret) (state : Option DtlsState) :
    Transport Secret × Except CallError Unit :=
  if t.done then (t, .ok ())
  else match t.keying with
    | .signal _ => (t, .ok ())
    | .dtls d =>
      match state with
      | none => (t, .error (.dtls "no state"))
      | some state =>
        match d.expectedRemoteFp, state.peerFingerprint with
        | some _, none => (t, .error (.dtls "no peer cert"))
        | expected, got =>
          if expected.isSome ∧ got ≠ expected then
            (t, .error (.dtls "peer fingerprint mismatch — possible MITM"))
          else match state.exported with
            | none => (t, .error (.dtls "export keys"))
            | some km => ({ t with keys := some (dtlsKeys t.role km), done := true }, .ok ())

/-- Tell a datagram by its first byte. -/
def demuxPayload (t : Transport Secret) (data : List UInt8) (a : ReadAnswer) :
    Transport Secret × Except CallError Demux :=
  match data.head? with
  | none => (t, .ok .consumed)
  | some b =>
    if b ≤ 3 then ({ t with ice := a.ice }, .ok .consumed)
    else if 20 ≤ b ∧ b ≤ 63 then
      match t.keying, a.dtls with
      | .signal _, _ => (t, .ok .consumed)
      | .dtls _, .error _ => (t, .error (.dtls "read"))
      | .dtls _, .ok false => (t, .ok .consumed)
      | .dtls _, .ok true =>
        let (t, r) := t.onDtlsDone a.state
        (t, r.map fun _ => .consumed)
    else if 128 ≤ b then (t, .ok (.media data))
    else (t, .ok .consumed)

/-- Tell the datagrams that came through the relay; the first that fails is the last. -/
def demuxRelayed (t : Transport Secret) (media : Option (List UInt8)) :
    List (SocketAddr × List UInt8) → (Nat → ReadAnswer) → Transport Secret × Except CallError Demux
  | [], _ => (t, .ok ((media.map Demux.media).getD .consumed))
  | (_, payload) :: rest, answer =>
    match t.demuxPayload payload (answer 0) with
    | (t, .error e) => (t, .error e)
    | (t, .ok .consumed) => t.demuxRelayed media rest fun n => answer (n + 1)
    | (t, .ok (.media m)) => t.demuxRelayed (some m) rest fun n => answer (n + 1)

/-- Take a datagram from the socket. What comes from the TURN server may carry several. -/
def handleDatagram (t : Transport Secret) (src : SocketAddr) (data : List UInt8)
    (turn : List TurnEvent) (answer : Nat → ReadAnswer) :
    Transport Secret × Except CallError Demux :=
  match t.relay with
  | some r =>
    if src = r.turnServAddr then
      let r := r.drainEvents turn
      { t with relay := some { r with relayedIn := [] } }.demuxRelayed none r.relayedIn answer
    else t.demuxPayload data (answer 0)
  | none => t.demuxPayload data (answer 0)

/-- A timeout of the DTLS endpoint, once it has a remote. -/
def dtlsTimeout (t : Transport Secret) (out : List Outgoing) : Transport Secret :=
  match t.keying with
  | .dtls d => if t.remote.isSome then { t with keying := .dtls { d with out } } else t
  | .signal _ => t

/-- Once the grace is over, let the agent select the best pair by itself, if it can. -/
def selfSelect (t : Transport Secret) (now : Nat) (selfSelected : Option Agent) :
    Transport Secret :=
  match t.selfSelectAt, selfSelected with
  | some deadline, some ice =>
    if deadline ≤ now then { t with ice, selfSelectAt := none } else t
  | _, _ => t

/-- A timeout, up to the look at the pair that the agent selected. -/
def timedOut (t : Transport Secret) (now : Nat) (a : TimeoutAnswer) : Transport Secret :=
  let t := { t with ice := a.ice }.dtlsTimeout a.dtls
  let t := t.modifyRelay (·.drainEvents a.turn)
  (t.ensureRelayLocalCandidate a.added).selfSelect now a.selfSelected

def handleTimeout (t : Transport Secret) (now : Nat) (a : TimeoutAnswer) : Transport Secret :=
  (t.timedOut now a).maybeAdvance C

/-- Queue media. -/
def queueMedia (t : Transport Secret) (dg : List UInt8) : Transport Secret :=
  { t with mediaOut := t.mediaOut ++ [dg] }

/-- How the datagrams of the libraries are sent: those from the relayed address through the
    relay. -/
def routeChecks (t : Transport Secret) (out : List Outgoing) : List Sent :=
  out.map fun o => ⟨o.peerAddr, some o.localAddr = t.relayedAddr, o.bytes⟩

/-- How the media is sent, once it is known where to. -/
def routeMedia (t : Transport Secret) : List Sent :=
  match t.remote with
  | none => []
  | some dest => t.mediaOut.map fun dg => ⟨dest, t.mediaViaRelay, dg⟩

/-- Wrap what goes through the relay. -/
def wrap (t : Transport Secret) (sent : List Sent) : Transport Secret :=
  t.modifyRelay fun r =>
    (sent.filter (·.viaRelay)).foldl (fun r s => r.sendVia s.datagram s.dest) r

/-- Drain what there is to send. -/
def pollTransmit (t : Transport Secret) (a : PollAnswer) : Transport Secret × Transmits :=
  let t := { t with ice := a.ice }.maybeAdvance C
  let t := t.ensureRelayLocalCandidate a.added
  let (t, out) := match t.keying with
    | .dtls d => ({ t with keying := .dtls { d with out := [] } }, t.ice.out ++ d.out)
    | .signal _ => (t, t.ice.out)
  let t := { t with ice := { t.ice with out := [] } }
  let checks := t.routeChecks out
  let media := t.routeMedia
  let t := t.wrap (checks ++ media)
  ({ t with mediaOut := if t.remote.isSome then [] else t.mediaOut }, ⟨checks, media, a.turn⟩)

/-! ## What stays -/

variable {C} {t : Transport Secret}

@[simp]
theorem maybeAdvance_ice : (t.maybeAdvance C).ice = t.ice := by
  unfold maybeAdvance
  repeat' (first | rfl | split | dsimp only)

@[simp]
theorem maybeAdvance_relay : (t.maybeAdvance C).relay = t.relay := by
  unfold maybeAdvance
  repeat' (first | rfl | split | dsimp only)

@[simp]
theorem maybeAdvance_mediaOut : (t.maybeAdvance C).mediaOut = t.mediaOut := by
  unfold maybeAdvance
  repeat' (first | rfl | split | dsimp only)

theorem ensureRelayLocalCandidate_eq (t : Transport Secret) (added : Bool) :
    ∃ b, t.ensureRelayLocalCandidate added = { t with relayLocalAdded := b } := by
  unfold ensureRelayLocalCandidate
  split
  · exact ⟨t.relayLocalAdded, rfl⟩
  · exact ⟨added, rfl⟩

/-- The signaling of the other end changes what the keys rest on. -/
theorem setRemoteKeying_eq {fingerprint : String} {remotePublic : Option (List UInt8)}
    {t' : Transport Secret} (h : t.setRemoteKeying fingerprint remotePublic = .ok t') :
    ∃ keying, t' = { t with keying } := by
  unfold setRemoteKeying at h
  split at h
  · cases h
    split
    · exact ⟨t.keying, rfl⟩
    · exact ⟨_, rfl⟩
  · next s _ =>
    cases hs : s.setRemotePublic remotePublic with
    | error e =>
      rw [hs] at h
      cases h
    | ok s' =>
      rw [hs] at h
      cases h
      exact ⟨_, rfl⟩

/-! ## The way the keys are agreed on -/

/-- The keys come with the signaling, as those of the ends of a Signal call. -/
def IsSignal (t : Transport Secret) : Prop := ∃ s, t.keying = .signal s

theorem IsSignal.congr {t' : Transport Secret} (h : t.IsSignal) (hk : t'.keying = t.keying) :
    t'.IsSignal :=
  h.imp fun _ hs => hk.trans hs

theorem IsSignal.setRemote (h : t.IsSignal) {now : Nat} {fingerprint : String}
    {remotePublic : Option (List UInt8)} {remotes : List SocketAddr} {ice : Option Agent} :
    (t.setRemote now fingerprint remotePublic remotes ice).1.IsSignal := by
  have hk : ∀ t', t.setRemoteKeying fingerprint remotePublic = .ok t' → t'.IsSignal := by
    intro t' ht
    obtain ⟨s, hs⟩ := h
    rw [setRemoteKeying, hs] at ht
    dsimp only at ht
    cases hr : s.setRemotePublic remotePublic with
    | error e =>
      rw [hr] at ht
      cases ht
    | ok s' =>
      rw [hr] at ht
      cases ht
      exact ⟨s', rfl⟩
  rw [Transport.setRemote]
  split
  · exact h
  · next t' ht => cases ice <;> exact (hk t' ht).congr rfl

theorem addRemoteCandidate_keying {addr : SocketAddr} {ice : Option Agent} :
    (t.addRemoteCandidate addr ice).1.keying = t.keying := by
  unfold addRemoteCandidate
  split
  · rfl
  · cases ice <;> rfl

theorem takeNewLocalCandidates_keying : t.takeNewLocalCandidates.1.keying = t.keying := by
  unfold takeNewLocalCandidates
  cases t.relay <;> rfl

theorem onDtlsDone_keying {state : Option DtlsState} :
    (t.onDtlsDone state).1.keying = t.keying := by
  unfold onDtlsDone
  repeat' (first | rfl | split)

theorem demuxPayload_keying {data : List UInt8} {a : ReadAnswer} :
    (t.demuxPayload data a).1.keying = t.keying := by
  unfold demuxPayload
  repeat' (first | rfl | exact onDtlsDone_keying | split)

/-- What each payload leaves alone, all of them do. -/
theorem demuxRelayed_frame {α : Type*} {f : Transport Secret → α}
    (hf : ∀ t data a, f (demuxPayload t data a).1 = f t) {media : Option (List UInt8)}
    {l : List (SocketAddr × List UInt8)} {answer : Nat → ReadAnswer} :
    f (t.demuxRelayed media l answer).1 = f t := by
  induction l generalizing t media answer with
  | nil => rfl
  | cons x l ih =>
    have hd := hf t x.2 (answer 0)
    unfold demuxRelayed
    split
    · next h => rwa [h] at hd
    · next h =>
      rw [h] at hd
      exact ih.trans hd
    · next h =>
      rw [h] at hd
      exact ih.trans hd

theorem handleDatagram_keying {src : SocketAddr} {data : List UInt8} {turn : List TurnEvent}
    {answer : Nat → ReadAnswer} :
    (t.handleDatagram src data turn answer).1.keying = t.keying := by
  unfold handleDatagram
  split
  · split
    · exact demuxRelayed_frame (f := keying) fun _ _ _ => demuxPayload_keying
    · exact demuxPayload_keying
  · exact demuxPayload_keying

theorem IsSignal.maybeAdvance (h : t.IsSignal) : (t.maybeAdvance C).IsSignal := by
  obtain ⟨s, hs⟩ := h
  unfold Transport.maybeAdvance
  split
  · exact ⟨s, hs⟩
  · cases t.ice.selected with
    | none => exact ⟨s, hs⟩
    | some p =>
      dsimp only
      rw [hs]
      dsimp only
      split <;> exact ⟨s, rfl⟩

theorem IsSignal.ensureRelayLocalCandidate (h : t.IsSignal) (added : Bool) :
    (t.ensureRelayLocalCandidate added).IsSignal := by
  obtain ⟨b, hb⟩ := t.ensureRelayLocalCandidate_eq added
  rw [hb]
  exact h

theorem IsSignal.handleTimeout (h : t.IsSignal) (now : Nat) (a : TimeoutAnswer) :
    (t.handleTimeout C now a).IsSignal := by
  have hd (t' : Transport Secret) (h' : t'.IsSignal) : (t'.dtlsTimeout a.dtls).IsSignal := by
    obtain ⟨s, hs⟩ := h'
    rw [dtlsTimeout, hs]
    exact ⟨s, hs⟩
  have hs (t' : Transport Secret) (h' : t'.IsSignal) :
      (t'.selfSelect now a.selfSelected).IsSignal := by
    unfold selfSelect
    split
    · split <;> exact h'.congr rfl
    · exact h'
  have ht : (({ t with ice := a.ice }.dtlsTimeout a.dtls).modifyRelay
    (·.drainEvents a.turn)).IsSignal := hd { t with ice := a.ice } h
  exact (hs _ (ht.ensureRelayLocalCandidate a.added)).maybeAdvance

theorem IsSignal.pollTransmit (h : t.IsSignal) (a : PollAnswer) :
    (t.pollTransmit C a).1.IsSignal := by
  have hi : IsSignal { t with ice := a.ice } := h
  have hp := (hi.maybeAdvance (C := C)).ensureRelayLocalCandidate a.added
  unfold Transport.pollTransmit
  dsimp only
  generalize ({ t with ice := a.ice }.maybeAdvance C).ensureRelayLocalCandidate a.added = t' at hp ⊢
  obtain ⟨s, hs⟩ := hp
  rw [hs]
  exact ⟨s, hs⟩

end Transport

end Wandr
