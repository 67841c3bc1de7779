import Wandr.Call.Messages
import Wandr.Call.Transport
import Wandr.Call.Twcc
import Wandr.Call.Video

/-!
# The session of a call

A session is the transport of a call and the media on it. The media is audio, video, and
the state of the other end, which comes in numbered messages: whether its camera is on, the
bitrate it asks for, and whether it hung up.

A session keeps what the last message told.
-/

namespace Wandr

/-- Decoded audio: samples, each the bits of a floating-point number. -/
abbrev Pcm := List UInt32

/-! ## Media -/

/-- The payload type of messages. -/
def rtpDataPayloadType : UInt8 := 101

/-- The source of messages. -/
def rtpDataSsrc : UInt32 := 0xD

/-- The header extension with the transport-wide number of a packet. -/
def transportCcExtId : UInt8 := 1

/-- What the libraries answer to a datagram with media: the keys as contexts, if they are not
    made yet, the packet in it, and the audio of the packet. -/
structure MediaAnswer where
  made : Except CallError Unit := .ok ()
  now : Nat := 0
  decrypted : Except CallError Packet
  depacketize : List UInt8 → Option Vp8Packet := fun _ => none
  decoded : Except CallError Pcm := .ok []

/-- The media of a call, as far as it is received. -/
structure MediaSession where
  payloadType : UInt8
  dataCtr : UInt32 := 0
  video : Option VideoStream := none
  rtpDataIn : List (List UInt8) := []
  twcc : TwccTracker
  deriving DecidableEq

namespace MediaSession

/-- Media before any packet. -/
def fromContexts (payloadType : UInt8) (now : Nat) : MediaSession where
  payloadType
  twcc := { epoch := now }

/-- Receive video, of a payload type. -/
def enableVideo (m : MediaSession) (pt : UInt8) : MediaSession :=
  if m.video = none then { m with video := some (.new pt) } else m

/-- Record the transport-wide number of a packet, if an extension of its header has it. -/
def recordExtension (ssrc : UInt32) (now : Nat) (twcc : TwccTracker) (ext : Extension) :
    TwccTracker :=
  match ext.payload with
  | hi :: lo :: _ =>
    if ext.id = transportCcExtId then
      twcc.record (hi.toUInt16 <<< 8 ||| lo.toUInt16) ssrc now
    else twcc
  | _ => twcc

/-- Whether a packet is for the video. -/
def isVideo (m : MediaSession) (pkt : Packet) : Bool :=
  m.video.any fun v => pkt.payloadType = v.pt ∨ pkt.payloadType = vp8RtxPayloadType ∨
    pkt.payloadType = videoRedPayloadType

/-- Whether a packet carries a message. -/
def isRtpData (pkt : Packet) : Bool :=
  pkt.payloadType = rtpDataPayloadType ∧ pkt.ssrc = rtpDataSsrc

/-- Take in a packet: what is decoded of it if it is audio, and nothing otherwise. -/
def recv (m : MediaSession) (a : MediaAnswer) : MediaSession × Except CallError Pcm :=
  match a.decrypted with
  | .error e => (m, .error e)
  | .ok pkt =>
    let m := { m with twcc := pkt.extensions.foldl (recordExtension pkt.ssrc a.now) m.twcc }
    if m.isVideo pkt then
      ({ m with video := m.video.map (·.handleRtp a.depacketize pkt) }, .ok [])
    else if isRtpData pkt then
      ({ m with
        rtpDataIn :=
          if m.rtpDataIn.length < 16 then m.rtpDataIn ++ [pkt.payload] else m.rtpDataIn }, .ok [])
    else if pkt.payloadType ≠ m.payloadType then (m, .ok [])
    else (m, a.decoded)

end MediaSession

/-! ## Sessions -/

/-- What the libraries answer to a timeout of a session: those of the transport, the keys as
    contexts, the reports that are due, the message as a datagram, and the time it is sent. -/
structure SessionTimeout extends TimeoutAnswer where
  made : Except CallError Unit := .ok ()
  reports : List (List UInt8) := []
  protect : List UInt8 → Except CallError (List UInt8) := fun _ => .error (.srtp "encrypt")
  sentAt : Nat := 0

/-- A session of a call. An instant is a number of nanoseconds. -/
structure PeerSession (Secret : Type) where
  role : CallRole
  localAddr : SocketAddr
  ufrag : String
  pwd : String
  transport : Transport Secret
  media : Option MediaSession := none
  remoteDirection : Option String := none
  audioIn : List Pcm := []
  mediaSeen : Nat := 0
  decodeOk : Nat := 0
  decodeErr : Nat := 0
  audioPt : UInt8 := opusPayloadType
  videoIn : List VideoFrame := []
  rtpDataSeqnum : UInt64 := 0
  rtpCallId : Option UInt64 := none
  acceptedEngaged : Bool := false
  videoEnabledLocal : Option Bool := none
  lastRtpDataTx : Option Nat := none
  peerVideoEnabled : Option Bool := none
  peerVideoToggle : Option Bool := none
  peerMaxBitrate : Option UInt64 := none
  peerRtpHangup : Bool := false
  receiveBudgetBps : Option UInt32 := none

/-- The line of a host address as a candidate. -/
def candidateString (addr : SocketAddr) : String :=
  s!"1 1 udp 2130706431 {addr.ip} {addr.port} typ host"

/-- The address in a line of a candidate. `parseIp` reads an IP, and tells its family. -/
def parseCandidateAddr (parseIp : String → Option (String × Bool)) (cand : String) :
    Option SocketAddr :=
  match Text.splitWhitespace cand with
  | _ :: _ :: _ :: _ :: ip :: port :: _ =>
    match parseIp ip, Text.parseUnsigned 16 port with
    | some (ip, isIpv4), some port => some { ip, isIpv4, port := UInt16.ofNat port }
    | _, _ => none
  | _ => none

namespace PeerSession

variable {Secret : Type} (C : Crypto Secret) (P : Prost)

/-- A session of a call that agrees on keys by a DTLS handshake. -/
def new (role : CallRole) (localAddr : SocketAddr) (fingerprint : String) :
    PeerSession Secret where
  role
  localAddr
  ufrag := match role with
    | .offerer => "ufrAgentA"
    | .answerer => "ufrAgentB"
  pwd := match role with
    | .offerer => "passwordApasswordApasswordA00"
    | .answerer => "passwordBpasswordBpasswordB00"
  transport := .new role localAddr fingerprint

/-- A session of a Signal call, with random credentials. -/
def newSignal (role : CallRole) (localAddr : SocketAddr) (ufrag pwd : String) (secret : Secret)
    (callerIdentity calleeIdentity : List UInt8) (turn : Option SocketAddr) :
    PeerSession Secret where
  role
  localAddr
  ufrag
  pwd
  transport := .newSignal role localAddr secret callerIdentity calleeIdentity turn

/-- What to tell the other end. -/
def localSignaling (s : PeerSession Secret) : Signaling where
  iceUfrag := s.ufrag
  icePwd := s.pwd
  fingerprint := s.transport.fingerprint
  setup := match s.role with
    | .offerer => "actpass"
    | .answerer => "active"
  direction := match s.role with
    | .offerer => "sendrecv"
    | .answerer => reverseDirection (s.remoteDirection.getD "sendrecv")
  candidates := [candidateString s.localAddr]
  audioPt := s.audioPt
  publicKey := (s.transport.signalPublicKey C).map (·.1)

/-- Apply what the other end tells, and start to connect. -/
def setRemoteSignaling (parseIp : String → Option (String × Bool)) (s : PeerSession Secret)
    (now : Nat) (remote : Signaling) (ice : Option Agent) :
    PeerSession Secret × Except CallError Unit :=
  let remotes := remote.candidates.filterMap (parseCandidateAddr parseIp)
  let (transport, r) := s.transport.setRemote now remote.fingerprint remote.publicKey remotes ice
  ({ s with
    remoteDirection := some remote.direction
    audioPt := remote.audioPt
    transport }, r)

/-- Take a candidate of the other end; a line that is none is ignored. -/
def addRemoteCandidate (parseIp : String → Option (String × Bool)) (s : PeerSession Secret)
    (candidate : String) (ice : Option Agent) : PeerSession Secret × Except CallError Unit :=
  match parseCandidateAddr parseIp candidate with
  | some addr =>
    let (transport, r) := s.transport.addRemoteCandidate addr ice
    ({ s with transport }, r)
  | none => (s, .ok ())

/-- The lines of new local candidates. -/
def takeNewLocalCandidates (s : PeerSession Secret) : PeerSession Secret × List String :=
  let (transport, lines) := s.transport.takeNewLocalCandidates
  ({ s with transport }, lines)

def isConnected (s : PeerSession Secret) : Bool := s.transport.isConnected

def pollTransmit (s : PeerSession Secret) (a : PollAnswer) :
    PeerSession Secret × List (SocketAddr × List UInt8) :=
  let (transport, x) := s.transport.pollTransmit C a
  ({ s with transport }, x.datagrams)

/-- Start the media, once there are keys, which are taken out of the transport. -/
def ensureMedia (s : PeerSession Secret) (made : Except CallError Unit) (now : Nat) :
    PeerSession Secret × Except CallError Unit :=
  if s.media.isSome then (s, .ok ())
  else match s.transport.keys with
    | none => (s, .ok ())
    | some _ =>
      let s := { s with transport := { s.transport with keys := none } }
      match made with
      | .error e => (s, .error e)
      | .ok () =>
        let m := (MediaSession.fromContexts s.audioPt now).enableVideo vp8PayloadType
        ({ s with media := some m }, .ok ())

/-- Act on a message of the other end. -/
def onRtpDataState (s : PeerSession Secret) (st : RtpDataState) : PeerSession Secret :=
  let s := match st.videoEnabled with
    | some v =>
      { s with
        peerVideoToggle := if s.peerVideoEnabled ≠ some v then some v else s.peerVideoToggle
        peerVideoEnabled := some v }
    | none => s
  let s := if st.maxBitrateBps.isSome then { s with peerMaxBitrate := st.maxBitrateBps } else s
  if st.hangup then { s with peerRtpHangup := true } else s

/-- Act on a payload; one that is no message is skipped. -/
def onRtpData (s : PeerSession Secret) (b : List UInt8) : PeerSession Secret :=
  match decodeRtpData P b with
  | none => s
  | some st => s.onRtpDataState st

/-- Take in a packet, and act on what came of it. -/
def handleMedia (s : PeerSession Secret) (m : MediaSession) (a : MediaAnswer) :
    PeerSession Secret :=
  let (m, pcm) := m.recv a
  let s := match pcm with
    | .ok [] => s
    | .ok pcm => { s with audioIn := s.audioIn ++ [pcm], decodeOk := s.decodeOk + 1 }
    | .error _ => { s with decodeErr := s.decodeErr + 1 }
  let s := { s with
    videoIn := s.videoIn ++ (m.video.map (·.framesOut)).getD []
    media := some { m with
      video := m.video.map fun v => ({ v with framesOut := [] } : VideoStream).takeLoss.2
      rtpDataIn := [] } }
  m.rtpDataIn.foldl (onRtpData P) s

/-- Whether media is a report, by its second byte. -/
def isRtcp (srtp : List UInt8) : Bool := srtp[1]?.any fun b => 192 ≤ b ∧ b ≤ 223

/-- Take a datagram from the socket. Reports change nothing here. -/
def handleDatagram (s : PeerSession Secret) (src : SocketAddr) (data : List UInt8)
    (turn : List TurnEvent) (answer : Nat → ReadAnswer) (a : MediaAnswer) :
    PeerSession Secret × Except CallError Unit :=
  match s.transport.handleDatagram src data turn answer with
  | (transport, .error e) => ({ s with transport }, .error e)
  | (transport, .ok .consumed) => ({ s with transport }, .ok ())
  | (transport, .ok (.media srtp)) =>
    match { s with transport, mediaSeen := s.mediaSeen + 1 }.ensureMedia a.made a.now with
    | (s, .error e) => (s, .error e)
    | (s, .ok ()) =>
      if isRtcp srtp then (s, .ok ())
      else match s.media with
        | none => (s, .ok ())
        | some m => (s.handleMedia P m a, .ok ())

/-- Queue media of one's own. -/
def queueMedia (s : PeerSession Secret) (dg : List UInt8) : PeerSession Secret :=
  { s with transport := s.transport.queueMedia dg }

/-- Tell the other end of one's state, in the next message. -/
def sendRtpDataState (s : PeerSession Secret) (a : SessionTimeout) :
    PeerSession Secret × Except CallError Unit :=
  match s.rtpCallId with
  | none => (s, .ok ())
  | some callId =>
    match s.ensureMedia a.made a.sentAt with
    | (s, .error e) => (s, .error e)
    | (s, .ok ()) =>
      let s := { s with rtpDataSeqnum := s.rtpDataSeqnum + 1 }
      let payload := encodeRtpDataState P callId s.rtpDataSeqnum s.acceptedEngaged
        s.videoEnabledLocal (s.receiveBudgetBps.map (·.toUInt64))
      match s.media with
      | none => (s, .error .notConnected)
      | some m =>
        let s := { s with media := some { m with dataCtr := m.dataCtr + 1 } }
        match a.protect payload with
        | .error e => (s, .error e)
        | .ok dg => ({ s.queueMedia dg with lastRtpDataTx := some a.sentAt }, .ok ())

/-- Queue the reports that are due, once there is media. -/
def pumpRtcp (s : PeerSession Secret) (reports : List (List UInt8)) : PeerSession Secret :=
  if s.media.isSome then reports.foldl queueMedia s else s

/-- Tell of one's state about every second, once there is anything to tell. -/
def resendRtpDataState (s : PeerSession Secret) (now : Nat) (a : SessionTimeout) :
    PeerSession Secret :=
  if (s.acceptedEngaged ∨ s.videoEnabledLocal.isSome) ∧
      s.lastRtpDataTx.all (fun t => 1000 ≤ (now - t) / 1000000) then
    (s.sendRtpDataState P a).1
  else s

def handleTimeout (s : PeerSession Secret) (now : Nat) (a : SessionTimeout) :
    PeerSession Secret :=
  let s := { s with transport := s.transport.handleTimeout C now a.toTimeoutAnswer }
  ((s.ensureMedia a.made now).1.pumpRtcp a.reports).resendRtpDataState P now a

/-- The callee tells that it picked up. -/
def sendAccepted (s : PeerSession Secret) (callId : UInt64) (a : SessionTimeout) :
    PeerSession Secret × Except CallError Unit :=
  { s with rtpCallId := some callId, acceptedEngaged := true }.sendRtpDataState P a

/-- Tell whether the camera is on. -/
def setVideoEnabled (s : PeerSession Secret) (callId : UInt64) (enabled : Bool)
    (a : SessionTimeout) : PeerSession Secret :=
  ({ s with rtpCallId := some callId, videoEnabledLocal := some enabled }.sendRtpDataState P a).1

/-- The bitrate that the end can receive. -/
def setReceiveBitrate (s : PeerSession Secret) (bps : UInt32) : PeerSession Secret :=
  { s with receiveBudgetBps := some bps }

/-- Whether the camera of the other end was turned on or off since the last time. -/
def takePeerVideoToggle (s : PeerSession Secret) : PeerSession Secret × Option Bool :=
  ({ s with peerVideoToggle := none }, s.peerVideoToggle)

/-- Whether the other end hung up since the last time. -/
def takePeerRtpHangup (s : PeerSession Secret) : PeerSession Secret × Bool :=
  ({ s with peerRtpHangup := false }, s.peerRtpHangup)

/-! ## The transport of a session -/

variable {C P} {s : PeerSession Secret}

theorem ensureMedia_transport (made : Except CallError Unit) (now : Nat) :
    ∃ keys, (s.ensureMedia made now).1.transport = { s.transport with keys } := by
  unfold ensureMedia
  split
  · exact ⟨s.transport.keys, rfl⟩
  · split
    · exact ⟨s.transport.keys, rfl⟩
    · cases made <;> exact ⟨none, rfl⟩

theorem onRtpData_transport (b : List UInt8) : (s.onRtpData P b).transport = s.transport := by
  unfold onRtpData
  cases decodeRtpData P b with
  | none => rfl
  | some st =>
    obtain ⟨v, bps, hangup, n⟩ := st
    cases v <;> cases bps <;> cases hangup <;> rfl

theorem handleMedia_transport (m : MediaSession) (a : MediaAnswer) :
    (s.handleMedia P m a).transport = s.transport := by
  have hfold (l : List (List UInt8)) (s : PeerSession Secret) :
      (l.foldl (onRtpData P) s).transport = s.transport := by
    induction l generalizing s with
    | nil => rfl
    | cons b l ih => rw [List.foldl_cons, ih, onRtpData_transport]
  unfold handleMedia
  rw [hfold]
  dsimp only
  split <;> rfl

/-- A session leaves its transport to itself at a datagram, and may take the keys. -/
theorem handleDatagram_transport (src : SocketAddr) (data : List UInt8) (turn : List TurnEvent)
    (answer : Nat → ReadAnswer) (a : MediaAnswer) :
    ∃ keys, (s.handleDatagram P src data turn answer a).1.transport =
      { (s.transport.handleDatagram src data turn answer).1 with keys } := by
  unfold handleDatagram
  obtain ⟨transport, r⟩ := s.transport.handleDatagram src data turn answer
  rcases r with e | (_ | srtp)
  · exact ⟨transport.keys, rfl⟩
  · exact ⟨transport.keys, rfl⟩
  · obtain ⟨keys, hk⟩ := ensureMedia_transport
      (s := { s with transport, mediaSeen := s.mediaSeen + 1 }) a.made a.now
    refine ⟨keys, ?_⟩
    dsimp only
    split
    · next he => rwa [he] at hk
    · next he =>
      rw [he] at hk
      split
      · exact hk
      · split
        · exact hk
        · exact (handleMedia_transport _ _).trans hk

theorem queueMedia_foldl_transport (l : List (List UInt8)) :
    ∃ mediaOut, (l.foldl queueMedia s).transport = { s.transport with mediaOut } := by
  induction l generalizing s with
  | nil => exact ⟨s.transport.mediaOut, rfl⟩
  | cons dg l ih => exact ih

theorem sendRtpDataState_transport (a : SessionTimeout) :
    ∃ keys mediaOut, (s.sendRtpDataState P a).1.transport =
      { s.transport with keys, mediaOut } := by
  unfold sendRtpDataState
  cases s.rtpCallId with
  | none => exact ⟨s.transport.keys, s.transport.mediaOut, rfl⟩
  | some callId =>
    obtain ⟨keys, hk⟩ := ensureMedia_transport (s := s) a.made a.sentAt
    dsimp only
    split
    · next he =>
      rw [he] at hk
      exact ⟨keys, s.transport.mediaOut, hk⟩
    · next s' he =>
      rw [he] at hk
      cases s'.media with
      | none => exact ⟨keys, s.transport.mediaOut, hk⟩
      | some m =>
        dsimp only
        split
        · exact ⟨keys, s.transport.mediaOut, hk⟩
        · next dg _ =>
          refine ⟨keys, s.transport.mediaOut ++ [dg], ?_⟩
          exact (congrArg (·.queueMedia dg) hk :)

/-- A session leaves its transport to itself at a timeout, may take the keys, and queues
    media. -/
theorem handleTimeout_transport (now : Nat) (a : SessionTimeout) :
    ∃ keys mediaOut, (s.handleTimeout C P now a).transport =
      { s.transport.handleTimeout C now a.toTimeoutAnswer with keys, mediaOut } := by
  obtain ⟨keys, hk⟩ := ensureMedia_transport
    (s := { s with transport := s.transport.handleTimeout C now a.toTimeoutAnswer }) a.made now
  unfold handleTimeout
  dsimp only
  generalize ensureMedia _ a.made now = r at hk ⊢
  have hp : ∃ mediaOut, (r.1.pumpRtcp a.reports).transport = { r.1.transport with mediaOut } := by
    unfold pumpRtcp
    split
    · exact queueMedia_foldl_transport a.reports
    · exact ⟨r.1.transport.mediaOut, rfl⟩
  obtain ⟨mediaOut, hm⟩ := hp
  rw [hk] at hm
  unfold resendRtpDataState
  split
  · obtain ⟨keys', mediaOut', h⟩ := sendRtpDataState_transport (P := P)
      (s := r.1.pumpRtcp a.reports) a
    exact ⟨keys', mediaOut', h.trans (by rw [hm])⟩
  · exact ⟨keys, mediaOut, hm⟩

end PeerSession

end Wandr
