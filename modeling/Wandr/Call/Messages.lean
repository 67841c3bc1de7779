import Wandr.Call.Keying
import Wandr.Lib.Text

/-!
# The messages of a Signal call

The ends of a Signal call tell each other of the call in blobs: an offer and an answer with
what the other end needs to connect, and one candidate after the other. Once they are
connected, they go on to tell each other of their state, in messages that travel with the
media and are numbered.

The blobs are protocol buffers, which a library writes and reads.
-/

namespace Wandr

/-- The payload type of Opus. -/
def opusPayloadType : UInt8 := 102

/-- What an end of a call tells the other one of how to connect. -/
structure Signaling where
  iceUfrag : String := ""
  icePwd : String := ""
  fingerprint : String := ""
  setup : String := ""
  direction : String := ""
  candidates : List String := []
  audioPt : UInt8 := opusPayloadType
  publicKey : Option (List UInt8) := none
  deriving DecidableEq

/-- The direction of an answer to an offer. -/
def reverseDirection : String → String
  | "recvonly" => "sendonly"
  | "sendonly" => "recvonly"
  | "inactive" => "inactive"
  | _ => "sendrecv"

/-! ## Protocol buffers -/

/-- A codec that an end can receive. -/
structure VideoCodec where
  type : Option UInt32 := none
  deriving DecidableEq

/-- What is told of an end of a call. -/
structure ConnectionParametersV4 where
  publicKey : Option (List UInt8) := none
  iceUfrag : Option String := none
  icePwd : Option String := none
  receiveVideoCodecs : List VideoCodec := []
  maxBitrateBps : Option UInt64 := none
  deriving DecidableEq

/-- An offer. -/
structure Offer where
  v4 : Option ConnectionParametersV4 := none
  deriving DecidableEq

/-- An answer. -/
structure Answer where
  v4 : Option ConnectionParametersV4 := none
  deriving DecidableEq

/-- A candidate that was added. -/
structure IceCandidateV3 where
  sdp : Option String := none
  deriving DecidableEq

/-- An update of the candidates. -/
structure IceCandidate where
  addedV3 : Option IceCandidateV3 := none
  deriving DecidableEq

/-- The callee picked up. -/
structure RtpDataAccepted where
  id : Option UInt64 := none
  deriving DecidableEq

/-- An end hung up. -/
structure RtpDataHangup where
  id : Option UInt64 := none
  deriving DecidableEq

/-- The state of what an end sends. -/
structure RtpDataSenderStatus where
  id : Option UInt64 := none
  videoEnabled : Option Bool := none
  sharingScreen : Option Bool := none
  audioEnabled : Option Bool := none
  deriving DecidableEq

/-- What an end can receive. -/
structure RtpDataReceiverStatus where
  id : Option UInt64 := none
  maxBitrateBps : Option UInt64 := none
  deriving DecidableEq

/-- The state of an end, all of it in each message. -/
structure RtpDataMessage where
  accepted : Option RtpDataAccepted := none
  hangup : Option RtpDataHangup := none
  senderStatus : Option RtpDataSenderStatus := none
  seqnum : Option UInt64 := none
  receiverStatus : Option RtpDataReceiverStatus := none
  deriving DecidableEq

/-- A library that writes and reads messages of a type. -/
structure Codec (α : Type) where
  encode : α → List UInt8
  decode : List UInt8 → Option α

/-- The library of protocol buffers at the messages of a call. -/
structure Prost where
  offer : Codec Offer
  answer : Codec Answer
  ice : Codec IceCandidate
  rtpData : Codec RtpDataMessage

/-! ## Connecting -/

/-- What is told of an end, which has to have a public key. -/
def paramsFrom (s : Signaling) : Except CallError ConnectionParametersV4 :=
  match s.publicKey with
  | none => .error (.proto "signal offer/answer requires public_key (X25519)")
  | some publicKey =>
    .ok {
      publicKey := some publicKey
      iceUfrag := some s.iceUfrag
      icePwd := some s.icePwd
      receiveVideoCodecs := [{ type := some 8 }]
      maxBitrateBps := some 2000000 }

/-- What an end learns of the other one. -/
def paramsInto (p : ConnectionParametersV4) : Signaling where
  iceUfrag := p.iceUfrag.getD ""
  icePwd := p.icePwd.getD ""
  direction := "sendrecv"
  publicKey := p.publicKey

variable (P : Prost)

def encodeOffer (s : Signaling) : Except CallError (List UInt8) :=
  (paramsFrom s).map fun p => P.offer.encode { v4 := some p }

def decodeOffer (b : List UInt8) : Except CallError Signaling :=
  match P.offer.decode b with
  | none => .error (.proto "offer opaque decode")
  | some offer =>
    match offer.v4 with
    | none => .error (.proto "offer missing v4 connection params")
    | some v4 => .ok (paramsInto v4)

def encodeAnswer (s : Signaling) : Except CallError (List UInt8) :=
  (paramsFrom s).map fun p => P.answer.encode { v4 := some p }

def decodeAnswer (b : List UInt8) : Except CallError Signaling :=
  match P.answer.decode b with
  | none => .error (.proto "answer opaque decode")
  | some answer =>
    match answer.v4 with
    | none => .error (.proto "answer missing v4 connection params")
    | some v4 => .ok (paramsInto v4)

/-- A candidate in a blob, where its line starts with a word. -/
def encodeIceCandidate (line : String) : List UInt8 :=
  P.ice.encode { addedV3 := some { sdp := some ("candidate:" ++ line) } }

/-- The line of the candidate in a blob, if there is one. -/
def decodeIceCandidate (b : List UInt8) : Except CallError (Option String) :=
  match P.ice.decode b with
  | none => .error (.proto "ice candidate decode")
  | some msg =>
    .ok <| (msg.addedV3.bind (·.sdp)).map fun sdp =>
      if "candidate:".toList <+: sdp.toList then String.ofList (sdp.toList.drop 10) else sdp

/-! ## The state of an end -/

/-- What is read of the state of the other end. -/
structure RtpDataState where
  videoEnabled : Option Bool := none
  maxBitrateBps : Option UInt64 := none
  hangup : Bool := false
  seqnum : Option UInt64 := none
  deriving DecidableEq

/-- The message with the state of an end. -/
def rtpDataStateMessage (callId seqnum : UInt64) (accepted : Bool) (videoEnabled : Option Bool)
    (receiveMaxBitrateBps : Option UInt64) : RtpDataMessage where
  accepted := if accepted then some { id := some callId } else none
  senderStatus := videoEnabled.map fun v => { id := some callId, videoEnabled := some v }
  receiverStatus :=
    receiveMaxBitrateBps.map fun b => { id := some callId, maxBitrateBps := some b }
  seqnum := some seqnum

def encodeRtpDataState (callId seqnum : UInt64) (accepted : Bool) (videoEnabled : Option Bool)
    (receiveMaxBitrateBps : Option UInt64) : List UInt8 :=
  P.rtpData.encode (rtpDataStateMessage callId seqnum accepted videoEnabled receiveMaxBitrateBps)

/-- What an end acts on in a message. -/
def RtpDataMessage.state (msg : RtpDataMessage) : RtpDataState where
  videoEnabled := msg.senderStatus.bind (·.videoEnabled)
  maxBitrateBps := msg.receiverStatus.bind (·.maxBitrateBps)
  hangup := msg.hangup.isSome
  seqnum := msg.seqnum

def decodeRtpData (b : List UInt8) : Option RtpDataState :=
  (P.rtpData.decode b).map (·.state)

end Wandr
