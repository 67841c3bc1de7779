import Mathlib.Data.List.Chain
import Mathlib.Data.List.Infix

/-!
# The video of a call

A VP8 frame comes in fragments, one to a packet, bare or as the primary block of a RED
packet. The receiver joins the fragments of a frame in the order of arrival. It knows of
a loss by the sequence numbers alone, and drops what it has of a frame with a hole.
-/

namespace Wandr

/-- The payload type of VP8. -/
def vp8PayloadType : UInt8 := 108

/-- The payload type of retransmissions. -/
def vp8RtxPayloadType : UInt8 := 118

/-- The payload type of RED. -/
def videoRedPayloadType : UInt8 := 120

/-- The header extension with the rotation of a frame. -/
def videoOrientationExtId : UInt8 := 4

/-- The type of the primary block of a RED payload, and where the block starts. The headers
    of the redundant blocks, of four bytes each, come before its header of one byte. -/
def redPrimary (payload : List UInt8) : Option (UInt8 × Nat) :=
  walk payload 0 0
where
  /-- Walk through the headers from the one at `idx`. -/
  walk : List UInt8 → Nat → Nat → Option (UInt8 × Nat)
    | [], _, _ => none
    | b :: rest, idx, redLen =>
      if b &&& 0x80 = 0 then
        let start := idx + 1 + redLen
        if start ≤ payload.length then some (b &&& 0x7f, start) else none
      else
        match rest with
        | _ :: hi :: lo :: rest =>
          let len := (hi.toNat &&& 0x03) <<< 8 ||| lo.toNat
          walk rest (idx + 4) (redLen + len)
        | _ => none

/-- An extension of the header of a packet. -/
structure Extension where
  id : UInt8
  payload : List UInt8
  deriving DecidableEq

/-- An RTP packet, decrypted and parsed. -/
structure Packet where
  payloadType : UInt8
  sequenceNumber : UInt16
  timestamp : UInt32
  ssrc : UInt32
  marker : Bool
  extensions : List Extension := []
  payload : List UInt8
  deriving DecidableEq

/-- What a depacketizer finds in a VP8 payload. -/
structure Vp8Packet where
  s : UInt8
  pid : UInt8
  payload : List UInt8
  deriving DecidableEq

/-- A whole frame. -/
structure VideoFrame where
  data : List UInt8
  timestamp : UInt32
  keyframe : Bool
  rotation : UInt32
  deriving DecidableEq

/-- The VP8 payload of a packet: the payload of a bare packet, the primary block of a RED
    packet. -/
def Packet.effectivePayload (pt : UInt8) (pkt : Packet) : Option (List UInt8) :=
  if pkt.payloadType = pt then some pkt.payload
  else if pkt.payloadType = videoRedPayloadType then
    match redPrimary pkt.payload with
    | some (ppt, off) => if ppt = pt then some (pkt.payload.drop off) else none
    | none => none
  else none

/-- A redundant block of a RED payload: a header of four bytes, with the length of the data
    in the low ten bits. -/
structure RedBlock where
  pt : UInt8
  offset : UInt8
  hi : UInt8
  lo : UInt8
  data : List UInt8
  more : pt &&& 0x80 ≠ 0
  length : data.length = (hi.toNat &&& 0x03) <<< 8 ||| lo.toNat

/-- The header of a redundant block. -/
def RedBlock.header (b : RedBlock) : List UInt8 := [b.pt, b.offset, b.hi, b.lo]

/-- A RED payload: the headers of the blocks, then their data. -/
def red (blocks : List RedBlock) (pt : UInt8) (primary : List UInt8) : List UInt8 :=
  blocks.flatMap (·.header) ++ pt :: (blocks.flatMap (·.data) ++ primary)

theorem walk_headers {payload rest : List UInt8} {pt : UInt8} (hpt : pt &&& 0x80 = 0)
    (blocks : List RedBlock) (idx redLen : Nat) :
    redPrimary.walk payload (blocks.flatMap (·.header) ++ pt :: rest) idx redLen =
      let start := idx + 4 * blocks.length + 1 + (redLen + (blocks.flatMap (·.data)).length)
      if start ≤ payload.length then some (pt &&& 0x7f, start) else none := by
  induction blocks generalizing idx redLen with
  | nil =>
    rw [List.flatMap_nil, List.nil_append, redPrimary.walk.eq_def]
    simp [hpt]
  | cons b blocks ih =>
    rw [List.flatMap_cons, RedBlock.header]
    simp only [List.cons_append, List.nil_append, redPrimary.walk, if_neg b.more, ih,
      ← b.length, List.flatMap_cons, List.length_append, List.length_cons]
    congr 3 <;> omega

theorem length_flatMap_header (blocks : List RedBlock) :
    (blocks.flatMap (·.header)).length = 4 * blocks.length := by
  induction blocks with
  | nil => rfl
  | cons b blocks ih =>
    rw [List.flatMap_cons, List.length_append, ih, RedBlock.header, List.length_cons]
    simp
    omega

theorem and_0x7f {pt : UInt8} (h : pt &&& 0x80 = 0) : pt &&& 0x7f = pt := by
  have hseven : ∀ n : Fin 256, UInt8.ofNat n &&& 0x80 = 0 →
      UInt8.ofNat n &&& 0x7f = UInt8.ofNat n := by decide +kernel
  simpa using hseven ⟨pt.toNat, pt.toNat_lt⟩ (by simpa using h)

/-- The primary block of a RED payload is found behind the headers and the redundant data. -/
theorem redPrimary_red {pt : UInt8} (hpt : pt &&& 0x80 = 0) (blocks : List RedBlock)
    (primary : List UInt8) : redPrimary (red blocks pt primary) =
      some (pt, 4 * blocks.length + 1 + (blocks.flatMap (·.data)).length) := by
  have hle : 4 * blocks.length + 1 + (blocks.flatMap (·.data)).length ≤
      (red blocks pt primary).length := by
    rw [red, List.length_append, List.length_cons, List.length_append, length_flatMap_header]
    omega
  rw [redPrimary]
  nth_rewrite 2 [red]
  rw [walk_headers hpt, and_0x7f hpt]
  simp only [Nat.zero_add]
  exact if_pos hle

theorem red_split (blocks : List RedBlock) (pt : UInt8) (primary : List UInt8) :
    (red blocks pt primary).drop (4 * blocks.length + 1 + (blocks.flatMap (·.data)).length) =
      primary := by
  have hsplit : red blocks pt primary =
      blocks.flatMap (·.header) ++ [pt] ++ blocks.flatMap (·.data) ++ primary := by
    simp [red]
  rw [hsplit, List.drop_left']
  rw [List.length_append, List.length_append, length_flatMap_header, List.length_singleton]

/-- The receiver of the video of a call. -/
structure VideoStream where
  pt : UInt8
  rxRotation : UInt32 := 0
  rxSsrc : Option UInt32 := none
  prevSeq : Option UInt16 := none
  cur : List UInt8 := []
  curTs : UInt32 := 0
  assembling : Bool := false
  broken : Bool := false
  loss : Bool := false
  framesOut : List VideoFrame := []
  rxPackets : Nat := 0
  rxFrames : Nat := 0
  rxBrokenFrames : Nat := 0
  deriving DecidableEq

namespace VideoStream

/-- The receiver before any packet. -/
def new (pt : UInt8) : VideoStream := { pt }

/-- Drop what is there of the current frame. -/
def dropCurrent (v : VideoStream) (count : Bool) : VideoStream :=
  { v with
    rxBrokenFrames :=
      if count && (v.assembling || !v.cur.isEmpty) then v.rxBrokenFrames + 1
      else v.rxBrokenFrames
    cur := []
    assembling := false
    broken := false
    loss := true }

/-- Append a fragment to the current frame. The last one completes the frame. -/
def extend (v : VideoStream) (pkt : Packet) (payload : List UInt8) : VideoStream :=
  let v := { v with cur := v.cur ++ payload }
  if pkt.marker then
    if v.broken then v.dropCurrent true
    else
      { v with
        framesOut := v.framesOut ++
          [{ data := v.cur
             timestamp := v.curTs
             keyframe := v.cur.head?.any (· &&& 0x01 = 0)
             rotation := v.rxRotation }]
        cur := []
        rxFrames := v.rxFrames + 1
        assembling := false }
  else v

/-- Start a frame, which ends the frame before. The frame is intact after a gap too, but
    frames before it may be lost. -/
def startFrame (v : VideoStream) (pkt : Packet) (contiguous : Bool) : VideoStream :=
  let v := if v.assembling then v.dropCurrent true else v
  { v with
    cur := []
    curTs := pkt.timestamp
    assembling := true
    broken := false
    loss := v.loss || !contiguous }

/-- Go on with the current frame, which breaks unless the fragment follows on it. -/
def continueFrame (v : VideoStream) (pkt : Packet) (contiguous : Bool) : VideoStream :=
  if !contiguous ∨ pkt.timestamp ≠ v.curTs then { v with broken := true } else v

/-- Take in a fragment. It is of no use outside of a frame unless it starts one. -/
def assemble (v : VideoStream) (pkt : Packet) (contiguous : Bool) (vp8 : Vp8Packet) :
    VideoStream :=
  if vp8.s = 1 ∧ vp8.pid = 0 then (v.startFrame pkt contiguous).extend pkt vp8.payload
  else if !v.assembling then { v with loss := true }
  else (v.continueFrame pkt contiguous).extend pkt vp8.payload

/-- The rotation after a packet. -/
def rotate (rotation : UInt32) (ext : Extension) : UInt32 :=
  match ext.payload with
  | b :: _ => if ext.id = videoOrientationExtId then (b &&& 3).toUInt32 * 90 else rotation
  | [] => rotation

/-- A packet of error correction: it takes a sequence number, and nothing else. -/
def passOver (v : VideoStream) (pkt : Packet) : VideoStream :=
  let v := if v.rxSsrc = none then { v with rxSsrc := some pkt.ssrc } else v
  if v.rxSsrc = some pkt.ssrc then
    { v with
      rxPackets := v.rxPackets + 1
      prevSeq := some pkt.sequenceNumber }
  else v

/-- Whether a packet is the one after the last. -/
def contiguous (v : VideoStream) (pkt : Packet) : Bool :=
  v.prevSeq.all (pkt.sequenceNumber = · + 1)

/-- Count a packet of the stream in. -/
def count (v : VideoStream) (pkt : Packet) : VideoStream :=
  { v with
    rxSsrc := some pkt.ssrc
    rxPackets := v.rxPackets + 1
    rxRotation := pkt.extensions.foldl rotate v.rxRotation
    prevSeq := some pkt.sequenceNumber }

section

variable (depacketize : List UInt8 → Option Vp8Packet)

/-- Take in a packet with a VP8 payload, of the first stream seen. -/
def handleVp8 (v : VideoStream) (pkt : Packet) (payload : List UInt8) : VideoStream :=
  if v.rxSsrc.any (· ≠ pkt.ssrc) then v
  else
    match depacketize payload with
    | none => (v.count pkt).dropCurrent true
    | some vp8 => (v.count pkt).assemble pkt (v.contiguous pkt) vp8

/-- Take in a packet. -/
def handleRtp (v : VideoStream) (pkt : Packet) : VideoStream :=
  if pkt.payloadType = vp8RtxPayloadType then v
  else
    match pkt.effectivePayload v.pt with
    | some payload => v.handleVp8 depacketize pkt payload
    | none => if pkt.payloadType = videoRedPayloadType then v.passOver pkt else v

end

/-- Hand out a frame. -/
def takeFrame (v : VideoStream) : Option VideoFrame × VideoStream :=
  match v.framesOut with
  | [] => (none, v)
  | f :: framesOut => (some f, { v with framesOut })

/-- Whether anything was lost since the last time. -/
def takeLoss (v : VideoStream) : Bool × VideoStream :=
  (v.loss, { v with loss := false })

/-! ## The state of the receiver -/

variable {v : VideoStream} {p : Packet} {f : Vp8Packet}

@[simp] theorem extend_pt {d : List UInt8} : (v.extend p d).pt = v.pt := by
  simp only [extend]
  split_ifs <;> rfl

@[simp] theorem extend_rxSsrc {d : List UInt8} : (v.extend p d).rxSsrc = v.rxSsrc := by
  simp only [extend]
  split_ifs <;> rfl

@[simp] theorem extend_prevSeq {d : List UInt8} : (v.extend p d).prevSeq = v.prevSeq := by
  simp only [extend]
  split_ifs <;> rfl

theorem startFrame_tracks {c : Bool} : (v.startFrame p c).pt = v.pt ∧
    (v.startFrame p c).rxSsrc = v.rxSsrc ∧ (v.startFrame p c).prevSeq = v.prevSeq := by
  cases ha : v.assembling <;> simp [startFrame, ha, dropCurrent]

theorem continueFrame_tracks {c : Bool} : (v.continueFrame p c).pt = v.pt ∧
    (v.continueFrame p c).rxSsrc = v.rxSsrc ∧ (v.continueFrame p c).prevSeq = v.prevSeq := by
  rw [continueFrame]
  split_ifs <;> simp

theorem assemble_tracks {c : Bool} : (v.assemble p c f).pt = v.pt ∧
    (v.assemble p c f).rxSsrc = v.rxSsrc ∧ (v.assemble p c f).prevSeq = v.prevSeq := by
  rw [assemble]
  split_ifs <;> simp [startFrame_tracks, continueFrame_tracks]

end VideoStream

end Wandr
