import Mathlib.Algebra.Group.Int.Defs
import Wandr.Lib.Loop
import Wandr.Media.SegStream

/-!
# The player

The player of a stream has three stages. `fillQueues` asks the demuxer for packets and puts
the frames in two queues; `decodeAudio` makes samples of the audio frames; `pumpStream` runs
with the display: it sends the samples to the device and the video frames to the decoder,
and keeps the clock.

What is outside is given: the demuxer by what it reads of the file for each packet (`Pull`),
the decoders and the device by their answers.
-/

namespace Wandr.Media

/-! ## Demuxers -/

/-- What a demuxer gives. -/
inductive Demuxed
  | packet (p : Packet)
  | eof
  | error

/-- What a demuxer does for a packet: it seeks and reads, each time going on with what it gets,
    and ends with a result and a state of its own. A read says what the disk would do. -/
inductive Pull (δ : Type)
  | seek (f : SeekFrom) (k : Except IoError Nat → Pull δ)
  | read (len : Nat) (disk : Disk) (k : Except IoError (List UInt8) → Pull δ)
  | done (r : Demuxed) (d : δ)

/-- Read without waiting. While the stream plays no read waits. -/
def HttpRangeReader.readNow (r : HttpRangeReader) (len : Nat) (disk : Disk) :
    Except IoError (List UInt8) × HttpRangeReader :=
  match r.read len disk with
  | (some x, r) => (x, r)
  | (none, r) => (.error { kind := .other, text := "" }, r)

/-- Do what a demuxer does on a reader. -/
def Pull.run {δ : Type} : Pull δ → HttpRangeReader → Demuxed × δ × HttpRangeReader
  | .seek f k, r => (k (r.seek f).1).run (r.seek f).2
  | .read len disk k, r => (k (r.readNow len disk).1).run (r.readNow len disk).2
  | .done x d, r => (x, d, r)

/-- A file with one stream of packets for all its tracks. -/
structure OxSource (δ : Type) where
  dmx : δ
  videoStream : Nat
  audioStream : Nat
  vNum : Int
  vDen : Int
  aNum : Int
  aDen : Int

/-- A file with sound only. -/
structure SymSource (δ : Type) where
  format : δ
  trackId : Nat
  num : Int
  den : Int

/-- Two tracks in segments. -/
structure Fmp4Source where
  video : SegStream
  audio : Option SegStream

/-- The kinds of stream. -/
inductive Demux (δ : Type)
  | ox (src : OxSource δ)
  | fmp4 (src : Fmp4Source)
  | audio (src : SymSource δ)

namespace Fmp4Source

variable (openMp4 : List UInt8 → Except String (List Packet))
  (fetch : Nat → Except String (List UInt8)) (s : Fmp4Source)

def hasAudio : Bool := s.audio.isSome
def videoDone : Bool := s.video.done
def audioDone : Bool := (s.audio.map SegStream.done).getD true

/-- The next packet of the video. -/
def nextVideo : Option Shown × Fmp4Source :=
  let (r, video) := s.video.pullPacket openMp4 fetch
  (r, { s with video })

/-- The next packet of the sound. -/
def nextAudio : Option (Int × List UInt8) × Fmp4Source :=
  match s.audio with
  | none => (none, s)
  | some a =>
    let (r, a) := a.pullPacket openMp4 fetch
    (r.map fun (pts, _, data) => (pts, data), { s with audio := some a })

end Fmp4Source

/-! ## The player -/

/-- A frame of the video. -/
structure VFrame where
  ptsUs : Int
  keyframe : Bool
  data : List UInt8
  deriving DecidableEq

/-- A frame of the sound. -/
structure AFrame where
  ptsUs : Int
  data : List UInt8
  deriving DecidableEq

/-- The rate of the device. -/
def outRate : Nat := 48000

/-- How far ahead of the clock is demuxed. -/
def lookaheadUs : Int := 4000000

/-- The caps of the two queues. -/
def vqCap : Nat := 150
def aqCap : Nat := 250

/-- How much there must be in the cache for a packet. -/
def fillGateMargin : Nat := 256 * 1024

/-- How many frames the video decoder is given ahead. -/
def decodeAhead : Nat := 20

/-- How far ahead of the clock a frame is submitted. -/
def submitLeadUs : Int := 2000000

/-- The player of a stream. -/
structure StreamPlayer (δ : Type) where
  /-- The build plays video. -/
  video : Bool
  demux : Demux δ
  /-- The reader of the demuxer. -/
  reader : HttpRangeReader
  /-- There is a handle to fetch ahead for the reader. -/
  prefetch : Bool
  psPrefix : List UInt8 := []
  nalLen : Nat := 4
  videoAnnexb : Bool := false
  videoQ : List VFrame := []
  audioQ : List AFrame := []
  demuxDone : Bool := false
  submitted : Nat := 0
  presented : Nat := 0
  lastPresPts : Int := 0
  firstPtsUs : Option Int := none
  originNs : Nat := 0
  flushed : Bool := false
  done : Bool := false
  durationUs : Int := 0
  clockUs : Int := 0
  audioPosUs : Int := 0
  /-- There is a decoder for the sound. -/
  audioDec : Bool := false
  hasAudio : Bool := false
  devStart : Nat := 0
  devStartSet : Bool := false
  audioStarted : Bool := false
  audioStartNs : Nat := 0
  audioFirstPtsUs : Int := 0
  audioFirstPtsKnown : Bool := false
  audioPtsKnown : Bool := false
  /-- How many samples are decoded and not yet written. -/
  pendingPcm : Nat := 0
  paused : Bool := false
  pausedAtNs : Nat := 0

/-! ## Framing -/

/-- The code before each unit of the video. -/
def startCode : List UInt8 := [0, 0, 0, 1]

/-- The number in some bytes, the most significant one first. -/
def bigEndian (bs : List UInt8) : Nat := bs.foldl (fun n b => (n * 256 + b.toNat) % 2 ^ 32) 0

/-- The units of a sample, each with a start code in place of its length. -/
def nalUnits (nalLen : Nat) : Nat → List UInt8 → List UInt8
  | 0, _ => []
  | fuel + 1, bs =>
    if bs.length < nalLen then []
    else
      let n := bigEndian (bs.take nalLen)
      let bs := bs.drop nalLen
      if n = 0 ∨ bs.length < n then []
      else startCode ++ bs.take n ++ nalUnits nalLen fuel (bs.drop n)

/-- A sample with start codes, after the parameter sets if it can be started from. A length that
    wraps the index around is `toAnnexbOn`'s. -/
def toAnnexb (sample : List UInt8) (nalLen : Nat) (psPrefix : List UInt8) (isSync : Bool) :
    List UInt8 :=
  (if isSync then psPrefix else []) ++ nalUnits nalLen sample.length sample

/-! ## Filling the queues -/

/-- What a round of the demuxer gives: a frame with its time, for the video or not, one of
    another track, or nothing. -/
inductive Prod
  | frame (pts : Int) (isVideo : Bool)
  | skip
  | stop

/-- The greatest times of the two tracks in a call. -/
structure Marks where
  lastV : Int := -2 ^ 63
  lastA : Int := -2 ^ 63

/-- The bytes of the segments that are waited for in a call. -/
structure Fetches where
  video : Nat → Except String (List UInt8) := fun _ => .error ""
  audio : Nat → Except String (List UInt8) := fun _ => .error ""

namespace StreamPlayer

variable {δ : Type}

section
variable (p : StreamPlayer δ)

/-- There is not enough in the cache to ask for a packet. -/
def gateShut : Bool :=
  p.prefetch && (!p.reader.shared.readyAhead.2 &&
    p.reader.shared.readyAhead.1 < fillGateMargin)

/-- The queue of the video is full. Without video it always is. -/
def vFull : Bool := !p.video || vqCap ≤ p.videoQ.length

/-- The queue of the sound is full. -/
def aFull : Bool := aqCap ≤ p.audioQ.length

/-- The time up to which is demuxed. -/
def limit : Int := asI64 (p.clockUs + lookaheadUs)

/-- Both tracks are demuxed past the limit. -/
def pastLimit (m : Marks) : Bool :=
  (p.limit < m.lastV || !p.video) && (!p.audioDec || p.limit < m.lastA)

/-- The reader is at the end of the file, as far as one can see. -/
def demuxAtEof : Bool := !p.prefetch || p.reader.shared.readyAhead.2

/-- Queue a frame of the video. -/
def pushVideo (pts : Int) (keyframe : Bool) (data : List UInt8) : StreamPlayer δ :=
  let data := if p.videoAnnexb then toAnnexb data p.nalLen p.psPrefix keyframe else data
  { p with videoQ := p.videoQ ++ [{ ptsUs := pts, keyframe, data }] }

/-- Queue a frame of the sound. -/
def pushAudio (pts : Int) (data : List UInt8) : StreamPlayer δ :=
  { p with audioQ := p.audioQ ++ [{ ptsUs := pts, data }] }

/-- The demuxer has come to its end if the reader has. -/
def stopDemux (atEof : Bool) : StreamPlayer δ :=
  if atEof then { p with demuxDone := true } else p

end

section
-- What each demuxer does for its next packet, what is in the segments, and what is fetched.
variable (pull : δ → Pull δ) (openMp4 : List UInt8 → Except String (List Packet))
  (fetches : Fetches) (p : StreamPlayer δ)

/-- Queue what a demuxer of all tracks gives. -/
def routeOx (src : OxSource δ) (atEof : Bool) : Demuxed → Prod × StreamPlayer δ
  | .packet pkt =>
    if pkt.streamIndex = src.videoStream then
      let pts := ticksToUs ((pkt.pts.or pkt.dts).getD 0) src.vNum src.vDen
      (.frame pts true, p.pushVideo pts pkt.keyframe pkt.data)
    else if pkt.streamIndex = src.audioStream then
      let pts := ticksToUs ((pkt.pts.or pkt.dts).getD 0) src.aNum src.aDen
      (.frame pts false, p.pushAudio pts pkt.data)
    else (.skip, p)
  | _ => (.stop, p.stopDemux atEof)

/-- One packet of a file with one stream of packets. -/
def produceOx (src : OxSource δ) : Prod × StreamPlayer δ :=
  let (r, dmx, reader) := (pull src.dmx).run p.reader
  { p with demux := .ox { src with dmx }, reader }.routeOx src p.demuxAtEof r

/-- Queue what a demuxer of sound gives. -/
def routeAudio (src : SymSource δ) (atEof : Bool) : Demuxed → Prod × StreamPlayer δ
  | .packet pkt =>
    if pkt.streamIndex = src.trackId then
      let pts := ticksToUs (pkt.pts.getD 0) src.num src.den
      (.frame pts false, p.pushAudio pts pkt.data)
    else (.skip, p)
  | .eof => (.stop, p.stopDemux true)
  | .error => (.stop, p.stopDemux atEof)

/-- One packet of a file with sound only. -/
def produceAudio (src : SymSource δ) : Prod × StreamPlayer δ :=
  let (r, format, reader) := (pull src.format).run p.reader
  { p with demux := .audio { src with format }, reader }.routeAudio src p.demuxAtEof r

/-- One packet of the track that is behind. -/
def produceFmp4 (src : Fmp4Source) (m : Marks) : Prod × StreamPlayer δ :=
  let vLeft := !src.videoDone && !p.vFull && m.lastV ≤ p.limit
  let aLeft := src.hasAudio && !src.audioDone && !p.aFull && m.lastA ≤ p.limit
  if vLeft && (!aLeft || m.lastV ≤ m.lastA) then
    match src.nextVideo openMp4 fetches.video with
    | (some (pts, kf, bytes), src) =>
      (.frame pts true, { p with demux := .fmp4 src }.pushVideo pts kf bytes)
    | (none, src) => (.skip, { p with demux := .fmp4 src })
  else if aLeft then
    match src.nextAudio openMp4 fetches.audio with
    | (some (pts, bytes), src) =>
      (.frame pts false, { p with demux := .fmp4 src }.pushAudio pts bytes)
    | (none, src) => (.skip, { p with demux := .fmp4 src })
  else (.stop, p.stopDemux (src.videoDone && (!src.hasAudio || src.audioDone)))

/-- One packet. -/
def produce (m : Marks) : Prod × StreamPlayer δ :=
  match p.demux with
  | .ox src => p.produceOx pull src
  | .audio src => p.produceAudio pull src
  | .fmp4 src => p.produceFmp4 openMp4 fetches src m

/-- The loop stops before it asks for another packet. -/
def stops (m : Marks) : Bool := p.gateShut || (p.vFull && p.aFull) || p.pastLimit m

/-- One round of the loop. -/
def fillRound : Marks × StreamPlayer δ → Bool × Marks × StreamPlayer δ
  | (m, p) =>
    if p.stops m then (false, m, p)
    else
      match p.produce pull openMp4 fetches m with
      | (.frame pts true, p) => (true, { m with lastV := max m.lastV pts }, p)
      | (.frame pts false, p) => (true, { m with lastA := max m.lastA pts }, p)
      | (.skip, p) => (true, m, p)
      | (.stop, p) => (false, m, p)

/-- Fill the queues, in `n` rounds at most. -/
def fillQueues (n : Nat) : Option (StreamPlayer δ) :=
  (Loop.exec (fillRound pull openMp4 fetches) n ({}, p)).map Prod.snd

end

end StreamPlayer

/-! ## Decoding the sound -/

/-- The most samples that are decoded ahead: two seconds of two channels. -/
def pcmCap : Nat := outRate * 2 * 2

namespace StreamPlayer

variable {δ : Type}

/-- The first frame that gives sound is noted. -/
def anchorAudio (p : StreamPlayer δ) (ptsUs : Int) : StreamPlayer δ :=
  if p.audioFirstPtsKnown then p
  else { p with audioFirstPtsUs := ptsUs, audioFirstPtsKnown := true }

/-- Decode the frames of a queue. `out` says for each call how many samples the decoder gives
    and how many there are at the rate of the device. -/
def decodeFrames (out : Nat → Nat × Nat) : Nat → List AFrame → StreamPlayer δ → StreamPlayer δ
  | _, [], p => { p with audioQ := [] }
  | i, af :: q, p =>
    if pcmCap ≤ p.pendingPcm then { p with audioQ := af :: q }
    else if !p.audioDec then { p with audioQ := q }
    else if (out i).1 = 0 then decodeFrames out (i + 1) q p
    else
      let p := p.anchorAudio af.ptsUs
      decodeFrames out (i + 1) q { p with pendingPcm := p.pendingPcm + (out i).2 }

/-- Decode the sound, some way ahead. -/
def decodeAudio (p : StreamPlayer δ) (out : Nat → Nat × Nat) : StreamPlayer δ :=
  if p.hasAudio then decodeFrames out 0 p.audioQ p else p

end StreamPlayer

/-! ## The pump -/

/-- What the device answers in a pump: how many frames it still holds, how many of those that
    are written it takes, and how many it has played, before and after. -/
structure Device where
  buffered : Nat
  accepted : Nat
  position : Nat
  positionAfter : Nat

/-- What the video decoder says to a frame. -/
inductive Submitted
  | ok
  | queueFull
  | failed

/-- What comes from outside in a pump. -/
structure PumpInput where
  nanos : Nat
  wantPause : Bool := false
  device : Option Device := none
  /-- The answers to the frames that are submitted. -/
  submits : List Submitted := []
  /-- The times of the frames that come out of the decoder. -/
  decoded : List Int := []

/-- How many frames the device holds. -/
def PumpInput.buffered (x : PumpInput) : Nat := (x.device.map Device.buffered).getD 0

/-- A number of 64 bits that does not go past its end. -/
def saturate (n : Nat) : Nat := min n (2 ^ 64 - 1)

/-- The time between two moments, in microseconds. -/
def elapsedUs (nanos start : Nat) : Int := (asI64 ((nanos - start : Nat) : Int)).tdiv 1000

/-- The time that is in the buffer of the device. -/
def bufferedUs (frames : Nat) : Int := (asI64 (asI64 frames * 1000000)).tdiv outRate

namespace StreamPlayer

variable {δ : Type} (p : StreamPlayer δ) (x : PumpInput)

/-- Pause, or go on: then the moments the clock is counted from are put off. -/
def applyPause : StreamPlayer δ :=
  if x.wantPause && !p.paused then { p with paused := true, pausedAtNs := x.nanos }
  else if !x.wantPause && p.paused then
    let dt := x.nanos - p.pausedAtNs
    { p with
      audioStartNs := if 0 < p.audioStartNs then saturate (p.audioStartNs + dt) else p.audioStartNs
      originNs := if p.video then saturate (p.originNs + dt) else p.originNs
      paused := false }
  else p

/-- The clock follows the sound. -/
def audioMaster : Bool := p.audioPtsKnown && p.hasAudio && 0 < p.audioStartNs

/-- There is sound only. -/
def audioOnly : Bool :=
  match p.demux with
  | .audio _ => true
  | _ => false

/-- The time of the sound that is heard. -/
def audioTime : Int :=
  max (asI64 (asI64 (p.audioFirstPtsUs + elapsedUs x.nanos p.audioStartNs) -
    bufferedUs x.buffered)) 0

/-- The time of the video that runs by itself. -/
def freeTime : Int :=
  if p.video then
    match p.firstPtsUs with
    | some first => asI64 (first + elapsedUs x.nanos p.originNs)
    | none => 0
  else 0

/-- The sound has been played to its end. -/
def audioEnded : Bool :=
  p.audioOnly && p.demuxDone && p.audioQ.isEmpty && p.pendingPcm = 0 && x.buffered = 0

/-- The time of the movie. -/
def mediaNow : Int :=
  let t := if p.audioEnded x then p.clockUs
    else if p.audioMaster then p.audioTime x else p.freeTime x
  if 0 < p.durationUs then min t p.durationUs else t

/-- The device has played this much before the stream. -/
def noteDevice : StreamPlayer δ :=
  if p.hasAudio && !p.devStartSet then
    { p with devStart := (x.device.map Device.position).getD 0, devStartSet := true }
  else p

/-- The sound begins when its first frame is due. -/
def startAudio (mediaNow : Int) : StreamPlayer δ :=
  if !p.audioPtsKnown && (p.audioOnly || p.audioFirstPtsUs ≤ mediaNow) && p.pendingPcm ≠ 0 then
    { p with audioPtsKnown := true, audioStartNs := x.nanos }
  else p

/-- The device takes samples. -/
def writeAudio : StreamPlayer δ :=
  if p.audioPtsKnown && p.pendingPcm ≠ 0 then
    let accepted := (x.device.map Device.accepted).getD 0
    { p with
      pendingPcm := p.pendingPcm - min (accepted * 2) p.pendingPcm
      audioStarted := p.audioStarted || 0 < accepted }
  else p

/-- The sound goes to the device. -/
def outputAudio (mediaNow : Int) : StreamPlayer δ :=
  let p := p.noteDevice x
  if p.hasAudio && p.audioFirstPtsKnown then (p.startAudio x mediaNow).writeAudio x else p

/-- The clock counts from a first frame. -/
def clockAnchored : Bool := p.firstPtsUs.isSome || p.audioPtsKnown

/-- The frames of the video go to the decoder. -/
def submitVideo (anchored : Bool) (mediaNow : Int) :
    List Submitted → StreamPlayer δ → StreamPlayer δ
  | [], p => p
  | sub :: subs, p =>
    if p.presented + decodeAhead ≤ p.submitted then p
    else
      match p.videoQ with
      | [] => p
      | vf :: q =>
        if anchored && asI64 (mediaNow + submitLeadUs) < vf.ptsUs then p
        else
          match sub with
          | .ok => submitVideo anchored mediaNow subs
              { p with submitted := p.submitted + 1, videoQ := q }
          | .queueFull => p
          | .failed => { p with videoQ := q }

/-- At the end of the file the decoder gives out what it still holds. -/
def flushVideo : StreamPlayer δ :=
  if p.demuxDone && p.videoQ.isEmpty && !p.flushed then { p with flushed := true } else p

/-- A frame comes out of the decoder. The clock counts from the first one. -/
def presentFrame (pts : Int) : StreamPlayer δ :=
  let p := { p with presented := p.presented + 1, lastPresPts := pts }
  if p.firstPtsUs.isNone then { p with firstPtsUs := some pts, originNs := x.nanos } else p

/-- The video goes to the decoder and to the screen. -/
def playVideo (mediaNow : Int) : StreamPlayer δ :=
  if p.video then
    let p := submitVideo p.clockAnchored mediaNow x.submits p
    x.decoded.foldl (presentFrame · x) p.flushVideo
  else p

/-- The clock shows the time, and the player is done when all is. -/
def showClock (mediaNow : Int) (master : Bool) : StreamPlayer δ :=
  { p with
    clockUs := mediaNow
    audioPosUs := if master then
        asI64 (p.audioFirstPtsUs +
          (asI64 (asI64 (((x.device.map Device.positionAfter).getD 0 - p.devStart : Nat) : Int) *
            1000000)).tdiv outRate)
      else p.audioPosUs
    done := p.done || (p.video && !p.audioOnly && p.flushed && p.videoQ.isEmpty &&
      p.submitted = p.presented) }

/-- The pump of a player that is not paused. -/
def play : StreamPlayer δ :=
  let mediaNow := p.mediaNow x
  let master := p.audioMaster
  let p := { p with done := p.done || p.audioEnded x }
  let p := p.outputAudio x mediaNow
  let p := p.playVideo x mediaNow
  p.showClock x mediaNow master

/-- The pump. A player that is paused does nothing. -/
def pumpStream : StreamPlayer δ :=
  let p := p.applyPause x
  if p.paused then p else p.play x

end StreamPlayer

end Wandr.Media
