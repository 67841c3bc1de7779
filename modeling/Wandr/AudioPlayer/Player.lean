import Mathlib.Data.List.Dedup

/-!
# The audio player

A queue is played in an order. The track that is decoded may be ahead of the one that is heard: what
is decoded is written to the device, which plays it later, and segments say from which frame of the
device on a track is heard. Near the end of a track the next one may be blended into it.

* `pump`: decoding and writing, until the device is full;
* `engineStep`: what the player does by itself;
* `Command`, `step`: what is asked of it.
-/

namespace Wandr.AudioPlayer

def OUT_RATE : Nat := 48000

/-! ## Streams -/

/-- What the demuxer gives next. -/
inductive Packet (S : Type)
  /-- A packet of another stream of the file. -/
  | foreign
  /-- A packet that cannot be decoded; the next one may be. -/
  | broken
  /-- Nothing can be decoded any more. -/
  | fatal
  | audio (samples : List S)

/-- What is done to samples: they are resampled, scaled and filtered, and two of them are blended at
a place in the blend. -/
class Dsp (S D : Type) where
  process : D → List S → List S × D
  resetEq : D → D
  resetResampler : D → D
  blend : Nat → Nat → S → S → S

/-- A file that is opened. -/
structure Source (S D : Type) where
  channels : Nat
  totalFrames : Nat
  packets : List (Packet S)
  dsp : D

/-- A track that is decoded. -/
structure Loaded (S D : Type) where
  /-- The place in the library of the file that is read. -/
  lib : Nat
  channels : Nat
  totalFrames : Nat
  packets : List (Packet S)
  dsp : D
  pending : List S := []
  pendingPos : Nat := 0
  eof : Bool := false
  base : Nat := 0
  segStarted : Bool := false
  decoded : Nat := 0

structure Xfade (S D : Type) where
  next : Loaded S D
  order : Nat
  pos : Nat
  dur : Nat

/-- A track that has been written to the device from one of its frames on. -/
structure Seg where
  orderPos : Nat
  libIndex : Nat
  totalFrames : Nat
  devStart : Nat
  base : Nat
  deriving DecidableEq

def outLayoutStereo (channels : Nat) : Bool := channels ≥ 2

/-- The device: how many frames it has played, and how many it has still to play. -/
structure Playback where
  stereo : Bool
  position : Nat := 0
  buffered : Nat := 0

namespace Playback

variable (pb : Playback)

def channels : Nat := if pb.stereo then 2 else 1

def flush : Playback := { pb with buffered := 0 }

/-- The device plays on by some frames, if it has them. -/
def consume (n : Nat) : Playback :=
  { pb with position := pb.position + min n pb.buffered, buffered := pb.buffered - n }

end Playback

namespace Loaded

variable {S D : Type} (l : Loaded S D)

def ch : Nat := max l.channels 1

/-- What is decoded and not yet written. -/
def unwritten : List S := l.pending.drop l.pendingPos

/-- Samples have been written. -/
def advance (n : Nat) : Loaded S D :=
  if l.pendingPos + n ≥ l.pending.length then { l with pending := [], pendingPos := 0 }
  else { l with pendingPos := l.pendingPos + n }

/-- There is nothing left to write. -/
def drained : Bool := l.eof && decide (l.pendingPos ≥ l.pending.length)

variable [Dsp S D]

def decodePackets (l : Loaded S D) : List (Packet S) → Loaded S D
  | [] => { l with packets := [], eof := true }
  | .foreign :: ps => decodePackets l ps
  | .broken :: ps => decodePackets l ps
  | .fatal :: ps => { l with packets := ps, eof := true }
  | .audio samples :: ps =>
    let out := Dsp.process l.dsp samples
    { l with
      packets := ps
      dsp := out.2
      decoded := l.decoded + out.1.length / l.ch
      pending := out.1
      pendingPos := 0 }

/-- Decode the next packet of the track. -/
def decodeChunk : Loaded S D := l.decodePackets l.packets

end Loaded

/-! ## The state -/

structure LibTrack where
  artist : String
  album : String
  genre : String

structure State (S D : Type) where
  library : List LibTrack := []
  albums : List (List Nat) := []
  artists : List (List Nat) := []
  genres : List (List Nat) := []
  tab : Int := 0
  drill : Option Nat := none
  queue : List Nat := []
  order : List Nat := []
  orderPos : Nat := 0
  scanned : Bool := false
  loaded : Option (Loaded S D) := none
  decodeOrder : Nat := 0
  segments : List Seg := []
  pb : Option Playback := none
  pbStereo : Bool := false
  gaplessBlocked : Bool := false
  backgrounded : Bool := false
  playing : Bool := false
  swFrames : Nat := 0
  ended : Bool := false
  shuffle : Bool := false
  repeating : Bool := false
  rng : UInt64 := 0
  /-- The length of a blend, in frames. -/
  xfadeFrames : Nat := 0
  xfade : Option (Xfade S D) := none
  /-- How many frames the device will take of each of the next writes; then it is full. -/
  takes : List Nat := []
  /-- The samples the device has been given since it was opened, less what it was told to drop. -/
  log : List S := []

/-- What comes from elsewhere during a call. -/
structure Env (S D : Type) where
  opens : Nat → Option (Source S D)
  /-- The packets after a seek; nothing if it fails. -/
  seeks : Nat → Nat → Option (List (Packet S))
  device : Bool
  takes : List Nat
  /-- For how many rounds a loop is run at most. -/
  rounds : Nat
  /-- How much the device plays during the call. -/
  drains : Nat
  /-- The tracks that are found, by the first call. -/
  scan : List LibTrack

variable {S D : Type} (e : Env S D) (s : State S D)

def openTrack (lib : Nat) : Option (Loaded S D) :=
  if lib < s.library.length then
    (e.opens lib).map fun src =>
      { lib
        channels := src.channels
        totalFrames := src.totalFrames
        packets := src.packets
        dsp := src.dsp }
  else none

/-- The track that is heard, or else the one that is decoded. -/
def curLibIndex : Option Nat :=
  match s.segments.head? with
  | some sg => some sg.libIndex
  | none => s.order[s.orderPos]?

def curTotal : Nat :=
  match s.segments.head? with
  | some sg => sg.totalFrames
  | none => (s.loaded.map Loaded.totalFrames).getD 0

def positionFrames : Nat :=
  match s.pb, s.segments.head? with
  | some pb, some sg =>
    let p := sg.base + (pb.position - sg.devStart)
    if sg.totalFrames > 0 then min p sg.totalFrames else p
  | _, _ => s.swFrames

/-- Give the device samples; it says how many frames it takes. -/
def write (samples : List S) : Nat × State S D :=
  match s.pb, s.takes with
  | some pb, t :: ts =>
    let n := min t (samples.length / pb.channels)
    (n, { s with
      takes := ts
      pb := some { pb with buffered := pb.buffered + n }
      log := s.log ++ samples.take (n * pb.channels) })
  | _, _ => (0, s)

/-- What the device has not played yet is dropped. -/
def flush : State S D :=
  match s.pb with
  | some pb => { s with pb := some pb.flush, log := s.log.take (pb.position * pb.channels) }
  | none => s

/-- The device is started, and opened before if it is not. -/
def play : State S D :=
  match s.loaded with
  | none => s
  | some l =>
    let s := { s with ended := false }
    let s := match s.pb with
      | some _ => s
      | none =>
        if e.device then
          { s with
            pb := some { stereo := outLayoutStereo l.channels }
            pbStereo := outLayoutStereo l.channels
            gaplessBlocked := false
            segments := []
            loaded := some { l with segStarted := false }
            log := [] }
        else s
    { s with playing := true }

variable [Dsp S D]

def eqResetState : State S D :=
  { s with loaded := s.loaded.map fun l => { l with dsp := Dsp.resetEq S l.dsp } }

/-! ## Loading -/

/-- The device is closed if the new track has another layout, and else emptied. -/
def closeOrFlush : State S D :=
  match s.pb with
  | some _ =>
    if (s.loaded.map fun l => outLayoutStereo l.channels).getD s.pbStereo ≠ s.pbStereo then
      { s with pb := none }
    else flush s
  | none => s

/-- Go to a track of the order, and drop what was decoded. -/
def hardLoad (orderPos : Nat) (autoplay : Bool) : State S D :=
  match s.order[orderPos]? with
  | none => s
  | some lib =>
    let s := { s with
      orderPos
      decodeOrder := orderPos
      loaded := openTrack e s lib
      segments := []
      xfade := none
      gaplessBlocked := false
      ended := false
      swFrames := 0 }
    let s := eqResetState (closeOrFlush s)
    if autoplay then play e s else s

/-- Go on with the next track on the same device, if it opens and has the layout of the device. -/
def softAdvance (nextOrder : Nat) : Option (State S D) :=
  match s.order[nextOrder]? with
  | none => none
  | some lib =>
    match openTrack e s lib with
    | none => none
    | some l =>
      if outLayoutStereo l.channels ≠ s.pbStereo then none
      else some { s with loaded := some l, decodeOrder := nextOrder }

/-- The segment of the decoded track, before its first sample is written. -/
def ensureSeg : State S D :=
  match s.loaded, s.pb with
  | some l, some pb =>
    if l.segStarted then s
    else
      { s with
        segments := s.segments ++ [{
          orderPos := s.decodeOrder
          libIndex := s.order[s.decodeOrder]?.getD 0
          totalFrames := l.totalFrames
          devStart := pb.position + pb.buffered
          base := l.base }]
        loaded := some { l with segStarted := true } }
  | _, _ => s

def nextDecodeOrder : Option Nat :=
  if s.decodeOrder + 1 < s.order.length then some (s.decodeOrder + 1)
  else if s.repeating && !s.order.isEmpty then some 0
  else none

/-- The segments that have been played are dropped, but for the last. -/
def dropPlayed (played : Nat) : List Seg → List Seg
  | a :: b :: rest => if played ≥ b.devStart then dropPlayed played (b :: rest) else a :: b :: rest
  | segs => segs

def advanceAudible : State S D :=
  let segments := dropPlayed ((s.pb.map Playback.position).getD 0) s.segments
  { s with segments, orderPos := (segments.head?.map Seg.orderPos).getD s.orderPos }

/-! ## Blends -/

def decodeMore : State S D := { s with loaded := s.loaded.map fun l => l.decodeChunk }

/-- Near the end of a track the next one begins, if it can be blended. -/
def maybeStartXfade : State S D :=
  if s.xfadeFrames = 0 ∨ s.xfade.isSome then s
  else
    match s.loaded, s.pb with
    | some l, some pb =>
      if l.totalFrames = 0 ∨ l.decoded < l.totalFrames - s.xfadeFrames then s
      else
        match nextDecodeOrder s with
        | none => s
        | some no =>
          match s.order[no]?.bind (openTrack e s) with
          | none => s
          | some next =>
            if outLayoutStereo next.channels ≠ s.pbStereo then s
            else
              { s with
                segments := s.segments ++ [{
                  orderPos := no
                  libIndex := s.order[no]?.getD 0
                  totalFrames := next.totalFrames
                  devStart := pb.position + pb.buffered
                  base := 0 }]
                xfade := some {
                  next := { next with segStarted := true }
                  order := no
                  pos := 0
                  dur := s.xfadeFrames } }
    | _, _ => s

def xfadeFinish : State S D :=
  match s.xfade with
  | some x =>
    { s with xfade := none, decodeOrder := x.order, orderPos := x.order, loaded := some x.next }
  | none => s

/-- Frames of two tracks, blended from a place in the blend on. -/
def mixSamples (D : Type) [Dsp S D] (ch pos dur : Nat) (ls xs : List S) : List S :=
  (ls.zip xs).mapIdx fun i p => Dsp.blend D (pos + i / ch) dur p.1 p.2

/-- Decode a packet if there is nothing left of the last one. -/
def refill (l : Loaded S D) : Loaded S D :=
  if l.pendingPos ≥ l.pending.length && !l.eof then l.decodeChunk else l

/-- Blend the two tracks and write what comes of it; each round needs the device to take some. -/
def pumpXfade : Nat → State S D → State S D
  | 0, s => s
  | n + 1, s =>
    match s.loaded.map refill, s.xfade with
    | some l, some x =>
      let x := { x with next := refill x.next }
      let s := { s with loaded := some l, xfade := some x }
      let la := (l.pending.length - l.pendingPos) / l.ch
      let na := (x.next.pending.length - x.next.pendingPos) / l.ch
      if x.dur - x.pos = 0 ∨ (l.eof ∧ la = 0) then xfadeFinish s
      else if min la na = 0 then
        if x.next.eof ∧ na = 0 then xfadeFinish s else s
      else
        let k := min (min la na) (x.dur - x.pos)
        let mix := mixSamples D l.ch x.pos x.dur (l.unwritten.take (k * l.ch))
          (x.next.unwritten.take (k * l.ch))
        let (accepted, s) := write s mix
        if accepted = 0 then s
        else
          pumpXfade n
            { s with
              loaded := some (l.advance (accepted * l.ch))
              xfade := some { x with
                next := x.next.advance (accepted * l.ch), pos := x.pos + accepted } }
    | _, _ => s

/-! ## Writing -/

/-- A round of the pump, and whether there is another. -/
def pumpRound : Bool × State S D :=
  match s.loaded with
  | none => (false, s)
  | some l =>
    if l.pendingPos < l.pending.length then
      let (accepted, s) := write (ensureSeg s) l.unwritten
      (accepted ≠ 0, { s with loaded := s.loaded.map fun l => l.advance (accepted * l.ch) })
    else if !l.eof then
      let s := maybeStartXfade e (decodeMore s)
      if s.xfade.isSome then (false, pumpXfade (s.takes.length + 1) s) else (true, s)
    else if s.gaplessBlocked then (false, s)
    else
      match nextDecodeOrder s with
      | some n =>
        match softAdvance e s n with
        | some s => (true, s)
        | none => (false, { s with gaplessBlocked := true })
      | none => (false, s)

def pumpLoop : Nat → State S D → State S D
  | 0, s => s
  | n + 1, s =>
    match pumpRound e s with
    | (true, s) => pumpLoop n s
    | (false, s) => s

/-- Write what is decoded until the device is full. -/
def pump : State S D :=
  if s.pb.isNone || s.loaded.isNone then s
  else
    let s := if s.xfade.isNone then maybeStartXfade e s else s
    if s.xfade.isSome then pumpXfade (s.takes.length + 1) s else pumpLoop e e.rounds s

/-! ## Seeks -/

namespace Loaded

/-- Go to a frame of the track. -/
def seek (l : Loaded S D) (target : Nat) : Loaded S D :=
  { l with
    packets := (e.seeks l.lib target).getD l.packets
    dsp := Dsp.resetResampler S l.dsp
    pending := []
    pendingPos := 0
    eof := false
    base := target
    decoded := target
    segStarted := false }

/-- A frame of the track, or its end if it is shorter. -/
def target (l : Loaded S D) (frame : Nat) : Nat :=
  if l.totalFrames > 0 then min frame l.totalFrames else frame

end Loaded

/-- If the decoded track is not the one that is heard, that one is opened again. -/
def resync : State S D :=
  match s.segments.head? with
  | some front =>
    if s.decodeOrder ≠ front.orderPos then
      match openTrack e s front.libIndex with
      | some l => { s with loaded := some l, decodeOrder := front.orderPos }
      | none => s
    else s
  | none => s

def seekTo (frame : Nat) : State S D :=
  let s := resync e s
  match s.loaded with
  | none => s
  | some l =>
    let s := { s with
      loaded := some (l.seek e (l.target frame))
      segments := []
      xfade := none
      gaplessBlocked := false
      swFrames := l.target frame
      ended := false }
    pump e (eqResetState (flush s))

/-- The device is closed, and what is decoded goes to a frame. -/
def rewind (l : Loaded S D) (frame : Nat) : State S D :=
  eqResetState { s with
    pb := none
    segments := []
    xfade := none
    gaplessBlocked := false
    ended := false
    loaded := some (l.seek e (l.target frame))
    swFrames := l.target frame }

/-- Open the device again where the track is. -/
def reopenAtCurrent : State S D :=
  match s.loaded with
  | none => s
  | some l =>
    let s' := rewind e s l (positionFrames s)
    if s.playing then pump e (play e s') else s'

/-! ## The order -/

def swap (v : List Nat) (i j : Nat) : List Nat :=
  match v[i]?, v[j]? with
  | some a, some b => (v.set i b).set j a
  | _, _ => v

/-- A number up to a bound, and the state of the generator after it. -/
def draw (rng : UInt64) (i : Nat) : Nat × UInt64 :=
  let rng := rng * 6364136223846793005 + 1442695040888963407
  ((rng >>> 33).toNat % (i + 1), rng)

/-- The tracks up to one of them are shuffled. -/
def shuffleTo (draw : UInt64 → Nat → Nat × UInt64) : Nat → List Nat → UInt64 → List Nat × UInt64
  | 0, v, rng => (v, rng)
  | i + 1, v, rng =>
    shuffleTo draw i (swap v (i + 1) (draw rng (i + 1)).1) (draw rng (i + 1)).2

def fisherYates (v : List Nat) (rng : UInt64) : List Nat × UInt64 :=
  shuffleTo draw (v.length - 1) v rng

/-- The order the queue is played in, and the state of the generator after it. -/
def newOrder : List Nat × UInt64 :=
  if s.shuffle then fisherYates s.queue s.rng else (s.queue, s.rng)

/-- The order is made anew. What is decoded and written keeps its track in it. -/
def applyOrder (keepLib : Option Nat) : State S D :=
  let decodeLib := s.order[s.decodeOrder]?
  let order := (newOrder s).1
  let segments := (s.segments.filter fun sg => order.contains sg.libIndex).map fun sg =>
    { sg with orderPos := (order.idxOf? sg.libIndex).getD sg.orderPos }
  let orderPos := match segments.head?, keepLib with
    | some front, _ => front.orderPos
    | none, some lib => (order.idxOf? lib).getD 0
    | none, none => 0
  { s with
    order, segments, orderPos
    rng := (newOrder s).2
    decodeOrder := (decodeLib.bind order.idxOf?).getD orderPos }

/-- The tracks become the queue, and one of them is played. -/
def playFrom (tracks : List Nat) (tapped : Nat) : State S D :=
  match tracks[min tapped (tracks.length - 1)]? with
  | none => s
  | some keep =>
    let s := applyOrder { s with queue := tracks } (some keep)
    hardLoad e s s.orderPos true

/-! ## The library -/

/-- The tracks with each value of a key, in the order of these. -/
def groupBy (lib : List LibTrack) (key : LibTrack → String) : List (List Nat) :=
  ((lib.map key).dedup.mergeSort fun a b => decide (a ≤ b)).map fun k =>
    (List.range lib.length).filter fun i => lib[i]?.map key = some k

def showingTracks : Bool := s.tab = 3 || s.drill.isSome

def groupsFor : List (List Nat) :=
  if s.tab = 0 then s.albums else if s.tab = 1 then s.artists else if s.tab = 2 then s.genres
  else []

def currentTrackList : List Nat :=
  if s.tab = 3 then List.range s.library.length
  else
    match s.drill with
    | some g => (groupsFor s)[g]?.getD []
    | none => []

/-! ## The engine -/

/-- The library is read by the first call. -/
def firstScan : State S D :=
  if s.scanned then s
  else
    let s := { s with
      scanned := true
      rng := 0x9E3779B97F4A7C15
      library := e.scan
      albums := groupBy e.scan LibTrack.album
      artists := groupBy e.scan LibTrack.artist
      genres := groupBy e.scan LibTrack.genre
      queue := List.range e.scan.length
      order := List.range e.scan.length }
    if s.library.isEmpty then s else hardLoad e s 0 false

/-- When everything has been played, the next track is loaded, or playing ends. -/
def finishTrack : State S D :=
  if s.playing && s.xfade.isNone && (s.loaded.map Loaded.drained).getD true &&
      (s.pb.map fun pb => pb.buffered == 0).getD true then
    match nextDecodeOrder s with
    | some n => hardLoad e s n true
    | none =>
      { s with pb := none, playing := false, ended := true, swFrames := curTotal s, segments := [] }
  else s

def engineStep : State S D :=
  let s := firstScan e s
  if s.loaded.isNone && s.segments.isEmpty then s
  else
    let s := advanceAudible s
    let s := if s.playing then pump e s else s
    finishTrack e { s with pb := s.pb.map fun pb => pb.consume e.drains }

/-! ## Commands -/

inductive Command
  | toggle
  | play
  | pause
  | stop
  /-- To a frame; it is computed from a fraction, a time or a difference of times. -/
  | seek (frame : Nat)
  | next
  | prev
  | toggleShuffle
  | toggleRepeat
  | setTab (tab : Int)
  | goBack
  | rowTap (i : Nat)
  | cycleXfade
  | setBackgrounded (bg : Bool)
  /-- The player does what is due. -/
  | tick
  /-- The device plays on. -/
  | consume (n : Nat)

def pause : State S D := { s with playing := false }

def next : State S D :=
  if s.order.isEmpty then s else hardLoad e s ((s.orderPos + 1) % s.order.length) true

def prev : State S D :=
  if s.order.isEmpty then s
  else if positionFrames s > 3 * OUT_RATE then seekTo e s 0
  else hardLoad e s (if s.orderPos = 0 then s.order.length - 1 else s.orderPos - 1) true

def toggleShuffle : State S D :=
  let s := { s with shuffle := !s.shuffle }
  applyOrder s (curLibIndex s)

def rowTap (i : Nat) : State S D :=
  if showingTracks s then
    if i < (currentTrackList s).length then playFrom e s (currentTrackList s) i else s
  else if i < (groupsFor s).length then { s with drill := some i }
  else s

/-- The blend is none, or of two, four, six or eight seconds. -/
def cycleXfade : State S D :=
  { s with
    xfadeFrames := match s.xfadeFrames / OUT_RATE with
      | 0 => 2 * OUT_RATE
      | 2 => 4 * OUT_RATE
      | 4 => 6 * OUT_RATE
      | 6 => 8 * OUT_RATE
      | _ => 0 }

def setBackgrounded (bg : Bool) : State S D :=
  if s.backgrounded = bg then s else reopenAtCurrent e { s with backgrounded := bg }

def step (c : Command × Env S D) : State S D :=
  let e := c.2
  let s := { s with takes := e.takes }
  match c.1 with
  | .toggle => if s.playing then pause s else play e s
  | .play => play e s
  | .pause => pause s
  | .stop => seekTo e (pause s) 0
  | .seek frame => seekTo e s frame
  | .next => next e s
  | .prev => prev e s
  | .toggleShuffle => toggleShuffle s
  | .toggleRepeat => { s with repeating := !s.repeating }
  | .setTab tab => { s with tab, drill := none }
  | .goBack => { s with drill := none }
  | .rowTap i => rowTap e s i
  | .cycleXfade => cycleXfade s
  | .setBackgrounded bg => setBackgrounded e s bg
  | .tick => engineStep e s
  | .consume n => { s with pb := s.pb.map fun pb => pb.consume n }

end Wandr.AudioPlayer
