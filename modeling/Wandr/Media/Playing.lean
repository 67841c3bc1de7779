import Wandr.Media.Player

/-!
# Playing

A player is driven by its application: it fills the queues, decodes, and starts the fetches
ahead; the display calls the pump; and the fetches end when they end. Any of these may come
next.

* `StreamPlayer.fillQueues_frame`: a call that fills the queues changes nothing that the later
  stages go by except the queues;
* `StreamPlayer.decodeAudio_frame`, `StreamPlayer.pumpStream_frame`: the later stages only take
  frames out of the queues, and leave the demuxer alone.
-/

namespace Wandr.Media

variable {δ : Type}

/-! ## Steps -/

/-- A player, the tasks that fetch for its reader, and the frames that have been queued. -/
structure Playing (δ : Type) where
  player : StreamPlayer δ
  tasks : List Nat := []
  seenV : List VFrame := []
  seenA : List AFrame := []

/-- What happens next. -/
inductive PlayerStep
  | fill (n : Nat) (fetches : Fetches)
  | decode (out : Nat → Nat × Nat)
  | pump (x : PumpInput)
  | drivePrefetch
  | complete (i : Nat) (a : Answer)

namespace Playing

variable (pull : δ → Pull δ) (openMp4 : List UInt8 → Except String (List Packet))
  (s : Playing δ)

/-- The queues are filled. A call for which the rounds are too few is not taken. -/
def fill (n : Nat) (fetches : Fetches) : Playing δ :=
  match s.player.fillQueues pull openMp4 fetches n with
  | none => s
  | some p =>
    { s with
      player := p
      seenV := s.seenV ++ p.videoQ.drop s.player.videoQ.length
      seenA := s.seenA ++ p.audioQ.drop s.player.audioQ.length }

/-- The shared part of the reader is changed. -/
def withShared (shared : ReaderShared) : Playing δ :=
  { s with player := { s.player with reader := { s.player.reader with shared } } }

/-- A task is started, if there is a handle. -/
def drivePrefetch : Playing δ :=
  if s.player.prefetch then
    match s.player.reader.shared.drivePrefetch with
    | none => s
    | some start =>
      { s.withShared { s.player.reader.shared with inflight := true } with
        tasks := s.tasks ++ [start] }
  else s

/-- A task ends. -/
def complete (i : Nat) (a : Answer) : Playing δ :=
  match s.tasks[i]? with
  | none => s
  | some start =>
    { s.withShared (s.player.reader.shared.complete start a) with tasks := s.tasks.eraseIdx i }

/-- Take a step. -/
def next (s : Playing δ) : PlayerStep → Playing δ
  | .fill n fetches => s.fill pull openMp4 n fetches
  | .decode out => { s with player := s.player.decodeAudio out }
  | .pump x => { s with player := s.player.pumpStream x }
  | .drivePrefetch => s.drivePrefetch
  | .complete i a => s.complete i a

end Playing

namespace StreamPlayer

variable {p : StreamPlayer δ} {x : PumpInput}

/-! ## The stages -/

/-- What the demuxer goes by, and what it has come to. -/
structure Feed (δ : Type) where
  video : Bool
  demux : Demux δ
  reader : HttpRangeReader
  prefetch : Bool
  psPrefix : List UInt8
  nalLen : Nat
  videoAnnexb : Bool
  demuxDone : Bool
  audioDec : Bool

/-- What the demuxer of a player goes by. -/
def feed (p : StreamPlayer δ) : Feed δ :=
  { video := p.video, demux := p.demux, reader := p.reader, prefetch := p.prefetch,
    psPrefix := p.psPrefix, nalLen := p.nalLen, videoAnnexb := p.videoAnnexb,
    demuxDone := p.demuxDone, audioDec := p.audioDec }

theorem stopDemux_frame (p : StreamPlayer δ) (atEof : Bool) :
    ∃ demuxDone, p.stopDemux atEof = { p with demuxDone } := by
  unfold stopDemux
  split <;> exact ⟨_, rfl⟩

theorem routeOx_frame (p : StreamPlayer δ) (src : OxSource δ) (atEof : Bool) (r : Demuxed) :
    ∃ videoQ audioQ demuxDone,
      (p.routeOx src atEof r).2 = { p with videoQ, audioQ, demuxDone } := by
  unfold routeOx
  split
  · split
    · exact ⟨_, _, _, rfl⟩
    · split <;> exact ⟨_, _, _, rfl⟩
  · obtain ⟨_, h⟩ := p.stopDemux_frame atEof
    exact ⟨_, _, _, h⟩

theorem routeAudio_frame (p : StreamPlayer δ) (src : SymSource δ) (atEof : Bool) (r : Demuxed) :
    ∃ videoQ audioQ demuxDone,
      (p.routeAudio src atEof r).2 = { p with videoQ, audioQ, demuxDone } := by
  unfold routeAudio
  split
  · split <;> exact ⟨_, _, _, rfl⟩
  · exact ⟨_, _, _, rfl⟩
  · obtain ⟨_, h⟩ := p.stopDemux_frame atEof
    exact ⟨_, _, _, h⟩

theorem produceFmp4_frame (openMp4 : List UInt8 → Except String (List Packet))
    (fetches : Fetches) (p : StreamPlayer δ) (src : Fmp4Source) (m : Marks) :
    ∃ demux videoQ audioQ demuxDone,
      (p.produceFmp4 openMp4 fetches src m).2 = { p with demux, videoQ, audioQ, demuxDone } := by
  unfold produceFmp4
  dsimp only
  split
  · split <;> exact ⟨_, _, _, _, rfl⟩
  · split
    · split <;> exact ⟨_, _, _, _, rfl⟩
    · obtain ⟨_, h⟩ := p.stopDemux_frame (src.videoDone && (!src.hasAudio || src.audioDone))
      exact ⟨_, _, _, _, h⟩

/-- A round of the demuxer changes the demuxer, its reader and the queues. -/
theorem produce_frame (pull : δ → Pull δ) (openMp4 : List UInt8 → Except String (List Packet))
    (fetches : Fetches) (p : StreamPlayer δ) (m : Marks) :
    ∃ demux reader videoQ audioQ demuxDone,
      (p.produce pull openMp4 fetches m).2 =
        { p with demux, reader, videoQ, audioQ, demuxDone } := by
  unfold produce
  split
  · next src _ =>
    obtain ⟨_, _, _, h⟩ := routeOx_frame { p with
      demux := .ox { src with dmx := ((pull src.dmx).run p.reader).2.1 }
      reader := ((pull src.dmx).run p.reader).2.2 } src p.demuxAtEof
      ((pull src.dmx).run p.reader).1
    exact ⟨_, _, _, _, _, h⟩
  · next src _ =>
    obtain ⟨_, _, _, h⟩ := routeAudio_frame { p with
      demux := .audio { src with format := ((pull src.format).run p.reader).2.1 }
      reader := ((pull src.format).run p.reader).2.2 } src p.demuxAtEof
      ((pull src.format).run p.reader).1
    exact ⟨_, _, _, _, _, h⟩
  · next src _ =>
    obtain ⟨_, _, _, _, h⟩ := produceFmp4_frame openMp4 fetches p src m
    exact ⟨_, _, _, _, _, h⟩

theorem fillRound_frame {pull : δ → Pull δ} {openMp4 : List UInt8 → Except String (List Packet)}
    {fetches : Fetches} {m m' : Marks} {p' : StreamPlayer δ} {b : Bool}
    (h : fillRound pull openMp4 fetches (m, p) = (b, m', p')) :
    ∃ demux reader videoQ audioQ demuxDone,
      p' = { p with demux, reader, videoQ, audioQ, demuxDone } := by
  rw [fillRound] at h
  split at h
  · cases h
    exact ⟨_, _, _, _, _, rfl⟩
  · have hf := produce_frame pull openMp4 fetches p m
    generalize p.produce pull openMp4 fetches m = r at h hf
    split at h <;> cases h <;> exact hf

/-- A call that fills the queues changes the demuxer, its reader and the queues. -/
theorem fillQueues_frame {pull : δ → Pull δ} {openMp4 : List UInt8 → Except String (List Packet)}
    {fetches : Fetches} {n : Nat} {p' : StreamPlayer δ}
    (h : fillQueues pull openMp4 fetches p n = some p') :
    ∃ demux reader videoQ audioQ demuxDone,
      p' = { p with demux, reader, videoQ, audioQ, demuxDone } := by
  obtain ⟨⟨m', p'⟩, hex, rfl⟩ := Option.map_eq_some_iff.1 h
  obtain ⟨⟨m, u⟩, hr, hb⟩ := Loop.exec_rounds hex
  have hu : ∃ demux reader videoQ audioQ demuxDone,
      u = { p with demux, reader, videoQ, audioQ, demuxDone } := by
    refine hr.invariant (P := fun v => ∃ demux reader videoQ audioQ demuxDone,
      v.2 = { p with demux, reader, videoQ, audioQ, demuxDone }) ⟨_, _, _, _, _, rfl⟩ ?_
    rintro ⟨m, u⟩ ⟨m', v⟩ ⟨_, _, _, _, _, rfl⟩ hv
    obtain ⟨_, _, _, _, _, rfl⟩ := fillRound_frame hv
    exact ⟨_, _, _, _, _, rfl⟩
  obtain ⟨_, _, _, _, _, rfl⟩ := hu
  obtain ⟨_, _, _, _, _, rfl⟩ := fillRound_frame hb
  exact ⟨_, _, _, _, _, rfl⟩

theorem decodeFrames_frame (out : Nat → Nat × Nat) (i : Nat) (q : List AFrame) :
    ∃ audioQ pendingPcm audioFirstPtsUs audioFirstPtsKnown,
      decodeFrames out i q p =
        { p with audioQ, pendingPcm, audioFirstPtsUs, audioFirstPtsKnown } ∧ audioQ <:+ q := by
  induction q generalizing i p with
  | nil => exact ⟨_, _, _, _, rfl, List.suffix_refl _⟩
  | cons af q ih =>
    unfold decodeFrames
    split
    · exact ⟨_, _, _, _, rfl, List.suffix_refl _⟩
    · split
      · exact ⟨_, _, _, _, rfl, List.suffix_cons _ _⟩
      · split
        · obtain ⟨a, b, c, d, h, hq⟩ := ih (p := p) (i + 1)
          exact ⟨a, b, c, d, h, hq.trans (List.suffix_cons _ _)⟩
        · unfold anchorAudio
          split
          · obtain ⟨a, b, c, d, h, hq⟩ :=
              ih (p := { p with pendingPcm := p.pendingPcm + (out i).2 }) (i + 1)
            exact ⟨a, b, c, d, h, hq.trans (List.suffix_cons _ _)⟩
          · obtain ⟨a, b, c, d, h, hq⟩ := ih (p := { p with
                audioFirstPtsUs := af.ptsUs
                audioFirstPtsKnown := true
                pendingPcm := p.pendingPcm + (out i).2 }) (i + 1)
            exact ⟨a, b, c, d, h, hq.trans (List.suffix_cons _ _)⟩

/-- Decoding takes frames of the sound out of the queue. -/
theorem decodeAudio_frame (p : StreamPlayer δ) (out : Nat → Nat × Nat) :
    ∃ audioQ pendingPcm audioFirstPtsUs audioFirstPtsKnown,
      p.decodeAudio out = { p with audioQ, pendingPcm, audioFirstPtsUs, audioFirstPtsKnown } ∧
        audioQ <:+ p.audioQ := by
  unfold decodeAudio
  split
  · exact decodeFrames_frame out 0 p.audioQ
  · exact ⟨_, _, _, _, rfl, List.suffix_refl _⟩

/-- Sending the sound to the device changes what is known of the device and the samples that
    are left. -/
theorem outputAudio_frame (p : StreamPlayer δ) (x : PumpInput) (mediaNow : Int) :
    ∃ devStart devStartSet audioPtsKnown audioStartNs pendingPcm audioStarted,
      p.outputAudio x mediaNow = { p with
        devStart, devStartSet, audioPtsKnown, audioStartNs, pendingPcm, audioStarted } := by
  unfold outputAudio noteDevice startAudio writeAudio
  split <;> (dsimp only; split) <;> (try split) <;> (try split) <;>
    exact ⟨_, _, _, _, _, _, rfl⟩

theorem submitVideo_frame (anchored : Bool) (mediaNow : Int) (subs : List Submitted) :
    ∃ submitted videoQ, submitVideo anchored mediaNow subs p = { p with submitted, videoQ } ∧
      videoQ <:+ p.videoQ := by
  induction subs generalizing p with
  | nil => exact ⟨_, _, rfl, List.suffix_refl _⟩
  | cons sub subs ih =>
    unfold submitVideo
    split
    · exact ⟨_, _, rfl, List.suffix_refl _⟩
    · split
      · exact ⟨_, _, rfl, List.suffix_refl _⟩
      · next vf q hq =>
        have hs : q <:+ p.videoQ := hq ▸ List.suffix_cons _ _
        split
        · exact ⟨_, _, rfl, List.suffix_refl _⟩
        · split
          · obtain ⟨a, b, h, hb⟩ :=
              ih (p := { p with submitted := p.submitted + 1, videoQ := q })
            exact ⟨a, b, h, hb.trans hs⟩
          · exact ⟨_, _, rfl, List.suffix_refl _⟩
          · exact ⟨_, _, rfl, hs⟩

theorem presentFrames_frame (x : PumpInput) (ts : List Int) :
    ∃ presented lastPresPts firstPtsUs originNs, ts.foldl (presentFrame · x) p =
      { p with presented, lastPresPts, firstPtsUs, originNs } := by
  induction ts generalizing p with
  | nil => exact ⟨_, _, _, _, rfl⟩
  | cons t ts ih =>
    obtain ⟨a, b, c, d, h⟩ : ∃ presented lastPresPts firstPtsUs originNs,
        p.presentFrame x t = { p with presented, lastPresPts, firstPtsUs, originNs } := by
      unfold presentFrame
      dsimp only
      split <;> exact ⟨_, _, _, _, rfl⟩
    rw [List.foldl_cons, h]
    exact ih (p := { p with
      presented := a, lastPresPts := b, firstPtsUs := c, originNs := d })

/-- The video takes frames out of its queue. -/
theorem playVideo_frame (p : StreamPlayer δ) (x : PumpInput) (mediaNow : Int) :
    ∃ submitted videoQ flushed presented lastPresPts firstPtsUs originNs,
      p.playVideo x mediaNow = { p with
        submitted, videoQ, flushed, presented, lastPresPts, firstPtsUs, originNs } ∧
      videoQ <:+ p.videoQ := by
  unfold playVideo
  split
  · obtain ⟨a, b, h, hb⟩ := submitVideo_frame (p := p) p.clockAnchored mediaNow x.submits
    dsimp only
    rw [h]
    unfold flushVideo
    split
    · obtain ⟨c, d, e, f, h'⟩ := presentFrames_frame
        (p := { p with submitted := a, videoQ := b, flushed := true }) x x.decoded
      exact ⟨_, _, _, _, _, _, _, h', hb⟩
    · obtain ⟨c, d, e, f, h'⟩ := presentFrames_frame
        (p := { p with submitted := a, videoQ := b }) x x.decoded
      exact ⟨_, _, _, _, _, _, _, h', hb⟩
  · exact ⟨_, _, _, _, _, _, _, rfl, List.suffix_refl _⟩

/-- The pump leaves the demuxer alone, and takes frames of the video out of the queue. -/
theorem pumpStream_frame (p : StreamPlayer δ) (x : PumpInput) :
    (p.pumpStream x).feed = p.feed ∧ (p.pumpStream x).videoQ <:+ p.videoQ ∧
      (p.pumpStream x).audioQ = p.audioQ := by
  have hp : (p.applyPause x).feed = p.feed ∧ (p.applyPause x).videoQ = p.videoQ ∧
      (p.applyPause x).audioQ = p.audioQ := by
    unfold applyPause
    split
    · exact ⟨rfl, rfl, rfl⟩
    · split <;> exact ⟨rfl, rfl, rfl⟩
  rw [← hp.1, ← hp.2.1, ← hp.2.2]
  unfold pumpStream
  generalize p.applyPause x = p
  dsimp only
  split
  · exact ⟨rfl, List.suffix_refl _, rfl⟩
  · unfold play
    dsimp only
    obtain ⟨a, b, c, d, e, f, h⟩ := outputAudio_frame
      { p with done := p.done || p.audioEnded x } x (p.mediaNow x)
    rw [h]
    obtain ⟨a', b', c', d', e', f', g', h', hb⟩ := playVideo_frame
      { p with
        done := p.done || p.audioEnded x, devStart := a, devStartSet := b, audioPtsKnown := c,
        audioStartNs := d, pendingPcm := e, audioStarted := f } x (p.mediaNow x)
    rw [h']
    exact ⟨rfl, hb, rfl⟩

end StreamPlayer

end Wandr.Media
