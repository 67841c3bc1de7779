import Wandr.Media.Player

/-!
# Seeking

A seek asks the demuxer for a time. If the demuxer refuses the player goes on as before;
otherwise what is queued is dropped, and the clock goes on from where the demuxer landed, to be
anchored anew by the next frames. The time is limited to the duration, but where the duration is
not known a seek goes to the start: the target of a relative seek is not limited there.

* `StreamPlayer.seekDemux_settings`: a demuxer keeps its settings;
* `StreamPlayer.doSeek_refused`, `StreamPlayer.doSeek_landed`: what a seek leaves;
* `StreamPlayer.seek_iff`: a seek is right if and only if the duration is known or it goes to the
  start;
* `StreamPlayer.seek_unknown`: a seek in a stream without a duration.
-/

namespace Wandr.Media

/-- What a demuxer is asked for: a time in ticks of a stream, or in seconds and nanoseconds. -/
inductive SeekTo
  | ticks (stream : Nat) (ts : Int)
  | time (secs : Int) (nanos : Nat) (trackId : Nat)
  deriving DecidableEq

/-- A number between two others, or the one of them that is nearer. -/
def clamp (x lo hi : Int) : Int := if x < lo then lo else if hi < x then hi else x

/-- A time in ticks of the video. -/
def OxSource.ticksOf {δ : Type} (src : OxSource δ) (targetUs : Int) : Int :=
  if src.vNum = 0 then 0
  else asI64 ((max targetUs 0 * src.vDen).tdiv (src.vNum * 1000000))

/-- Both tracks go to the segment that covers a time. The video says where that is. -/
def Fmp4Source.seek (s : Fmp4Source) (targetUs : Int) : Int × Fmp4Source :=
  let (landed, video) := s.video.seek targetUs
  (landed, { video, audio := s.audio.map fun a => (a.seek targetUs).2 })

/-- A demuxer but for its state. -/
def Demux.settings {δ : Type} : Demux δ → Demux Unit
  | .ox src => .ox { src with dmx := () }
  | .fmp4 src => .fmp4 src
  | .audio src => .audio { src with format := () }

/-- What a seek comes to: the player, the time that is returned, and whether the video decoder was
    reset and the device flushed. -/
structure Sought (δ : Type) where
  player : StreamPlayer δ
  clockUs : Int
  decReset : Bool := false
  deviceFlushed : Bool := false

namespace StreamPlayer

variable {δ : Type}

/-- The target of a seek by some time from where the clock is. Without a stream it is the start. -/
def seekFromClock (p : Option (StreamPlayer δ)) (deltaUs : Int) : Int :=
  match p with
  | some p =>
    let t := max (asI64 (p.clockUs + deltaUs)) 0
    if 0 < p.durationUs then min t p.durationUs else t
  | none => 0

section
variable (p : StreamPlayer δ)

/-- The time that the demuxer is asked for. -/
def seekTarget (targetUs : Int) : Int := clamp targetUs 0 (max p.durationUs 0)

/-- Start anew, after a discontinuity. -/
def restart (landedUs : Int) : StreamPlayer δ :=
  let p := if p.video then
    { p with
      videoQ := []
      firstPtsUs := none
      originNs := 0
      submitted := 0
      presented := 0
      lastPresPts := 0
      flushed := false }
    else p
  { p with
    audioQ := []
    pendingPcm := 0
    audioPtsKnown := false
    audioFirstPtsKnown := false
    audioFirstPtsUs := 0
    audioStartNs := 0
    devStart := 0
    devStartSet := false
    done := false
    demuxDone := false
    clockUs := landedUs }

end

section
-- What a demuxer does when it is asked for a time: where it landed, if it did not refuse, and
-- what it leaves of itself and of its reader.
variable (seekTo : δ → SeekTo → HttpRangeReader → Option Int × δ × HttpRangeReader)
  (p : StreamPlayer δ)

/-- Ask the demuxer for a time. -/
def seekDemux (targetUs : Int) : Option Int × Demux δ × HttpRangeReader :=
  match p.demux with
  | .ox src =>
    let (landed, dmx, reader) :=
      seekTo src.dmx (.ticks src.videoStream (src.ticksOf targetUs)) p.reader
    (landed.map fun pts => ticksToUs pts src.vNum src.vDen, .ox { src with dmx }, reader)
  | .fmp4 src => (some (src.seek targetUs).1, .fmp4 (src.seek targetUs).2, p.reader)
  | .audio src =>
    let secs := max (targetUs.tdiv 1000000) 0
    let nanos := ((max targetUs 0).tmod 1000000 * 1000).toNat
    let (landed, format, reader) := seekTo src.format (.time secs nanos src.trackId) p.reader
    (landed.map fun pts => ticksToUs pts src.num src.den, .audio { src with format }, reader)

/-- Seek to a time. -/
def doSeek (targetUs : Int) : Sought δ :=
  match p.seekDemux seekTo (p.seekTarget targetUs) with
  | (none, demux, reader) => { player := { p with demux, reader }, clockUs := p.clockUs }
  | (some landed, demux, reader) =>
    { player := { p with demux, reader }.restart landed, clockUs := landed,
      decReset := p.video, deviceFlushed := true }

end

/-! ## What a seek leaves -/

/-- A player that starts anew at a time. Without video there is no video to start. -/
structure Restarted (p : StreamPlayer δ) (landedUs : Int) : Prop where
  audioQ : p.audioQ = []
  videoQ : p.video → p.videoQ = []
  pendingPcm : p.pendingPcm = 0
  videoAnchor : p.video → p.firstPtsUs = none ∧ p.originNs = 0
  audioAnchor : p.audioPtsKnown = false ∧ p.audioFirstPtsKnown = false ∧ p.audioFirstPtsUs = 0 ∧
    p.audioStartNs = 0 ∧ p.devStart = 0 ∧ p.devStartSet = false
  counters : p.video → p.submitted = 0 ∧ p.presented = 0 ∧ p.lastPresPts = 0 ∧ p.flushed = false
  demuxDone : p.demuxDone = false
  done : p.done = false
  clockUs : p.clockUs = landedUs

/-- What a seek leaves alone, of what is neither a queue nor a clock. -/
structure KeepsOn (p p' : StreamPlayer δ) : Prop where
  build : p'.video = p.video ∧ p'.prefetch = p.prefetch
  framing : p'.psPrefix = p.psPrefix ∧ p'.nalLen = p.nalLen ∧ p'.videoAnnexb = p.videoAnnexb
  sound : p'.audioDec = p.audioDec ∧ p'.hasAudio = p.hasAudio ∧ p'.audioStarted = p.audioStarted ∧
    p'.audioPosUs = p.audioPosUs
  duration : p'.durationUs = p.durationUs
  paused : p'.paused = p.paused ∧ p'.pausedAtNs = p.pausedAtNs

variable {seekTo : δ → SeekTo → HttpRangeReader → Option Int × δ × HttpRangeReader}
  {p : StreamPlayer δ} {targetUs landedUs : Int}

theorem restarted_restart : (p.restart landedUs).Restarted landedUs := by
  unfold restart
  cases hv : p.video with
  | false =>
    exact ⟨rfl, fun h => absurd (hv.symm.trans h) Bool.false_ne_true, rfl,
      fun h => absurd (hv.symm.trans h) Bool.false_ne_true, ⟨rfl, rfl, rfl, rfl, rfl, rfl⟩,
      fun h => absurd (hv.symm.trans h) Bool.false_ne_true, rfl, rfl, rfl⟩
  | true =>
    exact ⟨rfl, fun _ => rfl, rfl, fun _ => ⟨rfl, rfl⟩, ⟨rfl, rfl, rfl, rfl, rfl, rfl⟩,
      fun _ => ⟨rfl, rfl, rfl, rfl⟩, rfl, rfl, rfl⟩

theorem keepsOn_restart : p.KeepsOn (p.restart landedUs) := by
  unfold restart
  dsimp only
  split_ifs <;> exact ⟨⟨rfl, rfl⟩, ⟨rfl, rfl, rfl⟩, ⟨rfl, rfl, rfl, rfl⟩, rfl, ⟨rfl, rfl⟩⟩

/-- A demuxer that refuses is the one it was but for its state. -/
theorem seekDemux_settings (h : (p.seekDemux seekTo targetUs).1 = none) :
    (p.seekDemux seekTo targetUs).2.1.settings = p.demux.settings := by
  unfold seekDemux at *
  cases hd : p.demux with
  | ox src => rfl
  | fmp4 src =>
    rw [hd] at h
    cases h
  | audio src => rfl

theorem doSeek_refused (h : (p.seekDemux seekTo (p.seekTarget targetUs)).1 = none) :
    p.doSeek seekTo targetUs =
      { player := { p with
          demux := (p.seekDemux seekTo (p.seekTarget targetUs)).2.1
          reader := (p.seekDemux seekTo (p.seekTarget targetUs)).2.2 }
        clockUs := p.clockUs } := by
  unfold doSeek
  generalize p.seekDemux seekTo (p.seekTarget targetUs) = r at h ⊢
  obtain ⟨landed, demux, reader⟩ := r
  obtain rfl : landed = none := h
  rfl

theorem doSeek_landed (h : (p.seekDemux seekTo (p.seekTarget targetUs)).1 = some landedUs) :
    (p.doSeek seekTo targetUs).player.Restarted landedUs ∧
      p.KeepsOn (p.doSeek seekTo targetUs).player ∧
      (p.doSeek seekTo targetUs).clockUs = landedUs ∧
      (p.doSeek seekTo targetUs).decReset = p.video ∧
      (p.doSeek seekTo targetUs).deviceFlushed = true := by
  unfold doSeek
  generalize p.seekDemux seekTo (p.seekTarget targetUs) = r at h ⊢
  obtain ⟨landed, demux, reader⟩ := r
  obtain rfl : landed = some landedUs := h
  have hk : KeepsOn { p with demux, reader } (restart { p with demux, reader } landedUs) :=
    keepsOn_restart
  exact ⟨restarted_restart, ⟨hk.build, hk.framing, hk.sound, hk.duration, hk.paused⟩, rfl, rfl, rfl⟩

/-! ## What is asked for -/

/-- The time that is meant: not before the start, and not after the end where that is known. -/
def meant (p : StreamPlayer δ) (targetUs : Int) : Int :=
  if 0 < p.durationUs then min (max targetUs 0) p.durationUs else max targetUs 0

theorem seekTarget_of_known (h : 0 < p.durationUs) : p.seekTarget targetUs = p.meant targetUs := by
  rw [seekTarget, meant, if_pos h, clamp]
  split_ifs <;> omega

theorem seekTarget_of_unknown (h : p.durationUs ≤ 0) : p.seekTarget targetUs = 0 := by
  rw [seekTarget, clamp]
  split_ifs <;> omega

/-- What is asked for is what is meant if and only if the duration is known or the target is not
    after the start. -/
theorem seekTarget_eq_iff :
    p.seekTarget targetUs = p.meant targetUs ↔ 0 < p.durationUs ∨ targetUs ≤ 0 := by
  by_cases h : 0 < p.durationUs
  · exact iff_of_true (seekTarget_of_known h) (.inl h)
  · rw [seekTarget_of_unknown (Int.not_lt.1 h), meant, if_neg h, or_iff_right h]
    omega

/-- A seek is right: the demuxer is asked for the time that is meant, which is the one that a
    relative seek means; a seek that is refused changes nothing but the state of the demuxer, and
    says where the clock is; and any other starts the player anew where the demuxer landed. -/
structure SeeksRight (seekTo : δ → SeekTo → HttpRangeReader → Option Int × δ × HttpRangeReader)
    (p : StreamPlayer δ) (targetUs : Int) : Prop where
  asked : p.seekTarget targetUs = p.meant targetUs
  relative : ∀ deltaUs, asI64 (p.clockUs + deltaUs) = targetUs →
    p.seekTarget targetUs = seekFromClock (some p) deltaUs
  refused : (p.seekDemux seekTo (p.seekTarget targetUs)).1 = none →
    (p.doSeek seekTo targetUs).clockUs = p.clockUs ∧
      (p.doSeek seekTo targetUs).decReset = false ∧
      (p.doSeek seekTo targetUs).deviceFlushed = false ∧
      ∃ demux reader, demux.settings = p.demux.settings ∧
        (p.doSeek seekTo targetUs).player = { p with demux, reader }
  landed : ∀ landedUs, (p.seekDemux seekTo (p.seekTarget targetUs)).1 = some landedUs →
    (p.doSeek seekTo targetUs).player.Restarted landedUs ∧
      p.KeepsOn (p.doSeek seekTo targetUs).player ∧
      (p.doSeek seekTo targetUs).clockUs = landedUs ∧
      (p.doSeek seekTo targetUs).decReset = p.video ∧
      (p.doSeek seekTo targetUs).deviceFlushed = true

/-- A seek is right if and only if the duration is known or it does not go after the start. -/
theorem seek_iff (seekTo : δ → SeekTo → HttpRangeReader → Option Int × δ × HttpRangeReader)
    (p : StreamPlayer δ) (targetUs : Int) :
    p.SeeksRight seekTo targetUs ↔ 0 < p.durationUs ∨ targetUs ≤ 0 := by
  rw [← seekTarget_eq_iff]
  refine ⟨SeeksRight.asked, fun h => ⟨h, ?_, fun hr => ?_, fun landedUs => doSeek_landed⟩⟩
  · rintro deltaUs rfl
    exact h
  · rw [doSeek_refused hr]
    exact ⟨rfl, rfl, rfl, _, _, seekDemux_settings hr, rfl⟩

/-! ### A stream without a duration -/

/-- A song of which it is not known how long it is, five seconds in. -/
def endless : StreamPlayer Unit :=
  { video := false
    demux := .audio { format := (), trackId := 0, num := 1, den := 1000 }
    reader := .newLocal [] 0
    prefetch := false
    clockUs := 5000000 }

/-- A demuxer that lands where it is asked to. -/
def obliging : Unit → SeekTo → HttpRangeReader → Option Int × Unit × HttpRangeReader
  | d, .ticks _ ts, r => (some ts, d, r)
  | d, .time secs nanos _, r => (some (secs * 1000 + nanos / 1000000), d, r)

/-- Ten seconds on from there is the start. -/
theorem seek_unknown : seekFromClock (some endless) 10000000 = 15000000 ∧
    (endless.doSeek obliging 15000000).clockUs = 0 ∧
    ¬ endless.SeeksRight obliging 15000000 := by
  refine ⟨by decide, by decide, fun h => ?_⟩
  exact absurd h.asked (by decide)

end StreamPlayer

end Wandr.Media
