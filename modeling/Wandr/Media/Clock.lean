import Wandr.Lib.Machine
import Wandr.Media.Playing

/-!
# The clock

The clock of a player takes the time from the sound once that has begun, less what the device
still holds; before, it counts from the first frame of the video; and before that there is
nothing to count from. Where one source takes over from another, or the device is given more
than it has played, nothing makes the time go on from where it was.

* `StreamPlayer.level_iff`: the clock does not go back in a pump if and only if the source is
  not behind it when it takes over, and the buffer of the device grows by no more than the time
  that has passed;
* `StreamPlayer.resume_sourceTime`: after a pause the sources give the time they gave when it
  began;
* `clock_goes_on`: so does a run, in which anything may happen between the pumps.
-/

namespace Wandr.Media

open Machine

variable {δ : Type}

/-! ## The sources of the time -/

/-- What the time is counted from. -/
inductive Source
  | nothing
  | video (first : Int)
  | sound
  deriving DecidableEq

/-- What the last pump took the time from: with the sound, how long that had been going on, and
    how much was in the buffer of the device. -/
inductive Last
  | other
  | video
  | sound (elapsed buffered : Int)
  deriving DecidableEq

namespace StreamPlayer

section
variable (p : StreamPlayer δ) (x : PumpInput)

/-- What the time is counted from. -/
def source : Source :=
  if p.audioMaster then .sound
  else if p.video then
    match p.firstPtsUs with
    | some first => .video first
    | none => .nothing
  else .nothing

/-- The time that the sources give. -/
def sourceTime : Int :=
  match p.source with
  | .nothing => 0
  | .video first => asI64 (first + elapsedUs x.nanos p.originNs)
  | .sound => p.audioTime x

/-- A time, or the duration when that is known and the time is past it. -/
def capped (t : Int) : Int := if 0 < p.durationUs then min t p.durationUs else t

/-- How long the sound has been going on. -/
def soundUs : Int := elapsedUs x.nanos p.audioStartNs

/-- The time of the sound that is heard. -/
def heardUs : Int := p.audioFirstPtsUs + p.soundUs x - bufferedUs x.buffered

/-- The time of the video that runs by itself. -/
def freeUs (first : Int) : Int := first + elapsedUs x.nanos p.originNs

/-- A pump takes the time from a source. -/
def lastOf : Last :=
  if p.audioEnded x then .other
  else
    match p.source with
    | .nothing => .other
    | .video _ => .video
    | .sound => .sound (p.soundUs x) (bufferedUs x.buffered)

/-- A number of 64 bits. -/
def InI64 (n : Int) : Prop := -2 ^ 63 ≤ n ∧ n < 2 ^ 63

/-- The times that a source gives are numbers of 64 bits. -/
def FitsFrom : Source → Prop
  | .nothing => True
  | .video first => x.nanos - p.originNs < 2 ^ 63 ∧ InI64 (p.freeUs x first)
  | .sound => InI64 (p.audioFirstPtsUs + p.soundUs x) ∧ InI64 (p.heardUs x)

/-- The times that a pump works out are numbers of 64 bits. -/
def Fits : Prop := p.FitsFrom x p.source

/-- When it takes over, the sound is not behind the clock; and then the buffer of the device
    grows by no more than the time that has passed, or the duration is reached. -/
def SoundLevel : Last → Prop
  | .sound elapsed buffered => bufferedUs x.buffered - buffered ≤ p.soundUs x - elapsed ∨
      (0 < p.durationUs ∧ p.durationUs ≤ p.heardUs x)
  | _ => bufferedUs x.buffered ≤ p.audioFirstPtsUs + p.soundUs x - p.clockUs

/-- With nothing to count from the clock shows no time; the video is not behind it when it takes
    over, nor is the sound. -/
def LevelFrom (last : Last) : Source → Prop
  | .nothing => p.clockUs ≤ 0
  | .video first => last = .video ∨ p.clockUs ≤ p.freeUs x first
  | .sound => p.clockUs ≤ 0 ∨ p.SoundLevel x last

/-- The clock is not past the duration, and what it takes the time from is level with it, unless
    the sound has ended. -/
def Level (last : Last) : Prop :=
  (0 < p.durationUs → p.clockUs ≤ p.durationUs) ∧
    (p.audioEnded x = false → p.LevelFrom x last p.source)

instance (n : Int) : Decidable (InI64 n) := inferInstanceAs (Decidable (_ ∧ _))

instance decidableFitsFrom : (c : Source) → Decidable (p.FitsFrom x c)
  | .nothing => inferInstanceAs (Decidable True)
  | .video _ => inferInstanceAs (Decidable (_ ∧ _))
  | .sound => inferInstanceAs (Decidable (_ ∧ _))

instance : Decidable (p.Fits x) := inferInstanceAs (Decidable (p.FitsFrom x p.source))

instance decidableSoundLevel : (last : Last) → Decidable (p.SoundLevel x last)
  | .sound _ _ => inferInstanceAs (Decidable (_ ∨ _))
  | .video => inferInstanceAs (Decidable (_ ≤ _))
  | .other => inferInstanceAs (Decidable (_ ≤ _))

instance decidableLevelFrom (last : Last) : (c : Source) → Decidable (p.LevelFrom x last c)
  | .nothing => inferInstanceAs (Decidable (_ ≤ _))
  | .video _ => inferInstanceAs (Decidable (_ ∨ _))
  | .sound => inferInstanceAs (Decidable (_ ∨ _))

instance (last : Last) : Decidable (p.Level x last) := inferInstanceAs (Decidable (_ ∧ _))

end

variable {p : StreamPlayer δ} {x : PumpInput} {last : Last}

theorem asI64_of_inI64 {n : Int} (h : InI64 n) : asI64 n = n := by
  unfold InI64 at h
  exact Int.bmod_eq_of_le (by omega) (by omega)

theorem source_congr {p' : StreamPlayer δ} (hm : p'.audioMaster = p.audioMaster)
    (hv : p'.video = p.video) (hf : p'.firstPtsUs = p.firstPtsUs) : p'.source = p.source := by
  rw [source, source, hm, hv, hf]

theorem source_video {first : Int} (h : p.source = .video first) :
    p.video = true ∧ p.firstPtsUs = some first := by
  unfold source at h
  split at h
  · exact nomatch h
  · split at h
    · next hv =>
      split at h
      · next hf =>
        cases h
        exact ⟨hv, hf⟩
      · exact nomatch h
    · exact nomatch h

theorem source_sound (h : p.source = .sound) :
    p.audioPtsKnown = true ∧ 0 < p.audioStartNs := by
  unfold source at h
  split at h
  · next hm =>
    rw [audioMaster, Bool.and_eq_true, Bool.and_eq_true, decide_eq_true_eq] at hm
    exact ⟨hm.1.1, hm.2⟩
  · split at h
    · split at h <;> exact nomatch h
    · exact nomatch h

theorem mediaNow_eq (p : StreamPlayer δ) (x : PumpInput) :
    p.mediaNow x = p.capped (if p.audioEnded x then p.clockUs else p.sourceTime x) := by
  have ht : p.sourceTime x = if p.audioMaster then p.audioTime x else p.freeTime x := by
    unfold sourceTime source freeTime
    cases p.audioMaster with
    | true => rfl
    | false =>
      cases p.video with
      | true => cases p.firstPtsUs <;> rfl
      | false => rfl
  rw [ht]
  rfl

theorem le_capped {c t : Int} :
    c ≤ p.capped t ↔ c ≤ t ∧ (0 < p.durationUs → c ≤ p.durationUs) := by
  unfold capped
  split <;> omega

/-- The time that a source gives. -/
theorem sourceTime_eq (h : p.Fits x) : p.sourceTime x =
    match p.source with
    | .nothing => 0
    | .video first => p.freeUs x first
    | .sound => max (p.heardUs x) 0 := by
  unfold Fits at h
  unfold sourceTime
  cases hs : p.source with
  | nothing => rfl
  | video first =>
    rw [hs] at h
    exact asI64_of_inI64 h.2
  | sound =>
    rw [hs] at h
    obtain ⟨h₁, h₂⟩ := h
    unfold heardUs soundUs at *
    dsimp only
    rw [audioTime, asI64_of_inI64 h₁, asI64_of_inI64 h₂]

/-- The clock does not go back in a pump if and only if the time is level with it. -/
theorem level_iff (hf : p.Fits x)
    (hv : last = .video → ∀ first, p.source = .video first → p.clockUs ≤ p.freeUs x first)
    (hs : ∀ e b, last = .sound e b →
      p.clockUs = p.capped (max (p.audioFirstPtsUs + e - b) 0)) :
    p.clockUs ≤ p.mediaNow x ↔ p.Level x last := by
  rw [mediaNow_eq, le_capped, Level, and_comm]
  refine and_congr_right fun hd => ?_
  cases he : p.audioEnded x with
  | true => exact iff_of_true (Int.le_refl _) fun h => nomatch h
  | false =>
    rw [if_neg Bool.false_ne_true, sourceTime_eq hf, forall_prop_of_true rfl]
    cases hc : p.source with
    | nothing => exact Iff.rfl
    | video first => exact ⟨.inr, fun h => h.elim (fun hl => hv hl first hc) id⟩
    | sound =>
      cases last with
      | other => dsimp only [LevelFrom, SoundLevel, heardUs]; omega
      | video => dsimp only [LevelFrom, SoundLevel, heardUs]; omega
      | sound e b =>
        have hcl := hs e b rfl
        unfold capped at hcl
        dsimp only [LevelFrom, SoundLevel, heardUs]
        split at hcl <;> omega

/-! ## Between the pumps -/

/-- What the clock goes by, but for the time of the first sound. -/
structure Timing where
  video : Bool
  durationUs : Int
  clockUs : Int
  hasAudio : Bool
  audioPtsKnown : Bool
  audioStartNs : Nat
  firstPtsUs : Option Int
  originNs : Nat
  paused : Bool
  pausedAtNs : Nat

/-- What the clock of a player goes by. -/
def timing (p : StreamPlayer δ) : Timing :=
  { video := p.video, durationUs := p.durationUs, clockUs := p.clockUs, hasAudio := p.hasAudio,
    audioPtsKnown := p.audioPtsKnown, audioStartNs := p.audioStartNs,
    firstPtsUs := p.firstPtsUs, originNs := p.originNs, paused := p.paused,
    pausedAtNs := p.pausedAtNs }

/-- The time of the first sound, once it is known. -/
def firstSound (p : StreamPlayer δ) : Option Int :=
  if p.audioFirstPtsKnown then some p.audioFirstPtsUs else none

/-- What the clock goes by stays. The time of the first sound may become known. -/
structure Steady (p p' : StreamPlayer δ) : Prop where
  timing : p'.timing = p.timing
  firstSound : ∀ t, p.firstSound = some t → p'.firstSound = some t

variable {p' p'' : StreamPlayer δ}

theorem Steady.refl (p : StreamPlayer δ) : p.Steady p := ⟨rfl, fun _ h => h⟩

theorem Steady.trans (h : p.Steady p') (h' : p'.Steady p'') : p.Steady p'' :=
  ⟨h'.timing.trans h.timing, fun t ht => h'.firstSound t (h.firstSound t ht)⟩

theorem anchorAudio_steady (p : StreamPlayer δ) (t : Int) : p.Steady (p.anchorAudio t) := by
  unfold anchorAudio
  split
  · exact .refl p
  · next hk =>
    refine ⟨rfl, fun t' ht => ?_⟩
    rw [firstSound, if_neg hk] at ht
    exact nomatch ht

theorem decodeFrames_steady (out : Nat → Nat × Nat) (i : Nat) (q : List AFrame) :
    p.Steady (decodeFrames out i q p) := by
  induction q generalizing i p with
  | nil => exact ⟨rfl, fun _ h => h⟩
  | cons af q ih =>
    unfold decodeFrames
    split
    · exact ⟨rfl, fun _ h => h⟩
    · split
      · exact ⟨rfl, fun _ h => h⟩
      · split
        · exact ih (i + 1)
        · refine (p.anchorAudio_steady af.ptsUs).trans (.trans ?_ (ih (i + 1)))
          exact ⟨rfl, fun _ h => h⟩

theorem decodeAudio_steady (p : StreamPlayer δ) (out : Nat → Nat × Nat) :
    p.Steady (p.decodeAudio out) := by
  unfold decodeAudio
  split
  · exact decodeFrames_steady out 0 p.audioQ
  · exact .refl p

theorem fillQueues_steady {pull : δ → Pull δ}
    {openMp4 : List UInt8 → Except String (List Packet)} {fetches : Fetches} {n : Nat}
    (h : fillQueues pull openMp4 fetches p n = some p') : p.Steady p' := by
  obtain ⟨_, _, _, _, _, rfl⟩ := fillQueues_frame h
  exact ⟨rfl, fun _ h => h⟩

/-! ## In a pump -/

theorem noteDevice_frame (p : StreamPlayer δ) (x : PumpInput) :
    ∃ devStart devStartSet, p.noteDevice x = { p with devStart, devStartSet } := by
  unfold noteDevice
  split <;> exact ⟨_, _, rfl⟩

theorem writeAudio_frame (p : StreamPlayer δ) (x : PumpInput) :
    ∃ pendingPcm audioStarted, p.writeAudio x = { p with pendingPcm, audioStarted } := by
  unfold writeAudio
  split <;> exact ⟨_, _, rfl⟩

/-- The sound may begin in a pump. -/
theorem outputAudio_sound (p : StreamPlayer δ) (x : PumpInput) (mediaNow : Int) :
    ((p.outputAudio x mediaNow).audioPtsKnown = p.audioPtsKnown ∧
        (p.outputAudio x mediaNow).audioStartNs = p.audioStartNs) ∨
      (p.audioPtsKnown = false ∧ p.audioFirstPtsKnown = true ∧
        (p.outputAudio x mediaNow).audioStartNs = x.nanos) := by
  unfold outputAudio
  obtain ⟨_, _, hn⟩ := p.noteDevice_frame x
  dsimp only
  split
  · next hk =>
    obtain ⟨_, _, hw⟩ := writeAudio_frame ((p.noteDevice x).startAudio x mediaNow) x
    rw [hw, hn]
    rw [hn, Bool.and_eq_true] at hk
    unfold startAudio
    split
    · next hs =>
      rw [Bool.and_eq_true, Bool.and_eq_true, Bool.not_eq_true'] at hs
      exact .inr ⟨hs.1.1, hk.2, rfl⟩
    · exact .inl ⟨rfl, rfl⟩
  · rw [hn]
    exact .inl ⟨rfl, rfl⟩

/-- The video may begin with the frames that come out of the decoder. -/
theorem presentFrames_video (x : PumpInput) (ts : List Int) :
    ((ts.foldl (presentFrame · x) p).firstPtsUs = p.firstPtsUs ∧
        (ts.foldl (presentFrame · x) p).originNs = p.originNs) ∨
      (p.firstPtsUs = none ∧ (ts.foldl (presentFrame · x) p).originNs = x.nanos) := by
  induction ts generalizing p with
  | nil => exact .inl ⟨rfl, rfl⟩
  | cons t ts ih =>
    rw [List.foldl_cons]
    have hp : ((p.presentFrame x t).firstPtsUs = p.firstPtsUs ∧
        (p.presentFrame x t).originNs = p.originNs) ∨ (p.firstPtsUs = none ∧
        (p.presentFrame x t).firstPtsUs = some t ∧ (p.presentFrame x t).originNs = x.nanos) := by
      unfold presentFrame
      dsimp only
      split
      · next hn => exact .inr ⟨Option.isNone_iff_eq_none.1 hn, rfl, rfl⟩
      · exact .inl ⟨rfl, rfl⟩
    rcases ih (p := p.presentFrame x t) with ⟨h₁, h₂⟩ | ⟨h₁, h₂⟩
    · rw [h₁, h₂]
      exact hp.imp_right fun h => ⟨h.1, h.2.2⟩
    · rcases hp with ⟨h, -⟩ | ⟨-, h, -⟩
      · exact .inr ⟨h ▸ h₁, h₂⟩
      · exact nomatch h.symm.trans h₁

theorem playVideo_video (p : StreamPlayer δ) (x : PumpInput) (mediaNow : Int) :
    ((p.playVideo x mediaNow).firstPtsUs = p.firstPtsUs ∧
        (p.playVideo x mediaNow).originNs = p.originNs) ∨
      (p.firstPtsUs = none ∧ (p.playVideo x mediaNow).originNs = x.nanos) := by
  unfold playVideo
  split
  · obtain ⟨_, _, hs, -⟩ := submitVideo_frame (p := p) p.clockAnchored mediaNow x.submits
    dsimp only
    rw [hs]
    unfold flushVideo
    split
    · exact presentFrames_video x x.decoded
    · exact presentFrames_video x x.decoded
  · exact .inl ⟨rfl, rfl⟩

/-- A pump of a player that is not paused shows the time, and the sound and the video may
    begin. -/
structure Pumped (x : PumpInput) (p p' : StreamPlayer δ) : Prop where
  timing : ∃ audioPtsKnown audioStartNs firstPtsUs originNs, p'.timing = { p.timing with
    clockUs := p.mediaNow x, audioPtsKnown, audioStartNs, firstPtsUs, originNs }
  firstSound : p'.firstSound = p.firstSound
  sound : (p'.audioPtsKnown = p.audioPtsKnown ∧ p'.audioStartNs = p.audioStartNs) ∨
    (p.audioPtsKnown = false ∧ p.audioFirstPtsKnown = true ∧ p'.audioStartNs = x.nanos)
  video : (p'.firstPtsUs = p.firstPtsUs ∧ p'.originNs = p.originNs) ∨
    (p.firstPtsUs = none ∧ p'.originNs = x.nanos)

theorem play_pumped (p : StreamPlayer δ) (x : PumpInput) : Pumped x p (p.play x) := by
  unfold play
  dsimp only
  have ho := outputAudio_sound { p with done := p.done || p.audioEnded x } x (p.mediaNow x)
  obtain ⟨_, _, _, _, _, _, hof⟩ :=
    outputAudio_frame { p with done := p.done || p.audioEnded x } x (p.mediaNow x)
  generalize outputAudio { p with done := p.done || p.audioEnded x } x (p.mediaNow x) = q
    at ho hof ⊢
  have hv := q.playVideo_video x (p.mediaNow x)
  obtain ⟨_, _, _, _, _, _, _, hvf, -⟩ := q.playVideo_frame x (p.mediaNow x)
  rw [hvf] at hv ⊢
  subst hof
  exact ⟨⟨_, _, _, _, rfl⟩, rfl, ho, hv⟩

/-! ## Pauses -/

/-- The moment up to which a player has played: the last pump, or when it was paused. -/
def playedTo (p : StreamPlayer δ) (now : Nat) : Nat := if p.paused then p.pausedAtNs else now

theorem playedTo_paused {now : Nat} (h : p.paused = true) : p.playedTo now = p.pausedAtNs :=
  if_pos h

theorem playedTo_playing {now : Nat} (h : p.paused = false) : p.playedTo now = now :=
  if_neg (Bool.eq_false_iff.1 h)

/-- The moments that the time is counted from have come, and the time of the first sound is known
    when that has begun. -/
structure SetBy (now : Nat) (p : StreamPlayer δ) : Prop where
  known : p.audioPtsKnown = true → p.audioFirstPtsKnown = true
  playedTo_le : p.playedTo now ≤ now
  sound : p.audioStartNs ≤ p.playedTo now
  video : p.originNs ≤ p.playedTo now

/-- The time between two moments that are not too far apart. -/
theorem elapsedUs_eq {n start : Nat} (h : n - start < 2 ^ 63) :
    elapsedUs n start = ((n - start : Nat) : Int) / 1000 := by
  rw [elapsedUs, asI64_of_inI64 ⟨by omega, by omega⟩]
  exact Int.tdiv_eq_ediv_of_nonneg (Int.natCast_nonneg _)

/-- What a pause changes: whether the player is paused, and when it goes on the moments that the
    time is counted from. -/
theorem applyPause_cases (p : StreamPlayer δ) (x : PumpInput) :
    (p.paused = false ∧ p.applyPause x = { p with paused := true, pausedAtNs := x.nanos }) ∨
    (p.paused = true ∧ x.wantPause = false ∧ p.applyPause x = { p with
      audioStartNs := if 0 < p.audioStartNs then
          saturate (p.audioStartNs + (x.nanos - p.pausedAtNs))
        else p.audioStartNs
      originNs := if p.video then saturate (p.originNs + (x.nanos - p.pausedAtNs))
        else p.originNs
      paused := false }) ∨
    (p.paused = x.wantPause ∧ p.applyPause x = p) := by
  unfold applyPause
  cases p.paused with
  | true =>
    cases hx : x.wantPause with
    | true => exact .inr (.inr ⟨rfl, rfl⟩)
    | false => exact .inr (.inl ⟨rfl, rfl, rfl⟩)
  | false =>
    cases hx : x.wantPause with
    | true => exact .inl ⟨rfl, rfl⟩
    | false => exact .inr (.inr ⟨rfl, rfl⟩)

theorem applyPause_frame (p : StreamPlayer δ) (x : PumpInput) :
    ∃ audioStartNs originNs paused pausedAtNs,
      p.applyPause x = { p with audioStartNs, originNs, paused, pausedAtNs } := by
  rcases p.applyPause_cases x with ⟨-, he⟩ | ⟨-, -, he⟩ | ⟨-, he⟩
  · exact ⟨_, _, _, _, he⟩
  · exact ⟨_, _, _, _, he⟩
  · exact ⟨_, _, _, _, he⟩

theorem saturate_eq {n : Nat} (h : n < 2 ^ 64) : saturate n = n := by
  rw [saturate]
  omega

/-- The moments that the time is counted from have come in the next pump. -/
theorem SetBy.applyPause {now : Nat} (h : p.SetBy now) (hx : now ≤ x.nanos)
    (hb : x.nanos < 2 ^ 64) : (p.applyPause x).SetBy x.nanos ∧
      (p.video = true → p.playedTo now - p.originNs ≤
        (p.applyPause x).playedTo x.nanos - (p.applyPause x).originNs) := by
  obtain ⟨hk, hp, hs, hv⟩ := h
  rcases p.applyPause_cases x with ⟨hq, he⟩ | ⟨hq, -, he⟩ | ⟨-, he⟩
  · rw [playedTo_playing hq] at hs hv hp ⊢
    rw [he]
    exact ⟨⟨hk, Nat.le_refl _, hs.trans hx, hv.trans hx⟩, fun _ => Nat.sub_le_sub_right hx _⟩
  · rw [playedTo_paused hq] at hs hv hp ⊢
    have hsat : ∀ n, n ≤ p.pausedAtNs → saturate (n + (x.nanos - p.pausedAtNs)) =
        n + (x.nanos - p.pausedAtNs) := fun n hn => saturate_eq (by omega)
    rw [he, hsat _ hs, hsat _ hv]
    refine ⟨⟨hk, Nat.le_refl _, ?_, ?_⟩, fun hvid => ?_⟩
    · rw [playedTo_playing rfl]
      dsimp only
      split <;> omega
    · rw [playedTo_playing rfl]
      dsimp only
      split <;> omega
    · rw [playedTo_playing rfl]
      dsimp only
      rw [if_pos hvid]
      omega
  · rw [he]
    cases hq : p.paused with
    | true =>
      rw [playedTo_paused hq] at hs hv hp
      refine ⟨⟨hk, ?_, ?_, ?_⟩, fun _ => ?_⟩
      all_goals rw [playedTo_paused hq]
      · exact hp.trans hx
      · exact hs
      · exact hv
      · rw [playedTo_paused hq]
    | false =>
      rw [playedTo_playing hq] at hs hv hp
      refine ⟨⟨hk, ?_, ?_, ?_⟩, fun _ => ?_⟩
      all_goals rw [playedTo_playing hq]
      · exact hs.trans hx
      · exact hv.trans hx
      · rw [playedTo_playing hq]
        exact Nat.sub_le_sub_right hx _

/-- A pause does not change what the time is counted from. -/
theorem applyPause_source (p : StreamPlayer δ) (x : PumpInput) :
    (p.applyPause x).source = p.source := by
  rcases p.applyPause_cases x with ⟨-, he⟩ | ⟨-, -, he⟩ | ⟨-, he⟩
  · rw [he]
    rfl
  · rw [he]
    have hm : ∀ n : Nat, decide (0 < if 0 < p.audioStartNs then saturate (p.audioStartNs + n)
        else p.audioStartNs) = decide (0 < p.audioStartNs) := fun n => by
      unfold saturate
      rw [decide_eq_decide]
      split <;> omega
    refine source_congr ?_ rfl rfl
    rw [audioMaster, audioMaster, hm]
  · rw [he]

/-- After a pause the sources give the time that they gave when it began. -/
theorem resume_sourceTime {now : Nat} (h : p.SetBy now) (hx : now ≤ x.nanos)
    (hb : x.nanos < 2 ^ 64) (hp : p.paused = true) (hw : x.wantPause = false) :
    (p.applyPause x).sourceTime x = p.sourceTime { x with nanos := p.pausedAtNs } := by
  obtain ⟨-, hle, hs, hv⟩ := h
  rw [playedTo_paused hp] at hle hs hv
  have he : ∀ n, n ≤ p.pausedAtNs →
      elapsedUs x.nanos (saturate (n + (x.nanos - p.pausedAtNs))) = elapsedUs p.pausedAtNs n :=
    fun n hn => by
      have hd : x.nanos - (n + (x.nanos - p.pausedAtNs)) = p.pausedAtNs - n := by omega
      rw [saturate_eq (by omega), elapsedUs, elapsedUs, hd]
  unfold sourceTime
  rw [applyPause_source]
  rcases p.applyPause_cases x with ⟨hq, -⟩ | ⟨-, -, hq⟩ | ⟨hq, -⟩
  · exact nomatch hp.symm.trans hq
  · cases hc : p.source with
    | nothing => rfl
    | video first =>
      dsimp only
      rw [hq]
      dsimp only
      rw [if_pos (source_video hc).1, he _ hv]
    | sound =>
      dsimp only
      rw [hq, audioTime, audioTime]
      dsimp only
      rw [if_pos (source_sound hc).2, he _ hs]
      rfl
  · exact nomatch (hp.symm.trans hq).trans hw

end StreamPlayer

/-- What the clock goes by changes only in a pump. -/
theorem Playing.next_steady (pull : δ → Pull δ)
    (openMp4 : List UInt8 → Except String (List Packet)) (s : Playing δ) {i : PlayerStep}
    (h : ∀ x, i ≠ .pump x) : s.player.Steady (s.next pull openMp4 i).player := by
  cases i with
  | fill n fetches =>
    dsimp only [next, Playing.fill]
    split
    · exact .refl _
    · next p he => exact StreamPlayer.fillQueues_steady he
  | decode out => exact s.player.decodeAudio_steady out
  | pump x => exact absurd rfl (h x)
  | drivePrefetch =>
    dsimp only [next, Playing.drivePrefetch]
    split
    · split
      · exact .refl _
      · exact ⟨rfl, fun _ h => h⟩
    · exact .refl _
  | complete n a =>
    dsimp only [next, Playing.complete]
    split
    · exact .refl _
    · exact ⟨rfl, fun _ h => h⟩

namespace StreamPlayer

variable {p p' : StreamPlayer δ} {x : PumpInput} {now : Nat} {last : Last}

/-! ## What the clock shows -/

/-- What a pump has taken the time from tells what the clock shows. -/
def Shows (now : Nat) (p : StreamPlayer δ) : Last → Prop
  | .other => True
  | .video => ∀ first, p.source = .video first →
      p.clockUs ≤ first + ((p.playedTo now - p.originNs : Nat) : Int) / 1000
  | .sound elapsed buffered => p.audioPtsKnown = true ∧
      p.clockUs = p.capped (max (p.audioFirstPtsUs + elapsed - buffered) 0)

theorem Steady.fields (h : p.Steady p') : p'.video = p.video ∧ p'.durationUs = p.durationUs ∧
    p'.clockUs = p.clockUs ∧ p'.hasAudio = p.hasAudio ∧ p'.audioPtsKnown = p.audioPtsKnown ∧
    p'.audioStartNs = p.audioStartNs ∧ p'.firstPtsUs = p.firstPtsUs ∧ p'.originNs = p.originNs ∧
    p'.paused = p.paused ∧ p'.pausedAtNs = p.pausedAtNs := by
  simpa only [StreamPlayer.timing, Timing.mk.injEq] using h.timing

theorem firstSound_eq {t : Int} :
    p.firstSound = some t ↔ p.audioFirstPtsKnown = true ∧ p.audioFirstPtsUs = t := by
  rw [firstSound, Option.ite_none_right_eq_some, Option.some.injEq]

/-- The time of the first sound stays once the sound has begun. -/
theorem Steady.first (h : p.Steady p') (hp : p.SetBy now) (hk : p.audioPtsKnown = true) :
    p'.audioFirstPtsKnown = true ∧ p'.audioFirstPtsUs = p.audioFirstPtsUs :=
  firstSound_eq.1 (h.firstSound _ (firstSound_eq.2 ⟨hp.known hk, rfl⟩))

theorem Steady.source (h : p.Steady p') : p'.source = p.source := by
  obtain ⟨hv, -, -, ha, hk, hs, hf, -⟩ := h.fields
  refine source_congr ?_ hv hf
  rw [audioMaster, audioMaster, ha, hk, hs]

theorem Steady.playedTo (h : p.Steady p') : p'.playedTo now = p.playedTo now := by
  obtain ⟨-, -, -, -, -, -, -, -, hp, ha⟩ := h.fields
  rw [StreamPlayer.playedTo, StreamPlayer.playedTo, hp, ha]

theorem Steady.setBy (h : p.Steady p') (hp : p.SetBy now) : p'.SetBy now := by
  obtain ⟨-, -, -, -, hk, hs, -, ho, -⟩ := h.fields
  refine ⟨fun hk' => (h.first hp (hk ▸ hk')).1, ?_, ?_, ?_⟩
  · rw [h.playedTo]
    exact hp.playedTo_le
  · rw [h.playedTo, hs]
    exact hp.sound
  · rw [h.playedTo, ho]
    exact hp.video

theorem Steady.sourceTime (h : p.Steady p') (hp : p.SetBy now) (x : PumpInput) :
    p'.sourceTime x = p.sourceTime x := by
  obtain ⟨-, -, -, -, -, hs, -, ho, -⟩ := h.fields
  unfold StreamPlayer.sourceTime
  rw [h.source]
  cases hc : p.source with
  | nothing => rfl
  | video first =>
    dsimp only
    rw [ho]
  | sound =>
    dsimp only
    rw [audioTime, audioTime, hs, (h.first hp (source_sound hc).1).2]

theorem Steady.shows (h : p.Steady p') (hp : p.SetBy now) (hs : p.Shows now last) :
    p'.Shows now last := by
  obtain ⟨-, hd, hc, -, hk, -, -, ho, -⟩ := h.fields
  cases last with
  | other => trivial
  | video =>
    intro first hf
    rw [hc, ho, h.playedTo]
    exact hs first (h.source ▸ hf)
  | sound e b =>
    obtain ⟨hk', hcl⟩ := hs
    refine ⟨hk.trans hk', ?_⟩
    rw [hc, (h.first hp hk').2, hcl, capped, capped, hd]

/-- The clock shows in the next pump what it showed, whether there is a pause or not. -/
theorem Shows.applyPause (hs : p.Shows now last) (hp : p.SetBy now) (hx : now ≤ x.nanos)
    (hb : x.nanos < 2 ^ 64) : (p.applyPause x).Shows x.nanos last := by
  obtain ⟨-, hv⟩ := hp.applyPause hx hb
  have hsrc := p.applyPause_source x
  obtain ⟨_, _, _, _, hq⟩ := p.applyPause_frame x
  rw [hq] at hv hsrc ⊢
  cases last with
  | other => trivial
  | video =>
    intro first hf
    rw [hsrc] at hf
    have hle := hs first hf
    have hmono := hv (source_video hf).1
    dsimp only at hmono ⊢
    omega
  | sound e b => exact hs

theorem Pumped.fields (h : Pumped x p p') : p'.video = p.video ∧
    p'.durationUs = p.durationUs ∧ p'.clockUs = p.mediaNow x ∧ p'.paused = p.paused := by
  obtain ⟨_, _, _, _, ht⟩ := h.timing
  simp only [StreamPlayer.timing, Timing.mk.injEq] at ht
  exact ⟨ht.1, ht.2.1, ht.2.2.1, ht.2.2.2.2.2.2.2.2.1⟩

theorem Pumped.first (h : Pumped x p p') (hk : p.audioFirstPtsKnown = true) :
    p'.audioFirstPtsKnown = true ∧ p'.audioFirstPtsUs = p.audioFirstPtsUs :=
  firstSound_eq.1 (h.firstSound.trans (firstSound_eq.2 ⟨hk, rfl⟩))

theorem Pumped.setBy (h : Pumped x p p') (hp : p.SetBy x.nanos) (hu : p.paused = false) :
    p'.SetBy x.nanos := by
  obtain ⟨-, -, -, hpa⟩ := h.fields
  obtain ⟨hk, -, hs, hv⟩ := hp
  rw [playedTo_playing hu] at hs hv
  refine ⟨fun hk' => ?_, ?_, ?_, ?_⟩
  · rcases h.sound with ⟨he, -⟩ | ⟨-, he, -⟩
    · exact (h.first (hk (he ▸ hk'))).1
    · exact (h.first he).1
  all_goals rw [playedTo_playing (hpa.trans hu)]
  · rcases h.sound with ⟨-, he⟩ | ⟨-, -, he⟩
    · exact he ▸ hs
    · exact Nat.le_of_eq he
  · rcases h.video with ⟨-, he⟩ | ⟨-, he⟩
    · exact he ▸ hv
    · exact Nat.le_of_eq he

/-- After a pump the clock shows what the source gave. -/
theorem Pumped.shows (h : Pumped x p p') (hp : p.SetBy x.nanos) (hu : p.paused = false)
    (hf : p.Fits x) : p'.Shows x.nanos (p.lastOf x) := by
  obtain ⟨-, hd, hc, hpa⟩ := h.fields
  unfold lastOf
  split
  · trivial
  · next he =>
    rw [mediaNow_eq, if_neg he, sourceTime_eq hf] at hc
    unfold Fits at hf
    cases hsrc : p.source with
    | nothing => trivial
    | video first =>
      rw [hsrc] at hc hf
      intro first' hs
      obtain ⟨-, hf'⟩ := source_video hs
      rcases h.video with ⟨he₁, he₂⟩ | ⟨he₁, -⟩
      · rw [he₁, (source_video hsrc).2] at hf'
        cases hf'
        have hle : p.capped (p.freeUs x first) ≤ p.freeUs x first := (le_capped.1 (Int.le_refl _)).1
        rw [hc, playedTo_playing (hpa.trans hu), he₂, ← elapsedUs_eq hf.1]
        exact hle
      · exact nomatch he₁.symm.trans (source_video hsrc).2
    | sound =>
      rw [hsrc] at hc
      obtain ⟨hk, -⟩ := source_sound hsrc
      rcases h.sound with ⟨he₁, -⟩ | ⟨he₁, -⟩
      · refine ⟨he₁.trans hk, ?_⟩
        rw [hc, (h.first (hp.known hk)).2, capped, capped, hd]
        rfl
      · exact nomatch he₁.symm.trans hk

end StreamPlayer

/-! ## Runs -/

/-- A player, the moment of its last pump and what that took the time from; and, when a pump has
    paused it, what was in the buffer of the device then, and the time that the sources gave. -/
structure Clocked (δ : Type) where
  playing : Playing δ
  now : Nat
  last : Option Last := none
  held : Option (Nat × Int) := none

namespace Clocked

variable (pull : δ → Pull δ) (openMp4 : List UInt8 → Except String (List Packet))
  (s : Clocked δ)

/-- The player. -/
def player : StreamPlayer δ := s.playing.player

/-- A pump. -/
def pump (x : PumpInput) : Clocked δ :=
  let p := s.player.applyPause x
  { playing := s.playing.next pull openMp4 (.pump x)
    now := x.nanos
    last := if p.paused then some (s.last.getD .other) else some (p.lastOf x)
    held := if p.paused then
        if s.player.paused then s.held else some (x.buffered, s.player.sourceTime x)
      else none }

/-- Take a step. -/
def next (s : Clocked δ) : PlayerStep → Clocked δ
  | .pump x => s.pump pull openMp4 x
  | i => { s with playing := s.playing.next pull openMp4 i }

/-- The time of the display does not go back. -/
def Timely (s : Clocked δ) : PlayerStep → Prop
  | .pump x => s.now ≤ x.nanos ∧ x.nanos < 2 ^ 64
  | _ => True

/-- In a pump that is not the first one the clock does not go back. When the player goes on after
    a pause, with the buffer of the device as it was, the clock shows the time that it had come
    to; or what it showed, if the sound has ended. -/
def GoesOn (s : Clocked δ) : PlayerStep → Prop
  | .pump x =>
    (s.last.isSome → s.player.clockUs ≤ (s.pump pull openMp4 x).player.clockUs) ∧
      ∀ h ∈ s.held, x.wantPause = false → x.buffered = h.1 →
        (s.pump pull openMp4 x).player.clockUs =
          s.player.capped (if s.player.audioEnded x then s.player.clockUs else h.2)
  | _ => True

/-- The times that a pump works out are numbers of 64 bits. -/
def Fits (s : Clocked δ) : PlayerStep → Prop
  | .pump x => (s.player.applyPause x).paused = false → (s.player.applyPause x).Fits x
  | _ => True

/-- In a pump that is not the first one the time is level with the clock. -/
def Level (s : Clocked δ) : PlayerStep → Prop
  | .pump x => ∀ last ∈ s.last, (s.player.applyPause x).paused = false →
      (s.player.applyPause x).Level x last
  | _ => True

instance decidableTimely : (i : PlayerStep) → Decidable (s.Timely i)
  | .pump _ => inferInstanceAs (Decidable (_ ∧ _))
  | .fill _ _ | .decode _ | .drivePrefetch | .complete _ _ => inferInstanceAs (Decidable True)

instance decidableGoesOn : (i : PlayerStep) → Decidable (s.GoesOn pull openMp4 i)
  | .pump _ => inferInstanceAs (Decidable (_ ∧ _))
  | .fill _ _ | .decode _ | .drivePrefetch | .complete _ _ => inferInstanceAs (Decidable True)

instance decidableFits : (i : PlayerStep) → Decidable (s.Fits i)
  | .pump _ => inferInstanceAs (Decidable (_ → _))
  | .fill _ _ | .decode _ | .drivePrefetch | .complete _ _ => inferInstanceAs (Decidable True)

instance decidableLevel : (i : PlayerStep) → Decidable (s.Level i)
  | .pump _ => inferInstanceAs (Decidable (∀ _ ∈ _, _))
  | .fill _ _ | .decode _ | .drivePrefetch | .complete _ _ => inferInstanceAs (Decidable True)

/-- What holds throughout a run. -/
structure Ticking (s : Clocked δ) : Prop where
  setBy : s.player.SetBy s.now
  shows : ∀ last ∈ s.last, s.player.Shows s.now last
  held : ∀ h ∈ s.held, s.player.paused = true ∧ ∀ x : PumpInput,
    x.nanos = s.player.pausedAtNs → x.buffered = h.1 → s.player.sourceTime x = h.2

variable {pull openMp4} {s} {i : PlayerStep}

/-- Between the pumps nothing happens to the clock. -/
theorem Ticking.steady {p : Playing δ} (h : s.Ticking) (hs : s.player.Steady p.player) :
    Ticking { s with playing := p } := by
  obtain ⟨-, -, -, -, -, -, -, -, hp, ha⟩ := hs.fields
  refine ⟨hs.setBy h.setBy, fun last hl => hs.shows h.setBy (h.shows last hl), fun b hb => ?_⟩
  obtain ⟨hpa, ht⟩ := h.held b hb
  refine ⟨hp.trans hpa, fun x hx hx' => ?_⟩
  exact (hs.sourceTime h.setBy x).trans (ht x (hx.trans ha) hx')

/-- The time that the sources give goes by the moment and by the buffer of the device. -/
theorem sourceTime_congr {p : StreamPlayer δ} {x y : PumpInput} (hn : x.nanos = y.nanos)
    (hb : x.buffered = y.buffered) : p.sourceTime x = p.sourceTime y := by
  unfold StreamPlayer.sourceTime StreamPlayer.audioTime
  rw [hn, hb]

/-- A pump of a player that is paused, or that pauses it. -/
theorem Ticking.pump_paused (h : s.Ticking) {x : PumpInput} (ht : s.Timely (.pump x))
    (hq : (s.player.applyPause x).paused = true) : (s.pump pull openMp4 x).Ticking := by
  obtain ⟨hn, hb⟩ := ht
  have hp : (s.pump pull openMp4 x).player = s.player.applyPause x := if_pos hq
  refine ⟨?_, fun last hl => ?_, fun b hb' => ?_⟩
  · rw [hp]
    exact (h.setBy.applyPause hn hb).1
  · rw [hp]
    dsimp only [pump] at hl ⊢
    rw [if_pos hq] at hl
    cases hs : s.last with
    | none =>
      rw [hs] at hl
      cases hl
      trivial
    | some last' =>
      rw [hs] at hl
      cases hl
      exact (h.shows _ hs).applyPause h.setBy hn hb
  · rw [hp]
    dsimp only [pump] at hb'
    rw [if_pos hq] at hb'
    refine ⟨hq, fun y hy hy' => ?_⟩
    rcases s.player.applyPause_cases x with ⟨hu, he⟩ | ⟨-, -, he⟩ | ⟨hw, he⟩
    · rw [if_neg (Bool.eq_false_iff.1 hu)] at hb'
      cases hb'
      rw [he] at hy ⊢
      exact sourceTime_congr hy hy'
    · rw [he] at hq
      exact nomatch hq
    · rw [he] at hq hy ⊢
      rw [if_pos hq] at hb'
      exact (h.held b hb').2 y hy hy'

/-- A pump of a player that plays. -/
theorem Ticking.pump_playing (h : s.Ticking) {x : PumpInput} (ht : s.Timely (.pump x))
    (hf : s.Fits (.pump x)) (hq : (s.player.applyPause x).paused = false) :
    (s.pump pull openMp4 x).Ticking := by
  obtain ⟨hn, hb⟩ := ht
  have hne := Bool.eq_false_iff.1 hq
  have hp : (s.pump pull openMp4 x).player = (s.player.applyPause x).play x := if_neg hne
  have hpl := (s.player.applyPause x).play_pumped x
  have hset := (h.setBy.applyPause hn hb).1
  refine ⟨?_, fun last hl => ?_, fun b hb' => ?_⟩
  · rw [hp]
    exact hpl.setBy hset hq
  · rw [hp]
    dsimp only [pump] at hl ⊢
    rw [if_neg hne] at hl
    cases hl
    exact hpl.shows hset hq (hf hq)
  · dsimp only [pump] at hb'
    rw [if_neg hne] at hb'
    exact nomatch hb'

theorem Ticking.next (h : s.Ticking) (ht : s.Timely i) (hf : s.Fits i) :
    (s.next pull openMp4 i).Ticking := by
  cases i with
  | pump x =>
    cases hq : (s.player.applyPause x).paused with
    | true => exact h.pump_paused ht hq
    | false => exact h.pump_playing ht hf hq
  | fill n fetches => exact h.steady (s.playing.next_steady pull openMp4 nofun)
  | decode out => exact h.steady (s.playing.next_steady pull openMp4 nofun)
  | drivePrefetch => exact h.steady (s.playing.next_steady pull openMp4 nofun)
  | complete n a => exact h.steady (s.playing.next_steady pull openMp4 nofun)

/-- When a player goes on after a pause, the clock shows the time that it had come to. -/
theorem Ticking.resumes (h : s.Ticking) {x : PumpInput} (ht : s.Timely (.pump x))
    {b : Nat × Int} (hb : b ∈ s.held) (hw : x.wantPause = false) (hx : x.buffered = b.1) :
    (s.player.applyPause x).mediaNow x =
      s.player.capped (if s.player.audioEnded x then s.player.clockUs else b.2) := by
  obtain ⟨hp, hs⟩ := h.held b hb
  have ht := StreamPlayer.resume_sourceTime h.setBy ht.1 ht.2 hp hw
  rw [StreamPlayer.mediaNow_eq, ht, hs { x with nanos := s.player.pausedAtNs } rfl hx]
  rcases s.player.applyPause_cases x with ⟨hu, -⟩ | ⟨-, -, he⟩ | ⟨hu, -⟩
  · exact nomatch hp.symm.trans hu
  · rw [he]
    rfl
  · exact nomatch (hp.symm.trans hu).trans hw

/-- In a pump the clock goes on if and only if the time is level with it. -/
theorem Ticking.goesOn_iff (h : s.Ticking) (ht : s.Timely i) (hf : s.Fits i) :
    s.GoesOn pull openMp4 i ↔ s.Level i := by
  cases i with
  | pump x =>
    obtain ⟨_, _, _, _, he⟩ := s.player.applyPause_frame x
    have hcl : (s.player.applyPause x).clockUs = s.player.clockUs := by rw [he]
    dsimp only [GoesOn, Level]
    cases hq : (s.player.applyPause x).paused with
    | true =>
      have hp : (s.pump pull openMp4 x).player = s.player.applyPause x := if_pos hq
      refine iff_of_true ⟨fun _ => ?_, fun b hb hw _ => ?_⟩ fun _ _ h => nomatch h
      · exact Int.le_of_eq ((congrArg StreamPlayer.clockUs hp).trans hcl).symm
      · obtain ⟨hpa, -⟩ := h.held b hb
        rcases s.player.applyPause_cases x with ⟨hu, -⟩ | ⟨-, -, he⟩ | ⟨hu, -⟩
        · exact nomatch hpa.symm.trans hu
        · rw [he] at hq
          exact nomatch hq
        · exact nomatch (hpa.symm.trans hu).trans hw
    | false =>
      have hp : (s.pump pull openMp4 x).player = (s.player.applyPause x).play x :=
        if_neg (Bool.eq_false_iff.1 hq)
      have hc : (s.pump pull openMp4 x).player.clockUs = (s.player.applyPause x).mediaNow x :=
        (congrArg _ hp).trans ((s.player.applyPause x).play_pumped x).fields.2.2.1
      rw [hc, ← hcl, and_iff_left fun b hb hw hx => ?_]
      · cases hl : s.last with
        | none => exact iff_of_true (fun h => nomatch h) fun _ h => nomatch h
        | some last =>
          have hs := (h.shows last hl).applyPause h.setBy ht.1 ht.2
          have hi : (s.player.applyPause x).clockUs ≤ (s.player.applyPause x).mediaNow x ↔
              (s.player.applyPause x).Level x last := by
            refine StreamPlayer.level_iff (hf hq) ?_ ?_
            · rintro rfl first hsrc
              have hle := hs first hsrc
              have hfit := hf hq
              unfold StreamPlayer.Fits at hfit
              rw [hsrc] at hfit
              rw [StreamPlayer.playedTo_playing hq, ← StreamPlayer.elapsedUs_eq hfit.1] at hle
              exact hle
            · rintro e b rfl
              exact hs.2
          rw [hi]
          exact ⟨fun hv _ hm _ => Option.some.inj hm ▸ hv rfl, fun hv _ => hv last rfl rfl⟩
      · rw [h.resumes ht hb hw hx, ← hcl]
  | fill n fetches => exact Iff.rfl
  | decode out => exact Iff.rfl
  | drivePrefetch => exact Iff.rfl
  | complete n a => exact Iff.rfl

end Clocked

/-- A player has been opened, or has gone to another place. -/
theorem StreamPlayer.SetBy.cleared {p : StreamPlayer δ} {now : Nat}
    (hk : p.audioPtsKnown = false) (hs : p.audioStartNs = 0) (hv : p.originNs = 0)
    (hp : p.paused = true → p.pausedAtNs ≤ now) : p.SetBy now := by
  refine ⟨fun h => Bool.noConfusion (hk.symm.trans h), ?_, hs ▸ Nat.zero_le _, hv ▸ Nat.zero_le _⟩
  unfold playedTo
  split
  · next h => exact hp h
  · exact Nat.le_refl _

/-- In a run whose pumps come one after the other and work out times of 64 bits, the clock does
    not go back from pump to pump and goes on after each pause from where it was, if and only if
    the time is level with the clock in each pump. -/
theorem clock_goes_on (pull : δ → Pull δ) (openMp4 : List UInt8 → Except String (List Packet))
    {p : StreamPlayer δ} {now : Nat} {is : List PlayerStep} (hp : p.SetBy now)
    (ht : Goes (Clocked.next pull openMp4) Clocked.Timely { playing := { player := p }, now } is)
    (hf : Goes (Clocked.next pull openMp4) Clocked.Fits { playing := { player := p }, now } is) :
    Goes (Clocked.next pull openMp4) (Clocked.GoesOn pull openMp4)
        { playing := { player := p }, now } is ↔
      Goes (Clocked.next pull openMp4) Clocked.Level { playing := { player := p }, now } is := by
  suffices hs : ∀ s : Clocked δ, s.Ticking → Goes (Clocked.next pull openMp4) Clocked.Timely s is →
      Goes (Clocked.next pull openMp4) Clocked.Fits s is →
      (Goes (Clocked.next pull openMp4) (Clocked.GoesOn pull openMp4) s is ↔
        Goes (Clocked.next pull openMp4) Clocked.Level s is) from
    hs _ ⟨hp, nofun, nofun⟩ ht hf
  clear ht hf
  induction is with
  | nil => exact fun _ _ _ _ => Iff.rfl
  | cons i is ih =>
    intro s h ht hf
    rw [Goes, Goes, h.goesOn_iff ht.1 hf.1]
    exact and_congr_right fun _ => ih _ (h.next ht.1 hf.1) ht.2 hf.2

/-! ### Sound that comes late -/

/-- A demuxer that gives nothing. -/
def silent : Unit → Pull Unit := fun d => .done .error d

/-- A player with a frame of the sound in its queue. -/
def oneSound : StreamPlayer Unit :=
  { video := true
    demux := .ox { dmx := (), videoStream := 0, audioStream := 1,
                   vNum := 1, vDen := 25, aNum := 1, aDen := 48000 }
    reader := .newLocal [] 0
    prefetch := false
    audioDec := true
    hasAudio := true
    audioQ := [{ ptsUs := 0, data := [] }] }

/-- The sound takes over when the device has played most of what it was given, and goes on after
    a pause. -/
theorem clock_goes_on_sample :
    Goes (Clocked.next silent fun _ => .ok []) (Clocked.GoesOn silent fun _ => .ok [])
      { playing := { player := oneSound }, now := 0 }
      [.decode fun _ => (1, 96000), .pump { nanos := 1000000, decoded := [0] },
        .pump { nanos := 2000000, device := some ⟨0, 5000, 0, 0⟩ },
        .pump { nanos := 102000000, device := some ⟨4000, 0, 1000, 1000⟩ },
        .pump { nanos := 103000000, wantPause := true, device := some ⟨4000, 0, 1000, 1000⟩ },
        .pump { nanos := 1103000000, device := some ⟨4000, 0, 1000, 1000⟩ }] :=
  (clock_goes_on silent (fun _ => .ok []) (.cleared rfl rfl rfl fun h => absurd h (by decide))
    (by decide) (by decide)).2 (by decide)

/-- The video has run by itself for a second when the sound begins. Then the clock goes back to
    the start. -/
theorem late_sound :
    Goes (Clocked.next silent fun _ => .ok []) Clocked.Timely
      { playing := { player := oneSound }, now := 0 }
      [.pump { nanos := 1000000, decoded := [0] }, .decode fun _ => (1, 96000),
        .pump { nanos := 1001000000, device := some ⟨0, 24000, 0, 0⟩ },
        .pump { nanos := 1101000000, device := some ⟨24000, 0, 0, 0⟩ }] ∧
    ¬ Goes (Clocked.next silent fun _ => .ok []) (Clocked.GoesOn silent fun _ => .ok [])
      { playing := { player := oneSound }, now := 0 }
      [.pump { nanos := 1000000, decoded := [0] }, .decode fun _ => (1, 96000),
        .pump { nanos := 1001000000, device := some ⟨0, 24000, 0, 0⟩ },
        .pump { nanos := 1101000000, device := some ⟨24000, 0, 0, 0⟩ }] := by
  decide

end Wandr.Media
