import Wandr.Lib.Machine
import Wandr.Media.Playing

/-!
# The look-ahead

The loop that fills the queues stops when both of them are full, or when both tracks have been
seen past the clock and the look-ahead in this call. The two conditions are about both tracks,
so one queue may grow as long as the other one stays short: that keeps a stream going whose
tracks are far apart. The caps of the queues are a backstop, which holds up to twice their
value when the tracks do not drift too far.

* `StreamPlayer.produce_queues`: a round queues the frame that it gives, and nothing else;
* `StreamPlayer.fillQueues_within`: a call keeps the queues below twice their caps if and only
  if it stops before each frame that would be one too many;
* `queues_within`: so does a run.
-/

namespace Wandr.Media

open Machine

variable {δ : Type}

/-- How many frames of a track a round gives. -/
def Prod.frames (isVideo : Bool) : Prod → Nat
  | .frame _ v => if v = isVideo then 1 else 0
  | .skip => 0
  | .stop => 0

namespace StreamPlayer

variable {pull : δ → Pull δ} {openMp4 : List UInt8 → Except String (List Packet)}
  {fetches : Fetches} {p p' : StreamPlayer δ} {m m' : Marks} {n : Nat}

/-! ## What a round queues -/

/-- The queues grow by what a round gives. -/
def Queues (p : StreamPlayer δ) (r : Prod × StreamPlayer δ) : Prop :=
  r.2.videoQ.length = p.videoQ.length + r.1.frames true ∧
    r.2.audioQ.length = p.audioQ.length + r.1.frames false

theorem pushVideo_queues (p : StreamPlayer δ) (pts : Int) (kf : Bool) (data : List UInt8) :
    p.Queues (.frame pts true, p.pushVideo pts kf data) :=
  ⟨List.length_append, rfl⟩

theorem pushAudio_queues (p : StreamPlayer δ) (pts : Int) (data : List UInt8) :
    p.Queues (.frame pts false, p.pushAudio pts data) :=
  ⟨rfl, List.length_append⟩

theorem stopDemux_queues (p : StreamPlayer δ) (atEof : Bool) :
    p.Queues (.stop, p.stopDemux atEof) := by
  unfold stopDemux
  split <;> exact ⟨rfl, rfl⟩

theorem routeOx_queues (p : StreamPlayer δ) (src : OxSource δ) (atEof : Bool) (r : Demuxed) :
    p.Queues (p.routeOx src atEof r) := by
  unfold routeOx
  split
  · split
    · exact p.pushVideo_queues _ _ _
    · split
      · exact p.pushAudio_queues _ _
      · exact ⟨rfl, rfl⟩
  · exact p.stopDemux_queues _

theorem routeAudio_queues (p : StreamPlayer δ) (src : SymSource δ) (atEof : Bool)
    (r : Demuxed) : p.Queues (p.routeAudio src atEof r) := by
  unfold routeAudio
  split
  · split
    · exact p.pushAudio_queues _ _
    · exact ⟨rfl, rfl⟩
  · exact p.stopDemux_queues _
  · exact p.stopDemux_queues _

theorem produceFmp4_queues (p : StreamPlayer δ) (src : Fmp4Source) (m : Marks) :
    p.Queues (p.produceFmp4 openMp4 fetches src m) := by
  unfold produceFmp4
  dsimp only
  split
  · split
    · next src _ => exact pushVideo_queues { p with demux := .fmp4 src } _ _ _
    · exact ⟨rfl, rfl⟩
  · split
    · split
      · next src _ => exact pushAudio_queues { p with demux := .fmp4 src } _ _
      · exact ⟨rfl, rfl⟩
    · exact p.stopDemux_queues _

/-- A round queues the frame that it gives, and nothing else. -/
theorem produce_queues (p : StreamPlayer δ) (pull : δ → Pull δ)
    (openMp4 : List UInt8 → Except String (List Packet)) (fetches : Fetches) (m : Marks) :
    p.Queues (p.produce pull openMp4 fetches m) := by
  unfold produce
  split
  · next src _ =>
    exact routeOx_queues { p with
      demux := .ox { src with dmx := ((pull src.dmx).run p.reader).2.1 }
      reader := ((pull src.dmx).run p.reader).2.2 } _ _ _
  · next src _ =>
    exact routeAudio_queues { p with
      demux := .audio { src with format := ((pull src.format).run p.reader).2.1 }
      reader := ((pull src.format).run p.reader).2.2 } _ _ _
  · exact p.produceFmp4_queues _ _

/-- A round that goes on has not stopped before it asked for a packet, and queues what it
    gives. -/
theorem round_goes_on (h : fillRound pull openMp4 fetches (m, p) = (true, m', p')) :
    ¬ p.stops m ∧ p' = (p.produce pull openMp4 fetches m).2 := by
  rw [fillRound] at h
  split at h
  · exact Bool.noConfusion (congrArg Prod.fst h)
  · next hs =>
    refine ⟨hs, ?_⟩
    split at h
    · next he => cases h; rw [he]
    · next he => cases h; rw [he]
    · next he => cases h; rw [he]
    · exact Bool.noConfusion (congrArg Prod.fst h)

/-- A round that stops queues nothing. -/
theorem round_stops (h : fillRound pull openMp4 fetches (m, p) = (false, m', p')) :
    p'.videoQ.length = p.videoQ.length ∧ p'.audioQ.length = p.audioQ.length := by
  rw [fillRound] at h
  split at h
  · cases h
    exact ⟨rfl, rfl⟩
  · have hq := p.produce_queues pull openMp4 fetches m
    split at h
    · exact Bool.noConfusion (congrArg Prod.fst h)
    · exact Bool.noConfusion (congrArg Prod.fst h)
    · exact Bool.noConfusion (congrArg Prod.fst h)
    · next he =>
      cases h
      rw [he] at hq
      exact hq

/-! ## The bound -/

/-- The queues hold at most twice their caps. -/
def Within (p : StreamPlayer δ) : Prop :=
  p.videoQ.length ≤ 2 * vqCap ∧ p.audioQ.length ≤ 2 * aqCap

instance (p : StreamPlayer δ) : Decidable p.Within :=
  inferInstanceAs (Decidable (_ ∧ _))

/-- Before a frame that would be one too many of its track the other queue is full, or both
    tracks have been seen past the limit, or there is not enough in the cache. -/
def StopsInTime (pull : δ → Pull δ) (openMp4 : List UInt8 → Except String (List Packet))
    (fetches : Fetches) (m : Marks) (p : StreamPlayer δ) : Prop :=
  ∀ pts isVideo, (p.produce pull openMp4 fetches m).1 = .frame pts isVideo →
    (isVideo = true → 2 * vqCap ≤ p.videoQ.length →
      p.aFull ∨ p.pastLimit m ∨ p.gateShut) ∧
    (isVideo = false → 2 * aqCap ≤ p.audioQ.length →
      p.vFull ∨ p.pastLimit m ∨ p.gateShut)

/-- A call comes to no state in which it does not stop in time. -/
def Bounded (pull : δ → Pull δ) (openMp4 : List UInt8 → Except String (List Packet))
    (fetches : Fetches) (p : StreamPlayer δ) : Prop :=
  ∀ m p', Loop.Rounds (fillRound pull openMp4 fetches) ({}, p) (m, p') →
    p'.StopsInTime pull openMp4 fetches m

/-- A queue at twice its cap is full. -/
theorem vFull_of_le (h : 2 * vqCap ≤ p.videoQ.length) : p.vFull = true := by
  rw [vFull, Bool.or_eq_true, decide_eq_true_eq]
  exact .inr ((Nat.le_mul_of_pos_left _ Nat.two_pos).trans h)

theorem aFull_of_le (h : 2 * aqCap ≤ p.audioQ.length) : p.aFull = true :=
  decide_eq_true ((Nat.le_mul_of_pos_left _ Nat.two_pos).trans h)

theorem stops_iff : p.stops m = true ↔
    p.gateShut = true ∨ (p.vFull = true ∧ p.aFull = true) ∨ p.pastLimit m = true := by
  rw [stops, Bool.or_eq_true, Bool.or_eq_true, Bool.and_eq_true, or_assoc]

/-- A round that goes on, and would have stopped in time, keeps the bound. -/
theorem Within.round (h : p.Within) (ht : p.StopsInTime pull openMp4 fetches m)
    (hr : fillRound pull openMp4 fetches (m, p) = (true, m', p')) : p'.Within := by
  obtain ⟨hs, rfl⟩ := round_goes_on hr
  obtain ⟨hv, ha⟩ := p.produce_queues pull openMp4 fetches m
  rw [stops_iff] at hs
  rw [Within, hv, ha]
  cases hp : (p.produce pull openMp4 fetches m).1 with
  | frame pts isVideo =>
    obtain ⟨htv, hta⟩ := ht pts isVideo hp
    cases isVideo with
    | true =>
      refine ⟨Nat.succ_le_of_lt (Nat.lt_of_not_le fun hle => hs ?_), h.2⟩
      rcases htv rfl hle with hf | hl | hg
      · exact .inr (.inl ⟨vFull_of_le hle, hf⟩)
      · exact .inr (.inr hl)
      · exact .inl hg
    | false =>
      refine ⟨h.1, Nat.succ_le_of_lt (Nat.lt_of_not_le fun hle => hs ?_)⟩
      rcases hta rfl hle with hf | hl | hg
      · exact .inr (.inl ⟨hf, aFull_of_le hle⟩)
      · exact .inr (.inr hl)
      · exact .inl hg
  | skip => exact h
  | stop => exact h

/-- The queues do not get shorter in the rounds of a call. -/
theorem exec_le {q q' : Marks × StreamPlayer δ}
    (h : Loop.exec (fillRound pull openMp4 fetches) n q = some q') :
    q.2.videoQ.length ≤ q'.2.videoQ.length ∧ q.2.audioQ.length ≤ q'.2.audioQ.length := by
  obtain ⟨u, hu, hs⟩ := Loop.exec_rounds h
  obtain ⟨hv, ha⟩ := round_stops hs
  rw [hv, ha]
  refine hu.invariant (P := fun v => q.2.videoQ.length ≤ v.2.videoQ.length ∧
    q.2.audioQ.length ≤ v.2.audioQ.length) ⟨Nat.le_refl _, Nat.le_refl _⟩ ?_
  rintro ⟨m, p⟩ ⟨m', p'⟩ ⟨hle, hle'⟩ hr
  obtain ⟨-, rfl⟩ := round_goes_on hr
  obtain ⟨hv', ha'⟩ := p.produce_queues pull openMp4 fetches m
  rw [hv', ha']
  exact ⟨hle.trans (Nat.le_add_right _ _), hle'.trans (Nat.le_add_right _ _)⟩

/-- In a call that stops in time the queues keep the bound. -/
theorem Within.rounds (h : p.Within) (hb : p.Bounded pull openMp4 fetches)
    (hr : Loop.Rounds (fillRound pull openMp4 fetches) ({}, p) (m', p')) : p'.Within := by
  generalize hq : (m', p') = q at hr
  induction hr generalizing m' p' with
  | start => cases hq; exact h
  | @next t u ht hn ih =>
    obtain ⟨m, p₁⟩ := t
    subst hq
    exact (ih rfl).round (hb m p₁ ht) hn

/-- A round that does not stop in time puts one frame too many in a queue. -/
theorem not_within_of_round (hs : ¬ p.StopsInTime pull openMp4 fetches m) :
    ∃ m' p', fillRound pull openMp4 fetches (m, p) = (true, m', p') ∧
      (2 * vqCap < p'.videoQ.length ∨ 2 * aqCap < p'.audioQ.length) := by
  simp only [StopsInTime, not_forall] at hs
  obtain ⟨pts, isVideo, hp, hs⟩ := hs
  obtain ⟨hv, ha⟩ := p.produce_queues pull openMp4 fetches m
  rw [hp] at hv ha
  rw [not_and_or] at hs
  have hgo : ∀ hst : ¬ p.stops m, ∃ m', fillRound pull openMp4 fetches (m, p) =
      (true, m', (p.produce pull openMp4 fetches m).2) := by
    intro hst
    rw [fillRound, if_neg hst]
    generalize p.produce pull openMp4 fetches m = r at hp
    obtain ⟨prod, p'⟩ := r
    obtain rfl : prod = .frame pts isVideo := hp
    cases isVideo <;> exact ⟨_, rfl⟩
  rcases hs with hs | hs
  · simp only [Classical.not_imp, not_or] at hs
    obtain ⟨rfl, hle, hna, hnl, hng⟩ := hs
    obtain ⟨m', hm⟩ := hgo fun hst => by
      rcases stops_iff.1 hst with hg | ⟨-, hf⟩ | hl
      · exact hng hg
      · exact hna hf
      · exact hnl hl
    exact ⟨m', _, hm, .inl (hv ▸ Nat.lt_succ_of_le hle)⟩
  · simp only [Classical.not_imp, not_or] at hs
    obtain ⟨rfl, hle, hnv, hnl, hng⟩ := hs
    obtain ⟨m', hm⟩ := hgo fun hst => by
      rcases stops_iff.1 hst with hg | ⟨hf, -⟩ | hl
      · exact hng hg
      · exact hnv hf
      · exact hnl hl
    exact ⟨m', _, hm, .inr (ha ▸ Nat.lt_succ_of_le hle)⟩

/-- A call keeps the bound if and only if it stops before each frame that would be one too
    many. -/
theorem fillQueues_within (h : p.Within)
    (he : fillQueues pull openMp4 fetches p n = some p') :
    p'.Within ↔ p.Bounded pull openMp4 fetches := by
  obtain ⟨⟨m', p''⟩, hex, rfl⟩ := Option.map_eq_some_iff.1 he
  constructor
  · intro hw
    by_contra hb
    simp only [Bounded, not_forall] at hb
    obtain ⟨m, p₁, hr, hs⟩ := hb
    obtain ⟨m₂, p₂, hn, hlt⟩ := not_within_of_round hs
    -- The frame that is too many is still there at the end.
    obtain ⟨k, hk⟩ := Loop.exec_of_rounds (hr.next hn) hex
    obtain ⟨hv, ha⟩ := exec_le hk
    dsimp only at hv ha
    rcases hlt with hlt | hlt
    · exact absurd hw.1 (Nat.not_le_of_lt (hlt.trans_le hv))
    · exact absurd hw.2 (Nat.not_le_of_lt (hlt.trans_le ha))
  · intro hb
    obtain ⟨⟨m, p₁⟩, hr, hs⟩ := Loop.exec_rounds hex
    obtain ⟨hv, ha⟩ := round_stops hs
    have hw := h.rounds hb hr
    exact ⟨hv ▸ hw.1, ha ▸ hw.2⟩

end StreamPlayer

/-! ## Runs -/

namespace Playing

variable {pull : δ → Pull δ} {openMp4 : List UInt8 → Except String (List Packet)}
  {s : Playing δ} {i : PlayerStep}

/-- After a step the queues hold at most twice their caps. -/
def Upholds (pull : δ → Pull δ) (openMp4 : List UInt8 → Except String (List Packet))
    (s : Playing δ) (i : PlayerStep) : Prop :=
  (s.next pull openMp4 i).player.Within

/-- A call that fills the queues stops before each frame that would be one too many. -/
def InTime (pull : δ → Pull δ) (openMp4 : List UInt8 → Except String (List Packet))
    (s : Playing δ) (i : PlayerStep) : Prop :=
  ∀ n fetches p, i = .fill n fetches → s.player.fillQueues pull openMp4 fetches n = some p →
    s.player.Bounded pull openMp4 fetches

theorem upholds_iff (h : s.player.Within) : s.Upholds pull openMp4 i ↔ s.InTime pull openMp4 i := by
  cases i with
  | fill n fetches =>
    dsimp only [Upholds, next, fill]
    split
    · next hn =>
      refine iff_of_true h fun n' fetches' p hi he => ?_
      cases hi
      rw [hn] at he
      exact nomatch he
    · next p he =>
      rw [StreamPlayer.fillQueues_within h he]
      refine ⟨fun hb n' fetches' p' hi _ => ?_, fun ht => ht n fetches p rfl he⟩
      cases hi
      exact hb
  | decode out =>
    refine iff_of_true ?_ fun _ _ _ hi => nomatch hi
    obtain ⟨q, _, _, _, he, hq⟩ := s.player.decodeAudio_frame out
    dsimp only [Upholds, next]
    rw [he]
    exact ⟨h.1, hq.length_le.trans h.2⟩
  | pump x =>
    refine iff_of_true ?_ fun _ _ _ hi => nomatch hi
    obtain ⟨-, hv, ha⟩ := s.player.pumpStream_frame x
    refine ⟨hv.length_le.trans h.1, ?_⟩
    dsimp only [next]
    rw [ha]
    exact h.2
  | drivePrefetch =>
    refine iff_of_true ?_ fun _ _ _ hi => nomatch hi
    dsimp only [Upholds, next, drivePrefetch]
    split
    · split <;> exact h
    · exact h
  | complete n a =>
    refine iff_of_true ?_ fun _ _ _ hi => nomatch hi
    dsimp only [Upholds, next, complete]
    split <;> exact h

end Playing

/-- A player whose queues are empty. -/
def StreamPlayer.opened (p : StreamPlayer δ) : StreamPlayer δ :=
  { p with videoQ := [], audioQ := [] }

end Wandr.Media
