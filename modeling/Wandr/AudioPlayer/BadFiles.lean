import Wandr.AudioPlayer.Onward

/-!
# Bad files

A file that fails to open is not passed: where it is loaded, the player goes on to say that it
plays, and nothing ever happens again. If no such track is loaded while it plays, there is always a
track that is decoded, and each call ends.

* `Fine`: what may be asked of the player;
* `Awake.step`: while it plays, a track is decoded;
* `Awake.ends`: each call ends.
-/

namespace Wandr.AudioPlayer

variable {S D : Type} {e : Env S D} {s t : State S D} {l : Loaded S D}

/-! ## A track is decoded -/

/-- While it plays, a track is decoded. -/
def Headed (s : State S D) : Prop := s.playing = true → s.loaded.isSome

theorem headed_play (h : Headed s) : Headed (play e s) := by
  unfold play
  split
  · exact h
  · next l hl =>
    intro _
    dsimp only
    split
    · dsimp only
      rw [hl]
      rfl
    · split
      · rfl
      · dsimp only
        rw [hl]
        rfl

theorem closeOrFlush_plays : (closeOrFlush s).playing = s.playing ∧
    (closeOrFlush s).loaded.isSome = s.loaded.isSome := by
  unfold closeOrFlush
  split
  · split
    · exact ⟨rfl, rfl⟩
    · unfold flush
      split <;> exact ⟨rfl, rfl⟩
  · exact ⟨rfl, rfl⟩

theorem resync_plays : (resync e s).playing = s.playing ∧
    (s.loaded.isSome → (resync e s).loaded.isSome) := by
  unfold resync
  split
  · split
    · split
      · exact ⟨rfl, fun _ => rfl⟩
      · exact ⟨rfl, id⟩
    · exact ⟨rfl, id⟩
  · exact ⟨rfl, id⟩

theorem flush_plays : (flush s).playing = s.playing ∧ (flush s).loaded = s.loaded := by
  unfold flush
  split <;> exact ⟨rfl, rfl⟩

variable [Dsp S D]

/-- A track is loaded while it plays only if it opens. -/
theorem headed_hardLoad {n : Nat} {autoplay : Bool} (h : Headed s)
    (ho : s.playing = true → ∀ lib, s.order[n]? = some lib → (openTrack e s lib).isSome) :
    Headed (hardLoad e s n autoplay) := by
  unfold hardLoad
  split
  · exact h
  · next lib hlib =>
    dsimp only
    have hc : Headed (closeOrFlush { s with
        orderPos := n
        decodeOrder := n
        loaded := openTrack e s lib
        segments := []
        xfade := none
        gaplessBlocked := false
        ended := false
        swFrames := 0 }) := by
      intro hp
      have hp' := closeOrFlush_plays.1.symm.trans hp
      rw [closeOrFlush_plays.2]
      exact ho hp' lib hlib
    generalize closeOrFlush _ = s' at hc
    have he : Headed (eqResetState s') := fun hp => Option.isSome_map.trans (hc hp)
    split
    · exact headed_play he
    · exact he

theorem headed_pump (h : Headed s) : Headed (pump e s) :=
  fun hp => onward_pump.loaded (h (onward_pump.playing.symm.trans hp))

theorem headed_seekTo {frame : Nat} (h : Headed s) : Headed (seekTo e s frame) := by
  have hr : Headed (resync e s) := fun hp =>
    resync_plays.2 (h (resync_plays.1.symm.trans hp))
  unfold seekTo
  dsimp only
  generalize resync e s = s' at hr
  split
  · exact hr
  · next l hl =>
    refine headed_pump fun _ => ?_
    refine Option.isSome_map.trans ?_
    rw [flush_plays.2]
    rfl

theorem headed_reopenAtCurrent (h : Headed s) : Headed (reopenAtCurrent e s) := by
  unfold reopenAtCurrent
  split
  · exact h
  · next l hl =>
    have hr : Headed (rewind e s l (positionFrames s)) := fun _ => rfl
    dsimp only
    split
    · exact headed_pump (headed_play hr)
    · exact hr

/-! ## What is asked of the player -/

/-- The track that is loaded when the player is told to go to one. -/
def goesTo (s : State S D) : Command → Option Nat
  | .next => s.order[(s.orderPos + 1) % s.order.length]?
  | .prev =>
    if positionFrames s > 3 * OUT_RATE then none
    else s.order[if s.orderPos = 0 then s.order.length - 1 else s.orderPos - 1]?
  | .rowTap i => if showingTracks s then (currentTrackList s)[i]?.map (tapped s) else none
  | _ => none

/-- The tracks still to come open, and if the order is repeated some track of it has samples. -/
structure Passable (e : Env S D) (s : State S D) : Prop where
  opens : ∀ n ∈ upcoming s, (opened e s n).isSome
  samples : s.repeating = true → ∃ n, yields e s n = true

/-- While it plays, the player is told to go only to tracks that open, and does what is due only
    when those to come do. -/
structure Fine (s : State S D) (c : Command × Env S D) : Prop where
  goes : s.playing = true → ∀ lib, goesTo s c.1 = some lib → (openTrack c.2 s lib).isSome
  tick : s.playing = true → c.1 = .tick → Passable c.2 s

theorem headed_finishTrack (h : Headed s)
    (ho : s.playing = true → ∀ n ∈ upcoming s, (opened e s n).isSome) :
    Headed (finishTrack e s) := by
  unfold finishTrack
  split
  · next hdue =>
    have hx : s.xfade = none := by
      simp only [Bool.and_eq_true] at hdue
      exact Option.isNone_iff_eq_none.1 hdue.1.1.2
    split
    · next n hn =>
      rw [nextDecodeOrder_eq hx] at hn
      refine headed_hardLoad h fun hp lib hlib => ?_
      have hopen := ho hp n (List.mem_of_mem_head? hn)
      rw [opened, hlib] at hopen
      exact hopen
    · exact fun hp => by cases hp
  · exact h

theorem headed_rowTap {i : Nat} (h : Headed s)
    (ho : s.playing = true → ∀ lib, goesTo s (.rowTap i) = some lib →
      (openTrack e s lib).isSome) : Headed (rowTap e s i) := by
  unfold rowTap
  split
  · next hshow =>
    split
    · next hlt =>
      have hmin : min i ((currentTrackList s).length - 1) = i := by omega
      have hi : (currentTrackList s)[i]? = some (currentTrackList s)[i] :=
        List.getElem?_eq_getElem hlt
      unfold playFrom
      rw [hmin, hi]
      dsimp only
      have hplace := applyOrder_at (s := { s with queue := currentTrackList s })
        (List.mem_of_getElem? hi)
      have hl : Headed (applyOrder { s with queue := currentTrackList s }
          (some (currentTrackList s)[i])) := h
      refine headed_hardLoad hl fun hp lib hlib => ?_
      cases hlib.symm.trans hplace
      refine ho hp _ ?_
      unfold goesTo
      dsimp only
      rw [if_pos hshow, hi]
      rfl
    · exact h
  · split
    · exact h
    · exact h

/-- While it plays, a track is decoded; and none is before the library is read. -/
structure Awake (s : State S D) : Prop where
  unread : Unread s
  headed : Headed s
  blank : s.scanned = false → s.loaded = none

omit [Dsp S D] in
theorem Awake.scanned (h : Awake s) (hp : s.playing = true) : s.scanned = true := by
  have hl := h.headed hp
  rw [← Bool.not_eq_false]
  intro hs
  rw [h.blank hs] at hl
  cases hl

theorem unread_step {c : Command × Env S D} (hc : c.1 ≠ .tick) (h : Unread s)
    (hs : s.scanned = false) (hl : s.loaded = none) : (step s c).loaded = none := by
  obtain ⟨c, e⟩ := c
  have ho : s.order = [] := (h hs).2.2.2.2.2
  have hplay : (play e { s with takes := e.takes }).loaded = none := by
    unfold play
    rw [hl]
  have hseek {p : Bool} {frame : Nat} :
      (seekTo e { s with takes := e.takes, playing := p } frame).loaded = none := by
    have hr : resync e { s with takes := e.takes, playing := p } =
        { s with takes := e.takes, playing := p } := by
      unfold resync openTrack
      dsimp only
      rw [(h hs).1]
      split
      · split <;> rfl
      · rfl
    unfold seekTo
    dsimp only
    rw [hr]
    dsimp only
    rw [hl]
  unfold step
  cases c with
  | toggle =>
    dsimp only
    split
    · exact hl
    · exact hplay
  | play => exact hplay
  | pause => exact hl
  | stop => exact hseek
  | seek frame => exact hseek
  | next =>
    unfold next
    dsimp only
    rw [ho]
    exact hl
  | prev =>
    unfold prev
    dsimp only
    rw [ho]
    exact hl
  | toggleShuffle => exact hl
  | toggleRepeat => exact hl
  | setTab tab => exact hl
  | goBack => exact hl
  | rowTap i =>
    have hu : Unread { s with takes := e.takes } := h
    dsimp only
    rw [hu.rowTap_eq hs]
    exact hl
  | cycleXfade => exact hl
  | setBackgrounded bg =>
    unfold setBackgrounded
    dsimp only
    split
    · exact hl
    · unfold reopenAtCurrent
      dsimp only
      rw [hl]
  | tick => exact absurd rfl hc
  | consume n => exact hl

/-- The state when the pump has done what it can. -/
def pumped (e : Env S D) (s : State S D) : State S D :=
  if s.playing then pump e (advanceAudible s) else advanceAudible s

omit [Dsp S D] in
theorem onward_advanceAudible : Onward s (advanceAudible s) := onward_of_head rfl rfl id rfl

theorem onward_pumped : Onward s (pumped e s) := by
  unfold pumped
  split
  · exact onward_advanceAudible.trans onward_pump
  · exact onward_advanceAudible

omit [Dsp S D] in
theorem onward_consume {n : Nat} :
    Onward s { s with pb := s.pb.map fun pb => pb.consume n } := onward_of_head rfl rfl id rfl

theorem engineStep_scanned (hs : s.scanned = true) (hl : s.loaded.isSome) :
    engineStep e s = finishTrack e
      { pumped e s with pb := (pumped e s).pb.map fun pb => pb.consume e.drains } := by
  have hnone : s.loaded.isNone = false := by
    rw [← Option.not_isSome, hl]
    rfl
  unfold engineStep firstScan
  rw [if_pos hs]
  dsimp only
  rw [hnone, Bool.false_and, if_neg Bool.false_ne_true]
  rfl

theorem not_playing_firstScan (hp : s.playing = false) : (firstScan e s).playing = false := by
  unfold firstScan
  split
  · exact hp
  · dsimp only
    split
    · exact hp
    · unfold hardLoad
      split
      · exact hp
      · exact closeOrFlush_plays.1.trans hp

/-- While it does not play, nothing is due. -/
theorem engineStep_not_playing (hp : s.playing = false) : engineStep e s =
    if (firstScan e s).loaded.isNone && (firstScan e s).segments.isEmpty then firstScan e s
    else
      { advanceAudible (firstScan e s) with
        pb := (firstScan e s).pb.map fun pb => pb.consume e.drains } := by
  have hp' : (advanceAudible (firstScan e s)).playing = false := not_playing_firstScan hp
  unfold engineStep
  dsimp only
  rw [hp', if_neg Bool.false_ne_true]
  unfold finishTrack
  dsimp only
  rw [hp', Bool.false_and, Bool.false_and, Bool.false_and, if_neg Bool.false_ne_true]
  rfl

theorem Awake.headed_engineStep (h : Awake s) (ht : s.playing = true → Passable e s) :
    Headed (engineStep e s) := by
  cases hp : s.playing with
  | false =>
    intro hplay
    rw [engineStep_not_playing hp] at hplay
    split at hplay
    · exact absurd ((not_playing_firstScan hp).symm.trans hplay) Bool.false_ne_true
    · exact absurd ((not_playing_firstScan hp).symm.trans hplay) Bool.false_ne_true
  | true =>
    have hl := h.headed hp
    rw [engineStep_scanned (h.scanned hp) hl]
    have ho : Onward s { pumped e s with
        pb := (pumped e s).pb.map fun pb => pb.consume e.drains } :=
      onward_pumped.trans onward_consume
    refine headed_finishTrack (fun _ => ho.loaded hl) fun _ n hn => ?_
    rw [opened_congr ho.same]
    exact (ht hp).opens n (ho.upcoming hn)

theorem Awake.step {c : Command × Env S D} (h : Awake s) (hc : Fine s c) : Awake (step s c) := by
  have hblank : (AudioPlayer.step s c).scanned = false → (AudioPlayer.step s c).loaded = none := by
    intro hs
    by_cases ht : c.1 = .tick
    · obtain ⟨c, e⟩ := c
      cases ht
      exact absurd (scanned_tick.symm.trans hs) (by decide)
    · rw [scanned_step ht] at hs
      exact unread_step ht h.unread hs (h.blank hs)
  refine ⟨h.unread.step, ?_, hblank⟩
  obtain ⟨c, e⟩ := c
  have hs : Headed { s with takes := e.takes } := h.headed
  unfold AudioPlayer.step
  cases c with
  | toggle =>
    dsimp only
    split
    · exact fun hp => by cases hp
    · exact headed_play hs
  | play => exact headed_play hs
  | pause => exact fun hp => by cases hp
  | stop =>
    have hp : Headed (pause { s with takes := e.takes }) := fun hp => by cases hp
    exact headed_seekTo hp
  | seek frame => exact headed_seekTo hs
  | next =>
    unfold next
    dsimp only
    split
    · exact hs
    · exact headed_hardLoad hs hc.goes
  | prev =>
    unfold prev
    dsimp only
    split
    · exact hs
    split
    · exact headed_seekTo hs
    · next hpos =>
      refine headed_hardLoad hs fun hp lib hlib => hc.goes hp lib ?_
      have hpos' : ¬ positionFrames s > 3 * OUT_RATE := hpos
      unfold goesTo
      dsimp only
      rw [if_neg hpos']
      exact hlib
  | toggleShuffle => exact h.headed
  | toggleRepeat => exact h.headed
  | setTab tab => exact h.headed
  | goBack => exact h.headed
  | rowTap i => exact headed_rowTap hs hc.goes
  | cycleXfade => exact h.headed
  | setBackgrounded bg =>
    unfold setBackgrounded
    dsimp only
    split
    · exact hs
    · exact headed_reopenAtCurrent h.headed
  | tick =>
    have h' : Awake { s with takes := e.takes } := ⟨h.unread, h.headed, h.blank⟩
    exact h'.headed_engineStep fun hp => ⟨(hc.tick hp rfl).opens, (hc.tick hp rfl).samples⟩
  | consume n => exact h.headed

/-! ## Calls end -/

/-- The state the pump's loop starts in, if no blend has begun. -/
def started (e : Env S D) (s : State S D) : State S D :=
  if s.xfade.isNone then maybeStartXfade e s else s

omit [Dsp S D] in
theorem same_started : Same s (started e s) := by
  unfold started
  split
  · exact same_maybeStartXfade
  · exact rfl

theorem pump_started (r : Nat) : pump { e with rounds := r } s =
    if s.pb.isNone || s.loaded.isNone then s
    else if (started e s).xfade.isSome then pumpXfade ((started e s).takes.length + 1) (started e s)
    else pumpLoop e r (started e s) := pump_rounds r

theorem pumpLoop_exec {n : Nat} (h : Loop.exec (pumpRound e ·) n s = some t) :
    pumpLoop e n s = t := by
  induction n generalizing s with
  | zero => exact absurd h (Option.some_ne_none t).symm
  | succ n ih =>
    rw [Loop.exec] at h
    rw [pumpLoop]
    split at h
    · next s' hs' =>
      rw [hs']
      exact ih h
    · next s' hs' =>
      rw [hs']
      exact Option.some.inj h

/-- A call ends: a blend goes on no longer than the device takes some of it, the pump's loop has a
    last round, and what comes of the call does not depend on for how many rounds the loop could
    have been run. -/
def Ends (e : Env S D) (s : State S D) : Prop :=
  (∀ (u : State S D) m, u.takes.length < m →
    pumpXfade m u = pumpXfade (u.takes.length + 1) u) ∧
  ∃ n, ∀ r, n ≤ r →
    (s.playing = true → (started e (advanceAudible { s with takes := e.takes })).xfade = none →
      (Loop.exec (pumpRound e ·) r
        (started e (advanceAudible { s with takes := e.takes }))).isSome) ∧
    step s (.tick, { e with rounds := r }) = step s (.tick, { e with rounds := n })

theorem pumped_ends {n : Nat} (hn : ((started e (advanceAudible s)).xfade = none →
    (Loop.exec (pumpRound e ·) n (started e (advanceAudible s))).isSome)) {r : Nat} (hr : n ≤ r) :
    pumped { e with rounds := r } s = pumped { e with rounds := n } s := by
  unfold pumped
  rw [pump_started, pump_started]
  split
  · split
    · rfl
    split
    · rfl
    · next hx =>
      obtain ⟨t, ht⟩ := Option.isSome_iff_exists.1 (hn (Option.not_isSome_iff_eq_none.1 hx))
      exact (pumpLoop_exec (Loop.exec_mono ht hr)).trans (pumpLoop_exec ht).symm
  · rfl

theorem Awake.ends (h : Awake s) (ht : s.playing = true → Passable e s) : Ends e s := by
  have hfuel (u : State S D) (m : Nat) (hm : u.takes.length < m) :
      pumpXfade m u = pumpXfade (u.takes.length + 1) u := pumpXfade_fuel hm (Nat.lt_succ_self _)
  cases hp : s.playing with
  | false =>
    refine ⟨hfuel, 0, fun r _ => ⟨fun hp' => absurd (hp.symm.trans hp') Bool.false_ne_true, ?_⟩⟩
    have hstep (r : Nat) : AudioPlayer.step s (.tick, { e with rounds := r }) =
        engineStep { e with rounds := r } { s with takes := e.takes } := rfl
    have hp' : ({ s with takes := e.takes } : State S D).playing = false := hp
    rw [hstep, hstep, engineStep_not_playing hp', engineStep_not_playing hp']
    rfl
  | true =>
    have hn : ∃ n, (started e (advanceAudible { s with takes := e.takes })).xfade = none →
        (Loop.exec (pumpRound e ·) n
          (started e (advanceAudible { s with takes := e.takes }))).isSome := by
      by_cases hx : (started e (advanceAudible { s with takes := e.takes })).xfade = none
      · have hsame : Same s (started e (advanceAudible { s with takes := e.takes })) :=
          same_started
        obtain ⟨n, t, hexec⟩ := exec_pumpRound hx fun hr => by
          rw [yields_congr hsame]
          exact (ht hp).samples (hsame.repeating.symm.trans hr)
        exact ⟨n, fun _ => Option.isSome_iff_exists.2 ⟨t, hexec⟩⟩
      · exact ⟨0, fun hx' => absurd hx' hx⟩
    obtain ⟨n, hn⟩ := hn
    refine ⟨hfuel, n, fun r hr => ⟨fun _ hx => ?_, ?_⟩⟩
    · obtain ⟨t, hexec⟩ := Option.isSome_iff_exists.1 (hn hx)
      exact Option.isSome_iff_exists.2 ⟨t, Loop.exec_mono hexec hr⟩
    · have hstep (r : Nat) : AudioPlayer.step s (.tick, { e with rounds := r }) =
          finishTrack e { pumped { e with rounds := r } { s with takes := e.takes } with
            pb := (pumped { e with rounds := r } { s with takes := e.takes }).pb.map fun pb =>
              pb.consume e.drains } :=
        engineStep_scanned (h.scanned hp) (h.headed hp)
      rw [hstep, hstep, pumped_ends hn hr]

end Wandr.AudioPlayer
