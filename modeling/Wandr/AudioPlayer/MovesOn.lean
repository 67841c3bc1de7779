import Wandr.Lib.Machine
import Wandr.AudioPlayer.BadFiles

/-!
# The next good track

After a track has ended, tracks that have no samples are passed one by one, by the pump, in a blend
or by opening the device again, until there is one that has some, or the order ends.

* `Stage`: how far it is to the next good track;
* `Due.tick`: each call brings it nearer, if the device plays;
* `unstopped`: bad files do not stop the music, if they open;
* `music_stopped`: those that do not open stop it.
-/

namespace Wandr.AudioPlayer

open Machine

variable {S D : Type} [Dsp S D] {e : Env S D} {s t : State S D} {l : Loaded S D}

/-! ## Blends of which a track has ended -/

omit [Dsp S D] in
/-- How much the device has still to play. -/
def buffered (s : State S D) : Nat := (s.pb.map Playback.buffered).getD 0

namespace Loaded

theorem left_refill : (refill l).left = l.left := by
  unfold refill
  split
  · next h =>
    rw [Bool.and_eq_true, decide_eq_true_eq, Bool.not_eq_true'] at h
    exact left_decodeChunk (unwritten_eq_nil.2 h.1) h.2
  · rfl

theorem rest_refill : (refill l).rest ≤ l.rest := by
  unfold refill
  split
  · next h =>
    rw [Bool.and_eq_true, Bool.not_eq_true'] at h
    exact Nat.le_of_lt (rest_decodeChunk h.2)
  · exact Nat.le_refl _

/-- Of a track of which all is written, a packet is decoded if there may be one. -/
theorem rest_refill_lt (h : l.unwritten = []) (he : (refill l).eof = false) :
    (refill l).rest < l.rest := by
  unfold refill at he ⊢
  split at he
  · next hmore =>
    rw [if_pos hmore]
    rw [Bool.and_eq_true, Bool.not_eq_true'] at hmore
    exact rest_decodeChunk hmore.2
  · next hmore =>
    refine absurd ?_ hmore
    rw [he, Bool.not_false, Bool.and_true]
    exact decide_eq_true (unwritten_eq_nil.1 h)

omit [Dsp S D] in
theorem frames_eq_zero {c : Nat} (h : l.unwritten = []) :
    (l.pending.length - l.pendingPos) / c = 0 := by
  rw [Nat.sub_eq_zero_of_le (unwritten_eq_nil.1 h), Nat.zero_div]

end Loaded

/-- Packets of both tracks of a blend are decoded, where nothing is left of the last. -/
def refilled (s : State S D) (l : Loaded S D) (x : Xfade S D) : State S D :=
  { s with loaded := some (refill l), xfade := some { x with next := refill x.next } }

/-- A blend of which a track has ended is over, or one of the tracks is decoded further. -/
theorem pumpXfade_ended {x : Xfade S D} {m : Nat} (hl : s.loaded = some l) (hx : s.xfade = some x)
    (hend : l.left = [] ∨ x.next.left = []) :
    pumpXfade (m + 1) s = xfadeFinish (refilled s l x) ∨
      pumpXfade (m + 1) s = refilled s l x ∧
        (refill l).rest + (refill x.next).rest < l.rest + x.next.rest := by
  have hmin : min (((refill l).pending.length - (refill l).pendingPos) / (refill l).ch)
      (((refill x.next).pending.length - (refill x.next).pendingPos) / (refill l).ch) = 0 := by
    rcases hend with h | h
    · rw [Loaded.frames_eq_zero (Loaded.unwritten_of_left (Loaded.left_refill.trans h)),
        Nat.zero_min]
    · rw [Loaded.frames_eq_zero (Loaded.unwritten_of_left (Loaded.left_refill.trans h)),
        Nat.min_zero]
  have hle := Loaded.rest_refill (l := l)
  have hle' := Loaded.rest_refill (l := x.next)
  rw [pumpXfade, hl, hx]
  dsimp only [Option.map_some]
  rw [if_pos hmin]
  split
  · exact .inl rfl
  next hgo =>
  split
  · exact .inl rfl
  next hgo' =>
  refine .inr ⟨rfl, ?_⟩
  rcases hend with h | h
  · have hu := Loaded.unwritten_of_left h
    have hf := Loaded.frames_eq_zero (c := (refill l).ch)
      (Loaded.unwritten_of_left (Loaded.left_refill.trans h))
    have heof : (refill l).eof = false := by
      rw [← Bool.not_eq_true]
      exact fun he => hgo (.inr ⟨he, hf⟩)
    have := Loaded.rest_refill_lt hu heof
    omega
  · have hu := Loaded.unwritten_of_left h
    have hf := Loaded.frames_eq_zero (c := (refill l).ch)
      (Loaded.unwritten_of_left (Loaded.left_refill.trans h))
    have heof : (refill x.next).eof = false := by
      rw [← Bool.not_eq_true]
      exact fun he => hgo' ⟨he, hf⟩
    have := Loaded.rest_refill_lt hu heof
    omega

/-! ## How far it is -/

/-- The player is where it was to go: at a place of the order, with a track that has samples; or
    there was none, and it does not play. -/
inductive MovedOn (u : State S D) : Option (Nat × Option Nat) → Prop
  | stopped : u.playing = false → MovedOn u none
  | plays {l : Loaded S D} : u.playing = true → u.xfade = none → u.loaded = some l → l.left ≠ [] →
      MovedOn u (some (u.decodeOrder, some l.lib))

/-- A place of the order and its track. -/
def State.place (s : State S D) (n : Nat) : Nat × Option Nat := (n, s.order[n]?)

/-- How far it is from the end of a track to where the player goes: how many tracks without samples
    are between, and what is left to be decoded and played before the next of them. -/
inductive Stage (e : Env S D) (s : State S D) (goal : Option (Nat × Option Nat))
    (a : ℕ ×ₗ ℕ) : Prop
  | solo {l : Loaded S D} {k : Nat} {g : Option Nat} : s.loaded = some l → s.xfade = none →
      l.left = [] → Leads (yields e s) (upcoming s) k g → goal = g.map s.place →
      a = toLex (2 * k + 1, l.rest + buffered s) → Stage e s goal a
  /-- A track without samples is blended in. -/
  | fade {l : Loaded S D} {x : Xfade S D} {k : Nat} {g : Option Nat} : s.loaded = some l →
      s.xfade = some x → x.next.left = [] → Leads (yields e s) (upcoming s) k g →
      goal = g.map s.place →
      a = toLex (2 * k + 2, l.rest + x.next.rest + buffered s) → Stage e s goal a
  /-- A track with samples is. -/
  | into {l : Loaded S D} {x : Xfade S D} : s.loaded = some l → s.xfade = some x → l.left = [] →
      x.next.left ≠ [] → goal = some (x.order, some x.next.lib) →
      a = toLex (0, l.rest + x.next.rest + buffered s) → Stage e s goal a

/-- A track has ended, and the player goes on. -/
structure Due (e : Env S D) (goal : Option (Nat × Option Nat)) (a : ℕ ×ₗ ℕ) (s : State S D) :
    Prop where
  scanned : s.scanned = true
  playing : s.playing = true
  pb : s.pb.isSome
  samples : s.repeating = true → ∃ n, yields e s n = true
  stage : Stage e s goal a

/-- The player is where it was to go, or nearer. -/
def Nearer (e : Env S D) (goal : Option (Nat × Option Nat)) (a : ℕ ×ₗ ℕ) (s : State S D) : Prop :=
  MovedOn s goal ∨ ∃ b < a, Due e goal b s

variable {goal : Option (Nat × Option Nat)} {a : ℕ ×ₗ ℕ}

omit [Dsp S D] in
theorem order_opened {n : Nat} (h : opened e s n = some l) : s.order[n]? = some l.lib := by
  obtain ⟨lib, hlib, hl⟩ := Option.bind_eq_some_iff.1 h
  rw [hlib, lib_openTrack hl]

omit [Dsp S D] in
theorem place_congr (h : Same s t) : t.place = s.place := by
  funext n
  rw [State.place, State.place, h.order]

/-- The next track is opened: it is the good one, or one less to it. -/
theorem Due.next {n k : Nat} {g : Option Nat} (h : Due e goal a s) (hx : s.xfade = none)
    (hk : Leads (yields e s) (upcoming s) k g) (hgoal : goal = g.map s.place)
    (hn : nextDecodeOrder s = some n) (hl : opened e s n = some l) (hs : Same s t)
    (hd : head t = n) :
    k = 0 ∧ goal = some (n, some l.lib) ∧ l.left ≠ [] ∨
      ∃ k', k = k' + 1 ∧ l.left = [] ∧ Leads (yields e t) (upcoming t) k' g ∧
        goal = g.map t.place := by
  rcases leads_next hx (repeating_of_none h.samples hk) hk hn hl hs hd with
    ⟨hk0, rfl, hne⟩ | ⟨k', hk', hnil, hlead⟩
  · refine .inl ⟨hk0, ?_, hne⟩
    rw [hgoal, Option.map_some, State.place, order_opened hl]
  · refine .inr ⟨k', hk', hnil, hlead, ?_⟩
    rw [hgoal, place_congr hs]

/-- What is due stays so when another track is opened. -/
theorem Due.of_stage {b : ℕ ×ₗ ℕ} (h : Due e goal a s) (hs : Same s t)
    (hp : t.playing = true) (hpb : t.pb.isSome) (hst : Stage e t goal b) : Due e goal b t := by
  refine ⟨hs.scanned.trans h.scanned, hp, hpb, fun hr => ?_, hst⟩
  rw [yields_congr hs]
  exact h.samples (hs.repeating.symm.trans hr)

/-- Where a blend begins after the end of a track, it is nearer. -/
theorem Due.maybeStartXfade (h : Due e goal a s) (hx : s.xfade = none) :
    maybeStartXfade e s = s ∨
      (maybeStartXfade e s).xfade.isSome ∧ (maybeStartXfade e s).pb = s.pb ∧
        ∃ b < a, Due e goal b (maybeStartXfade e s) := by
  refine maybeStartXfade_eq.imp_right fun ⟨n, l', segs, hn, hl', _, he⟩ => ?_
  rw [he]
  refine ⟨rfl, rfl, ?_⟩
  cases h.stage with
  | @solo l k g hl _ hnil hk hgoal ha =>
    have hd : head { s with
        segments := segs
        xfade := some {
          next := { l' with segStarted := true }, order := n, pos := 0,
          dur := s.xfadeFrames } } = n := rfl
    have hsame : Same s { s with
        segments := segs
        xfade := some {
          next := { l' with segStarted := true }, order := n, pos := 0,
          dur := s.xfadeFrames } } := rfl
    rcases h.next hx hk hgoal hn hl' hsame hd with ⟨rfl, hg, hne⟩ | ⟨k', rfl, hnil', hk', hg⟩
    · refine ⟨_, ?_, h.of_stage hsame h.playing h.pb (.into hl rfl hnil hne hg rfl)⟩
      rw [ha]
      exact Prod.Lex.toLex_lt_toLex.2 (.inl (Nat.zero_lt_one))
    · refine ⟨_, ?_, h.of_stage hsame h.playing h.pb (.fade hl rfl hnil' hk' hg rfl)⟩
      rw [ha]
      exact Prod.Lex.toLex_lt_toLex.2 (.inl (by dsimp only; omega))
  | fade _ hx' => cases hx.symm.trans hx'
  | into _ hx' => cases hx.symm.trans hx'

/-- The places to come are the same. -/
theorem leads_congr {k : Nat} {g : Option Nat} (h : Leads (yields e s) (upcoming s) k g)
    (hs : Same s t) (hd : head t = head s) : Leads (yields e t) (upcoming t) k g := by
  rw [yields_congr hs, upcoming_congr hs hd]
  exact h

/-- In a blend of which a track has ended, it is nearer. -/
theorem Due.pumpXfade {m : Nat} (h : Due e goal a s) (hx : s.xfade.isSome) :
    Nearer e goal a (pumpXfade (m + 1) s) := by
  cases h.stage with
  | solo _ hnone =>
    rw [hnone] at hx
    cases hx
  | @fade l x k g hl hx hnil hk hgoal ha =>
    have hnil' : (refill x.next).left = [] := Loaded.left_refill.trans hnil
    refine .inr ?_
    rcases pumpXfade_ended hl hx (.inr hnil) with he | ⟨he, hlt⟩
    · rw [he]
      have hsame : Same s (xfadeFinish (refilled s l x)) := rfl
      have hd : head (xfadeFinish (refilled s l x)) = head s := by
        rw [head, head, hx]
        rfl
      refine ⟨_, ?_, h.of_stage hsame h.playing h.pb
        (.solo rfl rfl hnil' (leads_congr hk hsame hd) hgoal rfl)⟩
      rw [ha]
      exact Prod.Lex.toLex_lt_toLex.2 (.inl (Nat.lt_succ_self _))
    · rw [he]
      have hsame : Same s (refilled s l x) := rfl
      have hd : head (refilled s l x) = head s := by
        rw [head, head, hx]
        rfl
      refine ⟨_, ?_, h.of_stage hsame h.playing h.pb
        (.fade rfl rfl hnil' (leads_congr hk hsame hd) hgoal rfl)⟩
      rw [ha]
      exact Prod.Lex.toLex_lt_toLex.2 (.inr ⟨rfl, Nat.add_lt_add_right hlt _⟩)
  | @into l x hl hx hnil hne hgoal ha =>
    have hne' : (refill x.next).left ≠ [] := fun he => hne (Loaded.left_refill.symm.trans he)
    rcases pumpXfade_ended hl hx (.inl hnil) with he | ⟨he, hlt⟩
    · rw [he, hgoal, ← lib_refill]
      exact .inl (.plays h.playing rfl rfl hne')
    · rw [he]
      rw [← lib_refill] at hgoal
      have hsame : Same s (refilled s l x) := rfl
      refine .inr ⟨_, ?_, h.of_stage hsame h.playing h.pb
        (.into rfl rfl (Loaded.left_refill.trans hnil) hne' hgoal rfl)⟩
      rw [ha]
      exact Prod.Lex.toLex_lt_toLex.2 (.inr ⟨rfl, Nat.add_lt_add_right hlt _⟩)

/-! ## The pump -/

/-- All of the track that is decoded has been written, and it is not blended. -/
def Drained (s : State S D) : Prop :=
  s.xfade = none ∧ ∃ l, s.loaded = some l ∧ l.drained = true

theorem Nearer.trans {b : ℕ ×ₗ ℕ} (h : Nearer e goal b s) (hb : b ≤ a) : Nearer e goal a s :=
  h.imp_right fun ⟨c, hc, hdue⟩ => ⟨c, hc.trans_le hb, hdue⟩

/-- A round of the pump brings it nearer, or there is nothing that the pump can do. -/
theorem Due.pumpRound {b : Bool} (h : Due e goal a s) (hx : s.xfade = none)
    (hr : pumpRound e s = (b, t)) :
    MovedOn t goal ∨
      (∃ c < a, Due e goal c t ∧ (b = true → t.xfade = none ∧ t.pb = s.pb)) ∨
      b = false ∧ Due e goal a t ∧ Drained t ∧ t.pb = s.pb := by
  cases h.stage with
  | @solo l k g hl _ hnil hk hgoal ha =>
    have hu := Loaded.unwritten_of_left hnil
    cases he : l.eof with
    | false =>
      rw [pumpRound_decode hl hu he] at hr
      have hnil' : l.decodeChunk.left = [] := (Loaded.left_decodeChunk hu he).trans hnil
      have hlt : toLex (2 * k + 1, l.decodeChunk.rest + buffered s) < a := by
        rw [ha]
        refine Prod.Lex.toLex_lt_toLex.2 (.inr ⟨rfl, ?_⟩)
        exact Nat.add_lt_add_right (Loaded.rest_decodeChunk he) _
      have hsame : Same s { s with loaded := some l.decodeChunk } := rfl
      have hdue : Due e goal (toLex (2 * k + 1, l.decodeChunk.rest + buffered s))
          { s with loaded := some l.decodeChunk } :=
        h.of_stage hsame h.playing h.pb (.solo rfl hx hnil' hk hgoal rfl)
      dsimp only at hr
      rcases hdue.maybeStartXfade hx with hm | ⟨hm, -, c, hc, hdue'⟩
      · have hnone : ¬ (AudioPlayer.maybeStartXfade e
            { s with loaded := some l.decodeChunk }).xfade.isSome := by
          rw [hm, Option.not_isSome_iff_eq_none]
          exact hx
        rw [if_neg hnone, hm] at hr
        cases hr
        exact .inr (.inl ⟨_, hlt, hdue, fun _ => ⟨hx, rfl⟩⟩)
      · rw [if_pos hm] at hr
        cases hr
        rcases hdue'.pumpXfade hm with hmoved | ⟨c', hc', hdue''⟩
        · exact .inl hmoved
        · exact .inr (.inl ⟨c', (hc'.trans hc).trans hlt, hdue'', fun hb => by cases hb⟩)
    | true =>
      have hdrained : l.drained = true := by
        unfold Loaded.drained
        rw [he, Bool.true_and, decide_eq_true_eq]
        exact Loaded.unwritten_eq_nil.1 hu
      rcases pumpRound_drained hl hu he with hr' | hr' | ⟨n, t', hn, ht', hr'⟩
      · cases hr.symm.trans hr'
        exact .inr (.inr ⟨rfl, h, ⟨hx, l, hl, hdrained⟩, rfl⟩)
      · cases hr.symm.trans hr'
        have hsame : Same s { s with gaplessBlocked := true } := rfl
        exact .inr (.inr ⟨rfl, h.of_stage hsame h.playing h.pb
          (.solo hl hx hnil hk hgoal ha), ⟨hx, l, hl, hdrained⟩, rfl⟩)
      · cases hr.symm.trans hr'
        obtain ⟨l', hl', rfl⟩ := softAdvance_eq ht'
        have hsame : Same s { s with loaded := some l', decodeOrder := n } := rfl
        rcases h.next hx hk hgoal hn hl' hsame (head_eq hx) with
          ⟨rfl, hg, hne⟩ | ⟨k', rfl, hnil', hk', hg⟩
        · rw [hg]
          exact .inl (.plays h.playing hx rfl hne)
        · refine .inr (.inl ⟨_, ?_, h.of_stage hsame h.playing h.pb
            (.solo rfl hx hnil' hk' hg rfl), fun _ => ⟨hx, rfl⟩⟩)
          rw [ha]
          exact Prod.Lex.toLex_lt_toLex.2 (.inl (by dsimp only; omega))
  | fade _ hx' => cases hx.symm.trans hx'
  | into _ hx' => cases hx.symm.trans hx'

theorem Due.loaded (h : Due e goal a s) : s.loaded.isSome := by
  cases h.stage with
  | solo hl => exact Option.isSome_iff_exists.2 ⟨_, hl⟩
  | fade hl => exact Option.isSome_iff_exists.2 ⟨_, hl⟩
  | into hl => exact Option.isSome_iff_exists.2 ⟨_, hl⟩

/-- The pump's loop gets there, or nearer, or there is nothing that it can do. -/
theorem Due.pumpLoop (h : Due e goal a s) (hx : s.xfade = none)
    (hexec : Loop.exec (AudioPlayer.pumpRound e ·) e.rounds s = some t) :
    (∃ u, Loop.Rounds (AudioPlayer.pumpRound e ·) s u ∧ MovedOn u goal) ∨ Nearer e goal a t ∨
      Due e goal a t ∧ Drained t ∧ t.pb = s.pb := by
  obtain ⟨u, hu, hlast⟩ := Loop.exec_rounds hexec
  have hgo : (∃ v, Loop.Rounds (AudioPlayer.pumpRound e ·) s v ∧ MovedOn v goal) ∨
      ∃ c ≤ a, Due e goal c u ∧ u.xfade = none ∧ u.pb = s.pb := by
    clear hlast
    induction hu with
    | start => exact .inr ⟨a, le_refl a, h, hx, rfl⟩
    | @next u v hu hb ih =>
      refine ih.elim .inl fun ⟨c, hc, hdue, hxu, hpb⟩ => ?_
      rcases hdue.pumpRound hxu hb with hm | ⟨c', hc', hdue', hgo⟩ | ⟨hb', -⟩
      · exact .inl ⟨v, hu.next hb, hm⟩
      · obtain ⟨hxv, hpbv⟩ := hgo rfl
        exact .inr ⟨c', hc'.le.trans hc, hdue', hxv, hpbv.trans hpb⟩
      · cases hb'
  refine hgo.imp_right fun ⟨c, hc, hdue, hxu, hpb⟩ => ?_
  rcases hdue.pumpRound hxu hlast with hm | ⟨c', hc', hdue', -⟩ | ⟨-, hdue', hdr, hpbt⟩
  · exact .inl (.inl hm)
  · exact .inl (.inr ⟨c', hc'.trans_le hc, hdue'⟩)
  · rcases hc.lt_or_eq with hlt | rfl
    · exact .inl (.inr ⟨c, hlt, hdue'⟩)
    · exact .inr ⟨hdue', hdr, hpbt.trans hpb⟩

theorem Due.pump (h : Due e goal a s)
    (hends : (started e s).xfade = none →
      (Loop.exec (AudioPlayer.pumpRound e ·) e.rounds (started e s)).isSome) :
    ((started e s).xfade = none ∧
        ∃ u, Loop.Rounds (AudioPlayer.pumpRound e ·) (started e s) u ∧ MovedOn u goal) ∨
      Nearer e goal a (AudioPlayer.pump e s) ∨
      Due e goal a (AudioPlayer.pump e s) ∧ Drained (AudioPlayer.pump e s) ∧
        (AudioPlayer.pump e s).pb = s.pb := by
  have hpump : AudioPlayer.pump e s =
      if (started e s).xfade.isSome then
        AudioPlayer.pumpXfade ((started e s).takes.length + 1) (started e s)
      else AudioPlayer.pumpLoop e e.rounds (started e s) := by
    have hsome : ¬ (s.pb.isNone || s.loaded.isNone) = true := by
      rw [← Option.not_isSome, ← Option.not_isSome, h.pb, h.loaded]
      decide
    exact (pump_started e.rounds).trans (if_neg hsome)
  rw [hpump]
  by_cases hx : s.xfade = none
  · have hstart : started e s = AudioPlayer.maybeStartXfade e s := by
      rw [started, hx]
      rfl
    rcases h.maybeStartXfade hx with hm | ⟨hm, -, c, hc, hdue⟩
    · rw [hstart, hm] at hends ⊢
      obtain ⟨t, ht⟩ := Option.isSome_iff_exists.1 (hends hx)
      have hnone : ¬ s.xfade.isSome := Option.not_isSome_iff_eq_none.2 hx
      rw [if_neg hnone, pumpLoop_exec ht]
      exact (h.pumpLoop hx ht).imp_left fun hu => ⟨hx, hu⟩
    · rw [hstart, if_pos hm]
      exact .inr (.inl ((hdue.pumpXfade hm).trans hc.le))
  · have hstart : started e s = s := by
      rw [started, if_neg (fun hnone => hx (Option.isNone_iff_eq_none.1 hnone))]
    have hsome : s.xfade.isSome := Option.isSome_iff_ne_none.2 hx
    rw [hstart, if_pos hsome]
    exact .inr (.inl (h.pumpXfade hsome))

/-! ## The end of a call -/

/-- A file that is just opened has a fresh filter. -/
def Fresh (e : Env S D) : Prop :=
  ∀ lib src, e.opens lib = some src → Dsp.resetEq S src.dsp = src.dsp

theorem resetEq_opened (hf : Fresh e) {n : Nat} (h : opened e s n = some l) :
    { l with dsp := Dsp.resetEq S l.dsp } = l := by
  obtain ⟨lib, -, hl⟩ := Option.bind_eq_some_iff.1 h
  unfold openTrack at hl
  split at hl
  · obtain ⟨src, hsrc, rfl⟩ := Option.map_eq_some_iff.1 hl
    rw [hf lib src hsrc]
  · cases hl

omit [Dsp S D] in
theorem closeOrFlush_loaded : (closeOrFlush s).loaded = s.loaded ∧
    (closeOrFlush s).xfade = s.xfade ∧ (closeOrFlush s).decodeOrder = s.decodeOrder := by
  unfold closeOrFlush
  split
  · split
    · exact ⟨rfl, rfl, rfl⟩
    · unfold flush
      split <;> exact ⟨rfl, rfl, rfl⟩
  · exact ⟨rfl, rfl, rfl⟩

omit [Dsp S D] in
/-- A track that is loaded is played, if the device opens. -/
theorem play_loaded (hd : e.device = true) (hl : s.loaded = some l) :
    (play e s).playing = true ∧ (play e s).pb.isSome ∧ (play e s).xfade = s.xfade ∧
      (play e s).decodeOrder = s.decodeOrder ∧
      ∃ b, (play e s).loaded = some { l with segStarted := b } := by
  unfold play
  rw [hl]
  dsimp only
  split
  · next pb hpb => exact ⟨rfl, by dsimp only; rw [hpb]; rfl, rfl, rfl, l.segStarted, rfl⟩
  · rw [if_pos hd]
    exact ⟨rfl, rfl, rfl, rfl, false, rfl⟩

theorem hardLoad_opened {n : Nat} (hd : e.device = true) (hf : Fresh e)
    (h : opened e s n = some l) :
    (hardLoad e s n true).playing = true ∧ (hardLoad e s n true).pb.isSome ∧
      (hardLoad e s n true).xfade = none ∧ (hardLoad e s n true).decodeOrder = n ∧
      ∃ b, (hardLoad e s n true).loaded = some { l with segStarted := b } := by
  have hreset := resetEq_opened hf h
  obtain ⟨lib, hlib, hl⟩ := Option.bind_eq_some_iff.1 h
  unfold hardLoad
  rw [hlib]
  dsimp only
  rw [if_pos rfl]
  have hc := closeOrFlush_loaded (s := { s with
    orderPos := n
    decodeOrder := n
    loaded := openTrack e s lib
    segments := []
    xfade := none
    gaplessBlocked := false
    ended := false
    swFrames := 0 })
  generalize closeOrFlush _ = s' at hc
  have hl' : (eqResetState s').loaded = some l := by
    unfold eqResetState
    dsimp only
    rw [hc.1, hl, Option.map_some, hreset]
  obtain ⟨hp, hpb, hx, hdo, hb⟩ := play_loaded hd hl'
  exact ⟨hp, hpb, hx.trans hc.2.1, hdo.trans hc.2.2, hb⟩

omit [Dsp S D] in
/-- There is less to be played, and else nothing changes. -/
theorem rank_le {p w m n : Nat} (h : n ≤ m) : toLex (p, w + n) ≤ toLex (p, w + m) ∧
    (n < m → toLex (p, w + n) < toLex (p, w + m)) :=
  ⟨Prod.Lex.toLex_le_toLex.2 (.inr ⟨rfl, Nat.add_le_add_left h w⟩), fun hlt =>
    Prod.Lex.toLex_lt_toLex.2 (.inr ⟨rfl, Nat.add_lt_add_left hlt w⟩)⟩

theorem Due.congr (h : Due e goal a s) (hs : Same s t) (hp : t.playing = s.playing)
    (hpb : t.pb.isSome) (hl : t.loaded = s.loaded) (hx : t.xfade = s.xfade)
    (hd : t.decodeOrder = s.decodeOrder) (hb : buffered t ≤ buffered s) :
    ∃ b, Due e goal b t ∧ b ≤ a ∧ (buffered t < buffered s → b < a) := by
  have hhead : head t = head s := by rw [head, head, hx, hd]
  have hp' : t.playing = true := hp.trans h.playing
  cases h.stage with
  | solo hl' hx' hnil hk hgoal ha =>
    rw [ha]
    refine ⟨_, h.of_stage hs hp' hpb ?_, rank_le hb⟩
    exact .solo (hl.trans hl') (hx.trans hx') hnil (leads_congr hk hs hhead)
      (hgoal.trans (by rw [place_congr hs])) rfl
  | fade hl' hx' hnil hk hgoal ha =>
    rw [ha]
    refine ⟨_, h.of_stage hs hp' hpb ?_, rank_le hb⟩
    exact .fade (hl.trans hl') (hx.trans hx') hnil (leads_congr hk hs hhead)
      (hgoal.trans (by rw [place_congr hs])) rfl
  | into hl' hx' hnil hne hgoal ha =>
    rw [ha]
    refine ⟨_, h.of_stage hs hp' hpb ?_, rank_le hb⟩
    exact .into (hl.trans hl') (hx.trans hx') hnil hne hgoal rfl

theorem Due.consume (h : Due e goal a s) (n : Nat) :
    ∃ b, Due e goal b { s with pb := s.pb.map fun pb => pb.consume n } ∧ b ≤ a ∧
      (0 < n → 0 < buffered s → b < a) := by
  obtain ⟨pb, hpb⟩ := Option.isSome_iff_exists.1 h.pb
  have hb : buffered { s with pb := s.pb.map fun pb => pb.consume n } = buffered s - n := by
    unfold buffered
    dsimp only
    rw [hpb]
    rfl
  have hsome : ({ s with pb := s.pb.map fun pb => pb.consume n } : State S D).pb.isSome :=
    Option.isSome_map.trans h.pb
  obtain ⟨b, hdue, hle, hlt⟩ := h.congr (t := { s with
    pb := s.pb.map fun pb => pb.consume n }) rfl rfl hsome rfl rfl rfl (by omega)
  exact ⟨b, hdue, hle, fun hn h0 => hlt (by omega)⟩

/-- When all has been played, the next track is opened or the player stops. -/
theorem Due.finishTrack (h : Due e goal a s) (hd : e.device = true) (hf : Fresh e)
    (ho : ∀ n ∈ upcoming s, (opened e s n).isSome) :
    Nearer e goal a (finishTrack e s) ∨
      AudioPlayer.finishTrack e s = s ∧ ¬ (Drained s ∧ buffered s = 0) := by
  unfold AudioPlayer.finishTrack
  split
  · next hdue =>
    refine .inl ?_
    have hx : s.xfade = none := by
      simp only [Bool.and_eq_true] at hdue
      exact Option.isNone_iff_eq_none.1 hdue.1.1.2
    cases h.stage with
    | @solo l k g hl _ hnil hk hgoal ha =>
      split
      · next n hn =>
        have hn' := hn
        rw [nextDecodeOrder_eq hx] at hn'
        obtain ⟨l', hl'⟩ := Option.isSome_iff_exists.1 (ho n (List.mem_of_mem_head? hn'))
        obtain ⟨hp, hpb, hxt, hdo, b, hlt⟩ := hardLoad_opened hd hf hl'
        have hsame : Same s (hardLoad e s n true) := same_hardLoad
        rcases h.next hx hk hgoal hn hl' hsame ((head_eq hxt).trans hdo) with
          ⟨rfl, hg, hne⟩ | ⟨k', rfl, hnil', hk', hg⟩
        · have hm := MovedOn.plays hp hxt hlt hne
          rw [hdo] at hm
          rw [hg]
          exact .inl hm
        · refine .inr ⟨_, ?_, h.of_stage hsame hp hpb (.solo hlt hxt hnil' hk' hg rfl)⟩
          rw [ha]
          exact Prod.Lex.toLex_lt_toLex.2 (.inl (by dsimp only; omega))
      · next hnone =>
        rw [nextDecodeOrder_eq hx, List.head?_eq_none_iff] at hnone
        have hg : g = none := by
          rw [← hk.next, hnone]
          rfl
        rw [hgoal, hg]
        exact .inl (.stopped rfl)
    | fade _ hx' => cases hx.symm.trans hx'
    | into _ hx' => cases hx.symm.trans hx'
  · next hdue =>
    refine .inr ⟨rfl, fun ⟨⟨hx, l, hl, hdr⟩, hb⟩ => hdue ?_⟩
    obtain ⟨pb, hpb⟩ := Option.isSome_iff_exists.1 h.pb
    unfold buffered at hb
    rw [hpb] at hb
    rw [h.playing, hx, hl, hpb]
    dsimp only [Option.map_some, Option.getD_some] at hb ⊢
    rw [hdr, hb]
    rfl

/-! ## Calls -/

/-- The states that a call goes through while it plays: before and after each round of the pump, and
    at the end. -/
inductive Passed (e : Env S D) (s : State S D) : State S D → Prop
  | round {u : State S D} : (started e (advanceAudible s)).xfade = none →
      Loop.Rounds (pumpRound e ·) (started e (advanceAudible s)) u → Passed e s u
  | pumped : Passed e s (pumped e s)
  | done : Passed e s (engineStep e s)

/-- A call gets there, or nearer if the device plays or has nothing to play. -/
theorem Due.tick (h : Due e goal a s) (hd : e.device = true) (hf : Fresh e)
    (ho : ∀ n ∈ upcoming s, (opened e s n).isSome)
    (hends : (started e (advanceAudible s)).xfade = none →
      (Loop.exec (AudioPlayer.pumpRound e ·) e.rounds (started e (advanceAudible s))).isSome) :
    (∃ u, Passed e s u ∧ MovedOn u goal) ∨ (∃ b < a, Due e goal b (engineStep e s)) ∨
      ¬ (buffered s = 0 ∨ 0 < e.drains) ∧ ∃ b ≤ a, Due e goal b (engineStep e s) := by
  have hpumped : AudioPlayer.pumped e s = AudioPlayer.pump e (advanceAudible s) := by
    rw [AudioPlayer.pumped, if_pos h.playing]
  have hstep : engineStep e s = AudioPlayer.finishTrack e
      { AudioPlayer.pumped e s with
        pb := (AudioPlayer.pumped e s).pb.map fun pb => pb.consume e.drains } :=
    engineStep_scanned h.scanned h.loaded
  have hopens : ∀ n ∈ upcoming { AudioPlayer.pumped e s with
      pb := (AudioPlayer.pumped e s).pb.map fun pb => pb.consume e.drains },
      (opened e { AudioPlayer.pumped e s with
        pb := (AudioPlayer.pumped e s).pb.map fun pb => pb.consume e.drains } n).isSome := by
    have hon := (onward_pumped (e := e) (s := s)).trans (onward_consume (n := e.drains))
    intro n hn
    rw [opened_congr hon.same]
    exact ho n (hon.upcoming hn)
  obtain ⟨a', ha', hle, -⟩ := h.congr (t := advanceAudible s) rfl rfl h.pb rfl rfl rfl (le_refl _)
  rcases ha'.pump hends with ⟨hx, u, hu, hm⟩ | hnear | ⟨hdue, hdr, hpb⟩
  · exact .inl ⟨u, .round hx hu, hm⟩
  · rw [← hpumped] at hnear
    rcases hnear with hm | ⟨b, hb, hdue⟩
    · exact .inl ⟨_, .pumped, hm⟩
    · obtain ⟨c, hdue', hc, -⟩ := hdue.consume e.drains
      rcases hdue'.finishTrack hd hf hopens with hnear | ⟨hsame, -⟩
      · rw [← hstep] at hnear
        rcases hnear with hm | ⟨c', hc', hdue''⟩
        · exact .inl ⟨_, .done, hm⟩
        · exact .inr (.inl ⟨c', ((hc'.trans_le hc).trans hb).trans_le hle, hdue''⟩)
      · rw [hstep, hsame]
        exact .inr (.inl ⟨c, (hc.trans_lt hb).trans_le hle, hdue'⟩)
  · rw [← hpumped] at hdue hdr hpb
    obtain ⟨c, hdue', hc, hlt⟩ := hdue.consume e.drains
    rcases hdue'.finishTrack hd hf hopens with hnear | ⟨hsame, hnot⟩
    · rw [← hstep] at hnear
      rcases hnear with hm | ⟨c', hc', hdue''⟩
      · exact .inl ⟨_, .done, hm⟩
      · exact .inr (.inl ⟨c', (hc'.trans_le hc).trans_le hle, hdue''⟩)
    · rw [hstep, hsame]
      -- The device has not played all yet.
      have hbuf : buffered (AudioPlayer.pumped e s) = buffered s := by
        unfold buffered
        rw [hpb]
        rfl
      have hne : buffered s ≠ 0 := by
        intro h0
        refine hnot ⟨hdr, ?_⟩
        rw [← hbuf] at h0
        unfold buffered at h0 ⊢
        dsimp only
        obtain ⟨pb, hpb'⟩ := Option.isSome_iff_exists.1 hdue.pb
        rw [hpb'] at h0 ⊢
        exact Nat.sub_eq_zero_of_le (h0.trans_le (Nat.zero_le _))
      by_cases hdrains : 0 < e.drains
      · exact .inr (.inl ⟨c, (hlt hdrains (by omega)).trans_le hle, hdue'⟩)
      · exact .inr (.inr ⟨fun hor => hor.elim hne hdrains, c, hc.trans hle, hdue'⟩)

/-! ## Runs -/

/-- It plays, and there is nothing to be heard, now or later. -/
def Silent (s : State S D) : Prop := s.playing = true ∧ s.loaded = none ∧ s.segments = []

/-- While it plays, the track that is decoded has ended, or one of the two that are blended. -/
def Ended (s : State S D) : Prop :=
  s.playing = true ∧ s.pb.isSome ∧ ∃ l, s.loaded = some l ∧
    match s.xfade with
    | none => l.left = []
    | some x => l.left = [] ∨ x.next.left = []

/-- Where the player goes after it: to the track that is blended in if it has samples, and else to
    the next track that opens and has some. -/
def goesOn (e : Env S D) (s : State S D) : Option (Nat × Option Nat) :=
  match s.xfade with
  | none => (nextGood e s).map s.place
  | some x =>
    if x.next.left.isEmpty then (nextGood e s).map s.place else some (x.order, some x.next.lib)

/-- Nothing is asked of the player, the files and the device open, and the pump's loop is run for as
    many rounds as it has. -/
structure Alone (e : Env S D) (s : State S D) (c : Command × Env S D) : Prop where
  passable : s.playing = true → Passable c.2 s
  asked : c.1 = .tick ∨ ∃ n, c.1 = .consume n
  opens : c.2.opens = e.opens
  device : c.2.device = true
  ends : s.playing = true → c.1 = .tick →
    (started c.2 (advanceAudible { s with takes := c.2.takes })).xfade = none →
    (Loop.exec (pumpRound c.2 ·) c.2.rounds
      (started c.2 (advanceAudible { s with takes := c.2.takes }))).isSome

/-- The device plays something, or it has nothing to play and the player is called. -/
def Plays (s : State S D) (c : Command × Env S D) : Prop :=
  c.1 = .tick ∧ (buffered s = 0 ∨ 0 < c.2.drains) ∨ ∃ n, c.1 = .consume n ∧ 0 < n ∧ 0 < buffered s

theorem Ended.due (h : Ended s) (hs : s.scanned = true)
    (hy : s.repeating = true → ∃ n, yields e s n = true) : ∃ a, Due e (goesOn e s) a s := by
  obtain ⟨hp, hpb, l, hl, hend⟩ := h
  obtain ⟨k, hk⟩ := Leads.find (yields e s) (upcoming s)
  cases hx : s.xfade with
  | none =>
    rw [hx] at hend
    have hgoal : goesOn e s = (nextGood e s).map s.place := by
      rw [goesOn, hx]
    exact ⟨_, hs, hp, hpb, hy, .solo hl hx hend hk hgoal rfl⟩
  | some x =>
    rw [hx] at hend
    by_cases hnil : x.next.left = []
    · have hgoal : goesOn e s = (nextGood e s).map s.place := by
        rw [goesOn, hx]
        dsimp only
        rw [hnil]
        rfl
      exact ⟨_, hs, hp, hpb, hy, .fade hl hx hnil hk hgoal rfl⟩
    · have hgoal : goesOn e s = some (x.order, some x.next.lib) := by
        rw [goesOn, hx]
        dsimp only
        rw [if_neg fun he => hnil (List.isEmpty_iff.1 he)]
      exact ⟨_, hs, hp, hpb, hy, .into hl hx (hend.resolve_right hnil) hnil hgoal rfl⟩

theorem yields_opens {e' : Env S D} (h : e'.opens = e.opens) : yields e' s = yields e s := by
  funext n
  unfold yields opened
  have hopen : openTrack e' s = openTrack e s := by
    funext lib
    rw [openTrack, openTrack, h]
  rw [hopen]

theorem Due.of_opens {e' : Env S D} (h : Due e goal a s) (he : e'.opens = e.opens) :
    Due e' goal a s := by
  have hy := yields_opens (s := s) he
  refine ⟨h.scanned, h.playing, h.pb, ?_, ?_⟩
  · rw [hy]
    exact h.samples
  · cases h.stage with
    | solo hl hx hnil hk => exact .solo hl hx hnil (hy ▸ hk) ‹_› ‹_›
    | fade hl hx hnil hk => exact .fade hl hx hnil (hy ▸ hk) ‹_› ‹_›
    | into hl hx hnil hne => exact .into hl hx hnil hne ‹_› ‹_›

theorem Due.step {c : Command × Env S D} (h : Due e goal a s) (hf : Fresh e) (hc : Alone e s c) :
    (c.1 = .tick ∧ ∃ u, Passed c.2 { s with takes := c.2.takes } u ∧ MovedOn u goal) ∨
      (∃ b < a, Due e goal b (step s c)) ∨ ¬ Plays s c ∧ Due e goal a (step s c) := by
  obtain ⟨c, e'⟩ := c
  have hopens : e'.opens = e.opens := hc.opens
  obtain ⟨a', h', hle, -⟩ := (h.of_opens hopens).congr (t := { s with takes := e'.takes })
    rfl rfl h.pb rfl rfl rfl (le_refl _)
  have hback {b : ℕ ×ₗ ℕ} {u : State S D} (hu : Due e' goal b u) : Due e goal b u :=
    hu.of_opens hopens.symm
  rcases hc.asked with ht | ⟨n, ht⟩
  · cases ht
    have hf' : Fresh e' := fun lib src hsrc => hf lib src (hopens ▸ hsrc)
    rcases h'.tick hc.device hf' (hc.passable h.playing).opens
      (hc.ends h.playing rfl) with
      hq | ⟨b, hb, hdue⟩ | ⟨hnot, b, hb, hdue⟩
    · exact .inl ⟨rfl, hq⟩
    · exact .inr (.inl ⟨b, hb.trans_le hle, hback hdue⟩)
    · rcases (hb.trans hle).lt_or_eq with hlt | rfl
      · exact .inr (.inl ⟨b, hlt, hback hdue⟩)
      · refine .inr (.inr ⟨?_, hback hdue⟩)
        rintro (⟨-, hplays⟩ | ⟨n, hn, -⟩)
        · exact hnot hplays
        · cases hn
  · cases ht
    obtain ⟨b, hdue, hb, hlt⟩ := h'.consume n
    rcases (hb.trans hle).lt_or_eq with hlt' | rfl
    · exact .inr (.inl ⟨b, hlt', hback hdue⟩)
    · refine .inr (.inr ⟨?_, hback hdue⟩)
      rintro (⟨hn, -⟩ | ⟨m, hm, h0, hbuf⟩)
      · cases hn
      · cases hm
        exact absurd (hlt h0 hbuf) (not_lt_of_ge hle)

/-- In a run in which no track that fails to open is gone to while it plays: there is something to
be heard while it plays; each call ends; and after a track has ended, if nothing is asked of the
player and the device plays, it goes on to the next track that opens and has samples, or stops if
there is none. -/
theorem unstopped (h : Run (step · ·) Fine ({} : State S D) s) :
    ¬ Silent s ∧ (∀ e, Fine s (.tick, e) → Ends e s) ∧
      ∀ (e : Env S D) (is : ℕ → Command × Env S D), Fresh e → Ended s →
        (∀ n, Alone e (states (step · ·) s is n) (is n)) →
        (∀ n, ∃ m, Plays (states (step · ·) s is (n + m)) (is (n + m))) →
        ∃ n, (is n).1 = .tick ∧ ∃ u,
          Passed (is n).2 { states (step · ·) s is n with takes := (is n).2.takes } u ∧
            MovedOn u (goesOn e s) := by
  have hs : Awake s := by
    refine h.invariant ⟨?_, fun hp => ?_, fun _ => rfl⟩ fun c hs hc => hs.step hc
    · exact fun _ => ⟨rfl, rfl, rfl, rfl, rfl, rfl⟩
    · cases hp
  refine ⟨fun hsilent => ?_, fun e hfine => hs.ends fun hp => hfine.tick hp rfl,
    fun e is hf hend halone hplays => ?_⟩
  · have hl := hs.headed hsilent.1
    rw [hsilent.2.1] at hl
    cases hl
  · obtain ⟨a, hdue⟩ := hend.due (hs.scanned hend.1) fun hr => by
      rw [← yields_opens (halone 0).opens]
      exact ((halone 0).passable hend.1).samples hr
    exact exists_of_rank wellFounded_lt (fun hdue hc => hdue.step hf hc) halone hplays
      (n := 0) hdue

/-! ## Three files -/

/-- The first file fits the device. The second has no samples, and it and the third are of another
    layout. -/
def emptySecond : Env Nat Unit where
  opens lib := some {
    channels := if lib = 0 then 1 else 2
    totalFrames := 4
    packets := if lib = 1 then [] else [.audio [lib, lib, lib, lib]]
    dsp := () }
  seeks _ _ := none
  device := true
  takes := [4]
  rounds := 10
  drains := 0
  scan := List.replicate 3 ⟨"artist", "album", "genre"⟩

/-- The first track is written. -/
def firstWritten : State Nat Unit :=
  [(.tick, emptySecond), (.play, emptySecond), (.tick, emptySecond)].foldl (step · ·) {}

/-- Then the device plays. -/
def playsOn (_ : ℕ) : Command × Env Nat Unit := (.tick, { emptySecond with drains := 4 })

theorem not_playing_tick (h : s.playing = false) : (step s (.tick, e)).playing = false := by
  have h' : ({ s with takes := e.takes } : State S D).playing = false := h
  have hstep : step s (.tick, e) = engineStep e { s with takes := e.takes } := rfl
  rw [hstep, engineStep_not_playing h']
  split
  · exact not_playing_firstScan h'
  · exact not_playing_firstScan h'

theorem fine_firstWritten : Run (step · ·) Fine ({} : State Nat Unit) firstWritten := by
  have hscan : Fine ({} : State Nat Unit) (.tick, emptySecond) :=
    ⟨fun hp => absurd hp (by decide), fun hp => absurd hp (by decide)⟩
  have hplay : Fine (step {} (.tick, emptySecond)) (.play, emptySecond) :=
    ⟨fun hp => absurd hp (by decide), fun hp => absurd hp (by decide)⟩
  have hwrite : Fine (step (step {} (.tick, emptySecond)) (.play, emptySecond))
      (.tick, emptySecond) :=
    ⟨fun _ _ hlib => (by cases hlib), fun _ _ => ⟨by decide, fun hr => absurd hr (by decide)⟩⟩
  exact run_of_goes ⟨hscan, hplay, hwrite, trivial⟩

theorem ended_firstWritten : Ended firstWritten := by
  have hx : firstWritten.xfade = none := Option.isNone_iff_eq_none.1 (by decide)
  have hleft : firstWritten.loaded.map Loaded.left = some [] := by decide
  obtain ⟨l, hl, hnil⟩ := Option.map_eq_some_iff.1 hleft
  refine ⟨by decide, by decide, l, hl, ?_⟩
  rw [hx]
  exact hnil

/-- After two calls the order has ended. -/
theorem alone_playsOn (n : ℕ) :
    Alone emptySecond (states (step · ·) firstWritten playsOn n) (playsOn n) := by
  have hover (n : ℕ) : (states (step · ·) firstWritten playsOn (n + 2)).playing = false := by
    induction n with
    | zero => decide
    | succ n ih => exact not_playing_tick ih
  refine ⟨fun hp => ?_, .inl rfl, rfl, rfl, fun hp _ hx => ?_⟩
  · rcases n with _ | _ | n
    · exact ⟨by decide, fun hr => absurd hr (by decide)⟩
    · exact ⟨by decide, fun hr => absurd hr (by decide)⟩
    · exact absurd ((hover n).symm.trans hp) Bool.false_ne_true
  · rcases n with _ | _ | n
    · decide
    · decide
    · exact absurd ((hover n).symm.trans hp) Bool.false_ne_true

/-- The second file is passed, and the third is played. -/
theorem unstopped_emptySecond : ¬ Silent firstWritten ∧ ∃ n u,
    Passed (playsOn n).2 { states (step · ·) firstWritten playsOn n with takes := [4] } u ∧
      MovedOn u (some (2, some 2)) := by
  obtain ⟨hsilent, -, hmoves⟩ := unstopped fine_firstWritten
  have hgoal : goesOn emptySecond firstWritten = some (2, some 2) := by decide
  obtain ⟨n, -, u, hpassed, hmoved⟩ := hmoves emptySecond playsOn (fun _ _ _ => rfl)
    ended_firstWritten alone_playsOn fun n => ⟨0, .inl ⟨rfl, .inr (Nat.succ_pos 3)⟩⟩
  exact ⟨hsilent, n, u, hpassed, hgoal ▸ hmoved⟩

/-- The second file does not open. -/
def missingSecond : Env Nat Unit :=
  { emptySecond with
    opens lib := if lib = 1 then none else emptySecond.opens lib
    drains := 4 }

/-- No file has samples. -/
def allEmpty : Env Nat Unit :=
  { emptySecond with
    opens _ := some { channels := 1, totalFrames := 0, packets := [], dsp := () } }

/-- The order is repeated, and played. -/
def emptyPlayed : State Nat Unit :=
  [(.tick, allEmpty), (.toggleRepeat, allEmpty), (.play, allEmpty)].foldl (step · ·) {}

theorem spins_allEmpty :
    Spins allEmpty
      (started allEmpty (advanceAudible { emptyPlayed with takes := allEmpty.takes })) := by
  have hleft : emptyPlayed.loaded.map Loaded.left = some [] := by decide
  obtain ⟨l, hl, hnil⟩ := Option.map_eq_some_iff.1 hleft
  have hopens : ∀ n < 3, (opened allEmpty emptyPlayed n).map (fun l =>
      (l.left, outLayoutStereo l.channels)) = some ([], false) := by decide
  refine ⟨⟨l, hl, hnil⟩, Option.isNone_iff_eq_none.1 (by decide), rfl, rfl, rfl, by decide,
    fun n hn => ?_⟩
  obtain ⟨l', hl', he⟩ := Option.map_eq_some_iff.1 (hopens n hn)
  exact ⟨l', hl', congrArg Prod.fst he, congrArg Prod.snd he⟩

/-- When the first track has ended, the player goes to a file that does not open, and no further.
    And where the order is repeated and no file has samples, the pump goes on for ever. -/
theorem music_stopped :
    (¬ ∀ s : State Nat Unit, Run (step · ·) (fun _ _ => True) {} s → ¬ Silent s) ∧
      ¬ ∀ (s : State Nat Unit) e, Run (step · ·) (fun _ _ => True) {} s → Ends e s := by
  constructor
  · intro h
    refine h ([(.tick, missingSecond), (.play, missingSecond), (.tick, missingSecond)].foldl
      (step · ·) {}) (run_of_goes ⟨trivial, trivial, trivial, trivial⟩) ⟨by decide, ?_, by decide⟩
    exact Option.isNone_iff_eq_none.1 (by decide)
  · intro h
    obtain ⟨-, n, hn⟩ := h emptyPlayed allEmpty
      (run_of_goes ⟨trivial, trivial, trivial, trivial⟩)
    have hends := (hn n (le_refl n)).1 (by decide) (Option.isNone_iff_eq_none.1 (by decide))
    obtain ⟨t, ht⟩ := Option.isSome_iff_exists.1 hends
    cases (Spins.exec_eq_none spins_allEmpty).symm.trans ht

end Wandr.AudioPlayer
