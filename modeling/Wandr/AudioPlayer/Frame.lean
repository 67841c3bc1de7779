import Wandr.AudioPlayer.Player

/-!
# What decoding leaves alone

Decoding and writing change what is decoded, the segments and the device; loading and seeking the
place in the order too. None of them changes the queue, the order or the settings.
-/

namespace Wandr.AudioPlayer

variable {S D : Type} {e : Env S D} {s t u : State S D}

/-- The library, the queue, the order and the settings. -/
structure Settings where
  library : List LibTrack
  albums : List (List Nat)
  artists : List (List Nat)
  genres : List (List Nat)
  queue : List Nat
  order : List Nat
  scanned : Bool
  backgrounded : Bool
  repeating : Bool
  xfadeFrames : Nat

def State.settings (s : State S D) : Settings where
  library := s.library
  albums := s.albums
  artists := s.artists
  genres := s.genres
  queue := s.queue
  order := s.order
  scanned := s.scanned
  backgrounded := s.backgrounded
  repeating := s.repeating
  xfadeFrames := s.xfadeFrames

/-- The library, the queue, the order and the settings are the same. -/
def Same (s t : State S D) : Prop := t.settings = s.settings

namespace Same

theorem trans (h : Same s t) (h' : Same t u) : Same s u := Eq.trans h' h

theorem order (h : Same s t) : t.order = s.order := congrArg Settings.order h

theorem queue (h : Same s t) : t.queue = s.queue := congrArg Settings.queue h

theorem library (h : Same s t) : t.library = s.library := congrArg Settings.library h

theorem scanned (h : Same s t) : t.scanned = s.scanned := congrArg Settings.scanned h

theorem repeating (h : Same s t) : t.repeating = s.repeating := congrArg Settings.repeating h

end Same

theorem same_write {samples : List S} : Same s (write s samples).2 := by
  unfold write
  split <;> exact rfl

theorem same_play : Same s (play e s) := by
  unfold play
  split
  · exact rfl
  · dsimp only
    split
    · exact rfl
    · split <;> exact rfl

theorem same_flush : Same s (flush s) := by
  unfold flush
  split <;> exact rfl

theorem same_closeOrFlush : Same s (closeOrFlush s) := by
  unfold closeOrFlush
  split
  · split
    · exact rfl
    · exact same_flush
  · exact rfl

theorem same_softAdvance {n : Nat} (h : softAdvance e s n = some t) : Same s t := by
  unfold softAdvance at h
  split at h
  · cases h
  · split at h
    · cases h
    · split at h
      · cases h
      · cases h
        exact rfl

theorem same_ensureSeg : Same s (ensureSeg s) := by
  unfold ensureSeg
  split
  · split <;> exact rfl
  · exact rfl

theorem same_maybeStartXfade : Same s (maybeStartXfade e s) := by
  unfold maybeStartXfade
  split
  · exact rfl
  split
  · split
    · exact rfl
    split
    · exact rfl
    split
    · exact rfl
    · split <;> exact rfl
  · exact rfl

theorem same_xfadeFinish : Same s (xfadeFinish s) := by
  unfold xfadeFinish
  split <;> exact rfl

theorem same_resync : Same s (resync e s) := by
  unfold resync
  split
  · split
    · split <;> exact rfl
    · exact rfl
  · exact rfl

variable [Dsp S D]

theorem same_hardLoad {n : Nat} {autoplay : Bool} : Same s (hardLoad e s n autoplay) := by
  unfold hardLoad
  split
  · exact rfl
  · next lib _ =>
    dsimp only
    have hl : Same s { s with
        orderPos := n
        decodeOrder := n
        loaded := openTrack e s lib
        segments := []
        xfade := none
        gaplessBlocked := false
        ended := false
        swFrames := 0 } := rfl
    have hc := hl.trans same_closeOrFlush
    generalize closeOrFlush _ = s' at hc
    split
    · exact Same.trans (hc.trans rfl) same_play
    · exact hc.trans rfl

theorem same_pumpXfade {n : Nat} : Same s (pumpXfade n s) := by
  induction n generalizing s with
  | zero => exact rfl
  | succ n ih =>
    rw [pumpXfade]
    split
    · next l x _ _ =>
      dsimp only
      have hr : Same s { s with
          loaded := some l, xfade := some { x with next := refill x.next } } := rfl
      generalize ({ s with
          loaded := some l, xfade := some { x with next := refill x.next } } :
          State S D) = s' at hr
      split
      · exact hr.trans same_xfadeFinish
      split
      · split
        · exact hr.trans same_xfadeFinish
        · exact hr
      generalize (mixSamples D _ _ _ _ _ : List S) = mix
      have hw : Same s' (write s' mix).2 := same_write
      generalize write s' mix = w at hw
      obtain ⟨accepted, s''⟩ := w
      dsimp only at hw ⊢
      split
      · exact hr.trans hw
      · exact ((hr.trans hw).trans rfl).trans ih
    · exact rfl

theorem same_pumpRound : Same s (pumpRound e s).2 := by
  unfold pumpRound
  split
  · exact rfl
  · next l _ =>
    split
    · have hw : Same s (write (ensureSeg s) l.unwritten).2 := same_ensureSeg.trans same_write
      exact hw.trans rfl
    split
    · have hd : Same s (decodeMore s) := rfl
      have hx := hd.trans (same_maybeStartXfade (e := e))
      dsimp only
      split
      · exact hx.trans same_pumpXfade
      · exact hx
    split
    · exact rfl
    split
    · split
      · next s' hs' => exact same_softAdvance hs'
      · exact rfl
    · exact rfl

theorem same_pumpLoop {n : Nat} : Same s (pumpLoop e n s) := by
  induction n generalizing s with
  | zero => exact rfl
  | succ n ih =>
    rw [pumpLoop]
    have hr : Same s (pumpRound e s).2 := same_pumpRound
    split
    · next s' hs' =>
      rw [hs'] at hr
      exact hr.trans ih
    · next s' hs' =>
      rw [hs'] at hr
      exact hr

theorem same_pump : Same s (pump e s) := by
  unfold pump
  split
  · exact rfl
  · have hx : Same s (if s.xfade.isNone then maybeStartXfade e s else s) := by
      split
      · exact same_maybeStartXfade
      · exact rfl
    dsimp only
    generalize (if s.xfade.isNone then maybeStartXfade e s else s) = s' at hx
    split
    · exact hx.trans same_pumpXfade
    · exact hx.trans same_pumpLoop

theorem same_seekTo {frame : Nat} : Same s (seekTo e s frame) := by
  have hr : Same s (resync e s) := same_resync
  unfold seekTo
  dsimp only
  generalize resync e s = s' at hr
  split
  · exact hr
  · next l _ =>
    have hl : Same s { s' with
        loaded := some (l.seek e (l.target frame))
        segments := []
        xfade := none
        gaplessBlocked := false
        swFrames := l.target frame
        ended := false } := hr.trans rfl
    have hf := hl.trans same_flush
    generalize flush _ = s'' at hf
    exact Same.trans (hf.trans rfl) same_pump

theorem same_reopenAtCurrent : Same s (reopenAtCurrent e s) := by
  unfold reopenAtCurrent
  split
  · exact rfl
  · next l _ =>
    have hr : Same s (rewind e s l (positionFrames s)) := rfl
    dsimp only
    split
    · exact (hr.trans same_play).trans same_pump
    · exact hr

theorem same_finishTrack : Same s (finishTrack e s) := by
  unfold finishTrack
  split
  · split
    · exact same_hardLoad
    · exact rfl
  · exact rfl

theorem same_engineStep : Same (firstScan e s) (engineStep e s) := by
  unfold engineStep
  dsimp only
  generalize firstScan e s = a
  split
  · exact rfl
  · have ha : Same a (advanceAudible a) := rfl
    split
    · have hp := ha.trans (same_pump (e := e))
      exact Same.trans (Same.trans hp rfl) same_finishTrack
    · exact Same.trans (ha.trans rfl) same_finishTrack

end Wandr.AudioPlayer
