import Wandr.Lib.Machine
import Wandr.Signal.Ui

/-!
# The screen shows the model

The renderer draws what the component returned last as long as it is clean. A frame marks it dirty
when its own pump changed something; the tick in the background, the alarm and a tap on a
notification change what the component reads and leave it as it is.

* `Ui.current_of_frame`: a frame draws the model as it is, as long as these change something only
  while the renderer is dirty;
* `Ui.painted_stale` is a run with a message that is never drawn.
-/

namespace Wandr.SignalUi.Ui

open Signal (Message)

/-- What is drawn is what the component returns for the model as it is, and for the thread asked
    for. The call is the one it read when it was run last. -/
def Current (s : Ui) : Prop := s.painted = some (app { s with call := s.paintedCall }).1

/-- The engine has nothing to say. -/
structure Silent (a : Answers) (s : Ui) : Prop where
  events : a.events = []
  state : a.state = s.model.state
  accountId : a.accountId = "" ∨ a.accountId = s.model.accountId

/-- The tick, the alarm and a tap on a notification change something only while the renderer is
    dirty. -/
def Marked (s : Ui) : Input → Prop
  | .bgTick a | .onAlarm a => s.dirty = true ∨ Silent a s
  | .onNotificationClick id => s.dirty = true ∨ s.nidThread id = none
  | _ => True

variable {s s' : Ui} {a : Answers}

/-- What the component draws depends on the model, the call, the thread asked for and its
    signals. -/
theorem app_congr (hm : s'.model = s.model) (hc : s'.call = s.call)
    (hp : s'.pendingOpen = s.pendingOpen) (ht : s'.tab = s.tab) (ho : s'.current = s.current)
    (hs : s'.showProfile = s.showProfile) : (app s').1 = (app s).1 := by
  have hvideo : s'.inVideo = s.inVideo := by rw [inVideo, inVideo, hc]
  have hview (m : Model) {u u' : Ui} (hc : u'.call = u.call) (ht : u'.tab = u.tab)
      (ho : u'.current = u.current) (hs : u'.showProfile = u.showProfile) :
      viewOf m u' = viewOf m u := by
    rw [viewOf, viewOf, hc, ht, ho, hs]
  rw [app, app, hvideo, hp, hm, hc]
  cases s.inVideo with
  | true => rfl
  | false =>
    cases hpending : s.pendingOpen with
    | none => exact hview _ hc ht ho hs
    | some id =>
      have hopened : (openPending id s').1.current = (openPending id s).1.current := by
        unfold openPending
        rw [hm]
      exact hview _ hc ht hopened hs

/-- To open a thread changes what is unread, which no conversation shows. -/
theorem viewOf_openPending (id : String) :
    viewOf (openPending id s).1.model (openPending id s).1 =
      viewOf s.model (openPending id s).1 := by
  rw [viewOf, viewOf]
  rfl

/-- The component returns the same when it is run again. -/
theorem app_again (s : Ui) : (app (app s).2.1).1 = (app s).1 := by
  rcases app_cases s with ⟨happ, -⟩ | ⟨id, hvideo, -, happ⟩
  · rw [happ, happ]
  · have hvideo' : (openPending id s).1.inVideo = false := hvideo
    have hnone : (openPending id s).1.pendingOpen = none := rfl
    rw [happ]
    dsimp only
    rw [app, hvideo', hnone]
    exact viewOf_openPending id

theorem call_app (s : Ui) : (app s).2.1.call = s.call := by
  rcases app_cases s with ⟨happ, -⟩ | ⟨id, -, -, happ⟩ <;> rw [happ]
  rfl

/-- What a frame that runs the component draws is current. -/
theorem current_renderFrame (hp : s.lifecyclePaused = false) (hd : s.dirty = true) :
    Current (renderFrame s) := by
  rw [renderFrame_dirty hp hd, Current]
  refine congrArg some ((app_again s).symm.trans ?_)
  exact app_congr rfl (call_app s) rfl rfl rfl rfl

/-! ## What a pump leaves -/

/-- What a pump leaves of the renderer. -/
structure Same (s s' : Ui) : Prop where
  started : s'.started = s.started
  dirty : s'.dirty = s.dirty
  lifecyclePaused : s'.lifecyclePaused = s.lifecyclePaused

theorem Same.trans {s₁ s₂ s₃ : Ui} (h : Same s₁ s₂) (h' : Same s₂ s₃) : Same s₁ s₃ :=
  ⟨h'.started.trans h.started, h'.dirty.trans h.dirty,
    h'.lifecyclePaused.trans h.lifecyclePaused⟩

theorem onEvent_same (profile : Option Profile) (p : Pump) (e : Event) :
    Same p.ui (onEvent profile p e).ui := by
  cases e with
  | message m =>
    rw [onEvent, onMessage]
    split
    · exact ⟨rfl, rfl, rfl⟩
    · split
      · exact ⟨rfl, rfl, rfl⟩
      · split <;> exact ⟨rfl, rfl, rfl⟩
  | _ => exact ⟨rfl, rfl, rfl⟩

theorem foldl_onEvent_same (profile : Option Profile) (p : Pump) (es : List Event) :
    Same p.ui (es.foldl (onEvent profile) p).ui := by
  induction es generalizing p with
  | nil => exact ⟨rfl, rfl, rfl⟩
  | cons e es ih => exact (onEvent_same profile p e).trans (ih _)

theorem foldl_notify_same (s : Ui) (l : List (String × String)) : Same s (l.foldl notify s) := by
  induction l generalizing s with
  | nil => exact ⟨rfl, rfl, rfl⟩
  | cons n l ih =>
    have hn : Same s (notify s n) := ⟨rfl, rfl, rfl⟩
    exact hn.trans (ih _)

theorem start_same (a : Answers) (s : Ui) : (start a s).started = true ∧
    (start a s).dirty = s.dirty ∧ (start a s).lifecyclePaused = s.lifecyclePaused := by
  unfold start
  split
  · next h => exact ⟨h, rfl, rfl⟩
  · exact ⟨rfl, rfl, rfl⟩

/-- After a pump the engine is started; the renderer is as it was. -/
theorem pump_same (a : Answers) (s : Ui) : (pump a s).1.started = true ∧
    (pump a s).1.dirty = s.dirty ∧ (pump a s).1.lifecyclePaused = s.lifecyclePaused := by
  obtain ⟨hstarted, hdirty, hpaused⟩ := start_same a s
  have hevents := foldl_onEvent_same a.profile { ui := start a s } a.events
  have hnotify (p : Pump) : Same p.ui (finish a p).1 := by
    have h := foldl_notify_same (refreshLists a p) p.toNotify
    exact ⟨h.started, h.dirty, h.lifecyclePaused⟩
  have hpump : Same (start a s) (pump a s).1 := hevents.trans (hnotify _)
  exact ⟨hpump.started.trans hstarted, hpump.dirty.trans hdirty,
    hpump.lifecyclePaused.trans hpaused⟩

theorem takeState_silent (h : Silent a s) : takeState a s = (s, false) := by
  obtain ⟨-, hstate, hid⟩ := h
  have hid' : ¬ (a.accountId ≠ "" ∧ s.model.accountId ≠ a.accountId) := by
    rintro ⟨hne, hne'⟩
    rcases hid with hid | hid
    · exact hne hid
    · exact hne' hid.symm
  rw [takeState, hstate]
  simp [hid']

/-- A pump that hears nothing changes nothing. -/
theorem pump_silent (h : Silent a s) (hs : s.started = true) : pump a s = (s, false) := by
  have hstart : start a s = s := if_pos hs
  rw [pump, hstart, h.events, List.foldl_nil, finish, h.events]
  exact congrArg (fun r : Ui × Bool => (r.1, false || r.2)) (takeState_silent h)

theorem silent_of_pump (h : (pump a s).2 = false) (hs : s.started = true) : Silent a s := by
  have hstart : start a s = s := if_pos hs
  rw [pump, hstart, finish] at h
  obtain ⟨hevents, hstate⟩ : a.events = [] ∧
      (takeState a (((a.events.foldl (onEvent a.profile) { ui := s }).toNotify).foldl notify
        (refreshLists a (a.events.foldl (onEvent a.profile) { ui := s })))).2 = false := by
    simpa using h
  rw [hevents, List.foldl_nil] at hstate
  have hstate : (takeState a s).2 = false := hstate
  obtain ⟨hstate, hid⟩ : s.model.state = a.state ∧
      (a.accountId = "" ∨ s.model.accountId = a.accountId) := by
    simpa [takeState, or_iff_not_imp_left] using hstate
  exact ⟨hevents, hstate.symm, hid.imp_right Eq.symm⟩

/-! ## What a step leaves -/

/-- The renderer is dirty until the engine is started; when it is clean, what it drew is current. -/
structure Fresh (s : Ui) : Prop where
  started : s.started = false → s.dirty = true
  drawn : s.dirty = true ∨ Current s

theorem current_congr (hm : s'.model = s.model) (hc : s'.paintedCall = s.paintedCall)
    (hp : s'.pendingOpen = s.pendingOpen) (ht : s'.tab = s.tab) (ho : s'.current = s.current)
    (hs : s'.showProfile = s.showProfile) (hd : s'.painted = s.painted) (h : Current s) :
    Current s' := by
  rw [Current, hd, hc]
  refine h.trans (congrArg some (app_congr ?_ rfl ?_ ?_ ?_ ?_)) <;> symm <;> assumption

theorem started_renderFrame (h : s.started = true) : (renderFrame s).started = true := by
  cases hp : s.lifecyclePaused with
  | true =>
    rw [renderFrame_paused hp]
    exact h
  | false =>
    cases hd : s.dirty with
    | false =>
      rw [renderFrame_clean hd]
      exact h
    | true =>
      rw [renderFrame_dirty hp hd]
      rcases app_cases s with ⟨happ, -⟩ | ⟨id, -, -, happ⟩ <;> rw [happ] <;> exact h

/-- A frame leaves what was drawn current, and makes it so if it draws. -/
theorem onFrame_fresh (rescaled : Bool) (a : Answers) (h : Fresh s) :
    Fresh (step s (.onFrame rescaled a)) ∧
      (s.lifecyclePaused = false → Current (step s (.onFrame rescaled a))) := by
  obtain ⟨hstarted, hdirty, hpaused⟩ := pump_same a { s with dirty := s.dirty || rescaled }
  generalize hs' : ({ (pump a { s with dirty := s.dirty || rescaled }).1 with
    dirty := (pump a { s with dirty := s.dirty || rescaled }).1.dirty ||
      (pump a { s with dirty := s.dirty || rescaled }).2 } : Ui) = s'
  have hstep : step s (.onFrame rescaled a) = renderFrame s' := by
    rw [← hs']
    rfl
  have hstarted' : s'.started = true := by
    rw [← hs']
    exact hstarted
  have hpaused' : s'.lifecyclePaused = s.lifecyclePaused := by
    rw [← hs']
    exact hpaused
  have hdirty' : s'.dirty =
      ((s.dirty || rescaled) || (pump a { s with dirty := s.dirty || rescaled }).2) := by
    rw [← hs']
    exact congrArg (· || _) hdirty
  have hnot : ¬ (renderFrame s').started = false := by
    rw [started_renderFrame hstarted']
    decide
  rw [hstep]
  cases hd : s'.dirty with
  | true =>
    cases hp : s.lifecyclePaused with
    | true =>
      rw [renderFrame_paused (hpaused'.trans hp)]
      exact ⟨⟨fun _ => hd, .inl hd⟩, fun h => by cases h⟩
    | false =>
      have hcur := current_renderFrame (hpaused'.trans hp) hd
      exact ⟨⟨fun h => absurd h hnot, .inr hcur⟩, fun _ => hcur⟩
  | false =>
    -- Nothing was said, and the renderer was clean: what it drew is current.
    rw [hdirty', Bool.or_eq_false_iff, Bool.or_eq_false_iff] at hd
    obtain ⟨⟨hclean, rfl⟩, hsaid⟩ := hd
    have hst : s.started = true := by
      by_contra hst
      rw [h.started (Bool.eq_false_of_not_eq_true hst)] at hclean
      cases hclean
    have hs : ({ s with dirty := s.dirty || false } : Ui) = s := by rw [Bool.or_false]
    rw [hs] at hs' hsaid
    rw [pump_silent (silent_of_pump hsaid hst) hst, Bool.or_false] at hs'
    obtain rfl : s = s' := hs'
    rw [renderFrame_clean hclean]
    exact ⟨h, fun _ => h.drawn.resolve_left fun hd => by rw [hclean] at hd; cases hd⟩

theorem pump_fresh (h : Fresh s) (ho : s.dirty = true ∨ Silent a s) : Fresh (pump a s).1 := by
  obtain ⟨hstarted, hdirty, -⟩ := pump_same a s
  cases hd : s.dirty with
  | true => exact ⟨fun _ => hdirty.trans hd, .inl (hdirty.trans hd)⟩
  | false =>
    have hst : s.started = true := by
      by_contra hst
      rw [h.started (Bool.eq_false_of_not_eq_true hst)] at hd
      cases hd
    have hsilent := ho.resolve_left fun h => by
      rw [hd] at h
      cases h
    rw [pump_silent hsilent hst]
    exact h

/-- Each step that meets the condition leaves what was drawn current. -/
theorem step_fresh (i : Input) (h : Fresh s) (ho : Marked s i) : Fresh (step s i) := by
  have hkeep {s' : Ui} (hst : s'.started = s.started) (hd : s'.dirty = s.dirty)
      (hm : s'.model = s.model) (hc : s'.paintedCall = s.paintedCall)
      (hp : s'.pendingOpen = s.pendingOpen) (ht : s'.tab = s.tab) (hu : s'.current = s.current)
      (hs : s'.showProfile = s.showProfile) (hpaint : s'.painted = s.painted) : Fresh s' :=
    ⟨fun hs' => hd.trans (h.started (hst.symm.trans hs')),
      h.drawn.imp hd.trans (current_congr hm hc hp ht hu hs hpaint)⟩
  have hdirty {s' : Ui} (hd : s'.dirty = true) : Fresh s' := ⟨fun _ => hd, .inl hd⟩
  cases i with
  | onFrame rescaled a => exact (onFrame_fresh rescaled a h).1
  | bgTick a | onAlarm a => exact pump_fresh h ho
  | onNotificationClick id =>
    unfold step
    dsimp only
    split
    · next thread hthread =>
      exact hdirty (ho.resolve_right fun hn => by rw [hn] at hthread; cases hthread)
    · exact h
  | onLifecycleChanged | callChanged => exact hkeep rfl rfl rfl rfl rfl rfl rfl rfl rfl
  | onResize | clickRow | clickBack | clickTab | clickProfile => exact hdirty rfl
  | otherInput dirty =>
    cases dirty with
    | true => exact hdirty (Bool.or_true _)
    | false => exact hkeep rfl (Bool.or_false _) rfl rfl rfl rfl rfl rfl rfl

/-- In any run in which the tick, the alarm and taps on notifications change something only while
    the renderer is dirty, each frame of the resumed app draws the model as it is. -/
theorem current_of_frame (h : Machine.Run step Marked {} s) (hp : s.lifecyclePaused = false)
    (rescaled : Bool) (a : Answers) : Current (step s (.onFrame rescaled a)) := by
  have hfresh : Fresh s :=
    h.invariant ⟨fun _ => rfl, .inl rfl⟩ fun i hs ho => step_fresh i hs ho
  exact (onFrame_fresh rescaled a hfresh).2 hp

/-- A message from Bob. -/
def bobWrites : Message :=
  { id := 1, sender := "bob", text := "hi", ts := 0, outgoing := false, thread := "bob"
    status := .delivered, reactions := 0, attachments := [], call := none }

/-- A message that an alarm drains before the first frame is drawn by it. -/
theorem current_of_frame_alarm :
    Current (step (step {} (.onAlarm { events := [.message bobWrites] })) (.onFrame false {})) :=
  have hmarked : Marked {} (.onAlarm { events := [.message bobWrites] }) := Or.inl rfl
  current_of_frame (.step _ .start hmarked) (pump_same _ _).2.2 false {}

/-- The messages that a screen draws. -/
def drawnMessages : View → List Message
  | .conversation _ _ _ messages _ => messages
  | .lists _ _ m => m.messages
  | _ => []

/-- A message that the tick drains while the renderer is clean is not drawn by the next frame. -/
theorem painted_stale : ¬ ∀ (is : List Input) (rescaled : Bool) (a : Answers),
    (is.foldl step {}).lifecyclePaused = false →
    Current (step (is.foldl step {}) (.onFrame rescaled a)) := by
  intro h
  have hcur := h [.onFrame false {}, .bgTick { events := [.message bobWrites] }] false {}
    (by decide)
  have hdrawn := congrArg (Option.map drawnMessages) hcur
  exact absurd hdrawn (by decide)

end Wandr.SignalUi.Ui
