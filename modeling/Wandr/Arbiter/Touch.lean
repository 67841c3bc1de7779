import Wandr.Arbiter.Panel
import Wandr.Arbiter.Presence
import Wandr.Arbiter.Runs

/-!
# Suppressed touch

The keyguard suppresses the touch of the app it covers, and so does the power menu;
blanking the panel suppresses the touch of every running app. Each lifts what it
suppressed, and knows nothing of the others.

* `PowerModule.onEvent_touch` and `KeyguardModule.onEvent_touch` say what a reaction can
  tell of the touch of an app;
* `Arbiter.touch_modal`: in every run in which nothing lifts the suppression of the app
  under the lock screen, its touch stays suppressed while the device is locked;
* `Arbiter.touch_lifted` is a run that unblanks a locked device.
-/

namespace Wandr

variable {p : Pid} {b : Bool} {fx gx : List Effect}

/-- Whether the touch of a process was suppressed by the last line on it, if there was one. -/
def suppressed (p : Pid) (fx : List Effect) : Bool := Trace.last (Effect.touch p) false fx

theorem suppressed_append :
    suppressed p (fx ++ gx) = Trace.last (Effect.touch p) (suppressed p fx) gx :=
  Trace.last_append

/-- Of a line to several processes, one of them hears its own. -/
theorem last_touch_all {ps : List Pid} {on : Bool} :
    Trace.last (Effect.touch p) b (ps.map fun q => .hostLine q (.inputSuppress on)) =
      if p ∈ ps then on else b := by
  have hl : ∀ f ∈ ps.map fun q => Effect.hostLine q (.inputSuppress on), ∀ u ∈ f.touch p,
      u = on := by
    intro f hf u hu
    obtain ⟨q, -, rfl⟩ := List.mem_map.mp hf
    rw [Effect.touch] at hu
    split at hu <;> simp_all
  rw [Trace.last_of_forall hl]
  congr 1
  simp [Effect.touch]

theorem ModuleId.touch_of_mayRequest {id : ModuleId} (hp : id ≠ .power) (hk : id ≠ .keyguard)
    {f : Effect} (hf : id.mayRequest f) (p : Pid) : f.touch p = none := by
  cases f with
  | hostLine q line =>
    cases line with
    | inputSuppress on =>
      cases id <;> first | exact absurd rfl hp | exact absurd rfl hk | exact hf.elim
    | _ => rfl
  | _ => rfl

/-! ## The panel -/

namespace PowerModule

variable {clock : Clock} {m : PowerModule} {c : Ctx} {r : PowerModule × Ctx}

/-- A piece of a handler of the module told no app of its touch. -/
structure Untouched (m : PowerModule) (c : Ctx) (r : PowerModule × Ctx) : Prop where
  blanked : r.1.blanked = m.blanked
  silent : ∃ fx, r.2.effects = c.effects ++ fx ∧ ∀ f ∈ fx, ∀ p, f.touch p = none

/-- A piece of a handler of the module told every running app of its touch. -/
structure Swept (on : Bool) (c : Ctx) (r : PowerModule × Ctx) : Prop where
  blanked : r.1.blanked = on
  swept : ∃ fx, r.2.effects = c.effects ++ fx ∧ ∀ p b,
    Trace.last (Effect.touch p) b fx = if p ∈ pids c.store then on else b

/-- An event that lifts the blank: an uncovered sensor or one read out of a call without
    video, a call with video, the last call hung up. -/
def LiftsBlank (m : PowerModule) : Event → Prop
  | .commsActive p false | .surfaceRemoved p => m.blanked ∧ m.comms.erase p = ∅
  | .videoCallActive _ true => m.blanked
  | .proximityChanged near => m.blanked ∧ (near = false ∨ m.comms = ∅ ∨ m.videoCalls ≠ ∅)
  | _ => False

theorem OnlyMinor.untouched (h : OnlyMinor m c r) : Untouched m c r := by
  obtain ⟨fx, hfx, hl⟩ := h.ctx
  exact ⟨h.panel.blanked, fx, by rw [hfx], fun f hf p => (hl f hf).touch⟩

/-- Telling every app, and then of minor things. -/
theorem last_sweep {s : Store} {on power : Bool} (hl : ∀ f ∈ fx, f.IsMinor) :
    Trace.last (Effect.touch p) b
        ((.setDisplayPower power :: (pids s).map fun q => .hostLine q (.inputSuppress on)) ++ fx) =
      if p ∈ pids s then on else b := by
  rw [Trace.last_append, Trace.last_of_silent fun f hf => (hl f hf).touch, Trace.last_cons]
  exact last_touch_all

theorem setPanelOn_untouched {on : Bool} : Untouched m c (m.setPanelOn clock on c) := by
  obtain ⟨hp, fx, hl, hfx⟩ := setPanelOn_eq clock m c on
  refine ⟨hp.blanked, (if m.blanked then [] else [.setDisplayPower on]) ++ fx, ?_, ?_⟩
  · rw [hfx, List.append_assoc]
  · intro f hf p
    rcases List.mem_append.mp hf with hf | hf
    · split at hf
      · exact absurd hf List.not_mem_nil
      · rw [List.mem_singleton.mp hf]
        rfl
    · exact (hl f hf).touch

theorem Untouched.trans {r' : PowerModule × Ctx} (h : Untouched m c r)
    (h' : Untouched r.1 r.2 r') : Untouched m c r' := by
  obtain ⟨fx, hfx, hs⟩ := h.silent
  obtain ⟨gx, hgx, hs'⟩ := h'.silent
  refine ⟨h'.blanked.trans h.blanked, fx ++ gx, by rw [hgx, hfx, List.append_assoc], ?_⟩
  exact fun f hf => (List.mem_append.mp hf).elim (hs f) (hs' f)

theorem onIdleTick_untouched : Untouched m c (m.onIdleTick clock c) := by
  have h : Untouched m c (m.reconcileLight clock c) := (reconcileLight_onlyMinor clock).untouched
  unfold onIdleTick
  generalize m.reconcileLight clock c = r at h ⊢
  obtain ⟨m', c'⟩ := r
  dsimp only at h ⊢
  split
  · exact h
  · split
    · exact h
    · split
      · exact h
      · split
        · exact ⟨h.blanked, h.silent⟩
        · split
          · exact h.trans setPanelOn_untouched
          · exact h

/-- No command of the module tells an app of its touch. -/
theorem onCommand_untouched [Fpu] (clock : Clock) {verb : Verb} (args : String) :
    Untouched m c ((m.onCommand clock verb args c).1, (m.onCommand clock verb args c).2.1) := by
  by_cases hr : verb = .reportPowerClass
  · subst hr
    have hn {m' : PowerModule} (hb : m'.blanked = m.blanked) : Untouched m c (m', c) :=
      ⟨hb, [], by simp, by simp⟩
    simp only [onCommand]
    unfold cmdReportClass
    split
    · split <;> exact hn rfl
    · exact hn rfl
  by_cases hk : verb = .powerKey
  · subst hk
    exact setPanelOn_untouched
  by_cases hp : verb = .panel
  · subst hp
    simp only [onCommand]
    unfold cmdPanel
    dsimp only
    split
    · exact setPanelOn_untouched
    · exact ⟨rfl, [], by simp, by simp⟩
  exact (onCommand_onlyMinor hr hk hp).untouched

theorem setPanelBlanked_swept {blank : Bool} : Swept blank c (m.setPanelBlanked blank c) := by
  rw [setPanelBlanked_eq]
  refine ⟨rfl, _, rfl, fun p b => ?_⟩
  simpa using last_sweep (s := c.store) (fun f hf => absurd hf List.not_mem_nil)

/-- A blank that is lifted on a condition. -/
theorem touch_of_lifted {cond : Prop} [Decidable cond] {power : Bool}
    (hb : r.1.blanked = (m.blanked && !decide cond)) (hl : ∀ f ∈ fx, f.IsMinor)
    (he : r.2.effects = c.effects ++ (if cond then .setDisplayPower power ::
      (pids c.store).map fun q => .hostLine q (.inputSuppress false) else []) ++ fx) :
    Untouched m c r ∨ cond ∧ Swept false c r := by
  by_cases h : cond
  · refine .inr ⟨h, by simp [hb, h], (.setDisplayPower power ::
      (pids c.store).map fun q => .hostLine q (.inputSuppress false)) ++ fx, ?_,
      fun p b => last_sweep hl⟩
    simp [he, h]
  · refine .inl ⟨by simp [hb, h], fx, by simp [he, h], fun f hf p => (hl f hf).touch⟩

theorem ensureUnblanked_touch (m : PowerModule) (c : Ctx) :
    Untouched m c (m.ensureUnblanked c) ∨
      m.blanked = true ∧ Swept false c (m.ensureUnblanked c) := by
  obtain ⟨hp, fx, hl, hfx⟩ := ensureUnblanked_eq (m := m) (c := c)
  exact touch_of_lifted (by simp [hp.blanked]) hl (congrArg Ctx.effects hfx)

/-- What becomes of the touch of the apps when a call ends or its process does. -/
theorem touch_of_ended {comms : Finset Pid}
    (hb : r.1.blanked = (m.blanked && decide (comms ≠ ∅))) (hl : ∀ f ∈ fx, f.IsMinor)
    (he : r.2.effects = c.effects ++ (if m.blanked ∧ comms = ∅ then .setDisplayPower m.panelOn ::
      (pids c.store).map fun q => .hostLine q (.inputSuppress false) else []) ++ fx) :
    Untouched m c r ∨ (m.blanked = true ∧ comms = ∅) ∧ Swept false c r := by
  refine touch_of_lifted ?_ hl he
  rw [hb]
  cases m.blanked <;> simp

/-- What a reaction tells of the touch of the apps: nothing, or every app what becomes of
    the blank. -/
theorem onEvent_touch [Fpu] (clock : Clock) {e : Event} :
    Untouched m c (m.onEvent clock e c) ∨ Swept true c (m.onEvent clock e c) ∨
      m.LiftsBlank e ∧ Swept false c (m.onEvent clock e c) := by
  have hminor {r : PowerModule × Ctx} (h : OnlyMinor m c r) {P : Prop} : Untouched m c r ∨ P :=
    .inl h.untouched
  cases e with
  | screenState live => exact hminor onScreenState_onlyMinor
  | surfaceRemoved p =>
    obtain ⟨hp, fx, hl, hfx⟩ := onSurfaceRemoved_eq (m := m) (c := c) (p := p)
    exact (touch_of_ended hp.blanked hl (congrArg Ctx.effects hfx)).imp_right .inr
  | commsActive p active =>
    cases active with
    | true =>
      obtain ⟨hp, fx, hl, hfx⟩ := onCommsActive_true_eq (m := m) (c := c) (p := p)
      exact .inl ⟨hp.blanked, fx, congrArg Ctx.effects hfx, fun f hf p => (hl f hf).touch⟩
    | false =>
      obtain ⟨hp, fx, hl, hfx⟩ := onCommsActive_false_eq (m := m) (c := c) (p := p)
      exact (touch_of_ended hp.blanked hl (congrArg Ctx.effects hfx)).imp_right .inr
  | videoCallActive p active =>
    cases active with
    | true =>
      exact (ensureUnblanked_touch { m with videoCalls := insert p m.videoCalls } c).imp
        (fun h => ⟨h.blanked, h.silent⟩) .inr
    | false => exact .inl ⟨rfl, [], by simp [onEvent, onVideoCallActive], by simp⟩
  | proximityChanged near =>
    simp only [onEvent, onProximityChanged]
    split_ifs with hblank hfar hout
    · exact .inr (.inl setPanelBlanked_swept)
    · refine (ensureUnblanked_touch m c).imp_right fun h => .inr ⟨⟨h.1, .inl ?_⟩, h.2⟩
      simp_all
    · refine (ensureUnblanked_touch m c).imp_right fun h => .inr ⟨⟨h.1, .inr ?_⟩, h.2⟩
      by_contra hc
      simp_all
    · exact .inl ⟨rfl, [], by simp, by simp⟩
  | sensorReading kind x y z ts =>
    cases kind with
    | light => exact hminor onLight_onlyMinor
    | _ => exact .inl ⟨rfl, [], by simp [onEvent], by simp⟩
  | idleTick =>
    exact .inl onIdleTick_untouched
  | _ => exact .inl ⟨rfl, [], by simp [onEvent], by simp⟩

end PowerModule

/-- An event that does not lift the blank. -/
def Event.Calm (e : Event) : Prop := ∀ m : PowerModule, ¬ m.LiftsBlank e

/-! ## The keyguard -/

namespace KeyguardModule

variable {m : KeyguardModule} {c c' c'' : Ctx} {o : Option Pid} {on : Bool}

/-- A piece of a handler of the module told no app of its touch. -/
def Mute (c c' : Ctx) : Prop :=
  ∃ fx, c'.effects = c.effects ++ fx ∧ ∀ f ∈ fx, ∀ p, f.touch p = none

/-- A piece of a handler of the module told one app of its touch, if any. -/
def Tells (o : Option Pid) (on : Bool) (c c' : Ctx) : Prop :=
  ∃ fx, c'.effects = c.effects ++ fx ∧
    ∀ p b, Trace.last (Effect.touch p) b fx = if o = some p then on else b

theorem Mute.refl : Mute c c := ⟨[], by simp, by simp⟩

theorem Mute.request {f : Effect} (h : Mute c c') (hf : ∀ p, f.touch p = none) :
    Mute c (c'.request f) := by
  obtain ⟨fx, hfx, hs⟩ := h
  refine ⟨fx ++ [f], by simp [hfx], fun g hg p => ?_⟩
  rcases List.mem_append.mp hg with hg | hg
  · exact hs g hg p
  · rw [List.mem_singleton.mp hg, hf]

theorem Tells.nobody (h : Mute c c') : Tells none on c c' := by
  obtain ⟨fx, hfx, hs⟩ := h
  exact ⟨fx, hfx, fun p b => by simpa using Trace.last_of_silent fun f hf => hs f hf p⟩

theorem Mute.tells (h : Mute c c') (h' : Tells o on c' c'') : Tells o on c c'' := by
  obtain ⟨fx, hfx, hs⟩ := h
  obtain ⟨gx, hgx, hl⟩ := h'
  refine ⟨fx ++ gx, by rw [hgx, hfx, List.append_assoc], fun p b => ?_⟩
  rw [Trace.last_append, Trace.last_of_silent fun f hf => hs f hf p, hl]

theorem Tells.mute (h : Tells o on c c') (h' : Mute c' c'') : Tells o on c c'' := by
  obtain ⟨fx, hfx, hl⟩ := h
  obtain ⟨gx, hgx, hs⟩ := h'
  refine ⟨fx ++ gx, by rw [hgx, hfx, List.append_assoc], fun p b => ?_⟩
  rw [Trace.last_append, hl, Trace.last_of_silent fun f hf => hs f hf p]

theorem Tells.line {q : Pid} : Tells (some q) on c (c.deliverToHost q (.inputSuppress on)) := by
  refine ⟨_, rfl, fun p b => ?_⟩
  by_cases hq : q = p <;> simp [Effect.touch, hq]

theorem Tells.suppressed_eq {fx : List Effect} (h : Tells o on c c') :
    suppressed p (fx ++ c'.effects) =
      if o = some p then on else suppressed p (fx ++ c.effects) := by
  obtain ⟨gx, hgx, hl⟩ := h
  rw [hgx, ← List.append_assoc, suppressed_append, hl]

theorem setRole_mute {role : Role} : Mute c (setRole c p role) := Mute.refl.request fun _ => rfl

theorem showLockscreen_mute {a : String} : Mute c (showLockscreen c p a) :=
  Mute.refl.request fun _ => rfl

theorem lower_mute : Mute c (lower c o) := by
  cases o with
  | none => exact .refl
  | some p => exact setRole_mute

theorem refocus_mute {a : Option String} : Mute c (refocus c a) := by
  cases a with
  | none => exact .refl
  | some a => exact Mute.refl.request fun _ => rfl

theorem refanOrientation_mute : Mute c (refanOrientation c) :=
  ⟨[], by simp [refanOrientation], by simp⟩

theorem unsuppress_tells : Tells o false c (unsuppress c o) := by
  cases o with
  | none => exact .nobody .refl
  | some p => exact .line

theorem coverVisible_tells : Tells (visibleApp c.store) true c (coverVisible c) := by
  unfold coverVisible
  cases visibleApp c.store with
  | none => exact .nobody .refl
  | some p => exact setRole_mute.tells .line

/-- What raising an overlay does after covering the visible app. -/
theorem raise_tells {a b : String} {q : Pid} (h : Tells o on c c') :
    Tells o on c (refanOrientation ((showLockscreen c' p a).emit
      (.foregroundChanged (some b) (some q)))) :=
  (h.mute (showLockscreen_mute (p := p) (a := a))).mute ⟨[], by simp [refanOrientation], by simp⟩

/-- What locking does to the touch of the apps: that of the visible one is suppressed. -/
theorem doLock_touch :
    ((m.doLock c).1 = m ∧ (m.doLock c).2.1.effects = c.effects) ∨
      m.locked = false ∧ (∃ savedFg, (m.doLock c).1 = { m with
        savedFg
        suppressedPid := (visibleApp c.store).or m.suppressedPid
        locked := true }) ∧
      Tells (visibleApp c.store) true c (m.doLock c).2.1 := by
  unfold doLock
  split
  · exact .inl ⟨rfl, rfl⟩
  · next hl =>
    split
    · exact .inl ⟨rfl, rfl⟩
    · exact .inr ⟨by simpa using hl, ⟨_, rfl⟩, raise_tells coverVisible_tells⟩

/-- Opening the power menu likewise. -/
theorem doShowMenu_touch :
    ((m.doShowMenu c).1 = m ∧ (m.doShowMenu c).2.1.effects = c.effects) ∨
      m.menuShown = false ∧ (∃ menuSavedFg menuCoveredKeyguard, (m.doShowMenu c).1 = { m with
        menuSavedFg
        menuCoveredKeyguard
        menuSuppressedPid := (visibleApp c.store).or m.menuSuppressedPid
        menuShown := true }) ∧
      Tells (visibleApp c.store) true c (m.doShowMenu c).2.1 := by
  unfold doShowMenu
  split
  · exact .inl ⟨rfl, rfl⟩
  · next hl =>
    split
    · exact .inl ⟨rfl, rfl⟩
    · dsimp only
      split
      · exact .inr ⟨by simpa using hl, ⟨_, _, rfl⟩,
          raise_tells (coverVisible_tells.mute setRole_mute)⟩
      · exact .inr ⟨by simpa using hl, ⟨_, _, rfl⟩, raise_tells coverVisible_tells⟩

/-- Unlocking gives the app that was covered its touch back. -/
theorem doUnlock_touch :
    ((m.doUnlock c).1 = m ∧ (m.doUnlock c).2.1.effects = c.effects ∧ m.locked = false) ∨
      (m.doUnlock c).1 = { m with suppressedPid := none, savedFg := none, locked := false } ∧
        Tells m.suppressedPid false c (m.doUnlock c).2.1 := by
  unfold doUnlock
  split
  · next hl => exact .inl ⟨rfl, rfl, by simpa using hl⟩
  · refine .inr ⟨rfl, ?_⟩
    exact (lower_mute.tells unsuppress_tells).mute refocus_mute |>.mute refanOrientation_mute

/-- Dismissing the power menu gives the app that it covered its touch back. -/
theorem doHideMenu_touch :
    ((m.doHideMenu c).1 = m ∧ Mute c (m.doHideMenu c).2.1 ∧ m.menuShown = false) ∨
      m.menuShown = true ∧ (m.doHideMenu c).1 = { m with
        menuSuppressedPid := none
        menuCoveredKeyguard := false
        menuSavedFg := none
        menuShown := false } ∧
        Tells m.menuSuppressedPid false c (m.doHideMenu c).2.1 := by
  unfold doHideMenu
  cases hm : m.menuShown with
  | false => exact .inl ⟨by simp, by simpa using lower_mute, rfl⟩
  | true =>
    refine .inr ⟨rfl, by simp [restoreFromMenu], ?_⟩
    have h := lower_mute (o := powermenuPid c.store).tells
      (unsuppress_tells (o := m.menuSuppressedPid) (c := lower c (powermenuPid c.store)))
    simp only [if_true, restoreFromMenu]
    split
    · exact ((h.mute showLockscreen_mute).mute refocus_mute).mute refanOrientation_mute
    · exact (h.mute refocus_mute).mute refanOrientation_mute

/-- The keyguard tells apps of their touch when it locks, on the screen going off. -/
theorem onEvent_touch {e : Event} :
    (∃ savedFg menuSavedFg, (m.onEvent e c).1 = { m with savedFg, menuSavedFg } ∧
        (m.onEvent e c).2.effects = c.effects) ∨
      (m.onEvent e c).1 = (m.doLock c).1 ∧ (m.onEvent e c).2 = (m.doLock c).2.1 := by
  cases e with
  | screenState live =>
    cases live with
    | true => exact .inl ⟨_, _, rfl, rfl⟩
    | false => exact .inr ⟨rfl, rfl⟩
  | surfaceRemoved p => exact .inl ⟨_, _, rfl, rfl⟩
  | _ => exact .inl ⟨_, _, rfl, rfl⟩

end KeyguardModule

/-! ## The lock screen -/

theorem PowerModule.mem_pids {s : Store} : p ∈ pids s ↔ s.Tracks p := by
  simp [pids, Store.Tracks, Store.appsSnapshot]

section

variable [Fpu]

namespace Arbiter

variable {clock : Clock} {a : Arbiter} {e : Event}

/-- The app under the lock screen, which there is none of on an unlocked device, was last
    told that its touch is suppressed. -/
structure Modal (a : Arbiter) (fx : List Effect) : Prop where
  unlocked : a.mods.keyguard.locked = false → a.mods.keyguard.suppressedPid = none
  suppressed : ∀ p, a.mods.keyguard.locked = true → a.mods.keyguard.suppressedPid = some p →
    suppressed p fx = true

/-- The process is running, and its app is under the lock screen. -/
def Covers (a : Arbiter) (p : Pid) : Prop :=
  a.mods.keyguard.locked = true ∧ a.mods.keyguard.suppressedPid = some p ∧ a.store.Tracks p

/-- The power module lifts the suppression under the lock screen with the blank only. -/
theorem handler_power_modal (clock : Clock) (h : Modal a fx)
    (he : a.mods.power.LiftsBlank e → ∀ p, ¬ a.Covers p) :
    Modal (handler clock .power e a).state (fx ++ (handler clock .power e a).effects) := by
  have hs : (handler clock .power e a).state.mods.keyguard = a.mods.keyguard := rfl
  refine ⟨by rw [hs]; exact h.unlocked, fun p hl hp => ?_⟩
  have ho := h.suppressed p hl hp
  have ht := PowerModule.onEvent_touch clock (m := a.mods.power)
    (c := { store := a.store }) (e := e)
  have hfx : (handler clock .power e a).effects =
    (a.mods.power.onEvent clock e { store := a.store }).2.effects := rfl
  rw [hfx, suppressed_append, ho]
  rcases ht with ⟨-, gx, hgx, hsil⟩ | ⟨-, gx, hgx, hsw⟩ | ⟨hlift, -, gx, hgx, hsw⟩
  · rw [hgx, List.nil_append]
    exact Trace.last_of_silent fun f hf => hsil f hf p
  · rw [hgx, List.nil_append, hsw]
    simp
  · rw [hgx, List.nil_append, hsw, if_neg]
    exact fun hm => he hlift p ⟨hl, hp, PowerModule.mem_pids.mp hm⟩

omit [Fpu] in
/-- Locking suppresses the touch of the app that it covers. -/
theorem doLock_modal {m : KeyguardModule} {s : Store}
    (hu : m.locked = false → m.suppressedPid = none)
    (hm : ∀ p, m.locked = true → m.suppressedPid = some p → suppressed p fx = true) :
    ((m.doLock { store := s }).1.locked = false →
        (m.doLock { store := s }).1.suppressedPid = none) ∧
      ∀ p, (m.doLock { store := s }).1.locked = true →
        (m.doLock { store := s }).1.suppressedPid = some p →
          suppressed p (fx ++ (m.doLock { store := s }).2.1.effects) = true := by
  rcases KeyguardModule.doLock_touch (m := m) (c := { store := s }) with
    ⟨he, hfx⟩ | ⟨hl, ⟨savedFg, he⟩, ht⟩
  · rw [he, hfx, List.append_nil]
    exact ⟨hu, hm⟩
  · rw [he, hu hl]
    refine ⟨by simp, fun p _ hp => ?_⟩
    rw [ht.suppressed_eq, if_pos (by simpa using hp)]

theorem handler_keyguard_modal (clock : Clock) (h : Modal a fx) :
    Modal (handler clock .keyguard e a).state (fx ++ (handler clock .keyguard e a).effects) := by
  have hr :=
    KeyguardModule.onEvent_touch (m := a.mods.keyguard) (c := { store := a.store }) (e := e)
  have hm : (handler clock .keyguard e a).state.mods.keyguard =
    (a.mods.keyguard.onEvent e { store := a.store }).1 := rfl
  have hfx : (handler clock .keyguard e a).effects =
    (a.mods.keyguard.onEvent e { store := a.store }).2.effects := rfl
  rcases hr with ⟨savedFg, menuSavedFg, he, hn⟩ | ⟨he, hn⟩
  · refine ⟨?_, ?_⟩ <;> rw [hm, he]
    · exact h.unlocked
    · rw [hfx, hn, List.append_nil]
      exact h.suppressed
  · obtain ⟨hu, hs⟩ := doLock_modal (s := a.store) h.unlocked h.suppressed
    refine ⟨?_, ?_⟩ <;> rw [hm, he]
    · exact hu
    · rw [hfx, hn]
      exact hs

/-- The keyguard and the power module, on a bus of their own. -/
def keyguardPower : Registry := [.power, .keyguard]

/-- The steps that leave the touch of the app under the lock screen suppressed: the power
    menu is not dismissed when it covers that app too, and the blank is not lifted while
    that app is running. -/
def TouchKept (a : Arbiter) : Stimulus → Prop
  | .command (.keyguard .pmDismiss) _ => a.mods.keyguard.menuShown = true →
    a.mods.keyguard.locked = true → ∀ p, a.mods.keyguard.suppressedPid = some p →
      a.mods.keyguard.menuSuppressedPid ≠ some p
  | .command verb _ => verb.owner ∈ keyguardPower
  | .inject e => a.mods.power.LiftsBlank e → ∀ p, ¬ a.Covers p
  | .environment _ => True

omit [Fpu] in
/-- Neither module emits an event that lifts the blank. -/
theorem calm_of_mayEmit {id : ModuleId} (hid : id ∈ keyguardPower) (h : id.mayEmit e) :
    e.Calm := by
  intro m hl
  simp only [keyguardPower, List.mem_cons, List.not_mem_nil, or_false] at hid
  rcases hid with rfl | rfl <;> cases e <;> first | exact h.elim | exact hl.elim

theorem handler_keyguardPower_modal {id : ModuleId} (hid : id ∈ keyguardPower) :
    Bus.Keeps (fun a gx => Modal a (fx ++ gx)) Event.Calm (handler clock id) where
  inv := by
    intro e a gx he h
    rw [← List.append_assoc]
    simp only [keyguardPower, List.mem_cons, List.not_mem_nil, or_false] at hid
    rcases hid with rfl | rfl
    · exact handler_power_modal _ h fun hl => absurd hl (he _)
    · exact handler_keyguard_modal _ h
  emits := fun _ _ e' he' => calm_of_mayEmit hid (handler_emits e' he').2

/-- What the fan of an event brings about and the handlers keep, the dispatch keeps. -/
theorem inject_keeps_after {reg : Registry} {J : Arbiter → List Effect → Prop} {E : Event → Prop}
    (hk : ∀ id ∈ reg, Bus.Keeps J E (handler clock id))
    (hJ : J (Bus.fan (handlers reg clock) (.start a) e).state
      (Bus.fan (handlers reg clock) (.start a) e).effects)
    (hE : ∀ e' ∈ (Bus.fan (handlers reg clock) (.start a) e).events, E e') :
    J (a.inject reg clock e).1 (a.inject reg clock e).2 := by
  have hd : a.inject reg clock e = drainCascade reg clock ⟨a, [e], []⟩ := rfl
  rw [hd, drainCascade, maxCascadeDepth, Bus.drain_succ (by simp)]
  exact Bus.Keeps.drain (handlers_keep hk) hJ hE

omit [Fpu] in
theorem TouchKept.owner {verb : Verb} {args : String} (h : a.TouchKept (.command verb args)) :
    verb.owner ∈ keyguardPower := by
  cases verb with
  | keyguard v => simp [Verb.owner, keyguardPower]
  | _ => exact h

/-- A command by itself that leaves it suppressed keeps the touch of the app under the lock
    screen suppressed. -/
theorem handle_modal {verb : Verb} {args : String} (h : Modal a fx)
    (hi : a.TouchKept (.command verb args)) :
    Modal (a.handle clock verb args).1.state (fx ++ (a.handle clock verb args).1.effects) := by
  cases verb with
  | power v =>
    obtain ⟨-, gx, hgx, hs⟩ := PowerModule.onCommand_untouched clock args
      (m := a.mods.power) (c := { store := a.store })
    refine ⟨h.unlocked, fun p hl hp => ?_⟩
    have hfx : (a.handle clock (.power v) args).1.effects = gx := hgx
    rw [hfx, suppressed_append, h.suppressed p hl hp]
    exact Trace.last_of_silent fun f hf => hs f hf p
  | keyguard v =>
    have hm : (a.handle clock (.keyguard v) args).1.state.mods.keyguard =
      (a.mods.keyguard.onCommand v { store := a.store }).1 := rfl
    have hfx : (a.handle clock (.keyguard v) args).1.effects =
      (a.mods.keyguard.onCommand v { store := a.store }).2.1.effects := rfl
    cases v with
    | lock =>
      obtain ⟨hu, hs⟩ := doLock_modal (s := a.store) h.unlocked h.suppressed
      exact ⟨hu, hs⟩
    | unlock =>
      rcases KeyguardModule.doUnlock_touch (m := a.mods.keyguard) (c := { store := a.store }) with
        ⟨he, hn, hl⟩ | ⟨he, -⟩
      · refine ⟨?_, ?_⟩ <;> rw [hm, KeyguardModule.onCommand, he]
        · exact h.unlocked
        · simp [hl]
      · refine ⟨?_, ?_⟩ <;> rw [hm, KeyguardModule.onCommand, he] <;> simp
    | powerMenu =>
      rcases KeyguardModule.doShowMenu_touch (m := a.mods.keyguard) (c := { store := a.store }) with
        ⟨he, hn⟩ | ⟨-, ⟨menuSavedFg, covered, he⟩, ht⟩
      · refine ⟨?_, ?_⟩ <;> rw [hm, KeyguardModule.onCommand, he]
        · exact h.unlocked
        · rw [hfx, KeyguardModule.onCommand, hn, List.append_nil]
          exact h.suppressed
      · refine ⟨?_, fun p hl hp => ?_⟩
        · rw [hm, KeyguardModule.onCommand, he]
          exact h.unlocked
        · rw [hm, KeyguardModule.onCommand, he] at hl hp
          rw [hfx, KeyguardModule.onCommand, ht.suppressed_eq, List.append_nil,
            h.suppressed p hl hp]
          simp
    | pmDismiss =>
      rcases KeyguardModule.doHideMenu_touch (m := a.mods.keyguard) (c := { store := a.store }) with
        ⟨he, hn, -⟩ | ⟨hshown, he, ht⟩
      · refine ⟨?_, fun p hl hp => ?_⟩
        · rw [hm, KeyguardModule.onCommand, he]
          exact h.unlocked
        · rw [hm, KeyguardModule.onCommand, he] at hl hp
          have hn' : KeyguardModule.Tells none false _ _ := .nobody hn
          rw [hfx, KeyguardModule.onCommand, hn'.suppressed_eq]
          simpa using h.suppressed p hl hp
      · refine ⟨?_, fun p hl hp => ?_⟩
        · rw [hm, KeyguardModule.onCommand, he]
          exact h.unlocked
        · rw [hm, KeyguardModule.onCommand, he] at hl hp
          rw [hfx, KeyguardModule.onCommand, ht.suppressed_eq, if_neg (hi hshown hl p hp),
            List.append_nil]
          exact h.suppressed p hl hp
  | _ => exact absurd hi (by simp [TouchKept, Verb.owner, keyguardPower])

/-- A step that leaves it suppressed keeps the touch of the app under the lock screen
    suppressed. -/
theorem respond_modal {i : Stimulus} (h : Modal a fx) (hi : TouchKept a i) :
    Modal (a.respond keyguardPower clock i).1
      (fx ++ (a.respond keyguardPower clock i).2) := by
  cases i with
  | command verb args =>
    have hw : Ctx.Within Store.Anyhow verb.owner.mayEmit verb.owner.mayRequest
        { store := a.store } (a.mods.onCommand clock verb args { store := a.store }).2.1 :=
      Modules.onCommand_within
    exact command_keeps (fun id hid => handler_keyguardPower_modal hid) (handle_modal h hi)
      fun e he => calm_of_mayEmit hi.owner (hw.forall_events rfl e he)
  | inject e =>
    by_cases he : e.Calm
    · exact inject_keeps (fun id hid => handler_keyguardPower_modal hid) (by simpa using h) he
    · refine inject_keeps_after (fun id hid => handler_keyguardPower_modal hid) ?_ ?_
      · have hp := handler_power_modal clock h hi
        have hk := handler_keyguard_modal clock hp (e := e)
        simpa [Bus.fan, handlers, keyguardPower, Bus.Out.react] using hk
      · intro e' he'
        simp only [Bus.fan, handlers, keyguardPower, Bus.Out.react, List.map_cons, List.map_nil,
          List.foldl_cons, List.foldl_nil, Bus.Out.start_events, List.nil_append,
          List.mem_append] at he'
        rcases he' with he' | he'
        · exact calm_of_mayEmit (by decide) (handler_emits e' he').2
        · exact calm_of_mayEmit (by decide) (handler_emits e' he').2
  | environment s =>
    rw [respond, List.append_nil]
    exact ⟨h.unlocked, h.suppressed⟩

/-- In every run in which no step lifts the suppression of the app under the lock screen,
    the last line on its touch says that it is suppressed, as long as the device is
    locked. -/
theorem touch_modal (h : Run keyguardPower TouchKept {} a fx)
    (hl : a.mods.keyguard.locked = true) (hp : a.mods.keyguard.suppressedPid = some p) :
    suppressed p fx = true := by
  have hJ : Modal a fx := h.invariant (J := Modal) ⟨fun _ => rfl, nofun⟩
    fun clock i hJ hi _ => respond_modal hJ hi
  exact hJ.suppressed p hl hp

end Arbiter

end

section

attribute [local instance] Fpu.comparator

namespace Arbiter

/-- A store with the keyguard running, and an app in the foreground. -/
def appOnTop : Store :=
  ((({} : Store).insertApp ⟨keyguardAppId, 2, 0, 0⟩).insertApp ⟨"b", 7, 0, 0⟩).modifyDisplay
    primaryDisplay fun d => d.putSurface 7 "b" .foreground

/-- The keyguard and the power module take one stimulus after the other, on a store with an
    app in the foreground. -/
def onTop (is : List Stimulus) : Arbiter × List Effect :=
  respondAll keyguardPower ⟨0, 0⟩ {} (.environment appOnTop :: is)

theorem onTop_run {Ok : Arbiter → Stimulus → Prop} {is : List Stimulus}
    (h : Goes keyguardPower Ok ⟨0, 0⟩ {} (.environment appOnTop :: is)) :
    Run keyguardPower Ok {} (onTop is).1 (onTop is).2 :=
  Run.respondAll (.start : Run keyguardPower Ok {} {} []) h

/-- A device that is locked over an app. -/
theorem touch_modal_locked :
    suppressed 7 (onTop [.command (.keyguard .lock) ""]).2 = true :=
  touch_modal (onTop_run ⟨trivial, by decide, by simp [TouchKept, Verb.owner, keyguardPower],
    by decide, trivial⟩) (by decide) (by decide)

/-- The app in the foreground is in a call, the device is locked, the phone held to the ear
    and taken off it again: the app under the lock screen has its touch back. -/
theorem touch_lifted : ∃ a fx, Run keyguardPower (fun _ i => ∀ verb args,
      i = .command verb args → verb.owner ∈ keyguardPower) {} a fx ∧
    a.mods.keyguard.locked = true ∧ a.mods.keyguard.suppressedPid = some 7 ∧ a.store.Tracks 7 ∧
      suppressed 7 fx = false := by
  let is : List Stimulus := [.inject (.commsActive 7 true), .command (.keyguard .lock) "",
    .inject (.proximityChanged true), .inject (.proximityChanged false)]
  have hrun : Run keyguardPower (fun _ i => ∀ verb args, i = .command verb args →
      verb.owner ∈ keyguardPower) {} (onTop is).1 (onTop is).2 := by
    refine onTop_run ⟨nofun, by decide, nofun, by decide, ?_, by decide, nofun, by decide, nofun,
      by decide, trivial⟩
    rintro verb args ⟨⟩
    simp [Verb.owner, keyguardPower]
  exact ⟨_, _, hrun, by decide, by decide, ⟨⟨"b", 7, 0, 0⟩, by decide, rfl⟩, by decide⟩

end Arbiter

end

end Wandr
