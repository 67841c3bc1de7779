import Wandr.Arbiter.Runs
import Wandr.Arbiter.Shell.Moves

/-!
# Role discipline

The commands of the shell, and the events it reacts to, keep the display on a
stage, under the conditions that `Shell.Allowed` makes of the commands that do not
derive the overlay: those that take an app from the display, and those that set the
overlay by hand.

* `Arbiter.role_discipline`: over any run, at most one surface has each of the
  roles of a visible app, and an overlay comes with the app behind it;
* `Arbiter.overlay_derived`: without the manual verbs, the overlay is the one the
  display wants;
* `Arbiter.killed_overlay` and `Arbiter.stale_ime` are runs outside the conditions.
-/

namespace Wandr

open Text

section

variable [Fpu]

/-! ## The commands of the shell -/

namespace Shell

open DisplayState

variable {D : Prop} {clock : Clock} {c : Ctx} {verb : Verb} {args : String}

/-- The process `register-chrome` names. -/
def chromePid (args : String) : Option Pid :=
  match splitWhitespace args with
  | _ :: pidS :: _ => parseSigned 32 pidS
  | _ => none

/-- The input method that `set-ime` designates, if it designates any or none. -/
def designated (args : String) (s : Store) : Option (Option Pid) :=
  if args = "" then none
  else if args = "-" then some none
  else (s.app args).map fun st => some st.pid

/-- What the commands that skip the derivation of the overlay are asked. When `D`,
    the overlay is to stay the one the display wants. -/
def Allowed (D : Prop) (s : Store) : Verb → String → Prop
  | .kill, args | .taskKill, args => ∀ st, s.app args = some st → s.primary.Spares D st.pid
  | .registerChrome, args => ∀ p, chromePid args = some p → s.primary.Spares D p
  | .setIme, args => D → ∀ ime v info, designated args s = some ime →
      s.primary.imeEditor = some (v, info) → s.primary.visibleApp = some v →
        ime.filter (fun i => i ≠ v) = s.primary.activeIme.filter fun i => i ≠ v
  | .overlay, args => ¬ D ∧ ∀ st, s.app args = some st → ∀ o b,
      s.primary.roleOf o = some .overlay → s.primary.roleOf b = some .overlayBehind →
        st.pid = o ∨ st.pid = b
  | .overlayClear, _ => ¬ D
  | _, _ => True

omit [Fpu] in
theorem cmdSetIme_staged (h : c.store.primary.Staged D) (ha : Allowed D c.store .setIme args) :
    (cmdSetIme c args).1.store.primary.Staged D := by
  have hnew (ime : Option Pid) (hime : designated args c.store = some ime) :
      { c.store.primary with activeIme := ime }.Staged D := by
    obtain ⟨st, h, hD⟩ := h
    refine ⟨st, h.congr rfl, fun hD' => (hD hD').trans ?_⟩
    exact overlayDesired_of_filter fun v info he hv => (ha hD' ime v info hime he hv).symm
  unfold cmdSetIme
  split
  · exact h
  · next hne =>
    dsimp only
    split
    · next hdash => simpa using hnew none (by simp [designated, hdash])
    · next hdash =>
      split
      · exact h
      · next st hst => simpa using hnew (some st.pid) (by simp [designated, hne, hdash, hst])

omit [Fpu] in
theorem cmdKill_staged (h : c.store.primary.Staged D) (ha : Allowed D c.store .kill args) :
    (cmdKill c args).1.store.primary.Staged D := by
  unfold cmdKill
  split
  · exact h
  · split
    · exact h
    · next st hst => exact killApp_staged h (ha st hst)

omit [Fpu] in
theorem cmdTaskKill_staged (h : c.store.primary.Staged D) (ha : Allowed D c.store .taskKill args) :
    (cmdTaskKill c args).1.store.primary.Staged D := by
  unfold cmdTaskKill
  split
  · exact h
  · split
    · exact h
    · next st hst =>
      split
      · exact h
      · exact killApp_staged h (ha st hst)

theorem cmdRegisterChrome_staged (h : c.store.primary.Staged D)
    (ha : Allowed D c.store .registerChrome args) :
    (cmdRegisterChrome clock c args).1.store.primary.Staged D := by
  unfold cmdRegisterChrome
  split
  · next appId pidS parts hargs =>
    split
    · exact h
    · next p hp =>
      have hspare : c.store.primary.Spares D p := ha p (by simp [chromePid, hargs, hp])
      have hput : (c.store.primary.putSurface p appId .chrome).Staged D :=
        h.leave hspare (fun _ => shown_putSurface_of_off rfl) (.inl (by simp)) (.inl (by simp))
      dsimp only
      split
      · next e _ => simpa using hput.setChromeAnchor
      · simpa using hput
  · exact h

omit [Fpu] in
theorem cmdForeground_staged (h : c.store.primary.Staged D)
    (hp : (cmdForeground c args).1.panicked = false) :
    (cmdForeground c args).1.store.primary.Staged D := by
  have ⟨st, hst, _⟩ := h
  revert hp
  unfold cmdForeground
  split
  · exact fun _ => h
  · split
    · exact fun _ => h
    · exact promoteToForeground_staged hst

omit [Fpu] in
/-- The overlay is derived again after a change of the editor. -/
theorem reconcileOverlay_of_editor (c' : Ctx) (h : c.store.primary.Staged D)
    (hs : c'.store.primary.surfaces = c.store.primary.surfaces)
    (hi : c'.store.primary.activeIme = c.store.primary.activeIme)
    (hp : (reconcileOverlay c').panicked = false) :
    (reconcileOverlay c').store.primary.Staged D := by
  obtain ⟨st, h, hD⟩ := h
  refine reconcileOverlay_staged (h.congr hs) (fun hD' o i ho hw => ?_) hp
  have hime : c'.store.primary.activeIme = some i := (overlayDesired_eq_some_iff.mp hw).1
  have hw' : c.store.primary.overlayDesired = some o := (hD hD').symm.trans ho
  rw [hi, (overlayDesired_eq_some_iff.mp hw').1] at hime
  exact Option.some.inj hime

omit [Fpu] in
theorem attachEditor_staged {p : Pid} {o : AppState} {ty hint text : String}
    (h : c.store.primary.Staged D) (hp : (attachEditor c p o ty hint text).1.panicked = false) :
    (attachEditor c p o ty hint text).1.store.primary.Staged D := by
  revert hp
  unfold attachEditor
  dsimp only
  have hr := reconcileOverlay_of_editor (D := D) (c.modifyPrimary fun d =>
    { d with imeEditor := some (p, ⟨ty, hint, text, 0, 0⟩) }) h (by simp) (by simp)
  split
  · split <;> exact hr
  · exact hr

omit [Fpu] in
theorem detachEditor_staged {p : Pid} (h : c.store.primary.Staged D)
    (hp : (detachEditor c p).1.panicked = false) :
    (detachEditor c p).1.store.primary.Staged D := by
  revert hp
  unfold detachEditor
  dsimp only
  have hr := reconcileOverlay_of_editor (D := D) (c.modifyPrimary fun d =>
    { d with imeEditor := none }) h (by simp) (by simp)
  split <;> exact hr

omit [Fpu] in
theorem cmdBack_staged (h : c.store.primary.Staged D) (hp : (cmdBack c).1.panicked = false) :
    (cmdBack c).1.store.primary.Staged D := by
  revert hp
  unfold cmdBack
  split
  · dsimp only
    split
    · exact reconcileOverlay_of_editor _ h (by rw [primary_dropEditorFocusOf])
        (by rw [primary_dropEditorFocusOf])
    · exact reconcileOverlay_of_editor _ h rfl rfl
  · split
    · exact fun _ => h
    · exact fun _ => h

omit [Fpu] in
theorem cmdCycleTask_staged (h : c.store.primary.Staged D)
    (hp : (cmdCycleTask c).1.panicked = false) : (cmdCycleTask c).1.store.primary.Staged D := by
  have ⟨st, hst, _⟩ := h
  revert hp
  unfold cmdCycleTask
  dsimp only
  split
  · exact fun _ => h
  · split
    · exact fun _ => h
    · exact promoteToForeground_staged hst

omit [Fpu] in
theorem cmdOverlay_staged (h : c.store.primary.Staged D) (ha : Allowed D c.store .overlay args) :
    (cmdOverlay c args).1.store.primary.Staged D := by
  have ⟨st, hst, _⟩ := h
  unfold cmdOverlay
  split
  · exact h
  · split
    · exact h
    · next ime hime =>
      obtain ⟨st', hst'⟩ := promoteToOverlay_onStage (a := ime.appId) (p := ime.pid) hst
        fun o b ho hb => ha.2 ime hime o b (hst.roleOf_overlay.mpr ho)
          (hst.roleOf_overlayBehind.mpr hb)
      exact ⟨st', hst', fun hD => absurd hD ha.1⟩

omit [Fpu] in
theorem cmdOverlayClear_staged (h : c.store.primary.Staged D)
    (ha : Allowed D c.store .overlayClear args) :
    (cmdOverlayClear c).1.store.primary.Staged D := by
  obtain ⟨st, hst, -⟩ := h
  have hdown := demoteFromOverlay_onStage hst
  unfold cmdOverlayClear
  split
  · next heq =>
    rw [heq] at hdown
    exact ⟨_, hdown, fun hD => absurd hD ha⟩
  · next heq =>
    rw [heq] at hdown
    exact ⟨_, hdown, fun hD => absurd hD ha⟩

/-- A command of the shell keeps the display on a stage. -/
theorem onCommand_staged (verb : Verb) (args : String) (h : c.store.primary.Staged D)
    (ha : Allowed D c.store verb args) (hp : (onCommand clock verb args c).1.panicked = false) :
    (onCommand clock verb args c).1.store.primary.Staged D := by
  cases verb with
  | foreground => exact cmdForeground_staged h hp
  | registerChrome => exact cmdRegisterChrome_staged h ha
  | kill => exact cmdKill_staged h ha
  | setIme => exact cmdSetIme_staged h ha
  | attachEditor =>
    revert hp
    simp only [onCommand]
    unfold cmdAttachEditor
    split
    · exact fun _ => h
    · split
      · exact fun _ => h
      · split
        · exact fun _ => h
        · exact attachEditor_staged h
  | detachEditor =>
    revert hp
    simp only [onCommand]
    unfold cmdDetachEditor
    dsimp only
    split
    · exact fun _ => h
    · split
      · exact fun _ => h
      · split
        · exact fun _ => h
        · exact detachEditor_staged h
  | imeOverlayHeight =>
    simp only [onCommand]
    unfold cmdImeOverlayHeight
    split
    · exact h
    · exact h
  | ime route =>
    simp only [onCommand]
    unfold cmdImeRoute
    split
    · exact h
    · split
      · split <;> exact h
      · exact h
  | back => exact cmdBack_staged h hp
  | cycleTask => exact cmdCycleTask_staged h hp
  | overlay => exact cmdOverlay_staged h ha
  | overlayClear => exact cmdOverlayClear_staged h ha
  | list => exact h
  | taskList => exact h
  | taskKill => exact cmdTaskKill_staged h ha

end Shell

/-! ## The cascade -/

namespace Arbiter

open DisplayState

variable {D : Prop} {clock : Clock} {reg : Registry} {a a₀ : Arbiter} {fx : List Effect}

/-- The display is on a stage, unless a handler failed an expectation. -/
def OnStage (D : Prop) (a : Arbiter) (_ : List Effect) : Prop :=
  a.panicked = false → a.store.primary.Staged D

/-- The events a command of the shell can start a cascade with: none of them puts
    the screen to sleep. -/
def Calm (e : Event) : Prop := e.rank ≤ 1

/-- No module leaves the stage in reaction to such an event. -/
theorem onEvent_staged {id : ModuleId} {e : Event} {m : Modules} {s : Store} (he : Calm e)
    (h : s.primary.Staged D) (hp : (m.onEvent clock id e { store := s }).2.panicked = false) :
    (m.onEvent clock id e { store := s }).2.store.primary.Staged D := by
  by_cases hid : id.isAside
  · exact h.agree (Modules.onEvent_aside (c := { store := s }) hid).store
  · cases id with
    | shell =>
      obtain ⟨st, hst, hD⟩ := h
      cases e with
      | surfaceRemoved p => exact Shell.onSurfaceRemoved_staged ⟨st, hst, hD⟩
      | foregroundChanged => exact Shell.onForegroundChanged_staged hst hD hp
      | _ => exact ⟨st, hst, hD⟩
    | keyguard =>
      cases e with
      | screenState live => simp [Calm, Event.rank] at he
      | _ => exact h
    | _ => simp [ModuleId.isAside] at hid

theorem handler_staged (id : ModuleId) : Bus.Keeps (OnStage D) Calm (handler clock id) where
  inv he hJ hp := by
    obtain ⟨hp, hp'⟩ := Bool.or_eq_false_iff.mp hp
    exact onEvent_staged he (hJ hp) hp'
  emits he _ e' he' := by
    have := handler_ranked id _ _ e' he'
    unfold Calm at he ⊢
    omega

/-! ## Runs -/

/-- The commands of the shell, under their conditions, and the two events. -/
def OfShell (D : Prop) (a : Arbiter) : Stimulus → Prop
  | .command (.shell v) args => Shell.Allowed D a.store v args
  | .inject (.surfaceRemoved _) | .inject (.foregroundChanged ..) => True
  | _ => False

theorem command_staged {v : Shell.Verb} {args : String} (h : a.store.primary.Staged D)
    (ha : Shell.Allowed D a.store v args)
    (hp : (a.command reg clock (.shell v) args).1.panicked = false) :
    (a.command reg clock (.shell v) args).1.store.primary.Staged D := by
  refine command_keeps (J := OnStage D) (E := Calm) (fun id _ => handler_staged id) ?_ ?_ hp
  · intro hp'
    obtain ⟨-, hp'⟩ := Bool.or_eq_false_iff.mp hp'
    exact Shell.onCommand_staged v args h ha hp'
  · have hw : Ctx.Within Store.Anyhow (ModuleId.mayEmit .shell) (ModuleId.mayRequest .shell)
        { store := a.store } (Shell.onCommand clock v args { store := a.store }).1 :=
      Shell.onCommand_within
    intro e he
    have := hw.forall_events rfl e he
    cases e <;> simp_all [ModuleId.mayEmit, Calm, Event.rank]

theorem inject_staged {e : Event} (he : Calm e) (h : a.store.primary.Staged D)
    (hp : (a.inject reg clock e).1.panicked = false) :
    (a.inject reg clock e).1.store.primary.Staged D :=
  inject_keeps (J := OnStage D) (E := Calm) (fun id _ => handler_staged id) (fun _ => h) he hp

/-- A run of the shell keeps the display on a stage. -/
theorem Run.staged (h₀ : a₀.store.primary.Staged D) (h : Run reg (OfShell D) a₀ a fx) :
    a.store.primary.Staged D := by
  refine h.invariant (J := fun a _ => a.store.primary.Staged D) h₀ fun clock i hJ hi hp => ?_
  unfold OfShell at hi
  split at hi
  · rw [respond_command] at hp ⊢
    exact command_staged hJ hi hp
  · exact inject_staged (by simp [Calm, Event.rank]) hJ hp
  · exact inject_staged (by simp [Calm, Event.rank]) hJ hp
  · exact hi.elim

/-- A display with no surface on stage. -/
def Offstage (d : DisplayState) : Prop :=
  ∀ p r, d.roleOf p = some r → r = .background ∨ r = .chrome ∨ r = .headless

omit [Fpu] in
theorem Offstage.staged {d : DisplayState} (h : Offstage d) : d.Staged D := by
  have hst : d.OnStage .empty := by
    intro p
    rw [Stage.role, shown, Option.filter_eq_none_iff]
    intro r hr
    rcases h p r hr with rfl | rfl | rfl <;> simp [Role.onStage]
  refine ⟨.empty, hst, fun _ => ?_⟩
  cases hw : d.overlayDesired with
  | none => rfl
  | some i =>
    obtain ⟨-, v, -, -, hv, -⟩ := overlayDesired_eq_some_iff.mp hw
    rw [hst.visibleApp] at hv
    cases hv

/-- In any run of the shell under its conditions at most one surface has each of
    the roles on stage, an app is behind an overlay only, and an overlay never comes
    with an app in the foreground. -/
theorem role_discipline (h₀ : Offstage a₀.store.primary) (h : Run reg (OfShell False) a₀ a fx) :
    a.store.primary.Disciplined := by
  obtain ⟨st, hst, -⟩ := h.staged h₀.staged
  exact hst.disciplined

/-- In any run of the shell without the manual verbs, and under its conditions, the
    overlay is the input method the display wants, when it wants one. -/
theorem overlay_derived (h₀ : Offstage a₀.store.primary) (h : Run reg (OfShell True) a₀ a fx)
    (p : Pid) :
    a.store.primary.roleOf p = some .overlay ↔ a.store.primary.overlayDesired = some p := by
  obtain ⟨st, hst, hD⟩ := h.staged h₀.staged
  rw [hst.roleOf_overlay, hD trivial]

/-- Any command of the shell, and the two events. -/
def ShellStimulus : Stimulus → Prop
  | .command (.shell _) _ => True
  | .inject (.surfaceRemoved _) | .inject (.foregroundChanged ..) => True
  | _ => False

/-- A verb of the shell set by hand. -/
def Manual : Stimulus → Prop
  | .command (.shell .overlay) _ | .command (.shell .overlayClear) _ => True
  | _ => False

end Arbiter

end

section

attribute [local instance] Fpu.comparator

namespace Arbiter

/-- A run that registers an app and shows it. -/
theorem role_discipline_shown :
    let a := respondAll buildRegistry ⟨0, 0⟩ {} [.command (.shell .registerChrome) "a 1 -",
      .command (.shell .foreground) "a"]
    a.1.store.primary.roleOf 1 = some .foreground ∧ a.1.store.primary.Disciplined := by
  intro a
  have h₀ : Offstage ({} : Arbiter).store.primary := fun p r h => nomatch h
  have h : Run buildRegistry (OfShell False) {} a.1 ([] ++ a.2) := by
    exact Run.start.respondAll ⟨fun p _ => .of_none (by decide) (by decide), by decide, trivial,
      by decide, trivial⟩
  exact ⟨by decide, role_discipline h₀ h⟩

/-- A run that kills the input method while its overlay is up: the app stays behind
    no overlay. -/
theorem killed_overlay :
    ∃ a fx, Run buildRegistry (fun _ => ShellStimulus) {} a fx ∧ ¬ a.store.primary.Disciplined := by
  let a := respondAll buildRegistry ⟨0, 0⟩ {} [.command (.shell .registerChrome) "a 1 -",
    .command (.shell .registerChrome) "k 2 -", .command (.shell .foreground) "a",
    .command (.shell .overlay) "k", .command (.shell .kill) "k"]
  refine ⟨a.1, [] ++ a.2, Run.start.respondAll ⟨trivial, by decide, trivial, by decide, trivial,
    by decide, trivial, by decide, trivial, by decide, trivial⟩, fun h => ?_⟩
  have hb : a.1.store.primary.roleOf 1 = some .overlayBehind := by decide
  have ho : a.1.store.primary.firstWithRole .overlay = none := by decide
  obtain ⟨q, hq⟩ := h.behind 1 hb
  exact DisplayState.firstWithRole_eq_none_iff.mp ho q hq

/-- A run in which an editor comes into focus before there is an input method. -/
theorem overlay_derived_attached :
    let a := respondAll buildRegistry ⟨0, 0⟩ {} [.command (.shell .registerChrome) "a 1 -",
      .command (.shell .registerChrome) "k 2 -", .command (.shell .setIme) "k",
      .command (.shell .foreground) "a", .command (.shell .attachEditor) "1 text"]
    a.1.store.primary.overlayDesired = some 2 ∧ a.1.store.primary.roleOf 2 = some .overlay := by
  intro a
  have h₀ : Offstage ({} : Arbiter).store.primary := fun p r h => nomatch h
  have h : Run buildRegistry (OfShell True) {} a.1 ([] ++ a.2) := by
    refine Run.start.respondAll ⟨fun p _ => .of_none (by decide) (by decide), by decide,
      fun p _ => .of_none (by decide) (by decide), by decide, fun _ ime v info _ he => ?_,
      by decide, trivial, by decide, trivial, by decide, trivial⟩
    cases he
  have hw : a.1.store.primary.overlayDesired = some 2 := by decide
  exact ⟨hw, (overlay_derived h₀ h 2).mpr hw⟩

/-- A run that designates the input method after an editor came into focus: its
    overlay is wanted, and nothing shows it. -/
theorem stale_ime :
    ∃ a fx, Run buildRegistry (fun _ i => ShellStimulus i ∧ ¬ Manual i) {} a fx ∧
      a.store.primary.overlayDesired = some 2 ∧ ∀ p, a.store.primary.roleOf p ≠ some .overlay := by
  let a := respondAll buildRegistry ⟨0, 0⟩ {} [.command (.shell .registerChrome) "a 1 -",
    .command (.shell .registerChrome) "k 2 -", .command (.shell .foreground) "a",
    .command (.shell .attachEditor) "1 text", .command (.shell .setIme) "k"]
  refine ⟨a.1, [] ++ a.2, Run.start.respondAll ⟨⟨trivial, id⟩, by decide, ⟨trivial, id⟩, by decide,
    ⟨trivial, id⟩, by decide, ⟨trivial, id⟩, by decide, ⟨trivial, id⟩, by decide, trivial⟩,
    by decide, ?_⟩
  exact DisplayState.firstWithRole_eq_none_iff.mp (by decide)

end Arbiter

end

end Wandr
