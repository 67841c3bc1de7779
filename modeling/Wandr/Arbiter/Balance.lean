import Wandr.Arbiter.Doze
import Wandr.Arbiter.Touch

/-!
# The balance of suppressions

A process is left with its touch suppressed by the keyguard while the device is locked
over it, by the power menu while that is open over it, and by the power module while the
panel is blanked. Whatever of these was the last to lift its suppression, the touch of
every running app comes back, as long as no number of a process told of its touch is given
to another one.

* `Arbiter.handler_due` and `Arbiter.handle_due`: a suppressed app is due to one of the
  three;
* `Arbiter.handler_unknown` and `Arbiter.handle_unknown`: a process that nobody heard of
  stays that way until it is registered;
* `Daemon.no_dead_touch`: with the device unlocked, no power menu and no blank, no running
  app is left without touch.
-/

namespace Wandr

variable {p : Pid} {fx gx : List Effect}

namespace Store

variable {s s' : Store}

/-- Placing surfaces of running apps places none of another process. -/
theorem Places.unplaced (h : Places s.Tracks s s') (ht : ¬ s.Tracks p)
    (hr : s.primary.roleOf p = none) : s'.primary.roleOf p = none := by
  by_contra hn
  rcases h.2 p (Option.isSome_iff_ne_none.mpr hn) with hp | hp
  · simp [hr] at hp
  · exact ht hp

end Store

section

variable [Fpu]

namespace Arbiter

variable {clock : Clock} {a : Arbiter} {e : Event} {id : ModuleId} {verb : Verb} {args : String}

/-- Something keeps the touch of the process suppressed. -/
def Holds (a : Arbiter) (p : Pid) : Prop :=
  a.mods.keyguard.locked = true ∧ a.mods.keyguard.suppressedPid = some p ∨
    a.mods.keyguard.menuShown = true ∧ a.mods.keyguard.menuSuppressedPid = some p ∨
      a.mods.power.blanked = true

/-- The touch of a running app is suppressed only while something keeps it that way. -/
def Due (a : Arbiter) (fx : List Effect) : Prop :=
  ∀ p, a.store.Tracks p → suppressed p fx = true → a.Holds p

/-- Nobody has heard of the process. -/
structure Unknown (p : Pid) (a : Arbiter) (fx : List Effect) : Prop where
  untracked : ¬ a.store.Tracks p
  unplaced : a.store.primary.roleOf p = none
  uncovered : a.mods.keyguard.suppressedPid ≠ some p
  unmenued : a.mods.keyguard.menuSuppressedPid ≠ some p
  untold : ∀ b, Trace.last (Effect.touch p) b fx = b

/-! ## Reactions -/

/-- A reaction registers no process. -/
theorem tracks_of_handler (h : (handler clock id e a).state.store.Tracks p) :
    a.store.Tracks p := by
  by_cases he : ∃ q, e = .surfaceRemoved q
  · obtain ⟨q, rfl⟩ := he
    by_cases hid : id = .shell
    · subst hid
      obtain ⟨app, happ, rfl⟩ := h
      have hs : a.store.Sheds (handler clock .shell (.surfaceRemoved q) a).state.store :=
        Shell.onSurfaceRemoved_sheds
      exact ⟨app, hs app happ, rfl⟩
    · exact (Store.tracks_congr (handler_sameApps_of_ne hid).apps).mp h
  · exact (Store.tracks_congr (handler_sameApps id fun q hq => he ⟨q, hq⟩).apps).mp h

theorem handler_mods (clock : Clock) (hp : id ≠ .power) (hk : id ≠ .keyguard) :
    (handler clock id e a).state.mods.power = a.mods.power ∧
      (handler clock id e a).state.mods.keyguard = a.mods.keyguard := by
  cases id <;> first | exact ⟨rfl, rfl⟩ | exact absurd rfl hp | exact absurd rfl hk

theorem handler_touch (hp : id ≠ .power) (hk : id ≠ .keyguard) {b : Bool} :
    Trace.last (Effect.touch p) b (handler clock id e a).effects = b :=
  Trace.last_of_silent fun f hf => ModuleId.touch_of_mayRequest hp hk (handler_requests f hf) p

omit [Fpu] in
/-- What is due stays due when the keyguard locks. -/
theorem doLock_due {b : Bool} (h : b = true → a.Holds p) :
    let r := a.mods.keyguard.doLock { store := a.store }
    Trace.last (Effect.touch p) b r.2.1.effects = true →
      Holds { a with mods := { a.mods with keyguard := r.1 } } p := by
  intro r hs
  rcases KeyguardModule.doLock_touch (m := a.mods.keyguard) (c := { store := a.store }) with
    ⟨he, hfx⟩ | ⟨hl, ⟨savedFg, he⟩, gx, hgx, ht⟩
  · have hfx' : r.2.1.effects = [] := hfx
    rw [hfx'] at hs
    have he' : r.1 = a.mods.keyguard := he
    rw [he']
    exact h hs
  · have hgx' : r.2.1.effects = gx := hgx
    have he' : r.1 = _ := he
    rw [hgx', ht] at hs
    rw [he']
    split at hs
    · next hv => exact .inl ⟨rfl, by simp [hv]⟩
    · rcases h hs with ⟨hlocked, -⟩ | hm
      · rw [hl] at hlocked
        cases hlocked
      · exact .inr hm

/-- A reaction keeps every suppression due. -/
theorem handler_due : Bus.Keeps (fun a gx => Due a (fx ++ gx)) (fun _ => True)
    (handler clock id) where
  emits _ _ _ _ := trivial
  inv := by
    intro e a gx _ h p hp hs
    have ht := tracks_of_handler hp
    rw [← List.append_assoc, suppressed_append] at hs
    by_cases hpw : id = .power
    · subst hpw
      have hfx : (handler clock .power e a).effects =
        (a.mods.power.onEvent clock e { store := a.store }).2.effects := rfl
      have hm : (handler clock .power e a).state.mods.power =
        (a.mods.power.onEvent clock e { store := a.store }).1 := rfl
      have hk : (handler clock .power e a).state.mods.keyguard = a.mods.keyguard := rfl
      rw [hfx] at hs
      rw [Holds, hk, hm]
      rcases PowerModule.onEvent_touch clock (m := a.mods.power)
        (c := { store := a.store }) (e := e) with ⟨hb, fx', hfx', hsil⟩ |
          ⟨hb, fx', hfx', hsw⟩ | ⟨-, hb, fx', hfx', hsw⟩
      · rw [hfx', List.nil_append, Trace.last_of_silent fun f hf => hsil f hf p] at hs
        rw [hb]
        exact h p ht hs
      · exact .inr (.inr hb)
      · rw [hfx', List.nil_append, hsw, if_pos (PowerModule.mem_pids.mpr ht)] at hs
        cases hs
    by_cases hkg : id = .keyguard
    · subst hkg
      have hfx : (handler clock .keyguard e a).effects =
        (a.mods.keyguard.onEvent e { store := a.store }).2.effects := rfl
      have hm : (handler clock .keyguard e a).state.mods.keyguard =
        (a.mods.keyguard.onEvent e { store := a.store }).1 := rfl
      have hk : (handler clock .keyguard e a).state.mods.power = a.mods.power := rfl
      rw [hfx] at hs
      rw [Holds, hk, hm]
      rcases KeyguardModule.onEvent_touch (m := a.mods.keyguard) (c := { store := a.store })
        (e := e) with ⟨savedFg, menuSavedFg, he, hn⟩ | ⟨he, hn⟩
      · rw [hn, Trace.last_nil] at hs
        rw [he]
        exact h p ht hs
      · rw [hn] at hs
        rw [he]
        exact doLock_due (h p ht) hs
    · rw [handler_touch hpw hkg] at hs
      obtain ⟨hm, hk⟩ := handler_mods clock hpw hkg (e := e) (a := a)
      rw [Holds, hm, hk]
      exact h p ht hs

/-! ## Commands -/

/-- A command registers no process but a chrome one. -/
theorem tracks_of_handle (h : (a.handle clock verb args).1.state.store.Tracks p) :
    a.store.Tracks p ∨ verb = .shell .registerChrome ∧
      ∃ e, Shell.chromeEntry args = some e ∧ e.2 = p := by
  have hf (hR : ∀ p ∈ verb.owner.parts, Store.Allows Store.SameApps p) :
      a.store.SameApps (a.handle clock verb args).1.state.store :=
    (Modules.onCommand_frame (c := { store := a.store }) Store.SameApps hR).store
  cases verb with
  | shell v =>
    exact (Shell.onCommand_tracks (c := { store := a.store }) h).imp_right fun ⟨hv, he⟩ =>
      ⟨by rw [hv], he⟩
  | _ =>
    refine .inl ((Store.tracks_congr (hf ?_).apps).mp h)
    intro q hq
    simp only [Verb.owner, ModuleId.parts, List.mem_singleton, List.not_mem_nil] at hq <;>
      subst hq <;> infer_instance

theorem handle_mods (clock : Clock) (args : String) (hp : verb.owner ≠ .power)
    (hk : verb.owner ≠ .keyguard) :
    (a.handle clock verb args).1.state.mods.power = a.mods.power ∧
      (a.handle clock verb args).1.state.mods.keyguard = a.mods.keyguard := by
  cases verb <;> first | exact ⟨rfl, rfl⟩ | exact absurd rfl hp | exact absurd rfl hk

theorem handle_touch (hp : verb.owner ≠ .power) (hk : verb.owner ≠ .keyguard) {b : Bool} :
    Trace.last (Effect.touch p) b (a.handle clock verb args).1.effects = b := by
  have hw : Ctx.Within Store.Anyhow verb.owner.mayEmit verb.owner.mayRequest
      { store := a.store } (a.mods.onCommand clock verb args { store := a.store }).2.1 :=
    Modules.onCommand_within
  exact Trace.last_of_silent fun f hf =>
    ModuleId.touch_of_mayRequest hp hk (hw.forall_effects rfl f hf) p

/-- No command of the power module tells an app of its touch. -/
theorem handle_power (clock : Clock) (args : String) {v : PowerModule.Verb} {b : Bool} :
    (a.handle clock (.power v) args).1.state.mods.power.blanked = a.mods.power.blanked ∧
      Trace.last (Effect.touch p) b (a.handle clock (.power v) args).1.effects = b := by
  obtain ⟨hb, gx, hgx, hs⟩ := PowerModule.onCommand_untouched clock args
    (m := a.mods.power) (c := { store := a.store })
  have hfx : (a.handle clock (.power v) args).1.effects = gx := hgx
  rw [hfx]
  exact ⟨hb, Trace.last_of_silent fun f hf => hs f hf p⟩

omit [Fpu] in
/-- What is due stays due when a command of the keyguard is served. -/
theorem onCommand_keyguard_due {v : KeyguardModule.Verb} {b : Bool} (h : b = true → a.Holds p) :
    let r := a.mods.keyguard.onCommand v { store := a.store }
    Trace.last (Effect.touch p) b r.2.1.effects = true →
      Holds { a with mods := { a.mods with keyguard := r.1 } } p := by
  intro r hs
  cases v with
  | lock => exact doLock_due h hs
  | unlock =>
    rcases KeyguardModule.doUnlock_touch (m := a.mods.keyguard) (c := { store := a.store }) with
      ⟨he, hfx, -⟩ | ⟨he, gx, hgx, ht⟩
    · have hfx' : r.2.1.effects = [] := hfx
      have he' : r.1 = a.mods.keyguard := he
      rw [hfx'] at hs
      rw [he']
      exact h hs
    · have hgx' : r.2.1.effects = gx := hgx
      have he' : r.1 = _ := he
      rw [hgx', ht] at hs
      rw [he']
      split at hs
      · cases hs
      · next hv => exact (h hs).imp_left fun hl => absurd hl.2 hv
  | powerMenu =>
    rcases KeyguardModule.doShowMenu_touch (m := a.mods.keyguard) (c := { store := a.store }) with
      ⟨he, hfx⟩ | ⟨hm, ⟨menuSavedFg, covered, he⟩, gx, hgx, ht⟩
    · have hfx' : r.2.1.effects = [] := hfx
      have he' : r.1 = a.mods.keyguard := he
      rw [hfx'] at hs
      rw [he']
      exact h hs
    · have hgx' : r.2.1.effects = gx := hgx
      have he' : r.1 = _ := he
      rw [hgx', ht] at hs
      rw [he']
      split at hs
      · next hv => exact .inr (.inl ⟨rfl, by simp [hv]⟩)
      · refine (h hs).imp_right fun h => h.imp_left fun ⟨hshown, _⟩ => ?_
        rw [hm] at hshown
        cases hshown
  | pmDismiss =>
    rcases KeyguardModule.doHideMenu_touch (m := a.mods.keyguard) (c := { store := a.store }) with
      ⟨he, ⟨gx, hgx, hsil⟩, -⟩ | ⟨-, he, gx, hgx, ht⟩
    · have hgx' : r.2.1.effects = gx := hgx
      have he' : r.1 = a.mods.keyguard := he
      rw [hgx', Trace.last_of_silent fun f hf => hsil f hf p] at hs
      rw [he']
      exact h hs
    · have hgx' : r.2.1.effects = gx := hgx
      have he' : r.1 = _ := he
      rw [hgx', ht] at hs
      rw [he']
      split at hs
      · cases hs
      · next hv => exact (h hs).imp_right fun h => h.imp_left fun hm => absurd hm.2 hv

/-- A command by itself keeps every suppression due, if the process that it registers was
    not told of its touch before. -/
theorem handle_due (h : Due a fx) (hc : verb = .shell .registerChrome → ∀ e,
      Shell.chromeEntry args = some e → a.store.Tracks e.2 ∨ suppressed e.2 fx = false) :
    Due (a.handle clock verb args).1.state (fx ++ (a.handle clock verb args).1.effects) := by
  intro p hp hs
  rw [suppressed_append] at hs
  have hold (hb : suppressed p fx = true) : a.Holds p := by
    rcases tracks_of_handle hp with ht | ⟨hv, e, he, rfl⟩
    · exact h p ht hb
    · rcases hc hv e he with ht | hn
      · exact h _ ht hb
      · rw [hn] at hb
        cases hb
  cases verb with
  | power v =>
    obtain ⟨hb, ht⟩ := handle_power clock args (a := a) (v := v)
      (b := suppressed p fx) (p := p)
    rw [ht] at hs
    rw [Holds, hb]
    exact hold hs
  | keyguard v => exact onCommand_keyguard_due hold hs
  | _ =>
    rw [handle_touch (by simp [Verb.owner]) (by simp [Verb.owner])] at hs
    exact hold hs

/-! ## Processes nobody heard of -/

/-- A reaction places no surface of a process nobody heard of. -/
theorem handler_unplaced (clock : Clock) (id : ModuleId) (e : Event) (ht : ¬ a.store.Tracks p)
    (hr : a.store.primary.roleOf p = none) :
    (handler clock id e a).state.store.primary.roleOf p = none := by
  have hf (hR : ∀ q ∈ id.parts, Store.Allows (Store.Places a.store.Tracks) q) :
      (handler clock id e a).state.store.primary.roleOf p = none :=
    Store.Places.unplaced (Modules.onEvent_frame (c := { store := a.store }) _ hR).store ht hr
  cases id with
  | shell =>
    cases e with
    | surfaceRemoved q =>
      obtain ⟨s₁, hs₁, hs⟩ := Shell.onSurfaceRemoved_spec (c := { store := a.store }) q
      have hn : s₁.primary.roleOf p = none := (hs₁ (Store.Places a.store.Tracks)).unplaced ht hr
      have hst : (handler clock .shell (.surfaceRemoved q) a).state.store = _ := hs
      rw [hst, Store.primary_modifyDisplay, DisplayState.roleOf_removeSurface]
      split
      · rfl
      · split
        · exact hn
        · exact hn
    | foregroundChanged f q =>
      exact Store.Places.unplaced
        (Shell.onForegroundChanged_within (E := fun _ => True) fun _ => trivial).store ht hr
    | _ => exact hr
  | keyguard =>
    exact Store.Places.unplaced
      (KeyguardModule.onEvent_within (c := { store := a.store }) Store.tracks_of_mem e).store ht hr
  | _ =>
    refine hf fun q hq => ?_
    simp only [ModuleId.parts, List.mem_singleton, List.not_mem_nil] at hq <;> subst hq <;>
      infer_instance

omit [Fpu] in
theorem visibleApp_ne (h : a.store.primary.roleOf p = none) :
    KeyguardModule.visibleApp a.store ≠ some p := by
  intro hv
  have hv' : a.store.primary.visibleApp = some p := Store.bind_display_visibleApp.symm.trans hv
  rcases DisplayState.roleOf_visibleApp hv' with hr | ⟨hr, -⟩ <;> simp [h] at hr

omit [Fpu] in
/-- Covering the visible app covers no process without a surface. -/
theorem covered_ne {o : Option Pid} (hr : a.store.primary.roleOf p = none) (ho : o ≠ some p) :
    (KeyguardModule.visibleApp a.store).or o ≠ some p := by
  cases hv : KeyguardModule.visibleApp a.store with
  | none => simpa using ho
  | some q =>
    have := visibleApp_ne hr
    simpa [hv] using this

omit [Fpu] in
/-- What a piece of a handler tells of touch to apps that are not this one. -/
theorem tells_ne {c c' : Ctx} {o : Option Pid} {on b : Bool} (h : KeyguardModule.Tells o on c c')
    (hc : c.effects = []) (ho : o ≠ some p) :
    Trace.last (Effect.touch p) b c'.effects = b := by
  obtain ⟨gx, hgx, ht⟩ := h
  rw [hgx, hc, List.nil_append, ht, if_neg ho]

omit [Fpu] in
theorem doLock_unknown (h : Unknown p a fx) :
    let r := a.mods.keyguard.doLock { store := a.store }
    r.1.suppressedPid ≠ some p ∧ r.1.menuSuppressedPid ≠ some p ∧
      ∀ b, Trace.last (Effect.touch p) b r.2.1.effects = b := by
  intro r
  rcases KeyguardModule.doLock_touch (m := a.mods.keyguard) (c := { store := a.store }) with
    ⟨he, hfx⟩ | ⟨-, ⟨savedFg, he⟩, ht⟩
  · have he' : r.1 = a.mods.keyguard := he
    have hfx' : r.2.1.effects = [] := hfx
    rw [he', hfx']
    exact ⟨h.uncovered, h.unmenued, fun _ => rfl⟩
  · have he' : r.1 = _ := he
    rw [he']
    exact ⟨covered_ne h.unplaced h.uncovered, h.unmenued,
      fun b => tells_ne ht rfl (visibleApp_ne h.unplaced)⟩

/-- A reaction leaves a process that nobody heard of unknown. -/
theorem handler_unknown : Bus.Keeps (fun a gx => Unknown p a (fx ++ gx)) (fun _ => True)
    (handler clock id) where
  emits _ _ _ _ := trivial
  inv := by
    intro e a gx _ h
    have ht : ¬ (handler clock id e a).state.store.Tracks p :=
      fun hp => h.untracked (tracks_of_handler hp)
    have hr := handler_unplaced clock id e h.untracked h.unplaced
    have hlast {gx' : List Effect} (hs : ∀ b, Trace.last (Effect.touch p) b gx' = b) (b : Bool) :
        Trace.last (Effect.touch p) b (fx ++ (gx ++ gx')) = b := by
      rw [← List.append_assoc, Trace.last_append, hs, h.untold]
    by_cases hpw : id = .power
    · subst hpw
      refine ⟨ht, hr, h.uncovered, h.unmenued, hlast fun b => ?_⟩
      have hn : p ∉ PowerModule.pids a.store := fun hm => h.untracked (PowerModule.mem_pids.mp hm)
      have hfx : (handler clock .power e a).effects =
        (a.mods.power.onEvent clock e { store := a.store }).2.effects := rfl
      rw [hfx]
      rcases PowerModule.onEvent_touch clock (m := a.mods.power)
        (c := { store := a.store }) (e := e) with ⟨-, fx', hfx', hsil⟩ |
          ⟨-, fx', hfx', hsw⟩ | ⟨-, -, fx', hfx', hsw⟩
      · rw [hfx', List.nil_append, Trace.last_of_silent fun f hf => hsil f hf p]
      · rw [hfx', List.nil_append, hsw, if_neg hn]
      · rw [hfx', List.nil_append, hsw, if_neg hn]
    by_cases hkg : id = .keyguard
    · subst hkg
      have hfx : (handler clock .keyguard e a).effects =
        (a.mods.keyguard.onEvent e { store := a.store }).2.effects := rfl
      have hm : (handler clock .keyguard e a).state.mods.keyguard =
        (a.mods.keyguard.onEvent e { store := a.store }).1 := rfl
      rcases KeyguardModule.onEvent_touch (m := a.mods.keyguard) (c := { store := a.store })
        (e := e) with ⟨savedFg, menuSavedFg, he, hn⟩ | ⟨he, hn⟩
      · refine ⟨ht, hr, ?_, ?_, hlast fun b => by rw [hfx, hn]; rfl⟩ <;> rw [hm, he]
        · exact h.uncovered
        · exact h.unmenued
      · obtain ⟨h₁, h₂, h₃⟩ := doLock_unknown h
        refine ⟨ht, hr, ?_, ?_, hlast fun b => by rw [hfx, hn, h₃]⟩ <;> rw [hm, he]
        · exact h₁
        · exact h₂
    · obtain ⟨-, hk⟩ := handler_mods clock hpw hkg (e := e) (a := a)
      refine ⟨ht, hr, ?_, ?_, hlast fun b => handler_touch hpw hkg⟩ <;> rw [hk]
      · exact h.uncovered
      · exact h.unmenued

/-- A command of the shell places no surface of a process nobody heard of, unless it
    registers it. -/
theorem shell_unplaced {c : Ctx} {v : Shell.Verb} (ht : ¬ c.store.Tracks p)
    (hr : c.store.primary.roleOf p = none)
    (hc : v = .registerChrome → ∀ e, Shell.chromeEntry args = some e → e.2 ≠ p) :
    (Shell.onCommand clock v args c).1.store.primary.roleOf p = none := by
  have hkill {st : AppState} : (Shell.killApp c st.appId st).1.store.primary.roleOf p = none := by
    simp only [Shell.killApp, Ctx.store_modifyPrimary, Ctx.store_modifyStore, Ctx.store_request,
      Store.primary_modifyDisplay, Store.primary_removeApp, DisplayState.roleOf_removeSurface]
    split
    · rfl
    · exact hr
  cases v with
  | kill =>
    simp only [Shell.onCommand]
    unfold Shell.cmdKill
    split
    · exact hr
    · split
      · exact hr
      · next st hst =>
        obtain rfl : st.appId = args := Table.key_of_get? hst
        exact hkill
  | taskKill =>
    simp only [Shell.onCommand]
    unfold Shell.cmdTaskKill
    split
    · exact hr
    · split
      · exact hr
      · next st hst =>
        split
        · exact hr
        · obtain rfl : st.appId = args := Table.key_of_get? hst
          exact hkill
  | registerChrome =>
    simp only [Shell.onCommand]
    unfold Shell.cmdRegisterChrome
    split
    · next appId pidS parts hargs =>
      split
      · exact hr
      · next pid hpid =>
        have hne : pid ≠ p := hc rfl (appId, pid) (by simp [Shell.chromeEntry, hargs, hpid])
        dsimp only
        split <;> simp [DisplayState.roleOf_putSurface, hne.symm, hr]
    · exact hr
  | _ =>
    exact Store.Places.unplaced
      (Shell.onCommand_sameApps Store.tracks_of_mem (by simp) (by simp) (by simp)).store ht hr

theorem handle_unplaced (clock : Clock) (ht : ¬ a.store.Tracks p)
    (hr : a.store.primary.roleOf p = none)
    (hc : verb = .shell .registerChrome → ∀ e, Shell.chromeEntry args = some e → e.2 ≠ p) :
    (a.handle clock verb args).1.state.store.primary.roleOf p = none := by
  have hf (hR : ∀ q ∈ verb.owner.parts, Store.Allows (Store.Places a.store.Tracks) q) :
      (a.handle clock verb args).1.state.store.primary.roleOf p = none :=
    Store.Places.unplaced (Modules.onCommand_frame (c := { store := a.store }) _ hR).store ht hr
  cases verb with
  | shell v => exact shell_unplaced (c := { store := a.store }) ht hr fun hv => hc (by rw [hv])
  | keyguard v =>
    exact Store.Places.unplaced (KeyguardModule.onCommand_within (c := { store := a.store })
      Store.tracks_of_mem).store ht hr
  | _ =>
    refine hf fun q hq => ?_
    simp only [Verb.owner, ModuleId.parts, List.mem_singleton, List.not_mem_nil] at hq <;>
      subst hq <;> infer_instance

omit [Fpu] in
theorem onCommand_keyguard_unknown {v : KeyguardModule.Verb} (h : Unknown p a fx) :
    let r := a.mods.keyguard.onCommand v { store := a.store }
    r.1.suppressedPid ≠ some p ∧ r.1.menuSuppressedPid ≠ some p ∧
      ∀ b, Trace.last (Effect.touch p) b r.2.1.effects = b := by
  intro r
  have hsame (he : r.1 = a.mods.keyguard)
      (ht : ∀ b, Trace.last (Effect.touch p) b r.2.1.effects = b) :
      r.1.suppressedPid ≠ some p ∧ r.1.menuSuppressedPid ≠ some p ∧
        ∀ b, Trace.last (Effect.touch p) b r.2.1.effects = b :=
    ⟨by rw [he]; exact h.uncovered, by rw [he]; exact h.unmenued, ht⟩
  cases v with
  | lock => exact doLock_unknown h
  | unlock =>
    rcases KeyguardModule.doUnlock_touch (m := a.mods.keyguard) (c := { store := a.store }) with
      ⟨he, hfx, -⟩ | ⟨he, ht⟩
    · have hfx' : r.2.1.effects = [] := hfx
      exact hsame he fun b => by rw [hfx']; rfl
    · have he' : r.1 = _ := he
      rw [he']
      exact ⟨nofun, h.unmenued, fun b => tells_ne ht rfl h.uncovered⟩
  | powerMenu =>
    rcases KeyguardModule.doShowMenu_touch (m := a.mods.keyguard) (c := { store := a.store }) with
      ⟨he, hfx⟩ | ⟨-, ⟨menuSavedFg, covered, he⟩, ht⟩
    · have hfx' : r.2.1.effects = [] := hfx
      exact hsame he fun b => by rw [hfx']; rfl
    · have he' : r.1 = _ := he
      rw [he']
      exact ⟨h.uncovered, covered_ne h.unplaced h.unmenued,
        fun b => tells_ne ht rfl (visibleApp_ne h.unplaced)⟩
  | pmDismiss =>
    rcases KeyguardModule.doHideMenu_touch (m := a.mods.keyguard) (c := { store := a.store }) with
      ⟨he, hn, -⟩ | ⟨-, he, ht⟩
    · have hn' : KeyguardModule.Tells none false _ _ := .nobody hn
      exact hsame he fun b => tells_ne hn' rfl nofun
    · have he' : r.1 = _ := he
      rw [he']
      exact ⟨h.uncovered, nofun, fun b => tells_ne ht rfl h.unmenued⟩

/-- A command by itself leaves a process that nobody heard of unknown, unless it registers
    it. -/
theorem handle_unknown (h : Unknown p a fx)
    (hc : verb = .shell .registerChrome → ∀ e, Shell.chromeEntry args = some e → e.2 ≠ p) :
    Unknown p (a.handle clock verb args).1.state (fx ++ (a.handle clock verb args).1.effects) := by
  have ht : ¬ (a.handle clock verb args).1.state.store.Tracks p := by
    intro hp
    rcases tracks_of_handle hp with hp | ⟨hv, e, he, hpe⟩
    · exact h.untracked hp
    · exact hc hv e he hpe
  have hr := handle_unplaced clock h.untracked h.unplaced hc
  have hlast {gx : List Effect} (hs : ∀ b, Trace.last (Effect.touch p) b gx = b) (b : Bool) :
      Trace.last (Effect.touch p) b (fx ++ gx) = b := by
    rw [Trace.last_append, hs, h.untold]
  cases verb with
  | power v => exact ⟨ht, hr, h.uncovered, h.unmenued, hlast fun b => (handle_power clock args).2⟩
  | keyguard v =>
    obtain ⟨h₁, h₂, h₃⟩ := onCommand_keyguard_unknown (v := v) h
    exact ⟨ht, hr, h₁, h₂, hlast h₃⟩
  | _ =>
    exact ⟨ht, hr, h.uncovered, h.unmenued,
      hlast fun b => handle_touch (by simp [Verb.owner]) (by simp [Verb.owner])⟩

end Arbiter

/-! ## Bringing an app forward -/

/-- An event about what the display shows. -/
def Event.Drawn : Event → Prop
  | .foregroundChanged .. | .editorFocusChanged .. | .imeHeightChanged .. => True
  | .orientationChanged .. | .panelMeasured .. => True
  | _ => False

namespace Arbiter

variable {clock : Clock} {a : Arbiter} {e : Event} {id : ModuleId} {verb : Verb} {args : String}

/-- What leaves the apps, what is locked and what is blanked as they were, and tells no app
    of its touch. -/
structure Hushed (a a' : Arbiter) (gx : List Effect) : Prop where
  apps : a.store.SameApps a'.store
  keyguard : a'.mods.keyguard = a.mods.keyguard
  blanked : a'.mods.power.blanked = a.mods.power.blanked
  silent : ∀ f ∈ gx, ∀ p, f.touch p = none

/-- A reaction to what the display shows leaves touch alone. -/
theorem handler_hushed (a : Arbiter) :
    Bus.Keeps (fun a' gx => Hushed a a' gx) Event.Drawn (handler clock id) where
  inv := by
    intro e a' gx he h
    have hr : ∀ p, e ≠ .surfaceRemoved p := by
      rintro p rfl
      exact he
    have hs' : a'.store.SameApps (handler clock id e a').state.store := handler_sameApps id hr
    have hs := trans_of Store.SameApps h.apps hs'
    by_cases hpw : id = .power
    · subst hpw
      have hm : a'.mods.power.onEvent clock e { store := a'.store } =
          (a'.mods.power, { store := a'.store }) := by
        cases e <;> first | rfl | exact he.elim
      have hb : (handler clock .power e a').state.mods.power = a'.mods.power :=
        congrArg Prod.fst hm
      have hfx : (handler clock .power e a').effects = [] := congrArg (fun r => r.2.effects) hm
      refine ⟨hs, h.keyguard, by rw [hb, h.blanked], ?_⟩
      rw [hfx, List.append_nil]
      exact h.silent
    by_cases hkg : id = .keyguard
    · subst hkg
      have hm : a'.mods.keyguard.onEvent e { store := a'.store } =
          (a'.mods.keyguard, { store := a'.store }) := by
        cases e <;> first | rfl | exact he.elim
      have hk : (handler clock .keyguard e a').state.mods.keyguard = a'.mods.keyguard :=
        congrArg Prod.fst hm
      have hfx : (handler clock .keyguard e a').effects = [] :=
        congrArg (fun r => r.2.effects) hm
      refine ⟨hs, by rw [hk, h.keyguard], h.blanked, ?_⟩
      rw [hfx, List.append_nil]
      exact h.silent
    · obtain ⟨hm, hk⟩ := handler_mods clock hpw hkg (e := e) (a := a')
      refine ⟨hs, hk.trans h.keyguard, by rw [hm, h.blanked], fun f hf p => ?_⟩
      rcases List.mem_append.mp hf with hf | hf
      · exact h.silent f hf p
      · exact ModuleId.touch_of_mayRequest hpw hkg (handler_requests f hf) p
  emits := by
    intro e a' gx he _ e' he'
    have hm := (handler_emits e' he').2
    cases id with
    | power | audio | sensors =>
      cases e <;> first | exact absurd he' List.not_mem_nil | exact he.elim
    | _ => cases e' <;> trivial

/-- A command that only says what the display shows leaves touch alone. -/
theorem command_hushed {reg : Registry}
    (hs : a.store.SameApps (a.handle clock verb args).1.state.store)
    (hp : verb.owner ≠ .power) (hk : verb.owner ≠ .keyguard)
    (hd : ∀ e, verb.owner.mayEmit e → e.Drawn) :
    Hushed a (a.command reg clock verb args).1 (a.command reg clock verb args).2.1 := by
  have hw : Ctx.Within Store.Anyhow verb.owner.mayEmit verb.owner.mayRequest
      { store := a.store } (a.mods.onCommand clock verb args { store := a.store }).2.1 :=
    Modules.onCommand_within
  obtain ⟨hm, hkg⟩ := handle_mods clock args hp hk (a := a)
  refine command_keeps (fun id _ => handler_hushed a) ⟨hs, hkg, by rw [hm], fun f hf p => ?_⟩
    fun e he => hd e (hw.forall_events rfl e he)
  exact ModuleId.touch_of_mayRequest hp hk (hw.forall_effects rfl f hf) p

theorem command_unknown {reg : Registry} (h : Unknown p a fx)
    (hc : verb = .shell .registerChrome → ∀ e, Shell.chromeEntry args = some e → e.2 ≠ p) :
    Unknown p (a.command reg clock verb args).1 (fx ++ (a.command reg clock verb args).2.1) :=
  command_keeps (fun _ _ => handler_unknown) (handle_unknown h hc) fun _ _ => trivial

end Arbiter

/-! ## Runs of the daemon -/

namespace Daemon

variable {w : World} {d : Daemon} {q : List Effect}

/-- The numbers of the processes that launches will be answered with. -/
def answers (zygote : List (Except String Pid)) : List Pid := zygote.filterMap Except.toOption

/-- What is suppressed in the daemon is due, also once the effects still to be performed are,
    and the processes to be launched are new. -/
structure Balanced (d : Daemon) (q : List Effect) : Prop where
  due : d.arbiter.Due (d.trace ++ q)
  unknown : ∀ pid ∈ answers d.zygote, d.arbiter.Unknown pid (d.trace ++ q)
  distinct : (answers d.zygote).Nodup

namespace Balanced

omit [Fpu]

/-- Effects that tell no app of its touch matter nowhere in a trace. -/
theorem last_insert (h : ∀ f ∈ gx, f.touch p = none) {b : Bool} :
    Trace.last (Effect.touch p) b (fx ++ (gx ++ q)) = Trace.last (Effect.touch p) b (fx ++ q) := by
  rw [Trace.last_append, Trace.last_append, Trace.last_of_silent h, ← Trace.last_append]

theorem holds_congr {a a' : Arbiter} (hk : a'.mods.keyguard = a.mods.keyguard)
    (hb : a'.mods.power.blanked = a.mods.power.blanked) : a'.Holds p ↔ a.Holds p := by
  rw [Arbiter.Holds, Arbiter.Holds, hk, hb]

/-- Performing an effect that runs nothing. -/
theorem perform {f : Effect} (h : d.Balanced (f :: q)) : (d.perform f).Balanced q := by
  have ht : (d.perform f).trace ++ q = d.trace ++ f :: q := by simp [Daemon.perform]
  exact ⟨ht ▸ h.due, ht ▸ h.unknown, h.distinct⟩

/-- Performing an effect that tells no app of its touch. -/
theorem utter {f : Effect} (hf : ∀ p, f.touch p = none) (h : d.Balanced q) :
    (d.perform f).Balanced q := by
  refine perform ⟨fun p hp hs => h.due p hp ?_, fun pid hm => ?_, h.distinct⟩
  · have hl : suppressed p (d.trace ++ ([f] ++ q)) = suppressed p (d.trace ++ q) :=
      last_insert (by simp [hf])
    rwa [← hl]
  · obtain ⟨h₁, h₂, h₃, h₄, h₅⟩ := h.unknown pid hm
    refine ⟨h₁, h₂, h₃, h₄, fun b => ?_⟩
    have hl : Trace.last (Effect.touch pid) b (d.trace ++ ([f] ++ q)) = _ :=
      last_insert (by simp [hf])
    rw [List.singleton_append] at hl
    rw [hl, h₅]

/-- Registering a launched process. -/
theorem register {appId : String} {pid : Pid} {rest : List (Except String Pid)} {role : Role}
    (hz : d.zygote = .ok pid :: rest) (h : d.Balanced q) :
    ({ d with zygote := rest }.registerLaunch w.clock appId pid role).Balanced q := by
  have ha : answers d.zygote = pid :: answers rest := by rw [hz]; rfl
  have htr {p : Pid} (hp : ({ d with zygote := rest }.registerLaunch w.clock appId pid
      role).arbiter.store.Tracks p) : p = pid ∨ d.arbiter.store.Tracks p := by
    obtain ⟨app, happ, rfl⟩ := hp
    rcases Table.mem_rows_put.mp happ with rfl | ⟨happ, -⟩
    · exact .inl rfl
    · exact .inr ⟨app, happ, rfl⟩
  have hd := h.distinct
  rw [ha, List.nodup_cons] at hd
  refine ⟨fun p hp hs => ?_, fun p hp => ?_, hd.2⟩
  · rcases htr hp with rfl | hp
    · have hu := (h.unknown p (ha ▸ List.mem_cons_self)).untold false
      have hs' : suppressed p (d.trace ++ q) = true := hs
      rw [suppressed, hu] at hs'
      cases hs'
    · exact h.due p hp hs
  · have hne : p ≠ pid := by
      rintro rfl
      exact hd.1 hp
    obtain ⟨h₁, h₂, h₃, h₄, h₅⟩ := h.unknown p (ha ▸ List.mem_cons_of_mem _ hp)
    refine ⟨fun hp => (htr hp).elim hne h₁, ?_, h₃, h₄, h₅⟩
    simp [registerLaunch, modifyStore, Store.primary_modifyDisplay,
      DisplayState.roleOf_putSurface, hne]
    exact h₂

theorem modifyStore {f : Store → Store} (ha : (f d.arbiter.store).apps = d.arbiter.store.apps)
    (hp : (f d.arbiter.store).primary = d.arbiter.store.primary) (h : d.Balanced q) :
    (d.modifyStore f).Balanced q where
  due p ht := h.due p ((Store.tracks_congr ha).mp ht)
  unknown pid hm := by
    obtain ⟨h₁, h₂, h₃, h₄, h₅⟩ := h.unknown pid hm
    exact ⟨fun ht => h₁ ((Store.tracks_congr ha).mp ht), (congrArg (·.roleOf pid) hp).trans h₂,
      h₃, h₄, h₅⟩
  distinct := h.distinct

theorem unanswered {answer : Except String Pid} {rest : List (Except String Pid)}
    (hz : d.zygote = answer :: rest) (h : d.Balanced q) :
    Balanced { d with zygote := rest } q := by
  have hs : (answers rest).Sublist (answers d.zygote) := by
    rw [hz]
    exact (List.sublist_cons_self answer rest).filterMap _
  exact ⟨h.due, fun pid hp => h.unknown pid (hs.subset hp), h.distinct.sublist hs⟩

theorem launchEffect {a : String} {k : LaunchKind} (h : d.Balanced (.launch a k :: q)) :
    (launchEffect w a k (d.perform (.launch a k))).Balanced q := by
  have hp : (d.perform (.launch a k)).Balanced q := h.perform
  rcases hz : d.zygote with _ | ⟨answer, rest⟩
  · rwa [launchEffect_nil (d := d.perform _) hz]
  · cases answer with
    | error e =>
      rw [launchEffect_error (d := d.perform _) hz]
      exact hp.unanswered hz
    | ok pid =>
      rw [launchEffect_ok (d := d.perform _) hz]
      exact utter (fun _ => rfl) (hp.register (d := d.perform (.launch a k)) hz)

end Balanced

/-- Running a command that only says what the display shows. -/
theorem Balanced.hushed {verb : Verb} {args : String} (h : d.Balanced q)
    (hs : d.arbiter.store.SameApps (d.arbiter.handle w.clock verb args).1.state.store)
    (hp : verb.owner ≠ .power) (hk : verb.owner ≠ .keyguard)
    (hd : ∀ e, verb.owner.mayEmit e → e.Drawn) (hc : verb ≠ .shell .registerChrome) :
    Balanced (d.runModule w verb args).1 ((d.runModule w verb args).2.1 ++ q) := by
  have hh : d.arbiter.Hushed (d.runModule w verb args).1.arbiter (d.runModule w verb args).2.1 :=
    Arbiter.command_hushed hs hp hk hd
  refine ⟨fun p hp hl => ?_, fun pid hm => ?_, h.distinct⟩
  · rw [holds_congr hh.keyguard hh.blanked]
    refine h.due p ((Store.tracks_congr hh.apps.apps).mp hp) ?_
    have hi : suppressed p (d.trace ++ ((d.runModule w verb args).2.1 ++ q)) =
      suppressed p (d.trace ++ q) := last_insert fun f hf => hh.silent f hf p
    exact hi.symm.trans hl
  · obtain ⟨h₁, h₂, h₃, h₄, h₅⟩ := h.unknown pid hm
    have hu : Arbiter.Unknown pid (d.runModule w verb args).1.arbiter
        ([] ++ (d.runModule w verb args).2.1) :=
      Arbiter.command_unknown ⟨h₁, h₂, h₃, h₄, fun _ => rfl⟩ fun hv => absurd hv hc
    refine ⟨hu.untracked, hu.unplaced, hu.uncovered, hu.unmenued, fun b => ?_⟩
    have hl : Trace.last (Effect.touch pid) b (d.trace ++ ((d.runModule w verb args).2.1 ++ q)) =
      _ := last_insert fun f hf => hh.silent f hf pid
    exact hl.trans (h₅ b)

theorem Balanced.forward {appId : String} (h : d.Balanced q) :
    Balanced (d.runModule w (.shell .foreground) appId).1
      ((d.runModule w (.shell .foreground) appId).2.1 ++ q) := by
  refine h.hushed ?_ (by simp [Verb.owner]) (by simp [Verb.owner]) ?_ (by simp)
  · exact (Shell.onCommand_sameApps (c := { store := d.arbiter.store }) (fun _ _ => .of_display)
      (by simp) (by simp) (by simp)).store
  · intro e he
    cases e <;> trivial

/-- The commands that register no process. -/
def Registers (_ : Arbiter) (verb : Verb) (_ : String) : Prop := verb ≠ .shell .registerChrome

theorem serves_balanced (w : World) :
    Serves w Registers (fun _ _ => True) (fun _ _ => True) Balanced where
  plain _ h := h.perform
  launch := Balanced.launchEffect
  foreground h := h.perform.forward
  immersive args h := by
    refine h.hushed ?_ (by simp [Verb.owner]) (by simp [Verb.owner]) ?_ (by simp)
    · refine (Modules.onCommand_frame (c := { store := _ }) Store.SameApps fun q hq => ?_).store
      simp only [Verb.owner, ModuleId.parts, List.mem_singleton] at hq
      subst hq
      infer_instance
    · intro e he
      cases e <;> trivial
  command := by
    intro d verb args hV h
    have hd : d.arbiter.Due d.trace := by simpa using h.due
    refine ⟨Arbiter.command_keeps (fun _ _ => Arbiter.handler_due)
      (Arbiter.handle_due hd fun hv => absurd hv hV) fun _ _ => trivial, fun pid hm => ?_,
      h.distinct⟩
    have hu := h.unknown pid hm
    rw [List.append_nil] at hu
    exact Arbiter.command_unknown hu fun hv => absurd hv hV
  event := by
    intro d e _ h
    have hd : d.arbiter.Due d.trace := by simpa using h.due
    refine ⟨Arbiter.inject_keeps (fun _ _ => Arbiter.handler_due) (by simpa using hd) trivial,
      fun pid hm => ?_, h.distinct⟩
    exact Arbiter.inject_keeps (fun _ _ => Arbiter.handler_unknown) (h.unknown pid hm) trivial
  promote appId h := by simpa using h.forward
  register role hz _ h := h.register hz
  absent _ := trivial
  unanswered hz h := h.unanswered hz
  signal pid h := h.utter fun _ => rfl
  home app h := h.modifyStore rfl rfl
  descriptor kind maxRange resolution h := h.modifyStore rfl rfl
  power powerPending powerGen reboots h := ⟨h.due, h.unknown, h.distinct⟩

/-- The steps in which no number of a process is used again: a chrome process registers under
    a number that no launch will be answered with, and unless it runs already, one that was
    never told of its touch. -/
def NumbersFresh (d : Daemon) : Input → Prop
  | .client (.module (.shell .registerChrome) args) =>
    ∀ e, Shell.chromeEntry args = some e → e.2 ∉ answers d.zygote ∧
      (d.arbiter.store.Tracks e.2 ∨ ∀ f ∈ d.trace, f.touch e.2 = none)
  | _ => True

theorem step_balanced {i : Input} (hi : d.NumbersFresh i) (h : d.Balanced []) :
    (step w i d).Balanced [] := by
  have hs := serves_balanced w
  by_cases hc : ∃ args, i = .client (.module (.shell .registerChrome) args)
  · obtain ⟨args, rfl⟩ := hc
    have hi : ∀ e, Shell.chromeEntry args = some e → e.2 ∉ answers d.zygote ∧
      (d.arbiter.store.Tracks e.2 ∨ ∀ f ∈ d.trace, f.touch e.2 = none) := hi
    have hd : d.arbiter.Due d.trace := by simpa using h.due
    refine hs.reconcileIfChanged (hs.executeEffects ⟨?_, fun pid hm => ?_, h.distinct⟩)
    · refine Arbiter.command_keeps (fun _ _ => Arbiter.handler_due)
        (Arbiter.handle_due hd fun _ e he => ?_) fun _ _ => trivial
      exact (hi e he).2.imp_right fun hf => Trace.last_of_silent hf
    · have hu := h.unknown pid hm
      rw [List.append_nil] at hu
      refine Arbiter.command_unknown hu fun _ e he => ?_
      rintro rfl
      exact (hi e he).1 hm
  · refine hs.step ?_ h
    cases i with
    | client cmd =>
      cases cmd with
      | module verb args =>
        rintro rfl
        exact hc ⟨args, rfl⟩
      | legacy verb args =>
        cases verb <;> simp [Allowed, LegacyAllowed, RunAllowed, MenuAllowed, Registers]
      | unknown verb => trivial
    | holdTimer gen => simp [Allowed, RunAllowed, MenuAllowed, Registers]
    | _ => trivial

theorem balanced_boot {r : Restored} (hn : (answers r.zygote).Nodup)
    (hr : ∀ a ∈ r.apps.rows, a.pid ∉ answers r.zygote) : (boot w r).Balanced [] := by
  refine (serves_balanced w).ensureHomeForeground ⟨fun p _ hs => ?_, fun pid hm => ?_, hn⟩
  · cases hs
  · refine ⟨?_, ?_, nofun, nofun, fun _ => rfl⟩
    · rintro ⟨app, happ, rfl⟩
      exact hr app happ hm
    · by_contra hp
      dsimp only at hp
      rw [Store.primary_modifyDisplay] at hp
      obtain ⟨app, happ, rfl⟩ := roleOf_seedSurfaces (Option.isSome_iff_ne_none.mpr hp)
      exact hr app happ hm

/-- In every run in which no number of a process is used again, with the device unlocked, the
    power menu closed and the panel not blanked, the last line to a running app on its touch,
    if there was one, says that it is not suppressed. -/
theorem no_dead_touch {w₀ : World} {r : Restored} (hn : (answers r.zygote).Nodup)
    (hr : ∀ a ∈ r.apps.rows, a.pid ∉ answers r.zygote)
    (h : Run (fun _ d i => d.NumbersFresh i) (boot w₀ r) d)
    (hl : d.arbiter.mods.keyguard.locked = false)
    (hm : d.arbiter.mods.keyguard.menuShown = false)
    (hb : d.arbiter.mods.power.blanked = false) (hp : d.arbiter.store.Tracks p) :
    suppressed p d.trace = false := by
  have hJ : d.Balanced [] := h.invariant (J := fun d => d.Balanced []) (balanced_boot hn hr)
    fun _ _ hJ _ hi => step_balanced hi hJ
  rw [← Bool.not_eq_true]
  intro hs
  have hh : d.arbiter.Holds p := hJ.due p hp (by simpa using hs)
  simp [Arbiter.Holds, hl, hm, hb] at hh

end Daemon

end

section

attribute [local instance] Fpu.comparator

namespace Daemon

/-- A daemon with the keyguard running, and an app in the foreground. -/
def guarded : Daemon :=
  step still (.client (.legacy .launch "b"))
    (step still (.client (.legacy .launchHeadless keyguardAppId))
      (boot still { zygote := [.ok 2, .ok 7] }))

/-- A device that was locked over an app, and unlocked again. -/
theorem no_dead_touch_unlocked :
    let d := step still (.client (.module (.keyguard .unlock) ""))
      (step still (.client (.module (.keyguard .lock) "")) guarded)
    (∃ f ∈ d.trace, f.touch 7 = some true) ∧ suppressed 7 d.trace = false := by
  intro d
  have h : Run (fun _ d i => d.NumbersFresh i) (boot still { zygote := [.ok 2, .ok 7] }) d :=
    .step _ _ (.step _ _ (.step _ _ (.step _ _ .start (by decide) trivial) (by decide) trivial)
      (by decide) trivial) (by decide) trivial
  have hp : d.arbiter.store.Tracks 7 := ⟨⟨"b", 7, 0, 0⟩, by decide, rfl⟩
  exact ⟨by decide, no_dead_touch (by decide) (by rintro a ⟨⟩) h (by decide) (by decide)
    (by decide) hp⟩

end Daemon

end

end Wandr
