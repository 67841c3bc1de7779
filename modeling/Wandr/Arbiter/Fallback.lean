import Wandr.Arbiter.Cleanup
import Wandr.Arbiter.Discipline

/-!
# The fallback to the home app

When the exit of a process leaves the foreground slot empty, the daemon brings the
home app forward. It does so only for a process it still tracks, and the commands
that kill an app take it from the registry first; and the slot it looks at holds the
overlay before the app in the foreground.

* `Shell.onSurfaceRemoved_shows_iff` and `Shell.onSurfaceRemoved_slot_iff`: what the
  exit of a process leaves on the display;
* `Daemon.shows_childExit_iff`: the exit of a process, with the home app that comes
  forward after it;
* `Ending.shows_handled_iff`: when an app is visible after an exit, or after a `kill` or
  a `task-kill` and the exit it causes;
* `Ending.home_killed_empties` is a run in which killing the home app leaves the screen
  empty.
-/

namespace Wandr

/-! ## The screen -/

namespace DisplayState

variable {d d' : DisplayState} {p q : Pid} {a : String}

/-- The user is looking at an app. -/
def Shows (d : DisplayState) : Prop := d.visibleApp.isSome

instance : Decidable d.Shows := inferInstanceAs (Decidable (_ = true))

theorem shows_iff :
    d.Shows ↔ ∃ q, d.roleOf q = some .overlayBehind ∨ d.roleOf q = some .foreground := by
  unfold Shows
  rw [← not_iff_not, Bool.not_eq_true, Option.isSome_eq_false_iff, Option.isNone_iff_eq_none,
    visibleApp_eq_none_iff]
  push Not
  rfl

theorem Shows.congr (h : d.Shows) (hs : d'.surfaces = d.surfaces) : d'.Shows := by
  rw [shows_iff] at h ⊢
  unfold roleOf at h ⊢
  rwa [hs]

theorem shows_putSurface : (d.putSurface p a .foreground).Shows :=
  shows_iff.mpr ⟨p, .inr (by rw [roleOf_putSurface, if_pos rfl])⟩

theorem roleOf_of_pid_firstWithRole {r : Role}
    (h : (d.firstWithRole r).map Surface.pid = some q) : d.roleOf q = some r := by
  obtain ⟨s, hs, rfl⟩ := Option.map_eq_some_iff.mp h
  exact roleOf_of_firstWithRole hs

theorem foregroundSlot_isSome_iff : d.foregroundSlot.isSome ↔
    ∃ q, d.roleOf q = some .overlay ∨ d.roleOf q = some .foreground := by
  unfold foregroundSlot
  rw [Option.isSome_or, Bool.or_eq_true, firstWithRole_isSome_iff, firstWithRole_isSome_iff,
    exists_or]

/-- The user is looking at an app that is not of the process. -/
def ShowsOther (d : DisplayState) (p : Pid) : Prop :=
  ∃ q, q ≠ p ∧ (d.roleOf q = some .overlayBehind ∨ d.roleOf q = some .foreground)

/-- No overlay stays when the process exits: each is the process, or is torn down because
    the process is the app behind it. -/
def Clears (d : DisplayState) (p : Pid) : Prop :=
  ∀ q, q ≠ p → d.roleOf q = some .overlay →
    (d.firstWithRole .overlay).map Surface.pid = some q ∧
      (d.firstWithRole .overlayBehind).map Surface.pid = some p

/-- What is left when a process leaves. -/
theorem shows_removeSurface_iff : (d.removeSurface p).Shows ↔ d.ShowsOther p := by
  rw [shows_iff]
  refine exists_congr fun q => ?_
  rw [roleOf_removeSurface]
  by_cases hq : q = p <;> simp [hq]

end DisplayState

/-! ## The moves of the shell that keep an app visible -/

namespace Shell

open DisplayState

variable {c : Ctx} {p q : Pid} {a : String}

/-- An overlay torn down leaves the app that was behind it in the foreground. -/
theorem roleOf_demoteFromOverlay {o : Surface}
    (ho : c.store.primary.firstWithRole .overlay = some o) :
    (demoteFromOverlay c).1.store.primary.roleOf q =
      if (c.store.primary.firstWithRole .overlayBehind).map Surface.pid = some q then
        some .foreground
      else if q = o.pid then some .background
      else c.store.primary.roleOf q := by
  have hro := roleOf_of_firstWithRole ho
  unfold demoteFromOverlay
  simp only [rolePid_eq, ho, Option.map_some]
  cases hb : c.store.primary.firstWithRole .overlayBehind with
  | none =>
    simp only [Option.map_none, primary_apply, roleOf_setRole, reduceCtorEq, if_false]
    split
    · next hq => rw [hq, hro, Option.map_some]
    · rfl
  | some b =>
    have hrb := roleOf_of_firstWithRole hb
    simp only [Option.map_some, primary_apply, roleOf_setRole, Option.some.injEq]
    have hbo : b.pid ≠ o.pid := fun h => by
      rw [h, hro] at hrb
      cases hrb
    by_cases hqb : q = b.pid
    · subst hqb
      simp [hbo, hrb]
    · rw [if_neg hqb, if_neg (Ne.symm hqb)]
      split
      · next hq => rw [hq, hro, Option.map_some]
      · rfl

theorem demoteFromOverlay_shows (h : c.store.primary.Shows) :
    (demoteFromOverlay c).1.store.primary.Shows := by
  cases ho : c.store.primary.firstWithRole .overlay with
  | none =>
    have hc : (demoteFromOverlay c).1 = c := by
      unfold demoteFromOverlay
      simp [ho]
    rwa [hc]
  | some o =>
    rw [shows_iff] at h ⊢
    cases hb : c.store.primary.firstWithRole .overlayBehind with
    | some b =>
      refine ⟨b.pid, .inr ?_⟩
      rw [roleOf_demoteFromOverlay ho, hb, Option.map_some, if_pos rfl]
    | none =>
      obtain ⟨q, hq⟩ := h
      have hfg : c.store.primary.roleOf q = some .foreground :=
        hq.resolve_left (firstWithRole_eq_none_iff.mp hb q)
      have hqo : q ≠ o.pid := fun h => by
        rw [h, roleOf_of_firstWithRole ho] at hfg
        cases hfg
      refine ⟨q, .inr ?_⟩
      rw [roleOf_demoteFromOverlay ho, hb, if_neg (by simp), if_neg hqo, hfg]

/-- An overlay put on top of the visible app leaves that app visible. -/
theorem promoteToOverlay_shows {v : Pid} (hv : c.store.primary.visibleApp = some v) (hne : p ≠ v) :
    (promoteToOverlay c a p (some v)).1.store.primary.Shows := by
  have hrv : (c.store.primary.roleOf v).isSome := by
    rcases roleOf_visibleApp hv with h | ⟨h, -⟩ <;> rw [h] <;> rfl
  have hmark : (place (markBehind c (some v)) p a .overlay).store.primary.Shows := by
    refine shows_iff.mpr ⟨v, .inl ?_⟩
    rw [primary_place, roleOf_putSurface, if_neg hne.symm]
    simp only [markBehind, Ctx.store_modifyPrimary, Store.primary_modifyDisplay, roleOf_setRole,
      if_true]
    obtain ⟨r, hr⟩ := Option.isSome_iff_exists.mp hrv
    rw [hr, Option.map_some]
  unfold promoteToOverlay
  cases hf : rolePid c.store .foreground with
  | none => exact hmark
  | some x =>
    dsimp only
    split
    · next hxp =>
      rw [rolePid_eq] at hf
      obtain ⟨s, hs, rfl⟩ := Option.map_eq_some_iff.mp hf
      refine shows_iff.mpr ⟨s.pid, .inl ?_⟩
      rw [primary_place, roleOf_putSurface, if_neg hxp, primary_apply, roleOf_setRole, if_pos rfl,
        roleOf_of_firstWithRole hs, Option.map_some]
    · exact hmark

/-- Deriving the overlay again leaves an app visible. -/
theorem reconcileOverlay_shows (h : c.store.primary.Shows) :
    (reconcileOverlay c).store.primary.Shows := by
  unfold reconcileOverlay
  rw [overlayDesired_eq, overlayEngaged_eq, visibleApp_eq]
  dsimp only
  split
  · next i hi _ =>
    obtain ⟨hime, v, info, -, hv, hne⟩ := overlayDesired_eq_some_iff.mp hi
    split
    · next x y ha =>
      have hx : x = i := by
        rw [activeIme_eq, activeImeSurface, hime] at ha
        obtain ⟨f, hf, hfx⟩ := Option.map_eq_some_iff.mp ha
        have hk : f.pid = i := Table.key_of_get? hf
        rw [← hk]
        exact (Prod.mk.inj hfx).1.symm
      subst hx
      rw [hv]
      exact promoteToOverlay_shows hv hne
    · exact h
  · exact demoteFromOverlay_shows h
  · exact h

theorem dropEditorFocusOf_shows (h : c.store.primary.Shows) :
    (dropEditorFocusOf c p).store.primary.Shows :=
  h.congr (by rw [primary_dropEditorFocusOf])

theorem onForegroundChanged_shows (h : c.store.primary.Shows) :
    (onForegroundChanged c).store.primary.Shows := by
  unfold onForegroundChanged
  refine reconcileOverlay_shows ?_
  split
  · split
    · exact dropEditorFocusOf_shows h
    · exact h
  · exact h

/-- An app promoted to the foreground is looked at, or is behind the overlay it
    wants. -/
theorem promoteToForeground_shows : (promoteToForeground c a p).store.primary.Shows := by
  unfold promoteToForeground
  dsimp only
  rw [Ctx.store_emit]
  refine reconcileOverlay_shows ?_
  rw [primary_place]
  exact shows_putSurface

/-! ### Exits -/

/-- The exit of a process removes its surface, after tearing down the overlay split the
    process was a side of. -/
theorem onSurfaceRemoved_primary (c : Ctx) (p : Pid) :
    (onSurfaceRemoved c p).store.primary =
      (if (c.store.primary.firstWithRole .overlay).isSome ∧
          ((c.store.primary.firstWithRole .overlay).map Surface.pid = some p ∨
            (c.store.primary.firstWithRole .overlayBehind).map Surface.pid = some p) then
        (demoteFromOverlay c).1 else c).store.primary.removeSurface p := by
  have hpid (r : Role) : (rolePid c.store r).map Prod.fst =
      (c.store.primary.firstWithRole r).map Surface.pid := by
    rw [rolePid_eq, Option.map_map]
    rfl
  unfold onSurfaceRemoved
  rw [hpid, hpid, overlayEngaged_eq, DisplayState.overlayEngaged]
  dsimp only
  split <;> simp only [Ctx.store_modifyPrimary, Ctx.store_modifyStore,
    Store.primary_modifyDisplay, Store.primary_removeApp]

theorem onSurfaceRemoved_home (c : Ctx) (p : Pid) :
    (onSurfaceRemoved c p).store.home = c.store.home := by
  obtain ⟨s₁, hs₁, hs⟩ := onSurfaceRemoved_spec (c := c) p
  have hp : Store.SameApps c.store s₁ := hs₁ _
  rw [hs]
  split <;> exact hp.home

/-- An exit leaves an app visible exactly when the user was looking at another one. -/
theorem onSurfaceRemoved_shows_iff :
    (onSurfaceRemoved c p).store.primary.Shows ↔ c.store.primary.ShowsOther p := by
  rw [onSurfaceRemoved_primary, shows_removeSurface_iff]
  split
  · next ht =>
    obtain ⟨o, ho⟩ := Option.isSome_iff_exists.mp ht.1
    have hro := roleOf_of_firstWithRole ho
    refine exists_congr fun q => and_congr_right fun _ => ?_
    rw [roleOf_demoteFromOverlay ho]
    split
    · next hq => simp [roleOf_of_pid_firstWithRole hq]
    · split
      · next hq => simp [hq, hro]
      · rfl
  · rfl

/-- An exit leaves no overlay exactly when the overlays there were go with it. -/
theorem onSurfaceRemoved_clears_iff :
    (∀ q, (onSurfaceRemoved c p).store.primary.roleOf q ≠ some .overlay) ↔
      c.store.primary.Clears p := by
  refine forall_congr' fun q => ?_
  rw [onSurfaceRemoved_primary, roleOf_removeSurface]
  by_cases hqp : q = p
  · simp [hqp]
  rw [if_neg hqp, imp_iff_right (show q ≠ p from hqp)]
  split
  · next ht =>
    obtain ⟨o, ho⟩ := Option.isSome_iff_exists.mp ht.1
    have hro := roleOf_of_firstWithRole ho
    rw [roleOf_demoteFromOverlay ho, ho, Option.map_some]
    rw [ho, Option.map_some] at ht
    split
    · next hq => simp [roleOf_of_pid_firstWithRole hq]
    · by_cases hqo : q = o.pid
      · -- the overlay torn down was on top of the exited process
        have hbp := ht.2.resolve_left fun h => hqp (hqo.trans (Option.some.inj h))
        simp [hqo, hbp]
      · simp [hqo, Ne.symm hqo]
  · next ht =>
    refine imp_congr_right fun _ => ⟨False.elim, fun h => ht ⟨?_, .inr h.2⟩⟩
    rw [← Option.isSome_map, h.1]
    rfl

/-- After an exit an app is visible or the foreground slot is empty, unless an overlay
    stays. -/
theorem onSurfaceRemoved_slot_iff : ((onSurfaceRemoved c p).store.primary.Shows ∨
      (onSurfaceRemoved c p).store.primary.foregroundSlot = none) ↔
    c.store.primary.ShowsOther p ∨ c.store.primary.Clears p := by
  rw [← onSurfaceRemoved_clears_iff, ← onSurfaceRemoved_shows_iff,
    ← Option.not_isSome_iff_eq_none, foregroundSlot_isSome_iff]
  constructor
  · rintro (h | h)
    · exact .inl h
    · exact .inr fun q hq => h ⟨q, .inl hq⟩
  · intro h
    by_cases hs : (onSurfaceRemoved c p).store.primary.Shows
    · exact .inl hs
    · refine .inr ?_
      rintro ⟨q, hq | hq⟩
      · exact h.resolve_left hs q hq
      · exact hs (shows_iff.mpr ⟨q, .inr hq⟩)

end Shell

namespace Store.Agree

variable {s s' : Store} {p : Pid}

theorem shows_iff (h : s.Agree s') : s'.primary.Shows ↔ s.primary.Shows := by
  rw [DisplayState.Shows, h.visibleApp, DisplayState.Shows]

theorem showsOther_iff (h : s.Agree s') : s'.primary.ShowsOther p ↔ s.primary.ShowsOther p := by
  simp only [DisplayState.ShowsOther, h.roleOf]

theorem clears_iff (h : s.Agree s') : s'.primary.Clears p ↔ s.primary.Clears p := by
  simp only [DisplayState.Clears, h.roleOf, h.firstWithRole]

end Store.Agree

/-! ## The registry after a kill -/

namespace Store

/-- The registry and the display without an app and its surface. -/
def without (s : Store) (app : AppState) : Store :=
  (s.removeApp app.appId).modifyDisplay primaryDisplay fun d => d.removeSurface app.pid

variable {s : Store} {app : AppState}

theorem shows_without : (s.without app).primary.Shows ↔ s.primary.ShowsOther app.pid := by
  rw [without, primary_modifyDisplay, primary_removeApp, DisplayState.shows_removeSurface_iff]

theorem roleOf_without {q : Pid} (hq : q ≠ app.pid) :
    (s.without app).primary.roleOf q = s.primary.roleOf q := by
  rw [without, primary_modifyDisplay, primary_removeApp, DisplayState.roleOf_removeSurface,
    if_neg hq]

theorem showsOther_without :
    (s.without app).primary.ShowsOther app.pid ↔ s.primary.ShowsOther app.pid :=
  exists_congr fun _ => and_congr_right fun hq => by rw [roleOf_without hq]

/-- No app is behind an overlay under the process whose surface is gone. -/
theorem clears_without : (s.without app).primary.Clears app.pid ↔
    ∀ q, q ≠ app.pid → s.primary.roleOf q ≠ some .overlay := by
  refine forall_congr' fun q => forall_congr' fun hq => ?_
  rw [roleOf_without hq]
  refine imp_congr_right fun _ => iff_false_intro fun h => ?_
  have hb := DisplayState.roleOf_of_pid_firstWithRole h.2
  rw [without, primary_modifyDisplay, primary_removeApp, DisplayState.roleOf_removeSurface,
    if_pos rfl] at hb
  cases hb

theorem appByPid_without : ((s.without app).appByPid app.pid).isNone ↔
    ¬ ∃ app' ∈ s.apps.rows, app'.appId ≠ app.appId ∧ app'.pid = app.pid := by
  unfold appByPid
  rw [Option.isNone_iff_eq_none, List.find?_eq_none]
  have hm (a : AppState) : a ∈ (s.without app).apps.rows ↔ a ∈ s.apps.rows ∧ a.appId ≠ app.appId :=
    Table.mem_rows_erase
  constructor
  · rintro h ⟨a, ha, hne, hp⟩
    exact h a ((hm a).mpr ⟨ha, hne⟩) (by simpa using hp)
  · intro h a ha hp
    obtain ⟨ha, hne⟩ := (hm a).mp ha
    exact h ⟨a, ha, hne, by simpa using hp⟩

end Store

section

variable [Fpu]

/-! ## What the cascades keep -/

namespace Arbiter

variable {reg : Registry} {clock : Clock} {a : Arbiter} {args : String} {p : Pid}

/-- An app stays visible in the reactions to events that are no exits and do not put
    the screen to sleep. -/
theorem handler_shows (id : ModuleId) :
    Bus.Keeps (fun a (_ : List Effect) => a.store.primary.Shows)
      (fun e => Calm e ∧ ∀ p, e ≠ .surfaceRemoved p) (handler clock id) where
  inv {e a} _ he hJ := by
    by_cases hid : id.isAside
    · have ha : a.store.Agree (handler clock id e a).state.store :=
        (Modules.onEvent_aside (c := { store := a.store }) hid).store
      exact hJ.congr ha.surfaces
    · cases id with
      | shell =>
        cases e with
        | surfaceRemoved p => exact absurd rfl (he.2 p)
        | foregroundChanged => exact Shell.onForegroundChanged_shows hJ
        | _ => exact hJ
      | keyguard =>
        cases e with
        | screenState live => simp [Calm, Event.rank] at he
        | _ => exact hJ
      | _ => simp [ModuleId.isAside] at hid
  emits he _ e' he' := by
    have hr := handler_ranked id _ _ e' he'
    have hc := he.1
    unfold Calm at hc ⊢
    exact ⟨by omega, (handler_emits e' he').2.notRemoval⟩

/-- A tracked app brought to the foreground is looked at. -/
theorem command_foreground_shows {appId : String} {app : AppState}
    (h : a.store.app appId = some app)
    (hne : appId ≠ "") :
    (a.command reg clock (.shell .foreground) appId).1.store.primary.Shows := by
  refine command_keeps (J := fun a _ => a.store.primary.Shows) (fun id _ => handler_shows id) ?_
    fun e he => ?_
  · have hp :
        (Shell.promoteToForeground { store := a.store } app.appId app.pid).store.primary.Shows :=
      Shell.promoteToForeground_shows
    simpa [handle, Modules.onCommand, Shell.onCommand, Shell.cmdForeground, hne, h] using hp
  · have hw : Ctx.Within Store.Anyhow (ModuleId.mayEmit .shell) (ModuleId.mayRequest .shell)
        { store := a.store } (Shell.onCommand clock .foreground appId { store := a.store }).1 :=
      Shell.onCommand_within
    have he := hw.forall_events rfl e he
    refine ⟨?_, he.notRemoval⟩
    cases e <;> simp_all [ModuleId.mayEmit, Calm, Event.rank]

/-- The window manager works aside, and so do the reactions to what it reports. -/
theorem command_wm_agree {v : Wm.Verb} :
    a.store.Agree (a.command reg clock (.wm v) args).1.store := by
  refine command_keeps (J := fun a' _ => a.store.Agree a'.store)
    (E := fun e => e.rank = 0 ∧ ∀ p, e ≠ .surfaceRemoved p)
    (fun id _ => ⟨fun {e s} _ he hJ => hJ.trans ?_, fun he _ e' he' => ?_⟩) ?_ fun e he => ?_
  · by_cases hid : id.isAside
    · exact (Modules.onEvent_aside (c := { store := s.store }) hid).store
    · cases id with
      | shell =>
        cases e with
        | surfaceRemoved p => exact absurd rfl (he.2 p)
        | foregroundChanged => simp [Event.rank] at he
        | _ => exact .refl
      | keyguard =>
        cases e with
        | screenState live => simp [Event.rank] at he
        | _ => exact .refl
      | _ => simp [ModuleId.isAside] at hid
  · have hr := handler_ranked id _ _ e' he'
    omega
  · have hs : a.store.Agree (a.handle clock (.wm v) args).1.state.store :=
      (Modules.onCommand_aside (c := { store := a.store }) rfl).store
    exact hs
  · have hw : Ctx.Within Store.Anyhow (Verb.owner (.wm v)).mayEmit (Verb.owner (.wm v)).mayRequest
        { store := a.store } (a.mods.onCommand clock (.wm v) args { store := a.store }).2.1 :=
      Modules.onCommand_within
    have he : ModuleId.mayEmit .wm e := hw.forall_events rfl e he
    refine ⟨?_, he.notRemoval⟩
    cases e <;> simp_all [ModuleId.mayEmit, Event.rank]

/-- What an exit leaves on the display is the shell's doing. -/
theorem inject_exit_agree (clock : Clock) (a : Arbiter) (p : Pid) :
    ∃ c : Ctx, a.store.Agree c.store ∧
    (Shell.onSurfaceRemoved c p).store.Agree
      (a.inject buildRegistry clock (.surfaceRemoved p)).1.store := by
  let a₁ := (handler clock .wm (.surfaceRemoved p) a).state
  have hw : a.store.Agree a₁.store := (Modules.onEvent_aside (c := { store := a.store }) rfl).store
  refine ⟨{ store := a₁.store }, hw, ?_⟩
  rw [inject_exit, handlers_buildRegistry, Bus.fan_append]
  let Q (s : Arbiter) : Prop := (Shell.onSurfaceRemoved { store := a₁.store } p).store.Agree s.store
  have h₁ : Q (handler clock .shell (.surfaceRemoved p) a₁).state := .refl
  refine Bus.fan_keeps (Q := Q) (fun hd hm s hs => ?_) h₁
  obtain ⟨id, hid, rfl⟩ := List.mem_map.mp hm
  refine hs.trans ?_
  by_cases ha : id.isAside
  · exact (Modules.onEvent_aside (c := { store := s.store }) ha).store
  · cases id with
    | shell => simp at hid
    | keyguard => exact .refl
    | _ => simp [ModuleId.isAside] at ha

end Arbiter

/-! ## The home app -/

namespace Daemon

variable {w w' : World} {d d' : Daemon} {p q : Pid} {h : String} {rest : List (Except String Pid)}

theorem runPlain_wm_agree {v : Wm.Verb} {args : String} :
    d.arbiter.store.Agree (runPlain w (.wm v) args d).arbiter.store :=
  Arbiter.command_wm_agree

omit [Fpu] in
@[simp]
theorem zygote_performAll {fx : List Effect} : (d.performAll fx).zygote = d.zygote := rfl

theorem zygote_runPlain {v : Verb} {args : String} : (runPlain w v args d).zygote = d.zygote :=
  zygote_performAll

/-- Reconciling the chrome shows nothing else, and launches nothing. -/
theorem reconcileIfChanged_agree (w : World) (d d' : Daemon) :
    d'.arbiter.store.Agree (reconcileIfChanged w d d').arbiter.store ∧
      (reconcileIfChanged w d d').zygote = d'.zygote := by
  unfold reconcileIfChanged
  split
  · have he : reconcileImmersive (executeEffects w) w d' = _ := reconcileImmersive_eq
    rw [he]
    exact ⟨runPlain_wm_agree, zygote_runPlain⟩
  · exact ⟨.refl, rfl⟩

/-- A tracked app brought to the foreground is looked at. -/
theorem shows_foreground {app : AppState} (ha : d.arbiter.store.app h = some app) (hne : h ≠ "") :
    (foreground w h d).arbiter.store.primary.Shows := by
  have he : foreground w h d = bringForward w h d := dispatchForeground_eq
  have hs : (runPlain w (.shell .foreground) h d).arbiter.store.primary.Shows :=
    Arbiter.command_foreground_shows ha hne
  rw [he]
  exact hs.congr runPlain_wm_agree.surfaces

/-- The home app comes forward when it is tracked, and when it can be launched. -/
theorem shows_ensureHomeForeground (hh : d.arbiter.store.home = some h) (hne : h ≠ "")
    (hz : d.zygote = .ok q :: rest) (hs : d.foregroundSlot = none) :
    (ensureHomeForeground w d).arbiter.store.primary.Shows := by
  unfold ensureHomeForeground
  rw [hh]
  dsimp only
  rw [hs, if_neg (by simp)]
  split
  · next ha =>
    obtain ⟨app, ha⟩ := Option.isSome_iff_exists.mp ha
    exact shows_foreground ha hne
  · have hl : ({ d with zygote := rest }.registerLaunch w.clock h q
        .background).arbiter.store.app h = some ⟨h, q, w.clock.unix, w.clock.mono⟩ := by
      simp only [registerLaunch, modifyStore, Store.app, Store.apps_modifyDisplay, Store.insertApp]
      rw [Table.get?_put, if_pos rfl]
    unfold askZygote
    rw [hz]
    dsimp only
    exact shows_foreground hl hne

omit [Fpu] in
theorem foregroundSlot_eq_none_iff :
    d.foregroundSlot = none ↔ d.arbiter.store.primary.foregroundSlot = none := by
  unfold foregroundSlot
  rw [Option.map_eq_none_iff, Store.bind_display_foregroundSlot]

/-! ## Exits -/

theorem executeEffects_plain {fx : List Effect} (hp : ∀ f ∈ fx, f.Plain) :
    executeEffects w fx d = d.performAll fx :=
  executeWithin_plain hp

/-- The state after the reactions to an event. -/
def injected (w : World) (e : Event) (d : Daemon) : Daemon :=
  { d with arbiter := (d.arbiter.inject buildRegistry w.clock e).1 }

omit [Fpu] in
@[simp]
theorem arbiter_performAll {fx : List Effect} : (d.performAll fx).arbiter = d.arbiter := rfl

theorem arbiter_injected {e : Event} :
    (injected w e d).arbiter = (d.arbiter.inject buildRegistry w.clock e).1 := by
  rw [injected]

theorem busEmit_untimed {e : Event} (he : e.Untimed) : busEmit w e d = reconcileIfChanged w d
    ((injected w e d).performAll (d.arbiter.inject buildRegistry w.clock e).2) := by
  have hp : executeEffects w (d.arbiter.inject buildRegistry w.clock e).2 (injected w e d) = _ :=
    executeEffects_plain (Arbiter.inject_plain he)
  rw [← hp]
  rfl

theorem zygote_busEmit {e : Event} (he : e.Untimed) : (busEmit w e d).zygote = d.zygote := by
  rw [busEmit_untimed he, (reconcileIfChanged_agree _ _ _).2, zygote_performAll, injected]

/-- What an exit leaves before the home app is called for. -/
theorem busEmit_exit_agree (w : World) (d : Daemon) (p : Pid) :
    ∃ c : Ctx, d.arbiter.store.Agree c.store ∧ (Shell.onSurfaceRemoved c p).store.Agree
      (busEmit w (.surfaceRemoved p) d).arbiter.store := by
  obtain ⟨c, hc, hi⟩ := Arbiter.inject_exit_agree w.clock d.arbiter p
  have hu : (Event.surfaceRemoved p).Untimed := fun _ => Event.noConfusion
  refine ⟨c, hc, ?_⟩
  have hr := (reconcileIfChanged_agree w d ((injected w (.surfaceRemoved p) d).performAll
    (d.arbiter.inject buildRegistry w.clock (.surfaceRemoved p)).2)).1
  rw [arbiter_performAll, arbiter_injected] at hr
  rw [busEmit_untimed hu]
  exact hi.trans hr

/-- The exit of a process the registry does not know is ignored; that of one it knows is
    met by the home app, unless another app is visible or an overlay stays. -/
theorem shows_childExit_iff (hh : d.arbiter.store.home = some h) (hne : h ≠ "")
    (hz : d.zygote = .ok q :: rest) :
    (step w (.childExit p) d).arbiter.store.primary.Shows ↔
      if (d.arbiter.store.appByPid p).isNone then d.arbiter.store.primary.Shows
      else d.arbiter.store.primary.ShowsOther p ∨ d.arbiter.store.primary.Clears p := by
  obtain ⟨c, hc, hd⟩ := busEmit_exit_agree w d p
  have hu : (Event.surfaceRemoved p).Untimed := fun _ => Event.noConfusion
  have hz' := (zygote_busEmit (w := w) (d := d) hu).trans hz
  have hh' := hd.home.trans (((Shell.onSurfaceRemoved_home c p).trans hc.home).trans hh)
  have hslot := Shell.onSurfaceRemoved_slot_iff (c := c) (p := p)
  rw [hc.showsOther_iff, hc.clears_iff, ← hd.shows_iff, ← hd.foregroundSlot,
    ← foregroundSlot_eq_none_iff] at hslot
  simp only [step, handleChildExit]
  split
  · rfl
  · rw [← hslot]
    by_cases hs : (busEmit w (.surfaceRemoved p) d).foregroundSlot = none
    · rw [if_pos ⟨by rw [hs]; rfl, by rw [hh']; rfl⟩]
      exact iff_of_true (shows_ensureHomeForeground hh' hne hz' hs) (.inr hs)
    · rw [if_neg (by simp [hs])]
      exact (or_iff_left hs).symm

/-! ## Kills -/

/-- A command that emits nothing and requests plain effects does what its module does. -/
theorem step_module_agree {verb : Verb} {args : String}
    (hq : (d.arbiter.handle w.clock verb args).1.events = [])
    (hp : ∀ f ∈ (d.arbiter.handle w.clock verb args).1.effects, f.Plain) :
    (d.arbiter.handle w.clock verb args).1.state.store.Agree
        (step w (.client (.module verb args)) d).arbiter.store ∧
      (step w (.client (.module verb args)) d).zygote = d.zygote := by
  have hc : d.arbiter.command buildRegistry w.clock verb args = _ := Arbiter.command_of_quiet hq
  have hr : (run w verb args d).1 =
      { d with arbiter := (d.arbiter.handle w.clock verb args).1.state }.performAll
        (d.arbiter.handle w.clock verb args).1.effects := by
    unfold run runAndExecute runModule
    rw [hc]
    exact executeEffects_plain hp
  have hs := reconcileIfChanged_agree w d (run w verb args d).1
  rw [hr, arbiter_performAll, zygote_performAll] at hs
  have he : step w (.client (.module verb args)) d =
      reconcileIfChanged w d (run w verb args d).1 := rfl
  rw [he, hr]
  exact hs

end Daemon

/-- How a process is ended: it exits by itself, or it is killed by a command. -/
inductive Ending
  | exit (pid : Pid)
  | kill (appId : String)
  | taskKill (appId : String)

namespace Ending

/-- What the daemon hears of an ending first. -/
def input : Ending → Daemon.Input
  | .exit p => .childExit p
  | .kill appId => .client (.module (.shell .kill) appId)
  | .taskKill appId => .client (.module (.shell .taskKill) appId)

/-- The app a command kills. -/
def victim (s : Store) : Ending → Option AppState
  | .exit _ => none
  | .kill appId => if appId = "" then none else s.app appId
  | .taskKill appId =>
    if appId = "" ∨ Shell.chromeAppIds.contains appId ∨ s.home = some appId then none
    else s.app appId

/-- The daemon once an ending is handled completely: a command that kills is followed by
    the exit it causes. -/
def handled (w w' : World) (e : Ending) (d : Daemon) : Daemon :=
  match e.victim d.arbiter.store with
  | some app => (d.step w e.input).step w' (.childExit app.pid)
  | none => d.step w e.input

/-- An ending that leaves an app visible. For an exit, the home app comes forward unless
    an overlay stays. For a kill it does not, as the exit finds nothing to clean up: another
    app is to be visible, or else another app is registered for the process and there is no
    other overlay. -/
def Leaves (s : Store) (e : Ending) : Prop :=
  match e, e.victim s with
  | .exit p, _ =>
    if (s.appByPid p).isNone then s.primary.Shows else s.primary.ShowsOther p ∨ s.primary.Clears p
  | _, some app => s.primary.ShowsOther app.pid ∨
      (∃ app' ∈ s.apps.rows, app'.appId ≠ app.appId ∧ app'.pid = app.pid) ∧
        ∀ q, q ≠ app.pid → s.primary.roleOf q ≠ some .overlay
  | _, none => s.primary.Shows

variable {w w' : World} {d : Daemon} {e : Ending} {app : AppState} {s : Store}

/-- A command that kills takes the app from the registry and its surface from the
    display. -/
theorem step_victim (hv : e.victim d.arbiter.store = some app) :
    (d.arbiter.store.without app).Agree (d.step w e.input).arbiter.store ∧
      (d.step w e.input).zygote = d.zygote := by
  have ho (v : Shell.Verb) (appId : String) (ha : d.arbiter.store.app appId = some app)
      (hv : (Shell.onCommand w.clock v appId { store := d.arbiter.store }).1 =
        (Shell.killApp { store := d.arbiter.store } appId app).1) :
      (d.arbiter.store.without app).Agree
          (d.step w (.client (.module (.shell v) appId))).arbiter.store ∧
        (d.step w (.client (.module (.shell v) appId))).zygote = d.zygote := by
    have hk : app.appId = appId := Table.key_of_get? ha
    have he : (d.arbiter.handle w.clock (.shell v) appId).1 =
        d.arbiter.out d.arbiter.mods (Shell.killApp { store := d.arbiter.store } appId app).1 := by
      rw [← hv]
      rfl
    have hs := Daemon.step_module_agree (w := w) (d := d) (by rw [he]; rfl) fun f hf => by
      rw [he] at hf
      simp [Shell.killApp] at hf
      rw [hf]
      trivial
    rw [he] at hs
    rw [Store.without, hk]
    exact hs
  cases e with
  | exit p => cases hv
  | kill appId =>
    obtain ⟨hne, ha⟩ := Option.ite_none_left_eq_some.mp hv
    refine ho .kill appId ha ?_
    simp [Shell.onCommand, Shell.cmdKill, hne, ha]
  | taskKill appId =>
    obtain ⟨hne, ha⟩ := Option.ite_none_left_eq_some.mp hv
    rw [not_or] at hne
    refine ho .taskKill appId ha ?_
    simp only [Shell.onCommand, Shell.cmdTaskKill, if_neg hne.1, ha, if_neg hne.2]

/-- A command that settles on no app changes nothing that is shown. -/
theorem step_spared (hv : e.victim d.arbiter.store = none) (he : ∀ p, e ≠ .exit p) :
    d.arbiter.store.Agree (d.step w e.input).arbiter.store := by
  have ho (v : Shell.Verb) (appId : String)
      (hv : (Shell.onCommand w.clock v appId { store := d.arbiter.store }).1 =
        { store := d.arbiter.store }) :
      d.arbiter.store.Agree (d.step w (.client (.module (.shell v) appId))).arbiter.store := by
    have he : (d.arbiter.handle w.clock (.shell v) appId).1 =
        d.arbiter.out d.arbiter.mods { store := d.arbiter.store } := by
      rw [← hv]
      rfl
    have hs := Daemon.step_module_agree (w := w) (d := d) (by rw [he]; rfl) fun f hf => by
      rw [he] at hf
      exact absurd hf List.not_mem_nil
    rw [he] at hs
    exact hs.1
  cases e with
  | exit p => exact absurd rfl (he p)
  | kill appId =>
    refine ho .kill appId ?_
    simp only [Shell.onCommand, Shell.cmdKill]
    split
    · rfl
    · next hne =>
      have ha : d.arbiter.store.app appId = none := (if_neg hne).symm.trans hv
      rw [ha]
  | taskKill appId =>
    refine ho .taskKill appId ?_
    simp only [Shell.onCommand, Shell.cmdTaskKill]
    split
    · rfl
    · next hne =>
      split
      · rfl
      · next app ha =>
        split
        · rfl
        · next hp =>
          have ha' := (if_neg (not_or.mpr ⟨hne, hp⟩)).symm.trans hv
          rw [ha'] at ha
          cases ha

end Ending

namespace Ending

variable {w w' : World} {d : Daemon} {h : String}

/-- With a home app that can be launched, an app is visible after an ending exactly when
    the ending leaves one. -/
theorem shows_handled_iff (e : Ending) (hh : d.arbiter.store.home = some h) (hne : h ≠ "")
    (hz : ∃ q rest, d.zygote = .ok q :: rest) :
    (e.handled w w' d).arbiter.store.primary.Shows ↔ e.Leaves d.arbiter.store := by
  obtain ⟨q, rest, hz⟩ := hz
  by_cases he : ∃ p, e = .exit p
  · obtain ⟨p, rfl⟩ := he
    exact Daemon.shows_childExit_iff hh hne hz
  rw [not_exists] at he
  cases hv : e.victim d.arbiter.store with
  | none =>
    have hl : e.Leaves d.arbiter.store ↔ d.arbiter.store.primary.Shows := by
      cases e with
      | exit p => exact absurd rfl (he p)
      | _ => simp only [Leaves, hv]
    rw [hl, handled, hv]
    exact (step_spared hv he).shows_iff
  | some app =>
    obtain ⟨ha, hz'⟩ := step_victim (w := w) hv
    have hl : e.Leaves d.arbiter.store ↔ d.arbiter.store.primary.ShowsOther app.pid ∨
        (∃ app' ∈ d.arbiter.store.apps.rows, app'.appId ≠ app.appId ∧ app'.pid = app.pid) ∧
          ∀ q, q ≠ app.pid → d.arbiter.store.primary.roleOf q ≠ some .overlay := by
      cases e with
      | exit p => exact absurd rfl (he p)
      | _ => simp only [Leaves, hv]
    rw [hl, handled, hv]
    dsimp only
    rw [Daemon.shows_childExit_iff (ha.home.trans hh) hne (hz'.trans hz), ha.appByPid,
      ha.shows_iff, ha.showsOther_iff, ha.clears_iff, Store.shows_without,
      Store.showsOther_without, Store.clears_without]
    split
    · next hn => simp [Store.appByPid_without.mp hn]
    · next hn => rw [and_iff_right (not_not.mp (mt Store.appByPid_without.mpr hn))]

end Ending

end

section

attribute [local instance] Fpu.comparator

namespace Daemon

/-- The daemon after boot with a home app, which was launched. -/
def atHome : Daemon := boot still { home := some "h", zygote := [.ok 7, .ok 8] }

end Daemon

namespace Ending

open Daemon

/-- The home app exits and is launched again. -/
theorem shows_handled_iff_atHome :
    ((Ending.exit 7).handled still still atHome).arbiter.store.primary.Shows ↔
      (Ending.exit 7).Leaves atHome.arbiter.store :=
  shows_handled_iff (h := "h") _ (by decide) (by decide) ⟨8, [], by rfl⟩

/-- The home app is killed, and nothing comes forward in its place. -/
theorem home_killed_empties : ∃ d, Reachable d ∧ d.arbiter.mods.keyguard.locked = false ∧
    d.arbiter.store.home = some "h" ∧ (∃ q rest, d.zygote = .ok q :: rest) ∧
    d.arbiter.store.primary.visibleApp = some 7 ∧
    ((Ending.kill "h").handled still still d).arbiter.store.primary.visibleApp = none := by
  refine ⟨atHome, .boot _ _, by decide, by decide, ⟨8, [], by rfl⟩, by decide, by decide⟩

end Ending

end

end Wandr
