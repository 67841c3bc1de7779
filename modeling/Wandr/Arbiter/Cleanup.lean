import Wandr.Arbiter.Presence

/-!
# After an exit

The exit of a process is cleaned up by several modules, each looking the app of the
process up in the registry. The shell comes early in the order of registration, and
takes the app from the registry: the keyguard and the audio module, which come later,
find nothing to clean up.

* `Arbiter.inject_surfaceRemoved_recalls`: the notifications of the app and its place
  as the app to restore are what they were;
* `Arbiter.exit_unmentioned_iff`: the app is not mentioned any more exactly when it was
  not mentioned before;
* `Daemon.badge_stays` is a run in which the owner of a call exits.
-/

namespace Wandr

variable {clock : Clock} {p : Pid}

/-- What calls, rings, the lock screen and the power menu have to say of an app is the
    same before and after. -/
structure Arbiter.Recalls (o : String) (a a' : Arbiter) : Prop where
  notifications : ∀ n, a'.store.notifications.get? (o, n) = a.store.notifications.get? (o, n)
  savedFg : a'.mods.keyguard.savedFg = some o ↔ a.mods.keyguard.savedFg = some o
  menuSavedFg : a'.mods.keyguard.menuSavedFg = some o ↔ a.mods.keyguard.menuSavedFg = some o

/-- Nothing is left of an app: no badge of a call or a ring, and no place as the app
    to restore. -/
structure Arbiter.Unmentioned (a : Arbiter) (o : String) : Prop where
  call : a.store.notifications.get? (o, callNotifId) = none
  ring : a.store.notifications.get? (o, ringNotifId) = none
  savedFg : a.mods.keyguard.savedFg ≠ some o
  menuSavedFg : a.mods.keyguard.menuSavedFg ≠ some o

namespace Arbiter

variable {a a' a'' : Arbiter} {o : String}

theorem Recalls.trans (h : Recalls o a a') (h' : Recalls o a' a'') : Recalls o a a'' :=
  ⟨fun n => (h'.notifications n).trans (h.notifications n), h'.savedFg.trans h.savedFg,
    h'.menuSavedFg.trans h.menuSavedFg⟩

theorem Recalls.of_eq (hs : a.store.SameNotes a'.store)
    (hk : a'.mods.keyguard = a.mods.keyguard) : Recalls o a a' :=
  ⟨fun n => by rw [hs], by rw [hk], by rw [hk]⟩

theorem Recalls.unmentioned_iff (h : Recalls o a a') : a'.Unmentioned o ↔ a.Unmentioned o := by
  constructor
  · rintro ⟨hc, hr, hs, hm⟩
    exact ⟨by rwa [h.notifications] at hc, by rwa [h.notifications] at hr,
      fun hs' => hs (h.savedFg.mpr hs'), fun hm' => hm (h.menuSavedFg.mpr hm')⟩
  · rintro ⟨hc, hr, hs, hm⟩
    exact ⟨by rwa [h.notifications], by rwa [h.notifications],
      fun hs' => hs (h.savedFg.mp hs'), fun hm' => hm (h.menuSavedFg.mp hm')⟩

end Arbiter

/-- The process is not that of the app any more. -/
def Store.Lost (s : Store) (p : Pid) (o : String) : Prop :=
  ∀ app, s.appByPid p = some app → app.appId ≠ o

/-! ## The modules after the shell -/

namespace AudioModule

variable {m : AudioModule} {c : Ctx} {o : String} {n k : Nat}

/-- Clearing the badge of a process clears no badge of an app it is not of. -/
theorem clearBadge_recalls (h : c.store.Lost p o) :
    (clearBadge p n c).store.notifications.get? (o, k) = c.store.notifications.get? (o, k) ∧
      (clearBadge p n c).store.apps = c.store.apps := by
  unfold clearBadge
  split
  · next app happ =>
    refine ⟨?_, rfl⟩
    have hne : (o, k) ≠ (app.appId, n) := fun heq => h app happ (Prod.mk.inj heq).1.symm
    simp only [Ctx.store_modifyStore, Store.cancelNotification]
    rw [Table.get?_erase, if_neg hne]
  · exact ⟨rfl, rfl⟩

theorem clearBadge_lost (h : c.store.Lost p o) : (clearBadge p n c).store.Lost p o := by
  intro app happ
  rw [Store.appByPid, (clearBadge_recalls (n := n) (k := 0) h).2] at happ
  exact h app happ

theorem store_dropPid : (m.dropPid p c).2.store = c.store :=
  (dropPid_aside (R := Eq) (E := fun _ => False)).store.symm

/-- The audio module clears the badges of the app it finds, which is not the app the
    process was of. -/
theorem onSurfaceRemoved_recalls (h : c.store.Lost p o) :
    (m.onSurfaceRemoved p c).2.store.notifications.get? (o, k) =
      c.store.notifications.get? (o, k) ∧
    (m.onSurfaceRemoved p c).2.store.apps = c.store.apps := by
  have hc := clearBadge_recalls (n := callNotifId) (k := k) h
  have hr := clearBadge_recalls (n := ringNotifId) (k := k) h
  have hcr := clearBadge_recalls (n := ringNotifId) (k := k) (clearBadge_lost (n := callNotifId) h)
  unfold onSurfaceRemoved
  by_cases hm : m.comms = some p <;> by_cases hg : m.ringing = some p
  · simp only [hm, hg, if_true, store_dropPid]
    exact ⟨hcr.1.trans hc.1, hcr.2.trans hc.2⟩
  · simp only [hm, hg, if_true, if_false, store_dropPid]
    exact hc
  · simp only [hm, hg, if_true, if_false, store_dropPid]
    exact hr
  · simp only [hm, hg, if_false, store_dropPid]
    trivial

end AudioModule

/-- The keyguard forgets the app it finds, which is not the app the process was of. -/
theorem KeyguardModule.onSurfaceRemoved_recalls {m : KeyguardModule} {c : Ctx} {o : String}
    (h : c.store.Lost p o) :
    ((m.onSurfaceRemoved p c).1.savedFg = some o ↔ m.savedFg = some o) ∧
      ((m.onSurfaceRemoved p c).1.menuSavedFg = some o ↔ m.menuSavedFg = some o) := by
  have hne : (c.store.appByPid p).map AppState.appId ≠ some o := by
    intro heq
    obtain ⟨app, happ, hao⟩ := Option.map_eq_some_iff.mp heq
    exact h app happ hao
  unfold onSurfaceRemoved
  dsimp only
  constructor <;> split <;> simp_all

/-- The modules other than the shell, the keyguard, the audio module and the
    notifications touch neither the notifications nor the apps. -/
theorem ModuleId.allows_aloof {id : ModuleId} (hs : id ≠ .shell) (hk : id ≠ .keyguard)
    (ha : id ≠ .audio) (hn : id ≠ .notify) :
    ∀ q ∈ id.parts, Store.Allows Store.SameNotes q ∧ Store.Allows Store.SameApps q := by
  intro q hq
  cases id <;> simp [ModuleId.parts] at hq hs hk ha hn <;> subst hq <;>
    exact ⟨inferInstance, inferInstance⟩

/-- The shell takes the app from the registry, and says nothing of the notifications. -/
theorem Shell.onSurfaceRemoved_lost {c : Ctx} {app : AppState}
    (h : c.store.appByPid p = some app) : (onSurfaceRemoved c p).store.Lost p app.appId := by
  obtain ⟨s₁, hs₁, hs⟩ := onSurfaceRemoved_spec (c := c) p
  have hp : Store.SameApps c.store s₁ := hs₁ _
  rw [hs, h]
  intro app' happ'
  have hm : app' ∈ (s₁.apps.erase app.appId).rows := List.mem_of_find?_eq_some happ'
  exact (Table.mem_rows_erase.mp hm).2

theorem Shell.onSurfaceRemoved_notes {c : Ctx} :
    c.store.SameNotes (onSurfaceRemoved c p).store := by
  obtain ⟨s₁, hs₁, hs⟩ := onSurfaceRemoved_spec (c := c) p
  have hn : Store.SameNotes c.store s₁ := hs₁ _
  rw [hs]
  split <;> exact hn

section

variable [Fpu]

namespace Arbiter

variable {a : Arbiter} {o : String}

/-- A module other than the shell, the keyguard and the audio module says nothing of
    the app and takes no app from the registry. -/
theorem handler_aloof {id : ModuleId} (hs : id ≠ .shell) (hk : id ≠ .keyguard) (ha : id ≠ .audio) :
    Recalls o a (handler clock id (.surfaceRemoved p) a).state ∧
      (handler clock id (.surfaceRemoved p) a).state.store.apps = a.store.apps := by
  have hf (R : Store → Store → Prop) [IsPreorder Store R] (hR : ∀ p ∈ id.parts, Store.Allows R p) :
      R a.store (handler clock id (.surfaceRemoved p) a).state.store :=
    (Modules.onEvent_frame (c := { store := a.store }) R hR).store
  have hmods : (handler clock id (.surfaceRemoved p) a).state.mods.keyguard = a.mods.keyguard := by
    cases id <;> first | rfl | exact absurd rfl hk
  by_cases hn : id = .notify
  · subst hn
    exact ⟨.of_eq rfl rfl, rfl⟩
  · have hp := ModuleId.allows_aloof hs hk ha hn
    exact ⟨.of_eq (hf _ fun q hq => (hp q hq).1) hmods, (hf _ fun q hq => (hp q hq).2).apps⟩

/-- Once the process is no longer the app's, no module says anything new of the app. -/
theorem handler_recalls {id : ModuleId} (hs : id ≠ .shell) (h : a.store.Lost p o) :
    Recalls o a (handler clock id (.surfaceRemoved p) a).state ∧
      (handler clock id (.surfaceRemoved p) a).state.store.apps = a.store.apps := by
  by_cases hk : id = .keyguard
  · subst hk
    have hr := KeyguardModule.onSurfaceRemoved_recalls (m := a.mods.keyguard)
      (c := { store := a.store }) h
    exact ⟨⟨fun _ => rfl, hr.1, hr.2⟩, rfl⟩
  · by_cases ha : id = .audio
    · subst ha
      have hr (k : Nat) := AudioModule.onSurfaceRemoved_recalls (m := a.mods.audio)
        (c := { store := a.store }) (k := k) h
      exact ⟨⟨fun n => (hr n).1, .rfl, .rfl⟩, (hr 0).2⟩
    · exact handler_aloof hs hk ha

/-- The registry of the daemon: the shell is the second to hear of an exit, and the
    keyguard and the audio module come after it. -/
theorem handlers_buildRegistry : handlers buildRegistry clock =
    handlers [.wm, .shell] clock ++
      handlers [.alarm, .notify, .power, .keyguard, .audio, .sensors, .net, .events, .mediaSession]
        clock := rfl

/-- The exit of a process is reacted to without an event. -/
theorem fan_exit_events {reg : Registry} {o : Bus.Out Arbiter Event Effect} :
    (Bus.fan (handlers reg clock) o (.surfaceRemoved p)).events = o.events := by
  refine Bus.fan_events_eq fun hd hm s => ?_
  obtain ⟨id, _, rfl⟩ := List.mem_map.mp hm
  refine List.eq_nil_iff_forall_not_mem.mpr fun e he => ?_
  exact absurd (handler_emits e he).1 (Nat.not_lt_zero _)

theorem inject_exit : a.inject buildRegistry clock (.surfaceRemoved p) =
    ((Bus.fan (handlers buildRegistry clock) (.start a) (.surfaceRemoved p)).state,
      (Bus.fan (handlers buildRegistry clock) (.start a) (.surfaceRemoved p)).effects) :=
  inject_of_quiet fan_exit_events

/-- The exit of a process leaves the notifications of its app, and the places it has
    as the app to restore, as they were. -/
theorem inject_surfaceRemoved_recalls {app : AppState} (h : a.store.appByPid p = some app) :
    Recalls app.appId a (a.inject buildRegistry clock (.surfaceRemoved p)).1 := by
  let Q (s : Arbiter) : Prop := Recalls app.appId a s ∧ s.store.Lost p app.appId
  have hkeep : ∀ hd ∈ handlers [.alarm, .notify, .power, .keyguard, .audio, .sensors, .net,
      .events, .mediaSession] clock, ∀ s, Q s → Q (hd (.surfaceRemoved p) s).state := by
    intro hd hm s ⟨hr, hl⟩
    obtain ⟨id, hid, rfl⟩ := List.mem_map.mp hm
    have hs : id ≠ .shell := by
      rintro rfl
      simp at hid
    have hh : Recalls app.appId s (handler clock id (.surfaceRemoved p) s).state ∧
        (handler clock id (.surfaceRemoved p) s).state.store.apps = s.store.apps :=
      handler_recalls hs hl
    refine ⟨hr.trans hh.1, fun app' happ' => hl app' ?_⟩
    rw [Store.appByPid, hh.2] at happ'
    exact happ'
  rw [inject_exit, handlers_buildRegistry, Bus.fan_append]
  refine (Bus.fan_keeps (Q := Q) hkeep ?_).1
  -- the window manager, then the shell
  let a₁ := (handler clock .wm (.surfaceRemoved p) a).state
  have hw : Recalls app.appId a a₁ ∧ a₁.store.apps = a.store.apps :=
    handler_aloof (by decide) (by decide) (by decide)
  have happ : a₁.store.appByPid p = some app := by
    rw [Store.appByPid, hw.2]
    exact h
  have hlost : Q (handler clock .shell (.surfaceRemoved p) a₁).state :=
    ⟨hw.1.trans (.of_eq Shell.onSurfaceRemoved_notes rfl), Shell.onSurfaceRemoved_lost happ⟩
  exact hlost

/-- After the exit of a process, nothing is left of its app exactly when nothing was
    there before. -/
theorem exit_unmentioned_iff {app : AppState} (h : a.store.appByPid p = some app) :
    (a.inject buildRegistry clock (.surfaceRemoved p)).1.Unmentioned app.appId ↔
      a.Unmentioned app.appId :=
  (inject_surfaceRemoved_recalls h).unmentioned_iff

end Arbiter

end

section

attribute [local instance] Fpu.comparator

namespace Daemon

/-- A call is started by an app that runs in the background. -/
def calling : Daemon :=
  step still (.client (.module (.audio .callStart) "7"))
    (step still (.client (.legacy .launchHeadless "b")) (boot still { zygote := [.ok 7] }))

theorem calling_reachable : Reachable calling :=
  .step _ _ (.step _ _ (.boot _ _) (by decide)) (by decide)

/-- An app that holds nothing exits, and nothing is left of it. -/
theorem exit_unmentioned_iff_idle :
    let d := step still (.client (.legacy .launchHeadless "b")) (boot still { zygote := [.ok 7] })
    (d.arbiter.inject buildRegistry still.clock (.surfaceRemoved 7)).1.Unmentioned "b" := by
  intro d
  have h : d.arbiter.store.appByPid 7 = some ⟨"b", 7, still.clock.unix, still.clock.mono⟩ := by
    decide
  exact (Arbiter.exit_unmentioned_iff h).mpr ⟨by decide, by decide, by decide, by decide⟩

/-- The owner of a call exits, and the badge of the call stays. -/
theorem badge_stays : ∃ d, Reachable d ∧ d.arbiter.mods.audio.comms = some 7 ∧
    (d.arbiter.store.appByPid 7).map AppState.appId = some "b" ∧
    ¬ (d.arbiter.inject buildRegistry still.clock (.surfaceRemoved 7)).1.Unmentioned "b" := by
  refine ⟨calling, calling_reachable, by decide, by decide, ?_⟩
  rintro ⟨hc, -, -, -⟩
  exact absurd hc (by decide)

end Daemon

end

end Wandr
