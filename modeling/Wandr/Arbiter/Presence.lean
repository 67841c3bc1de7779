import Wandr.Arbiter.Wakes

/-!
# Surfaces and the registry

The registry of apps is keyed by their app-ids and the surfaces of a display by
their processes. Registering an app under an app-id that is taken replaces the
entry, and leaves the surface of the process replaced behind.

* `Store.registered_insert_iff`: registering a process keeps every surface that of a
  registered one exactly when the entry replaced spares its own;
* `Arbiter.handler_registered`: no reaction to an event leaves a surface behind;
* `Daemon.surfaces_registered`: in any run whose registrations spare the surfaces of
  the entries they replace, every surface is that of a registered process, so that
  the exit of the process is noticed;
* `Daemon.surface_orphaned` is a run that launches a running app in the background.
-/

namespace Wandr

namespace Store

/-- The process is the registered one of some app. -/
def Tracks (s : Store) (p : Pid) : Prop := ∃ app ∈ s.apps.rows, app.pid = p

/-- Every surface is that of a registered process. -/
def Registered (s : Store) : Prop := ∀ p, (s.primary.roleOf p).isSome → s.Tracks p

/-- Registering `pid` as the process of an app leaves no surface behind: the entry it
    replaces has the same process, or no surface, or shares it with another entry. -/
def Spares (s : Store) (appId : String) (pid : Pid) : Prop :=
  ∀ old, s.app appId = some old → old.pid = pid ∨ (s.primary.roleOf old.pid) = none ∨
    ∃ other ∈ s.apps.rows, other.appId ≠ appId ∧ other.pid = old.pid

/-- The apps stay, and surfaces are placed for processes of `T` only. -/
def Places (T : Pid → Prop) (s s' : Store) : Prop :=
  s'.apps = s.apps ∧ ∀ p, (s'.primary.roleOf p).isSome → (s.primary.roleOf p).isSome ∨ T p

variable {T : Pid → Prop} {s s' : Store} {a : AppState} {p : Pid} {r : Role}

instance : IsPreorder Store (Places T) where
  refl _ := ⟨rfl, fun _ h => .inl h⟩
  trans _ _ _ h h' := ⟨h'.1.trans h.1, fun p hp => (h'.2 p hp).elim (h.2 p) .inr⟩

theorem Places.of_agree (h : s.Agree s') : Places T s s' :=
  ⟨h.apps, fun p hp => .inl (by rwa [h.roleOf] at hp)⟩

instance : Allows (Places T) .geometry := ⟨fun h => .of_agree (Allows.write h)⟩
instance : Allows (Places T) .imeHeight := ⟨fun h => .of_agree (Allows.write h)⟩
instance : Allows (Places T) .alarms := ⟨fun h => .of_agree (Allows.write h)⟩
instance : Allows (Places T) .notifications := ⟨fun h => .of_agree (Allows.write h)⟩
instance : Allows (Places T) .sensors := ⟨fun h => .of_agree (Allows.write h)⟩

instance : Allows (Places T) .roles :=
  ⟨by rintro s _ ⟨f, rfl, hf⟩; exact ⟨rfl, fun p hp => .inl (hf p (by simpa using hp))⟩⟩

theorem admits_places (hp : T p) : Admits (Places T) p := by
  refine fun s a r => ⟨rfl, fun q hq => ?_⟩
  rw [primary_modifyDisplay, DisplayState.roleOf_putSurface] at hq
  split at hq
  · next heq => exact .inr (heq ▸ hp)
  · exact .inl hq

theorem tracks_of_mem : ∀ app ∈ s.apps.rows, Admits (Places s.Tracks) app.pid :=
  fun app h => admits_places ⟨app, h, rfl⟩

theorem tracks_congr (h : s'.apps = s.apps) : s'.Tracks p ↔ s.Tracks p := by
  rw [Tracks, Tracks, h]

theorem Registered.places (h : s.Registered) (hp : Places s.Tracks s s') : s'.Registered :=
  fun p hs => (tracks_congr hp.1).mpr ((hp.2 p hs).elim (h p) id)

/-- Registering an app and placing its surface. -/
theorem registered_insert_iff (h : s.Registered) :
    ((s.insertApp a).modifyDisplay primaryDisplay fun d =>
      d.putSurface a.pid a.appId r).Registered ↔ s.Spares a.appId a.pid := by
  have ht (p : Pid) : (s.insertApp a).Tracks p ↔
      a.pid = p ∨ ∃ b ∈ s.apps.rows, b.appId ≠ a.appId ∧ b.pid = p := by
    simp only [Tracks, insertApp, Table.mem_rows_put]
    grind
  have hr (p : Pid) : (((s.insertApp a).modifyDisplay primaryDisplay fun d =>
      d.putSurface a.pid a.appId r).primary.roleOf p).isSome ↔
        p = a.pid ∨ (s.primary.roleOf p).isSome := by
    rw [primary_modifyDisplay, DisplayState.roleOf_putSurface, primary_insertApp]
    split <;> simp_all
  constructor
  · intro hreg old hold
    by_cases hs : (s.primary.roleOf old.pid).isSome
    · rcases (ht _).mp (hreg old.pid ((hr _).mpr (.inr hs))) with hp | hb
      · exact .inl hp.symm
      · exact .inr (.inr hb)
    · exact .inr (.inl (by simpa using hs))
  · intro hsp p hp
    refine (ht p).mpr ?_
    rcases (hr p).mp hp with rfl | hs
    · exact .inl rfl
    · obtain ⟨b, hb, rfl⟩ := h p hs
      by_cases hba : b.appId = a.appId
      · have hg : s.app a.appId = some b := hba ▸ Table.get?_of_mem hb
        rcases hsp b hg with hpid | hnone | hother
        · exact .inl hpid.symm
        · rw [hnone] at hs
          cases hs
        · exact .inr hother
      · exact .inr ⟨b, hb, hba, rfl⟩

/-- An app that is not running has no entry to replace. -/
theorem Spares.of_absent {appId : String} (h : s.app appId = none) : s.Spares appId p := by
  intro old hold
  rw [h] at hold
  cases hold

/-- Removing an app together with the surface of its process. -/
theorem Registered.remove {s₁ : Store} {appId : String} (h : s.Registered)
    (hs : Places s.Tracks s s₁) (ha : ∀ app ∈ s.apps.rows, app.appId = appId → app.pid = p) :
    ((s₁.removeApp appId).modifyDisplay primaryDisplay fun d => d.removeSurface p).Registered := by
  intro q hq
  rw [primary_modifyDisplay, DisplayState.roleOf_removeSurface, primary_removeApp] at hq
  split at hq
  · cases hq
  · next hqp =>
    obtain ⟨app, happ, rfl⟩ := h.places hs q hq
    refine ⟨app, Table.mem_rows_erase.mpr ⟨happ, fun hk => hqp ?_⟩, rfl⟩
    rw [hs.1] at happ
    exact ha app happ hk

end Store

/-! ## The commands and the reactions -/

variable {c : Ctx} {clock : Clock}

namespace Shell

open Text

/-- The entry that `register-chrome` makes. -/
def chromeEntry (args : String) : Option (String × Pid) :=
  match splitWhitespace args with
  | appId :: pidS :: _ => (parseSigned 32 pidS).map fun pid => (appId, pid)
  | _ => none

theorem killApp_registered {st : AppState} (h : c.store.Registered)
    (hst : c.store.app st.appId = some st) :
    (killApp c st.appId st).1.store.Registered := by
  have hs : Store.Places c.store.Tracks c.store c.store := refl_of _ _
  refine h.remove hs fun app happ hk => ?_
  have hg : c.store.app app.appId = some app := Table.get?_of_mem happ
  rw [hk, hst] at hg
  rw [Option.some.inj hg]

theorem onSurfaceRemoved_registered {p : Pid} (h : c.store.Registered) :
    (onSurfaceRemoved c p).store.Registered := by
  obtain ⟨s₁, hs₁, hs⟩ := onSurfaceRemoved_spec (c := c) p
  have hp : Store.Places c.store.Tracks c.store s₁ := hs₁ _
  rw [hs]
  split
  · next app happ =>
    refine h.remove hp fun b hb hk => ?_
    have hmem := List.mem_of_find?_eq_some happ
    rw [Table.eq_of_key_eq hb hmem hk]
    simpa using List.find?_some happ
  · next hnone =>
    intro q hq
    rw [Store.primary_modifyDisplay, DisplayState.roleOf_removeSurface] at hq
    split at hq
    · cases hq
    · exact h.places hp q hq

variable [Fpu]

theorem onCommand_registered {verb : Verb} {args : String} (h : c.store.Registered)
    (hv : verb = .registerChrome → ∀ e, chromeEntry args = some e → c.store.Spares e.1 e.2) :
    (onCommand clock verb args c).1.store.Registered := by
  cases verb with
  | kill =>
    simp only [onCommand]
    unfold cmdKill
    split
    · exact h
    · split
      · exact h
      · next st hst =>
        obtain rfl : st.appId = args := Table.key_of_get? hst
        exact killApp_registered h hst
  | taskKill =>
    simp only [onCommand]
    unfold cmdTaskKill
    split
    · exact h
    · split
      · exact h
      · next st hst =>
        split
        · exact h
        · obtain rfl : st.appId = args := Table.key_of_get? hst
          exact killApp_registered h hst
  | registerChrome =>
    simp only [onCommand]
    unfold cmdRegisterChrome
    split
    · next appId pidS parts hargs =>
      split
      · exact h
      · next pid hpid =>
        have hsp : c.store.Spares appId pid :=
          hv rfl (appId, pid) (by simp [chromeEntry, hargs, hpid])
        have hi := (Store.registered_insert_iff (a := ⟨appId, pid, clock.unix, clock.mono⟩)
          (r := .chrome) h).mpr hsp
        dsimp only
        split
        · intro q hq
          refine hi q ?_
          simpa using hq
        · exact hi
    · exact h
  | _ =>
    exact h.places (onCommand_sameApps Store.tracks_of_mem (by simp) (by simp) (by simp)).store

end Shell

section

variable [Fpu]

namespace Arbiter

variable {reg : Registry} {a : Arbiter} {e : Event}

/-- No reaction to an event leaves a surface without its app. -/
theorem handler_registered (id : ModuleId) (h : a.store.Registered) :
    (handler clock id e a).state.store.Registered := by
  have hf (hR : ∀ p ∈ id.parts, Store.Allows (Store.Places a.store.Tracks) p) :
      (handler clock id e a).state.store.Registered :=
    h.places (Modules.onEvent_frame (c := { store := a.store }) _ hR).store
  cases id with
  | shell =>
    cases e with
    | surfaceRemoved p => exact Shell.onSurfaceRemoved_registered h
    | foregroundChanged f p =>
      exact h.places (Shell.onForegroundChanged_within (E := fun _ => True) fun _ => trivial).store
    | _ => exact h
  | keyguard =>
    exact h.places (KeyguardModule.onEvent_within (c := { store := a.store })
      Store.tracks_of_mem e).store
  | _ =>
    refine hf fun p hp => ?_
    simp only [ModuleId.parts, List.mem_singleton, List.not_mem_nil] at hp <;> subst hp <;>
      infer_instance

theorem inject_registered (h : a.store.Registered) :
    (a.inject reg clock e).1.store.Registered :=
  inject_keeps (J := fun a _ => a.store.Registered) (E := fun _ => True)
    (fun id _ => ⟨fun _ h => handler_registered id h, fun _ _ _ _ => trivial⟩) h trivial

theorem command_registered {verb : Verb} {args : String} (h : a.store.Registered)
    (hv : verb = .shell .registerChrome → ∀ e, Shell.chromeEntry args = some e →
      a.store.Spares e.1 e.2) : (a.command reg clock verb args).1.store.Registered := by
  have hc : (a.handle clock verb args).1.state.store.Registered := by
    have hf (hR : ∀ p ∈ verb.owner.parts, Store.Allows (Store.Places a.store.Tracks) p) :
        (a.handle clock verb args).1.state.store.Registered :=
      h.places (Modules.onCommand_frame (c := { store := a.store }) _ hR).store
    cases verb with
    | shell v => exact Shell.onCommand_registered h fun hv' => hv (by rw [hv'])
    | keyguard v =>
      exact h.places (KeyguardModule.onCommand_within (c := { store := a.store })
        Store.tracks_of_mem).store
    | _ =>
      refine hf fun p hp => ?_
      simp only [Verb.owner, ModuleId.parts, List.mem_singleton, List.not_mem_nil] at hp <;>
        subst hp <;> infer_instance
  exact command_keeps (J := fun a _ => a.store.Registered) (E := fun _ => True)
    (fun id _ => ⟨fun _ h => handler_registered id h, fun _ _ _ _ => trivial⟩) hc
    fun _ _ => trivial

/-! ## The launches a command asks for -/

/-- A command that emits nothing is run by itself. -/
theorem command_of_quiet {verb : Verb} {args : String}
    (h : (a.handle clock verb args).1.events = []) :
    a.command reg clock verb args = ((a.handle clock verb args).1.state,
      (a.handle clock verb args).1.effects, (a.handle clock verb args).2) := by
  unfold command drainCascade
  dsimp only
  rw [Bus.drain_of_events_nil h]

theorem launched_command {verb : Verb} {args : String}
    (h : ∀ f, verb.owner.mayRequest f → f.launchedApp = none) :
    launched (a.command reg clock verb args).2.1 = [] := by
  have hw : Ctx.Within Store.Anyhow verb.owner.mayEmit verb.owner.mayRequest
      { store := a.store } (a.mods.onCommand clock verb args { store := a.store }).2.1 :=
    Modules.onCommand_within
  refine List.filterMap_eq_nil_iff.mpr ?_
  refine command_keeps (J := fun _ fx => ∀ f ∈ fx, Effect.launchedApp f = none)
    (E := Event.Untimed) (fun id _ => ⟨fun he hJ f hf => ?_, fun _ _ e' he' => ?_⟩)
    (fun f hf => h f (hw.forall_effects rfl f hf)) fun e he => (hw.forall_events rfl e he).untimed
  · exact (List.mem_append.mp hf).elim (hJ f) fun hf => (handler_plain id he f hf).launchedApp
  · exact (handler_emits e' he').2.untimed

omit [Fpu] in
theorem effects_alarm {v : AlarmManager.Verb} {args : String} {c : Ctx} :
    (AlarmManager.onCommand v args c).1.effects = c.effects := by
  cases v with
  | schedule =>
    simp only [AlarmManager.onCommand]
    unfold AlarmManager.cmdSchedule
    split
    · split
      · rfl
      · split <;> rfl
    · rfl
  | cancel =>
    simp only [AlarmManager.onCommand]
    unfold AlarmManager.cmdCancel
    split
    · split
      · rfl
      · split <;> rfl
    · rfl

omit [Fpu] in
/-- A click on a notification launches its owner if it is not running. -/
theorem launched_notify {v : Notify.Verb} {args : String} :
    launched (Notify.onCommand v args { store := a.store }).1.effects = [] ∨
      ∃ o, launched (Notify.onCommand v args { store := a.store }).1.effects = [o] ∧
        a.store.app o = none := by
  cases v with
  | click =>
    simp only [Notify.onCommand]
    unfold Notify.cmdClick
    split
    · exact .inl rfl
    · next nid _ =>
      have hw := Store.takeNotification_write (s := a.store) (n := nid)
      split
      · exact .inl rfl
      · next s n heq =>
        rw [heq] at hw
        obtain ⟨_, _, rfl⟩ := hw
        dsimp only
        unfold Notify.click
        split
        · exact .inl rfl
        · next hn => exact .inr ⟨_, rfl, hn⟩
  | post =>
    simp only [Notify.onCommand]
    unfold Notify.cmdPost
    split
    · split
      · exact .inl rfl
      · split <;> exact .inl rfl
    · exact .inl rfl
  | cancel =>
    simp only [Notify.onCommand]
    unfold Notify.cmdCancel
    split
    · split
      · exact .inl rfl
      · split <;> exact .inl rfl
    · exact .inl rfl
  | list => exact .inl rfl

/-- A command asks for at most one launch, of an app that is not running and that it
    does not register. -/
theorem command_launched {verb : Verb} {args : String} :
    launched (a.command reg clock verb args).2.1 = [] ∨
      ∃ o, launched (a.command reg clock verb args).2.1 = [o] ∧
        (a.command reg clock verb args).1.store.app o = none := by
  cases verb with
  | alarm v =>
    have hw : Ctx.Within Store.Anyhow (fun _ => False) (ModuleId.mayRequest .alarm)
        { store := a.store } (AlarmManager.onCommand v args { store := a.store }).1 :=
      AlarmManager.onCommand_aside v args
    have he : (a.handle clock (.alarm v) args).1.events = [] := hw.events_eq
    have hfx : (a.handle clock (.alarm v) args).1.effects = [] := effects_alarm
    rw [command_of_quiet he, hfx]
    exact .inl rfl
  | notify v =>
    have hw : Ctx.Within Store.Agree (fun _ => False) (ModuleId.mayRequest .notify)
        { store := a.store } (Notify.onCommand v args { store := a.store }).1 :=
      Notify.onCommand_aside v args
    have he : (a.handle clock (.notify v) args).1.events = [] := hw.events_eq
    rw [command_of_quiet he]
    have hn : launched (Notify.onCommand v args { store := a.store }).1.effects = [] ∨
        ∃ o, launched (Notify.onCommand v args { store := a.store }).1.effects = [o] ∧
          a.store.app o = none := launched_notify
    refine hn.imp id fun ⟨o, ho, hn⟩ => ⟨o, ho, ?_⟩
    exact hw.store.app.trans hn
  | _ => exact .inl (launched_command fun f hf => by cases f <;> first | rfl | exact hf.elim)

end Arbiter

/-! ## Runs of the daemon -/

/-- The launches to come, with their answers: none that is answered is of a running
    app, and no two that are answered are of one app. -/
structure Pending (s : Store) (ls : List (String × Except String Pid)) : Prop where
  absent : ∀ o pid, (o, .ok pid) ∈ ls → s.app o = none
  once : ls.Pairwise fun x y => x.1 = y.1 → x.2.isOk = true → y.2.isOk = false

namespace Pending

omit [Fpu]

variable {s s' : Store} {ls : List (String × Except String Pid)} {o : String}

theorem nil : Pending s [] := ⟨by simp, .nil⟩

theorem congr (h : Pending s ls) (hs : ∀ o, s.app o = none → s'.app o = none) : Pending s' ls :=
  ⟨fun o pid hm => hs o (h.absent o pid hm), h.once⟩

theorem tail {x : String × Except String Pid} (h : Pending s (x :: ls)) : Pending s ls :=
  ⟨fun o pid hm => h.absent o pid (List.mem_cons_of_mem _ hm), (List.pairwise_cons.mp h.once).2⟩

theorem single {x : String × Except String Pid} (h : s.app x.1 = none) : Pending s [x] := by
  refine ⟨fun o pid hm => ?_, List.pairwise_singleton _ _⟩
  rw [← List.mem_singleton.mp hm] at h
  exact h

/-- After the first launch was answered, the others are of other apps. -/
theorem insertApp {a : AppState} {pid : Pid} (h : Pending s ((a.appId, .ok pid) :: ls)) :
    Pending (s.insertApp a) ls := by
  refine ⟨fun o pid' hm => ?_, h.tail.once⟩
  have hne : o ≠ a.appId := by
    rintro rfl
    have := (List.pairwise_cons.mp h.once).1 _ hm rfl rfl
    cases this
  rw [Store.app, Store.insertApp, Table.get?_put, if_neg hne]
  exact h.tail.absent o pid' hm

end Pending

namespace Daemon

variable {d : Daemon} {q : List Effect} {w : World}

/-- Every surface is that of a registered process, and the launches to come replace
    no entry. -/
structure Present (d : Daemon) (q : List Effect) : Prop where
  registered : d.arbiter.store.Registered
  pending : Pending d.arbiter.store ((launched q).zip d.zygote)

namespace Present

omit [Fpu]

theorem of_nil (h : d.arbiter.store.Registered) : d.Present [] := ⟨h, .nil⟩

theorem perform {f : Effect} (hf : f.launchedApp = none) (h : d.Present (f :: q)) :
    (d.perform f).Present q := by
  refine ⟨h.registered, ?_⟩
  have := h.pending
  rwa [launched, List.filterMap_cons_none hf] at this

/-- Registering the process of an app that spares the entry it replaces. -/
theorem register {appId : String} {pid : Pid} {role : Role} {clock : Clock}
    (h : d.arbiter.store.Registered) (hs : d.arbiter.store.Spares appId pid) :
    (d.registerLaunch clock appId pid role).arbiter.store.Registered :=
  (Store.registered_insert_iff (a := ⟨appId, pid, clock.unix, clock.mono⟩) h).mpr hs

theorem launchEffect {a : String} {k : LaunchKind} (h : d.Present (.launch a k :: q)) :
    (launchEffect w a k (d.perform (.launch a k))).Present q := by
  obtain ⟨hreg, hpend⟩ := h
  have hl : launched (.launch a k :: q) = a :: launched q := rfl
  rw [hl] at hpend
  rcases hz : d.zygote with _ | ⟨answer, rest⟩
  · rw [launchEffect_nil (d := d.perform _) hz]
    have hzz : (d.perform (.launch a k)).zygote = [] := hz
    refine ⟨hreg, ?_⟩
    rw [hzz, List.zip_nil_right]
    exact .nil
  · rw [hz, List.zip_cons_cons] at hpend
    cases answer with
    | error e =>
      rw [launchEffect_error (d := d.perform _) hz]
      exact ⟨hreg, hpend.tail⟩
    | ok pid =>
      rw [launchEffect_ok (d := d.perform _) hz]
      have hnone := hpend.absent a pid List.mem_cons_self
      refine ⟨register (d := { d.perform _ with zygote := rest }) hreg (.of_absent hnone), ?_⟩
      have hi := hpend.insertApp (a := ⟨a, pid, w.clock.unix, w.clock.mono⟩)
      exact hi.congr fun o ho => ho

end Present

/-- Bringing an app forward keeps the registry and the launches to come. -/
theorem Present.run {verb : Verb} {args : String} (h : d.Present q)
    (hv : ∀ v, verb = .shell v → ¬ v.Enlists)
    (hf : ∀ f, verb.owner.mayRequest f → f.launchedApp = none) :
    Present (d.runModule w verb args).1 ((d.runModule w verb args).2.1 ++ q) := by
  refine ⟨Arbiter.command_registered h.registered fun hv' => ?_, ?_⟩
  · exact absurd trivial (hv _ hv')
  · rw [launched_append]
    have hl : launched (d.runModule w verb args).2.1 = [] := Arbiter.launched_command hf
    have ha : d.arbiter.store.SameApps (d.runModule w verb args).1.arbiter.store :=
      Arbiter.command_sameApps hv
    rw [hl, List.nil_append]
    refine h.pending.congr fun o ho => ?_
    rwa [Store.app, ha.apps]

/-- A chrome process registers under an app-id whose entry is spared. -/
def ChromeSpares (a : Arbiter) (verb : Verb) (args : String) : Prop :=
  verb = .shell .registerChrome → ∀ e, Shell.chromeEntry args = some e → a.store.Spares e.1 e.2

/-- A launch that is answered registers under an app-id whose entry is spared. -/
def LaunchSpares (d : Daemon) (appId : String) : Prop :=
  ∀ pid rest, d.zygote = .ok pid :: rest → d.arbiter.store.Spares appId pid

/-- No two answered launches of a tick are of one app. -/
def WakesOnce (d : Daemon) (e : Event) : Prop :=
  ∀ nowMs, e = .alarmTick nowMs →
    (((AlarmManager.woken d.arbiter.store nowMs).map Alarm.appId).zip d.zygote).Pairwise
      fun x y => x.1 = y.1 → x.2.isOk = true → y.2.isOk = false

theorem serves_present (w : World) : Serves w ChromeSpares WakesOnce LaunchSpares Present where
  plain hf h := h.perform hf.launchedApp
  launch := Present.launchEffect
  foreground h := (h.perform rfl).run (by rintro v ⟨⟩; exact id)
    fun f hf => by cases f <;> first | rfl | exact hf.elim
  immersive args h := h.run (by rintro v ⟨⟩) fun f hf => by
    cases f <;> first | rfl | exact hf.elim
  command := by
    intro d verb args hV h
    refine ⟨Arbiter.command_registered h.registered hV, ?_⟩
    have hl : launched (d.runModule w verb args).2.1 = [] ∨
        ∃ o, launched (d.runModule w verb args).2.1 = [o] ∧
          (d.runModule w verb args).1.arbiter.store.app o = none := Arbiter.command_launched
    rcases hl with hl | ⟨o, hl, hn⟩
    · rw [hl]
      exact .nil
    · rw [hl]
      cases (d.runModule w verb args).1.zygote with
      | nil => exact .nil
      | cons x z =>
        rw [List.zip_cons_cons, List.zip_nil_left]
        exact .single hn
  event := by
    intro d e hE h
    by_cases he : e.Untimed
    · refine ⟨Arbiter.inject_registered h.registered, ?_⟩
      rw [launched_plain (Arbiter.inject_plain he)]
      exact .nil
    · obtain ⟨nowMs, rfl⟩ : ∃ nowMs, e = .alarmTick nowMs := by simpa [Event.Untimed] using he
      rw [Arbiter.inject_alarmTick]
      refine ⟨h.registered, ?_⟩
      rw [launched_asked]
      refine ⟨fun o pid hm => ?_, hE nowMs rfl⟩
      obtain ⟨a, ha, rfl⟩ := List.mem_map.mp (List.of_mem_zip hm).1
      exact (AlarmManager.mem_orphaned.mp (AlarmManager.mem_woken.mp ha).1).2.2
  promote := by
    intro d appId h
    let r := d.runModule w (.shell .foreground) appId
    have hr : Present r.1 (r.2.1 ++ []) := h.run (by rintro v ⟨⟩; exact id)
      fun f hf => by cases f <;> first | rfl | exact hf.elim
    rwa [List.append_nil] at hr
  register role hz hL h := .of_nil (Present.register h.registered (hL _ _ hz))
  absent h := fun _ _ _ => .of_absent h
  unanswered hz h := .of_nil h.registered
  signal pid h := .of_nil h.registered
  home app h := .of_nil h.registered
  descriptor kind maxRange resolution h := .of_nil h.registered
  power powerPending powerGen reboots h := .of_nil h.registered

/-- The steps that leave no surface behind: a chrome process and a launch that is
    answered register under an app-id whose entry is spared, and no two answered
    launches of a tick are of one app. -/
def SurfacesKept (w : World) (d : Daemon) : Input → Prop
  | .client (.module (.shell .registerChrome) args) =>
    ∀ e, Shell.chromeEntry args = some e → d.arbiter.store.Spares e.1 e.2
  | .client (.legacy .launch rest) =>
    runningApp w rest .gui d.arbiter = none → LaunchSpares d (launchKey rest)
  | .client (.legacy .launchHeadless rest) | .client (.legacy .launchOverlay rest) =>
    rest ≠ "" → LaunchSpares d (launchKey rest)
  | .alarmTimer nowMs =>
    (((AlarmManager.woken d.arbiter.store nowMs).map Alarm.appId).zip d.zygote).Pairwise
      fun x y => x.1 = y.1 → x.2.isOk = true → y.2.isOk = false
  | _ => True

theorem SurfacesKept.allowed {i : Input} (h : d.SurfacesKept w i) :
    Allowed w ChromeSpares WakesOnce LaunchSpares d i := by
  have hc {a : Arbiter} {verb : Verb} {args : String} (hv : verb ≠ .shell .registerChrome) :
      ChromeSpares a verb args := fun hvs => absurd hvs hv
  have he {e : Event} (he : e.Untimed) : WakesOnce d e := fun t ht => absurd ht (he t)
  cases i with
  | client cmd =>
    cases cmd with
    | module verb args =>
      rintro rfl
      exact h
    | legacy verb args =>
      cases verb with
      | launch | launchHeadless | launchOverlay => exact h
      | _ => simp [Allowed, LegacyAllowed, RunAllowed, MenuAllowed, hc]
    | unknown verb => trivial
  | holdTimer gen => exact ⟨hc (by simp), hc (by simp)⟩
  | alarmTimer nowMs =>
    rintro t ⟨⟩
    exact h
  | sensorDescriptor => trivial
  | _ => exact he (by simp [Event.Untimed])

omit [Fpu] in
/-- The surfaces seeded at boot are those of the restored apps. -/
theorem roleOf_seedSurfaces {apps : List AppState} {fg : Option String} {disp : DisplayState}
    {p : Pid} (h : ((seedSurfaces apps fg disp).roleOf p).isSome) : ∃ a ∈ apps, a.pid = p := by
  have hg (l : List AppState) (disp : DisplayState) (h : ((l.foldl (fun d a => d.putSurface a.pid
      a.appId (if fg = some a.appId then .foreground else .background)) disp).roleOf p).isSome) :
      (disp.roleOf p).isSome ∨ ∃ a ∈ l, a.pid = p := by
    induction l generalizing disp with
    | nil => exact .inl h
    | cons a l ih =>
      rcases ih _ h with hp | ⟨b, hb, hp⟩
      · rw [DisplayState.roleOf_putSurface] at hp
        split at hp
        · next heq => exact .inr ⟨a, List.mem_cons_self, heq.symm⟩
        · exact .inl hp
      · exact .inr ⟨b, List.mem_cons_of_mem _ hb, hp⟩
  rcases hg apps _ h with hp | hp
  · cases hp
  · exact hp

theorem present_boot {r : Restored} : (boot w r).Present [] := by
  refine (serves_present w).ensureHomeForeground (.of_nil fun p hp => ?_)
  dsimp only at hp
  rw [Store.primary_modifyDisplay] at hp
  exact roleOf_seedSurfaces hp

/-- In every state of a run whose registrations spare the surfaces of the entries they
    replace, every surface is that of a registered process, whose exit the daemon
    notices. -/
theorem surfaces_registered {w₀ : World} {r : Restored}
    (h : Run (fun w d i => d.SurfacesKept w i) (boot w₀ r) d) {p : Pid}
    (hp : (d.arbiter.store.primary.roleOf p).isSome) :
    d.arbiter.store.Tracks p ∧ (d.arbiter.store.appByPid p).isSome := by
  have hJ : d.Present [] := h.invariant (J := fun d => d.Present []) present_boot
    fun w _ hJ _ hi => (serves_present w).step hi.allowed hJ
  obtain ⟨app, happ, hpid⟩ := hJ.registered p hp
  refine ⟨⟨app, happ, hpid⟩, ?_⟩
  rw [Store.appByPid, List.find?_isSome]
  exact ⟨app, happ, by simpa using hpid⟩

end Daemon

end

section

attribute [local instance] Fpu.comparator

namespace Daemon

/-- A run that launches an app. -/
theorem surfaces_registered_launched :
    let d := step still (.client (.legacy .launchHeadless "b")) (boot still { zygote := [.ok 7] })
    d.arbiter.store.Tracks 7 ∧ (d.arbiter.store.appByPid 7).isSome := by
  intro d
  have h : Run (fun w d i => d.SurfacesKept w i) (boot still { zygote := [.ok 7] }) d :=
    .step _ _ .start (by decide) fun _ _ _ _ => .of_absent (by decide)
  exact surfaces_registered h (by decide)

/-- A run that launches a running app in the background: the surface of its first
    process is left behind, and the exit of that process goes unnoticed. -/
theorem surface_orphaned :
    ∃ d, Run (fun _ _ _ => True) (boot still { zygote := [.ok 7, .ok 8] }) d ∧
    (d.arbiter.store.primary.roleOf 7).isSome ∧ ¬ d.arbiter.store.Tracks 7 ∧
      (step still (.childExit 7) d).arbiter.store.primary.roleOf 7 = some .headless := by
  let d := step still (.client (.legacy .launchHeadless "b"))
    (step still (.client (.legacy .launchHeadless "b")) (boot still { zygote := [.ok 7, .ok 8] }))
  refine ⟨d, ?_, by decide, ?_, by decide⟩
  · exact .step _ _ (.step _ _ .start (by decide) trivial) (by decide) trivial
  · rintro ⟨app, happ, hpid⟩
    have hnone : d.arbiter.store.appByPid 7 = none := by decide
    rw [Store.appByPid, List.find?_eq_none] at hnone
    exact hnone app happ (by simpa using hpid)

end Daemon

end

end Wandr
