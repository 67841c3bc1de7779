import Wandr.Arbiter.Execution

/-!
# Wakes

A tick of the alarm clock asks for the owners of the due alarms that are not
running, once: the alarm is marked then, and a marked alarm asks for nothing.
Performing the request either registers the owner or leaves no trace, so that
between two steps of the daemon no launch is outstanding.

* `AlarmManager.mem_effects_onTick`: a tick asks for an owner exactly when one of
  its due alarms is not marked;
* `Store.Attends`: how a dispatch treats the owners of the marked alarms;
* `Daemon.no_wake_lost`: while the launches of ticks are answered, and no app with a
  marked alarm goes away, every tick asks for each owner of a due alarm that is not
  running;
* `Daemon.wake_lost` is a run in which a launch fails.
-/

namespace Wandr

/-- An app owns an alarm that fired while it was not running. -/
def Store.Marked (s : Store) (o : String) : Prop :=
  ∃ a ∈ s.alarms.rows, a.appId = o ∧ a.pendingDeliver = true

/-- No app is marked anew, and those still marked keep running. -/
def Store.Attends (s s' : Store) : Prop :=
  ∀ o, s'.Marked o → s.Marked o ∧ ((s.app o).isSome → (s'.app o).isSome)

/-- No app is registered anew. -/
def Store.Sheds (s s' : Store) : Prop := ∀ app ∈ s'.apps.rows, app ∈ s.apps.rows

namespace Store

variable {s s' : Store} {o : String}

instance : IsPreorder Store Sheds where
  refl _ _ h := h
  trans _ _ _ h h' app hm := h app (h' app hm)

instance : Allows Sheds .geometry := ⟨by rintro s _ ⟨_, _, rfl⟩ app h; exact h⟩
instance : Allows Sheds .display := ⟨by rintro s _ ⟨_, rfl⟩ app h; exact h⟩
instance : Allows Sheds .imeHeight := ⟨by rintro s _ ⟨_, rfl⟩ app h; exact h⟩
instance : Allows Sheds .alarms := ⟨by rintro s _ ⟨_, rfl⟩ app h; exact h⟩
instance : Allows Sheds .notifications := ⟨by rintro s _ ⟨_, _, rfl⟩ app h; exact h⟩
instance : Allows Sheds .sensors := ⟨by rintro s _ ⟨_, rfl⟩ app h; exact h⟩

instance : IsPreorder Store Attends where
  refl _ _ h := ⟨h, id⟩
  trans _ _ _ h h' o ho := ⟨(h o (h' o ho).1).1, (h' o ho).2 ∘ (h o (h' o ho).1).2⟩

theorem Attends.of_eq (hm : s'.alarms = s.alarms) (ha : s'.apps = s.apps) : s.Attends s' := by
  intro o ho
  rw [Marked, hm] at ho
  exact ⟨ho, fun h => by rwa [app, ha]⟩

instance : Allows Attends .geometry := ⟨by rintro s _ ⟨_, _, rfl⟩; exact .of_eq rfl rfl⟩
instance : Allows Attends .display := ⟨by rintro s _ ⟨_, rfl⟩; exact .of_eq rfl rfl⟩
instance : Allows Attends .imeHeight := ⟨by rintro s _ ⟨_, rfl⟩; exact .of_eq rfl rfl⟩
instance : Allows Attends .notifications := ⟨by rintro s _ ⟨_, _, rfl⟩; exact .of_eq rfl rfl⟩
instance : Allows Attends .sensors := ⟨by rintro s _ ⟨_, rfl⟩; exact .of_eq rfl rfl⟩

/-- An app registered is an app running. -/
theorem Attends.insertApp {a : AppState} : s.Attends (s.insertApp a) :=
  fun _ ho => ⟨ho, fun h => Table.isSome_get?_put.mpr (.inr h)⟩

/-- An app with no marked alarm can be removed. -/
theorem Attends.removeApp {a : String} (h : ¬ s.Marked a) : s.Attends (s.removeApp a) := by
  intro o ho
  refine ⟨ho, fun hs => ?_⟩
  have hne : o ≠ a := fun hoa => h (hoa ▸ ho)
  rw [app, Store.removeApp, Table.get?_erase, if_neg hne]
  exact hs

/-- The alarms may be replaced by others marked no more. -/
theorem Attends.alarms {t : Table Alarm.key} (h : ∀ a ∈ t.rows, a.pendingDeliver = true →
    s.Marked a.appId) : s.Attends { s with alarms := t } := by
  rintro o ⟨a, ha, rfl, hp⟩
  exact ⟨h a ha hp, id⟩

end Store

/-! ## The commands and the reactions -/

open Ctx.Within

variable {c : Ctx} {E : Event → Prop} {F : Effect → Prop} {clock : Clock}

namespace AlarmManager

theorem onCommand_attends (verb : Verb) (args : String) :
    c.store.Attends (onCommand verb args c).1.store := by
  cases verb with
  | schedule =>
    simp only [onCommand]
    unfold cmdSchedule
    split
    · split
      · exact refl_of _ _
      · split
        · refine Store.Attends.alarms fun a ha hp => ?_
          rcases Table.mem_rows_put.mp ha with rfl | ⟨ha, -⟩
          · exact absurd hp Bool.false_ne_true
          · exact ⟨a, ha, rfl, hp⟩
        · exact refl_of _ _
    · exact refl_of _ _
  | cancel =>
    simp only [onCommand]
    unfold cmdCancel
    split
    · split
      · exact refl_of _ _
      · split
        · exact refl_of _ _
        · exact Store.Attends.alarms fun a ha hp => ⟨a, (Table.mem_rows_erase.mp ha).1, rfl, hp⟩
    · exact refl_of _ _

/-- The alarms whose owners a tick asks for. -/
def woken (s : Store) (nowMs : Nat) : List Alarm :=
  (orphaned s nowMs).filter fun a => !a.pendingDeliver

variable {nowMs : Nat}

theorem mem_orphaned {s : Store} {a : Alarm} :
    a ∈ orphaned s nowMs ↔ a ∈ s.alarms.rows ∧ a.nextFireMs ≤ nowMs ∧ s.app a.appId = none := by
  simp [orphaned]

theorem mem_woken {s : Store} {a : Alarm} :
    a ∈ woken s nowMs ↔ a ∈ orphaned s nowMs ∧ a.pendingDeliver = false := by
  simp [woken]

theorem key_rescheduled (a : Alarm) : (rescheduled nowMs a).key = a.key := rfl

/-- An alarm that fired while its owner was not running. -/
def mark (a : Alarm) : Alarm := { a with pendingDeliver := true }

theorem key_mark (a : Alarm) : (mark a).key = a.key := rfl

/-- The alarms a tick leaves. -/
def ticked (s : Store) (nowMs : Nat) : Table Alarm.key :=
  let alarms := ((delivered s nowMs).filter fun a => a.repeatMs > 0).foldl
    (fun t a => t.modify a.key (rescheduled nowMs) key_rescheduled) s.alarms
  let alarms := (orphaned s nowMs).foldl (fun t a => t.modify a.key mark key_mark) alarms
  ((delivered s nowMs).filter fun a => a.repeatMs = 0).foldl (fun t a => t.erase a.key) alarms

theorem foldl_request {α : Type} (g : α → Effect) (l : List α) (c : Ctx) :
    l.foldl (fun c x => c.request (g x)) c = { c with effects := c.effects ++ l.map g } := by
  induction l generalizing c with
  | nil => simp
  | cons x l ih =>
    rw [List.foldl_cons, ih]
    simp

/-- What a tick asks for: the owners of the alarms not marked yet are launched, and
    the alarms of running owners delivered. -/
def asked (s : Store) (nowMs : Nat) : List Effect :=
  ((woken s nowMs).map fun a => .launch a.appId a.wakeKind) ++
    ((delivered s nowMs).filterMap fun a => (s.app a.appId).map fun app =>
      (app.pid, a.alarmId)).map fun d => .hostLine d.1 (.alarmFired d.2)

theorem onTick_eq : onTick nowMs c = { c with
    store := { c.store with alarms := ticked c.store nowMs }
    effects := c.effects ++ asked c.store nowMs } := by
  unfold onTick
  simp only [Ctx.deliverToHost, foldl_request, Ctx.modifyStore, ticked, asked, woken,
    List.append_assoc]
  rfl

/-- A tick marks the alarms it keeps due, and no others. -/
theorem marked_onTick {o : String} (h : (onTick nowMs c).store.Marked o) :
    c.store.Marked o ∨ ∃ a ∈ orphaned c.store nowMs, a.appId = o := by
  let P (a : Alarm) : Prop := a.pendingDeliver = true →
    c.store.Marked a.appId ∨ ∃ b ∈ orphaned c.store nowMs, b.appId = a.appId
  have h₀ : ∀ a ∈ c.store.alarms.rows, P a := fun a ha hp => .inl ⟨a, ha, rfl, hp⟩
  have h₁ := Table.forall_foldl_modify (rescheduled nowMs) key_rescheduled h₀
    (l := (delivered c.store nowMs).filter fun a => a.repeatMs > 0)
    fun b _ a _ _ hp => absurd hp Bool.false_ne_true
  have h₂ := Table.forall_foldl_modify mark key_mark h₁ (l := orphaned c.store nowMs)
    fun b hb a hk _ _ => .inr ⟨b, hb, (congrArg Prod.fst hk).symm⟩
  have h₃ := Table.forall_foldl_erase h₂
    (l := (delivered c.store nowMs).filter fun a => a.repeatMs = 0)
  rw [onTick_eq] at h
  obtain ⟨a, ha, rfl, hp⟩ := h
  exact h₃ a ha hp

/-- A tick asks for an owner exactly when an alarm of its is due and not marked. -/
theorem launch_mem_asked {s : Store} {o : String} {k : LaunchKind} :
    .launch o k ∈ asked s nowMs ↔ ∃ a ∈ woken s nowMs, a.appId = o ∧ a.wakeKind = k := by
  simp [asked]

end AlarmManager

namespace Shell

variable [Fpu]

/-- The apps whose removal a command asks for. -/
def Removes (s : Store) : Verb → String → String → Prop
  | .kill, args, o => o = args
  | .taskKill, args, o => o = args ∧ ¬ (chromeAppIds.contains args ∨ s.home = some args)
  | _, _, _ => False

omit [Fpu] in
theorem killApp_attends {a : String} {s : AppState} (h : ¬ c.store.Marked a) :
    c.store.Attends (killApp c a s).1.store :=
  trans_of _ (Store.Attends.removeApp h) (Store.Attends.of_eq rfl rfl)

theorem onCommand_attends {verb : Verb} {args : String}
    (h : ∀ o, Removes c.store verb args o → ¬ c.store.Marked o) :
    c.store.Attends (onCommand clock verb args c).1.store := by
  cases verb with
  | kill =>
    simp only [onCommand]
    unfold cmdKill
    split
    · exact refl_of _ _
    · split
      · exact refl_of _ _
      · exact killApp_attends (h args rfl)
  | taskKill =>
    simp only [onCommand]
    unfold cmdTaskKill
    split
    · exact refl_of _ _
    · split
      · exact refl_of _ _
      · split
        · exact refl_of _ _
        · next hp => exact killApp_attends (h args ⟨rfl, hp⟩)
  | registerChrome =>
    simp only [onCommand]
    unfold cmdRegisterChrome
    split
    · next appId _ _ _ =>
      split
      · exact refl_of _ _
      · next pid _ =>
        have hi :=
          Store.Attends.insertApp (s := c.store) (a := ⟨appId, pid, clock.unix, clock.mono⟩)
        dsimp only
        split <;> exact trans_of _ hi (.of_eq rfl rfl)
    · exact refl_of _ _
  | _ => exact (onCommand_sameApps (fun _ _ => .of_display) (by simp) (by simp) (by simp)).store

omit [Fpu] in
theorem onSurfaceRemoved_attends {p : Pid}
    (h : ∀ app, c.store.appByPid p = some app → ¬ c.store.Marked app.appId) :
    c.store.Attends (onSurfaceRemoved c p).store := by
  obtain ⟨s₁, hs₁, hs⟩ := onSurfaceRemoved_spec (c := c) p
  rw [hs]
  refine trans_of _ (hs₁ Store.Attends) ?_
  split
  · next app happ =>
    have hm : ¬ s₁.Marked app.appId := fun hm => h app happ (hs₁ Store.Attends _ hm).1
    exact trans_of _ (Store.Attends.removeApp hm) (.of_eq rfl rfl)
  · exact .of_eq rfl rfl

omit [Fpu] in
theorem onSurfaceRemoved_sheds {p : Pid} : c.store.Sheds (onSurfaceRemoved c p).store := by
  obtain ⟨s₁, hs₁, hs⟩ := onSurfaceRemoved_spec (c := c) p
  rw [hs]
  refine trans_of _ (hs₁ Store.Sheds) ?_
  split
  · exact fun app h => (Table.mem_rows_erase.mp h).1
  · exact fun app h => h

end Shell

/-- The shell and the alarms apart, the modules leave the apps and the alarms alone. -/
theorem ModuleId.allows_attends {id : ModuleId} (hs : id ≠ .shell) (ha : id ≠ .alarm) :
    ∀ p ∈ id.parts, Store.Allows Store.Attends p ∧ Store.Allows Store.Sheds p := by
  intro p hp
  cases id <;> simp [ModuleId.parts] at hp hs ha <;> subst hp <;>
    exact ⟨inferInstance, inferInstance⟩

section

variable [Fpu]

namespace Arbiter

variable {reg : Registry} {a : Arbiter} {e : Event}

/-- The reactions to an event that is no tick attend to the owners of the marked
    alarms, unless the app of a process that exited is one. -/
theorem handler_attends (id : ModuleId) (he : e.Untimed)
    (h : ∀ p app, e = .surfaceRemoved p → a.store.appByPid p = some app →
      ¬ a.store.Marked app.appId) :
    a.store.Attends (handler clock id e a).state.store ∧
      a.store.Sheds (handler clock id e a).state.store := by
  have hf (R : Store → Store → Prop) [IsPreorder Store R]
      (hR : ∀ p ∈ id.parts, Store.Allows R p) : R a.store (handler clock id e a).state.store :=
    (Modules.onEvent_frame (c := { store := a.store }) R hR).store
  cases id with
  | shell =>
    cases e with
    | surfaceRemoved p =>
      exact ⟨Shell.onSurfaceRemoved_attends fun app => h p app rfl, Shell.onSurfaceRemoved_sheds⟩
    | foregroundChanged f p =>
      have hw (R : Store → Store → Prop) [IsPreorder Store R] [Store.Allows R .display] :
          R a.store (Shell.onForegroundChanged { store := a.store }).store :=
        (Shell.onForegroundChanged_within (E := fun _ => True) fun _ => trivial).store
      exact ⟨hw _, hw _⟩
    | _ => exact ⟨refl_of _ _, refl_of _ _⟩
  | alarm =>
    have hn : (handler clock .alarm e a).state.store = a.store := by
      cases e with
      | alarmTick t => exact absurd rfl (he t)
      | _ => rfl
    rw [hn]
    exact ⟨refl_of _ _, refl_of _ _⟩
  | _ =>
    exact ⟨hf _ fun p hp => (ModuleId.allows_attends (by simp) (by simp) p hp).1,
      hf _ fun p hp => (ModuleId.allows_attends (by simp) (by simp) p hp).2⟩

/-- The removal of a process leaves the owners of the marked alarms alone when none
    of its apps is one. -/
def Retires (a : Arbiter) (e : Event) : Prop :=
  ∀ p app, e = .surfaceRemoved p → app ∈ a.store.apps.rows → app.pid = p →
    ¬ a.store.Marked app.appId

/-- What a cascade has done to the store so far. -/
def Tended (a a' : Arbiter) : Prop := a.store.Attends a'.store ∧ a.store.Sheds a'.store

theorem handler_tended (id : ModuleId) (a : Arbiter) :
    Bus.Keeps (fun a' _ => Tended a a') (fun e => e.Untimed ∧ a.Retires e) (handler clock id) where
  inv := by
    intro e a' _ he hJ
    have hr : ∀ p app, e = .surfaceRemoved p → a'.store.appByPid p = some app →
        ¬ a'.store.Marked app.appId := fun p app hep happ hm => by
      have hmem := List.mem_of_find?_eq_some happ
      have hp : app.pid = p := by simpa using List.find?_some happ
      exact he.2 p app hep (hJ.2 app hmem) hp (hJ.1 _ hm).1
    have hh : a'.store.Attends (handler clock id e a').state.store ∧
        a'.store.Sheds (handler clock id e a').state.store := handler_attends id he.1 hr
    exact ⟨trans_of _ hJ.1 hh.1, trans_of _ hJ.2 hh.2⟩
  emits := by
    intro e a' _ _ _ e' he'
    have hm := (handler_emits e' he').2
    refine ⟨hm.untimed, ?_⟩
    rintro p app rfl
    cases id <;> exact hm.elim

theorem inject_attends (he : e.Untimed) (h : a.Retires e) :
    a.store.Attends (a.inject reg clock e).1.store :=
  (inject_keeps (fun id _ => handler_tended id a) ⟨refl_of _ _, refl_of _ _⟩ ⟨he, h⟩).1

/-- A command attends to the owners of the marked alarms, unless it kills one. -/
theorem command_attends {verb : Verb} {args : String}
    (h : ∀ v o, verb = .shell v → Shell.Removes a.store v args o → ¬ a.store.Marked o) :
    a.store.Attends (a.command reg clock verb args).1.store := by
  have hc : a.store.Attends (a.handle clock verb args).1.state.store := by
    have hf (hR : ∀ p ∈ verb.owner.parts, Store.Allows Store.Attends p) :
        a.store.Attends (a.handle clock verb args).1.state.store :=
      (Modules.onCommand_frame (c := { store := a.store }) Store.Attends hR).store
    cases verb with
    | shell v => exact Shell.onCommand_attends fun o => h v o rfl
    | alarm v => exact AlarmManager.onCommand_attends v args
    | _ =>
      exact hf fun p hp =>
        (ModuleId.allows_attends (by simp [Verb.owner]) (by simp [Verb.owner]) p hp).1
  have hw : Ctx.Within Store.Anyhow verb.owner.mayEmit verb.owner.mayRequest
      { store := a.store } (a.mods.onCommand clock verb args { store := a.store }).2.1 :=
    Modules.onCommand_within
  refine trans_of _ hc (command_keeps (fun id _ => handler_tended id _)
    ⟨refl_of _ _, refl_of _ _⟩ fun e he => ?_).1
  have hm := hw.forall_events rfl e he
  refine ⟨hm.untimed, ?_⟩
  rintro p app rfl
  generalize verb.owner = id at hm
  cases id <;> exact hm.elim

/-- An event whose reactions emit nothing is fanned out once. -/
theorem inject_of_quiet (h : (Bus.fan (handlers reg clock) (.start a) e).events = []) :
    a.inject reg clock e = ((Bus.fan (handlers reg clock) (.start a) e).state,
      (Bus.fan (handlers reg clock) (.start a) e).effects) := by
  have hr : Bus.round (handlers reg clock) [e] ⟨a, [], []⟩ =
      Bus.fan (handlers reg clock) (.start a) e := by
    rw [Bus.round, List.foldl_cons, List.foldl_nil, Bus.Out.start]
  rw [inject, drainCascade, maxCascadeDepth, Bus.drain_succ (List.cons_ne_nil _ _)]
  dsimp only
  rw [hr, Bus.drain_of_events_nil h]

/-- A tick of the alarm clock concerns the alarms only. -/
theorem fan_alarmTick {nowMs : Nat} :
    Bus.fan (handlers buildRegistry clock) (.start a) (.alarmTick nowMs) =
      ⟨{ a with store := { a.store with alarms := AlarmManager.ticked a.store nowMs } }, [],
        AlarmManager.asked a.store nowMs⟩ := by
  simp [Bus.fan, handlers, buildRegistry, Bus.Out.react, Bus.Out.start, handler, out,
    Modules.onEvent, Wm.onEvent, Shell.onEvent, AlarmManager.onEvent, AlarmManager.onTick_eq,
    PowerModule.onEvent, KeyguardModule.onEvent, AudioModule.onEvent, SensorsModule.onEvent,
    NetModule.onEvent, EventsModule.onEvent, MediaSessionModule.onEvent]

theorem inject_alarmTick {nowMs : Nat} : a.inject buildRegistry clock (.alarmTick nowMs) =
    ({ a with store := { a.store with alarms := AlarmManager.ticked a.store nowMs } },
      AlarmManager.asked a.store nowMs) := by
  rw [inject_of_quiet] <;> rw [fan_alarmTick]

end Arbiter

/-! ## Runs of the daemon -/

section

omit [Fpu]

theorem launched_asked {s : Store} {nowMs : Nat} :
    launched (AlarmManager.asked s nowMs) = (AlarmManager.woken s nowMs).map Alarm.appId := by
  have hl (l : List (Pid × Nat)) :
      launched (l.map fun d => .hostLine d.1 (.alarmFired d.2)) = [] := by
    refine launched_plain fun f hf => ?_
    obtain ⟨d, -, rfl⟩ := List.mem_map.mp hf
    trivial
  rw [AlarmManager.asked, launched_append, hl, List.append_nil, launched, List.filterMap_map]
  exact congrFun List.filterMap_eq_map _

/-- One of the launches of an app is answered with a process. -/
def Answered (o : String) (apps : List String) (zygote : List (Except String Pid)) : Prop :=
  ∃ pid, (o, .ok pid) ∈ apps.zip zygote

end

namespace Daemon

variable {d : Daemon} {q : List Effect} {w : World}

section

omit [Fpu]

/-- The owners of the marked alarms are running, or about to be launched. -/
def Attended (d : Daemon) (q : List Effect) : Prop :=
  ∀ o, d.arbiter.store.Marked o →
    (d.arbiter.store.app o).isSome ∨ Answered o (launched q) d.zygote

theorem Attended.attends {a : Arbiter} {q' : List Effect} (h : d.Attended q)
    (ha : d.arbiter.store.Attends a.store) (hq : launched q' = launched q) :
    Attended { d with arbiter := a } q' := by
  intro o ho
  rw [hq]
  exact (h o (ha o ho).1).imp (ha o ho).2 id

/-- Before and after a step, nothing is outstanding. -/
theorem attended_nil : d.Attended [] ↔
    ∀ o, d.arbiter.store.Marked o → (d.arbiter.store.app o).isSome := by
  simp [Attended, Answered, launched]

theorem Attended.perform {f : Effect} (hf : f.launchedApp = none) (h : d.Attended (f :: q)) :
    (d.perform f).Attended q := by
  intro o ho
  have := h o ho
  rwa [launched, List.filterMap_cons_none hf] at this

/-- A launch that is answered registers its app. -/
theorem Attended.launchEffect {a : String} {k : LaunchKind} (h : d.Attended (.launch a k :: q)) :
    (launchEffect w a k (d.perform (.launch a k))).Attended q := by
  have hl : launched (.launch a k :: q) = a :: launched q := rfl
  rw [Attended, hl] at h
  rcases hz : d.zygote with _ | ⟨answer, rest⟩
  · rw [launchEffect_nil (d := d.perform _) hz]
    refine fun o ho => (h o ho).imp id ?_
    rintro ⟨pid, hpid⟩
    simp [hz] at hpid
  · cases answer with
    | error e =>
      rw [launchEffect_error (d := d.perform _) hz]
      refine fun o ho => (h o ho).imp id ?_
      rintro ⟨pid, hpid⟩
      exact ⟨pid, by simpa [hz] using hpid⟩
    | ok pid =>
      rw [launchEffect_ok (d := d.perform _) hz]
      intro o ho
      rcases h o ho with hs | ⟨pid', hpid⟩
      · exact .inl (Table.isSome_get?_put.mpr (.inr hs))
      · rw [hz, List.zip_cons_cons] at hpid
        rcases List.mem_cons.mp hpid with heq | hmem
        · exact .inl (Table.isSome_get?_put.mpr (.inl (Prod.mk.inj heq).1))
        · exact .inr ⟨pid', hmem⟩

end

/-- The commands that kill no app with a marked alarm. -/
def SparesMarked (a : Arbiter) (verb : Verb) (args : String) : Prop :=
  ∀ v o, verb = .shell v → Shell.Removes a.store v args o → ¬ a.store.Marked o

/-- Each owner a tick asks for gets a process, and no app with a marked alarm exits. -/
def AnswersWakes (d : Daemon) (e : Event) : Prop :=
  d.arbiter.Retires e ∧ ∀ nowMs, e = .alarmTick nowMs →
    ∀ a ∈ AlarmManager.orphaned d.arbiter.store nowMs,
      Answered a.appId ((AlarmManager.woken d.arbiter.store nowMs).map Alarm.appId) d.zygote

theorem Attended.forward {appId : String} (h : d.Attended q) :
    Attended (d.runModule w (.shell .foreground) appId).1
      ((d.runModule w (.shell .foreground) appId).2.1 ++ q) := by
  refine h.attends (Arbiter.command_attends ?_) ?_
  · rintro v o ⟨rfl⟩ hr
    exact hr.elim
  · rw [launched_append]
    exact congrArg (· ++ launched q) (launched_plain Arbiter.command_plain_shell)

theorem serves_attended (w : World) :
    Serves w SparesMarked AnswersWakes (fun _ _ => True) Attended where
  plain hf := Attended.perform hf.launchedApp
  launch := Attended.launchEffect
  foreground h := (h.perform rfl).forward
  immersive args h := by
    refine h.attends (Arbiter.command_attends ?_) ?_
    · rintro v o ⟨⟩
    · rw [launched_append]
      exact congrArg (· ++ launched _) (launched_plain Arbiter.command_plain_wm)
  command hV h := by
    intro o ho
    have ha := Arbiter.command_attends hV o ho
    exact .inl (ha.2 (attended_nil.mp h o ha.1))
  event := by
    rintro d e ⟨hr, ht⟩ h o ho
    by_cases he : e.Untimed
    · have ha := Arbiter.inject_attends he hr o ho
      exact .inl (ha.2 (attended_nil.mp h o ha.1))
    · obtain ⟨nowMs, rfl⟩ : ∃ nowMs, e = .alarmTick nowMs := by
        simpa [Event.Untimed] using he
      rw [Arbiter.inject_alarmTick] at ho ⊢
      have hm : (AlarmManager.onTick nowMs { store := d.arbiter.store }).store.Marked o := by
        rwa [AlarmManager.onTick_eq]
      rcases AlarmManager.marked_onTick hm with hm | ⟨a, ha, rfl⟩
      · exact .inl (attended_nil.mp h o hm)
      · exact .inr (launched_asked ▸ ht nowMs rfl a ha)
  promote appId h := by simpa using h.forward
  register role hz _ h := by
    refine attended_nil.mpr fun o ho => ?_
    exact Table.isSome_get?_put.mpr (.inr (attended_nil.mp h o ho))
  absent _ := trivial
  unanswered hz h := by
    refine attended_nil.mpr fun o ho => ?_
    exact attended_nil.mp h o ho
  signal pid h := h
  home app h := h
  descriptor kind maxRange resolution h := h
  power powerPending powerGen reboots h := h

/-- The steps that leave the launches of ticks to succeed: no app with a marked alarm
    is killed or exits, and each owner a tick asks for gets a process. -/
def WakesKept (d : Daemon) : Input → Prop
  | .client (.module (.shell v) args) =>
    ∀ o, Shell.Removes d.arbiter.store v args o → ¬ d.arbiter.store.Marked o
  | .childExit pid =>
    ∀ app ∈ d.arbiter.store.apps.rows, app.pid = pid → ¬ d.arbiter.store.Marked app.appId
  | .alarmTimer nowMs => ∀ a ∈ AlarmManager.orphaned d.arbiter.store nowMs,
    Answered a.appId ((AlarmManager.woken d.arbiter.store nowMs).map Alarm.appId) d.zygote
  | _ => True

theorem WakesKept.allowed {i : Input} (h : d.WakesKept i) :
    Allowed w SparesMarked AnswersWakes (fun _ _ => True) d i := by
  have hr {e : Event} (he : ∀ p, e ≠ .surfaceRemoved p) : d.arbiter.Retires e :=
    fun p _ hep => absurd hep (he p)
  have hc {a : Arbiter} {verb : Verb} {args : String} (hv : ∀ v, verb ≠ .shell v) :
      SparesMarked a verb args := fun v _ hvs => absurd hvs (hv v)
  cases i with
  | client cmd =>
    cases cmd with
    | module verb args =>
      rintro v o rfl
      exact h o
    | legacy verb args =>
      cases verb <;> simp [Allowed, LegacyAllowed, RunAllowed, MenuAllowed, hc]
    | unknown verb => trivial
  | childExit pid =>
    refine ⟨?_, by simp⟩
    rintro p app ⟨⟩ happ rfl
    exact h app happ rfl
  | holdTimer gen => exact ⟨hc (by simp), hc (by simp)⟩
  | alarmTimer nowMs =>
    refine ⟨hr (by simp), ?_⟩
    rintro t ⟨⟩
    exact h
  | sensorDescriptor => trivial
  | _ => exact ⟨hr (by simp), by simp⟩

/-- The alarms restored at boot are not marked. -/
def Restored.Unmarked (r : Restored) : Prop := ∀ a ∈ r.alarms.rows, a.pendingDeliver = false

theorem attended_boot {r : Restored} (hr : r.Unmarked) : (boot w r).Attended [] := by
  refine (serves_attended w).ensureHomeForeground (attended_nil.mpr ?_)
  rintro o ⟨a, ha, -, hp⟩
  exact absurd ((hr a ha).symm.trans hp) Bool.false_ne_true

theorem Run.attended {d₀ : Daemon} (h₀ : d₀.Attended []) (h : Run (fun _ => WakesKept) d₀ d) :
    d.Attended [] :=
  h.invariant h₀ fun w _ hJ _ hi => (serves_attended w).step hi.allowed hJ

/-- A tick asks for the launch of an app. -/
def TickLaunches (clock : Clock) (nowMs : Nat) (d : Daemon) (o : String) : Prop :=
  ∃ k, .launch o k ∈ (d.arbiter.inject buildRegistry clock (.alarmTick nowMs)).2

/-- A tick asks for an app exactly when one of the app's due alarms is not marked. -/
theorem tickLaunches_iff {clock : Clock} {nowMs : Nat} {o : String} :
    d.TickLaunches clock nowMs o ↔
      ∃ a ∈ AlarmManager.woken d.arbiter.store nowMs, a.appId = o := by
  simp only [TickLaunches, Arbiter.inject_alarmTick, AlarmManager.launch_mem_asked]
  constructor
  · rintro ⟨_, a, ha, hao, -⟩
    exact ⟨a, ha, hao⟩
  · rintro ⟨a, ha, hao⟩
    exact ⟨_, a, ha, hao, rfl⟩

/-- While the launches that ticks ask for are answered, and no app with a marked
    alarm goes away, in every state reached a tick asks for the owner of each due alarm
    that is not running. -/
theorem no_wake_lost {w : World} {r : Restored} (hr : r.Unmarked)
    (h : Run (fun _ => WakesKept) (boot w r) d) (clock : Clock) (nowMs : Nat) {a : Alarm}
    (ha : a ∈ d.arbiter.store.alarms.rows) (hdue : a.nextFireMs ≤ nowMs)
    (hdead : d.arbiter.store.app a.appId = none) : d.TickLaunches clock nowMs a.appId := by
  have hm : a.pendingDeliver = false := by
    by_contra hp
    have hs := attended_nil.mp (h.attended (attended_boot hr)) a.appId
      ⟨a, ha, rfl, Bool.eq_true_of_not_eq_false hp⟩
    rw [hdead] at hs
    cases hs
  exact tickLaunches_iff.mpr ⟨a, AlarmManager.mem_woken.mpr
    ⟨AlarmManager.mem_orphaned.mpr ⟨ha, hdue, hdead⟩, hm⟩, rfl⟩

end Daemon

end

section

attribute [local instance] Fpu.comparator

namespace Daemon

/-- A world in which every process is alive and nothing answers. -/
def still : World where
  clock := ⟨0, 0⟩
  immersive _ := false
  alive _ := true
  relay _ := .error ""
  preload _ := .error ""

/-- A run whose first tick wakes an app and whose next alarm is another app's. -/
theorem no_wake_lost_answered :
    let d := step still (.client (.module (.alarm .schedule) "c 2 100 0"))
      (step still (.alarmTimer 100)
        (step still (.client (.module (.alarm .schedule) "b 1 100 0"))
          (boot still { zygote := [.ok 7] })))
    d.TickLaunches ⟨0, 0⟩ 100 "c" := by
  intro d
  have hr : Restored.Unmarked { zygote := [.ok 7] } := by simp [Restored.Unmarked, Table.empty]
  have h : Run (fun _ => WakesKept) (boot still { zygote := [.ok 7] }) d := by
    refine .step _ _ (.step _ _ (.step _ _ .start ?_ ?_) ?_ ?_) ?_ ?_
    · decide
    · trivial
    · decide
    · intro a ha
      have hz : AlarmManager.orphaned (step still (.client (.module (.alarm .schedule)
          "b 1 100 0")) (boot still { zygote := [.ok 7] })).arbiter.store 100 =
          [⟨"b", 1, 100, 0, .headless, false⟩] := by decide
      rw [hz, List.mem_singleton] at ha
      subst ha
      exact ⟨7, by decide⟩
    · decide
    · trivial
  exact no_wake_lost hr h ⟨0, 0⟩ 100 (a := ⟨"c", 2, 100, 0, .headless, false⟩) (by decide)
    (by decide) (by decide)

/-- A launch that fails: the alarm stays due, its owner is not running, and the ticks
    to come ask for nothing. -/
theorem wake_lost : ∃ d, Run (fun _ _ _ => True) (boot still {}) d ∧
    ∃ a ∈ d.arbiter.store.alarms.rows, a.nextFireMs ≤ 100 ∧
      d.arbiter.store.app a.appId = none ∧ ¬ d.TickLaunches ⟨0, 0⟩ 100 a.appId := by
  let d := step still (.alarmTimer 100)
    (step still (.client (.module (.alarm .schedule) "b 1 100 0")) (boot still {}))
  refine ⟨d, ?_, ⟨"b", 1, 100, 0, .headless, true⟩, by decide, by decide, by decide, ?_⟩
  · exact .step _ _ (.step _ _ .start (by decide) trivial) (by decide) trivial
  · have hw : AlarmManager.woken d.arbiter.store 100 = [] := by decide
    rintro ⟨k, hk⟩
    rw [Arbiter.inject_alarmTick, AlarmManager.launch_mem_asked, hw] at hk
    simp at hk

end Daemon

end

end Wandr
