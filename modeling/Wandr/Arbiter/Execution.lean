import Wandr.Arbiter.Conduct
import Wandr.Arbiter.Daemon

/-!
# Performing effects

A dispatch leaves a list of effects behind, and performing one of them may run
commands that leave further ones. The commands it runs are `foreground` and
`set-immersive`, whose own effects are *plain*: performing them runs nothing.

* `Daemon.executeWithin_eq`: whatever the depth allowed beyond `effectDepth`,
  performing effects is the plain loop over `Daemon.carryOut`;
* `Daemon.Upkeep`: what each way of performing an effect keeps, and
  `Daemon.Upkeep.executeEffects`, that performing a list of effects then keeps it
  too; the property may mention the effects still to be performed;
* `Daemon.Serves`: the same for what a client, a timer or an exit can make the
  daemon do, and `Daemon.Serves.step` for a step of the daemon.
-/

namespace Wandr

/-- An effect that runs nothing when it is performed. -/
def Effect.Plain : Effect → Prop
  | .foreground _ | .launch .. => False
  | _ => True

/-- The owner that an effect asks to be launched. -/
def Effect.launchedApp : Effect → Option String
  | .launch appId _ => some appId
  | _ => none

/-- The owners that effects ask to be launched, in order. -/
def launched (fx : List Effect) : List String := fx.filterMap Effect.launchedApp

theorem launched_append {fx fx' : List Effect} :
    launched (fx ++ fx') = launched fx ++ launched fx' := List.filterMap_append

theorem Effect.Plain.launchedApp {f : Effect} (h : f.Plain) : f.launchedApp = none := by
  cases f <;> first | rfl | exact h.elim

theorem launched_plain {fx : List Effect} (h : ∀ f ∈ fx, f.Plain) : launched fx = [] :=
  List.filterMap_eq_nil_iff.mpr fun f hf => (h f hf).launchedApp

/-- An event that is no tick of the alarm clock. -/
def Event.Untimed (e : Event) : Prop := ∀ nowMs, e ≠ .alarmTick nowMs

theorem ModuleId.mayEmit.untimed {id : ModuleId} {e : Event} (h : id.mayEmit e) : e.Untimed := by
  rintro t rfl
  cases id <;> exact h

variable [Fpu]

omit [Fpu] in
theorem ModuleId.mayEmit.notRemoval {id : ModuleId} {e : Event} (h : id.mayEmit e) :
    ∀ p, e ≠ .surfaceRemoved p := by
  rintro p rfl
  cases id <;> exact h

/-! ## Plain dispatches -/

omit [Fpu] in
theorem KeyguardModule.doLock_plain {m : KeyguardModule} {s : Store} :
    ∀ f ∈ (m.doLock { store := s }).2.1.effects, f.Plain := by
  unfold doLock
  split
  · simp
  · split
    · simp
    · simp only [refanOrientation, showLockscreen, coverVisible, setRole]
      split <;> simp [Effect.Plain]

omit [Fpu] in
/-- The keyguard brings no app to the foreground when it reacts to an event. -/
theorem KeyguardModule.onEvent_plain {m : KeyguardModule} {e : Event} {s : Store} :
    ∀ f ∈ (m.onEvent e { store := s }).2.effects, f.Plain := by
  cases e with
  | screenState live =>
    cases live with
    | false => exact doLock_plain
    | true => simp [onEvent]
  | _ => simp [onEvent, onSurfaceRemoved]

namespace Arbiter

variable {reg : Registry} {clock : Clock} {a : Arbiter} {e : Event} {verb : Verb} {args : String}

/-- Only the alarms launch anything in reaction to an event, and only when the
    clock ticks. -/
theorem handler_plain (id : ModuleId) (he : e.Untimed) :
    ∀ f ∈ (handler clock id e a).effects, f.Plain := by
  intro f hf
  have hr := handler_requests f hf
  cases id with
  | alarm =>
    have hn : (AlarmManager.onEvent e { store := a.store }).effects = [] := by
      cases e with
      | alarmTick t => exact absurd rfl (he t)
      | _ => rfl
    simp only [handler, Modules.onEvent, effects_out, hn] at hf
    exact absurd hf List.not_mem_nil
  | notify => exact absurd hf List.not_mem_nil
  | keyguard => exact KeyguardModule.onEvent_plain f hf
  | _ => cases f <;> trivial

/-- The reactions of the modules to events that are no ticks are plain. -/
theorem handler_keeps_plain (id : ModuleId) :
    Bus.Keeps (fun _ fx => ∀ f ∈ fx, Effect.Plain f) Event.Untimed (handler clock id) where
  inv he hJ f hf := (List.mem_append.mp hf).elim (hJ f) (handler_plain id he f)
  emits _ _ e' he' := (handler_emits e' he').2.untimed

theorem command_plain (h : ∀ f, verb.owner.mayRequest f → f.Plain) :
    ∀ f ∈ (a.command reg clock verb args).2.1, f.Plain := by
  have hw : Ctx.Within Store.Anyhow verb.owner.mayEmit verb.owner.mayRequest
      { store := a.store } (a.mods.onCommand clock verb args { store := a.store }).2.1 :=
    Modules.onCommand_within
  exact command_keeps (fun id _ => handler_keeps_plain id)
    (fun f hf => h f (hw.forall_effects rfl f hf)) fun e he => (hw.forall_events rfl e he).untimed

theorem inject_plain (he : e.Untimed) : ∀ f ∈ (a.inject reg clock e).2, f.Plain :=
  inject_keeps (fun id _ => handler_keeps_plain id) (by simp) he

theorem command_plain_shell {v : Shell.Verb} :
    ∀ f ∈ (a.command reg clock (.shell v) args).2.1, f.Plain :=
  command_plain fun f hf => by cases f <;> trivial

theorem command_plain_wm {v : Wm.Verb} :
    ∀ f ∈ (a.command reg clock (.wm v) args).2.1, f.Plain :=
  command_plain fun f hf => by cases f <;> trivial

end Arbiter

/-! ## The apps that run -/

namespace Shell

/-- A verb that kills an app or registers one. -/
def Verb.Enlists : Verb → Prop
  | .kill | .taskKill | .registerChrome => True
  | _ => False

end Shell

namespace Arbiter

variable {reg : Registry} {clock : Clock} {a : Arbiter} {e : Event} {verb : Verb} {args : String}

/-- The shell apart, no module changes which apps run. -/
theorem handler_sameApps_of_ne {id : ModuleId} (hid : id ≠ .shell) :
    a.store.SameApps (handler clock id e a).state.store := by
  have hf (hR : ∀ p ∈ id.parts, Store.Allows Store.SameApps p) :
      a.store.SameApps (handler clock id e a).state.store :=
    (Modules.onEvent_frame (c := { store := a.store }) Store.SameApps hR).store
  refine hf fun p hp => ?_
  cases id with
  | shell => exact absurd rfl hid
  | _ =>
    simp only [ModuleId.parts, List.mem_singleton, List.not_mem_nil] at hp <;> subst hp <;>
      infer_instance

/-- Only the exit of a process takes an app from the registry. -/
theorem handler_sameApps (id : ModuleId) (he : ∀ p, e ≠ .surfaceRemoved p) :
    a.store.SameApps (handler clock id e a).state.store := by
  by_cases hid : id = .shell
  · subst hid
    cases e with
    | surfaceRemoved p => exact absurd rfl (he p)
    | foregroundChanged f p =>
      exact (Shell.onForegroundChanged_within (E := fun _ => True) fun _ => trivial).store
    | _ => exact ⟨rfl, rfl⟩
  · exact handler_sameApps_of_ne hid

/-- Only the verbs of the shell that kill or register an app change which apps run. -/
theorem command_sameApps (h : ∀ v, verb = .shell v → ¬ v.Enlists) :
    a.store.SameApps (a.command reg clock verb args).1.store := by
  have hc : a.store.SameApps (a.handle clock verb args).1.state.store := by
    have hf (hR : ∀ p ∈ verb.owner.parts, Store.Allows Store.SameApps p) :
        a.store.SameApps (a.handle clock verb args).1.state.store :=
      (Modules.onCommand_frame (c := { store := a.store }) Store.SameApps hR).store
    cases verb with
    | shell v =>
      have hv := h v rfl
      have hk : v ≠ .kill ∧ v ≠ .taskKill ∧ v ≠ .registerChrome := by
        refine ⟨?_, ?_, ?_⟩ <;> rintro rfl <;> exact hv trivial
      exact (Shell.onCommand_sameApps (c := { store := a.store }) (fun _ _ => .of_display)
        hk.1 hk.2.1 hk.2.2).store
    | _ =>
      refine hf fun p hp => ?_
      simp only [Verb.owner, ModuleId.parts, List.mem_singleton, List.not_mem_nil] at hp <;>
        subst hp <;> infer_instance
  have hw : Ctx.Within Store.Anyhow verb.owner.mayEmit verb.owner.mayRequest
      { store := a.store } (a.mods.onCommand clock verb args { store := a.store }).2.1 :=
    Modules.onCommand_within
  refine command_keeps (J := fun a' _ => a.store.SameApps a'.store)
    (E := fun e => ∀ p, e ≠ .surfaceRemoved p) (fun id _ => ⟨fun he hJ => ?_, fun _ _ e' he' => ?_⟩)
    hc fun e he => (hw.forall_events rfl e he).notRemoval
  · exact trans_of _ hJ (handler_sameApps id he)
  · exact (handler_emits e' he').2.notRemoval

end Arbiter

namespace Daemon

variable {w : World} {d : Daemon} {fx : List Effect} {n : Nat}

/-- Record effects as performed. -/
def performAll (d : Daemon) (fx : List Effect) : Daemon := { d with trace := d.trace ++ fx }

/-- Run a command whose effects are plain. -/
def runPlain (w : World) (verb : Verb) (args : String) (d : Daemon) : Daemon :=
  (d.runModule w verb args).1.performAll (d.runModule w verb args).2.1

/-- Bring a tracked app to the foreground, and make the chrome agree. -/
def bringForward (w : World) (appId : String) (d : Daemon) : Daemon :=
  let d := runPlain w (.shell .foreground) appId d
  runPlain w (.wm .setImmersive) (bit ((d.foregroundSlot.map w.immersive).getD false)) d

/-- Perform one effect, with what it runs. -/
def carryOut (w : World) (d : Daemon) (f : Effect) : Daemon :=
  match f with
  | .foreground appId => bringForward w appId (d.perform f)
  | .launch appId kind => launchEffect w appId kind (d.perform f)
  | _ => d.perform f

/-! ## The depth of the recursion -/

theorem executeWithin_plain (h : ∀ f ∈ fx, f.Plain) :
    executeWithin w (n + 1) fx d = d.performAll fx := by
  unfold executeWithin
  induction fx generalizing d with
  | nil => simp [performAll]
  | cons f fx ih =>
    have hf := h f List.mem_cons_self
    rw [List.foldl_cons, ih fun g hg => h g (List.mem_cons_of_mem _ hg)]
    cases f <;> first | exact hf.elim | simp [executeEffect, perform, performAll]

theorem runAndExecute_plain {verb : Verb} {args : String}
    (h : ∀ f ∈ (d.runModule w verb args).2.1, f.Plain) :
    (runAndExecute (executeWithin w (n + 1)) w verb args d).1 = runPlain w verb args d :=
  executeWithin_plain h

theorem reconcileImmersive_eq :
    reconcileImmersive (executeWithin w (n + 1)) w d =
      runPlain w (.wm .setImmersive) (bit ((d.foregroundSlot.map w.immersive).getD false)) d :=
  runAndExecute_plain Arbiter.command_plain_wm

theorem dispatchForeground_eq {appId : String} :
    dispatchForeground (executeWithin w (n + 1)) w appId d = bringForward w appId d := by
  unfold dispatchForeground bringForward
  rw [reconcileImmersive_eq, runAndExecute_plain Arbiter.command_plain_shell]

/-- Two levels of re-entry are enough: performing an effect runs commands whose
    effects are plain. -/
theorem executeWithin_eq : executeWithin w (n + effectDepth) fx d = fx.foldl (carryOut w) d := by
  have h : (fun d f => executeEffect (executeWithin w (n + 1)) w f d) = carryOut w := by
    funext d f
    cases f with
    | foreground appId => exact dispatchForeground_eq
    | _ => rfl
  rw [effectDepth, ← h]
  rfl

theorem executeEffects_eq : executeEffects w fx d = fx.foldl (carryOut w) d :=
  executeWithin_eq (n := 0)

/-! ## The answers of the zygote -/

section

omit [Fpu]

variable {a : String} {k : LaunchKind} {rest : List (Except String Pid)}

/-- The role a launched process starts in. -/
def launchRole (kind : LaunchKind) : Role := if kind = .headless then .headless else .background

attribute [local simp] launchEffect askZygote

theorem launchEffect_nil (h : d.zygote = []) : launchEffect w a k d = d := by
  simp [h]

theorem launchEffect_error {e : String} (h : d.zygote = .error e :: rest) :
    launchEffect w a k d = { d with zygote := rest } := by
  simp [h]

theorem launchEffect_ok {pid : Pid} (h : d.zygote = .ok pid :: rest) :
    launchEffect w a k d = ({ d with zygote := rest }.registerLaunch w.clock a pid
      (launchRole k)).perform (.setRole pid (launchRole k)) := by
  simp [h, launchRole]

end

/-! ## What performing effects keeps -/

/-- What each way of performing an effect keeps: a property of the daemon and of
    the effects still to be performed. -/
structure Upkeep (w : World) (J : Daemon → List Effect → Prop) : Prop where
  plain : ∀ {d f q}, f.Plain → J d (f :: q) → J (d.perform f) q
  launch : ∀ {d a k q}, J d (.launch a k :: q) →
    J (launchEffect w a k (d.perform (.launch a k))) q
  foreground : ∀ {d a q}, J d (.foreground a :: q) →
    J ((d.perform (.foreground a)).runModule w (.shell .foreground) a).1
      (((d.perform (.foreground a)).runModule w (.shell .foreground) a).2.1 ++ q)
  immersive : ∀ {d q} args, J d q →
    J (d.runModule w (.wm .setImmersive) args).1
      ((d.runModule w (.wm .setImmersive) args).2.1 ++ q)

namespace Upkeep

variable {J : Daemon → List Effect → Prop} (h : Upkeep w J) {q : List Effect}

include h

theorem performAll (hp : ∀ f ∈ fx, f.Plain) (hJ : J d (fx ++ q)) : J (d.performAll fx) q := by
  induction fx generalizing d with
  | nil => simpa [Daemon.performAll] using hJ
  | cons f fx ih =>
    have := ih (fun g hg => hp g (List.mem_cons_of_mem _ hg)) (h.plain (hp f List.mem_cons_self) hJ)
    simpa [Daemon.performAll, perform] using this

theorem reconcile (hJ : J d q) (args : String) : J (runPlain w (.wm .setImmersive) args d) q :=
  h.performAll Arbiter.command_plain_wm (h.immersive args hJ)

theorem bringForward {appId : String} (hJ : J (d.runModule w (.shell .foreground) appId).1
    ((d.runModule w (.shell .foreground) appId).2.1 ++ q)) : J (bringForward w appId d) q :=
  h.reconcile (h.performAll Arbiter.command_plain_shell hJ) _

theorem carryOut {f : Effect} (hJ : J d (f :: q)) : J (carryOut w d f) q := by
  cases f with
  | foreground appId => exact h.bringForward (h.foreground hJ)
  | launch appId kind => exact h.launch hJ
  | _ => exact h.plain trivial hJ

/-- What each way of performing an effect keeps, performing all of them keeps. -/
theorem executeEffects (hJ : J d fx) : J (executeEffects w fx d) [] := by
  rw [executeEffects_eq]
  induction fx generalizing d with
  | nil => exact hJ
  | cons f fx ih => exact ih (h.carryOut hJ)

end Upkeep

/-! ## What a step of the daemon keeps -/

/-- Looking credentials up changes nothing and requests nothing. -/
theorem runModule_savedCreds {args : String} :
    (d.runModule w (.net .savedCreds) args).1 = d := by
  have ho : (d.arbiter.handle w.clock (.net .savedCreds) args).1 = .start d.arbiter := by
    have hm : (d.arbiter.mods.net.cmdSavedCreds args).1 = d.arbiter.mods.net := by
      unfold NetModule.cmdSavedCreds
      split
      · rfl
      · split <;> rfl
    simp [Arbiter.handle, Modules.onCommand, NetModule.onCommand, NetModule.inCtx, Arbiter.out, hm,
      Bus.Out.start]
  unfold runModule Arbiter.command Arbiter.drainCascade
  dsimp only
  rw [ho, Bus.drain_of_events_nil rfl]
  rfl

/-- The app a launch brings forward instead of starting it again. -/
def runningApp (w : World) (appId : String) (kind : LaunchKind) (a : Arbiter) : Option AppState :=
  if kind = .gui ∧ appId ≠ "" then (a.store.app appId).filter fun s => w.alive s.pid else none

/-- The app-id a launched process is registered under. -/
def launchKey (appId : String) : String := if appId = "" then "<dev-cwasm>" else appId

/-- What the daemon keeps when it serves commands of the class `V`, injects events
    of the class `E` and launches apps of the class `L`. -/
structure Serves (w : World) (V : Arbiter → Verb → String → Prop) (E : Daemon → Event → Prop)
    (L : Daemon → String → Prop) (J : Daemon → List Effect → Prop) : Prop extends Upkeep w J where
  command : ∀ {d verb args}, V d.arbiter verb args → J d [] →
    J (d.runModule w verb args).1 (d.runModule w verb args).2.1
  event : ∀ {d e}, E d e → J d [] →
    J { d with arbiter := (d.arbiter.inject buildRegistry w.clock e).1 }
      (d.arbiter.inject buildRegistry w.clock e).2
  promote : ∀ {d} appId, J d [] → J (d.runModule w (.shell .foreground) appId).1
    (d.runModule w (.shell .foreground) appId).2.1
  register : ∀ {d appId pid rest} role, d.zygote = .ok pid :: rest → L d appId →
    J d [] → J ({ d with zygote := rest }.registerLaunch w.clock appId pid role) []
  absent : ∀ {d appId}, d.arbiter.store.app appId = none → L d appId
  unanswered : ∀ {d answer rest}, d.zygote = answer :: rest → J d [] →
    J { d with zygote := rest } []
  signal : ∀ {d} pid, J d [] → J (d.perform (.signalVisible pid false)) []
  home : ∀ {d} app, J d [] → J (d.modifyStore fun s => s.setHome app) []
  descriptor : ∀ {d} kind maxRange resolution, J d [] →
    J (d.modifyStore fun s => s.setSensorDescriptor kind maxRange resolution) []
  power : ∀ {d} powerPending powerGen reboots, J d [] →
    J { d with powerPending, powerGen, reboots } []

/-- A command of a module, allowed in the state it is run in. -/
abbrev RunAllowed (V : Arbiter → Verb → String → Prop) (d : Daemon) (verb : Verb) (args : String) :
    Prop := V d.arbiter verb args

/-- The commands that open the power menu. -/
def MenuAllowed (w : World) (V : Arbiter → Verb → String → Prop) (d : Daemon) : Prop :=
  RunAllowed V d (.power .panel) "on" ∧
    RunAllowed V (run w (.power .panel) "on" d).1 (.keyguard .powerMenu) ""

/-- The commands a verb of the daemon runs, and the launch it asks for. -/
def LegacyAllowed (w : World) (V : Arbiter → Verb → String → Prop) (L : Daemon → String → Prop)
    (d : Daemon) : LegacyVerb → String → Prop
  | .launch, rest => runningApp w rest .gui d.arbiter = none → L d (launchKey rest)
  | .launchHeadless, rest | .launchOverlay, rest => rest ≠ "" → L d (launchKey rest)
  | .pmLock, _ => RunAllowed V d (.keyguard .pmDismiss) "" ∧
      RunAllowed V (run w (.keyguard .pmDismiss) "" d).1 (.keyguard .lock) ""
  | .pmPoweroff, _ | .pmRestart, _ | .pmEmergency, _ => RunAllowed V d (.keyguard .pmDismiss) ""
  | .powerUp, _ => RunAllowed V d (.power .powerKey) "" ∧
      MenuAllowed w V { d with powerPending := none }
  | _, _ => True

/-- The commands, the events and the launches of a step. -/
def Allowed (w : World) (V : Arbiter → Verb → String → Prop) (E : Daemon → Event → Prop)
    (L : Daemon → String → Prop) (d : Daemon) : Input → Prop
  | .client (.module verb args) => V d.arbiter verb args
  | .client (.legacy verb args) => LegacyAllowed w V L d verb args
  | .client (.unknown _) => True
  | .childExit pid => E d (.surfaceRemoved pid)
  | .holdTimer _ => MenuAllowed w V { d with powerPending := none }
  | .alarmTimer nowMs => E d (.alarmTick nowMs)
  | .screenPoll live => E d (.screenState live)
  | .idleTimer => E d .idleTick
  | .sensorSample kind x y z tsNs => E d (.sensorReading kind x y z tsNs)
  | .sensorDescriptor .. => True

namespace Serves

variable {V : Arbiter → Verb → String → Prop} {E : Daemon → Event → Prop}
  {L : Daemon → String → Prop} {J : Daemon → List Effect → Prop} (h : Serves w V E L J)

include h

theorem run {verb : Verb} {args : String} (hV : RunAllowed V d verb args) (hJ : J d []) :
    J (run w verb args d).1 [] :=
  h.executeEffects (h.command hV hJ)

theorem bring (appId : String) (hJ : J d []) : J (foreground w appId d) [] := by
  have he : foreground w appId d = Daemon.bringForward w appId d := dispatchForeground_eq
  rw [he]
  exact h.bringForward (by simpa using h.promote appId hJ)

theorem reconcileIfChanged {before : Daemon} (hJ : J d []) :
    J (reconcileIfChanged w before d) [] := by
  unfold Daemon.reconcileIfChanged
  split
  · have he : reconcileImmersive (Daemon.executeEffects w) w d = _ := reconcileImmersive_eq
    rw [he]
    exact h.reconcile hJ _
  · exact hJ

theorem busEmit {e : Event} (hE : E d e) (hJ : J d []) : J (busEmit w e d) [] :=
  h.reconcileIfChanged (h.executeEffects (h.event hE hJ))

theorem ensureHomeForeground (hJ : J d []) : J (ensureHomeForeground w d) [] := by
  unfold Daemon.ensureHomeForeground
  split
  · exact hJ
  · next home _ =>
    split
    · exact hJ
    · split
      · exact h.bring home hJ
      · next hn =>
        have hL : L d home := h.absent (by simpa using hn)
        unfold askZygote
        rcases hz : d.zygote with _ | ⟨answer, rest⟩
        · exact hJ
        · cases answer with
          | error e => exact h.unanswered hz hJ
          | ok pid => exact h.bring home (h.register _ hz hL hJ)

theorem launchFresh {appId : String} {kind : LaunchKind} (hL : L d (launchKey appId))
    (hJ : J d []) : J (launchFresh w appId kind d).1 [] := by
  unfold Daemon.launchFresh askZygote
  rcases hz : d.zygote with _ | ⟨answer, rest⟩
  · exact hJ
  · cases answer with
    | error e => exact h.unanswered hz hJ
    | ok pid =>
      have hr := h.register (if kind = .headless then .headless else .background) hz hL hJ
      unfold launchKey at hr
      dsimp only
      cases kind with
      | gui => exact h.bring _ hr
      | guiOverlay => exact h.signal pid hr
      | headless => exact hr

theorem cmdLaunch {appId : String} {kind : LaunchKind} (hJ : J d [])
    (hL : appId ≠ "" ∨ kind = .gui → runningApp w appId kind d.arbiter = none →
      L d (launchKey appId)) : J (cmdLaunch w appId kind d).1 [] := by
  unfold Daemon.cmdLaunch
  split
  · exact hJ
  · next hk =>
    have hk' : appId ≠ "" ∨ kind = .gui := by tauto
    split
    · dsimp only
      exact h.bring _ hJ
    · next hn => exact h.launchFresh (hL hk' hn) hJ

theorem cmdSetHome {rest : String} (hJ : J d []) : J (cmdSetHome w rest d).1 [] := by
  unfold Daemon.cmdSetHome
  dsimp only
  split
  · exact hJ
  · split
    · exact h.home _ hJ
    · dsimp only
      exact h.ensureHomeForeground (h.home _ hJ)

theorem showPowerMenu (hm : MenuAllowed w V d) (hJ : J d []) : J (showPowerMenu w d) [] :=
  h.run hm.2 (h.run hm.1 hJ)

theorem cmdPowerUp (hk : RunAllowed V d (.power .powerKey) "")
    (hm : MenuAllowed w V { d with powerPending := none }) (hJ : J d []) :
    J (cmdPowerUp w d).1 [] := by
  unfold Daemon.cmdPowerUp
  split
  · exact hJ
  · have hJ' : J { d with powerPending := none } [] := h.power none d.powerGen d.reboots hJ
    dsimp only
    split
    · exact h.showPowerMenu hm hJ'
    · exact h.run hk hJ'

theorem cmdPowerDown (hJ : J d []) : J (cmdPowerDown w d).1 [] := by
  unfold Daemon.cmdPowerDown
  split
  · exact hJ
  · exact h.power _ _ d.reboots hJ

theorem holdTimer {gen : Nat} (hm : MenuAllowed w V { d with powerPending := none })
    (hJ : J d []) : J (holdTimer w gen d) [] := by
  unfold Daemon.holdTimer
  split
  · exact h.showPowerMenu hm (h.power none d.powerGen d.reboots hJ)
  · exact hJ

theorem legacy {verb : LegacyVerb} {rest : String} (hV : LegacyAllowed w V L d verb rest)
    (hJ : J d []) : J (legacy w verb rest d).1 [] := by
  cases verb with
  | launch => exact h.cmdLaunch hJ fun _ => hV
  | launchHeadless | launchOverlay =>
    refine h.cmdLaunch hJ fun hr _ => hV ?_
    simpa using hr
  | preload =>
    simp only [Daemon.legacy, cmdPreload]
    split
    · exact hJ
    · split <;> exact hJ
  | setHome => exact h.cmdSetHome hJ
  | goHome =>
    simp only [Daemon.legacy, cmdGoHome]
    split
    · exact h.ensureHomeForeground hJ
    · exact hJ
  | wifiConnectSaved =>
    have hd : (d.runModule w (.net .savedCreds) rest).1 = d := runModule_savedCreds
    simp only [Daemon.legacy, cmdWifiConnectSaved]
    split
    · next heq =>
      rw [heq] at hd
      exact hd ▸ hJ
    · next heq =>
      rw [heq] at hd
      split <;> exact hd ▸ hJ
  | pmLock => exact h.run hV.2 (h.run hV.1 hJ)
  | pmPoweroff | pmRestart =>
    have hr := h.run hV hJ
    exact h.power _ _ _ hr
  | pmEmergency => exact h.run hV hJ
  | powerDown => exact h.cmdPowerDown hJ
  | powerUp => exact h.cmdPowerUp hV.1 hV.2 hJ
  | _ => exact hJ

theorem handleChildExit {pid : Pid} (hE : E d (.surfaceRemoved pid)) (hJ : J d []) :
    J (handleChildExit w pid d) [] := by
  unfold Daemon.handleChildExit
  split
  · exact hJ
  · have hb := h.busEmit hE hJ
    dsimp only
    split
    · exact h.ensureHomeForeground hb
    · exact hb

/-- A step the conditions allow keeps what the daemon keeps. -/
theorem step {i : Input} (hi : Allowed w V E L d i) (hJ : J d []) : J (step w i d) [] := by
  cases i with
  | client cmd =>
    cases cmd with
    | module verb args => exact h.reconcileIfChanged (h.run hi hJ)
    | legacy verb args => exact h.legacy hi hJ
    | unknown verb => exact hJ
  | childExit pid => exact h.handleChildExit hi hJ
  | holdTimer gen => exact h.holdTimer hi hJ
  | alarmTimer nowMs =>
    unfold Daemon.step
    dsimp only
    split
    · exact h.busEmit hi hJ
    · exact hJ
  | screenPoll live => exact h.busEmit hi hJ
  | idleTimer => exact h.busEmit hi hJ
  | sensorSample => exact h.busEmit hi hJ
  | sensorDescriptor kind maxRange resolution => exact h.descriptor _ _ _ hJ

end Serves

/-! ## Runs -/

/-- The states of a run of the daemon whose steps meet a condition; a step is taken
    from states without a failed expectation only. -/
inductive Run (Ok : World → Daemon → Input → Prop) (d₀ : Daemon) : Daemon → Prop
  | start : Run Ok d₀ d₀
  | step {d : Daemon} (w : World) (i : Input) : Run Ok d₀ d → d.arbiter.panicked = false →
      Ok w d i → Run Ok d₀ (Daemon.step w i d)

/-- What holds at the start and is kept by each step holds throughout. -/
theorem Run.invariant {Ok : World → Daemon → Input → Prop} {J : Daemon → Prop} {d₀ : Daemon}
    (h : Run Ok d₀ d) (h₀ : J d₀)
    (hs : ∀ {d} w i, J d → d.arbiter.panicked = false → Ok w d i → J (Daemon.step w i d)) :
    J d := by
  induction h with
  | start => exact h₀
  | step w i _ hp hi ih => exact hs w i ih hp hi

end Daemon

end Wandr
