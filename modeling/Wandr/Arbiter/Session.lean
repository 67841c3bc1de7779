import Mathlib.Data.Finset.Option
import Wandr.Arbiter.Calls

/-!
# The session of a call

The audio module has at most one call session, and the power module a set of the
processes in a call, filled and emptied by events. The badge of the call is a
notification of its app.

* `Arbiter.one_session`: as long as no call starts during the session of another
  process, and the badge of a session that ends, or whose process dies, is found
  under the app its process resolves to, the two views of the session agree and
  only the app of the session has a badge;
* `Arbiter.two_sessions`: a second call takes the session over, and the first one
  stays in the set.
-/

namespace Wandr

open Text

/-! ## Badges -/

namespace Store

/-- An app has the badge of a call. -/
def Badged (s : Store) (app : String) : Prop := (s.notifications.get? (app, callNotifId)).isSome

/-- A process runs for an app; untracked ones run for an app called `"?"`. -/
def Owns (s : Store) (p : Pid) (app : String) : Prop :=
  (∃ st ∈ s.apps.rows, st.pid = p ∧ st.appId = app) ∨ s.appByPid p = none ∧ app = "?"

variable {s s' : Store} {p : Pid} {app x t b : String} {n : Nat}

theorem badged_post : (s.postNotification app n t b).1.Badged x ↔
    (x = app ∧ n = callNotifId) ∨ s.Badged x := by
  have hkey : (x, callNotifId) = (app, n) ↔ x = app ∧ n = callNotifId := by
    rw [Prod.mk.injEq, eq_comm (a := n)]
  unfold Badged postNotification
  cases hn : s.notifications.get? (app, n) with
  | some k =>
    have hk : k.key = (app, n) := Table.key_of_get? hn
    rw [← hkey, ← hk]
    exact Table.isSome_get?_put
  | none =>
    rw [← hkey]
    exact Table.isSome_get?_put

theorem badged_cancel : (s.cancelNotification app n).1.Badged x ↔
    ¬(x = app ∧ n = callNotifId) ∧ s.Badged x := by
  unfold Badged cancelNotification
  rw [Table.get?_erase]
  by_cases h : (x, callNotifId) = (app, n)
  · obtain ⟨rfl, rfl⟩ := Prod.mk.inj h
    simp
  · rw [if_neg h]
    have : ¬(x = app ∧ n = callNotifId) := fun hx => h (by rw [hx.1, hx.2])
    simp [this]

theorem Owns.agree (h : s.Owns p app) (ha : s.Agree s') : s'.Owns p app := by
  unfold Owns appByPid
  rw [ha.apps]
  exact h

end Store

namespace AudioModule

variable {m : AudioModule} {c : Ctx} {p : Pid} {a x : String}

/-- The app a process resolves to is one the process runs for. -/
theorem owns_of_resolve {token : String} {s : Store} (h : resolve token s = some (p, a)) :
    s.Owns p a := by
  unfold resolve at h
  split at h
  · next q _ =>
    obtain ⟨rfl, rfl⟩ := Prod.mk.inj (Option.some.inj h)
    cases ha : s.appByPid q with
    | none => exact .inr ⟨ha, rfl⟩
    | some st =>
      have hq : st.pid = q := by simpa using List.find?_some ha
      exact .inl ⟨st, List.mem_of_find?_eq_some ha, hq, rfl⟩
  · obtain ⟨st, hst, he⟩ := Option.map_eq_some_iff.mp h
    obtain ⟨rfl, rfl⟩ := Prod.mk.inj he
    exact .inl ⟨st, Table.mem_of_get? hst, rfl, rfl⟩

theorem badged_stopRing : (m.stopRing p a c).2.store.Badged x ↔ c.store.Badged x := by
  unfold stopRing
  split
  · rfl
  · simp only [Ctx.store_modifyStore, Ctx.store_deliverToHost, Store.badged_cancel]
    simp [ringNotifId, callNotifId]

theorem badged_callStart :
    (m.callStart p a c).2.store.Badged x ↔ x = a ∨ c.store.Badged x := by
  simp [callStart, Store.badged_post, badged_stopRing]

theorem badged_callEnd :
    (m.callEnd p a c).2.store.Badged x ↔ x ≠ a ∧ c.store.Badged x := by
  simp [callEnd, Store.badged_cancel]

theorem badged_ringStart : (m.ringStart p a c).2.store.Badged x ↔ c.store.Badged x := by
  unfold ringStart
  cases hm : ({ m with ringing := some p }.grant p a .gainTransient
    (c.emit (.sensorAcquire .proximity p))).1.ringerMode <;>
    simp [hm, Store.badged_post, ringNotifId, callNotifId]

theorem badged_ringStop : (m.ringStop p a c).2.store.Badged x ↔ c.store.Badged x := by
  simp [ringStop, badged_stopRing]

theorem badged_clearBadge {n : Nat} : (clearBadge p n c).store.Badged x ↔
    (n = callNotifId → ∀ st, c.store.appByPid p = some st → x ≠ st.appId) ∧ c.store.Badged x := by
  unfold clearBadge
  cases h : c.store.appByPid p with
  | none => simp
  | some st =>
    simp only [Ctx.store_modifyStore, Store.badged_cancel]
    grind

/-- An event clears the badge of its process only, and only when the process was in
    the session. -/
theorem badged_onEvent {e : Event} (h : (m.onEvent e c).2.store.Badged x) : c.store.Badged x ∧
    ∀ p, e = .surfaceRemoved p → m.comms = some p →
      ∀ st, c.store.appByPid p = some st → x ≠ st.appId := by
  unfold onEvent at h
  split at h
  · next p =>
    unfold onSurfaceRemoved at h
    by_cases hc : m.comms = some p
    · by_cases hr : m.ringing = some p <;> simp [hc, hr, badged_clearBadge] at h <;> grind
    · by_cases hr : m.ringing = some p <;> simp [hc, hr, badged_clearBadge] at h <;> grind
  · next hs => exact ⟨h, fun p he => absurd he (hs p)⟩

end AudioModule

namespace SensorsModule

/-- The module posts and clears no notification. -/
theorem badged_onEvent [Fpu] {m : SensorsModule} {c : Ctx} {e : Event} {x : String} :
    (m.onEvent e c).2.store.Badged x ↔ c.store.Badged x := by
  have h : (m.onEvent e c).2.store.notifications = c.store.notifications := by
    unfold onEvent
    split
    · exact congrArg Store.notifications acquire_store
    · exact congrArg Store.notifications release_store
    · unfold onReading
      dsimp only
      split
      · unfold translateProximity
        split
        · rfl
        · dsimp only
          split <;> split <;> rfl
      · rfl
    · exact congrArg Store.notifications releaseAll_store
    · rfl
  rw [Store.Badged, h, Store.Badged]

end SensorsModule

/-! ## The group -/

/-- The modules concerned with calls and their notifications. -/
def callModules : Registry := .notify :: phoneModules

namespace Arbiter

/-- What the session is made of. -/
def OfSession : Stimulus → Prop
  | .command (.audio v) _ =>
    v = .callStart ∨ v = .callEnd ∨ v = .callVideo ∨ v = .ringStart ∨ v = .ringStop
  | .inject (.surfaceRemoved _) => True
  | _ => False

/-- A call starts when there is no session of another process, and the badge of a
    session that ends, or whose process dies, is the one of the app its process
    resolves to. -/
def OneAtATime (a : Arbiter) : Stimulus → Prop
  | .command (.audio .callStart) args => ∀ p app,
    AudioModule.resolve (trim args) a.store = some (p, app) →
      a.mods.audio.comms = none ∨ a.mods.audio.comms = some p
  | .command (.audio .callEnd) args => ∀ p app,
    AudioModule.resolve (trim args) a.store = some (p, app) → a.mods.audio.comms = some p →
      ∀ x, a.store.Badged x → x = app
  | .inject (.surfaceRemoved p) => a.mods.audio.comms = some p →
      ∀ x, a.store.Badged x → (a.store.appByPid p).map AppState.appId = some x
  | _ => True

/-- The two views of the session agree, once the pending events are heard. -/
structure OneSession (a : Arbiter) (q : List Event) : Prop where
  comms : q.foldl (fun s e => PowerModule.commsAfter e s) a.mods.power.comms =
    (q.foldl (fun o e => AudioModule.commsAfter e o) a.mods.audio.comms).toFinset
  badge : ∀ x, a.store.Badged x → ∃ p, a.mods.audio.comms = some p ∧ a.store.Owns p x
  death : ∀ p, .surfaceRemoved p ∈ q → OneAtATime a (.inject (.surfaceRemoved p))

variable [Fpu] {clock : Clock} {a : Arbiter} {fx : List Effect}

theorem fan_callModules {e : Event} :
    Bus.fan (handlers callModules clock) (.start a) e = a.phonesReact clock e := by
  rw [← fan_phoneModules]
  simp [Bus.fan, handlers, callModules, Bus.Out.react, handler, out, Modules.onEvent, Bus.Out.start]

/-- The reactions of the modules show nothing and start no app. -/
theorem phonesReact_agree {e : Event} : a.store.Agree (a.phonesReact clock e).state.store :=
  (AudioModule.onEvent_aside (R := Store.Agree) (E := fun _ => False)
    (c := { store := a.store }) e).store.trans
    (SensorsModule.onEvent_aside (c := { store := (a.audioReacts e).2.store }) e).store

/-- The events that follow one on calls tell nothing more of the session. -/
theorem phonesReact_inert {e : Event} : ∀ e' ∈ (a.phonesReact clock e).events,
    (∀ s, PowerModule.commsAfter e' s = s) ∧ (∀ o, AudioModule.commsAfter e' o = o) ∧
      ∀ p, e' ≠ .surfaceRemoved p := by
  intro e' he'
  rcases phonesReact_emits e' he' with (⟨r, -, rfl⟩ | ⟨r, -, rfl⟩ | rfl) | ⟨near, rfl⟩ <;>
    exact ⟨fun _ => rfl, fun _ => rfl, fun _ h => nomatch h⟩

omit [Fpu] in
theorem foldl_inert {α : Type} {f : α → Event → α} {es : List Event}
    (h : ∀ e ∈ es, ∀ s, f s e = s) (s : α) : es.foldl f s = s := by
  induction es with
  | nil => rfl
  | cons e es ih =>
    rw [List.foldl_cons, h e List.mem_cons_self]
    exact ih fun e' he' => h e' (List.mem_cons_of_mem _ he')

omit [Fpu] in
/-- The death of a process takes it out of both views of the session. -/
theorem erase_comms {o : Option Pid} {p : Pid} :
    o.toFinset.erase p = (AudioModule.commsAfter (.surfaceRemoved p) o).toFinset := by
  cases o with
  | none => simp [AudioModule.commsAfter]
  | some r =>
    by_cases hr : r = p
    · simp [AudioModule.commsAfter, hr]
    · simp [AudioModule.commsAfter, hr, Finset.erase_eq_of_notMem, Ne.symm hr]

omit [Fpu] in
/-- The session is over, or still the one of its process. -/
theorem commsAfter_eq_some {e : Event} {o : Option Pid} {p : Pid} :
    AudioModule.commsAfter e o = some p ↔ e ≠ .surfaceRemoved p ∧ o = some p := by
  cases e with
  | surfaceRemoved r =>
    by_cases hr : o = some r
    · simp [AudioModule.commsAfter, hr]
    · simp only [AudioModule.commsAfter, if_neg hr]
      grind
  | _ => simp [AudioModule.commsAfter]

theorem oneSession_settles :
    Bus.Settles (fun a q _ => OneSession a q) (handlers callModules clock) := by
  intro a e q fx h
  rw [fan_callModules]
  have hagree : a.store.Agree (a.phonesReact clock e).state.store := phonesReact_agree
  have hpower : (a.phonesReact clock e).state.mods.power.comms =
      PowerModule.commsAfter e a.mods.power.comms := PowerModule.onEvent_comms
  have haudio : (a.phonesReact clock e).state.mods.audio.comms =
      AudioModule.commsAfter e a.mods.audio.comms := AudioModule.onEvent_comms
  have hbadge (x : String) (hx : (a.phonesReact clock e).state.store.Badged x) :
      a.store.Badged x ∧ ∀ p, e = .surfaceRemoved p → a.mods.audio.comms = some p →
        ∀ st, a.store.appByPid p = some st → x ≠ st.appId :=
    AudioModule.badged_onEvent (c := { store := a.store })
      ((SensorsModule.badged_onEvent (c := { store := (a.audioReacts e).2.store })).mp hx)
  refine ⟨?_, fun x hx => ?_, fun p hp hc x hx => ?_⟩
  · rw [List.foldl_append, List.foldl_append,
      foldl_inert fun e' he' => (phonesReact_inert e' he').1,
      foldl_inert fun e' he' => (phonesReact_inert e' he').2.1, hpower, haudio]
    exact h.comms
  · obtain ⟨hb, hne⟩ := hbadge x hx
    obtain ⟨p, hp, ho⟩ := h.badge x hb
    refine ⟨p, ?_, ho.agree hagree⟩
    rw [haudio, commsAfter_eq_some]
    refine ⟨?_, hp⟩
    rintro rfl
    obtain ⟨st, hst, hid⟩ := Option.map_eq_some_iff.mp (h.death p List.mem_cons_self hp x hb)
    exact hne p rfl hp st hst hid.symm
  · rw [haudio, commsAfter_eq_some] at hc
    rw [hagree.appByPid]
    refine h.death p ?_ hc.2 x (hbadge x hx).1
    rcases List.mem_append.mp hp with hp | hp
    · exact List.mem_cons_of_mem _ hp
    · exact absurd rfl ((phonesReact_inert _ hp).2.2 p)

omit [Fpu] in
/-- What a verb of the session does to it, in a state where the verb may be given. -/
theorem session_step {v : AudioModule.Verb} {args : String} {m : AudioModule} {c : Ctx}
    (hs : AudioModule.Step a.mods.audio { store := a.store } v args m c) (h : OneSession a [])
    (ho : OneAtATime a (.command (.audio v) args)) :
    c.events.foldl (fun s e => PowerModule.commsAfter e s) a.mods.power.comms =
      (c.events.foldl (fun o e => AudioModule.commsAfter e o) m.comms).toFinset ∧
    ∀ x, c.store.Badged x → ∃ p, m.comms = some p ∧ a.store.Owns p x := by
  have hcomms : a.mods.power.comms = a.mods.audio.comms.toFinset := h.comms
  cases hs with
  | request => simpa using ⟨hcomms, h.badge⟩
  | abandon => simpa using ⟨hcomms, h.badge⟩
  | @callStart _ p app hp =>
    have hfree := ho p app hp
    refine ⟨?_, fun x hx => ⟨p, rfl, ?_⟩⟩
    · rw [AudioModule.callStart_events, AudioModule.callStart_comms, hcomms]
      rcases hfree with hf | hf <;> simp [hf, PowerModule.commsAfter, AudioModule.commsAfter]
    · rcases AudioModule.badged_callStart.mp hx with rfl | hx
      · exact AudioModule.owns_of_resolve hp
      · obtain ⟨r, hr, hown⟩ := h.badge x hx
        rcases hfree with hf | hf
        · rw [hf] at hr
          cases hr
        · rw [hf] at hr
          cases hr
          exact hown
  | @callEnd _ p app hp hc =>
    refine ⟨?_, fun x hx => ?_⟩
    · rw [AudioModule.callEnd_events, AudioModule.callEnd_comms, hcomms, hc]
      simp [PowerModule.commsAfter, AudioModule.commsAfter]
    · obtain ⟨hne, hx⟩ := AudioModule.badged_callEnd.mp hx
      exact absurd (ho p app hp hc x hx) hne
  | callVideo hc => exact ⟨hcomms, h.badge⟩
  | @ringStart _ p app hp =>
    rw [AudioModule.ringStart_events, AudioModule.ringStart_comms]
    exact ⟨hcomms, fun x hx => h.badge x (AudioModule.badged_ringStart.mp hx)⟩
  | @ringStop _ p app hp hr =>
    rw [AudioModule.ringStop_events, AudioModule.ringStop_comms]
    exact ⟨hcomms, fun x hx => h.badge x (AudioModule.badged_ringStop.mp hx)⟩
  | quiet _ hc _ hst hev =>
    rw [hev, hc]
    refine ⟨hcomms, fun x hx => ?_⟩
    rw [hst] at hx
    exact h.badge x hx

/-- A verb of the session, in a state where it may be given. -/
theorem OneSession.command {v : AudioModule.Verb} {args : String} (h : OneSession a [])
    (ho : OneAtATime a (.command (.audio v) args)) :
    OneSession (a.handle clock (.audio v) args).1.state
      (a.handle clock (.audio v) args).1.events := by
  have hw := AudioModule.onCommand_aside (R := Store.Agree) (c := { store := a.store })
    (m := a.mods.audio) v args
  obtain ⟨hcomms, hbadge⟩ := session_step
    (AudioModule.onCommand_step (m := a.mods.audio) (c := { store := a.store }) v args) h ho
  refine ⟨hcomms, fun x hx => ?_, fun p hp => ?_⟩
  · obtain ⟨p, hp, hown⟩ := hbadge x hx
    exact ⟨p, hp, hown.agree hw.store⟩
  · exact absurd (hw.forall_events rfl _ hp) (by simp [ModuleId.mayEmit])

/-- In every run of calls, rings and deaths, as long as each step finds the session
    free for it, the power module and the audio module have the same session, and
    only the app of the session has the badge of a call. -/
theorem one_session {a₀ : Arbiter} (h₀ : a₀.mods = {}) (hb : ∀ x, ¬ a₀.store.Badged x)
    (h : Run callModules (fun a i => OfSession i ∧ OneAtATime a i) a₀ a fx) :
    a.mods.power.comms = a.mods.audio.comms.toFinset ∧
    ∀ x, a.store.Badged x → ∃ p, a.mods.audio.comms = some p ∧ a.store.Owns p x := by
  have hJ : OneSession a [] := by
    refine h.invariant (J := fun a _ => OneSession a []) ?_ fun {a fx} clock i hJ hi _ => ?_
    · exact ⟨by simp [h₀], fun x hx => absurd hx (hb x), by simp⟩
    · obtain ⟨hs, ho⟩ := hi
      unfold OfSession at hs
      split at hs
      · next v args =>
        exact command_settles (J := fun a q _ => OneSession a q) fx oneSession_settles
          (hJ.command ho)
      · next p =>
        refine inject_settles (J := fun a q _ => OneSession a q) fx oneSession_settles
          ⟨?_, hJ.badge, fun q hq => ?_⟩
        · have hc : a.mods.power.comms = a.mods.audio.comms.toFinset := hJ.comms
          rw [List.foldl_cons, List.foldl_nil, List.foldl_cons, List.foldl_nil, hc]
          exact erase_comms
        · cases List.mem_singleton.mp hq
          exact ho
      · exact hs.elim
  exact ⟨hJ.comms, hJ.badge⟩

end Arbiter

section

attribute [local instance] Fpu.comparator

namespace Arbiter

/-- A call that starts and ends, with nothing left of it. -/
theorem one_session_hungUp :
    let a := respond callModules ⟨0, 0⟩ {} (.command (.audio .callStart) "7")
    let b := a.1.respond callModules ⟨0, 0⟩ (.command (.audio .callEnd) "7")
    a.1.mods.power.comms = {7} ∧ b.1.mods.power.comms = ∅ := by
  intro a b
  have ha : Run callModules (fun a i => OfSession i ∧ OneAtATime a i) {} a.1 ([] ++ a.2) :=
    .step ⟨0, 0⟩ (.command (.audio .callStart) "7") .start
      ⟨.inl rfl, fun _ _ _ => .inl rfl⟩ (by decide)
  have hbadge : OneAtATime a.1 (.command (.audio .callEnd) "7") := by
    intro p app hp _ x hx
    have hq : AudioModule.resolve (trim "7") a.1.store = some (7, "?") := by decide
    have hkeys : a.1.store.notifications.rows.map Notification.key = [("?", callNotifId)] := by
      decide
    have hx : (x, callNotifId) ∈ a.1.store.notifications.rows.map Notification.key :=
      Table.mem_keys_iff.mpr hx
    rw [hq] at hp
    rw [hkeys, List.mem_singleton] at hx
    cases hp
    cases hx
    rfl
  have hb : Run callModules (fun a i => OfSession i ∧ OneAtATime a i) {} b.1 ([] ++ a.2 ++ b.2) :=
    .step ⟨0, 0⟩ (.command (.audio .callEnd) "7") ha ⟨.inr (.inl rfl), hbadge⟩ (by decide)
  have hempty (x : String) : ¬ ({} : Arbiter).store.Badged x := by simp [Store.Badged]
  have hn : b.1.mods.audio.comms = none := by decide
  exact ⟨by decide, by rw [(one_session rfl hempty hb).1, hn]; rfl⟩

/-- A second call takes the session over, and the power module keeps the first
    one. -/
theorem two_sessions :
    ∃ a fx, Run callModules (fun _ => OfSession) {} a fx ∧ a.mods.audio.comms = some 8 ∧
      a.mods.power.comms = {7, 8} := by
  let a := respond callModules ⟨0, 0⟩ {} (.command (.audio .callStart) "7")
  let b := a.1.respond callModules ⟨0, 0⟩ (.command (.audio .callStart) "8")
  have ha : Run callModules (fun _ => OfSession) {} a.1 ([] ++ a.2) :=
    .step ⟨0, 0⟩ (.command (.audio .callStart) "7") .start (.inl rfl) (by decide)
  exact ⟨b.1, [] ++ a.2 ++ b.2,
    .step ⟨0, 0⟩ (.command (.audio .callStart) "8") ha (.inl rfl) (by decide), by decide, by decide⟩

end Arbiter

end

end Wandr
