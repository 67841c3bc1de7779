import Wandr.Arbiter.Registry

/-!
# Footprints

What a handler can do to what the modules share. `Ctx.Within R E F` bounds a
piece of a handler: it changes the store as the relation `R` allows, emits
events of the class `E` only and requests effects of the class `F` only. Such
bounds compose, and each primitive of the handle of a module has its rule
(`Ctx.Within.emit`, `Ctx.Within.request` and so on).

The store is written part by part (`Store.Part`), and a relation allows a part
(`Store.Allows`) when it bounds no write to it. A piece of a handler works *aside*
(`Ctx.Aside`) when it leaves alone what is shown on the primary display and which
apps run. `ModuleId.parts`, `ModuleId.mayEmit` and `ModuleId.mayRequest` list the
parts, the events and the effects of each module, and `Event.rank` bounds the
cascade an event starts.
-/

namespace Wandr

/-- Two stores agree on what is shown on the primary display and on which apps
    run. -/
structure Store.Agree (s s' : Store) : Prop where
  surfaces : s'.primary.surfaces = s.primary.surfaces
  imeEditor : s'.primary.imeEditor = s.primary.imeEditor
  activeIme : s'.primary.activeIme = s.primary.activeIme
  apps : s'.apps = s.apps
  home : s'.home = s.home

namespace Store.Agree

variable {s s' s'' : Store}

theorem refl : s.Agree s := ⟨rfl, rfl, rfl, rfl, rfl⟩

theorem trans (h : s.Agree s') (h' : s'.Agree s'') : s.Agree s'' :=
  ⟨h'.surfaces.trans h.surfaces, h'.imeEditor.trans h.imeEditor, h'.activeIme.trans h.activeIme,
    h'.apps.trans h.apps, h'.home.trans h.home⟩

/-- Writing to the geometry of a display shows nothing else. -/
theorem modifyGeometry {id : DisplayId} {f : DisplayGeometry → DisplayGeometry} :
    s.Agree (s.modifyGeometry id f) := by
  have h (id' : DisplayId) : (s.modifyGeometry id f).primary = s.primary ∨
      ∃ g, (s.modifyGeometry id f).primary = { s.primary with geometry := g } := by
    by_cases hid : id = primaryDisplay
    · subst hid
      exact .inr ⟨f s.primary.geometry, by simp [Store.modifyGeometry]⟩
    · left
      simp [Store.modifyGeometry, Store.modifyDisplay, Store.primary, Store.display,
        Function.update_of_ne (Ne.symm hid)]
  rcases h id with h | ⟨g, h⟩ <;> exact ⟨by rw [h], by rw [h], by rw [h], rfl, rfl⟩

/-- Writing to a part of the store other than the displays, the apps and the home
    app shows nothing. -/
theorem of_eq (hd : s'.displays = s.displays) (ha : s'.apps = s.apps) (hh : s'.home = s.home) :
    s.Agree s' := by
  have hp : s'.primary = s.primary := by simp [Store.primary, Store.display, hd]
  exact ⟨by rw [hp], by rw [hp], by rw [hp], ha, hh⟩

theorem roleOf {p : Pid} (h : s.Agree s') : s'.primary.roleOf p = s.primary.roleOf p := by
  rw [DisplayState.roleOf, h.surfaces, DisplayState.roleOf]

theorem firstWithRole {r : Role} (h : s.Agree s') :
    s'.primary.firstWithRole r = s.primary.firstWithRole r := by
  rw [DisplayState.firstWithRole, h.surfaces, DisplayState.firstWithRole]

theorem visibleApp (h : s.Agree s') : s'.primary.visibleApp = s.primary.visibleApp := by
  rw [DisplayState.visibleApp, h.firstWithRole, h.firstWithRole, DisplayState.visibleApp]

theorem foregroundSlot (h : s.Agree s') :
    s'.primary.foregroundSlot = s.primary.foregroundSlot := by
  rw [DisplayState.foregroundSlot, h.firstWithRole, h.firstWithRole, DisplayState.foregroundSlot]

theorem overlayDesired (h : s.Agree s') :
    s'.primary.overlayDesired = s.primary.overlayDesired := by
  rw [DisplayState.overlayDesired, h.activeIme, h.imeEditor, h.visibleApp,
    DisplayState.overlayDesired]

theorem app {a : String} (h : s.Agree s') : s'.app a = s.app a := by
  rw [Store.app, h.apps, Store.app]

theorem appByPid {p : Pid} (h : s.Agree s') : s'.appByPid p = s.appByPid p := by
  rw [Store.appByPid, h.apps, Store.appByPid]

end Store.Agree

instance : IsPreorder Store Store.Agree where
  refl _ := .refl
  trans _ _ _ := .trans

/-- Two stores agree on which apps run. -/
structure Store.SameApps (s s' : Store) : Prop where
  apps : s'.apps = s.apps
  home : s'.home = s.home

instance : IsPreorder Store Store.SameApps where
  refl _ := ⟨rfl, rfl⟩
  trans _ _ _ h h' := ⟨h'.apps.trans h.apps, h'.home.trans h.home⟩

/-- No bound on what becomes of a store. -/
def Store.Anyhow (_ _ : Store) : Prop := True

instance : IsPreorder Store Store.Anyhow where
  refl _ := trivial
  trans _ _ _ _ _ := trivial

/-- Two stores agree on the notifications. -/
def Store.SameNotes (s s' : Store) : Prop := s'.notifications = s.notifications

instance : IsPreorder Store Store.SameNotes where
  refl _ := rfl
  trans _ _ _ h h' := h'.trans h

/-! ## The parts of the store -/

/-- A part of the store, as the modules write it. The geometry is that of any
    display, and the rest of a display that of the primary one; `roles` are the writes
    to it that place no surface. -/
inductive Store.Part
  | geometry
  | display
  | roles
  | apps
  | imeHeight
  | alarms
  | notifications
  | sensors

/-- The writes to a part of the store. -/
def Store.Part.Write (s s' : Store) : Store.Part → Prop
  | .geometry => ∃ id f, s' = s.modifyGeometry id f
  | .display => ∃ f, s' = s.modifyDisplay primaryDisplay f
  | .roles => ∃ f, s' = s.modifyDisplay primaryDisplay f ∧
      ∀ p, ((f s.primary).roleOf p).isSome → (s.primary.roleOf p).isSome
  | .apps => ∃ apps, s' = { s with apps }
  | .imeHeight => ∃ imeHeight, s' = { s with imeHeight }
  | .alarms => ∃ alarms, s' = { s with alarms }
  | .notifications => ∃ notifications nextNid, s' = { s with notifications, nextNid }
  | .sensors => ∃ sensors, s' = { s with sensors }

/-- A relation allows any write to a part of the store. -/
class Store.Allows (R : Store → Store → Prop) (p : Store.Part) : Prop where
  write : ∀ {s s'}, p.Write s s' → R s s'

/-- A relation allows a surface to be placed. -/
def Store.Admits (R : Store → Store → Prop) (p : Pid) : Prop :=
  ∀ s a r, R s (s.modifyDisplay primaryDisplay fun d => d.putSurface p a r)

namespace Store

instance {R : Store → Store → Prop} [Allows R .display] : Allows R .roles :=
  ⟨by rintro s _ ⟨f, rfl, -⟩; exact Allows.write (p := .display) ⟨f, rfl⟩⟩

theorem Admits.of_display {R : Store → Store → Prop} [Allows R .display] {p : Pid} : Admits R p :=
  fun _ _ _ => Allows.write (p := .display) ⟨_, rfl⟩

theorem cancelNotification_write {s : Store} {a : String} {n : Nat} :
    Part.notifications.Write s (s.cancelNotification a n).1 := ⟨_, _, rfl⟩

theorem postNotification_write {s : Store} {a : String} {n : Nat} {t b : String} :
    Part.notifications.Write s (s.postNotification a n t b).1 := by
  unfold postNotification
  split <;> exact ⟨_, _, rfl⟩

theorem takeNotification_write {s : Store} {n : Nat} :
    Part.notifications.Write s (s.takeNotification n).1 := by
  unfold takeNotification
  split <;> exact ⟨_, _, rfl⟩

instance {p : Part} : Allows Anyhow p := ⟨fun _ => trivial⟩

instance : Allows Agree .geometry := ⟨by rintro s _ ⟨id, f, rfl⟩; exact .modifyGeometry⟩
instance : Allows Agree .imeHeight := ⟨by rintro s _ ⟨_, rfl⟩; exact .of_eq rfl rfl rfl⟩
instance : Allows Agree .alarms := ⟨by rintro s _ ⟨_, rfl⟩; exact .of_eq rfl rfl rfl⟩
instance : Allows Agree .notifications := ⟨by rintro s _ ⟨_, _, rfl⟩; exact .of_eq rfl rfl rfl⟩
instance : Allows Agree .sensors := ⟨by rintro s _ ⟨_, rfl⟩; exact .of_eq rfl rfl rfl⟩

instance : Allows SameApps .geometry := ⟨by rintro s _ ⟨_, _, rfl⟩; exact ⟨rfl, rfl⟩⟩
instance : Allows SameApps .display := ⟨by rintro s _ ⟨_, rfl⟩; exact ⟨rfl, rfl⟩⟩
instance : Allows SameApps .alarms := ⟨by rintro s _ ⟨_, rfl⟩; exact ⟨rfl, rfl⟩⟩
instance : Allows SameApps .notifications := ⟨by rintro s _ ⟨_, _, rfl⟩; exact ⟨rfl, rfl⟩⟩
instance : Allows SameApps .sensors := ⟨by rintro s _ ⟨_, rfl⟩; exact ⟨rfl, rfl⟩⟩
instance : Allows SameApps .imeHeight := ⟨by rintro s _ ⟨_, rfl⟩; exact ⟨rfl, rfl⟩⟩

instance : Allows SameNotes .geometry := ⟨by rintro s _ ⟨_, _, rfl⟩; rfl⟩
instance : Allows SameNotes .display := ⟨by rintro s _ ⟨_, rfl⟩; rfl⟩
instance : Allows SameNotes .apps := ⟨by rintro s _ ⟨_, rfl⟩; rfl⟩
instance : Allows SameNotes .imeHeight := ⟨by rintro s _ ⟨_, rfl⟩; rfl⟩
instance : Allows SameNotes .alarms := ⟨by rintro s _ ⟨_, rfl⟩; rfl⟩
instance : Allows SameNotes .sensors := ⟨by rintro s _ ⟨_, rfl⟩; rfl⟩

end Store

/-! ## What a piece of a handler does -/

/-- A piece of a handler took `c` to `c'` changing the store as `R` allows,
    emitting events of `E` and requesting effects of `F`. -/
structure Ctx.Within (R : Store → Store → Prop) (E : Event → Prop) (F : Effect → Prop)
    (c c' : Ctx) : Prop where
  store : R c.store c'.store
  events : ∃ es, c'.events = c.events ++ es ∧ ∀ e ∈ es, E e
  effects : ∃ fx, c'.effects = c.effects ++ fx ∧ ∀ f ∈ fx, F f

/-- Working aside: what is shown and what runs is left alone. -/
abbrev Ctx.Aside : (Event → Prop) → (Effect → Prop) → Ctx → Ctx → Prop := Ctx.Within Store.Agree

namespace Ctx.Within

variable {R : Store → Store → Prop} [IsPreorder Store R] {E : Event → Prop} {F : Effect → Prop}
  {c c' c'' : Ctx}

theorem refl : Within R E F c c := ⟨refl_of R _, ⟨[], by simp⟩, ⟨[], by simp⟩⟩

theorem trans (h : Within R E F c c') (h' : Within R E F c' c'') : Within R E F c c'' := by
  obtain ⟨es, he, hE⟩ := h.events
  obtain ⟨es', he', hE'⟩ := h'.events
  obtain ⟨fx, hf, hF⟩ := h.effects
  obtain ⟨fx', hf', hF'⟩ := h'.effects
  refine ⟨trans_of R h.store h'.store, ⟨es ++ es', by rw [he', he, List.append_assoc], ?_⟩,
    ⟨fx ++ fx', by rw [hf', hf, List.append_assoc], ?_⟩⟩
  · exact fun e hm => (List.mem_append.mp hm).elim (hE e) (hE' e)
  · exact fun f hm => (List.mem_append.mp hm).elim (hF f) (hF' f)

omit [IsPreorder Store R] in
theorem mono {R' : Store → Store → Prop} {E' : Event → Prop} {F' : Effect → Prop}
    (h : Within R E F c c') (hR : ∀ s s', R s s' → R' s s') (hE : ∀ e, E e → E' e)
    (hF : ∀ f, F f → F' f) : Within R' E' F' c c' := by
  obtain ⟨es, he, hE'⟩ := h.events
  obtain ⟨fx, hf, hF'⟩ := h.effects
  exact ⟨hR _ _ h.store, ⟨es, he, fun e hm => hE e (hE' e hm)⟩,
    ⟨fx, hf, fun f hm => hF f (hF' f hm)⟩⟩

omit [IsPreorder Store R] in
/-- A piece of a handler allowed no event emits none. -/
theorem events_eq (h : Within R (fun _ => False) F c c') : c'.events = c.events := by
  obtain ⟨es, hes, hE⟩ := h.events
  rw [hes, List.eq_nil_iff_forall_not_mem.mpr hE, List.append_nil]

omit [IsPreorder Store R] in
/-- The events of a handler, starting with none. -/
theorem forall_events (h : Within R E F c c') (hc : c.events = []) : ∀ e ∈ c'.events, E e := by
  obtain ⟨es, hes, hE⟩ := h.events
  rwa [hes, hc, List.nil_append]

omit [IsPreorder Store R] in
/-- The effects of a handler, starting with none. -/
theorem forall_effects (h : Within R E F c c') (hc : c.effects = []) : ∀ f ∈ c'.effects, F f := by
  obtain ⟨fx, hfx, hF⟩ := h.effects
  rwa [hfx, hc, List.nil_append]

theorem emit {e : Event} (h : Within R E F c c') (he : E e) : Within R E F c (c'.emit e) :=
  h.trans ⟨refl_of R _, ⟨[e], rfl, by simpa using he⟩, ⟨[], by simp⟩⟩

theorem request {f : Effect} (h : Within R E F c c') (hf : F f) : Within R E F c (c'.request f) :=
  h.trans ⟨refl_of R _, ⟨[], by simp⟩, ⟨[f], rfl, by simpa using hf⟩⟩

theorem deliverToHost {p : Pid} {l : Line} (h : Within R E F c c') (hl : F (.hostLine p l)) :
    Within R E F c (c'.deliverToHost p l) := h.request hl

theorem deliverToAll {ps : List Pid} {line : Pid → Line} (h : Within R E F c c')
    (hl : ∀ p, F (.hostLine p (line p))) : Within R E F c (c'.deliverToAll ps line) := by
  refine h.trans ⟨by simpa using refl_of R _, ⟨[], by simp⟩, ⟨_, Ctx.effects_deliverToAll, ?_⟩⟩
  simpa using fun p _ => hl p

theorem panic (h : Within R E F c c') : Within R E F c c'.panic :=
  h.trans ⟨refl_of R _, ⟨[], by simp⟩, ⟨[], by simp⟩⟩

theorem modifyStore {g : Store → Store} (h : Within R E F c c') (hg : R c'.store (g c'.store)) :
    Within R E F c (c'.modifyStore g) :=
  h.trans ⟨hg, ⟨[], by simp⟩, ⟨[], by simp⟩⟩

theorem withStore {s : Store} (h : Within R E F c c') (hs : R c'.store s) :
    Within R E F c { c' with store := s } :=
  h.trans ⟨hs, ⟨[], by simp⟩, ⟨[], by simp⟩⟩

theorem foldl {α : Type} {g : Ctx → α → Ctx} (h : Within R E F c c')
    (hg : ∀ c a, Within R E F c (g c a)) (as : List α) : Within R E F c (as.foldl g c') := by
  induction as generalizing c' with
  | nil => exact h
  | cons a as ih => exact ih (h.trans (hg c' a))

theorem write {p : Store.Part} [Store.Allows R p] {s : Store} (h : Within R E F c c')
    (hs : p.Write c'.store s) : Within R E F c { c' with store := s } :=
  h.withStore (Store.Allows.write hs)

theorem modifyGeometry [Store.Allows R .geometry] {id : DisplayId}
    {f : DisplayGeometry → DisplayGeometry} (h : Within R E F c c') :
    Within R E F c (c'.modifyStore fun s => s.modifyGeometry id f) :=
  h.write (p := .geometry) ⟨_, _, rfl⟩

/-- Writing to the primary display without placing a surface. -/
theorem modifyRoles [Store.Allows R .roles] {f : DisplayState → DisplayState}
    (h : Within R E F c c') (hf : ∀ d p, ((f d).roleOf p).isSome → (d.roleOf p).isSome) :
    Within R E F c (c'.modifyPrimary f) :=
  h.write (p := .roles) ⟨f, rfl, hf _⟩

theorem setEditor [Store.Allows R .roles] {o : Option (Pid × EditorInfo)}
    (h : Within R E F c c') :
    Within R E F c (c'.modifyPrimary fun d => { d with imeEditor := o }) :=
  h.modifyRoles fun _ _ h => h

theorem setIme [Store.Allows R .roles] {o : Option Pid} (h : Within R E F c c') :
    Within R E F c (c'.modifyPrimary fun d => { d with activeIme := o }) :=
  h.modifyRoles fun _ _ h => h

theorem modifyPrimary [Store.Allows R .display] {f : DisplayState → DisplayState}
    (h : Within R E F c c') : Within R E F c (c'.modifyPrimary f) :=
  h.write (p := .display) ⟨_, rfl⟩

end Ctx.Within

/-! ## What each module may do -/

/-- The parts of the store a module writes. -/
def ModuleId.parts : ModuleId → List Store.Part
  | .wm => [.geometry]
  | .shell => [.display, .apps, .imeHeight]
  | .alarm => [.alarms]
  | .notify | .audio => [.notifications]
  | .keyguard => [.display]
  | .sensors => [.sensors]
  | .power | .net | .events | .mediaSession => []

/-- The events a module may emit. -/
def ModuleId.mayEmit : ModuleId → Event → Prop
  | .wm, .orientationChanged .. | .wm, .panelMeasured .. => True
  | .shell, .foregroundChanged .. | .shell, .editorFocusChanged ..
  | .shell, .imeHeightChanged .. => True
  | .power, .screenState _ | .power, .sensorAcquire .. | .power, .sensorRelease .. => True
  | .keyguard, .foregroundChanged .. | .keyguard, .orientationChanged .. => True
  | .audio, .commsActive .. | .audio, .videoCallActive .. | .audio, .sensorAcquire ..
  | .audio, .sensorRelease .. => True
  | .sensors, .sensorReading .. | .sensors, .proximityChanged _ => True
  | _, _ => False

/-- The effects a module may request. -/
def ModuleId.mayRequest : ModuleId → Effect → Prop
  | .wm, .signalVisible .. | .wm, .hostLine _ (.geometry ..) => True
  | .shell, .setRole .. | .shell, .kill _ | .shell, .hostLine _ (.keyEvent ..)
  | .shell, .hostLine _ (.editorAttached ..) | .shell, .hostLine _ .editorDetached => True
  | .alarm, .launch .. | .alarm, .hostLine _ (.alarmFired _) => True
  | .notify, .foreground _ | .notify, .launch ..
  | .notify, .hostLine _ (.notificationClicked _) => True
  | .power, .setDisplayPower _ | .power, .setSensor .light .. | .power, .setBacklight ..
  | .power, .hostLine _ (.inputSuppress _) | .power, .hostLine _ (.doze _) => True
  | .keyguard, .setRole .. | .keyguard, .foreground _
  | .keyguard, .hostLine _ (.inputSuppress _) => True
  | .audio, .persist | .audio, .hostLine _ (.onFocusChanged _) | .audio, .hostLine _ (.setMode _)
  | .audio, .hostLine _ (.setRoute _) | .audio, .hostLine _ (.volume ..)
  | .audio, .hostLine _ (.mute ..) | .audio, .hostLine _ (.micMute _)
  | .audio, .hostLine _ (.appMute _) | .audio, .hostLine _ (.ringtone _)
  | .audio, .hostLine _ (.haptics _) | .audio, .hostLine _ (.playTone ..) => True
  | .sensors, .setSensor .. => True
  | .net, .hostLine _ (.netChanged _) => True
  | .events, .hostLine _ (.event ..) => True
  | .mediaSession, .hostLine _ (.mediaSessionAction ..) => True
  | _, _ => False

/-- How many rounds of reactions an event can start. -/
def Event.rank : Event → Nat
  | .idleTick => 3
  | .screenState _ => 2
  | .foregroundChanged .. | .commsActive .. | .sensorReading .. => 1
  | _ => 0

/-- The modules that leave the display and the registry of apps alone. -/
def ModuleId.isAside : ModuleId → Bool
  | .shell | .keyguard => false
  | _ => true

end Wandr
