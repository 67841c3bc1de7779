import Wandr.Arbiter.Calls

/-!
# The switching of the sensors

A sensor is needed while the sensors module has a holder of it, and the light
sensor also while the power module wants it. Two modules switch the light sensor,
each by its own account.

* `Arbiter.sensors_alternate`: as long as the two never need the light sensor at
  the same time, every sensor is switched on and off in turns, is on exactly while
  it is needed, and is not needed any more after a step that switches it off;
* `Arbiter.light_switched_twice`: otherwise the light sensor is switched on twice,
  and then off although the power module wants it.
-/

namespace Wandr

open Text

/-- A sensor is needed: by the power module, or by a holder. -/
def needed (wanted : Bool) (hs : List Pid) : Bool := wanted || !hs.isEmpty

/-- The effects switch a sensor to what is needed, and only if that changes it; if
    they switch it off, nobody needs it any more. -/
structure Switch (kind : SensorKind) (n : Bool) (fx : List Effect) (n' : Bool) : Prop where
  toggles : Trace.Toggles (Effect.sensorOn kind) n fx n'
  off : ∀ f ∈ fx, f.sensorOn kind = some false → n' = false

namespace Switch

variable {kind : SensorKind} {n n' : Bool} {fx gx : List Effect}

theorem of_silent (h : ∀ f ∈ fx, f.sensorOn kind = none) : Switch kind n fx n where
  toggles := .of_silent h
  off f hf ho := by simp [h f hf] at ho

theorem single {f : Effect} (hf : f.sensorOn kind = some n') (hn : n' ≠ n) :
    Switch kind n [f] n' where
  toggles := .single hf hn
  off g hg ho := by
    cases List.mem_singleton.mp hg
    rw [hf] at ho
    exact Option.some.inj ho

/-- Effects on other things change nothing. -/
theorem append_silent (h : Switch kind n fx n') (hg : ∀ f ∈ gx, f.sensorOn kind = none) :
    Switch kind n (fx ++ gx) n' where
  toggles := h.toggles.append (.of_silent hg)
  off f hf ho := by
    rcases List.mem_append.mp hf with hf | hf
    · exact h.off f hf ho
    · simp [hg f hf] at ho

theorem silent_append (h : Switch kind n fx n') (hg : ∀ f ∈ gx, f.sensorOn kind = none) :
    Switch kind n (gx ++ fx) n' where
  toggles := (Trace.Toggles.of_silent hg).append h.toggles
  off f hf ho := by
    rcases List.mem_append.mp hf with hf | hf
    · simp [hg f hf] at ho
    · exact h.off f hf ho

/-- What may be switched back on must not have been switched off. -/
theorem append {n'' : Bool} (h : Switch kind n fx n') (h' : Switch kind n' gx n'')
    (hoff : n' = false → n'' = false) : Switch kind n (fx ++ gx) n'' where
  toggles := h.toggles.append h'.toggles
  off f hf ho := by
    rcases List.mem_append.mp hf with hf | hf
    · exact hoff (h.off f hf ho)
    · exact h'.off f hf ho

/-- What was not switched off may be switched again. -/
theorem append_of_on {n'' : Bool} (h : Switch kind n fx n') (h' : Switch kind n' gx n'')
    (hon : ∀ f ∈ fx, f.sensorOn kind ≠ some false) : Switch kind n (fx ++ gx) n'' where
  toggles := h.toggles.append h'.toggles
  off f hf ho := by
    rcases List.mem_append.mp hf with hf | hf
    · exact absurd ho (hon f hf)
    · exact h'.off f hf ho

end Switch

/-! ## The power module and the light sensor -/

namespace PowerModule

variable {clock : Clock} {m : PowerModule} {c : Ctx} {kind : SensorKind}

/-- A piece of a handler of the module left the light sensor alone. -/
structure Unlit (m : PowerModule) (c : Ctx) (r : PowerModule × Ctx) : Prop where
  lightOn : r.1.lightOn = m.lightOn
  silent : ∃ fx, r.2.effects = c.effects ++ fx ∧ ∀ f ∈ fx, ∀ k, f.sensorOn k = none

namespace Unlit

theorem refl {m' : PowerModule} (h : m'.lightOn = m.lightOn) : Unlit m c (m', c) :=
  ⟨h, [], by simp⟩

theorem request {m' : PowerModule} {f : Effect} (h : m'.lightOn = m.lightOn)
    (hf : ∀ k, f.sensorOn k = none) : Unlit m c (m', c.request f) :=
  ⟨h, [f], rfl, by simpa using hf⟩

theorem trans {r r' : PowerModule × Ctx} (h : Unlit m c r) (h' : Unlit r.1 r.2 r') :
    Unlit m c r' := by
  obtain ⟨fx, hfx, hs⟩ := h.silent
  obtain ⟨gx, hgx, hs'⟩ := h'.silent
  refine ⟨h'.lightOn.trans h.lightOn, fx ++ gx, by rw [hgx, hfx, List.append_assoc], ?_⟩
  exact fun f hf => (List.mem_append.mp hf).elim (hs f) (hs' f)

theorem of_same {m' : PowerModule} {r : PowerModule × Ctx} (h' : Unlit m' c r)
    (h : m'.lightOn = m.lightOn) : Unlit m c r :=
  ⟨h'.lightOn.trans h, h'.silent⟩

theorem emit {r : PowerModule × Ctx} (h : Unlit m c r) (e : Event) : Unlit m c (r.1, r.2.emit e) :=
  ⟨h.lightOn, h.silent⟩

theorem deliverToAll {m' : PowerModule} {ps : List Pid} {line : Pid → Line}
    (h : m'.lightOn = m.lightOn) : Unlit m c (m', c.deliverToAll ps line) := by
  refine ⟨h, _, Ctx.effects_deliverToAll, fun f hf k => ?_⟩
  obtain ⟨p, -, rfl⟩ := List.mem_map.mp hf
  rfl

end Unlit

theorem reassertBacklight_unlit : Unlit m c (m.reassertBacklight c) := by
  unfold reassertBacklight
  split
  · exact .refl rfl
  · split
    · exact .request rfl fun _ => rfl
    · exact .refl rfl

theorem ensureUnblanked_unlit : Unlit m c (m.ensureUnblanked c) := by
  have h : Unlit m c (m.setPanelBlanked false c) :=
    (Unlit.request rfl fun _ => rfl).trans (.deliverToAll rfl)
  unfold ensureUnblanked
  split
  · exact h.trans reassertBacklight_unlit
  · exact .refl rfl

theorem setPanelBlanked_unlit {blank : Bool} : Unlit m c (m.setPanelBlanked blank c) :=
  (Unlit.request rfl fun _ => rfl).trans (.deliverToAll rfl)

theorem onScreenState_unlit {live : Bool} : Unlit m c (m.onScreenState clock live c) := by
  have h : (if live then { m with screenOffAt := none }
      else if m.screenOffAt.isNone then { m with screenOffAt := some clock.mono }
      else m).lightOn = m.lightOn := by
    split
    · rfl
    · split <;> rfl
  unfold onScreenState
  dsimp only
  split
  · exact .refl h
  · exact .deliverToAll h

theorem onSurfaceRemoved_unlit {p : Pid} : Unlit m c (m.onSurfaceRemoved p c) := by
  unfold onSurfaceRemoved
  dsimp only
  split
  · exact .of_same ensureUnblanked_unlit rfl
  · exact .refl rfl

theorem dozeLine_unlit {p : Pid} :
    Unlit m c (if m.dozing then (m, c.deliverToHost p (.doze (m.cadenceFor p))) else (m, c)) := by
  split
  · exact .request rfl fun _ => rfl
  · exact .refl rfl

theorem onCommsActive_unlit {p : Pid} {active : Bool} : Unlit m c (m.onCommsActive p active c) := by
  cases active with
  | true => exact .of_same ((Unlit.refl rfl).emit _ |>.trans dozeLine_unlit) rfl
  | false =>
    have h : Unlit m c (if m.comms.erase p = ∅
        then { m with
          videoCalls := m.videoCalls.erase p
          comms := m.comms.erase p }.ensureUnblanked c
        else ({ m with videoCalls := m.videoCalls.erase p, comms := m.comms.erase p }, c)) := by
      split
      · exact .of_same ensureUnblanked_unlit rfl
      · exact .refl rfl
    rw [onCommsActive_false]
    exact (h.emit _).trans dozeLine_unlit

theorem onVideoCallActive_unlit {p : Pid} {active : Bool} :
    Unlit m c (m.onVideoCallActive p active c) := by
  cases active with
  | true => exact .of_same ensureUnblanked_unlit rfl
  | false => exact .refl rfl

theorem onProximityChanged_unlit {near : Bool} : Unlit m c (m.onProximityChanged near c) := by
  unfold onProximityChanged
  dsimp only
  split
  · exact setPanelBlanked_unlit
  · split
    · exact ensureUnblanked_unlit
    · split
      · exact ensureUnblanked_unlit
      · exact .refl rfl

section

variable [Fpu] {args : String}

theorem onLight_unlit {lux : F32} : Unlit m c (m.onLight lux c) := by
  have h (m : PowerModule) : Unlit m c (m.applyAutoBrightness c) := by
    unfold applyAutoBrightness
    split
    · exact .refl rfl
    · split
      · exact .refl rfl
      · dsimp only
        split
        · exact .refl rfl
        · exact .request rfl fun _ => rfl
  exact .of_same (h _) rfl

/-- The verbs that do not set the panel leave the light sensor alone, even those
    that decide on the brightness. -/
theorem onCommand_unlit {verb : Verb} (hk : verb ≠ .powerKey) (hp : verb ≠ .panel) :
    Unlit m c ((m.onCommand clock verb args c).1, (m.onCommand clock verb args c).2.1) := by
  cases verb with
  | powerKey => exact absurd rfl hk
  | panel => exact absurd rfl hp
  | reportPowerClass =>
    simp only [onCommand]
    unfold cmdReportClass
    split
    · split <;> exact .refl rfl
    · exact .refl rfl
  | brightness =>
    simp only [onCommand]
    unfold cmdBrightness
    split
    · exact .of_same reassertBacklight_unlit rfl
    · split
      · dsimp only
        split
        · exact .request rfl fun _ => rfl
        · exact .refl rfl
      · exact .refl rfl
    · exact .refl rfl
  | brightnessScale =>
    simp only [onCommand]
    unfold cmdBrightnessScale
    split
    · exact .refl rfl
    · split
      · exact .refl rfl
      · split
        · exact .refl rfl
        · dsimp only
          split
          · split
            · exact .of_same reassertBacklight_unlit rfl
            · exact .refl rfl
          · exact .refl rfl
  | userActivity => exact .refl rfl
  | screenTimeout =>
    simp only [onCommand]
    unfold cmdScreenTimeout
    split
    · exact .refl rfl
    · exact .refl rfl
    · exact .refl rfl
    · split <;> exact .refl rfl
    · exact .refl rfl

end

/-- The effects of a piece of a handler switch the light sensor as the module and
    the holders need it, one of them at a time. -/
structure Lights (hs : List Pid) (m : PowerModule) (c : Ctx) (r : PowerModule × Ctx) : Prop where
  switch : ∃ fx, r.2.effects = c.effects ++ fx ∧
    Switch .light (needed m.lightOn hs) fx (needed r.1.lightOn hs)
  apart : r.1.lightOn → hs = []

variable {hs : List Pid}

theorem Unlit.lights {r : PowerModule × Ctx} (h : Unlit m c r) (hl : m.lightOn → hs = []) :
    Lights hs m c r := by
  obtain ⟨fx, hfx, hs⟩ := h.silent
  refine ⟨⟨fx, hfx, ?_⟩, by rwa [h.lightOn]⟩
  rw [h.lightOn]
  exact .of_silent fun f hf => hs f hf _

theorem reconcileLight_lightOn (clock : Clock) :
    (m.reconcileLight clock c).1.lightOn = m.lightShouldBeWarm clock := by
  unfold reconcileLight
  dsimp only
  split
  · rfl
  · next h => exact (not_not.mp h).symm

theorem reconcileLight_lights (clock : Clock) (hl : m.lightOn → hs = [])
    (hw : m.lightShouldBeWarm clock → hs = []) :
    Lights hs m c (m.reconcileLight clock c) := by
  refine ⟨?_, by rwa [reconcileLight_lightOn]⟩
  rw [reconcileLight_lightOn]
  unfold reconcileLight
  dsimp only
  split
  · next h =>
    refine ⟨_, Ctx.effects_request, .single ?_ ?_⟩
    · cases hwant : m.lightShouldBeWarm clock with
      | true => simp [Effect.sensorOn, needed]
      | false =>
        have : hs = [] := hl (by simpa [hwant] using Ne.symm h)
        simp [Effect.sensorOn, needed, this]
    · cases hwant : m.lightShouldBeWarm clock with
      | true =>
        have : m.lightOn = false := by simpa [hwant] using Ne.symm h
        simp [needed, this, hw hwant]
      | false =>
        have : m.lightOn = true := by simpa [hwant] using Ne.symm h
        simp [needed, hl this, this]
  · next h =>
    rw [not_not.mp h]
    exact ⟨[], by simp, .of_silent (by simp)⟩

theorem reassertBacklight_warm :
    (m.reassertBacklight c).1.lightShouldBeWarm clock = m.lightShouldBeWarm clock := by
  unfold reassertBacklight
  split
  · rfl
  · split <;> rfl

/-- Setting the panel power sees to the light sensor at the end. -/
theorem setPanelOn_reconciles (clock : Clock) (m : PowerModule) (c : Ctx) (on : Bool) :
    ∃ r : PowerModule × Ctx, Unlit m c r ∧
      r.1.lightShouldBeWarm clock = { m with panelOn := on }.lightShouldBeWarm clock ∧
      m.setPanelOn clock on c = r.1.reconcileLight clock r.2 := by
  have hc : Unlit m c ({ m with panelOn := on },
      if !m.blanked then c.request (.setDisplayPower on) else c) := by
    split
    · exact .request rfl fun _ => rfl
    · exact .refl rfl
  cases on with
  | false => exact ⟨_, hc.emit (.screenState false), rfl, rfl⟩
  | true =>
    have hr := hc.trans reassertBacklight_unlit
    refine ⟨({ ({ m with panelOn := true }.reassertBacklight
        (if !m.blanked then c.request (.setDisplayPower true) else c)).1 with
      lastActivity := some clock.mono }, ({ m with panelOn := true }.reassertBacklight
        (if !m.blanked then c.request (.setDisplayPower true) else c)).2.emit (.screenState true)),
      ⟨hr.lightOn, hr.silent⟩, ?_, rfl⟩
    exact reassertBacklight_warm

theorem setPanelOn_lights (on : Bool) (hl : m.lightOn → hs = [])
    (hw : { m with panelOn := on }.lightShouldBeWarm clock → hs = []) :
    Lights hs m c (m.setPanelOn clock on c) := by
  obtain ⟨r, hr, hwarm, heq⟩ := setPanelOn_reconciles clock m c on
  obtain ⟨fx, hfx, hs⟩ := hr.silent
  obtain ⟨⟨gx, hgx, hsw⟩, hap⟩ := reconcileLight_lights clock (m := r.1) (c := r.2)
    (by rwa [hr.lightOn]) (by rwa [hwarm])
  rw [heq]
  refine ⟨⟨fx ++ gx, by rw [hgx, hfx, List.append_assoc], ?_⟩, hap⟩
  rw [hr.lightOn] at hsw
  exact hsw.silent_append fun f hf => hs f hf _

theorem setPanelOn_lightOn {on : Bool} : (m.setPanelOn clock on c).1.lightOn =
    { m with panelOn := on }.lightShouldBeWarm clock := by
  obtain ⟨r, -, hwarm, heq⟩ := setPanelOn_reconciles clock m c on
  rw [heq, reconcileLight_lightOn, hwarm]

/-- A panel that goes to sleep needs the light sensor no more than before. -/
theorem warm_of_asleep (hp : m.panelOn)
    (h : { m with panelOn := false }.lightShouldBeWarm clock) : m.lightShouldBeWarm clock := by
  unfold lightShouldBeWarm at h ⊢
  cases hm : m.manualFrac with
  | none => simp [hp]
  | some f => simp [hm] at h

theorem onIdleTick_lights (hl : m.lightOn → hs = []) (hw : m.lightShouldBeWarm clock → hs = []) :
    Lights hs m c (m.onIdleTick clock c) := by
  have h := reconcileLight_lights clock (c := c) hl hw
  have hwarm :
      (m.reconcileLight clock c).1.lightShouldBeWarm clock = m.lightShouldBeWarm clock := by
    unfold reconcileLight
    dsimp only
    split <;> rfl
  have hon := reconcileLight_lightOn (m := m) (c := c) clock
  unfold onIdleTick
  generalize m.reconcileLight clock c = r at h hwarm hon ⊢
  obtain ⟨m', c'⟩ := r
  dsimp only at hwarm hon ⊢
  split
  · exact h
  · next hp =>
    split
    · exact h
    · split
      · exact h
      · split
        · exact ⟨h.switch, h.apart⟩
        · split
          · -- the panel goes to sleep, and may let go of the sensor just switched on
            have hp : m'.panelOn := by
              cases hpo : m'.panelOn <;> simp_all
            have hasleep : { m' with panelOn := false }.lightShouldBeWarm clock →
                m'.lightShouldBeWarm clock := warm_of_asleep hp
            have h' := setPanelOn_lights (c := c') false h.apart
              fun hw' => hw (hwarm ▸ hasleep hw')
            obtain ⟨fx, hfx, hsw⟩ := h.switch
            obtain ⟨gx, hgx, hsw'⟩ := h'.switch
            refine ⟨⟨fx ++ gx, by rw [hgx, hfx, List.append_assoc], ?_⟩, h'.apart⟩
            refine hsw.append hsw' fun hn => ?_
            rw [setPanelOn_lightOn]
            rw [hon, ← hwarm] at hn
            cases hws : { m' with panelOn := false }.lightShouldBeWarm clock with
            | false => simpa [needed] using (Bool.or_eq_false_iff.mp hn).2
            | true => simp [needed, hasleep hws] at hn
          · exact h

variable [Fpu]

/-- Among the events, only the tick makes the module see to the light sensor. -/
theorem onEvent_unlit {e : Event} (he : e ≠ .idleTick) : Unlit m c (m.onEvent clock e c) := by
  unfold onEvent
  split
  · exact onScreenState_unlit
  · exact onSurfaceRemoved_unlit
  · exact onCommsActive_unlit
  · exact onVideoCallActive_unlit
  · exact onProximityChanged_unlit
  · exact onLight_unlit
  · exact absurd rfl he
  · exact .refl rfl

theorem onEvent_lights {e : Event} (hl : m.lightOn → hs = [])
    (hw : e = .idleTick → m.lightShouldBeWarm clock → hs = []) :
    Lights hs m c (m.onEvent clock e c) := by
  by_cases he : e = .idleTick
  · subst he
    exact onIdleTick_lights hl (hw rfl)
  · exact (onEvent_unlit he).lights hl

/-- The arguments of a verb make the module set the panel so. -/
def panelWish (m : PowerModule) (args : String) : Verb → Option Bool
  | .powerKey => some !m.panelOn
  | .panel => parsePanel (splitWhitespace args).head?
  | _ => none

theorem onCommand_lights {verb : Verb} {args : String} (hl : m.lightOn → hs = [])
    (hw : ∀ on ∈ m.panelWish args verb,
      { m with panelOn := on }.lightShouldBeWarm clock → hs = []) :
    Lights hs m c ((m.onCommand clock verb args c).1, (m.onCommand clock verb args c).2.1) := by
  by_cases hk : verb = .powerKey
  · subst hk
    exact setPanelOn_lights _ hl (hw _ rfl)
  · by_cases hp : verb = .panel
    · subst hp
      simp only [onCommand]
      unfold cmdPanel
      dsimp only
      split
      · next on hon => exact setPanelOn_lights on hl (hw on hon)
      · exact (Unlit.refl rfl).lights hl
    · exact (onCommand_unlit hk hp).lights hl

end PowerModule

/-! ## The sensors module -/

namespace SensorsModule

variable {m : SensorsModule} {c : Ctx} {k kind : SensorKind} {p : Pid} {l : Bool}

/-- The effects of a piece of a handler switch a sensor as its holders need it, `l`
    being whether the power module needs it, too. -/
def Switches (kind : SensorKind) (l : Bool) (m : SensorsModule) (c : Ctx)
    (r : SensorsModule × Ctx) : Prop :=
  ∃ fx, r.2.effects = c.effects ++ fx ∧
    Switch kind (needed l (m.holders kind)) fx (needed l (r.1.holders kind))

theorem switches_of_silent {r : SensorsModule × Ctx} (hh : r.1.holders = m.holders)
    (hc : r.2.effects = c.effects) : Switches kind l m c r :=
  ⟨[], by rw [hc, List.append_nil], by rw [hh]; exact .of_silent (by simp)⟩

theorem acquire_switches (hl : k = kind → l = false) :
    Switches kind l m c (m.acquire k p c) := by
  refine ⟨_, acquire_effects, ?_⟩
  rw [holders_acquire, holdersAfter]
  by_cases hk : k = kind
  · subst hk
    rw [hl rfl]
    cases hm : m.holders k with
    | nil => exact .single (by simp [Effect.sensorOn, needed]) (by simp [needed])
    | cons r rs =>
      have hn : needed false (if k = k ∧ p ∉ r :: rs then r :: rs ++ [p] else r :: rs) =
          needed false (r :: rs) := by
        split <;> rfl
      rw [hn]
      exact .of_silent (by simp)
  · simp only [hk, false_and, if_false]
    refine .of_silent fun f hf => ?_
    split at hf
    · cases List.mem_singleton.mp hf
      simp [Effect.sensorOn, hk]
    · simp at hf

theorem release_switches (hl : l → m.holders kind = []) :
    Switches kind l m c (m.release k p c) := by
  refine ⟨_, release_effects, ?_⟩
  rw [holders_release, holdersAfter]
  by_cases hk : k = kind
  · subst hk
    rw [if_pos rfl]
    split
    · next h =>
      have hlf : l = false := by
        cases l with
        | false => rfl
        | true => simp [hl rfl] at h
      have hne : (m.holders k).isEmpty = false := by simpa using h.2
      refine .single ?_ ?_
      · rw [needed, hlf, h.1]
        simp [Effect.sensorOn]
      · rw [needed, needed, hlf, h.1, hne]
        simp
    · next h =>
      have hn : needed l ((m.holders k).filter fun r => r ≠ p) = needed l (m.holders k) := by
        rw [needed, needed]
        cases hm : (m.holders k).isEmpty with
        | true =>
          rw [List.isEmpty_iff] at hm
          rw [hm]
          rfl
        | false =>
          cases hf : ((m.holders k).filter fun r => r ≠ p).isEmpty with
          | false => rfl
          | true => exact absurd ⟨hf, by simp [hm]⟩ h
      rw [hn]
      exact .of_silent (by simp)
  · rw [if_neg hk]
    refine .of_silent fun f hf => ?_
    split at hf
    · cases List.mem_singleton.mp hf
      simp [Effect.sensorOn, hk]
    · simp at hf

theorem releaseAll_switches (hl : l → m.holders kind = []) :
    Switches kind l m c (m.releaseAll p c) := by
  unfold releaseAll
  generalize kinds.filter _ = ks
  induction ks generalizing m c with
  | nil => exact switches_of_silent rfl rfl
  | cons k ks ih =>
    -- releasing only takes holders away, so what was switched off stays off
    have hshrink : needed l ((m.release k p c).1.holders kind) = false →
        needed l ((ks.foldl (fun mc k => mc.1.release k p mc.2) (m.release k p c)).1.holders kind) =
          false := by
      rw [holders_foldl_release]
      cases l with
      | true => simp [needed]
      | false =>
        intro h
        have : (m.release k p c).1.holders kind = [] := by simpa [needed] using h
        simp [needed, this]
    have hl' : l → (m.release k p c).1.holders kind = [] := by
      intro h
      rw [holders_release, holdersAfter, hl h]
      simp
    obtain ⟨fx, hfx, hs⟩ := release_switches (k := k) (p := p) (c := c) hl
    obtain ⟨gx, hgx, hs'⟩ := ih (m := (m.release k p c).1) (c := (m.release k p c).2) hl'
    exact ⟨fx ++ gx, by rw [List.foldl_cons, hgx, hfx, List.append_assoc],
      hs.append hs' hshrink⟩

variable [Fpu]

theorem onEvent_switches {e : Event} (hl : l → m.holders kind = [])
    (he : ∀ p, e = .sensorAcquire kind p → l = false) : Switches kind l m c (m.onEvent e c) := by
  unfold onEvent
  split
  · next k p =>
    refine acquire_switches fun hk => ?_
    subst hk
    exact he p rfl
  · exact release_switches hl
  · exact switches_of_silent onReading_eq.1 onReading_eq.2
  · exact releaseAll_switches hl
  · exact switches_of_silent rfl rfl

/-- The sensor that the arguments of `sensor-hold` ask to hold. -/
def heldBy (args : String) : Option SensorKind :=
  match splitWhitespace args with
  | [] => none
  | kindTok :: rest =>
    if parseSwitch rest.head? = some true then SensorKind.fromWire kindTok else none

/-- Of the verbs only `sensor-hold` has to do with who holds a sensor. -/
theorem onCommand_cases (verb : Verb) (args : String) :
    ((m.onCommand verb args c).1.holders = m.holders ∧
      (m.onCommand verb args c).2.1.effects = c.effects) ∨
    (verb = .sensorHold ∧ ∃ k, heldBy args = some k ∧
      ((m.onCommand verb args c).1, (m.onCommand verb args c).2.1) =
        m.acquire k manualRequester c) ∨
    ∃ k, ((m.onCommand verb args c).1, (m.onCommand verb args c).2.1) =
      m.release k manualRequester c := by
  cases verb with
  | reportSensor =>
    left
    simp only [onCommand]
    unfold cmdReportSensor
    split
    · exact ⟨rfl, rfl⟩
    · split
      · exact ⟨rfl, rfl⟩
      · dsimp only
        split <;> exact ⟨rfl, rfl⟩
  | reportSensorDescriptor =>
    left
    simp only [onCommand]
    unfold cmdReportSensorDescriptor
    split
    · split
      · exact ⟨rfl, rfl⟩
      · split <;> exact ⟨rfl, rfl⟩
    · exact ⟨rfl, rfl⟩
  | sensorState => exact .inl ⟨rfl, rfl⟩
  | sensorHold =>
    simp only [onCommand]
    unfold cmdSensorHold
    split
    · exact .inl ⟨rfl, rfl⟩
    · next kindTok rest hargs =>
      split
      · exact .inl ⟨rfl, rfl⟩
      · next k hk =>
        split
        · exact .inl ⟨rfl, rfl⟩
        · next on hon =>
          cases on with
          | true => exact .inr (.inl ⟨trivial, k, by simp [heldBy, hargs, hon, hk], rfl⟩)
          | false => exact .inr (.inr ⟨k, rfl⟩)

theorem onCommand_switches (kind : SensorKind) (verb : Verb) (args : String)
    (hl : l → m.holders kind = [])
    (hv : verb = .sensorHold → heldBy args = some kind → l = false) :
    Switches kind l m c ((m.onCommand verb args c).1, (m.onCommand verb args c).2.1) := by
  rcases onCommand_cases (m := m) (c := c) verb args with ⟨hh, hc⟩ | ⟨hs, k, hk, h⟩ | ⟨k, h⟩
  · exact switches_of_silent hh hc
  · rw [h]
    exact acquire_switches fun hkk => hv hs (hkk ▸ hk)
  · rw [h]
    exact release_switches hl

/-- Nobody comes to hold a sensor but by `sensor-hold`. -/
theorem holders_onCommand_nil {verb : Verb} {args : String} (h : m.holders kind = [])
    (hv : verb = .sensorHold → heldBy args ≠ some kind) :
    (m.onCommand verb args c).1.holders kind = [] := by
  rcases onCommand_cases (m := m) (c := c) verb args with ⟨hh, -⟩ | ⟨hs, k, hk, he⟩ | ⟨k, he⟩
  · rw [hh, h]
  · have hne : k ≠ kind := fun hkk => hv hs (hkk ▸ hk)
    have he : (m.onCommand verb args c).1 = (m.acquire k manualRequester c).1 :=
      congrArg Prod.fst he
    rw [he, holders_acquire, holdersAfter, if_neg fun hk => hne hk.1, h]
  · have he : (m.onCommand verb args c).1 = (m.release k manualRequester c).1 :=
      congrArg Prod.fst he
    rw [he, holders_release, holdersAfter, h]
    simp

end SensorsModule

/-! ## The group of modules -/

/-- An event that may make somebody need a sensor. -/
def Event.Rouses : Event → Prop
  | .sensorAcquire .. | .commsActive _ true | .idleTick => True
  | _ => False

namespace Arbiter

/-- The power module wants a sensor, which can be the one for light only. -/
def Wanted (kind : SensorKind) (a : Arbiter) : Bool :=
  decide (kind = .light) && a.mods.power.lightOn

/-- A sensor is needed. -/
def Needed (kind : SensorKind) (a : Arbiter) : Bool :=
  needed (a.Wanted kind) (a.mods.sensors.holders kind)

/-- The light sensor is not needed by both modules. -/
def Apart (a : Arbiter) : Prop := a.mods.power.lightOn → a.mods.sensors.holders .light = []

/-- The event does not make both modules need the light sensor. -/
def EventApart (clock : Clock) (a : Arbiter) (e : Event) : Prop :=
  (e = .idleTick → a.mods.power.lightShouldBeWarm clock → a.mods.sensors.holders .light = []) ∧
  ∀ p, e = .sensorAcquire .light p → a.mods.power.lightOn = false

variable {clock : Clock} {a : Arbiter} {kind : SensorKind} {e : Event}

theorem wanted_apart (h : a.Apart) : a.Wanted kind → a.mods.sensors.holders kind = [] := by
  intro hw
  obtain ⟨hk, hl⟩ : kind = .light ∧ a.mods.power.lightOn := by simpa [Wanted] using hw
  subst hk
  exact h hl

theorem eventApart_of_not_rouses (h : ¬ e.Rouses) : EventApart clock a e :=
  ⟨fun he => absurd (by rw [he]; trivial) h, fun _ he => absurd (by rw [he]; trivial) h⟩

variable [Fpu]

omit [Fpu] in
/-- A piece of a handler of the power module switches no sensor but the one for
    light. -/
theorem switch_of_lights (kind : SensorKind) {r : PowerModule × Ctx} {s : Store}
    (h : PowerModule.Lights (a.mods.sensors.holders .light) a.mods.power { store := s } r)
    (hr : ∀ f ∈ r.2.effects, ModuleId.mayRequest .power f) :
    Switch kind (a.Needed kind) r.2.effects
      (needed (decide (kind = .light) && r.1.lightOn) (a.mods.sensors.holders kind)) := by
  by_cases hk : kind = .light
  · subst hk
    obtain ⟨fx, hfx, hs⟩ := h.switch
    rw [hfx]
    simpa [Needed, Wanted] using hs
  · have hsilent : ∀ f ∈ r.2.effects, f.sensorOn kind = none := fun f hf =>
      Effect.sensorOn_of_power hk (hr f hf)
    simpa [Needed, Wanted, hk] using Switch.of_silent hsilent

/-- The three modules switch a sensor as it is needed. -/
theorem phonesReact_switch (kind : SensorKind) (hap : a.Apart) (he : EventApart clock a e) :
    Switch kind (a.Needed kind) (a.phonesReact clock e).effects
        ((a.phonesReact clock e).state.Needed kind) ∧
      (a.phonesReact clock e).state.Apart := by
  have hp : PowerModule.Lights (a.mods.sensors.holders .light) a.mods.power { store := a.store }
      (a.powerReacts clock e) := PowerModule.onEvent_lights hap he.1
  have ha : ∀ f ∈ (a.audioReacts e).2.effects, f.sensorOn kind = none := fun f hf =>
    Effect.sensorOn_of_audio
      ((AudioModule.onEvent_aside (R := Store.Agree) (E := fun _ => False) e).forall_effects rfl f
        hf)
  by_cases htick : e = .idleTick
  · -- the sensors module does not hear the tick
    subst htick
    have hps := switch_of_lights kind hp
      ((PowerModule.onEvent_follows .idleTick).forall_effects rfl)
    have hs : (a.sensorsReact .idleTick).2.effects = [] := rfl
    refine ⟨?_, hp.apart⟩
    simp only [phonesReact, hs, List.append_nil]
    exact hps.append_silent ha
  · have hun : PowerModule.Unlit a.mods.power { store := a.store } (a.powerReacts clock e) :=
      PowerModule.onEvent_unlit htick
    obtain ⟨fx, hfx, hfs⟩ := hun.silent
    have hpa : ∀ f ∈ (a.powerReacts clock e).2.effects ++ (a.audioReacts e).2.effects,
        f.sensorOn kind = none := by
      intro f hf
      rw [hfx] at hf
      exact (List.mem_append.mp hf).elim (fun h => hfs f (by simpa using h) kind) (ha f)
    have hlight : ∀ p, e = .sensorAcquire kind p → a.Wanted kind = false := by
      rintro p rfl
      by_cases hk : kind = .light
      · subst hk
        simp [Wanted, he.2 p rfl]
      · simp [Wanted, hk]
    obtain ⟨gx, hgx, hs⟩ := SensorsModule.onEvent_switches (m := a.mods.sensors)
      (c := { store := (a.audioReacts e).2.store }) (wanted_apart hap) hlight
    have hneeded : (a.phonesReact clock e).state.Needed kind =
        needed (a.Wanted kind) ((a.sensorsReact e).1.holders kind) := by
      rw [Needed, Wanted]
      simp only [phonesReact]
      rw [hun.lightOn, Wanted]
    refine ⟨?_, fun hl' => ?_⟩
    · rw [hneeded]
      refine Switch.silent_append ?_ hpa
      rw [sensorsReact, hgx]
      exact hs
    · have hl : a.mods.power.lightOn := by
        rw [← hun.lightOn]
        exact hl'
      have hh : (a.phonesReact clock e).state.mods.sensors.holders .light =
          SensorsModule.holdersAfter .light e (a.mods.sensors.holders .light) :=
        SensorsModule.holders_onEvent
      rw [hh, hap hl]
      cases e with
      | sensorAcquire k p =>
        by_cases hk : k = .light
        · subst hk
          rw [he.2 p rfl] at hl
          exact absurd hl Bool.false_ne_true
        · simp [SensorsModule.holdersAfter, hk]
      | sensorRelease k p => simp [SensorsModule.holdersAfter]
      | _ => rfl

/-! ## A dispatch -/

/-- What a dispatch does to a sensor while its cascade goes on, `n` being whether the
    sensor was needed before: the sensor follows the need of it, and once it was
    switched off nothing pending makes anybody need it. -/
structure Duty (kind : SensorKind) (n : Bool) (clock : Clock) (a : Arbiter) (q : List Event)
    (fx : List Effect) : Prop where
  switch : Switch kind n fx (a.Needed kind)
  apart : a.Apart
  pending : (∀ e ∈ q, ¬ e.Rouses) ∨
    ∃ e, q = [e] ∧ EventApart clock a e ∧ ∀ f ∈ fx, f.sensorOn kind ≠ some false

/-- Nobody who did not need a sensor needs it after an event that does not rouse. -/
theorem not_needed_of_not_rouses (he : ¬ e.Rouses) (h : a.Needed kind = false) :
    (a.phonesReact clock e).state.Needed kind = false := by
  obtain ⟨hw, hh⟩ : a.Wanted kind = false ∧ a.mods.sensors.holders kind = [] := by
    simpa [Needed, needed] using h
  have hun : PowerModule.Unlit a.mods.power { store := a.store } (a.powerReacts clock e) :=
    PowerModule.onEvent_unlit fun ht => he (by rw [ht]; trivial)
  have hw' : (a.phonesReact clock e).state.Wanted kind = a.Wanted kind := by
    rw [Wanted, Wanted]
    simp only [phonesReact]
    rw [hun.lightOn]
  have hh' : (a.phonesReact clock e).state.mods.sensors.holders kind =
      SensorsModule.holdersAfter kind e (a.mods.sensors.holders kind) :=
    SensorsModule.holders_onEvent
  have hnil : SensorsModule.holdersAfter kind e [] = [] := by
    cases e with
    | sensorAcquire k p => exact absurd trivial he
    | sensorRelease k p => simp [SensorsModule.holdersAfter]
    | _ => rfl
  rw [Needed, hw', hw, hh', hh, hnil]
  rfl

/-- What follows an event makes somebody need a sensor only when a call starts. -/
theorem phonesReact_rouses : ∀ e' ∈ (a.phonesReact clock e).events, e'.Rouses →
    ∃ p, e = .commsActive p true ∧ e' = .sensorAcquire .proximity p := by
  intro e' he' hr
  rcases phonesReact_emits e' he' with (⟨p, rfl, rfl⟩ | ⟨p, rfl, rfl⟩ | rfl) | ⟨near, rfl⟩
  · exact ⟨p, rfl, rfl⟩
  · exact hr.elim
  · exact hr.elim
  · exact hr.elim

theorem phonesReact_commsActive {p : Pid} :
    (a.phonesReact clock (.commsActive p true)).events = [.sensorAcquire .proximity p] := by
  simp only [phonesReact, powerReacts, PowerModule.onEvent, PowerModule.onCommsActive_events,
    sensorsReact, SensorsModule.onEvent]
  simp

theorem commsActive_silent {p : Pid} {active : Bool} :
    ∀ f ∈ (a.phonesReact clock (.commsActive p active)).effects, f.sensorOn kind = none := by
  intro f hf
  have hun : PowerModule.Unlit a.mods.power { store := a.store }
      (a.powerReacts clock (.commsActive p active)) := PowerModule.onEvent_unlit (by simp)
  obtain ⟨fx, hfx, hs⟩ := hun.silent
  simp only [phonesReact, List.mem_append] at hf
  rcases hf with (hf | hf) | hf
  · rw [hfx] at hf
    exact hs f (by simpa using hf) kind
  · exact Effect.sensorOn_of_audio
      ((AudioModule.onEvent_aside (R := Store.Agree) (E := fun _ => False) _).forall_effects rfl f
        hf)
  · exact absurd hf List.not_mem_nil

theorem duty_settles {n : Bool} :
    Bus.Settles (Duty kind n clock) (handlers phoneModules clock) := by
  intro a e q fx h
  rw [fan_phoneModules]
  rcases h.pending with hq | ⟨e₀, hq, hea, hon⟩
  · have he := hq e List.mem_cons_self
    obtain ⟨hs, hap⟩ := phonesReact_switch kind h.apart (eventApart_of_not_rouses he)
    refine ⟨h.switch.append hs (not_needed_of_not_rouses he), hap, .inl fun e' he' hr => ?_⟩
    rcases List.mem_append.mp he' with he' | he'
    · exact hq e' (List.mem_cons_of_mem _ he') hr
    · obtain ⟨p, rfl, -⟩ := phonesReact_rouses e' he' hr
      exact he trivial
  · cases hq
    obtain ⟨hs, hap⟩ := phonesReact_switch kind h.apart hea
    refine ⟨h.switch.append_of_on hs hon, hap, ?_⟩
    by_cases hc : ∃ p, e = .commsActive p true
    · -- the call asks for the proximity sensor next
      obtain ⟨p, rfl⟩ := hc
      refine .inr ⟨.sensorAcquire .proximity p, by simp [phonesReact_commsActive],
        ⟨by simp, by simp⟩, fun f hf => ?_⟩
      rcases List.mem_append.mp hf with hf | hf
      · exact hon f hf
      · simp [commsActive_silent f hf]
    · refine .inl fun e' he' hr => ?_
      obtain ⟨p, rfl, -⟩ := phonesReact_rouses e' (by simpa using he') hr
      exact hc ⟨p, rfl⟩

/-! ## Runs -/

/-- What happens to the group. -/
def OfPhones : Stimulus → Prop
  | .command verb _ => verb.owner ∈ phoneModules
  | _ => True

/-- The step does not make both modules need the light sensor at the same time. -/
def OneOwner (clock : Clock) (a : Arbiter) : Stimulus → Prop
  | .command (.sensors .sensorHold) args =>
    SensorsModule.heldBy args = some .light → a.mods.power.lightOn = false
  | .command (.power verb) args => ∀ on ∈ a.mods.power.panelWish args verb,
    { a.mods.power with panelOn := on }.lightShouldBeWarm clock → a.mods.sensors.holders .light = []
  | .inject e => EventApart clock a e
  | _ => True

omit [Fpu] in
/-- The verbs of the audio module make somebody need a sensor only by a call or a
    ring that starts. -/
theorem audio_rouses {verb : AudioModule.Verb} {args : String} {e : Event}
    (he : e ∈ (a.mods.audio.onCommand verb args { store := a.store }).2.1.events) (hr : e.Rouses) :
    (a.mods.audio.onCommand verb args { store := a.store }).2.1.events = [e] ∧
      ((∃ p, e = .commsActive p true) ∨ ∃ p, e = .sensorAcquire .proximity p) := by
  have hv := AudioModule.onCommand_step (m := a.mods.audio) (c := { store := a.store }) verb args
  generalize (a.mods.audio.onCommand verb args { store := a.store }).1 = m' at hv
  generalize (a.mods.audio.onCommand verb args { store := a.store }).2.1 = c' at hv he ⊢
  cases hv with
  | request => simp at he
  | abandon => simp at he
  | @callStart _ p =>
    rw [AudioModule.callStart_events] at he ⊢
    cases List.mem_singleton.mp he
    exact ⟨rfl, .inl ⟨p, rfl⟩⟩
  | callEnd =>
    rw [AudioModule.callEnd_events] at he
    rcases List.mem_cons.mp he with rfl | he
    · exact hr.elim
    · cases List.mem_singleton.mp he
      exact hr.elim
  | callVideo =>
    cases List.mem_singleton.mp he
    exact hr.elim
  | @ringStart _ p =>
    rw [AudioModule.ringStart_events] at he ⊢
    cases List.mem_singleton.mp he
    exact ⟨rfl, .inr ⟨p, rfl⟩⟩
  | ringStop =>
    rw [AudioModule.ringStop_events] at he
    cases List.mem_singleton.mp he
    exact hr.elim
  | quiet _ _ _ _ hev => simp [hev] at he

/-- A command of the group does its duty, before the cascade. -/
theorem duty_command {verb : Verb} {args : String} (hv : verb.owner ∈ phoneModules)
    (hap : a.Apart) (ho : OneOwner clock a (.command verb args)) :
    Duty kind (a.Needed kind) clock (a.handle clock verb args).1.state
      (a.handle clock verb args).1.events (a.handle clock verb args).1.effects := by
  obtain ⟨v, rfl⟩ | ⟨v, rfl⟩ | ⟨v, rfl⟩ := owner_mem_phoneModules hv
  · have hw : Ctx.Aside (fun e => ∃ on, e = .screenState on) (ModuleId.mayRequest .power)
        { store := a.store } (a.mods.power.onCommand clock v args { store := a.store }).2.1 :=
      PowerModule.onCommand_within (fun on => ⟨on, rfl⟩) v args
    have hl : PowerModule.Lights (a.mods.sensors.holders .light) a.mods.power { store := a.store }
        ((a.mods.power.onCommand clock v args { store := a.store }).1,
          (a.mods.power.onCommand clock v args { store := a.store }).2.1) :=
      PowerModule.onCommand_lights hap ho
    refine ⟨switch_of_lights kind hl (hw.forall_effects rfl), hl.apart, .inl fun e he hr => ?_⟩
    obtain ⟨on, rfl⟩ := hw.forall_events rfl e he
    exact hr
  · have hsilent : ∀ f ∈ (a.mods.audio.onCommand v args { store := a.store }).2.1.effects,
        f.sensorOn kind = none := fun f hf =>
      Effect.sensorOn_of_audio ((AudioModule.onCommand_aside
        (R := Store.Agree) v args).forall_effects rfl f hf)
    refine ⟨.of_silent hsilent, hap, ?_⟩
    by_cases hr : ∃ e ∈ (a.mods.audio.onCommand v args { store := a.store }).2.1.events, e.Rouses
    · obtain ⟨e, he, hr⟩ := hr
      obtain ⟨hev, hp⟩ := audio_rouses he hr
      refine .inr ⟨e, hev, ?_, fun f hf => by simp [hsilent f hf]⟩
      rcases hp with ⟨p, rfl⟩ | ⟨p, rfl⟩ <;> exact ⟨by simp, by simp⟩
    · push Not at hr
      exact .inl hr
  · have hw : Ctx.Aside (ModuleId.mayEmit .sensors) (ModuleId.mayRequest .sensors)
        { store := a.store } (a.mods.sensors.onCommand v args { store := a.store }).2.1 :=
      SensorsModule.onCommand_aside v args
    have hhold : v = .sensorHold → SensorsModule.heldBy args = some .light →
        a.mods.power.lightOn = false := by
      rintro rfl
      exact ho
    obtain ⟨fx, hfx, hs⟩ := SensorsModule.onCommand_switches (m := a.mods.sensors)
      (c := { store := a.store }) kind v args (wanted_apart hap) fun hv hk => by
        by_cases hkl : kind = .light
        · subst hkl
          simp [Wanted, hhold hv hk]
        · simp [Wanted, hkl]
    refine ⟨?_, fun hl => ?_, .inl fun e he hr => ?_⟩
    · have hfx : (a.handle clock (.sensors v) args).1.effects = fx := hfx
      rw [hfx]
      exact hs
    · have hl : a.mods.power.lightOn := hl
      refine SensorsModule.holders_onCommand_nil (hap hl) fun hv hk => ?_
      rw [hhold hv hk] at hl
      exact Bool.false_ne_true hl
    · have := hw.forall_events rfl e he
      cases e <;> first | exact hr | exact this

/-- A step of the group switches a sensor as it is needed. -/
theorem respond_switch (kind : SensorKind) {i : Stimulus} (hi : OfPhones i)
    (ho : OneOwner clock a i) (hap : a.Apart) :
    Switch kind (a.Needed kind) (a.respond phoneModules clock i).2
        ((a.respond phoneModules clock i).1.Needed kind) ∧
      (a.respond phoneModules clock i).1.Apart := by
  cases i with
  | command verb args =>
    have h : Duty kind (a.Needed kind) clock (a.command phoneModules clock verb args).1 []
        ([] ++ (a.command phoneModules clock verb args).2.1) :=
      command_settles [] duty_settles (duty_command hi hap ho)
    exact ⟨h.switch, h.apart⟩
  | inject e =>
    have h : Duty kind (a.Needed kind) clock (a.inject phoneModules clock e).1 []
        ([] ++ (a.inject phoneModules clock e).2) :=
      inject_settles [] duty_settles ⟨.of_silent (by simp), hap, .inr ⟨e, rfl, ho, by simp⟩⟩
    exact ⟨h.switch, h.apart⟩
  | environment s => exact ⟨.of_silent (by simp [respond]), hap⟩

/-- What the switching of a sensor was, in order. -/
def switchings (kind : SensorKind) (fx : List Effect) : List Bool :=
  fx.filterMap (Effect.sensorOn kind)

/-- In every run that never makes both modules need the light sensor at the same time,
    every sensor is switched on first and then off and on in turns; it is on exactly
    while somebody needs it; and nobody needs it after a step that switches it off. -/
theorem sensors_alternate {a₀ : Arbiter} {fx : List Effect} (h₀ : a₀.mods = {})
    (h : TimedRun phoneModules (fun clock a i => OfPhones i ∧ OneOwner clock a i) a₀ a fx)
    (kind : SensorKind) :
    (∀ i b, (switchings kind fx)[i]? = some b → b = decide (i % 2 = 0)) ∧
    Trace.last (Effect.sensorOn kind) false fx = a.Needed kind ∧
    ∀ clock i, OfPhones i → OneOwner clock a i →
      false ∈ switchings kind (a.respond phoneModules clock i).2 →
      (a.respond phoneModules clock i).1.Needed kind = false := by
  have hJ : Trace.Toggles (Effect.sensorOn kind) false fx (a.Needed kind) ∧ a.Apart := by
    refine h.invariant (J := fun a fx =>
      Trace.Toggles (Effect.sensorOn kind) false fx (a.Needed kind) ∧ a.Apart) ?_ ?_
    · refine ⟨?_, fun hl => ?_⟩
      · simp [Needed, Wanted, needed, h₀, Trace.Toggles]
      · simp [h₀]
    · rintro a fx clock i ⟨ht, hap⟩ ⟨hi, ho⟩ -
      obtain ⟨hs, hap'⟩ := respond_switch kind hi ho hap
      exact ⟨ht.append hs.toggles, hap'⟩
  obtain ⟨ht, hap⟩ := hJ
  refine ⟨fun i b hb => ?_, ht.last_eq, fun clock i hi ho hf => ?_⟩
  · rw [ht.getElem? hb]
    split <;> simp_all
  · obtain ⟨f, hf, hoff⟩ := List.mem_filterMap.mp hf
    exact (respond_switch kind hi ho hap).1.off f hf hoff

end Arbiter

section

attribute [local instance] Fpu.comparator

namespace Arbiter

/-- The light sensor is switched on by a tick, off again two minutes after the
    screen went dark, and is free for a holder then. -/
theorem sensors_alternate_taken :
    let a := respond phoneModules ⟨0, 0⟩ {} (.inject .idleTick)
    let b := a.1.respond phoneModules ⟨0, 0⟩ (.command (.power .powerKey) "")
    let c := b.1.respond phoneModules ⟨millis 120000, 120⟩ (.inject .idleTick)
    let d :=
      c.1.respond phoneModules ⟨millis 120000, 120⟩ (.command (.sensors .sensorHold) "light on")
    switchings .light (a.2 ++ b.2 ++ c.2 ++ d.2) = [true, false, true] ∧
      Trace.last (Effect.sensorOn .light) false (a.2 ++ b.2 ++ c.2 ++ d.2) = true := by
  intro a b c d
  have ha : TimedRun phoneModules (fun clock a i => OfPhones i ∧ OneOwner clock a i) {} a.1
      ([] ++ a.2) :=
    .step ⟨0, 0⟩ (.inject .idleTick) .start ⟨trivial, fun _ _ => rfl, by simp⟩ (by decide)
  have hb : TimedRun phoneModules (fun clock a i => OfPhones i ∧ OneOwner clock a i) {} b.1
      ([] ++ a.2 ++ b.2) :=
    .step ⟨0, 0⟩ (.command (.power .powerKey) "") ha ⟨.head _, fun _ _ _ => by decide⟩ (by decide)
  have hc : TimedRun phoneModules (fun clock a i => OfPhones i ∧ OneOwner clock a i) {} c.1
      ([] ++ a.2 ++ b.2 ++ c.2) :=
    .step ⟨millis 120000, 120⟩ (.inject .idleTick) hb
      ⟨trivial, fun _ _ => by decide, by simp⟩ (by decide)
  have hd : TimedRun phoneModules (fun clock a i => OfPhones i ∧ OneOwner clock a i) {} d.1
      ([] ++ a.2 ++ b.2 ++ c.2 ++ d.2) :=
    .step ⟨millis 120000, 120⟩ (.command (.sensors .sensorHold) "light on") hc
      ⟨by simp [OfPhones, Verb.owner, phoneModules], fun _ => by decide⟩ (by decide)
  have hlast := (sensors_alternate rfl hd .light).2.1
  exact ⟨by decide, hlast.trans (by decide)⟩

/-- A holder of the light sensor that the power module has on switches it on twice,
    and off under the power module when it lets go. -/
theorem light_switched_twice :
    ∃ a fx, TimedRun phoneModules (fun _ _ => OfPhones) {} a fx ∧
      switchings .light fx = [true, true, false] ∧ a.mods.power.lightOn = true ∧
      a.Needed .light = true := by
  let a := respond phoneModules ⟨0, 0⟩ {} (.inject .idleTick)
  let b := a.1.respond phoneModules ⟨0, 0⟩ (.command (.sensors .sensorHold) "light on")
  let c := b.1.respond phoneModules ⟨0, 0⟩ (.command (.sensors .sensorHold) "light off")
  have ha : TimedRun phoneModules (fun _ _ => OfPhones) {} a.1 ([] ++ a.2) :=
    .step ⟨0, 0⟩ (.inject .idleTick) .start trivial (by decide)
  have hb : TimedRun phoneModules (fun _ _ => OfPhones) {} b.1 ([] ++ a.2 ++ b.2) :=
    .step ⟨0, 0⟩ (.command (.sensors .sensorHold) "light on") ha
      (by simp [OfPhones, Verb.owner, phoneModules]) (by decide)
  have hc : TimedRun phoneModules (fun _ _ => OfPhones) {} c.1 ([] ++ a.2 ++ b.2 ++ c.2) :=
    .step ⟨0, 0⟩ (.command (.sensors .sensorHold) "light off") hb
      (by simp [OfPhones, Verb.owner, phoneModules]) (by decide)
  exact ⟨c.1, [] ++ a.2 ++ b.2 ++ c.2, hc, by decide, by decide, by decide⟩

end Arbiter

end

end Wandr
