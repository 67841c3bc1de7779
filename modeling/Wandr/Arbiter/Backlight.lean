import Wandr.Arbiter.Panel

/-!
# The backlight

Four paths of the power module request a level of the backlight: a reading of the ambient light,
a wake, an uncover, and the commands. A handler of the module does one of two things
(`PowerModule.respond_backlight`): it leaves alone what the backlight depends on and requests no
level, or it ends with the backlight asserted, which it is when the panel is dark, too.

* `PowerModule.backlight_gated`: no level is requested for a dark panel, none of the sensor under
  a manual level, and a manual level is the last one requested for a panel that is on.
-/

namespace Wandr

open Text

/-- What an effect tells of the level requested. -/
def Effect.backlight : Effect → Option (Option F32)
  | .setBacklight level _ => some (some level)
  | _ => none

namespace PowerModule

/-- The level requested last. -/
def lastLevel (b : Option F32) (fx : List Effect) : Option F32 := Trace.last Effect.backlight b fx

/-- A panel that shows something: it is on and nothing blanks it. -/
def IsLit (m : PowerModule) : Prop := m.panelOn ∧ m.blanked = false

/-- Levels are requested for a lit panel only, and those of the sensor under no manual level. -/
def Gated (m : PowerModule) (fx : List Effect) : Prop :=
  ∀ (level : F32) (sensor : Bool), .setBacklight level sensor ∈ fx →
    m.IsLit ∧ (sensor → m.manualFrac = none)

/-- A manual level is the one of a lit panel. -/
def Showing (m : PowerModule) (b : Option F32) : Prop :=
  ∀ f, m.IsLit → m.manualFrac = some f → b = some f

variable {clock : Clock} {m m' : PowerModule} {c c' : Ctx} {r r' : PowerModule × Ctx}

/-! ## The two kinds of steps -/

/-- Two states of the module agree on what the backlight depends on. -/
structure SameGates (m m' : PowerModule) : Prop where
  panelOn : m'.panelOn = m.panelOn
  blanked : m'.blanked = m.blanked
  manualFrac : m'.manualFrac = m.manualFrac

/-- No level is requested from one handle to another. -/
def Silent (c c' : Ctx) : Prop :=
  ∃ fx, c'.effects = c.effects ++ fx ∧ ∀ f ∈ fx, f.backlight = none

theorem Silent.refl : Silent c c := ⟨[], by simp⟩

theorem Silent.request {f : Effect} (h : f.backlight = none) : Silent c (c.request f) :=
  ⟨[f], rfl, by simpa using h⟩

theorem Silent.emit {e : Event} : Silent c (c.emit e) := ⟨[], by simp⟩

theorem Silent.deliverToAll {ps : List Pid} {line : Pid → Line} :
    Silent c (c.deliverToAll ps line) := by
  refine ⟨_, Ctx.effects_deliverToAll, fun f hf => ?_⟩
  obtain ⟨p, -, rfl⟩ := List.mem_map.mp hf
  rfl

theorem Silent.trans {c'' : Ctx} (h : Silent c c') (h' : Silent c' c'') : Silent c c'' := by
  obtain ⟨fx, hfx, hs⟩ := h
  obtain ⟨fx', hfx', hs'⟩ := h'
  refine ⟨fx ++ fx', by rw [hfx', hfx, List.append_assoc], fun f hf => ?_⟩
  exact (List.mem_append.mp hf).elim (hs f) (hs' f)

/-- A piece of a handler leaves alone what the backlight depends on, and requests no level. -/
structure Quiet (m : PowerModule) (c : Ctx) (r : PowerModule × Ctx) : Prop where
  gates : SameGates m r.1
  silent : Silent c r.2

/-- A piece of a handler ends with the backlight asserted. -/
def Asserts (c : Ctx) (r : PowerModule × Ctx) : Prop :=
  ∃ fx, r.2.effects = c.effects ++ fx ∧ Gated r.1 fx ∧ ∀ b, Showing r.1 (lastLevel b fx)

theorem SameGates.refl : SameGates m m := ⟨rfl, rfl, rfl⟩

theorem SameGates.isLit (h : SameGates m m') : m'.IsLit ↔ m.IsLit := by
  rw [IsLit, IsLit, h.panelOn, h.blanked]

theorem Quiet.refl : Quiet m c (m, c) := ⟨.refl, .refl⟩

/-- A dark panel shows no level, and none is requested for it. -/
theorem Asserts.of_dark (h : Silent c r.2) (hd : ¬ r.1.IsLit) : Asserts c r := by
  obtain ⟨fx, hfx, hs⟩ := h
  refine ⟨fx, hfx, fun level sensor hf => ?_, fun b f hl => absurd hl hd⟩
  cases hs _ hf

theorem Asserts.of_silent (h : Silent c c') (ha : Asserts c' r) : Asserts c r := by
  obtain ⟨fx, hfx, hs⟩ := h
  obtain ⟨gx, hgx, hg, hl⟩ := ha
  refine ⟨fx ++ gx, by rw [hgx, hfx, List.append_assoc], fun level sensor hf => ?_, fun b => ?_⟩
  · rcases List.mem_append.mp hf with hf | hf
    · cases hs _ hf
    · exact hg level sensor hf
  · rw [lastLevel, Trace.last_append]
    exact hl _

theorem Asserts.quiet (ha : Asserts c r) (h : Quiet r.1 r.2 r') : Asserts c r' := by
  obtain ⟨fx, hfx, hg, hl⟩ := ha
  obtain ⟨gx, hgx, hs⟩ := h.silent
  refine ⟨fx ++ gx, by rw [hgx, hfx, List.append_assoc], fun level sensor hf => ?_, fun b f => ?_⟩
  · rcases List.mem_append.mp hf with hf | hf
    · rw [h.gates.isLit, h.gates.manualFrac]
      exact hg level sensor hf
    · cases hs _ hf
  · rw [h.gates.isLit, h.gates.manualFrac, lastLevel, Trace.last_append, Trace.last_of_silent hs]
    exact hl b f

/-! ## The paths -/

/-- One level requested for a lit panel. -/
theorem asserts_level {level : F32} {sensor : Bool} (hl : m.IsLit)
    (hs : sensor → m.manualFrac = none) (hm : ∀ f, m.manualFrac = some f → level = f) :
    Asserts c (m, c.request (.setBacklight level sensor)) := by
  refine ⟨_, rfl, fun level' sensor' hf => ?_, fun b f _ hf => ?_⟩
  · obtain ⟨-, rfl⟩ : level' = level ∧ sensor' = sensor := by simpa using hf
    exact ⟨hl, hs⟩
  · exact congrArg some (hm f hf)

theorem reassertBacklight_asserts : Asserts c (m.reassertBacklight c) := by
  unfold reassertBacklight
  split
  · next hd =>
    refine .of_dark .refl fun hl => ?_
    rw [hl.1, hl.2] at hd
    cases hd
  · next hd =>
    have hl : m.IsLit := by
      revert hd
      unfold IsLit
      cases m.panelOn <;> cases m.blanked <;> simp
    split
    · next frac hf =>
      refine asserts_level hl (fun hs => Option.isNone_iff_eq_none.mp hs) fun f hm => ?_
      have hm : m.manualFrac = some f := hm
      rw [hm] at hf
      exact (Option.some.inj hf).symm
    · next hf =>
      refine ⟨[], by simp, fun _ _ hn => absurd hn List.not_mem_nil, fun b f _ hm => ?_⟩
      rw [hm] at hf
      cases hf

theorem reconcileLight_quiet : Quiet m c (m.reconcileLight clock c) := by
  unfold reconcileLight
  dsimp only
  split
  · exact ⟨⟨rfl, rfl, rfl⟩, .request rfl⟩
  · exact .refl

theorem setPanelOn_asserts {on : Bool} : Asserts c (m.setPanelOn clock on c) := by
  have hpower : Silent c (if !m.blanked then c.request (.setDisplayPower on) else c) := by
    split
    · exact .request rfl
    · exact .refl
  cases on with
  | true =>
    have ha := Asserts.of_silent hpower
      (reassertBacklight_asserts (m := { m with panelOn := true }))
    have hq : Asserts c ({ (reassertBacklight { m with panelOn := true } _).1 with
        lastActivity := some clock.mono }, Ctx.emit _ (.screenState true)) :=
      ha.quiet ⟨⟨rfl, rfl, rfl⟩, .emit⟩
    exact hq.quiet reconcileLight_quiet
  | false =>
    have hd : Asserts c ({ m with panelOn := false }, Ctx.emit _ (.screenState false)) :=
      .of_dark (hpower.trans .emit) fun hl => absurd hl.1 Bool.false_ne_true
    exact hd.quiet reconcileLight_quiet

theorem setPanelBlanked_silent {blank : Bool} : Silent c (m.setPanelBlanked blank c).2 :=
  Silent.trans (Silent.request rfl) Silent.deliverToAll

/-- Lifting a blank asserts the backlight; without one nothing changes. -/
theorem ensureUnblanked_cases :
    Asserts c (m.ensureUnblanked c) ∨ m.ensureUnblanked c = (m, c) := by
  unfold ensureUnblanked
  split
  · exact .inl (Asserts.of_silent setPanelBlanked_silent reassertBacklight_asserts)
  · exact .inr rfl

/-! ## The handlers -/

/-- What a handler does to the backlight. -/
def Settles (m : PowerModule) (c : Ctx) (r : PowerModule × Ctx) : Prop :=
  Quiet m c r ∨ Asserts c r

theorem Settles.quiet (h : Settles m c r) (hq : Quiet r.1 r.2 r') : Settles m c r' := by
  rcases h with h | h
  · exact .inl ⟨⟨hq.gates.panelOn.trans h.gates.panelOn, hq.gates.blanked.trans h.gates.blanked,
      hq.gates.manualFrac.trans h.gates.manualFrac⟩, h.silent.trans hq.silent⟩
  · exact .inr (h.quiet hq)

theorem ensureUnblanked_settles (h : SameGates m m') : Settles m c (m'.ensureUnblanked c) := by
  rcases ensureUnblanked_cases (m := m') (c := c) with ha | he
  · exact .inr ha
  · rw [he]
    exact .inl ⟨h, .refl⟩

theorem onScreenState_quiet {live : Bool} : Quiet m c (m.onScreenState clock live c) := by
  unfold onScreenState
  dsimp only
  have hg : SameGates m (if live then { m with screenOffAt := none }
      else if m.screenOffAt.isNone then { m with screenOffAt := some clock.mono } else m) := by
    split
    · exact ⟨rfl, rfl, rfl⟩
    · split
      · exact ⟨rfl, rfl, rfl⟩
      · exact .refl
  split
  · exact ⟨⟨hg.panelOn, hg.blanked, hg.manualFrac⟩, .refl⟩
  · exact ⟨⟨hg.panelOn, hg.blanked, hg.manualFrac⟩, .deliverToAll⟩

theorem onIdleTick_settles : Settles m c (m.onIdleTick clock c) := by
  have hl : Quiet m c (m.reconcileLight clock c) := reconcileLight_quiet
  unfold onIdleTick
  dsimp only
  split
  · exact .inl hl
  · split
    · exact .inl hl
    · split
      · exact .inl hl
      · split
        · exact (Settles.quiet (.inl hl) ⟨⟨rfl, rfl, rfl⟩, .refl⟩)
        · split
          · exact .inr (Asserts.of_silent hl.silent setPanelOn_asserts)
          · exact .inl hl

theorem onCommsActive_settles {p : Pid} {active : Bool} :
    Settles m c (m.onCommsActive p active c) := by
  -- The calls are recorded, and the blank is lifted when the last one ends.
  have hcall {m' : PowerModule} (hm : SameGates m m') : Settles m c
      (if !active ∧ m'.comms = ∅ then m'.ensureUnblanked c else (m', c)) := by
    split
    · exact ensureUnblanked_settles hm
    · exact .inl ⟨hm, .refl⟩
  have hrest {r : PowerModule × Ctx} : Quiet r.1 r.2
      (let c := if active then r.2.emit (.sensorAcquire .proximity p)
        else r.2.emit (.sensorRelease .proximity p)
      if r.1.dozing then (r.1, c.deliverToHost p (.doze (r.1.cadenceFor p))) else (r.1, c)) := by
    dsimp only
    split
    · split
      · exact ⟨.refl, Silent.emit.trans (.request rfl)⟩
      · exact ⟨.refl, Silent.emit.trans (.request rfl)⟩
    · split
      · exact ⟨.refl, .emit⟩
      · exact ⟨.refl, .emit⟩
  let m₁ : PowerModule := if !active then { m with videoCalls := m.videoCalls.erase p } else m
  have hm₁ : SameGates m m₁ := by
    unfold m₁
    split
    · exact ⟨rfl, rfl, rfl⟩
    · exact .refl
  let m₂ : PowerModule :=
    { m₁ with comms := if active then insert p m₁.comms else m₁.comms.erase p }
  have hm₂ : SameGates m m₂ := ⟨hm₁.panelOn, hm₁.blanked, hm₁.manualFrac⟩
  exact Settles.quiet (hcall hm₂) hrest

theorem onProximityChanged_settles {near : Bool} :
    Settles m c (m.onProximityChanged near c) := by
  unfold onProximityChanged
  dsimp only
  split
  · refine .inr (.of_dark setPanelBlanked_silent fun hl => ?_)
    exact absurd hl.2 (by simp [setPanelBlanked])
  · split
    · exact ensureUnblanked_settles .refl
    · split
      · exact ensureUnblanked_settles .refl
      · exact .inl .refl

section

variable [Fpu]

theorem applyAutoBrightness_settles : Settles m c (m.applyAutoBrightness c) := by
  unfold applyAutoBrightness
  split
  · exact .inl .refl
  · next ha =>
    obtain ⟨hl, hm⟩ : m.IsLit ∧ m.manualFrac = none := by
      revert ha
      unfold autoBrightnessActive IsLit
      cases m.panelOn <;> cases m.blanked <;> cases m.manualFrac <;> simp
    split
    · exact .inl .refl
    · next frac _ =>
      dsimp only
      split
      · exact .inl .refl
      · have ha : Asserts c (m, c.request (.setBacklight frac true)) :=
          asserts_level hl (fun _ => hm) fun f hf => by rw [hm] at hf; cases hf
        exact .inr (ha.quiet ⟨⟨rfl, rfl, rfl⟩, .refl⟩)

theorem onLight_settles {lux : F32} : Settles m c (m.onLight lux c) := by
  rcases applyAutoBrightness_settles (c := c) (m := { m with
    lastLux := some lux, lightFrac := some (luxToFraction lux m.fullScaleLux) }) with h | h
  · exact .inl ⟨⟨h.gates.panelOn, h.gates.blanked, h.gates.manualFrac⟩, h.silent⟩
  · exact .inr h

theorem cmdBrightness_settles {args : String} :
    Settles m c ((m.cmdBrightness args c).1, (m.cmdBrightness args c).2.1) := by
  unfold cmdBrightness
  split
  · exact .inr reassertBacklight_asserts
  · split
    · next f _ =>
      dsimp only
      split
      · next hl =>
        have hl : m.IsLit := by
          revert hl
          unfold IsLit
          cases m.panelOn <;> cases m.blanked <;> simp
        have ha : Asserts c ({ m with manualFrac := some f }, c.request (.setBacklight f false)) :=
          asserts_level hl (fun h => by cases h) fun g hg => Option.some.inj hg
        exact .inr (ha.quiet ⟨⟨rfl, rfl, rfl⟩, .refl⟩)
      · next hd =>
        refine .inr (.of_dark .refl fun hl => hd ?_)
        have hl : m.IsLit := hl
        rw [hl.1, hl.2]
        rfl
    · exact .inl .refl
  · exact .inl .refl

theorem cmdBrightnessScale_settles {args : String} :
    Settles m c ((m.cmdBrightnessScale args c).1, (m.cmdBrightnessScale args c).2.1) := by
  unfold cmdBrightnessScale
  split
  · exact .inl .refl
  · split
    · exact .inl .refl
    · split
      · exact .inl .refl
      · dsimp only
        split
        · split
          · exact .inr reassertBacklight_asserts
          · exact .inl ⟨⟨rfl, rfl, rfl⟩, .refl⟩
        · exact .inl ⟨⟨rfl, rfl, rfl⟩, .refl⟩

/-- Whatever the module is asked. -/
theorem respond_settles {i : Stimulus} : Settles m c (m.respond clock i c) := by
  cases i with
  | command verb args =>
    cases verb with
    | reportPowerClass =>
      refine .inl ?_
      simp only [respond, onCommand]
      unfold cmdReportClass
      split
      · split
        · exact .refl
        · exact ⟨⟨rfl, rfl, rfl⟩, .refl⟩
      · exact .refl
    | powerKey => exact .inr setPanelOn_asserts
    | panel =>
      simp only [respond, onCommand]
      unfold cmdPanel
      dsimp only
      split
      · exact .inr setPanelOn_asserts
      · exact .inl .refl
    | brightness => exact cmdBrightness_settles
    | brightnessScale => exact cmdBrightnessScale_settles
    | userActivity => exact .inl ⟨⟨rfl, rfl, rfl⟩, .refl⟩
    | screenTimeout =>
      refine .inl ?_
      simp only [respond, onCommand]
      unfold cmdScreenTimeout
      split
      any_goals exact ⟨⟨rfl, rfl, rfl⟩, .refl⟩
      split <;> exact ⟨⟨rfl, rfl, rfl⟩, .refl⟩
  | event e =>
    cases e with
    | screenState live => exact .inl onScreenState_quiet
    | surfaceRemoved p =>
      simp only [respond, onEvent]
      unfold onSurfaceRemoved
      dsimp only
      split
      · exact ensureUnblanked_settles ⟨rfl, rfl, rfl⟩
      · exact .inl ⟨⟨rfl, rfl, rfl⟩, .refl⟩
    | commsActive p active => exact onCommsActive_settles
    | videoCallActive p active =>
      simp only [respond, onEvent]
      unfold onVideoCallActive
      split
      · exact ensureUnblanked_settles ⟨rfl, rfl, rfl⟩
      · exact .inl ⟨⟨rfl, rfl, rfl⟩, .refl⟩
    | proximityChanged near => exact onProximityChanged_settles
    | sensorReading kind x y z w =>
      cases kind with
      | light => exact onLight_settles
      | _ => exact .inl .refl
    | idleTick => exact onIdleTick_settles
    | _ => exact .inl .refl

/-! ## Runs -/

/-- A manual level shows throughout a run. -/
theorem Run.showing {fx : List Effect} (h : Run m fx) : Showing m (lastLevel none fx) := by
  induction h with
  | new => exact fun f _ hf => nomatch hf
  | @step m fx clock s i _ ih =>
    have hs : Settles m { store := s } (m.respond clock i { store := s }) := respond_settles
    rw [lastLevel, Trace.last_append]
    rcases hs with hq | ⟨gx, hgx, -, hl⟩
    · obtain ⟨gx, hgx, hsil⟩ := hq.silent
      have hgx : _ = gx := hgx.trans (List.nil_append gx)
      rw [hgx, Trace.last_of_silent hsil]
      intro f hlit hf
      rw [hq.gates.isLit] at hlit
      rw [hq.gates.manualFrac] at hf
      exact ih f hlit hf
    · have hgx : _ = gx := hgx.trans (List.nil_append gx)
      rw [hgx]
      exact hl _

/-- Whatever the module is asked next in a run, it requests a level for a lit panel only, and one
    of the sensor under no manual level; and a manual level is the one last requested while the
    panel is lit. -/
theorem backlight_gated {fx : List Effect} (h : Run m fx) :
    (∀ clock s i (level : F32) (sensor : Bool),
      .setBacklight level sensor ∈ (m.respond clock i { store := s }).2.effects →
        let m' := (m.respond clock i { store := s }).1
        m'.panelOn = true ∧ m'.blanked = false ∧ (sensor = true → m'.manualFrac = none)) ∧
      ∀ f, m.panelOn = true → m.blanked = false → m.manualFrac = some f →
        lastLevel none fx = some f := by
  refine ⟨fun clock s i level sensor hmem => ?_, fun f hon hb hf => h.showing f ⟨hon, hb⟩ hf⟩
  have hs : Settles m { store := s } (m.respond clock i { store := s }) := respond_settles
  rcases hs with hq | ⟨gx, hgx, hg, -⟩
  · obtain ⟨gx, hgx, hsil⟩ := hq.silent
    rw [hgx] at hmem
    cases hsil _ ((List.mem_append.mp hmem).resolve_left List.not_mem_nil)
  · rw [hgx] at hmem
    obtain ⟨hl, hm⟩ := hg level sensor ((List.mem_append.mp hmem).resolve_left List.not_mem_nil)
    exact ⟨hl.1, hl.2, hm⟩

end

section

/-- A unit that reads one level from every text. -/
local instance : Fpu := { Fpu.comparator with parse := fun _ => some F32.one }

/-- A manual level set while the panel is off is requested when it comes on. -/
theorem backlight_gated_wake :
    let c : Clock := ⟨0, 0⟩
    let r₁ := respond c {} (.command .panel "off") { store := {} }
    let r₂ := respond c r₁.1 (.command .brightness "1") { store := {} }
    let r₃ := respond c r₂.1 (.command .panel "on") { store := {} }
    lastLevel none ([] ++ r₁.2.effects ++ r₂.2.effects ++ r₃.2.effects) = some F32.one := by
  intro c r₁ r₂ r₃
  have h : Run r₃.1 ([] ++ r₁.2.effects ++ r₂.2.effects ++ r₃.2.effects) :=
    .step c {} _ (.step c {} _ (.step c {} _ .new))
  exact (backlight_gated h).2 F32.one (by decide) (by decide) (by decide)

end

end PowerModule

end Wandr
