import Wandr.Arbiter.Power
import Wandr.Lib.Trace

/-!
# The power of the panel

What the power module does to the panel, whatever it is asked: the power last
set is on exactly when the user wants the panel on and the proximity sensor does
not blank it, and it blanks it only during a call without video
(`PowerModule.panel_never_lost`).

Ahead of it stand the equations of the functions of the module that other
results on it use too: each says what becomes of the module and of its handle,
up to the lights and the cadences (`Effect.IsMinor`).
-/

namespace Wandr

/-- An effect on the light sensor, on the backlight or on the cadence of an app. -/
def Effect.IsMinor : Effect → Prop
  | .setSensor .light .. | .setBacklight .. | .hostLine _ (.doze _) => True
  | _ => False

/-- What an effect tells of the power of the panel. -/
def Effect.displayPower : Effect → Option Bool
  | .setDisplayPower on => some on
  | _ => none

theorem Effect.IsMinor.displayPower {f : Effect} (h : f.IsMinor) : f.displayPower = none := by
  cases f <;> first | rfl | exact absurd h id

/-- What an effect tells of the touch of an app. -/
def Effect.touch (p : Pid) : Effect → Option Bool
  | .hostLine q (.inputSuppress on) => if q = p then some on else none
  | _ => none

theorem Effect.IsMinor.touch {f : Effect} {p : Pid} (h : f.IsMinor) : f.touch p = none := by
  cases f with
  | hostLine q l => cases l <;> first | rfl | exact absurd h id
  | _ => rfl

namespace PowerModule

variable {clock : Clock} {m : PowerModule} {c : Ctx}

/-! ## The functions of the module -/

/-- Two states of the module agree on all that calls and the panel depend on. -/
structure SamePanel (m m' : PowerModule) : Prop where
  panelOn : m'.panelOn = m.panelOn
  blanked : m'.blanked = m.blanked
  comms : m'.comms = m.comms
  videoCalls : m'.videoCalls = m.videoCalls
  bgService : m'.bgService = m.bgService

theorem SamePanel.trans {m' m'' : PowerModule} (h : SamePanel m m') (h' : SamePanel m' m'') :
    SamePanel m m'' :=
  ⟨h'.panelOn.trans h.panelOn, h'.blanked.trans h.blanked, h'.comms.trans h.comms,
    h'.videoCalls.trans h.videoCalls, h'.bgService.trans h.bgService⟩

/-- A piece of a handler of the module only saw to minor effects. -/
structure OnlyMinor (m : PowerModule) (c : Ctx) (r : PowerModule × Ctx) : Prop where
  panel : SamePanel m r.1
  ctx : ∃ fx, r.2 = { c with effects := c.effects ++ fx } ∧ ∀ f ∈ fx, f.IsMinor

namespace OnlyMinor

theorem refl {m' : PowerModule} (h : SamePanel m m') : OnlyMinor m c (m', c) :=
  ⟨h, [], by simp⟩

theorem request {m' : PowerModule} {f : Effect} (h : SamePanel m m') (hf : f.IsMinor) :
    OnlyMinor m c (m', c.request f) :=
  ⟨h, [f], rfl, by simpa using hf⟩

theorem trans {r r' : PowerModule × Ctx} (h : OnlyMinor m c r) (h' : OnlyMinor r.1 r.2 r') :
    OnlyMinor m c r' := by
  obtain ⟨fx, hfx, hl⟩ := h.ctx
  obtain ⟨fx', hfx', hl'⟩ := h'.ctx
  refine ⟨h.panel.trans h'.panel, fx ++ fx', ?_, ?_⟩
  · rw [hfx', hfx]
    simp
  · exact fun f hf => (List.mem_append.mp hf).elim (hl f) (hl' f)

theorem of_same {m' : PowerModule} {r : PowerModule × Ctx} (h' : OnlyMinor m' c r)
    (h : SamePanel m m') : OnlyMinor m c r :=
  ⟨h.trans h'.panel, h'.ctx⟩

end OnlyMinor

theorem reconcileLight_onlyMinor (clock : Clock) : OnlyMinor m c (m.reconcileLight clock c) := by
  unfold reconcileLight
  dsimp only
  split
  · exact .request ⟨rfl, rfl, rfl, rfl, rfl⟩ trivial
  · exact .refl ⟨rfl, rfl, rfl, rfl, rfl⟩

theorem reassertBacklight_onlyMinor : OnlyMinor m c (m.reassertBacklight c) := by
  unfold reassertBacklight
  split
  · exact .refl ⟨rfl, rfl, rfl, rfl, rfl⟩
  · split
    · exact .request ⟨rfl, rfl, rfl, rfl, rfl⟩ trivial
    · exact .refl ⟨rfl, rfl, rfl, rfl, rfl⟩

/-- What setting the panel power does after it told the display. -/
theorem broadcast_onlyMinor (clock : Clock) (m : PowerModule) (c : Ctx) (on : Bool) :
    OnlyMinor m { c with events := c.events ++ [.screenState on] }
      (let (m, c) :=
        if on then
          let (m, c) := m.reassertBacklight c
          ({ m with lastActivity := some clock.mono }, c)
        else (m, c)
      m.reconcileLight clock (c.emit (.screenState on))) := by
  cases on with
  | false => exact reconcileLight_onlyMinor clock
  | true =>
    obtain ⟨hp, fx, hfx, hl⟩ := reassertBacklight_onlyMinor (m := m) (c := c)
    have h : OnlyMinor m { c with events := c.events ++ [.screenState true] }
        ({ (m.reassertBacklight c).1 with lastActivity := some clock.mono },
          (m.reassertBacklight c).2.emit (.screenState true)) := by
      refine ⟨⟨hp.panelOn, hp.blanked, hp.comms, hp.videoCalls, hp.bgService⟩, fx, ?_, hl⟩
      rw [hfx]
      rfl
    exact h.trans (reconcileLight_onlyMinor clock)

/-- Setting the panel power tells the display, unless the panel is blanked, and
    broadcasts it. -/
theorem setPanelOn_eq (clock : Clock) (m : PowerModule) (c : Ctx) (on : Bool) :
    SamePanel { m with panelOn := on } (m.setPanelOn clock on c).1 ∧
      ∃ fx, (∀ f ∈ fx, f.IsMinor) ∧ (m.setPanelOn clock on c).2 =
        { c with
          events := c.events ++ [.screenState on]
          effects := c.effects ++ (if m.blanked then [] else [.setDisplayPower on]) ++ fx } := by
  have h := broadcast_onlyMinor clock { m with panelOn := on }
    (if !m.blanked then c.request (.setDisplayPower on) else c) on
  obtain ⟨hp, fx, hfx, hl⟩ := h
  refine ⟨hp, fx, hl, hfx.trans ?_⟩
  cases m.blanked <;> simp [Ctx.request]

/-- The process numbers of the running apps. -/
def pids (s : Store) : List Pid := s.appsSnapshot.map AppState.pid

theorem setPanelBlanked_eq {blank : Bool} :
    m.setPanelBlanked blank c = ({ m with blanked := blank },
      { c with effects := c.effects ++ .setDisplayPower (if blank then false else m.panelOn) ::
        (pids c.store).map fun p => .hostLine p (.inputSuppress blank) }) := by
  simp [setPanelBlanked, Ctx.deliverToAll_eq, Ctx.request, pids]

/-- Lifting the blank tells the display and every app; without a blank nothing
    happens. -/
theorem ensureUnblanked_eq :
    SamePanel { m with blanked := false } (m.ensureUnblanked c).1 ∧
      ∃ fx, (∀ f ∈ fx, f.IsMinor) ∧ (m.ensureUnblanked c).2 =
        { c with effects := c.effects ++ (if m.blanked then .setDisplayPower m.panelOn ::
          (pids c.store).map fun p => .hostLine p (.inputSuppress false) else []) ++ fx } := by
  unfold ensureUnblanked
  cases hb : m.blanked with
  | false =>
    rw [if_neg Bool.false_ne_true]
    exact ⟨⟨rfl, hb, rfl, rfl, rfl⟩, [], by simp⟩
  | true =>
    rw [if_pos rfl, setPanelBlanked_eq]
    obtain ⟨hp, fx, hfx, hl⟩ := reassertBacklight_onlyMinor (m := { m with blanked := false })
      (c := { c with effects := c.effects ++ .setDisplayPower m.panelOn ::
        (pids c.store).map fun p => .hostLine p (.inputSuppress false) })
    exact ⟨hp, fx, hl, hfx⟩

/-- Lifting the blank once nobody is in a call. -/
theorem ensureUnblanked_of_idle :
    SamePanel { m with blanked := m.blanked && decide (m.comms ≠ ∅) }
      (if m.comms = ∅ then m.ensureUnblanked c else (m, c)).1 ∧
    ∃ fx, (∀ f ∈ fx, f.IsMinor) ∧ (if m.comms = ∅ then m.ensureUnblanked c else (m, c)).2 =
      { c with effects := c.effects ++
        (if m.blanked ∧ m.comms = ∅ then .setDisplayPower m.panelOn ::
        (pids c.store).map fun p => .hostLine p (.inputSuppress false) else []) ++ fx } := by
  by_cases hc : m.comms = ∅
  · simpa [hc] using ensureUnblanked_eq (m := m) (c := c)
  · simp only [hc, if_false, and_false, List.append_nil]
    exact ⟨⟨rfl, by simp [hc], rfl, rfl, rfl⟩, [], by simp⟩

theorem onScreenState_onlyMinor {live : Bool} :
    OnlyMinor m c (m.onScreenState clock live c) := by
  unfold onScreenState
  dsimp only
  have h : SamePanel m (if live then { m with screenOffAt := none }
      else if m.screenOffAt.isNone then { m with screenOffAt := some clock.mono } else m) := by
    split
    · exact ⟨rfl, rfl, rfl, rfl, rfl⟩
    · split <;> exact ⟨rfl, rfl, rfl, rfl, rfl⟩
  split
  · exact .refl h
  · rw [Ctx.deliverToAll_eq]
    refine ⟨h.trans ⟨rfl, rfl, rfl, rfl, rfl⟩, _, rfl, fun f hf => ?_⟩
    obtain ⟨p, -, rfl⟩ := List.mem_map.mp hf
    trivial

section Brightness

variable [Fpu] {args : String}

theorem applyAutoBrightness_onlyMinor : OnlyMinor m c (m.applyAutoBrightness c) := by
  unfold applyAutoBrightness
  split
  · exact .refl ⟨rfl, rfl, rfl, rfl, rfl⟩
  · split
    · exact .refl ⟨rfl, rfl, rfl, rfl, rfl⟩
    · dsimp only
      split
      · exact .refl ⟨rfl, rfl, rfl, rfl, rfl⟩
      · exact .request ⟨rfl, rfl, rfl, rfl, rfl⟩ trivial

theorem onLight_onlyMinor {lux : F32} : OnlyMinor m c (m.onLight lux c) :=
  .of_same applyAutoBrightness_onlyMinor ⟨rfl, rfl, rfl, rfl, rfl⟩

/-- The commands that see to the brightness and to the timeout only. -/
theorem onCommand_onlyMinor {verb : Verb} (hr : verb ≠ .reportPowerClass) (hk : verb ≠ .powerKey)
    (hp : verb ≠ .panel) :
    OnlyMinor m c ((m.onCommand clock verb args c).1, (m.onCommand clock verb args c).2.1) := by
  cases verb with
  | reportPowerClass => exact absurd rfl hr
  | powerKey => exact absurd rfl hk
  | panel => exact absurd rfl hp
  | brightness =>
    simp only [onCommand]
    unfold cmdBrightness
    split
    · exact .of_same reassertBacklight_onlyMinor ⟨rfl, rfl, rfl, rfl, rfl⟩
    · split
      · dsimp only
        split
        · exact .request ⟨rfl, rfl, rfl, rfl, rfl⟩ trivial
        · exact .refl ⟨rfl, rfl, rfl, rfl, rfl⟩
      · exact .refl ⟨rfl, rfl, rfl, rfl, rfl⟩
    · exact .refl ⟨rfl, rfl, rfl, rfl, rfl⟩
  | brightnessScale =>
    simp only [onCommand]
    unfold cmdBrightnessScale
    split
    · exact .refl ⟨rfl, rfl, rfl, rfl, rfl⟩
    · split
      · exact .refl ⟨rfl, rfl, rfl, rfl, rfl⟩
      · split
        · exact .refl ⟨rfl, rfl, rfl, rfl, rfl⟩
        · dsimp only
          split
          · split
            · exact .of_same reassertBacklight_onlyMinor ⟨rfl, rfl, rfl, rfl, rfl⟩
            · exact .refl ⟨rfl, rfl, rfl, rfl, rfl⟩
          · exact .refl ⟨rfl, rfl, rfl, rfl, rfl⟩
  | userActivity => exact .refl ⟨rfl, rfl, rfl, rfl, rfl⟩
  | screenTimeout =>
    simp only [onCommand]
    unfold cmdScreenTimeout
    split
    · exact .refl ⟨rfl, rfl, rfl, rfl, rfl⟩
    · exact .refl ⟨rfl, rfl, rfl, rfl, rfl⟩
    · exact .refl ⟨rfl, rfl, rfl, rfl, rfl⟩
    · split
      · exact .refl ⟨rfl, rfl, rfl, rfl, rfl⟩
      · exact .refl ⟨rfl, rfl, rfl, rfl, rfl⟩
    · exact .refl ⟨rfl, rfl, rfl, rfl, rfl⟩

end Brightness

/-- The cadence of an app whose call changed. -/
theorem dozeLine_eq {p : Pid} :
    ∃ fx, (∀ f ∈ fx, f.IsMinor) ∧
      (if m.dozing then (m, c.deliverToHost p (.doze (m.cadenceFor p))) else (m, c)) =
        (m, { c with effects := c.effects ++ fx }) := by
  cases m.dozing with
  | false => exact ⟨[], by simp, by simp⟩
  | true => exact ⟨[.hostLine p (.doze (m.cadenceFor p))], by simp [Effect.IsMinor], rfl⟩

theorem onCommsActive_true_eq {p : Pid} :
    SamePanel { m with comms := insert p m.comms } (m.onCommsActive p true c).1 ∧
    ∃ fx, (∀ f ∈ fx, f.IsMinor) ∧ (m.onCommsActive p true c).2 =
      { c with
        events := c.events ++ [.sensorAcquire .proximity p]
        effects := c.effects ++ fx } := by
  obtain ⟨fx, hfx, h⟩ := dozeLine_eq (m := { m with comms := insert p m.comms })
    (c := c.emit (.sensorAcquire .proximity p)) (p := p)
  have h' : m.onCommsActive p true c = _ := h
  rw [h']
  exact ⟨⟨rfl, rfl, rfl, rfl, rfl⟩, fx, hfx, rfl⟩

/-- The end of a call, in two parts. -/
theorem onCommsActive_false {p : Pid} :
    m.onCommsActive p false c =
      let r := if m.comms.erase p = ∅
        then { m with
          videoCalls := m.videoCalls.erase p
          comms := m.comms.erase p }.ensureUnblanked c
        else ({ m with videoCalls := m.videoCalls.erase p, comms := m.comms.erase p }, c)
      let c := r.2.emit (.sensorRelease .proximity p)
      if r.1.dozing then (r.1, c.deliverToHost p (.doze (r.1.cadenceFor p))) else (r.1, c) := by
  simp [onCommsActive]

/-- Without a call the blank is lifted. -/
theorem onCommsActive_false_eq {p : Pid} :
    SamePanel
      { m with
        videoCalls := m.videoCalls.erase p
        comms := m.comms.erase p
        blanked := m.blanked && decide (m.comms.erase p ≠ ∅) } (m.onCommsActive p false c).1 ∧
    ∃ fx, (∀ f ∈ fx, f.IsMinor) ∧ (m.onCommsActive p false c).2 =
      { c with
        events := c.events ++ [.sensorRelease .proximity p]
        effects := c.effects ++
          (if m.blanked ∧ m.comms.erase p = ∅ then .setDisplayPower m.panelOn ::
            (pids c.store).map fun p => .hostLine p (.inputSuppress false) else []) ++ fx } := by
  obtain ⟨hp, fx, hl, hfx⟩ := ensureUnblanked_of_idle (c := c)
    (m := { m with videoCalls := m.videoCalls.erase p, comms := m.comms.erase p })
  rw [onCommsActive_false]
  dsimp only at hp hfx ⊢
  generalize (if m.comms.erase p = ∅ then _ else _ : PowerModule × Ctx) = r at hp hfx ⊢
  obtain ⟨fx', hl', h⟩ := dozeLine_eq (m := r.1) (c := r.2.emit (.sensorRelease .proximity p))
    (p := p)
  rw [h]
  refine ⟨hp, fx ++ fx', fun f hf => (List.mem_append.mp hf).elim (hl f) (hl' f), ?_⟩
  simp only [Ctx.emit, hfx]
  simp

/-- What becomes of the calls when a process is gone. -/
theorem onSurfaceRemoved_eq {p : Pid} :
    SamePanel
      { m with
        videoCalls := m.videoCalls.erase p
        bgService := m.bgService.erase p
        comms := m.comms.erase p
        blanked := m.blanked && decide (m.comms.erase p ≠ ∅) } (m.onSurfaceRemoved p c).1 ∧
    ∃ fx, (∀ f ∈ fx, f.IsMinor) ∧ (m.onSurfaceRemoved p c).2 =
      { c with effects := c.effects ++
          (if m.blanked ∧ m.comms.erase p = ∅ then .setDisplayPower m.panelOn ::
            (pids c.store).map fun p => .hostLine p (.inputSuppress false) else []) ++ fx } :=
  ensureUnblanked_of_idle (c := c) (m := { m with
    videoCalls := m.videoCalls.erase p
    bgService := m.bgService.erase p
    comms := m.comms.erase p })

/-! ## Runs of the module -/

/-- What the module is asked. -/
inductive Stimulus
  | command (verb : Verb) (args : String)
  | event (e : Event)

section

variable [Fpu]

/-- The module answers a command or an event. -/
def respond (clock : Clock) (m : PowerModule) (i : Stimulus) (c : Ctx) : PowerModule × Ctx :=
  match i with
  | .command verb args => let r := m.onCommand clock verb args c; (r.1, r.2.1)
  | .event e => m.onEvent clock e c

/-- The states of a module that was new at first, with the effects it requested
    so far, whatever it was asked, when and over which stores. -/
inductive Run : PowerModule → List Effect → Prop
  | new : Run {} []
  | step {m : PowerModule} {fx : List Effect} (clock : Clock) (s : Store) (i : Stimulus) :
      Run m fx → Run (m.respond clock i { store := s }).1
        (fx ++ (m.respond clock i { store := s }).2.effects)

end

/-- The power the panel was last set to; it is on at first. -/
def panelPower (fx : List Effect) : Bool := Trace.last Effect.displayPower true fx

/-- An event that leaves the module without a call, or with video in it. -/
def EndsBlank (m : PowerModule) : Event → Prop
  | .commsActive p false | .surfaceRemoved p => m.comms.erase p = ∅
  | .videoCallActive _ true => True
  | _ => False

/-! ## The panel agrees with its two owners -/

/-- The panel shows what its owners want, `b` being what it showed before `fx`,
    and is blanked during calls without video only. -/
structure Lit (b : Bool) (m : PowerModule) (fx : List Effect) : Prop where
  power : Trace.last Effect.displayPower b fx = (m.panelOn && !m.blanked)
  call : m.blanked → m.comms ≠ ∅ ∧ m.videoCalls = ∅

variable {b : Bool}

/-- A handler that leaves the panel and the calls alone. -/
theorem Lit.congr {m' : PowerModule} {c' : Ctx} {fx : List Effect} (h : Lit b m c.effects)
    (hm : m'.panelOn = m.panelOn ∧ m'.blanked = m.blanked ∧ m'.comms = m.comms ∧
      m'.videoCalls = m.videoCalls)
    (hc : c'.effects = c.effects ++ fx) (hfx : ∀ f ∈ fx, f.displayPower = none) :
    Lit b m' c'.effects := by
  obtain ⟨hp, hb, hc', hv⟩ := hm
  refine ⟨?_, ?_⟩
  · rw [hc, Trace.last_append, Trace.last_of_silent hfx, h.power, hp, hb]
  · rw [hb, hc', hv]
    exact h.call

theorem Lit.onlyMinor {r : PowerModule × Ctx} (h : Lit b m c.effects) (hr : OnlyMinor m c r) :
    Lit b r.1 r.2.effects := by
  obtain ⟨hp, fx, hfx, hl⟩ := hr
  exact h.congr ⟨hp.panelOn, hp.blanked, hp.comms, hp.videoCalls⟩ (congrArg Ctx.effects hfx)
    fun f hf => (hl f hf).displayPower

theorem Lit.setPanelOn {on : Bool} (h : Lit b m c.effects) :
    Lit b (m.setPanelOn clock on c).1 (m.setPanelOn clock on c).2.effects := by
  obtain ⟨hp, fx, hl, hfx⟩ := setPanelOn_eq clock m c on
  have hs : ∀ b, Trace.last Effect.displayPower b fx = b := fun b =>
    Trace.last_of_silent fun f hf => (hl f hf).displayPower
  refine ⟨?_, ?_⟩
  · rw [hfx, Trace.last_append, hs, Trace.last_append, h.power, hp.panelOn, hp.blanked]
    cases m.blanked <;> simp [Effect.displayPower]
  · rw [hp.blanked, hp.comms, hp.videoCalls]
    exact h.call

theorem last_displayPower_suppress {ps : List Pid} {on : Bool} :
    Trace.last Effect.displayPower b (ps.map fun p => .hostLine p (.inputSuppress on)) = b := by
  refine Trace.last_of_silent fun f hf => ?_
  obtain ⟨p, -, rfl⟩ := List.mem_map.mp hf
  rfl

/-- Blanking is for calls without video. -/
theorem Lit.blank (hc : m.comms ≠ ∅) (hv : m.videoCalls = ∅) :
    Lit b (m.setPanelBlanked true c).1 (m.setPanelBlanked true c).2.effects := by
  rw [setPanelBlanked_eq]
  refine ⟨?_, fun _ => ⟨hc, hv⟩⟩
  simp [Effect.displayPower, last_displayPower_suppress]

/-- Lifting the blank restores the panel, whatever became of the calls. -/
theorem Lit.ensureUnblanked
    (h : Trace.last Effect.displayPower b c.effects = (m.panelOn && !m.blanked)) :
    Lit b (m.ensureUnblanked c).1 (m.ensureUnblanked c).2.effects := by
  obtain ⟨hp, fx, hl, hfx⟩ := ensureUnblanked_eq (m := m) (c := c)
  refine ⟨?_, fun hb => absurd hb (by simp [hp.blanked])⟩
  rw [hfx, Trace.last_append, Trace.last_of_silent fun f hf => (hl f hf).displayPower,
    Trace.last_append, h, hp.panelOn, hp.blanked]
  cases m.blanked <;> simp [Effect.displayPower, last_displayPower_suppress]

/-- Some calls ended, and the blank is lifted if none is left. -/
theorem Lit.settled {m' : PowerModule} {c' : Ctx} {comms videoCalls bgService : Finset Pid}
    {ps : List Pid} {fx : List Effect} (h : Lit b m c.effects)
    (hp : SamePanel { m with
      comms, videoCalls, bgService
      blanked := m.blanked && decide (comms ≠ ∅) } m')
    (hv : m.videoCalls = ∅ → videoCalls = ∅) (hl : ∀ f ∈ fx, f.IsMinor)
    (hc : c'.effects = c.effects ++ (if m.blanked ∧ comms = ∅ then
      .setDisplayPower m.panelOn :: ps.map fun p => .hostLine p (.inputSuppress false) else []) ++
        fx) : Lit b m' c'.effects := by
  refine ⟨?_, ?_⟩
  · rw [hc, Trace.last_append, Trace.last_of_silent fun f hf => (hl f hf).displayPower,
      Trace.last_append, h.power, hp.panelOn, hp.blanked]
    cases hb : m.blanked <;> by_cases he : comms = ∅ <;>
      simp [he, Effect.displayPower, last_displayPower_suppress]
  · rw [hp.blanked, hp.comms, hp.videoCalls]
    intro hb
    obtain ⟨hb, hne⟩ : m.blanked = true ∧ comms ≠ ∅ := by simpa using hb
    exact ⟨hne, hv (h.call hb).2⟩

theorem Lit.onSurfaceRemoved {p : Pid} (h : Lit b m c.effects) :
    Lit b (m.onSurfaceRemoved p c).1 (m.onSurfaceRemoved p c).2.effects := by
  obtain ⟨hp, fx, hl, hfx⟩ := onSurfaceRemoved_eq (m := m) (c := c) (p := p)
  exact h.settled hp (fun hv => by rw [hv, Finset.erase_empty]) hl (congrArg Ctx.effects hfx)

theorem Lit.onCommsActive {p : Pid} {active : Bool} (h : Lit b m c.effects) :
    Lit b (m.onCommsActive p active c).1 (m.onCommsActive p active c).2.effects := by
  cases active with
  | true =>
    obtain ⟨hp, fx, hl, hfx⟩ := onCommsActive_true_eq (m := m) (c := c) (p := p)
    have h' : Lit b { m with comms := insert p m.comms } c.effects :=
      ⟨h.power, fun hb => ⟨Finset.insert_ne_empty _ _, (h.call hb).2⟩⟩
    exact h'.congr ⟨hp.panelOn, hp.blanked, hp.comms, hp.videoCalls⟩ (congrArg Ctx.effects hfx)
      fun f hf => (hl f hf).displayPower
  | false =>
    obtain ⟨hp, fx, hl, hfx⟩ := onCommsActive_false_eq (m := m) (c := c) (p := p)
    exact h.settled hp (fun hv => by rw [hv, Finset.erase_empty]) hl (congrArg Ctx.effects hfx)

theorem Lit.onVideoCallActive {p : Pid} {active : Bool} (h : Lit b m c.effects) :
    Lit b (m.onVideoCallActive p active c).1 (m.onVideoCallActive p active c).2.effects := by
  unfold PowerModule.onVideoCallActive
  split
  · exact .ensureUnblanked h.power
  · refine ⟨h.power, fun hb => ⟨(h.call hb).1, ?_⟩⟩
    rw [(h.call hb).2, Finset.erase_empty]

theorem Lit.onProximityChanged {near : Bool} (h : Lit b m c.effects) :
    Lit b (m.onProximityChanged near c).1 (m.onProximityChanged near c).2.effects := by
  unfold PowerModule.onProximityChanged
  dsimp only
  split
  · next hcall =>
    obtain ⟨⟨hc, hv⟩, -⟩ : (m.comms ≠ ∅ ∧ m.videoCalls = ∅) ∧ _ := by simpa [and_assoc] using hcall
    exact .blank hc hv
  · split
    · exact .ensureUnblanked h.power
    · split
      · exact .ensureUnblanked h.power
      · exact h

theorem Lit.onIdleTick (h : Lit b m c.effects) :
    Lit b (m.onIdleTick clock c).1 (m.onIdleTick clock c).2.effects := by
  have h := h.onlyMinor (reconcileLight_onlyMinor clock)
  unfold PowerModule.onIdleTick
  generalize m.reconcileLight clock c = r at h ⊢
  obtain ⟨m', c'⟩ := r
  dsimp only at h ⊢
  split
  · exact h
  · split
    · exact h
    · split
      · exact h
      · split
        · exact ⟨h.power, h.call⟩
        · split
          · exact h.setPanelOn
          · exact h

section

variable [Fpu]

theorem Lit.onCommand {verb : Verb} {args : String} (h : Lit b m c.effects) :
    Lit b (m.onCommand clock verb args c).1 (m.onCommand clock verb args c).2.1.effects := by
  by_cases hr : verb = .reportPowerClass
  · subst hr
    simp only [PowerModule.onCommand]
    unfold cmdReportClass
    split
    · split
      · exact h
      · exact ⟨h.power, h.call⟩
    · exact h
  by_cases hk : verb = .powerKey
  · subst hk
    exact h.setPanelOn
  by_cases hp : verb = .panel
  · subst hp
    simp only [PowerModule.onCommand]
    unfold cmdPanel
    dsimp only
    split
    · exact h.setPanelOn
    · exact h
  exact h.onlyMinor (onCommand_onlyMinor hr hk hp)

theorem Lit.onEvent {e : Event} (h : Lit b m c.effects) :
    Lit b (m.onEvent clock e c).1 (m.onEvent clock e c).2.effects := by
  unfold PowerModule.onEvent
  split
  · exact h.onlyMinor onScreenState_onlyMinor
  · exact h.onSurfaceRemoved
  · exact h.onCommsActive
  · exact h.onVideoCallActive
  · exact h.onProximityChanged
  · exact h.onlyMinor onLight_onlyMinor
  · exact h.onIdleTick
  · exact h

/-- What the module is asked to do, it does to the panel on top of what it did
    before. -/
theorem Lit.respond (clock : Clock) (i : Stimulus) (s : Store) (h : Lit b m []) :
    Lit b (m.respond clock i { store := s }).1 (m.respond clock i { store := s }).2.effects := by
  cases i with
  | command verb args => exact Lit.onCommand (c := { store := s }) h
  | event e => exact Lit.onEvent (c := { store := s }) h

theorem Run.lit {fx : List Effect} (h : Run m fx) : Lit true m fx := by
  induction h with
  | new => exact ⟨rfl, fun hb => absurd hb Bool.false_ne_true⟩
  | @step m fx clock s i _ ih =>
    have hr : Lit (panelPower fx) _ _ := Lit.respond clock i s ⟨ih.power, ih.call⟩
    exact ⟨(Trace.last_append ..).trans hr.power, hr.call⟩

/-- The panel power the user sees is not changed by an event that ends a blank. -/
theorem panelOn_of_endsBlank (clock : Clock) (c : Ctx) {e : Event} (h : m.EndsBlank e) :
    (m.onEvent clock e c).1.panelOn = m.panelOn ∧ (m.onEvent clock e c).1.blanked = false := by
  cases e with
  | commsActive p active =>
    cases active with
    | true => exact absurd h id
    | false =>
      have hp := (onCommsActive_false_eq (m := m) (c := c) (p := p)).1
      exact ⟨hp.panelOn, hp.blanked.trans (by simp [show m.comms.erase p = ∅ from h])⟩
  | surfaceRemoved p =>
    have hp := (onSurfaceRemoved_eq (m := m) (c := c) (p := p)).1
    exact ⟨hp.panelOn, hp.blanked.trans (by simp [show m.comms.erase p = ∅ from h])⟩
  | videoCallActive p active =>
    cases active with
    | true =>
      have hp := (ensureUnblanked_eq (m := { m with videoCalls := insert p m.videoCalls })
        (c := c)).1
      exact ⟨hp.panelOn, hp.blanked⟩
    | false => exact absurd h id
  | _ => exact absurd h id

/-- The panel is on exactly when the user wants it on and nothing blanks it; it
    is blanked during calls without video only, and an event that leaves no such
    call restores it. -/
theorem panel_never_lost {fx : List Effect} (h : Run m fx) :
    panelPower fx = (m.panelOn && !m.blanked) ∧
    (m.blanked → m.comms ≠ ∅ ∧ m.videoCalls = ∅) ∧
    ∀ clock s e, m.EndsBlank e →
      (m.respond clock (.event e) { store := s }).1.panelOn = m.panelOn ∧
      panelPower (fx ++ (m.respond clock (.event e) { store := s }).2.effects) = m.panelOn := by
  refine ⟨h.lit.power, h.lit.call, fun clock s e he => ?_⟩
  have hm := panelOn_of_endsBlank clock { store := s } he
  refine ⟨hm.1, ?_⟩
  have hl : panelPower _ = (_ && !_) := (Run.step clock s (.event e) h).lit.power
  rw [hl, show (m.respond clock (.event e) { store := s }).1 = _ from rfl]
  simp only [respond, hm.1, hm.2, Bool.not_false, Bool.and_true]

end

attribute [local instance] Fpu.comparator in
/-- A call with the phone at the ear, hung up there: the panel comes back. -/
theorem panel_never_lost_hangUp :
    let c : Clock := ⟨0, 0⟩
    let m := (respond c (respond c {} (.event (.commsActive 7 true)) ⟨{}, [], [], false⟩).1
      (.event (.proximityChanged true)) ⟨{}, [], [], false⟩).1
    m.blanked = true ∧
      (respond c m (.event (.commsActive 7 false)) ⟨{}, [], [], false⟩).1.panelOn = true :=
  ⟨by decide, ((panel_never_lost (.step ⟨0, 0⟩ {} (.event (.proximityChanged true))
    (.step ⟨0, 0⟩ {} (.event (.commsActive 7 true)) .new))).2.2 ⟨0, 0⟩ {} (.commsActive 7 false)
      (show (_ : Finset Pid) = ∅ by decide)).1⟩

end PowerModule

end Wandr
