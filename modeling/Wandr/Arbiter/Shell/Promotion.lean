import Wandr.Arbiter.Discipline

/-!
# Foreground promotion

What the command `foreground` leaves on the display. The app promoted is looked at, with the
overlay it wants; the app looked at before is in the background, unless it is the input method
that goes on top of the app promoted.

* `Shell.cleared`: the stage is cleared for the app, and then the overlay is derived for it
  (`Shell.reconcileOverlay_full`);
* `Shell.foreground_promotes` puts the two together, and `Shell.overlaid_before` is a display
  where the app looked at before becomes the overlay.
-/

namespace Wandr

namespace Shell

open DisplayState

variable {c : Ctx} {st : Stage} {p q v : Pid} {a : String}

/-! ## Clearing the stage -/

/-- What `promoteToForeground` does before it places the app. -/
def cleared (c : Ctx) (p : Pid) : Ctx :=
  let c := if overlayEngaged c.store then (demoteFromOverlay c).1 else c
  match rolePid c.store .foreground with
  | some (prev, _) => if prev ≠ p then dropEditorFocusOf (apply c prev .background) prev else c
  | none => c

theorem promoteToForeground_eq : promoteToForeground c a p =
    (reconcileOverlay (place (cleared c p) p a .foreground)).emit
      (.foregroundChanged (some a) (some p)) := rfl

theorem panicked_demoteFromOverlay : (demoteFromOverlay c).1.panicked = c.panicked := by
  unfold demoteFromOverlay
  split
  · rfl
  · dsimp only
    split <;> rfl

theorem isSome_roleOf_demoteFromOverlay :
    ((demoteFromOverlay c).1.store.primary.roleOf q).isSome =
      (c.store.primary.roleOf q).isSome := by
  unfold demoteFromOverlay
  split
  · rfl
  · dsimp only
    split
    · simp only [primary_apply, isSome_roleOf_setRole]
    · simp only [primary_apply, isSome_roleOf_setRole]

/-- The display after the stage is cleared, the app looked at before being `v`. -/
structure Cleared (c c' : Ctx) (p : Pid) : Prop where
  alone : ∀ q, q ≠ p → c'.store.primary.shown q = none
  demoted : ∀ v, c.store.primary.visibleApp = some v → v ≠ p →
    c'.store.primary.roleOf v = some .background ∧
      c'.store.primary.imeEditor.map Prod.fst ≠ some v
  present : ∀ q, (c'.store.primary.roleOf q).isSome = (c.store.primary.roleOf q).isSome
  activeIme : c'.store.primary.activeIme = c.store.primary.activeIme
  panicked : c'.panicked = c.panicked

theorem cleared_spec (h : c.store.primary.OnStage st) : Cleared c (cleared c p) p := by
  -- First an overlay split is torn down.
  have hdown : ∃ c₁, cleared c p = (match rolePid c₁.store .foreground with
      | some (prev, _) =>
        if prev ≠ p then dropEditorFocusOf (apply c₁ prev .background) prev else c₁
      | none => c₁) ∧ c₁.store.primary.OnStage st.demote ∧
      (∀ q, (c₁.store.primary.roleOf q).isSome = (c.store.primary.roleOf q).isSome) ∧
      c₁.store.primary.activeIme = c.store.primary.activeIme ∧ c₁.panicked = c.panicked := by
    refine ⟨_, rfl, ?_⟩
    rw [overlayEngaged_eq, h.overlayEngaged]
    split
    · exact ⟨demoteFromOverlay_onStage h, fun _ => isSome_roleOf_demoteFromOverlay,
        demoteFromOverlay_ime.1, panicked_demoteFromOverlay⟩
    · refine ⟨?_, fun _ => rfl, rfl, rfl⟩
      cases st with
      | split => simp [Stage.overlay] at *
      | _ => exact h
  obtain ⟨c₁, heq, h₁, hpres, hime, hpan⟩ := hdown
  have hfront := pid_rolePid_foreground h₁
  have hvis : st.demote.front = c.store.primary.visibleApp := by
    rw [h.visibleApp]
    cases st with
    | split o b => exact Stage.front_ofApp
    | _ => rfl
  have hsolo (q : Pid) (hq : st.demote.front ≠ some q) : c₁.store.primary.shown q = none := by
    rw [h₁ q]
    cases st with
    | empty => rfl
    | full w => exact if_neg fun hw => hq (congrArg some hw.symm)
    | split o b =>
      cases b with
      | none => rfl
      | some w => exact if_neg fun hw => hq (congrArg some hw.symm)
  rw [heq]
  -- Then the app in the foreground goes to the background.
  cases hr : rolePid c₁.store .foreground with
  | none =>
    have hnone : st.demote.front = none := by rw [← hfront, hr]; rfl
    exact
      { alone := fun q _ => hsolo q (by rw [hnone]; exact (Option.some_ne_none q).symm)
        demoted := fun v hv => by
          rw [← hvis, hnone] at hv
          cases hv
        present := hpres
        activeIme := hime
        panicked := hpan }
  | some x =>
    have hx : st.demote.front = some x.1 := by rw [← hfront, hr]; rfl
    by_cases hxp : x.1 = p
    · simp only [hxp, ne_eq, not_true, if_false]
      exact
        { alone := fun q hq => hsolo q (by rw [hx, hxp]; simpa using Ne.symm hq)
          demoted := fun v hv hne => by
            rw [← hvis, hx, hxp] at hv
            exact absurd (Option.some.inj hv).symm hne
          present := hpres
          activeIme := hime
          panicked := hpan }
    · simp only [hxp, ne_eq, not_false_iff, if_true]
      have hroles (q : Pid) :
          (dropEditorFocusOf (apply c₁ x.1 .background) x.1).store.primary.roleOf q =
            (c₁.store.primary.setRole x.1 .background).roleOf q := by
        rw [primary_dropEditorFocusOf, primary_apply]
        rfl
      exact
        { alone := fun q _ => by
            rw [shown, hroles]
            by_cases hq : q = x.1
            · exact (shown_setRole_of_off rfl).trans (if_pos hq)
            · refine ((shown_setRole_of_off rfl).trans (if_neg hq)).trans (hsolo q ?_)
              rw [hx]
              simpa using Ne.symm hq
          demoted := fun v hv _ => by
            rw [← hvis, hx] at hv
            obtain rfl := Option.some.inj hv
            have hfg : c₁.store.primary.roleOf x.1 = some .foreground :=
              h₁.roleOf_foreground.mpr hx
            refine ⟨?_, ?_⟩
            · rw [hroles, roleOf_setRole, if_pos rfl, hfg]
              rfl
            · rw [primary_dropEditorFocusOf]
              dsimp only
              split
              · exact (Option.some_ne_none x.1).symm
              · assumption
          present := fun q => by rw [hroles, isSome_roleOf_setRole, hpres]
          activeIme := by
            rw [primary_dropEditorFocusOf, primary_apply]
            exact hime
          panicked := panicked_dropEditorFocusOf.trans hpan }

/-! ## Deriving the overlay -/

/-- The display after the overlay is derived for an app that is alone. -/
structure Derived (c c' : Ctx) (p : Pid) : Prop where
  visible : c'.store.primary.visibleApp = some p
  onStage : ∃ st, c'.store.primary.OnStage st ∧ st.overlay = c.store.primary.overlayDesired
  desired : c'.store.primary.overlayDesired = c.store.primary.overlayDesired
  roles : ∀ q, q ≠ p → c'.store.primary.roleOf q =
    if c.store.primary.overlayDesired = some q then some .overlay else c.store.primary.roleOf q
  imeEditor : c'.store.primary.imeEditor = c.store.primary.imeEditor
  panicked : c'.panicked = c.panicked

theorem reconcileOverlay_full (h : c.store.primary.OnStage (.full p))
    (hp : ∀ i, c.store.primary.activeIme = some i → (c.store.primary.roleOf i).isSome) :
    Derived c (reconcileOverlay c) p := by
  have hvis : c.store.primary.visibleApp = some p := h.visibleApp
  unfold reconcileOverlay
  simp only [overlayDesired_eq, overlayEngaged_eq, h.overlayEngaged, Stage.overlay,
    Option.isSome_none]
  cases hw : c.store.primary.overlayDesired with
  | none =>
    exact
      { visible := hvis
        onStage := ⟨_, h, hw.symm⟩
        desired := rfl
        roles := fun q _ => by rw [hw, if_neg (Option.some_ne_none q).symm]
        imeEditor := rfl
        panicked := rfl }
  | some i =>
    obtain ⟨hime, v, info, hed, hv, hne⟩ := overlayDesired_eq_some_iff.mp hw
    obtain rfl : p = v := Option.some.inj (hvis.symm.trans hv)
    -- The input method has a surface.
    obtain ⟨f, hf⟩ : ∃ f, c.store.primary.surfaces.get? i = some f := by
      have hi := hp i hime
      rw [roleOf, Option.isSome_map] at hi
      exact Option.isSome_iff_exists.mp hi
    have hact : activeIme c.store = some (i, f.appId) := by
      rw [activeIme_eq, activeImeSurface, hime, Option.bind_some, surface, hf, Option.map_some,
        Table.key_of_get? hf]
    have hfg : rolePid c.store .foreground = some (p, ((rolePid c.store .foreground).map
        Prod.snd).getD "") := by
      have hpid := pid_rolePid_foreground h
      cases hr : rolePid c.store .foreground with
      | none =>
        rw [hr] at hpid
        cases hpid
      | some x =>
        rw [hr] at hpid
        obtain rfl : x.1 = p := Option.some.inj hpid
        rfl
    have hst : (promoteToOverlay c f.appId i (visibleApp c.store)).1.store.primary.OnStage
        (.split i (some p) _) := promoteToOverlay_of_front h rfl hne.symm
    have hkept := promoteToOverlay_ime (c := c) (a := f.appId) (p := i) (o := visibleApp c.store)
    simp only [hact]
    have hdes : (promoteToOverlay c f.appId i (visibleApp c.store)).1.store.primary.overlayDesired =
        some i := by
      rw [← hw]
      exact overlayDesired_congr hkept.1 hkept.2 (by rw [hst.visibleApp, hvis]; rfl)
    exact
      { visible := hst.visibleApp
        onStage := ⟨_, hst, hw.symm⟩
        desired := hdes.trans hw.symm
        roles := fun q hq => by
          rw [promoteToOverlay, hfg]
          simp only [ne_eq, hne.symm, not_false_iff, if_true, primary_place, primary_apply]
          rw [roleOf_putSurface, roleOf_setRole, if_neg hq, hw]
          simp only [Option.some.injEq, eq_comm]
        imeEditor := hkept.2
        panicked := by
          rw [promoteToOverlay, hfg]
          simp only [ne_eq, hne.symm, not_false_iff, if_true]
          rfl }

variable {x : String} {s : AppState}

/-- The app promoted is looked at, on a disciplined display with the overlay it wants; the app
    looked at before loses the focus of its editor and goes to the background, unless it is the
    overlay wanted. -/
theorem foreground_promotes (hd : c.store.primary.Disciplined)
    (hi : ∀ i, c.store.primary.activeIme = some i → (c.store.primary.roleOf i).isSome)
    (hx : c.store.app x = some s) (hne : x ≠ "") :
    let c' := (cmdForeground c x).1
    c'.panicked = c.panicked ∧ c'.store.primary.visibleApp = some s.pid ∧
      c'.store.primary.Disciplined ∧
      (∀ v, c.store.primary.visibleApp = some v → v ≠ s.pid →
        c'.store.primary.roleOf v =
            some (if c'.store.primary.overlayDesired = some v then .overlay else .background) ∧
          c'.store.primary.imeEditor.map Prod.fst ≠ some v) ∧
      c'.store.primary.overlayEngaged = c'.store.primary.overlayDesired.isSome := by
  obtain ⟨st, hst⟩ := hd.onStage
  have hc : Cleared c (cleared c s.pid) s.pid := cleared_spec hst
  have hplace : (place (cleared c s.pid) s.pid s.appId .foreground).store.primary.OnStage
      (.full s.pid) := by
    intro q
    rw [primary_place, shown_putSurface_of_on rfl, Stage.role]
    split
    · rfl
    · next hq => exact hc.alone q hq
  have hr := reconcileOverlay_full hplace fun i hime => by
    rw [primary_place, activeIme_putSurface, hc.activeIme] at hime
    rw [primary_place, roleOf_putSurface]
    split
    · rfl
    · rw [hc.present]
      exact hi i hime
  have heq : (cmdForeground c x).1 = promoteToForeground c s.appId s.pid := by
    rw [cmdForeground, if_neg hne, hx]
  obtain ⟨st', hst', hover⟩ := hr.onStage
  rw [heq, promoteToForeground_eq]
  refine ⟨hr.panicked.trans hc.panicked, hr.visible, hst'.disciplined, fun v hv hvp => ⟨?_, ?_⟩, ?_⟩
  · rw [Ctx.store_emit, hr.roles v hvp]
    by_cases hw : (place (cleared c s.pid) s.pid s.appId .foreground).store.primary.overlayDesired =
        some v
    · rw [if_pos hw, if_pos (hr.desired.trans hw)]
    · rw [if_neg hw, if_neg fun h => hw (hr.desired.symm.trans h), primary_place, roleOf_putSurface,
        if_neg hvp, (hc.demoted v hv hvp).1]
  · rw [Ctx.store_emit, hr.imeEditor, primary_place, imeEditor_putSurface]
    exact (hc.demoted v hv hvp).2
  · rw [Ctx.store_emit, hst'.overlayEngaged, hover, hr.desired]

section

attribute [local instance] Fpu.comparator

open Arbiter

/-- Two apps are registered, the one an input method, which is brought to the foreground; then
    the other one's editor takes the focus. -/
def imeInFront : Arbiter :=
  (respondAll buildRegistry ⟨0, 0⟩ {} [.command (.shell .registerChrome) "a 1 -",
    .command (.shell .registerChrome) "k 2 -", .command (.shell .setIme) "k",
    .command (.shell .foreground) "k", .command (.shell .attachEditor) "1 text"]).1

theorem imeInFront_disciplined : imeInFront.store.primary.Disciplined := by
  have h₀ : Offstage ({} : Arbiter).store.primary := fun p r h => nomatch h
  obtain ⟨fx, h⟩ : ∃ fx, Run buildRegistry (OfShell False) {} imeInFront fx :=
    ⟨_, Run.start.respondAll ⟨fun p _ => .of_none (by decide) (by decide), by decide,
      fun p _ => .of_none (by decide) (by decide), by decide, fun h => h.elim, by decide, trivial,
      by decide, trivial, by decide, trivial⟩⟩
  obtain ⟨st, hst, -⟩ := h.staged h₀.staged
  exact hst.disciplined

theorem imeInFront_activeIme (i : Pid) (h : imeInFront.store.primary.activeIme = some i) :
    (imeInFront.store.primary.roleOf i).isSome := by
  have hi : imeInFront.store.primary.activeIme = some 2 := by decide
  obtain rfl := Option.some.inj (hi.symm.trans h)
  decide

theorem foreground_promotes_ime :
    let c' := (cmdForeground { store := imeInFront.store } "a").1
    c'.store.primary.visibleApp = some 1 ∧ c'.store.primary.roleOf 2 = some .overlay := by
  obtain ⟨s, hs, hp⟩ : ∃ s, imeInFront.store.app "a" = some s ∧ s.pid = 1 := ⟨_, rfl, by decide⟩
  have h := foreground_promotes (c := { store := imeInFront.store }) imeInFront_disciplined
    imeInFront_activeIme hs (by decide)
  obtain ⟨-, hv, -, hdem, -⟩ := h
  refine ⟨hp ▸ hv, ?_⟩
  rw [(hdem 2 (by decide) (by rw [hp]; decide)).1, if_pos (by decide)]

/-- The app looked at before is not always in the background. -/
theorem overlaid_before :
    ¬ ∀ (c : Ctx) (x : String) (s : AppState), c.store.primary.Disciplined →
      (∀ i, c.store.primary.activeIme = some i → (c.store.primary.roleOf i).isSome) →
      c.store.app x = some s → ∀ v, c.store.primary.visibleApp = some v → v ≠ s.pid →
        (cmdForeground c x).1.store.primary.roleOf v = some .background := by
  intro h
  obtain ⟨s, hs, hp⟩ : ∃ s, imeInFront.store.app "a" = some s ∧ s.pid = 1 := ⟨_, rfl, by decide⟩
  have hb := h { store := imeInFront.store } "a" s imeInFront_disciplined imeInFront_activeIme hs 2
    (by decide) (by rw [hp]; decide)
  exact absurd hb (by decide)

end

end Shell

end Wandr
