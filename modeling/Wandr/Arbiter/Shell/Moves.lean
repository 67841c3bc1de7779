import Wandr.Arbiter.Stage

/-!
# The moves of the shell

What the shell does to the roles of the surfaces, as moves of the stage.

* `Shell.demoteFromOverlay_onStage` and `Shell.promoteToOverlay_onStage`: an
  overlay goes, and one comes;
* `Shell.reconcileOverlay_staged`: the shell derives the overlay from what the
  display wants, and `Shell.promoteToForeground_staged`,
  `Shell.onForegroundChanged_staged` and `Shell.onSurfaceRemoved_staged` end so;
* `Shell.killApp_staged`: killing an app skips the derivation, and is a move of the
  stage only when the app is no side of an overlay.
-/

namespace Wandr

namespace Shell

open DisplayState

variable {c : Ctx} {st : Stage} {p q : Pid} {a : String} {r : Role}

@[simp] theorem primary_apply : (apply c p r).store.primary = c.store.primary.setRole p r := by
  simp [apply]

@[simp] theorem primary_place :
    (place c p a r).store.primary = c.store.primary.putSurface p a r := by
  simp [place]

theorem shown_markBehind (hp : (c.store.primary.roleOf p).isSome) :
    (markBehind c (some p)).store.primary.shown q =
      if q = p then some .overlayBehind else c.store.primary.shown q := by
  simp only [markBehind, Ctx.store_modifyPrimary, Store.primary_modifyDisplay]
  exact shown_setRole_of_on rfl hp

section

variable (h : c.store.primary.OnStage st)

include h

theorem pid_rolePid_foreground : (rolePid c.store .foreground).map Prod.fst = st.front := by
  rw [rolePid_eq, Option.map_map]
  exact h.pid_foreground

theorem pid_rolePid_overlay : (rolePid c.store .overlay).map Prod.fst = st.overlay := by
  rw [rolePid_eq, Option.map_map]
  exact h.pid_overlay

theorem pid_rolePid_overlayBehind : (rolePid c.store .overlayBehind).map Prod.fst = st.behind := by
  rw [rolePid_eq, Option.map_map]
  exact h.pid_overlayBehind

theorem demoteFromOverlay_onStage : (demoteFromOverlay c).1.store.primary.OnStage st.demote := by
  unfold demoteFromOverlay
  have ho := pid_rolePid_overlay h
  have hb := pid_rolePid_overlayBehind h
  rw [hb]
  cases hr : rolePid c.store .overlay with
  | none =>
    rw [hr] at ho
    cases st with
    | split o b => cases ho
    | _ => exact h
  | some x =>
    rw [hr] at ho
    cases st with
    | split o b hne =>
      have hx : x.1 = o := Option.some.inj ho
      subst hx
      cases b with
      | none =>
        intro q
        have hq := h q
        simp only [Stage.behind, primary_apply, Stage.demote, Stage.ofApp, Stage.role] at hq ⊢
        rw [shown_setRole_of_off rfl, hq]
        grind
      | some b =>
        have hrb : c.store.primary.roleOf b = some .overlayBehind := h.roleOf_overlayBehind.mpr rfl
        intro q
        have hq := h q
        simp only [Stage.behind, primary_apply, Stage.demote, Stage.ofApp, Stage.role] at hq ⊢
        rw [shown_setRole_of_on rfl (by rw [isSome_roleOf_setRole, hrb]; rfl),
          shown_setRole_of_off rfl, hq]
        grind
    | _ => cases ho

theorem pid_foregroundSlot : (foregroundSlot c.store).map Prod.fst = st.overlay.or st.front := by
  rw [foregroundSlot_eq, Option.map_map, DisplayState.foregroundSlot, ← h.pid_overlay,
    ← h.pid_foreground, ← Option.map_or]
  rfl

/-- The overlay of another process goes on top of the app in the foreground. -/
theorem promoteToOverlay_of_front {v : Pid} {hint : Option Pid} (hv : st.front = some v)
    (hne : v ≠ p) :
    (promoteToOverlay c a p hint).1.store.primary.OnStage
      (.split p (some v) (by simpa using hne)) := by
  have hf := pid_rolePid_foreground h
  rw [hv] at hf
  obtain ⟨x, hx, rfl⟩ := Option.map_eq_some_iff.mp hf
  have hr : c.store.primary.roleOf x.1 = some .foreground := h.roleOf_foreground.mpr hv
  unfold promoteToOverlay
  intro q
  have hq := h q
  cases st with
  | full w =>
    cases hv
    simp only [hx, if_pos hne, primary_place, primary_apply, Stage.role] at hq ⊢
    rw [shown_putSurface_of_on rfl, shown_setRole_of_on rfl (by rw [hr]; rfl), hq]
    grind
  | _ => cases hv

/-- With no other app in the foreground the hint is marked as the app behind. -/
theorem shown_promoteToOverlay {hint : Option Pid} (hv : st.front = none ∨ st.front = some p) :
    (promoteToOverlay c a p hint).1.store.primary.shown q =
      if q = p then some .overlay else (markBehind c hint).store.primary.shown q := by
  have hf := pid_rolePid_foreground h
  unfold promoteToOverlay
  cases hx : rolePid c.store .foreground with
  | none =>
    simp only [primary_place]
    exact shown_putSurface_of_on rfl
  | some x =>
    have hxp : x.1 = p := by
      rw [hx] at hf
      rcases hv with hv | hv
      · rw [hv] at hf
        cases hf
      · exact Option.some.inj (hf.trans hv)
    simp only [hxp, ne_eq, not_true, if_false, primary_place]
    exact shown_putSurface_of_on rfl

/-- The manual overlay, whose hint is the process in the foreground slot. It makes
    a second app behind only of an overlay on top of an app that is neither. -/
theorem promoteToOverlay_onStage
    (hp : ∀ o b, st.overlay = some o → st.behind = some b → p = o ∨ p = b) :
    ∃ st', (promoteToOverlay c a p ((foregroundSlot c.store).map Prod.fst)).1.store.primary.OnStage
      st' := by
  rw [pid_foregroundSlot h]
  cases st with
  | empty =>
    refine ⟨.split p none (by simp), fun q => ?_⟩
    rw [shown_promoteToOverlay h (.inl rfl)]
    simp [Stage.overlay, Stage.front, markBehind, h q, Stage.role]
  | full v =>
    by_cases hv : v = p
    · subst hv
      have hr : c.store.primary.roleOf v = some .foreground := h.roleOf_foreground.mpr rfl
      refine ⟨.split v none (by simp), fun q => ?_⟩
      have hq := h q
      simp only [Stage.overlay, Stage.front, Option.none_or, Stage.role] at hq ⊢
      rw [shown_promoteToOverlay h (.inr rfl), shown_markBehind (by rw [hr]; rfl), hq]
      grind
    · exact ⟨_, promoteToOverlay_of_front h rfl hv⟩
  | split o b hne =>
    have hr : c.store.primary.roleOf o = some .overlay := h.roleOf_overlay.mpr rfl
    have hs (q : Pid) : (promoteToOverlay c a p (some o)).1.store.primary.shown q =
        if q = p then some .overlay else if q = o then some .overlayBehind
        else if b = some q then some .overlayBehind else none := by
      rw [shown_promoteToOverlay h (.inl rfl), shown_markBehind (by rw [hr]; rfl), h q, Stage.role]
      grind
    by_cases hpo : p = o
    · subst hpo
      refine ⟨.split p b hne, fun q => ?_⟩
      rw [Stage.overlay, Option.some_or, hs q, Stage.role]
      grind
    · refine ⟨.split p (some o) (by simpa using Ne.symm hpo), fun q => ?_⟩
      rw [Stage.overlay, Option.some_or, hs q, Stage.role]
      have hb : ∀ b', b = some b' → p = b' := fun b' hb =>
        (hp o b' rfl hb).resolve_left hpo
      grind

omit h in
/-- The moves leave the input method and the editor alone. -/
theorem promoteToOverlay_ime {o : Option Pid} :
    (promoteToOverlay c a p o).1.store.primary.activeIme = c.store.primary.activeIme ∧
      (promoteToOverlay c a p o).1.store.primary.imeEditor = c.store.primary.imeEditor := by
  unfold promoteToOverlay
  cases rolePid c.store .foreground with
  | none => cases o <;> simp [markBehind]
  | some x =>
    dsimp only
    split
    · simp
    · cases o <;> simp [markBehind]

omit h in
theorem demoteFromOverlay_ime :
    (demoteFromOverlay c).1.store.primary.activeIme = c.store.primary.activeIme ∧
      (demoteFromOverlay c).1.store.primary.imeEditor = c.store.primary.imeEditor := by
  unfold demoteFromOverlay
  cases rolePid c.store .overlay with
  | none => exact ⟨rfl, rfl⟩
  | some x => cases (rolePid c.store .overlayBehind).map Prod.fst <;> simp

/-- An overlay wanted and missing goes on top of the visible app. -/
theorem reconcileOverlay_promotes {D : Prop} {i : Pid}
    (hi : c.store.primary.overlayDesired = some i) (ho : st.overlay = none)
    (hp : (reconcileOverlay c).panicked = false) :
    (reconcileOverlay c).store.primary.Staged D := by
  obtain ⟨hime, v, info, hed, hvis, hne⟩ := overlayDesired_eq_some_iff.mp hi
  have hst : st = .full v := by
    rw [h.visibleApp] at hvis
    cases st with
    | empty => cases hvis
    | full w => exact congrArg Stage.full (Option.some.inj hvis)
    | split o b => cases ho
  subst hst
  unfold reconcileOverlay at hp ⊢
  simp only [overlayDesired_eq, hi, overlayEngaged_eq, h.overlayEngaged, ho, Option.isSome_none]
    at hp ⊢
  cases ha : activeIme c.store with
  | none =>
    rw [ha] at hp
    cases hp
  | some x =>
    have hx : x.1 = i := by
      rw [activeIme_eq, activeImeSurface, hime] at ha
      obtain ⟨f, hf, rfl⟩ := Option.map_eq_some_iff.mp ha
      have hf : c.store.primary.surfaces.get? i = some f := hf
      have hk : f.pid = i := Table.key_of_get? hf
      exact hk
    dsimp only
    have hst : (promoteToOverlay c x.2 x.1 (visibleApp c.store)).1.store.primary.OnStage
        (.split x.1 (some v) _) := promoteToOverlay_of_front h rfl (by rw [hx]; exact hne.symm)
    have hime' := promoteToOverlay_ime (c := c) (a := x.2) (p := x.1) (o := visibleApp c.store)
    refine ⟨_, hst, fun _ => ?_⟩
    rw [overlayDesired_congr hime'.1 hime'.2 (by rw [hst.visibleApp, hvis]; rfl), hi, Stage.overlay,
      hx]

/-- The shell makes the overlay agree with what the display wants, unless the
    overlay there is another one than the one wanted. -/
theorem reconcileOverlay_staged {D : Prop}
    (hw : D → ∀ o i, st.overlay = some o → c.store.primary.overlayDesired = some i → o = i)
    (hp : (reconcileOverlay c).panicked = false) :
    (reconcileOverlay c).store.primary.Staged D := by
  cases hi : c.store.primary.overlayDesired with
  | some i =>
    cases ho : st.overlay with
    | none => exact reconcileOverlay_promotes h hi ho hp
    | some o =>
      have hr : reconcileOverlay c = c := by
        unfold reconcileOverlay
        simp [hi, h.overlayEngaged, ho]
      rw [hr]
      refine ⟨st, h, fun hD => ?_⟩
      rw [ho, hi, hw hD o i ho hi]
  | none =>
    cases ho : st.overlay with
    | none =>
      have hr : reconcileOverlay c = c := by
        unfold reconcileOverlay
        simp [hi, h.overlayEngaged, ho]
      rw [hr]
      exact ⟨st, h, fun _ => by rw [ho, hi]⟩
    | some o =>
      have hr : reconcileOverlay c = (demoteFromOverlay c).1 := by
        unfold reconcileOverlay
        simp [hi, h.overlayEngaged, ho]
      have hst := demoteFromOverlay_onStage h
      rw [hr]
      refine ⟨_, hst, fun _ => ?_⟩
      have hime := demoteFromOverlay_ime (c := c)
      rw [overlayDesired_congr hime.1 hime.2 (by rw [hst.visibleApp, h.visibleApp,
        Stage.visible_demote]), hi, Stage.overlay_demote]

end

/-! ### The focus of an editor -/

theorem primary_dropEditorFocusOf : (dropEditorFocusOf c p).store.primary =
    { c.store.primary with
      imeEditor := if c.store.primary.imeEditor.map Prod.fst = some p then none
        else c.store.primary.imeEditor } := by
  unfold dropEditorFocusOf
  rw [imeEditor_eq]
  by_cases hf : c.store.primary.imeEditor.map Prod.fst = some p
  · simp only [hf, ne_eq, not_true, if_false, if_true, Ctx.store_emit]
    split <;> simp
  · simp [hf]

theorem panicked_dropEditorFocusOf : (dropEditorFocusOf c p).panicked = c.panicked := by
  unfold dropEditorFocusOf
  split
  · rfl
  · simp only [Ctx.panicked_emit]
    split <;> rfl

/-- Without the focus of an editor no other overlay is wanted. -/
theorem overlayDesired_dropEditorFocusOf {i : Pid}
    (h : (dropEditorFocusOf c p).store.primary.overlayDesired = some i) :
    c.store.primary.overlayDesired = some i := by
  rw [overlayDesired_eq_some_iff, primary_dropEditorFocusOf] at h
  obtain ⟨hi, v, info, he, hv, hne⟩ := h
  refine overlayDesired_eq_some_iff.mpr ⟨hi, v, info, ?_, hv, hne⟩
  dsimp only at he
  split at he
  · cases he
  · exact he

theorem dropEditorFocusOf_onStage (h : c.store.primary.OnStage st) :
    (dropEditorFocusOf c p).store.primary.OnStage st :=
  h.congr (by rw [primary_dropEditorFocusOf])

/-! ### The reactions that derive the overlay again -/

section

variable {D : Prop} (h : c.store.primary.OnStage st)

/-- An app placed where nobody else is on stage. -/
theorem reconcileOverlay_place (hs : ∀ q, q ≠ p → c.store.primary.shown q = none)
    (hp : (reconcileOverlay (place c p a .foreground)).panicked = false) :
    (reconcileOverlay (place c p a .foreground)).store.primary.Staged D := by
  have hst : (place c p a .foreground).store.primary.OnStage (.full p) := by
    intro q
    rw [primary_place, shown_putSurface_of_on rfl, Stage.role]
    split
    · rfl
    · next hq => exact hs q hq
  refine reconcileOverlay_staged hst (fun _ o i ho => ?_) hp
  cases ho

include h

/-- The app promoted has the stage to itself, with the overlay it wants. -/
theorem promoteToForeground_staged (hp : (promoteToForeground c a p).panicked = false) :
    (promoteToForeground c a p).store.primary.Staged D := by
  have hdown : (if overlayEngaged c.store then (demoteFromOverlay c).1 else c).store.primary.OnStage
      st.demote := by
    rw [overlayEngaged_eq, h.overlayEngaged]
    split
    · exact demoteFromOverlay_onStage h
    · cases st with
      | split => simp [Stage.overlay] at *
      | _ => exact h
  unfold promoteToForeground at hp ⊢
  generalize (if overlayEngaged c.store then (demoteFromOverlay c).1 else c) = c₁ at hdown hp ⊢
  have hfront := pid_rolePid_foreground hdown
  have hsolo (q : Pid) (hq : st.demote.front ≠ some q) : c₁.store.primary.shown q = none := by
    rw [hdown q]
    cases st with
    | empty => rfl
    | full w => exact if_neg fun hw => hq (congrArg some hw.symm)
    | split o b =>
      cases b with
      | none => rfl
      | some w => exact if_neg fun hw => hq (congrArg some hw.symm)
  cases hr : rolePid c₁.store .foreground with
  | none =>
    simp only [hr] at hp ⊢
    refine reconcileOverlay_place (fun q _ => hsolo q ?_) hp
    rw [← hfront, hr]
    simp
  | some x =>
    simp only [hr] at hp ⊢
    have hx : st.demote.front = some x.1 := by rw [← hfront, hr]; rfl
    by_cases hxp : x.1 = p
    · simp only [hxp, ne_eq, not_true, if_false] at hp ⊢
      refine reconcileOverlay_place (fun q hq => hsolo q ?_) hp
      rw [hx, hxp]
      simpa using Ne.symm hq
    · simp only [hxp, ne_eq, not_false_iff, if_true] at hp ⊢
      refine reconcileOverlay_place (fun q _ => ?_) hp
      rw [shown_congr (congrArg surfaces primary_dropEditorFocusOf), primary_apply]
      by_cases hq : q = x.1
      · exact (shown_setRole_of_off rfl).trans (if_pos hq)
      · refine ((shown_setRole_of_off rfl).trans (if_neg hq)).trans (hsolo q ?_)
        rw [hx]
        simpa using Ne.symm hq

/-- What a foreground change elsewhere makes the shell do. -/
theorem onForegroundChanged_staged (hD : D → st.overlay = c.store.primary.overlayDesired)
    (hp : (onForegroundChanged c).panicked = false) :
    (onForegroundChanged c).store.primary.Staged D := by
  unfold onForegroundChanged at hp ⊢
  have hsame (hD' : D) (o i : Pid) (ho : st.overlay = some o)
      (hi : c.store.primary.overlayDesired = some i) : o = i := by
    have := hD hD'
    rw [ho, hi] at this
    exact Option.some.inj this
  cases he : imeEditor c.store with
  | none =>
    simp only [he] at hp ⊢
    exact reconcileOverlay_staged h hsame hp
  | some x =>
    simp only [he] at hp ⊢
    split at hp
    · rw [if_pos ‹_›]
      exact reconcileOverlay_staged (dropEditorFocusOf_onStage h)
        (fun hD' o i ho hi => hsame hD' o i ho (overlayDesired_dropEditorFocusOf hi)) hp
    · rw [if_neg ‹_›]
      exact reconcileOverlay_staged h hsame hp

end

/-! ### Surfaces that leave -/

section

variable {D : Prop}

/-- What `kill` and `task-kill` do, sparing the sides of an overlay. -/
theorem killApp_staged {s : AppState} (h : c.store.primary.Staged D)
    (hp : c.store.primary.Spares D s.pid) : (killApp c a s).1.store.primary.Staged D := by
  have hk : (killApp c a s).1.store.primary = c.store.primary.removeSurface s.pid := by
    simp [killApp]
  rw [hk]
  exact h.removeSurface hp

/-- The surface removed once its side of an overlay was torn down. -/
theorem removeSurface_demoted (h : c.store.primary.OnStage st)
    (hD : D → st.overlay = c.store.primary.overlayDesired)
    (hp : st.overlay = some p ∨ st.behind = some p) :
    ((demoteFromOverlay c).1.store.primary.removeSurface p).Staged D := by
  have hdown := demoteFromOverlay_onStage h
  have hst : ((demoteFromOverlay c).1.store.primary.removeSurface p).OnStage (st.demote.leave p) :=
    hdown.leave (by simp) fun _ => shown_removeSurface
  refine ⟨_, hst, fun hD' => ?_⟩
  rw [Stage.overlay_leave (by simp), Stage.overlay_demote]
  symm
  cases hw : ((demoteFromOverlay c).1.store.primary.removeSurface p).overlayDesired with
  | none => rfl
  | some i =>
    obtain ⟨hime, v, info, -, hv, -⟩ := overlayDesired_eq_some_iff.mp hw
    rcases hp with hp | hp
    · -- the overlay was the input method, which is gone
      have hd : c.store.primary.overlayDesired = some p := (hD hD').symm.trans hp
      have hp' : (demoteFromOverlay c).1.store.primary.activeIme = some p :=
        demoteFromOverlay_ime.1.trans (overlayDesired_eq_some_iff.mp hd).1
      simp [removeSurface, hp'] at hime
    · -- the app behind was the visible one
      rw [hst.visibleApp] at hv
      cases st with
      | split o b ne =>
        have hb : b = some p := hp
        subst hb
        simp [Stage.demote, Stage.ofApp, Stage.leave, Stage.visible] at hv
      | _ => cases hp

/-- The death of a process, whatever it was on stage. -/
theorem onSurfaceRemoved_staged (h : c.store.primary.Staged D) :
    (onSurfaceRemoved c p).store.primary.Staged D := by
  obtain ⟨st, h, hD⟩ := h
  have hr : (onSurfaceRemoved c p).store.primary =
      (if st.overlay = some p ∨ st.behind = some p then (demoteFromOverlay c).1
        else c).store.primary.removeSurface p := by
    unfold onSurfaceRemoved
    have hside : (st.overlay.isSome ∧ (st.overlay = some p ∨ st.behind = some p)) ↔
        (st.overlay = some p ∨ st.behind = some p) := by
      cases st <;> simp [Stage.overlay, Stage.behind]
    simp only [overlayEngaged_eq, h.overlayEngaged, pid_rolePid_overlay h,
      pid_rolePid_overlayBehind h, hside]
    split
    · split <;> simp
    · split <;> simp
  rw [hr]
  split
  · next hp => exact removeSurface_demoted h hD hp
  · next hp =>
    rw [not_or] at hp
    refine Staged.removeSurface ⟨st, h, hD⟩ ⟨fun ho => ?_, fun _ => ⟨?_, ?_⟩⟩
    · exact absurd (h.roleOf_overlay.mp ho) hp.1
    · exact fun ho => hp.1 (h.roleOf_overlay.mp ho)
    · exact fun hb => hp.2 (h.roleOf_overlayBehind.mp hb)

end

end Shell

end Wandr
