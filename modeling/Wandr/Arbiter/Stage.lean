import Wandr.Arbiter.Conduct

/-!
# The stage

What the roles of a visible app are for: the user looks at nothing, at one app, or
at an app with the overlay of an input method on top of it. A `Stage` is one of
these, and a display is on a stage (`DisplayState.OnStage`) when its surfaces have
the roles the stage gives them.

* `DisplayState.disciplined_iff`: a display is on some stage exactly when at most
  one surface has each of the roles, and an overlay goes with the app behind it
  instead of one in the foreground;
* `DisplayState.OnStage.visibleApp` and the other readers see the stage only;
* `DisplayState.Staged` asks in addition that the overlay is the one the display
  wants, and `DisplayState.Staged.leave` says when a surface may leave.
-/

namespace Wandr

/-- What the user is looking at. -/
inductive Stage
  | empty
  | full (app : Pid)
  | split (overlay : Pid) (behind : Option Pid) (ne : behind ≠ some overlay)
  deriving DecidableEq

namespace Stage

/-- The app in the foreground. -/
def front : Stage → Option Pid
  | full p => some p
  | _ => none

/-- The overlay. -/
def overlay : Stage → Option Pid
  | split o _ _ => some o
  | _ => none

/-- The app behind the overlay. -/
def behind : Stage → Option Pid
  | split _ b _ => b
  | _ => none

/-- The app the user is looking at. -/
def visible : Stage → Option Pid
  | empty => none
  | full p => some p
  | split _ b _ => b

/-- The role a stage gives a process. -/
def role : Stage → Pid → Option Role
  | empty, _ => none
  | full p, q => if q = p then some .foreground else none
  | split o b _, q =>
    if q = o then some .overlay else if b = some q then some .overlayBehind else none

/-- The stage of one app, or of none. -/
def ofApp : Option Pid → Stage
  | some p => full p
  | none => empty

/-- The overlay goes. -/
def demote : Stage → Stage
  | split _ b _ => ofApp b
  | st => st

/-- A process leaves the stage; when it is the overlay, there is to be no app
    behind. -/
def leave (p : Pid) : Stage → Stage
  | empty => empty
  | full q => if q = p then empty else full q
  | split o b ne =>
    if o = p then empty
    else split o (if b = some p then none else b) (by split <;> simp_all)

variable {st : Stage} {p : Pid}

theorem role_eq_foreground_iff : st.role p = some .foreground ↔ st.front = some p := by
  cases st <;> simp only [role, front] <;> grind

theorem role_eq_overlay_iff : st.role p = some .overlay ↔ st.overlay = some p := by
  cases st <;> simp only [role, overlay] <;> grind

theorem role_eq_overlayBehind_iff : st.role p = some .overlayBehind ↔ st.behind = some p := by
  cases st <;> simp only [role, behind] <;> grind

theorem role_leave {q : Pid} (h : st.overlay = some p → st.behind = none) :
    (st.leave p).role q = if q = p then none else st.role q := by
  cases st with
  | empty => simp [leave, role]
  | full w =>
    simp only [leave]
    split <;> simp only [role] <;> grind
  | split o b ne =>
    by_cases ho : o = p
    · have hb : b = none := h (congrArg some ho)
      simp only [leave, if_pos ho, role]
      grind
    · simp only [leave, if_neg ho, role]
      grind

/-- A process that is no side of an overlay leaves the stage. -/
theorem overlay_leave (ho : st.overlay ≠ some p) : (st.leave p).overlay = st.overlay := by
  cases st with
  | empty => rfl
  | full w =>
    simp only [leave]
    split <;> rfl
  | split o b ne =>
    have hop : o ≠ p := fun h => ho (congrArg some h)
    simp [leave, hop, overlay]

theorem visible_leave (hb : st.behind ≠ some p) (ho : st.overlay ≠ some p) :
    (st.leave p).visible = if st.visible = some p then none else st.visible := by
  cases st with
  | empty => rfl
  | full w =>
    by_cases hw : w = p <;> simp [leave, visible, hw]
  | split o b ne =>
    have hop : o ≠ p := fun h => ho (congrArg some h)
    have hbp : b ≠ some p := hb
    simp [leave, visible, hop, hbp]

@[simp] theorem overlay_ofApp {o : Option Pid} : (ofApp o).overlay = none := by cases o <;> rfl
@[simp] theorem behind_ofApp {o : Option Pid} : (ofApp o).behind = none := by cases o <;> rfl
@[simp] theorem visible_ofApp {o : Option Pid} : (ofApp o).visible = o := by cases o <;> rfl
@[simp] theorem front_ofApp {o : Option Pid} : (ofApp o).front = o := by cases o <;> rfl

@[simp]
theorem overlay_demote : st.demote.overlay = none := by
  cases st with
  | split o b => exact overlay_ofApp
  | _ => rfl

/-- The app behind an overlay stays in sight without it. -/
@[simp]
theorem visible_demote : st.demote.visible = st.visible := by
  cases st with
  | split o b => exact visible_ofApp
  | _ => rfl

end Stage

/-! ## The roles shown -/

/-- The roles of the surfaces on the stage. -/
def Role.onStage : Role → Bool
  | .foreground | .overlayBehind | .overlay => true
  | _ => false

namespace DisplayState

variable {d d' : DisplayState} {st : Stage} {p q : Pid} {a : String} {r : Role}

/-- The role of a process on the stage. -/
def shown (d : DisplayState) (p : Pid) : Option Role := (d.roleOf p).filter Role.onStage

/-- The surfaces have the roles the stage gives them. -/
def OnStage (d : DisplayState) (st : Stage) : Prop := ∀ p, d.shown p = st.role p

theorem shown_eq_some_iff (hr : r.onStage) : d.shown p = some r ↔ d.roleOf p = some r := by
  unfold shown
  cases d.roleOf p <;> grind

/-- A surface leaves the stage for another role. -/
theorem shown_setRole_of_off (hr : r.onStage = false) :
    (d.setRole p r).shown q = if q = p then none else d.shown q := by
  unfold shown
  rw [roleOf_setRole]
  split
  · cases d.roleOf q <;> simp [hr]
  · rfl

/-- A surface enters the stage. -/
theorem shown_setRole_of_on (hr : r.onStage) (hp : (d.roleOf p).isSome) :
    (d.setRole p r).shown q = if q = p then some r else d.shown q := by
  unfold shown
  rw [roleOf_setRole]
  split
  · next h =>
    obtain ⟨r', hr'⟩ := Option.isSome_iff_exists.mp hp
    rw [h, hr']
    simp [hr]
  · rfl

theorem shown_putSurface_of_off (hr : r.onStage = false) :
    (d.putSurface p a r).shown q = if q = p then none else d.shown q := by
  unfold shown
  rw [roleOf_putSurface]
  split <;> simp [hr]

theorem shown_putSurface_of_on (hr : r.onStage) :
    (d.putSurface p a r).shown q = if q = p then some r else d.shown q := by
  unfold shown
  rw [roleOf_putSurface]
  split <;> simp [hr]

theorem shown_removeSurface : (d.removeSurface p).shown q = if q = p then none else d.shown q := by
  unfold shown
  rw [roleOf_removeSurface]
  split <;> rfl

theorem shown_congr (h : d'.surfaces = d.surfaces) : d'.shown p = d.shown p := by
  unfold shown roleOf
  rw [h]

/-- The only process with a role is the first one found with it. -/
theorem pid_firstWithRole {o : Option Pid} (h : ∀ p, d.roleOf p = some r ↔ o = some p) :
    (d.firstWithRole r).map Surface.pid = o := by
  cases hf : d.firstWithRole r with
  | none =>
    rw [firstWithRole_eq_none_iff] at hf
    cases o with
    | none => rfl
    | some p => exact absurd ((h p).mpr rfl) (hf p)
  | some s => exact ((h s.pid).mp (roleOf_of_firstWithRole hf)).symm

namespace OnStage

variable (h : d.OnStage st)

include h

theorem roleOf_foreground : d.roleOf p = some .foreground ↔ st.front = some p := by
  rw [← shown_eq_some_iff rfl, h p, Stage.role_eq_foreground_iff]

theorem roleOf_overlay : d.roleOf p = some .overlay ↔ st.overlay = some p := by
  rw [← shown_eq_some_iff rfl, h p, Stage.role_eq_overlay_iff]

theorem roleOf_overlayBehind : d.roleOf p = some .overlayBehind ↔ st.behind = some p := by
  rw [← shown_eq_some_iff rfl, h p, Stage.role_eq_overlayBehind_iff]

theorem pid_foreground : (d.firstWithRole .foreground).map Surface.pid = st.front :=
  pid_firstWithRole fun _ => h.roleOf_foreground

theorem pid_overlay : (d.firstWithRole .overlay).map Surface.pid = st.overlay :=
  pid_firstWithRole fun _ => h.roleOf_overlay

theorem pid_overlayBehind : (d.firstWithRole .overlayBehind).map Surface.pid = st.behind :=
  pid_firstWithRole fun _ => h.roleOf_overlayBehind

theorem visibleApp : d.visibleApp = st.visible := by
  unfold DisplayState.visibleApp
  rw [Option.map_or, h.pid_overlayBehind, h.pid_foreground]
  cases st with
  | split o b => cases b <;> rfl
  | _ => rfl

theorem overlayEngaged : d.overlayEngaged = st.overlay.isSome := by
  rw [DisplayState.overlayEngaged, ← h.pid_overlay, Option.isSome_map]

theorem congr (hs : d'.surfaces = d.surfaces) : d'.OnStage st :=
  fun p => (shown_congr hs).trans (h p)

end OnStage

end DisplayState

/-! ## Discipline -/

namespace DisplayState

variable {d : DisplayState}

/-- At most one surface has each of the roles on stage, an app is behind an overlay
    only, and an overlay never comes with an app in the foreground. -/
structure Disciplined (d : DisplayState) : Prop where
  unique : ∀ r p q, r.onStage → d.roleOf p = some r → d.roleOf q = some r → p = q
  behind : ∀ p, d.roleOf p = some .overlayBehind → ∃ q, d.roleOf q = some .overlay
  apart : ∀ p q, d.roleOf p = some .foreground → d.roleOf q ≠ some .overlay

theorem OnStage.disciplined {st : Stage} (h : d.OnStage st) : d.Disciplined where
  unique r p q hr hp hq := by
    cases r with
    | foreground =>
      exact Option.some.inj ((h.roleOf_foreground.mp hp).symm.trans (h.roleOf_foreground.mp hq))
    | overlayBehind =>
      exact Option.some.inj
        ((h.roleOf_overlayBehind.mp hp).symm.trans (h.roleOf_overlayBehind.mp hq))
    | overlay =>
      exact Option.some.inj ((h.roleOf_overlay.mp hp).symm.trans (h.roleOf_overlay.mp hq))
    | _ => cases hr
  behind p hp := by
    have hb := h.roleOf_overlayBehind.mp hp
    cases st with
    | split o b => exact ⟨o, h.roleOf_overlay.mpr rfl⟩
    | _ => cases hb
  apart p q hp hq := by
    have hf := h.roleOf_foreground.mp hp
    have ho := h.roleOf_overlay.mp hq
    cases st with
    | split => cases hf
    | _ => cases ho

/-- A display is on a stage when the three roles are those of the stage. -/
theorem onStage_of_roleOf {st : Stage} (hf : ∀ p, d.roleOf p = some .foreground ↔ st.front = some p)
    (ho : ∀ p, d.roleOf p = some .overlay ↔ st.overlay = some p)
    (hb : ∀ p, d.roleOf p = some .overlayBehind ↔ st.behind = some p) : d.OnStage st := by
  intro p
  have hoff (r : Role) (hr : r.onStage = false) : d.shown p ≠ some r ∧ st.role p ≠ some r := by
    constructor
    · intro h
      have := (Option.filter_eq_some_iff.mp h).2
      rw [hr] at this
      cases this
    · cases st with
      | empty => simp [Stage.role]
      | full q =>
        simp only [Stage.role]
        grind [Role.onStage]
      | split o b =>
        simp only [Stage.role]
        grind [Role.onStage]
  ext r
  cases r with
  | foreground => rw [shown_eq_some_iff rfl, hf, Stage.role_eq_foreground_iff]
  | overlay => rw [shown_eq_some_iff rfl, ho, Stage.role_eq_overlay_iff]
  | overlayBehind => rw [shown_eq_some_iff rfl, hb, Stage.role_eq_overlayBehind_iff]
  | _ => exact iff_of_false (hoff _ rfl).1 (hoff _ rfl).2

/-- The one process with a role is the one found with it. -/
theorem Disciplined.roleOf_iff (h : d.Disciplined) {r : Role} (hr : r.onStage) (p : Pid) :
    d.roleOf p = some r ↔ (d.firstWithRole r).map Surface.pid = some p := by
  cases hs : d.firstWithRole r with
  | none => exact iff_of_false (firstWithRole_eq_none_iff.mp hs p) (by simp)
  | some s =>
    have hrole := roleOf_of_firstWithRole hs
    constructor
    · intro hp
      rw [h.unique r p s.pid hr hp hrole]
      rfl
    · intro hp
      rw [← Option.some.inj hp]
      exact hrole

/-- A disciplined display is on the stage of the surfaces found. -/
theorem Disciplined.onStage (h : d.Disciplined) : ∃ st, d.OnStage st := by
  have hf := h.roleOf_iff (r := .foreground) rfl
  have ho := h.roleOf_iff (r := .overlay) rfl
  have hb := h.roleOf_iff (r := .overlayBehind) rfl
  cases hover : (d.firstWithRole .overlay).map Surface.pid with
  | some o =>
    have hro : d.roleOf o = some .overlay := (ho o).mpr hover
    refine ⟨.split o ((d.firstWithRole .overlayBehind).map Surface.pid) ?_,
      onStage_of_roleOf (fun p => ?_) (fun p => ?_) hb⟩
    · intro hbo
      rw [(hb o).mpr hbo] at hro
      cases hro
    · exact iff_of_false (fun hp => h.apart p o hp hro) (by simp [Stage.front])
    · rw [ho p, hover]
      rfl
  | none =>
    have hnone (p : Pid) : d.roleOf p ≠ some .overlay := by
      rw [Ne, ho p, hover]
      simp
    have hbnone (p : Pid) : d.roleOf p ≠ some .overlayBehind := by
      intro hp
      obtain ⟨q, hq⟩ := h.behind p hp
      exact hnone q hq
    refine ⟨.ofApp ((d.firstWithRole .foreground).map Surface.pid), onStage_of_roleOf
      (fun p => ?_) (fun p => ?_) fun p => ?_⟩
    · rw [hf p, Stage.front_ofApp]
    · exact iff_of_false (hnone p) (by simp)
    · exact iff_of_false (hbnone p) (by simp)

end DisplayState

/-! ## The overlay wanted -/

namespace DisplayState

variable {d d' : DisplayState} {st : Stage} {i : Pid}

theorem overlayDesired_eq_some_iff : d.overlayDesired = some i ↔
    d.activeIme = some i ∧ ∃ v info, d.imeEditor = some (v, info) ∧ d.visibleApp = some v ∧
      i ≠ v := by
  unfold overlayDesired
  split
  · next ime editor info vis hi he hv =>
    rw [hi, he, hv]
    grind
  · next hno =>
    constructor
    · intro h
      cases h
    · rintro ⟨hi, v, info, he, hv, -⟩
      exact absurd hv (hno i v info v hi he)

theorem overlayDesired_congr (hi : d'.activeIme = d.activeIme) (he : d'.imeEditor = d.imeEditor)
    (hv : d'.visibleApp = d.visibleApp) : d'.overlayDesired = d.overlayDesired := by
  rw [overlayDesired, hi, he, hv, overlayDesired]

/-- What is wanted depends on the input method only as far as the visible editor
    goes. -/
theorem overlayDesired_of_filter {ime : Option Pid}
    (h : ∀ v info, d.imeEditor = some (v, info) → d.visibleApp = some v →
      d.activeIme.filter (fun i => i ≠ v) = ime.filter fun i => i ≠ v) :
    d.overlayDesired = { d with activeIme := ime }.overlayDesired := by
  ext i
  rw [overlayDesired_eq_some_iff, overlayDesired_eq_some_iff]
  constructor
  · rintro ⟨hi, v, info, he, hv, hne⟩
    have hf := h v info he hv
    rw [hi, Option.filter_some_pos (by simpa using hne)] at hf
    exact ⟨(Option.filter_eq_some_iff.mp hf.symm).1, v, info, he, hv, hne⟩
  · rintro ⟨hi, v, info, he, hv, hne⟩
    have hf := h v info he hv
    rw [show ime = some i from hi, Option.filter_some_pos (by simpa using hne)] at hf
    exact ⟨(Option.filter_eq_some_iff.mp hf).1, v, info, he, hv, hne⟩

/-- A display on some stage; when `D` is asked for as well, its overlay is the one
    wanted. -/
def Staged (D : Prop) (d : DisplayState) : Prop :=
  ∃ st, d.OnStage st ∧ (D → st.overlay = d.overlayDesired)

end DisplayState

/-! ## Surfaces that leave -/

namespace DisplayState

variable {d d' : DisplayState} {st : Stage} {p i : Pid}

/-- Taking a process from the stage leaves no app behind without its overlay; when
    `D`, the process is no side of an overlay at all. -/
def Spares (D : Prop) (d : DisplayState) (p : Pid) : Prop :=
  (d.roleOf p = some .overlay → ∀ b, d.roleOf b ≠ some .overlayBehind) ∧
  (D → d.roleOf p ≠ some .overlay ∧ d.roleOf p ≠ some .overlayBehind)

/-- With no overlay, and no app behind one, any process may leave. -/
theorem Spares.of_none {D : Prop} (ho : d.firstWithRole .overlay = none)
    (hb : d.firstWithRole .overlayBehind = none) : d.Spares D p :=
  ⟨fun _ => firstWithRole_eq_none_iff.mp hb,
    fun _ => ⟨firstWithRole_eq_none_iff.mp ho p, firstWithRole_eq_none_iff.mp hb p⟩⟩

theorem OnStage.leave (h : d.OnStage st) (hp : st.overlay = some p → st.behind = none)
    (hd : ∀ q, d'.shown q = if q = p then none else d.shown q) : d'.OnStage (st.leave p) := by
  intro q
  rw [hd q, h q, Stage.role_leave hp]

/-- A process that leaves, taking its own focus along, makes no overlay wanted. -/
theorem Staged.leave {D : Prop} (h : d.Staged D) (hp : d.Spares D p)
    (hd : ∀ q, d'.shown q = if q = p then none else d.shown q)
    (hi : d'.activeIme = d.activeIme ∨ d'.activeIme = none ∧ d.activeIme = some p)
    (he : d'.imeEditor = d.imeEditor ∨ d'.imeEditor = none ∧ d.imeEditor.map Prod.fst = some p) :
    d'.Staged D := by
  obtain ⟨st, h, hD⟩ := h
  have ho : st.overlay = some p → st.behind = none := by
    intro ho
    cases hb : st.behind with
    | none => rfl
    | some b => exact absurd (h.roleOf_overlayBehind.mpr hb) (hp.1 (h.roleOf_overlay.mpr ho) b)
  have h' : d'.OnStage (st.leave p) := h.leave ho hd
  refine ⟨st.leave p, h', fun hD' => ?_⟩
  obtain ⟨hpo, hpb⟩ := hp.2 hD'
  rw [Ne, h.roleOf_overlay] at hpo
  rw [Ne, h.roleOf_overlayBehind] at hpb
  have hvis : d'.visibleApp = if d.visibleApp = some p then none else d.visibleApp := by
    rw [h'.visibleApp, h.visibleApp, Stage.visible_leave hpb hpo]
  rw [Stage.overlay_leave hpo, hD hD']
  cases hw : d.overlayDesired with
  | some i =>
    -- the sides of the overlay are the input method and the editor, and neither leaves
    obtain ⟨hime, v, info, hed, hv, -⟩ := overlayDesired_eq_some_iff.mp hw
    have hip : i ≠ p := by
      rw [hD hD', hw] at hpo
      simpa using hpo
    have hvp : v ≠ p := by
      rw [h.visibleApp] at hv
      have hover := (hD hD').trans hw
      cases st with
      | split o b =>
        have hb : b = some v := hv
        exact fun hvp => hpb (hb.trans (congrArg some hvp))
      | _ => cases hover
    rw [← hw]
    refine (overlayDesired_congr ?_ ?_ ?_).symm
    · rcases hi with hi | ⟨-, hi⟩
      · exact hi
      · rw [hime] at hi
        exact absurd (Option.some.inj hi) hip
    · rcases he with he | ⟨-, he⟩
      · exact he
      · rw [hed] at he
        exact absurd (Option.some.inj he) hvp
    · rw [hvis, if_neg]
      rw [hv]
      simpa using hvp
  | none =>
    cases hw' : d'.overlayDesired with
    | none => rfl
    | some i =>
      obtain ⟨hime, v, info, hed, hv, hne⟩ := overlayDesired_eq_some_iff.mp hw'
      have hime' : d.activeIme = some i := by
        rcases hi with hi | ⟨hi, -⟩
        · exact hi ▸ hime
        · rw [hi] at hime
          cases hime
      have hed' : d.imeEditor = some (v, info) := by
        rcases he with he | ⟨he, -⟩
        · exact he ▸ hed
        · rw [he] at hed
          cases hed
      have hv' : d.visibleApp = some v := by
        rw [hvis] at hv
        split at hv
        · cases hv
        · exact hv
      rw [← hw]
      exact overlayDesired_eq_some_iff.mpr ⟨hime', v, info, hed', hv', hne⟩

/-- The stage is all in what the modules working aside leave alone. -/
theorem Staged.agree {D : Prop} {s s' : Store} (h : s.primary.Staged D) (ha : s.Agree s') :
    s'.primary.Staged D := by
  obtain ⟨st, h, hD⟩ := h
  exact ⟨st, h.congr ha.surfaces, fun hD' => (hD hD').trans ha.overlayDesired.symm⟩

theorem Staged.setChromeAnchor {D : Prop} {e : ChromeAnchor} (h : d.Staged D) :
    (d.setChromeAnchor p e).Staged D := by
  obtain ⟨st, h, hD⟩ := h
  have h' : (d.setChromeAnchor p e).OnStage st := fun q => by
    rw [shown, roleOf_setChromeAnchor]
    exact h q
  have hw : (d.setChromeAnchor p e).overlayDesired = d.overlayDesired :=
    overlayDesired_congr rfl rfl (by rw [h'.visibleApp, h.visibleApp])
  exact ⟨st, h', fun hD' => (hD hD').trans hw.symm⟩

/-- The removal of a surface the stage can spare. -/
theorem Staged.removeSurface {D : Prop} (h : d.Staged D) (hp : d.Spares D p) :
    (d.removeSurface p).Staged D := by
  refine h.leave hp (fun _ => shown_removeSurface) ?_ ?_
  · by_cases hi : d.activeIme = some p <;> simp [DisplayState.removeSurface, hi]
  · by_cases he : d.imeEditor.map Prod.fst = some p <;> simp [DisplayState.removeSurface, he]

end DisplayState

end Wandr
