import Wandr.Canvas.Renderer
import Wandr.Lib.Machine

/-!
# What input reaches

A press keeps the identifier of the element it was on, and the field that has the focus is kept by
its identifier too; the virtual tree gives the identifier of an element that it removes to another
one.

* `Renderer.reached_of_run`: as long as no identifier that is kept is given to a new element, what
  is sent reaches the node it was meant for, or nothing if that is gone;
* `Renderer.click_recycled` is a tap that clicks another button.
-/

namespace Wandr.Canvas

open Px

variable {F : Type} [Px F]

/-- No two nodes of a tree have one identifier. -/
def Distinct (tree : Forest Label) : Prop :=
  ∀ e ∈ tree.entries, ∀ e' ∈ tree.entries, ∀ i, e.2.elementId = some i →
    e'.2.elementId = some i → e.1 = e'.1

/-- A node that stays keeps its identifier. -/
def Stays (tree tree' : Forest Label) : Prop :=
  ∀ e ∈ tree.entries, ∀ e' ∈ tree'.entries, e.1 = e'.1 → e.2.elementId = e'.2.elementId

/-- The node that has an identifier. -/
def holder (tree : Forest Label) (i : ElementId) : Option NodeId :=
  tree.find fun l => l.elementId = some i

/-- A field that is painted declares that it has the focus, or not. -/
def declaresFocus : Forest Label → Bool
  | .nil => false
  | .node _ l c rest =>
    (match l.kind with
      | .element _ style _ =>
        style.value "display" ≠ some "none" &&
          (style.focusAttr.isSome || declaresFocus c)
      | .text _ | .placeholder => false) || declaresFocus rest

namespace Renderer

/-- What is kept of the elements that input was aimed at. -/
def aims (s : Renderer F) : List Aim :=
  (s.captured.map Captured.aim).toList ++ (s.down.bind Down.click).toList ++ s.focused.toList

/-- What is kept when the tree becomes another one: the focus is not, where it is declared. -/
def keptAims (tree : Forest Label) (s : Renderer F) : List Aim :=
  (s.captured.map Captured.aim).toList ++ (s.down.bind Down.click).toList ++
    if declaresFocus tree then [] else s.focused.toList

/-- The virtual tree is in order after a frame. -/
def Mounted (s : Renderer F) : Input F → Prop
  | .frame _ tree _ => Distinct tree ∧ Stays s.tree tree
  | _ => True

/-- No identifier that is kept is given to a node that was not there before. -/
def Unrecycled (s : Renderer F) : Input F → Prop
  | .frame _ tree _ => s.lifecyclePaused = false → s.dirty = true →
      ∀ a ∈ s.keptAims tree, ∀ n, holder tree a.eid = some n → n ∈ s.tree.ids
  | _ => True

/-- What was sent has reached the node it was meant for, and nothing if that was gone. -/
def Reaches (s : Renderer F) : Prop := ∀ d ∈ s.log, d.reached = d.aimed

end Renderer

/-! ## Identifiers -/

variable {tree tree' : Forest Label} {n : NodeId} {l : Label} {i : ElementId} {a : Aim}

theorem holder_of_mem (h : Distinct tree) (hn : (n, l) ∈ tree.entries) (hl : l.elementId = some i) :
    holder tree i = some n := by
  rw [holder, Forest.find_eq]
  cases hf : tree.entries.find? fun e => e.2.elementId = some i with
  | none => exact absurd hl (by simpa using List.find?_eq_none.mp hf _ hn)
  | some e =>
    have he : e.2.elementId = some i := by simpa using List.find?_some hf
    exact congrArg some (h _ (List.mem_of_find?_eq_some hf) _ hn i he hl)

theorem exists_of_holder (h : holder tree i = some n) :
    ∃ l, (n, l) ∈ tree.entries ∧ l.elementId = some i := by
  rw [holder, Forest.find_eq] at h
  obtain ⟨⟨m, l⟩, hf, rfl⟩ := Option.map_eq_some_iff.mp h
  exact ⟨l, List.mem_of_find?_eq_some hf, by simpa using List.find?_some hf⟩

/-- What is aimed at is the node that has the identifier. -/
def Aim.Aligned (tree : Forest Label) (a : Aim) : Prop := holder tree a.eid = a.node

/-- An aim stays right as the tree becomes another one, unless its identifier is given to a node
    that was not there before. -/
theorem Aim.Aligned.retarget (h : a.Aligned tree) (hd : Distinct tree) (hd' : Distinct tree')
    (hs : Stays tree tree') (hnew : ∀ n, holder tree' a.eid = some n → n ∈ tree.ids) :
    (a.retarget tree').Aligned tree' := by
  change holder tree' a.eid = a.node.filter (· ∈ tree'.ids)
  cases hh : holder tree' a.eid with
  | some n =>
    -- The node was there before, and had the identifier.
    obtain ⟨l', hl', hi'⟩ := exists_of_holder hh
    obtain ⟨l, hl⟩ := Forest.exists_entry (hnew n hh)
    have hi : l.elementId = some a.eid := (hs _ hl _ hl' rfl).trans hi'
    rw [← h, holder_of_mem hd hl hi, Option.filter_some,
      if_pos (by simpa using Forest.mem_ids_of_entries hl')]
  | none =>
    cases hn : a.node with
    | none => rfl
    | some n =>
      have hgone : n ∉ tree'.ids := by
        intro hn'
        obtain ⟨l, hl, hi⟩ := exists_of_holder (Eq.trans h hn)
        obtain ⟨l', hl'⟩ := Forest.exists_entry hn'
        rw [holder_of_mem hd' hl' ((hs _ hl _ hl' rfl).symm.trans hi)] at hh
        cases hh
      rw [Option.filter_some, if_neg (by simpa using hgone)]

/-! ## What a walk finds -/

/-- What a walk has found are nodes with their identifiers. -/
structure Walk.From (es : List (NodeId × Label)) (w : Walk F) : Prop where
  hits : ∀ h ∈ w.hits, ∃ l, (h.node, l) ∈ es ∧ l.elementId = some h.eid
  domFocus : ∀ a, w.domFocus = some a → ∃ n l, a.node = some n ∧ (n, l) ∈ es ∧
    l.elementId = some a.eid

variable {es : List (NodeId × Label)} {w : Walk F} {b : Box F} {inScroll : Bool}

omit [Px F] in
theorem Walk.From.congr {w' : Walk F} (h : w.From es) (hh : w'.hits = w.hits)
    (hd : w'.domFocus = w.domFocus) : w'.From es :=
  ⟨hh ▸ h.hits, hd ▸ h.domFocus⟩

theorem Walk.From.extend (h : w.From es) : (w.extend inScroll b).From es := by
  unfold Walk.extend
  split
  · exact ⟨h.hits, h.domFocus⟩
  · exact h

omit [Px F] in
theorem Walk.From.element {style : Style} {listeners : List String} (h : w.From es)
    (hn : (n, l) ∈ es) : (w.element n l.elementId style listeners inScroll b).From es := by
  have heid {e : ElementId}
      (he : (if (flagsOf listeners).any then l.elementId else none) = some e) :
      l.elementId = some e := by
    split at he
    · exact he
    · cases he
  constructor
  · intro x hx
    rcases List.mem_append.mp hx with hx | hx
    · exact h.hits x hx
    · obtain ⟨e, he, rfl⟩ := Option.map_eq_some_iff.mp (Option.mem_toList.mp hx)
      exact ⟨l, hn, heid he⟩
  · intro a ha
    dsimp only [Walk.element] at ha
    split at ha
    · obtain ⟨e, he, rfl⟩ := Option.map_eq_some_iff.mp ha
      exact ⟨n, l, rfl, hn, heid he⟩
    · exact h.domFocus a ha

/-- A walk finds nodes of the tree. -/
theorem Walk.From.paintWalk {layout : NodeId → Box F} {px py : F} (h : w.From es)
    (ht : ∀ e ∈ tree.entries, e ∈ es) : (paintWalk layout px py inScroll tree w).From es := by
  induction tree generalizing px py inScroll w with
  | nil => exact h
  | node n l c rest hc hrest =>
    have hn : (n, l) ∈ es := ht _ List.mem_cons_self
    have hsub : ∀ e ∈ c.entries, e ∈ es := fun e he =>
      ht e (List.mem_cons_of_mem _ (List.mem_append_left _ he))
    refine hrest ?_ fun e he => ht e (List.mem_cons_of_mem _ (List.mem_append_right _ he))
    cases l.kind with
    | element tag style listeners =>
      dsimp only
      split
      · exact h
      · have he {b : Box F} {i : Bool} :
            ((w.extend i b).element n l.elementId style listeners i b).From es :=
          h.extend.element hn
        split
        · refine (hc ?_ hsub).congr rfl rfl
          exact he.congr rfl rfl
        · exact hc he hsub
    | text value => exact h.extend
    | placeholder => exact h.extend

theorem sawFocusAttr_paintWalk {layout : NodeId → Box F} {px py : F} :
    (paintWalk layout px py inScroll tree w).sawFocusAttr =
      (w.sawFocusAttr || declaresFocus tree) := by
  have hextend {i : Bool} {b : Box F} {w : Walk F} :
      (w.extend i b).sawFocusAttr = w.sawFocusAttr := by
    unfold Walk.extend
    split <;> rfl
  induction tree generalizing px py inScroll w with
  | nil => exact (Bool.or_false _).symm
  | node n l c rest hc hrest =>
    rw [paintWalk, hrest, declaresFocus]
    cases l.kind with
    | element tag style listeners =>
      dsimp only
      split
      · next hnone => simp [hnone]
      · next hnone =>
        split
        · dsimp only
          rw [hc]
          simp [hnone, Walk.element, hextend, Bool.or_assoc]
        · rw [hc]
          simp [hnone, Walk.element, hextend, Bool.or_assoc]
    | text value => simp [hextend]
    | placeholder => simp [hextend]

/-! ## What is kept in order -/

namespace Renderer

variable {s s' : Renderer F}

/-- Each element that listens is where its identifier leads, and so is what input was aimed at, or
    it is gone. -/
structure Sound (s : Renderer F) : Prop where
  distinct : Distinct s.tree
  hits : ∀ h ∈ s.hits, holder s.tree h.eid = some h.node
  aims : ∀ a ∈ s.aims, a.Aligned s.tree
  reaches : s.Reaches

omit [Px F] in
/-- A step that leaves the tree keeps this, if what it aims at is right. -/
theorem Sound.of (h : Sound s) (ht : s'.tree = s.tree) (hh : s'.hits = s.hits)
    (ha : ∀ a ∈ s'.aims, a ∈ s.aims ∨ a.Aligned s.tree)
    (hl : ∀ d ∈ s'.log, d ∈ s.log ∨ d.reached = d.aimed) : Sound s' := by
  refine ⟨ht ▸ h.distinct, ?_, fun a has => ?_, fun d hd => (hl d hd).elim (h.reaches d) id⟩
  · rw [ht, hh]
    exact h.hits
  · rw [ht]
    exact (ha a has).elim (h.aims a) id

omit [Px F] in
/-- Nothing else matters. -/
theorem Sound.congr (h : Sound s) (ht : s'.tree = s.tree) (hh : s'.hits = s.hits)
    (ha : s'.aims = s.aims) (hl : s'.log = s.log) : Sound s' :=
  h.of ht hh (fun _ has => .inl (ha ▸ has)) fun _ hd => .inl (hl ▸ hd)

omit [Px F] in
/-- What is kept may change to what is aimed at right. -/
theorem Sound.set (h : Sound s) (ht : s'.tree = s.tree) (hh : s'.hits = s.hits)
    (hl : s'.log = s.log)
    (hc : ∀ c, s'.captured = some c → s.captured = some c ∨ c.aim.Aligned s.tree)
    (hd : ∀ a, s'.down.bind Down.click = some a →
      s.down.bind Down.click = some a ∨ a.Aligned s.tree)
    (hf : ∀ a, s'.focused = some a → s.focused = some a ∨ a.Aligned s.tree) : Sound s' := by
  refine h.of ht hh (fun a ha => ?_) fun d hd => .inl (hl ▸ hd)
  unfold Renderer.aims at ha ⊢
  rcases List.mem_append.mp ha with ha | ha
  · rcases List.mem_append.mp ha with ha | ha
    · obtain ⟨c, hs, rfl⟩ := Option.map_eq_some_iff.mp (Option.mem_toList.mp ha)
      refine (hc c hs).imp_left fun hs => ?_
      rw [hs]
      exact List.mem_append_left _ (List.mem_append_left _ List.mem_cons_self)
    · refine (hd a (Option.mem_toList.mp ha)).imp_left fun hs => ?_
      exact List.mem_append_left _ (List.mem_append_right _ (Option.mem_toList.mpr hs))
  · refine (hf a (Option.mem_toList.mp ha)).imp_left fun hs => ?_
    exact List.mem_append_right _ (Option.mem_toList.mpr hs)

omit [Px F] in
theorem Sound.captured {c : Captured F} (h : Sound s) (hc : s.captured = some c) :
    c.aim.Aligned s.tree := by
  refine h.aims _ ?_
  rw [Renderer.aims, hc]
  exact List.mem_append_left _ (List.mem_append_left _ List.mem_cons_self)

omit [Px F] in
theorem Sound.click {a : Aim} (h : Sound s) (ha : s.down.bind Down.click = some a) :
    a.Aligned s.tree :=
  h.aims _ (List.mem_append_left _ (List.mem_append_right _ (Option.mem_toList.mpr ha)))

omit [Px F] in
theorem Sound.focused {a : Aim} (h : Sound s) (ha : s.focused = some a) : a.Aligned s.tree :=
  h.aims _ (List.mem_append_right _ (Option.mem_toList.mpr ha))

omit [Px F] in
/-- What is sent to what is aimed at reaches it. -/
theorem dispatch_sound {name : String} {p : Payload F} (h : Sound s) (ha : a.Aligned s.tree) :
    Sound (dispatch name a p s) := by
  refine h.of rfl rfl (fun a has => .inl has) fun d hd => ?_
  rcases List.mem_append.mp hd with hd | hd
  · exact .inl hd
  · rw [List.mem_singleton.mp hd]
    exact .inr ha

theorem hit_aligned {x y : F} {h : HitRect F} (hs : Sound s) (hh : s.hitAt x y = some h) :
    Aim.Aligned s.tree ⟨h.eid, some h.node⟩ :=
  hs.hits h (List.mem_reverse.mp (List.mem_of_find?_eq_some hh))

omit [Px F] in
theorem blur_sound {hit : Option (HitRect F)} (h : Sound s) : Sound (blur hit s) := by
  unfold blur
  split
  · exact h
  · split
    · next old hold => exact (dispatch_sound h (h.focused hold)).congr rfl rfl rfl rfl
    · exact h

theorem capture_sound {r : HitRect F} {x y : F} (h : Sound s)
    (ha : Aim.Aligned s.tree ⟨r.eid, some r.node⟩) : Sound (capture r x y s) := by
  have hcaptured : Sound { s with
      captured := some { r.toBox with aim := ⟨r.eid, some r.node⟩, scrolled := r.scrolled } } :=
    h.set rfl rfl rfl (fun c hc => .inr (by cases hc; exact ha)) (fun a h => .inl h)
      fun a h => .inl h
  have hfocus {s' : Renderer F} (h' : Sound s') (ht : s'.tree = s.tree) {p d : Bool} :
      Sound { s' with
        focused := if r.flags.key then some ⟨r.eid, some r.node⟩ else none
        pendingFocusScroll := p
        dirty := d } := by
    refine h'.set rfl rfl rfl (fun c h => .inl h) (fun a h => .inl h) fun a ha' => .inr ?_
    dsimp only at ha'
    split at ha'
    · cases ha'
      rw [ht]
      exact ha
    · cases ha'
  unfold capture
  dsimp only
  split
  · exact hfocus (dispatch_sound hcaptured ha) rfl
  · exact hfocus hcaptured rfl

theorem press_sound {hit : Option (HitRect F)} {x y : F} (h : Sound s)
    (ha : ∀ r ∈ hit, Aim.Aligned s.tree ⟨r.eid, some r.node⟩) : Sound (press hit x y s) := by
  have haim {p : Flags → Bool} {a : Aim}
      (h : (hit.bind fun r => if p r.flags then some ⟨r.eid, some r.node⟩ else none) = some a) :
      a.Aligned s.tree := by
    obtain ⟨r, hr, h⟩ := Option.bind_eq_some_iff.mp h
    split at h
    · cases h
      exact ha r hr
    · cases h
  unfold press
  dsimp only
  split
  · exact h.set rfl rfl rfl (fun c h => .inl h) (fun a h => .inr (haim h)) fun a h =>
      .inr (haim h)
  · exact h.set rfl rfl rfl (fun c h => .inl h) (fun a h => .inr (haim h)) fun a h =>
      .inr (haim h)

theorem onPointerDown_sound {x y : F} (h : Sound s) : Sound (onPointerDown x y s) := by
  have htree : (blur (s.hitAt x y) s).tree = s.tree := by
    unfold blur
    split
    · rfl
    · split <;> rfl
  have hblur : Sound (blur (s.hitAt x y) s) := blur_sound h
  have haim : ∀ r ∈ s.hitAt x y,
      Aim.Aligned (blur (s.hitAt x y) s).tree ⟨r.eid, some r.node⟩ := by
    intro r hr
    rw [htree]
    exact hit_aligned h hr
  unfold onPointerDown
  dsimp only
  split
  · next r hr =>
    split
    · exact capture_sound hblur (haim r hr)
    · exact press_sound hblur haim
  · exact press_sound hblur haim

omit [Px F] in
theorem onKey_sound {down : Bool} {codePoint keyId : Nat} (h : Sound s) :
    Sound (onKey down codePoint keyId s) := by
  unfold onKey
  split
  · next a ha => exact (dispatch_sound h (h.focused ha)).congr rfl rfl rfl rfl
  · exact h

theorem drag_sound {name : String} {c : Captured F} {x y : F} (h : Sound s)
    (hc : c.aim.Aligned s.tree) : Sound (drag name c x y s) :=
  (dispatch_sound h hc).congr rfl rfl rfl rfl

theorem onPointerMove_sound {x y : F} (h : Sound s) : Sound (onPointerMove x y s) := by
  unfold onPointerMove
  split
  · next c hc => exact drag_sound h (h.captured hc)
  · split
    · exact h
    · next d hd =>
      split
      · -- The gesture goes on, on the element it began on.
        refine h.set rfl rfl rfl (fun c h => .inl h) (fun a ha => .inl ?_) fun a h => .inl h
        rw [hd]
        exact ha
      · exact h

theorem onPointerUp_sound {x y : F} (h : Sound s) : Sound (onPointerUp x y s) := by
  unfold onPointerUp
  split
  · next c hc =>
    have hreleased : Sound { s with captured := none } :=
      h.set rfl rfl rfl (fun c h => by cases h) (fun a h => .inl h) fun a h => .inl h
    exact drag_sound hreleased (h.captured hc)
  · split
    · exact h
    · next d hd =>
      have hreleased : Sound { s with down := none } :=
        h.set rfl rfl rfl (fun c h => .inl h) (fun a h => by cases h) fun a h => .inl h
      dsimp only
      split
      · next a ha =>
        split
        · exact hreleased
        · have haim : a.Aligned s.tree := h.click (by rw [hd]; exact ha)
          exact (dispatch_sound hreleased haim).congr rfl rfl rfl rfl
      · exact hreleased

/-! ## Frames -/

/-- The layout finds anew what listens and, where it is declared, what has the focus. -/
theorem keepWalk_sound {layout : NodeId → Box F} (hd : Distinct s.tree) (hr : s.Reaches)
    (ha : ∀ a ∈ s.keptAims s.tree, a.Aligned s.tree) : Sound (keepWalk layout s).1 := by
  let w₀ : Walk F :=
    { scrollVp := s.scrollVp, scrollBottom := lit 0 1, scrollContentH := s.scrollContentH }
  have hw₀ : w₀.From s.tree.entries :=
    ⟨fun h hh => absurd hh List.not_mem_nil, fun a ha => nomatch ha⟩
  have hw : (paintWalk layout (lit 0 1) (lit 0 1) false s.tree w₀).From s.tree.entries :=
    hw₀.paintWalk fun e he => he
  have hsaw : (paintWalk layout (lit 0 1) (lit 0 1) false s.tree w₀).sawFocusAttr =
      (false || declaresFocus s.tree) :=
    sawFocusAttr_paintWalk
  refine ⟨hd, fun h hh => ?_, fun a has => ?_, hr⟩
  · obtain ⟨l, hl, hi⟩ := hw.hits h hh
    exact holder_of_mem hd hl hi
  · rcases List.mem_append.mp has with has | has
    · exact ha a (List.mem_append_left _ has)
    · have hfocus := Option.mem_toList.mp has
      change (if (paintWalk layout (lit 0 1) (lit 0 1) false s.tree w₀).sawFocusAttr then _
        else s.focused) = some a at hfocus
      rw [hsaw, Bool.false_or] at hfocus
      split at hfocus
      · -- The focus is where it is declared.
        obtain ⟨n, l, hn, hl, hi⟩ := hw.domFocus a hfocus
        exact (holder_of_mem hd hl hi).trans hn.symm
      · next hno =>
        refine ha a (List.mem_append_right _ ?_)
        rw [if_neg hno]
        exact Option.mem_toList.mpr hfocus

theorem stick_sound {key : Option String} (h : Sound s) : Sound (stick key s) := by
  unfold stick
  cases key with
  | none => exact h
  | some key =>
    dsimp only
    split <;> split <;> exact h.congr rfl rfl rfl rfl

theorem ensureFocusedVisible_sound (h : Sound s) : Sound (ensureFocusedVisible s) := by
  unfold ensureFocusedVisible
  split
  · exact h
  · split
    · exact h
    · dsimp only
      split <;> split <;> exact h.congr rfl rfl rfl rfl

theorem relayout_sound {layout : NodeId → Box F} (h : Sound (keepWalk layout s).1) :
    Sound (relayout layout s) := by
  have hstick : Sound (stick (keepWalk layout s).2 (keepWalk layout s).1) := stick_sound h
  unfold relayout
  dsimp only
  generalize stick (keepWalk layout s).2 (keepWalk layout s).1 = s' at hstick
  have hclamped : Sound { s' with scrollY := clamp s'.scrollY (lit 0 1) s'.maxScroll } :=
    hstick.congr rfl rfl rfl rfl
  split
  · generalize { s' with scrollY := clamp s'.scrollY (lit 0 1) s'.maxScroll } = s'' at hclamped ⊢
    exact (ensureFocusedVisible_sound hclamped).congr rfl rfl rfl rfl
  · exact hclamped

omit [Px F] in
/-- What is kept is still right in another tree. -/
theorem rerender_aims (h : Sound s) (hd : Distinct tree) (hs : Stays s.tree tree)
    (hnew : ∀ a ∈ s.keptAims tree, ∀ n, holder tree a.eid = some n → n ∈ s.tree.ids) :
    ∀ a ∈ (rerender tree s).keptAims tree, a.Aligned tree := by
  have hkept {a : Aim} (ha : a ∈ s.keptAims tree) (hin : a ∈ s.aims) :
      (a.retarget tree).Aligned tree :=
    (h.aims a hin).retarget h.distinct hd hs (hnew a ha)
  intro a ha
  rcases List.mem_append.mp ha with ha | ha
  · rcases List.mem_append.mp ha with ha | ha
    · obtain ⟨c, hc, rfl⟩ := Option.map_eq_some_iff.mp (Option.mem_toList.mp ha)
      obtain ⟨c, hs, rfl⟩ := Option.map_eq_some_iff.mp hc
      have hmem : c.aim ∈ (s.captured.map Captured.aim).toList := by
        rw [hs]
        exact List.mem_cons_self
      exact hkept (List.mem_append_left _ (List.mem_append_left _ hmem))
        (List.mem_append_left _ (List.mem_append_left _ hmem))
    · obtain ⟨d, hd, hclick⟩ := Option.bind_eq_some_iff.mp (Option.mem_toList.mp ha)
      obtain ⟨d, hs, rfl⟩ := Option.map_eq_some_iff.mp hd
      obtain ⟨b, hb, rfl⟩ := Option.map_eq_some_iff.mp hclick
      have hmem : b ∈ (s.down.bind Down.click).toList := by
        rw [hs]
        exact Option.mem_toList.mpr hb
      exact hkept (List.mem_append_left _ (List.mem_append_right _ hmem))
        (List.mem_append_left _ (List.mem_append_right _ hmem))
  · split at ha
    · cases ha
    · next hno =>
      obtain ⟨b, hb, rfl⟩ := Option.map_eq_some_iff.mp (Option.mem_toList.mp ha)
      have hmem : b ∈ s.focused.toList := Option.mem_toList.mpr hb
      refine hkept (List.mem_append_right _ ?_) (List.mem_append_right _ hmem)
      rw [if_neg hno]
      exact hmem

theorem render_sound {layout : NodeId → Box F} (h : Sound s) (hd : Distinct tree)
    (hs : Stays s.tree tree)
    (hnew : ∀ a ∈ s.keptAims tree, ∀ n, holder tree a.eid = some n → n ∈ s.tree.ids) :
    Sound (relayout layout (rerender tree s)) :=
  relayout_sound (keepWalk_sound hd h.reaches (rerender_aims h hd hs hnew))

omit [Px F] in
theorem Sound.clean (h : Sound s) : Sound { s with dirty := false } := h.congr rfl rfl rfl rfl

theorem renderFrame_sound {size : F × F} {layout : NodeId → Box F} (h : Sound s)
    (hm : Mounted s (.frame size tree layout)) (hu : Unrecycled s (.frame size tree layout)) :
    Sound (renderFrame size tree layout s) := by
  -- A surface that has no size yet is given one first; all else is as it was.
  obtain ⟨surface, he⟩ : ∃ surface,
      (if isZero s.surface.1 then { s with surface := size } else s) = { s with surface } := by
    split
    · exact ⟨size, rfl⟩
    · exact ⟨s.surface, rfl⟩
  have hsized : Sound { s with surface } := h.congr rfl rfl rfl rfl
  unfold renderFrame
  rw [he]
  dsimp only
  split
  · exact hsized
  · next hp =>
    split
    · next hdirty =>
      exact (render_sound hsized hm.1 hm.2 (hu (by simpa using hp) hdirty)).clean
    · exact hsized

/-! ## Runs -/

theorem step_sound {i : Input F} (h : Sound s) (hm : Mounted s i) (hu : Unrecycled s i) :
    Sound (step s i) := by
  cases i with
  | frame size tree layout => exact renderFrame_sound h hm hu
  | pointerDown x y => exact onPointerDown_sound h
  | pointerMove x y => exact onPointerMove_sound h
  | pointerUp x y => exact onPointerUp_sound h
  | scroll x y dx dy =>
    dsimp only [step, onScroll]
    split
    · exact h.congr rfl rfl rfl rfl
    · exact h
  | key down codePoint keyId => exact onKey_sound h
  | resize w h' => exact h.congr rfl rfl rfl rfl
  | setScale scale =>
    dsimp only [step]
    split
    · exact h.congr rfl rfl rfl rfl
    · exact h
  | setKeyboardInset px => exact h.congr rfl rfl rfl rfl
  | markDirty => exact h.congr rfl rfl rfl rfl
  | lifecycle state => exact h.congr rfl rfl rfl rfl

/-- A renderer that has shown nothing yet. -/
structure Fresh (s : Renderer F) : Prop where
  tree : s.tree = .nil
  hits : s.hits = []
  aims : s.aims = []
  log : s.log = []

omit [Px F] in
theorem Fresh.sound (h : Fresh s) : Sound s := by
  refine ⟨?_, ?_, ?_, ?_⟩
  · rw [h.tree]
    intro e he
    cases he
  · rw [h.hits]
    intro r hr
    cases hr
  · rw [h.aims]
    intro a ha
    cases ha
  · intro d hd
    rw [h.log] at hd
    cases hd

/-- What input is sent to, in every order of presses, keys and frames, is the node that was
    pressed or had the focus, and nothing once that is gone, if no identifier that is kept has been
    given to another node. -/
theorem reached_of_run {s₀ s : Renderer F} (h₀ : Fresh s₀)
    (h : Machine.Run step (fun s i => Mounted s i ∧ Unrecycled s i) s₀ s) : s.Reaches :=
  (h.invariant h₀.sound fun _ hs hi => step_sound hs hi.1 hi.2).reaches

/-! ## A tap while the screen changes -/

instance pxInt : Px Int where
  lit n d := n / d
  lt x y := decide (x < y)
  le x y := decide (x ≤ y)
  max x y := if x ≤ y then y else x
  min x y := if x ≤ y then x else y
  abs x := if x ≤ 0 then -x else x

/-- A button that fills the screen. -/
def button (n : NodeId) (i : ElementId) : Forest Label :=
  .node n { kind := .element "div" .empty ["click"], elementId := some i } .nil .nil

def blank : Renderer Int where
  surface := (10, 10)
  keyboardInset := 0
  scale := 1
  scrollVp := ⟨0, 0, 0, 0⟩
  scrollContentH := 0
  scrollY := 0

/-- A tap on the first button; another tree is shown before it is released. -/
def tap (tree : Forest Label) : List (Input Int) :=
  let fill : NodeId → Box Int := fun _ => ⟨0, 0, 10, 10⟩
  [.frame (10, 10) (button 1 7) fill, .pointerDown 5 5, .markDirty, .frame (10, 10) tree fill,
    .pointerUp 5 5]

theorem fresh_blank : Fresh blank := ⟨rfl, rfl, rfl, rfl⟩

theorem distinct_button {n : NodeId} {i : ElementId} : Distinct (button n i) := by
  intro e he e' he' _ _ _
  rw [List.mem_singleton.mp he, List.mem_singleton.mp he']

/-- A button that stays is clicked, and one that is gone is not. -/
theorem reached_of_run_tap :
    Reaches ((tap (button 1 7)).foldl step blank) ∧
      Reaches ((tap (button 2 8)).foldl step blank) := by
  have hfirst : Stays .nil (button 1 7) := fun e he => by cases he
  refine ⟨reached_of_run fresh_blank (Machine.run_of_goes ?_),
    reached_of_run fresh_blank (Machine.run_of_goes ?_)⟩
  · refine ⟨⟨⟨distinct_button, hfirst⟩, fun _ _ a ha => ?_⟩, ⟨trivial, trivial⟩, ⟨trivial, trivial⟩,
      ⟨⟨distinct_button, fun e he e' he' _ => ?_⟩, fun _ _ a ha n hn => ?_⟩, ⟨trivial, trivial⟩,
      trivial⟩
    · cases ha
    · rw [List.mem_singleton.mp he, List.mem_singleton.mp he']
    · obtain ⟨l, hl, -⟩ := exists_of_holder hn
      exact Forest.mem_ids_of_entries hl
  · refine ⟨⟨⟨distinct_button, hfirst⟩, fun _ _ a ha => ?_⟩, ⟨trivial, trivial⟩, ⟨trivial, trivial⟩,
      ⟨⟨distinct_button, fun e he e' he' hee' => ?_⟩, fun _ _ a ha n hn => ?_⟩, ⟨trivial, trivial⟩,
      trivial⟩
    · cases ha
    · rw [List.mem_singleton.mp he, List.mem_singleton.mp he'] at hee'
      cases hee'
    · rw [List.mem_singleton.mp (show a ∈ [⟨7, some 1⟩] from ha)] at hn
      cases hn

/-- The tap on the first button clicks the second, which has its identifier. -/
theorem click_recycled : ¬ ∀ s : Renderer Int, Machine.Run step Mounted blank s → s.Reaches := by
  intro h
  have hrun : Machine.Run step Mounted blank ((tap (button 2 7)).foldl step blank) := by
    refine Machine.run_of_goes ⟨⟨distinct_button, fun e he => by cases he⟩, trivial, trivial,
      ⟨distinct_button, fun e he e' he' hee' => ?_⟩, trivial, trivial⟩
    rw [List.mem_singleton.mp he, List.mem_singleton.mp he'] at hee'
    cases hee'
  have hlog : ((tap (button 2 7)).foldl step blank).log =
      [⟨"click", 7, .mouse 5 5 0 0, none, some 2⟩] := by
    decide
  have hclick := h _ hrun ⟨"click", 7, .mouse 5 5 0 0, none, some 2⟩
    (hlog ▸ List.mem_singleton_self _)
  cases hclick

end Renderer

end Wandr.Canvas
