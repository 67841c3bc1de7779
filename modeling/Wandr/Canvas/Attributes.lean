import Mathlib.Data.List.Nodup
import Wandr.Canvas.Dom
import Wandr.Lib.Machine

/-!
# Attributes of an element

The properties of an element come from the attributes of its template, and from the ones that are
set later. The attribute `style` declares several of them. They are all kept in one map, which does
not tell what attribute a property came from.

* `inForce`: what a property is, of the last value of each attribute;
* `mergeAttr_get?`: what is merged into a map lies over it;
* `Attributed.shows_iff`: the map shows what is in force after a call if and only if nothing is in
  force any more that the call would have to take out;
* `attributes_hold`: so it is throughout a run.
-/

namespace Wandr.Canvas

open Machine Text

/-! ## What is in force -/

/-- A call that sets an attribute. -/
structure Setting where
  name : String
  value : AttributeValue

/-- What is declared. -/
def Setting.style (c : Setting) : Style :=
  match attrToString c.value with
  | some v => mergeAttr .empty c.name v
  | none => .empty

/-- The last call of each name. -/
def latest : List Setting → List Setting
  | [] => []
  | c :: cs => if cs.any fun d => d.name = c.name then latest cs else c :: latest cs

/-- What the calls declare. -/
def given (calls : List Setting) (p : String) : Option (String × String) :=
  (latest calls).findSome? fun c => c.style.get? p

def TemplateAttribute.isNamed (name : String) : TemplateAttribute → Bool
  | .static n _ => n = name
  | .dynamic _ => false

/-- What the template declares under the names that were not set. -/
def untouched (attrs : List TemplateAttribute) (calls : List Setting) : Style :=
  (attrs.filter fun a => calls.all fun c => !a.isNamed c.name).foldl staticAttr .empty

/-- A property and its value. -/
def inForce (attrs : List TemplateAttribute) (calls : List Setting) (p : String) :
    Option (String × String) :=
  (given calls p).or ((untouched attrs calls).get? p)

/-- What is in force when an attribute is taken away. -/
def without (attrs : List TemplateAttribute) (calls : List Setting) (name : String) :
    String → Option (String × String) :=
  inForce attrs (calls ++ [⟨name, .none⟩])

/-- What the attribute `style` declares. -/
def styled (attrs : List TemplateAttribute) (calls : List Setting) : Style :=
  match (latest calls).find? fun c => c.name = "style" with
  | some c => c.style
  | none => (attrs.filter fun a => a.isNamed "style").foldl staticAttr .empty

/-! ## Calls -/

def NodeKind.style : NodeKind → Style
  | .element _ style _ => style
  | .text _ | .placeholder => .empty

/-- An element and the calls so far. -/
structure Attributed where
  kind : NodeKind
  calls : List Setting := []

namespace Attributed

def step (s : Attributed) (c : Setting) : Attributed where
  kind := s.kind.setAttribute c.name c.value
  calls := s.calls ++ [c]

variable (attrs : List TemplateAttribute) (s : Attributed)

/-- The map shows what is in force. -/
def Shows : Prop := ∀ p, s.kind.style.get? p = inForce attrs s.calls p

/-- A value of `style` declares each property that is declared by the one in force, up to those that
    are as they would be without it, and when another attribute is taken away nothing else gives
    its property. -/
def Allowed (c : Setting) : Prop :=
  if c.name = "style" then
    ∀ e ∈ (styled attrs s.calls).rows, c.style.get? e.1 = none →
      e.1 = "style" ∧ attrToString c.value = none ∨
        without attrs s.calls "style" e.1 = inForce attrs s.calls e.1
  else attrToString c.value = none → without attrs s.calls c.name c.name = none

instance (c : Setting) : Decidable (s.Allowed attrs c) := by
  unfold Allowed
  infer_instance

end Attributed

/-- No property is declared by two attributes. -/
def Apart (calls : List Setting) : Prop :=
  ∀ c ∈ calls, ∀ d ∈ calls, ∀ e ∈ c.style.rows, (d.style.get? e.1).isSome → c.name = d.name

instance (calls : List Setting) : Decidable (Apart calls) := by
  unfold Apart
  infer_instance

/-! ## Merging -/

theorem declare_get? (style : Style) (d : List Char) (p : String) :
    (declare style d).get? p = ((declare .empty d).get? p).or (style.get? p) := by
  unfold declare
  split
  · rw [Table.get?_put, Table.get?_put]
    split
    · rfl
    · rfl
  · rfl

theorem foldl_declare_get? (style : Style) (ds : List (List Char)) (p : String) :
    (ds.foldl declare style).get? p = ((ds.foldl declare .empty).get? p).or (style.get? p) := by
  induction ds generalizing style with
  | nil => rfl
  | cons d ds ih =>
    rw [List.foldl_cons, List.foldl_cons, ih, ih (declare .empty d), declare_get? style,
      Option.or_assoc]

/-- What is merged into a map lies over it. -/
theorem mergeAttr_get? (style : Style) (name value p : String) :
    (mergeAttr style name value).get? p =
      ((mergeAttr .empty name value).get? p).or (style.get? p) := by
  unfold mergeAttr
  split
  · exact foldl_declare_get? style _ p
  · split
    all_goals
      rw [Table.get?_put, Table.get?_put]
      split
      · rfl
      · rfl

/-- A single property. -/
theorem mergeAttr_get?_of_ne {name p : String} (hn : name ≠ "style") (hp : p ≠ name)
    (value : String) : (mergeAttr .empty name value).get? p = none := by
  unfold mergeAttr
  rw [if_neg hn]
  split <;> rw [Table.get?_put, if_neg hp] <;> rfl

theorem mergeAttr_get?_self {name : String} (hn : name ≠ "style") (value : String) :
    ((mergeAttr .empty name value).get? name).isSome := by
  unfold mergeAttr
  rw [if_neg hn]
  split <;> rw [Table.get?_put, if_pos rfl] <;> rfl

section

variable {attrs : List TemplateAttribute} {calls : List Setting} {c d : Setting} {name p : String}

theorem foldl_staticAttr_get? (style : Style) (attrs : List TemplateAttribute) (p : String) :
    (attrs.foldl staticAttr style).get? p =
      (attrs.reverse.findSome? fun a => (staticAttr .empty a).get? p).or (style.get? p) := by
  induction attrs generalizing style with
  | nil => rfl
  | cons a attrs ih =>
    have ha : (staticAttr style a).get? p =
        ((staticAttr .empty a).get? p).or (style.get? p) := by
      cases a with
      | static name value => exact mergeAttr_get? style name value p
      | dynamic id => rfl
    rw [List.foldl_cons, ih, ha, List.reverse_cons, List.findSome?_append,
      List.findSome?_singleton, Option.or_assoc]

/-- What is passed by gives nothing. -/
theorem findSome?_filter_of {α β : Type} {f : α → Option β} {q : α → Bool} {l : List α}
    (h : ∀ a ∈ l, q a = false → f a = none) : (l.filter q).findSome? f = l.findSome? f := by
  induction l with
  | nil => rfl
  | cons a l ih =>
    have hl := ih fun b hb => h b (List.mem_cons_of_mem _ hb)
    cases hq : q a with
    | true => rw [List.filter_cons_of_pos hq, List.findSome?_cons, List.findSome?_cons, hl]
    | false =>
      rw [List.filter_cons_of_neg (Bool.not_eq_true _ ▸ hq), hl, List.findSome?_cons,
        h a List.mem_cons_self hq]

/-! ## The last calls -/

theorem latest_concat (calls : List Setting) (c : Setting) :
    latest (calls ++ [c]) = ((latest calls).filter fun d => d.name ≠ c.name) ++ [c] := by
  induction calls with
  | nil => rfl
  | cons d calls ih =>
    have hany : (calls ++ [c]).any (fun e => e.name = d.name) =
        (calls.any (fun e => e.name = d.name) || decide (c.name = d.name)) := by
      rw [List.any_append]
      congr 1
      exact Bool.or_false _
    rw [List.cons_append, latest, latest, hany, ih]
    by_cases h : calls.any fun e => e.name = d.name
    · rw [h, Bool.true_or, if_pos rfl, if_pos rfl]
    · rw [Bool.not_eq_true] at h
      rw [h, Bool.false_or]
      by_cases hc : c.name = d.name
      · rw [if_pos (decide_eq_true hc), if_neg Bool.false_ne_true, List.filter_cons_of_neg]
        simp [hc]
      · rw [if_neg (by simpa using hc), if_neg Bool.false_ne_true, List.filter_cons_of_pos,
          List.cons_append]
        simpa using Ne.symm hc

theorem mem_of_mem_latest (h : c ∈ latest calls) : c ∈ calls := by
  induction calls with
  | nil => exact h
  | cons d calls ih =>
    rw [latest] at h
    split at h
    · exact List.mem_cons_of_mem _ (ih h)
    · rcases List.mem_cons.1 h with rfl | h
      · exact List.mem_cons_self
      · exact List.mem_cons_of_mem _ (ih h)

theorem latest_nodup (calls : List Setting) : ((latest calls).map Setting.name).Nodup := by
  induction calls with
  | nil => exact List.nodup_nil
  | cons d calls ih =>
    rw [latest]
    split
    · exact ih
    · next h =>
      refine List.nodup_cons.2 ⟨fun hm => h ?_, ih⟩
      obtain ⟨e, he, hn⟩ := List.mem_map.1 hm
      exact List.any_eq_true.2 ⟨e, mem_of_mem_latest he, decide_eq_true hn⟩

/-- What the other attributes declare. -/
def others (calls : List Setting) (name p : String) : Option (String × String) :=
  ((latest calls).filter fun d => d.name ≠ name).findSome? fun d => d.style.get? p

theorem given_concat : given (calls ++ [c]) p = (others calls c.name p).or (c.style.get? p) := by
  rw [given, latest_concat, List.findSome?_append, others]
  congr 1
  rw [List.findSome?_singleton]

/-! ## What the others give -/

theorem style_get?_of_ne (hn : c.name ≠ "style") (hp : p ≠ c.name) : c.style.get? p = none := by
  unfold Setting.style
  split
  · exact mergeAttr_get?_of_ne hn hp _
  · rfl

theorem staticAttr_get?_of_ne {a : TemplateAttribute} (ha : a.isNamed name) (hn : name ≠ "style")
    (hp : p ≠ name) : (staticAttr .empty a).get? p = none := by
  cases a with
  | static n value =>
    obtain rfl : n = name := of_decide_eq_true ha
    exact mergeAttr_get?_of_ne hn hp value
  | dynamic id => rfl

/-- An attribute that does not declare the property may be left out. -/
theorem untouched_concat (h : ∀ a ∈ attrs, (calls.all fun d => !a.isNamed d.name) →
      a.isNamed c.name → (staticAttr .empty a).get? p = none) :
    (untouched attrs (calls ++ [c])).get? p = (untouched attrs calls).get? p := by
  have hfilter : (attrs.filter fun a => (calls ++ [c]).all fun d => !a.isNamed d.name) =
      (attrs.filter fun a => calls.all fun d => !a.isNamed d.name).filter
        fun a => !a.isNamed c.name := by
    rw [List.filter_filter]
    refine List.filter_congr fun a _ => ?_
    rw [List.all_append, Bool.and_comm, List.all_cons, List.all_nil, Bool.and_true]
  rw [untouched, untouched, foldl_staticAttr_get?, foldl_staticAttr_get?, hfilter,
    ← List.filter_reverse, findSome?_filter_of]
  intro a ha hnamed
  obtain ⟨ha, hall⟩ := List.mem_filter.1 (List.mem_reverse.1 ha)
  exact h a ha hall (by simpa using hnamed)

/-- The calls of an attribute that does not declare the property may be left out. -/
theorem others_eq_given (h : ∀ d ∈ latest calls, d.name = name → d.style.get? p = none) :
    others calls name p = given calls p :=
  findSome?_filter_of fun d hd hq => h d hd (by simpa using hq)

/-- A single property is no other attribute's. -/
theorem inForce_concat_of_ne (hn : c.name ≠ "style") (hp : p ≠ c.name) :
    inForce attrs (calls ++ [c]) p = inForce attrs calls p := by
  have hgiven : given (calls ++ [c]) p = given calls p := by
    rw [given_concat, style_get?_of_ne hn hp, Option.or_none]
    exact others_eq_given fun d _ hd => style_get?_of_ne (hd ▸ hn) (hd ▸ hp)
  have hun : (untouched attrs (calls ++ [c])).get? p = (untouched attrs calls).get? p :=
    untouched_concat fun a _ _ ha => staticAttr_get?_of_ne ha hn hp
  rw [inForce, hgiven, hun, inForce]

/-- What `style` does not declare is as it is without it. -/
theorem without_style (h : (styled attrs calls).get? p = none) :
    without attrs calls "style" p = inForce attrs calls p := by
  have hlast : ∀ d ∈ latest calls, d.name = "style" → (styled attrs calls) = d.style := by
    intro d hd hn
    obtain ⟨e, he⟩ := Option.isSome_iff_exists.1
      (List.find?_isSome.2 ⟨d, hd, decide_eq_true hn⟩ :
        ((latest calls).find? fun c => c.name = "style").isSome)
    have hname : e.name = "style" := of_decide_eq_true (List.find?_some he :)
    obtain rfl : e = d := List.inj_on_of_nodup_map (latest_nodup calls)
      (List.mem_of_find?_eq_some he) hd (hname.trans hn.symm)
    rw [styled, he]
  have hgiven : given (calls ++ [⟨"style", .none⟩]) p = given calls p := by
    rw [given_concat]
    exact (Option.or_none).trans (others_eq_given fun d hd hn => hlast d hd hn ▸ h)
  have hun : (untouched attrs (calls ++ [⟨"style", .none⟩])).get? p =
      (untouched attrs calls).get? p := by
    refine untouched_concat fun a ha hall hnamed => ?_
    -- No call was one of `style`, or it would be left out already.
    have hnone : ((latest calls).find? fun c => c.name = "style") = none := by
      refine List.find?_eq_none.2 fun d hd hn => ?_
      have hnot := List.all_eq_true.1 hall d (mem_of_mem_latest hd)
      rw [of_decide_eq_true hn, hnamed] at hnot
      cases hnot
    rw [styled, hnone, foldl_staticAttr_get?, Option.or_eq_none_iff] at h
    refine List.findSome?_eq_none_iff.1 h.1 a (List.mem_reverse.2 (List.mem_filter.2 ⟨ha, hnamed⟩))
  rw [without, inForce, hgiven, hun, inForce]

/-- What an attribute declares no other one does. -/
theorem others_eq_none {all : List Setting} (hA : Apart all) (hsub : ∀ d ∈ calls, d ∈ all)
    (hc : c ∈ all) (h : (c.style.get? p).isSome) : others calls c.name p = none := by
  refine List.findSome?_eq_none_iff.2 fun d hd => ?_
  obtain ⟨hd, hne⟩ := List.mem_filter.1 hd
  obtain ⟨e, he⟩ := Option.isSome_iff_exists.1 h
  obtain ⟨hrow, rfl⟩ := Table.get?_eq_some_iff.1 he
  by_contra hs
  refine of_decide_eq_true hne ?_
  exact (hA c hc d (hsub d (mem_of_mem_latest hd)) e hrow (Option.isSome_iff_ne_none.2 hs)).symm

theorem inForce_concat_of_some {e : String × String} (h : c.style.get? p = some e)
    (ho : others calls c.name p = none) : inForce attrs (calls ++ [c]) p = some e := by
  rw [inForce, given_concat, ho, h]
  rfl

/-- A call that does not declare the property takes the attribute away. -/
theorem inForce_concat_of_none (h : c.style.get? p = none) :
    inForce attrs (calls ++ [c]) p = without attrs calls c.name p := by
  have hun (d : Setting) (hd : d.name = c.name) :
      untouched attrs (calls ++ [c]) = untouched attrs (calls ++ [d]) := by
    rw [untouched, untouched]
    simp only [List.all_append, List.all_cons, hd]
  rw [without, inForce, inForce, given_concat, given_concat, h, hun ⟨c.name, .none⟩ rfl]
  rfl

/-! ## Steps -/

theorem NodeKind.setAttribute_get? {tag : String} {style : Style} {listeners : List String} :
    ((NodeKind.element tag style listeners).setAttribute c.name c.value).style.get? p =
      if attrToString c.value = none then if p = c.name then none else style.get? p
      else (c.style.get? p).or (style.get? p) := by
  unfold NodeKind.setAttribute Setting.style
  cases attrToString c.value with
  | none =>
    rw [if_pos rfl]
    exact Table.get?_erase
  | some v =>
    rw [if_neg (Option.some_ne_none v)]
    exact mergeAttr_get? style c.name v p

/-- `style` taken away is no property. -/
theorem without_style_style : without attrs calls "style" "style" = none := by
  have hd : ∀ d ∈ (latest calls).filter fun d => d.name ≠ "style",
      d.style.get? "style" = none := by
    intro d hd
    have hne : d.name ≠ "style" := of_decide_eq_true (List.mem_filter.1 hd).2
    exact style_get?_of_ne hne (Ne.symm hne)
  have hun : (untouched attrs (calls ++ [⟨"style", .none⟩])).get? "style" = none := by
    rw [untouched, foldl_staticAttr_get?, Option.or_eq_none_iff]
    refine ⟨List.findSome?_eq_none_iff.2 fun a ha => ?_, rfl⟩
    have hall := (List.mem_filter.1 (List.mem_reverse.1 ha)).2
    cases a with
    | dynamic id => rfl
    | static n value =>
      have hne : n ≠ "style" := by
        rintro rfl
        have hlast := List.all_eq_true.1 hall ⟨"style", .none⟩ List.mem_concat_self
        cases hlast
      exact mergeAttr_get?_of_ne hne (Ne.symm hne) value
  rw [without, inForce, given_concat, others, List.findSome?_eq_none_iff.2 hd, hun]
  rfl

namespace Attributed

variable {s : Attributed}

/-- The map shows what is in force after a call if and only if the call allows it. -/
theorem shows_iff {all : List Setting} (hA : Apart all) (hsub : ∀ d ∈ s.calls, d ∈ all)
    (hc : c ∈ all) {tag : String} {style : Style} {listeners : List String}
    (hk : s.kind = .element tag style listeners) (hs : s.Shows attrs) :
    (s.step c).Shows attrs ↔ s.Allowed attrs c := by
  have hstyle (p : String) : style.get? p = inForce attrs s.calls p := by
    have h := hs p
    rwa [hk] at h
  have hget (p : String) : (s.step c).kind.style.get? p =
      if attrToString c.value = none then if p = c.name then none else style.get? p
      else (c.style.get? p).or (style.get? p) := by
    rw [step, hk]
    exact NodeKind.setAttribute_get?
  have hempty (hv : attrToString c.value = none) (p : String) : c.style.get? p = none := by
    rw [Setting.style, hv]
    rfl
  -- A property that the call declares is in force, and shown.
  have hdeclared {p : String} (hp : (c.style.get? p).isSome) :
      (s.step c).kind.style.get? p = inForce attrs (s.step c).calls p := by
    obtain ⟨e, he⟩ := Option.isSome_iff_exists.1 hp
    have hv : attrToString c.value ≠ none := fun hv => by
      rw [hempty hv] at he
      cases he
    rw [hget, if_neg hv, he, step, inForce_concat_of_some he (others_eq_none hA hsub hc hp)]
    rfl
  have hshows : (s.step c).Shows attrs ↔ ∀ p, c.style.get? p = none →
      (s.step c).kind.style.get? p = without attrs s.calls c.name p := by
    refine forall_congr' fun p => ⟨fun h hp => ?_, fun h => ?_⟩
    · rw [h]
      exact inForce_concat_of_none hp
    · cases hp : c.style.get? p with
      | none => exact (h hp).trans (inForce_concat_of_none hp).symm
      | some e => exact hdeclared (Option.isSome_of_eq_some hp)
  -- Any other one is taken out, or stays as it is.
  have hshown {p : String} (hp : c.style.get? p = none) : (s.step c).kind.style.get? p =
      if attrToString c.value = none ∧ p = c.name then none else inForce attrs s.calls p := by
    rw [hget, hp, Option.none_or, ← hstyle]
    by_cases hv : attrToString c.value = none <;> simp [hv]
  rw [hshows, Allowed]
  by_cases hn : c.name = "style"
  · rw [if_pos hn, hn]
    constructor
    · intro h e _ hp
      have he := h e.1 hp
      rw [hshown hp, hn] at he
      by_cases hout : attrToString c.value = none ∧ e.1 = "style"
      · exact .inl ⟨hout.2, hout.1⟩
      · rw [if_neg hout] at he
        exact .inr he.symm
    · intro h p hp
      rw [hshown hp, hn]
      by_cases hout : attrToString c.value = none ∧ p = "style"
      · rw [if_pos hout, hout.2, without_style_style]
      · rw [if_neg hout]
        cases hst : (styled attrs s.calls).get? p with
        | none => exact (without_style hst).symm
        | some e =>
          obtain ⟨he, rfl⟩ := Table.get?_eq_some_iff.1 hst
          rcases h e he hp with hleft | hright
          · exact absurd hleft.symm hout
          · exact hright.symm
  · rw [if_neg hn]
    constructor
    · intro h hv
      have hself := h c.name (hempty hv c.name)
      rw [hshown (hempty hv c.name), if_pos ⟨hv, rfl⟩] at hself
      exact hself.symm
    · intro h p hp
      rw [hshown hp]
      by_cases hpn : p = c.name
      · subst hpn
        have hv : attrToString c.value = none := by
          cases hv : attrToString c.value with
          | none => rfl
          | some v =>
            have hself := mergeAttr_get?_self hn v
            rw [Setting.style, hv] at hp
            dsimp only at hp
            rw [hp] at hself
            cases hself
        rw [if_pos ⟨hv, rfl⟩, h hv]
      · rw [if_neg fun hout => hpn hout.2]
        have hkeep : inForce attrs (s.calls ++ [c]) p = inForce attrs s.calls p :=
          inForce_concat_of_ne hn hpn
        rw [← hkeep]
        exact inForce_concat_of_none hp

end Attributed

/-! ## Runs -/

/-- An element of a template. -/
def Attributed.start (tag : String) (attrs : List TemplateAttribute) (children : List TemplateNode) :
    Attributed := { kind := (TemplateNode.element tag attrs children).kind }

/-- After each call of a run in which no property is declared by two attributes the element shows
    what the last values declare, over the rest of the template, if and only if each call allows
    it. -/
theorem attributes_hold (tag : String) (attrs : List TemplateAttribute)
    (children : List TemplateNode) (calls : List Setting) (hA : Apart calls) :
    Goes Attributed.step (fun s c => (s.step c).Shows attrs) (.start tag attrs children) calls ↔
      Goes Attributed.step (fun s c => s.Allowed attrs c) (.start tag attrs children) calls := by
  refine goes_congr (P := fun c => c ∈ calls)
    (J := fun s => (∀ d ∈ s.calls, d ∈ calls) ∧ s.Shows attrs ∧
      ∃ tag style listeners, s.kind = .element tag style listeners) ?_ ?_ ?_ fun c hc => hc
  · rintro s c ⟨hsub, hs, tag, style, listeners, hk⟩ hc
    exact Attributed.shows_iff hA hsub hc hk hs
  · rintro s c ⟨hsub, -, tag, style, listeners, hk⟩ hc hshows
    refine ⟨fun d hd => ?_, hshows, ?_⟩
    · rcases List.mem_append.1 hd with hd | hd
      · exact hsub d hd
      · exact List.mem_singleton.1 hd ▸ hc
    · rw [Attributed.step, hk]
      dsimp only [NodeKind.setAttribute]
      cases attrToString c.value with
      | none => exact ⟨_, _, _, rfl⟩
      | some v => exact ⟨_, _, _, rfl⟩
  · refine ⟨fun d hd => absurd hd List.not_mem_nil, fun p => ?_, _, _, _, rfl⟩
    have hall : (attrs.filter fun a => ([] : List Setting).all fun c => !a.isNamed c.name) = attrs :=
      List.filter_eq_self.2 fun _ _ => rfl
    exact congrArg (fun l : List TemplateAttribute => (l.foldl staticAttr .empty).get? p) hall.symm

end

/-- A field whose style keeps its properties, and whose width is taken away again. -/
def keepsProperties : List Setting :=
  [⟨"style", .text "gap: 4px; color: red"⟩, ⟨"width", .int 40⟩,
    ⟨"style", .text "color: blue; gap: 8px"⟩, ⟨"width", .none⟩]

theorem attributes_hold_keeps : Goes Attributed.step
    (fun s c => (s.step c).Shows [.static "height" "20"])
    (.start "div" [.static "height" "20"] []) keepsProperties :=
  (attributes_hold "div" _ [] keepsProperties (by decide)).2 (by decide)

/-- A color is dropped from a style. -/
theorem dropped_color_stays : ¬ Goes Attributed.step (fun s c => (s.step c).Shows [])
    (.start "div" [] []) [⟨"style", .text "gap: 4px; color: red"⟩, ⟨"style", .text "gap: 4px"⟩] := by
  intro h
  have hcolor := h.2.1 "color"
  exact absurd hcolor (by decide)

end Wandr.Canvas
