import Mathlib.Data.List.Basic

/-!
# Changing the first that matches

* `First.modify_spec`: nothing matches, or the first that matches is changed, and nothing else;
* `First.modify_confined`: the change is one of a part of the list, as if there were nothing
  else, if and only if the first that matches is in that part, or nothing is to be changed.
-/

namespace First

variable {α : Type*} {p q : α → Bool} {f : α → α} {a : α} {l : List α}

/-- Change the first that matches. -/
def modify (p : α → Bool) (f : α → α) : List α → List α
  | [] => []
  | a :: l => if p a then f a :: l else a :: modify p f l

theorem modify_cons_pos (h : p a) : modify p f (a :: l) = f a :: l := if_pos h

theorem modify_cons_neg (h : p a = false) : modify p f (a :: l) = a :: modify p f l :=
  if_neg (Bool.eq_false_iff.1 h)

/-- Nothing matches, or the first that matches is changed. -/
theorem modify_spec (p : α → Bool) (f : α → α) (l : List α) :
    (l.find? p = none ∧ modify p f l = l) ∨
      ∃ l₁ a l₂, l.find? p = some a ∧ p a ∧ (∀ b ∈ l₁, p b = false) ∧ l = l₁ ++ a :: l₂ ∧
        modify p f l = l₁ ++ f a :: l₂ := by
  induction l with
  | nil => exact .inl ⟨rfl, rfl⟩
  | cons a l ih =>
    cases hp : p a with
    | true =>
      exact .inr ⟨[], a, l, List.find?_cons_of_pos hp, hp, fun _ h => (List.not_mem_nil h).elim,
        rfl, modify_cons_pos hp⟩
    | false =>
      have hne : ¬ p a = true := Bool.eq_false_iff.1 hp
      rw [List.find?_cons_of_neg hne, modify_cons_neg hp]
      rcases ih with ⟨hn, hm⟩ | ⟨l₁, b, l₂, hs, hb, hall, hl, hm⟩
      · exact .inl ⟨hn, congrArg _ hm⟩
      · exact .inr ⟨a :: l₁, b, l₂, hs, hb, List.forall_mem_cons.2 ⟨hp, hall⟩,
          congrArg _ hl, congrArg _ hm⟩

/-- What does not see the change. -/
theorem map_modify {β : Type*} {g : α → β} (h : ∀ a, p a → g (f a) = g a) :
    (modify p f l).map g = l.map g := by
  induction l with
  | nil => rfl
  | cons a l ih =>
    cases hp : p a with
    | true => rw [modify_cons_pos hp, List.map_cons, h a hp, List.map_cons]
    | false => rw [modify_cons_neg hp, List.map_cons, ih, List.map_cons]

/-- Only the first that matches counts. -/
theorem modify_congr {g : α → α} (h : ∀ a ∈ l.find? p, f a = g a) :
    modify p f l = modify p g l := by
  induction l with
  | nil => rfl
  | cons a l ih =>
    cases hp : p a with
    | true => rw [modify_cons_pos hp, modify_cons_pos hp, h a (List.find?_cons_of_pos hp)]
    | false =>
      rw [List.find?_cons_of_neg (Bool.eq_false_iff.1 hp)] at h
      rw [modify_cons_neg hp, modify_cons_neg hp, ih h]

/-- Nothing is to be changed. -/
theorem modify_eq_self : modify p f l = l ↔ ∀ a ∈ l.find? p, f a = a := by
  induction l with
  | nil => exact iff_of_true rfl nofun
  | cons a l ih =>
    cases hp : p a with
    | true =>
      rw [modify_cons_pos hp, List.find?_cons_of_pos hp, List.cons.injEq, and_iff_left rfl]
      exact ⟨fun h _ hb => Option.some.inj hb ▸ h, fun h => h a rfl⟩
    | false =>
      rw [modify_cons_neg hp, List.find?_cons_of_neg (Bool.eq_false_iff.1 hp), List.cons_inj_right]
      exact ih

/-- There is at most one that matches. -/
theorem modify_eq_map (h : (l.filter p).length ≤ 1) :
    modify p f l = l.map fun a => if p a then f a else a := by
  induction l with
  | nil => rfl
  | cons a l ih =>
    cases hp : p a with
    | true =>
      rw [List.filter_cons_of_pos hp, List.length_cons] at h
      have hn : l.filter p = [] := List.eq_nil_of_length_eq_zero (by omega)
      have hl : l.map (fun a => if p a then f a else a) = l.map id :=
        List.map_congr_left fun b hb => if_neg (List.filter_eq_nil_iff.1 hn b hb)
      rw [modify_cons_pos hp, List.map_cons, hl, List.map_id, if_pos hp]
    | false =>
      rw [List.filter_cons_of_neg (Bool.eq_false_iff.1 hp)] at h
      rw [modify_cons_neg hp, ih h, List.map_cons, hp]
      rfl

/-- What matches one that there is at most one of. -/
theorem eq_of_filter (h : (l.filter q).length ≤ 1) {b : α} (ha : a ∈ l) (hqa : q a) (hb : b ∈ l)
    (hqb : q b) : a = b := by
  have ha := List.mem_filter.2 ⟨ha, hqa⟩
  have hb := List.mem_filter.2 ⟨hb, hqb⟩
  match hl : l.filter q, h with
  | [], _ => exact (List.not_mem_nil (hl ▸ ha)).elim
  | [c], _ =>
    rw [hl] at ha hb
    exact (List.mem_singleton.1 ha).trans (List.mem_singleton.1 hb).symm

/-- A change is one of a part of a list. Nothing else is changed, and the part as if there were
    nothing else. -/
def Confined (q p : α → Bool) (f : α → α) (l : List α) : Prop :=
  (modify p f l).filter (!q ·) = l.filter (!q ·) ∧
    (modify p f l).filter q = modify p f (l.filter q)

/-- A change is one of a part of a list if and only if the first that matches is in that part, or
    nothing is to be changed. -/
theorem modify_confined (hq : ∀ a, q (f a) = q a) :
    Confined q p f l ↔
      ∀ a ∈ l.find? p, q a ∨ (f a = a ∧ ∀ b ∈ (l.filter q).find? p, f b = b) := by
  unfold Confined
  induction l with
  | nil => exact iff_of_true ⟨rfl, rfl⟩ nofun
  | cons a l ih =>
    cases hp : p a with
    | true =>
      rw [modify_cons_pos hp, List.find?_cons_of_pos hp]
      cases hqa : q a with
      | true =>
        refine iff_of_true ⟨?_, ?_⟩ fun b hb => .inl (Option.some.inj hb ▸ hqa)
        · rw [List.filter_cons_of_neg (by rw [hq, hqa]; decide),
            List.filter_cons_of_neg (by rw [hqa]; decide)]
        · rw [List.filter_cons_of_pos (by rw [hq, hqa]), List.filter_cons_of_pos hqa,
            modify_cons_pos hp]
      | false =>
        have hfa : q (f a) = false := (hq a).trans hqa
        rw [List.filter_cons_of_pos (by rw [hfa]; rfl), List.filter_cons_of_pos (by rw [hqa]; rfl),
          List.filter_cons_of_neg (Bool.eq_false_iff.1 hfa),
          List.filter_cons_of_neg (Bool.eq_false_iff.1 hqa), List.cons.injEq, and_iff_left rfl,
          eq_comm (b := modify _ _ _), modify_eq_self]
        refine ⟨fun h b hb => .inr (Option.some.inj hb ▸ h), fun h => ?_⟩
        rcases h a rfl with h | h
        · exact Bool.noConfusion (hqa.symm.trans h)
        · exact h
    | false =>
      rw [modify_cons_neg hp, List.find?_cons_of_neg (Bool.eq_false_iff.1 hp)]
      cases hqa : q a with
      | true =>
        rw [List.filter_cons_of_neg (by rw [hqa]; decide),
          List.filter_cons_of_neg (by rw [hqa]; decide), List.filter_cons_of_pos hqa,
          List.filter_cons_of_pos hqa, modify_cons_neg hp, List.cons_inj_right,
          List.find?_cons_of_neg (Bool.eq_false_iff.1 hp)]
        exact ih
      | false =>
        rw [List.filter_cons_of_pos (by rw [hqa]; rfl), List.filter_cons_of_pos (by rw [hqa]; rfl),
          List.filter_cons_of_neg (Bool.eq_false_iff.1 hqa),
          List.filter_cons_of_neg (Bool.eq_false_iff.1 hqa), List.cons_inj_right]
        exact ih

end First
