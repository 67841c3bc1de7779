import Mathlib.Data.List.Basic

/-!
# Greedy filling

Items are put on lines in turn. An item goes on the current line if that line fits with the item
on it, and opens the next line if not. What fits is a predicate, of which one thing is asked now
and then: a line from which items were taken away fits if the line did.

* `Filling.flatMap_fill`: no item is lost, doubled or moved;
* `Filling.fits_or_opens`: a line that does not fit holds one item;
* `Filling.length_fill`: there is a line more than there are refusals;
* `Filling.refused_eq_nil_iff`: there is no refusal if and only if all fits on one line;
* `Filling.fill_eq_fill_iff`: another predicate, under which the filled lines fit, gives the same
  lines if and only if it refuses what was refused.
-/

namespace Greedy

variable {α β : Type*}

/-- Lines of items: a line of one item, and a line with an item more. Their items can be read
    back. -/
structure Filling (α β : Type*) where
  opens : β → α
  extend : α → β → α
  items : α → List β
  items_opens : ∀ x, items (opens x) = [x]
  items_extend : ∀ l x, items (extend l x) = items l ++ [x]

namespace Filling

variable (F : Filling α β) (p : α → Prop) [DecidablePred p]

/-- The lines, from the current one on. -/
def fill (l : α) : List β → List α
  | [] => [l]
  | x :: xs => if p (F.extend l x) then fill (F.extend l x) xs else l :: fill (F.opens x) xs

/-- The lines that did not fit. -/
def refused (l : α) : List β → List α
  | [] => []
  | x :: xs =>
    if p (F.extend l x) then refused (F.extend l x) xs
    else F.extend l x :: refused (F.opens x) xs

/-- The items that open a line. -/
def openers (l : α) : List β → List β
  | [] => []
  | x :: xs => if p (F.extend l x) then openers (F.extend l x) xs else x :: openers (F.opens x) xs

/-- A line fits if it fits with an item more. -/
def Closed (q : α → Prop) : Prop := ∀ l x, q (F.extend l x) → q l

variable {F p} {q : α → Prop} {l k : α} {x : β} {xs : List β}

-- The equations, ahead of the proofs.
section
attribute [local simp] fill refused openers
end

theorem items_foldl : F.items (xs.foldl F.extend l) = F.items l ++ xs := by
  induction xs generalizing l with
  | nil => rw [List.foldl_nil, List.append_nil]
  | cons x xs ih =>
    rw [List.foldl_cons, ih, F.items_extend, List.append_assoc, List.singleton_append]

theorem Closed.of_foldl (hq : F.Closed q) (h : q (xs.foldl F.extend l)) : q l := by
  induction xs generalizing l with
  | nil => exact h
  | cons x xs ih => exact hq l x (ih h)

/-! ## The items -/

theorem flatMap_fill : (F.fill p l xs).flatMap F.items = F.items l ++ xs := by
  induction xs generalizing l with
  | nil => simp [fill]
  | cons x xs ih =>
    rw [fill]
    split
    · rw [ih, F.items_extend, List.append_assoc, List.singleton_append]
    · rw [List.flatMap_cons, ih, F.items_opens, List.singleton_append]

/-- The current line is the first one, with the items that still fit. -/
theorem fill_eq_cons :
    ∃ (ys : List β) (ks : List α), F.fill p l xs = ys.foldl F.extend l :: ks := by
  induction xs generalizing l with
  | nil => exact ⟨[], [], rfl⟩
  | cons x xs ih =>
    rw [fill]
    split
    · obtain ⟨ys, ks, h⟩ := ih (l := F.extend l x)
      exact ⟨x :: ys, ks, h⟩
    · exact ⟨[], _, rfl⟩

theorem items_ne_nil (hl : F.items l ≠ []) (hk : k ∈ F.fill p l xs) : F.items k ≠ [] := by
  induction xs generalizing l with
  | nil => rwa [List.mem_singleton.mp hk]
  | cons x xs ih =>
    rw [fill] at hk
    split at hk
    · exact ih (by simp [F.items_extend]) hk
    · rcases List.mem_cons.mp hk with rfl | hk
      · exact hl
      · exact ih (by simp [F.items_opens]) hk

/-! ## What fits -/

theorem fits_or_opens (hk : k ∈ F.fill p l xs) :
    p k ∨ k = l ∨ ∃ x ∈ F.openers p l xs, k = F.opens x := by
  induction xs generalizing l with
  | nil => exact .inr (.inl (List.mem_singleton.mp hk))
  | cons x xs ih =>
    rw [fill] at hk
    rw [openers]
    split at hk
    · next h =>
      rw [if_pos h]
      -- The line that was extended did fit.
      rcases ih hk with hk | rfl | hk
      · exact .inl hk
      · exact .inl h
      · exact .inr (.inr hk)
    · next h =>
      rw [if_neg h]
      rcases List.mem_cons.mp hk with rfl | hk
      · exact .inr (.inl rfl)
      · rcases ih hk with hk | rfl | ⟨y, hy, rfl⟩
        · exact .inl hk
        · exact .inr (.inr ⟨x, List.mem_cons_self, rfl⟩)
        · exact .inr (.inr ⟨y, List.mem_cons_of_mem _ hy, rfl⟩)

theorem mem_of_mem_openers (h : x ∈ F.openers p l xs) : x ∈ xs := by
  induction xs generalizing l with
  | nil => exact absurd h List.not_mem_nil
  | cons y xs ih =>
    rw [openers] at h
    split at h
    · exact List.mem_cons_of_mem _ (ih h)
    · rcases List.mem_cons.mp h with rfl | h
      · exact List.mem_cons_self
      · exact List.mem_cons_of_mem _ (ih h)

theorem not_of_mem_refused (hk : k ∈ F.refused p l xs) : ¬ p k := by
  induction xs generalizing l with
  | nil => exact absurd hk List.not_mem_nil
  | cons x xs ih =>
    rw [refused] at hk
    split at hk
    · exact ih hk
    · next h =>
      rcases List.mem_cons.mp hk with rfl | hk
      · exact h
      · exact ih hk

/-- What all lines have, they had when they were opened. -/
theorem Closed.opens (hq : F.Closed q) (h : ∀ k ∈ F.fill p l xs, q k) :
    q l ∧ ∀ x ∈ F.openers p l xs, q (F.opens x) := by
  induction xs generalizing l with
  | nil => exact ⟨h l List.mem_cons_self, by simp [openers]⟩
  | cons x xs ih =>
    rw [fill] at h
    rw [openers]
    split at h
    · next hp =>
      rw [if_pos hp]
      exact ⟨hq l x (ih h).1, (ih h).2⟩
    · next hp =>
      rw [if_neg hp]
      obtain ⟨hl, h⟩ := List.forall_mem_cons.mp h
      exact ⟨hl, List.forall_mem_cons.mpr (ih h)⟩

/-! ## How many lines there are -/

theorem length_fill : (F.fill p l xs).length = (F.refused p l xs).length + 1 := by
  induction xs generalizing l with
  | nil => rfl
  | cons x xs ih =>
    rw [fill, refused]
    split
    · exact ih
    · rw [List.length_cons, List.length_cons, ih]

theorem refused_eq_nil_iff (hp : F.Closed p) :
    F.refused p l xs = [] ↔ xs = [] ∨ p (xs.foldl F.extend l) := by
  induction xs generalizing l with
  | nil => simp [refused]
  | cons x xs ih =>
    rw [refused, List.foldl_cons]
    split
    · next h =>
      rw [ih]
      constructor
      · rintro (rfl | h')
        · exact .inr h
        · exact .inr h'
      · rintro (h' | h')
        · cases h'
        · exact .inr h'
    · next h =>
      refine ⟨fun h' => absurd h' (List.cons_ne_nil _ _), ?_⟩
      rintro (h' | h')
      · cases h'
      · exact absurd (hp.of_foldl h') h

/-! ## Filling again -/

variable [DecidablePred q]

theorem fill_eq_fill_iff (hq : F.Closed q) (h : ∀ k ∈ F.fill p l xs, q k) :
    F.fill q l xs = F.fill p l xs ↔ ∀ k ∈ F.refused p l xs, ¬ q k := by
  induction xs generalizing l with
  | nil => simp [fill, refused]
  | cons x xs ih =>
    rw [fill] at h
    rw [fill, fill, refused]
    split at h
    · next hp =>
      -- What was accepted is on a line, and is accepted again.
      rw [if_pos hp, if_pos hp, if_pos (hq.opens h).1]
      exact ih h
    · next hp =>
      rw [if_neg hp, if_neg hp]
      obtain ⟨hl, h⟩ := List.forall_mem_cons.mp h
      rw [List.forall_mem_cons]
      split
      · next hx =>
        -- The line has an item more than it had.
        refine ⟨fun he => ?_, fun hr => absurd hx hr.1⟩
        obtain ⟨ys, ks, hf⟩ : ∃ (ys : List β) (ks : List α),
            F.fill q (F.extend l x) xs = ys.foldl F.extend (F.extend l x) :: ks := fill_eq_cons
        have hi := congrArg F.items (List.cons.inj (hf.symm.trans he)).1
        rw [items_foldl, F.items_extend] at hi
        simp at hi
      · next hx =>
        rw [List.cons_inj_right, ih h]
        exact ⟨fun hr => ⟨hx, hr⟩, fun hr => hr.2⟩

end Filling

end Greedy
