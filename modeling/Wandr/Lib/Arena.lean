import Mathlib.Data.List.Nodup

/-!
# Arenas

An arena is a list of slots, each with a value or empty, and a list of empty slots to be taken
again, the one that was left last first.

* `Arena.get?_alloc`, `Arena.get?_put`, `Arena.get?_release`: what each operation does to every
  slot;
* `Arena.Wf`: the free slots are empty, and none is free twice.
-/

/-- Slots, and those that are free, the one that was left last first. -/
structure Arena (α : Type) where
  slots : List (Option α)
  free : List Nat

namespace Arena

variable {α : Type} (a : Arena α)

def get? (i : Nat) : Option α := a.slots[i]?.join

/-- A value is put into a free slot, or a new one. -/
def alloc (x : α) : Arena α × Nat :=
  match a.free with
  | i :: free => ({ slots := a.slots.set i (some x), free }, i)
  | [] => ({ slots := a.slots ++ [some x], free := [] }, a.slots.length)

/-- A value is put into a slot in the place of another one. -/
def put (i : Nat) (x : α) : Arena α := { a with slots := a.slots.set i (some x) }

def release (i : Nat) : Arena α := { slots := a.slots.set i none, free := i :: a.free }

/-- The free slots are empty, and none is free twice. -/
structure Wf : Prop where
  nodup : a.free.Nodup
  empty : ∀ i ∈ a.free, a.slots[i]? = some none

variable {a} {i j : Nat} {x : α}

theorem lt_of_get? (h : a.get? i = some x) : i < a.slots.length := by
  by_contra hn
  unfold get? at h
  rw [List.getElem?_eq_none (Nat.not_lt.1 hn)] at h
  cases h

theorem get?_put (h : (a.get? i).isSome) :
    (a.put i x).get? j = if j = i then some x else a.get? j := by
  obtain ⟨y, hy⟩ := Option.isSome_iff_exists.1 h
  unfold get? put
  rw [List.getElem?_set]
  by_cases hj : i = j
  · rw [if_pos hj, if_pos (lt_of_get? hy), if_pos hj.symm]
    rfl
  · rw [if_neg hj, if_neg (Ne.symm hj)]

theorem get?_release : (a.release i).get? j = if j = i then none else a.get? j := by
  unfold get? release
  rw [List.getElem?_set]
  by_cases hj : i = j
  · rw [if_pos hj, if_pos hj.symm]
    split <;> rfl
  · rw [if_neg hj, if_neg (Ne.symm hj)]

/-- The slot of a new value was empty. -/
theorem get?_alloc (h : a.Wf) : a.get? (a.alloc x).2 = none ∧
    (a.alloc x).1.get? j = if j = (a.alloc x).2 then some x else a.get? j := by
  unfold get? alloc
  cases hf : a.free with
  | cons i free =>
    have he := h.empty i (hf ▸ List.mem_cons_self)
    refine ⟨congrArg Option.join he, ?_⟩
    dsimp only
    rw [List.getElem?_set]
    by_cases hj : i = j
    · rw [if_pos hj, if_pos (List.getElem?_eq_some_iff.1 he).1, if_pos hj.symm]
      rfl
    · rw [if_neg hj, if_neg (Ne.symm hj)]
  | nil =>
    refine ⟨congrArg Option.join (List.getElem?_eq_none (Nat.le_refl _)), ?_⟩
    dsimp only
    by_cases hj : j = a.slots.length
    · rw [if_pos hj, hj, List.getElem?_concat_length]
      rfl
    · rw [if_neg hj, List.getElem?_append]
      split
      · rfl
      · rw [List.getElem?_eq_none (by rw [List.length_singleton]; omega),
          List.getElem?_eq_none (by omega)]

theorem Wf.alloc (h : a.Wf) (x : α) : (a.alloc x).1.Wf := by
  unfold Arena.alloc
  cases hf : a.free with
  | cons i free =>
    have hn := List.nodup_cons.1 (hf ▸ h.nodup)
    refine ⟨hn.2, fun j hj => ?_⟩
    have hne : i ≠ j := fun he => hn.1 (he ▸ hj)
    dsimp only
    rw [List.getElem?_set, if_neg hne]
    exact h.empty j (hf ▸ List.mem_cons_of_mem _ hj)
  | nil => exact ⟨List.nodup_nil, fun _ hj => (List.not_mem_nil hj).elim⟩

theorem Wf.notMem_free (h : a.Wf) (hi : (a.get? i).isSome) : i ∉ a.free := by
  intro hf
  unfold get? at hi
  rw [h.empty i hf] at hi
  cases hi

theorem Wf.put (h : a.Wf) (hi : (a.get? i).isSome) (x : α) : (a.put i x).Wf := by
  refine ⟨h.nodup, fun j hj => ?_⟩
  have hne : i ≠ j := fun he => h.notMem_free hi (he ▸ hj)
  unfold Arena.put
  rw [List.getElem?_set, if_neg hne]
  exact h.empty j hj

theorem Wf.release (h : a.Wf) (hi : (a.get? i).isSome) : (a.release i).Wf := by
  obtain ⟨y, hy⟩ := Option.isSome_iff_exists.1 hi
  refine ⟨List.nodup_cons.2 ⟨h.notMem_free hi, h.nodup⟩, fun j hj => ?_⟩
  unfold Arena.release
  rw [List.getElem?_set]
  rcases List.mem_cons.1 hj with rfl | hj
  · rw [if_pos rfl, if_pos (lt_of_get? hy)]
  · have hne : i ≠ j := fun he => h.notMem_free hi (he ▸ hj)
    rw [if_neg hne]
    exact h.empty j hj

end Arena
