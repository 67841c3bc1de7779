import Mathlib.Data.List.Basic

/-!
# Slices

A slice is read by index. To read outside of it is an error, so what is shown to succeed reads
inside of it only.

* `Slice.get_append`, `Slice.sub_append`: what is read of a slice that was put together;
* `Slice.Safe.bind`: what goes on with what was read is safe if each part is.
-/

namespace Slice

/-- A read outside of the slice. -/
structure OutOfRange
  deriving DecidableEq

abbrev Checked := Except OutOfRange

variable {α β : Type} {b p q x : List α} {a : α} {i j : Nat}

/-- The element at an index. -/
def get (b : List α) (i : Nat) : Checked α :=
  match b[i]? with
  | some a => .ok a
  | none => .error {}

/-- The elements from an index to before another one. -/
def sub (b : List α) (i j : Nat) : Checked (List α) :=
  if i ≤ j ∧ j ≤ b.length then .ok ((b.take j).drop i) else .error {}

theorem get_of_getElem? (h : b[i]? = some a) : get b i = .ok a := by rw [get, h]

theorem get_of_lt (h : i < b.length) : get b i = .ok b[i] :=
  get_of_getElem? (List.getElem?_eq_getElem h)

@[simp]
theorem ok_bind (a : α) (f : α → Checked β) : (Except.ok a : Checked α) >>= f = f a := rfl

theorem get_append (hb : b = p ++ a :: q) (h : p.length = i) : get b i = .ok a := by
  subst hb h
  refine get_of_getElem? ?_
  rw [List.getElem?_append_right (Nat.le_refl _), Nat.sub_self, List.getElem?_cons_zero]

theorem sub_of_le (h : i ≤ j) (h' : j ≤ b.length) : sub b i j = .ok ((b.take j).drop i) :=
  if_pos ⟨h, h'⟩

theorem sub_append (hb : b = p ++ (x ++ q)) (hi : p.length = i) (hj : i + x.length = j) :
    sub b i j = .ok x := by
  subst hb hi hj
  rw [sub_of_le (Nat.le_add_right _ _), ← List.append_assoc, List.take_left', List.drop_left]
  · rw [List.length_append]
  · simp only [List.length_append]
    omega

/-! ## Reads that are inside -/

/-- No read is outside. -/
def Safe (r : Checked α) : Prop := ∃ a, r = .ok a

theorem Safe.ok (a : α) : Safe (.ok a : Checked α) := ⟨a, rfl⟩

theorem Safe.get (h : i < b.length) : Safe (Slice.get b i) := ⟨_, get_of_lt h⟩

theorem Safe.sub (h : i ≤ j) (h' : j ≤ b.length) : Safe (Slice.sub b i j) := ⟨_, sub_of_le h h'⟩

theorem Safe.bind {r : Checked α} {f : α → Checked β} (h : Safe r) (hf : ∀ a, Safe (f a)) :
    Safe (r >>= f) := by
  obtain ⟨a, rfl⟩ := h
  exact hf a

theorem Safe.mapM {f : α → Checked β} (h : ∀ a ∈ b, Safe (f a)) : Safe (b.mapM f) := by
  induction b with
  | nil => exact .ok []
  | cons a b ih =>
    rw [List.mapM_cons]
    exact (h a List.mem_cons_self).bind fun _ =>
      (ih fun c hc => h c (List.mem_cons_of_mem _ hc)).bind fun _ => .ok _

end Slice
