import Mathlib.Data.List.Basic

/-!
# Traces and what was last seen of them

An output driven by a program shows what the last command to it said. Given what
each entry of a trace tells of the output, if anything, `Trace.last` is the value
the output shows after the trace.

`Trace.last_append` splits a trace, and `Trace.last_of_silent` drops the part
that tells nothing of the output. A trace `Trace.Toggles` an output when each entry
telling anything of it changes what it shows.
-/

namespace Trace

variable {φ β : Type}

/-- What an output shows after a trace, `tells` being what each entry tells of it
    and `b` what it showed before. -/
def last (tells : φ → Option β) (b : β) (fx : List φ) : β :=
  fx.foldl (fun b f => (tells f).getD b) b

variable {tells : φ → Option β} {b : β} {f : φ} {fx gx : List φ}

@[simp] theorem last_nil : last tells b [] = b := rfl
@[simp] theorem last_cons : last tells b (f :: fx) = last tells ((tells f).getD b) fx := rfl

@[simp]
theorem last_append : last tells b (fx ++ gx) = last tells (last tells b fx) gx := by
  simp [last, List.foldl_append]

/-- A trace that tells nothing of the output leaves it as it was. -/
theorem last_of_silent (h : ∀ f ∈ fx, tells f = none) : last tells b fx = b := by
  induction fx generalizing b with
  | nil => rfl
  | cons f fx ih =>
    rw [last_cons, h f List.mem_cons_self, Option.getD_none]
    exact ih fun g hg => h g (List.mem_cons_of_mem _ hg)

/-- A trace saying one thing of the output, whenever it tells anything, either
    tells it or nothing. -/
theorem last_of_forall {v : β} (h : ∀ f ∈ fx, ∀ u ∈ tells f, u = v) :
    last tells b fx = if ∃ f ∈ fx, (tells f).isSome then v else b := by
  induction fx generalizing b with
  | nil => simp
  | cons f fx ih =>
    rw [last_cons, ih fun g hg => h g (List.mem_cons_of_mem _ hg)]
    cases hf : tells f with
    | none => simp [hf]
    | some u =>
      have hu : u = v := h f List.mem_cons_self u hf
      simp [hf, hu]

/-! ## Traces that change the output each time -/

/-- A trace that changes what the output shows whenever it tells anything of it,
    from `b` to `b'`. -/
def Toggles (tells : φ → Option β) (b : β) : List φ → β → Prop
  | [], b' => b = b'
  | f :: fx, b' =>
    ((tells f).isNone ∧ Toggles tells b fx b') ∨ ∃ v ∈ tells f, v ≠ b ∧ Toggles tells v fx b'

variable {b' b'' : β}

theorem Toggles.single {v : β} (hf : tells f = some v) (hv : v ≠ b) : Toggles tells b [f] v :=
  .inr ⟨v, hf, hv, rfl⟩

theorem Toggles.append (h : Toggles tells b fx b') (h' : Toggles tells b' gx b'') :
    Toggles tells b (fx ++ gx) b'' := by
  induction fx generalizing b with
  | nil =>
    obtain rfl : b = b' := h
    exact h'
  | cons f fx ih =>
    rcases h with ⟨hf, h⟩ | ⟨v, hf, hv, h⟩
    · exact .inl ⟨hf, ih h⟩
    · exact .inr ⟨v, hf, hv, ih h⟩

/-- A trace that tells nothing changes nothing. -/
theorem Toggles.of_silent (h : ∀ f ∈ fx, tells f = none) : Toggles tells b fx b := by
  induction fx with
  | nil => rfl
  | cons f fx ih =>
    refine .inl ⟨by rw [h f List.mem_cons_self]; rfl, ih fun g hg => ?_⟩
    exact h g (List.mem_cons_of_mem _ hg)

theorem Toggles.last_eq (h : Toggles tells b fx b') : last tells b fx = b' := by
  induction fx generalizing b with
  | nil => exact h
  | cons f fx ih =>
    rw [last_cons]
    rcases h with ⟨hf, h⟩ | ⟨v, hf, -, h⟩
    · rw [Option.isNone_iff_eq_none.mp hf]
      exact ih h
    · rw [Option.mem_def.mp hf]
      exact ih h

/-- Of two values, the trace tells one and the other in turns. -/
theorem Toggles.getElem? {tells : φ → Option Bool} {b b' v : Bool} (h : Toggles tells b fx b')
    {i : Nat} (hv : (fx.filterMap tells)[i]? = some v) : v = if i % 2 = 0 then !b else b := by
  induction fx generalizing b i with
  | nil => simp at hv
  | cons f fx ih =>
    rcases h with ⟨hf, h⟩ | ⟨u, hf, hu, h⟩
    · rw [List.filterMap_cons_none (Option.isNone_iff_eq_none.mp hf)] at hv
      exact ih h hv
    · rw [List.filterMap_cons_some hf] at hv
      have hub : u = !b := by
        revert hu
        cases u <;> cases b <;> simp
      cases i with
      | zero => simpa [hub, eq_comm] using hv
      | succ i =>
        rw [List.getElem?_cons_succ] at hv
        rw [ih h hv, hub, Bool.not_not]
        split <;> split <;> first | rfl | omega

end Trace
