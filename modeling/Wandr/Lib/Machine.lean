import Mathlib.Data.List.Basic

/-!
# Machines

A machine takes one input after the other. `Machine.Run` are the states it can be in
after inputs that each meet a condition in the state they are taken in; what holds at the
start and is kept by each such input holds in all of them (`Machine.Run.invariant`).

* `Machine.run_of_goes`: a list of inputs whose conditions hold in turn is a run;
* `Machine.goes_congr`: conditions that come to the same in each step come to the same in a run;
* `Machine.exists_of_rank`: where a fair run makes something smaller, it comes to an end.
-/

namespace Machine

variable {σ ι : Type*} {step : σ → ι → σ} {Ok : σ → ι → Prop} {s₀ s : σ}

/-- The states of a run from `s₀` whose inputs meet a condition. -/
inductive Run (step : σ → ι → σ) (Ok : σ → ι → Prop) (s₀ : σ) : σ → Prop
  | start : Run step Ok s₀ s₀
  | step {s : σ} (i : ι) : Run step Ok s₀ s → Ok s i → Run step Ok s₀ (step s i)

/-- What holds at the start and is kept by each step holds throughout. -/
theorem Run.invariant {J : σ → Prop} (h : Run step Ok s₀ s) (h₀ : J s₀)
    (hs : ∀ {s} i, J s → Ok s i → J (step s i)) : J s := by
  induction h with
  | start => exact h₀
  | step i _ hi ih => exact hs i ih hi

/-- Runs one after the other. -/
theorem Run.trans {s' : σ} (h : Run step Ok s₀ s) (h' : Run step Ok s s') : Run step Ok s₀ s' := by
  induction h' with
  | start => exact h
  | step i _ hi ih => exact .step i ih hi

/-- Each of the inputs, taken one after the other, meets the condition. -/
def Goes (step : σ → ι → σ) (Ok : σ → ι → Prop) : σ → List ι → Prop
  | _, [] => True
  | s, i :: is => Ok s i ∧ Goes step Ok (step s i) is

instance decidableGoes [∀ s i, Decidable (Ok s i)] :
    (s : σ) → (is : List ι) → Decidable (Goes step Ok s is)
  | _, [] => inferInstanceAs (Decidable True)
  | s, i :: is =>
    have := decidableGoes (step s i) is
    inferInstanceAs (Decidable (Ok s i ∧ Goes step Ok (step s i) is))

/-- A list of inputs that meet the condition is a run. -/
theorem run_of_goes {is : List ι} (h : Goes step Ok s is) :
    Run step Ok s (is.foldl step s) := by
  induction is generalizing s with
  | nil => exact .start
  | cons i is ih => exact (Run.step i .start h.1).trans (ih h.2)

/-- Two conditions that come to the same in each step come to the same in a run, if what they rest
    on is kept. -/
theorem goes_congr {J : σ → Prop} {P : ι → Prop} {Ok' : σ → ι → Prop}
    (hok : ∀ {s i}, J s → P i → (Ok s i ↔ Ok' s i))
    (hs : ∀ {s i}, J s → P i → Ok s i → J (step s i)) {is : List ι} (hJ : J s)
    (hP : ∀ i ∈ is, P i) : Goes step Ok s is ↔ Goes step Ok' s is := by
  induction is generalizing s with
  | nil => exact Iff.rfl
  | cons i is ih =>
    have hi := hP i List.mem_cons_self
    rw [Goes, Goes, ← hok hJ hi]
    exact and_congr_right fun h => ih (hs hJ hi h) fun i hm => hP i (List.mem_cons_of_mem _ hm)

/-! ## Runs without end -/

/-- The state after some of the inputs. -/
def states (step : σ → ι → σ) (s : σ) (is : ℕ → ι) : ℕ → σ
  | 0 => s
  | n + 1 => step (states step s is n) (is n)

/-- Where each input takes a run to its end, or makes something smaller, or leaves it as it is, and
    the last is so for ever of no run, the run comes to its end. -/
theorem exists_of_rank {α : Type*} {r : α → α → Prop} (hr : WellFounded r) {J : α → σ → Prop}
    {Q Fair : σ → ι → Prop}
    (hs : ∀ {a s i}, J a s → Ok s i →
      Q s i ∨ (∃ b, r b a ∧ J b (step s i)) ∨ ¬ Fair s i ∧ J a (step s i))
    {is : ℕ → ι} (hok : ∀ n, Ok (states step s is n) (is n))
    (hfair : ∀ n, ∃ m, Fair (states step s is (n + m)) (is (n + m))) {a : α} {n : ℕ}
    (h : J a (states step s is n)) : ∃ n, Q (states step s is n) (is n) := by
  induction a using hr.induction generalizing n with
  | h a ih =>
    obtain ⟨m, hm⟩ := hfair n
    induction m generalizing n with
    | zero =>
      rcases hs h (hok n) with hq | ⟨b, hb, hJ⟩ | ⟨hu, -⟩
      · exact ⟨n, hq⟩
      · exact ih b hb (n := n + 1) hJ
      · exact absurd hm hu
    | succ m ihm =>
      rcases hs h (hok n) with hq | ⟨b, hb, hJ⟩ | ⟨-, hJ⟩
      · exact ⟨n, hq⟩
      · exact ih b hb (n := n + 1) hJ
      · refine ihm (n := n + 1) hJ ?_
        rw [Nat.add_right_comm n 1 m]
        exact hm

end Machine
