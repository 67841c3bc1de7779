import Mathlib.Data.Nat.Notation
import Mathlib.Tactic.TypeStar

/-!
# Loops

A loop goes through its rounds until one says to stop. It is run for a number of rounds, and
nothing comes of it when these are too few.

* `exec_rounds`: the loop ends with a round that stops, after rounds that go on;
* `Rounds.invariant`: what each round that goes on keeps holds before the last one;
* `exec_of_measure`, `exec_of_rank`: with something that gets smaller in each round that
  goes on, the rounds do.
-/

namespace Loop

variable {σ : Type*} {body : σ → Bool × σ} {s t u : σ} {n : ℕ}

/-- Go through the rounds of a loop. A round says whether to go on. -/
def exec (body : σ → Bool × σ) : ℕ → σ → Option σ
  | 0, _ => none
  | n + 1, s =>
    match body s with
    | (true, s') => exec body n s'
    | (false, s') => some s'

/-- What comes of rounds that go on. -/
inductive Rounds (body : σ → Bool × σ) (s : σ) : σ → Prop
  | start : Rounds body s s
  | next {t u : σ} : Rounds body s t → body t = (true, u) → Rounds body s u

theorem Rounds.head (h : body s = (true, t)) (ht : Rounds body t u) : Rounds body s u := by
  induction ht with
  | start => exact .next .start h
  | next _ hb ih => exact .next ih hb

/-- A loop ends with a round that stops. -/
theorem exec_rounds (h : exec body n s = some t) :
    ∃ u, Rounds body s u ∧ body u = (false, t) := by
  induction n generalizing s with
  | zero => exact absurd h (Option.some_ne_none t).symm
  | succ n ih =>
    rw [exec] at h
    split at h
    · next s' hb =>
      obtain ⟨u, hu, hs⟩ := ih h
      exact ⟨u, hu.head hb, hs⟩
    · next s' hb =>
      cases h
      exact ⟨s, .start, hb⟩

/-- What each round that goes on keeps holds before the last one. -/
theorem Rounds.invariant {P : σ → Prop} (h : Rounds body s t) (hs : P s)
    (hb : ∀ {u v}, P u → body u = (true, v) → P v) : P t := by
  induction h with
  | start => exact hs
  | next _ hn ih => exact hb ih hn

/-- A loop that ends does so from each state on the way. -/
theorem exec_of_rounds (h : Rounds body s u) (he : exec body n s = some t) :
    ∃ k, exec body k u = some t := by
  induction h with
  | start => exact ⟨n, he⟩
  | @next v w _ hb ih =>
    obtain ⟨k, hk⟩ := ih
    cases k with
    | zero => exact absurd hk (Option.some_ne_none t).symm
    | succ k =>
      rw [exec, hb] at hk
      exact ⟨k, hk⟩

/-- More rounds than it needs change nothing. -/
theorem exec_mono {m : ℕ} (h : exec body n s = some t) (hm : n ≤ m) : exec body m s = some t := by
  induction n generalizing s m with
  | zero => exact absurd h (Option.some_ne_none t).symm
  | succ n ih =>
    obtain ⟨m, rfl⟩ := Nat.exists_eq_add_of_le' (Nat.le_trans (Nat.le_add_left 1 n) hm)
    rw [exec] at h ⊢
    split at h
    · exact ih h (Nat.le_of_succ_le_succ hm)
    · exact h

/-- A loop in which a number gets smaller in each round that goes on ends. -/
theorem exec_of_measure (m : σ → ℕ) (P : σ → Prop) (hs : P s)
    (hb : ∀ {u v}, P u → body u = (true, v) → P v ∧ m v < m u) (hn : m s < n) :
    ∃ t, exec body n s = some t := by
  induction n generalizing s with
  | zero => exact absurd hn (Nat.not_lt_zero _)
  | succ n ih =>
    rw [exec]
    split
    · next s' he =>
      obtain ⟨hp, hlt⟩ := hb hs he
      exact ih hp (by omega)
    · next s' _ => exact ⟨s', rfl⟩

/-- So does one in which something gets smaller in a well-founded order. -/
theorem exec_of_rank {α : Type*} {r : α → α → Prop} (hr : WellFounded r) {J : α → σ → Prop}
    (hb : ∀ {a u v}, J a u → body u = (true, v) → ∃ b, r b a ∧ J b v) {a : α} (hs : J a s) :
    ∃ n t, exec body n s = some t := by
  induction a using hr.induction generalizing s with
  | h a ih =>
    cases he : body s with
    | mk go s' =>
      cases go with
      | false => exact ⟨1, s', by rw [exec, he]⟩
      | true =>
        obtain ⟨b, hlt, hb'⟩ := hb hs he
        obtain ⟨n, t, ht⟩ := ih b hlt hb'
        exact ⟨n + 1, t, by rw [exec, he]; exact ht⟩

end Loop
