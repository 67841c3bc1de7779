import Mathlib.Data.List.Basic
import Mathlib.Data.List.Infix

/-!
# Windows onto a list

A window is a stretch of a long list that is known: its base, and the items from there on.
Windows may overlap and leave gaps. From a position one can go on as long as some window
covers it, from the end of the one to the next (`reach`).

* `reaches_reach`: with one more step than there are windows the way comes to its end;
* `Reaches.covered`: each position on the way is in some window, and the last is in none;
* `Excerpt.take_drop`: what a window that shows a list gives from a position on is what the
  list has there.
-/

namespace Spans

variable {α : Type*} {F : List α} {w : Nat × List α} {ws : List (Nat × List α)} {e r x : Nat}

/-- The first position after a window. -/
def stop (w : Nat × List α) : Nat := w.1 + w.2.length

/-- A window has a position. -/
def covers (x : Nat) (w : Nat × List α) : Bool := w.1 ≤ x && x < w.1 + w.2.length

theorem covers_iff : covers x w = true ↔ w.1 ≤ x ∧ x < stop w := by
  rw [covers, Bool.and_eq_true, decide_eq_true_eq, decide_eq_true_eq, stop]

/-! ## The way from a position -/

/-- From a position to the end of the first window that has it. -/
def advance (ws : List (Nat × List α)) (e : Nat) : Option Nat := (ws.find? (covers e)).map stop

/-- Going on from one position ends at another. -/
inductive Reaches (ws : List (Nat × List α)) : Nat → Nat → Prop
  | done {e : Nat} : advance ws e = none → Reaches ws e e
  | next {e e' r : Nat} : advance ws e = some e' → Reaches ws e' r → Reaches ws e r

/-- Where one comes to from a position in some number of steps. -/
def reach (ws : List (Nat × List α)) : Nat → Nat → Nat
  | 0, e => e
  | n + 1, e =>
    match advance ws e with
    | none => e
    | some e' => reach ws n e'

theorem exists_of_advance {e' : Nat} (h : advance ws e = some e') :
    ∃ w ∈ ws, covers e w = true ∧ stop w = e' := by
  obtain ⟨w, hw, rfl⟩ := Option.map_eq_some_iff.1 h
  exact ⟨w, List.mem_of_find?_eq_some hw, List.find?_some hw, rfl⟩

/-- Each step goes past the end of a window that ended further on, so there are no more steps
    than windows. -/
theorem countP_lt_of_advance {e' : Nat} (h : advance ws e = some e') :
    ws.countP (e' < stop ·) < ws.countP (e < stop ·) := by
  obtain ⟨w, hw, hc, rfl⟩ := exists_of_advance h
  have hlt := (covers_iff.1 hc).2
  obtain ⟨us, vs, rfl⟩ := List.append_of_mem hw
  have hmono : ∀ l : List (Nat × List α), l.countP (stop w < stop ·) ≤ l.countP (e < stop ·) :=
    fun l => List.countP_mono_left fun v _ hv =>
      decide_eq_true (hlt.trans (of_decide_eq_true hv))
  have hu := hmono us
  have hv := hmono vs
  rw [List.countP_append, List.countP_append, List.countP_cons_of_neg (by simp),
    List.countP_cons_of_pos (p := fun v => decide (e < stop v)) (decide_eq_true hlt)]
  omega

/-- The way comes to its end. -/
theorem reaches_reach_of_countP {n : Nat} (h : ws.countP (e < stop ·) < n) :
    Reaches ws e (reach ws n e) := by
  induction n generalizing e with
  | zero => exact absurd h (Nat.not_lt_zero _)
  | succ n ih =>
    rw [reach]
    cases ha : advance ws e with
    | none => exact .done ha
    | some e' =>
      have hlt := countP_lt_of_advance ha
      exact .next ha (ih (by omega))

/-- With one more step than there are windows the way comes to its end. -/
theorem reaches_reach : Reaches ws e (reach ws (ws.length + 1) e) :=
  reaches_reach_of_countP (Nat.lt_succ_of_le List.countP_le_length)

/-- Each position on the way is in a window. -/
theorem Reaches.covered (h : Reaches ws e r) (he : e ≤ x) (hx : x < r) :
    ∃ w ∈ ws, covers x w = true := by
  induction h with
  | done _ => omega
  | @next e e' r ha hr ih =>
    rcases Nat.lt_or_ge x e' with hlt | hge
    · -- The window of this step has all positions up to where it ends.
      obtain ⟨w, hw, hc, rfl⟩ := exists_of_advance ha
      exact ⟨w, hw, covers_iff.2 ⟨(covers_iff.1 hc).1.trans he, hlt⟩⟩
    · exact ih hge hx

/-! ## Windows that show a list -/

/-- A window shows what a list has at its base. -/
def Excerpt (F : List α) (w : Nat × List α) : Prop := w.2 <+: F.drop w.1

instance [DecidableEq α] : Decidable (Excerpt F w) :=
  inferInstanceAs (Decidable (w.2 <+: F.drop w.1))

/-- A window with an item that shows a list ends where the list does, or before. -/
theorem Excerpt.stop_le (h : Excerpt F w) (hw : w.2 ≠ []) : stop w ≤ F.length := by
  have hl := List.IsPrefix.length_le h
  have hpos := List.length_pos_of_ne_nil hw
  rw [List.length_drop] at hl
  rw [stop]
  omega

/-- What a window gives from one of its positions on is what the list has there. -/
theorem Excerpt.take_drop (h : Excerpt F w) (hx : w.1 ≤ x) (n : Nat) :
    (w.2.drop (x - w.1)).take n <+: F.drop x := by
  have hd : w.2.drop (x - w.1) <+: (F.drop w.1).drop (x - w.1) := List.IsPrefix.drop h _
  rw [List.drop_drop, Nat.add_sub_cancel' hx] at hd
  exact (List.take_prefix _ _).trans hd

end Spans
