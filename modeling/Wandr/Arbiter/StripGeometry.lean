import Mathlib.Algebra.Group.Int.Defs
import Wandr.Arbiter.InputWindows

/-!
# Where the bars are

While nothing overflows, the strip of a bar or of the keyboard is a strip along an edge of the
panel (`Wm.stripRect_eq`). For every orientation the status bar, the taskbar and the keyboard lie
inside the panel and apart, the keyboard against the taskbar and the status bar opposite
(`Wm.strip_geometry`).
-/

namespace Wandr.Wm

open Strips

variable {atBottom : Bool} {orient : Nat} {pw ph th off x : Int}

theorem i32_eq (h : 0 ≤ x) (h' : x < 2 ^ 31) : i32 x = x := by
  rw [i32]
  exact Int.bmod_eq_of_le (by omega) (by omega)

/-- The edge a strip is along. -/
def edgeOf (atBottom : Bool) (orient : Nat) : Edge :=
  if atBottom then userBottom orient else (userBottom orient).opposite

/-- A strip that fits into the panel. -/
theorem stripRect_eq (hw : pw < 2 ^ 31) (hh : ph < 2 ^ 31) (ht : 0 ≤ th) (ho : 0 ≤ off)
    (hfit : off + th ≤ extent pw ph (edgeOf atBottom orient)) :
    stripRect atBottom th off orient pw ph = strip pw ph off th (edgeOf atBottom orient) := by
  rw [stripRect, ← edgeOf]
  cases hedge : edgeOf atBottom orient <;> rw [hedge, extent] at hfit <;> dsimp only [strip]
  case n => rw [i32_eq (by omega) (by omega)]
  case w => rw [i32_eq (by omega) (by omega)]
  case s =>
    have hoff : i32 (ph - off) = ph - off := i32_eq (by omega) (by omega)
    rw [hoff, i32_eq (by omega) (by omega)]
  case e =>
    have hoff : i32 (pw - off) = pw - off := i32_eq (by omega) (by omega)
    rw [hoff, i32_eq (by omega) (by omega)]

/-- The bars and the keyboard lie inside the panel, are not empty and are apart; the keyboard is
    against the taskbar, which is along the user's bottom, and the status bar along the opposite
    edge. -/
theorem strip_geometry {it ib kb : Int} (hw : 0 < pw) (hw' : pw < 2 ^ 31) (hh : 0 < ph)
    (hh' : ph < 2 ^ 31) (ht : 0 < it) (hb : 0 < ib) (hk : 0 < kb)
    (hsum : it + ib + kb ≤ extent pw ph (userBottom orient)) :
    let status := stripRect false it 0 orient pw ph
    let taskbar := stripRect true ib 0 orient pw ph
    let ime := stripRect true kb ib orient pw ph
    let edge := userBottom orient
    (∀ k ∈ [status, taskbar, ime], k.points ⊆ (panel pw ph).points ∧ k.points.Nonempty) ∧
      Disjoint status.points taskbar.points ∧ Disjoint status.points ime.points ∧
      Disjoint taskbar.points ime.points ∧
      ime.side edge = taskbar.side edge.opposite ∧
      taskbar.side edge = (panel pw ph).side edge ∧
      status.side edge.opposite = (panel pw ph).side edge.opposite := by
  intro status taskbar ime edge
  have hst : status = strip pw ph 0 it edge.opposite :=
    stripRect_eq hw' hh' ht.le (Int.le_refl 0) (by rw [edgeOf]; simp [extent_opposite]; omega)
  have hta : taskbar = strip pw ph 0 ib edge :=
    stripRect_eq hw' hh' hb.le (Int.le_refl 0) (by rw [edgeOf, if_pos rfl]; omega)
  have him : ime = strip pw ph ib kb edge :=
    stripRect_eq hw' hh' hk.le hb.le (by rw [edgeOf, if_pos rfl]; omega)
  have hroom : it + ib + kb ≤ extent pw ph edge := hsum
  rw [hst, hta, him]
  refine ⟨fun k hk' => ?_, ?_, ?_, ?_, ?_, side_strip_zero, side_strip_zero⟩
  · have hin {o t : Int} {d : Edge} (ho : 0 ≤ o) (ht : 0 < t) (hfit : o + t ≤ extent pw ph d) :
        (strip pw ph o t d).points ⊆ (panel pw ph).points ∧ (strip pw ph o t d).points.Nonempty :=
      ⟨strip_subset ho hfit, strip_nonempty hw hh ht⟩
    simp only [List.mem_cons, List.not_mem_nil, or_false] at hk'
    rcases hk' with rfl | rfl | rfl
    · exact hin (Int.le_refl 0) ht (by rw [extent_opposite]; omega)
    · exact hin (Int.le_refl 0) hb (by omega)
    · exact hin hb.le hk (by omega)
  · exact disjoint_strip_opposite (Int.le_refl 0) (Int.le_refl 0) ht.le hb.le (by omega)
  · exact disjoint_strip_opposite (Int.le_refl 0) hb.le ht.le hk.le (by omega)
  · exact disjoint_strip (Int.le_refl 0) (by omega) (by omega) hk.le hb.le
  · have hside : (strip pw ph (0 + ib) kb edge).side edge =
        (strip pw ph 0 ib edge).side edge.opposite := side_strip
    rwa [Int.zero_add] at hside

/-- A panel on its side. -/
theorem strip_geometry_landscape :
    let ime := stripRect true 1000 151 4 1440 2880
    let taskbar := stripRect true 151 0 4 1440 2880
    Disjoint taskbar.points ime.points ∧ ime.side .w = taskbar.side .e := by
  obtain ⟨-, -, -, hapart, hside, -⟩ := @strip_geometry 4 1440 2880 133 151 1000 (by decide)
    (by decide) (by decide) (by decide) (by decide) (by decide) (by decide) (by decide)
  exact ⟨hapart, hside⟩

end Wandr.Wm
