import Mathlib.Data.Set.Lattice
import Mathlib.Order.CompletePartialOrder

/-!
# Strips along the edges of a panel

A panel of `w` by `h` points has four edges, and a strip along one of them is what lies between two
depths below it (`Strips.mem_strip`). Whatever the edge, strips between different depths are
disjoint, one that begins where another ends lies against it, and the depth below an edge is the
depth below the opposite one from the other end.
-/

namespace Strips

/-- The edges of a panel. -/
inductive Edge
  | n
  | s
  | w
  | e
  deriving DecidableEq

def Edge.opposite : Edge → Edge
  | .s => .n
  | .n => .s
  | .w => .e
  | .e => .w

/-- A rectangle, without the points on its right and its bottom line. -/
structure Rect where
  l : Int
  t : Int
  r : Int
  b : Int
  deriving DecidableEq

namespace Rect

def points (k : Rect) : Set (Int × Int) := {p | (k.l ≤ p.1 ∧ p.1 < k.r) ∧ k.t ≤ p.2 ∧ p.2 < k.b}

/-- The line of an edge, and from where to where it goes. -/
def side (k : Rect) : Edge → Int × Int × Int
  | .n => (k.t, k.l, k.r)
  | .s => (k.b, k.l, k.r)
  | .w => (k.l, k.t, k.b)
  | .e => (k.r, k.t, k.b)

end Rect

/-- The whole panel. -/
def panel (w h : Int) : Rect := ⟨0, 0, w, h⟩

/-- How far it is from an edge of the panel to the opposite one. -/
def extent (w h : Int) : Edge → Int
  | .n | .s => h
  | .w | .e => w

/-- How far a point is below an edge. -/
def depth (w h : Int) (p : Int × Int) : Edge → Int
  | .n => p.2
  | .s => h - 1 - p.2
  | .w => p.1
  | .e => w - 1 - p.1

/-- The strip of a thickness along an edge, moved inward. -/
def strip (w h : Int) (off th : Int) : Edge → Rect
  | .s => ⟨0, h - off - th, w, h - off⟩
  | .n => ⟨0, off, w, off + th⟩
  | .w => ⟨off, 0, off + th, h⟩
  | .e => ⟨w - off - th, 0, w - off, h⟩

variable {w h off th off' th' : Int} {d : Edge} {p : Int × Int}

theorem extent_opposite : extent w h d.opposite = extent w h d := by
  cases d <;> rfl

theorem depth_opposite : depth w h p d.opposite = extent w h d - 1 - depth w h p d := by
  cases d <;> simp only [depth, extent, Edge.opposite] <;> omega

/-- A strip within the panel is what lies between two depths. -/
theorem mem_strip (ho : 0 ≤ off) (ht : off + th ≤ extent w h d) :
    p ∈ (strip w h off th d).points ↔
      p ∈ (panel w h).points ∧ off ≤ depth w h p d ∧ depth w h p d < off + th := by
  cases d <;> simp only [extent] at ht <;>
    simp only [strip, Rect.points, panel, depth, Set.mem_ofPred_eq] <;> omega

theorem strip_subset (ho : 0 ≤ off) (ht : off + th ≤ extent w h d) :
    (strip w h off th d).points ⊆ (panel w h).points := by
  intro p hp
  exact ((mem_strip ho ht).mp hp).1

/-- A strip with a thickness has its corner. -/
theorem strip_nonempty (hw : 0 < w) (hh : 0 < h) (ht : 0 < th) :
    (strip w h off th d).points.Nonempty := by
  refine ⟨((strip w h off th d).l, (strip w h off th d).t), ?_⟩
  cases d <;> simp only [strip, Rect.points, Set.mem_ofPred_eq] <;> omega

/-- A strip is disjoint from one that is deeper. -/
theorem disjoint_strip (ho : 0 ≤ off) (ht : off + th ≤ off') (ht' : off' + th' ≤ extent w h d)
    (hth' : 0 ≤ th') (hth : 0 ≤ th) :
    Disjoint (strip w h off th d).points (strip w h off' th' d).points := by
  rw [Set.disjoint_left]
  intro p hp hp'
  have hd := ((mem_strip ho (by omega)).mp hp).2.2
  have hd' := ((mem_strip (by omega) ht').mp hp').2.1
  omega

/-- Strips along opposite edges are disjoint when both have room. -/
theorem disjoint_strip_opposite (ho : 0 ≤ off) (ho' : 0 ≤ off') (hth : 0 ≤ th) (hth' : 0 ≤ th')
    (hroom : off + th + (off' + th') ≤ extent w h d) :
    Disjoint (strip w h off th d.opposite).points (strip w h off' th' d).points := by
  rw [Set.disjoint_left]
  intro p hp hp'
  have hd := ((mem_strip ho (by rw [extent_opposite]; omega)).mp hp).2.2
  have hd' := ((mem_strip ho' (by omega)).mp hp').2.2
  rw [depth_opposite] at hd
  omega

/-- A strip begins where the one before it ends. -/
theorem side_strip :
    (strip w h (off + th) th' d).side d = (strip w h off th d).side d.opposite := by
  cases d <;> simp only [strip, Rect.side, Edge.opposite, Prod.mk.injEq, and_true] <;>
    omega

/-- A strip that is not moved lies on the edge. -/
theorem side_strip_zero : (strip w h 0 th d).side d = (panel w h).side d := by
  cases d <;> simp only [strip, Rect.side, panel, Int.sub_zero]

end Strips
