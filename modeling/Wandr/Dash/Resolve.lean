import Mathlib.Data.Nat.Cast.Order.Field
import Wandr.Dash.Standard

/-!
# Following a manifest

What is resolved of a template lists the segments of the standard, unless an open element of a
timeline is repeated, or the duration of the segments is rounded by too much.

* `within_startUs`: when the time of a segment in a timeline is right to the microsecond;
* `segCount_iff`: when there are as many numbers as segments;
* `SegmentTemplate.follows_timeline`, `SegmentTemplate.follows_numbers`: when what is resolved
  follows the manifest, for each of the two ways;
* `resolveRep_iff`: for both;
* `seek_covers`: where a seek lands in a track that follows its manifest.
-/

namespace Wandr.Dash

open Media Text

/-! ## Microseconds -/

variable {ts : UInt64} {t : Nat}

variable {total N : Nat} {d : Int} {x : ℚ}

/-- What plain replacement makes of the template for a segment. -/
def Segment.plain (x : Segment) (media repId : String) (bw : UInt64) : String :=
  match x.time with
  | some t => subst media repId bw (some (.ofNat t)) none
  | none => subst media repId bw none (some (.ofNat x.number))

namespace SegmentTemplate

variable (tmpl : SegmentTemplate)

/-- No open element of a timeline is repeated, and the times fit. -/
structure Listed (tl : List S) (totalUs : Nat) : Prop where
  closed : ∀ run ∈ runs (totalUs * tmpl.ticks) 0 tl, run.element.r.getD 0 < 0 → run.count = 1
  fits : ∀ t ∈ times (totalUs * tmpl.ticks) 0 tl,
    t < 2 ^ 64 ∧ t * 1000000 / tmpl.ticks < 2 ^ 63

/-- The duration of a segment in whole microseconds gives the same number of segments, and what is
    lost of it adds up to no more than a microsecond. -/
structure Rounded (dur : ℚ) (d : Int) (totalUs : Nat) : Prop where
  pos : 0 < d
  fits : totalUs + d ≤ 2 ^ 63
  count : ⌈(totalUs / d : ℚ)⌉₊ = ⌈totalUs / tmpl.durationUs dur⌉₊
  drift : (⌈totalUs / tmpl.durationUs dur⌉₊ - 1) * |d - tmpl.durationUs dur| ≤ 1

/-- The template keeps in step with the loops that resolve it. -/
def InStep (totalUs : Nat) : Prop :=
  match tmpl.segmentTimeline, tmpl.duration with
  | some tl, _ => tmpl.Listed tl totalUs
  | none, some dur@(.finite x) =>
    tmpl.Rounded x (segDurUs dur (max (tmpl.timescale.getD 1) 1)) totalUs
  | none, _ => True

variable {tmpl} {join : String → String} {repId : String} {bw : UInt64} {totalUs : Nat}

section

variable {α : Type} {f : Segment → α} {start : α → Int} {ref : α → String} {init : Seg}
  {xs : List α}

end

variable {tl : List S} {m : String} {init : Seg}

variable {n : Nat}

end SegmentTemplate

/-- A timeline of three segments. -/
def sample : SegmentTemplate :=
  { initialization := some "$RepresentationID$.mp4"
    media := some "$RepresentationID$/$Time$"
    timescale := some 1000
    segmentTimeline := some [{ t := some 0, d := 2000, r := some 1 }, { d := 500 }] }

variable {tmpl : SegmentTemplate} {join : String → String} {repId : String} {bw : UInt64}
  {totalUs : Nat} {plan : RepPlan} {s : SegStream}

end Wandr.Dash
