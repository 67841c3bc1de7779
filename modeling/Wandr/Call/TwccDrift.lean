import Mathlib.Algebra.Ring.Int.Defs
import Mathlib.Data.List.Forall2
import Wandr.Call.TwccContent

/-!
# The arrival times a report gives

The sender decodes the times of a report by adding up its deltas, each a whole number of
250 µs. A delta is truncated on its own while the next is taken from the exact time, so what the
truncations leave adds up (`decode_eq`): the times drift.

* `TwccTracker.within_iff`: when the times decoded are within 250 µs of those recorded;
* `TwccTracker.drifts` is a batch of three packets whose last time is 498 µs off.
-/

namespace Wandr

namespace TwccTracker

/-- The times as the sender decodes them: a delta goes over the wire in units of 250 µs. -/
def decode : Int → List (SymbolTypeTcc × Int) → List Int
  | _, [] => []
  | prev, d :: ds => (prev + 250 * d.2.tdiv 250) :: decode (prev + 250 * d.2.tdiv 250) ds

/-- The times of the packets that a report says were received. -/
def decoded (f : TransportLayerCc) : List Int := decode (f.referenceTime * 64000) f.recvDeltas

/-- The time decoded for a packet is within 250 µs of that recorded. -/
def Within (p : UInt16 × Int) (time : Int) : Prop := (p.2 - time).natAbs ≤ 250

/-- The differences of arrivals, each from the one before. -/
def differences : Int → List (UInt16 × Int) → List Int
  | _, [] => []
  | prev, p :: ps => (p.2 - prev) :: differences p.2 ps

/-- What is left of the differences when they are sent in units of 250 µs. -/
def rests (prev : Int) (b : List (UInt16 × Int)) : List Int :=
  (differences prev b).map fun d => d.tmod 250

variable {b : List (UInt16 × Int)} {prev time : Int}

/-- The times decoded differ from those recorded by what has been left so far. -/
theorem forall₂_decode (h : ∀ d ∈ differences prev b, clampDelta d = d) :
    List.Forall₂ Within b (decode time (deltas prev b)) ↔
      ∀ m < b.length, ((prev - time) + ((rests prev b).take (m + 1)).sum).natAbs ≤ 250 := by
  induction b generalizing prev time with
  | nil => simp [deltas, decode]
  | cons p b ih =>
    obtain ⟨hp, hb⟩ := List.forall_mem_cons.mp h
    have hrest : p.2 - (time + 250 * (p.2 - prev).tdiv 250) =
        (prev - time) + (p.2 - prev).tmod 250 := by
      have hdiv := Int.mul_tdiv_add_tmod (p.2 - prev) 250
      omega
    rw [deltas, decode, hp, List.forall₂_cons, Within, ih hb, hrest, List.length_cons,
      Nat.forall_lt_succ_left]
    refine and_congr ?_ (forall₂_congr fun m _ => ?_)
    · simp [rests, differences]
    · simp [rests, differences, Int.add_assoc]

/-- No delta of a batch is out of the range it is sent in. -/
def Unclamped (b : List (UInt16 × Int)) : Prop :=
  ∀ d ∈ differences (reference b * 64000) b, -32768 * 250 ≤ d ∧ d ≤ 32767 * 250

/-- What is left of the deltas up to any packet of a batch adds up to 250 µs at most. -/
def Bounded (b : List (UInt16 × Int)) : Prop :=
  ∀ m < b.length, ((rests (reference b * 64000) b).take (m + 1)).sum.natAbs ≤ 250

variable {t : TwccTracker} {now : Nat} {ssrc : UInt32} {f : TransportLayerCc}

/-- When the times decoded from a report are within 250 µs of those recorded. -/
theorem within_iff (hf : (t.poll now ssrc).2 = some f) : ∃ lo n, Spans t.pkts lo n ∧
    (Unclamped (arrivals lo n t.pkts) →
      (List.Forall₂ Within (arrivals lo n t.pkts) (decoded f) ↔
        Bounded (arrivals lo n t.pkts))) := by
  have hspan := spans_of_poll hf
  have hc := content_of_poll hspan hf
  refine ⟨_, _, hspan, fun hclamp => ?_⟩
  rw [Unclamped, ← hc.time] at hclamp
  have hexact : ∀ d ∈ differences (f.referenceTime * 64000) _, clampDelta d = d := fun d hd => by
    rw [clampDelta, min_eq_right (hclamp d hd).2, max_eq_right (hclamp d hd).1]
  rw [decoded, hc.deltas, forall₂_decode hexact, hc.time, Bounded]
  simp

/-- A tracker with packets at 0, 249 and 498 µs. -/
def drifting : TwccTracker := { pkts := [(1, 0), (2, 249), (3, 498)], epoch := 0 }

/-- The report on them. -/
def driftingReport : TransportLayerCc :=
  { senderSsrc := 7
    mediaSsrc := 0
    baseSequenceNumber := 1
    packetStatusCount := 3
    referenceTime := 0
    fbPktCount := 0
    packetChunks := [List.replicate 3 .packetReceivedSmallDelta ++
      List.replicate 4 .packetNotReceived]
    recvDeltas := [(.packetReceivedSmallDelta, 0), (.packetReceivedSmallDelta, 249),
      (.packetReceivedSmallDelta, 249)] }

theorem within_iff_drifting : ∃ lo n, Spans drifting.pkts lo n ∧
    (Unclamped (arrivals lo n drifting.pkts) →
      (List.Forall₂ Within (arrivals lo n drifting.pkts) (decoded driftingReport) ↔
        Bounded (arrivals lo n drifting.pkts))) :=
  within_iff (by decide : (drifting.poll 100000000 7).2 = some driftingReport)

/-- The third packet is decoded at 0 µs. -/
theorem drifts : ¬ ∀ (t : TwccTracker) (now : Nat) (ssrc : UInt32) (f : TransportLayerCc)
    (lo : UInt16) (n : Nat), (t.poll now ssrc).2 = some f → Spans t.pkts lo n →
    Unclamped (arrivals lo n t.pkts) → List.Forall₂ Within (arrivals lo n t.pkts) (decoded f) := by
  intro h
  have hnear := h drifting 100000000 7 driftingReport 1 3 (by decide)
    ⟨by decide, by decide, by decide, by decide⟩ (by rw [Unclamped]; decide)
  have hlast : ¬ List.Forall₂ Within (arrivals 1 3 drifting.pkts) (decoded driftingReport) := by
    have harrivals : arrivals 1 3 drifting.pkts = drifting.pkts := by decide
    have htimes : decoded driftingReport = [0, 0, 0] := by decide
    rw [harrivals, htimes, drifting]
    simp [Within]
  exact hlast hnear

end TwccTracker

end Wandr
