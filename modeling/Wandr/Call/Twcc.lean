import Mathlib.Data.List.Destutter
import Mathlib.Data.List.Sort
import Wandr.Lib.Serial

/-!
# Transport-wide feedback

The receiver of a call records the transport-wide number and the time of every packet
with media, and reports on them every 100 ms or later. A report is on the numbers from
the least one recorded since the last report to the greatest; it forgets them.

* `TwccTracker.Run.reports_increase`: no report takes another back, as long as no packet
  is late for a report on it;
* `TwccTracker.taken_back` is a report that takes another back.
-/

namespace Wandr

open Serial

/-- How a packet is reported on. -/
inductive SymbolTypeTcc
  | packetNotReceived
  | packetReceivedSmallDelta
  | packetReceivedLargeDelta
  deriving DecidableEq

/-- A report on the packets of the numbers from `baseSequenceNumber` on. -/
structure TransportLayerCc where
  senderSsrc : UInt32
  mediaSsrc : UInt32
  baseSequenceNumber : UInt16
  packetStatusCount : UInt16
  referenceTime : Int
  fbPktCount : UInt8
  packetChunks : List (List SymbolTypeTcc)
  recvDeltas : List (SymbolTypeTcc × Int)
  deriving DecidableEq

/-- The packets recorded since the last report, with the microseconds from `epoch` to
    their arrival. An instant is a number of nanoseconds. -/
structure TwccTracker where
  pkts : List (UInt16 × Int) := []
  epoch : Nat
  fbPktCount : UInt8 := 0
  lastFb : Option Nat := none
  lastSsrc : UInt32 := 0
  deriving DecidableEq

namespace TwccTracker

/-- Record a packet, unless there are too many. -/
def record (t : TwccTracker) (seq : UInt16) (ssrc : UInt32) (now : Nat) : TwccTracker :=
  { t with
    pkts :=
      if t.pkts.length < 2048 then
        t.pkts ++ [(seq, (((now - t.epoch) / 1000 : Nat) : Int).bmod (2 ^ 64))]
      else t.pkts
    lastSsrc := ssrc }

/-- What the packets of a batch are turned into, one after the other. -/
structure Marks where
  prevUs : Int
  symbols : List SymbolTypeTcc
  recvDeltas : List (SymbolTypeTcc × Int) := []

/-- Mark a packet as received. -/
def mark (base : UInt16) (k : Marks) (p : UInt16 × Int) : Marks :=
  let idx := (distance p.1 base).toNat
  let delta := max (-32768 * 250) (min (32767 * 250) (p.2 - k.prevUs))
  let symbol :=
    if 0 ≤ delta ∧ delta ≤ 255 * 250 then .packetReceivedSmallDelta
    else .packetReceivedLargeDelta
  { prevUs := p.2
    symbols := k.symbols.set idx symbol
    recvDeltas := k.recvDeltas ++ [(symbol, delta)] }

/-- The packets recorded in the order of their numbers, the first arrival of each. -/
def batch (first : UInt16) (pkts : List (UInt16 × Int)) : List (UInt16 × Int) :=
  (pkts.insertionSort fun a b => distance a.1 first ≤ distance b.1 first).destutter
    fun a b => a.1 ≠ b.1

/-- Seven symbols a chunk. -/
def chunk (symbols : List SymbolTypeTcc) : List (List SymbolTypeTcc) :=
  (symbols.toChunks 7).map fun c => c ++ List.replicate (7 - c.length) .packetNotReceived

/-- Report on the packets recorded, if it is time to and there are any. They are forgotten
    also when they are too far apart to be reported on. -/
def poll (t : TwccTracker) (now : Nat) (senderSsrc : UInt32) :
    TwccTracker × Option TransportLayerCc :=
  match t.pkts with
  | [] => (t, none)
  | p :: _ =>
    if t.lastFb.any fun last => (now - last) / 1000000 < 100 then (t, none)
    else
      let b := batch p.1 t.pkts
      let t := { t with pkts := [] }
      let minOff := distance (b.headD p).1 p.1
      let maxOff := distance (b.getLastD p).1 p.1
      let count := (maxOff - minOff + 1).toNat
      if count > 0x7FFF then (t, none)
      else
        let base := p.1 + wrap minOff
        let referenceTime := ((b.headD p).2.tdiv 64000) % 2 ^ 24
        let k :=
          b.foldl (mark base) ⟨referenceTime * 64000, List.replicate count .packetNotReceived, []⟩
        ({ t with fbPktCount := t.fbPktCount + 1, lastFb := some now },
          some
            { senderSsrc
              mediaSsrc := t.lastSsrc
              baseSequenceNumber := base
              packetStatusCount := UInt16.ofNat count
              referenceTime
              fbPktCount := t.fbPktCount
              packetChunks := chunk k.symbols
              recvDeltas := k.recvDeltas })

/-! ## What a report is on -/

/-- A report is on a number, with the numbers beginning with `lo`. -/
def Covers (lo : Int) (f : TransportLayerCc) (w : Int) : Prop :=
  ∃ i < f.packetStatusCount.toNat, w = unwrap lo f.baseSequenceNumber + i

/-- Two reports are on increasing numbers. -/
def Before (lo : Int) (f g : TransportLayerCc) : Prop :=
  ∀ v w, Covers lo f v → Covers lo g w → v < w

variable {t : TwccTracker} {lo : Int} {first : UInt16} {pkts : List (UInt16 × Int)}

theorem batch_sublist : (batch first pkts).Sublist
    (pkts.insertionSort fun a b => distance a.1 first ≤ distance b.1 first) :=
  List.destutter_sublist _ _

theorem mem_of_mem_batch {p : UInt16 × Int} (h : p ∈ batch first pkts) : p ∈ pkts :=
  (List.perm_insertionSort _ _).mem_iff.mp (batch_sublist.subset h)

theorem exists_mem_destutter' {a p : UInt16 × Int} (h : p ∈ a :: pkts) :
    ∃ q ∈ pkts.destutter' (fun a b => a.1 ≠ b.1) a, q.1 = p.1 := by
  induction pkts generalizing a p with
  | nil => exact ⟨p, h, rfl⟩
  | cons b pkts ih =>
    rw [List.destutter'_cons]
    by_cases hab : a.1 ≠ b.1
    · rw [if_pos hab]
      rcases List.mem_cons.mp h with rfl | h
      · exact ⟨p, List.mem_cons_self, rfl⟩
      · obtain ⟨q, hq, he⟩ := ih h
        exact ⟨q, List.mem_cons_of_mem _ hq, he⟩
    · rw [if_neg hab]
      rcases List.mem_cons.mp h with rfl | h
      · exact ih List.mem_cons_self
      · rcases List.mem_cons.mp h with rfl | h
        · obtain ⟨q, hq, he⟩ := ih List.mem_cons_self
          exact ⟨q, hq, he.trans (not_not.mp hab)⟩
        · exact ih (List.mem_cons_of_mem _ h)

/-- A number recorded is in the batch. -/
theorem exists_mem_batch {p : UInt16 × Int} (h : p ∈ pkts) : ∃ q ∈ batch first pkts, q.1 = p.1 := by
  have hp := (List.perm_insertionSort
    (fun a b : UInt16 × Int => distance a.1 first ≤ distance b.1 first) pkts).mem_iff.mpr h
  rw [batch]
  cases hsort : pkts.insertionSort fun a b => distance a.1 first ≤ distance b.1 first with
  | nil =>
    rw [hsort] at hp
    exact absurd hp List.not_mem_nil
  | cons a l =>
    rw [hsort] at hp
    exact exists_mem_destutter' hp

theorem batch_sorted : (batch first pkts).Pairwise
    fun a b => distance a.1 first ≤ distance b.1 first := by
  have htotal : Std.Total fun a b : UInt16 × Int => distance a.1 first ≤ distance b.1 first :=
    ⟨fun _ _ => Int.le_total _ _⟩
  have htrans : IsTrans _ fun a b : UInt16 × Int => distance a.1 first ≤ distance b.1 first :=
    ⟨fun _ _ _ => Int.le_trans⟩
  exact (List.pairwise_insertionSort _ _).sublist batch_sublist

theorem le_headD_getLastD {b : List (UInt16 × Int)} {d q : UInt16 × Int}
    (h : b.Pairwise fun a b => distance a.1 first ≤ distance b.1 first) (hq : q ∈ b) :
    distance (b.headD d).1 first ≤ distance q.1 first ∧
      distance q.1 first ≤ distance (b.getLastD d).1 first := by
  constructor
  · cases b with
    | nil => exact absurd hq List.not_mem_nil
    | cons a b =>
      rcases List.mem_cons.mp hq with rfl | hq
      · exact Int.le_refl _
      · exact (List.pairwise_cons.mp h).1 q hq
  · rcases List.eq_nil_or_concat b with rfl | ⟨b, a, rfl⟩
    · exact absurd hq List.not_mem_nil
    · rw [List.concat_eq_append] at hq h ⊢
      rw [List.getLastD_concat]
      rcases List.mem_append.mp hq with hq | hq
      · exact (List.pairwise_append.mp h).2.2 q hq a (List.mem_singleton_self a)
      · rw [List.mem_singleton.mp hq]

/-- The ends of a batch. -/
theorem batch_ends {d : UInt16 × Int} (h : pkts ≠ []) :
    (batch first pkts).headD d ∈ pkts ∧ (batch first pkts).getLastD d ∈ pkts ∧
      ∀ p ∈ pkts, distance ((batch first pkts).headD d).1 first ≤ distance p.1 first ∧
        distance p.1 first ≤ distance ((batch first pkts).getLastD d).1 first := by
  have hall {p : UInt16 × Int} (hp : p ∈ pkts) : ∃ q ∈ batch first pkts, q.1 = p.1 :=
    exists_mem_batch hp
  have hmem {p : UInt16 × Int} (hp : p ∈ batch first pkts) : p ∈ pkts := mem_of_mem_batch hp
  obtain ⟨p, hp⟩ := List.exists_mem_of_ne_nil pkts h
  obtain ⟨q, hq, -⟩ := hall hp
  refine ⟨hmem ?_, hmem ?_, fun p hp => ?_⟩
  · cases hb : batch first pkts with
    | nil => exact absurd (hb ▸ hq) List.not_mem_nil
    | cons a b => exact List.mem_cons_self
  · rcases List.eq_nil_or_concat (batch first pkts) with hb | ⟨b, a, hb⟩
    · exact absurd (hb ▸ hq) List.not_mem_nil
    · rw [hb, List.concat_eq_append, List.getLastD_concat]
      exact List.mem_append_right _ (List.mem_singleton_self a)
  · obtain ⟨q, hq, he⟩ := hall hp
    rw [← he]
    exact le_headD_getLastD batch_sorted hq

/-! ## A report -/

/-- What a poll may do: nothing, forget what is too far apart, or report. -/
theorem poll_cases {now : Nat} {ssrc : UInt32} :
    (t.poll now ssrc = (t, none)) ∨
    ((t.poll now ssrc).1.pkts = [] ∧ ((t.poll now ssrc).2 = none ∨
      ∃ p f, t.pkts.head? = some p ∧ (t.poll now ssrc).2 = some f ∧
        let b := batch p.1 t.pkts
        let count := (distance (b.getLastD p).1 p.1 - distance (b.headD p).1 p.1 + 1).toNat
        count ≤ 0x7FFF ∧ f.baseSequenceNumber = (b.headD p).1 ∧
          f.packetStatusCount.toNat = count)) := by
  rw [poll]
  split
  · exact .inl rfl
  · next p rest hp =>
    split
    · exact .inl rfl
    · dsimp only
      split
      · exact .inr ⟨rfl, .inl rfl⟩
      · next hcount =>
        rw [hp] at hcount ⊢
        refine .inr ⟨rfl, .inr ⟨p, _, rfl, rfl, Nat.le_of_not_lt hcount, add_wrap_distance, ?_⟩⟩
        rw [UInt16.toNat_ofNat']
        omega

/-- The numbers of a report are between two numbers recorded. -/
theorem covers_poll {now : Nat} {ssrc : UInt32} {f : TransportLayerCc} {w : Int}
    (hlo : ∀ p ∈ t.pkts, unwrap lo p.1 ≤ lo + 2 ^ 15) (hf : (t.poll now ssrc).2 = some f)
    (hw : Covers lo f w) :
    ∃ p ∈ t.pkts, ∃ q ∈ t.pkts, unwrap lo p.1 ≤ w ∧ w ≤ unwrap lo q.1 := by
  rcases poll_cases with h | ⟨-, h | ⟨p, g, hp, hg, hcount, hbase, hstatus⟩⟩
  · rw [h] at hf
    cases hf
  · rw [h] at hf
    cases hf
  · obtain rfl : f = g := Option.some.inj (hf.symm.trans hg)
    obtain ⟨i, hi, rfl⟩ := hw
    have hmem : p ∈ t.pkts := List.mem_of_mem_head? hp
    have hne : t.pkts ≠ [] := List.ne_nil_of_mem hmem
    obtain ⟨hleast, hgreatest, hends⟩ : _ ∧ _ ∧ ∀ q ∈ t.pkts,
      distance ((batch p.1 t.pkts).headD p).1 p.1 ≤ distance q.1 p.1 ∧
        distance q.1 p.1 ≤ distance ((batch p.1 t.pkts).getLastD p).1 p.1 := batch_ends hne
    have hself := hends p hmem
    rw [distance_self] at hself
    rw [hstatus] at hi
    -- The report would be on too many numbers if the distances from the first wrapped.
    have hl := distance_eq (hlo _ hleast) (hlo p hmem) (by omega)
    have hg := distance_eq (hlo _ hgreatest) (hlo p hmem) (by omega)
    refine ⟨_, hleast, _, hgreatest, ?_, ?_⟩ <;> rw [hbase]
    · omega
    · omega

/-! ## Any run -/

/-- A packet recorded is newer than any number reported on. -/
def Timely (lo : Int) (fbs : List TransportLayerCc) (t : TwccTracker) (u : Int) : Prop :=
  t.pkts.length < 2048 → ∀ f ∈ fbs, ∀ v, Covers lo f v → v < u

/-- The trackers that packets of the window that begins with `lo`, each of which meets a
    condition, and polls lead to, with the reports made. -/
inductive Run (lo : Int) (Ok : List TransportLayerCc → TwccTracker → Int → Prop) :
    TwccTracker → List TransportLayerCc → Prop
  | new {epoch : Nat} : Run lo Ok { epoch } []
  | record {t : TwccTracker} {fbs : List TransportLayerCc} {u : Int} {ssrc : UInt32} {now : Nat}
      (h : Run lo Ok t fbs) (hl : lo ≤ u) (hu : u ≤ lo + 2 ^ 15) (hok : Ok fbs t u) :
      Run lo Ok (t.record (wrap u) ssrc now) fbs
  | poll {t : TwccTracker} {fbs : List TransportLayerCc} {ssrc : UInt32} {now : Nat}
      (h : Run lo Ok t fbs) : Run lo Ok (t.poll now ssrc).1 (fbs ++ (t.poll now ssrc).2.toList)

/-- What is recorded is in the window, and newer than what has been reported on. -/
structure Newer (lo : Int) (t : TwccTracker) (fbs : List TransportLayerCc) : Prop where
  window : ∀ p ∈ t.pkts, unwrap lo p.1 ≤ lo + 2 ^ 15
  newer : ∀ p ∈ t.pkts, ∀ f ∈ fbs, ∀ v, Covers lo f v → v < unwrap lo p.1

variable {fbs : List TransportLayerCc}

theorem newer_record {u : Int} {ssrc : UInt32} {now : Nat} (h : Newer lo t fbs) (hl : lo ≤ u)
    (hu : u ≤ lo + 2 ^ 15) (hok : Timely lo fbs t u) :
    Newer lo (t.record (wrap u) ssrc now) fbs := by
  have hu' : unwrap lo (wrap u) = u := unwrap_wrap hl (by omega)
  have hmem {p : UInt16 × Int} (hp : p ∈ (t.record (wrap u) ssrc now).pkts) :
      p ∈ t.pkts ∨ t.pkts.length < 2048 ∧ p.1 = wrap u := by
    dsimp only [record] at hp
    split at hp
    · next hlen =>
      rcases List.mem_append.mp hp with hp | hp
      · exact .inl hp
      · exact .inr ⟨hlen, congrArg Prod.fst (List.mem_singleton.mp hp)⟩
    · exact .inl hp
  constructor
  · intro p hp
    rcases hmem hp with hp | ⟨-, hp⟩
    · exact h.window p hp
    · rw [hp, hu']
      exact hu
  · intro p hp
    rcases hmem hp with hp | ⟨hlen, hp⟩
    · exact h.newer p hp
    · rw [hp, hu']
      exact hok hlen

theorem newer_poll {ssrc : UInt32} {now : Nat} (h : Newer lo t fbs) :
    Newer lo (t.poll now ssrc).1 (fbs ++ (t.poll now ssrc).2.toList) := by
  rcases poll_cases with hp | ⟨hp, -⟩
  · rw [hp, Option.toList_none, List.append_nil]
    exact h
  · constructor <;> rw [hp] <;> exact fun p hp => absurd hp List.not_mem_nil

/-- A report is on numbers that are newer than what has been reported on. -/
theorem before_poll {ssrc : UInt32} {now : Nat} {f g : TransportLayerCc} (h : Newer lo t fbs)
    (hf : f ∈ fbs) (hg : (t.poll now ssrc).2 = some g) : Before lo f g := by
  intro v w hv hw
  obtain ⟨p, hp, -, -, hle, -⟩ := covers_poll h.window hg hw
  have hlt := h.newer p hp f hf v hv
  omega

/-- No report takes another back, as long as no packet is late for a report on it. -/
theorem Run.reports_increase (h : Run lo (Timely lo) t fbs) : fbs.Pairwise (Before lo) := by
  have hinv : Newer lo t fbs ∧ fbs.Pairwise (Before lo) := by
    induction h with
    | new => exact ⟨⟨by simp, by simp⟩, .nil⟩
    | record _ hl hu hok ih => exact ⟨newer_record ih.1 hl hu hok, ih.2⟩
    | poll _ ih =>
      refine ⟨newer_poll ih.1, List.pairwise_append.mpr ⟨ih.2, ?_, fun f hf g hg => ?_⟩⟩
      · cases (TwccTracker.poll _ _ _).2 <;> simp
      · exact before_poll ih.1 hf (Option.mem_toList.mp hg)
  exact hinv.2

/-- Two packets recorded. -/
def recordTwo (t : TwccTracker) (a b : Int) (now : Nat) : TwccTracker :=
  (t.record (wrap a) 1 now).record (wrap b) 1 (now + 1000000)

/-- The tracker after a report on two packets, with the report. -/
def reported (a b : Int) : TwccTracker × List TransportLayerCc :=
  let r := (recordTwo { epoch := 0 } a b 1000000).poll 200000000 7
  (r.1, r.2.toList)

theorem Run.reports_increase_two : ((reported 10 11).2 ++
    ((recordTwo (reported 10 11).1 12 13 201000000).poll 400000000 7).2.toList).Pairwise
      (Before 0) := by
  have htimely {f : TransportLayerCc} {u : Int} (hf : f ∈ (reported 10 11).2) (hu : 11 < u) :
      ∀ v, Covers 0 f v → v < u := by
    have hbase : ∀ f ∈ (reported 10 11).2, unwrap 0 f.baseSequenceNumber = 10 ∧
        f.packetStatusCount.toNat = 2 := by decide
    rintro v ⟨i, hi, rfl⟩
    have hf := hbase f hf
    omega
  have hrun : Run 0 (Timely 0) (reported 10 11).1 ([] ++ (reported 10 11).2) :=
    .poll (.record (.record .new (by decide) (by decide) fun _ f hf => absurd hf List.not_mem_nil)
      (by decide) (by decide) fun _ f hf => absurd hf List.not_mem_nil)
  exact (Run.poll (.record (.record hrun (by decide) (by decide)
      fun _ f hf => htimely hf (by decide))
    (by decide) (by decide) fun _ f hf => htimely hf (by decide))).reports_increase

/-- A packet that arrives after a report on later ones makes the next one take it back. -/
theorem taken_back : ¬ ∀ (lo : Int) (t : TwccTracker) (fbs : List TransportLayerCc),
    Run lo (fun _ _ _ => True) t fbs → fbs.Pairwise (Before lo) := by
  intro h
  have hrun : Run 0 (fun _ _ _ => True) (reported 10 12).1 ([] ++ (reported 10 12).2) :=
    .poll (.record (.record .new (by decide) (by decide) trivial) (by decide) (by decide) trivial)
  have hrun' : Run 0 (fun _ _ _ => True)
      ((recordTwo (reported 10 12).1 11 13 201000000).poll 400000000 7).1
      ((reported 10 12).2 ++
        ((recordTwo (reported 10 12).1 11 13 201000000).poll 400000000 7).2.toList) :=
    .poll (.record (.record hrun (by decide) (by decide) trivial) (by decide) (by decide) trivial)
  obtain ⟨f, hf, hbase, hcount⟩ : ∃ f ∈ (reported 10 12).2, unwrap 0 f.baseSequenceNumber = 10 ∧
      f.packetStatusCount.toNat = 3 := by decide
  obtain ⟨g, hg, hbase', hcount'⟩ :
      ∃ g ∈ ((recordTwo (reported 10 12).1 11 13 201000000).poll 400000000 7).2.toList,
        unwrap 0 g.baseSequenceNumber = 11 ∧ g.packetStatusCount.toNat = 3 := by decide
  have hlt : (12 : Int) < 11 := (List.pairwise_append.mp (h _ _ _ hrun')).2.2 f hf g hg 12 11
    ⟨2, by omega, by omega⟩ ⟨0, by omega, by omega⟩
  exact absurd hlt (by decide)

end TwccTracker

end Wandr
