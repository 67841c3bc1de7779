import Wandr.Media.RangeReader

/-!
# Streaming segment by segment

A track that comes in segments is demuxed one segment at a time. The bytes of the next
segment are fetched ahead by a task, into a slot for one segment (`Prefetch`) that the
stream shares with the task; when they are not there the stream fetches them itself and
waits. A seek goes to another segment and clears the slot, but a task that runs goes on, and
fills the slot when it ends.

* `Streaming.InOrder.next`: whatever ends when, the packets since the last seek are those of
  the segments from the one it landed on, each opened with bytes that were fetched for it;
* `Streaming.Single.next`: as long as no task is started while another one runs, one task at
  most runs, and none that ends has been started before what is in the slot came;
* `streams_segments`: a run upholds all of this if and only if no task is started while
  another one runs.
-/

namespace Wandr.Media

open Machine

/-! ## Segments -/

/-- A segment: an address, or a range of bytes at an address, with its offset and length. -/
structure Seg where
  url : String
  range : Option (Nat × Nat)

/-- Take the whole of what is at an address. -/
def fetchUrl : Answer → Except String (List UInt8)
  | .badUrl e => .error ("bad url: " ++ e)
  | .failed e => .error ("fetch: " ++ e)
  | .response r =>
    if r.status ≠ 200 ∧ r.status ≠ 206 then
      .error ("fetch: unexpected status " ++ r.statusText)
    else
      match r.body with
      | .error e => .error ("body: " ++ e)
      | .ok bytes => .ok bytes

/-- The bytes of a segment. -/
def fetchSegBytes (seg : Seg) (a : Answer) : Except String (List UInt8) :=
  match seg.range with
  | some _ => (fetchRange a).map Range.bytes
  | none => fetchUrl a

/-- A packet of a demuxer. -/
structure Packet where
  streamIndex : Nat := 0
  pts : Option Int
  dts : Option Int := none
  keyframe : Bool := false
  data : List UInt8

/-- A time in ticks of `num / den` seconds, in microseconds. -/
def ticksToUs (pts num den : Int) : Int :=
  if den = 0 then 0 else asI64 ((pts * num * 1000000).tdiv den)

/-- The slot for the segment that is fetched ahead, with its index. -/
structure Prefetch where
  ready : Option (Nat × List UInt8) := none
  inflight : Bool := false

/-- A track in segments. The demuxer of the segment that is open is given by the packets it
    has left. -/
structure SegStream where
  init : List UInt8
  segs : List Seg
  startsUs : List Int
  idx : Nat := 0
  dmx : Option (List Packet) := none
  num : Int
  den : Int
  done : Bool := false
  pf : Prefetch := {}

/-- What a packet is given out as: its time, whether it is a key frame, and its data. -/
abbrev Shown : Type := Int × Bool × List UInt8

/-- What comes of asking for a packet. -/
inductive Pulled
  | packet (p : Shown)
  | finished
  | blocked
  deriving DecidableEq

/-- What comes of opening the next segment. -/
inductive Opening
  | opened
  | failed
  | blocked

namespace SegStream

section
-- The demuxer of the container: the packets it finds, one after the other, up to its first
-- error.
variable (openMp4 : List UInt8 → Except String (List Packet)) (s : SegStream)

/-- The segment to start a task for. -/
def drivePrefetch : Option Seg :=
  match s.segs[s.idx]? with
  | none => none
  | some seg =>
    if s.pf.inflight ∨ s.pf.ready.map Prod.fst = some s.idx then none else some seg

/-- Mark the slot for a task that is started. -/
def markInflight : SegStream := { s with pf := { s.pf with inflight := true } }

/-- The end of the task for a segment. -/
def complete (idx : Nat) (bytes : Except String (List UInt8)) : SegStream :=
  let pf := { s.pf with inflight := false }
  match bytes with
  | .ok b => { s with pf := { pf with ready := some (idx, b) } }
  | .error _ => { s with pf }

/-- Open the next segment with its bytes. -/
def openWith (seg : List UInt8) : Opening × SegStream :=
  match openMp4 (s.init ++ seg) with
  | .ok d => (.opened, { s with dmx := some d, idx := s.idx + 1 })
  | .error _ => (.failed, { s with done := true })

/-- The bytes of the next segment, when the slot has them. -/
def prefetched : Option (List UInt8) :=
  match s.pf.ready with
  | some (i, b) => if i = s.idx then some b else none
  | none => none

/-- Open the next segment, unless its bytes have to be waited for. -/
def openNext : Opening × SegStream :=
  if s.segs.length ≤ s.idx then (.failed, { s with done := true })
  else
    match s.prefetched with
    | some b => openWith openMp4 { s with pf := { s.pf with ready := none } } b
    | none => (.blocked, s)

/-- What a packet is given out as. -/
def present (p : Packet) : Shown :=
  (ticksToUs ((p.pts.or p.dts).getD 0) s.num s.den, p.keyframe, p.data)

/-- Ask for the next packet, over the segments that have none left, at most `n` times. -/
def roll : Nat → SegStream → Pulled × SegStream
  | 0, s => (.finished, s)
  | n + 1, s =>
    match s.dmx with
    | some (p :: ps) => (.packet (s.present p), { s with dmx := some ps })
    | _ =>
      match openNext openMp4 { s with dmx := none } with
      | (.opened, s) => roll n s
      | (.failed, s) => (.finished, s)
      | (.blocked, s) => (.blocked, s)

/-- Ask for the next packet. Each segment that is opened is one less to come. -/
def nextPacket : Pulled × SegStream := roll openMp4 (s.segs.length - s.idx + 1) s

/-- Go on with the bytes of the next segment, that had to be waited for. -/
def fetched (bytes : Except String (List UInt8)) : Pulled × SegStream :=
  match bytes with
  | .error _ => (.finished, { s with done := true })
  | .ok b =>
    match openWith openMp4 s b with
    | (.opened, s) => nextPacket openMp4 s
    | (_, s) => (.finished, s)

/-- Wait for each segment that a packet needs, `n` at most. -/
def settle (fetch : Nat → Except String (List UInt8)) :
    Nat → Pulled × SegStream → Option Shown × SegStream
  | _, (.packet p, s) => (some p, s)
  | _, (.finished, s) => (none, s)
  | 0, (.blocked, s) => (none, s)
  | n + 1, (.blocked, s) => settle fetch n (s.fetched openMp4 (fetch s.idx))

/-- Ask for the next packet and wait for it. -/
def pullPacket (fetch : Nat → Except String (List UInt8)) : Option Shown × SegStream :=
  settle openMp4 fetch (s.segs.length - s.idx + 1) (s.nextPacket openMp4)

/-- The last place in a list where a condition holds. -/
def rposition {α : Type} (p : α → Bool) (l : List α) : Option Nat :=
  (l.reverse.findIdx? p).map (l.length - 1 - ·)

/-- The segment that covers a time. -/
def segAt (targetUs : Int) : Nat := (rposition (· ≤ targetUs) s.startsUs).getD 0

/-- Go to the segment that covers a time, and to the start of it. -/
def seek (targetUs : Int) : Int × SegStream :=
  (s.startsUs[s.segAt targetUs]?.getD 0,
    { s with idx := s.segAt targetUs, dmx := none, done := false, pf := {} })

end

end SegStream

/-! ## Steps -/

/-- A task that fetches a segment ahead: how many have been started before it, the index of
    the segment, and the segment. -/
structure Task where
  number : Nat
  idx : Nat
  seg : Seg

/-- A stream, the tasks that run for it and the segment it waits for; and what is observed of
    it: how many tasks have been started, and how many when what is in the slot came; the
    segment that the last seek landed on and the packets since; and what has been fetched for
    which segment. -/
structure Streaming where
  stream : SegStream
  tasks : List Task := []
  waiting : Option Seg := none
  started : Nat := 0
  readySince : Nat := 0
  landed : Nat := 0
  out : List Shown := []
  got : List (Seg × List UInt8) := []

/-- What happens next. -/
inductive SegStep
  | drivePrefetch
  | complete (i : Nat) (a : Answer)
  | nextPacket
  | fetched (a : Answer)
  | seek (targetUs : Int)

namespace Streaming

variable (openMp4 : List UInt8 → Except String (List Packet)) (s : Streaming)

/-- A task is started. -/
def drivePrefetch : Streaming :=
  match s.stream.drivePrefetch with
  | none => s
  | some seg =>
    { s with
      stream := s.stream.markInflight
      tasks := s.tasks ++ [{ number := s.started, idx := s.stream.idx, seg }]
      started := s.started + 1 }

/-- What a fetch has given is noted. -/
def note (seg : Seg) : Except String (List UInt8) → List (Seg × List UInt8)
  | .ok b => s.got ++ [(seg, b)]
  | .error _ => s.got

/-- A task ends. -/
def complete (i : Nat) (a : Answer) : Streaming :=
  match s.tasks[i]? with
  | none => s
  | some t =>
    let bytes := fetchSegBytes t.seg a
    { s with
      stream := s.stream.complete t.idx bytes
      tasks := s.tasks.eraseIdx i
      readySince := if bytes.isOk then s.started else s.readySince
      got := s.note t.seg bytes }

/-- A packet goes out, or there is none, or a segment is waited for. -/
def observe : Pulled × SegStream → Streaming
  | (.packet p, stream) => { s with stream, waiting := none, out := s.out ++ [p] }
  | (.finished, stream) => { s with stream, waiting := none }
  | (.blocked, stream) => { s with stream, waiting := stream.segs[stream.idx]? }

/-- A packet is asked for. -/
def nextPacket : Streaming :=
  if s.waiting.isSome then s else s.observe (s.stream.nextPacket openMp4)

/-- The segment that is waited for comes. -/
def fetched (a : Answer) : Streaming :=
  match s.waiting with
  | none => s
  | some seg =>
    let bytes := fetchSegBytes seg a
    { s with got := s.note seg bytes }.observe (s.stream.fetched openMp4 bytes)

/-- The stream goes elsewhere. -/
def seek (targetUs : Int) : Streaming :=
  if s.waiting.isSome then s
  else
    let stream := (s.stream.seek targetUs).2
    { s with stream, landed := stream.idx, out := [] }

/-- Take a step. -/
def next (s : Streaming) : SegStep → Streaming
  | .drivePrefetch => s.drivePrefetch
  | .complete i a => s.complete i a
  | .nextPacket => s.nextPacket openMp4
  | .fetched a => s.fetched openMp4 a
  | .seek targetUs => s.seek targetUs

end Streaming

/-! ## The packets of the segments -/

section

variable {openMp4 : List UInt8 → Except String (List Packet)} {segs : List Seg}
  {got got' : List (Seg × List UInt8)} {landed : Nat} {out : List Shown} {s : SegStream}

/-- The bytes have been fetched for the segment with an index. -/
def Own (segs : List Seg) (got : List (Seg × List UInt8)) (k : Nat) (b : List UInt8) : Prop :=
  ∃ seg, segs[k]? = some seg ∧ (seg, b) ∈ got

/-- The packets of a segment, if it can be opened. -/
def SegStream.packetsOf (openMp4 : List UInt8 → Except String (List Packet)) (s : SegStream)
    (b : List UInt8) : List Shown :=
  match openMp4 (s.init ++ b) with
  | .ok d => d.map s.present
  | .error _ => []

/-- The packets that have gone out are, with those that are left in the segment that is open,
    the ones of consecutive segments, each opened with its own bytes. -/
def SegStream.InOrder (openMp4 : List UInt8 → Except String (List Packet))
    (got : List (Seg × List UInt8)) (landed : Nat) (out : List Shown) (s : SegStream) : Prop :=
  ∃ bs : List (List UInt8), s.idx = landed + bs.length ∧
    (∀ j b, bs[j]? = some b →
      Own s.segs got (landed + j) b ∧ ∃ d, openMp4 (s.init ++ b) = .ok d) ∧
    out ++ (s.dmx.getD []).map s.present = bs.flatMap (s.packetsOf openMp4)

/-- The segments are those of the stream, what is in the slot has been fetched for its
    segment, and the packets are in order. -/
structure SegStream.Follows (openMp4 : List UInt8 → Except String (List Packet))
    (segs : List Seg) (got : List (Seg × List UInt8)) (landed : Nat) (out : List Shown)
    (s : SegStream) : Prop where
  same : s.segs = segs
  ready : ∀ k b, s.pf.ready = some (k, b) → Own segs got k b
  inOrder : s.InOrder openMp4 got landed out

theorem Own.mono {k : Nat} {b : List UInt8} (h : Own segs got k b) (hg : got ⊆ got') :
    Own segs got' k b := by
  obtain ⟨seg, hs, hm⟩ := h
  exact ⟨seg, hs, hg hm⟩

namespace SegStream

/-- More may be fetched. -/
theorem Follows.mono (h : s.Follows openMp4 segs got landed out) (hg : got ⊆ got') :
    s.Follows openMp4 segs got' landed out := by
  obtain ⟨bs, hi, hb, ho⟩ := h.inOrder
  refine ⟨h.same, fun k b hr => (h.ready k b hr).mono hg, bs, hi, fun j b hj => ?_, ho⟩
  exact ⟨(hb j b hj).1.mono hg, (hb j b hj).2⟩

/-- The slot may be filled with what has been fetched for its segment. -/
theorem Follows.withSlot (h : s.Follows openMp4 segs got landed out) {pf : Prefetch}
    (hr : ∀ k b, pf.ready = some (k, b) → Own segs got k b) :
    { s with pf }.Follows openMp4 segs got landed out :=
  ⟨h.same, hr, h.inOrder⟩

/-- A segment is opened with its own bytes, when none is open, or is given up. -/
theorem Follows.openWith (h : s.Follows openMp4 segs got landed out) (hd : s.dmx = none)
    {b : List UInt8} (hb : Own segs got s.idx b) :
    (s.openWith openMp4 b).2.Follows openMp4 segs got landed out := by
  unfold SegStream.openWith
  split
  · next d hopen =>
    obtain ⟨bs, hi, hall, ho⟩ := h.inOrder
    refine ⟨h.same, h.ready, bs ++ [b], ?_, fun j b' hj => ?_, ?_⟩
    · dsimp only
      rw [hi, List.length_append]
      rfl
    · rw [List.getElem?_append] at hj
      split at hj
      · exact hall j b' hj
      · next hlt =>
        -- The segment that is opened is the one after those before it.
        obtain ⟨hlt', rfl⟩ := List.getElem?_eq_some_iff.1 hj
        obtain rfl : j = bs.length := by
          rw [List.length_singleton] at hlt'
          omega
        simp only [Nat.sub_self, List.getElem_cons_zero]
        rw [← hi, h.same]
        exact ⟨hb, d, hopen⟩
    · rw [hd] at ho
      dsimp only [Option.getD] at ho ⊢
      rw [List.flatMap_append, List.flatMap_singleton, packetsOf]
      dsimp only
      rw [hopen]
      rw [List.map_nil, List.append_nil] at ho
      rw [ho]
      rfl
  · exact ⟨h.same, h.ready, h.inOrder⟩

/-- No more is left of a segment that has no packets left. -/
theorem Follows.withNone (h : s.Follows openMp4 segs got landed out)
    (hd : s.dmx.getD [] = []) : { s with dmx := none }.Follows openMp4 segs got landed out := by
  obtain ⟨bs, hi, hb, ho⟩ := h.inOrder
  rw [hd] at ho
  exact ⟨h.same, h.ready, bs, hi, hb, ho⟩

theorem openWith_ne_blocked {b : List UInt8} : (s.openWith openMp4 b).1 ≠ .blocked := by
  unfold SegStream.openWith
  split <;> exact nofun

/-- What comes of opening the next segment: the packets stay in order, and none is open when
    it is waited for. -/
def Opens (openMp4 : List UInt8 → Except String (List Packet)) (segs : List Seg)
    (got : List (Seg × List UInt8)) (landed : Nat) (out : List Shown)
    (r : Opening × SegStream) : Prop :=
  r.2.Follows openMp4 segs got landed out ∧ (r.1 = .blocked → r.2.dmx = none)

theorem Follows.openNext (h : s.Follows openMp4 segs got landed out) (hd : s.dmx = none) :
    Opens openMp4 segs got landed out (s.openNext openMp4) := by
  unfold SegStream.openNext
  split
  · exact ⟨⟨h.same, h.ready, h.inOrder⟩, nofun⟩
  · split
    · next b hb =>
      have hs : SegStream.Follows openMp4 segs got landed out
          { s with pf := { s.pf with ready := none } } := h.withSlot nofun
      refine ⟨hs.openWith hd ?_, fun he => absurd he openWith_ne_blocked⟩
      unfold prefetched at hb
      split at hb
      · next i b' hr =>
        split at hb
        · next hi =>
          obtain rfl := Option.some.inj hb
          exact hi ▸ h.ready i b' hr
        · exact nomatch hb
      · exact nomatch hb
    · exact ⟨h, fun _ => hd⟩

/-- What comes of asking for a packet: one more goes out, or none, or a segment is waited
    for. -/
def Pulls (openMp4 : List UInt8 → Except String (List Packet)) (segs : List Seg)
    (got : List (Seg × List UInt8)) (landed : Nat) (out : List Shown) :
    Pulled × SegStream → Prop
  | (.packet p, s) => s.Follows openMp4 segs got landed (out ++ [p])
  | (.finished, s) => s.Follows openMp4 segs got landed out
  | (.blocked, s) => s.Follows openMp4 segs got landed out ∧ s.dmx = none

theorem Follows.roll (n : Nat) (h : s.Follows openMp4 segs got landed out) :
    Pulls openMp4 segs got landed out (s.roll openMp4 n) := by
  induction n generalizing s with
  | zero => exact h
  | succ n ih =>
    unfold SegStream.roll
    split
    · next p ps hd =>
      -- The packet goes from those that are left to those that have gone out.
      obtain ⟨bs, hi, hb, ho⟩ := h.inOrder
      refine ⟨h.same, h.ready, bs, hi, hb, ?_⟩
      rw [hd] at ho
      exact (List.append_assoc _ _ _).trans ho
    · next hd =>
      have hn : s.dmx.getD [] = [] := by
        cases hs : s.dmx with
        | none => rfl
        | some ps =>
          cases ps with
          | nil => rfl
          | cons p ps => exact absurd hs (hd p ps)
      obtain ⟨hf, hbl⟩ := (h.withNone hn).openNext rfl
      split
      · next s' he =>
        rw [he] at hf
        exact ih hf
      · next s' he =>
        rw [he] at hf
        exact hf
      · next s' he =>
        rw [he] at hf hbl
        exact ⟨hf, hbl rfl⟩

theorem Follows.fetched (h : s.Follows openMp4 segs got landed out) (hd : s.dmx = none)
    {bytes : Except String (List UInt8)} (hb : ∀ b, bytes = .ok b → Own segs got s.idx b) :
    Pulls openMp4 segs got landed out (s.fetched openMp4 bytes) := by
  cases bytes with
  | error e => exact ⟨h.same, h.ready, h.inOrder⟩
  | ok b =>
    have ho : (s.openWith openMp4 b).2.Follows openMp4 segs got landed out :=
      h.openWith hd (hb b rfl)
    dsimp only [SegStream.fetched]
    split
    · next s' he =>
      rw [he] at ho
      exact ho.roll _
    · next r s' _ he =>
      rw [he] at ho
      exact ho

/-- Going to a segment there is no packet out and none left. -/
theorem Follows.seek (h : s.Follows openMp4 segs got landed out) (targetUs : Int) :
    (s.seek targetUs).2.Follows openMp4 segs got (s.seek targetUs).2.idx [] :=
  ⟨h.same, nofun, [], rfl, nofun, rfl⟩

/-! ### No round too few -/

end SegStream

end

/-! ## Runs -/

namespace Streaming

variable {openMp4 : List UInt8 → Except String (List Packet)} {segs : List Seg} {s : Streaming}
  {i : SegStep}

/-- The packets are in order, each task has the segment with its index, and the stream waits
    for the next one. -/
structure Good (openMp4 : List UInt8 → Except String (List Packet)) (segs : List Seg)
    (s : Streaming) : Prop where
  follows : s.stream.Follows openMp4 segs s.got s.landed s.out
  tasks : ∀ t ∈ s.tasks, segs[t.idx]? = some t.seg
  waiting : ∀ seg, s.waiting = some seg → segs[s.stream.idx]? = some seg ∧ s.stream.dmx = none

theorem note_subset (s : Streaming) (seg : Seg) (bytes : Except String (List UInt8)) :
    s.got ⊆ s.note seg bytes := by
  cases bytes with
  | ok b => exact List.subset_append_left _ _
  | error e => exact List.Subset.refl _

theorem own_note {k : Nat} {seg : Seg} {bytes : Except String (List UInt8)}
    (hs : segs[k]? = some seg) {b : List UInt8} (hb : bytes = .ok b) :
    Own segs (s.note seg bytes) k b := by
  subst hb
  exact ⟨seg, hs, List.mem_append_right _ (List.mem_singleton_self _)⟩

theorem Good.drivePrefetch (h : s.Good openMp4 segs) : s.drivePrefetch.Good openMp4 segs := by
  unfold Streaming.drivePrefetch
  split
  · exact h
  · next seg hd =>
    refine ⟨h.follows.withSlot h.follows.ready, fun t ht => ?_, h.waiting⟩
    rcases List.mem_append.1 ht with hm | hm
    · exact h.tasks t hm
    · obtain rfl := List.mem_singleton.1 hm
      unfold SegStream.drivePrefetch at hd
      split at hd
      · exact nomatch hd
      · next seg' hs =>
        split at hd
        · exact nomatch hd
        · rw [← h.follows.same, hs, hd]

theorem Good.complete (h : s.Good openMp4 segs) (n : Nat) (a : Answer) :
    (s.complete n a).Good openMp4 segs := by
  unfold Streaming.complete
  split
  · exact h
  · next t ht =>
    have hseg := h.tasks t (List.mem_of_getElem? ht)
    refine ⟨?_, fun t' ht' => h.tasks t' (List.mem_of_mem_eraseIdx ht'), fun seg hw => ?_⟩
    · have hf := h.follows.mono (s.note_subset t.seg (fetchSegBytes t.seg a))
      dsimp only [SegStream.complete]
      cases hb : fetchSegBytes t.seg a with
      | error e =>
        rw [hb] at hf
        exact hf.withSlot hf.ready
      | ok b =>
        rw [hb] at hf
        refine hf.withSlot fun k b' hr => ?_
        -- What comes into the slot has been fetched for the segment of the task.
        cases hr
        exact own_note hseg rfl
    · have hw' := h.waiting seg hw
      dsimp only [SegStream.complete]
      split <;> exact hw'

theorem Good.observe (h : s.Good openMp4 segs) {r : Pulled × SegStream}
    (hr : SegStream.Pulls openMp4 segs s.got s.landed s.out r) :
    (s.observe r).Good openMp4 segs := by
  obtain ⟨pulled, stream⟩ := r
  cases pulled with
  | packet p => exact ⟨hr, h.tasks, nofun⟩
  | finished => exact ⟨hr, h.tasks, nofun⟩
  | blocked =>
    refine ⟨hr.1, h.tasks, fun seg hw => ⟨?_, hr.2⟩⟩
    rw [← hr.1.same]
    exact hw

theorem Good.nextPacket (h : s.Good openMp4 segs) :
    (s.nextPacket openMp4).Good openMp4 segs := by
  unfold Streaming.nextPacket
  split
  · exact h
  · exact h.observe (h.follows.roll _)

theorem Good.fetched (h : s.Good openMp4 segs) (a : Answer) :
    (s.fetched openMp4 a).Good openMp4 segs := by
  unfold Streaming.fetched
  split
  · exact h
  · next seg hw =>
    obtain ⟨hs, hd⟩ := h.waiting seg hw
    have hg : Good openMp4 segs { s with got := s.note seg (fetchSegBytes seg a) } :=
      ⟨h.follows.mono (s.note_subset _ _), h.tasks, h.waiting⟩
    exact hg.observe (hg.follows.fetched hd fun b hb => own_note hs hb)

theorem Good.seek (h : s.Good openMp4 segs) (targetUs : Int) :
    (s.seek targetUs).Good openMp4 segs := by
  unfold Streaming.seek
  split
  · exact h
  · next hw =>
    exact ⟨h.follows.seek targetUs, h.tasks, fun seg hs => absurd (by rw [hs]; rfl) hw⟩

/-- Whatever comes next, the packets stay in order. -/
theorem Good.next (h : s.Good openMp4 segs) (i : SegStep) :
    (s.next openMp4 i).Good openMp4 segs := by
  cases i with
  | drivePrefetch => exact h.drivePrefetch
  | complete n a => exact h.complete n a
  | nextPacket => exact h.nextPacket
  | fetched a => exact h.fetched a
  | seek targetUs => exact h.seek targetUs

/-! ### One task at a time -/

/-- One task at most runs, and it has been started after what is in the slot came. -/
structure Single (s : Streaming) : Prop where
  tasks : s.tasks.length ≤ 1
  since : ∀ t ∈ s.tasks, s.readySince ≤ t.number
  started : s.readySince ≤ s.started

/-- No task is started while another one runs. -/
def Alone (s : Streaming) (i : SegStep) : Prop :=
  i = .drivePrefetch → s.stream.drivePrefetch.isSome → s.tasks = []

/-- A task that ends leaves the next segment in the slot if that came after the task had been
    started. -/
def KeepsNext (openMp4 : List UInt8 → Except String (List Packet)) (s : Streaming)
    (i : SegStep) : Prop :=
  ∀ n a t b, i = .complete n a → s.tasks[n]? = some t → t.number < s.readySince →
    s.stream.pf.ready = some (s.stream.idx, b) →
    (s.next openMp4 i).stream.pf.ready = some (s.stream.idx, b)

theorem Single.observe (h : s.Single) (r : Pulled × SegStream) : (s.observe r).Single := by
  obtain ⟨pulled, stream⟩ := r
  cases pulled <;> exact ⟨h.tasks, h.since, h.started⟩

theorem Single.next (h : s.Single) (ha : s.Alone i) : (s.next openMp4 i).Single := by
  cases i with
  | drivePrefetch =>
    dsimp only [Streaming.next, Streaming.drivePrefetch]
    split
    · exact h
    · next seg hd =>
      have ht := ha rfl (by rw [hd]; rfl)
      refine ⟨?_, fun t hm => ?_, h.started.trans (Nat.le_succ _)⟩
      · rw [ht]
        exact Nat.le_refl 1
      · rw [ht] at hm
        obtain rfl := List.mem_singleton.1 hm
        exact h.started
  | complete n a =>
    dsimp only [Streaming.next, Streaming.complete]
    split
    · exact h
    · next t ht =>
      have hnil : s.tasks.eraseIdx n = [] := by
        have hlt := (List.getElem?_eq_some_iff.1 ht).1
        have hl := List.length_eraseIdx_of_lt hlt
        have hone := h.tasks
        exact List.eq_nil_of_length_eq_zero (by omega)
      refine ⟨by rw [hnil]; exact Nat.zero_le _, by rw [hnil]; exact nofun, ?_⟩
      dsimp only
      split
      · exact Nat.le_refl _
      · exact h.started
  | nextPacket =>
    dsimp only [Streaming.next, Streaming.nextPacket]
    split
    · exact h
    · exact h.observe _
  | fetched a =>
    dsimp only [Streaming.next, Streaming.fetched]
    split
    · exact h
    · have hn : ∀ got, Single { s with got } := fun got => ⟨h.tasks, h.since, h.started⟩
      exact (hn _).observe _
  | seek targetUs =>
    dsimp only [Streaming.next, Streaming.seek]
    split
    · exact h
    · exact ⟨h.tasks, h.since, h.started⟩

/-- The packets since the last seek are in order, one task at most runs, and none that ends
    throws away the next segment that came after it had been started. -/
def Upholds (openMp4 : List UInt8 → Except String (List Packet)) (s : Streaming)
    (i : SegStep) : Prop :=
  (s.next openMp4 i).stream.InOrder openMp4 (s.next openMp4 i).got (s.next openMp4 i).landed
      (s.next openMp4 i).out ∧
    (s.next openMp4 i).tasks.length ≤ 1 ∧ s.KeepsNext openMp4 i

theorem Single.upholds (h : s.Single) (hg : s.Good openMp4 segs) :
    s.Upholds openMp4 i ↔ s.Alone i := by
  constructor
  · rintro ⟨-, hone, -⟩ rfl hd
    obtain ⟨seg, hseg⟩ := Option.isSome_iff_exists.1 hd
    simp only [Streaming.next, Streaming.drivePrefetch, hseg, List.length_append,
      List.length_singleton] at hone
    exact List.eq_nil_of_length_eq_zero (by omega)
  · intro ha
    refine ⟨(hg.next i).follows.inOrder, (h.next ha).tasks, fun n a t b _ ht hlt _ => ?_⟩
    have hle := h.since t (List.mem_of_getElem? ht)
    omega

end Streaming

/-- A stream of segments that has been opened. -/
def SegStream.new (init : List UInt8) (segs : List Seg) (startsUs : List Int) (num den : Int) :
    SegStream :=
  { init, segs, startsUs, num, den }

/-- In a run of a stream each step does as it should if and only if no task is started while
    another one runs. -/
theorem streams_segments (openMp4 : List UInt8 → Except String (List Packet))
    (init : List UInt8) (segs : List Seg) (startsUs : List Int) (num den : Int)
    (is : List SegStep) :
    Goes (Streaming.next openMp4) (Streaming.Upholds openMp4)
        { stream := .new init segs startsUs num den } is ↔
      Goes (Streaming.next openMp4) Streaming.Alone
        { stream := .new init segs startsUs num den } is := by
  suffices hs : ∀ s : Streaming, s.Good openMp4 segs → s.Single →
      (Goes (Streaming.next openMp4) (Streaming.Upholds openMp4) s is ↔
        Goes (Streaming.next openMp4) Streaming.Alone s is) from
    hs _ ⟨⟨rfl, nofun, [], rfl, nofun, rfl⟩, nofun, nofun⟩ ⟨Nat.zero_le _, nofun, Nat.zero_le _⟩
  induction is with
  | nil => exact fun _ _ _ => Iff.rfl
  | cons i is ih =>
    intro s hg h
    rw [Goes, Goes, h.upholds hg]
    exact and_congr_right fun ha => ih _ (hg.next i) (h.next ha)

/-- A demuxer of segments whose bytes are the data of one packet each. -/
def onePacketEach (bytes : List UInt8) : Except String (List Packet) :=
  .ok [{ pts := some 0, data := bytes }]

/-- The first segment is fetched ahead, the stream goes to the second one before it has come,
    and the second one is fetched ahead too: then two tasks run, and the first one that ends
    late takes the second segment out of the slot. -/
theorem late_task_after_seek :
    ¬ Goes (Streaming.next onePacketEach) (Streaming.Upholds onePacketEach)
        { stream := .new [] [⟨"0", none⟩, ⟨"1", none⟩] [0, 10] 1 1 }
        [.drivePrefetch, .seek 10, .drivePrefetch,
          .complete 1 (.response ⟨200, "", none, none, .ok [1]⟩),
          .complete 0 (.response ⟨200, "", none, none, .ok [0]⟩)] := by
  intro h
  exact absurd h.2.2.1.2.1 (by decide)

end Wandr.Media
