import Wandr.Call.Video

/-!
# Frames over a lossy channel

The sender numbers its packets one after the other: the fragments of its frames, and
packets of error correction or padding anywhere among them. Some packets are lost, the
others arrive in order.

A *gap* is there at a packet when some packet before it arrived, and the last one did not.
The receiver sees the gap (`contiguous_eq`), unless a packet of error correction is the
first one after it, which is passed over.

* `VideoStream.reassembles`: the frames received are the ones that arrived whole, packets
  between their fragments included; by the time a later frame is out, the flag is up for
  the fragments lost before it;
* `VideoStream.lost_fec_drops` is a frame dropped though all its fragments arrived.
-/

namespace Wandr

/-- A packet sent, and whether it arrives. -/
structure SentPacket where
  packet : Packet
  delivered : Bool

namespace Packet

/-- A packet of error correction: of type RED, with no VP8 payload. -/
def isFec (p : Packet) : Bool :=
  p.payloadType = videoRedPayloadType && (p.effectivePayload vp8PayloadType).isNone

section

variable (depacketize : List UInt8 → Option Vp8Packet)

/-- The fragment in a packet. -/
def fragment (p : Packet) : Option Vp8Packet :=
  (p.effectivePayload vp8PayloadType).bind depacketize

/-- A packet of padding: the depacketizer takes its VP8 payload for no fragment. -/
def isPadding (p : Packet) : Bool :=
  (p.effectivePayload vp8PayloadType).isSome && (p.fragment depacketize).isNone

/-- A packet between fragments. -/
def isFiller (p : Packet) : Bool :=
  p.isFec || p.isPadding depacketize

/-- The packet has a fragment of the frame of time `ts`, the first or the last one or not. -/
structure Bears (p : Packet) (ts : UInt32) (first last : Bool) (data : List UInt8) : Prop where
  timestamp : p.timestamp = ts
  marker : p.marker = last
  fragment : ∃ f, p.fragment depacketize = some f ∧ (f.s = 1 ∧ f.pid = 0 ↔ first = true) ∧
    f.payload = data

end

end Packet

/-- The packets are those of a frame, or of the rest of it unless `first`, from the next
    fragment to the last. -/
inductive Fragmented (depacketize : List UInt8 → Option Vp8Packet) (ts : UInt32) :
    Bool → List SentPacket → List UInt8 → Prop
  | last {first : Bool} {s : SentPacket} {data : List UInt8} :
      s.packet.Bears depacketize ts first true data → Fragmented depacketize ts first [s] data
  | fragment {first : Bool} {s : SentPacket} {l : List SentPacket} {data rest : List UInt8} :
      s.packet.Bears depacketize ts first false data → Fragmented depacketize ts false l rest →
      Fragmented depacketize ts first (s :: l) (data ++ rest)
  | filler {s : SentPacket} {l : List SentPacket} {rest : List UInt8} :
      s.packet.isFiller depacketize → Fragmented depacketize ts false l rest →
      Fragmented depacketize ts false (s :: l) rest

/-- A frame sent: the packets between the frame before and its first fragment, and its
    packets from there to its last fragment. -/
structure SentFrame (depacketize : List UInt8 → Option Vp8Packet) where
  timestamp : UInt32
  data : List UInt8
  lead : List SentPacket
  body : List SentPacket
  fillers : ∀ s ∈ lead, s.packet.isFiller depacketize
  fragmented : Fragmented depacketize timestamp true body data

/-- The packet arrived, and is none of padding. -/
def SentPacket.sound (depacketize : List UInt8 → Option Vp8Packet) (s : SentPacket) : Bool :=
  s.delivered && !s.packet.isPadding depacketize

/-- The packet has a fragment, and is lost. -/
def SentPacket.missed (depacketize : List UInt8 → Option Vp8Packet) (s : SentPacket) : Bool :=
  !s.delivered && (s.packet.fragment depacketize).isSome

/-- Some packet arrived. -/
def heard (l : List SentPacket) : Bool :=
  l.any (·.delivered)

/-- Some packet arrived, and the last one did not. -/
def gap (l : List SentPacket) : Bool :=
  heard l && l.getLast?.any (!·.delivered)

/-- What the channel does to the packets sent: they have one source and numbers one after the
    other, and fewer than 65536 in a row are lost. -/
structure Channel (ssrc : UInt32) (l : List SentPacket) : Prop where
  ssrc : ∀ s ∈ l, s.packet.ssrc = ssrc
  numbered : l.IsChain fun s t => t.packet.sequenceNumber = s.packet.sequenceNumber + 1
  short : ∀ r, r <:+: l → (∀ s ∈ r, s.delivered = false) → r.length < 65536

/-- No packet of error correction hides a gap. -/
def Unmasked (l : List SentPacket) : Prop :=
  ∀ a s b, l = a ++ s :: b → s.delivered → s.packet.isFec → gap a = false

namespace SentFrame

variable {depacketize : List UInt8 → Option Vp8Packet}

/-- The packets of a frame, and those before them. -/
def packets (f : SentFrame depacketize) : List SentPacket :=
  f.lead ++ f.body

/-- The frame arrived whole: all packets from its first to its last fragment did, and none of
    them is padding. -/
def whole (f : SentFrame depacketize) : Bool :=
  f.body.all (·.sound depacketize)

/-- A fragment of the frame is lost. -/
def lacks (f : SentFrame depacketize) : Bool :=
  f.body.any (·.missed depacketize)

end SentFrame

namespace VideoStream

variable {depacketize : List UInt8 → Option Vp8Packet}

section

variable (depacketize)

/-- Take in what arrives of a packet. -/
def hear (v : VideoStream) (s : SentPacket) : VideoStream :=
  if s.delivered then v.handleRtp depacketize s.packet else v

/-- Take in what arrives of the packets. -/
def receive (v : VideoStream) (l : List SentPacket) : VideoStream :=
  l.foldl (hear depacketize) v

end

/-! ## Gaps -/

variable {a b l : List SentPacket} {s : SentPacket} {ssrc : UInt32} {v : VideoStream}

/-- The number of the last packet that arrived. -/
def lastSeq (l : List SentPacket) : Option UInt16 :=
  (l.filter (·.delivered)).getLast?.map (·.packet.sequenceNumber)

theorem heard_concat : heard (a ++ [s]) = (heard a || s.delivered) := by
  simp [heard]

theorem gap_concat : gap (a ++ [s]) = (heard a && !s.delivered) := by
  rw [gap, heard_concat, List.getLast?_concat, Option.any_some]
  cases s.delivered <;> simp

theorem lastSeq_concat (hs : s.delivered = true) :
    lastSeq (a ++ [s]) = some s.packet.sequenceNumber := by
  simp [lastSeq, hs]

theorem lastSeq_lost (hs : s.delivered = false) : lastSeq (a ++ [s]) = lastSeq a := by
  simp [lastSeq, hs]

/-- Either nothing arrived, or there is a last packet that did. -/
theorem exists_last (a : List SentPacket) : (∀ s ∈ a, s.delivered = false) ∨
    ∃ c d r, a = c ++ d :: r ∧ d.delivered = true ∧ ∀ s ∈ r, s.delivered = false := by
  induction a using List.reverseRecOn with
  | nil => exact .inl (by simp)
  | append_singleton a s ih =>
    cases hs : s.delivered with
    | true => exact .inr ⟨a, s, [], rfl, hs, by simp⟩
    | false =>
      obtain h | ⟨c, d, r, rfl, hd, hr⟩ := ih
      · exact .inl (by simpa [or_imp, forall_and, hs] using h)
      · exact .inr ⟨c, d, r ++ [s], by simp, hd, by simpa [or_imp, forall_and, hs] using hr⟩

/-- The numbers go up by one with each packet. -/
theorem sequenceNumber_of_chain {d : SentPacket} {r : List SentPacket}
    (h : (d :: r ++ [s]).IsChain fun s t =>
      t.packet.sequenceNumber = s.packet.sequenceNumber + 1) :
    s.packet.sequenceNumber = d.packet.sequenceNumber + 1 + UInt16.ofNat r.length := by
  induction r generalizing d with
  | nil => simpa using h
  | cons t r ih =>
    have ht := (List.isChain_cons_cons.1 h).1
    rw [ih (List.isChain_cons_cons.1 h).2, ht, List.length_cons, UInt16.ofNat_add]
    grind

/-- The receiver takes a packet for the one after the last exactly when there is no gap. -/
theorem contiguous_eq (hv : v.prevSeq = lastSeq a) (h : Channel ssrc (a ++ s :: b)) :
    v.contiguous s.packet = !gap a := by
  obtain ha | ⟨c, d, r, rfl, hd, hr⟩ := exists_last a
  · have hf : a.filter (·.delivered) = [] := by simpa using ha
    have hg : gap a = false := by simpa [gap, heard] using fun s hs h => by simp [ha s hs] at h
    simp [contiguous, hv, lastSeq, hf, hg]
  · have hf : r.filter (·.delivered) = [] := by simpa using hr
    have hlast : lastSeq (c ++ d :: r) = some d.packet.sequenceNumber := by
      simp [lastSeq, List.filter_append, hd, hf]
    have hchain : (c ++ ((d :: r ++ [s]) ++ b)).IsChain fun s t =>
        t.packet.sequenceNumber = s.packet.sequenceNumber + 1 := by
      simpa using h.numbered
    have hseq := sequenceNumber_of_chain hchain.right_of_append.left_of_append
    have hlen := h.short r (by simpa using List.infix_append (c ++ [d]) r (s :: b)) hr
    have hgap : gap (c ++ d :: r) = decide (r ≠ []) := by
      obtain rfl | ⟨r, t, rfl⟩ := r.eq_nil_or_concat'
      · simp [gap, hd]
      · rw [← List.cons_append, ← List.append_assoc, gap_concat, hr t (by simp)]
        simp [heard, hd]
    have hzero : UInt16.ofNat r.length = 0 ↔ r = [] := by
      rw [← UInt16.toNat_inj, UInt16.toNat_ofNat_of_lt' hlen]
      simp
    have hiff : s.packet.sequenceNumber = d.packet.sequenceNumber + 1 ↔ r = [] := by
      rw [hseq, ← hzero]
      grind
    rw [contiguous, hv, hlast, Option.all_some, hgap]
    by_cases hr : r = [] <;> simp [hiff, hr]

/-! ## What a packet does -/

variable {f : Vp8Packet} {p : Packet}

/-- The receiver in the middle of the packets of a channel, after `a` and before `b`. -/
structure Receiving (ssrc : UInt32) (v : VideoStream) (a b : List SentPacket) : Prop where
  channel : Channel ssrc (a ++ b)
  unmasked : Unmasked (a ++ b)
  pt : v.pt = vp8PayloadType
  rxSsrc : v.rxSsrc = none ∨ v.rxSsrc = some ssrc
  prevSeq : v.prevSeq = lastSeq a
  idle : heard a = false → v.assembling = false

section

variable (depacketize)

/-- A packet of the sender: a fragment, or one between fragments. -/
def Known (s : SentPacket) : Prop :=
  s.packet.isFiller depacketize ∨ (s.packet.fragment depacketize).isSome

end

theorem hear_lost (hs : s.delivered = false) : v.hear depacketize s = v := by
  simp [hear, hs]

/-- What a packet of error correction does: next to nothing. -/
theorem hear_fec (depacketize : List UInt8 → Option Vp8Packet)
    (h : Receiving ssrc v a (s :: b)) (hs : s.delivered = true)
    (hf : s.packet.isFec = true) :
    gap a = false ∧ v.hear depacketize s =
      { v with
        rxSsrc := some ssrc
        rxPackets := v.rxPackets + 1
        prevSeq := some s.packet.sequenceNumber } := by
  refine ⟨h.unmasked a s b rfl hs hf, ?_⟩
  have hssrc := h.channel.ssrc s (by simp)
  simp only [Packet.isFec, Bool.and_eq_true, decide_eq_true_eq, Option.isNone_iff_eq_none] at hf
  have hrtx : s.packet.payloadType ≠ vp8RtxPayloadType := by rw [hf.1]; decide
  rw [hear, if_pos hs, handleRtp, if_neg hrtx, h.pt, hf.2]
  simp only [if_pos hf.1, passOver, hssrc]
  rcases h.rxSsrc with hn | hn <;> simp [hn, h.pt]

/-- What a packet with a VP8 payload does. -/
theorem hear_vp8 (h : Receiving ssrc v a (s :: b)) (hs : s.delivered = true)
    {payload : List UInt8} (hp : s.packet.effectivePayload vp8PayloadType = some payload) :
    v.hear depacketize s =
      match depacketize payload with
      | none => (v.count s.packet).dropCurrent true
      | some f => (v.count s.packet).assemble s.packet (!gap a) f := by
  have hssrc := h.channel.ssrc s (by simp)
  have hrtx : s.packet.payloadType ≠ vp8RtxPayloadType := by
    intro hrtx
    simp [Packet.effectivePayload, hrtx, vp8PayloadType, vp8RtxPayloadType,
      videoRedPayloadType] at hp
  have hany : ¬ v.rxSsrc.any (· ≠ s.packet.ssrc) = true := by
    rcases h.rxSsrc with hn | hn <;> simp [hn, hssrc]
  rw [hear, if_pos hs, handleRtp, if_neg hrtx, h.pt, hp]
  dsimp only
  have hc := contiguous_eq h.prevSeq h.channel
  rw [handleVp8, if_neg hany]
  cases depacketize payload with
  | none => rfl
  | some f => exact congrArg ((v.count s.packet).assemble s.packet · f) hc

theorem hear_padding (h : Receiving ssrc v a (s :: b)) (hs : s.delivered = true)
    (hp : s.packet.isPadding depacketize = true) :
    v.hear depacketize s = (v.count s.packet).dropCurrent true := by
  simp only [Packet.isPadding, Packet.fragment, Bool.and_eq_true, Option.isSome_iff_exists,
    Option.isNone_iff_eq_none] at hp
  obtain ⟨⟨payload, hp⟩, hn⟩ := hp
  rw [hp, Option.bind_some] at hn
  rw [hear_vp8 h hs hp, hn]

theorem hear_fragment (h : Receiving ssrc v a (s :: b)) (hs : s.delivered = true)
    (hf : s.packet.fragment depacketize = some f) :
    v.hear depacketize s = (v.count s.packet).assemble s.packet (!gap a) f := by
  rw [Packet.fragment, Option.bind_eq_some_iff] at hf
  obtain ⟨payload, hp, hf⟩ := hf
  rw [hear_vp8 h hs hp, hf]

/-- The receiver keeps track of the channel. -/
theorem Receiving.hear (h : Receiving ssrc v a (s :: b)) (hk : Known depacketize s) :
    Receiving ssrc (v.hear depacketize s) (a ++ [s]) b := by
  have hc : Channel ssrc (a ++ [s] ++ b) := by simpa using h.channel
  have hu : Unmasked (a ++ [s] ++ b) := by simpa using h.unmasked
  cases hs : s.delivered with
  | false =>
    rw [hear_lost hs]
    refine ⟨hc, hu, h.pt, h.rxSsrc, (lastSeq_lost hs).symm ▸ h.prevSeq, fun hh => h.idle ?_⟩
    rwa [heard_concat, hs, Bool.or_false] at hh
  | true =>
    have hh : heard (a ++ [s]) ≠ false := by simp [heard_concat, hs]
    have hssrc := h.channel.ssrc s (by simp)
    rw [Known, Packet.isFiller, Bool.or_eq_true, or_assoc] at hk
    rcases hk with hf | hp | hf
    · rw [(hear_fec depacketize h hs hf).2]
      exact ⟨hc, hu, h.pt, .inr rfl, (lastSeq_concat hs).symm, fun hn => absurd hn hh⟩
    · rw [hear_padding h hs hp]
      exact ⟨hc, hu, h.pt, .inr (congrArg some hssrc), (lastSeq_concat hs).symm,
        fun hn => absurd hn hh⟩
    · obtain ⟨f, hf⟩ := Option.isSome_iff_exists.1 hf
      rw [hear_fragment h hs hf]
      obtain ⟨h₁, h₂, h₃⟩ := assemble_tracks (v := v.count s.packet) (p := s.packet)
        (c := !gap a) (f := f)
      exact ⟨hc, hu, h₁.trans h.pt, .inr (h₂.trans (congrArg some hssrc)),
        h₃.trans (lastSeq_concat hs).symm, fun hn => absurd hn hh⟩

theorem Receiving.receive {l : List SentPacket} (h : Receiving ssrc v a (l ++ b))
    (hk : ∀ s ∈ l, Known depacketize s) :
    Receiving ssrc (v.receive depacketize l) (a ++ l) b := by
  induction l generalizing v a with
  | nil => simpa [VideoStream.receive] using h
  | cons s l ih =>
    have hs := ih (h.hear (hk s (by simp))) fun t ht => hk t (by simp [ht])
    simpa [VideoStream.receive] using hs

/-! ## A frame at a time -/

/-- What the receiver has of a frame is `d`, and nothing is missing. -/
structure Joining (v : VideoStream) (a : List SentPacket) (ts : UInt32) (d : List UInt8) :
    Prop where
  noGap : gap a = false
  assembling : v.assembling = true
  broken : v.broken = false
  curTs : v.curTs = ts
  cur : v.cur = d

/-- The current frame is not to come out. -/
def Doomed (v : VideoStream) (a : List SentPacket) : Prop :=
  v.assembling = true → v.broken = true ∨ gap a = true

/-- The flag for a loss is up, or to come up before the next frame is out. -/
def Owing (v : VideoStream) (a : List SentPacket) : Prop :=
  v.loss = true ∨ gap a = true ∨ v.assembling = true ∧ v.broken = true

/-- The frames handed out, with their times. -/
def frames (v : VideoStream) : List (UInt32 × List UInt8) :=
  v.framesOut.map fun f => (f.timestamp, f.data)

variable {ts : UInt32} {d data : List UInt8}

/-- Losing a packet dooms the frame. -/
theorem Receiving.doomed_lost (h : Receiving ssrc v a (s :: b)) (hs : s.delivered = false) :
    Doomed v (a ++ [s]) := by
  intro ha
  cases hh : heard a with
  | false => rw [h.idle hh] at ha; exact absurd ha (by simp)
  | true => exact .inr (by simp [gap_concat, hh, hs])

/-- A packet between fragments brings no frame out, and does not save a frame. -/
theorem Receiving.filler (h : Receiving ssrc v a (s :: b))
    (hk : s.packet.isFiller depacketize = true) :
    (v.hear depacketize s).frames = v.frames ∧
      (Doomed v a → Doomed (v.hear depacketize s) (a ++ [s])) := by
  cases hs : s.delivered with
  | false =>
    rw [hear_lost hs]
    exact ⟨rfl, fun _ => h.doomed_lost hs⟩
  | true =>
    rw [Packet.isFiller, Bool.or_eq_true] at hk
    rcases hk with hf | hp
    · obtain ⟨hg, he⟩ := hear_fec depacketize h hs hf
      rw [he]
      exact ⟨rfl, fun hd ha => .inl ((hd ha).resolve_right (by simp [hg]))⟩
    · rw [hear_padding h hs hp]
      exact ⟨rfl, fun _ => nofun⟩

/-- A packet of error correction leaves the frame as it is. -/
theorem Joining.fec (hj : Joining v a ts d) (h : Receiving ssrc v a (s :: b))
    (hs : s.delivered = true) (hf : s.packet.isFec = true) :
    Joining (v.hear depacketize s) (a ++ [s]) ts d := by
  rw [(hear_fec depacketize h hs hf).2]
  exact ⟨by simp [gap_concat, hs], hj.assembling, hj.broken, hj.curTs, hj.cur⟩

theorem extend_middle (hm : p.marker = false) :
    v.extend p d = { v with cur := v.cur ++ d } := by
  simp [extend, hm]

theorem extend_broken (hm : p.marker = true) (hb : v.broken = true) :
    v.extend p d = { v with cur := v.cur ++ d }.dropCurrent true := by
  simp [extend, hm, hb]

theorem extend_last (hm : p.marker = true) (hb : v.broken = false) :
    (v.extend p d).frames = v.frames ++ [(v.curTs, v.cur ++ d)] ∧
      (v.extend p d).assembling = false := by
  simp [extend, hm, hb, frames]

theorem frames_startFrame (p : Packet) (c : Bool) : (v.startFrame p c).frames = v.frames := by
  cases ha : v.assembling <;> simp [startFrame, ha, frames, dropCurrent]

/-- A frame with no gap goes on. -/
theorem Joining.continueFrame (hj : Joining v a ts d) (hp : p.timestamp = ts) :
    (v.count p).continueFrame p (!gap a) = v.count p := by
  have hts : p.timestamp = (v.count p).curTs := hp.trans hj.curTs.symm
  simp [VideoStream.continueFrame, hj.noGap, hts]

/-- The first fragment starts a frame. -/
theorem Receiving.first (h : Receiving ssrc v a (s :: b)) (hs : s.delivered = true)
    (hb : s.packet.Bears depacketize ts true false data) :
    (v.hear depacketize s).frames = v.frames ∧
      Joining (v.hear depacketize s) (a ++ [s]) ts data := by
  obtain ⟨f, hf, hfirst, rfl⟩ := hb.fragment
  rw [hear_fragment h hs hf, assemble, if_pos (hfirst.2 rfl), extend_middle hb.marker]
  exact ⟨frames_startFrame s.packet (!gap a), by simp [gap_concat, hs], rfl, rfl, hb.timestamp, rfl⟩

/-- A frame of one fragment comes out at once. -/
theorem Receiving.only (h : Receiving ssrc v a (s :: b)) (hs : s.delivered = true)
    (hb : s.packet.Bears depacketize ts true true data) :
    (v.hear depacketize s).frames = v.frames ++ [(ts, data)] ∧
      (v.hear depacketize s).assembling = false := by
  obtain ⟨f, hf, hfirst, rfl⟩ := hb.fragment
  rw [hear_fragment h hs hf, assemble, if_pos (hfirst.2 rfl), ← hb.timestamp]
  obtain ⟨hout, ha⟩ := extend_last (d := f.payload) (p := s.packet)
    (v := (v.count s.packet).startFrame s.packet (!gap a)) hb.marker rfl
  exact ⟨hout.trans (by rw [frames_startFrame]; rfl), ha⟩

/-- Any other fragment is joined to those before it. -/
theorem Joining.middle (hj : Joining v a ts d) (h : Receiving ssrc v a (s :: b))
    (hs : s.delivered = true) (hb : s.packet.Bears depacketize ts false false data) :
    (v.hear depacketize s).frames = v.frames ∧
      Joining (v.hear depacketize s) (a ++ [s]) ts (d ++ data) := by
  obtain ⟨f, hf, hfirst, rfl⟩ := hb.fragment
  have ha : ¬ (!(v.count s.packet).assembling) = true := by simp [count, hj.assembling]
  rw [hear_fragment h hs hf, assemble, if_neg (by simpa using hfirst), if_neg ha,
    hj.continueFrame hb.timestamp, extend_middle hb.marker]
  exact ⟨rfl, by simp [gap_concat, hs], hj.assembling, hj.broken, hj.curTs, by rw [← hj.cur]; rfl⟩

/-- The last fragment brings the frame out. -/
theorem Joining.last (hj : Joining v a ts d) (h : Receiving ssrc v a (s :: b))
    (hs : s.delivered = true) (hb : s.packet.Bears depacketize ts false true data) :
    (v.hear depacketize s).frames = v.frames ++ [(ts, d ++ data)] ∧
      (v.hear depacketize s).assembling = false := by
  obtain ⟨f, hf, hfirst, rfl⟩ := hb.fragment
  have ha : ¬ (!(v.count s.packet).assembling) = true := by simp [count, hj.assembling]
  rw [hear_fragment h hs hf, assemble, if_neg (by simpa using hfirst), if_neg ha,
    hj.continueFrame hb.timestamp, ← hj.cur, ← hj.curTs]
  exact extend_last (v := v.count s.packet) hb.marker hj.broken

theorem frames_continueFrame (p : Packet) (c : Bool) :
    (v.continueFrame p c).frames = v.frames := by
  rw [continueFrame]
  split_ifs <;> rfl

/-- A frame goes on broken, once it is or there is a gap. -/
theorem continueFrame_broken {c : Bool} (h : v.broken = true ∨ c = false) :
    (v.continueFrame p c).broken = true := by
  rw [continueFrame]
  split_ifs with hc
  · rfl
  · exact h.resolve_right fun hf => hc (.inl (by simp [hf]))

theorem continueFrame_assembling (p : Packet) (c : Bool) :
    (v.continueFrame p c).assembling = v.assembling := by
  rw [continueFrame]
  split_ifs <;> rfl

/-- No fragment but a first one saves a frame, and the last one raises the flag. -/
theorem Receiving.doomed {last : Bool} (h : Receiving ssrc v a (s :: b)) (hd : Doomed v a)
    (hb : s.packet.Bears depacketize ts false last data) :
    (v.hear depacketize s).frames = v.frames ∧
      (last = false → Doomed (v.hear depacketize s) (a ++ [s])) ∧
      (last = true → s.delivered = true → (v.hear depacketize s).loss = true) := by
  cases hs : s.delivered with
  | false =>
    rw [hear_lost hs]
    exact ⟨rfl, fun _ => h.doomed_lost hs, fun _ hn => absurd hn Bool.false_ne_true⟩
  | true =>
    obtain ⟨f, hf, hfirst, rfl⟩ := hb.fragment
    rw [hear_fragment h hs hf, assemble, if_neg (by simpa using hfirst)]
    split_ifs with ha
    · exact ⟨rfl, fun _ hn => absurd hn (by simpa using ha), fun _ _ => rfl⟩
    · have hbroken : ((v.count s.packet).continueFrame s.packet (!gap a)).broken = true :=
        continueFrame_broken ((hd (by simpa [count] using ha)).imp_right fun hg => by simp [hg])
      have hframes := frames_continueFrame (v := v.count s.packet) s.packet (!gap a)
      cases last with
      | false =>
        rw [extend_middle hb.marker]
        exact ⟨hframes, fun _ _ => .inl hbroken, fun hn => absurd hn Bool.false_ne_true⟩
      | true =>
        rw [extend_broken hb.marker hbroken]
        exact ⟨hframes, fun hn => absurd hn.symm Bool.false_ne_true, fun _ _ => rfl⟩

/-- The flag stays up. -/
theorem extend_loss (h : v.loss = true) : (v.extend p d).loss = true := by
  rw [extend]
  split_ifs <;> first | rfl | exact h

/-- A broken frame raises the flag when it ends. -/
theorem extend_owing (ha : v.assembling = true) (hb : v.broken = true) :
    (v.extend p d).loss = true ∨
      (v.extend p d).assembling = true ∧ (v.extend p d).broken = true := by
  cases hm : p.marker with
  | true => exact .inl (by rw [extend_broken hm hb]; rfl)
  | false => exact .inr (by rw [extend_middle hm]; exact ⟨ha, hb⟩)

theorem startFrame_loss {c : Bool}
    (h : v.loss = true ∨ c = false ∨ v.assembling = true ∧ v.broken = true) :
    (v.startFrame p c).loss = true := by
  cases ha : v.assembling
  · simpa [startFrame, ha] using h
  · simp [startFrame, ha, dropCurrent]

theorem continueFrame_loss {c : Bool} (h : v.loss = true) :
    (v.continueFrame p c).loss = true := by
  rw [continueFrame]
  split_ifs <;> exact h

/-- What is owed stays owed, up to the flag. -/
theorem Receiving.owing (h : Receiving ssrc v a (s :: b)) (hk : Known depacketize s)
    (ho : Owing v a) : Owing (v.hear depacketize s) (a ++ [s]) := by
  cases hs : s.delivered with
  | false =>
    rw [hear_lost hs]
    refine ho.imp_right fun ho => ho.imp_left fun hg => ?_
    rw [gap, Bool.and_eq_true] at hg
    simp [gap_concat, hs, hg.1]
  | true =>
    rw [Known, Packet.isFiller, Bool.or_eq_true, or_assoc] at hk
    rcases hk with hf | hp | hf
    · obtain ⟨hg, he⟩ := hear_fec depacketize h hs hf
      rw [he]
      exact ho.imp_right fun ho => .inr (ho.resolve_left (by simp [hg]))
    · rw [hear_padding h hs hp]
      exact .inl rfl
    · obtain ⟨f, hf⟩ := Option.isSome_iff_exists.1 hf
      rw [hear_fragment h hs hf, assemble]
      split_ifs with hstart ha
      · refine .inl (extend_loss (startFrame_loss ?_))
        simpa [count, Owing] using ho
      · exact .inl rfl
      · rcases ho with hl | ho
        · exact .inl (extend_loss (continueFrame_loss hl))
        · refine (extend_owing ?_ (continueFrame_broken ?_)).imp_right .inr
          · rw [continueFrame_assembling]
            simpa using ha
          · simpa [count, or_comm] using ho.imp_right And.right

/-! ## Frames one after the other -/

theorem receive_cons (v : VideoStream) (s : SentPacket) (l : List SentPacket) :
    v.receive depacketize (s :: l) = (v.hear depacketize s).receive depacketize l := rfl

theorem receive_append (v : VideoStream) (l r : List SentPacket) :
    v.receive depacketize (l ++ r) = (v.receive depacketize l).receive depacketize r :=
  List.foldl_append

section

variable {first last : Bool}

theorem known_of_bears (hb : s.packet.Bears depacketize ts first last data) :
    Known depacketize s := by
  obtain ⟨f, hf, _⟩ := hb.fragment
  exact .inr (by simp [hf])

theorem sound_of_bears (hb : s.packet.Bears depacketize ts first last data) :
    s.sound depacketize = s.delivered := by
  obtain ⟨f, hf, _⟩ := hb.fragment
  simp [SentPacket.sound, Packet.isPadding, hf]

theorem known_of_fragmented (h : Fragmented depacketize ts first l data) :
    ∀ s ∈ l, Known depacketize s := by
  induction h with
  | last hb => simpa using known_of_bears hb
  | fragment hb _ ih => simpa using ⟨known_of_bears hb, ih⟩
  | filler hk _ ih => simpa using ⟨.inl hk, ih⟩

/-- No frame comes out of a doomed one. -/
theorem receive_doomed (hf : Fragmented depacketize ts first l data) (hfirst : first = false)
    (h : Receiving ssrc v a (l ++ b)) (hd : Doomed v a) :
    (v.receive depacketize l).frames = v.frames := by
  induction hf generalizing v a with
  | last hb =>
    subst hfirst
    exact (h.doomed hd hb).1
  | fragment hb _ ih =>
    subst hfirst
    obtain ⟨hframes, hd, -⟩ := h.doomed hd hb
    rw [receive_cons, ih rfl (h.hear (known_of_bears hb)) (hd rfl), hframes]
  | filler hk _ ih =>
    obtain ⟨hframes, hd'⟩ := h.filler hk
    rw [receive_cons, ih rfl (h.hear (.inl hk)) (hd' hd), hframes]

/-- A frame under way comes out exactly when the rest of it arrives. -/
theorem receive_joining (hf : Fragmented depacketize ts first l data) (hfirst : first = false)
    (h : Receiving ssrc v a (l ++ b)) (hj : Joining v a ts d) :
    (v.receive depacketize l).frames =
        v.frames ++ (if l.all (·.sound depacketize) then [(ts, d ++ data)] else []) ∧
      (l.all (·.sound depacketize) → (v.receive depacketize l).assembling = false) := by
  induction hf generalizing v a d with
  | @last _ s _ hb =>
    subst hfirst
    cases hs : s.delivered with
    | false => simp [receive, hear_lost hs, sound_of_bears hb, hs]
    | true =>
      obtain ⟨hframes, ha⟩ := hj.last h hs hb
      simp [receive, hframes, ha, sound_of_bears hb, hs]
  | @fragment _ s _ _ _ hb hr ih =>
    subst hfirst
    have hn := h.hear (known_of_bears hb)
    cases hs : s.delivered with
    | false =>
      rw [receive_cons, receive_doomed hr rfl hn (hear_lost hs ▸ h.doomed_lost hs), hear_lost hs]
      simp [sound_of_bears hb, hs]
    | true =>
      obtain ⟨hframes, hj⟩ := hj.middle h hs hb
      have := ih rfl hn hj
      simpa [receive_cons, hframes, sound_of_bears hb, hs] using this
  | @filler s _ _ hk hr ih =>
    have hn : Receiving ssrc (v.hear depacketize s) _ _ := h.hear (.inl hk)
    obtain ⟨hframes, -⟩ := h.filler hk
    cases hs : s.sound depacketize with
    | false =>
      have hd : Doomed (v.hear depacketize s) (a ++ [s]) := by
        cases hs' : s.delivered with
        | false => exact hear_lost hs' ▸ h.doomed_lost hs'
        | true =>
          rw [hear_padding h hs' (by simpa [SentPacket.sound, hs'] using hs)]
          exact nofun
      rw [receive_cons, receive_doomed hr rfl hn hd, hframes]
      simp [hs]
    | true =>
      simp only [SentPacket.sound, Bool.and_eq_true, Bool.not_eq_true'] at hs
      have hfec : s.packet.isFec = true := by simpa [Packet.isFiller, hs.2] using hk
      have := ih rfl hn (hj.fec h hs.1 hfec)
      simpa [receive_cons, hframes, SentPacket.sound, hs] using this

/-- A frame comes out exactly when all of it arrives. -/
theorem receive_frame (hf : Fragmented depacketize ts true l data)
    (h : Receiving ssrc v a (l ++ b)) :
    (v.receive depacketize l).frames =
        v.frames ++ (if l.all (·.sound depacketize) then [(ts, data)] else []) ∧
      (l.all (·.sound depacketize) → (v.receive depacketize l).assembling = false) := by
  cases hf with
  | @last _ s _ hb =>
    cases hs : s.delivered with
    | false => simp [receive, hear_lost hs, sound_of_bears hb, hs]
    | true =>
      obtain ⟨hframes, ha⟩ := h.only hs hb
      simp [receive, hframes, ha, sound_of_bears hb, hs]
  | @fragment _ s _ _ _ hb hr =>
    have hn := h.hear (known_of_bears hb)
    cases hs : s.delivered with
    | false =>
      rw [receive_cons, receive_doomed hr rfl hn (hear_lost hs ▸ h.doomed_lost hs), hear_lost hs]
      simp [sound_of_bears hb, hs]
    | true =>
      obtain ⟨hframes, hj⟩ := h.first hs hb
      have := receive_joining hr rfl hn hj
      simpa [receive_cons, hframes, sound_of_bears hb, hs] using this

/-- A frame stays doomed up to its last fragment, and losing a packet dooms it. -/
theorem Receiving.doomed_next (h : Receiving ssrc v a (s :: b))
    (hs : s.packet.isFiller depacketize = true ∨
      ∃ ts data, s.packet.Bears depacketize ts first false data)
    (hd : first = false ∧ Doomed v a ∨ s.missed depacketize = true) :
    Doomed (v.hear depacketize s) (a ++ [s]) := by
  rcases hd with ⟨rfl, hd⟩ | hm
  · rcases hs with hk | ⟨ts, data, hb⟩
    · exact (h.filler hk).2 hd
    · exact (h.doomed hd hb).2.1 rfl
  · have hlost : s.delivered = false := by
      simp only [SentPacket.missed, Bool.and_eq_true, Bool.not_eq_true'] at hm
      exact hm.1
    exact hear_lost hlost ▸ h.doomed_lost hlost

theorem receive_doomed_of_missed {u w : List SentPacket}
    (hf : Fragmented depacketize ts first l data) (hl : l = u ++ w) (hw : w ≠ [])
    (h : Receiving ssrc v a (l ++ b))
    (hd : first = false ∧ Doomed v a ∨ u.any (·.missed depacketize) = true) :
    Doomed (v.receive depacketize u) (a ++ u) := by
  induction hf generalizing v a u with
  | last hb =>
    cases u with
    | nil => simpa [receive] using (hd.resolve_right (by simp)).2
    | cons t u => exact absurd (List.append_eq_nil_iff.1 (List.cons.inj hl).2.symm).2 hw
  | @fragment _ s _ _ _ hb _ ih =>
    cases u with
    | nil => simpa [receive] using (hd.resolve_right (by simp)).2
    | cons t u =>
      obtain ⟨rfl, hl'⟩ := List.cons.inj hl
      rw [List.any_cons, Bool.or_eq_true, ← or_assoc] at hd
      rw [receive_cons, List.append_cons]
      exact ih hl' (h.hear (known_of_bears hb))
        (hd.imp_left fun hd => ⟨rfl, h.doomed_next (.inr ⟨_, _, hb⟩) hd⟩)
  | @filler s _ _ hk _ ih =>
    cases u with
    | nil => simpa [receive] using (hd.resolve_right (by simp)).2
    | cons t u =>
      obtain ⟨rfl, hl'⟩ := List.cons.inj hl
      rw [List.any_cons, Bool.or_eq_true, ← or_assoc] at hd
      rw [receive_cons, List.append_cons]
      exact ih hl' (h.hear (.inl hk))
        (hd.imp_left fun hd => ⟨rfl, h.doomed_next (.inl hk) hd⟩)

/-- With a fragment lost, the flag is up or owed after the last fragment. -/
theorem receive_owing_of_missed (hf : Fragmented depacketize ts first l data)
    (h : Receiving ssrc v a (l ++ b)) (hh : heard (a ++ l) = true)
    (hd : first = false ∧ Doomed v a ∨ l.any (·.missed depacketize) = true) :
    Owing (v.receive depacketize l) (a ++ l) := by
  induction hf generalizing v a with
  | @last _ s _ hb =>
    cases hs : s.delivered with
    | false => exact .inr (.inl (by simpa [gap_concat, heard_concat, hs] using hh))
    | true =>
      obtain ⟨rfl, hd'⟩ := hd.resolve_right (by simp [SentPacket.missed, hs])
      exact .inl ((h.doomed hd' hb).2.2 rfl hs)
  | @fragment _ s _ _ _ hb _ ih =>
    rw [List.any_cons, Bool.or_eq_true, ← or_assoc] at hd
    rw [List.append_cons] at hh ⊢
    exact ih (h.hear (known_of_bears hb)) hh
      (hd.imp_left fun hd => ⟨rfl, h.doomed_next (.inr ⟨_, _, hb⟩) hd⟩)
  | @filler s _ _ hk _ ih =>
    rw [List.any_cons, Bool.or_eq_true, ← or_assoc] at hd
    rw [List.append_cons] at hh ⊢
    exact ih (h.hear (.inl hk)) hh
      (hd.imp_left fun hd => ⟨rfl, h.doomed_next (.inl hk) hd⟩)

/-- What is left of a frame is a frame without its first fragment. -/
theorem fragmented_suffix {u w : List SentPacket} (hf : Fragmented depacketize ts first l data)
    (hl : l = u ++ w) (hw : w ≠ []) :
    ∃ rest, Fragmented depacketize ts (first && u.isEmpty) w rest := by
  induction hf generalizing u with
  | @last first s data hb =>
    cases u with
    | nil => exact ⟨data, by rw [← List.nil_append w, ← hl]; simpa using .last hb⟩
    | cons t u => exact absurd (List.append_eq_nil_iff.1 (List.cons.inj hl).2.symm).2 hw
  | @fragment first s l data rest hb hr ih =>
    cases u with
    | nil => exact ⟨data ++ rest, by rw [← List.nil_append w, ← hl]; simpa using .fragment hb hr⟩
    | cons t u => simpa using ih (List.cons.inj hl).2
  | @filler s l rest hk hr ih =>
    cases u with
    | nil => exact ⟨rest, by rw [← List.nil_append w, ← hl]; simpa using .filler hk hr⟩
    | cons t u => simpa using ih (List.cons.inj hl).2

end

theorem receive_fillers (hk : ∀ s ∈ l, s.packet.isFiller depacketize)
    (h : Receiving ssrc v a (l ++ b)) : (v.receive depacketize l).frames = v.frames := by
  induction l generalizing v a with
  | nil => rfl
  | cons s l ih =>
    have hs := hk s (by simp)
    rw [receive_cons, ih (fun t ht => hk t (by simp [ht])) (h.hear (.inl hs)), (h.filler hs).1]

theorem receive_owing (hk : ∀ s ∈ l, Known depacketize s) (h : Receiving ssrc v a (l ++ b))
    (ho : Owing v a) : Owing (v.receive depacketize l) (a ++ l) := by
  induction l generalizing v a with
  | nil => simpa [receive] using ho
  | cons s l ih =>
    have hs := hk s (by simp)
    rw [receive_cons, List.append_cons]
    exact ih (fun t ht => hk t (by simp [ht])) (h.hear hs) (h.owing hs ho)

theorem Receiving.takeLoss (h : Receiving ssrc v a b) : Receiving ssrc v.takeLoss.2 a b :=
  ⟨h.channel, h.unmasked, h.pt, h.rxSsrc, h.prevSeq, h.idle⟩

theorem known_packets (f : SentFrame depacketize) : ∀ s ∈ f.packets, Known depacketize s := by
  intro s hs
  rcases List.mem_append.1 hs with hs | hs
  · exact .inl (f.fillers s hs)
  · exact known_of_fragmented f.fragmented s hs

theorem body_ne_nil (f : SentFrame depacketize) : f.body ≠ [] := by
  intro hn
  have hf := f.fragmented
  rw [hn] at hf
  cases hf

/-- A frame sent comes out exactly when all of it arrives, and then none is under way. -/
theorem receive_packets (f : SentFrame depacketize) (h : Receiving ssrc v a (f.packets ++ b)) :
    (v.receive depacketize f.packets).frames =
        v.frames ++ (if f.whole then [(f.timestamp, f.data)] else []) ∧
      (f.whole → (v.receive depacketize f.packets).assembling = false ∧
        gap (a ++ f.packets) = false) := by
  have h' : Receiving ssrc v a (f.lead ++ (f.body ++ b)) := by
    simpa [SentFrame.packets] using h
  have hn := h'.receive fun s hs => .inl (f.fillers s hs)
  obtain ⟨hframes, ha⟩ := receive_frame f.fragmented hn
  rw [SentFrame.packets, receive_append, hframes, receive_fillers f.fillers h']
  refine ⟨rfl, fun hw => ⟨ha hw, ?_⟩⟩
  obtain ⟨r, s, hr⟩ := (List.eq_nil_or_concat' f.body).resolve_left (body_ne_nil f)
  have hs : s.sound depacketize = true := by
    rw [SentFrame.whole, hr] at hw
    exact List.all_eq_true.1 hw s (by simp)
  rw [SentPacket.sound, Bool.and_eq_true] at hs
  rw [hr, ← List.append_assoc, ← List.append_assoc, gap_concat, hs.1]
  simp

/-- The frames that arrive whole come out, in the order in which they were sent. -/
theorem receive_sent (fs : List (SentFrame depacketize))
    (h : Receiving ssrc v a (fs.flatMap (·.packets) ++ b)) :
    (v.receive depacketize (fs.flatMap (·.packets))).frames =
      v.frames ++ (fs.filter (·.whole)).map fun f => (f.timestamp, f.data) := by
  induction fs generalizing v a with
  | nil => simp [receive]
  | cons f fs ih =>
    have h' : Receiving ssrc v a (f.packets ++ (fs.flatMap (·.packets) ++ b)) := by simpa using h
    rw [List.flatMap_cons, receive_append, ih (h'.receive (known_packets f)),
      (receive_packets f h').1]
    cases hw : f.whole <;> simp [hw]

/-- With a fragment lost, the flag is up or owed after the frame, also when it is taken down
    up to the last fragment. -/
theorem owing_of_lacks {f : SentFrame depacketize} {u w : List SentPacket}
    (h : Receiving ssrc v a (f.packets ++ b)) (hl : f.lacks)
    (hh : heard (a ++ f.packets) = true) (hu : f.body = u ++ w) (hw : w ≠ []) :
    Receiving ssrc ((v.receive depacketize (f.lead ++ u)).takeLoss.2.receive depacketize w)
        (a ++ f.packets) b ∧
      Owing ((v.receive depacketize (f.lead ++ u)).takeLoss.2.receive depacketize w)
        (a ++ f.packets) := by
  have hp : f.packets = f.lead ++ (u ++ w) := by rw [SentFrame.packets, hu]
  have hlead : Receiving ssrc v a (f.lead ++ (f.body ++ b)) := by
    simpa [SentFrame.packets] using h
  have hbody := hlead.receive fun s hs => .inl (f.fillers s hs)
  have hu' : Receiving ssrc (v.receive depacketize f.lead) (a ++ f.lead) (u ++ (w ++ b)) := by
    simpa [hu] using hbody
  have hmid := (hu'.receive fun s hs =>
    known_of_fragmented f.fragmented s (by simp [hu, hs])).takeLoss
  obtain ⟨rest, hrest⟩ := fragmented_suffix f.fragmented hu hw
  rw [receive_append, hp, ← List.append_assoc, ← List.append_assoc]
  refine ⟨hmid.receive fun s hs => known_of_fragmented f.fragmented s (by simp [hu, hs]),
    receive_owing_of_missed hrest hmid (by simpa [hp] using hh) ?_⟩
  rw [SentFrame.lacks, hu, List.any_append, Bool.or_eq_true] at hl
  refine hl.imp_left fun hl => ⟨?_, ?_⟩
  · cases u with
    | nil => simp at hl
    | cons s u => simp
  · exact receive_doomed_of_missed f.fragmented hu hw hbody (.inr hl)

theorem known_flatMap (fs : List (SentFrame depacketize)) :
    ∀ s ∈ fs.flatMap (·.packets), Known depacketize s := by
  intro s hs
  obtain ⟨f, _, hs⟩ := List.mem_flatMap.1 hs
  exact known_packets f s hs

/-- The frames that come out are the ones that arrive whole, in the order in which they were
    sent. By the time a frame is out, the flag is up for any fragment lost of a frame before
    it, also when it is taken down up to the last fragment of that frame, unless nothing
    arrived up to there. -/
theorem reassembles (fs : List (SentFrame depacketize)) (tail : List SentPacket)
    (htail : ∀ s ∈ tail, s.packet.isFiller depacketize)
    (hc : Channel ssrc (fs.flatMap (·.packets) ++ tail))
    (hu : Unmasked (fs.flatMap (·.packets) ++ tail)) :
    ((new vp8PayloadType).receive depacketize (fs.flatMap (·.packets) ++ tail)).frames =
        ((fs.filter (·.whole)).map fun f => (f.timestamp, f.data)) ∧
      ∀ before x between y after u w, fs = before ++ x :: between ++ y :: after →
        x.lacks → y.whole → x.body = u ++ w → w ≠ [] →
        heard (before.flatMap (·.packets) ++ x.packets) →
        let drained := ((new vp8PayloadType).receive depacketize
          (before.flatMap (·.packets) ++ x.lead ++ u)).takeLoss.2
        (drained.receive depacketize
          (w ++ between.flatMap (·.packets) ++ y.packets)).takeLoss.1 = true := by
  have h : Receiving ssrc (new vp8PayloadType) [] (fs.flatMap (·.packets) ++ tail) :=
    ⟨hc, hu, rfl, .inl rfl, rfl, fun _ => rfl⟩
  refine ⟨?_, ?_⟩
  · have ht := h.receive (known_flatMap fs)
    rw [receive_append, receive_fillers htail (b := []) (by simpa using ht), receive_sent fs h]
    rfl
  · intro before x between y after u w hfs hx hy hbody hw hh
    have hbefore := Receiving.receive (b := x.packets ++ (between.flatMap (·.packets) ++
      (y.packets ++ (after.flatMap (·.packets) ++ tail)))) (by simpa [hfs] using h)
      (known_flatMap before)
    obtain ⟨hbetween, ho⟩ := owing_of_lacks hbefore hx hh hbody hw
    have hy' := hbetween.receive (known_flatMap between)
    have ho := receive_owing (known_packets y) hy'
      (receive_owing (known_flatMap between) hbetween ho)
    obtain ⟨ha, hg⟩ := (receive_packets y hy').2 hy
    rw [List.append_assoc _ x.lead u, receive_append _ (before.flatMap _)]
    dsimp only
    rw [List.append_assoc w, receive_append _ w, receive_append]
    exact ho.resolve_right (by rw [hg, ha]; simp)

/-! ## A channel -/

/-- The depacketizer where a descriptor has no extension: at least four bytes, with the bits
    in the first. -/
def plainDescriptor (payload : List UInt8) : Option Vp8Packet :=
  match payload with
  | b :: rest =>
    if payload.length < 4 ∨ b &&& 0x80 ≠ 0 then none
    else some { s := (b &&& 0x10) >>> 4, pid := b &&& 0x07, payload := rest }
  | [] => none

/-- A packet with a VP8 payload. -/
def vp8 (sequenceNumber : UInt16) (timestamp : UInt32) (marker : Bool) (payload : List UInt8) :
    Packet where
  payloadType := vp8PayloadType
  sequenceNumber
  timestamp
  ssrc := 7
  marker
  payload

/-- A packet of error correction. -/
def fec (sequenceNumber : UInt16) : Packet where
  payloadType := videoRedPayloadType
  sequenceNumber
  timestamp := 0
  ssrc := 7
  marker := false
  payload := [122, 0]

/-- A frame of three fragments, with a packet of error correction before the last. -/
def threeFragments (first second correction last : Bool) : SentFrame plainDescriptor where
  timestamp := 1
  data := [1, 2, 3] ++ ([4, 5, 6] ++ [7, 8, 9])
  lead := []
  body :=
    [⟨vp8 65534 1 false [0x10, 1, 2, 3], first⟩, ⟨vp8 65535 1 false [0, 4, 5, 6], second⟩,
      ⟨fec 0, correction⟩, ⟨vp8 1 1 true [0, 7, 8, 9], last⟩]
  fillers := nofun
  fragmented :=
    .fragment ⟨rfl, rfl, _, rfl, by decide, rfl⟩
      (.fragment ⟨rfl, rfl, _, rfl, by decide, rfl⟩
        (.filler (by cases correction <;> decide) (.last ⟨rfl, rfl, _, rfl, by decide, rfl⟩)))

/-- A frame of one fragment, after a packet of padding. -/
def oneFragment : SentFrame plainDescriptor where
  timestamp := 2
  data := [7, 8, 9]
  lead := [⟨vp8 2 1 false [], false⟩]
  body := [⟨vp8 3 2 true [0x10, 7, 8, 9], true⟩]
  fillers := by decide
  fragmented := .last ⟨rfl, rfl, _, rfl, by decide, rfl⟩

theorem unmasked_of_take {l : List SentPacket}
    (h : ∀ i (hi : i < l.length), l[i].delivered → l[i].packet.isFec → gap (l.take i) = false) :
    Unmasked l := by
  rintro a s b rfl hs hf
  simpa [hs, hf] using h a.length (by simp)

theorem reassembles_two :
    let lossy := threeFragments true true true false
    ((new vp8PayloadType).receive plainDescriptor (lossy.packets ++ oneFragment.packets)).frames =
        [(oneFragment.timestamp, oneFragment.data)] ∧
      (((new vp8PayloadType).receive plainDescriptor
        (lossy.lead ++ lossy.body.take 3)).takeLoss.2.receive plainDescriptor
          (lossy.body.drop 3 ++ oneFragment.packets)).takeLoss.1 = true := by
  intro lossy
  have hc : Channel 7 ([lossy, oneFragment].flatMap (·.packets) ++ []) :=
    ⟨by decide, by decide, fun r hr _ => hr.length_le.trans_lt (by decide)⟩
  obtain ⟨hframes, hloss⟩ :=
    reassembles [lossy, oneFragment] [] nofun hc (unmasked_of_take (by decide))
  have hwhole : [lossy, oneFragment].filter (·.whole) = [oneFragment] := rfl
  refine ⟨by simpa [hwhole] using hframes, ?_⟩
  simpa using hloss [] lossy [] oneFragment [] (lossy.body.take 3) (lossy.body.drop 3) rfl
    (by decide) (by decide) (List.take_append_drop 3 _).symm (by decide) (by decide)

/-- A frame is dropped when a packet of error correction inside of it is lost. -/
theorem lost_fec_drops : ∃ f : SentFrame plainDescriptor, Channel 7 f.packets ∧
    f.lacks = false ∧ ((new vp8PayloadType).receive plainDescriptor f.packets).frames = [] :=
  ⟨threeFragments true true false true,
    ⟨by decide, by decide, fun r hr _ => hr.length_le.trans_lt (by decide)⟩,
    by decide, by decide⟩

end VideoStream

end Wandr
