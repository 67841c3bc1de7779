import Wandr.Media.LookAhead

/-!
# The end of the stream

While a stream plays, a read that is not in the cache fails, and the demuxer, which cannot
know better, fails too, as it does at the end of the file. The loop that fills the queues
tells the two apart by the reader: if before the packet was asked for its cursor was at the
end, or the cache went on from there to the end, it takes the failure for the end. But the
demuxer may have gone elsewhere since.

A demuxer of a file (`Script`) gives its packets one after the other, then the end; it fails
when one of its reads does, and then goes on with the same packet.

* `StreamPlayer.exec_took`: a call queues the frames of consecutive packets;
* `StreamPlayer.fillQueues_endsRight`: a call takes no failure for the end if and only if the
  demuxer does not miss while the cache goes on from the cursor to the end;
* `packets_queued`: where that does not happen, the stream is over only when every packet has
  been queued, and as many calls as there are packets queue them all, if each of them finds
  its first packet in the cache and room for it.
-/

namespace Wandr.Media

open Machine

variable {δ : Type}

/-! ## Demuxers of a file -/

/-- A file and its packets, how many of them a demuxer has given, and whether it has come to the
    end. -/
structure Script (δ : Type) where
  file : List UInt8
  packets : List Packet
  count : δ → Nat
  ended : δ → Bool

/-- What a demuxer that has given `n` packets comes to: after a read has failed to nothing, else
    to the next packet, or to the end after the last one. -/
def Script.Outcome (S : Script δ) (n : Nat) (e failed : Bool) (r : Demuxed) (d : δ) : Prop :=
  if failed then r = .error ∧ S.count d = n ∧ S.ended d = e
  else
    (∃ pkt, r = .packet pkt ∧ S.packets[n]? = some pkt ∧ S.count d = n + 1 ∧ S.ended d = e) ∨
      r = .eof ∧ n = S.packets.length ∧ S.count d = n ∧ S.ended d = true

/-- A seek or a read of the demuxer fails. -/
def Pull.misses : Pull δ → HttpRangeReader → Bool
  | .seek f k, r => !(r.seek f).1.isOk || (k (r.seek f).1).misses (r.seek f).2
  | .read len disk k, r =>
    !(r.readNow len disk).1.isOk || (k (r.readNow len disk).1).misses (r.readNow len disk).2
  | .done _ _, _ => false

/-- In whatever state a demuxer is, and whatever it reads at whatever positions, on a reader of
    the file it comes to what it should. -/
def Script.GivenBy (S : Script δ) (pull : δ → Pull δ) : Prop :=
  ∀ d r, r.Good S.file → S.Outcome (S.count d) (S.ended d) ((pull d).misses r)
    ((pull d).run r).1 ((pull d).run r).2.1

theorem HttpRangeReader.Good.readNow {F : List UInt8} {r : HttpRangeReader} (h : r.Good F)
    (len : Nat) (disk : Disk) : (r.readNow len disk).2.Good F := by
  have hr := (h.read len disk).1
  unfold HttpRangeReader.readNow
  split
  · next he => rwa [he] at hr
  · next he => rwa [he] at hr

/-- A read that does not fail gives bytes of the file. -/
theorem HttpRangeReader.Good.readNow_right {F : List UInt8} {r : HttpRangeReader} (h : r.Good F)
    {len : Nat} {disk : Disk} {bs : List UInt8} (hx : (r.readNow len disk).1 = .ok bs) :
    bs <+: F.drop r.pos ∧ bs.length ≤ len ∧ (r.pos < F.length → 0 < len → 1 ≤ bs.length) := by
  have hr := (h.read len disk).2.1
  unfold HttpRangeReader.readNow at hx
  split at hx
  · next he =>
    cases hx
    rw [he] at hr
    obtain ⟨hp, hle, hlt, -⟩ := hr _ rfl
    exact ⟨hp, hle, hlt⟩
  · exact nomatch hx

/-- What a demuxer does leaves a good cache. -/
theorem HttpRangeReader.Good.run {F : List UInt8} {r : HttpRangeReader} (h : r.Good F)
    (q : Pull δ) : (q.run r).2.2.Good F := by
  induction q generalizing r with
  | seek f k ih => exact ih _ (h.seek f)
  | read len disk k ih => exact ih _ (h.readNow len disk)
  | done x d => exact h

/-! ## What a call takes -/

/-- The state of a demuxer of a file. -/
def Demux.state : Demux δ → Option δ
  | .ox src => some src.dmx
  | .audio src => some src.format
  | .fmp4 _ => none

namespace StreamPlayer

/-- The frame of the video that a packet is queued as. -/
def asVideo (p : StreamPlayer δ) (pkt : Packet) : Option VFrame :=
  match p.demux with
  | .ox src =>
    if pkt.streamIndex = src.videoStream then
      some {
        ptsUs := ticksToUs ((pkt.pts.or pkt.dts).getD 0) src.vNum src.vDen
        keyframe := pkt.keyframe
        data := if p.videoAnnexb then toAnnexb pkt.data p.nalLen p.psPrefix pkt.keyframe
          else pkt.data }
    else none
  | _ => none

/-- The frame of the sound that a packet is queued as. -/
def asAudio (p : StreamPlayer δ) (pkt : Packet) : Option AFrame :=
  match p.demux with
  | .ox src =>
    if pkt.streamIndex = src.videoStream then none
    else if pkt.streamIndex = src.audioStream then
      some {
        ptsUs := ticksToUs ((pkt.pts.or pkt.dts).getD 0) src.aNum src.aDen
        data := pkt.data }
    else none
  | .audio src =>
    if pkt.streamIndex = src.trackId then
      some { ptsUs := ticksToUs (pkt.pts.getD 0) src.num src.den, data := pkt.data }
    else none
  | .fmp4 _ => none

/-- The demuxer misses when it is asked for the next packet. -/
def misses (pull : δ → Pull δ) (p : StreamPlayer δ) : Bool :=
  match p.demux.state with
  | some d => (pull d).misses p.reader
  | none => false

/-- The demuxer of a file is in a state. -/
def At (p : StreamPlayer δ) (d : δ) : Prop := p.demux.state = some d

/-- A player has taken packets of the file and queued them. -/
structure Took (S : Script δ) (p : StreamPlayer δ) (d : δ) (pkts : List Packet)
    (p' : StreamPlayer δ) (d' : δ) : Prop where
  at_ : p'.At d'
  good : p'.reader.Good S.file
  asVideo : p'.asVideo = p.asVideo
  asAudio : p'.asAudio = p.asAudio
  count : S.count d' = S.count d + pkts.length
  packets : pkts <+: S.packets.drop (S.count d)
  videoQ : p'.videoQ = p.videoQ ++ pkts.filterMap p.asVideo
  audioQ : p'.audioQ = p.audioQ ++ pkts.filterMap p.asAudio

variable {S : Script δ} {p p' p'' : StreamPlayer δ} {d d' d'' : δ} {ps qs : List Packet}

theorem Took.refl (h : p.At d) (hg : p.reader.Good S.file) : p.Took S d [] p d :=
  ⟨h, hg, rfl, rfl, rfl, List.nil_prefix, (List.append_nil _).symm, (List.append_nil _).symm⟩

theorem Took.trans (h : p.Took S d ps p' d') (h' : p'.Took S d' qs p'' d'') :
    p.Took S d (ps ++ qs) p'' d'' := by
  refine ⟨h'.at_, h'.good, h'.asVideo.trans h.asVideo, h'.asAudio.trans h.asAudio, ?_, ?_, ?_, ?_⟩
  · rw [h'.count, h.count, List.length_append, Nat.add_assoc]
  · obtain ⟨t, ht⟩ := h.packets
    have hq := h'.packets
    rw [h.count, ← List.drop_drop, ← ht, List.drop_left] at hq
    rw [← ht]
    exact (List.prefix_append_right_inj ps).2 hq
  · rw [h'.videoQ, h.videoQ, h.asVideo, List.filterMap_append, List.append_assoc]
  · rw [h'.audioQ, h.audioQ, h.asAudio, List.filterMap_append, List.append_assoc]

/-- What a round comes to: nothing, when the demuxer misses; else a packet, or the end. -/
def Produces (S : Script δ) (p : StreamPlayer δ) (d : δ) (missed : Bool)
    (r : Prod × StreamPlayer δ) : Prop :=
  ∃ d', if missed then
      r.1 = .stop ∧ p.Took S d [] r.2 d' ∧ S.ended d' = S.ended d ∧
        r.2.demuxDone = (p.demuxDone || p.demuxAtEof)
    else
      (∃ pkt, r.1 ≠ .stop ∧ p.Took S d [pkt] r.2 d' ∧ S.ended d' = S.ended d ∧
          r.2.demuxDone = p.demuxDone) ∨
        r.1 = .stop ∧ p.Took S d [] r.2 d' ∧ S.count d = S.packets.length ∧ S.ended d' = true

theorem stopDemux_took {atEof : Bool} (h : p.Took S d [] p' d') :
    p.Took S d [] (p'.stopDemux atEof) d' := by
  unfold stopDemux
  split
  · exact ⟨h.at_, h.good, h.asVideo, h.asAudio, h.count, h.packets, h.videoQ, h.audioQ⟩
  · exact h

theorem stopDemux_demuxDone (p : StreamPlayer δ) (atEof : Bool) :
    (p.stopDemux atEof).demuxDone = (p.demuxDone || atEof) := by
  cases atEof with
  | true => exact (Bool.or_true _).symm
  | false => exact (Bool.or_false _).symm

/-- A packet comes after those that have been given. -/
theorem singleton_packets {pkt : Packet} {n : Nat} (h : S.packets[n]? = some pkt) :
    [pkt] <+: S.packets.drop n := by
  obtain ⟨hlt, rfl⟩ := List.getElem?_eq_some_iff.1 h
  rw [List.drop_eq_getElem_cons hlt]
  exact ⟨_, rfl⟩

variable {pull : δ → Pull δ} {openMp4 : List UInt8 → Except String (List Packet)}
  {fetches : Fetches} {m m' : Marks} {n : Nat}

/-- The frames of a packet are queued. -/
def queued (p : StreamPlayer δ) (pkt : Packet) : StreamPlayer δ :=
  { p with
    videoQ := p.videoQ ++ (p.asVideo pkt).toList
    audioQ := p.audioQ ++ (p.asAudio pkt).toList }

theorem routeOx_packet (p : StreamPlayer δ) (src : OxSource δ) (d : δ)
    (reader : HttpRangeReader) (atEof : Bool) (pkt : Packet) :
    let p' := { p with demux := .ox { src with dmx := d }, reader }
    (p'.routeOx src atEof (.packet pkt)).1 ≠ .stop ∧
      (p'.routeOx src atEof (.packet pkt)).2 = p'.queued pkt := by
  dsimp only [routeOx, queued, asVideo, asAudio]
  split
  · refine ⟨nofun, ?_⟩
    rw [Option.toList_none, List.append_nil]
    rfl
  · split
    · refine ⟨nofun, ?_⟩
      rw [Option.toList_none, List.append_nil]
      rfl
    · refine ⟨nofun, ?_⟩
      rw [Option.toList_none, List.append_nil, Option.toList_none, List.append_nil]

theorem routeAudio_packet (p : StreamPlayer δ) (src : SymSource δ) (d : δ)
    (reader : HttpRangeReader) (atEof : Bool) (pkt : Packet) :
    let p' := { p with demux := .audio { src with format := d }, reader }
    (p'.routeAudio src atEof (.packet pkt)).1 ≠ .stop ∧
      (p'.routeAudio src atEof (.packet pkt)).2 = p'.queued pkt := by
  dsimp only [routeAudio, queued, asVideo, asAudio]
  split
  · refine ⟨nofun, ?_⟩
    rw [Option.toList_none, List.append_nil]
    rfl
  · refine ⟨nofun, ?_⟩
    rw [Option.toList_none, List.append_nil, Option.toList_none, List.append_nil]

/-- What the demuxer comes to is queued, or stops it. -/
theorem produces_of_outcome (p' : StreamPlayer δ) {missed : Bool} {r : Demuxed}
    {o : Prod × StreamPlayer δ}
    (h : S.Outcome (S.count d) (S.ended d) missed r d')
    (hp : S.count d' = S.count d → p.Took S d [] p' d') (hdone : p'.demuxDone = p.demuxDone)
    (hpkt : ∀ pkt, r = .packet pkt → o.1 ≠ .stop ∧ o.2 = p'.queued pkt)
    (herr : r = .error → o = (.stop, p'.stopDemux p.demuxAtEof))
    (heof : r = .eof → ∃ b, o = (.stop, p'.stopDemux b))
    (hat : p'.At d') (hg : p'.reader.Good S.file) (hv : p'.asVideo = p.asVideo)
    (ha : p'.asAudio = p.asAudio)
    (hvq : p'.videoQ = p.videoQ) (haq : p'.audioQ = p.audioQ) :
    p.Produces S d missed o := by
  refine ⟨d', ?_⟩
  unfold Script.Outcome at h
  split at h
  · next hm =>
    obtain ⟨hr, hc, he⟩ := h
    rw [if_pos hm, herr hr]
    exact ⟨rfl, stopDemux_took (hp hc), he, by rw [stopDemux_demuxDone, hdone]⟩
  · next hm =>
    rw [if_neg hm]
    rcases h with ⟨pkt, hr, hn, hc, he⟩ | ⟨hr, hn, hc, he⟩
    · obtain ⟨hs, ho⟩ := hpkt pkt hr
      refine .inl ⟨pkt, hs, ?_⟩
      rw [ho]
      refine ⟨⟨hat, hg, hv, ha, hc, singleton_packets hn, ?_, ?_⟩, he, hdone⟩
      · rw [queued, hvq, hv, List.filterMap_cons]
        cases p.asVideo pkt <;> rfl
      · rw [queued, haq, ha, List.filterMap_cons]
        cases p.asAudio pkt <;> rfl
    · obtain ⟨b, ho⟩ := heof hr
      rw [ho]
      exact .inr ⟨rfl, stopDemux_took (hp hc), hn, he⟩

theorem produceOx_spec {src : OxSource δ} (hS : S.GivenBy pull) (hd : p.demux = .ox src)
    (hg : p.reader.Good S.file) :
    p.Produces S src.dmx ((pull src.dmx).misses p.reader) (p.produceOx pull src) := by
  have ho := hS src.dmx p.reader hg
  have hr := hg.run (pull src.dmx)
  unfold produceOx
  generalize (pull src.dmx).run p.reader = o at ho hr ⊢
  obtain ⟨r, d', reader⟩ := o
  dsimp only at ho hr ⊢
  -- The streams and their time bases stay when the demuxer has gone on.
  have hv : asVideo { p with demux := .ox { src with dmx := d' }, reader } = p.asVideo := by
    funext pkt
    rw [asVideo, asVideo, hd]
  have ha : asAudio { p with demux := .ox { src with dmx := d' }, reader } = p.asAudio := by
    funext pkt
    rw [asAudio, asAudio, hd]
  refine produces_of_outcome { p with demux := .ox { src with dmx := d' }, reader } ho
    (fun hc => ?_) rfl ?_ ?_ ?_ rfl hr hv ha rfl rfl
  · exact ⟨rfl, hr, hv, ha, hc, List.nil_prefix, (List.append_nil _).symm,
      (List.append_nil _).symm⟩
  · rintro pkt rfl
    exact routeOx_packet p src d' reader _ pkt
  · rintro rfl
    rfl
  · rintro rfl
    exact ⟨_, rfl⟩

theorem produceAudio_spec {src : SymSource δ} (hS : S.GivenBy pull) (hd : p.demux = .audio src)
    (hg : p.reader.Good S.file) :
    p.Produces S src.format ((pull src.format).misses p.reader) (p.produceAudio pull src) := by
  have ho := hS src.format p.reader hg
  have hr := hg.run (pull src.format)
  unfold produceAudio
  generalize (pull src.format).run p.reader = o at ho hr ⊢
  obtain ⟨r, d', reader⟩ := o
  dsimp only at ho hr ⊢
  have hv : asVideo { p with demux := .audio { src with format := d' }, reader } =
      p.asVideo := by
    funext pkt
    rw [asVideo, asVideo, hd]
  have ha : asAudio { p with demux := .audio { src with format := d' }, reader } =
      p.asAudio := by
    funext pkt
    rw [asAudio, asAudio, hd]
  refine produces_of_outcome { p with demux := .audio { src with format := d' }, reader } ho
    (fun hc => ?_) rfl ?_ ?_ ?_ rfl hr hv ha rfl rfl
  · exact ⟨rfl, hr, hv, ha, hc, List.nil_prefix, (List.append_nil _).symm,
      (List.append_nil _).symm⟩
  · rintro pkt rfl
    exact routeAudio_packet p src d' reader _ pkt
  · rintro rfl
    rfl
  · rintro rfl
    exact ⟨_, rfl⟩

/-- A round of a demuxer of a file. -/
theorem produce_spec (openMp4 : List UInt8 → Except String (List Packet)) (fetches : Fetches)
    (m : Marks) (hS : S.GivenBy pull) (hd : p.At d) (hg : p.reader.Good S.file) :
    p.Produces S d (p.misses pull) (p.produce pull openMp4 fetches m) := by
  unfold At at hd
  have hm : p.misses pull = (pull d).misses p.reader := by
    rw [misses, hd]
  rw [hm]
  unfold produce
  cases hx : p.demux with
  | ox src =>
    rw [hx] at hd
    cases hd
    exact produceOx_spec hS hx hg
  | audio src =>
    rw [hx] at hd
    cases hd
    exact produceAudio_spec hS hx hg
  | fmp4 src =>
    rw [hx] at hd
    exact nomatch hd

theorem round_stop (hs : ¬ p.stops m) (h : (p.produce pull openMp4 fetches m).1 = .stop) :
    fillRound pull openMp4 fetches (m, p) = (false, m, (p.produce pull openMp4 fetches m).2) := by
  rw [fillRound, if_neg hs]
  generalize p.produce pull openMp4 fetches m = r at h ⊢
  obtain ⟨prod, p'⟩ := r
  obtain rfl : prod = .stop := h
  rfl

theorem round_go_on (hs : ¬ p.stops m) (h : (p.produce pull openMp4 fetches m).1 ≠ .stop) :
    ∃ m', fillRound pull openMp4 fetches (m, p) =
      (true, m', (p.produce pull openMp4 fetches m).2) := by
  rw [fillRound, if_neg hs]
  generalize p.produce pull openMp4 fetches m = r at h ⊢
  obtain ⟨prod, p'⟩ := r
  cases prod with
  | frame pts v => cases v <;> exact ⟨_, rfl⟩
  | skip => exact ⟨_, rfl⟩
  | stop => exact absurd rfl h

section
variable (hS : S.GivenBy pull)
include hS

/-- A round that goes on has queued a packet. -/
theorem round_took (hd : p.At d) (hg : p.reader.Good S.file)
    (h : fillRound pull openMp4 fetches (m, p) = (true, m', p')) :
    ∃ pkt d', p.Took S d [pkt] p' d' ∧ S.ended d' = S.ended d ∧ p'.demuxDone = p.demuxDone := by
  obtain ⟨hs, rfl⟩ := round_goes_on h
  have hn : (p.produce pull openMp4 fetches m).1 ≠ .stop := fun he => by
    rw [round_stop hs he] at h
    exact nomatch h
  obtain ⟨d', hp⟩ := produce_spec openMp4 fetches m hS hd hg
  split at hp
  · exact absurd hp.1 hn
  · rcases hp with ⟨pkt, -, ht, he, hdone⟩ | ⟨he, -⟩
    · exact ⟨pkt, d', ht, he, hdone⟩
    · exact absurd he hn

/-- Rounds that go on have queued packets. -/
theorem rounds_took {m₀ : Marks} (hd : p.At d) (hg : p.reader.Good S.file)
    (h : Loop.Rounds (fillRound pull openMp4 fetches) (m₀, p) (m', p')) :
    ∃ pkts d', p.Took S d pkts p' d' ∧ S.ended d' = S.ended d ∧ p'.demuxDone = p.demuxDone := by
  generalize hq : (m', p') = q at h
  induction h generalizing m' p' with
  | start =>
    cases hq
    exact ⟨[], d, .refl hd hg, rfl, rfl⟩
  | @next t u _ hn ih =>
    obtain ⟨m, p₁⟩ := t
    subst hq
    obtain ⟨pkts, d₁, ht, he, hdone⟩ := ih rfl
    obtain ⟨pkt, d', ht', he', hdone'⟩ := round_took hS ht.at_ ht.good hn
    exact ⟨_, d', ht.trans ht', he'.trans he, hdone'.trans hdone⟩

/-- The rest of a call queues the frames of consecutive packets. It stops by itself, or the
    demuxer misses, or comes to the end. -/
theorem exec_took {m₀ : Marks} (hd : p.At d) (hg : p.reader.Good S.file)
    (h : Loop.exec (fillRound pull openMp4 fetches) n (m₀, p) = some (m', p')) :
    ∃ pkts d', p.Took S d pkts p' d' ∧
      (S.ended d' = S.ended d ∧ p'.demuxDone = p.demuxDone ∨
        (∃ m u, Loop.Rounds (fillRound pull openMp4 fetches) (m₀, p) (m, u) ∧ ¬ u.stops m ∧
          u.misses pull = true ∧ S.ended d' = S.ended d ∧
          p'.demuxDone = (p.demuxDone || u.demuxAtEof)) ∨
        S.count d' = S.packets.length ∧ S.ended d' = true) := by
  obtain ⟨⟨m, u⟩, hr, hb⟩ := Loop.exec_rounds h
  obtain ⟨pkts, d₁, ht, he, hdone⟩ := rounds_took hS hd hg hr
  by_cases hs : u.stops m = true
  · rw [fillRound, if_pos hs] at hb
    cases hb
    exact ⟨pkts, d₁, ht, .inl ⟨he, hdone⟩⟩
  · have hstop : (u.produce pull openMp4 fetches m).1 = .stop := by
      by_contra hn
      obtain ⟨m₂, hg⟩ := round_go_on hs hn
      rw [hg] at hb
      exact Bool.noConfusion (congrArg Prod.fst hb)
    rw [round_stop hs hstop] at hb
    cases hb
    obtain ⟨d', hp⟩ := produce_spec openMp4 fetches m' hS ht.at_ ht.good
    split at hp
    · next hm =>
      obtain ⟨-, ht', he', hdone'⟩ := hp
      refine ⟨_, d', ht.trans ht', .inr (.inl ⟨m', u, hr, hs, hm, he'.trans he, ?_⟩)⟩
      rw [hdone', hdone]
    · rcases hp with ⟨_, hn, -⟩ | ⟨-, ht', hlast, he'⟩
      · exact absurd hstop hn
      · refine ⟨_, d', ht.trans ht', .inr (.inr ⟨?_, he'⟩)⟩
        rw [ht'.count, hlast]
        rfl

/-- A call that finds its first packet in the cache, and room for it, takes a packet, if there
    is one left. -/
theorem exec_finds {m₀ : Marks} (hd : p.At d) (hg : p.reader.Good S.file)
    (hs : ¬ p.stops m₀) (hm : p.misses pull = false)
    (h : Loop.exec (fillRound pull openMp4 fetches) n (m₀, p) = some (m', p'))
    (hd' : p'.At d') : S.count d < S.count d' ∨ S.count d = S.packets.length := by
  obtain ⟨d₁, hp⟩ := produce_spec openMp4 fetches m₀ hS hd hg
  rw [if_neg (by rw [hm]; exact Bool.false_ne_true)] at hp
  rcases hp with ⟨pkt, hn, ht, -⟩ | ⟨-, -, hlast, -⟩
  · left
    obtain ⟨m₁, hb⟩ := round_go_on hs hn
    obtain ⟨k, hk⟩ := Loop.exec_of_rounds (Loop.Rounds.start.next hb) h
    obtain ⟨pkts, d₂, ht', -⟩ := exec_took hS ht.at_ ht.good hk
    have hle : S.count d₂ = S.count d + 1 + pkts.length := by rw [ht'.count, ht.count]; rfl
    rw [Option.some.inj (hd'.symm.trans ht'.at_), hle]
    omega
  · exact .inr hlast

/-- A call returns if it may take more rounds than there are packets. -/
theorem fillQueues_returns (hd : p.At d) (hg : p.reader.Good S.file)
    (hle : S.count d ≤ S.packets.length) (hn : S.packets.length < n) :
    ∃ p', fillQueues pull openMp4 fetches p n = some p' := by
  suffices hx : ∃ q, Loop.exec (fillRound pull openMp4 fetches) n ({}, p) = some q by
    obtain ⟨⟨m, p'⟩, hx⟩ := hx
    exact ⟨p', by rw [fillQueues, hx]; rfl⟩
  refine Loop.exec_of_measure
    (fun q => S.packets.length - (q.2.demux.state.map S.count).getD 0)
    (fun q => ∃ d, q.2.At d ∧ q.2.reader.Good S.file ∧ S.count d ≤ S.packets.length)
    ⟨d, hd, hg, hle⟩ ?_ ?_
  · rintro ⟨m, p⟩ ⟨m', p'⟩ ⟨d, hd, hg, hle⟩ hb
    dsimp only at hd hg ⊢
    obtain ⟨pkt, d', ht, -⟩ := round_took hS hd hg hb
    have hlt := ht.packets.length_le
    have hc : S.count d' = S.count d + 1 := ht.count
    rw [List.length_drop, List.length_singleton] at hlt
    refine ⟨⟨d', ht.at_, ht.good, by omega⟩, ?_⟩
    rw [show p'.demux.state = some d' from ht.at_, show p.demux.state = some d from hd]
    dsimp only [Option.map, Option.getD]
    omega
  · dsimp only
    omega

/-! ## Failures taken for the end -/

/-- The stream is over only when the demuxer has come to the end. -/
def EndsRight (S : Script δ) (p : StreamPlayer δ) : Prop :=
  p.demuxDone = true → ∀ d, p.At d → S.ended d = true

/-- As long as the stream is not over and the demuxer has not come to the end, it is not asked
    for a packet that it misses while the cache goes on from the cursor to the end. -/
def Patient (S : Script δ) (pull : δ → Pull δ)
    (openMp4 : List UInt8 → Except String (List Packet)) (fetches : Fetches)
    (p : StreamPlayer δ) : Prop :=
  ∀ m u, Loop.Rounds (fillRound pull openMp4 fetches) ({}, p) (m, u) → ¬ u.stops m →
    u.demuxDone = false → (∀ d, u.At d → S.ended d = false) → u.demuxAtEof = true →
    u.misses pull = false

omit hS in
theorem at_unique (h : p.At d) (h' : p.At d') : d = d' := Option.some.inj (h.symm.trans h')

/-- A call takes no failure for the end if and only if the demuxer does not miss while the
    cache goes on from the cursor to the end. -/
theorem fillQueues_endsRight (hd : p.At d) (hg : p.reader.Good S.file) (hr : p.EndsRight S)
    (h : fillQueues pull openMp4 fetches p n = some p') :
    p'.EndsRight S ↔ p.Patient S pull openMp4 fetches := by
  constructor
  · intro hp m u hu hs hnd hne heof
    by_contra hm
    obtain ⟨⟨m', p''⟩, hex, rfl⟩ := Option.map_eq_some_iff.1 h
    obtain ⟨pkts, d₁, ht, he, hdone⟩ := rounds_took hS hd hg hu
    obtain ⟨d₂, hq⟩ := produce_spec openMp4 fetches m hS ht.at_ ht.good
    rw [if_pos (Bool.not_eq_false _ ▸ hm)] at hq
    obtain ⟨hstop, ht', he', hdone'⟩ := hq
    -- The call ends with the round that misses.
    obtain ⟨k, hk⟩ := Loop.exec_of_rounds hu hex
    cases k with
    | zero => exact nomatch hk
    | succ k =>
      rw [Loop.exec, round_stop hs hstop] at hk
      cases hk
      have hend := hp (by rw [hdone', heof, Bool.or_true]) d₂ ht'.at_
      rw [he', hne d₁ ht.at_] at hend
      exact Bool.noConfusion hend
  · intro hp
    obtain ⟨⟨m', p''⟩, hex, rfl⟩ := Option.map_eq_some_iff.1 h
    obtain ⟨pkts, d', ht, hc⟩ := exec_took hS hd hg hex
    intro hdone d₂ hd₂
    obtain rfl := at_unique ht.at_ hd₂
    rcases hc with ⟨he, hsame⟩ | ⟨m, u, hu, hs, hm, he, hsame⟩ | ⟨-, he⟩
    · rw [he]
      exact hr (hsame ▸ hdone) d hd
    · obtain ⟨_, d₁, htu, heu, hdu⟩ := rounds_took hS hd hg hu
      rw [he]
      by_contra hne
      have hnd : p.demuxDone = false := by
        by_contra hpd
        exact hne (hr (Bool.not_eq_false _ ▸ hpd) d hd)
      rw [hsame, hnd, Bool.false_or] at hdone
      have hmiss := hp m u hu hs (hdu.trans hnd) (fun d₃ hd₃ => ?_) hdone
      · exact Bool.noConfusion (hm.symm.trans hmiss)
      · rw [← at_unique htu.at_ hd₃, heu]
        exact Bool.not_eq_true _ ▸ hne
    · exact he

end

end StreamPlayer

/-! ## Runs -/

namespace Playing

variable {S : Script δ} {pull : δ → Pull δ} {openMp4 : List UInt8 → Except String (List Packet)}
  {v : Packet → Option VFrame} {a : Packet → Option AFrame} {s : Playing δ} {d d' : δ}
  {i : PlayerStep}

/-- What has been queued are the frames of the packets that the demuxer has given. -/
structure Queued (S : Script δ) (v : Packet → Option VFrame) (a : Packet → Option AFrame)
    (s : Playing δ) (d : δ) : Prop where
  at_ : s.player.At d
  good : s.player.reader.Good S.file
  asVideo : s.player.asVideo = v
  asAudio : s.player.asAudio = a
  count_le : S.count d ≤ S.packets.length
  ended : S.ended d = true → S.count d = S.packets.length
  seenV : s.seenV = (S.packets.take (S.count d)).filterMap v
  seenA : s.seenA = (S.packets.take (S.count d)).filterMap a

/-- The answers are those of a server with the file, which sends the whole of it only when it is
    asked from the start. -/
def Served (F : List UInt8) (s : Playing δ) (i : PlayerStep) : Prop :=
  ∀ n a start, i = .complete n a → s.tasks[n]? = some start →
    Serves F (s.player.reader.shared.request start) a ∧
      WholeFromStart (s.player.reader.shared.request start) a

/-- Nothing is taken from the demuxer, and nothing queued. -/
structure Idle (s s' : Playing δ) : Prop where
  demux : s'.player.demux = s.player.demux
  demuxDone : s'.player.demuxDone = s.player.demuxDone
  asVideo : s'.player.asVideo = s.player.asVideo
  asAudio : s'.player.asAudio = s.player.asAudio
  seenV : s'.seenV = s.seenV
  seenA : s'.seenA = s.seenA

/-- The frames of a packet go by the streams and the framing of the video. -/
theorem as_eq {p p' : StreamPlayer δ} (h : p'.feed = p.feed) :
    p'.asVideo = p.asVideo ∧ p'.asAudio = p.asAudio := by
  have hd : p'.demux = p.demux := congrArg StreamPlayer.Feed.demux h
  have hb : p'.videoAnnexb = p.videoAnnexb := congrArg StreamPlayer.Feed.videoAnnexb h
  have hn : p'.nalLen = p.nalLen := congrArg StreamPlayer.Feed.nalLen h
  have hp : p'.psPrefix = p.psPrefix := congrArg StreamPlayer.Feed.psPrefix h
  constructor
  · funext pkt
    rw [StreamPlayer.asVideo, StreamPlayer.asVideo, hd, hb, hn, hp]
  · funext pkt
    rw [StreamPlayer.asAudio, StreamPlayer.asAudio, hd]

theorem idle_of_feed {p : StreamPlayer δ} (h : p.feed = s.player.feed) :
    s.Idle { s with player := p } :=
  ⟨congrArg StreamPlayer.Feed.demux h, congrArg StreamPlayer.Feed.demuxDone h, (as_eq h).1,
    (as_eq h).2, rfl, rfl⟩

/-- Only a call that fills the queues takes anything from the demuxer. -/
theorem next_idle (h : ∀ n fetches, i ≠ .fill n fetches) : s.Idle (s.next pull openMp4 i) := by
  cases i with
  | fill n fetches => exact absurd rfl (h n fetches)
  | decode out =>
    obtain ⟨_, _, _, _, he, -⟩ := s.player.decodeAudio_frame out
    refine idle_of_feed ?_
    rw [he]
    rfl
  | pump x => exact idle_of_feed (s.player.pumpStream_frame x).1
  | drivePrefetch =>
    dsimp only [next, drivePrefetch]
    split
    · split <;> exact ⟨rfl, rfl, rfl, rfl, rfl, rfl⟩
    · exact ⟨rfl, rfl, rfl, rfl, rfl, rfl⟩
  | complete n b =>
    dsimp only [next, complete]
    split <;> exact ⟨rfl, rfl, rfl, rfl, rfl, rfl⟩

/-- What is fetched leaves a good cache. -/
theorem good_next {F : List UInt8} (h : s.player.reader.Good F)
    (ha : s.Served F i) (hi : ∀ n fetches, i ≠ .fill n fetches) :
    (s.next pull openMp4 i).player.reader.Good F := by
  cases i with
  | fill n fetches => exact absurd rfl (hi n fetches)
  | decode out =>
    obtain ⟨_, _, _, _, he, -⟩ := s.player.decodeAudio_frame out
    dsimp only [Playing.next]
    rw [he]
    exact h
  | pump x =>
    have hr : (s.player.pumpStream x).reader = s.player.reader :=
      congrArg StreamPlayer.Feed.reader (s.player.pumpStream_frame x).1
    dsimp only [Playing.next]
    rw [hr]
    exact h
  | drivePrefetch =>
    dsimp only [Playing.next, Playing.drivePrefetch]
    split
    · split
      · exact h
      · exact ⟨h.shared.congr rfl rfl, h.localFile⟩
    · exact h
  | complete n b =>
    dsimp only [Playing.next, Playing.complete]
    split
    · exact h
    · next start ht =>
      obtain ⟨hs, hw⟩ := ha n b start rfl ht
      exact ⟨h.shared.complete fun range hf => excerpt_of_serves hs hw hf, h.localFile⟩

theorem Queued.idle {s' : Playing δ} (h : Queued S v a s d) (hi : s.Idle s')
    (hg : s'.player.reader.Good S.file) : Queued S v a s' d where
  at_ := by rw [StreamPlayer.At, hi.demux]; exact h.at_
  good := hg
  asVideo := hi.asVideo.trans h.asVideo
  asAudio := hi.asAudio.trans h.asAudio
  count_le := h.count_le
  ended := h.ended
  seenV := hi.seenV.trans h.seenV
  seenA := hi.seenA.trans h.seenA

/-- The packets up to another one and those that follow. -/
theorem filterMap_take {α : Type} {f : Packet → Option α} {all pkts : List Packet} {n : Nat}
    (h : pkts <+: all.drop n) :
    (all.take (n + pkts.length)).filterMap f =
      (all.take n).filterMap f ++ pkts.filterMap f := by
  rw [List.take_add, List.filterMap_append, ← List.prefix_iff_eq_take.1 h]

section
variable (hS : S.GivenBy pull)
include hS

/-- A call queues the frames of the packets that it takes. -/
theorem Queued.fill (h : Queued S v a s d) (n : Nat) (fetches : Fetches) :
    ∃ d', Queued S v a (s.fill pull openMp4 n fetches) d' ∧ S.count d ≤ S.count d' := by
  unfold Playing.fill
  split
  · exact ⟨d, h, Nat.le_refl _⟩
  · next p he =>
    obtain ⟨⟨m, p'⟩, hex, rfl⟩ := Option.map_eq_some_iff.1 he
    obtain ⟨pkts, d', ht, hc⟩ := StreamPlayer.exec_took hS h.at_ h.good hex
    have hlen := ht.packets.length_le
    have hcount := ht.count
    have hle := h.count_le
    rw [List.length_drop] at hlen
    refine ⟨d', ⟨ht.at_, ht.good, ht.asVideo.trans h.asVideo, ht.asAudio.trans h.asAudio, by omega,
      fun hend => ?_, ?_, ?_⟩, by omega⟩
    · rcases hc with ⟨he', -⟩ | ⟨_, _, -, -, -, he', -⟩ | ⟨hlast, -⟩
      · have := h.ended (he' ▸ hend)
        omega
      · have := h.ended (he' ▸ hend)
        omega
      · exact hlast
    · dsimp only
      rw [ht.videoQ, List.drop_left, h.seenV, h.asVideo, hcount, filterMap_take ht.packets]
    · dsimp only
      rw [ht.audioQ, List.drop_left, h.seenA, h.asAudio, hcount, filterMap_take ht.packets]

theorem Queued.step (h : Queued S v a s d)
    (openMp4 : List UInt8 → Except String (List Packet)) (ha : s.Served S.file i) :
    ∃ d', Queued S v a (s.next pull openMp4 i) d' ∧ S.count d ≤ S.count d' := by
  by_cases hi : ∃ n fetches, i = .fill n fetches
  · obtain ⟨n, fetches, rfl⟩ := hi
    exact h.fill hS n fetches
  · have hn : ∀ n fetches, i ≠ .fill n fetches := fun n fetches he => hi ⟨n, fetches, he⟩
    exact ⟨d, h.idle (next_idle hn) (good_next h.good ha hn), Nat.le_refl _⟩

end

variable (S pull openMp4) in
/-- After a step the stream is over only when the demuxer has come to the end. -/
def EndsRight (s : Playing δ) (i : PlayerStep) : Prop :=
  (s.next pull openMp4 i).player.EndsRight S

variable (S pull openMp4) in
/-- A call that fills the queues takes no failure of the demuxer for the end. -/
def Patient (s : Playing δ) (i : PlayerStep) : Prop :=
  ∀ n fetches p, i = .fill n fetches → s.player.fillQueues pull openMp4 fetches n = some p →
    s.player.Patient S pull openMp4 fetches

variable (S pull) in
/-- A call that fills the queues finds its first packet in the cache, and room for it, and may
    take more rounds than there are packets. -/
def finds (s : Playing δ) : PlayerStep → Bool
  | .fill n _ => S.packets.length < n && !s.player.stops {} && !s.player.misses pull
  | _ => false

variable (S pull openMp4) in
/-- How many calls find their first packet. -/
def countFinds (s : Playing δ) (is : List PlayerStep) : Nat :=
  match is with
  | [] => 0
  | i :: is => (s.finds S pull i).toNat + (s.next pull openMp4 i).countFinds is

theorem Idle.endsRight {s' : Playing δ} (h : s.Idle s') :
    s'.player.EndsRight S ↔ s.player.EndsRight S := by
  rw [StreamPlayer.EndsRight, StreamPlayer.EndsRight, h.demuxDone]
  simp only [StreamPlayer.At, h.demux]

section
variable (hS : S.GivenBy pull)
include hS

theorem endsRight_iff (hd : s.player.At d) (hg : s.player.reader.Good S.file)
    (h : s.player.EndsRight S) :
    s.EndsRight S pull openMp4 i ↔ s.Patient S pull openMp4 i := by
  by_cases hi : ∃ n fetches, i = .fill n fetches
  · obtain ⟨n, fetches, rfl⟩ := hi
    dsimp only [EndsRight, next, Playing.fill]
    split
    · next hn =>
      refine iff_of_true h fun n' fetches' p hi he => ?_
      cases hi
      exact nomatch hn.symm.trans he
    · next p he =>
      rw [StreamPlayer.fillQueues_endsRight hS hd hg h he]
      refine ⟨fun hb n' fetches' p' hi _ => ?_, fun ht => ht n fetches p rfl he⟩
      cases hi
      exact hb
  · refine iff_of_true ?_ fun n fetches p he => absurd ⟨n, fetches, he⟩ hi
    exact (next_idle fun n fetches he => hi ⟨n, fetches, he⟩).endsRight.2 h

/-- A call that finds its first packet takes one, if there is one left. -/
theorem Queued.finds (h : Queued S v a s d)
    (openMp4 : List UInt8 → Except String (List Packet)) (ha : s.Served S.file i) :
    ∃ d', Queued S v a (s.next pull openMp4 i) d' ∧
      (S.count d + (s.finds S pull i).toNat ≤ S.count d' ∨ S.count d' = S.packets.length) := by
  obtain ⟨d', h', hle⟩ := h.step hS openMp4 ha
  refine ⟨d', h', ?_⟩
  cases hf : s.finds S pull i with
  | false => exact .inl hle
  | true =>
    cases i with
    | fill n fetches =>
      simp only [Playing.finds, Bool.and_eq_true, decide_eq_true_eq, Bool.not_eq_true'] at hf
      obtain ⟨⟨hn, hs⟩, hm⟩ := hf
      obtain ⟨p, he⟩ : ∃ p, s.player.fillQueues pull openMp4 fetches n = some p :=
        StreamPlayer.fillQueues_returns hS h.at_ h.good h.count_le hn
      obtain ⟨⟨m, p⟩, hex, rfl⟩ := Option.map_eq_some_iff.1 he
      have hd' : p.At d' := by
        have hat := h'.at_
        dsimp only [Playing.next, Playing.fill] at hat
        rwa [he] at hat
      rcases StreamPlayer.exec_finds hS h.at_ h.good (by rw [hs]; exact Bool.false_ne_true) hm
        hex hd' with hlt | hlast
      · exact .inl hlt
      · exact .inr (Nat.le_antisymm h'.count_le (hlast ▸ hle))
    | _ => exact nomatch hf

/-- In a run that takes no failure for the end, the stream is over only when the demuxer has
    come to the end, and a packet is taken for each call that finds its first one. -/
theorem Queued.run {is : List PlayerStep} (h : Queued S v a s d) (hr : s.player.EndsRight S)
    (ha : Goes (next pull openMp4) (Served S.file) s is)
    (hg : Goes (next pull openMp4) (Patient S pull openMp4) s is) :
    ∃ d', Queued S v a (is.foldl (next pull openMp4) s) d' ∧
      (is.foldl (next pull openMp4) s).player.EndsRight S ∧
      (S.count d + s.countFinds S pull openMp4 is ≤ S.count d' ∨
        S.count d' = S.packets.length) := by
  induction is generalizing s d with
  | nil => exact ⟨d, h, hr, .inl (Nat.le_refl _)⟩
  | cons i is ih =>
    obtain ⟨d₁, h₁, hle⟩ := h.finds hS openMp4 ha.1
    obtain ⟨d₂, h₂, hr₂, hle₂⟩ := ih h₁ ((endsRight_iff hS h.at_ h.good hr).2 hg.1) ha.2 hg.2
    refine ⟨d₂, h₂, hr₂, ?_⟩
    have hc := h₂.count_le
    rw [countFinds]
    omega

end

end Playing

/-- In a run of a player from the start of a file the stream is over only when the demuxer has
    come to the end, if and only if no call takes a failure for it: when the demuxer misses,
    neither is the cursor at the end nor does the cache go on from it to the end. Then, when the
    stream is over, or as many calls as there are packets have found their first packet, all
    packets have been queued. -/
theorem packets_queued {S : Script δ} {pull : δ → Pull δ}
    (openMp4 : List UInt8 → Except String (List Packet)) (p : StreamPlayer δ) {d : δ}
    (is : List PlayerStep) (hS : S.GivenBy pull) (hg : p.reader.Good S.file)
    (ha : Goes (Playing.next pull openMp4) (Playing.Served S.file) { player := p } is)
    (hd : p.At d) (hc : S.count d = 0) (he : S.ended d = false) (hn : p.demuxDone = false) :
    (Goes (Playing.next pull openMp4) (Playing.EndsRight S pull openMp4) { player := p } is ↔
      Goes (Playing.next pull openMp4) (Playing.Patient S pull openMp4) { player := p } is) ∧
    (Goes (Playing.next pull openMp4) (Playing.Patient S pull openMp4) { player := p } is →
      let s := is.foldl (Playing.next pull openMp4) { player := p }
      s.player.demuxDone = true ∨
          S.packets.length ≤ Playing.countFinds S pull openMp4 { player := p } is →
        s.seenV = S.packets.filterMap p.asVideo ∧ s.seenA = S.packets.filterMap p.asAudio) := by
  have hq : Playing.Queued S p.asVideo p.asAudio { player := p } d :=
    ⟨hd, hg, rfl, rfl, hc ▸ Nat.zero_le _, fun h => Bool.noConfusion (he.symm.trans h),
      by rw [hc]; rfl, by rw [hc]; rfl⟩
  have hr : p.EndsRight S := fun h => Bool.noConfusion (hn.symm.trans h)
  constructor
  · suffices hs : ∀ (s : Playing δ) d, Playing.Queued S p.asVideo p.asAudio s d →
        s.player.EndsRight S → Goes (Playing.next pull openMp4) (Playing.Served S.file) s is →
        (Goes (Playing.next pull openMp4) (Playing.EndsRight S pull openMp4) s is ↔
          Goes (Playing.next pull openMp4) (Playing.Patient S pull openMp4) s is) from
      hs _ d hq hr ha
    clear ha
    induction is with
    | nil => exact fun _ _ _ _ _ => Iff.rfl
    | cons i is ih =>
      intro s d hq hr ha
      rw [Goes, Goes, ← Playing.endsRight_iff hS hq.at_ hq.good hr]
      refine and_congr_right fun hu => ?_
      obtain ⟨d', hq', -⟩ := hq.step hS openMp4 ha.1
      exact ih _ d' hq' hu ha.2
  · intro hp s hx
    obtain ⟨d', hq', hr', hle⟩ := hq.run hS hr ha hp
    have hall : S.count d' = S.packets.length := by
      rcases hx with hdone | hf
      · exact hq'.ended (hr' hdone d' hq'.at_)
      · have := hq'.count_le
        omega
    have hv := hq'.seenV
    have ha := hq'.seenA
    rw [hall, List.take_length] at hv ha
    exact ⟨hv, ha⟩

/-! ### A packet far from the cursor -/

/-- A demuxer of one packet, the byte at the start of the file. -/
def firstByte : Nat → Pull Nat
  | 0 => .seek (.start 0) fun _ => .read 1 {} fun
    | .ok bytes => .done (.packet { pts := some 0, data := bytes }) 1
    | .error _ => .done .error 0
  | _ => .done .eof 2

/-- A file of four bytes with one packet. -/
def shortFilm : Script Nat where
  file := [1, 2, 3, 4]
  packets := [{ pts := some 0, data := [1] }]
  count d := min d 1
  ended d := 1 < d

theorem firstByte_gives : shortFilm.GivenBy firstByte := by
  intro d r hg
  cases d with
  | zero =>
    have hr : r.seek (.start 0) = (.ok 0, { r with pos := 0 }) := rfl
    have hg' : HttpRangeReader.Good shortFilm.file { r with pos := 0 } :=
      ⟨hg.shared, hg.localFile⟩
    rw [firstByte, Pull.run, Pull.misses, hr, Pull.run, Pull.misses]
    cases hx : (HttpRangeReader.readNow { r with pos := 0 } 1 {}).1 with
    | error e => exact ⟨rfl, rfl, rfl⟩
    | ok bs =>
      obtain ⟨hp, hle, hlt⟩ := hg'.readNow_right hx
      have hbs : bs = [1] := by
        rw [List.prefix_iff_eq_take.1 hp, Nat.le_antisymm hle (hlt (Nat.succ_pos 3) Nat.one_pos)]
        rfl
      rw [hbs]
      exact .inl ⟨_, rfl, rfl, rfl, rfl⟩
  | succ d =>
    have hn : shortFilm.count (d + 1) = 1 := Nat.min_eq_right (Nat.succ_pos d)
    exact .inr ⟨rfl, hn, hn.symm, rfl⟩

/-- The reader when the file has been opened: the last byte is in the cache. -/
def probed : HttpRangeReader :=
  ([.seek (.start 3), .read 1 {}, .answered (.response ⟨206, "", none, none, .ok [4]⟩),
    .markStreaming].foldl Reading.next { reader := .new 4 }).reader

/-- The player of the file. -/
def shortPlayer (reader : HttpRangeReader) : StreamPlayer Nat :=
  { video := true
    demux := .ox { dmx := 0, videoStream := 0, audioStream := 1,
                   vNum := 1, vDen := 25, aNum := 1, aDen := 48000 }
    reader
    prefetch := true }

/-- The packet is fetched before the demuxer is asked for it. -/
theorem packets_queued_sample :
    ([.drivePrefetch, .complete 0 (.response ⟨206, "", none, none, .ok [1, 2, 3, 4]⟩),
        .fill 3 {}].foldl (Playing.next firstByte fun _ => .ok [])
      { player := shortPlayer (.new 4) }).seenV =
      [{ ptsUs := 0, keyframe := false, data := [1] }] := by
  have ha : Goes (Playing.next firstByte fun _ => .ok []) (Playing.Served shortFilm.file)
      { player := shortPlayer (.new 4) }
      [.drivePrefetch, .complete 0 (.response ⟨206, "", none, none, .ok [1, 2, 3, 4]⟩),
        .fill 3 {}] := by
    refine ⟨nofun, ?_, nofun, trivial⟩
    rintro _ _ _ ⟨⟩ ⟨⟩
    refine ⟨fun _ hb => ?_, fun _ _ => nofun⟩
    cases hb
    exact ⟨fun _ => ⟨List.cons_ne_nil _ _, by decide⟩, nofun⟩
  obtain ⟨hi, hq⟩ := packets_queued (fun _ => .ok []) (shortPlayer (.new 4)) _ firstByte_gives
    ⟨⟨nofun, nofun, Nat.zero_le _, rfl⟩, nofun⟩ ha rfl rfl rfl rfl
  refine (hq (hi.1 ⟨?_, ?_, ?_, trivial⟩) (.inl ?_)).1
  · exact fun h => absurd h (by decide)
  · exact fun h => absurd h (by decide)
  · intro _ d hd
    obtain rfl : 2 = d := Option.some.inj (Eq.trans (by decide) hd)
    decide
  · decide

/-- When the file has been opened the cursor is at its end. The packet, at its start, is not in
    the cache: the first call takes that for the end, and nothing has been queued. -/
theorem miss_taken_for_end :
    shortFilm.GivenBy firstByte ∧
    ¬ Goes (Playing.next firstByte fun _ => .ok [])
      (Playing.EndsRight shortFilm firstByte fun _ => .ok []) { player := shortPlayer probed }
      [.fill 2 {}] := by
  refine ⟨firstByte_gives, fun h => ?_⟩
  exact absurd (h.1 (by decide) 0 (by unfold StreamPlayer.At; decide)) (by decide)

end Wandr.Media
