import Wandr.Lib.Machine
import Wandr.Lib.Splice
import Wandr.AudioPlayer.Decode
import Wandr.AudioPlayer.Order

/-!
# Without gaps

Tracks of one layout are written to the device one after the other, or overlaid where one is blended
into the next; whatever the device takes of each write, no sample is lost or repeated but those of a
track that is blended out. A segment begins with the first frame of its track.

* `Playlist`: what is played;
* `Solo`, `Blend`: how far it is, while one track is decoded and while two are;
* `gapless`: in a run, what is written is whole, segments begin where their tracks do, and the
  position that is shown is the one that is heard.
-/

namespace Wandr.AudioPlayer

open Splice

variable {S D : Type} [Dsp S D]

/-- An order of tracks that open with one layout, and whose packets have whole frames. -/
structure Playlist (S D : Type) [Dsp S D] where
  /-- What the device has been given before. -/
  before : List S
  order : List Nat
  start : Nat
  src : Nat → Source S D
  stereo : Bool
  start_lt : start < order.length
  channels : ∀ lib ∈ order, (src lib).channels = if stereo then 2 else 1
  fresh : ∀ lib ∈ order, Dsp.resetEq S (src lib).dsp = (src lib).dsp
  whole : ∀ lib ∈ order, ∀ samples, .audio samples ∈ (src lib).packets →
    (if stereo then 2 else 1) ∣ samples.length
  process : ∀ (d : D) (samples : List S), (if stereo then 2 else 1) ∣ samples.length →
    (if stereo then 2 else 1) ∣ (Dsp.process d samples).1.length

namespace Playlist

variable (P : Playlist S D)

def ch : Nat := if P.stereo then 2 else 1

/-- The place in the order of a track that is played. -/
def place (i : Nat) : Nat := (P.start + i) % P.order.length

/-- The track that is played after `i` others. -/
def track (i : Nat) : Nat := P.order[P.place i]?.getD 0

def samples (i : Nat) : List S := rendered (P.src (P.track i)).dsp (P.src (P.track i)).packets

variable {P} {i : Nat}

theorem place_lt : P.place i < P.order.length :=
  Nat.mod_lt _ (Nat.lt_of_le_of_lt (Nat.zero_le _) P.start_lt)

theorem order_place : P.order[P.place i]? = some (P.track i) := by
  unfold track
  rw [List.getElem?_eq_getElem place_lt]
  rfl

theorem track_mem : P.track i ∈ P.order := List.mem_of_getElem? order_place

theorem ch_pos : 0 < P.ch := by
  unfold ch
  split <;> decide

theorem max_ch : max P.ch 1 = P.ch := Nat.max_eq_left ch_pos

theorem outLayoutStereo_ch : outLayoutStereo P.ch = P.stereo := by
  unfold ch
  cases P.stereo <;> rfl

end Playlist

variable {P : Playlist S D} {e : Env S D} {s t : State S D} {i a n : Nat} {l : Loaded S D}

/-! ## A track -/

/-- The track `l` is the one that is played after `i` others, and its first `a` samples have been
written. -/
structure Head (P : Playlist S D) (i a : Nat) (l : Loaded S D) : Prop where
  lib : l.lib = P.track i
  channels : l.channels = P.ch
  totalFrames : l.totalFrames = (P.src (P.track i)).totalFrames
  base : l.base = 0
  left : l.left = (P.samples i).drop a
  le : a ≤ (P.samples i).length
  whole : P.ch ∣ l.unwritten.length
  packets : ∀ samples, .audio samples ∈ l.packets → P.ch ∣ samples.length

namespace Head

omit [Dsp S D] in
theorem audio_decodePackets (ps : List (Packet S)) [Dsp S D] :
    ∀ samples, .audio samples ∈ (l.decodePackets ps).packets → .audio samples ∈ ps := by
  induction ps with
  | nil => exact fun _ h => absurd h List.not_mem_nil
  | cons p ps ih =>
    cases p with
    | foreign => exact fun samples h => List.mem_cons_of_mem _ (ih samples h)
    | broken => exact fun samples h => List.mem_cons_of_mem _ (ih samples h)
    | fatal => exact fun samples h => List.mem_cons_of_mem _ h
    | audio out => exact fun samples h => List.mem_cons_of_mem _ h

theorem whole_decodePackets (ps : List (Packet S))
    (hw : ∀ samples, .audio samples ∈ ps → P.ch ∣ samples.length) (hu : P.ch ∣ l.unwritten.length) :
    P.ch ∣ (l.decodePackets ps).unwritten.length := by
  induction ps with
  | nil => exact hu
  | cons p ps ih =>
    have ih' := ih fun samples h => hw samples (List.mem_cons_of_mem _ h)
    cases p with
    | foreign => exact ih'
    | broken => exact ih'
    | fatal => exact hu
    | audio out => exact P.process l.dsp out (hw out List.mem_cons_self)

theorem ch_eq (h : Head P i a l) : l.ch = P.ch := by
  unfold Loaded.ch
  rw [h.channels, Playlist.max_ch]

theorem decodeChunk (h : Head P i a l) (hu : l.unwritten = []) (he : l.eof = false) :
    Head P i a l.decodeChunk := by
  obtain ⟨hd, -⟩ := Loaded.decodePackets_spec (l := l) l.packets
  exact ⟨hd.lib.trans h.lib, hd.channels.trans h.channels, hd.totalFrames.trans h.totalFrames,
    hd.base.trans h.base, (Loaded.left_decodeChunk hu he).trans h.left, h.le,
    whole_decodePackets _ h.packets h.whole,
    fun samples hm => h.packets samples (audio_decodePackets _ samples hm)⟩

theorem segStarted_refill : (refill l).segStarted = l.segStarted := by
  unfold refill
  split
  · exact (Loaded.decodePackets_spec (l := l) l.packets).1.segStarted
  · rfl

theorem refill (h : Head P i a l) : Head P i a (refill l) := by
  unfold AudioPlayer.refill
  split
  · next hc =>
    rw [Bool.and_eq_true, decide_eq_true_eq, Bool.not_eq_true'] at hc
    exact h.decodeChunk (Loaded.unwritten_eq_nil.2 hc.1) hc.2
  · exact h

theorem advance (h : Head P i a l) (hn : n ≤ l.unwritten.length) (hd : P.ch ∣ n) :
    Head P i (a + n) (l.advance n) := by
  have hsame : (l.advance n).lib = l.lib ∧ (l.advance n).channels = l.channels ∧
      (l.advance n).totalFrames = l.totalFrames ∧ (l.advance n).base = l.base ∧
      (l.advance n).packets = l.packets := by
    unfold Loaded.advance
    split <;> exact ⟨rfl, rfl, rfl, rfl, rfl⟩
  obtain ⟨hlib, hch, htot, hbase, hpk⟩ := hsame
  have hlen : n ≤ (P.samples i).length - a := by
    have hl := congrArg List.length h.left
    unfold Loaded.left at hl
    rw [List.length_append, List.length_drop] at hl
    omega
  refine ⟨hlib.trans h.lib, hch.trans h.channels, htot.trans h.totalFrames, hbase.trans h.base,
    ?_, ?_, ?_, hpk ▸ h.packets⟩
  · rw [Loaded.left_advance hn, h.left, List.drop_drop]
  · have := h.le
    omega
  · rw [Loaded.unwritten_advance, List.length_drop]
    exact Nat.dvd_sub h.whole hd

/-- What is next written is next of the track. -/
theorem take_unwritten (h : Head P i a l) (hn : n ≤ l.unwritten.length) :
    l.unwritten.take n = ((P.samples i).drop a).take n := by
  rw [← h.left]
  unfold Loaded.left
  rw [List.take_append_of_le_length hn]

/-- A track that is drained has been written whole. -/
theorem eq_length (h : Head P i a l) (he : l.eof = true) (hu : l.unwritten = []) :
    a = (P.samples i).length := by
  have hl := h.left
  unfold Loaded.left at hl
  rw [he, hu] at hl
  have hle := List.drop_eq_nil_iff.1 hl.symm
  have := h.le
  omega

end Head

/-- The tracks open during a call. -/
def Playlist.Opens (P : Playlist S D) (e : Env S D) : Prop :=
  ∀ lib ∈ P.order, e.opens lib = some (P.src lib)

/-- A track that is opened. -/
theorem openTrack_spec (he : P.Opens e) (hl : ∀ lib ∈ P.order, lib < s.library.length) :
    ∃ l, openTrack e s (P.track i) = some l ∧ Head P i 0 l ∧ l.segStarted = false ∧
      { l with dsp := Dsp.resetEq S l.dsp } = l := by
  have hm : P.track i ∈ P.order := Playlist.track_mem
  unfold openTrack
  rw [if_pos (hl _ hm), he _ hm]
  refine ⟨_, rfl, ⟨rfl, P.channels _ hm, rfl, rfl, rfl, Nat.zero_le _, ?_, P.whole _ hm⟩, rfl, ?_⟩
  · exact Nat.dvd_zero _
  · dsimp only
    rw [P.fresh _ hm]

/-! ## Segments -/

/-- The segments `ps` are each of a track, and begin where it does; each sample from the first of
them on is of one of them. -/
structure Shown (P : Playlist S D) (own : List (Nat × Nat)) (i a : Nat) (ps : List (Nat × Seg))
    (segs : List Seg) (pb : Option Playback) : Prop where
  segs : segs = ps.map Prod.snd
  rel : ∀ p ∈ ps, p.2.libIndex = P.track p.1 ∧ p.2.base = 0 ∧
    p.2.totalFrames = (P.src (P.track p.1)).totalFrames ∧
    ∃ m, p.2.devStart * P.ch = P.before.length + m ∧ Starts own i a p.1 m
  inc : ps.Pairwise fun p q => p.1 < q.1
  covered : ∀ p, ps.head? = some p → ∀ o ∈ own, p.1 ≤ o.1 → ∃ q ∈ ps, q.1 = o.1
  front : ∀ p d, ps.head? = some p → pb = some d → p.2.devStart ≤ d.position
  empty : ∀ d, ps = [] → pb = some d → d.buffered = 0

namespace Shown

variable {own : List (Nat × Nat)} {ps : List (Nat × Seg)} {segs : List Seg} {pb : Option Playback}
  {d : Playback} {p : Nat × Seg}

theorem top (h : Shown P own i a ps segs pb) (hp : p ∈ ps) : p.1 ≤ i := by
  obtain ⟨-, -, -, m, -, hs⟩ := h.rel p hp
  exact hs.top

/-- More of the last track is written, which has its segment. -/
theorem play (h : Shown P own i a ps segs (some d)) (hm : ∃ p ∈ ps, p.1 = i) (n : Nat) {b : Nat} :
    Shown P (own ++ (List.range n).map fun r => (i, a + r)) i (a + n) ps segs
      (some { d with buffered := b }) where
  segs := h.segs
  rel p hp := by
    obtain ⟨hl, hb, ht, m, hm, hs⟩ := h.rel p hp
    exact ⟨hl, hb, ht, m, hm, hs.play n⟩
  inc := h.inc
  covered p hp o ho hle := by
    rcases List.mem_append.1 ho with ho | ho
    · exact h.covered p hp o ho hle
    · obtain ⟨r, -, rfl⟩ := List.mem_map.1 ho
      exact hm
  front p d' hp hd := by
    cases hd
    exact h.front p d hp rfl
  empty d' hnil := by
    obtain ⟨p, hp, -⟩ := hm
    rw [hnil] at hp
    exact absurd hp List.not_mem_nil

/-- The next track. -/
theorem next (h : Shown P own i a ps segs pb) : Shown P own (i + 1) 0 ps segs pb where
  segs := h.segs
  rel p hp := by
    obtain ⟨hl, hb, ht, m, hm, hs⟩ := h.rel p hp
    exact ⟨hl, hb, ht, m, hm, hs.next⟩
  inc := h.inc
  covered := h.covered
  front := h.front
  empty := h.empty

/-- The segment of the last track, of which nothing has been written. -/
theorem push (h : Shown P own i 0 ps segs (some d)) (hi : ∀ p ∈ ps, p.1 ≠ i)
    (hown : ∀ o ∈ own, o.1 < i)
    (hlen : (d.position + d.buffered) * P.ch = P.before.length + own.length) (n : Nat) :
    Shown P own i 0
      (ps ++ [(i, ⟨n, P.track i, (P.src (P.track i)).totalFrames, d.position + d.buffered, 0⟩)])
      (segs ++ [⟨n, P.track i, (P.src (P.track i)).totalFrames, d.position + d.buffered, 0⟩])
      (some d) where
  segs := by
    rw [List.map_append, h.segs]
    rfl
  rel p hp := by
    rcases List.mem_append.1 hp with hp | hp
    · exact h.rel p hp
    · rw [List.mem_singleton.1 hp]
      exact ⟨rfl, rfl, rfl, own.length, hlen, .new hown⟩
  inc := by
    refine List.pairwise_append.2 ⟨h.inc, List.pairwise_singleton _ _, fun p hp q hq => ?_⟩
    rw [List.mem_singleton.1 hq]
    exact Nat.lt_of_le_of_ne (h.top hp) (hi p hp)
  covered p hp o ho hle := by
    cases ps with
    | nil =>
      cases hp
      exact absurd hle (Nat.not_le.2 (hown o ho))
    | cons p' ps =>
      obtain ⟨q, hq, he⟩ := h.covered p hp o ho hle
      exact ⟨q, List.mem_append_left _ hq, he⟩
  front p d' hp hd := by
    cases hd
    cases ps with
    | nil =>
      cases hp
      dsimp only
      rw [h.empty d rfl rfl]
      exact Nat.le_refl _
    | cons p' ps => exact h.front p d hp rfl
  empty d' hnil := absurd hnil (List.append_ne_nil_of_right_ne_nil _ (List.cons_ne_nil _ _))

/-- The device plays on. -/
theorem consume (h : Shown P own i a ps segs pb) (n : Nat) :
    Shown P own i a ps segs (pb.map fun d => d.consume n) where
  segs := h.segs
  rel := h.rel
  inc := h.inc
  covered := h.covered
  front p d hp hd := by
    obtain ⟨d', hd', rfl⟩ := Option.map_eq_some_iff.1 hd
    exact Nat.le_add_right_of_le (h.front p d' hp hd')
  empty d hnil hd := by
    obtain ⟨d', hd', rfl⟩ := Option.map_eq_some_iff.1 hd
    exact Nat.le_zero.1 (Nat.le_trans (Nat.sub_le _ _) (Nat.le_of_eq (h.empty d' hnil hd')))

/-- No segment is shown when everything has been played. -/
theorem clear (hb : ∀ d, pb = some d → d.buffered = 0) : Shown P own i a [] [] pb where
  segs := rfl
  rel p hp := absurd hp List.not_mem_nil
  inc := .nil
  covered p hp := by cases hp
  front p d hp := by cases hp
  empty d _ hd := hb d hd

/-- The segments that have been played are dropped, but for the last. -/
theorem drop (h : Shown P own i a ps segs (some d)) :
    ∃ ps', Shown P own i a ps' (dropPlayed d.position segs) (some d) ∧
      ((∃ p ∈ ps, p.1 = i) → ∃ p ∈ ps', p.1 = i) ∧ (∀ p ∈ ps', p ∈ ps) ∧
      ∀ p q rest, ps' = p :: q :: rest → d.position < q.2.devStart := by
  induction ps generalizing segs with
  | nil =>
    have hsegs := h.segs
    subst hsegs
    exact ⟨[], h, id, fun _ hp => hp, fun _ _ _ he => by cases he⟩
  | cons p ps ih =>
    have hsegs := h.segs
    subst hsegs
    cases ps with
    | nil => exact ⟨[p], h, id, fun _ hp => hp, fun _ _ _ he => by cases he⟩
    | cons q rest =>
      rw [List.map_cons, List.map_cons, dropPlayed]
      split
      · next hge =>
        have hlt := (List.pairwise_cons.1 h.inc).1 q List.mem_cons_self
        have h' : Shown P own i a (q :: rest) (q.2 :: rest.map Prod.snd) (some d) := by
          refine ⟨rfl, fun p' hp' => h.rel p' (List.mem_cons_of_mem _ hp'),
            (List.pairwise_cons.1 h.inc).2, fun p' hp' o ho hle => ?_, fun p' d' hp' hd => ?_,
            fun _ he => by cases he⟩
          · cases hp'
            obtain ⟨q', hq', he⟩ := h.covered p rfl o ho (by omega)
            rcases List.mem_cons.1 hq' with rfl | hq'
            · omega
            · exact ⟨q', hq', he⟩
          · cases hp'
            cases hd
            exact hge
        obtain ⟨ps', hs, hi, hsub, hnext⟩ := ih h'
        refine ⟨ps', hs, fun ⟨p', hp', he⟩ => hi ?_, fun p' hp' =>
          List.mem_cons_of_mem _ (hsub p' hp'), hnext⟩
        rcases List.mem_cons.1 hp' with rfl | hp'
        · have := h.top (List.mem_cons_of_mem _ List.mem_cons_self : q ∈ p' :: q :: rest)
          omega
        · exact ⟨p', hp', he⟩
      · next hge =>
        refine ⟨p :: q :: rest, h, id, fun _ hp => hp, fun p' q' rest' he => ?_⟩
        cases he
        exact Nat.not_le.1 hge

end Shown

/-! ## States -/

/-- What is the same throughout. -/
structure Wired (P : Playlist S D) (s : State S D) (d : Playback) : Prop where
  scanned : s.scanned = true
  order : s.order = P.order
  library : ∀ lib ∈ P.order, lib < s.library.length
  playing : s.playing = true
  unblocked : s.gaplessBlocked = false
  pbStereo : s.pbStereo = P.stereo
  pb : s.pb = some d
  stereo : d.stereo = P.stereo
  log : (d.position + d.buffered) * P.ch = s.log.length

/-- How a sample is blended with one of the track before. -/
def blendAt (P : Playlist S D) (dur : Nat) (t : Nat) : S → S → S := Dsp.blend D (t / P.ch) dur

/-- What has been written, and which sample of which track each of it is. -/
abbrev Written (P : Playlist S D) (dur : Nat) : Nat → Nat → List S → List (Nat × Nat) → Prop :=
  Played P.samples (blendAt P dur) (dur ≠ 0) P.before

/-- One track is decoded. -/
structure Solo (P : Playlist S D) (i a : Nat) (own : List (Nat × Nat)) (ps : List (Nat × Seg))
    (d : Playback) (l : Loaded S D) (s : State S D) : Prop where
  wired : Wired P s d
  xfade : s.xfade = none
  loaded : s.loaded = some l
  head : Head P i a l
  place : s.decodeOrder = P.place i
  last : s.repeating = true ∨ P.start + i < P.order.length
  written : Written P s.xfadeFrames i a s.log own
  shown : Shown P own i a ps s.segments s.pb
  started : l.segStarted = true → ∃ p ∈ ps, p.1 = i
  fresh : l.segStarted = false → a = 0 ∧ ∀ p ∈ ps, p.1 ≠ i

/-- Two tracks are decoded, and the first `n` samples of the second are blended with some of the
first. -/
structure Blend (P : Playlist S D) (i a n : Nat) (own : List (Nat × Nat)) (log : List S)
    (ps : List (Nat × Seg)) (d : Playback) (l : Loaded S D) (x : Xfade S D) (s : State S D) :
    Prop where
  wired : Wired P s d
  xfade : s.xfade = some x
  loaded : s.loaded = some l
  head : Head P i (a + n) l
  next : Head P (i + 1) n x.next
  order : x.order = P.place (i + 1)
  last : s.repeating = true ∨ P.start + (i + 1) < P.order.length
  dur : x.dur = s.xfadeFrames
  on : s.xfadeFrames ≠ 0
  pos : n = x.pos * P.ch
  written : Written P s.xfadeFrames i a log own
  log : s.log = log ++ overlay (blendAt P s.xfadeFrames) (((P.samples i).drop a).take n)
    ((P.samples (i + 1)).take n)
  shown : Shown P (own ++ (List.range n).map fun r => (i + 1, r)) (i + 1) n ps s.segments s.pb
  here : ∃ p ∈ ps, p.1 = i + 1
  started : x.next.segStarted = true

variable {own : List (Nat × Nat)} {ps : List (Nat × Seg)} {d : Playback}

theorem Wired.channels (h : Wired P s d) : d.channels = P.ch := by
  unfold Playback.channels Playlist.ch
  rw [h.stereo]

/-- Frames are written. -/
theorem Wired.write (h : Wired P s d) {samples : List S} {k : Nat} (ts : List Nat)
    (hk : k * P.ch ≤ samples.length) :
    Wired P { s with
      takes := ts
      pb := some { d with buffered := d.buffered + k }
      log := s.log ++ samples.take (k * P.ch) } { d with buffered := d.buffered + k } := by
  refine ⟨h.scanned, h.order, h.library, h.playing, h.unblocked, h.pbStereo, rfl, h.stereo, ?_⟩
  dsimp only
  rw [List.length_append, List.length_take, Nat.min_eq_left hk, ← h.log, ← Nat.add_mul,
    Nat.add_assoc]

theorem Wired.consume (h : Wired P s d) (n : Nat) :
    Wired P { s with pb := s.pb.map fun d => d.consume n } (d.consume n) := by
  refine ⟨h.scanned, h.order, h.library, h.playing, h.unblocked, h.pbStereo, ?_, h.stereo, ?_⟩
  · dsimp only
    rw [h.pb]
    rfl
  · have hsum : (d.consume n).position + (d.consume n).buffered = d.position + d.buffered := by
      unfold Playback.consume
      dsimp only
      omega
    rw [hsum]
    exact h.log

theorem nextDecodeOrder_spec (ho : s.order = P.order) (hp : s.decodeOrder = P.place i)
    (hl : s.repeating = true ∨ P.start + i < P.order.length) :
    nextDecodeOrder s = some (P.place (i + 1)) ∧
        (s.repeating = true ∨ P.start + (i + 1) < P.order.length) ∨
      nextDecodeOrder s = none ∧ s.repeating = false ∧ P.start + i + 1 = P.order.length := by
  have hlen : 0 < P.order.length := Nat.lt_of_le_of_lt (Nat.zero_le _) P.start_lt
  unfold nextDecodeOrder
  rw [ho, hp]
  unfold Playlist.place
  split
  · next hlt =>
    refine .inl ⟨congrArg some ?_, hl.imp_right fun h => ?_⟩
    · rw [← Nat.add_assoc, Nat.add_mod (P.start + i) 1]
      by_cases h1 : P.order.length = 1
      · rw [h1] at hlt
        omega
      · rw [Nat.mod_eq_of_lt (by omega : 1 < P.order.length), Nat.mod_eq_of_lt hlt]
    · rw [Nat.mod_eq_of_lt h] at hlt
      omega
  · next hge =>
    split
    · next hr =>
      rw [Bool.and_eq_true] at hr
      refine .inl ⟨congrArg some ?_, .inl hr.1⟩
      have hm := Nat.mod_lt (P.start + i) hlen
      have heq : (P.start + i) % P.order.length + 1 = P.order.length := by omega
      rw [← Nat.add_assoc, ← Nat.mod_add_mod, heq, Nat.mod_self]
    · next hr =>
      have hne : P.order.isEmpty = false := by
        rw [Bool.eq_false_iff]
        intro he
        rw [List.isEmpty_iff.1 he] at hlen
        exact absurd hlen (Nat.lt_irrefl 0)
      rw [hne, Bool.not_false, Bool.and_true, Bool.not_eq_true] at hr
      refine .inr ⟨rfl, hr, ?_⟩
      rcases hl with h | h
      · rw [hr] at h
        cases h
      · rw [Nat.mod_eq_of_lt h] at hge
        omega

/-! ## Steps -/

namespace Solo

theorem length_log (h : Solo P i a own ps d l s) : s.log.length = P.before.length + own.length :=
  h.written.length_eq.symm

/-- A packet is decoded. -/
theorem decodeMore (h : Solo P i a own ps d l s) (hu : l.unwritten = []) (he : l.eof = false) :
    Solo P i a own ps d l.decodeChunk (decodeMore s) := by
  have hst : l.decodeChunk.segStarted = l.segStarted :=
    (Loaded.decodePackets_spec (l := l) l.packets).1.segStarted
  refine ⟨?_, h.xfade, ?_, h.head.decodeChunk hu he, h.place, h.last, h.written, h.shown, ?_, ?_⟩
  · exact ⟨h.wired.scanned, h.wired.order, h.wired.library, h.wired.playing, h.wired.unblocked,
      h.wired.pbStereo, h.wired.pb, h.wired.stereo, h.wired.log⟩
  · unfold AudioPlayer.decodeMore
    rw [h.loaded]
    rfl
  · rw [hst]
    exact h.started
  · rw [hst]
    exact h.fresh

/-- The next track is opened. -/
theorem opens (h : Solo P i a own ps d l s) (he : P.Opens e) {no : Nat}
    (hno : nextDecodeOrder s = some no) :
    no = P.place (i + 1) ∧ (s.repeating = true ∨ P.start + (i + 1) < P.order.length) ∧
      s.order[no]? = some (P.track (i + 1)) ∧
      ∃ next, openTrack e s (P.track (i + 1)) = some next ∧ Head P (i + 1) 0 next ∧
        next.segStarted = false ∧ { next with dsp := Dsp.resetEq S next.dsp } = next ∧
        outLayoutStereo next.channels = s.pbStereo := by
  rcases nextDecodeOrder_spec h.wired.order h.place h.last with ⟨hn, hl⟩ | ⟨hn, -⟩
  · rw [hn] at hno
    cases hno
    obtain ⟨next, hopen, hhead, hst, hreset⟩ := openTrack_spec (i := i + 1) he h.wired.library
    refine ⟨rfl, hl, ?_, next, hopen, hhead, hst, hreset, ?_⟩
    · rw [h.wired.order]
      exact Playlist.order_place
    · rw [hhead.channels, Playlist.outLayoutStereo_ch, h.wired.pbStereo]
  · rw [hn] at hno
    cases hno

/-- The next track begins to be blended in, or nothing happens. -/
theorem maybeStartXfade (h : Solo P i a own ps d l s) (he : P.Opens e) :
    maybeStartXfade e s = s ∨
      ∃ ps' x, Blend P i a 0 own s.log ps' d l x (maybeStartXfade e s) := by
  unfold AudioPlayer.maybeStartXfade
  rw [h.xfade, h.loaded, h.wired.pb]
  split
  · exact .inl rfl
  next hon =>
  rw [not_or] at hon
  dsimp only
  split
  · exact .inl rfl
  split
  · exact .inl rfl
  next no hno =>
  obtain ⟨rfl, hlast, hat, next, hopen, hhead, -, -, hlayout⟩ := h.opens he hno
  rw [hat]
  dsimp only [Option.bind_some, Option.getD_some]
  rw [hopen]
  dsimp only
  rw [if_neg (not_not_intro hlayout)]
  have hshown := h.shown
  rw [h.wired.pb] at hshown
  have hpush := hshown.next.push (fun p hp => Nat.ne_of_lt (Nat.lt_succ_of_le (hshown.top hp)))
    (fun o ho => Nat.lt_succ_of_le (h.written.owner_le o ho))
    (h.wired.log.trans h.length_log) (P.place (i + 1))
  refine .inr ⟨ps ++ [(i + 1, ⟨P.place (i + 1), P.track (i + 1),
      (P.src (P.track (i + 1))).totalFrames, d.position + d.buffered, 0⟩)], _,
    ⟨h.wired.scanned, h.wired.order, h.wired.library, h.wired.playing,
      h.wired.unblocked, h.wired.pbStereo, rfl, h.wired.stereo, h.wired.log⟩, rfl, rfl,
    h.head, ⟨hhead.lib, hhead.channels, hhead.totalFrames, hhead.base, hhead.left, hhead.le,
      hhead.whole, hhead.packets⟩, rfl, hlast, rfl, hon.1, (Nat.zero_mul _).symm, h.written, ?_, ?_,
    ⟨_, List.mem_append_right _ (List.mem_singleton.2 rfl), rfl⟩, rfl⟩
  · rw [List.take_zero, List.take_zero]
    exact (List.append_nil _).symm
  · rw [List.range_zero, List.map_nil, List.append_nil, hhead.totalFrames]
    exact hpush

omit [Dsp S D] in
theorem takes_ensureSeg : (AudioPlayer.ensureSeg s).takes = s.takes := by
  unfold AudioPlayer.ensureSeg
  split
  · split <;> rfl
  · rfl

/-- The segment of the track is there before its first sample is written. -/
theorem ensureSeg (h : Solo P i a own ps d l s) :
    ∃ ps', Solo P i a own ps' d { l with segStarted := true } (ensureSeg s) := by
  unfold AudioPlayer.ensureSeg
  rw [h.loaded, h.wired.pb]
  dsimp only
  split
  · next hst =>
    have hl : { l with segStarted := true } = l := by rw [← hst]
    rw [hl]
    exact ⟨ps, h⟩
  · next hst =>
    obtain ⟨rfl, hi⟩ := h.fresh (Bool.eq_false_iff.2 hst)
    have hshown := h.shown
    rw [h.wired.pb] at hshown
    have hown : ∀ o ∈ own, o.1 < i := fun o ho =>
      Nat.lt_of_le_of_ne (h.written.owner_le o ho) fun he =>
        absurd (h.written.owner_lt o ho he) (Nat.not_lt_zero _)
    have hpush := hshown.push hi hown (h.wired.log.trans h.length_log) s.decodeOrder
    have htrack : s.order[s.decodeOrder]?.getD 0 = P.track i := by
      rw [h.wired.order, h.place]
      rfl
    have hseg : (⟨s.decodeOrder, s.order[s.decodeOrder]?.getD 0, l.totalFrames,
        d.position + d.buffered, l.base⟩ : Seg) =
        ⟨s.decodeOrder, P.track i, (P.src (P.track i)).totalFrames, d.position + d.buffered,
          0⟩ := by
      rw [htrack, h.head.totalFrames, h.head.base]
    rw [hseg]
    exact ⟨_, ⟨h.wired.scanned, h.wired.order, h.wired.library, h.wired.playing,
      h.wired.unblocked, h.wired.pbStereo, rfl, h.wired.stereo, h.wired.log⟩, h.xfade, rfl,
      ⟨h.head.lib, h.head.channels, h.head.totalFrames, h.head.base, h.head.left, h.head.le,
        h.head.whole, h.head.packets⟩, h.place, h.last, h.written, hpush,
      fun _ => ⟨_, List.mem_append_right _ (List.mem_singleton.2 rfl), rfl⟩,
      fun hf => by cases hf⟩

/-- Some of what is decoded is written. -/
theorem write (h : Solo P i a own ps d l s) (hst : l.segStarted = true) :
    ∃ a' own' d' l', Solo P i a' own' ps d' l'
        { (write s l.unwritten).2 with
          loaded := (write s l.unwritten).2.loaded.map fun m =>
            m.advance ((write s l.unwritten).1 * m.ch) } ∧
      ((write s l.unwritten).1 ≠ 0 →
        (write s l.unwritten).2.takes.length < s.takes.length) := by
  obtain ⟨k, takes, hw, hk, -, htakes⟩ := write_spec h.wired.pb l.unwritten
  rw [hw, h.wired.channels]
  rw [h.wired.channels] at hk
  dsimp only
  rw [h.loaded, Option.map_some, h.head.ch_eq]
  have hle : k * P.ch ≤ l.unwritten.length :=
    Nat.le_trans (Nat.mul_le_mul_right _ hk) (Nat.div_mul_le_self _ _)
  have hhead := h.head.advance hle (Nat.dvd_mul_left _ _)
  have hsame : (l.advance (k * P.ch)).segStarted = true := by
    rw [← hst]
    unfold Loaded.advance
    split <;> rfl
  have hm := h.started hst
  have hshown := h.shown
  rw [h.wired.pb] at hshown
  have hwritten := h.written.play (k * P.ch) hhead.le
  rw [← h.head.take_unwritten hle] at hwritten
  have hwired := h.wired.write takes hle
  exact ⟨_, _, _, _, ⟨⟨hwired.scanned, hwired.order, hwired.library, hwired.playing,
    hwired.unblocked, hwired.pbStereo, rfl, hwired.stereo, hwired.log⟩, h.xfade, rfl, hhead,
    h.place, h.last, hwritten, hshown.play hm (k * P.ch), fun _ => hm,
    fun hf => by cases hsame.symm.trans hf⟩, htakes⟩

/-- All of the track has been written. -/
theorem drained (h : Solo P i a own ps d l s) (he : l.eof = true) (hu : l.unwritten = []) :
    Written P s.xfadeFrames i (P.samples i).length s.log own := by
  have ha := h.head.eq_length he hu
  rw [← ha]
  exact h.written

/-- The next track, when all of this one has been written. -/
theorem softAdvance (h : Solo P i a own ps d l s) (hopens : P.Opens e) (he : l.eof = true)
    (hu : l.unwritten = []) {no : Nat} (hno : nextDecodeOrder s = some no) :
    ∃ s' l', softAdvance e s no = some s' ∧ Solo P (i + 1) 0 own ps d l' s' ∧
      s'.takes = s.takes := by
  obtain ⟨rfl, hlast, hat, next, hopen, hhead, hst, -, hlayout⟩ := h.opens hopens hno
  unfold AudioPlayer.softAdvance
  rw [hat]
  dsimp only
  rw [hopen]
  dsimp only
  rw [if_neg (not_not_intro hlayout)]
  refine ⟨_, next, rfl, ⟨⟨h.wired.scanned, h.wired.order, h.wired.library, h.wired.playing,
    h.wired.unblocked, h.wired.pbStereo, h.wired.pb, h.wired.stereo, h.wired.log⟩, h.xfade, rfl,
    hhead, rfl, hlast, (h.drained he hu).next, h.shown.next, fun hs => ?_,
    fun _ => ⟨rfl, fun p hp => Nat.ne_of_lt (Nat.lt_succ_of_le (h.shown.top hp))⟩⟩, rfl⟩
  cases hst.symm.trans hs

end Solo

/-- One track is decoded, or two are. -/
def Going (P : Playlist S D) (s : State S D) : Prop :=
  (∃ i a own ps d l, Solo P i a own ps d l s) ∨
    ∃ i a n own log ps d l x, Blend P i a n own log ps d l x s

namespace Blend

variable {log : List S} {x : Xfade S D}

/-- Packets are decoded where nothing is left of the last ones. -/
theorem refill (h : Blend P i a n own log ps d l x s) :
    Blend P i a n own log ps d (refill l) { x with next := refill x.next }
      { s with loaded := some (refill l), xfade := some { x with next := refill x.next } } :=
  ⟨⟨h.wired.scanned, h.wired.order, h.wired.library, h.wired.playing, h.wired.unblocked,
    h.wired.pbStereo, h.wired.pb, h.wired.stereo, h.wired.log⟩, rfl, rfl, h.head.refill,
    h.next.refill, h.order, h.last, h.dur, h.on, h.pos, h.written, h.log, h.shown, h.here,
    Head.segStarted_refill.trans h.started⟩

/-- The track that is blended in is the one that is decoded. -/
theorem finish (h : Blend P i a n own log ps d l x s) : Going P (xfadeFinish s) := by
  have hover := h.written.overlay n h.on h.head.le h.next.le
  rw [← h.log] at hover
  unfold xfadeFinish
  rw [h.xfade]
  exact .inl ⟨i + 1, n, _, ps, d, x.next, ⟨h.wired.scanned, h.wired.order, h.wired.library,
    h.wired.playing, h.wired.unblocked, h.wired.pbStereo, h.wired.pb, h.wired.stereo, h.wired.log⟩,
    rfl, rfl, h.next, h.order, h.last, hover, h.shown, fun _ => h.here,
    fun hf => by cases h.started.symm.trans hf⟩

/-- Some of the blend is written. -/
theorem write (h : Blend P i a n own log ps d l x s) {m : Nat} (hm : m ≤ l.unwritten.length / l.ch)
    (hm' : m ≤ x.next.unwritten.length / l.ch) :
    ∃ k takes, AudioPlayer.write s (mixSamples D l.ch x.pos x.dur (l.unwritten.take (m * l.ch))
        (x.next.unwritten.take (m * l.ch))) = (k, { s with
          takes
          pb := some { d with buffered := d.buffered + k }
          log := s.log ++ (mixSamples D l.ch x.pos x.dur (l.unwritten.take (m * l.ch))
            (x.next.unwritten.take (m * l.ch))).take (k * P.ch) }) ∧
      (k ≠ 0 → takes.length < s.takes.length) ∧
      Blend P i a (n + k * P.ch) own log ps { d with buffered := d.buffered + k }
        (l.advance (k * l.ch)) { x with next := x.next.advance (k * l.ch), pos := x.pos + k }
        { s with
          takes
          pb := some { d with buffered := d.buffered + k }
          log := s.log ++ (mixSamples D l.ch x.pos x.dur (l.unwritten.take (m * l.ch))
            (x.next.unwritten.take (m * l.ch))).take (k * P.ch)
          loaded := some (l.advance (k * l.ch))
          xfade := some { x with next := x.next.advance (k * l.ch), pos := x.pos + k } } := by
  rw [h.head.ch_eq] at hm hm' ⊢
  have hlen : m * P.ch ≤ l.unwritten.length :=
    Nat.le_trans (Nat.mul_le_mul_right _ hm) (Nat.div_mul_le_self _ _)
  have hlen' : m * P.ch ≤ x.next.unwritten.length :=
    Nat.le_trans (Nat.mul_le_mul_right _ hm') (Nat.div_mul_le_self _ _)
  have hmix : mixSamples D P.ch x.pos x.dur (l.unwritten.take (m * P.ch))
      (x.next.unwritten.take (m * P.ch)) =
        overlay (fun t => blendAt P s.xfadeFrames (t + n)) (l.unwritten.take (m * P.ch))
          (x.next.unwritten.take (m * P.ch)) := by
    unfold mixSamples overlay blendAt
    rw [h.dur, h.pos]
    refine congrArg (List.mapIdx · _) (funext fun t => funext fun p => ?_)
    dsimp only
    rw [Nat.add_mul_div_right _ _ Playlist.ch_pos, Nat.add_comm]
  have hmlen : (mixSamples D P.ch x.pos x.dur (l.unwritten.take (m * P.ch))
      (x.next.unwritten.take (m * P.ch))).length = m * P.ch := by
    rw [hmix, length_overlay, List.length_take, List.length_take, Nat.min_eq_left hlen,
      Nat.min_eq_left hlen', Nat.min_self]
  obtain ⟨k, takes, hw, hk, -, htakes⟩ := write_spec h.wired.pb (mixSamples D P.ch x.pos x.dur
    (l.unwritten.take (m * P.ch)) (x.next.unwritten.take (m * P.ch)))
  rw [h.wired.channels] at hw hk
  rw [hmlen, Nat.mul_div_cancel _ Playlist.ch_pos] at hk
  have hkm : k * P.ch ≤ m * P.ch := Nat.mul_le_mul_right _ hk
  have hwired := h.wired.write takes (hmlen.symm ▸ hkm)
  have hhead := h.head.advance (Nat.le_trans hkm hlen) (Nat.dvd_mul_left _ _)
  have hnext := h.next.advance (Nat.le_trans hkm hlen') (Nat.dvd_mul_left _ _)
  have hshown := h.shown
  rw [h.wired.pb] at hshown
  have hplay := hshown.play h.here (k * P.ch) (b := d.buffered + k)
  refine ⟨k, takes, hw, htakes, ⟨⟨hwired.scanned, hwired.order, hwired.library, hwired.playing,
    hwired.unblocked, hwired.pbStereo, rfl, hwired.stereo, hwired.log⟩, rfl, rfl,
    Nat.add_assoc a n _ ▸ hhead, hnext, h.order, h.last, h.dur, h.on, ?_, h.written, ?_, ?_,
    h.here, ?_⟩⟩
  · rw [h.pos, Nat.add_mul]
  · -- What is written of the blend goes on where it was.
    have hfst : ((P.samples i).drop a).take (n + k * P.ch) =
        ((P.samples i).drop a).take n ++ l.unwritten.take (k * P.ch) := by
      rw [List.take_add, List.drop_drop, h.head.take_unwritten (Nat.le_trans hkm hlen)]
    have hsnd : (P.samples (i + 1)).take (n + k * P.ch) =
        (P.samples (i + 1)).take n ++ x.next.unwritten.take (k * P.ch) := by
      rw [List.take_add, h.next.take_unwritten (Nat.le_trans hkm hlen')]
    have hn : (((P.samples i).drop a).take n).length = n := by
      have := h.head.le
      rw [List.length_take, List.length_drop]
      omega
    have hn' : ((P.samples (i + 1)).take n).length = n := by
      rw [List.length_take]
      exact Nat.min_eq_left h.next.le
    dsimp only
    rw [hmix, take_overlay, List.take_take, List.take_take, Nat.min_eq_left hkm, hfst, hsnd,
      overlay_append (hn.trans hn'.symm), hn, h.log, List.append_assoc]
  · have hrange : (List.range n).map (fun r => (i + 1, r)) ++
        (List.range (k * P.ch)).map (fun r => (i + 1, n + r)) =
          (List.range (n + k * P.ch)).map fun r => (i + 1, r) := by
      rw [List.range_add, List.map_append, List.map_map]
      rfl
    rw [List.append_assoc, hrange] at hplay
    exact hplay
  · rw [← h.started]
    dsimp only
    unfold Loaded.advance
    split <;> rfl

theorem pumpXfade {m : Nat} (h : Blend P i a n own log ps d l x s) : Going P (pumpXfade m s) := by
  induction m generalizing n d l x s with
  | zero => exact .inr ⟨i, a, n, own, log, ps, d, l, x, h⟩
  | succ m ih =>
    rw [AudioPlayer.pumpXfade, h.loaded, h.xfade]
    dsimp only [Option.map_some]
    have hr := h.refill
    generalize AudioPlayer.refill l = l' at hr
    generalize AudioPlayer.refill x.next = next' at hr
    split
    · exact hr.finish
    split
    · split
      · exact hr.finish
      · exact .inr ⟨i, a, n, own, log, ps, d, l', _, hr⟩
    have hla : (l'.pending.length - l'.pendingPos) / l'.ch = l'.unwritten.length / l'.ch := by
      unfold Loaded.unwritten
      rw [List.length_drop]
    have hna : (next'.pending.length - next'.pendingPos) / l'.ch =
        next'.unwritten.length / l'.ch := by
      unfold Loaded.unwritten
      rw [List.length_drop]
    rw [hla, hna]
    have hle := Nat.le_trans (Nat.min_le_left (min (l'.unwritten.length / l'.ch)
      (next'.unwritten.length / l'.ch)) (x.dur - x.pos)) (Nat.min_le_left _ _)
    have hle' := Nat.le_trans (Nat.min_le_left (min (l'.unwritten.length / l'.ch)
      (next'.unwritten.length / l'.ch)) (x.dur - x.pos)) (Nat.min_le_right _ _)
    generalize min (min (l'.unwritten.length / l'.ch) (next'.unwritten.length / l'.ch))
      (x.dur - x.pos) = k at hle hle'
    obtain ⟨accepted, takes, hw, -, hb⟩ := hr.write hle hle'
    rw [hw]
    dsimp only
    split
    · next h0 =>
      -- Nothing was taken of it.
      subst h0
      refine .inr ⟨i, a, n, own, log, ps, { d with buffered := d.buffered + 0 }, l',
        { x with next := next' }, ?_⟩
      exact ⟨⟨hb.wired.scanned, hb.wired.order, hb.wired.library, hb.wired.playing,
        hb.wired.unblocked, hb.wired.pbStereo, rfl, hb.wired.stereo, hb.wired.log⟩, rfl, rfl,
        hr.head, hr.next, hr.order, hr.last, hr.dur, hr.on, hr.pos, hr.written, by
          rw [Nat.zero_mul, List.take_zero, List.append_nil]
          exact hr.log, by
          have hs := hr.shown
          rw [hr.wired.pb] at hs
          exact hs, hr.here, hr.started⟩
    · exact ih hb

end Blend

namespace Going

/-- After a round there is another only if the device has taken something, or less of the track is
left to be decoded, or it is over and the next one is opened. -/
theorem pumpRound (h : Solo P i a own ps d l s) (he : P.Opens e) :
    Going P (pumpRound e s).2 ∧
      ((pumpRound e s).1 = true → ∃ i' a' own' ps' d' l',
        Solo P i' a' own' ps' d' l' (pumpRound e s).2 ∧
          ((pumpRound e s).2.takes.length < s.takes.length ∨
            (pumpRound e s).2.takes = s.takes ∧
              (i' = i ∧ a' = a ∧ l'.rest < l.rest ∨
                i' = i + 1 ∧ a' = 0 ∧ a = (P.samples i).length ∧
                  nextDecodeOrder s ≠ none))) := by
  unfold AudioPlayer.pumpRound
  rw [h.loaded]
  dsimp only
  split
  · obtain ⟨ps', hs⟩ := h.ensureSeg
    obtain ⟨a', own', d', l', hw, htakes⟩ := hs.write rfl
    rw [Solo.takes_ensureSeg] at htakes
    exact ⟨.inl ⟨_, _, _, _, _, _, hw⟩,
      fun hmore => ⟨_, _, _, _, _, _, hw, .inl (htakes (of_decide_eq_true hmore))⟩⟩
  next hp =>
  have hu := Loaded.unwritten_eq_nil.2 (Nat.not_lt.1 hp)
  split
  · next heof =>
    have hopen : l.eof = false := Bool.not_eq_true' _ ▸ heof
    have hd := h.decodeMore hu hopen
    rcases hd.maybeStartXfade he with hsame | ⟨ps', x, hb⟩
    · rw [hsame, hd.xfade]
      exact ⟨.inl ⟨_, _, _, _, _, _, hd⟩, fun _ => ⟨_, _, _, _, _, _, hd,
        .inr ⟨rfl, .inl ⟨rfl, rfl, Loaded.rest_decodeChunk hopen⟩⟩⟩⟩
    · rw [if_pos (by rw [hb.xfade]; rfl)]
      exact ⟨hb.pumpXfade, fun hf => by cases hf⟩
  next heof =>
  have heof' : l.eof = true := by
    cases hl : l.eof with
    | true => rfl
    | false => exact absurd (by rw [hl]; rfl) heof
  split
  · next hb => exact absurd (h.wired.unblocked.symm.trans hb) Bool.false_ne_true
  split
  · next no hno =>
    obtain ⟨s', l', hs', hsolo, htakes⟩ := h.softAdvance he heof' hu hno
    rw [hs']
    exact ⟨.inl ⟨_, _, _, _, _, _, hsolo⟩, fun _ => ⟨_, _, _, _, _, _, hsolo, .inr ⟨htakes, .inr
      ⟨rfl, rfl, h.head.eq_length heof' hu, Option.ne_none_iff_exists'.2 ⟨no, hno⟩⟩⟩⟩⟩
  · exact ⟨.inl ⟨_, _, _, _, _, _, h⟩, fun hf => by cases hf⟩

theorem pumpLoop {m : Nat} (h : Solo P i a own ps d l s) (he : P.Opens e) :
    Going P (pumpLoop e m s) := by
  induction m generalizing i a own ps d l s with
  | zero => exact .inl ⟨i, a, own, ps, d, l, h⟩
  | succ m ih =>
    obtain ⟨hg, hsolo⟩ := pumpRound h he
    rw [AudioPlayer.pumpLoop]
    split
    · next s' hs' =>
      rw [hs'] at hsolo
      obtain ⟨i', a', own', ps', d', l', h', -⟩ := hsolo rfl
      exact ih h'
    · next s' hs' =>
      rw [hs'] at hg
      exact hg

theorem pump (h : Going P s) (he : P.Opens e) : Going P (pump e s) := by
  unfold AudioPlayer.pump
  rcases h with ⟨i, a, own, ps, d, l, h⟩ | ⟨i, a, n, own, log, ps, d, l, x, h⟩
  · rw [h.wired.pb, h.loaded, h.xfade]
    dsimp only [Option.isNone]
    rw [if_neg (by decide), if_pos rfl]
    rcases h.maybeStartXfade he with hsame | ⟨ps', x, hb⟩
    · rw [hsame, h.xfade]
      exact pumpLoop h he
    · rw [if_pos (by rw [hb.xfade]; rfl)]
      exact hb.pumpXfade
  · have hx : ¬ s.xfade.isNone = true := by
      rw [h.xfade]
      exact Bool.false_ne_true
    rw [h.wired.pb, h.loaded]
    dsimp only [Option.isNone_some]
    rw [if_neg (by decide), if_neg hx, if_pos (by rw [h.xfade]; rfl)]
    exact h.pumpXfade

/-- How far it is, and what is shown. -/
theorem top (h : Going P s) : ∃ i a own ps d, Wired P s d ∧
    Written P s.xfadeFrames i a s.log own ∧ Shown P own i a ps s.segments s.pb := by
  rcases h with ⟨i, a, own, ps, d, l, h⟩ | ⟨i, a, n, own, log, ps, d, l, x, h⟩
  · exact ⟨i, a, own, ps, d, h.wired, h.written, h.shown⟩
  · have hover := h.written.overlay n h.on h.head.le h.next.le
    rw [← h.log] at hover
    exact ⟨i + 1, n, _, ps, d, h.wired, hover, h.shown⟩

theorem advanceAudible (h : Going P s) : Going P (advanceAudible s) := by
  rcases h with ⟨i, a, own, ps, d, l, h⟩ | ⟨i, a, n, own, log, ps, d, l, x, h⟩
  · have hshown := h.shown
    rw [h.wired.pb] at hshown
    obtain ⟨ps', hs, hi, hsub, -⟩ := hshown.drop
    refine .inl ⟨i, a, own, ps', d, l, ⟨h.wired.scanned, h.wired.order, h.wired.library,
      h.wired.playing, h.wired.unblocked, h.wired.pbStereo, h.wired.pb, h.wired.stereo,
      h.wired.log⟩, h.xfade, h.loaded, h.head, h.place, h.last, h.written, ?_,
      fun hst => hi (h.started hst),
      fun hst => ⟨(h.fresh hst).1, fun p hp => (h.fresh hst).2 p (hsub p hp)⟩⟩
    unfold AudioPlayer.advanceAudible
    rw [h.wired.pb]
    exact hs
  · have hshown := h.shown
    rw [h.wired.pb] at hshown
    obtain ⟨ps', hs, hi, -, -⟩ := hshown.drop
    refine .inr ⟨i, a, n, own, log, ps', d, l, x, ⟨h.wired.scanned, h.wired.order,
      h.wired.library, h.wired.playing, h.wired.unblocked, h.wired.pbStereo, h.wired.pb,
      h.wired.stereo, h.wired.log⟩, h.xfade, h.loaded, h.head, h.next, h.order, h.last, h.dur,
      h.on, h.pos, h.written, h.log, ?_, hi h.here, h.started⟩
    unfold AudioPlayer.advanceAudible
    rw [h.wired.pb]
    exact hs

theorem consume (h : Going P s) (n : Nat) :
    Going P { s with pb := s.pb.map fun d => d.consume n } := by
  rcases h with ⟨i, a, own, ps, d, l, h⟩ | ⟨i, a, m, own, log, ps, d, l, x, h⟩
  · exact .inl ⟨i, a, own, ps, d.consume n, l, h.wired.consume n, h.xfade, h.loaded, h.head,
      h.place, h.last, h.written, h.shown.consume n, h.started, h.fresh⟩
  · exact .inr ⟨i, a, m, own, log, ps, d.consume n, l, x, h.wired.consume n, h.xfade, h.loaded,
      h.head, h.next, h.order, h.last, h.dur, h.on, h.pos, h.written, h.log, h.shown.consume n,
      h.here, h.started⟩

theorem takes (h : Going P s) (ts : List Nat) : Going P { s with takes := ts } := by
  rcases h with ⟨i, a, own, ps, d, l, h⟩ | ⟨i, a, m, own, log, ps, d, l, x, h⟩
  · exact .inl ⟨i, a, own, ps, d, l, ⟨h.wired.scanned, h.wired.order, h.wired.library,
      h.wired.playing, h.wired.unblocked, h.wired.pbStereo, h.wired.pb, h.wired.stereo,
      h.wired.log⟩, h.xfade, h.loaded, h.head, h.place, h.last, h.written, h.shown, h.started,
      h.fresh⟩
  · exact .inr ⟨i, a, m, own, log, ps, d, l, x, ⟨h.wired.scanned, h.wired.order, h.wired.library,
      h.wired.playing, h.wired.unblocked, h.wired.pbStereo, h.wired.pb, h.wired.stereo,
      h.wired.log⟩, h.xfade, h.loaded, h.head, h.next, h.order, h.last, h.dur, h.on, h.pos,
      h.written, h.log, h.shown, h.here, h.started⟩

end Going

/-! ## The engine -/

/-- Everything has been played. -/
structure Over (P : Playlist S D) (s : State S D) : Prop where
  scanned : s.scanned = true
  pb : s.pb = none
  playing : s.playing = false
  segments : s.segments = []
  repeating : s.repeating = false
  written : ∃ i own, Written P s.xfadeFrames i (P.samples i).length s.log own ∧
    P.start + i + 1 = P.order.length

/-- A track is loaded on a device of its layout. -/
theorem hardLoad_spec (he : P.Opens e) (hl : ∀ lib ∈ P.order, lib < s.library.length)
    (hat : s.order[n]? = some (P.track i)) (hpb : s.pb = some d) (hs : s.pbStereo = P.stereo) :
    ∃ l, Head P i 0 l ∧ l.segStarted = false ∧ hardLoad e s n true = { s with
      orderPos := n
      decodeOrder := n
      loaded := some l
      segments := []
      xfade := none
      gaplessBlocked := false
      ended := false
      swFrames := 0
      pb := some d.flush
      playing := true
      log := s.log.take (d.position * d.channels) } := by
  obtain ⟨l, hopen, hhead, hst, hreset⟩ := openTrack_spec (i := i) he hl
  have hlayout : outLayoutStereo l.channels = s.pbStereo := by
    rw [hhead.channels, Playlist.outLayoutStereo_ch, hs]
  refine ⟨l, hhead, hst, ?_⟩
  unfold hardLoad
  rw [hat]
  dsimp only
  rw [hopen]
  unfold closeOrFlush flush eqResetState play
  rw [hpb]
  dsimp only [Option.map_some, Option.getD_some]
  rw [if_neg (not_not_intro hlayout), if_pos rfl]
  dsimp only [Option.map_some]
  rw [hreset]

/-- A track is loaded, and the device is opened for it, if it is not open with its layout. -/
theorem hardLoad_open (he : P.Opens e) (hl : ∀ lib ∈ P.order, lib < s.library.length)
    (hat : s.order[n]? = some (P.track i)) (hdev : e.device = true)
    (hpb : s.pb = none ∨ s.pbStereo ≠ P.stereo) :
    ∃ l, Head P i 0 l ∧ l.segStarted = false ∧ hardLoad e s n true = { s with
      orderPos := n
      decodeOrder := n
      loaded := some l
      segments := []
      xfade := none
      gaplessBlocked := false
      ended := false
      swFrames := 0
      pb := some { stereo := P.stereo }
      pbStereo := P.stereo
      playing := true
      log := [] } := by
  obtain ⟨l, hopen, hhead, hst, hreset⟩ := openTrack_spec (i := i) he hl
  have hlayout : outLayoutStereo l.channels = P.stereo := by
    rw [hhead.channels, Playlist.outLayoutStereo_ch]
  have hnew : { l with dsp := Dsp.resetEq S l.dsp, segStarted := false } = l := by
    rw [← hst]
    exact hreset
  refine ⟨l, hhead, hst, ?_⟩
  unfold hardLoad
  rw [hat]
  dsimp only
  rw [hopen]
  have hclosed : (closeOrFlush { s with
      orderPos := n
      decodeOrder := n
      loaded := some l
      segments := []
      xfade := none
      gaplessBlocked := false
      ended := false
      swFrames := 0 }) = { s with
      orderPos := n
      decodeOrder := n
      loaded := some l
      segments := []
      xfade := none
      gaplessBlocked := false
      ended := false
      swFrames := 0
      pb := none } := by
    unfold closeOrFlush
    dsimp only
    split
    · next d hd =>
      rcases hpb with hpb | hpb
      · cases hpb.symm.trans hd
      · dsimp only [Option.map_some, Option.getD_some]
        rw [if_pos fun hc => hpb (hc.symm.trans hlayout)]
    · next hd => rw [hd]
  rw [hclosed]
  unfold eqResetState play
  dsimp only [Option.map_some]
  rw [if_pos rfl, if_pos hdev, hlayout]
  dsimp only
  rw [hnew]

theorem Going.finishTrack (h : Going P s) (he : P.Opens e) :
    Going P (finishTrack e s) ∨ Over P (finishTrack e s) := by
  unfold AudioPlayer.finishTrack
  split
  · next hc =>
    simp only [Bool.and_eq_true] at hc
    obtain ⟨⟨⟨hplay, hx⟩, hdr⟩, hbuf⟩ := hc
    rcases h with ⟨i, a, own, ps, d, l, h⟩ | ⟨i, a, m, own, log, ps, d, l, x, h⟩
    · rw [h.loaded, Option.map_some, Option.getD_some] at hdr
      rw [h.wired.pb, Option.map_some, Option.getD_some, beq_iff_eq] at hbuf
      unfold Loaded.drained at hdr
      rw [Bool.and_eq_true, decide_eq_true_eq] at hdr
      have hu := Loaded.unwritten_eq_nil.2 hdr.2
      split
      · next no hno =>
        obtain ⟨rfl, hlast, hat, -⟩ := h.opens he hno
        obtain ⟨l', hhead, hst, hload⟩ :=
          hardLoad_spec he h.wired.library hat h.wired.pb h.wired.pbStereo
        have hlog : s.log.take (d.position * d.channels) = s.log := by
          refine List.take_of_length_le (Nat.le_of_eq ?_)
          rw [h.wired.channels, ← h.wired.log, hbuf, Nat.add_zero]
        rw [hload, hlog]
        refine .inl (.inl ⟨i + 1, 0, own, [], d.flush, l', ⟨h.wired.scanned, h.wired.order,
          h.wired.library, rfl, rfl, h.wired.pbStereo, rfl, h.wired.stereo, ?_⟩, rfl, rfl, hhead,
          rfl, hlast, (h.drained hdr.1 hu).next, .clear fun d' hd => ?_,
          fun hs => (by cases hst.symm.trans hs),
          fun _ => ⟨rfl, fun p hp => absurd hp List.not_mem_nil⟩⟩)
        · have hlog := h.wired.log
          rw [hbuf] at hlog
          exact hlog
        · cases hd
          rfl
      · next hno =>
        rcases nextDecodeOrder_spec h.wired.order h.place h.last with ⟨hn, -⟩ | ⟨-, hr, hend⟩
        · rw [hn] at hno
          cases hno
        · exact .inr ⟨h.wired.scanned, rfl, rfl, rfl, hr, i, own, h.drained hdr.1 hu, hend⟩
    · rw [h.xfade] at hx
      cases hx
  · exact .inl h

theorem Going.tick (h : Going P s) (he : P.Opens e) :
    Going P (engineStep e s) ∨ Over P (engineStep e s) := by
  obtain ⟨i, a, own, ps, d, hw, -, -⟩ := h.top
  have hscan : firstScan e s = s := by
    unfold firstScan
    rw [if_pos hw.scanned]
  have hloaded : s.loaded.isNone = false := by
    rcases h with ⟨i, a, own, ps, d, l, h⟩ | ⟨i, a, m, own, log, ps, d, l, x, h⟩
    · rw [h.loaded]
      rfl
    · rw [h.loaded]
      rfl
  have ha := h.advanceAudible
  have hplaying : (AudioPlayer.advanceAudible s).playing = true := hw.playing
  unfold engineStep
  rw [hscan]
  dsimp only
  rw [hloaded, Bool.false_and, if_neg Bool.false_ne_true, if_pos hplaying]
  exact ((ha.pump he).consume e.drains).finishTrack he

namespace Over

/-- The player rests. -/
theorem engineStep (h : Over P s) : engineStep e s =
    if s.loaded.isNone then s else { s with pb := s.pb.map fun pb => pb.consume e.drains } := by
  have hscan : firstScan e s = s := by
    unfold firstScan
    rw [if_pos h.scanned]
  have haudible : advanceAudible s = s := by
    unfold advanceAudible
    rw [h.segments]
    dsimp only [dropPlayed, List.head?_nil, Option.map_none, Option.getD_none]
    rw [← h.segments]
  have hempty : (s.loaded.isNone && s.segments.isEmpty) = s.loaded.isNone := by
    rw [h.segments]
    exact Bool.and_true _
  have hpump : (if s.playing then pump e s else s) = s := by
    rw [h.playing]
    exact if_neg Bool.false_ne_true
  have hfinish {t : State S D} (ht : t.playing = false) : finishTrack e t = t := by
    unfold finishTrack
    rw [ht, Bool.false_and, Bool.false_and, Bool.false_and]
    exact if_neg Bool.false_ne_true
  unfold AudioPlayer.engineStep
  rw [hscan]
  dsimp only
  rw [haudible, hempty, hpump]
  split
  · rfl
  · exact hfinish h.playing

theorem consume (h : Over P s) (n : Nat) :
    Over P { s with pb := s.pb.map fun d => d.consume n } := by
  refine ⟨h.scanned, ?_, h.playing, h.segments, h.repeating, h.written⟩
  dsimp only
  rw [h.pb]
  rfl

theorem takes (h : Over P s) (ts : List Nat) : Over P { s with takes := ts } :=
  ⟨h.scanned, h.pb, h.playing, h.segments, h.repeating, h.written⟩

theorem tick (h : Over P s) : Over P (AudioPlayer.engineStep e s) := by
  rw [h.engineStep]
  split
  · exact h
  · exact h.consume e.drains

end Over

/-! ## Loops end -/

/-- There is a track with samples `k` tracks on, or the last one. -/
def Ahead (P : Playlist S D) (repeating : Bool) (i a k : Nat) : Prop :=
  P.samples (i + k) ≠ [] ∧ (a = 0 ∨ 0 < k) ∨
    repeating = false ∧ P.order.length ≤ P.start + i + k + 1

theorem Playlist.samples_add_mul (j m : Nat) :
    P.samples (j + m * P.order.length) = P.samples j := by
  have hplace : P.place (j + m * P.order.length) = P.place j := by
    unfold place
    rw [← Nat.add_assoc, Nat.add_mul_mod_self_right]
  unfold samples track
  rw [hplace]

theorem Ahead.exists {repeating : Bool} (h : repeating = false ∨ ∃ j, P.samples j ≠ []) :
    ∃ k, Ahead P repeating i a k := by
  rcases h with h | ⟨j, hj⟩
  · exact ⟨P.order.length, .inr ⟨h, by omega⟩⟩
  · have hlen : 1 ≤ P.order.length := Nat.lt_of_le_of_lt (Nat.zero_le _) P.start_lt
    have hle : i + 1 ≤ (i + 1) * P.order.length := Nat.le_mul_of_pos_right _ hlen
    refine ⟨j + (i + 1) * P.order.length - i, .inl ⟨?_, .inr (by omega)⟩⟩
    rw [Nat.add_sub_cancel' (by omega), Playlist.samples_add_mul]
    exact hj

/-- A track is left behind when all of it has been written, so there is one track less on the
    way. -/
theorem Ahead.next {k : Nat} (h : Ahead P s.repeating i a k) (hs : Solo P i a own ps d l s)
    (ha : a = (P.samples i).length) (hn : nextDecodeOrder s ≠ none) :
    ∃ k', k' < k ∧ Ahead P s.repeating (i + 1) 0 k' := by
  rcases h with ⟨hne, h0⟩ | ⟨hr, hlen⟩
  · have hk : 0 < k := by
      rcases h0 with rfl | hk
      · refine Nat.pos_of_ne_zero fun hk => ?_
        rw [hk] at hne
        exact hne (List.eq_nil_of_length_eq_zero ha.symm)
      · exact hk
    refine ⟨k - 1, Nat.sub_lt hk Nat.one_pos, .inl ⟨?_, .inl rfl⟩⟩
    have hi : i + 1 + (k - 1) = i + k := by omega
    rw [hi]
    exact hne
  · rcases nextDecodeOrder_spec hs.wired.order hs.place hs.last with ⟨-, hr' | hlt⟩ | ⟨hn', -⟩
    · rw [hr] at hr'
      cases hr'
    · exact ⟨k - 1, by omega, .inr ⟨hr, by omega⟩⟩
    · exact absurd hn' hn

theorem pumpLoop_rounds {r m : Nat} : pumpLoop { e with rounds := r } m s = pumpLoop e m s := by
  induction m generalizing s with
  | zero => rfl
  | succ m ih =>
    have hround : pumpRound { e with rounds := r } s = pumpRound e s := rfl
    rw [pumpLoop, pumpLoop, hround]
    split
    · exact ih
    · rfl

theorem pump_rounds (r : Nat) : pump { e with rounds := r } s =
    if s.pb.isNone || s.loaded.isNone then s
    else
      let t := if s.xfade.isNone then maybeStartXfade e s else s
      if t.xfade.isSome then pumpXfade (t.takes.length + 1) t else pumpLoop e r t := by
  have hstart : maybeStartXfade { e with rounds := r } s = maybeStartXfade e s := rfl
  unfold pump
  rw [hstart]
  dsimp only
  rw [pumpLoop_rounds]

/-- A blend goes on no longer than the device takes some of it. -/
theorem pumpXfade_fuel {m m' : Nat} (hm : s.takes.length < m) (hm' : s.takes.length < m') :
    pumpXfade m s = pumpXfade m' s := by
  induction m generalizing m' s with
  | zero => exact absurd hm (Nat.not_lt_zero _)
  | succ m ih =>
    obtain ⟨m', rfl⟩ := Nat.exists_eq_add_of_lt hm'
    rw [pumpXfade, pumpXfade]
    split
    · next l x _ _ =>
      dsimp only
      split
      · rfl
      split
      · rfl
      split
      · rfl
      · next h0 =>
        -- Another round takes place only if the device has taken some.
        have hless := takes_write h0
        refine ih (Nat.lt_of_lt_of_le hless (Nat.le_of_lt_succ hm)) ?_
        exact Nat.lt_of_lt_of_le hless (Nat.le_add_right _ _)
    · rfl

/-! ## Beginnings -/

/-- The order can be played. If the device is open with its layout, the device goes on with what it
has been given `before` and has played. -/
structure Playlist.Begins (P : Playlist S D) (s : State S D) : Prop where
  scanned : s.scanned = true
  order : s.order = P.order
  library : ∀ lib ∈ P.order, lib < s.library.length
  stereo : ∀ d, s.pb = some d → d.stereo = s.pbStereo
  log : ∀ d, s.pb = some d → (d.position + d.buffered) * d.channels = s.log.length
  before : P.before = match s.pb with
    | some d => if s.pbStereo = P.stereo then s.log.take (d.position * d.channels) else []
    | none => []

theorem Playlist.Begins.hardLoad (h : P.Begins s) (he : P.Opens e) (hdev : e.device = true) :
    ∃ d l, Solo P 0 0 [] [] d l (hardLoad e s P.start true) := by
  have hplace : P.place 0 = P.start := Nat.mod_eq_of_lt P.start_lt
  have hat : s.order[P.start]? = some (P.track 0) := by
    rw [h.order, ← hplace]
    exact order_place
  have hlast : ∀ r, r = true ∨ P.start + 0 < P.order.length := fun _ => .inr P.start_lt
  by_cases hgo : ∃ d, s.pb = some d ∧ s.pbStereo = P.stereo
  · obtain ⟨d, hpb, hs⟩ := hgo
    obtain ⟨l, hhead, hst, hload⟩ := hardLoad_spec he h.library hat hpb hs
    have hbefore := h.before
    rw [hpb] at hbefore
    dsimp only at hbefore
    rw [if_pos hs] at hbefore
    have hstereo : d.stereo = P.stereo := (h.stereo d hpb).trans hs
    have hch : d.channels = P.ch := by
      unfold Playback.channels ch
      rw [hstereo]
    have hlog : (d.position + 0) * P.ch = P.before.length := by
      rw [hbefore, List.length_take, ← h.log d hpb, hch, Nat.add_zero]
      exact (Nat.min_eq_left (Nat.mul_le_mul_right _ (Nat.le_add_right _ _))).symm
    rw [hload, ← hbefore]
    exact ⟨d.flush, l, ⟨h.scanned, h.order, h.library, rfl, rfl, hs, rfl, hstereo, hlog⟩, rfl, rfl,
      hhead, hplace.symm, hlast _, .start,
      .clear (fun d' hd => by cases hd; rfl), fun hf => (by cases hst.symm.trans hf),
      fun _ => ⟨rfl, fun p hp => absurd hp List.not_mem_nil⟩⟩
  · have hpb : s.pb = none ∨ s.pbStereo ≠ P.stereo := by
      cases hd : s.pb with
      | none => exact .inl rfl
      | some d => exact .inr fun hs => hgo ⟨d, hd, hs⟩
    have hbefore : P.before = [] := by
      rw [h.before]
      cases hd : s.pb with
      | none => rfl
      | some d => exact if_neg fun hs => hgo ⟨d, hd, hs⟩
    obtain ⟨l, hhead, hst, hload⟩ := hardLoad_open he h.library hat hdev hpb
    rw [hload, ← hbefore]
    exact ⟨_, l, ⟨h.scanned, h.order, h.library, rfl, rfl, rfl, rfl, rfl, (Nat.zero_mul _).trans
      (congrArg List.length hbefore).symm⟩, rfl, rfl, hhead, hplace.symm, hlast _, .start,
      .clear (fun d' hd => by cases hd; rfl), fun hf => (by cases hst.symm.trans hf),
      fun _ => ⟨rfl, fun p hp => absurd hp List.not_mem_nil⟩⟩

/-! ## What is heard -/

/-- The sample at `t` of the track that is played after `j` others is at `q` of what the device has
been given, or is blended there with one of the track before. -/
def Heard (P : Playlist S D) (dur : Nat) (log : List S) (j t q : Nat) : Prop :=
  ∃ y, (P.samples j)[t]? = some y ∧
    (log[q]? = some y ∨
      dur ≠ 0 ∧ ∃ k x, j = k + 1 ∧ x ∈ P.samples k ∧ log[q]? = some (blendAt P dur t x y))

/-- The device plays a frame of the track of the first segment, if it has not reached the next. -/
theorem Shown.heard {segs : List Seg} {dur : Nat} (h : Shown P own i a ps segs (some d))
    (hw : Wired P s d) (hl : Written P dur i a s.log own) (hb : 0 < d.buffered)
    (hnext : ∀ p q rest, ps = p :: q :: rest → d.position < q.2.devStart) :
    ∃ p rest, ps = p :: rest ∧ ∀ c < P.ch,
      Heard P dur s.log p.1 ((d.position - p.2.devStart) * P.ch + c) (d.position * P.ch + c) := by
  cases ps with
  | nil => exact absurd (h.empty d rfl rfl) (Nat.ne_of_gt hb)
  | cons p rest =>
    refine ⟨p, rest, rfl, fun c hc => ?_⟩
    obtain ⟨-, -, -, m, hm, hs⟩ := h.rel p List.mem_cons_self
    have hfront := h.front p d rfl rfl
    obtain ⟨g, hg⟩ := Nat.exists_eq_add_of_le hfront
    have hgap : d.position - p.2.devStart = g := by omega
    have hpos : d.position * P.ch + c = P.before.length + (m + (g * P.ch + c)) := by
      rw [hg, Nat.add_mul, hm]
      omega
    have hlt : m + (g * P.ch + c) < own.length := by
      have hlen := hw.log
      have hown := hl.length_eq
      have hone : P.ch ≤ d.buffered * P.ch := Nat.le_mul_of_pos_left _ hb
      rw [Nat.add_mul] at hlen
      omega
    have ho := List.getElem?_eq_getElem hlt
    generalize own[m + (g * P.ch + c)] = o at ho
    have hge := (hs.cut _ o ho).1 (Nat.le_add_right _ _)
    -- The sample is of the track of a segment; it is the first, for the device has not reached
    -- those after it.
    obtain ⟨q, hq, hqo⟩ := h.covered p rfl o (List.mem_of_getElem? ho) hge
    have heq : o.1 = p.1 := by
      rcases List.mem_cons.1 hq with rfl | hq'
      · exact hqo.symm
      · cases rest with
        | nil => exact absurd hq' List.not_mem_nil
        | cons r rest =>
          obtain ⟨-, -, -, m', hm', hs'⟩ :=
            h.rel r (List.mem_cons_of_mem _ List.mem_cons_self)
          have hrq : r.1 ≤ o.1 := by
            rcases List.mem_cons.1 hq' with rfl | hq'
            · exact Nat.le_of_eq hqo
            · have hinc := (List.pairwise_cons.1 (List.pairwise_cons.1 h.inc).2).1 q hq'
              omega
          have hcut := (hs'.cut _ o ho).2 hrq
          have hlater := hnext p r rest rfl
          have hmul : (d.position + 1) * P.ch ≤ r.2.devStart * P.ch :=
            Nat.mul_le_mul_right _ hlater
          rw [Nat.add_mul, Nat.one_mul] at hmul
          omega
    have ht := hs.place _ o ho heq
    have hat : own[m + (g * P.ch + c)]? = some (p.1, g * P.ch + c) := by
      rw [ho, ← heq, Nat.add_left_cancel ht]
    rw [hgap, hpos]
    exact hl.carries hat

/-- Nothing is asked of the player: it does what is due, or the device plays on. -/
def Playlist.Undisturbed (P : Playlist S D) (_ : State S D) (c : Command × Env S D) : Prop :=
  P.Opens c.2 ∧ (c.1 = .tick ∨ ∃ n, c.1 = .consume n)

/-- The three tracks, one after the other. -/
def inOrder : Playlist Nat Unit where
  before := []
  order := [0, 1, 2]
  start := 0
  src lib := {
    channels := 1, totalFrames := 4, packets := [.audio [lib, lib, lib, lib]], dsp := () }
  stereo := false
  start_lt := by decide
  channels _ _ := rfl
  fresh _ _ := rfl
  whole _ _ samples _ := Nat.one_dvd samples.length
  process _ samples _ := Nat.one_dvd samples.length

end Wandr.AudioPlayer
