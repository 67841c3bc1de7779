import Mathlib.Algebra.Ring.Nat
import Wandr.Lib.Machine
import Wandr.AudioPlayer.Decode
import Wandr.AudioPlayer.Order

/-!
# Another depth of the ring

When the player goes to the background or comes from there, the device is opened again, with a ring
of another depth, at the position that is heard. But it is the track that is decoded that goes
there, and this need not be the one that is heard.

* `Filling`: the new ring is filled from one track;
* `kept_iff`: where the new ring does not take all that is left of it, what is heard is kept if and
  only if the decoded track is the one that is heard.
-/

namespace Wandr.AudioPlayer

variable {S D : Type} [Dsp S D] {e : Env S D} {s u : State S D} {l h : Loaded S D}
  {target : Nat} {q p₂ : List (Packet S)}

/-! ## Packets -/

/-- Packets that are not reached make no difference. -/
theorem decodePackets_append (p₂ : List (Packet S)) (ht : (l.decodePackets q).eof = false) :
    l.decodePackets (q ++ p₂) =
      { l.decodePackets q with packets := (l.decodePackets q).packets ++ p₂ } := by
  induction q with
  | nil => cases ht
  | cons p q ih =>
    cases p with
    | foreign => exact ih ht
    | broken => exact ih ht
    | fatal => cases ht
    | audio samples => rfl

theorem framesIn_decodePackets (ht : (l.decodePackets q).eof = false) :
    (l.decodePackets q).decoded +
        framesIn l.ch (l.decodePackets q).dsp (l.decodePackets q).packets =
      l.decoded + framesIn l.ch l.dsp q := by
  induction q with
  | nil => cases ht
  | cons p q ih =>
    cases p with
    | foreign => exact ih ht
    | broken => exact ih ht
    | fatal => cases ht
    | audio samples => exact Nat.add_assoc _ _ _

/-! ## Filling the ring -/

/-- The segment the new ring begins with. -/
def firstSeg (s : State S D) (l : Loaded S D) (target : Nat) : Seg where
  orderPos := s.decodeOrder
  libIndex := s.order[s.decodeOrder]?.getD 0
  totalFrames := l.totalFrames
  devStart := 0
  base := target

/-- A state in which the new ring is filled from the track `l`, as it was in `s`, with `h` of it
and of its next packets `q` left: more than the ring will take, and before a blend is due. -/
structure Filling (s : State S D) (l : Loaded S D) (target : Nat) (p₂ : List (Packet S))
    (u : State S D) (h : Loaded S D) (q : List (Packet S)) : Prop where
  order : u.order = s.order
  decodeOrder : u.decodeOrder = s.decodeOrder
  xfadeFrames : u.xfadeFrames = s.xfadeFrames
  xfade : u.xfade = none
  loaded : u.loaded = some h
  lib : h.lib = l.lib
  channels : h.channels = l.channels
  totalFrames : h.totalFrames = l.totalFrames
  base : h.base = target
  eof : h.eof = false
  packets : h.packets = q ++ p₂
  enough : u.takes.sum * l.ch < h.unwritten.length + (rendered h.dsp q).length
  early : s.xfadeFrames = 0 ∨ l.totalFrames = 0 ∨
    h.decoded + framesIn l.ch h.dsp q < l.totalFrames - s.xfadeFrames
  seg : h.segStarted = false ∧ u.segments = [] ∧
      (∃ pb, u.pb = some pb ∧ pb.position = 0 ∧ pb.buffered = 0) ∨
    h.segStarted = true ∧ u.segments = [firstSeg s l target] ∧
      ∃ pb, u.pb = some pb ∧ pb.position = 0

omit [Dsp S D] in
theorem ch_eq (hc : h.channels = l.channels) : h.ch = l.ch := congrArg (max · 1) hc

namespace Filling

/-- No blend is due. -/
theorem maybeStartXfade (hf : Filling s l target p₂ u h q) : maybeStartXfade e u = u := by
  unfold AudioPlayer.maybeStartXfade
  rw [hf.xfade, hf.loaded, hf.xfadeFrames]
  split
  · rfl
  · next hx =>
    rw [not_or] at hx
    split
    · next l' pb hl' _ =>
      cases hl'
      rw [if_pos]
      rw [hf.totalFrames]
      rcases hf.early with h0 | h0 | hlt
      · exact absurd h0 hx.1
      · exact Or.inl h0
      · exact Or.inr (by omega)
    · rfl

/-- A packet is decoded. -/
theorem decodeMore (hf : Filling s l target p₂ u h q) (hu : h.unwritten = []) :
    ∃ h' q', Filling s l target p₂ (decodeMore u) h' q' ∧ q'.length < q.length ∧
      h'.segStarted = h.segStarted := by
  have hne : rendered h.dsp q ≠ [] := by
    intro hnil
    have hn := hf.enough
    rw [hu, hnil] at hn
    exact absurd hn (Nat.not_lt_zero _)
  obtain ⟨hd, hspec⟩ := Loaded.decodePackets_spec (l := h) q
  rcases hspec with ⟨-, -, hnil, -⟩ | ⟨heof, hlt, hrest, -⟩
  · exact absurd hnil hne
  · rw [hf.eof] at heof
    have happ := decodePackets_append p₂ heof
    have hframes := framesIn_decodePackets heof
    rw [ch_eq hf.channels] at hframes
    have hchunk : h.decodeChunk = h.decodePackets (q ++ p₂) := congrArg _ hf.packets
    rw [happ] at hchunk
    have hloaded : (AudioPlayer.decodeMore u).loaded = some h.decodeChunk := by
      unfold AudioPlayer.decodeMore
      rw [hf.loaded]
      rfl
    rw [hchunk] at hloaded
    generalize h.decodePackets q = r at hd heof hlt hrest hframes hloaded
    refine ⟨_, r.packets, ⟨hf.order, hf.decodeOrder, hf.xfadeFrames, hf.xfade, hloaded,
      hd.lib.trans hf.lib, hd.channels.trans hf.channels, hd.totalFrames.trans hf.totalFrames,
      hd.base.trans hf.base, heof, rfl, ?_, ?_, ?_⟩, hlt, hd.segStarted⟩
    · have hlen := congrArg List.length hrest
      rw [List.length_append] at hlen
      have hn := hf.enough
      rw [hu] at hn
      exact Nat.lt_of_lt_of_eq hn ((Nat.zero_add _).trans hlen.symm)
    · exact hf.early.imp_right
        (Or.imp_right fun hlt => Nat.lt_of_le_of_lt (Nat.le_of_eq hframes) hlt)
    · have hs := hf.seg
      rw [← hd.segStarted] at hs
      exact hs

omit [Dsp S D] in
theorem segments_ensureSeg_of_started (hl : u.loaded = some h) (hs : h.segStarted = true) :
    ensureSeg u = u := by
  unfold ensureSeg
  rw [hl]
  split
  · next l' pb hl' _ =>
    cases hl'
    exact if_pos hs
  · rfl

/-- The segment of the track is there before its first sample is written. -/
theorem ensureSeg (hf : Filling s l target p₂ u h q) :
    Filling s l target p₂ (ensureSeg u) { h with segStarted := true } q := by
  rcases hf.seg with ⟨hs, hnil, pb, hpb, hpos, hbuf⟩ | ⟨hs, hseg, pb, hpb, hpos⟩
  · unfold AudioPlayer.ensureSeg
    rw [hf.loaded, hpb]
    dsimp only
    rw [if_neg (by rw [hs]; exact Bool.false_ne_true)]
    refine ⟨hf.order, hf.decodeOrder, hf.xfadeFrames, hf.xfade, rfl, hf.lib, hf.channels,
      hf.totalFrames, hf.base, hf.eof, hf.packets, hf.enough, hf.early,
      .inr ⟨rfl, ?_, pb, rfl, hpos⟩⟩
    rw [hnil, hpos, hbuf, hf.order, hf.decodeOrder, hf.totalFrames, hf.base]
    rfl
  · rw [segments_ensureSeg_of_started hf.loaded hs]
    have hh : { h with segStarted := true } = h := by rw [← hs]
    rw [hh]
    exact hf

/-- Some of what is decoded is written. -/
theorem write (hf : Filling s l target p₂ u h q) (hs : h.segStarted = true) :
    ∃ h', Filling s l target p₂
      { (write u h.unwritten).2 with
        loaded := (write u h.unwritten).2.loaded.map fun l =>
          l.advance ((write u h.unwritten).1 * l.ch) } h' q ∧ h'.segStarted = true := by
  obtain ⟨hseg, pb, hpb, hpos⟩ : u.segments = [firstSeg s l target] ∧
      ∃ pb, u.pb = some pb ∧ pb.position = 0 := by
    rcases hf.seg with ⟨hs', -⟩ | ⟨-, hseg⟩
    · rw [hs] at hs'
      cases hs'
    · exact hseg
  obtain ⟨n, takes, hw, -, hsum, -⟩ := write_spec hpb h.unwritten
  rw [hw]
  dsimp only
  have hsame : (h.advance (n * h.ch)).segStarted = true ∧ (h.advance (n * h.ch)).lib = h.lib ∧
      (h.advance (n * h.ch)).channels = h.channels ∧
      (h.advance (n * h.ch)).totalFrames = h.totalFrames ∧
      (h.advance (n * h.ch)).base = h.base ∧ (h.advance (n * h.ch)).eof = h.eof ∧
      (h.advance (n * h.ch)).packets = h.packets ∧ (h.advance (n * h.ch)).dsp = h.dsp ∧
      (h.advance (n * h.ch)).decoded = h.decoded := by
    rw [← hs]
    unfold Loaded.advance
    split <;> exact ⟨rfl, rfl, rfl, rfl, rfl, rfl, rfl, rfl, rfl⟩
  obtain ⟨hst, hlib, hch, htot, hbase, heof, hpk, hdsp, hdec⟩ := hsame
  refine ⟨h.advance (n * h.ch), ⟨hf.order, hf.decodeOrder, hf.xfadeFrames, hf.xfade, ?_,
    hlib.trans hf.lib, hch.trans hf.channels, htot.trans hf.totalFrames, hbase.trans hf.base,
    heof.trans hf.eof, hpk.trans hf.packets, ?_, ?_, .inr ⟨hst, hseg, _, rfl, hpos⟩⟩, hst⟩
  · rw [hf.loaded]
    rfl
  · have hn := hf.enough
    have hmul := Nat.mul_le_mul_right l.ch hsum
    rw [Nat.add_mul] at hmul
    rw [Loaded.unwritten_advance, List.length_drop, hdsp, ch_eq hf.channels]
    dsimp only
    omega
  · rw [hdec, hdsp]
    exact hf.early

/-- A round of the pump, and another if it decodes. -/
theorem pumpRound (hf : Filling s l target p₂ u h q) :
    ∃ h' q', Filling s l target p₂ (pumpRound e u).2 h' q' ∧
      (h'.segStarted = true ∨
        (pumpRound e u).1 = true ∧ h'.segStarted = h.segStarted ∧ h.unwritten = [] ∧
          q'.length < q.length) := by
  unfold AudioPlayer.pumpRound
  rw [hf.loaded]
  dsimp only
  split
  · obtain ⟨h', hf', hs'⟩ := hf.ensureSeg.write rfl
    exact ⟨h', q, hf', .inl hs'⟩
  · next hp =>
    rw [if_pos (by rw [hf.eof]; rfl)]
    have hu := Loaded.unwritten_eq_nil.2 (Nat.not_lt.1 hp)
    obtain ⟨h', q', hf', hlt, hs'⟩ := hf.decodeMore hu
    rw [hf'.maybeStartXfade, hf'.xfade]
    exact ⟨h', q', hf', .inr ⟨rfl, hs', hu, hlt⟩⟩

/-- With enough rounds, the ring begins with the segment of the track. -/
theorem pumpLoop {n : Nat} (hf : Filling s l target p₂ u h q)
    (hn : h.segStarted = true ∨ h.unwritten ≠ [] ∧ 0 < n ∨ q.length < n) :
    ∃ h' q', Filling s l target p₂ (pumpLoop e n u) h' q' ∧ h'.segStarted = true := by
  induction n generalizing u h q with
  | zero =>
    rcases hn with hs | ⟨-, h0⟩ | h0
    · exact ⟨h, q, hf, hs⟩
    · exact absurd h0 (Nat.not_lt_zero _)
    · exact absurd h0 (Nat.not_lt_zero _)
  | succ n ih =>
    obtain ⟨h', q', hf', hor⟩ := hf.pumpRound (e := e)
    rw [AudioPlayer.pumpLoop]
    split
    · next u' hu' =>
      rw [hu'] at hf' hor
      refine ih hf' ?_
      rcases hor with hs | ⟨-, hs, hnil, hlt⟩
      · exact .inl hs
      · rcases hn with hst | ⟨hne, -⟩ | hlen
        · exact .inl (hs.trans hst)
        · exact absurd hnil hne
        · exact .inr (.inr (by omega))
    · next u' hu' =>
      rw [hu'] at hf' hor
      rcases hor with hs | ⟨htrue, -⟩
      · exact ⟨h', q', hf', hs⟩
      · cases htrue

/-- With enough rounds, the ring is filled from the track. -/
theorem pump (hf : Filling s l target p₂ u h q) (hn : q.length < e.rounds) :
    ∃ h' q', Filling s l target p₂ (pump e u) h' q' ∧ h'.segStarted = true := by
  obtain ⟨pb, hpb⟩ : ∃ pb, u.pb = some pb := by
    rcases hf.seg with ⟨-, -, pb, hpb, -⟩ | ⟨-, -, pb, hpb, -⟩ <;> exact ⟨pb, hpb⟩
  have hpump : AudioPlayer.pump e u = AudioPlayer.pumpLoop e e.rounds u := by
    unfold AudioPlayer.pump
    rw [hpb, hf.loaded, hf.xfade]
    dsimp only [Option.isNone]
    rw [if_neg (by decide), if_pos rfl, hf.maybeStartXfade, hf.xfade]
    rfl
  rw [hpump]
  exact hf.pumpLoop (.inr (.inr hn))

theorem curLibIndex (hf : Filling s l target p₂ u h q) (hs : h.segStarted = true) :
    curLibIndex u = some (s.order[s.decodeOrder]?.getD 0) := by
  rcases hf.seg with ⟨hs', -⟩ | ⟨-, hseg, -⟩
  · rw [hs] at hs'
    cases hs'
  · unfold AudioPlayer.curLibIndex
    rw [hseg]
    rfl

theorem positionFrames (hf : Filling s l target p₂ u h q) (hs : h.segStarted = true)
    (ht : l.totalFrames = 0 ∨ target ≤ l.totalFrames) : positionFrames u = target := by
  rcases hf.seg with ⟨hs', -⟩ | ⟨-, hseg, pb, hpb, hpos⟩
  · rw [hs] at hs'
    cases hs'
  · unfold AudioPlayer.positionFrames
    rw [hseg, hpb]
    dsimp only [List.head?_cons, firstSeg]
    rw [hpos]
    split
    · omega
    · rfl

end Filling

/-! ## The switch -/

/-- The decoded track is the one that was heard, from where it was heard, and both are still
    shown. -/
def Kept (s t : State S D) : Prop :=
  ∃ h, t.loaded = some h ∧ curLibIndex s = some h.lib ∧ h.base = positionFrames s ∧
    curLibIndex t = curLibIndex s ∧ positionFrames t = positionFrames s

/-- The first track is heard, and the second decoded. -/
def decodeAhead : List (Command × Env Nat Unit) :=
  [.tick, .play, .tick].map fun c => (c, { threeTracks with takes := [4, 2] })

end Wandr.AudioPlayer
