import Mathlib.Algebra.Ring.Nat
import Wandr.AudioPlayer.Frame

/-!
# What is decoded

The samples of a track are those of its packets, one after the other, up to the first that stops
the decoder. Decoding a packet and writing some of it leave what is left of them.

* `Loaded.left_decodeChunk`: a packet that is decoded is still left to be written;
* `Loaded.unwritten_advance`: what is written is not.
-/

namespace Wandr.AudioPlayer

variable {S D : Type} [Dsp S D]

/-- The samples of packets. -/
def rendered (d : D) : List (Packet S) → List S
  | [] => []
  | .foreign :: ps => rendered d ps
  | .broken :: ps => rendered d ps
  | .fatal :: _ => []
  | .audio samples :: ps =>
    (Dsp.process d samples).1 ++ rendered (Dsp.process d samples).2 ps

/-- How many frames the player counts in packets. -/
def framesIn (ch : Nat) (d : D) : List (Packet S) → Nat
  | [] => 0
  | .foreign :: ps => framesIn ch d ps
  | .broken :: ps => framesIn ch d ps
  | .fatal :: _ => 0
  | .audio samples :: ps =>
    (Dsp.process d samples).1.length / ch + framesIn ch (Dsp.process d samples).2 ps

namespace Loaded

variable {l l' : Loaded S D} {n : Nat}

omit [Dsp S D] in
theorem unwritten_advance : (l.advance n).unwritten = l.unwritten.drop n := by
  unfold advance unwritten
  split
  · next h =>
    dsimp only
    rw [List.drop_drop, List.drop_eq_nil_of_le h, List.drop_nil]
  · dsimp only
    rw [List.drop_drop]

omit [Dsp S D] in
theorem unwritten_eq_nil : l.unwritten = [] ↔ l.pending.length ≤ l.pendingPos :=
  List.drop_eq_nil_iff

/-- What decoding does not change. -/
structure Decodes (l l' : Loaded S D) : Prop where
  lib : l'.lib = l.lib
  channels : l'.channels = l.channels
  totalFrames : l'.totalFrames = l.totalFrames
  base : l'.base = l.base
  segStarted : l'.segStarted = l.segStarted

/-- The packet that is decoded is one of the next, or there is none that can be. -/
theorem decodePackets_spec (ps : List (Packet S)) :
    Decodes l (l.decodePackets ps) ∧
      ((l.decodePackets ps).eof = true ∧ (l.decodePackets ps).unwritten = l.unwritten ∧
          rendered l.dsp ps = [] ∧ (l.decodePackets ps).decoded = l.decoded ∨
        (l.decodePackets ps).eof = l.eof ∧
          (l.decodePackets ps).packets.length < ps.length ∧
          (l.decodePackets ps).unwritten ++
            rendered (l.decodePackets ps).dsp (l.decodePackets ps).packets = rendered l.dsp ps ∧
          (l.decodePackets ps).decoded =
            l.decoded + (l.decodePackets ps).unwritten.length / l.ch) := by
  induction ps with
  | nil => exact ⟨⟨rfl, rfl, rfl, rfl, rfl⟩, .inl ⟨rfl, rfl, rfl, rfl⟩⟩
  | cons p ps ih =>
    cases p with
    | foreign =>
      exact ⟨ih.1, ih.2.imp_right fun h => ⟨h.1, Nat.lt_succ_of_lt h.2.1, h.2.2⟩⟩
    | broken =>
      exact ⟨ih.1, ih.2.imp_right fun h => ⟨h.1, Nat.lt_succ_of_lt h.2.1, h.2.2⟩⟩
    | fatal => exact ⟨⟨rfl, rfl, rfl, rfl, rfl⟩, .inl ⟨rfl, rfl, rfl, rfl⟩⟩
    | audio samples =>
      exact ⟨⟨rfl, rfl, rfl, rfl, rfl⟩, .inr ⟨rfl, Nat.lt_succ_self _, rfl, rfl⟩⟩

/-- What is left to be written. -/
def left (l : Loaded S D) : List S :=
  l.unwritten ++ if l.eof then [] else rendered l.dsp l.packets

theorem left_decodeChunk (hp : l.unwritten = []) (he : l.eof = false) :
    l.decodeChunk.left = l.left := by
  unfold left
  rw [hp, he]
  unfold decodeChunk
  rcases (decodePackets_spec (l := l) l.packets).2 with ⟨he', hu, hr, -⟩ | ⟨he', -, hu, -⟩
  · rw [he', hu, hp, hr]
    rfl
  · rw [he', he]
    exact hu

theorem left_eq_nil (hp : l.unwritten = []) (he : l.eof = true) : l.left = [] := by
  unfold left
  rw [hp, he]
  rfl

theorem unwritten_of_left (h : l.left = []) : l.unwritten = [] := (List.append_eq_nil_iff.1 h).1

omit [Dsp S D] in
/-- For how many rounds the track may still be decoded. -/
def rest (l : Loaded S D) : Nat := l.packets.length + if l.eof then 0 else 1

theorem rest_decodeChunk (he : l.eof = false) : l.decodeChunk.rest < l.rest := by
  have hps (ps : List (Packet S)) : (l.decodePackets ps).rest < ps.length + 1 := by
    induction ps with
    | nil => exact Nat.zero_lt_one
    | cons p ps ih =>
      cases p with
      | foreign => exact Nat.lt_succ_of_lt ih
      | broken => exact Nat.lt_succ_of_lt ih
      | fatal => exact Nat.lt_succ_of_lt (Nat.lt_succ_self _)
      | audio samples =>
        unfold rest decodePackets
        dsimp only
        rw [he]
        exact Nat.lt_succ_self _
  unfold rest
  rw [he]
  exact hps l.packets

theorem left_advance (h : n ≤ l.unwritten.length) : (l.advance n).left = l.left.drop n := by
  have hsame : (l.advance n).eof = l.eof ∧ (l.advance n).dsp = l.dsp ∧
      (l.advance n).packets = l.packets := by
    unfold advance
    split <;> exact ⟨rfl, rfl, rfl⟩
  unfold left
  rw [unwritten_advance, hsame.1, hsame.2.1, hsame.2.2, List.drop_append_of_le_length h]

end Loaded

/-! ## Writing -/

omit [Dsp S D] in
/-- The device takes some frames, no more than it is offered, and fewer of the next writes if it
takes any. -/
theorem write_spec {s : State S D} {pb : Playback} (hp : s.pb = some pb) (samples : List S) :
    ∃ n takes, write s samples = (n, { s with
        takes
        pb := some { pb with buffered := pb.buffered + n }
        log := s.log ++ samples.take (n * pb.channels) }) ∧
      n ≤ samples.length / pb.channels ∧ n + takes.sum ≤ s.takes.sum ∧
      (n ≠ 0 → takes.length < s.takes.length) := by
  unfold write
  rw [hp]
  cases ht : s.takes with
  | nil =>
    refine ⟨0, [], ?_, Nat.zero_le _, Nat.le_refl _, fun h => absurd rfl h⟩
    dsimp only
    rw [Nat.zero_mul, List.take_zero, List.append_nil, Nat.add_zero, ← hp, ← ht]
  | cons t ts =>
    refine ⟨_, ts, rfl, Nat.min_le_right _ _, ?_, fun _ => Nat.lt_succ_self _⟩
    rw [List.sum_cons]
    have := Nat.min_le_left t (samples.length / pb.channels)
    omega

omit [Dsp S D] in
/-- A device that takes some of a write takes fewer of the next. -/
theorem takes_write {s : State S D} {samples : List S} (h : (write s samples).1 ≠ 0) :
    (write s samples).2.takes.length < s.takes.length := by
  cases hpb : s.pb with
  | none =>
    unfold write at h
    rw [hpb] at h
    exact absurd rfl h
  | some pb =>
    obtain ⟨n, ts, he, -, -, hts⟩ := write_spec hpb samples
    rw [he] at h ⊢
    exact hts h

end Wandr.AudioPlayer
