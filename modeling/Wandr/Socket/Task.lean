import Wandr.Lib.Pull
import Wandr.Socket.TlsStream

/-!
# A task on a TLS stream

A task that reads from a stream is polled now and then, while the reader task puts into the buffer
what comes. Nobody else reads.

* `pollFetch_spec`: a task that is polled goes on as far as the bytes in the buffer allow;
* `Task.run_poll`: what has become of it depends on the bytes that came, and not on the pieces they
  came in or on when it was polled.
-/

namespace Wandr.Socket

/-! ## What is enough -/

theorem findSubslice_eq_some_iff {h needle : Bytes} {i : Nat} :
    findSubslice h needle = some i ↔ needle ≠ [] ∧ i + needle.length ≤ h.length ∧
      (h.drop i).take needle.length = needle ∧
      ∀ j < i, (h.drop j).take needle.length ≠ needle := by
  unfold findSubslice
  split
  · next hn =>
    refine iff_of_false (Option.some_ne_none i).symm fun ⟨hne, hle, _⟩ => ?_
    rcases hn with hn | hn
    · exact hne (List.isEmpty_iff.mp hn)
    · omega
  · next hn =>
    obtain ⟨hne, hlen⟩ := not_or.mp hn
    rw [List.find?_range_eq_some]
    simp only [List.mem_range, beq_iff_eq, Bool.not_eq_true', beq_eq_false_iff_ne, ne_eq]
    constructor
    · rintro ⟨hi, hr, hb⟩
      exact ⟨fun he => hne (List.isEmpty_iff.mpr he), by omega, hi, hb⟩
    · rintro ⟨-, hle, hi, hb⟩
      exact ⟨hi, by omega, hb⟩

/-- A needle that was found is found in a longer haystack. -/
theorem findSubslice_append {h needle : Bytes} {i : Nat} (c : Bytes)
    (hi : findSubslice h needle = some i) : findSubslice (h ++ c) needle = some i := by
  obtain ⟨hne, hle, hw, hb⟩ := findSubslice_eq_some_iff.mp hi
  have htake {j : Nat} (hj : j ≤ i) :
      ((h ++ c).drop j).take needle.length = (h.drop j).take needle.length := by
    rw [List.drop_append_of_le_length (by omega), List.take_append_of_le_length]
    rw [List.length_drop]
    omega
  refine findSubslice_eq_some_iff.mpr ⟨hne, ?_, (htake le_rfl).trans hw, fun j hj => ?_⟩
  · rw [List.length_append]
    omega
  · rw [htake hj.le]
    exact hb j hj

/-- What is enough is so with more behind it. -/
theorem Shared.enough_append {r : Read} {b : Bytes} {n : Nat} (c : Bytes)
    (h : { buf := b : Shared }.enough r = some n) :
    { buf := b ++ c : Shared }.enough r = some n := by
  cases r with
  | readUntil needle =>
    obtain ⟨i, hi, rfl⟩ := Option.map_eq_some_iff.mp h
    exact Option.map_eq_some_iff.mpr ⟨i, findSubslice_append c hi, rfl⟩
  | readExact m =>
    rw [Shared.enough] at h ⊢
    split at h
    · exact absurd h (Option.some_ne_none n).symm
    · next hm =>
      have hle : m ≤ b.length := Nat.not_lt.mp hm
      have hn : ¬ (b ++ c).length < m := by
        rw [List.length_append]
        omega
      exact (if_neg hn).trans h
  | readToEnd => exact absurd h (Option.some_ne_none n).symm

/-- The reads of a TLS stream. -/
def reader : Reader Read String where
  enough r b := { buf := b : Shared }.enough r
  atEnd r b := (({ buf := b : Shared }.atEnd r).1, ({ buf := b : Shared }.atEnd r).2.buf)
  enough_le _ _ _ h := Shared.enough_le h
  enough_append _ _ c _ h := Shared.enough_append c h

/-! ## Polling -/

/-- A program that reads from the stream. -/
abbrev Fetch := Pull Read String

/-- Poll a program that reads from the buffer. One that waits has found the buffer of some
    length. -/
def pollFetch {α : Type} : Fetch α → Option Nat → Shared → (Fetch α × Option Nat) × Shared
  | .done a, _, s => ((.done a, none), s)
  | .spent, _, s => ((.spent, none), s)
  | .read r k, start, s =>
    match s.poll r start 0 with
    | (.ready x, s') => pollFetch (k x) none s'
    | (.pending startLen, s') => ((.read r k, some startLen), s')

/-- What a read has found in the buffer, where it waits, was not enough. -/
def Short (r : Read) (start : Option Nat) (b : Bytes) : Prop :=
  ∀ l ∈ start, l ≤ b.length ∧ reader.enough r (b.take l) = none

/-- What a program that waits has found was not enough. -/
def Stalled {α : Type} (p : Fetch α) (start : Option Nat) (b : Bytes) : Prop :=
  ∀ r k, p = .read r k → Short r start b

variable {α : Type} {p : Fetch α} {start : Option Nat} {s : Shared}

theorem Stalled.none (p : Fetch α) (b : Bytes) : Stalled p none b :=
  fun _ _ _ _ h => absurd h (Option.not_mem_none _)

theorem Stalled.append {b : Bytes} (h : Stalled p start b) (c : Bytes) :
    Stalled p start (b ++ c) := by
  intro r k hp l hl
  obtain ⟨hle, hn⟩ := h r k hp l hl
  refine ⟨?_, by rwa [List.take_append_of_le_length hle]⟩
  rw [List.length_append]
  omega

/-- A read that is polled takes what is enough, or ends with the stream, or waits. -/
theorem poll_read {r : Read} (h : Short r start s.buf) :
    (∃ n, reader.enough r s.buf = some n ∧
      s.poll r start 0 = (.ready (.ok (s.buf.take n)), (s.takeFromBuf n).2)) ∨
    (reader.enough r s.buf = none ∧ s.eof = true ∧ s.poll r start 0 =
      (.ready (reader.atEnd r s.buf).1, { s with buf := (reader.atEnd r s.buf).2 })) ∨
    (reader.enough r s.buf = none ∧ s.eof = false ∧
      s.poll r start 0 = s.wait s.buf.length 0) := by
  have hend : s.atEnd r =
      ((reader.atEnd r s.buf).1, { s with buf := (reader.atEnd r s.buf).2 }) := by
    cases r <;> rfl
  have hsome {n : Nat} (he : reader.enough r s.buf = some n) :
      s.attempt r 0 = (.ready (.ok (s.takeFromBuf n).1), (s.takeFromBuf n).2) := by
    have he : s.enough r = some n := he
    rw [Shared.attempt, he]
  have hnone (he : reader.enough r s.buf = none) : s.attempt r 0 =
      if s.eof then (.ready (s.atEnd r).1, (s.atEnd r).2) else s.wait s.buf.length 0 := by
    have he : s.enough r = none := he
    rw [Shared.attempt, he]
  -- Where it finds nothing new, an attempt comes to the same.
  have hpoll : s.poll r start 0 = s.attempt r 0 := by
    cases start with
    | none => rfl
    | some l =>
      obtain ⟨hle, hn⟩ := h l rfl
      by_cases hl : l < s.buf.length
      · exact if_pos hl
      · obtain rfl : l = s.buf.length := by omega
        rw [List.take_length] at hn
        rw [hnone hn]
        exact if_neg hl
  cases he : reader.enough r s.buf with
  | some n => exact .inl ⟨n, rfl, hpoll.trans (hsome he)⟩
  | none =>
    rw [hpoll, hnone he, hend]
    cases heof : s.eof with
    | true => exact .inr (.inl ⟨rfl, rfl, rfl⟩)
    | false => exact .inr (.inr ⟨rfl, rfl, rfl⟩)

/-- A task that is polled goes on as far as the bytes in the buffer allow. -/
theorem pollFetch_spec (p : Fetch α) {start : Option Nat} (s : Shared)
    (h : Stalled p start s.buf) :
    ∃ start' wakers, pollFetch p start s = (((p.drain reader s.eof s.buf).1, start'),
        { s with buf := (p.drain reader s.eof s.buf).2, wakers }) ∧
      Stalled (p.drain reader s.eof s.buf).1 start' (p.drain reader s.eof s.buf).2 := by
  induction p generalizing start s with
  | done a => exact ⟨none, s.wakers, rfl, .none _ _⟩
  | spent => exact ⟨none, s.wakers, rfl, .none _ _⟩
  | read r k ih =>
    rw [pollFetch]
    rcases poll_read (h r k rfl) with ⟨n, he, hp⟩ | ⟨he, heof, hp⟩ | ⟨he, heof, hp⟩
    · rw [Pull.drain_enough he, hp]
      exact ih _ (s.takeFromBuf n).2 (.none _ _)
    · rw [hp, heof, Pull.drain_atEnd he]
      have hi := ih (reader.atEnd r s.buf).1 { s with buf := (reader.atEnd r s.buf).2 } (.none _ _)
      rw [heof] at hi
      exact hi
    · have hd : (Pull.read r k).drain reader s.eof s.buf = (.read r k, s.buf) := by
        rw [heof]
        exact Pull.drain_wait he
      rw [hp, hd]
      refine ⟨some s.buf.length, s.wakers ++ [0], rfl, fun r' k' hr l hl => ?_⟩
      cases hr
      cases hl
      rw [List.take_length]
      exact ⟨le_rfl, he⟩

/-! ## Runs -/

/-- A task: what it has still to do, where it waits, and the buffer it reads from. -/
structure Task (α : Type) where
  prog : Fetch α
  start : Option Nat := none
  shared : Shared := {}

/-- The reader task comes back from a read; the task is polled. -/
inductive Event
  | received (r : StreamResult) (bytes : Bytes)
  | poll

/-- What has come, and whether it was all. The reader task gives up its stream at the end. -/
def came : Bytes × Bool → Event → Bytes × Bool
  | (b, true), _ => (b, true)
  | (b, false), .received r bytes => (b ++ bytes, r = .dropped)
  | (b, false), .poll => (b, false)

namespace Task

def next (t : Task α) : Event → Task α
  | .received r bytes =>
    if t.shared.eof then t else { t with shared := (t.shared.received r bytes).1 }
  | .poll =>
    let x := pollFetch t.prog t.start t.shared
    { prog := x.1.1, start := x.1.2, shared := x.2 }

def run (p : Fetch α) (es : List Event) : Task α := es.foldl next { prog := p }

/-- What a task does with the bytes in its buffer, and those to come, is what its program does with
    all the bytes. -/
structure Follows (p : Fetch α) (t : Task α) (x : Bytes × Bool) : Prop where
  eof : t.shared.eof = x.2
  stalled : Stalled t.prog t.start t.shared.buf
  drains : ∀ ended c, (x.2 = true → ended = true ∧ c = []) →
    p.drain reader ended (x.1 ++ c) = t.prog.drain reader ended (t.shared.buf ++ c)

variable {t : Task α} {x : Bytes × Bool}

theorem received_eq (s : Shared) (r : StreamResult) (bytes : Bytes) (h : s.eof = false) :
    (s.received r bytes).1.buf = s.buf ++ bytes ∧
      (s.received r bytes).1.eof = decide (r = .dropped) := by
  unfold Shared.received
  cases r with
  | dropped => exact ⟨rfl, rfl⟩
  | complete | cancelled =>
    dsimp only
    split
    · next he => exact ⟨by rw [List.isEmpty_iff.mp he, List.append_nil], h⟩
    · exact ⟨rfl, h⟩

theorem Follows.received (h : t.Follows p x) (r : StreamResult) (bytes : Bytes) :
    (t.next (.received r bytes)).Follows p (came x (.received r bytes)) := by
  obtain ⟨b, e⟩ := x
  have heof := h.eof
  rw [next]
  cases e with
  | true =>
    rw [if_pos heof]
    exact h
  | false =>
    obtain ⟨hbuf, he⟩ := received_eq t.shared r bytes heof
    rw [if_neg (by rw [heof]; exact Bool.false_ne_true)]
    refine ⟨he, ?_, fun ended c hc => ?_⟩
    · dsimp only
      rw [hbuf]
      exact h.stalled.append bytes
    · dsimp only [came]
      rw [hbuf, List.append_assoc, List.append_assoc]
      exact h.drains ended (bytes ++ c) fun he => absurd he Bool.false_ne_true

theorem Follows.poll (h : t.Follows p x) : (t.next .poll).Follows p (came x .poll) := by
  obtain ⟨b, e⟩ := x
  obtain ⟨start, wakers, hp, hs⟩ := pollFetch_spec t.prog t.shared h.stalled
  have heof := h.eof
  have hc : came (b, e) .poll = (b, e) := by cases e <;> rfl
  rw [next, hp, hc]
  refine ⟨heof, hs, fun ended c hc => (h.drains ended c hc).trans ?_⟩
  cases e with
  | true =>
    obtain ⟨rfl, rfl⟩ := hc rfl
    rw [List.append_nil, List.append_nil, heof, Pull.drain_drain]
  | false =>
    dsimp only
    rw [heof, Pull.drain_append]

theorem Follows.next (h : t.Follows p x) (e : Event) : (t.next e).Follows p (came x e) := by
  cases e with
  | received r bytes => exact h.received r bytes
  | poll => exact h.poll

theorem follows_run (p : Fetch α) (es : List Event) :
    (run p es).Follows p (es.foldl came ([], false)) := by
  suffices hs : ∀ t x, Follows p t x → Follows p (es.foldl Task.next t) (es.foldl came x) from
    hs _ _ ⟨rfl, .none p [], fun _ _ _ => rfl⟩
  induction es with
  | nil => exact fun _ _ h => h
  | cons e es ih => exact fun t x h => ih _ _ (h.next e)

/-- What has become of a task that was polled last. -/
theorem run_poll (p : Fetch α) (es : List Event) :
    (run p (es ++ [.poll])).prog =
      (p.drain reader (es.foldl came ([], false)).2 (es.foldl came ([], false)).1).1 := by
  have h := follows_run p es
  generalize es.foldl came ([], false) = x at h ⊢
  obtain ⟨start, wakers, hp, -⟩ := pollFetch_spec (run p es).prog (run p es).shared h.stalled
  have hd := h.drains x.2 [] fun he => ⟨he, rfl⟩
  rw [List.append_nil, List.append_nil] at hd
  have hr : (run p (es ++ [.poll])).prog =
      (pollFetch (run p es).prog (run p es).start (run p es).shared).1.1 := by
    rw [run, List.foldl_append]
    rfl
  rw [hr, hp, hd, h.eof]

end Task

end Wandr.Socket
