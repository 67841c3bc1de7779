import Mathlib.Data.List.Basic
import Wandr.Lib.Machine
import Wandr.Lib.Table

/-!
# The TLS stream

A task of its own reads the decrypted stream. What comes it puts into a buffer, and wakes the
reads that wait for more. A read waits at the buffer only, so nothing is lost when it is
dropped. A write takes the writer out of its place until it is through: when it is dropped
before, the writer goes with it.

While a read waits, it compares the length of the buffer with the one it found. Where another
call has taken bytes in between, there may be more to read and the buffer no longer.

* `Conn.Sound.next`: each byte is returned once, in order, and a read that can go on has been
  woken;
* `Conn.upholds_iff`: in which steps that is so, and a write not refused;
* `stream_lossless`: in which runs.
-/

namespace Wandr.Socket

open Machine

abbrev Bytes := List UInt8

/-! ## The buffer -/

/-- What the reader task and the reads share. A waker is that of a call. -/
structure Shared where
  buf : Bytes := []
  eof : Bool := false
  wakers : List Nat := []

/-- How a read of the decrypted stream ends. -/
inductive StreamResult
  | complete
  | cancelled
  | dropped
  deriving DecidableEq

/-- Where a haystack has a needle first. -/
def findSubslice (haystack needle : Bytes) : Option Nat :=
  if needle.isEmpty ∨ haystack.length < needle.length then none
  else
    (List.range (haystack.length - needle.length + 1)).find? fun i =>
      (haystack.drop i).take needle.length == needle

/-- The reads that may wait. -/
inductive Read
  | readUntil (needle : Bytes)
  | readExact (n : Nat)
  | readToEnd
  deriving DecidableEq

/-- What comes of polling a read. One that waits has found the buffer of some length. -/
inductive Poll
  | ready (r : Except String Bytes)
  | pending (startLen : Nat)
  deriving DecidableEq

namespace Shared

variable (s : Shared)

/-- Every waker is called, and forgotten. Those are the calls that are woken. -/
def wakeAll : Shared × List Nat := ({ s with wakers := [] }, s.wakers)

/-- The reader task takes what a read of the stream gave, and wakes calls. -/
def received (r : StreamResult) (bytes : Bytes) : Shared × List Nat :=
  match r with
  | .dropped => { s with buf := s.buf ++ bytes, eof := true }.wakeAll
  | .complete | .cancelled =>
    if bytes.isEmpty then (s, []) else { s with buf := s.buf ++ bytes }.wakeAll

def takeFromBuf (n : Nat) : Bytes × Shared := (s.buf.take n, { s with buf := s.buf.drop n })

/-- How much of the buffer a read takes when it need not wait. -/
def enough : Read → Option Nat
  | .readUntil needle => (findSubslice s.buf needle).map (· + needle.length)
  | .readExact n => if s.buf.length < n then none else some n
  | .readToEnd => none

/-- A read at the end of the stream. -/
def atEnd : Read → Except String Bytes × Shared
  | .readUntil _ => (.error "connection closed before delimiter", s)
  | .readExact _ => (.error "connection closed before reading n bytes", s)
  | .readToEnd => (.ok (s.takeFromBuf s.buf.length).1, (s.takeFromBuf s.buf.length).2)

/-- A read waits. -/
def wait (startLen w : Nat) : Poll × Shared :=
  (.pending startLen, { s with wakers := s.wakers ++ [w] })

/-- A read begins, or goes on after there was more. The buffer is no longer than it has just
    found it, so if it is not enough the read ends or waits. -/
def attempt (r : Read) (w : Nat) : Poll × Shared :=
  match s.enough r with
  | some n => (.ready (.ok (s.takeFromBuf n).1), (s.takeFromBuf n).2)
  | none =>
    if s.eof then (.ready (s.atEnd r).1, (s.atEnd r).2) else s.wait s.buf.length w

/-- Poll a read, which may be waiting. -/
def poll (r : Read) (start : Option Nat) (w : Nat) : Poll × Shared :=
  match start with
  | none => s.attempt r w
  | some startLen =>
    if startLen < s.buf.length then s.attempt r w
    else if s.eof then (.ready (s.atEnd r).1, (s.atEnd r).2)
    else s.wait startLen w

end Shared

section
variable {haystack needle : Bytes}

/-- A needle is found where it is, if it is not empty. -/
theorem findSubslice_isSome :
    (findSubslice haystack needle).isSome ↔ needle ≠ [] ∧ needle <:+: haystack := by
  unfold findSubslice
  split
  · next h =>
    refine iff_of_false Bool.false_ne_true ?_
    rintro ⟨hne, hi⟩
    rcases h with h | h
    · exact hne (List.isEmpty_iff.1 h)
    · exact absurd hi.length_le (Nat.not_le.2 h)
  · next h =>
    obtain ⟨hne, hlen⟩ := not_or.1 h
    rw [List.find?_isSome]
    simp only [List.mem_range, beq_iff_eq]
    constructor
    · rintro ⟨i, -, hi⟩
      refine ⟨fun he => hne (List.isEmpty_iff.2 he), ?_⟩
      exact hi ▸ (List.take_prefix _ _).isInfix.trans (List.drop_suffix i haystack).isInfix
    · rintro ⟨-, a, b, rfl⟩
      refine ⟨a.length, ?_, ?_⟩
      · simp only [List.length_append]
        omega
      · rw [List.append_assoc, List.drop_left, List.take_left]

/-- The needle ends within the haystack. -/
theorem findSubslice_le {i : Nat} (h : findSubslice haystack needle = some i) :
    i + needle.length ≤ haystack.length := by
  unfold findSubslice at h
  split at h
  · exact nomatch h
  · next hn =>
    have hi := List.mem_of_find?_eq_some h
    rw [List.mem_range] at hi
    have := Nat.not_lt.1 (not_or.1 hn).2
    omega

end

namespace Shared

variable {s : Shared} {r : Read} {w : Nat}

/-- What a read takes is there. -/
theorem enough_le {n : Nat} (h : s.enough r = some n) : n ≤ s.buf.length := by
  cases r with
  | readUntil needle =>
    obtain ⟨i, hi, rfl⟩ := Option.map_eq_some_iff.1 h
    exact findSubslice_le hi
  | readExact m =>
    rw [enough] at h
    split at h
    · exact nomatch h
    · next hm => exact Option.some.inj h ▸ Nat.not_lt.1 hm
  | readToEnd => exact nomatch h

/-- What is not enough is not enough after some of it was taken. -/
theorem enough_takeFromBuf {n : Nat} (h : s.enough r = none) :
    (s.takeFromBuf n).2.enough r = none := by
  cases r with
  | readUntil needle =>
    rw [enough, Option.map_eq_none_iff] at h ⊢
    rw [← Option.not_isSome_iff_eq_none, findSubslice_isSome] at h ⊢
    rintro ⟨hne, hi⟩
    exact h ⟨hne, hi.trans (List.drop_suffix n s.buf).isInfix⟩
  | readExact m =>
    rw [enough] at h ⊢
    split at h
    · next hm => exact if_pos (Nat.lt_of_le_of_lt (List.drop_suffix n s.buf).length_le hm)
    · exact nomatch h
  | readToEnd => rfl

/-- A read that is polled takes something, or fails, or waits. It waits when it has found too
    little, or has found the buffer as long before. -/
theorem poll_cases (s : Shared) (r : Read) (start : Option Nat) (w : Nat) :
    (∃ n ≤ s.buf.length, s.poll r start w = (.ready (.ok (s.buf.take n)), (s.takeFromBuf n).2)) ∨
    (∃ e, s.poll r start w = (.ready (.error e), s)) ∨
    ∃ k, s.poll r start w = s.wait k w ∧ s.eof = false ∧
      (k = s.buf.length ∧ s.enough r = none ∨ start = some k ∧ s.buf.length ≤ k) := by
  have hend : (∃ n ≤ s.buf.length, (Poll.ready (s.atEnd r).1, (s.atEnd r).2) =
        (.ready (.ok (s.buf.take n)), (s.takeFromBuf n).2)) ∨
      ∃ e, (Poll.ready (s.atEnd r).1, (s.atEnd r).2) = (.ready (.error e), s) := by
    cases r with
    | readUntil needle => exact .inr ⟨_, rfl⟩
    | readExact n => exact .inr ⟨_, rfl⟩
    | readToEnd => exact .inl ⟨_, Nat.le_refl _, rfl⟩
  have hatt : (∃ n ≤ s.buf.length,
        s.attempt r w = (.ready (.ok (s.buf.take n)), (s.takeFromBuf n).2)) ∨
      (∃ e, s.attempt r w = (.ready (.error e), s)) ∨
      s.attempt r w = s.wait s.buf.length w ∧ s.eof = false ∧ s.enough r = none := by
    unfold attempt
    split
    · next n hn => exact .inl ⟨n, enough_le hn, rfl⟩
    · next hn =>
      split
      · exact hend.imp_right .inl
      · next he => exact .inr (.inr ⟨rfl, Bool.eq_false_iff.2 he, hn⟩)
  have hatt' := hatt.imp_right fun h => h.imp_right fun ⟨hw, he, hn⟩ =>
    (⟨s.buf.length, hw, he, .inl ⟨rfl, hn⟩⟩ : ∃ k, s.attempt r w = s.wait k w ∧ s.eof = false ∧
      (k = s.buf.length ∧ s.enough r = none ∨ start = some k ∧ s.buf.length ≤ k))
  cases start with
  | none => exact hatt'
  | some startLen =>
    unfold poll
    dsimp only
    split
    · exact hatt'
    · next hlen =>
      split
      · exact hend.imp_right .inl
      · next he =>
        exact .inr (.inr ⟨startLen, rfl, Bool.eq_false_iff.2 he, .inr ⟨rfl, Nat.not_lt.1 hlen⟩⟩)

end Shared

/-! ## Calls -/

/-- A call that has not come to its end. A read that has been polled waits; a write that has been
    polled has the writer. -/
inductive Call
  | read (r : Read) (start : Option Nat)
  | write (hasWriter : Bool)
  deriving DecidableEq

structure Future where
  id : Nat
  call : Call
  deriving DecidableEq

/-- A stream and what has come of it: the calls under way, the bytes that came and those that
    were returned, the calls woken since they were last polled, whether a write was dropped that
    had the writer, and whether one found the stream closed. -/
structure Conn where
  shared : Shared := {}
  tx : Bool := true
  calls : Table Future.id := .empty
  nextId : Nat := 0
  delivered : Bytes := []
  returned : Bytes := []
  woken : List Nat := []
  lost : Bool := false
  shut : Bool := false

/-- What happens to a stream: the reader task comes back from a read; a call is made; one is
    polled, where a write is through when the host has said how many bytes were left; one is
    dropped; what there is is taken. -/
inductive Act
  | received (r : StreamResult) (bytes : Bytes)
  | read (r : Read)
  | write
  | poll (id : Nat) (leftover : Option Nat)
  | drop (id : Nat)
  | takeBuffered

namespace Conn

variable (s : Conn)

/-- The reader task gives up its stream at the end. -/
def received (r : StreamResult) (bytes : Bytes) : Conn :=
  if s.shared.eof then s
  else
    { s with
      shared := (s.shared.received r bytes).1
      delivered := s.delivered ++ bytes
      woken := s.woken ++ (s.shared.received r bytes).2 }

def begin (c : Call) : Conn :=
  { s with calls := s.calls.put ⟨s.nextId, c⟩, nextId := s.nextId + 1 }

/-- What has become of a read that was polled. -/
def polled (id : Nat) (r : Read) : Poll × Shared → Conn
  | (.ready (.ok bytes), shared) =>
    { s with shared, calls := s.calls.erase id, returned := s.returned ++ bytes }
  | (.ready (.error _), shared) => { s with shared, calls := s.calls.erase id }
  | (.pending startLen, shared) =>
    { s with shared, calls := s.calls.put ⟨id, .read r (some startLen)⟩
             woken := s.woken.filter (· ≠ id) }

/-- A write that has the writer, and may be through. -/
def writing (id : Nat) : Option Nat → Conn
  | none => { s with calls := s.calls.put ⟨id, .write true⟩, tx := false }
  | some leftover =>
    { s with calls := s.calls.erase id, tx := true, shut := s.shut || leftover ≠ 0 }

/-- A call is polled. A write is refused when the writer is not in its place. -/
def poll (id : Nat) (leftover : Option Nat) : Conn :=
  match s.calls.get? id with
  | none => s
  | some ⟨_, .read r start⟩ => s.polled id r (s.shared.poll r start id)
  | some ⟨_, .write true⟩ => s.writing id leftover
  | some ⟨_, .write false⟩ =>
    if s.tx then s.writing id leftover else { s with calls := s.calls.erase id }

/-- A call is dropped. -/
def drop (id : Nat) : Conn :=
  { s with
    calls := s.calls.erase id
    lost := s.lost || s.calls.get? id = some ⟨id, .write true⟩ }

def takeBuffered : Conn :=
  { s with shared := (s.shared.takeFromBuf s.shared.buf.length).2
           returned := s.returned ++ (s.shared.takeFromBuf s.shared.buf.length).1 }

def next : Act → Conn
  | .received r bytes => s.received r bytes
  | .read r => s.begin (.read r none)
  | .write => s.begin (.write false)
  | .poll id leftover => s.poll id leftover
  | .drop id => s.drop id
  | .takeBuffered => s.takeBuffered

/-! ## What a stream promises -/

/-- What was returned and what is in the buffer is what came. -/
def Lossless : Prop := s.returned ++ s.shared.buf = s.delivered

/-- A read that waits can go on: there is enough for it, or the stream has ended. -/
def CanGoOn (s : Conn) : Call → Prop
  | .read r (some _) => (s.shared.enough r).isSome ∨ s.shared.eof
  | .read _ none => False
  | .write _ => False

/-- Each read that waits and can go on has been woken. -/
def AllWoken : Prop := ∀ f ∈ s.calls.rows, s.CanGoOn f.call → f.id ∈ s.woken

/-- Neither the reader task nor a write has found the stream closed. -/
def Open : Prop := s.shared.eof = false ∧ s.shut = false

/-- A write has the writer. -/
def Writing : Prop := ∃ f ∈ s.calls.rows, f.call = .write true

/-- A write is refused that has no other one to wait for. -/
def Refuses (s : Conn) : Act → Prop
  | .poll id _ => s.calls.get? id = some ⟨id, .write false⟩ ∧ s.tx = false ∧ s.Open ∧ ¬ s.Writing
  | _ => False

/-- No byte is lost in a step, no read that can go on is left waiting, and no write refused. -/
def Upholds (a : Act) : Prop := (s.next a).Lossless ∧ (s.next a).AllWoken ∧ ¬ s.Refuses a

/-- Where a read is polled that waits for a needle, the buffer is longer than the read has found
    it when the needle is there; where a write begins, none was dropped that had the writer. -/
def ReadyFor (s : Conn) : Call → Prop
  | .read (.readUntil needle) (some startLen) =>
    s.shared.eof = false → (findSubslice s.shared.buf needle).isSome →
      startLen < s.shared.buf.length
  | .read _ _ => True
  | .write false => s.Open → s.lost = false
  | .write true => True

/-- A call that is polled finds the stream as it needs it. -/
def Clean (s : Conn) : Act → Prop
  | .poll id _ => ∀ f ∈ s.calls.get? id, s.ReadyFor f.call
  | _ => True

instance decidableCanGoOn : (c : Call) → Decidable (s.CanGoOn c)
  | .read _ (some _) => inferInstanceAs (Decidable (_ ∨ _))
  | .read _ none => inferInstanceAs (Decidable False)
  | .write _ => inferInstanceAs (Decidable False)

instance : Decidable s.Open := inferInstanceAs (Decidable (_ ∧ _))

instance : Decidable s.Writing := inferInstanceAs (Decidable (∃ f ∈ s.calls.rows, _))

instance : Decidable s.Lossless := inferInstanceAs (Decidable (_ = _))

instance : Decidable s.AllWoken := inferInstanceAs (Decidable (∀ f ∈ s.calls.rows, _))

instance decidableRefuses : (a : Act) → Decidable (s.Refuses a)
  | .poll _ _ => inferInstanceAs (Decidable (_ ∧ _))
  | .received _ _ => inferInstanceAs (Decidable False)
  | .read _ => inferInstanceAs (Decidable False)
  | .write => inferInstanceAs (Decidable False)
  | .drop _ => inferInstanceAs (Decidable False)
  | .takeBuffered => inferInstanceAs (Decidable False)

instance (a : Act) : Decidable (s.Upholds a) := inferInstanceAs (Decidable (_ ∧ _))

/-! ## Steps -/

/-- A read that waits has been woken, or there is a waker for it and it cannot go on. It waits
    for more bytes than it has found. -/
def Waits (id : Nat) (r : Read) (startLen : Nat) : Prop :=
  (id ∉ s.woken → id ∈ s.shared.wakers ∧ s.shared.enough r = none ∧ s.shared.eof = false) ∧
    ∀ n, r = .readExact n → startLen < n

/-- What holds of a stream in a run whose steps are clean. -/
structure Sound (s : Conn) : Prop where
  lossless : s.Lossless
  fresh : ∀ f ∈ s.calls.rows, f.id < s.nextId
  waits : ∀ f ∈ s.calls.rows, ∀ r k, f.call = .read r (some k) → s.Waits f.id r k
  one : ∀ f ∈ s.calls.rows, ∀ g ∈ s.calls.rows, f.call = .write true → g.call = .write true → f = g
  held : s.Writing → s.tx = false ∧ s.lost = false
  gone : s.lost = true → s.tx = false
  free : s.tx = false → s.lost = true ∨ s.Writing

variable {s} {id : Nat} {r : Read}

theorem Sound.allWoken (h : s.Sound) : s.AllWoken := by
  intro f hf hg
  rcases hc : f.call with ⟨r, start⟩ | w
  · rw [hc] at hg
    cases start with
    | none => exact False.elim hg
    | some k =>
      by_contra hw
      obtain ⟨-, hn, he⟩ := (h.waits f hf r k hc).1 hw
      rcases hg with hg | hg
      · rw [hn] at hg
        exact Bool.noConfusion hg
      · rw [he] at hg
        exact Bool.noConfusion hg
  · rw [hc] at hg
    exact False.elim hg

/-- The calls and the writer stay as they are, but for reads that are gone. -/
theorem Sound.kept (h : s.Sound) {s' : Conn} (hl : s'.Lossless)
    (hw : ∀ f ∈ s'.calls.rows, ∀ r k, f.call = .read r (some k) → s'.Waits f.id r k)
    (hc : ∀ f ∈ s'.calls.rows, f ∈ s.calls.rows ∨ f.id < s'.nextId ∧ f.call ≠ .write true)
    (hk : ∀ f ∈ s.calls.rows, f.call = .write true → f ∈ s'.calls.rows)
    (hn : s.nextId ≤ s'.nextId) (ht : s'.tx = s.tx) (hlost : s'.lost = s.lost) : s'.Sound := by
  have hiff : s'.Writing ↔ s.Writing := by
    constructor
    · rintro ⟨f, hf, hfw⟩
      rcases hc f hf with hf | ⟨-, hne⟩
      · exact ⟨f, hf, hfw⟩
      · exact absurd hfw hne
    · rintro ⟨f, hf, hfw⟩
      exact ⟨f, hk f hf hfw, hfw⟩
  refine ⟨hl, fun f hf => ?_, hw, fun f hf g hg hfw hgw => ?_, ?_, ?_, ?_⟩
  · rcases hc f hf with hf | ⟨hlt, -⟩
    · exact Nat.lt_of_lt_of_le (h.fresh f hf) hn
    · exact hlt
  · rcases hc f hf with hf | ⟨-, hne⟩
    · rcases hc g hg with hg | ⟨-, hne⟩
      · exact h.one f hf g hg hfw hgw
      · exact absurd hgw hne
    · exact absurd hfw hne
  · rw [hiff, ht, hlost]
    exact h.held
  · rw [ht, hlost]
    exact h.gone
  · rw [hiff, ht, hlost]
    exact h.free

theorem Sound.received (h : s.Sound) (r : StreamResult) (bytes : Bytes) :
    (s.received r bytes).Sound := by
  unfold Conn.received
  split
  · exact h
  · have hl : s.returned ++ s.shared.buf = s.delivered := h.lossless
    have hwake (s' : Conn) (hs : s'.calls = s.calls)
        (hw : s'.woken = s.woken ++ s.shared.wakers) :
        ∀ f ∈ s'.calls.rows, ∀ r k, f.call = .read r (some k) → s'.Waits f.id r k := by
      intro f hf r k hc
      obtain ⟨hwa, hx⟩ := h.waits f (hs ▸ hf) r k hc
      refine ⟨fun hn => ?_, hx⟩
      rw [hw, List.mem_append, not_or] at hn
      exact absurd (hwa hn.1).1 hn.2
    have hsome {eof : Bool} : ({ s with
        shared := { s.shared with buf := s.shared.buf ++ bytes, eof, wakers := [] }
        delivered := s.delivered ++ bytes
        woken := s.woken ++ s.shared.wakers } : Conn).Sound := by
      refine h.kept ?_ (hwake _ rfl rfl) (fun f hf => .inl hf) (fun f hf _ => hf) (Nat.le_refl _)
        rfl rfl
      unfold Lossless
      rw [← List.append_assoc, hl]
    unfold Shared.received
    cases r with
    | dropped => exact hsome
    | complete =>
      dsimp only
      split
      · next hb =>
        rw [List.isEmpty_iff.1 hb, List.append_nil, List.append_nil]
        exact h
      · exact hsome
    | cancelled =>
      dsimp only
      split
      · next hb =>
        rw [List.isEmpty_iff.1 hb, List.append_nil, List.append_nil]
        exact h
      · exact hsome

theorem Sound.begin (h : s.Sound) {c : Call} (hr : ∀ r k, c ≠ .read r (some k))
    (hw : c ≠ .write true) : (s.begin c).Sound := by
  have hmem (f : Future) : f ∈ (s.begin c).calls.rows ↔ f = ⟨s.nextId, c⟩ ∨ f ∈ s.calls.rows := by
    refine Table.mem_rows_put.trans (or_congr_right (and_iff_left_of_imp fun hf => ?_))
    exact Nat.ne_of_lt (h.fresh f hf)
  refine h.kept h.lossless (fun f hf r k hc => ?_) (fun f hf => ?_)
    (fun f hf _ => (hmem f).2 (.inr hf)) (Nat.le_succ _) rfl rfl
  · rcases (hmem f).1 hf with rfl | hf
    · exact absurd hc (hr r k)
    · exact h.waits f hf r k hc
  · rcases (hmem f).1 hf with rfl | hf
    · exact .inr ⟨Nat.lt_succ_self _, hw⟩
    · exact .inl hf

/-- What is left after some of the buffer was taken. -/
theorem Waits.take {k n : Nat} (h : s.Waits id r k) {s' : Conn}
    (hs : s'.shared = (s.shared.takeFromBuf n).2) (hw : s'.woken = s.woken) : s'.Waits id r k := by
  refine ⟨fun hn => ?_, h.2⟩
  obtain ⟨hm, he, hf⟩ := h.1 (hw ▸ hn)
  rw [hs]
  exact ⟨hm, Shared.enough_takeFromBuf he, hf⟩

theorem Sound.takeBuffered (h : s.Sound) : s.takeBuffered.Sound := by
  refine h.kept ?_ (fun f hf r k hc => (h.waits f hf r k hc).take rfl rfl) (fun f hf => .inl hf)
    (fun f hf _ => hf) (Nat.le_refl _) rfl rfl
  have hl : s.returned ++ s.shared.buf = s.delivered := h.lossless
  dsimp only [Lossless, Conn.takeBuffered, Shared.takeFromBuf]
  rw [List.take_length, List.drop_length, List.append_nil, hl]

/-- A read is polled that is ready for it. -/
theorem Sound.polled (h : s.Sound) {start : Option Nat}
    (hg : s.calls.get? id = some ⟨id, .read r start⟩) (hc : s.ReadyFor (.read r start)) :
    (s.polled id r (s.shared.poll r start id)).Sound := by
  have hf : (⟨id, .read r start⟩ : Future) ∈ s.calls.rows := Table.mem_of_get? hg
  have hl : s.returned ++ s.shared.buf = s.delivered := h.lossless
  -- A write is another call.
  have hk (f : Future) (hm : f ∈ s.calls.rows) (hfw : f.call = .write true) : f.id ≠ id := by
    intro hid
    have he : f = ⟨id, .read r start⟩ := Table.eq_of_key_eq hm hf hid
    rw [he] at hfw
    exact nomatch hfw
  rcases s.shared.poll_cases r start id with ⟨n, -, hp⟩ | ⟨e, hp⟩ | ⟨k, hp, he, hwhy⟩
  · rw [hp]
    refine h.kept ?_ (fun f hf r k hc => ?_) (fun f hf => .inl (Table.mem_rows_erase.1 hf).1)
      (fun f hf hfw => Table.mem_rows_erase.2 ⟨hf, hk f hf hfw⟩) (Nat.le_refl _) rfl rfl
    · dsimp only [Lossless, Conn.polled, Shared.takeFromBuf]
      rw [List.append_assoc, List.take_append_drop, hl]
    · exact (h.waits f (Table.mem_rows_erase.1 hf).1 r k hc).take rfl rfl
  · rw [hp]
    exact h.kept hl (fun f hf => h.waits f (Table.mem_rows_erase.1 hf).1)
      (fun f hf => .inl (Table.mem_rows_erase.1 hf).1)
      (fun f hf hfw => Table.mem_rows_erase.2 ⟨hf, hk f hf hfw⟩) (Nat.le_refl _) rfl rfl
  · have hx (n : Nat) (hr : r = .readExact n) : k < n := by
      rcases hwhy with ⟨hkl, hno⟩ | ⟨hst, -⟩
      · rw [hr, Shared.enough] at hno
        split at hno
        · next hlt => exact hkl ▸ hlt
        · exact nomatch hno
      · exact (h.waits _ hf r k (congrArg _ hst)).2 n hr
    have hno : s.shared.enough r = none := by
      rcases hwhy with ⟨-, hno⟩ | ⟨rfl, hle⟩
      · exact hno
      · cases r with
        | readUntil needle =>
          cases hn : findSubslice s.shared.buf needle with
          | none => exact Option.map_eq_none_iff.2 hn
          | some i =>
            exact absurd (hc he (by rw [hn]; exact rfl)) (Nat.not_lt.2 hle)
        | readExact n => exact if_pos (Nat.lt_of_le_of_lt hle (hx n rfl))
        | readToEnd => rfl
    rw [hp]
    have hmem (f : Future) : f ∈ (s.calls.put ⟨id, .read r (some k)⟩).rows ↔
        f = ⟨id, .read r (some k)⟩ ∨ f ∈ s.calls.rows ∧ f.id ≠ id := Table.mem_rows_put
    refine h.kept hl (fun f hf' r' k' hc' => ?_) (fun f hf' => ?_)
      (fun f hf' hfw => (hmem f).2 (.inr ⟨hf', hk f hf' hfw⟩)) (Nat.le_refl _) rfl rfl
    · rcases (hmem f).1 hf' with rfl | ⟨hf', hid⟩
      · cases hc'
        exact ⟨fun _ => ⟨List.mem_append_right _ List.mem_cons_self, hno, he⟩, hx⟩
      · obtain ⟨hwa, hx'⟩ := h.waits f hf' r' k' hc'
        refine ⟨fun hw => ?_, hx'⟩
        have hw' : f.id ∉ s.woken := fun hm =>
          hw (List.mem_filter.2 ⟨hm, decide_eq_true hid⟩)
        exact ⟨List.mem_append_left _ (hwa hw').1, (hwa hw').2⟩
    · rcases (hmem f).1 hf' with rfl | ⟨hf', -⟩
      · exact .inr ⟨(h.fresh _ hf : id < s.nextId), nofun⟩
      · exact .inl hf'

/-- The calls that wait, after one has been put that does not. -/
theorem Sound.waits_put (h : s.Sound) {c : Call} (hr : ∀ r k, c ≠ .read r (some k)) :
    ∀ f ∈ (s.calls.put ⟨id, c⟩).rows, ∀ r k, f.call = .read r (some k) → s.Waits f.id r k := by
  intro f hf r k hc
  rcases Table.mem_rows_put.1 hf with rfl | ⟨hf, -⟩
  · exact absurd hc (hr r k)
  · exact h.waits f hf r k hc

/-- A write goes on that has the writer, or takes it. -/
theorem Sound.writing (h : s.Sound) {w : Bool} (hg : s.calls.get? id = some ⟨id, .write w⟩)
    (ht : w = false → s.tx = true) (leftover : Option Nat) : (s.writing id leftover).Sound := by
  have hf : (⟨id, .write w⟩ : Future) ∈ s.calls.rows := Table.mem_of_get? hg
  -- No other write has the writer, and none was dropped that had it.
  have hone (f : Future) (hm : f ∈ s.calls.rows) (hfw : f.call = .write true) : f.id = id := by
    cases w with
    | false => exact Bool.noConfusion ((h.held ⟨f, hm, hfw⟩).1.symm.trans (ht rfl))
    | true => exact congrArg Future.id (h.one f hm _ hf hfw rfl)
  have hlost : s.lost = false := by
    cases w with
    | false =>
      exact Bool.eq_false_iff.2 fun hl => Bool.noConfusion ((h.gone hl).symm.trans (ht rfl))
    | true => exact (h.held ⟨_, hf, rfl⟩).2
  cases leftover with
  | none =>
    have hw : (⟨id, .write true⟩ : Future) ∈ (s.calls.put ⟨id, .write true⟩).rows :=
      Table.mem_rows_put.2 (.inl rfl)
    have huniq (f : Future) (hm : f ∈ (s.calls.put ⟨id, .write true⟩).rows)
        (hfw : f.call = .write true) : f = ⟨id, .write true⟩ := by
      rcases Table.mem_rows_put.1 hm with rfl | ⟨hm, hid⟩
      · rfl
      · exact absurd (hone f hm hfw) hid
    refine ⟨h.lossless, fun f hm => ?_, h.waits_put nofun, fun f hm g hn hfw hgw => ?_,
      fun _ => ⟨rfl, hlost⟩, fun _ => rfl, fun _ => .inr ⟨_, hw, rfl⟩⟩
    · rcases Table.mem_rows_put.1 hm with rfl | ⟨hm, -⟩
      · exact (h.fresh _ hf : id < s.nextId)
      · exact h.fresh f hm
    · exact (huniq f hm hfw).trans (huniq g hn hgw).symm
  | some n =>
    have hnone : ¬ (s.writing id (some n)).Writing := by
      rintro ⟨f, hm, hfw⟩
      obtain ⟨hm, hid⟩ := Table.mem_rows_erase.1 hm
      exact hid (hone f hm hfw)
    refine ⟨h.lossless, fun f hm => h.fresh f (Table.mem_rows_erase.1 hm).1,
      fun f hm => h.waits f (Table.mem_rows_erase.1 hm).1, fun f hm g hn hfw _ => ?_,
      fun hw => absurd hw hnone, fun hl => ?_, nofun⟩
    · exact absurd ⟨f, hm, hfw⟩ hnone
    · exact Bool.noConfusion (hlost.symm.trans hl)

/-- A call comes to its end that does not have the writer. -/
theorem Sound.erase (h : s.Sound) (hg : s.calls.get? id ≠ some ⟨id, .write true⟩) :
    ({ s with calls := s.calls.erase id } : Conn).Sound := by
  refine h.kept h.lossless (fun f hf => h.waits f (Table.mem_rows_erase.1 hf).1)
    (fun f hf => .inl (Table.mem_rows_erase.1 hf).1) (fun f hf hfw => ?_) (Nat.le_refl _) rfl rfl
  refine Table.mem_rows_erase.2 ⟨hf, fun hid => hg ?_⟩
  obtain ⟨_, _⟩ := f
  dsimp only at hid hfw
  subst hid hfw
  exact Table.get?_of_mem hf

theorem Sound.poll (h : s.Sound) {leftover : Option Nat} (hc : s.Clean (.poll id leftover)) :
    (s.poll id leftover).Sound := by
  unfold Conn.poll
  split
  · exact h
  · next id' r start hg =>
    have hid : id' = id := Table.key_of_get? hg
    subst hid
    exact h.polled hg (hc _ hg)
  · next id' hg =>
    have hid : id' = id := Table.key_of_get? hg
    subst hid
    exact h.writing hg nofun leftover
  · next id' hg =>
    have hid : id' = id := Table.key_of_get? hg
    subst hid
    split
    · next ht => exact h.writing hg (fun _ => ht) leftover
    · refine h.erase fun he => ?_
      rw [hg] at he
      exact nomatch he

theorem Sound.drop (h : s.Sound) (id : Nat) : (s.drop id).Sound := by
  by_cases hg : s.calls.get? id = some ⟨id, .write true⟩
  · have hf : (⟨id, .write true⟩ : Future) ∈ s.calls.rows := Table.mem_of_get? hg
    have hnone : ¬ (s.drop id).Writing := by
      rintro ⟨f, hm, hfw⟩
      obtain ⟨hm, hid⟩ := Table.mem_rows_erase.1 hm
      exact hid (congrArg Future.id (h.one f hm _ hf hfw rfl))
    refine ⟨h.lossless, fun f hm => h.fresh f (Table.mem_rows_erase.1 hm).1,
      fun f hm => h.waits f (Table.mem_rows_erase.1 hm).1, fun f hm g hn hfw _ => ?_,
      fun hw => absurd hw hnone, fun _ => (h.held ⟨_, hf, rfl⟩).1, fun _ => .inl ?_⟩
    · exact absurd ⟨f, hm, hfw⟩ hnone
    · dsimp only [Conn.drop]
      rw [decide_eq_true hg, Bool.or_true]
  · unfold Conn.drop
    rw [decide_eq_false hg, Bool.or_false]
    exact h.erase hg

theorem Sound.next (h : s.Sound) {a : Act} (hc : s.Clean a) : (s.next a).Sound := by
  cases a with
  | received r bytes => exact h.received r bytes
  | read r => exact h.begin nofun nofun
  | write => exact h.begin nofun nofun
  | poll id leftover => exact h.poll hc
  | drop id => exact h.drop id
  | takeBuffered => exact h.takeBuffered

/-- A step leaves nothing waiting, loses nothing and refuses no write if and only if the call
    that is polled finds the stream as it needs it. -/
theorem Sound.upholds_iff (h : s.Sound) {a : Act} : s.Upholds a ↔ s.Clean a := by
  constructor
  · rintro ⟨-, hw, hr⟩
    cases a with
    | poll id leftover =>
      intro f hg
      have hid : f.id = id := Table.key_of_get? hg
      have hf : f ∈ s.calls.rows := Table.mem_of_get? hg
      obtain ⟨i, c⟩ := f
      dsimp only at hid ⊢
      subst hid
      match c with
      | .read (.readUntil needle) (some k) =>
        intro he hn
        by_contra hlt
        -- It goes on waiting, and nothing wakes it.
        have hp : s.shared.poll (.readUntil needle) (some k) i = s.shared.wait k i := by
          rw [Shared.poll, if_neg hlt, if_neg (Bool.eq_false_iff.1 he)]
        have hs : s.next (.poll i leftover) =
            s.polled i (.readUntil needle) (s.shared.wait k i) := by
          dsimp only [Conn.next]
          rw [Conn.poll, hg, ← hp]
        rw [hs] at hw
        have hm := hw ⟨i, .read (.readUntil needle) (some k)⟩ (Table.mem_rows_put.2 (.inl rfl))
          (.inl (by rw [Shared.enough, Option.isSome_map]; exact hn))
        exact of_decide_eq_true (List.mem_filter.1 hm).2 rfl
      | .read (.readUntil _) none | .read (.readExact _) _ | .read .readToEnd _ => trivial
      | .write true => trivial
      | .write false =>
        intro ho
        by_contra hl
        have hl := eq_true_of_ne_false hl
        refine hr ⟨hg, h.gone hl, ho, fun hw => ?_⟩
        exact Bool.noConfusion ((h.held hw).2.symm.trans hl)
    | received _ _ | read _ | write | drop _ | takeBuffered => trivial
  · intro hc
    refine ⟨(h.next hc).lossless, (h.next hc).allWoken, ?_⟩
    cases a with
    | poll id leftover =>
      rintro ⟨hg, ht, ho, hw⟩
      rcases h.free ht with hl | hw'
      · exact Bool.noConfusion ((hc _ hg ho).symm.trans hl)
      · exact hw hw'
    | received _ _ | read _ | write | drop _ | takeBuffered => exact id

/-- A stream that has just been connected. -/
def connected : Conn := {}

theorem sound_connected : connected.Sound :=
  ⟨rfl, nofun, nofun, nofun, fun ⟨_, hf, _⟩ => (List.not_mem_nil hf).elim, nofun, nofun⟩

end Conn

/-- In each state of a run no byte is lost, every read that can go on has been woken, and no
    write is refused on an open stream without another one to wait for, if and only if each call
    that is polled finds the stream as it needs it. -/
theorem stream_lossless (as : List Act) :
    Goes Conn.next Conn.Upholds Conn.connected as ↔
      Goes Conn.next Conn.Clean Conn.connected as := by
  suffices hs : ∀ s : Conn, s.Sound →
      (Goes Conn.next Conn.Upholds s as ↔ Goes Conn.next Conn.Clean s as) from
    hs _ Conn.sound_connected
  induction as with
  | nil => exact fun _ _ => Iff.rfl
  | cons a as ih =>
    intro s h
    rw [Goes, Goes, h.upholds_iff]
    exact and_congr_right fun hc => ih _ (h.next hc)

/-- A write is dropped while it waits. The next one is refused. -/
theorem dropped_write_refuses :
    ¬ Goes Conn.next Conn.Upholds Conn.connected
      [.write, .poll 0 none, .drop 0, .write, .poll 1 none] := by
  decide

end Wandr.Socket
