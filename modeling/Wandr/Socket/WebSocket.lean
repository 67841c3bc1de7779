import Wandr.Lib.Reads
import Wandr.Lib.Text
import Wandr.Socket.TlsStream

/-!
# Receiving on a WebSocket

A message comes in frames. The call that receives one reads a frame after the other until it
has a message whole, and keeps what it has so far to itself: the bytes of the frame it is in,
and the fragments of the message that came before. Dropped, it takes them with it.

* `Next.poll_spec`: what polling the call comes to depends on the bytes in the buffer only;
* `WebSocket.Same.next`: a call that has taken no bytes may be dropped and made again;
* `next_loses_nothing`: in a run in which no other one is, the messages are those of the run in
  which none is dropped.
-/

namespace Wandr.Socket

open Machine

/-! ## Frames -/

inductive CloseCode
  | normal
  | away
  | protocol
  | abnormal
  | other (c : Nat)
  deriving DecidableEq

def CloseCode.fromU16 (c : Nat) : CloseCode :=
  if c = 1000 then .normal
  else if c = 1001 then .away
  else if c = 1002 then .protocol
  else if c = 1006 then .abnormal
  else .other c

inductive Message
  | text (s : String)
  | binary (b : Bytes)
  | ping (b : Bytes)
  | pong (b : Bytes)
  | close (code : CloseCode) (reason : String)
  deriving DecidableEq

structure Frame where
  fin : Bool
  opcode : UInt8
  payload : Bytes

/-- A number of some bytes, the highest one first. -/
def fromBe (b : Bytes) : Nat := b.foldl (fun n x => n * 256 + x.toNat) 0

/-- How many bits the sizes of the target have. -/
def usizeBits : Nat := 32

def readExact (n : Nat) : ExceptT String (Reads String) Bytes := .mk (Reads.readExact n)

/-- The length of a payload, which the header says or the bytes after it. -/
def readLength (b : UInt8) : ExceptT String (Reads String) Nat :=
  if b = 126 then return fromBe (← readExact 2)
  else if b = 127 then return fromBe (← readExact 8) % 2 ^ usizeBits
  else return b.toNat

def readMaskKey (masked : Bool) : ExceptT String (Reads String) (Option Bytes) :=
  if masked then some <$> readExact 4 else pure none

def readPayload (len : Nat) : ExceptT String (Reads String) Bytes :=
  if 0 < len then readExact len else pure []

def unmask (payload : Bytes) : Option Bytes → Bytes
  | some k => payload.mapIdx fun i b => b ^^^ k.getD (i % 4) 0
  | none => payload

/-- A frame, after its header. -/
def readRest (hdr : Bytes) : ExceptT String (Reads String) Frame := do
  let len ← readLength (hdr.getD 1 0 &&& 0x7F)
  let maskKey ← readMaskKey (hdr.getD 1 0 &&& 0x80 != 0)
  let payload ← readPayload len
  return { fin := hdr.getD 0 0 &&& 0x80 != 0
           opcode := hdr.getD 0 0 &&& 0x0F
           payload := unmask payload maskKey }

/-- A frame, or nothing when the stream ends before its header. -/
def readFrame : Reads String (Except String (Option Frame)) := do
  match ← Reads.readExact 2 with
  | .error _ => return .ok none
  | .ok hdr => (some <$> readRest hdr).run

/-! ## Messages -/

def dataMessage (opcode : UInt8) (data : Bytes) : Message :=
  if opcode = 0x1 then .text (Text.utf8DecodeLossy data) else .binary data

def parseClose (payload : Bytes) : CloseCode × String :=
  if 2 ≤ payload.length then
    (.fromU16 (fromBe (payload.take 2)), Text.utf8DecodeLossy (payload.drop 2))
  else (.normal, "")

/-- What a call to receive a message returns. -/
abbrev Received := Option (Except String Message)

/-- The fragments of a message so far. -/
structure Frags where
  opcode : Option UInt8 := none
  payload : Bytes := []

/-- What becomes of a frame: the call returns, or goes on with the next one. -/
inductive Turn
  | ret (r : Received)
  | again (f : Frags)

def Frags.turn (f : Frags) : Except String (Option Frame) → Turn
  | .ok none => .ret none
  | .error e => .ret (some (.error e))
  | .ok (some frame) =>
    if frame.opcode = 0x0 then
      match f.opcode with
      | none => .ret (some (.error "unexpected continuation frame"))
      | some op =>
        if frame.fin then .ret (some (.ok (dataMessage op (f.payload ++ frame.payload))))
        else .again { f with payload := f.payload ++ frame.payload }
    else if frame.opcode = 0x1 ∨ frame.opcode = 0x2 then
      if frame.fin then .ret (some (.ok (dataMessage frame.opcode frame.payload)))
      else .again { opcode := some frame.opcode, payload := frame.payload }
    else if frame.opcode = 0x8 then
      .ret (some (.ok (.close (parseClose frame.payload).1 (parseClose frame.payload).2)))
    else if frame.opcode = 0x9 then .ret (some (.ok (.ping frame.payload)))
    else if frame.opcode = 0xA then .ret (some (.ok (.pong frame.payload)))
    else .ret (some (.error "unknown websocket opcode"))

/-- Where a call to receive a message is: the fragments so far, and what is left of the frame. -/
structure Reading where
  frags : Frags := {}
  frame : Reads String (Except String (Option Frame)) := readFrame

/-- A call that waits. It has found the buffer of some length. -/
structure Next extends Reading where
  start : Option Nat := none

inductive Polled
  | ready (r : Received)
  | pending (p : Next)

/-- Poll a program that reads from the buffer. -/
def pollReads {α : Type} (w : Nat) :
    Reads String α → Option Nat → Shared → (Reads String α × Option Nat) × Shared
  | .done a, _, s => ((.done a, none), s)
  | .exact n k, start, s =>
    match s.poll (.readExact n) start w with
    | (.ready r, s') => pollReads w (k r) none s'
    | (.pending startLen, s') => ((.exact n k, some startLen), s')

/-- Poll a call to receive a message. It reads a number of frames at most. -/
def Next.pollFor : Nat → Next → Shared → Polled × Shared
  | 0, p, s => (.pending p, s)
  | n + 1, p, s =>
    match pollReads 0 p.frame p.start s with
    | ((.done r, _), s') =>
      match p.frags.turn r with
      | .ret r => (.ready r, s')
      | .again frags => Next.pollFor n { frags } s'
    | ((frame, start), s') => (.pending { frags := p.frags, frame, start }, s')

/-- Poll a call to receive a message. A frame is two bytes at least, so there are no more of
    them in the buffer than it has bytes. -/
def Next.poll (p : Next) (s : Shared) : Polled × Shared := p.pollFor (s.buf.length + 2) s

/-! ## What is read -/

/-- What comes of reading some bytes: a message, and what is left of the bytes, or a call that
    waits. -/
inductive Outcome
  | ready (r : Received) (b : Bytes)
  | waits (p : Reading) (b : Bytes)

/-- Read from bytes at hand. At the end of the stream there are no more. -/
def Reading.advanceFor (ended : Option String) : Nat → Reading → Bytes → Outcome
  | 0, p, b => .waits p b
  | n + 1, p, b =>
    match p.frame.drain ended b with
    | (.done r, b') =>
      match p.frags.turn r with
      | .ret r => .ready r b'
      | .again frags => Reading.advanceFor ended n { frags } b'
    | (frame, b') => .waits { frags := p.frags, frame } b'

def Reading.advance (ended : Option String) (p : Reading) (b : Bytes) : Outcome :=
  p.advanceFor ended (b.length + 2) b

namespace Shared

variable {s : Shared}

/-- The error of a read of too few bytes, when the stream has ended. -/
def ended (s : Shared) : Option String :=
  if s.eof then some "connection closed before reading n bytes" else none

/-- A read of some bytes takes them when they are there. -/
theorem poll_readExact {n : Nat} {start : Option Nat} (w : Nat) (h : ∀ k ∈ start, k < n) :
    (n ≤ s.buf.length ∧
      s.poll (.readExact n) start w = (.ready (.ok (s.buf.take n)), (s.takeFromBuf n).2)) ∨
    (s.buf.length < n ∧ ∃ e ∈ s.ended, s.poll (.readExact n) start w = (.ready (.error e), s)) ∨
    (s.buf.length < n ∧ s.ended = none ∧ ∃ k < n, s.poll (.readExact n) start w = s.wait k w) := by
  by_cases hn : n ≤ s.buf.length
  · have he : s.enough (.readExact n) = some n := if_neg (Nat.not_lt.2 hn)
    have ha : s.attempt (.readExact n) w =
        (.ready (.ok (s.buf.take n)), (s.takeFromBuf n).2) := by
      rw [attempt, he]
      rfl
    refine .inl ⟨hn, ?_⟩
    cases start with
    | none => exact ha
    | some k => exact (if_pos (Nat.lt_of_lt_of_le (h k rfl) hn)).trans ha
  · have hlt := Nat.not_le.1 hn
    have he : s.enough (.readExact n) = none := if_pos hlt
    have ha : s.attempt (.readExact n) w =
        if s.eof then (.ready (s.atEnd (.readExact n)).1, (s.atEnd (.readExact n)).2)
        else s.wait s.buf.length w := by rw [attempt, he]
    unfold ended
    cases heof : s.eof with
    | true =>
      rw [heof, if_pos rfl] at ha
      refine .inr (.inl ⟨hlt, _, rfl, ?_⟩)
      cases start with
      | none => exact ha
      | some k =>
        rw [poll, ha, heof]
        exact ite_self _
    | false =>
      rw [heof, if_neg Bool.false_ne_true] at ha
      refine .inr (.inr ⟨hlt, rfl, ?_⟩)
      cases start with
      | none => exact ⟨_, hlt, ha⟩
      | some k =>
        rw [poll, ha, heof]
        by_cases hk : k < s.buf.length
        · exact ⟨_, hlt, if_pos hk⟩
        · exact ⟨k, h k rfl, if_neg hk⟩

end Shared

/-- A read that waits has found fewer bytes than it asks for. -/
def Waiting {α : Type} (p : Reads String α) (start : Option Nat) : Prop :=
  ∀ n k, p = .exact n k → ∀ l ∈ start, l < n

/-- A program that is polled goes on as far as the bytes in the buffer allow. -/
theorem pollReads_spec {α : Type} (w : Nat) (p : Reads String α) {start : Option Nat}
    (s : Shared) (h : Waiting p start) :
    ∃ start' wakers, pollReads w p start s = (((p.drain s.ended s.buf).1, start'),
        { s with buf := (p.drain s.ended s.buf).2, wakers }) ∧
      Waiting (p.drain s.ended s.buf).1 start' := by
  induction p generalizing start s with
  | done a => exact ⟨none, s.wakers, rfl, nofun⟩
  | exact n k ih =>
    rw [pollReads, Reads.drain_eq]
    rcases s.poll_readExact w (h n k rfl) with ⟨hn, hp⟩ | ⟨hlt, e, he, hp⟩ | ⟨hlt, he, l, hl, hp⟩
    · rw [if_pos hn, hp]
      exact ih _ (s.takeFromBuf n).2 nofun
    · rw [if_neg (Nat.not_le.2 hlt), hp, show s.ended = some e from he]
      obtain ⟨start', wakers, hs, hw⟩ := @ih (.error e) none s nofun
      rw [show s.ended = some e from he] at hs hw
      exact ⟨start', wakers, hs, hw⟩
    · rw [if_neg (Nat.not_le.2 hlt), hp, he]
      refine ⟨some l, s.wakers ++ [w], rfl, fun n' k' hk l' hl' => ?_⟩
      cases hk
      cases hl'
      exact hl

/-- What polling a call comes to. -/
def Outcome.IsPolled (s : Shared) : Outcome → Polled × Shared → Prop
  | .ready r b, o => ∃ wakers, o = (.ready r, { s with buf := b, wakers })
  | .waits p b, o => ∃ start wakers, Waiting p.frame start ∧
      o = (.pending { p with start }, { s with buf := b, wakers })

/-- A call that is polled reads what is in the buffer. -/
theorem Next.pollFor_spec {n : Nat} {p : Next} {s : Shared} (h : Waiting p.frame p.start) :
    (p.advanceFor s.ended n s.buf).IsPolled s (p.pollFor n s) := by
  induction n generalizing p s with
  | zero => exact ⟨p.start, s.wakers, h, rfl⟩
  | succ n ih =>
    obtain ⟨start, wakers, hp, hw⟩ := pollReads_spec 0 p.frame s h
    rw [pollFor, Reading.advanceFor, hp]
    generalize p.frame.drain s.ended s.buf = d at hw ⊢
    obtain ⟨d, b⟩ := d
    cases d with
    | done r =>
      dsimp only
      cases p.frags.turn r with
      | ret r => exact ⟨wakers, rfl⟩
      | again frags =>
        have hi := ih (p := { frags }) (s := { s with buf := b, wakers }) nofun
        dsimp only at hi ⊢
        exact hi
    | exact m k => exact ⟨start, wakers, hw, rfl⟩

theorem Next.poll_spec {p : Next} {s : Shared} (h : Waiting p.frame p.start) :
    (p.advance s.ended s.buf).IsPolled s (p.poll s) := pollFor_spec h

/-- The bytes that are left. -/
def Outcome.rest : Outcome → Bytes
  | .ready _ b => b
  | .waits _ b => b

namespace Reading

variable {ended : Option String}

-- The equations, ahead of the proofs.
section
attribute [local simp] advanceFor
end

theorem advanceFor_length_le (n : Nat) (p : Reading) (b : Bytes) :
    (p.advanceFor ended n b).rest.length ≤ b.length := by
  induction n generalizing p b with
  | zero => exact Nat.le_refl _
  | succ n ih =>
    have hd := p.frame.drain_length_le ended b
    rw [advanceFor]
    generalize p.frame.drain ended b = d at hd ⊢
    obtain ⟨d, b'⟩ := d
    cases d with
    | done r =>
      dsimp only
      cases p.frags.turn r with
      | ret r => exact hd
      | again frags => exact Nat.le_trans (ih _ _) hd
    | exact m k => exact hd

/-- A frame has a header at least. -/
theorem drain_readFrame_length (ended : Option String) {b : Bytes} (h : 2 ≤ b.length) :
    (readFrame.drain ended b).2.length + 2 ≤ b.length := by
  obtain ⟨k, hk⟩ : ∃ k, readFrame = .exact 2 k := ⟨_, rfl⟩
  rw [hk, Reads.drain_eq, if_pos h]
  have hd := (k (.ok (b.take 2))).drain_length_le ended (b.drop 2)
  rw [List.length_drop] at hd
  omega

/-- Too few bytes for a header are not taken. -/
theorem advance_short {b : Bytes} (h : b.length < 2) :
    advance none {} b = .waits {} b ∧ ∀ e, advance (some e) {} b = .ready none b := by
  obtain ⟨k, hk, he⟩ : ∃ k, readFrame = .exact 2 k ∧ ∀ e, k (.error e) = .done (.ok none) :=
    ⟨_, rfl, fun _ => rfl⟩
  constructor
  · have hd : readFrame.drain none b = (readFrame, b) := by rw [hk, Reads.drain_wait h]
    unfold advance
    rw [advanceFor, hd, hk]
  · intro e
    have hd : readFrame.drain (some e) b = (.done (.ok none), b) := by
      rw [hk, Reads.drain_ended h, he]
      rfl
    unfold advance
    rw [advanceFor, hd]
    rfl

/-- A call that waits and has taken nothing is as it was made. -/
theorem advance_untouched {b b' : Bytes} {p : Reading} (h : advance ended {} b = .waits p b')
    (hl : b.length ≤ b'.length) : p = {} := by
  by_cases hb : b.length < 2
  · cases ended with
    | none => exact ((Outcome.waits.inj ((advance_short hb).1.symm.trans h)).1).symm
    | some e => exact nomatch ((advance_short hb).2 e).symm.trans h
  · have hd := drain_readFrame_length ended (Nat.not_lt.1 hb)
    have hr : (advance ended {} b).rest = b' := by rw [h]; rfl
    unfold advance at hr
    rw [advanceFor] at hr
    dsimp only at hr
    generalize readFrame.drain ended b = d at hd hr
    obtain ⟨d, c⟩ := d
    have hc : b'.length ≤ c.length := by
      cases d with
      | done r =>
        dsimp only at hr
        generalize ({} : Frags).turn r = u at hr
        cases u with
        | ret r => exact Nat.le_of_eq (congrArg _ hr.symm)
        | again frags => exact hr ▸ advanceFor_length_le _ _ _
      | exact m k => exact Nat.le_of_eq (congrArg _ hr.symm)
    dsimp only at hd
    omega

end Reading

/-! ## Runs -/

/-- The receiving half of a socket: the call under way and how many bytes it has taken from the
    buffer, and what calls have returned. -/
structure WebSocket where
  shared : Shared := {}
  pending : Option Next := none
  out : List Received := []
  taken : Nat := 0

/-- What happens to a socket: the reader task comes back from a read; the call to receive a
    message is polled, after it was made if need be; the call is dropped. -/
inductive SocketStep
  | received (r : StreamResult) (bytes : Bytes)
  | poll
  | drop
  deriving DecidableEq

namespace WebSocket

variable (s : WebSocket)

def received (r : StreamResult) (bytes : Bytes) : WebSocket :=
  if s.shared.eof then s
  else { s with shared := (s.shared.received r bytes).1 }

def polled : Polled × Shared → WebSocket
  | (.ready r, shared) => { s with shared, pending := none, out := s.out ++ [r], taken := 0 }
  | (.pending p, shared) =>
    { s with shared, pending := some p
             taken := s.taken + (s.shared.buf.length - shared.buf.length) }

def next : SocketStep → WebSocket
  | .received r bytes => s.received r bytes
  | .poll => s.polled ((s.pending.getD {}).poll s.shared)
  | .drop => { s with pending := none, taken := 0 }

/-- A call that is dropped has taken no bytes. -/
def Untouched (s : WebSocket) : SocketStep → Prop
  | .drop => s.taken = 0
  | _ => True

/-- The call under way, or one that is made now. -/
def call : Next := s.pending.getD {}

/-- A call that waits has found fewer bytes than it asks for, and one that has taken none is as it
    was made. -/
structure Held (s : WebSocket) : Prop where
  waiting : Waiting s.call.frame s.call.start
  untouched : s.taken = 0 → s.call.toReading = {}

instance decidableUntouched : (i : SocketStep) → Decidable (s.Untouched i)
  | .drop => inferInstanceAs (Decidable (_ = _))
  | .received _ _ => inferInstanceAs (Decidable True)
  | .poll => inferInstanceAs (Decidable True)

variable {s} {t : WebSocket} {i : SocketStep}

/-- What polling the call comes to. -/
theorem next_poll (h : s.Held) :
    (∃ r b wakers, s.call.advance s.shared.ended s.shared.buf = .ready r b ∧
      s.next .poll = { s with
        shared := { s.shared with buf := b, wakers }
        pending := none
        out := s.out ++ [r]
        taken := 0 }) ∨
    ∃ p b start wakers, s.call.advance s.shared.ended s.shared.buf = .waits p b ∧
      Waiting p.frame start ∧ s.next .poll = { s with
        shared := { s.shared with buf := b, wakers }
        pending := some { p with start }
        taken := s.taken + (s.shared.buf.length - b.length) } := by
  have hp := Next.poll_spec (s := s.shared) h.waiting
  have hs : s.next .poll = s.polled (s.call.poll s.shared) := rfl
  rw [hs]
  generalize s.call.toReading.advance s.shared.ended s.shared.buf = o at hp ⊢
  cases o with
  | ready r b =>
    obtain ⟨wakers, ho⟩ := hp
    rw [ho]
    exact .inl ⟨r, b, wakers, rfl, rfl⟩
  | waits p b =>
    obtain ⟨start, wakers, hw, ho⟩ := hp
    rw [ho]
    exact .inr ⟨p, b, start, wakers, rfl, hw, rfl⟩

theorem Held.next (h : s.Held) : (s.next i).Held := by
  cases i with
  | received r bytes =>
    dsimp only [WebSocket.next, WebSocket.received]
    split
    · exact h
    · exact ⟨h.waiting, h.untouched⟩
  | poll =>
    rcases next_poll h with ⟨r, b, wakers, -, hs⟩ | ⟨p, b, start, wakers, ha, hw, hs⟩
    · rw [hs]
      exact ⟨nofun, fun _ => rfl⟩
    · rw [hs]
      refine ⟨hw, fun ht => ?_⟩
      dsimp only at ht
      rw [h.untouched (by omega)] at ha
      exact Reading.advance_untouched ha (by omega)
  | drop => exact ⟨nofun, fun _ => rfl⟩

/-- Two sockets have the same bytes, are at the same place of the same frame, and have returned
    the same. -/
structure Same (s t : WebSocket) : Prop where
  buf : s.shared.buf = t.shared.buf
  eof : s.shared.eof = t.shared.eof
  reading : s.call.toReading = t.call.toReading
  out : s.out = t.out

/-- The bytes that the reader task brings are the same for both. -/
theorem Same.received (h : s.Same t) (r : StreamResult) (bytes : Bytes) :
    (s.received r bytes).Same (t.received r bytes) := by
  have hr : (s.shared.received r bytes).1.buf = (t.shared.received r bytes).1.buf ∧
      (s.shared.received r bytes).1.eof = (t.shared.received r bytes).1.eof := by
    unfold Shared.received
    cases r with
    | dropped => exact ⟨congrArg (· ++ bytes) h.buf, rfl⟩
    | complete | cancelled =>
      dsimp only
      split
      · exact ⟨h.buf, h.eof⟩
      · exact ⟨congrArg (· ++ bytes) h.buf, h.eof⟩
  unfold WebSocket.received
  rw [← h.eof]
  split
  · exact h
  · exact ⟨hr.1, hr.2, h.reading, h.out⟩

theorem Same.poll (h : s.Same t) (hs : s.Held) (ht : t.Held) :
    (s.next .poll).Same (t.next .poll) := by
  have ha : s.call.advance s.shared.ended s.shared.buf =
      t.call.advance t.shared.ended t.shared.buf := by
    rw [Shared.ended, Shared.ended, h.reading, h.buf, h.eof]
  rcases next_poll hs with ⟨r, b, _, hsa, hs⟩ | ⟨p, b, _, _, hsa, -, hs⟩
  · rcases next_poll ht with ⟨r', b', _, hta, ht⟩ | ⟨p', b', _, _, hta, -, ht⟩
    · obtain ⟨rfl, rfl⟩ := Outcome.ready.inj ((hsa.symm.trans ha).trans hta)
      rw [hs, ht]
      exact ⟨rfl, h.eof, rfl, congrArg (· ++ [r]) h.out⟩
    · exact nomatch (hsa.symm.trans ha).trans hta
  · rcases next_poll ht with ⟨r', b', _, hta, ht⟩ | ⟨p', b', _, _, hta, -, ht⟩
    · exact nomatch (hsa.symm.trans ha).trans hta
    · obtain ⟨rfl, rfl⟩ := Outcome.waits.inj ((hsa.symm.trans ha).trans hta)
      rw [hs, ht]
      exact ⟨rfl, h.eof, rfl, h.out⟩

/-- A call that has taken no bytes may be dropped. -/
theorem Same.drop (h : s.Same t) (hs : s.Held) (hu : s.Untouched .drop) :
    (s.next .drop).Same t :=
  ⟨h.buf, h.eof, (hs.untouched hu).symm.trans h.reading, h.out⟩

/-- A socket that has just been connected. -/
def connected : WebSocket := {}

theorem held_connected : connected.Held := ⟨nofun, fun _ => rfl⟩

end WebSocket

/-- If each call that is dropped has taken no bytes, the calls return what they return when none
    is dropped. -/
theorem next_loses_nothing (is : List SocketStep)
    (h : Goes WebSocket.next WebSocket.Untouched WebSocket.connected is) :
    (is.foldl WebSocket.next .connected).out =
      ((is.filter (· ≠ .drop)).foldl WebSocket.next .connected).out := by
  suffices hs : ∀ s t : WebSocket, s.Same t → s.Held → t.Held →
      Goes WebSocket.next WebSocket.Untouched s is →
      (is.foldl WebSocket.next s).Same ((is.filter (· ≠ .drop)).foldl WebSocket.next t) from
    (hs _ _ ⟨rfl, rfl, rfl, rfl⟩ WebSocket.held_connected WebSocket.held_connected h).out
  clear h
  induction is with
  | nil => exact fun _ _ h _ _ _ => h
  | cons i is ih =>
    intro s t h hs ht hg
    cases i with
    | received r bytes => exact ih _ _ (h.received r bytes) hs.next ht.next hg.2
    | poll => exact ih _ _ (h.poll hs ht) hs.next ht.next hg.2
    | drop => exact ih _ _ (h.drop hs hg.1) hs.next ht hg.2

/-- A call is dropped before anything has come, and one is dropped that has found less than a
    header. -/
theorem next_loses_nothing_sample :
    ([SocketStep.poll, .drop, .received .complete [0x89], .poll, .drop, .poll,
        .received .complete [0x00], .poll].foldl WebSocket.next .connected).out =
      (([SocketStep.poll, .drop, .received .complete [0x89], .poll, .drop, .poll,
        .received .complete [0x00], .poll].filter (· ≠ .drop)).foldl WebSocket.next
          .connected).out :=
  next_loses_nothing _ (by decide)

/-- A call is dropped that has read the header of a ping. The next one takes the payload for a
    header. -/
theorem dropped_next_loses :
    ([SocketStep.received .complete [0x89, 0x02], .poll, .drop,
        .received .complete [0x8A, 0x00], .poll].foldl WebSocket.next .connected).out ≠
      (([SocketStep.received .complete [0x89, 0x02], .poll, .drop,
        .received .complete [0x8A, 0x00], .poll].filter (· ≠ .drop)).foldl WebSocket.next
          .connected).out := by
  decide

end Wandr.Socket
