import Wandr.Socket.Codec

/-!
# Sending on a WebSocket

A call that sends writes one frame, masked with a key of its own. A socket is closed once, and says
so in a frame; when it is closed again nothing is written. The peer may go away while it takes a
frame, or the call may be dropped while it writes: then part of the frame is on the wire, and no
other write gets through.

* `Outgoing.Spoke.run`: what is on the wire are the frames of the calls that succeeded, and what
  was left in the middle behind them;
* `sent_arrives`: however these bytes arrive at the other end, the calls that receive there return
  the messages of the calls that succeeded, in order.
-/

namespace Wandr.Socket

open Machine

/-! ## What is sent -/

def CloseCode.toU16 : CloseCode → Nat
  | .normal => 1000
  | .away => 1001
  | .protocol => 1002
  | .abnormal => 1006
  | .other c => c

namespace Message

/-- The opcode of a message. -/
def opcode : Message → UInt8
  | .text _ => 0x1
  | .binary _ => 0x2
  | .ping _ => 0x9
  | .pong _ => 0xA
  | .close _ _ => 0x8

def payload : Message → Bytes
  | .text s => Text.utf8Encode s
  | .binary b => b
  | .ping b => b
  | .pong b => b
  | .close code reason => toBe 2 code.toU16 ++ Text.utf8Encode reason

/-- A message has no code that is too large, nor more bytes than there are sizes. -/
structure Fits (m : Message) : Prop where
  code : ∀ code reason, m = .close code reason → code.toU16 < 2 ^ 16
  size : m.payload.length < 2 ^ usizeBits

/-- What is received of a message: a code that has a name comes under it. -/
def arrived : Message → Message
  | .close code reason => .close (.fromU16 code.toU16) reason
  | m => m

end Message

/-- The calls that send. -/
inductive SendCall
  | send (m : Message)
  | close (code : CloseCode) (reason : Option String)

namespace SendCall

def message : SendCall → Message
  | .send m => m
  | .close code reason => .close code (reason.getD "")

/-- A socket that is closed is not closed again. -/
def Again (closed : Bool) : SendCall → Prop
  | .send _ => False
  | .close _ _ => closed = true

instance (closed : Bool) : (c : SendCall) → Decidable (c.Again closed)
  | .send _ => isFalse id
  | .close _ _ => inferInstanceAs (Decidable (closed = true))

end SendCall

/-- How a write goes: to its end, or until the peer goes away or the call is dropped, when some
    bytes have been taken. -/
inductive Fate
  | through
  | gone (taken : Nat)
  | dropped (taken : Nat)

namespace Fate

/-- How much is taken of some bytes. -/
def takes (data : Bytes) : Fate → Bytes
  | .through => data
  | .gone n => data.take n
  | .dropped n => data.take n

def isGone : Fate → Bool
  | .gone _ => true
  | _ => false

def isDropped : Fate → Bool
  | .dropped _ => true
  | _ => false

end Fate

/-- A call that sends, with the key it draws and how its write goes. -/
structure Sending where
  call : SendCall
  key : { k : Bytes // k.length = 4 }
  fate : Fate

/-- The end of a socket that sends: whether it is closed, whether the writer is in its place and
    the peer is there, and what the peer has taken. -/
structure Outgoing where
  closed : Bool := false
  writer : Bool := true
  gone : Bool := false
  wire : Bytes := []

namespace Outgoing

/-- What the peer takes of some bytes. -/
def taken (s : Outgoing) (data : Bytes) (fate : Fate) : Bytes :=
  if s.gone then [] else fate.takes data

/-- The writer is taken out of its place for the write, and put back when the call goes on. -/
def writeAll (s : Outgoing) (data : Bytes) (fate : Fate) :
    Outgoing × Option (Except String Unit) :=
  if !s.writer then (s, some (.error "tls write: writer busy or closed"))
  else
    ({ s with
        writer := !fate.isDropped
        gone := s.gone || fate.isGone
        wire := s.wire ++ s.taken data fate },
      if fate.isDropped then none
      else if (s.taken data fate).length = data.length then some (.ok ())
      else some (.error "tls stream closed while writing"))

def send (s : Outgoing) (m : Message) (key : Bytes) (fate : Fate) :
    Outgoing × Option (Except String Unit) :=
  s.writeAll (encodeClientFrame m.opcode m.payload key) fate

/-- What becomes of a call. One that is dropped returns nothing. -/
def next (s : Outgoing) (x : Sending) : Outgoing × Option (Except String Unit) :=
  match x.call with
  | .send m => s.send m x.key x.fate
  | .close code reason =>
    if s.closed then (s, some (.ok ()))
    else { s with closed := true }.send (.close code (reason.getD "")) x.key x.fate

def run (s : Outgoing) (xs : List Sending) : Outgoing := xs.foldl (fun s x => (s.next x).1) s

/-- A call succeeds, and it is not one that closes again. -/
def Succeeds (s : Outgoing) (x : Sending) : Prop :=
  ¬ x.call.Again s.closed ∧ (s.next x).2 = some (.ok ())

instance (s : Outgoing) (x : Sending) : Decidable (s.Succeeds x) := instDecidableAnd

/-- The messages of the calls that succeed. -/
def said (s : Outgoing) : List Sending → List Message
  | [] => []
  | x :: xs => (if s.Succeeds x then [x.call.message] else []) ++ (s.next x).1.said xs

end Outgoing

/-! ## What is received -/

namespace Message

variable {m : Message}

theorem opcode_lt (m : Message) : m.opcode.toNat < 16 := by
  cases m with
  | text s => exact (by decide : (0x1 : UInt8).toNat < 16)
  | binary b => exact (by decide : (0x2 : UInt8).toNat < 16)
  | ping b => exact (by decide : (0x9 : UInt8).toNat < 16)
  | pong b => exact (by decide : (0xA : UInt8).toNat < 16)
  | close code reason => exact (by decide : (0x8 : UInt8).toNat < 16)

/-- The frame of a message. -/
def sent (m : Message) (h : m.Fits) (key : { k : Bytes // k.length = 4 }) : Sent :=
  ⟨true, m.opcode, piece m.payload (some key) h.size, m.opcode_lt⟩

theorem encode_sent (h : m.Fits) (key : { k : Bytes // k.length = 4 }) :
    (m.sent h key).encode = encodeClientFrame m.opcode m.payload key :=
  encode_client h.size key.2

/-- A close comes back from what it says. -/
theorem parseClose_payload {code : CloseCode} (h : code.toU16 < 2 ^ 16) (reason : String) :
    parseClose (toBe 2 code.toU16 ++ Text.utf8Encode reason) = (.fromU16 code.toU16, reason) := by
  have hlen := length_toBe 2 code.toU16
  have hcode : fromBe (toBe 2 code.toU16) = code.toU16 := fromBe_toBe (Nat.lt_of_lt_of_eq h rfl)
  rw [parseClose, if_pos (by rw [List.length_append, hlen]; exact Nat.le_add_right _ _),
    List.take_left' hlen, List.drop_left' hlen, hcode, Text.utf8DecodeLossy_utf8Encode]

/-- A message comes in one frame, so a call returns it. -/
theorem turn_sent (h : m.Fits) (key : { k : Bytes // k.length = 4 }) (f : Frags) :
    f.turn (.ok (some (m.sent h key).frame)) = .ret (delivered m.arrived) := by
  cases m with
  | text s => exact congrArg (fun m => Turn.ret (delivered m)) (Content.text s).dataMessage_bytes
  | binary b => rfl
  | ping b => rfl
  | pong b => rfl
  | close code reason =>
    have hp := parseClose_payload (h.code code reason rfl) reason
    exact congrArg (fun p => Turn.ret (delivered (.close p.1 p.2))) hp

theorem answers_sent (h : m.Fits) (key : { k : Bytes // k.length = 4 }) (xs : List Sent) :
    answers {} (m.sent h key :: xs) = delivered m.arrived :: answers {} xs := by
  rw [answers, turn_sent]

end Message

/-- The calls return what they make of the frames that come, whatever comes behind them. -/
theorem outputs_append {n : Nat} {f : Frags} {xs : List Sent} (h : n ≤ (answers f xs).length)
    (rest : Bytes) :
    (Reading.advance none { frags := f } (xs.flatMap Sent.encode ++ rest)).outputs none n =
      (answers f xs).take n := by
  induction xs generalizing n f with
  | nil =>
    obtain rfl : n = 0 := Nat.le_zero.1 h
    rfl
  | cons x xs ih =>
    rw [answers] at h ⊢
    rw [List.flatMap_cons, List.append_assoc, Sent.encode, Reading.advance_encode _ x.small,
      Reading.step]
    dsimp only [Sent.frame] at h ⊢
    cases hturn : f.turn (.ok (some ⟨x.fin, x.opcode, x.piece.payload⟩)) with
    | ret r =>
      rw [hturn] at h
      cases n with
      | zero => rfl
      | succ n => exact congrArg (List.cons r) (ih (Nat.le_of_succ_le_succ h))
    | again f' =>
      rw [hturn] at h
      exact ih h

/-! ## What is on the wire -/

/-- A frame has bytes. -/
theorem encodeClientFrame_ne_nil (opcode : UInt8) (payload key : Bytes) :
    encodeClientFrame opcode payload key ≠ [] := List.cons_ne_nil _ _

namespace Outgoing

variable {s : Outgoing} {x : Sending} {xs : List Sending} {data : Bytes} {fate : Fate}

/-- No write gets through any more. -/
def Stuck (s : Outgoing) : Prop := s.writer = false ∨ s.gone = true

/-- What comes of a write: all of the bytes are on the wire, or some of them and no more can be. -/
inductive Wrote (s : Outgoing) (data : Bytes) : Outgoing × Option (Except String Unit) → Prop
  | whole (s' : Outgoing) (wire : s'.wire = s.wire ++ data) : Wrote s data (s', some (.ok ()))
  | part (s' : Outgoing) (r : Option (Except String Unit)) (part : Bytes)
      (wire : s'.wire = s.wire ++ part) (stuck : s'.Stuck) (hr : r ≠ some (.ok ())) :
      Wrote s data (s', r)

/-- As many bytes as there are were taken of them, so it is all of them. -/
theorem takes_eq (h : (fate.takes data).length = data.length) : fate.takes data = data := by
  have hp : fate.takes data <+: data := by
    cases fate with
    | through => exact List.prefix_rfl
    | gone n => exact List.take_prefix n data
    | dropped n => exact List.take_prefix n data
  exact hp.eq_of_length h

/-- A call that returns, and whose bytes are not all taken, has found the peer gone. -/
theorem gone_of_taken (hl : (s.taken data fate).length ≠ data.length)
    (hf : fate.isDropped = false) : (s.gone || fate.isGone) = true := by
  cases hg : s.gone with
  | true => rfl
  | false =>
    rw [taken, hg] at hl
    cases fate with
    | through => exact absurd rfl hl
    | gone n => rfl
    | dropped n => exact nomatch hf

/-- No byte is taken when the peer is gone. -/
theorem not_gone_of_taken (hd : data ≠ []) (hl : (s.taken data fate).length = data.length) :
    s.gone = false := by
  cases hg : s.gone with
  | false => rfl
  | true =>
    rw [taken, hg] at hl
    exact absurd (List.eq_nil_of_length_eq_zero hl.symm) hd

theorem wrote_writeAll (hd : data ≠ []) : s.Wrote data (s.writeAll data fate) := by
  unfold writeAll
  by_cases hw : s.writer = true
  · rw [if_neg (by rw [hw]; exact Bool.false_ne_true)]
    by_cases hf : fate.isDropped = true
    · rw [if_pos hf]
      exact .part _ _ _ rfl (.inl (by rw [hf]; rfl)) nofun
    · rw [if_neg hf]
      by_cases hl : (s.taken data fate).length = data.length
      · have ht : s.taken data fate = data := by
          have hg := Bool.eq_false_iff.1 (not_gone_of_taken hd hl)
          rw [taken, if_neg hg] at hl ⊢
          exact takes_eq hl
        rw [if_pos hl]
        exact .whole _ (congrArg (s.wire ++ ·) ht)
      · rw [if_neg hl]
        exact .part _ _ _ rfl (.inr (gone_of_taken hl (Bool.eq_false_iff.2 hf))) nofun
  · rw [if_pos (by rw [Bool.not_eq_true _ |>.mp hw]; rfl)]
    exact .part s _ [] (List.append_nil _).symm (.inl (Bool.eq_false_iff.2 hw)) nofun

/-- A write that cannot get through puts nothing on the wire, and so it stays. -/
theorem Stuck.writeAll (h : s.Stuck) (fate : Fate) (hd : data ≠ []) :
    (s.writeAll data fate).1.Stuck ∧ (s.writeAll data fate).1.wire = s.wire ∧
      (s.writeAll data fate).2 ≠ some (.ok ()) := by
  unfold Outgoing.writeAll
  by_cases hw : s.writer = true
  · have hg : s.gone = true := h.resolve_left fun hw' => Bool.noConfusion (hw.symm.trans hw')
    have ht : s.taken data fate = [] := if_pos hg
    have hl : ¬ (s.taken data fate).length = data.length := fun hl =>
      hd (List.eq_nil_of_length_eq_zero (hl.symm.trans (congrArg List.length ht)))
    rw [if_neg (by rw [hw]; exact Bool.false_ne_true), if_neg hl]
    refine ⟨.inr (by rw [hg]; rfl), ?_, ?_⟩
    · dsimp only
      rw [ht, List.append_nil]
    · dsimp only
      split
      · exact nofun
      · exact nofun
  · rw [if_pos (by rw [Bool.eq_false_iff.2 hw]; rfl)]
    exact ⟨h, rfl, nofun⟩

/-- A call that does not close again writes the frame of its message. -/
theorem next_eq (h : ¬ x.call.Again s.closed) : ∃ closed, s.next x =
    { s with closed }.writeAll
      (encodeClientFrame x.call.message.opcode x.call.message.payload x.key) x.fate := by
  obtain ⟨call, key, fate⟩ := x
  cases call with
  | send m => exact ⟨s.closed, rfl⟩
  | close code reason => exact ⟨true, if_neg h⟩

theorem next_again (h : x.call.Again s.closed) : s.next x = (s, some (.ok ())) := by
  obtain ⟨call, key, fate⟩ := x
  cases call with
  | send m => exact h.elim
  | close code reason => exact if_pos h

/-- Once no write gets through, no call that writes succeeds, and nothing is on the wire but what
    was. -/
theorem Stuck.run (h : s.Stuck) (xs : List Sending) :
    s.said xs = [] ∧ (s.run xs).wire = s.wire := by
  induction xs generalizing s with
  | nil => exact ⟨rfl, rfl⟩
  | cons x xs ih =>
    rw [said]
    by_cases ha : x.call.Again s.closed
    · have hn := next_again ha
      rw [if_neg fun hs => hs.1 ha, List.nil_append, hn]
      obtain ⟨hsaid, hwire⟩ := ih h
      exact ⟨hsaid, (congrArg (fun r => (Outgoing.run r.1 xs).wire) hn).trans hwire⟩
    · obtain ⟨closed, hn⟩ := next_eq ha
      have hstuck : ({ s with closed } : Outgoing).Stuck := h
      obtain ⟨hs, hw, hr⟩ := hstuck.writeAll x.fate
        (encodeClientFrame_ne_nil x.call.message.opcode x.call.message.payload x.key)
      rw [← hn] at hs hw hr
      obtain ⟨hsaid, hwire⟩ := ih hs
      rw [if_neg fun hsucc => hr hsucc.2, List.nil_append]
      exact ⟨hsaid, hwire.trans hw⟩

/-- What calls leave on the wire: the frames of those that succeed, and what was left in the middle
    behind them. Receiving the frames gives the messages. -/
def Spoke (s s' : Outgoing) (ms : List Message) : Prop :=
  ∃ (fs : List Sent) (rest : Bytes), s'.wire = s.wire ++ (fs.flatMap Sent.encode ++ rest) ∧
    answers {} fs = ms.map fun m => delivered m.arrived

theorem spoke_run (hx : ∀ x ∈ xs, x.call.message.Fits) : s.Spoke (s.run xs) (s.said xs) := by
  induction xs generalizing s with
  | nil => exact ⟨[], [], (List.append_nil _).symm, rfl⟩
  | cons x xs ih =>
    have hrest : ∀ y ∈ xs, y.call.message.Fits := fun y hy => hx y (List.mem_cons_of_mem x hy)
    rw [said]
    by_cases ha : x.call.Again s.closed
    · have hn := next_again ha
      have hi := ih (s := s) hrest
      rw [if_neg fun hs => hs.1 ha, List.nil_append, hn]
      exact (congrArg (fun r => s.Spoke (Outgoing.run r.1 xs) (s.said xs)) hn).mpr hi
    · obtain ⟨closed, hn⟩ := next_eq ha
      have hw : ({ s with closed } : Outgoing).Wrote
          (encodeClientFrame x.call.message.opcode x.call.message.payload x.key) (s.next x) :=
        hn ▸ wrote_writeAll (encodeClientFrame_ne_nil _ _ _)
      have hfits := hx x List.mem_cons_self
      change s.Spoke ((s.next x).1.run xs) _
      have hsucc : s.Succeeds x ↔ (s.next x).2 = some (.ok ()) := and_iff_right ha
      rw [if_congr hsucc rfl rfl]
      generalize s.next x = r at hw
      cases hw with
      | whole s' wire =>
        obtain ⟨fs, rest, hfs, hans⟩ := ih (s := s') hrest
        refine ⟨x.call.message.sent hfits x.key :: fs, rest, ?_, ?_⟩
        · rw [hfs, wire, List.flatMap_cons, Message.encode_sent]
          simp only [List.append_assoc]
        · rw [Message.answers_sent, hans, if_pos rfl]
          rfl
      | part s' r part wire stuck hr =>
        obtain ⟨hsaid, hwire⟩ := stuck.run xs
        rw [if_neg hr, hsaid]
        exact ⟨[], part, hwire.trans wire, rfl⟩

end Outgoing

/-- Calls send at one end of a socket, and their bytes arrive at the other, in pieces or at once. If
    no call that receives is dropped there, the first ones return the messages of the calls that
    succeeded, in order: texts and bytes as they were, and the codes of closes under their names. -/
theorem sent_arrives {xs : List Sending} (hx : ∀ x ∈ xs, x.call.message.Fits)
    {is : List SocketStep} (ha : arriving is = (Outgoing.run {} xs).wire)
    (hd : SocketStep.drop ∉ is) :
    ((is ++ List.replicate (Outgoing.said {} xs).length SocketStep.poll).foldl WebSocket.next
        .connected).out.take (Outgoing.said {} xs).length =
      (Outgoing.said {} xs).map fun m => delivered m.arrived := by
  obtain ⟨fs, rest, hw, hans⟩ := Outgoing.spoke_run (s := {}) hx
  have hlen : (answers {} fs).length = (Outgoing.said {} xs).length :=
    (congrArg List.length hans).trans (List.length_map _)
  have ho := outputs_append (Nat.le_refl (answers {} fs).length) rest
  rw [← List.nil_append (_ ++ rest), ← hw, ← ha, List.take_length] at ho
  have hout := WebSocket.out_of_arriving ho hd (Nat.le_refl _)
  rw [hlen, hans] at hout
  exact hout

/-! ### A socket that is closed twice -/

def sampleKey : { k : Bytes // k.length = 4 } := ⟨[1, 2, 3, 4], rfl⟩

/-- A text, two closes, and a ping in whose frame the peer goes away. -/
def sampleSendings : List Sending :=
  [⟨.send (.text "hi"), sampleKey, .through⟩, ⟨.close (.other 1001) none, sampleKey, .through⟩,
    ⟨.close .normal (some "bye"), sampleKey, .through⟩, ⟨.send (.ping [5]), sampleKey, .gone 3⟩,
    ⟨.send (.binary [6]), sampleKey, .through⟩]

theorem fits_sampleSendings : ∀ x ∈ sampleSendings, x.call.message.Fits := by
  simp only [sampleSendings, List.forall_mem_cons, SendCall.message]
  refine ⟨⟨nofun, by decide⟩, ⟨?_, by decide⟩, ⟨?_, by decide⟩, ⟨nofun, by decide⟩,
    ⟨nofun, by decide⟩, nofun⟩
  · rintro _ _ ⟨⟩
    decide
  · rintro _ _ ⟨⟩
    decide

/-- They arrive in two pieces, with the beginning of the ping: the text comes, and one close. -/
theorem sent_arrives_sample :
    Outgoing.said {} sampleSendings = [.text "hi", .close (.other 1001) ""] ∧
    (([SocketStep.received .complete [0x81, 0x82, 1, 2, 3], .poll,
        .received .dropped [4, 0x69, 0x6B, 0x88, 0x82, 1, 2, 3, 4, 0x02, 0xEB, 0x89, 0x81, 1]] ++
          List.replicate (Outgoing.said {} sampleSendings).length SocketStep.poll).foldl
        WebSocket.next .connected).out.take (Outgoing.said {} sampleSendings).length =
      [delivered (.text "hi"), delivered (.close .away "")] := by
  have hsaid : Outgoing.said {} sampleSendings = [.text "hi", .close (.other 1001) ""] := by
    decide +kernel
  refine ⟨hsaid, (sent_arrives fits_sampleSendings (by decide +kernel) (by decide)).trans ?_⟩
  rw [hsaid]
  rfl

end Wandr.Socket
