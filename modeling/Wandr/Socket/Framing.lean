import Mathlib.Algebra.Group.Nat.Defs
import Wandr.Lib.Utf8
import Wandr.Socket.WebSocket

/-!
# Messages in fragments

A server cuts a message into fragments, and may send pings and pongs between them. A call that
receives one of these returns it, and forgets the fragments that came before. The next call
finds a fragment that continues nothing.

* `Reading.advance_append`: what comes in pieces is read as what comes at once;
* `Piece.drain_encode`: a frame is read back from its bytes, whatever its form;
* `Item.answers_iff`: the calls return what was sent if and only if there is nothing between the
  fragments of a message;
* `messages_arrive`: so they do in each run in which no call is dropped.
-/

namespace Wandr.Socket

open Machine

/-! ## Reading in pieces -/

namespace Reading

variable {ended : Option String} {b : Bytes}

/-- A call only goes on after a frame. -/
theorem turn_again {f frags : Frags} {r : Except String (Option Frame)}
    (h : f.turn r = .again frags) : ∃ frame, r = .ok (some frame) := by
  match r with
  | .ok (some frame) => exact ⟨frame, rfl⟩
  | .ok none | .error _ => exact nomatch h

/-- A frame that has been read has taken bytes. -/
theorem drain_readFrame_lt {f : Frame} {c : Bytes}
    (h : readFrame.drain ended b = (.done (.ok (some f)), c)) : c.length + 2 ≤ b.length := by
  by_cases hb : b.length < 2
  · obtain ⟨k, hk, he⟩ : ∃ k, readFrame = .exact 2 k ∧ ∀ e, k (.error e) = .done (.ok none) :=
      ⟨_, rfl, fun _ => rfl⟩
    rw [hk] at h
    cases ended with
    | none =>
      rw [Reads.drain_wait hb] at h
      exact nomatch h
    | some e =>
      rw [Reads.drain_ended hb, he] at h
      exact nomatch h
  · have hd := drain_readFrame_length ended (Nat.not_lt.1 hb)
    rw [h] at hd
    exact hd

/-- More rounds than there are bytes make no difference. -/
theorem advanceFor_fuel {n m : Nat} {frags : Frags} (hn : b.length < n) (hm : b.length < m) :
    advanceFor ended n { frags } b = advanceFor ended m { frags } b := by
  induction n generalizing m frags b with
  | zero => exact absurd hn (Nat.not_lt_zero _)
  | succ n ih =>
    cases m with
    | zero => exact absurd hm (Nat.not_lt_zero _)
    | succ m =>
      rw [advanceFor, advanceFor]
      dsimp only
      cases hd : readFrame.drain ended b with
      | mk d c =>
        cases d with
        | done r =>
          dsimp only
          cases ht : frags.turn r with
          | ret r => rfl
          | again frags' =>
            obtain ⟨frame, rfl⟩ := turn_again ht
            have hl := drain_readFrame_lt hd
            exact ih (by omega) (by omega)
        | exact k f => rfl

/-- What becomes of a frame, or of a part of it. -/
def step (ended : Option String) (frags : Frags) :
    Reads String (Except String (Option Frame)) × Bytes → Outcome
  | (.done r, b) =>
    match frags.turn r with
    | .ret r => .ready r b
    | .again frags => advance ended { frags } b
  | (.exact n k, b) => .waits { frags, frame := .exact n k } b

theorem advance_eq (p : Reading) (b : Bytes) :
    p.advance ended b = step ended p.frags (p.frame.drain ended b) := by
  have hl := p.frame.drain_length_le ended b
  unfold advance
  rw [advanceFor]
  generalize p.frame.drain ended b = d at hl ⊢
  obtain ⟨d, c⟩ := d
  cases d with
  | done r =>
    rw [step]
    dsimp only at hl ⊢
    cases p.frags.turn r with
    | ret r => rfl
    | again frags => exact advanceFor_fuel (by omega) (by omega)
  | exact n k => rfl

/-- Go on with more bytes. -/
def andThen (ended : Option String) (c : Bytes) : Outcome → Outcome
  | .ready r b => .ready r (b ++ c)
  | .waits p b => p.advance ended (b ++ c)

/-- What comes after part of a frame, with more bytes. -/
theorem step_append {frags : Frags} {d : Reads String (Except String (Option Frame))}
    (b c : Bytes) (h : ∀ f frags', d = .done (.ok (some f)) →
      advance ended { frags := frags' } (b ++ c) =
        andThen ended c (advance none { frags := frags' } b)) :
    step ended frags (d.drain ended (b ++ c)) = andThen ended c (step none frags (d, b)) := by
  cases d with
  | done r =>
    rw [Reads.drain_done, step, step]
    cases ht : frags.turn r with
    | ret r => rfl
    | again frags' =>
      obtain ⟨f, rfl⟩ := turn_again ht
      exact h f frags' rfl
  | exact n k => exact (advance_eq { frags, frame := .exact n k } (b ++ c)).symm

theorem advance_append_fresh (frags : Frags) (b c : Bytes) :
    advance ended { frags } (b ++ c) = andThen ended c (advance none { frags } b) := by
  induction hn : b.length using Nat.strongRecOn generalizing frags b with
  | ind n ih =>
    rw [advance_eq, advance_eq, Reads.drain_append]
    refine step_append _ c fun f frags' hf => ?_
    refine ih _ ?_ frags' _ rfl
    have hl : (readFrame.drain none b).2.length + 2 ≤ b.length :=
      drain_readFrame_lt (Prod.ext hf rfl)
    exact hn ▸ Nat.le_of_succ_le hl

/-- What comes in pieces is read as what comes at once. -/
theorem advance_append (p : Reading) (b c : Bytes) :
    p.advance ended (b ++ c) = andThen ended c (p.advance none b) := by
  rw [advance_eq, advance_eq, Reads.drain_append]
  exact step_append _ c fun _ frags' _ => advance_append_fresh frags' _ c

/-- At the end of the stream a call returns. -/
theorem advance_ended {p : Reading} {r : Received} {b c : Bytes} {e : String}
    (h : p.advance none b = .ready r c) : p.advance (some e) b = .ready r c := by
  have ha : p.advance (some e) (b ++ []) = andThen (some e) [] (p.advance none b) :=
    advance_append p b []
  rw [List.append_nil, h] at ha
  rw [ha, andThen, List.append_nil]

end Reading

/-! ## What a server sends -/

/-- A number in some bytes, the highest one first. -/
def toBe : Nat → Nat → Bytes
  | 0, _ => []
  | k + 1, n => toBe k (n / 256) ++ [UInt8.ofNat n]

theorem length_toBe (k n : Nat) : (toBe k n).length = k := by
  induction k generalizing n with
  | zero => rfl
  | succ k ih => rw [toBe, List.length_append, ih, List.length_singleton]

theorem fromBe_toBe {k n : Nat} (h : n < 256 ^ k) : fromBe (toBe k n) = n := by
  induction k generalizing n with
  | zero => exact (Nat.lt_one_iff.1 h).symm
  | succ k ih =>
    rw [Nat.pow_succ, Nat.mul_comm] at h
    have hi := ih (Nat.div_lt_of_lt_mul h)
    rw [fromBe] at hi
    rw [toBe, fromBe, List.foldl_append, hi]
    dsimp only [List.foldl_cons, List.foldl_nil]
    rw [UInt8.toNat_ofNat']
    exact Nat.div_add_mod' n 256

/-- The three ways to send the length of a payload. -/
inductive LengthForm
  | short
  | medium
  | long

namespace LengthForm

/-- A form has room for a length. What is not shorter than `2 ^ usizeBits` is not a payload. -/
def Fits : LengthForm → Nat → Prop
  | .short, n => n < 126
  | .medium, n => n < 2 ^ 16
  | .long, n => n < 2 ^ usizeBits

/-- What stands in the header. -/
def inHeader : LengthForm → Nat → UInt8
  | .short, n => UInt8.ofNat n
  | .medium, _ => 126
  | .long, _ => 127

/-- What stands after it. -/
def after : LengthForm → Nat → Bytes
  | .short, _ => []
  | .medium, n => toBe 2 n
  | .long, n => toBe 8 n

theorem inHeader_lt (l : LengthForm) {n : Nat} (h : l.Fits n) : (l.inHeader n).toNat < 128 := by
  cases l with
  | short =>
    have hn : n < 126 := h
    dsimp only [inHeader]
    rw [Text.toNat_ofNat (by omega)]
    omega
  | medium => exact (by decide : (126 : UInt8).toNat < 128)
  | long => exact (by decide : (127 : UInt8).toNat < 128)

/-- The length is read back. -/
theorem gives_readLength (l : LengthForm) {n : Nat} (h : l.Fits n) (b : Bytes) :
    Reads.Gives (readLength (l.inHeader n)) (l.after n ++ b) n b := by
  cases l with
  | short =>
    have hn : (UInt8.ofNat n).toNat = n := Text.toNat_ofNat (Nat.lt_trans h (by decide))
    have hne {k : UInt8} (hk : 126 ≤ k.toNat) : UInt8.ofNat n ≠ k := by
      rintro rfl
      exact absurd h (Nat.not_lt.2 (hn ▸ hk))
    have hr : readLength (UInt8.ofNat n) = pure (UInt8.ofNat n).toNat := by
      rw [readLength, if_neg (hne (by decide)), if_neg (hne (by decide))]
    dsimp only [inHeader, after]
    rw [hr, hn]
    exact .pure _ _
  | medium =>
    have hn : fromBe (toBe 2 n) = n := fromBe_toBe h
    refine .bind (.readExact (length_toBe 2 n)) ?_
    rw [after, hn]
    exact .pure _ _
  | long =>
    have hn : fromBe (toBe 8 n) % 2 ^ usizeBits = n := by
      rw [fromBe_toBe (Nat.lt_trans h (by decide)), Nat.mod_eq_of_lt h]
    refine .bind (.readExact (length_toBe 8 n)) ?_
    rw [after, hn]
    exact .pure _ _

end LengthForm

/-- A payload and the way it is sent. -/
structure Piece where
  payload : Bytes
  length : LengthForm
  key : Option { k : Bytes // k.length = 4 }
  fits : length.Fits payload.length

namespace Piece

variable (p : Piece)

/-- The two bytes of the header. -/
def header (fin : Bool) (opcode : UInt8) : Bytes :=
  [(if fin then 0x80 else 0) ||| opcode,
    (if p.key.isSome then 0x80 else 0) ||| p.length.inHeader p.payload.length]

/-- A frame as it is sent. -/
def encode (fin : Bool) (opcode : UInt8) : Bytes :=
  p.header fin opcode ++ (p.length.after p.payload.length ++
    ((p.key.map Subtype.val).getD [] ++ unmask p.payload (p.key.map Subtype.val)))

theorem unmask_unmask (payload : Bytes) (k : Option Bytes) :
    unmask (unmask payload k) k = payload := by
  cases k with
  | none => rfl
  | some k =>
    refine List.ext_getElem (by simp only [unmask, List.length_mapIdx]) fun i _ _ => ?_
    simp only [unmask, List.getElem_mapIdx, UInt8.xor_assoc, UInt8.xor_self, UInt8.xor_zero]

theorem length_unmask (payload : Bytes) (k : Option Bytes) :
    (unmask payload k).length = payload.length := by
  cases k with
  | none => rfl
  | some k => exact List.length_mapIdx

/-- The flag of a byte and what is below it. -/
theorem flag_spec (flag : Bool) {x : UInt8} (h : x.toNat < 128) :
    ((if flag then 0x80 else 0) ||| x) &&& 0x7F = x ∧
      (((if flag then 0x80 else 0) ||| x) &&& 0x80 != 0) = flag := by
  have ha : ∀ flag : Bool, ∀ n : Fin 128,
      ((if flag then 0x80 else 0) ||| UInt8.ofNat n) &&& 0x7F = UInt8.ofNat n ∧
      (((if flag then 0x80 else 0) ||| UInt8.ofNat n) &&& 0x80 != 0) = flag := by
    decide
  have hx := ha flag ⟨x.toNat, h⟩
  rw [UInt8.ofNat_toNat] at hx
  exact hx

/-- The opcode of a frame. -/
theorem opcode_spec (fin : Bool) {opcode : UInt8} (h : opcode.toNat < 16) :
    ((if fin then 0x80 else 0) ||| opcode) &&& 0x0F = opcode := by
  have ha : ∀ fin : Bool, ∀ n : Fin 16,
      ((if fin then 0x80 else 0) ||| UInt8.ofNat n) &&& 0x0F = UInt8.ofNat n := by
    decide
  have hx := ha fin ⟨opcode.toNat, h⟩
  rw [UInt8.ofNat_toNat] at hx
  exact hx

/-- A frame is read back. -/
theorem gives_readRest {fin : Bool} {opcode : UInt8} (h : opcode.toNat < 16) (b : Bytes) :
    Reads.Gives (readRest (p.header fin opcode))
      (p.length.after p.payload.length ++ ((p.key.map Subtype.val).getD [] ++
        (unmask p.payload (p.key.map Subtype.val) ++ b)))
      { fin, opcode, payload := p.payload } b := by
  obtain ⟨hl, hm⟩ := flag_spec p.key.isSome (p.length.inHeader_lt p.fits)
  obtain ⟨-, hf⟩ := flag_spec fin (x := opcode) (by omega)
  have ho := opcode_spec fin h
  have h₀ : (p.header fin opcode).getD 0 0 = (if fin then 0x80 else 0) ||| opcode := rfl
  have h₁ : (p.header fin opcode).getD 1 0 =
      (if p.key.isSome then 0x80 else 0) ||| p.length.inHeader p.payload.length := rfl
  unfold readRest
  rw [h₀, h₁, hl, hm, hf, ho]
  have hkey (c : Bytes) : Reads.Gives (readMaskKey p.key.isSome)
      ((p.key.map Subtype.val).getD [] ++ c) (p.key.map Subtype.val) c := by
    cases p.key with
    | none => exact .pure _ _
    | some k => exact .map (.readExact k.2)
  have hpay : Reads.Gives (readPayload p.payload.length)
      (unmask p.payload (p.key.map Subtype.val) ++ b)
      (unmask p.payload (p.key.map Subtype.val)) b := by
    unfold readPayload
    split
    · exact .readExact (length_unmask _ _)
    · next hp =>
      have hn : unmask p.payload (p.key.map Subtype.val) = [] :=
        List.eq_nil_of_length_eq_zero ((length_unmask _ _).trans (Nat.eq_zero_of_not_pos hp))
      rw [hn]
      exact .pure _ _
  refine .bind (p.length.gives_readLength p.fits _) (.bind (hkey _) (.bind hpay ?_))
  rw [unmask_unmask]
  exact .pure _ _

/-- A frame is read back from its bytes. -/
theorem drain_encode {fin : Bool} {opcode : UInt8} (h : opcode.toNat < 16) (b : Bytes) :
    readFrame.drain none (p.encode fin opcode ++ b) =
      (.done (.ok (some { fin, opcode, payload := p.payload })), b) := by
  have hr : readFrame.drain none (p.encode fin opcode ++ b) =
      Reads.drain none ((some <$> readRest (p.header fin opcode)).run)
        (p.length.after p.payload.length ++ ((p.key.map Subtype.val).getD [] ++
          (unmask p.payload (p.key.map Subtype.val) ++ b))) := by
    rw [encode, List.append_assoc, List.append_assoc, List.append_assoc]
    exact Reads.drain_exact rfl
  exact hr.trans (Reads.Gives.map (p.gives_readRest h b))

end Piece

/-- A call goes on after a frame that has come. -/
theorem Reading.advance_encode (p : Piece) {fin : Bool} {opcode : UInt8} (h : opcode.toNat < 16)
    (frags : Frags) (b : Bytes) :
    advance none { frags } (p.encode fin opcode ++ b) =
      step none frags (.done (.ok (some { fin, opcode, payload := p.payload })), b) := by
  rw [advance_eq]
  exact congrArg (step none frags) (p.drain_encode h b)

/-! ## What calls return -/

/-- What the first calls return, each of which reads on where the one before has ended. -/
def Outcome.outputs (ended : Option String) : Nat → Outcome → List Received
  | 0, _ => []
  | n + 1, .ready r b => r :: Outcome.outputs ended n (Reading.advance ended {} b)
  | _ + 1, .waits _ _ => []

namespace Outcome

variable {ended : Option String}

theorem take_outputs {n m : Nat} (h : n ≤ m) (o : Outcome) :
    (o.outputs ended m).take n = o.outputs ended n := by
  induction n generalizing m o with
  | zero => exact List.take_zero
  | succ n ih =>
    cases m with
    | zero => exact absurd h (Nat.not_succ_le_zero n)
    | succ m =>
      cases o with
      | ready r b =>
        rw [outputs, outputs, List.take_succ_cons, ih (Nat.le_of_succ_le_succ h)]
      | waits p b => rfl

/-- What calls return, they return when the stream ends after it. -/
theorem outputs_ended (e : String) {p : Reading} {b : Bytes} (n : Nat) :
    (p.advance none b).outputs none n <+: (p.advance (some e) b).outputs (some e) n := by
  induction n generalizing p b with
  | zero => exact List.nil_prefix
  | succ n ih =>
    cases h : p.advance none b with
    | ready r c =>
      rw [Reading.advance_ended h, outputs, outputs]
      exact List.cons_prefix_cons.2 ⟨rfl, ih⟩
    | waits p' c => exact List.nil_prefix

end Outcome

/-- At the end of the stream no call waits. -/
theorem Reading.advance_some (e : String) (p : Reading) (b : Bytes) :
    ∃ r c, p.advance (some e) b = .ready r c := by
  have hstep (p : Reading) (b : Bytes) (h : ∀ f c frags,
      p.frame.drain (some e) b = (.done (.ok (some f)), c) →
        ∃ r d, advance (some e) { frags } c = .ready r d) :
      ∃ r c, p.advance (some e) b = .ready r c := by
    obtain ⟨r, c, hd⟩ := Reads.drain_some (e := e) p.frame b
    rw [advance_eq, hd, step]
    cases ht : p.frags.turn r with
    | ret r => exact ⟨r, c, rfl⟩
    | again frags =>
      obtain ⟨f, rfl⟩ := turn_again ht
      exact h f c frags hd
  have hfresh (frags : Frags) (b : Bytes) :
      ∃ r c, advance (some e) { frags } b = .ready r c := by
    induction hn : b.length using Nat.strongRecOn generalizing frags b with
    | ind n ih =>
      refine hstep _ b fun f c frags' hd => ih _ ?_ frags' c rfl
      exact hn ▸ Nat.le_of_succ_le (drain_readFrame_lt hd)
  exact hstep p b fun f c frags _ => hfresh frags c

/-- The bytes that come in some steps. After the stream has ended, none do. -/
def arriving : List SocketStep → Bytes
  | [] => []
  | .received .dropped b :: _ => b
  | .received .complete b :: is => b ++ arriving is
  | .received .cancelled b :: is => b ++ arriving is
  | .poll :: is => arriving is
  | .drop :: is => arriving is

namespace WebSocket

variable {s : WebSocket} {T : List Received} {more b c : Bytes} {i : SocketStep}
  {is : List SocketStep}

/-- The first calls have returned, or will return, some answers, when some bytes have come. -/
structure Serves (T : List Received) (more : Bytes) (s : WebSocket) : Prop where
  held : s.Held
  answers : (s.out ++ (s.call.advance s.shared.ended (s.shared.buf ++ more)).outputs s.shared.ended
    T.length).take T.length = T
  ended : s.shared.eof = true → more = []

/-- A call reads the bytes in the buffer, and then those to come. -/
theorem Serves.advance (h : s.Serves T more) :
    s.call.advance s.shared.ended (s.shared.buf ++ more) =
      Reading.andThen s.shared.ended more (s.call.advance s.shared.ended s.shared.buf) := by
  cases he : s.shared.eof with
  | true =>
    have hs : s.shared.ended = some "connection closed before reading n bytes" := if_pos he
    obtain ⟨r, c, ha⟩ := s.call.advance_some "connection closed before reading n bytes"
      s.shared.buf
    rw [hs, h.ended he, List.append_nil, ha, Reading.andThen, List.append_nil]
  | false =>
    have hs : s.shared.ended = none := if_neg (Bool.eq_false_iff.1 he)
    rw [hs, Reading.advance_append]

/-- A list with some more at the end. -/
theorem take_cons_outputs {ended : Option String} (l : List Received) (r : Received) (o : Outcome)
    (n : Nat) :
    (l ++ r :: o.outputs ended n).take (n + 1) =
      (l ++ [r] ++ o.outputs ended (n + 1)).take (n + 1) := by
  rw [List.append_assoc, List.singleton_append, List.take_append, List.take_append]
  congr 1
  cases hk : n + 1 - l.length with
  | zero => rfl
  | succ k =>
    rw [List.take_succ_cons, List.take_succ_cons, Outcome.take_outputs (by omega),
      Outcome.take_outputs (by omega)]

theorem Serves.poll (h : s.Serves T more) :
    (s.next .poll).Serves T more ∧
      (more = [] → s.out.length < T.length → (s.next .poll).out.length = s.out.length + 1) := by
  have ha := h.advance
  have hans := h.answers
  rcases next_poll h.held with ⟨r, b, wakers, hr, hs⟩ | ⟨p, b, start, wakers, hr, hw, hs⟩
  · have hh := h.held.next (i := .poll)
    rw [hs] at hh ⊢
    refine ⟨⟨hh, ?_, h.ended⟩, fun _ _ => List.length_append⟩
    cases hT : T.length with
    | zero => rw [List.take_zero, List.eq_nil_of_length_eq_zero hT]
    | succ n =>
      rw [ha, hr, Reading.andThen, hT, Outcome.outputs, take_cons_outputs] at hans
      exact hans
  · have hh := h.held.next (i := .poll)
    rw [hs] at hh ⊢
    refine ⟨⟨hh, ?_, h.ended⟩, fun ht hlt => ?_⟩
    · rw [ha, hr] at hans
      exact hans
    · -- A call that waits returns nothing, and there is something left to return.
      have hn : (Outcome.waits p b).outputs s.shared.ended T.length = [] := by
        cases T.length <;> rfl
      rw [ht, List.append_nil, hr, hn, List.append_nil] at hans
      have hl := congrArg List.length hans
      rw [List.length_take] at hl
      omega

/-- The bytes that are still to come. -/
def todo (s : WebSocket) (is : List SocketStep) : Bytes :=
  if s.shared.eof then [] else arriving is

/-- What is true of the first bytes is true when the stream ends after them. -/
theorem Serves.dropped (h : s.Serves T b) (he : s.shared.eof = false) :
    (s.received .dropped b).Serves T [] := by
  have hs : s.received .dropped b = { s with
      shared := { buf := s.shared.buf ++ b, eof := true, wakers := [] } } :=
    if_neg (Bool.eq_false_iff.1 he)
  have hh := h.held.next (i := .received .dropped b)
  dsimp only [WebSocket.next] at hh
  rw [hs] at hh ⊢
  refine ⟨hh, ?_, fun _ => rfl⟩
  have hans := h.answers
  have hend : s.shared.ended = none := if_neg (Bool.eq_false_iff.1 he)
  rw [hend] at hans
  obtain ⟨l, hl⟩ := Outcome.outputs_ended "connection closed before reading n bytes"
    (p := s.call.toReading) (b := s.shared.buf ++ b) T.length
  have hlen := congrArg List.length hans
  rw [List.length_take] at hlen
  refine Eq.trans ?_ hans
  rw [List.append_nil]
  exact (congrArg (fun l => (s.out ++ l).take T.length) hl.symm).trans
    (by rw [← List.append_assoc, List.take_append_of_le_length (by omega)])

/-- What comes before the end of the stream. -/
theorem received_fields (he : s.shared.eof = false) {r : StreamResult} (hr : r ≠ .dropped) :
    (s.received r b).shared.buf = s.shared.buf ++ b ∧ (s.received r b).shared.eof = false ∧
      (s.received r b).out = s.out ∧ (s.received r b).call = s.call := by
  unfold WebSocket.received
  rw [if_neg (Bool.eq_false_iff.1 he)]
  unfold Shared.received
  cases r with
  | dropped => exact absurd rfl hr
  | complete | cancelled =>
    dsimp only
    split
    · next hb =>
      rw [List.isEmpty_iff.1 hb, List.append_nil]
      exact ⟨rfl, he, rfl, rfl⟩
    · exact ⟨rfl, he, rfl, rfl⟩

theorem Serves.received (h : s.Serves T (b ++ c)) (he : s.shared.eof = false) {r : StreamResult}
    (hr : r ≠ .dropped) : (s.received r b).Serves T c := by
  obtain ⟨hbuf, heof, hout, hcall⟩ := received_fields (b := b) he hr
  have hans := h.answers
  refine ⟨h.held.next (i := .received r b), ?_, fun ht => Bool.noConfusion (heof.symm.trans ht)⟩
  rw [Shared.ended, heof, hbuf, hout, hcall, List.append_assoc]
  rw [Shared.ended, he] at hans
  exact hans

theorem Serves.next (h : s.Serves T (s.todo (i :: is))) (hd : i ≠ .drop) :
    (s.next i).Serves T ((s.next i).todo is) := by
  cases i with
  | drop => exact absurd rfl hd
  | poll =>
    have he : (s.next .poll).shared.eof = s.shared.eof := by
      rcases next_poll h.held with ⟨r, b, wakers, -, hs⟩ | ⟨p, b, start, wakers, -, -, hs⟩
      · rw [hs]
      · rw [hs]
    have ht : (s.next .poll).todo is = s.todo (.poll :: is) := by rw [todo, he, todo, arriving]
    exact ht ▸ h.poll.1
  | received r b =>
    cases he : s.shared.eof with
    | true =>
      have hs : s.next (.received r b) = s := if_pos he
      have ht : s.todo is = s.todo (.received r b :: is) := by
        rw [todo, todo, if_pos he, if_pos he]
      rw [hs, ht]
      exact h
    | false =>
      rw [todo, if_neg (Bool.eq_false_iff.1 he)] at h
      have hmore (hr : r ≠ .dropped) : (s.next (.received r b)).todo is = arriving is :=
        if_neg (Bool.eq_false_iff.1 (received_fields (b := b) he hr).2.1)
      cases r with
      | dropped =>
        have ht : (s.next (.received .dropped b)).shared.eof = true := by
          dsimp only [WebSocket.next, WebSocket.received]
          rw [if_neg (Bool.eq_false_iff.1 he)]
          rfl
        rw [todo, if_pos ht]
        exact h.dropped he
      | complete =>
        rw [hmore nofun]
        exact Serves.received h he nofun
      | cancelled =>
        rw [hmore nofun]
        exact Serves.received h he nofun

/-- Polling the call as often as there are answers left gives them all. -/
theorem Serves.polls (h : s.Serves T []) {n : Nat} (hn : T.length ≤ s.out.length + n) :
    ((List.replicate n SocketStep.poll).foldl WebSocket.next s).out.take T.length = T := by
  induction n generalizing s with
  | zero =>
    have ha := h.answers
    rw [List.take_append_of_le_length hn] at ha
    exact ha
  | succ n ih =>
    obtain ⟨hp, hl⟩ := h.poll
    refine ih hp ?_
    by_cases hlt : s.out.length < T.length
    · rw [hl rfl hlt]
      omega
    · have hle : s.out.length ≤ (s.next .poll).out.length := by
        rcases next_poll h.held with ⟨r, b, wakers, -, hs⟩ | ⟨p, b, start, wakers, -, -, hs⟩
        · rw [hs]
          exact List.length_append.symm ▸ Nat.le_add_right _ _
        · exact Nat.le_of_eq (by rw [hs])
      omega

/-- The first calls return what is read from the bytes that come. -/
theorem out_of_arriving (hT : (Reading.advance none {} (arriving is)).outputs none T.length = T)
    (hd : SocketStep.drop ∉ is) {n : Nat} (hn : T.length ≤ n) :
    ((is ++ List.replicate n SocketStep.poll).foldl WebSocket.next connected).out.take T.length =
      T := by
  suffices hs : ∀ s : WebSocket, s.Serves T (s.todo is) →
      ((List.replicate n SocketStep.poll).foldl WebSocket.next
        (is.foldl WebSocket.next s)).out.take T.length = T by
    rw [List.foldl_append]
    refine hs _ ⟨held_connected, ?_, nofun⟩
    exact (congrArg (List.take T.length) hT).trans List.take_length
  clear hT
  induction is with
  | nil =>
    intro s h
    have ht : s.todo [] = [] := ite_self _
    exact (ht ▸ h).polls (Nat.le_trans hn (Nat.le_add_left _ _))
  | cons i is ih =>
    intro s h
    exact ih (fun hm => hd (List.mem_cons_of_mem _ hm)) _
      (h.next fun he => hd (he ▸ List.mem_cons_self))

end WebSocket

/-! ## Messages in fragments -/

/-- A frame that a server sends. -/
structure Sent where
  fin : Bool
  opcode : UInt8
  piece : Piece
  small : opcode.toNat < 16

def Sent.encode (x : Sent) : Bytes := x.piece.encode x.fin x.opcode

def Sent.frame (x : Sent) : Frame := ⟨x.fin, x.opcode, x.piece.payload⟩

/-- What the calls make of some frames. -/
def answers : Frags → List Sent → List Received
  | _, [] => []
  | f, x :: xs =>
    match f.turn (.ok (some x.frame)) with
    | .ret r => r :: answers {} xs
    | .again f' => answers f' xs

/-- The calls return what they make of the frames that come. -/
theorem outputs_encode (n : Nat) (f : Frags) (xs : List Sent) :
    (Reading.advance none { frags := f } (xs.flatMap Sent.encode)).outputs none n =
      (answers f xs).take n := by
  induction xs generalizing n f with
  | nil =>
    have ha : Reading.advance none { frags := f } [] = .waits { frags := f } [] := by
      rw [Reading.advance_eq]
      rfl
    rw [List.flatMap_nil, ha, answers, List.take_nil]
    cases n <;> rfl
  | cons x xs ih =>
    rw [List.flatMap_cons, Sent.encode, Reading.advance_encode _ x.small, Reading.step, answers]
    dsimp only [Sent.frame]
    cases f.turn (.ok (some ⟨x.fin, x.opcode, x.piece.payload⟩)) with
    | ret r =>
      cases n with
      | zero => rfl
      | succ n => exact congrArg (List.cons r) (ih n {})
    | again f' => exact ih n f'

/-- A ping or a pong. -/
structure Control where
  isPing : Bool
  piece : Piece

def Control.message (c : Control) : Message :=
  if c.isPing then .ping c.piece.payload else .pong c.piece.payload

def Control.sent (c : Control) : Sent :=
  ⟨true, if c.isPing then 0x9 else 0xA, c.piece, by cases c.isPing <;> decide⟩

/-- What a message says. -/
inductive Content
  | text (s : String)
  | binary (b : Bytes)

namespace Content

def bytes : Content → Bytes
  | .text s => Text.utf8Encode s
  | .binary b => b

def message : Content → Message
  | .text s => .text s
  | .binary b => .binary b

def opcode : Content → UInt8
  | .text _ => 0x1
  | .binary _ => 0x2

theorem opcode_lt (c : Content) : c.opcode.toNat < 16 := by
  cases c with
  | text s => exact (by decide : (0x1 : UInt8).toNat < 16)
  | binary b => exact (by decide : (0x2 : UInt8).toNat < 16)

theorem dataMessage_bytes (c : Content) : dataMessage c.opcode c.bytes = c.message := by
  cases c with
  | text s => exact congrArg Message.text Text.utf8DecodeLossy_utf8Encode
  | binary b => rfl

end Content

/-- A message in fragments. Before each but the first there may be something else. -/
structure Fragmented where
  content : Content
  first : Piece
  rest : List (List Control × Piece)
  whole : first.payload ++ rest.flatMap (·.2.payload) = content.bytes

/-- The fragments after the first one, and what is between them. -/
def sentRest : List (List Control × Piece) → List Sent
  | [] => []
  | (cs, p) :: rest => cs.map Control.sent ++ ⟨rest.isEmpty, 0x0, p, by decide⟩ :: sentRest rest

/-- What a server sends before it closes. -/
inductive Item
  | control (c : Control)
  | data (d : Fragmented)

namespace Item

def sent : Item → List Sent
  | .control c => [c.sent]
  | .data d =>
    ⟨d.rest.isEmpty, d.content.opcode, d.first, d.content.opcode_lt⟩ :: sentRest d.rest

/-- The messages, each when it is whole. -/
def messages : Item → List Message
  | .control c => [c.message]
  | .data d => d.rest.flatMap (·.1.map Control.message) ++ [d.content.message]

/-- There is nothing between the fragments of a message. -/
def Unbroken : Item → Prop
  | .control _ => True
  | .data d => ∀ p ∈ d.rest, p.1 = []

end Item

/-- What a close frame says. -/
def closePayload : Option (Nat × String) → Bytes
  | none => []
  | some (code, reason) => toBe 2 code ++ Text.utf8Encode reason

/-- A server closes, and may say why. -/
structure Closing where
  status : Option (Nat × String)
  piece : Piece
  isCode : ∀ s ∈ status, s.1 < 2 ^ 16
  whole : piece.payload = closePayload status

namespace Closing

def message (c : Closing) : Message :=
  match c.status with
  | none => .close .normal ""
  | some (code, reason) => .close (.fromU16 code) reason

def sent (c : Closing) : Sent := ⟨true, 0x8, c.piece, by decide⟩

theorem parseClose_payload (c : Closing) :
    Message.close (parseClose c.piece.payload).1 (parseClose c.piece.payload).2 = c.message := by
  rw [c.whole, message]
  cases hs : c.status with
  | none => rfl
  | some s =>
    obtain ⟨code, reason⟩ := s
    have hlen := length_toBe 2 code
    have hcode : fromBe (toBe 2 code) = code := fromBe_toBe (Nat.lt_of_lt_of_eq (c.isCode _ hs) rfl)
    have hp : parseClose (toBe 2 code ++ Text.utf8Encode reason) = (.fromU16 code, reason) := by
      rw [parseClose, if_pos (by rw [List.length_append, hlen]; exact Nat.le_add_right _ _),
        List.take_left' hlen, List.drop_left' hlen, hcode, Text.utf8DecodeLossy_utf8Encode]
    rw [closePayload, hp]

end Closing

/-- Everything a server sends. -/
def sentAll (items : List Item) (closing : Closing) : List Sent :=
  items.flatMap Item.sent ++ [closing.sent]

/-- What the calls are to return. -/
def expected (items : List Item) (closing : Closing) : List Received :=
  (items.flatMap Item.messages ++ [closing.message]).map fun m => some (.ok m)

/-! ## What calls make of fragments -/

/-- Two lists are not the same somewhere. -/
def Differ {α : Type} (l l' : List α) : Prop :=
  ∃ p a b s s', a ≠ b ∧ l = p ++ a :: s ∧ l' = p ++ b :: s'

theorem Differ.append_left {α : Type} {l l' : List α} (p : List α) (h : Differ l l') :
    Differ (p ++ l) (p ++ l') := by
  obtain ⟨q, a, b, s, s', hne, rfl, rfl⟩ := h
  exact ⟨p ++ q, a, b, s, s', hne, (List.append_assoc ..).symm, (List.append_assoc ..).symm⟩

/-- Lists that are not the same somewhere have no common beginning that goes so far. -/
theorem Differ.not_take {α : Type} {l l' out : List α} (h : Differ l l')
    (hl : out.take l.length = l) : out.take (min l.length l'.length) ≠
      l'.take (min l.length l'.length) := by
  obtain ⟨p, a, b, s, s', hne, rfl, rfl⟩ := h
  intro ht
  have hlen : p.length < min (p ++ a :: s).length (p ++ b :: s').length := by
    simp only [List.length_append, List.length_cons]
    omega
  have hout : out[p.length]? = some a := by
    rw [← List.getElem?_take_of_lt (Nat.lt_of_lt_of_le hlen (Nat.min_le_left _ _)), hl,
      List.getElem?_append_right (Nat.le_refl _), Nat.sub_self]
    rfl
  have hout' : out[p.length]? = some b := by
    rw [← List.getElem?_take_of_lt hlen, ht, List.getElem?_take_of_lt hlen,
      List.getElem?_append_right (Nat.le_refl _), Nat.sub_self]
    rfl
  exact hne (Option.some.inj (hout.symm.trans hout'))

/-- A message that is not lost. -/
def delivered (m : Message) : Received := some (.ok m)

section
variable (op : UInt8) (acc : Bytes) {rest : List (List Control × Piece)} (xs : List Sent)

/-- A control message is returned, and the fragments so far are forgotten. -/
theorem answers_control (f : Frags) (c : Control) (xs : List Sent) :
    answers f (c.sent :: xs) = delivered c.message :: answers {} xs := by
  obtain ⟨isPing, piece⟩ := c
  cases isPing <;> rfl

theorem answers_controls (cs : List Control) (xs : List Sent) :
    answers {} (cs.map Control.sent ++ xs) =
      cs.map (fun c => delivered c.message) ++ answers {} xs := by
  induction cs with
  | nil => rfl
  | cons c cs ih => exact (answers_control {} c _).trans (congrArg _ ih)

/-- The first fragment of a message, which may be the only one. -/
theorem answers_first (c : Content) (p : Piece) (fin : Bool) (xs : List Sent) :
    answers {} (⟨fin, c.opcode, p, c.opcode_lt⟩ :: xs) =
      if fin then delivered (dataMessage c.opcode p.payload) :: answers {} xs
      else answers { opcode := some c.opcode, payload := p.payload } xs := by
  cases c <;> cases fin <;> rfl

/-- Fragments with nothing between them are put together. -/
theorem answers_whole (h : ∀ p ∈ rest, p.1 = []) (hne : rest ≠ []) :
    answers { opcode := some op, payload := acc } (sentRest rest ++ xs) =
      delivered (dataMessage op (acc ++ rest.flatMap (·.2.payload))) :: answers {} xs := by
  induction rest generalizing acc with
  | nil => exact absurd rfl hne
  | cons q rest ih =>
    obtain ⟨cs, p⟩ := q
    have hcs : cs = [] := h _ List.mem_cons_self
    subst hcs
    cases rest with
    | nil =>
      rw [List.flatMap_singleton]
      rfl
    | cons q rest =>
      have hi := @ih (acc ++ p.payload) (fun p hp => h p (List.mem_cons_of_mem _ hp))
        (List.cons_ne_nil _ _)
      rw [List.flatMap_cons, ← List.append_assoc]
      exact hi

/-- Fragments with something between them are not: the next one continues nothing. -/
theorem answers_broken (h : ¬ ∀ p ∈ rest, p.1 = []) (m : Message) (tl : List Received) :
    Differ (rest.flatMap (fun p => p.1.map fun c => delivered c.message) ++ delivered m :: tl)
      (answers { opcode := some op, payload := acc } (sentRest rest ++ xs)) := by
  induction rest generalizing acc with
  | nil => exact absurd (fun _ hp => (List.not_mem_nil hp).elim) h
  | cons q rest ih =>
    obtain ⟨cs, p⟩ := q
    cases cs with
    | nil =>
      have hr : ¬ ∀ p ∈ rest, p.1 = [] := fun hr => h (List.forall_mem_cons.2 ⟨rfl, hr⟩)
      cases rest with
      | nil => exact absurd (fun _ hp => (List.not_mem_nil hp).elim) hr
      | cons q rest => exact @ih (acc ++ p.payload) hr
    | cons c cs =>
      have hx : answers { opcode := some op, payload := acc }
          (sentRest ((c :: cs, p) :: rest) ++ xs) =
          (c :: cs).map (fun c => delivered c.message) ++
            some (.error "unexpected continuation frame") :: answers {} (sentRest rest ++ xs) := by
        rw [sentRest, List.map_cons, List.append_assoc, List.cons_append, answers_control,
          answers_controls]
        rfl
      obtain ⟨m', tl', ht⟩ : ∃ m' tl', rest.flatMap
          (fun p => p.1.map fun c => delivered c.message) ++ delivered m :: tl =
            delivered m' :: tl' := by
        cases hf : rest.flatMap (fun p => p.1.map fun c => delivered c.message) with
        | nil => exact ⟨m, tl, rfl⟩
        | cons r l =>
          obtain ⟨q, -, hq⟩ := List.mem_flatMap.1 (hf ▸ List.mem_cons_self : r ∈ _)
          obtain ⟨c, -, rfl⟩ := List.mem_map.1 hq
          exact ⟨c.message, _, rfl⟩
      rw [hx, List.flatMap_cons, List.append_assoc, ht]
      refine ⟨(c :: cs).map fun c => delivered c.message, delivered m',
        some (.error "unexpected continuation frame"), tl', answers {} (sentRest rest ++ xs),
        fun he => ?_, rfl, rfl⟩
      exact nomatch Option.some.inj he

end

/-- The calls return what was sent, unless there is something between two fragments. -/
theorem Item.answers_cases (item : Item) (xs : List Sent) :
    (item.Unbroken ∧
      answers {} (item.sent ++ xs) = item.messages.map delivered ++ answers {} xs) ∨
    (¬ item.Unbroken ∧ ∀ tl, Differ (item.messages.map delivered ++ tl)
      (answers {} (item.sent ++ xs))) := by
  cases item with
  | control c => exact .inl ⟨trivial, answers_control {} c xs⟩
  | data d =>
    have hmsg (tl : List Received) : (Item.data d).messages.map delivered ++ tl =
        d.rest.flatMap (fun p => p.1.map fun c => delivered c.message) ++
          delivered d.content.message :: tl := by
      rw [Item.messages, List.map_append, List.map_flatMap, List.append_assoc]
      simp only [List.map_map]
      rfl
    by_cases hu : (Item.data d).Unbroken
    · refine .inl ⟨hu, ?_⟩
      have hnone : d.rest.flatMap (fun p => p.1.map fun c => delivered c.message) = [] :=
        List.flatMap_eq_nil_iff.2 fun p hp => by rw [hu p hp, List.map_nil]
      rw [hmsg, hnone, List.nil_append, ← Content.dataMessage_bytes, ← d.whole]
      refine (answers_first d.content d.first d.rest.isEmpty (sentRest d.rest ++ xs)).trans ?_
      cases hr : d.rest with
      | nil =>
        rw [List.flatMap_nil, List.append_nil]
        rfl
      | cons q rest =>
        have ha := answers_whole d.content.opcode d.first.payload xs hu
          (hr ▸ List.cons_ne_nil _ _)
        rw [hr] at ha
        exact ha
    · refine .inr ⟨hu, fun tl => ?_⟩
      have hne : d.rest.isEmpty = false := by
        cases hr : d.rest with
        | nil => exact absurd (fun p hp => (List.not_mem_nil (hr ▸ hp)).elim) hu
        | cons q rest => rfl
      have hs := answers_first d.content d.first d.rest.isEmpty (sentRest d.rest ++ xs)
      rw [if_neg (Bool.eq_false_iff.1 hne)] at hs
      have hb := answers_broken d.content.opcode d.first.payload xs hu
        d.content.message tl
      rw [hmsg]
      exact hs ▸ hb

/-- The calls return everything that was sent if and only if there is nothing between the fragments
    of a message. Else they return something that was not. -/
theorem answers_expected (items : List Item) (closing : Closing) :
    ((∀ item ∈ items, item.Unbroken) ∧
      answers {} (sentAll items closing) = expected items closing) ∨
    ((¬ ∀ item ∈ items, item.Unbroken) ∧
      Differ (expected items closing) (answers {} (sentAll items closing))) := by
  induction items with
  | nil =>
    refine .inl ⟨fun _ h => (List.not_mem_nil h).elim, ?_⟩
    exact congrArg (fun m => [delivered m]) closing.parseClose_payload
  | cons item items ih =>
    have hs : sentAll (item :: items) closing = item.sent ++ sentAll items closing := by
      rw [sentAll, List.flatMap_cons, List.append_assoc]
      rfl
    have he : expected (item :: items) closing =
        item.messages.map delivered ++ expected items closing := by
      rw [expected, List.flatMap_cons, List.append_assoc, List.map_append]
      rfl
    rw [hs, he]
    rcases item.answers_cases (sentAll items closing) with ⟨hu, ha⟩ | ⟨hu, hd⟩
    · rw [ha]
      rcases ih with ⟨hall, hi⟩ | ⟨hall, hi⟩
      · exact .inl ⟨List.forall_mem_cons.2 ⟨hu, hall⟩, congrArg _ hi⟩
      · exact .inr ⟨fun h => hall (List.forall_mem_cons.1 h).2, hi.append_left _⟩
    · exact .inr ⟨fun h => hu (List.forall_mem_cons.1 h).1, hd _⟩

/-- When a server has sent messages and closed, and no call is dropped, as many calls as there are
    messages return each message whole, in the order of their last frames, and then the close, if
    and only if there is nothing between the fragments of a message. -/
theorem messages_arrive (items : List Item) (closing : Closing) (is : List SocketStep)
    (ha : arriving is = (sentAll items closing).flatMap Sent.encode)
    (hd : SocketStep.drop ∉ is) :
    ((is ++ List.replicate (expected items closing).length SocketStep.poll).foldl WebSocket.next
        .connected).out.take (expected items closing).length = expected items closing ↔
      ∀ item ∈ items, item.Unbroken := by
  have hT (n : Nat) (hn : n ≤ (answers {} (sentAll items closing)).length) :
      (Reading.advance none {} (arriving is)).outputs none
        ((answers {} (sentAll items closing)).take n).length =
          (answers {} (sentAll items closing)).take n := by
    rw [ha, List.length_take_of_le hn]
    exact outputs_encode _ _ _
  rcases answers_expected items closing with ⟨hu, he⟩ | ⟨hu, hdiff⟩
  · refine iff_of_true ?_ hu
    have ho := hT _ (Nat.le_refl _)
    rw [List.take_length, he] at ho
    exact WebSocket.out_of_arriving ho hd (Nat.le_refl _)
  · refine iff_of_false (fun hout => ?_) hu
    have hle := Nat.min_le_right (expected items closing).length
      (answers {} (sentAll items closing)).length
    have ho := WebSocket.out_of_arriving (hT _ hle) hd
      (n := (expected items closing).length) (by rw [List.length_take]; omega)
    rw [List.length_take_of_le hle] at ho
    exact hdiff.not_take hout ho

/-! ### A ping between two fragments -/

/-- A byte, in a frame of its own. -/
def onePiece (x : UInt8) : Piece := ⟨[x], .short, none, (by decide : 1 < 126)⟩

/-- A text of two fragments, after some pings. -/
def twoFragments (pings : List Control) : Item :=
  .data { content := .text "ab"
          first := onePiece 0x61
          rest := [(pings, onePiece 0x62)]
          whole := (by decide : [0x61, 0x62] = Text.utf8Encode "ab") }

/-- A close that does not say why. -/
def quietClose : Closing := ⟨none, ⟨[], .short, none, (by decide : 0 < 126)⟩, nofun, rfl⟩

/-- Two fragments with nothing between them, of which the call finds the first one first. -/
theorem messages_arrive_sample :
    (([SocketStep.received .complete [0x01, 0x01, 0x61], .poll,
        .received .dropped [0x80, 0x01, 0x62, 0x88, 0x00]] ++
          List.replicate (expected [twoFragments []] quietClose).length SocketStep.poll).foldl
        WebSocket.next .connected).out.take (expected [twoFragments []] quietClose).length =
      expected [twoFragments []] quietClose := by
  refine (messages_arrive [twoFragments []] quietClose
    [.received .complete [0x01, 0x01, 0x61], .poll,
      .received .dropped [0x80, 0x01, 0x62, 0x88, 0x00]]
    (by decide) (by decide)).2 ?_
  rintro item hi
  cases List.mem_singleton.1 hi
  rintro p hp
  cases List.mem_singleton.1 hp
  rfl

/-- With a ping between them the text is lost. -/
theorem ping_between_loses :
    arriving [.received .complete
        [0x01, 0x01, 0x61, 0x89, 0x01, 0x63, 0x80, 0x01, 0x62, 0x88, 0x00]] =
      (sentAll [twoFragments [⟨true, onePiece 0x63⟩]] quietClose).flatMap Sent.encode ∧
    (([SocketStep.received .complete
          [0x01, 0x01, 0x61, 0x89, 0x01, 0x63, 0x80, 0x01, 0x62, 0x88, 0x00]] ++
        List.replicate 3 SocketStep.poll).foldl WebSocket.next .connected).out ≠
      expected [twoFragments [⟨true, onePiece 0x63⟩]] quietClose := by
  decide

end Wandr.Socket
