import Wandr.Socket.Framing

/-!
# The frame codec

A client masks what it sends. A frame comes back from its bytes, masked or not, and the length of
its payload is sent in as few bytes as will do. A length of eight bytes is read into a size of the
target, which may have fewer.

* `roundTrips`: a frame comes back from its bytes;
* `LongHeader.refused_iff`: when a length that is too large for the target is refused;
* `codec_iff`: both.
-/

namespace Wandr.Socket

/-! ## Sending -/

/-- The length of a payload, in the byte with the flag for a mask and after it. -/
def lengthField (flag : UInt8) (len : Nat) : Bytes :=
  if len < 126 then [flag ||| UInt8.ofNat len]
  else if len ≤ 0xFFFF then (flag ||| 126) :: toBe 2 len
  else (flag ||| 127) :: toBe 8 len

/-- A frame from a client, with a key for its mask. -/
def encodeClientFrame (opcode : UInt8) (payload key : Bytes) : Bytes :=
  (0x80 ||| opcode) :: (lengthField 0x80 payload.length ++
    (key ++ payload.mapIdx fun i b => b ^^^ key.getD (i % 4) 0))

/-- The same frame without a mask. -/
def unmaskedFrame (opcode : UInt8) (payload : Bytes) : Bytes :=
  (0x80 ||| opcode) :: (lengthField 0 payload.length ++ payload)

/-- The form a length is sent in. -/
def formOf (len : Nat) : LengthForm :=
  if len < 126 then .short else if len ≤ 0xFFFF then .medium else .long

variable {opcode : UInt8} {payload key rest : Bytes} {flag : UInt8} {n : Nat}

theorem fits_formOf (h : n < 2 ^ usizeBits) : (formOf n).Fits n := by
  rw [formOf]
  split
  · next hn => exact hn
  · split
    · next hn => exact Nat.lt_succ_of_le hn
    · exact h

theorem lengthField_eq :
    lengthField flag n = (flag ||| (formOf n).inHeader n) :: (formOf n).after n := by
  rw [lengthField, formOf]
  split
  · rfl
  · split <;> rfl

/-- A payload that is sent by a client. -/
def piece (payload : Bytes) (key : Option { k : Bytes // k.length = 4 })
    (h : payload.length < 2 ^ usizeBits) : Piece where
  payload := payload
  length := formOf payload.length
  key := key
  fits := fits_formOf h

theorem encode_client (h : payload.length < 2 ^ usizeBits) (hk : key.length = 4) :
    (piece payload (some ⟨key, hk⟩) h).encode true opcode =
      encodeClientFrame opcode payload key := by
  rw [encodeClientFrame, lengthField_eq]
  rfl

theorem encode_unmasked (h : payload.length < 2 ^ usizeBits) :
    (piece payload none h).encode true opcode = unmaskedFrame opcode payload := by
  rw [unmaskedFrame, lengthField_eq]
  rfl

/-- A frame comes back from its bytes, and the bytes after it are left; its length stands in the
    header up to 125, in two bytes up to 65535, and else in eight. -/
structure RoundTrips (opcode : UInt8) (payload key rest : Bytes) : Prop where
  masked : readFrame.drain none (encodeClientFrame opcode payload key ++ rest) =
    (.done (.ok (some { fin := true, opcode, payload })), rest)
  unmasked : readFrame.drain none (unmaskedFrame opcode payload ++ rest) =
    (.done (.ok (some { fin := true, opcode, payload })), rest)
  form : (encodeClientFrame opcode payload key).getD 1 0 &&& 0x7F =
    UInt8.ofNat (if payload.length ≤ 125 then payload.length
      else if payload.length ≤ 65535 then 126 else 127)
  size : (encodeClientFrame opcode payload key).length =
    2 + (if payload.length ≤ 125 then 0 else if payload.length ≤ 65535 then 2 else 8) + 4 +
      payload.length

theorem length_after_formOf : ((formOf n).after n).length =
    if n ≤ 125 then 0 else if n ≤ 65535 then 2 else 8 := by
  rw [formOf]
  by_cases h : n < 126
  · rw [if_pos h, if_pos (Nat.le_of_lt_succ h)]
    rfl
  · rw [if_neg h, if_neg fun h' => h (Nat.lt_succ_of_le h')]
    split
    · exact length_toBe 2 n
    · exact length_toBe 8 n

theorem inHeader_formOf : (formOf n).inHeader n =
    UInt8.ofNat (if n ≤ 125 then n else if n ≤ 65535 then 126 else 127) := by
  rw [formOf]
  by_cases h : n < 126
  · rw [if_pos h, if_pos (Nat.le_of_lt_succ h)]
    rfl
  · rw [if_neg h, if_neg fun h' => h (Nat.lt_succ_of_le h')]
    split <;> rfl

theorem roundTrips (h : opcode.toNat < 16) (hp : payload.length < 2 ^ usizeBits)
    (hk : key.length = 4) (rest : Bytes) : RoundTrips opcode payload key rest where
  masked := by
    rw [← encode_client hp hk]
    exact (piece payload (some ⟨key, hk⟩) hp).drain_encode h rest
  unmasked := by
    rw [← encode_unmasked hp]
    exact (piece payload none hp).drain_encode h rest
  form := by
    have hf := Piece.flag_spec true ((formOf payload.length).inHeader_lt (fits_formOf hp))
    rw [encodeClientFrame, lengthField_eq, ← inHeader_formOf]
    exact hf.1
  size := by
    rw [encodeClientFrame, lengthField_eq]
    simp only [List.length_cons, List.length_append, List.length_mapIdx, length_after_formOf, hk]
    omega

/-! ## Lengths that are too large -/

section

variable {masked : Bool} {b : Bytes} {len : Nat} {closed : String}

theorem gives_take (h : len ≤ b.length) :
    Reads.Gives (readExact len) b (b.take len) (b.drop len) := by
  have hg : Reads.Gives (readExact len) (b.take len ++ b.drop len) (b.take len) (b.drop len) :=
    .readExact (List.length_take_of_le h)
  rw [List.take_append_drop] at hg
  exact hg

theorem gives_readMaskKey (h : (if masked then 4 else 0) ≤ b.length) :
    ∃ k, Reads.Gives (readMaskKey masked) b k (b.drop (if masked then 4 else 0)) := by
  cases masked with
  | false => exact ⟨none, .pure _ _⟩
  | true => exact ⟨some (b.take 4), .map (gives_take h)⟩

theorem fails_readMaskKey (h : b.length < if masked then 4 else 0) :
    Reads.Fails closed (readMaskKey masked) b := by
  cases masked with
  | false => exact absurd h (Nat.not_lt_zero _)
  | true => exact .bind (.readExact h)

theorem gives_readPayload (h : len ≤ b.length) :
    Reads.Gives (readPayload len) b (b.take len) (b.drop len) := by
  unfold readPayload
  split
  · exact gives_take h
  · next hn =>
    cases Nat.eq_zero_of_not_pos hn
    exact .pure _ _

theorem fails_readPayload (h : b.length < len) : Reads.Fails closed (readPayload len) b := by
  unfold readPayload
  rw [if_pos (Nat.zero_lt_of_lt h)]
  exact .readExact h

end

/-- A header that announces more bytes than there are sizes on the target. -/
structure LongHeader where
  first : UInt8
  masked : Bool
  len : Bytes
  eight : len.length = 8
  huge : 2 ^ usizeBits ≤ fromBe len

namespace LongHeader

variable (h : LongHeader)

def header : Bytes := [h.first, if h.masked then 0xFF else 0x7F]

def bytes : Bytes := h.header ++ h.len

/-- How many bytes are read after the header: a key, and what is left of the length. -/
def taken : Nat := (if h.masked then 4 else 0) + fromBe h.len % 2 ^ usizeBits

/-- Reading a frame fails that begins with the header, goes on with some bytes, and ends there. -/
def Refused (closed : String) (body : Bytes) : Prop :=
  ∃ e c, readFrame.drain (some closed) (h.bytes ++ body) = (.done (.error e), c)

variable {h} {closed : String} {body : Bytes} {ended : Option String}

theorem drain_readFrame : readFrame.drain ended (h.bytes ++ body) =
    Reads.drain ended (some <$> readRest h.header).run (h.len ++ body) := by
  rw [bytes, List.append_assoc]
  exact Reads.drain_exact rfl

/-- The second byte of the header says that eight bytes hold the length, and whether a key
    follows. -/
theorem second_spec : h.header.getD 1 0 &&& 0x7F = 127 ∧
    (h.header.getD 1 0 &&& 0x80 != 0) = h.masked := by
  have ha : ∀ masked : Bool, (if masked then 0xFF else 0x7F) &&& 0x7F = (127 : UInt8) ∧
      ((if masked then (0xFF : UInt8) else 0x7F) &&& 0x80 != 0) = masked := by
    decide
  exact ha h.masked

/-- Only what is left of the length goes on. -/
theorem gives_readLength : Reads.Gives (readLength 127) (h.len ++ body)
    (fromBe h.len % 2 ^ usizeBits) body :=
  .bind (.readExact h.eight) (.pure _ _)

/-- There are enough bytes for what is left of the length. -/
theorem gives_readRest (hb : h.taken ≤ body.length) :
    ∃ f c, Reads.Gives (readRest h.header) (h.len ++ body) f c := by
  obtain ⟨hl, hm⟩ := h.second_spec
  rw [taken] at hb
  obtain ⟨k, hk⟩ : ∃ k, Reads.Gives (readMaskKey h.masked) body k _ :=
    gives_readMaskKey (by omega)
  have hp : fromBe h.len % 2 ^ usizeBits ≤ (body.drop (if h.masked then 4 else 0)).length := by
    rw [List.length_drop]
    omega
  unfold readRest
  rw [hl, hm]
  exact ⟨_, _, .bind h.gives_readLength (.bind hk (.bind (gives_readPayload hp) (.pure _ _)))⟩

/-- There are too few, for the key or after it. -/
theorem fails_readRest (hb : body.length < h.taken) :
    Reads.Fails closed (readRest h.header) (h.len ++ body) := by
  obtain ⟨hl, hm⟩ := h.second_spec
  rw [taken] at hb
  unfold readRest
  rw [hl, hm]
  refine Reads.Gives.fails_bind h.gives_readLength ?_
  by_cases hk : body.length < if h.masked then 4 else 0
  · exact .bind (fails_readMaskKey hk)
  · obtain ⟨k, hg⟩ := gives_readMaskKey (Nat.not_lt.1 hk)
    exact hg.fails_bind (.bind (fails_readPayload (by rw [List.length_drop]; omega)))

/-- A frame is refused only because the stream ends, which it does not have to before the bytes
    that are left of the length. -/
theorem refused_iff : h.Refused closed body ↔ body.length < h.taken := by
  constructor
  · rintro ⟨e, c, hd⟩
    by_contra hb
    obtain ⟨f, d, hg⟩ := h.gives_readRest (Nat.not_lt.1 hb)
    rw [drain_readFrame] at hd
    have hs := hd.symm.trans (Reads.Gives.drain (.map hg))
    cases congrArg Prod.fst hs
  · intro hb
    obtain ⟨e, c, hd⟩ : Reads.Fails closed _ _ := h.fails_readRest hb
    exact ⟨e, c, h.drain_readFrame.trans (Reads.drain_bind_done hd)⟩

end LongHeader

/-- A frame comes back from its bytes; and a length that is too large for the target is refused if
    and only if the stream ends before the key and the bytes that are left of the length. -/
theorem codec_iff (h : opcode.toNat < 16) (hp : payload.length < 2 ^ usizeBits)
    (hk : key.length = 4) (rest : Bytes) (long : LongHeader) (body : Bytes) (closed : String) :
    RoundTrips opcode payload key rest ∧ long.Refused closed body ↔ body.length < long.taken := by
  rw [LongHeader.refused_iff]
  exact and_iff_right (roundTrips h hp hk rest)

/-! ### One byte more than there are sizes -/

/-- A binary frame without a mask, of 2³² and one more byte. -/
def oneMore : LongHeader := ⟨0x82, false, [0, 0, 0, 1, 0, 0, 0, 1], rfl, (by decide)⟩

theorem codec_sample :
    RoundTrips 1 [0x68, 0x69] [1, 2, 3, 4] [0x88] ∧ oneMore.Refused "closed" [] :=
  (codec_iff (by decide) (by decide) rfl [0x88] oneMore [] "closed").2 (by decide)

/-- One byte is taken for the payload. -/
theorem not_codec : ¬ (RoundTrips 1 [0x68, 0x69] [1, 2, 3, 4] [0x88] ∧
    oneMore.Refused "closed" [0x41]) := by
  rintro ⟨-, hr⟩
  exact absurd (oneMore.refused_iff.1 hr) (by decide)

end Wandr.Socket
