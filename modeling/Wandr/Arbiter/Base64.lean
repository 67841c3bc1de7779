import Wandr.Arbiter.Net
import Wandr.Lib.Utf8
import Wandr.Lib.Words

/-!
# Base64, written and read

* `b64Decode_b64Encode` and `b64ToString_b64Encode`: bytes and texts are read back from
  their base64;
* `isWord_b64Encode`: the base64 of something is a word of a line.
-/

namespace Wandr

open Text

/-- The byte of the digit of six bits. -/
def b64Byte (n : Nat) : UInt8 := UInt8.ofNat (b64Digit n).toNat

theorem utf8EncodeChar_b64Digit {n : Nat} (h : n < 64) :
    String.utf8EncodeChar (b64Digit n) = [b64Byte n] := by
  revert n
  decide

theorem b64Value_b64Byte {n : Nat} (h : n < 64) : b64Value (b64Byte n) = some n := by
  revert n
  decide

theorem isWhitespace_b64Digit {n : Nat} (h : n < 64) : isWhitespace (b64Digit n) = false := by
  revert n
  decide

/-- The buffer after another digit. -/
def b64Push (buf n : Nat) : Nat := (buf * 64 + n) % 2 ^ 32

variable {buf n : Nat} {bs : List UInt8}

theorem b64Bytes_cons (h : n < 64) {bits : Nat} : b64Bytes buf bits (b64Byte n :: bs) =
    if 8 ≤ bits + 6 then
      UInt8.ofNat (b64Push buf n / 2 ^ (bits - 2)) :: b64Bytes (b64Push buf n) (bits - 2) bs
    else b64Bytes (b64Push buf n) (bits + 6) bs := by
  rw [b64Bytes, b64Value_b64Byte h]
  rfl

theorem b64Bytes_pad {bits : Nat} : b64Bytes buf bits (61 :: bs) = b64Bytes buf bits bs := by
  rw [b64Bytes]
  rfl

/-- Two digits give a byte. -/
theorem b64Bytes_two {d e : Nat} (hd : d < 64) (he : e < 64) :
    b64Bytes buf 0 (b64Byte d :: b64Byte e :: bs) =
      UInt8.ofNat ((d * 64 + e) / 16) :: b64Bytes (b64Push (b64Push buf d) e) 4 bs := by
  have hbyte :
      UInt8.ofNat (b64Push (b64Push buf d) e / 2 ^ 4) = UInt8.ofNat ((d * 64 + e) / 16) := by
    rw [← UInt8.toNat_inj, UInt8.toNat_ofNat', UInt8.toNat_ofNat', b64Push, b64Push]
    omega
  rw [b64Bytes_cons hd, if_neg (by decide), b64Bytes_cons he, if_pos (by decide)]
  exact congrArg (· :: _) hbyte

/-- A third one gives another byte. -/
theorem b64Bytes_three {d e : Nat} (he : e < 64) :
    b64Bytes (b64Push buf d) 4 (b64Byte e :: bs) =
      UInt8.ofNat ((d * 64 + e) / 4) :: b64Bytes (b64Push (b64Push buf d) e) 2 bs := by
  have hbyte :
      UInt8.ofNat (b64Push (b64Push buf d) e / 2 ^ 2) = UInt8.ofNat ((d * 64 + e) / 4) := by
    rw [← UInt8.toNat_inj, UInt8.toNat_ofNat', UInt8.toNat_ofNat', b64Push, b64Push]
    omega
  rw [b64Bytes_cons he, if_pos (by decide)]
  exact congrArg (· :: _) hbyte

/-- A fourth one gives a third byte. -/
theorem b64Bytes_four {d e : Nat} (he : e < 64) :
    b64Bytes (b64Push buf d) 2 (b64Byte e :: bs) =
      UInt8.ofNat (d * 64 + e) :: b64Bytes (b64Push (b64Push buf d) e) 0 bs := by
  have hbyte : UInt8.ofNat (b64Push (b64Push buf d) e / 2 ^ 0) = UInt8.ofNat (d * 64 + e) := by
    rw [← UInt8.toNat_inj, UInt8.toNat_ofNat', UInt8.toNat_ofNat', b64Push, b64Push]
    omega
  rw [b64Bytes_cons he, if_pos (by decide)]
  exact congrArg (· :: _) hbyte

theorem b64Bytes_b64Chars {data : List UInt8} :
    b64Bytes buf 0 ((b64Chars data).flatMap String.utf8EncodeChar) = data := by
  have hbyte {n : Nat} {a : UInt8} (h : n % 256 = a.toNat) : UInt8.ofNat n = a := by
    rw [← UInt8.toNat_inj, UInt8.toNat_ofNat']
    exact h
  have hpad : String.utf8EncodeChar '=' = [61] := by decide
  induction data using b64Chars.induct generalizing buf with
  | case1 => rfl
  | case2 a =>
    have ha := a.toNat_lt
    have h : ([b64Digit (a.toNat * 65536 / 262144 % 64), b64Digit (a.toNat * 65536 / 4096 % 64),
        '=', '='].flatMap String.utf8EncodeChar) = b64Byte (a.toNat * 65536 / 262144 % 64) ::
          b64Byte (a.toNat * 65536 / 4096 % 64) :: [61, 61] := by
      simp [utf8EncodeChar_b64Digit, Nat.mod_lt, hpad]
    rw [b64Chars, h, b64Bytes_two (by omega) (by omega), b64Bytes_pad, b64Bytes_pad, b64Bytes,
      hbyte (a := a) (by omega)]
  | case3 a b =>
    have ha := a.toNat_lt
    have hb := b.toNat_lt
    rw [b64Chars]
    generalize hn : a.toNat * 65536 + b.toNat * 256 = n
    have h : ([b64Digit (n / 262144 % 64), b64Digit (n / 4096 % 64), b64Digit (n / 64 % 64),
        '='].flatMap String.utf8EncodeChar) = b64Byte (n / 262144 % 64) ::
          b64Byte (n / 4096 % 64) :: b64Byte (n / 64 % 64) :: [61] := by
      simp [utf8EncodeChar_b64Digit, Nat.mod_lt, hpad]
    rw [h, b64Bytes_two (by omega) (by omega), b64Bytes_three (by omega), b64Bytes_pad, b64Bytes,
      hbyte (a := a) (by omega), hbyte (a := b) (by omega)]
  | case4 a b c rest ih =>
    have ha := a.toNat_lt
    have hb := b.toNat_lt
    have hc := c.toNat_lt
    rw [b64Chars]
    generalize hn : a.toNat * 65536 + b.toNat * 256 + c.toNat = n
    have h : ((b64Digit (n / 262144 % 64) :: b64Digit (n / 4096 % 64) :: b64Digit (n / 64 % 64) ::
        b64Digit (n % 64) :: b64Chars rest).flatMap String.utf8EncodeChar) =
          b64Byte (n / 262144 % 64) :: b64Byte (n / 4096 % 64) :: b64Byte (n / 64 % 64) ::
            b64Byte (n % 64) :: (b64Chars rest).flatMap String.utf8EncodeChar := by
      simp [utf8EncodeChar_b64Digit, Nat.mod_lt]
    rw [h, b64Bytes_two (by omega) (by omega), b64Bytes_three (by omega),
      b64Bytes_four (by omega), ih, hbyte (a := a) (by omega), hbyte (a := b) (by omega),
      hbyte (a := c) (by omega)]

theorem b64Decode_b64Encode {data : List UInt8} : b64Decode (b64Encode data) = data := by
  rw [b64Decode, utf8Encode, b64Encode, String.toList_ofList, b64Bytes_b64Chars]

/-- A text is read back from its base64. -/
theorem b64ToString_b64Encode {s : String} : b64ToString (b64Encode (utf8Encode s)) = s := by
  rw [b64ToString, b64Decode_b64Encode, utf8DecodeLossy_utf8Encode]

theorem isWhitespace_of_mem_b64Chars {data : List UInt8} :
    ∀ c ∈ b64Chars data, isWhitespace c = false := by
  have hd {n : Nat} : isWhitespace (b64Digit (n % 64)) = false :=
    isWhitespace_b64Digit (Nat.mod_lt _ (by decide))
  have hpad : isWhitespace '=' = false := rfl
  induction data using b64Chars.induct with
  | case1 => exact fun _ h => absurd h List.not_mem_nil
  | case2 a => simp [b64Chars, hd, hpad]
  | case3 a b => simp [b64Chars, hd, hpad]
  | case4 a b c rest ih =>
    rw [b64Chars]
    simpa [hd] using ih

theorem b64Chars_ne_nil {data : List UInt8} (h : data ≠ []) : b64Chars data ≠ [] := by
  cases data using b64Chars.induct with
  | case1 => exact absurd rfl h
  | case2 a => exact List.cons_ne_nil _ _
  | case3 a b => exact List.cons_ne_nil _ _
  | case4 a b c rest ih => exact List.cons_ne_nil _ _

theorem utf8Encode_ne_nil {s : String} (h : s ≠ "") : utf8Encode s ≠ [] := by
  intro hn
  have hs : utf8DecodeLossy (utf8Encode s) = utf8DecodeLossy [] := congrArg _ hn
  rw [utf8DecodeLossy_utf8Encode] at hs
  exact h hs

/-- The base64 of a text that is not empty is a word of a line. -/
theorem isWord_b64Encode {s : String} (h : s ≠ "") : IsWord (b64Encode (utf8Encode s)).toList := by
  rw [b64Encode, String.toList_ofList]
  exact ⟨b64Chars_ne_nil (utf8Encode_ne_nil h), isWhitespace_of_mem_b64Chars⟩

end Wandr
