import Mathlib.Algebra.Group.Nat.Defs
import Mathlib.Data.List.Basic

/-!
# Text on a wire

What a line protocol does with a text: split it into words, trim it, read a
machine integer out of a word, quote it for a message, and take it apart into
bytes and back. Texts are strings and every reader works on their characters,
by structural recursion, so that it computes.

* `splitWhitespace`, `trim` and `splitn` cut a text at whitespace (the Unicode
  property) or at single spaces;
* `parseSigned` and `parseUnsigned` read an integer of a given width: an
  optional sign, at least one digit and nothing else, within the range;
* `utf8Encode` and `utf8DecodeLossy` go to bytes and back, every ill-formed
  stretch of bytes becoming one replacement character.
-/

namespace Text

/-! ## Cutting a text -/

/-- The characters with the Unicode property `White_Space`. -/
def isWhitespace (c : Char) : Bool :=
  let n := c.toNat
  (9 ≤ n && n ≤ 13) || n == 32 || n == 0x85 || n == 0xA0 || n == 0x1680 ||
    (0x2000 ≤ n && n ≤ 0x200A) || n == 0x2028 || n == 0x2029 || n == 0x202F ||
    n == 0x205F || n == 0x3000

/-- The words of a list of characters, after the letters `word` (in reverse)
    of a word that has begun. -/
def words (word : List Char) : List Char → List (List Char)
  | [] => if word.isEmpty then [] else [word.reverse]
  | c :: cs =>
    if isWhitespace c then
      if word.isEmpty then words [] cs else word.reverse :: words [] cs
    else words (c :: word) cs

/-- The maximal runs of characters that are not whitespace. -/
def splitWhitespace (s : String) : List String := (words [] s.toList).map String.ofList

/-- A text without the whitespace at its two ends. -/
def trim (s : String) : String :=
  String.ofList (((s.toList.dropWhile isWhitespace).reverse.dropWhile isWhitespace).reverse)

/-- At most `n` pieces of a list of characters, cut at the first `n - 1`
    occurrences of `sep`. -/
def pieces (sep : Char) : Nat → List Char → List (List Char)
  | 0, _ => []
  | 1, cs => [cs]
  | n + 2, cs =>
    match cs.dropWhile (· ≠ sep) with
    | [] => [cs]
    | _ :: rest => cs.takeWhile (· ≠ sep) :: pieces sep (n + 1) rest

/-- At most `n` pieces of a text, cut at a separator. -/
def splitn (n : Nat) (sep : Char) (s : String) : List String :=
  (pieces sep n s.toList).map String.ofList

/-- The pieces of a list of characters between the occurrences of `sep`. -/
def splitChar (sep : Char) : List Char → List (List Char)
  | [] => [[]]
  | c :: cs =>
    if c = sep then [] :: splitChar sep cs
    else match splitChar sep cs with
      | [] => [[c]]
      | piece :: rest => (c :: piece) :: rest

/-- What follows the first occurrence of a pattern. -/
def afterFirst (pat : List Char) : List Char → Option (List Char)
  | [] => if pat.isEmpty then some [] else none
  | c :: cs =>
    if pat.isPrefixOf (c :: cs) then some ((c :: cs).drop pat.length) else afterFirst pat cs

/-- A text with every occurrence of a character replaced. -/
def replaceChar (s : String) (old new : Char) : String :=
  String.ofList (s.toList.map fun c => if c = old then new else c)

/-! ## Reading integers -/

/-- The number a list of decimal digits continues `n` to. -/
def digits (n : Nat) : List Char → Option Nat
  | [] => some n
  | c :: cs => if c.isDigit then digits (10 * n + (c.toNat - 48)) cs else none

/-- The number a non-empty list of decimal digits stands for. -/
def magnitude (cs : List Char) : Option Nat := if cs.isEmpty then none else digits 0 cs

/-- Read an unsigned integer of `w` bits. -/
def parseUnsigned (w : Nat) (s : String) : Option Nat :=
  let n := match s.toList with
    | '+' :: cs => magnitude cs
    | cs => magnitude cs
  n.filter (· < 2 ^ w)

/-- Read a signed integer of `w` bits. -/
def parseSigned (w : Nat) (s : String) : Option Int :=
  match s.toList with
  | '-' :: cs => ((magnitude cs).filter (· ≤ 2 ^ (w - 1))).map fun n => -(n : Int)
  | '+' :: cs => ((magnitude cs).filter (· < 2 ^ (w - 1))).map Int.ofNat
  | cs => ((magnitude cs).filter (· < 2 ^ (w - 1))).map Int.ofNat

/-! ## Quoting -/

/-- A digit of a hexadecimal number, in lower case. -/
def hexDigit (n : Nat) : Char := Char.ofNat (if n < 10 then 48 + n else 87 + n)

/-- A character inside a quoted text: quotes, backslashes and control
    characters are escaped. -/
def quoteChar (c : Char) : List Char :=
  if c = '"' then ['\\', '"']
  else if c = '\\' then ['\\', '\\']
  else if c = '\n' then ['\\', 'n']
  else if c = '\r' then ['\\', 'r']
  else if c = '\t' then ['\\', 't']
  else if c = Char.ofNat 0 then ['\\', '0']
  else if c.toNat < 16 then ['\\', 'u', '\x7b', hexDigit c.toNat, '\x7d']
  else if c.toNat < 32 ∨ c.toNat = 127 then
    ['\\', 'u', '\x7b', hexDigit (c.toNat / 16), hexDigit (c.toNat % 16), '\x7d']
  else [c]

/-- A text between quotes, its special characters escaped. -/
def quote (s : String) : String := String.ofList ('"' :: s.toList.flatMap quoteChar ++ ['"'])

/-- An optional text, the text quoted. -/
def quoteOption : Option String → String
  | none => "None"
  | some s => "Some(" ++ quote s ++ ")"

/-! ## Bytes -/

/-- The bytes of a text in UTF-8. -/
def utf8Encode (s : String) : List UInt8 := s.toList.flatMap String.utf8EncodeChar

/-- A byte continuing a character. -/
def isContinuation (b : UInt8) : Bool := 0x80 ≤ b && b ≤ 0xBF

/-- Whether `b` may follow the first byte `a` of a character of several bytes. -/
def isSecond (a b : UInt8) : Bool :=
  if a = 0xE0 then 0xA0 ≤ b && b ≤ 0xBF
  else if a = 0xED then 0x80 ≤ b && b ≤ 0x9F
  else if a = 0xF0 then 0x90 ≤ b && b ≤ 0xBF
  else if a = 0xF4 then 0x80 ≤ b && b ≤ 0x8F
  else isContinuation b

/-- How many bytes the first byte of a character announces; `0` for a byte that
    starts no character. -/
def width (a : UInt8) : Nat :=
  if a < 0x80 then 1
  else if a < 0xC2 then 0
  else if a < 0xE0 then 2
  else if a < 0xF0 then 3
  else if a < 0xF5 then 4
  else 0

/-- The character standing for ill-formed bytes. -/
def replacement : Char := Char.ofNat 0xFFFD

/-- The bits a continuation byte adds to the code point `n`. -/
def continuePoint (n : Nat) (b : UInt8) : Nat := 64 * n + b.toNat % 64

/-- What is left to read of a character of several bytes: nothing, or `need`
    more bytes after its first byte `first` (`second` when the next one is the
    second), the bits read so far being `point`. -/
inductive Pending
  | none
  | within (first : UInt8) (second : Bool) (need point : Nat)

/-- Decode bytes, with `p` left over from those before: a byte that does not
    continue the character under way ends it as ill-formed and is read afresh. -/
def decodeLossy : Pending → List UInt8 → List Char
  | .none, [] => []
  | .within .., [] => [replacement]
  | p, b :: bs =>
    let afresh : List Char :=
      match width b with
      | 0 => replacement :: decodeLossy .none bs
      | 1 => Char.ofNat b.toNat :: decodeLossy .none bs
      | 2 => decodeLossy (.within b true 1 (b.toNat % 32)) bs
      | 3 => decodeLossy (.within b true 2 (b.toNat % 16)) bs
      | _ => decodeLossy (.within b true 3 (b.toNat % 8)) bs
    match p with
    | .none => afresh
    | .within first second need point =>
      if (if second then isSecond first b else isContinuation b) then
        if need = 1 then Char.ofNat (continuePoint point b) :: decodeLossy .none bs
        else decodeLossy (.within first false (need - 1) (continuePoint point b)) bs
      else replacement :: afresh

/-- The text some bytes stand for in UTF-8, ill-formed stretches replaced. -/
def utf8DecodeLossy (bs : List UInt8) : String := String.ofList (decodeLossy .none bs)

example : splitWhitespace "  a bc\td " = ["a", "bc", "d"] := by decide

end Text
