import Wandr.Http.Http1
import Wandr.Lib.Utf8
import Wandr.Lib.Words

/-!
# Responses on the wire

A response is a status line, its fields, and a body that is framed as the fields declare: by a
length, in chunks, in chunks of something that was coded before, or by the end of the stream. The
parts are no narrower than in the grammar of HTTP: where it does not matter which characters
there are, any will do that do not end a line.
-/

namespace Wandr.Http

open Text Socket

/-! ## Fields -/

/-- A character of a token. -/
def isTchar (c : Char) : Bool :=
  let n := c.toNat
  n = 0x21 || (0x23 ≤ n && n ≤ 0x27) || n = 0x2A || n = 0x2B || n = 0x2D || n = 0x2E ||
    (0x30 ≤ n && n ≤ 0x39) || (0x41 ≤ n && n ≤ 0x5A) || (0x5E ≤ n && n ≤ 0x7A) || n = 0x7C ||
    n = 0x7E

def IsToken (s : String) : Prop := s ≠ "" ∧ s.toList.all isTchar

/-- Optional whitespace. -/
def IsOws (b : Bytes) : Prop := ∀ x ∈ b, x = 0x20 ∨ x = 0x09

/-- A part of a line. -/
def NoEnd (b : Bytes) : Prop := 0x0D ∉ b ∧ 0x0A ∉ b

structure Field where
  name : String
  before : Bytes
  value : Bytes
  after : Bytes
  token : IsToken name
  ows : IsOws before ∧ IsOws after
  noEnd : NoEnd value

def Field.line (f : Field) : Bytes :=
  utf8Encode f.name ++ 0x3A :: (f.before ++ (f.value ++ f.after))

/-- The lines of some fields. -/
def lines (fields : List Field) : Bytes := fields.flatMap fun f => f.line ++ crlf

/-- The values of the fields of a name. -/
def values (fields : List Field) (name : String) : List Bytes :=
  (fields.filter fun f => lower f.name = name).map Field.value

/-! ## Chunks -/

/-- A size and the extensions after it. -/
structure SizeLine (n : Nat) where
  size : String
  ext : Bytes
  magnitude : hexMagnitude size.toList = some n
  isExt : ext = [] ∨ ∃ ows rest, ext = ows ++ 0x3B :: rest ∧ IsOws ows ∧ NoEnd rest

def SizeLine.line {n : Nat} (s : SizeLine n) : Bytes := utf8Encode s.size ++ s.ext

structure Chunk where
  data : Bytes
  first : SizeLine data.length
  ne : data ≠ []

def Chunk.wire (c : Chunk) : Bytes := c.first.line ++ crlf ++ (c.data ++ crlf)

structure Chunks where
  chunks : List Chunk
  last : SizeLine 0
  trailers : List Field

namespace Chunks

variable (c : Chunks)

def data : Bytes := c.chunks.flatMap Chunk.data

/-- The chunks, with the last one. -/
def needed : Bytes := c.chunks.flatMap Chunk.wire ++ (c.last.line ++ crlf)

def wire : Bytes := c.needed ++ (lines c.trailers ++ crlf)

end Chunks

/-! ## Codings -/

/-- A transfer coding and its parameters. -/
structure Coding where
  name : String
  params : String
  token : IsToken name
  visible : ∀ c ∈ params.toList, isVisible c
  begins : ∀ c ∈ params.toList.head?, c = ' ' ∨ c = '\t' ∨ c = ';'

def Coding.text (c : Coding) : String := c.name ++ c.params

def IsBlank (s : String) : Prop := ∀ c ∈ s.toList, c = ' ' ∨ c = '\t'

/-- A list of codings, and the text it is written in. -/
inductive Lists : List Coding → String → Prop
  | one (c : Coding) : Lists [c] c.text
  | cons (c : Coding) {before after : String} {cs : List Coding} {s : String} :
    IsBlank before → IsBlank after → Lists cs s →
      Lists (c :: cs) (c.text ++ (before ++ "," ++ after) ++ s)

/-- Some lines that list codings. Others than chunks come before these. -/
structure Coded (texts : List String) : Prop where
  lists : ∃ codings : List (List Coding), List.Forall₂ Lists codings texts ∧
    ∃ others last, codings.flatten = others ++ [last] ∧ others ≠ [] ∧
      lower last.name = "chunked" ∧ ∀ c ∈ others, lower c.name ≠ "chunked"
  trimmed : ∀ s ∈ texts, trim s = s

/-! ## Responses -/

/-- How a body is framed. -/
inductive Framing
  | length (body : Bytes)
  | chunked (c : Chunks)
  | coded (c : Chunks)
  | close (body : Bytes)

/-- The fields declare how the body is framed. -/
def Framing.Declared (fields : List Field) : Framing → Prop
  | .length body => values fields transferEncoding = [] ∧
    ∃ digits : String, values fields contentLength = [utf8Encode digits] ∧
      magnitude digits.toList = some body.length
  | .chunked _ => values fields contentLength = [] ∧
    ∃ s, values fields transferEncoding = [utf8Encode s] ∧ lower s = "chunked"
  | .coded _ => values fields contentLength = [] ∧
    ∃ texts, values fields transferEncoding = texts.map utf8Encode ∧ Coded texts
  | .close _ => values fields transferEncoding = [] ∧ values fields contentLength = []

def Framing.wire : Framing → Bytes
  | .length body => body
  | .chunked c => c.wire
  | .coded c => c.wire
  | .close body => body

structure Response where
  version : String
  status : Nat
  reason : Bytes
  fields : List Field
  framing : Framing
  isWord : IsWord version.toList
  threeDigits : 100 ≤ status ∧ status < 1000
  noEnd : NoEnd reason
  declared : framing.Declared fields

namespace Response

variable (r : Response)

def statusLine : Bytes :=
  utf8Encode (r.version ++ " " ++ (toString r.status ++ " ")) ++ r.reason

def head : Bytes := r.statusLine ++ crlf ++ (lines r.fields ++ crlf)

def wire : Bytes := r.head ++ r.framing.wire

/-- What must have come, if the body does not end with the stream. -/
def needed : Bytes :=
  match r.framing with
  | .length body => r.head ++ body
  | .chunked c => r.head ++ c.needed
  | .coded c => r.head ++ c.needed
  | .close _ => []

end Response

end Wandr.Http
