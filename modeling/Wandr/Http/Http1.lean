import Wandr.Lib.Occurrences
import Wandr.Socket.Task
import Wandr.Socket.WebSocket

/-!
# Responses over HTTP/1.1

The head of a response is read up to the first empty line. What follows it is read as the headers
say: in chunks, up to a length, or up to the end of the stream.
-/

namespace Wandr.Http

open Text Socket

abbrev Bytes := Socket.Bytes

def crlf : Bytes := [0x0D, 0x0A]

def lower (s : String) : String := String.ofList (s.toList.map Char.toLower)

def transferEncoding : String := "transfer-encoding"

def contentLength : String := "content-length"

/-- A visible character, a space or a tab. -/
def isVisible (c : Char) : Bool := (0x20 ≤ c.toNat && c.toNat < 0x7F) || c = '\t'

/-- The names and the values of headers, of another crate. A name is kept in lower case. A value is
    kept as it is; one of visible characters is taken, and given back. -/
structure HeaderTypes where
  /-- `HeaderName::from_bytes` -/
  nameFromBytes : String → Option String
  /-- `HeaderValue::from_str` -/
  valueFromStr : String → Option String
  /-- `HeaderValue::to_str` -/
  toStr : String → Option String
  name_eq : ∀ k n, nameFromBytes k = some n → n = lower k
  name_known : ∀ k, lower k = transferEncoding ∨ lower k = contentLength →
    nameFromBytes k = some (lower k)
  value_eq : ∀ v u, valueFromStr v = some u → u = v
  value_visible : ∀ v : String, (∀ c ∈ v.toList, isVisible c) → valueFromStr v = some v
  toStr_visible : ∀ v : String, (∀ c ∈ v.toList, isVisible c) → toStr v = some v

/-- The headers, in the order in which they were appended. -/
abbrev HeaderMap := List (String × String)

/-- The first value of a name. -/
def HeaderMap.get (m : HeaderMap) (name : String) : Option String :=
  (m.find? fun h => h.1 = name).map (·.2)

structure RawResponse where
  status : Nat
  headers : HeaderMap
  body : Bytes

/-! ## The head -/

def parseStatus (statusLine : String) : Option Nat :=
  (splitWhitespace statusLine)[1]?.bind (parseUnsigned 16)

/-- A name and a value, of a line with a colon. -/
def parseHeader (T : HeaderTypes) (line : List Char) : Option (String × String) :=
  match afterFirst [':'] line with
  | none => none
  | some v =>
    match T.nameFromBytes (trim (String.ofList (line.takeWhile (· ≠ ':')))),
      T.valueFromStr (trim (String.ofList v)) with
    | some name, some val => some (name, val)
    | _, _ => none

def appendHeader (T : HeaderTypes) (headers : HeaderMap) (line : List Char) : HeaderMap :=
  if line.isEmpty then headers
  else
    match parseHeader T line with
    | some h => headers ++ [h]
    | none => headers

def parseHead (T : HeaderTypes) (head : Bytes) : Except String (Nat × HeaderMap) :=
  match splitStr ['\r', '\n'] (utf8DecodeLossy head).toList with
  | [] => .error "empty response"
  | line :: lines =>
    let statusLine := String.ofList line
    match parseStatus statusLine with
    | none => .error s!"bad status line: {statusLine}"
    | some status => .ok (status, lines.foldl (appendHeader T) [])

/-! ## The body -/

def readUntil (needle : Bytes) : ExceptT String Fetch Bytes := .mk (Pull.await (.readUntil needle))

def readExact (n : Nat) : ExceptT String Fetch Bytes := .mk (Pull.await (.readExact n))

def readToEnd : ExceptT String Fetch Bytes := .mk (Pull.await .readToEnd)

def hexVal (c : Char) : Option Nat :=
  if '0' ≤ c ∧ c ≤ '9' then some (c.toNat - 48)
  else if 'a' ≤ c ∧ c ≤ 'f' then some (c.toNat - 87)
  else if 'A' ≤ c ∧ c ≤ 'F' then some (c.toNat - 55)
  else none

def hexDigits (n : Nat) : List Char → Option Nat
  | [] => some n
  | c :: cs =>
    match hexVal c with
    | some d => hexDigits (16 * n + d) cs
    | none => none

/-- The number a non-empty list of hexadecimal digits stands for. -/
def hexMagnitude (cs : List Char) : Option Nat := if cs.isEmpty then none else hexDigits 0 cs

/-- Read an unsigned integer of `w` bits in hexadecimal. -/
def parseHex (w : Nat) (s : String) : Option Nat :=
  let n := match s.toList with
    | '+' :: cs => hexMagnitude cs
    | cs => hexMagnitude cs
  n.filter (· < 2 ^ w)

/-- What stands before the extensions of a chunk. -/
def sizeHex (sizeStr : String) : String :=
  trim (String.ofList ((splitChar ';' sizeStr.toList).headD []))

def chunkSize (line : Bytes) : Except String Nat :=
  let sizeStr := trim (utf8DecodeLossy line)
  match parseHex usizeBits (sizeHex sizeStr) with
  | none => .error s!"bad chunk size: {sizeStr}"
  | some size => .ok size

/-- The rest of a body in chunks, in a number of rounds. -/
def readChunked : Nat → Bytes → ExceptT String Fetch Bytes
  | 0, _ => .mk .spent
  | n + 1, body => do
    let line ← readUntil crlf
    let size ← ExceptT.mk (.done (chunkSize line))
    if size = 0 then
      -- What comes of the read after the last chunk is not looked at.
      .mk ((Pull.await (.readUntil crlf)).bind fun _ => .done (.ok body))
    else
      let chunk ← readExact size
      let _ ← readExact 2
      readChunked n (body ++ chunk)

def isChunked (T : HeaderTypes) (headers : HeaderMap) : Bool :=
  match (headers.get transferEncoding).bind T.toStr with
  | some v => lower v = "chunked"
  | none => false

def bodyLength (T : HeaderTypes) (headers : HeaderMap) : Option Nat :=
  ((headers.get contentLength).bind T.toStr).bind fun v => parseUnsigned usizeBits (trim v)

def readBody (T : HeaderTypes) (fuel : Nat) (headers : HeaderMap) : ExceptT String Fetch Bytes :=
  if isChunked T headers then readChunked fuel []
  else
    match bodyLength T headers with
    | some len => readExact len
    | none => readToEnd

/-- A request, after it was sent. -/
def request (T : HeaderTypes) (fuel : Nat) : ExceptT String Fetch RawResponse := do
  let head ← readUntil (crlf ++ crlf)
  let (status, headers) ← ExceptT.mk (.done (parseHead T head))
  let body ← readBody T fuel headers
  return { status, headers, body }

end Wandr.Http
