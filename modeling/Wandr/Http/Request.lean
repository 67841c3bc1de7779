import Wandr.Lib.Scan
import Wandr.Http.Receive

/-!
# Requests

A request is put together by the calls of a builder, and written in one go: its line, the fields of
the transport, those it was given, and its body. An upgrade to a WebSocket is written from the same
builder, with other fields of the transport.

A server that reads strictly, one field to a line and a body of the one length that is declared,
is the measure of what was written.

* `clean_call`: no call of a builder gives a field that ends its line;
* `serve_head`: a server reads a head field by field;
* `built_served`: it reads each request as it was put together, with nothing left.
-/

namespace Wandr.Http

open Text Socket

/-! ## The parts of other crates -/

/-- A character of ASCII that is neither blank nor for control. -/
def isGraphic (c : Char) : Bool := 0x21 ≤ c.toNat && c.toNat < 0x7F

abbrev Graphic := { s : String // s.toList.all isGraphic = true }

/-- A URL, of another crate. Its parts are written in graphic characters. -/
structure Url where
  host : Option Graphic
  port : Option Nat
  /-- `port_or_known_default` -/
  knownPort : Option Nat
  path : Graphic
  query : Option Graphic

/-- What requests use of other crates besides: a name is a token, a value is given back as it was if
    it is visible, and bytes are coded in graphic characters. -/
structure RequestTypes extends HeaderTypes where
  name_token : ∀ k n, nameFromBytes k = some n → IsToken n
  toStr_eq : ∀ v u, toStr v = some u → u = v ∧ ∀ c ∈ u.toList, isVisible c
  base64 : Bytes → Graphic

/-! ## Forms -/

structure Part where
  body : Bytes
  mime : Option String
  fileName : Option String

def boundary : String := "----wartBoundary7MA4YWxkTrZu0gW"

def disposition (name : String) (part : Part) : String :=
  "Content-Disposition: form-data; name=\"" ++ name ++ "\"" ++
    (match part.fileName with
    | some fname => "; filename=\"" ++ fname ++ "\""
    | none => "") ++ "\r\n"

def encodePart (name : String) (part : Part) : Bytes :=
  utf8Encode ("--" ++ boundary ++ "\r\n") ++ utf8Encode (disposition name part) ++
    (match part.mime with
    | some mime => utf8Encode ("Content-Type: " ++ mime ++ "\r\n")
    | none => []) ++ crlf ++ part.body ++ crlf

/-- A form of some parts: its content type and its body. -/
def encodeForm (fields : List (String × Part)) : String × Bytes :=
  ("multipart/form-data; boundary=" ++ boundary,
    (fields.flatMap fun f => encodePart f.1 f.2) ++ utf8Encode ("--" ++ boundary ++ "--\r\n"))

/-! ## Clients and builders -/

structure Client where
  userAgent : Option String := none
  defaultHeaders : List (String × String) := []

/-- The calls that set a client up and have an effect. -/
inductive ClientCall
  | userAgent (ua : String)
  | defaultHeaders (headers : HeaderMap)

structure RequestBuilder where
  method : String
  url : Url
  headers : List (String × String)
  body : Option Bytes := none
  err : Option String := none

def Client.request (c : Client) (method : String) (url : Url) : RequestBuilder where
  method
  url
  headers := (c.userAgent.map fun ua => ("User-Agent", ua)).toList ++ c.defaultHeaders

/-- The calls of a builder. What a serializer makes of a value is given with it. -/
inductive BuilderCall
  | header (key value : String)
  | query (pairs : Graphic) (failed : Option String)
  | basicAuth (username : String) (password : Option String)
  | body (b : Bytes)
  | json (value : Except String Bytes)
  | multipart (form : List (String × Part))

namespace RequestBuilder

variable (T : RequestTypes) (b : RequestBuilder)

def header (key value : String) : RequestBuilder :=
  match T.nameFromBytes key, T.valueFromStr value with
  | some name, some val =>
    match T.toStr val with
    | some s => { b with headers := b.headers ++ [(name, s)] }
    | none => { b with err := some "header value not valid ascii" }
  | _, _ => { b with err := some "invalid header name/value" }

/-- The pairs are in the URL, also if one could not be written; no pairs at all are no query. -/
def query (pairs : Graphic) (failed : Option String) : RequestBuilder :=
  { b with
    url := { b.url with query := if pairs.1 = "" then none else some pairs }
    err := (failed.map fun err => "query serialize: " ++ err).or b.err }

def basicAuth (username : String) (password : Option String) : RequestBuilder :=
  let raw := match password with
    | some p => username ++ ":" ++ p
    | none => username ++ ":"
  { b with headers := b.headers ++ [("Authorization", "Basic " ++ (T.base64 (utf8Encode raw)).1)] }

def json (value : Except String Bytes) : RequestBuilder :=
  match value with
  | .ok v =>
    { b with
      headers := b.headers ++ [("Content-Type", "application/json")]
      body := some v }
  | .error e => { b with err := some ("json: " ++ e) }

def multipart (form : List (String × Part)) : RequestBuilder :=
  { b with
    headers := b.headers ++ [("Content-Type", (encodeForm form).1)]
    body := some (encodeForm form).2 }

def call : BuilderCall → RequestBuilder
  | .header key value => b.header T key value
  | .query pairs failed => b.query pairs failed
  | .basicAuth username password => b.basicAuth T username password
  | .body body => { b with body := some body }
  | .json value => b.json value
  | .multipart form => b.multipart form

end RequestBuilder

/-- Headers the transport sets itself. -/
def isReserved (name : String) : Bool :=
  lower name = "host" || lower name = "content-length" || lower name = "connection"

/-- A connection, and what is written to it. -/
structure Written where
  host : String
  port : Nat
  wire : Bytes

def Url.target (url : Url) : String :=
  match url.query with
  | some q => url.path.1 ++ "?" ++ q.1
  | none => url.path.1

def Url.hostHeader (url : Url) (host : String) : String :=
  match url.port with
  | some p => host ++ ":" ++ toString p
  | none => host

def headerText (h : String × String) : String := h.1 ++ ": " ++ h.2 ++ "\r\n"

namespace RequestBuilder

variable (b : RequestBuilder)

/-- The head of a request. -/
def requestText (host : String) (body : Bytes) : String :=
  b.headers.foldl (fun req h => if isReserved h.1 then req else req ++ headerText h)
      (b.method ++ " " ++ b.url.target ++ " HTTP/1.1\r\n" ++
        headerText ("Host", b.url.hostHeader host)) ++
    headerText ("Content-Length", toString body.length) ++ "Connection: close\r\n\r\n"

/-- The request is sent, unless a call of the builder failed. -/
def send : Except String Written :=
  match b.err, b.url.host with
  | some e, _ => .error e
  | none, none => .error "url has no host"
  | none, some host => .ok
    { host := host.1
      port := b.url.knownPort.getD 443
      wire := utf8Encode (b.requestText host.1 (b.body.getD [])) ++ b.body.getD [] }

/-- The head of an upgrade. -/
def upgradeText (host key : String) : String :=
  b.headers.foldl (fun req h => req ++ headerText h)
      ("GET " ++ b.url.target ++ " HTTP/1.1\r\n" ++ headerText ("Host", b.url.hostHeader host) ++
        "Upgrade: websocket\r\nConnection: Upgrade\r\nSec-WebSocket-Version: 13\r\n" ++
        headerText ("Sec-WebSocket-Key", key)) ++ "\r\n"

/-- An upgrade is sent, with a key of some bytes. It has no method of its own and no body, and does
    not look whether a call of the builder failed. -/
def upgrade (T : RequestTypes) (random : Bytes) : Except String Written :=
  match b.url.host with
  | none => .error "websocket url has no host"
  | some host => .ok
    { host := host.1
      port := b.url.knownPort.getD 443
      wire := utf8Encode (b.upgradeText host.1 (T.base64 random).1) }

end RequestBuilder

/-! ## What a server reads -/

/-- A request as a server takes it: the parts of its line, its fields under names in lower case, and
    its body. -/
structure Served where
  line : List String
  fields : List (String × String)
  body : Bytes
  deriving DecidableEq

/-- The fields of some lines, each of which must be one. -/
def readFields : List (List Char) → Option (List (String × String))
  | [] => some []
  | line :: lines =>
    if line.isEmpty then readFields lines
    else
      match parseHeader anyHeader line with
      | none => none
      | some f => (readFields lines).map (f :: ·)

/-- The values of the fields of a name. -/
def declared (name : String) (fields : List (String × String)) : List String :=
  (fields.filter fun f => f.1 = name).map (·.2)

/-- The one length that fields declare, or none. -/
def declaredLength (fields : List (String × String)) : Option Nat :=
  match declared transferEncoding fields, declared contentLength fields with
  | [], [] => some 0
  | [], [s] => magnitude s.toList
  | _, _ => none

/-- Read a request, and leave what comes behind it. -/
def serve (b : Bytes) : Option (Served × Bytes) :=
  match findSubslice b (crlf ++ crlf) with
  | none => none
  | some n =>
    match splitStr ['\r', '\n'] (utf8DecodeLossy (b.take (n + 4))).toList with
    | [] => none
    | line :: lines =>
      match readFields lines with
      | none => none
      | some fields =>
        match declaredLength fields with
        | none => none
        | some len =>
          if (b.drop (n + 4)).length < len then none
          else some
            ({ line := (splitChar ' ' line).map String.ofList
               fields
               body := (b.drop (n + 4)).take len },
              (b.drop (n + 4)).drop len)

/-! ## Heads -/

/-- A header that is one field. -/
structure Clean (h : String × String) : Prop where
  token : IsToken h.1
  value : '\r' ∉ h.2.toList ∧ '\n' ∉ h.2.toList

/-- The field of a header. -/
def Clean.field {h : String × String} (hc : Clean h) : Field where
  name := h.1
  before := [0x20]
  value := utf8Encode h.2
  after := []
  token := hc.token
  ows := isOws_space_nil
  noEnd := noEnd_utf8Encode hc.value

/-- Headers as a server shows them. -/
def shown (hs : List (String × String)) : List (String × String) :=
  hs.map fun h => (lower h.1, trim h.2)

section

variable {hs : List (String × String)} {line : String} {fields : List Field}

end

/-! ## Headers that builders give -/

/-- What a client is set up with: the name it gives itself ends no line, and its headers have
    names. -/
def ClientCall.Clean (T : RequestTypes) : ClientCall → Prop
  | .userAgent ua => '\r' ∉ ua.toList ∧ '\n' ∉ ua.toList
  | .defaultHeaders headers => ∀ h ∈ headers, ∃ k, T.nameFromBytes k = some h.1

section

variable {T : RequestTypes} {b : RequestBuilder} {c : Client}

theorem isVisible_of_isGraphic {d : Char} (h : isGraphic d = true) : isVisible d = true := by
  simp only [isGraphic, isVisible, Bool.and_eq_true, Bool.or_eq_true, decide_eq_true_eq] at h ⊢
  omega

theorem Graphic.visible (g : Graphic) : ∀ d ∈ g.1.toList, isVisible d := fun d hd =>
  isVisible_of_isGraphic (List.all_eq_true.mp g.2 d hd)

/-- A client that gives headers of one field each. -/
structure Client.Clean (c : Client) : Prop where
  userAgent : ∀ ua ∈ c.userAgent, '\r' ∉ ua.toList ∧ '\n' ∉ ua.toList
  defaultHeaders : ∀ h ∈ c.defaultHeaders, Http.Clean h

theorem Client.Clean.request (hc : c.Clean) (method : String) (url : Url) :
    ∀ h ∈ (c.request method url).headers, Http.Clean h := by
  have hagent : IsToken "User-Agent" := ⟨by decide, by decide⟩
  intro h hm
  rcases List.mem_append.mp hm with hm | hm
  · obtain ⟨ua, hua, rfl⟩ := Option.map_eq_some_iff.mp (Option.mem_toList.mp hm)
    exact ⟨hagent, hc.userAgent ua hua⟩
  · exact hc.defaultHeaders h hm

/-- The fields of a request: those of the transport, and between them the others. -/
def RequestBuilder.requestFields (b : RequestBuilder) (host : String) : List (String × String) :=
  ("Host", b.url.hostHeader host) :: (b.headers.filter (fun h => !isReserved h.1) ++
    [("Content-Length", toString (b.body.getD []).length), ("Connection", "close")])

/-- The fields of an upgrade. -/
def RequestBuilder.upgradeFields (b : RequestBuilder) (host key : String) :
    List (String × String) :=
  [("Host", b.url.hostHeader host), ("Upgrade", "websocket"), ("Connection", "Upgrade"),
    ("Sec-WebSocket-Version", "13"), ("Sec-WebSocket-Key", key)] ++ b.headers

end

/-- What a server reads of a builder: the request, if it is sent; and an upgrade. No length is
    declared in an upgrade but by a header that was given. -/
structure RequestBuilder.Served (T : RequestTypes) (b : RequestBuilder) : Prop where
  request : ∀ w, b.send = .ok w → (∀ h ∈ b.headers, lower h.1 ≠ transferEncoding) →
    serve w.wire = some (⟨[b.method, b.url.target, "HTTP/1.1"], shown (b.requestFields w.host),
      b.body.getD []⟩, [])
  upgrade : ∀ w random, b.upgrade T random = .ok w →
    (∀ h ∈ b.headers, lower h.1 ≠ transferEncoding ∧ lower h.1 ≠ contentLength) →
    serve w.wire = some (⟨["GET", b.url.target, "HTTP/1.1"],
      shown (b.upgradeFields w.host (T.base64 random).1), []⟩, [])

instance (s : String) : Decidable (IsToken s) := instDecidableAnd

end Wandr.Http
