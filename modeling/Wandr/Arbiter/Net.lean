import Wandr.Arbiter.Vocabulary
import Wandr.Lib.Text

/-!
# Connectivity

The module of the link status and of the saved networks. A change of the link is
fanned to the subscribed guests. The saved networks are written to a file after
every change, with names and passphrases in base64, and read back at the start.
-/

namespace Wandr

open Text

/-- A saved network. -/
structure SavedNet where
  id : Nat
  ssid : String
  security : String
  psk : String
  autoConnect : Bool
  hidden : Bool
  deriving DecidableEq

/-! ## Base64 -/

/-- The digit of six bits. -/
def b64Digit (n : Nat) : Char :=
  if n < 26 then Char.ofNat (65 + n)
  else if n < 52 then Char.ofNat (71 + n)
  else if n < 62 then Char.ofNat (n - 4)
  else if n = 62 then '+'
  else '/'

/-- Bytes in base64, three at a time. -/
def b64Chars : List UInt8 → List Char
  | [] => []
  | [a] =>
    let n := a.toNat * 65536
    [b64Digit (n / 262144 % 64), b64Digit (n / 4096 % 64), '=', '=']
  | [a, b] =>
    let n := a.toNat * 65536 + b.toNat * 256
    [b64Digit (n / 262144 % 64), b64Digit (n / 4096 % 64), b64Digit (n / 64 % 64), '=']
  | a :: b :: c :: rest =>
    let n := a.toNat * 65536 + b.toNat * 256 + c.toNat
    b64Digit (n / 262144 % 64) :: b64Digit (n / 4096 % 64) :: b64Digit (n / 64 % 64) ::
      b64Digit (n % 64) :: b64Chars rest

def b64Encode (data : List UInt8) : String := String.ofList (b64Chars data)

/-- The value of a digit. -/
def b64Value (b : UInt8) : Option Nat :=
  if 65 ≤ b ∧ b ≤ 90 then some (b.toNat - 65)
  else if 97 ≤ b ∧ b ≤ 122 then some (b.toNat - 71)
  else if 48 ≤ b ∧ b ≤ 57 then some (b.toNat + 4)
  else if b = 43 then some 62
  else if b = 47 then some 63
  else none

/-- The bytes a text in base64 continues to, `bits` bits of the 32-bit buffer
    `buf` being still to be written; characters that are no digits are skipped. -/
def b64Bytes (buf bits : Nat) : List UInt8 → List UInt8
  | [] => []
  | b :: bs =>
    match b64Value b with
    | none => b64Bytes buf bits bs
    | some v =>
      let buf := (buf * 64 + v) % 2 ^ 32
      if 8 ≤ bits + 6 then
        UInt8.ofNat (buf / 2 ^ (bits - 2)) :: b64Bytes buf (bits - 2) bs
      else b64Bytes buf (bits + 6) bs

def b64Decode (s : String) : List UInt8 := b64Bytes 0 0 (utf8Encode s)

def b64ToString (s : String) : String := utf8DecodeLossy (b64Decode s)

/-! ## The file of the saved networks -/

/-- One network in the file. -/
def savedEntry (n : SavedNet) : String :=
  "  \x7b\"id\":" ++ toString n.id ++ ",\"ssid\":\"" ++ b64Encode (utf8Encode n.ssid) ++
    "\",\"sec\":\"" ++ n.security ++ "\",\"psk\":\"" ++ b64Encode (utf8Encode n.psk) ++
    "\",\"auto\":" ++ toString n.autoConnect ++ ",\"hidden\":" ++ toString n.hidden ++ "\x7d"

def savedToJson (saved : List SavedNet) : String :=
  "[\n" ++ String.intercalate ",\n" (saved.map savedEntry) ++ "\n]\n"

/-- The quoted value of a key. -/
def strField (obj : List Char) (key : String) : Option String :=
  (afterFirst ("\"" ++ key ++ "\":\"").toList obj).bind fun rest =>
    if rest.contains '"' then some (String.ofList (rest.takeWhile (· ≠ '"'))) else none

/-- The value of a key up to the next delimiter. -/
def rawField (obj : List Char) (key : String) : Option String :=
  (afterFirst ("\"" ++ key ++ "\":").toList obj).map fun rest =>
    trim (String.ofList (rest.takeWhile fun c => c ≠ ',' ∧ c ≠ '\x7d'))

/-- One network of the file; none without a readable id. -/
def savedNetOf (obj : List Char) : Option SavedNet :=
  ((rawField obj "id").bind (parseUnsigned 32)).map fun id =>
    { id
      ssid := ((strField obj "ssid").map b64ToString).getD ""
      security := (strField obj "sec").getD "wpa-psk"
      psk := ((strField obj "psk").map b64ToString).getD ""
      autoConnect := decide (rawField obj "auto" = some "true")
      hidden := decide (rawField obj "hidden" = some "true") }

def savedFromJson (body : String) : List SavedNet :=
  (splitChar '\x7d' body.toList).filterMap savedNetOf

/-! ## The link -/

/-- A connectivity snapshot. -/
structure NetState where
  online : Bool
  transport : String
  ssid : Option String
  ip : Option String
  deriving DecidableEq

def NetState.offline : NetState := ⟨false, "none", none, none⟩

/-- A snapshot on the wire. -/
def NetState.wire (st : NetState) : String :=
  let ssid := st.ssid.getD "-"
  let ip := st.ip.getD "-"
  if st.online then s!"online {st.transport} {ssid} {ip}" else "offline"

/-- The module; `stored` is the text of the file of the saved networks, if there
    is one. -/
structure NetModule where
  state : NetState := .offline
  subscribers : List Pid := []
  saved : List SavedNet := []
  nextId : Nat := 1
  stored : Option String := none

namespace NetModule

/-- The module with a file, of which `body` is the text if it could be read. -/
def withStore (body : Option String) : NetModule :=
  let saved := (body.map savedFromJson).getD []
  { saved
    nextId := ((saved.map SavedNet.id).foldr max 0 + 1) % 2 ^ 32
    stored := some (body.getD "") }

/-- Write the saved networks to the file, if there is one. -/
def persist (m : NetModule) : NetModule :=
  { m with stored := m.stored.map fun _ => savedToJson m.saved }

/-- A flag of the wire. -/
def parseFlag (s : String) : Bool := s = "1" ∨ s = "true"

/-- The credentials of a network on the wire. -/
def creds (n : SavedNet) : String :=
  s!"ssid={b64Encode (utf8Encode n.ssid)} psk={b64Encode (utf8Encode n.psk)} sec={n.security}"

def cmdSavedList (m : NetModule) : NetModule × Reply :=
  let line (n : SavedNet) : String :=
    s!"saved id={n.id} ssid={b64Encode (utf8Encode n.ssid)} sec={n.security} " ++
      s!"auto={bit n.autoConnect} hidden={bit n.hidden}\n"
  (m, .ok (String.join (m.saved.map line) ++ s!"ok count={m.saved.length}"))

/-- Update the first network passing a test. -/
def updateFirst (p : SavedNet → Bool) (f : SavedNet → SavedNet) : List SavedNet → List SavedNet
  | [] => []
  | n :: ns => if p n then f n :: ns else n :: updateFirst p f ns

/-- A network is added under a new id, or updated when one with its name and
    security is saved. -/
def cmdSavedAdd (m : NetModule) (args : String) : NetModule × Reply :=
  match splitWhitespace args with
  | [bssid, sec, bpsk, auto, hidden] =>
    let ssid := b64ToString bssid
    if ssid = "" then (m, .err "wifi-saved-add empty-ssid")
    else
      let psk := b64ToString bpsk
      let autoConnect := parseFlag auto
      let hidden := parseFlag hidden
      let same (n : SavedNet) : Bool := n.ssid = ssid ∧ n.security = sec
      match m.saved.find? same with
      | some n =>
        ({ m with saved := updateFirst same (fun n => { n with psk, autoConnect, hidden }) m.saved }
          |>.persist, .ok s!"id={n.id}")
      | none =>
        let id := m.nextId
        let n : SavedNet := ⟨id, ssid, sec, psk, autoConnect, hidden⟩
        ({ m with nextId := (id + 1) % 2 ^ 32, saved := m.saved ++ [n] }.persist, .ok s!"id={id}")
  | _ => (m, .err "wifi-saved-add-usage <b64ssid> <sec> <b64psk> <auto> <hidden>")

def cmdSavedUpdate (m : NetModule) (args : String) : NetModule × Reply :=
  match splitWhitespace args with
  | [idTok, bssid, sec, bpsk, auto, hidden] =>
    match parseUnsigned 32 idTok with
    | none => (m, .err "wifi-saved-update bad-id")
    | some id =>
      if (m.saved.any fun n => n.id = id) then
        ({ m with saved := updateFirst (fun n => n.id = id) (fun n =>
            { n with
              ssid := b64ToString bssid
              security := sec
              psk := b64ToString bpsk
              autoConnect := parseFlag auto
              hidden := parseFlag hidden }) m.saved }.persist, .ok s!"id={id}")
      else (m, .err "not-found")
  | _ => (m, .err "wifi-saved-update-usage <id> <b64ssid> <sec> <b64psk> <auto> <hidden>")

def cmdSavedRemove (m : NetModule) (args : String) : NetModule × Reply :=
  match (splitWhitespace args).head?.bind (parseUnsigned 32) with
  | none => (m, .err "wifi-saved-remove-usage <id>")
  | some id =>
    let saved := m.saved.filter fun n => n.id ≠ id
    let m := if saved.length ≠ m.saved.length then { m with saved }.persist else m
    (m, .ok s!"id={id}")

def cmdSavedAuto (m : NetModule) (args : String) : NetModule × Reply :=
  match splitWhitespace args with
  | [idTok, on] =>
    match parseUnsigned 32 idTok with
    | none => (m, .err "wifi-saved-auto-connect bad-id")
    | some id =>
      if (m.saved.any fun n => n.id = id) then
        ({ m with saved := updateFirst (fun n => n.id = id) (fun n =>
            { n with autoConnect := parseFlag on }) m.saved }.persist,
          .ok s!"id={id} auto={bit (parseFlag on)}")
      else (m, .err "not-found")
  | _ => (m, .err "wifi-saved-auto-connect-usage <id> <0|1>")

def cmdSavedCreds (m : NetModule) (args : String) : NetModule × Reply :=
  match (splitWhitespace args).head?.bind (parseUnsigned 32) with
  | none => (m, .err "wifi-saved-creds-usage <id>")
  | some id =>
    match m.saved.find? fun n => n.id = id with
    | some n => (m, .ok (creds n))
    | none => (m, .err "not-found")

def cmdAutoNetwork (m : NetModule) : NetModule × Reply :=
  match m.saved.find? SavedNet.autoConnect with
  | some n => (m, .ok (creds n))
  | none => (m, .ok "none")

/-- Push the link status to some guests. -/
def notify (m : NetModule) (pids : List Pid) (c : Ctx) : Ctx :=
  c.deliverToAll pids fun _ => .netChanged m.state.wire

/-- A link status as the daemon reports it. -/
def parseState : List String → Option NetState
  | "online" :: rest =>
    some ⟨true, rest[0]?.getD "wifi", rest[1]?.filter (· ≠ "-"), rest[2]?.filter (· ≠ "-")⟩
  | "offline" :: _ => some .offline
  | _ => none

def cmdReportNetState (m : NetModule) (args : String) (c : Ctx) : NetModule × Ctx × Reply :=
  match parseState (splitWhitespace args) with
  | none =>
    (m, c, .err "report-net-state-usage online <transport> <ssid> <ip> | offline")
  | some new =>
    let (m, c) :=
      if new ≠ m.state then
        let m := { m with state := new }
        (m, m.notify m.subscribers c)
      else (m, c)
    (m, c, .ok s!"report-net-state {m.state.wire}")

def cmdNetSubscribe (m : NetModule) (args : String) (c : Ctx) : NetModule × Ctx × Reply :=
  match (splitWhitespace args).head?.bind (parseSigned 32) with
  | none => (m, c, .err "net-subscribe-usage <pid>")
  | some pid =>
    let m :=
      if m.subscribers.contains pid then m else { m with subscribers := m.subscribers ++ [pid] }
    (m, m.notify [pid] c, .ok s!"net-subscribe {pid}")

/-- The verbs of the module. -/
inductive Verb
  | reportNetState
  | netStatus
  | netSubscribe
  | savedList
  | savedAdd
  | savedUpdate
  | savedRemove
  | savedAutoConnect
  | savedCreds
  | autoNetwork
  deriving DecidableEq

/-- A verb on the wire. -/
def Verb.wire : Verb → String
  | .reportNetState => "report-net-state"
  | .netStatus => "net-status"
  | .netSubscribe => "net-subscribe"
  | .savedList => "wifi-saved-list"
  | .savedAdd => "wifi-saved-add"
  | .savedUpdate => "wifi-saved-update"
  | .savedRemove => "wifi-saved-remove"
  | .savedAutoConnect => "wifi-saved-auto-connect"
  | .savedCreds => "wifi-saved-creds"
  | .autoNetwork => "wifi-auto-network"

/-- The result of a command that works on the module alone. -/
def inCtx (r : NetModule × Reply) (c : Ctx) : NetModule × Ctx × Reply := (r.1, c, r.2)

def onCommand (m : NetModule) (verb : Verb) (args : String) (c : Ctx) : NetModule × Ctx × Reply :=
  match verb with
  | .reportNetState => m.cmdReportNetState args c
  | .netStatus => (m, c, .ok m.state.wire)
  | .netSubscribe => m.cmdNetSubscribe args c
  | .savedList => inCtx m.cmdSavedList c
  | .savedAdd => inCtx (m.cmdSavedAdd args) c
  | .savedUpdate => inCtx (m.cmdSavedUpdate args) c
  | .savedRemove => inCtx (m.cmdSavedRemove args) c
  | .savedAutoConnect => inCtx (m.cmdSavedAuto args) c
  | .savedCreds => inCtx (m.cmdSavedCreds args) c
  | .autoNetwork => inCtx m.cmdAutoNetwork c

def onEvent (m : NetModule) (e : Event) (c : Ctx) : NetModule × Ctx :=
  match e with
  | .surfaceRemoved pid => ({ m with subscribers := m.subscribers.filter fun p => p ≠ pid }, c)
  | _ => (m, c)

end NetModule

end Wandr
