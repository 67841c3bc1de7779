import Wandr.Arbiter.Base64
import Wandr.Arbiter.Wire

/-!
# The wire of the network daemon

The daemon owns the Wi-Fi link. It reports the link to the arbiter, and serves one line
per connection on its control socket, to which the arbiter relays the requests of the
guests. Names and passphrases cross that socket in base64; the report has the name of
the network as it is.
-/

namespace Wandr

open Text

/-- An IPv4 address. -/
structure Ipv4 where
  a : UInt8
  b : UInt8
  c : UInt8
  d : UInt8
  deriving DecidableEq

/-- An address in dotted decimal. -/
def Ipv4.render (ip : Ipv4) : String :=
  s!"{ip.a.toNat}.{ip.b.toNat}.{ip.c.toNat}.{ip.d.toNat}"

/-- A snapshot of the link. -/
structure LinkStatus where
  up : Bool := false
  ssid : Option String := none
  ip : Option Ipv4 := none
  gateway : Option Ipv4 := none
  dns : List Ipv4 := []
  deriving DecidableEq

/-- What a network is joined with. -/
structure WifiCreds where
  ssid : String
  psk : String
  deriving DecidableEq

namespace NetDaemon

/-! ## Reporting -/

/-- A snapshot on the wire. -/
def statusWire (status : LinkStatus) : String :=
  if status.up then
    let ssid := status.ssid.getD "-"
    let ip := (status.ip.map Ipv4.render).getD "-"
    s!"online wifi {ssid} {ip}"
  else "offline"

/-- The lines that report a snapshot: to the arbiter, and to the event bus. -/
def report (status : LinkStatus) : List String :=
  let wire := statusWire status
  [s!"report-net-state {wire}", s!"evt-publish net.status {b64Encode (utf8Encode wire)}"]

/-! ## The control socket -/

/-- What a line of the control socket asks for. A connection may be asked for with
    arguments that name no network. -/
inductive Request
  | scan
  | connect (creds : Except String WifiCreds)
  | setEnabled (on : Bool)
  | isEnabled
  | none
  | unknown (verb : String)

/-- The network that a connection is asked for with. -/
def connectCreds (rest : String) : Except String WifiCreds :=
  match splitWhitespace rest with
  | bs :: bp :: _ =>
    let ssid := b64ToString bs
    let psk := b64ToString bp
    if ssid = "" then .error "err connect empty-ssid\n" else .ok ⟨ssid, psk⟩
  | _ => .error "err connect-usage <b64ssid> <b64psk>\n"

/-- A line of the control socket, without the whitespace at its two ends. -/
def dispatchControl (line : String) : Request :=
  let (verb, rest) := splitOnce line.toList
  let rest := trim (String.ofList (rest.getD []))
  match String.ofList verb with
  | "scan" => .scan
  | "connect" => .connect (connectCreds rest)
  | "set-enabled" => .setEnabled (rest = "1" ∨ rest = "true" ∨ rest = "on")
  | "is-enabled" => .isEnabled
  | "" => .none
  | verb => .unknown verb

/-- What a connection to the control socket asks for. -/
def handleControlConn (text : List Char) : Request :=
  dispatchControl (trim (String.ofList (text.takeWhile (· ≠ '\n'))))

/-- The network that a text sent to the control socket makes the daemon connect to. -/
def connectsTo (text : List Char) : Option WifiCreds :=
  match handleControlConn text with
  | .connect (.ok creds) => some creds
  | _ => none

end NetDaemon

/-! ## The relay of the arbiter -/

/-- The first word with a prefix, without it. -/
def field (body k : String) : String :=
  ((splitWhitespace body).findSome? fun kv =>
    if k.toList.isPrefixOf kv.toList then some (String.ofList (kv.toList.drop k.length))
    else none).getD ""

/-- What is sent to the daemon of a line of a request: it ends in a line break. -/
def relayed (line : String) : List Char :=
  if line.toList.getLast? = some '\n' then line.toList else line.toList ++ ['\n']

/-- The line relayed for a connection to a saved network. -/
def wifiConnectSaved (m : NetModule) (rest : String) : Except String String :=
  match (m.cmdSavedCreds rest).2 with
  | .err e => .error s!"err {e}"
  | .ok creds =>
    let ssid := field creds "ssid="
    let psk := field creds "psk="
    if ssid = "" then .error "err saved-creds-malformed" else .ok s!"connect {ssid} {psk}"

/-- The line relayed for a connection to a network that is named. -/
def wifiConnect (rest : String) : String := s!"connect {rest}"

end Wandr
