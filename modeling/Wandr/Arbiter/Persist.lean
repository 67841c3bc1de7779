import Wandr.Arbiter.Store
import Wandr.Lib.Scan

/-!
# The state file

What the daemon keeps over a restart: which app had the foreground, which one is the
home, the apps with their processes, and the alarms. The file has the shape of JSON;
its writer escapes texts, and its reader looks for keys and delimiters by their first
occurrence.
-/

namespace Wandr

open Text

/-! ## Writing -/

/-- A text with a backslash before its quotes and backslashes. -/
def jsonEscape (s : String) : List Char :=
  s.toList.flatMap fun c =>
    if c = '\\' then ['\\', '\\'] else if c = '"' then ['\\', '"'] else [c]

/-- An optional text at the top level. -/
def topJson (key : String) : Option String → List Char
  | some v => ["  \"".toList, key.toList, "\": \"".toList, jsonEscape v, "\",\n".toList].flatten
  | none => ["  \"".toList, key.toList, "\": null,\n".toList].flatten

/-- The objects of an array, each on a line of its own. -/
def objectsJson (os : List (List Char)) : List Char :=
  (os.intersperse ", ".toList).flatten ++ if os.isEmpty then [] else "\n  ".toList

def appJson (a : AppState) : List Char :=
  ["\n    \x7b\"app_id\": \"".toList, jsonEscape a.appId, "\", \"pid\": ".toList,
    (toString a.pid).toList, ", \"launched_at_unix\": ".toList, (toString a.launchedAt).toList,
    "\x7d".toList].flatten

def alarmJson (a : Alarm) : List Char :=
  ["\n    \x7b\"app_id\": \"".toList, jsonEscape a.appId, "\", \"alarm_id\": ".toList,
    (toString a.alarmId).toList, ", \"next_fire_ms\": ".toList, (toString a.nextFireMs).toList,
    ", \"repeat_ms\": ".toList, (toString a.repeatMs).toList, ", \"wake_kind\": \"".toList,
    a.wakeKind.asWire.toList, "\"\x7d".toList].flatten

/-- The state, as it is written at the time `now`. -/
def Store.toJson (s : Store) (now : Nat) (fg : Option String) : List Char :=
  ["\x7b\n  \"version\": 1,\n  \"saved_at_unix\": ".toList, (toString now).toList, ",\n".toList,
    topJson "foreground" fg, topJson "home" s.home,
    "  \"apps\": [".toList, objectsJson (s.appsSnapshot.map appJson), "],\n".toList,
    "  \"alarms\": [".toList, objectsJson (s.alarms.rows.map alarmJson), "]\n\x7d\n".toList].flatten

/-! ## Reading -/

/-- A key, between quotes. -/
def needle (key : String) : List Char := '"' :: (key.toList ++ ['"'])

/-- What follows the colon of a key. -/
def afterColon (cs : List Char) : Option (List Char) :=
  (afterFirst [':'] cs).map (·.dropWhile isWhitespace)

/-- The text that starts with a quote, up to the next quote. -/
def quotedText : List Char → Option String
  | '"' :: rest => (beforeFirst '"' rest).map String.ofList
  | _ => none

def parseTopString (body : List Char) (key : String) : Option String := do
  let idx ← fromFirst (needle key) body
  let rest ← afterColon idx
  if "null".toList.isPrefixOf rest then none else quotedText rest

def pickStr (entry : List Char) (key : String) : Option String := do
  let after ← afterFirst (needle key) entry
  let rest ← afterColon after
  quotedText rest

def pickInt (entry : List Char) (key : String) : Option Int := do
  let after ← afterFirst (needle key) entry
  let rest ← afterColon after
  parseSigned 64 (String.ofList (rest.takeWhile isNumeric))

/-- A 64-bit integer, as a signed one of 32 bits. -/
def asI32 (i : Int) : Int := Int.bmod i (2 ^ 32)

/-- A signed 64-bit integer, as an unsigned one. -/
def asU64 (i : Int) : Nat := (i % 2 ^ 64).toNat

/-- Where the array of a key starts. -/
def arrayStart (body : List Char) (key : String) : Option (List Char) :=
  (fromFirst (needle key) body).bind (afterFirst ['['])

/-- What follows the first opening brace in each of the stretches between closing ones. -/
def objects (arr : List Char) : List (List Char) :=
  (splitChar '\x7d' arr).filterMap (afterFirst ['\x7b'])

/-- An app, its process and the second it was launched at. -/
def readApp (entry : List Char) : Option (String × Pid × Nat) :=
  let appId := (pickStr entry "app_id").getD ""
  let pid := asI32 ((pickInt entry "pid").getD 0)
  let launched := asU64 ((pickInt entry "launched_at_unix").getD 0)
  if appId ≠ "" ∧ 0 < pid then some (appId, pid, launched) else none

def parseApps (body : List Char) : Except String (List (String × Pid × Nat)) :=
  match arrayStart body "apps" with
  | none => .ok []
  | some arr =>
    match beforeFirst ']' arr with
    | none => .error "malformed state.json — apps[] unterminated"
    | some arr => .ok ((objects arr).filterMap readApp)

def readAlarm (entry : List Char) : Option Alarm :=
  let appId := (pickStr entry "app_id").getD ""
  if appId = "" then none
  else some
    { appId
      alarmId := asU64 ((pickInt entry "alarm_id").getD 0)
      nextFireMs := asU64 ((pickInt entry "next_fire_ms").getD 0)
      repeatMs := asU64 ((pickInt entry "repeat_ms").getD 0)
      wakeKind := .fromWire ((pickStr entry "wake_kind").getD "")
      pendingDeliver := false }

def parseAlarms (body : List Char) : List Alarm :=
  match arrayStart body "alarms" with
  | none => []
  | some arr =>
    match beforeFirst ']' arr with
    | none => []
    | some arr => (objects arr).filterMap readAlarm

/-- What restoring the state comes to: the store, how many apps were alive and how many
    dead, and the app that had the foreground, if it is alive. -/
structure RestoredFile where
  store : Store
  alive : Nat
  dead : Nat
  fg : Option String

/-- Restore the state from a file. The apps whose processes are alive are registered,
    as launched at the monotonic time `mono`. -/
def Store.restoreFromJson (s : Store) (pidAlive : Pid → Bool) (mono : Nat) (body : List Char) :
    Except String RestoredFile := do
  let entries ← parseApps body
  let fg := parseTopString body "foreground"
  let home := parseTopString body "home"
  let living := entries.filter fun e => pidAlive e.2.1
  let s := living.foldl (fun s e => s.insertApp ⟨e.1, e.2.1, e.2.2, mono⟩) s
  let restoredFg := fg.filter fun f => (s.app f).isSome
  let s := match home with
    | some h => { s with home := some h }
    | none => s
  let s := (parseAlarms body).foldl Store.upsertAlarm s
  .ok ⟨s, living.length, entries.length - living.length, restoredFg⟩

end Wandr
