import Wandr.Arbiter.Vocabulary
import Wandr.Lib.Percent

/-!
# Media sessions

What every app plays, and which of these sessions is the active one: the last to
publish metadata or to go playing, and when that one goes away, the most recent
of those left, a playing one before the others. The system surfaces read the
active session and have their transport taps routed to its owner.
-/

namespace Wandr

open Text

/-- The playback state of a session; `unset` until the app reports one. -/
inductive Playback
  | unset
  | none
  | paused
  | playing
  deriving DecidableEq

/-- Parse a token of the wire. -/
def Playback.fromWire : String → Option Playback
  | "none" => some .none
  | "paused" => some .paused
  | "playing" => some .playing
  | _ => Option.none

/-- The token on the wire. -/
def Playback.asWire : Playback → String
  | .unset | .none => "none"
  | .paused => "paused"
  | .playing => "playing"

/-- The session of a process; `seq` grows with every touch. -/
structure SessionState where
  pid : Pid
  appId : String := ""
  title : String := ""
  artist : String := ""
  album : String := ""
  state : Playback := .unset
  durationS : F64 := ⟨0⟩
  rate : F64 := ⟨0⟩
  positionS : F64 := ⟨0⟩
  artMime : String := ""
  artB64 : String := ""
  seq : Nat := 0

structure MediaSessionModule where
  sessions : Table SessionState.pid := .empty
  active : Option Pid := none
  seq : Nat := 0

namespace MediaSessionModule

def pctEncode (s : String) : String := Percent.encode s

def pctDecode (s : String) : String := Percent.decode s

/-- A field of the metadata; a tilde is an empty one. -/
def decField (s : String) : String := if s = "~" then "" else pctDecode s

/-- The app of a process, or its number. -/
def appIdFor (pid : Pid) (s : Store) : String :=
  ((s.appByPid pid).map AppState.appId).getD (toString pid)

/-- Get or create the session of a process, refresh it, and edit it. The counter
    of touches is a 64-bit one. -/
def touch (m : MediaSessionModule) (pid : Pid) (s : Store) (f : SessionState → SessionState) :
    MediaSessionModule :=
  let seq := (m.seq + 1) % 2 ^ 64
  let session := (m.sessions.get? pid).getD { pid }
  let session := f { session with appId := appIdFor pid s, seq }
  { m with sessions := m.sessions.put { session with pid }, seq }

/-- Whether a session goes before another, or ties with it, for being active. -/
def precedes (a b : SessionState) : Bool :=
  if a.state = .playing then
    if b.state = .playing then b.seq ≤ a.seq else true
  else if b.state = .playing then false
  else b.seq ≤ a.seq

/-- The session to make active: the most recent one, playing ones first, the last
    listed on a tie. -/
def best : List SessionState → Option SessionState
  | [] => none
  | a :: as => match best as with
    | none => some a
    | some b => if precedes b a then some b else some a

def recomputeActive (m : MediaSessionModule) : MediaSessionModule :=
  { m with active := (best m.sessions.rows).map SessionState.pid }

/-- Drop the sessions of apps no longer running. -/
def pruneDead (m : MediaSessionModule) (s : Store) : MediaSessionModule :=
  let m := { m with sessions := m.sessions.retain fun e => (s.appByPid e.pid).isSome }
  match m.active with
  | some a => if m.sessions.contains a then m else m.recomputeActive
  | none => m

/-! ## Commands -/

def cmdSetMetadata (m : MediaSessionModule) (args : String) (c : Ctx) :
    MediaSessionModule × Ctx × Reply :=
  match splitWhitespace args with
  | pidTok :: title :: artist :: album :: _ =>
    match parseSigned 32 pidTok with
    | none => (m, c, .err s!"media-session-bad-pid {quote pidTok}")
    | some pid =>
      -- new metadata is usually a new track, so the art of the last one goes
      let m := m.touch pid c.store fun s =>
        { s with
          title := decField title
          artist := decField artist
          album := decField album
          artMime := ""
          artB64 := "" }
      ({ m with active := some pid }, c, .ok s!"media-session metadata pid={pid}")
  | _ => (m, c, .err ("media-session-set-metadata-args: <pid> <title> <artist> <album> " ++
      "[has-art]"))

def cmdSetArt (m : MediaSessionModule) (args : String) (c : Ctx) :
    MediaSessionModule × Ctx × Reply :=
  match splitWhitespace args with
  | pidTok :: mime :: b64 :: _ =>
    match parseSigned 32 pidTok with
    | none => (m, c, .err s!"media-session-bad-pid {quote pidTok}")
    | some pid =>
      if m.sessions.contains pid then
        let withArt (s : SessionState) : SessionState := { s with artMime := mime, artB64 := b64 }
        ({ m with sessions := m.sessions.modify pid withArt fun _ => rfl }, c,
          .ok s!"media-session art pid={pid} bytes={(utf8Encode b64).length}")
      else (m, c, .err s!"media-session-set-art-no-session {pid}")
  | _ => (m, c, .err "media-session-set-art-args: <pid> <enc-mime> <b64>")

def cmdSetState (m : MediaSessionModule) (args : String) (c : Ctx) :
    MediaSessionModule × Ctx × Reply :=
  match splitWhitespace args with
  | [pidTok, stateTok] =>
    match parseSigned 32 pidTok with
    | none => (m, c, .err s!"media-session-bad-pid {quote pidTok}")
    | some pid =>
      match Playback.fromWire stateTok with
      | none => (m, c, .err s!"media-session-bad-state {quote stateTok}")
      | some state =>
        let m := m.touch pid c.store fun s => { s with state }
        let m := if state = .playing then { m with active := some pid } else m
        (m, c, .ok s!"media-session state pid={pid}")
  | _ => (m, c, .err "media-session-set-state-args: <pid> <state>")

def cmdClear (m : MediaSessionModule) (args : String) (c : Ctx) :
    MediaSessionModule × Ctx × Reply :=
  match parseSigned 32 (trim args) with
  | none => (m, c, .err s!"media-session-clear-bad-pid {quote args}")
  | some pid =>
    let m := { m with sessions := m.sessions.erase pid }
    let m := if m.active = some pid then m.recomputeActive else m
    (m, c, .ok s!"media-session cleared pid={pid}")

def cmdArtwork (m : MediaSessionModule) (c : Ctx) : MediaSessionModule × Ctx × Reply :=
  let m := m.pruneDead c.store
  match (m.active.bind m.sessions.get?).filter fun s => s.artB64 ≠ "" with
  | some s => (m, c, .ok s!"{s.artMime} {s.artB64}")
  | none => (m, c, .ok "")

def cmdAction (m : MediaSessionModule) (args : String) (c : Ctx) :
    MediaSessionModule × Ctx × Reply :=
  let m := m.pruneDead c.store
  match m.active with
  | none => (m, c, .err "media-session-action-no-active-session")
  | some pid =>
    match splitWhitespace args with
    | [] => (m, c, .err "media-session-action-args: <action> [seek]")
    | action :: rest =>
      (m, c.deliverToHost pid (.mediaSessionAction action (rest.head?.getD "-")),
        .ok s!"media-session action={action} pid={pid}")

section

variable [Fpu]

def cmdSetPosition (m : MediaSessionModule) (args : String) (c : Ctx) :
    MediaSessionModule × Ctx × Reply :=
  match splitWhitespace args with
  | [pidTok, durTok, rateTok, posTok] =>
    match parseSigned 32 pidTok with
    | none => (m, c, .err s!"media-session-bad-pid {quote pidTok}")
    | some pid =>
      let durationS := (Fpu.parse64 durTok).getD ⟨0⟩
      let rate := (Fpu.parse64 rateTok).getD ⟨0x3FF0000000000000⟩
      let positionS := (Fpu.parse64 posTok).getD ⟨0⟩
      (m.touch pid c.store fun s => { s with durationS, rate, positionS }, c,
        .ok s!"media-session position pid={pid}")
  | _ => (m, c, .err "media-session-set-position-args: <pid> <dur> <rate> <pos>")

def cmdNowPlaying (m : MediaSessionModule) (c : Ctx) : MediaSessionModule × Ctx × Reply :=
  let m := m.pruneDead c.store
  match m.active.bind m.sessions.get? with
  | none => (m, c, .ok "")
  | some s =>
    let art := if s.artB64 = "" then 0 else 1
    (m, c, .ok (s!"app={s.appId} title={pctEncode s.title} artist={pctEncode s.artist} " ++
      s!"album={pctEncode s.album} state={s.state.asWire} dur={Fpu.display64 s.durationS} " ++
      s!"pos={Fpu.display64 s.positionS} art={art}"))

end

/-- The verbs of the module. -/
inductive Verb
  | setMetadata
  | setArt
  | setState
  | setPosition
  | clear
  | nowPlaying
  | artwork
  | action
  deriving DecidableEq

/-- A verb on the wire. -/
def Verb.wire : Verb → String
  | .setMetadata => "media-session-set-metadata"
  | .setArt => "media-session-set-art"
  | .setState => "media-session-set-state"
  | .setPosition => "media-session-set-position"
  | .clear => "media-session-clear"
  | .nowPlaying => "media-session-now-playing"
  | .artwork => "media-session-artwork"
  | .action => "media-session-action"

def onCommand [Fpu] (m : MediaSessionModule) (verb : Verb) (args : String) (c : Ctx) :
    MediaSessionModule × Ctx × Reply :=
  match verb with
  | .setMetadata => m.cmdSetMetadata args c
  | .setArt => m.cmdSetArt args c
  | .setState => m.cmdSetState args c
  | .setPosition => m.cmdSetPosition args c
  | .clear => m.cmdClear args c
  | .nowPlaying => m.cmdNowPlaying c
  | .artwork => m.cmdArtwork c
  | .action => m.cmdAction args c

def onEvent (m : MediaSessionModule) (e : Event) (c : Ctx) : MediaSessionModule × Ctx :=
  match e with
  | .surfaceRemoved pid =>
    if m.sessions.contains pid then
      let m := { m with sessions := m.sessions.erase pid }
      (if m.active = some pid then m.recomputeActive else m, c)
    else (m, c)
  | _ => (m, c)

end MediaSessionModule

end Wandr
