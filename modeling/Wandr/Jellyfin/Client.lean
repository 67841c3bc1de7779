import Mathlib.Data.List.Basic

/-!
# The video client

The client shows the titles of a video library, one title in detail, or the player. What it asks
the server is asked by tasks, each of which goes on when the server has answered, which may be at
any time later; a task does not say which request it was started for.

* `cellTap`, `setTab`, `cmdBack`, `playDetail`: what the user does;
* `loaded`, `userData`, `playbackInfo`, `probed`: the tasks go on;
* `engineTick`: a stream that has been found is opened, and the open one is driven and reported.
-/

namespace Wandr.Jellyfin

/-! ## Media -/

inductive Kind
  | movie
  | series
  | season
  | episode
  deriving DecidableEq

/-- The id of an item: the text of a UUID, as the client has written it. -/
structure ItemId where
  text : String
  deriving DecidableEq

structure Media where
  id : ItemId
  name : String
  sub : String
  kind : Kind
  deriving DecidableEq

structure Screen where
  title : String
  media : List Media
  isList : Bool
  deriving DecidableEq

inductive Phase
  | boot
  | pairing
  | loading
  | browse
  | detail
  | resolving
  | playing
  | failed
  deriving DecidableEq

inductive View
  | browse
  | detail
  | player
  deriving DecidableEq

/-- What a screen lists. -/
inductive Listing
  | home
  | movies
  | shows
  | children (title : String)
  deriving DecidableEq

def Listing.title : Listing → String
  | home => "Home"
  | movies => "Movies"
  | shows => "Shows"
  | children title => title

def Listing.isChildren : Listing → Bool
  | children _ => true
  | _ => false

/-! ## Playing -/

/-- The item, the media source and the play session that the server is told of. -/
structure Resolved where
  itemId : ItemId
  mediaSourceId : String
  playSessionId : String
  deriving DecidableEq

/-- A press of Play or Resume: the title, and its own resume position if it is to be resumed. -/
structure Play where
  number : Nat
  id : ItemId
  startUs : Int
  deriving DecidableEq

/-- A stream that the server has offered, and the ids that its URL is made of. -/
structure Source where
  url : String
  container : String
  durUs : Int
  ids : Resolved
  deriving DecidableEq

/-- A stream that is to be opened, and the play that it was found for. -/
structure PendingOpen where
  url : String
  totalLen : Nat
  title : String
  durUs : Int
  isMkv : Bool
  ids : Resolved
  play : Play
  deriving DecidableEq

/-- The open stream. Its first tick seeks to `startUs`. -/
structure Stream where
  source : PendingOpen
  startUs : Int
  clockUs : Int := 0
  ended : Bool := false
  deriving DecidableEq

inductive ReportKind
  | start
  | progress
  | stop
  deriving DecidableEq

/-- What the server is told, and the ids of the stream that is open then. -/
structure Report where
  kind : ReportKind
  ids : Resolved
  positionTicks : Int
  paused : Bool
  streaming : Option Resolved
  deriving DecidableEq

structure MediaSource where
  id : Option String
  supportsDirectPlay : Option Bool
  transcodingUrl : Option String
  runTimeTicks : Option Int
  container : Option String

/-- The answer to what may be played. -/
structure PlaybackInfo where
  mediaSources : List MediaSource
  playSessionId : Option String

/-- The first bytes of a stream, and its length. -/
structure Probe where
  bytes : List UInt8
  totalLen : Nat

/-- The answer about an item. -/
structure ItemInfo where
  overview : Option String
  runTimeTicks : Option Int

/-! ## The state -/

/-- A task that fills a screen: it has not begun, or waits for the server. -/
inductive ScreenTask
  | loadTab (tab : Int)
  | drill (parent : ItemId) (into : Kind) (title : String)
  | waiting (listing : Listing)
  deriving DecidableEq

/-- A task that looks up the title that was tapped: it has not begun, waits for what is said of
it, or for where it is resumed. -/
inductive DetailTask
  | loadDetail (id : ItemId)
  | item (id : ItemId)
  | userData (id : ItemId)
  deriving DecidableEq

/-- A task that finds the stream of a title: it has not begun, waits for what may be played, or
for the first bytes. -/
inductive Opening
  | spawned (play : Play) (resumeUs : Int)
  | resolving (play : Play) (resumeUs : Int)
  | probing (play : Play) (resumeUs : Int) (source : Source)
  deriving DecidableEq

structure State where
  phase : Phase := .boot
  driverSpawned : Bool := false
  client : Bool := false
  uid : Bool := false
  token : String := ""
  server : String := ""
  tab : Int := 0
  /-- The screens, the visible one first. -/
  stack : List Screen := []
  pairingCode : Option String := none
  detail : Option Media := none
  detailResumeUs : Int := 0
  detailOverview : String := ""
  resolved : Option Resolved := none
  pendingOpen : Option PendingOpen := none
  pendingSeekUs : Int := 0
  lastReportUs : Int := 0
  view : View := .browse
  overlayUntilNs : Nat := 0
  immersive : Bool := false
  last : String := "starting…"
  lastNanos : Nat := 0
  /-- The engine: the open stream, and what its controls say. -/
  stream : Option Stream := none
  paused : Bool := false
  seekRequest : Option Int := none
  /-- Whether the host draws frame after frame. -/
  continuousRender : Bool := false
  /-- The tasks that have been started. -/
  driving : Bool := false
  screens : List ScreenTask := []
  details : List DetailTask := []
  openings : List Opening := []
  /-- What the server has been told. -/
  reports : List Report := []
  /-- How often something was played, and the last play that no back has cancelled. -/
  plays : Nat := 0
  wanted : Option Play := none
  /-- The resume positions that the server has answered, the last one first, and the title that
  `detailResumeUs` is the position of. -/
  positions : List (ItemId × Int) := []
  resumeOf : Option ItemId := none
  /-- The play sessions that the server has named. -/
  sessions : List String := []
  deriving DecidableEq

variable (s : State)

def note (msg : String) : State := { s with last := msg }

def setPhase (p : Phase) : State := { s with phase := p }

/-- The resume position of a title, as the server has answered it last. -/
def ownPosition (id : ItemId) : Int := (s.positions.lookup id).getD 0

/-! ## Screens -/

def waitFor (listing : Listing) : State :=
  { setPhase s .loading with screens := s.screens ++ [.waiting listing] }

def tabListing (tab : Int) : Listing :=
  if tab = 1 then .movies else if tab = 2 then .shows else .home

def loadTab (tab : Int) : State :=
  if s.uid then waitFor s (tabListing tab) else s

def drill (into : Kind) (title : String) : State :=
  if s.uid then
    match into with
    | .season | .episode => waitFor s (.children title)
    | _ => s
  else s

def pushScreen (scr : Screen) (reset : Bool) : State :=
  { s with stack := scr :: (if reset then [] else s.stack), phase := .browse, view := .browse }

/-- A query that fails gives no titles; what fails at home is not said. -/
def itemsQuery (listing : Listing) (r : Except String (List Media)) : State × List Media :=
  if s.client then
    match r with
    | .ok media => (s, media)
    | .error e => (if listing = .home then s else note s ("browse: " ++ e), [])
  else (s, [])

/-- The titles of a screen have come, or not. -/
def loaded (listing : Listing) (r : Except String (List Media)) : State :=
  let (s, media) := itemsQuery s listing r
  pushScreen s { title := listing.title, media, isList := listing.isChildren }
    (!listing.isChildren)

def setTab (t : Int) : State :=
  { s with tab := t, stack := [], last := "loading…", screens := s.screens ++ [.loadTab t] }

/-! ## A title in detail -/

def findMedia (id : ItemId) : Option Media :=
  s.stack.head?.bind fun scr => scr.media.find? (·.id = id)

def openDetail (m : Media) : State :=
  { s with
    detail := some m
    detailResumeUs := 0
    view := .detail
    phase := .detail
    details := s.details ++ [.loadDetail m.id]
    resumeOf := none }

/-- A title or a list is tapped. -/
def cellTap (id : ItemId) : State :=
  match findMedia s id with
  | none => s
  | some m => match m.kind with
    | .series => { s with screens := s.screens ++ [.drill m.id .season m.name] }
    | .season => { s with screens := s.screens ++ [.drill m.id .episode m.name] }
    | .movie | .episode => openDetail s m

def twoDigits (n : Nat) : String := (if n < 10 then "0" else "") ++ toString n

def fmtSecs (sec : Int) : String :=
  let n := sec.toNat
  if n ≥ 3600 then
    toString (n / 3600) ++ ":" ++ twoDigits (n % 3600 / 60) ++ ":" ++ twoDigits (n % 60)
  else toString (n / 60) ++ ":" ++ twoDigits (n % 60)

def loadDetail (id : ItemId) : State :=
  if s.client ∧ s.uid then { s with details := s.details ++ [.item id] } else s

/-- What the server says of a title is said of the one that is shown. -/
def itemInfo (id : ItemId) (r : Option ItemInfo) : State :=
  let s := { s with details := s.details ++ [.userData id] }
  match r with
  | none => s
  | some det =>
    let overview := det.overview.getD ""
    let said (d : Media) : Media :=
      if overview.isEmpty then d
      else { d with
        sub := d.sub ++ "   ·   " ++ fmtSecs ((det.runTimeTicks.getD 0).tdiv 10000000) }
    { s with detail := s.detail.map said, detailOverview := overview }

/-- So is where it is resumed. -/
def userData (id : ItemId) (r : Option (Option Int)) : State :=
  match r with
  | none => s
  | some ticks =>
    let resumeUs := (ticks.getD 0).tdiv 10
    { s with
      detailResumeUs := resumeUs
      positions := (id, resumeUs) :: s.positions
      resumeOf := some id }

/-! ## Finding a stream -/

def openMedia (play : Play) (resumeUs : Int) : State :=
  if s.client ∧ s.uid then
    { setPhase s .resolving with openings := s.openings ++ [.resolving play resumeUs] }
  else s

def trimSlashes (url : String) : String :=
  String.ofList (url.toList.reverse.dropWhile (· = '/')).reverse

def streamUrl (ids : Resolved) (container : String) : String :=
  trimSlashes s.server ++ "/Videos/" ++ ids.itemId.text ++ "/stream." ++ container ++
    "?static=true&mediaSourceId=" ++ ids.mediaSourceId ++ "&playSessionId=" ++
    ids.playSessionId ++ "&api_key=" ++ s.token

/-- The stream that a media source offers. -/
def sourceOf (id : ItemId) (session : Option String) (ms : MediaSource) : Source :=
  let ids : Resolved := ⟨id, ms.id.getD id.text, session.getD ""⟩
  let named := ms.container.getD ""
  let container := if named.isEmpty then "mp4" else named
  { url := streamUrl s ids container
    container
    durUs := (max (ms.runTimeTicks.getD 0) 0).tdiv 10
    ids }

/-- Whether a media source is played as it is. -/
def MediaSource.direct (ms : MediaSource) : Bool :=
  ms.supportsDirectPlay = some true && ms.transcodingUrl.isNone

/-- The server has said what may be played; `http` is whether there is an HTTP client. -/
def playbackInfo (play : Play) (resumeUs : Int) (r : Except String PlaybackInfo) (http : Bool) :
    State :=
  match r with
  | .error e => setPhase (note s ("PlaybackInfo: " ++ e)) .browse
  | .ok pb =>
    let s := { s with sessions := pb.playSessionId.getD "" :: s.sessions }
    match pb.mediaSources with
    | [] => setPhase (note s "no media source") .browse
    | ms :: _ =>
      if ms.direct then
        if http then
          { s with openings := s.openings ++
            [.probing play resumeUs (sourceOf s play.id pb.playSessionId ms)] }
        else setPhase s .browse
      else setPhase (note s "⚠ server would transcode — skipped (DirectPlay only)") .browse

/-- The first bytes of the stream have come, or not. -/
def probed (play : Play) (resumeUs : Int) (source : Source) (r : Except String Probe) : State :=
  match r with
  | .error e => setPhase (note s ("stream probe: " ++ e)) .browse
  | .ok probe =>
    { s with
      resolved := some source.ids
      pendingSeekUs := resumeUs
      pendingOpen := some {
        url := source.url
        totalLen := probe.totalLen
        title := (s.detail.map Media.name).getD ""
        durUs := source.durUs
        isMkv := probe.bytes.take 4 = [0x1A, 0x45, 0xDF, 0xA3] || source.container = "mkv" ||
          source.container = "webm"
        ids := source.ids
        play } }

/-! ## Reports -/

def report (kind : ReportKind) (positionUs : Int) (paused : Bool) : State :=
  match s.resolved, s.client with
  | some ids, true =>
    { s with reports := s.reports ++ [{
        kind
        ids
        positionTicks := positionUs * 10
        paused
        streaming := s.stream.map fun o => o.source.ids }] }
  | _, _ => s

def stopPlayback : State :=
  let finalUs := (s.stream.map Stream.clockUs).getD 0
  { report s .stop finalUs false with
    stream := none
    continuousRender := false
    immersive := false
    resolved := none
    view := .browse
    phase := .browse }

/-! ## The player -/

def overlayLingerNs : Nat := 4000000000

/-- The title in detail is played, from where it is resumed or from its start. -/
def playDetail (resume : Bool) : State :=
  match s.detail with
  | none => s
  | some d =>
    let play : Play := ⟨s.plays + 1, d.id, if resume then ownPosition s d.id else 0⟩
    { s with
      view := .player
      overlayUntilNs := 18446744073709551615
      continuousRender := true
      openings := s.openings ++ [.spawned play (if resume then s.detailResumeUs else 0)]
      plays := s.plays + 1
      wanted := some play }

def goBack : State :=
  match s.view with
  | .player => s
  | .detail => { s with view := .browse, phase := .browse }
  | .browse => match s.stack with
    | _ :: b :: rest => { s with stack := b :: rest }
    | _ => s

def cmdBack : State :=
  if s.view = .player then { stopPlayback s with wanted := none } else goBack s

def playerTap : State :=
  { s with overlayUntilNs :=
      if s.lastNanos < s.overlayUntilNs then 0 else s.lastNanos + overlayLingerNs }

def cmdToggle : State :=
  { s with paused := !s.paused, overlayUntilNs := s.lastNanos + overlayLingerNs }

/-- A seek is asked for. -/
def cmdSeek (target : Int) : State :=
  { s with
    seekRequest :=
      if 0 < (s.stream.map fun o => o.source.durUs).getD 0 then some target else s.seekRequest
    overlayUntilNs := s.lastNanos + overlayLingerNs }

/-- What the engine makes of the open stream in a frame. -/
structure Pumped where
  clockUs : Int
  ended : Bool

def pumpStream (p : Pumped) : State :=
  if s.phase = .playing then
    { s with stream := s.stream.map fun o => { o with clockUs := p.clockUs, ended := p.ended } }
  else s

/-- A frame is drawn: the chrome is hidden with the controls of the player. -/
def onRenderFrame (nanos : Nat) (p : Pumped) : State :=
  let s := pumpStream { s with lastNanos := nanos } p
  if s.view = .player then { s with immersive := !(nanos < s.overlayUntilNs) } else s

/-! ## The engine -/

/-- What comes from elsewhere during a tick: whether a stream opens, and where a seek lands. -/
structure Tick where
  opens : Except String Unit
  landed : Option Int

def spawnDriver : State :=
  if s.driverSpawned then s else { s with driverSpawned := true, driving := true }

/-- Seconds, to the nearest, a half to the even. -/
def roundSecs (us : Int) : Int :=
  let q := us / 1000000
  let r := us % 1000000
  if r < 500000 then q else if 500000 < r then q + 1 else if q % 2 = 0 then q else q + 1

def resumeAfter : Int := 5000000

/-- A stream is resumed if its position is late enough. -/
def resumeStream : State :=
  if resumeAfter < s.pendingSeekUs then
    note { s with seekRequest := some s.pendingSeekUs }
      ("resume: " ++ toString (roundSecs s.pendingSeekUs) ++ "s")
  else s

/-- A stream that has been found is opened. -/
def openPending (opens : Except String Unit) : State :=
  match s.pendingOpen with
  | none => s
  | some p =>
    let s := { s with pendingOpen := none }
    match opens with
    | .ok _ =>
      let s := resumeStream { s with phase := .playing, lastReportUs := 0 }
      -- The seek that has been asked for is made by this same tick.
      report { s with stream := some { source := p, startUs := s.seekRequest.getD 0 } }
        .start (max s.pendingSeekUs 0) false
    | .error msg => stopPlayback (note s ("open failed — " ++ msg))

/-- A seek lands somewhere, or the stream cannot be sought in and goes on. -/
def doSeek (o : Stream) (landed : Option Int) : Stream :=
  match landed with
  | some us => { o with clockUs := us, ended := false }
  | none => o

def takeSeek (landed : Option Int) : State :=
  { s with
    seekRequest := none
    stream := if s.seekRequest.isSome then s.stream.map (doSeek · landed) else s.stream }

def reportEvery : Int := 10000000

def reportProgress : State :=
  let clk := (s.stream.map Stream.clockUs).getD 0
  if reportEvery ≤ clk - s.lastReportUs then
    report { s with lastReportUs := clk } .progress clk s.paused
  else s

/-- The open stream is driven: sought in, closed at its end, and reported. -/
def drive (landed : Option Int) : State :=
  if s.phase = .playing then
    let s := takeSeek s landed
    if (s.stream.map Stream.ended).getD false then stopPlayback s else reportProgress s
  else s

def engineTick (e : Tick) : State := drive (openPending (spawnDriver s) e.opens) e.landed

/-! ## The driver -/

structure Connected where
  uid : Bool
  token : String
  server : String

/-- The user is asked to enter a code. -/
def pair (code : String) : State :=
  if s.driving then { s with pairingCode := some code, phase := .pairing } else s

/-- The client is connected, or it cannot be. -/
def driver (r : Except String Connected) : State :=
  if s.driving then
    let s := { s with driving := false }
    match r with
    | .error e => setPhase (note s e) .failed
    | .ok c =>
      loadTab (note { s with
        pairingCode := none
        client := true
        uid := c.uid
        token := c.token
        server := c.server } ("connected to " ++ c.server)) 0
  else s

/-! ## Steps -/

inductive Input
  | cellTap (id : ItemId)
  | setTab (t : Int)
  | back
  | play (resume : Bool)
  | playerTap
  | toggle
  | seek (target : Int)
  | frame (nanos : Nat) (p : Pumped)
  | tick (e : Tick)
  | pair (code : String)
  | driver (r : Except String Connected)
  /-- A task that has been started goes on. -/
  | screenBegun (k : Nat)
  | loaded (k : Nat) (r : Except String (List Media))
  | detailBegun (k : Nat)
  | itemInfo (k : Nat) (r : Option ItemInfo)
  | userData (k : Nat) (r : Option (Option Int))
  | openBegun (k : Nat)
  | playbackInfo (k : Nat) (r : Except String PlaybackInfo) (http : Bool)
  | probed (k : Nat) (r : Except String Probe)

def step : Input → State
  | .cellTap id => cellTap s id
  | .setTab t => setTab s t
  | .back => cmdBack s
  | .play resume => playDetail s resume
  | .playerTap => playerTap s
  | .toggle => cmdToggle s
  | .seek target => cmdSeek s target
  | .frame nanos p => onRenderFrame s nanos p
  | .tick e => engineTick s e
  | .pair code => pair s code
  | .driver r => driver s r
  | .screenBegun k =>
    match s.screens[k]? with
    | some (.loadTab tab) => loadTab { s with screens := s.screens.eraseIdx k } tab
    | some (.drill _ into title) => drill { s with screens := s.screens.eraseIdx k } into title
    | _ => s
  | .loaded k r =>
    match s.screens[k]? with
    | some (.waiting listing) => loaded { s with screens := s.screens.eraseIdx k } listing r
    | _ => s
  | .detailBegun k =>
    match s.details[k]? with
    | some (.loadDetail id) => loadDetail { s with details := s.details.eraseIdx k } id
    | _ => s
  | .itemInfo k r =>
    match s.details[k]? with
    | some (.item id) => itemInfo { s with details := s.details.eraseIdx k } id r
    | _ => s
  | .userData k r =>
    match s.details[k]? with
    | some (.userData id) => userData { s with details := s.details.eraseIdx k } id r
    | _ => s
  | .openBegun k =>
    match s.openings[k]? with
    | some (.spawned play us) => openMedia { s with openings := s.openings.eraseIdx k } play us
    | _ => s
  | .playbackInfo k r http =>
    match s.openings[k]? with
    | some (.resolving play us) =>
      playbackInfo { s with openings := s.openings.eraseIdx k } play us r http
    | _ => s
  | .probed k r =>
    match s.openings[k]? with
    | some (.probing play us source) =>
      probed { s with openings := s.openings.eraseIdx k } play us source r
    | _ => s

end Wandr.Jellyfin
