import Mathlib.Data.List.Basic

/-!
# The music client

The client shows screens of a music library, one over the other, and plays a queue of songs. What
is tapped is only noted; a tick of the engine starts a task for it, and the task reports when the
server has answered, which may be at any time later.

* `rowTap`, `setTab`, `searchSubmit`, `skip`: what is asked for;
* `engineTick`: the tasks are started, and a stream that has been found is opened;
* `fetch`, `play`, `probed`: the tasks report.
-/

namespace Wandr.Navidrome

/-! ## Screens -/

inductive Dest
  | albums
  | artists
  | playlists
  | songs
  | search
  deriving DecidableEq

/-- A song. -/
structure Child where
  id : String
  title : String
  artist : Option String
  duration : Option Int
  deriving DecidableEq

inductive Row
  | menu (dest : Dest)
  | album (id name : String)
  | artist (id name : String)
  | playlist (id name : String)
  | song (child : Child)
  deriving DecidableEq

/-- What is fetched. -/
inductive Nav
  | dest (dest : Dest)
  | album (id : String)
  | artist (id : String)
  | playlist (id : String)
  | search (query : String)
  deriving DecidableEq

/-- How a screen was asked for: each request has a number, and a screen that of its request. -/
inductive Origin
  /-- A tab was selected. -/
  | tab (t : Int)
  /-- A row of a screen was tapped. -/
  | row (below : Nat)
  /-- A search was made, on a screen if there was one. -/
  | search (below : Option Nat)
  deriving DecidableEq

structure Ask where
  nav : Nav
  number : Nat
  origin : Origin
  deriving DecidableEq

structure Screen where
  title : String
  rows : List Row
  cover : Option String
  number : Nat
  origin : Origin
  deriving DecidableEq

/-- What the server answers to a fetch. -/
structure Reply where
  name : String
  cover : Option String
  rows : List Row

/-- The screen that shows an answer; a search is opened in another way. -/
def screenOf (a : Ask) (r : Reply) : Option Screen :=
  let titled (title : String) (cover : Option String) : Option Screen :=
    some { title, rows := r.rows, cover, number := a.number, origin := a.origin }
  match a.nav with
  | .dest .albums => titled "Albums" none
  | .dest .artists => titled "Artists" none
  | .dest .playlists => titled "Playlists" none
  | .dest .songs => titled "Songs" none
  | .dest .search => none
  | .album _ => titled r.name r.cover
  | .artist _ => titled r.name r.cover
  | .playlist _ => titled r.name r.cover
  | .search query => titled ("“" ++ query ++ "”") none

/-- What the message about a failed fetch begins with. -/
def Nav.what : Nav → String
  | .dest .albums => "albums: "
  | .dest .artists => "artists: "
  | .dest .playlists => "playlists: "
  | .dest .songs => "songs: "
  | .dest .search => ""
  | .album _ => "album: "
  | .artist _ => "artist: "
  | .playlist _ => "playlist: "
  | .search _ => "search: "

/-! ## The state -/

inductive Phase
  | loading
  | ready
  | error
  deriving DecidableEq

inductive Play
  | idle
  | opening
  | playing
  deriving DecidableEq

/-- The stream of a song, as it is opened. -/
structure Stream where
  url : String
  totalLen : Nat
  title : String
  durUs : Int
  /-- The song, and the number of the request it was found for. -/
  song : Child
  number : Nat
  deriving DecidableEq

/-- A task that opens a song of the queue: it has not begun, or waits for the server. -/
inductive Opening
  | spawned (number idx : Nat)
  | probing (number : Nat) (song : Child) (url : String)
  deriving DecidableEq

def Opening.number : Opening → Nat
  | spawned number _ => number
  | probing number _ _ => number

structure State where
  phase : Phase := .loading
  play : Play := .idle
  driverSpawned : Bool := false
  client : Bool := false
  /-- The screens, the visible one first. -/
  stack : List Screen := []
  pendingNav : Option Ask := none
  busy : Bool := false
  searching : Bool := false
  tab : Int := 0
  queue : List Child := []
  qidx : Nat := 0
  pendingPlay : Option Nat := none
  pendingOpen : Option Stream := none
  last : String := "connecting…"
  /-- The stream that is open. -/
  stream : Option Stream := none
  /-- The tasks that have been started. -/
  driving : Bool := false
  fetches : List Ask := []
  openings : List Opening := []
  /-- How many screens and how many songs have been asked for. -/
  asked : Nat := 0
  played : Nat := 0
  deriving DecidableEq

variable (s : State)

def note (msg : String) : State := { s with last := msg }

def setPlay (p : Play) : State := { s with play := p }

/-! ## Requests -/

/-- Something is to be fetched by the next tick; what was to be fetched before is not. -/
def ask (nav : Nav) (origin : Origin) : State :=
  { s with pendingNav := some { nav, number := s.asked, origin }, asked := s.asked + 1 }

def destForTab (t : Int) : Dest :=
  if t = 0 then .albums else if t = 1 then .artists else if t = 2 then .playlists else .songs

def setTab (t : Int) : State :=
  ask { s with tab := t, stack := [], searching := false, busy := true, last := "loading…" }
    (.dest (destForTab t)) (.tab t)

def startQueue (queue : List Child) (idx : Nat) : State :=
  if queue.isEmpty then s
  else
    let qidx := min idx (queue.length - 1)
    { s with queue, qidx, pendingPlay := some qidx }

def Row.child? : Row → Option Child
  | .song c => some c
  | _ => none

/-- A row is tapped: a screen is asked for, or the songs of the screen are played. -/
def rowTap (i : Nat) : State :=
  match s.stack with
  | [] => s
  | scr :: _ =>
    let go (nav : Nav) : State :=
      ask { s with busy := true, last := "loading…" } nav (.row scr.number)
    match scr.rows[i]? with
    | none => s
    | some (.menu .search) => { s with searching := true }
    | some (.menu d) => go (.dest d)
    | some (.album id _) => go (.album id)
    | some (.artist id _) => go (.artist id)
    | some (.playlist id _) => go (.playlist id)
    | some (.song _) =>
      startQueue s (scr.rows.filterMap Row.child?)
        (((scr.rows.take (i + 1)).filterMap Row.child?).length - 1)

def goBack : State :=
  match s.stack with
  | _ :: b :: rest => { s with stack := b :: rest }
  | _ => s

def skip (delta : Int) : State :=
  if s.queue.isEmpty then s
  else
    let next := max 0 (min (s.qidx + delta) (s.queue.length - 1))
    if next ≠ s.qidx then
      { s with qidx := next.toNat, pendingPlay := some next.toNat }
    else s

/-- A search is made; the blanks around it have been taken off. -/
def searchSubmit (query : String) : State :=
  let s := { s with searching := false }
  if query.isEmpty then s
  else
    ask { s with busy := true, last := "searching…" } (.search query)
      (.search (s.stack.head?.map Screen.number))

/-! ## Tasks -/

def pushScreen (scr : Screen) : State :=
  { s with stack := scr :: s.stack, busy := false, phase := .ready }

def fail (msg : String) : State :=
  { s with last := msg, busy := false, phase := if s.stack.isEmpty then .error else .ready }

/-- The client is connected, or it cannot be. -/
def driver (r : Except String Unit) : State :=
  if s.driving then
    let s := { s with driving := false }
    match r with
    | .error e => { s with last := e, phase := .error }
    | .ok _ =>
      ask { s with
        client := true
        tab := 0
        stack := []
        busy := true
        phase := .ready
        last := "loading albums…" } (.dest .albums) (.tab 0)
  else s

def noteEmpty (a : Ask) (reply : Reply) : State :=
  match a.nav with
  | .search query =>
    if reply.rows.isEmpty then note s ("no results for \"" ++ query ++ "\"") else s
  | _ => s

/-- The answer to a fetch. -/
def fetch (a : Ask) (r : Except String Reply) : State :=
  if s.client then
    match r with
    | .error e => match a.nav with
      | .dest .search => s
      | nav => fail s (nav.what ++ e)
    | .ok reply => match screenOf a reply with
      | some scr => pushScreen (noteEmpty s a reply) scr
      | none => s
  else fail s "not connected"

/-- A task to open a song begins: it reads which song it is. -/
def play (number idx : Nat) (url : Except String String) (http : Bool) : State :=
  match s.queue[idx]?, s.client with
  | some song, true =>
    match url with
    | .error e => setPlay (note s ("stream url: " ++ e)) .idle
    | .ok url =>
      if http then { s with openings := s.openings ++ [.probing number song url] }
      else setPlay (note s "no HTTP client") .idle
  | _, _ => setPlay s .idle

/-- The server has said how long the stream is, or not. -/
def probed (number : Nat) (song : Child) (url : String) (r : Except String Nat) : State :=
  match r with
  | .error e => setPlay (note s ("stream probe: " ++ e)) .idle
  | .ok 0 => setPlay (note s "stream: server did not report a length") .idle
  | .ok (len + 1) =>
    { s with pendingOpen := some {
        url
        totalLen := len + 1
        title := song.artist.getD "" ++ " — " ++ song.title
        durUs := max (song.duration.getD 0) 0 * 1000000
        song
        number } }

/-! ## The engine -/

/-- What comes from elsewhere during a tick: whether playing is to be stopped, whether a stream
opens, and whether the open one has been played to its end. -/
structure Tick where
  stop : Bool
  opens : Except String Unit
  ended : Bool

def teardownStream : State := { s with stream := none }

def spawnDriver : State :=
  if s.driverSpawned then s else { s with driverSpawned := true, driving := true }

def spawnFetch : State :=
  match s.pendingNav with
  | some a => { s with pendingNav := none, fetches := s.fetches ++ [a] }
  | none => s

/-- The open stream is closed, and another song is to be opened. -/
def spawnPlay : State :=
  match s.pendingPlay with
  | some idx =>
    { setPlay (teardownStream s) .opening with
      pendingPlay := none
      openings := s.openings ++ [.spawned (s.played + 1) idx]
      played := s.played + 1 }
  | none => s

def stopRequested (stop : Bool) : State :=
  if stop then setPlay (teardownStream s) .idle else s

/-- A stream that has been found is opened. -/
def openPending (opens : Except String Unit) : State :=
  match s.pendingOpen with
  | some p =>
    let s := { s with pendingOpen := none }
    match opens with
    | .ok _ => setPlay { s with stream := some p } .playing
    | .error e => setPlay (note s ("open failed: " ++ e)) .idle
  | none => s

/-- After the end of a song comes the next of the queue. -/
def drive (ended : Bool) : State :=
  if s.stream.isSome ∧ s.play = .playing ∧ ended then
    if s.qidx + 1 < s.queue.length then
      { s with qidx := s.qidx + 1, pendingPlay := some (s.qidx + 1) }
    else setPlay (teardownStream s) .idle
  else s

def engineTick (e : Tick) : State :=
  let s := spawnPlay (spawnFetch (spawnDriver s))
  drive (openPending (stopRequested s e.stop) e.opens) e.ended

/-! ## Steps -/

inductive Input
  | rowTap (i : Nat)
  | setTab (t : Int)
  | goBack
  | skip (delta : Int)
  | openSearch
  | closeSearch
  | searchSubmit (query : String)
  | tick (e : Tick)
  /-- A task that has been started reports. -/
  | driver (r : Except String Unit)
  | fetched (k : Nat) (r : Except String Reply)
  | begun (k : Nat) (url : Except String String) (http : Bool)
  | probed (k : Nat) (r : Except String Nat)

def step : Input → State
  | .rowTap i => rowTap s i
  | .setTab t => setTab s t
  | .goBack => goBack s
  | .skip delta => skip s delta
  | .openSearch => { s with searching := true }
  | .closeSearch => { s with searching := false }
  | .searchSubmit query => searchSubmit s query
  | .tick e => engineTick s e
  | .driver r => driver s r
  | .fetched k r =>
    match s.fetches[k]? with
    | some a => fetch { s with fetches := s.fetches.eraseIdx k } a r
    | none => s
  | .begun k url http =>
    match s.openings[k]? with
    | some (.spawned number idx) =>
      play { s with openings := s.openings.eraseIdx k } number idx url http
    | _ => s
  | .probed k r =>
    match s.openings[k]? with
    | some (.probing number song url) =>
      probed { s with openings := s.openings.eraseIdx k } number song url r
    | _ => s

end Wandr.Navidrome
