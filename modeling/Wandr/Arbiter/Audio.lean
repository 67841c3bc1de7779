import Mathlib.Data.Finset.Basic
import Wandr.Arbiter.Vocabulary
import Wandr.Lib.Text

/-!
# Audio

The module of audio focus, of call sessions and of the ringer. The focus stack
has its current owner at the end: a request puts its process there, telling the
process before it, or all of them, what they lost; an abandon, or the death of
the owner, gives the focus back to the process underneath.

There is one call session at a time, `comms`. Starting a call overwrites it.
Calls and rings post a notification in the name of the app they could resolve
their process to.
-/

namespace Wandr

open Text

/-- The focus a guest asks for. -/
inductive FocusKind
  | gain
  | gainTransient
  | gainTransientMayDuck
  deriving DecidableEq

/-- Parse a token of the wire. -/
def FocusKind.fromWire : String → Option FocusKind
  | "gain" => some .gain
  | "gain-transient" | "transient" => some .gainTransient
  | "gain-transient-may-duck" | "duck" => some .gainTransientMayDuck
  | _ => none

/-- The token on the wire. -/
def FocusKind.asWire : FocusKind → String
  | .gain => "gain"
  | .gainTransient => "gain-transient"
  | .gainTransientMayDuck => "gain-transient-may-duck"

theorem FocusKind.fromWire_asWire : ∀ k : FocusKind, fromWire k.asWire = some k
  | .gain | .gainTransient | .gainTransientMayDuck => rfl

structure FocusEntry where
  pid : Pid
  appId : String
  kind : FocusKind
  deriving DecidableEq

/-- What an incoming call does. -/
inductive RingerMode
  | normal
  | vibrate
  | silent
  deriving DecidableEq

/-- Parse a token of the wire. -/
def RingerMode.fromWire : String → Option RingerMode
  | "normal" => some .normal
  | "vibrate" => some .vibrate
  | "silent" => some .silent
  | _ => none

/-- The token on the wire. -/
def RingerMode.asWire : RingerMode → String
  | .normal => "normal"
  | .vibrate => "vibrate"
  | .silent => "silent"

theorem RingerMode.fromWire_asWire : ∀ m : RingerMode, fromWire m.asWire = some m
  | .normal | .vibrate | .silent => rfl

/-- The notification of an ongoing call. -/
def callNotifId : Nat := 0xCA11

/-- The notification of an incoming call. -/
def ringNotifId : Nat := 0xCA12

structure AudioModule where
  stack : List FocusEntry := []
  comms : Option Pid := none
  commsSpeaker : Bool := false
  muted : Bool := false
  appMuted : Finset Pid := ∅
  micMuted : Bool := false
  micMutedApps : Finset Pid := ∅
  ringing : Option Pid := none
  ringerMode : RingerMode := .normal

namespace AudioModule

/-- An owner on the wire: a bare integer is a process, with its app-id when it
    is tracked, and anything else the app-id of a tracked process. -/
def resolve (token : String) (s : Store) : Option (Pid × String) :=
  match parseSigned 32 token with
  | some pid => some (pid, ((s.appByPid pid).map AppState.appId).getD "?")
  | none => (s.app token).map fun a => (a.pid, a.appId)

/-! ## The focus stack -/

/-- Make a process the owner of the focus, telling those it takes it from. -/
def grant (m : AudioModule) (pid : Pid) (appId : String) (kind : FocusKind) (c : Ctx) :
    AudioModule × Ctx :=
  -- a request of the owner itself drops its stale entry first
  let rest := m.stack.filter fun e => e.pid ≠ pid
  let prev := rest.getLast?
  match kind with
  | .gain =>
    ({ m with stack := [⟨pid, appId, kind⟩] },
      c.deliverToAll (rest.map FocusEntry.pid) fun _ => .onFocusChanged .loss)
  | .gainTransient =>
    ({ m with stack := rest ++ [⟨pid, appId, kind⟩] },
      match prev with
      | some p => c.deliverToHost p.pid (.onFocusChanged .lossTransient)
      | none => c)
  | .gainTransientMayDuck =>
    ({ m with stack := rest ++ [⟨pid, appId, kind⟩] },
      match prev with
      | some p => c.deliverToHost p.pid (.onFocusChanged .duck)
      | none => c)

/-- Remove a process from the stack; when it was the owner, the one underneath
    regains the focus. -/
def dropPid (m : AudioModule) (pid : Pid) (c : Ctx) : AudioModule × Ctx :=
  let wasOwner := (m.stack.getLast?.map FocusEntry.pid) = some pid
  if m.stack.any fun e => e.pid = pid then
    let rest := m.stack.filter fun e => e.pid ≠ pid
    ({ m with stack := rest },
      match if wasOwner then rest.getLast? else none with
      | some top => c.deliverToHost top.pid (.onFocusChanged .gain)
      | none => c)
  else (m, c)

def cmdRequest (m : AudioModule) (args : String) (c : Ctx) : AudioModule × Ctx × Reply :=
  match splitWhitespace args with
  | [owner, kindTok] =>
    match FocusKind.fromWire kindTok with
    | none => (m, c, .err s!"audio-focus-bad-kind {quote kindTok}")
    | some kind =>
      match resolve owner c.store with
      | none => (m, c, .err s!"audio-focus-unknown-owner {owner}")
      | some (pid, appId) =>
        let (m, c) := m.grant pid appId kind c
        (m, c, .ok s!"granted pid={pid} app={appId} kind={kind.asWire}")
  | _ => (m, c, .err "audio-focus-request-args: expected <pid|app-id> <kind>")

def cmdAbandon (m : AudioModule) (args : String) (c : Ctx) : AudioModule × Ctx × Reply :=
  let token := trim args
  if token = "" then (m, c, .err "audio-focus-abandon-args: expected <pid|app-id>")
  else match resolve token c.store with
    | none => (m, c, .err s!"audio-focus-unknown-owner {token}")
    | some (pid, _) =>
      let (m, c) := m.dropPid pid c
      (m, c, .ok s!"abandoned pid={pid}")

def cmdList (m : AudioModule) (c : Ctx) : AudioModule × Ctx × Reply :=
  let line (i : Nat) (e : FocusEntry) : String :=
    let marker := if i + 1 = m.stack.length then " [owner]" else ""
    s!"\n  pid={e.pid} app={e.appId} kind={e.kind.asWire}{marker}"
  (m, c, .ok (s!"count={m.stack.length}" ++ String.join (m.stack.mapIdx line)))

/-! ## Calls and rings -/

/-- Stop the sounds and the badge of a ring, if the process is ringing; its focus
    is left to the caller. -/
def stopRing (m : AudioModule) (pid : Pid) (appId : String) (c : Ctx) : AudioModule × Ctx :=
  if m.ringing ≠ some pid then (m, c)
  else
    let c := (c.deliverToHost pid (.ringtone false)).deliverToHost pid (.haptics false)
    ({ m with ringing := none }, c.modifyStore fun s => (s.cancelNotification appId ringNotifId).1)

/-- What `audio-call-start` does for a process it could resolve. -/
def callStart (m : AudioModule) (pid : Pid) (appId : String) (c : Ctx) : AudioModule × Ctx :=
  let (m, c) := m.stopRing pid appId c
  let (m, c) := m.grant pid appId .gainTransient c
  let c := c.deliverToHost pid (.setMode true)
  let c := c.modifyStore fun s => (s.postNotification appId callNotifId "Ongoing call" appId).1
  ({ m with comms := some pid }, (c.emit (.commsActive pid true)).request .persist)

def cmdCallStart (m : AudioModule) (args : String) (c : Ctx) : AudioModule × Ctx × Reply :=
  let token := trim args
  match resolve token c.store with
  | none => (m, c, .err s!"audio-call-unknown-owner {token}")
  | some (pid, appId) =>
    let (m, c) := m.callStart pid appId c
    (m, c, .ok s!"call-start pid={pid} app={appId}")

/-- What `audio-call-end` does for the process of the session. -/
def callEnd (m : AudioModule) (pid : Pid) (appId : String) (c : Ctx) : AudioModule × Ctx :=
  let c := c.deliverToHost pid (.setMode false)
  let (m, c) := { m with comms := none }.dropPid pid c
  let c := c.modifyStore fun s => (s.cancelNotification appId callNotifId).1
  (m, ((c.emit (.videoCallActive pid false)).emit (.commsActive pid false)).request .persist)

def cmdCallEnd (m : AudioModule) (args : String) (c : Ctx) : AudioModule × Ctx × Reply :=
  let token := trim args
  match resolve token c.store with
  | none => (m, c, .err s!"audio-call-unknown-owner {token}")
  | some (pid, appId) =>
    if m.comms ≠ some pid then (m, c, .err s!"audio-call-not-in-session pid={pid}")
    else
      let (m, c) := m.callEnd pid appId c
      (m, c, .ok s!"call-end pid={pid} app={appId}")

def cmdCallVideo (m : AudioModule) (args : String) (c : Ctx) : AudioModule × Ctx × Reply :=
  let toks := splitWhitespace args
  let active := decide (toks[0]? = some "1")
  let token := toks[1]?.getD ""
  match resolve token c.store with
  | none => (m, c, .err s!"audio-call-unknown-owner {token}")
  | some (pid, _) =>
    if m.comms ≠ some pid then (m, c, .err s!"audio-call-not-in-session pid={pid}")
    else (m, c.emit (.videoCallActive pid active), .ok s!"call-video pid={pid} active={active}")

/-- What `audio-ring-start` does for a process it could resolve. -/
def ringStart (m : AudioModule) (pid : Pid) (appId : String) (c : Ctx) : AudioModule × Ctx :=
  -- the proximity sensor is warmed up for the call the ring may become
  let c := c.emit (.sensorAcquire .proximity pid)
  let (m, c) := { m with ringing := some pid }.grant pid appId .gainTransient c
  let c := match m.ringerMode with
    | .normal => (c.deliverToHost pid (.ringtone true)).deliverToHost pid (.haptics true)
    | .vibrate => c.deliverToHost pid (.haptics true)
    | .silent => c
  let c := c.modifyStore fun s => (s.postNotification appId ringNotifId "Incoming call" appId).1
  (m, c.request .persist)

def cmdRingStart (m : AudioModule) (args : String) (c : Ctx) : AudioModule × Ctx × Reply :=
  let token := trim args
  match resolve token c.store with
  | none => (m, c, .err s!"audio-ring-unknown-owner {token}")
  | some (pid, appId) =>
    let (m, c) := m.ringStart pid appId c
    (m, c, .ok s!"ring-start pid={pid} app={appId} mode={m.ringerMode.asWire}")

/-- What `audio-ring-stop` does for the process that rings. -/
def ringStop (m : AudioModule) (pid : Pid) (appId : String) (c : Ctx) : AudioModule × Ctx :=
  let (m, c) := m.stopRing pid appId c
  let c := c.emit (.sensorRelease .proximity pid)
  let (m, c) := m.dropPid pid c
  (m, c.request .persist)

def cmdRingStop (m : AudioModule) (args : String) (c : Ctx) : AudioModule × Ctx × Reply :=
  let token := trim args
  match resolve token c.store with
  | none => (m, c, .err s!"audio-ring-unknown-owner {token}")
  | some (pid, appId) =>
    if m.ringing ≠ some pid then (m, c, .err s!"audio-ring-not-ringing pid={pid}")
    else
      let (m, c) := m.ringStop pid appId c
      (m, c, .ok s!"ring-stop pid={pid} app={appId}")

def cmdRingerMode (m : AudioModule) (args : String) (c : Ctx) : AudioModule × Ctx × Reply :=
  match RingerMode.fromWire (trim args) with
  | some mode => ({ m with ringerMode := mode }, c, .ok s!"ringer-mode {mode.asWire}")
  | none => (m, c, .err "audio-ringer-mode: expected normal|vibrate|silent")

/-! ## Routes, tones and volumes -/

def cmdRoute (m : AudioModule) (args : String) (c : Ctx) : AudioModule × Ctx × Reply :=
  match splitWhitespace args with
  | [owner, route] =>
    if route ≠ "speaker" ∧ route ≠ "earpiece" then
      (m, c, .err s!"audio-route-bad-target {quote route}")
    else match resolve owner c.store with
      | none => (m, c, .err s!"audio-route-unknown-owner {owner}")
      | some (pid, _) =>
        let speaker := decide (route = "speaker")
        ({ m with commsSpeaker := speaker }, c.deliverToHost pid (.setRoute speaker),
          .ok s!"route pid={pid} {route}")
  | _ => (m, c, .err "audio-route-args: expected <pid|app-id> <speaker|earpiece>")

/-- The process a token names, if the store tracks it. -/
def knownTarget (token : String) (s : Store) : Option Pid :=
  match parseSigned 32 token with
  | some pid => (s.appByPid pid).map fun _ => pid
  | none => (s.app token).map AppState.pid

/-- Play a tone in the process the first token names, or else in the visible app. -/
def cmdPlayTone (m : AudioModule) (args : String) (c : Ctx) : AudioModule × Ctx × Reply :=
  let toks := splitWhitespace args
  let target := toks.head?.bind fun tok => knownTarget tok c.store
  let visible := (c.store.display primaryDisplay).bind DisplayState.visibleApp
  match target.or visible with
  | none => (m, c, .err "play-tone-no-foreground: no visible app; pass <pid|app-id>")
  | some pid =>
    let rest := if target.isSome then toks.tail else toks
    let ms := rest[0]?.getD "1500"
    let hz := rest[1]?.getD "440"
    let vol := rest[2]?.getD "0.5"
    (m, c.deliverToHost pid (.playTone ms hz vol),
      .ok s!"play-tone pid={pid} ms={ms} hz={hz} vol={vol}")

/-- The host and the device an audio control acts on: those of the call, else the
    foreground app, else the sender. -/
def audioTarget (m : AudioModule) (s : Store) (sender : Option Pid) : Option (Pid × Bool) :=
  match m.comms with
  | some pid => some (pid, m.commsSpeaker)
  | none =>
    let fg := ((s.display primaryDisplay).bind DisplayState.foregroundSlot).map Surface.pid
    (fg.or sender).map fun pid => (pid, true)

def cmdVolume (m : AudioModule) (args : String) (c : Ctx) : AudioModule × Ctx × Reply :=
  let toks := splitWhitespace args
  let dir : Option Bool := match toks[0]? with
    | some "up" => some true
    | some "down" => some false
    | _ => none
  match dir with
  | none => (m, c, .err s!"volume-bad-dir {quoteOption toks[0]?}")
  | some up =>
    match m.audioTarget c.store (toks[1]?.bind (parseSigned 32)) with
    | none => (m, c, .err "volume-no-target")
    | some (owner, speaker) =>
      (m, c.deliverToHost owner (.volume up speaker),
        .ok s!"volume {upDown up} pid={owner} {audioDevice speaker}")

/-- A switch of the wire, against the current state for `toggle`. -/
def parseMute (current : Bool) : String → Option Bool
  | "on" => some true
  | "off" => some false
  | "toggle" => some !current
  | _ => none

def cmdMute (m : AudioModule) (args : String) (c : Ctx) : AudioModule × Ctx × Reply :=
  let toks := splitWhitespace args
  match toks[0]?.bind (parseMute m.muted) with
  | none => (m, c, .err s!"mute-bad-arg {quoteOption toks[0]?}")
  | some new =>
    match m.audioTarget c.store (toks[1]?.bind (parseSigned 32)) with
    | none => (m, c, .err "mute-no-target")
    | some (owner, speaker) =>
      ({ m with muted := new }, c.deliverToHost owner (.mute new speaker),
        .ok s!"mute {onOff new} pid={owner} {audioDevice speaker}")

/-- Whether the microphone of an app is muted, by itself or globally. -/
def micEffective (m : AudioModule) (pid : Pid) : Bool := m.micMuted || decide (pid ∈ m.micMutedApps)

def cmdMicMute (m : AudioModule) (args : String) (c : Ctx) : AudioModule × Ctx × Reply :=
  match parseMute m.micMuted (trim args) with
  | none => (m, c, .err s!"mic-mute-bad-arg {quote (trim args)}")
  | some new =>
    let m := { m with micMuted := new }
    let pids := c.store.appsSnapshot.map AppState.pid
    (m, c.deliverToAll pids fun pid => .micMute (m.micEffective pid),
      .ok s!"mic-mute {onOff new} global ({pids.length} apps)")

/-- Put a process in a set or take it out. -/
def setMember (s : Finset Pid) (pid : Pid) (member : Bool) : Finset Pid :=
  if member then insert pid s else s.erase pid

def cmdAppMicMute (m : AudioModule) (args : String) (c : Ctx) : AudioModule × Ctx × Reply :=
  match splitWhitespace args with
  | [owner, arg] =>
    match resolve owner c.store with
    | none => (m, c, .err s!"app-mic-mute-unknown {owner}")
    | some (pid, _) =>
      match parseMute (decide (pid ∈ m.micMutedApps)) arg with
      | none => (m, c, .err s!"app-mic-mute-bad-arg {quote arg}")
      | some new =>
        let m := { m with micMutedApps := setMember m.micMutedApps pid new }
        let eff := m.micEffective pid
        (m, c.deliverToHost pid (.micMute eff),
          .ok s!"app-mic-mute {onOff new} pid={pid} eff={eff}")
  | _ => (m, c, .err "app-mic-mute-args: expected <pid|app-id> <on|off|toggle>")

def cmdAppMute (m : AudioModule) (args : String) (c : Ctx) : AudioModule × Ctx × Reply :=
  match splitWhitespace args with
  | [owner, arg] =>
    match resolve owner c.store with
    | none => (m, c, .err s!"app-mute-unknown {owner}")
    | some (pid, _) =>
      match parseMute (decide (pid ∈ m.appMuted)) arg with
      | none => (m, c, .err s!"app-mute-bad-arg {quote arg}")
      | some new =>
        ({ m with appMuted := setMember m.appMuted pid new }, c.deliverToHost pid (.appMute new),
          .ok s!"app-mute {onOff new} pid={pid}")
  | _ => (m, c, .err "app-mute-args: expected <pid|app-id> <on|off|toggle>")

/-! ## The module -/

/-- Clear the badge of a session whose process died, if its app is tracked. -/
def clearBadge (pid : Pid) (notifId : Nat) (c : Ctx) : Ctx :=
  match c.store.appByPid pid with
  | some app => c.modifyStore fun s => (s.cancelNotification app.appId notifId).1
  | none => c

def onSurfaceRemoved (m : AudioModule) (pid : Pid) (c : Ctx) : AudioModule × Ctx :=
  let (m, c) :=
    if m.comms = some pid then ({ m with comms := none }, clearBadge pid callNotifId c) else (m, c)
  let (m, c) :=
    if m.ringing = some pid then ({ m with ringing := none }, clearBadge pid ringNotifId c)
    else (m, c)
  -- a recycled process number must not inherit the mutes
  let m := { m with
    appMuted := m.appMuted.erase pid
    micMutedApps := m.micMutedApps.erase pid }
  m.dropPid pid c

/-- The verbs of the module. -/
inductive Verb
  | focusRequest
  | focusAbandon
  | focusList
  | callStart
  | callEnd
  | callVideo
  | route
  | ringStart
  | ringStop
  | ringerMode
  | volume
  | mute
  | appMute
  | micMute
  | appMicMute
  | playTone
  deriving DecidableEq

/-- A verb on the wire. -/
def Verb.wire : Verb → String
  | .focusRequest => "audio-focus-request"
  | .focusAbandon => "audio-focus-abandon"
  | .focusList => "audio-focus-list"
  | .callStart => "audio-call-start"
  | .callEnd => "audio-call-end"
  | .callVideo => "audio-call-video"
  | .route => "audio-route"
  | .ringStart => "audio-ring-start"
  | .ringStop => "audio-ring-stop"
  | .ringerMode => "audio-ringer-mode"
  | .volume => "volume"
  | .mute => "mute"
  | .appMute => "app-mute"
  | .micMute => "mic-mute"
  | .appMicMute => "app-mic-mute"
  | .playTone => "play-tone"

def onCommand (m : AudioModule) (verb : Verb) (args : String) (c : Ctx) :
    AudioModule × Ctx × Reply :=
  match verb with
  | .focusRequest => m.cmdRequest args c
  | .focusAbandon => m.cmdAbandon args c
  | .focusList => m.cmdList c
  | .callStart => m.cmdCallStart args c
  | .callEnd => m.cmdCallEnd args c
  | .callVideo => m.cmdCallVideo args c
  | .route => m.cmdRoute args c
  | .playTone => m.cmdPlayTone args c
  | .ringStart => m.cmdRingStart args c
  | .ringStop => m.cmdRingStop args c
  | .ringerMode => m.cmdRingerMode args c
  | .volume => m.cmdVolume args c
  | .mute => m.cmdMute args c
  | .appMute => m.cmdAppMute args c
  | .micMute => m.cmdMicMute args c
  | .appMicMute => m.cmdAppMicMute args c

def onEvent (m : AudioModule) (e : Event) (c : Ctx) : AudioModule × Ctx :=
  match e with
  | .surfaceRemoved pid => m.onSurfaceRemoved pid c
  | _ => (m, c)

end AudioModule

end Wandr
