import Wandr.Call.Accept

/-!
# The two ends of a call

The caller and the callee of a Signal call are on two phones. The signals of each are handed over
to a service, which delivers them whenever it likes: late, in any order, more than once, or never.
What it delivers besides is of other calls. The callee hears of the call by the offer, and each
phone runs on its own in between.

* `Ends.step`, `Ends.Arrives`: what may happen to the ends, and what may be delivered to them;
* `Transport.Keyed`: what the keys of an end rest on, kept by everything an app does with a call;
* `Ends.Sound.step`: what the ends and the signals under way keep;
* `Ends.ends_agree`: the ends start media with no keys but those of the call, each with them the
  other way round; the caller goes on to connect only if the callee rings no more.
-/

namespace Wandr

/-- What an end brings to a call: the keys of identity as it knows them, its secret and
    credentials, and the server that is to relay for it. -/
structure Party (Secret : Type) where
  localAddr : SocketAddr
  ufrag : String
  pwd : String
  secret : Secret
  callerIdentity : List UInt8
  calleeIdentity : List UInt8
  turn : Option SocketAddr := none

/-- A call that is to be placed. -/
structure CallPlan (Secret : Type) where
  callId : UInt64
  caller : Party Secret
  callee : Party Secret

/-- The ends of a call, the callee once it heard of it, and the signals handed over by each. -/
structure Ends (Secret : Type) where
  caller : SignalCall Secret
  callee : Option (SignalCall Secret) := none
  fromCaller : List CallSignal := []
  fromCallee : List CallSignal := []

/-- What happens to the ends of a call. -/
inductive EndsInput
  | caller (u : SignalCall.Use)
  | ring (blob : List UInt8)
  | callee (u : SignalCall.Use)

variable {Secret : Type}

namespace Party

variable (p : Party Secret) (C : Crypto Secret)

/-- What the keys of an end rest on, with the public key of the other end. -/
def keying (remotePublic : Option (Bytes 32)) : SignalKeying Secret where
  secret := p.secret
  remotePublic
  callerIdentity := p.callerIdentity
  calleeIdentity := p.calleeIdentity

/-- What an end tells of itself. -/
def params : ConnectionParametersV4 where
  publicKey := some (C.publicKey p.secret).1
  iceUfrag := some p.ufrag
  icePwd := some p.pwd
  receiveVideoCodecs := [{ type := some 8 }]
  maxBitrateBps := some 2000000

end Party

namespace CallPlan

variable (S : CallPlan Secret) (C : Crypto Secret) (P : Prost)

/-- The caller places the call. -/
def place : Except CallError (SignalCall Secret) :=
  SignalCall.place C P S.callId S.caller.localAddr S.caller.ufrag S.caller.pwd S.caller.secret
    S.caller.callerIdentity S.caller.calleeIdentity S.caller.turn

/-- The callee hears of the call. -/
def incoming (blob : List UInt8) : Except CallError (SignalCall Secret) :=
  SignalCall.incoming P S.callId S.callee.localAddr S.callee.ufrag S.callee.pwd S.callee.secret
    S.callee.callerIdentity S.callee.calleeIdentity blob S.callee.turn

/-- The keys of the call, as the caller sends and receives with them. -/
def keys : Except CallError (SrtpKeys × SrtpKeys) :=
  (S.caller.keying (some (C.publicKey S.callee.secret))).derive C .offerer

end CallPlan

namespace SignalCall

/-- The signals that are handed over when an app uses a call. -/
def handed (c : SignalCall Secret) : Use → List CallSignal
  | .call i => c.drained i
  | _ => []

/-- A delivered signal was handed over by the other end, or is of another call. -/
def Use.Arrives (callId : UInt64) (sent : List CallSignal) : Use → Prop
  | .call (.onSignal _ sig _) => sig ∈ sent ∨ sig.callId ≠ callId
  | _ => True

end SignalCall

namespace Ends

variable (C : Crypto Secret) (P : Prost) (parseIp : String → Option (String × Bool))
  (S : CallPlan Secret)

/-- What becomes of the ends of a call. -/
def step (e : Ends Secret) : EndsInput → Ends Secret
  | .caller u =>
    { e with
      caller := e.caller.use C P parseIp u
      fromCaller := e.fromCaller ++ e.caller.handed u }
  | .ring blob =>
    match e.callee, S.incoming P blob with
    | none, .ok c => { e with callee := some c }
    | _, _ => e
  | .callee u =>
    match e.callee with
    | none => e
    | some c =>
      { e with
        callee := some (c.use C P parseIp u)
        fromCallee := e.fromCallee ++ c.handed u }

/-- What is delivered was handed over by the other end, or is of another call. -/
def Arrives (e : Ends Secret) : EndsInput → Prop
  | .caller u => u.Arrives S.callId e.fromCallee
  | .ring blob => .offer S.callId blob ∈ e.fromCaller
  | .callee u => u.Arrives S.callId e.fromCaller

end Ends

/-! ## The keys of an end -/

/-- Keys that the media of a session is started with: those that are there, at once or after the
    transport took a timeout. -/
def PeerSession.StartsWith (C : Crypto Secret) (s : PeerSession Secret)
    (k : SrtpKeys × SrtpKeys) : Prop :=
  s.transport.keys = some k ∨ ∃ now a, (s.transport.handleTimeout C now a).keys = some k

/-- An end has the keying of a Signal call, the keys it holds come of it, and it is done with them
    only if there are any. -/
structure Transport.Keyed (C : Crypto Secret) (role : CallRole) (k : SignalKeying Secret)
    (t : Transport Secret) : Prop where
  isRole : t.role = role
  keying : t.keying = .signal k
  keys : ∀ x, t.keys = some x → k.derive C role = .ok x
  done : t.done → ∃ x, k.derive C role = .ok x

namespace Transport.Keyed

variable {C : Crypto Secret} {role : CallRole} {k : SignalKeying Secret} {t : Transport Secret}

theorem maybeAdvance (h : t.Keyed C role k) : (t.maybeAdvance C).Keyed C role k := by
  unfold Transport.maybeAdvance
  split
  · exact h
  · cases t.ice.selected with
    | none => exact h
    | some pair =>
      dsimp only
      rw [h.keying]
      dsimp only
      split
      · next x hx =>
        rw [h.isRole] at hx
        refine ⟨h.isRole, rfl, fun y hy => ?_, fun _ => ⟨x, hx⟩⟩
        rwa [← Option.some.inj hy]
      · exact ⟨h.isRole, rfl, h.keys, h.done⟩

/-- A datagram does not change the keys of a Signal call. -/
theorem demuxPayload (h : t.Keyed C role k) (data : List UInt8) (a : ReadAnswer) :
    (t.demuxPayload data a).1.Keyed C role k := by
  unfold Transport.demuxPayload
  rw [h.keying]
  cases data.head? with
  | none => exact h
  | some b =>
    dsimp only
    split_ifs
    · exact ⟨h.isRole, rfl, h.keys, h.done⟩
    · exact h
    · exact h
    · exact h

theorem demuxRelayed (h : t.Keyed C role k) (media : Option (List UInt8))
    (l : List (SocketAddr × List UInt8)) (answer : Nat → ReadAnswer) :
    (t.demuxRelayed media l answer).1.Keyed C role k := by
  induction l generalizing t media answer with
  | nil => exact h
  | cons x l ih =>
    have hd := h.demuxPayload x.2 (answer 0)
    unfold Transport.demuxRelayed
    generalize t.demuxPayload x.2 (answer 0) = r at hd ⊢
    obtain ⟨t', _ | _ | m⟩ := r
    · exact hd
    · exact ih hd media _
    · exact ih hd (some m) _

theorem handleDatagram (h : t.Keyed C role k) (src : SocketAddr) (data : List UInt8)
    (turn : List TurnEvent) (answer : Nat → ReadAnswer) :
    (t.handleDatagram src data turn answer).1.Keyed C role k := by
  unfold Transport.handleDatagram
  split
  · next r _ =>
    split_ifs
    · have hr : Keyed C role k
          { t with relay := some { r.drainEvents turn with relayedIn := [] } } :=
        ⟨h.isRole, h.keying, h.keys, h.done⟩
      exact hr.demuxRelayed none _ answer
    · exact h.demuxPayload data (answer 0)
  · exact h.demuxPayload data (answer 0)

theorem ensureRelayLocalCandidate (h : t.Keyed C role k) (added : Bool) :
    (t.ensureRelayLocalCandidate added).Keyed C role k := by
  obtain ⟨b, hb⟩ := t.ensureRelayLocalCandidate_eq added
  rw [hb]
  exact ⟨h.isRole, h.keying, h.keys, h.done⟩

theorem timedOut (h : t.Keyed C role k) (now : Nat) (a : TimeoutAnswer) :
    (t.timedOut now a).Keyed C role k := by
  have hd : ({ t with ice := a.ice }.dtlsTimeout a.dtls).Keyed C role k := by
    rw [dtlsTimeout]
    dsimp only
    rw [h.keying]
    exact ⟨h.isRole, rfl, h.keys, h.done⟩
  have hr : (({ t with ice := a.ice }.dtlsTimeout a.dtls).modifyRelay
      (·.drainEvents a.turn)).Keyed C role k := ⟨hd.isRole, hd.keying, hd.keys, hd.done⟩
  have hl := hr.ensureRelayLocalCandidate a.added
  unfold Transport.timedOut selfSelect
  dsimp only
  split
  · split_ifs
    · exact ⟨hl.isRole, hl.keying, hl.keys, hl.done⟩
    · exact hl
  · exact hl

theorem pollTransmit (h : t.Keyed C role k) (a : PollAnswer) :
    (t.pollTransmit C a).1.Keyed C role k := by
  have hi : Keyed C role k { t with ice := a.ice } := ⟨h.isRole, h.keying, h.keys, h.done⟩
  have hl := hi.maybeAdvance.ensureRelayLocalCandidate a.added
  unfold Transport.pollTransmit
  dsimp only
  generalize ({ t with ice := a.ice }.maybeAdvance C).ensureRelayLocalCandidate a.added = t'
    at hl ⊢
  rw [hl.keying]
  exact ⟨hl.isRole, hl.keying, hl.keys, hl.done⟩

/-- Where the keys are taken out, or media is queued, the rest stays. -/
theorem congr (h : t.Keyed C role k) {t' : Transport Secret} (hr : t'.role = t.role)
    (hk : t'.keying = t.keying) (hd : t'.done = t.done) (hx : t'.keys = t.keys ∨ t'.keys = none) :
    t'.Keyed C role k := by
  refine ⟨hr.trans h.isRole, hk.trans h.keying, fun x ht => ?_, fun ht => h.done (hd ▸ ht)⟩
  rcases hx with hx | hx
  · exact h.keys x (hx ▸ ht)
  · cases hx.symm.trans ht

theorem addRemoteCandidate (h : t.Keyed C role k) (addr : SocketAddr) (ice : Option Agent) :
    (t.addRemoteCandidate addr ice).1.Keyed C role k := by
  unfold Transport.addRemoteCandidate
  split_ifs
  · exact h
  · cases ice <;> exact ⟨h.isRole, h.keying, h.keys, h.done⟩

theorem takeNewLocalCandidates (h : t.Keyed C role k) :
    t.takeNewLocalCandidates.1.Keyed C role k := by
  unfold Transport.takeNewLocalCandidates
  cases t.relay with
  | none => exact h
  | some r => exact ⟨h.isRole, h.keying, h.keys, h.done⟩

end Transport.Keyed

/-- The session of an end: its credentials, and the keys that come of its keying. -/
structure Party.IsOf (p : Party Secret) (C : Crypto Secret) (role : CallRole)
    (remote : Option (Bytes 32)) (s : PeerSession Secret) : Prop where
  ufrag : s.ufrag = p.ufrag
  pwd : s.pwd = p.pwd
  transport : s.transport.Keyed C role (p.keying remote)

namespace Party.IsOf

variable {p : Party Secret} {C : Crypto Secret} {P : Prost} {role : CallRole}
  {remote : Option (Bytes 32)} {s : PeerSession Secret}

theorem ensureMedia (h : p.IsOf C role remote s) (made : Except CallError Unit) (now : Nat) :
    p.IsOf C role remote (s.ensureMedia made now).1 := by
  unfold PeerSession.ensureMedia
  split
  · exact h
  · split
    · exact h
    · have ht : Transport.Keyed C role (p.keying remote) { s.transport with keys := none } :=
        h.transport.congr rfl rfl rfl (.inr rfl)
      cases made <;> exact ⟨h.ufrag, h.pwd, ht⟩

theorem onRtpData (h : p.IsOf C role remote s) (b : List UInt8) :
    p.IsOf C role remote (s.onRtpData P b) := by
  unfold PeerSession.onRtpData
  cases decodeRtpData P b with
  | none => exact h
  | some st =>
    obtain ⟨v, bps, hangup, n⟩ := st
    cases v <;> cases bps <;> cases hangup <;> exact ⟨h.ufrag, h.pwd, h.transport⟩

theorem handleMedia (h : p.IsOf C role remote s) (m : MediaSession) (a : MediaAnswer) :
    p.IsOf C role remote (s.handleMedia P m a) := by
  have hfold (l : List (List UInt8)) {s : PeerSession Secret} (h : p.IsOf C role remote s) :
      p.IsOf C role remote (l.foldl (PeerSession.onRtpData P) s) := by
    induction l generalizing s with
    | nil => exact h
    | cons b l ih => exact ih (h.onRtpData b)
  unfold PeerSession.handleMedia
  refine hfold _ ?_
  dsimp only
  split <;> exact ⟨h.ufrag, h.pwd, h.transport⟩

theorem handleDatagram (h : p.IsOf C role remote s) (src : SocketAddr) (data : List UInt8)
    (turn : List TurnEvent) (answer : Nat → ReadAnswer) (a : MediaAnswer) :
    p.IsOf C role remote (s.handleDatagram P src data turn answer a).1 := by
  have ht := h.transport.handleDatagram src data turn answer
  unfold PeerSession.handleDatagram
  generalize s.transport.handleDatagram src data turn answer = r at ht ⊢
  obtain ⟨transport, _ | _ | srtp⟩ := r
  · exact ⟨h.ufrag, h.pwd, ht⟩
  · exact ⟨h.ufrag, h.pwd, ht⟩
  · have hs : p.IsOf C role remote { s with transport, mediaSeen := s.mediaSeen + 1 } :=
      ⟨h.ufrag, h.pwd, ht⟩
    have hm := hs.ensureMedia a.made a.now
    dsimp only
    generalize PeerSession.ensureMedia _ a.made a.now = r at hm ⊢
    obtain ⟨s', _ | _⟩ := r
    · exact hm
    · dsimp only
      split_ifs
      · exact hm
      · cases s'.media with
        | none => exact hm
        | some m => exact IsOf.handleMedia hm m a

theorem queueMedia (h : p.IsOf C role remote s) (dg : List UInt8) :
    p.IsOf C role remote (s.queueMedia dg) :=
  ⟨h.ufrag, h.pwd, h.transport.congr rfl rfl rfl (.inl rfl)⟩

theorem sendRtpDataState (h : p.IsOf C role remote s) (a : SessionTimeout) :
    p.IsOf C role remote (s.sendRtpDataState P a).1 := by
  unfold PeerSession.sendRtpDataState
  cases s.rtpCallId with
  | none => exact h
  | some callId =>
    have hm := h.ensureMedia a.made a.sentAt
    dsimp only
    generalize s.ensureMedia a.made a.sentAt = r at hm ⊢
    obtain ⟨s', _ | _⟩ := r
    · exact hm
    · dsimp only at hm ⊢
      cases s'.media with
      | none => exact ⟨hm.ufrag, hm.pwd, hm.transport⟩
      | some m =>
        dsimp only
        cases a.protect _ with
        | error => exact ⟨hm.ufrag, hm.pwd, hm.transport⟩
        | ok dg => exact ⟨hm.ufrag, hm.pwd, hm.transport.congr rfl rfl rfl (.inl rfl)⟩

theorem handleTimeout (h : p.IsOf C role remote s) (now : Nat) (a : SessionTimeout) :
    p.IsOf C role remote (s.handleTimeout C P now a) := by
  have hfold (l : List (List UInt8)) {s : PeerSession Secret} (h : p.IsOf C role remote s) :
      p.IsOf C role remote (l.foldl PeerSession.queueMedia s) := by
    induction l generalizing s with
    | nil => exact h
    | cons b l ih => exact ih (h.queueMedia b)
  have ht : p.IsOf C role remote
      { s with transport := s.transport.handleTimeout C now a.toTimeoutAnswer } :=
    ⟨h.ufrag, h.pwd, (h.transport.timedOut now a.toTimeoutAnswer).maybeAdvance⟩
  have hm := ht.ensureMedia a.made now
  have hp {s : PeerSession Secret} (h : p.IsOf C role remote s) :
      p.IsOf C role remote (s.pumpRtcp a.reports) := by
    unfold PeerSession.pumpRtcp
    split_ifs
    · exact hfold a.reports h
    · exact h
  unfold PeerSession.handleTimeout PeerSession.resendRtpDataState
  dsimp only
  split_ifs
  · exact (hp hm).sendRtpDataState a
  · exact hp hm

theorem addRemoteCandidate (h : p.IsOf C role remote s)
    (parseIp : String → Option (String × Bool)) (line : String) (ice : Option Agent) :
    p.IsOf C role remote (s.addRemoteCandidate parseIp line ice).1 := by
  unfold PeerSession.addRemoteCandidate
  cases parseCandidateAddr parseIp line with
  | none => exact h
  | some addr => exact ⟨h.ufrag, h.pwd, h.transport.addRemoteCandidate addr ice⟩

/-- The signaling of the other end tells the public key that the keying rests on from then on. -/
theorem setRemoteSignaling {pub : Bytes 32} (h : p.IsOf C role remote s)
    (hr : remote = none ∨ remote = some pub) {parseIp : String → Option (String × Bool)} {now : Nat}
    {told : Signaling} (ht : told.publicKey = some pub.1) {ice : Option Agent} :
    p.IsOf C role (some pub) (s.setRemoteSignaling parseIp now told ice).1 := by
  have hnew : Transport.Keyed C role (p.keying (some pub))
      { s.transport with keying := .signal (p.keying (some pub)) } := by
    rcases hr with rfl | rfl
    · refine ⟨h.transport.isRole, rfl, fun x hx => ?_, fun hd => ?_⟩
      · cases h.transport.keys x hx
      · obtain ⟨x, hx⟩ := h.transport.done hd
        cases hx
    · exact ⟨h.transport.isRole, rfl, h.transport.keys, h.transport.done⟩
  have hp : (p.keying remote).setRemotePublic (some pub.1) = .ok (p.keying (some pub)) :=
    dif_pos pub.2
  have hk : s.transport.setRemoteKeying told.fingerprint told.publicKey =
      .ok { s.transport with keying := .signal (p.keying (some pub)) } := by
    rw [Transport.setRemoteKeying, h.transport.keying, ht]
    dsimp only
    rw [hp]
    rfl
  unfold PeerSession.setRemoteSignaling Transport.setRemote
  rw [hk]
  cases ice <;> exact ⟨h.ufrag, h.pwd, hnew.isRole, hnew.keying, hnew.keys, hnew.done⟩

/-- What an end tells of itself. -/
theorem paramsFrom (h : p.IsOf C role remote s) :
    Wandr.paramsFrom (s.localSignaling C) = .ok (p.params C) := by
  rw [Wandr.paramsFrom, PeerSession.localSignaling, Transport.signalPublicKey, h.transport.keying]
  dsimp only [Option.map_some]
  rw [h.ufrag, h.pwd]
  rfl

end Party.IsOf

theorem Party.isOf_newSignal (p : Party Secret) (C : Crypto Secret) (role : CallRole) :
    p.IsOf C role none (.newSignal role p.localAddr p.ufrag p.pwd p.secret p.callerIdentity
      p.calleeIdentity p.turn) :=
  ⟨rfl, rfl, rfl, rfl, nofun, nofun⟩

/-! ## The calls of both ends -/

/-- A call is of an end that knows no public key but that of the other one. -/
structure Party.Holds (p : Party Secret) (C : Crypto Secret) (role : CallRole) (pub : Bytes 32)
    (callId : UInt64) (c : SignalCall Secret) : Prop where
  id : c.callId = callId
  session : ∃ remote, (remote = none ∨ remote = some pub) ∧ p.IsOf C role remote c.session

/-- What an end may send when its call becomes another one: an answer only as it is accepted. -/
inductive Party.Sends (p : Party Secret) (C : Crypto Secret) (P : Prost)
    (c c' : SignalCall Secret) : CallSignal → Prop
  | ice (id : UInt64) (blob : List UInt8) : Sends p C P c c' (.ice id blob)
  | hangup (id : UInt64) (kind : HangupKind) : Sends p C P c c' (.hangup id kind)
  | answer : c.state = .ringing → c'.state = .connecting →
      Sends p C P c c' (.answer c.callId (P.answer.encode { v4 := some (p.params C) }))

/-- What a call becomes of a use: it is of the same end, and what is sent is what the end may. -/
structure Party.Uses (p : Party Secret) (C : Crypto Secret) (P : Prost) (role : CallRole)
    (pub : Bytes 32) (c c' : SignalCall Secret) (handed : List CallSignal) : Prop where
  holds : p.Holds C role pub c.callId c'
  sent : ∃ new, handed ++ c'.out = c.out ++ new ∧ ∀ sig ∈ new, p.Sends C P c c' sig

namespace Party.Holds

variable {p : Party Secret} {C : Crypto Secret} {P : Prost} {role : CallRole} {pub : Bytes 32}
  {callId : UInt64} {c c' : SignalCall Secret} {parseIp : String → Option (String × Bool)}

/-- A use of the session alone, by which nothing is sent. -/
theorem quiet (h : p.Holds C role pub callId c)
    (hs : ∀ {remote}, p.IsOf C role remote c.session → p.IsOf C role remote c'.session)
    (hid : c'.callId = c.callId) (hout : c'.out = c.out) :
    p.Uses C P role pub c c' [] := by
  obtain ⟨remote, hr, hi⟩ := h.session
  exact ⟨⟨hid, remote, hr, hs hi⟩, [], by rw [hout, List.nil_append, List.append_nil], nofun⟩

theorem accept (h : p.Holds C role pub callId c)
    (ho : ∀ o, c.pendingOffer = some o → o.publicKey = some pub.1) (now : Nat)
    (ice : Option Agent) :
    p.Uses C P role pub c (c.accept C P parseIp now ice).1 [] := by
  obtain ⟨remote, hr, hi⟩ := h.session
  have hsame : p.Uses C P role pub c c [] := h.quiet (fun hi => hi) rfl rfl
  unfold SignalCall.accept
  split_ifs with hring
  · exact hsame
  · cases hp : c.pendingOffer with
    | none => exact hsame
    | some offer =>
      have hs : p.IsOf C role (some pub) (c.session.setRemoteSignaling parseIp now offer ice).1 :=
        hi.setRemoteSignaling hr (ho offer hp)
      dsimp only
      generalize c.session.setRemoteSignaling parseIp now offer ice = r at hs ⊢
      obtain ⟨session, _ | _⟩ := r
      · exact ⟨⟨rfl, some pub, .inr rfl, hs⟩, [], (List.append_nil _).symm, nofun⟩
      · dsimp only at hs ⊢
        have ha : encodeAnswer P (session.localSignaling C) =
            .ok (P.answer.encode { v4 := some (p.params C) }) := by
          rw [encodeAnswer, hs.paramsFrom]
          rfl
        rw [ha]
        refine ⟨⟨rfl, some pub, .inr rfl, hs⟩, _, List.append_assoc .., fun sig hsig => ?_⟩
        -- the answer comes first, and the candidates follow
        rcases List.mem_cons.1 hsig with rfl | hsig
        · exact .answer (not_not.1 hring) rfl
        · obtain ⟨line, -, rfl⟩ := List.mem_map.1 hsig
          exact .ice _ _

theorem onSignal (h : p.Holds C role pub callId c) (now : Nat) (sig : CallSignal)
    (ice : Option Agent) (ha : ∀ blob a, sig = .answer callId blob → decodeAnswer P blob = .ok a →
      a.publicKey = some pub.1) :
    p.Uses C P role pub c (c.onSignal P parseIp now sig ice).1 [] := by
  obtain ⟨remote, hr, hi⟩ := h.session
  have hsame : p.Uses C P role pub c c [] := h.quiet (fun hi => hi) rfl rfl
  unfold SignalCall.onSignal
  by_cases hid : sig.callId ≠ c.callId
  · rw [if_pos hid]
    exact hsame
  · rw [if_neg hid]
    cases sig with
    | answer id blob =>
      have hid : id = callId := (not_not.1 hid).trans h.id
      dsimp only
      split_ifs
      · cases hd : decodeAnswer P blob with
        | error => exact hsame
        | ok answer =>
          have hs : p.IsOf C role (some pub)
              (c.session.setRemoteSignaling parseIp now answer ice).1 :=
            hi.setRemoteSignaling hr (ha blob answer (by rw [hid]) hd)
          dsimp only
          generalize c.session.setRemoteSignaling parseIp now answer ice = r at hs ⊢
          obtain ⟨session, _ | _⟩ := r <;>
            exact ⟨⟨rfl, some pub, .inr rfl, hs⟩, [], (List.append_nil _).symm, nofun⟩
      · exact hsame
    | ice id blob =>
      dsimp only
      cases decodeIceCandidate P blob with
      | error => exact hsame
      | ok line =>
        cases line with
        | none => exact hsame
        | some line => exact h.quiet (fun hi => hi.addRemoteCandidate parseIp line ice) rfl rfl
    | hangup => exact h.quiet (fun hi => hi) rfl rfl
    | busy => exact h.quiet (fun hi => hi) rfl rfl
    | offer => exact hsame

theorem handleTimeout (h : p.Holds C role pub callId c) (now : Nat) (a : SessionTimeout) :
    p.Uses C P role pub c (c.handleTimeout C P now a) [] := by
  obtain ⟨remote, hr, hi⟩ := h.session
  have ht := hi.handleTimeout (P := P) now a
  have hsent : ∃ session new, p.IsOf C role remote session ∧
      (SignalCall.trickle P { c with session := c.session.handleTimeout C P now a }) =
        { c with session, out := c.out ++ new } ∧
      ∀ sig ∈ new, ∀ c', p.Sends C P c c' sig := by
    unfold SignalCall.trickle
    split_ifs
    · exact ⟨_, [], ht, by rw [List.append_nil], nofun⟩
    · have hs : p.IsOf C role remote
          (c.session.handleTimeout C P now a).takeNewLocalCandidates.1 :=
        ⟨ht.ufrag, ht.pwd, ht.transport.takeNewLocalCandidates⟩
      refine ⟨_, _, hs, rfl, fun sig hsig c' => ?_⟩
      obtain ⟨line, -, rfl⟩ := List.mem_map.1 hsig
      exact .ice _ _
  obtain ⟨session, new, hs, he, hnew⟩ := hsent
  unfold SignalCall.handleTimeout
  rw [he]
  refine ⟨⟨?_, remote, hr, ?_⟩, new, ?_, fun sig hsig => hnew sig hsig _⟩ <;>
    unfold SignalCall.connect SignalCall.heedHangup <;> dsimp only <;> split_ifs
  any_goals rfl
  all_goals exact ⟨hs.ufrag, hs.pwd, hs.transport⟩

/-- What a call becomes of a use, if the signaling in it is of the other end. -/
theorem use (h : p.Holds C role pub callId c)
    (ho : ∀ o, c.pendingOffer = some o → o.publicKey = some pub.1) (u : SignalCall.Use)
    (ha : ∀ now blob ice a, u = .call (.onSignal now (.answer callId blob) ice) →
      decodeAnswer P blob = .ok a → a.publicKey = some pub.1) :
    p.Uses C P role pub c (c.use C P parseIp u) (c.handed u) := by
  cases u with
  | call i =>
    cases i with
    | accept now ice => exact h.accept ho now ice
    | onSignal now sig ice =>
      exact h.onSignal now sig ice fun blob a hs => ha now blob ice a (hs ▸ rfl)
    | hangup =>
      obtain ⟨remote, hr, hi⟩ := h.session
      unfold SignalCall.use SignalCall.next SignalCall.hangup
      dsimp only
      split_ifs
      · refine ⟨⟨rfl, remote, hr, hi⟩, _, rfl, fun sig hsig => ?_⟩
        rw [List.mem_singleton.1 hsig]
        exact .hangup _ _
      · exact h.quiet (fun hi => hi) rfl rfl
    | timeout now a => exact h.handleTimeout now a
    | pollSignals =>
      obtain ⟨remote, hr, hi⟩ := h.session
      exact ⟨⟨rfl, remote, hr, hi⟩, [], rfl, nofun⟩
    | pollTransmit a =>
      unfold SignalCall.use SignalCall.next SignalCall.pollTransmit
      dsimp only
      split_ifs
      · exact h.quiet (fun hi => hi) rfl rfl
      · exact h.quiet (fun hi => ⟨hi.ufrag, hi.pwd, hi.transport.pollTransmit a⟩) rfl rfl
    | datagram src data turn answer a =>
      exact h.quiet (fun hi => hi.handleDatagram src data turn answer a) rfl rfl
  | sendAccepted a =>
    refine h.quiet (fun hi => ?_) rfl rfl
    exact Party.IsOf.sendRtpDataState (s := { c.session with
      rtpCallId := some c.callId, acceptedEngaged := true }) ⟨hi.ufrag, hi.pwd, hi.transport⟩ a
  | setVideoEnabled enabled a =>
    refine h.quiet (fun hi => ?_) rfl rfl
    exact Party.IsOf.sendRtpDataState (s := { c.session with
      rtpCallId := some c.callId, videoEnabledLocal := some enabled })
      ⟨hi.ufrag, hi.pwd, hi.transport⟩ a
  | setReceiveBitrate => exact h.quiet (fun hi => ⟨hi.ufrag, hi.pwd, hi.transport⟩) rfl rfl
  | takePeerVideoToggle => exact h.quiet (fun hi => ⟨hi.ufrag, hi.pwd, hi.transport⟩) rfl rfl

end Party.Holds

namespace SignalCall

variable {C : Crypto Secret} {P : Prost} {parseIp : String → Option (String × Bool)}
  {c : SignalCall Secret}

/-- The call connects, or did. -/
def Engaged (c : SignalCall Secret) : Prop := c.state = .connecting ∨ c.state = .connected

/-- A call that connects did so before, or it rang and was accepted, or an answer came. -/
theorem engaged_of_use {u : Use} (h : (c.use C P parseIp u).Engaged) :
    c.Engaged ∨ c.state = .ringing ∨
      ∃ now blob ice, u = .call (.onSignal now (.answer c.callId blob) ice) := by
  have hended {c : SignalCall Secret} (hs : c.state = .ended) (h : c.Engaged) : False := by
    rcases h with h | h <;> cases hs.symm.trans h
  cases u with
  | call i =>
    cases i with
    | accept now ice =>
      by_cases hr : c.state = .ringing
      · exact .inr (.inl hr)
      · have ha : c.accept C P parseIp now ice = (c, .ok ()) := accept_of_state hr
        exact .inl (by simpa only [use, next, ha] using h)
    | onSignal now sig ice =>
      unfold use next onSignal at h
      dsimp only at h
      by_cases hid : sig.callId ≠ c.callId
      · rw [if_pos hid] at h
        exact .inl h
      · rw [if_neg hid] at h
        have hid : sig.callId = c.callId := not_not.1 hid
        cases sig with
        | answer id blob => exact .inr (.inr ⟨now, blob, ice, by rw [← hid]; rfl⟩)
        | ice id blob =>
          dsimp only at h
          split at h <;> exact .inl h
        | hangup => exact (hended rfl h).elim
        | busy => exact (hended rfl h).elim
        | offer => exact .inl h
    | hangup =>
      unfold use next hangup at h
      dsimp only at h
      split_ifs at h
      · exact (hended rfl h).elim
      · exact .inl h
    | timeout now a =>
      have ht (c : SignalCall Secret) : (c.trickle P).state = c.state := by
        unfold trickle
        split <;> rfl
      have hc {c : SignalCall Secret} (h : c.connect.Engaged) : c.Engaged := by
        unfold connect at h
        split_ifs at h with hc
        · exact .inl hc.1
        · exact h
      have hh {c : SignalCall Secret} (h : c.heedHangup.Engaged) : c.Engaged := by
        unfold heedHangup at h
        dsimp only at h
        split_ifs at h
        · exact (hended rfl h).elim
        · exact h
      have he := hc (hh h)
      rw [Engaged, ht] at he
      exact .inl he
    | pollSignals => exact .inl h
    | pollTransmit a =>
      unfold use next pollTransmit at h
      dsimp only at h
      split_ifs at h <;> exact .inl h
    | datagram => exact .inl h
  | _ => exact .inl h

theorem ringing_of_use {u : Use} (h : (c.use C P parseIp u).state = .ringing) :
    c.state = .ringing := by
  cases u with
  | call i => exact state_of_next h
  | _ => exact h

/-- No use brings an offer to a call. -/
theorem pendingOffer_of_use {u : Use} {o : Signaling}
    (h : (c.use C P parseIp u).pendingOffer = some o) : c.pendingOffer = some o := by
  cases u with
  | call i =>
    by_cases hi : ∃ now ice, i = .accept now ice
    · obtain ⟨now, ice, rfl⟩ := hi
      by_cases hr : c.state = .ringing
      · cases hp : c.pendingOffer with
        | none =>
          have ha : c.accept C P parseIp now ice = (c, .ok ()) := accept_of_pendingOffer hp
          exact hp.symm.trans (by simpa only [use, next, ha] using h)
        | some offer =>
          unfold use next accept at h
          dsimp only at h
          rw [if_neg (not_not.2 hr), hp] at h
          dsimp only at h
          repeat' (first | cases h | split at h)
      · have ha : c.accept C P parseIp now ice = (c, .ok ()) := accept_of_state hr
        exact (by simpa only [use, next, ha] using h)
    · exact (pendingOffer_next fun now ice he => hi ⟨now, ice, he⟩).symm.trans h
  | _ => exact h

end SignalCall

namespace CallPlan

variable (S : CallPlan Secret) (C : Crypto Secret)

/-- The offer of the call. -/
def offer : Offer := { v4 := some (S.caller.params C) }

/-- The answer to it. -/
def answer : Answer := { v4 := some (S.callee.params C) }

end CallPlan

namespace Ends

variable {C : Crypto Secret} {P : Prost} {parseIp : String → Option (String × Bool)}
  {S : CallPlan Secret} {e : Ends Secret}

/-- The signals of the callee, handed over or not. -/
def ofCallee (e : Ends Secret) : List CallSignal :=
  e.fromCallee ++ (e.callee.map (·.out)).getD []

/-- What the ends of a call keep: each is of its party and knows no public key but that of the
    other one; an offer or an answer under way is that of the call; no answer is there before the
    callee accepted, and the caller does not connect before an answer is. -/
structure Sound (C : Crypto Secret) (P : Prost) (S : CallPlan Secret) (e : Ends Secret) :
    Prop where
  caller : S.caller.Holds C .offerer (C.publicKey S.callee.secret) S.callId e.caller
  callerState : e.caller.state ≠ .ringing
  noOffer : e.caller.pendingOffer = none
  offers : ∀ id b, .offer id b ∈ e.fromCaller ++ e.caller.out → b = P.offer.encode (S.offer C)
  noAnswer : ∀ id b, .answer id b ∉ e.fromCaller ++ e.caller.out
  callee : ∀ c, e.callee = some c →
    S.callee.Holds C .answerer (C.publicKey S.caller.secret) S.callId c
  offered : ∀ c o, e.callee = some c → c.pendingOffer = some o →
    o.publicKey = some (C.publicKey S.caller.secret).1
  answers : ∀ id b, .answer id b ∈ e.ofCallee →
    b = P.answer.encode (S.answer C) ∧ ∃ c, e.callee = some c ∧ c.state ≠ .ringing
  engaged : e.caller.Engaged → ∃ b, .answer S.callId b ∈ e.fromCallee

variable (hoffer : P.offer.decode (P.offer.encode (S.offer C)) = some (S.offer C))
  (hanswer : P.answer.decode (P.answer.encode (S.answer C)) = some (S.answer C))

theorem Sound.of_place {c : SignalCall Secret} (h : S.place C P = .ok c) :
    Sound C P S { caller := c } := by
  have hi := S.caller.isOf_newSignal C .offerer
  have he : encodeOffer P (PeerSession.localSignaling C (.newSignal .offerer S.caller.localAddr
      S.caller.ufrag S.caller.pwd S.caller.secret S.caller.callerIdentity S.caller.calleeIdentity
      S.caller.turn)) = .ok (P.offer.encode (S.offer C)) := by
    rw [encodeOffer, hi.paramsFrom]
    rfl
  unfold CallPlan.place SignalCall.place at h
  dsimp only at h
  rw [he] at h
  cases h
  refine ⟨⟨rfl, none, .inl rfl, hi⟩, nofun, rfl, fun id b hb => ?_, fun id b hb => ?_,
    fun c hc => ?_, fun c o hc => ?_, fun id b hb => ?_, fun h => ?_⟩
  · rcases List.mem_cons.1 hb with hb | hb
    · cases hb
      rfl
    · obtain ⟨line, -, hl⟩ := List.mem_map.1 hb
      cases hl
  · rcases List.mem_cons.1 hb with hb | hb
    · cases hb
    · obtain ⟨line, -, hl⟩ := List.mem_map.1 hb
      cases hl
  · cases hc
  · cases hc
  · cases hb
  · rcases h with h | h <;> cases h

include hanswer in
theorem Sound.step_caller (h : Sound C P S e) {u : SignalCall.Use}
    (hu : u.Arrives S.callId e.fromCallee) :
    Sound C P S (e.step C P parseIp S (.caller u)) := by
  have huse : S.caller.Uses C P .offerer (C.publicKey S.callee.secret) e.caller
      (e.caller.use C P parseIp u) (e.caller.handed u) :=
    h.caller.use (fun o ho => by cases h.noOffer.symm.trans ho) u fun now blob ice a hu' ha => by
      subst hu'
      have hm := hu.resolve_right fun hne => hne rfl
      rw [(h.answers _ _ (List.mem_append_left _ hm)).1, decodeAnswer, hanswer] at ha
      cases ha
      rfl
  obtain ⟨new, hnew, hsends⟩ := huse.sent
  have hout : e.fromCaller ++ e.caller.handed u ++ (e.caller.use C P parseIp u).out =
      (e.fromCaller ++ e.caller.out) ++ new := by
    rw [List.append_assoc, hnew, List.append_assoc]
  have hholds := huse.holds
  rw [h.caller.id] at hholds
  refine ⟨hholds, fun hr => h.callerState (SignalCall.ringing_of_use hr), ?_, fun id b hb => ?_,
    fun id b hb => ?_, h.callee, h.offered, h.answers, fun hg => ?_⟩
  · refine Option.eq_none_iff_forall_not_mem.2 fun o ho => ?_
    cases h.noOffer.symm.trans (SignalCall.pendingOffer_of_use ho)
  · rcases List.mem_append.1 (hout ▸ hb) with hb | hb
    · exact h.offers id b hb
    · cases hsends _ hb
  · rcases List.mem_append.1 (hout ▸ hb) with hb | hb
    · exact h.noAnswer id b hb
    · cases hsends _ hb with
      | answer hr => exact h.callerState hr
  · rcases SignalCall.engaged_of_use hg with hg | hg | ⟨now, blob, ice, rfl⟩
    · exact h.engaged hg
    · exact absurd hg h.callerState
    · rw [h.caller.id] at hu
      exact ⟨blob, hu.resolve_right fun hne => hne rfl⟩

include hoffer in
theorem Sound.step_ring (h : Sound C P S e) {blob : List UInt8}
    (hb : .offer S.callId blob ∈ e.fromCaller) :
    Sound C P S (e.step C P parseIp S (.ring blob)) := by
  have hd : decodeOffer P blob = .ok (paramsInto (S.caller.params C)) := by
    rw [h.offers _ _ (List.mem_append_left _ hb), decodeOffer, hoffer]
    rfl
  unfold step CallPlan.incoming SignalCall.incoming
  dsimp only
  rw [hd]
  cases hc : e.callee with
  | some c => exact h
  | none =>
    refine ⟨h.caller, h.callerState, h.noOffer, h.offers, h.noAnswer, fun c he => ?_,
      fun c o he ho => ?_, fun id b hm => ?_, h.engaged⟩
    · cases he
      exact ⟨rfl, none, .inl rfl, S.callee.isOf_newSignal C .answerer⟩
    · cases he
      cases ho
      rfl
    · have hm : .answer id b ∈ e.ofCallee := by
        rw [ofCallee, hc]
        exact hm
      obtain ⟨-, c, he, -⟩ := h.answers id b hm
      cases hc.symm.trans he

theorem Sound.step_callee (h : Sound C P S e) {u : SignalCall.Use}
    (hu : u.Arrives S.callId e.fromCaller) :
    Sound C P S (e.step C P parseIp S (.callee u)) := by
  unfold step
  cases hc : e.callee with
  | none => exact h
  | some c =>
    have hcallee := h.callee c hc
    have huse : S.callee.Uses C P .answerer (C.publicKey S.caller.secret) c
        (c.use C P parseIp u) (c.handed u) :=
      hcallee.use (fun o => h.offered c o hc) u fun now blob ice a hu' ha => by
        subst hu'
        have hm := hu.resolve_right fun hne => hne rfl
        exact absurd (List.mem_append_left _ hm) (h.noAnswer _ _)
    obtain ⟨new, hnew, hsends⟩ := huse.sent
    have hholds := huse.holds
    rw [hcallee.id] at hholds
    have hof : e.ofCallee = e.fromCallee ++ c.out := by
      rw [ofCallee, hc]
      rfl
    refine ⟨h.caller, h.callerState, h.noOffer, h.offers, h.noAnswer, fun c' he => ?_,
      fun c' o he ho => ?_, fun id b hm => ?_, fun hg => ?_⟩
    · cases he
      exact hholds
    · cases he
      exact h.offered c o hc (SignalCall.pendingOffer_of_use ho)
    · have hm : .answer id b ∈ e.fromCallee ++ c.handed u ++ (c.use C P parseIp u).out := hm
      rw [List.append_assoc, hnew, ← List.append_assoc, ← hof] at hm
      rcases List.mem_append.1 hm with hm | hm
      · obtain ⟨hb, c', he, hr⟩ := h.answers id b hm
        cases hc.symm.trans he
        exact ⟨hb, _, rfl, fun hr' => hr (SignalCall.ringing_of_use hr')⟩
      · cases hsends _ hm with
        | answer _ hs => exact ⟨rfl, _, rfl, fun hr => by cases hs.symm.trans hr⟩
    · obtain ⟨b, hb⟩ := h.engaged hg
      exact ⟨b, List.mem_append_left _ hb⟩

include hoffer hanswer in
/-- What the ends keep, they keep whatever happens, and whatever is delivered of what was handed
    over. -/
theorem Sound.step (h : Sound C P S e) (i : EndsInput) (hi : e.Arrives S i) :
    Sound C P S (e.step C P parseIp S i) := by
  cases i with
  | caller u => exact h.step_caller hanswer hi
  | ring blob => exact h.step_ring hoffer hi
  | callee u => exact h.step_callee hi

/-- The keys of an end that knows the right public key, or none yet, come of that key. -/
theorem keys_of_holds {p : Party Secret} {role : CallRole} {pub : Bytes 32} {id : UInt64}
    {c : SignalCall Secret} (h : p.Holds C role pub id c) :
    (∀ k, c.session.StartsWith C k → (p.keying (some pub)).derive C role = .ok k) ∧
      (c.session.isConnected → ∃ k, (p.keying (some pub)).derive C role = .ok k) := by
  obtain ⟨remote, hr, hi⟩ := h.session
  have hnone {k : SrtpKeys × SrtpKeys} (h : (p.keying none).derive C role = .ok k) : False := by
    cases h
  refine ⟨fun k hk => ?_, fun hd => ?_⟩
  · have hk : (p.keying remote).derive C role = .ok k := by
      rcases hk with hk | ⟨now, a, hk⟩
      · exact hi.transport.keys k hk
      · exact (hi.transport.timedOut now a).maybeAdvance.keys k hk
    rcases hr with rfl | rfl
    · exact (hnone hk).elim
    · exact hk
  · obtain ⟨k, hk⟩ := hi.transport.done ((Bool.and_eq_true _ _).mp hd).2
    rcases hr with rfl | rfl
    · exact (hnone hk).elim
    · exact ⟨k, hk⟩

/-- The callee derives the keys of the call the other way round. -/
theorem keys_callee
    (hdh : ∀ a b, C.diffieHellman a (C.publicKey b) = C.diffieHellman b (C.publicKey a))
    {A B : List UInt8} (hA : A.length = 32) (hB : B.length = 32)
    (hAa : Identifies A S.caller.callerIdentity) (hBa : Identifies B S.caller.calleeIdentity)
    (hAb : Identifies A S.callee.callerIdentity) (hBb : Identifies B S.callee.calleeIdentity) :
    (S.callee.keying (some (C.publicKey S.caller.secret))).derive C .answerer =
      (S.keys C).map Prod.swap := by
  refine SignalKeying.derive_mirrored hdh rfl rfl ?_
  simp only [SignalKeying.info, Party.keying, hAa.rawIdentityKey hA, hBa.rawIdentityKey hB,
    hAb.rawIdentityKey hA, hBb.rawIdentityKey hB]

include hoffer hanswer in
/-- Whatever the service does with the signals, and whatever else goes on at the ends, the caller
    goes on to connect only if the callee heard of the call and rings no more; an end starts media
    with no keys but those of the call, and the other one with the same, the other way round; and
    no end is connected if the call has none. -/
theorem ends_agree
    (hdh : ∀ a b, C.diffieHellman a (C.publicKey b) = C.diffieHellman b (C.publicKey a))
    {A B : List UInt8} (hA : A.length = 32) (hB : B.length = 32)
    (hAa : Identifies A S.caller.callerIdentity) (hBa : Identifies B S.caller.calleeIdentity)
    (hAb : Identifies A S.callee.callerIdentity) (hBb : Identifies B S.callee.calleeIdentity)
    {c₀ : SignalCall Secret} (h₀ : S.place C P = .ok c₀)
    (h : Machine.Run (Ends.step C P parseIp S) (Ends.Arrives S) { caller := c₀ } e) :
    (e.caller.Engaged → ∃ c, e.callee = some c ∧ c.state ≠ .ringing) ∧
      (∀ k, e.caller.session.StartsWith C k → S.keys C = .ok k) ∧
      (∀ c k, e.callee = some c → c.session.StartsWith C k → S.keys C = .ok k.swap) ∧
      ((e.caller.session.isConnected ∨ ∃ c, e.callee = some c ∧ c.session.isConnected) →
        ∃ k, S.keys C = .ok k) := by
  have hs : Sound C P S e := h.invariant (.of_place h₀) fun i hs hi => hs.step hoffer hanswer i hi
  have hcaller := keys_of_holds hs.caller
  have hcallee (c : SignalCall Secret) (hc : e.callee = some c) := keys_of_holds (hs.callee c hc)
  have hswap := keys_callee hdh hA hB hAa hBa hAb hBb
  -- keys the callee has are those of the call the other way round
  have hback {k : SrtpKeys × SrtpKeys}
      (hk : (S.callee.keying (some (C.publicKey S.caller.secret))).derive C .answerer = .ok k) :
      S.keys C = .ok k.swap := by
    rw [hswap] at hk
    cases hkeys : S.keys C with
    | error e =>
      rw [hkeys] at hk
      cases hk
    | ok k' =>
      rw [hkeys] at hk
      cases hk
      rfl
  refine ⟨fun hg => ?_, hcaller.1, fun c k hc hk => hback ((hcallee c hc).1 k hk), fun hd => ?_⟩
  · obtain ⟨b, hb⟩ := hs.engaged hg
    exact (hs.answers _ b (List.mem_append_left _ hb)).2
  · rcases hd with hd | ⟨c, hc, hd⟩
    · exact hcaller.2 hd
    · obtain ⟨k, hk⟩ := (hcallee c hc).2 hd
      exact ⟨_, hback hk⟩

/-- A call of which the caller serializes the identity keys and the callee does not. -/
def samplePlan : CallPlan Bool where
  callId := 7
  caller := {
    localAddr := ⟨"192.168.1.2", true, 40000⟩
    ufrag := "abcdefgh"
    pwd := "abcdefghijklmnopqrstuvwx"
    secret := false
    callerIdentity := 0x05 :: (List.range 32).map UInt8.ofNat
    calleeIdentity := 0x05 :: (List.range' 32 32).map UInt8.ofNat }
  callee := {
    localAddr := ⟨"192.168.1.3", true, 50000⟩
    ufrag := "ijklmnop"
    pwd := "ijklmnopqrstuvwxyzabcdef"
    secret := true
    callerIdentity := (List.range 32).map UInt8.ofNat
    calleeIdentity := (List.range' 32 32).map UInt8.ofNat }

/-- The bytes of what is told of an end of the call. -/
def paramsBytes (p : Party Bool) : List UInt8 :=
  [0x22, 0x4E, 0x0A, 0x20] ++ (sampleCrypto.publicKey p.secret).1 ++
    ([0x12, 0x08] ++ p.ufrag.toList.map (fun c => UInt8.ofNat c.toNat)) ++
    ([0x1A, 0x18] ++ p.pwd.toList.map (fun c => UInt8.ofNat c.toNat)) ++
    [0x22, 0x02, 0x08, 0x08, 0x28, 0x80, 0x89, 0x7A]

/-- The library of protocol buffers at the offer and the answer of the call. -/
def planProst : Prost :=
  { sampleProst with
    offer := {
      encode := fun o =>
        if o = samplePlan.offer sampleCrypto then paramsBytes samplePlan.caller else []
      decode := fun b =>
        if b = paramsBytes samplePlan.caller then some (samplePlan.offer sampleCrypto) else none }
    answer := {
      encode := fun o =>
        if o = samplePlan.answer sampleCrypto then paramsBytes samplePlan.callee else []
      decode := fun b =>
        if b = paramsBytes samplePlan.callee then some (samplePlan.answer sampleCrypto)
        else none } }

/-- The pair of addresses that the agent of an end selects. -/
def selecting (p q : Party Bool) : Agent where
  connected := true
  selected := some (p.localAddr, q.localAddr)

/-- The call is offered, rings, is accepted and answered, and the ends connect. -/
def sampleCourse : List EndsInput :=
  [.caller (.call .pollSignals), .ring (paramsBytes samplePlan.caller),
    .callee (.call (.accept 0 (some {}))), .callee (.call .pollSignals),
    .caller (.call (.onSignal 0 (.answer 7 (paramsBytes samplePlan.callee)) (some {}))),
    .caller (.call (.pollTransmit { ice := selecting samplePlan.caller samplePlan.callee })),
    .callee (.call (.pollTransmit { ice := selecting samplePlan.callee samplePlan.caller }))]

/-- What becomes of the call. -/
def sampleEnds (c₀ : SignalCall Bool) : Ends Bool :=
  sampleCourse.foldl (Ends.step sampleCrypto planProst (fun _ => none) samplePlan) { caller := c₀ }

theorem run_sampleEnds {c₀ : SignalCall Bool}
    (h₀ : samplePlan.place sampleCrypto planProst = .ok c₀) :
    Machine.Run (Ends.step sampleCrypto planProst (fun _ => none) samplePlan)
      (Ends.Arrives samplePlan) { caller := c₀ } (sampleEnds c₀) := by
  cases h₀
  refine Machine.run_of_goes ⟨trivial, ?_, trivial, trivial, ?_, trivial, trivial, trivial⟩
  · exact List.mem_cons_self
  · exact .inl List.mem_cons_self

/-- The callee has keys to start media with, which are those of the call the other way round. -/
theorem ends_agree_sample :
    ∃ c₀ c k, samplePlan.place sampleCrypto planProst = .ok c₀ ∧ (sampleEnds c₀).callee = some c ∧
      c.session.StartsWith sampleCrypto k ∧ samplePlan.keys sampleCrypto = .ok k.swap := by
  have hsome : ((samplePlan.place sampleCrypto planProst).toOption.bind fun c₀ =>
      (sampleEnds c₀).callee.bind (·.session.transport.keys)).isSome := by decide +kernel
  obtain ⟨k, hk⟩ := Option.isSome_iff_exists.1 hsome
  obtain ⟨c₀, h₀, hk⟩ := Option.bind_eq_some_iff.1 hk
  obtain ⟨c, hc, hk⟩ := Option.bind_eq_some_iff.1 hk
  have h₀ : samplePlan.place sampleCrypto planProst = .ok c₀ := by
    cases h : samplePlan.place sampleCrypto planProst with
    | error e =>
      rw [h] at h₀
      cases h₀
    | ok c =>
      rw [h] at h₀
      cases h₀
      rfl
  refine ⟨c₀, c, k, h₀, hc, .inl hk, ?_⟩
  exact (ends_agree (by decide) (by decide) (by decide) (A := (List.range 32).map UInt8.ofNat)
    (B := (List.range' 32 32).map UInt8.ofNat) (by simp) (by simp) (.inl rfl) (.inl rfl)
    (.inr rfl) (.inr rfl) h₀ (run_sampleEnds h₀)).2.2.1 c k hc (.inl hk)

end Ends

end Wandr
