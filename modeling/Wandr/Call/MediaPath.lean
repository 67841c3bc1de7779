import Wandr.Call.Transport

/-!
# The path of the media

The media of a call goes to the remote candidate of the pair that the ICE agent selected,
through the relay if the local candidate is the relayed address. The transport keeps a copy
of that path, which it no longer renews once the keys are agreed on.

* `Transport.media_follows_iff`: in a run, all media is sent over the pair selected at that
  moment just when no media is sent while another path is selected than when the transport
  last looked before the keys were agreed on;
* `Transport.media_left_behind` is a run in which the agent selects another pair after that.
-/

namespace Wandr

/-- What happens to a transport. -/
inductive TransportInput
  | setRemote (now : Nat) (fingerprint : String) (remotePublic : Option (List UInt8))
    (remotes : List SocketAddr) (ice : Option Agent)
  | addRemoteCandidate (addr : SocketAddr) (ice : Option Agent)
  | takeNewLocalCandidates
  | timeout (now : Nat) (a : TimeoutAnswer)
  | datagram (src : SocketAddr) (data : List UInt8) (turn : List TurnEvent)
    (answer : Nat → ReadAnswer)
  | poll (a : PollAnswer)
  | queueMedia (dg : List UInt8)

namespace Transport

variable {Secret : Type} {C : Crypto Secret} {t : Transport Secret}

/-- The path of the selected pair: where to, and whether through the relay. -/
def path (t : Transport Secret) : Option (SocketAddr × Bool) :=
  t.ice.selected.map fun p => (p.2, decide (t.relayedAddr = some p.1))

/-- The path that the transport keeps. -/
def kept (t : Transport Secret) : Option (SocketAddr × Bool) :=
  t.remote.map fun r => (r, t.mediaViaRelay)

/-- The path the transport would note if it looked now. -/
def look (t : Transport Secret) : Option (SocketAddr × Bool) :=
  if t.done ∨ ¬ t.ice.connected then none else t.path

/-! ## One look -/

theorem maybeAdvance_kept : (t.maybeAdvance C).kept = t.look.or t.kept := by
  unfold maybeAdvance look path
  split
  · rfl
  · cases hs : t.ice.selected with
    | none => rfl
    | some p =>
      dsimp only
      split
      · rfl
      · split <;> rfl

/-- The transport as it is when a poll sends the media. -/
def polled (C : Crypto Secret) (t : Transport Secret) (a : PollAnswer) : Transport Secret :=
  ({ t with ice := a.ice }.maybeAdvance C).ensureRelayLocalCandidate a.added

variable {a : PollAnswer}

@[simp]
theorem relayedAddr_wrap {sent : List Sent} : (t.wrap sent).relayedAddr = t.relayedAddr := by
  have hs (r : RelayState) (bytes : List UInt8) (peer : SocketAddr) :
      (r.sendVia bytes peer).relayedAddr = r.relayedAddr := by
    unfold RelayState.sendVia
    split <;> rfl
  have hf (l : List Sent) (r : RelayState) :
      (l.foldl (fun r s => r.sendVia s.datagram s.dest) r).relayedAddr = r.relayedAddr := by
    induction l generalizing r with
    | nil => rfl
    | cons s l ih => rw [List.foldl_cons, ih, hs]
  unfold wrap modifyRelay relayedAddr
  cases t.relay with
  | none => rfl
  | some r => exact hf _ r

/-- The transport with the agent as it is now. -/
def withIce (t : Transport Secret) (ice : Agent) : Transport Secret := { t with ice }

/-- What a poll sees of the path: the look it takes, the path selected meanwhile, and the
    media that is queued. -/
theorem polled_spec : (t.polled C a).kept = (t.withIce a.ice).look.or t.kept ∧
    (t.polled C a).path = (t.withIce a.ice).path ∧ (t.polled C a).mediaOut = t.mediaOut := by
  have hp : t.polled C a =
    ((t.withIce a.ice).maybeAdvance C).ensureRelayLocalCandidate a.added := rfl
  obtain ⟨b, hb⟩ := ((t.withIce a.ice).maybeAdvance C).ensureRelayLocalCandidate_eq a.added
  rw [hp, hb]
  refine ⟨maybeAdvance_kept, ?_, maybeAdvance_mediaOut⟩
  have hr : ({ (t.withIce a.ice).maybeAdvance C with relayLocalAdded := b }).relayedAddr =
      (t.withIce a.ice).relayedAddr := by
    rw [relayedAddr, relayedAddr]
    exact congrArg (fun r : Option RelayState => r.bind (·.relayedAddr)) maybeAdvance_relay
  rw [path, path, hr]
  dsimp only
  rw [maybeAdvance_ice]

/-- What a poll sends, and what becomes of the path. -/
theorem pollTransmit_spec : (t.pollTransmit C a).2.media = (t.polled C a).routeMedia ∧
    (t.pollTransmit C a).1.path = (t.polled C a).path ∧
      (t.pollTransmit C a).1.kept = (t.polled C a).kept ∧
        (t.pollTransmit C a).1.done = (t.polled C a).done := by
  unfold pollTransmit polled
  dsimp only
  generalize ({ t with ice := a.ice }.maybeAdvance C).ensureRelayLocalCandidate a.added = t'
  have hpath (t₁ : Transport Secret) (sent : List Sent) (q : List (List UInt8)) :
      path { t₁.wrap sent with mediaOut := q } = t₁.path := by
    have hr : relayedAddr { t₁.wrap sent with mediaOut := q } = t₁.relayedAddr := relayedAddr_wrap
    rw [path, path, hr]
    rfl
  cases hk : t'.keying with
  | dtls d => exact ⟨rfl, hpath _ _ _, rfl, rfl⟩
  | signal k => exact ⟨rfl, hpath _ _ _, rfl, rfl⟩

/-! ## Runs -/

/-- The transports before anything happened to them. -/
inductive Made : Transport Secret → Prop
  | new (role : CallRole) (localAddr : SocketAddr) (fingerprint : String) :
    Made (.new role localAddr fingerprint)
  | newSignal (role : CallRole) (localAddr : SocketAddr) (secret : Secret)
    (callerIdentity calleeIdentity : List UInt8) (turn : Option SocketAddr) :
    Made (.newSignal role localAddr secret callerIdentity calleeIdentity turn)

/-- What the transport becomes of an input. -/
def next (C : Crypto Secret) (t : Transport Secret) : TransportInput → Transport Secret
  | .setRemote now fingerprint remotePublic remotes ice =>
    (t.setRemote now fingerprint remotePublic remotes ice).1
  | .addRemoteCandidate addr ice => (t.addRemoteCandidate addr ice).1
  | .takeNewLocalCandidates => t.takeNewLocalCandidates.1
  | .timeout now a => t.handleTimeout C now a
  | .datagram src data turn answer => (t.handleDatagram src data turn answer).1
  | .poll a => (t.pollTransmit C a).1
  | .queueMedia dg => t.queueMedia dg

/-- The media that an input drains. -/
def mediaOf (C : Crypto Secret) (t : Transport Secret) : TransportInput → List Sent
  | .poll a => (t.pollTransmit C a).2.media
  | _ => []

/-- What the transport sees selected when it looks at an input, if it looks. -/
def looked (t : Transport Secret) : TransportInput → Option (SocketAddr × Bool)
  | .timeout now a => (t.timedOut now a).look
  | .poll a => (t.withIce a.ice).look
  | _ => none

/-- The transport, and the path that was selected when it last looked before the keys were
    agreed on. -/
def watch (C : Crypto Secret) (s : Transport Secret × Option (SocketAddr × Bool))
    (i : TransportInput) : Transport Secret × Option (SocketAddr × Bool) :=
  (s.1.next C i, (s.1.looked i).or s.2)

/-- The media that is sent with the keys agreed on goes over the pair selected then. -/
def Follows (C : Crypto Secret) (s : Transport Secret × Option (SocketAddr × Bool))
    (i : TransportInput) : Prop :=
  (s.1.next C i).done → ∀ m ∈ s.1.mediaOf C i, (s.1.next C i).path = some (m.dest, m.viaRelay)

/-- When media is to be sent with the keys agreed on, the path that was selected before is
    still selected. -/
def Stays (s : Transport Secret × Option (SocketAddr × Bool)) : TransportInput → Prop
  | .poll a =>
    s.1.done → s.1.mediaOut ≠ [] → ∀ p, s.2 = some p → (s.1.withIce a.ice).path = some p
  | _ => True

/-! ## What is kept -/

theorem modifyRelay_kept {f : RelayState → RelayState} : (t.modifyRelay f).kept = t.kept := rfl

theorem ensureRelayLocalCandidate_kept {added : Bool} :
    (t.ensureRelayLocalCandidate added).kept = t.kept := by
  obtain ⟨b, hb⟩ := t.ensureRelayLocalCandidate_eq added
  rw [hb]
  rfl

theorem dtlsTimeout_kept {out : List Outgoing} : (t.dtlsTimeout out).kept = t.kept := by
  unfold dtlsTimeout
  split
  · split <;> rfl
  · rfl

theorem selfSelect_kept {now : Nat} {ice : Option Agent} :
    (t.selfSelect now ice).kept = t.kept := by
  unfold selfSelect
  split
  · split <;> rfl
  · rfl

theorem timedOut_kept {now : Nat} {a : TimeoutAnswer} : (t.timedOut now a).kept = t.kept := by
  unfold timedOut
  dsimp only
  rw [selfSelect_kept, ensureRelayLocalCandidate_kept, modifyRelay_kept, dtlsTimeout_kept]
  rfl

theorem setRemote_kept {now : Nat} {fingerprint : String} {remotePublic : Option (List UInt8)}
    {remotes : List SocketAddr} {ice : Option Agent} :
    (t.setRemote now fingerprint remotePublic remotes ice).1.kept = t.kept := by
  have hk : ∀ t', t.setRemoteKeying fingerprint remotePublic = .ok t' → t'.kept = t.kept := by
    intro t' h
    obtain ⟨keying, rfl⟩ := setRemoteKeying_eq h
    rfl
  unfold setRemote
  split
  · rfl
  · next t' h => cases ice <;> exact hk t' h

theorem addRemoteCandidate_kept {addr : SocketAddr} {ice : Option Agent} :
    (t.addRemoteCandidate addr ice).1.kept = t.kept := by
  unfold addRemoteCandidate
  split
  · rfl
  · cases ice <;> rfl

theorem takeNewLocalCandidates_kept : t.takeNewLocalCandidates.1.kept = t.kept := by
  unfold takeNewLocalCandidates
  cases t.relay <;> rfl

theorem onDtlsDone_kept {state : Option DtlsState} : (t.onDtlsDone state).1.kept = t.kept := by
  unfold onDtlsDone
  repeat' (first | rfl | split)

theorem demuxPayload_kept {data : List UInt8} {a : ReadAnswer} :
    (t.demuxPayload data a).1.kept = t.kept := by
  unfold demuxPayload
  repeat' (first | rfl | exact onDtlsDone_kept | split)

theorem handleDatagram_kept {src : SocketAddr} {data : List UInt8} {turn : List TurnEvent}
    {answer : Nat → ReadAnswer} : (t.handleDatagram src data turn answer).1.kept = t.kept := by
  unfold handleDatagram
  split
  · split
    · exact demuxRelayed_frame fun _ _ _ => demuxPayload_kept
    · exact demuxPayload_kept
  · exact demuxPayload_kept

/-- The path that the transport keeps is the one that was selected when it last looked. -/
theorem next_kept {i : TransportInput} : (t.next C i).kept = (t.looked i).or t.kept := by
  cases i with
  | setRemote => exact setRemote_kept
  | addRemoteCandidate => exact addRemoteCandidate_kept
  | takeNewLocalCandidates => exact takeNewLocalCandidates_kept
  | timeout now a => exact maybeAdvance_kept.trans (by rw [timedOut_kept, looked])
  | datagram => exact handleDatagram_kept
  | poll a => exact pollTransmit_spec.2.2.1.trans polled_spec.1
  | queueMedia => rfl

/-! ## One poll -/

theorem maybeAdvance_of_done (h : t.done) : t.maybeAdvance C = t := by
  rw [maybeAdvance, if_pos (.inl h)]

/-- The keys are agreed on when a pair is selected. -/
theorem look_of_done (h : (t.maybeAdvance C).done) (hd : ¬ t.done) :
    t.look = t.path ∧ ∃ p, t.path = some p := by
  unfold maybeAdvance at h
  unfold look
  split at h
  · exact absurd h hd
  · next hn =>
    rw [if_neg hn]
    cases hs : t.ice.selected with
    | none =>
      rw [hs] at h
      exact absurd h hd
    | some p =>
      rw [path, hs]
      exact ⟨rfl, _, rfl⟩

/-- The media goes over the path that the transport keeps. -/
theorem mem_routeMedia {m : Sent} :
    m ∈ t.routeMedia ↔ m.datagram ∈ t.mediaOut ∧ t.kept = some (m.dest, m.viaRelay) := by
  unfold routeMedia kept
  cases t.remote with
  | none => simp
  | some dest =>
    simp only [List.mem_map, Option.map_some, Option.some.injEq, Prod.mk.injEq]
    constructor
    · rintro ⟨dg, hdg, rfl⟩
      exact ⟨hdg, rfl, rfl⟩
    · rintro ⟨hdg, h₁, h₂⟩
      exact ⟨m.datagram, hdg, by rw [h₁, h₂]⟩

/-- The media of a poll goes over the selected pair just when it stayed. -/
theorem follows_iff {s : Transport Secret × Option (SocketAddr × Bool)} (h : s.2 = s.1.kept)
    {i : TransportInput} : Follows C s i ↔ Stays s i := by
  obtain ⟨t, seen⟩ := s
  dsimp only at h
  subst h
  cases i with
  | poll a =>
    obtain ⟨hm, hp, -, hd⟩ := pollTransmit_spec (C := C) (t := t) (a := a)
    obtain ⟨hk, hp', ho⟩ := polled_spec (C := C) (t := t) (a := a)
    have hd' : (t.polled C a).done = ((t.withIce a.ice).maybeAdvance C).done := by
      obtain ⟨b, hb⟩ :=
        ((t.withIce a.ice).maybeAdvance C).ensureRelayLocalCandidate_eq a.added
      exact (congrArg Transport.done hb :)
    simp only [Follows, Stays, next, mediaOf, hm, hp, hp', hd, hd', mem_routeMedia, ho]
    by_cases hdone : t.done
    · have hw : (t.withIce a.ice).done := hdone
      have hl : (t.withIce a.ice).look = none := if_pos (.inl hw)
      rw [hk, hl, Option.none_or, maybeAdvance_of_done hw]
      constructor
      · rintro hf - hne ⟨dest, viaRelay⟩ hp
        obtain ⟨dg, hdg⟩ := List.exists_mem_of_ne_nil _ hne
        exact hf hw ⟨dest, viaRelay, dg⟩ ⟨hdg, hp⟩
      · rintro hs - m ⟨hdg, hp⟩
        exact hs hdone (List.ne_nil_of_mem hdg) _ hp
    · -- the keys are agreed on in this poll, if they are: the transport has just looked
      refine iff_of_true (fun hf m ⟨_, hp⟩ => ?_) fun h => absurd h hdone
      obtain ⟨hl, p, hpath⟩ := look_of_done hf hdone
      rwa [hk, hl, hpath, Option.some_or, ← hpath] at hp
  | _ => exact iff_of_true (fun _ m hm => nomatch hm) trivial

/-- In a run of a transport, all media that is sent with the keys agreed on goes over the
    pair that is selected then, if and only if each time the path that was selected when
    the transport last looked before is still selected. -/
theorem media_follows_iff {t₀ : Transport Secret} (h₀ : Made t₀) (is : List TransportInput) :
    Machine.Goes (watch C) (Follows C) (t₀, none) is ↔
      Machine.Goes (watch C) Stays (t₀, none) is := by
  have hk : t₀.kept = none := by cases h₀ <;> rfl
  suffices hs : ∀ s : Transport Secret × Option (SocketAddr × Bool), s.2 = s.1.kept →
      (Machine.Goes (watch C) (Follows C) s is ↔ Machine.Goes (watch C) Stays s is) from
    hs _ hk.symm
  induction is with
  | nil => exact fun _ _ => Iff.rfl
  | cons i is ih =>
    intro s h
    refine and_congr (follows_iff h) (ih _ ?_)
    rw [watch, next_kept, h]

/-- The transport of a callee whose caller has two addresses. -/
def answering : Transport Bool :=
  .newSignal .answerer ⟨"192.168.1.2", true, 40000⟩ true ((List.range 32).map UInt8.ofNat)
    ((List.range' 32 32).map UInt8.ofNat) none

/-- The agent of the callee, with a pair of which the other end is an address. -/
def agentOn (remote : SocketAddr) : Agent :=
  { connected := true, selected := some (⟨"192.168.1.2", true, 40000⟩, remote) }

/-- The callee selects a pair by itself after the grace; the caller nominates another one
    afterwards. -/
def selectedTwice : List TransportInput :=
  [.setRemote 0 "" (some (sampleCrypto.publicKey false)) [] (some {}),
    .timeout 4000000000 { ice := {}, selfSelected := some (agentOn ⟨"192.168.1.3", true, 5000⟩) },
    .queueMedia [0x80, 111],
    .poll { ice := agentOn ⟨"10.0.0.7", true, 6000⟩ }]

/-- The media still goes to the address that was selected first. -/
theorem media_left_behind :
    ¬ Machine.Goes (watch sampleCrypto) (Follows sampleCrypto) (answering, none)
      selectedTwice := by
  intro h
  have hf := h.2.2.2.1 (by decide +kernel)
  exact absurd (hf ⟨⟨"192.168.1.3", true, 5000⟩, false, [0x80, 111]⟩ (by decide +kernel))
    (by decide +kernel)

/-- A callee that sends media while the pair it selected by itself is still selected. -/
theorem media_follows_once :
    Machine.Goes (watch sampleCrypto) (Follows sampleCrypto) (answering, none)
      (selectedTwice.take 3 ++ [.poll { ice := agentOn ⟨"192.168.1.3", true, 5000⟩ }]) := by
  refine (media_follows_iff (.newSignal ..) _).2 ⟨trivial, trivial, trivial, ?_, trivial⟩
  rintro - - p hp
  rw [← hp]
  decide +kernel

end Transport

end Wandr
