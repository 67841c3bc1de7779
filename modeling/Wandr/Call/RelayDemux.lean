import Wandr.Call.MediaPath
import Wandr.Call.SignalCall

/-!
# What comes through the relay

A datagram of the TURN server may carry any number of payloads that the other end sent to the
relayed address. Each is told by its first byte: the agent reads those of STUN as come in at the
relayed address, and media is handed to the session. Of the media only the last payload is.

* `Transport.IsSignal.demuxRelayed`, `Transport.IsSignal.relayedReads`: what becomes of the
  payloads, one after the other;
* `PeerSession.handleDatagram_mediaSeen`: a session counts the media it is handed;
* `Transport.relayed_delivered_iff`: all payloads are delivered if and only if at most one of them
  is media;
* `Transport.media_dropped`: two payloads of media.
-/

namespace Wandr

/-- A datagram that the agent reads: the local address it came in at, and where from. -/
structure IceRead where
  localAddr : SocketAddr
  src : SocketAddr
  data : List UInt8
  deriving DecidableEq

/-- The payload that an event of the TURN client brings. -/
def TurnEvent.payload : TurnEvent → Option (SocketAddr × List UInt8)
  | .dataIndicationOrChannelData peer data => some (peer, data)
  | _ => none

namespace Transport

variable {Secret : Type} {C : Crypto Secret} {t : Transport Secret}

/-- Whether a payload is one of STUN. -/
def isStun (data : List UInt8) : Bool := data.head?.any (· ≤ 3)

/-- Whether a payload is media. -/
def isMedia (data : List UInt8) : Bool := data.head?.any (128 ≤ ·)

/-- What the agent reads of a payload. -/
def reads (localAddr src : SocketAddr) (data : List UInt8) : List IceRead :=
  if isStun data then [⟨localAddr, src, data⟩] else []

/-- What the agent reads of payloads that came through the relay; the first that fails is the
    last. -/
def relayedReads (t : Transport Secret) (localAddr : SocketAddr) :
    List (SocketAddr × List UInt8) → (Nat → ReadAnswer) → List IceRead
  | [], _ => []
  | (peer, payload) :: rest, answer =>
    reads localAddr peer payload ++
      match t.demuxPayload payload (answer 0) with
      | (_, .error _) => []
      | (t, .ok _) => t.relayedReads localAddr rest fun n => answer (n + 1)

/-- What the agent reads of a datagram. -/
def datagramReads (t : Transport Secret) (src : SocketAddr) (data : List UInt8)
    (turn : List TurnEvent) (answer : Nat → ReadAnswer) : List IceRead :=
  match t.relay with
  | some r =>
    if src = r.turnServAddr then
      let r := r.drainEvents turn
      { t with relay := some { r with relayedIn := [] } }.relayedReads
        (r.relayedAddr.getD t.localAddr) r.relayedIn answer
    else reads t.localAddr src data
  | none => reads t.localAddr src data

/-- What the session is handed. -/
def handed : Except CallError Demux → List (List UInt8)
  | .ok (.media m) => [m]
  | _ => []

/-- A transport that agrees on keys by the signaling hands on what is media and takes in the
    rest, and does not fail. -/
theorem IsSignal.demuxPayload (h : t.IsSignal) (data : List UInt8) (a : ReadAnswer) :
    (t.demuxPayload data a).2 = .ok (if isMedia data then .media data else .consumed) := by
  obtain ⟨s, hs⟩ := h
  unfold Transport.demuxPayload isMedia
  cases data.head? with
  | none => rfl
  | some b =>
    dsimp only [Option.any]
    by_cases hb : b ≤ 3
    · have hm : ¬ 128 ≤ b := by
        rw [UInt8.le_iff_toNat_le] at hb ⊢
        exact fun hm => absurd (hm.trans hb) (by decide)
      rw [if_pos hb, if_neg (fun h => hm (of_decide_eq_true h))]
    · rw [if_neg hb]
      by_cases hd : 20 ≤ b ∧ b ≤ 63
      · have hm : ¬ 128 ≤ b := by
          obtain ⟨-, hd⟩ := hd
          rw [UInt8.le_iff_toNat_le] at hd ⊢
          exact fun hm => absurd (hm.trans hd) (by decide)
        rw [if_pos hd, if_neg (fun h => hm (of_decide_eq_true h)), hs]
      · rw [if_neg hd]
        by_cases hm : 128 ≤ b
        · rw [if_pos hm, if_pos (decide_eq_true hm)]
        · rw [if_neg hm, if_neg (fun h => hm (of_decide_eq_true h))]

variable {l : List (SocketAddr × List UInt8)} {answer : Nat → ReadAnswer}

/-- Of the media that came through the relay the last is handed on. -/
theorem IsSignal.demuxRelayed (h : t.IsSignal) (media : Option (List UInt8)) :
    (t.demuxRelayed media l answer).2 = .ok ((((l.map (·.2)).filter isMedia).getLast?.or media).elim
      .consumed .media) := by
  induction l generalizing t media answer with
  | nil => cases media <;> rfl
  | cons x l ih =>
    obtain ⟨peer, payload⟩ := x
    have hr := h.demuxPayload payload (answer 0)
    have hs : (t.demuxPayload payload (answer 0)).1.IsSignal := h.congr demuxPayload_keying
    rw [Transport.demuxRelayed]
    cases hp : t.demuxPayload payload (answer 0) with
    | mk t' r =>
      rw [hp] at hr hs
      obtain rfl : r = _ := hr
      by_cases hm : isMedia payload
      · rw [if_pos hm, List.map_cons, List.filter_cons_of_pos hm]
        dsimp only
        rw [ih hs, List.getLast?_cons]
        cases (List.filter isMedia (List.map (·.2) l)).getLast? <;> rfl
      · rw [if_neg hm, List.map_cons, List.filter_cons_of_neg hm]
        dsimp only
        rw [ih hs]

/-- The agent reads all of STUN. -/
theorem IsSignal.relayedReads (h : t.IsSignal) (localAddr : SocketAddr) :
    t.relayedReads localAddr l answer =
      (l.filter fun x => isStun x.2).map fun x => ⟨localAddr, x.1, x.2⟩ := by
  induction l generalizing t answer with
  | nil => rfl
  | cons x l ih =>
    obtain ⟨peer, payload⟩ := x
    have hr := h.demuxPayload payload (answer 0)
    have hs : (t.demuxPayload payload (answer 0)).1.IsSignal := h.congr demuxPayload_keying
    rw [Transport.relayedReads]
    cases hp : t.demuxPayload payload (answer 0) with
    | mk t' r =>
      rw [hp] at hr hs
      obtain rfl : r = _ := hr
      dsimp only
      rw [ih hs, reads]
      by_cases hst : isStun payload
      · rw [if_pos hst, List.filter_cons_of_pos (by exact hst)]
        rfl
      · rw [if_neg hst, List.filter_cons_of_neg (by exact hst)]
        rfl

end Transport

/-! ## What the session sees -/

namespace PeerSession

variable {Secret : Type} {P : Prost} {s : PeerSession Secret}

theorem ensureMedia_mediaSeen (made : Except CallError Unit) (now : Nat) :
    (s.ensureMedia made now).1.mediaSeen = s.mediaSeen := by
  unfold ensureMedia
  split
  · rfl
  · split
    · rfl
    · cases made <;> rfl

theorem handleMedia_mediaSeen (m : MediaSession) (a : MediaAnswer) :
    (s.handleMedia P m a).mediaSeen = s.mediaSeen := by
  have hdata (s : PeerSession Secret) (b : List UInt8) :
      (s.onRtpData P b).mediaSeen = s.mediaSeen := by
    unfold onRtpData
    cases decodeRtpData P b with
    | none => rfl
    | some st =>
      obtain ⟨v, bps, hangup, n⟩ := st
      cases v <;> cases bps <;> cases hangup <;> rfl
  have hfold (l : List (List UInt8)) (s : PeerSession Secret) :
      (l.foldl (onRtpData P) s).mediaSeen = s.mediaSeen := by
    induction l generalizing s with
    | nil => rfl
    | cons b l ih => exact (ih _).trans (hdata s b)
  unfold handleMedia
  rw [hfold]
  dsimp only
  split <;> rfl

/-- A session counts the media it is handed. -/
theorem handleDatagram_mediaSeen {src : SocketAddr} {data : List UInt8} {turn : List TurnEvent}
    {answer : Nat → ReadAnswer} {a : MediaAnswer} :
    (s.handleDatagram P src data turn answer a).1.mediaSeen = s.mediaSeen +
      (Transport.handed (s.transport.handleDatagram src data turn answer).2).length := by
  unfold handleDatagram
  obtain ⟨transport, r⟩ := s.transport.handleDatagram src data turn answer
  rcases r with e | (_ | srtp)
  · rfl
  · rfl
  · have hm := ensureMedia_mediaSeen (s := { s with transport, mediaSeen := s.mediaSeen + 1 })
      a.made a.now
    dsimp only
    split
    · next he => rwa [he] at hm
    · next he =>
      rw [he] at hm
      split
      · exact hm
      · split
        · exact hm
        · exact (handleMedia_mediaSeen _ _).trans hm

end PeerSession

namespace Transport

variable {Secret : Type} {C : Crypto Secret} {t : Transport Secret} {answer : Nat → ReadAnswer}

/-! ## Who has a relay -/

/-- What happens to a transport: an input, or its keys are taken. -/
inductive Use
  | input (i : TransportInput)
  | takeKeys

/-- What a transport becomes of it. -/
def use (C : Crypto Secret) (t : Transport Secret) : Use → Transport Secret
  | .input i => t.next C i
  | .takeKeys => { t with keys := none }

/-- Only a transport that agrees on keys by the signaling has a relay. -/
def RelaySignal (t : Transport Secret) : Prop := t.IsSignal ∨ t.relay = none

theorem IsSignal.next (h : t.IsSignal) (i : TransportInput) : (t.next C i).IsSignal := by
  cases i with
  | setRemote => exact h.setRemote
  | addRemoteCandidate => exact h.congr addRemoteCandidate_keying
  | takeNewLocalCandidates => exact h.congr takeNewLocalCandidates_keying
  | timeout now a => exact h.handleTimeout now a
  | datagram => exact h.congr handleDatagram_keying
  | poll a => exact h.pollTransmit a
  | queueMedia => exact h

theorem modifyRelay_eq_none {f : RelayState → RelayState} (h : t.relay = none) :
    (t.modifyRelay f).relay = none := by
  rw [modifyRelay, h]
  rfl

theorem relay_next (h : t.relay = none) (i : TransportInput) : (t.next C i).relay = none := by
  cases i with
  | setRemote now fingerprint remotePublic remotes ice =>
    unfold next setRemote
    dsimp only
    split
    · exact h
    · next t' ht =>
      obtain ⟨keying, rfl⟩ := setRemoteKeying_eq ht
      cases ice <;> exact modifyRelay_eq_none h
  | addRemoteCandidate addr ice =>
    unfold next addRemoteCandidate
    dsimp only
    split
    · exact h
    · cases ice <;> exact modifyRelay_eq_none h
  | takeNewLocalCandidates =>
    unfold next takeNewLocalCandidates
    rw [h]
    exact h
  | timeout now a =>
    rw [next, handleTimeout, maybeAdvance_relay, timedOut_relay, h]
    rfl
  | datagram src data turn answer =>
    rw [next, handleDatagram, h]
    exact demuxPayload_relay.trans h
  | poll a =>
    obtain ⟨b, hb⟩ := ({ t with ice := a.ice }.maybeAdvance C).ensureRelayLocalCandidate_eq a.added
    have hr : (({ t with ice := a.ice }.maybeAdvance C).ensureRelayLocalCandidate a.added).relay =
        none := by
      rw [hb]
      exact maybeAdvance_relay.trans h
    unfold next pollTransmit
    dsimp only
    generalize
      ({ t with ice := a.ice }.maybeAdvance C).ensureRelayLocalCandidate a.added = t' at hr ⊢
    cases t'.keying <;> exact modifyRelay_eq_none hr
  | queueMedia => exact h

theorem RelaySignal.use (h : t.RelaySignal) (u : Use) : (t.use C u).RelaySignal := by
  cases u with
  | input i => exact h.imp (fun hs => hs.next i) fun hr => relay_next hr i
  | takeKeys => exact h

theorem Made.relaySignal (h : Made t) : t.RelaySignal := by
  cases h with
  | new => exact .inr rfl
  | newSignal => exact .inl ⟨_, rfl⟩

/-! ## What is delivered -/

/-- The payloads of a datagram of the TURN server, after what was left of those before. -/
def payloads (r : RelayState) (turn : List TurnEvent) : List (SocketAddr × List UInt8) :=
  r.relayedIn ++ turn.filterMap TurnEvent.payload

theorem permit_relayedIn (r : RelayState) (addr : SocketAddr) :
    (r.permit addr).relayedIn = r.relayedIn := by
  unfold RelayState.permit
  split
  · rfl
  · split <;> rfl

theorem drainEvents_relayedIn (r : RelayState) (turn : List TurnEvent) :
    (r.drainEvents turn).relayedIn = payloads r turn := by
  have hpermits (addrs : List SocketAddr) (r : RelayState) :
      (addrs.foldl RelayState.permit r).relayedIn = r.relayedIn := by
    induction addrs generalizing r with
    | nil => rfl
    | cons addr addrs ih => exact (ih _).trans (permit_relayedIn r addr)
  induction turn generalizing r with
  | nil => exact (List.append_nil _).symm
  | cons e turn ih =>
    refine (ih (r.onEvent e)).trans ?_
    cases e with
    | allocateResponse relayed => exact congrArg (· ++ _) (hpermits _ _)
    | dataIndicationOrChannelData peer data =>
      have hr : (r.onEvent (.dataIndicationOrChannelData peer data)).relayedIn =
          r.relayedIn ++ [(peer, data)] := congrArg (· ++ [(peer, data)]) (permit_relayedIn r peer)
      rw [payloads, hr, List.append_assoc]
      rfl
    | other => rfl

/-- All payloads of a datagram of the TURN server are delivered, and none of them fails: those of
    STUN to the agent, at the address that is relayed, and the media to the session, which counts
    it. -/
structure Delivers (t : Transport Secret) (r : RelayState) (data : List UInt8)
    (turn : List TurnEvent) (answer : Nat → ReadAnswer) : Prop where
  reads : t.datagramReads r.turnServAddr data turn answer =
    ((payloads r turn).filter fun x => isStun x.2).map fun x =>
      ⟨(r.drainEvents turn).relayedAddr.getD t.localAddr, x.1, x.2⟩
  media : handed (t.handleDatagram r.turnServAddr data turn answer).2 =
    ((payloads r turn).map (·.2)).filter isMedia
  seen : ∀ (P : Prost) (s : PeerSession Secret) (a : MediaAnswer), s.transport = t →
    (s.handleDatagram P r.turnServAddr data turn answer a).1.mediaSeen =
      s.mediaSeen + (((payloads r turn).map (·.2)).filter isMedia).length
  ok : (t.handleDatagram r.turnServAddr data turn answer).2.isOk

theorem toList_getLast?_eq_iff {α : Type*} {l : List α} : l.getLast?.toList = l ↔ l.length ≤ 1 := by
  refine ⟨fun h => ?_, fun h => ?_⟩
  · rw [← h]
    cases l.getLast? with
    | none => exact Nat.zero_le 1
    | some a => exact le_rfl
  · cases l with
    | nil => rfl
    | cons a l =>
      have hl : l.length = 0 := Nat.le_zero.1 (Nat.le_of_succ_le_succ h)
      obtain rfl : l = [] := List.eq_nil_of_length_eq_zero hl
      rfl

theorem delivers_iff (h : t.IsSignal) {r : RelayState} (hr : t.relay = some r) {data : List UInt8}
    {turn : List TurnEvent} :
    t.Delivers r data turn answer ↔ (((payloads r turn).map (·.2)).filter isMedia).length ≤ 1 := by
  have hs : IsSignal { t with relay := some { r.drainEvents turn with relayedIn := [] } } := h
  have hp := drainEvents_relayedIn r turn
  have hreads : t.datagramReads r.turnServAddr data turn answer =
      ((payloads r turn).filter fun x => isStun x.2).map fun x =>
        ⟨(r.drainEvents turn).relayedAddr.getD t.localAddr, x.1, x.2⟩ := by
    rw [datagramReads, hr]
    dsimp only
    rw [if_pos rfl, hp]
    exact hs.relayedReads _
  have hres : (t.handleDatagram r.turnServAddr data turn answer).2 =
      .ok ((((payloads r turn).map (·.2)).filter isMedia).getLast?.elim .consumed .media) := by
    rw [handleDatagram, hr]
    dsimp only
    rw [if_pos rfl, hp]
    refine (hs.demuxRelayed none).trans ?_
    rw [Option.or_none]
  have hhanded : handed (t.handleDatagram r.turnServAddr data turn answer).2 =
      (((payloads r turn).map (·.2)).filter isMedia).getLast?.toList := by
    rw [hres]
    cases (((payloads r turn).map (·.2)).filter isMedia).getLast? <;> rfl
  rw [← toList_getLast?_eq_iff]
  refine ⟨fun hd => hhanded.symm.trans hd.media, fun hl => ⟨hreads, hhanded.trans hl, ?_, ?_⟩⟩
  · rintro P s a rfl
    rw [PeerSession.handleDatagram_mediaSeen, hhanded, hl]
  · rw [hres]
    rfl

/-- In a run of a transport, all payloads of a datagram of the TURN server are delivered if and only
    if at most one of them is media. -/
theorem relayed_delivered_iff {t₀ : Transport Secret} (h₀ : Made t₀) (us : List Use)
    {r : RelayState} (hr : (us.foldl (use C) t₀).relay = some r) (data : List UInt8)
    (turn : List TurnEvent) (answer : Nat → ReadAnswer) :
    (us.foldl (use C) t₀).Delivers r data turn answer ↔
      (((payloads r turn).map (·.2)).filter isMedia).length ≤ 1 := by
  have hrun : ∀ us : List Use, (us.foldl (use C) t₀).RelaySignal := by
    intro us
    induction us using List.reverseRecOn with
    | nil => exact h₀.relaySignal
    | append_singleton us u ih =>
      rw [List.foldl_append]
      exact ih.use u
  rcases hrun us with hs | hn
  · exact delivers_iff hs hr
  · cases hn.symm.trans hr

/-- A callee with a relay. -/
def relaying : Transport Bool :=
  .newSignal .answerer ⟨"192.168.1.2", true, 40000⟩ true ((List.range 32).map UInt8.ofNat)
    ((List.range' 32 32).map UInt8.ofNat) (some ⟨"203.0.113.1", true, 3478⟩)

/-- The relay of the callee. -/
def calleeRelay : RelayState :=
  { turnServAddr := ⟨"203.0.113.1", true, 3478⟩, localAddr := ⟨"192.168.1.2", true, 40000⟩ }

/-- The TURN client has an address, and brings payloads of the other end. -/
def bringing (data : List (List UInt8)) : List TurnEvent :=
  .allocateResponse ⟨"203.0.113.1", true, 50001⟩ ::
    data.map (.dataIndicationOrChannelData ⟨"203.0.113.9", true, 50000⟩)

theorem made_relaying : Made relaying := .newSignal ..

/-- A check of the agent and one payload of media are delivered. -/
theorem relayed_delivered_iff_check :
    relaying.Delivers calleeRelay [] (bringing [[0, 1], [128, 102]]) fun _ => { ice := {} } :=
  (relayed_delivered_iff (C := sampleCrypto) made_relaying [] rfl [] _ _).2 (by decide)

/-- Of two payloads of media the first is dropped. -/
theorem media_dropped : Made relaying ∧ relaying.relay = some calleeRelay ∧
    ¬ relaying.Delivers calleeRelay [] (bringing [[128, 102], [128, 230]])
      fun _ => { ice := {} } := by
  have hsignal : relaying.IsSignal := ⟨_, rfl⟩
  exact ⟨made_relaying, rfl, fun h => absurd ((delivers_iff hsignal rfl).1 h) (by decide)⟩

end Transport

end Wandr
