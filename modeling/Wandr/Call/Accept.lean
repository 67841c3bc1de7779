import Wandr.Call.SignalCall
import Wandr.Lib.Machine

/-!
# Accepting a call

The callee accepts a call: it takes the offer that is kept since the call came in, applies it, and
answers. The offer is gone then, also if it could not be applied; the call goes on to ring, and
accepting it again does nothing and reports no error.

* `SignalCall.accept_cases`, `SignalCall.allOrNothing_iff`: accepting is all or nothing if and only
  if the key in the offer has the right length and the checks start;
* `SignalCall.accept_of_run`: in a run, a call that rings can be accepted as long as all of that
  holds each time it is accepted;
* `SignalCall.accepted_in_vain`: a caller that sends no key.
-/

namespace Wandr

/-! ## The signaling of the other end -/

namespace Transport

variable {Secret : Type} {t : Transport Secret} {now : Nat} {fingerprint : String}
  {remotePublic : Option (List UInt8)} {remotes : List SocketAddr} {ice : Option Agent}

/-- The signaling of the other end of a Signal call is applied if its key has the right length and
    the checks start. -/
theorem IsSignal.setRemote_ok_iff (h : t.IsSignal) :
    (t.setRemote now fingerprint remotePublic remotes ice).2 = .ok () ↔
      (∃ key, remotePublic = some key ∧ key.length = 32) ∧ ice ≠ none := by
  obtain ⟨s, hs⟩ := h
  rw [Transport.setRemote, setRemoteKeying, hs]
  dsimp only
  cases remotePublic with
  | none =>
    refine iff_of_false (fun h => by cases h) ?_
    rintro ⟨⟨key, hk, -⟩, -⟩
    cases hk
  | some key =>
    rw [SignalKeying.setRemotePublic]
    by_cases hk : key.length = 32
    · rw [dif_pos hk]
      cases ice with
      | none => exact iff_of_false (fun h => by cases h) fun h => h.2 rfl
      | some ice => exact iff_of_true rfl ⟨⟨key, rfl, hk⟩, Option.some_ne_none _⟩
    · rw [dif_neg hk]
      refine iff_of_false (fun h => by cases h) ?_
      rintro ⟨⟨key', he, hk'⟩, -⟩
      exact hk (Option.some.inj he ▸ hk')

/-- The signaling does not change the way the keys are agreed on. -/
theorem setRemote_isSignal_iff :
    (t.setRemote now fingerprint remotePublic remotes ice).1.IsSignal ↔ t.IsSignal := by
  refine ⟨fun h => ?_, fun h => h.setRemote⟩
  cases hd : t.keying with
  | signal s => exact ⟨s, hd⟩
  | dtls d =>
    obtain ⟨s, hs⟩ := h
    rw [Transport.setRemote, setRemoteKeying, hd] at hs
    dsimp only at hs
    split_ifs at hs <;> cases ice <;> first | cases hs | cases hd.symm.trans hs

end Transport

/-! ## Accepting -/

def CallSignal.isAnswer : CallSignal → Bool
  | .answer _ _ => true
  | _ => false

namespace SignalCall

variable {Secret : Type} {C : Crypto Secret} {P : Prost}
  {parseIp : String → Option (String × Bool)} {c : SignalCall Secret} {now : Nat}
  {ice : Option Agent}

/-- Accepting a call does all of it and tells so, with one answer, or fails and leaves a call that
    rings with its offer. -/
def AllOrNothing (c : SignalCall Secret) (x : SignalCall Secret × Except CallError Unit) : Prop :=
  (x.2 = .ok () ∧ x.1.state = .connecting ∧
    ∃ queued, x.1.out = c.out ++ queued ∧ queued.countP CallSignal.isAnswer = 1) ∨
  (∃ e, x.2 = .error e) ∧ x.1.state = .ringing ∧ c.pendingOffer ≠ none ∧
    x.1.pendingOffer = c.pendingOffer ∧ x.1.out = c.out

/-- The offer that is kept has a key of the right length, and the checks start. -/
def Answerable (c : SignalCall Secret) (ice : Option Agent) : Prop :=
  ∃ offer key, c.pendingOffer = some offer ∧ offer.publicKey = some key ∧ key.length = 32 ∧
    ice ≠ none

/-- A call that rings, and that is accepted without an answer and without an error. -/
def Silent (C : Crypto Secret) (P : Prost) (parseIp : String → Option (String × Bool))
    (c : SignalCall Secret) : Prop :=
  c.state = .ringing ∧ ∃ now ice, (c.accept C P parseIp now ice).2 = .ok () ∧
    (c.accept C P parseIp now ice).1.out = c.out

/-- There is an answer to send if the session has a key of its own, as that of a Signal call. -/
theorem encodeAnswer_localSignaling (session : PeerSession Secret) :
    (session.transport.IsSignal ∧ ∃ blob, encodeAnswer P (session.localSignaling C) = .ok blob) ∨
    (¬ session.transport.IsSignal ∧ ∃ e, encodeAnswer P (session.localSignaling C) = .error e) := by
  cases hk : session.transport.keying with
  | signal s =>
    refine .inl ⟨⟨s, hk⟩, ?_⟩
    rw [encodeAnswer, paramsFrom, PeerSession.localSignaling, Transport.signalPublicKey, hk]
    exact ⟨_, rfl⟩
  | dtls d =>
    refine .inr ⟨fun ⟨s, hs⟩ => ?_, ?_⟩
    · cases hk.symm.trans hs
    · rw [encodeAnswer, paramsFrom, PeerSession.localSignaling, Transport.signalPublicKey, hk]
      exact ⟨_, rfl⟩

variable (C P parseIp now ice) in
/-- What becomes of a call that is accepted: it answers, or it rings without its offer. -/
theorem accept_cases (hr : c.state = .ringing) (ho : c.pendingOffer ≠ none) :
    (c.session.transport.IsSignal ∧ c.Answerable ice ∧
      (c.accept C P parseIp now ice).2 = .ok () ∧
      (c.accept C P parseIp now ice).1.state = .connecting ∧
      ∃ blob lines, (c.accept C P parseIp now ice).1.out =
        c.out ++ .answer c.callId blob ::
          List.map (fun line => .ice c.callId (encodeIceCandidate P line)) lines) ∨
    (¬ (c.session.transport.IsSignal ∧ c.Answerable ice) ∧
      (∃ e, (c.accept C P parseIp now ice).2 = .error e) ∧
      (c.accept C P parseIp now ice).1.state = .ringing ∧
      (c.accept C P parseIp now ice).1.pendingOffer = none ∧
      (c.accept C P parseIp now ice).1.out = c.out) := by
  obtain ⟨offer, ho⟩ := Option.ne_none_iff_exists'.1 ho
  have hans : c.Answerable ice ↔
      (∃ key, offer.publicKey = some key ∧ key.length = 32) ∧ ice ≠ none := by
    refine ⟨?_, ?_⟩
    · rintro ⟨offer', key, ho', hk, hl, hice⟩
      obtain rfl := Option.some.inj (ho'.symm.trans ho)
      exact ⟨⟨key, hk, hl⟩, hice⟩
    · rintro ⟨⟨key, hk, hl⟩, hice⟩
      exact ⟨offer, key, ho, hk, hl, hice⟩
  have hok (hs : c.session.transport.IsSignal) :
      (c.session.setRemoteSignaling parseIp now offer ice).2 = .ok () ↔ c.Answerable ice :=
    hs.setRemote_ok_iff.trans hans.symm
  have hkeying : (c.session.setRemoteSignaling parseIp now offer ice).1.transport.IsSignal ↔
      c.session.transport.IsSignal := Transport.setRemote_isSignal_iff
  rw [accept, if_neg (not_not.2 hr), ho]
  dsimp only
  cases hset : c.session.setRemoteSignaling parseIp now offer ice with
  | mk session r =>
    rw [hset] at hok hkeying
    cases r with
    | error e =>
      refine .inr ⟨fun h => ?_, ⟨e, rfl⟩, hr, rfl, rfl⟩
      cases (hok h.1).2 h.2
    | ok =>
      dsimp only
      rcases encodeAnswer_localSignaling (C := C) (P := P) session with
        ⟨hs, blob, hblob⟩ | ⟨hs, e, he⟩
      · rw [hblob]
        have hs := hkeying.1 hs
        refine .inl ⟨hs, (hok hs).1 rfl, rfl, rfl, blob, (session.localSignaling C).candidates, ?_⟩
        exact List.append_assoc ..
      · rw [he]
        exact .inr ⟨fun h => hs (hkeying.2 h.1), ⟨e, rfl⟩, hr, rfl, rfl⟩

theorem accept_of_pendingOffer (ho : c.pendingOffer = none) :
    c.accept C P parseIp now ice = (c, .ok ()) := by
  rw [accept, ho]
  split_ifs <;> rfl

theorem accept_of_state (hr : c.state ≠ .ringing) :
    c.accept C P parseIp now ice = (c, .ok ()) :=
  if_pos hr

/-- Accepting is all or nothing if and only if the key in the offer has the right length and the
    checks start. -/
theorem allOrNothing_iff (hr : c.state = .ringing) :
    c.AllOrNothing (c.accept C P parseIp now ice) ↔
      c.session.transport.IsSignal ∧ c.Answerable ice := by
  by_cases ho : c.pendingOffer = none
  · rw [accept_of_pendingOffer ho]
    refine iff_of_false (fun h => ?_) fun ⟨_, offer, key, hoffer, _⟩ => ?_
    · rcases h with ⟨-, hs, -⟩ | ⟨⟨e, he⟩, -⟩
      · cases hr.symm.trans hs
      · cases he
    · cases ho.symm.trans hoffer
  · rcases accept_cases C P parseIp now ice hr ho with
      ⟨hs, hans, hok, hstate, blob, lines, hout⟩ | ⟨hn, ⟨e, he⟩, hstate, hoffer, hout⟩
    · refine iff_of_true (.inl ⟨hok, hstate, _, hout, ?_⟩) ⟨hs, hans⟩
      have hlines : (lines.map fun line => CallSignal.ice c.callId
          (encodeIceCandidate P line)).countP CallSignal.isAnswer = 0 := by
        rw [List.countP_map]
        exact List.countP_eq_zero.2 fun _ _ => Bool.false_ne_true
      rw [List.countP_cons, hlines]
      rfl
    · refine iff_of_false (fun h => ?_) hn
      rcases h with ⟨hok, -⟩ | ⟨-, -, -, hoffer', -⟩
      · cases he.symm.trans hok
      · exact ho (hoffer'.symm.trans hoffer)

/-- A call that rings is silent once its offer is gone. -/
theorem silent_iff : c.Silent C P parseIp ↔ c.state = .ringing ∧ c.pendingOffer = none := by
  refine and_congr_right fun hr => ⟨fun ⟨now, ice, hok, hout⟩ => ?_, fun ho => ⟨0, none, ?_⟩⟩
  · by_contra ho
    rcases accept_cases C P parseIp now ice hr ho with
      ⟨-, -, -, -, blob, lines, hout'⟩ | ⟨-, ⟨e, he⟩, -⟩
    · have hl := congrArg List.length (hout.symm.trans hout')
      rw [List.length_append, List.length_cons] at hl
      omega
    · cases he.symm.trans hok
  · rw [accept_of_pendingOffer ho]
    exact ⟨rfl, rfl⟩

/-! ## Runs -/

/-- What an app does with a call. -/
inductive Use
  | call (i : CallInput)
  | sendAccepted (a : SessionTimeout)
  | setVideoEnabled (enabled : Bool) (a : SessionTimeout)
  | setReceiveBitrate (bps : UInt32)
  | takePeerVideoToggle

/-- What a call becomes of it. -/
def use (C : Crypto Secret) (P : Prost) (parseIp : String → Option (String × Bool))
    (c : SignalCall Secret) : Use → SignalCall Secret
  | .call i => c.next C P parseIp i
  | .sendAccepted a => { c with session := (c.session.sendAccepted P c.callId a).1 }
  | .setVideoEnabled enabled a =>
    { c with session := c.session.setVideoEnabled P c.callId enabled a }
  | .setReceiveBitrate bps => { c with session := c.session.setReceiveBitrate bps }
  | .takePeerVideoToggle => { c with session := c.session.takePeerVideoToggle.1 }

/-- When a call that rings is accepted, its offer can be answered. -/
def AcceptsWell (c : SignalCall Secret) : Use → Prop
  | .call (.accept _ ice) => c.state = .ringing → c.Answerable ice
  | _ => True

/-- The session of a call is one of Signal. -/
def IsSignal (c : SignalCall Secret) : Prop := c.session.transport.IsSignal

theorem IsSignal.accept (h : c.IsSignal) : (c.accept C P parseIp now ice).1.IsSignal := by
  unfold SignalCall.accept
  split_ifs
  · exact h
  · cases c.pendingOffer with
    | none => exact h
    | some offer =>
      have hs : (c.session.setRemoteSignaling parseIp now offer ice).1.transport.IsSignal :=
        Transport.IsSignal.setRemote h
      dsimp only
      cases hset : c.session.setRemoteSignaling parseIp now offer ice with
      | mk session r =>
        rw [hset] at hs
        cases r with
        | error e => exact hs
        | ok =>
          dsimp only
          cases encodeAnswer P (session.localSignaling C) <;> exact hs

theorem IsSignal.onSignal (h : c.IsSignal) (sig : CallSignal) :
    (c.onSignal P parseIp now sig ice).1.IsSignal := by
  unfold SignalCall.onSignal
  split
  · exact h
  · cases sig with
    | answer id blob =>
      dsimp only
      split
      · cases decodeAnswer P blob with
        | error e => exact h
        | ok answer =>
          have hs : (c.session.setRemoteSignaling parseIp now answer ice).1.transport.IsSignal :=
            Transport.IsSignal.setRemote h
          dsimp only
          cases hset : c.session.setRemoteSignaling parseIp now answer ice with
          | mk session r =>
            rw [hset] at hs
            cases r <;> exact hs
      · exact h
    | ice id blob =>
      dsimp only
      cases decodeIceCandidate P blob with
      | error e => exact h
      | ok line =>
        cases line with
        | none => exact h
        | some line =>
          refine Transport.IsSignal.congr h ?_
          dsimp only [PeerSession.addRemoteCandidate]
          cases parseCandidateAddr parseIp line with
          | none => rfl
          | some addr => exact Transport.addRemoteCandidate_keying
    | _ => exact h

theorem IsSignal.handleTimeout (h : c.IsSignal) (a : SessionTimeout) :
    (c.handleTimeout C P now a).IsSignal := by
  obtain ⟨keys, mediaOut, ht⟩ := PeerSession.handleTimeout_transport (C := C) (P := P)
    (s := c.session) now a
  have hs : IsSignal { c with session := c.session.handleTimeout C P now a } := by
    refine (Transport.IsSignal.handleTimeout (C := C) h now a.toTimeoutAnswer).congr ?_
    exact (congrArg Transport.keying ht :)
  have htrickle : (trickle P { c with session := c.session.handleTimeout C P now a }).IsSignal := by
    unfold trickle
    split_ifs
    · exact hs
    · exact Transport.IsSignal.congr hs Transport.takeNewLocalCandidates_keying
  have hconnect : (trickle P
      { c with session := c.session.handleTimeout C P now a }).connect.IsSignal := by
    unfold connect
    split_ifs <;> exact htrickle
  unfold SignalCall.handleTimeout heedHangup
  dsimp only
  split_ifs <;> exact hconnect

theorem IsSignal.next (h : c.IsSignal) (i : CallInput) : (c.next C P parseIp i).IsSignal := by
  cases i with
  | accept now ice => exact h.accept
  | onSignal now sig ice => exact h.onSignal sig
  | hangup =>
    unfold SignalCall.next SignalCall.hangup
    dsimp only
    split_ifs <;> exact h
  | timeout now a => exact h.handleTimeout a
  | pollSignals => exact h
  | pollTransmit a =>
    unfold SignalCall.next SignalCall.pollTransmit
    dsimp only
    split_ifs
    · exact h
    · exact Transport.IsSignal.pollTransmit h a
  | datagram src data turn answer a =>
    obtain ⟨keys, ht⟩ := PeerSession.handleDatagram_transport (P := P) (s := c.session) src data
      turn answer a
    refine Transport.IsSignal.congr h ((congrArg Transport.keying ht).trans ?_)
    exact Transport.handleDatagram_keying

theorem IsSignal.use (h : c.IsSignal) (u : Use) : (c.use C P parseIp u).IsSignal := by
  have hsend (s : PeerSession Secret) (hs : s.transport = c.session.transport)
      (a : SessionTimeout) : (s.sendRtpDataState P a).1.transport.IsSignal := by
    obtain ⟨keys, mediaOut, ht⟩ := PeerSession.sendRtpDataState_transport (P := P) (s := s) a
    refine Transport.IsSignal.congr h ((congrArg Transport.keying ht).trans ?_)
    exact (congrArg Transport.keying hs :)
  cases u with
  | call i => exact h.next i
  | sendAccepted a =>
    exact hsend { c.session with rtpCallId := some c.callId, acceptedEngaged := true } rfl a
  | setVideoEnabled enabled a =>
    exact hsend { c.session with
      rtpCallId := some c.callId, videoEnabledLocal := some enabled } rfl a
  | setReceiveBitrate => exact h
  | takePeerVideoToggle => exact h

/-- Only accepting a call takes its offer. -/
theorem pendingOffer_next {i : CallInput} (hi : ∀ now ice, i ≠ .accept now ice) :
    (c.next C P parseIp i).pendingOffer = c.pendingOffer := by
  cases i with
  | accept now ice => exact absurd rfl (hi now ice)
  | onSignal now sig ice =>
    unfold next onSignal
    dsimp only
    repeat' (first | rfl | split)
  | hangup =>
    unfold next hangup
    dsimp only
    split_ifs <;> rfl
  | timeout now a =>
    unfold next handleTimeout heedHangup connect trickle
    dsimp only
    repeat' (first | rfl | split)
  | pollSignals => rfl
  | pollTransmit a =>
    unfold next pollTransmit
    dsimp only
    split_ifs <;> rfl
  | datagram => rfl

/-- A call that rings rang before. -/
theorem state_of_next {i : CallInput} (h : (c.next C P parseIp i).state = .ringing) :
    c.state = .ringing := by
  have hforward : c.state.Forward (c.next C P parseIp i).state := forward i
  rcases hforward with he | hlt
  · exact he.trans h
  · rw [h] at hlt
    exact absurd hlt (Nat.not_lt_zero _)

/-- What is not accepted is not silent afterwards if it was not before. -/
theorem silent_of_next {i : CallInput} (hi : ∀ now ice, i ≠ .accept now ice)
    (h : (c.next C P parseIp i).Silent C P parseIp) : c.Silent C P parseIp := by
  obtain ⟨hr, ho⟩ := silent_iff.1 h
  exact silent_iff.2 ⟨state_of_next hr, (pendingOffer_next hi).symm.trans ho⟩

theorem not_silent_use {u : Use} (hs : c.IsSignal) (h : ¬ c.Silent C P parseIp)
    (hu : c.AcceptsWell u) : ¬ (c.use C P parseIp u).Silent C P parseIp := by
  intro hsilent
  obtain ⟨hr, ho⟩ := silent_iff.1 hsilent
  cases u with
  | call i =>
    by_cases hi : ∃ now ice, i = .accept now ice
    · obtain ⟨now, ice, rfl⟩ := hi
      have hr' : c.state = .ringing := state_of_next (i := .accept now ice) hr
      have ho' : c.pendingOffer ≠ none := fun ho' => h (silent_iff.2 ⟨hr', ho'⟩)
      -- either the call does not ring any more, or its offer could not be answered
      rcases accept_cases C P parseIp now ice hr' ho' with ⟨-, -, -, hstate, -⟩ | ⟨hn, -⟩
      · cases hr.symm.trans hstate
      · exact hn ⟨hs, hu hr'⟩
    · exact h (silent_of_next (fun now ice he => hi ⟨now, ice, he⟩) hsilent)
  | _ => exact h (silent_iff.2 ⟨hr, ho⟩)

theorem silent_use {u : Use} (h : ¬ c.Silent C P parseIp) (hu : ¬ c.AcceptsWell u) :
    (c.use C P parseIp u).Silent C P parseIp := by
  cases u with
  | call i =>
    cases i with
    | accept now ice =>
      obtain ⟨hr, hn⟩ := Classical.not_imp.1 hu
      have ho : c.pendingOffer ≠ none := fun ho => h (silent_iff.2 ⟨hr, ho⟩)
      rcases accept_cases C P parseIp now ice hr ho with ⟨-, hans, -⟩ | ⟨-, -, hstate, hoffer, -⟩
      · exact absurd hans hn
      · exact silent_iff.2 ⟨hstate, hoffer⟩
    | _ => exact absurd trivial hu
  | _ => exact absurd trivial hu

theorem goes_iff (hs : c.IsSignal) (h : ¬ c.Silent C P parseIp) (us : List Use) :
    Machine.Goes (use C P parseIp) AcceptsWell c us ↔
      ∀ vs, vs <+: us → ¬ (vs.foldl (use C P parseIp) c).Silent C P parseIp := by
  induction us generalizing c with
  | nil => exact iff_of_true trivial fun vs hvs => List.prefix_nil.1 hvs ▸ h
  | cons u us ih =>
    by_cases hu : c.AcceptsWell u
    · rw [Machine.Goes, and_iff_right hu, ih (hs.use u) (not_silent_use hs h hu)]
      refine ⟨fun hall vs hvs => ?_,
        fun hall vs hvs => hall (u :: vs) ((List.prefix_cons_inj u).2 hvs)⟩
      rcases List.prefix_cons_iff.1 hvs with rfl | ⟨vs', rfl, hvs'⟩
      · exact h
      · exact hall vs' hvs'
    · refine iff_of_false (fun hgoes => hu hgoes.1) fun hall => ?_
      exact hall [u] (List.prefix_append [u] us) (silent_use h hu)

theorem Begun.isSignal {role : CallRole} (h : Begun C P role c) : c.IsSignal := by
  cases h with
  | place h =>
    unfold SignalCall.place at h
    dsimp only at h
    split at h
    · cases h
    · cases h
      exact ⟨_, rfl⟩
  | incoming h =>
    unfold SignalCall.incoming at h
    dsimp only at h
    split at h
    · cases h
    · cases h
      exact ⟨_, rfl⟩

theorem Begun.not_silent {role : CallRole} (h : Begun C P role c) :
    ¬ c.Silent C P parseIp := by
  intro hsilent
  obtain ⟨hr, ho⟩ := silent_iff.1 hsilent
  cases h with
  | place h =>
    unfold SignalCall.place at h
    dsimp only at h
    split at h
    · cases h
    · cases h
      cases hr
  | incoming h =>
    unfold SignalCall.incoming at h
    dsimp only at h
    split at h
    · cases h
    · cases h
      cases ho

theorem IsSignal.run (h : c.IsSignal) (us : List Use) :
    (us.foldl (SignalCall.use C P parseIp) c).IsSignal := by
  induction us generalizing c with
  | nil => exact h
  | cons u us ih => exact ih (h.use u)

/-- In a run of a call: accepting it while it rings is all or nothing if and only if its offer can
    be answered, and there is no moment at which it rings and accepting it silently does nothing if
    and only if its offer can be answered each time it is accepted. -/
theorem accept_of_run {role : CallRole} (h : Begun C P role c) (us : List Use) :
    (∀ now ice, (us.foldl (use C P parseIp) c).state = .ringing →
      ((us.foldl (use C P parseIp) c).AllOrNothing
        ((us.foldl (use C P parseIp) c).accept C P parseIp now ice) ↔
          (us.foldl (use C P parseIp) c).Answerable ice)) ∧
    ((∀ vs, vs <+: us → ¬ (vs.foldl (use C P parseIp) c).Silent C P parseIp) ↔
      Machine.Goes (use C P parseIp) AcceptsWell c us) := by
  refine ⟨fun now ice hr => ?_, (goes_iff h.isSignal h.not_silent us).symm⟩
  exact (allOrNothing_iff hr).trans (and_iff_right (h.isSignal.run us))

/-- The library of protocol buffers at an offer without a key, and at one with a key. -/
def offering : Prost :=
  { sampleProst with
    offer := {
      encode _ := []
      decode b :=
        if b = [0x22, 0x00] then some { v4 := some {} }
        else if b = [0x22, 0x22, 0x0A, 0x20] ++ (sampleCrypto.publicKey false).1 then
          some { v4 := some { publicKey := some (sampleCrypto.publicKey false) } }
        else none } }

/-- A call that came in, with the key in its offer. -/
def ringing (publicKey : Option (List UInt8)) : SignalCall Bool where
  callId := 7
  state := .ringing
  session := PeerSession.answering
  pendingOffer := some (paramsInto { publicKey })

theorem begun_ringing :
    Begun sampleCrypto offering .answerer (ringing (some (sampleCrypto.publicKey false))) ∧
      Begun sampleCrypto offering .answerer (ringing none) := by
  have hcomes (blob : List UInt8) {c : SignalCall Bool} (h : incoming offering 7
      ⟨"192.168.1.2", true, 40000⟩ "abcdefgh" "abcdefghijklmnopqrstuvwx" true
      ((List.range 32).map UInt8.ofNat) ((List.range' 32 32).map UInt8.ofNat) blob none = .ok c) :
      Begun sampleCrypto offering .answerer c := .incoming h
  exact ⟨hcomes ([0x22, 0x22, 0x0A, 0x20] ++ (sampleCrypto.publicKey false).1) rfl,
    hcomes [0x22, 0x00] rfl⟩

/-- A call with a key in its offer is accepted. -/
theorem accept_of_run_answered :
    ¬ ((ringing (some (sampleCrypto.publicKey false))).use sampleCrypto offering (fun _ => none)
      (.call (.accept 0 (some {})))).Silent sampleCrypto offering fun _ => none :=
  (accept_of_run begun_ringing.1 [.call (.accept 0 (some {}))]).2.2
    ⟨fun _ => ⟨_, _, rfl, rfl, (sampleCrypto.publicKey false).2, Option.some_ne_none _⟩, trivial⟩
    _ List.prefix_rfl

/-- A call without a key in its offer fails when it is accepted, and goes on to ring without a
    way to accept it. -/
theorem accepted_in_vain :
    ¬ (ringing none).AllOrNothing
        ((ringing none).accept sampleCrypto offering (fun _ => none) 0 (some {})) ∧
      ((ringing none).use sampleCrypto offering (fun _ => none)
        (.call (.accept 0 (some {})))).Silent sampleCrypto offering fun _ => none := by
  have hn : ¬ (ringing none).Answerable (some {}) := by
    rintro ⟨offer, key, ho, hk, -⟩
    cases ho
    cases hk
  refine ⟨fun h => hn ((allOrNothing_iff rfl).1 h).2, ?_⟩
  exact silent_use begun_ringing.2.not_silent fun h => hn (h rfl)

end SignalCall

end Wandr
