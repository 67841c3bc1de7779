import Wandr.Call.Session

/-!
# The state of the other end

The messages of the other end are numbered, and each tells all of its state that there is
to tell. The network may deliver them in any order, some more than once and others never.
The session does not look at the numbers: it keeps what the last message told.

* `PeerSession.newest_iff`: in a run, the session always knows the newest state it was told,
  if and only if each message that comes after a newer one tells the same as the newest;
* `PeerSession.camera_off_again` is a run in which an older message comes late.
-/

namespace Wandr

/-- What happens to a session. -/
inductive SessionInput
  | setRemoteSignaling (now : Nat) (remote : Signaling) (ice : Option Agent)
  | addRemoteCandidate (candidate : String) (ice : Option Agent)
  | takeNewLocalCandidates
  | datagram (src : SocketAddr) (data : List UInt8) (turn : List TurnEvent)
    (answer : Nat → ReadAnswer) (a : MediaAnswer)
  | timeout (now : Nat) (a : SessionTimeout)
  | poll (a : PollAnswer)
  | sendAccepted (callId : UInt64) (a : SessionTimeout)
  | setVideoEnabled (callId : UInt64) (enabled : Bool) (a : SessionTimeout)
  | setReceiveBitrate (bps : UInt32)
  | takePeerVideoToggle
  | takePeerRtpHangup

/-! ## What was told -/

namespace RtpDataState

/-- The number of a message. -/
def number (m : RtpDataState) : Nat := (m.seqnum.map UInt64.toNat).getD 0

variable {α : Type} {f : RtpDataState → Option α} {D : List RtpDataState} {m : RtpDataState}
  {x : Option α}

/-- A message that tells something is the newest of those that do. -/
def IsNewest (f : RtpDataState → Option α) (D : List RtpDataState) (m : RtpDataState) : Prop :=
  m ∈ D ∧ (f m).isSome ∧ ∀ m' ∈ D, (f m').isSome → m'.number ≤ m.number

/-- What the newest message told of those that told something. -/
def Newest (f : RtpDataState → Option α) (D : List RtpDataState) (x : Option α) : Prop :=
  (x = none ∧ ∀ m ∈ D, f m = none) ∨ ∃ m, IsNewest f D m ∧ f m = x

/-- A message that comes after a newer one tells the same as the newest. -/
def InTurn (f : RtpDataState → Option α) (D : List RtpDataState) (m : RtpDataState) : Prop :=
  (f m).isSome → ∀ m', IsNewest f D m' → m.number < m'.number → f m' = f m

/-- A message that tells nothing changes nothing. -/
theorem newest_concat_of_none (hf : f m = none) (h : Newest f D x) : Newest f (D ++ [m]) x := by
  have hm {m'} (h' : m' ∈ D ++ [m]) (hs : (f m').isSome) : m' ∈ D := by
    rcases List.mem_append.1 h' with h' | h'
    · exact h'
    · rw [List.mem_singleton.1 h', hf] at hs
      exact absurd hs Bool.false_ne_true
  rcases h with ⟨hx, hn⟩ | ⟨m', ⟨hm', hs, hle⟩, hx⟩
  · refine .inl ⟨hx, fun m' h' => ?_⟩
    rcases List.mem_append.1 h' with h' | h'
    · exact hn m' h'
    · rw [List.mem_singleton.1 h', hf]
  · exact .inr ⟨m', ⟨List.mem_append_left _ hm', hs,
      fun m'' h'' hs'' => hle m'' (hm h'' hs'') hs''⟩, hx⟩

/-- The last message told what the newest one did just when it came in turn. -/
theorem newest_concat_iff (hD : ∀ m' ∈ D, ∀ m'' ∈ D, m'.number = m''.number → m' = m'')
    (h : Newest f D x) : Newest f (D ++ [m]) ((f m).or x) ↔ InTurn f D m := by
  cases hf : f m with
  | none => exact iff_of_true (newest_concat_of_none hf h) fun hs => by simp [hf] at hs
  | some v =>
    rw [Option.some_or]
    have hmem : m ∈ D ++ [m] := List.mem_append_right _ (List.mem_singleton_self m)
    constructor
    · rintro (⟨hv, -⟩ | ⟨m₁, ⟨hm₁, hs₁, hle₁⟩, hv⟩) - m' ⟨hm', hs', hle'⟩ hlt
      · cases hv
      · -- the newest of all is not the last one, which is older than `m'`
        have h₁ := hle₁ m' (List.mem_append_left _ hm') hs'
        rcases List.mem_append.1 hm₁ with hm₁ | hm₁
        · have h₂ := hle' m₁ hm₁ hs₁
          rw [hD m' hm' m₁ hm₁ (by omega), hv, hf]
        · rw [List.mem_singleton.1 hm₁] at h₁
          omega
    · intro hin
      have hself (hle : ∀ m' ∈ D, (f m').isSome → m'.number ≤ m.number) :
          Newest f (D ++ [m]) (some v) := by
        refine .inr ⟨m, ⟨hmem, by rw [hf]; rfl, fun m' h' hs' => ?_⟩, hf⟩
        rcases List.mem_append.1 h' with h' | h'
        · exact hle m' h' hs'
        · rw [List.mem_singleton.1 h']
      rcases h with ⟨-, hn⟩ | ⟨m', ⟨hm', hs', hle'⟩, -⟩
      · exact hself fun m' h' hs' => by simp [hn m' h'] at hs'
      · rcases Nat.lt_or_ge m.number m'.number with hlt | hge
        · have hv := hin (by rw [hf]; rfl) m' ⟨hm', hs', hle'⟩ hlt
          refine .inr ⟨m', ⟨List.mem_append_left _ hm', hs', fun m'' h'' hs'' => ?_⟩, hv.trans hf⟩
          rcases List.mem_append.1 h'' with h'' | h''
          · exact hle' m'' h'' hs''
          · rw [List.mem_singleton.1 h'']
            omega
        · exact hself fun m'' h'' hs'' => (hle' m'' h'' hs'').trans hge

end RtpDataState

/-! ## One input -/

namespace VideoStream

variable {v : VideoStream} {pkt : Packet}

/-- A receiver goes on with the payload type it was made for. -/
theorem handleRtp_pt {depacketize : List UInt8 → Option Vp8Packet} :
    (v.handleRtp depacketize pkt).pt = v.pt := by
  have hp : (v.passOver pkt).pt = v.pt := by
    unfold passOver
    repeat' (first | rfl | split | dsimp only)
  have hv (payload : List UInt8) : (v.handleVp8 depacketize pkt payload).pt = v.pt := by
    unfold handleVp8
    split
    · rfl
    · split
      · rfl
      · exact assemble_tracks.1
  unfold handleRtp
  split
  · rfl
  · split
    · exact hv _
    · split
      · exact hp
      · rfl

end VideoStream

namespace MediaSession

variable {m : MediaSession} {a : MediaAnswer}

/-- Media as it is between packets: the video is VP8, and no message is left. -/
def Sound (m : MediaSession) : Prop :=
  m.rtpDataIn = [] ∧ ∀ v, m.video = some v → v.pt = vp8PayloadType

/-- The payload of a message in an answer. -/
def payloadOf (a : MediaAnswer) : Option (List UInt8) :=
  match a.decrypted with
  | .ok pkt => if isRtpData pkt then some pkt.payload else none
  | .error _ => none

theorem isVideo_eq_false (h : m.Sound) {pkt : Packet} (hd : isRtpData pkt) :
    m.isVideo pkt = false := by
  simp only [isRtpData, Bool.decide_and, Bool.and_eq_true, decide_eq_true_eq] at hd
  unfold isVideo
  cases hv : m.video with
  | none => rfl
  | some v =>
    rw [Option.any_some, h.2 v hv, hd.1]
    decide

/-- The message in a packet is what is left after it. -/
theorem recv_rtpDataIn (h : m.Sound) : (m.recv a).1.rtpDataIn = (payloadOf a).toList := by
  unfold recv payloadOf
  cases a.decrypted with
  | error e => exact h.1
  | ok pkt =>
    dsimp only
    have hs : Sound { m with
        twcc := pkt.extensions.foldl (recordExtension pkt.ssrc a.now) m.twcc } := h
    cases hd : isRtpData pkt with
    | true =>
      rw [isVideo_eq_false hs hd, if_neg Bool.false_ne_true, if_pos rfl, if_pos rfl]
      simp [h.1]
    | false =>
      rw [if_neg Bool.false_ne_true, if_neg Bool.false_ne_true]
      split
      · exact h.1
      · split <;> exact h.1

theorem recv_video (h : m.Sound) :
    ∀ v, (m.recv a).1.video = some v → v.pt = vp8PayloadType := by
  intro v hv
  unfold recv at hv
  cases hd : a.decrypted with
  | error e =>
    rw [hd] at hv
    exact h.2 v hv
  | ok pkt =>
    rw [hd] at hv
    dsimp only at hv
    split at hv
    · obtain ⟨v', hv', rfl⟩ := Option.map_eq_some_iff.1 hv
      rw [VideoStream.handleRtp_pt, h.2 v' hv']
    · split at hv
      · exact h.2 v hv
      · split at hv <;> exact h.2 v hv

end MediaSession

namespace PeerSession

variable {Secret : Type} {C : Crypto Secret} {P : Prost}
  {parseIp : String → Option (String × Bool)} {s : PeerSession Secret}

/-- What a session knows of the other end. -/
def heard (s : PeerSession Secret) : Option Bool × Option UInt64 :=
  (s.peerVideoEnabled, s.peerMaxBitrate)

/-- What is known after a message. -/
def tell (h : Option Bool × Option UInt64) (st : Option RtpDataState) :
    Option Bool × Option UInt64 :=
  ((st.bind (·.videoEnabled)).or h.1, (st.bind (·.maxBitrateBps)).or h.2)

/-- A session between inputs: no message is left. -/
def Sound (s : PeerSession Secret) : Prop := ∀ m, s.media = some m → m.Sound

/-- Whether there is media, or it can be started. -/
def keyed (s : PeerSession Secret) (made : Except CallError Unit) : Bool :=
  s.media.isSome || s.transport.keys.isSome && made.toBool

/-- The payload of the message that an input delivers. -/
def payloadOf (s : PeerSession Secret) : SessionInput → Option (List UInt8)
  | .datagram src data turn answer a =>
    match s.transport.handleDatagram src data turn answer with
    | (transport, .ok (.media srtp)) =>
      if isRtcp srtp ∨ ¬ { s with transport }.keyed a.made then none else MediaSession.payloadOf a
    | _ => none
  | _ => none

/-- What a session becomes of an input. -/
def next (C : Crypto Secret) (P : Prost) (parseIp : String → Option (String × Bool))
    (s : PeerSession Secret) : SessionInput → PeerSession Secret
  | .setRemoteSignaling now remote ice => (s.setRemoteSignaling parseIp now remote ice).1
  | .addRemoteCandidate candidate ice => (s.addRemoteCandidate parseIp candidate ice).1
  | .takeNewLocalCandidates => s.takeNewLocalCandidates.1
  | .datagram src data turn answer a => (s.handleDatagram P src data turn answer a).1
  | .timeout now a => s.handleTimeout C P now a
  | .poll a => (s.pollTransmit C a).1
  | .sendAccepted callId a => (s.sendAccepted P callId a).1
  | .setVideoEnabled callId enabled a => s.setVideoEnabled P callId enabled a
  | .setReceiveBitrate bps => s.setReceiveBitrate bps
  | .takePeerVideoToggle => s.takePeerVideoToggle.1
  | .takePeerRtpHangup => s.takePeerRtpHangup.1

theorem onRtpData_heard {b : List UInt8} :
    (s.onRtpData P b).heard = tell s.heard (decodeRtpData P b) ∧
      (s.onRtpData P b).media = s.media := by
  unfold onRtpData
  cases decodeRtpData P b with
  | none => exact ⟨rfl, rfl⟩
  | some st =>
    obtain ⟨v, bps, hangup, n⟩ := st
    cases v <;> cases bps <;> cases hangup <;> exact ⟨rfl, rfl⟩

theorem ensureMedia_spec (h : s.Sound) (made : Except CallError Unit) (now : Nat) :
    (s.ensureMedia made now).1.Sound ∧ (s.ensureMedia made now).1.heard = s.heard ∧
      ((s.ensureMedia made now).2.toBool →
        (s.ensureMedia made now).1.media.isSome = s.keyed made) ∧
      (¬ (s.ensureMedia made now).2.toBool → s.keyed made = false) := by
  cases hm : s.media.isSome with
  | true =>
    have he : s.ensureMedia made now = (s, .ok ()) := if_pos hm
    rw [he, keyed, hm]
    exact ⟨h, rfl, fun _ => rfl, fun hn => absurd rfl hn⟩
  | false =>
    rw [keyed, hm, ensureMedia, if_neg (by simp [hm])]
    cases s.transport.keys with
    | none => exact ⟨h, rfl, fun _ => hm, fun hn => absurd rfl hn⟩
    | some keys =>
      cases made with
      | error e => exact ⟨h, rfl, nofun, fun _ => rfl⟩
      | ok u =>
        refine ⟨fun m hm' => ?_, rfl, fun _ => rfl, fun hn => absurd rfl hn⟩
        cases hm'
        exact ⟨rfl, fun v hv => by cases hv; rfl⟩

theorem handleMedia_spec {m : MediaSession} (h : m.Sound) (a : MediaAnswer) :
    (s.handleMedia P m a).Sound ∧
      (s.handleMedia P m a).heard =
        tell s.heard ((MediaSession.payloadOf a).bind (decodeRtpData P)) := by
  have hfold (l : List (List UInt8)) (s : PeerSession Secret) :
      (l.foldl (onRtpData P) s).media = s.media := by
    induction l generalizing s with
    | nil => rfl
    | cons b l ih => rw [List.foldl_cons, ih, onRtpData_heard.2]
  unfold handleMedia
  dsimp only
  constructor
  · intro m' hm'
    rw [hfold] at hm'
    cases hm'
    refine ⟨rfl, fun v hv => ?_⟩
    obtain ⟨v', hv', rfl⟩ := Option.map_eq_some_iff.1 hv
    exact MediaSession.recv_video h v' hv'
  · rw [MediaSession.recv_rtpDataIn h]
    cases MediaSession.payloadOf a with
    | none =>
      rw [Option.toList_none, List.foldl_nil]
      split <;> rfl
    | some b =>
      rw [Option.toList_some, List.foldl_cons, List.foldl_nil, onRtpData_heard.1]
      split <;> rfl

/-- After a datagram the session knows what the message in it told. -/
theorem handleDatagram_spec (h : s.Sound) (src : SocketAddr) (data : List UInt8)
    (turn : List TurnEvent) (answer : Nat → ReadAnswer) (a : MediaAnswer) :
    (s.handleDatagram P src data turn answer a).1.Sound ∧
      (s.handleDatagram P src data turn answer a).1.heard =
        tell s.heard ((s.payloadOf (.datagram src data turn answer a)).bind (decodeRtpData P)) := by
  unfold handleDatagram payloadOf
  dsimp only
  obtain ⟨transport, r⟩ := s.transport.handleDatagram src data turn answer
  rcases r with e | (_ | srtp)
  · exact ⟨h, rfl⟩
  · exact ⟨h, rfl⟩
  · obtain ⟨hs, hh, hok, herr⟩ := ensureMedia_spec
      (s := { s with transport, mediaSeen := s.mediaSeen + 1 }) h a.made a.now
    have hk : keyed { s with transport, mediaSeen := s.mediaSeen + 1 } a.made =
      keyed { s with transport } a.made := rfl
    rw [hk] at hok herr
    dsimp only
    split
    · next s' e he =>
      rw [he] at hs hh herr
      have hf := herr Bool.false_ne_true
      rw [if_pos (.inr (by rw [hf]; exact Bool.false_ne_true))]
      exact ⟨hs, hh⟩
    · next s' he =>
      rw [he] at hs hh hok
      cases hr : isRtcp srtp with
      | true => exact ⟨hs, hh⟩
      | false =>
        rw [if_neg Bool.false_ne_true, ← hok rfl]
        dsimp only
        cases hm : s'.media with
        | none => exact ⟨hs, hh⟩
        | some m =>
          obtain ⟨hs', hh'⟩ := handleMedia_spec (P := P) (s := s') (hs m hm) a
          refine ⟨hs', hh'.trans ?_⟩
          rw [hh]
          rfl

theorem queueMedia_foldl (l : List (List UInt8)) :
    (l.foldl queueMedia s).media = s.media ∧ (l.foldl queueMedia s).heard = s.heard := by
  induction l generalizing s with
  | nil => exact ⟨rfl, rfl⟩
  | cons dg l ih => exact ih

theorem sendRtpDataState_spec (h : s.Sound) (a : SessionTimeout) :
    (s.sendRtpDataState P a).1.Sound ∧ (s.sendRtpDataState P a).1.heard = s.heard := by
  unfold sendRtpDataState
  cases s.rtpCallId with
  | none => exact ⟨h, rfl⟩
  | some callId =>
    obtain ⟨hs, hh, -, -⟩ := ensureMedia_spec h a.made a.sentAt
    dsimp only
    split
    · next he =>
      rw [he] at hs hh
      exact ⟨hs, hh⟩
    · next s' he =>
      rw [he] at hs hh
      cases hm : s'.media with
      | none => exact ⟨fun m hm' => hs m (hm.trans hm'), hh⟩
      | some m =>
        have hs' (n : UInt32) : Sound { s' with media := some { m with dataCtr := n } } := by
          rintro m' hm'
          cases hm'
          exact hs m hm
        dsimp only
        split
        · exact ⟨hs' _, hh⟩
        · exact ⟨hs' _, hh⟩

theorem pumpRtcp_spec (h : s.Sound) (reports : List (List UInt8)) :
    (s.pumpRtcp reports).Sound ∧ (s.pumpRtcp reports).heard = s.heard := by
  unfold pumpRtcp
  split
  · obtain ⟨hm, hh⟩ := queueMedia_foldl (s := s) reports
    exact ⟨fun m hm' => h m (hm.symm.trans hm'), hh⟩
  · exact ⟨h, rfl⟩

theorem resendRtpDataState_spec (h : s.Sound) (now : Nat) (a : SessionTimeout) :
    (s.resendRtpDataState P now a).Sound ∧
      (s.resendRtpDataState P now a).heard = s.heard := by
  unfold resendRtpDataState
  split
  · exact sendRtpDataState_spec h a
  · exact ⟨h, rfl⟩

theorem handleTimeout_spec (h : s.Sound) (now : Nat) (a : SessionTimeout) :
    (s.handleTimeout C P now a).Sound ∧ (s.handleTimeout C P now a).heard = s.heard := by
  obtain ⟨hs, hh, -, -⟩ := ensureMedia_spec
    (s := { s with transport := s.transport.handleTimeout C now a.toTimeoutAnswer }) h a.made now
  obtain ⟨hs, hh'⟩ := pumpRtcp_spec hs a.reports
  obtain ⟨hs, hh''⟩ := resendRtpDataState_spec (P := P) hs now a
  exact ⟨hs, hh''.trans (hh'.trans hh)⟩

variable (parseIp) in
/-- After an input the session knows what the message in it told. -/
theorem next_spec (h : s.Sound) (i : SessionInput) : (s.next C P parseIp i).Sound ∧
    (s.next C P parseIp i).heard = tell s.heard ((s.payloadOf i).bind (decodeRtpData P)) := by
  cases i with
  | datagram src data turn answer a => exact handleDatagram_spec h src data turn answer a
  | timeout now a => exact handleTimeout_spec h now a
  | sendAccepted callId a =>
    exact sendRtpDataState_spec
      (s := { s with rtpCallId := some callId, acceptedEngaged := true }) h a
  | setVideoEnabled callId enabled a =>
    exact sendRtpDataState_spec
      (s := { s with rtpCallId := some callId, videoEnabledLocal := some enabled }) h a
  | addRemoteCandidate candidate ice =>
    rw [next, addRemoteCandidate]
    split <;> exact ⟨h, rfl⟩
  | _ => exact ⟨h, rfl⟩

/-! ## Runs -/

/-- The sessions before anything happened to them. -/
inductive Made : PeerSession Secret → Prop
  | new (role : CallRole) (localAddr : SocketAddr) (fingerprint : String) :
    Made (.new role localAddr fingerprint)
  | newSignal (role : CallRole) (localAddr : SocketAddr) (ufrag pwd : String) (secret : Secret)
    (callerIdentity calleeIdentity : List UInt8) (turn : Option SocketAddr) :
    Made (.newSignal role localAddr ufrag pwd secret callerIdentity calleeIdentity turn)

/-- The message that an input delivers. -/
def delivered (P : Prost) (s : PeerSession Secret) (i : SessionInput) : Option RtpDataState :=
  (s.payloadOf i).bind (decodeRtpData P)

/-- The session, and the messages delivered to it. -/
def watch (C : Crypto Secret) (P : Prost) (parseIp : String → Option (String × Bool))
    (s : PeerSession Secret × List RtpDataState) (i : SessionInput) :
    PeerSession Secret × List RtpDataState :=
  (s.1.next C P parseIp i, s.2 ++ (s.1.delivered P i).toList)

/-- The session knows the newest that it was told. -/
def Current (s : PeerSession Secret × List RtpDataState) : Prop :=
  RtpDataState.Newest (·.videoEnabled) s.2 s.1.peerVideoEnabled ∧
    RtpDataState.Newest (·.maxBitrateBps) s.2 s.1.peerMaxBitrate

/-- The message that an input delivers, if it comes after a newer one, tells the same as the
    newest. -/
def Ordered (P : Prost) (s : PeerSession Secret × List RtpDataState) (i : SessionInput) : Prop :=
  ∀ m, s.1.delivered P i = some m →
    RtpDataState.InTurn (·.videoEnabled) s.2 m ∧ RtpDataState.InTurn (·.maxBitrateBps) s.2 m

/-- A message that is delivered was sent by the other end. -/
def Authentic (P : Prost) (sent : List RtpDataMessage)
    (s : PeerSession Secret × List RtpDataState) (i : SessionInput) : Prop :=
  ∀ b, s.1.payloadOf i = some b → ∃ m ∈ sent, b = P.rtpData.encode m

/-- In a run of a session to which the messages of the other end, each with a greater number
    than the one before, are delivered in any order, the session knows the newest that it was
    told after each input, if and only if each message that comes after a newer one tells the
    same as the newest. -/
theorem newest_iff {sent : List RtpDataMessage}
    (hsent : sent.Pairwise fun m m' => m.state.number < m'.state.number)
    (hcodec : ∀ m ∈ sent, P.rtpData.decode (P.rtpData.encode m) = some m)
    {s₀ : PeerSession Secret} (h₀ : Made s₀) (is : List SessionInput)
    (hauth : Machine.Goes (watch C P parseIp) (Authentic P sent) (s₀, []) is) :
    Machine.Goes (watch C P parseIp) (fun s i => Current (watch C P parseIp s i)) (s₀, []) is ↔
      Machine.Goes (watch C P parseIp) (Ordered P) (s₀, []) is := by
  have hinj : ∀ m ∈ sent, ∀ m' ∈ sent, m.state.number = m'.state.number → m = m' :=
    fun m hm m' hm' => List.Pairwise.forall_of_forall_of_flip
      (R := fun a b => a.state.number = b.state.number → a = b) (fun _ _ _ => rfl)
      (hsent.imp fun hlt he => absurd he hlt.ne) (hsent.imp fun hlt he => absurd he hlt.ne') hm hm'
  have hinj' (D : List RtpDataState) (hD : ∀ m ∈ D, m ∈ sent.map (·.state)) :
      ∀ m ∈ D, ∀ m' ∈ D, m.number = m'.number → m = m' := by
    intro m hm m' hm' he
    obtain ⟨a, ha, rfl⟩ := List.mem_map.1 (hD m hm)
    obtain ⟨a', ha', rfl⟩ := List.mem_map.1 (hD m' hm')
    rw [hinj a ha a' ha' he]
  suffices hs : ∀ s : PeerSession Secret × List RtpDataState, s.1.Sound → Current s →
      (∀ m ∈ s.2, m ∈ sent.map (·.state)) →
      Machine.Goes (watch C P parseIp) (Authentic P sent) s is →
      (Machine.Goes (watch C P parseIp) (fun s i => Current (watch C P parseIp s i)) s is ↔
        Machine.Goes (watch C P parseIp) (Ordered P) s is) by
    have hempty {α : Type} (f : RtpDataState → Option α) : RtpDataState.Newest f [] none :=
      .inl ⟨rfl, fun m hm => nomatch hm⟩
    refine hs _ ?_ ?_ (fun m hm => nomatch hm) hauth
    · cases h₀ <;> exact fun m hm => nomatch hm
    · cases h₀ <;> exact ⟨hempty _, hempty _⟩
  clear hauth
  induction is with
  | nil => exact fun _ _ _ _ _ => Iff.rfl
  | cons i is ih =>
    rintro ⟨s, D⟩ hs hc hD ⟨ha, hauth⟩
    obtain ⟨hs', hh⟩ := next_spec (C := C) (P := P) parseIp hs i
    have hv : (s.next C P parseIp i).peerVideoEnabled =
      ((s.delivered P i).bind (·.videoEnabled)).or s.peerVideoEnabled := congrArg Prod.fst hh
    have hb : (s.next C P parseIp i).peerMaxBitrate =
      ((s.delivered P i).bind (·.maxBitrateBps)).or s.peerMaxBitrate := congrArg Prod.snd hh
    have hsent' : ∀ m, s.delivered P i = some m → m ∈ sent.map (·.state) := by
      intro m hm
      obtain ⟨b, hb, hm⟩ := Option.bind_eq_some_iff.1 hm
      obtain ⟨m', hm', rfl⟩ := ha b hb
      rw [decodeRtpData, hcodec m' hm', Option.map_some, Option.some.injEq] at hm
      exact hm ▸ List.mem_map_of_mem hm'
    have hiff : Current (watch C P parseIp (s, D) i) ↔ Ordered P (s, D) i := by
      unfold Current Ordered watch
      dsimp only
      rw [hv, hb]
      cases s.delivered P i with
      | none =>
        rw [Option.toList_none, List.append_nil]
        exact iff_of_true hc nofun
      | some m =>
        rw [Option.toList_some, Option.bind_some, Option.bind_some,
          RtpDataState.newest_concat_iff (hinj' D hD) hc.1,
          RtpDataState.newest_concat_iff (hinj' D hD) hc.2]
        exact ⟨fun h m' hm' => Option.some.inj hm' ▸ h, fun h => h m rfl⟩
    have hD' : ∀ m ∈ (watch C P parseIp (s, D) i).2, m ∈ sent.map (·.state) := by
      intro m hm
      rcases List.mem_append.1 hm with hm | hm
      · exact hD m hm
      · exact hsent' m (Option.mem_toList.1 hm)
    exact ⟨fun h => ⟨hiff.1 h.1, (ih _ hs' h.1 hD' hauth).1 h.2⟩,
      fun h => ⟨hiff.2 h.1, (ih _ hs' (hiff.2 h.1) hD' hauth).2 h.2⟩⟩

end PeerSession

/-! ## A late message -/

/-- A message that tells whether a camera is on. -/
def cameraMessage (seqnum : UInt64) (on : Bool) : RtpDataMessage where
  senderStatus := some { id := some 1, videoEnabled := some on }
  seqnum := some seqnum

/-- The bytes of the message. -/
def cameraBytes (seqnum : UInt8) (on : Bool) : List UInt8 :=
  [0x1A, 4, 0x08, 1, 0x10, if on then 1 else 0, 0x20, seqnum]

/-- The library of protocol buffers at two messages, the first with the camera off and the
    second with it on. -/
def sampleProst : Prost where
  offer := ⟨fun _ => [], fun _ => none⟩
  answer := ⟨fun _ => [], fun _ => none⟩
  ice := ⟨fun _ => [], fun _ => none⟩
  rtpData := {
    encode m :=
      if m = cameraMessage 1 false then cameraBytes 1 false
      else if m = cameraMessage 2 true then cameraBytes 2 true
      else []
    decode b :=
      if b = cameraBytes 1 false then some (cameraMessage 1 false)
      else if b = cameraBytes 2 true then some (cameraMessage 2 true)
      else none }

namespace PeerSession

/-- The session of a callee. -/
def answering : PeerSession Bool :=
  .newSignal .answerer ⟨"192.168.1.2", true, 40000⟩ "abcdefgh" "abcdefghijklmnopqrstuvwx" true
    ((List.range 32).map UInt8.ofNat) ((List.range' 32 32).map UInt8.ofNat) none

/-- The callee connects. -/
def connecting : List SessionInput :=
  [.setRemoteSignaling 0 { publicKey := some (sampleCrypto.publicKey false) } (some {}),
    .timeout 0 { ice := {
      connected := true
      selected := some (⟨"192.168.1.2", true, 40000⟩, ⟨"192.168.1.3", true, 5000⟩) } }]

/-- A message comes in. -/
def cameraInput (seqnum : UInt8) (on : Bool) : SessionInput :=
  .datagram ⟨"192.168.1.3", true, 5000⟩ [0x80, 101] [] (fun _ => { ice := {} })
    { decrypted := .ok {
        payloadType := 101
        sequenceNumber := seqnum.toUInt16
        timestamp := seqnum.toUInt32
        ssrc := 0xD
        marker := false
        payload := cameraBytes seqnum on } }

/-- The callee, and the messages delivered to it. -/
abbrev sampleWatch : PeerSession Bool × List RtpDataState → SessionInput →
    PeerSession Bool × List RtpDataState :=
  watch sampleCrypto sampleProst fun _ => none

theorem authentic_sample {s : PeerSession Bool × List RtpDataState} {seqnum : UInt8} {on : Bool}
    (h : s.1.payloadOf (cameraInput seqnum on) = some (cameraBytes seqnum on))
    (hm : cameraBytes seqnum on = cameraBytes 1 false ∨
      cameraBytes seqnum on = cameraBytes 2 true) :
    Authentic sampleProst [cameraMessage 1 false, cameraMessage 2 true] s
      (cameraInput seqnum on) := by
  intro b hb
  cases h.symm.trans hb
  rcases hm with hm | hm
  · exact ⟨cameraMessage 1 false, by simp, hm.trans (by decide)⟩
  · exact ⟨cameraMessage 2 true, by simp, hm.trans (by decide)⟩

/-- The camera of the other end is on, and the message before comes late. -/
theorem camera_off_again :
    Machine.Goes sampleWatch
        (Authentic sampleProst [cameraMessage 1 false, cameraMessage 2 true]) (answering, [])
        (connecting ++ [cameraInput 2 true, cameraInput 1 false]) ∧
      ¬ Machine.Goes sampleWatch (fun s i => Current (sampleWatch s i)) (answering, [])
        (connecting ++ [cameraInput 2 true, cameraInput 1 false]) := by
  constructor
  · exact ⟨nofun, nofun, authentic_sample (by decide +kernel) (.inr rfl),
      authentic_sample (by decide +kernel) (.inl rfl), trivial⟩
  · rintro ⟨-, -, -, ⟨hc, -⟩, -⟩
    have hc : RtpDataState.Newest (·.videoEnabled)
        [(cameraMessage 2 true).state, (cameraMessage 1 false).state] (some false) := by
      convert hc using 1
      all_goals decide +kernel
    rcases hc with ⟨h, -⟩ | ⟨m, ⟨hm, -, hle⟩, hf⟩
    · cases h
    · have hlt : 2 ≤ m.number := hle (cameraMessage 2 true).state (by simp) rfl
      rcases List.mem_pair.1 hm with rfl | rfl
      · exact absurd hf (by decide)
      · exact absurd hlt (by decide)

/-- The messages come in order. -/
theorem newest_in_order :
    Machine.Goes sampleWatch (fun s i => Current (sampleWatch s i)) (answering, [])
      (connecting ++ [cameraInput 1 false, cameraInput 2 true]) := by
  have hauth : Machine.Goes sampleWatch
      (Authentic sampleProst [cameraMessage 1 false, cameraMessage 2 true]) (answering, [])
      (connecting ++ [cameraInput 1 false, cameraInput 2 true]) :=
    ⟨nofun, nofun, authentic_sample (by decide +kernel) (.inl rfl),
      authentic_sample (by decide +kernel) (.inr rfl), trivial⟩
  have hfirst (D : List RtpDataState) (hD : D = []) (m : RtpDataState) (hm : m ∈ D) : False := by
    rw [hD] at hm
    nomatch hm
  have hold (D : List RtpDataState) (hD : D = [(cameraMessage 1 false).state])
      (m' : RtpDataState) (hm' : m' ∈ D) : ¬ (cameraMessage 2 true).state.number < m'.number := by
    rw [hD, List.mem_singleton] at hm'
    subst hm'
    decide
  refine (newest_iff (by decide) (by decide) (.newSignal ..) _ hauth).2
    ⟨nofun, nofun, fun m _ => ⟨?_, ?_⟩, fun m hm => ?_, trivial⟩
  · exact fun _ m' h => (hfirst _ (by decide) m' h.1).elim
  · exact fun _ m' h => (hfirst _ (by decide) m' h.1).elim
  · have hm : m = (cameraMessage 2 true).state :=
      Option.some.inj (hm.symm.trans (by decide +kernel))
    subst hm
    exact ⟨fun _ m' h hlt => absurd hlt (hold _ (by decide +kernel) m' h.1),
      fun _ m' h hlt => absurd hlt (hold _ (by decide +kernel) m' h.1)⟩

end PeerSession

end Wandr
