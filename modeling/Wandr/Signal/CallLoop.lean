import Wandr.Signal.CallEngine

/-!
# The calls of a connection

The loop of a connection has the call of the engine, and keeps whether a ring is on and whether the
arbiter was told of a call. A ring starts when a call comes in; it stops, and the arbiter is told of
the end, when what is to be noted of a call is taken, at the end of a tick. When the connection is
lost, all of this is dropped.

* `CallLoop.Open.next`: a step, unless it is one of a few, keeps what was started and the call
  together;
* `calls_settle`: after such steps, when there is no call, nothing that was started is left, and
  each call was noted once.
-/

namespace Wandr.Signal

open Machine

/-- What the arbiter is told. -/
inductive Focus
  | ringStart
  | ringStop
  | callStart
  | callEnd
  deriving DecidableEq

namespace Focus

/-- A ring was started and not stopped. -/
def ringing (l : List Focus) : Bool :=
  l.foldl (fun r f => match f with | ringStart => true | ringStop => false | _ => r) false

/-- Each ring that was started was stopped. -/
def RingsStopped (l : List Focus) : Prop :=
  ∀ l₁ l₂, l = l₁ ++ ringStart :: l₂ → ringStop ∈ l₂

/-- There were as many ends of calls as starts. -/
def Balanced (l : List Focus) : Prop := l.count callStart = l.count callEnd

theorem ringsStopped_of_ringing {l : List Focus} (h : ringing l = false) : RingsStopped l := by
  rintro l₁ l₂ rfl
  unfold ringing at h
  rw [List.foldl_append, List.foldl_cons] at h
  by_contra hn
  -- Nothing after the start stops the ring.
  have ht (l : List Focus) (hl : ringStop ∉ l) : l.foldl
      (fun r f => match f with | ringStart => true | ringStop => false | _ => r) true = true := by
    induction l with
    | nil => rfl
    | cons f l ih =>
      have hf := ih fun hm => hl (List.mem_cons_of_mem _ hm)
      cases f with
      | ringStop => exact (hl List.mem_cons_self).elim
      | ringStart | callStart | callEnd => exact hf
  exact Bool.noConfusion ((ht l₂ hn).symm.trans h)

theorem ringing_append (l l' : List Focus) : ringing (l ++ l') =
    l'.foldl (fun r f => match f with | ringStart => true | ringStop => false | _ => r)
      (ringing l) := List.foldl_append

end Focus

/-- What the user wants. Pictures do not matter here. -/
inductive CallIntent (Secret : Type)
  | place (thread : String) (callId : UInt64) (myIdentity : List UInt8)
    (peerIdentity : Option (List UInt8)) (bound : Except String (Bound Secret))
  | accept (now : Nat) (ice : Option Agent)
  | hangup
  | setVideo

/-- The loop of a connection, and what has become of it: what the arbiter was told, and with whom
    and by whom the calls were that there have been. -/
structure CallLoop (Secret : Type) where
  engine : CallEngine Secret := {}
  commStarted : Bool := false
  ringStarted : Bool := false
  shared : Shared
  focus : List Focus := []
  calls : List (String × Bool)

inductive LoopEvent (Secret : Type)
  | message (m : InboundCall Secret)
  | tick (wakeGap : Bool) (intents : List (CallIntent Secret)) (t : CallTick Secret) (now : Nat)
  | closed

/-- With whom a call is, and whether we placed it. -/
def ActiveCall.party {Secret : Type} (a : ActiveCall Secret) : String × Bool :=
  (a.peerAci, a.outgoing)

/-- The calls that are noted in the history. -/
def Shared.callEntries (s : Shared) : List (String × Bool) :=
  (s.history.filter fun m => m.call.isSome).map fun m => (m.thread, m.outgoing)

/-- A call that there is now and was not before. -/
def CallEngine.begun {Secret : Type} (before after : CallEngine Secret) : List (String × Bool) :=
  match before.active, after.active with
  | none, some a => [a.party]
  | _, _ => []

namespace CallLoop

variable {Secret : Type} (C : Crypto Secret) (P : Prost)
  (parseIp : String → Option (String × Bool)) (l : CallLoop Secret)

/-- A message comes. It may be the start of a call, which rings. -/
def onMessage (m : InboundCall Secret) : CallLoop Secret :=
  let (engine, o) := l.engine.onCallMessage P parseIp m
  { l with
    engine
    ringStarted := l.ringStarted || o.incoming.isSome
    focus := l.focus ++ if o.incoming.isSome then [.ringStart] else []
    calls := l.calls ++ l.engine.begun engine }

def onIntent : CallIntent Secret → CallLoop Secret
  | .place thread callId myIdentity peerIdentity bound =>
    match peerIdentity with
    | none => l
    | some peerIdentity =>
      let engine := (l.engine.place C P callId myIdentity peerIdentity thread bound).1
      { l with engine, calls := l.calls ++ l.engine.begun engine }
  | .accept now ice =>
    { l with
      engine := (l.engine.accept C P parseIp now ice).1
      ringStarted := false
      commStarted := true
      focus := l.focus ++ [.ringStop, .callStart] }
  | .hangup => { l with engine := l.engine.hangup.1 }
  | .setVideo => l

/-- The call, if there is one, takes what comes in the tick. -/
def pump (t : CallTick Secret) : CallLoop Secret :=
  let (engine, o) := l.engine.tick C P t
  if o.state = some .connected ∧ l.commStarted = false then
    { l with engine, commStarted := true, focus := l.focus ++ [.callStart] }
  else { l with engine }

/-- What is to be noted of a call that has ended is noted. -/
def finish (now : Nat) : CallLoop Secret :=
  match l.engine.ended with
  | none => l
  | some ended =>
    { l with
      engine := l.engine.takeEnded.1
      ringStarted := false
      commStarted := false
      focus := l.focus ++ (if l.ringStarted then [.ringStop] else []) ++
        (if l.commStarted then [.callEnd] else [])
      shared := l.shared.addCallLog ended now }

/-- Another connection starts with nothing. -/
def reconnect : CallLoop Secret :=
  { l with engine := {}, commStarted := false, ringStarted := false }

def next : LoopEvent Secret → CallLoop Secret
  | .message m => l.onMessage P parseIp m
  | .tick wakeGap intents t now =>
    -- After a sleep the connection is given up, but not during a call.
    if wakeGap ∧ l.engine.active.isNone then l.reconnect
    else ((intents.foldl (onIntent C P parseIp) l).pump C P t).finish now
  | .closed => l.reconnect

/-- When there is no call, each ring was stopped, the arbiter was told of the end of as many calls
    as of starts, and each call was noted once. -/
def AtRest : Prop :=
  l.engine.active.isNone →
    Focus.RingsStopped l.focus ∧ Focus.Balanced l.focus ∧ l.shared.callEntries = l.calls

/-- It is so at the end of a tick. -/
def Settles (l : CallLoop Secret) : LoopEvent Secret → Prop
  | .tick wakeGap intents t now => (l.next C P parseIp (.tick wakeGap intents t now)).AtRest
  | .message _ | .closed => True

/-- A call is accepted when there is one, or one has just ended, of which the arbiter was not told
    yet. We do not hang up while another call that ended in the same tick is still to be noted. -/
def InTurn (l : CallLoop Secret) : CallIntent Secret → Prop
  | .accept _ _ => l.commStarted = false ∧ (l.engine.active.isSome ∨ l.engine.ended.isSome)
  | .hangup => l.engine.active.isNone ∨ l.engine.ended.isNone
  | .place _ _ _ _ _ | .setVideo => True

/-- What the user wants is in turn, and no call ends in a tick in which another one did. The
    connection is not lost during a call. -/
def Clean (l : CallLoop Secret) : LoopEvent Secret → Prop
  | .tick wakeGap intents t _ => (wakeGap ∧ l.engine.active.isNone) ∨
      Goes (onIntent C P parseIp) InTurn l intents ∧
        let l' := intents.foldl (onIntent C P parseIp) l
        l'.engine.ended.isNone ∨ l'.engine.active.isNone ∨
          (l'.engine.tick C P t).1.active.isSome
  | .closed => l.engine.active.isNone
  | .message _ => True

end CallLoop

/-! ## The call -/

namespace CallEngine

variable {Secret : Type} (C : Crypto Secret) (P : Prost)
  (parseIp : String → Option (String × Bool)) {e e' : CallEngine Secret}

/-- The party of the call, if there is one. -/
def party (e : CallEngine Secret) : List (String × Bool) := e.active.toList.map ActiveCall.party

theorem party_begun (h : e.active = none ∨ e'.party = e.party) :
    e.party ++ e.begun e' = e'.party := by
  unfold begun
  rcases h with h | h
  · unfold party
    rw [h]
    cases e'.active <;> rfl
  · cases ha : e.active with
    | some a =>
      rw [h]
      exact List.append_nil _
    | none =>
      have hp : e.party = [] := by
        unfold party
        rw [ha]
        rfl
      rw [hp] at h ⊢
      rw [h]
      cases ha' : e'.active with
      | none => rfl
      | some a' =>
        unfold party at h
        rw [ha'] at h
        cases h

theorem accept_spec (now : Nat) (ice : Option Agent) :
    (e.accept C P parseIp now ice).1.party = e.party ∧
      (e.accept C P parseIp now ice).1.ended = e.ended ∧
      (e.accept C P parseIp now ice).1.active.isSome = e.active.isSome := by
  unfold accept party
  cases ha : e.active with
  | none => exact ⟨congrArg (fun a => a.toList.map ActiveCall.party) ha, rfl, congrArg _ ha⟩
  | some a => exact ⟨rfl, rfl, rfl⟩

/-- The call, if there is one, ends, and is to be noted. -/
theorem hangup_spec : (e.active = none ∧ e.hangup.1 = e) ∨
    ∃ a ended, e.active = some a ∧ (ended.peerAci, ended.outgoing) = a.party ∧
      e.hangup.1 = { active := none, ended := some ended } := by
  unfold hangup
  cases ha : e.active with
  | none => exact .inl ⟨rfl, rfl⟩
  | some a =>
    refine .inr ⟨a, _, rfl, ?_, rfl⟩
    split <;> rfl

theorem place_spec (callId : UInt64) (myIdentity peerIdentity : List UInt8) (peerAci : String)
    (bound : Except String (Bound Secret)) :
    (e.place C P callId myIdentity peerIdentity peerAci bound).1.ended = e.ended ∧
      (e.active = none ∨ (e.place C P callId myIdentity peerIdentity peerAci bound).1 = e) := by
  unfold place
  cases e.active with
  | some a => exact ⟨rfl, .inr rfl⟩
  | none =>
    cases bound with
    | error _ => exact ⟨rfl, .inr rfl⟩
    | ok b =>
      dsimp only
      split
      · exact ⟨rfl, .inl rfl⟩
      · exact ⟨rfl, .inr rfl⟩

/-- A call goes on in a tick, or ends in it and is to be noted. -/
theorem tick_spec (t : CallTick Secret) :
    (e.active = none ∧ e.tick C P t = (e, {})) ∨
      ∃ a a', e.active = some a ∧ a'.party = a.party ∧
        ((e.tick C P t).1 = { e with active := some a' } ∨
          (e.tick C P t).1 = { active := none, ended := some a'.outcome } ∧
            (e.tick C P t).2.state ≠ some .connected) := by
  unfold tick
  cases ha : e.active with
  | none => exact .inl ⟨rfl, rfl⟩
  | some a =>
    have hp : (a.pump C P t).1.party = a.party := by
      unfold ActiveCall.pump
      dsimp only
      split <;> rfl
    dsimp only
    split
    · next hs =>
      refine .inr ⟨a, { (a.pump C P t).1 with
        call := (a.pump C P t).1.call.pollSignals.1
        lastState := (a.pump C P t).1.call.pollSignals.1.state }, rfl, hp, .inr ⟨rfl, ?_⟩⟩
      rw [hs]
      split
      · intro h
        cases h
      · intro h
        cases h
    · exact .inr ⟨a, { (a.pump C P t).1 with
        call := (a.pump C P t).1.call.pollSignals.1
        lastState := (a.pump C P t).1.call.pollSignals.1.state }, rfl, hp, .inl rfl⟩

/-- A call is left with the same party; or there was none, and one starts that is told of. -/
def Heard (s s' : CallEngine Secret × CallOutput) : Prop :=
  s'.1.ended = s.1.ended ∧
    ((s'.1.party = s.1.party ∧ s'.1.active.isSome = s.1.active.isSome ∧
        s'.2.incoming = s.2.incoming) ∨
      (s.1.active = none ∧ s'.1.active.isSome ∧ s'.2.incoming.isSome))

theorem Heard.trans {s s' s'' : CallEngine Secret × CallOutput} (h : Heard s s')
    (h' : Heard s' s'') : Heard s s'' := by
  refine ⟨h'.1.trans h.1, ?_⟩
  rcases h.2 with ⟨hp, ha, hi⟩ | ⟨ha, hs, hi⟩
  · rcases h'.2 with ⟨hp', ha', hi'⟩ | ⟨ha', hs', hi'⟩
    · exact .inl ⟨hp'.trans hp, ha'.trans ha, hi'.trans hi⟩
    · refine .inr ⟨?_, hs', hi'⟩
      rw [ha'] at ha
      exact Option.not_isSome_iff_eq_none.1 (ha ▸ Bool.false_ne_true)
  · rcases h'.2 with ⟨-, ha', hi'⟩ | ⟨ha', -, -⟩
    · exact .inr ⟨ha, ha'.trans hs, hi' ▸ hi⟩
    · rw [ha'] at hs
      exact Bool.noConfusion hs

theorem onSignal_heard (m : InboundCall Secret) (s : CallEngine Secret × CallOutput)
    (sig : CallSignal) : Heard s (onSignal P parseIp m s sig) := by
  obtain ⟨⟨active, ended⟩, o⟩ := s
  have hrefl (o' : CallOutput) (ho : o'.incoming = o.incoming) :
      Heard (⟨active, ended⟩, o) ((⟨active, ended⟩, o') : CallEngine Secret × CallOutput) :=
    ⟨rfl, .inl ⟨rfl, rfl, ho⟩⟩
  unfold onSignal
  cases active with
  | none =>
    cases sig with
    | offer callId blob =>
      dsimp only
      split
      · exact ⟨rfl, .inr ⟨rfl, rfl, rfl⟩⟩
      · exact hrefl _ rfl
    | answer | ice | hangup | busy => exact hrefl _ rfl
  | some a =>
    have hfeed (sig : CallSignal) : Heard (⟨some a, ended⟩, o)
        ((⟨some (a.feed P parseIp m sig), ended⟩, o) : CallEngine Secret × CallOutput) :=
      ⟨rfl, .inl ⟨rfl, rfl, rfl⟩⟩
    cases sig with
    | offer callId blob =>
      dsimp only
      split
      · exact hrefl _ rfl
      · exact hrefl _ rfl
    | hangup callId kind =>
      dsimp only
      split
      · exact hrefl _ rfl
      · exact hfeed _
    | answer | ice | busy => exact hfeed _

theorem onCallMessage_heard (m : InboundCall Secret) :
    Heard (e, {}) (e.onCallMessage P parseIp m) := by
  unfold onCallMessage
  generalize ((e, {}) : CallEngine Secret × CallOutput) = s
  generalize callMessageToSignals m.cm = sigs
  induction sigs generalizing s with
  | nil => exact ⟨rfl, .inl ⟨rfl, rfl, rfl⟩⟩
  | cons sig sigs ih => exact (onSignal_heard P parseIp m s sig).trans (ih _)

end CallEngine

namespace CallLoop

variable {Secret : Type} {C : Crypto Secret} {P : Prost}
  {parseIp : String → Option (String × Bool)} {l : CallLoop Secret}

/-- What was started is kept together with the call: a ring is on, or the arbiter knows of a call,
    only if there is one or one has just ended, and each call was noted or is one of these. -/
structure Open (l : CallLoop Secret) : Prop where
  ring : Focus.ringing l.focus = l.ringStarted
  comm : l.focus.count .callStart = l.focus.count .callEnd + l.commStarted.toNat
  held : l.ringStarted ∨ l.commStarted → l.engine.active.isSome ∨ l.engine.ended.isSome
  noted : l.shared.callEntries ++ l.engine.ended.toList.map (fun e => (e.peerAci, e.outgoing)) ++
    l.engine.party = l.calls

theorem callEntries_addCallLog (s : Shared) (ended : EndedCall) (now : Nat) :
    (s.addCallLog ended now).callEntries = s.callEntries ++ [(ended.peerAci, ended.outgoing)] := by
  unfold Shared.callEntries Shared.addCallLog Shared.addMessage
  dsimp only
  rw [List.filter_append, List.map_append]
  rfl

theorem Open.onMessage (h : l.Open) (m : InboundCall Secret) :
    (l.onMessage P parseIp m).Open := by
  obtain ⟨hended, hheard⟩ := l.engine.onCallMessage_heard P parseIp m
  obtain ⟨hr, hc, hh, hn⟩ := h
  have hparty : l.engine.active = none ∨
      (l.engine.onCallMessage P parseIp m).1.party = l.engine.party :=
    hheard.elim (fun h => .inr h.1) fun h => .inl h.1
  refine ⟨?_, ?_, ?_, ?_⟩
  · unfold CallLoop.onMessage
    dsimp only
    rw [Focus.ringing_append, hr]
    split
    · next hi => rw [hi, Bool.or_true]; rfl
    · next hi => rw [Bool.eq_false_iff.2 hi, Bool.or_false]; rfl
  · unfold CallLoop.onMessage
    dsimp only
    rw [List.count_append, List.count_append, hc]
    split <;> rfl
  · unfold CallLoop.onMessage
    dsimp only
    intro hf
    rw [hended]
    rcases hheard with ⟨-, ha, hi⟩ | ⟨-, ha, -⟩
    · rw [ha]
      rw [hi] at hf
      exact hh (hf.imp_left fun hf => (Bool.or_false _).symm.trans hf)
    · exact .inl ha
  · unfold CallLoop.onMessage
    dsimp only
    rw [hended, ← hn, List.append_assoc (_ ++ _), CallEngine.party_begun hparty]

theorem Open.accept (h : l.Open) (now : Nat) (ice : Option Agent)
    (hc : l.InTurn (.accept now ice)) : (l.onIntent C P parseIp (.accept now ice)).Open := by
  obtain ⟨hp, he, ha⟩ := l.engine.accept_spec C P parseIp now ice
  refine ⟨?_, ?_, fun _ => ?_, ?_⟩
  · exact (Focus.ringing_append _ _).trans rfl
  · have hcount := h.comm
    rw [hc.1] at hcount
    unfold CallLoop.onIntent
    dsimp only
    rw [List.count_append, List.count_append, hcount]
    rfl
  · unfold CallLoop.onIntent
    dsimp only
    rw [he, ha]
    exact hc.2
  · unfold CallLoop.onIntent
    dsimp only
    rw [he, hp]
    exact h.noted

theorem Open.hangup (h : l.Open) (hc : l.InTurn .hangup) :
    (l.onIntent C P parseIp .hangup).Open := by
  rcases l.engine.hangup_spec with ⟨-, he⟩ | ⟨a, ended, ha, hparty, he⟩
  · unfold onIntent
    rw [he]
    exact h
  · unfold onIntent
    rw [he]
    have hnone : l.engine.ended = none := by
      rcases hc with hc | hc
      · rw [ha] at hc
        exact Bool.noConfusion hc
      · exact Option.isNone_iff_eq_none.1 hc
    refine ⟨h.ring, h.comm, fun _ => .inr rfl, ?_⟩
    have hn := h.noted
    unfold CallEngine.party at hn ⊢
    rw [hnone, ha] at hn
    dsimp only
    rw [← hn]
    simp only [Option.toList_some, Option.toList_none, List.map_cons, List.map_nil,
      List.append_nil, hparty]

theorem Open.onIntent (h : l.Open) (i : CallIntent Secret) (hc : l.InTurn i) :
    (l.onIntent C P parseIp i).Open := by
  cases i with
  | accept now ice => exact h.accept now ice hc
  | hangup => exact h.hangup hc
  | setVideo => exact h
  | place thread callId myIdentity peerIdentity bound =>
    cases peerIdentity with
    | none => exact h
    | some peerIdentity =>
      obtain ⟨hended, hor⟩ := l.engine.place_spec C P callId myIdentity peerIdentity thread bound
      unfold CallLoop.onIntent
      dsimp only
      refine ⟨h.ring, h.comm, fun hf => ?_, ?_⟩
      · rw [hended]
        refine (h.held hf).imp_left fun ha => ?_
        rcases hor with hn | he
        · rw [hn] at ha
          exact Bool.noConfusion ha
        · rw [he]
          exact ha
      · rw [hended, ← h.noted, List.append_assoc (_ ++ _),
          CallEngine.party_begun (hor.imp_right (congrArg _))]

theorem Open.pump (h : l.Open) (t : CallTick Secret)
    (hc : l.engine.ended.isNone ∨ l.engine.active.isNone ∨
      (l.engine.tick C P t).1.active.isSome) : (l.pump C P t).Open := by
  have hcomm (hf : l.commStarted = false) :
      (l.focus ++ [Focus.callStart]).count Focus.callStart =
        (l.focus ++ [Focus.callStart]).count Focus.callEnd + 1 := by
    have hcount := h.comm
    rw [hf] at hcount
    rw [List.count_append, List.count_append, hcount]
    rfl
  have hring : Focus.ringing (l.focus ++ [.callStart]) = l.ringStarted :=
    (Focus.ringing_append _ _).trans h.ring
  unfold CallLoop.pump
  dsimp only
  rcases l.engine.tick_spec C P t with ⟨ha, he⟩ | ⟨a, a', ha, hparty, he | ⟨he, hs⟩⟩
  · rw [he, if_neg fun hn => by cases hn.1]
    exact h
  · have hn : l.shared.callEntries ++
        l.engine.ended.toList.map (fun e => (e.peerAci, e.outgoing)) ++ [a'.party] = l.calls := by
      have hn := h.noted
      unfold CallEngine.party at hn
      rw [ha] at hn
      rw [hparty]
      exact hn
    rw [he]
    split
    · next hs => exact ⟨hring, hcomm hs.2, fun _ => .inl rfl, hn⟩
    · exact ⟨h.ring, h.comm, fun _ => .inl rfl, hn⟩
  · rw [if_neg fun hn => hs hn.1]
    have hnone : l.engine.ended = none := by
      rcases hc with hc | hc | hc
      · exact Option.isNone_iff_eq_none.1 hc
      · rw [ha] at hc
        exact Bool.noConfusion hc
      · rw [he] at hc
        exact Bool.noConfusion hc
    rw [he]
    refine ⟨h.ring, h.comm, fun _ => .inr rfl, ?_⟩
    have hn := h.noted
    unfold CallEngine.party at hn ⊢
    rw [hnone, ha] at hn
    dsimp only
    rw [← hn]
    simp only [Option.toList_some, Option.toList_none, List.map_cons, List.map_nil,
      List.append_nil, ← hparty]
    rfl

theorem Open.finish (h : l.Open) (now : Nat) :
    (l.finish now).Open ∧ (l.finish now).engine.ended = none := by
  unfold CallLoop.finish
  split
  · next he => exact ⟨h, he⟩
  · next ended he =>
    refine ⟨⟨?_, ?_, ?_, ?_⟩, rfl⟩
    · dsimp only
      rw [Focus.ringing_append, Focus.ringing_append, h.ring]
      cases l.ringStarted <;> cases l.commStarted <;> rfl
    · dsimp only
      rw [List.count_append, List.count_append, List.count_append, List.count_append, h.comm]
      cases l.ringStarted <;> cases l.commStarted <;> rfl
    · exact fun hf => hf.elim (Bool.noConfusion ·) (Bool.noConfusion ·)
    · have hn := h.noted
      rw [he] at hn
      dsimp only
      rw [callEntries_addCallLog, ← hn]
      exact congrArg (· ++ _) (List.append_nil _)

theorem Open.reconnect (h : l.Open) (ha : l.engine.active = none) (he : l.engine.ended = none) :
    l.reconnect.Open := by
  obtain ⟨hr, hc, hh, hn⟩ := h
  have hnone : ¬ (l.engine.active.isSome ∨ l.engine.ended.isSome) := by
    rw [ha, he]
    exact fun h => h.elim (Bool.noConfusion ·) (Bool.noConfusion ·)
  obtain ⟨hring, hcomm⟩ := not_or.1 (mt hh hnone)
  refine ⟨hr.trans (Bool.eq_false_iff.2 hring), ?_, ?_, ?_⟩
  · rw [Bool.eq_false_iff.2 hcomm] at hc
    exact hc
  · exact fun hf => hf.elim (Bool.noConfusion ·) (Bool.noConfusion ·)
  · unfold CallEngine.party at hn
    rw [ha, he] at hn
    exact hn

/-- Between two steps nothing is to be noted. -/
structure Ready (l : CallLoop Secret) : Prop extends Open l where
  noneEnded : l.engine.ended = none

theorem Ready.next (h : l.Ready) (e : LoopEvent Secret) (hc : l.Clean C P parseIp e) :
    (l.next C P parseIp e).Ready := by
  have hrec (ha : l.engine.active.isNone) : l.reconnect.Ready :=
    ⟨h.toOpen.reconnect (Option.isNone_iff_eq_none.1 ha) h.noneEnded, rfl⟩
  cases e with
  | message m =>
    refine ⟨h.toOpen.onMessage m, ?_⟩
    exact (l.engine.onCallMessage_heard P parseIp m).1.trans h.noneEnded
  | closed => exact hrec hc
  | tick wakeGap intents t now =>
    unfold CallLoop.next
    dsimp only
    split
    · next hw => exact hrec hw.2
    · next hw =>
      obtain ⟨hi, hp⟩ := hc.resolve_left hw
      have hopen : Open (intents.foldl (CallLoop.onIntent C P parseIp) l) := by
        have ho := h.toOpen
        clear h hw hc hp hrec
        induction intents generalizing l with
        | nil => exact ho
        | cons i is ih => exact ih hi.2 (ho.onIntent i hi.1)
      have hf := (hopen.pump t hp).finish now
      exact ⟨hf.1, hf.2⟩

/-- When there is no call, nothing that was started is left. -/
theorem Ready.atRest (h : l.Ready) : l.AtRest := by
  intro ha
  have ho := h.toOpen.reconnect (Option.isNone_iff_eq_none.1 ha) h.noneEnded
  exact ⟨Focus.ringsStopped_of_ringing ho.ring, ho.comm,
    (List.append_nil _).symm.trans ((List.append_nil _).symm.trans ho.noted)⟩

end CallLoop

/-- In a run in which the connection is not lost during a call, a call is accepted only when there
    is one, and once, and no call ends in a tick in which another one did, nothing is left at the
    end of a tick when there is no call. -/
theorem calls_settle {Secret : Type} (C : Crypto Secret) (P : Prost)
    (parseIp : String → Option (String × Bool)) (s : Shared) (es : List (LoopEvent Secret))
    (h : Goes (CallLoop.next C P parseIp) (CallLoop.Clean C P parseIp)
      { shared := s, calls := s.callEntries } es) :
    Goes (CallLoop.next C P parseIp) (CallLoop.Settles C P parseIp)
      { shared := s, calls := s.callEntries } es := by
  have hr : CallLoop.Ready ({ shared := s, calls := s.callEntries } : CallLoop Secret) :=
    ⟨⟨rfl, rfl, fun hf => hf.elim (Bool.noConfusion ·) (Bool.noConfusion ·),
      (List.append_nil _).trans (List.append_nil _)⟩, rfl⟩
  generalize ({ shared := s, calls := s.callEntries } : CallLoop Secret) = l at h hr
  induction es generalizing l with
  | nil => trivial
  | cons e es ih =>
    have hn := hr.next e h.1
    refine ⟨?_, ih _ h.2 hn⟩
    cases e with
    | message | closed => trivial
    | tick => exact hn.atRest

/-- A tick in which nothing comes. -/
def quietTick : CallTick Bool where
  now := 0
  timeout := { ice := {} }
  poll := { ice := {} }
  datagrams := []
  media := fun s => s

/-- We call Bob, and hang up. -/
def shortCall : List (LoopEvent Bool) :=
  [.tick false [.place "bob" 7 [] (some []) (.ok ⟨⟨"192.168.1.2", true, 40000⟩, "abcdefgh",
      "abcdefghijklmnopqrstuvwx", false, none⟩)] quietTick 1,
    .tick false [.hangup] quietTick 2]

theorem calls_settle_sample :
    Goes (CallLoop.next sampleCrypto sampleProst fun _ => none)
      (CallLoop.Settles sampleCrypto sampleProst fun _ => none)
      { shared := {}, calls := [] } shortCall := by
  refine calls_settle sampleCrypto sampleProst _ {} shortCall ⟨.inr ⟨⟨trivial, trivial⟩, ?_⟩, ?_⟩
  · exact .inl rfl
  · exact ⟨.inr ⟨⟨.inr rfl, trivial⟩, .inr (.inl rfl)⟩, trivial⟩

/-- A call is accepted that is not there any more. The arbiter is told of a call that does not
    end. -/
theorem late_accept : ¬ Goes (CallLoop.next sampleCrypto sampleProst fun _ => none)
    (CallLoop.Settles sampleCrypto sampleProst fun _ => none) { shared := {}, calls := [] }
    [.tick false [.accept 0 none] quietTick 1] := by
  intro h
  exact absurd (h.1 rfl).2.1 (by unfold Focus.Balanced; decide)

end Wandr.Signal
