import Wandr.Lib.Ledger
import Wandr.Lib.Machine
import Wandr.Signal.Belongs

/-!
# The outbox

Messages and receipts to be sent are queued. On a tick of a connection that can send, the task of
the engine takes all messages out of the outbox and tries to send one after the other, and then
the receipts. What could not be sent does not go back.

* `Engine.step`: what the task does, and what may happen in between;
* `Engine.Inv.upholds_iff`: nothing is lost in a step if and only if what it tries to send goes
  out, and the first message of its time is told so;
* `none_lost`: so it is in a run.
-/

namespace Wandr.Signal

open Machine Ledger

/-- What the task is at: it waits for a tick, or tries to send the messages that it took out of
    the outbox, or the receipts. -/
inductive Sending
  | idle
  | messages (pending : List Outgoing)
  | receipts (jobs : List ReceiptJob)
  deriving DecidableEq

/-- The engine, and what has become of messages and receipts: the messages that were accepted, and
    the messages and the receipts that were handed to the wire. -/
structure Engine where
  shared : Shared
  sending : Sending := .idle
  accepted : List Nat := []
  wired : List Nat := []
  acked : List Nat := []

/-- What comes of a try to send: to one, or to each member of a group. -/
structure Outcome where
  one : Bool
  members : List Bool

inductive Step
  | send (thread text : String) (now : Nat)
  | markRead (thread : String)
  | receive (i : Incoming)
  | peer (a : PeerAct)
  | callLog (e : EndedCall) (now : Nat)
  | routes (groupRoutes : Table GroupRoute.thread)
  | tick (connected : Bool)
  | wire (o : Outcome)
  | reconnect

/-- A message is not to be sent any more. -/
def Shared.IsSent (s : Shared) (id : Nat) : Prop :=
  ∃ m ∈ s.history, m.id = id ∧ m.status ≠ .sending

namespace Engine

variable (s : Engine)

/-- A message of a group goes out if it does to some member. -/
def goesOut (m : Outgoing) (o : Outcome) : Bool :=
  match s.shared.groupRoutes.get? m.thread with
  | some _ => o.members.any id
  | none => o.one

/-- The task tries the next message or receipt that it took. -/
def wire (o : Outcome) : Engine :=
  match s.sending with
  | .idle => s
  | .messages [] =>
    { s with
      shared := { s.shared with receiptOutbox := [] }
      sending := .receipts s.shared.receiptOutbox }
  | .messages (m :: pending) =>
    { s with
      shared := if s.goesOut m o then s.shared.setStatus m.ts .sent else s.shared
      sending := .messages pending
      wired := if s.goesOut m o then s.wired ++ [m.id] else s.wired }
  | .receipts [] => { s with sending := .idle }
  | .receipts (j :: jobs) =>
    { s with
      sending := .receipts jobs
      acked := if o.one then s.acked ++ [j.id] else s.acked }

/-- The task takes what is in the outbox, if it can send. -/
def tick (connected : Bool) : Engine :=
  match s.sending with
  | .idle =>
    if connected then
      { s with
        shared := { s.shared with outbox := [] }
        sending := .messages s.shared.outbox }
    else s
  | .messages _ | .receipts _ => s

def step (parseUuid : String → Option String) : Step → Engine
  | .send thread text now =>
    match s.shared.send thread text now with
    | .ok t => { s with shared := t, accepted := s.accepted ++ [t.nextId] }
    | .error _ => s
  | .markRead thread => { s with shared := s.shared.markRead parseUuid thread }
  | .receive i => { s with shared := s.shared.receive i }
  | .peer a => { s with shared := s.shared.next a }
  | .callLog e now => { s with shared := s.shared.addCallLog e now }
  | .routes groupRoutes => { s with shared := { s.shared with groupRoutes } }
  | .tick connected => s.tick connected
  | .wire o => s.wire o
  -- A connection keeps nothing that is to be sent.
  | .reconnect => s

/-- The messages that are still to be sent. -/
def queued : List Nat :=
  match s.sending with
  | .messages pending => pending.map Outgoing.id ++ s.shared.outbox.map Outgoing.id
  | .idle | .receipts _ => s.shared.outbox.map Outgoing.id

/-- The receipts that are still to be sent. -/
def queuedReceipts : List Nat :=
  match s.sending with
  | .receipts jobs => jobs.map ReceiptJob.id ++ s.shared.receiptOutbox.map ReceiptJob.id
  | .idle | .messages _ => s.shared.receiptOutbox.map ReceiptJob.id

/-- Each message that was accepted is queued, or was handed to the wire once and shows that; and
    each receipt is queued or was handed to the wire once. -/
structure NoneLost : Prop where
  messages : Kept s.shared.IsSent s.accepted s.queued s.wired
  receipts : Kept (fun _ => True) (List.range s.shared.nextReceipt) s.queuedReceipts s.acked

/-- What is tried to be sent goes out. If it is a message, the first one of ours of its time is
    that message, or it does not show as still to be sent. -/
def Delivers (s : Engine) : Step → Prop
  | .wire o =>
    match s.sending with
    | .messages (m :: _) => s.goesOut m o ∧ (s.shared.IsSent m.id ∨
        ∃ m' ∈ s.shared.history.find? (fun m' => m'.ts = m.ts && m'.outgoing), m'.id = m.id)
    | .receipts (_ :: _) => o.one
    | .idle | .messages [] | .receipts [] => True
  | _ => True

end Engine

/-! ## What is sent -/

namespace Shared

variable {s t : Shared} {id : Nat}

theorem isSent_congr (h : t.history.map (fun m => (m.id, m.status)) =
    s.history.map fun m => (m.id, m.status)) (hs : s.IsSent id) : t.IsSent id := by
  obtain ⟨m, hm, rfl, hne⟩ := hs
  obtain ⟨m', hm', he⟩ := List.mem_map.1
    (h ▸ List.mem_map_of_mem hm : (m.id, m.status) ∈ t.history.map fun m => (m.id, m.status))
  obtain ⟨hid, hst⟩ := Prod.mk.inj he
  exact ⟨m', hm', hid, hst ▸ hne⟩

theorem isSent_addMessage (m : Message) (h : s.IsSent id) : (s.addMessage m).IsSent id := by
  obtain ⟨m', hm', h⟩ := h
  exact ⟨m', List.mem_append_left _ hm', h⟩

/-- A message shows as sent after a receipt, if it did before, or if it is the first one of ours of
    that time. -/
theorem isSent_setStatus {ts : Nat} {new : Delivery} (hn : new ≠ .sending) :
    (s.setStatus ts new).IsSent id ↔ s.IsSent id ∨
      ∃ m ∈ s.history.find? (fun m => m.ts = ts && m.outgoing), m.id = id := by
  have had (m : Message) : (m.advance new).id = m.id ∧ (m.advance new).status ≠ .sending := by
    unfold Message.advance
    split
    · exact ⟨rfl, hn⟩
    · next hge =>
      refine ⟨rfl, fun hm => hge ?_⟩
      rw [hm]
      cases new with
      | sending => exact (hn rfl).elim
      | sent | delivered | read => decide
  unfold IsSent
  rw [setStatus_history]
  rcases First.modify_spec (fun m : Message => m.ts = ts && m.outgoing) (fun m => m.advance new)
    s.history with ⟨hf, hm⟩ | ⟨l₁, a, l₂, hf, -, -, hl, hm⟩
  · rw [hm, hf]
    refine (or_iff_left ?_).symm
    rintro ⟨m, hm, -⟩
    cases hm
  · rw [hm, hf, hl]
    constructor
    · rintro ⟨m, hm, hid, hne⟩
      rcases List.mem_append.1 hm with hm | hm
      · exact .inl ⟨m, List.mem_append_left _ hm, hid, hne⟩
      · rcases List.mem_cons.1 hm with rfl | hm
        · exact .inr ⟨a, rfl, (had a).1.symm.trans hid⟩
        · exact .inl ⟨m, List.mem_append_right _ (List.mem_cons_of_mem _ hm), hid, hne⟩
    · have ha : a.advance new ∈ l₁ ++ a.advance new :: l₂ :=
        List.mem_append_right _ List.mem_cons_self
      rintro (⟨m, hm, hid, hne⟩ | ⟨m, hm, hid⟩)
      · rcases List.mem_append.1 hm with hm | hm
        · exact ⟨m, List.mem_append_left _ hm, hid, hne⟩
        · rcases List.mem_cons.1 hm with rfl | hm
          · exact ⟨_, ha, (had m).1.trans hid, (had m).2⟩
          · exact ⟨m, List.mem_append_right _ (List.mem_cons_of_mem _ hm), hid, hne⟩
      · cases hm
        exact ⟨_, ha, (had a).1.trans hid, (had a).2⟩

/-- The queues are left as they are, and what shows as sent goes on to. -/
structure Frame (s t : Shared) : Prop where
  outbox : t.outbox = s.outbox
  receiptOutbox : t.receiptOutbox = s.receiptOutbox
  nextReceipt : t.nextReceipt = s.nextReceipt
  nextId : s.nextId ≤ t.nextId
  sent : ∀ id, s.IsSent id → t.IsSent id

theorem frame_addMessage (m : Message) : Frame s (s.addMessage m) :=
  ⟨rfl, rfl, rfl, Nat.le_succ _, fun _ => isSent_addMessage m⟩

theorem frame_setStatus (ts : Nat) (new : Delivery) : Frame s (s.setStatus ts new) := by
  have hsent (id : Nat) (h : s.IsSent id) : (s.setStatus ts new).IsSent id := by
    by_cases hn : new = .sending
    · -- Nothing is as far as still to be sent.
      have hh : (s.setStatus ts new).history = s.history :=
        setStatus_history.trans (First.modify_eq_self.2 fun m _ => if_neg (by rw [hn]; nofun))
      exact isSent_congr (congrArg _ hh) h
    · exact (isSent_setStatus hn).2 (.inl h)
  refine ⟨?_, ?_, ?_, ?_, hsent⟩
  all_goals
    unfold setStatus
    split
    · split
      · rfl
      · rfl
    · rfl

theorem frame_next (a : PeerAct) : Frame s (s.next a) := by
  obtain ⟨sender, about⟩ := a
  unfold next
  cases about with
  | status ts new => exact frame_setStatus ts new
  | reaction ts emoji remove =>
    dsimp only
    split
    · exact ⟨rfl, rfl, rfl, Nat.le_refl _, fun id =>
        isSent_congr (First.map_modify (g := fun m : Message => (m.id, m.status)) fun _ _ => rfl)⟩
    · exact ⟨rfl, rfl, rfl, Nat.le_refl _, fun _ h => h⟩

end Shared

/-! ## Runs -/

namespace Engine

variable {s : Engine} {t : Shared} {parseUuid : String → Option String}

/-- Nothing is lost, and the next message gets a new number. -/
structure Inv (s : Engine) : Prop extends NoneLost s where
  idLe : ∀ id ∈ s.accepted, id ≤ s.shared.nextId

theorem Inv.frame (h : s.Inv) (hf : Shared.Frame s.shared t) : Inv { s with shared := t } := by
  refine ⟨⟨?_, ?_⟩, fun id hid => Nat.le_trans (h.idLe id hid) hf.nextId⟩
  · have hq : queued { s with shared := t } = s.queued := by
      unfold queued
      dsimp only
      rw [hf.outbox]
    rw [hq]
    exact h.messages.mono hf.sent
  · have hq : queuedReceipts { s with shared := t } = s.queuedReceipts := by
      unfold queuedReceipts
      dsimp only
      rw [hf.receiptOutbox]
    rw [hq]
    dsimp only
    rw [hf.nextReceipt]
    exact h.receipts

theorem Inv.pushReceipt (h : s.Inv) (recipient : String) (read : Bool) (timestamps : List Nat) :
    Inv { s with shared := s.shared.pushReceipt recipient read timestamps } := by
  refine ⟨⟨h.messages, ?_⟩, h.idLe⟩
  have hq : queuedReceipts { s with shared := s.shared.pushReceipt recipient read timestamps } =
      s.queuedReceipts ++ [s.shared.nextReceipt] := by
    unfold queuedReceipts Shared.pushReceipt
    dsimp only
    cases s.sending with
    | receipts jobs => rw [List.map_append, List.append_assoc]; rfl
    | idle | messages => rw [List.map_append]; rfl
  have hr : List.range (s.shared.nextReceipt + 1) =
      List.range s.shared.nextReceipt ++ [s.shared.nextReceipt] := List.range_succ
  rw [hq]
  exact hr ▸ h.receipts.accept fun hm => Nat.lt_irrefl _ (List.mem_range.1 hm)

theorem Inv.markRead (h : s.Inv) (thread : String) :
    Inv { s with shared := s.shared.markRead parseUuid thread } := by
  unfold Shared.markRead
  dsimp only
  generalize Shared.unread parseUuid thread s.shared.history s.shared.readAcked = ms
  generalize ht :
    ({ s.shared with readAcked := ms.map Prod.snd ++ s.shared.readAcked } : Shared) = t
  have h' : Inv { s with shared := t } :=
    ht ▸ h.frame ⟨rfl, rfl, rfl, Nat.le_refl _, fun _ h => h⟩
  clear ht
  generalize (ms.map Prod.fst).dedup = uuids
  induction uuids generalizing t with
  | nil => exact h'
  | cons uuid uuids ih => exact ih _ (h'.pushReceipt uuid true _)

theorem Inv.receive (h : s.Inv) (i : Incoming) :
    Inv { s with shared := s.shared.receive i } := by
  unfold Shared.receive
  split
  · exact h
  · dsimp only
    cases i.outgoing with
    | true => exact h.frame (Shared.frame_addMessage _)
    | false => exact (h.pushReceipt _ _ _).frame (Shared.frame_addMessage _)

theorem Inv.send (h : s.Inv) {thread text : String} {now : Nat}
    (hs : s.shared.send thread text now = .ok t) :
    Inv { s with shared := t, accepted := s.accepted ++ [t.nextId] } := by
  obtain ⟨m, hid, -, -, -, -, -, rfl⟩ := Shared.send_ok hs
  refine ⟨⟨?_, h.receipts⟩, fun id hm => ?_⟩
  · have hq : queued { s with
        shared := { s.shared.addMessage m with
          outbox := s.shared.outbox ++ [⟨thread, text, now, m.id⟩] }
        accepted := s.accepted ++ [s.shared.nextId + 1] } =
        s.queued ++ [s.shared.nextId + 1] := by
      unfold queued
      dsimp only
      cases s.sending with
      | messages pending => rw [List.map_append, List.append_assoc, ← hid]; rfl
      | idle | receipts => rw [List.map_append, ← hid]; rfl
    have ha := h.messages.accept (a := s.shared.nextId + 1) fun hm =>
      Nat.not_succ_le_self _ (h.idLe _ hm)
    exact hq ▸ ha.mono fun id => Shared.isSent_addMessage m
  · rcases List.mem_append.1 hm with hm | hm
    · exact Nat.le_succ_of_le (h.idLe id hm)
    · exact Nat.le_of_eq (List.mem_singleton.1 hm)

theorem Inv.tick (h : s.Inv) (connected : Bool) : (s.tick connected).Inv := by
  obtain ⟨⟨hm, hr⟩, hid⟩ := h
  unfold Engine.tick
  cases hs : s.sending with
  | messages | receipts => exact ⟨⟨hm, hr⟩, hid⟩
  | idle =>
    dsimp only
    split
    · unfold queued at hm
      unfold queuedReceipts at hr
      rw [hs] at hm hr
      refine ⟨⟨?_, hr⟩, hid⟩
      show Kept s.shared.IsSent s.accepted (s.shared.outbox.map Outgoing.id ++ []) s.wired
      rw [List.append_nil]
      exact hm
    · exact ⟨⟨hm, hr⟩, hid⟩

/-- The task goes on when it has nothing left to try. -/
theorem Inv.wire_nothing (h : s.Inv) (o : Outcome) (hs : s.sending = .idle ∨
    s.sending = .messages [] ∨ s.sending = .receipts []) :
    (s.wire o).Inv ∧ s.Delivers (.wire o) := by
  obtain ⟨⟨hm, hr⟩, hid⟩ := h
  unfold queued at hm
  unfold queuedReceipts at hr
  unfold wire Delivers
  dsimp only
  rcases hs with hs | hs | hs
  · rw [hs]
    refine ⟨⟨⟨?_, ?_⟩, hid⟩, trivial⟩
    · unfold queued
      exact hm
    · unfold queuedReceipts
      exact hr
  · rw [hs] at hm hr ⊢
    refine ⟨⟨⟨hm, ?_⟩, hid⟩, trivial⟩
    show Kept _ (List.range s.shared.nextReceipt)
      (s.shared.receiptOutbox.map ReceiptJob.id ++ []) s.acked
    rw [List.append_nil]
    exact hr
  · rw [hs] at hm hr ⊢
    exact ⟨⟨⟨hm, hr⟩, hid⟩, trivial⟩

/-- A try to send a message loses nothing if and only if the message goes out and shows that. -/
theorem Inv.wire_message (h : s.Inv) {m : Outgoing} {pending : List Outgoing}
    (hs : s.sending = .messages (m :: pending)) (o : Outcome) :
    ((s.wire o).NoneLost ↔ s.Delivers (.wire o)) ∧
      ∀ id ∈ (s.wire o).accepted, id ≤ (s.wire o).shared.nextId := by
  obtain ⟨⟨hm, hr⟩, hid⟩ := h
  have hd : s.Delivers (.wire o) = (s.goesOut m o ∧ (s.shared.IsSent m.id ∨
      ∃ m' ∈ s.shared.history.find? (fun m' => m'.ts = m.ts && m'.outgoing), m'.id = m.id)) := by
    unfold Delivers
    dsimp only
    rw [hs]
  unfold queued at hm
  unfold queuedReceipts at hr
  unfold wire
  rw [hd]
  rw [hs] at hm hr ⊢
  dsimp only at hm hr ⊢
  generalize ht : (if s.goesOut m o then s.shared.setStatus m.ts .sent else s.shared) = t
  have hf : Shared.Frame s.shared t := by
    subst ht
    split
    · exact Shared.frame_setStatus _ _
    · exact ⟨rfl, rfl, rfl, Nat.le_refl _, fun _ h => h⟩
  refine ⟨?_, fun id hi => Nat.le_trans (hid id hi) hf.nextId⟩
  have hsent : (s.goesOut m o ∧ t.IsSent m.id) ↔ (s.goesOut m o ∧ (s.shared.IsSent m.id ∨
      ∃ m' ∈ s.shared.history.find? (fun m' => m'.ts = m.ts && m'.outgoing), m'.id = m.id)) := by
    refine and_congr_right fun hb => ?_
    rw [← ht, if_pos hb]
    exact Shared.isSent_setStatus (by decide)
  rw [← hsent, ← hm.take_iff hf.sent]
  constructor
  · intro hn
    have hm' := hn.messages
    unfold queued at hm'
    dsimp only at hm'
    rw [hf.outbox] at hm'
    exact hm'
  · intro hm'
    refine ⟨?_, ?_⟩
    · unfold queued
      dsimp only
      rw [hf.outbox]
      exact hm'
    · unfold queuedReceipts
      dsimp only
      rw [hf.receiptOutbox, hf.nextReceipt]
      exact hr

/-- A try to send a receipt loses nothing if and only if the receipt goes out. -/
theorem Inv.wire_receipt (h : s.Inv) {j : ReceiptJob} {jobs : List ReceiptJob}
    (hs : s.sending = .receipts (j :: jobs)) (o : Outcome) :
    ((s.wire o).NoneLost ↔ s.Delivers (.wire o)) ∧
      ∀ id ∈ (s.wire o).accepted, id ≤ (s.wire o).shared.nextId := by
  obtain ⟨⟨hm, hr⟩, hid⟩ := h
  have hd : s.Delivers (.wire o) = (o.one = true) := by
    unfold Delivers
    dsimp only
    rw [hs]
  unfold queued at hm
  unfold queuedReceipts at hr
  unfold wire
  rw [hd]
  rw [hs] at hm hr ⊢
  dsimp only at hm hr ⊢
  refine ⟨?_, hid⟩
  exact Iff.trans ⟨fun hn => hn.receipts, fun hr' => ⟨hm, hr'⟩⟩
    ((hr.take_iff fun _ h => h).trans (and_iff_left trivial))

/-- A step loses nothing if and only if what is tried to be sent goes out, and shows that. -/
theorem Inv.upholds_iff (h : s.Inv) (parseUuid : String → Option String) (e : Step) :
    ((s.step parseUuid e).NoneLost ↔ s.Delivers e) ∧
      ∀ id ∈ (s.step parseUuid e).accepted, id ≤ (s.step parseUuid e).shared.nextId := by
  have hkeep {t : Engine} (ht : t.Inv) : (t.NoneLost ↔ True) ∧
      ∀ id ∈ t.accepted, id ≤ t.shared.nextId := ⟨iff_true_intro ht.toNoneLost, ht.idLe⟩
  cases e with
  | send thread text now =>
    rw [step]
    cases hs : s.shared.send thread text now with
    | error _ => exact hkeep h
    | ok t => exact hkeep (h.send hs)
  | markRead thread => exact hkeep (h.markRead thread)
  | receive i => exact hkeep (h.receive i)
  | peer a => exact hkeep (h.frame (Shared.frame_next a))
  | callLog e now => exact hkeep (h.frame (Shared.frame_addMessage _))
  | routes groupRoutes =>
    exact hkeep (h.frame ⟨rfl, rfl, rfl, Nat.le_refl _, fun _ h => h⟩)
  | tick connected => exact hkeep (h.tick connected)
  | reconnect => exact hkeep h
  | wire o =>
    have hnone (hn : (s.wire o).Inv ∧ s.Delivers (.wire o)) :
        ((s.wire o).NoneLost ↔ s.Delivers (.wire o)) ∧
          ∀ id ∈ (s.wire o).accepted, id ≤ (s.wire o).shared.nextId :=
      ⟨iff_of_true hn.1.toNoneLost hn.2, hn.1.idLe⟩
    cases hs : s.sending with
    | idle => exact hnone (h.wire_nothing o (.inl hs))
    | messages pending =>
      cases pending with
      | nil => exact hnone (h.wire_nothing o (.inr (.inl hs)))
      | cons m pending => exact h.wire_message hs o
    | receipts jobs =>
      cases jobs with
      | nil => exact hnone (h.wire_nothing o (.inr (.inr hs)))
      | cons j jobs => exact h.wire_receipt hs o

end Engine

/-- A run within one process, from a start from what is on the disk. Nothing is lost in any state
    of it if and only if each message and receipt that is tried to be sent goes out, and each such
    message is the first one of ours of its time. -/
theorem none_lost (parseUuid : String → Option String) (d : Disk)
    (groupRoutes : Table GroupRoute.thread) (es : List Step) :
    Goes (Engine.step · parseUuid) (fun s e => (s.step parseUuid e).NoneLost)
        ⟨Shared.loadState d groupRoutes, .idle, [], [], []⟩ es ↔
      Goes (Engine.step · parseUuid) Engine.Delivers
        ⟨Shared.loadState d groupRoutes, .idle, [], [], []⟩ es := by
  have h : Engine.Inv ⟨Shared.loadState d groupRoutes, .idle, [], [], []⟩ :=
    ⟨⟨.nil, .nil⟩, fun _ h => (List.not_mem_nil h).elim⟩
  generalize (⟨Shared.loadState d groupRoutes, .idle, [], [], []⟩ : Engine) = s at h ⊢
  induction es generalizing s with
  | nil => exact Iff.rfl
  | cons e es ih =>
    obtain ⟨hu, hid⟩ := h.upholds_iff parseUuid e
    rw [Goes, Goes, ← hu]
    exact and_congr_right fun hn => ih _ ⟨hn, hid⟩

/-- A message is sent while the peer cannot be reached. It is taken out of the outbox, and never
    sent. -/
theorem failed_send_loses : ¬ Goes (Engine.step · some) (fun s e => (s.step some e).NoneLost)
    ⟨Shared.loadState {} .empty, .idle, [], [], []⟩
    [.send "bob" "hello" 5, .tick true, .wire ⟨false, []⟩] := by
  rintro ⟨-, -, h, -⟩
  rcases h.messages.kept 1 (by decide) with h | h
  · exact absurd h (by decide)
  · exact absurd h.1 (by decide)

end Wandr.Signal
