import Wandr.Lib.Machine
import Wandr.Signal.History

/-!
# Receipts and reactions

A receipt or a reaction is about a message that its sender has got: one of the thread with the
sender, or of a group that the sender is in. The engine looks for it by its time in the whole
history. Another message of the same time, in another thread, may come first.

* `Shared.confined_iff`: when a receipt or a reaction is confined to the threads of its sender;
* `acts_where_it_belongs`: in a run of them each is, if and only if each is for the first message
  of its time, or has nothing to change; and then two histories that are the same on the threads
  of a sender stay so.
-/

namespace Wandr.Signal

open Machine

/-- What a receipt or a reaction says of the message of a time. -/
inductive About
  | status (ts : Nat) (new : Delivery)
  | reaction (ts : Nat) (emoji : String) (remove : Bool)

/-- A part of a receipt, or a reaction, and who sent it. -/
structure PeerAct where
  sender : String
  about : About

namespace Shared

variable (s : Shared)

/-- A receipt says something of one time after the other, and a reaction of one. A reaction
    without an emoji is none. -/
def next (a : PeerAct) : Shared :=
  match a.about with
  | .status ts new => s.setStatus ts new
  | .reaction ts emoji remove =>
    if remove || !emoji.isEmpty then s.applyReaction ts a.sender emoji remove else s

/-- A thread is of a sender: the one with the sender, or that of a group that the sender is in.
    Our own devices are in every thread. -/
def belongs (us : String) (sender : String) (m : Message) : Bool :=
  sender = us || m.thread = sender ||
    s.groupRoutes.rows.any fun g => g.thread = m.thread && g.members.contains sender

/-- The engine without the other threads. -/
def own (us sender : String) : Shared :=
  { s with history := s.history.filter (s.belongs us sender) }

/-- What is done is done in the threads of the sender, as if there were no others. -/
def Confined (us : String) (s : Shared) (a : PeerAct) : Prop :=
  (s.next a).history.filter (!s.belongs us a.sender ·) =
      s.history.filter (!s.belongs us a.sender ·) ∧
    (s.next a).history.filter (s.belongs us a.sender) = ((s.own us a.sender).next a).history

/-- A message of a time, or of ours of that time. -/
def matchesTime : About → Message → Bool
  | .status ts _, m => m.ts = ts && m.outgoing
  | .reaction ts _ _, m => m.ts = ts

/-- A message is already as a receipt or a reaction would make it. -/
def Settled (s : Shared) (sender : String) (m : Message) : About → Prop
  | .status _ new => new.rank ≤ m.status.rank
  | .reaction ts emoji remove => (remove || !emoji.isEmpty) = true →
      m.reactions = reactionsToString (s.react ts sender emoji remove).per

/-- The first message of the time is in a thread of the sender. If not, neither it nor the first
    one in a thread of the sender is to be changed. -/
def ForFirst (us : String) (s : Shared) (a : PeerAct) : Prop :=
  ∀ m ∈ s.history.find? (matchesTime a.about), s.belongs us a.sender m ∨
    (s.Settled a.sender m a.about ∧
      ∀ m' ∈ (s.own us a.sender).history.find? (matchesTime a.about),
        s.Settled a.sender m' a.about)

variable {s} {t : Shared} {us : String} {a : PeerAct}

/-- What a receipt or a reaction makes of a message. -/
def change (s : Shared) (sender : String) (m : Message) : About → Message
  | .status _ new => m.advance new
  | .reaction ts emoji remove =>
    if remove || !emoji.isEmpty then
      { m with reactions := reactionsToString (s.react ts sender emoji remove).per }
    else m

theorem next_history (s : Shared) (a : PeerAct) :
    (s.next a).history =
      First.modify (matchesTime a.about) (s.change a.sender · a.about) s.history := by
  obtain ⟨sender, about⟩ := a
  cases about with
  | status ts new => exact setStatus_history
  | reaction ts emoji remove =>
    unfold next
    dsimp only [change]
    split
    · exact applyReaction_history
    · exact (First.modify_eq_self.2 fun _ _ => rfl).symm

/-- A message is changed unless it is already as it would be made. -/
theorem change_eq_self {m : Message} (sender : String) (b : About) :
    s.change sender m b = m ↔ s.Settled sender m b := by
  cases b with
  | status ts new =>
    dsimp only [change, Message.advance, Settled]
    split
    · next hlt =>
      refine iff_of_false (fun h => ?_) (Nat.not_le.2 hlt)
      have hs : new = m.status := congrArg Message.status h
      rw [hs] at hlt
      exact Nat.lt_irrefl _ hlt
    · next hge => exact iff_of_true rfl (Nat.not_lt.1 hge)
  | reaction ts emoji remove =>
    dsimp only [change, Settled]
    split
    · next hr =>
      refine ⟨fun h _ => (congrArg Message.reactions h).symm, fun h => ?_⟩
      rw [← h hr]
    · next hr => exact iff_of_true rfl fun h => absurd h hr

theorem belongs_change {sender : String} {b : About} (x : String) (m : Message) :
    s.belongs us sender (s.change x m b) = s.belongs us sender m := by
  have ht : (s.change x m b).thread = m.thread := by
    cases b with
    | status ts new =>
      dsimp only [change, Message.advance]
      split <;> rfl
    | reaction ts emoji remove =>
      dsimp only [change]
      split <;> rfl
  unfold belongs
  rw [ht]

/-- A receipt or a reaction is confined to the threads of its sender if and only if it is for the
    first message of its time, or there is nothing to change. -/
theorem confined_iff : s.Confined us a ↔ s.ForFirst us a := by
  have hc : s.Confined us a ↔ First.Confined (s.belongs us a.sender) (matchesTime a.about)
      (s.change a.sender · a.about) s.history := by
    unfold Confined
    rw [next_history, next_history]
    rfl
  rw [hc, First.modify_confined fun m => belongs_change a.sender m]
  unfold ForFirst own
  simp only [change_eq_self]

/-- Two histories are the same on the threads of a sender. -/
structure SameThreads (us sender : String) (s t : Shared) : Prop where
  history : (s.own us sender).history = (t.own us sender).history
  reactions : s.reactions = t.reactions
  groupRoutes : s.groupRoutes = t.groupRoutes

theorem react_congr (h : s.reactions = t.reactions) (ts : Nat) (reactor emoji : String)
    (remove : Bool) : s.react ts reactor emoji remove = t.react ts reactor emoji remove := by
  unfold react reactionsOf
  rw [h]

/-- A receipt or a reaction is about messages, not about groups, and leaves the reactions as they
    would be left in any history. -/
theorem next_frame (h : s.reactions = t.reactions) :
    (s.next a).groupRoutes = s.groupRoutes ∧ (s.next a).reactions = (t.next a).reactions := by
  have hst (s : Shared) (ts : Nat) (new : Delivery) :
      (s.setStatus ts new).groupRoutes = s.groupRoutes ∧
        (s.setStatus ts new).reactions = s.reactions := by
    unfold setStatus
    split
    · split
      · exact ⟨rfl, rfl⟩
      · exact ⟨rfl, rfl⟩
    · exact ⟨rfl, rfl⟩
  obtain ⟨sender, about⟩ := a
  unfold next
  cases about with
  | status ts new =>
    exact ⟨(hst s ts new).1, ((hst s ts new).2.trans h).trans (hst t ts new).2.symm⟩
  | reaction ts emoji remove =>
    dsimp only
    split
    · refine ⟨rfl, ?_⟩
      dsimp only [applyReaction]
      rw [react_congr h, h]
    · exact ⟨rfl, h⟩

theorem own_next_history : ((s.next a).own us a.sender).history =
    (s.next a).history.filter (s.belongs us a.sender) := by
  have hg : (s.next a).groupRoutes = s.groupRoutes := (next_frame (t := s) rfl).1
  unfold own belongs
  rw [hg]

theorem change_congr (h : s.reactions = t.reactions) (x : String) (m : Message) (b : About) :
    s.change x m b = t.change x m b := by
  cases b with
  | status ts new => rfl
  | reaction ts emoji remove =>
    rw [change, change, react_congr h]

/-- What is done in the threads of the sender only is done in the same way to both histories. -/
theorem SameThreads.next (h : SameThreads us a.sender s t) (hs : s.Confined us a)
    (ht : t.Confined us a) : SameThreads us a.sender (s.next a) (t.next a) := by
  have hr : (s.own us a.sender).reactions = (t.own us a.sender).reactions := h.reactions
  refine ⟨?_, (next_frame h.reactions).2, ?_⟩
  · rw [own_next_history, own_next_history, hs.2, ht.2, next_history, next_history, h.history]
    exact congrArg (First.modify (matchesTime a.about) · _)
      (funext fun m => change_congr hr a.sender m a.about)
  · rw [(next_frame (t := s) rfl).1, (next_frame (t := t) rfl).1, h.groupRoutes]

end Shared

/-- Each receipt or reaction changes messages of the threads of its sender only, and does so as if
    there were no other threads, if and only if it is for the first message of its time, or there
    is nothing to change. Then two histories that are the same on the threads of a sender stay
    so. -/
theorem acts_where_it_belongs (us : String) (s : Shared) (as : List PeerAct) :
    (Goes Shared.next (Shared.Confined us) s as ↔
      Goes Shared.next (Shared.ForFirst us) s as) ∧
    ∀ (t : Shared) (sender : String), Shared.SameThreads us sender s t →
      (∀ a ∈ as, a.sender = sender) → Goes Shared.next (Shared.ForFirst us) s as →
      Goes Shared.next (Shared.ForFirst us) t as →
      Shared.SameThreads us sender (as.foldl Shared.next s) (as.foldl Shared.next t) := by
  induction as generalizing s with
  | nil => exact ⟨Iff.rfl, fun _ _ h _ _ _ => h⟩
  | cons a as ih =>
    constructor
    · rw [Goes, Goes, Shared.confined_iff]
      exact and_congr_right fun _ => (ih _).1
    · intro t sender h ha hs ht
      obtain rfl := ha a List.mem_cons_self
      exact (ih _).2 _ _ (h.next (Shared.confined_iff.2 hs.1) (Shared.confined_iff.2 ht.1))
        (fun b hb => ha b (List.mem_cons_of_mem _ hb)) hs.2 ht.2

/-- A message to Bob. -/
def toBob : Message :=
  { id := 1
    sender := "me"
    text := "hello"
    ts := 5
    outgoing := true
    thread := "bob"
    status := .sent
    reactions := 0
    attachments := []
    call := none }

/-- Mallory, who has not got it, says that it was read. Then it shows as read. -/
theorem foreign_receipt :
    ¬ ({ history := [toBob] } : Shared).Confined "me" ⟨"mallory", .status 5 .read⟩ := by
  intro h
  exact absurd h.1 (by decide)

end Wandr.Signal
