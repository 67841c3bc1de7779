import Wandr.Lib.Machine
import Wandr.Lib.Scan
import Wandr.Signal.History

/-!
# Restarts

When the engine starts it puts the history together from the stores on the disk. A store that is
kept by time says the same of all messages of a time, and nothing of those that were still to be
sent.

* `fileName_inj`: the files of attachments are told apart by time and number;
* `Shared.Mirrors.next`: in a step that finds no other message of a time in its way, the stores
  go on saying of each message what the history does;
* `restart_restores`: after such steps a restart restores the history.
-/

namespace Wandr.Signal

open Machine

/-! ## The files of attachments -/

section
variable {ts ts' i i' : Nat} {a a' : Attachment}

theorem toList_fileName : (fileName ts i a).toList =
    Nat.toDigits 10 ts ++
      '_' :: (Nat.toDigits 10 i ++ '.' :: (extension a.contentType).toList) := by
  unfold fileName
  simp only [String.toList_append, Text.toList_toString_nat, List.append_assoc]
  rfl

theorem toDigits_inj {m n : Nat} {c : Char} {cs ds : List Char} (hc : c.isDigit = false)
    (h : Nat.toDigits 10 m ++ c :: cs = Nat.toDigits 10 n ++ c :: ds) : m = n ∧ cs = ds := by
  have ht := congrArg (List.takeWhile Char.isDigit) h
  rw [Text.takeWhile_append (fun _ => Text.isDigit_of_mem_toDigits) hc,
    Text.takeWhile_append (fun _ => Text.isDigit_of_mem_toDigits) hc] at ht
  have hm := Text.magnitude_toDigits m
  rw [ht, Text.magnitude_toDigits] at hm
  rw [ht] at h
  exact ⟨(Option.some.inj hm).symm, List.tail_eq_of_cons_eq (List.append_cancel_left h)⟩

/-- The files of attachments are told apart by time and number. -/
theorem fileName_inj (h : fileName ts i a = fileName ts' i' a') : ts = ts' ∧ i = i' := by
  have hl := congrArg String.toList h
  rw [toList_fileName, toList_fileName] at hl
  obtain ⟨hts, hl⟩ := toDigits_inj (by decide) hl
  exact ⟨hts, (toDigits_inj (by decide) hl).1⟩

/-- The attachments of a message are found again, and other files are left alone. -/
theorem storeAttachments_spec (ts i : Nat) (as : List Attachment) (d : Disk) :
    ∃ files, (storeAttachments ts i as d).1 = { d with files } ∧
      (∀ name, (∀ j b, i ≤ j → name ≠ fileName ts j b) →
        files.get? name = d.files.get? name) ∧
      (storeAttachments ts i as d).2.filterMap
        (loadAttachment (storeAttachments ts i as d).1) = as ∧
      (∀ x ∈ (storeAttachments ts i as d).2, ∃ j b, x.file = fileName ts j b) ∧
      (storeAttachments ts i as d).2.length = as.length := by
  induction as generalizing i d with
  | nil => exact ⟨d.files, rfl, fun _ _ => rfl, rfl, fun _ h => (List.not_mem_nil h).elim, rfl⟩
  | cons a as ih =>
    obtain ⟨files, hd, hkeep, hload, hname, hlen⟩ :=
      ih (i + 1) (d.saveAttachment (fileName ts i a) a.data)
    refine ⟨files, hd, fun name hn => ?_, ?_, List.forall_mem_cons.2 ⟨⟨i, a, rfl⟩, hname⟩,
      congrArg (· + 1) hlen⟩
    · rw [hkeep name fun j b hj => hn j b (Nat.le_of_succ_le hj)]
      refine Table.get?_put.trans (if_neg ?_)
      exact hn i a (Nat.le_refl _)
    · have hf : files.get? (fileName ts i a) = some (fileName ts i a, a.data) := by
        rw [hkeep (fileName ts i a) fun j b hj he =>
          Nat.not_succ_le_self _ ((fileName_inj he).2 ▸ hj)]
        exact Table.get?_put.trans (if_pos rfl)
      have hl : loadAttachment (storeAttachments ts i (a :: as) d).1
          ⟨a.contentType, a.width, a.height, fileName ts i a⟩ = some a := by
        have hs : (storeAttachments ts i (a :: as) d).1.files = files := congrArg Disk.files hd
        unfold loadAttachment Disk.loadAttachment
        rw [hs, hf]
        rfl
      exact (List.filterMap_cons_some hl).trans (congrArg _ hload)

end

/-! ## What the stores say -/

/-- What a message is on the disk. One that is still to be sent is not told from one that was. -/
def Message.settled (m : Message) : Message :=
  if m.status = .sending then { m with status := .sent } else m

section
variable {d d' : Disk} {m : StoredMessage} {id : Nat}

/-- What the stores say of a message. -/
theorem loadMessage_congr (hs : d'.statuses.get? m.ts = d.statuses.get? m.ts)
    (hr : d'.reactions.get? m.ts = d.reactions.get? m.ts)
    (hf : ∀ a ∈ m.attachments, d'.files.get? a.file = d.files.get? a.file) :
    loadMessage d' id m = loadMessage d id m := by
  have ha : m.attachments.filterMap (loadAttachment d') =
      m.attachments.filterMap (loadAttachment d) := by
    refine List.filterMap_congr fun a ha => ?_
    unfold loadAttachment Disk.loadAttachment
    rw [hf a ha]
  unfold loadMessage
  rw [hs, hr, ha]

theorem loadMessage_setStatus (ts : Nat) (new : Delivery) :
    loadMessage (d.setStatus ts (statusCode new)) id m =
      if (loadMessage d id m).ts = ts then { loadMessage d id m with status := new }
      else loadMessage d id m := by
  have hg : (d.setStatus ts (statusCode new)).statuses.get? m.ts =
      if m.ts = ts then some (ts, statusCode new) else d.statuses.get? m.ts := Table.get?_put
  by_cases h : m.ts = ts
  · rw [if_pos h] at hg
    rw [if_pos (show (loadMessage d id m).ts = ts from h)]
    unfold loadMessage
    rw [hg, Option.map_some, Option.getD_some, statusFromCode_statusCode]
    rfl
  · rw [if_neg h] at hg
    rw [if_neg (show (loadMessage d id m).ts ≠ ts from h)]
    exact loadMessage_congr hg rfl fun _ _ => rfl

theorem loadMessage_setReactions (r : Reacted) :
    loadMessage (d.setReactions r) id m =
      if (loadMessage d id m).ts = r.ts then
        { loadMessage d id m with reactions := reactionsToString r.per }
      else loadMessage d id m := by
  have hg : (d.setReactions r).reactions.get? m.ts = if m.ts = r.ts then
      (if r.per.rows.isEmpty then none else some r) else d.reactions.get? m.ts := by
    unfold Disk.setReactions
    split
    · exact Table.get?_erase
    · exact Table.get?_put
  by_cases h : m.ts = r.ts
  · rw [if_pos h] at hg
    rw [if_pos (show (loadMessage d id m).ts = r.ts from h)]
    have hm : (((d.setReactions r).reactions.get? m.ts).map fun r =>
        reactionsToString r.per).getD 0 = reactionsToString r.per := by
      rw [hg]
      split
      · next he =>
        unfold reactionsToString
        rw [List.isEmpty_iff.1 he]
        rfl
      · rfl
    unfold loadMessage
    rw [hm]
    rfl
  · rw [if_neg h] at hg
    rw [if_neg (show (loadMessage d id m).ts ≠ r.ts from h)]
    exact loadMessage_congr rfl hg fun _ _ => rfl

/-- A change of what the stores say of each message. -/
theorem loadHistory_map {f : Message → Message} (hm : d'.messages = d.messages)
    (h : ∀ id m, loadMessage d' id m = f (loadMessage d id m)) :
    loadHistory d' = (loadHistory d).map f := by
  unfold loadHistory
  rw [hm, List.map_map]
  exact List.map_congr_left fun x _ => h _ _

theorem loadHistory_append (h : ∀ m ∈ d.messages, ∀ id, loadMessage d' id m = loadMessage d id m)
    (hm : d'.messages = d.messages ++ [m]) :
    loadHistory d' = loadHistory d ++ [loadMessage d' (d.messages.length + 1) m] := by
  unfold loadHistory
  rw [hm, List.zipIdx_append, List.map_append]
  congr 1
  · refine List.map_congr_left fun x hx => h _ ?_ _
    exact (List.mem_zipIdx' hx).2 ▸ List.getElem_mem _
  · simp

end

/-! ## Runs -/

/-- What happens to the history, and a restart. -/
inductive Event
  | send (thread text : String) (now : Nat)
  | receive (i : Incoming)
  | status (ts : Nat) (new : Delivery)
  | reaction (ts : Nat) (reactor emoji : String) (remove : Bool)
  | callLog (e : EndedCall) (now : Nat)
  | restart

namespace Shared

variable (s : Shared)

def happen : Event → Shared
  | .send thread text now =>
    match s.send thread text now with
    | .ok s' => s'
    | .error _ => s
  | .receive i => s.receive i
  | .status ts new => s.setStatus ts new
  | .reaction ts reactor emoji remove => s.applyReaction ts reactor emoji remove
  | .callLog e now => s.addCallLog e now
  | .restart => loadState s.disk s.groupRoutes

/-- A restart restores the history. -/
def Restores (s : Shared) : Event → Prop
  | .restart => loadHistory s.disk = s.history
  | _ => True

/-- There is at most one message of a time. -/
abbrev AtMostOne (ts : Nat) : Prop := (s.history.filter fun m => m.ts = ts).length ≤ 1

/-- The delivery state that is kept for a time, if any, is that of a message that was sent. -/
abbrev KeptSent (ts : Nat) : Prop := ∀ c ∈ s.disk.statuses.get? ts, statusFromCode c.2 = .sent

/-- A message comes at a time for which no other delivery state is kept; if it is ours, or the
    note of a call, for which no reactions are; and if it has attachments, no other one of its
    time has. A receipt or a reaction is for the only message of its time, or the receipt says
    nothing new. When the engine is restarted, no message is still to be sent. -/
def Apart (s : Shared) : Event → Prop
  | .send _ _ now => s.KeptSent now ∧ s.reactions.get? now = none
  | .callLog _ now => s.KeptSent now ∧ s.reactions.get? now = none
  | .receive i => s.KeptSent (i.wireTs.getD i.now) ∧
      (i.attachments ≠ [] → ∀ m ∈ s.history, m.ts = i.wireTs.getD i.now → m.attachments = [])
  | .status ts new => s.AtMostOne ts ∨
      ∀ m ∈ s.history.find? (fun m => m.ts = ts && m.outgoing), new.rank ≤ m.status.rank
  | .reaction ts _ _ _ => s.AtMostOne ts
  | .restart => ∀ m ∈ s.history, m.status ≠ .sending

instance : (e : Event) → Decidable (s.Restores e)
  | .restart => inferInstanceAs (Decidable (loadHistory s.disk = s.history))
  | .send _ _ _ | .receive _ | .status _ _ | .reaction _ _ _ _ | .callLog _ _ => isTrue trivial

instance : (e : Event) → Decidable (s.Apart e)
  | .send _ _ now => inferInstanceAs (Decidable (s.KeptSent now ∧ s.reactions.get? now = none))
  | .callLog _ now => inferInstanceAs (Decidable (s.KeptSent now ∧ s.reactions.get? now = none))
  | .receive i => inferInstanceAs (Decidable (s.KeptSent (i.wireTs.getD i.now) ∧
      (i.attachments ≠ [] → ∀ m ∈ s.history, m.ts = i.wireTs.getD i.now → m.attachments = [])))
  | .status ts new => inferInstanceAs (Decidable (s.AtMostOne ts ∨
      ∀ m ∈ s.history.find? (fun m => m.ts = ts && m.outgoing), new.rank ≤ m.status.rank))
  | .reaction ts _ _ _ => inferInstanceAs (Decidable (s.AtMostOne ts))
  | .restart => inferInstanceAs (Decidable (∀ m ∈ s.history, m.status ≠ .sending))

/-- The stores say of each message what the history does, but for those still to be sent. -/
structure Mirrors (s : Shared) : Prop where
  loaded : loadHistory s.disk = s.history.map Message.settled
  reactions : s.reactions = s.disk.reactions
  nextId : s.nextId = s.disk.messages.length
  shape : s.disk.messages.map (fun m => (m.ts, m.attachments.length)) =
    s.history.map fun m => (m.ts, m.attachments.length)
  names : ∀ m ∈ s.disk.messages, ∀ a ∈ m.attachments, ∃ i b, a.file = fileName m.ts i b

variable {s}

/-- The reactions that are kept for a time. -/
theorem reactionsString_eq (ts : Nat) : s.reactionsString ts =
    ((s.reactions.get? ts).map fun r => reactionsToString r.per).getD 0 := by
  unfold reactionsString reactionsOf
  cases s.reactions.get? ts <;> rfl

/-- A message is added of which the stores say what it is, and whose files are not those of
    others. -/
theorem Mirrors.addMessage (h : s.Mirrors) {m : Message} (hid : m.id = s.nextId + 1)
    (hs : s.KeptSent m.ts) (hm : m.settled = { m with status := .sent })
    (hr : m.reactions = s.reactionsString m.ts)
    (ha : m.attachments ≠ [] → ∀ m' ∈ s.history, m'.ts = m.ts → m'.attachments = []) :
    (s.addMessage m).Mirrors := by
  obtain ⟨files, hd, hkeep, hload, hname, hlen⟩ :=
    storeAttachments_spec m.ts 0 m.attachments s.disk
  have hdisk : (s.addMessage m).disk =
      { s.disk with files, messages := s.disk.messages ++ [(toStored m s.disk).2] } := by
    have ht : (toStored m s.disk).1 = { s.disk with files } := hd
    dsimp only [Shared.addMessage, Disk.appendMessage]
    rw [ht]
  have hother : ∀ m' ∈ s.disk.messages, ∀ id,
      loadMessage (s.addMessage m).disk id m' = loadMessage s.disk id m' := by
    intro m' hm' id
    rw [hdisk]
    refine loadMessage_congr rfl rfl fun a hma => ?_
    by_cases hne : m.attachments = []
    · -- Without attachments there are no new files.
      rw [hne] at hd
      exact congrArg (Table.get? · a.file) (congrArg Disk.files hd).symm
    · obtain ⟨j, b, hf⟩ := h.names m' hm' a hma
      refine hkeep _ fun j' b' _ he => ?_
      have hts : m'.ts = m.ts := (fileName_inj (hf.symm.trans he)).1
      obtain ⟨x, hx, hxe⟩ := List.mem_map.1
        (h.shape ▸ List.mem_map_of_mem hm' : (m'.ts, m'.attachments.length) ∈
          s.history.map fun m => (m.ts, m.attachments.length))
      obtain ⟨hxt, hxl⟩ := Prod.mk.inj hxe
      rw [ha hne x hx (hxt.trans hts)] at hxl
      exact List.not_mem_nil (List.eq_nil_of_length_eq_zero hxl.symm ▸ hma)
  have hlast : loadMessage (s.addMessage m).disk (s.disk.messages.length + 1)
      (toStored m s.disk).2 = m.settled := by
    have hst : ((s.disk.statuses.get? m.ts).map fun c => statusFromCode c.2).getD .sent =
        .sent := by
      cases hc : s.disk.statuses.get? m.ts with
      | none => rfl
      | some c => exact hs c hc
    have hre : ((s.disk.reactions.get? m.ts).map fun r => reactionsToString r.per).getD 0 =
        m.reactions := by
      rw [hr, reactionsString_eq, h.reactions]
    have hcall : (m.call.map callLogCode).bind callLogFromCode = m.call := by
      cases m.call with
      | none => rfl
      | some c => exact callLogFromCode_callLogCode c
    rw [hd] at hload
    rw [hm, hdisk]
    unfold loadMessage toStored
    dsimp only
    rw [hst, hre, hcall, hid, h.nextId]
    exact congrArg (Message.mk _ _ _ _ _ _ _ _ · _) hload
  have hh : (s.addMessage m).history = s.history ++ [m] := rfl
  refine ⟨?_, ?_, ?_, ?_, ?_⟩
  · rw [loadHistory_append hother (congrArg Disk.messages hdisk), hlast, h.loaded, hh,
      List.map_append, List.map_singleton]
  · rw [hdisk]
    exact h.reactions
  · rw [hdisk, List.length_append]
    exact congrArg (· + 1) h.nextId
  · have hl : (toStored m s.disk).2.attachments.length = m.attachments.length := hlen
    rw [hdisk, hh, List.map_append, h.shape, List.map_append, List.map_singleton, hl]
    rfl
  · rw [hdisk]
    refine List.forall_mem_append.2 ⟨h.names, fun m' hm' => ?_⟩
    cases List.mem_singleton.1 hm'
    exact hname

/-- The only message of a time is changed, in the history and in what the stores say. -/
theorem Mirrors.modify (h : s.Mirrors) {ts : Nat} {p : Message → Bool} {f : Message → Message}
    (ha : s.AtMostOne ts) (hp : ∀ m, p m → m.ts = ts)
    (hf : ∀ m, (f m).ts = m.ts ∧ (f m).attachments = m.attachments)
    (hset : ∀ m, (f m).settled = f m.settled) {t : Shared}
    (hh : t.history = First.modify p f s.history)
    (hl : ∀ id m, loadMessage t.disk id m = if (loadMessage s.disk id m).ts = ts then
      f (loadMessage s.disk id m) else loadMessage s.disk id m)
    (hfound : ∀ m ∈ s.history, m.ts = ts → p m)
    (hd : t.disk.messages = s.disk.messages) (hr : t.reactions = t.disk.reactions)
    (hn : t.nextId = s.nextId) : t.Mirrors := by
  have hmap : First.modify p f s.history = s.history.map fun m => if p m then f m else m := by
    refine First.modify_eq_map (Nat.le_trans ?_ ha)
    rw [← List.countP_eq_length_filter, ← List.countP_eq_length_filter]
    exact List.countP_mono_left fun m _ hm => decide_eq_true (hp m hm)
  refine ⟨?_, hr, ?_, ?_, hd ▸ h.names⟩
  · rw [loadHistory_map (f := fun m => if m.ts = ts then f m else m) hd hl, h.loaded, hh, hmap,
      List.map_map, List.map_map]
    refine List.map_congr_left fun m hm => ?_
    have hts : m.settled.ts = m.ts := by
      unfold Message.settled
      split <;> rfl
    by_cases hmt : m.ts = ts
    · exact (if_pos (hts.trans hmt)).trans
        ((hset m).symm.trans (congrArg _ (if_pos (hfound m hm hmt)).symm))
    · exact (if_neg (hts ▸ hmt)).trans (congrArg _ (if_neg fun hpm => hmt (hp m hpm)).symm)
  · rw [hn, hd]
    exact h.nextId
  · rw [hd, hh, First.map_modify (g := fun m => (m.ts, m.attachments.length))
      fun m _ => Prod.ext (hf m).1 (congrArg List.length (hf m).2)]
    exact h.shape

theorem Mirrors.setStatus (h : s.Mirrors) {ts : Nat} {new : Delivery}
    (ha : s.Apart (.status ts new)) : (s.setStatus ts new).Mirrors := by
  have hh : (s.setStatus ts new).history =
      First.modify (fun m => m.ts = ts && m.outgoing) (fun m => m.advance new) s.history :=
    setStatus_history
  unfold Shared.setStatus
  cases hf : s.history.find? fun m => m.ts = ts && m.outgoing with
  | none => exact h
  | some a =>
    dsimp only
    split
    · next hlt =>
      have hpa := List.find?_some hf
      replace ha : s.AtMostOne ts := ha.resolve_right fun hn => Nat.not_lt.2 (hn a hf) hlt
      have hne : new ≠ .sending := fun he => Nat.not_lt_zero _ (he ▸ hlt)
      refine h.modify (p := fun m => m.ts = ts && m.outgoing)
        (f := fun m => { m with status := new }) ha
        (fun m hm => of_decide_eq_true (Bool.and_eq_true_iff.1 hm).1) (fun _ => ⟨rfl, rfl⟩)
        (fun m => ?_) rfl (fun _ _ => loadMessage_setStatus ts new) (fun m hm hmt => ?_) rfl
        h.reactions rfl
      · unfold Message.settled
        rw [if_neg hne]
        split <;> rfl
      · -- The message that was found is the only one of its time.
        have hat := of_decide_eq_true (Bool.and_eq_true_iff.1 hpa).1
        rw [First.eq_of_filter ha hm (decide_eq_true hmt) (List.mem_of_find?_eq_some hf)
          (decide_eq_true hat)]
        exact hpa
    · exact h

theorem Mirrors.applyReaction (h : s.Mirrors) {ts : Nat} (reactor emoji : String) (remove : Bool)
    (ha : s.AtMostOne ts) : (s.applyReaction ts reactor emoji remove).Mirrors := by
  refine h.modify (p := fun m => m.ts = ts)
    (f := fun m => { m with reactions := reactionsToString (s.react ts reactor emoji remove).per })
    ha (fun m hm => of_decide_eq_true hm) (fun _ => ⟨rfl, rfl⟩) (fun m => ?_) applyReaction_history
    (fun _ _ => loadMessage_setReactions (s.react ts reactor emoji remove))
    (fun m _ hmt => decide_eq_true hmt) rfl ?_ rfl
  · unfold Message.settled
    dsimp only
    split <;> rfl
  · unfold Shared.applyReaction Disk.setReactions
    dsimp only
    rw [h.reactions]
    rfl

/-- A message of which no reactions are kept. -/
theorem Mirrors.addNew (h : s.Mirrors) {m : Message} (hid : m.id = s.nextId + 1)
    (hs : s.KeptSent m.ts) (hm : m.settled = { m with status := .sent })
    (hr : m.reactions = 0) (hk : s.reactions.get? m.ts = none) (ha : m.attachments = []) :
    (s.addMessage m).Mirrors := by
  refine h.addMessage hid hs hm ?_ fun hne => absurd ha hne
  rw [reactionsString_eq, hk, hr]
  rfl

theorem Mirrors.receive (h : s.Mirrors) {i : Incoming} (ha : s.Apart (.receive i)) :
    (s.receive i).Mirrors := by
  unfold Shared.receive
  split
  · exact h
  · dsimp only
    cases i.outgoing with
    | true => exact h.addMessage rfl ha.1 rfl rfl ha.2
    | false =>
      have hp : (s.pushReceipt i.peer false [i.wireTs.getD i.now]).Mirrors :=
        ⟨h.loaded, h.reactions, h.nextId, h.shape, h.names⟩
      exact hp.addMessage rfl ha.1 rfl rfl ha.2

/-- A restart restores the history, unless a message is still to be sent. -/
theorem Mirrors.restores (h : s.Mirrors) (hn : ∀ m ∈ s.history, m.status ≠ .sending) :
    loadHistory s.disk = s.history := by
  have hm : s.history.map Message.settled = s.history.map id :=
    List.map_congr_left fun m hm => if_neg (hn m hm)
  rw [h.loaded, hm, List.map_id]

theorem Mirrors.next (h : s.Mirrors) (e : Event) (ha : s.Apart e) : (s.happen e).Mirrors := by
  cases e with
  | send thread text now =>
    rw [happen]
    cases hs : s.send thread text now with
    | error _ => exact h
    | ok s' =>
      obtain ⟨m, hid, rfl, -, hst, hr, hat, rfl⟩ := send_ok hs
      have hm := h.addNew hid ha.1 (if_pos hst) hr ha.2 hat
      exact ⟨hm.loaded, hm.reactions, hm.nextId, hm.shape, hm.names⟩
  | receive i => exact h.receive ha
  | status ts new => exact h.setStatus ha
  | reaction ts reactor emoji remove => exact h.applyReaction reactor emoji remove ha
  | callLog e now => exact h.addNew rfl ha.1 rfl rfl ha.2 rfl
  | restart =>
    have hl := h.restores ha
    have hh : (s.happen .restart).history = s.history := hl
    refine ⟨?_, rfl, rfl, ?_, h.names⟩
    · rw [hh]
      exact h.loaded
    · rw [hh]
      exact h.shape

end Shared

/-- In every run in which no message gets in the way of another one of its time, and which is
    restarted when no message is still to be sent, a restart restores the history. -/
theorem restart_restores (es : List Event) (h : Goes Shared.happen Shared.Apart {} es) :
    Goes Shared.happen Shared.Restores {} es := by
  have hm : Shared.Mirrors {} := ⟨rfl, rfl, rfl, rfl, fun _ h => (List.not_mem_nil h).elim⟩
  generalize ({} : Shared) = s at h hm
  induction es generalizing s with
  | nil => trivial
  | cons e es ih =>
    refine ⟨?_, ih _ h.2 (hm.next e h.1)⟩
    cases e with
    | restart => exact hm.restores h.1
    | send | receive | status | reaction | callLog => trivial

/-- A picture that someone sent at a time. -/
def picture (peer : String) (bytes : List UInt8) (ts : Nat) : Incoming :=
  ⟨peer, none, false, none, some ts, [⟨"image/jpeg", bytes, 1, 1⟩], 100⟩

/-- A message is sent and read, a picture comes to which someone has already reacted, a call is
    noted. -/
def anEvening : List Event :=
  [.send "bob" "hello" 5, .status 5 .sent, .status 5 .read, .reaction 7 "bob" "+" false,
    .receive (picture "carol" [1, 2] 7), .callLog ⟨"bob", true, true, false, false⟩ 9, .restart]

theorem restart_restores_sample : Goes Shared.happen Shared.Restores {} anEvening :=
  restart_restores anEvening (by decide)

/-- Bob and Carol send a picture each at the same time. After a restart the one of Carol is in the
    thread with Bob. -/
theorem same_picture : ¬ Goes Shared.happen Shared.Restores {}
    [.receive (picture "bob" [1] 5), .receive (picture "carol" [2] 5), .restart] := by
  decide

end Wandr.Signal
