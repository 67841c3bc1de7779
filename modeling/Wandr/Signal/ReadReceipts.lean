import Mathlib.Data.List.Dedup
import Wandr.Lib.Machine
import Wandr.Signal.History

/-!
# Read receipts

When a thread is marked read, its messages that came from others are acknowledged. Which ones were
acknowledged is only known by their times, whoever sent them.

* `Reading.step`: messages come, and threads are marked read;
* `Reading.Acked`: each message of a thread that was marked read since is acknowledged once;
* `Reading.Apart`: no message is taken for another one of its time;
* `acked_once`: the one holds throughout a run if and only if the other does.
-/

namespace Wandr.Signal

open Machine

/-- The engine, and its messages, each with whether its thread was marked read after it came. -/
structure Reading where
  shared : Shared := {}
  log : List (Message × Bool) := []

inductive Act
  | receive (i : Incoming)
  | markRead (thread : String)

/-- The messages that are acknowledged as read: to whom, and their times. -/
def Shared.reads (s : Shared) : List (String × Nat) :=
  (s.receiptOutbox.filter (·.read)).flatMap fun j => j.timestamps.map fun ts => (j.recipient, ts)

namespace Reading

def step (parseUuid : String → Option String) (s : Reading) : Act → Reading
  | .receive i =>
    let shared := s.shared.receive i
    { shared
      log := s.log ++ (shared.history.drop s.shared.history.length).map fun m => (m, false) }
  | .markRead thread =>
    { shared := s.shared.markRead parseUuid thread
      log := s.log.map fun e => (e.1, e.2 || e.1.thread = thread) }

variable (s : Reading)

/-- What a receipt says: who sent a message, and when. -/
def receipt (m : Message) : String × Nat := (m.sender, m.ts)

/-- Each message of others in a thread that was marked read since it came is acknowledged to its
    sender, once, and nothing else is. -/
structure Acked : Prop where
  once : ∀ e ∈ s.log, e.1.outgoing = false →
    s.shared.reads.count (receipt e.1) = if e.2 then 1 else 0
  only : ∀ r ∈ s.shared.reads, ∃ e ∈ s.log, e.1.outgoing = false ∧ e.2 ∧ receipt e.1 = r

/-- No message is taken for another one of its time: one that comes is not acknowledged already,
    and of those that are marked read with a thread, the messages of the same time are not
    acknowledged, and are in the thread if and only if they are of the same sender. -/
def Apart : Act → Prop
  | .receive i => ∀ m ∈ (s.shared.receive i).history.drop s.shared.history.length,
    m.outgoing = false → ∀ e ∈ s.log, e.1.outgoing = false → e.2 → receipt e.1 ≠ receipt m
  | .markRead thread => ∀ e ∈ s.log, e.1.outgoing = false → e.1.thread = thread → e.2 = false →
    ∀ e' ∈ s.log, e'.1.outgoing = false → e'.1.ts = e.1.ts →
      e'.2 = false ∧ (e'.1.thread = thread ↔ e'.1.sender = e.1.sender)

instance decidableApart : (a : Act) → Decidable (s.Apart a)
  | .receive i =>
    inferInstanceAs (Decidable (∀ m ∈ (s.shared.receive i).history.drop s.shared.history.length,
      m.outgoing = false → ∀ e ∈ s.log, e.1.outgoing = false → e.2 → receipt e.1 ≠ receipt m))
  | .markRead thread =>
    inferInstanceAs (Decidable (∀ e ∈ s.log, e.1.outgoing = false → e.1.thread = thread →
      e.2 = false → ∀ e' ∈ s.log, e'.1.outgoing = false → e'.1.ts = e.1.ts →
        e'.2 = false ∧ (e'.1.thread = thread ↔ e'.1.sender = e.1.sender)))

end Reading

/-- Senders are spelled as they are when they are written out. -/
def Act.Named (parseUuid : String → Option String) : Act → Prop
  | .receive i => parseUuid i.peer = some i.peer
  | .markRead _ => True

/-! ## What is acknowledged -/

/-- What is filed under each of some keys is what has one of them. -/
theorem flatMap_filter_perm {α κ : Type} [DecidableEq κ] (key : α → κ) {ks : List κ}
    (hk : ks.Nodup) (l : List α) :
    (ks.flatMap fun k => l.filter fun a => key a = k).Perm (l.filter fun a => key a ∈ ks) := by
  induction ks with
  | nil => simp
  | cons k ks ih =>
    have hn := List.nodup_cons.1 hk
    have hsplit := List.filter_append_perm (fun a => key a = k) (l.filter fun a => key a ∈ k :: ks)
    rw [List.filter_filter, List.filter_filter] at hsplit
    rw [List.flatMap_cons]
    refine ((ih hn.2).append_left _).trans (.trans (.of_eq ?_) hsplit)
    congr 1 <;> refine List.filter_congr fun a _ => ?_
    · by_cases ha : key a = k <;> simp [ha]
    · by_cases ha : key a = k
      · simp [ha, hn.1]
      · simp [ha]

namespace Shared

variable {s : Shared} {parseUuid : String → Option String} {thread : String} {ms : List Message}
  {acked : List Nat} {r : String × Nat} {m : Message}

/-- Each of the messages that are taken is one of the thread that came from others, and its time is
    not acknowledged. -/
theorem mem_unread (h : r ∈ unread parseUuid thread ms acked) : r.2 ∉ acked ∧
    ∃ m ∈ ms, m.thread = thread ∧ m.outgoing = false ∧ parseUuid m.sender = some r.1 ∧
      m.ts = r.2 := by
  induction ms generalizing acked with
  | nil => cases h
  | cons m ms ih =>
    rw [unread] at h
    split at h
    · next hm =>
      obtain ⟨ht, ho, ha⟩ := hm
      cases hu : parseUuid m.sender with
      | none =>
        rw [hu] at h
        obtain ⟨hr, m', hm', h'⟩ := ih h
        exact ⟨hr, m', List.mem_cons_of_mem _ hm', h'⟩
      | some uuid =>
        rw [hu] at h
        rcases List.mem_cons.1 h with rfl | h
        · exact ⟨ha, m, List.mem_cons_self, ht, ho, hu, rfl⟩
        · obtain ⟨hr, m', hm', h'⟩ := ih h
          exact ⟨fun hr' => hr (List.mem_cons_of_mem _ hr'), m', List.mem_cons_of_mem _ hm', h'⟩
    · obtain ⟨hr, m', hm', h'⟩ := ih h
      exact ⟨hr, m', List.mem_cons_of_mem _ hm', h'⟩

/-- No time is taken twice. -/
theorem nodup_unread : ((unread parseUuid thread ms acked).map Prod.snd).Nodup := by
  induction ms generalizing acked with
  | nil => exact List.nodup_nil
  | cons m ms ih =>
    rw [unread]
    split
    · cases parseUuid m.sender with
      | none => exact ih
      | some uuid =>
        refine List.nodup_cons.2 ⟨fun hm => ?_, ih⟩
        obtain ⟨r, hr, hts⟩ := List.mem_map.1 hm
        exact (mem_unread hr).1 (hts ▸ List.mem_cons_self)
    · exact ih

/-- The time of each message of the thread that came from others is acknowledged, or taken. -/
theorem taken_unread (hm : m ∈ ms) (ht : m.thread = thread) (ho : m.outgoing = false)
    (hp : (parseUuid m.sender).isSome) :
    m.ts ∈ acked ∨ ∃ r ∈ unread parseUuid thread ms acked, r.2 = m.ts := by
  induction ms generalizing acked with
  | nil => cases hm
  | cons m' ms ih =>
    rw [unread]
    by_cases ha : m.ts ∈ acked
    · exact .inl ha
    refine .inr ?_
    rcases List.mem_cons.1 hm with rfl | hm
    · obtain ⟨uuid, hu⟩ := Option.isSome_iff_exists.1 hp
      rw [if_pos ⟨ht, ho, ha⟩, hu]
      exact ⟨_, List.mem_cons_self, rfl⟩
    · split
      · cases parseUuid m'.sender with
        | none => exact (ih hm).resolve_left ha
        | some uuid =>
          have hrest : m.ts ∈ m'.ts :: acked ∨
              ∃ r ∈ unread parseUuid thread ms (m'.ts :: acked), r.2 = m.ts := ih hm
          rcases hrest with h | ⟨r, hr, hts⟩
          · rcases List.mem_cons.1 h with he | h
            · exact ⟨_, List.mem_cons_self, he.symm⟩
            · exact absurd h ha
          · exact ⟨r, List.mem_cons_of_mem _ hr, hts⟩
      · exact (ih hm).resolve_left ha

/-! ### Jobs -/

theorem reads_pushReceipt {uuid : String} {read : Bool} {timestamps : List Nat} :
    (s.pushReceipt uuid read timestamps).reads =
      s.reads ++ if read then timestamps.map fun ts => (uuid, ts) else [] := by
  cases read <;> simp [reads, pushReceipt]

/-- The jobs of a thread that is marked read are what is taken of its messages. -/
theorem reads_markRead : (s.markRead parseUuid thread).reads.Perm
    (s.reads ++ unread parseUuid thread s.history s.readAcked) := by
  unfold markRead
  generalize unread parseUuid thread s.history s.readAcked = rs
  have hjobs (uuids : List String) (t : Shared) : (uuids.foldl (fun s uuid =>
      s.pushReceipt uuid true ((rs.filter fun r => r.1 = uuid).map Prod.snd)) t).reads =
      t.reads ++ uuids.flatMap fun uuid => rs.filter fun r => r.1 = uuid := by
    induction uuids generalizing t with
    | nil => exact (List.append_nil _).symm
    | cons uuid uuids ih =>
      have hown : ((rs.filter fun r => r.1 = uuid).map Prod.snd).map (fun ts => (uuid, ts)) =
          rs.filter fun r => r.1 = uuid := by
        rw [List.map_map]
        refine (List.map_congr_left fun r hr => ?_).trans (List.map_id _)
        rw [Function.comp_apply, ← of_decide_eq_true (List.mem_filter.1 hr).2]
        rfl
      rw [List.foldl_cons, ih, reads_pushReceipt, if_pos rfl, hown, List.append_assoc,
        List.flatMap_cons]
  have hall : (rs.filter fun r => r.1 ∈ (rs.map Prod.fst).dedup) = rs := by
    refine List.filter_eq_self.2 fun r hr => decide_eq_true ?_
    exact List.mem_dedup.2 (List.mem_map_of_mem hr)
  refine (List.Perm.of_eq (hjobs _ _)).trans (List.Perm.append_left _ ?_)
  exact (flatMap_filter_perm Prod.fst (List.nodup_dedup _) rs).trans (.of_eq hall)

theorem frame_markRead (s : Shared) (parseUuid : String → Option String) (thread : String) :
    (s.markRead parseUuid thread).history = s.history ∧
    (s.markRead parseUuid thread).readAcked =
      (unread parseUuid thread s.history s.readAcked).map Prod.snd ++ s.readAcked := by
  unfold markRead
  generalize unread parseUuid thread s.history s.readAcked = rs
  dsimp only
  generalize (rs.map Prod.fst).dedup = uuids
  have hkeep (t : Shared) : (uuids.foldl (fun s uuid =>
      s.pushReceipt uuid true ((rs.filter fun r => r.1 = uuid).map Prod.snd)) t).history =
        t.history ∧ (uuids.foldl (fun s uuid =>
      s.pushReceipt uuid true ((rs.filter fun r => r.1 = uuid).map Prod.snd)) t).readAcked =
        t.readAcked := by
    induction uuids generalizing t with
    | nil => exact ⟨rfl, rfl⟩
    | cons uuid uuids ih => exact ih _
  exact hkeep _

/-- A message that comes is put behind the others, and acknowledged as delivered only. -/
theorem receive_spec (s : Shared) (i : Incoming) : ∃ new, (s.receive i).history = s.history ++ new ∧
    (s.receive i).reads = s.reads ∧ (s.receive i).readAcked = s.readAcked ∧
    ∀ m ∈ new, m.outgoing = false → m.sender = i.peer := by
  unfold receive
  split
  · exact ⟨[], (List.append_nil _).symm, rfl, rfl, fun m hm => absurd hm List.not_mem_nil⟩
  · dsimp only
    cases ho : i.outgoing with
    | true =>
      refine ⟨_, rfl, rfl, rfl, fun m hm h => ?_⟩
      rw [List.mem_singleton.1 hm] at h
      cases h
    | false =>
      refine ⟨_, rfl, ?_, rfl, fun m hm _ => ?_⟩
      · exact reads_pushReceipt.trans (List.append_nil _)
      · rw [List.mem_singleton.1 hm]
        rfl

end Shared

namespace Reading

variable {s : Reading} {parseUuid : String → Option String} {a : Act}

/-- What holds whatever comes: a time is acknowledged if a message of it was marked read. -/
structure Inv (parseUuid : String → Option String) (s : Reading) : Prop where
  history : s.log.map Prod.fst = s.shared.history
  acked : ∀ ts, ts ∈ s.shared.readAcked ↔
    ∃ e ∈ s.log, e.1.outgoing = false ∧ e.2 = true ∧ e.1.ts = ts
  named : ∀ e ∈ s.log, e.1.outgoing = false → parseUuid e.1.sender = some e.1.sender

/-- What is taken of a thread when it is marked read. -/
def taken (s : Reading) (parseUuid : String → Option String) (thread : String) :
    List (String × Nat) :=
  Shared.unread parseUuid thread s.shared.history s.shared.readAcked

variable {thread : String} {r r' : String × Nat} {e : Message × Bool}

/-- What is taken of a thread are receipts for its messages. -/
theorem Inv.of_mem_taken (h : Inv parseUuid s) (hr : r ∈ s.taken parseUuid thread) :
    r.2 ∉ s.shared.readAcked ∧
      ∃ e ∈ s.log, e.1.thread = thread ∧ e.1.outgoing = false ∧ receipt e.1 = r := by
  obtain ⟨ha, m, hm, ht, ho, hp, hts⟩ := Shared.mem_unread hr
  rw [← h.history] at hm
  obtain ⟨e, he, rfl⟩ := List.mem_map.1 hm
  have hs : e.1.sender = r.1 := Option.some.inj ((h.named e he ho).symm.trans hp)
  exact ⟨ha, e, he, ht, ho, Prod.ext hs hts⟩

theorem Inv.exists_taken (h : Inv parseUuid s) (he : e ∈ s.log) (ho : e.1.outgoing = false)
    (ha : e.1.ts ∉ s.shared.readAcked) :
    ∃ r ∈ s.taken parseUuid e.1.thread, r.2 = e.1.ts := by
  have hm : e.1 ∈ s.shared.history := h.history ▸ List.mem_map_of_mem he
  exact (Shared.taken_unread hm rfl ho (Option.isSome_of_eq_some (h.named e he ho))).resolve_left ha

theorem taken_unique (hr : r ∈ s.taken parseUuid thread) (hr' : r' ∈ s.taken parseUuid thread)
    (hts : r.2 = r'.2) : r = r' :=
  List.inj_on_of_nodup_map Shared.nodup_unread hr hr' hts

theorem count_markRead : ((s.step parseUuid (.markRead thread)).shared.reads).count r =
    s.shared.reads.count r + if r ∈ s.taken parseUuid thread then 1 else 0 := by
  have hcount : (s.taken parseUuid thread).count r =
      if r ∈ s.taken parseUuid thread then 1 else 0 := (List.Nodup.of_map _ Shared.nodup_unread).count
  rw [step, Shared.reads_markRead.count_eq, List.count_append]
  exact congrArg (s.shared.reads.count r + ·) hcount

/-! ## Steps -/

theorem Inv.receive (h : Inv parseUuid s) {i : Incoming} (hi : parseUuid i.peer = some i.peer) :
    Inv parseUuid (s.step parseUuid (.receive i)) := by
  obtain ⟨new, hh, -, ha, hs⟩ := s.shared.receive_spec i
  have hlog : (s.step parseUuid (.receive i)).log = s.log ++ new.map fun m => (m, false) := by
    rw [step, hh, List.drop_left]
  refine ⟨?_, fun ts => ?_, fun e he ho => ?_⟩
  · rw [hlog, List.map_append, h.history, List.map_map]
    exact (congrArg (s.shared.history ++ ·) (List.map_id new)).trans hh.symm
  · rw [hlog, step, ha, h.acked]
    refine exists_congr fun e => ?_
    rw [List.mem_append, or_and_right, or_iff_left]
    rintro ⟨he, -, hread, -⟩
    obtain ⟨m, -, rfl⟩ := List.mem_map.1 he
    cases hread
  · rw [hlog] at he
    rcases List.mem_append.1 he with he | he
    · exact h.named e he ho
    · obtain ⟨m, hm, rfl⟩ := List.mem_map.1 he
      rw [hs m hm ho]
      exact hi

theorem Inv.markRead (h : Inv parseUuid s) (thread : String) :
    Inv parseUuid (s.step parseUuid (.markRead thread)) := by
  obtain ⟨hh, ha⟩ := s.shared.frame_markRead parseUuid thread
  refine ⟨?_, fun ts => ?_, fun e he ho => ?_⟩
  · rw [step, hh, ← h.history, List.map_map]
    rfl
  · rw [step, ha, List.mem_append, h.acked]
    constructor
    · rintro (hts | ⟨e, he, ho, hread, hts⟩)
      · obtain ⟨r, hr, rfl⟩ := List.mem_map.1 hts
        obtain ⟨-, e, he, ht, ho, rfl⟩ := h.of_mem_taken hr
        refine ⟨_, List.mem_map_of_mem he, ho, ?_, rfl⟩
        rw [decide_eq_true ht, Bool.or_true]
      · refine ⟨_, List.mem_map_of_mem he, ho, ?_, hts⟩
        rw [hread, Bool.true_or]
    · rintro ⟨e', he', ho, hread, rfl⟩
      obtain ⟨e, he, rfl⟩ := List.mem_map.1 he'
      by_cases hacked : e.1.ts ∈ s.shared.readAcked
      · exact .inr ((h.acked _).1 hacked)
      rcases Bool.or_eq_true_iff.1 hread with hread | ht
      · exact .inr ⟨e, he, ho, hread, rfl⟩
      · obtain rfl := of_decide_eq_true ht
        obtain ⟨r, hr, hts⟩ := h.exists_taken he ho hacked
        exact .inl (List.mem_map.2 ⟨r, hr, hts⟩)
  · obtain ⟨e', he', rfl⟩ := List.mem_map.1 he
    exact h.named e' he' ho

/-- A message that comes is acknowledged only if it is taken for an earlier one. -/
theorem Acked.receive_iff (h : s.Acked) {i : Incoming} :
    (s.step parseUuid (.receive i)).Acked ↔ s.Apart (.receive i) := by
  obtain ⟨new, hh, hr, -⟩ := s.shared.receive_spec i
  have hlog : (s.step parseUuid (.receive i)).log = s.log ++ new.map fun m => (m, false) := by
    rw [step, hh, List.drop_left]
  have hreads : (s.step parseUuid (.receive i)).shared.reads = s.shared.reads := hr
  have hnew : (s.shared.receive i).history.drop s.shared.history.length = new := by
    rw [hh, List.drop_left]
  rw [Apart, hnew]
  constructor
  · intro h' m hm ho e he heo hread heq
    have h₁ := h.once e he heo
    have h₀ := h'.once (m, false) (hlog ▸ List.mem_append_right _ (List.mem_map_of_mem hm)) ho
    rw [hreads, ← heq, h₁, if_pos hread] at h₀
    exact Nat.one_ne_zero h₀
  · refine fun hp => ⟨fun e he ho => ?_, fun r hr => ?_⟩
    · rw [hlog] at he
      rw [hreads]
      rcases List.mem_append.1 he with he | he
      · exact h.once e he ho
      · obtain ⟨m, hm, rfl⟩ := List.mem_map.1 he
        refine List.count_eq_zero.2 fun hmem => ?_
        obtain ⟨e, he, heo, hread, heq⟩ := h.only _ hmem
        exact hp m hm ho e he heo hread heq
    · rw [hreads] at hr
      obtain ⟨e, he, heo, hread, heq⟩ := h.only r hr
      exact ⟨e, hlog ▸ List.mem_append_left _ he, heo, hread, heq⟩

/-- When a thread is marked read, each of its messages is acknowledged once, and no other one, if
    and only if none is taken for another. -/
theorem Acked.markRead_iff (h : s.Acked) (hi : Inv parseUuid s) :
    (s.step parseUuid (.markRead thread)).Acked ↔ s.Apart (.markRead thread) := by
  constructor
  · -- Each message that is marked read is one of those that are taken.
    intro h' e he ho ht hread
    subst ht
    have hcount {f : Message × Bool} (hf : f ∈ s.log) (hfo : f.1.outgoing = false) :=
      h'.once _ (List.mem_map_of_mem hf) hfo
    have htaken {f : Message × Bool} (hf : f ∈ s.log) (hfo : f.1.outgoing = false)
        (hft : f.1.thread = e.1.thread) (hfr : f.2 = false) :
        receipt f.1 ∈ s.taken parseUuid e.1.thread := by
      have h₀ := h.once f hf hfo
      have h₁ := hcount hf hfo
      rw [count_markRead, h₀, hfr, decide_eq_true hft] at h₁
      by_contra hn
      rw [if_neg hn] at h₁
      exact Nat.zero_ne_one h₁
    have hmem := htaken he ho rfl hread
    have hnot := (hi.of_mem_taken hmem).1
    intro f hf hfo hts
    have hfr : f.2 = false := by
      by_contra hfr
      exact hnot ((hi.acked _).2 ⟨f, hf, hfo, Bool.eq_true_of_not_eq_false hfr, hts⟩)
    refine ⟨hfr, fun hft => ?_, fun hs => ?_⟩
    · exact congrArg Prod.fst (taken_unique (htaken hf hfo hft hfr) hmem hts)
    · by_contra hft
      have h₁ := hcount hf hfo
      have heq : receipt f.1 = receipt e.1 := Prod.ext hs hts
      rw [count_markRead, heq, if_pos hmem, hfr, decide_eq_false hft] at h₁
      exact absurd h₁ (Nat.succ_ne_zero _)
  · intro hp
    refine ⟨fun e' he' ho => ?_, fun r hr => ?_⟩
    · obtain ⟨e, he, rfl⟩ := List.mem_map.1 he'
      rw [count_markRead, h.once e he ho]
      change (if e.2 = true then 1 else 0) + (if receipt e.1 ∈ s.taken parseUuid thread then 1
        else 0) = if (e.2 || decide (e.1.thread = thread)) = true then 1 else 0
      have hfresh {f : Message × Bool} (hf : f ∈ s.log) (hfo : f.1.outgoing = false)
          (hna : f.1.ts ∉ s.shared.readAcked) : f.2 = false := by
        by_contra hfr
        exact hna ((hi.acked _).2 ⟨f, hf, hfo, Bool.eq_true_of_not_eq_false hfr, rfl⟩)
      cases hread : e.2 with
      | true =>
        have hnot : receipt e.1 ∉ s.taken parseUuid thread := fun hmem =>
          (hi.of_mem_taken hmem).1 ((hi.acked _).2 ⟨e, he, ho, hread, rfl⟩)
        rw [if_neg hnot, Bool.true_or, Nat.add_zero]
      | false =>
        by_cases ht : e.1.thread = thread
        · -- The one that is taken for its time is of the same sender.
          subst ht
          have hna : e.1.ts ∉ s.shared.readAcked := fun ha => by
            obtain ⟨f, hf, hfo, hfr, hts⟩ := (hi.acked _).1 ha
            exact absurd ((hp e he ho rfl hread f hf hfo hts).1.symm.trans hfr) Bool.false_ne_true
          obtain ⟨r, hr, hts⟩ := hi.exists_taken he ho hna
          obtain ⟨-, f, hf, hft, hfo, rfl⟩ := hi.of_mem_taken hr
          have hs := (hp e he ho rfl hread f hf hfo hts).2.1 hft
          have heq : receipt f.1 = receipt e.1 := Prod.ext hs hts
          rw [heq] at hr
          rw [if_pos hr, decide_eq_true rfl, Bool.or_true]
          rfl
        · have hnot : receipt e.1 ∉ s.taken parseUuid thread := fun hmem => by
            obtain ⟨hna, f, hf, hft, hfo, heq⟩ := hi.of_mem_taken hmem
            have hts : f.1.ts = e.1.ts := congrArg Prod.snd heq
            have hfr := hfresh hf hfo (hts ▸ hna)
            exact ht ((hp f hf hfo hft hfr e he ho hts.symm).2.2 (congrArg Prod.fst heq).symm)
          rw [if_neg hnot, decide_eq_false ht, Bool.or_false, Nat.add_zero]
    · have hc := List.count_pos_iff.2 hr
      rw [count_markRead] at hc
      by_cases hmem : r ∈ s.taken parseUuid thread
      · obtain ⟨-, e, he, ht, ho, rfl⟩ := hi.of_mem_taken hmem
        refine ⟨_, List.mem_map_of_mem he, ho, ?_, rfl⟩
        rw [decide_eq_true ht, Bool.or_true]
      · rw [if_neg hmem] at hc
        obtain ⟨e, he, ho, hread, rfl⟩ := h.only r (List.count_pos_iff.1 hc)
        refine ⟨_, List.mem_map_of_mem he, ho, ?_, rfl⟩
        rw [hread, Bool.true_or]

/-! ## Runs -/

theorem Inv.step (h : Inv parseUuid s) {a : Act} (ha : a.Named parseUuid) :
    Inv parseUuid (s.step parseUuid a) := by
  cases a with
  | receive i => exact h.receive ha
  | markRead thread => exact h.markRead thread

/-- In every state of a run each message of a thread that was marked read since it came is
    acknowledged to its sender, once, and nothing else is, if and only if in no step a message is
    taken for another one of its time. -/
theorem acked_once (parseUuid : String → Option String) (acts : List Act)
    (hn : ∀ a ∈ acts, a.Named parseUuid) :
    Goes (step parseUuid) (fun s a => (s.step parseUuid a).Acked) {} acts ↔
      Goes (step parseUuid) Apart {} acts := by
  have hstep {s : Reading} {a : Act} (h : Inv parseUuid s ∧ s.Acked) :
      (s.step parseUuid a).Acked ↔ s.Apart a := by
    cases a with
    | receive i => exact h.2.receive_iff
    | markRead thread => exact h.2.markRead_iff h.1
  refine goes_congr (J := fun s => Inv parseUuid s ∧ s.Acked) (P := Act.Named parseUuid)
    (fun h _ => hstep h) (fun h ha hacked => ⟨h.1.step ha, hacked⟩) ?_ hn
  refine ⟨⟨rfl, fun ts => ?_, ?_⟩, ?_, ?_⟩
  · refine iff_of_false List.not_mem_nil ?_
    rintro ⟨e, he, -⟩
    exact List.not_mem_nil he
  all_goals exact fun _ h => absurd h List.not_mem_nil

end Reading

/-- What comes from someone in a thread at a time. -/
def comes (peer thread : String) (ts : Nat) : Act :=
  .receive ⟨peer, some "hi", false, some thread, some ts, [], 0⟩

/-- Two messages of a sender in two threads, at two times: one thread is marked read. -/
theorem acked_once_two : Goes (Reading.step some) (fun s a => (s.step some a).Acked) {}
    [comes "amy" "club" 1, comes "amy" "team" 2, .markRead "team"] := by
  refine (Reading.acked_once some _ fun a _ => ?_).2 (by decide)
  cases a with
  | receive i => rfl
  | markRead thread => trivial

/-- Two messages of two senders in one thread, at one time: the second is not acknowledged. -/
theorem same_time_unacked : ¬ Goes (Reading.step some) (fun s a => (s.step some a).Acked) {}
    [comes "amy" "club" 1, comes "bob" "club" 1, .markRead "club"] := by
  intro h
  have hcount := h.2.2.1.once _ (List.mem_cons_of_mem _ List.mem_cons_self) rfl
  exact absurd hcount (by decide)

end Wandr.Signal
