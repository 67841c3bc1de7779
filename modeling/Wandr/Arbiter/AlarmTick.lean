import Wandr.Arbiter.Alarm

/-!
# What a tick fires

A tick goes over the alarms once to decide and a second time to change them. Together the passes
do to each alarm what `settled` says of it alone (`get?_onTick`), so that what is said of one
alarm holds of all at once.

* `onTick_fires`: each due alarm of a running owner is delivered, and repeated later unless its
  period goes past the end of the clock;
* `onTick_launches`: a dead owner is launched once for each of its due alarms that is not marked.
-/

namespace Wandr.AlarmManager

variable {nowMs : Nat} {c : Ctx}

/-! ## The alarms after a tick -/

/-- What a tick does to one alarm. -/
def settled (s : Store) (nowMs : Nat) (a : Alarm) : Option Alarm :=
  if a.nextFireMs ≤ nowMs then
    if (s.app a.appId).isSome then
      if 0 < a.repeatMs then some (rescheduled nowMs a) else none
    else some { a with pendingDeliver := true }
  else some a

theorem settled_of_delivered {a : Alarm} (h : a ∈ delivered c.store nowMs) :
    settled c.store nowMs a = if 0 < a.repeatMs then some (rescheduled nowMs a) else none := by
  obtain ⟨-, hd⟩ := List.mem_filter.mp h
  obtain ⟨hdue, happ⟩ := of_decide_eq_true hd
  unfold settled
  rw [if_pos hdue, if_pos happ]

theorem settled_of_orphaned {a : Alarm} (h : a ∈ orphaned c.store nowMs) :
    settled c.store nowMs a = some { a with pendingDeliver := true } := by
  obtain ⟨-, hd⟩ := List.mem_filter.mp h
  obtain ⟨hdue, happ⟩ := of_decide_eq_true hd
  unfold settled
  rw [if_pos hdue, if_neg (by rw [Option.isNone_iff_eq_none.mp happ]; decide)]

theorem settled_of_later {a : Alarm} (h : nowMs < a.nextFireMs) :
    settled c.store nowMs a = some a := by
  unfold settled
  rw [if_neg (Nat.not_le.mpr h)]

/-- An alarm is among some of the alarms if its key is among theirs. -/
theorem mem_keys_filter {s : Store} {a : Alarm} (ha : a ∈ s.alarms.rows) (p : Alarm → Bool) :
    a.key ∈ (s.alarms.rows.filter p).map Alarm.key ↔ p a = true := by
  constructor
  · intro h
    obtain ⟨b, hb, hk⟩ := List.mem_map.mp h
    obtain ⟨hrow, hp⟩ := List.mem_filter.mp hb
    rwa [Table.eq_of_key_eq hrow ha hk] at hp
  · exact fun h => List.mem_map_of_mem (List.mem_filter.mpr ⟨ha, h⟩)

theorem store_requests (fs : List Effect) :
    (fs.foldl Ctx.request c).store = c.store ∧
      (fs.foldl Ctx.request c).effects = c.effects ++ fs := by
  induction fs generalizing c with
  | nil => exact ⟨rfl, (List.append_nil _).symm⟩
  | cons f fs ih =>
    obtain ⟨hs, he⟩ := ih (c := c.request f)
    exact ⟨hs, by rw [List.foldl_cons, he, Ctx.effects_request, List.append_assoc]; rfl⟩

/-- What a tick asks to be launched. -/
def launches (s : Store) (nowMs : Nat) : List Effect :=
  ((orphaned s nowMs).filter fun a => !a.pendingDeliver).map fun a => .launch a.appId a.wakeKind

/-- The lines that a tick queues. -/
def lines (s : Store) (nowMs : Nat) : List Effect :=
  ((delivered s nowMs).filterMap fun a => (s.app a.appId).map fun app => (app.pid, a.alarmId)).map
    fun d => .hostLine d.1 (.alarmFired d.2)

theorem effects_onTick :
    (onTick nowMs c).effects = c.effects ++ launches c.store nowMs ++ lines c.store nowMs := by
  unfold onTick
  dsimp only
  have hlaunch (l : List Alarm) (d : Ctx) :
      l.foldl (fun c a => c.request (.launch a.appId a.wakeKind)) d =
        (l.map fun a => Effect.launch a.appId a.wakeKind).foldl Ctx.request d :=
    List.foldl_map.symm
  have hline (l : List (Pid × Nat)) (d : Ctx) :
      l.foldl (fun c d => c.deliverToHost d.1 (.alarmFired d.2)) d =
        (l.map fun d => Effect.hostLine d.1 (.alarmFired d.2)).foldl Ctx.request d :=
    List.foldl_map.symm
  rw [hlaunch, hline, (store_requests _).2, (store_requests _).2]
  rfl

/-- The alarms after the passes of a tick. -/
theorem alarms_onTick : (onTick nowMs c).store.alarms =
    ((delivered c.store nowMs).filter fun a => a.repeatMs = 0).foldl (fun t a => t.erase a.key)
      ((orphaned c.store nowMs).foldl
        (fun t a => t.modify a.key (fun b => { b with pendingDeliver := true }) fun _ => rfl)
        (((delivered c.store nowMs).filter fun a => a.repeatMs > 0).foldl
          (fun t a => t.modify a.key (rescheduled nowMs) fun _ => rfl) c.store.alarms)) := by
  unfold onTick
  dsimp only
  have hlaunch (l : List Alarm) (d : Ctx) :
      l.foldl (fun c a => c.request (.launch a.appId a.wakeKind)) d =
        (l.map fun a => Effect.launch a.appId a.wakeKind).foldl Ctx.request d :=
    List.foldl_map.symm
  have hline (l : List (Pid × Nat)) (d : Ctx) :
      l.foldl (fun c d => c.deliverToHost d.1 (.alarmFired d.2)) d =
        (l.map fun d => Effect.hostLine d.1 (.alarmFired d.2)).foldl Ctx.request d :=
    List.foldl_map.symm
  rw [hlaunch, hline, (store_requests _).1, (store_requests _).1]
  rfl

/-- Each alarm is settled by itself. -/
theorem get?_onTick (k : String × Nat) : (onTick nowMs c).store.alarms.get? k =
    (c.store.alarms.get? k).bind (settled c.store nowMs) := by
  rw [alarms_onTick, Table.get?_foldl_erase,
    Table.get?_foldl_modify (fun b : Alarm => { b with pendingDeliver := true }) (fun _ => rfl)
      (fun _ => rfl),
    Table.get?_foldl_modify (rescheduled nowMs) (fun _ => rfl) (fun _ => rfl)]
  cases hk : c.store.alarms.get? k with
  | none => simp
  | some a =>
    have ha := Table.mem_of_get? hk
    obtain rfl := Table.key_of_get? hk
    -- The key of an alarm says which of the passes is about it.
    have hrepeat : a.key ∈
        ((delivered c.store nowMs).filter fun a => a.repeatMs > 0).map Alarm.key ↔
          (a.nextFireMs ≤ nowMs ∧ (c.store.app a.appId).isSome) ∧ 0 < a.repeatMs := by
      rw [delivered, List.filter_filter, mem_keys_filter ha]
      simp [and_comm]
    have hdead : a.key ∈ (orphaned c.store nowMs).map Alarm.key ↔
        a.nextFireMs ≤ nowMs ∧ (c.store.app a.appId).isNone := by
      rw [orphaned, mem_keys_filter ha]
      simp
    have honce : a.key ∈ ((delivered c.store nowMs).filter fun a => a.repeatMs = 0).map Alarm.key ↔
        (a.nextFireMs ≤ nowMs ∧ (c.store.app a.appId).isSome) ∧ a.repeatMs = 0 := by
      rw [delivered, List.filter_filter, mem_keys_filter ha]
      simp [and_comm]
    rw [Option.bind_some]
    unfold settled
    by_cases hdue : a.nextFireMs ≤ nowMs
    · cases happ : c.store.app a.appId with
      | none =>
        rw [happ] at hrepeat hdead honce
        rw [if_neg fun h => (by cases (honce.mp h).1.2), if_pos (hdead.mpr ⟨hdue, rfl⟩),
          if_neg fun h => (by cases (hrepeat.mp h).1.2), if_pos hdue, if_neg (by decide)]
        rfl
      | some app =>
        rw [happ] at hrepeat hdead honce
        have hlive : a.key ∉ (orphaned c.store nowMs).map Alarm.key :=
          fun h => by cases (hdead.mp h).2
        rw [if_neg hlive, if_pos hdue, if_pos Option.isSome_some]
        by_cases hr : 0 < a.repeatMs
        · rw [if_neg fun h => Nat.ne_of_gt hr (honce.mp h).2,
            if_pos (hrepeat.mpr ⟨⟨hdue, rfl⟩, hr⟩), if_pos hr]
          rfl
        · rw [if_pos (honce.mpr ⟨⟨hdue, rfl⟩, Nat.eq_zero_of_not_pos hr⟩), if_neg hr]
    · rw [if_neg fun h => hdue (honce.mp h).1.1, if_neg fun h => hdue (hdead.mp h).1,
        if_neg fun h => hdue (hrepeat.mp h).1.1, if_neg hdue]

/-! ## Fired alarms -/

/-- A tick has fired what was due: one line for each due alarm of a running owner and no other;
    the one-shot ones of these are gone, and the others due again strictly later; the due alarms of
    a dead owner are marked, and the rest are as they were. -/
structure Fires (nowMs : Nat) (c c' : Ctx) : Prop where
  lines : ∃ launches lines, c'.effects = c.effects ++ launches ++ lines ∧
    (∀ f ∈ launches, ∃ appId kind, f = .launch appId kind) ∧
    List.Forall₂ (fun a f => ∃ app, c.store.app a.appId = some app ∧
      f = .hostLine app.pid (.alarmFired a.alarmId)) (delivered c.store nowMs) lines
  oneShot : ∀ a ∈ delivered c.store nowMs, a.repeatMs = 0 → c'.store.alarms.get? a.key = none
  repeated : ∀ a ∈ delivered c.store nowMs, 0 < a.repeatMs → ∃ fireMs, nowMs < fireMs ∧
    c'.store.alarms.get? a.key = some { a with nextFireMs := fireMs, pendingDeliver := false }
  orphaned : ∀ a ∈ orphaned c.store nowMs,
    c'.store.alarms.get? a.key = some { a with pendingDeliver := true }
  later : ∀ a ∈ c.store.alarms.rows, nowMs < a.nextFireMs →
    c'.store.alarms.get? a.key = some a
  old : ∀ b ∈ c'.store.alarms.rows, ∃ a ∈ c.store.alarms.rows, a.key = b.key
  nodup : (c'.store.alarms.rows.map Alarm.key).Nodup

theorem get?_onTick_of_mem {a : Alarm} (ha : a ∈ c.store.alarms.rows) :
    (onTick nowMs c).store.alarms.get? a.key = settled c.store nowMs a := by
  rw [get?_onTick, Table.get?_of_mem ha, Option.bind_some]

theorem lines_spec (s : Store) (l : List Alarm) (h : ∀ a ∈ l, (s.app a.appId).isSome) :
    List.Forall₂ (fun a f => ∃ app, s.app a.appId = some app ∧
      f = Effect.hostLine app.pid (.alarmFired a.alarmId)) l
      ((l.filterMap fun a => (s.app a.appId).map fun app => (app.pid, a.alarmId)).map
        fun d => .hostLine d.1 (.alarmFired d.2)) := by
  induction l with
  | nil => exact .nil
  | cons a l ih =>
    obtain ⟨app, happ⟩ := Option.isSome_iff_exists.mp (h a List.mem_cons_self)
    have hhead : (s.app a.appId).map (fun app => (app.pid, a.alarmId)) =
        some (app.pid, a.alarmId) := by rw [happ]; rfl
    simp only [List.filterMap_cons, hhead, List.map_cons]
    exact .cons ⟨app, happ, rfl⟩ (ih fun b hb => h b (List.mem_cons_of_mem _ hb))

/-- The sum goes past the end of the clock if and only if the alarm is not later. -/
theorem lt_rescheduled_iff {a : Alarm} (hnow : nowMs < 2 ^ 64) (hr : a.repeatMs < 2 ^ 64)
    (hpos : 0 < a.repeatMs) :
    nowMs < (rescheduled nowMs a).nextFireMs ↔ nowMs + a.repeatMs < 2 ^ 64 := by
  change nowMs < (nowMs + a.repeatMs) % 2 ^ 64 ↔ _
  rcases Nat.lt_or_ge (nowMs + a.repeatMs) (2 ^ 64) with h | h
  · rw [Nat.mod_eq_of_lt h]
    omega
  · rw [Nat.mod_eq_sub_mod h, Nat.mod_eq_of_lt (by omega)]
    omega

/-- A tick fires what is due if and only if no period goes past the end of the clock. -/
theorem onTick_fires (c : Ctx) (nowMs : Nat) (hnow : nowMs < 2 ^ 64)
    (hrepeat : ∀ a ∈ c.store.alarms.rows, a.repeatMs < 2 ^ 64) :
    Fires nowMs c (onTick nowMs c) ↔
      ∀ a ∈ delivered c.store nowMs, 0 < a.repeatMs → nowMs + a.repeatMs < 2 ^ 64 := by
  have hrow {a : Alarm} (ha : a ∈ delivered c.store nowMs) : a ∈ c.store.alarms.rows :=
    (List.mem_filter.mp ha).1
  constructor
  · intro h a ha hpos
    obtain ⟨fireMs, hlt, hget⟩ := h.repeated a ha hpos
    rw [get?_onTick_of_mem (hrow ha), settled_of_delivered ha, if_pos hpos] at hget
    have hfire : (rescheduled nowMs a).nextFireMs = fireMs :=
      congrArg Alarm.nextFireMs (Option.some.inj hget)
    exact (lt_rescheduled_iff hnow (hrepeat a (hrow ha)) hpos).mp (hfire ▸ hlt)
  · intro h
    refine ⟨⟨launches c.store nowMs, lines c.store nowMs, effects_onTick, fun f hf => ?_, ?_⟩,
      fun a ha hzero => ?_, fun a ha hpos => ?_, fun a ha => ?_, fun a ha hlater => ?_,
      fun b hb => ?_, (onTick nowMs c).store.alarms.nodup⟩
    · obtain ⟨a, -, rfl⟩ := List.mem_map.mp hf
      exact ⟨_, _, rfl⟩
    · exact lines_spec _ _ fun a ha => (of_decide_eq_true (List.mem_filter.mp ha).2).2
    · rw [get?_onTick_of_mem (hrow ha), settled_of_delivered ha, if_neg (by omega)]
    · refine ⟨_, (lt_rescheduled_iff hnow (hrepeat a (hrow ha)) hpos).mpr (h a ha hpos), ?_⟩
      rw [get?_onTick_of_mem (hrow ha), settled_of_delivered ha, if_pos hpos]
      rfl
    · rw [get?_onTick_of_mem (List.mem_filter.mp ha).1, settled_of_orphaned ha]
    · rw [get?_onTick_of_mem ha, settled_of_later hlater]
    · have hget := Table.get?_of_mem hb
      rw [get?_onTick] at hget
      obtain ⟨a, ha, -⟩ := Option.bind_eq_some_iff.mp hget
      exact ⟨a, Table.mem_of_get? ha, Table.key_of_get? ha⟩

/-- A store with some alarms and one running app. -/
def storeOf (alarms : List Alarm) : Store where
  apps := Table.empty.put { appId := "clock", pid := 7, launchedAt := 0, launchedMono := 0 }
  alarms := alarms.foldl Table.put .empty

def alarmOf (appId : String) (alarmId repeatMs : Nat) : Alarm where
  appId := appId
  alarmId := alarmId
  nextFireMs := 1000
  repeatMs := repeatMs
  wakeKind := .headless
  pendingDeliver := false

theorem onTick_fires_hourly :
    Fires 2000 { store := storeOf [alarmOf "clock" 1 3600000] }
      (onTick 2000 { store := storeOf [alarmOf "clock" 1 3600000] }) :=
  (onTick_fires _ 2000 (by decide) (by decide)).mpr (by decide)

/-- The longest period makes an alarm due at every tick. -/
theorem longest_fires : ¬ ∀ (c : Ctx) (nowMs : Nat), nowMs < 2 ^ 64 →
    (∀ a ∈ c.store.alarms.rows, a.repeatMs < 2 ^ 64) → Fires nowMs c (onTick nowMs c) := by
  intro h
  have hfires := h { store := storeOf [alarmOf "clock" 1 18446744073709551615] } 2000 (by decide)
    (by decide)
  obtain ⟨fireMs, hlt, hget⟩ :=
    hfires.repeated (alarmOf "clock" 1 18446744073709551615) (by decide) (by decide)
  have hsame :
      (onTick 2000
        { store := storeOf [alarmOf "clock" 1 18446744073709551615] }).store.alarms.get?
        ("clock", 1) =
        some { alarmOf "clock" 1 18446744073709551615 with nextFireMs := 1999 } := by decide
  have hfire : 1999 = fireMs :=
    congrArg Alarm.nextFireMs (Option.some.inj (hsame.symm.trans hget))
  omega

/-! ## Launched owners -/

/-- What a tick asks to be done. -/
def requested (nowMs : Nat) (c : Ctx) : List Effect :=
  (onTick nowMs c).effects.drop c.effects.length

/-- A launch of an app. -/
def isLaunchOf (appId : String) : Effect → Bool
  | .launch id _ => id = appId
  | _ => false

/-- The owners that a tick launches, once for each alarm. -/
def unmarked (s : Store) (nowMs : Nat) : List String :=
  ((orphaned s nowMs).filter fun a => !a.pendingDeliver).map Alarm.appId

theorem countP_requested (appId : String) :
    (requested nowMs c).countP (isLaunchOf appId) = (unmarked c.store nowMs).count appId := by
  have hlines : (lines c.store nowMs).countP (isLaunchOf appId) = 0 := by
    refine List.countP_eq_zero.mpr fun f hf => ?_
    obtain ⟨d, -, rfl⟩ := List.mem_map.mp hf
    exact Bool.false_ne_true
  unfold requested
  rw [effects_onTick, List.append_assoc, List.drop_left, List.countP_append, hlines, Nat.add_zero,
    launches, unmarked, List.countP_map, List.count, List.countP_map]
  refine List.countP_congr fun a _ => ?_
  simp [isLaunchOf]

/-- A tick launches each app at most once, and no running one, if and only if no two due alarms
    that are not marked have the same dead owner. -/
theorem onTick_launches (c : Ctx) (nowMs : Nat) :
    (∀ appId, (requested nowMs c).countP (isLaunchOf appId) ≤ 1 ∧
      ((c.store.app appId).isSome → (requested nowMs c).countP (isLaunchOf appId) = 0)) ↔
      (unmarked c.store nowMs).Nodup := by
  rw [List.nodup_iff_count_le_one]
  constructor
  · exact fun h appId => countP_requested appId ▸ (h appId).1
  · refine fun h appId => ⟨(countP_requested appId).symm ▸ h appId, fun hrun => ?_⟩
    rw [countP_requested]
    refine List.count_eq_zero.mpr fun hmem => ?_
    obtain ⟨a, ha, rfl⟩ := List.mem_map.mp hmem
    obtain ⟨-, happ⟩ := of_decide_eq_true (List.mem_filter.mp (List.mem_filter.mp ha).1).2
    rw [Option.isNone_iff_eq_none.mp happ] at hrun
    cases hrun

/-- Two alarms of a dead owner launch it twice. -/
theorem two_launches : ¬ ∀ (c : Ctx) (nowMs : Nat) (appId : String),
    (requested nowMs c).countP (isLaunchOf appId) ≤ 1 := by
  intro h
  have hone := h { store := storeOf [alarmOf "mail" 1 0, alarmOf "mail" 2 0] } 2000 "mail"
  revert hone
  decide

end Wandr.AlarmManager
