import Mathlib.Algebra.Group.Nat.Defs
import Mathlib.Data.List.Basic

/-!
# The step executor

A reactor runs the tasks of a guest, a step at a time and without ever blocking. Tasks
that were scheduled are run in turn; a task that waits for a pollable parks its waker
with the reactor, which checks the pollables between the runs and wakes the tasks of
those that are ready. A step ends when nothing but parked wakers is left, or after so
many runs.

The tasks are kept by a library, of which `AsyncTask` says what is relied on; what the
tasks do when they are run, and when the pollables become ready, is left open by `Env`.

* `Reactor.step` is total: a step ends;
* `Reactor.step_ends`: how it does, with every scheduled runnable run once and in turn;
* `Reactor.waker_outlives_task`: a waker may be parked for a task that is done, and its
  pollable be ready.
-/

namespace Wandr

namespace StepExecutor

/-! ## The tasks -/

inductive Status
  | idle
  | scheduled
  | running
  | done
  deriving DecidableEq

/-- The tasks `τ` as they are kept by the library. Waking a task tells whether it is to be
    scheduled, and so does ending a run of it, with or without the task being done. -/
structure AsyncTask (σ τ : Type) where
  status : σ → τ → Status
  spawn : σ → σ × τ
  wake : σ → τ → σ × Bool
  start : σ → τ → σ
  finish : σ → τ → Bool → σ × Bool
  status_spawn : ∀ s, status (spawn s).1 (spawn s).2 = .scheduled
  status_spawn_ne : ∀ s t, t ≠ (spawn s).2 → status (spawn s).1 t = status s t
  wake_idle : ∀ s t, status s t = .idle → status (wake s t).1 t = .scheduled ∧ (wake s t).2
  wake_busy : ∀ s t, status s t ≠ .idle →
    status (wake s t).1 t = status s t ∧ (wake s t).2 = false
  status_wake_ne : ∀ s t t', t' ≠ t → status (wake s t).1 t' = status s t'
  status_start : ∀ s t, status (start s t) t = .running
  status_start_ne : ∀ s t t', t' ≠ t → status (start s t) t' = status s t'
  finish_done : ∀ s t, status (finish s t true).1 t = .done ∧ (finish s t true).2 = false
  finish_pending : ∀ s t, status (finish s t false).1 t =
    if (finish s t false).2 then .scheduled else .idle
  status_finish_ne : ∀ s t b t', t' ≠ t → status (finish s t b).1 t' = status s t'

/-- What a `WaitFor` is parked under: the pollable, and a number of its own. -/
structure Waitee where
  key : Nat
  unique : Nat
  deriving DecidableEq

/-- What code makes of the reactor: it polls a `WaitFor` with the waker of a task, drops
    one, wakes a task, or spawns one. -/
inductive Action (τ : Type)
  | waitFor (w : Waitee) (t : τ)
  | drop (w : Waitee)
  | wake (t : τ)
  | spawn

/-- What the reactor does not determine: which pollables are ready at an instant (`none`
    is the timer of no duration), the indices a poll returns, the order of a hash map, and
    what the `n`-th run of a task does, with whether the task is done then. -/
structure Env (τ : Type) where
  ready : Nat → Option Nat → Bool
  poll : Nat → List (Option Nat) → List Nat
  order : Nat → List (Waitee × τ) → List (Waitee × τ)
  run : Nat → List (Action τ) × Bool
  ready_timer : ∀ n, ready n none
  mem_poll : ∀ n targets i, i ∈ poll n targets ↔ ∃ p, targets[i]? = some p ∧ ready n p
  perm_order : ∀ n ws, (order n ws).Perm ws

/-! ## The reactor -/

/-- The reactor, at the instant `now`. The instant of the last check, all that was
    scheduled and all that was run are recorded. -/
structure Reactor (σ τ : Type) where
  tasks : σ
  wakers : List (Waitee × τ) := []
  readyList : List τ := []
  now : Nat := 0
  checked : Option Nat := none
  scheduled : List τ := []
  ran : List τ := []

/-- The number of runs in a step. -/
def maxRuns : Nat := 100000

namespace Reactor

variable {σ τ : Type} (A : AsyncTask σ τ) (E : Env τ)

/-- Put a runnable at the end of the ready list. -/
def push (r : Reactor σ τ) (t : τ) : Reactor σ τ :=
  { r with readyList := r.readyList ++ [t], scheduled := r.scheduled ++ [t] }

/-- Wake a task. -/
def wake (r : Reactor σ τ) (t : τ) : Reactor σ τ :=
  let (tasks, schedule) := A.wake r.tasks t
  if schedule then { r with tasks }.push t else { r with tasks }

/-- Spawn a task. -/
def spawn (r : Reactor σ τ) : Reactor σ τ :=
  let (tasks, t) := A.spawn r.tasks
  { r with tasks }.push t

/-- Poll a `WaitFor` with the waker of a task: it is parked unless its pollable is ready. -/
def waitFor (r : Reactor σ τ) (w : Waitee) (t : τ) : Reactor σ τ :=
  if E.ready r.now (some w.key) then { r with now := r.now + 1 }
  else { r with now := r.now + 1, wakers := r.wakers.filter (fun x => x.1 ≠ w) ++ [(w, t)] }

def act (r : Reactor σ τ) : Action τ → Reactor σ τ
  | .waitFor w t => r.waitFor E w t
  | .drop w => { r with wakers := r.wakers.filter fun x => x.1 ≠ w }
  | .wake t => r.wake A t
  | .spawn => r.spawn A

/-- Wake the task of a waker by its index. -/
def wakeAt (indexed : List (Waitee × τ)) (r : Reactor σ τ) (i : Nat) : Reactor σ τ :=
  match indexed[i]? with
  | some (_, t) => r.wake A t
  | none => r

/-- Wake the tasks of the pollables that are ready, without blocking. -/
def nonblockCheck (r : Reactor σ τ) : Reactor σ τ :=
  if r.wakers.isEmpty then r
  else
    let indexed := E.order r.now r.wakers
    let targets := indexed.map (fun x => some x.1.key) ++ [none]
    let ready := (E.poll r.now targets).filter (· ≠ indexed.length)
    ready.foldl (wakeAt A indexed) { r with now := r.now + 1, checked := some r.now }

/-- Run a task that was scheduled. It is scheduled again if it was woken meanwhile. -/
def runRunnable (r : Reactor σ τ) (t : τ) : Reactor σ τ × Bool :=
  let (actions, done) := E.run r.ran.length
  let r := { r with tasks := A.start r.tasks t, ran := r.ran ++ [t] }
  let r := actions.foldl (act A E) r
  let (tasks, woke) := A.finish r.tasks t done
  (if woke then { r with tasks }.push t else { r with tasks }, woke)

/-- The loop of a step, after so many runs. -/
def loop (r : Reactor σ τ) (runs : Nat) : Reactor σ τ :=
  match _h : r.readyList with
  | [] =>
    if r.wakers.isEmpty then r
    else
      let r' := r.nonblockCheck A E
      if r'.readyList.isEmpty then r' else loop r' runs
  | t :: rest =>
    let (r', woke) := { r with readyList := rest }.runRunnable A E t
    if maxRuns ≤ runs + 1 then r'
    else loop (if woke || !r'.readyList.isEmpty then r'.nonblockCheck A E else r') (runs + 1)
-- A run takes two off, and a check that leads to another run one.
termination_by 2 * (maxRuns - runs) + if r.readyList.isEmpty then 1 else 0
decreasing_by
  · next hne =>
    rw [_h, if_neg hne, if_pos List.isEmpty_nil]
    omega
  · have hle (b : Bool) : (if b then 1 else 0) ≤ 1 := by cases b <;> decide
    rw [_h, List.isEmpty_cons, if_neg Bool.false_ne_true]
    refine Nat.lt_of_le_of_lt (Nat.add_le_add_left (hle _) _) ?_
    omega

/-- A step. -/
def step (r : Reactor σ τ) : Reactor σ τ := r.loop A E 0

/-! ## What holds of the reactor -/

/-- What holds of a reactor that runs the tasks with `P`: every scheduled task has a
    runnable in the ready list, and what was scheduled since `base` has been run, in turn,
    or is in the ready list. -/
structure Sound (P : τ → Prop) (base : List τ) (r : Reactor σ τ) : Prop where
  queued : ∀ t, A.status r.tasks t = .scheduled → t ∈ r.readyList
  running : ∀ t, A.status r.tasks t = .running → P t
  turn : r.scheduled = r.ran ++ r.readyList
  grows : base <+: r.scheduled

variable {A E} {P : τ → Prop} {base : List τ} {r : Reactor σ τ} {t : τ}

/-- A task that is scheduled is put into the ready list. -/
theorem Sound.push {Q : τ → Prop} {tasks : σ} (h : Sound A P base r)
    (hs : ∀ t', t' ≠ t → A.status tasks t' = A.status r.tasks t')
    (hr : ∀ t', A.status tasks t' = .running → Q t') :
    Sound A Q base ({ r with tasks }.push t) := by
  refine ⟨fun t' ht' => ?_, hr, ?_, h.grows.trans (List.prefix_append _ _)⟩
  · by_cases he : t' = t
    · rw [he]
      exact List.mem_append_right _ (List.mem_singleton_self _)
    · exact List.mem_append_left _ (h.queued t' (hs t' he ▸ ht'))
  · change r.scheduled ++ [t] = r.ran ++ (r.readyList ++ [t])
    rw [h.turn, List.append_assoc]

/-- Only the tasks that ran before are running, as the one that is scheduled is not. -/
theorem Sound.running_of_scheduled {tasks : σ} (h : Sound A P base r)
    (hs : ∀ t', t' ≠ t → A.status tasks t' = A.status r.tasks t')
    (ht : A.status tasks t = .scheduled) : ∀ t', A.status tasks t' = .running → P t' := by
  intro t' ht'
  by_cases he : t' = t
  · rw [he, ht] at ht'
    cases ht'
  · exact h.running t' (hs t' he ▸ ht')

/-- Nothing is scheduled by a change of the tasks that schedules none. -/
theorem Sound.of_tasks {Q : τ → Prop} {tasks : σ} (h : Sound A P base r)
    (hq : ∀ t, A.status tasks t = .scheduled → A.status r.tasks t = .scheduled)
    (hr : ∀ t, A.status tasks t = .running → Q t) : Sound A Q base { r with tasks } :=
  ⟨fun t ht => h.queued t (hq t ht), hr, h.turn, h.grows⟩

theorem Sound.wake (h : Sound A P base r) : Sound A P base (r.wake A t) := by
  rw [Reactor.wake]
  by_cases hi : A.status r.tasks t = .idle
  · obtain ⟨hs, hb⟩ := A.wake_idle r.tasks t hi
    dsimp only
    rw [if_pos hb]
    exact h.push (A.status_wake_ne r.tasks t)
      (h.running_of_scheduled (A.status_wake_ne r.tasks t) hs)
  · obtain ⟨hs, hb⟩ := A.wake_busy r.tasks t hi
    have hall (t' : τ) : A.status (A.wake r.tasks t).1 t' = A.status r.tasks t' := by
      by_cases he : t' = t
      · rw [he, hs]
      · exact A.status_wake_ne r.tasks t t' he
    dsimp only
    rw [hb, if_neg Bool.false_ne_true]
    exact h.of_tasks (fun t' ht' => hall t' ▸ ht') fun t' ht' => h.running t' (hall t' ▸ ht')

theorem Sound.act {a : Action τ} (h : Sound A P base r) : Sound A P base (r.act A E a) := by
  cases a with
  | waitFor w t =>
    rw [Reactor.act, Reactor.waitFor]
    split <;> exact ⟨h.queued, h.running, h.turn, h.grows⟩
  | drop w => exact ⟨h.queued, h.running, h.turn, h.grows⟩
  | wake t => exact h.wake
  | spawn =>
    exact h.push (A.status_spawn_ne r.tasks)
      (h.running_of_scheduled (A.status_spawn_ne r.tasks) (A.status_spawn r.tasks))

theorem Sound.acts {actions : List (Action τ)} (h : Sound A P base r) :
    Sound A P base (actions.foldl (Reactor.act A E) r) := by
  induction actions generalizing r with
  | nil => exact h
  | cons a actions ih => exact ih h.act

/-! ## A check -/

variable {indexed : List (Waitee × τ)} {is : List Nat}

theorem tasks_wake : (r.wake A t).tasks = (A.wake r.tasks t).1 := by
  rw [wake]
  dsimp only
  split <;> rfl

/-- A task that was woken is not idle, nor does waking one make another idle. -/
theorem not_idle_wake {t' : τ} (h : t' = t ∨ A.status r.tasks t' ≠ .idle) :
    A.status (r.wake A t).tasks t' ≠ .idle := by
  rw [tasks_wake]
  by_cases he : t' = t
  · rw [he]
    by_cases hi : A.status r.tasks t = .idle
    · rw [(A.wake_idle r.tasks t hi).1]
      decide
    · rw [(A.wake_busy r.tasks t hi).1]
      exact hi
  · rw [A.status_wake_ne r.tasks t t' he]
    exact h.resolve_left he

theorem not_idle_wakeAt {i : Nat} {t' : τ}
    (h : (indexed[i]?).map Prod.snd = some t' ∨ A.status r.tasks t' ≠ .idle) :
    A.status (wakeAt A indexed r i).tasks t' ≠ .idle := by
  rw [wakeAt]
  split
  · next w t hi =>
    rw [hi] at h
    exact not_idle_wake (h.imp (fun h => (Option.some.inj h).symm) id)
  · next hi =>
    rw [hi] at h
    exact h.resolve_left (by simp)

/-- Every task whose waker was called is not idle. -/
theorem not_idle_wakes {t' : τ}
    (h : (∃ i ∈ is, (indexed[i]?).map Prod.snd = some t') ∨ A.status r.tasks t' ≠ .idle) :
    A.status (is.foldl (wakeAt A indexed) r).tasks t' ≠ .idle := by
  induction is generalizing r with
  | nil => exact h.resolve_left (by simp)
  | cons i is ih =>
    refine ih ?_
    rcases h with ⟨j, hj, hx⟩ | h
    · rcases List.mem_cons.mp hj with rfl | hj
      · exact .inr (not_idle_wakeAt (.inl hx))
      · exact .inl ⟨j, hj, hx⟩
    · exact .inr (not_idle_wakeAt (.inr h))

theorem Sound.wakes (h : Sound A P base r) : Sound A P base (is.foldl (wakeAt A indexed) r) := by
  induction is generalizing r with
  | nil => exact h
  | cons i is ih =>
    refine ih ?_
    rw [wakeAt]
    split
    · exact h.wake
    · exact h

/-- Waking tasks changes nothing else. -/
theorem frame_wakes : let r' := is.foldl (wakeAt A indexed) r
    r'.wakers = r.wakers ∧ r'.checked = r.checked ∧ r'.ran = r.ran := by
  induction is generalizing r with
  | nil => exact ⟨rfl, rfl, rfl⟩
  | cons i is ih =>
    have hone : (wakeAt A indexed r i).wakers = r.wakers ∧
        (wakeAt A indexed r i).checked = r.checked ∧ (wakeAt A indexed r i).ran = r.ran := by
      rw [wakeAt]
      split
      · rw [wake]
        dsimp only
        split <;> exact ⟨rfl, rfl, rfl⟩
      · exact ⟨rfl, rfl, rfl⟩
    obtain ⟨hw, hc, hr⟩ := ih (r := wakeAt A indexed r i)
    exact ⟨hw.trans hone.1, hc.trans hone.2.1, hr.trans hone.2.2⟩

theorem Sound.nonblockCheck (h : Sound A P base r) : Sound A P base (r.nonblockCheck A E) := by
  rw [Reactor.nonblockCheck]
  split
  · exact h
  · exact Sound.wakes ⟨h.queued, h.running, h.turn, h.grows⟩

theorem ran_nonblockCheck : (r.nonblockCheck A E).ran = r.ran := by
  rw [nonblockCheck]
  split
  · rfl
  · exact frame_wakes.2.2

/-- The task of every waker that is left when a check has scheduled nothing is done, if its
    pollable was ready. -/
theorem done_of_nonblockCheck (h : Sound A (fun _ => False) base r) (hw : ¬ r.wakers.isEmpty)
    (hr : (r.nonblockCheck A E).readyList = []) :
    (r.nonblockCheck A E).checked = some r.now ∧ ∀ x ∈ (r.nonblockCheck A E).wakers,
      E.ready r.now (some x.1.key) → A.status (r.nonblockCheck A E).tasks x.2 = .done := by
  have hsound : Sound A (fun _ => False) base (r.nonblockCheck A E) := h.nonblockCheck
  have hstatus (t : τ) : A.status (r.nonblockCheck A E).tasks t ≠ .scheduled ∧
      A.status (r.nonblockCheck A E).tasks t ≠ .running := by
    refine ⟨fun hs => ?_, hsound.running t⟩
    exact absurd (hr ▸ hsound.queued t hs) List.not_mem_nil
  have hcheck : r.nonblockCheck A E = ((E.poll r.now ((E.order r.now r.wakers).map
      (fun x => some x.1.key) ++ [none])).filter (· ≠ (E.order r.now r.wakers).length)).foldl
        (wakeAt A (E.order r.now r.wakers)) { r with now := r.now + 1, checked := some r.now } := by
    rw [Reactor.nonblockCheck, if_neg hw]
  have hwakers : (r.nonblockCheck A E).wakers = r.wakers := by
    rw [hcheck]
    exact frame_wakes.1
  refine ⟨by rw [hcheck]; exact frame_wakes.2.1, fun x hx hready => ?_⟩
  have hidle : A.status (r.nonblockCheck A E).tasks x.2 ≠ .idle := by
    rw [hwakers, ← (E.perm_order r.now r.wakers).mem_iff] at hx
    obtain ⟨i, hi⟩ := List.getElem?_of_mem hx
    have hlt : i < (E.order r.now r.wakers).length := (List.getElem?_eq_some_iff.mp hi).1
    rw [hcheck]
    refine not_idle_wakes (.inl ⟨i, List.mem_filter.mpr ⟨?_, by simpa using Nat.ne_of_lt hlt⟩, ?_⟩)
    · refine (E.mem_poll _ _ i).mpr ⟨some x.1.key, ?_, hready⟩
      rw [List.getElem?_append_left (by simpa using hlt), List.getElem?_map, hi]
      rfl
    · rw [hi]
      rfl
  cases hs : A.status (r.nonblockCheck A E).tasks x.2 with
  | idle => exact absurd hs hidle
  | scheduled => exact absurd hs (hstatus x.2).1
  | running => exact absurd hs (hstatus x.2).2
  | done => rfl

/-! ## A run -/

/-- A run of a task takes it off the ready list. -/
theorem Sound.runRunnable {rest : List τ} (h : Sound A (fun _ => False) base r)
    (hr : r.readyList = t :: rest) :
    Sound A (fun _ => False) base ({ r with readyList := rest }.runRunnable A E t).1 := by
  have hstart : Sound A (· = t) base
      { r with readyList := rest, tasks := A.start r.tasks t, ran := r.ran ++ [t] } := by
    refine ⟨fun t' ht' => ?_, fun t' ht' => ?_, ?_, h.grows⟩
    · have hne : t' ≠ t := by
        rintro rfl
        rw [A.status_start] at ht'
        cases ht'
      rw [A.status_start_ne _ _ _ hne] at ht'
      exact (List.mem_cons.mp (hr ▸ h.queued t' ht')).resolve_left hne
    · by_contra hne
      rw [A.status_start_ne _ _ _ hne] at ht'
      exact h.running t' ht'
    · change r.scheduled = r.ran ++ [t] ++ rest
      rw [h.turn, hr, List.append_assoc]
      rfl
  rw [Reactor.runRunnable]
  generalize E.run _ = b
  obtain ⟨actions, done⟩ := b
  have hacts : Sound A (· = t) base (actions.foldl (Reactor.act A E)
      { r with readyList := rest, tasks := A.start r.tasks t, ran := r.ran ++ [t] }) := hstart.acts
  dsimp only
  generalize actions.foldl _ _ = r' at hacts ⊢
  have hne := A.status_finish_ne r'.tasks t done
  have hrun (ht : A.status (A.finish r'.tasks t done).1 t ≠ .running) (t' : τ)
      (ht' : A.status (A.finish r'.tasks t done).1 t' = .running) : False := by
    by_cases he : t' = t
    · exact ht (he ▸ ht')
    · exact he (hacts.running t' (hne t' he ▸ ht'))
  cases hb : (A.finish r'.tasks t done).2 with
  | true =>
    have hs : A.status (A.finish r'.tasks t done).1 t = .scheduled := by
      cases done with
      | true => rw [(A.finish_done r'.tasks t).2] at hb; cases hb
      | false => rw [A.finish_pending, if_pos hb]
    exact hacts.push hne (hrun (by rw [hs]; decide))
  | false =>
    have hs : A.status (A.finish r'.tasks t done).1 t ≠ .scheduled ∧
        A.status (A.finish r'.tasks t done).1 t ≠ .running := by
      cases done with
      | true =>
        rw [(A.finish_done r'.tasks t).1]
        decide
      | false =>
        rw [A.finish_pending, if_neg (by rw [hb]; decide)]
        decide
    refine hacts.of_tasks (fun t' ht' => ?_) (hrun hs.2)
    by_cases he : t' = t
    · exact absurd (he ▸ ht') hs.1
    · exact hne t' he ▸ ht'

theorem ran_acts {actions : List (Action τ)} :
    (actions.foldl (Reactor.act A E) r).ran = r.ran := by
  induction actions generalizing r with
  | nil => rfl
  | cons a actions ih =>
    refine ih.trans ?_
    cases a with
    | waitFor w t =>
      rw [act, waitFor]
      split <;> rfl
    | drop w => rfl
    | wake t =>
      rw [act, wake]
      dsimp only
      split <;> rfl
    | spawn => rfl

theorem ran_runRunnable : (r.runRunnable A E t).1.ran = r.ran ++ [t] := by
  rw [runRunnable]
  dsimp only
  split <;> exact ran_acts

/-! ## A step -/

/-- How a step ends that began after so many runs: after as many as there may be, or with
    an empty ready list, and with the task of every waker left being done if its pollable
    was ready at the last check. -/
def Ended (A : AsyncTask σ τ) (E : Env τ) (n : Nat) (r : Reactor σ τ) : Prop :=
  r.ran.length = n + maxRuns ∨
    (r.readyList = [] ∧ ∀ x ∈ r.wakers, ∃ i, r.checked = some i ∧
      (E.ready i (some x.1.key) → A.status r.tasks x.2 = .done))

theorem loop_nil {runs : Nat} (hl : r.readyList = []) : r.loop A E runs =
    if r.wakers.isEmpty then r
    else if (r.nonblockCheck A E).readyList.isEmpty then r.nonblockCheck A E
    else (r.nonblockCheck A E).loop A E runs := by
  rw [loop]
  split
  · rfl
  · next heq => exact absurd (hl.symm.trans heq) (List.cons_ne_nil _ _).symm

theorem loop_cons {runs : Nat} {rest : List τ} (hl : r.readyList = t :: rest) :
    let run := { r with readyList := rest }.runRunnable A E t
    r.loop A E runs =
      if maxRuns ≤ runs + 1 then run.1
      else (if run.2 || !run.1.readyList.isEmpty then run.1.nonblockCheck A E else run.1).loop A E
        (runs + 1) := by
  rw [loop]
  split
  · next heq => exact absurd (hl.symm.trans heq) (List.cons_ne_nil _ _)
  · next heq =>
    obtain ⟨rfl, rfl⟩ := List.cons.inj (hl.symm.trans heq)
    rfl

theorem sound_run {n runs : Nat} {rest : List τ} (h : Sound A (fun _ => False) base r)
    (hran : r.ran.length = n + runs) (hl : r.readyList = t :: rest) :
    Sound A (fun _ => False) base ({ r with readyList := rest }.runRunnable A E t).1 ∧
      ({ r with readyList := rest }.runRunnable A E t).1.ran.length = n + (runs + 1) := by
  refine ⟨h.runRunnable hl, ?_⟩
  rw [ran_runRunnable, List.length_append, hran, List.length_singleton, Nat.add_assoc]

theorem loop_ended {n runs : Nat} (h : Sound A (fun _ => False) base r) (hruns : runs < maxRuns)
    (hran : r.ran.length = n + runs) :
    Sound A (fun _ => False) base (r.loop A E runs) ∧ Ended A E n (r.loop A E runs) := by
  induction r, runs using loop.induct A E with
  | case1 r runs hl hw =>
    rw [loop_nil hl, if_pos hw]
    refine ⟨h, .inr ⟨hl, fun x hx => ?_⟩⟩
    rw [List.isEmpty_iff.mp hw] at hx
    exact absurd hx List.not_mem_nil
  | case2 r runs hl hw r' hr =>
    obtain ⟨hc, hdone⟩ := done_of_nonblockCheck h hw (List.isEmpty_iff.mp hr)
    rw [loop_nil hl, if_neg hw, if_pos hr]
    exact ⟨h.nonblockCheck, .inr ⟨List.isEmpty_iff.mp hr, fun x hx => ⟨_, hc, hdone x hx⟩⟩⟩
  | case3 r runs hl hw r' hr ih =>
    rw [loop_nil hl, if_neg hw, if_neg hr]
    exact ih h.nonblockCheck hruns (ran_nonblockCheck.symm ▸ hran)
  | case4 r runs t rest hl r' woke hrun hmax =>
    obtain ⟨hsound, hlen⟩ := sound_run h hran hl
    rw [loop_cons hl, if_pos hmax]
    refine ⟨hsound, .inl (hlen.trans ?_)⟩
    omega
  | case5 r runs t rest hl r' woke hrun hmax ih =>
    obtain ⟨hsound, hlen⟩ := sound_run h hran hl
    rw [loop_cons hl, if_neg hmax]
    rw [hrun] at hsound hlen ⊢
    rw [dite_eq_ite] at ih
    refine ih ?_ (by omega) ?_
    · split
      · exact hsound.nonblockCheck
      · exact hsound
    · split
      · rw [ran_nonblockCheck]
        exact hlen
      · exact hlen

/-- A step. -/
theorem step_ended (h : Sound A (fun _ => False) base r) :
    Sound A (fun _ => False) base (r.step A E) ∧ Ended A E r.ran.length (r.step A E) :=
  loop_ended h (by decide) rfl

/-! ## Any steps -/

/-- The reactors that steps lead to, and whatever code does with a reactor between them, from
    one that was installed. -/
inductive Reaches (A : AsyncTask σ τ) (E : Env τ) : Reactor σ τ → Prop
  | init {tasks : σ} (hs : ∀ t, A.status tasks t ≠ .scheduled ∧ A.status tasks t ≠ .running) :
      Reaches A E { tasks }
  | act {r : Reactor σ τ} {a : Action τ} (h : Reaches A E r) : Reaches A E (r.act A E a)
  | step {r : Reactor σ τ} (h : Reaches A E r) : Reaches A E (r.step A E)

theorem Reaches.sound (h : Reaches A E r) : Sound A (fun _ => False) [] r := by
  induction h with
  | init hs => exact ⟨fun t ht => absurd ht (hs t).1, fun t ht => (hs t).2 ht, rfl, List.nil_prefix⟩
  | act _ ih => exact ih.act
  | step _ ih => exact (step_ended ih).1

/-- A step ends, and with it all that was scheduled has been run once and in turn or is in
    the ready list; either so many tasks have been run, or the ready list is empty, and the
    task of every waker left is done if its pollable was ready at the last check. -/
theorem step_ends (h : Reaches A E r) :
    let r' := r.step A E
    r.scheduled <+: r'.scheduled ∧ r'.scheduled = r'.ran ++ r'.readyList ∧
      Ended A E r.ran.length r' := by
  have hsound : Sound A (fun _ => False) r.scheduled r :=
    ⟨h.sound.queued, h.sound.running, h.sound.turn, List.prefix_rfl⟩
  obtain ⟨hs, hended⟩ := step_ended hsound
  exact ⟨hs.grows, hs.turn, hended⟩

end Reactor

/-! ## A task that leaves a waker behind -/

/-- Numbered tasks, with whether each was woken while it runs. -/
structure Numbered where
  task : Nat → Status × Bool := fun _ => (.done, false)
  next : Nat := 0

namespace Numbered

def set (s : Numbered) (t : Nat) (v : Status × Bool) : Numbered :=
  { s with task := fun t' => if t' = t then v else s.task t' }

def wake (s : Numbered) (t : Nat) : Numbered × Bool :=
  match (s.task t).1 with
  | .idle => (s.set t (.scheduled, false), true)
  | .running => (s.set t (.running, true), false)
  | _ => (s, false)

def finish (s : Numbered) (t : Nat) (done : Bool) : Numbered × Bool :=
  if done then (s.set t (.done, false), false)
  else if (s.task t).2 then (s.set t (.scheduled, false), true)
  else (s.set t (.idle, false), false)

def tasks : AsyncTask Numbered Nat where
  status s t := (s.task t).1
  spawn s := ({ s.set s.next (.scheduled, false) with next := s.next + 1 }, s.next)
  wake := wake
  start s t := s.set t (.running, false)
  finish := finish
  status_spawn s := by simp [set]
  status_spawn_ne s t h := by simp only [set, if_neg h]
  wake_idle s t h := by simp [wake, h, set]
  wake_busy s t h := by
    rw [wake]
    split
    · next hi => exact absurd hi h
    · next hr => simp [set, hr]
    · exact ⟨rfl, rfl⟩
  status_wake_ne s t t' h := by
    rw [wake]
    split <;> simp [set, h]
  status_start s t := by simp [set]
  status_start_ne s t t' h := by simp [set, h]
  finish_done s t := by simp [finish, set]
  finish_pending s t := by
    rw [finish, if_neg Bool.false_ne_true]
    split <;> simp [set]
  status_finish_ne s t b t' h := by
    rw [finish]
    split
    · simp [set, h]
    · split <;> simp [set, h]

/-- Every pollable is ready after the first instant; the first run parks a waker and ends
    the task, as others do that do nothing. -/
def once : Env Nat where
  ready n p := p.isNone || 1 ≤ n
  poll n targets := (List.range targets.length).filter fun i =>
    (targets[i]?).any fun p => p.isNone || 1 ≤ n
  order _ ws := ws
  run n := if n = 0 then ([.waitFor ⟨7, 0⟩ 0], true) else ([], true)
  ready_timer _ := rfl
  mem_poll n targets i := by
    rw [List.mem_filter, List.mem_range, Option.any_eq_true]
    constructor
    · rintro ⟨-, h⟩
      exact h
    · rintro ⟨p, hp, hr⟩
      exact ⟨(List.getElem?_eq_some_iff.mp hp).1, p, hp, hr⟩
  perm_order _ ws := .refl ws

end Numbered

namespace Reactor

/-- A reactor with one task, which was just spawned. -/
def spawned : Reactor Numbered Nat := ({ tasks := {} } : Reactor Numbered Nat).spawn Numbered.tasks

theorem reaches_spawned : Reaches Numbered.tasks Numbered.once spawned := by
  have hinit : Reaches Numbered.tasks Numbered.once { tasks := {} } :=
    .init fun t => ⟨Status.noConfusion, Status.noConfusion⟩
  exact hinit.act (a := .spawn)

theorem step_ends_spawned :
    let r := spawned.step Numbered.tasks Numbered.once
    spawned.scheduled <+: r.scheduled ∧ r.scheduled = r.ran ++ r.readyList ∧
      Ended Numbered.tasks Numbered.once 0 r :=
  step_ends reaches_spawned

/-- A task may be done and have left a waker behind, whose pollable is ready when the step
    ends. -/
theorem waker_outlives_task : ¬ ∀ (σ τ : Type) (A : AsyncTask σ τ) (E : Env τ) (r : Reactor σ τ),
    (∀ n p, E.ready n p → E.ready (n + 1) p) → Reaches A E r →
      let r' := r.step A E
      r'.ran.length = r.ran.length + maxRuns ∨ (r'.readyList = [] ∧
        ∀ x ∈ r'.wakers, ∃ i, r'.checked = some i ∧ E.ready i (some x.1.key) = false) := by
  intro h
  have hmono (n : Nat) (p : Option Nat) (hp : Numbered.once.ready n p) :
      Numbered.once.ready (n + 1) p := by
    simp [Numbered.once]
  have hr := h _ _ _ _ _ hmono reaches_spawned
  let run := ({ spawned with readyList := [] }).runRunnable Numbered.tasks Numbered.once 0
  -- The only run parks the waker; the check after it finds the pollable ready.
  have hstep : spawned.step Numbered.tasks Numbered.once =
      run.1.nonblockCheck Numbered.tasks Numbered.once := by
    have hl : spawned.readyList = [0] := rfl
    rw [step, loop_cons hl, if_neg (by decide), if_neg (by decide), loop_nil (by decide),
      if_neg (by decide), if_pos (by decide)]
  rw [hstep] at hr
  rcases hr with hlen | ⟨-, hx⟩
  · exact absurd hlen (by decide)
  · obtain ⟨i, hi, hready⟩ := hx (⟨7, 0⟩, 0) (by decide)
    have hone : (run.1.nonblockCheck Numbered.tasks Numbered.once).checked = some 1 := by decide
    obtain rfl : i = 1 := Option.some.inj (hi.symm.trans hone)
    exact absurd hready (by decide)

end Reactor

end StepExecutor

end Wandr
