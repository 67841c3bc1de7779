import Mathlib.Data.List.Nodup
import Wandr.StepExecutor

/-!
# The waits of a reactor

A pollable is kept by the reactor as long as someone holds a reference to it: a task, a wait for
it, or the table of the wakers. A wait parks the waker of its task each time it is polled before its
pollable is ready, and takes it out of the table when it is dropped, if it ever parked one. When it
resolves, it takes nothing out.

* `Step` is what tasks do with pollables and waits, `Run` are the runs of the executor;
* `Sound`: an entry of the table is that of a wait that is alive and parked a waker at some time;
* `exact_of_run`: the table is exact if and only if no wait that parked a waker has resolved and is
  still alive;
* `kept_resolved`: one that is kept alive wakes its task for nothing.
-/

namespace Wandr.StepExecutor

/-- What a poll of a wait came to. -/
inductive Poll
  | pending
  | ready
  deriving DecidableEq

/-- A wait that is alive. The result of its last poll is recorded. -/
structure WaitFor where
  waitee : Waitee
  needsDeregistration : Bool := false
  last : Option Poll := none

/-- The reactor, the keys of the pollables in its slab, the references that tasks hold, and the
    waits that are alive. -/
structure Waits (σ τ : Type) where
  reactor : Reactor σ τ
  pollables : List Nat := []
  handles : List Nat := []
  live : List WaitFor := []
  counter : Nat := 0

namespace Waits

variable {σ τ : Type} (A : AsyncTask σ τ) (E : Env τ)

/-- The keys that are held, once for each reference. -/
def held (s : Waits σ τ) : List Nat :=
  s.handles ++ s.live.map (·.waitee.key) ++ s.reactor.wakers.map (·.1.key)

/-- A reference is gone: with the last one, the pollable goes out of the slab. -/
def release (s : Waits σ τ) (key : Nat) : Waits σ τ :=
  if key ∈ s.held then s else { s with pollables := s.pollables.erase key }

/-- A wait after a poll, with the waker of a task. -/
def polled (r : Reactor σ τ) (x : WaitFor) : WaitFor :=
  if E.ready r.now (some x.waitee.key) then { x with last := some .ready }
  else { x with needsDeregistration := true, last := some .pending }

/-- What the drop of a wait does to the reactor. -/
def deregister (x : WaitFor) : List (Action τ) :=
  if x.needsDeregistration then [.drop x.waitee] else []

/-- What tasks do with pollables and waits, with what they make of the reactor. The slab gives a
    pollable a key that no other one has. -/
inductive Step : Waits σ τ → List (Action τ) → Waits σ τ → Prop
  | new {s : Waits σ τ} (key : Nat) (vacant : key ∉ s.pollables) :
    Step s [] { s with pollables := key :: s.pollables, handles := key :: s.handles }
  | clone {s : Waits σ τ} (key : Nat) (mem : key ∈ s.handles) :
    Step s [] { s with handles := key :: s.handles }
  | dropHandle {s : Waits σ τ} (key : Nat) (mem : key ∈ s.handles) :
    Step s [] ({ s with handles := s.handles.erase key }.release key)
  | waitFor {s : Waits σ τ} (key : Nat) (mem : key ∈ s.handles) :
    Step s [] { s with live := s.live ++ [{ waitee := ⟨key, s.counter⟩ }],
                       counter := (s.counter + 1) % 2 ^ 64 }
  | poll {s : Waits σ τ} (x : WaitFor) (l₁ l₂ : List WaitFor) (t : τ)
      (mem : s.live = l₁ ++ x :: l₂) :
    Step s [.waitFor x.waitee t]
      { s with reactor := s.reactor.act A E (.waitFor x.waitee t),
               live := l₁ ++ polled E s.reactor x :: l₂ }
  | drop {s : Waits σ τ} (x : WaitFor) (l₁ l₂ : List WaitFor) (mem : s.live = l₁ ++ x :: l₂) :
    Step s (deregister x)
      ({ s with reactor := (deregister x).foldl (Reactor.act A E) s.reactor,
                live := l₁ ++ l₂ }.release x.waitee.key)
  | wake {s : Waits σ τ} (t : τ) :
    Step s [.wake t] { s with reactor := s.reactor.act A E (.wake t) }
  | spawn {s : Waits σ τ} : Step s [.spawn] { s with reactor := s.reactor.act A E .spawn }

/-- A new wait is told apart from those that are alive: the numbers of waits are words, and come
    again. -/
def Distinct (s s' : Waits σ τ) : Prop :=
  ∀ x, s'.live = s.live ++ [x] → ∀ y ∈ s.live, y.waitee ≠ x.waitee

/-- The states that runs of the executor lead to. Between the steps of the tasks, the executor
    starts and ends their runs and wakes them, and leaves the table as it is. -/
inductive Run : Waits σ τ → Prop
  | init (tasks : σ) : Run { reactor := { tasks } }
  | step {s s' : Waits σ τ} {as : List (Action τ)} : Run s → Step A E s as s' → Distinct s s' →
    Run s'
  | frame {s : Waits σ τ} (r : Reactor σ τ) : Run s → r.wakers = s.reactor.wakers →
    Run { s with reactor := r }

variable {A E} {s s' : Waits σ τ} {as : List (Action τ)} {r : Reactor σ τ} {t : τ} {x : WaitFor}
  {w : Waitee} {key : Nat}

/-! ## The reactor of a run -/

theorem reactor_release : (s.release key).reactor = s.reactor := by
  unfold release
  split_ifs <;> rfl

theorem live_release : (s.release key).live = s.live := by
  unfold release
  split_ifs <;> rfl

/-- A step that makes no wait keeps those that are alive apart. -/
theorem distinct_of_length (h : s'.live.length ≤ s.live.length) : Distinct s s' := by
  intro x hx
  rw [hx, List.length_append, List.length_singleton] at h
  exact absurd h (Nat.not_succ_le_self _)

/-! ## The table -/

/-- What holds of the table whether waits resolve or not: an entry is that of a wait that is alive
    and parked a waker at some time, and what is held is in the slab. -/
structure Sound (s : Waits σ τ) : Prop where
  nodup : (s.live.map (·.waitee)).Nodup
  entry : ∀ w, w ∈ s.reactor.wakers.map Prod.fst ↔
    ∃ x ∈ s.live, x.waitee = w ∧ x.needsDeregistration
  slab : ∀ key ∈ s.held, key ∈ s.pollables
  last : ∀ x ∈ s.live, x.last = some .pending → x.needsDeregistration

theorem mem_middle {α : Type} {a b : α} {l₁ l₂ : List α} :
    b ∈ l₁ ++ a :: l₂ ↔ b = a ∨ b ∈ l₁ ++ l₂ :=
  List.perm_middle.mem_iff.trans List.mem_cons

theorem exists_middle {α : Type} {a : α} {l₁ l₂ : List α} {P : α → Prop} :
    (∃ b ∈ l₁ ++ a :: l₂, P b) ↔ P a ∨ ∃ b ∈ l₁ ++ l₂, P b := by
  simp only [mem_middle, or_and_right, exists_or, exists_eq_left]

theorem held_release : (s.release key).held = s.held := by
  unfold release
  split_ifs <;> rfl

/-- What is still held stays in the slab. -/
theorem slab_release (h : ∀ k ∈ s.held, k ∈ s.pollables) :
    ∀ k ∈ (s.release key).held, k ∈ (s.release key).pollables := by
  intro k hk
  rw [held_release] at hk
  unfold release
  split_ifs with hheld
  · exact h k hk
  · exact (List.mem_erase_of_ne (by rintro rfl; exact hheld hk)).2 (h k hk)

theorem mem_held : key ∈ s.held ↔ key ∈ s.handles ∨ (∃ x ∈ s.live, x.waitee.key = key) ∨
    ∃ e ∈ s.reactor.wakers, e.1.key = key := by
  simp only [held, List.mem_append, List.mem_map, or_assoc]

theorem Sound.release (h : Sound s) : Sound (s.release key) := by
  refine ⟨?_, ?_, slab_release h.slab, ?_⟩
  · rw [live_release]
    exact h.nodup
  · rw [live_release, reactor_release]
    exact h.entry
  · rw [live_release]
    exact h.last

/-- What is held afterwards was held before. -/
theorem held_of_subset (hkey : key ∈ s'.held) (hhandles : ∀ key ∈ s'.handles, key ∈ s.held)
    (hlive : ∀ y ∈ s'.live, y.waitee.key ∈ s.held)
    (hwakers : ∀ v ∈ s'.reactor.wakers.map Prod.fst, v.key ∈ s.held) : key ∈ s.held := by
  rcases mem_held.1 hkey with hk | ⟨y, hy, rfl⟩ | ⟨e, he, rfl⟩
  · exact hhandles key hk
  · exact hlive y hy
  · exact hwakers e.1 (List.mem_map_of_mem he)

theorem held_of_handles (h : key ∈ s.handles) : key ∈ s.held := mem_held.2 (.inl h)

theorem held_of_live (h : x ∈ s.live) : x.waitee.key ∈ s.held :=
  mem_held.2 (.inr (.inl ⟨x, h, rfl⟩))

theorem held_of_wakers (h : w ∈ s.reactor.wakers.map Prod.fst) : w.key ∈ s.held := by
  obtain ⟨e, he, rfl⟩ := List.mem_map.1 h
  exact mem_held.2 (.inr (.inr ⟨e, he, rfl⟩))

/-- The reactor may change but for its table. -/
theorem Sound.of_wakers (h : Sound s) (hr : r.wakers = s.reactor.wakers) :
    Sound { s with reactor := r } := by
  refine ⟨h.nodup, ?_, fun key hkey => h.slab key ?_, h.last⟩
  · rw [hr]
    exact h.entry
  · rw [held, hr] at hkey
    exact hkey

theorem wakers_wake : (r.act A E (.wake t)).wakers = r.wakers := by
  rw [Reactor.act, Reactor.wake]
  dsimp only
  split <;> rfl

/-- A wait that is polled too early has an entry, as the others have. -/
theorem mem_wakers_waitFor (h : ¬ E.ready r.now (some w.key)) {v : Waitee} :
    v ∈ (r.act A E (.waitFor w t)).wakers.map Prod.fst ↔ v = w ∨ v ∈ r.wakers.map Prod.fst := by
  rw [Reactor.act, Reactor.waitFor, if_neg h]
  simp only [List.map_append, List.mem_append, List.mem_map, List.mem_filter, List.map_cons,
    List.map_nil, List.mem_singleton, decide_eq_true_eq]
  constructor
  · rintro (⟨e, ⟨he, -⟩, rfl⟩ | rfl)
    · exact .inr ⟨e, he, rfl⟩
    · exact .inl rfl
  · rintro (rfl | ⟨e, he, rfl⟩)
    · exact .inr rfl
    · by_cases hw : e.1 = w
      · exact .inr hw
      · exact .inl ⟨e, ⟨he, hw⟩, rfl⟩

theorem mem_wakers_drop {v : Waitee} :
    v ∈ (r.act A E (.drop w)).wakers.map Prod.fst ↔ v ≠ w ∧ v ∈ r.wakers.map Prod.fst := by
  simp only [Reactor.act, List.mem_map, List.mem_filter, decide_eq_true_eq]
  constructor
  · rintro ⟨e, ⟨he, hw⟩, rfl⟩
    exact ⟨hw, e, he, rfl⟩
  · rintro ⟨hw, e, he, rfl⟩
    exact ⟨e, ⟨he, hw⟩, rfl⟩

variable {l₁ l₂ : List WaitFor}

theorem waitee_polled : (polled E r x).waitee = x.waitee := by
  unfold polled
  split_ifs <;> rfl

/-- The other waits are told apart from one. -/
theorem Sound.ne_middle (h : Sound s) (mem : s.live = l₁ ++ x :: l₂) :
    ∀ y ∈ l₁ ++ l₂, y.waitee ≠ x.waitee := by
  have hnodup := h.nodup
  rw [mem, (List.perm_middle.map _).nodup_iff, List.map_cons, List.nodup_cons] at hnodup
  exact fun y hy he => hnodup.1 (he ▸ List.mem_map_of_mem hy)

theorem wakers_waitFor_ready (h : E.ready r.now (some w.key)) :
    (r.act A E (.waitFor w t)).wakers = r.wakers := by
  rw [Reactor.act, Reactor.waitFor, if_pos h]

theorem Sound.poll (h : Sound s) (mem : s.live = l₁ ++ x :: l₂) :
    Sound { s with reactor := s.reactor.act A E (.waitFor x.waitee t),
                   live := l₁ ++ polled E s.reactor x :: l₂ } := by
  have hmap : (l₁ ++ polled E s.reactor x :: l₂).map (·.waitee) = s.live.map (·.waitee) := by
    rw [mem, List.map_append, List.map_append, List.map_cons, List.map_cons, waitee_polled]
  have hx : x ∈ s.live := mem ▸ mem_middle.2 (.inl rfl)
  have hothers : ∀ y ∈ l₁ ++ l₂, y ∈ s.live := fun y hy => mem ▸ mem_middle.2 (.inr hy)
  have hlive : ∀ y ∈ l₁ ++ polled E s.reactor x :: l₂, y.waitee.key ∈ s.held := by
    intro y hy
    rcases mem_middle.1 hy with rfl | hy
    · rw [waitee_polled]
      exact held_of_live hx
    · exact held_of_live (hothers y hy)
  have hentry := h.entry
  rw [mem] at hentry
  simp only [exists_middle] at hentry
  by_cases hready : E.ready s.reactor.now (some x.waitee.key)
  · -- The entry stays, if there is one, and so does what the wait is dropped by.
    have hwakers : (s.reactor.act A E (.waitFor x.waitee t)).wakers = s.reactor.wakers :=
      wakers_waitFor_ready hready
    have hpolled : polled E s.reactor x = { x with last := some .ready } := if_pos hready
    refine ⟨hmap ▸ h.nodup, fun v => ?_, fun key hkey => h.slab key ?_, fun y hy hlast => ?_⟩
    · rw [hwakers, hentry, exists_middle, hpolled]
    · exact held_of_subset hkey (fun k hk => held_of_handles hk) hlive
        fun v hv => held_of_wakers (hwakers ▸ hv)
    · rcases mem_middle.1 hy with rfl | hy
      · rw [hpolled] at hlast
        exact absurd (Option.some.inj hlast) (by decide)
      · exact h.last y (hothers y hy) hlast
  · have hwakers := fun v => mem_wakers_waitFor (A := A) (r := s.reactor) (t := t) hready (v := v)
    have hpolled : polled E s.reactor x =
        { x with needsDeregistration := true, last := some .pending } := if_neg hready
    refine ⟨hmap ▸ h.nodup, fun v => ?_, fun key hkey => h.slab key ?_, fun y hy hlast => ?_⟩
    · rw [hwakers, hentry, exists_middle, hpolled]
      constructor
      · rintro (rfl | ⟨rfl, -⟩ | hy)
        · exact .inl ⟨rfl, rfl⟩
        · exact .inl ⟨rfl, rfl⟩
        · exact .inr hy
      · rintro (⟨rfl, -⟩ | hy)
        · exact .inl rfl
        · exact .inr (.inr hy)
    · refine held_of_subset hkey (fun k hk => held_of_handles hk) hlive fun v hv => ?_
      rcases (hwakers v).1 hv with rfl | hv
      · exact held_of_live hx
      · exact held_of_wakers hv
    · rcases mem_middle.1 hy with rfl | hy
      · rw [hpolled]
      · exact h.last y (hothers y hy) hlast

theorem Sound.drop (h : Sound s) (mem : s.live = l₁ ++ x :: l₂) :
    Sound { s with reactor := (deregister x).foldl (Reactor.act A E) s.reactor,
                   live := l₁ ++ l₂ } := by
  have hne := h.ne_middle mem
  have hothers : ∀ y ∈ l₁ ++ l₂, y ∈ s.live := fun y hy => mem ▸ mem_middle.2 (.inr hy)
  have hnodup := h.nodup
  rw [mem, (List.perm_middle.map _).nodup_iff, List.map_cons, List.nodup_cons] at hnodup
  have hentry := h.entry
  rw [mem] at hentry
  simp only [exists_middle] at hentry
  -- The entry of the wait is gone, and those of the others are left.
  have hwakers : ∀ v, v ∈ ((deregister x).foldl (Reactor.act A E) s.reactor).wakers.map Prod.fst ↔
      ∃ y ∈ l₁ ++ l₂, y.waitee = v ∧ y.needsDeregistration := by
    intro v
    unfold deregister
    cases hflag : x.needsDeregistration with
    | false =>
      rw [if_neg Bool.false_ne_true, List.foldl_nil, hentry, hflag]
      simp only [Bool.false_eq_true, and_false, false_or]
    | true =>
      rw [if_pos rfl, List.foldl_cons, List.foldl_nil, mem_wakers_drop, hentry]
      constructor
      · rintro ⟨hv, ⟨rfl, -⟩ | hy⟩
        · exact absurd rfl hv
        · exact hy
      · rintro ⟨y, hy, rfl, hf⟩
        exact ⟨hne y hy, .inr ⟨y, hy, rfl, hf⟩⟩
  refine ⟨hnodup.2, hwakers, fun key hkey => h.slab key ?_, fun y hy => h.last y (hothers y hy)⟩
  refine held_of_subset hkey (fun k hk => held_of_handles hk)
    (fun y hy => held_of_live (hothers y hy)) fun v hv => ?_
  obtain ⟨y, hy, rfl, -⟩ := (hwakers v).1 hv
  exact held_of_live (hothers y hy)

/-- A step keeps what holds of the table. -/
theorem Step.sound (h : Sound s) (hstep : Step A E s as s') (hdistinct : Distinct s s') :
    Sound s' := by
  cases hstep with
  | new key vacant =>
    refine ⟨h.nodup, h.entry, fun k hk => ?_, h.last⟩
    rcases mem_held.1 hk with hk | hk
    · rcases List.mem_cons.1 hk with rfl | hk
      · exact List.mem_cons_self
      · exact List.mem_cons_of_mem _ (h.slab k (held_of_handles hk))
    · exact List.mem_cons_of_mem _ (h.slab k (mem_held.2 (.inr hk)))
  | clone key mem =>
    refine ⟨h.nodup, h.entry, fun k hk => h.slab k (held_of_subset hk (fun k hk => ?_)
      (fun y hy => held_of_live hy) fun v hv => held_of_wakers hv), h.last⟩
    rcases List.mem_cons.1 hk with rfl | hk
    · exact held_of_handles mem
    · exact held_of_handles hk
  | dropHandle key mem =>
    have hs : Sound { s with handles := s.handles.erase key } :=
      ⟨h.nodup, h.entry, fun k hk => h.slab k (held_of_subset hk
        (fun k hk => held_of_handles (List.mem_of_mem_erase hk))
        (fun y hy => held_of_live hy) fun v hv => held_of_wakers hv), h.last⟩
    exact hs.release
  | waitFor key mem =>
    have hne := hdistinct { waitee := ⟨key, s.counter⟩ } rfl
    have hlive : ∀ y ∈ s.live ++ [{ waitee := ⟨key, s.counter⟩ }],
        y ∈ s.live ∨ y = { waitee := ⟨key, s.counter⟩ } := fun y hy =>
      (List.mem_append.1 hy).imp id List.mem_singleton.1
    refine ⟨?_, fun v => ?_,
      fun k hk => h.slab k (held_of_subset hk (fun k hk => held_of_handles hk)
        (fun y hy => ?_) fun v hv => held_of_wakers hv),
      fun y hy hlast => ?_⟩
    · rw [List.map_append, List.nodup_append]
      refine ⟨h.nodup, List.nodup_singleton _, fun v hv v' hv' => ?_⟩
      obtain ⟨y, hy, rfl⟩ := List.mem_map.1 hv
      rw [List.mem_singleton.1 hv']
      exact hne y hy
    · -- The new wait has parked no waker.
      rw [h.entry]
      constructor
      · rintro ⟨y, hy, hv⟩
        exact ⟨y, List.mem_append_left _ hy, hv⟩
      · rintro ⟨y, hy, rfl, hf⟩
        rcases hlive y hy with hy | rfl
        · exact ⟨y, hy, rfl, hf⟩
        · exact absurd hf Bool.false_ne_true
    · rcases hlive y hy with hy | rfl
      · exact held_of_live hy
      · exact held_of_handles mem
    · rcases hlive y hy with hy | rfl
      · exact h.last y hy hlast
      · exact absurd hlast.symm (Option.some_ne_none _)
  | poll x l₁ l₂ t mem => exact h.poll mem
  | drop x l₁ l₂ mem => exact (h.drop mem).release
  | wake t => exact h.of_wakers wakers_wake
  | spawn => exact h.of_wakers rfl

theorem Run.sound (h : Run A E s) : Sound s := by
  induction h with
  | init tasks =>
    refine ⟨List.nodup_nil, fun v => ?_, fun key hkey => ?_, fun x hx => absurd hx List.not_mem_nil⟩
    · refine iff_of_false List.not_mem_nil ?_
      rintro ⟨x, hx, -⟩
      exact List.not_mem_nil hx
    · exact absurd hkey List.not_mem_nil
  | step _ hstep hdistinct ih => exact hstep.sound ih hdistinct
  | frame r _ hr ih => exact ih.of_wakers hr

/-! ## The table is exact -/

/-- The table has an entry for a wait if and only if it is alive and its last poll came too early.
    So no wait that resolved wakes its task, every pollable that is checked is in the slab, and the
    table is empty when nothing waits. -/
structure Exact (s : Waits σ τ) : Prop where
  entry : ∀ w, w ∈ s.reactor.wakers.map Prod.fst ↔
    ∃ x ∈ s.live, x.waitee = w ∧ x.last = some .pending
  resolved : ∀ e ∈ s.reactor.wakers, ∀ x ∈ s.live, x.waitee = e.1 → x.last ≠ some .ready
  slab : ∀ e ∈ s.reactor.wakers, e.1.key ∈ s.pollables
  empty : (∀ x ∈ s.live, x.last ≠ some .pending) → s.reactor.wakers = []

theorem Sound.eq_of_waitee (h : Sound s) {y : WaitFor} (hx : x ∈ s.live) (hy : y ∈ s.live)
    (he : x.waitee = y.waitee) : x = y :=
  List.inj_on_of_nodup_map h.nodup hx hy he

/-- In every state of a run in which live waits are told apart, the table is exact if and only if
    every wait that is alive and parked a waker at some time is waiting. -/
theorem exact_of_run (h : Run A E s) :
    Exact s ↔ ∀ x ∈ s.live, x.needsDeregistration → x.last = some .pending := by
  have hs := h.sound
  constructor
  · intro he x hx hflag
    obtain ⟨y, hy, hw, hlast⟩ := (he.entry x.waitee).1 ((hs.entry x.waitee).2 ⟨x, hx, rfl, hflag⟩)
    exact hs.eq_of_waitee hy hx hw ▸ hlast
  · intro hwaiting
    have hentry : ∀ w, w ∈ s.reactor.wakers.map Prod.fst ↔
        ∃ x ∈ s.live, x.waitee = w ∧ x.last = some .pending := fun w =>
      (hs.entry w).trans (exists_congr fun x => and_congr_right fun hx => and_congr_right fun _ =>
        ⟨hwaiting x hx, hs.last x hx⟩)
    refine ⟨hentry, fun e he x hx hw => ?_, fun e he => ?_, fun hnone => ?_⟩
    · obtain ⟨y, hy, hw', hlast⟩ := (hentry e.1).1 (List.mem_map_of_mem he)
      rw [hs.eq_of_waitee hx hy (hw.trans hw'.symm), hlast]
      exact fun hr => absurd (Option.some.inj hr) (by decide)
    · exact hs.slab _ (held_of_wakers (List.mem_map_of_mem he))
    · refine (List.map_eq_nil_iff (f := Prod.fst)).1
        (List.eq_nil_iff_forall_not_mem.2 fun w hw => ?_)
      obtain ⟨x, hx, -, hlast⟩ := (hentry w).1 hw
      exact hnone x hx hlast

/-! ## A wait that is kept alive -/

/-- A wait that was polled too early, and again in time, and that is still there. -/
def kept : Waits Numbered Nat where
  reactor := { tasks := {}, wakers := [(⟨7, 0⟩, 0)], now := 2 }
  pollables := [7]
  handles := [7]
  live := [{ waitee := ⟨7, 0⟩, needsDeregistration := true, last := some .ready }]
  counter := 1

theorem run_kept : Run Numbered.tasks Numbered.once kept := by
  have hnew : Run Numbered.tasks Numbered.once
      { reactor := { tasks := {} }, pollables := [7], handles := [7] } :=
    (Run.init {}).step (.new 7 List.not_mem_nil) (distinct_of_length (Nat.le_refl _))
  have hwait : Run Numbered.tasks Numbered.once
      { reactor := { tasks := {} }, pollables := [7], handles := [7],
        live := [{ waitee := ⟨7, 0⟩ }], counter := 1 } :=
    hnew.step (.waitFor 7 List.mem_cons_self) fun x _ y hy => absurd hy List.not_mem_nil
  have hpending := hwait.step (.poll { waitee := ⟨7, 0⟩ } [] [] 0 rfl)
    (distinct_of_length (Nat.le_refl _))
  exact hpending.step
    (.poll { waitee := ⟨7, 0⟩, needsDeregistration := true, last := some .pending } [] [] 0 rfl) (distinct_of_length (Nat.le_refl _))

/-- Its entry stays in the table, and wakes its task whenever the pollable is ready. -/
theorem kept_resolved : Run Numbered.tasks Numbered.once kept ∧ ¬ Exact kept := by
  refine ⟨run_kept, fun h => ?_⟩
  exact h.resolved (⟨7, 0⟩, 0) List.mem_cons_self _ List.mem_cons_self rfl rfl

theorem exact_of_run_kept :
    Exact kept ↔ ∀ x ∈ kept.live, x.needsDeregistration → x.last = some .pending :=
  exact_of_run run_kept

end Waits

end Wandr.StepExecutor
