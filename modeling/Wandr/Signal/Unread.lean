import Wandr.Lib.Machine
import Wandr.Signal.Ui

/-!
# What is read has been seen

The interface tells the engine that a conversation is read when it is opened, and when a message
of the open one comes in. Whether a conversation is open does not depend on whether the app is
paused, or on the screens that cover a conversation: the QR code, the profile and a call with
video.

* `Ui.lawful_of_run`: as long as no conversation is opened, and no message of the open one comes
  in, while it is covered, only what is seen is read, and all else is counted and told of;
* `Ui.read_unseen` is a run with a message that is read while the app is paused.
-/

namespace Wandr.SignalUi

open Signal (Message)

/-! ## What is noted -/

/-- What came in in a thread since its conversation was last shown. -/
def since (t : String) (log : List (Option String × Note)) : Nat :=
  log.foldl (fun n e =>
    if e.1 = some t then 0
    else
      match e.2 with
      | .delivered m => if m.thread = t then n + 1 else n
      | _ => n) 0

/-- A message that came in while its conversation was not shown. -/
def unseen? : Option String × Note → Option Message
  | (shown, .delivered m) => if shown = some m.thread then none else some m
  | _ => none

/-- A notification that was posted. -/
def posted? : Option String × Note → Option (UInt64 × String)
  | (_, .call (.post nid _ body)) => some (nid, body)
  | _ => none

/-- Only what is seen is read. What comes in unseen is told of by one notification, and is counted
    until its conversation is shown. -/
structure Lawful (s : Ui) : Prop where
  marks : ∀ e ∈ s.log, ∀ t, e.2 = .call (.markRead t) → e.1 = some t
  posts : s.log.filterMap posted? =
    (s.log.filterMap unseen?).map fun m => (threadNid m.thread, preview m)
  unread : ∀ t, s.model.unread t = since t s.log

namespace Ui

/-- The app is not paused, and no other screen covers a conversation. -/
structure Uncovered (s : Ui) : Prop where
  resumed : s.lifecyclePaused = false
  noVideo : s.inVideo = false
  noLink : s.model.linkUrl = none
  noProfile : s.showProfile = true → s.model.myProfile = none

/-- No message of the open conversation comes in while it is covered. -/
def Heeds (profile : Option Profile) : Pump → List Event → Prop
  | _, [] => True
  | p, e :: es =>
    (∀ m, e = .message m → (∀ x ∈ p.ui.model.messages, x.id ≠ m.id) → m.outgoing = false →
      p.ui.viewing = some m.thread → p.ui.Uncovered) ∧ Heeds profile (onEvent profile p e) es

/-- No conversation is opened, and no message of the open one comes in, while it is covered. -/
def Ok (s : Ui) : Input → Prop
  | .onFrame rescaled a =>
    Heeds a.profile { ui := start a { s with dirty := s.dirty || rescaled } } a.events ∧
      ((pump a { s with dirty := s.dirty || rescaled }).1.pendingOpen.isSome →
        (pump a { s with dirty := s.dirty || rescaled }).1.lifecyclePaused = false →
        (pump a { s with dirty := s.dirty || rescaled }).1.inVideo = false →
        (pump a { s with dirty := s.dirty || rescaled }).1.Uncovered)
  | .bgTick a | .onAlarm a => Heeds a.profile { ui := start a s } a.events
  | .clickRow _ => s.Uncovered
  | _ => True

/-! ## What is shown -/

variable {s : Ui} {t : String}

/-- A conversation is shown when the app is not paused and no other screen covers it. -/
theorem shown_eq : s.shown =
    if s.lifecyclePaused || s.inVideo || s.model.linkUrl.isSome ||
        (s.showProfile && s.model.myProfile.isSome) then none
    else s.current.map Thread.id := by
  rw [shown, screen, viewOf]
  cases s.lifecyclePaused
  · cases s.inVideo
    · cases s.model.linkUrl
      · cases s.showProfile
        · cases s.current <;> rfl
        · cases s.model.myProfile
          · cases s.current <;> rfl
          · rfl
      · rfl
    · rfl
  · rfl

theorem shown_of_uncovered (h : s.Uncovered) : s.shown = s.current.map Thread.id := by
  have hprofile : (s.showProfile && s.model.myProfile.isSome) = false := by
    cases hs : s.showProfile
    · rfl
    · rw [h.noProfile hs]
      rfl
  rw [shown_eq, h.resumed, h.noVideo, h.noLink, hprofile]
  rfl

theorem current_of_shown (h : s.shown = some t) : s.current.map Thread.id = some t := by
  rw [shown_eq] at h
  split at h
  · cases h
  · exact h

/-! ## What is kept -/

/-- What is kept with the notifications `pend` still to be posted: the open conversation is the
    one the signals say, and nothing of it is unread. -/
structure Kept (s : Ui) (pend : List (String × String)) : Prop where
  viewing : s.viewing = s.current.map Thread.id
  opened : ∀ t, s.viewing = some t → s.model.unread t = 0
  marks : ∀ e ∈ s.log, ∀ t, e.2 = .call (.markRead t) → e.1 = some t
  posts : s.log.filterMap posted? ++ pend.map (fun n => (threadNid n.1, n.2)) =
    (s.log.filterMap unseen?).map fun m => (threadNid m.thread, preview m)
  unread : ∀ t, s.model.unread t = since t s.log

variable {s' : Ui} {pend : List (String × String)} {x : Note} {m : Message}

theorem Kept.lawful (h : Kept s []) : Lawful s :=
  ⟨h.marks, by simpa using h.posts, h.unread⟩

/-- Nothing else matters. -/
theorem Kept.congr (h : Kept s pend) (hv : s'.viewing = s.viewing) (hc : s'.current = s.current)
    (hu : s'.model.unread = s.model.unread) (hl : s'.log = s.log) : Kept s' pend := by
  constructor
  · rw [hv, hc]
    exact h.viewing
  · rw [hv, hu]
    exact h.opened
  · rw [hl]
    exact h.marks
  · rw [hl]
    exact h.posts
  · rw [hl, hu]
    exact h.unread

theorem log_observe : (s.observe [x]).log = s.log ++ [(s.shown, x)] := rfl

theorem observe_append {k l : List Note} : s.observe (k ++ l) = (s.observe k).observe l := by
  have hshown : (s.observe k).shown = s.shown := rfl
  have hlog : s.log ++ (k ++ l).map (fun n => (s.shown, n)) =
      (s.log ++ k.map fun n => (s.shown, n)) ++ l.map fun n => ((s.observe k).shown, n) := by
    rw [hshown, List.map_append, List.append_assoc]
  exact congrArg (fun log => { s with log }) hlog

theorem observe_cons {l : List Note} : s.observe (x :: l) = (s.observe [x]).observe l :=
  observe_append (k := [x])

/-- What is shown has nothing unread. -/
theorem Kept.unread_shown (h : Kept s pend) (ht : s.shown = some t) : s.model.unread t = 0 :=
  h.opened t (h.viewing.trans (current_of_shown ht))

theorem since_observe (hx : ∀ m, x ≠ .delivered m) :
    since t (s.observe [x]).log = if s.shown = some t then 0 else since t s.log := by
  rw [log_observe, since, List.foldl_append]
  cases x with
  | delivered m => exact absurd rfl (hx m)
  | call c => simp [since]
  | still => simp [since]

/-- A note of anything but a message. -/
theorem Kept.observe_call (h : Kept s pend) (hx : ∀ m, x ≠ .delivered m)
    (hmark : ∀ t, x = .call (.markRead t) → s.shown = some t) {rest : List (String × String)}
    (hpost : ((posted? (s.shown, x)).toList ++ rest.map fun n => (threadNid n.1, n.2)) =
      pend.map fun n => (threadNid n.1, n.2)) : Kept (s.observe [x]) rest := by
  have hunseen : unseen? (s.shown, x) = none := by
    cases x with
    | delivered m => exact absurd rfl (hx m)
    | call c => rfl
    | still => rfl
  constructor
  · exact h.viewing
  · exact h.opened
  · rw [log_observe]
    intro e he t ht
    rcases List.mem_append.mp he with he | he
    · exact h.marks e he t ht
    · rw [List.mem_singleton.mp he] at ht ⊢
      exact hmark t ht
  · rw [log_observe, List.filterMap_append, List.filterMap_append, List.filterMap_cons_none hunseen,
      List.filterMap_nil, List.append_nil, ← h.posts, ← hpost, List.append_assoc]
    cases hp : posted? (s.shown, x) <;> simp [hp]
  · intro t
    rw [since_observe hx]
    split
    · next ht => exact h.unread_shown ht
    · exact h.unread t

/-- A note of nothing, or of a call that neither reads a conversation nor posts a notification. -/
theorem Kept.observe_quiet (h : Kept s pend) (hx : ∀ m, x ≠ .delivered m)
    (hmark : ∀ t, x ≠ .call (.markRead t)) (hpost : posted? (s.shown, x) = none) :
    Kept (s.observe [x]) pend :=
  h.observe_call hx (fun t ht => absurd ht (hmark t)) (by simp [hpost])

theorem Kept.still (h : Kept s pend) : Kept (s.observe [.still]) pend :=
  h.observe_quiet (by simp) (by simp) rfl

theorem Kept.still_congr (h : Kept s pend) (hv : s'.viewing = s.viewing)
    (hc : s'.current = s.current) (hu : s'.model.unread = s.model.unread) (hl : s'.log = s.log) :
    Kept (s'.observe [.still]) pend :=
  (h.congr hv hc hu hl).still

/-- A message comes in that is seen. -/
theorem Kept.delivered (h : Kept s pend) (hm : s.shown = some m.thread) :
    Kept (s.observe [.delivered m]) pend := by
  have hseen : unseen? (s.shown, .delivered m) = none := if_pos hm
  refine ⟨h.viewing, h.opened, ?_, ?_, fun t => ?_⟩
  · rw [log_observe]
    intro e he t ht
    rcases List.mem_append.mp he with he | he
    · exact h.marks e he t ht
    · rw [List.mem_singleton.mp he] at ht
      cases ht
  · rw [log_observe, List.filterMap_append, List.filterMap_append, List.filterMap_cons_none hseen,
      List.filterMap_nil, List.append_nil, ← h.posts]
    simp [posted?]
  · rw [log_observe, since, List.foldl_append, List.foldl_cons, List.foldl_nil, ← since]
    split
    · next ht => exact h.unread_shown ht
    · next ht =>
      have hne : m.thread ≠ t := fun he => ht (he ▸ hm)
      have hsame : (s.observe [.delivered m]).model.unread t = since t s.log := h.unread t
      simp [hne, hsame]

/-- A message comes in of a conversation that is not open. -/
theorem Kept.count (h : Kept s pend) (hm : s.viewing ≠ some m.thread) :
    Kept ({ s with
      model := { s.model with
        unread := Function.update s.model.unread m.thread (s.model.unread m.thread + 1) } }.observe
      [.delivered m]) (pend ++ [(m.thread, preview m)]) := by
  generalize hs' : ({ s with
      model := { s.model with
        unread :=
          Function.update s.model.unread m.thread (s.model.unread m.thread + 1) } } : Ui) = s'
  have hsame : s'.shown = s.shown := by
    rw [shown_eq, shown_eq, ← hs']
    rfl
  have hlog : (s'.observe [.delivered m]).log = s.log ++ [(s.shown, .delivered m)] := by
    rw [log_observe, hsame, ← hs']
  have hunread : (s'.observe [.delivered m]).model.unread =
      Function.update s.model.unread m.thread (s.model.unread m.thread + 1) := by
    rw [← hs']
    rfl
  have hviewing : (s'.observe [.delivered m]).viewing = s.viewing := by
    rw [← hs']
    rfl
  have hcurrent : (s'.observe [.delivered m]).current = s.current := by
    rw [← hs']
    rfl
  have hshown : s.shown ≠ some m.thread := fun hs =>
    hm (h.viewing.trans (current_of_shown hs))
  have hunseen : unseen? (s.shown, .delivered m) = some m := if_neg hshown
  refine ⟨?_, fun t ht => ?_, ?_, ?_, fun t => ?_⟩
  · rw [hviewing, hcurrent]
    exact h.viewing
  · rw [hviewing] at ht
    have hne : t ≠ m.thread := fun he => hm (he ▸ ht)
    rw [hunread, Function.update_of_ne hne]
    exact h.opened t ht
  · rw [hlog]
    intro e he t ht
    rcases List.mem_append.mp he with he | he
    · exact h.marks e he t ht
    · rw [List.mem_singleton.mp he] at ht
      cases ht
  · rw [hlog]
    simp only [List.filterMap_append, List.filterMap_cons_some hunseen, List.map_append, ← h.posts]
    simp [posted?]
  · rw [hlog, hunread, since, List.foldl_append, List.foldl_cons, List.foldl_nil, ← since]
    by_cases ht : t = m.thread
    · subst ht
      rw [Function.update_self, if_neg hshown, ← h.unread]
      simp
    · rw [Function.update_of_ne ht, ← h.unread]
      have hne : m.thread ≠ t := Ne.symm ht
      split
      · next hs => exact h.unread_shown hs
      · simp [hne]

/-! ## A pump -/

variable {p : Pump} {e : Event} {es : List Event} {profile : Option Profile} {a : Answers}

theorem start_kept (h : Kept s []) : Kept (start a s) [] := by
  unfold start
  split
  · exact h
  · rw [observe_cons]
    refine Kept.observe_quiet (.observe_quiet (h.congr rfl rfl rfl rfl) ?_ ?_ rfl) ?_ ?_ rfl <;>
      simp

theorem onMessage_kept (h : Kept p.ui p.toNotify)
    (hm : (∀ x ∈ p.ui.model.messages, x.id ≠ m.id) → m.outgoing = false →
      p.ui.viewing = some m.thread → p.ui.Uncovered) :
    Kept (onMessage m p).ui (onMessage m p).toNotify := by
  unfold onMessage
  split
  · exact h
  · next hnew =>
    have hnew : ∀ x ∈ p.ui.model.messages, x.id ≠ m.id := by simpa using hnew
    split
    · exact h.congr rfl rfl rfl rfl
    · next hin =>
      split
      · next hview => exact (h.count hview).congr rfl rfl rfl rfl
      · next hview =>
        -- The conversation of the message is open: it is shown, as nothing covers it.
        have hview : p.ui.viewing = some m.thread := not_not.mp hview
        have hshown : p.ui.shown = some m.thread := by
          rw [shown_of_uncovered (hm hnew (by simpa using hin) hview), ← h.viewing, hview]
        have hread : Kept ((p.ui.observe [.delivered m]).observe [.call (.markRead m.thread)])
            p.toNotify :=
          (h.delivered hshown).observe_call (by simp) (fun t ht => by
            cases ht
            exact hshown) rfl
        rw [observe_cons]
        exact hread.congr rfl rfl rfl rfl

theorem modifyModel_kept {f : Model → Model} (h : Kept p.ui p.toNotify)
    (hf : (f p.ui.model).unread = p.ui.model.unread) :
    Kept (modifyModel f p).ui (modifyModel f p).toNotify :=
  h.still_congr rfl rfl hf rfl

theorem onEvent_kept (h : Kept p.ui p.toNotify)
    (hm : ∀ m, e = .message m → (∀ x ∈ p.ui.model.messages, x.id ≠ m.id) → m.outgoing = false →
      p.ui.viewing = some m.thread → p.ui.Uncovered) :
    Kept (onEvent profile p e).ui (onEvent profile p e).toNotify := by
  cases e with
  | message m => exact onMessage_kept h (hm m rfl)
  | linkUrl | linked | connected | profileUpdated | statusChanged | reactionChanged =>
    exact modifyModel_kept h rfl
  | disconnected | contactsUpdated | groupsUpdated | callIncoming | callStateChanged => exact h

theorem foldl_onEvent_kept (h : Kept p.ui p.toNotify) (hm : Heeds profile p es) :
    Kept (es.foldl (onEvent profile) p).ui (es.foldl (onEvent profile) p).toNotify := by
  induction es generalizing p with
  | nil => exact h
  | cons e es ih => exact ih (onEvent_kept h hm.1) hm.2

theorem notify_kept {n : String × String} (h : Kept s (n :: pend)) : Kept (notify s n) pend :=
  (h.observe_call (by simp) (by simp) (by simp [posted?])).congr rfl rfl rfl rfl

theorem foldl_notify_kept (h : Kept s pend) : Kept (pend.foldl notify s) [] := by
  induction pend generalizing s with
  | nil => exact h
  | cons n pend ih => exact ih (notify_kept h)

theorem finish_kept (h : Kept p.ui p.toNotify) : Kept (finish a p).1 [] := by
  have hlists : Kept (refreshLists a p) p.toNotify := h.congr rfl rfl rfl rfl
  exact (foldl_notify_kept hlists).congr rfl rfl rfl rfl

theorem pump_kept (h : Kept s []) (hm : Heeds a.profile { ui := start a s } a.events) :
    Kept (pump a s).1 [] :=
  finish_kept (foldl_onEvent_kept (start_kept h) hm)

/-! ## A conversation is opened -/

/-- The conversation is the one the signals say once the handler is done, and is shown. -/
theorem openThread_kept (h : Kept s []) (hs' : s'.viewing = some t)
    (hcurrent : s'.current.map Thread.id = some t)
    (hunread : s'.model.unread = Function.update s.model.unread t 0) (hlog : s'.log = s.log)
    (hun : s'.Uncovered) :
    Kept (s'.observe [.call (.markRead t), .call (.cancel (threadNid t))]) [] := by
  have hshown : s'.shown = some t := (shown_of_uncovered hun).trans hcurrent
  have hopen : Kept (s'.observe [.call (.markRead t)]) [] := by
    refine ⟨?_, fun u hu => ?_, ?_, ?_, fun u => ?_⟩
    · exact hs'.trans hcurrent.symm
    · obtain rfl : t = u := Option.some.inj (hs'.symm.trans hu)
      exact (congrFun hunread t).trans (Function.update_self _ _ _)
    · rw [log_observe, hlog]
      intro e he u hu
      rcases List.mem_append.mp he with he | he
      · exact h.marks e he u hu
      · rw [List.mem_singleton.mp he] at hu ⊢
        cases hu
        exact hshown
    · have hposted : [(s'.shown, Note.call (.markRead t))].filterMap posted? = [] := rfl
      have hunseen : [(s'.shown, Note.call (.markRead t))].filterMap unseen? = [] := rfl
      rw [log_observe, hlog, List.filterMap_append, List.filterMap_append, hposted, hunseen,
        List.append_nil, List.append_nil]
      exact h.posts
    · rw [since_observe (by simp), hshown, hlog]
      refine (congrFun hunread u).trans ?_
      by_cases hu : u = t
      · rw [hu, Function.update_self, if_pos rfl]
      · rw [Function.update_of_ne hu, if_neg fun he => hu (Option.some.inj he).symm]
        exact h.unread u
  rw [observe_cons]
  exact hopen.observe_quiet (by simp) (by simp) rfl

theorem closeThread_kept (h : Kept s []) (hs' : s'.viewing = none) (hcurrent : s'.current = none)
    (hunread : s'.model.unread = s.model.unread) (hlog : s'.log = s.log) :
    Kept (s'.observe [.still]) [] := by
  have hclosed : Kept s' [] := by
    refine ⟨?_, fun t ht => ?_, ?_, ?_, ?_⟩
    · rw [hs', hcurrent]
      rfl
    · rw [hs'] at ht
      cases ht
    · rw [hlog]
      exact h.marks
    · rw [hlog]
      exact h.posts
    · rw [hunread, hlog]
      exact h.unread
  exact hclosed.still

theorem renderFrame_kept (h : Kept s [])
    (hm : s.pendingOpen.isSome → s.lifecyclePaused = false → s.inVideo = false → s.Uncovered) :
    Kept (renderFrame s) [] := by
  cases hpaused : s.lifecyclePaused with
  | true =>
    rw [renderFrame_paused hpaused]
    exact h
  | false =>
    cases hdirty : s.dirty with
    | false =>
      rw [renderFrame_clean hdirty]
      exact h
    | true =>
      rw [renderFrame_dirty hpaused hdirty]
      rcases app_cases s with ⟨happ, -⟩ | ⟨id, hvideo, hpending, happ⟩
      · rw [happ]
        exact h.still_congr rfl rfl rfl rfl
      · have hun := hm (by rw [hpending]; rfl) hpaused hvideo
        have hopen : Kept ({ (openPending id s).1 with
            painted := some (viewOf s.model (openPending id s).1)
            paintedCall := s.call
            dirty := false }.observe
              [.call (.markRead id), .call (.cancel (threadNid id))]) [] :=
          openThread_kept h rfl rfl rfl rfl
            ⟨hun.resumed, hun.noVideo, hun.noLink, hun.noProfile⟩
        rw [happ, observe_append]
        exact hopen.still

/-- Each input keeps it. -/
theorem step_kept (i : Input) (h : Kept s []) (ho : Ok s i) : Kept (step s i) [] := by
  cases i with
  | onFrame rescaled a =>
    have hpump : Kept (pump a { s with dirty := s.dirty || rescaled }).1 [] :=
      pump_kept (h.congr rfl rfl rfl rfl) ho.1
    refine renderFrame_kept (hpump.congr rfl rfl rfl rfl) fun hp hl hv => ?_
    have hun := ho.2 hp hl hv
    exact ⟨hun.resumed, hun.noVideo, hun.noLink, hun.noProfile⟩
  | bgTick a | onAlarm a => exact pump_kept h ho
  | onNotificationClick id =>
    unfold step
    dsimp only
    split
    · exact h.congr rfl rfl rfl rfl
    · exact h
  | onLifecycleChanged state => exact h.still_congr rfl rfl rfl rfl
  | onResize | clickTab | otherInput => exact h.congr rfl rfl rfl rfl
  | clickRow thread =>
    exact openThread_kept h rfl rfl rfl rfl ⟨ho.resumed, ho.noVideo, ho.noLink, ho.noProfile⟩
  | clickBack => exact closeThread_kept h rfl rfl rfl rfl
  | clickProfile shown => exact h.still_congr rfl rfl rfl rfl
  | callChanged call => exact h.still_congr rfl rfl rfl rfl

theorem kept_init : Kept {} [] :=
  ⟨rfl, by simp, by simp, rfl, fun _ => rfl⟩

/-- In any run in which no conversation is opened, and no message of the open one comes in, while
    it is covered, only what is seen is read. -/
theorem lawful_of_run (h : Machine.Run step Ok {} s) : Lawful s :=
  (h.invariant kept_init fun i hs ho => step_kept i hs ho).lawful

/-- A message from Bob. -/
def fromBob (id : Nat) : Message :=
  { id, sender := "bob", text := "hi", ts := 0, outgoing := false, thread := "bob"
    status := .delivered, reactions := 0, attachments := [], call := none }

def bob : Thread := ⟨"bob", "Bob", false⟩

/-- Bob writes twice, and his conversation is opened in between. -/
def conversation : List Input :=
  [.onFrame false { events := [.message (fromBob 1)] }, .clickRow bob,
    .onFrame false { events := [.message (fromBob 2)] }, .clickBack, .onFrame false {}]

theorem lawful_of_run_conversation : Lawful (conversation.foldl step {}) := by
  refine lawful_of_run (Machine.run_of_goes ⟨⟨⟨?_, trivial⟩, ?_⟩, ?_, ⟨⟨?_, trivial⟩, ?_⟩, trivial,
    ⟨trivial, ?_⟩, trivial⟩)
  · rintro m - - - hv
    cases hv
  · intro hp
    cases hp
  · exact ⟨rfl, rfl, rfl, fun _ => rfl⟩
  · intro m _ _ _ _
    exact ⟨rfl, rfl, rfl, fun _ => rfl⟩
  · intro hp
    cases hp
  · intro hp
    cases hp

/-- A message that comes in while the app is paused is read, if its conversation is open. -/
theorem read_unseen : ¬ ∀ is : List Input, Lawful (is.foldl step {}) := by
  intro h
  have hmarks := (h [.onFrame false {}, .clickRow bob, .onFrame false {}, .onLifecycleChanged 4,
    .bgTick { events := [.message (fromBob 1)] }]).marks
  have hread : (none, .call (.markRead "bob")) ∈ ([Input.onFrame false {}, .clickRow bob,
    .onFrame false {}, .onLifecycleChanged 4,
    .bgTick { events := [.message (fromBob 1)] }].foldl step {}).log := by
    decide
  exact absurd (hmarks _ hread "bob" rfl) (by decide)

end Ui

end Wandr.SignalUi
