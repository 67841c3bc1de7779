import Mathlib.Data.List.Perm.Basic
import Wandr.Lib.Machine
import Wandr.Jellyfin.Client

/-!
# The reports of a session

The server is told when a stream starts, now and then where it is, and when it stops. The ids that
are told are those of the stream that was found last: they are set before it is opened, and what
stops the player reports them, whether or not that stream has been started.

* `Orderly`: nothing is stopped before it is opened, nothing is found over an open stream, and no
  seek goes far back;
* `sessions_balanced`: then each session is started once, reported and stopped once, with the ids
  of the open stream and not far from its clock.
-/

namespace Wandr.Jellyfin

open Machine

variable {s : State}

/-! ## The reports of one session -/

/-- What the server is told of a session: nothing, or that it starts, where it is, and that it
stops when it is no longer open. -/
inductive Balanced : List ReportKind → Bool → Prop
  | silent : Balanced [] false
  | under (n : Nat) : Balanced (.start :: List.replicate n .progress) true
  | over (n : Nat) : Balanced (.start :: List.replicate n .progress ++ [.stop]) false

theorem Balanced.progress {ks : List ReportKind} (h : Balanced ks true) :
    Balanced (ks ++ [.progress]) true := by
  cases h with
  | under n =>
    have happ : List.replicate n ReportKind.progress ++ [.progress] =
        List.replicate (n + 1) .progress :=
      List.replicate_succ'.symm
    rw [List.cons_append, happ]
    exact .under (n + 1)

theorem Balanced.stop {ks : List ReportKind} (h : Balanced ks true) :
    Balanced (ks ++ [.stop]) false := by
  cases h with
  | under n => exact .over n

def sessionReports (session : String) (rs : List Report) : List ReportKind :=
  (rs.filter fun r => r.ids.playSessionId = session).map Report.kind

theorem sessionReports_snoc (session : String) (rs : List Report) (r : Report) :
    sessionReports session (rs ++ [r]) =
      sessionReports session rs ++ if r.ids.playSessionId = session then [r.kind] else [] := by
  unfold sessionReports
  rw [List.filter_append, List.map_append]
  by_cases hr : r.ids.playSessionId = session
  · rw [if_pos hr, List.filter_cons_of_pos (by simpa using hr)]
    rfl
  · rw [if_neg hr, List.filter_cons_of_neg (by simpa using hr)]
    rfl

/-- A session that no report is of has none. -/
theorem sessionReports_eq_nil {session : String} {rs : List Report}
    (h : ∀ r ∈ rs, r.ids.playSessionId ≠ session) : sessionReports session rs = [] := by
  unfold sessionReports
  rw [List.filter_eq_nil_iff.2 fun r hr => by simpa using h r hr]
  rfl

/-! ## What the server has been told -/

/-- What the reports are made of. -/
structure Telling where
  client : Bool
  resolved : Option Resolved
  pendingOpen : Option PendingOpen
  playing : Option Resolved
  openings : List Opening
  reports : List Report
  sessions : List String
  lastReportUs : Int

def State.telling (s : State) : Telling where
  client := s.client
  resolved := s.resolved
  pendingOpen := s.pendingOpen
  playing := s.stream.map fun o => o.source.ids
  openings := s.openings
  reports := s.reports
  sessions := s.sessions
  lastReportUs := s.lastReportUs

def Opening.session? : Opening → Option String
  | probing _ _ source => some source.ids.playSessionId
  | _ => none

/-- The server has been asked. -/
def Opening.asks : Opening → Bool
  | spawned _ _ => false
  | _ => true

namespace Telling

variable (t : Telling)

/-- The sessions of which a stream is being looked for. -/
def waiting : List String := t.openings.filterMap Opening.session?

def isOpen (session : String) : Bool := t.playing.any fun ids => ids.playSessionId = session

/-- Nothing has been told of a session yet. -/
def Fresh (session : String) : Prop :=
  session ∈ t.sessions ∧ ∀ r ∈ t.reports, r.ids.playSessionId ≠ session

/-- What is told is of the stream that is open, or of the one that is about to be. -/
structure Resolves : Prop where
  client : ∀ ids, t.resolved = some ids → t.client = true
  pending : ∀ p, t.pendingOpen = some p → t.resolved = some p.ids ∧ t.playing = none
  playing : ∀ ids, t.playing = some ids → t.resolved = some ids
  idle : t.playing = none → t.pendingOpen = none → t.resolved = none
  asks : ∀ o ∈ t.openings, o.asks = true → t.client = true

/-- Each stream that is found is of another session. -/
structure Named : Prop where
  reports : ∀ r ∈ t.reports, r.ids.playSessionId ∈ t.sessions
  nodup : t.waiting.Nodup
  waiting : ∀ q ∈ t.waiting, t.Fresh q
  pending : ∀ p, t.pendingOpen = some p →
    t.Fresh p.ids.playSessionId ∧ p.ids.playSessionId ∉ t.waiting

/-- Each session is told from its start to its stop. -/
structure Tells : Prop where
  carried : ∀ r ∈ t.reports, r.streaming = some r.ids
  balanced : ∀ q, Balanced (sessionReports q t.reports) (t.isOpen q)
  last : ∀ ids, t.playing = some ids → ∃ r, t.reports.getLast? = some r ∧ r.ids = ids ∧
    10 * t.lastReportUs ≤ r.positionTicks

structure Good : Prop where
  resolves : t.Resolves
  named : t.Named
  tells : t.Tells

namespace Good

variable {t}

/-- A report of a session that has been named, and of which no stream is looked for. -/
theorem named_snoc (h : t.Named) (hp : t.pendingOpen = none) {r : Report}
    (hr : r.ids.playSessionId ∈ t.sessions) (hw : r.ids.playSessionId ∉ t.waiting) :
    { t with reports := t.reports ++ [r] }.Named where
  reports := fun r' hr' => by
    rcases List.mem_append.1 hr' with hr' | hr'
    · exact h.reports r' hr'
    · rw [List.mem_singleton.1 hr']
      exact hr
  nodup := h.nodup
  waiting := fun q hq => ⟨(h.waiting q hq).1, fun r' hr' => by
    rcases List.mem_append.1 hr' with hr' | hr'
    · exact (h.waiting q hq).2 r' hr'
    · rw [List.mem_singleton.1 hr']
      exact fun he => hw (he ▸ hq)⟩
  pending := fun p hp' => by cases hp.symm.trans hp'

theorem carried_snoc (h : t.Tells) {r : Report} (hr : r.streaming = some r.ids) :
    ∀ r' ∈ t.reports ++ [r], r'.streaming = some r'.ids := fun r' hr' => by
  rcases List.mem_append.1 hr' with hr' | hr'
  · exact h.carried r' hr'
  · rw [List.mem_singleton.1 hr']
    exact hr

/-- The reports of another session are as they were. -/
theorem balanced_snoc (h : t.Tells) {r : Report} {playing : Option Resolved}
    (hsame : Balanced (sessionReports r.ids.playSessionId t.reports ++ [r.kind])
      (playing.any fun ids => ids.playSessionId = r.ids.playSessionId))
    (hother : ∀ q, q ≠ r.ids.playSessionId →
      (playing.any fun ids => ids.playSessionId = q) = t.isOpen q) (q : String) :
    Balanced (sessionReports q (t.reports ++ [r]))
      (playing.any fun ids => ids.playSessionId = q) := by
  rw [sessionReports_snoc]
  by_cases hq : r.ids.playSessionId = q
  · subst hq
    rw [if_pos rfl]
    exact hsame
  · rw [if_neg hq, List.append_nil, hother q fun he => hq he.symm]
    exact h.balanced q

theorem isOpen_of_playing {ids : Resolved} (hp : t.playing = some ids) (q : String) :
    t.isOpen q = decide (ids.playSessionId = q) := by
  unfold isOpen
  rw [hp]
  rfl

/-- The session of the open stream has been told of, and is not looked for. -/
theorem session_playing (h : t.Good) {ids : Resolved} (hp : t.playing = some ids) :
    ids.playSessionId ∈ t.sessions ∧ ids.playSessionId ∉ t.waiting := by
  obtain ⟨r, hr, rfl, -⟩ := h.tells.last ids hp
  have hmem : r ∈ t.reports := List.mem_of_getLast? hr
  exact ⟨h.named.reports r hmem, fun hw => (h.named.waiting _ hw).2 r hmem rfl⟩

/-- The open stream is reported. -/
theorem progress (h : t.Good) {ids : Resolved} (hp : t.playing = some ids) (us : Int)
    (paused : Bool) :
    { t with
      reports := t.reports ++ ([⟨.progress, ids, us * 10, paused, some ids⟩] : List Report)
      lastReportUs := us }.Good := by
  have hnone : t.pendingOpen = none := by
    cases ho : t.pendingOpen with
    | none => rfl
    | some p => cases hp.symm.trans (h.resolves.pending p ho).2
  obtain ⟨hs, hw⟩ := h.session_playing hp
  have hbal : Balanced (sessionReports ids.playSessionId t.reports) true := by
    have := h.tells.balanced ids.playSessionId
    rwa [isOpen_of_playing hp, decide_eq_true rfl] at this
  have hnamed := named_snoc h.named hnone (r := ⟨.progress, ids, us * 10, paused, some ids⟩) hs hw
  refine ⟨⟨h.resolves.client, h.resolves.pending, h.resolves.playing, h.resolves.idle,
      h.resolves.asks⟩,
    ⟨hnamed.reports, hnamed.nodup, hnamed.waiting, hnamed.pending⟩,
    ⟨carried_snoc h.tells rfl, balanced_snoc h.tells ?_ fun q _ => rfl, fun ids' hids => ?_⟩⟩
  · have hopen : (t.playing.any fun i => decide (i.playSessionId = ids.playSessionId)) = true := by
      rw [hp]
      exact decide_eq_true rfl
    dsimp only
    rw [hopen]
    exact hbal.progress
  · cases hp.symm.trans hids
    refine ⟨_, List.getLast?_concat, rfl, ?_⟩
    dsimp only
    omega

/-- The open stream is stopped. -/
theorem stop (h : t.Good) {ids : Resolved} (hp : t.playing = some ids) (us : Int) :
    { t with
      reports := t.reports ++ ([⟨.stop, ids, us * 10, false, some ids⟩] : List Report)
      playing := none
      resolved := none }.Good := by
  have hnone : t.pendingOpen = none := by
    cases ho : t.pendingOpen with
    | none => rfl
    | some p => cases hp.symm.trans (h.resolves.pending p ho).2
  obtain ⟨hs, hw⟩ := h.session_playing hp
  have hbal : Balanced (sessionReports ids.playSessionId t.reports) true := by
    have := h.tells.balanced ids.playSessionId
    rwa [isOpen_of_playing hp, decide_eq_true rfl] at this
  have hnamed := named_snoc h.named hnone (r := ⟨.stop, ids, us * 10, false, some ids⟩) hs hw
  refine ⟨⟨fun _ he => (by cases he), fun p ho => (by cases hnone.symm.trans ho),
      fun _ he => (by cases he), fun _ _ => rfl, h.resolves.asks⟩,
    ⟨hnamed.reports, hnamed.nodup, hnamed.waiting, hnamed.pending⟩,
    ⟨carried_snoc h.tells rfl, balanced_snoc h.tells hbal.stop fun q hq => ?_,
      fun _ he => (by cases he)⟩⟩
  rw [isOpen_of_playing hp, decide_eq_false fun he => hq he.symm]
  rfl

/-- Nothing is open, and nothing is to be. -/
theorem stop_idle (h : t.Good) (hp : t.playing = none) (hn : t.pendingOpen = none) :
    { t with resolved := none, playing := none }.Good := by
  refine ⟨⟨fun _ he => (by cases he), fun p ho => (by cases hn.symm.trans ho),
    fun _ he => (by cases he), fun _ _ => rfl, h.resolves.asks⟩,
    ⟨h.named.reports, h.named.nodup, h.named.waiting, h.named.pending⟩,
    ⟨h.tells.carried, fun q => ?_, fun _ he => (by cases he)⟩⟩
  have hbal := h.tells.balanced q
  unfold isOpen at hbal
  rwa [hp] at hbal

/-- What has been found is opened. -/
theorem start (h : t.Good) {p : PendingOpen} (hp : t.pendingOpen = some p) (us : Int)
    (hus : 0 ≤ us) :
    { t with
      pendingOpen := none
      playing := some p.ids
      reports := t.reports ++ ([⟨.start, p.ids, us * 10, false, some p.ids⟩] : List Report)
      lastReportUs := 0 }.Good := by
  obtain ⟨hres, hplaying⟩ := h.resolves.pending p hp
  obtain ⟨hfresh, hw⟩ := h.named.pending p hp
  have hnamed : { t with pendingOpen := none }.Named :=
    ⟨h.named.reports, h.named.nodup, h.named.waiting, fun q hq => by cases hq⟩
  have hnamed' := named_snoc hnamed rfl (r := ⟨.start, p.ids, us * 10, false, some p.ids⟩)
    hfresh.1 hw
  refine ⟨⟨h.resolves.client, fun q hq => (by cases hq), fun ids he => ?_, fun he => (by cases he),
      h.resolves.asks⟩,
    ⟨hnamed'.reports, hnamed'.nodup, hnamed'.waiting, hnamed'.pending⟩,
    ⟨carried_snoc h.tells rfl, balanced_snoc h.tells ?_ fun q hq => ?_, fun ids he => ?_⟩⟩
  · cases he
    exact hres
  · -- Nothing has been told of the session before.
    rw [sessionReports_eq_nil hfresh.2]
    have hopen :
        ((some p.ids).any fun i => decide (i.playSessionId = p.ids.playSessionId)) = true :=
      decide_eq_true rfl
    dsimp only
    rw [hopen]
    exact .under 0
  · unfold isOpen
    rw [hplaying]
    exact decide_eq_false fun he => hq he.symm
  · cases he
    refine ⟨_, List.getLast?_concat, rfl, ?_⟩
    dsimp only
    omega

/-! ### Tasks -/

theorem waiting_snoc (o : Opening) :
    { t with openings := t.openings ++ [o] }.waiting = t.waiting ++ o.session?.toList := by
  unfold waiting
  rw [List.filterMap_append]
  cases ho : o.session? with
  | none => rw [List.filterMap_cons_none ho]; rfl
  | some q => rw [List.filterMap_cons_some ho]; rfl

theorem asks_snoc (h : t.Resolves) {o : Opening} (hc : o.asks = true → t.client = true) :
    ∀ o' ∈ t.openings ++ [o], o'.asks = true → t.client = true := fun o' ho' => by
  rcases List.mem_append.1 ho' with ho' | ho'
  · exact h.asks o' ho'
  · rw [List.mem_singleton.1 ho']
    exact hc

/-- A task that goes on, or is over, is no longer where it was. -/
theorem erase (h : t.Good) (k : Nat) : { t with openings := t.openings.eraseIdx k }.Good := by
  have hsub : ({ t with openings := t.openings.eraseIdx k }).waiting.Sublist t.waiting :=
    (List.eraseIdx_sublist _ k).filterMap _
  exact ⟨⟨h.resolves.client, h.resolves.pending, h.resolves.playing, h.resolves.idle,
      fun o ho => h.resolves.asks o (List.mem_of_mem_eraseIdx ho)⟩,
    ⟨h.named.reports, h.named.nodup.sublist hsub, fun q hq => h.named.waiting q (hsub.subset hq),
      fun p hp => ⟨(h.named.pending p hp).1, fun hm => (h.named.pending p hp).2 (hsub.subset hm)⟩⟩,
    ⟨h.tells.carried, h.tells.balanced, h.tells.last⟩⟩

/-- A task goes on that looks for no stream yet. -/
theorem push (h : t.Good) {o : Opening} (ho : o.session? = none)
    (hc : o.asks = true → t.client = true) :
    { t with openings := t.openings ++ [o] }.Good := by
  have hw : { t with openings := t.openings ++ [o] }.waiting = t.waiting := by
    rw [waiting_snoc, ho]
    exact List.append_nil _
  refine ⟨⟨h.resolves.client, h.resolves.pending, h.resolves.playing, h.resolves.idle,
      asks_snoc h.resolves hc⟩,
    ⟨h.named.reports, ?_, ?_, ?_⟩, ⟨h.tells.carried, h.tells.balanced, h.tells.last⟩⟩
  · rw [hw]
    exact h.named.nodup
  · rw [hw]
    exact h.named.waiting
  · rw [hw]
    exact h.named.pending

/-- The server names a session. -/
theorem name (h : t.Good) (q : String) : { t with sessions := q :: t.sessions }.Good :=
  ⟨⟨h.resolves.client, h.resolves.pending, h.resolves.playing, h.resolves.idle,
      h.resolves.asks⟩,
    ⟨fun r hr => List.mem_cons_of_mem _ (h.named.reports r hr), h.named.nodup,
      fun q' hq => ⟨List.mem_cons_of_mem _ (h.named.waiting q' hq).1, (h.named.waiting q' hq).2⟩,
      fun p hp => ⟨⟨List.mem_cons_of_mem _ (h.named.pending p hp).1.1, (h.named.pending p hp).1.2⟩,
        (h.named.pending p hp).2⟩⟩,
    ⟨h.tells.carried, h.tells.balanced, h.tells.last⟩⟩

/-- The stream of a session that has just been named is looked for. -/
theorem probe (h : t.Good) {q : String} (hq : q ∉ t.sessions) {o : Opening}
    (ho : o.session? = some q) (hc : t.client = true) :
    { t with openings := t.openings ++ [o], sessions := q :: t.sessions }.Good := by
  have hw : { t with openings := t.openings ++ [o] }.waiting = t.waiting ++ [q] := by
    rw [waiting_snoc, ho]
    rfl
  have hn := h.name q
  refine ⟨⟨h.resolves.client, h.resolves.pending, h.resolves.playing, h.resolves.idle,
      asks_snoc h.resolves fun _ => hc⟩,
    ⟨hn.named.reports, ?_, fun q' hq' => ?_, fun p hp => ⟨(hn.named.pending p hp).1, fun hm => ?_⟩⟩,
    ⟨h.tells.carried, h.tells.balanced, h.tells.last⟩⟩
  · change { t with openings := t.openings ++ [o] }.waiting.Nodup
    rw [hw]
    refine List.nodup_append.2
      ⟨h.named.nodup, List.pairwise_singleton _ _, fun q' hq' q'' hq'' => ?_⟩
    rw [List.mem_singleton.1 hq'']
    exact fun he => hq (he ▸ (h.named.waiting q' hq').1)
  · change q' ∈ { t with openings := t.openings ++ [o] }.waiting at hq'
    rw [hw] at hq'
    rcases List.mem_append.1 hq' with hq' | hq'
    · exact hn.named.waiting q' hq'
    · rw [List.mem_singleton.1 hq']
      exact ⟨List.mem_cons_self, fun r hr he => hq (he ▸ h.named.reports r hr)⟩
  · change p.ids.playSessionId ∈ { t with openings := t.openings ++ [o] }.waiting at hm
    rw [hw] at hm
    rcases List.mem_append.1 hm with hm | hm
    · exact (hn.named.pending p hp).2 hm
    · exact hq (List.mem_singleton.1 hm ▸ (h.named.pending p hp).1.1)

/-- A stream has been found while none is open. -/
theorem found (h : t.Good) {k : Nat} {play : Play} {us : Int} {source : Source}
    (hk : t.openings[k]? = some (.probing play us source)) (hp : t.playing = none)
    {p : PendingOpen} (hids : p.ids = source.ids) :
    { t with
      openings := t.openings.eraseIdx k
      resolved := some source.ids
      pendingOpen := some p }.Good := by
  obtain ⟨hlt, hat⟩ := List.getElem?_eq_some_iff.1 hk
  have hperm : (source.ids.playSessionId ::
      ({ t with openings := t.openings.eraseIdx k }).waiting).Perm t.waiting := by
    have := (List.getElem_cons_eraseIdx_perm hlt).filterMap Opening.session?
    rw [hat] at this
    exact this
  have hnodup := List.nodup_cons.1 (hperm.nodup_iff.2 h.named.nodup)
  have hmem : source.ids.playSessionId ∈ t.waiting := hperm.subset List.mem_cons_self
  have he := h.erase k
  have hc := h.resolves.asks _ (List.mem_of_getElem? hk) rfl
  refine ⟨⟨fun _ _ => hc, fun q hq => ?_, fun ids hs => (by cases hp.symm.trans hs),
      fun _ hs => (by cases hs), he.resolves.asks⟩,
    ⟨h.named.reports, he.named.nodup, he.named.waiting, fun q hq => ?_⟩,
    ⟨h.tells.carried, h.tells.balanced, fun ids hs => (by cases hp.symm.trans hs)⟩⟩
  · cases hq
    exact ⟨congrArg some hids.symm, hp⟩
  · cases hq
    rw [hids]
    exact ⟨h.named.waiting _ hmem, hnodup.1⟩

end Good

end Telling

/-! ## Runs -/

/-- Where the open stream was reported last. -/
def lastTicks (s : State) : Int := (s.reports.getLast?.map Report.positionTicks).getD 0

/-- The clock is less than ten seconds away from a position. -/
def Near (ticks : Int) (o : Stream) : Prop :=
  ticks - 10 * o.clockUs < 10 * reportEvery ∧ 10 * o.clockUs - ticks < 10 * reportEvery

/-- The stream once a tick has sought in it, if it does. -/
def sought (o : Stream) (seek : Bool) (e : Tick) : Stream := if seek then doSeek o e.landed else o

/-- The clock is not ten seconds or more behind a position, or a report is due. -/
def Kept (ticks lastUs : Int) (o : Stream) : Prop :=
  o.ended = false →
    ticks - 10 * o.clockUs < 10 * reportEvery ∨ reportEvery ≤ o.clockUs - lastUs

/-- No seek goes far back behind what was reported, and a stream that is not driven has not gone
far. -/
structure Paced (s : State) (e : Tick) : Prop where
  opened : ∀ p, s.pendingOpen = some p → Kept (max s.pendingSeekUs 0 * 10) 0
    (sought { source := p, startUs := p.play.startUs }
      (s.seekRequest.isSome || decide (resumeAfter < s.pendingSeekUs)) e)
  driven : s.pendingOpen = none → s.phase = .playing → ∀ o, s.stream = some o →
    Kept (lastTicks s) s.lastReportUs (sought o s.seekRequest.isSome e)
  left : s.pendingOpen = none → s.phase ≠ .playing → ∀ o, s.stream = some o →
    Near (lastTicks s) o

/-- No back comes between a stream and its opening, the engine opens what it is given, the server
names a new session each time, a stream is found while none is open, and the clock is kept. -/
def Orderly (s : State) : Input → Prop
  | .back => s.view = .player → s.pendingOpen = none
  | .tick e => (s.pendingOpen.isSome → e.opens = .ok ()) ∧ Paced s e
  | .playbackInfo k r _ => ∀ play us pb, s.openings[k]? = some (.resolving play us) →
      r = .ok pb → pb.playSessionId.getD "" ∉ s.sessions
  | .probed k r => ∀ play us source p, s.openings[k]? = some (.probing play us source) →
      r = .ok p → s.stream = none
  | _ => True

/-! ### What a step tells -/

theorem telling_spawnDriver : (spawnDriver s).telling = s.telling := by
  unfold spawnDriver
  split <;> rfl

theorem telling_loadTab (tab : Int) : (loadTab s tab).telling = s.telling := by
  unfold loadTab
  split <;> rfl

theorem telling_drill (into : Kind) (title : String) :
    (drill s into title).telling = s.telling := by
  unfold drill
  split
  · split <;> rfl
  · rfl

theorem telling_loaded (listing : Listing) (r : Except String (List Media)) :
    (loaded s listing r).telling = s.telling := by
  have hquery : (itemsQuery s listing r).1.telling = s.telling := by
    unfold itemsQuery
    split
    · split
      · rfl
      · dsimp only
        split <;> rfl
    · rfl
  exact hquery

theorem telling_cellTap (id : ItemId) : (cellTap s id).telling = s.telling := by
  unfold cellTap
  split
  · rfl
  · split <;> rfl

theorem telling_goBack : (goBack s).telling = s.telling := by
  unfold goBack
  split
  · rfl
  · rfl
  · split <;> rfl

theorem telling_pair (code : String) : (pair s code).telling = s.telling := by
  unfold pair
  split <;> rfl

theorem telling_loadDetail (id : ItemId) : (loadDetail s id).telling = s.telling := by
  unfold loadDetail
  split <;> rfl

theorem telling_itemInfo (id : ItemId) (r : Option ItemInfo) :
    (itemInfo s id r).telling = s.telling := by
  unfold itemInfo
  dsimp only
  split <;> rfl

theorem telling_userData (id : ItemId) (r : Option (Option Int)) :
    (userData s id r).telling = s.telling := by
  unfold userData
  split <;> rfl

/-- The clock of the open stream is not told with its ids. -/
theorem telling_mapStream (f : Stream → Stream) (hf : ∀ o, (f o).source = o.source) :
    { s with stream := s.stream.map f }.telling = s.telling := by
  have hplaying : (s.stream.map f).map (fun o => o.source.ids) =
      s.stream.map fun o => o.source.ids := by
    rw [Option.map_map]
    exact congrArg (s.stream.map ·) (funext fun o => congrArg PendingOpen.ids (hf o))
  unfold State.telling
  dsimp only
  rw [hplaying]

theorem telling_onRenderFrame (nanos : Nat) (p : Pumped) :
    (onRenderFrame s nanos p).telling = s.telling := by
  have hpump : (pumpStream { s with lastNanos := nanos } p).telling = s.telling := by
    unfold pumpStream
    split
    · exact telling_mapStream (s := s) (fun o => { o with clockUs := p.clockUs, ended := p.ended })
        fun _ => rfl
    · rfl
  unfold onRenderFrame
  dsimp only
  split <;> exact hpump

theorem source_doSeek (o : Stream) (landed : Option Int) : (doSeek o landed).source = o.source := by
  cases landed <;> rfl

theorem telling_takeSeek (landed : Option Int) : (takeSeek s landed).telling = s.telling := by
  unfold takeSeek
  split
  · exact telling_mapStream (s := s) (doSeek · landed) fun o => source_doSeek o landed
  · rfl

theorem report_eq (ids : Resolved) (hr : s.resolved = some ids) (hc : s.client = true)
    (kind : ReportKind) (us : Int) (paused : Bool) :
    report s kind us paused = { s with reports := s.reports ++
      [⟨kind, ids, us * 10, paused, s.stream.map fun o => o.source.ids⟩] } := by
  unfold report
  rw [hr, hc]

theorem report_idle (hr : s.resolved = none) (kind : ReportKind) (us : Int) (paused : Bool) :
    report s kind us paused = s := by
  unfold report
  rw [hr]

theorem told_stopPlayback (h : s.telling.Good) (hn : s.pendingOpen = none) :
    (stopPlayback s).telling.Good := by
  cases hs : s.stream with
  | none =>
    have hplaying : s.telling.playing = none := congrArg (Option.map _) hs
    have hres : s.resolved = none := h.resolves.idle hplaying hn
    unfold stopPlayback
    dsimp only
    rw [report_idle hres]
    exact h.stop_idle hplaying hn
  | some o =>
    have hplaying : s.telling.playing = some o.source.ids := congrArg (Option.map _) hs
    have hres : s.resolved = some o.source.ids := h.resolves.playing _ hplaying
    have hc : s.client = true := h.resolves.client _ hres
    unfold stopPlayback
    dsimp only
    rw [report_eq _ hres hc, hs]
    exact h.stop hplaying o.clockUs

theorem told_cmdBack (h : s.telling.Good) (hin : Orderly s .back) : (cmdBack s).telling.Good := by
  unfold cmdBack
  split
  · next hv => exact told_stopPlayback h (hin hv)
  · rw [telling_goBack]
    exact h

theorem told_playDetail (h : s.telling.Good) (resume : Bool) :
    (playDetail s resume).telling.Good := by
  unfold playDetail
  split
  · exact h
  · exact h.push (o := .spawned _ _) rfl fun he => by cases he

theorem told_driver (h : s.telling.Good) (r : Except String Connected) :
    (driver s r).telling.Good := by
  unfold driver
  split
  · dsimp only
    split
    · exact h
    · rw [telling_loadTab]
      exact ⟨⟨fun _ _ => rfl, h.resolves.pending, h.resolves.playing, h.resolves.idle,
        fun _ _ _ => rfl⟩, ⟨h.named.reports, h.named.nodup, h.named.waiting, h.named.pending⟩,
        ⟨h.tells.carried, h.tells.balanced, h.tells.last⟩⟩
  · exact h

section Tasks

variable {k : Nat} {play : Play} {us : Int}

theorem told_openMedia (h : s.telling.Good) :
    (openMedia { s with openings := s.openings.eraseIdx k } play us).telling.Good := by
  unfold openMedia
  split
  · next hc => exact (h.erase k).push (o := .resolving play us) rfl fun _ => hc.1
  · exact h.erase k

theorem told_playbackInfo (h : s.telling.Good)
    (hk : s.openings[k]? = some (.resolving play us)) {r : Except String PlaybackInfo} {http : Bool}
    (hin : Orderly s (.playbackInfo k r http)) :
    (playbackInfo { s with openings := s.openings.eraseIdx k } play us r http).telling.Good := by
  have hc : s.client = true := h.resolves.asks _ (List.mem_of_getElem? hk) rfl
  unfold playbackInfo
  split
  · exact h.erase k
  · next pb =>
    have hq : pb.playSessionId.getD "" ∉ s.sessions := hin play us pb hk rfl
    have hnamed := (h.erase k).name (pb.playSessionId.getD "")
    dsimp only
    split
    · exact hnamed
    · split
      · split
        · exact (h.erase k).probe hq rfl hc
        · exact hnamed
      · exact hnamed

theorem told_probed (h : s.telling.Good) {source : Source}
    (hk : s.openings[k]? = some (.probing play us source)) {r : Except String Probe}
    (hin : Orderly s (.probed k r)) :
    (probed { s with openings := s.openings.eraseIdx k } play us source r).telling.Good := by
  unfold probed
  split
  · exact h.erase k
  · next p =>
    have hnone : s.telling.playing = none := congrArg (Option.map _) (hin play us source p hk rfl)
    exact h.found hk hnone rfl

end Tasks

/-! ### Ticks -/

theorem resumeStream_eq (s : State) : ∃ seek last,
    resumeStream s = { s with seekRequest := seek, last } ∧
      seek.isSome = (s.seekRequest.isSome || decide (resumeAfter < s.pendingSeekUs)) := by
  unfold resumeStream
  split
  · next hlate =>
    refine ⟨_, _, rfl, ?_⟩
    rw [decide_eq_true hlate, Bool.or_true]
    rfl
  · next hearly =>
    refine ⟨s.seekRequest, s.last, rfl, ?_⟩
    rw [decide_eq_false hearly, Bool.or_false]

/-- The stream that has been found is opened, and its start reported. -/
theorem openPending_ok (h : s.telling.Good) {p : PendingOpen} (hp : s.pendingOpen = some p) :
    ∃ seek last startUs, openPending s (.ok ()) = { s with
        pendingOpen := none
        phase := .playing
        lastReportUs := 0
        seekRequest := seek
        last
        stream := some { source := p, startUs }
        reports := s.reports ++ [⟨.start, p.ids, max s.pendingSeekUs 0 * 10, false, some p.ids⟩] } ∧
      seek.isSome = (s.seekRequest.isSome || decide (resumeAfter < s.pendingSeekUs)) := by
  have hres : s.resolved = some p.ids := (h.resolves.pending p hp).1
  have hc : s.client = true := h.resolves.client _ hres
  obtain ⟨seek, last, heq, hseek⟩ := resumeStream_eq
    { s with pendingOpen := none, phase := .playing, lastReportUs := 0 }
  refine ⟨seek, last, seek.getD 0, ?_, hseek⟩
  unfold openPending
  rw [hp]
  dsimp only
  rw [heq]
  refine (report_eq p.ids ?_ ?_ _ _ _).trans ?_
  · exact hres
  · exact hc
  · rfl

theorem told_openPending (h : s.telling.Good) {opens : Except String Unit}
    (hin : s.pendingOpen.isSome → opens = .ok ()) : (openPending s opens).telling.Good := by
  cases hp : s.pendingOpen with
  | none =>
    unfold openPending
    rw [hp]
    exact h
  | some p =>
    rw [hin (by rw [hp]; rfl)]
    obtain ⟨seek, last, startUs, heq, -⟩ := openPending_ok h hp
    rw [heq]
    exact h.start hp (max s.pendingSeekUs 0) (by omega)

theorem pendingOpen_openPending_ok {opens : Except String Unit} (h : s.telling.Good)
    (hin : s.pendingOpen.isSome → opens = .ok ()) : (openPending s opens).pendingOpen = none := by
  cases hp : s.pendingOpen with
  | none =>
    unfold openPending
    rw [hp]
    exact hp
  | some p =>
    rw [hin (by rw [hp]; rfl)]
    obtain ⟨seek, last, startUs, heq, -⟩ := openPending_ok h hp
    rw [heq]

/-- A report that is due is of the open stream, where its clock stands. -/
theorem reportProgress_due {o : Stream} (h : s.telling.Good) (hs : s.stream = some o)
    (hdue : reportEvery ≤ o.clockUs - s.lastReportUs) : reportProgress s = { s with
      lastReportUs := o.clockUs
      reports := s.reports ++
        [⟨.progress, o.source.ids, o.clockUs * 10, s.paused, some o.source.ids⟩] } := by
  have hres : s.resolved = some o.source.ids :=
    h.resolves.playing _ (congrArg (Option.map _) hs)
  have hc : s.client = true := h.resolves.client _ hres
  have hclk : (s.stream.map Stream.clockUs).getD 0 = o.clockUs := by rw [hs]; rfl
  unfold reportProgress
  dsimp only
  rw [hclk, if_pos hdue]
  refine (report_eq o.source.ids ?_ ?_ _ _ _).trans ?_
  · exact hres
  · exact hc
  · dsimp only
    rw [hs]
    rfl

theorem told_reportProgress (h : s.telling.Good) (hn : s.pendingOpen = none) :
    (reportProgress s).telling.Good := by
  rcases Option.eq_none_or_eq_some s.stream with hs | ⟨o, hs⟩
  · -- Nothing is open, and nothing is told.
    have hplaying : s.telling.playing = none := congrArg (Option.map _) hs
    have hres : s.resolved = none := h.resolves.idle hplaying hn
    unfold reportProgress
    dsimp only
    generalize (s.stream.map Stream.clockUs).getD 0 = clk
    split
    · rw [report_idle (s := { s with lastReportUs := clk }) hres]
      refine ⟨⟨h.resolves.client, h.resolves.pending, h.resolves.playing, h.resolves.idle,
        h.resolves.asks⟩, ⟨h.named.reports, h.named.nodup, h.named.waiting, h.named.pending⟩,
        ⟨h.tells.carried, h.tells.balanced, fun ids he => ?_⟩⟩
      cases hplaying.symm.trans he
    · exact h
  · rcases Classical.em (reportEvery ≤ o.clockUs - s.lastReportUs) with hdue | hdue
    · rw [reportProgress_due h hs hdue]
      exact h.progress (congrArg (Option.map _) hs) o.clockUs s.paused
    · have hclk : (s.stream.map Stream.clockUs).getD 0 = o.clockUs := by rw [hs]; rfl
      unfold reportProgress
      dsimp only
      rw [hclk, if_neg hdue]
      exact h

theorem told_drive (h : s.telling.Good) (hn : s.pendingOpen = none) (landed : Option Int) :
    (drive s landed).telling.Good := by
  have hseek : (takeSeek s landed).telling.Good := (telling_takeSeek landed).symm ▸ h
  unfold drive
  dsimp only
  split
  · split
    · exact told_stopPlayback hseek hn
    · exact told_reportProgress hseek hn
  · exact h

theorem told_engineTick (h : s.telling.Good) {e : Tick} (hin : Orderly s (.tick e)) :
    (engineTick s e).telling.Good := by
  have hspawn : (spawnDriver s).telling.Good := telling_spawnDriver.symm ▸ h
  have hopens : (spawnDriver s).pendingOpen.isSome → e.opens = .ok () := by
    rw [show (spawnDriver s).pendingOpen = s.pendingOpen from
      congrArg Telling.pendingOpen telling_spawnDriver]
    exact hin.1
  exact told_drive (told_openPending hspawn hopens) (pendingOpen_openPending_ok hspawn hopens)
    e.landed

theorem told_step (h : s.telling.Good) (i : Input) (hin : Orderly s i) :
    (step s i).telling.Good := by
  cases i with
  | cellTap id => exact (congrArg Telling.Good (telling_cellTap id)).mpr h
  | setTab t => exact h
  | back => exact told_cmdBack h hin
  | play resume => exact told_playDetail h resume
  | playerTap => exact h
  | toggle => exact h
  | seek target => exact h
  | frame nanos p => exact (congrArg Telling.Good (telling_onRenderFrame nanos p)).mpr h
  | tick e => exact told_engineTick h hin
  | pair code => exact (congrArg Telling.Good (telling_pair code)).mpr h
  | driver r => exact told_driver h r
  | screenBegun k =>
    unfold step
    dsimp only
    split
    · rw [telling_loadTab]
      exact h
    · rw [telling_drill]
      exact h
    · exact h
  | loaded k r =>
    unfold step
    dsimp only
    split
    · rw [telling_loaded]
      exact h
    · exact h
  | detailBegun k =>
    unfold step
    dsimp only
    split
    · rw [telling_loadDetail]
      exact h
    · exact h
  | itemInfo k r =>
    unfold step
    dsimp only
    split
    · rw [telling_itemInfo]
      exact h
    · exact h
  | userData k r =>
    unfold step
    dsimp only
    split
    · rw [telling_userData]
      exact h
    · exact h
  | openBegun k =>
    unfold step
    dsimp only
    split
    · exact told_openMedia h
    · exact h
  | playbackInfo k r http =>
    unfold step
    dsimp only
    split
    · next hk => exact told_playbackInfo h hk hin
    · exact h
  | probed k r =>
    unfold step
    dsimp only
    split
    · next hk => exact told_probed h hk hin
    · exact h

/-! ### The clock -/

theorem stream_report (kind : ReportKind) (us : Int) (paused : Bool) :
    (report s kind us paused).stream = s.stream := by
  unfold report
  split <;> rfl

theorem stream_reportProgress : (reportProgress s).stream = s.stream := by
  unfold reportProgress
  dsimp only
  split
  · exact stream_report _ _ _
  · rfl

theorem stream_takeSeek (e : Tick) :
    (takeSeek s e.landed).stream = s.stream.map (sought · s.seekRequest.isSome e) := by
  unfold takeSeek sought
  dsimp only
  cases s.seekRequest.isSome with
  | false => exact Option.map_id'.symm
  | true => rfl

theorem lastTicks_eq {r : Report} (h : s.reports.getLast? = some r) :
    lastTicks s = r.positionTicks := by
  unfold lastTicks
  rw [h]
  rfl

/-- After a report that was due, or was not, the clock is near what was reported last. -/
theorem near_reportProgress (h : s.telling.Good) {o : Stream} (hs : s.stream = some o)
    (hkept : lastTicks s - 10 * o.clockUs < 10 * reportEvery ∨
      reportEvery ≤ o.clockUs - s.lastReportUs) :
    ∃ r, (reportProgress s).reports.getLast? = some r ∧ r.ids = o.source.ids ∧
      Near r.positionTicks o := by
  rcases Classical.em (reportEvery ≤ o.clockUs - s.lastReportUs) with hdue | hdue
  · rw [reportProgress_due h hs hdue]
    refine ⟨_, List.getLast?_concat, rfl, ?_⟩
    unfold Near reportEvery
    dsimp only
    omega
  · have hclk : (s.stream.map Stream.clockUs).getD 0 = o.clockUs := by rw [hs]; rfl
    have hsame : reportProgress s = s := by
      unfold reportProgress
      dsimp only
      rw [hclk, if_neg hdue]
    obtain ⟨r, hr, hids, hlast⟩ := h.tells.last _ (congrArg (Option.map _) hs)
    replace hr : s.reports.getLast? = some r := hr
    replace hlast : 10 * s.lastReportUs ≤ r.positionTicks := hlast
    have hback := hkept.resolve_right hdue
    rw [lastTicks_eq hr] at hback
    rw [hsame]
    refine ⟨r, hr, hids, hback, ?_⟩
    omega

theorem near_drive (h : s.telling.Good) (e : Tick)
    (hdriven : s.phase = .playing → ∀ o, s.stream = some o →
      Kept (lastTicks s) s.lastReportUs (sought o s.seekRequest.isSome e))
    (hleft : s.phase ≠ .playing → ∀ o, s.stream = some o → Near (lastTicks s) o) {o : Stream}
    (ho : (drive s e.landed).stream = some o) :
    ∃ r, (drive s e.landed).reports.getLast? = some r ∧ r.ids = o.source.ids ∧
      Near r.positionTicks o := by
  unfold drive at ho ⊢
  dsimp only at ho ⊢
  split at ho
  · next hplaying =>
    rw [if_pos hplaying]
    have hseek : (takeSeek s e.landed).telling.Good := (telling_takeSeek e.landed).symm ▸ h
    have hticks : lastTicks (takeSeek s e.landed) = lastTicks s :=
      congrArg (fun t : Telling => (t.reports.getLast?.map Report.positionTicks).getD 0)
        (telling_takeSeek e.landed)
    have hlast : (takeSeek s e.landed).lastReportUs = s.lastReportUs :=
      congrArg Telling.lastReportUs (telling_takeSeek e.landed)
    split at ho
    · -- At the end of the stream none is open.
      unfold stopPlayback at ho
      cases ho
    · next hended =>
      rw [if_neg hended]
      rw [stream_reportProgress] at ho
      obtain ⟨o', ho', rfl⟩ := Option.map_eq_some_iff.1 ((stream_takeSeek e).symm.trans ho)
      rw [ho] at hended
      have hgoes := hdriven hplaying o' ho' (Bool.eq_false_iff.2 hended)
      rw [← hticks, ← hlast] at hgoes
      exact near_reportProgress hseek ho hgoes
  · next hplaying =>
    rw [if_neg hplaying]
    obtain ⟨r, hr, hids, -⟩ := h.tells.last _ (congrArg (Option.map _) ho)
    refine ⟨r, hr, hids, ?_⟩
    rw [← lastTicks_eq hr]
    exact hleft hplaying o ho

theorem near_engineTick (h : s.telling.Good) {e : Tick} (hin : Orderly s (.tick e)) {o : Stream}
    (ho : (engineTick s e).stream = some o) :
    ∃ r, (engineTick s e).reports.getLast? = some r ∧ r.ids = o.source.ids ∧
      Near r.positionTicks o := by
  obtain ⟨hopens, hpaced⟩ := hin
  have hspawn : (spawnDriver s).telling.Good := telling_spawnDriver.symm ▸ h
  obtain ⟨b, d, hsame⟩ : ∃ b d, spawnDriver s = { s with driverSpawned := b, driving := d } := by
    unfold spawnDriver
    split
    · exact ⟨s.driverSpawned, s.driving, rfl⟩
    · exact ⟨true, true, rfl⟩
  unfold engineTick at ho ⊢
  cases hp : s.pendingOpen with
  | none =>
    have hnone : openPending (spawnDriver s) e.opens = spawnDriver s := by
      unfold openPending
      rw [hsame]
      dsimp only
      rw [hp]
    rw [hnone] at ho ⊢
    refine near_drive hspawn e ?_ ?_ ho
    · rw [hsame]
      exact hpaced.driven hp
    · rw [hsame]
      exact hpaced.left hp
  | some p =>
    rw [hopens (by rw [hp]; rfl)] at ho ⊢
    have hsome : (spawnDriver s).pendingOpen = some p := by rw [hsame]; exact hp
    have hgood : (openPending (spawnDriver s) (.ok ())).telling.Good :=
      told_openPending hspawn fun _ => rfl
    obtain ⟨seek, last, startUs, heq, hseek⟩ := openPending_ok hspawn hsome
    refine near_drive hgood e (fun _ o' ho' => ?_) (fun hno => ?_) ho
    · -- The stream has just been opened, and its start reported.
      rw [heq] at ho' ⊢
      cases ho'
      have hkept := hpaced.opened p hp
      have hlast : lastTicks { spawnDriver s with
          pendingOpen := none
          phase := .playing
          lastReportUs := 0
          seekRequest := seek
          last
          stream := some { source := p, startUs }
          reports := (spawnDriver s).reports ++
            [⟨.start, p.ids, max (spawnDriver s).pendingSeekUs 0 * 10, false, some p.ids⟩] } =
          max s.pendingSeekUs 0 * 10 := by
        rw [hsame]
        unfold lastTicks
        dsimp only
        rw [List.getLast?_concat]
        rfl
      rw [hlast]
      dsimp only
      rw [hseek, hsame]
      unfold Kept sought at hkept ⊢
      dsimp only at hkept ⊢
      split at hkept
      · next hs =>
        rw [if_pos hs]
        unfold doSeek at hkept ⊢
        split at hkept <;> exact hkept
      · next hs =>
        rw [if_neg hs]
        exact hkept
    · rw [heq] at hno
      exact absurd rfl hno

/-- In a run that is in order each session is started once, then reported, and stopped once when it
is no longer open; each report has the ids of the open stream; and after a tick the clock is less
than ten seconds away from what was reported last. -/
theorem sessions_balanced (hrun : Run step Orderly {} s) :
    (∀ session, Balanced (sessionReports session s.reports)
      (s.stream.any fun o => o.source.ids.playSessionId = session)) ∧
    (∀ r ∈ s.reports, r.streaming = some r.ids) ∧
    ∀ e, Orderly s (.tick e) → ∀ o, (step s (.tick e)).stream = some o →
      ∃ r, (step s (.tick e)).reports.getLast? = some r ∧ r.ids = o.source.ids ∧
        Near r.positionTicks o := by
  have hgood : s.telling.Good := by
    refine hrun.invariant (J := fun s => s.telling.Good) ⟨⟨?_, ?_, ?_, fun _ _ => rfl, ?_⟩,
      ⟨?_, .nil, ?_, ?_⟩, ⟨?_, fun _ => .silent, ?_⟩⟩ fun i h hi => told_step h i hi
    · exact fun _ h => by cases h
    · exact fun _ h => by cases h
    · exact fun _ h => by cases h
    · exact fun _ h => absurd h List.not_mem_nil
    · exact fun _ h => absurd h List.not_mem_nil
    · exact fun _ h => absurd h List.not_mem_nil
    · exact fun _ h => by cases h
    · exact fun _ h => absurd h List.not_mem_nil
    · exact fun _ h => by cases h
  refine ⟨fun session => ?_, hgood.tells.carried, fun e he o ho => near_engineTick hgood he ho⟩
  have hbal := hgood.tells.balanced session
  unfold Telling.isOpen State.telling at hbal
  dsimp only at hbal
  rwa [Option.any_map] at hbal

/-! ## A film -/

/-- The client is connected, and a film is played; `playback` is what may be played of it. -/
def found (playback : PlaybackInfo) (film : Media) : List Input :=
  [.tick { opens := .ok (), landed := none }, .driver (.ok ⟨true, "token", "server"⟩),
    .loaded 0 (.ok [film]), .cellTap film.id, .play false, .openBegun 0,
    .playbackInfo 0 (.ok playback) true, .probed 0 (.ok ⟨[], 1000⟩)]

def short : Media where
  id := ⟨"short"⟩
  name := "short"
  sub := ""
  kind := .movie

/-- One source, played as it is. -/
def shortInfo : PlaybackInfo where
  mediaSources := [⟨none, some true, none, some 6000000000, none⟩]
  playSessionId := some "session"

/-- The film cannot be opened. -/
def unopened : List Input :=
  found shortInfo short ++ [.tick { opens := .error "no tracks", landed := none }]

/-- The film is opened, played for twelve seconds and left. -/
def watched : List Input :=
  found shortInfo short ++ [.tick { opens := .ok (), landed := none },
    .frame 1 ⟨12000000, false⟩, .tick { opens := .ok (), landed := none }, .back]

theorem sessions_balanced_watched :
    Balanced (sessionReports "session" (watched.foldl step {}).reports) false := by
  have hrun : Run step Orderly ({} : State) (watched.foldl step {}) := by
    refine run_of_goes
      ⟨?_, trivial, trivial, trivial, trivial, trivial, ?_, ?_, ?_, trivial, ?_, ?_, trivial⟩
    · exact ⟨fun _ => rfl, fun p hp => (by cases hp), fun _ hp => (by cases hp),
        fun _ _ o ho => (by cases ho)⟩
    · intro play us pb _ hpb
      cases hpb
      decide
    · exact fun _ _ _ _ _ _ => by decide
    · refine ⟨fun _ => rfl, fun p hp _ => .inl ?_, fun hp => (by cases hp), fun hp => (by cases hp)⟩
      cases hp
      decide
    · refine ⟨fun _ => rfl, fun p hp => (by cases hp), fun _ _ o ho _ => .inl ?_,
        fun _ hp => absurd (by decide) hp⟩
      cases ho
      decide
    · exact fun _ => by decide
  have hclosed : (watched.foldl step {}).stream = none := by decide
  have hbal := (sessions_balanced hrun).1 "session"
  rw [hclosed] at hbal
  exact hbal

/-- What cannot be opened is stopped all the same: its session has a stop and no start. -/
theorem failed_stopped : ¬ ∀ s : State, Run step (fun _ _ => True) {} s → ∀ session,
    Balanced (sessionReports session s.reports)
      (s.stream.any fun o => o.source.ids.playSessionId = session) := by
  intro h
  have hrun : Run step (fun _ _ => True) ({} : State) (unopened.foldl step {}) :=
    run_of_goes ⟨trivial, trivial, trivial, trivial, trivial, trivial, trivial, trivial, trivial,
      trivial⟩
  have hbal := h _ hrun "session"
  have hreports : sessionReports "session" (unopened.foldl step {}).reports = [.stop] := by
    decide
  rw [hreports] at hbal
  cases hbal

end Wandr.Jellyfin
