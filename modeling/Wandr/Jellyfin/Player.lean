import Wandr.Lib.Machine
import Wandr.Jellyfin.Client

/-!
# The player screen

The player is shown as soon as something is played, and its stream is opened when the tasks have
found it. What closes the player does not stop these tasks, and a screen that is filled late takes
the place of the player, whose stream goes on.

* `InTime`: what comes late does not meet the player, or a play that is not the last;
* `player_stream`: then the player and the stream go together, and a stream is that of the last
  play and starts where it was to.
-/

namespace Wandr.Jellyfin

open Machine

variable {s : State}

/-! ## The player and the stream -/

/-- What is shown, and what goes on behind it. -/
structure Display where
  phase : Phase
  view : View
  stream : Option Stream
  pendingOpen : Option PendingOpen
  continuousRender : Bool
  immersive : Bool

def State.display (s : State) : Display where
  phase := s.phase
  view := s.view
  stream := s.stream
  pendingOpen := s.pendingOpen
  continuousRender := s.continuousRender
  immersive := s.immersive

/-- Nothing is played, and nothing is about to be. -/
structure Display.Quiet (d : Display) : Prop where
  stream : d.stream = none
  pendingOpen : d.pendingOpen = none
  continuousRender : d.continuousRender = false
  immersive : d.immersive = false

structure Display.Good (d : Display) : Prop where
  playing : d.phase = .playing → d.view = .player ∧ d.stream.isSome
  quiet : d.view ≠ .player → d.Quiet

namespace Display.Good

variable {d : Display}

/-- Another phase than that of playing says nothing. -/
theorem setPhase (h : d.Good) {p : Phase} (hp : p ≠ .playing) : { d with phase := p }.Good where
  playing := fun he => absurd he hp
  quiet := fun hv => ⟨(h.quiet hv).1, (h.quiet hv).2, (h.quiet hv).3, (h.quiet hv).4⟩

/-- Another screen is shown in place of one that was not the player. -/
theorem leave (h : d.Good) (hv : d.view ≠ .player) {p : Phase} (hp : p ≠ .playing) (v : View) :
    { d with phase := p, view := v }.Good where
  playing := fun he => absurd he hp
  quiet := fun _ => ⟨(h.quiet hv).1, (h.quiet hv).2, (h.quiet hv).3, (h.quiet hv).4⟩

/-- The open stream goes on. -/
theorem mapStream (h : d.Good) (f : Stream → Stream) :
    { d with stream := d.stream.map f }.Good where
  playing := fun he => ⟨(h.playing he).1, by rw [Option.isSome_map]; exact (h.playing he).2⟩
  quiet := fun hv => by
    have hq := h.quiet hv
    exact ⟨by rw [hq.stream]; rfl, hq.pendingOpen, hq.continuousRender, hq.immersive⟩

end Display.Good

theorem display_report {kind : ReportKind} {us : Int} {paused : Bool} :
    (report s kind us paused).display = s.display := by
  unfold report
  split <;> rfl

/-- Playing stops: only what waits to be opened is left. -/
theorem display_stopPlayback : (stopPlayback s).display =
    ⟨.browse, .browse, none, s.pendingOpen, false, false⟩ := by
  have hpending : (report s .stop ((s.stream.map Stream.clockUs).getD 0) false).pendingOpen =
      s.pendingOpen := congrArg Display.pendingOpen display_report
  unfold stopPlayback State.display
  rw [hpending]

theorem quiet_stopPlayback (h : s.pendingOpen = none) : (stopPlayback s).display.Quiet := by
  rw [display_stopPlayback]
  exact ⟨rfl, h, rfl, rfl⟩

theorem good_stopPlayback (h : s.pendingOpen = none) : (stopPlayback s).display.Good where
  playing := fun hp => by
    rw [display_stopPlayback] at hp
    cases hp
  quiet := fun _ => quiet_stopPlayback h

/-! ## Runs -/

/-- A stream is offered that can be played as it is. -/
def Offers (r : Except String PlaybackInfo) (http : Bool) : Prop :=
  http = true ∧ ∃ pb ms rest, r = .ok pb ∧ pb.mediaSources = ms :: rest ∧ ms.direct = true

/-- The stream of the last play cannot be found, or one that was found cannot be opened. -/
def OpenFails (s : State) : Input → Prop
  | .openBegun k => ∃ play us, s.openings[k]? = some (.spawned play us) ∧ s.wanted = some play ∧
      ¬ (s.client ∧ s.uid)
  | .playbackInfo k r http => ∃ play us, s.openings[k]? = some (.resolving play us) ∧
      s.wanted = some play ∧ ¬ Offers r http
  | .probed k r => ∃ play us source, s.openings[k]? = some (.probing play us source) ∧
      s.wanted = some play ∧ ∃ e, r = .error e
  | .tick e => s.pendingOpen.isSome ∧ ∃ msg, e.opens = .error msg
  | _ => False

/-- Nothing comes late: no screen takes the place of the player, no back comes between a stream
and its opening, a stream is found while the player is shown and opened for the last play, with no
seek left from another, and the last play fails only when nothing is played. What is resumed is
what the position was asked for. -/
def InTime (s : State) : Input → Prop
  | .cellTap id => ∀ m, findMedia s id = some m → m.kind = .movie ∨ m.kind = .episode →
      s.view ≠ .player
  | .back => s.view = .player → s.pendingOpen = none
  | .play resume => resume = true → ∀ d, s.detail = some d →
      s.resumeOf = some d.id ∧ resumeAfter < s.detailResumeUs
  | .loaded k _ => ∀ listing, s.screens[k]? = some (.waiting listing) → s.view ≠ .player
  | .tick e => ∀ p, s.pendingOpen = some p → e.opens = .ok () → s.wanted = some p.play ∧
      (s.seekRequest = none ∨ resumeAfter < s.pendingSeekUs)
  | .openBegun k => OpenFails s (.openBegun k) → s.display.Quiet
  | .playbackInfo k r http => OpenFails s (.playbackInfo k r http) → s.display.Quiet
  | .probed k r => (OpenFails s (.probed k r) → s.display.Quiet) ∧
      ∀ play us source p, s.openings[k]? = some (.probing play us source) → r = .ok p →
        s.view = .player
  | _ => True

/-! ### What is shown -/

theorem good_waitFor (h : s.display.Good) (listing : Listing) :
    (waitFor s listing).display.Good :=
  h.setPhase (p := .loading) (by decide)

theorem good_loadTab (h : s.display.Good) (tab : Int) : (loadTab s tab).display.Good := by
  unfold loadTab
  split
  · exact good_waitFor h _
  · exact h

theorem good_drill (h : s.display.Good) (into : Kind) (title : String) :
    (drill s into title).display.Good := by
  unfold drill
  split
  · split
    · exact good_waitFor h _
    · exact good_waitFor h _
    · exact h
  · exact h

theorem display_itemsQuery (listing : Listing) (r : Except String (List Media)) :
    (itemsQuery s listing r).1.display = s.display := by
  unfold itemsQuery
  split
  · split
    · rfl
    · dsimp only
      split <;> rfl
  · rfl

theorem good_loaded (h : s.display.Good) (hv : s.view ≠ .player) (listing : Listing)
    (r : Except String (List Media)) : (loaded s listing r).display.Good := by
  have hsame := display_itemsQuery (s := s) listing r
  have hgood : (itemsQuery s listing r).1.display.Good := hsame ▸ h
  have hview : (itemsQuery s listing r).1.view ≠ .player :=
    fun he => hv ((congrArg Display.view hsame).symm.trans he)
  exact hgood.leave hview (p := .browse) (by decide) .browse

theorem good_cellTap (h : s.display.Good) {id : ItemId} (hin : InTime s (.cellTap id)) :
    (cellTap s id).display.Good := by
  have hopen (m : Media) (hm : findMedia s id = some m)
      (hk : m.kind = .movie ∨ m.kind = .episode) : (openDetail s m).display.Good :=
    h.leave (hin m hm hk) (p := .detail) (by decide) .detail
  unfold cellTap
  split
  · exact h
  · next m hm =>
    split
    · exact h
    · exact h
    · next hk => exact hopen m hm (.inl hk)
    · next hk => exact hopen m hm (.inr hk)

theorem good_goBack (h : s.display.Good) : (goBack s).display.Good := by
  unfold goBack
  split
  · exact h
  · next hv =>
    exact h.leave (fun hp => by cases hv.symm.trans hp) (p := .browse) (by decide) .browse
  · split <;> exact h

theorem good_cmdBack (h : s.display.Good) (hin : InTime s .back) : (cmdBack s).display.Good := by
  unfold cmdBack
  split
  · next hv => exact good_stopPlayback (hin hv)
  · exact good_goBack h

/-- The player is shown before anything is known of its stream. -/
theorem good_playDetail (h : s.display.Good) (resume : Bool) :
    (playDetail s resume).display.Good := by
  unfold playDetail
  split
  · exact h
  · exact ⟨fun hp => ⟨rfl, (h.playing hp).2⟩, fun hv => absurd rfl hv⟩

theorem good_onRenderFrame (h : s.display.Good) (nanos : Nat) (p : Pumped) :
    (onRenderFrame s nanos p).display.Good := by
  have hpump : (pumpStream { s with lastNanos := nanos } p).display.Good := by
    unfold pumpStream
    split
    · exact h.mapStream _
    · exact h
  unfold onRenderFrame
  dsimp only
  split
  · next hv => exact ⟨hpump.playing, fun hne => absurd hv hne⟩
  · exact hpump

theorem display_spawnDriver : (spawnDriver s).display = s.display := by
  unfold spawnDriver
  split <;> rfl

theorem display_resumeStream : (resumeStream s).display = s.display := by
  unfold resumeStream
  split <;> rfl

/-- What waits to be opened is taken, whether it opens or not. -/
theorem pendingOpen_openPending (opens : Except String Unit) :
    (openPending s opens).pendingOpen = none := by
  unfold openPending
  split
  · next hnone => exact hnone
  · dsimp only
    split
    · exact (congrArg Display.pendingOpen display_report).trans
        (congrArg Display.pendingOpen display_resumeStream)
    · exact congrArg Display.pendingOpen display_stopPlayback

theorem good_openPending (h : s.display.Good) (opens : Except String Unit) :
    (openPending s opens).display.Good := by
  unfold openPending
  split
  · exact h
  · next p hp =>
    -- A stream is found only while the player is shown.
    have hview : s.view = .player := Classical.byContradiction fun hv => by
      cases hp.symm.trans (h.quiet hv).pendingOpen
    dsimp only
    split
    · rw [display_report]
      have hresume := display_resumeStream
        (s := { s with pendingOpen := none, phase := .playing, lastReportUs := 0 })
      exact ⟨fun _ => ⟨(congrArg Display.view hresume).trans hview, rfl⟩,
        fun hv => absurd ((congrArg Display.view hresume).trans hview) hv⟩
    · exact good_stopPlayback rfl

theorem display_reportProgress : (reportProgress s).display = s.display := by
  unfold reportProgress
  dsimp only
  split
  · exact display_report
  · rfl

theorem good_drive (h : s.display.Good) (hp : s.pendingOpen = none) (landed : Option Int) :
    (drive s landed).display.Good := by
  have hseek : (takeSeek s landed).display.Good := by
    unfold takeSeek
    split
    · exact h.mapStream _
    · exact h
  unfold drive
  dsimp only
  split
  · split
    · exact good_stopPlayback hp
    · rw [display_reportProgress]
      exact hseek
  · exact h

theorem good_engineTick (h : s.display.Good) (e : Tick) : (engineTick s e).display.Good :=
  good_drive (good_openPending (display_spawnDriver.symm ▸ h) e.opens)
    (pendingOpen_openPending e.opens) e.landed

theorem good_pair (h : s.display.Good) (code : String) : (pair s code).display.Good := by
  unfold pair
  split
  · exact h.setPhase (p := .pairing) (by decide)
  · exact h

theorem good_driver (h : s.display.Good) (r : Except String Connected) :
    (driver s r).display.Good := by
  unfold driver
  split
  · dsimp only
    split
    · exact h.setPhase (p := .failed) (by decide)
    · refine good_loadTab ?_ 0
      exact h
  · exact h

theorem good_openMedia (h : s.display.Good) (play : Play) (us : Int) :
    (openMedia s play us).display.Good := by
  unfold openMedia
  split
  · exact h.setPhase (p := .resolving) (by decide)
  · exact h

theorem good_playbackInfo (h : s.display.Good) (play : Play) (us : Int)
    (r : Except String PlaybackInfo) (http : Bool) :
    (playbackInfo s play us r http).display.Good := by
  unfold playbackInfo
  split
  · exact h.setPhase (p := .browse) (by decide)
  · dsimp only
    split
    · exact h.setPhase (p := .browse) (by decide)
    · split
      · split
        · exact h
        · exact h.setPhase (p := .browse) (by decide)
      · exact h.setPhase (p := .browse) (by decide)

theorem good_probed (h : s.display.Good) (play : Play) (us : Int) (source : Source)
    {r : Except String Probe} (hv : ∀ p, r = .ok p → s.view = .player) :
    (probed s play us source r).display.Good := by
  unfold probed
  split
  · exact h.setPhase (p := .browse) (by decide)
  · next p => exact ⟨h.playing, fun hne => absurd (hv p rfl) hne⟩

theorem display_loadDetail (id : ItemId) : (loadDetail s id).display = s.display := by
  unfold loadDetail
  split <;> rfl

theorem display_itemInfo (id : ItemId) (r : Option ItemInfo) :
    (itemInfo s id r).display = s.display := by
  unfold itemInfo
  dsimp only
  split <;> rfl

theorem display_userData (id : ItemId) (r : Option (Option Int)) :
    (userData s id r).display = s.display := by
  unfold userData
  split <;> rfl

theorem good_step (h : s.display.Good) (i : Input) (hin : InTime s i) :
    (step s i).display.Good := by
  cases i with
  | cellTap id => exact good_cellTap h hin
  | setTab t => exact h
  | back => exact good_cmdBack h hin
  | play resume => exact good_playDetail h resume
  | playerTap => exact h
  | toggle => exact h
  | seek target => exact h
  | frame nanos p => exact good_onRenderFrame h nanos p
  | tick e => exact good_engineTick h e
  | pair code => exact good_pair h code
  | driver r => exact good_driver h r
  | screenBegun k =>
    unfold step
    dsimp only
    split
    · exact good_loadTab (s := { s with screens := s.screens.eraseIdx k }) h _
    · exact good_drill (s := { s with screens := s.screens.eraseIdx k }) h _ _
    · exact h
  | loaded k r =>
    unfold step
    dsimp only
    split
    · next listing hl =>
      exact good_loaded (s := { s with screens := s.screens.eraseIdx k }) h (hin listing hl) _ r
    · exact h
  | detailBegun k =>
    unfold step
    dsimp only
    split
    · rw [display_loadDetail]
      exact h
    · exact h
  | itemInfo k r =>
    unfold step
    dsimp only
    split
    · rw [display_itemInfo]
      exact h
    · exact h
  | userData k r =>
    unfold step
    dsimp only
    split
    · rw [display_userData]
      exact h
    · exact h
  | openBegun k =>
    unfold step
    dsimp only
    split
    · exact good_openMedia (s := { s with openings := s.openings.eraseIdx k }) h _ _
    · exact h
  | playbackInfo k r http =>
    unfold step
    dsimp only
    split
    · exact good_playbackInfo (s := { s with openings := s.openings.eraseIdx k }) h _ _ r http
    · exact h
  | probed k r =>
    unfold step
    dsimp only
    split
    · next play us source hk =>
      exact good_probed (s := { s with openings := s.openings.eraseIdx k }) h play us source
        fun p hp => hin.2 play us source p hk hp
    · exact h

/-! ### Where a stream starts -/

def Opening.play : Opening → Play
  | spawned play _ => play
  | resolving play _ => play
  | probing play _ _ => play

def Opening.resumeUs : Opening → Int
  | spawned _ us => us
  | resolving _ us => us
  | probing _ us _ => us

/-- What is known of the titles that are being opened. -/
structure Finding where
  detailResumeUs : Int
  pendingOpen : Option PendingOpen
  pendingSeekUs : Int
  openings : List Opening
  positions : List (ItemId × Int)
  resumeOf : Option ItemId

def State.finding (s : State) : Finding where
  detailResumeUs := s.detailResumeUs
  pendingOpen := s.pendingOpen
  pendingSeekUs := s.pendingSeekUs
  openings := s.openings
  positions := s.positions
  resumeOf := s.resumeOf

/-- A play is told the position of its title, and is not resumed just after the start. -/
def Told (play : Play) (us : Int) : Prop := us = play.startUs ∧ (us = 0 ∨ resumeAfter < us)

structure Finding.Good (f : Finding) : Prop where
  told : ∀ t ∈ f.openings, Told t.play t.resumeUs
  ids : ∀ play us source, .probing play us source ∈ f.openings → source.ids.itemId = play.id
  pending : ∀ p, f.pendingOpen = some p → Told p.play f.pendingSeekUs ∧ p.ids.itemId = p.play.id
  answered : ∀ id, f.resumeOf = some id → f.positions.lookup id = some f.detailResumeUs

namespace Finding.Good

variable {f : Finding}

/-- A task has gone on, or is over. -/
theorem erase (h : f.Good) (k : Nat) : { f with openings := f.openings.eraseIdx k }.Good where
  told := fun t ht => h.told t (List.mem_of_mem_eraseIdx ht)
  ids := fun play us source ht => h.ids play us source (List.mem_of_mem_eraseIdx ht)
  pending := h.pending
  answered := h.answered

/-- A task goes on, or is started. -/
theorem push (h : f.Good) {t : Opening} (ht : Told t.play t.resumeUs)
    (hids : ∀ play us source, t = .probing play us source → source.ids.itemId = play.id) :
    { f with openings := f.openings ++ [t] }.Good where
  told := fun t' ht' => by
    rcases List.mem_append.1 ht' with ht' | ht'
    · exact h.told t' ht'
    · rw [List.mem_singleton.1 ht']
      exact ht
  ids := fun play us source ht' => by
    rcases List.mem_append.1 ht' with ht' | ht'
    · exact h.ids play us source ht'
    · exact hids play us source (List.mem_singleton.1 ht').symm
  pending := h.pending
  answered := h.answered

/-- A stream has been found. -/
theorem found (h : f.Good) {p : PendingOpen} {us : Int} (ht : Told p.play us)
    (hids : p.ids.itemId = p.play.id) :
    { f with pendingOpen := some p, pendingSeekUs := us }.Good where
  told := h.told
  ids := h.ids
  pending := fun q hq => by
    cases hq
    exact ⟨ht, hids⟩
  answered := h.answered

/-- Nothing waits to be opened. -/
theorem taken (h : f.Good) : { f with pendingOpen := none }.Good where
  told := h.told
  ids := h.ids
  pending := fun p hp => by cases hp
  answered := h.answered

/-- The position of a title has been answered. -/
theorem answer (h : f.Good) (id : ItemId) (us : Int) :
    { f with detailResumeUs := us, positions := (id, us) :: f.positions, resumeOf := some id }.Good
    where
  told := h.told
  ids := h.ids
  pending := h.pending
  answered := fun id' hid => by
    cases hid
    exact List.lookup_cons_self

/-- Another title is shown, and its position has not been answered. -/
theorem forget (h : f.Good) : { f with detailResumeUs := 0, resumeOf := none }.Good where
  told := h.told
  ids := h.ids
  pending := h.pending
  answered := fun id hid => by cases hid

end Finding.Good

theorem finding_report (kind : ReportKind) (us : Int) (paused : Bool) :
    (report s kind us paused).finding = s.finding := by
  unfold report
  split <;> rfl

theorem finding_stopPlayback : (stopPlayback s).finding = s.finding :=
  finding_report (s := s) .stop _ false

theorem finding_loadTab (tab : Int) : (loadTab s tab).finding = s.finding := by
  unfold loadTab
  split <;> rfl

theorem finding_drill (into : Kind) (title : String) :
    (drill s into title).finding = s.finding := by
  unfold drill
  split
  · split <;> rfl
  · rfl

theorem finding_loaded (listing : Listing) (r : Except String (List Media)) :
    (loaded s listing r).finding = s.finding := by
  have hquery : (itemsQuery s listing r).1.finding = s.finding := by
    unfold itemsQuery
    split
    · split
      · rfl
      · dsimp only
        split <;> rfl
    · rfl
  exact hquery

theorem finding_goBack : (goBack s).finding = s.finding := by
  unfold goBack
  split
  · rfl
  · rfl
  · split <;> rfl

theorem finding_cmdBack : (cmdBack s).finding = s.finding := by
  unfold cmdBack
  split
  · exact finding_stopPlayback
  · exact finding_goBack

theorem finding_onRenderFrame (nanos : Nat) (p : Pumped) :
    (onRenderFrame s nanos p).finding = s.finding := by
  unfold onRenderFrame pumpStream
  dsimp only
  split
  · split <;> rfl
  · split <;> rfl

theorem finding_resumeStream : (resumeStream s).finding = s.finding := by
  unfold resumeStream
  split <;> rfl

theorem finding_openPending (h : s.finding.Good) (opens : Except String Unit) :
    (openPending s opens).finding.Good := by
  unfold openPending
  split
  · exact h
  · dsimp only
    split
    · rw [finding_report]
      have hresume := finding_resumeStream
        (s := { s with pendingOpen := none, phase := .playing, lastReportUs := 0 })
      exact (congrArg Finding.Good hresume).mpr h.taken
    · rw [finding_stopPlayback]
      exact h.taken

theorem finding_drive (landed : Option Int) : (drive s landed).finding = s.finding := by
  unfold drive
  dsimp only
  split
  · split
    · exact finding_stopPlayback
    · unfold reportProgress
      dsimp only
      split
      · exact finding_report _ _ _
      · rfl
  · rfl

theorem finding_driver (r : Except String Connected) : (driver s r).finding = s.finding := by
  unfold driver
  split
  · dsimp only
    split
    · rfl
    · exact finding_loadTab 0
  · rfl

theorem finding_loadDetail (id : ItemId) : (loadDetail s id).finding = s.finding := by
  unfold loadDetail
  split <;> rfl

theorem finding_itemInfo (id : ItemId) (r : Option ItemInfo) :
    (itemInfo s id r).finding = s.finding := by
  unfold itemInfo
  dsimp only
  split <;> rfl

theorem finding_userData (h : s.finding.Good) (id : ItemId) (r : Option (Option Int)) :
    (userData s id r).finding.Good := by
  unfold userData
  split
  · exact h
  · exact h.answer id _

theorem finding_cellTap (h : s.finding.Good) (id : ItemId) : (cellTap s id).finding.Good := by
  unfold cellTap
  split
  · exact h
  · split
    · exact h
    · exact h
    · exact h.forget
    · exact h.forget

theorem finding_playDetail (h : s.finding.Good) {resume : Bool}
    (hin : InTime s (.play resume)) : (playDetail s resume).finding.Good := by
  unfold playDetail
  split
  · exact h
  · next d hd =>
    refine h.push (t := .spawned _ _) ?_ (fun play us source ht => by cases ht)
    cases resume with
    | false => exact ⟨rfl, .inl rfl⟩
    | true =>
      -- The position that is shown is that of the title in detail.
      obtain ⟨hof, hlate⟩ := hin rfl d hd
      refine ⟨?_, .inr hlate⟩
      have hlookup : s.positions.lookup d.id = some s.detailResumeUs := h.answered d.id hof
      change s.detailResumeUs = (s.positions.lookup d.id).getD 0
      rw [hlookup]
      rfl

section Tasks

variable {k : Nat} {play : Play} {us : Int}

theorem finding_openMedia (h : s.finding.Good)
    (hk : s.openings[k]? = some (.spawned play us)) :
    (openMedia { s with openings := s.openings.eraseIdx k } play us).finding.Good := by
  have ht := h.told _ (List.mem_of_getElem? hk)
  unfold openMedia
  split
  · exact (h.erase k).push (t := .resolving play us) ht (fun play us source he => by cases he)
  · exact h.erase k

theorem finding_playbackInfo (h : s.finding.Good)
    (hk : s.openings[k]? = some (.resolving play us)) (r : Except String PlaybackInfo)
    (http : Bool) :
    (playbackInfo { s with openings := s.openings.eraseIdx k } play us r http).finding.Good := by
  have ht := h.told _ (List.mem_of_getElem? hk)
  unfold playbackInfo
  split
  · exact h.erase k
  · dsimp only
    split
    · exact h.erase k
    · split
      · split
        · exact (h.erase k).push (t := .probing play us _) ht
            (fun play us source he => by cases he; rfl)
        · exact h.erase k
      · exact h.erase k

theorem finding_probed (h : s.finding.Good) {source : Source}
    (hk : s.openings[k]? = some (.probing play us source)) (r : Except String Probe) :
    (probed { s with openings := s.openings.eraseIdx k } play us source r).finding.Good := by
  have hmem := List.mem_of_getElem? hk
  have ht := h.told _ hmem
  have hids := h.ids _ _ _ hmem
  unfold probed
  split
  · exact h.erase k
  · exact (h.erase k).found ht hids

end Tasks

theorem finding_step (h : s.finding.Good) (i : Input) (hin : InTime s i) :
    (step s i).finding.Good := by
  cases i with
  | cellTap id => exact finding_cellTap h id
  | setTab t => exact h
  | back => exact (congrArg Finding.Good finding_cmdBack).mpr h
  | play resume => exact finding_playDetail h hin
  | playerTap => exact h
  | toggle => exact h
  | seek target => exact h
  | frame nanos p => exact (congrArg Finding.Good (finding_onRenderFrame nanos p)).mpr h
  | tick e =>
    have hspawn : (spawnDriver s).finding = s.finding := by
      unfold spawnDriver
      split <;> rfl
    exact (congrArg Finding.Good (finding_drive e.landed)).mpr
      (finding_openPending (hspawn.symm ▸ h) e.opens)
  | pair code =>
    unfold step pair
    dsimp only
    split <;> exact h
  | driver r => exact (congrArg Finding.Good (finding_driver r)).mpr h
  | screenBegun k =>
    unfold step
    dsimp only
    split
    · rw [finding_loadTab]
      exact h
    · rw [finding_drill]
      exact h
    · exact h
  | loaded k r =>
    unfold step
    dsimp only
    split
    · rw [finding_loaded]
      exact h
    · exact h
  | detailBegun k =>
    unfold step
    dsimp only
    split
    · rw [finding_loadDetail]
      exact h
    · exact h
  | itemInfo k r =>
    unfold step
    dsimp only
    split
    · rw [finding_itemInfo]
      exact h
    · exact h
  | userData k r =>
    unfold step
    dsimp only
    split
    · exact finding_userData (s := { s with details := s.details.eraseIdx k }) h _ r
    · exact h
  | openBegun k =>
    unfold step
    dsimp only
    split
    · next hk => exact finding_openMedia h hk
    · exact h
  | playbackInfo k r http =>
    unfold step
    dsimp only
    split
    · next hk => exact finding_playbackInfo h hk r http
    · exact h
  | probed k r =>
    unfold step
    dsimp only
    split
    · next hk => exact finding_probed h hk r
    · exact h

/-! ### Which stream is opened -/

/-- Where a stream is open now, the same one was open before. -/
def SameStream (s t : State) : Prop :=
  ∀ o, t.stream = some o → ∃ q, s.stream = some q ∧ q.source = o.source ∧ q.startUs = o.startUs

theorem SameStream.of_eq {t : State} (h : t.stream = s.stream) : SameStream s t :=
  fun o ho => ⟨o, h.symm.trans ho, rfl, rfl⟩

theorem SameStream.of_map {t : State} {f : Stream → Stream} (h : t.stream = s.stream.map f)
    (hf : ∀ q, (f q).source = q.source ∧ (f q).startUs = q.startUs) : SameStream s t := by
  intro o ho
  rw [h] at ho
  obtain ⟨q, hq, rfl⟩ := Option.map_eq_some_iff.1 ho
  exact ⟨q, hq, (hf q).1.symm, (hf q).2.symm⟩

theorem SameStream.trans {t u : State} (h : SameStream s t) (h' : SameStream t u) :
    SameStream s u := by
  intro o ho
  obtain ⟨q, hq, hs, hu⟩ := h' o ho
  obtain ⟨r, hr, hs', hu'⟩ := h q hq
  exact ⟨r, hr, hs'.trans hs, hu'.trans hu⟩

theorem SameStream.closed {t : State} (h : t.stream = none) : SameStream s t :=
  fun o ho => by cases h.symm.trans ho

theorem stream_stopPlayback (s : State) : (stopPlayback s).stream = none :=
  congrArg Display.stream (display_stopPlayback (s := s))

theorem sameStream_drive (landed : Option Int) : SameStream s (drive s landed) := by
  have hseek : SameStream s (takeSeek s landed) := by
    unfold takeSeek
    split
    · refine .of_map rfl fun q => ?_
      cases landed with
      | none => exact ⟨rfl, rfl⟩
      | some us => exact ⟨rfl, rfl⟩
    · exact .of_eq rfl
  unfold drive
  dsimp only
  split
  · split
    · exact .closed (stream_stopPlayback _)
    · exact hseek.trans (.of_eq (congrArg Display.stream display_reportProgress))
  · exact .of_eq rfl

theorem stream_loadTab (tab : Int) : (loadTab s tab).stream = s.stream := by
  unfold loadTab
  split <;> rfl

/-- No stream is opened but by a tick. -/
theorem sameStream_step (i : Input) (hi : ∀ e, i ≠ .tick e) : SameStream s (step s i) := by
  cases i with
  | tick e => exact absurd rfl (hi e)
  | cellTap id =>
    unfold step cellTap
    dsimp only
    split
    · exact .of_eq rfl
    · split <;> exact .of_eq rfl
  | back =>
    unfold step cmdBack
    dsimp only
    split
    · exact .closed (stream_stopPlayback s)
    · unfold goBack
      split
      · exact .of_eq rfl
      · exact .of_eq rfl
      · split <;> exact .of_eq rfl
  | play resume =>
    unfold step playDetail
    dsimp only
    split <;> exact .of_eq rfl
  | frame nanos p =>
    unfold step onRenderFrame pumpStream
    dsimp only
    split
    · split
      · exact .of_map rfl fun _ => ⟨rfl, rfl⟩
      · exact .of_map rfl fun _ => ⟨rfl, rfl⟩
    · split <;> exact .of_eq rfl
  | pair code =>
    unfold step pair
    dsimp only
    split <;> exact .of_eq rfl
  | driver r =>
    unfold step driver
    dsimp only
    split
    · split
      · exact .of_eq rfl
      · exact .of_eq (stream_loadTab 0)
    · exact .of_eq rfl
  | screenBegun k =>
    unfold step
    dsimp only
    split
    · exact .of_eq (stream_loadTab _)
    · unfold drill
      split
      · split <;> exact .of_eq rfl
      · exact .of_eq rfl
    · exact .of_eq rfl
  | loaded k r =>
    unfold step
    dsimp only
    split
    · exact .of_eq (congrArg Display.stream (display_itemsQuery _ r))
    · exact .of_eq rfl
  | detailBegun k =>
    unfold step
    dsimp only
    split
    · exact .of_eq (congrArg Display.stream (display_loadDetail _))
    · exact .of_eq rfl
  | itemInfo k r =>
    unfold step
    dsimp only
    split
    · exact .of_eq (congrArg Display.stream (display_itemInfo _ r))
    · exact .of_eq rfl
  | userData k r =>
    unfold step
    dsimp only
    split
    · exact .of_eq (congrArg Display.stream (display_userData _ r))
    · exact .of_eq rfl
  | openBegun k =>
    unfold step openMedia
    dsimp only
    split
    · split <;> exact .of_eq rfl
    · exact .of_eq rfl
  | playbackInfo k r http =>
    unfold step playbackInfo
    dsimp only
    split
    · split
      · exact .of_eq rfl
      · split
        · exact .of_eq rfl
        · split
          · split <;> exact .of_eq rfl
          · exact .of_eq rfl
    · exact .of_eq rfl
  | probed k r =>
    unfold step probed
    dsimp only
    split
    · split <;> exact .of_eq rfl
    · exact .of_eq rfl
  | _ => exact .of_eq rfl

/-- The stream of a play starts where it was to. -/
def ForPlay (play : Play) (o : Stream) : Prop :=
  o.source.play = play ∧ o.source.ids.itemId = play.id ∧ o.startUs = play.startUs

/-- What is opened is what was found, and its first seek is the one that was told. -/
theorem opened_openPending (h : s.finding.Good) {p : PendingOpen} (hp : s.pendingOpen = some p)
    (hseek : s.seekRequest = none ∨ resumeAfter < s.pendingSeekUs) :
    ∃ o, (openPending s (.ok ())).stream = some o ∧ ForPlay p.play o := by
  obtain ⟨⟨htold, hlate⟩, hids⟩ := h.pending p hp
  replace htold : s.pendingSeekUs = p.play.startUs := htold
  replace hlate : s.pendingSeekUs = 0 ∨ resumeAfter < s.pendingSeekUs := hlate
  unfold openPending
  rw [hp]
  dsimp only
  refine ⟨_, congrArg Display.stream display_report, rfl, hids, ?_⟩
  unfold resumeStream
  dsimp only
  rw [← htold]
  split
  · rfl
  · next hearly =>
    have hzero : s.pendingSeekUs = 0 := hlate.resolve_right hearly
    have hnone : s.seekRequest = none := hseek.resolve_right hearly
    rw [hzero]
    exact congrArg (Option.getD · 0) hnone

/-- A play that fails leaves what it found. -/
theorem quiet_openFails {i : Input} (hin : InTime s i) (hf : OpenFails s i) :
    (step s i).display.Quiet := by
  cases i with
  | openBegun k =>
    have hq := hin hf
    obtain ⟨play, us, hk, -, hno⟩ := hf
    unfold step
    dsimp only
    rw [hk]
    dsimp only
    unfold openMedia
    rw [if_neg hno]
    exact ⟨hq.1, hq.2, hq.3, hq.4⟩
  | playbackInfo k r http =>
    have hq := hin hf
    obtain ⟨play, us, hk, -, hno⟩ := hf
    unfold step
    dsimp only
    rw [hk]
    dsimp only
    unfold playbackInfo
    split
    · exact ⟨hq.1, hq.2, hq.3, hq.4⟩
    · next pb =>
      dsimp only
      split
      · exact ⟨hq.1, hq.2, hq.3, hq.4⟩
      · next ms rest hms =>
        split
        · next hdirect =>
          rw [if_neg fun hhttp => hno ⟨hhttp, pb, ms, rest, rfl, hms, hdirect⟩]
          exact ⟨hq.1, hq.2, hq.3, hq.4⟩
        · exact ⟨hq.1, hq.2, hq.3, hq.4⟩
  | probed k r =>
    have hq := hin.1 hf
    obtain ⟨play, us, source, hk, -, e, rfl⟩ := hf
    unfold step
    dsimp only
    rw [hk]
    exact ⟨hq.1, hq.2, hq.3, hq.4⟩
  | tick e =>
    obtain ⟨hsome, msg, hmsg⟩ := hf
    obtain ⟨p, hp⟩ := Option.isSome_iff_exists.1 hsome
    have hspawn : (spawnDriver s).pendingOpen = some p :=
      (congrArg Display.pendingOpen display_spawnDriver).trans hp
    unfold step engineTick openPending
    dsimp only
    rw [hspawn, hmsg]
    dsimp only
    -- What could not be opened is over, and is not driven.
    generalize hstop : note { spawnDriver s with pendingOpen := none } ("open failed — " ++ msg) = t
    have hphase : (stopPlayback t).phase = .browse :=
      congrArg Display.phase (display_stopPlayback (s := t))
    unfold drive
    rw [if_neg (by rw [hphase]; decide)]
    exact quiet_stopPlayback (by rw [← hstop]; rfl)
  | _ => exact absurd hf id

/-- In a run in which nothing comes late, the player is shown while a stream is played, and
nothing is played, or about to be, while it is not. Then a play that fails leaves nothing, and
what is opened is the stream of the last play, from where it was to start. -/
theorem player_stream (hrun : Run step InTime {} s) :
    (s.phase = .playing → s.view = .player ∧ s.stream.isSome) ∧
    (s.view ≠ .player → s.display.Quiet) ∧
    ∀ i, InTime s i → (OpenFails s i → (step s i).display.Quiet) ∧
      ∀ o, (step s i).stream = some o →
        (∃ q, s.stream = some q ∧ q.source = o.source ∧ q.startUs = o.startUs) ∨
          ∃ play, s.wanted = some play ∧ ForPlay play o := by
  have hgood : s.display.Good ∧ s.finding.Good := by
    refine hrun.invariant (J := fun s => s.display.Good ∧ s.finding.Good)
      ⟨⟨?_, ?_⟩, ⟨?_, ?_, ?_, ?_⟩⟩ fun i h hi => ⟨good_step h.1 i hi, finding_step h.2 i hi⟩
    · exact fun hp => by cases hp
    · exact fun _ => ⟨rfl, rfl, rfl, rfl⟩
    · exact fun t ht => absurd ht List.not_mem_nil
    · exact fun _ _ _ ht => absurd ht List.not_mem_nil
    · exact fun p hp => by cases hp
    · exact fun id hid => by cases hid
  refine ⟨hgood.1.playing, hgood.1.quiet, fun i hi => ⟨quiet_openFails hi, fun o ho => ?_⟩⟩
  rcases Classical.em (∃ e, i = .tick e) with ⟨e, rfl⟩ | hne
  · -- What the tick drives is what was open already, or what it has opened.
    have hspawn := display_spawnDriver (s := s)
    have hfound : (spawnDriver s).finding.Good := by
      unfold spawnDriver
      split <;> exact hgood.2
    have hdrive := sameStream_drive (s := openPending (spawnDriver s) e.opens) e.landed o ho
    obtain ⟨q, hq, hsource, hstart⟩ := hdrive
    cases hp : s.pendingOpen with
    | none =>
      have hnone : (spawnDriver s).pendingOpen = none :=
        (congrArg Display.pendingOpen hspawn).trans hp
      unfold openPending at hq
      rw [hnone] at hq
      exact .inl ⟨q, (congrArg Display.stream hspawn).symm.trans hq, hsource, hstart⟩
    | some p =>
      have hsome : (spawnDriver s).pendingOpen = some p :=
        (congrArg Display.pendingOpen hspawn).trans hp
      cases hopens : e.opens with
      | error msg =>
        rw [hopens] at hq
        unfold openPending at hq
        rw [hsome] at hq
        cases (stream_stopPlayback _).symm.trans hq
      | ok u =>
        obtain ⟨hwanted, hseek⟩ := hi p hp hopens
        have hseek' : (spawnDriver s).seekRequest = none ∨
            resumeAfter < (spawnDriver s).pendingSeekUs := by
          unfold spawnDriver
          split <;> exact hseek
        obtain ⟨o', ho', hplay, hids, hus⟩ := opened_openPending hfound hsome hseek'
        rw [hopens] at hq
        cases ho'.symm.trans hq
        refine .inr ⟨p.play, hwanted, ?_, ?_, hstart.symm.trans hus⟩
        · rw [← hsource]
          exact hplay
        · rw [← hsource]
          exact hids
  · exact .inl (sameStream_step i (fun e he => hne ⟨e, he⟩) o ho)

/-! ## A film -/

def film : Media where
  id := ⟨"film"⟩
  name := "film"
  sub := ""
  kind := .movie

/-- What the server says of the film: one source, played as it is. -/
def filmInfo : PlaybackInfo where
  mediaSources := [⟨some "source", some true, none, some 72000000000, some "mkv"⟩]
  playSessionId := some "session"

def plainTick : Input := .tick { opens := .ok (), landed := some 600000000 }

/-- The client is connected, the film is shown, and it is resumed. -/
def resumed : List Input :=
  [plainTick, .driver (.ok ⟨true, "token", "server"⟩), .loaded 0 (.ok [film]), .cellTap ⟨"film"⟩,
    .detailBegun 0, .itemInfo 0 none, .userData 0 (some (some 6000000000)), .play true,
    .openBegun 0, .playbackInfo 0 (.ok filmInfo) true, .probed 0 (.ok ⟨[], 1000⟩)]

theorem player_stream_resumed : ((resumed ++ [plainTick]).foldl step {}).view = .player ∧
    ((resumed ++ [plainTick]).foldl step {}).stream.isSome := by
  have hrun : Run step InTime ({} : State) ((resumed ++ [plainTick]).foldl step {}) := by
    refine run_of_goes ⟨?_, trivial, ?_, ?_, trivial, trivial, trivial, ?_, ?_, ?_, ?_, ?_, trivial⟩
    · exact fun p hp => by cases hp
    · exact fun listing _ => by decide
    · exact fun m _ _ => by decide
    · intro _ d hd
      cases hd
      exact ⟨by decide, by decide⟩
    · exact fun ⟨play, us, hk, hw, hno⟩ => absurd ⟨by decide, by decide⟩ hno
    · exact fun ⟨play, us, hk, hw, hno⟩ =>
        absurd ⟨rfl, filmInfo, _, _, rfl, rfl, by decide⟩ hno
    · exact ⟨fun ⟨play, us, source, hk, hw, e, he⟩ => (by cases he),
        fun play us source p _ _ => (by decide)⟩
    · intro p hp _
      cases hp
      exact ⟨by decide, .inl (by decide)⟩
  exact (player_stream hrun).1 (by decide)

/-- The user goes back before the stream is opened: it is played with no player shown. -/
theorem cancelled_played : ¬ ∀ s : State, Run step (fun _ _ => True) {} s →
    s.phase = .playing → s.view = .player ∧ s.stream.isSome := by
  intro h
  have hrun : Run step (fun _ _ => True) ({} : State)
      ((resumed ++ [.back, plainTick]).foldl step {}) :=
    run_of_goes ⟨trivial, trivial, trivial, trivial, trivial, trivial, trivial, trivial, trivial,
      trivial, trivial, trivial, trivial, trivial⟩
  have hview := (h _ hrun (by decide)).1
  revert hview
  decide

end Wandr.Jellyfin
