import Mathlib.Data.List.Perm.Basic
import Wandr.Lib.Machine
import Wandr.Navidrome.Client

/-!
# What is played

A request for a song closes the open stream, and a task opens the new one. The task does not say
which request it was started for, and a later request does not stop it: when it reports late, it
takes the place of the song that was asked for last, or stops it.

* `InTime`: no task that fails, and no stream that is opened, is of an older request;
* `playing_shown`: then what is played is the song of the queue that is shown.
-/

namespace Wandr.Navidrome

open Machine

variable {s t : State}

/-! ## The last request -/

/-- What a request for a song and its task change. -/
structure Playback where
  queue : List Child
  qidx : Nat
  pendingPlay : Option Nat
  pendingOpen : Option Stream
  play : Play
  stream : Option Stream
  openings : List Opening
  played : Nat

def State.playback (s : State) : Playback where
  queue := s.queue
  qidx := s.qidx
  pendingPlay := s.pendingPlay
  pendingOpen := s.pendingOpen
  play := s.play
  stream := s.stream
  openings := s.openings
  played := s.played

/-- The request is the last one. -/
def Last (s : State) (number : Nat) : Prop := number = s.played ∧ s.pendingPlay = none

namespace Playback

variable (p : Playback)

/-- The song that was asked for last is being opened, or is found. -/
structure Current : Prop where
  pending : ∀ i, p.pendingPlay = some i → i = p.qidx
  spawned : p.pendingPlay = none → ∀ i, .spawned p.played i ∈ p.openings → i = p.qidx
  probing : p.pendingPlay = none → ∀ song url, .probing p.played song url ∈ p.openings →
    p.queue[p.qidx]? = some song
  found : p.pendingPlay = none → ∀ o, p.pendingOpen = some o → o.number = p.played →
    p.queue[p.qidx]? = some o.song

/-- Each request has one task, which finds no more than one stream. -/
structure Numbered : Prop where
  nodup : (p.openings.map Opening.number).Nodup
  le : ∀ t ∈ p.openings, t.number ≤ p.played
  found_le : ∀ o, p.pendingOpen = some o → o.number ≤ p.played
  found : ∀ o, p.pendingOpen = some o → ∀ t ∈ p.openings, t.number ≠ o.number

/-- The open stream is that of the last request, and is played. -/
structure Shown : Prop where
  playing : ∀ o, p.stream = some o → p.play = .playing
  song : ∀ o, p.stream = some o → p.pendingPlay = none → p.queue[p.qidx]? = some o.song
  opened : ∀ o, p.stream = some o → ∀ t ∈ p.openings, t.number ≠ p.played
  found : ∀ o, p.stream = some o → ∀ f, p.pendingOpen = some f → f.number ≠ p.played

structure Good : Prop where
  current : Current p
  numbered : Numbered p
  shown : Shown p

namespace Good

variable {p}

/-- Another song is asked for. -/
theorem request (h : Good p) (queue : List Child) (i : Nat) :
    Good { p with queue, qidx := i, pendingPlay := some i } where
  current := {
    pending := fun j hj => (Option.some.inj hj).symm
    spawned := fun hn => by cases hn
    probing := fun hn => by cases hn
    found := fun hn => by cases hn }
  numbered := ⟨h.numbered.nodup, h.numbered.le, h.numbered.found_le, h.numbered.found⟩
  shown := ⟨h.shown.playing, fun o ho hn => (by cases hn), h.shown.opened, h.shown.found⟩

/-- The stream is closed. -/
theorem close (h : Good p) (play : Play) : Good { p with stream := none, play } where
  current := ⟨h.current.pending, h.current.spawned, h.current.probing, h.current.found⟩
  numbered := ⟨h.numbered.nodup, h.numbered.le, h.numbered.found_le, h.numbered.found⟩
  shown := ⟨fun o ho => (by cases ho), fun o ho => (by cases ho), fun o ho => (by cases ho),
    fun o ho => (by cases ho)⟩

/-- A task is started for what was asked for. -/
theorem spawn (h : Good p) {i : Nat} (hi : p.pendingPlay = some i) :
    Good { p with
      pendingPlay := none
      stream := none
      play := .opening
      openings := p.openings ++ [.spawned (p.played + 1) i]
      played := p.played + 1 } := by
  have hlt : ∀ t ∈ p.openings, t.number ≠ p.played + 1 := fun t ht =>
    Nat.ne_of_lt (Nat.lt_succ_of_le (h.numbered.le t ht))
  refine ⟨⟨fun j hj => (by cases hj), fun _ j hj => ?_, fun _ song url hj => ?_,
    fun _ o ho hn => ?_⟩, ⟨?_, fun t ht => ?_, fun o ho => ?_, fun o ho t ht => ?_⟩,
    fun o ho => (by cases ho), fun o ho => (by cases ho), fun o ho => (by cases ho),
    fun o ho => (by cases ho)⟩
  · rcases List.mem_append.1 hj with hj | hj
    · exact absurd rfl (hlt _ hj)
    · cases List.mem_singleton.1 hj
      exact h.current.pending i hi
  · rcases List.mem_append.1 hj with hj | hj
    · exact absurd rfl (hlt _ hj)
    · cases List.mem_singleton.1 hj
  · have hle := h.numbered.found_le o ho
    dsimp only at hn
    omega
  · rw [List.map_append]
    refine List.nodup_append.2 ⟨h.numbered.nodup, List.pairwise_singleton _ _, fun n hn m hm => ?_⟩
    obtain ⟨t, ht, rfl⟩ := List.mem_map.1 hn
    rw [List.mem_singleton.1 hm]
    exact hlt t ht
  · rcases List.mem_append.1 ht with ht | ht
    · exact Nat.le_succ_of_le (h.numbered.le t ht)
    · rw [List.mem_singleton.1 ht]
      exact Nat.le_refl _
  · exact Nat.le_succ_of_le (h.numbered.found_le o ho)
  · rcases List.mem_append.1 ht with ht | ht
    · exact h.numbered.found o ho t ht
    · rw [List.mem_singleton.1 ht]
      exact Nat.ne_of_gt (Nat.lt_succ_of_le (h.numbered.found_le o ho))

/-- A stream that has been found for the last request is opened, or cannot be. -/
theorem openPending (h : Good p) {o : Stream} (ho : p.pendingOpen = some o)
    (hl : o.number = p.played) (hn : p.pendingPlay = none) :
    Good { p with pendingOpen := none, stream := some o, play := .playing } ∧
      Good { p with pendingOpen := none, play := .idle } := by
  have hclosed : p.stream = none := by
    cases hs : p.stream with
    | none => rfl
    | some q => exact absurd hl (h.shown.found q hs o ho)
  have hc : Current { p with pendingOpen := none } :=
    ⟨h.current.pending, h.current.spawned, h.current.probing, fun _ f hf => by cases hf⟩
  have hm : Numbered { p with pendingOpen := none } :=
    ⟨h.numbered.nodup, h.numbered.le, fun f hf => (by cases hf), fun f hf => (by cases hf)⟩
  refine ⟨⟨⟨hc.pending, hc.spawned, hc.probing, hc.found⟩,
    ⟨hm.nodup, hm.le, hm.found_le, hm.found⟩, ⟨fun _ _ => rfl, fun q hq _ => ?_,
      fun q _ t ht => ?_, fun q _ f hf => (by cases hf)⟩⟩,
    ⟨⟨hc.pending, hc.spawned, hc.probing, hc.found⟩,
    ⟨hm.nodup, hm.le, hm.found_le, hm.found⟩, ?_⟩⟩
  · cases hq
    exact h.current.found hn o ho hl
  · rw [← hl]
    exact h.numbered.found o ho t ht
  · have hnone : ∀ q, p.stream = some q → False := fun q hq => by cases hclosed.symm.trans hq
    exact ⟨fun q hq => (hnone q hq).elim, fun q hq => (hnone q hq).elim,
      fun q hq => (hnone q hq).elim, fun q hq => (hnone q hq).elim⟩

variable {k n : Nat} {t : Opening}

/-- The task that has reported is no longer there. -/
theorem erase (h : Good p) (ht : p.openings[k]? = some t) :
    Good { p with openings := p.openings.eraseIdx k } ∧
      ∀ t' ∈ p.openings.eraseIdx k, t'.number ≠ t.number := by
  have hsub : ∀ t' ∈ p.openings.eraseIdx k, t' ∈ p.openings := fun t' => List.mem_of_mem_eraseIdx
  obtain ⟨hk, hat⟩ := List.getElem?_eq_some_iff.1 ht
  have hperm := (List.getElem_cons_eraseIdx_perm hk).map Opening.number
  rw [hat, List.map_cons] at hperm
  have hnodup := List.nodup_cons.1 (hperm.nodup_iff.2 h.numbered.nodup)
  refine ⟨⟨⟨h.current.pending, fun hn i hi => h.current.spawned hn i (hsub _ hi),
      fun hn song url hm => h.current.probing hn song url (hsub _ hm), h.current.found⟩,
    ⟨hnodup.2, fun t' ht' => h.numbered.le t' (hsub t' ht'), h.numbered.found_le,
      fun o ho t' ht' => h.numbered.found o ho t' (hsub t' ht')⟩,
    ⟨h.shown.playing, h.shown.song, fun o ho t' ht' => h.shown.opened o ho t' (hsub t' ht'),
      h.shown.found⟩⟩, fun t' ht' he => ?_⟩
  exact hnodup.1 (List.mem_map.2 ⟨t', ht', he⟩)

/-- A task fails that is of the last request, or nothing is played. -/
theorem fails (h : Good p) (ht : p.openings[k]? = some t)
    (hl : t.number = p.played ∨ p.play = .idle) :
    Good { p with openings := p.openings.eraseIdx k, play := .idle } := by
  have hclosed : p.stream = none := by
    cases hs : p.stream with
    | none => rfl
    | some o =>
      rcases hl with hl | hl
      · exact absurd hl (h.shown.opened o hs t (List.mem_of_getElem? ht))
      · cases hl.symm.trans (h.shown.playing o hs)
  have hnone : ∀ o, p.stream = some o → False := fun o ho => by cases hclosed.symm.trans ho
  obtain ⟨he, -⟩ := h.erase ht
  exact ⟨⟨he.current.pending, he.current.spawned, he.current.probing, he.current.found⟩,
    ⟨he.numbered.nodup, he.numbered.le, he.numbered.found_le, he.numbered.found⟩,
    ⟨fun o ho => (hnone o ho).elim, fun o ho => (hnone o ho).elim, fun o ho => (hnone o ho).elim,
      fun o ho => (hnone o ho).elim⟩⟩

/-- A task has read which song it opens. -/
theorem begins (h : Good p) {idx : Nat} {song : Child} {url : String}
    (ht : p.openings[k]? = some (.spawned n idx)) (hs : p.queue[idx]? = some song) :
    Good { p with openings := p.openings.eraseIdx k ++ [.probing n song url] } := by
  have hmem : .spawned n idx ∈ p.openings := List.mem_of_getElem? ht
  obtain ⟨he, hne⟩ := h.erase ht
  refine ⟨⟨he.current.pending, fun hn i hi => ?_, fun hn song' url' hm => ?_, he.current.found⟩,
    ⟨?_, fun t ht => ?_, he.numbered.found_le, fun o ho t ht => ?_⟩,
    ⟨he.shown.playing, he.shown.song, fun o ho t ht => ?_, he.shown.found⟩⟩
  · rcases List.mem_append.1 hi with hi | hi
    · exact he.current.spawned hn i hi
    · cases List.mem_singleton.1 hi
  · rcases List.mem_append.1 hm with hm | hm
    · exact he.current.probing hn song' url' hm
    · -- The task is of the last request: the song it has read is the one that is shown.
      have hlast := List.mem_singleton.1 hm
      simp only [Opening.probing.injEq] at hlast
      obtain ⟨hl, rfl, -⟩ := hlast
      rw [← hl] at hmem
      rw [← h.current.spawned hn idx hmem]
      exact hs
  · rw [List.map_append]
    refine List.nodup_append.2 ⟨he.numbered.nodup, List.pairwise_singleton _ _,
      fun m hm m' hm' => ?_⟩
    obtain ⟨t, ht, rfl⟩ := List.mem_map.1 hm
    rw [List.mem_singleton.1 hm']
    exact hne t ht
  · rcases List.mem_append.1 ht with ht | ht
    · exact he.numbered.le t ht
    · rw [List.mem_singleton.1 ht]
      exact h.numbered.le (.spawned n idx) hmem
  · rcases List.mem_append.1 ht with ht | ht
    · exact he.numbered.found o ho t ht
    · rw [List.mem_singleton.1 ht]
      exact h.numbered.found o ho (.spawned n idx) hmem
  · rcases List.mem_append.1 ht with ht | ht
    · exact he.shown.opened o ho t ht
    · rw [List.mem_singleton.1 ht]
      exact h.shown.opened o ho (.spawned n idx) hmem

/-- A task has found a stream. -/
theorem finds (h : Good p) {song : Child} {url : String}
    (ht : p.openings[k]? = some (.probing n song url)) {o : Stream} (hs : o.song = song)
    (hn : o.number = n) :
    Good { p with openings := p.openings.eraseIdx k, pendingOpen := some o } := by
  have hmem : .probing n song url ∈ p.openings := List.mem_of_getElem? ht
  obtain ⟨he, hne⟩ := h.erase ht
  refine ⟨⟨he.current.pending, he.current.spawned, he.current.probing, fun hp f hf hl => ?_⟩,
    ⟨he.numbered.nodup, he.numbered.le, fun f hf => ?_, fun f hf t ht => ?_⟩,
    ⟨he.shown.playing, he.shown.song, he.shown.opened, fun q hq f hf => ?_⟩⟩
  · cases hf
    rw [hs]
    rw [hn] at hl
    exact h.current.probing hp song url (hl ▸ hmem)
  · cases hf
    rw [hn]
    exact h.numbered.le _ hmem
  · cases hf
    rw [hn]
    exact hne t ht
  · cases hf
    rw [hn]
    exact h.shown.opened q hq _ hmem

end Good

end Playback

/-! ## Runs -/

/-- No task of an older request fails, unless nothing is played, and no stream is opened that was
found for one. -/
def InTime (s : State) : Input → Prop
  | .tick _ => ∀ p, s.pendingOpen = some p → Last s p.number
  | .begun k url http => ∀ number idx, s.openings[k]? = some (.spawned number idx) →
    Last s number ∨ s.play = .idle ∨
      idx < s.queue.length ∧ s.client = true ∧ (∃ u, url = .ok u) ∧ http = true
  | .probed k r => ∀ number song url, s.openings[k]? = some (.probing number song url) →
    Last s number ∨ s.play = .idle ∨ ∃ n, r = .ok (n + 1)
  | _ => True

/-- A task of an older request reports. -/
def Older (s : State) : Input → Prop
  | .begun k _ _ => ∃ number idx, s.openings[k]? = some (.spawned number idx) ∧ ¬ Last s number
  | .probed k _ =>
    ∃ number song url, s.openings[k]? = some (.probing number song url) ∧ ¬ Last s number
  | _ => False

theorem playback_spawnFetch : (spawnFetch s).playback = s.playback := by
  unfold spawnFetch
  split <;> rfl

theorem playback_spawnDriver : (spawnDriver s).playback = s.playback := by
  unfold spawnDriver
  split <;> rfl

theorem playback_driver {r : Except String Unit} : (driver s r).playback = s.playback := by
  unfold driver
  split
  · split <;> rfl
  · rfl

theorem playback_noteEmpty {a : Ask} {reply : Reply} :
    (noteEmpty s a reply).playback = s.playback := by
  unfold noteEmpty
  split
  · split <;> rfl
  · rfl

theorem playback_fetch {a : Ask} {r : Except String Reply} :
    (fetch s a r).playback = s.playback := by
  unfold fetch
  split
  · split
    · split <;> rfl
    · split
      · exact playback_noteEmpty
      · rfl
  · rfl

theorem good_startQueue (h : s.playback.Good) (queue : List Child) (idx : Nat) :
    (startQueue s queue idx).playback.Good := by
  unfold startQueue
  split
  · exact h
  · exact h.request queue _

theorem good_rowTap (h : s.playback.Good) (i : Nat) : (rowTap s i).playback.Good := by
  unfold rowTap
  split
  · exact h
  · dsimp only
    split
    · exact h
    · exact h
    · exact h
    · exact h
    · exact h
    · exact h
    · exact good_startQueue h _ _

theorem good_skip (h : s.playback.Good) (delta : Int) : (skip s delta).playback.Good := by
  unfold skip
  split
  · exact h
  · dsimp only
    split
    · exact h.request s.queue _
    · exact h

theorem good_searchSubmit (h : s.playback.Good) (query : String) :
    (searchSubmit s query).playback.Good := by
  unfold searchSubmit
  dsimp only
  split
  · exact h
  · exact h

theorem good_spawnPlay (h : s.playback.Good) : (spawnPlay s).playback.Good := by
  unfold spawnPlay
  split
  · next idx hi => exact h.spawn hi
  · exact h

theorem good_drive (h : s.playback.Good) (ended : Bool) : (drive s ended).playback.Good := by
  unfold drive
  split
  · split
    · exact h.request s.queue _
    · exact h.close .idle
  · exact h

/-- What the tick opens was found for the last request, and no other has been made. -/
theorem good_engineTick (h : s.playback.Good) (e : Tick) (hin : InTime s (.tick e)) :
    (engineTick s e).playback.Good := by
  have hspawn : (spawnFetch (spawnDriver s)).playback = s.playback :=
    playback_spawnFetch.trans playback_spawnDriver
  generalize ht : spawnFetch (spawnDriver s) = t at hspawn
  have hopen : t.pendingOpen = s.pendingOpen := congrArg Playback.pendingOpen hspawn
  have hplay : t.pendingPlay = s.pendingPlay := congrArg Playback.pendingPlay hspawn
  have hplayed : t.played = s.played := congrArg Playback.played hspawn
  have hgood : t.playback.Good := hspawn ▸ h
  have hspawned := good_spawnPlay hgood
  have hstop : (stopRequested (spawnPlay t) e.stop).playback.Good := by
    unfold stopRequested
    split
    · exact hspawned.close .idle
    · exact hspawned
  unfold engineTick
  rw [ht]
  refine good_drive ?_ e.ended
  cases hp : t.pendingOpen with
  | none =>
    have hnone : (stopRequested (spawnPlay t) e.stop).pendingOpen = none := by
      rw [← hp]
      unfold stopRequested spawnPlay
      split <;> split <;> rfl
    unfold openPending
    rw [hnone]
    exact hstop
  | some p =>
    obtain ⟨hnumber, hpending⟩ := hin p (hopen.symm.trans hp)
    have hsame : spawnPlay t = t := by
      unfold spawnPlay
      rw [hplay, hpending]
    rw [hsame] at hstop ⊢
    generalize hu : stopRequested t e.stop = u at hstop
    have hkept : u.pendingOpen = some p ∧ u.pendingPlay = none ∧ u.played = s.played := by
      rw [← hu]
      unfold stopRequested
      split
      · exact ⟨hp, hplay.trans hpending, hplayed⟩
      · exact ⟨hp, hplay.trans hpending, hplayed⟩
    obtain ⟨hpu, hnu, hlu⟩ := hkept
    obtain ⟨hok, herror⟩ := hstop.openPending hpu (hnumber.trans hlu.symm) hnu
    unfold openPending
    rw [hpu]
    dsimp only
    split
    · exact hok
    · exact herror

/-- A report of a task either comes in time, or goes on without a change of what is played. -/
theorem good_begun (h : s.playback.Good) {k number idx : Nat} {url : Except String String}
    {http : Bool} (ht : s.openings[k]? = some (.spawned number idx))
    (hin : InTime s (.begun k url http)) :
    (play { s with openings := s.openings.eraseIdx k } number idx url http).playback.Good := by
  have hfails (hl : number = s.played ∨ s.play = .idle) := h.fails ht hl
  have hin' := hin number idx ht
  unfold play
  dsimp only
  split
  · next song hsong hclient =>
    split
    · next e =>
      refine hfails ?_
      rcases hin' with hl | hl | ⟨-, -, ⟨u, hu⟩, -⟩
      · exact .inl hl.1
      · exact .inr hl
      · cases hu
    · split
      · exact h.begins ht hsong
      · next hhttp =>
        refine hfails ?_
        rcases hin' with hl | hl | ⟨-, -, -, hh⟩
        · exact .inl hl.1
        · exact .inr hl
        · exact absurd hh hhttp
  · next hnone =>
    refine hfails ?_
    rcases hin' with hl | hl | ⟨hlt, hclient, -, -⟩
    · exact .inl hl.1
    · exact .inr hl
    · exact absurd hclient (hnone _ (List.getElem?_eq_getElem hlt))

theorem good_probed (h : s.playback.Good) {k number : Nat} {song : Child} {url : String}
    {r : Except String Nat} (ht : s.openings[k]? = some (.probing number song url))
    (hin : InTime s (.probed k r)) :
    (probed { s with openings := s.openings.eraseIdx k } number song url r).playback.Good := by
  have hfails (hl : number = s.played ∨ s.play = .idle) := h.fails ht hl
  have hin' := hin number song url ht
  unfold probed
  split
  · refine hfails ?_
    rcases hin' with hl | hl | ⟨n, hn⟩
    · exact .inl hl.1
    · exact .inr hl
    · cases hn
  · refine hfails ?_
    rcases hin' with hl | hl | ⟨n, hn⟩
    · exact .inl hl.1
    · exact .inr hl
    · cases hn
  · exact h.finds ht rfl rfl

theorem good_step (h : s.playback.Good) (i : Input) (hin : InTime s i) :
    (step s i).playback.Good := by
  cases i with
  | rowTap i => exact good_rowTap h i
  | setTab n => exact h
  | goBack =>
    unfold step goBack
    dsimp only
    split <;> exact h
  | skip delta => exact good_skip h delta
  | openSearch => exact h
  | closeSearch => exact h
  | searchSubmit query => exact good_searchSubmit h query
  | tick e => exact good_engineTick h e hin
  | driver r =>
    unfold step
    dsimp only
    rw [playback_driver]
    exact h
  | fetched k r =>
    unfold step
    dsimp only
    split
    · rw [playback_fetch]
      exact h
    · exact h
  | begun k url http =>
    unfold step
    dsimp only
    split
    · next number idx ht => exact good_begun h ht hin
    · exact h
  | probed k r =>
    unfold step
    dsimp only
    split
    · next number song url ht => exact good_probed h ht hin
    · exact h

theorem good_start : ({} : State).playback.Good where
  current := ⟨fun _ h => (by cases h), fun _ _ h => absurd h List.not_mem_nil,
    fun _ _ _ h => absurd h List.not_mem_nil, fun _ _ h => (by cases h)⟩
  numbered := ⟨.nil, fun _ h => absurd h List.not_mem_nil, fun _ h => (by cases h),
    fun _ h => (by cases h)⟩
  shown := ⟨fun _ h => (by cases h), fun _ h => (by cases h), fun _ h => (by cases h),
    fun _ h => (by cases h)⟩

/-- A task that begins goes on, or it fails and nothing is said to be played. -/
theorem play_spec (s : State) (number idx : Nat) (url : Except String String) (http : Bool) :
    (play s number idx url http).stream = s.stream ∧
      ((idx < s.queue.length ∧ s.client = true ∧ (∃ u, url = .ok u) ∧ http = true) ∧
          (play s number idx url http).play = s.play ∨
        ¬ (idx < s.queue.length ∧ s.client = true ∧ (∃ u, url = .ok u) ∧ http = true) ∧
          (play s number idx url http).play = .idle) := by
  unfold play
  split
  · next song hsong hclient =>
    have hlt := (List.getElem?_eq_some_iff.1 hsong).1
    split
    · refine ⟨rfl, .inr ⟨?_, rfl⟩⟩
      rintro ⟨-, -, ⟨u, hu⟩, -⟩
      cases hu
    · next u =>
      split
      · next hhttp => exact ⟨rfl, .inl ⟨⟨hlt, hclient, ⟨u, rfl⟩, hhttp⟩, rfl⟩⟩
      · next hhttp =>
        refine ⟨rfl, .inr ⟨?_, rfl⟩⟩
        rintro ⟨-, -, -, hh⟩
        exact hhttp hh
  · next hnone =>
    refine ⟨rfl, .inr ⟨?_, rfl⟩⟩
    rintro ⟨hlt, hclient, -⟩
    exact hnone _ (List.getElem?_eq_getElem hlt) hclient

theorem probed_spec (s : State) (number : Nat) (song : Child) (url : String)
    (r : Except String Nat) :
    (probed s number song url r).stream = s.stream ∧
      ((∃ n, r = .ok (n + 1)) ∧ (probed s number song url r).play = s.play ∨
        (¬ ∃ n, r = .ok (n + 1)) ∧ (probed s number song url r).play = .idle) := by
  unfold probed
  split
  · exact ⟨rfl, .inr ⟨fun ⟨_, h⟩ => (by cases h), rfl⟩⟩
  · exact ⟨rfl, .inr ⟨fun ⟨_, h⟩ => (by cases h), rfl⟩⟩
  · next len => exact ⟨rfl, .inl ⟨⟨len, rfl⟩, rfl⟩⟩

/-- In a run in which the tasks report in time, a stream that is open is played and is that of the
song of the queue that is shown, unless another has just been asked for. A task of an older request
changes neither if and only if it is in time. -/
theorem playing_shown (hrun : Run step InTime {} s) :
    (∀ o, s.stream = some o → s.play = .playing ∧
      (s.pendingPlay = none → s.queue[s.qidx]? = some o.song)) ∧
    ∀ i, Older s i →
      (InTime s i ↔ (step s i).stream = s.stream ∧ (step s i).play = s.play) := by
  have hgood : s.playback.Good :=
    hrun.invariant (J := fun s => s.playback.Good) good_start fun i h hi => good_step h i hi
  refine ⟨fun o ho => ⟨hgood.shown.playing o ho, hgood.shown.song o ho⟩, fun i hi => ?_⟩
  cases i with
  | begun k url http =>
    obtain ⟨number, idx, ht, hl⟩ := hi
    have hstep : step s (.begun k url http) =
        play { s with openings := s.openings.eraseIdx k } number idx url http := by
      unfold step
      dsimp only
      rw [ht]
    obtain ⟨hs, hp⟩ :=
      play_spec { s with openings := s.openings.eraseIdx k } number idx url http
    rw [hstep]
    refine ⟨fun hin => ⟨hs, ?_⟩, fun hsame number' idx' ht' => ?_⟩
    · rcases hin number idx ht with hl' | hidle | hgo
      · exact absurd hl' hl
      · rcases hp with ⟨-, hp⟩ | ⟨-, hp⟩
        · exact hp
        · exact hp.trans hidle.symm
      · rcases hp with ⟨-, hp⟩ | ⟨hno, -⟩
        · exact hp
        · exact absurd hgo hno
    · cases ht.symm.trans ht'
      rcases hp with ⟨hgo, -⟩ | ⟨-, hp⟩
      · exact .inr (.inr hgo)
      · exact .inr (.inl (hsame.2.symm.trans hp))
  | probed k r =>
    obtain ⟨number, song, url, ht, hl⟩ := hi
    have hstep : step s (.probed k r) =
        probed { s with openings := s.openings.eraseIdx k } number song url r := by
      unfold step
      dsimp only
      rw [ht]
    obtain ⟨hs, hp⟩ :=
      probed_spec { s with openings := s.openings.eraseIdx k } number song url r
    rw [hstep]
    refine ⟨fun hin => ⟨hs, ?_⟩, fun hsame number' song' url' ht' => ?_⟩
    · rcases hin number song url ht with hl' | hidle | hgo
      · exact absurd hl' hl
      · rcases hp with ⟨-, hp⟩ | ⟨-, hp⟩
        · exact hp
        · exact hp.trans hidle.symm
      · rcases hp with ⟨-, hp⟩ | ⟨hno, -⟩
        · exact hp
        · exact absurd hgo hno
    · cases ht.symm.trans ht'
      rcases hp with ⟨hgo, -⟩ | ⟨-, hp⟩
      · exact .inr (.inr hgo)
      · exact .inr (.inl (hsame.2.symm.trans hp))
  | _ => exact absurd hi id

/-! ## Two songs -/

def song (id : String) : Child where
  id := id
  title := id
  artist := none
  duration := none

/-- A tick during which nothing fails. -/
def plainTick : Input := .tick { stop := false, opens := .ok (), ended := false }

/-- The client is connected, the songs are shown, and the first is opened. -/
def firstSong : List Input :=
  [plainTick, .driver (.ok ()), plainTick,
    .fetched 0 (.ok ⟨"", none, [.song (song "one"), .song (song "two")]⟩),
    .rowTap 0, plainTick, .begun 0 (.ok "url") true]

theorem playing_shown_first :
    (((firstSong ++ [.probed 0 (.ok 1000), plainTick]).foldl step {}).stream.map
      Stream.song).isSome ∧
    ((firstSong ++ [.probed 0 (.ok 1000), plainTick]).foldl step {}).play = .playing := by
  have hrun : Run step InTime ({} : State)
      ((firstSong ++ [.probed 0 (.ok 1000), plainTick]).foldl step {}) := by
    refine run_of_goes ⟨?_, ?_, ?_, ?_, ?_, ?_, ?_, ?_, ?_, trivial⟩
    · exact fun p hp => by cases hp
    · exact trivial
    · exact fun p hp => by cases hp
    · exact trivial
    · exact trivial
    · exact fun p hp => by cases hp
    · exact fun number idx ht => .inr (.inr ⟨by cases ht; decide, rfl, ⟨_, rfl⟩, rfl⟩)
    · exact fun number song url ht => .inr (.inr ⟨999, rfl⟩)
    · exact fun p hp => by cases hp; exact ⟨rfl, rfl⟩
  have hopen : ((firstSong ++ [.probed 0 (.ok 1000), plainTick]).foldl step {}).stream.isSome := by
    decide
  obtain ⟨o, ho⟩ := Option.isSome_iff_exists.1 hopen
  rw [ho]
  exact ⟨rfl, ((playing_shown hrun).1 o ho).1⟩

/-- The second song is asked for while the first is being opened; it is opened, and then the task
of the first reports. -/
def lateReport : List Input :=
  firstSong ++ [.skip 1, plainTick, .begun 1 (.ok "url") true, .probed 1 (.ok 1000), plainTick,
    .probed 0 (.ok 1000), plainTick]

/-- The song that was asked for before is played. -/
theorem late_played : ¬ ∀ s : State, Run step (fun _ _ => True) {} s → s.pendingPlay = none →
    (∀ t ∈ s.openings, t.number ≠ s.played) →
    (∀ p, s.pendingOpen = some p → p.number ≠ s.played) →
    ∀ o, s.stream = some o → s.play = .playing ∧ s.queue[s.qidx]? = some o.song := by
  intro h
  have hrun : Run step (fun _ _ => True) ({} : State) (lateReport.foldl step {}) :=
    run_of_goes ⟨trivial, trivial, trivial, trivial, trivial, trivial, trivial, trivial, trivial,
      trivial, trivial, trivial, trivial, trivial, trivial⟩
  have hopen : (lateReport.foldl step {}).stream.map Stream.song = some (song "one") := by
    decide
  obtain ⟨o, ho, hone⟩ := Option.map_eq_some_iff.1 hopen
  have hnone : (lateReport.foldl step {}).pendingOpen = none := by decide
  have hshown := (h _ hrun (by decide) (by decide)
    (fun p hp => (Option.some_ne_none p (hp.symm.trans hnone)).elim) o ho).2
  rw [hone] at hshown
  revert hshown
  decide

end Wandr.Navidrome
