import Wandr.Arbiter.MediaSession
import Wandr.Lib.Machine

/-!
# What is playing now

The sessions are in a hash map, which may list them in any order. Which of them is made active when
another one goes does not depend on it as long as no two of them have the same stamp, and they do
not as long as the counter of the stamps has not come round.

* `best_spec`, `best_perm`: the session that is picked goes before the others, whatever the order;
* `Sound.touch`: a touch gives a stamp that is newer than all others;
* `Sound.onCommand`, `Listed.onCommand`: what each verb keeps, and that it does the same in any
  order;
* `nowPlaying_of_run`: what holds in every state of a run;
* `same_stamp`: the counter comes round.
-/

namespace Wandr

open Text

namespace MediaSessionModule

/-! ## The session that is picked -/

variable {a b d : SessionState} {rows rows' : List SessionState}

-- The equations, ahead of the proofs.
section
attribute [local simp] precedes
end

theorem precedes_refl : precedes a a := by
  unfold precedes
  split_ifs <;> simp

theorem precedes_total (h : precedes a b = false) : precedes b a := by
  unfold precedes at *
  split_ifs at * <;> simp_all [Nat.le_of_lt]

theorem precedes_trans (hab : precedes a b) (hbd : precedes b d) : precedes a d := by
  unfold precedes at *
  split_ifs at * <;> simp_all
  all_goals exact Nat.le_trans hbd hab

/-- Sessions that go before each other have the same stamp. -/
theorem seq_eq_of_precedes (hab : precedes a b) (hba : precedes b a) : a.seq = b.seq := by
  unfold precedes at *
  split_ifs at * <;> simp_all
  all_goals exact Nat.le_antisymm hba hab

theorem state_of_precedes (hb : b.state = .playing) (h : precedes a b) : a.state = .playing := by
  unfold precedes at h
  split_ifs at h with ha
  exact ha

theorem seq_le_of_precedes (hb : b.state = .playing) (h : precedes a b) : b.seq ≤ a.seq := by
  have ha := state_of_precedes hb h
  rw [precedes, if_pos ha, if_pos hb] at h
  exact of_decide_eq_true h

theorem best_eq_none : best rows = none ↔ rows = [] := by
  cases rows with
  | nil => exact iff_of_true rfl rfl
  | cons a as =>
    refine iff_of_false (fun h => ?_) (List.cons_ne_nil _ _)
    rw [best] at h
    cases hb : best as with
    | none => exact Option.some_ne_none a (by rw [hb] at h; exact h)
    | some b =>
      rw [hb] at h
      dsimp only at h
      split_ifs at h

/-- The session that is picked is one of them, and goes before the others. -/
theorem best_spec (h : best rows = some a) : a ∈ rows ∧ ∀ b ∈ rows, precedes a b := by
  induction rows generalizing a with
  | nil => cases h
  | cons c rows ih =>
    rw [best] at h
    cases hb : best rows with
    | none =>
      rw [hb] at h
      obtain rfl : c = a := Option.some.inj h
      obtain rfl := best_eq_none.1 hb
      exact ⟨List.mem_cons_self, List.forall_mem_singleton.2 precedes_refl⟩
    | some b =>
      obtain ⟨hmem, hfirst⟩ := ih hb
      rw [hb] at h
      dsimp only at h
      split_ifs at h with hbc
      · obtain rfl : b = a := Option.some.inj h
        exact ⟨List.mem_cons_of_mem _ hmem, List.forall_mem_cons.2 ⟨hbc, hfirst⟩⟩
      · obtain rfl : c = a := Option.some.inj h
        have hcb : precedes c b := precedes_total (Bool.eq_false_iff.2 hbc)
        exact ⟨List.mem_cons_self, List.forall_mem_cons.2 ⟨precedes_refl, fun r hr =>
          precedes_trans hcb (hfirst r hr)⟩⟩

/-- Sessions with different stamps are picked from in any order. -/
theorem best_perm (hp : rows'.Perm rows) (hd : ∀ a ∈ rows, ∀ b ∈ rows, a.seq = b.seq → a = b) :
    best rows' = best rows := by
  cases h : best rows with
  | none =>
    rw [best_eq_none.1 h] at hp
    exact best_eq_none.2 hp.eq_nil
  | some a =>
    cases h' : best rows' with
    | none =>
      rw [best_eq_none.1 h'] at hp
      rw [best_eq_none.2 hp.symm.eq_nil] at h
      cases h
    | some b =>
      obtain ⟨ha, hfirst⟩ := best_spec h
      obtain ⟨hb, hfirst'⟩ := best_spec h'
      have hb := hp.subset hb
      rw [hd b hb a ha (seq_eq_of_precedes (hfirst' a (hp.symm.subset ha)) (hfirst b hb))]

/-! ## The stamps -/

/-- The active session is in the map, the stamps are different, and none is ahead of the counter. -/
structure Sound (m : MediaSessionModule) : Prop where
  active : ∀ p, m.active = some p → ∃ a ∈ m.sessions.rows, a.pid = p
  distinct : ∀ a ∈ m.sessions.rows, ∀ b ∈ m.sessions.rows, a.seq = b.seq → a = b
  behind : ∀ a ∈ m.sessions.rows, a.seq ≤ m.seq

theorem sound_start : Sound {} where
  active p hp := by cases hp
  distinct a ha := by cases ha
  behind a ha := by cases ha

variable {m : MediaSessionModule} {pid : Pid}

/-- A touch gives a stamp that is newer than all others, if the counter does not come round. -/
theorem Sound.touch (h : Sound m) (pid : Pid) (s : Store) (f : SessionState → SessionState)
    (hf : ∀ a, (f a).seq = a.seq)
    (hseq : m.seq + 1 < 2 ^ 64) :
    Sound (m.touch pid s f) ∧ ∃ a ∈ (m.touch pid s f).sessions.rows, a.pid = pid := by
  have hstamp : (m.seq + 1) % 2 ^ 64 = m.seq + 1 := Nat.mod_eq_of_lt hseq
  set new : SessionState := { f { (m.sessions.get? pid).getD { pid } with
    appId := appIdFor pid s, seq := (m.seq + 1) % 2 ^ 64 } with pid } with hnew
  have hrows : ∀ b, b ∈ (m.touch pid s f).sessions.rows ↔
      b = new ∨ b ∈ m.sessions.rows ∧ b.pid ≠ pid := fun b => Table.mem_rows_put
  have hnewest : new.seq = m.seq + 1 := (hf _).trans hstamp
  have holder : ∀ b ∈ m.sessions.rows, b.seq ≠ new.seq := fun b hb he => by
    have hle := h.behind b hb
    omega
  have hmem : new ∈ (m.touch pid s f).sessions.rows := (hrows new).2 (.inl rfl)
  refine ⟨⟨fun p hp => ?_, fun b hb d hd he => ?_, fun b hb => ?_⟩, new, hmem, rfl⟩
  · obtain ⟨a, ha, rfl⟩ := h.active p hp
    by_cases hpid : a.pid = pid
    · exact ⟨new, hmem, hpid.symm⟩
    · exact ⟨a, (hrows a).2 (.inr ⟨ha, hpid⟩), rfl⟩
  · rcases (hrows b).1 hb with rfl | ⟨hb, -⟩ <;> rcases (hrows d).1 hd with rfl | ⟨hd, -⟩
    · rfl
    · exact absurd he.symm (holder d hd)
    · exact absurd he (holder b hb)
    · exact h.distinct b hb d hd he
  · change b.seq ≤ (m.seq + 1) % 2 ^ 64
    rw [hstamp]
    rcases (hrows b).1 hb with rfl | ⟨hb, -⟩
    · exact Nat.le_of_eq hnewest
    · exact Nat.le_succ_of_le (h.behind b hb)

/-- What is picked is in the map. -/
theorem Sound.of_recomputeActive
    (hd : ∀ a ∈ m.sessions.rows, ∀ b ∈ m.sessions.rows, a.seq = b.seq → a = b)
    (hb : ∀ a ∈ m.sessions.rows, a.seq ≤ m.seq) : Sound m.recomputeActive := by
  refine ⟨fun p hp => ?_, hd, hb⟩
  obtain ⟨a, ha, rfl⟩ := Option.map_eq_some_iff.1 hp
  exact ⟨a, (best_spec ha).1, rfl⟩

theorem Sound.erase (h : Sound m) (pid : Pid) :
    Sound (if m.active = some pid then
      { m with sessions := m.sessions.erase pid }.recomputeActive
      else { m with sessions := m.sessions.erase pid }) := by
  have hrows : ∀ a ∈ (m.sessions.erase pid).rows, a ∈ m.sessions.rows := fun a ha =>
    (Table.mem_rows_erase.1 ha).1
  have hd : ∀ a ∈ (m.sessions.erase pid).rows, ∀ b ∈ (m.sessions.erase pid).rows,
      a.seq = b.seq → a = b := fun a ha b hb => h.distinct a (hrows a ha) b (hrows b hb)
  have hb : ∀ a ∈ (m.sessions.erase pid).rows, a.seq ≤ m.seq := fun a ha =>
    h.behind a (hrows a ha)
  split_ifs with hactive
  · exact .of_recomputeActive hd hb
  · refine ⟨fun p hp => ?_, hd, hb⟩
    obtain ⟨a, ha, rfl⟩ := h.active p hp
    exact ⟨a, Table.mem_rows_erase.2 ⟨ha, fun he => hactive (he ▸ hp)⟩, rfl⟩

/-- The sessions whose apps are running. -/
def live (m : MediaSessionModule) (s : Store) : MediaSessionModule :=
  { m with sessions := m.sessions.retain fun e => (s.appByPid e.pid).isSome }

theorem mem_of_mem_live {s : Store} (h : a ∈ (m.live s).sessions.rows) : a ∈ m.sessions.rows :=
  (Table.mem_rows_retain.1 h).1

/-- The active session is only changed if its app is no longer running. -/
theorem pruneDead_eq {s : Store} : m.pruneDead s =
    if m.active.all (m.live s).sessions.contains then m.live s else (m.live s).recomputeActive := by
  obtain ⟨sessions, active, seq⟩ := m
  cases active with
  | none => rfl
  | some p => rfl

theorem Sound.pruneDead (h : Sound m) (s : Store) : Sound (m.pruneDead s) := by
  have hd : ∀ a ∈ (m.live s).sessions.rows, ∀ b ∈ (m.live s).sessions.rows, a.seq = b.seq → a = b :=
    fun a ha b hb => h.distinct a (mem_of_mem_live ha) b (mem_of_mem_live hb)
  have hb : ∀ a ∈ (m.live s).sessions.rows, a.seq ≤ m.seq := fun a ha =>
    h.behind a (mem_of_mem_live ha)
  rw [pruneDead_eq]
  split_ifs with hall
  · refine ⟨fun p (hp : m.active = some p) => ?_, hd, hb⟩
    rw [hp] at hall
    obtain ⟨a, ha⟩ := Option.isSome_iff_exists.1 hall
    exact ⟨a, Table.mem_of_get? ha, Table.key_of_get? ha⟩
  · exact .of_recomputeActive hd hb

/-- An edit that keeps the stamp. -/
theorem Sound.modify (h : Sound m) (pid : Pid) (f : SessionState → SessionState)
    (hpid : ∀ a, (f a).pid = a.pid) (hseq : ∀ a, (f a).seq = a.seq) :
    Sound { m with sessions := m.sessions.modify pid f hpid } := by
  have hrows : ∀ a ∈ (m.sessions.modify pid f hpid).rows,
      ∃ b ∈ m.sessions.rows, a = (if b.pid = pid then f b else b) ∧ a.pid = b.pid ∧
        a.seq = b.seq := fun a ha => by
    obtain ⟨b, hb, rfl⟩ := Table.mem_rows_modify.1 ha
    refine ⟨b, hb, rfl, ?_⟩
    split_ifs
    · exact ⟨hpid b, hseq b⟩
    · exact ⟨rfl, rfl⟩
  refine ⟨fun p hp => ?_, fun a ha b hb he => ?_, fun a ha => ?_⟩
  · obtain ⟨b, hb, rfl⟩ := h.active p hp
    have hmem : (if b.pid = pid then f b else b) ∈ (m.sessions.modify pid f hpid).rows :=
      Table.mem_rows_modify.2 ⟨b, hb, rfl⟩
    refine ⟨_, hmem, ?_⟩
    split_ifs
    · exact hpid b
    · rfl
  · obtain ⟨a', ha', rfl, -, hae⟩ := hrows a ha
    obtain ⟨b', hb', rfl, -, hbe⟩ := hrows b hb
    rw [h.distinct a' ha' b' hb' (hae.symm.trans (he.trans hbe))]
  · obtain ⟨b, hb, -, -, he⟩ := hrows a ha
    exact he ▸ h.behind b hb

/-- A session that is in the map is made active. -/
theorem Sound.activate (h : Sound m) (hpid : ∃ a ∈ m.sessions.rows, a.pid = pid) :
    Sound { m with active := some pid } :=
  ⟨fun _ hp => Option.some.inj hp ▸ hpid, h.distinct, h.behind⟩

/-! ## The order of the map -/

/-- The same sessions, listed in any two orders. -/
structure Listed (m m' : MediaSessionModule) : Prop where
  rows : m.sessions.rows.Perm m'.sessions.rows
  active : m.active = m'.active
  seq : m.seq = m'.seq

variable {m' : MediaSessionModule}

theorem Listed.touch (h : Listed m m') (pid : Pid) (s : Store) (f : SessionState → SessionState) :
    Listed (m.touch pid s f) (m'.touch pid s f) := by
  have hget := Table.get?_perm h.rows pid
  refine ⟨?_, h.active, congrArg (fun n => (n + 1) % 2 ^ 64) h.seq⟩
  dsimp only [MediaSessionModule.touch]
  rw [hget, h.seq]
  exact Table.put_perm h.rows _

theorem Listed.activate (h : Listed m m') (pid : Pid) :
    Listed { m with active := some pid } { m' with active := some pid } :=
  ⟨h.rows, rfl, h.seq⟩

/-- The pick does not depend on the order. -/
theorem Listed.recomputeActive (h : Listed m m')
    (hd : ∀ a ∈ m'.sessions.rows, ∀ b ∈ m'.sessions.rows, a.seq = b.seq → a = b) :
    Listed m.recomputeActive m'.recomputeActive :=
  ⟨h.rows, congrArg (Option.map SessionState.pid) (best_perm h.rows hd), h.seq⟩

theorem Listed.retain (h : Listed m m') (p : SessionState → Bool) :
    Listed { m with sessions := m.sessions.retain p }
      { m' with sessions := m'.sessions.retain p } :=
  ⟨Table.retain_perm h.rows p, h.active, h.seq⟩

theorem Listed.erase (h : Listed m m') (hm : Sound m') (pid : Pid) :
    Listed (if m.active = some pid then
        { m with sessions := m.sessions.erase pid }.recomputeActive
        else { m with sessions := m.sessions.erase pid })
      (if m'.active = some pid then
        { m' with sessions := m'.sessions.erase pid }.recomputeActive
        else { m' with sessions := m'.sessions.erase pid }) := by
  have hrest : Listed { m with sessions := m.sessions.erase pid }
      { m' with sessions := m'.sessions.erase pid } := h.retain _
  by_cases hp : m.active = some pid
  · rw [if_pos hp, if_pos (h.active.symm.trans hp)]
    exact hrest.recomputeActive fun a ha b hb => hm.distinct a (Table.mem_rows_erase.1 ha).1 b
      (Table.mem_rows_erase.1 hb).1
  · rw [if_neg hp, if_neg fun hp' => hp (h.active.trans hp')]
    exact hrest

theorem Listed.pruneDead (h : Listed m m') (hm : Sound m') (s : Store) :
    Listed (m.pruneDead s) (m'.pruneDead s) := by
  have hrest : Listed (m.live s) (m'.live s) := h.retain _
  have hc : (m.live s).sessions.contains = (m'.live s).sessions.contains :=
    funext fun p => congrArg Option.isSome (Table.get?_perm hrest.rows p)
  rw [pruneDead_eq, pruneDead_eq, hc, h.active]
  split_ifs
  · exact hrest
  · exact hrest.recomputeActive fun a ha b hb =>
      hm.distinct a (mem_of_mem_live ha) b (mem_of_mem_live hb)

/-! ## The verbs -/

/-- Whether a verb touches a session. -/
def touches (verb : Verb) (args : String) : Bool :=
  match verb, splitWhitespace args with
  | .setMetadata, pidTok :: _ :: _ :: _ :: _ => (parseSigned 32 pidTok).isSome
  | .setState, [pidTok, stateTok] =>
    (parseSigned 32 pidTok).isSome && (Playback.fromWire stateTok).isSome
  | .setPosition, [pidTok, _, _, _] => (parseSigned 32 pidTok).isSome
  | _, _ => false

variable {args : String} {c : Ctx}

-- The equations, ahead of the proofs.
section
attribute [local simp] touches
end

theorem Sound.cmdSetMetadata (h : Sound m)
    (hseq : touches .setMetadata args → m.seq + 1 < 2 ^ 64) :
    Sound (m.cmdSetMetadata args c).1 := by
  rw [MediaSessionModule.cmdSetMetadata]
  split
  · next pidTok title artist album rest hargs =>
    cases hpid : parseSigned 32 pidTok with
    | none => exact h
    | some pid =>
      have htouches : touches .setMetadata args := by simp [touches, hargs, hpid]
      have hs f hf := h.touch pid c.store f hf (hseq htouches)
      refine .activate (hs _ ?_).1 (hs _ ?_).2 <;> exact fun _ => rfl
  · exact h

theorem Sound.cmdSetState (h : Sound m) (hseq : touches .setState args → m.seq + 1 < 2 ^ 64) :
    Sound (m.cmdSetState args c).1 := by
  rw [MediaSessionModule.cmdSetState]
  split
  · next pidTok stateTok hargs =>
    cases hpid : parseSigned 32 pidTok with
    | none => exact h
    | some pid =>
      cases hstate : Playback.fromWire stateTok with
      | none => exact h
      | some state =>
        have htouches : touches .setState args := by simp [touches, hargs, hpid, hstate]
        obtain ⟨hs, hmem⟩ := h.touch pid c.store (fun s => { s with state }) (fun _ => rfl)
          (hseq htouches)
        dsimp only
        split_ifs
        · exact hs.activate hmem
        · exact hs
  · exact h

/-- The art of a session does not matter. -/
theorem Sound.cmdSetArt (h : Sound m) : Sound (m.cmdSetArt args c).1 := by
  rw [MediaSessionModule.cmdSetArt]
  split
  · next pidTok mime b64 rest hargs =>
    cases parseSigned 32 pidTok with
    | none => exact h
    | some pid =>
      dsimp only
      split_ifs
      · exact h.modify pid _ _ fun _ => rfl
      · exact h
  · exact h

theorem Sound.cmdClear (h : Sound m) : Sound (m.cmdClear args c).1 := by
  rw [MediaSessionModule.cmdClear]
  cases parseSigned 32 (trim args) with
  | none => exact h
  | some pid => exact h.erase pid

theorem Sound.cmdAction (h : Sound m) : Sound (m.cmdAction args c).1 := by
  have hs := h.pruneDead c.store
  rw [MediaSessionModule.cmdAction]
  split
  · exact hs
  · split <;> exact hs

theorem Sound.cmdArtwork (h : Sound m) : Sound (m.cmdArtwork c).1 := by
  have hs := h.pruneDead c.store
  rw [MediaSessionModule.cmdArtwork]
  split <;> exact hs

theorem Sound.onEvent (h : Sound m) (e : Event) : Sound (m.onEvent e c).1 := by
  cases e with
  | surfaceRemoved pid =>
    rw [MediaSessionModule.onEvent]
    by_cases hc : m.sessions.contains pid
    · rw [if_pos hc]
      exact h.erase pid
    · rw [if_neg hc]
      exact h
  | _ => exact h

section

variable [Fpu]

theorem Sound.cmdSetPosition (h : Sound m)
    (hseq : touches .setPosition args → m.seq + 1 < 2 ^ 64) :
    Sound (m.cmdSetPosition args c).1 := by
  rw [MediaSessionModule.cmdSetPosition]
  split
  · next pidTok durTok rateTok posTok hargs =>
    cases hpid : parseSigned 32 pidTok with
    | none => exact h
    | some pid =>
      have htouches : touches .setPosition args := by simp [touches, hargs, hpid]
      dsimp only
      refine (h.touch pid c.store _ ?_ (hseq htouches)).1
      exact fun _ => rfl
  · exact h

theorem Sound.cmdNowPlaying (h : Sound m) : Sound (m.cmdNowPlaying c).1 := by
  have hs := h.pruneDead c.store
  rw [MediaSessionModule.cmdNowPlaying]
  split <;> exact hs

theorem Sound.onCommand (h : Sound m) {verb : Verb}
    (hseq : touches verb args → m.seq + 1 < 2 ^ 64) : Sound (m.onCommand verb args c).1 := by
  cases verb with
  | setMetadata => exact h.cmdSetMetadata hseq
  | setArt => exact h.cmdSetArt
  | setState => exact h.cmdSetState hseq
  | setPosition => exact h.cmdSetPosition hseq
  | clear =>
    rw [MediaSessionModule.onCommand]
    exact h.cmdClear
  | nowPlaying => exact h.cmdNowPlaying
  | artwork => exact h.cmdArtwork
  | action => exact h.cmdAction

end

theorem Sound.listed (h : Sound m) (hl : Listed m' m) : Sound m' := by
  refine ⟨fun p hp => ?_, fun a ha b hb => ?_, fun a ha => ?_⟩
  · obtain ⟨a, ha, he⟩ := h.active p (hl.active.symm.trans hp)
    exact ⟨a, hl.rows.symm.subset ha, he⟩
  · exact h.distinct a (hl.rows.subset ha) b (hl.rows.subset hb)
  · exact hl.seq ▸ h.behind a (hl.rows.subset ha)

/-! ## The same answers in any order -/

theorem Listed.contains (h : Listed m m') (pid : Pid) :
    m.sessions.contains pid = m'.sessions.contains pid :=
  congrArg Option.isSome (Table.get?_perm h.rows pid)

theorem Listed.bind_get? (h : Listed m m') :
    m.active.bind m.sessions.get? = m'.active.bind m'.sessions.get? := by
  rw [h.active, funext (Table.get?_perm h.rows)]

/-- What a verb leaves and says, up to the order of the map. -/
def Alike (x y : MediaSessionModule × Ctx × Reply) : Prop := Listed x.1 y.1 ∧ x.2 = y.2

theorem Listed.cmdSetMetadata (h : Listed m m') :
    Alike (m.cmdSetMetadata args c) (m'.cmdSetMetadata args c) := by
  rw [MediaSessionModule.cmdSetMetadata, MediaSessionModule.cmdSetMetadata]
  split
  · next pidTok title artist album rest hargs =>
    cases parseSigned 32 pidTok with
    | none => exact ⟨h, rfl⟩
    | some pid => exact ⟨(h.touch pid c.store _).activate pid, rfl⟩
  · exact ⟨h, rfl⟩

theorem Listed.cmdSetState (h : Listed m m') :
    Alike (m.cmdSetState args c) (m'.cmdSetState args c) := by
  rw [MediaSessionModule.cmdSetState, MediaSessionModule.cmdSetState]
  split
  · next pidTok stateTok hargs =>
    cases parseSigned 32 pidTok with
    | none => exact ⟨h, rfl⟩
    | some pid =>
      cases Playback.fromWire stateTok with
      | none => exact ⟨h, rfl⟩
      | some state =>
        dsimp only
        split_ifs
        · exact ⟨(h.touch pid c.store _).activate pid, rfl⟩
        · refine ⟨?_, rfl⟩
          dsimp only
          exact h.touch pid c.store _
  · exact ⟨h, rfl⟩

theorem Listed.cmdSetArt (h : Listed m m') : Alike (m.cmdSetArt args c) (m'.cmdSetArt args c) := by
  rw [MediaSessionModule.cmdSetArt, MediaSessionModule.cmdSetArt]
  split
  · next pidTok mime b64 rest hargs =>
    cases parseSigned 32 pidTok with
    | none => exact ⟨h, rfl⟩
    | some pid =>
      dsimp only
      rw [h.contains pid]
      split_ifs
      · refine ⟨⟨Table.modify_perm h.rows pid _ ?_, h.active, h.seq⟩, rfl⟩
        exact fun _ => rfl
      · exact ⟨h, rfl⟩
  · exact ⟨h, rfl⟩

theorem Listed.cmdClear (h : Listed m m') (hm : Sound m') :
    Alike (m.cmdClear args c) (m'.cmdClear args c) := by
  rw [MediaSessionModule.cmdClear, MediaSessionModule.cmdClear]
  cases parseSigned 32 (trim args) with
  | none => exact ⟨h, rfl⟩
  | some pid => exact ⟨h.erase hm pid, rfl⟩

theorem Listed.cmdArtwork (h : Listed m m') (hm : Sound m') :
    Alike (m.cmdArtwork c) (m'.cmdArtwork c) := by
  have hs := h.pruneDead hm c.store
  rw [MediaSessionModule.cmdArtwork, MediaSessionModule.cmdArtwork, hs.bind_get?]
  split <;> exact ⟨hs, rfl⟩

theorem Listed.cmdAction (h : Listed m m') (hm : Sound m') :
    Alike (m.cmdAction args c) (m'.cmdAction args c) := by
  have hs := h.pruneDead hm c.store
  rw [MediaSessionModule.cmdAction, MediaSessionModule.cmdAction, hs.active]
  split
  · exact ⟨hs, rfl⟩
  · split <;> exact ⟨hs, rfl⟩

theorem Listed.onEvent (h : Listed m m') (hm : Sound m') (e : Event) :
    Listed (m.onEvent e c).1 (m'.onEvent e c).1 ∧ (m.onEvent e c).2 = (m'.onEvent e c).2 := by
  cases e with
  | surfaceRemoved pid =>
    rw [MediaSessionModule.onEvent, MediaSessionModule.onEvent]
    dsimp only
    rw [h.contains pid]
    by_cases hc : m'.sessions.contains pid
    · rw [if_pos hc, if_pos hc]
      exact ⟨h.erase hm pid, rfl⟩
    · rw [if_neg hc, if_neg hc]
      exact ⟨h, rfl⟩
  | _ => exact ⟨h, rfl⟩

section

variable [Fpu]

theorem Listed.cmdSetPosition (h : Listed m m') :
    Alike (m.cmdSetPosition args c) (m'.cmdSetPosition args c) := by
  rw [MediaSessionModule.cmdSetPosition, MediaSessionModule.cmdSetPosition]
  split
  · next pidTok durTok rateTok posTok hargs =>
    cases parseSigned 32 pidTok with
    | none => exact ⟨h, rfl⟩
    | some pid =>
      refine ⟨?_, rfl⟩
      dsimp only
      exact h.touch pid c.store _
  · exact ⟨h, rfl⟩

theorem Listed.cmdNowPlaying (h : Listed m m') (hm : Sound m') :
    Alike (m.cmdNowPlaying c) (m'.cmdNowPlaying c) := by
  have hs := h.pruneDead hm c.store
  rw [MediaSessionModule.cmdNowPlaying, MediaSessionModule.cmdNowPlaying, hs.bind_get?]
  split <;> exact ⟨hs, rfl⟩

theorem Listed.onCommand (h : Listed m m') (hm : Sound m') (verb : Verb) (args : String) (c : Ctx) :
    Alike (m.onCommand verb args c) (m'.onCommand verb args c) := by
  cases verb with
  | setMetadata => exact h.cmdSetMetadata
  | setArt => exact h.cmdSetArt
  | setState => exact h.cmdSetState
  | setPosition => exact h.cmdSetPosition
  | clear =>
    rw [MediaSessionModule.onCommand, MediaSessionModule.onCommand]
    exact h.cmdClear hm
  | nowPlaying => exact h.cmdNowPlaying hm
  | artwork => exact h.cmdArtwork hm
  | action => exact h.cmdAction hm

end

/-! ## What is answered -/

theorem rows_pruneDead {s : Store} : (m.pruneDead s).sessions.rows = (m.live s).sessions.rows := by
  rw [pruneDead_eq]
  split_ifs <;> rfl

/-- The session that is active once the apps that are gone are dropped. -/
theorem mem_of_bind_get? {s : Store}
    (h : (m.pruneDead s).active.bind (m.pruneDead s).sessions.get? = some a) :
    a ∈ (m.pruneDead s).sessions.rows ∧ a ∈ m.sessions.rows ∧
      (m.pruneDead s).active = some a.pid := by
  obtain ⟨p, hp, hget⟩ := Option.bind_eq_some_iff.1 h
  have hmem := Table.mem_of_get? hget
  refine ⟨hmem, mem_of_mem_live (rows_pruneDead ▸ hmem), ?_⟩
  rw [hp, Table.key_of_get? hget]

theorem Sound.cmdAction_delivers (h : Sound m) : (m.cmdAction args c).2.1 = c ∨
    ∃ a ∈ (m.cmdAction args c).1.sessions.rows, a ∈ m.sessions.rows ∧
      (m.cmdAction args c).1.active = some a.pid ∧ ∃ action seek, (m.cmdAction args c).2.1 =
        c.deliverToHost a.pid (.mediaSessionAction action seek) := by
  cases hp : (m.pruneDead c.store).active with
  | none =>
    rw [MediaSessionModule.cmdAction, hp]
    exact .inl rfl
  | some p =>
    cases hargs : splitWhitespace args with
    | nil =>
      rw [MediaSessionModule.cmdAction, hp, hargs]
      exact .inl rfl
    | cons action rest =>
      obtain ⟨a, hmem, rfl⟩ := (h.pruneDead c.store).active p hp
      rw [MediaSessionModule.cmdAction, hp, hargs]
      exact .inr ⟨a, hmem, mem_of_mem_live (rows_pruneDead ▸ hmem), hp, action, _, rfl⟩

/-- The pick is the most recent of the sessions that play. -/
theorem Sound.recomputeActive_playing (h : Sound m)
    (hplays : ∃ a ∈ m.sessions.rows, a.state = .playing) :
    ∃ a ∈ m.sessions.rows, m.recomputeActive.active = some a.pid ∧ a.state = .playing ∧
      ∀ b ∈ m.sessions.rows, b.state = .playing → b.pid ≠ a.pid → b.seq < a.seq := by
  obtain ⟨p, hp, hplaying⟩ := hplays
  cases ha : best m.sessions.rows with
  | none =>
    rw [best_eq_none.1 ha] at hp
    cases hp
  | some a =>
    obtain ⟨hmem, hfirst⟩ := best_spec ha
    have hstate : a.state = .playing := state_of_precedes hplaying (hfirst p hp)
    refine ⟨a, hmem, congrArg (Option.map SessionState.pid) ha, hstate, fun b hb hbs hne => ?_⟩
    have hle : b.seq ≤ a.seq := seq_le_of_precedes hbs (hfirst b hb)
    refine Nat.lt_of_le_of_ne hle fun he => hne ?_
    rw [h.distinct b hb a hmem he]

section

variable [Fpu]

/-- The line of a session for the surfaces of the system. -/
def nowPlayingLine (s : SessionState) : String :=
  let art := if s.artB64 = "" then 0 else 1
  s!"app={s.appId} title={pctEncode s.title} artist={pctEncode s.artist} " ++
    s!"album={pctEncode s.album} state={s.state.asWire} dur={Fpu.display64 s.durationS} " ++
    s!"pos={Fpu.display64 s.positionS} art={art}"

theorem cmdNowPlaying_reply : (m.cmdNowPlaying c).2.2 = .ok "" ∨
    ∃ a ∈ (m.cmdNowPlaying c).1.sessions.rows, a ∈ m.sessions.rows ∧
      (m.cmdNowPlaying c).1.active = some a.pid ∧
      (m.cmdNowPlaying c).2.2 = .ok (nowPlayingLine a) := by
  cases ha : (m.pruneDead c.store).active.bind (m.pruneDead c.store).sessions.get? with
  | none =>
    rw [cmdNowPlaying, ha]
    exact .inl rfl
  | some a =>
    obtain ⟨hmem, hmem', hactive⟩ := mem_of_bind_get? ha
    rw [cmdNowPlaying, ha]
    exact .inr ⟨a, hmem, hmem', hactive, rfl⟩

/-- The active session is one of the map, its stamp is its own, the pick does not depend on the
    order of the map and is the most recent of the sessions that play, and the surfaces are told of
    a session in the map and their taps go to its owner. -/
structure Right (m : MediaSessionModule) : Prop where
  active : ∀ p, m.active = some p → m.sessions.contains p
  distinct : ∀ a ∈ m.sessions.rows, ∀ b ∈ m.sessions.rows, a.pid ≠ b.pid → a.seq ≠ b.seq
  order : ∀ m', Listed m' m → m'.recomputeActive.active = m.recomputeActive.active
  playing : (∃ a ∈ m.sessions.rows, a.state = .playing) →
    ∃ a ∈ m.sessions.rows, m.recomputeActive.active = some a.pid ∧ a.state = .playing ∧
      ∀ b ∈ m.sessions.rows, b.state = .playing → b.pid ≠ a.pid → b.seq < a.seq
  nowPlaying : ∀ c, (m.cmdNowPlaying c).2.2 = .ok "" ∨
    ∃ a ∈ (m.cmdNowPlaying c).1.sessions.rows, a ∈ m.sessions.rows ∧
      (m.cmdNowPlaying c).1.active = some a.pid ∧
      (m.cmdNowPlaying c).2.2 = .ok (nowPlayingLine a)
  action : ∀ args c, (m.cmdAction args c).2.1 = c ∨
    ∃ a ∈ (m.cmdAction args c).1.sessions.rows, a ∈ m.sessions.rows ∧
      (m.cmdAction args c).1.active = some a.pid ∧
      ∃ action seek, (m.cmdAction args c).2.1 =
        c.deliverToHost a.pid (.mediaSessionAction action seek)

theorem Sound.right (h : Sound m) : Right m where
  active p hp := by
    obtain ⟨a, ha, rfl⟩ := h.active p hp
    exact Option.isSome_iff_exists.2 ⟨a, Table.get?_of_mem ha⟩
  distinct a ha b hb hne he := hne (congrArg SessionState.pid (h.distinct a ha b hb he))
  order _ hl := (hl.recomputeActive h.distinct).active
  playing := h.recomputeActive_playing
  nowPlaying _ := cmdNowPlaying_reply
  action _ _ := h.cmdAction_delivers

end

/-! ## Runs -/

/-- What the module is asked for, and what it is told. -/
inductive Input
  | command (verb : Verb) (args : String) (c : Ctx)
  | event (e : Event) (c : Ctx)

/-- Whether an input touches a session. -/
def Input.touches : Input → Bool
  | command verb args _ => MediaSessionModule.touches verb args
  | event _ _ => false

section

variable [Fpu]

/-- What an input leaves, what becomes of its context, and what is answered. -/
def take (m : MediaSessionModule) : Input → MediaSessionModule × Ctx × Option Reply
  | .command verb args c =>
    ((m.onCommand verb args c).1, (m.onCommand verb args c).2.1, (m.onCommand verb args c).2.2)
  | .event e c => ((m.onEvent e c).1, (m.onEvent e c).2, none)

/-- The runs whose inputs meet a condition, with the inputs and what came of them, the latest first.
    After each of them the map may list its sessions in another order. -/
inductive Run (Ok : MediaSessionModule → Input → Prop) :
    List Input → List (Ctx × Option Reply) → MediaSessionModule → Prop
  | start : Run Ok [] [] {}
  | step {is os m} (i : Input) (t : Table SessionState.pid) : Run Ok is os m → Ok m i →
    t.rows.Perm (take m i).1.sessions.rows →
    Run Ok (i :: is) ((take m i).2 :: os) { (take m i).1 with sessions := t }

/-- The map may list its sessions as before. -/
theorem Run.take {Ok : MediaSessionModule → Input → Prop} {is os} (h : Run Ok is os m) (i : Input)
    (hok : Ok m i) : Run Ok (i :: is) ((m.take i).2 :: os) (m.take i).1 :=
  .step i (m.take i).1.sessions h hok (.refl _)

theorem Sound.take (h : Sound m) {i : Input} (hseq : i.touches → m.seq + 1 < 2 ^ 64) :
    Sound (m.take i).1 := by
  cases i with
  | command verb args c => exact h.onCommand hseq
  | event e c => exact h.onEvent e

theorem Listed.take (h : Listed m m') (hm : Sound m') (i : Input) :
    Listed (m.take i).1 (m'.take i).1 ∧ (m.take i).2 = (m'.take i).2 := by
  cases i with
  | command verb args c =>
    obtain ⟨hl, he⟩ := h.onCommand hm verb args c
    refine ⟨hl, ?_⟩
    rw [MediaSessionModule.take, MediaSessionModule.take, he]
  | event e c =>
    obtain ⟨hl, he⟩ := h.onEvent (c := c) hm e
    refine ⟨hl, ?_⟩
    rw [MediaSessionModule.take, MediaSessionModule.take, he]

/-- As long as the counter of the stamps does not come round, every state of a run is right, and
    the order in which the map lists its sessions never shows: a run with the same inputs in which
    it lists them in any other orders has the same sessions and gives the same answers. -/
theorem nowPlaying_of_run {is : List Input} {os : List (Ctx × Option Reply)}
    (h : Run (fun m i => i.touches → m.seq + 1 < 2 ^ 64) is os m) :
    Right m ∧ ∀ os' m', Run (fun m i => i.touches → m.seq + 1 < 2 ^ 64) is os' m' →
      os' = os ∧ Listed m' m := by
  suffices hs : Sound m ∧ ∀ os' m',
      Run (fun m i => i.touches → m.seq + 1 < 2 ^ 64) is os' m' → os' = os ∧ Listed m' m from
    ⟨hs.1.right, hs.2⟩
  induction h with
  | start =>
    refine ⟨sound_start, fun os' m' h' => ?_⟩
    cases h'
    exact ⟨rfl, .refl _, rfl, rfl⟩
  | @step is os m i t _ hseq ht ih =>
    have htake := ih.1.take hseq
    refine ⟨htake.listed ⟨ht, rfl, rfl⟩, fun os' m' h' => ?_⟩
    cases h' with
    | step _ t' hr' _ ht' =>
      obtain ⟨rfl, hl⟩ := ih.2 _ _ hr'
      obtain ⟨⟨hrows, hactive, hcount⟩, ho⟩ := hl.take ih.1 i
      exact ⟨congrArg (· :: _) ho, (ht'.trans hrows).trans ht.symm, hactive, hcount⟩

end

/-! ## The counter comes round -/

section

attribute [local instance] Fpu.comparator

/-- A process says that it is paused. -/
def pausedBy (pid : Pid) : Input := .command .setState s!"{pid} paused" { store := {} }

/-- What the session of a process that is paused is like. -/
def paused (pid : Pid) (seq : Nat) : SessionState :=
  { pid, appId := toString pid, state := .paused, seq }

/-- One session, touched once. -/
def once : MediaSessionModule := { sessions := Table.empty.put (paused 1 1), seq := 1 }

/-- Two sessions, of which the second was touched last. -/
def twice (seq : Nat) : MediaSessionModule :=
  { sessions := (Table.empty.put (paused 1 1)).put (paused 2 seq), seq }

theorem take_pausedBy {n : Pid} (hargs : splitWhitespace s!"{n} paused" = [toString n, "paused"])
    (hpid : parseSigned 32 (toString n) = some n) :
    (m.take (pausedBy n)).1 = m.touch n {} fun s => { s with state := .paused } := by
  rw [pausedBy, take, onCommand, cmdSetState, hargs]
  dsimp only
  rw [hpid]
  rfl

theorem take_first : (take {} (pausedBy 1)).1 = once := by
  rw [take_pausedBy (by decide) (by decide)]
  rfl

theorem take_second (h : m = once ∨ ∃ n, m = twice n) :
    (m.take (pausedBy 2)).1 = twice ((m.seq + 1) % 2 ^ 64) := by
  rw [take_pausedBy (by decide) (by decide)]
  rcases h with rfl | ⟨n, rfl⟩ <;> rfl

theorem run_twice : ∃ os,
    Run (fun m i => i.touches → m.seq + 1 < 2 ^ 64) [pausedBy 2, pausedBy 1] os (twice 2) := by
  have hstart : Run (fun m i => i.touches → m.seq + 1 < 2 ^ 64) [] [] {} := .start
  have h := hstart.take (pausedBy 1) fun _ => by decide
  rw [take_first] at h
  have h' := h.take (pausedBy 2) fun _ => by decide
  rw [take_second (.inl rfl)] at h'
  exact ⟨_, h'⟩

theorem nowPlaying_of_run_twice : Right (twice 2) := by
  obtain ⟨os, h⟩ := run_twice
  exact (nowPlaying_of_run h).1

/-- Each touch of the second session is one step of the counter. -/
theorem run_touches (n : Nat) : ∃ os, Run (fun _ _ => True)
    (List.replicate (n + 1) (pausedBy 2) ++ [pausedBy 1]) os (twice ((n + 2) % 2 ^ 64)) := by
  induction n with
  | zero =>
    have hstart : Run (fun _ _ => True) [] [] {} := .start
    have h := (hstart.take (pausedBy 1) trivial).take (pausedBy 2) trivial
    rw [take_first, take_second (.inl rfl)] at h
    exact ⟨_, h⟩
  | succ n ih =>
    obtain ⟨os, h⟩ := ih
    have h' := h.take (pausedBy 2) trivial
    have hseq : ((twice ((n + 2) % 2 ^ 64)).seq + 1) % 2 ^ 64 = (n + 1 + 2) % 2 ^ 64 :=
      Nat.mod_add_mod (n + 2) (2 ^ 64) 1
    rw [take_second (.inr ⟨_, rfl⟩), hseq] at h'
    exact ⟨_, h'⟩

/-- After as many touches of the second session as the counter has values, it has the stamp of the
    first one, and which of them is picked depends on the order of the map. -/
theorem same_stamp :
    (∃ os, Run (fun _ _ => True) (List.replicate (2 ^ 64) (pausedBy 2) ++ [pausedBy 1]) os
      (twice 1)) ∧
    (∃ a ∈ (twice 1).sessions.rows, ∃ b ∈ (twice 1).sessions.rows,
      a.pid ≠ b.pid ∧ a.seq = b.seq) ∧
    ∃ m', Listed m' (twice 1) ∧ m'.recomputeActive.active ≠ (twice 1).recomputeActive.active := by
  refine ⟨run_touches (2 ^ 64 - 1), ?_, ?_⟩
  · exact ⟨paused 1 1, List.mem_cons_self, paused 2 1, List.mem_cons_of_mem _ List.mem_cons_self,
      by decide, rfl⟩
  · refine ⟨{ sessions := (Table.empty.put (paused 2 1)).put (paused 1 1), seq := 1 },
      ⟨?_, rfl, rfl⟩, by decide⟩
    exact .swap (paused 1 1) (paused 2 1) []

end

end MediaSessionModule

end Wandr
