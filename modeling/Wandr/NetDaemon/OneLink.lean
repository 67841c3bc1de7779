import Wandr.NetDaemon.Agents

/-!
# One bring-up at a time

A connection that is asked for is brought up under the lock of the link; a bring-up of the
monitor takes the lock when it is over, to store what it brought up. The lock keeps the two
from storing at once, and not from bringing up at once, nor one from storing or reporting
what the other has replaced.

* `Orderly` is what the agents would have to be kept to, and `Tidy` what holds throughout
  a run then;
* `Run.one_link`: at most one bring-up is under way, and with none under way the link
  stored and the last report are of the network associated last;
* `connect_overwritten` is a run in which a retry of the monitor that began earlier
  overwrites a connection that was asked for.
-/

namespace Wandr

/-- The network that a snapshot names. -/
def LinkStatus.named (status : LinkStatus) : Option String :=
  if status.up then status.ssid else none

/-- A snapshot names no network but one. -/
def LinkStatus.Of (network : Option String) (status : LinkStatus) : Prop :=
  ∀ n, status.named = some n → network = some n

theorem LinkStatus.of_offline {network : Option String} : LinkStatus.Of network {} :=
  fun _ h => nomatch h

namespace NetDaemon

/-! ## What is observed -/

/-- The network associated last, from the one that the interface was associated with. -/
def associatedLast (joined : Option String) (acts : List Act) : Option String :=
  acts.foldl (fun j a => match a with | .associated ssid => some ssid | _ => j) joined

/-- The last report, from the one before. -/
def reportedLast (status : LinkStatus) (acts : List Act) : LinkStatus :=
  acts.foldl (fun r a => match a with | .reported status => status | _ => r) status

theorem associatedLast_append {joined : Option String} {acts new : List Act} :
    associatedLast joined (acts ++ new) = associatedLast (associatedLast joined acts) new :=
  List.foldl_append

theorem reportedLast_append {last : LinkStatus} {acts new : List Act} :
    reportedLast last (acts ++ new) = reportedLast (reportedLast last acts) new :=
  List.foldl_append

/-! ## The agents at their bring-ups -/

/-- The network that a bring-up has associated with, or used again. -/
def BringUp.joined : BringUp → Option String
  | .lease creds | .netd creds _ => some creds.ssid
  | _ => none

/-- A bring-up ends without a link although it is associated. -/
def BringUp.DropsOut (w : Answers) : BringUp → Prop
  | .lease _ => ∃ e, w.lease = .error e
  | .netd _ l => l.gateway = none ∨ ∃ e, w.netdConfig = .error e
  | _ => False

/-- The snapshot that the main thread is yet to store or report. -/
def Main.owes : Main → Option LinkStatus
  | .bootReport (some status) | .bootStore status | .store status | .report status
  | .announce status => some status
  | _ => none

/-- The main thread is associated with a network that it is yet to store. -/
def Main.OwesLink : Main → Prop
  | .bootBringUp b | .bringUp b => b.joined.isSome
  | .bootReport (some _) | .bootStore _ | .store _ => True
  | _ => False

/-- The main thread is associated with a network that it is yet to report. -/
def Main.OwesReport : Main → Prop
  | .bootBringUp b | .bringUp b => b.joined.isSome
  | .bootReport (some _) | .store _ | .report _ => True
  | _ => False

/-- The main thread is bringing the link up, from the look for credentials to the report. -/
def Main.Busy : Main → Prop
  | .bootBringUp _ | .bootReport _ | .bootStore _ | .bringUp _ | .store _ | .report _ => True
  | _ => False

/-- The main thread is at the boot. -/
def Main.Booting : Main → Prop
  | .bootLookUp | .bootBringUp _ | .bootReport _ | .bootStore _ | .bootServe => True
  | _ => False

/-- The bring-up of the thread of the control socket. -/
def Control.bringUp? : Control → Option BringUp
  | .connect _ b => some b
  | _ => none

/-- The snapshot that the thread of the control socket is yet to store or report. -/
def Control.owes : Control → Option LinkStatus
  | .swap _ status | .report _ status => some status
  | _ => none

/-- The thread of the control socket is associated with a network that it is yet to
    store. -/
def Control.OwesLink : Control → Prop
  | .connect _ b => b.joined.isSome
  | .swap .. => True
  | _ => False

/-- The thread of the control socket is associated with a network that it is yet to
    report. -/
def Control.OwesReport : Control → Prop
  | .connect _ b => b.joined.isSome
  | .swap .. | .report .. => True
  | _ => False

/-- The thread of the control socket holds the lock. -/
def Control.Holds : Control → Prop
  | .connect .. | .swap .. => True
  | _ => False

/-- The thread of the control socket is bringing the link up, to the report. -/
def Control.Busy : Control → Prop
  | .connect .. | .swap .. | .report .. => True
  | _ => False

/-- No bring-up is under way. -/
def State.Idle (s : State) : Prop := ¬ s.main.Busy ∧ ¬ s.control.Busy

/-! ## The condition -/

/-- A step of a bring-up, with the network associated last, the last report, and whether the
    other agent is yet to store or report a snapshot. It completes no association behind the
    other's back, uses none again but that of its network, and drops out only when nothing
    is stored or reported of another. -/
structure BringUp.Fits (w : Answers) (link : Option LinkStatus) (joined : Option String)
    (last : LinkStatus) (other : Option LinkStatus) (b : BringUp) : Prop where
  alone : ∀ creds, b = .waitCarrier creds → w.waitCarrier → other = none
  reuses : ∀ creds force, b = .start creds force → w.carrier ∧ ¬ force → joined = some creds.ssid
  drops : b.DropsOut w → (∀ status ∈ link, status.Of joined) ∧ last.Of joined

/-- The agents bring the link up one at a time, each in its turn with what the other has
    done. -/
def Orderly (joined : Option String) : Condition := fun acts w s t =>
  match t with
  | .main => (s.main = .lookUp → (∃ creds, chooseCreds w = .ok creds) → s.control.bringUp? = none) ∧
      ∀ b, s.main.bringUp? = some b →
        b.Fits w s.link (associatedLast joined acts) (reportedLast {} acts) s.control.owes
  | .receive _ => True
  | .control => (∀ creds, s.control = .lock creds → s.main.bringUp? = none) ∧
      ∀ b, s.control.bringUp? = some b →
        b.Fits w s.link (associatedLast joined acts) (reportedLast {} acts) s.main.owes

/-! ## The invariant -/

/-- What holds throughout an orderly run, of a state, the network associated last and the
    last report. -/
structure Tidy (s : State) (joined : Option String) (last : LinkStatus) : Prop where
  booting : s.main.Booting → s.control = .unborn
  locked : s.locked ↔ s.control.Holds
  apart : s.main.bringUp? = none ∨ s.control.bringUp? = none
  mainJoined : ∀ b ssid, s.main.bringUp? = some b → b.joined = some ssid → joined = some ssid
  controlJoined : ∀ b ssid, s.control.bringUp? = some b → b.joined = some ssid → joined = some ssid
  mainOwes : ∀ status, s.main.owes = some status → status.Of joined
  controlOwes : ∀ status, s.control.owes = some status → status.Of joined
  link : ¬ s.main.OwesLink → ¬ s.control.OwesLink → ∀ status ∈ s.link, status.Of joined
  reported : ¬ s.main.OwesReport → ¬ s.control.OwesReport → last.Of joined

namespace Progress

/-- The bring-up that goes on. -/
def bringUp? : Progress → Option BringUp
  | .onward b => some b
  | _ => none

/-- The snapshot to store and to report. -/
def owes : Progress → Option LinkStatus
  | .done status => some status
  | _ => none

/-- A network is associated that is to be stored and reported. -/
def Owes : Progress → Prop
  | .onward b => b.joined.isSome
  | .failed _ => False
  | .done _ => True

end Progress

namespace BringUp

variable {w : Answers} {b b' : BringUp} {link : Option LinkStatus} {joined : Option String}
  {last status : LinkStatus} {other : Option LinkStatus}

-- The equations, ahead of the proofs.
section
attribute [local simp] BringUp.step reportedLast associatedLast BringUp.joined
end

/-- A bring-up reports nothing by itself. -/
theorem reportedLast_step : reportedLast last (b.step w).2 = last := by
  cases b <;> grind [BringUp.step, reportedLast]

/-- A bring-up that goes on is associated with the network associated last. -/
theorem joined_onward (h : b.Fits w link joined last other)
    (hj : ∀ ssid, b.joined = some ssid → joined = some ssid) (hb : (b.step w).1 = .onward b') :
    ∀ ssid, b'.joined = some ssid → associatedLast joined (b.step w).2 = some ssid := by
  intro ssid hs
  have hr := h.reuses
  cases b <;> grind [BringUp.step, BringUp.joined, associatedLast]

/-- A bring-up that is done was associated. -/
theorem named_done (hb : (b.step w).1 = .done status) :
    b.joined.isSome ∧ status.named = b.joined ∧ associatedLast joined (b.step w).2 = joined := by
  cases b <;> grind [BringUp.step, BringUp.joined, associatedLast, onlineStatus, LinkStatus.named]

/-- A bring-up that fails once it is associated drops out. -/
theorem dropsOut_failed {e : String} (hb : (b.step w).1 = .failed e) :
    associatedLast joined (b.step w).2 = joined ∧ (b.joined.isSome → b.DropsOut w) := by
  cases b <;> grind [BringUp.step, BringUp.joined, BringUp.DropsOut, associatedLast]

/-- A bring-up that is not associated after a step was not before, and nothing became
    associated. -/
theorem unjoined_onward (hb : (b.step w).1 = .onward b') (hj : b'.joined = none) :
    b.joined = none ∧ associatedLast joined (b.step w).2 = joined := by
  cases b <;> grind [BringUp.step, BringUp.joined, associatedLast]

/-- While the other agent owes a snapshot, nothing else becomes associated. -/
theorem associatedLast_of_owes (h : b.Fits w link joined last other) (ho : other ≠ none) :
    associatedLast joined (b.step w).2 = joined := by
  have ha := h.alone
  cases b <;> grind [BringUp.step, associatedLast]

/-- What a step of a bring-up leaves of the invariant, of the agent whose bring-up it is. -/
theorem step_owes {L R : Prop} (h : b.Fits w link joined last other)
    (hj : ∀ ssid, b.joined = some ssid → joined = some ssid)
    (hl : ¬ b.joined.isSome → L → ∀ status ∈ link, status.Of joined)
    (hr : ¬ b.joined.isSome → R → last.Of joined) :
    (∀ b' ssid, (b.step w).1.bringUp? = some b' → b'.joined = some ssid →
        associatedLast joined (b.step w).2 = some ssid) ∧
      (∀ status, (b.step w).1.owes = some status →
        status.Of (associatedLast joined (b.step w).2)) ∧
      (¬ (b.step w).1.Owes → L →
        ∀ status ∈ link, status.Of (associatedLast joined (b.step w).2)) ∧
      (¬ (b.step w).1.Owes → R → last.Of (associatedLast joined (b.step w).2)) := by
  cases hs : (b.step w).1 with
  | onward b' =>
    refine ⟨fun b₁ ssid hb₁ => ?_, nofun, fun hn hL => ?_, fun hn hR => ?_⟩
    · cases hb₁
      exact joined_onward h hj hs ssid
    · obtain ⟨hn, hJ⟩ := unjoined_onward hs (by simpa [Progress.Owes] using hn)
      rw [hJ]
      exact hl (by simp [hn]) hL
    · obtain ⟨hn, hJ⟩ := unjoined_onward hs (by simpa [Progress.Owes] using hn)
      rw [hJ]
      exact hr (by simp [hn]) hR
  | failed e =>
    obtain ⟨hJ, hd⟩ := dropsOut_failed hs
    rw [hJ]
    refine ⟨nofun, nofun, fun _ hL => ?_, fun _ hR => ?_⟩
    · by_cases hbj : b.joined.isSome
      · exact (h.drops (hd hbj)).1
      · exact hl hbj hL
    · by_cases hbj : b.joined.isSome
      · exact (h.drops (hd hbj)).2
      · exact hr hbj hR
  | done status =>
    obtain ⟨-, hn, hJ⟩ := named_done hs
    rw [hJ]
    refine ⟨nofun, fun st hst => ?_, fun hn => absurd trivial hn, fun hn => absurd trivial hn⟩
    cases hst
    exact fun n hnn => hj n (hn.symm.trans hnn)

end BringUp

theorem Main.owes_bringUp {m : Main} {b : BringUp} (h : m.bringUp? = some b) :
    (m.OwesLink ↔ b.joined.isSome) ∧ (m.OwesReport ↔ b.joined.isSome) := by
  cases m <;> cases h
  all_goals exact ⟨.rfl, .rfl⟩

theorem Control.owes_bringUp {c : Control} {b : BringUp} (h : c.bringUp? = some b) :
    (c.OwesLink ↔ b.joined.isSome) ∧ (c.OwesReport ↔ b.joined.isSome) ∧ c.Holds := by
  cases c <;> cases h
  exact ⟨.rfl, .rfl, trivial⟩

namespace Tidy

variable {w : Answers} {s s' : State} {joined : Option String} {last : LinkStatus} {new : List Act}

/-- A step of the bring-up of the main thread. -/
theorem main_bringUp {b : BringUp} {m : Main} (h : Tidy s joined last)
    (hm : s.main.bringUp? = some b) (hb : b.Fits w s.link joined last s.control.owes)
    (hboot : m.Booting → s.main.Booting) (hm₁ : m.bringUp? = (b.step w).1.bringUp?)
    (hm₂ : m.owes = (b.step w).1.owes) (hm₃ : m.OwesLink ↔ (b.step w).1.Owes)
    (hm₄ : m.OwesReport ↔ (b.step w).1.Owes) :
    Tidy { s with main := m } (associatedLast joined (b.step w).2)
      (reportedLast last (b.step w).2) := by
  have hc : s.control.bringUp? = none := h.apart.resolve_left (by rw [hm]; simp)
  obtain ⟨howl, howr⟩ := Main.owes_bringUp hm
  obtain ⟨h₁, h₂, h₃, h₄⟩ :=
    BringUp.step_owes hb (h.mainJoined b · hm) (fun hn => h.link (by rwa [howl]))
    fun hn => h.reported (by rwa [howr])
  rw [← hm₁] at h₁
  rw [← hm₂] at h₂
  rw [← hm₃] at h₃
  rw [← hm₄] at h₄
  rw [BringUp.reportedLast_step]
  refine ⟨fun hm' => h.booting (hboot hm'), h.locked, .inr hc, h₁, fun b' ssid hb' => ?_, h₂,
    fun status hst => ?_, h₃, h₄⟩
  · rw [hc] at hb'
    cases hb'
  · rw [BringUp.associatedLast_of_owes hb (by rw [hst]; simp)]
    exact h.controlOwes status hst

/-- A step of the bring-up of the thread of the control socket. -/
theorem control_bringUp {b : BringUp} {c : Control} {l : Bool} (h : Tidy s joined last)
    (hc : s.control.bringUp? = some b) (hb : b.Fits w s.link joined last s.main.owes)
    (hl : l ↔ c.Holds) (hc₁ : c.bringUp? = (b.step w).1.bringUp?)
    (hc₂ : c.owes = (b.step w).1.owes) (hc₃ : c.OwesLink ↔ (b.step w).1.Owes)
    (hc₄ : c.OwesReport ↔ (b.step w).1.Owes) :
    Tidy { s with locked := l, control := c } (associatedLast joined (b.step w).2)
      (reportedLast last (b.step w).2) := by
  have hm : s.main.bringUp? = none := h.apart.resolve_right (by rw [hc]; simp)
  obtain ⟨howl, howr, -⟩ := Control.owes_bringUp hc
  obtain ⟨h₁, h₂, h₃, h₄⟩ := BringUp.step_owes hb (h.controlJoined b · hc)
    (fun hn hL => h.link hL (by rwa [howl])) fun hn hR => h.reported hR (by rwa [howr])
  rw [← hc₁] at h₁
  rw [← hc₂] at h₂
  rw [← hc₃] at h₃
  rw [← hc₄] at h₄
  rw [BringUp.reportedLast_step]
  refine ⟨fun hm' => ?_, hl, .inl hm, fun b' ssid hb' => ?_, h₁, fun status hst => ?_, h₂,
    fun hL hR => h₃ hR hL, fun hL hR => h₄ hR hL⟩
  · rw [h.booting hm'] at hc
    cases hc
  · rw [hm] at hb'
    cases hb'
  · rw [BringUp.associatedLast_of_owes hb (by rw [hst]; simp)]
    exact h.mainOwes status hst

/-- Another step of the main thread. -/
theorem main_apart {m : Main} {link : Option LinkStatus} {ticks : Nat} {last' : LinkStatus}
    (h : Tidy s joined last) (hboot : m.Booting → s.main.Booting)
    (hb : m.bringUp? = none ∨
      ∃ creds force, m.bringUp? = some (.start creds force) ∧ s.control.bringUp? = none)
    (ho : ∀ status, m.owes = some status → status.Of joined)
    (hl : ¬ m.OwesLink → ¬ s.control.OwesLink → ∀ status ∈ link, status.Of joined)
    (hr : ¬ m.OwesReport → ¬ s.control.OwesReport → last'.Of joined) :
    Tidy { s with main := m, link, ticks } joined last' where
  booting hm := h.booting (hboot hm)
  locked := h.locked
  apart := hb.imp_right fun ⟨_, _, _, hc⟩ => hc
  mainJoined b ssid hm hj := by
    rcases hb with hb | ⟨_, _, hb, -⟩
    · rw [hb] at hm
      cases hm
    · rw [hb] at hm
      cases hm
      cases hj
  controlJoined := h.controlJoined
  mainOwes := ho
  controlOwes := h.controlOwes
  link := hl
  reported := hr

/-- The thread of the control socket is started. -/
theorem serve (h : Tidy s joined last) (hm : s.main = .bootServe) :
    Tidy { s with control := .listen, main := .sleep } joined last := by
  have hc : s.control = .unborn := h.booting (by rw [hm]; trivial)
  have hn : (¬ s.main.OwesLink ∧ ¬ s.main.OwesReport) ∧
      ¬ s.control.OwesLink ∧ ¬ s.control.OwesReport := by
    rw [hm, hc]
    exact ⟨⟨id, id⟩, id, id⟩
  have hl := h.locked
  rw [hc] at hl
  exact ⟨nofun, hl, .inl rfl, nofun, nofun, nofun, nofun, fun _ _ => h.link hn.1.1 hn.2.1,
    fun _ _ => h.reported hn.1.2 hn.2.2⟩

/-- The lock is free, so the thread of the control socket is not bringing the link up. -/
theorem of_unlocked (h : Tidy s joined last) (hl : s.locked = false) : ¬ s.control.OwesLink := by
  have hh : ¬ s.control.Holds := fun hh => by
    rw [← h.locked, hl] at hh
    cases hh
  cases hc : s.control <;> rw [hc] at hh <;> first | exact id | exact absurd trivial hh

theorem main (h : Tidy s joined last)
    (ha : s.main = .lookUp → (∃ creds, chooseCreds w = .ok creds) → s.control.bringUp? = none)
    (hb : ∀ b, s.main.bringUp? = some b → b.Fits w s.link joined last s.control.owes)
    (hs : s.mainStep w = some (s', new)) :
    Tidy s' (associatedLast joined new) (reportedLast last new) := by
  unfold State.mainStep at hs
  cases hm : s.main with
  | bootBringUp b | bringUp b =>
    have hmb : s.main.bringUp? = some b := by rw [hm]; rfl
    simp only [hm] at hs
    rcases hp : b.step w with ⟨p, as⟩
    have hp₁ : (b.step w).1 = p := by rw [hp]
    have hp₂ : as = (b.step w).2 := by rw [hp]
    rw [hp] at hs
    cases p <;> (obtain ⟨rfl, rfl⟩ := Prod.mk.inj (Option.some.inj hs)) <;> rw [hp₂] <;>
      exact h.main_bringUp hmb (hb b hmb) (by rw [hm]; exact id) (by rw [hp₁]; rfl)
        (by rw [hp₁]; rfl) (by rw [hp₁]; exact .rfl) (by rw [hp₁]; exact .rfl)
  | bootLookUp =>
    have hc : s.control = .unborn := h.booting (by rw [hm]; trivial)
    have hn : ¬ s.main.OwesLink ∧ ¬ s.main.OwesReport := by rw [hm]; exact ⟨id, id⟩
    simp only [hm] at hs
    split at hs
    · obtain ⟨rfl, rfl⟩ := Prod.mk.inj (Option.some.inj hs)
      exact h.main_apart (by rw [hm]; exact id) (.inr ⟨_, _, rfl, by rw [hc]; rfl⟩) nofun
        (fun _ => h.link hn.1) fun _ => h.reported hn.2
    · obtain ⟨rfl, rfl⟩ := Prod.mk.inj (Option.some.inj hs)
      exact h.main_apart (by rw [hm]; exact id) (.inl rfl) nofun
        (fun _ => h.link hn.1) fun _ => h.reported hn.2
  | lookUp =>
    have hn : ¬ s.main.OwesLink ∧ ¬ s.main.OwesReport := by rw [hm]; exact ⟨id, id⟩
    simp only [hm] at hs
    split at hs
    · next creds hcr =>
      obtain ⟨rfl, rfl⟩ := Prod.mk.inj (Option.some.inj hs)
      exact h.main_apart nofun (.inr ⟨_, _, rfl, ha hm ⟨creds, hcr⟩⟩) nofun
        (fun _ => h.link hn.1) fun _ => h.reported hn.2
    · obtain ⟨rfl, rfl⟩ := Prod.mk.inj (Option.some.inj hs)
      exact h.main_apart nofun (.inl rfl) nofun (fun _ => h.link hn.1) fun _ => h.reported hn.2
  | bootReport first =>
    simp only [hm] at hs
    cases first with
    | none =>
      obtain ⟨rfl, rfl⟩ := Prod.mk.inj (Option.some.inj hs)
      have hn : ¬ s.main.OwesLink := by rw [hm]; exact id
      exact h.main_apart (by rw [hm]; exact id) (.inl rfl) nofun (fun _ => h.link hn)
        fun _ _ => LinkStatus.of_offline
    | some status =>
      obtain ⟨rfl, rfl⟩ := Prod.mk.inj (Option.some.inj hs)
      have hst : status.Of joined := h.mainOwes status (by rw [hm]; rfl)
      refine h.main_apart (by rw [hm]; exact id) (.inl rfl) (fun st hst' => ?_)
        (fun hn => absurd trivial hn) fun _ _ => hst
      cases hst'
      exact hst
  | bootStore status =>
    simp only [hm] at hs
    split at hs
    · cases hs
    · obtain ⟨rfl, rfl⟩ := Prod.mk.inj (Option.some.inj hs)
      have hn : ¬ s.main.OwesReport := by rw [hm]; exact id
      refine h.main_apart (by rw [hm]; exact id) (.inl rfl) nofun (fun _ _ st hst => ?_)
        fun _ => h.reported hn
      cases hst
      exact h.mainOwes status (by rw [hm]; rfl)
  | bootServe =>
    simp only [hm] at hs
    obtain ⟨rfl, rfl⟩ := Prod.mk.inj (Option.some.inj hs)
    exact h.serve hm
  | store status =>
    simp only [hm] at hs
    split at hs
    · cases hs
    · obtain ⟨rfl, rfl⟩ := Prod.mk.inj (Option.some.inj hs)
      have hst : status.Of joined := h.mainOwes status (by rw [hm]; rfl)
      refine h.main_apart nofun (.inl rfl) (fun st hst' => ?_) (fun _ _ st hst' => ?_)
        fun hn => absurd trivial hn
      · cases hst'
        exact hst
      · cases hst'
        exact hst
  | report status | announce status =>
    have hn : ¬ s.main.OwesLink := by rw [hm]; exact id
    simp only [hm] at hs
    obtain ⟨rfl, rfl⟩ := Prod.mk.inj (Option.some.inj hs)
    exact h.main_apart nofun (.inl rfl) nofun (fun _ => h.link hn)
      fun _ _ => h.mainOwes status (by rw [hm]; rfl)
  | offline =>
    have hn : ¬ s.main.OwesLink := by rw [hm]; exact id
    simp only [hm] at hs
    obtain ⟨rfl, rfl⟩ := Prod.mk.inj (Option.some.inj hs)
    exact h.main_apart nofun (.inl rfl) nofun (fun _ => h.link hn) fun _ _ => LinkStatus.of_offline
  | reannounce =>
    have hn : ¬ s.main.OwesLink ∧ ¬ s.main.OwesReport := by rw [hm]; exact ⟨id, id⟩
    simp only [hm] at hs
    split at hs
    · cases hs
    · next hl =>
      obtain ⟨rfl, rfl⟩ := Prod.mk.inj (Option.some.inj hs)
      -- what is read under the lock is of the network associated last
      have hlink := h.link hn.1 (h.of_unlocked (by simpa using hl))
      refine h.main_apart nofun (.inl rfl) (fun st hst => ?_) (fun _ _ => hlink)
        fun _ => h.reported hn.2
      cases hst
      cases hlk : s.link with
      | none => exact LinkStatus.of_offline
      | some st => exact hlink st hlk
  | sleep =>
    have hn : ¬ s.main.OwesLink ∧ ¬ s.main.OwesReport := by rw [hm]; exact ⟨id, id⟩
    simp only [hm] at hs
    obtain ⟨rfl, rfl⟩ := Prod.mk.inj (Option.some.inj hs)
    exact h.main_apart nofun (.inl rfl) nofun (fun _ => h.link hn.1) fun _ => h.reported hn.2
  | check =>
    have hn : ¬ s.main.OwesLink ∧ ¬ s.main.OwesReport := by rw [hm]; exact ⟨id, id⟩
    simp only [hm] at hs
    split at hs
    · cases hs
    · obtain ⟨rfl, rfl⟩ := Prod.mk.inj (Option.some.inj hs)
      split
      all_goals
        exact h.main_apart nofun (.inl rfl) nofun (fun _ => h.link hn.1) fun _ => h.reported hn.2
  | carrier =>
    have hn : ¬ s.main.OwesLink ∧ ¬ s.main.OwesReport := by rw [hm]; exact ⟨id, id⟩
    simp only [hm] at hs
    obtain ⟨rfl, rfl⟩ := Prod.mk.inj (Option.some.inj hs)
    split
    · exact h.main_apart nofun (.inl rfl) nofun (fun _ => h.link hn.1) fun _ => h.reported hn.2
    · split
      all_goals
        exact h.main_apart nofun (.inl rfl) nofun (fun _ => h.link hn.1) fun _ => h.reported hn.2

/-- A step of the thread of the control socket that is none of a bring-up. -/
theorem control_apart {c : Control} (h : Tidy s joined last) (hboot : s.control ≠ .unborn)
    (hh : c.Holds ↔ s.control.Holds) (hb : c.bringUp? = none) (ho : c.owes = none)
    (hl : ¬ s.control.OwesLink) (hr : ¬ s.control.OwesReport) :
    Tidy { s with control := c } joined last where
  booting hm := absurd (h.booting hm) hboot
  locked := h.locked.trans hh.symm
  apart := .inr hb
  mainJoined := h.mainJoined
  controlJoined b ssid hc := by
    rw [hb] at hc
    cases hc
  mainOwes := h.mainOwes
  controlOwes st hst := by
    rw [ho] at hst
    cases hst
  link hm _ := h.link hm hl
  reported hm _ := h.reported hm hr

theorem receive (h : Tidy s joined last) (hc : s.control = .listen) (request : Request) :
    Tidy (s.receive w request).1 (associatedLast joined (s.receive w request).2)
      (reportedLast last (s.receive w request).2) := by
  have ha (c : Control) (hb : c.bringUp? = none) (ho : c.owes = none) (hh : ¬ c.Holds) :
      Tidy { s with control := c } joined last :=
    h.control_apart (by rw [hc]; nofun) (by rw [hc]; exact iff_of_false hh id) hb ho
      (by rw [hc]; exact id) (by rw [hc]; exact id)
  cases request with
  | connect creds =>
    cases creds with
    | ok creds => exact ha _ rfl rfl id
    | error e => exact h
  | setEnabled on => exact ha _ rfl rfl id
  | _ => exact h

theorem control (h : Tidy s joined last)
    (ha : ∀ creds, s.control = .lock creds → s.main.bringUp? = none)
    (hb : ∀ b, s.control.bringUp? = some b → b.Fits w s.link joined last s.main.owes)
    (hs : s.controlStep w = some (s', new)) :
    Tidy s' (associatedLast joined new) (reportedLast last new) := by
  unfold State.controlStep at hs
  cases hc : s.control with
  | unborn | listen =>
    simp only [hc] at hs
    cases hs
  | lock creds =>
    simp only [hc] at hs
    split at hs
    · cases hs
    · obtain ⟨rfl, rfl⟩ := Prod.mk.inj (Option.some.inj hs)
      have hn : ¬ s.control.OwesLink ∧ ¬ s.control.OwesReport := by rw [hc]; exact ⟨id, id⟩
      have hm : s.main.bringUp? = none := ha creds hc
      refine ⟨fun hm' => ?_, iff_of_true rfl trivial, .inl hm, h.mainJoined,
        fun b ssid hb' hj => ?_,
        h.mainOwes, nofun, fun hl _ => h.link hl hn.1, fun hr _ => h.reported hr hn.2⟩
      · have := h.booting hm'
        rw [hc] at this
        cases this
      · cases hb'
        cases hj
  | connect ssid b =>
    have hcb : s.control.bringUp? = some b := by rw [hc]; rfl
    simp only [hc] at hs
    rcases hp : b.step w with ⟨p, as⟩
    have hp₁ : (b.step w).1 = p := by rw [hp]
    have hp₂ : as = (b.step w).2 := by rw [hp]
    rw [hp] at hs
    cases p with
    | onward b' =>
      obtain ⟨rfl, rfl⟩ := Prod.mk.inj (Option.some.inj hs)
      rw [hp₂]
      exact h.control_bringUp hcb (hb b hcb) (h.locked.trans (by rw [hc]; exact .rfl))
        (by rw [hp₁]; rfl) (by rw [hp₁]; rfl) (by rw [hp₁]; exact .rfl) (by rw [hp₁]; exact .rfl)
    | failed e =>
      obtain ⟨rfl, rfl⟩ := Prod.mk.inj (Option.some.inj hs)
      rw [hp₂, associatedLast_append, reportedLast_append]
      exact h.control_bringUp hcb (hb b hcb) (iff_of_false nofun id)
        (by rw [hp₁]; rfl) (by rw [hp₁]; rfl) (by rw [hp₁]; exact .rfl) (by rw [hp₁]; exact .rfl)
    | done status =>
      obtain ⟨rfl, rfl⟩ := Prod.mk.inj (Option.some.inj hs)
      rw [hp₂]
      exact h.control_bringUp hcb (hb b hcb) (h.locked.trans (by rw [hc]; exact .rfl))
        (by rw [hp₁]; rfl) (by rw [hp₁]; rfl) (by rw [hp₁]; exact .rfl) (by rw [hp₁]; exact .rfl)
  | swap ssid status =>
    simp only [hc] at hs
    obtain ⟨rfl, rfl⟩ := Prod.mk.inj (Option.some.inj hs)
    have hst : status.Of joined := h.controlOwes status (by rw [hc]; rfl)
    have hboot : ¬ s.main.Booting := fun hm => by
      have := h.booting hm
      rw [hc] at this
      cases this
    refine ⟨fun hm => absurd hm hboot, iff_of_false nofun id, .inr rfl, h.mainJoined, nofun,
      h.mainOwes, fun st hst' => ?_, fun _ _ st hst' => ?_, fun _ hr => absurd trivial hr⟩
    · cases hst'
      exact hst
    · cases hst'
      exact hst
  | report ssid status =>
    simp only [hc] at hs
    obtain ⟨rfl, rfl⟩ := Prod.mk.inj (Option.some.inj hs)
    have hst : status.Of joined := h.controlOwes status (by rw [hc]; rfl)
    have hn : ¬ s.control.OwesLink := by rw [hc]; exact id
    have hboot : ¬ s.main.Booting := fun hm => by
      have := h.booting hm
      rw [hc] at this
      cases this
    exact ⟨fun hm => absurd hm hboot, h.locked.trans (by rw [hc]; exact .rfl), .inr rfl,
      h.mainJoined, nofun, h.mainOwes, nofun, fun hl _ => h.link hl hn, fun _ _ => hst⟩
  | setEnabled on =>
    have hd : Tidy { s with control := .listen } joined last :=
      h.control_apart (by rw [hc]; nofun) (by rw [hc]; exact .rfl) rfl rfl (by rw [hc]; exact id)
        (by rw [hc]; exact id)
    simp only [hc] at hs
    split at hs
    · obtain ⟨rfl, rfl⟩ := Prod.mk.inj (Option.some.inj hs)
      cases on <;> exact hd
    · obtain ⟨rfl, rfl⟩ := Prod.mk.inj (Option.some.inj hs)
      exact hd

end Tidy

/-- A network that gives an address. -/
def network (auto : Option WifiCreds) (ip : Ipv4) : Answers :=
  { auto, lease := .ok ⟨ip, some ⟨10, 0, 0, 1⟩, []⟩ }

end NetDaemon

end Wandr