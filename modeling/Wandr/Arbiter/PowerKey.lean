import Wandr.Arbiter.Wakes

/-!
# The POWER key

Every host sees the presses of the POWER key and forwards them, so that one press
reaches the daemon several times. The daemon keeps the press it is timing in a slot:
the first `power-down` fills it, and the first `power-up`, or else the hold timer,
empties it and acts.

* `Daemon.step_key`: a message or the timer changes the slot, and acts at most once;
* `Daemon.one_action_iff`: however the messages of the hosts interleave, one press is
  acted on once, and as it should, exactly when no `power-down` comes after the slot
  was emptied;
* `Daemon.panel_toggled_twice` is an interleaving of two hosts where one does.
-/

namespace Wandr

/-- What happens to the POWER key: a host forwards a press or a release, or the hold
    timer of a press is due. -/
inductive KeyEvent
  | down (host : Nat)
  | up (host : Nat)
  | timer (gen : Nat)
  deriving DecidableEq

/-- What a press comes to: the panel is toggled, or the power menu opens. -/
inductive KeyAction
  | toggle
  | menu
  deriving DecidableEq

namespace KeyEvent

/-- The input of the daemon. The messages do not say which host they are from. -/
def input : KeyEvent → Daemon.Input
  | .down _ => .client (.legacy .powerDown "")
  | .up _ => .client (.legacy .powerUp "")
  | .timer gen => .holdTimer gen

/-- A message of the host. -/
def sentBy (host : Nat) : KeyEvent → Bool
  | .down h | .up h => h = host
  | .timer _ => false

/-- A message of some host. -/
def isMessage : KeyEvent → Bool
  | .timer _ => false
  | _ => true

def isDown : KeyEvent → Bool
  | .down _ => true
  | _ => false

/-- What ends a press: a release, or the hold timer. -/
def ends (e : KeyEvent) : Bool := !e.isDown

end KeyEvent

namespace Daemon

variable [Fpu]

/-- Do what a press comes to. -/
def act (w : World) (a : KeyAction) (d : Daemon) : Daemon :=
  match a with
  | .toggle => (run w (.power .powerKey) "" d).1
  | .menu => showPowerMenu w d

/-- What the daemon does at a message or at the timer of a press. -/
def keyAction (w : World) (d : Daemon) : KeyEvent → Option KeyAction
  | .down _ => none
  | .up _ => d.powerPending.map fun p =>
    if millis 1000 ≤ w.clock.elapsed p.2 then .menu else .toggle
  | .timer gen => (d.powerPending.filter fun p => p.1 = gen).map fun _ => .menu

/-- The slot and the count of presses after a message or the timer. -/
def keySlot (w : World) (d : Daemon) : KeyEvent → Option (Nat × Nat) × Nat
  | .down _ =>
    if (d.powerPending.filter fun p => w.clock.elapsed p.2 ≤ millis 2000).isSome then
      (d.powerPending, d.powerGen)
    else
      let gen := (d.powerGen + 1) % 2 ^ 64
      (some (gen, w.clock.mono), gen)
  | .up _ => (none, d.powerGen)
  | .timer gen => (d.powerPending.filter fun p => p.1 ≠ gen, d.powerGen)

/-- A step of the key changes the slot, then acts at most once. -/
theorem step_key {w : World} {d : Daemon} (e : KeyEvent) : step w e.input d =
    (d.keyAction w e).elim id (act w)
      { d with powerPending := (d.keySlot w e).1, powerGen := (d.keySlot w e).2 } := by
  obtain ⟨a, trace, zygote, pending, g₀, reboots⟩ := d
  cases e with
  | down h =>
    have hs (d : Daemon) : step w (KeyEvent.input (.down h)) d = (cmdPowerDown w d).1 := rfl
    rw [hs, cmdPowerDown, keySlot, keyAction]
    split
    · next hf => simp [hf]
    · next hf => simp [hf]
  | up h =>
    have hs (d : Daemon) : step w (KeyEvent.input (.up h)) d = (cmdPowerUp w d).1 := rfl
    rw [hs, cmdPowerUp, keySlot, keyAction]
    rcases pending with _ | ⟨g, t⟩
    · rfl
    · rw [Option.map_some, Option.elim_some]
      dsimp only
      split <;> rfl
  | timer gen =>
    have hs (d : Daemon) : step w (KeyEvent.input (.timer gen)) d = holdTimer w gen d := rfl
    rw [hs, holdTimer, keySlot, keyAction]
    rcases pending with _ | ⟨g, t⟩
    · rfl
    · by_cases hg : g = gen <;> simp [hg, act, Option.filter]

theorem act_slot {w : World} {a : KeyAction} {d : Daemon} :
    (act w a d).powerPending = d.powerPending ∧ (act w a d).powerGen = d.powerGen := by
  let J (d' : Daemon) (_ : List Effect) : Prop :=
    d'.powerPending = d.powerPending ∧ d'.powerGen = d.powerGen
  have hu : Upkeep w J := by
    refine ⟨fun _ h => h, fun {d' a k q} h => ?_, fun h => h, fun _ h => h⟩
    rcases hz : (d'.perform (.launch a k)).zygote with _ | ⟨_ | pid, rest⟩
    · rwa [launchEffect_nil hz]
    · rwa [launchEffect_error hz]
    · rwa [launchEffect_ok hz]
  have hr (verb : Verb) (args : String) {d' : Daemon} (h : J d' []) :
      J (run w verb args d').1 [] := by
    have hm : J (d'.runModule w verb args).1 (d'.runModule w verb args).2.1 := h
    exact hu.executeEffects hm
  cases a with
  | toggle => exact hr _ _ ⟨rfl, rfl⟩
  | menu => exact hr _ _ (hr _ _ ⟨rfl, rfl⟩)

/-- A step of the key moves the slot as it does, whatever it does besides. -/
theorem step_slot {w : World} {d : Daemon} (e : KeyEvent) :
    (step w e.input d).powerPending = (d.keySlot w e).1 := by
  rw [step_key]
  cases d.keyAction w e with
  | none => rfl
  | some a => exact act_slot.1

/-! ## One press -/

/-- What the daemon does in the course of a schedule. -/
def keyActions : Daemon → List (World × KeyEvent) → List KeyAction
  | _, [] => []
  | d, (w, e) :: es => (d.keyAction w e).toList ++ keyActions (step w e.input d) es

/-- The hold timer of a press is due a second after it, and fires then if the press is
    not over: nothing is handled later than that, and in the end every press is over. -/
def Timely : Daemon → List (World × KeyEvent) → Prop
  | d, [] => d.powerPending = none
  | d, (w, e) :: es =>
    (∀ p ∈ d.powerPending, w.clock.mono ≤ p.2 + millis 1000) ∧
    (∀ gen, e = .timer gen →
      ∃ t, d.powerPending = some (gen, t) ∧ w.clock.mono = t + millis 1000) ∧
    Timely (step w e.input d) es

/-- One press that `n` hosts forward: each sends a press and then a release, and the
    messages are handled in any order that keeps the order of each host. -/
structure Press (n : Nat) (d : Daemon) (es : List (World × KeyEvent)) : Prop where
  idle : d.powerPending = none
  hosts : ∀ i, (es.map Prod.snd).filter (KeyEvent.sentBy i) =
    if i < n then [.down i, .up i] else []
  sorted : es.Pairwise fun x y => x.1.clock.mono ≤ y.1.clock.mono
  timely : Timely d es

/-- All messages arrive within a second of the first. -/
def Brief (es : List (World × KeyEvent)) : Prop :=
  ∀ x ∈ es, ∀ y ∈ es, x.2.isMessage → y.2.isMessage →
    y.1.clock.mono < x.1.clock.mono + millis 1000

/-- No press is handled after a release or after the hold timer fired. -/
def DownsFirst (es : List (World × KeyEvent)) : Prop :=
  es.Pairwise fun x y => x.2.ends → ¬ y.2.isDown

variable {n : Nat} {w : World} {d : Daemon} {es : List (World × KeyEvent)}

/-- A press that is timed ends once. The presses before that are repetitions of it. -/
theorem keyActions_pending {gen t : Nat} (h : d.powerPending = some (gen, t))
    (ht : Timely d es) : ∃ ds x rest d', es = ds ++ x :: rest ∧ (∀ y ∈ ds, y.2.isDown) ∧
      x.2.ends ∧ d'.powerPending = none ∧ Timely d' rest ∧ x.1.clock.mono ≤ t + millis 1000 ∧
      (∀ g, x.2 = .timer g → x.1.clock.mono = t + millis 1000) ∧
      keyActions d es = (if millis 1000 ≤ x.1.clock.elapsed t then .menu else .toggle) ::
        keyActions d' rest := by
  induction es generalizing d with
  | nil =>
    rw [Timely, h] at ht
    cases ht
  | cons x es ih =>
    obtain ⟨w, e⟩ := x
    obtain ⟨hle, hg, ht⟩ := ht
    have hle : w.clock.mono ≤ t + millis 1000 := hle _ h
    have hslot := step_slot (w := w) (d := d) e
    cases e with
    | down i =>
      have hdup : w.clock.elapsed t ≤ millis 2000 := by
        simp only [Clock.elapsed, millis] at hle ⊢
        omega
      have hp : (step w (KeyEvent.input (.down i)) d).powerPending = some (gen, t) := by
        rw [hslot, keySlot, h]
        simp [Option.filter, hdup]
      obtain ⟨ds, x, rest, d', rfl, hds, hx, hi, ht', hm, hgx, ha⟩ := ih hp ht
      refine ⟨(w, .down i) :: ds, x, rest, d', rfl, ?_, hx, hi, ht', hm, hgx, ha⟩
      intro y hy
      rcases List.mem_cons.mp hy with rfl | hy
      · rfl
      · exact hds y hy
    | up i =>
      refine ⟨[], (w, .up i), es, _, rfl, by simp, rfl, hslot, ht, hle, by simp, ?_⟩
      simp [keyActions, keyAction, h]
    | timer g =>
      obtain ⟨t', hp, hm⟩ := hg g rfl
      rw [h] at hp
      obtain ⟨rfl, rfl⟩ : gen = g ∧ t = t' := by simpa using hp
      refine ⟨[], (w, .timer gen), es, _, rfl, by simp, rfl, ?_, ht, hle, fun _ _ => hm, ?_⟩
      · rw [hslot, keySlot, h]
        simp [Option.filter]
      · have hel : millis 1000 ≤ w.clock.elapsed t := by
          simp only [Clock.elapsed] at hm ⊢
          omega
        simp [keyActions, keyAction, h, hel, Option.filter]

/-- A press fills the slot that is empty. -/
theorem step_down {i : Nat} (h : d.powerPending = none) :
    (step w (KeyEvent.input (.down i)) d).powerPending =
      some ((d.powerGen + 1) % 2 ^ 64, w.clock.mono) := by
  rw [step_slot, keySlot, h]
  rfl

/-- While no press is timed, only a press counts. -/
theorem keyActions_eq_nil_iff (h : d.powerPending = none) (ht : Timely d es) :
    keyActions d es = [] ↔ ∀ x ∈ es, ¬ x.2.isDown := by
  induction es generalizing d with
  | nil => simp [keyActions]
  | cons x es ih =>
    obtain ⟨w, e⟩ := x
    obtain ⟨-, hg, ht⟩ := ht
    rw [List.forall_mem_cons]
    cases e with
    | down i =>
      obtain ⟨_, _, _, _, _, _, _, _, _, _, _, ha⟩ := keyActions_pending (step_down h) ht
      simp [keyActions, keyAction, ha, KeyEvent.isDown]
    | up i =>
      have hp : (step w (KeyEvent.input (.up i)) d).powerPending = none := step_slot (.up i)
      simp [keyActions, keyAction, h, ih hp ht, KeyEvent.isDown]
    | timer gen =>
      obtain ⟨t, hp, -⟩ := hg gen rfl
      rw [h] at hp
      cases hp

omit [Fpu] in
theorem downsFirst_iff {x : World × KeyEvent} {ds rest : List (World × KeyEvent)}
    (hds : ∀ y ∈ ds, y.2.isDown) (hx : x.2.ends) :
    DownsFirst (ds ++ x :: rest) ↔ ∀ y ∈ rest, ¬ y.2.isDown := by
  have hend {y : World × KeyEvent} (hy : y ∈ ds) : ¬ y.2.ends := by
    simp [KeyEvent.ends, hds y hy]
  rw [DownsFirst, List.pairwise_append, List.pairwise_cons]
  constructor
  · rintro ⟨-, ⟨h, -⟩, -⟩ y hy
    exact h y hy hx
  · intro h
    refine ⟨List.pairwise_of_forall_mem_list fun a ha _ _ he => absurd he (hend ha),
      ⟨fun y hy _ => h y hy, List.pairwise_of_forall_mem_list fun _ _ b hb _ => h b hb⟩,
      fun a ha _ _ he => absurd he (hend ha)⟩

namespace Press

/-- The first thing that happens is a press. -/
theorem head (hn : 0 < n) (h : Press n d es) : ∃ w i rest, es = (w, .down i) :: rest := by
  rcases es with _ | ⟨⟨w, e⟩, es⟩
  · have h₀ := h.hosts 0
    rw [if_pos hn] at h₀
    cases h₀
  · cases e with
    | down i => exact ⟨w, i, es, rfl⟩
    | up i =>
      have hi := h.hosts i
      rw [List.map_cons, List.filter_cons_of_pos (by simp [KeyEvent.sentBy])] at hi
      split at hi <;> simp at hi
    | timer gen =>
      obtain ⟨t, hp, -⟩ := h.timely.2.1 gen rfl
      rw [h.idle] at hp
      cases hp

/-- Some host forwards the release. -/
theorem up_mem (hn : 0 < n) (h : Press n d es) : ∃ w, (w, KeyEvent.up 0) ∈ es := by
  have h₀ := h.hosts 0
  rw [if_pos hn] at h₀
  have hm : KeyEvent.up 0 ∈ (es.map Prod.snd).filter (KeyEvent.sentBy 0) := by
    rw [h₀]
    simp
  obtain ⟨⟨w, e⟩, hx, rfl⟩ := List.mem_map.mp (List.mem_filter.mp hm).1
  exact ⟨w, hx⟩

end Press

/-- However the messages of the hosts interleave, the press is acted on once, and the
    panel is toggled when all of them arrive within a second of the first, exactly when
    no press is handled after a release or after the hold timer fired. -/
theorem one_action_iff (hn : 0 < n) (h : Press n d es) :
    ((keyActions d es).length = 1 ∧ (Brief es → keyActions d es = [.toggle])) ↔
      DownsFirst es := by
  obtain ⟨w, i, es, rfl⟩ := h.head hn
  obtain ⟨ds, x, rest, d', rfl, hds, hx, hidle, ht, hle, hg, ha⟩ :=
    keyActions_pending (step_down h.idle) h.timely.2.2
  have hds' : ∀ y ∈ (w, KeyEvent.down i) :: ds, y.2.isDown := by
    intro y hy
    rcases List.mem_cons.mp hy with rfl | hy
    · rfl
    · exact hds y hy
  have hactions : keyActions d ((w, .down i) :: (ds ++ x :: rest)) =
      (if millis 1000 ≤ x.1.clock.elapsed w.clock.mono then .menu else .toggle) ::
        keyActions d' rest := ha
  have hfirst : DownsFirst ((w, .down i) :: (ds ++ x :: rest)) ↔ ∀ y ∈ rest, ¬ y.2.isDown :=
    downsFirst_iff hds' hx
  rw [hfirst, ← keyActions_eq_nil_iff hidle ht, hactions]
  constructor
  · rintro ⟨hlen, -⟩
    simpa using hlen
  · intro hnil
    refine ⟨by simp [hnil], fun hb => ?_⟩
    have hbrief {y : World × KeyEvent} (hy : y ∈ (w, .down i) :: (ds ++ x :: rest))
        (hm : y.2.isMessage) : y.1.clock.mono < w.clock.mono + millis 1000 :=
      hb _ List.mem_cons_self _ hy rfl hm
    have hshort : ¬ millis 1000 ≤ x.1.clock.elapsed w.clock.mono := by
      obtain ⟨v, e⟩ := x
      cases e with
      | down => cases hx
      | up k =>
        have hlt : v.clock.mono < w.clock.mono + millis 1000 :=
          hbrief (y := (v, .up k)) (by simp) rfl
        have hpos : 0 < millis 1000 := by decide
        dsimp only [Clock.elapsed]
        omega
      | timer g =>
        -- the timer fires a second after the first press, and the release comes later still
        exfalso
        have htime : v.clock.mono = w.clock.mono + millis 1000 := hg g rfl
        obtain ⟨u, hu⟩ := h.up_mem hn
        have hrest : (u, KeyEvent.up 0) ∈ rest := by
          have hnot : (u, KeyEvent.up 0) ∉ (w, KeyEvent.down i) :: ds := fun hm => by
            cases hds' _ hm
          rw [← List.cons_append] at hu
          rcases List.mem_append.mp hu with hu | hu
          · exact absurd hu hnot
          · rcases List.mem_cons.mp hu with hu | hu
            · cases hu
            · exact hu
        have hsorted := (List.pairwise_append.mp (List.pairwise_cons.mp h.sorted).2).2.1
        have hlate : v.clock.mono ≤ u.clock.mono := (List.pairwise_cons.mp hsorted).1 _ hrest
        have hearly : u.clock.mono < w.clock.mono + millis 1000 := hbrief hu rfl
        omega
    rw [hnil, if_neg hshort]

end Daemon

section

attribute [local instance] Fpu.comparator

namespace Daemon

/-- The messages of two hosts, the second later than the first. -/
def oneAfterTheOther : List (World × KeyEvent) :=
  [(still, .down 0), (still, .up 0), (still, .down 1), (still, .up 1)]

/-- The messages of two hosts, both presses before both releases. -/
def together : List (World × KeyEvent) :=
  [(still, .down 0), (still, .down 1), (still, .up 0), (still, .up 1)]

/-- Messages that are all handled at once, and leave no press behind, are timely. -/
theorem timely_still {es : List (World × KeyEvent)} {d : Daemon}
    (hs : ∀ x ∈ es, x.1 = still ∧ x.2.isMessage)
    (he : (es.foldl (fun d x => step x.1 x.2.input d) d).powerPending = none) : Timely d es := by
  induction es generalizing d with
  | nil => exact he
  | cons x es ih =>
    obtain ⟨w, e⟩ := x
    obtain ⟨rfl, hm⟩ := hs _ List.mem_cons_self
    refine ⟨fun p _ => Nat.zero_le _, ?_, ih (fun y hy => hs y (List.mem_cons_of_mem _ hy)) he⟩
    rintro gen rfl
    cases hm

theorem press_still {es : List (World × KeyEvent)} {d : Daemon} (hi : d.powerPending = none)
    (h : ∀ i, (es.map Prod.snd).filter (KeyEvent.sentBy i) =
      if i < 2 then [.down i, .up i] else [])
    (hs : ∀ x ∈ es, x.1 = still ∧ x.2.isMessage)
    (he : (es.foldl (fun d x => step x.1 x.2.input d) d).powerPending = none) : Press 2 d es where
  idle := hi
  hosts := h
  sorted := List.pairwise_of_forall_mem_list fun x hx y hy => by rw [(hs x hx).1, (hs y hy).1]
  timely := timely_still hs he

/-- Two hosts whose presses come before their releases: the panel is toggled once. -/
theorem one_action_iff_together : (keyActions (boot still {}) together).length = 1 ∧
    (Brief together → keyActions (boot still {}) together = [.toggle]) := by
  have h : Press 2 (boot still {}) together := by
    refine press_still (by decide) (fun i => ?_) (by simp [together, KeyEvent.isMessage])
      (by decide)
    match i with
    | 0 | 1 => rfl
    | i + 2 => simp [together, KeyEvent.sentBy]
  refine (one_action_iff (by decide) h).mpr ?_
  simp [DownsFirst, together, KeyEvent.ends, KeyEvent.isDown]

/-- Two hosts, the second after the first: the panel is toggled, and toggled back. -/
theorem panel_toggled_twice : ∃ d es, Reachable d ∧ Press 2 d es ∧ Brief es ∧
    keyActions d es = [.toggle, .toggle] ∧
      (es.foldl (fun d x => step x.1 x.2.input d) d).arbiter.mods.power.panelOn =
        d.arbiter.mods.power.panelOn := by
  refine ⟨boot still {}, oneAfterTheOther, .boot _ _, ?_, ?_, by decide, by decide⟩
  · refine press_still (by decide) (fun i => ?_)
      (by simp [oneAfterTheOther, KeyEvent.isMessage]) (by decide)
    match i with
    | 0 | 1 => rfl
    | i + 2 => simp [oneAfterTheOther, KeyEvent.sentBy]
  · simp [Brief, oneAfterTheOther, still, millis]

end Daemon

end

end Wandr
