import Wandr.Arbiter.Cleanup
import Wandr.Arbiter.Runs
import Wandr.Lib.Trace

/-!
# Cadences

While the device dozes, the power module tells each running app the cadence of its
class. It does so when the doze starts and when it ends, and in between when a call
starts or ends; the class that an app reports and the apps that start meanwhile it
leaves at that.

* `PowerModule.onEvent_suits` and `PowerModule.onCommand_suits`: what the module tells
  one process;
* `Arbiter.cadences_coherent`: in every run whose reports and registrations need no
  word to a host, the last cadence delivered to each host is the one of its class;
* `Arbiter.cadence_stale` is a run that does need one.
-/

namespace Wandr

/-- What an effect tells a process of its cadence. -/
def Effect.dozed (p : Pid) : Effect → Option Nat
  | .hostLine q (.doze n) => if q = p then some n else none
  | _ => none

section

variable {p : Pid} {l : Option Nat} {fx gx : List Effect}

end

namespace PowerModule

open Text

/-- A process was last delivered what it should hear of its cadence: that of its class
    while the device dozes, and none or zero while it does not. -/
def Suits (m : PowerModule) (p : Pid) (l : Option Nat) : Prop :=
  if m.dozing then l = some (m.cadenceFor p) else ∀ n ∈ l, n = 0

instance {m : PowerModule} {p : Pid} {l : Option Nat} : Decidable (m.Suits p l) := by
  unfold Suits
  infer_instance

/-- Two states of the module agree on all that the cadences depend on. -/
structure SameDoze (m m' : PowerModule) : Prop where
  dozing : m'.dozing = m.dozing
  comms : m'.comms = m.comms
  bgService : m'.bgService = m.bgService

/-- A piece of a handler of the module told no process its cadence. -/
structure Undozed (m : PowerModule) (c : Ctx) (r : PowerModule × Ctx) : Prop where
  same : SameDoze m r.1
  silent : ∃ fx, r.2.effects = c.effects ++ fx ∧ ∀ f ∈ fx, ∀ p, f.dozed p = none

variable {clock : Clock} {m : PowerModule} {c : Ctx} {p : Pid}

namespace Undozed

theorem refl {m' : PowerModule} (h : SameDoze m m') : Undozed m c (m', c) := ⟨h, [], by simp⟩

theorem request {m' : PowerModule} {f : Effect} (h : SameDoze m m') (hf : ∀ p, f.dozed p = none) :
    Undozed m c (m', c.request f) :=
  ⟨h, [f], rfl, by simpa using hf⟩

theorem trans {r r' : PowerModule × Ctx} (h : Undozed m c r) (h' : Undozed r.1 r.2 r') :
    Undozed m c r' := by
  obtain ⟨fx, hfx, hs⟩ := h.silent
  obtain ⟨gx, hgx, hs'⟩ := h'.silent
  refine ⟨⟨h'.same.dozing.trans h.same.dozing, h'.same.comms.trans h.same.comms,
    h'.same.bgService.trans h.same.bgService⟩, fx ++ gx, by rw [hgx, hfx, List.append_assoc], ?_⟩
  exact fun f hf => (List.mem_append.mp hf).elim (hs f) (hs' f)

theorem of_same {m' : PowerModule} {r : PowerModule × Ctx} (h' : Undozed m' c r)
    (h : SameDoze m m') : Undozed m c r :=
  ⟨⟨h'.same.dozing.trans h.dozing, h'.same.comms.trans h.comms,
    h'.same.bgService.trans h.bgService⟩, h'.silent⟩

theorem emit {r : PowerModule × Ctx} (h : Undozed m c r) (e : Event) :
    Undozed m c (r.1, r.2.emit e) :=
  ⟨h.same, h.silent⟩

theorem deliverToAll {m' : PowerModule} {ps : List Pid} {line : Pid → Line} (h : SameDoze m m')
    (hl : ∀ q p, Effect.dozed p (.hostLine q (line q)) = none) :
    Undozed m c (m', c.deliverToAll ps line) := by
  refine ⟨h, _, Ctx.effects_deliverToAll, fun f hf p => ?_⟩
  obtain ⟨q, -, rfl⟩ := List.mem_map.mp hf
  exact hl q p

end Undozed

/-! ## The functions of the module -/

/-- The process and the class that a report names. -/
def reported (args : String) : Option (Pid × String) :=
  match splitWhitespace args with
  | pidS :: cls :: _ => (parseSigned 32 pidS).map fun pid => (pid, cls)
  | _ => none

variable [Fpu]

end PowerModule

/-! ## The other modules -/

namespace Shell

variable [Fpu] {clock : Clock} {c : Ctx}

/-- Only `register-chrome` registers a process. -/
theorem onCommand_tracks {verb : Verb} {args : String} {p : Pid}
    (hp : (onCommand clock verb args c).1.store.Tracks p) :
    c.store.Tracks p ∨ (verb = .registerChrome ∧ ∃ e, chromeEntry args = some e ∧ e.2 = p) := by
  have hkill {a : String} {st : AppState} (hp : (killApp c a st).1.store.Tracks p) :
      c.store.Tracks p := by
    obtain ⟨app, happ, hpid⟩ := hp
    exact ⟨app, (Table.mem_rows_erase.mp happ).1, hpid⟩
  have hsame (hk : verb ≠ .kill) (ht : verb ≠ .taskKill) (hr : verb ≠ .registerChrome) :
      c.store.Tracks p := by
    have hs : c.store.SameApps (onCommand clock verb args c).1.store :=
      (onCommand_sameApps (fun _ _ => .of_display) hk ht hr).store
    exact (Store.tracks_congr hs.apps).mp hp
  cases verb with
  | kill =>
    simp only [onCommand] at hp
    unfold cmdKill at hp
    split at hp
    · exact .inl hp
    · split at hp
      · exact .inl hp
      · exact .inl (hkill hp)
  | taskKill =>
    simp only [onCommand] at hp
    unfold cmdTaskKill at hp
    split at hp
    · exact .inl hp
    · split at hp
      · exact .inl hp
      · split at hp
        · exact .inl hp
        · exact .inl (hkill hp)
  | registerChrome =>
    simp only [onCommand] at hp
    unfold cmdRegisterChrome at hp
    split at hp
    · next appId pidS parts hargs =>
      split at hp
      · exact .inl hp
      · next pid hpid =>
        have hp' : (c.store.insertApp ⟨appId, pid, clock.unix, clock.mono⟩).Tracks p := by
          dsimp only at hp
          split at hp <;> exact hp
        obtain ⟨app, happ, rfl⟩ := hp'
        rcases Table.mem_rows_put.mp happ with rfl | ⟨happ, -⟩
        · exact .inr ⟨rfl, (appId, pid), by simp [chromeEntry, hargs, hpid], rfl⟩
        · exact .inl ⟨app, happ, rfl⟩
    · exact .inl hp
  | _ => exact .inl (hsame (by simp) (by simp) (by simp))

end Shell

namespace Arbiter

variable [Fpu] {clock : Clock} {a a₀ : Arbiter} {fx : List Effect} {p : Pid}

end Arbiter

/-! ## Runs that need a word -/

section

attribute [local instance] Fpu.comparator

namespace Arbiter

/-- A store with one app running. -/
def oneApp : Store := ({} : Store).insertApp ⟨"b", 7, 0, 0⟩

/-- The screen goes off. -/
def screenOff (clock : Clock) (a : Arbiter) : Arbiter × List Effect :=
  a.respond buildRegistry clock (.inject (.screenState false))

/-- An app was launched, and the screen has been off for a minute. -/
def dozed : Arbiter × List Effect :=
  screenOff ⟨60000000000, 60⟩ (screenOff ⟨0, 0⟩ { store := oneApp }).1

end Arbiter

end

end Wandr
