import Wandr.Arbiter.Calls

/-!
# Who believes to have the audio focus

A process learns of its focus from what it is told and from what it does itself:
a grant, or being told `gain`, makes it believe to be the owner; it suspends at
`loss-transient` and `duck`, and is out after `loss`, after giving the focus up,
and once dead. The focus stack of the audio module is what the arbiter takes the
processes to believe.

* `Arbiter.beliefs_follow_stack`: in every run, the two agree: the process at the
  top of the stack is the only one believing to be the owner, the others in the
  stack are suspended, and everybody else is out.

The proof goes through `Believes`, which sets the beliefs of a process that is
giving up its focus, or has died, apart until the stack has followed.
-/

namespace Wandr

open Text

/-- What a process believes of its focus. -/
inductive Belief
  | owner
  | suspended
  | out
  deriving DecidableEq

/-- What a process learns. -/
abbrev Notice := Pid × Belief

/-- What a change of the focus means to the process told. -/
def FocusChange.belief : FocusChange → Belief
  | .gain => .owner
  | .lossTransient | .duck => .suspended
  | .loss => .out

/-- What an effect tells a process of its focus. -/
def Effect.notice : Effect → Option Notice
  | .hostLine p (.onFocusChanged change) => some (p, change.belief)
  | _ => none

/-- What effects tell the processes of their focus. -/
def notices (fx : List Effect) : List Notice := fx.filterMap Effect.notice

/-- What a process believes after what was learnt: the last it learnt, and to be
    out to begin with. -/
def believed (ns : List Notice) (p : Pid) : Belief :=
  Trace.last (fun n => if n.1 = p then some n.2 else none) .out ns

/-- What the processes should believe, given a stack of them. -/
def standing (ps : List Pid) (p : Pid) : Belief :=
  if ps.getLast? = some p then .owner else if p ∈ ps then .suspended else .out

section

variable {fx gx : List Effect} {ns : List Notice} {p q : Pid} {b : Belief} {ps : List Pid}

@[simp] theorem notices_nil : notices [] = [] := rfl

@[simp] theorem notices_cons {f : Effect} : notices (f :: fx) = f.notice.toList ++ notices fx := by
  unfold notices
  rw [List.filterMap_cons]
  cases f.notice <;> rfl

@[simp] theorem notices_append : notices (fx ++ gx) = notices fx ++ notices gx :=
  List.filterMap_append

/-- Effects on other things are no notices. -/
theorem notices_eq_nil (h : ∀ f ∈ fx, f.notice = none) : notices fx = [] :=
  List.filterMap_eq_nil_iff.mpr h

theorem believed_snoc : believed (ns ++ [(p, b)]) q = if q = p then b else believed ns q := by
  rw [believed, Trace.last_append]
  by_cases h : q = p
  · simp [h]
  · simp [h, Ne.symm h, believed]

/-- Telling several processes the same changes what these believe. -/
theorem believed_all :
    believed (ns ++ ps.map fun p => (p, b)) q = if q ∈ ps then b else believed ns q := by
  induction ps generalizing ns with
  | nil => simp
  | cons p ps ih =>
    have h : believed (ns ++ [(p, b)] ++ ps.map fun p => (p, b)) q =
        if q ∈ ps then b else believed (ns ++ [(p, b)]) q := ih
    rw [List.append_assoc, List.singleton_append] at h
    rw [List.map_cons, h, believed_snoc]
    by_cases hq : q ∈ ps
    · simp [hq]
    · simp [hq]

/-! ## Stacks -/

/-- The other processes of a stack. -/
def others (p : Pid) (ps : List Pid) : List Pid := ps.filter fun r => r ≠ p

@[simp] theorem mem_others : q ∈ others p ps ↔ q ∈ ps ∧ q ≠ p := by simp [others]

theorem nodup_others (h : ps.Nodup) : (others p ps).Nodup := h.filter _

/-- Dropping another process from a stack leaves the one on top. -/
theorem getLast?_others (h : ps.getLast? = some q) (hq : q ≠ p) :
    (others p ps).getLast? = some q := by
  obtain ⟨l, rfl⟩ := List.getLast?_eq_some_iff.mp h
  have hl : others p (l ++ [q]) = others p l ++ [q] := by simp [others, hq]
  rw [hl, List.getLast?_concat]

theorem standing_push : standing (ps ++ [p]) q =
    if q = p then .owner else if q ∈ ps then .suspended else .out := by
  rw [standing, List.getLast?_concat]
  by_cases h : q = p
  · simp [h]
  · simp [h, Ne.symm h]

theorem standing_of_not_mem (h : q ∉ ps) : standing ps q = .out := by
  have hlast : ps.getLast? ≠ some q := fun hl => h (List.mem_of_getLast? hl)
  simp [standing, h, hlast]

/-- Nobody else notices that a process that was not on top leaves the stack. -/
theorem standing_others (h : ps.getLast? ≠ some p) (hq : q ≠ p) :
    standing (others p ps) q = standing ps q := by
  have hlast : (others p ps).getLast? = some q ↔ ps.getLast? = some q := by
    refine ⟨fun hl => ?_, fun hl => getLast?_others hl hq⟩
    cases hps : ps.getLast? with
    | none =>
      rw [List.getLast?_eq_none_iff.mp hps] at hl
      simp [others] at hl
    | some r =>
      have hr : r ≠ p := fun he => h (he ▸ hps)
      rwa [getLast?_others hps hr] at hl
  simp [standing, hlast, hq]

/-! ## Stacks and beliefs -/

/-- The processes believe what they should, given the stack, but for one that
    has given its focus up and may still be in the stack. -/
structure Believes (leaver : Option Pid) (ps : List Pid) (ns : List Notice) : Prop where
  nodup : ps.Nodup
  believed_eq : ∀ q, believed ns q = if leaver = some q then .out else standing ps q

variable {leaver : Option Pid}

/-- Giving the focus up. -/
theorem Believes.leave (h : Believes none ps ns) : Believes (some p) ps (ns ++ [(p, .out)]) := by
  refine ⟨h.nodup, fun q => ?_⟩
  rw [believed_snoc, h.believed_eq]
  by_cases hq : q = p
  · simp [hq]
  · simp [hq, Ne.symm hq]

/-- A process that left the stack is no exception any more. -/
theorem Believes.left (h : Believes leaver ps ns) (hp : ∀ p ∈ leaver, p ∉ ps) :
    Believes none ps ns := by
  refine ⟨h.nodup, fun q => ?_⟩
  rw [h.believed_eq]
  split
  · next hq => exact (standing_of_not_mem (hp q hq)).symm
  · rfl

/-- A process takes the focus for good. -/
theorem Believes.gain (h : Believes none ps ns) : Believes none [p]
    (ns ++ (others p ps).map (fun r => (r, .out)) ++ [(p, .owner)]) := by
  refine ⟨List.nodup_singleton p, fun q => ?_⟩
  have hs : standing ([] ++ [p]) q = if q = p then .owner else .out := by
    rw [standing_push]
    simp
  rw [List.nil_append] at hs
  rw [believed_snoc, believed_all, h.believed_eq, hs]
  by_cases hq : q = p
  · simp [hq]
  · by_cases hps : q ∈ ps
    · simp [hq, hps]
    · simp [hq, hps, standing_of_not_mem hps]

/-- A process takes the focus, suspending the owner. -/
theorem Believes.suspend (h : Believes none ps ns) : Believes none (others p ps ++ [p])
    (ns ++ (others p ps).getLast?.toList.map (fun r => (r, .suspended)) ++ [(p, .owner)]) := by
  refine ⟨(nodup_others h.nodup).append (List.nodup_singleton p) (by simp), fun q => ?_⟩
  rw [believed_snoc, believed_all, h.believed_eq, standing_push]
  by_cases hq : q = p
  · simp [hq]
  · by_cases hl : (others p ps).getLast? = some q
    · have hps : q ∈ ps := (mem_others.mp (List.mem_of_getLast? hl)).1
      simp [hq, hl, hps]
    · -- neither told anything nor the owner before
      have hlast : ps.getLast? ≠ some q := fun h' => hl (getLast?_others h' hq)
      simp [hq, hl, standing, hlast]

/-- A process leaves the stack, the one underneath regaining the focus. -/
theorem Believes.drop (h : Believes (some p) ps ns) : Believes (some p) (others p ps)
    (ns ++ (if ps.getLast? = some p then (others p ps).getLast? else none).toList.map
      fun r => (r, .owner)) := by
  refine ⟨nodup_others h.nodup, fun q => ?_⟩
  rw [believed_all, h.believed_eq]
  by_cases hq : q = p
  · subst hq
    have hl : (others q ps).getLast? ≠ some q := fun hl =>
      (mem_others.mp (List.mem_of_getLast? hl)).2 rfl
    simp [hl]
  · have hqp : ¬ p = q := Ne.symm hq
    by_cases hp : ps.getLast? = some p
    · by_cases hl : (others p ps).getLast? = some q
      · simp [hqp, hp, hl, standing]
      · simp [hqp, hp, hl, standing, hq]
    · simp [hqp, hp, standing_others hp hq]

end

/-! ## The audio module -/

namespace AudioModule

variable {m : AudioModule} {c : Ctx} {p q : Pid} {a : String} {kind : FocusKind}

theorem focused_filter : (m.stack.filter fun e => e.pid ≠ p).map FocusEntry.pid =
    others p m.focused := by
  rw [focused, others, List.filter_map]
  rfl

@[simp] theorem focused_ringing {o : Option Pid} : { m with ringing := o }.focused = m.focused :=
  rfl
@[simp] theorem focused_comms {o : Option Pid} : { m with comms := o }.focused = m.focused := rfl

theorem focused_getLast? : m.focused.getLast? = m.stack.getLast?.map FocusEntry.pid :=
  List.getLast?_map

/-- Whom a grant tells what. -/
def told (kind : FocusKind) (rest : List Pid) : List Notice :=
  match kind with
  | .gain => rest.map fun r => (r, .out)
  | .gainTransient | .gainTransientMayDuck => rest.getLast?.toList.map fun r => (r, .suspended)

theorem focused_grant : (m.grant p a kind c).1.focused =
    if kind = .gain then [p] else others p m.focused ++ [p] := by
  cases kind with
  | gain => rfl
  | gainTransient | gainTransientMayDuck =>
    rw [← focused_filter]
    simp [grant, focused]

theorem notices_grant : notices (m.grant p a kind c).2.effects =
    notices c.effects ++ told kind (others p m.focused) := by
  rw [← focused_filter]
  cases kind with
  | gain =>
    simp only [grant, Ctx.effects_deliverToAll, notices_append, told]
    congr 1
    generalize m.stack.filter _ = rest
    induction rest with
    | nil => rfl
    | cons e es ih => exact congrArg (_ :: ·) ih
  | gainTransient | gainTransientMayDuck =>
    simp only [grant, told, List.getLast?_map]
    generalize (m.stack.filter _).getLast? = o
    cases o with
    | none => simp
    | some e => simp [Effect.notice, FocusChange.belief]

theorem Believes.grant (ns : List Notice) (kind : FocusKind)
    (h : Believes none m.focused (ns ++ notices c.effects)) :
    Believes none (m.grant p a kind c).1.focused
      (ns ++ notices (m.grant p a kind c).2.effects ++ [(p, .owner)]) := by
  rw [focused_grant, notices_grant, ← List.append_assoc]
  cases kind with
  | gain => exact h.gain
  | gainTransient | gainTransientMayDuck => exact h.suspend

theorem focused_dropPid : (m.dropPid p c).1.focused = others p m.focused := by
  unfold dropPid
  dsimp only
  split
  · exact focused_filter
  · next h =>
    have hp : p ∉ m.focused := by simpa [focused] using h
    refine (List.filter_eq_self.mpr fun q hq => ?_).symm
    have : q ≠ p := fun he => hp (he ▸ hq)
    simpa using this

theorem notices_dropPid : notices (m.dropPid p c).2.effects = notices c.effects ++
    (if m.focused.getLast? = some p then (others p m.focused).getLast? else none).toList.map
      fun r => (r, .owner) := by
  rw [← focused_filter, List.getLast?_map, focused_getLast?]
  unfold dropPid
  dsimp only
  split
  · split
    · next e he =>
      split at he
      · next hp =>
        rw [if_pos hp, he]
        simp [Effect.notice, FocusChange.belief]
      · simp at he
    · next he =>
      split at he
      · next hp =>
        rw [if_pos hp, he]
        simp
      · next hp => simp [hp]
  · next h =>
    have hp : m.stack.getLast?.map FocusEntry.pid ≠ some p := by
      intro hl
      obtain ⟨e, he, hep⟩ := Option.map_eq_some_iff.mp hl
      exact h (List.any_eq_true.mpr ⟨e, List.mem_of_getLast? he, by simpa using hep⟩)
    simp [hp]

theorem Believes.dropPid (ns : List Notice)
    (h : Believes (some p) m.focused (ns ++ notices c.effects)) :
    Believes (some p) (m.dropPid p c).1.focused (ns ++ notices (m.dropPid p c).2.effects) := by
  rw [focused_dropPid, notices_dropPid, ← List.append_assoc]
  exact h.drop

theorem not_mem_focused_dropPid : p ∉ (m.dropPid p c).1.focused := by
  simp [focused_dropPid]

@[simp] theorem notices_stopRing : notices (m.stopRing p a c).2.effects = notices c.effects := by
  unfold stopRing
  split
  · rfl
  · simp [Effect.notice]

theorem Believes.callStart {ns : List Notice}
    (h : Believes none m.focused (ns ++ notices c.effects)) :
    Believes none (m.callStart p a c).1.focused
      (ns ++ notices (m.callStart p a c).2.effects ++ [(p, .owner)]) := by
  have hg := Believes.grant (m := (m.stopRing p a c).1) (c := (m.stopRing p a c).2) (p := p)
    (a := a) ns .gainTransient (by simpa using h)
  simpa [AudioModule.callStart, Effect.notice, focused] using hg

theorem Believes.ringStart {ns : List Notice}
    (h : Believes none m.focused (ns ++ notices c.effects)) :
    Believes none (m.ringStart p a c).1.focused
      (ns ++ notices (m.ringStart p a c).2.effects ++ [(p, .owner)]) := by
  have hg := Believes.grant (m := { m with ringing := some p })
    (c := c.emit (.sensorAcquire .proximity p)) (p := p) (a := a) ns .gainTransient
    (by simpa using h)
  unfold AudioModule.ringStart
  dsimp only
  split <;> simpa [Effect.notice] using hg

theorem Believes.callEnd {ns : List Notice}
    (h : Believes (some p) m.focused (ns ++ notices c.effects)) :
    Believes none (m.callEnd p a c).1.focused (ns ++ notices (m.callEnd p a c).2.effects) := by
  have hd := Believes.dropPid (m := { m with comms := none })
    (c := c.deliverToHost p (.setMode false)) (p := p) ns
    (by simpa [Effect.notice] using h)
  have hl := hd.left (by simpa using not_mem_focused_dropPid)
  simpa [AudioModule.callEnd, Effect.notice] using hl

theorem Believes.ringStop {ns : List Notice}
    (h : Believes (some p) m.focused (ns ++ notices c.effects)) :
    Believes none (m.ringStop p a c).1.focused (ns ++ notices (m.ringStop p a c).2.effects) := by
  have hd := Believes.dropPid (m := (m.stopRing p a c).1)
    (c := (m.stopRing p a c).2.emit (.sensorRelease .proximity p)) (p := p) ns
    (by simpa using h)
  have hl := hd.left (by simpa using not_mem_focused_dropPid)
  simpa [AudioModule.ringStop, Effect.notice] using hl

theorem Believes.onSurfaceRemoved {ns : List Notice}
    (h : Believes (some p) m.focused (ns ++ notices c.effects)) :
    Believes (some p) (m.onSurfaceRemoved p c).1.focused
      (ns ++ notices (m.onSurfaceRemoved p c).2.effects) := by
  have hb (c : Ctx) (n : Nat) : (clearBadge p n c).effects = c.effects := by
    unfold clearBadge
    split <;> rfl
  unfold AudioModule.onSurfaceRemoved
  dsimp only
  refine Believes.dropPid ns ?_
  split <;> split <;> simpa [hb, focused] using h

/-! ## The verbs -/

/-- The process that a verb makes give its focus up. -/
def givesUp (m : AudioModule) (s : Store) (verb : Verb) (args : String) : Option Pid :=
  match verb with
  | .focusAbandon =>
    if trim args = "" then none else (resolve (trim args) s).map Prod.fst
  | .callEnd => ((resolve (trim args) s).map Prod.fst).filter fun p => m.comms = some p
  | .ringStop => ((resolve (trim args) s).map Prod.fst).filter fun p => m.ringing = some p
  | _ => none

/-- The process that a verb grants the focus. -/
def takes (s : Store) (verb : Verb) (args : String) : Option Pid :=
  match verb with
  | .focusRequest => (focusWanted args s).map Prod.fst
  | .callStart | .ringStart => (resolve (trim args) s).map Prod.fst
  | _ => none

/-- What the process giving its focus up learns, if there is one. -/
def leaving (o : Option Pid) : List Notice := o.toList.map fun p => (p, .out)

/-- What the process granted the focus learns, if there is one. -/
def granted (o : Option Pid) : List Notice := o.toList.map fun p => (p, .owner)

/-- What a verb tells the processes: the one giving its focus up knows before,
    the one granted it learns from the reply. -/
def learnt (m : AudioModule) (s : Store) (verb : Verb) (args : String) (fx : List Effect) :
    List Notice :=
  leaving (m.givesUp s verb args) ++ notices fx ++ granted (takes s verb args)

variable {ns : List Notice} {args : String} {s : Store}

section

attribute [local simp] learnt givesUp leaving takes granted

theorem Believes.cmdRequest (h : Believes none m.focused ns) :
    Believes none (m.cmdRequest args { store := s }).1.focused (ns ++ m.learnt s .focusRequest args
      (m.cmdRequest args { store := s }).2.1.effects) := by
  unfold AudioModule.cmdRequest
  split
  · next owner kindTok hargs =>
    split
    · next hkind => simpa [focusWanted, hargs, hkind]
    · next kind hkind =>
      split
      · next hp => simpa [focusWanted, hargs, hkind, hp]
      · next p a hp =>
        have hg := Believes.grant (c := { store := s }) (p := p) (a := a) ns kind (by simpa using h)
        simpa [focusWanted, hargs, hkind, hp] using hg
  · next hargs =>
    have hw : focusWanted args s = none := by
      unfold focusWanted
      split
      · next owner kindTok he => exact absurd he (hargs owner kindTok)
      · rfl
    simpa [hw]

theorem Believes.cmdAbandon (h : Believes none m.focused ns) :
    Believes none (m.cmdAbandon args { store := s }).1.focused (ns ++ m.learnt s .focusAbandon args
      (m.cmdAbandon args { store := s }).2.1.effects) := by
  unfold AudioModule.cmdAbandon
  dsimp only
  split
  · next ht => simpa [ht]
  · next ht =>
    split
    · next hp => simpa [ht, hp]
    · next p a hp =>
      have hd := Believes.dropPid (c := { store := s }) _ (by simpa using h.leave (p := p))
      have hl := hd.left (by simpa using not_mem_focused_dropPid)
      simpa [ht, hp] using hl

theorem Believes.cmdCallStart (h : Believes none m.focused ns) :
    Believes none (m.cmdCallStart args { store := s }).1.focused (ns ++ m.learnt s .callStart args
      (m.cmdCallStart args { store := s }).2.1.effects) := by
  unfold AudioModule.cmdCallStart
  dsimp only
  split
  · next hp => simpa [hp]
  · next p a hp =>
    have hc := Believes.callStart (c := { store := s }) (p := p) (a := a) (by simpa using h)
    simpa [hp] using hc

theorem Believes.cmdRingStart (h : Believes none m.focused ns) :
    Believes none (m.cmdRingStart args { store := s }).1.focused (ns ++ m.learnt s .ringStart args
      (m.cmdRingStart args { store := s }).2.1.effects) := by
  unfold AudioModule.cmdRingStart
  dsimp only
  split
  · next hp => simpa [hp]
  · next p a hp =>
    have hc := Believes.ringStart (c := { store := s }) (p := p) (a := a) (by simpa using h)
    simpa [hp] using hc

theorem Believes.cmdCallEnd (h : Believes none m.focused ns) :
    Believes none (m.cmdCallEnd args { store := s }).1.focused (ns ++ m.learnt s .callEnd args
      (m.cmdCallEnd args { store := s }).2.1.effects) := by
  unfold AudioModule.cmdCallEnd
  dsimp only
  split
  · next hp => simpa [hp]
  · next p a hp =>
    split
    · next hc => simpa [hp, Option.filter, hc]
    · next hc =>
      have he := Believes.callEnd (c := { store := s }) (a := a) (by simpa using h.leave (p := p))
      simpa [hp, Option.filter, not_not.mp hc] using he

theorem Believes.cmdRingStop (h : Believes none m.focused ns) :
    Believes none (m.cmdRingStop args { store := s }).1.focused (ns ++ m.learnt s .ringStop args
      (m.cmdRingStop args { store := s }).2.1.effects) := by
  unfold AudioModule.cmdRingStop
  dsimp only
  split
  · next hp => simpa [hp]
  · next p a hp =>
    split
    · next hc => simpa [hp, Option.filter, hc]
    · next hc =>
      have he := Believes.ringStop (c := { store := s }) (a := a) (by simpa using h.leave (p := p))
      simpa [hp, Option.filter, not_not.mp hc] using he

end

/-- A verb that leaves the focus alone. -/
structure Silent (m : AudioModule) (r : AudioModule × Ctx × Reply) : Prop where
  stack : r.1.stack = m.stack
  notices : notices r.2.1.effects = []

theorem Silent.refl {r : Reply} : Silent m (m, { store := s }, r) := ⟨rfl, rfl⟩

theorem cmdRoute_silent : Silent m (m.cmdRoute args { store := s }) := by
  unfold cmdRoute
  split
  · split
    · exact .refl
    · split
      · exact .refl
      · exact ⟨rfl, by simp [Effect.notice]⟩
  · exact .refl

theorem cmdPlayTone_silent : Silent m (m.cmdPlayTone args { store := s }) := by
  unfold cmdPlayTone
  dsimp only
  split
  · exact .refl
  · exact ⟨rfl, by simp [Effect.notice]⟩

theorem cmdVolume_silent : Silent m (m.cmdVolume args { store := s }) := by
  unfold cmdVolume
  dsimp only
  split
  · exact .refl
  · split
    · exact .refl
    · exact ⟨rfl, by simp [Effect.notice]⟩

theorem cmdMute_silent : Silent m (m.cmdMute args { store := s }) := by
  unfold cmdMute
  dsimp only
  split
  · exact .refl
  · split
    · exact .refl
    · exact ⟨rfl, by simp [Effect.notice]⟩

theorem cmdAppMute_silent : Silent m (m.cmdAppMute args { store := s }) := by
  unfold cmdAppMute
  split
  · split
    · exact .refl
    · split
      · exact .refl
      · exact ⟨rfl, by simp [Effect.notice]⟩
  · exact .refl

theorem cmdAppMicMute_silent : Silent m (m.cmdAppMicMute args { store := s }) := by
  unfold cmdAppMicMute
  split
  · split
    · exact .refl
    · split
      · exact .refl
      · exact ⟨rfl, by simp [Effect.notice]⟩
  · exact .refl

theorem cmdMicMute_silent : Silent m (m.cmdMicMute args { store := s }) := by
  unfold cmdMicMute
  split
  · exact .refl
  · refine ⟨rfl, notices_eq_nil fun f hf => ?_⟩
    simp only [Ctx.effects_deliverToAll, List.nil_append, List.mem_map] at hf
    obtain ⟨_, -, rfl⟩ := hf
    rfl

theorem cmdRingerMode_silent : Silent m (m.cmdRingerMode args { store := s }) := by
  unfold cmdRingerMode
  split <;> exact ⟨rfl, rfl⟩

theorem cmdCallVideo_silent : Silent m (m.cmdCallVideo args { store := s }) := by
  unfold cmdCallVideo
  dsimp only
  split
  · exact .refl
  · split <;> exact ⟨rfl, rfl⟩

/-- What the processes learn from a verb keeps their beliefs in step with the
    stack. -/
theorem Believes.onCommand (h : Believes none m.focused ns) (verb : Verb) (args : String) :
    Believes none (m.onCommand verb args { store := s }).1.focused
      (ns ++ m.learnt s verb args (m.onCommand verb args { store := s }).2.1.effects) := by
  have quiet {verb : Verb} {r : AudioModule × Ctx × Reply} (hr : Silent m r)
      (hg : m.givesUp s verb args = none) (ht : takes s verb args = none) :
      Believes none r.1.focused (ns ++ m.learnt s verb args r.2.1.effects) := by
    simpa [learnt, leaving, granted, hg, ht, focused, hr.stack, hr.notices] using h
  cases verb with
  | focusRequest => simpa only [AudioModule.onCommand] using Believes.cmdRequest h
  | focusAbandon => simpa only [AudioModule.onCommand] using Believes.cmdAbandon h
  | callStart => simpa only [AudioModule.onCommand] using Believes.cmdCallStart h
  | callEnd => simpa only [AudioModule.onCommand] using Believes.cmdCallEnd h
  | ringStart => simpa only [AudioModule.onCommand] using Believes.cmdRingStart h
  | ringStop => simpa only [AudioModule.onCommand] using Believes.cmdRingStop h
  | focusList => exact quiet ⟨rfl, rfl⟩ rfl rfl
  | callVideo => exact quiet cmdCallVideo_silent rfl rfl
  | route => exact quiet cmdRoute_silent rfl rfl
  | ringerMode => exact quiet cmdRingerMode_silent rfl rfl
  | volume => exact quiet cmdVolume_silent rfl rfl
  | mute => exact quiet cmdMute_silent rfl rfl
  | appMute => exact quiet cmdAppMute_silent rfl rfl
  | micMute => exact quiet cmdMicMute_silent rfl rfl
  | appMicMute => exact quiet cmdAppMicMute_silent rfl rfl
  | playTone => exact quiet cmdPlayTone_silent rfl rfl

/-- A reaction of the module keeps the beliefs in step, the dead process apart. -/
theorem Believes.onEvent {dead : Option Pid} {e : Event} (h : Believes dead m.focused ns)
    (he : ∀ p, e = .surfaceRemoved p → dead = some p) :
    Believes dead (m.onEvent e { store := s }).1.focused
      (ns ++ notices (m.onEvent e { store := s }).2.effects) := by
  unfold AudioModule.onEvent
  split
  · next p =>
    have hd := he p rfl
    subst hd
    exact Believes.onSurfaceRemoved (by simpa using h)
  · simpa using h

end AudioModule

/-! ## Runs -/

theorem Effect.notice_of_other {id : ModuleId} {f : Effect} (hid : id ≠ .audio)
    (h : id.mayRequest f) : f.notice = none := by
  cases f with
  | hostLine p l =>
    cases l with
    | onFocusChanged change =>
      cases id with
      | audio => exact absurd rfl hid
      | _ => simp [ModuleId.mayRequest] at h
    | _ => rfl
  | _ => rfl

/-- No module announces a death. -/
theorem ModuleId.not_mayEmit_surfaceRemoved {id : ModuleId} {p : Pid} :
    ¬ id.mayEmit (.surfaceRemoved p) := by
  cases id <;> simp [mayEmit]

namespace Arbiter

variable [Fpu] {reg : Registry} {clock : Clock} {a : Arbiter} {e : Event} {id : ModuleId}

theorem handler_audio :
    (handler clock .audio e a).state.mods.audio = (a.mods.audio.onEvent e { store := a.store }).1 ∧
      (handler clock .audio e a).effects =
        (a.mods.audio.onEvent e { store := a.store }).2.effects :=
  ⟨rfl, rfl⟩

/-- Reactions of the other modules have no part in the focus. -/
theorem handler_other (hid : id ≠ .audio) :
    (handler clock id e a).state.mods.audio = a.mods.audio ∧
      notices (handler clock id e a).effects = [] := by
  refine ⟨?_, notices_eq_nil fun f hf => Effect.notice_of_other hid (handler_requests f hf)⟩
  cases id with
  | audio => exact absurd rfl hid
  | _ => rfl

/-- Reactions keep the beliefs in step, the dead process apart. -/
theorem handler_believes {dead : Option Pid} {ns : List Notice} :
    Bus.Keeps (fun a fx => Believes dead a.mods.audio.focused (ns ++ notices fx))
      (fun e => ∀ p, e = .surfaceRemoved p → dead = some p) (handler clock id) where
  inv := by
    intro e a fx he hJ
    rw [notices_append, ← List.append_assoc]
    by_cases hid : id = .audio
    · subst hid
      rw [handler_audio.1, handler_audio.2]
      exact AudioModule.Believes.onEvent hJ he
    · rw [(handler_other hid).1, (handler_other hid).2, List.append_nil]
      exact hJ
  emits := by
    rintro e a fx - - e' he' p rfl
    exact absurd (handler_emits _ he').2 ModuleId.not_mayEmit_surfaceRemoved

/-- Without a death no reaction has a part in the focus. -/
theorem handler_quiet {ps : List Pid} {ns : List Notice} :
    Bus.Keeps (fun a fx => a.mods.audio.focused = ps ∧ notices fx = ns)
      (fun e => ∀ p, e ≠ .surfaceRemoved p) (handler clock id) where
  inv := by
    rintro e a fx he ⟨hps, hns⟩
    rw [notices_append]
    by_cases hid : id = .audio
    · subst hid
      rw [handler_audio.1, handler_audio.2]
      unfold AudioModule.onEvent
      split
      · next p => exact absurd rfl (he p)
      · exact ⟨hps, by simpa using hns⟩
    · rw [(handler_other hid).1, (handler_other hid).2, List.append_nil]
      exact ⟨hps, hns⟩
  emits := by
    rintro e a fx - - e' he' p rfl
    exact absurd (handler_emits _ he').2 ModuleId.not_mayEmit_surfaceRemoved

/-- A command leaves the focus to its own handler. -/
theorem command_focus {verb : Verb} {args : String} :
    (a.command reg clock verb args).1.mods.audio.focused =
        (a.handle clock verb args).1.state.mods.audio.focused ∧
      notices (a.command reg clock verb args).2.1 =
        notices (a.handle clock verb args).1.effects := by
  have hw : Ctx.Within Store.Anyhow verb.owner.mayEmit verb.owner.mayRequest { store := a.store }
      (a.mods.onCommand clock verb args { store := a.store }).2.1 := Modules.onCommand_within
  refine command_keeps (E := fun e => ∀ p, e ≠ .surfaceRemoved p) (fun id _ => handler_quiet)
    (J := fun b fx => b.mods.audio.focused =
        (a.handle clock verb args).1.state.mods.audio.focused ∧
      notices fx = notices (a.handle clock verb args).1.effects) ⟨rfl, rfl⟩ ?_
  rintro e he p rfl
  exact ModuleId.not_mayEmit_surfaceRemoved (hw.forall_events rfl _ he)

/-- After the death of a process was announced, it is not in the stack. -/
theorem inject_surfaceRemoved {p : Pid} (hreg : .audio ∈ reg) :
    p ∉ (a.inject reg clock (.surfaceRemoved p)).1.mods.audio.focused := by
  have hkeeps (e : Event) : ∀ h ∈ handlers reg clock, ∀ s : Arbiter,
      p ∉ s.mods.audio.focused → p ∉ (h e s).state.mods.audio.focused := by
    intro h hh s hs
    obtain ⟨id, -, rfl⟩ := List.mem_map.mp hh
    by_cases hid : id = .audio
    · subst hid
      rw [handler_audio.1, AudioModule.mem_focused_onEvent]
      exact fun h => hs h.2
    · rwa [(handler_other hid).1]
  have hsettles : Bus.Settles (fun s q _ => .surfaceRemoved p ∈ q ∨ p ∉ s.mods.audio.focused)
      (handlers reg clock) := by
    intro s e q fx h
    by_cases he : e = .surfaceRemoved p
    · subst he
      refine .inr (Bus.fan_brings (List.mem_map_of_mem hreg) (fun s => ?_) (hkeeps _) _)
      rw [handler_audio.1, AudioModule.mem_focused_onEvent]
      exact fun h => h.1 rfl
    · rcases h with h | h
      · refine .inl (List.mem_append_left _ ?_)
        exact (List.mem_cons.mp h).resolve_left (Ne.symm he)
      · exact .inr (Bus.fan_keeps (hkeeps e) h)
  have hend := inject_settles (a := a) [] hsettles (.inl List.mem_cons_self)
  exact hend.resolve_left List.not_mem_nil

/-- What the processes learn of their focus from a step; a process that dies needs
    no telling. -/
def learnt (reg : Registry) (clock : Clock) (a : Arbiter) (i : Stimulus) : List Notice :=
  match i with
  | .command (.audio verb) args =>
    a.mods.audio.learnt a.store verb args (a.respond reg clock i).2
  | .inject (.surfaceRemoved p) => AudioModule.leaving (some p) ++ notices (a.respond reg clock i).2
  | _ => notices (a.respond reg clock i).2

/-- The states of a run, with what the processes have learnt of their focus since
    its start. -/
inductive Heard (reg : Registry) (a₀ : Arbiter) : Arbiter → List Notice → Prop
  | start : Heard reg a₀ a₀ []
  | step {a : Arbiter} {ns : List Notice} (clock : Clock) (i : Stimulus) : Heard reg a₀ a ns →
      Heard reg a₀ (a.respond reg clock i).1 (ns ++ a.learnt reg clock i)

variable {a₀ : Arbiter} {ns : List Notice}

/-- A step keeps the beliefs in step with the stack. -/
theorem respond_believes (hreg : .audio ∈ reg) (i : Stimulus)
    (h : Believes none a.mods.audio.focused ns) :
    Believes none (a.respond reg clock i).1.mods.audio.focused (ns ++ a.learnt reg clock i) := by
  have other {verb : Verb} {args : String} (hv : verb.owner ≠ .audio) :
      Believes none (a.command reg clock verb args).1.mods.audio.focused
        (ns ++ notices (a.command reg clock verb args).2.1) := by
    have hw : Ctx.Within Store.Anyhow verb.owner.mayEmit verb.owner.mayRequest { store := a.store }
        (a.mods.onCommand clock verb args { store := a.store }).2.1 := Modules.onCommand_within
    have hn : notices (a.handle clock verb args).1.effects = [] :=
      notices_eq_nil fun f hf => Effect.notice_of_other hv (hw.forall_effects rfl f hf)
    have hm : (a.handle clock verb args).1.state.mods.audio = a.mods.audio := by
      cases verb with
      | audio v => exact absurd rfl hv
      | _ => rfl
    rw [command_focus.1, command_focus.2, hn, hm, List.append_nil]
    exact h
  have event {dead : Option Pid} {ns : List Notice} {e : Event}
      (h : Believes dead a.mods.audio.focused ns)
      (he : ∀ p, e = .surfaceRemoved p → dead = some p) :
      Believes dead (a.inject reg clock e).1.mods.audio.focused
        (ns ++ notices (a.inject reg clock e).2) :=
    inject_keeps (fun id _ => handler_believes) (by simpa using h) he
  cases i with
  | command verb args =>
    cases verb with
    | audio verb =>
      have hc := AudioModule.Believes.onCommand (s := a.store) h verb args
      simp only [respond_command, learnt, AudioModule.learnt, command_focus.1, command_focus.2]
      exact hc
    | _ => exact other (by simp [Verb.owner])
  | inject e =>
    cases e with
    | surfaceRemoved p =>
      have hi : Believes (some p) (a.inject reg clock (.surfaceRemoved p)).1.mods.audio.focused
          (ns ++ [(p, .out)] ++ notices (a.inject reg clock (.surfaceRemoved p)).2) :=
        event h.leave (by simp)
      have hl := hi.left (by simpa using inject_surfaceRemoved hreg)
      simpa [respond, learnt, AudioModule.leaving] using hl
    | _ => exact event h (by simp)
  | environment s => simpa [respond, learnt] using h

/-- In every run the process at the top of the stack, which has no process twice,
    is the one that believes to have the focus; the others in the stack believe
    to be suspended, and all the rest to be out. -/
theorem beliefs_follow_stack (hreg : .audio ∈ reg) (h₀ : a₀.mods.audio.stack = [])
    (h : Heard reg a₀ a ns) :
    a.mods.audio.focused.Nodup ∧
    (∀ p, believed ns p = .owner ↔ a.mods.audio.focused.getLast? = some p) ∧
    (∀ p ∈ a.mods.audio.focused, a.mods.audio.focused.getLast? ≠ some p →
      believed ns p = .suspended) ∧
    ∀ p, p ∉ a.mods.audio.focused → believed ns p = .out := by
  have hb : Believes none a.mods.audio.focused ns := by
    induction h with
    | start =>
      exact ⟨by simp [AudioModule.focused, h₀],
        by simp [AudioModule.focused, h₀, believed, standing]⟩
    | step clock i _ ih => exact respond_believes hreg i ih
  have hs (p : Pid) : believed ns p = standing a.mods.audio.focused p := by
    simpa using hb.believed_eq p
  refine ⟨hb.nodup, fun p => ?_, fun p hp hl => ?_, fun p hp => ?_⟩
  · rw [hs, standing]
    split
    · next hl => simp [hl]
    · next hl => split <;> simp [hl]
  · rw [hs, standing, if_neg hl, if_pos hp]
  · rw [hs, standing_of_not_mem hp]

end Arbiter

section

attribute [local instance] Fpu.comparator

namespace Arbiter

/-- Music yields to a call for as long as it lasts. -/
theorem beliefs_follow_stack_musicResumes :
    let a := respond buildRegistry ⟨0, 0⟩ {} (.command (.audio .focusRequest) "7 gain")
    let b := a.1.respond buildRegistry ⟨0, 0⟩ (.command (.audio .callStart) "8")
    let c := b.1.respond buildRegistry ⟨0, 0⟩ (.inject (.surfaceRemoved 8))
    b.1.mods.audio.focused = [7, 8] ∧ c.1.mods.audio.focused = [7] ∧
      ∃ ns, Heard buildRegistry {} c.1 ns ∧ believed ns 7 = .owner ∧ believed ns 8 = .out := by
  intro a b c
  have h₀ : Heard buildRegistry {} {} [] := .start
  have ha := Heard.step ⟨0, 0⟩ (.command (.audio .focusRequest) "7 gain") h₀
  have hb := Heard.step ⟨0, 0⟩ (.command (.audio .callStart) "8") ha
  have hc := Heard.step ⟨0, 0⟩ (.inject (.surfaceRemoved 8)) hb
  have hstack : c.1.mods.audio.focused = [7] := by decide
  obtain ⟨-, howner, -, hout⟩ := beliefs_follow_stack (by decide) rfl hc
  exact ⟨by decide, hstack, _, hc, (howner 7).mpr (by rw [hstack]; rfl),
    hout 8 (by rw [hstack]; decide)⟩

end Arbiter

end

end Wandr
