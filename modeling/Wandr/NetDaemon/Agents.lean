import Wandr.NetDaemon.Control

/-!
# The agents of the network daemon

The daemon is two agents that share the link it owns: the main thread, which brings the
link up at boot and then monitors it, and the thread that serves the control socket. Each
takes its steps by itself, and what it is answered in a step is up to the world. The lock
of the link is held across steps by a connection asked for only; every other access takes
and releases it in one step.

* `BringUp.step`, `State.mainStep` and `State.controlStep` are the procedures of the
  source, step by step;
* `Run` are the runs of the two agents, with what is observed of them;
* `Run.stays_off`: what is switched off stays off, as long as the monitor gets no further
  than its look at the credentials and the carrier;
* `retry_raises` is a run in which it gets further.
-/

namespace Wandr.NetDaemon

open Text

/-- What a lease of an address says. -/
structure DhcpLease where
  ip : Ipv4
  gateway : Option Ipv4
  dns : List Ipv4

/-- What the world answers an agent in a step: the credentials of the arbiter and of the
    framework, the state of the interface, and the outcomes of what is run. -/
structure Answers where
  auto : Option WifiCreds := none
  saved : Except String (List WifiCreds) := .ok []
  carrier : Bool := false
  powerChip : Except String Unit := .ok ()
  stopChip : Except String Unit := .ok ()
  spawn : Except String Unit := .ok ()
  associate : Except String Unit := .ok ()
  waitCarrier : Bool := true
  lease : Except String DhcpLease := .error "no lease"
  netdConfig : Except String Unit := .ok ()
  radio : Bool := true
  scan : String := ""

/-- What is observed of the daemon. -/
inductive Act
  | powerUp
  | powerDown
  | associating (ssid : String)
  | associated (ssid : String)
  | reported (status : LinkStatus)
  | received (request : Request)
  | replied (text : String)

/-! ## Bringing the link up -/

/-- The credentials for a bring-up that nobody asked for. -/
def chooseCreds (w : Answers) : Except String WifiCreds :=
  match w.auto with
  | some creds => .ok creds
  | none => match w.saved with
    | .error e => .error s!"read creds: {e}"
    | .ok (creds :: _) => .ok creds
    | .ok [] =>
      .error "no auto-connect network (arbiter store empty + WifiConfigStore.xml has none)"

/-- Where a bring-up is: what it is to do next. -/
inductive BringUp
  | start (creds : WifiCreds) (force : Bool)
  | power (creds : WifiCreds)
  | spawn (creds : WifiCreds)
  | associate (creds : WifiCreds)
  | waitCarrier (creds : WifiCreds)
  | lease (creds : WifiCreds)
  | netd (creds : WifiCreds) (lease : DhcpLease)

/-- Where a step leaves a bring-up. -/
inductive Progress
  | onward (b : BringUp)
  | failed (e : String)
  | done (status : LinkStatus)

/-- The link on a lease. -/
def onlineStatus (creds : WifiCreds) (lease : DhcpLease) : LinkStatus :=
  { up := true, ssid := some creds.ssid, ip := some lease.ip, gateway := lease.gateway,
    dns := lease.dns }

/-- A step of a bring-up. Where there is a carrier, an association is used again, unless a
    new one is forced. -/
def BringUp.step (w : Answers) : BringUp → Progress × List Act
  | start creds force =>
    (.onward (if w.carrier ∧ ¬ force then .lease creds else .power creds), [])
  | power creds => match w.powerChip with
    | .ok () => (.onward (.spawn creds), [.powerUp])
    | .error e => (.failed e, [])
  | spawn creds => match w.spawn with
    | .ok () => (.onward (.associate creds), [])
    | .error e => (.failed s!"spawn supplicant: {e}", [])
  | associate creds => match w.associate with
    | .ok () => (.onward (.waitCarrier creds), [.associating creds.ssid])
    | .error e => (.failed e, [.associating creds.ssid])
  | waitCarrier creds =>
    if w.waitCarrier then (.onward (.lease creds), [.associated creds.ssid])
    else (.failed "association timed out (no carrier after select)", [])
  | lease creds => match w.lease with
    | .ok l => (.onward (.netd creds l), [])
    | .error e => (.failed s!"dhcp: {e}", [])
  | netd creds l => match l.gateway with
    | none => (.failed "lease has no gateway — cannot set default network", [])
    | some _ => match w.netdConfig with
      | .ok () => (.done (onlineStatus creds l), [])
      | .error e => (.failed e, [])

/-! ## The agents -/

/-- What the main thread is to do next: first the boot, then the monitor. -/
inductive Main
  | bootLookUp
  | bootBringUp (b : BringUp)
  | bootReport (first : Option LinkStatus)
  | bootStore (status : LinkStatus)
  | bootServe
  | sleep
  | check
  | carrier
  | offline
  | lookUp
  | bringUp (b : BringUp)
  | store (status : LinkStatus)
  | report (status : LinkStatus)
  | reannounce
  | announce (status : LinkStatus)

/-- What the thread of the control socket is to do next. -/
inductive Control
  | unborn
  | listen
  | lock (creds : WifiCreds)
  | connect (ssid : String) (b : BringUp)
  | swap (ssid : String) (status : LinkStatus)
  | report (ssid : String) (status : LinkStatus)
  | setEnabled (on : Bool)

/-- The state of the daemon. The lock is held by the thread of the control socket, if it
    is held between steps. -/
structure State where
  link : Option LinkStatus := none
  locked : Bool := false
  main : Main := .bootLookUp
  control : Control := .unborn
  ticks : Nat := 0

namespace State

/-- A step of the main thread; none while it waits for the lock. -/
def mainStep (w : Answers) (s : State) : Option (State × List Act) :=
  match s.main with
  | .bootLookUp => match chooseCreds w with
    | .ok creds => some ({ s with main := .bootBringUp (.start creds false) }, [])
    | .error _ => some ({ s with main := .bootReport none }, [])
  | .bootBringUp b => match b.step w with
    | (.onward b, acts) => some ({ s with main := .bootBringUp b }, acts)
    | (.failed _, acts) => some ({ s with main := .bootReport none }, acts)
    | (.done status, acts) => some ({ s with main := .bootReport (some status) }, acts)
  | .bootReport (some status) => some ({ s with main := .bootStore status }, [.reported status])
  | .bootReport none => some ({ s with main := .bootServe }, [.reported {}])
  | .bootStore status =>
    if s.locked then none else some ({ s with link := some status, main := .bootServe }, [])
  | .bootServe => some ({ s with control := .listen, main := .sleep }, [])
  | .sleep => some ({ s with ticks := (s.ticks + 1) % 2 ^ 32, main := .check }, [])
  | .check =>
    if s.locked then none
    else some ({ s with main := if s.link.isSome then .carrier else .lookUp }, [])
  | .carrier =>
    some ({ s with main :=
      if ¬ w.carrier then .offline else if s.ticks % 6 = 0 then .reannounce else .sleep }, [])
  | .offline => some ({ s with main := .lookUp }, [.reported {}])
  | .lookUp => match chooseCreds w with
    | .ok creds => some ({ s with main := .bringUp (.start creds false) }, [])
    | .error _ => some ({ s with main := .sleep }, [])
  | .bringUp b => match b.step w with
    | (.onward b, acts) => some ({ s with main := .bringUp b }, acts)
    | (.failed _, acts) => some ({ s with main := .sleep }, acts)
    | (.done status, acts) => some ({ s with main := .store status }, acts)
  | .store status =>
    if s.locked then none else some ({ s with link := some status, main := .report status }, [])
  | .report status => some ({ s with main := .sleep }, [.reported status])
  | .reannounce =>
    if s.locked then none else some ({ s with main := .announce (s.link.getD {}) }, [])
  | .announce status => some ({ s with main := .sleep }, [.reported status])

/-- What the control socket answers at once, or else what is to be done for the answer. -/
def receive (w : Answers) (request : Request) (s : State) : State × List Act :=
  match request with
  | .scan => (s, [.received request, .replied w.scan])
  | .connect (.ok creds) => ({ s with control := .lock creds }, [.received request])
  | .connect (.error e) => (s, [.received request, .replied e])
  | .setEnabled on => ({ s with control := .setEnabled on }, [.received request])
  | .isEnabled => (s, [.received request, .replied s!"ok enabled={bit w.radio}\n"])
  | .none => (s, [.received request, .replied ""])
  | .unknown verb => (s, [.received request, .replied s!"err unknown-verb {verb}\n"])

/-- A step of the thread of the control socket on a request it received; none while it
    waits for a request or for the lock. -/
def controlStep (w : Answers) (s : State) : Option (State × List Act) :=
  match s.control with
  | .unborn | .listen => none
  | .lock creds =>
    if s.locked then none
    else some ({ s with locked := true, control := .connect creds.ssid (.start creds true) }, [])
  | .connect ssid b => match b.step w with
    | (.onward b, acts) => some ({ s with control := .connect ssid b }, acts)
    | (.failed e, acts) =>
      some ({ s with locked := false, control := .listen },
        acts ++ [.replied s!"err connect {e}\n"])
    | (.done status, acts) => some ({ s with control := .swap ssid status }, acts)
  | .swap ssid status =>
    some ({ s with link := some status, locked := false, control := .report ssid status }, [])
  | .report ssid status =>
    let ip := (status.ip.map Ipv4.render).getD "-"
    some ({ s with control := .listen },
      [.reported status, .replied s!"ok online ssid={b64Encode (utf8Encode ssid)} ip={ip}\n"])
  | .setEnabled on =>
    match if on then w.powerChip else w.stopChip with
    | .ok () => some ({ s with control := .listen },
        [if on then .powerUp else .powerDown, .replied s!"ok enabled={bit on}\n"])
    | .error e => some ({ s with control := .listen }, [.replied s!"err set-enabled {e}\n"])

end State

/-! ## Runs -/

/-- Which agent takes a step: the main thread, or the thread of the control socket, on a
    line it is sent or on with what it is doing. -/
inductive Turn
  | main
  | receive (text : List Char)
  | control

/-- A step of the daemon. -/
def State.step (w : Answers) (t : Turn) (s : State) : Option (State × List Act) :=
  match t with
  | .main => s.mainStep w
  | .receive text => match s.control with
    | .listen => some (s.receive w (handleControlConn text))
    | _ => none
  | .control => s.controlStep w

/-- A condition on a step: on what was observed before, the answers, the state and the
    agent. -/
abbrev Condition := List Act → Answers → State → Turn → Prop

/-- The runs of the daemon whose steps meet a condition, with what is observed. -/
inductive Run (Ok : Condition) : State → List Act → Prop
  | start : Run Ok {} []
  | step {s s' : State} {acts new : List Act} (w : Answers) (t : Turn) : Run Ok s acts →
      Ok acts w s t → s.step w t = some (s', new) → Run Ok s' (acts ++ new)

/-! ## Switching off -/

/-- The chip is powered up, or an association is started. -/
def Act.Raises : Act → Prop
  | .powerUp | .associating _ => True
  | _ => False

/-- What switches the radio off, and what asks for it again. -/
def Act.switches : Act → Option Bool
  | .powerDown => some true
  | .received (.setEnabled true) | .received (.connect (.ok _)) => some false
  | _ => none

/-- A radio is switched off in the end, from one that is switched off or not. -/
def switched (off : Bool) (acts : List Act) : Bool :=
  acts.foldl (fun off a => a.switches.getD off) off

/-- The radio was switched off, and nothing was asked of it since. -/
def switchedOff (acts : List Act) : Bool := switched false acts

/-- From a radio that is switched off or not, it is not raised while it is. -/
def StaysOff : Bool → List Act → Prop
  | _, [] => True
  | off, a :: acts => (a.Raises → off = false) ∧ StaysOff (a.switches.getD off) acts

/-- A bring-up is past its look at the carrier, and before its association. -/
def BringUp.Raising : BringUp → Prop
  | .power _ | .spawn _ | .associate _ => True
  | _ => False

/-- The bring-up of the main thread. -/
def Main.bringUp? : Main → Option BringUp
  | .bootBringUp b | .bringUp b => some b
  | _ => none

/-- The main thread is about to raise the radio. -/
def Main.Raising (m : Main) : Prop := ∃ b, m.bringUp? = some b ∧ b.Raising

/-- The thread of the control socket is about to raise the radio. -/
def Control.Raising : Control → Prop
  | .lock _ | .connect .. | .setEnabled true => True
  | _ => False

/-- The monitor leaves the radio off: while it is switched off, a bring-up that looks at the
    carrier finds one, and the chip is not powered down behind that look. -/
def LeavesOff : Condition := fun acts w s t =>
  match t with
  | .main => switchedOff acts → ∀ creds force, s.main.bringUp? = some (.start creds force) →
      w.carrier ∧ ¬ force
  | .receive _ => True
  | .control => s.control = .setEnabled false → w.stopChip = .ok () → ¬ s.main.Raising

theorem switchedOff_append {acts new : List Act} :
    switchedOff (acts ++ new) = switched (switchedOff acts) new :=
  List.foldl_append

theorem staysOff_append {off : Bool} {acts new : List Act} : StaysOff off (acts ++ new) ↔
    StaysOff off acts ∧ StaysOff (switched off acts) new := by
  induction acts generalizing off with
  | nil => simp [StaysOff, switched]
  | cons a acts ih =>
    simp only [List.cons_append, StaysOff, ih, and_assoc, switched, List.foldl_cons]

section

variable {new : List Act} (hs : ∀ a ∈ new, a.switches = none)

include hs

theorem switched_of_calm {off : Bool} : switched off new = off := by
  induction new generalizing off with
  | nil => rfl
  | cons a new ih =>
    rw [switched, List.foldl_cons, hs a List.mem_cons_self]
    exact ih fun b hb => hs b (List.mem_cons_of_mem _ hb)

theorem staysOff_of_calm {off : Bool} (h : off → ∀ a ∈ new, ¬ a.Raises) : StaysOff off new := by
  induction new generalizing off with
  | nil => trivial
  | cons a new ih =>
    refine ⟨fun ha => ?_, ?_⟩
    · by_contra hoff
      exact h (by simpa using hoff) a List.mem_cons_self ha
    · rw [hs a List.mem_cons_self]
      exact ih (fun b hb => hs b (List.mem_cons_of_mem _ hb))
        fun ho b hb => h ho b (List.mem_cons_of_mem _ hb)

end

namespace BringUp

variable {w : Answers} {b b' : BringUp}

/-- A bring-up switches nothing. -/
theorem step_switches (w : Answers) (b : BringUp) : ∀ a ∈ (b.step w).2, a.switches = none := by
  intro a ha
  cases b <;> grind [BringUp.step, Act.switches]

/-- A bring-up raises the radio only past its look at the carrier. -/
theorem step_raises (h : ¬ b.Raising) : ∀ a ∈ (b.step w).2, ¬ a.Raises := by
  intro a ha hr
  cases b <;> grind [BringUp.step, Act.Raises, BringUp.Raising]

/-- A bring-up gets past its look where there is no association to use again. -/
theorem step_raising (h : ¬ b.Raising) (hb : (b.step w).1 = .onward b')
    (hg : ∀ creds force, b = .start creds force → w.carrier ∧ ¬ force) : ¬ b'.Raising := by
  intro hr
  cases b <;> grind [BringUp.step, BringUp.Raising]

end BringUp

/-- What a step of the main thread has to do with the radio. -/
structure State.Steady (w : Answers) (s s' : State) (new : List Act) : Prop where
  switches : ∀ a ∈ new, a.switches = none
  raises : ¬ s.main.Raising → ∀ a ∈ new, ¬ a.Raises
  raising : ¬ s.main.Raising →
    (∀ creds force, s.main.bringUp? = some (.start creds force) → w.carrier ∧ ¬ force) →
      ¬ s'.main.Raising
  control : s'.control = s.control ∨ s'.control = .listen

namespace State

variable {w : Answers} {s s' : State} {acts new : List Act}

/-- A step that is none of a bring-up. -/
theorem Steady.of_apart (hb : s'.main.bringUp? = none ∨
      ∃ creds force, s'.main.bringUp? = some (.start creds force))
    (ha : ∀ a ∈ new, ∃ status, a = .reported status)
    (hc : s'.control = s.control ∨ s'.control = .listen) : Steady w s s' new where
  switches a h := by
    obtain ⟨_, rfl⟩ := ha a h
    rfl
  raises _ a h hr := by
    obtain ⟨_, rfl⟩ := ha a h
    exact hr
  raising _ _ := by
    rintro ⟨b, hm, hr⟩
    rcases hb with hb | ⟨_, _, hb⟩
    · rw [hb] at hm
      cases hm
    · rw [hb] at hm
      cases hm
      exact hr
  control := hc

/-- A step of the bring-up of the main thread. -/
theorem Steady.of_bringUp {b : BringUp} (hm : s.main.bringUp? = some b)
    (hb : ∀ b', s'.main.bringUp? = some b' → (b.step w).1 = .onward b')
    (hc : s'.control = s.control) : Steady w s s' (b.step w).2 where
  switches := b.step_switches w
  raises h := BringUp.step_raises fun hr => h ⟨b, hm, hr⟩
  raising h hg := by
    rintro ⟨b', hm', hr⟩
    refine BringUp.step_raising (fun hr => h ⟨b, hm, hr⟩) (hb b' hm') (fun creds force he => ?_) hr
    exact hg creds force (he ▸ hm)
  control := .inl hc

theorem mainStep_steady (h : s.mainStep w = some (s', new)) : Steady w s s' new := by
  unfold mainStep at h
  cases hm : s.main with
  | bootBringUp b | bringUp b =>
    have hb : s.main.bringUp? = some b := by rw [hm]; rfl
    simp only [hm] at h
    rcases hp : b.step w with ⟨p, as⟩
    have has : as = (b.step w).2 := by rw [hp]
    have hp' : (b.step w).1 = p := by rw [hp]
    rw [hp] at h
    cases p with
    | onward b₁ =>
      obtain ⟨rfl, rfl⟩ := Prod.mk.inj (Option.some.inj h)
      rw [has]
      exact .of_bringUp hb (fun _ h' => hp'.trans (congrArg _ (Option.some.inj h'))) rfl
    | failed e | done status =>
      obtain ⟨rfl, rfl⟩ := Prod.mk.inj (Option.some.inj h)
      rw [has]
      exact .of_bringUp hb (fun _ h' => nomatch h') rfl
  | bootReport first =>
    simp only [hm] at h
    cases first <;> refine .of_apart ?_ ?_ ?_ <;> grind [Main.bringUp?]
  | _ =>
    simp only [hm] at h
    refine .of_apart ?_ ?_ ?_ <;> grind [Main.bringUp?]

/-- A step of the thread of the control socket powers the chip down, or switches nothing
    and raises the radio where it was about to. -/
theorem controlStep_cases (h : s.controlStep w = some (s', new)) :
    (s.control = .setEnabled false ∧ w.stopChip = .ok () ∧ s'.control = .listen ∧
      s'.main = s.main ∧ ∃ reply, new = [.powerDown, .replied reply]) ∨
    ((∀ a ∈ new, a.switches = none) ∧ s'.main = s.main ∧
      (¬ s.control.Raising → (∀ a ∈ new, ¬ a.Raises) ∧ ¬ s'.control.Raising)) := by
  unfold controlStep at h
  cases hc : s.control with
  | connect ssid b =>
    have hb := b.step_switches w
    simp only [hc] at h
    refine .inr ⟨?_, ?_, fun hr => absurd trivial hr⟩ <;> grind [Act.switches]
  | setEnabled on =>
    simp only [hc] at h
    cases on with
    | true => exact .inr ⟨by grind [Act.switches], by grind, fun hr => absurd trivial hr⟩
    | false =>
      cases hs : w.stopChip with
      | ok u => exact .inl (by grind)
      | error e =>
        refine .inr ⟨?_, ?_, fun _ => ⟨?_, ?_⟩⟩ <;>
          grind [Act.switches, Act.Raises, Control.Raising]
  | lock creds =>
    simp only [hc] at h
    exact .inr ⟨by grind, by grind, fun hr => absurd trivial hr⟩
  | _ =>
    simp only [hc] at h
    refine .inr ⟨?_, ?_, fun _ => ⟨?_, ?_⟩⟩ <;> grind [Act.switches, Act.Raises, Control.Raising]

/-- A request raises nothing by itself, and one that is to raise the radio asks for it. -/
theorem receive_cases (request : Request) (off : Bool) :
    (s.receive w request).1.main = s.main ∧ StaysOff off (s.receive w request).2 ∧
      (switched off (s.receive w request).2 → off ∧
        ((s.receive w request).1.control.Raising → s.control.Raising)) := by
  cases request with
  | connect creds =>
    cases creds <;> simp [receive, StaysOff, Act.Raises, switched, Act.switches]
  | setEnabled on =>
    cases on <;> simp [receive, StaysOff, Act.Raises, switched, Act.switches, Control.Raising]
  | _ => simp [receive, StaysOff, Act.Raises, switched, Act.switches]

end State

/-- A run that leaves the radio off keeps both agents from raising it. -/
theorem Run.leaves_off {s : State} {acts : List Act} (h : Run LeavesOff s acts) :
    StaysOff false acts ∧ (switchedOff acts → ¬ s.main.Raising ∧ ¬ s.control.Raising) := by
  induction h with
  | start => exact ⟨trivial, fun h => nomatch h⟩
  | @step s s' acts new w t _ hok hs ih =>
    obtain ⟨hstay, hoff⟩ := ih
    rw [staysOff_append, switchedOff_append]
    change (_ ∧ StaysOff (switchedOff acts) new) ∧ _
    cases t with
    | main =>
      have hst := State.mainStep_steady hs
      refine ⟨⟨hstay, staysOff_of_calm hst.switches fun ho => hst.raises (hoff ho).1⟩, fun ho => ?_⟩
      rw [switched_of_calm hst.switches] at ho
      refine ⟨hst.raising (hoff ho).1 (hok ho), ?_⟩
      rcases hst.control with hc | hc <;> rw [hc]
      · exact (hoff ho).2
      · exact id
    | receive text =>
      simp only [State.step] at hs
      split at hs
      · have hr := State.receive_cases (w := w) (s := s) (handleControlConn text) (switchedOff acts)
        rw [Option.some.inj hs] at hr
        refine ⟨⟨hstay, hr.2.1⟩, fun ho => ?_⟩
        obtain ⟨ho, hc⟩ := hr.2.2 ho
        rw [hr.1]
        exact ⟨(hoff ho).1, fun h => (hoff ho).2 (hc h)⟩
      · cases hs
    | control =>
      rcases State.controlStep_cases hs with ⟨hc, hstop, hc', hm, reply, rfl⟩ | ⟨hsw, hm, hr⟩
      · refine ⟨⟨hstay, by simp [StaysOff, Act.Raises]⟩, fun _ => ?_⟩
        rw [hm, hc']
        exact ⟨hok hc hstop, id⟩
      · refine ⟨⟨hstay, staysOff_of_calm hsw fun ho => (hr (hoff ho).2).1⟩, fun ho => ?_⟩
        rw [switched_of_calm hsw] at ho
        rw [hm]
        exact ⟨(hoff ho).1, (hr (hoff ho).2).2⟩

/-- In a run that leaves the radio off, what is switched off stays off. -/
theorem Run.stays_off {s : State} {acts : List Act} (h : Run LeavesOff s acts) :
    StaysOff false acts :=
  h.leaves_off.1

/-! ### Two runs -/

/-- No condition on the steps. -/
def Anyhow : Condition := fun _ _ _ _ => True

/-- The steps of a list, one after the other. -/
def follow : List (Answers × Turn) → State × List Act → Option (State × List Act)
  | [], r => some r
  | (w, t) :: l, (s, acts) => (s.step w t).bind fun r => follow l (r.1, acts ++ r.2)

theorem Run.follow {l : List (Answers × Turn)} {r r' : State × List Act} (h : Run Anyhow r.1 r.2)
    (hl : follow l r = some r') : Run Anyhow r'.1 r'.2 := by
  induction l generalizing r with
  | nil =>
    cases hl
    exact h
  | cons x l ih =>
    obtain ⟨r₁, hs, hl⟩ := Option.bind_eq_some_iff.mp hl
    exact ih (h.step x.1 x.2 trivial hs) hl

/-- Steps of the main thread that are answered the same. -/
def mains (n : Nat) (w : Answers) : List (Answers × Turn) := List.replicate n (w, .main)

/-- No network is found. -/
def silence : Answers := {}

/-- The radio is switched off on request after a boot that found no network. -/
def switchOff : List (Answers × Turn) :=
  mains 3 silence ++ [(silence, .receive "set-enabled 0\n".toList), (silence, .control)]

/-- With no network saved, the radio that was switched off stays off when the monitor
    looks for one. -/
theorem Run.stays_off_unsaved : ∃ s acts, Run LeavesOff s acts ∧ switchedOff acts ∧
    s.main = .sleep ∧ s.ticks = 1 ∧ StaysOff false acts := by
  have h₀ : Run LeavesOff {} [] := .start
  have h₁ := h₀.step {} .main (fun h => nomatch h) rfl
  have h₂ := h₁.step {} .main (fun h => nomatch h) rfl
  have h₃ := h₂.step {} .main (fun h => nomatch h) rfl
  have h₄ := h₃.step {} (.receive "set-enabled 0\n".toList) trivial rfl
  have h₅ := h₄.step {} .control (fun _ _ ⟨_, hb, _⟩ => nomatch hb) rfl
  have h₆ := h₅.step {} .main (fun _ _ _ hb => nomatch hb) rfl
  have h₇ := h₆.step {} .main (fun _ _ _ hb => nomatch hb) rfl
  have h₈ := h₇.step {} .main (fun _ _ _ hb => nomatch hb) rfl
  exact ⟨_, _, h₈, by decide, rfl, rfl, h₈.stays_off⟩

/-- The monitor finds a saved network and no carrier, and powers the chip up. -/
theorem retry_raises : ∃ s acts, Run Anyhow s acts ∧ ¬ StaysOff false acts := by
  let w : Answers := { auto := some ⟨"A", "pw"⟩ }
  have hl : follow (switchOff ++ mains 5 w) ({}, []) = some _ := rfl
  refine ⟨_, _, Run.follow .start hl, ?_⟩
  rintro ⟨-, -, -, -, h, -⟩
  exact absurd (h trivial) (by decide)

end Wandr.NetDaemon