import Wandr.Arbiter.Registry
import Wandr.NetDaemon.Control

/-!
# The link report

The daemon reports the name of the network as it is, in a line that the arbiter takes
apart at whitespace.

* `NetDaemon.arrives_iff`: a report arrives as it was sent exactly when the name of the
  network is a word and not the dash that stands for none;
* `NetDaemon.report_torn` is a report that does not arrive.
-/

namespace Wandr

open Text

/-- The snapshot that a report stands for. -/
def LinkStatus.netState (status : LinkStatus) : NetState :=
  if status.up then ⟨true, "wifi", status.ssid, status.ip.map Ipv4.render⟩ else .offline

namespace NetDaemon

/-- A report arrives at the arbiter: its line is taken for a report of the link, the link
    is recorded as it was reported, and every subscriber is told so if it is news. -/
def Arrives (m : NetModule) (c : Ctx) (status : LinkStatus) : Prop :=
  let command := parseCommand (((report status).head?.getD "").toList ++ ['\n'])
  let st := status.netState
  let r := m.onCommand .reportNetState command.2 c
  Verb.ofWire command.1 = some (.net .reportNetState) ∧ r.1.state = st ∧
    r.2.1.effects = c.effects ++
      (if st = m.state then [] else m.subscribers.map fun p => .hostLine p (.netChanged st.wire))

variable {m : NetModule} {c : Ctx} {status : LinkStatus}

/-! ## The arbiter's end -/

/-- Where the line is understood, a report arrives if it is understood as it was meant. -/
theorem arrives_iff_of_parseState {st : NetState} (hn : '\n' ∉ (statusWire status).toList)
    (hst : NetModule.parseState (splitWhitespace (statusWire status)) = some st) :
    Arrives m c status ↔ st = status.netState := by
  have hline : ((report status).head?.getD "").toList ++ ['\n'] =
      commandLine "report-net-state" (statusWire status) := by
    have hr : (report status).head?.getD "" = "report-net-state" ++ (" " ++ statusWire status) := by
      have hp : ("report-net-state " : String) = "report-net-state" ++ " " := rfl
      rw [← String.append_assoc, ← hp]
      rfl
    rw [hr, String.toList_append, String.toList_append, List.append_assoc]
    rfl
  have hparse := parseCommand_line (by decide : ' ' ∉ "report-net-state".toList) (by decide) hn
  rw [← hline] at hparse
  rw [← hparse.2] at hst
  have hverb : Verb.ofWire "report-net-state" = some (.net .reportNetState) := by decide
  simp only [Arrives, hparse.1, hverb, NetModule.onCommand, NetModule.cmdReportNetState, hst,
    true_and]
  by_cases heq : st = m.state
  · simp only [heq, ne_eq, not_true_eq_false, if_false]
    refine ⟨fun h => h.1, fun h => ⟨h, ?_⟩⟩
    rw [if_pos h.symm, List.append_nil]
  · simp only [ne_eq, heq, not_false_eq_true, if_true, NetModule.notify, Ctx.effects_deliverToAll]
    refine ⟨fun h => h.1, fun h => ⟨h, ?_⟩⟩
    rw [if_neg (h ▸ heq), h]

/-! ## The line -/

theorem render_eq {ip : Ipv4} : ip.render = toString ip.a.toNat ++ "." ++ toString ip.b.toNat ++
    "." ++ toString ip.c.toNat ++ "." ++ toString ip.d.toNat := rfl

theorem isWord_render {ip : Ipv4} : IsWord ip.render.toList := by
  have hdot : IsWord ".".toList := by decide
  have h {n : Nat} {s : String} (hs : IsWord s.toList) :
      IsWord (s ++ "." ++ toString n).toList := by
    rw [String.toList_append, String.toList_append]
    exact (hs.append hdot).append isWord_toString
  rw [render_eq]
  exact h (h (h isWord_toString))

theorem statusWire_up {ssid : String} {ip : Ipv4} (h : status.up) (hs : status.ssid = some ssid)
    (hip : status.ip = some ip) :
    statusWire status = "online" ++ " " ++ ("wifi" ++ " " ++ (ssid ++ " " ++ ip.render)) := by
  have hw : statusWire status = "online wifi " ++ ssid ++ " " ++ ip.render := by
    rw [statusWire, if_pos h, hs, hip]
    rfl
  have hp : ("online wifi " : String) = "online" ++ " " ++ ("wifi" ++ " ") := rfl
  rw [hw, hp]
  simp only [String.append_assoc]

/-- The words that a report consists of. -/
theorem splitWhitespace_statusWire {ssid : String} {ip : Ipv4} (h : status.up)
    (hs : status.ssid = some ssid) (hip : status.ip = some ip) :
    splitWhitespace (statusWire status) =
      "online" :: "wifi" :: splitWhitespace (ssid ++ " " ++ ip.render) := by
  rw [statusWire_up h hs hip, splitWhitespace_cons (by decide), splitWhitespace_cons (by decide)]

theorem notMem_statusWire {ssid : String} {ip : Ipv4} (h : status.up) (hs : status.ssid = some ssid)
    (hip : status.ip = some ip) (hn : '\n' ∉ ssid.toList) : '\n' ∉ (statusWire status).toList := by
  have hr : '\n' ∉ ip.render.toList := fun hr => absurd (isWord_render.2 _ hr) (by decide)
  rw [statusWire_up h hs hip]
  simp only [String.toList_append, List.mem_append, not_or]
  exact ⟨⟨by decide, by decide⟩, ⟨by decide, by decide⟩, ⟨hn, by decide⟩, hr⟩

/-- What the arbiter makes of a report is the network reported exactly when the name is a
    word and not the dash. -/
theorem parseState_statusWire {ssid : String} {ip : Ipv4} (h : status.up)
    (hs : status.ssid = some ssid) (hip : status.ip = some ip) :
    ∃ st, NetModule.parseState (splitWhitespace (statusWire status)) = some st ∧
      (st = status.netState ↔ IsWord ssid.toList ∧ ssid ≠ "-") := by
  refine ⟨_, by rw [splitWhitespace_statusWire h hs hip]; rfl, ?_⟩
  rw [LinkStatus.netState, if_pos h, hs, hip]
  constructor
  · intro heq
    -- Whatever the name is cut into, what is read in its place is a word.
    obtain ⟨hmem, hne⟩ := Option.filter_eq_some_iff.mp (congrArg NetState.ssid heq)
    have hword : ssid ∈ splitWhitespace (ssid ++ " " ++ ip.render) :=
      List.mem_of_getElem? (i := 0) hmem
    exact ⟨isWord_of_mem_splitWhitespace hword, by simpa using hne⟩
  · rintro ⟨hword, hne⟩
    have hip : ip.render ≠ "-" := by
      intro hip
      have hdot : '.' ∈ ip.render.toList := by
        rw [render_eq]
        simp
      rw [hip] at hdot
      exact absurd hdot (by decide)
    rw [splitWhitespace_cons hword, splitWhitespace_word isWord_render]
    simp [Option.filter, hne, hip]

/-- A report arrives as it was sent exactly when the name of the network is a word and
    not the dash. -/
theorem arrives_iff (h : status.up → ∃ ssid ip, status.ssid = some ssid ∧ ssid ≠ "" ∧
      '\n' ∉ ssid.toList ∧ status.ip = some ip) :
    Arrives m c status ↔
      (status.up → ∀ ssid, status.ssid = some ssid → IsWord ssid.toList ∧ ssid ≠ "-") := by
  by_cases hup : status.up
  · obtain ⟨ssid, ip, hs, -, hn, hip⟩ := h hup
    obtain ⟨st, hst, hiff⟩ := parseState_statusWire hup hs hip
    rw [arrives_iff_of_parseState (notMem_statusWire hup hs hip hn) hst, hiff]
    simp [hup, hs]
  · have hw : statusWire status = "offline" := if_neg hup
    have hst : NetModule.parseState (splitWhitespace (statusWire status)) = some .offline := by
      rw [hw]
      decide
    rw [arrives_iff_of_parseState (by rw [hw]; decide) hst, LinkStatus.netState, if_neg hup]
    simp [hup]

theorem arrives_iff_cafe :
    Arrives {} { store := {} } ⟨true, some "Cafe", some ⟨10, 0, 0, 7⟩, none, []⟩ ↔
      (true → ∀ ssid, some "Cafe" = some ssid → IsWord ssid.toList ∧ ssid ≠ "-") :=
  arrives_iff fun _ => ⟨"Cafe", _, rfl, by decide, by decide, rfl⟩

/-- The name of a network may have a space in it. -/
theorem report_torn : ¬ ∀ (m : NetModule) (c : Ctx) (status : LinkStatus),
    (status.up → ∃ ssid ip, status.ssid = some ssid ∧ ssid ≠ "" ∧ '\n' ∉ ssid.toList ∧
      status.ip = some ip) → Arrives m c status := by
  intro h
  have hr := h {} { store := {} } ⟨true, some "Cafe Net", some ⟨10, 0, 0, 7⟩, none, []⟩
    fun _ => ⟨"Cafe Net", _, rfl, by decide, by decide, rfl⟩
  exact absurd hr.2.1 (by decide)

end NetDaemon

end Wandr
