import Mathlib.Data.List.Nodup
import Mathlib.Data.List.Perm.Basic

/-!
# Ledgers

What is accepted goes into a queue, from where it is taken to be done. None is lost if each is
still in the queue or was done; and none is done twice.

* `Ledger.Kept.accept`: what is new may be accepted;
* `Ledger.Kept.take_iff`: what is taken from the queue is not lost if and only if it is done.
-/

namespace Ledger

variable {α : Type*} {Q Q' : α → Prop} {a : α} {accepted queued done : List α} {b : Bool}

/-- What was accepted is queued, or was done, as it should be. None is there twice. -/
structure Kept (Q : α → Prop) (accepted queued done : List α) : Prop where
  kept : ∀ a ∈ accepted, a ∈ queued ∨ (a ∈ done ∧ Q a)
  once : (queued ++ done).Nodup
  known : ∀ a ∈ queued ++ done, a ∈ accepted

theorem Kept.nil : Kept Q [] [] [] :=
  ⟨fun _ h => (List.not_mem_nil h).elim, List.nodup_nil, fun _ h => (List.not_mem_nil h).elim⟩

/-- What was done as it should be stays so. -/
theorem Kept.mono (h : Kept Q accepted queued done) (hq : ∀ a, Q a → Q' a) :
    Kept Q' accepted queued done :=
  ⟨fun a ha => (h.kept a ha).imp_right fun hd => ⟨hd.1, hq a hd.2⟩, h.once, h.known⟩

/-- What is new is accepted. -/
theorem Kept.accept (h : Kept Q accepted queued done) (ha : a ∉ accepted) :
    Kept Q (accepted ++ [a]) (queued ++ [a]) done := by
  have hp : (queued ++ [a] ++ done).Perm (a :: (queued ++ done)) := by
    rw [List.append_assoc]
    exact List.perm_middle
  refine ⟨fun c hc => ?_, ?_, fun c hc => ?_⟩
  · rcases List.mem_append.1 hc with hc | hc
    · exact (h.kept c hc).imp_left (List.mem_append_left _)
    · exact .inl (List.mem_append_right _ hc)
  · rw [hp.nodup_iff]
    exact List.nodup_cons.2 ⟨fun hm => ha (h.known a hm), h.once⟩
  · rcases List.mem_cons.1 (hp.mem_iff.1 hc) with rfl | hc
    · exact List.mem_append_right _ List.mem_cons_self
    · exact List.mem_append_left _ (h.known c hc)

/-- What is taken from the queue is not lost if and only if it is done, and as it should be. -/
theorem Kept.take_iff (h : Kept Q accepted (a :: queued) done) (hq : ∀ c, Q c → Q' c) :
    Kept Q' accepted queued (if b then done ++ [a] else done) ↔ b ∧ Q' a := by
  have hn := List.nodup_cons.1 h.once
  constructor
  · intro hk
    rcases hk.kept a (h.known a List.mem_cons_self) with ha | ⟨ha, hqa⟩
    · exact (hn.1 (List.mem_append_left _ ha)).elim
    · refine ⟨?_, hqa⟩
      cases b with
      | true => rfl
      | false => exact (hn.1 (List.mem_append_right _ ha)).elim
  · rintro ⟨rfl, hqa⟩
    rw [if_pos rfl]
    have hp : (queued ++ (done ++ [a])).Perm (a :: queued ++ done) := by
      rw [← List.append_assoc]
      exact List.perm_append_comm
    refine ⟨fun c hc => ?_, hp.nodup_iff.2 h.once, fun c hc => h.known c (hp.mem_iff.1 hc)⟩
    rcases h.kept c hc with hc | ⟨hc, hqc⟩
    · rcases List.mem_cons.1 hc with rfl | hc
      · exact .inr ⟨List.mem_append_right _ List.mem_cons_self, hqa⟩
      · exact .inl hc
    · exact .inr ⟨List.mem_append_left _ hc, hq c hqc⟩

end Ledger
