import Wandr.Lib.Machine

/-!
# Inputs that are not seen

Some inputs of a machine are foreign in the state they come in. If each leaves the state as it
is, a run is as good as the one without them: so are two that differ in them only
(`Purge.seen_congr`).
-/

namespace Purge

open Machine

variable {σ ι ο : Type*} (step : σ → ι → σ) (out : σ → ι → ο) (F : σ → ι → Prop)
  [∀ s i, Decidable (F s i)]

/-- The inputs that are not foreign. -/
def purge : σ → List ι → List ι
  | _, [] => []
  | s, i :: is => if F s i then purge (step s i) is else i :: purge (step s i) is

/-- What is put out at the inputs that are not foreign. -/
def seen : σ → List ι → List ο
  | _, [] => []
  | s, i :: is => if F s i then seen (step s i) is else out s i :: seen (step s i) is

/-- What is put out at each input. -/
def outputs : σ → List ι → List ο
  | _, [] => []
  | s, i :: is => out s i :: outputs (step s i) is

/-- A foreign input leaves the state as it is. -/
def Unseen (s : σ) (i : ι) : Prop := F s i → step s i = s

variable {step out F} {s : σ} {is js : List ι}

/-- A run is as good as the one without the foreign inputs. -/
theorem seen_eq (h : Goes step (Unseen step F) s is) :
    seen step out F s is = outputs step out s (purge step F s is) ∧
      is.foldl step s = (purge step F s is).foldl step s := by
  induction is generalizing s with
  | nil => exact ⟨rfl, rfl⟩
  | cons i is ih =>
    obtain ⟨hi, his⟩ := h
    rw [seen, purge, List.foldl_cons]
    by_cases hf : F s i
    · rw [if_pos hf, if_pos hf]
      rw [hi hf] at his ⊢
      exact ih his
    · rw [if_neg hf, if_neg hf]
      exact ⟨congrArg _ (ih his).1, (ih his).2⟩

/-- Two runs that differ in foreign inputs only put out the same, and end in the same state. -/
theorem seen_congr (h : Goes step (Unseen step F) s is) (h' : Goes step (Unseen step F) s js)
    (hp : purge step F s is = purge step F s js) :
    seen step out F s is = seen step out F s js ∧ is.foldl step s = js.foldl step s := by
  have hs : seen step out F s is = _ ∧ is.foldl step s = _ := seen_eq h
  have hs' : seen step out F s js = _ ∧ js.foldl step s = _ := seen_eq h'
  rw [hs.1, hs.2, hs'.1, hs'.2, hp]
  exact ⟨rfl, rfl⟩

end Purge
