import Mathlib.Data.List.Basic

/-!
# Programs that read bytes

A program asks for some number of bytes, and goes on with these or, when there are no more, with
an error. It goes as far as the bytes at hand allow and then waits.

* `Reads.drain_append`: bytes that come in pieces are as good as bytes that come at once;
* `Reads.drain_bind`: a program that goes on with another one leaves it what it has not taken;
* `Reads.Gives.bind`: so do programs that fail, as long as they do not.
-/

/-- A program that reads bytes. -/
inductive Reads (ε α : Type) where
  | done (a : α)
  | exact (n : Nat) (k : Except ε (List UInt8) → Reads ε α)

namespace Reads

variable {ε α β : Type} {b c : List UInt8} {ended : Option ε}

/-- Go on with another program. -/
def bind : Reads ε α → (α → Reads ε β) → Reads ε β
  | .done a, f => f a
  | .exact n k, f => .exact n fun r => (k r).bind f

instance : Monad (Reads ε) where
  pure := .done
  bind := bind

/-- Ask for some bytes. -/
def readExact (n : Nat) : Reads ε (Except ε (List UInt8)) := .exact n .done

/-- Go on as far as the bytes at hand allow. At the end of the stream there is an error in
    place of the bytes that are missing. -/
def drain (ended : Option ε) : Reads ε α → List UInt8 → Reads ε α × List UInt8
  | .done a, b => (.done a, b)
  | .exact n k, b =>
    if n ≤ b.length then drain ended (k (.ok (b.take n))) (b.drop n)
    else
      match ended with
      | some e => drain ended (k (.error e)) b
      | none => (.exact n k, b)

@[simp]
theorem pure_eq (a : α) : (pure a : Reads ε α) = .done a := rfl

@[simp]
theorem bind_eq (p : Reads ε α) (f : α → Reads ε β) : p >>= f = p.bind f := rfl

@[simp]
theorem drain_done (a : α) : drain ended (.done a) b = (.done a, b) := rfl

theorem drain_eq {n : Nat} {k : Except ε (List UInt8) → Reads ε α} :
    drain ended (.exact n k) b =
      if n ≤ b.length then drain ended (k (.ok (b.take n))) (b.drop n)
      else
        match ended with
        | some e => drain ended (k (.error e)) b
        | none => (.exact n k, b) := by
  cases ended <;> rfl

/-- There are enough bytes. -/
theorem drain_exact {n : Nat} {k : Except ε (List UInt8) → Reads ε α} (h : b.length = n) :
    drain ended (.exact n k) (b ++ c) = drain ended (k (.ok b)) c := by
  subst h
  rw [drain_eq, if_pos (by rw [List.length_append]; exact Nat.le_add_right _ _), List.take_left,
    List.drop_left]

/-- There are too few bytes, and there will be more. -/
theorem drain_wait {n : Nat} {k : Except ε (List UInt8) → Reads ε α} (h : b.length < n) :
    drain none (.exact n k) b = (.exact n k, b) := by
  rw [drain_eq, if_neg (Nat.not_le.2 h)]

/-- There are too few bytes, and there will be no more. -/
theorem drain_ended {n : Nat} {k : Except ε (List UInt8) → Reads ε α} {e : ε} (h : b.length < n) :
    drain (some e) (.exact n k) b = drain (some e) (k (.error e)) b := by
  rw [drain_eq, if_neg (Nat.not_le.2 h)]

/-- Nothing but the bytes taken is gone. -/
theorem drain_length_le (ended : Option ε) (p : Reads ε α) (b : List UInt8) :
    (drain ended p b).2.length ≤ b.length := by
  induction p generalizing b with
  | done a => exact Nat.le_refl _
  | exact n k ih =>
    rw [drain_eq]
    split
    · exact Nat.le_trans (ih _ _) (List.drop_suffix n b).length_le
    · split
      · exact ih _ _
      · exact Nat.le_refl _

/-- Bytes that come in pieces are as good as bytes that come at once. -/
theorem drain_append (p : Reads ε α) (b c : List UInt8) :
    drain ended p (b ++ c) = drain ended (drain none p b).1 ((drain none p b).2 ++ c) := by
  induction p generalizing b with
  | done a => rfl
  | exact n k ih =>
    by_cases h : n ≤ b.length
    · have hb : drain none (.exact n k) b = drain none (k (.ok (b.take n))) (b.drop n) := if_pos h
      rw [hb, ← ih, drain_eq, if_pos (by rw [List.length_append]; omega),
        List.take_append_of_le_length h, List.drop_append_of_le_length h]
    · rw [drain_wait (Nat.not_le.1 h)]

/-- A program that goes on with another one leaves it what it has not taken. -/
theorem drain_bind (p : Reads ε α) (f : α → Reads ε β) (b : List UInt8) :
    drain ended (p.bind f) b =
      drain ended ((drain ended p b).1.bind f) (drain ended p b).2 := by
  induction p generalizing b with
  | done a => rfl
  | exact n k ih =>
    rw [bind, drain_eq, drain_eq]
    split
    · exact ih _ _
    · next h =>
      cases ended with
      | some e => exact ih _ _
      | none =>
        dsimp only
        rw [bind, drain_eq, if_neg h]

/-- A program that comes to its end, gone on with another one. -/
theorem drain_bind_done {p : Reads ε α} {f : α → Reads ε β} {a : α}
    (h : drain ended p b = (.done a, c)) : drain ended (p.bind f) b = drain ended (f a) c := by
  rw [drain_bind, h, bind]

/-- At the end of the stream a program comes to its end. -/
theorem drain_some {e : ε} (p : Reads ε α) (b : List UInt8) :
    ∃ a c, drain (some e) p b = (.done a, c) := by
  induction p generalizing b with
  | done a => exact ⟨a, b, rfl⟩
  | exact n k ih =>
    rw [drain_eq]
    split
    · exact ih _ _
    · exact ih _ _

/-! ## Programs that fail -/

/-- A program comes to a result, and leaves some bytes. -/
def Gives (p : ExceptT ε (Reads ε) α) (b : List UInt8) (a : α) (c : List UInt8) : Prop :=
  drain none p.run b = (.done (.ok a), c)

theorem Gives.pure (a : α) (b : List UInt8) :
    Gives (Pure.pure a : ExceptT ε (Reads ε) α) b a b := rfl

theorem Gives.bind {p : ExceptT ε (Reads ε) α} {f : α → ExceptT ε (Reads ε) β} {d : List UInt8}
    {a : α} {x : β} (hp : Gives p b a c) (hf : Gives (f a) c x d) : Gives (p >>= f) b x d :=
  (drain_bind_done hp).trans hf

theorem Gives.map {p : ExceptT ε (Reads ε) α} {f : α → β} {a : α} (hp : Gives p b a c) :
    Gives (f <$> p) b (f a) c :=
  drain_bind_done hp

theorem Gives.readExact {n : Nat} (h : b.length = n) :
    Gives (.mk (readExact n) : ExceptT ε (Reads ε) (List UInt8)) (b ++ c) b c :=
  drain_exact h

/-- A program that comes to a result without the end of the stream comes to it there too. -/
theorem Gives.drain {p : ExceptT ε (Reads ε) α} {a : α} (hp : Gives p b a c) :
    drain ended p.run b = (.done (.ok a), c) := by
  have h : Reads.drain ended p.run (b ++ []) = _ := drain_append p.run b []
  rw [Gives] at hp
  rw [hp, List.append_nil, List.append_nil] at h
  exact h

/-- A program comes to an error at the end of the stream. -/
def Fails (e : ε) (p : ExceptT ε (Reads ε) α) (b : List UInt8) : Prop :=
  ∃ x c, drain (some e) p.run b = (.done (.error x), c)

theorem Fails.readExact {n : Nat} {e : ε} (h : b.length < n) :
    Fails e (.mk (Reads.readExact n) : ExceptT ε (Reads ε) (List UInt8)) b :=
  ⟨e, b, drain_ended h⟩

theorem Fails.bind {p : ExceptT ε (Reads ε) α} {f : α → ExceptT ε (Reads ε) β} {e : ε}
    (h : Fails e p b) : Fails e (p >>= f) b := by
  obtain ⟨x, c, hx⟩ := h
  exact ⟨x, c, drain_bind_done hx⟩

theorem Gives.fails_bind {p : ExceptT ε (Reads ε) α} {f : α → ExceptT ε (Reads ε) β} {a : α}
    {e : ε} (hp : Gives p b a c) (hf : Fails e (f a) c) : Fails e (p >>= f) b := by
  obtain ⟨x, d, hx⟩ := hf
  exact ⟨x, d, (drain_bind_done hp.drain).trans hx⟩

end Reads
