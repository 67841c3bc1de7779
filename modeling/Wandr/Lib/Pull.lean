import Mathlib.Data.List.Infix

/-!
# Programs that wait for bytes

A program waits for bytes of a stream, a number of them, or all up to some mark. It goes on with
what it was given, or with an error when the stream has ended. A `Reader` says when the bytes at
hand are enough for a program that waits, and that more of them are too.

* `Pull.drain_append`: bytes that come in pieces are as good as bytes that come at once;
* `Pull.Gives.bind`: programs that go on with one another;
* `Pull.Consumes.fails_bind`: programs that take some bytes and fail on fewer of them.
-/

/-- What a program waits for, and what it is given. -/
structure Reader (ρ ε : Type) where
  /-- How many of the bytes at hand are given, if they are enough. -/
  enough : ρ → List UInt8 → Option Nat
  /-- What is given when they are not and there will be no more, and what is left. -/
  atEnd : ρ → List UInt8 → Except ε (List UInt8) × List UInt8
  enough_le : ∀ r b n, enough r b = some n → n ≤ b.length
  enough_append : ∀ r b c n, enough r b = some n → enough r (b ++ c) = some n

/-- A program that waits for bytes. Its rounds may be spent before it comes to an end. -/
inductive Pull (ρ ε α : Type) where
  | done (a : α)
  | read (r : ρ) (k : Except ε (List UInt8) → Pull ρ ε α)
  | spent

namespace Pull

variable {ρ ε α β : Type} {R : Reader ρ ε} {ended : Bool} {b c d : List UInt8}

/-- Go on with another program. -/
def bind : Pull ρ ε α → (α → Pull ρ ε β) → Pull ρ ε β
  | .done a, f => f a
  | .read r k, f => .read r fun x => (k x).bind f
  | .spent, _ => .spent

instance : Monad (Pull ρ ε) where
  pure := .done
  bind := bind

/-- Wait for some bytes. -/
def await (r : ρ) : Pull ρ ε (Except ε (List UInt8)) := .read r .done

/-- Go on as far as the bytes at hand allow. -/
def drain (R : Reader ρ ε) (ended : Bool) : Pull ρ ε α → List UInt8 → Pull ρ ε α × List UInt8
  | .done a, b => (.done a, b)
  | .read r k, b =>
    match R.enough r b with
    | some n => drain R ended (k (.ok (b.take n))) (b.drop n)
    | none =>
      if ended then drain R ended (k (R.atEnd r b).1) (R.atEnd r b).2 else (.read r k, b)
  | .spent, b => (.spent, b)

variable {p : Pull ρ ε α} {r : ρ} {k : Except ε (List UInt8) → Pull ρ ε α} {a : α}

@[simp]
theorem drain_done : drain R ended (.done a) b = (.done a, b) := rfl

@[simp]
theorem drain_spent : drain R ended (.spent : Pull ρ ε α) b = (.spent, b) := rfl

theorem drain_read : drain R ended (.read r k) b =
    match R.enough r b with
    | some n => drain R ended (k (.ok (b.take n))) (b.drop n)
    | none =>
      if ended then drain R ended (k (R.atEnd r b).1) (R.atEnd r b).2 else (.read r k, b) := by
  rw [drain]

theorem drain_enough {n : Nat} (h : R.enough r b = some n) :
    drain R ended (.read r k) b = drain R ended (k (.ok (b.take n))) (b.drop n) := by
  rw [drain_read, h]

theorem drain_wait (h : R.enough r b = none) : drain R false (.read r k) b = (.read r k, b) := by
  rw [drain_read, h]
  exact if_neg Bool.false_ne_true

theorem drain_atEnd (h : R.enough r b = none) :
    drain R true (.read r k) b = drain R true (k (R.atEnd r b).1) (R.atEnd r b).2 := by
  rw [drain_read, h]
  exact if_pos rfl

/-- Bytes that come in pieces are as good as bytes that come at once. -/
theorem drain_append (p : Pull ρ ε α) (b c : List UInt8) :
    drain R ended p (b ++ c) =
      drain R ended (drain R false p b).1 ((drain R false p b).2 ++ c) := by
  induction p generalizing b with
  | done a => rfl
  | spent => rfl
  | read r k ih =>
    cases h : R.enough r b with
    | some n =>
      have hn := R.enough_le r b n h
      rw [drain_enough h, ← ih, drain_enough (R.enough_append r b c n h),
        List.take_append_of_le_length hn, List.drop_append_of_le_length hn]
    | none => rw [drain_wait h]

/-- What has gone as far as it can goes no further. -/
theorem drain_drain (p : Pull ρ ε α) (b : List UInt8) :
    drain R ended (drain R ended p b).1 (drain R ended p b).2 = drain R ended p b := by
  induction p generalizing b with
  | done a => rfl
  | spent => rfl
  | read r k ih =>
    cases h : R.enough r b with
    | some n =>
      rw [drain_enough h]
      exact ih _ _
    | none =>
      cases ended with
      | true =>
        rw [drain_atEnd h]
        exact ih _ _
      | false => rw [drain_wait h, drain_wait h]

/-- A program that has come to its end without the end of the stream comes to it there too. -/
theorem drain_of_done (h : drain R false p b = (.done a, c)) :
    drain R ended p b = (.done a, c) := by
  have happ : drain R ended p (b ++ []) = _ := drain_append p b []
  rw [h, List.append_nil, List.append_nil] at happ
  exact happ

theorem drain_bind (p : Pull ρ ε α) (f : α → Pull ρ ε β) (b : List UInt8) :
    drain R ended (p.bind f) b =
      drain R ended ((drain R ended p b).1.bind f) (drain R ended p b).2 := by
  induction p generalizing b with
  | done a => rfl
  | spent => rfl
  | read r k ih =>
    rw [bind]
    cases h : R.enough r b with
    | some n =>
      rw [drain_enough h, drain_enough h]
      exact ih _ _
    | none =>
      cases ended with
      | true =>
        rw [drain_atEnd h, drain_atEnd h]
        exact ih _ _
      | false => rw [drain_wait h, drain_wait h, bind, drain_wait h]

theorem drain_bind_done {f : α → Pull ρ ε β} (h : drain R ended p b = (.done a, c)) :
    drain R ended (p.bind f) b = drain R ended (f a) c := by
  rw [drain_bind, h, bind]

/-! ## Programs that fail -/

variable (R)

/-- A program comes to a result, and leaves some bytes. -/
def Gives (p : ExceptT ε (Pull ρ ε) α) (b : List UInt8) (a : α) (c : List UInt8) : Prop :=
  drain R false p.run b = (.done (.ok a), c)

/-- A program comes to an error. -/
def Fails (ended : Bool) (p : ExceptT ε (Pull ρ ε) α) (b : List UInt8) : Prop :=
  ∃ e c, drain R ended p.run b = (.done (.error e), c)

/-- A program takes some bytes, and fails when the stream ends before the last of them. -/
structure Consumes (p : ExceptT ε (Pull ρ ε) α) (b : List UInt8) (a : α) : Prop where
  gives : ∀ c, Gives R p (b ++ c) a c
  fails : ∀ c d, b = c ++ d → d ≠ [] → Fails R true p c

variable {R} {m : ExceptT ε (Pull ρ ε) α} {f : α → ExceptT ε (Pull ρ ε) β} {x : β}

theorem Gives.bind (hm : Gives R m b a c) (hf : Gives R (f a) c x d) : Gives R (m >>= f) b x d :=
  (drain_bind_done hm).trans hf

theorem Gives.drain (hm : Gives R m b a c) : drain R ended m.run b = (.done (.ok a), c) :=
  drain_of_done hm

/-- What comes of a program that goes on is what comes of the other one. -/
theorem Gives.drain_bind (hm : Gives R m b a c) :
    Pull.drain R ended (m >>= f).run b = Pull.drain R ended (f a).run c :=
  drain_bind_done hm.drain

theorem Gives.fails_bind (hm : Gives R m b a c) (hf : Fails R ended (f a) c) :
    Fails R ended (m >>= f) b := by
  obtain ⟨e, d, hd⟩ := hf
  exact ⟨e, d, hm.drain_bind.trans hd⟩

theorem Fails.bind (h : Fails R ended m b) : Fails R ended (m >>= f) b := by
  obtain ⟨e, d, hd⟩ := h
  exact ⟨e, d, (drain_bind_done hd).trans rfl⟩

/-- The other one fails when the stream ends before its last byte, and so do both. -/
theorem Consumes.fails_bind (hm : Consumes R m b a)
    (hf : ∀ c' d', c = c' ++ d' → d' ≠ [] → Fails R true (f a) c') :
    ∀ c' d', b ++ c = c' ++ d' → d' ≠ [] → Fails R true (m >>= f) c' := by
  intro c' d' h hd
  rcases List.append_eq_append_iff.mp h with ⟨w, rfl, rfl⟩ | ⟨w, rfl, rfl⟩
  · exact (hm.gives w).fails_bind (hf w d' rfl hd)
  · by_cases hw : w = []
    · subst hw
      have hg := hm.gives []
      rw [List.append_nil] at hg
      rw [List.append_nil] at hg
      exact hg.fails_bind (hf [] c rfl hd)
    · exact (hm.fails c' w rfl hw).bind

/-- Bytes that are enough, and of which fewer are not. -/
theorem Consumes.await {r : ρ} (hg : ∀ c, R.enough r (b ++ c) = some b.length)
    (hf : ∀ c d, b = c ++ d → d ≠ [] → R.enough r c = none ∧ ∃ e, (R.atEnd r c).1 = .error e) :
    Consumes R (.mk (Pull.await r) : ExceptT ε (Pull ρ ε) (List UInt8)) b b where
  gives c := by
    have he : Pull.drain R false (Pull.await r) (b ++ c) = _ := drain_enough (hg c)
    rw [List.take_left, List.drop_left] at he
    exact he
  fails c d h hd := by
    obtain ⟨hn, e, he⟩ := hf c d h hd
    refine ⟨e, (R.atEnd r c).2, ?_⟩
    have ha : Pull.drain R true (Pull.await r) c = _ := drain_atEnd hn
    rw [he] at ha
    exact ha

end Pull
