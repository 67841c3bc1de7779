import Mathlib.Tactic.TypeStar

/-!
# Trees from brackets

A tree is built from tokens that enter, add and leave its nodes. Some brackets have no node:
entering one does nothing, but leaving it leaves the node one is in. So a node may be left early,
and what comes after in it goes to one of the nodes around it.

* `Elem`: brackets that are well nested, and the trees they stand for;
* `Elem.Kept`: nothing comes after a node is left early, until its outermost bracket is left;
* `build_eq_iff`: the tree that is built is the right one if and only if this is so.
-/

namespace Nesting

variable {α : Type*}

inductive Tree (α : Type*)
  | mk (label : α) (children : List (Tree α))

namespace Tree

def label : Tree α → α
  | mk a _ => a

def children : Tree α → List (Tree α)
  | mk _ cs => cs

def append : Tree α → List (Tree α) → Tree α
  | mk a cs, ts => mk a (cs ++ ts)

def push (t : Tree α) (c : Tree α) : Tree α := t.append [c]

theorem append_nil (t : Tree α) : t.append [] = t := by
  cases t with
  | mk a cs => exact congrArg (mk a) (List.append_nil cs)

theorem append_append (t : Tree α) (ts us : List (Tree α)) :
    (t.append ts).append us = t.append (ts ++ us) := by
  cases t with
  | mk a cs => exact congrArg (mk a) (List.append_assoc cs ts us)

end Tree

inductive Token (α : Type*)
  | enter (label : Option α)
  | leaf (label : Option α)
  | leave

/-- The node one is in, and those around it. -/
structure Builder (α : Type*) where
  top : Tree α
  below : List (Tree α)

namespace Builder

def enter (b : Builder α) (a : α) : Builder α := ⟨.mk a [], b.top :: b.below⟩

def add (b : Builder α) (a : α) : Builder α := ⟨b.top.push (.mk a []), b.below⟩

/-- The outermost node is never left. -/
def leave (b : Builder α) : Builder α :=
  match b.below with
  | parent :: rest => ⟨parent.push b.top, rest⟩
  | [] => b

def step (b : Builder α) : Token α → Builder α
  | .enter (some a) => b.enter a
  | .enter none => b
  | .leaf (some a) => b.add a
  | .leaf none => b
  | .leave => b.leave

def run (b : Builder α) (ts : List (Token α)) : Builder α := ts.foldl step b

theorem run_append (b : Builder α) (ts us : List (Token α)) :
    b.run (ts ++ us) = (b.run ts).run us := List.foldl_append

/-- Trees are put into the node one is in. -/
def append (b : Builder α) (ts : List (Tree α)) : Builder α := ⟨b.top.append ts, b.below⟩

theorem append_append (b : Builder α) (ts us : List (Tree α)) :
    (b.append ts).append us = b.append (ts ++ us) :=
  congrArg (Builder.mk · b.below) (b.top.append_append ts us)

theorem append_nil (b : Builder α) : b.append [] = b :=
  congrArg (Builder.mk · b.below) b.top.append_nil

/-- What is built, when all nodes are left. -/
def whole (b : Builder α) : Tree α := b.below.foldl (fun t parent => parent.push t) b.top

theorem whole_leave (b : Builder α) : b.leave.whole = b.whole := by
  obtain ⟨top, below⟩ := b
  cases below <;> rfl

theorem whole_enter (b : Builder α) (a : α) (ts : List (Tree α)) :
    ((b.enter a).append ts).whole = (b.append [.mk a ts]).whole := rfl

end Builder

/-! ## Brackets -/

/-- Brackets that are well nested. -/
inductive Elem (α : Type*)
  | leaf (label : Option α)
  | node (label : Option α) (children : List (Elem α))

namespace Elem

mutual

def tokens : Elem α → List (Token α)
  | leaf a => [.leaf a]
  | node a cs => .enter a :: (tokensAll cs ++ [.leave])

def tokensAll : List (Elem α) → List (Token α)
  | [] => []
  | e :: es => tokens e ++ tokensAll es

end

mutual

/-- The trees brackets stand for: those without a node stand for what is in them. -/
def forest : Elem α → List (Tree α)
  | leaf (some a) => [.mk a []]
  | leaf none => []
  | node (some a) cs => [.mk a (forestAll cs)]
  | node none cs => forestAll cs

def forestAll : List (Elem α) → List (Tree α)
  | [] => []
  | e :: es => forest e ++ forestAll es

end

mutual

/-- There is no node in it. -/
def quiet : Elem α → Bool
  | leaf a => a.isNone
  | node a cs => a.isNone && quietAll cs

def quietAll : List (Elem α) → Bool
  | [] => true
  | e :: es => quiet e && quietAll es

end

mutual

/-- Whether a node around it is left early, if no other node comes after that. -/
def early : Elem α → Option Bool
  | leaf _ => some false
  | node (some _) cs => earlyAll cs
  | node none cs => (earlyAll cs).map fun _ => true

def earlyAll : List (Elem α) → Option Bool
  | [] => some false
  | e :: es => match early e with
    | none => none
    | some false => earlyAll es
    | some true => if quietAll es then some true else none

end

mutual

/-- No other node comes after a node is left early. -/
def Kept : Elem α → Prop
  | leaf _ => True
  | node (some _) cs => (earlyAll cs).isSome
  | node none cs => KeptAll cs

def KeptAll : List (Elem α) → Prop
  | [] => True
  | e :: es => Kept e ∧ KeptAll es

end

/-! ## What is built -/

mutual

/-- If no node is left early, the trees are put where they belong. -/
theorem run_exact : (e : Elem α) → e.early = some false → ∀ b : Builder α,
    b.run e.tokens = b.append e.forest
  | leaf (some _), _, _ => rfl
  | leaf none, _, b => b.append_nil.symm
  | node (some a) cs, h, b => by
    rw [tokens, forest]
    have hcs := runAll_exact cs h (b.enter a)
    change (b.enter a).run (tokensAll cs ++ [.leave]) = _
    rw [Builder.run_append, hcs]
    rfl
  | node none cs, h, _ => by
    rw [early] at h
    cases hcs : earlyAll cs with
    | none =>
      rw [hcs] at h
      cases h
    | some b =>
      rw [hcs] at h
      cases h

theorem runAll_exact : (es : List (Elem α)) → earlyAll es = some false → ∀ b : Builder α,
    b.run (tokensAll es) = b.append (forestAll es)
  | [], _, b => b.append_nil.symm
  | e :: es, h, b => by
    rw [earlyAll] at h
    split at h
    · cases h
    · next he =>
      rw [tokensAll, forestAll, Builder.run_append, run_exact e he, runAll_exact es h,
        Builder.append_append]
    · split at h <;> cases h

end

mutual

theorem run_quiet : (e : Elem α) → e.quiet = true →
    e.forest = [] ∧ ∀ b : Builder α, (b.run e.tokens).whole = b.whole
  | leaf none, _ => ⟨rfl, fun _ => rfl⟩
  | leaf (some _), h => by cases h
  | node none cs, h => by
    obtain ⟨hf, hr⟩ := runAll_quiet cs h
    refine ⟨hf, fun b => ?_⟩
    rw [tokens]
    change (b.run (tokensAll cs ++ [.leave])).whole = _
    rw [Builder.run_append]
    exact (Builder.whole_leave _).trans (hr b)
  | node (some _) _, h => by cases h

theorem runAll_quiet : (es : List (Elem α)) → quietAll es = true →
    forestAll es = [] ∧ ∀ b : Builder α, (b.run (tokensAll es)).whole = b.whole
  | [], _ => ⟨rfl, fun _ => rfl⟩
  | e :: es, h => by
    rw [quietAll, Bool.and_eq_true] at h
    obtain ⟨hf, hr⟩ := run_quiet e h.1
    obtain ⟨hfs, hrs⟩ := runAll_quiet es h.2
    refine ⟨by rw [forestAll, hf, hfs]; rfl, fun b => ?_⟩
    rw [tokensAll, Builder.run_append, hrs, hr]

end

mutual

/-- If no node comes after one is left early, what is built is right when all nodes are left. -/
theorem run_early : (e : Elem α) → ∀ v, e.early = some v → ∀ b : Builder α,
    (b.run e.tokens).whole = (b.append e.forest).whole
  | leaf a, _, _, b => by
    rw [run_exact (leaf a) rfl b]
  | node (some a) cs, v, h, b => by
    have hcs := runAll_early cs v h (b.enter a)
    rw [tokens, forest]
    change ((b.enter a).run (tokensAll cs ++ [.leave])).whole = _
    rw [Builder.run_append]
    exact (Builder.whole_leave _).trans (hcs.trans (b.whole_enter a _))
  | node none cs, v, h, b => by
    rw [early] at h
    obtain ⟨w, hw, -⟩ := Option.map_eq_some_iff.1 h
    have hcs := runAll_early cs w hw b
    rw [tokens, forest]
    change (b.run (tokensAll cs ++ [.leave])).whole = _
    rw [Builder.run_append]
    exact (Builder.whole_leave _).trans hcs

theorem runAll_early : (es : List (Elem α)) → ∀ v, earlyAll es = some v → ∀ b : Builder α,
    (b.run (tokensAll es)).whole = (b.append (forestAll es)).whole
  | [], _, _, b => by
    rw [forestAll, b.append_nil]
    rfl
  | e :: es, v, h, b => by
    rw [earlyAll] at h
    rw [tokensAll, forestAll, Builder.run_append, ← Builder.append_append]
    split at h
    · cases h
    · next he =>
      rw [run_exact e he]
      exact runAll_early es v h _
    · next he =>
      split at h
      · next hq =>
        obtain ⟨hf, hr⟩ := runAll_quiet es hq
        rw [hr, hf, Builder.append_nil]
        exact run_early e true he b
      · cases h

end

mutual

/-- Brackets leave as many nodes as they enter, or more. -/
theorem length_run : (e : Elem α) → ∀ b : Builder α,
    (b.run e.tokens).below.length ≤ b.below.length
  | leaf (some _), _ => Nat.le_refl _
  | leaf none, _ => Nat.le_refl _
  | node a cs, b => by
    have hleave (c : Builder α) : c.leave.below.length = c.below.length - 1 := by
      obtain ⟨top, below⟩ := c
      cases below <;> rfl
    rw [tokens]
    cases a with
    | some a =>
      have hcs := length_runAll cs (b.enter a)
      change ((b.enter a).run (tokensAll cs ++ [.leave])).below.length ≤ _
      rw [Builder.run_append]
      refine Nat.le_trans (Nat.le_of_eq (hleave _)) ?_
      exact Nat.sub_le_of_le_add hcs
    | none =>
      have hcs := length_runAll cs b
      change (b.run (tokensAll cs ++ [.leave])).below.length ≤ _
      rw [Builder.run_append]
      exact Nat.le_trans (Nat.le_of_eq (hleave _)) (Nat.le_trans (Nat.sub_le _ _) hcs)

theorem length_runAll : (es : List (Elem α)) → ∀ b : Builder α,
    (b.run (tokensAll es)).below.length ≤ b.below.length
  | [], _ => Nat.le_refl _
  | e :: es, b => by
    rw [tokensAll, Builder.run_append]
    exact Nat.le_trans (length_runAll es _) (length_run e b)

end

theorem length_leave (b : Builder α) : b.leave.below.length = b.below.length - 1 := by
  obtain ⟨top, below⟩ := b
  cases below <;> rfl

mutual

/-- If a node is left early, brackets leave more nodes than they enter. -/
theorem length_run_early : (e : Elem α) → e.early = some true → ∀ b : Builder α,
    0 < b.below.length → (b.run e.tokens).below.length < b.below.length
  | node (some a) cs, h, b, hb => by
    have hcs := length_runAll_early cs h (b.enter a) (Nat.succ_pos _)
    rw [tokens]
    change ((b.enter a).run (tokensAll cs ++ [.leave])).below.length < _
    rw [Builder.run_append]
    refine Nat.lt_of_le_of_lt (Nat.le_of_eq (length_leave _)) ?_
    have hlen : (b.enter a).below.length = b.below.length + 1 := rfl
    omega
  | node none cs, _, b, hb => by
    have hcs := length_runAll cs b
    rw [tokens]
    change (b.run (tokensAll cs ++ [.leave])).below.length < _
    rw [Builder.run_append]
    refine Nat.lt_of_le_of_lt (Nat.le_of_eq (length_leave _)) ?_
    omega

theorem length_runAll_early : (es : List (Elem α)) → earlyAll es = some true → ∀ b : Builder α,
    0 < b.below.length → (b.run (tokensAll es)).below.length < b.below.length
  | e :: es, h, b, hb => by
    rw [earlyAll] at h
    rw [tokensAll, Builder.run_append]
    split at h
    · cases h
    · next he =>
      rw [run_exact e he]
      exact length_runAll_early es h (b.append e.forest) hb
    · next he =>
      exact Nat.lt_of_le_of_lt (length_runAll es _) (length_run_early e he b hb)

end

end Elem

/-! ## Depths -/

namespace Tree

mutual

/-- The sum of the depths of the nodes. -/
def weight (d : Nat) : Tree α → Nat
  | mk _ cs => d + weightAll (d + 1) cs

def weightAll (d : Nat) : List (Tree α) → Nat
  | [] => 0
  | t :: ts => weight d t + weightAll d ts

end

theorem weightAll_append (d : Nat) (ts us : List (Tree α)) :
    weightAll d (ts ++ us) = weightAll d ts + weightAll d us := by
  induction ts with
  | nil => exact (Nat.zero_add _).symm
  | cons t ts ih =>
    rw [List.cons_append, weightAll, weightAll, ih, Nat.add_assoc]

theorem weight_append (d : Nat) (t : Tree α) (ts : List (Tree α)) :
    weight d (t.append ts) = weight d t + weightAll (d + 1) ts := by
  cases t with
  | mk a cs => rw [append, weight, weight, weightAll_append, Nat.add_assoc]

end Tree

namespace Builder

theorem weight_whole_append (b : Builder α) (ts : List (Tree α)) :
    (b.append ts).whole.weight 0 = b.whole.weight 0 + Tree.weightAll (b.below.length + 1) ts := by
  obtain ⟨top, below⟩ := b
  induction below generalizing top ts with
  | nil => exact top.weight_append 0 ts
  | cons parent rest ih =>
    have hp (t : Tree α) : (Builder.mk t (parent :: rest)).whole =
        ((Builder.mk parent rest).append [t]).whole := rfl
    change (Builder.mk (top.append ts) (parent :: rest)).whole.weight 0 = _
    rw [hp, hp, ih, ih]
    simp only [Tree.weightAll, Tree.weight_append, Nat.add_zero]
    exact (Nat.add_assoc _ _ _).symm

/-- A node that is entered has the depth of the nodes around it. -/
theorem weight_enter (b : Builder α) (a : α) :
    (b.enter a).whole.weight 0 = b.whole.weight 0 + (b.below.length + 1) :=
  b.weight_whole_append [.mk a []]

end Builder

namespace Elem

mutual

/-- A node that is around others is never put deeper than it belongs. -/
theorem weight_run_le : (e : Elem α) → ∀ (b : Builder α) (d : Nat), b.below.length ≤ d →
    (b.run e.tokens).whole.weight 0 ≤
      b.whole.weight 0 + Tree.weightAll (d + 1) e.forest
  | leaf (some a), b, d, hd => by
    refine Nat.le_trans (Nat.le_of_eq (b.weight_enter a)) (Nat.add_le_add_left ?_ _)
    exact Nat.succ_le_succ hd
  | leaf none, b, d, _ => Nat.le_refl _
  | node (some a) cs, b, d, hd => by
    have hcs := weight_runAll_le cs (b.enter a) (d + 1) (Nat.succ_le_succ hd)
    rw [b.weight_enter] at hcs
    rw [tokens, forest]
    change ((b.enter a).run (tokensAll cs ++ [.leave])).whole.weight 0 ≤ _
    rw [Builder.run_append]
    refine Nat.le_trans (Nat.le_of_eq (congrArg _ (Builder.whole_leave _))) (Nat.le_trans hcs ?_)
    rw [Tree.weightAll, Tree.weight, Tree.weightAll]
    omega
  | node none cs, b, d, hd => by
    have hcs := weight_runAll_le cs b d hd
    rw [tokens, forest]
    change (b.run (tokensAll cs ++ [.leave])).whole.weight 0 ≤ _
    rw [Builder.run_append]
    exact Nat.le_trans (Nat.le_of_eq (congrArg _ (Builder.whole_leave _))) hcs

theorem weight_runAll_le : (es : List (Elem α)) → ∀ (b : Builder α) (d : Nat),
    b.below.length ≤ d → (b.run (tokensAll es)).whole.weight 0 ≤
      b.whole.weight 0 + Tree.weightAll (d + 1) (forestAll es)
  | [], b, d, _ => Nat.le_refl _
  | e :: es, b, d, hd => by
    have he := weight_run_le e b d hd
    have hes := weight_runAll_le es (b.run e.tokens) d (Nat.le_trans (length_run e b) hd)
    rw [tokensAll, forestAll, Builder.run_append, Tree.weightAll_append]
    omega

end

mutual

/-- A node is put less deep than it belongs, when one around it has been left. -/
theorem weight_run_lt : (e : Elem α) → e.quiet = false → ∀ (b : Builder α) (d : Nat),
    b.below.length < d → (b.run e.tokens).whole.weight 0 <
      b.whole.weight 0 + Tree.weightAll (d + 1) e.forest
  | leaf (some a), _, b, d, hd => by
    refine Nat.lt_of_le_of_lt (Nat.le_of_eq (b.weight_enter a)) (Nat.add_lt_add_left ?_ _)
    exact Nat.succ_lt_succ hd
  | leaf none, h, _, _, _ => by cases h
  | node (some a) cs, _, b, d, hd => by
    have hcs := weight_runAll_le cs (b.enter a) (d + 1) (Nat.succ_le_succ (Nat.le_of_lt hd))
    rw [b.weight_enter] at hcs
    rw [tokens, forest]
    change ((b.enter a).run (tokensAll cs ++ [.leave])).whole.weight 0 < _
    rw [Builder.run_append]
    refine Nat.lt_of_le_of_lt (Nat.le_of_eq (congrArg _ (Builder.whole_leave _)))
      (Nat.lt_of_le_of_lt hcs ?_)
    rw [Tree.weightAll, Tree.weight, Tree.weightAll]
    omega
  | node none cs, h, b, d, hd => by
    have hcs := weight_runAll_lt cs h b d hd
    rw [tokens, forest]
    change (b.run (tokensAll cs ++ [.leave])).whole.weight 0 < _
    rw [Builder.run_append]
    exact Nat.lt_of_le_of_lt (Nat.le_of_eq (congrArg _ (Builder.whole_leave _))) hcs

theorem weight_runAll_lt : (es : List (Elem α)) → quietAll es = false →
    ∀ (b : Builder α) (d : Nat), b.below.length < d →
      (b.run (tokensAll es)).whole.weight 0 <
        b.whole.weight 0 + Tree.weightAll (d + 1) (forestAll es)
  | [], h, _, _, _ => by cases h
  | e :: es, h, b, d, hd => by
    have hlen := Nat.lt_of_le_of_lt (length_run e b) hd
    rw [tokensAll, forestAll, Builder.run_append, Tree.weightAll_append]
    cases he : e.quiet with
    | true =>
      rw [quietAll, he, Bool.true_and] at h
      have hle := weight_run_le e b d (Nat.le_of_lt hd)
      have hlt := weight_runAll_lt es h (b.run e.tokens) d hlen
      omega
    | false =>
      have hlt := weight_run_lt e he b d hd
      have hle := weight_runAll_le es (b.run e.tokens) d (Nat.le_of_lt hlen)
      omega

end

mutual

/-- So it is with a node that comes after one has been left early. -/
theorem weight_run_late : (e : Elem α) → e.early = none → ∀ (b : Builder α) (d : Nat), 0 < d →
    b.below.length ≤ d → (b.run e.tokens).whole.weight 0 <
      b.whole.weight 0 + Tree.weightAll (d + 1) e.forest
  | leaf _, h, _, _, _, _ => by cases h
  | node (some a) cs, h, b, d, _, hd => by
    have hcs := weight_runAll_late cs h (b.enter a) (d + 1) (Nat.succ_pos d) (Nat.succ_le_succ hd)
    rw [b.weight_enter] at hcs
    rw [tokens, forest]
    change ((b.enter a).run (tokensAll cs ++ [.leave])).whole.weight 0 < _
    rw [Builder.run_append]
    refine Nat.lt_of_le_of_lt (Nat.le_of_eq (congrArg _ (Builder.whole_leave _)))
      (Nat.lt_of_lt_of_le hcs ?_)
    rw [Tree.weightAll, Tree.weight, Tree.weightAll]
    omega
  | node none cs, h, b, d, h0, hd => by
    have hcs := weight_runAll_late cs (Option.map_eq_none_iff.1 h) b d h0 hd
    rw [tokens, forest]
    change (b.run (tokensAll cs ++ [.leave])).whole.weight 0 < _
    rw [Builder.run_append]
    exact Nat.lt_of_le_of_lt (Nat.le_of_eq (congrArg _ (Builder.whole_leave _))) hcs

theorem weight_runAll_late : (es : List (Elem α)) → earlyAll es = none →
    ∀ (b : Builder α) (d : Nat), 0 < d → b.below.length ≤ d →
      (b.run (tokensAll es)).whole.weight 0 <
        b.whole.weight 0 + Tree.weightAll (d + 1) (forestAll es)
  | [], h, _, _, _, _ => by cases h
  | e :: es, h, b, d, h0, hd => by
    have hlen := Nat.le_trans (length_run e b) hd
    rw [earlyAll] at h
    rw [tokensAll, forestAll, Builder.run_append, Tree.weightAll_append]
    split at h
    · next he =>
      have hlt := weight_run_late e he b d h0 hd
      have hle := weight_runAll_le es (b.run e.tokens) d hlen
      omega
    · have hle := weight_run_le e b d hd
      have hlt := weight_runAll_late es h (b.run e.tokens) d h0 hlen
      omega
    · next he =>
      split at h
      · cases h
      · next hq =>
        -- A node has been left early, or one is at the outermost already.
        have hless : (b.run e.tokens).below.length < d := by
          by_cases hb : 0 < b.below.length
          · exact Nat.lt_of_lt_of_le (length_run_early e he b hb) hd
          · have := length_run e b
            omega
        have hle := weight_run_le e b d hd
        have hlt := weight_runAll_lt es (Bool.eq_false_iff.2 hq) (b.run e.tokens) d hless
        omega

end

/-! ## The outermost node -/

mutual

theorem run_kept : (e : Elem α) → e.Kept → ∀ b : Builder α, b.below = [] →
    b.run e.tokens = b.append e.forest
  | leaf a, _, b, _ => run_exact (leaf a) rfl b
  | node (some a) cs, h, b, hb => by
    obtain ⟨v, hv⟩ := Option.isSome_iff_exists.1 h
    have hwhole := run_early (node (some a) cs) v hv b
    have hlen := length_run (node (some a) cs) b
    rw [hb, List.length_nil] at hlen
    have hnil := List.eq_nil_of_length_eq_zero (Nat.le_zero.1 hlen)
    generalize b.run (node (some a) cs).tokens = c at hwhole hnil
    obtain ⟨top, below⟩ := c
    obtain ⟨top', below'⟩ := b
    cases hnil
    cases hb
    exact congrArg (Builder.mk · []) hwhole
  | node none cs, h, b, hb => by
    rw [tokens, forest]
    change b.run (tokensAll cs ++ [.leave]) = _
    rw [Builder.run_append, runAll_kept cs h b hb]
    have hb' : (b.append (forestAll cs)).below = [] := hb
    generalize b.append (forestAll cs) = c at hb'
    obtain ⟨top, below⟩ := c
    cases hb'
    rfl

theorem runAll_kept : (es : List (Elem α)) → KeptAll es → ∀ b : Builder α, b.below = [] →
    b.run (tokensAll es) = b.append (forestAll es)
  | [], _, b, _ => b.append_nil.symm
  | e :: es, h, b, hb => by
    rw [tokensAll, forestAll, Builder.run_append, run_kept e h.1 b hb,
      runAll_kept es h.2 (b.append e.forest) hb, Builder.append_append]

end

mutual

theorem run_not_kept : (e : Elem α) → ¬ e.Kept → ∀ b : Builder α, b.below = [] →
    (b.run e.tokens).whole.weight 0 < b.whole.weight 0 + Tree.weightAll 1 e.forest
  | leaf _, h, _, _ => absurd trivial h
  | node (some a) cs, h, b, hb => by
    have hnone : earlyAll cs = none := Option.not_isSome_iff_eq_none.1 h
    have hcs := weight_runAll_late cs hnone (b.enter a) 1 Nat.one_pos
      (Nat.succ_le_succ (Nat.le_of_eq (congrArg List.length hb)))
    rw [b.weight_enter, hb] at hcs
    rw [tokens, forest]
    change ((b.enter a).run (tokensAll cs ++ [.leave])).whole.weight 0 < _
    rw [Builder.run_append]
    refine Nat.lt_of_le_of_lt (Nat.le_of_eq (congrArg _ (Builder.whole_leave _)))
      (Nat.lt_of_lt_of_le hcs ?_)
    rw [Tree.weightAll, Tree.weight, Tree.weightAll, List.length_nil]
    omega
  | node none cs, h, b, hb => by
    have hcs := runAll_not_kept cs h b hb
    rw [tokens, forest]
    change (b.run (tokensAll cs ++ [.leave])).whole.weight 0 < _
    rw [Builder.run_append]
    exact Nat.lt_of_le_of_lt (Nat.le_of_eq (congrArg _ (Builder.whole_leave _))) hcs

theorem runAll_not_kept : (es : List (Elem α)) → ¬ KeptAll es → ∀ b : Builder α, b.below = [] →
    (b.run (tokensAll es)).whole.weight 0 <
      b.whole.weight 0 + Tree.weightAll 1 (forestAll es)
  | [], h, _, _ => absurd trivial h
  | e :: es, h, b, hb => by
    have hzero : b.below.length = 0 := congrArg List.length hb
    have hlen : (b.run e.tokens).below.length ≤ 0 :=
      Nat.le_trans (length_run e b) (Nat.le_of_eq hzero)
    rw [tokensAll, forestAll, Builder.run_append, Tree.weightAll_append]
    by_cases he : e.Kept
    · have hle := weight_run_le e b 0 (Nat.le_of_eq hzero)
      rw [Nat.zero_add] at hle
      have hlt := runAll_not_kept es (fun hes => h ⟨he, hes⟩) (b.run e.tokens)
        (List.eq_nil_of_length_eq_zero (Nat.le_zero.1 hlen))
      omega
    · have hlt := run_not_kept e he b hb
      have hle := weight_runAll_le es (b.run e.tokens) 0 hlen
      rw [Nat.zero_add] at hle
      omega

end

/-- The tree that is built from brackets in an outermost node is the one they stand for if and only
if no node comes after one that is left early. -/
theorem build_eq_iff (es : List (Elem α)) (a : α) :
    (Builder.mk (.mk a []) []).run (tokensAll es) = ⟨.mk a (forestAll es), []⟩ ↔ KeptAll es := by
  constructor
  · intro h
    refine Classical.byContradiction fun hno => ?_
    have hlt := runAll_not_kept es hno ⟨.mk a [], []⟩ rfl
    rw [h] at hlt
    change Tree.weight 0 (Tree.mk a (forestAll es)) < Tree.weight 0 (Tree.mk a []) + _ at hlt
    simp only [Tree.weight, Tree.weightAll, Nat.zero_add] at hlt
    exact Nat.lt_irrefl _ hlt
  · exact fun h => runAll_kept es h ⟨.mk a [], []⟩ rfl

end Elem

end Nesting
