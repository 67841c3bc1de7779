import Mathlib.Data.List.Infix
import Wandr.Lib.Text

/-!
# Occurrences of a pattern

A text is searched for a pattern from its beginning, to cut it there or to put something in the
place of each occurrence; what was found is not searched again.

* `Text.Clear`: no occurrence begins in a part of a text, so the search passes over it;
* `Text.occurrences`: induction on a text, one occurrence or one character at a time;
* `Text.replace_flatMap`, `Text.replace_flatMap_ampersand`: what is left of an escaped text when
  one of the escapes is replaced by what it stands for;
* `Text.length_replace_lt`: a replacement by something shorter shows.
-/

namespace Text

variable {c d x : Char} {pat p r a b t cs : List Char} {e : Char → List Char}

/-- What precedes the first occurrence of a pattern. -/
def before (pat : List Char) : List Char → Option (List Char)
  | [] => if pat.isEmpty then some [] else none
  | c :: cs => if pat.isPrefixOf (c :: cs) then some [] else (before pat cs).map (c :: ·)

/-- A text in which some characters are passed over first, cut at the occurrences of a pattern. -/
def splitFrom (pat : List Char) : Nat → List Char → List (List Char)
  | _, [] => [[]]
  | k + 1, _ :: cs => splitFrom pat k cs
  | 0, c :: cs =>
    if pat.isPrefixOf (c :: cs) then [] :: splitFrom pat (pat.length - 1) cs
    else match splitFrom pat 0 cs with
      | [] => [[c]]
      | piece :: rest => (c :: piece) :: rest

/-- A text cut at the occurrences of a pattern. -/
def splitStr (pat cs : List Char) : List (List Char) := splitFrom pat 0 cs

/-- A text in which some characters are passed over first, its occurrences of a pattern replaced. -/
def replaceFrom (pat r : List Char) : Nat → List Char → List Char
  | _, [] => []
  | k + 1, _ :: cs => replaceFrom pat r k cs
  | 0, c :: cs =>
    if pat.isPrefixOf (c :: cs) then r ++ replaceFrom pat r (pat.length - 1) cs
    else c :: replaceFrom pat r 0 cs

/-- A text with every occurrence of a pattern replaced. -/
def replace (pat r cs : List Char) : List Char := replaceFrom pat r 0 cs

/-! ## One occurrence, one character -/

/-- Induction on a text: an occurrence of a pattern, or a character that none begins with. -/
theorem occurrences {motive : List Char → Prop} (pat : List Char) (hpat : pat ≠ [])
    (nil : motive [])
    (occurrence : ∀ t, motive t → motive (pat ++ t))
    (char : ∀ c t, ¬ pat <+: c :: t → motive t → motive (c :: t)) (cs : List Char) : motive cs := by
  induction hn : cs.length using Nat.strong_induction_on generalizing cs with
  | h n ih =>
    subst hn
    by_cases hp : pat <+: cs
    · obtain ⟨t, rfl⟩ := hp
      refine occurrence t (ih t.length ?_ t rfl)
      rw [List.length_append]
      exact Nat.lt_add_of_pos_left (List.length_pos_of_ne_nil hpat)
    · cases cs with
      | nil => exact nil
      | cons c t => exact char c t hp (ih t.length (Nat.lt_succ_self _) t rfl)

theorem splitFrom_append (p : List Char) :
    splitFrom pat p.length (p ++ cs) = splitFrom pat 0 cs := by
  induction p with
  | nil => rfl
  | cons c p ih => exact ih

theorem replaceFrom_append (p : List Char) :
    replaceFrom pat r p.length (p ++ cs) = replaceFrom pat r 0 cs := by
  induction p with
  | nil => rfl
  | cons c p ih => exact ih

theorem isPrefixOf_append : (c :: p).isPrefixOf (c :: (p ++ cs)) = true :=
  List.isPrefixOf_iff_prefix.2 (List.prefix_append (c :: p) cs)

theorem splitStr_occurrence (hpat : pat ≠ []) : splitStr pat (pat ++ t) = [] :: splitStr pat t := by
  obtain ⟨c, p, rfl⟩ := List.exists_cons_of_ne_nil hpat
  rw [splitStr, List.cons_append, splitFrom, if_pos isPrefixOf_append]
  exact congrArg _ (splitFrom_append p)

theorem replace_occurrence (hpat : pat ≠ []) :
    replace pat r (pat ++ t) = r ++ replace pat r t := by
  obtain ⟨c, p, rfl⟩ := List.exists_cons_of_ne_nil hpat
  rw [replace, List.cons_append, replaceFrom, if_pos isPrefixOf_append]
  exact congrArg _ (replaceFrom_append p)

theorem replace_char (h : ¬ pat <+: c :: t) : replace pat r (c :: t) = c :: replace pat r t :=
  if_neg (mt List.isPrefixOf_iff_prefix.1 h)

theorem afterFirst_occurrence (hpat : pat ≠ []) : afterFirst pat (pat ++ t) = some t := by
  obtain ⟨c, p, rfl⟩ := List.exists_cons_of_ne_nil hpat
  rw [List.cons_append, afterFirst, if_pos isPrefixOf_append]
  exact congrArg some List.drop_left

theorem before_occurrence (hpat : pat ≠ []) : before pat (pat ++ t) = some [] := by
  obtain ⟨c, p, rfl⟩ := List.exists_cons_of_ne_nil hpat
  exact if_pos isPrefixOf_append

theorem afterFirst_eq_none (h : ¬ pat <:+: cs) : afterFirst pat cs = none := by
  induction cs with
  | nil => exact if_neg fun he => h (List.isEmpty_iff.1 he ▸ List.nil_infix)
  | cons c cs ih =>
    rw [afterFirst, if_neg (mt List.isPrefixOf_iff_prefix.1 (mt List.IsPrefix.isInfix h))]
    exact ih (mt (·.trans (List.suffix_cons c cs).isInfix) h)

/-! ## What is passed over -/

/-- No occurrence of a pattern begins in a part of a text, in front of the rest. -/
def Clear (pat : List Char) : List Char → List Char → Prop
  | [], _ => True
  | c :: a, t => ¬ pat <+: c :: (a ++ t) ∧ Clear pat a t

theorem clear_append : Clear pat (a ++ b) t ↔ Clear pat a (b ++ t) ∧ Clear pat b t := by
  induction a with
  | nil => exact (and_iff_right trivial).symm
  | cons c a ih => rw [List.cons_append, Clear, Clear, ih, List.append_assoc, and_assoc]

/-- The first character of the pattern is not there. -/
theorem clear_of_notMem (h : c ∉ a) : Clear (c :: pat) a t := by
  induction a with
  | nil => trivial
  | cons d a ih =>
    refine ⟨fun hp => ?_, ih (List.not_mem_of_not_mem_cons h)⟩
    exact List.ne_of_not_mem_cons h (List.cons_prefix_cons.1 hp).1

/-- The pattern is not there, and none goes on with what follows. -/
theorem clear_of_notInfix (h : ¬ pat <:+: a) (ht : ∀ c ∈ t.head?, c ∉ pat.tail) :
    Clear pat a t := by
  induction a with
  | nil => trivial
  | cons d a ih =>
    refine ⟨fun hp => ?_, ih (mt (·.trans (List.suffix_cons d a).isInfix) h)⟩
    rcases Nat.lt_or_ge (d :: a).length pat.length with hlt | hle
    · -- An occurrence that is longer than the part goes on with what follows.
      obtain ⟨r, hr⟩ : d :: a <+: pat :=
        List.prefix_of_prefix_length_le (List.prefix_append (d :: a) t) hp (Nat.le_of_lt hlt)
      obtain ⟨c, r, rfl⟩ : ∃ c r', r = c :: r' := List.exists_cons_of_ne_nil fun hn => by
        rw [← hr, hn, List.append_nil] at hlt
        exact Nat.lt_irrefl _ hlt
      subst hr
      have hprefix : c :: r <+: t := (List.prefix_append_right_inj (d :: a)).1 hp
      obtain ⟨s, rfl⟩ := hprefix
      exact ht c rfl (List.mem_append_right a List.mem_cons_self)
    · exact h (List.prefix_of_prefix_length_le hp (List.prefix_append (d :: a) t) hle).isInfix

theorem afterFirst_clear (h : Clear pat a t) : afterFirst pat (a ++ t) = afterFirst pat t := by
  induction a with
  | nil => rfl
  | cons c a ih =>
    rw [List.cons_append, afterFirst, if_neg (mt List.isPrefixOf_iff_prefix.1 h.1), ih h.2]

theorem before_clear (h : Clear pat a t) : before pat (a ++ t) = (before pat t).map (a ++ ·) := by
  induction a with
  | nil => exact Option.map_id'.symm
  | cons c a ih =>
    rw [List.cons_append, before, if_neg (mt List.isPrefixOf_iff_prefix.1 h.1), ih h.2,
      Option.map_map]
    rfl

theorem splitStr_clear {piece : List Char} {rest : List (List Char)} (h : Clear pat a t)
    (ht : splitStr pat t = piece :: rest) : splitStr pat (a ++ t) = (a ++ piece) :: rest := by
  induction a with
  | nil => exact ht
  | cons c a ih =>
    rw [splitStr, List.cons_append, splitFrom, if_neg (mt List.isPrefixOf_iff_prefix.1 h.1)]
    have hi := ih h.2
    rw [splitStr] at hi
    rw [hi]
    rfl

theorem replace_clear (h : Clear pat a t) : replace pat r (a ++ t) = a ++ replace pat r t := by
  induction a with
  | nil => rfl
  | cons c a ih => rw [List.cons_append, replace_char h.1, ih h.2, List.cons_append]

/-! ## Replacing -/

theorem replace_of_notInfix (h : ¬ pat <:+: cs) : replace pat r cs = cs := by
  have hclear : Clear pat cs [] :=
    clear_of_notInfix h fun c hc => absurd hc (Option.not_mem_none c)
  have hr : replace pat r (cs ++ []) = cs ++ [] := replace_clear hclear
  rwa [List.append_nil] at hr

/-- A replacement by something shorter makes no text longer. -/
theorem length_replace_le (h : r.length < pat.length) :
    (replace pat r cs).length ≤ cs.length := by
  have hpat : pat ≠ [] := List.ne_nil_of_length_pos (Nat.zero_lt_of_lt h)
  induction cs using occurrences pat hpat with
  | nil => exact Nat.le_refl 0
  | occurrence t ih =>
    rw [replace_occurrence hpat, List.length_append, List.length_append]
    omega
  | char c t hn ih =>
    rw [replace_char hn]
    exact Nat.succ_le_succ ih

/-- A replacement by something shorter shows. -/
theorem length_replace_lt (h : r.length < pat.length) (hi : pat <:+: cs) :
    (replace pat r cs).length < cs.length := by
  have hpat : pat ≠ [] := List.ne_nil_of_length_pos (Nat.zero_lt_of_lt h)
  induction cs using occurrences pat hpat with
  | nil => exact absurd (List.infix_nil.1 hi) hpat
  | occurrence t ih =>
    have hle : (replace pat r t).length ≤ t.length := length_replace_le h
    rw [replace_occurrence hpat, List.length_append, List.length_append]
    omega
  | char c t hn ih =>
    rw [replace_char hn]
    exact Nat.succ_lt_succ (ih ((List.infix_cons_iff.1 hi).resolve_left hn))

/-- In a text every character of which is escaped on its own, an escape is replaced where its
    character was. -/
theorem replace_flatMap (hpat : e x = pat) (hne : pat ≠ [])
    (hclear : ∀ c t, c ≠ x → Clear pat (e c) t) :
    replace pat r (cs.flatMap e) = cs.flatMap fun c => if c = x then r else e c := by
  induction cs with
  | nil => rfl
  | cons c cs ih =>
    rw [List.flatMap_cons, List.flatMap_cons]
    by_cases hc : c = x
    · rw [if_pos hc, hc, hpat, replace_occurrence hne, ih]
    · rw [if_neg hc, replace_clear (hclear c _ hc), ih]

/-- What is no escape and begins an escaped text begins the text. -/
theorem prefix_of_flatMap (he : ∀ c, e c = [c] ∨ (e c).head? = some d) (hd : d ∉ p)
    (h : p <+: cs.flatMap e) : p <+: cs := by
  induction p generalizing cs with
  | nil => exact List.nil_prefix
  | cons b p ih =>
    cases cs with
    | nil => exact absurd (List.prefix_nil.1 h) (List.cons_ne_nil _ _)
    | cons c cs =>
      rw [List.flatMap_cons] at h
      rcases he c with hc | hc
      · rw [hc, List.singleton_append, List.cons_prefix_cons] at h
        exact List.cons_prefix_cons.2 ⟨h.1, ih (List.not_mem_of_not_mem_cons hd) h.2⟩
      · obtain ⟨m, hm⟩ := List.head?_eq_some_iff.1 hc
        rw [hm, List.cons_append] at h
        exact absurd (List.cons_prefix_cons.1 h).1.symm (List.ne_of_not_mem_cons hd)

/-- In a text in which the character that escapes begin with is not escaped, an escape is replaced
    also where the text reads like it. -/
theorem replace_flatMap_ampersand (hpat : e x = d :: p) (he : ∀ c, e c = [c] ∨ (e c).head? = some d)
    (hp : ∀ c ∈ d :: p, e c = [c]) (hd : d ∉ p) (hx : x ≠ d)
    (hclear : ∀ c t, c ≠ x → c ≠ d → Clear (d :: p) (e c) t) :
    replace (d :: p) [x] (cs.flatMap e) =
      (replace (d :: p) [x] cs).flatMap fun c => if c = x then [x] else e c := by
  have hne : d :: p ≠ [] := List.cons_ne_nil d p
  induction cs using occurrences (d :: p) hne with
  | nil => rfl
  | occurrence t ih =>
    have hplain : (d :: p).flatMap e = d :: p := by
      rw [List.flatMap_congr hp]
      exact List.flatMap_singleton' _
    rw [List.flatMap_append, hplain, replace_occurrence hne, replace_occurrence hne, ih,
      List.flatMap_append, List.flatMap_singleton, if_pos rfl]
  | char c t hn ih =>
    rw [replace_char hn, List.flatMap_cons, List.flatMap_cons, ← ih]
    by_cases hc : c = x
    · rw [if_pos hc, hc, hpat, replace_occurrence hne]
    rw [if_neg hc]
    by_cases hcd : c = d
    · -- The text goes on like the escape only if it does so itself.
      subst hcd
      rw [hp c List.mem_cons_self, List.singleton_append, List.singleton_append]
      refine replace_char fun h => hn ?_
      exact List.cons_prefix_cons.2 ⟨rfl, prefix_of_flatMap he hd (List.cons_prefix_cons.1 h).2⟩
    · exact replace_clear (hclear c _ hc hcd)

end Text
