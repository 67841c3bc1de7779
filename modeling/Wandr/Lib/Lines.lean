import Wandr.Lib.Occurrences
import Wandr.Lib.Scan

/-!
# Lines and paragraphs

A text is read line by line whether its lines end as on one system or as on the other. To cut it
at empty lines by looking for two line feeds is another matter.

* `lines_joinLines`: lines are read as they were written;
* `splitStr_joinLines`: the paragraphs of a text, as far as their lines that are kept;
* `readParagraphs_append`: what stands before an empty line is read on its own.
-/

namespace Text

/-! ## Lines -/

/-- A line without the carriage return at its end. -/
def stripCr (l : List Char) : List Char := if l.getLast? = some '\r' then l.dropLast else l

/-- The lines of a text, after the characters `line` (in reverse) of one that has begun. -/
def linesFrom (line : List Char) : List Char → List (List Char)
  | [] => if line.isEmpty then [] else [line.reverse]
  | c :: cs =>
    if c = '\n' then stripCr line.reverse :: linesFrom [] cs else linesFrom (c :: line) cs

/-- The lines of a text; each ends in a line feed or in a carriage return and a line feed. -/
def lines (cs : List Char) : List (List Char) := linesFrom [] cs

/-- How the lines of a text end. -/
inductive LineEnd
  | lf
  | crlf
  deriving DecidableEq

def LineEnd.chars : LineEnd → List Char
  | lf => ['\n']
  | crlf => ['\r', '\n']

/-- A line that can be written with either end. -/
def IsLine (l : List Char) : Prop := '\n' ∉ l ∧ l.getLast? ≠ some '\r'

instance (l : List Char) : Decidable (IsLine l) :=
  inferInstanceAs (Decidable ('\n' ∉ l ∧ l.getLast? ≠ some '\r'))

def joinLines (e : LineEnd) (ls : List (List Char)) : List Char := ls.flatMap (· ++ e.chars)

variable {e : LineEnd} {l m w cs : List Char} {ls ms : List (List Char)}

theorem linesFrom_append (h : '\n' ∉ l) :
    linesFrom w (l ++ cs) = linesFrom (l.reverse ++ w) cs := by
  induction l generalizing w with
  | nil => rfl
  | cons c l ih =>
    have hc : c ≠ '\n' := fun hc => h (hc ▸ List.mem_cons_self)
    rw [List.cons_append, linesFrom, if_neg hc, ih (List.not_mem_of_not_mem_cons h)]
    simp

theorem lines_append (h : '\n' ∉ l) : lines (l ++ '\n' :: cs) = stripCr l :: lines cs := by
  rw [lines, linesFrom_append h, linesFrom, if_pos rfl, List.append_nil, List.reverse_reverse]
  rfl

theorem lines_of_notMem (h : '\n' ∉ l) : lines l = if l = [] then [] else [l] := by
  have hl : lines (l ++ []) = linesFrom (l.reverse ++ []) [] := linesFrom_append h
  rw [List.append_nil, List.append_nil] at hl
  rw [hl, linesFrom, List.reverse_reverse]
  simp

/-- A line is read back, whichever end it has. -/
theorem lines_line (h : IsLine l) : lines (l ++ e.chars ++ cs) = l :: lines cs := by
  cases e with
  | lf =>
    have hl : lines (l ++ '\n' :: cs) = stripCr l :: lines cs := lines_append h.1
    rw [List.append_assoc]
    exact hl.trans (congrArg (· :: lines cs) (if_neg h.2))
  | crlf =>
    have hn : '\n' ∉ l ++ ['\r'] := by simpa using h.1
    have hl : lines (l ++ ['\r'] ++ '\n' :: cs) = stripCr (l ++ ['\r']) :: lines cs :=
      lines_append hn
    rw [stripCr, List.getLast?_concat, if_pos rfl, List.dropLast_concat] at hl
    rw [← hl, List.append_assoc, List.append_assoc]
    rfl

theorem joinLines_cons : joinLines e (l :: ls) = l ++ e.chars ++ joinLines e ls := List.flatMap_cons

theorem lines_joinLines (h : ∀ l ∈ ls, IsLine l) : lines (joinLines e ls) = ls := by
  induction ls with
  | nil => rfl
  | cons l ls ih =>
    rw [joinLines_cons, lines_line (h l List.mem_cons_self),
      ih fun m hm => h m (List.mem_cons_of_mem _ hm)]

/-! ## Paragraphs -/

/-- Two line feeds. -/
def emptyLine : List Char := ['\n', '\n']

/-- A line before the first paragraph, in it. -/
def addLine (l : List Char) : List (List (List Char)) → List (List (List Char))
  | [] => [[l]]
  | p :: ps => (l :: p) :: ps

/-- The lines between two line feeds. The line feed before an empty line is looked for once, so that
    the next empty line is the first of a paragraph. -/
def paragraphs : List (List Char) → List (List (List Char))
  | [] => [[]]
  | [l] => [[l]]
  | l :: m :: ls => if m = [] then [l] :: paragraphs ls else addLine l (paragraphs (m :: ls))

/-- The lines of a text that is cut at two line feeds. If there is a carriage return between, it is
    not cut. -/
def paragraphsOf : LineEnd → List (List Char) → List (List (List Char))
  | .lf, ls => paragraphs ls
  | .crlf, ls => [ls]

theorem clear_line (h : IsLine l) (hm : m ≠ []) (hm' : IsLine m) :
    Clear emptyLine (l ++ ['\n']) (joinLines .lf (m :: ls)) := by
  obtain ⟨c, m, rfl⟩ := List.exists_cons_of_ne_nil hm
  refine clear_append.2 ⟨clear_of_notMem h.1, fun hp => ?_, trivial⟩
  rw [joinLines_cons, List.cons_append, List.cons_append] at hp
  obtain ⟨-, hp⟩ := List.cons_prefix_cons.1 hp
  exact hm'.1 ((List.cons_prefix_cons.1 hp).1 ▸ List.mem_cons_self)

theorem splitStr_ne_nil : splitStr emptyLine cs ≠ [] := by
  cases cs with
  | nil => exact List.cons_ne_nil _ _
  | cons c cs =>
    rw [splitStr, splitFrom]
    split
    · exact List.cons_ne_nil _ _
    · split <;> exact List.cons_ne_nil _ _

theorem paragraphs_ne_nil : paragraphs ls ≠ [] := by
  induction ls using paragraphs.induct with
  | case1 => exact List.cons_ne_nil _ _
  | case2 l => exact List.cons_ne_nil _ _
  | case3 l ls ih =>
    rw [paragraphs, if_pos rfl]
    exact List.cons_ne_nil _ _
  | case4 l m ls hm ih =>
    obtain ⟨p, ps, hp⟩ := List.exists_cons_of_ne_nil ih
    rw [paragraphs, if_neg hm, hp]
    exact List.cons_ne_nil _ _

section Keep

variable {keep : List Char → Bool}

/-- The lines that are kept of what a text is cut into. -/
theorem splitStr_lf (hk : keep [] = false) (h : ∀ l ∈ ls, IsLine l) :
    (splitStr emptyLine (joinLines .lf ls)).map (fun p => (lines p).filter keep) =
      (paragraphs ls).map (·.filter keep) := by
  induction ls using paragraphs.induct with
  | case1 => rfl
  | case2 l =>
    have hl := h l List.mem_cons_self
    have hc : Clear emptyLine (l ++ ['\n']) [] :=
      clear_append.2 ⟨clear_of_notMem hl.1, by simp [emptyLine], trivial⟩
    have hline : lines (l ++ ['\n'] ++ []) = [l] := lines_line (e := .lf) hl
    have hs : splitStr emptyLine (l ++ ['\n'] ++ []) = [l ++ ['\n'] ++ []] := splitStr_clear hc rfl
    have hj : joinLines .lf [l] = l ++ ['\n'] ++ [] := joinLines_cons
    rw [hj, hs, List.map_singleton, hline]
    rfl
  | case3 l ls ih =>
    have hl := h l List.mem_cons_self
    have hs : splitStr emptyLine (l ++ (emptyLine ++ joinLines .lf ls)) =
        (l ++ []) :: splitStr emptyLine (joinLines .lf ls) :=
      splitStr_clear (clear_of_notMem hl.1) (splitStr_occurrence (by decide))
    have hj : joinLines .lf (l :: [] :: ls) = l ++ (emptyLine ++ joinLines .lf ls) := by
      rw [joinLines_cons, joinLines_cons, List.append_assoc]
      rfl
    have hfirst : (lines l).filter keep = [l].filter keep := by
      rw [lines_of_notMem hl.1]
      split
      · next hn => rw [hn, List.filter_cons_of_neg (by rw [hk]; exact Bool.false_ne_true)]
      · rfl
    have hrest := ih fun m hm => h m (List.mem_cons_of_mem _ (List.mem_cons_of_mem _ hm))
    rw [hj, hs, List.append_nil, List.map_cons, hfirst, hrest, paragraphs, if_pos rfl]
    rfl
  | case4 l m ls hm ih =>
    have hl := h l List.mem_cons_self
    have hm' := h m (List.mem_cons_of_mem _ List.mem_cons_self)
    have hsplit : splitStr emptyLine (joinLines .lf (m :: ls)) ≠ [] := splitStr_ne_nil
    have hpar : paragraphs (m :: ls) ≠ [] := paragraphs_ne_nil
    obtain ⟨piece, rest, hpiece⟩ := List.exists_cons_of_ne_nil hsplit
    obtain ⟨p, ps, hp⟩ := List.exists_cons_of_ne_nil hpar
    have hi := ih fun m hm => h m (List.mem_cons_of_mem _ hm)
    rw [hpiece, hp, List.map_cons, List.map_cons] at hi
    obtain ⟨hhead, htail⟩ := List.cons.inj hi
    have hs := splitStr_clear (clear_line hl hm hm') hpiece
    have hline : lines (l ++ ['\n'] ++ piece) = l :: lines piece := lines_line (e := .lf) hl
    have hj : joinLines .lf (l :: m :: ls) = l ++ ['\n'] ++ joinLines .lf (m :: ls) :=
      joinLines_cons
    rw [hj, hs, List.map_cons, hline, htail, paragraphs, if_neg hm, hp, addLine, List.map_cons,
      List.filter_cons, List.filter_cons, hhead]

/-- A text with the other line ends is not cut. -/
theorem splitStr_crlf (h : ∀ l ∈ ls, IsLine l) :
    splitStr emptyLine (joinLines .crlf ls) = [joinLines .crlf ls] := by
  have hc : Clear emptyLine (joinLines .crlf ls) [] := by
    induction ls with
    | nil => trivial
    | cons l ls ih =>
      have hi := ih fun m hm => h m (List.mem_cons_of_mem _ hm)
      have hl := (h l List.mem_cons_self).1
      have hne : ¬ emptyLine <+: '\n' :: ([] ++ (joinLines .crlf ls ++ [])) := by
        cases ls with
        | nil => simp [joinLines, emptyLine]
        | cons m ls =>
          have hm := (h m (List.mem_cons_of_mem _ List.mem_cons_self)).1
          rw [joinLines_cons]
          cases m with
          | nil => simp [LineEnd.chars, emptyLine]
          | cons c m =>
            intro hp
            have hp := (List.cons_prefix_cons.1 (List.cons_prefix_cons.1 hp).2).1
            exact hm (hp ▸ List.mem_cons_self)
      have heq : joinLines .crlf (l :: ls) = (l ++ ['\r']) ++ (['\n'] ++ joinLines .crlf ls) := by
        rw [joinLines_cons, List.append_assoc, List.append_assoc]
        rfl
      rw [heq]
      exact clear_append.2 ⟨clear_of_notMem (by simpa using hl),
        clear_append.2 ⟨⟨hne, trivial⟩, hi⟩⟩
  have hs : splitStr emptyLine (joinLines .crlf ls ++ []) = [joinLines .crlf ls ++ []] :=
    splitStr_clear hc rfl
  rwa [List.append_nil] at hs

theorem splitStr_joinLines (hk : keep [] = false) (h : ∀ l ∈ ls, IsLine l) :
    (splitStr emptyLine (joinLines e ls)).map (fun p => (lines p).filter keep) =
      (paragraphsOf e ls).map (·.filter keep) := by
  cases e with
  | lf => exact splitStr_lf hk h
  | crlf =>
    rw [splitStr_crlf h, List.map_singleton, lines_joinLines h]
    rfl

/-! ## What is read of paragraphs -/

variable {α : Type} {F : List (List Char) → Option α}

/-- What is read of the lines of a text that are kept, one paragraph at a time. -/
def readParagraphs (keep : List Char → Bool) (F : List (List Char) → Option α)
    (ls : List (List Char)) : List α :=
  (paragraphs ls).filterMap fun p => F (p.filter keep)

theorem paragraphs_of_forall_ne (hne : ls ≠ []) (h : ∀ l ∈ ls, l ≠ []) : paragraphs ls = [ls] := by
  induction ls using paragraphs.induct with
  | case1 => exact absurd rfl hne
  | case2 l => rfl
  | case3 l ls ih => exact absurd rfl (h [] (List.mem_cons_of_mem _ List.mem_cons_self))
  | case4 l m ls hm ih =>
    rw [paragraphs, if_neg hm,
      ih (List.cons_ne_nil _ _) fun m hm => h m (List.mem_cons_of_mem _ hm)]
    rfl

theorem paragraphs_append (hne : ls ≠ []) (h : ∀ l ∈ ls, l ≠ []) :
    paragraphs (ls ++ [] :: ms) = ls :: paragraphs ms := by
  induction ls using paragraphs.induct with
  | case1 => exact absurd rfl hne
  | case2 l => exact if_pos rfl
  | case3 l ls ih => exact absurd rfl (h [] (List.mem_cons_of_mem _ List.mem_cons_self))
  | case4 l m ls hm ih =>
    have hi := ih (List.cons_ne_nil _ _) fun m hm => h m (List.mem_cons_of_mem _ hm)
    rw [List.cons_append] at hi
    rw [List.cons_append, List.cons_append, paragraphs, if_neg hm, hi]
    rfl

/-- A line that is not kept may be left out where a paragraph begins. -/
theorem readParagraphs_cons (hF : F [] = none) (hk : keep [] = false) (hl : keep l = false) :
    readParagraphs keep F (l :: ls) = readParagraphs keep F ls := by
  have hfilter (p : List (List Char)) : (l :: p).filter keep = p.filter keep :=
    List.filter_cons_of_neg (by rw [hl]; exact Bool.false_ne_true)
  induction hn : ls.length using Nat.strong_induction_on generalizing l ls with
  | h n ih =>
    subst hn
    rcases ls with _ | ⟨m, ls⟩
    · rw [readParagraphs, paragraphs, List.filterMap_cons, hfilter]
      rfl
    by_cases hm : m = []
    · subst hm
      have hrest : readParagraphs keep F ([] :: ls) = readParagraphs keep F ls :=
        ih ls.length (Nat.lt_succ_self _) hk
          (fun p => List.filter_cons_of_neg (by rw [hk]; exact Bool.false_ne_true)) rfl
      have hnil : F ([l].filter keep) = none := by
        rw [hfilter]
        exact hF
      rw [hrest, readParagraphs, paragraphs, if_pos rfl, List.filterMap_cons, hnil]
      rfl
    · have hpar : paragraphs (m :: ls) ≠ [] := paragraphs_ne_nil
      obtain ⟨p, ps, hp⟩ := List.exists_cons_of_ne_nil hpar
      rw [readParagraphs, paragraphs, if_neg hm, readParagraphs, hp, addLine, List.filterMap_cons,
        List.filterMap_cons, hfilter]

theorem readParagraphs_append_of_forall (hF : F [] = none) (hk : keep [] = false)
    (h : ∀ l ∈ ls, keep l = false) :
    readParagraphs keep F (ls ++ ms) = readParagraphs keep F ms := by
  induction ls with
  | nil => rfl
  | cons l ls ih =>
    rw [List.cons_append, readParagraphs_cons hF hk (h l List.mem_cons_self),
      ih fun m hm => h m (List.mem_cons_of_mem _ hm)]

/-- What stands before an empty line is read on its own. -/
theorem readParagraphs_append (hF : F [] = none) (hk : keep [] = false) (h : ∀ l ∈ ls, l ≠ []) :
    readParagraphs keep F (ls ++ [] :: ms) =
      (F (ls.filter keep)).toList ++ readParagraphs keep F ms := by
  rcases List.eq_nil_or_concat ls with rfl | ⟨ls, l, rfl⟩
  · rw [List.nil_append, readParagraphs_cons hF hk hk, List.filter_nil, hF]
    rfl
  · rw [readParagraphs, paragraphs_append (by simp) h, List.filterMap_cons]
    cases F ((ls.concat l).filter keep) <;> rfl

theorem readParagraphs_of_forall_ne (hF : F [] = none) (h : ∀ l ∈ ls, l ≠ []) :
    readParagraphs keep F ls = (F (ls.filter keep)).toList := by
  rcases List.eq_nil_or_concat ls with rfl | ⟨ls, l, rfl⟩
  · rw [readParagraphs, paragraphs, List.filterMap_cons, List.filter_nil, hF]
    rfl
  · rw [readParagraphs, paragraphs_of_forall_ne (by simp) h, List.filterMap_cons]
    cases F ((ls.concat l).filter keep) <;> rfl

end Keep

end Text
