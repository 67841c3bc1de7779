import Mathlib.Algebra.BigOperators.Group.List.Basic
import Mathlib.Algebra.Order.Field.Basic
import Mathlib.Algebra.Order.Ring.Cast
import Mathlib.Algebra.Order.Field.Rat
import Wandr.Lib.Greedy
import Wandr.Lib.Scan
import Wandr.Lib.Words

/-!
# Word wrap

A text leaf is wrapped twice: when its box is measured, at the width that is offered, and when it is
painted, at the width its box was given. The height of the box comes from the first, the lines from
the second.

* `Measurer.flatMap_paraLines`: the words of a paragraph are kept;
* `Measurer.fits_of_mem_wrapLines`: a line that is too wide is one word;
* `Measurer.rewraps_iff`: at the width of the widest line the lines are the same if and only if all
  candidates that were refused are wider than the words that open a line;
* `Measurer.agrees_iff`: when measuring and painting agree.
-/

namespace Wandr.Canvas

open Text Greedy

/-- The lines of a text that are broken in the text itself. -/
def hardLines (text : String) : List String := (splitChar '\n' text.toList).map String.ofList

def Word : Type := {s : String // IsWord s.toList}

/-- A line of a text that is not empty. -/
def Line : Type := {s : String // s ≠ "" ∧ '\n' ∉ s.toList}

theorem Word.notMem (word : Word) : '\n' ∉ word.1.toList := fun h =>
  Bool.noConfusion ((word.2.2 _ h).symm.trans (rfl : isWhitespace '\n' = true))

/-- A line of one word. -/
def Word.line (word : Word) : Line :=
  ⟨word.1, fun h => word.2.1 (by rw [h]; rfl), word.notMem⟩

def Line.extend (line : Line) (word : Word) : Line :=
  ⟨line.1 ++ " " ++ word.1, by simp, by simp [line.2.2, word.notMem]⟩

/-- What the host measures of a text in a font, and what is known of it. A measurement that was
    made is kept, and not made again. -/
structure Measurer (K : Type*) [Field K] [LinearOrder K] where
  width : String → K
  height : String → K
  /-- A word more does not narrow a line. -/
  appends : ∀ (line : Line) (word : Word), width line.1 ≤ width (line.extend word).1
  /-- A text is as wide as its widest line. -/
  width_text : ∀ text, IsGreatest {w | ∃ line ∈ hardLines text, width line = w} (width text)
  /-- A text is as high as its lines together. -/
  height_eq : ∀ text, height text = ((hardLines text).map height).sum
  /-- The height of a line is the font's, whatever the line is. -/
  height_line : ∀ line, '\n' ∉ line.toList → height line = height "Mg"

/-- What the layout offers. -/
inductive AvailableSpace (K : Type*)
  | definite (width : K)
  | minContent
  | maxContent

namespace Measurer

variable {K : Type*} [Field K] [LinearOrder K] (m : Measurer K)

/-! ## Wrapping -/

/-- A line with a word more. -/
def cand (line word : String) : String := if line = "" then word else line ++ " " ++ word

/-- The loop over the words of a paragraph, from a line on. -/
def wrapPara (maxW : K) (line : String) : List String → List String
  | [] => [line]
  | word :: words =>
    if maxW < m.width (cand line word) ∧ line ≠ "" then line :: wrapPara maxW word words
    else wrapPara maxW (cand line word) words

def paraLines (maxW : K) (para : String) : List String :=
  m.wrapPara maxW "" (splitWhitespace para)

def wrapLines (text : String) (maxW : K) : List String :=
  (hardLines text).flatMap (m.paraLines maxW)

/-- The widest of some lines. -/
def widest (lines : List String) : K :=
  lines.foldl (fun widest line => if line = "" then widest else max widest (m.width line)) 0

def wrapMetrics (text : String) (maxW : K) : Nat × K :=
  let lines := m.wrapLines text maxW
  (max lines.length 1, m.widest lines)

def longestWordW (text : String) : K :=
  (splitWhitespace text).foldl (fun widest word => max widest (m.width word)) 0

/-! ## Measuring and painting -/

/-- The width of a line of text, measured on a sample. -/
def lineH : K := m.height "Mg"

/-- The width to wrap at, and whether the box keeps it. -/
def target (text : String) (known : Option K) (avail : AvailableSpace K) : Option K × Bool :=
  match known, avail with
  | some kw, _ => (some kw, true)
  | none, .definite aw => (some aw, false)
  | none, .minContent => (some (m.longestWordW text), false)
  | none, .maxContent => (none, false)

/-- The size of a text leaf that wraps. -/
def measureLeaf (text : String) (known knownHeight : Option K) (avail : AvailableSpace K) : K × K :=
  let w := m.width text
  let unwrapped := (known.getD w, knownHeight.getD (m.height text))
  match m.target text known avail with
  | (some maxW, fixed) =>
    if maxW < w ∧ 0 < maxW then
      let (lines, lineW) := m.wrapMetrics text maxW
      (if fixed then maxW else lineW, knownHeight.getD (lines * m.lineH))
    else unwrapped
  | (none, _) => unwrapped

/-- The lines that are painted into a box. A blank text is not painted. -/
def paintLines (text : String) (w : K) : List String :=
  if trim text = "" then [] else m.wrapLines text w

/-! ## The lines of a paragraph -/

def wordsOf (text : String) : List Word :=
  (splitWhitespace text).attachWith _ fun _ h => isWord_of_mem_splitWhitespace h

variable {text para : String} {maxW b c : K} {known : Option K} {avail : AvailableSpace K}

theorem map_wordsOf : (wordsOf text).map (fun word => word.1) = splitWhitespace text :=
  List.attachWith_map_subtype_val ..

theorem eq_wordsOf {words : List Word} (h : splitWhitespace text = words.map fun word => word.1) :
    wordsOf text = words :=
  List.map_injective_iff.mpr Subtype.val_injective (map_wordsOf.trans h)

/-- A line is filled with words. -/
def filling : Filling Line Word where
  opens := Word.line
  extend := Line.extend
  items line := wordsOf line.1
  items_opens word := eq_wordsOf (splitWhitespace_word word.2)
  items_extend line word := by
    refine eq_wordsOf ((splitWhitespace_append word.2).trans ?_)
    rw [List.map_append, map_wordsOf, List.map_singleton]

/-- What does not go on the next line. -/
def Fits (maxW : K) (line : Line) : Prop := m.width line.1 ≤ maxW

instance {maxW : K} : DecidablePred (m.Fits maxW) := fun line =>
  inferInstanceAs (Decidable (m.width line.1 ≤ maxW))

variable {m}

theorem closed_fits : filling.Closed (m.Fits b) := fun line word h => (m.appends line word).trans h

theorem cand_line {line : Line} {word : Word} : cand line.1 word.1 = (line.extend word).1 :=
  if_neg line.2.1

/-- The loop fills lines. -/
theorem wrapPara_eq (line : Line) {words : List Word} :
    m.wrapPara maxW line.1 (words.map fun word => word.1) =
      (filling.fill (m.Fits maxW) line words).map fun line => line.1 := by
  induction words generalizing line with
  | nil => rfl
  | cons word words ih =>
    rw [List.map_cons, wrapPara, Filling.fill, cand_line]
    by_cases h : m.Fits maxW (filling.extend line word)
    · rw [if_pos h, if_neg fun h' => absurd h'.1 (not_lt.mpr h)]
      exact ih _
    · rw [if_neg h, if_pos ⟨lt_of_not_ge h, line.2.1⟩, List.map_cons]
      exact congrArg (line.1 :: ·) (ih word.line)

theorem paraLines_of_nil (h : wordsOf para = []) : m.paraLines maxW para = [""] := by
  rw [paraLines, ← map_wordsOf, h]
  rfl

theorem paraLines_of_cons {word : Word} {words : List Word} (h : wordsOf para = word :: words) :
    m.paraLines maxW para =
      (filling.fill (m.Fits maxW) word.line words).map fun line => line.1 := by
  have hc : ¬ (maxW < m.width (cand "" word.1) ∧ "" ≠ "") := fun h => h.2 rfl
  rw [paraLines, ← map_wordsOf, h, List.map_cons, wrapPara, if_neg hc]
  exact wrapPara_eq word.line

/-- The words of a paragraph are kept. -/
theorem flatMap_paraLines :
    (m.paraLines maxW para).flatMap splitWhitespace = splitWhitespace para := by
  have hi : (fun line : Line => splitWhitespace line.1) =
      fun line => (filling.items line).map fun word => word.1 := funext fun _ => map_wordsOf.symm
  have hp : (wordsOf para).map (fun word => word.1) = splitWhitespace para := map_wordsOf
  rw [← hp]
  cases h : wordsOf para with
  | nil =>
    rw [paraLines_of_nil h]
    rfl
  | cons word words =>
    have hone : filling.items word.line = [word] := filling.items_opens word
    rw [paraLines_of_cons h, List.flatMap_map, hi, ← List.map_flatMap, Filling.flatMap_fill, hone,
      List.singleton_append]

/-- The candidates that a paragraph refuses. -/
def refusedIn (m : Measurer K) (maxW : K) (para : String) : List Line :=
  match wordsOf para with
  | [] => []
  | word :: words => filling.refused (m.Fits maxW) word.line words

/-- The words that open a line of a paragraph. -/
def openersIn (m : Measurer K) (maxW : K) (para : String) : List Word :=
  match wordsOf para with
  | [] => []
  | word :: words => word :: filling.openers (m.Fits maxW) word.line words

theorem refusedIn_of_cons {word : Word} {words : List Word} (h : wordsOf para = word :: words) :
    m.refusedIn maxW para = filling.refused (m.Fits maxW) word.line words := by
  rw [refusedIn, h]

theorem openersIn_of_cons {word : Word} {words : List Word} (h : wordsOf para = word :: words) :
    m.openersIn maxW para = word :: filling.openers (m.Fits maxW) word.line words := by
  rw [openersIn, h]

/-- There is a line, and one more for each candidate that is refused. -/
theorem length_paraLines :
    (m.paraLines maxW para).length = (m.refusedIn maxW para).length + 1 := by
  cases h : wordsOf para with
  | nil =>
    rw [paraLines_of_nil h, refusedIn, h]
    rfl
  | cons word words =>
    rw [paraLines_of_cons h, refusedIn_of_cons h, List.length_map, Filling.length_fill]

/-- A line is empty, or it fits, or it is a word that opens it. -/
theorem mem_paraLines {line : String} (h : line ∈ m.paraLines maxW para) :
    line = "" ∨ m.width line ≤ maxW ∨ ∃ word ∈ m.openersIn maxW para, line = word.1 := by
  cases hw : wordsOf para with
  | nil =>
    rw [paraLines_of_nil hw] at h
    exact .inl (List.mem_singleton.mp h)
  | cons word words =>
    rw [paraLines_of_cons hw] at h
    rw [openersIn_of_cons hw]
    obtain ⟨k, hk, rfl⟩ := List.mem_map.mp h
    rcases Filling.fits_or_opens hk with hk | rfl | ⟨x, hx, rfl⟩
    · exact .inr (.inl hk)
    · exact .inr (.inr ⟨word, List.mem_cons_self, rfl⟩)
    · exact .inr (.inr ⟨x, List.mem_cons_of_mem _ hx, rfl⟩)

theorem not_fits_of_mem_refusedIn {line : Line} (h : line ∈ m.refusedIn maxW para) :
    maxW < m.width line.1 := by
  cases hw : wordsOf para with
  | nil =>
    rw [refusedIn, hw] at h
    exact absurd h List.not_mem_nil
  | cons word words =>
    rw [refusedIn_of_cons hw] at h
    have hn : ¬ m.Fits maxW line := Filling.not_of_mem_refused h
    exact lt_of_not_ge hn

/-! ## Wrapping again -/

/-- A candidate that is refused is wider than the words that open a line. -/
def Steady (m : Measurer K) (text : String) (maxW : K) : Prop :=
  ∀ para ∈ hardLines text, ∀ cand ∈ m.refusedIn maxW para, 0 < m.width cand.1 ∧
    ∀ q ∈ hardLines text, ∀ word ∈ m.openersIn maxW q, m.width word.1 < m.width cand.1

def Rewraps (m : Measurer K) (text : String) (maxW : K) : Prop :=
  m.wrapLines text (m.wrapMetrics text maxW).2 = m.wrapLines text maxW

theorem foldl_widest_lt {lines : List String} {a : K} :
    lines.foldl (fun widest line => if line = "" then widest else max widest (m.width line)) a < c ↔
      a < c ∧ ∀ line ∈ lines, line ≠ "" → m.width line < c := by
  induction lines generalizing a with
  | nil => simp
  | cons line lines ih =>
    rw [List.foldl_cons, ih, List.forall_mem_cons]
    split
    · next h => simp [h]
    · next h => simp [h, and_assoc]

theorem widest_lt_iff {lines : List String} :
    m.widest lines < c ↔ 0 < c ∧ ∀ line ∈ lines, line ≠ "" → m.width line < c :=
  foldl_widest_lt

theorem le_widest {lines : List String} {line : String} (h : line ∈ lines) (hne : line ≠ "") :
    m.width line ≤ m.widest lines :=
  le_of_not_gt fun hlt => lt_irrefl _ ((widest_lt_iff.mp hlt).2 line h hne)

/-- The lines of a paragraph are its lines at another width if and only if what was refused is
    refused there, as long as the lines fit. -/
theorem paraLines_eq_iff (h : ∀ line ∈ m.paraLines maxW para, line ≠ "" → m.width line ≤ b) :
    m.paraLines b para = m.paraLines maxW para ↔
      ∀ cand ∈ m.refusedIn maxW para, b < m.width cand.1 := by
  cases hw : wordsOf para with
  | nil => simp [paraLines_of_nil hw, refusedIn, hw]
  | cons word words =>
    have hfit : ∀ line ∈ filling.fill (m.Fits maxW) word.line words, m.Fits b line := by
      intro line hline
      refine h line.1 ?_ line.2.1
      rw [paraLines_of_cons hw]
      exact List.mem_map_of_mem hline
    have hinj : Function.Injective (List.map fun line : Line => line.1) :=
      List.map_injective_iff.mpr Subtype.val_injective
    rw [paraLines_of_cons hw, paraLines_of_cons hw, refusedIn_of_cons hw, hinj.eq_iff,
      Filling.fill_eq_fill_iff closed_fits hfit]
    exact forall₂_congr fun _ _ => not_le

/-- Where a paragraph with words ends is seen on its lines. -/
theorem splitWhitespace_ne_nil {line : String} (hne : wordsOf para ≠ [])
    (h : line ∈ m.paraLines maxW para) : splitWhitespace line ≠ [] := by
  cases hw : wordsOf para with
  | nil => exact absurd hw hne
  | cons word words =>
    rw [paraLines_of_cons hw] at h
    obtain ⟨k, hk, rfl⟩ := List.mem_map.mp h
    have hone : filling.items word.line = [word] := filling.items_opens word
    have hk : wordsOf k.1 ≠ [] :=
      Filling.items_ne_nil (by rw [hone]; exact List.cons_ne_nil _ _) hk
    rw [← map_wordsOf]
    simpa using hk

/-- Lists of parts that hold the same, none of which is empty, and that are the beginnings of one
    list. -/
theorem append_inj_of_flatMap {γ δ : Type*} {f : γ → List δ} {u v u' v' : List γ}
    (h : u ++ v = u' ++ v') (hf : u.flatMap f = u'.flatMap f) (hu : ∀ a ∈ u, f a ≠ [])
    (hu' : ∀ a ∈ u', f a ≠ []) : u = u' ∧ v = v' := by
  rcases List.append_eq_append_iff.mp h with ⟨w, rfl, rfl⟩ | ⟨w, rfl, rfl⟩
  · rw [List.flatMap_append, List.self_eq_append_right, List.flatMap_eq_nil_iff] at hf
    have hw : w = [] := List.eq_nil_iff_forall_not_mem.mpr fun a ha =>
      hu' a (List.mem_append_right _ ha) (hf a ha)
    simp [hw]
  · rw [List.flatMap_append, List.append_right_eq_self, List.flatMap_eq_nil_iff] at hf
    have hw : w = [] := List.eq_nil_iff_forall_not_mem.mpr fun a ha =>
      hu a (List.mem_append_right _ ha) (hf a ha)
    simp [hw]

/-- The lines of a text are its lines at another width if and only if those of its paragraphs
    are. -/
theorem flatMap_paraLines_eq_iff {paras : List String} :
    paras.flatMap (m.paraLines b) = paras.flatMap (m.paraLines maxW) ↔
      ∀ para ∈ paras, m.paraLines b para = m.paraLines maxW para := by
  induction paras with
  | nil => simp
  | cons para paras ih =>
    rw [List.flatMap_cons, List.flatMap_cons, List.forall_mem_cons, ← ih]
    refine ⟨fun h => ?_, fun ⟨h, h'⟩ => by rw [h, h']⟩
    by_cases hw : wordsOf para = []
    · rw [paraLines_of_nil hw, paraLines_of_nil hw] at h ⊢
      exact ⟨rfl, List.append_cancel_left h⟩
    · exact append_inj_of_flatMap h (flatMap_paraLines.trans flatMap_paraLines.symm)
        (fun _ => splitWhitespace_ne_nil hw) fun _ => splitWhitespace_ne_nil hw

theorem opener_le_widest {word : Word} (hpara : para ∈ hardLines text)
    (h : word ∈ m.openersIn maxW para) : m.width word.1 ≤ m.widest (m.wrapLines text maxW) := by
  cases hw : wordsOf para with
  | nil =>
    rw [openersIn, hw] at h
    exact absurd h List.not_mem_nil
  | cons first words =>
    have hall : ∀ line ∈ filling.fill (m.Fits maxW) first.line words,
        m.Fits (m.widest (m.wrapLines text maxW)) line := by
      intro line hline
      refine le_widest (List.mem_flatMap.mpr ⟨para, hpara, ?_⟩) line.2.1
      rw [paraLines_of_cons hw]
      exact List.mem_map_of_mem hline
    obtain ⟨hfirst, hopeners⟩ := closed_fits.opens hall
    rw [openersIn_of_cons hw] at h
    rcases List.mem_cons.mp h with rfl | h
    · exact hfirst
    · exact hopeners word h

/-- What is refused is wider than the widest line if and only if it is wider than the words that
    open a line. -/
theorem steady_iff : m.Steady text maxW ↔
    ∀ para ∈ hardLines text, ∀ cand ∈ m.refusedIn maxW para,
      m.widest (m.wrapLines text maxW) < m.width cand.1 := by
  refine forall₂_congr fun para hpara => forall₂_congr fun cand hcand => ?_
  constructor
  · rintro ⟨hpos, hopeners⟩
    refine widest_lt_iff.mpr ⟨hpos, fun line hline hne => ?_⟩
    obtain ⟨q, hq, hline⟩ := List.mem_flatMap.mp hline
    rcases mem_paraLines hline with rfl | hfits | ⟨word, hword, rfl⟩
    · exact absurd rfl hne
    · exact hfits.trans_lt (not_fits_of_mem_refusedIn hcand)
    · exact hopeners q hq word hword
  · intro h
    exact ⟨(widest_lt_iff.mp h).1, fun q hq word hword => (opener_le_widest hq hword).trans_lt h⟩

/-- Wrapped again, at the width of the widest line, the lines are the same if and only if what was
    refused is wider than the words that open a line. -/
theorem rewraps_iff : m.Rewraps text maxW ↔ m.Steady text maxW := by
  rw [Rewraps, wrapLines, wrapLines, flatMap_paraLines_eq_iff, steady_iff]
  refine forall₂_congr fun para hpara => ?_
  exact paraLines_eq_iff fun line hline hne =>
    le_widest (List.mem_flatMap.mpr ⟨para, hpara, hline⟩) hne

/-- So they are when no word is too wide. -/
theorem steady_of_words (hpos : 0 ≤ maxW)
    (h : ∀ para ∈ hardLines text, ∀ word ∈ splitWhitespace para, m.width word ≤ maxW) :
    m.Steady text maxW := by
  intro para _ cand hcand
  have hlt := not_fits_of_mem_refusedIn hcand
  refine ⟨hpos.trans_lt hlt, fun q hq word hword => (h q hq word.1 ?_).trans_lt hlt⟩
  rw [← map_wordsOf]
  refine List.mem_map_of_mem ?_
  cases hw : wordsOf q with
  | nil =>
    rw [openersIn, hw] at hword
    exact absurd hword List.not_mem_nil
  | cons first words =>
    rw [openersIn_of_cons hw] at hword
    exact (List.mem_cons.mp hword).elim (fun he => he ▸ List.mem_cons_self)
      fun ho => List.mem_cons_of_mem _ (Filling.mem_of_mem_openers ho)

/-! ## The height of the box -/

/-- The words of a paragraph on one line. -/
def joined (para : String) : String := (splitWhitespace para).foldl cand ""

/-- A paragraph that needs no second line. -/
def OnOneLine (m : Measurer K) (b : K) (para : String) : Prop :=
  (splitWhitespace para).length ≤ 1 ∨ m.width (joined para) ≤ b

theorem foldl_cand {line : Line} {words : List Word} :
    (words.map fun word => word.1).foldl cand line.1 = (words.foldl Line.extend line).1 := by
  induction words generalizing line with
  | nil => rfl
  | cons word words ih =>
    rw [List.map_cons, List.foldl_cons, cand_line]
    exact ih

theorem refusedIn_eq_nil_iff : m.refusedIn b para = [] ↔ m.OnOneLine b para := by
  rw [OnOneLine, joined, ← map_wordsOf, List.length_map]
  cases hw : wordsOf para with
  | nil => simp [refusedIn, hw]
  | cons word words =>
    have hc : cand "" word.1 = word.line.1 := if_pos rfl
    have hl : (word :: words).length ≤ 1 ↔ words = [] := by simp
    rw [refusedIn_of_cons hw, Filling.refused_eq_nil_iff closed_fits, List.map_cons,
      List.foldl_cons, hc, foldl_cand, hl]
    rfl

theorem length_flatMap_paraLines {paras : List String} :
    (paras.flatMap (m.paraLines b)).length =
      paras.length + (paras.flatMap (m.refusedIn b)).length := by
  induction paras with
  | nil => rfl
  | cons para paras ih =>
    simp only [List.flatMap_cons, List.length_append, List.length_cons, length_paraLines, ih]
    omega

theorem length_wrapLines_eq_iff :
    (hardLines text).length = (m.wrapLines text b).length ↔
      ∀ para ∈ hardLines text, m.OnOneLine b para := by
  rw [wrapLines, length_flatMap_paraLines, left_eq_add, List.length_eq_zero_iff,
    List.flatMap_eq_nil_iff]
  exact forall₂_congr fun _ _ => refusedIn_eq_nil_iff

theorem hardLines_ne_nil : hardLines text ≠ [] := by
  rw [hardLines, ne_eq, List.map_eq_nil_iff]
  exact splitChar_ne_nil

theorem length_wrapLines_pos : 0 < (m.wrapLines text b).length := by
  rw [wrapLines, length_flatMap_paraLines]
  exact Nat.add_pos_left (List.length_pos_iff.mpr hardLines_ne_nil) _

theorem wrapMetrics_fst : (m.wrapMetrics text maxW).1 = (m.wrapLines text maxW).length :=
  max_eq_left length_wrapLines_pos

/-- A text is as high as the lines that are broken in it. -/
theorem height_text : m.height text = (hardLines text).length * m.lineH := by
  have hh : (hardLines text).map m.height = (hardLines text).map fun _ => m.lineH := by
    refine List.map_congr_left fun line hline => ?_
    obtain ⟨cs, hcs, rfl⟩ := List.mem_map.mp hline
    refine m.height_line _ ?_
    rw [String.toList_ofList]
    exact notMem_of_mem_splitChar hcs
  rw [m.height_eq, hh, List.map_const', List.sum_replicate, nsmul_eq_mul]

/-! ## Measuring and painting agree -/

/-- The lines are right at a width. -/
structure Wrapped (m : Measurer K) (text : String) (maxW : K) : Prop where
  words : ∀ para ∈ hardLines text,
    (m.paraLines maxW para).flatMap splitWhitespace = splitWhitespace para
  fits : ∀ line ∈ m.wrapLines text maxW,
    line = "" ∨ IsWord line.toList ∨ m.width line ≤ maxW
  again : m.Rewraps text maxW

/-- The box is as high as the lines that are painted into it. -/
def HeightsAgree (m : Measurer K) (text : String) (known : Option K) (avail : AvailableSpace K) :
    Prop :=
  let box := m.measureLeaf text known none avail
  box.2 = (m.paintLines text box.1).length * m.lineH

def Agrees (m : Measurer K) (text : String) (known : Option K) (avail : AvailableSpace K) : Prop :=
  (∀ maxW, (m.target text known avail).1 = some maxW → m.Wrapped text maxW) ∧
    m.HeightsAgree text known avail

/-- The text is wrapped when it is measured. -/
def Wraps (m : Measurer K) (text : String) (known : Option K) (avail : AvailableSpace K) : Prop :=
  ∃ maxW, (m.target text known avail).1 = some maxW ∧ maxW < m.width text ∧ 0 < maxW

theorem wrapped_iff : m.Wrapped text maxW ↔ m.Steady text maxW := by
  refine ⟨fun h => rewraps_iff.mp h.again, fun h => ⟨?_, ?_, rewraps_iff.mpr h⟩⟩
  · exact fun _ _ => flatMap_paraLines
  · intro line hline
    obtain ⟨para, _, hline⟩ := List.mem_flatMap.mp hline
    rcases mem_paraLines hline with h | h | ⟨word, _, rfl⟩
    · exact .inl h
    · exact .inr (.inr h)
    · exact .inr (.inl word.2)

/-- A box that is wrapped when it is measured has room for the lines it was measured for. -/
theorem measureLeaf_of_wraps (h : m.Wraps text known avail)
    (hs : ∀ maxW, (m.target text known avail).1 = some maxW → m.Steady text maxW) :
    ∃ w, m.measureLeaf text known none avail = (w, (m.wrapLines text w).length * m.lineH) := by
  obtain ⟨maxW, ht, hw⟩ := h
  have hs := hs maxW ht
  generalize htarget : m.target text known avail = target at ht
  obtain ⟨_, fixed⟩ := target
  cases ht
  have hm : m.measureLeaf text known none avail =
      (if fixed then maxW else (m.wrapMetrics text maxW).2,
        (m.wrapMetrics text maxW).1 * m.lineH) := by
    simp only [measureLeaf, htarget, if_pos hw, Option.getD_none]
  refine ⟨_, hm.trans (congrArg (Prod.mk _) ?_)⟩
  rw [wrapMetrics_fst]
  cases fixed with
  | true => rfl
  | false =>
    have hr : m.wrapLines text (m.wrapMetrics text maxW).2 = m.wrapLines text maxW :=
      rewraps_iff.mpr hs
    rw [if_neg Bool.false_ne_true, hr]

theorem measureLeaf_of_not_wraps (h : ¬ m.Wraps text known avail) :
    m.measureLeaf text known none avail = (known.getD (m.width text), m.height text) := by
  rw [measureLeaf]
  cases htarget : m.target text known avail with
  | mk target fixed =>
    cases target with
    | none => rfl
    | some maxW => exact if_neg fun hw => h ⟨maxW, by rw [htarget], hw⟩

theorem paintLines_of_blank (h : trim text = "") : m.paintLines text b = [] := if_pos h

theorem paintLines_of_not_blank (h : trim text ≠ "") :
    m.paintLines text b = m.wrapLines text b := if_neg h

variable [IsStrictOrderedRing K]

theorem mul_lineH_eq_iff {n k : Nat} : n * m.lineH = k * m.lineH ↔ m.lineH = 0 ∨ n = k := by
  rw [mul_eq_mul_right_iff, Nat.cast_inj, or_comm]

theorem heightsAgree_iff
    (hs : ∀ maxW, (m.target text known avail).1 = some maxW → m.Steady text maxW) :
    m.HeightsAgree text known avail ↔ m.lineH = 0 ∨ trim text ≠ "" ∧
      (¬ m.Wraps text known avail →
        ∀ para ∈ hardLines text, m.OnOneLine (known.getD (m.width text)) para) := by
  rw [HeightsAgree]
  by_cases hw : m.Wraps text known avail
  · obtain ⟨w, hbox⟩ := measureLeaf_of_wraps hw hs
    rw [hbox, mul_lineH_eq_iff]
    refine or_congr_right ?_
    by_cases hb : trim text = ""
    · rw [paintLines_of_blank hb]
      simp [hb, length_wrapLines_pos.ne']
    · rw [paintLines_of_not_blank hb]
      simp [hb, hw]
  · rw [measureLeaf_of_not_wraps hw, height_text, mul_lineH_eq_iff]
    refine or_congr_right ?_
    by_cases hb : trim text = ""
    · rw [paintLines_of_blank hb]
      simp [hb, hardLines_ne_nil]
    · rw [paintLines_of_not_blank hb, length_wrapLines_eq_iff]
      simp [hb, hw]

/-- Measuring and painting agree if and only if what is refused at the width to wrap at is wider
    than the words that open a line, the text is not blank, and when it is not wrapped none of its
    paragraphs needs a second line in the box. -/
theorem agrees_iff (m : Measurer K) (text : String) (known : Option K) (avail : AvailableSpace K) :
    m.Agrees text known avail ↔
      (∀ maxW, (m.target text known avail).1 = some maxW → m.Steady text maxW) ∧
        (m.lineH = 0 ∨ trim text ≠ "" ∧ (¬ m.Wraps text known avail →
          ∀ para ∈ hardLines text, m.OnOneLine (known.getD (m.width text)) para)) := by
  rw [Agrees]
  constructor
  · rintro ⟨hw, hh⟩
    have hs := fun maxW ht => wrapped_iff.mp (hw maxW ht)
    exact ⟨hs, (heightsAgree_iff hs).mp hh⟩
  · rintro ⟨hs, hh⟩
    exact ⟨fun maxW ht => wrapped_iff.mpr (hs maxW ht), (heightsAgree_iff hs).mpr hh⟩

end Measurer

/-! ## Letters of one width -/

theorem hardLines_of_notMem {line : String} (h : '
' ∉ line.toList) : hardLines line = [line] := by
  rw [hardLines, splitChar_of_notMem h, List.map_singleton, String.ofList_toList]

theorem notMem_of_mem_hardLines {text line : String} (h : line ∈ hardLines text) :
    '
' ∉ line.toList := by
  obtain ⟨cs, hcs, rfl⟩ := List.mem_map.mp h
  rw [String.toList_ofList]
  exact notMem_of_mem_splitChar hcs

/-- The most letters on a line. -/
def columns (text : String) : Nat := ((hardLines text).map String.length).foldr max 0

theorem columns_of_notMem {line : String} (h : '
' ∉ line.toList) :
    columns line = line.length := by
  rw [columns, hardLines_of_notMem h]
  exact Nat.max_zero _

theorem foldr_max_isGreatest {ns : List Nat} (h : ns ≠ []) :
    ns.foldr max 0 ∈ ns ∧ ∀ n ∈ ns, n ≤ ns.foldr max 0 := by
  induction ns with
  | nil => exact absurd rfl h
  | cons n ns ih =>
    rw [List.foldr_cons]
    by_cases hns : ns = []
    · simp [hns]
    · obtain ⟨hmem, hle⟩ := ih hns
      refine ⟨?_, List.forall_mem_cons.mpr ⟨le_max_left _ _, fun k hk => ?_⟩⟩
      · rcases max_choice n (ns.foldr max 0) with he | he
        · rw [he]
          exact List.mem_cons_self
        · rw [he]
          exact List.mem_cons_of_mem _ hmem
      · exact (hle k hk).trans (le_max_right _ _)

/-- A font with letters of width one on lines of height one. -/
def letters : Measurer ℚ where
  width text := columns text
  height text := (hardLines text).length
  appends line word := by
    rw [columns_of_notMem line.2.2, columns_of_notMem (line.extend word).2.2, Nat.cast_le]
    simp [Line.extend]
    omega
  width_text text := by
    have hne : (hardLines text).map String.length ≠ [] := by simpa using Measurer.hardLines_ne_nil
    obtain ⟨hmem, hle⟩ := foldr_max_isGreatest hne
    constructor
    · obtain ⟨line, hline, he⟩ := List.mem_map.mp hmem
      refine ⟨line, hline, congrArg Nat.cast ?_⟩
      rw [columns_of_notMem (notMem_of_mem_hardLines hline), he, columns]
    · rintro _ ⟨line, hline, rfl⟩
      rw [Nat.cast_le, columns_of_notMem (notMem_of_mem_hardLines hline)]
      exact hle _ (List.mem_map_of_mem hline)
  height_eq text := by
    have h : (hardLines text).map (fun line => ((hardLines line).length : ℚ)) =
        (hardLines text).map fun _ => 1 := by
      refine List.map_congr_left fun line hline => ?_
      rw [hardLines_of_notMem (notMem_of_mem_hardLines hline), List.length_singleton, Nat.cast_one]
    rw [h, List.map_const', List.sum_replicate, nsmul_one]
  height_line line h := by
    rw [hardLines_of_notMem h]
    rfl

theorem agrees_two_words : letters.Agrees "ab cd" none (.definite 3) := by
  refine (letters.agrees_iff "ab cd" none (.definite 3)).mpr
    ⟨fun maxW h => ?_, .inr ⟨by decide, ?_⟩⟩
  · obtain rfl : 3 = maxW := Option.some.inj h
    exact Measurer.steady_of_words (by decide) (by decide)
  · exact fun h => absurd ⟨3, rfl, by decide, by decide⟩ h

/-- The last word is too wide for the box. At its width the first two words go on one line. -/
theorem not_agrees_overlong : ¬ letters.Agrees "aa bb cccccccc" none (.definite 4) := by
  intro h
  have hlines : letters.wrapLines "aa bb cccccccc" 4 = ["aa", "bb", "cccccccc"] := rfl
  have hagain : letters.wrapLines "aa bb cccccccc"
      (letters.wrapMetrics "aa bb cccccccc" 4).2 = ["aa bb", "cccccccc"] := rfl
  have heq := (h.1 4 rfl).again
  rw [Measurer.Rewraps, hlines, hagain] at heq
  exact absurd heq (by decide)

end Wandr.Canvas
