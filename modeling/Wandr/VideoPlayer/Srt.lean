import Mathlib.Algebra.Group.Int.Defs
import Wandr.Lib.Lines
import Wandr.Lib.Words

/-!
# Subtitles

A subtitle file is made of blocks: a line with a number that may be missing, a line with the time
range of a cue, and the lines of its text.

* `parseSrt`: how a file is read;
* `SrtCue`, `Entry`: what is written;
* `parseSrt_iff`: when exactly the cues of a file are read, and when exactly a block that is no cue
  changes nothing.
-/

namespace Wandr.VideoPlayer

open Text

/-! ## Reading -/

structure Cue where
  startUs : Int
  endUs : Int
  text : String
  deriving DecidableEq

/-- The number that a sum or a product is, in a word. -/
def wrap64 (n : Int) : Int := n.bmod (2 ^ 64)

def arrow : List Char := ['-', '-', '>']

/-- What stands before the first occurrence of a pattern, and what after it. -/
def splitOnce (pat cs : List Char) : Option (List Char × List Char) :=
  match before pat cs, afterFirst pat cs with
  | some a, some b => some (a, b)
  | _, _ => none

def trimmed (cs : List Char) : List Char := (trim (String.ofList cs)).toList

def parseI64 (cs : List Char) : Option Int := parseSigned 64 (String.ofList cs)

/-- The numbers of a time: hours, minutes, seconds and milliseconds. -/
structure Time where
  h : Int
  m : Int
  sec : Int
  ms : Int
  deriving DecidableEq

def Time.micros (t : Time) : Int := ((t.h * 3600 + t.m * 60 + t.sec) * 1000 + t.ms) * 1000

def numbers (cs : List Char) : Option Time := do
  let (hms, ms) ← splitOnce [','] (trimmed cs)
  match splitChar ':' hms with
  | h :: m :: sec :: _ =>
    return {
      h := ← parseI64 (trimmed h)
      m := ← parseI64 m
      sec := ← parseI64 sec
      ms := ← parseI64 ms }
  | _ => none

def ts (cs : List Char) : Option Int := (numbers cs).map fun t => wrap64 t.micros

/-- The line of a block that is to be the time range, and the lines after it. -/
def timing : List (List Char) → List Char × List (List Char)
  | [] => ([], [])
  | first :: rest =>
    if (before arrow first).isSome then (first, rest) else (rest.head?.getD [], rest.tail)

/-- What is read of the lines of a block that are not blank. -/
def readLines (ls : List (List Char)) : Option Cue := do
  let (a, b) ← splitOnce arrow (timing ls).1
  let startUs ← ts a
  let endUs ← ts b
  if (timing ls).2.isEmpty then none
  else return { startUs, endUs, text := String.ofList (joinChar '\n' (timing ls).2) }

def notBlank (l : List Char) : Bool := trim (String.ofList l) ≠ ""

def readBlock (block : List Char) : Option Cue := readLines ((lines block).filter notBlank)

def sortByStart (cues : List Cue) : List Cue :=
  cues.mergeSort fun a b => decide (a.startUs ≤ b.startUs)

def parseSrt (text : String) : List Cue :=
  sortByStart ((splitStr emptyLine text.toList).filterMap readBlock)

/-! ## What is written -/

/-- A number of at least some digits. -/
def padded (k n : Nat) : List Char :=
  List.replicate (k - (Nat.toDigits 10 n).length) '0' ++ Nat.toDigits 10 n

/-- A time in milliseconds. -/
def timestamp (ms : Nat) : List Char :=
  padded 2 (ms / 3600000) ++ ':' :: (padded 2 (ms / 60000 % 60) ++
    ':' :: (padded 2 (ms / 1000 % 60) ++ ',' :: padded 3 (ms % 1000)))

def rangeLine (startMs endMs : Nat) : List Char :=
  timestamp startMs ++ [' ', '-', '-', '>', ' '] ++ timestamp endMs

/-- A cue as it is written. -/
structure SrtCue where
  /-- The number of the cue, if there is a line with it. -/
  index : Option Nat
  startMs : Nat
  endMs : Nat
  text : List (List Char)
  startMs_lt : startMs < 360000000
  endMs_lt : endMs < 360000000
  ne_nil : text ≠ []
  isLine : ∀ l ∈ text, IsLine l
  notBlank : ∀ l ∈ text, notBlank l = true

namespace SrtCue

variable (c : SrtCue)

def lines : List (List Char) :=
  (c.index.map (Nat.toDigits 10)).toList ++ rangeLine c.startMs c.endMs :: c.text

/-- The cue that is to be read. -/
def cue : Cue where
  startUs := c.startMs * 1000
  endUs := c.endMs * 1000
  text := String.ofList (joinChar '\n' c.text)

end SrtCue

/-- A cue, and the blank lines after it. -/
structure Entry where
  cue : SrtCue
  blanks : List (List Char)
  isLine : ∀ l ∈ blanks, IsLine l
  blank : ∀ l ∈ blanks, notBlank l = false

def Entry.lines (x : Entry) : List (List Char) := x.cue.lines ++ x.blanks

/-- The numbers of a time fit into a word, and so does the time. -/
def Fits (t : Time) : Prop := -2 ^ 63 ≤ t.micros ∧ t.micros < 2 ^ 63

/-- A block that is no cue, and the blank lines after it: there is no time range where one is to be,
    or there is a number in it that is none or does not fit. -/
structure Malformed where
  lines : List (List Char)
  blanks : List (List Char)
  ne_nil : lines ≠ []
  isLine : ∀ l ∈ lines ++ blanks, IsLine l
  notBlank : ∀ l ∈ lines, notBlank l = true
  blank : ∀ l ∈ blanks, VideoPlayer.notBlank l = false
  malformed : ∀ a b t u, splitOnce arrow (timing lines).1 = some (a, b) → numbers a = some t →
    numbers b = some u → ¬ (Fits t ∧ Fits u)

/-! ## Times -/

section Times

variable {k n : Nat} {a b p cs : List Char} {c : Char}

theorem isDigit_of_mem_padded (h : c ∈ padded k n) : c.isDigit = true := by
  rcases List.mem_append.1 h with h | h
  · rw [List.eq_of_mem_replicate h]
    rfl
  · exact isDigit_of_mem_toDigits h

theorem digits_padded : digits 0 (padded k n) = some n := by
  have hz (j : Nat) : digits 0 (List.replicate j '0') = some 0 := by
    induction j with
    | zero => rfl
    | succ j ih => exact ih
  rw [padded, digits_append, hz, Option.bind_some, digits_toDigits]

theorem parseI64_padded (h : n < 2 ^ 63) : parseI64 (padded k n) = some (n : Int) := by
  have hd {d : Char} {ds : List Char} (hds : padded k n = d :: ds) : d.isDigit = true :=
    isDigit_of_mem_padded (hds ▸ List.mem_cons_self)
  have hne : padded k n ≠ [] := List.append_ne_nil_of_right_ne_nil _ (by simp [Nat.toDigits_ne_nil])
  have hm : magnitude (padded k n) = some n := by
    rw [magnitude, if_neg (mt List.isEmpty_iff.1 hne), digits_padded]
  unfold parseI64 parseSigned
  rw [String.toList_ofList]
  split
  · next hds => exact absurd (hd hds) (by decide)
  · next hds => exact absurd (hd hds) (by decide)
  · rw [hm]
    simpa [Option.filter] using h

theorem splitOnce_append (h : c ∉ a) : splitOnce (c :: p) (a ++ (c :: p ++ b)) = some (a, b) := by
  have hclear : Clear (c :: p) a (c :: p ++ b) := clear_of_notMem h
  rw [splitOnce, before_clear hclear, afterFirst_clear hclear,
    before_occurrence (List.cons_ne_nil _ _), afterFirst_occurrence (List.cons_ne_nil _ _),
    Option.map_some, List.append_nil]

theorem mem_timestamp (h : c ∈ timestamp n) : c.isDigit = true ∨ c = ':' ∨ c = ',' := by
  simp only [timestamp, List.mem_append, List.mem_cons] at h
  rcases h with h | rfl | h | rfl | h | rfl | h
  · exact .inl (isDigit_of_mem_padded h)
  · exact .inr (.inl rfl)
  · exact .inl (isDigit_of_mem_padded h)
  · exact .inr (.inl rfl)
  · exact .inl (isDigit_of_mem_padded h)
  · exact .inr (.inr rfl)
  · exact .inl (isDigit_of_mem_padded h)

theorem notMem_timestamp (hd : c.isDigit = false) (h₁ : c ≠ ':') (h₂ : c ≠ ',') :
    c ∉ timestamp n := fun h => by
  rcases mem_timestamp h with h | h | h
  · exact Bool.noConfusion (hd.symm.trans h)
  · exact h₁ h
  · exact h₂ h

theorem isWhitespace_of_mem_timestamp (h : c ∈ timestamp n) : isWhitespace c = false := by
  rcases mem_timestamp h with h | rfl | rfl
  · exact isWhitespace_of_isDigit h
  · rfl
  · rfl

/-- A time of less than a hundred hours is read, with spaces around it. -/
theorem ts_timestamp (h : n < 360000000) (ha : ∀ c ∈ a, isWhitespace c)
    (hb : ∀ c ∈ b, isWhitespace c) : ts (a ++ (timestamp n ++ b)) = some ((n : Int) * 1000) := by
  have htrim : trimmed (a ++ (timestamp n ++ b)) = timestamp n := by
    rw [trimmed, trim_append ha hb, trim_of_forall fun c hc => isWhitespace_of_mem_timestamp hc,
      String.toList_ofList]
  have hnot {j m : Nat} {d : Char} (hd : d.isDigit = false) : d ∉ padded j m := fun hm =>
    Bool.noConfusion (hd.symm.trans (isDigit_of_mem_padded hm))
  have hsplit : splitOnce [','] (timestamp n) = some
      (padded 2 (n / 3600000) ++ ':' :: (padded 2 (n / 60000 % 60) ++
        ':' :: padded 2 (n / 1000 % 60)), padded 3 (n % 1000)) := by
    have hs := splitOnce_append (p := []) (b := padded 3 (n % 1000)) (c := ',')
      (a := padded 2 (n / 3600000) ++ ':' :: (padded 2 (n / 60000 % 60) ++
        ':' :: padded 2 (n / 1000 % 60))) (by simp [hnot])
    rw [← hs, timestamp]
    simp
  have hpieces : splitChar ':' (padded 2 (n / 3600000) ++
      ':' :: (padded 2 (n / 60000 % 60) ++ ':' :: padded 2 (n / 1000 % 60))) =
        [padded 2 (n / 3600000), padded 2 (n / 60000 % 60), padded 2 (n / 1000 % 60)] := by
    rw [splitChar_append (hnot rfl), splitChar_append (hnot rfl), splitChar_of_notMem (hnot rfl)]
  have hh : trimmed (padded 2 (n / 3600000)) = padded 2 (n / 3600000) := by
    rw [trimmed, trim_of_forall fun c hc => isWhitespace_of_isDigit (isDigit_of_mem_padded hc),
      String.toList_ofList]
  have hn : numbers (a ++ (timestamp n ++ b)) = some {
      h := (n / 3600000 : Nat), m := (n / 60000 % 60 : Nat)
      sec := (n / 1000 % 60 : Nat), ms := (n % 1000 : Nat) } := by
    unfold numbers
    rw [htrim, hsplit, Option.bind_eq_bind, Option.bind_some]
    dsimp only
    rw [hpieces]
    dsimp only
    rw [hh, parseI64_padded (by omega), parseI64_padded (by omega), parseI64_padded (by omega),
      parseI64_padded (by omega)]
    rfl
  rw [ts, hn, Option.map_some]
  refine congrArg some ?_
  have hmicros : ((((n / 3600000 : Nat) : Int) * 3600 + (n / 60000 % 60 : Nat) * 60 +
      (n / 1000 % 60 : Nat)) * 1000 + (n % 1000 : Nat)) * 1000 = n * 1000 := by omega
  rw [Time.micros, hmicros, wrap64, Int.bmod_eq_of_le (by omega) (by omega)]

end Times

/-! ## Blocks -/

section Blocks

variable {c : SrtCue} {cs : List Char} {ls ms : List (List Char)} {n : Nat}

theorem notBlank_of_mem {d : Char} (h : d ∈ cs) (hd : isWhitespace d = false) :
    notBlank cs = true := by
  rw [notBlank, decide_eq_true_eq]
  intro he
  have hw : splitWhitespace (String.ofList cs) = [] := by
    rw [← splitWhitespace_trim, he]
    rfl
  rw [splitWhitespace, String.toList_ofList, List.map_eq_nil_iff] at hw
  exact Bool.noConfusion (hd.symm.trans (words_eq_nil hw d h))

theorem ne_nil_of_notBlank (h : notBlank cs = true) : cs ≠ [] := fun hn => by
  rw [hn] at h
  exact absurd h (by decide)

theorem before_digits : before arrow (Nat.toDigits 10 n) = none := by
  have hc : Clear arrow (Nat.toDigits 10 n) [] :=
    clear_of_notMem fun h => Bool.noConfusion (isDigit_of_mem_toDigits h)
  have hb := before_clear hc
  rw [List.append_nil] at hb
  exact hb

theorem splitOnce_rangeLine (c : SrtCue) : splitOnce arrow (rangeLine c.startMs c.endMs) =
    some (timestamp c.startMs ++ [' '], ' ' :: timestamp c.endMs) := by
  have hn : '-' ∉ timestamp c.startMs ++ [' '] := by
    rw [List.mem_append, List.mem_singleton, not_or]
    exact ⟨notMem_timestamp rfl (by decide) (by decide), by decide⟩
  rw [← splitOnce_append (p := ['-', '>']) hn, rangeLine]
  simp [arrow]

theorem timing_lines (c : SrtCue) (ls : List (List Char)) :
    timing (c.lines ++ ls) = (rangeLine c.startMs c.endMs, c.text ++ ls) := by
  have hrange : (before arrow (rangeLine c.startMs c.endMs)).isSome := by
    have hs := splitOnce_rangeLine c
    rw [splitOnce] at hs
    cases hb : before arrow (rangeLine c.startMs c.endMs) with
    | none =>
      rw [hb] at hs
      cases hs
    | some a => rfl
  rw [SrtCue.lines]
  cases c.index with
  | none => exact if_pos hrange
  | some n => exact if_neg (by rw [before_digits]; decide)

/-- A block that begins with the lines of a cue is read as this cue, with any other lines as text
    of it. -/
theorem readLines_lines (c : SrtCue) (ls : List (List Char)) : readLines (c.lines ++ ls) = some
    { c.cue with text := String.ofList (joinChar '\n' (c.text ++ ls)) } := by
  have hspace {d : Char} (h : d ∈ [' ']) : isWhitespace d := by
    rw [List.mem_singleton.1 h]
    rfl
  have hstart := ts_timestamp (a := []) (b := [' ']) c.startMs_lt
    (fun d h => absurd h List.not_mem_nil) fun _ => hspace
  have hend := ts_timestamp (a := [' ']) (b := []) c.endMs_lt (fun _ => hspace)
    fun d h => absurd h List.not_mem_nil
  rw [List.append_nil] at hend
  have hne : (c.text ++ ls).isEmpty = false :=
    Bool.eq_false_iff.2 (mt List.isEmpty_iff.1 (List.append_ne_nil_of_left_ne_nil c.ne_nil _))
  unfold readLines
  rw [timing_lines, splitOnce_rangeLine, Option.bind_eq_bind, Option.bind_some]
  dsimp only
  rw [← List.nil_append (timestamp c.startMs ++ [' ']), hstart, Option.bind_eq_bind,
    Option.bind_some, ← List.singleton_append, hend, Option.bind_some, hne]
  rfl

theorem filter_lines (c : SrtCue) : c.lines.filter notBlank = c.lines := by
  refine List.filter_eq_self.2 fun l hl => ?_
  rw [SrtCue.lines, List.mem_append, List.mem_cons] at hl
  rcases hl with hl | rfl | hl
  · obtain ⟨n, -, rfl⟩ : ∃ n, c.index = some n ∧ Nat.toDigits 10 n = l := by simpa using hl
    obtain ⟨d, ds, hd⟩ := List.exists_cons_of_ne_nil (Nat.toDigits_ne_nil (n := n) (b := 10))
    have hm : d ∈ Nat.toDigits 10 n := hd ▸ List.mem_cons_self
    exact notBlank_of_mem hm (isWhitespace_of_isDigit (isDigit_of_mem_toDigits hm))
  · refine notBlank_of_mem (d := '-') ?_ rfl
    simp [rangeLine]
  · exact c.notBlank l hl

theorem isLine_of_forall (h : ∀ d ∈ cs, d ≠ '\n' ∧ d ≠ '\r') : IsLine cs :=
  ⟨fun hm => (h _ hm).1 rfl, fun hl => (h _ (List.mem_of_getLast? hl)).2 rfl⟩

theorem isLine_lines (c : SrtCue) : ∀ l ∈ c.lines, IsLine l := by
  intro l hl
  have hd {d : Char} (h : d.isDigit = true) : d ≠ '\n' ∧ d ≠ '\r' :=
    ⟨fun he => Bool.noConfusion ((congrArg Char.isDigit he).symm.trans h),
      fun he => Bool.noConfusion ((congrArg Char.isDigit he).symm.trans h)⟩
  have ht {d : Char} {n : Nat} (h : d ∈ timestamp n) : d ≠ '\n' ∧ d ≠ '\r' := by
    rcases mem_timestamp h with h | rfl | rfl
    · exact hd h
    · decide
    · decide
  rw [SrtCue.lines, List.mem_append, List.mem_cons] at hl
  rcases hl with hl | rfl | hl
  · obtain ⟨n, -, rfl⟩ : ∃ n, c.index = some n ∧ Nat.toDigits 10 n = l := by simpa using hl
    exact isLine_of_forall fun d hm => hd (isDigit_of_mem_toDigits hm)
  · refine isLine_of_forall fun d hm => ?_
    rw [rangeLine, List.mem_append, List.mem_append] at hm
    rcases hm with (hm | hm) | hm
    · exact ht hm
    · have hall : [' ', '-', '-', '>', ' '].all (fun d => d ≠ '\n' && d ≠ '\r') = true := by decide
      simpa using List.all_eq_true.1 hall d hm
    · exact ht hm
  · exact c.isLine l hl

theorem ne_nil_of_mem_lines {l : List Char} (h : l ∈ c.lines) : l ≠ [] := by
  rw [← filter_lines c] at h
  exact ne_nil_of_notBlank (List.of_mem_filter h)

end Blocks

/-! ## Files -/

/-- The cues that are read of the lines of a file. -/
def readsOf (e : LineEnd) (ls : List (List Char)) : List Cue :=
  (paragraphsOf e ls).filterMap fun p => readLines (p.filter notBlank)

/-- The lines of the cues of a file. -/
def fileLines (es : List Entry) : List (List Char) := es.flatMap Entry.lines

/-- In a file with line feeds, each cue but the last has an empty line after it; with the other line
    ends, there are no two cues. -/
def Separated (e : LineEnd) : List Entry → Prop
  | [] => True
  | [_] => True
  | x :: y :: es => (e = .lf ∧ [] ∈ x.blanks) ∧ Separated e (y :: es)

section Files

variable {e : LineEnd} {x y : Entry} {es fs : List Entry} {ls ms bs : List (List Char)}

theorem parseSrt_joinLines (h : ∀ l ∈ ls, IsLine l) :
    parseSrt (String.ofList (joinLines e ls)) = sortByStart (readsOf e ls) := by
  have hs : (splitStr emptyLine (joinLines e ls)).map (fun p => (lines p).filter notBlank) =
      (paragraphsOf e ls).map (·.filter notBlank) := splitStr_joinLines (by decide) h
  have hf := congrArg (List.filterMap readLines) hs
  rw [List.filterMap_map, List.filterMap_map] at hf
  rw [parseSrt, String.toList_ofList]
  exact congrArg sortByStart hf

theorem readsOf_crlf : readsOf .crlf ls = (readLines (ls.filter notBlank)).toList := by
  rw [readsOf, paragraphsOf, List.filterMap_cons]
  cases readLines (ls.filter notBlank) <;> rfl

theorem filter_blanks (h : ∀ l ∈ bs, notBlank l = false) : bs.filter notBlank = [] :=
  List.filter_eq_nil_iff.2 fun l hl => by
    rw [h l hl]
    exact Bool.false_ne_true

/-- What stands before an empty line is read on its own. -/
theorem readsOf_cut (hls : ∀ l ∈ ls, l ≠ []) (hbs : ∀ l ∈ bs, notBlank l = false) (hc : [] ∈ bs) :
    readsOf .lf (ls ++ (bs ++ ms)) = (readLines (ls.filter notBlank)).toList ++ readsOf .lf ms := by
  obtain ⟨w, w', rfl, hw⟩ := List.eq_append_cons_of_mem hc
  have hblank : w.filter notBlank = [] :=
    filter_blanks fun l hl => hbs l (List.mem_append_left _ hl)
  have heq : ls ++ (w ++ [] :: w' ++ ms) = (ls ++ w) ++ [] :: (w' ++ ms) := by simp
  have hne : ∀ l ∈ ls ++ w, l ≠ [] := fun l hl => by
    rcases List.mem_append.1 hl with hl | hl
    · exact hls l hl
    · exact fun hn => hw (hn ▸ hl)
  have hcut : readsOf .lf ((ls ++ w) ++ [] :: (w' ++ ms)) =
      (readLines ((ls ++ w).filter notBlank)).toList ++ readsOf .lf (w' ++ ms) :=
    readParagraphs_append rfl (by decide) hne
  have hrest : readsOf .lf (w' ++ ms) = readsOf .lf ms :=
    readParagraphs_append_of_forall rfl (by decide) fun l hl =>
      hbs l (List.mem_append_right _ (List.mem_cons_of_mem _ hl))
  rw [heq, hcut, hrest, List.filter_append, hblank, List.append_nil]

/-- Where no empty line stands between, it is read on. -/
theorem readsOf_open (hls : ∀ l ∈ ls, l ≠ []) (hbs : ∀ l ∈ bs, notBlank l = false) :
    readsOf .lf (ls ++ bs) = (readLines (ls.filter notBlank)).toList := by
  by_cases hc : [] ∈ bs
  · have hcut : readsOf .lf (ls ++ (bs ++ [])) =
        (readLines (ls.filter notBlank)).toList ++ readsOf .lf [] := readsOf_cut hls hbs hc
    rw [List.append_nil] at hcut
    rw [hcut]
    exact List.append_nil _
  · have hne : ∀ l ∈ ls ++ bs, l ≠ [] := fun l hl => by
      rcases List.mem_append.1 hl with hl | hl
      · exact hls l hl
      · exact fun hn => hc (hn ▸ hl)
    have hread : readsOf .lf (ls ++ bs) = (readLines ((ls ++ bs).filter notBlank)).toList :=
      readParagraphs_of_forall_ne rfl hne
    rw [hread, List.filter_append, filter_blanks hbs, List.append_nil]

theorem Entry.ne_nil_of_mem {l : List Char} (x : Entry) (h : l ∈ x.cue.lines) : l ≠ [] :=
  ne_nil_of_mem_lines h

theorem fileLines_cons : fileLines (x :: es) = x.cue.lines ++ (x.blanks ++ fileLines es) := by
  rw [fileLines, List.flatMap_cons, Entry.lines, List.append_assoc]
  rfl

theorem fileLines_append : fileLines (es ++ fs) = fileLines es ++ fileLines fs :=
  List.flatMap_append

theorem readLines_cue (c : SrtCue) : readLines c.lines = some c.cue := by
  have h := readLines_lines c []
  rw [List.append_nil, List.append_nil] at h
  exact h

/-- Cues with an empty line after each. -/
theorem readsOf_cues (h : ∀ x ∈ es, [] ∈ x.blanks) :
    readsOf .lf (fileLines es ++ ms) = es.map (·.cue.cue) ++ readsOf .lf ms := by
  induction es with
  | nil => rfl
  | cons x es ih =>
    have heq : fileLines (x :: es) ++ ms = x.cue.lines ++ (x.blanks ++ (fileLines es ++ ms)) := by
      rw [fileLines_cons, List.append_assoc, List.append_assoc]
    rw [heq, readsOf_cut (fun _ => x.ne_nil_of_mem) x.blank (h x List.mem_cons_self),
      filter_lines, readLines_cue, ih fun y hy => h y (List.mem_cons_of_mem _ hy)]
    rfl

theorem Separated.tail (h : Separated e (x :: es)) : Separated e es := by
  cases es with
  | nil => trivial
  | cons y es => exact h.2

theorem Separated.cut (h : Separated e (es ++ x :: fs)) :
    (∀ y ∈ es, e = .lf ∧ [] ∈ y.blanks) ∧ Separated e (x :: fs) := by
  induction es with
  | nil => exact ⟨fun _ hy => absurd hy List.not_mem_nil, h⟩
  | cons y es ih =>
    obtain ⟨hes, hfs⟩ := ih h.tail
    refine ⟨List.forall_mem_cons.2 ⟨?_, hes⟩, hfs⟩
    cases es with
    | nil => exact h.1
    | cons z es => exact h.1

/-- Separate cues are read, in the order in which they are written. -/
theorem readsOf_separated (h : Separated e es) : readsOf e (fileLines es) = es.map (·.cue.cue) := by
  cases es using List.reverseRecOn with
  | nil => cases e <;> rfl
  | append_singleton es x =>
    have hlast : readsOf .lf (fileLines [x]) = [x.cue.cue] := by
      rw [fileLines_cons, readsOf_open (fun _ => x.ne_nil_of_mem), filter_lines, readLines_cue]
      · rfl
      · intro l hl
        rw [fileLines, List.flatMap_nil, List.append_nil] at hl
        exact x.blank l hl
    cases e with
    | lf =>
      rw [fileLines_append, readsOf_cues fun y hy => (h.cut.1 y hy).2, hlast, List.map_append]
      rfl
    | crlf =>
      have hnil : es = [] := List.eq_nil_iff_forall_not_mem.2 fun y hy => by
        cases (h.cut.1 y hy).1
      subst hnil
      rw [List.nil_append, readsOf_crlf, fileLines_cons, List.filter_append, List.filter_append,
        filter_lines, filter_blanks x.blank]
      have hcue : readLines (x.cue.lines ++ ([] ++ [])) = some x.cue.cue := by
        rw [List.append_nil, List.append_nil, readLines_cue]
      exact congrArg Option.toList hcue

/-- How many blocks the cues of a file are read as. -/
def groups : List Entry → Nat
  | [] => 0
  | [_] => 1
  | x :: y :: es => (if [] ∈ x.blanks then 1 else 0) + groups (y :: es)

theorem groups_cons (x y : Entry) (es : List Entry) :
    groups (x :: y :: es) = (if [] ∈ x.blanks then 1 else 0) + groups (y :: es) := rfl

theorem groups_eq_length : groups es ≤ es.length ∧ (groups es = es.length ↔ Separated .lf es) := by
  induction es with
  | nil => exact ⟨Nat.le_refl _, iff_of_true rfl trivial⟩
  | cons x es ih =>
    rcases es with _ | ⟨y, es⟩
    · exact ⟨Nat.le_refl _, iff_of_true rfl trivial⟩
    rw [groups_cons, Separated, ← ih.2, List.length_cons]
    have hle := ih.1
    split
    · next h =>
      refine ⟨by omega, ?_⟩
      rw [and_iff_right ⟨rfl, h⟩]
      omega
    · next h => exact ⟨by omega, iff_of_false (by omega) fun hs => h hs.1.2⟩

/-- Each block begins with a cue, so that something is read of it. -/
theorem length_readsOf (hls : ∀ l ∈ ls, l ≠ [])
    (hsome : ∀ ks, (readLines (ls.filter notBlank ++ (x.cue.lines ++ ks))).isSome) :
    (readsOf .lf (ls ++ fileLines (x :: es))).length = groups (x :: es) := by
  have hlen {o : Option Cue} (h : o.isSome) : o.toList.length = 1 := by
    obtain ⟨c, rfl⟩ := Option.isSome_iff_exists.1 h
    rfl
  induction es generalizing ls x with
  | nil =>
    have heq : ls ++ fileLines [x] = (ls ++ x.cue.lines) ++ x.blanks := by
      rw [fileLines_cons, fileLines, List.flatMap_nil, List.append_nil, List.append_assoc]
    have hx := hsome []
    rw [List.append_nil] at hx
    rw [heq, readsOf_open (List.forall_mem_append.2 ⟨hls, fun _ => x.ne_nil_of_mem⟩) x.blank,
      List.filter_append, filter_lines, hlen hx]
    rfl
  | cons y es ih =>
    have hne := List.forall_mem_append.2 ⟨hls, fun _ => x.ne_nil_of_mem⟩
    have heq : ls ++ fileLines (x :: y :: es) =
        (ls ++ x.cue.lines) ++ (x.blanks ++ fileLines (y :: es)) := by
      rw [fileLines_cons, List.append_assoc]
    rw [groups_cons, heq]
    split
    · next h =>
      have hx := hsome []
      rw [List.append_nil] at hx
      have hy : (readsOf .lf ([] ++ fileLines (y :: es))).length = groups (y :: es) :=
        ih (fun l hl => absurd hl List.not_mem_nil) fun ks => by
          rw [List.filter_nil, List.nil_append, readLines_lines y.cue ks]
          rfl
      rw [List.nil_append] at hy
      rw [readsOf_cut hne x.blank h, List.length_append, List.filter_append, filter_lines, hlen hx,
        hy]
    · next h =>
      -- The next cue is in the block of this one.
      have hopen : ∀ l ∈ (ls ++ x.cue.lines) ++ x.blanks, l ≠ [] :=
        List.forall_mem_append.2 ⟨hne, fun l hl hn => h (hn ▸ hl)⟩
      have hy := ih hopen fun ks => by
        rw [List.filter_append, List.filter_append, filter_lines, filter_blanks x.blank,
          List.append_nil, List.append_assoc]
        exact hsome (y.cue.lines ++ ks)
      rw [List.append_assoc] at hy
      rw [hy, Nat.zero_add]

theorem isLine_fileLines (es : List Entry) : ∀ l ∈ fileLines es, IsLine l := by
  intro l hl
  obtain ⟨x, -, hl⟩ := List.mem_flatMap.1 hl
  rcases List.mem_append.1 hl with hl | hl
  · exact isLine_lines x.cue l hl
  · exact x.isLine l hl

theorem length_sortByStart {cues : List Cue} : (sortByStart cues).length = cues.length :=
  List.length_mergeSort _

/-- A file as it is saved. -/
def fileOf (e : LineEnd) (es : List Entry) : String := String.ofList (joinLines e (fileLines es))

/-- The cues of a file are read if and only if they are separate. -/
theorem parseSrt_fileOf :
    parseSrt (fileOf e es) = sortByStart (es.map (·.cue.cue)) ↔ Separated e es := by
  rw [fileOf, parseSrt_joinLines (isLine_fileLines es)]
  refine ⟨fun h => ?_, fun h => congrArg sortByStart (readsOf_separated h)⟩
  have hlen := congrArg List.length h
  rw [length_sortByStart, length_sortByStart, List.length_map] at hlen
  rcases es with _ | ⟨x, _ | ⟨y, es⟩⟩
  · trivial
  · trivial
  cases e with
  | lf =>
    have hg : (readsOf .lf ([] ++ fileLines (x :: y :: es))).length = groups (x :: y :: es) :=
      length_readsOf (fun l hl => absurd hl List.not_mem_nil) fun ks => by
        rw [List.filter_nil, List.nil_append, readLines_lines x.cue ks]
        rfl
    rw [List.nil_append] at hg
    exact groups_eq_length.2.1 (hg.symm.trans hlen)
  | crlf =>
    have hle : (readsOf .crlf (fileLines (x :: y :: es))).length ≤ 1 := by
      rw [readsOf_crlf]
      exact Option.length_toList_le
    rw [hlen, List.length_cons, List.length_cons] at hle
    omega

end Files

/-! ## Blocks that are no cue -/

/-- The times of a block are numbers, and there is text after them. -/
def Readable (ls : List (List Char)) : Prop :=
  (∃ a b t u, splitOnce arrow (timing ls).1 = some (a, b) ∧ numbers a = some t ∧
    numbers b = some u) ∧ (timing ls).2 ≠ []

/-- A block changes nothing if it is cut off the next one and its times are no numbers or it has no
    text, or if it is a single line that is taken for the number of the next cue, which has none. -/
def Harmless (m : Malformed) (c : SrtCue) : Prop :=
  ([] ∈ m.blanks → ¬ Readable m.lines) ∧
    ([] ∉ m.blanks → ∃ l, m.lines = [l] ∧ before arrow l = none ∧ c.index = none)

/-- A file with a block that is no cue between two cues. -/
def fileWith (e : LineEnd) (es : List Entry) (m : Malformed) (fs : List Entry) : String :=
  String.ofList (joinLines e (fileLines es ++ (m.lines ++ (m.blanks ++ fileLines fs))))

section Blocks

variable {e : LineEnd} {c : SrtCue} {m : Malformed} {x : Entry} {es fs : List Entry}
  {ls ms : List (List Char)} {p : List Char} {o : Option Cue} {cue : Cue} {as bs : List Cue}

theorem length_joinChar_lt (h : ms ≠ []) :
    (joinChar '\n' ms).length < (joinChar '\n' (ls ++ p :: ms)).length := by
  induction ls with
  | nil =>
    rw [List.nil_append, joinChar_cons h, List.length_append, List.length_cons]
    omega
  | cons l ls ih =>
    have hne : ls ++ p :: ms ≠ [] := List.append_ne_nil_of_right_ne_nil _ (List.cons_ne_nil _ _)
    rw [List.cons_append, joinChar_cons hne, List.length_append, List.length_cons]
    omega

/-- What is read of a block. -/
theorem readLines_eq_some : readLines ls = some cue ↔
    ∃ a b t u, splitOnce arrow (timing ls).1 = some (a, b) ∧ numbers a = some t ∧
      numbers b = some u ∧ (timing ls).2 ≠ [] ∧
      cue = ⟨wrap64 t.micros, wrap64 u.micros, String.ofList (joinChar '\n' (timing ls).2)⟩ := by
  simp only [readLines, ts, Option.bind_eq_bind, Option.bind_eq_some_iff, Option.map_eq_some_iff,
    Prod.exists]
  constructor
  · rintro ⟨a, b, hab, -, ⟨t, ht, rfl⟩, -, ⟨u, hu, rfl⟩, h⟩
    split at h
    · cases h
    · next hne =>
      exact ⟨a, b, t, u, hab, ht, hu, mt List.isEmpty_iff.2 hne, (Option.some_inj.1 h).symm⟩
  · rintro ⟨a, b, t, u, hab, ht, hu, hne, rfl⟩
    refine ⟨a, b, hab, _, ⟨t, ht, rfl⟩, _, ⟨u, hu, rfl⟩, ?_⟩
    rw [if_neg (mt List.isEmpty_iff.1 hne)]
    rfl

theorem readLines_eq_none : readLines ls = none ↔ ¬ Readable ls := by
  rw [← Option.not_isSome_iff_eq_none, not_iff_not, Option.isSome_iff_exists]
  constructor
  · rintro ⟨cue, h⟩
    obtain ⟨a, b, t, u, hab, ht, hu, hne, -⟩ := readLines_eq_some.1 h
    exact ⟨⟨a, b, t, u, hab, ht, hu⟩, hne⟩
  · rintro ⟨⟨a, b, t, u, hab, ht, hu⟩, hne⟩
    exact ⟨_, readLines_eq_some.2 ⟨a, b, t, u, hab, ht, hu, hne, rfl⟩⟩

theorem text_readLines (h : readLines ls = some cue) :
    cue.text = String.ofList (joinChar '\n' (timing ls).2) := by
  obtain ⟨a, b, t, u, -, -, -, -, rfl⟩ := readLines_eq_some.1 h
  rfl

theorem readLines_congr (h : timing ls = timing ms) : readLines ls = readLines ms := by
  rw [readLines, readLines, h]

/-- More lines than those of the text. -/
theorem timing_ne (h : readLines ls = some c.cue) : (timing ls).2 ≠ ms ++ p :: c.text := by
  intro ht
  have htext := text_readLines h
  rw [ht] at htext
  have hlen : (joinChar '\n' c.text).length < (joinChar '\n' (ms ++ p :: c.text)).length :=
    length_joinChar_lt c.ne_nil
  rw [← String.ofList_injective htext] at hlen
  exact Nat.lt_irrefl _ hlen

theorem sortByStart_drop :
    sortByStart (as ++ (o.toList ++ bs)) = sortByStart (as ++ bs) ↔ o = none := by
  refine ⟨fun h => ?_, fun h => by rw [h]; rfl⟩
  have hlen := congrArg List.length h
  simp only [length_sortByStart, List.length_append] at hlen
  cases o with
  | none => rfl
  | some c =>
    rw [Option.toList_some, List.length_singleton] at hlen
    omega

theorem sortByStart_same :
    sortByStart (as ++ (o.toList ++ bs)) = sortByStart (as ++ cue :: bs) ↔ o = some cue := by
  refine ⟨fun h => ?_, fun h => by rw [h]; rfl⟩
  have hperm : (as ++ (o.toList ++ bs)).Perm (as ++ ([cue] ++ bs)) := by
    have h₁ : (as ++ (o.toList ++ bs)).Perm (sortByStart (as ++ cue :: bs)) :=
      h ▸ (List.mergeSort_perm _ _).symm
    exact h₁.trans (List.mergeSort_perm _ _)
  have hone := (List.perm_append_right_iff bs).1 ((List.perm_append_left_iff as).1 hperm)
  have heq : o.toList = [cue] := List.perm_singleton.1 hone
  cases o with
  | none => cases heq
  | some c => exact congrArg some (List.singleton_inj.1 heq)

/-- A block that is not cut off the next cue leaves it alone only if it is taken for its number. -/
theorem readLines_append : readLines (m.lines ++ c.lines) = some c.cue ↔
    ∃ l, m.lines = [l] ∧ before arrow l = none ∧ c.index = none := by
  constructor
  · intro h
    have hmore (ms : List (List Char)) : (timing (m.lines ++ c.lines)).2 ≠ ms ++ c.lines := by
      have heq : ms ++ c.lines = (ms ++ (c.index.map (Nat.toDigits 10)).toList) ++
          rangeLine c.startMs c.endMs :: c.text := (List.append_assoc _ _ _).symm
      rw [heq]
      exact timing_ne h
    obtain ⟨l, ms, hl⟩ := List.exists_cons_of_ne_nil m.ne_nil
    rw [hl, List.cons_append, timing] at hmore
    by_cases hb : (before arrow l).isSome
    · rw [if_pos hb] at hmore
      exact absurd rfl (hmore ms)
    rw [if_neg hb] at hmore
    rcases ms with _ | ⟨l', ms⟩
    · refine ⟨l, hl, Option.not_isSome_iff_eq_none.1 hb, ?_⟩
      cases hi : c.index with
      | none => rfl
      | some n =>
        -- The number of the cue is taken for the time range.
        have htiming : (timing (m.lines ++ c.lines)).1 = Nat.toDigits 10 n := by
          rw [hl, SrtCue.lines, hi, List.singleton_append, timing, if_neg hb]
          rfl
        have hnone : splitOnce arrow (timing (m.lines ++ c.lines)).1 = none := by
          rw [htiming, splitOnce, before_digits]
        obtain ⟨a, b, t, u, hab, -⟩ := readLines_eq_some.1 h
        cases hnone.symm.trans hab
    · exact absurd rfl (hmore ms)
  · rintro ⟨l, hl, hb, hc⟩
    have hrange : timing (l :: c.lines) = timing c.lines := by
      have hlines := timing_lines c []
      rw [List.append_nil, List.append_nil] at hlines
      rw [hlines, timing, if_neg (by rw [hb]; exact Bool.false_ne_true), SrtCue.lines, hc]
      rfl
    rw [hl, List.singleton_append, readLines_congr hrange, readLines_cue]

theorem filter_malformed (m : Malformed) : m.lines.filter notBlank = m.lines :=
  List.filter_eq_self.2 m.notBlank

theorem Malformed.ne_nil_of_mem {l : List Char} (m : Malformed) (h : l ∈ m.lines) : l ≠ [] :=
  ne_nil_of_notBlank (m.notBlank l h)

/-- A block that is cut off the next cue is read on its own. -/
theorem readsOf_malformed (hc : [] ∈ m.blanks) (hs : Separated .lf fs) :
    readsOf .lf (m.lines ++ (m.blanks ++ fileLines fs)) =
      (readLines m.lines).toList ++ fs.map (·.cue.cue) := by
  rw [readsOf_cut (fun _ => m.ne_nil_of_mem) m.blank hc, filter_malformed, readsOf_separated hs]

/-- Otherwise it is read with the next cue. -/
theorem readsOf_malformed_append (hc : [] ∉ m.blanks) (hs : Separated .lf (x :: fs)) :
    readsOf .lf (m.lines ++ (m.blanks ++ fileLines (x :: fs))) =
      (readLines (m.lines ++ x.cue.lines)).toList ++ fs.map (·.cue.cue) := by
  have hne : ∀ l ∈ m.lines ++ m.blanks ++ x.cue.lines, l ≠ [] :=
    List.forall_mem_append.2 ⟨List.forall_mem_append.2
      ⟨fun _ => m.ne_nil_of_mem, fun l hl hn => hc (hn ▸ hl)⟩, fun _ => x.ne_nil_of_mem⟩
  have heq : m.lines ++ (m.blanks ++ fileLines (x :: fs)) =
      (m.lines ++ m.blanks ++ x.cue.lines) ++ (x.blanks ++ fileLines fs) := by
    rw [fileLines_cons]
    simp only [List.append_assoc]
  have hfilter : (m.lines ++ m.blanks ++ x.cue.lines).filter notBlank = m.lines ++ x.cue.lines := by
    rw [List.filter_append, List.filter_append, filter_malformed, filter_blanks m.blank,
      filter_lines, List.append_nil]
  rw [heq]
  cases fs with
  | nil =>
    rw [fileLines, List.flatMap_nil, List.append_nil, readsOf_open hne x.blank, hfilter]
    exact (List.append_nil _).symm
  | cons y fs => rw [readsOf_cut hne x.blank hs.1.2, hfilter, readsOf_separated hs.2]

theorem parseSrt_fileWith (hs : Separated e (es ++ x :: fs)) (hne : es ≠ []) :
    parseSrt (fileWith e es m (x :: fs)) = parseSrt (fileOf e (es ++ x :: fs)) ↔
      Harmless m x.cue := by
  have hlines : ∀ l ∈ fileLines es ++ (m.lines ++ (m.blanks ++ fileLines (x :: fs))), IsLine l := by
    rw [← List.append_assoc m.lines]
    exact List.forall_mem_append.2 ⟨isLine_fileLines es,
      List.forall_mem_append.2 ⟨m.isLine, isLine_fileLines (x :: fs)⟩⟩
  obtain ⟨hes, hfs⟩ := hs.cut
  obtain ⟨y, es', rfl⟩ := List.exists_cons_of_ne_nil hne
  have he : e = .lf := (hes y List.mem_cons_self).1
  subst he
  rw [parseSrt_fileOf.2 hs, fileWith, parseSrt_joinLines hlines,
    readsOf_cues fun x hx => (hes x hx).2, List.map_append, Harmless]
  by_cases hc : [] ∈ m.blanks
  · rw [readsOf_malformed hc hfs, sortByStart_drop, readLines_eq_none]
    exact ⟨fun h => ⟨fun _ => h, fun hn => absurd hc hn⟩, fun h => h.1 hc⟩
  · rw [readsOf_malformed_append hc hfs, List.map_cons (l := fs), sortByStart_same,
      readLines_append]
    exact ⟨fun h => ⟨fun hn => absurd hn hc, fun _ => h⟩, fun h => h.2 hc⟩

end Blocks

/-! ## When the cues of a file are read -/

/-- The cues of a file are read if and only if they are separate, and they are still read with a
    block between two of them that is no cue if and only if the block is harmless as well. -/
theorem parseSrt_iff (e : LineEnd) (cs : List Entry) (x y : Entry) (es fs : List Entry)
    (m : Malformed) :
    (parseSrt (fileOf e cs) = sortByStart (cs.map (·.cue.cue)) ↔ Separated e cs) ∧
      (parseSrt (fileOf e (x :: es ++ y :: fs)) =
          sortByStart ((x :: es ++ y :: fs).map (·.cue.cue)) ∧
        parseSrt (fileWith e (x :: es) m (y :: fs)) =
          sortByStart ((x :: es ++ y :: fs).map (·.cue.cue)) ↔
        Separated e (x :: es ++ y :: fs) ∧ Harmless m y.cue) := by
  refine ⟨parseSrt_fileOf, ?_⟩
  rw [parseSrt_fileOf]
  refine and_congr_right fun hs => ?_
  rw [← parseSrt_fileOf.2 hs]
  exact parseSrt_fileWith hs (List.cons_ne_nil _ _)

/-! ### Files that are not read -/

def oneLine : SrtCue where
  index := none
  startMs := 1000
  endMs := 2000
  text := [['a']]
  startMs_lt := by decide
  endMs_lt := by decide
  ne_nil := by decide
  isLine := List.forall_mem_singleton.2 (by decide)
  notBlank := List.forall_mem_singleton.2 (by decide)

/-- A cue and a line after it that is blank. -/
def followedBy (l : List Char) (hl : IsLine l) (hb : notBlank l = false) : Entry where
  cue := oneLine
  blanks := [l]
  isLine := List.forall_mem_singleton.2 hl
  blank := List.forall_mem_singleton.2 hb

def followedByEmpty : Entry := followedBy [] (by decide) (by decide)

def followedBySpace : Entry := followedBy [' '] (by decide) (by decide)

/-- A time whose hours are a number, but that has too many microseconds. -/
def farAway : List Char := "999999999999999999:00:00,000 ".toList

def overflowing : List (List Char) := [farAway ++ arrow ++ farAway, ['b']]

theorem timing_overflowing :
    splitOnce arrow (timing overflowing).1 = some (farAway, farAway) ∧
      numbers farAway = some ⟨999999999999999999, 0, 0, 0⟩ := by
  decide

def overflow : Malformed where
  lines := overflowing
  blanks := [[]]
  ne_nil := List.cons_ne_nil _ _
  isLine := List.forall_mem_cons.2 ⟨by decide, List.forall_mem_cons.2
    ⟨by decide, List.forall_mem_singleton.2 (by decide)⟩⟩
  notBlank := List.forall_mem_cons.2 ⟨by decide, List.forall_mem_singleton.2 (by decide)⟩
  blank := List.forall_mem_singleton.2 (by decide)
  malformed := by
    intro a b t u hab ht _ hf
    obtain ⟨rfl, rfl⟩ := Prod.mk.inj (Option.some_inj.1 (timing_overflowing.1.symm.trans hab))
    rw [← Option.some_inj.1 (timing_overflowing.2.symm.trans ht)] at hf
    exact absurd hf.1.2 (by decide)

/-- The other line ends, a blank line that is not empty, and a number that wraps around. -/
theorem not_read :
    parseSrt (fileOf .crlf [followedByEmpty, followedByEmpty]) ≠
        sortByStart [oneLine.cue, oneLine.cue] ∧
      parseSrt (fileOf .lf [followedBySpace, followedByEmpty]) ≠
        sortByStart [oneLine.cue, oneLine.cue] ∧
      parseSrt (fileWith .lf [followedByEmpty] overflow [followedByEmpty]) ≠
        parseSrt (fileOf .lf [followedByEmpty, followedByEmpty]) := by
  refine ⟨fun h => ?_, fun h => ?_, fun h => ?_⟩
  · cases (parseSrt_fileOf.1 h).1.1
  · exact absurd (parseSrt_fileOf.1 h).1.2 (by decide)
  · have hs : Separated .lf ([followedByEmpty] ++ [followedByEmpty]) :=
      ⟨⟨rfl, List.mem_singleton.2 rfl⟩, trivial⟩
    have hh := (parseSrt_fileWith hs (List.cons_ne_nil _ _)).1 h
    have htime := timing_overflowing.2
    exact hh.1 (List.mem_singleton.2 rfl)
      ⟨⟨_, _, _, _, timing_overflowing.1, htime, htime⟩, List.cons_ne_nil _ _⟩

end Wandr.VideoPlayer
