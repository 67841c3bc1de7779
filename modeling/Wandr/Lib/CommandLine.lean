import Mathlib.Data.List.Basic

/-!
# Command lines

A shell cuts a command line into words and operators. A word is put together from characters that
stand for themselves, because they are plain or because they are quoted, and from expansions. A line
that is words only, none of which is expanded, matched against file names, or means something to the
grammar, is one command, with the words as its arguments.

* `CommandLine.simpleCommand`: the arguments of a line that is one such command;
* `CommandLine.lex_plain`, `CommandLine.lex_single`: plain characters, and what is between single
  quotes, stand for themselves.
-/

namespace CommandLine

/-- What a word is put together from: a character that stands for itself, quoted or not, or the
    beginning of an expansion. -/
inductive Piece
  | char (c : Char) (quoted : Bool)
  | expansion (c : Char)
  deriving DecidableEq

/-- A token of a line. -/
inductive Token
  | word (w : List Piece)
  | operator (c : Char)
  deriving DecidableEq

/-- What the next character is part of. -/
inductive Mode
  | unquoted
  | single
  | double
  | comment

def isBlank (c : Char) : Bool := [' ', '\t'].contains c

/-- A character that is an operator, or the beginning of one. -/
def isOperator (c : Char) : Bool := ['\n', '&', '|', ';', '<', '>', '(', ')'].contains c

def isExpansion (c : Char) : Bool := ['$', '\x60'].contains c

/-- The word that ends, if there is one. -/
def flush : Option (List Piece) → List Token
  | none => []
  | some w => [.word w]

/-- The word, and a piece more. -/
def extend (w : Option (List Piece)) (p : Piece) : Option (List Piece) := some (w.getD [] ++ [p])

/-- The tokens of a line, in a word or not; a line that ends in a quote has none. Behind the
    beginning of an expansion, the tokens need not be those of a shell. -/
def lex : Mode → Option (List Piece) → List Char → Option (List Token)
  | .unquoted, w, [] => some (flush w)
  | .unquoted, w, ['\\'] => some (flush (extend w (.char '\\' true)))
  | .unquoted, w, '\\' :: d :: cs =>
    if d = '\n' then lex .unquoted w cs else lex .unquoted (extend w (.char d true)) cs
  | .unquoted, w, c :: cs =>
    if isBlank c then (lex .unquoted none cs).map (flush w ++ ·)
    else if isOperator c then (lex .unquoted none cs).map (flush w ++ .operator c :: ·)
    else if c = '#' ∧ w = none then lex .comment none cs
    else if c = '\'' then lex .single (some (w.getD [])) cs
    else if c = '"' then lex .double (some (w.getD [])) cs
    else if isExpansion c then lex .unquoted (extend w (.expansion c)) cs
    else lex .unquoted (extend w (.char c false)) cs
  | .single, _, [] => none
  | .single, w, c :: cs =>
    if c = '\'' then lex .unquoted w cs else lex .single (extend w (.char c true)) cs
  | .double, _, [] => none
  | .double, w, '\\' :: d :: cs =>
    if d = '\n' then lex .double w cs
    else if isExpansion d || d = '"' || d = '\\' then lex .double (extend w (.char d true)) cs
    else lex .double (extend (extend w (.char '\\' true)) (.char d true)) cs
  | .double, w, c :: cs =>
    if c = '"' then lex .unquoted w cs
    else if isExpansion c then lex .double (extend w (.expansion c)) cs
    else lex .double (extend w (.char c true)) cs
  | .comment, _, [] => some []
  | .comment, _, c :: cs =>
    if c = '\n' then (lex .unquoted none cs).map (.operator c :: ·) else lex .comment none cs

/-- A character that is matched against file names, or that stands for something else at the
    beginning of a word or between braces. -/
def isActive (c : Char) : Bool := ['*', '?', '[', '~', '\x7b', '\x7d'].contains c

/-- The character a piece stands for, if it is nothing but this character. -/
def Piece.literal : Piece → Option Char
  | char c quoted => if quoted || !isActive c then some c else none
  | expansion _ => none

/-- The words that begin or go on with something else than a command. -/
def reserved : List String :=
  ["!", "\x7b", "\x7d", "case", "do", "done", "elif", "else", "esac", "fi", "for", "if", "in",
    "then", "until", "while"]

/-- A word that is a command, and no assignment or word of the grammar. -/
def isCommand (w : List Piece) : Bool :=
  !w.contains (.char '=' false) &&
    reserved.all fun r => w != r.toList.map (.char · false)

/-- The argument a word is, its quotes removed. -/
def argument : Token → Option String
  | .word w => (w.mapM Piece.literal).map String.ofList
  | .operator _ => none

/-- The arguments of a line that is one command, and nothing else. A line does not have the
    character that ends it. -/
def simpleCommand (line : String) : Option (List String) :=
  if line.toList.contains '\x00' then none
  else match lex .unquoted none line.toList with
    | some (.word w :: ts) =>
      if isCommand w then (Token.word w :: ts).mapM argument else none
    | _ => none

example : simpleCommand "cp -r 'a  b' \"c;\"\\$ # all" = some ["cp", "-r", "a  b", "c;$"] := by
  decide

example : simpleCommand "cp a; rm b" = none ∧ simpleCommand "echo \"$HOME\"" = none ∧
    simpleCommand "A=1 ls" = none ∧ simpleCommand "ls 'a" = none := by
  decide

variable {c : Char} {p cs : List Char} {w : Option (List Piece)} {v : List Piece}

/-! ## What stands for itself -/

/-- A character of a path that stands for itself wherever it is. -/
def isPlain (c : Char) : Bool := c.isAlphanum || c = '/' || c = '.' || c = '_' || c = '-'

theorem contains_of_isPlain {l : List Char} (hl : l.all (!isPlain ·)) (h : isPlain c) :
    l.contains c = false := by
  rw [Bool.eq_false_iff]
  intro hc
  have hn := List.all_eq_true.1 hl c (List.contains_iff_mem.1 hc)
  rw [h] at hn
  exact Bool.false_ne_true hn

theorem ne_of_isPlain {d : Char} (hd : isPlain d = false) (h : isPlain c) : c ≠ d := by
  rintro rfl
  exact Bool.false_ne_true (hd.symm.trans h)

theorem lex_plain_char (h : isPlain c) :
    lex .unquoted w (c :: cs) = lex .unquoted (extend w (.char c false)) cs := by
  have hbackslash : c ≠ '\\' := ne_of_isPlain (by decide) h
  have hblank : isBlank c = false := contains_of_isPlain (by decide) h
  have hoperator : isOperator c = false := contains_of_isPlain (by decide) h
  have hexpansion : isExpansion c = false := contains_of_isPlain (by decide) h
  have hcomment : ¬ (c = '#' ∧ w = none) := fun hc => ne_of_isPlain (by decide) h hc.1
  rw [lex, hblank, hoperator, hexpansion, if_neg Bool.false_ne_true, if_neg Bool.false_ne_true,
    if_neg hcomment, if_neg (ne_of_isPlain (by decide) h), if_neg (ne_of_isPlain (by decide) h),
    if_neg Bool.false_ne_true]
  · exact fun hc _ => hbackslash hc
  · exact fun d cs' hc _ => hbackslash hc

/-- Plain characters stand for themselves. -/
theorem lex_plain (h : ∀ c ∈ p, isPlain c) (hp : p ≠ []) :
    lex .unquoted w (p ++ cs) =
      lex .unquoted (some (w.getD [] ++ p.map (.char · false))) cs := by
  induction p generalizing w with
  | nil => exact absurd rfl hp
  | cons c p ih =>
    obtain ⟨hc, hp⟩ := List.forall_mem_cons.1 h
    rw [List.cons_append, lex_plain_char hc]
    cases p with
    | nil => rfl
    | cons d p =>
      rw [ih hp (List.cons_ne_nil _ _), extend, Option.getD_some, List.append_assoc]
      rfl

/-- What is between single quotes stands for itself, if no quote is. -/
theorem lex_single (h : '\'' ∉ p) :
    lex .single (some v) (p ++ '\'' :: cs) =
      lex .unquoted (some (v ++ p.map (.char · true))) cs := by
  induction p generalizing v with
  | nil => rw [List.nil_append, lex, if_pos rfl, List.map_nil, List.append_nil]
  | cons c p ih =>
    rw [List.cons_append, lex, if_neg (List.ne_of_not_mem_cons h).symm, extend,
      Option.getD_some, ih (List.not_mem_of_not_mem_cons h), List.append_assoc]
    rfl

/-- A blank behind a word ends it. -/
theorem lex_blank : lex .unquoted (some v) (' ' :: cs) =
    (lex .unquoted none cs).map (Token.word v :: ·) := by
  rw [lex, if_pos (by decide)]
  · rfl
  · exact fun hc => absurd hc (by decide)
  · exact fun d cs' hc => absurd hc (by decide)

/-- A backslash in front of a quote quotes it. -/
theorem lex_backslash : lex .unquoted w ('\\' :: '\'' :: cs) =
    lex .unquoted (extend w (.char '\'' true)) cs := by
  rw [lex, if_neg (by decide)]

/-- A quote begins what is quoted, and a word if there is none. -/
theorem lex_quote : lex .unquoted w ('\'' :: cs) = lex .single (some (w.getD [])) cs := by
  rw [lex, if_neg (by decide), if_neg (by decide), if_neg (by simp), if_pos rfl]
  · exact fun hc => absurd hc (by decide)
  · exact fun d cs' hc => absurd hc (by decide)

/-! ## One command -/

/-- The argument of a word every piece of which stands for itself. -/
theorem argument_word {w : List Piece} {s : String}
    (h : w.mapM Piece.literal = some s.toList) : argument (.word w) = some s := by
  rw [argument, h, Option.map_some, String.ofList_toList]

theorem mapM_literal_quoted : (p.map (Piece.char · true)).mapM Piece.literal = some p := by
  induction p with
  | nil => rfl
  | cons c p ih =>
    rw [List.map_cons, List.mapM_cons, ih]
    rfl

theorem mapM_literal_plain (h : ∀ c ∈ p, isPlain c) :
    (p.map (Piece.char · false)).mapM Piece.literal = some p := by
  induction p with
  | nil => rfl
  | cons c p ih =>
    obtain ⟨hc, hp⟩ := List.forall_mem_cons.1 h
    have hactive : isActive c = false := contains_of_isPlain (by decide) hc
    rw [List.map_cons, List.mapM_cons, ih hp, Piece.literal, hactive]
    rfl

/-- A path is a command. -/
theorem isCommand_path (h : ∀ c ∈ p, isPlain c) :
    isCommand (('/' :: p).map (Piece.char · false)) := by
  rw [isCommand, Bool.and_eq_true]
  constructor
  · rw [Bool.not_eq_true', Bool.eq_false_iff]
    intro hc
    obtain ⟨c, hmem, he⟩ := List.mem_map.1 (List.contains_iff_mem.1 hc)
    obtain rfl : c = '=' := by cases he; rfl
    rcases List.mem_cons.1 hmem with he | hmem
    · exact absurd he (by decide)
    · exact absurd (h _ hmem) (by decide)
  · have hall : ∀ r ∈ reserved, r.toList.head? ≠ some '/' := by decide
    refine List.all_eq_true.2 fun r hr => bne_iff_ne.2 fun he => hall r hr ?_
    have hhead := congrArg List.head? he
    rw [List.head?_map, List.head?_map] at hhead
    cases hr : r.toList.head? with
    | none =>
      rw [hr] at hhead
      cases hhead
    | some c =>
      rw [hr] at hhead
      cases hhead
      rfl

end CommandLine
