import Wandr.Lib.Scan
import Wandr.Lib.Words

/-!
# Commands on the wire

A client sends one line: a verb, a space and the arguments, of which the whitespace at
the two ends does not count.

* `parseCommand_line`: what a line of a verb and its arguments is taken for.
-/

namespace Wandr

open Text

/-- What is read of a text: its first line, without the characters that end it. -/
def readLine (text : List Char) : List Char :=
  ((text.takeWhile (· ≠ '\n')).reverse.dropWhile (· = '\r')).reverse

/-- A line cut at its first space. -/
def splitOnce (line : List Char) : List Char × Option (List Char) :=
  (line.takeWhile (· ≠ ' '), afterFirst [' '] line)

/-- The verb and the arguments of a command. -/
def parseCommand (text : List Char) : String × String :=
  let (verb, rest) := splitOnce (readLine text)
  (String.ofList verb, match rest with
    | some rest => trim (String.ofList rest)
    | none => "")

/-- The line of a verb and its arguments. -/
def commandLine (verb rest : String) : List Char :=
  verb.toList ++ ' ' :: (rest.toList ++ ['\n'])

variable {verb rest : String}

theorem takeWhile_commandLine (hv : '\n' ∉ verb.toList) (hr : '\n' ∉ rest.toList) :
    (commandLine verb rest).takeWhile (· ≠ '\n') = verb.toList ++ ' ' :: rest.toList := by
  have hl : commandLine verb rest = (verb.toList ++ ' ' :: rest.toList) ++ '\n' :: [] := by
    simp [commandLine]
  rw [hl]
  refine takeWhile_append (fun c hc => ?_) (by simp)
  have hne : c ≠ '\n' := by
    rintro rfl
    rcases List.mem_append.mp hc with hc | hc
    · exact hv hc
    · exact hr ((List.mem_cons.mp hc).resolve_left (by simp))
  simpa using hne

theorem splitOnce_append {cs : List Char} (hs : ' ' ∉ verb.toList) :
    splitOnce (verb.toList ++ ' ' :: cs) = (verb.toList, some cs) := by
  have hverb : (verb.toList ++ ' ' :: cs).takeWhile (· ≠ ' ') = verb.toList := by
    refine takeWhile_append (fun c hc => ?_) (by simp)
    have hne : c ≠ ' ' := fun h => hs (h ▸ hc)
    simpa using hne
  rw [splitOnce, hverb, afterFirst_singleton hs]

/-- A line of a verb and its arguments is taken for that verb, with arguments of the same
    words. -/
theorem parseCommand_line (hs : ' ' ∉ verb.toList) (hv : '\n' ∉ verb.toList)
    (hr : '\n' ∉ rest.toList) :
    (parseCommand (commandLine verb rest)).1 = verb ∧
      splitWhitespace (parseCommand (commandLine verb rest)).2 = splitWhitespace rest := by
  have hread : readLine (commandLine verb rest) =
      verb.toList ++ ' ' :: (rest.toList.reverse.dropWhile (· = '\r')).reverse := by
    rw [readLine, takeWhile_commandLine hv hr]
    exact dropWhile_reverse_append (by decide)
  rw [parseCommand, hread, splitOnce_append hs]
  refine ⟨String.ofList_toList, ?_⟩
  dsimp only
  rw [splitWhitespace_trim, splitWhitespace, splitWhitespace, String.toList_ofList,
    words_dropWhile_reverse]
  intro c hc
  rw [of_decide_eq_true hc]
  rfl

/-- The arguments of a command are of one line. -/
theorem notMem_parseCommand {text : List Char} : '\n' ∉ (parseCommand text).2.toList := by
  have hread : '\n' ∉ readLine text := by
    intro h
    have hmem := (List.dropWhile_sublist _).subset (List.mem_reverse.mp h)
    exact absurd (List.all_eq_true.mp List.all_takeWhile _ (List.mem_reverse.mp hmem)) (by decide)
  rw [parseCommand, splitOnce]
  dsimp only
  split
  · next rest hrest =>
    intro h
    rw [trim, String.toList_ofList, String.toList_ofList] at h
    have hmem := (List.dropWhile_sublist _).subset (List.mem_reverse.mp h)
    have hmem' := (List.dropWhile_sublist _).subset (List.mem_reverse.mp hmem)
    exact hread (subset_of_afterFirst hrest hmem')
  · decide

end Wandr
