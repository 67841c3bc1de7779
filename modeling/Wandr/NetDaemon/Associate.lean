import Wandr.Lib.CommandLine
import Wandr.Lib.Occurrences
import Wandr.NetDaemon.Control

/-!
# The command line of the association

The daemon runs itself under another user through a shell, with the name and the passphrase of the
network as arguments. They are put between single quotes, and a single quote is put between the end
of one such stretch and the beginning of the next.

* `shellQuote`, `associateLine`: the line;
* `lex_shellQuote`: whatever is quoted stands for itself, to its last character;
* `simpleCommand_associateLine`: the line is the one command, with these arguments.
-/

namespace Wandr.Associate

open CommandLine Text

/-- A text between single quotes. -/
def shellQuote (s : String) : String :=
  let escaped := String.ofList (replace ['\''] "'\\''".toList s.toList)
  "'" ++ escaped ++ "'"

/-- The line that runs the daemon at a path. -/
def associateLine (self : String) (creds : WifiCreds) : String :=
  let ssid := shellQuote creds.ssid
  let psk := shellQuote creds.psk
  s!"{self} --associate {ssid} {psk}"

/-- Where the daemon is: an absolute path of letters, digits, dots, hyphens and underscores. -/
def IsPath (self : String) : Prop := ∃ p, self.toList = '/' :: p ∧ ∀ c ∈ p, isPlain c

variable {s : String} {p cs : List Char} {w : Option (List Piece)}

/-- A quote, character by character. -/
def quoteChar (c : Char) : List Char := if c = '\'' then ['\'', '\\', '\'', '\''] else [c]

theorem toList_shellQuote :
    (shellQuote s).toList = '\'' :: (s.toList.flatMap quoteChar ++ ['\'']) := by
  have hnew : "'\\''".toList = ['\'', '\\', '\'', '\''] := rfl
  have hquote : "'".toList = ['\''] := rfl
  have hreplace :
      replace ['\''] ['\'', '\\', '\'', '\''] s.toList = s.toList.flatMap quoteChar := by
    have hsplit : s.toList.flatMap (fun c => [c]) = s.toList := List.flatMap_singleton' _
    have h : replace ['\''] ['\'', '\\', '\'', '\''] (s.toList.flatMap fun c => [c]) = _ :=
      replace_flatMap (x := '\'') rfl (List.cons_ne_nil _ _) fun c t hc =>
        clear_of_notMem fun hm => hc (List.mem_singleton.1 hm).symm
    rw [hsplit] at h
    exact h
  rw [shellQuote, hnew, hreplace]
  simp only [String.toList_append, String.toList_ofList, hquote]
  rfl

theorem lex_quoteChars {v : List Piece} {q : List Char} :
    lex .single (some v) (q.flatMap quoteChar ++ '\'' :: cs) =
      lex .unquoted (some (v ++ q.map (.char · true))) cs := by
  induction q generalizing v with
  | nil => exact lex_single List.not_mem_nil
  | cons c q ih =>
    rw [List.flatMap_cons, quoteChar]
    by_cases hc : c = '\''
    · -- The stretch ends, the quote is quoted, and the next stretch begins.
      rw [if_pos hc, List.append_assoc]
      refine (lex_single (p := []) List.not_mem_nil).trans ?_
      change lex .unquoted (some (v ++ [])) ('\\' :: '\'' :: '\'' ::
        (q.flatMap quoteChar ++ '\'' :: cs)) = _
      rw [lex_backslash, lex_quote, extend, Option.getD_some, Option.getD_some, ih, hc]
      simp
    · rw [if_neg hc, List.singleton_append, List.cons_append, lex, if_neg hc, extend,
        Option.getD_some, ih, List.append_assoc]
      rfl

/-- Whatever is quoted stands for itself, to its last character. -/
theorem lex_shellQuote : lex .unquoted w ((shellQuote s).toList ++ cs) =
    lex .unquoted (some (w.getD [] ++ s.toList.map (.char · true))) cs := by
  rw [toList_shellQuote, List.cons_append, lex_quote, List.append_assoc]
  exact lex_quoteChars

theorem notMem_shellQuote (h : '\x00' ∉ s.toList) : '\x00' ∉ (shellQuote s).toList := by
  rw [toList_shellQuote]
  intro hm
  rcases List.mem_cons.1 hm with he | hm
  · exact absurd he (by decide)
  rcases List.mem_append.1 hm with hm | hm
  · obtain ⟨c, hc, he⟩ := List.mem_flatMap.1 hm
    unfold quoteChar at he
    split_ifs at he
    · exact absurd he (by decide)
    · exact h (List.mem_singleton.1 he ▸ hc)
  · exact absurd hm (by decide)

theorem toList_associateLine (self : String) (creds : WifiCreds) :
    (associateLine self creds).toList = self.toList ++ ' ' :: ("--associate".toList ++
      ' ' :: ((shellQuote creds.ssid).toList ++ ' ' :: (shellQuote creds.psk).toList)) := by
  have hassociate : " --associate ".toList = ' ' :: ("--associate".toList ++ [' ']) := by
    decide
  have hblank : " ".toList = [' '] := rfl
  simp only [associateLine, String.toList_append, toString, hassociate, hblank]
  simp

/-- A shell finds the one command in the line, and nothing else, with the name and the passphrase
    as they are. -/
theorem simpleCommand_associateLine (self : String) (creds : WifiCreds) (hself : IsPath self)
    (hssid : '\x00' ∉ creds.ssid.toList) (hpsk : '\x00' ∉ creds.psk.toList) :
    simpleCommand (associateLine self creds) =
      some [self, "--associate", creds.ssid, creds.psk] := by
  obtain ⟨p, hp, hplain⟩ := hself
  have hpath : ∀ c ∈ '/' :: p, isPlain c := List.forall_mem_cons.2 ⟨by decide, hplain⟩
  have hflag : ∀ c ∈ "--associate".toList, isPlain c := List.all_eq_true.1 (by decide)
  have hnul : (associateLine self creds).toList.contains '\x00' = false := by
    rw [Bool.eq_false_iff, Ne, List.contains_iff_mem, toList_associateLine, hp]
    simp only [List.mem_append, List.mem_cons, not_or]
    exact ⟨⟨by decide, fun h => absurd (hplain _ h) (by decide)⟩, by decide,
      fun h => absurd (hflag _ h) (by decide), by decide, notMem_shellQuote hssid, by decide,
      notMem_shellQuote hpsk⟩
  have hlex : lex .unquoted none (associateLine self creds).toList =
      some [.word (('/' :: p).map (.char · false)),
        .word ("--associate".toList.map (.char · false)),
        .word (creds.ssid.toList.map (.char · true)),
        .word (creds.psk.toList.map (.char · true))] := by
    have hlast : lex .unquoted none ((shellQuote creds.psk).toList ++ []) =
        lex .unquoted (some (creds.psk.toList.map (.char · true))) [] := lex_shellQuote
    rw [List.append_nil] at hlast
    rw [toList_associateLine, hp, lex_plain hpath (List.cons_ne_nil _ _), lex_blank,
      lex_plain hflag (by decide), lex_blank, lex_shellQuote, lex_blank, hlast]
    rfl
  have hself : argument (.word (('/' :: p).map (.char · false))) = some self :=
    argument_word ((mapM_literal_plain hpath).trans (congrArg some hp.symm))
  rw [simpleCommand, hnul, if_neg Bool.false_ne_true, hlex]
  dsimp only
  rw [if_pos (isCommand_path hplain)]
  simp only [List.mapM_cons, List.mapM_nil, hself, argument_word (mapM_literal_plain hflag),
    argument_word mapM_literal_quoted]
  rfl

/-- Of the network of another party. -/
theorem simpleCommand_hostile :
    simpleCommand (associateLine "/data/local/tmp/wandr-net" ⟨"x'; reboot; '", "$(id)"⟩) =
      some ["/data/local/tmp/wandr-net", "--associate", "x'; reboot; '", "$(id)"] :=
  simpleCommand_associateLine _ _ ⟨"data/local/tmp/wandr-net".toList, by decide,
    List.all_eq_true.1 (by decide)⟩ (by decide) (by decide)

end Wandr.Associate
