import Wandr.Lib.Scan

/-!
# Words of a line

A line put together from words, spaces between them, falls apart into these words
again, as long as no word is empty and none contains whitespace.

* `Text.splitWhitespace_word` and `Text.splitWhitespace_cons` take a line apart;
* `Text.splitWhitespace_trim`: trimming a line first changes nothing;
* `Text.isWhitespace_of_mem_splitWhitespace`: what falls apart is words.
-/

namespace Text

/-- A word: a non-empty text without whitespace. -/
def IsWord (cs : List Char) : Prop := cs ≠ [] ∧ ∀ c ∈ cs, isWhitespace c = false

instance {cs : List Char} : Decidable (IsWord cs) :=
  decidable_of_iff ((!cs.isEmpty && cs.all fun c => !isWhitespace c) = true) (by simp [IsWord])

variable {c : Char} {cs t w : List Char}

theorem IsWord.append (h : IsWord t) (h' : IsWord w) : IsWord (t ++ w) :=
  ⟨List.append_ne_nil_of_left_ne_nil h.1 _, List.forall_mem_append.mpr ⟨h.2, h'.2⟩⟩

theorem isWhitespace_of_isDigit (h : c.isDigit = true) : isWhitespace c = false := by
  simp only [Char.isDigit, Bool.and_eq_true, decide_eq_true_eq, UInt32.le_iff_toNat_le] at h
  have hn : c.toNat = c.val.toNat := rfl
  have h₀ : '0'.val.toNat = 48 := rfl
  have h₉ : '9'.val.toNat = 57 := rfl
  simp only [isWhitespace, Bool.or_eq_false_iff, Bool.and_eq_false_iff, decide_eq_false_iff_not,
    beq_eq_false_iff_ne]
  omega

/-- A number is a word. -/
theorem isWord_toString {n : Nat} : IsWord (toString n).toList := by
  rw [toList_toString_nat]
  exact ⟨Nat.toDigits_ne_nil, fun _ hc => isWhitespace_of_isDigit (isDigit_of_mem_toDigits hc)⟩

theorem words_append (h : ∀ c ∈ t, isWhitespace c = false) :
    words w (t ++ cs) = words (t.reverse ++ w) cs := by
  induction t generalizing w with
  | nil => rfl
  | cons d t ih =>
    obtain ⟨hd, ht⟩ := List.forall_mem_cons.mp h
    have hn : ¬ isWhitespace d := by simp [hd]
    rw [List.cons_append, words, if_neg hn, ih ht, List.reverse_cons, List.append_assoc,
      List.singleton_append]

/-- A word at the end. -/
theorem words_word (h : IsWord t) : words [] t = [t] := by
  obtain ⟨hne, ht⟩ := h
  have hw : words [] (t ++ []) = words (t.reverse ++ []) [] := words_append ht
  rw [List.append_nil, List.append_nil] at hw
  have hr : ¬ t.reverse.isEmpty := by simpa using hne
  rw [hw, words, if_neg hr, List.reverse_reverse]

/-- A word before whitespace. -/
theorem words_cons (h : IsWord t) (hc : isWhitespace c) :
    words [] (t ++ c :: cs) = t :: words [] cs := by
  obtain ⟨hne, ht⟩ := h
  have hr : ¬ (t.reverse ++ []).isEmpty := by simpa using hne
  rw [words_append ht, words, if_pos hc, if_neg hr, List.append_nil, List.reverse_reverse]

/-- Whitespace in between. -/
theorem words_append_cons (hc : isWhitespace c) :
    words w (t ++ c :: cs) = words w t ++ words [] cs := by
  induction t generalizing w with
  | nil =>
    rw [List.nil_append, words, words, if_pos hc]
    split
    · rfl
    · rfl
  | cons d t ih =>
    rw [List.cons_append, words, words]
    split
    · split
      · exact ih
      · rw [ih, List.cons_append]
    · exact ih

/-- Whitespace in front. -/
theorem words_whitespace (hc : isWhitespace c) : words [] (c :: cs) = words [] cs := by
  rw [words, if_pos hc]
  rfl

theorem words_dropWhile : words [] (cs.dropWhile isWhitespace) = words [] cs := by
  induction cs with
  | nil => rfl
  | cons c cs ih =>
    by_cases hc : isWhitespace c
    · rw [List.dropWhile_cons_of_pos hc, ih, words_whitespace hc]
    · rw [List.dropWhile_cons_of_neg hc]

/-- Whitespace at the end. -/
theorem words_append_whitespace (h : ∀ c ∈ t, isWhitespace c) : words w (cs ++ t) = words w cs := by
  induction cs generalizing w with
  | nil =>
    induction t generalizing w with
    | nil => rfl
    | cons d t ih =>
      obtain ⟨hd, ht⟩ := List.forall_mem_cons.mp h
      have ih' := ih (w := []) ht
      rw [List.nil_append] at ih' ⊢
      cases w with
      | nil => rw [words_whitespace hd, ih']
      | cons d w =>
        rw [words.eq_2, if_pos hd, ih']
        rfl
  | cons c cs ih =>
    rw [List.cons_append, words.eq_2, words.eq_2]
    simp only [ih]

/-- Whitespace dropped at the end. -/
theorem words_dropWhile_reverse {f : Char → Bool} (hf : ∀ c, f c → isWhitespace c) :
    words [] (cs.reverse.dropWhile f).reverse = words [] cs := by
  have hsplit : (cs.reverse.dropWhile f).reverse ++ (cs.reverse.takeWhile f).reverse = cs := by
    rw [← List.reverse_append, List.takeWhile_append_dropWhile, List.reverse_reverse]
  have htail : ∀ c ∈ (cs.reverse.takeWhile f).reverse, isWhitespace c := by
    intro c hc
    exact hf c (List.all_eq_true.mp List.all_takeWhile c (List.mem_reverse.mp hc))
  have hw : words [] ((cs.reverse.dropWhile f).reverse ++ (cs.reverse.takeWhile f).reverse) =
      words [] (cs.reverse.dropWhile f).reverse := words_append_whitespace htail
  rwa [hsplit, eq_comm] at hw

theorem splitWhitespace_trim {s : String} : splitWhitespace (trim s) = splitWhitespace s := by
  rw [splitWhitespace, splitWhitespace, trim, String.toList_ofList,
    words_dropWhile_reverse fun _ h => h, words_dropWhile]

/-- Whitespace around a text. -/
theorem trim_append {a b : List Char} (ha : ∀ c ∈ a, isWhitespace c)
    (hb : ∀ c ∈ b, isWhitespace c) :
    trim (String.ofList (a ++ (cs ++ b))) = trim (String.ofList cs) := by
  have hbr : ∀ c ∈ b.reverse, isWhitespace c := fun c hc => hb c (List.mem_reverse.mp hc)
  rw [trim, trim, String.toList_ofList, String.toList_ofList, List.dropWhile_append_of_pos ha,
    List.dropWhile_append]
  split
  · next he =>
    rw [List.isEmpty_iff.mp he]
    have hd : (b ++ []).dropWhile isWhitespace = [] := List.dropWhile_append_of_pos hb
    rw [List.append_nil] at hd
    rw [hd]
  · rw [List.reverse_append, List.dropWhile_append_of_pos hbr]

theorem trim_append_right {b : List Char} (hb : ∀ c ∈ b, isWhitespace c) :
    trim (String.ofList (cs ++ b)) = trim (String.ofList cs) :=
  trim_append (a := []) (fun _ hc => absurd hc List.not_mem_nil) hb

/-- A text that begins and ends with something else. -/
theorem trim_append_cons {a b : List Char} (ha : ∀ d ∈ a.head?, isWhitespace d = false)
    (hc : isWhitespace c = false) :
    ∃ r, trim (String.ofList (a ++ c :: b)) = String.ofList (a ++ c :: r) := by
  have hfront : (a ++ c :: b).dropWhile isWhitespace = a ++ c :: b := by
    cases a with
    | nil => exact List.dropWhile_cons_of_neg (by simp [hc])
    | cons d a => exact List.dropWhile_cons_of_neg (by simp [ha d rfl])
  have hm : (c :: a.reverse).dropWhile isWhitespace = c :: a.reverse :=
    List.dropWhile_cons_of_neg (by simp [hc])
  have hrev : (a ++ c :: b).reverse = b.reverse ++ (c :: a.reverse) := by simp
  rw [trim, String.toList_ofList, hfront, hrev, List.dropWhile_append, hm]
  split
  · exact ⟨[], by simp⟩
  · exact ⟨(b.reverse.dropWhile isWhitespace).reverse, by simp⟩

theorem trim_of_forall (h : ∀ c ∈ cs, isWhitespace c = false) :
    trim (String.ofList cs) = String.ofList cs := by
  have hdrop {u : List Char} (hu : ∀ c ∈ u, isWhitespace c = false) :
      u.dropWhile isWhitespace = u := by
    cases u with
    | nil => rfl
    | cons c u => exact List.dropWhile_cons_of_neg (by simp [hu c List.mem_cons_self])
  rw [trim, String.toList_ofList, hdrop h, hdrop, List.reverse_reverse]
  exact fun c hc => h c (List.mem_reverse.mp hc)

/-- A text with words is not whitespace alone. -/
theorem exists_of_words_ne_nil (h : words [] cs ≠ []) : ∃ c ∈ cs, isWhitespace c = false := by
  by_contra hall
  have hws : ∀ c ∈ cs, isWhitespace c := by simpa using hall
  have hw : words [] ([] ++ cs) = words [] [] := words_append_whitespace hws
  exact h hw

theorem words_ne_nil (h : w ≠ []) : words w cs ≠ [] := by
  induction cs generalizing w with
  | nil =>
    rw [words, if_neg (mt List.isEmpty_iff.mp h)]
    exact List.cons_ne_nil _ _
  | cons c cs ih =>
    rw [words]
    split
    · rw [if_neg (mt List.isEmpty_iff.mp h)]
      exact List.cons_ne_nil _ _
    · exact ih (List.cons_ne_nil _ _)

/-- A text without words is whitespace. -/
theorem words_eq_nil (h : words [] cs = []) : ∀ c ∈ cs, isWhitespace c := by
  induction cs with
  | nil => exact fun _ hc => absurd hc List.not_mem_nil
  | cons d cs ih =>
    rw [words] at h
    split at h
    · next hd => exact List.forall_mem_cons.mpr ⟨hd, ih h⟩
    · exact absurd h (words_ne_nil (List.cons_ne_nil _ _))

theorem splitWhitespace_word {s : String} (h : IsWord s.toList) : splitWhitespace s = [s] := by
  rw [splitWhitespace, words_word h, List.map_singleton, String.ofList_toList]

/-- A word, a space and more. -/
theorem splitWhitespace_cons {s r : String} (h : IsWord s.toList) :
    splitWhitespace (s ++ " " ++ r) = s :: splitWhitespace r := by
  have hl : (s ++ " " ++ r).toList = s.toList ++ ' ' :: r.toList := by simp
  rw [splitWhitespace, hl, words_cons h rfl, List.map_cons, String.ofList_toList]
  rfl

/-- A text, a space and a word. -/
theorem splitWhitespace_append {s r : String} (h : IsWord r.toList) :
    splitWhitespace (s ++ " " ++ r) = splitWhitespace s ++ [r] := by
  have hl : (s ++ " " ++ r).toList = s.toList ++ ' ' :: r.toList := by simp
  have hs : isWhitespace ' ' := by decide
  rw [splitWhitespace, hl, words_append_cons hs, words_word h, List.map_append, List.map_singleton,
    String.ofList_toList]
  rfl

theorem isWord_of_mem_words (hw : ∀ c ∈ w, isWhitespace c = false) (h : t ∈ words w cs) :
    IsWord t := by
  induction cs generalizing w with
  | nil =>
    rw [words] at h
    split at h
    · exact absurd h List.not_mem_nil
    · next hne =>
      rw [List.mem_singleton.mp h]
      exact ⟨by simpa using hne, fun c hc => hw c (List.mem_reverse.mp hc)⟩
  | cons c cs ih =>
    have hnil : ∀ c ∈ ([] : List Char), isWhitespace c = false := by simp
    rw [words] at h
    split at h
    · split at h
      · exact ih hnil h
      · next hne =>
        rcases List.mem_cons.mp h with rfl | h
        · exact ⟨by simpa using hne, fun c hc => hw c (List.mem_reverse.mp hc)⟩
        · exact ih hnil h
    · next hc =>
      refine ih (List.forall_mem_cons.mpr ⟨by simpa using hc, hw⟩) h

theorem isWord_of_mem_splitWhitespace {s t : String} (h : t ∈ splitWhitespace s) :
    IsWord t.toList := by
  obtain ⟨cs, hcs, rfl⟩ := List.mem_map.mp h
  rw [String.toList_ofList]
  exact isWord_of_mem_words (by simp) hcs

end Text
