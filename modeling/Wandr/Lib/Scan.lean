import Mathlib.Algebra.Group.Int.Defs
import Wandr.Lib.Text

/-!
# Texts read by scanning

A reader that knows no grammar finds its way by the first occurrence of a character
or of a key between quotes. Such a reader goes right where the pieces of the text
between those characters are free of them.

* `Text.joinChar` puts pieces together with a separator between them;
* `Text.afterFirst_key`: the first occurrence of a key between quotes is the first piece,
  between two quotes, that is the key, and what is read for it follows the next colon;
* `Text.parseSigned_toString`: a number is read back from its decimal digits.
-/

namespace Text

variable {c sep : Char} {pat p q cs : List Char} {ps : List (List Char)}

/-! ## The first occurrence of a character -/

/-- What precedes the first occurrence of a character. -/
def beforeFirst (c : Char) (cs : List Char) : Option (List Char) :=
  if c ∈ cs then some (cs.takeWhile (· ≠ c)) else none

/-- The text from the first occurrence of a pattern on. -/
def fromFirst (pat cs : List Char) : Option (List Char) := (afterFirst pat cs).map (pat ++ ·)

-- The equations, ahead of the proofs.
section
attribute [local simp] afterFirst splitChar
end

/-- A stretch without the first character of a pattern is passed over. -/
theorem afterFirst_append (h : c ∉ p) :
    afterFirst (c :: pat) (p ++ cs) = afterFirst (c :: pat) cs := by
  induction p with
  | nil => rfl
  | cons d p ih =>
    obtain ⟨hd, hp⟩ : c ≠ d ∧ c ∉ p := by simpa using h
    rw [List.cons_append, afterFirst, ih hp, if_neg]
    simp [hd]

theorem afterFirst_singleton (h : c ∉ p) : afterFirst [c] (p ++ c :: cs) = some cs := by
  rw [afterFirst_append h, afterFirst]
  simp

theorem subset_of_afterFirst {rest : List Char} (h : afterFirst pat cs = some rest) :
    rest ⊆ cs := by
  induction cs with
  | nil =>
    rw [afterFirst] at h
    split at h
    · exact (Option.some.inj h) ▸ List.Subset.refl _
    · cases h
  | cons d cs ih =>
    rw [afterFirst] at h
    split at h
    · exact (Option.some.inj h) ▸ List.drop_subset _ _
    · exact List.Subset.trans (ih h) (List.subset_cons_self _ _)

theorem beforeFirst_append (h : c ∉ p) : beforeFirst c (p ++ c :: cs) = some p := by
  rw [beforeFirst, if_pos (by simp), List.takeWhile_append_of_pos]
  · simp
  · intro d hd
    simpa using fun hdc : d = c => h (hdc ▸ hd)

/-! ## Pieces -/

/-- Pieces put together, a separator between them. -/
def joinChar (sep : Char) : List (List Char) → List Char
  | [] => []
  | [p] => p
  | p :: q :: ps => p ++ sep :: joinChar sep (q :: ps)

theorem splitChar_of_notMem (h : sep ∉ p) : splitChar sep p = [p] := by
  induction p with
  | nil => rfl
  | cons d p ih =>
    obtain ⟨hd, hp⟩ : sep ≠ d ∧ sep ∉ p := by simpa using h
    rw [splitChar, if_neg (Ne.symm hd), ih hp]

theorem splitChar_append (h : sep ∉ p) :
    splitChar sep (p ++ sep :: cs) = p :: splitChar sep cs := by
  induction p with
  | nil => simp [splitChar]
  | cons d p ih =>
    obtain ⟨hd, hp⟩ : sep ≠ d ∧ sep ∉ p := by simpa using h
    rw [List.cons_append, splitChar, if_neg (Ne.symm hd), ih hp]

theorem splitChar_ne_nil : splitChar sep cs ≠ [] := by
  cases cs with
  | nil => exact List.cons_ne_nil _ _
  | cons c cs =>
    rw [splitChar]
    split
    · exact List.cons_ne_nil _ _
    · split
      · exact List.cons_ne_nil _ _
      · exact List.cons_ne_nil _ _

theorem notMem_of_mem_splitChar (h : p ∈ splitChar sep cs) : sep ∉ p := by
  induction cs generalizing p with
  | nil =>
    rw [List.mem_singleton.mp h]
    exact List.not_mem_nil
  | cons c cs ih =>
    rw [splitChar] at h
    split at h
    · rcases List.mem_cons.mp h with rfl | h
      · exact List.not_mem_nil
      · exact ih h
    · next hc =>
      split at h
      · rw [List.mem_singleton.mp h, List.mem_singleton]
        exact Ne.symm hc
      · next piece rest hs =>
        rw [hs] at ih
        rcases List.mem_cons.mp h with rfl | h
        · rw [List.mem_cons, not_or]
          exact ⟨Ne.symm hc, ih List.mem_cons_self⟩
        · exact ih (List.mem_cons_of_mem _ h)

theorem joinChar_cons (h : ps ≠ []) : joinChar sep (p :: ps) = p ++ sep :: joinChar sep ps := by
  cases ps with
  | nil => exact absurd rfl h
  | cons => rfl

theorem joinChar_append_cons : joinChar sep ((p ++ q) :: ps) = p ++ joinChar sep (q :: ps) := by
  cases ps with
  | nil => rfl
  | cons => exact List.append_assoc ..

theorem joinChar_append {qs : List (List Char)} (hp : ps ≠ []) (hq : qs ≠ []) :
    joinChar sep (ps ++ qs) = joinChar sep ps ++ sep :: joinChar sep qs := by
  induction ps with
  | nil => exact absurd rfl hp
  | cons p ps ih =>
    cases ps with
    | nil => exact joinChar_cons hq
    | cons q ps =>
      have h := ih (List.cons_ne_nil q ps)
      rw [List.cons_append, joinChar_cons (by simp), h, joinChar_cons (List.cons_ne_nil q ps),
        List.append_assoc, List.cons_append]

/-- Pieces put together twice. -/
theorem joinChar_append_join {qs : List (List Char)} (hq : qs ≠ []) :
    joinChar sep (ps ++ [joinChar sep qs]) = joinChar sep (ps ++ qs) := by
  by_cases hp : ps = []
  · subst hp
    rfl
  · rw [joinChar_append hp (List.cons_ne_nil _ _), joinChar_append hp hq]
    rfl

theorem notMem_joinChar (hc : c ≠ sep) (h : ∀ p ∈ ps, c ∉ p) : c ∉ joinChar sep ps := by
  induction ps with
  | nil => exact List.not_mem_nil
  | cons p ps ih =>
    obtain ⟨hp, hps⟩ := List.forall_mem_cons.mp h
    cases ps with
    | nil => exact hp
    | cons q ps =>
      rw [joinChar, List.mem_append, List.mem_cons]
      rintro (h | h | h)
      · exact hp h
      · exact hc h
      · exact ih hps h

/-! ## Keys between separators -/

/-- A piece that ends at a separator is known by what it starts with. -/
theorem isPrefixOf_sep (hp : sep ∉ p) (hq : sep ∉ q) :
    (p ++ [sep]).isPrefixOf (q ++ sep :: cs) ↔ q = p := by
  induction p generalizing q with
  | nil =>
    cases q with
    | nil => simp
    | cons d q =>
      obtain ⟨hd, -⟩ : sep ≠ d ∧ sep ∉ q := by simpa using hq
      simp [hd]
  | cons b p ih =>
    obtain ⟨hb, hp⟩ : sep ≠ b ∧ sep ∉ p := by simpa using hp
    cases q with
    | nil => simp [Ne.symm hb]
    | cons d q =>
      obtain ⟨-, hq⟩ : sep ≠ d ∧ sep ∉ q := by simpa using hq
      have h := ih hp hq
      simp only [List.cons_append, List.isPrefixOf_cons_cons, Bool.and_eq_true, beq_iff_eq, h,
        List.cons.injEq]
      exact and_congr_left fun _ => eq_comm

/-- The first occurrence of a key between separators is the first piece, of those
    between two separators, that is the key. -/
theorem afterFirst_quoted {key : List Char} {pre : List (List Char)} (hk : sep ∉ key)
    (h : ∀ r ∈ p :: pre, sep ∉ r) (hn : key ∉ pre) (hps : ps ≠ []) :
    afterFirst (sep :: (key ++ [sep])) (joinChar sep (p :: (pre ++ key :: ps))) =
      some (joinChar sep ps) := by
  induction pre generalizing p with
  | nil =>
    have hpre : (sep :: (key ++ [sep])).isPrefixOf (sep :: joinChar sep (key :: ps)) := by
      rw [joinChar_cons hps, List.isPrefixOf_cons_cons, beq_self_eq_true, Bool.true_and]
      exact (isPrefixOf_sep hk hk).mpr rfl
    rw [List.nil_append, joinChar_cons (by simp), afterFirst_append (h p List.mem_cons_self),
      afterFirst, if_pos hpre, joinChar_cons hps]
    simp
  | cons r pre ih =>
    obtain ⟨hrk, hn⟩ : key ≠ r ∧ key ∉ pre := by simpa using hn
    have hpre' : ∀ r' ∈ r :: pre, sep ∉ r' := fun r' hr => h r' (List.mem_cons_of_mem _ hr)
    have hpre : ¬ (sep :: (key ++ [sep])).isPrefixOf
        (sep :: joinChar sep (r :: (pre ++ key :: ps))) := by
      rw [joinChar_cons (by simp), List.isPrefixOf_cons_cons, beq_self_eq_true, Bool.true_and]
      exact (isPrefixOf_sep hk (hpre' r List.mem_cons_self)).not.mpr (Ne.symm hrk)
    rw [List.cons_append, joinChar_cons (by simp), afterFirst_append (h p List.mem_cons_self),
      afterFirst, if_neg hpre]
    exact ih hpre' hn

/-- Pieces without a character are passed over. -/
theorem afterFirst_joinChar {x v : List Char} {post : List (List Char)} (hc : c ≠ sep)
    (hpost : ∀ r ∈ post, c ∉ r) (hx : c ∉ x) :
    afterFirst [c] (joinChar sep (post ++ (x ++ c :: v) :: ps)) =
      some (joinChar sep (v :: ps)) := by
  induction post with
  | nil =>
    have hv : c :: joinChar sep (v :: ps) = joinChar sep ((c :: v) :: ps) :=
      (joinChar_append_cons (p := [c])).symm
    rw [List.nil_append, joinChar_append_cons, ← hv]
    exact afterFirst_singleton hx
  | cons r post ih =>
    have hsep : c ∉ [sep] := by simpa using hc
    rw [List.cons_append, joinChar_cons (by simp), afterFirst_append (hpost r List.mem_cons_self)]
    exact (afterFirst_append hsep).trans (ih fun r' hr => hpost r' (List.mem_cons_of_mem _ hr))

/-- What follows a character after the first occurrence of a key. -/
theorem afterFirst_key {key x v : List Char} {pre post : List (List Char)} (hk : sep ∉ key)
    (h : ∀ r ∈ p :: pre, sep ∉ r) (hn : key ∉ pre) (hc : c ≠ sep) (hpost : ∀ r ∈ post, c ∉ r)
    (hx : c ∉ x) :
    (afterFirst (sep :: (key ++ [sep]))
      (joinChar sep (p :: (pre ++ key :: (post ++ (x ++ c :: v) :: ps))))).bind (afterFirst [c]) =
      some (joinChar sep (v :: ps)) := by
  rw [afterFirst_quoted hk h hn (by simp), Option.bind_some]
  exact afterFirst_joinChar hc hpost hx

/-- It does not matter whether the search goes on from the key or from after it. -/
theorem fromFirst_bind (h : c ∉ pat) :
    (fromFirst pat cs).bind (afterFirst [c]) = (afterFirst pat cs).bind (afterFirst [c]) := by
  rw [fromFirst]
  cases afterFirst pat cs with
  | none => rfl
  | some r => exact afterFirst_append h

/-! ## Numbers -/

theorem digits_append {n : Nat} {a b : List Char} :
    digits n (a ++ b) = (digits n a).bind fun k => digits k b := by
  induction a generalizing n with
  | nil => rfl
  | cons d a ih =>
    rw [List.cons_append, digits, digits]
    split
    · exact ih
    · rfl

theorem digits_digitChar {k n : Nat} (h : n < 10) : digits k [n.digitChar] = some (10 * k + n) := by
  have hd : n.digitChar.isDigit = true ∧ n.digitChar.toNat - 48 = n := by
    revert n
    decide
  simp [digits, hd]

/-- The decimal digits of a number stand for it. -/
theorem digits_toDigits (n : Nat) : digits 0 (Nat.toDigits 10 n) = some n := by
  induction n using Nat.strongRecOn with
  | ind n ih =>
    rw [Nat.toDigits_eq_if (by decide)]
    split
    · next h =>
      rw [digits_digitChar h, Nat.mul_zero, Nat.zero_add]
    · next h =>
      have hlt : n / 10 < n := by omega
      rw [digits_append, ih _ hlt, Option.bind_some, digits_digitChar (by omega)]
      congr 1
      omega

theorem magnitude_toDigits (n : Nat) : magnitude (Nat.toDigits 10 n) = some n := by
  rw [magnitude, if_neg (by simp [Nat.toDigits_ne_nil]), digits_toDigits]

theorem isDigit_of_mem_toDigits {n : Nat} {d : Char} (h : d ∈ Nat.toDigits 10 n) :
    d.isDigit = true :=
  Nat.isDigit_of_mem_toDigits (by decide) (by decide) h

/-- The characters of the decimal numbers. -/
def isNumeric (c : Char) : Bool := c.isDigit || c = '-'

theorem takeWhile_append {f : Char → Bool} (h : ∀ d ∈ p, f d) (hc : f c = false) :
    (p ++ c :: cs).takeWhile f = p := by
  rw [List.takeWhile_append_of_pos h, List.takeWhile_cons_of_neg (by simp [hc]), List.append_nil]

theorem toList_toString_nat {n : Nat} : (toString n).toList = Nat.toDigits 10 n := by
  rw [Nat.toString_eq_repr, Nat.toList_repr]

/-- What is dropped at the end of a text is dropped after a character that stays. -/
theorem dropWhile_reverse_append {f : Char → Bool} (hc : f c = false) :
    ((p ++ c :: cs).reverse.dropWhile f).reverse = p ++ c :: (cs.reverse.dropWhile f).reverse := by
  rw [List.reverse_append, List.reverse_cons, List.append_assoc, List.dropWhile_append]
  split
  · next hempty =>
    have hcs : (cs.reverse.dropWhile f).reverse = [] := by
      rw [List.reverse_eq_nil_iff]
      exact List.isEmpty_iff.mp hempty
    rw [List.singleton_append, List.dropWhile_cons_of_neg (by simp [hc]), hcs, List.reverse_cons,
      List.reverse_reverse]
  · rw [List.reverse_append, List.singleton_append, List.reverse_cons, List.reverse_reverse,
      List.append_assoc, List.singleton_append]

/-- A number is read back from its decimal digits. -/
theorem parseUnsigned_toString {w n : Nat} (h : n < 2 ^ w) :
    parseUnsigned w (toString n) = some n := by
  have hd {d : Char} {ds : List Char} (hds : Nat.toDigits 10 n = d :: ds) : d.isDigit = true :=
    isDigit_of_mem_toDigits (hds ▸ List.mem_cons_self)
  unfold parseUnsigned
  rw [toList_toString_nat]
  dsimp only
  split
  · next hds => exact absurd (hd hds) (by decide)
  · rw [magnitude_toDigits]
    simp [Option.filter, h]

/-- A number is read back from its decimal digits. -/
theorem parseSigned_toDigits {w n : Nat} (h : n < 2 ^ (w - 1)) :
    parseSigned w (String.ofList (Nat.toDigits 10 n)) = some (n : Int) := by
  have hd {d : Char} {ds : List Char} (hds : Nat.toDigits 10 n = d :: ds) : d.isDigit = true :=
    isDigit_of_mem_toDigits (hds ▸ List.mem_cons_self)
  unfold parseSigned
  rw [String.toList_ofList]
  split
  · next hds => exact absurd (hd hds) (by decide)
  · next hds => exact absurd (hd hds) (by decide)
  · rw [magnitude_toDigits]
    simp [Option.filter, h]

/-- A negative number, too. -/
theorem parseSigned_neg_toDigits {w n : Nat} (h : n ≤ 2 ^ (w - 1)) :
    parseSigned w (String.ofList ('-' :: Nat.toDigits 10 n)) = some (-(n : Int)) := by
  unfold parseSigned
  rw [String.toList_ofList]
  simp [magnitude_toDigits, Option.filter, h]

theorem toList_toString_int {i : Int} : (toString i).toList =
    if i < 0 then '-' :: Nat.toDigits 10 i.natAbs else Nat.toDigits 10 i.natAbs := by
  rw [Int.toString_eq_repr, Int.repr_eq_if]
  by_cases h : i < 0
  · have hn : (-i).toNat = i.natAbs := by omega
    rw [if_neg (by omega), if_pos h, String.toList_append, Nat.toList_repr, hn]
    rfl
  · have hn : i.toNat = i.natAbs := by omega
    rw [if_pos (by omega), if_neg h, Nat.toList_repr, hn]

theorem toList_toString_ne_nil {i : Int} : (toString i).toList ≠ [] := by
  rw [toList_toString_int]
  split
  · exact List.cons_ne_nil _ _
  · exact Nat.toDigits_ne_nil

theorem isNumeric_of_mem_toString {i : Int} {d : Char} (h : d ∈ (toString i).toList) :
    isNumeric d := by
  have hd {n : Nat} (h : d ∈ Nat.toDigits 10 n) : isNumeric d := by
    simp [isNumeric, isDigit_of_mem_toDigits h]
  rw [toList_toString_int] at h
  split at h
  · rcases List.mem_cons.mp h with rfl | h
    · rfl
    · exact hd h
  · exact hd h

theorem parseSigned_toString {w : Nat} {i : Int} (hl : -2 ^ (w - 1) ≤ i) (hu : i < 2 ^ (w - 1)) :
    parseSigned w (String.ofList (toString i).toList) = some i := by
  have hp : ((2 ^ (w - 1) : Nat) : Int) = 2 ^ (w - 1) := Int.natCast_pow 2 (w - 1)
  rw [← hp] at hl hu
  rw [toList_toString_int]
  split
  · rw [parseSigned_neg_toDigits (by omega)]
    congr 1
    omega
  · rw [parseSigned_toDigits (by omega)]
    congr 1
    omega

end Text
