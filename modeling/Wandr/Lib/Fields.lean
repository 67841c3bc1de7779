import Wandr.Lib.Scan

/-!
# Fields found by their keys

Fields are written one after the other, each as a key between quotes, a colon and a value, with a
comma between two of them. A reader that looks for the first occurrence of a key with its quotes
and its colon finds the field, although a value may read like a key: behind a value comes no colon.

* `Text.afterFirst_mem`: what is found behind a key is its value.
-/

namespace Text

/-- A value, between quotes or not. -/
inductive Written
  | raw (cs : List Char)
  | quoted (cs : List Char)

namespace Written

def chars : Written → List Char
  | raw cs => cs
  | quoted cs => cs

def text : Written → List Char
  | raw cs => cs
  | quoted cs => '"' :: (cs ++ ['"'])

end Written

/-- A field as it is written. -/
def fieldText (key : List Char) (v : Written) : List Char := '"' :: (key ++ '"' :: ':' :: v.text)

/-- Fields after one another, the first one after a text. -/
def fieldsText (p : List Char) : List (List Char × Written) → List Char
  | [] => []
  | f :: fs => p ++ (fieldText f.1 f.2 ++ fieldsText [','] fs)

/-- A key has no quote, and does not begin like what comes between the fields. -/
structure IsName (key : List Char) : Prop where
  quote : '"' ∉ key
  ne_nil : key ≠ []
  colon : key.head? ≠ some ':'
  comma : key.head? ≠ some ','

variable {c : Char} {pat cs p q x y key t w : List Char}

/-! ## Searching -/

/-- A character at which the pattern does not occur is passed over. -/
theorem afterFirst_skip (h : ¬ pat <+: cs) :
    afterFirst (c :: pat) (c :: cs) = afterFirst (c :: pat) cs := by
  rw [afterFirst, if_neg]
  rw [List.isPrefixOf_cons_cons, beq_self_eq_true, Bool.true_and, List.isPrefixOf_iff_prefix]
  exact h

theorem afterFirst_here : afterFirst (c :: pat) (c :: (pat ++ cs)) = some cs := by
  rw [afterFirst, if_pos]
  · rw [List.length_cons, List.drop_succ_cons, List.drop_left]
  · rw [List.isPrefixOf_cons_cons, beq_self_eq_true, Bool.true_and, List.isPrefixOf_iff_prefix]
    exact List.prefix_append pat cs

/-- Two texts that go on after a first quote agree up to it. -/
theorem prefix_quote (hp : c ∉ p) (hq : c ∉ q) (h : p ++ c :: x <+: q ++ c :: y) :
    p = q ∧ x <+: y := by
  induction p generalizing q with
  | nil =>
    cases q with
    | nil => exact ⟨rfl, (List.cons_prefix_cons.mp h).2⟩
    | cons d q =>
      rw [List.nil_append, List.cons_append, List.cons_prefix_cons] at h
      exact absurd (h.1 ▸ List.mem_cons_self) hq
  | cons b p ih =>
    cases q with
    | nil =>
      rw [List.nil_append, List.cons_append, List.cons_prefix_cons] at h
      exact absurd (h.1 ▸ List.mem_cons_self) hp
    | cons d q =>
      rw [List.cons_append, List.cons_append, List.cons_prefix_cons] at h
      obtain ⟨rfl, h⟩ := h
      obtain ⟨hpq, hxy⟩ := ih (fun hm => hp (List.mem_cons_of_mem _ hm))
        (fun hm => hq (List.mem_cons_of_mem _ hm)) h
      exact ⟨congrArg (b :: ·) hpq, hxy⟩

theorem IsName.not_prefix (h : IsName key) {d : Char} (hd : key.head? ≠ some d) :
    ¬ key ++ x <+: d :: cs := by
  intro hx
  cases key with
  | nil => exact h.ne_nil rfl
  | cons b key =>
    rw [List.cons_append, List.cons_prefix_cons] at hx
    exact hd (congrArg some hx.1)

/-! ## Fields -/

/-- Behind a value there is no colon. -/
theorem afterFirst_value (h : IsName key) {v : Written} (hv : '"' ∉ v.chars) :
    afterFirst ('"' :: (key ++ '"' :: ':' :: t)) (v.text ++ ',' :: cs) =
      afterFirst ('"' :: (key ++ '"' :: ':' :: t)) (',' :: cs) := by
  cases v with
  | raw v => exact afterFirst_append hv
  | quoted v =>
    have hv : '"' ∉ v := hv
    have htext : (Written.quoted v).text ++ ',' :: cs = '"' :: (v ++ '"' :: ',' :: cs) := by
      simp [Written.text]
    rw [htext, afterFirst_skip fun hx => ?_, afterFirst_append hv,
      afterFirst_skip (h.not_prefix h.comma)]
    -- A value that reads like the key is followed by a comma.
    have hcolon := (prefix_quote h.quote hv hx).2
    rw [List.cons_prefix_cons] at hcolon
    exact absurd hcolon.1 (by decide)

theorem fieldsText_ne_nil {fs : List (List Char × Written)} (h : fs ≠ []) :
    ∃ r, fieldsText [','] fs = ',' :: r := by
  cases fs with
  | nil => exact absurd rfl h
  | cons f fs => exact ⟨_, rfl⟩

/-- What is found behind a key, and the beginning of its value, is the rest of the value. -/
theorem afterFirst_fieldsText {v : Written} {pre post : List (List Char × Written)}
    (h : IsName key) (hp : '"' ∉ p)
    (hpre : ∀ f ∈ pre, '"' ∉ f.1 ∧ f.1 ≠ key ∧ '"' ∉ f.2.chars) (hv : v.text = t ++ w) :
    afterFirst ('"' :: (key ++ '"' :: ':' :: t)) (fieldsText p (pre ++ (key, v) :: post)) =
      some (w ++ fieldsText [','] post) := by
  induction pre generalizing p with
  | nil =>
    have htext : fieldsText p ([] ++ (key, v) :: post) =
        p ++ '"' :: ((key ++ '"' :: ':' :: t) ++ (w ++ fieldsText [','] post)) := by
      simp [fieldsText, fieldText, hv]
    rw [htext, afterFirst_append hp, afterFirst_here]
  | cons f pre ih =>
    obtain ⟨hq, hne, hvq⟩ := hpre f List.mem_cons_self
    have hrest : pre ++ (key, v) :: post ≠ [] := by simp
    obtain ⟨r, hr⟩ := fieldsText_ne_nil hrest
    have htext : fieldsText p (f :: pre ++ (key, v) :: post) =
        p ++ '"' :: (f.1 ++ '"' :: ':' :: (f.2.text ++ ',' :: r)) := by
      simp [fieldsText, fieldText, hr]
    have hcolon : afterFirst ('"' :: (key ++ '"' :: ':' :: t)) (':' :: (f.2.text ++ ',' :: r)) =
        afterFirst ('"' :: (key ++ '"' :: ':' :: t)) (f.2.text ++ ',' :: r) :=
      afterFirst_append (p := [':']) (by decide)
    rw [htext, afterFirst_append hp,
      afterFirst_skip fun hx => hne (prefix_quote h.quote hq hx).1.symm, afterFirst_append hq,
      afterFirst_skip (h.not_prefix h.colon), hcolon, afterFirst_value h hvq, ← hr]
    exact ih (by decide) fun g hg => hpre g (List.mem_cons_of_mem _ hg)

/-- Of fields under different keys each is found. -/
theorem afterFirst_mem {v : Written} {fs : List (List Char × Written)}
    (hn : (fs.map Prod.fst).Nodup) (hfs : ∀ f ∈ fs, IsName f.1 ∧ '"' ∉ f.2.chars) (hp : '"' ∉ p)
    (h : (key, v) ∈ fs) (hv : v.text = t ++ w) :
    ∃ post, afterFirst ('"' :: (key ++ '"' :: ':' :: t)) (fieldsText p fs) =
      some (w ++ fieldsText [','] post) := by
  obtain ⟨pre, post, rfl⟩ := List.append_of_mem h
  have hkey : key ∉ pre.map Prod.fst := by
    rw [List.map_append, List.map_cons, List.nodup_append] at hn
    exact fun hm => hn.2.2 _ hm _ List.mem_cons_self rfl
  refine ⟨post, afterFirst_fieldsText (hfs _ h).1 hp (fun f hf => ?_) hv⟩
  obtain ⟨hname, hq⟩ := hfs f (List.mem_append_left _ hf)
  exact ⟨hname.quote, fun he => hkey (he ▸ List.mem_map_of_mem hf), hq⟩

/-- More before the first field. -/
theorem append_fieldsText {fs : List (List Char × Written)} (h : fs ≠ []) :
    p ++ fieldsText q fs = fieldsText (p ++ q) fs := by
  cases fs with
  | nil => exact absurd rfl h
  | cons f fs => exact (List.append_assoc ..).symm

/-- A character of the fields is one of the text before them, of a key, of a value or of the
    punctuation. -/
theorem notMem_fieldsText {fs : List (List Char × Written)} (hc : c ∉ ['"', ':', ','])
    (hp : c ∉ p) (hfs : ∀ f ∈ fs, c ∉ f.1 ∧ c ∉ f.2.chars) : c ∉ fieldsText p fs := by
  have htext {v : Written} (hv : c ∉ v.chars) : c ∉ v.text := by
    cases v with
    | raw v => exact hv
    | quoted v => simp_all [Written.text, Written.chars]
  induction fs generalizing p with
  | nil => exact List.not_mem_nil
  | cons f fs ih =>
    obtain ⟨⟨hk, hv⟩, hfs⟩ := List.forall_mem_cons.mp hfs
    have hrest := ih (p := [',']) (by simp_all) hfs
    simp_all [fieldsText, fieldText]

end Text
