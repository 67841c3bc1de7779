import Wandr.Lib.Text

/-!
# Texts as bytes and back

* `Text.utf8DecodeLossy_utf8Encode`: a text is read back from its bytes, the decoder for
  arbitrary bytes replacing nothing;
* `Text.decodeLossy_append_cons`: it begins anew after a character of one byte;
* `Text.mem_of_mem_decodeLossy`: it finds such a character only where its byte is.
-/

namespace Text

variable {a b : UInt8} {n point need : Nat} {bs : List UInt8}

/-! ## Bytes as numbers -/

theorem toNat_ofNat (h : n < 256) : (UInt8.ofNat n).toNat = n :=
  UInt8.toNat_ofNat_of_lt' h

theorem isContinuation_ofNat (hl : 0x80 ≤ n) (hu : n ≤ 0xBF) : isContinuation (UInt8.ofNat n) := by
  have hn : (UInt8.ofNat n).toNat = n := toNat_ofNat (by omega)
  simp only [isContinuation, Bool.and_eq_true, decide_eq_true_eq, UInt8.le_iff_toNat_le, hn]
  exact ⟨hl, hu⟩

/-- The byte after the first one, for the first bytes that restrict it. -/
theorem isSecond_ofNat {m : Nat} (hm : m < 256) (hl : 0x80 ≤ n) (hu : n ≤ 0xBF)
    (he0 : m = 0xE0 → 0xA0 ≤ n) (hed : m = 0xED → n ≤ 0x9F) (hf0 : m = 0xF0 → 0x90 ≤ n)
    (hf4 : m = 0xF4 → n ≤ 0x8F) : isSecond (UInt8.ofNat m) (UInt8.ofNat n) := by
  have hmn : (UInt8.ofNat m).toNat = m := toNat_ofNat hm
  have hn : (UInt8.ofNat n).toNat = n := toNat_ofNat (by omega)
  have heq {k : UInt8} : UInt8.ofNat m = k ↔ m = k.toNat := by
    rw [← UInt8.toNat_inj, hmn]
  unfold isSecond
  split
  · next h =>
    have := he0 (heq.mp h)
    simp only [Bool.and_eq_true, decide_eq_true_eq, UInt8.le_iff_toNat_le, hn]
    exact ⟨this, hu⟩
  split
  · next h =>
    have := hed (heq.mp h)
    simp only [Bool.and_eq_true, decide_eq_true_eq, UInt8.le_iff_toNat_le, hn]
    exact ⟨hl, this⟩
  split
  · next h =>
    have := hf0 (heq.mp h)
    simp only [Bool.and_eq_true, decide_eq_true_eq, UInt8.le_iff_toNat_le, hn]
    exact ⟨this, hu⟩
  split
  · next h =>
    have := hf4 (heq.mp h)
    simp only [Bool.and_eq_true, decide_eq_true_eq, UInt8.le_iff_toNat_le, hn]
    exact ⟨hl, this⟩
  · exact isContinuation_ofNat hl hu

theorem width_ofNat (h : n < 256) : width (UInt8.ofNat n) =
    if n < 0x80 then 1 else if n < 0xC2 then 0 else if n < 0xE0 then 2 else if n < 0xF0 then 3
    else if n < 0xF5 then 4 else 0 := by
  have hn : (UInt8.ofNat n).toNat = n := toNat_ofNat h
  simp only [width, UInt8.lt_iff_toNat_lt, hn]
  rfl

/-! ## Decoding -/

theorem decodeLossy_afresh : decodeLossy .none (b :: bs) =
    match width b with
    | 0 => replacement :: decodeLossy .none bs
    | 1 => Char.ofNat b.toNat :: decodeLossy .none bs
    | 2 => decodeLossy (.within b true 1 (b.toNat % 32)) bs
    | 3 => decodeLossy (.within b true 2 (b.toNat % 16)) bs
    | _ => decodeLossy (.within b true 3 (b.toNat % 8)) bs :=
  rfl

theorem decodeLossy_within {second : Bool} : decodeLossy (.within a second need point) (b :: bs) =
    if (if second then isSecond a b else isContinuation b) then
      if need = 1 then Char.ofNat (continuePoint point b) :: decodeLossy .none bs
      else decodeLossy (.within a false (need - 1) (continuePoint point b)) bs
    else replacement :: decodeLossy .none (b :: bs) :=
  rfl

theorem decodeLossy_none (h : width b = 1) :
    decodeLossy .none (b :: bs) = Char.ofNat b.toNat :: decodeLossy .none bs := by
  rw [decodeLossy_afresh]
  simp [h]

/-- The first byte of a character of several bytes. -/
theorem decodeLossy_first {k : Nat} (hk : width b = k) (h : k = 2 ∨ k = 3 ∨ k = 4) :
    decodeLossy .none (b :: bs) =
      decodeLossy (.within b true (k - 1) (b.toNat % 2 ^ (7 - k))) bs := by
  rw [decodeLossy_afresh]
  rcases h with rfl | rfl | rfl <;> simp [hk]

theorem decodeLossy_second (h : isSecond a b) :
    decodeLossy (.within a true need point) (b :: bs) =
      if need = 1 then Char.ofNat (continuePoint point b) :: decodeLossy .none bs
      else decodeLossy (.within a false (need - 1) (continuePoint point b)) bs := by
  rw [decodeLossy_within]
  simp [h]

theorem decodeLossy_next (h : isContinuation b) :
    decodeLossy (.within a false need point) (b :: bs) =
      if need = 1 then Char.ofNat (continuePoint point b) :: decodeLossy .none bs
      else decodeLossy (.within a false (need - 1) (continuePoint point b)) bs := by
  rw [decodeLossy_within]
  simp [h]

/-- A character is read back from its bytes. -/
theorem decodeLossy_utf8EncodeChar {c : Char} :
    decodeLossy .none (String.utf8EncodeChar c ++ bs) = c :: decodeLossy .none bs := by
  have hv : c.toNat < 0xD800 ∨ (0xDFFF < c.toNat ∧ c.toNat < 0x110000) := c.valid
  have hc {k : Nat} (h : k = c.toNat) : Char.ofNat k = c := by
    rw [h, Char.ofNat_toNat]
  unfold String.utf8EncodeChar
  dsimp only
  generalize hn : c.val.toNat = v
  obtain rfl : c.toNat = v := hn
  split
  · next h1 =>
    have hw : width (UInt8.ofNat c.toNat) = 1 := by
      rw [width_ofNat (by omega), if_pos (by omega)]
    rw [List.singleton_append, decodeLossy_none hw, toNat_ofNat (by omega), Char.ofNat_toNat]
  split
  · next h1 h2 =>
    have hw : width (UInt8.ofNat (c.toNat / 64 % 0x20 + 0xc0)) = 2 := by
      rw [width_ofNat (by omega), if_neg (by omega), if_neg (by omega), if_pos (by omega)]
    have hs : isSecond (UInt8.ofNat (c.toNat / 64 % 0x20 + 0xc0))
        (UInt8.ofNat (c.toNat % 0x40 + 0x80)) :=
      isSecond_ofNat (by omega) (by omega) (by omega) (by omega) (by omega) (by omega) (by omega)
    rw [List.cons_append, List.singleton_append, decodeLossy_first hw (by simp),
      decodeLossy_second hs, if_pos rfl, hc]
    rw [continuePoint, toNat_ofNat (by omega), toNat_ofNat (by omega)]
    omega
  split
  · next h1 h2 h3 =>
    have hw : width (UInt8.ofNat (c.toNat / 4096 % 0x10 + 0xe0)) = 3 := by
      rw [width_ofNat (by omega), if_neg (by omega), if_neg (by omega), if_neg (by omega),
        if_pos (by omega)]
    have hs : isSecond (UInt8.ofNat (c.toNat / 4096 % 0x10 + 0xe0))
        (UInt8.ofNat (c.toNat / 64 % 0x40 + 0x80)) :=
      isSecond_ofNat (by omega) (by omega) (by omega) (by omega) (by omega) (by omega) (by omega)
    have ht : isContinuation (UInt8.ofNat (c.toNat % 0x40 + 0x80)) :=
      isContinuation_ofNat (by omega) (by omega)
    rw [List.cons_append, List.cons_append, List.singleton_append, decodeLossy_first hw (by simp),
      decodeLossy_second hs, if_neg (by decide), decodeLossy_next ht, if_pos rfl, hc]
    rw [continuePoint, continuePoint, toNat_ofNat (by omega), toNat_ofNat (by omega),
      toNat_ofNat (by omega)]
    omega
  · next h1 h2 h3 =>
    have hw : width (UInt8.ofNat (c.toNat / 262144 % 0x08 + 0xf0)) = 4 := by
      rw [width_ofNat (by omega), if_neg (by omega), if_neg (by omega), if_neg (by omega),
        if_neg (by omega), if_pos (by omega)]
    have hs : isSecond (UInt8.ofNat (c.toNat / 262144 % 0x08 + 0xf0))
        (UInt8.ofNat (c.toNat / 4096 % 0x40 + 0x80)) :=
      isSecond_ofNat (by omega) (by omega) (by omega) (by omega) (by omega) (by omega) (by omega)
    have ht : isContinuation (UInt8.ofNat (c.toNat / 64 % 0x40 + 0x80)) :=
      isContinuation_ofNat (by omega) (by omega)
    have hu : isContinuation (UInt8.ofNat (c.toNat % 0x40 + 0x80)) :=
      isContinuation_ofNat (by omega) (by omega)
    rw [List.cons_append, List.cons_append, List.cons_append, List.singleton_append,
      decodeLossy_first hw (by simp), decodeLossy_second hs, if_neg (by decide),
      decodeLossy_next ht, if_neg (by decide), decodeLossy_next hu, if_pos rfl, hc]
    rw [continuePoint, continuePoint, continuePoint, toNat_ofNat (by omega),
      toNat_ofNat (by omega), toNat_ofNat (by omega), toNat_ofNat (by omega)]
    omega

theorem utf8DecodeLossy_utf8Encode {s : String} : utf8DecodeLossy (utf8Encode s) = s := by
  have h {cs : List Char} : decodeLossy .none (cs.flatMap String.utf8EncodeChar) = cs := by
    induction cs with
    | nil => rfl
    | cons c cs ih => rw [List.flatMap_cons, decodeLossy_utf8EncodeChar, ih]
  rw [utf8DecodeLossy, utf8Encode, h, String.ofList_toList]

/-! ## Byte by byte -/

/-- A byte that begins something: the characters it gives, and what is under way after it. -/
def begin (b : UInt8) : List Char × Pending :=
  match width b with
  | 0 => ([replacement], .none)
  | 1 => ([Char.ofNat b.toNat], .none)
  | 2 => ([], .within b true 1 (b.toNat % 32))
  | 3 => ([], .within b true 2 (b.toNat % 16))
  | _ => ([], .within b true 3 (b.toNat % 8))

/-- What a byte does to what is under way. -/
def advance : Pending → UInt8 → List Char × Pending
  | .none, b => begin b
  | .within first second need point, b =>
    if (if second then isSecond first b else isContinuation b) then
      if need = 1 then ([Char.ofNat (continuePoint point b)], .none)
      else ([], .within first false (need - 1) (continuePoint point b))
    else (replacement :: (begin b).1, (begin b).2)

variable {p : Pending} {c : Char}

theorem decodeLossy_begin :
    decodeLossy .none (b :: bs) = (begin b).1 ++ decodeLossy (begin b).2 bs := by
  rw [decodeLossy_afresh, begin]
  generalize width b = w
  rcases w with _ | _ | _ | _ | w <;> rfl

theorem decodeLossy_cons :
    decodeLossy p (b :: bs) = (advance p b).1 ++ decodeLossy (advance p b).2 bs := by
  cases p with
  | none => exact decodeLossy_begin
  | within first second need point =>
    rw [decodeLossy_within, advance]
    generalize (if second then isSecond first b else isContinuation b) = h
    cases h with
    | true =>
      rw [if_pos rfl, if_pos rfl]
      by_cases hn : need = 1
      · rw [if_pos hn, if_pos hn]
        rfl
      · rw [if_neg hn, if_neg hn]
        rfl
    | false =>
      rw [if_neg Bool.false_ne_true, if_neg Bool.false_ne_true]
      exact congrArg (replacement :: ·) decodeLossy_begin

/-- A character of one byte ends what is under way. -/
theorem decodeLossy_append_cons {cs : List UInt8} (h : a < 0x80) :
    decodeLossy p (bs ++ a :: cs) =
      decodeLossy p bs ++ Char.ofNat a.toNat :: decodeLossy .none cs := by
  have hb : begin a = ([Char.ofNat a.toNat], .none) := by
    have hw : width a = 1 := if_pos h
    rw [begin, hw]
    rfl
  induction bs generalizing p with
  | nil =>
    rw [List.nil_append, decodeLossy_cons]
    cases p with
    | none =>
      rw [advance, hb]
      rfl
    | within first second need point =>
      have ha : a.toNat < 0x80 := h
      have hn : (if second then isSecond first a else isContinuation a) = false := by
        simp only [isSecond, isContinuation, UInt8.le_iff_toNat_le]
        grind
      rw [advance, hn, if_neg Bool.false_ne_true, hb]
      rfl
  | cons b bs ih =>
    rw [List.cons_append, decodeLossy_cons, decodeLossy_cons, ih, List.append_assoc]

/-- A text in front. -/
theorem decodeLossy_utf8Encode_append {s : String} :
    decodeLossy .none (utf8Encode s ++ bs) = s.toList ++ decodeLossy .none bs := by
  have h {cs : List Char} : decodeLossy .none (cs.flatMap String.utf8EncodeChar ++ bs) =
      cs ++ decodeLossy .none bs := by
    induction cs with
    | nil => rfl
    | cons c cs ih =>
      rw [List.flatMap_cons, List.append_assoc, decodeLossy_utf8EncodeChar, ih, List.cons_append]
  exact h

/-- What is under way is a character of more than one byte. -/
def Pending.High : Pending → Prop
  | .none => True
  | .within first second need point =>
    2 ≤ point ∨ (2 ≤ need ∧ 1 ≤ point) ∨
      (second = true ∧ ((first = 0xE0 ∧ need = 2) ∨ (first = 0xF0 ∧ need = 3)))

theorem Pending.high_none : Pending.none.High := trivial

theorem high_begin : (begin b).2.High := by
  have hb : b.toNat < 256 := b.toNat_lt
  have h₀ : b = 0xE0 ↔ b.toNat = 0xE0 := UInt8.toNat_inj.symm
  have h₁ : b = 0xF0 ↔ b.toNat = 0xF0 := UInt8.toNat_inj.symm
  have hw : width b = if b.toNat < 0x80 then 1 else if b.toNat < 0xC2 then 0
      else if b.toNat < 0xE0 then 2 else if b.toNat < 0xF0 then 3
      else if b.toNat < 0xF5 then 4 else 0 := rfl
  rw [begin]
  split
  · trivial
  · trivial
  · next h =>
    rw [hw] at h
    simp only [Pending.High]
    grind
  · next h =>
    rw [hw] at h
    simp only [Pending.High, h₀, h₁]
    grind
  · next h₂ h₃ h₄ h₅ =>
    rw [hw] at h₂ h₃ h₄ h₅
    simp only [Pending.High, h₀, h₁]
    grind

theorem high_advance (h : p.High) : (advance p b).2.High := by
  cases p with
  | none => exact high_begin
  | within first second need point =>
    by_cases hc : (if second then isSecond first b else isContinuation b) = true
    · rw [advance, if_pos hc]
      split
      · trivial
      · next hn =>
        have hs (hs : second = true) : (first = 0xE0 → 0xA0 ≤ b.toNat ∧ b.toNat ≤ 0xBF) ∧
            (first = 0xF0 → 0x90 ≤ b.toNat ∧ b.toNat ≤ 0xBF) := by
          rw [hs, if_pos rfl] at hc
          constructor
          · rintro rfl
            simpa [isSecond, UInt8.le_iff_toNat_le] using hc
          · rintro rfl
            simpa [isSecond, UInt8.le_iff_toNat_le] using hc
        simp only [Pending.High, continuePoint] at h ⊢
        grind
    · rw [advance, if_neg hc]
      exact high_begin

/-- A number that stands for no character stands for the one of no bits. -/
theorem toNat_charOfNat : (Char.ofNat n).toNat = if n.isValidChar then n else 0 := by
  by_cases h : n.isValidChar
  · have hc : Char.ofNat n = Char.ofNatAux n h := dif_pos h
    rw [hc, if_pos h]
    rfl
  · have hc : Char.ofNat n = ⟨0, .inl (by decide)⟩ := dif_neg h
    rw [hc, if_neg h]
    rfl

theorem mem_begin (hc : c ∈ (begin b).1) (h : c.toNat < 0x80) : UInt8.ofNat c.toNat = b := by
  have hr : replacement.toNat = 0xFFFD := rfl
  rw [begin] at hc
  split at hc
  · rw [List.mem_singleton.mp hc, hr] at h
    omega
  · next hw =>
    have hb : b.toNat < 0x80 := by
      by_contra hn
      rw [width, if_neg (UInt8.lt_iff_toNat_lt.not.mpr hn)] at hw
      split_ifs at hw <;> omega
    have hv : (Char.ofNat b.toNat).toNat = b.toNat := by
      rw [toNat_charOfNat, if_pos (.inl (by omega))]
    rw [List.mem_singleton.mp hc, hv, UInt8.ofNat_toNat]
  all_goals exact absurd hc List.not_mem_nil

theorem mem_advance (hp : p.High) (hc : c ∈ (advance p b).1) (h₀ : 0 < c.toNat)
    (h : c.toNat < 0x80) : UInt8.ofNat c.toNat = b := by
  cases p with
  | none => exact mem_begin hc h
  | within first second need point =>
    rw [advance] at hc
    by_cases hs : (if second then isSecond first b else isContinuation b) = true
    · rw [if_pos hs] at hc
      by_cases hn : need = 1
      · rw [if_pos hn] at hc
        have hpoint : 2 ≤ point := by
          simp only [Pending.High] at hp
          omega
        rw [List.mem_singleton.mp hc, toNat_charOfNat, continuePoint] at h h₀
        split_ifs at h h₀
        · omega
        · omega
      · rw [if_neg hn] at hc
        exact absurd hc List.not_mem_nil
    · rw [if_neg hs] at hc
      rcases List.mem_cons.mp hc with rfl | hc
      · have hr : replacement.toNat = 0xFFFD := rfl
        omega
      · exact mem_begin hc h

/-- A character of one byte is that byte. The character of no bits may be another one's, spoilt. -/
theorem mem_of_mem_decodeLossy (hp : p.High) (hc : c ∈ decodeLossy p bs) (h₀ : 0 < c.toNat)
    (h : c.toNat < 0x80) : UInt8.ofNat c.toNat ∈ bs := by
  induction bs generalizing p with
  | nil =>
    cases p with
    | none => exact absurd hc List.not_mem_nil
    | within first second need point =>
      have hr : replacement.toNat = 0xFFFD := rfl
      rw [List.mem_singleton.mp hc, hr] at h
      omega
  | cons b bs ih =>
    rw [decodeLossy_cons, List.mem_append] at hc
    rcases hc with hc | hc
    · rw [mem_advance hp hc h₀ h]
      exact List.mem_cons_self
    · exact List.mem_cons_of_mem _ (ih (high_advance hp) hc)

/-- A byte that is a character of its own is found. -/
theorem ofNat_mem_decodeLossy (h : a < 0x80) (ha : a ∈ bs) :
    Char.ofNat a.toNat ∈ decodeLossy p bs := by
  obtain ⟨u, v, rfl⟩ := List.append_of_mem ha
  rw [decodeLossy_append_cons h]
  exact List.mem_append_right _ List.mem_cons_self

theorem ofNat_mem_of_mem_utf8Encode {s : String} (h : a < 0x80) (ha : a ∈ utf8Encode s) :
    Char.ofNat a.toNat ∈ s.toList := by
  have hd : decodeLossy .none (utf8Encode s ++ []) = s.toList ++ [] := decodeLossy_utf8Encode_append
  rw [List.append_nil, List.append_nil] at hd
  exact hd ▸ ofNat_mem_decodeLossy h ha

end Text
