import Mathlib.Data.List.Infix

/-!
# Byte streams of units

The units of a byte stream come after start codes of three bytes, or of four if a zero byte stands
before. Zero bytes may stand before the first unit and after each.

* `exists_cut`: where the start codes are, in any bytes;
* `Ordered.cut`: in a stream of units, they are where the units begin.
-/

namespace ByteStream

def code : List UInt8 := [0, 0, 1]

/-- A start code and what follows it. -/
structure Coded where
  /-- The start code is of four bytes. -/
  zero : Bool
  body : List UInt8
  deriving DecidableEq

namespace Coded

def head (u : Coded) : List UInt8 := if u.zero then 0 :: code else code

def bytes (u : Coded) : List UInt8 := u.head ++ u.body

end Coded

def bytes (us : List Coded) : List UInt8 := us.flatMap Coded.bytes

/-- The bytes from the first start code on. -/
def fromFirst : List UInt8 → List UInt8
  | [] => []
  | b :: bs => if code <+: b :: bs ∨ 0 :: code <+: b :: bs then b :: bs else fromFirst bs

variable {a b p q r t : List UInt8} {u : Coded} {us : List Coded} {n : Nat}

/-! ## Where no start code begins -/

/-- No start code begins in `a`, in front of `t`. -/
def Clear : List UInt8 → List UInt8 → Prop
  | [], _ => True
  | b :: a, t => ¬ code <+: b :: (a ++ t) ∧ Clear a t

theorem clear_append : Clear (a ++ b) t ↔ Clear a (b ++ t) ∧ Clear b t := by
  induction a with
  | nil => exact (and_iff_right trivial).symm
  | cons c a ih => rw [List.cons_append, Clear, Clear, ih, List.append_assoc, and_assoc]

/-- Zeros are no start code, in front of other zeros. -/
theorem clear_zeros (ht : t = [] ∨ [0, 0] <+: t) : Clear (List.replicate n 0) t := by
  induction n with
  | zero => trivial
  | succ n ih =>
    refine ⟨fun hp => ?_, ih⟩
    have hp' : [0, 1] <+: List.replicate n 0 ++ t := (List.cons_prefix_cons.1 hp).2
    -- The byte two further on is a zero, if there is one.
    rcases n with _ | _ | n
    · rcases ht with rfl | ⟨s, rfl⟩
      · exact absurd hp' (by simp)
      · exact absurd hp' (by simp)
    · rcases ht with rfl | ⟨s, rfl⟩
      · exact absurd hp' (by simp)
      · exact absurd hp' (by simp)
    · exact absurd hp' (by simp [List.replicate_succ])

/-- Bytes in which there is no start code, and that end with no zero, begin none. -/
theorem clear_of_getLast (hi : ¬ code <:+: a) (hl : a.getLast? ≠ some 0) : Clear a t := by
  induction a with
  | nil => trivial
  | cons b a ih =>
    have hb : ¬ code <+: b :: (a ++ t) := fun hp => by
      rcases a with _ | ⟨c, _ | ⟨d, a⟩⟩
      · exact hl (congrArg some (List.cons_prefix_cons.1 hp).1.symm)
      · exact hl (congrArg some (List.cons_prefix_cons.1 (List.cons_prefix_cons.1 hp).2).1.symm)
      · refine hi (List.IsPrefix.isInfix (List.prefix_of_prefix_length_le hp ?_ ?_))
        · exact List.prefix_append (b :: c :: d :: a) t
        · exact Nat.le_add_left 3 a.length
    refine ⟨hb, ih (mt (·.trans (List.suffix_cons b a).isInfix) hi) fun h => hl ?_⟩
    cases a with
    | nil => exact absurd h (Option.some_ne_none _).symm
    | cons c a => exact List.getLast?_cons_cons.trans h

/-! ## Where the start codes are -/

/-- After `a`, the start codes are those of the units. -/
inductive Cut : List UInt8 → List Coded → Prop
  | nil {a : List UInt8} : Clear a [] → Cut a []
  | cons {a : List UInt8} {u : Coded} {us : List Coded} : Clear a (bytes (u :: us)) →
      (u.zero = false → a.getLast? ≠ some 0) → Cut u.body us → Cut a (u :: us)

theorem bytes_cons : bytes (u :: us) = u.head ++ (u.body ++ bytes us) := by
  rw [bytes, List.flatMap_cons, Coded.bytes, List.append_assoc]
  rfl

theorem bytes_three : bytes (⟨false, a⟩ :: us) = code ++ (a ++ bytes us) := bytes_cons

theorem bytes_four : bytes (⟨true, a⟩ :: us) = 0 :: code ++ (a ++ bytes us) := bytes_cons

theorem zeros_prefix_bytes : bytes us = [] ∨ [0, 0] <+: bytes us := by
  cases us with
  | nil => exact .inl rfl
  | cons u us =>
    rw [bytes_cons, Coded.head]
    split
    · exact .inr ⟨_, rfl⟩
    · exact .inr ⟨_, rfl⟩

/-- The first start code. -/
theorem clear_or_exists_code (b : List UInt8) :
    Clear b [] ∨ ∃ p r, b = p ++ (code ++ r) ∧ Clear p (code ++ r) := by
  induction b with
  | nil => exact .inl trivial
  | cons c b ih =>
    by_cases hp : code <+: c :: b
    · obtain ⟨r, hr⟩ := hp
      exact .inr ⟨[], r, hr.symm, trivial⟩
    · rcases ih with h | ⟨p, r, rfl, h⟩
      · refine .inl ⟨?_, h⟩
        rwa [List.append_nil]
      · exact .inr ⟨c :: p, r, rfl, hp, h⟩

/-- In any bytes there are start codes somewhere, or nowhere. -/
theorem exists_cut (b : List UInt8) : ∃ a us, b = a ++ bytes us ∧ Cut a us := by
  induction hn : b.length using Nat.strong_induction_on generalizing b with
  | h n ih =>
    subst hn
    rcases clear_or_exists_code b with h | ⟨p, r, rfl, h⟩
    · exact ⟨b, [], (List.append_nil b).symm, .nil h⟩
    obtain ⟨a, us, rfl, hc⟩ := ih r.length (by simp [code]; omega) r rfl
    -- A zero byte in front of the start code belongs to it.
    rcases List.eq_nil_or_concat p with rfl | ⟨q, c, rfl⟩
    · exact ⟨[], ⟨false, a⟩ :: us, bytes_three.symm, .cons trivial (fun _ h => by cases h) hc⟩
    by_cases hz : c = 0
    · subst hz
      have heq : q.concat 0 ++ (code ++ (a ++ bytes us)) = q ++ bytes (⟨true, a⟩ :: us) := by
        rw [bytes_four, List.concat_eq_append, List.append_assoc]
        rfl
      refine ⟨q, ⟨true, a⟩ :: us, heq, .cons ?_ (fun h => Bool.noConfusion h) hc⟩
      rw [List.concat_eq_append] at h
      rw [bytes_cons]
      exact (clear_append.1 h).1
    · refine ⟨q.concat c, ⟨false, a⟩ :: us, congrArg _ bytes_three.symm, .cons ?_ (fun _ => ?_) hc⟩
      · rwa [bytes_three]
      · rw [List.concat_eq_append, List.getLast?_concat]
        exact fun he => hz (Option.some_inj.1 he)

/-- The bytes of the units are those from the first start code on. -/
theorem fromFirst_eq (h : Cut a us) : fromFirst (a ++ bytes us) = bytes us := by
  have hhead (u : Coded) (t : List UInt8) : fromFirst (u.head ++ t) = u.head ++ t := by
    obtain ⟨zero, body⟩ := u
    cases zero with
    | false => exact if_pos (.inl (List.prefix_append code t))
    | true => exact if_pos (.inr (List.prefix_append (0 :: code) t))
  have hstart : fromFirst (bytes us) = bytes us := by
    cases us with
    | nil => rfl
    | cons u us =>
      rw [bytes_cons]
      exact hhead u _
  have hclear : Clear a (bytes us) ∧ (bytes us ≠ [] → code <+: bytes us → a.getLast? ≠ some 0) := by
    cases h with
    | nil hc => exact ⟨hc, fun hne => absurd rfl hne⟩
    | @cons _ u us hc hz _ =>
      refine ⟨hc, fun _ hp => hz (Bool.eq_false_iff.2 fun ht => ?_)⟩
      rw [bytes_cons, Coded.head, if_pos ht] at hp
      exact absurd hp (by simp [code])
  obtain ⟨hc, hl⟩ := hclear
  clear h
  induction a with
  | nil => exact hstart
  | cons b a ih =>
    rw [List.cons_append, fromFirst, if_neg, ih hc.2]
    · intro hne hp hb
      refine hl hne hp ?_
      cases a with
      | nil => cases hb
      | cons c a => exact List.getLast?_cons_cons.trans hb
    · -- A start code of four bytes contains one of three, one byte later.
      rintro (hp | hp)
      · exact hc.1 hp
      obtain ⟨hb, hp⟩ := List.cons_prefix_cons.1 hp
      cases a with
      | nil =>
        have hne : bytes us ≠ [] := fun he => by
          rw [List.nil_append, he] at hp
          exact absurd (List.prefix_nil.1 hp) (List.cons_ne_nil _ _)
        exact hl hne hp (congrArg some hb.symm)
      | cons c a => exact hc.2.1 hp

/-- There is nothing after the last start code. -/
def endsInCode (us : List Coded) : Bool := us.getLast?.any (·.body.isEmpty)

theorem endsInCode_cons :
    endsInCode (u :: us) = if us = [] then u.body.isEmpty else endsInCode us := by
  cases us with
  | nil => rfl
  | cons v us => exact congrArg (Option.any _) List.getLast?_cons_cons

theorem not_suffix_of_clear (h : Clear a []) : ¬ code <:+ a := by
  rintro ⟨s, rfl⟩
  exact (clear_append.1 h).2.1 ⟨[], rfl⟩

/-- After a start code, bytes with none in them end in one only if there are none. -/
theorem suffix_code_append (h : Clear a []) : code <:+ p ++ (code ++ a) ↔ a = [] := by
  have hsuffix {w : List UInt8} (hw : w <:+ p ++ (code ++ a)) (hl : 3 ≤ w.length)
      (hn : ¬ code <:+ w) : ¬ code <:+ p ++ (code ++ a) := fun hs =>
    hn (List.suffix_of_suffix_length_le hs hw hl)
  rcases a with _ | ⟨b, _ | ⟨c, _ | ⟨d, a⟩⟩⟩
  · exact iff_of_true ⟨p, rfl⟩ rfl
  · refine iff_of_false (hsuffix (w := [0, 1, b]) ⟨p ++ [0], by simp [code]⟩ (by simp) ?_) (by simp)
    exact fun hs => absurd (hs.eq_of_length rfl) (by simp [code])
  · refine iff_of_false (hsuffix (w := [1, b, c]) ⟨p ++ [0, 0], by simp [code]⟩ (by simp) ?_)
      (by simp)
    exact fun hs => absurd (hs.eq_of_length rfl) (by simp [code])
  · refine iff_of_false (hsuffix ⟨p ++ code, List.append_assoc _ _ _⟩ ?_ (not_suffix_of_clear h))
      (by simp)
    exact Nat.le_add_left 3 _

/-- The bytes end in a start code if and only if nothing comes after the last one. -/
theorem Cut.endsInCode_iff (h : Cut a us) : endsInCode us ↔ code <:+ a ++ bytes us := by
  induction h with
  | @nil a hc =>
    rw [bytes, List.flatMap_nil, List.append_nil]
    exact iff_of_false Bool.false_ne_true (not_suffix_of_clear hc)
  | @cons a u us _ _ hc ih =>
    obtain ⟨s, hs⟩ : ∃ s, a ++ u.head = s ++ code := by
      rw [Coded.head]
      split
      · exact ⟨a ++ [0], (List.append_assoc a [0] code).symm⟩
      · exact ⟨a, rfl⟩
    have heq : a ++ bytes (u :: us) = s ++ (code ++ (u.body ++ bytes us)) := by
      rw [bytes_cons, ← List.append_assoc, hs, List.append_assoc]
    rw [endsInCode_cons, heq]
    split
    · next hus =>
      subst hus
      cases hc with
      | nil hb =>
        rw [bytes, List.flatMap_nil, List.append_nil, suffix_code_append hb, List.isEmpty_iff]
    · next hus =>
      have hlen : 3 ≤ (u.body ++ bytes us).length := by
        obtain ⟨v, us, rfl⟩ := List.exists_cons_of_ne_nil hus
        rw [bytes_cons, Coded.head]
        split <;> simp [code] <;> omega
      have hw : u.body ++ bytes us <:+ s ++ (code ++ (u.body ++ bytes us)) :=
        ⟨s ++ code, List.append_assoc _ _ _⟩
      rw [ih]
      exact ⟨fun hs => hs.trans hw, fun hs => List.suffix_of_suffix_length_le hs hw hlen⟩

/-! ## Streams of units -/

/-- A unit as it stands in a stream. -/
structure Framed where
  zero : Bool
  nal : List UInt8
  /-- How many zero bytes stand after the unit. -/
  trailing : Nat
  ne_nil : nal ≠ []
  /-- There is no start code in the unit; bytes are put into it so that there is none. -/
  noCode : ¬ code <:+: nal
  getLast_ne : nal.getLast? ≠ some 0

def Framed.coded (f : Framed) : Coded where
  zero := f.zero
  body := f.nal ++ List.replicate f.trailing 0

/-- Of the zero bytes before a start code, `n` of them before the first, the last one belongs to
    it. -/
def Ordered (n : Nat) : List Framed → Prop
  | [] => True
  | f :: fs => (n ≠ 0 → f.zero = true) ∧ Ordered f.trailing fs

theorem Ordered.cut {fs : List Framed} (h : Ordered n fs) (hi : ¬ code <:+: a)
    (hl : a.getLast? ≠ some 0) : Cut (a ++ List.replicate n 0) (fs.map Framed.coded) := by
  have hclear (us : List Coded) : Clear (a ++ List.replicate n 0) (bytes us) :=
    clear_append.2 ⟨clear_of_getLast hi hl, clear_zeros zeros_prefix_bytes⟩
  induction fs generalizing a n with
  | nil => exact .nil (hclear [])
  | cons f fs ih =>
    refine .cons (hclear _) (fun hz => ?_) (ih h.2 f.noCode f.getLast_ne fun us => ?_)
    · have hn : n = 0 := by
        by_contra hn
        exact Bool.noConfusion (hz.symm.trans (h.1 hn))
      rwa [hn, List.replicate_zero, List.append_nil]
    · exact clear_append.2 ⟨clear_of_getLast f.noCode f.getLast_ne, clear_zeros zeros_prefix_bytes⟩

end ByteStream
