import Mathlib.Data.List.GetD
import Mathlib.Tactic.Ring
import Wandr.Lib.BigEndian

/-!
# Arithmetic codes

A number between 0 and 1 is narrowed down to smaller and smaller intervals, and written digit by
digit. The digits that are settled of an interval are known before it is small; what is added to
them later carries into those that are held back.

* `Zoom.Within.mem`: a number in an interval is in each one that the interval was narrowed from;
* `Held.read_push`: a digit that may carry is added to those before.
-/

/-! ## Intervals -/

/-- An interval of the numbers with so many digits more. -/
structure Zoom where
  lo : ℕ
  width : ℕ
  depth : ℕ
  deriving DecidableEq

namespace Zoom

variable {q : ℕ} {z z' z'' : Zoom} {s : ℕ → ℕ}

/-- A part of an interval. -/
def narrow (z : Zoom) (a w : ℕ) : Zoom := { z with lo := z.lo + a, width := w }

/-- The interval, with one more digit. -/
def zoom (q : ℕ) (z : Zoom) : Zoom := ⟨z.lo * q, z.width * q, z.depth + 1⟩

/-- An interval is a part of another one, with more digits. -/
structure Within (q : ℕ) (z' z : Zoom) : Prop where
  depth : z.depth ≤ z'.depth
  lo : z.lo * q ^ (z'.depth - z.depth) ≤ z'.lo
  hi : z'.lo + z'.width ≤ (z.lo + z.width) * q ^ (z'.depth - z.depth)

/-- A number, given by what it comes to with so many digits more, is in an interval. -/
def Mem (s : ℕ → ℕ) (z : Zoom) : Prop := z.lo ≤ s z.depth ∧ s z.depth < z.lo + z.width

theorem Within.refl (q : ℕ) (z : Zoom) : z.Within q z :=
  ⟨le_rfl, by rw [Nat.sub_self, pow_zero, mul_one], by rw [Nat.sub_self, pow_zero, mul_one]⟩

theorem Within.trans (h' : z''.Within q z') (h : z'.Within q z) : z''.Within q z := by
  have hd : z''.depth - z.depth = (z'.depth - z.depth) + (z''.depth - z'.depth) := by
    have := h.depth
    have := h'.depth
    omega
  refine ⟨h.depth.trans h'.depth, ?_, ?_⟩
  · rw [hd, pow_add, ← mul_assoc]
    exact (Nat.mul_le_mul_right _ h.lo).trans h'.lo
  · rw [hd, pow_add, ← mul_assoc]
    exact h'.hi.trans (Nat.mul_le_mul_right _ h.hi)

theorem within_narrow (q : ℕ) {a w : ℕ} (h : a + w ≤ z.width) : (z.narrow a w).Within q z := by
  refine ⟨le_rfl, ?_, ?_⟩ <;> rw [narrow, Nat.sub_self, pow_zero, mul_one]
  · exact Nat.le_add_right _ _
  · rw [Nat.add_assoc]
    exact Nat.add_le_add_left h _

theorem within_zoom (q : ℕ) (z : Zoom) : (z.zoom q).Within q z := by
  have hd : (z.zoom q).depth - z.depth = 1 := Nat.add_sub_cancel_left _ _
  refine ⟨Nat.le_succ _, ?_, ?_⟩ <;> rw [hd, pow_one]
  · exact le_rfl
  · exact (Nat.add_mul _ _ _).ge

/-- A number in an interval is in each one that the interval is a part of. -/
theorem Within.mem (h : z'.Within q z) (hs : ∀ n, s (n + 1) / q = s n) (hm : z'.Mem s) :
    z.Mem s := by
  obtain ⟨hd, hlo, hhi⟩ := h
  obtain ⟨k, hk⟩ := Nat.exists_eq_add_of_le hd
  have hdiv (n : ℕ) : s (z.depth + n) / q ^ n = s z.depth := by
    induction n with
    | zero => exact Nat.div_one _
    | succ n ih => rw [Nat.pow_succ', ← Nat.div_div_eq_div_mul, ← Nat.add_assoc, hs, ih]
  rw [hk, Nat.add_sub_cancel_left] at hlo hhi
  rw [Mem, hk] at hm
  rw [Mem, ← hdiv k]
  have hq : 0 < q ^ k := by
    by_contra hq
    rw [Nat.eq_zero_of_not_pos hq, Nat.mul_zero] at hhi
    omega
  exact ⟨(Nat.le_div_iff_mul_le hq).2 (hlo.trans hm.1),
    (Nat.div_lt_iff_lt_mul hq).2 (hm.2.trans_le hhi)⟩

end Zoom

/-! ## Digits -/

namespace BigEndian

theorem read_append (as bs : List UInt8) :
    read (as ++ bs) = read as * 256 ^ bs.length + read bs := by
  induction bs using List.reverseRecOn with
  | nil => rw [List.append_nil, List.length_nil, pow_zero, mul_one]; rfl
  | append_singleton bs b ih =>
    rw [← List.append_assoc, read_append_singleton, read_append_singleton, ih,
      List.length_append, List.length_singleton, pow_succ]
    ring

theorem read_singleton (b : UInt8) : read [b] = b.toNat := by
  rw [read, List.foldl_cons, List.foldl_nil, Nat.zero_mul, Nat.zero_add]

theorem read_replicate_zero (n : ℕ) : read (List.replicate n 0) = 0 := by
  induction n with
  | zero => rfl
  | succ n ih =>
    rw [List.replicate_succ', read_append_singleton, ih]
    rfl

theorem read_replicate_max (n : ℕ) : read (List.replicate n 255) + 1 = 256 ^ n := by
  induction n with
  | zero => rfl
  | succ n ih =>
    rw [List.replicate_succ', read_append_singleton, pow_succ, ← ih]
    change _ + 255 + 1 = _
    omega

/-- The number of the first bytes, with zeros behind them. -/
def lead (bs : List UInt8) (n : ℕ) : ℕ := read (bs.take n) * 256 ^ (n - bs.length)

/-- The first bytes of some that begin with others. -/
theorem lead_append (as bs : List UInt8) (k : ℕ) :
    ∃ t < 256 ^ k, lead (as ++ bs) (as.length + k) = read as * 256 ^ k + t := by
  have hlt := read_lt (bs.take k)
  rw [List.length_take] at hlt
  refine ⟨read (bs.take k) * 256 ^ (k - bs.length), ?_, ?_⟩
  · rcases le_total k bs.length with h | h
    · rw [Nat.sub_eq_zero_of_le h, pow_zero, mul_one]
      rwa [min_eq_left h] at hlt
    · rw [min_eq_right h] at hlt
      calc read (bs.take k) * 256 ^ (k - bs.length)
          < 256 ^ bs.length * 256 ^ (k - bs.length) :=
            Nat.mul_lt_mul_of_pos_right hlt (Nat.pow_pos (by decide))
        _ = 256 ^ k := by rw [← pow_add, Nat.add_sub_cancel' h]
  · have htake : (as ++ bs).take (as.length + k) = as ++ bs.take k := by
      rw [List.take_append, List.take_of_length_le (Nat.le_add_right _ _),
        Nat.add_sub_cancel_left]
    have hexp : (as.length + k) - (as ++ bs).length = k - bs.length := by
      rw [List.length_append]
      omega
    have hpow : 256 ^ (bs.take k).length * 256 ^ (k - bs.length) = 256 ^ k := by
      rw [← pow_add, List.length_take]
      congr 1
      omega
    rw [lead, htake, hexp, read_append, Nat.add_mul, Nat.mul_assoc, hpow]

/-- The next byte is the last digit of the number with it. -/
theorem lead_succ (bs : List UInt8) (n : ℕ) :
    lead bs (n + 1) = lead bs n * 256 + (bs.getD n 0).toNat := by
  rcases lt_or_ge n bs.length with h | h
  · have htake : bs.take (n + 1) = bs.take n ++ [bs[n]] := (List.take_append_getElem h).symm
    rw [lead, lead, htake, read_append_singleton, Nat.sub_eq_zero_of_le h,
      Nat.sub_eq_zero_of_le h.le, pow_zero, mul_one, mul_one, List.getD_eq_getElem _ _ h]
  · have hs : n + 1 - bs.length = (n - bs.length) + 1 := by omega
    rw [lead, lead, List.take_of_length_le (h.trans (Nat.le_succ n)), List.take_of_length_le h,
      hs, pow_succ, List.getD_eq_default _ _ h, Nat.mul_assoc]
    rfl

end BigEndian

/-- Digits that are settled, one that is held back as it may grow by one, and how many of the
    largest digit follow, which it would grow by. -/
structure Held where
  out : List UInt8
  rem : Option UInt8
  ext : ℕ

namespace Held

open BigEndian

variable {h : Held} {c : ℕ}

/-- All of the digits. -/
def digits (h : Held) : List UInt8 := h.out ++ (h.rem.toList ++ List.replicate h.ext 255)

/-- Add a digit; one of 256 and more carries. -/
def push (h : Held) (c : ℕ) : Held :=
  if c = 255 then { h with ext := h.ext + 1 }
  else ⟨h.out ++ ((h.rem.map (· + UInt8.ofNat (c / 256))).toList ++
    List.replicate h.ext (UInt8.ofNat (255 + c / 256))), some (UInt8.ofNat c), 0⟩

theorem digits_some (out : List UInt8) (r : UInt8) : digits ⟨out, some r, 0⟩ = out ++ [r] := rfl

theorem length_push (h : Held) (c : ℕ) : (h.push c).digits.length = h.digits.length + 1 := by
  obtain ⟨out, rem, ext⟩ := h
  rw [push]
  split_ifs
  · simp only [digits, List.length_append, List.length_replicate]
    omega
  · rw [digits_some]
    simp only [digits, List.length_append, List.length_replicate, List.length_singleton,
      Option.length_toList, Option.isSome_map]

/-- A digit is added, and what it carries, if the digit held back has room for it. -/
theorem read_push (hc : c < 512) (hr : h.rem = none ∨ h.rem = some 255 → c < 256) :
    read (h.push c).digits = read h.digits * 256 + c := by
  obtain ⟨out, rem, ext⟩ := h
  rw [push]
  split_ifs with h255
  · subst h255
    simp only [digits]
    rw [List.replicate_succ', ← List.append_assoc, ← List.append_assoc, read_append_singleton,
      List.append_assoc]
    rfl
  · have hlast : (UInt8.ofNat c).toNat = c % 256 := UInt8.toNat_ofNat'
    rw [digits_some, read_append_singleton, hlast]
    dsimp only [digits] at hr ⊢
    by_cases hcarry : c < 256
    · have hzero : c / 256 = 0 := Nat.div_eq_of_lt hcarry
      have hrem : rem.map (· + UInt8.ofNat (c / 256)) = rem := by
        rw [hzero]
        cases rem with
        | none => rfl
        | some r => exact congrArg some (UInt8.add_zero r)
      have hext : UInt8.ofNat (255 + c / 256) = 255 := by
        rw [hzero]
        rfl
      rw [hrem, hext, Nat.mod_eq_of_lt hcarry]
    · -- the digit held back takes what is carried, and those behind it become zeros
      cases rem with
      | none => exact absurd (hr (.inl rfl)) hcarry
      | some r =>
        have hone : c / 256 = 1 := by omega
        have hr255 : r.toNat ≠ 255 := fun h =>
          hcarry (hr (.inr (congrArg some (UInt8.toNat_inj.1 h))))
        have hrlt := r.toNat_lt
        have hadd : (r + 1).toNat = r.toNat + 1 := by
          rw [UInt8.toNat_add]
          change (r.toNat + 1) % 256 = _
          omega
        have hext : UInt8.ofNat (255 + c / 256) = 0 := by
          rw [hone]
          rfl
        have hlen (x : UInt8) : ([r] ++ List.replicate ext x).length = 1 + ext := by
          rw [List.length_append, List.length_replicate, List.length_singleton]
        have hlen' (x : UInt8) : ([r + 1] ++ List.replicate ext x).length = 1 + ext := by
          rw [List.length_append, List.length_replicate, List.length_singleton]
        have hmax := read_replicate_max ext
        rw [hext, hone]
        change read (out ++ ([r + 1] ++ List.replicate ext 0)) * 256 + c % 256 =
          read (out ++ ([r] ++ List.replicate ext 255)) * 256 + c
        rw [read_append, read_append out, read_append [r + 1], read_append [r], read_singleton,
          read_singleton, read_replicate_zero, hadd, hlen, hlen', List.length_replicate,
          List.length_replicate, ← hmax, Nat.add_mul r.toNat 1, Nat.one_mul, Nat.add_zero]
        generalize read out * 256 ^ (1 + ext) = A
        generalize r.toNat * (read (List.replicate ext 255) + 1) = B
        omega

end Held
