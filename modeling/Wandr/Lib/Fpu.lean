import Mathlib.Init

/-!
# Floating-point numbers, abstractly

A program that computes with floating-point numbers is modelled over the bit
patterns of the numbers, with the operations of the floating-point unit as a
class: what the development proves then holds whatever the operations are, and
a run can be evaluated by giving the class an instance.
-/

/-- A single-precision number, as its 32 bits. -/
structure F32 where
  bits : Nat
  deriving DecidableEq

/-- A double-precision number, as its 64 bits. -/
structure F64 where
  bits : Nat
  deriving DecidableEq

namespace F32

/-- Not a number. -/
def isNaN (x : F32) : Bool := 0x7F800000 < x.bits % 0x80000000

/-- Where a number stands in the order of the numbers. -/
def toInt (x : F32) : Int :=
  if x.bits < 0x80000000 then x.bits else 0x80000000 - (x.bits : Int)

def zero : F32 := ⟨0x00000000⟩
def one : F32 := ⟨0x3F800000⟩

end F32

/-- The operations on floating-point numbers, their conversions from and to
    integers, and their reading and writing as text. -/
class Fpu where
  lt : F32 → F32 → Bool
  le : F32 → F32 → Bool
  add : F32 → F32 → F32
  sub : F32 → F32 → F32
  mul : F32 → F32 → F32
  div : F32 → F32 → F32
  abs : F32 → F32
  max : F32 → F32 → F32
  log10 : F32 → F32
  round : F32 → F32
  ofNat : Nat → F32
  toU32 : F32 → Nat
  toI64 : F32 → Int
  parse : String → Option F32
  display : F32 → String
  displayFixed : Nat → F32 → String
  parse64 : String → Option F64
  display64 : F64 → String

namespace Fpu

variable [Fpu]

/-- The nearest number of the interval from `lo` to `hi`. -/
def clamp (x lo hi : F32) : F32 := if lt x lo then lo else if lt hi x then hi else x

/-- A unit that compares numbers and computes none: every other result is zero or
    empty. It evaluates the runs that only compare. -/
@[reducible]
def comparator : Fpu where
  lt x y := !x.isNaN && !y.isNaN && decide (x.toInt < y.toInt)
  le x y := !x.isNaN && !y.isNaN && decide (x.toInt ≤ y.toInt)
  add _ _ := .zero
  sub _ _ := .zero
  mul _ _ := .zero
  div _ _ := .zero
  abs _ := .zero
  max _ _ := .zero
  log10 _ := .zero
  round _ := .zero
  ofNat _ := .zero
  toU32 _ := 0
  toI64 _ := 0
  parse _ := none
  display _ := ""
  displayFixed _ _ := ""
  parse64 _ := none
  display64 _ := ""

end Fpu
