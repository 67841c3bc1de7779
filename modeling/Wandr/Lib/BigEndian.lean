import Mathlib.Algebra.Group.Nat.Defs
import Mathlib.Data.List.Induction

/-!
# Numbers in bytes

A number is written in a given number of bytes, the most significant one first.

* `BigEndian.read_write`: what has room is read back;
* `BigEndian.write_read`: what is read is written back.
-/

namespace BigEndian

variable {k n m : Nat} {bs : List UInt8}

def write : Nat → Nat → List UInt8
  | 0, _ => []
  | k + 1, n => write k (n / 256) ++ [UInt8.ofNat n]

def read (bs : List UInt8) : Nat := bs.foldl (fun n b => n * 256 + b.toNat) 0

@[simp]
theorem length_write (k n : Nat) : (write k n).length = k := by
  induction k generalizing n with
  | zero => rfl
  | succ k ih => rw [write, List.length_append, ih, List.length_singleton]

theorem read_append_singleton (bs : List UInt8) (b : UInt8) :
    read (bs ++ [b]) = read bs * 256 + b.toNat := by
  rw [read, List.foldl_append]
  rfl

theorem read_write (h : n < 256 ^ k) : read (write k n) = n := by
  induction k generalizing n with
  | zero => exact (Nat.lt_one_iff.1 h).symm
  | succ k ih =>
    rw [Nat.pow_succ, Nat.mul_comm] at h
    rw [write, read_append_singleton, ih (Nat.div_lt_of_lt_mul h), UInt8.toNat_ofNat']
    exact Nat.div_add_mod' n 256

theorem read_lt (bs : List UInt8) : read bs < 256 ^ bs.length := by
  induction bs using List.reverseRecOn with
  | nil => exact Nat.one_pos
  | append_singleton bs b ih =>
    have hb : b.toNat < 256 := b.toNat_lt
    rw [read_append_singleton, List.length_append, List.length_singleton, Nat.pow_succ]
    omega

theorem write_read (bs : List UInt8) : write bs.length (read bs) = bs := by
  induction bs using List.reverseRecOn with
  | nil => rfl
  | append_singleton bs b ih =>
    have hb : b.toNat < 256 := b.toNat_lt
    have hdiv : (read bs * 256 + b.toNat) / 256 = read bs := by omega
    have hof : UInt8.ofNat (read bs * 256 + b.toNat) = b := by
      rw [← UInt8.toNat_inj, UInt8.toNat_ofNat']
      omega
    rw [read_append_singleton, List.length_append, List.length_singleton, write, hdiv, hof, ih]

end BigEndian
