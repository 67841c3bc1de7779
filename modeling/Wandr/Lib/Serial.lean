import Mathlib.Algebra.Group.Int.Defs
import Mathlib.Algebra.Group.Nat.Defs

/-!
# Serial numbers

Packets are numbered by the integers, of which only the low 16 bits are sent. Two
numbers that are close to each other are told apart by the wrapping distance of what is
sent.

* `Serial.unwrap_wrap`: a number in a window of known beginning is recovered;
* `Serial.distance_wrap`: the distance of two numbers, up to wrapping.
-/

namespace Serial

/-- What is sent of a number. -/
def wrap (u : Int) : UInt16 := ⟨BitVec.ofInt 16 u⟩

/-- The number that is sent as `s`, in the window that begins with `lo`. -/
def unwrap (lo : Int) (s : UInt16) : Int := lo + (s.toNat - lo) % 2 ^ 16

/-- The wrapping distance of `s` from `t`, as a signed number. -/
def distance (s t : UInt16) : Int := (s - t).toInt16.toInt

variable {lo u v : Int} {s t : UInt16}

theorem toNat_wrap : ((wrap u).toNat : Int) = u % 2 ^ 16 := by
  rw [wrap, UInt16.toNat_ofBitVec, BitVec.toNat_ofInt]
  omega

theorem le_unwrap : lo ≤ unwrap lo s := by
  rw [unwrap]
  omega

theorem unwrap_wrap (hl : lo ≤ u) (hu : u < lo + 2 ^ 16) : unwrap lo (wrap u) = u := by
  rw [unwrap, toNat_wrap]
  omega

theorem wrap_unwrap : wrap (unwrap lo s) = s := by
  have hlt : s.toNat < 2 ^ 16 := s.toNat_lt
  have h : ((wrap (unwrap lo s)).toNat : Int) = s.toNat := by
    rw [toNat_wrap, unwrap]
    omega
  exact UInt16.toNat_inj.mp (by omega)

theorem distance_wrap : distance (wrap u) (wrap v) = (u - v).bmod (2 ^ 16) := by
  have h : (wrap u - wrap v).toInt16.toInt = (BitVec.ofInt 16 u - BitVec.ofInt 16 v).toInt := rfl
  rw [distance, h, BitVec.toInt_sub, BitVec.toInt_ofInt, BitVec.toInt_ofInt]
  simp

theorem distance_self : distance s s = 0 := by
  rw [distance, UInt16.sub_self]
  rfl

/-- What is sent is found again at its distance. -/
theorem add_wrap_distance : t + wrap (distance s t) = s := by
  have h : wrap (distance s t) = s - t := by
    have hb : BitVec.ofInt 16 (s - t).toBitVec.toInt = (s - t).toBitVec := BitVec.ofInt_toInt
    exact congrArg UInt16.ofBitVec hb
  rw [h, UInt16.add_comm, UInt16.sub_add_cancel]

/-- In half a window the distance is the difference, but for the two ends of it. -/
theorem distance_eq (hs : unwrap lo s ≤ lo + 2 ^ 15) (ht : unwrap lo t ≤ lo + 2 ^ 15)
    (hne : distance s t ≠ -2 ^ 15) : distance s t = unwrap lo s - unwrap lo t := by
  have hls : lo ≤ unwrap lo s := le_unwrap
  have hlt : lo ≤ unwrap lo t := le_unwrap
  have h : distance (wrap (unwrap lo s)) (wrap (unwrap lo t)) =
      (unwrap lo s - unwrap lo t).bmod (2 ^ 16) := distance_wrap
  rw [wrap_unwrap, wrap_unwrap] at h
  rw [Int.bmod_def] at h
  split at h <;> omega

end Serial
