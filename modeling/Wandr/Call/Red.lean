import Mathlib.Algebra.Ring.Nat
import Wandr.Call.Video

/-!
# Redundant blocks

A RED payload is written as RFC 2198 has it: each redundant block has a header with a type of
seven bits, an offset of fourteen and a length of ten, which lie across the bytes.

* `redPrimary_encode`: the primary block is found where it was written, and nothing is found
  behind the end of any payload.
-/

namespace Wandr

/-- A redundant block. -/
structure Redundant where
  pt : UInt8
  timestampOffset : Nat
  data : List UInt8
  pt_lt : pt < 128
  offset_lt : timestampOffset < 2 ^ 14
  length_lt : data.length < 1024

/-- The primary block. -/
structure Primary where
  pt : UInt8
  data : List UInt8
  pt_lt : pt < 128

namespace Redundant

variable (b : Redundant)

/-- The low six bits of the offset and the high two of the length. -/
def middle : Nat := b.timestampOffset % 64 * 4 + b.data.length / 256

/-- The header: the bit that another one follows, the type, the offset, and the length. -/
def header : List UInt8 :=
  [b.pt ||| 0x80, UInt8.ofNat (b.timestampOffset / 64), UInt8.ofNat b.middle,
    UInt8.ofNat (b.data.length % 256)]

theorem length_eq : b.data.length =
    ((UInt8.ofNat b.middle).toNat &&& 0x03) <<< 8 |||
      (UInt8.ofNat (b.data.length % 256)).toNat := by
  have hlen := b.length_lt
  have hmiddle : b.middle < 256 := by
    unfold middle
    omega
  have hhigh : b.middle % 2 ^ 2 = b.data.length / 256 := by
    unfold middle
    omega
  have hlow : b.data.length % 256 < 2 ^ 8 := Nat.mod_lt _ (by decide)
  rw [UInt8.toNat_ofNat_of_lt' hmiddle, UInt8.toNat_ofNat_of_lt' hlow,
    show (0x03 : Nat) = 2 ^ 2 - 1 from rfl, Nat.and_two_pow_sub_one_eq_mod, hhigh,
    ← Nat.shiftLeft_add_eq_or_of_lt hlow, Nat.shiftLeft_eq]
  omega

/-- The block as the receiver sees it. -/
def toRedBlock : RedBlock where
  pt := b.pt ||| 0x80
  offset := UInt8.ofNat (b.timestampOffset / 64)
  hi := UInt8.ofNat b.middle
  lo := UInt8.ofNat (b.data.length % 256)
  data := b.data
  more := by
    have hbit : ∀ n : Fin 256, (UInt8.ofNat n ||| 0x80) &&& 0x80 ≠ 0 := by decide +kernel
    simpa using hbit ⟨b.pt.toNat, b.pt.toNat_lt⟩
  length := b.length_eq

end Redundant

/-- A RED payload: the headers, then the data. -/
def encodeRed (blocks : List Redundant) (primary : Primary) : List UInt8 :=
  blocks.flatMap (·.header) ++ primary.pt :: (blocks.flatMap (·.data) ++ primary.data)

theorem encodeRed_eq (blocks : List Redundant) (primary : Primary) :
    encodeRed blocks primary = red (blocks.map (·.toRedBlock)) primary.pt primary.data := by
  rw [encodeRed, red, List.flatMap_map, List.flatMap_map]
  rfl

/-- What is found lies inside the payload. -/
theorem walk_le {payload l : List UInt8} {idx redLen : Nat} {r : UInt8 × Nat}
    (h : redPrimary.walk payload l idx redLen = some r) : r.2 ≤ payload.length := by
  fun_induction redPrimary.walk payload l idx redLen with
  | case1 => cases h
  | case2 idx redLen b rest hb start hle =>
    cases h
    exact hle
  | case3 => cases h
  | case4 idx redLen b hb ts hi lo rest len ih => exact ih h
  | case5 => cases h

/-- The type of the primary block and where it starts are read back, and the start of what is
    read of any payload is no further than its end. -/
theorem redPrimary_encode :
    (∀ (blocks : List Redundant) (primary : Primary), ∃ start,
      redPrimary (encodeRed blocks primary) = some (primary.pt, start) ∧
        start = 4 * blocks.length + 1 + (blocks.map (·.data.length)).sum ∧
        (encodeRed blocks primary).drop start = primary.data) ∧
      ∀ payload, ∀ r ∈ redPrimary payload, r.2 ≤ payload.length := by
  refine ⟨fun blocks primary => ?_, fun payload r hr => walk_le hr⟩
  have hbit : ∀ n : Fin 128, UInt8.ofNat n &&& 0x80 = 0 := by decide
  have hpt : primary.pt &&& 0x80 = 0 := by simpa using hbit ⟨primary.pt.toNat, primary.pt_lt⟩
  have hdata : ((blocks.map (·.toRedBlock)).flatMap (·.data)).length =
      (blocks.map (·.data.length)).sum := by
    rw [List.flatMap_map, List.length_flatMap]
    rfl
  have hread := redPrimary_red hpt (blocks.map (·.toRedBlock)) primary.data
  have hrest := red_split (blocks.map (·.toRedBlock)) primary.pt primary.data
  rw [List.length_map, hdata, ← encodeRed_eq] at hread hrest
  exact ⟨_, hread, rfl, hrest⟩

/-- Two redundant blocks are in front of the primary one. -/
theorem redPrimary_encode_two :
    redPrimary (encodeRed [⟨111, 960, [1, 2], by decide, by decide, by decide⟩,
      ⟨108, 16383, [3], by decide, by decide, by decide⟩] ⟨108, [4, 5], by decide⟩) =
        some (108, 12) := by
  obtain ⟨start, hread, hstart, -⟩ := redPrimary_encode.1
    [⟨111, 960, [1, 2], by decide, by decide, by decide⟩,
      ⟨108, 16383, [3], by decide, by decide, by decide⟩] ⟨108, [4, 5], by decide⟩
  rw [hread, hstart]
  rfl

end Wandr
