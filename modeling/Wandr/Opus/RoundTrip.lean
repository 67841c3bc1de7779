import Wandr.Opus.Decoder

/-!
# What is read of a packet is what was written

Symbols and bits are written to a packet in any order, and are read in the same order.

* `Coded.exists_step`: each of them takes what was written so far to what is written then, and a
  coder that read a packet up to there to one that read on;
* `Coded.read_written`: of a complete packet in which all found room, each of them is read as
  it was written, and the coder that reads is at each point in step with the one that wrote.
-/

namespace Wandr.Opus

/-- What is written to a packet, and read of it. -/
inductive Coded
  | range (fl fh ft : Nat)
  | bitLogp (val : Bool) (logp : Nat)
  | icdf (s : Nat) (table : List UInt8) (ftb : Nat)
  | uint (fl ft : Nat)
  | bits (val n : Nat)
  deriving DecidableEq

namespace Coded

open RangeCoder

/-- The bound above the part of a symbol in a table. -/
def upper (s : Nat) (table : List UInt8) (ftb : Nat) : Nat :=
  if s = 0 then 2 ^ ftb else (table.getD (s - 1) 0).toNat

/-- What can be written: the parts of symbols are not empty, and the total is not larger than the
    range; and bits have room in the window. -/
def Valid : Coded → Prop
  | .range fl fh ft => fl < fh ∧ fh ≤ ft ∧ ft ≤ codeBot
  | .bitLogp _ logp => 1 ≤ logp ∧ logp ≤ 23
  | .icdf s table ftb => ftb ≤ 23 ∧ s < table.length ∧
      (table.getD s 0).toNat < upper s table ftb ∧
      ∀ i < s, upper s table ftb ≤ (table.getD i 0).toNat ∧ (table.getD i 0).toNat ≤ 2 ^ ftb
  | .uint fl ft => fl < ft ∧ ft < 2 ^ 32
  | .bits _ n => n ≤ 25

def write (c : RangeCoder) : Coded → RangeCoder
  | .range fl fh ft => c.encode fl fh ft
  | .bitLogp val logp => c.encodeBitLogp val logp
  | .icdf s table ftb => c.encodeIcdf s table ftb
  | .uint fl ft => c.encUint fl ft
  | .bits val n => c.encBits val n

/-- Read what is told apart, and go on behind it. -/
def read (d : RangeCoder) : Coded → RangeCoder × Nat
  | .range fl fh ft => ((d.decode ft).1.update fl fh ft, (d.decode ft).2)
  | .bitLogp _ logp => ((d.decodeBitLogp logp).1, (d.decodeBitLogp logp).2.toNat)
  | .icdf _ table ftb => d.decodeIcdf table ftb
  | .uint _ ft => d.decUint ft
  | .bits _ n => d.decBits n

/-- What is read tells what was written: a number in the part of the symbol, or the value. -/
def Tells : Coded → Nat → Prop
  | .range fl fh _, a => fl ≤ a ∧ a < fh
  | .bitLogp val _, a => a = val.toNat
  | .icdf s _ _, a => a = s
  | .uint fl _, a => a = fl
  | .bits val n, a => a = val % 2 ^ n

theorem error_write {x : Coded} {c : RangeCoder} (h : (x.write c).error = 0) : c.error = 0 := by
  have hencode {fl fh ft : Nat} {c : RangeCoder} (h : (c.encode fl fh ft).error = 0) :
      c.error = 0 := by
    have h := error_normalizeEncoder h
    split_ifs at h <;> exact h
  cases x with
  | range fl fh ft => exact hencode h
  | bitLogp val logp =>
    have h := error_normalizeEncoder h
    split_ifs at h <;> exact h
  | icdf s table ftb =>
    have h := error_normalizeEncoder h
    split_ifs at h <;> exact h
  | uint fl ft =>
    rw [write, encUint] at h
    dsimp only at h
    split_ifs at h
    · exact hencode (error_encBits h)
    · exact hencode h
    · exact h
  | bits val n => exact error_encBits h

/-! ## Parts of a range -/

/-- A symbol narrows a range to a part of it, and a number in that part tells the symbol. -/
structure Narrows (x : Coded) (r a w : Nat) : Prop where
  pos : 0 < w
  le : a + w ≤ r
  write : ∀ c : RangeCoder, c.rng = r → c.val + r ≤ 2 ^ 32 →
    x.write c = normalizeEncoder { c with val := c.val + a, rng := w }
  read : ∀ d : RangeCoder, d.rng = r → r ≤ d.val + (a + w) → d.val + a < r →
    x.Tells (x.read d).2 ∧ ∃ e, (x.read d).1 =
      normalizeDecoder { d with ext := e, val := d.val + (a + w) - r, rng := w }

variable {r : Nat}

theorem narrows_range {fl fh ft : Nat} (hl : fl < fh) (hh : fh ≤ ft) (ht : ft ≤ codeBot)
    (hr : codeBot < r) (hr' : r ≤ codeTop) : ∃ a w, Narrows (.range fl fh ft) r a w := by
  have hcode : codeTop = 0x80000000 := rfl
  have hbot : codeBot = 0x800000 := rfl
  obtain ⟨q, hq⟩ : ∃ q, q = r / ft := ⟨_, rfl⟩
  have hqpos : 0 < q := hq ▸ Nat.div_pos (by omega) (by omega)
  have hqle : q * ft ≤ r := hq ▸ Nat.div_mul_le_self r ft
  -- the parts below, in and above the symbol
  obtain ⟨A, hA⟩ : ∃ A, A = q * fl := ⟨_, rfl⟩
  obtain ⟨W, hW⟩ : ∃ W, W = q * (fh - fl) := ⟨_, rfl⟩
  obtain ⟨B, hB⟩ : ∃ B, B = q * (ft - fh) := ⟨_, rfl⟩
  have hsum : A + W + B = q * ft := by
    rw [hA, hW, hB, ← Nat.mul_add, ← Nat.mul_add]
    congr 1
    omega
  have hupper : q * (ft - fl) = W + B := by
    rw [hW, hB, ← Nat.mul_add]
    congr 1
    omega
  have hWpos : 0 < W := hW ▸ Nat.mul_pos hqpos (by omega)
  have hqle' : q ≤ W := hW ▸ Nat.le_mul_of_pos_right q (by omega)
  have hft : wrappingSub ft fh = ft - fh := wrappingSub_of_le hh (by omega)
  have hft' : wrappingSub ft fl = ft - fl := wrappingSub_of_le (by omega) (by omega)
  have hfh : wrappingSub fh fl = fh - fl := wrappingSub_of_le hl.le (by omega)
  have hmB : wrappingMul q (ft - fh) = B := by
    rw [wrappingMul_of_lt (by omega), hB]
  have hmW : wrappingMul q (fh - fl) = W := by
    rw [wrappingMul_of_lt (by omega), hW]
  have hmU : wrappingMul q (ft - fl) = W + B := by
    rw [wrappingMul_of_lt (by omega), hupper]
  have hdecode (v : Nat) (hv : v < r) (hlo : B ≤ v) (hhi : 0 < fl → v < W + B) :
      fl ≤ ft - min ft (wrappingAdd (v / q) 1) ∧ ft - min ft (wrappingAdd (v / q) 1) < fh := by
    have hs : v / q ≤ v := Nat.div_le_self v q
    have hge : ft - fh ≤ v / q := by
      rw [Nat.le_div_iff_mul_le hqpos, Nat.mul_comm, ← hB]
      exact hlo
    rw [wrappingAdd_of_lt (by omega)]
    refine ⟨?_, by omega⟩
    rcases Nat.eq_zero_or_pos fl with h0 | h0
    · omega
    · have hlt : v / q < ft - fl := by
        rw [Nat.div_lt_iff_lt_mul hqpos, Nat.mul_comm, hupper]
        exact hhi h0
      omega
  by_cases h0 : 0 < fl
  · refine ⟨r - (W + B), W, hWpos, by omega, fun c hc hv => ?_, fun d hd hlo hhi => ?_⟩
    · rw [write, encode, if_pos h0, hc, ← hq, hft', hfh, hmU, hmW,
        wrappingSub_of_le (by omega) (by omega), wrappingAdd_of_lt (by omega)]
    · refine ⟨?_, q, ?_⟩
      · rw [read, decode, hd, ← hq]
        exact hdecode d.val (by omega) (by omega) fun _ => by omega
      · have hval : d.val + (r - (W + B) + W) - r = d.val - B := by omega
        rw [read, decode, hd, ← hq, update, if_pos h0]
        dsimp only
        rw [hft, hfh, hmB, hmW, wrappingSub_of_le (by omega) (by omega), hval]
  · refine ⟨0, r - B, by omega, by omega, fun c hc hv => ?_, fun d hd hlo hhi => ?_⟩
    · rw [write, encode, if_neg h0, hc, ← hq, hft, hmB, wrappingSub_of_le (by omega) (by omega)]
      rfl
    · refine ⟨?_, q, ?_⟩
      · rw [read, decode, hd, ← hq]
        exact hdecode d.val (by omega) (by omega) fun h => absurd h h0
      · have hval : d.val + (0 + (r - B)) - r = d.val - B := by omega
        rw [read, decode, hd, ← hq, update, if_neg h0]
        dsimp only
        rw [hft, hmB, wrappingSub_of_le (by omega) (by omega),
          wrappingSub_of_le (by omega) (by omega), hval]

theorem narrows_bitLogp (val : Bool) {logp : Nat} (h₁ : 1 ≤ logp) (h₂ : logp ≤ 23)
    (hr : codeBot < r) (hr' : r ≤ codeTop) : ∃ a w, Narrows (.bitLogp val logp) r a w := by
  have hcode : codeTop = 0x80000000 := rfl
  have hbot : codeBot = 2 ^ 23 := rfl
  obtain ⟨s, hs⟩ : ∃ s, s = r >>> logp := ⟨_, rfl⟩
  have hdiv : s = r / 2 ^ logp := hs.trans (Nat.shiftRight_eq_div_pow _ _)
  have hpow : 2 ^ logp ≤ 2 ^ 23 := Nat.pow_le_pow_right (by decide) h₂
  have hpos : 0 < s := hdiv ▸ Nat.div_pos (by omega) (Nat.two_pow_pos _)
  have hlt : s < r := hdiv ▸ Nat.div_lt_self (by omega) (Nat.one_lt_two_pow (by omega))
  cases val with
  | true =>
    refine ⟨r - s, s, hpos, by omega, fun c hc hv => ?_, fun d hd hlo hhi => ?_⟩
    · rw [write, encodeBitLogp, if_pos rfl, hc, ← hs, wrappingSub_of_le hlt.le (by omega),
        wrappingAdd_of_lt (by omega)]
    · have hret : decide (d.val < s) = true := decide_eq_true (by omega)
      have hval : d.val + (r - s + s) - r = d.val := by omega
      rw [read, decodeBitLogp, hd, ← hs]
      dsimp only
      rw [hret, if_pos rfl, hval]
      exact ⟨rfl, d.ext, rfl⟩
  | false =>
    refine ⟨0, r - s, by omega, by omega, fun c hc hv => ?_, fun d hd hlo hhi => ?_⟩
    · rw [write, encodeBitLogp, if_neg Bool.false_ne_true, hc, ← hs,
        wrappingSub_of_le hlt.le (by omega)]
      rfl
    · have hret : decide (d.val < s) = false := decide_eq_false (by omega)
      have hval : d.val + (0 + (r - s)) - r = d.val - s := by omega
      rw [read, decodeBitLogp, hd, ← hs]
      dsimp only
      rw [hret, if_neg Bool.false_ne_true, wrappingSub_of_le hlt.le (by omega),
        wrappingSub_of_le (by omega) (by omega), hval]
      exact ⟨rfl, d.ext, rfl⟩

/-- The symbol whose part a number is in is found, and the bounds of its part. -/
theorem searchIcdf_eq {q v : Nat} {table : List UInt8} {s t k : Nat} (hs : s < table.length)
    (hfit : ∀ i ≤ s, q * (table.getD i 0).toNat < 2 ^ 32)
    (hlo : ∀ i < s, v < q * (table.getD i 0).toNat) (hhi : q * (table.getD s 0).toNat ≤ v) :
    searchIcdf q v table t k = (if s = 0 then t else q * (table.getD (s - 1) 0).toNat,
      q * (table.getD s 0).toNat, k + s) := by
  induction table generalizing s t k with
  | nil => exact absurd hs (Nat.not_lt_zero s)
  | cons b table ih =>
    have hb : wrappingMul q b.toNat = q * b.toNat := wrappingMul_of_lt (hfit 0 (Nat.zero_le s))
    rw [searchIcdf, hb]
    cases s with
    | zero =>
      have hhi : q * b.toNat ≤ v := hhi
      rw [if_pos hhi, if_pos rfl]
      rfl
    | succ s =>
      have hlt : ¬ q * b.toNat ≤ v := Nat.not_le_of_lt (hlo 0 (Nat.succ_pos s))
      rw [if_neg hlt, ih (Nat.lt_of_succ_lt_succ hs)
        (fun i hi => hfit (i + 1) (Nat.succ_le_succ hi))
        (fun i hi => hlo (i + 1) (Nat.succ_lt_succ hi)) hhi, if_neg (Nat.succ_ne_zero s),
        Nat.add_right_comm, ← Nat.add_assoc]
      cases s <;> rfl

theorem narrows_icdf {s : Nat} {table : List UInt8} {ftb : Nat} (hf : ftb ≤ 23)
    (hs : s < table.length) (hpart : (table.getD s 0).toNat < upper s table ftb)
    (hup : ∀ i < s, upper s table ftb ≤ (table.getD i 0).toNat ∧
      (table.getD i 0).toNat ≤ 2 ^ ftb)
    (hr : codeBot < r) (hr' : r ≤ codeTop) : ∃ a w, Narrows (.icdf s table ftb) r a w := by
  have hcode : codeTop = 0x80000000 := rfl
  have hbot : codeBot = 2 ^ 23 := rfl
  obtain ⟨q, hq⟩ : ∃ q, q = r >>> ftb := ⟨_, rfl⟩
  have hdiv : q = r / 2 ^ ftb := hq.trans (Nat.shiftRight_eq_div_pow _ _)
  have hpow : 2 ^ ftb ≤ 2 ^ 23 := Nat.pow_le_pow_right (by decide) hf
  have hqpos : 0 < q := hdiv ▸ Nat.div_pos (by omega) (Nat.two_pow_pos _)
  have hqle : q * 2 ^ ftb ≤ r := hdiv ▸ Nat.div_mul_le_self r _
  have hle : upper s table ftb ≤ 2 ^ ftb := by
    rw [upper]
    split_ifs with h0
    · exact le_rfl
    · exact (hup (s - 1) (by omega)).2
  have hmul {x y : Nat} (h : x ≤ y) : q * x ≤ q * y := Nat.mul_le_mul_left q h
  have hlt : q * (table.getD s 0).toNat < q * upper s table ftb :=
    Nat.mul_lt_mul_of_pos_left hpart hqpos
  have hbound := hmul hle
  -- the bound above the part, which is the whole range for the first symbol
  obtain ⟨P, hP⟩ : ∃ P, P = if s = 0 then r else q * (table.getD (s - 1) 0).toNat := ⟨_, rfl⟩
  have hPle : q * upper s table ftb ≤ P ∧ P ≤ r := by
    rw [upper] at hbound ⊢
    split_ifs at hP hbound ⊢ <;> omega
  have hfit : ∀ i ≤ s, q * (table.getD i 0).toNat < 2 ^ 32 := fun i hi => by
    rcases Nat.lt_or_eq_of_le hi with hi | rfl
    · have := hmul (hup i hi).2
      omega
    · omega
  refine ⟨r - P, P - q * (table.getD s 0).toNat, by omega, by omega, fun c hc hv => ?_,
    fun d hd hlo hhi => ?_⟩
  · rw [write, encodeIcdf, hc, ← hq]
    by_cases h0 : s = 0
    · rw [if_pos h0] at hP
      rw [if_neg (by omega), wrappingMul_of_lt (hfit s le_rfl),
        wrappingSub_of_le (by omega) (by omega), hP, Nat.sub_self]
      rfl
    · rw [if_neg h0] at hP
      have hprev : (table.getD s 0).toNat < (table.getD (s - 1) 0).toNat := by
        rwa [upper, if_neg h0] at hpart
      have hbyte := (table.getD (s - 1) 0).toNat_lt
      have hwidth : q * ((table.getD (s - 1) 0).toNat - (table.getD s 0).toNat) =
          P - q * (table.getD s 0).toNat := by rw [hP, Nat.mul_sub]
      rw [if_pos (by omega)]
      dsimp only
      rw [wrappingMul_of_lt (hfit (s - 1) (by omega)), ← hP, wrappingSub_of_le hprev.le (by omega),
        wrappingMul_of_lt (by rw [hwidth]; omega), hwidth,
        wrappingSub_of_le (by omega) (by omega), wrappingAdd_of_lt (by omega)]
  · have hfind : searchIcdf q d.val table r 0 = (P, q * (table.getD s 0).toNat, s) := by
      rw [hP, searchIcdf_eq hs hfit (fun i hi => ?_) (by omega), Nat.zero_add]
      have := hmul (hup i hi).1
      have hupper : P = q * upper s table ftb := by
        rw [hP, upper, if_neg (by omega), if_neg (by omega)]
      omega
    have hval : d.val + (r - P + (P - q * (table.getD s 0).toNat)) - r =
        d.val - q * (table.getD s 0).toNat := by omega
    rw [read, decodeIcdf, hd, ← hq, hfind]
    dsimp only
    rw [wrappingSub_of_le (by omega) (by omega), wrappingSub_of_le (by omega) (by omega), hval]
    exact ⟨rfl, d.ext, rfl⟩

/-! ## Steps -/

/-- What was written so far, and what was written then: a packet with this has that as well, the
    coder that writes goes on to it, and one that reads too, which reads what was written. -/
structure Step (x : Coded) (m m' : Mark) : Prop where
  ranged : m'.Ranged
  before : ∀ b, m'.In b → m.In b
  write : ∀ c : RangeCoder, c.Means m → (x.write c).error = 0 → (x.write c).Means m'
  read : ∀ b d, m'.In b → Reads b d m → x.Tells (x.read d).2 ∧ Reads b (x.read d).1 m'

variable {x : Coded} {m : Mark}

theorem within_normalized (n : Nat) (m : Mark) :
    (m.normalized n).toZoom.Within 256 m.toZoom ∧ (m.normalized n).raw = m.raw ∧
      (m.normalized n).rawLen = m.rawLen := by
  induction n generalizing m with
  | zero => exact ⟨.refl 256 _, rfl, rfl⟩
  | succ n ih =>
    rw [Mark.normalized]
    split_ifs
    · obtain ⟨hw, hraw, hlen⟩ := ih m.zoomed
      exact ⟨hw.trans (Zoom.within_zoom 256 _), hraw, hlen⟩
    · exact ⟨.refl 256 _, rfl, rfl⟩

theorem Narrows.step {a w : Nat} (h : Narrows x m.width a w) (hm : m.Ranged) :
    Step x m ((m.narrowed a w).normalized 3) := by
  have hle := h.le
  have hpos : 0 < (m.narrowed a w).width := h.pos
  have htop : (m.narrowed a w).width ≤ codeTop := by
    have := hm.2
    change w ≤ codeTop
    omega
  obtain ⟨hwithin, hraw, hlen⟩ := within_normalized 3 (m.narrowed a w)
  have hcode {b : List UInt8} (hin : ((m.narrowed a w).normalized 3).In b) :
      (m.narrowed a w).toZoom.Mem (Mark.code b) :=
    hwithin.mem (Mark.code_succ_div b) hin.code
  refine ⟨(Mark.normalized_three hpos htop 0).2, fun b hin => ⟨?_, ?_⟩, fun c hc he => ?_,
    fun b d hin hd => ?_⟩
  · exact (Zoom.within_narrow 256 hle).mem (Mark.code_succ_div b) (hcode hin)
  · have hb := hin.raw
    rw [hraw, hlen] at hb
    exact hb
  · rw [h.write c hc.rng (hc.rng ▸ hc.top)] at he ⊢
    exact (hc.narrowed hle).normalizeEncoder h.pos he
  · obtain ⟨hlo, hhi, -⟩ := hd.narrowed 0 (hcode hin)
    obtain ⟨htells, e, he⟩ := h.read d hd.rng hlo hhi
    rw [he]
    exact ⟨htells, (hd.narrowed e (hcode hin)).2.2.normalizeDecoder (hcode hin) hpos htop⟩

theorem step_bits (v : Nat) {n : Nat} (hn : n ≤ 25) (hm : m.Ranged) :
    Step (.bits v n) m (m.withBits v n) where
  ranged := hm
  before b hin := by
    refine ⟨hin.code, ?_⟩
    have hraw := hin.raw
    change BigEndian.read b % 2 ^ (m.rawLen + n) = m.raw + v % 2 ^ n * 2 ^ m.rawLen at hraw
    have hdvd : 2 ^ m.rawLen ∣ 2 ^ (m.rawLen + n) := pow_dvd_pow 2 (Nat.le_add_right _ _)
    rw [← Nat.mod_mod_of_dvd _ hdvd, hraw, Nat.add_mul_mod_self_right, Nat.mod_eq_of_lt m.raw_lt]
  write c hc he := hc.encBits hn he
  read b d hin hd := hd.decBits hn hin

theorem step_range (fl fh ft : Nat) (hl : fl < fh) (hh : fh ≤ ft) (ht : ft ≤ codeBot)
    (hm : m.Ranged) : ∃ m', Step (.range fl fh ft) m m' := by
  obtain ⟨a, w, h⟩ := narrows_range hl hh ht hm.1 hm.2
  exact ⟨_, h.step hm⟩

/-- A number is written in two parts, of which the second one is its last bits, if it may have more
    than eight. -/
theorem step_uint {fl ft : Nat} (hl : fl < ft) (ht : ft < 2 ^ 32) (hm : m.Ranged) :
    ∃ m', Step (.uint fl ft) m m' := by
  have hbot : codeBot = 0x800000 := rfl
  by_cases h1 : 1 < ft
  · obtain ⟨k, hk⟩ : ∃ k, k = ilog (ft - 1) := ⟨_, rfl⟩
    have hk32 : k ≤ 32 := hk ▸ ilog_le (by omega)
    have hlog : ft - 1 < 2 ^ k := hk ▸ lt_two_pow_ilog (ft - 1)
    by_cases h8 : 8 < k
    · obtain ⟨s, hs⟩ : ∃ s, s = k - 8 := ⟨_, rfl⟩
      have hshift (n : Nat) : n >>> s = n / 2 ^ s := Nat.shiftRight_eq_div_pow n s
      have hpow : 2 ^ k = 256 * 2 ^ s := by
        have hsum : k = 8 + s := by omega
        rw [hsum, pow_add]
        rfl
      have hdiv : (ft - 1) / 2 ^ s < 256 := by
        rw [Nat.div_lt_iff_lt_mul (Nat.two_pow_pos s), ← hpow]
        exact hlog
      have hfl : fl / 2 ^ s ≤ (ft - 1) / 2 ^ s := Nat.div_le_div_right (by omega)
      obtain ⟨m₁, h₁⟩ := step_range (fl / 2 ^ s) (fl / 2 ^ s + 1) ((ft - 1) / 2 ^ s + 1)
        (by omega) (by omega) (by omega) hm
      have h₂ := step_bits (fl % 2 ^ s) (n := s) (by omega) h₁.ranged
      have hlow : fl &&& (1 <<< s - 1) = fl % 2 ^ s := by
        rw [Nat.one_shiftLeft, Nat.and_two_pow_sub_one_eq_mod]
      refine ⟨_, h₂.ranged, fun b hin => h₁.before b (h₂.before b hin), fun c hc he => ?_,
        fun b d hin hd => ?_⟩
      · rw [write, encUint, if_pos h1, ← hk] at he ⊢
        dsimp only at he ⊢
        rw [if_pos h8, ← hs, hshift, hshift, hlow] at he ⊢
        exact h₂.write _ (h₁.write c hc (error_encBits he)) he
      · obtain ⟨⟨hge, hlt⟩, hd₁⟩ := h₁.read b d (h₂.before b hin) hd
        obtain ⟨hbits, hd₂⟩ := h₂.read b _ hin hd₁
        rw [read] at hge hlt hd₁
        have hfs : (d.decode ((ft - 1) / 2 ^ s + 1)).2 = fl / 2 ^ s := by omega
        have hvalue : (fl / 2 ^ s) <<< s ||| fl % 2 ^ s = fl := by
          rw [← Nat.shiftLeft_add_eq_or_of_lt (Nat.mod_lt _ (Nat.two_pow_pos s)), Nat.shiftLeft_eq,
            Nat.div_add_mod']
        have hlast : (((d.decode ((ft - 1) / 2 ^ s + 1)).1.update (fl / 2 ^ s) (fl / 2 ^ s + 1)
            ((ft - 1) / 2 ^ s + 1)).decBits s).2 = fl % 2 ^ s :=
          Eq.trans hbits (Nat.mod_mod _ _)
        rw [read, decUint, if_pos h1, ← hk]
        dsimp only
        rw [if_pos h8, ← hs, hshift, hfs, hlast, hvalue]
        exact ⟨rfl, hd₂⟩
    · have hpow : 2 ^ k ≤ 2 ^ 8 := Nat.pow_le_pow_right (by decide) (by omega)
      obtain ⟨m₁, h₁⟩ := step_range fl (fl + 1) ft (by omega) (by omega) (by omega) hm
      refine ⟨m₁, h₁.ranged, h₁.before, fun c hc he => ?_, fun b d hin hd => ?_⟩
      · rw [write, encUint, if_pos h1, ← hk] at he ⊢
        dsimp only at he ⊢
        rw [if_neg h8] at he ⊢
        exact h₁.write c hc he
      · obtain ⟨⟨hge, hlt⟩, hd₁⟩ := h₁.read b d hin hd
        rw [read] at hge hlt hd₁
        have hfs : (d.decode ft).2 = fl := by omega
        rw [read, decUint, if_pos h1, ← hk]
        dsimp only
        rw [if_neg h8, hfs]
        exact ⟨rfl, hd₁⟩
  · have hft : ft = 1 := by omega
    have hfl : fl = 0 := by omega
    subst hft hfl
    exact ⟨m, hm, fun b hin => hin, fun c hc _ => hc, fun b d _ hd => ⟨rfl, hd⟩⟩

theorem exists_step (hx : x.Valid) (hm : m.Ranged) : ∃ m', Step x m m' := by
  cases x with
  | range fl fh ft => exact step_range fl fh ft hx.1 hx.2.1 hx.2.2 hm
  | bitLogp val logp =>
    obtain ⟨a, w, h⟩ := narrows_bitLogp val hx.1 hx.2 hm.1 hm.2
    exact ⟨_, h.step hm⟩
  | icdf s table ftb =>
    obtain ⟨hf, hs, hpart, hup⟩ := hx
    obtain ⟨a, w, h⟩ := narrows_icdf hf hs hpart hup hm.1 hm.2
    exact ⟨_, h.step hm⟩
  | uint fl ft => exact step_uint hx.1 hx.2 hm
  | bits v n => exact ⟨_, step_bits v hx hm⟩

/-- All of them are written. -/
def writeAll (xs : List Coded) (c : RangeCoder) : RangeCoder := xs.foldl write c

/-- All of them are read. -/
def readAll (xs : List Coded) (d : RangeCoder) : RangeCoder := xs.foldl (fun d x => (x.read d).1) d

theorem error_writeAll {xs : List Coded} {c : RangeCoder} (h : (writeAll xs c).error = 0) :
    c.error = 0 := by
  induction xs generalizing c with
  | nil => exact h
  | cons x xs ih => exact error_write (ih h)

/-- A coder that reads is in step with one that wrote. -/
def InStep (c d : RangeCoder) : Prop := d.rng = c.rng ∧ d.nbitsTotal = c.nbitsTotal

theorem InStep.tell {c d : RangeCoder} (h : InStep c d) : d.tell = c.tell := by
  rw [RangeCoder.tell, RangeCoder.tell, h.1, h.2]

/-- From wherever a packet was written on, and is read on: by induction on what comes, of which
    each step goes the way of the one before, and the packet is complete at the end. -/
theorem written_from {xs : List Coded} (hv : ∀ x ∈ xs, x.Valid) {c : RangeCoder} (hc : c.Means m)
    (hm : m.Ranged) (he : (writeAll xs c).done.error = 0) :
    m.In (writeAll xs c).done.buf ∧
      ∀ d, Reads (writeAll xs c).done.buf d m → ∀ pre x post, xs = pre ++ x :: post →
        InStep (writeAll pre c) (readAll pre d) ∧ x.Tells (x.read (readAll pre d)).2 := by
  induction xs generalizing c m with
  | nil =>
    refine ⟨hc.in_done hm he, fun d _ pre x post h => ?_⟩
    cases pre <;> cases h
  | cons y ys ih =>
    obtain ⟨m', hs⟩ := exists_step (hv y List.mem_cons_self) hm
    have hc' := hs.write c hc (error_writeAll (error_done he))
    obtain ⟨hin, hrest⟩ := ih (fun x hx => hv x (List.mem_cons_of_mem y hx)) hc' hs.ranged he
    refine ⟨hs.before _ hin, fun d hd pre x post h => ?_⟩
    obtain ⟨htells, hd'⟩ := hs.read _ d hin hd
    cases pre with
    | nil =>
      obtain ⟨rfl, rfl⟩ := List.cons.inj h
      exact ⟨⟨hd.rng.trans hc.rng.symm, hd.nbitsTotal.trans hc.nbitsTotal.symm⟩, htells⟩
    | cons z pre =>
      obtain ⟨rfl, htail⟩ := List.cons.inj h
      exact hrest _ hd' pre x post htail

/-- Symbols, numbers and bits are written to a packet in any order. If there is room for all of
    them, each is read of the complete packet as it was written; and each time, before it is, the
    coder that reads has the range and the number of bits of the one that wrote, by which both
    decide what is next. -/
theorem read_written {xs : List Coded} (hv : ∀ x ∈ xs, x.Valid) {size : Nat}
    (he : (writeAll xs (newEncoder size)).done.error = 0) {pre post : List Coded}
    (hxs : xs = pre ++ x :: post) :
    InStep (writeAll pre (newEncoder size))
        (readAll pre (newDecoder (writeAll xs (newEncoder size)).done.buf)) ∧
      x.Tells (x.read
        (readAll pre (newDecoder (writeAll xs (newEncoder size)).done.buf))).2 := by
  have hranged : Mark.Ranged ⟨⟨0, codeTop, 0⟩, 0, 0, Nat.one_pos⟩ := ⟨by decide, le_rfl⟩
  exact (written_from hv (newEncoder_means size) hranged he).2 _ (reads_newDecoder _) pre x post hxs

/-- Symbols and bits. -/
def sample : List Coded :=
  [.bits 5 3, .range 10 20 100, .icdf 1 [192, 128, 64, 0] 8, .bitLogp true 12, .bits 0 2]

theorem valid_sample : ∀ x ∈ sample, x.Valid := by
  simp only [sample, List.forall_mem_cons, Valid]
  refine ⟨by decide, ⟨by decide, by decide, by decide⟩, ⟨by decide, by decide, by decide, ?_⟩,
    ⟨by decide, by decide⟩, by decide, nofun⟩
  intro i hi
  obtain rfl : i = 0 := by omega
  exact ⟨by decide, by decide⟩

/-- They are in a packet of three bytes, whose last one has some from the front and some from the
    end. -/
theorem read_written_sample :
    (writeAll sample (newEncoder 3)).done.buf = [38, 102, 37] ∧
      ((Coded.bitLogp true 12).read
        (readAll (sample.take 3) (newDecoder [38, 102, 37]))).2 = 1 := by
  have hbuf : (writeAll sample (newEncoder 3)).done.buf = [38, 102, 37] := by decide +kernel
  have herror : (writeAll sample (newEncoder 3)).done.error = 0 := by decide +kernel
  have hsplit : sample = sample.take 3 ++ .bitLogp true 12 :: [.bits 0 2] := rfl
  have hread := (read_written valid_sample herror hsplit).2
  rw [hbuf] at hread
  exact ⟨hbuf, hread⟩

end Coded

end Wandr.Opus
