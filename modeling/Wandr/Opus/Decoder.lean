import Wandr.Opus.Packet

/-!
# What a range coder reads

A coder that reads a packet holds how far the number of the packet is below the top of the
interval that was narrowed down to so far, and some of the bits at the end of the packet.

* `Reads.shiftIn`: another digit is read;
* `Reads.narrowed`: a part of the interval, if the number is in it;
* `Reads.decBits`: bits are read that were written.
-/

namespace Wandr.Opus

namespace Mark

variable {m : Mark} {b : List UInt8}

theorem normalized_of_lt (h : codeBot < m.width) (n : Nat) : m.normalized n = m := by
  cases n with
  | zero => rfl
  | succ n => rw [normalized, if_neg (by omega)]

theorem normalized_of_le (h : m.width ≤ codeBot) (n : Nat) :
    m.normalized (n + 1) = m.zoomed.normalized n := by
  rw [normalized, if_pos h]

/-- Three digits are enough. -/
theorem normalized_three (hpos : 0 < m.width) (htop : m.width ≤ codeTop) (n : Nat) :
    m.normalized (n + 3) = m.normalized 3 ∧ (m.normalized 3).Ranged := by
  have hbot : codeBot = 0x800000 := rfl
  have hcode : codeTop = 0x80000000 := rfl
  have hw₁ : m.zoomed.width = m.width * 256 := rfl
  have hw₂ : m.zoomed.zoomed.width = m.width * 256 * 256 := rfl
  have hw₃ : m.zoomed.zoomed.zoomed.width = m.width * 256 * 256 * 256 := rfl
  by_cases h₁ : codeBot < m.width
  · rw [normalized_of_lt h₁, normalized_of_lt h₁]
    exact ⟨rfl, h₁, htop⟩
  · have h₁ : m.width ≤ codeBot := Nat.le_of_not_lt h₁
    rw [normalized_of_le h₁ (n + 2), normalized_of_le h₁ 2]
    by_cases h₂ : codeBot < m.zoomed.width
    · rw [normalized_of_lt h₂, normalized_of_lt h₂]
      exact ⟨rfl, h₂, by omega⟩
    · have h₂ : m.zoomed.width ≤ codeBot := Nat.le_of_not_lt h₂
      rw [normalized_of_le h₂ (n + 1), normalized_of_le h₂ 1]
      by_cases h₃ : codeBot < m.zoomed.zoomed.width
      · rw [normalized_of_lt h₃, normalized_of_lt h₃]
        exact ⟨rfl, h₃, by omega⟩
      · have h₃ : m.zoomed.zoomed.width ≤ codeBot := Nat.le_of_not_lt h₃
        have h₄ : codeBot < m.zoomed.zoomed.zoomed.width := by omega
        rw [normalized_of_le h₃ n, normalized_of_le h₃ 0, normalized_of_lt h₄,
          normalized_of_lt h₄]
        exact ⟨rfl, h₄, by omega⟩

theorem code_succ_div (b : List UInt8) (n : Nat) : code b (n + 1) / 256 = code b n := by
  have hlead := BigEndian.lead_succ b (n + 4)
  have hbyte := (b.getD (n + 4) 0).toNat_lt
  have hadd : n + 1 + 4 = n + 4 + 1 := by omega
  rw [code, code, hadd]
  omega

/-- A number that is in an interval is in it with one more digit, and with all that are read. -/
theorem mem_zoomed (h : m.toZoom.Mem (code b)) : m.zoomed.toZoom.Mem (code b) := by
  have hdiv := code_succ_div b m.depth
  obtain ⟨hlo, hhi⟩ := h
  refine ⟨?_, ?_⟩
  · change m.lo * 256 ≤ code b (m.depth + 1)
    omega
  · change code b (m.depth + 1) < m.lo * 256 + m.width * 256
    omega

end Mark

namespace RangeCoder

open BigEndian

variable {b : List UInt8} {d : RangeCoder} {m : Mark}

/-! ## The number of a packet -/

/-- So many bytes were read, and how far the number of them is below a bound. -/
structure ReadsFront (b : List UInt8) (d : RangeCoder) (n top : Nat) : Prop where
  buf : d.buf = b
  storage : d.storage = b.length
  offs : d.offs = min (n + 1) b.length
  rem : d.rem = some (b.getD n 0)
  val : d.val + lead b (n + 1) / 2 + 1 = top

theorem readByte_eq {n : Nat} (hb : d.buf = b) (hs : d.storage = b.length)
    (ho : d.offs = min n b.length) :
    d.readByte = ({ d with offs := min (n + 1) b.length }, b.getD n 0) := by
  rw [readByte]
  split_ifs with h
  · have hn : d.offs = n := by omega
    have hmin : min (n + 1) b.length = n + 1 := by omega
    rw [hb, hn, hmin]
  · have hn : b.length ≤ n := by omega
    have hmin : min (n + 1) b.length = d.offs := by omega
    rw [hmin, List.getD_eq_default _ _ hn]

/-- Another digit, which is one bit of the byte before and the others of the next one. -/
theorem ReadsFront.shiftIn {n top : Nat} (h : ReadsFront b d n top) (hval : d.val < codeBot) :
    ReadsFront b d.shiftIn (n + 1) (top * 256) := by
  have hbot : codeBot = 0x800000 := rfl
  have hcode : codeTop = 0x80000000 := rfl
  have hprev := lead_succ b n
  have hnext := lead_succ b (n + 1)
  have hread := readByte_eq h.buf h.storage h.offs
  have htop := h.val
  have hsym := (b.getD n 0).toNat_lt
  have hbyte := (b.getD (n + 1) 0).toNat_lt
  rw [RangeCoder.shiftIn, hread, h.rem]
  refine ⟨h.buf, h.storage, rfl, rfl, ?_⟩
  dsimp only [Option.getD_some]
  generalize (b.getD n 0).toNat = s at hprev hsym ⊢
  generalize (b.getD (n + 1) 0).toNat = t at hnext hbyte ⊢
  generalize lead b n = p at hprev
  generalize lead b (n + 1) = q at hprev hnext htop
  rw [hnext]
  have hcomb : (s <<< 8 ||| t) >>> 1 &&& symMax = (s * 256 + t) / 2 % 256 := by
    rw [← Nat.shiftLeft_add_eq_or_of_lt (by omega), Nat.shiftLeft_eq, Nat.shiftRight_eq_div_pow,
      Nat.and_two_pow_sub_one_eq_mod _ 8]
  rw [hcomb, Nat.and_two_pow_sub_one_eq_mod _ 31, wrappingAdd, Nat.shiftLeft_eq]
  have hmax : symMax = 255 := rfl
  omega

/-- What does not come of the next byte. -/
theorem ReadsFront.shiftIn_eq {n top : Nat} (h : ReadsFront b d n top) :
    d.shiftIn = { d with
      offs := d.shiftIn.offs
      rem := d.shiftIn.rem
      val := d.shiftIn.val
      rng := d.rng <<< 8
      nbitsTotal := d.nbitsTotal + 8 } := by
  rw [RangeCoder.shiftIn, readByte_eq h.buf h.storage h.offs]

/-- A packet is read up to a mark. -/
structure Reads (b : List UInt8) (d : RangeCoder) (m : Mark) : Prop where
  front : ReadsFront b d (m.depth + 3) (m.lo + m.width)
  rng : d.rng = m.width
  window : d.endWindow = read b / 2 ^ m.rawLen % 2 ^ d.nendBits
  bits : d.nendBits ≤ 32
  endOffs : d.endOffs ≤ b.length
  ends : 8 * d.endOffs = m.rawLen + d.nendBits ∨
    d.endOffs = b.length ∧ 8 * b.length ≤ m.rawLen + d.nendBits
  nbitsTotal : d.nbitsTotal = 33 + 8 * m.depth + m.rawLen

theorem Reads.val_lt (h : Reads b d m) (hmem : m.toZoom.Mem (Mark.code b)) :
    d.val < m.width := by
  have hval := h.front.val
  have hlo := hmem.1
  rw [Mark.code] at hlo
  change d.val + lead b (m.depth + 4) / 2 + 1 = m.lo + m.width at hval
  omega

theorem Reads.shiftIn (h : Reads b d m) (hmem : m.toZoom.Mem (Mark.code b))
    (hsmall : m.width ≤ codeBot) : Reads b d.shiftIn m.zoomed := by
  have hval := h.val_lt hmem
  have hfront := h.front.shiftIn (by omega)
  have heq := h.front.shiftIn_eq
  refine ⟨?_, ?_, ?_, ?_, ?_, ?_, ?_⟩
  · change ReadsFront b d.shiftIn (m.depth + 1 + 3) (m.lo * 256 + m.width * 256)
    rw [← Nat.add_mul, Nat.add_right_comm]
    exact hfront
  · rw [heq]
    change d.rng <<< 8 = m.width * 256
    rw [Nat.shiftLeft_eq, h.rng]
  · rw [heq]
    exact h.window
  · rw [heq]
    exact h.bits
  · rw [heq]
    exact h.endOffs
  · rw [heq]
    exact h.ends
  · have := h.nbitsTotal
    rw [heq]
    change d.nbitsTotal + 8 = 33 + 8 * (m.depth + 1) + m.rawLen
    omega

/-- Digits are read as long as the interval is small. -/
theorem Reads.normalizeDecoder (h : Reads b d m) (hmem : m.toZoom.Mem (Mark.code b))
    (hpos : 0 < m.width) (htop : m.width ≤ codeTop) :
    Reads b (RangeCoder.normalizeDecoder d) (m.normalized 3) := by
  have hgo (n : Nat) {d : RangeCoder} {m : Mark} (h : Reads b d m)
      (hmem : m.toZoom.Mem (Mark.code b)) (hbot : codeBot < (m.normalized n).width) :
      Reads b (RangeCoder.normalizeDecoder.go n d) (m.normalized n) := by
    induction n generalizing d m with
    | zero =>
      have hrng := h.rng
      have hbot : codeBot < m.width := hbot
      rw [RangeCoder.normalizeDecoder.go, if_neg (by omega)]
      exact h
    | succ n ih =>
      rw [RangeCoder.normalizeDecoder.go, h.rng]
      rw [Mark.normalized] at hbot ⊢
      split_ifs at hbot ⊢ with hsmall
      · exact ih (h.shiftIn hmem hsmall) (Mark.mem_zoomed hmem) hbot
      · exact h
  obtain ⟨heq, hranged⟩ := Mark.normalized_three hpos htop 97
  have hd := hgo 100 h hmem (heq ▸ hranged.1)
  rw [heq] at hd
  exact hd

/-- The first four bytes are read. -/
theorem reads_newDecoder (b : List UInt8) :
    Reads b (newDecoder b) ⟨⟨0, codeTop, 0⟩, 0, 0, Nat.one_pos⟩ := by
  have hbot : codeBot = 0x800000 := rfl
  obtain ⟨c, hc⟩ : ∃ c : RangeCoder, c =
      { buf := b, storage := b.length, nbitsTotal := 9, rng := 128, offs := min 1 b.length,
        rem := some (b.getD 0 0), val := 127 - (b.getD 0 0).toNat / 2 } := ⟨_, rfl⟩
  have hnew : newDecoder b = normalizeDecoder c := by
    have hread := readByte_eq (b := b) (n := 0)
      (d := { buf := b, storage := b.length, nbitsTotal := 9, rng := 1 <<< 7 }) rfl rfl
      (Nat.zero_min _).symm
    have hbyte := (b.getD 0 0).toNat_lt
    have hhalf : (b.getD 0 0).toNat >>> 1 = (b.getD 0 0).toNat / 2 := Nat.shiftRight_eq_div_pow _ 1
    have hrng : wrappingSub (1 <<< 7) 1 = 127 := by decide
    rw [newDecoder, hread]
    dsimp only
    rw [hrng, hhalf, wrappingSub_of_le (by omega) (by decide), hc]
    rfl
  have hfront : ReadsFront b c 0 128 := by
    have hlead := lead_succ b 0
    have hzero : lead b 0 = 0 := by
      rw [lead, List.take_zero]
      exact Nat.zero_mul _
    have hbyte := (b.getD 0 0).toNat_lt
    rw [hc]
    refine ⟨rfl, rfl, rfl, rfl, ?_⟩
    dsimp only
    omega
  -- the range grows to its full size
  have hrng : c.rng = 128 := by rw [hc]
  have h₁ := hfront.shiftIn (by have := hfront.val; omega)
  have h₂ := h₁.shiftIn (by have := h₁.val; omega)
  have h₃ := h₂.shiftIn (by have := h₂.val; omega)
  have e₁ := hfront.shiftIn_eq
  have e₂ := h₁.shiftIn_eq
  have e₃ := h₂.shiftIn_eq
  have r₁ : c.shiftIn.rng = 0x8000 := by
    rw [e₁, hrng]
    rfl
  have r₂ : c.shiftIn.shiftIn.rng = 0x800000 := by
    rw [e₂, r₁]
    rfl
  have r₃ : c.shiftIn.shiftIn.shiftIn.rng = 0x80000000 := by
    rw [e₃, r₂]
    rfl
  have hgo : normalizeDecoder c = c.shiftIn.shiftIn.shiftIn := by
    rw [normalizeDecoder, normalizeDecoder.go, if_pos (by omega), normalizeDecoder.go,
      if_pos (by omega), normalizeDecoder.go, if_pos (by omega), normalizeDecoder.go,
      if_neg (by omega)]
  rw [hnew, hgo]
  refine ⟨h₃, r₃, ?_, ?_, ?_, ?_, ?_⟩ <;> rw [e₃, e₂, e₁, hc]
  · rw [pow_zero, Nat.mod_one]
  · exact Nat.zero_le _
  · exact Nat.zero_le _
  · exact .inl rfl
  · rfl

/-- A part of the interval, if the number is in it. -/
theorem Reads.narrowed (h : Reads b d m) {a w : Nat} (e : Nat)
    (hmem : (m.narrowed a w).toZoom.Mem (Mark.code b)) :
    m.width ≤ d.val + (a + w) ∧ d.val + a < m.width ∧
      Reads b { d with ext := e, val := d.val + (a + w) - m.width, rng := w } (m.narrowed a w) := by
  have hval := h.front.val
  obtain ⟨hlo, hhi⟩ := hmem
  change m.lo + a ≤ lead b (m.depth + 4) / 2 at hlo
  change lead b (m.depth + 4) / 2 < m.lo + a + w at hhi
  change d.val + lead b (m.depth + 4) / 2 + 1 = m.lo + m.width at hval
  refine ⟨by omega, by omega, ⟨h.front.buf, h.front.storage, h.front.offs, h.front.rem, ?_⟩, rfl,
    h.window, h.bits, h.endOffs, h.ends, h.nbitsTotal⟩
  change d.val + (a + w) - m.width + lead b (m.depth + 4) / 2 + 1 = m.lo + a + w
  omega

/-! ## The bits at the end -/

/-- A byte counted from the end. -/
theorem read_div_mod {n : Nat} (h : n < b.length) :
    read b / 256 ^ n % 256 = (b.getD (b.length - (n + 1)) 0).toNat := by
  obtain ⟨i, hi⟩ : ∃ i, i + (n + 1) = b.length := ⟨b.length - (n + 1), by omega⟩
  have hlt : i < b.length := by omega
  have hlen : (b.drop (i + 1)).length = n := by
    rw [List.length_drop]
    omega
  have hsplit : b = b.take i ++ [b[i]] ++ b.drop (i + 1) := by
    rw [List.take_append_getElem hlt, List.take_append_drop]
  have hread := congrArg read hsplit
  rw [read_append, read_append_singleton, hlen] at hread
  have htail := read_lt (b.drop (i + 1))
  rw [hlen] at htail
  have hbyte := b[i].toNat_lt
  rw [← hi, Nat.add_sub_cancel, List.getD_eq_getElem _ _ hlt, hread, Nat.add_comm,
    Nat.add_mul_div_right _ _ (Nat.pow_pos (by decide)), Nat.div_eq_of_lt htail]
  omega

/-- The window holds bits of the packet from a place on. -/
structure ReadsEnd (b : List UInt8) (d : RangeCoder) (p : Nat) : Prop where
  buf : d.buf = b
  storage : d.storage = b.length
  window : d.endWindow = read b / 2 ^ p % 2 ^ d.nendBits
  bits : d.nendBits ≤ 32
  endOffs : d.endOffs ≤ b.length
  ends : 8 * d.endOffs = p + d.nendBits ∨ d.endOffs = b.length ∧ 8 * b.length ≤ p + d.nendBits

/-- Nothing but the window changed. -/
def Filled (d d' : RangeCoder) : Prop :=
  ∃ endOffs endWindow nendBits, d' = { d with endOffs, endWindow, nendBits }

theorem Filled.trans {d d' d'' : RangeCoder} (h : Filled d d') (h' : Filled d' d'') :
    Filled d d'' := by
  obtain ⟨e, w, n, rfl⟩ := h
  obtain ⟨e', w', n', rfl⟩ := h'
  exact ⟨e', w', n', rfl⟩

/-- The next byte is put into the window, as long as there is one. -/
theorem ReadsEnd.fillByte {p : Nat} (h : ReadsEnd b d p) (hroom : d.nendBits ≤ 24) :
    ReadsEnd b d.fillByte p ∧ d.fillByte.nendBits = d.nendBits + 8 ∧ Filled d d.fillByte := by
  have hends := h.endOffs
  have hwindow : d.endWindow < 2 ^ d.nendBits := by
    rw [h.window]
    exact Nat.mod_lt _ (Nat.two_pow_pos _)
  have hadd (byte : UInt8) :
      d.endWindow ||| byte.toNat <<< d.nendBits = d.endWindow + 2 ^ d.nendBits * byte.toNat := by
    rw [Nat.or_comm, ← Nat.shiftLeft_add_eq_or_of_lt hwindow, Nat.shiftLeft_eq, Nat.add_comm,
      Nat.mul_comm]
  have hmod (x : Nat) : x % 2 ^ (d.nendBits + 8) =
      x % 2 ^ d.nendBits + 2 ^ d.nendBits * (x / 2 ^ d.nendBits % 256) := by
    rw [pow_add, Nat.mod_mul]
    rfl
  rw [RangeCoder.fillByte, readByteAtEnd]
  split_ifs with hlt
  · rw [h.storage] at hlt
    have hpos : 8 * d.endOffs = p + d.nendBits := by
      have := h.ends
      omega
    refine ⟨⟨h.buf, h.storage, ?_, by dsimp only; omega, ?_, .inl ?_⟩, rfl,
      ⟨_, _, _, rfl⟩⟩ <;> dsimp only
    · rw [hadd, hmod, h.storage, h.buf, ← h.window, Nat.div_div_eq_div_mul, ← pow_add, ← hpos,
        ← pow_256, read_div_mod hlt]
    · omega
    · omega
  · rw [h.storage] at hlt
    have hend : d.endOffs = b.length := by omega
    have hle : 8 * b.length ≤ p + d.nendBits := by
      have := h.ends
      omega
    have hzero : read b / 2 ^ p / 2 ^ d.nendBits = 0 := by
      rw [Nat.div_div_eq_div_mul, ← pow_add]
      refine Nat.div_eq_of_lt ((read_lt b).trans_le ?_)
      rw [pow_256]
      exact Nat.pow_le_pow_right (by decide) hle
    refine ⟨⟨h.buf, h.storage, ?_, by dsimp only; omega, h.endOffs, .inr ⟨hend, ?_⟩⟩, rfl,
      ⟨_, _, _, rfl⟩⟩ <;> dsimp only
    · rw [hadd, hmod, hzero, ← h.window]
      rfl
    · omega

/-- The window is full enough for up to 25 bits. -/
theorem ReadsEnd.fillWindow {p n : Nat} (h : ReadsEnd b d p) (hroom : d.nendBits ≤ 24)
    (hn : 24 < d.nendBits + 8 * n) :
    ReadsEnd b (RangeCoder.fillWindow n d) p ∧ 24 < (RangeCoder.fillWindow n d).nendBits ∧
      Filled d (RangeCoder.fillWindow n d) := by
  induction n generalizing d with
  | zero => omega
  | succ n ih =>
    obtain ⟨hf, hbits, hfilled⟩ := h.fillByte hroom
    rw [RangeCoder.fillWindow]
    split_ifs with hfull
    · exact ⟨hf, hfull, hfilled⟩
    · obtain ⟨hr, hlt, hfilled'⟩ := ih hf (by omega) (by omega)
      exact ⟨hr, hlt, hfilled.trans hfilled'⟩

theorem Reads.readsEnd (h : Reads b d m) : ReadsEnd b d m.rawLen :=
  ⟨h.front.buf, h.front.storage, h.window, h.bits, h.endOffs, h.ends⟩

/-- Bits are read as they were written. -/
theorem Reads.decBits (h : Reads b d m) {v n : Nat} (hn : n ≤ 25) (hin : (m.withBits v n).In b) :
    (d.decBits n).2 = v % 2 ^ n ∧ Reads b (d.decBits n).1 (m.withBits v n) := by
  rw [RangeCoder.decBits]
  by_cases h0 : n = 0
  · subst h0
    rw [if_pos rfl, pow_zero, Nat.mod_one, m.withBits_zero]
    exact ⟨rfl, h⟩
  · rw [if_neg h0]
    -- the window holds enough bits, filled or not
    obtain ⟨d', hd', hread, hlt, hfilled⟩ :
        ∃ d', d' = (if d.nendBits < n then fillWindow 4 d else d) ∧
          ReadsEnd b d' m.rawLen ∧ n ≤ d'.nendBits ∧ Filled d d' := by
      refine ⟨_, rfl, ?_⟩
      split_ifs with hfew
      · obtain ⟨hr, hfull, hfilled⟩ := h.readsEnd.fillWindow (n := 4) (by omega) (by omega)
        exact ⟨hr, by omega, hfilled⟩
      · exact ⟨h.readsEnd, Nat.le_of_not_lt hfew, _, _, _, rfl⟩
    dsimp only
    rw [← hd']
    have hraw := hin.raw
    change read b % 2 ^ (m.rawLen + n) = m.raw + v % 2 ^ n * 2 ^ m.rawLen at hraw
    have hpow : 2 ^ d'.nendBits = 2 ^ n * 2 ^ (d'.nendBits - n) := by
      rw [← pow_add, Nat.add_sub_cancel' hlt]
    have hvalue : read b / 2 ^ m.rawLen % 2 ^ n = v % 2 ^ n := by
      rw [← Nat.mod_mul_right_div_self, ← pow_add, hraw, Nat.add_mul_div_right _ _
        (Nat.two_pow_pos _), Nat.div_eq_of_lt m.raw_lt, Nat.zero_add]
    have hends := hread.ends
    have hbits := hread.bits
    refine ⟨?_, ?_, ?_, ?_, ?_, hread.endOffs, ?_, ?_⟩
    · rw [Nat.one_shiftLeft, Nat.and_two_pow_sub_one_eq_mod, hread.window,
        Nat.mod_mod_of_dvd _ ⟨_, hpow⟩, hvalue]
    · obtain ⟨e, w, k, rfl⟩ := hfilled
      exact ⟨h.front.buf, h.front.storage, h.front.offs, h.front.rem, h.front.val⟩
    · obtain ⟨e, w, k, rfl⟩ := hfilled
      exact h.rng
    · change d'.endWindow >>> n = read b / 2 ^ (m.rawLen + n) % 2 ^ (d'.nendBits - n)
      rw [Nat.shiftRight_eq_div_pow, hread.window, hpow, Nat.mod_mul_right_div_self,
        Nat.div_div_eq_div_mul, ← pow_add]
    · dsimp only
      omega
    · change 8 * d'.endOffs = m.rawLen + n + (d'.nendBits - n) ∨
        d'.endOffs = b.length ∧ 8 * b.length ≤ m.rawLen + n + (d'.nendBits - n)
      omega
    · obtain ⟨e, w, k, rfl⟩ := hfilled
      have := h.nbitsTotal
      change d.nbitsTotal + n = 33 + 8 * m.depth + (m.rawLen + n)
      omega

end RangeCoder

end Wandr.Opus
