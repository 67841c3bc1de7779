import Wandr.Opus.Encoder

/-!
# Complete packets

A packet is complete once a number in the interval was settled on, and all of its digits that
matter were written. The bits at the end may be in the same byte as the last of those digits, if
they are none of them.

* `lastCode_spec`: the number settled on, and that all those that begin with its digits are in the
  interval;
* `In.of_done`: a complete packet has its number in the interval, and the bits at its end.
-/

namespace Wandr.Opus

/-- The number of a packet, with so many digits more. -/
def Mark.code (b : List UInt8) (n : Nat) : Nat := BigEndian.lead b (n + 4) / 2

/-- A packet has its number in the interval, and the bits at its end. -/
structure Mark.In (b : List UInt8) (m : Mark) : Prop where
  code : m.toZoom.Mem (Mark.code b)
  raw : BigEndian.read b % 2 ^ m.rawLen = m.raw

namespace RangeCoder

variable {c c' c'' : RangeCoder} {m : Mark}

/-! ## The number settled on -/

/-- All but the lowest bits. -/
theorem and_not_mask {x j : Nat} (hx : x < 2 ^ 32) (hj : j ≤ 32) :
    x &&& (2 ^ 32 - 1 - (2 ^ j - 1)) = x / 2 ^ j * 2 ^ j := by
  have hpos := Nat.two_pow_pos j
  have hle : 2 ^ j ≤ 2 ^ 32 := Nat.pow_le_pow_right (by decide) hj
  have hsub : 2 ^ 32 - 1 - (2 ^ j - 1) = 2 ^ 32 - (2 ^ j - 1 + 1) := by omega
  rw [hsub, ← Nat.shiftRight_eq_div_pow, ← Nat.shiftLeft_eq]
  refine Nat.eq_of_testBit_eq fun i => ?_
  rw [Nat.testBit_and, Nat.testBit_two_pow_sub_succ (by omega), Nat.testBit_two_pow_sub_one,
    Nat.testBit_shiftLeft, Nat.testBit_shiftRight]
  by_cases hi : j ≤ i
  · rw [Nat.add_sub_cancel' hi]
    by_cases hi32 : i < 32
    · simp [hi, hi32]
    · have hlt : x.testBit i = false :=
        Nat.testBit_lt_two_pow (hx.trans_le (Nat.pow_le_pow_right (by decide) (by omega)))
      simp [hlt]
  · simp [hi, Nat.lt_of_not_le hi]

/-- The next number whose lowest bits are zeros. -/
theorem aligned (val j : Nat) (hj : j ≤ 31) (hval : val + (2 ^ j - 1) < 2 ^ 32) :
    let last := wrappingAdd val (2 ^ j - 1) &&& (2 ^ 32 - 1 - (2 ^ j - 1))
    last % 2 ^ j = 0 ∧ val ≤ last ∧ last ≤ val + (2 ^ j - 1) ∧
      last ||| (2 ^ j - 1) = last + (2 ^ j - 1) := by
  have hpos := Nat.two_pow_pos j
  rw [wrappingAdd_of_lt hval, and_not_mask hval (by omega)]
  have hdiv := Nat.div_add_mod (val + (2 ^ j - 1)) (2 ^ j)
  have hmod := Nat.mod_lt (val + (2 ^ j - 1)) hpos
  have hor : (val + (2 ^ j - 1)) / 2 ^ j * 2 ^ j ||| (2 ^ j - 1) =
      (val + (2 ^ j - 1)) / 2 ^ j * 2 ^ j + (2 ^ j - 1) := by
    rw [← Nat.shiftLeft_eq, Nat.shiftLeft_add_eq_or_of_lt (by omega)]
  rw [Nat.mul_comm (2 ^ j)] at hdiv
  refine ⟨Nat.mul_mod_left _ _, ?_, ?_, hor⟩ <;> omega

/-- The number settled on, of which the bits that matter are followed by zeros. -/
theorem lastCode_spec (htop : c.val + c.rng ≤ 2 ^ 32) (hbot : codeBot < c.rng)
    (hrng : c.rng ≤ codeTop) {last l : Nat} (h : c.lastCode = (last, l)) :
    l ≤ 9 ∧ last % 2 ^ (31 - l) = 0 ∧ c.val ≤ last ∧ last + 2 ^ (31 - l) ≤ c.val + c.rng ∧
      (l = 0 → last = 0) := by
  have hbot' : codeBot = 2 ^ 23 := rfl
  have hcode : codeTop = 2 ^ 31 := rfl
  have hmask : ∀ l ≤ 9, (codeTop - 1) >>> l = 2 ^ (31 - l) - 1 := by decide
  have hlt := lt_two_pow_ilog c.rng
  have hle := two_pow_ilog_le (n := c.rng) (by omega)
  have h24 : 24 ≤ ilog c.rng := by
    by_contra h
    have := Nat.pow_le_pow_right (n := 2) (by decide) (Nat.le_of_lt_succ (Nat.lt_of_not_le h))
    omega
  have h32 : ilog c.rng ≤ 32 := ilog_le (by omega)
  rw [lastCode] at h
  generalize hk : ilog c.rng = k at *
  have hl8 : 32 - k ≤ 8 := by omega
  have hj : 31 - (32 - k) = k - 1 := by omega
  have hj' : 31 - (32 - k + 1) = k - 2 := by omega
  have hpow : 2 ^ (k - 1) = 2 * 2 ^ (k - 2) := by
    rw [← pow_succ']
    congr 1
    omega
  have hpos := Nat.two_pow_pos (k - 2)
  dsimp only at h
  rw [← Nat.shiftRight_add, hmask _ (by omega), hmask _ (by omega), hj, hj'] at h
  have hfirst := aligned c.val (k - 1) (by omega) (by omega)
  have hnext := aligned c.val (k - 2) (by omega) (by omega)
  dsimp only at hfirst hnext
  split_ifs at h with hbump <;> obtain ⟨rfl, rfl⟩ := Prod.mk.inj h
  · rw [hj']
    refine ⟨by omega, hnext.1, hnext.2.1, by omega, fun hl => by omega⟩
  · rw [hj]
    generalize wrappingAdd c.val (2 ^ (k - 1) - 1) &&& (2 ^ 32 - 1 - (2 ^ (k - 1) - 1)) = e
      at hbump hfirst
    rw [hfirst.2.2.2] at hbump
    have hsum : c.val + c.rng < 2 ^ 32 := by
      by_contra hn
      have hzero : wrappingAdd c.val c.rng = 0 := by
        rw [wrappingAdd]
        omega
      omega
    rw [wrappingAdd_of_lt hsum] at hbump
    refine ⟨by omega, hfirst.1, hfirst.2.1, by omega, fun hl => ?_⟩
    have hk32 : k - 1 = 31 := by omega
    rw [hk32] at hfirst hbump
    omega

/-! ## Its digits -/

/-- Digits were written of a number of which there is less left. -/
structure Sent (c c' : RangeCoder) (last last' n : Nat) : Prop extends Kept c c' where
  depth : c'.held.digits.length = c.held.digits.length + n
  value : BigEndian.read c'.held.digits * codeTop + last' =
    (BigEndian.read c.held.digits * codeTop + last) * 256 ^ n

theorem sent_carryOut {last : Nat} (hlast : last < 2 ^ 32)
    (hcarry : c.rem = none ∨ c.rem = some 255 → last < codeTop) (hs : c.buf.length = c.storage)
    (hr : c.offs + c.endOffs ≤ c.storage)
    (h : (c.carryOut (last >>> codeShift)).error = 0) :
    c.Sent (c.carryOut (last >>> codeShift)) last ((last <<< 8) &&& (codeTop - 1)) 1 := by
  have hcode : codeTop = 0x80000000 := rfl
  have hmask : (last <<< 8) &&& (codeTop - 1) = last % 0x800000 * 256 := by
    rw [Nat.and_two_pow_sub_one_eq_mod _ 31, Nat.shiftLeft_eq]
    omega
  have hx : last >>> codeShift = last / 0x800000 := Nat.shiftRight_eq_div_pow _ 23
  rw [hmask]
  rw [hx] at h ⊢
  have hp := pushed_carryOut hs hr h
  have hlt : last / 0x800000 < 512 := by omega
  have hheld : c.held.rem = none ∨ c.held.rem = some 255 → last / 0x800000 < 256 := fun hr => by
    have := hcarry hr
    omega
  refine ⟨hp.toKept, ?_, ?_⟩
  · rw [hp.held, Held.length_push]
  · rw [hp.held, Held.read_push hlt hheld, hcode, pow_one]
    omega

theorem Sent.trans {l l' l'' n n' : Nat} (h : c.Sent c' l l' n) (h' : c'.Sent c'' l' l'' n') :
    c.Sent c'' l l'' (n + n') where
  toKept := h.toKept.trans h'.toKept
  depth := by rw [h'.depth, h.depth, Nat.add_assoc]
  value := by rw [h'.value, h.value, Nat.mul_assoc, pow_add]

theorem error_flushCode {k last : Nat} {l : Int} (h : (flushCode k c last l).1.error = 0) :
    c.error = 0 := by
  induction k generalizing c last l with
  | zero => exact h
  | succ k ih =>
    rw [flushCode] at h
    split_ifs at h
    · exact error_carryOut (ih h)
    · exact h

/-- All the digits of the number that matter are written. -/
theorem sent_flushCode {last l : Nat} (hl : l ≤ 9) (hmod : last % 2 ^ (31 - l) = 0)
    (hzero : l = 0 → last = 0) (hlast : last < 2 ^ 32)
    (hcarry : c.rem = none ∨ c.rem = some 255 → last < codeTop) (hs : c.buf.length = c.storage)
    (hr : c.offs + c.endOffs ≤ c.storage) (h : (flushCode l c last l).1.error = 0) :
    ∃ n ≤ 2, l ≤ 8 * n ∧ 8 * n ≤ l + 8 ∧ (flushCode l c last l).2 = (l : Int) - 8 * n ∧
      c.Sent (flushCode l c last l).1 last 0 n := by
  have hcode : codeTop = 0x80000000 := rfl
  have hmask (v : Nat) : (v <<< 8) &&& (codeTop - 1) = v % 0x800000 * 256 := by
    rw [Nat.and_two_pow_sub_one_eq_mod _ 31, Nat.shiftLeft_eq]
    omega
  have hstop (k : Nat) (c : RangeCoder) (v : Nat) {l : Int} (hl : ¬ 0 < l) :
      flushCode k c v l = (c, l) := by
    cases k with
    | zero => rfl
    | succ k => rw [flushCode, if_neg hl]
  cases l with
  | zero =>
    refine ⟨0, by decide, by decide, by decide, rfl, .refl hr, rfl, ?_⟩
    rw [hzero rfl, pow_zero, Nat.mul_one]
    rfl
  | succ k =>
    have hpos : (0 : Int) < (k + 1 : Nat) := by omega
    rw [flushCode, if_pos hpos] at h ⊢
    have hsent := sent_carryOut hlast hcarry hs hr (error_flushCode h)
    by_cases h9 : k = 8
    · -- the bits of the number reach into another byte
      subst h9
      have hpos' : (0 : Int) < (8 + 1 : Nat) - 8 := by omega
      rw [flushCode, if_pos hpos', hstop 7 _ _ (by omega)] at h ⊢
      rw [hmask] at hsent h ⊢
      have hlt : last % 0x800000 * 256 < codeTop := by omega
      have hsent' := sent_carryOut (hlt.trans (by decide)) (fun _ => hlt) (hsent.sized hs)
        hsent.room h
      rw [hmask] at hsent'
      have hrest : last % 0x800000 * 256 % 0x800000 * 256 = 0 := by
        change last % 0x400000 = 0 at hmod
        omega
      rw [hrest] at hsent'
      exact ⟨2, by decide, by decide, by decide, rfl, hsent.trans hsent'⟩
    · rw [hstop k _ _ (by omega)] at h ⊢
      refine ⟨1, by decide, by omega, by omega, by push_cast; ring, ?_⟩
      have hrest : last % 0x800000 * 256 = 0 := by
        have hdvd : 2 ^ 23 ∣ 2 ^ (31 - (k + 1)) := pow_dvd_pow 2 (by omega)
        have hmod : last % 2 ^ 23 = 0 :=
          Nat.mod_eq_zero_of_dvd (hdvd.trans (Nat.dvd_of_mod_eq_zero hmod))
        change last % 0x800000 = 0 at hmod
        rw [hmod]
      rw [hmask, hrest] at hsent
      exact hsent

/-- The digits held back are written as well. -/
structure Settled (c c' : RangeCoder) : Prop extends Kept c c' where
  front : c'.front = c.held.digits

theorem error_flushHeld (h : c.flushHeld.error = 0) : c.error = 0 := by
  rw [flushHeld] at h
  split_ifs at h
  · exact error_carryOut h
  · exact h

theorem settled_flushHeld (hs : c.buf.length = c.storage) (hr : c.offs + c.endOffs ≤ c.storage)
    (h : c.flushHeld.error = 0) : c.Settled c.flushHeld := by
  rw [flushHeld] at h ⊢
  split_ifs at h ⊢ with hheld
  · have hp := pushed_carryOut hs hr h
    refine ⟨hp.toKept, ?_⟩
    have hout : (c.held.push 0).out = c.held.digits := by
      have hrem : c.held.rem.map (· + UInt8.ofNat (0 / 256)) = c.held.rem := by
        cases c.held.rem with
        | none => rfl
        | some r => exact congrArg some (UInt8.add_zero r)
      rw [Held.push, if_neg (by decide), hrem]
      rfl
    exact (congrArg Held.out hp.held).trans hout
  · have hrem : c.rem = none := by
      by_contra hr
      exact hheld (.inl (Option.isSome_iff_ne_none.2 hr))
    have hext : c.ext = 0 := by
      by_contra he
      exact hheld (.inr (Nat.pos_of_ne_zero he))
    refine ⟨.refl hr, ?_⟩
    rw [held, hrem, hext]
    exact (List.append_nil _).symm

/-! ## The bytes of a packet -/

theorem buf_clearMiddle (hs : c.buf.length = c.storage) (hr : c.offs + c.endOffs ≤ c.storage) :
    c.clearMiddle.buf =
      c.front ++ (List.replicate (c.storage - c.endOffs - c.offs) 0 ++ c.tail) := by
  have hfront : c.front.length = c.offs := by
    rw [front, List.length_take]
    omega
  have htail : c.tail = c.buf.drop (c.storage - c.endOffs) := by
    rw [tail, List.take_of_length_le]
    rw [List.length_drop, hs]
    omega
  refine List.ext_getElem? fun i => ?_
  rw [clearMiddle, List.getElem?_mapIdx, List.getElem?_append, List.getElem?_append, hfront,
    List.length_replicate, htail, front, List.getElem?_take, List.getElem?_replicate,
    List.getElem?_drop]
  by_cases hmid : c.offs ≤ i ∧ i < c.storage - c.endOffs
  · have hi : i < c.buf.length := by omega
    rw [if_neg (by omega), if_pos (by omega), if_pos (by omega), List.getElem?_eq_getElem hi,
      Option.map_some, if_pos hmid]
  · have hid : Option.map (fun b => if c.offs ≤ i ∧ i < c.storage - c.endOffs then 0 else b)
        c.buf[i]? = c.buf[i]? := by
      simp only [if_neg hmid, Option.map_id']
    rw [hid]
    by_cases hlo : i < c.offs
    · rw [if_pos hlo, if_pos hlo]
    · have hindex :
          c.storage - c.endOffs + (i - c.offs - (c.storage - c.endOffs - c.offs)) = i := by omega
      rw [if_neg hlo, if_neg (by omega), hindex]

/-- The bytes at the front of a packet, which the digits and the bits may share the last one of. -/
structure Laid (b : List UInt8) (ds tail : List UInt8) (w used free : Nat) : Prop where
  lead : ∃ as bs, b = as ++ bs ∧ as.length = ds.length ∧
    ∃ x < 2 ^ free, BigEndian.read as = BigEndian.read ds + x
  raw : BigEndian.read b % 2 ^ (8 * tail.length + used) =
    BigEndian.read tail + w * 256 ^ tail.length

theorem read_lt_two_pow (bs : List UInt8) : BigEndian.read bs < 2 ^ (8 * bs.length) := by
  rw [← pow_256]
  exact BigEndian.read_lt bs

theorem laid_clear {ds tail : List UInt8} (n free : Nat) :
    Laid (ds ++ (List.replicate n 0 ++ tail)) ds tail 0 0 free where
  lead := ⟨ds, _, rfl, rfl, 0, Nat.two_pow_pos free, rfl⟩
  raw := by
    rw [← List.append_assoc, BigEndian.read_append, Nat.add_zero, Nat.zero_mul, Nat.add_zero,
      pow_256, Nat.mul_add_mod_self_right, Nat.mod_eq_of_lt (read_lt_two_pow tail)]

/-- The bits that are left, in a byte of their own or in the bits of the last digit that are
    zeros. -/
theorem laid_rest {as tail : List UInt8} {d : UInt8} {w used : Nat} (hw : w < 2 ^ used)
    (hused : used < 8) (hd : d.toNat % 2 ^ used = 0) :
    BigEndian.read (as ++ ((d ||| UInt8.ofNat w) :: tail)) % 2 ^ (8 * tail.length + used) =
        BigEndian.read tail + w * 256 ^ tail.length ∧
      BigEndian.read (as ++ [d ||| UInt8.ofNat w]) = BigEndian.read (as ++ [d]) + w := by
  have hle : 2 ^ used ≤ 2 ^ 7 := Nat.pow_le_pow_right (by decide) (by omega)
  have hof : (UInt8.ofNat w).toNat = w := by
    rw [UInt8.toNat_ofNat']
    exact Nat.mod_eq_of_lt (by omega)
  obtain ⟨q, hq⟩ := Nat.dvd_of_mod_eq_zero hd
  have hor : (d ||| UInt8.ofNat w).toNat = d.toNat + w := by
    rw [UInt8.toNat_or, hof, hq, Nat.two_pow_add_eq_or_of_lt hw]
  have hcons : (d ||| UInt8.ofNat w) :: tail = [d ||| UInt8.ofNat w] ++ tail := rfl
  have hlt := read_lt_two_pow tail
  refine ⟨?_, ?_⟩
  · rw [hcons, ← List.append_assoc, BigEndian.read_append, BigEndian.read_append_singleton, hor, hq,
      pow_256, pow_add]
    have hsplit : (BigEndian.read as * 256 + (2 ^ used * q + w)) * 2 ^ (8 * tail.length) +
        BigEndian.read tail =
        2 ^ (8 * tail.length) * 2 ^ used * (BigEndian.read as * 2 ^ (8 - used) + q) +
          (BigEndian.read tail + w * 2 ^ (8 * tail.length)) := by
      have h256 : 2 ^ used * 2 ^ (8 - used) = 256 := by
        rw [← pow_add, Nat.add_sub_cancel' hused.le]
        rfl
      rw [← h256]
      ring
    rw [hsplit, Nat.mul_add_mod, Nat.mod_eq_of_lt]
    calc BigEndian.read tail + w * 2 ^ (8 * tail.length)
        < 2 ^ (8 * tail.length) + w * 2 ^ (8 * tail.length) := Nat.add_lt_add_right hlt _
      _ = (w + 1) * 2 ^ (8 * tail.length) := by ring
      _ ≤ 2 ^ used * 2 ^ (8 * tail.length) := Nat.mul_le_mul_right _ hw
      _ = 2 ^ (8 * tail.length) * 2 ^ used := Nat.mul_comm _ _
  · rw [BigEndian.read_append_singleton, BigEndian.read_append_singleton, hor, Nat.add_assoc]

theorem set_append_cons {as bs : List UInt8} {d e : UInt8} {i : Nat} (hi : i = as.length) :
    (as ++ d :: bs).set i e = as ++ e :: bs := by
  rw [hi, List.set_append_right _ _ le_rfl, Nat.sub_self, List.set_cons_zero]

theorem getD_append_cons {as bs : List UInt8} {d : UInt8} {i : Nat} (hi : i = as.length) :
    (as ++ d :: bs).getD i 0 = d := by
  rw [hi, List.getD_append_right _ _ _ _ le_rfl, Nat.sub_self, List.getD_cons_zero]

/-- The bits that are left find their place, or the packet is in error. -/
theorem laid_addRest {w used : Nat} {l : Int} (hs : c.buf.length = c.storage)
    (hr : c.offs + c.endOffs ≤ c.storage) (hw : w < 2 ^ used) (hused : used < 8)
    (hfree : ∀ as d, c.front = as ++ [d] → d.toNat % 2 ^ (-l).toNat = 0)
    (h : (c.clearMiddle.addRest w used l).error = 0) :
    Laid (c.clearMiddle.addRest w used l).buf c.front c.tail w used (-l).toNat := by
  have hfront : c.front.length = c.offs := by
    rw [front, List.length_take]
    omega
  have hbuf := buf_clearMiddle hs hr
  rw [addRest] at h ⊢
  dsimp only at h ⊢
  have hstorage : c.clearMiddle.storage = c.storage := rfl
  have hends : c.clearMiddle.endOffs = c.endOffs := rfl
  have hoffs : c.clearMiddle.offs = c.offs := rfl
  rw [hbuf] at h ⊢
  rw [hstorage, hends, hoffs] at h ⊢
  split_ifs at h ⊢ with hnone hbust
  · cases h
  · cases h
  · dsimp only
    by_cases hgap : c.offs + c.endOffs < c.storage
    · -- in a byte of their own
      obtain ⟨n, hn⟩ : ∃ n, c.storage - c.endOffs - c.offs = n + 1 :=
        ⟨c.storage - c.endOffs - c.offs - 1, by omega⟩
      have hsplit : c.front ++ (List.replicate (n + 1) 0 ++ c.tail) =
          (c.front ++ List.replicate n 0) ++ (0 : UInt8) :: c.tail := by
        rw [List.replicate_succ', List.append_assoc, List.append_assoc]
        rfl
      have hi : c.storage - c.endOffs - 1 = (c.front ++ List.replicate n (0 : UInt8)).length := by
        rw [List.length_append, List.length_replicate, hfront]
        omega
      rw [hn, hsplit, getD_append_cons hi, set_append_cons hi]
      exact ⟨⟨c.front, _, List.append_assoc _ _ _, rfl, 0, Nat.two_pow_pos _, rfl⟩,
        (laid_rest hw hused (Nat.zero_mod _)).1⟩
    · -- in the byte of the last digit, whose bits are zeros
      have hfull : c.storage - c.endOffs - c.offs = 0 := by omega
      have hne : c.front ≠ [] := fun hnil => by
        rw [hnil] at hfront
        change 0 = c.offs at hfront
        omega
      obtain ⟨as, d, hd⟩ := (List.eq_nil_or_concat c.front).resolve_left hne
      have hd : c.front = as ++ [d] := by rw [hd, List.concat_eq_append]
      have hle : used ≤ (-l).toNat := by
        have hlt : ¬ -l < used := fun hl => hbust ⟨by omega, hl⟩
        omega
      have hzero : d.toNat % 2 ^ used = 0 :=
        Nat.mod_eq_zero_of_dvd ((pow_dvd_pow 2 hle).trans (Nat.dvd_of_mod_eq_zero (hfree as d hd)))
      have hi : c.storage - c.endOffs - 1 = as.length := by
        rw [hd, List.length_append, List.length_singleton] at hfront
        omega
      have hsplit : c.front ++ (List.replicate 0 0 ++ c.tail) = as ++ d :: c.tail := by
        rw [hd, List.append_assoc]
        rfl
      obtain ⟨hraw, hlead⟩ := laid_rest hw hused hzero
      rw [hfull, hsplit, getD_append_cons hi, set_append_cons hi]
      refine ⟨⟨as ++ [d ||| UInt8.ofNat w], c.tail, ?_, ?_, w, ?_, ?_⟩, hraw⟩
      · rw [List.append_assoc]
        rfl
      · rw [hd, List.length_append, List.length_append]
        rfl
      · exact hw.trans_le (Nat.pow_le_pow_right (by decide) hle)
      · rw [hlead, ← hd]

theorem error_done (h : c.done.error = 0) : c.error = 0 := by
  rw [done] at h
  dsimp only at h
  split_ifs at h with he
  · exact error_flushCode (error_flushHeld (error_flushEnd he))
  · exact error_flushCode (error_flushHeld (error_flushEnd he))
  · exact absurd h he

/-- A number that begins with the digits of the one settled on, and has no more in the bits that
    are free, is in the interval. -/
theorem mem_of_lead {b ds tail : List UInt8} {w used n l lo top X depth : Nat}
    (hlaid : Laid b ds tail w used (8 * n - l)) (hn : n ≤ 2) (hl : l ≤ 8 * n) (hl9 : l ≤ 9)
    (hdepth : ds.length = depth + n)
    (hds : BigEndian.read ds * codeTop = X * 256 ^ n) (hlo : lo ≤ X)
    (htop : X + 2 ^ (31 - l) ≤ top) :
    lo ≤ BigEndian.lead b (depth + 4) / 2 ∧ BigEndian.lead b (depth + 4) / 2 < top := by
  obtain ⟨as, bs, rfl, hlen, x, hx, hread⟩ := hlaid.lead
  have hsum : depth + 4 = as.length + (4 - n) := by omega
  obtain ⟨t, ht, hlead⟩ := BigEndian.lead_append as bs (4 - n)
  have hcode : codeTop = 2 ^ 31 := rfl
  -- the digits are those of the number, shifted by a bit
  have hX : BigEndian.read ds * 256 ^ (4 - n) = 2 * X := by
    have h256 : 256 ^ n * 256 ^ (4 - n) = 2 ^ 32 := by
      rw [← pow_add, Nat.add_sub_cancel' (by omega)]
      rfl
    have hmul : BigEndian.read ds * 256 ^ (4 - n) * 2 ^ 31 = 2 * X * 2 ^ 31 := by
      rw [Nat.mul_right_comm, ← hcode, hds, Nat.mul_assoc, h256, hcode]
      ring
    exact Nat.eq_of_mul_eq_mul_right (Nat.two_pow_pos 31) hmul
  have hfree : (x + 1) * 256 ^ (4 - n) ≤ 2 * 2 ^ (31 - l) := by
    calc (x + 1) * 256 ^ (4 - n)
        ≤ 2 ^ (8 * n - l) * 256 ^ (4 - n) := Nat.mul_le_mul_right _ hx
      _ = 2 ^ (8 * n - l + 8 * (4 - n)) := by rw [pow_256, ← pow_add]
      _ = 2 ^ (31 - l + 1) := by
        congr 1
        omega
      _ = 2 * 2 ^ (31 - l) := pow_succ' _ _
  rw [hsum, hlead, hread, Nat.add_mul, hX]
  rw [Nat.add_mul, Nat.one_mul] at hfree
  omega

/-- The last digit ends in zeros, where the number settled on does. -/
theorem last_digit {ds as : List UInt8} {d : UInt8} {X n l : Nat} (hl : l ≤ 8 * n)
    (hl' : 8 * n ≤ l + 8) (hl9 : l ≤ 9) (hmod : X % 2 ^ (31 - l) = 0)
    (hds : BigEndian.read ds * codeTop = X * 256 ^ n) (hd : ds = as ++ [d]) :
    d.toNat % 2 ^ (8 * n - l) = 0 := by
  obtain ⟨q, hq⟩ := Nat.dvd_of_mod_eq_zero hmod
  have hread : BigEndian.read ds = 2 ^ (8 * n - l) * q := by
    refine Nat.eq_of_mul_eq_mul_right (Nat.two_pow_pos 31) ?_
    calc BigEndian.read ds * 2 ^ 31
        = 2 ^ (31 - l) * q * 256 ^ n := by rw [← hq, ← hds]; rfl
      _ = 2 ^ (31 - l) * 2 ^ (8 * n) * q := by rw [pow_256]; ring
      _ = 2 ^ (8 * n - l) * 2 ^ 31 * q := by
        rw [← pow_add, ← pow_add]
        congr 2
        omega
      _ = 2 ^ (8 * n - l) * q * 2 ^ 31 := by ring
  have h256 : 2 ^ (8 * n - l) * 2 ^ (8 - (8 * n - l)) = 256 := by
    rw [← pow_add, Nat.add_sub_cancel' (by omega)]
    rfl
  rw [hd, BigEndian.read_append_singleton, ← h256] at hread
  have hdvd : 2 ^ (8 * n - l) ∣ BigEndian.read as * (2 ^ (8 * n - l) * 2 ^ (8 - (8 * n - l))) :=
    ⟨BigEndian.read as * 2 ^ (8 - (8 * n - l)), by ring⟩
  exact Nat.mod_eq_zero_of_dvd ((Nat.dvd_add_right hdvd).1 ⟨q, hread⟩)

/-- A complete packet has its number in the interval that was narrowed down to, and the bits that
    were written at its end. -/
theorem Means.in_done (h : c.Means m) (hm : m.Ranged) (he : c.done.error = 0) :
    m.In c.done.buf := by
  rcases hcode : c.lastCode with ⟨last, l⟩
  obtain ⟨hl9, hmod, hval, htop, hzero⟩ :=
    lastCode_spec h.top (h.rng ▸ hm.1) (h.rng ▸ hm.2) hcode
  have hpos := Nat.two_pow_pos (31 - l)
  have hlt : last < 2 ^ 32 := by
    have := h.top
    omega
  have hcarry : c.rem = none ∨ c.rem = some 255 → last < codeTop := fun hr => by
    have := h.carry hr
    omega
  rw [done, hcode] at he ⊢
  dsimp only at he ⊢
  have hend : (flushEnd ((flushCode l c last l).1.flushHeld.nendBits / 8)
      (flushCode l c last l).1.flushHeld (flushCode l c last l).1.flushHeld.endWindow).1.error =
      0 := by
    by_contra hn
    rw [if_neg hn] at he
    exact hn he
  rw [if_pos hend] at he ⊢
  have hheld := error_flushEnd hend
  obtain ⟨n, hn, hln, hnl, hfree, hsent⟩ :=
    sent_flushCode hl9 hmod hzero hlt hcarry h.size h.room (error_flushHeld hheld)
  generalize flushCode l c last l = r₁ at he hend hheld hfree hsent ⊢
  have hs₁ := hsent.sized h.size
  have hset := settled_flushHeld hs₁ hsent.room hheld
  generalize r₁.1.flushHeld = c₂ at he hend hset ⊢
  have hs₂ := hset.sized hs₁
  have hflush := flushed_flushEnd hs₂ hset.room hend
  generalize flushEnd (c₂.nendBits / 8) c₂ c₂.endWindow = r₃ at he hend hflush ⊢
  have hs₃ := hflush.sized hs₂
  -- what there was before is at both ends of the packet
  have hbits : c₂.nendBits = c.nendBits := by rw [hset.eq, hsent.eq]
  have hwindow : c₂.endWindow = c.endWindow := by rw [hset.eq, hsent.eq]
  have hends : c₂.endOffs = c.endOffs := by rw [hset.eq, hsent.eq]
  have hends₃ : r₃.1.endOffs = c₂.endOffs + c₂.nendBits / 8 := by rw [hflush.eq]
  have hfront : r₃.1.front = r₁.1.held.digits := hflush.front.trans hset.front
  have hlen : r₃.1.tail.length = r₃.1.endOffs := by
    have := hflush.room
    rw [tail, List.length_take, List.length_drop, hs₃]
    omega
  have hw : r₃.2 < 2 ^ (c₂.nendBits % 8) := by
    refine hflush.window_lt ?_ (Nat.div_add_mod c₂.nendBits 8)
    rw [hbits, hwindow]
    exact h.window
  have hfree' : (-r₁.2).toNat = 8 * n - l := by omega
  have hds := hsent.value
  rw [Nat.add_zero] at hds
  have hX : (BigEndian.read c.held.digits * codeTop + last) % 2 ^ (31 - l) = 0 := by
    have htwo : 2 ^ (31 - l) ∣ 2 ^ 31 := pow_dvd_pow 2 (Nat.sub_le 31 l)
    have hdvd : 2 ^ (31 - l) ∣ BigEndian.read c.held.digits * codeTop := Dvd.dvd.mul_left htwo _
    exact Nat.mod_eq_zero_of_dvd (Nat.dvd_add hdvd (Nat.dvd_of_mod_eq_zero hmod))
  have hlaid : Laid (if 0 < c₂.nendBits % 8 then
      r₃.1.clearMiddle.addRest r₃.2 (c₂.nendBits % 8) r₁.2 else r₃.1.clearMiddle).buf
      r₃.1.front r₃.1.tail r₃.2 (c₂.nendBits % 8) (8 * n - l) := by
    split_ifs at he ⊢ with hused
    · rw [← hfree']
      refine laid_addRest hs₃ hflush.room hw (Nat.mod_lt _ (by decide)) (fun as d hd => ?_) he
      rw [hfree']
      exact last_digit hln hnl hl9 hX hds (hfront.symm.trans hd)
    · have hused : c₂.nendBits % 8 = 0 := by omega
      rw [hused] at hw ⊢
      have hw : r₃.2 = 0 := by omega
      rw [hw, buf_clearMiddle hs₃ hflush.room]
      exact laid_clear _ _
  refine ⟨?_, ?_⟩
  · refine mem_of_lead hlaid hn hln hl9 ?_ (hfront ▸ hds) ?_ ?_
    · rw [hfront, hsent.depth, h.depth]
    · rw [h.lo]
      omega
    · rw [h.lo, ← h.rng]
      omega
  · have hraw := hlaid.raw
    have hrawLen : m.rawLen = 8 * r₃.1.tail.length + c₂.nendBits % 8 := by
      have := h.rawLen
      omega
    rw [hrawLen, hraw, hlen, hflush.raw, h.raw, hends, hwindow, hset.tail, hsent.tail]

end RangeCoder

end Wandr.Opus
