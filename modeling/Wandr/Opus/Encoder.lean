import Wandr.Opus.RangeCoder

/-!
# What a range coder writes

What was written to a packet so far is an interval, in which the number of the packet is to be, and
the bits that were written from the back. Each symbol narrows the interval down, and each digit that
is written scales it up; what the bytes at both ends of the packet and the rest of the coder stand
for is always that.

* `Means.shiftOut`: a digit is written, and what it carries, of an interval that gets no other one;
* `Means.encBits`: bits are written behind those before.
-/

namespace Wandr.Opus

/-- What was written so far: an interval for the number of the packet, and the bits. -/
structure Mark extends Zoom where
  raw : Nat
  rawLen : Nat
  raw_lt : raw < 2 ^ rawLen

namespace Mark

variable (m : Mark)

def narrowed (a w : Nat) : Mark := { m with toZoom := m.toZoom.narrow a w }

def zoomed : Mark := { m with toZoom := m.toZoom.zoom 256 }

/-- The interval is scaled up while it is small. -/
def normalized : Nat → Mark → Mark
  | 0, m => m
  | n + 1, m => if m.width ≤ codeBot then normalized n m.zoomed else m

theorem raw_add_lt (v n : Nat) : m.raw + v % 2 ^ n * 2 ^ m.rawLen < 2 ^ (m.rawLen + n) := by
  have hv : v % 2 ^ n + 1 ≤ 2 ^ n := Nat.mod_lt _ (Nat.two_pow_pos n)
  calc m.raw + v % 2 ^ n * 2 ^ m.rawLen
      < 2 ^ m.rawLen + v % 2 ^ n * 2 ^ m.rawLen := Nat.add_lt_add_right m.raw_lt _
    _ = (v % 2 ^ n + 1) * 2 ^ m.rawLen := by ring
    _ ≤ 2 ^ n * 2 ^ m.rawLen := Nat.mul_le_mul_right _ hv
    _ = 2 ^ (m.rawLen + n) := by ring

/-- Bits behind those before. -/
def withBits (v n : Nat) : Mark where
  toZoom := m.toZoom
  raw := m.raw + v % 2 ^ n * 2 ^ m.rawLen
  rawLen := m.rawLen + n
  raw_lt := m.raw_add_lt v n

theorem withBits_zero (v : Nat) : m.withBits v 0 = m := by
  have hraw : m.raw + v % 2 ^ 0 * 2 ^ m.rawLen = m.raw := by
    rw [pow_zero, Nat.mod_one, Nat.zero_mul, Nat.add_zero]
  obtain ⟨z, raw, rawLen, hlt⟩ := m
  simp only [withBits, hraw, Nat.add_zero]

/-- An interval as it is between two symbols. -/
def Ranged : Prop := codeBot < m.width ∧ m.width ≤ codeTop

end Mark

namespace RangeCoder

variable {c c' c'' : RangeCoder} {m : Mark}

/-- The bytes at the front. -/
def front (c : RangeCoder) : List UInt8 := c.buf.take c.offs

/-- The bytes at the end. -/
def tail (c : RangeCoder) : List UInt8 :=
  (c.buf.drop (c.storage - c.endOffs)).take c.endOffs

/-- The digits so far. -/
def held (c : RangeCoder) : Held := ⟨c.front, c.rem, c.ext⟩

/-- What a coder stands for, if all of it has found room so far. -/
structure Means (c : RangeCoder) (m : Mark) : Prop where
  error : c.error = 0
  room : c.offs + c.endOffs ≤ c.storage
  size : c.buf.length = c.storage
  depth : c.held.digits.length = m.depth
  lo : m.lo = BigEndian.read c.held.digits * codeTop + c.val
  rng : c.rng = m.width
  top : c.val + c.rng ≤ 2 ^ 32
  carry : c.rem = none ∨ c.rem = some 255 → c.val + c.rng ≤ codeTop
  raw : m.raw = BigEndian.read c.tail + c.endWindow * 256 ^ c.endOffs
  window : c.endWindow < 2 ^ c.nendBits
  bits : c.nendBits ≤ 32
  rawLen : m.rawLen = 8 * c.endOffs + c.nendBits
  nbitsTotal : c.nbitsTotal = 33 + 8 * m.depth + m.rawLen

theorem newEncoder_means (size : Nat) :
    (newEncoder size).Means ⟨⟨0, codeTop, 0⟩, 0, 0, Nat.one_pos⟩ := by
  have hread : BigEndian.read [] = 0 := rfl
  have htop : 0 + codeTop ≤ 2 ^ 32 := by decide
  have hcarry : 0 + codeTop ≤ codeTop := (Nat.zero_add codeTop).le
  refine ⟨rfl, Nat.zero_le _, List.length_replicate, rfl, ?_, rfl, htop, fun _ => hcarry, ?_,
    Nat.one_pos, Nat.zero_le _, rfl, rfl⟩
  · change 0 = BigEndian.read [] * codeTop + 0
    rw [hread, Nat.zero_mul]
  · change 0 = BigEndian.read (List.take 0 _) + 0 * 256 ^ 0
    rw [List.take_zero, hread, Nat.zero_mul]

/-! ## Bytes at the front -/

/-- Nothing changed but the bytes at the front and those that are held back. -/
structure Kept (c c' : RangeCoder) : Prop where
  eq : c' = { c with buf := c'.buf, offs := c'.offs, rem := c'.rem, ext := c'.ext }
  tail : c'.tail = c.tail
  size : c'.buf.length = c.buf.length
  room : c'.offs + c'.endOffs ≤ c'.storage

theorem Kept.refl (h : c.offs + c.endOffs ≤ c.storage) : c.Kept c := ⟨rfl, rfl, rfl, h⟩

theorem Kept.trans (h : c.Kept c') (h' : c'.Kept c'') : c.Kept c'' where
  eq := by rw [h'.eq, h.eq]
  tail := h'.tail.trans h.tail
  size := h'.size.trans h.size
  room := h'.room

theorem Kept.sized (h : c.Kept c') (hs : c.buf.length = c.storage) :
    c'.buf.length = c'.storage := by
  rw [h.size, hs, h.eq]

/-- Bytes were written at the front, and none are held back but those before. -/
structure Wrote (c c' : RangeCoder) (bs : List UInt8) : Prop extends Kept c c' where
  front : c'.front = c.front ++ bs
  ext : c'.ext = c.ext

theorem Wrote.refl (h : c.offs + c.endOffs ≤ c.storage) : c.Wrote c [] :=
  ⟨.refl h, (List.append_nil _).symm, rfl⟩

theorem Wrote.trans {as bs : List UInt8} (h : c.Wrote c' as) (h' : c'.Wrote c'' bs) :
    c.Wrote c'' (as ++ bs) where
  toKept := h.toKept.trans h'.toKept
  front := by rw [h'.front, h.front, List.append_assoc]
  ext := h'.ext.trans h.ext

theorem wrote_writeByte {value : UInt8} (hs : c.buf.length = c.storage)
    (h : (c.writeByte value).error = 0) : c.Wrote (c.writeByte value) [value] := by
  rw [writeByte] at h ⊢
  split_ifs at h ⊢ with hlt
  · have hoffs : c.offs < (c.buf.set c.offs value).length := by
      rw [List.length_set, hs]
      omega
    refine ⟨⟨rfl, ?_, List.length_set, ?_⟩, ?_, rfl⟩
    · rw [tail, tail]
      dsimp only
      rw [List.drop_set_of_lt (by omega)]
    · dsimp only
      omega
    · rw [front, front, ← List.take_append_getElem hoffs, List.getElem_set_self,
        List.take_set_of_le le_rfl]
  · cases h

theorem error_writeByte {value : UInt8} (h : (c.writeByte value).error = 0) : c.error = 0 := by
  rw [writeByte] at h
  split_ifs at h
  · exact h
  · cases h

theorem error_writeBytes {n : Nat} {value : UInt8} (h : (writeBytes n value c).error = 0) :
    c.error = 0 := by
  induction n generalizing c with
  | zero => exact h
  | succ n ih => exact error_writeByte (ih h)

theorem wrote_writeBytes {n : Nat} {value : UInt8} (hs : c.buf.length = c.storage)
    (hr : c.offs + c.endOffs ≤ c.storage) (h : (writeBytes n value c).error = 0) :
    c.Wrote (writeBytes n value c) (List.replicate n value) := by
  induction n generalizing c with
  | zero => exact .refl hr
  | succ n ih =>
    have hw := wrote_writeByte hs (error_writeBytes h)
    exact hw.trans (ih (hw.sized hs) hw.room h)

/-! ## Digits -/

theorem error_writeRem {carry : Nat} (h : (c.writeRem carry).error = 0) : c.error = 0 := by
  rw [writeRem] at h
  cases hr : c.rem with
  | none =>
    rw [hr] at h
    exact h
  | some r =>
    rw [hr] at h
    exact error_writeByte h

theorem wrote_writeRem {carry : Nat} (hs : c.buf.length = c.storage)
    (hr : c.offs + c.endOffs ≤ c.storage) (h : (c.writeRem carry).error = 0) :
    c.Wrote (c.writeRem carry) (c.rem.map (· + UInt8.ofNat carry)).toList := by
  rw [writeRem] at h ⊢
  cases hrem : c.rem with
  | none => exact .refl hr
  | some r =>
    rw [hrem] at h
    exact wrote_writeByte hs h

theorem error_carryOut {x : Nat} (h : (c.carryOut x).error = 0) : c.error = 0 := by
  rw [carryOut] at h
  split_ifs at h
  · exact error_writeRem (error_writeBytes h)
  · exact h

/-- A digit is added to those before, and nothing else changes. -/
structure Pushed (c c' : RangeCoder) (x : Nat) : Prop extends Kept c c' where
  held : c'.held = c.held.push x

theorem pushed_carryOut {x : Nat} (hs : c.buf.length = c.storage)
    (hr : c.offs + c.endOffs ≤ c.storage) (h : (c.carryOut x).error = 0) :
    c.Pushed (c.carryOut x) x := by
  rw [carryOut] at h ⊢
  split_ifs at h ⊢ with h255
  · have hcarry : x >>> 8 = x / 256 := Nat.shiftRight_eq_div_pow x 8
    have hlast : UInt8.ofNat (x &&& symMax) = UInt8.ofNat x := by
      rw [← UInt8.toNat_inj, UInt8.toNat_ofNat', UInt8.toNat_ofNat',
        Nat.and_two_pow_sub_one_eq_mod x 8, Nat.mod_mod]
    have hsym : UInt8.ofNat ((symMax + x / 256) &&& symMax) = UInt8.ofNat (255 + x / 256) := by
      rw [← UInt8.toNat_inj, UInt8.toNat_ofNat', UInt8.toNat_ofNat',
        Nat.and_two_pow_sub_one_eq_mod _ 8, Nat.mod_mod]
    rw [hcarry] at h ⊢
    dsimp only at h ⊢
    rw [hlast]
    rw [hsym] at h ⊢
    -- the digit held back comes first, and then those behind it
    have hw := wrote_writeRem hs hr (error_writeBytes h)
    generalize c.writeRem (x / 256) = c₁ at h hw ⊢
    rw [hw.ext] at h ⊢
    have hw' := hw.trans (wrote_writeBytes (hw.sized hs) hw.room h)
    generalize writeBytes c.ext (UInt8.ofNat (255 + x / 256)) c₁ = c₂ at h hw' ⊢
    refine ⟨⟨?_, hw'.tail, hw'.size, hw'.room⟩, ?_⟩
    · conv_lhs => rw [hw'.eq]
    · rw [Held.push, if_neg h255]
      exact congrArg (fun l => Held.mk l (some (UInt8.ofNat x)) 0) hw'.front
  · refine ⟨⟨rfl, rfl, rfl, hr⟩, ?_⟩
    rw [Held.push, if_pos (not_not.1 h255)]
    rfl

theorem error_shiftOut (h : c.shiftOut.error = 0) : c.error = 0 := error_carryOut h

/-- A part of the interval. -/
theorem Means.narrowed (h : c.Means m) {a w : Nat} (hw : a + w ≤ m.width) :
    Means { c with val := c.val + a, rng := w } (m.narrowed a w) := by
  have hlo := h.lo
  have hrng := h.rng
  have htop := h.top
  have hcarry := h.carry
  refine ⟨h.error, h.room, h.size, h.depth, ?_, rfl, ?_, fun hr => ?_, h.raw, h.window, h.bits,
    h.rawLen, h.nbitsTotal⟩
  · change m.lo + a = _ * codeTop + (c.val + a)
    rw [hlo, Nat.add_assoc]
    rfl
  · dsimp only
    omega
  · have := hcarry hr
    dsimp only
    omega

/-- The digit that is settled goes out, and what was carried with it. -/
theorem Means.shiftOut (h : c.Means m) (hpos : 0 < c.rng) (hsmall : c.rng ≤ codeBot)
    (he : c.shiftOut.error = 0) : c.shiftOut.Means m.zoomed := by
  have hbot : codeBot = 0x800000 := rfl
  have hcode : codeTop = 0x80000000 := rfl
  have hp := pushed_carryOut h.size h.room he
  have htop := h.top
  have hx : c.val >>> codeShift = c.val / 0x800000 := Nat.shiftRight_eq_div_pow _ 23
  have hmask (v : Nat) : (v <<< 8) &&& (codeTop - 1) = v % 0x800000 * 256 := by
    rw [Nat.and_two_pow_sub_one_eq_mod _ 31, Nat.shiftLeft_eq]
    omega
  have hshift : c.rng <<< 8 = c.rng * 256 := Nat.shiftLeft_eq _ _
  have hlt : c.val / 0x800000 < 512 := by omega
  have hheld : c.held.rem = none ∨ c.held.rem = some 255 → c.val / 0x800000 < 256 := fun hr => by
    have := h.carry hr
    omega
  rw [RangeCoder.shiftOut] at he ⊢
  rw [hx] at hp he ⊢
  dsimp only at he ⊢
  have hread := Held.read_push hlt hheld
  have hlen := Held.length_push c.held (c.val / 0x800000)
  rw [← hp.held] at hread hlen
  have hrem : (c.carryOut (c.val / 0x800000)).rem = (c.held.push (c.val / 0x800000)).rem :=
    congrArg Held.rem hp.held
  generalize c.carryOut (c.val / 0x800000) = c₁ at hp he hread hlen hrem ⊢
  have hval : c₁.val = c.val := by rw [hp.eq]
  have hrng : c₁.rng = c.rng := by rw [hp.eq]
  have hends : c₁.endOffs = c.endOffs := by rw [hp.eq]
  have hwindow : c₁.endWindow = c.endWindow := by rw [hp.eq]
  have hbits : c₁.nendBits = c.nendBits := by rw [hp.eq]
  have htotal : c₁.nbitsTotal = c.nbitsTotal := by rw [hp.eq]
  have hlo := h.lo
  rw [hval, hrng, hmask, hshift, htotal]
  refine ⟨he, hp.room, hp.sized h.size, ?_, ?_, ?_, ?_, fun hr => ?_, ?_, ?_, ?_, ?_, ?_⟩
  · exact hlen.trans (congrArg (· + 1) h.depth)
  · change m.lo * 256 = BigEndian.read c₁.held.digits * codeTop + c.val % 0x800000 * 256
    rw [hread, hlo, hcode]
    omega
  · exact congrArg (· * 256) h.rng
  · change c.val % 0x800000 * 256 + c.rng * 256 ≤ 2 ^ 32
    omega
  · -- a digit of 255 is held back with what can no more be carried to it
    change c.val % 0x800000 * 256 + c.rng * 256 ≤ codeTop
    change c₁.rem = none ∨ c₁.rem = some 255 at hr
    rw [hrem, Held.push] at hr
    split_ifs at hr with h255
    · have := h.carry hr
      omega
    · rcases hr with hr | hr
      · cases hr
      · have hmod := congrArg UInt8.toNat (Option.some.inj hr)
        rw [UInt8.toNat_ofNat'] at hmod
        change c.val / 0x800000 % 256 = 255 at hmod
        omega
  · change m.raw = BigEndian.read c₁.tail + c₁.endWindow * 256 ^ c₁.endOffs
    rw [hp.tail, hwindow, hends]
    exact h.raw
  · rw [hwindow, hbits]
    exact h.window
  · rw [hbits]
    exact h.bits
  · rw [hends, hbits]
    exact h.rawLen
  · have hn := h.nbitsTotal
    change c.nbitsTotal + 8 = 33 + 8 * (m.depth + 1) + m.rawLen
    omega

theorem error_normalizeEncoder_go {n : Nat} (h : (normalizeEncoder.go n c).error = 0) :
    c.error = 0 := by
  induction n generalizing c with
  | zero => exact h
  | succ n ih =>
    rw [normalizeEncoder.go] at h
    split_ifs at h
    · exact error_shiftOut (ih h)
    · exact h

theorem error_normalizeEncoder (h : (normalizeEncoder c).error = 0) : c.error = 0 :=
  error_normalizeEncoder_go h

/-- Digits go out as long as the interval is small. -/
theorem Means.normalizeEncoder (h : c.Means m) (hpos : 0 < c.rng)
    (he : (RangeCoder.normalizeEncoder c).error = 0) :
    (RangeCoder.normalizeEncoder c).Means (m.normalized 3) := by
  have hgo (n : Nat) {c : RangeCoder} {m : Mark} (h : c.Means m) (hpos : 0 < c.rng)
      (he : (RangeCoder.normalizeEncoder.go n c).error = 0) :
      (RangeCoder.normalizeEncoder.go n c).Means (m.normalized n) := by
    induction n generalizing c m with
    | zero => exact h
    | succ n ih =>
      rw [RangeCoder.normalizeEncoder.go] at he ⊢
      rw [Mark.normalized, ← h.rng]
      split_ifs at he ⊢ with hsmall
      · have hs := h.shiftOut hpos hsmall (error_normalizeEncoder_go he)
        refine ih hs ?_ he
        rw [hs.rng]
        exact Nat.mul_pos (h.rng ▸ hpos) (by decide)
      · exact h
  exact hgo 3 h hpos he

/-! ## Bits at the end -/

theorem error_writeByteAtEnd {value : UInt8} (h : (c.writeByteAtEnd value).error = 0) :
    c.error = 0 := by
  rw [writeByteAtEnd] at h
  split_ifs at h
  · exact h
  · cases h

theorem error_flushEnd {n window : Nat} (h : (flushEnd n c window).1.error = 0) :
    c.error = 0 := by
  induction n generalizing c window with
  | zero => exact h
  | succ n ih => exact error_writeByteAtEnd (ih h)

/-- Bytes were written at the end, and nothing else; what they and the window stand for is the
    same. -/
structure Flushed (c c' : RangeCoder) (w w' n : Nat) : Prop where
  eq : c' = { c with buf := c'.buf, endOffs := c.endOffs + n }
  front : c'.front = c.front
  size : c'.buf.length = c.buf.length
  room : c'.offs + c'.endOffs ≤ c'.storage
  window : w' = w / 256 ^ n
  raw : BigEndian.read c'.tail + w' * 256 ^ c'.endOffs =
    BigEndian.read c.tail + w * 256 ^ c.endOffs

theorem flushed_writeByteAtEnd {window : Nat} (hs : c.buf.length = c.storage)
    (h : (c.writeByteAtEnd (UInt8.ofNat (window &&& symMax))).error = 0) :
    c.Flushed (c.writeByteAtEnd (UInt8.ofNat (window &&& symMax))) window (window >>> 8) 1 := by
  have hand : window &&& symMax = window % 256 := Nat.and_two_pow_sub_one_eq_mod window 8
  have hshift : window >>> 8 = window / 256 := Nat.shiftRight_eq_div_pow window 8
  have hbyte : (UInt8.ofNat (window % 256)).toNat = window % 256 := by
    rw [UInt8.toNat_ofNat']
    exact Nat.mod_mod _ _
  rw [hand] at h ⊢
  rw [hshift]
  rw [writeByteAtEnd] at h ⊢
  split_ifs at h ⊢ with hlt
  · generalize UInt8.ofNat (window % 256) = b at hbyte ⊢
    have hi : c.storage - (c.endOffs + 1) < (c.buf.set (c.storage - (c.endOffs + 1)) b).length := by
      rw [List.length_set, hs]
      omega
    have htail : tail { c with
        buf := c.buf.set (c.storage - (c.endOffs + 1)) b
        endOffs := c.endOffs + 1 } = b :: c.tail := by
      have hsucc : c.storage - (c.endOffs + 1) + 1 = c.storage - c.endOffs := by omega
      rw [tail, tail]
      dsimp only
      rw [List.drop_eq_getElem_cons hi, List.getElem_set_self, hsucc,
        List.drop_set_of_lt (by omega), List.take_succ_cons]
    have hlen : c.tail.length = c.endOffs := by
      rw [tail, List.length_take, List.length_drop, hs]
      omega
    refine ⟨rfl, ?_, List.length_set, ?_, ?_, ?_⟩
    · rw [front, front]
      dsimp only
      rw [List.take_set_of_le (by omega)]
    · dsimp only
      omega
    · rw [pow_one]
    · have hcons : b :: c.tail = [b] ++ c.tail := rfl
      have hdiv := Nat.div_add_mod window 256
      rw [htail, hcons, BigEndian.read_append, BigEndian.read_singleton, hbyte, hlen]
      dsimp only
      calc window % 256 * 256 ^ c.endOffs + BigEndian.read c.tail +
            window / 256 * 256 ^ (c.endOffs + 1)
          = BigEndian.read c.tail + (256 * (window / 256) + window % 256) * 256 ^ c.endOffs := by
            ring
        _ = BigEndian.read c.tail + window * 256 ^ c.endOffs := by rw [hdiv]
  · cases h

theorem Flushed.trans {w w' w'' n n' : Nat} (h : c.Flushed c' w w' n)
    (h' : c'.Flushed c'' w' w'' n') : c.Flushed c'' w w'' (n' + n) where
  eq := by
    rw [h'.eq, h.eq]
    dsimp only
    rw [Nat.add_assoc, Nat.add_comm n]
  front := h'.front.trans h.front
  size := h'.size.trans h.size
  room := h'.room
  window := by rw [h'.window, h.window, Nat.div_div_eq_div_mul, ← pow_add, Nat.add_comm n]
  raw := h'.raw.trans h.raw

theorem Flushed.sized {w w' n : Nat} (h : c.Flushed c' w w' n) (hs : c.buf.length = c.storage) :
    c'.buf.length = c'.storage := by
  rw [h.size, hs, h.eq]

theorem flushed_flushEnd {n window : Nat} (hs : c.buf.length = c.storage)
    (hr : c.offs + c.endOffs ≤ c.storage) (h : (flushEnd n c window).1.error = 0) :
    c.Flushed (flushEnd n c window).1 window (flushEnd n c window).2 n := by
  induction n generalizing c window with
  | zero => exact ⟨rfl, rfl, rfl, hr, (Nat.div_one _).symm, rfl⟩
  | succ n ih =>
    have hf := flushed_writeByteAtEnd hs (error_flushEnd h)
    exact hf.trans (ih (hf.sized hs) hf.room h)

theorem pow_256 (n : Nat) : 256 ^ n = 2 ^ (8 * n) := (pow_mul 2 8 n).symm

/-- What is left in the window after its whole bytes were written. -/
theorem Flushed.window_lt {w w' n u k : Nat} (h : c.Flushed c' w w' n) (hw : w < 2 ^ k)
    (hk : 8 * n + u = k) : w' < 2 ^ u := by
  rw [h.window, Nat.div_lt_iff_lt_mul (Nat.pow_pos (by decide)), pow_256, ← pow_add,
    Nat.add_comm u, hk]
  exact hw

/-- Bits are put into the window, behind those that are left in it. -/
theorem Means.withBits (h : c.Means m) {v n w k u : Nat} (hf : c.Flushed c' c.endWindow w k)
    (hu : 8 * k + u = c.nendBits) (hn : u + n ≤ 32) (he : c'.error = 0) :
    Means { c' with
      endWindow := w ||| (v &&& (1 <<< n - 1)) <<< u
      nendBits := u + n
      nbitsTotal := c'.nbitsTotal + n } (m.withBits v n) := by
  have hw := hf.window_lt h.window hu
  have hor : w ||| (v &&& (1 <<< n - 1)) <<< u = w + v % 2 ^ n * 2 ^ u := by
    rw [Nat.one_shiftLeft, Nat.and_two_pow_sub_one_eq_mod, Nat.or_comm,
      ← Nat.shiftLeft_add_eq_or_of_lt hw, Nat.shiftLeft_eq, Nat.add_comm]
  have hends : c'.endOffs = c.endOffs + k := by rw [hf.eq]
  have htotal : c'.nbitsTotal = c.nbitsTotal := by rw [hf.eq]
  have hheld : c'.held = c.held := by
    rw [held, held, hf.front, hf.eq]
  have hlen : m.rawLen = u + 8 * c'.endOffs := by
    have := h.rawLen
    omega
  rw [hor]
  refine ⟨he, hf.room, hf.sized h.size, ?_, ?_, ?_, ?_, ?_, ?_, ?_, hn, ?_, ?_⟩
  · exact (congrArg (·.digits.length) hheld).trans h.depth
  · refine h.lo.trans ?_
    rw [← hheld, hf.eq]
    rfl
  · rw [hf.eq]
    exact h.rng
  · rw [hf.eq]
    exact h.top
  · rw [hf.eq]
    exact h.carry
  · change m.raw + v % 2 ^ n * 2 ^ m.rawLen =
      BigEndian.read c'.tail + (w + v % 2 ^ n * 2 ^ u) * 256 ^ c'.endOffs
    rw [h.raw, ← hf.raw, hlen, pow_add, ← pow_256]
    ring
  · change w + v % 2 ^ n * 2 ^ u < 2 ^ (u + n)
    exact Mark.raw_add_lt ⟨m.toZoom, w, u, hw⟩ v n
  · change m.rawLen + n = 8 * c'.endOffs + (u + n)
    omega
  · have := h.nbitsTotal
    change c'.nbitsTotal + n = 33 + 8 * m.depth + (m.rawLen + n)
    omega

theorem error_encBits {v n : Nat} (h : (c.encBits v n).error = 0) : c.error = 0 := by
  rw [encBits] at h
  split_ifs at h
  · exact h
  · exact error_flushEnd h
  · exact h

/-- Bits are written behind those before. -/
theorem Means.encBits (h : c.Means m) {v n : Nat} (hn : n ≤ 25)
    (he : (c.encBits v n).error = 0) : (c.encBits v n).Means (m.withBits v n) := by
  have hbits := h.bits
  rw [RangeCoder.encBits] at he ⊢
  split_ifs at he ⊢ with h0 hfull
  · rw [h0, m.withBits_zero]
    exact h
  · have hf := flushed_flushEnd h.size h.room he
    exact h.withBits hf (Nat.div_add_mod c.nendBits 8) (by omega) he
  · have hf : c.Flushed c c.endWindow c.endWindow 0 :=
      ⟨rfl, rfl, rfl, h.room, (Nat.div_one _).symm, rfl⟩
    exact h.withBits hf (by omega) (by omega) he

end RangeCoder

end Wandr.Opus
