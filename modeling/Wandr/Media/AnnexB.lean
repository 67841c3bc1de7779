import Wandr.Lib.BigEndian
import Wandr.Lib.Slice
import Wandr.Media.Player

/-!
# Units of a sample

The units of a sample come one after the other, each after its length. They are walked through
by index, and the decoder is given each of them after a start code. An index is a machine word, so
that adding the length that a sample announces may wrap around.

* `Walk.rounds_framed`: the walk goes through whole units;
* `Walk.rounds_eq`: where nothing wraps, it is that of `toAnnexb`;
* `toAnnexbOn_spec`: units that were put together are found again, and the walk of any sample is
  inside of it if and only if no length that it announces wraps.
-/

namespace Wandr.Media

open Slice

/-! ## Walking through a sample -/

/-- The number in some bytes, in a word of `w` bits. -/
def announced (w : Nat) (bs : List UInt8) : Nat :=
  bs.foldl (fun n b => (n <<< 8) % 2 ^ w ||| b.toNat) 0

structure Walk where
  i : Nat
  au : List UInt8

namespace Walk

variable (w : Nat) (sample : List UInt8) (nalLen : Nat)

/-- One unit, if there is another one. -/
def round (s : Walk) : Checked (Option Walk) := do
  let i := (s.i + nalLen) % 2 ^ w
  if i ≤ sample.length then
    let n := announced w (← sub sample s.i i)
    let j := (i + n) % 2 ^ w
    if n = 0 ∨ sample.length < j then return none
    else return some { i := j, au := s.au ++ startCode ++ (← sub sample i j) }
  else return none

def rounds : Nat → Walk → Option (Checked (List UInt8))
  | 0, _ => none
  | fuel + 1, s =>
    match s.round w sample nalLen with
    | .error e => some (.error e)
    | .ok none => some (.ok s.au)
    | .ok (some s) => rounds fuel s

end Walk

/-- `toAnnexb`, with sizes of `w` bits. -/
def toAnnexbOn (w : Nat) (sample : List UInt8) (nalLen : Nat) (psPrefix : List UInt8)
    (isSync : Bool) : Option (Checked (List UInt8)) :=
  Walk.rounds w sample nalLen (sample.length + 1) ⟨0, if isSync then psPrefix else []⟩

/-! ## Units -/

/-- A unit that has a length of `nalLen` bytes. -/
def IsUnit (nalLen : Nat) (u : List UInt8) : Prop := u ≠ [] ∧ u.length < 256 ^ nalLen

instance (nalLen : Nat) (u : List UInt8) : Decidable (IsUnit nalLen u) :=
  inferInstanceAs (Decidable (u ≠ [] ∧ u.length < 256 ^ nalLen))

/-- A unit after its length. -/
def frame (nalLen : Nat) (u : List UInt8) : List UInt8 := BigEndian.write nalLen u.length ++ u

def frames (nalLen : Nat) (us : List (List UInt8)) : List UInt8 := us.flatMap (frame nalLen)

/-- Each unit after a start code. -/
def startCoded (us : List (List UInt8)) : List UInt8 := us.flatMap fun u => startCode ++ u

/-- The bytes of a slice. -/
abbrev Bytes (w : Nat) := { b : List UInt8 // b.length < 2 ^ (w - 1) }

/-- Only whole units of the sample are copied, each behind a start code, in order. -/
def Inside (sample : List UInt8) (nalLen : Nat) (head : List UInt8)
    (r : Option (Checked (List UInt8))) : Prop :=
  ∃ us rest, (∀ u ∈ us, IsUnit nalLen u) ∧ sample = frames nalLen us ++ rest ∧
    r = some (.ok (head ++ startCoded us))

/-- No length that is announced after whole units wraps around. -/
def Unwrapped (w : Nat) (sample : List UInt8) (nalLen : Nat) : Prop :=
  ∀ us n rest, (∀ u ∈ us, IsUnit nalLen u) → n < 256 ^ nalLen →
    sample = frames nalLen us ++ (BigEndian.write nalLen n ++ rest) →
    (frames nalLen us).length + nalLen + n < 2 ^ w

theorem frames_cons (nalLen : Nat) (u : List UInt8) (us : List (List UInt8)) :
    frames nalLen (u :: us) = frame nalLen u ++ frames nalLen us := rfl

theorem startCoded_cons (u : List UInt8) (us : List (List UInt8)) :
    startCoded (u :: us) = startCode ++ u ++ startCoded us := rfl

theorem startCoded_append (us vs : List (List UInt8)) :
    startCoded (us ++ vs) = startCoded us ++ startCoded vs := List.flatMap_append

/-! ## Lengths -/

theorem length_frame (nalLen : Nat) (u : List UInt8) :
    (frame nalLen u).length = nalLen + u.length := by
  rw [frame, List.length_append, BigEndian.length_write]

/-- Units have bytes. -/
theorem length_le_frames {nalLen : Nat} {us : List (List UInt8)} (h : ∀ u ∈ us, IsUnit nalLen u) :
    us.length ≤ (frames nalLen us).length := by
  induction us with
  | nil => exact Nat.zero_le _
  | cons u us ih =>
    have hpos : 0 < u.length := List.length_pos_of_ne_nil (h u List.mem_cons_self).1
    have hle := ih fun v hv => h v (List.mem_cons_of_mem _ hv)
    rw [frames_cons, List.length_append, length_frame, List.length_cons]
    omega

section Announced

variable {w : Nat} {bs : List UInt8}

theorem announced_eq (hw : 32 ≤ w) (h : bs.length ≤ 4) : announced w bs = BigEndian.read bs := by
  have hpow : 256 ^ 4 ≤ 2 ^ w := Nat.pow_le_pow_right (n := 2) (by decide) hw
  induction bs using List.reverseRecOn with
  | nil => rfl
  | append_singleton bs b ih =>
    rw [List.length_append, List.length_singleton] at h
    have hlt : BigEndian.read bs * 256 < 2 ^ w := by
      have hr : BigEndian.read bs < 256 ^ 3 := Nat.lt_of_lt_of_le (BigEndian.read_lt bs)
        (Nat.pow_le_pow_right (by decide) (by omega))
      omega
    have ha : announced w (bs ++ [b]) = (announced w bs <<< 8) % 2 ^ w ||| b.toNat := by
      rw [announced, List.foldl_append]
      rfl
    have hshift : BigEndian.read bs <<< 8 = BigEndian.read bs * 256 := Nat.shiftLeft_eq _ _
    rw [ha, ih (by omega), BigEndian.read_append_singleton, ← hshift,
      Nat.mod_eq_of_lt (hshift ▸ hlt), Nat.shiftLeft_add_eq_or_of_lt b.toNat_lt]

theorem bigEndian_eq (h : bs.length ≤ 4) : bigEndian bs = BigEndian.read bs := by
  induction bs using List.reverseRecOn with
  | nil => rfl
  | append_singleton bs b ih =>
    rw [List.length_append, List.length_singleton] at h
    have hlt : BigEndian.read (bs ++ [b]) < 256 ^ 4 := Nat.lt_of_lt_of_le (BigEndian.read_lt _)
      (Nat.pow_le_pow_right (by decide) (by simpa using h))
    rw [BigEndian.read_append_singleton] at hlt ⊢
    rw [bigEndian, List.foldl_append]
    refine (congrArg (fun n => (n * 256 + b.toNat) % 2 ^ 32) (ih (by omega))).trans ?_
    exact Nat.mod_eq_of_lt hlt

end Announced

/-! ## Rounds -/

namespace Walk

variable {w nalLen : Nat} {sample p q au : List UInt8}

/-- The walk is between two units, where the indices of the sample do not wrap. -/
structure At (w nalLen : Nat) (sample p q : List UInt8) : Prop where
  wide : 32 ≤ w
  pos : 1 ≤ nalLen
  le : nalLen ≤ 4
  small : sample.length < 2 ^ (w - 1)
  eq : sample = p ++ q

theorem At.length_add (h : At w nalLen sample p q) : p.length + q.length = sample.length := by
  rw [h.eq, List.length_append]

theorem At.add_lt (h : At w nalLen sample p q) : sample.length + 4 < 2 ^ w := by
  obtain ⟨v, rfl⟩ : ∃ v, w = v + 1 := ⟨w - 1, by have := h.wide; omega⟩
  have hs := h.small
  have hv : 2 ^ 31 ≤ 2 ^ v := Nat.pow_le_pow_right (by decide) (Nat.le_of_succ_le_succ h.wide)
  rw [Nat.add_sub_cancel] at hs
  rw [Nat.pow_succ]
  omega

/-- No other unit. -/
theorem round_short (h : At w nalLen sample p q) (hq : q.length < nalLen) :
    round w sample nalLen ⟨p.length, au⟩ = .ok none := by
  have hlt := h.add_lt
  have hle := h.le
  have hlen := h.length_add
  rw [round]
  dsimp only
  rw [Nat.mod_eq_of_lt (by omega), if_neg (by omega)]
  rfl

/-- A round that begins with a length. -/
theorem round_length {n : Nat} (h : At w nalLen sample p (BigEndian.write nalLen n ++ q))
    (hn : n < 256 ^ nalLen) :
    round w sample nalLen ⟨p.length, au⟩ =
      if n = 0 ∨ sample.length < (p.length + nalLen + n) % 2 ^ w then .ok none
      else (sub sample (p.length + nalLen) ((p.length + nalLen + n) % 2 ^ w)).map fun u =>
        some ⟨(p.length + nalLen + n) % 2 ^ w, au ++ startCode ++ u⟩ := by
  have hlt := h.add_lt
  have hle := h.le
  have hlen := h.length_add
  rw [List.length_append, BigEndian.length_write] at hlen
  have hsub : sub sample p.length (p.length + nalLen) = .ok (BigEndian.write nalLen n) :=
    sub_append h.eq rfl (by rw [BigEndian.length_write])
  have hann : announced w (BigEndian.write nalLen n) = n := by
    rw [announced_eq h.wide (by rwa [BigEndian.length_write]), BigEndian.read_write hn]
  rw [round]
  dsimp only
  rw [Nat.mod_eq_of_lt (b := 2 ^ w) (a := p.length + nalLen) (by omega), if_pos (by omega), hsub,
    ok_bind, hann]
  rfl

theorem At.le_pow (h : At w nalLen sample p q) : 256 ^ nalLen ≤ 2 ^ w := by
  have h₁ : 256 ^ nalLen ≤ 256 ^ 4 := Nat.pow_le_pow_right (by decide) h.le
  exact h₁.trans (Nat.pow_le_pow_right (n := 2) (by decide) h.wide)

/-- Where the length wraps, the unit would end before it begins. -/
theorem round_wraps {n : Nat} (h : At w nalLen sample p (BigEndian.write nalLen n ++ q))
    (hn : n < 256 ^ nalLen) (hw : 2 ^ w ≤ p.length + nalLen + n) :
    round w sample nalLen ⟨p.length, au⟩ = .error {} := by
  have hlen := h.length_add
  rw [List.length_append, BigEndian.length_write] at hlen
  have hlt := h.add_lt
  have hpow := h.le_pow
  have hmod : (p.length + nalLen + n) % 2 ^ w = p.length + nalLen + n - 2 ^ w := by
    rw [Nat.mod_eq_sub_mod hw, Nat.mod_eq_of_lt (by omega)]
  have hsub : sub sample (p.length + nalLen) (p.length + nalLen + n - 2 ^ w) = .error {} :=
    if_neg fun hc => absurd hc.1 (by omega)
  rw [round_length h hn, hmod, if_neg (by omega), hsub]
  rfl

/-- A whole unit. -/
theorem round_unit {u : List UInt8} (hu : IsUnit nalLen u)
    (h : At w nalLen sample p (frame nalLen u ++ q)) :
    round w sample nalLen ⟨p.length, au⟩ =
      .ok (some ⟨(p ++ frame nalLen u).length, au ++ startCode ++ u⟩) := by
  have hpos : 0 < u.length := List.length_pos_of_ne_nil hu.1
  have hlen := h.length_add
  have hlt := h.add_lt
  rw [List.length_append, length_frame] at hlen
  have heq : sample = p ++ BigEndian.write nalLen u.length ++ (u ++ q) := by
    rw [h.eq, frame]
    simp only [List.append_assoc]
  have hat : At w nalLen sample p (BigEndian.write nalLen u.length ++ (u ++ q)) :=
    { h with eq := by rw [heq, List.append_assoc] }
  have hsub : sub sample (p.length + nalLen) (p.length + nalLen + u.length) = .ok u :=
    sub_append heq (by rw [List.length_append, BigEndian.length_write]) rfl
  rw [round_length hat hu.2, Nat.mod_eq_of_lt (by omega), if_neg (by omega), hsub,
    List.length_append, length_frame, Nat.add_assoc]
  rfl

/-- A length that announces nothing, or more than there is. -/
theorem round_stops {n : Nat} (h : At w nalLen sample p (BigEndian.write nalLen n ++ q))
    (hn : n < 256 ^ nalLen) (hw : p.length + nalLen + n < 2 ^ w) (hstop : n = 0 ∨ q.length < n) :
    round w sample nalLen ⟨p.length, au⟩ = .ok none := by
  have hlen := h.length_add
  rw [List.length_append, BigEndian.length_write] at hlen
  rw [round_length h hn, Nat.mod_eq_of_lt hw, if_pos (by omega)]

/-! ## The whole walk -/

/-- The walk goes through whole units. -/
theorem rounds_framed {us : List (List UInt8)} (hus : ∀ u ∈ us, IsUnit nalLen u)
    (h : At w nalLen sample p (frames nalLen us ++ q)) (fuel : Nat) :
    rounds w sample nalLen (us.length + fuel) ⟨p.length, au⟩ =
      rounds w sample nalLen fuel ⟨(p ++ frames nalLen us).length, au ++ startCoded us⟩ := by
  induction us generalizing p au with
  | nil => simp [frames, startCoded]
  | cons u us ih =>
    rw [frames_cons, List.append_assoc] at h
    have hnext : At w nalLen sample (p ++ frame nalLen u) (frames nalLen us ++ q) :=
      { h with eq := by rw [h.eq, List.append_assoc] }
    rw [List.length_cons, Nat.add_right_comm, rounds, round_unit (hus u List.mem_cons_self) h]
    dsimp only
    rw [ih (fun v hv => hus v (List.mem_cons_of_mem _ hv)) hnext]
    rw [frames_cons, startCoded_cons]
    simp only [List.append_assoc]

/-- What is left begins with a length, if it has room for one. -/
theorem exists_length (q : List UInt8) (hq : nalLen ≤ q.length) (hle : nalLen ≤ 4) :
    ∃ n < 256 ^ nalLen, q = BigEndian.write nalLen n ++ q.drop nalLen ∧
      bigEndian (q.take nalLen) = n := by
  have hlen : (q.take nalLen).length = nalLen := List.length_take_of_le hq
  refine ⟨BigEndian.read (q.take nalLen), ?_, ?_, bigEndian_eq (by rwa [hlen])⟩
  · exact Nat.lt_of_lt_of_eq (BigEndian.read_lt _) (by rw [hlen])
  · have hwrite := BigEndian.write_read (q.take nalLen)
    rw [hlen] at hwrite
    rw [hwrite, List.take_append_drop]

/-- Where nothing wraps, the walk is the one by the bytes that are left. -/
theorem rounds_eq (au : List UInt8) (h : At w nalLen sample p q)
    (hunw : ∀ us n rest, (∀ u ∈ us, IsUnit nalLen u) → n < 256 ^ nalLen →
      q = frames nalLen us ++ (BigEndian.write nalLen n ++ rest) →
      p.length + (frames nalLen us).length + nalLen + n < 2 ^ w)
    {fuel k : Nat} (hf : q.length < fuel) (hk : q.length ≤ k) :
    ∃ us rest, (∀ u ∈ us, IsUnit nalLen u) ∧ q = frames nalLen us ++ rest ∧
      nalUnits nalLen k q = startCoded us ∧
      rounds w sample nalLen fuel ⟨p.length, au⟩ = some (.ok (au ++ startCoded us)) := by
  induction fuel generalizing p q au k with
  | zero => exact absurd hf (Nat.not_lt_zero _)
  | succ fuel ih =>
    have hnil : ∀ u ∈ ([] : List (List UInt8)), IsUnit nalLen u := List.forall_mem_nil _
    have hends (hr : round w sample nalLen ⟨p.length, au⟩ = .ok none) :
        rounds w sample nalLen (fuel + 1) ⟨p.length, au⟩ = some (.ok (au ++ startCoded [])) := by
      rw [rounds, hr]
      exact congrArg (some ∘ Except.ok) (List.append_nil au).symm
    by_cases hq : q.length < nalLen
    · refine ⟨[], q, hnil, rfl, ?_, hends (round_short h hq)⟩
      cases k with
      | zero => rfl
      | succ k => rw [nalUnits, if_pos hq]; rfl
    obtain ⟨n, hn, heq, hbe⟩ := exists_length q (Nat.not_lt.1 hq) h.le
    obtain ⟨k, rfl⟩ : ∃ j, k = j + 1 := ⟨k - 1, by have := h.pos; omega⟩
    have hat : At w nalLen sample p (BigEndian.write nalLen n ++ q.drop nalLen) :=
      { h with eq := by rw [h.eq, ← heq] }
    have hfits := hunw [] n (q.drop nalLen) hnil hn heq
    rw [nalUnits, if_neg hq]
    dsimp only
    rw [hbe]
    by_cases hstop : n = 0 ∨ (q.drop nalLen).length < n
    · rw [if_pos hstop]
      exact ⟨[], q, hnil, rfl, rfl, hends (round_stops hat hn hfits hstop)⟩
    · rw [if_neg hstop]
      obtain ⟨hn0, hle⟩ := not_or.1 hstop
      have hlen : ((q.drop nalLen).take n).length = n := List.length_take_of_le (Nat.not_lt.1 hle)
      have hu : IsUnit nalLen ((q.drop nalLen).take n) :=
        ⟨List.ne_nil_of_length_pos (by omega), by rwa [hlen]⟩
      have hframe : q = frame nalLen ((q.drop nalLen).take n) ++ (q.drop nalLen).drop n := by
        rw [frame, hlen, List.append_assoc, List.take_append_drop]
        exact heq
      generalize (q.drop nalLen).take n = u at hu hframe ⊢
      generalize (q.drop nalLen).drop n = q' at hframe ⊢
      have hat' : At w nalLen sample p (frame nalLen u ++ q') := { h with eq := hframe ▸ h.eq }
      have hnext : At w nalLen sample (p ++ frame nalLen u) q' :=
        { h with eq := by rw [h.eq, hframe, List.append_assoc] }
      have hshort : q'.length + 1 ≤ q.length := by
        have hpos := h.pos
        rw [hframe, List.length_append, length_frame]
        omega
      obtain ⟨us, rest, hus, he, hnal, hr⟩ := ih (au ++ startCode ++ u) hnext
        (fun us n rest hus hn he => by
          have hw := hunw (u :: us) n rest (List.forall_mem_cons.2 ⟨hu, hus⟩) hn (by
            rw [hframe, he, frames_cons, List.append_assoc])
          rw [frames_cons, List.length_append] at hw
          rw [List.length_append]
          omega) (by omega) (k := k) (by omega)
      refine ⟨u :: us, rest, List.forall_mem_cons.2 ⟨hu, hus⟩, ?_, ?_, ?_⟩
      · rw [hframe, he, frames_cons, List.append_assoc]
      · rw [hnal, startCoded_cons]
      · rw [rounds, round_unit hu hat']
        dsimp only
        rw [hr, startCoded_cons]
        simp only [List.append_assoc]

end Walk

/-! ## Samples -/

variable {w nalLen : Nat} {sample : List UInt8}

/-- The walk of whole units, and what comes after them. -/
theorem toAnnexbOn_frames {us : List (List UInt8)} {q : List UInt8} (psPrefix : List UInt8)
    (isSync : Bool) (hus : ∀ u ∈ us, IsUnit nalLen u)
    (h : Walk.At w nalLen sample [] (frames nalLen us ++ q)) :
    ∃ fuel, q.length < fuel ∧ toAnnexbOn w sample nalLen psPrefix isSync =
      Walk.rounds w sample nalLen fuel
        ⟨(frames nalLen us).length, (if isSync then psPrefix else []) ++ startCoded us⟩ := by
  have hlen := length_le_frames hus
  have hsum := h.length_add
  rw [List.length_append, List.length_nil, Nat.zero_add] at hsum
  refine ⟨sample.length + 1 - us.length, by omega, ?_⟩
  have hfuel : us.length + (sample.length + 1 - us.length) = sample.length + 1 := by omega
  rw [toAnnexbOn, ← hfuel, Nat.add_sub_cancel_left]
  exact Walk.rounds_framed hus h _

/-- Where nothing wraps, the units are those of `toAnnexb`. -/
theorem toAnnexbOn_of_unwrapped (h : Walk.At w nalLen sample [] sample)
    (hunw : Unwrapped w sample nalLen) (psPrefix : List UInt8) (isSync : Bool) :
    toAnnexbOn w sample nalLen psPrefix isSync = some (.ok (toAnnexb sample nalLen psPrefix isSync)) ∧
      Inside sample nalLen (if isSync then psPrefix else [])
        (toAnnexbOn w sample nalLen psPrefix isSync) := by
  obtain ⟨us, rest, hus, he, hnal, hr⟩ := Walk.rounds_eq (if isSync then psPrefix else []) h
    (fun us n rest hus hn he => by
      have hw := hunw us n rest hus hn he
      rwa [List.length_nil, Nat.zero_add])
    (Nat.lt_succ_self _) (Nat.le_refl _)
  refine ⟨?_, us, rest, hus, he, hr⟩
  rw [toAnnexb, hnal]
  exact hr

/-- Where a length wraps, the walk ends outside of the sample. -/
theorem toAnnexbOn_of_wraps {us : List (List UInt8)} {n : Nat} {rest : List UInt8}
    (h : Walk.At w nalLen sample [] (frames nalLen us ++ (BigEndian.write nalLen n ++ rest)))
    (hus : ∀ u ∈ us, IsUnit nalLen u) (hn : n < 256 ^ nalLen)
    (hw : 2 ^ w ≤ (frames nalLen us).length + nalLen + n) (psPrefix : List UInt8)
    (isSync : Bool) : toAnnexbOn w sample nalLen psPrefix isSync = some (.error {}) := by
  obtain ⟨fuel, hf, hr⟩ := toAnnexbOn_frames psPrefix isSync hus h
  obtain ⟨fuel, rfl⟩ : ∃ k, fuel = k + 1 := ⟨fuel - 1, by omega⟩
  rw [hr, Walk.rounds, Walk.round_wraps (p := frames nalLen us) { h with eq := h.eq } hn hw]

/-- Units that were put together are found again, each behind a start code. With sizes of 32 bits,
    only whole units of a sample are copied, and nothing outside of it is read, if and only if no
    length that is announced wraps around. -/
theorem toAnnexbOn_spec (nalLen : Nat) (hpos : 1 ≤ nalLen) (hle : nalLen ≤ 4)
    (psPrefix : List UInt8) (isSync : Bool) :
    (∀ w ≥ 32, ∀ (sample : Bytes w) (us : List (List UInt8)), (∀ u ∈ us, IsUnit nalLen u) →
      sample.1 = frames nalLen us → toAnnexbOn w sample nalLen psPrefix isSync =
        some (.ok ((if isSync then psPrefix else []) ++ startCoded us))) ∧
    ∀ sample : Bytes 32, Inside sample nalLen (if isSync then psPrefix else [])
      (toAnnexbOn 32 sample nalLen psPrefix isSync) ↔ Unwrapped 32 sample nalLen := by
  refine ⟨fun w hw sample us hus he => ?_, fun sample => ⟨fun hin us n rest hus hn he => ?_, ?_⟩⟩
  · have hat : Walk.At w nalLen sample.1 [] (frames nalLen us ++ []) :=
      ⟨hw, hpos, hle, sample.2, by rw [he, List.append_nil]; rfl⟩
    obtain ⟨fuel, hf, hr⟩ := toAnnexbOn_frames psPrefix isSync hus hat
    obtain ⟨fuel, rfl⟩ : ∃ k, fuel = k + 1 := ⟨fuel - 1, (Nat.sub_add_cancel hf).symm⟩
    have hend : Walk.At w nalLen sample.1 (frames nalLen us) [] := { hat with eq := hat.eq }
    rw [hr, Walk.rounds, Walk.round_short hend hpos]
  · by_contra hnot
    have hat : Walk.At 32 nalLen sample.1 []
        (frames nalLen us ++ (BigEndian.write nalLen n ++ rest)) :=
      ⟨Nat.le_refl _, hpos, hle, sample.2, he⟩
    obtain ⟨us', rest', -, -, hr⟩ := hin
    rw [toAnnexbOn_of_wraps hat hus hn (Nat.not_lt.1 hnot)] at hr
    cases hr
  · intro hunw
    have hat : Walk.At 32 nalLen sample.1 [] sample.1 :=
      ⟨Nat.le_refl _, hpos, hle, sample.2, rfl⟩
    exact (toAnnexbOn_of_unwrapped hat hunw psPrefix isSync).2

/-- Two units after lengths of two bytes. -/
theorem two_units : toAnnexbOn 32 [0, 1, 7, 0, 2, 8, 9] 2 [] false =
    some (.ok ([] ++ startCoded [[7], [8, 9]])) :=
  (toAnnexbOn_spec 2 (by decide) (by decide) [] false).1 32 (Nat.le_refl _)
    ⟨[0, 1, 7, 0, 2, 8, 9], by decide⟩ [[7], [8, 9]] (by decide) rfl

/-- A length of all ones wraps around to the byte before the unit. -/
theorem traps_at_four : ¬ Inside [255, 255, 255, 255] 4 []
    (toAnnexbOn 32 [255, 255, 255, 255] 4 [] false) := by
  rintro ⟨us, rest, -, -, h⟩
  have htrap : toAnnexbOn 32 [255, 255, 255, 255] 4 [] false = some (.error {}) := rfl
  rw [htrap] at h
  cases h

end Wandr.Media
