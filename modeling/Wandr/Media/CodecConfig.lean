import Wandr.Media.AnnexB

/-!
# Codec configurations

A container keeps the parameter sets of a video in a record, each after its length, and says in it
how long the lengths in the samples are. The decoder is given the parameter sets behind start
codes.

* `takeUnits_frames`: units after their lengths are taken as they are;
* `takeUnits_spec`: what is taken lies in the record;
* `codecConfig_spec`: the records `AvcC` and `HvcC` are read as they were written, and any other
  bytes give nothing, or units that lie in them.
-/

namespace Wandr.Media

/-! ## Reading a record -/

/-- A number of two bytes. -/
def be16At (cp : List UInt8) (i : Nat) : Option Nat := do
  return BigEndian.read [← cp[i]?, ← cp[i + 1]?]

/-- Some bytes, if they are there. -/
def getRange (cp : List UInt8) (i j : Nat) : Option (List UInt8) := (Slice.sub cp i j).toOption

/-- Units from an index on, each behind a start code, and the index after them. -/
def takeUnits (cp : List UInt8) : Nat → Nat → List UInt8 → Option (Nat × List UInt8)
  | 0, i, out => some (i, out)
  | n + 1, i, out => do
    let l ← be16At cp i
    let unit ← getRange cp (i + 2) (i + 2 + l)
    takeUnits cp n (i + 2 + l) (out ++ startCode ++ unit)

/-- The parameter sets of H.264, and the size of a length. -/
def parseAvcc (cp : List UInt8) : Option (List UInt8 × Nat) :=
  if cp.length < 7 then none
  else do
    let nalLen := (cp.getD 4 0 &&& 0x03).toNat + 1
    let numSps := cp.getD 5 0 &&& 0x1f
    let (i, out) ← takeUnits cp numSps.toNat 6 []
    let numPps ← cp[i]?
    let (_, out) ← takeUnits cp numPps.toNat (i + 1) out
    return (out, nalLen)

def takeArrays (cp : List UInt8) : Nat → Nat → List UInt8 → Option (Nat × List UInt8)
  | 0, i, out => some (i, out)
  | n + 1, i, out => do
    let num ← be16At cp (i + 1)
    let (i, out) ← takeUnits cp num (i + 3) out
    takeArrays cp n i out

/-- The parameter sets of H.265, and the size of a length. -/
def parseHvcc (cp : List UInt8) : Option (List UInt8 × Nat) := do
  let nalLen := ((← cp[21]?) &&& 0x03).toNat + 1
  let numArrays ← cp[22]?
  let (_, out) ← takeArrays cp numArrays.toNat 23 []
  return (out, nalLen)

/-! ## Records -/

/-- A unit whose length takes two bytes. -/
def Short (u : List UInt8) : Prop := u.length < 65536

/-- The configuration of H.264, with what may follow it. -/
structure AvcC where
  profile : UInt8
  compatibility : UInt8
  level : UInt8
  nalLen : Nat
  sps : List (List UInt8)
  pps : List (List UInt8)
  ext : List UInt8 := []
  one_le : 1 ≤ nalLen
  le_four : nalLen ≤ 4
  sps_le : sps.length ≤ 31
  pps_le : pps.length ≤ 255
  short : ∀ u ∈ sps ++ pps, Short u

def AvcC.bytes (r : AvcC) : List UInt8 :=
  [1, r.profile, r.compatibility, r.level, 0xFC ||| .ofNat (r.nalLen - 1),
      0xE0 ||| .ofNat r.sps.length] ++
    (frames 2 r.sps ++ (.ofNat r.pps.length :: (frames 2 r.pps ++ r.ext)))

/-- Units of one kind. -/
structure NalArray where
  kind : UInt8
  units : List (List UInt8)
  units_le : units.length ≤ 65535
  short : ∀ u ∈ units, Short u

def NalArray.bytes (a : NalArray) : List UInt8 :=
  a.kind :: (BigEndian.write 2 a.units.length ++ frames 2 a.units)

/-- The configuration of H.265, with what may follow it. -/
structure HvcC where
  /-- Everything up to the average frame rate. -/
  head : List UInt8
  /-- The frame rate and the layers, in 6 bits. -/
  layers : Nat
  nalLen : Nat
  arrays : List NalArray
  ext : List UInt8 := []
  head_length : head.length = 21
  layers_lt : layers < 64
  one_le : 1 ≤ nalLen
  le_four : nalLen ≤ 4
  arrays_le : arrays.length ≤ 255

def HvcC.bytes (r : HvcC) : List UInt8 :=
  r.head ++ ([.ofNat (r.layers * 4 + (r.nalLen - 1)), .ofNat r.arrays.length] ++
    (r.arrays.flatMap NalArray.bytes ++ r.ext))

/-- What was read are units of the record, and a size. -/
def FromInside (cp : List UInt8) (r : Option (List UInt8 × Nat)) : Prop :=
  ∀ out nalLen, r = some (out, nalLen) →
    1 ≤ nalLen ∧ nalLen ≤ 4 ∧ ∃ us, (∀ u ∈ us, u <:+: cp) ∧ out = startCoded us

/-! ## What is read of a record that was put together -/

variable {cp p q out out' : List UInt8} {us : List (List UInt8)} {i j n : Nat}

theorem be16At_write (h : cp = p ++ (BigEndian.write 2 n ++ q)) (hn : n < 65536) :
    be16At cp p.length = some n := by
  obtain ⟨a, b, hab⟩ : ∃ a b, BigEndian.write 2 n = [a, b] :=
    List.length_eq_two.1 (BigEndian.length_write 2 n)
  have hr : BigEndian.read [a, b] = n := hab ▸ BigEndian.read_write hn
  rw [hab] at h
  subst h
  simp [be16At, hr]

theorem getRange_append {u : List UInt8} (h : cp = p ++ (u ++ q)) :
    getRange cp p.length (p.length + u.length) = some u := by
  rw [getRange, Slice.sub_append h rfl rfl]
  rfl

/-- Units after their lengths are taken as they are. -/
theorem takeUnits_frames (hus : ∀ u ∈ us, Short u) (h : cp = p ++ (frames 2 us ++ q))
    (hi : p.length = i) :
    takeUnits cp us.length i out = some (i + (frames 2 us).length, out ++ startCoded us) := by
  induction us generalizing p i out with
  | nil => simp [takeUnits, frames, startCoded]
  | cons u us ih =>
    subst hi
    have hcp : cp = p ++ (BigEndian.write 2 u.length ++ (u ++ (frames 2 us ++ q))) := by
      rw [h, frames_cons, frame]
      simp only [List.append_assoc]
    have hlen : be16At cp p.length = some u.length :=
      be16At_write hcp (hus u List.mem_cons_self)
    have hunit : getRange cp (p.length + 2) (p.length + 2 + u.length) = some u := by
      have hp : (p ++ BigEndian.write 2 u.length).length = p.length + 2 := by
        rw [List.length_append, BigEndian.length_write]
      rw [← hp]
      exact getRange_append (q := frames 2 us ++ q) (by rw [hcp, List.append_assoc])
    have hrest : takeUnits cp us.length (p.length + 2 + u.length) (out ++ startCode ++ u) =
        some (p.length + 2 + u.length + (frames 2 us).length,
          out ++ startCode ++ u ++ startCoded us) := by
      refine ih (p := p ++ frame 2 u) (fun v hv => hus v (List.mem_cons_of_mem _ hv)) ?_ ?_
      · rw [h, frames_cons]
        simp only [List.append_assoc]
      · rw [List.length_append, length_frame, Nat.add_assoc]
    rw [List.length_cons, takeUnits, hlen, Option.bind_eq_bind, Option.bind_some, hunit,
      Option.bind_eq_bind, Option.bind_some, hrest, frames_cons, startCoded_cons,
      List.length_append, length_frame]
    simp only [List.append_assoc, Nat.add_assoc]

/-! ### Records -/

theorem toNat_ofNat_of_le (h : n ≤ 255) : (UInt8.ofNat n).toNat = n :=
  UInt8.toNat_ofNat_of_lt' (Nat.lt_succ_of_le h)

theorem parseAvcc_bytes (r : AvcC) :
    parseAvcc r.bytes = some (startCoded (r.sps ++ r.pps), r.nalLen) := by
  have hsize : ∀ n < 4, ((0xFC ||| UInt8.ofNat n) &&& 0x03).toNat = n := by decide
  have hcount : ∀ n < 32, ((0xE0 ||| UInt8.ofNat n) &&& 0x1f).toNat = n := by decide
  obtain ⟨hsps, hpps⟩ := List.forall_mem_append.1 r.short
  let head : List UInt8 := [1, r.profile, r.compatibility, r.level, 0xFC ||| .ofNat (r.nalLen - 1),
    0xE0 ||| .ofNat r.sps.length]
  have h₁ : takeUnits r.bytes r.sps.length 6 [] =
      some (6 + (frames 2 r.sps).length, startCoded r.sps) :=
    takeUnits_frames (p := head) hsps rfl rfl
  have hlen : (head ++ frames 2 r.sps).length = 6 + (frames 2 r.sps).length :=
    List.length_append
  have hnum : r.bytes[6 + (frames 2 r.sps).length]? = some (.ofNat r.pps.length) := by
    have hbytes : r.bytes = head ++ frames 2 r.sps ++
        .ofNat r.pps.length :: (frames 2 r.pps ++ r.ext) := (List.append_assoc _ _ _).symm
    rw [hbytes, ← hlen, List.getElem?_append_right (Nat.le_refl _), Nat.sub_self,
      List.getElem?_cons_zero]
  have h₂ : takeUnits r.bytes r.pps.length (6 + (frames 2 r.sps).length + 1)
      (startCoded r.sps) = some (6 + (frames 2 r.sps).length + 1 + (frames 2 r.pps).length,
        startCoded r.sps ++ startCoded r.pps) := by
    refine takeUnits_frames (p := head ++ (frames 2 r.sps ++ [.ofNat r.pps.length])) (q := r.ext)
      hpps ?_ ?_
    · rw [AvcC.bytes]
      simp only [head, List.append_assoc, List.singleton_append]
    · rw [← List.append_assoc, List.length_append, hlen, List.length_singleton]
  have hsps' : (r.bytes.getD 5 0 &&& 0x1f).toNat = r.sps.length :=
    hcount r.sps.length (Nat.lt_succ_of_le r.sps_le)
  have hnal : (r.bytes.getD 4 0 &&& 0x03).toNat + 1 = r.nalLen := by
    have hone := r.one_le
    have hfour := r.le_four
    exact (congrArg (· + 1) (hsize (r.nalLen - 1) (by omega))).trans (Nat.sub_add_cancel hone)
  have hmin : ¬ r.bytes.length < 7 := by
    rw [AvcC.bytes]
    simp only [List.length_append, List.length_cons]
    omega
  rw [parseAvcc, if_neg hmin]
  simp only [hsps', h₁, hnum, toNat_ofNat_of_le r.pps_le, h₂, hnal, Option.bind_eq_bind,
    Option.bind_some, startCoded_append]
  rfl

/-! ### Arrays of units -/

theorem length_nalArray (a : NalArray) : a.bytes.length = 3 + (frames 2 a.units).length := by
  rw [NalArray.bytes, List.length_cons, List.length_append, BigEndian.length_write]
  omega

/-- The units of arrays are taken in order. -/
theorem takeArrays_bytes {as : List NalArray} (h : cp = p ++ (as.flatMap NalArray.bytes ++ q))
    (hi : p.length = i) : ∃ j, takeArrays cp as.length i out =
      some (j, out ++ startCoded (as.flatMap NalArray.units)) := by
  induction as generalizing p i out with
  | nil => exact ⟨i, by simp [takeArrays, startCoded]⟩
  | cons a as ih =>
    subst hi
    have hcp : cp = p ++ ([a.kind] ++ (BigEndian.write 2 a.units.length ++
        (frames 2 a.units ++ (as.flatMap NalArray.bytes ++ q)))) := by
      rw [h, List.flatMap_cons, NalArray.bytes]
      simp only [List.append_assoc, List.cons_append, List.nil_append]
    have hnum : be16At cp (p.length + 1) = some a.units.length := by
      have hp : (p ++ [a.kind]).length = p.length + 1 := List.length_append
      rw [← hp]
      refine be16At_write (q := frames 2 a.units ++ (as.flatMap NalArray.bytes ++ q)) ?_
        (Nat.lt_succ_of_le a.units_le)
      rw [hcp]
      simp only [List.append_assoc]
    have hunits : takeUnits cp a.units.length (p.length + 3) out =
        some (p.length + 3 + (frames 2 a.units).length, out ++ startCoded a.units) := by
      refine takeUnits_frames (p := p ++ ([a.kind] ++ BigEndian.write 2 a.units.length))
        (q := as.flatMap NalArray.bytes ++ q) a.short ?_ ?_
      · rw [hcp]
        simp only [List.append_assoc]
      · rw [List.length_append, List.length_append, BigEndian.length_write]
        rfl
    obtain ⟨j, hj⟩ := ih (p := p ++ a.bytes) (i := p.length + 3 + (frames 2 a.units).length)
      (by rw [h, List.flatMap_cons]; simp only [List.append_assoc])
      (by rw [List.length_append, length_nalArray, Nat.add_assoc])
    refine ⟨j, ?_⟩
    rw [List.length_cons, takeArrays, hnum, Option.bind_eq_bind, Option.bind_some, hunits,
      Option.bind_eq_bind, Option.bind_some]
    dsimp only
    rw [hj, List.flatMap_cons, startCoded_append, List.append_assoc]

theorem parseHvcc_bytes (r : HvcC) :
    parseHvcc r.bytes = some (startCoded (r.arrays.flatMap NalArray.units), r.nalLen) := by
  have hsize : ∀ l < 64, ∀ n < 4, (UInt8.ofNat (l * 4 + n) &&& 0x03).toNat = n := by decide
  have hnal : r.bytes[21]? = some (.ofNat (r.layers * 4 + (r.nalLen - 1))) := by
    rw [HvcC.bytes, List.getElem?_append_right (Nat.le_of_eq r.head_length), r.head_length]
    rfl
  have hnum : r.bytes[22]? = some (.ofNat r.arrays.length) := by
    rw [HvcC.bytes, List.getElem?_append_right (r.head_length ▸ Nat.le_succ 21), r.head_length]
    rfl
  obtain ⟨j, hj⟩ : ∃ j, takeArrays r.bytes r.arrays.length 23 [] =
      some (j, [] ++ startCoded (r.arrays.flatMap NalArray.units)) := by
    refine takeArrays_bytes (q := r.ext)
      (p := r.head ++ [.ofNat (r.layers * 4 + (r.nalLen - 1)), .ofNat r.arrays.length]) ?_ ?_
    · exact (List.append_assoc _ _ _).symm
    · rw [List.length_append, r.head_length]
      rfl
  have hone := r.one_le
  have hfour := r.le_four
  have hsize' := hsize r.layers r.layers_lt (r.nalLen - 1) (by omega)
  rw [parseHvcc, hnal, Option.bind_eq_bind, Option.bind_some, hsize', Nat.sub_add_cancel hone,
    hnum, Option.bind_eq_bind, Option.bind_some, toNat_ofNat_of_le r.arrays_le, hj]
  rfl

/-! ## What is read of any bytes -/

theorem infix_of_getRange {u : List UInt8} (h : getRange cp i j = some u) : u <:+: cp := by
  rw [getRange, Slice.sub] at h
  split at h
  · obtain rfl := Option.some.inj h
    exact (List.drop_suffix i _).isInfix.trans (List.take_prefix j cp).isInfix
  · cases h

/-- What is taken are units that lie in the bytes. -/
theorem takeUnits_spec (h : takeUnits cp n i out = some (j, out')) :
    ∃ us, (∀ u ∈ us, u <:+: cp) ∧ out' = out ++ startCoded us := by
  induction n generalizing i out with
  | zero =>
    cases h
    exact ⟨[], List.forall_mem_nil _, (List.append_nil _).symm⟩
  | succ n ih =>
    rw [takeUnits] at h
    obtain ⟨l, -, h⟩ := Option.bind_eq_some_iff.1 h
    obtain ⟨u, hu, h⟩ := Option.bind_eq_some_iff.1 h
    obtain ⟨us, hus, rfl⟩ := ih h
    refine ⟨u :: us, List.forall_mem_cons.2 ⟨infix_of_getRange hu, hus⟩, ?_⟩
    rw [startCoded_cons]
    simp only [List.append_assoc]

theorem takeArrays_spec (h : takeArrays cp n i out = some (j, out')) :
    ∃ us, (∀ u ∈ us, u <:+: cp) ∧ out' = out ++ startCoded us := by
  induction n generalizing i out with
  | zero =>
    cases h
    exact ⟨[], List.forall_mem_nil _, (List.append_nil _).symm⟩
  | succ n ih =>
    rw [takeArrays] at h
    obtain ⟨num, -, h⟩ := Option.bind_eq_some_iff.1 h
    obtain ⟨⟨k, mid⟩, hmid, h⟩ := Option.bind_eq_some_iff.1 h
    obtain ⟨us, hus, rfl⟩ := takeUnits_spec hmid
    obtain ⟨vs, hvs, rfl⟩ := ih h
    refine ⟨us ++ vs, List.forall_mem_append.2 ⟨hus, hvs⟩, ?_⟩
    rw [startCoded_append, List.append_assoc]

/-- Two bits say a size from 1 to 4. -/
theorem nalLen_le (b : UInt8) : (b &&& 0x03).toNat + 1 ≤ 4 := by
  rw [UInt8.toNat_and]
  exact Nat.succ_le_succ Nat.and_le_right

theorem parseAvcc_inside (cp : List UInt8) : FromInside cp (parseAvcc cp) := by
  intro out nalLen h
  rw [parseAvcc] at h
  split at h
  · cases h
  obtain ⟨⟨i, mid⟩, hsps, h⟩ := Option.bind_eq_some_iff.1 h
  obtain ⟨numPps, -, h⟩ := Option.bind_eq_some_iff.1 h
  obtain ⟨⟨j, out'⟩, hpps, h⟩ := Option.bind_eq_some_iff.1 h
  cases h
  obtain ⟨us, hus, rfl⟩ := takeUnits_spec hsps
  obtain ⟨vs, hvs, rfl⟩ := takeUnits_spec hpps
  refine ⟨Nat.succ_pos _, nalLen_le _, us ++ vs, List.forall_mem_append.2 ⟨hus, hvs⟩, ?_⟩
  rw [startCoded_append]
  rfl

theorem parseHvcc_inside (cp : List UInt8) : FromInside cp (parseHvcc cp) := by
  intro out nalLen h
  obtain ⟨b, -, h⟩ := Option.bind_eq_some_iff.1 h
  obtain ⟨numArrays, -, h⟩ := Option.bind_eq_some_iff.1 h
  obtain ⟨⟨j, out'⟩, harrays, h⟩ := Option.bind_eq_some_iff.1 h
  cases h
  obtain ⟨us, hus, rfl⟩ := takeArrays_spec harrays
  exact ⟨Nat.succ_pos _, nalLen_le b, us, hus, rfl⟩

/-- The parameter sets of a record are read in order, with the size of a length, and any other bytes
    give nothing, or units that lie in them. -/
theorem codecConfig_spec :
    (∀ r : AvcC, parseAvcc r.bytes = some (startCoded (r.sps ++ r.pps), r.nalLen)) ∧
    (∀ r : HvcC, parseHvcc r.bytes =
      some (startCoded (r.arrays.flatMap NalArray.units), r.nalLen)) ∧
    ∀ cp, FromInside cp (parseAvcc cp) ∧ FromInside cp (parseHvcc cp) :=
  ⟨parseAvcc_bytes, parseHvcc_bytes, fun cp => ⟨parseAvcc_inside cp, parseHvcc_inside cp⟩⟩

/-- One SPS and one PPS, after lengths of four bytes. -/
example : parseAvcc [1, 66, 0, 30, 0xFF, 0xE1, 0, 2, 0x67, 66, 1, 0, 1, 0x68] =
    some ([0, 0, 0, 1, 0x67, 66, 0, 0, 0, 1, 0x68], 4) := by decide

end Wandr.Media
