import Mathlib.Data.List.FinRange
import Mathlib.Data.Rat.Floor
import Mathlib.Data.Set.Card
import Wandr.Media.Player

/-!
# The resampler

Sound of another rate is brought to the rate of the device by going through its frames in steps that
are not whole, and taking what is between two frames. The sound comes in packets: the position in
the next one is kept, and the last frame of the one before.

* `LinearResampler.process_spec`: what a packet gives are the steps that fall into it;
* `LinearResampler.playAll_spec`: so packets give what all the frames at once give;
* `seamless_iff`: this is so for each number of channels and each rate, but not for none.
-/

namespace Wandr.Media

variable {K : Type} [Field K]

/-! ## Frames in packets -/

inductive Panic
  | divideByZero
  | outOfRange
  deriving DecidableEq

/-- How far the position is from the packet that comes next, and the last frame before it. -/
structure LinearResampler (K : Type) where
  step : ℚ
  ch : Nat
  pos : ℚ
  last : List K

namespace LinearResampler

def new (src ch : Nat) : LinearResampler K where
  step := src / outRate
  ch := ch
  pos := 0
  last := List.replicate ch 0

def read (b : List K) (i : Nat) : Except Panic K :=
  match b[i]? with
  | some a => .ok a
  | none => .error .outOfRange

/-- The frame at a position, from the two frames around it. -/
def interpolate (s : LinearResampler K) (input : List K) (pos : ℚ) : Except Panic (List K) :=
  let i := ⌊pos⌋.toNat
  let frac := pos - i
  (List.range s.ch).mapM fun c => do
    let a ← if i = 0 then read s.last c else read input ((i - 1) * s.ch + c)
    let b ← read input (i * s.ch + c)
    return a + (b - a) * (frac : K)

/-- Go on from a position until the `n` frames are through. -/
def loop (s : LinearResampler K) (input : List K) (n : Nat) :
    Nat → ℚ → List K → Option (Except Panic (ℚ × List K))
  | 0, _, _ => none
  | fuel + 1, pos, out =>
    if pos < n then
      match s.interpolate input pos with
      | .error e => some (.error e)
      | .ok frame => loop s input n fuel (pos + s.step) (out ++ frame)
    else some (.ok (pos, out))

/-- A packet. Nothing comes of it when the rounds are too few. -/
def process (fuel : Nat) (s : LinearResampler K) (input : List K) :
    Option (Except Panic (LinearResampler K × List K)) :=
  if s.ch = 0 then some (.error .divideByZero)
  else
    let n := input.length / s.ch
    if n = 0 then some (.ok (s, []))
    else
      match s.loop input n fuel s.pos [] with
      | none => none
      | some (.error e) => some (.error e)
      | some (.ok (pos, out)) =>
        let last := (input.take (n * s.ch)).drop ((n - 1) * s.ch)
        if input.length < n * s.ch ∨ last.length ≠ s.last.length then some (.error .outOfRange)
        else some (.ok ({ s with pos := pos - n, last }, out))

/-- Packets one after the other. -/
def playAll (fuel : Nat) : LinearResampler K → List (List K) → Option (Except Panic (List K))
  | _, [] => some (.ok [])
  | s, input :: inputs =>
    match process fuel s input with
    | none => none
    | some (.error e) => some (.error e)
    | some (.ok (s, out)) => (playAll fuel s inputs).map fun r => r.map fun rest => out ++ rest

end LinearResampler

/-- The samples of some frames. -/
def interleave {α : Type} {ch : Nat} (frames : List (Fin ch → α)) : List α :=
  frames.flatMap List.ofFn

/-- Whatever packets the frames come in, the result is the same, with a frame for each step that
    falls into them. -/
def Seamless (K : Type) [Field K] (src ch : Nat) : Prop :=
  ∀ frames : List (Fin ch → K), ∃ out : List K,
    (∀ cut : List (List (Fin ch → K)), cut.flatten = frames → ∃ fuel,
      LinearResampler.playAll fuel (.new src ch) (cut.map interleave) = some (.ok out)) ∧
    out.length = { k : ℕ | k * (src / outRate : ℚ) < frames.length }.ncard * ch

/-! ## Reading frames -/

section Frames

variable {α : Type} {ch : Nat} {fs : List (Fin ch → α)}

theorem length_interleave (fs : List (Fin ch → α)) : (interleave fs).length = fs.length * ch := by
  induction fs with
  | nil => exact (Nat.zero_mul ch).symm
  | cons f fs ih =>
    have hcons : interleave (f :: fs) = List.ofFn f ++ interleave fs := rfl
    rw [hcons, List.length_append, List.length_ofFn, ih, List.length_cons, Nat.succ_mul,
      Nat.add_comm]

theorem interleave_getElem? {i : Nat} (hi : i < fs.length) (c : Fin ch) :
    (interleave fs)[i * ch + c]? = some (fs[i] c) := by
  induction fs generalizing i with
  | nil => exact absurd hi (Nat.not_lt_zero _)
  | cons f fs ih =>
    have hcons : interleave (f :: fs) = List.ofFn f ++ interleave fs := rfl
    rw [hcons]
    cases i with
    | zero =>
      have hc : (c : Nat) < (List.ofFn f).length := by rw [List.length_ofFn]; exact c.2
      rw [Nat.zero_mul, Nat.zero_add, List.getElem?_append_left hc, List.getElem?_ofFn,
        dif_pos c.2]
      rfl
    | succ i =>
      have hlt : i < fs.length := Nat.lt_of_succ_lt_succ hi
      have hidx : (i + 1) * ch + c - ch = i * ch + c := by
        rw [Nat.succ_mul]
        omega
      rw [List.getElem?_append_right, List.length_ofFn, hidx, ih hlt, List.getElem_cons_succ]
      rw [List.length_ofFn, Nat.succ_mul]
      omega

/-- The last frame of some. -/
theorem drop_interleave_concat (fs : List (Fin ch → α)) (f : Fin ch → α) :
    (interleave (fs ++ [f])).drop (fs.length * ch) = List.ofFn f := by
  have happ : interleave (fs ++ [f]) = interleave fs ++ List.ofFn f := by
    rw [interleave, List.flatMap_append]
    exact congrArg (interleave fs ++ ·) (List.append_nil _)
  rw [happ, ← length_interleave, List.drop_left]

end Frames

/-! ## What falls between the frames -/

section Ideal

variable {ch : Nat} {step : ℚ} {frames : List (Fin ch → K)} {n k : Nat}

/-- The frame before the one with an index: before the first one there is silence. -/
def prev (frames : List (Fin ch → K)) (i : Nat) : Fin ch → K :=
  if i = 0 then 0 else frames.getD (i - 1) 0

/-- The frame at a step, from all the frames. -/
def ideal (step : ℚ) (frames : List (Fin ch → K)) (k : Nat) : Fin ch → K :=
  let i := ⌊k * step⌋.toNat
  fun c => prev frames i c + (frames.getD i 0 c - prev frames i c) * ((k * step - i : ℚ) : K)

/-- How many steps fall into the first `n` frames. -/
def count (step : ℚ) (n : Nat) : Nat := ⌈n / step⌉₊

theorem lt_count_iff (hs : 0 < step) : k < count step n ↔ k * step < n := by
  rw [count, Nat.lt_ceil, lt_div_iff₀ hs]

theorem count_le_iff (hs : 0 < step) : count step n ≤ k ↔ n ≤ k * step := by
  rw [← not_lt, lt_count_iff hs, not_lt]

theorem count_mono (hs : 0 < step) {m : Nat} (h : n ≤ m) : count step n ≤ count step m := by
  rw [count_le_iff hs]
  exact (Nat.cast_le.2 h).trans ((count_le_iff hs).1 (Nat.le_refl _))

theorem count_zero : count step 0 = 0 := by
  rw [count, Nat.cast_zero, zero_div, Nat.ceil_zero]

theorem ncard_count (hs : 0 < step) : { k : ℕ | k * step < n }.ncard = count step n := by
  have hset : { k : ℕ | k * step < n } = (Finset.range (count step n) : Set ℕ) := by
    ext k
    rw [Finset.coe_range, Set.mem_Iio, lt_count_iff hs]
    exact Iff.rfl
  rw [hset, Set.ncard_coe_finset, Finset.card_range]

/-- A step is in the frames from the `n`-th one on where it is in all of them. -/
theorem floor_sub (h : n ≤ k * step) : ⌊k * step - n⌋.toNat + n = ⌊k * step⌋.toNat := by
  have hle : (n : ℤ) ≤ ⌊k * step⌋ := Int.le_floor.2 (by exact_mod_cast h)
  rw [Int.floor_sub_natCast]
  omega

theorem floor_lt {m : Nat} (hpos : 0 ≤ k * step) (h : k * step < m) : ⌊k * step⌋.toNat < m := by
  have hlt : ⌊k * step⌋ < m := Int.floor_lt.2 (by exact_mod_cast h)
  have hge : 0 ≤ ⌊k * step⌋ := Int.floor_nonneg.2 hpos
  omega

end Ideal

/-! ## Packets -/

/-- Each channel by itself. -/
theorem mapM_range {ε α : Type} {ch : Nat} {g : Nat → Except ε α} {f : Fin ch → α}
    (h : ∀ c : Fin ch, g c = .ok (f c)) : (List.range ch).mapM g = .ok (List.ofFn f) := by
  have hmap (cs : List (Fin ch)) : (cs.map Fin.val).mapM g = .ok (cs.map f) := by
    induction cs with
    | nil => rfl
    | cons c cs ih =>
      rw [List.map_cons, List.mapM_cons, h, ih]
      rfl
  rw [← List.map_coe_finRange_eq_range, hmap, List.ofFn_eq_map]

namespace LinearResampler

variable {ch : Nat} {step : ℚ} {frames done chunk rest : List (Fin ch → K)}
  {s : LinearResampler K} {k : Nat}

/-- The position is after the first `n` frames. -/
structure At (step : ℚ) (frames : List (Fin ch → K)) (n : Nat) (s : LinearResampler K) : Prop where
  step_eq : s.step = step
  ch_eq : s.ch = ch
  pos_eq : s.pos = count step n * step - n
  last_eq : s.last = List.ofFn (prev frames n)

theorem at_new (src : Nat) (frames : List (Fin ch → K)) :
    At (src / outRate : ℚ) frames 0 (new src ch : LinearResampler K) where
  step_eq := rfl
  ch_eq := rfl
  pos_eq := by
    rw [count_zero, Nat.cast_zero, zero_mul, sub_zero]
    rfl
  last_eq := by
    rw [prev, if_pos rfl]
    exact (List.ofFn_const ch (0 : K)).symm

/-- A channel of a frame of a packet. -/
theorem read_interleave {i : Nat} (hi : i < chunk.length) (hf : frames = done ++ (chunk ++ rest))
    (c : Fin ch) : read (interleave chunk) (i * ch + c) = .ok (frames.getD (i + done.length) 0 c) := by
  have hget : frames.getD (i + done.length) 0 = chunk[i] := by
    rw [hf, List.getD_eq_getElem?_getD, List.getElem?_append_right (Nat.le_add_left _ _),
      Nat.add_sub_cancel, List.getElem?_append_left hi, List.getElem?_eq_getElem hi,
      Option.getD_some]
  rw [read, interleave_getElem? hi, hget]

/-- The frame at a step that falls into a packet is read from the packet and the frame before it. -/
theorem interpolate_spec (h : At step frames done.length s) (hf : frames = done ++ (chunk ++ rest))
    (hle : (done.length : ℚ) ≤ k * step)
    (hlt : k * step < ((done.length + chunk.length : Nat) : ℚ)) :
    s.interpolate (interleave chunk) (k * step - done.length) =
      .ok (List.ofFn (ideal step frames k)) := by
  have hfloor := floor_sub hle
  have hj := floor_lt ((Nat.cast_nonneg _).trans hle) hlt
  rw [interpolate, ideal]
  dsimp only
  generalize ⌊k * step⌋.toNat = j at hfloor hj ⊢
  generalize ⌊k * step - done.length⌋.toNat = i at hfloor ⊢
  subst hfloor
  have hi : i < chunk.length := by omega
  have hfrac : (k * step - done.length - i : ℚ) = k * step - (i + done.length : Nat) := by
    push_cast
    ring
  rw [h.ch_eq, hfrac]
  refine mapM_range fun c => ?_
  have hb := read_interleave hi hf c
  by_cases h0 : i = 0
  · -- The frame before the packet is the last one of the packet before.
    subst h0
    have ha : read s.last c = .ok (prev frames (0 + done.length) c) := by
      rw [read, h.last_eq, List.getElem?_ofFn, dif_pos c.2, Nat.zero_add]
    rw [if_pos rfl, ha, hb]
    rfl
  · have hprev := read_interleave (i := i - 1) (by omega) hf c
    have ha : frames.getD (i - 1 + done.length) 0 c = prev frames (i + done.length) c := by
      have hidx : i - 1 + done.length = i + done.length - 1 := by omega
      rw [prev, if_neg (by omega), hidx]
    rw [if_neg h0, hprev, ha, hb]
    rfl

/-- The steps from one on that fall into a packet. -/
theorem loop_spec (hs : 0 < step) (h : At step frames done.length s)
    (hf : frames = done ++ (chunk ++ rest)) {fuel : Nat}
    (hk : count step done.length ≤ k) (hle : k ≤ count step (done.length + chunk.length))
    (hfuel : count step (done.length + chunk.length) - k < fuel) (out : List K) :
    s.loop (interleave chunk) chunk.length fuel (k * step - done.length) out =
      some (.ok (count step (done.length + chunk.length) * step - done.length,
        out ++ (List.range' k (count step (done.length + chunk.length) - k)).flatMap
          fun k => List.ofFn (ideal step frames k))) := by
  induction fuel generalizing k out with
  | zero => exact absurd hfuel (Nat.not_lt_zero _)
  | succ fuel ih =>
    have hcond : k * step - done.length < (chunk.length : ℚ) ↔
        k < count step (done.length + chunk.length) := by
      rw [lt_count_iff hs, sub_lt_iff_lt_add', Nat.cast_add]
    rw [loop]
    by_cases hlt : k < count step (done.length + chunk.length)
    · have hframe := interpolate_spec h hf ((count_le_iff hs).1 hk) ((lt_count_iff hs).1 hlt)
      have hnext : k * step - done.length + s.step = (k + 1 : Nat) * step - done.length := by
        rw [h.step_eq]
        push_cast
        ring
      have hlen : count step (done.length + chunk.length) - k =
          count step (done.length + chunk.length) - (k + 1) + 1 := by omega
      rw [if_pos (hcond.2 hlt), hframe]
      dsimp only
      rw [hnext, ih (Nat.le_succ_of_le hk) hlt (by omega), hlen, List.range'_succ,
        List.flatMap_cons, List.append_assoc]
    · have heq : k = count step (done.length + chunk.length) := Nat.le_antisymm hle (Nat.not_lt.1 hlt)
      rw [if_neg fun hc => hlt (hcond.1 hc), heq, Nat.sub_self, List.range'_zero, List.flatMap_nil,
        List.append_nil]

/-- What a packet gives are the steps that fall into it. -/
theorem process_spec (hs : 0 < step) (hch : 0 < ch) (h : At step frames done.length s)
    (hf : frames = done ++ (chunk ++ rest)) {fuel : Nat}
    (hfuel : count step (done.length + chunk.length) < fuel) :
    ∃ s', At step frames (done ++ chunk).length s' ∧ s.process fuel (interleave chunk) =
      some (.ok (s', (List.range' (count step done.length)
        (count step (done.length + chunk.length) - count step done.length)).flatMap
          fun k => List.ofFn (ideal step frames k))) := by
  have hn : (interleave chunk).length / s.ch = chunk.length := by
    rw [length_interleave, h.ch_eq, Nat.mul_div_cancel _ hch]
  rw [process, if_neg (h.ch_eq ▸ Nat.pos_iff_ne_zero.1 hch)]
  dsimp only
  rw [hn]
  rcases List.eq_nil_or_concat' chunk with rfl | ⟨init, f, rfl⟩
  · refine ⟨s, by rwa [List.append_nil], ?_⟩
    rw [List.length_nil, if_pos rfl, Nat.add_zero, Nat.sub_self]
    rfl
  · have hlen : (init ++ [f]).length = init.length + 1 := List.length_append
    have hloop := loop_spec hs h hf (Nat.le_refl _) (count_mono hs (Nat.le_add_right _ _))
      (Nat.lt_of_le_of_lt (Nat.sub_le _ _) hfuel) []
    have hlast : ((interleave (init ++ [f])).take ((init ++ [f]).length * ch)).drop
        (((init ++ [f]).length - 1) * ch) = List.ofFn f := by
      rw [← length_interleave, List.take_length, hlen, Nat.add_sub_cancel]
      exact drop_interleave_concat init f
    have hprev : prev frames (done ++ (init ++ [f])).length = f := by
      have hfr : frames = done ++ init ++ f :: rest := by
        rw [hf]
        simp only [List.append_assoc, List.singleton_append]
      have hidx : (done ++ (init ++ [f])).length - 1 = (done ++ init).length := by
        simp only [List.length_append, List.length_singleton]
        omega
      rw [prev, if_neg (by simp), hidx, hfr, List.getD_eq_getElem?_getD,
        List.getElem?_append_right (Nat.le_refl _), Nat.sub_self, List.getElem?_cons_zero,
        Option.getD_some]
    rw [if_neg (by omega), h.pos_eq, hloop]
    dsimp only
    rw [h.ch_eq, hlast, length_interleave, h.last_eq, List.length_ofFn, List.length_ofFn,
      if_neg (by simp)]
    refine ⟨⟨s.step, ch, _, _⟩, ⟨h.step_eq, rfl, ?_, ?_⟩, rfl⟩
    · have hsum : (done ++ (init ++ [f])).length = done.length + (init ++ [f]).length :=
        List.length_append
      rw [hsum]
      push_cast
      ring
    · exact congrArg List.ofFn hprev.symm

/-- Steps that do not move on do not end. -/
theorem loop_of_step_zero (hs : s.step = 0) (input : List K) {n : Nat} {pos : ℚ} (hpos : pos < n)
    (fuel : Nat) (out : List K) (r : ℚ × List K) :
    s.loop input n fuel pos out ≠ some (.ok r) := by
  induction fuel generalizing out with
  | zero => exact (Option.some_ne_none _).symm
  | succ fuel ih =>
    rw [loop, if_pos hpos, hs, add_zero]
    split
    · intro h
      cases h
    · exact ih _

/-- Packets give the steps that fall into all of them. -/
theorem playAll_spec (hs : 0 < step) (hch : 0 < ch) {cut : List (List (Fin ch → K))} {fuel : Nat}
    (h : At step frames done.length s) (hf : frames = done ++ cut.flatten)
    (hfuel : count step frames.length < fuel) :
    s.playAll fuel (cut.map interleave) = some (.ok ((List.range' (count step done.length)
      (count step frames.length - count step done.length)).flatMap
        fun k => List.ofFn (ideal step frames k))) := by
  induction cut generalizing s done with
  | nil =>
    have hlen : frames.length = done.length := by rw [hf, List.flatten_nil, List.append_nil]
    rw [hlen, Nat.sub_self]
    rfl
  | cons chunk cut ih =>
    rw [List.flatten_cons] at hf
    have hlen : done.length + chunk.length ≤ frames.length := by
      rw [hf, List.length_append, List.length_append]
      omega
    have hle := count_mono hs hlen
    have hle' := count_mono hs (Nat.le_add_right done.length chunk.length)
    obtain ⟨s', hs', hp⟩ := process_spec hs hch h hf (Nat.lt_of_le_of_lt hle hfuel)
    have hrest := ih hs' (by rw [hf, List.append_assoc])
    have hrange : List.range' (count step done.length)
          (count step (done.length + chunk.length) - count step done.length) ++
        List.range' (count step (done.length + chunk.length))
          (count step frames.length - count step (done.length + chunk.length)) =
        List.range' (count step done.length)
          (count step frames.length - count step done.length) := by
      have happ := List.range'_append_1 (s := count step done.length)
        (m := count step (done.length + chunk.length) - count step done.length)
        (n := count step frames.length - count step (done.length + chunk.length))
      rw [Nat.add_sub_cancel' hle'] at happ
      rw [happ]
      congr 1
      omega
    rw [List.length_append] at hrest
    rw [List.map_cons, playAll, hp]
    dsimp only
    rw [hrest, ← hrange, List.flatMap_append]
    rfl

end LinearResampler

/-! ## All packets -/

variable {src ch : Nat}

theorem seamless_of_pos (hsrc : 0 < src) (hch : 0 < ch) : Seamless K src ch := by
  intro frames
  have hs : 0 < (src / outRate : ℚ) := div_pos (Nat.cast_pos.2 hsrc) (by norm_num [outRate])
  refine ⟨(List.range' 0 (count (src / outRate) frames.length)).flatMap fun k =>
    List.ofFn (ideal (src / outRate) frames k), fun cut hcut => ?_, ?_⟩
  · have hat : LinearResampler.At (src / outRate : ℚ) frames ([] : List (Fin ch → K)).length
        (.new src ch) := LinearResampler.at_new src frames
    have hf : frames = [] ++ cut.flatten := hcut.symm
    have hplay := LinearResampler.playAll_spec hs hch hat hf (Nat.lt_succ_self _)
    rw [List.length_nil, count_zero] at hplay
    exact ⟨_, hplay⟩
  · rw [ncard_count hs, List.length_flatMap]
    simp

/-- Frames without channels are cut by dividing by zero. -/
theorem not_seamless_of_noChannel : ¬ Seamless K src 0 := by
  intro h
  obtain ⟨out, hcut, -⟩ := h []
  obtain ⟨fuel, hfuel⟩ := hcut [[]] rfl
  cases hfuel

/-- Without a rate the first packet does not end. -/
theorem not_seamless_of_noRate (hch : 0 < ch) : ¬ Seamless K 0 ch := by
  intro h
  obtain ⟨out, hcut, -⟩ := h [0]
  obtain ⟨fuel, hfuel⟩ := hcut [[0]] rfl
  have hn : (interleave [(0 : Fin ch → K)]).length / ch = 1 := by
    rw [length_interleave, List.length_singleton, Nat.one_mul, Nat.div_self hch]
  have hstep : (LinearResampler.new 0 ch : LinearResampler K).step = 0 := by
    rw [LinearResampler.new, Nat.cast_zero, zero_div]
  have hloop := LinearResampler.loop_of_step_zero hstep (interleave [(0 : Fin ch → K)]) (n := 1)
    (by norm_num : (0 : ℚ) < ((1 : Nat) : ℚ)) fuel []
  have hnew : (LinearResampler.new 0 ch : LinearResampler K).ch = ch := rfl
  rw [List.map_singleton, LinearResampler.playAll, LinearResampler.process, hnew,
    if_neg (Nat.pos_iff_ne_zero.1 hch)] at hfuel
  dsimp only at hfuel
  rw [hn, if_neg Nat.one_ne_zero] at hfuel
  split at hfuel
  · cases hfuel
  · cases hfuel
  · next s' rest hp =>
    split at hp
    · cases hp
    · cases hp
    · next pos r hr => exact hloop _ hr

/-- The output does not depend on the packets, and has a frame for each step in the input, if and
    only if there is a channel and a rate. -/
theorem seamless_iff (K : Type) [Field K] (src ch : Nat) :
    Seamless K src ch ↔ 0 < ch ∧ 0 < src := by
  constructor
  · intro h
    have hch : 0 < ch := by
      refine Nat.pos_of_ne_zero ?_
      rintro rfl
      exact not_seamless_of_noChannel h
    refine ⟨hch, Nat.pos_of_ne_zero ?_⟩
    rintro rfl
    exact not_seamless_of_noRate hch h
  · exact fun h => seamless_of_pos h.2 h.1

/-- Sound in stereo whose rate is said to be zero. -/
theorem zero_rate_hangs : ¬ Seamless ℚ 0 2 := not_seamless_of_noRate (by decide)

end Wandr.Media
