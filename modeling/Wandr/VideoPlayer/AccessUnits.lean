import Mathlib.Algebra.Ring.Nat
import Wandr.Lib.ByteStream
import Wandr.Lib.Slice

/-!
# Access units

A raw video file is a byte stream of units. They are gathered into access units, each of which is
to be one coded picture: the units that lead it, and its slices.

* `accessUnits`: how the bytes are split;
* `accessUnits_cut`: what comes of bytes whose start codes are known;
* `accessUnits_iff`: nothing is lost unless the bytes end in a start code, and access units are
  pictures if and only if each picture has one slice and only the first one has leading units.
-/

namespace Wandr.VideoPlayer

open Slice ByteStream

/-! ## Splitting -/

section Code

variable (buf : List UInt8)

def isCode (i : Nat) : Checked Bool := do
  return (← get buf i) == 0 && (← get buf (i + 1)) == 0 && (← get buf (i + 2)) == 1

/-- Where the start code at an index begins, as it may have a fourth byte. -/
def codeStart (i : Nat) : Checked Nat :=
  if i > 0 then do
    if (← get buf (i - 1)) == 0 then return i - 1 else return i
  else return i

/-- The start codes from an index on, and where what follows each begins. -/
def starts (i : Nat) : Checked (List (Nat × Nat)) :=
  if i + 3 ≤ buf.length then do
    if ← isCode buf i then
      let sc ← codeStart buf i
      return (sc, i + 3) :: (← starts (i + 3))
    else starts (i + 1)
  else return []
termination_by buf.length - i

structure Gathered where
  aus : List (List UInt8 × Bool) := []
  cur : List UInt8 := []
  hasVcl : Bool := false
  idr : Bool := false

/-- A unit whose first byte is `t`, with its start code. -/
def Gathered.take (g : Gathered) (t : UInt8) (bytes : List UInt8) : Gathered :=
  let t := t &&& 0x1f
  let isVcl := t == 1 || t == 5
  let g := if isVcl && g.hasVcl then { aus := g.aus ++ [(g.cur, g.idr)] } else g
  let g := { g with cur := g.cur ++ bytes }
  if isVcl then { g with hasVcl := true, idr := g.idr || t == 5 } else g

def gather (g : Gathered) : List (Nat × Nat) → Checked Gathered
  | [] => return g
  | (sc, payload) :: rest => do
    let stop := (rest.head?.map Prod.fst).getD buf.length
    let t ← get buf payload
    gather (g.take t (← sub buf sc stop)) rest

def Gathered.finish (g : Gathered) : List (List UInt8 × Bool) :=
  if g.cur.isEmpty then g.aus else g.aus ++ [(g.cur, g.idr)]

def accessUnits : Checked (List (List UInt8 × Bool)) := do
  return (← gather buf {} (← starts buf 0)).finish

end Code

/-! ## Start codes -/

section Starts

variable {buf p q a t : List UInt8} {b : UInt8} {u : Coded} {us : List Coded}

theorem starts_skip (hb : buf = p ++ b :: q) (hc : ¬ code <+: b :: q) :
    starts buf p.length = starts buf (p.length + 1) := by
  rw [starts]
  split
  · next hle =>
    obtain ⟨c, d, r, rfl⟩ : ∃ c d r, q = c :: d :: r := by
      rw [hb, List.length_append] at hle
      rcases q with _ | ⟨c, _ | ⟨d, r⟩⟩
      · exact absurd hle (by simp)
      · exact absurd hle (by simp)
      · exact ⟨c, d, r, rfl⟩
    have hcode : isCode buf p.length = .ok false := by
      rw [isCode, get_append hb rfl,
        get_append (p := p ++ [b]) (a := c) (q := d :: r) (by simp [hb]) (by simp),
        get_append (p := p ++ [b, c]) (a := d) (q := r) (by simp [hb]) (by simp)]
      refine congrArg Except.ok (Bool.eq_false_iff.2 fun h => hc ?_)
      simp only [Bool.and_eq_true, beq_iff_eq] at h
      rw [h.1.1, h.1.2, h.2]
      exact ⟨r, rfl⟩
    rw [hcode]
    rfl
  · next hlt =>
    rw [starts, if_neg (by omega)]

theorem starts_clear (hb : buf = p ++ (a ++ t)) (hc : Clear a t) :
    starts buf p.length = starts buf (p ++ a).length := by
  induction a generalizing p with
  | nil => rw [List.append_nil]
  | cons b a ih =>
    rw [starts_skip hb hc.1]
    have hi := ih (p := p ++ [b]) (by rw [hb, List.append_assoc]; rfl) hc.2
    rw [List.length_append, List.length_singleton] at hi
    rw [hi, List.append_assoc]
    rfl

theorem codeStart_eq (hb : buf = p ++ t) :
    codeStart buf p.length = .ok (if p.getLast? = some 0 then p.length - 1 else p.length) := by
  rcases List.eq_nil_or_concat p with rfl | ⟨p, b, rfl⟩
  · rfl
  rw [List.concat_eq_append] at hb ⊢
  have hget : get buf ((p ++ [b]).length - 1) = .ok b :=
    get_append (q := t) (by rw [hb, List.append_assoc]; rfl) (by simp)
  rw [codeStart, if_pos (by simp), hget, ok_bind, List.getLast?_concat]
  by_cases h : b = 0
  · rw [if_pos (beq_iff_eq.2 h), if_pos (congrArg some h)]
    rfl
  · rw [if_neg (mt beq_iff_eq.1 h), if_neg (mt Option.some_inj.1 h)]
    rfl

theorem starts_code (hb : buf = p ++ (code ++ t)) :
    starts buf p.length = (starts buf (p.length + 3)).map
      ((if p.getLast? = some 0 then p.length - 1 else p.length, p.length + 3) :: ·) := by
  have hcode : isCode buf p.length = .ok true := by
    rw [isCode, get_append (a := 0) (q := 0 :: 1 :: t) hb rfl,
      get_append (p := p ++ [0]) (a := 0) (q := 1 :: t) (by simp [hb, code]) (by simp),
      get_append (p := p ++ [0, 0]) (a := 1) (q := t) (by simp [hb, code]) (by simp)]
    rfl
  rw [starts, if_pos (by simp [hb, code]), hcode, codeStart_eq hb]
  rfl

/-- A unit is found at its start code, of three or of four bytes. -/
theorem starts_unit (hb : buf = p ++ (u.head ++ t)) (hz : u.zero = false → p.getLast? ≠ some 0) :
    starts buf p.length = (starts buf (p ++ u.head).length).map
      ((p.length, (p ++ u.head).length) :: ·) := by
  cases hu : u.zero with
  | true =>
    -- The zero byte is passed, and found again from the code behind it.
    have hhead : u.head = 0 :: code := if_pos hu
    rw [hhead] at hb ⊢
    have hb' : buf = (p ++ [0]) ++ (code ++ t) := by
      rw [hb, List.append_assoc]
      rfl
    have hskip : starts buf p.length = starts buf (p.length + 1) := starts_skip hb (by simp [code])
    have hcode := starts_code hb'
    rw [List.getLast?_concat, if_pos rfl, List.length_append, List.length_singleton,
      Nat.add_sub_cancel] at hcode
    rw [hskip, hcode, List.length_append]
    rfl
  | false =>
    have hhead : u.head = code := if_neg (by rw [hu]; exact Bool.false_ne_true)
    rw [hhead] at hb ⊢
    rw [starts_code hb, if_neg (hz hu), List.length_append]
    rfl

/-- Where the units that begin at an index are. -/
def positions (n : Nat) : List Coded → List (Nat × Nat)
  | [] => []
  | u :: us => (n, n + u.head.length) :: positions (n + u.bytes.length) us

theorem getLast?_head : u.head.getLast? = some 1 := by
  rw [Coded.head]
  split <;> rfl

/-- The start codes of cut bytes, from where no zero byte stands before. -/
theorem starts_cut (hb : buf = p ++ (a ++ bytes us)) (hp : p.getLast? ≠ some 0) (hc : Cut a us) :
    starts buf p.length = .ok (positions (p ++ a).length us) := by
  induction hc generalizing p with
  | @nil a hc =>
    rw [starts_clear hb hc, starts, if_neg (by simp [hb, bytes])]
    rfl
  | @cons a u us hc hz _ ih =>
    have hb' : buf = (p ++ a) ++ (u.head ++ (u.body ++ bytes us)) := by
      rw [hb, bytes_cons, List.append_assoc]
    have hb'' : buf = (p ++ a ++ u.head) ++ (u.body ++ bytes us) := by
      rw [hb', List.append_assoc _ u.head]
    have hlast : u.zero = false → (p ++ a).getLast? ≠ some 0 := fun hu => by
      rw [List.getLast?_append]
      cases ha : a.getLast? with
      | none => exact hp
      | some b => exact fun h => hz hu (ha.trans h)
    have hcode : (p ++ a ++ u.head).getLast? = some 1 := by
      rw [List.getLast?_append, getLast?_head]
      rfl
    have hrest := ih hb'' (by rw [hcode]; decide)
    rw [starts_clear hb hc, starts_unit hb' hlast, hrest, positions, Coded.bytes]
    simp only [List.length_append, Nat.add_assoc]
    rfl

end Starts

/-! ## Gathering -/

section Gather

variable {buf x : List UInt8} {g : Gathered} {u : Coded} {us : List Coded} {n : Nat}

/-- A unit is gathered by its first byte; where it is empty, that is the next start code. -/
def Gathered.add (g : Gathered) (u : Coded) : Gathered := g.take (u.body.head?.getD 0) u.bytes

/-- The byte behind a start code. -/
theorem get_payload (hb : buf = x ++ bytes (u :: us)) :
    get buf (x.length + u.head.length) =
      if us = [] ∧ u.body = [] then .error {} else .ok (u.body.head?.getD 0) := by
  rw [bytes_cons, ← List.append_assoc] at hb
  cases hu : u.body with
  | cons b body =>
    rw [hu] at hb
    rw [if_neg fun h => List.cons_ne_nil _ _ h.2]
    exact get_append (q := body ++ bytes us) hb List.length_append
  | nil =>
    rw [hu, List.nil_append] at hb
    cases us with
    | nil =>
      rw [if_pos ⟨rfl, rfl⟩, Slice.get, List.getElem?_eq_none (by simp [hb, bytes])]
    | cons v us =>
      obtain ⟨t, ht⟩ : ∃ t, bytes (v :: us) = 0 :: t := by
        rw [bytes_cons, Coded.head]
        split
        · exact ⟨_, rfl⟩
        · exact ⟨_, rfl⟩
      rw [ht] at hb
      rw [if_neg fun h => List.cons_ne_nil _ _ h.1]
      exact get_append hb List.length_append

/-- What is gathered of units, or the byte behind the last start code is looked for. -/
theorem gather_positions (hb : buf = x ++ bytes us) :
    gather buf g (positions x.length us) =
      if endsInCode us then .error {} else .ok (us.foldl Gathered.add g) := by
  induction us generalizing x g with
  | nil => rfl
  | cons u us ih =>
    have hb' : buf = (x ++ u.bytes) ++ bytes us := by
      rw [hb, List.append_assoc]
      rfl
    have hstop : ((positions (x.length + u.bytes.length) us).head?.map Prod.fst).getD buf.length =
        x.length + u.bytes.length := by
      cases us with
      | nil => simp [hb', positions, bytes]
      | cons v us => rfl
    have hsub : sub buf x.length (x.length + u.bytes.length) = .ok u.bytes :=
      sub_append (q := bytes us) (by rw [hb', List.append_assoc]) rfl rfl
    have hrest := ih (g := g.add u) hb'
    rw [List.length_append] at hrest
    rw [positions, gather, hstop, hsub, get_payload hb, endsInCode_cons]
    split
    · next h =>
      rw [if_pos h.1, if_pos (List.isEmpty_iff.2 h.2)]
      rfl
    · next h =>
      have hends : (if us = [] then u.body.isEmpty else endsInCode us) = endsInCode us := by
        split
        · next hus =>
          rw [hus] at h ⊢
          exact Bool.eq_false_iff.2 fun he => h ⟨rfl, List.isEmpty_iff.1 he⟩
        · rfl
      rw [hends]
      exact hrest

/-- What comes of cut bytes. -/
theorem accessUnits_cut {a : List UInt8} (hc : Cut a us) :
    accessUnits (a ++ bytes us) =
      if endsInCode us then .error {} else .ok (us.foldl Gathered.add {}).finish := by
  have hs : starts (a ++ bytes us) 0 = .ok (positions a.length us) :=
    starts_cut (p := []) rfl (by decide) hc
  rw [accessUnits, hs, ok_bind, gather_positions rfl]
  split <;> rfl

end Gather

/-! ## Nothing is lost -/

namespace Gathered

variable {g : Gathered} {u : Coded} {us : List Coded}

/-- Everything that has been gathered. -/
def all (g : Gathered) : List UInt8 := (g.aus.map Prod.fst).flatten ++ g.cur

theorem all_add : (g.add u).all = g.all ++ u.bytes := by
  have htake (t : UInt8) (b : List UInt8) : (g.take t b).all = g.all ++ b := by
    unfold take all
    dsimp only
    split <;> split <;> simp
  exact htake _ _

theorem all_foldl : (us.foldl add g).all = g.all ++ bytes us := by
  induction us generalizing g with
  | nil => exact (List.append_nil _).symm
  | cons u us ih =>
    rw [List.foldl_cons, ih, all_add, List.append_assoc]
    rfl

theorem flatten_finish : (g.finish.map Prod.fst).flatten = g.all := by
  unfold finish all
  split
  · next h => rw [List.isEmpty_iff.1 h, List.append_nil]
  · simp

end Gathered

/-- The bytes are read inside, and the access units are the bytes from the first start code on. -/
def Splits (buf : List UInt8) : Prop :=
  ∃ aus, accessUnits buf = .ok aus ∧ (aus.map Prod.fst).flatten = fromFirst buf

theorem splits_iff (buf : List UInt8) : Splits buf ↔ ¬ code <:+ buf := by
  obtain ⟨a, us, rfl, hc⟩ := exists_cut buf
  rw [← hc.endsInCode_iff, Splits, accessUnits_cut hc, fromFirst_eq hc]
  cases endsInCode us with
  | true => exact iff_of_false (fun ⟨_, h, _⟩ => by cases h) fun h => h rfl
  | false =>
    refine iff_of_true ⟨_, rfl, ?_⟩ Bool.false_ne_true
    rw [Gathered.flatten_finish, Gathered.all_foldl]
    rfl

/-! ## Pictures -/

/-- The type of a unit. -/
def nalType (f : Framed) : UInt8 := f.nal.head?.getD 0 &&& 0x1f

/-- A coded slice, of an IDR picture or of another one. -/
def IsSlice (f : Framed) : Prop := nalType f = 1 ∨ nalType f = 5

instance (f : Framed) : Decidable (IsSlice f) :=
  inferInstanceAs (Decidable (nalType f = 1 ∨ nalType f = 5))

/-- Whether the first macroblock of a slice is the first of its picture: the number of it is zero,
    which is coded as a single bit. -/
def FirstMbIsZero (f : Framed) : Prop := ∃ b, f.nal[1]? = some b ∧ 0x80 ≤ b

/-- A coded picture: the units that lead it, and its slices. -/
structure Picture where
  leading : List Framed
  first : Framed
  rest : List Framed
  nonVcl : ∀ f ∈ leading, nalType f ∉ [1, 2, 3, 4, 5]
  isSlice : ∀ f ∈ first :: rest, IsSlice f
  begins : FirstMbIsZero first
  goesOn : ∀ f ∈ rest, ¬ FirstMbIsZero f
  /-- The slices of an IDR picture are all slices of one. -/
  alike : ∀ f ∈ rest, nalType f = nalType first

namespace Picture

variable (p : Picture)

def units : List Framed := p.leading ++ p.first :: p.rest

def isIdr : Bool := nalType p.first == 5

/-- The access unit that the picture is. -/
def accessUnit : List UInt8 × Bool := (bytes (p.units.map Framed.coded), p.isIdr)

end Picture

/-- A file: zero bytes, and the units of pictures. -/
def streamOf (lead : Nat) (ps : List Picture) : List UInt8 :=
  List.replicate lead 0 ++ bytes ((ps.flatMap Picture.units).map Framed.coded)

section Pictures

variable {g : Gathered} {f : Framed} {fs rest : List Framed} {cur : List UInt8} {idr : Bool}

theorem head?_body (f : Framed) : f.coded.body.head? = f.nal.head? := by
  obtain ⟨b, nal, hb⟩ := List.exists_cons_of_ne_nil f.ne_nil
  rw [Framed.coded, hb]
  rfl

theorem add_coded : g.add f.coded = g.take (f.nal.head?.getD 0) f.coded.bytes := by
  rw [Gathered.add, head?_body]

theorem isSlice_iff : IsSlice f ↔ (nalType f == 1 || nalType f == 5) = true := by
  rw [IsSlice, Bool.or_eq_true, beq_iff_eq, beq_iff_eq]

theorem add_other (h : ¬ IsSlice f) : g.add f.coded = { g with cur := g.cur ++ f.coded.bytes } := by
  rw [isSlice_iff, Bool.not_eq_true] at h
  rw [add_coded]
  unfold Gathered.take
  simp only [show f.nal.head?.getD 0 &&& 0x1f = nalType f from rfl, h, Bool.false_and,
    Bool.false_eq_true, if_false]

/-- The first slice goes on with what leads it. -/
theorem add_first (h : IsSlice f) (hv : g.hasVcl = false) : g.add f.coded =
    { g with
      cur := g.cur ++ f.coded.bytes, hasVcl := true, idr := g.idr || nalType f == 5 } := by
  rw [isSlice_iff] at h
  rw [add_coded]
  unfold Gathered.take
  simp only [show f.nal.head?.getD 0 &&& 0x1f = nalType f from rfl, h, hv, Bool.and_false,
    Bool.false_eq_true, if_true, if_false]

/-- Any other slice begins an access unit. -/
theorem add_next (h : IsSlice f) (hv : g.hasVcl = true) : g.add f.coded =
    { aus := g.aus ++ [(g.cur, g.idr)]
      cur := f.coded.bytes
      hasVcl := true
      idr := nalType f == 5 } := by
  rw [isSlice_iff] at h
  rw [add_coded]
  unfold Gathered.take
  simp only [show f.nal.head?.getD 0 &&& 0x1f = nalType f from rfl, h, hv, Bool.and_true, if_true,
    List.nil_append, Bool.false_or]

theorem bytes_ne_nil : f.coded.bytes ≠ [] := by
  rw [Coded.bytes, Coded.head]
  split <;> exact List.cons_ne_nil _ _

/-- The access units of what follows a slice. -/
def ausFrom (cur : List UInt8) (idr : Bool) : List Framed → List (List UInt8 × Bool)
  | [] => [(cur, idr)]
  | f :: fs =>
    if IsSlice f then (cur, idr) :: ausFrom f.coded.bytes (nalType f == 5) fs
    else ausFrom (cur ++ f.coded.bytes) idr fs

theorem finish_foldl (hv : g.hasVcl = true) (hc : g.cur ≠ []) :
    ((fs.map Framed.coded).foldl Gathered.add g).finish = g.aus ++ ausFrom g.cur g.idr fs := by
  induction fs generalizing g with
  | nil => exact if_neg (mt List.isEmpty_iff.1 hc)
  | cons f fs ih =>
    rw [List.map_cons, List.foldl_cons, ausFrom]
    split
    · next h =>
      rw [add_next h hv, ih rfl bytes_ne_nil, List.append_assoc]
      rfl
    · next h =>
      rw [add_other h]
      exact ih hv (List.append_ne_nil_of_left_ne_nil hc _)

/-- What leads a picture goes to the access unit before. -/
theorem ausFrom_leading (h : ∀ f ∈ rest, ¬ IsSlice f) :
    ausFrom cur idr (rest ++ fs) = ausFrom (cur ++ bytes (rest.map Framed.coded)) idr fs := by
  induction rest generalizing cur with
  | nil => rw [List.map_nil, bytes, List.flatMap_nil, List.append_nil, List.nil_append]
  | cons f rest ih =>
    rw [List.cons_append, ausFrom, if_neg (h f List.mem_cons_self),
      ih fun f hf => h f (List.mem_cons_of_mem _ hf), List.append_assoc]
    rfl

theorem bytes_eq_nil : bytes (fs.map Framed.coded) = [] ↔ fs = [] := by
  cases fs with
  | nil => exact iff_of_true rfl rfl
  | cons f fs =>
    rw [List.map_cons, bytes, List.flatMap_cons]
    exact iff_of_false (fun h => bytes_ne_nil (List.append_eq_nil_iff.1 h).1) (List.cons_ne_nil _ _)

/-- The access unit of a slice is its picture only if there is no other slice. -/
theorem ausFrom_rest (h : ∀ f ∈ rest, IsSlice f) {aus : List (List UInt8 × Bool)} :
    ausFrom cur idr (rest ++ fs) = (cur ++ bytes (rest.map Framed.coded), idr) :: aus ↔
      rest = [] ∧ ausFrom cur idr fs = (cur, idr) :: aus := by
  cases rest with
  | nil =>
    rw [List.map_nil, bytes, List.flatMap_nil, List.append_nil, List.nil_append]
    exact (and_iff_right rfl).symm
  | cons f rest =>
    rw [List.cons_append, ausFrom, if_pos (h f List.mem_cons_self)]
    refine iff_of_false (fun he => ?_) fun he => List.cons_ne_nil _ _ he.1
    have hcur := congrArg Prod.fst (List.cons.inj he).1
    exact List.cons_ne_nil _ _ (bytes_eq_nil.1 (List.self_eq_append_right.1 hcur))

theorem Picture.not_isSlice (p : Picture) : ∀ f ∈ p.leading, ¬ IsSlice f := by
  intro f hf hs
  have hn := p.nonVcl f hf
  rcases hs with h | h
  · exact hn (by rw [h]; decide)
  · exact hn (by rw [h]; decide)

/-- The pictures that follow a slice. -/
theorem ausFrom_pictures {ps : List Picture} :
    ausFrom cur idr (ps.flatMap Picture.units) = (cur, idr) :: ps.map Picture.accessUnit ↔
      ∀ p ∈ ps, p.leading = [] ∧ p.rest = [] := by
  induction ps generalizing cur idr with
  | nil => exact iff_of_true rfl fun p hp => absurd hp List.not_mem_nil
  | cons p ps ih =>
    have hslice := p.isSlice p.first List.mem_cons_self
    have hrest := fun f hf => p.isSlice f (List.mem_cons_of_mem _ hf)
    have hps : ausFrom p.first.coded.bytes p.isIdr (ps.flatMap Picture.units) =
        (p.first.coded.bytes, p.isIdr) :: ps.map Picture.accessUnit ↔
          ∀ q ∈ ps, q.leading = [] ∧ q.rest = [] := ih
    have hunit (h : p.leading = []) : p.accessUnit =
        (p.first.coded.bytes ++ bytes (p.rest.map Framed.coded), p.isIdr) := by
      rw [Picture.accessUnit, Picture.units, h]
      rfl
    rw [List.flatMap_cons, Picture.units, List.append_assoc, ausFrom_leading p.not_isSlice,
      List.cons_append, ausFrom, if_pos hslice, List.forall_mem_cons, ← hps, List.map_cons,
      List.cons_eq_cons, Prod.mk.injEq, List.append_right_eq_self, bytes_eq_nil]
    constructor
    · rintro ⟨⟨hl, -⟩, h⟩
      rw [hunit hl] at h
      obtain ⟨hr, h⟩ := (ausFrom_rest hrest).1 h
      exact ⟨⟨hl, hr⟩, h⟩
    · rintro ⟨⟨hl, hr⟩, h⟩
      refine ⟨⟨hl, rfl⟩, ?_⟩
      rw [hunit hl]
      exact (ausFrom_rest hrest).2 ⟨hr, h⟩

/-- No access unit holds more or less than a picture. -/
def Whole : List Picture → Prop
  | [] => True
  | p :: ps => p.rest = [] ∧ ∀ q ∈ ps, q.leading = [] ∧ q.rest = []

theorem endsInCode_framed : endsInCode (fs.map Framed.coded) = false := by
  rw [endsInCode, List.getLast?_map]
  cases hl : fs.getLast? with
  | none => rfl
  | some f =>
    obtain ⟨b, nal, hb⟩ := List.exists_cons_of_ne_nil f.ne_nil
    rw [Option.map_some, Option.any_some, Framed.coded, hb]
    rfl

theorem foldl_other (h : ∀ f ∈ rest, ¬ IsSlice f) :
    (rest.map Framed.coded).foldl Gathered.add g =
      { g with cur := g.cur ++ bytes (rest.map Framed.coded) } := by
  induction rest generalizing g with
  | nil =>
    rw [List.map_nil, bytes, List.flatMap_nil, List.append_nil]
    rfl
  | cons f rest ih =>
    rw [List.map_cons, List.foldl_cons, add_other (h f List.mem_cons_self),
      ih fun f hf => h f (List.mem_cons_of_mem _ hf), List.append_assoc]
    rfl

theorem accessUnits_streamOf {lead : Nat} {ps : List Picture}
    (h : Ordered lead (ps.flatMap Picture.units)) :
    accessUnits (streamOf lead ps) = .ok (ps.map Picture.accessUnit) ↔ Whole ps := by
  have hcut := h.cut (a := []) (by decide) (by decide)
  rw [List.nil_append] at hcut
  rw [streamOf, accessUnits_cut hcut, endsInCode_framed, if_neg Bool.false_ne_true,
    Except.ok.injEq]
  cases ps with
  | nil => exact iff_of_true rfl trivial
  | cons p ps =>
    have hslice := p.isSlice p.first List.mem_cons_self
    have hrest := fun f hf => p.isSlice f (List.mem_cons_of_mem _ hf)
    have hunit : p.accessUnit = (bytes (p.leading.map Framed.coded) ++ p.first.coded.bytes ++
        bytes (p.rest.map Framed.coded), p.isIdr) := by
      rw [Picture.accessUnit, Picture.units, List.map_append, List.map_cons]
      simp only [bytes, List.flatMap_append, List.flatMap_cons, List.append_assoc]
    rw [List.flatMap_cons, Picture.units, List.append_assoc, List.cons_append, List.map_append,
      List.foldl_append, foldl_other p.not_isSlice, List.map_cons, List.foldl_cons,
      add_first hslice rfl, finish_foldl rfl (List.append_ne_nil_of_right_ne_nil _ bytes_ne_nil),
      List.map_cons, hunit]
    exact (ausFrom_rest hrest).trans (and_congr_right fun _ => ausFrom_pictures)

end Pictures

/-! ## What the player is given -/

/-- Bytes are split without a loss if and only if they do not end in a start code, and a file is
    split into its pictures if and only if each has one slice and only the first has units that
    lead it. -/
theorem accessUnits_iff (buf : List UInt8) (lead : Nat) (ps : List Picture)
    (h : Ordered lead (ps.flatMap Picture.units)) :
    (Splits buf ↔ ¬ code <:+ buf) ∧
      (accessUnits (streamOf lead ps) = .ok (ps.map Picture.accessUnit) ↔ Whole ps) :=
  ⟨splits_iff buf, accessUnits_streamOf h⟩

/-- A unit after a start code of four bytes. -/
def unitOf (nal : List UInt8) (ne_nil : nal ≠ []) (noCode : ¬ code <:+: nal)
    (getLast_ne : nal.getLast? ≠ some 0) : Framed :=
  { zero := true, nal, trailing := 0, ne_nil, noCode, getLast_ne }

def parameterSet : Framed := unitOf [0x67, 0x42] (by decide) (by decide) (by decide)

def delimiter : Framed := unitOf [0x09, 0xf0] (by decide) (by decide) (by decide)

/-- A slice of an IDR picture, the first one. -/
def idrSlice : Framed := unitOf [0x65, 0x88] (by decide) (by decide) (by decide)

def firstSlice : Framed := unitOf [0x41, 0x9a] (by decide) (by decide) (by decide)

def secondSlice : Framed := unitOf [0x41, 0x5a] (by decide) (by decide) (by decide)

def idrPicture : Picture where
  leading := [parameterSet]
  first := idrSlice
  rest := []
  nonVcl := by decide
  isSlice := by decide
  begins := ⟨0x88, rfl, by decide⟩
  goesOn := fun _ h => absurd h List.not_mem_nil
  alike := by decide

/-- A picture with some units that lead it and one slice. -/
def pictureOf (leading : List Framed) (nonVcl : ∀ f ∈ leading, nalType f ∉ [1, 2, 3, 4, 5]) :
    Picture where
  leading
  first := firstSlice
  rest := []
  nonVcl
  isSlice := by decide
  begins := ⟨0x9a, rfl, by decide⟩
  goesOn := fun _ h => absurd h List.not_mem_nil
  alike := by decide

def twoSlices : Picture where
  leading := []
  first := firstSlice
  rest := [secondSlice]
  nonVcl := by decide
  isSlice := by decide
  begins := ⟨0x9a, rfl, by decide⟩
  goesOn := by
    rintro f hf ⟨b, hb, hle⟩
    rw [List.mem_singleton.1 hf] at hb
    cases hb
    exact absurd hle (by decide)
  alike := by decide

theorem accessUnits_sample :
    Splits [9, 0, 0, 1, 0x65] ∧
      accessUnits (streamOf 2 [idrPicture, pictureOf [] (by decide)]) = .ok
        [([0, 0, 0, 1, 0x67, 0x42, 0, 0, 0, 1, 0x65, 0x88], true),
          ([0, 0, 0, 1, 0x41, 0x9a], false)] := by
  have h := accessUnits_iff [9, 0, 0, 1, 0x65] 2 [idrPicture, pictureOf [] (by decide)]
    ⟨fun _ => rfl, fun _ => rfl, fun _ => rfl, trivial⟩
  have hw : Whole [idrPicture, pictureOf [] (by decide)] := by
    refine ⟨rfl, fun q hq => ?_⟩
    rw [List.mem_singleton.1 hq]
    exact ⟨rfl, rfl⟩
  exact ⟨h.1.2 (by decide), (h.2.2 hw).trans (congrArg Except.ok (by decide))⟩

/-- A start code at the end is read behind, each slice of a picture is an access unit of its own,
    and the units that lead a picture go to the one before. -/
theorem not_pictures :
    ¬ Splits [0, 0, 1] ∧
      accessUnits (streamOf 0 [twoSlices]) ≠ .ok [twoSlices.accessUnit] ∧
      accessUnits (streamOf 0 [idrPicture, pictureOf [delimiter] (by decide)]) ≠
        .ok [idrPicture.accessUnit, (pictureOf [delimiter] (by decide)).accessUnit] := by
  have hslices : Ordered 0 ([twoSlices].flatMap Picture.units) :=
    ⟨fun _ => rfl, fun _ => rfl, trivial⟩
  have hleading : Ordered 0 ([idrPicture, pictureOf [delimiter] (by decide)].flatMap
      Picture.units) := ⟨fun _ => rfl, fun _ => rfl, fun _ => rfl, fun _ => rfl, trivial⟩
  refine ⟨fun h => (splits_iff _).1 h (by decide), fun h => ?_, fun h => ?_⟩
  · exact List.cons_ne_nil _ _ ((accessUnits_streamOf hslices).1 h).1
  · have hw := (accessUnits_streamOf hleading).1 h
    exact List.cons_ne_nil _ _ (hw.2 _ List.mem_cons_self).1

end Wandr.VideoPlayer
