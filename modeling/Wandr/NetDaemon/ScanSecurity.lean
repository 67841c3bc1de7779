import Mathlib.Algebra.Group.Nat.Defs
import Wandr.Lib.Slice

/-!
# The security of an access point

What a scan says of an access point is a list of elements, each with its length. The element of
the robust security network has two lists of selectors, each with its count, and a selector is an
organisation and a type.

* `securityFromIes` is the reader, `Element` what an access point sends, and `security` what it
  means;
* `rsnAkmSuites_body`: the types are found, whoever's they are;
* `securityFromIes_spec`: an access point is what it says if and only if no type that is not of
  the standard outranks those that are, and no bytes are read outside of them.
-/

namespace Wandr.ScanSecurity

open Slice

/-! ## The reader -/

/-- The securities that are told apart. -/
inductive Security
  | isOpen
  | wpaPsk
  | wpaEap
  | owe
  | sae
  deriving DecidableEq

/-- A security in a line of the scan. -/
def Security.text : Security → String
  | isOpen => "open"
  | wpaPsk => "wpa-psk"
  | wpaEap => "wpa-eap"
  | owe => "owe"
  | sae => "sae"

def rsnId : UInt8 := 48

def vendorId : UInt8 := 221

def wpaOui : List UInt8 := [0x00, 0x50, 0xf2, 0x01]

/-- A number of two bytes, the lowest one first. -/
def fromLeBytes (a b : UInt8) : Nat := a.toNat + 256 * b.toNat

/-- The types of some selectors from an index on, as far as they are there. -/
def suites (body : List UInt8) : Nat → Nat → Checked (List UInt8)
  | 0, _ => return []
  | n + 1, p => do
    if body.length < p + 4 then return []
    else return (← get body (p + 3)) :: (← suites body n (p + 4))

/-- The types of the selectors of the key management. -/
def rsnAkmSuites (body : List UInt8) : Checked (Option (List UInt8)) := do
  let p := 2 + 4
  if body.length < p + 2 then return none
  let pcount := fromLeBytes (← get body p) (← get body (p + 1))
  let p := p + (2 + 4 * pcount)
  if body.length < p + 2 then return none
  let acount := fromLeBytes (← get body p) (← get body (p + 1))
  return some (← suites body acount (p + 2))

/-- The best of some types. -/
def akmSecurity (akms : List UInt8) : Security :=
  if akms.any (· = 8) then .sae
  else if akms.any (· = 18) then .owe
  else if akms.any (fun t => t = 1 ∨ t = 5) then .wpaEap
  else if akms.any (fun t => t = 2 ∨ t = 6) then .wpaPsk
  else .wpaPsk

/-- The element of a vendor that says WPA. -/
def isWpaElement (id : UInt8) (body : List UInt8) : Checked Bool := do
  if id = vendorId ∧ 4 ≤ body.length then return decide ((← sub body 0 4) = wpaOui)
  else return false

/-- The elements from an index on. -/
def securityFrom (ie : List UInt8) (capability : UInt16) (i : Nat) (hasWpa : Bool) :
    Checked Security :=
  if i + 2 ≤ ie.length then do
    let id ← get ie i
    let len ← get ie (i + 1)
    let body ← sub ie (i + 2) (min (i + 2 + len.toNat) ie.length)
    if id = rsnId then
      match ← rsnAkmSuites body with
      | some akms => return akmSecurity akms
      | none => return .wpaPsk
    else
      let wpa ← isWpaElement id body
      securityFrom ie capability (i + (2 + len.toNat)) (hasWpa || wpa)
  else return if hasWpa then .wpaPsk else if capability &&& 0x0010 ≠ 0 then .wpaPsk else .isOpen
termination_by ie.length - i

/-- The security that some elements and a capability field say. -/
def securityFromIes (ie : List UInt8) (capability : UInt16) : Checked Security :=
  securityFrom ie capability 0 false

/-! ## No read is outside -/

theorem suites_safe (body : List UInt8) (n p : Nat) : Safe (suites body n p) := by
  induction n generalizing p with
  | zero => exact .ok _
  | succ n ih =>
    rw [suites]
    split_ifs with hlen
    · exact .ok _
    · exact (Safe.get (by omega)).bind fun _ => (ih _).bind fun _ => .ok _

theorem rsnAkmSuites_safe (body : List UInt8) : Safe (rsnAkmSuites body) := by
  rw [rsnAkmSuites]
  dsimp only
  split_ifs with hlen
  · exact .ok _
  · refine (Safe.get (by omega)).bind fun _ => (Safe.get (by omega)).bind fun _ => ?_
    split_ifs with hlen
    · exact .ok _
    · exact (Safe.get (by omega)).bind fun _ => (Safe.get (by omega)).bind fun _ =>
        (suites_safe _ _ _).bind fun _ => .ok _

theorem isWpaElement_safe (id : UInt8) (body : List UInt8) : Safe (isWpaElement id body) := by
  rw [isWpaElement]
  split_ifs with hvendor
  · exact (Safe.sub (Nat.zero_le _) hvendor.2).bind fun _ => .ok _
  · exact .ok _

/-- The body of an element that says to be longer than what is left is what is left. -/
theorem securityFrom_safe (ie : List UInt8) (capability : UInt16) (i : Nat) (hasWpa : Bool) :
    Safe (securityFrom ie capability i hasWpa) := by
  induction i, hasWpa using securityFrom.induct ie with
  | case1 i hasWpa hi ih =>
    rw [securityFrom, if_pos hi]
    refine (Safe.get (by omega)).bind fun id => (Safe.get (by omega)).bind fun len =>
      (Safe.sub (by omega) (Nat.min_le_right _ _)).bind fun body => ?_
    split_ifs with hrsn
    · refine (rsnAkmSuites_safe body).bind fun akms => ?_
      cases akms with
      | none => exact .ok _
      | some akms => exact .ok _
    · exact (isWpaElement_safe id body).bind fun wpa => ih len wpa
  | case2 i hasWpa hi =>
    rw [securityFrom, if_neg hi]
    exact .ok _

/-! ## Elements -/

/-- A selector: an organisation, and a type of its own. -/
structure Selector where
  o₁ : UInt8
  o₂ : UInt8
  o₃ : UInt8
  type : UInt8
  deriving DecidableEq

namespace Selector

def bytes (s : Selector) : List UInt8 := [s.o₁, s.o₂, s.o₃, s.type]

/-- The organisation is that of the standard. -/
def standard (s : Selector) : Bool := s.o₁ = 0x00 ∧ s.o₂ = 0x0f ∧ s.o₃ = 0xac

end Selector

/-- A number as two bytes, the lowest one first. -/
def toLeBytes (n : Nat) : List UInt8 := [UInt8.ofNat n, UInt8.ofNat (n / 256)]

/-- Selectors, with their count. -/
def listBytes (ss : List Selector) : List UInt8 := toLeBytes ss.length ++ ss.flatMap (·.bytes)

/-- The body of the element of the robust security network, which may end behind the version, the
    group cipher or the pairwise ciphers. -/
inductive RsnBody
  | short (head : List UInt8) (length_head : head.length = 2 ∨ head.length = 6)
  | pairwise (head : List UInt8) (pairwise : List Selector) (length_head : head.length = 6)
  | full (head : List UInt8) (pairwise akms : List Selector) (rest : List UInt8)
      (length_head : head.length = 6)

namespace RsnBody

def bytes : RsnBody → List UInt8
  | short head _ => head
  | pairwise head ps _ => head ++ listBytes ps
  | full head ps akms rest _ => head ++ (listBytes ps ++ (listBytes akms ++ rest))

/-- The selectors of the key management. -/
def akms : RsnBody → List Selector
  | full _ _ akms _ _ => akms
  | _ => []

end RsnBody

/-- An element of what an access point sends. -/
inductive Element
  | rsn (body : RsnBody) (short : body.bytes.length < 256)
  | other (id : UInt8) (body : List UInt8) (ne_rsn : id ≠ rsnId) (short : body.length < 256)

namespace Element

def bytes : Element → List UInt8
  | rsn body _ => rsnId :: UInt8.ofNat body.bytes.length :: body.bytes
  | other id body _ _ => id :: UInt8.ofNat body.length :: body

def akms? : Element → Option (List Selector)
  | rsn body _ => some body.akms
  | other .. => none

def isWpa : Element → Bool
  | rsn .. => false
  | other id body _ _ => id = vendorId ∧ body.take 4 = wpaOui

end Element

/-! ## What an access point says -/

/-- How much a type is worth. -/
def level (t : UInt8) : Nat :=
  if t = 8 then 3 else if t = 18 then 2 else if t = 1 ∨ t = 5 then 1 else 0

/-- The highest worth of some types. -/
def best (ts : List UInt8) : Nat := (ts.map level).foldr max 0

/-- The security of a worth. -/
def Security.ofLevel : Nat → Security
  | 0 => wpaPsk
  | 1 => wpaEap
  | 2 => owe
  | _ => sae

/-- The security without the element of the robust security network. -/
def legacy (hasWpa : Bool) (capability : UInt16) : Security :=
  if hasWpa then .wpaPsk else if capability &&& 0x0010 ≠ 0 then .wpaPsk else .isOpen

/-- What some elements say: the best of the types of the standard. -/
def security (es : List Element) (capability : UInt16) : Security :=
  match es.findSome? (·.akms?) with
  | some akms => .ofLevel (best ((akms.filter (·.standard)).map (·.type)))
  | none => legacy (es.any (·.isWpa)) capability

/-- No type that is not of the standard outranks those that are. -/
def NoneOutranks (akms : List Selector) : Prop :=
  ∀ s ∈ akms, s.standard = false →
    level s.type = 0 ∨ ∃ s' ∈ akms, s'.standard ∧ level s.type ≤ level s'.type

variable {ts : List UInt8} {n : Nat} {l p q : List UInt8} {es : List Element}

theorem level_le (t : UInt8) : level t ≤ 3 := by
  unfold level
  split_ifs <;> decide

theorem best_le : best ts ≤ n ↔ ∀ t ∈ ts, level t ≤ n := by
  induction ts with
  | nil => exact iff_of_true (Nat.zero_le n) (fun _ h => absurd h List.not_mem_nil)
  | cons t ts ih =>
    rw [best, List.map_cons, List.foldr_cons, Nat.max_le, List.forall_mem_cons]
    exact and_congr_right' ih

theorem lt_best : n < best ts ↔ ∃ t ∈ ts, n < level t := by
  rw [← Nat.not_le, best_le]
  simp only [not_forall, Nat.not_le, exists_prop]

theorem any_iff {q : UInt8 → Bool} (h : ∀ t ∈ ts, q t ↔ n < level t) : ts.any q ↔ n < best ts := by
  rw [List.any_eq_true, lt_best]
  exact exists_congr fun t => and_congr_right fun ht => h t ht

/-- The types are asked for from the worthiest to the least worthy. -/
theorem akmSecurity_eq (akms : List UInt8) : akmSecurity akms = .ofLevel (best akms) := by
  have hle : best akms ≤ 3 := best_le.2 fun t _ => level_le t
  have h₈ : akms.any (· = 8) ↔ 2 < best akms := any_iff fun t _ => by
    unfold level
    split_ifs <;> simp_all
  rcases Nat.lt_or_ge 2 (best akms) with hb | hb
  · rw [akmSecurity, if_pos (h₈.2 hb), show best akms = 3 by omega]
    rfl
  rw [akmSecurity, if_neg (mt h₈.1 (Nat.not_lt.2 hb))]
  -- Without the worthiest type the next one is the worthiest that is left.
  have h₁₈ : akms.any (· = 18) ↔ 1 < best akms := any_iff fun t ht => by
    have ht := best_le.1 hb t ht
    unfold level at *
    split_ifs at * <;> simp_all
  rcases Nat.lt_or_ge 1 (best akms) with hb' | hb'
  · rw [if_pos (h₁₈.2 hb'), show best akms = 2 by omega]
    rfl
  rw [if_neg (mt h₁₈.1 (Nat.not_lt.2 hb'))]
  have h₁ : akms.any (fun t => t = 1 ∨ t = 5) ↔ 0 < best akms := any_iff fun t ht => by
    have ht := best_le.1 hb' t ht
    unfold level at *
    split_ifs at * <;> simp_all
  rcases Nat.lt_or_ge 0 (best akms) with hb'' | hb''
  · rw [if_pos (h₁.2 hb''), show best akms = 1 by omega]
    rfl
  rw [if_neg (mt h₁.1 (Nat.not_lt.2 hb'')), ite_self, Nat.le_zero.1 hb'']
  rfl

/-- The best of all selectors is the best of those of the standard if and only if none that is not
    of the standard outranks them. -/
theorem best_filter (akms : List Selector) :
    best (akms.map (·.type)) = best ((akms.filter (·.standard)).map (·.type)) ↔
      NoneOutranks akms := by
  have hge : best ((akms.filter (·.standard)).map (·.type)) ≤ best (akms.map (·.type)) :=
    best_le.2 fun t ht => by
      obtain ⟨s, hs, rfl⟩ := List.mem_map.1 ht
      exact best_le.1 (Nat.le_refl _) _ (List.mem_map_of_mem (List.mem_of_mem_filter hs))
  have hstandard : ∀ n, n ≤ best ((akms.filter (·.standard)).map (·.type)) ↔
      n = 0 ∨ ∃ s' ∈ akms, s'.standard ∧ n ≤ level s'.type := by
    intro n
    cases n with
    | zero => exact iff_of_true (Nat.zero_le _) (.inl rfl)
    | succ n =>
      rw [Nat.succ_le_iff, lt_best]
      simp only [List.mem_map, List.mem_filter, and_assoc, Nat.succ_ne_zero, false_or,
        Nat.succ_le_iff]
      constructor
      · rintro ⟨_, ⟨s, hs, hstd, rfl⟩, hlt⟩
        exact ⟨s, hs, hstd, hlt⟩
      · rintro ⟨s, hs, hstd, hlt⟩
        exact ⟨s.type, ⟨s, hs, hstd, rfl⟩, hlt⟩
  constructor
  · intro heq s hs _
    rw [← hstandard, ← heq]
    exact best_le.1 (Nat.le_refl _) _ (List.mem_map_of_mem hs)
  · intro hnone
    refine Nat.le_antisymm (best_le.2 fun t ht => ?_) hge
    obtain ⟨s, hs, rfl⟩ := List.mem_map.1 ht
    cases hstd : s.standard with
    | true =>
      exact best_le.1 (Nat.le_refl _) _ (List.mem_map_of_mem (List.mem_filter.2 ⟨hs, hstd⟩))
    | false => exact (hstandard _).2 (hnone s hs hstd)

theorem ofLevel_injective {a b : Nat} (ha : a ≤ 3) (hb : b ≤ 3) :
    Security.ofLevel a = .ofLevel b ↔ a = b := by
  have h : ∀ a b : Fin 4, Security.ofLevel a = .ofLevel b ↔ a = b := by decide
  simpa [Fin.ext_iff] using h ⟨a, by omega⟩ ⟨b, by omega⟩

/-! ## What is read of an access point -/

theorem fromLeBytes_toLeBytes (h : n < 256 ^ 2) :
    fromLeBytes (UInt8.ofNat n) (UInt8.ofNat (n / 256)) = n := by
  rw [fromLeBytes, UInt8.toNat_ofNat', UInt8.toNat_ofNat']
  omega

theorem length_flatMap_bytes (ss : List Selector) :
    (ss.flatMap (·.bytes)).length = 4 * ss.length := by
  induction ss with
  | nil => rfl
  | cons s ss ih =>
    rw [List.flatMap_cons, List.length_append, ih, List.length_cons, Selector.bytes]
    simp only [List.length_cons, List.length_nil]
    omega

theorem length_listBytes (ss : List Selector) : (listBytes ss).length = 2 + 4 * ss.length := by
  rw [listBytes, List.length_append, length_flatMap_bytes]
  rfl

theorem suites_append (ss : List Selector) (h : l = p ++ (ss.flatMap (·.bytes) ++ q)) :
    suites l ss.length p.length = .ok (ss.map (·.type)) := by
  induction ss generalizing p with
  | nil => rfl
  | cons s ss ih =>
    rw [List.flatMap_cons, List.append_assoc] at h
    have hlen : ¬ l.length < p.length + 4 := by
      rw [h]
      simp only [List.length_append, Selector.bytes, List.length_cons]
      omega
    have hget : get l (p.length + 3) = .ok s.type :=
      get_append (p := p ++ [s.o₁, s.o₂, s.o₃]) (by rw [h, List.append_assoc]; rfl)
        List.length_append
    have htail : suites l ss.length (p ++ s.bytes).length = .ok (ss.map (·.type)) :=
      ih (by rw [h, List.append_assoc])
    rw [List.length_append] at htail
    rw [List.length_cons, suites, if_neg hlen, hget, ok_bind]
    change (suites l ss.length (p.length + s.bytes.length) >>= _) = _
    rw [htail]
    rfl

/-- The counts of a list of selectors at an index. -/
theorem get_count {ss : List Selector} (h : l = p ++ (listBytes ss ++ q))
    (hn : ss.length < 256 ^ 2) :
    ∃ a b, get l p.length = .ok a ∧ get l (p.length + 1) = .ok b ∧
      fromLeBytes a b = ss.length := by
  refine ⟨UInt8.ofNat ss.length, UInt8.ofNat (ss.length / 256), ?_, ?_, fromLeBytes_toLeBytes hn⟩
  · exact get_append (p := p) h rfl
  · exact get_append (p := p ++ [UInt8.ofNat ss.length]) (by rw [h, List.append_assoc]; rfl)
      List.length_append

/-- The types of the key management are found, whoever's they are. -/
theorem rsnAkmSuites_body (b : RsnBody) (short : b.bytes.length < 256) :
    ∃ akms, rsnAkmSuites b.bytes = .ok akms ∧ akms.getD [] = b.akms.map (·.type) := by
  cases b with
  | short head length_head =>
    refine ⟨none, ?_, rfl⟩
    rw [rsnAkmSuites]
    exact if_pos (by rw [RsnBody.bytes]; omega)
  | pairwise head ps length_head =>
    refine ⟨none, ?_, rfl⟩
    have hbytes : (RsnBody.pairwise head ps length_head).bytes = head ++ (listBytes ps ++ []) := by
      rw [List.append_nil]
      rfl
    have hlen : (head ++ (listBytes ps ++ [])).length = 8 + 4 * ps.length := by
      rw [List.append_nil, List.length_append, length_listBytes, length_head]
      omega
    rw [hbytes, hlen] at short
    obtain ⟨a, b, ha, hb, hcount⟩ := get_count (p := head) rfl (show ps.length < 256 ^ 2 by omega)
    rw [length_head] at ha hb
    rw [hbytes, rsnAkmSuites]
    dsimp only
    rw [if_neg (by omega), ha, hb]
    simp only [ok_bind, hcount]
    exact if_pos (by omega)
  | full head ps akms rest length_head =>
    refine ⟨some (akms.map (·.type)), ?_, rfl⟩
    have hlen : (head ++ (listBytes ps ++ (listBytes akms ++ rest))).length =
        10 + 4 * ps.length + 4 * akms.length + rest.length := by
      simp only [List.length_append, length_listBytes, length_head]
      omega
    have hassoc : head ++ (listBytes ps ++ (listBytes akms ++ rest)) =
        (head ++ listBytes ps) ++ (listBytes akms ++ rest) := (List.append_assoc _ _ _).symm
    have hhead : (head ++ listBytes ps).length = 6 + (2 + 4 * ps.length) := by
      rw [List.length_append, length_head, length_listBytes]
    rw [RsnBody.bytes, hlen] at short
    obtain ⟨a, b, ha, hb, hcount⟩ := get_count (p := head) (q := listBytes akms ++ rest) rfl
      (show ps.length < 256 ^ 2 by omega)
    obtain ⟨c, d, hc, hd, hcount'⟩ := get_count (p := head ++ listBytes ps) (q := rest) hassoc
      (show akms.length < 256 ^ 2 by omega)
    have hsuites : suites (head ++ (listBytes ps ++ (listBytes akms ++ rest))) akms.length
        (6 + (2 + 4 * ps.length) + 2) = .ok (akms.map (·.type)) := by
      have h := suites_append (p := head ++ listBytes ps ++ toLeBytes akms.length) (q := rest)
        (l := head ++ (listBytes ps ++ (listBytes akms ++ rest))) akms (by simp [listBytes])
      rwa [List.length_append, hhead] at h
    rw [length_head] at ha hb
    rw [hhead] at hc hd
    rw [RsnBody.bytes, rsnAkmSuites]
    dsimp only
    rw [if_neg (by omega), ha, hb]
    simp only [ok_bind, hcount]
    rw [if_neg (by omega), hc, hd]
    simp only [ok_bind, hcount']
    rw [hsuites]
    rfl

theorem isWpaElement_eq (id : UInt8) (body : List UInt8) :
    isWpaElement id body = .ok (decide (id = vendorId ∧ body.take 4 = wpaOui)) := by
  rw [isWpaElement]
  by_cases h : id = vendorId ∧ 4 ≤ body.length
  · rw [if_pos h, sub_of_le (Nat.zero_le _) h.2, ok_bind, List.drop_zero]
    simp only [h.1, true_and]
    rfl
  · rw [if_neg h]
    -- A body that is shorter is not the one of WPA.
    have hnot : ¬ (id = vendorId ∧ body.take 4 = wpaOui) := fun hw => h ⟨hw.1, by
      have hlen := congrArg List.length hw.2
      rw [List.length_take, wpaOui] at hlen
      simp only [List.length_cons, List.length_nil] at hlen
      omega⟩
    rw [decide_eq_false hnot]
    rfl

/-- What is read: the best of all types. -/
def found (es : List Element) (capability : UInt16) (hasWpa : Bool) : Security :=
  match es.findSome? (·.akms?) with
  | some akms => .ofLevel (best (akms.map (·.type)))
  | none => legacy (hasWpa || es.any (·.isWpa)) capability

/-- An element is read up to its end. -/
theorem read_element {ie : List UInt8} {id : UInt8} (h : ie = p ++ (id :: UInt8.ofNat l.length ::
    l ++ q)) (short : l.length < 256) :
    p.length + 2 ≤ ie.length ∧ get ie p.length = .ok id ∧
      get ie (p.length + 1) = .ok (UInt8.ofNat l.length) ∧
      (UInt8.ofNat l.length).toNat = l.length ∧
      sub ie (p.length + 2) (min (p.length + 2 + l.length) ie.length) = .ok l := by
  have hlen : ie.length = p.length + 2 + l.length + q.length := by
    rw [h]
    simp only [List.length_append, List.length_cons]
    omega
  refine ⟨by omega, get_append (p := p) h rfl,
    get_append (p := p ++ [id]) (q := l ++ q) (by rw [h]; simp) List.length_append,
    UInt8.toNat_ofNat_of_lt' short, ?_⟩
  rw [Nat.min_eq_left (by omega)]
  exact sub_append (p := p ++ [id, UInt8.ofNat l.length]) (q := q) (by rw [h]; simp)
    List.length_append rfl

theorem securityFrom_elements {ie : List UInt8} {capability : UInt16} {hasWpa : Bool}
    (h : ie = p ++ es.flatMap (·.bytes)) :
    securityFrom ie capability p.length hasWpa = .ok (found es capability hasWpa) := by
  induction es generalizing p hasWpa with
  | nil =>
    rw [List.flatMap_nil, List.append_nil] at h
    rw [securityFrom, if_neg (by rw [h]; omega), found, List.findSome?_nil, List.any_nil,
      Bool.or_false]
    rfl
  | cons e es ih =>
    rw [List.flatMap_cons] at h
    cases e with
    | rsn body short =>
      obtain ⟨hle, hid, hlen, hlength, hbody⟩ := read_element (l := body.bytes) h short
      obtain ⟨akms, hakms, htypes⟩ := rsnAkmSuites_body body short
      rw [securityFrom, if_pos hle, hid, hlen]
      simp only [ok_bind, hlength]
      rw [hbody, ok_bind, if_pos trivial, hakms, ok_bind, found, List.findSome?_cons]
      simp only [Element.akms?]
      rw [← htypes]
      cases akms with
      | none => rfl
      | some akms =>
        simp only [Option.getD_some]
        rw [akmSecurity_eq]
        rfl
    | other id body ne_rsn short =>
      obtain ⟨hle, hid, hlen, hlength, hbody⟩ := read_element (l := body) h short
      rw [securityFrom, if_pos hle, hid, hlen]
      simp only [ok_bind, hlength]
      rw [hbody, ok_bind, if_neg ne_rsn, isWpaElement_eq, ok_bind]
      have hnext : p.length + (2 + body.length) =
          (p ++ (Element.other id body ne_rsn short).bytes).length := by
        rw [List.length_append, Element.bytes]
        simp only [List.length_cons]
        omega
      rw [hnext, ih (by rw [h, List.append_assoc]), found, found, List.findSome?_cons,
        List.any_cons, ← Bool.or_assoc]
      rfl

theorem securityFromIes_elements (es : List Element) (capability : UInt16) :
    securityFromIes (es.flatMap (·.bytes)) capability = .ok (found es capability false) :=
  securityFrom_elements (p := []) rfl

/-- An access point is what it says if and only if no type that is not of the standard outranks
    those that are, and no bytes are read outside of them. -/
theorem securityFromIes_spec (es : List Element) (ie : List UInt8) (capability : UInt16) :
    (securityFromIes (es.flatMap (·.bytes)) capability = .ok (security es capability) ↔
      ∀ akms ∈ es.findSome? (·.akms?), NoneOutranks akms) ∧
      ∃ s, securityFromIes ie capability = .ok s := by
  refine ⟨?_, securityFrom_safe ie capability 0 false⟩
  rw [securityFromIes_elements, Except.ok.injEq, found, security]
  cases es.findSome? (·.akms?) with
  | none => exact iff_of_true rfl fun _ h => absurd h (Option.not_mem_none _)
  | some akms =>
    simp only [Option.mem_some_iff, forall_eq']
    rw [ofLevel_injective (best_le.2 fun t _ => level_le t) (best_le.2 fun t _ => level_le t)]
    exact best_filter akms

/-- An access point that offers a pre-shared key, and something of a vendor's own. -/
def vendorSelector : List Element :=
  [.rsn (.full [1, 0, 0x00, 0x0f, 0xac, 4] [⟨0x00, 0x0f, 0xac, 4⟩]
    [⟨0x00, 0x0f, 0xac, 2⟩, ⟨0x00, 0x50, 0xf2, 8⟩] [0, 0] rfl) (by decide)]

/-- What a vendor has of its own is taken for the standard's. -/
theorem securityFromIes_vendorSelector :
    securityFromIes (vendorSelector.flatMap (·.bytes)) 0x0010 ≠
      .ok (security vendorSelector 0x0010) := by
  rw [securityFromIes_elements]
  decide

end Wandr.ScanSecurity
