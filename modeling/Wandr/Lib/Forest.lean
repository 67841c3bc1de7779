import Mathlib.Data.List.Nodup

/-!
# Forests

A forest is a list of trees of nodes, each with a number and a label. A node is named by its
number; no two have the same.

* `Forest.edit` changes the children of a node, `Forest.relabel` its label;
* `Forest.gather` takes nodes out of a forest, with all that is below them, wherever they are;
* `Forest.count_edit`, `Forest.gather_spec`: how often a number is there after that.
-/

/-- A list of trees: the first node, its children, and the other trees. -/
inductive Forest (α : Type)
  | nil
  | node (id : Nat) (label : α) (children rest : Forest α)

namespace Forest

variable {α : Type}

/-- The numbers of all nodes. -/
def ids : Forest α → List Nat
  | nil => []
  | node id _ c r => id :: (c.ids ++ r.ids)

/-- The numbers of the first nodes of the trees. -/
def roots : Forest α → List Nat
  | nil => []
  | node id _ _ r => id :: r.roots

def append : Forest α → Forest α → Forest α
  | nil, g => g
  | node id l c r, g => node id l c (r.append g)

/-- The children of a node. -/
def childrenOf (p : Nat) : Forest α → Option (Forest α)
  | nil => none
  | node id _ c r => if id = p then some c else c.childrenOf p <|> r.childrenOf p

/-- The node of which a node is a child. -/
def parentOf (n : Nat) : Forest α → Option Nat
  | nil => none
  | node id _ c r => if n ∈ c.roots then some id else c.parentOf n <|> r.parentOf n

/-- A node with all that is below it. -/
def subtree (n : Nat) : Forest α → Forest α
  | nil => nil
  | node id l c r => if id = n then node id l c nil else (c.subtree n).append (r.subtree n)

/-- The children of a node are changed. -/
def edit (p : Nat) (g : Forest α → Forest α) : Forest α → Forest α
  | nil => nil
  | node id l c r =>
    if id = p then node id l (g c) r else node id l (c.edit p g) (r.edit p g)

def relabel (p : Nat) (g : α → α) : Forest α → Forest α
  | nil => nil
  | node id l c r =>
    if id = p then node id (g l) c r else node id l (c.relabel p g) (r.relabel p g)

/-- The first tree with a number is replaced by others, or others are put before or after it. -/
def replaceRoot (n : Nat) (ts : Forest α) : Forest α → Forest α
  | nil => nil
  | node id l c r => if id = n then ts.append r else node id l c (replaceRoot n ts r)

def insertBefore (n : Nat) (ts : Forest α) : Forest α → Forest α
  | nil => nil
  | node id l c r =>
    if id = n then ts.append (node id l c r) else node id l c (insertBefore n ts r)

def insertAfter (n : Nat) (ts : Forest α) : Forest α → Forest α
  | nil => nil
  | node id l c r =>
    if id = n then node id l c (ts.append r) else node id l c (insertAfter n ts r)

/-- Each node, with its parent and its children, is as it should be. -/
def Forall (P : Option Nat → Nat → α → List Nat → Prop) (q : Option Nat) : Forest α → Prop
  | nil => True
  | node id l c r => P q id l c.roots ∧ c.Forall P (some id) ∧ r.Forall P q

/-- A node is taken out of the children of its parent, or of the trees. -/
def remove (n : Nat) (f : Forest α) : Forest α :=
  match f.parentOf n with
  | some p => f.edit p (replaceRoot n nil)
  | none => replaceRoot n nil f

/-- Nodes are taken out, each with what is still below it then; and what is left. -/
def gather : List Nat → Forest α → Forest α × Forest α
  | [], f => (nil, f)
  | n :: ns, f =>
    let rest := gather ns f
    (((rest.1.append rest.2).subtree n).append (rest.1.remove n), rest.2.remove n)

variable {f g ts c c₁ c₂ : Forest α} {n p i id : Nat} {l : α}

/-! ## One forest after another -/

-- The equations, ahead of the proofs.
section
attribute [local simp] ids roots append childrenOf parentOf edit relabel
end

@[simp]
theorem ids_append : (f.append g).ids = f.ids ++ g.ids := by
  induction f with
  | nil => rfl
  | node id l c r _ ih => rw [append, ids, ids, ih, List.cons_append, List.append_assoc]

@[simp]
theorem roots_append : (f.append g).roots = f.roots ++ g.roots := by
  induction f with
  | nil => rfl
  | node id l c r _ ih => rw [append, roots, roots, ih, List.cons_append]

@[simp]
theorem append_nil : f.append nil = f := by
  induction f with
  | nil => rfl
  | node id l c r _ ih => rw [append, ih]

theorem append_assoc : (f.append g).append ts = f.append (g.append ts) := by
  induction f with
  | nil => rfl
  | node id l c r _ ih => rw [append, append, append, ih]

theorem roots_subset : ∀ n ∈ f.roots, n ∈ f.ids := by
  induction f with
  | nil => exact fun _ h => h
  | node id l c r _ ih =>
    intro n hn
    rcases List.mem_cons.1 hn with rfl | hn
    · exact List.mem_cons_self
    · exact List.mem_cons_of_mem _ (List.mem_append_right _ (ih n hn))

theorem nodup_roots (hn : f.ids.Nodup) : f.roots.Nodup := by
  induction f with
  | nil => exact List.nodup_nil
  | node id l c r _ ih =>
    obtain ⟨hid, hcr⟩ := List.nodup_cons.1 hn
    refine List.nodup_cons.2 ⟨fun hm => hid ?_, ih (List.nodup_append.1 hcr).2.1⟩
    exact List.mem_append_right _ (roots_subset id hm)

/-- A tree among others. -/
theorem exists_split (h : n ∈ f.roots) :
    ∃ c₁ l c c₂, f = append c₁ (node n l c c₂) ∧ n ∉ c₁.roots := by
  induction f with
  | nil => cases h
  | node id l c r _ ih =>
    by_cases he : id = n
    · exact ⟨nil, l, c, r, by rw [he]; rfl, List.not_mem_nil⟩
    · obtain ⟨c₁, l', c', c₂, rfl, hn⟩ := ih ((List.mem_cons.1 h).resolve_left (Ne.symm he))
      exact ⟨node id l c c₁, l', c', c₂, rfl, List.not_mem_cons_of_ne_of_not_mem (Ne.symm he) hn⟩

theorem replaceRoot_split (h : n ∉ c₁.roots) :
    replaceRoot n ts (c₁.append (node n l c c₂)) = c₁.append (ts.append c₂) := by
  induction c₁ with
  | nil => exact if_pos rfl
  | node id l c r _ ih =>
    obtain ⟨hne, hr⟩ := not_or.1 (mt List.mem_cons.2 h)
    rw [append, replaceRoot, if_neg (Ne.symm hne), ih hr, append]

theorem insertBefore_split (h : n ∉ c₁.roots) :
    insertBefore n ts (c₁.append (node n l c c₂)) = c₁.append (ts.append (node n l c c₂)) := by
  induction c₁ with
  | nil => exact if_pos rfl
  | node id l c r _ ih =>
    obtain ⟨hne, hr⟩ := not_or.1 (mt List.mem_cons.2 h)
    rw [append, insertBefore, if_neg (Ne.symm hne), ih hr, append]

theorem insertAfter_split (h : n ∉ c₁.roots) :
    insertAfter n ts (c₁.append (node n l c c₂)) =
      (c₁.append (node n l c nil)).append (ts.append c₂) := by
  induction c₁ with
  | nil => exact if_pos rfl
  | node id l c r _ ih =>
    obtain ⟨hne, hr⟩ := not_or.1 (mt List.mem_cons.2 h)
    rw [append, insertAfter, if_neg (Ne.symm hne), ih hr, append, append]

/-! ## The children of a node -/

theorem childrenOf_eq_none : f.childrenOf p = none ↔ p ∉ f.ids := by
  induction f with
  | nil => exact iff_of_true rfl List.not_mem_nil
  | node id l c r hc hr =>
    rw [childrenOf, ids, List.mem_cons, List.mem_append, not_or, not_or, ← hc, ← hr]
    by_cases h : id = p
    · rw [if_pos h]
      exact iff_of_false (Option.some_ne_none c) fun hn => hn.1 h.symm
    · rw [if_neg h, and_iff_right (Ne.symm h)]
      cases c.childrenOf p with
      | none => exact (and_iff_right rfl).symm
      | some x =>
        exact iff_of_false (Option.some_ne_none x) fun hn => Option.some_ne_none x hn.1

theorem exists_childrenOf (h : p ∈ f.ids) : ∃ c, f.childrenOf p = some c :=
  Option.ne_none_iff_exists'.1 fun hn => childrenOf_eq_none.1 hn h

/-- A number is there at most as often below a node as it is there at all. -/
theorem count_childrenOf (h : f.childrenOf p = some c) (i : Nat) :
    c.ids.count i ≤ f.ids.count i := by
  induction f with
  | nil => cases h
  | node id l d r hd hr =>
    rw [ids, List.count_cons, List.count_append]
    rw [childrenOf] at h
    split at h
    · cases h
      omega
    · rcases hx : d.childrenOf p with _ | x
      · rw [hx] at h
        have hle := hr h
        omega
      · rw [hx] at h
        cases h
        have hle := hd hx
        omega

theorem edit_eq_self {h : Forest α → Forest α} (hp : p ∉ f.ids) : f.edit p h = f := by
  induction f with
  | nil => rfl
  | node id l c r hc hr =>
    rw [ids, List.mem_cons, List.mem_append, not_or, not_or] at hp
    rw [edit, if_neg (Ne.symm hp.1), hc hp.2.1, hr hp.2.2]

@[simp]
theorem roots_edit {h : Forest α → Forest α} : (f.edit p h).roots = f.roots := by
  induction f with
  | nil => rfl
  | node id l c r _ ih =>
    rw [edit]
    split
    · rfl
    · rw [roots, roots, ih]

@[simp]
theorem ids_relabel {h : α → α} : (f.relabel p h).ids = f.ids := by
  induction f with
  | nil => rfl
  | node id l c r hc hr =>
    rw [relabel]
    split
    · rfl
    · rw [ids, ids, hc, hr]

@[simp]
theorem roots_relabel {h : α → α} : (f.relabel p h).roots = f.roots := by
  induction f with
  | nil => rfl
  | node id l c r _ ih =>
    rw [relabel]
    split
    · rfl
    · rw [roots, roots, ih]

/-- A change of the children of a node is a change of all the nodes. -/
theorem count_edit {h : Forest α → Forest α} (hn : f.ids.Nodup) (hc : f.childrenOf p = some c)
    (i : Nat) : (f.edit p h).ids.count i + c.ids.count i = f.ids.count i + (h c).ids.count i := by
  induction f with
  | nil => cases hc
  | node id l d r hd hr =>
    rw [ids, List.nodup_cons] at hn
    obtain ⟨hid, hn⟩ := hn
    obtain ⟨hnd, hnr, hdr⟩ := List.nodup_append.1 hn
    rw [childrenOf] at hc
    rw [edit, ids, List.count_cons, List.count_append]
    split at hc
    · next hp =>
      cases hc
      rw [if_pos hp, ids, List.count_cons, List.count_append]
      omega
    · next hp =>
      rw [if_neg hp, ids, List.count_cons, List.count_append]
      rcases hx : d.childrenOf p with _ | x
      · rw [hx] at hc
        rw [edit_eq_self (childrenOf_eq_none.1 hx)]
        have hcount := hr hnr hc
        omega
      · rw [hx] at hc
        cases hc
        have hpd : p ∈ d.ids := by
          by_contra hpn
          exact Option.some_ne_none c (hx.symm.trans (childrenOf_eq_none.2 hpn))
        rw [edit_eq_self fun hpr => hdr p hpd p hpr rfl]
        have hcount := hd hnd hx
        omega

theorem mem_of_childrenOf (h : f.childrenOf p = some c) : p ∈ f.ids := by
  by_contra hp
  exact Option.some_ne_none c (h.symm.trans (childrenOf_eq_none.2 hp))

theorem subset_childrenOf (h : f.childrenOf p = some c) : ∀ i ∈ c.ids, i ∈ f.ids := fun i hi =>
  List.count_pos_iff.1 (Nat.lt_of_lt_of_le (List.count_pos_iff.2 hi) (count_childrenOf h i))

theorem nodup_childrenOf (hn : f.ids.Nodup) (h : f.childrenOf p = some c) : c.ids.Nodup :=
  List.nodup_iff_count_le_one.2 fun i =>
    Nat.le_trans (count_childrenOf h i) (List.nodup_iff_count_le_one.1 hn i)

/-- The parts of a forest without a number twice. -/
theorem nodup_node (h : (node id l c g).ids.Nodup) :
    id ∉ c.ids ∧ id ∉ g.ids ∧ c.ids.Nodup ∧ g.ids.Nodup ∧ ∀ i ∈ c.ids, i ∉ g.ids := by
  obtain ⟨hid, hn⟩ := List.nodup_cons.1 h
  obtain ⟨hc, hg, hd⟩ := List.nodup_append.1 hn
  rw [List.mem_append, not_or] at hid
  exact ⟨hid.1, hid.2, hc, hg, fun i hi hig => hd i hi i hig rfl⟩

/-- A node is not among the nodes that are below it. -/
theorem notMem_childrenOf (hn : f.ids.Nodup) (h : f.childrenOf p = some c) : p ∉ c.ids := by
  induction f with
  | nil => cases h
  | node id l d r hd hr =>
    obtain ⟨hid, -, hnd, hnr, -⟩ := nodup_node hn
    rw [childrenOf] at h
    split at h
    · next hp =>
      cases h
      exact hp ▸ hid
    · rcases hx : d.childrenOf p with _ | x
      · rw [hx] at h
        exact hr hnr h
      · rw [hx] at h
        cases h
        exact hd hnd hx

/-! ## The parent of a node -/

theorem parentOf_eq_none (h : n ∉ f.ids) : f.parentOf n = none := by
  induction f with
  | nil => rfl
  | node id l c r hc hr =>
    rw [ids, List.mem_cons, List.mem_append, not_or, not_or] at h
    rw [parentOf, if_neg fun hm => h.2.1 (roots_subset n hm), hc h.2.1, hr h.2.2]
    rfl

theorem parentOf_root (hn : f.ids.Nodup) (h : n ∈ f.roots) : f.parentOf n = none := by
  induction f with
  | nil => cases h
  | node id l c r _ hr =>
    obtain ⟨hidc, hidr, -, hnr, hcr⟩ := nodup_node hn
    have hnc : n ∉ c.ids := by
      rcases List.mem_cons.1 h with rfl | h
      · exact hidc
      · exact fun hc => hcr n hc (roots_subset n h)
    rw [parentOf, if_neg fun hm => hnc (roots_subset n hm), parentOf_eq_none hnc]
    rcases List.mem_cons.1 h with rfl | h
    · exact parentOf_eq_none hidr
    · exact hr hnr h

/-- A node that has a parent is one of its children. -/
theorem exists_of_parentOf (hn : f.ids.Nodup) (h : f.parentOf n = some p) :
    ∃ c, f.childrenOf p = some c ∧ n ∈ c.roots := by
  induction f with
  | nil => cases h
  | node id l c r hc hr =>
    obtain ⟨hidc, hidr, hnc, hnr, hcr⟩ := nodup_node hn
    rw [parentOf] at h
    split at h
    · next hm =>
      cases h
      exact ⟨c, if_pos rfl, hm⟩
    · rw [childrenOf]
      rcases hx : c.parentOf n with _ | x
      · rw [hx] at h
        obtain ⟨d, hd, hm⟩ := hr hnr h
        have hpr := mem_of_childrenOf hd
        refine ⟨d, ?_, hm⟩
        rw [if_neg fun he => hidr (by rw [he]; exact hpr),
          childrenOf_eq_none.2 fun hpc => hcr p hpc hpr, hd]
        rfl
      · rw [hx] at h
        cases h
        obtain ⟨d, hd, hm⟩ := hc hnc hx
        refine ⟨d, ?_, hm⟩
        rw [if_neg fun he => hidc (by rw [he]; exact mem_of_childrenOf hd), hd]
        rfl

theorem parentOf_of_child (hn : f.ids.Nodup) (h : f.childrenOf p = some c) (hm : n ∈ c.roots) :
    f.parentOf n = some p := by
  induction f with
  | nil => cases h
  | node id l d r hd hr =>
    obtain ⟨hidd, hidr, hnd, hnr, hdr⟩ := nodup_node hn
    rw [childrenOf] at h
    rw [parentOf]
    split at h
    · next hp =>
      cases h
      rw [if_pos hm, hp]
    · rcases hx : d.childrenOf p with _ | x
      · rw [hx] at h
        have hnr' : n ∈ r.ids := subset_childrenOf h n (roots_subset n hm)
        have hnd' : n ∉ d.ids := fun hmd => hdr n hmd hnr'
        rw [if_neg fun hm => hnd' (roots_subset n hm), parentOf_eq_none hnd']
        exact hr hnr h
      · rw [hx] at h
        cases h
        have hp := hd hnd hx
        have hroot : n ∉ d.roots := fun hm => by
          rw [parentOf_root hnd hm] at hp
          cases hp
        rw [if_neg hroot, hp]
        rfl

theorem exists_parentOf (h : n ∈ f.ids) (hr : n ∉ f.roots) : ∃ q, f.parentOf n = some q := by
  induction f with
  | nil => cases h
  | node id l c r hc ih =>
    obtain ⟨hne, hroot⟩ := not_or.1 (mt List.mem_cons.2 hr)
    rw [parentOf]
    split
    · exact ⟨id, rfl⟩
    · next hm =>
      rcases List.mem_append.1 ((List.mem_cons.1 h).resolve_left hne) with hi | hi
      · obtain ⟨q, hq⟩ := hc hi hm
        exact ⟨q, by rw [hq]; rfl⟩
      · obtain ⟨q, hq⟩ := ih hi hroot
        cases hx : c.parentOf n with
        | none => exact ⟨q, hq⟩
        | some x => exact ⟨x, rfl⟩

/-! ## What holds of each node -/

section
variable {P P' : Option Nat → Nat → α → List Nat → Prop} {q : Option Nat}

theorem Forall.mono (h : f.Forall P q) (hP : ∀ i ∈ f.ids, ∀ q l ks, P q i l ks → P' q i l ks) :
    f.Forall P' q := by
  induction f generalizing q with
  | nil => trivial
  | node id l c r hc hr =>
    refine ⟨hP id List.mem_cons_self _ _ _ h.1, hc h.2.1 fun i hi => ?_, hr h.2.2 fun i hi => ?_⟩
    · exact hP i (List.mem_cons_of_mem _ (List.mem_append_left _ hi))
    · exact hP i (List.mem_cons_of_mem _ (List.mem_append_right _ hi))

theorem forall_append : (f.append g).Forall P q ↔ f.Forall P q ∧ g.Forall P q := by
  induction f with
  | nil => exact (and_iff_right trivial).symm
  | node id l c r _ ih => rw [append, Forall, Forall, ih, and_assoc, and_assoc]

/-- A node and its children are as they should be. -/
theorem Forall.childrenOf (h : f.Forall P q) (hn : f.ids.Nodup) (hc : f.childrenOf p = some c) :
    (∃ l, P ((f.parentOf p).or q) p l c.roots) ∧ c.Forall P (some p) := by
  induction f generalizing q with
  | nil => cases hc
  | node id l d r hd hr =>
    obtain ⟨hidd, hidr, hnd, hnr, hdr⟩ := nodup_node hn
    rw [Forest.childrenOf] at hc
    rw [parentOf]
    split at hc
    · next hp =>
      cases hc
      subst hp
      rw [if_neg fun hm => hidd (roots_subset id hm), parentOf_eq_none hidd,
        parentOf_eq_none hidr]
      exact ⟨⟨l, h.1⟩, h.2.1⟩
    · rcases hx : d.childrenOf p with _ | x
      · rw [hx] at hc
        have hpd : p ∉ d.ids := childrenOf_eq_none.1 hx
        rw [if_neg fun hm => hpd (roots_subset p hm), parentOf_eq_none hpd]
        exact hr h.2.2 hnr hc
      · rw [hx] at hc
        cases hc
        obtain ⟨⟨l', hl⟩, hf⟩ := hd h.2.1 hnd hx
        refine ⟨⟨l', ?_⟩, hf⟩
        split
        · next hm =>
          rw [parentOf_root hnd hm] at hl
          exact hl
        · next hm =>
          obtain ⟨q', hq'⟩ := exists_parentOf (mem_of_childrenOf hx) hm
          rw [hq'] at hl ⊢
          exact hl

/-- The children of a node are changed, and are as they should be then. -/
theorem Forall.edit {h : Forest α → Forest α} (hf : f.Forall P q) (hn : f.ids.Nodup)
    (hc : f.childrenOf p = some c) (hp : ∀ q l, P q p l c.roots → P' q p l (h c).roots)
    (hh : (h c).Forall P' (some p))
    (hframe : ∀ i ∈ f.ids, i ≠ p → i ∉ c.ids → ∀ q l ks, P q i l ks → P' q i l ks) :
    (f.edit p h).Forall P' q := by
  induction f generalizing q with
  | nil => trivial
  | node id l d r hd hr =>
    obtain ⟨hidd, hidr, hnd, hnr, hdr⟩ := nodup_node hn
    rw [Forest.childrenOf] at hc
    rw [Forest.edit]
    split at hc
    · next he =>
      cases hc
      subst he
      rw [if_pos rfl]
      refine ⟨hp _ _ hf.1, hh, hf.2.2.mono fun i hi => ?_⟩
      exact hframe i (List.mem_cons_of_mem _ (List.mem_append_right _ hi))
        (fun he => hidr (he ▸ hi)) fun hid => hdr i hid hi
    · next he =>
      rw [if_neg he]
      rcases hx : d.childrenOf p with _ | x
      · rw [hx] at hc
        have hpd := childrenOf_eq_none.1 hx
        have hsub := subset_childrenOf hc
        refine ⟨?_, ?_, hr hf.2.2 hnr hc fun i hi => ?_⟩
        · rw [roots_edit]
          exact hframe id List.mem_cons_self he (fun hid => hidr (hsub id hid)) _ _ _ hf.1
        · rw [edit_eq_self hpd]
          refine hf.2.1.mono fun i hi => ?_
          exact hframe i (List.mem_cons_of_mem _ (List.mem_append_left _ hi))
            (fun he => hpd (he ▸ hi)) fun hic => hdr i hi (hsub i hic)
        · exact hframe i (List.mem_cons_of_mem _ (List.mem_append_right _ hi))
      · rw [hx] at hc
        cases hc
        have hpd := mem_of_childrenOf hx
        have hpr : p ∉ r.ids := hdr p hpd
        have hsub := subset_childrenOf hx
        refine ⟨?_, hd hf.2.1 hnd hx fun i hi => ?_, ?_⟩
        · rw [roots_edit]
          exact hframe id List.mem_cons_self he (fun hid => hidd (hsub id hid)) _ _ _ hf.1
        · exact hframe i (List.mem_cons_of_mem _ (List.mem_append_left _ hi))
        · rw [edit_eq_self hpr]
          refine hf.2.2.mono fun i hi => ?_
          exact hframe i (List.mem_cons_of_mem _ (List.mem_append_right _ hi))
            (fun he => hpr (he ▸ hi)) fun hic => hdr i (hsub i hic) hi

/-- The label of a node is changed. -/
theorem Forall.relabel {h : α → α} (hf : f.Forall P q) (hn : f.ids.Nodup)
    (hp : ∀ q l ks, P q p l ks → P' q p (h l) ks)
    (hframe : ∀ i ∈ f.ids, i ≠ p → ∀ q l ks, P q i l ks → P' q i l ks) :
    (f.relabel p h).Forall P' q := by
  induction f generalizing q with
  | nil => trivial
  | node id l d r hd hr =>
    obtain ⟨hidd, hidr, hnd, hnr, hdr⟩ := nodup_node hn
    have hfd : ∀ i ∈ d.ids, i ≠ p → ∀ q l ks, P q i l ks → P' q i l ks := fun i hi =>
      hframe i (List.mem_cons_of_mem _ (List.mem_append_left _ hi))
    have hfr : ∀ i ∈ r.ids, i ≠ p → ∀ q l ks, P q i l ks → P' q i l ks := fun i hi =>
      hframe i (List.mem_cons_of_mem _ (List.mem_append_right _ hi))
    rw [Forest.relabel]
    split
    · next he =>
      subst he
      exact ⟨hp _ _ _ hf.1, hf.2.1.mono fun i hi => hfd i hi fun he => hidd (he ▸ hi),
        hf.2.2.mono fun i hi => hfr i hi fun he => hidr (he ▸ hi)⟩
    · next he =>
      have hroots : (d.relabel p h).roots = d.roots := roots_relabel
      refine ⟨?_, hd hf.2.1 hnd hfd, hr hf.2.2 hnr hfr⟩
      rw [hroots]
      exact hframe id List.mem_cons_self he _ _ _ hf.1

/-- The trees get another parent. -/
theorem Forall.reparent {q' : Option Nat} (hf : f.Forall P q) (hn : f.ids.Nodup)
    (hroot : ∀ i ∈ f.roots, ∀ l ks, P q i l ks → P' q' i l ks)
    (hframe : ∀ i ∈ f.ids, i ∉ f.roots → ∀ q l ks, P q i l ks → P' q i l ks) :
    f.Forall P' q' := by
  induction f with
  | nil => trivial
  | node id l c r _ hr =>
    obtain ⟨hidc, hidr, -, hnr, hcr⟩ := nodup_node hn
    refine ⟨hroot id List.mem_cons_self _ _ hf.1, hf.2.1.mono fun i hi => ?_,
      hr hf.2.2 hnr (fun i hi => hroot i (List.mem_cons_of_mem _ hi)) fun i hi hir => ?_⟩
    · refine hframe i (List.mem_cons_of_mem _ (List.mem_append_left _ hi)) fun hm => ?_
      rcases List.mem_cons.1 hm with rfl | hm
      · exact hidc hi
      · exact hcr i hi (roots_subset i hm)
    · refine hframe i (List.mem_cons_of_mem _ (List.mem_append_right _ hi)) fun hm => ?_
      rcases List.mem_cons.1 hm with rfl | hm
      · exact hidr hi
      · exact hir hm

end

/-! ## Taking nodes out -/

theorem subtree_eq_nil (h : n ∉ f.ids) : f.subtree n = nil := by
  induction f with
  | nil => rfl
  | node id l c r hc hr =>
    rw [ids, List.mem_cons, List.mem_append, not_or, not_or] at h
    rw [subtree, if_neg (Ne.symm h.1), hc h.2.1, hr h.2.2]
    rfl

theorem subtree_append (h : n ∉ f.ids) : (f.append g).subtree n = g.subtree n := by
  induction f with
  | nil => rfl
  | node id l c r _ ih =>
    rw [ids, List.mem_cons, List.mem_append, not_or, not_or] at h
    rw [append, subtree, if_neg (Ne.symm h.1), subtree_eq_nil h.2.1, ih h.2.2]
    rfl

theorem replaceRoot_eq_self (h : n ∉ f.roots) : replaceRoot n ts f = f := by
  induction f with
  | nil => rfl
  | node id l c r _ ih =>
    obtain ⟨hne, hr⟩ := not_or.1 (mt List.mem_cons.2 h)
    rw [replaceRoot, if_neg (Ne.symm hne), ih hr]

theorem remove_eq_self (h : n ∉ f.ids) : f.remove n = f := by
  unfold remove
  rw [parentOf_eq_none h]
  exact replaceRoot_eq_self fun hr => h (roots_subset n hr)

/-- One of the trees is taken out. -/
theorem take_root (hn : f.ids.Nodup) (h : n ∈ f.roots) : ∃ c₁ l c c₂,
    f = append c₁ (node n l c c₂) ∧ f.subtree n = node n l c nil ∧ f.remove n = c₁.append c₂ := by
  have hp := parentOf_root hn h
  obtain ⟨c₁, l, c, c₂, rfl, hr⟩ := exists_split h
  have hn₁ : n ∉ c₁.ids := by
    rw [ids_append, ids] at hn
    exact fun hm => (List.nodup_append.1 hn).2.2 n hm n List.mem_cons_self rfl
  refine ⟨c₁, l, c, c₂, rfl, (subtree_append hn₁).trans (if_pos rfl), ?_⟩
  unfold remove
  rw [hp]
  exact replaceRoot_split hr

/-- Some of the trees are taken out. -/
theorem gather_spec {ns : List Nat} (hn : f.ids.Nodup) (hns : ns.Nodup)
    (hr : ∀ n ∈ ns, n ∈ f.roots) :
    (gather ns f).1.roots = ns ∧
      (∀ i, (gather ns f).1.ids.count i + (gather ns f).2.ids.count i = f.ids.count i) ∧
      (∀ m ∈ f.roots, m ∉ ns → m ∈ (gather ns f).2.roots) ∧
      ∀ (P : Option Nat → Nat → α → List Nat → Prop) (q : Option Nat), f.Forall P q →
        (gather ns f).1.Forall P q ∧ (gather ns f).2.Forall P q := by
  induction ns with
  | nil => exact ⟨rfl, fun i => Nat.zero_add _, fun _ hm _ => hm, fun P q h => ⟨trivial, h⟩⟩
  | cons n ns ih =>
    obtain ⟨hmem, hns⟩ := List.nodup_cons.1 hns
    obtain ⟨hroots, hcount, hleft, hP⟩ := ih hns fun m hm => hr m (List.mem_cons_of_mem _ hm)
    rw [gather]
    generalize (gather ns f).1 = got at hroots hcount hP
    generalize (gather ns f).2 = left at hcount hleft hP
    have hle (i : Nat) : got.ids.count i + left.ids.count i ≤ 1 := by
      rw [hcount i]
      exact List.nodup_iff_count_le_one.1 hn i
    have hnl : left.ids.Nodup := List.nodup_iff_count_le_one.2 fun i =>
      Nat.le_trans (Nat.le_add_left _ _) (hle i)
    -- The next node is still the first of a tree that is left.
    have hl := hleft n (hr n List.mem_cons_self) hmem
    have hng : n ∉ got.ids := by
      intro hg
      have h₁ := List.count_pos_iff.2 hg
      have h₂ := List.count_pos_iff.2 (roots_subset n hl)
      have h₃ := hle n
      omega
    obtain ⟨c₁, l, c, c₂, he, hs, hrem⟩ := take_root hnl hl
    rw [subtree_append hng, remove_eq_self hng, hs, hrem]
    refine ⟨?_, fun i => ?_, fun m hm hmns => ?_, fun P q hf => ?_⟩
    · rw [roots_append, hroots]
      rfl
    · rw [← hcount i, he]
      simp only [ids_append, ids, List.count_append, List.count_cons, List.count_nil]
      omega
    · obtain ⟨hmn, hmns⟩ := not_or.1 (mt List.mem_cons.2 hmns)
      have hml := hleft m hm hmns
      rw [he, roots_append, roots, List.mem_append, List.mem_cons] at hml
      rw [roots_append, List.mem_append]
      exact hml.imp_right fun h => h.resolve_left hmn
    · obtain ⟨hg, hl⟩ := hP P q hf
      rw [he, forall_append] at hl
      exact ⟨forall_append.2 ⟨⟨hl.2.1, hl.2.2.1, trivial⟩, hg⟩, forall_append.2 ⟨hl.1, hl.2.2.2⟩⟩

/-! ## Looking for a label -/

/-- The first node with a label that matches. -/
def find (m : α → Bool) : Forest α → Option Nat
  | nil => none
  | node id l c r => if m l then some id else c.find m <|> r.find m

section
variable {P : Option Nat → Nat → α → List Nat → Prop} {q : Option Nat} {m : α → Bool}

theorem Forall.exists_of_mem (h : f.Forall P q) (hi : i ∈ f.ids) : ∃ q l ks, P q i l ks := by
  induction f generalizing q with
  | nil => cases hi
  | node id l c r hc hr =>
    rcases List.mem_cons.1 hi with rfl | hi
    · exact ⟨q, l, c.roots, h.1⟩
    · rcases List.mem_append.1 hi with hi | hi
      · exact hc h.2.1 hi
      · exact hr h.2.2 hi

/-- The node that is found has a label that matches. -/
theorem Forall.find (h : f.Forall P q) (hf : f.find m = some n) :
    ∃ q l ks, P q n l ks ∧ m l = true := by
  induction f generalizing q with
  | nil => cases hf
  | node id l c r hc hr =>
    rw [Forest.find] at hf
    split at hf
    · next hm =>
      cases hf
      exact ⟨q, l, c.roots, h.1, hm⟩
    · rcases hx : c.find m with _ | x
      · rw [hx] at hf
        exact hr h.2.2 hf
      · rw [hx] at hf
        cases hf
        exact hc h.2.1 hx

/-- If none is found, no label matches. -/
theorem forall_of_find (h : f.Forall P q) (hf : f.find m = none) :
    f.Forall (fun q i l ks => P q i l ks ∧ m l = false) q := by
  induction f generalizing q with
  | nil => trivial
  | node id l c r hc hr =>
    rw [Forest.find] at hf
    split at hf
    · cases hf
    · next hm =>
      rcases hx : c.find m with _ | x
      · rw [hx] at hf
        exact ⟨⟨h.1, Bool.eq_false_iff.2 hm⟩, hc h.2.1 hx, hr h.2.2 hf⟩
      · rw [hx] at hf
        cases hf

end

/-! ## The nodes with their labels -/

/-- The nodes with their labels. -/
def entries : Forest α → List (Nat × α)
  | nil => []
  | node id l c r => (id, l) :: (c.entries ++ r.entries)

theorem map_fst_entries : f.entries.map Prod.fst = f.ids := by
  induction f with
  | nil => rfl
  | node id l c r hc hr => rw [entries, List.map_cons, List.map_append, hc, hr, ids]

theorem mem_ids_of_entries (h : (n, l) ∈ f.entries) : n ∈ f.ids := by
  rw [← map_fst_entries]
  exact List.mem_map_of_mem h

theorem exists_entry (h : n ∈ f.ids) : ∃ l, (n, l) ∈ f.entries := by
  rw [← map_fst_entries] at h
  obtain ⟨⟨i, l⟩, he, rfl⟩ := List.mem_map.1 h
  exact ⟨l, he⟩

theorem find_eq {m : α → Bool} : f.find m = (f.entries.find? fun e => m e.2).map Prod.fst := by
  induction f with
  | nil => rfl
  | node id l c r hc hr =>
    rw [find, entries, List.find?_cons, List.find?_append]
    cases m l with
    | true => rfl
    | false =>
      dsimp only
      rw [if_neg Bool.false_ne_true, hc, hr]
      cases c.entries.find? fun e => m e.2 <;> rfl

end Forest
