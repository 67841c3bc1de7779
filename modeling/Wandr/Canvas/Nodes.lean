import Wandr.Canvas.Reference

/-!
# What is done to the nodes

* `Dom.Turns`: the nodes of the arena become others, and nothing else changes;
* `Dom.splice_spec`, `Dom.freeSubtree_spec`, `Dom.instantiate_spec`: what the loops over nodes do.
-/

namespace Wandr.Canvas

theorem insertIdx_eq_append {α : Type} {l : List α} {i : Nat} {a : α} (h : i ≤ l.length) :
    l.insertIdx i a = l.take i ++ a :: l.drop i := by
  induction i generalizing l with
  | zero => rw [List.insertIdx_zero, List.take_zero, List.drop_zero, List.nil_append]
  | succ i ih =>
    cases l with
    | nil => cases h
    | cons b l =>
      rw [List.insertIdx_succ_cons, ih (Nat.le_of_succ_le_succ h), List.take_succ_cons,
        List.drop_succ_cons, List.cons_append]

namespace Dom

/-- The nodes are what a function says, and nothing else changes. -/
structure Turns (d d' : Dom) (g : NodeId → Option Node) : Prop where
  node : ∀ j, d'.node j = g j
  wf : d'.nodes.Wf
  map : d'.elementMap = d.elementMap
  stack : d'.stack = d.stack

variable {d d₁ d₂ d' : Dom} {g g' : NodeId → Option Node} {n p : NodeId} {x : Node}
  {ns : List NodeId} {q : Option NodeId}

theorem Turns.trans (h₁ : Turns d d₁ g) (h₂ : Turns d₁ d₂ g') : Turns d d₂ g' :=
  ⟨h₂.node, h₂.wf, h₂.map.trans h₁.map, h₂.stack.trans h₁.stack⟩

theorem Turns.of_eq (h : Turns d d' g) (he : ∀ j, g j = g' j) : Turns d d' g' :=
  ⟨fun j => (h.node j).trans (he j), h.wf, h.map, h.stack⟩

theorem nodeMut_spec (h : d.nodes.Wf) (hx : d.node n = some x) (f : Node → Node) :
    ∃ d', d.nodeMut n f = some d' ∧
      Turns d d' fun j => if j = n then some (f x) else d.node j := by
  have hs : (d.nodes.get? n).isSome := Option.isSome_of_eq_some hx
  refine ⟨{ d with nodes := d.nodes.put n (f x) }, ?_, fun j => ?_, h.put hs _, rfl, rfl⟩
  · rw [nodeMut, hx]
    rfl
  · exact Arena.get?_put hs

theorem alloc_spec (h : d.nodes.Wf) (x : Node) : d.node (d.alloc x).2 = none ∧
    Turns d (d.alloc x).1 fun j => if j = (d.alloc x).2 then some x else d.node j :=
  ⟨(Arena.get?_alloc (j := 0) h).1, fun _ => (Arena.get?_alloc h).2, h.alloc x, rfl, rfl⟩

theorem setParents_spec (h : d.nodes.Wf) (hns : ∀ n ∈ ns, (d.node n).isSome) :
    ∃ d', d.setParents p ns = some d' ∧ Turns d d' fun j =>
      if j ∈ ns then (d.node j).map fun x => { x with parent := some p } else d.node j := by
  induction ns generalizing d with
  | nil => exact ⟨d, rfl, fun j => (if_neg List.not_mem_nil).symm, h, rfl, rfl⟩
  | cons n ns ih =>
    obtain ⟨x, hx⟩ := Option.isSome_iff_exists.1 (hns n List.mem_cons_self)
    obtain ⟨d₁, he₁, h₁⟩ := nodeMut_spec h hx fun x => { x with parent := some p }
    have hlive : ∀ m ∈ ns, (d₁.node m).isSome := by
      intro m hm
      rw [h₁.node]
      split
      · rfl
      · exact hns m (List.mem_cons_of_mem _ hm)
    obtain ⟨d₂, he₂, h₂⟩ := ih h₁.wf hlive
    refine ⟨d₂, ?_, h₁.trans (h₂.of_eq fun j => ?_)⟩
    · rw [setParents, List.foldlM_cons, he₁]
      exact he₂
    · rw [h₁.node]
      by_cases hj : j = n
      · rw [if_pos hj, if_pos (List.mem_cons.2 (Or.inl hj)), hj, hx]
        split <;> rfl
      · simp only [List.mem_cons, hj, false_or, if_false]

/-- Nodes are put into the list of a parent, one after another. -/
theorem splice_spec (pos : Nat) (h : d.nodes.Wf) (hx : d.node p = some x)
    (hpos : pos ≤ x.children.length) (hns : ∀ n ∈ ns, (d.node n).isSome) (hp : p ∉ ns) :
    ∃ d', spliceIntoParent p pos ns d = some d' ∧ Turns d d' fun j =>
      if j = p then
        some { x with children := x.children.take pos ++ ns ++ x.children.drop pos }
      else if j ∈ ns then (d.node j).map fun y => { y with parent := some p }
      else d.node j := by
  induction ns generalizing d pos x with
  | nil =>
    refine ⟨d, rfl, fun j => ?_, h, rfl, rfl⟩
    rw [List.append_nil, List.take_append_drop, if_neg List.not_mem_nil]
    split
    · next hj => rw [hj, hx]
    · rfl
  | cons n ns ih =>
    obtain ⟨hpn, hp⟩ := not_or.1 (mt List.mem_cons.2 hp)
    obtain ⟨y, hy⟩ := Option.isSome_iff_exists.1 (hns n List.mem_cons_self)
    obtain ⟨d₁, he₁, h₁⟩ := nodeMut_spec h hy fun x => { x with parent := some p }
    have hx₁ : d₁.node p = some x := by rw [h₁.node, if_neg hpn, hx]
    obtain ⟨d₂, he₂, h₂⟩ := nodeMut_spec h₁.wf hx₁
      fun x => { x with children := x.children.insertIdx pos n }
    have hlive : ∀ m ∈ ns, (d₂.node m).isSome := by
      intro m hm
      rw [h₂.node]
      split
      · rfl
      · rw [h₁.node]
        split
        · rfl
        · exact hns m (List.mem_cons_of_mem _ hm)
    have hsplit : x.children.insertIdx pos n =
        x.children.take pos ++ n :: x.children.drop pos :=
      insertIdx_eq_append hpos
    have hlen : (x.children.take pos).length = pos := List.length_take_of_le hpos
    obtain ⟨d₃, he₃, h₃⟩ := ih (pos + 1) h₂.wf ((h₂.node p).trans (if_pos rfl))
      (by rw [List.length_insertIdx_of_le_length hpos]; omega) hlive hp
    refine ⟨d₃, ?_, (h₁.trans h₂).trans (h₃.of_eq fun j => ?_)⟩
    · rw [spliceIntoParent, he₁]
      simp only [Option.bind_eq_bind, Option.bind_some, hx₁, hpos, if_true, he₂]
      exact he₃
    · by_cases hj : j = p
      · rw [if_pos hj, if_pos hj]
        have htake : (x.children.insertIdx pos n).take (pos + 1) =
            x.children.take pos ++ [n] := by
          rw [hsplit, List.append_cons, List.take_left' (by rw [List.length_append, hlen]; rfl)]
        have hdrop : (x.children.insertIdx pos n).drop (pos + 1) = x.children.drop pos := by
          rw [hsplit, List.append_cons, List.drop_left' (by rw [List.length_append, hlen]; rfl)]
        dsimp only
        rw [htake, hdrop, List.append_assoc (x.children.take pos)]
        rfl
      · rw [if_neg hj, if_neg hj, h₂.node, if_neg hj, h₁.node]
        by_cases hjn : j = n
        · rw [if_pos hjn, if_pos (List.mem_cons.2 (Or.inl hjn)), hjn, hy]
          split <;> rfl
        · simp only [List.mem_cons, hjn, false_or, if_false]

/-! ## Freeing -/

theorem Mapped.congr (h : d.Mapped) (hmap : d'.elementMap = d.elementMap)
    (hid : ∀ n, d'.elementId n = d.elementId n) : d'.Mapped := by
  intro e n
  rw [hid, ← h e n]
  unfold lookup
  rw [hmap]

/-- Some nodes are freed, with their identifiers. -/
structure Frees (d d' : Dom) (ns : List NodeId) : Prop where
  gone : ∀ j ∈ ns, d'.node j = none
  kept : ∀ j, j ∉ ns → d'.node j = d.node j
  wf : d'.nodes.Wf
  map : d'.Mapped
  stack : d'.stack = d.stack

/-- The entry of an identifier is that of one node. -/
theorem mapped_release (hm : d.Mapped) (hx : d.node n = some x) : (d.release n x).Mapped := by
  intro e j
  have hid : d.elementId n = x.elementId := by
    rw [elementId, hx]
    rfl
  have hid' : (d.release n x).elementId j = if j = n then none else d.elementId j := by
    unfold elementId node release
    rw [Arena.get?_release]
    split <;> rfl
  have hlookup : (d.release n x).lookup e = if x.elementId = some e then none else d.lookup e := by
    unfold lookup release
    cases x.elementId with
    | none => exact (if_neg (Option.some_ne_none e).symm).symm
    | some eid =>
      dsimp only
      rw [List.getElem?_set]
      by_cases he : eid = e
      · rw [if_pos he, if_pos (congrArg some he)]
        split <;> rfl
      · rw [if_neg he, if_neg fun h => he (Option.some.inj h)]
  rw [hid', hlookup]
  by_cases hj : j = n
  · rw [if_pos hj, ← hid]
    refine iff_of_false ?_ fun h => by cases h
    split
    · exact fun h => by cases h
    · next hne => exact fun h => hne (hj ▸ (hm e j).1 h)
  · rw [if_neg hj, ← hid]
    split
    · next he =>
      refine iff_of_false (fun h => by cases h) fun h => hj ?_
      exact Option.some.inj (((hm e j).2 h).symm.trans ((hm e n).2 he))
    · exact hm e j

theorem release_spec (h : d.nodes.Wf) (hm : d.Mapped) (hx : d.node n = some x) :
    Frees d (d.release n x) [n] where
  gone j hj := by
    cases List.mem_singleton.1 hj
    exact Arena.get?_release.trans (if_pos rfl)
  kept j hj := Arena.get?_release.trans (if_neg (mt List.mem_singleton.2 hj))
  wf := h.release (Option.isSome_of_eq_some hx)
  map := mapped_release hm hx
  stack := rfl

/-- The arena has this node with these children. -/
def Listed (d : Dom) (_ : Option NodeId) (n : NodeId) (_ : Label) (ks : List NodeId) : Prop :=
  ∃ x, d.node n = some x ∧ x.children = ks

/-- Trees are freed. -/
theorem freeSubtree_spec {c : Forest Label} {fuel : Nat} (hc : c.Forall d.Listed q)
    (hn : c.ids.Nodup) (hl : c.ids.length ≤ fuel) (h : d.nodes.Wf) (hm : d.Mapped) :
    ∃ d', c.roots.foldlM (freeSubtree fuel) d = some d' ∧ Frees d d' c.ids := by
  induction c generalizing d fuel q with
  | nil => exact ⟨d, rfl, fun _ hj => (List.not_mem_nil hj).elim, fun _ _ => rfl, h, hm, rfl⟩
  | node id l ch g hch hg =>
    obtain ⟨hidc, hidg, hnc, hng, hcg⟩ := Forest.nodup_node hn
    rw [Forest.ids, List.length_cons, List.length_append] at hl
    obtain _ | fuel := fuel
    · cases hl
    obtain ⟨⟨x, hx, hks⟩, hfc, hfg⟩ := hc
    obtain ⟨d₁, he₁, h₁⟩ := nodeMut_spec h hx fun x => { x with children := [] }
    have hid₁ : d₁.node id = some { x with children := [] } := (h₁.node id).trans (if_pos rfl)
    have hne₁ {j : NodeId} (hj : j ≠ id) : d₁.node j = d.node j := (h₁.node j).trans (if_neg hj)
    have hm₁ : d₁.Mapped := by
      refine hm.congr h₁.map fun n => ?_
      unfold elementId
      by_cases hni : n = id
      · rw [hni, hid₁, hx]
        rfl
      · rw [hne₁ hni]
    have hf₁ : ch.Forall d₁.Listed (some id) := hfc.mono fun i hi _ _ _ hli => by
      unfold Listed
      rw [hne₁ fun he : i = id => hidc (he ▸ hi)]
      exact hli
    have hl₁ : ch.ids.length ≤ fuel := by omega
    obtain ⟨d₂, he₂, h₂⟩ := hch hf₁ hnc hl₁ h₁.wf hm₁
    have hid₂ : d₂.node id = some { x with children := [] } := (h₂.kept id hidc).trans hid₁
    have h₃ := release_spec h₂.wf h₂.map hid₂
    -- The trees that come next are still there.
    have hf₃ : g.Forall (Listed (d₂.release id { x with children := [] })) q :=
      hfg.mono fun i hi _ _ _ hli => by
        have hne : i ≠ id := fun he => hidg (he ▸ hi)
        unfold Listed
        rw [h₃.kept i (mt List.mem_singleton.1 hne), h₂.kept i fun hmem => hcg i hmem hi, hne₁ hne]
        exact hli
    have hl₃ : g.ids.length ≤ fuel + 1 := by omega
    obtain ⟨d₄, he₄, h₄⟩ := hg hf₃ hng hl₃ h₃.wf h₃.map
    refine ⟨d₄, ?_, fun j hj => ?_, fun j hj => ?_, h₄.wf, h₄.map, ?_⟩
    · rw [Forest.roots, List.foldlM_cons, freeSubtree, hx]
      simp only [Option.bind_eq_bind, Option.bind_some, he₁, hks, he₂, hid₂]
      exact he₄
    · by_cases hjg : j ∈ g.ids
      · exact h₄.gone j hjg
      rw [h₄.kept j hjg]
      rcases List.mem_cons.1 hj with rfl | hj
      · exact h₃.gone j List.mem_cons_self
      by_cases hji : j = id
      · exact h₃.gone j (List.mem_singleton.2 hji)
      · rw [h₃.kept j (mt List.mem_singleton.1 hji)]
        exact h₂.gone j ((List.mem_append.1 hj).resolve_right hjg)
    · rw [Forest.ids, List.mem_cons, List.mem_append, not_or, not_or] at hj
      rw [h₄.kept j hj.2.2, h₃.kept j (mt List.mem_singleton.1 hj.1), h₂.kept j hj.2.1, hne₁ hj.1]
    · rw [h₄.stack, h₃.stack, h₂.stack, h₁.stack]

/-- A node is freed, with what is below it: there are slots enough. -/
theorem free_spec {l : Label} {c : Forest Label} (hc : (Forest.node n l c .nil).Forall d.Listed q)
    (hn : (Forest.node n l c .nil).ids.Nodup) (h : d.nodes.Wf) (hm : d.Mapped) :
    ∃ d', d.free n = some d' ∧ Frees d d' (Forest.node n l c .nil).ids := by
  have hlen : (Forest.node n l c .nil).ids.length ≤ d.nodes.slots.length + 1 := by
    refine Nat.le_succ_of_le (length_le_slots hn fun i hi => ?_)
    obtain ⟨q, l, ks, x, hx, -⟩ := hc.exists_of_mem hi
    rw [hx]
    rfl
  obtain ⟨d', he, h'⟩ := freeSubtree_spec hc hn hlen h hm
  refine ⟨d', ?_, h'⟩
  rw [Forest.roots, Forest.roots, List.foldlM_cons] at he
  unfold free
  cases hfree : d.freeSubtree (d.nodes.slots.length + 1) n with
  | none => rw [hfree] at he; cases he
  | some d₁ => rw [hfree] at he; exact he

/-! ## Identifiers -/

theorem lookup_set {m : List (Option NodeId)} {e e' : Nat} :
    ((m ++ List.replicate (e + 1 - m.length) none).set e (some n))[e']?.join =
      if e' = e then some n else m[e']?.join := by
  rw [List.getElem?_set]
  by_cases he : e = e'
  · rw [if_pos he, if_pos he.symm, if_pos]
    · rfl
    · rw [List.length_append, List.length_replicate]
      omega
  · rw [if_neg he, if_neg (Ne.symm he), List.getElem?_append]
    split
    · rfl
    · rw [List.getElem?_replicate, List.getElem?_eq_none (by omega)]
      split <;> rfl

/-- A node without an identifier is given one that no node has. -/
theorem mapElement_spec {e : ElementId} (h : d.nodes.Wf) (hm : d.Mapped) (hx : d.node n = some x)
    (hid : x.elementId = none) (hfresh : ∀ j, d.elementId j ≠ some e) (he : e < 2 ^ 32) :
    ∃ d', d.mapElement e n = some d' ∧
      (∀ j, d'.node j = if j = n then some { x with elementId := some e } else d.node j) ∧
      d'.nodes.Wf ∧ d'.Mapped ∧ d'.stack = d.stack := by
  obtain ⟨d', he', h'⟩ := nodeMut_spec
    (d := { d with
      elementMap :=
        (d.elementMap ++ List.replicate (e + 1 - d.elementMap.length) none).set e (some n) })
    h hx fun x => { x with elementId := some (e % 2 ^ 32) }
  have hnode (j : NodeId) :
      d'.node j = if j = n then some { x with elementId := some e } else d.node j := by
    rw [h'.node, Nat.mod_eq_of_lt he]
    rfl
  refine ⟨d', he', hnode, h'.wf, fun e' j => ?_, h'.stack⟩
  have hn : d.elementId n = none := by
    rw [elementId, hx]
    exact hid
  have hj : d'.elementId j = if j = n then some e else d.elementId j := by
    unfold elementId
    rw [hnode]
    split <;> rfl
  rw [lookup, h'.map, lookup_set, hj]
  by_cases hee : e' = e
  · rw [if_pos hee, hee]
    split
    · next hjn => exact iff_of_true (congrArg some hjn.symm) rfl
    · next hjn => exact iff_of_false (fun h => hjn (Option.some.inj h).symm) (hfresh j)
  · rw [if_neg hee]
    split
    · next hjn =>
      refine iff_of_false (fun h => ?_) fun h => hee (Option.some.inj h).symm
      rw [← hjn] at hn
      exact Option.some_ne_none _ (((hm e' j).1 h).symm.trans hn)
    · exact hm e' j

/-! ## Templates -/

/-- A tree is new in the arena, and nothing else changes. -/
structure Grows (d d' : Dom) (t : Forest Label) : Prop where
  nodup : t.ids.Nodup
  fresh : ∀ i ∈ t.ids, d.node i = none
  kept : ∀ j, j ∉ t.ids → d'.node j = d.node j
  nodes : t.Forall d'.Holds none
  plain : ∀ i ∈ t.ids, d'.elementId i = none
  wf : d'.nodes.Wf
  map : d'.elementMap = d.elementMap
  stack : d'.stack = d.stack

theorem Grows.append {t₁ t₂ : Forest Label} (h₁ : Grows d d₁ t₁) (h₂ : Grows d₁ d₂ t₂) :
    Grows d d₂ (t₁.append t₂) := by
  have hlive (i : NodeId) (hi : i ∈ t₁.ids) : d₁.node i ≠ none := by
    obtain ⟨q, l, ks, hd⟩ := h₁.nodes.exists_of_mem hi
    rw [hd]
    exact Option.some_ne_none _
  have hdisj (i : NodeId) (hi : i ∈ t₁.ids) : i ∉ t₂.ids := fun hi₂ =>
    hlive i hi (h₂.fresh i hi₂)
  refine ⟨?_, fun i hi => ?_, fun j hj => ?_, ?_, fun i hi => ?_, h₂.wf, h₂.map.trans h₁.map,
    h₂.stack.trans h₁.stack⟩
  · rw [Forest.ids_append]
    exact List.nodup_append.2 ⟨h₁.nodup, h₂.nodup, fun i hi j hj he => hdisj i hi (he ▸ hj)⟩
  · rw [Forest.ids_append, List.mem_append] at hi
    by_cases hi₁ : i ∈ t₁.ids
    · exact h₁.fresh i hi₁
    · rw [← h₁.kept i hi₁]
      exact h₂.fresh i (hi.resolve_left hi₁)
  · rw [Forest.ids_append, List.mem_append, not_or] at hj
    rw [h₂.kept j hj.2, h₁.kept j hj.1]
  · refine Forest.forall_append.2 ⟨h₁.nodes.mono fun i hi _ _ _ hd => ?_, h₂.nodes⟩
    unfold Holds
    rw [h₂.kept i (hdisj i hi)]
    exact hd
  · rw [Forest.ids_append, List.mem_append] at hi
    by_cases hi₂ : i ∈ t₂.ids
    · exact h₂.plain i hi₂
    · rw [elementId, h₂.kept i hi₂]
      exact h₁.plain i (hi.resolve_right hi₂)

theorem Grows.leaf (h : d.nodes.Wf) (kind : NodeKind) :
    Grows d (d.alloc { kind }).1 (.node (d.alloc { kind }).2 { kind } .nil .nil) := by
  obtain ⟨hnone, ht⟩ := alloc_spec h { kind }
  generalize d.alloc { kind } = a at hnone ht
  have hn := (ht.node a.2).trans (if_pos rfl)
  refine ⟨List.nodup_singleton _, fun i hi => ?_, fun j hj => ?_, ⟨hn, trivial, trivial⟩,
    fun i hi => ?_, ht.wf, ht.map, ht.stack⟩
  · cases List.mem_singleton.1 hi
    exact hnone
  · exact (ht.node j).trans (if_neg (mt List.mem_singleton.2 hj))
  · cases List.mem_singleton.1 hi
    rw [elementId, hn]
    rfl

/-- A node is put above trees that are new. -/
theorem Grows.node {c : Forest Label} {kind : NodeKind} (h : d.nodes.Wf)
    (hc : Grows (d.alloc { kind }).1 d₁ c) :
    ∃ d₂ d₃, d₁.setParents (d.alloc { kind }).2 c.roots = some d₂ ∧
      d₂.nodeMut (d.alloc { kind }).2 (fun x => { x with children := c.roots }) = some d₃ ∧
      Grows d d₃ (.node (d.alloc { kind }).2 { kind } c .nil) := by
  obtain ⟨hnone, ht⟩ := alloc_spec h { kind }
  generalize d.alloc { kind } = a at hnone ht hc
  have hn := (ht.node a.2).trans (if_pos rfl)
  have hnc : a.2 ∉ c.ids := fun hm => Option.some_ne_none _ (hn.symm.trans (hc.fresh _ hm))
  have hroots : ∀ n ∈ c.roots, (d₁.node n).isSome := by
    intro n hm
    obtain ⟨q, l, ks, hd⟩ := hc.nodes.exists_of_mem (Forest.roots_subset n hm)
    rw [hd]
    rfl
  obtain ⟨d₂, he₂, h₂⟩ := setParents_spec (p := a.2) hc.wf hroots
  have hn₂ : d₂.node a.2 = some { kind } := by
    rw [h₂.node, if_neg fun hm => hnc (Forest.roots_subset _ hm), hc.kept _ hnc, hn]
  obtain ⟨d₃, he₃, h₃⟩ := nodeMut_spec h₂.wf hn₂ fun x => { x with children := c.roots }
  have hn₃ := (h₃.node a.2).trans (if_pos rfl)
  have hne (i : NodeId) (hi : i ∈ c.ids) : d₃.node i = d₂.node i :=
    (h₃.node i).trans (if_neg fun he : i = a.2 => hnc (he ▸ hi))
  refine ⟨d₂, d₃, he₂, he₃, ?_, fun i hi => ?_, fun j hj => ?_, ⟨hn₃, ?_, trivial⟩,
    fun i hi => ?_, h₃.wf, ?_, ?_⟩
  · rw [Forest.ids, Forest.ids, List.append_nil]
    exact List.nodup_cons.2 ⟨hnc, hc.nodup⟩
  · rw [Forest.ids, Forest.ids, List.append_nil] at hi
    rcases List.mem_cons.1 hi with rfl | hi
    · exact hnone
    · have hin := hc.fresh i hi
      rw [ht.node] at hin
      split at hin
      · cases hin
      · exact hin
  · rw [Forest.ids, Forest.ids, List.append_nil, List.mem_cons, not_or] at hj
    rw [h₃.node, if_neg hj.1, h₂.node, if_neg fun hm => hj.2 (Forest.roots_subset _ hm),
      hc.kept _ hj.2, ht.node, if_neg hj.1]
  · refine hc.nodes.reparent hc.nodup (fun i hi l ks hd => ?_) fun i hi hir q l ks hd => ?_
    · unfold Holds
      rw [hne i (Forest.roots_subset i hi), h₂.node, if_pos hi, hd]
      rfl
    · unfold Holds
      rw [hne i hi, h₂.node, if_neg hir]
      exact hd
  · rw [Forest.ids, Forest.ids, List.append_nil] at hi
    rcases List.mem_cons.1 hi with rfl | hi
    · rw [elementId, hn₃]
      rfl
    · have hp := hc.plain i hi
      rw [elementId] at hp ⊢
      rw [hne i hi, h₂.node]
      split
      · rw [Option.bind_map]
        exact hp
      · exact hp
  · rw [h₃.map, h₂.map, hc.map, ht.map]
  · rw [h₃.stack, h₂.stack, hc.stack, ht.stack]

mutual

/-- A template is made into a tree that is one of it. -/
theorem instantiate_spec : (tn : TemplateNode) → (d : Dom) → d.nodes.Wf → ∃ d' t n,
    d.instantiate tn = some (d', n) ∧ tn.Grown t ∧ t.roots = [n] ∧ Grows d d' t
  | .element tag attrs children, d, h => by
    obtain ⟨-, ht⟩ := alloc_spec h { kind := (TemplateNode.element tag attrs children).kind }
    obtain ⟨d₁, c, he₁, hc, h₁⟩ := instantiateAll_spec children _ ht.wf
    obtain ⟨d₂, d₃, he₂, he₃, h₃⟩ := h₁.node h
    refine ⟨d₃, _, _, ?_, ⟨_, c, rfl, hc⟩, rfl, h₃⟩
    simp only [instantiate, he₁, he₂, he₃, Option.bind_eq_bind, Option.bind_some]
  | .text s, d, h => by
    refine ⟨_, _, _, ?_, ⟨_, rfl⟩, rfl, .leaf h _⟩
    rw [instantiate]
  | .dynamic id, d, h => by
    refine ⟨_, _, _, ?_, ⟨_, rfl⟩, rfl, .leaf h _⟩
    rw [instantiate]

theorem instantiateAll_spec :
    (tns : List TemplateNode) → (d : Dom) → d.nodes.Wf → ∃ d' t,
      d.instantiateAll tns = some (d', t.roots) ∧ TemplateNode.AllGrown tns t ∧ Grows d d' t
  | [], d, h => by
    refine ⟨d, .nil, ?_, ?_, List.nodup_nil, ?_, fun _ _ => rfl, trivial, ?_, h, rfl, rfl⟩
    · rw [instantiateAll]
      rfl
    · rw [TemplateNode.AllGrown]
    · exact fun i hi => (List.not_mem_nil hi).elim
    · exact fun i hi => (List.not_mem_nil hi).elim
  | tn :: tns, d, h => by
    obtain ⟨d₁, t₁, n, he₁, hg₁, hr₁, h₁⟩ := instantiate_spec tn d h
    obtain ⟨d₂, t₂, he₂, hg₂, h₂⟩ := instantiateAll_spec tns d₁ h₁.wf
    refine ⟨d₂, t₁.append t₂, ?_, ?_, h₁.append h₂⟩
    · simp only [instantiateAll, he₁, he₂, Option.bind_eq_bind, Option.bind_some,
        Forest.roots_append, hr₁, List.singleton_append]
    · rw [TemplateNode.AllGrown]
      exact ⟨t₁, t₂, rfl, hg₁, hg₂⟩

end

end Dom

end Wandr.Canvas
