import Wandr.Canvas.Nodes

/-!
# The arena follows the reference

A node that is put somewhere is not taken out of the list of the parent it had. The arena follows
the reference tree as long as no node that is somewhere already is put anywhere, no node is given
an identifier that has one, and nothing is freed that is on the stack.

* `Dom.Valid`: what is asked of a script; `Dom.Tidy`: what else the arena needs;
* `Represents.step`: one mutation; `script_follows`: a script.
-/

namespace Wandr.Canvas

/-- A node is another one, or below it. -/
inductive Below (node : NodeId → Option Node) : NodeId → NodeId → Prop
  | refl (n : NodeId) : Below node n n
  | child {n c m : NodeId} {x : Node} :
    node n = some x → c ∈ x.children → Below node c m → Below node n m

namespace Dom

variable (d : Dom)

def rest (m : Nat) : List NodeId := d.stack.take (d.stack.length - m)

def popped (m : Nat) : List NodeId := d.stack.drop (d.stack.length - m)

/-- A node is not below any of some others. -/
def Outside (ns : List NodeId) (p : NodeId) : Prop := ∀ n ∈ ns, ¬ Below d.node n p

/-- No live node has an identifier. -/
def Unused (id : ElementId) : Prop := ∀ n, d.elementId n ≠ some id

/-- A call names what is there, and puts no node below itself. -/
def Valid : Mutation → Prop
  | .appendChildren id m =>
    m ≤ d.stack.length ∧ ∃ p, d.lookup id = some p ∧ d.Outside (d.popped m) p
  | .assignNodeId path id =>
    d.Unused id ∧ ∃ root n, d.stack.getLast? = some root ∧ d.navigate root path = some n
  | .createPlaceholder id | .createTextNode _ id => d.Unused id
  | .loadTemplate roots index id => index < roots.length ∧ d.Unused id
  | .replaceNodeWith id m | .insertNodesAfter id m | .insertNodesBefore id m =>
    m ≤ d.stack.length ∧ ∃ a, d.lookup id = some a ∧
      ∀ p, d.parent a = some p → d.Outside (d.popped m) p
  | .replacePlaceholderWithNodes path m =>
    m ≤ d.stack.length ∧ ∃ root a, (d.rest m).getLast? = some root ∧
      d.navigate root path = some a ∧ ∀ p, d.parent a = some p → d.Outside (d.popped m) p
  | .setAttribute _ _ id | .setNodeText _ id | .createEventListener _ id
  | .removeEventListener _ id | .removeNode id | .pushRoot id => ∃ n, d.lookup id = some n

/-- Some nodes are not anywhere yet, and none is there twice. -/
def Loose (ns : List NodeId) : Prop := ns.Nodup ∧ ∀ n ∈ ns, d.parent n = none

/-- Neither the root nor a node of the stack is below a node. -/
def Spared (a : NodeId) (stack : List NodeId) : Prop := ∀ n, Below d.node a n → n ≠ ROOT ∧ n ∉ stack

def Tidy : Mutation → Prop
  | .appendChildren _ m => d.Loose (d.popped m)
  | .assignNodeId path id =>
    id < 2 ^ 32 ∧ ∀ root n, d.stack.getLast? = some root → d.navigate root path = some n →
      d.elementId n = none
  | .createPlaceholder id | .createTextNode _ id | .loadTemplate _ _ id => id < 2 ^ 32
  | .replaceNodeWith id m =>
    ((d.parent (d.resolve id)).isSome → d.Loose (d.popped m)) ∧
      d.Spared (d.resolve id) (d.rest m)
  | .replacePlaceholderWithNodes path m =>
    ∀ root a, (d.rest m).getLast? = some root → d.navigate root path = some a →
      ((d.parent a).isSome → d.Loose (d.popped m)) ∧ d.Spared a (d.rest m)
  | .insertNodesAfter id m | .insertNodesBefore id m =>
    (d.parent (d.resolve id)).isSome → d.Loose (d.popped m)
  | .removeNode id => d.Spared (d.resolve id) d.stack
  | _ => True

end Dom

variable {d d' d₁ : Dom} {r : RefDom} {f c c₁ c₂ : Forest Label} {q : Option NodeId}
  {n p a : NodeId} {x : Node} {ns : List NodeId}

/-- A path is followed the same way whatever is on the stack. -/
theorem navigate_stack {stack : List NodeId} {root : NodeId} {path : List UInt8} :
    ({ d with stack } : Dom).navigate root path = d.navigate root path := by
  induction path generalizing root with
  | nil => rfl
  | cons i path ih =>
    rw [Dom.navigate, Dom.navigate]
    simp only [ih]
    rfl

/-- What is in trees of the arena is below one of their first nodes. -/
theorem below_of_mem (h : f.Forall d.Holds q) (hi : n ∈ f.ids) :
    ∃ m ∈ f.roots, Below d.node m n := by
  induction f generalizing q with
  | nil => cases hi
  | node id l c g hc hg =>
    rcases List.mem_cons.1 hi with rfl | hi
    · exact ⟨n, List.mem_cons_self, .refl n⟩
    rcases List.mem_append.1 hi with hi | hi
    · obtain ⟨m, hm, hb⟩ := hc h.2.1 hi
      exact ⟨id, List.mem_cons_self, .child h.1 hm hb⟩
    · obtain ⟨m, hm, hb⟩ := hg h.2.2 hi
      exact ⟨m, List.mem_cons_of_mem _ hm, hb⟩

namespace Represents

theorem elementId (h : Represents d r) {e : ElementId} (hl : d.lookup e = some n) :
    (d.node n).isSome := by
  obtain ⟨x, hx, -⟩ := Option.bind_eq_some_iff.1 ((h.map e n).1 hl)
  rw [hx]
  rfl

/-! ## One node -/

/-- What a node carries is changed. -/
theorem relabel (h : Represents d r) (hx : d.node n = some x) {g : Label → Label} {y : Node}
    (hy : y = { x with
      kind := (g ⟨x.kind, x.elementId⟩).kind, elementId := (g ⟨x.kind, x.elementId⟩).elementId })
    (hnode : ∀ j, d'.node j = if j = n then some y else d.node j) (hwf : d'.nodes.Wf)
    (hm : d'.Mapped) (hs : d'.stack = d.stack) :
    Represents d' { r with forest := r.forest.relabel n g } := by
  have hsome (j : NodeId) : (d'.node j).isSome = (d.node j).isSome := by
    rw [hnode]
    split
    · next hj => rw [hj, hx]; rfl
    · rfl
  have hids : (r.forest.relabel n g).ids = r.forest.ids := Forest.ids_relabel
  refine ⟨?_, ?_, fun j hj => ?_, hwf, hm, ?_, hs.trans h.stack, fun j hj => ?_⟩
  · refine h.nodes.relabel h.nodup (fun q l ks hd => ?_) fun i _ hi q l ks hd => ?_
    · cases hx.symm.trans hd
      exact (hnode n).trans (by rw [if_pos rfl, hy])
    · exact (hnode i).trans (by rw [if_neg hi, hd])
  · rw [hids]
    exact h.nodup
  · rw [hids]
    exact h.live j (hsome j ▸ hj)
  · rw [hids]
    exact h.root
  · rw [hsome]
    exact h.stackLive j (hs ▸ hj)

theorem nodeMut (h : Represents d r) (hl : (d.node n).isSome) (g : NodeKind → NodeKind) :
    ∃ d', d.nodeMut n (fun x => { x with kind := g x.kind }) = some d' ∧
      Represents d' (r.changed n g) := by
  obtain ⟨x, hx⟩ := Option.isSome_iff_exists.1 hl
  obtain ⟨d', he, h'⟩ := Dom.nodeMut_spec h.wf hx fun x => { x with kind := g x.kind }
  refine ⟨d', he, h.relabel hx rfl h'.node h'.wf (h.map.congr h'.map fun j => ?_) h'.stack⟩
  unfold Dom.elementId
  rw [h'.node]
  split
  · next hj => rw [hj, hx]; rfl
  · rfl

theorem mapElement (h : Represents d r) {e : ElementId} (hl : (d.node n).isSome)
    (hnone : d.elementId n = none) (hu : d.Unused e) (he : e < 2 ^ 32) :
    ∃ d', d.mapElement e n = some d' ∧ d'.stack = d.stack ∧ Represents d'
      { r with forest := r.forest.relabel n fun l => { l with elementId := some e } } := by
  obtain ⟨x, hx⟩ := Option.isSome_iff_exists.1 hl
  have hid : x.elementId = none := by
    rw [Dom.elementId, hx] at hnone
    exact hnone
  obtain ⟨d', he, hnode, hwf, hm, hs⟩ := Dom.mapElement_spec h.wf h.map hx hid hu he
  exact ⟨d', he, hs, h.relabel hx rfl hnode hwf hm hs⟩

/-- A tree that is new is one more of the forest. -/
theorem grow {t : Forest Label} (h : Represents d r) (ht : Dom.Grows d d₁ t) :
    r.Fresh t ∧ Represents d₁ { r with forest := r.forest.append t } := by
  have hfresh : ∀ i ∈ t.ids, i ∉ r.forest.ids := by
    intro i hi hmem
    have hs := h.isSome hmem
    rw [ht.fresh i hi] at hs
    cases hs
  refine ⟨⟨ht.nodup, hfresh⟩, ?_, ?_, fun j hj => ?_, ht.wf, h.map.congr ht.map fun j => ?_, ?_,
    ht.stack.trans h.stack, fun j hj => ?_⟩
  · refine Forest.forall_append.2 ⟨h.nodes.mono fun i hi q l ks hd => ?_, ht.nodes⟩
    unfold Dom.Holds
    rw [ht.kept i fun hit => hfresh i hit hi]
    exact hd
  · rw [Forest.ids_append]
    exact List.nodup_append.2 ⟨h.nodup, ht.nodup, fun i hi j hj he => hfresh j hj (he ▸ hi)⟩
  · rw [Forest.ids_append, List.mem_append]
    by_cases hjt : j ∈ t.ids
    · exact Or.inr hjt
    · rw [ht.kept j hjt] at hj
      exact Or.inl (h.live j hj)
  · by_cases hjt : j ∈ t.ids
    · rw [ht.plain j hjt, Dom.elementId, ht.fresh j hjt]
      rfl
    · rw [Dom.elementId, ht.kept j hjt]
      rfl
  · rw [Forest.ids_append]
    exact List.mem_append_left _ h.root
  · rw [ht.stack] at hj
    have hs := h.stackLive j hj
    rwa [ht.kept j fun hjt => hfresh j hjt (h.live j hs)]

/-- A tree that is new is pushed, under an identifier. -/
theorem push {t : Forest Label} {e : ElementId} (h : Represents d r) (ht : Dom.Grows d d₁ t)
    (hr : t.roots = [n]) (hu : d.Unused e) (he : e < 2 ^ 32) :
    ∃ d', d₁.push e n = some d' ∧ r.Fresh t ∧ Represents d' (r.grown t n e) := by
  obtain ⟨hf, h₁⟩ := h.grow ht
  have hn : n ∈ t.ids := Forest.roots_subset n (by rw [hr]; exact List.mem_cons_self)
  have hlive : (d₁.node n).isSome := by
    refine h₁.isSome ?_
    rw [Forest.ids_append]
    exact List.mem_append_right _ hn
  have hu₁ : d₁.Unused e := by
    intro j
    by_cases hj : j ∈ t.ids
    · rw [ht.plain j hj]
      exact (Option.some_ne_none e).symm
    · rw [Dom.elementId, ht.kept j hj]
      exact hu j
  obtain ⟨d₂, he₂, hs, h₂⟩ := h₁.mapElement hlive (ht.plain n hn) hu₁ he
  refine ⟨{ d₂ with stack := d₂.stack ++ [n] }, ?_, hf, h₂.nodes, h₂.nodup, h₂.live, h₂.wf, h₂.map,
    h₂.root, congrArg (· ++ [n]) h₂.stack, fun j hj => ?_⟩
  · rw [Dom.push, he₂]
    rfl
  · rcases List.mem_append.1 hj with hj | hj
    · exact h₂.stackLive j hj
    · cases List.mem_singleton.1 hj
      refine h₂.isSome ?_
      rw [Forest.ids_relabel, Forest.ids_append]
      exact List.mem_append_right _ hn

/-! ## Moving nodes -/

/-- The last nodes of the stack are popped. -/
theorem popN (h : Represents d r) {m : Nat} (hm : m ≤ d.stack.length) :
    d.popN m = some ({ d with stack := d.rest m }, d.popped m) ∧ d.popped m = r.popped m ∧
      d.rest m = r.rest m ∧ Represents { d with stack := d.rest m } { r with stack := r.rest m } ∧
      ∀ n ∈ d.popped m, (d.node n).isSome := by
  have hrest : d.rest m = r.rest m := by
    unfold Dom.rest RefDom.rest
    rw [h.stack]
  refine ⟨if_pos hm, ?_, hrest, ⟨h.nodes, h.nodup, h.live, h.wf, h.map, h.root, hrest,
    fun n hn => h.stackLive n (List.mem_of_mem_take hn)⟩,
    fun n hn => h.stackLive n (List.mem_of_mem_drop hn)⟩
  unfold Dom.popped RefDom.popped
  rw [h.stack]

/-- Nodes that are not anywhere are among the first of the trees. -/
theorem roots (h : Represents d r) (hl : (d.node n).isSome) (hp : d.parent n = none) :
    n ∈ r.forest.roots := by
  by_contra hn
  obtain ⟨q, hq⟩ := Forest.exists_parentOf (h.live n hl) hn
  rw [h.parentOf, hp] at hq
  cases hq

end Represents

/-- Nodes are taken out of the forest, to be put below one that is left. -/
structure Taken (d : Dom) (r : RefDom) (ns : List NodeId) (p : NodeId) (c : Forest Label) :
    Prop where
  roots : (Forest.gather ns r.forest).1.roots = ns
  count : ∀ i, (Forest.gather ns r.forest).1.ids.count i +
    (Forest.gather ns r.forest).2.ids.count i = r.forest.ids.count i
  got : (Forest.gather ns r.forest).1.Forall d.Holds none
  left : (Forest.gather ns r.forest).2.Forall d.Holds none
  children : (Forest.gather ns r.forest).2.childrenOf p = some c

namespace Represents

theorem take (h : Represents d r) (hns : d.Loose ns) (hl : ∀ n ∈ ns, (d.node n).isSome)
    (hp : (d.node p).isSome) (hout : d.Outside ns p) : ∃ c, Taken d r ns p c := by
  obtain ⟨hroots, hcount, -, hP⟩ := Forest.gather_spec h.nodup hns.1 fun n hn =>
    h.roots (hl n hn) (hns.2 n hn)
  obtain ⟨hgot, hleft⟩ := hP _ _ h.nodes
  have hpl : p ∈ (Forest.gather ns r.forest).2.ids := by
    have hpc := List.count_pos_iff.2 (h.live p hp)
    rw [← hcount p] at hpc
    rcases Nat.eq_zero_or_pos ((Forest.gather ns r.forest).2.ids.count p) with hz | hpos
    · have hpos : 0 < (Forest.gather ns r.forest).1.ids.count p := by omega
      obtain ⟨n, hn, hb⟩ := below_of_mem hgot (List.count_pos_iff.1 hpos)
      exact absurd hb (hout n (hroots ▸ hn))
    · exact List.count_pos_iff.1 hpos
  obtain ⟨c, hc⟩ := Forest.exists_childrenOf hpl
  exact ⟨c, hroots, hcount, hgot, hleft, hc⟩

end Represents

namespace Taken

theorem count_le (ht : Taken d r ns p c) (h : Represents d r) (i : NodeId) :
    (Forest.gather ns r.forest).1.ids.count i + (Forest.gather ns r.forest).2.ids.count i ≤ 1 := by
  rw [ht.count i]
  exact List.nodup_iff_count_le_one.1 h.nodup i

theorem nodup (ht : Taken d r ns p c) (h : Represents d r) :
    (Forest.gather ns r.forest).1.ids.Nodup ∧ (Forest.gather ns r.forest).2.ids.Nodup := by
  have hle := ht.count_le h
  constructor
  · exact List.nodup_iff_count_le_one.2 fun i => Nat.le_trans (Nat.le_add_right _ _) (hle i)
  · exact List.nodup_iff_count_le_one.2 fun i => Nat.le_trans (Nat.le_add_left _ _) (hle i)

theorem disjoint (ht : Taken d r ns p c) (h : Represents d r)
    (hn : n ∈ (Forest.gather ns r.forest).2.ids) : n ∉ (Forest.gather ns r.forest).1.ids := by
  intro hg
  have h₁ := List.count_pos_iff.2 hg
  have h₂ := List.count_pos_iff.2 hn
  have h₃ := ht.count_le h n
  omega

/-- The parent has the children that are left to it. -/
theorem parent (ht : Taken d r ns p c) (h : Represents d r) (hx : d.node p = some x) :
    x.children = c.roots ∧ c.Forall d.Holds (some p) ∧ p ∉ c.ids ∧ p ∉ ns ∧
      ∀ i ∈ c.ids, i ∉ ns := by
  obtain ⟨⟨l, hd⟩, hf⟩ := ht.left.childrenOf (ht.nodup h).2 ht.children
  cases hx.symm.trans hd
  have hout (i : NodeId) (hi : i ∈ (Forest.gather ns r.forest).2.ids) : i ∉ ns := fun hn =>
    ht.disjoint h hi (Forest.roots_subset i (by rw [ht.roots]; exact hn))
  exact ⟨rfl, hf, Forest.notMem_childrenOf (ht.nodup h).2 ht.children,
    hout p (Forest.mem_of_childrenOf ht.children),
    fun i hi => hout i (Forest.subset_childrenOf ht.children i hi)⟩

/-- The nodes are put in the place of some of the children, and nothing else changes. -/
theorem reshape {mid : Forest Label} (ht : Taken d r ns p ((c₁.append mid).append c₂))
    (h : Represents d r) {g : Forest Label → Forest Label → Forest Label} {stack : List NodeId}
    (hg : ∀ ts, g ts ((c₁.append mid).append c₂) = (c₁.append ts).append c₂)
    (hx : d.node p = some x)
    (hp : d'.node p = some { x with children := c₁.roots ++ ns ++ c₂.roots })
    (hns : ∀ n ∈ ns, d'.node n = (d.node n).map fun y => { y with parent := some p })
    (hgone : ∀ j ∈ mid.ids, d'.node j = none)
    (hkept : ∀ j, j ≠ p → j ∉ ns → j ∉ mid.ids → d'.node j = d.node j)
    (hwf : d'.nodes.Wf) (hm : d'.Mapped) (hroot : ROOT ∉ mid.ids)
    (hs : d'.stack = stack) (hstack : ∀ n ∈ stack, (d.node n).isSome ∧ n ∉ mid.ids) :
    Represents d' ⟨(Forest.gather ns r.forest).2.edit p (g (Forest.gather ns r.forest).1),
      stack⟩ := by
  obtain ⟨hnodupGot, hnodup⟩ := ht.nodup h
  obtain ⟨-, hc, hpc, hpn, hcn⟩ := ht.parent h hx
  have hcount (i : NodeId) := Forest.count_edit (h := g (Forest.gather ns r.forest).1) hnodup
    ht.children i
  have hids (i : NodeId) :
      ((Forest.gather ns r.forest).2.edit p (g (Forest.gather ns r.forest).1)).ids.count i +
        mid.ids.count i = r.forest.ids.count i := by
    have hi := hcount i
    have hf := ht.count i
    rw [hg] at hi
    simp only [Forest.ids_append, List.count_append] at hi
    omega
  have hmem (i : NodeId) (hi : i ∈ r.forest.ids) (hmid : i ∉ mid.ids) :
      i ∈ ((Forest.gather ns r.forest).2.edit p (g (Forest.gather ns r.forest).1)).ids := by
    refine List.count_pos_iff.1 ?_
    have h₁ := hids i
    have h₂ := List.count_pos_iff.2 hi
    rw [List.count_eq_zero.2 hmid] at h₁
    omega
  have hlive (i : NodeId) (hi : (d'.node i).isSome) : (d.node i).isSome := by
    by_cases hip : i = p
    · rw [hip, hx]
      rfl
    by_cases hin : i ∈ ns
    · rw [hns i hin, Option.isSome_map] at hi
      exact hi
    by_cases him : i ∈ mid.ids
    · rw [hgone i him] at hi
      cases hi
    · rwa [hkept i hip hin him] at hi
  have hlive' (i : NodeId) (hi : (d.node i).isSome) (him : i ∉ mid.ids) :
      (d'.node i).isSome := by
    by_cases hip : i = p
    · rw [hip, hp]
      rfl
    by_cases hin : i ∈ ns
    · rw [hns i hin, Option.isSome_map]
      exact hi
    · rwa [hkept i hip hin him]
  have hmidc (i : NodeId) (hi : i ∈ mid.ids) : i ∈ ((c₁.append mid).append c₂).ids := by
    simp only [Forest.ids_append, List.mem_append]
    exact Or.inl (Or.inr hi)
  -- What is not moved, and not put in the place of, is as it was.
  have hsame (i : NodeId) (hip : i ≠ p) (hin : i ∉ ns) (him : i ∉ mid.ids) (q : Option NodeId)
      (l : Label) (ks : List NodeId) (hd : d.Holds q i l ks) : d'.Holds q i l ks :=
    (hkept i hip hin him).trans hd
  have hframe (i : NodeId) (hi : i ∈ (Forest.gather ns r.forest).1.ids) (hin : i ∉ ns)
      (q : Option NodeId) (l : Label) (ks : List NodeId) (hd : d.Holds q i l ks) :
      d'.Holds q i l ks := by
    refine hsame i (fun he => ?_) hin (fun him => ?_) q l ks hd
    · exact ht.disjoint h (Forest.mem_of_childrenOf ht.children) (he ▸ hi)
    · exact ht.disjoint h (Forest.subset_childrenOf ht.children i (hmidc i him)) hi
  refine ⟨?_, ?_, fun i hi => ?_, hwf, hm, ?_, hs, fun i hi => ?_⟩
  · refine ht.left.edit hnodup ht.children (fun q l hd => ?_) ?_ fun i hi hip hic q l ks hd => ?_
    · rw [hg, Forest.roots_append, Forest.roots_append, ht.roots]
      cases hx.symm.trans hd
      exact hp
    · rw [hg]
      have hc₁ := (Forest.forall_append.1 (Forest.forall_append.1 hc).1).1
      have hc₂ := (Forest.forall_append.1 hc).2
      have hnodupC := Forest.nodup_childrenOf hnodup ht.children
      rw [Forest.ids_append, Forest.ids_append] at hnodupC
      obtain ⟨hn₁, -, hd₂⟩ := List.nodup_append.1 hnodupC
      have hd₁ := (List.nodup_append.1 hn₁).2.2
      refine Forest.forall_append.2 ⟨Forest.forall_append.2 ⟨?_, ?_⟩, ?_⟩
      · refine hc₁.mono fun i hi => hsame i (fun he => hpc ?_) (hcn i ?_) fun him => ?_
        · simp only [Forest.ids_append, List.mem_append]
          exact Or.inl (Or.inl (he ▸ hi))
        · simp only [Forest.ids_append, List.mem_append]
          exact Or.inl (Or.inl hi)
        · exact hd₁ i hi i him rfl
      · refine ht.got.reparent hnodupGot (fun i hi l ks hd => ?_) fun i hi hir => ?_
        · rw [ht.roots] at hi
          unfold Dom.Holds
          rw [hns i hi, hd]
          rfl
        · rw [ht.roots] at hir
          exact hframe i hi hir
      · refine hc₂.mono fun i hi => hsame i (fun he => hpc ?_) (hcn i ?_) fun him => ?_
        · rw [Forest.ids_append]
          exact List.mem_append_right _ (he ▸ hi)
        · rw [Forest.ids_append]
          exact List.mem_append_right _ hi
        · exact hd₂ i (List.mem_append_right _ him) i hi rfl
    · refine hsame i hip (fun hin => ?_) (fun him => hic (hmidc i him)) q l ks hd
      exact ht.disjoint h hi (Forest.roots_subset i (by rw [ht.roots]; exact hin))
  · exact List.nodup_iff_count_le_one.2 fun i =>
      Nat.le_trans (Nat.le.intro (hids i)) (List.nodup_iff_count_le_one.1 h.nodup i)
  · refine hmem i (h.live i (hlive i hi)) fun him => ?_
    rw [hgone i him] at hi
    cases hi
  · exact hmem ROOT h.root hroot
  · rw [hs] at hi
    exact hlive' i (hstack i hi).1 (hstack i hi).2

end Taken

theorem idxOf?_split {l l' : List NodeId} (h : a ∉ l) :
    (l ++ a :: l').idxOf? a = some l.length := by
  induction l with
  | nil => exact List.idxOf?_cons.trans (if_pos (beq_self_eq_true a))
  | cons b l ih =>
    obtain ⟨hb, hl⟩ := not_or.1 (mt List.mem_cons.2 h)
    rw [List.cons_append, List.idxOf?_cons, ih hl, beq_false_of_ne (Ne.symm hb)]
    rfl

namespace Represents

/-- Nodes are put among the children of a node. -/
theorem splice (h : Represents d r) (hns : d.Loose ns) (hl : ∀ n ∈ ns, (d.node n).isSome)
    (hx : d.node p = some x) (ht : Taken d r ns p (c₁.append c₂))
    {g : Forest Label → Forest Label → Forest Label}
    (hg : ∀ ts, g ts (c₁.append c₂) = (c₁.append ts).append c₂) :
    ∃ d', d.spliceIntoParent p c₁.roots.length ns = some d' ∧
      Represents d' ⟨r.moved p ns g, r.stack⟩ := by
  obtain ⟨hks, -, -, hpn, -⟩ := ht.parent h hx
  rw [Forest.roots_append] at hks
  obtain ⟨d', he, h'⟩ := Dom.splice_spec c₁.roots.length h.wf hx
    (by rw [hks, List.length_append]; omega) hl hpn
  have hp' := (h'.node p).trans (if_pos rfl)
  rw [hks, List.take_left, List.drop_left] at hp'
  have ht' : Taken d r ns p ((c₁.append .nil).append c₂) := by rwa [Forest.append_nil]
  have hm : d'.Mapped := by
    refine h.map.congr h'.map fun j => ?_
    unfold Dom.elementId
    rw [h'.node]
    split
    · next hj => rw [hj, hx]; rfl
    · split
      · exact Option.bind_map
      · rfl
  refine ⟨d', he, ?_⟩
  unfold RefDom.moved
  rw [hns.1.dedup]
  refine ht'.reshape h (by rwa [Forest.append_nil]) hx hp' (fun n hn => ?_)
    (fun j hj => (List.not_mem_nil hj).elim) (fun j hjp hjn _ => ?_) h'.wf hm List.not_mem_nil
    (h'.stack.trans h.stack) fun n hn => ⟨h.stackLive n (h.stack ▸ hn), List.not_mem_nil⟩
  · rw [h'.node, if_neg fun he : n = p => hpn (he ▸ hn), if_pos hn]
  · rw [h'.node, if_neg hjp, if_neg hjn]

/-- Nodes are taken out to be put next to one that has a parent. -/
theorem takeBeside (h : Represents d r) (hns : d.Loose ns) (hl : ∀ n ∈ ns, (d.node n).isSome)
    (ha : d.parent a = some p) (hout : d.Outside ns p) :
    ∃ (x : Node) (c₁ : Forest Label) (l : Label) (c c₂ : Forest Label),
      d.node p = some x ∧ Taken d r ns p (c₁.append (.node a l c c₂)) ∧ a ∉ c₁.roots ∧
        x.children.idxOf? a = some c₁.roots.length ∧ a ∉ ns := by
  obtain ⟨x, hx⟩ := Option.isSome_iff_exists.1 (h.sound.parents a p ha)
  obtain ⟨c, ht⟩ := h.take hns hl (by rw [hx]; rfl) hout
  have hks := (ht.parent h hx).1
  have hmem : a ∈ c.roots := by
    have hone := h.sound.once p x hx a
    rw [if_pos ha] at hone
    rw [← hks]
    exact List.count_pos_iff.1 (by omega)
  obtain ⟨c₁, l, c, c₂, rfl, hn⟩ := Forest.exists_split hmem
  refine ⟨x, c₁, l, c, c₂, hx, ht, hn, ?_, fun hm => ?_⟩
  · rw [hks, Forest.roots_append, Forest.roots]
    exact idxOf?_split hn
  · rw [hns.2 a hm] at ha
    cases ha

/-! ## Freeing -/

/-- A node of the trees is freed, with what is below it. -/
theorem free (h : Represents d r) (ha : a ∈ r.forest.roots) (hs : d.Spared a d.stack) :
    ∃ d', d.free a = some d' ∧ Represents d' ⟨r.forest.remove a, r.stack⟩ := by
  obtain ⟨c₁, l, c, c₂, hf, -, hrem⟩ := Forest.take_root h.nodup ha
  have hforest := h.nodes
  have hnodup := h.nodup
  rw [hf] at hforest hnodup
  obtain ⟨h₁, hd, hc, h₂⟩ := Forest.forall_append.1 hforest
  rw [Forest.ids_append] at hnodup
  obtain ⟨hn₁, hn₂, hdisj⟩ := List.nodup_append.1 hnodup
  obtain ⟨hac, hag, hnc, hng, hcg⟩ := Forest.nodup_node hn₂
  have htree : (Forest.node a l c .nil).Forall d.Holds none := ⟨hd, hc, trivial⟩
  have hids : (Forest.node a l c .nil).ids = a :: c.ids := by
    rw [Forest.ids, Forest.ids, List.append_nil]
  have hntree : (Forest.node a l c .nil).ids.Nodup := by
    rw [hids]
    exact List.nodup_cons.2 ⟨hac, hnc⟩
  obtain ⟨d', he, h'⟩ := Dom.free_spec
    (htree.mono fun i _ q l ks hd => ⟨_, hd, rfl⟩) hntree h.wf h.map
  have hspared (i : NodeId) (hi : i ∈ (Forest.node a l c .nil).ids) : i ≠ ROOT ∧ i ∉ d.stack := by
    obtain ⟨m, hm, hb⟩ := below_of_mem htree hi
    cases List.mem_singleton.1 hm
    exact hs i hb
  have hkept (i : NodeId) (hi : i ∈ (c₁.append c₂).ids) : d'.node i = d.node i := by
    rw [Forest.ids_append, List.mem_append] at hi
    refine h'.kept i fun hit => ?_
    rw [hids] at hit
    rcases hi with hi | hi
    · refine hdisj i hi i ?_ rfl
      rw [Forest.ids, ← List.cons_append]
      exact List.mem_append_left _ hit
    · rcases List.mem_cons.1 hit with rfl | hit
      · exact hag hi
      · exact hcg i hit hi
  have hmem (i : NodeId) (hi : i ∈ r.forest.ids) (hit : i ∉ (Forest.node a l c .nil).ids) :
      i ∈ (c₁.append c₂).ids := by
    rw [hf, Forest.ids_append, Forest.ids, List.mem_append, List.mem_cons, List.mem_append] at hi
    rw [hids, List.mem_cons, not_or] at hit
    rw [Forest.ids_append, List.mem_append]
    exact hi.imp_right fun hi => (hi.resolve_left hit.1).resolve_left hit.2
  refine ⟨d', he, ?_⟩
  rw [hrem]
  refine ⟨?_, ?_, fun i hi => ?_, h'.wf, h'.map, ?_, h'.stack.trans h.stack, fun i hi => ?_⟩
  · refine (Forest.forall_append.2 ⟨h₁, h₂⟩).mono fun i hi q l ks hd => ?_
    exact (hkept i hi).trans hd
  · rw [Forest.ids_append]
    refine List.nodup_append.2 ⟨hn₁, hng, fun i hi j hj he => hdisj i hi j ?_ he⟩
    rw [Forest.ids]
    exact List.mem_cons_of_mem _ (List.mem_append_right _ hj)
  · by_cases hit : i ∈ (Forest.node a l c .nil).ids
    · rw [h'.gone i hit] at hi
      cases hi
    · rw [h'.kept i hit] at hi
      exact hmem i (h.live i hi) hit
  · exact hmem ROOT h.root fun hi => (hspared ROOT hi).1 rfl
  · rw [h'.stack] at hi
    rw [h'.kept i fun hit => (hspared i hit).2 hi]
    exact h.stackLive i hi

/-- A node that has a parent is freed, and others are put where it was. -/
theorem replace (h : Represents d r) (hns : d.Loose ns) (hl : ∀ n ∈ ns, (d.node n).isSome)
    (ha : d.parent a = some p) (hout : d.Outside ns p) (hs : d.Spared a d.stack) :
    ∃ d', d.replace a ns = some d' ∧ a ∉ ns ∧
      Represents d' ⟨r.moved p ns (Forest.replaceRoot a), r.stack⟩ := by
  obtain ⟨x, c₁, l, c, c₂, hx, ht, hn, hidx, hans⟩ := h.takeBeside hns hl ha hout
  obtain ⟨y, hy, hyp⟩ := Option.bind_eq_some_iff.1 ha
  have hsplit : c₁.append (.node a l c c₂) = (c₁.append (.node a l c .nil)).append c₂ :=
    (Forest.append_assoc (f := c₁) (g := .node a l c .nil)).symm
  rw [hsplit] at ht
  obtain ⟨hks, hforall, hpc, hpn, hcn⟩ := ht.parent h hx
  have hmid (i : NodeId) (hi : i ∈ (Forest.node a l c .nil).ids) :
      i ∈ ((c₁.append (.node a l c .nil)).append c₂).ids := by
    rw [Forest.ids_append, Forest.ids_append]
    exact List.mem_append_left _ (List.mem_append_right _ hi)
  have hpmid : p ∉ (Forest.node a l c .nil).ids := fun hi => hpc (hmid p hi)
  have hap : a ≠ p := fun he => hpmid (he ▸ List.mem_cons_self)
  rw [Forest.roots_append, Forest.roots_append, Forest.roots, Forest.roots, List.append_assoc,
    List.singleton_append] at hks
  have herase : x.children.erase a = c₁.roots ++ c₂.roots := by
    rw [hks, List.erase_append_right _ hn, List.erase_cons_head]
  -- The node leaves the list of its parent, the others come to where it was.
  obtain ⟨d₁, he₁, h₁⟩ :=
    Dom.nodeMut_spec h.wf hx fun y => { y with children := y.children.erase a }
  have hx₁ := (h₁.node p).trans (if_pos rfl)
  have hne₁ (j : NodeId) (hj : j ≠ p) : d₁.node j = d.node j := (h₁.node j).trans (if_neg hj)
  have hl₁ : ∀ n ∈ ns, (d₁.node n).isSome := by
    intro n hm
    rw [hne₁ n fun he => hpn (he ▸ hm)]
    exact hl n hm
  obtain ⟨d₂, he₂, h₂⟩ := Dom.splice_spec c₁.roots.length h₁.wf hx₁
    (by dsimp only; rw [herase, List.length_append]; omega) hl₁ hpn
  have hp₂ := (h₂.node p).trans (if_pos rfl)
  dsimp only at hp₂
  rw [herase, List.take_left, List.drop_left] at hp₂
  have hns₂ (j : NodeId) (hj : j ∈ ns) :
      d₂.node j = (d.node j).map fun y => { y with parent := some p } := by
    have hjp : j ≠ p := fun he => hpn (he ▸ hj)
    rw [h₂.node, if_neg hjp, if_pos hj, hne₁ j hjp]
  have hkept₂ (j : NodeId) (hjp : j ≠ p) (hj : j ∉ ns) : d₂.node j = d.node j := by
    rw [h₂.node, if_neg hjp, if_neg hj, hne₁ j hjp]
  have hm₂ : d₂.Mapped := by
    refine h.map.congr (h₂.map.trans h₁.map) fun j => ?_
    unfold Dom.elementId
    by_cases hjp : j = p
    · rw [hjp, hp₂, hx]
      rfl
    by_cases hj : j ∈ ns
    · rw [hns₂ j hj]
      exact Option.bind_map
    · rw [hkept₂ j hjp hj]
  -- It is freed then.
  have htree : (Forest.node a l c .nil).Forall d.Holds (some p) :=
    (Forest.forall_append.1 (Forest.forall_append.1 hforall).1).2
  have hntree : (Forest.node a l c .nil).ids.Nodup := by
    have hnodup := Forest.nodup_childrenOf (ht.nodup h).2 ht.children
    rw [Forest.ids_append, Forest.ids_append] at hnodup
    exact (List.nodup_append.1 (List.nodup_append.1 hnodup).1).2.1
  have hlisted : (Forest.node a l c .nil).Forall d₂.Listed (some p) :=
    htree.mono fun i hi q l ks hd =>
      ⟨_, (hkept₂ i (fun he => hpmid (he ▸ hi)) (hcn i (hmid i hi))).trans hd, rfl⟩
  obtain ⟨d₃, he₃, h₃⟩ := Dom.free_spec hlisted hntree h₂.wf hm₂
  have hspared (i : NodeId) (hi : i ∈ (Forest.node a l c .nil).ids) : i ≠ ROOT ∧ i ∉ d.stack := by
    obtain ⟨m, hm, hb⟩ := below_of_mem htree hi
    cases List.mem_singleton.1 hm
    exact hs i hb
  have hstack : d₃.stack = r.stack := by
    rw [h₃.stack, h₂.stack, h₁.stack, h.stack]
  refine ⟨d₃, ?_, hans, ?_⟩
  · simp only [Dom.replace, Dom.detach, hy, hyp, hx, hidx, he₁, Option.bind_eq_bind,
      Option.bind_some, Option.getD_some, he₂]
    exact he₃
  · unfold RefDom.moved
    rw [hns.1.dedup]
    refine ht.reshape h (fun ts => ?_) hx ((h₃.kept p hpmid).trans hp₂) (fun n hm => ?_) h₃.gone
      (fun j hjp hjn hjm => (h₃.kept j hjm).trans (hkept₂ j hjp hjn)) h₃.wf h₃.map
      (fun hi => (hspared ROOT hi).1 rfl) hstack fun n hm => ?_
    · rw [← hsplit, Forest.replaceRoot_split hn, Forest.append_assoc]
    · rw [h₃.kept n fun hi => hcn n (hmid n hi) hm, hns₂ n hm]
    · rw [← h.stack] at hm
      exact ⟨h.stackLive n hm, fun hi => (hspared n hi).2 hm⟩

/-! ## Mutations -/

theorem resolve (h : Represents d r) {e : ElementId} (hl : d.lookup e = some n) :
    d.resolve e = n ∧ r.holder e = some n ∧ (d.node n).isSome := by
  refine ⟨?_, h.holder hl, h.elementId hl⟩
  rw [Dom.resolve, hl]
  rfl

/-- The place before or after a node is between two lists of trees. -/
def Between (a : NodeId) (place : Nat → Nat) (g : Forest Label → Forest Label → Forest Label) :
    Prop :=
  ∀ (c₁ : Forest Label) (l : Label) (c c₂ : Forest Label), a ∉ c₁.roots →
    ∃ e₁ e₂ : Forest Label, c₁.append (.node a l c c₂) = e₁.append e₂ ∧
      e₁.roots.length = place c₁.roots.length ∧
      ∀ ts, g ts (e₁.append e₂) = (e₁.append ts).append e₂

theorem between_before : Between a (·) (Forest.insertBefore a) := by
  intro c₁ l c c₂ hn
  refine ⟨c₁, .node a l c c₂, rfl, rfl, fun ts => ?_⟩
  rw [Forest.insertBefore_split hn, Forest.append_assoc]

theorem between_after : Between a (· + 1) (Forest.insertAfter a) := by
  intro c₁ l c c₂ hn
  have hsplit : c₁.append (.node a l c c₂) = (c₁.append (.node a l c .nil)).append c₂ :=
    (Forest.append_assoc (f := c₁) (g := .node a l c .nil)).symm
  refine ⟨c₁.append (.node a l c .nil), c₂, hsplit, ?_, fun ts => ?_⟩
  · rw [Forest.roots_append, List.length_append]
    rfl
  · rw [← hsplit, Forest.insertAfter_split hn, Forest.append_assoc, Forest.append_assoc,
      Forest.append_assoc]

theorem insertBeside {m : Nat} {place : Nat → Nat}
    {g : Forest Label → Forest Label → Forest Label} (h : Represents d r)
    (hm : m ≤ d.stack.length) (hl : (d.node a).isSome)
    (hout : ∀ p, d.parent a = some p → d.Outside (d.popped m) p)
    (hloose : (d.parent a).isSome → d.Loose (d.popped m)) (hg : Between a place g) :
    ∃ d' r', ({ d with stack := d.rest m } : Dom).insertBeside a place (d.popped m) = some d' ∧
      r.Put a m g r.forest r' ∧ Represents d' r' := by
  obtain ⟨-, hpop, -, h₀, hlive⟩ := h.popN hm
  obtain ⟨y, hy⟩ := Option.isSome_iff_exists.1 hl
  have hy₀ : ({ d with stack := d.rest m } : Dom).node a = some y := hy
  have hpar : d.parent a = y.parent := by
    rw [Dom.parent, hy]
    rfl
  unfold RefDom.Put Dom.insertBeside
  rw [h.parentOf, hy₀, hpar]
  simp only [Option.bind_eq_bind, Option.bind_some]
  cases hp : y.parent with
  | none => exact ⟨_, ⟨r.forest, r.rest m⟩, rfl, ⟨rfl, rfl⟩, h₀⟩
  | some p =>
    rw [hp] at hpar
    have hns := hloose (by rw [hpar]; rfl)
    obtain ⟨x, c₁, l, c, c₂, hx, ht, hn, hidx, hans⟩ :=
      h₀.takeBeside hns hlive hpar (hout p hpar)
    obtain ⟨e₁, e₂, he, hlen, hge⟩ := hg c₁ l c c₂ hn
    rw [he] at ht
    obtain ⟨d', hd', h'⟩ := h₀.splice hns hlive hx ht hge
    refine ⟨d', ⟨r.moved p (r.popped m) g, r.rest m⟩, ?_, ⟨rfl, ?_, rfl⟩, ?_⟩
    · dsimp only
      rw [hx, Option.bind_some, hidx, Option.map_some, Option.getD_some, ← hlen]
      exact hd'
    · rw [← hpop]
      exact hans
    · rw [← hpop]
      exact h'

theorem exchange {m : Nat} (h : Represents d r) (hm : m ≤ d.stack.length)
    (hl : (d.node a).isSome) (hout : ∀ p, d.parent a = some p → d.Outside (d.popped m) p)
    (hloose : (d.parent a).isSome → d.Loose (d.popped m)) (hs : d.Spared a (d.rest m)) :
    ∃ d' r', ({ d with stack := d.rest m } : Dom).replace a (d.popped m) = some d' ∧
      r.Put a m (Forest.replaceRoot a) (r.forest.remove a) r' ∧ Represents d' r' := by
  obtain ⟨-, hpop, -, h₀, hlive⟩ := h.popN hm
  unfold RefDom.Put
  rw [h.parentOf]
  cases hp : d.parent a with
  | none =>
    obtain ⟨d', he, h'⟩ := h₀.free (h.roots hl hp) hs
    obtain ⟨y, hy⟩ := Option.isSome_iff_exists.1 hl
    have hy₀ : ({ d with stack := d.rest m } : Dom).node a = some y := hy
    have hpar : y.parent = none := by
      rw [Dom.parent, hy] at hp
      exact hp
    refine ⟨d', ⟨r.forest.remove a, r.rest m⟩, ?_, ⟨rfl, rfl⟩, h'⟩
    simp only [Dom.replace, hy₀, hpar, Option.bind_eq_bind, Option.bind_some]
    exact he
  | some p =>
    obtain ⟨d', he, hans, h'⟩ :=
      h₀.replace (hloose (by rw [hp]; rfl)) hlive hp (hout p hp) hs
    refine ⟨d', ⟨r.moved p (r.popped m) (Forest.replaceRoot a), r.rest m⟩, he, ⟨rfl, ?_, rfl⟩,
      ?_⟩
    · rw [← hpop]
      exact hans
    · rw [← hpop]
      exact h'

/-- A node is removed as it is replaced by nothing. -/
theorem removeNode (h : Represents d r) (hl : (d.node a).isSome) (hs : d.Spared a d.stack) :
    ∃ d', (d.detach a).bind (·.free a) = some d' ∧
      Represents d' { r with forest := r.forest.remove a } := by
  obtain ⟨y, hy⟩ := Option.isSome_iff_exists.1 hl
  cases hp : d.parent a with
  | none =>
    obtain ⟨d', he, h'⟩ := h.free (h.roots hl hp) hs
    rw [Dom.parent, hy] at hp
    have hpar : y.parent = none := hp
    refine ⟨d', ?_, h'⟩
    simp only [Dom.detach, hy, hpar, Option.bind_eq_bind, Option.bind_some]
    exact he
  | some p =>
    have hloose : d.Loose [] := ⟨List.nodup_nil, fun _ hn => by cases hn⟩
    obtain ⟨d', he, -, h'⟩ := h.replace hloose (fun _ hn => by cases hn) hp
      (fun _ hn => by cases hn) hs
    obtain ⟨x, hx⟩ := Option.isSome_iff_exists.1 (h.sound.parents a p hp)
    have hparent := h.parentOf (n := a)
    rw [hp] at hparent
    rw [Dom.parent, hy] at hp
    have hpar : y.parent = some p := hp
    have hrem : r.forest.remove a = r.moved p [] (Forest.replaceRoot a) := by
      unfold Forest.remove
      rw [hparent]
      rfl
    refine ⟨d', ?_, hrem ▸ h'⟩
    simp only [Dom.replace, hy, hpar, hx, Option.bind_eq_bind, Option.bind_some,
      Dom.spliceIntoParent] at he
    exact he

theorem navigate (h : Represents d r) {root : NodeId} {path : List UInt8}
    (hl : (d.node root).isSome) (hn : d.navigate root path = some n) : (d.node n).isSome := by
  induction path generalizing root with
  | nil =>
    cases hn
    exact hl
  | cons i path ih =>
    rw [Dom.navigate, Option.bind_eq_bind, Option.bind_eq_some_iff] at hn
    obtain ⟨x, hx, hn⟩ := hn
    rw [Option.bind_eq_bind, Option.bind_eq_some_iff] at hn
    obtain ⟨m, hm, hn⟩ := hn
    obtain ⟨c, hc, hks⟩ := h.children hx
    refine ih (h.isSome (Forest.subset_childrenOf hc m (Forest.roots_subset m ?_))) hn
    rw [← hks]
    exact List.mem_of_getElem? hm

/-- A leaf is made, and pushed under an identifier. -/
theorem create (h : Represents d r) {e : ElementId} (hu : d.Unused e) (he : e < 2 ^ 32)
    (kind : NodeKind) : ∃ d' r' n, (d.alloc { kind }).1.push e (d.alloc { kind }).2 = some d' ∧
      r.Fresh (.node n ⟨kind, none⟩ .nil .nil) ∧
      r' = r.grown (.node n ⟨kind, none⟩ .nil .nil) n e ∧ Represents d' r' := by
  obtain ⟨d', hd', hf, h'⟩ := h.push (.leaf h.wf kind) rfl hu he
  exact ⟨d', _, _, hd', hf, rfl, h'⟩

theorem pushRoot (h : Represents d r) (hl : (d.node n).isSome) :
    Represents { d with stack := d.stack ++ [n] } { r with stack := r.stack ++ [n] } := by
  refine ⟨h.nodes, h.nodup, h.live, h.wf, h.map, h.root, congrArg (· ++ [n]) h.stack,
    fun j hj => ?_⟩
  rcases List.mem_append.1 hj with hj | hj
  · exact h.stackLive j hj
  · cases List.mem_singleton.1 hj
    exact hl

theorem step (h : Represents d r) (call : Mutation) (hv : d.Valid call) (ht : d.Tidy call) :
    ∃ d' r', d.apply call = some d' ∧ r.Step call r' ∧ Represents d' r' := by
  cases call with
  | appendChildren id m =>
    obtain ⟨hm, p, hp, hout⟩ := hv
    obtain ⟨hpop, hpopped, hrest, h₀, hlive⟩ := h.popN hm
    obtain ⟨hres, hhold, hl⟩ := h.resolve hp
    obtain ⟨x, hx⟩ := Option.isSome_iff_exists.1 hl
    obtain ⟨c, htaken⟩ := h₀.take ht hlive hl hout
    have hks := (htaken.parent h₀ hx).1
    rw [← Forest.append_nil (f := c)] at htaken
    obtain ⟨d', he, h'⟩ := h₀.splice (g := fun taken c => c.append taken) ht hlive hx htaken
      fun ts => by rw [Forest.append_nil, Forest.append_nil]
    refine ⟨d', _, ?_, ⟨p, hhold, rfl⟩, ?_⟩
    · have hx₀ : ({ d with stack := d.rest m } : Dom).node p = some x := hx
      simp only [Dom.apply, Dom.appendChildren, hres, hpop, hx₀, Option.bind_eq_bind,
        Option.bind_some, hks]
      exact he
    · rw [← hpopped]
      exact h'
  | assignNodeId path id =>
    obtain ⟨hu, root, n, hroot, hn⟩ := hv
    have hl := h.navigate (h.stackLive root (List.mem_of_getLast? hroot)) hn
    obtain ⟨d', he, hs, h'⟩ := h.mapElement hl (ht.2 root n hroot hn) hu ht.1
    refine ⟨d', _, ?_, ⟨root, n, ?_, h.walk hn, rfl⟩, h'⟩
    · simp only [Dom.apply, Dom.assignNodeId, hroot, hn, Option.bind_eq_bind, Option.bind_some]
      exact he
    · rw [← h.stack, hroot]
  | createPlaceholder id =>
    obtain ⟨d', r', n, he, hf, hr, h'⟩ := h.create hv ht .placeholder
    exact ⟨d', r', he, ⟨n, hf, hr⟩, h'⟩
  | createTextNode value id =>
    obtain ⟨d', r', n, he, hf, hr, h'⟩ := h.create hv ht (.text value)
    exact ⟨d', r', he, ⟨n, hf, hr⟩, h'⟩
  | loadTemplate roots index id =>
    obtain ⟨hi, hu⟩ := hv
    obtain ⟨d₁, t, n, he₁, hg, hr, h₁⟩ := Dom.instantiate_spec roots[index] d h.wf
    obtain ⟨d', he, hf, h'⟩ := h.push h₁ hr hu ht
    have htn : roots[index]? = some roots[index] := List.getElem?_eq_getElem hi
    refine ⟨d', _, ?_, ⟨roots[index], t, n, htn, hg, hr, hf, rfl⟩, h'⟩
    simp only [Dom.apply, Dom.loadTemplate, htn, he₁, Option.bind_eq_bind, Option.bind_some]
    exact he
  | replaceNodeWith id m =>
    obtain ⟨hm, a, ha, hout⟩ := hv
    obtain ⟨hloose, hspared⟩ := ht
    obtain ⟨hpop, -, -, -, -⟩ := h.popN hm
    obtain ⟨hres, hhold, hl⟩ := h.resolve ha
    rw [hres] at hloose hspared
    obtain ⟨d', r', he, hput, h'⟩ := h.exchange hm hl hout hloose hspared
    refine ⟨d', r', ?_, ⟨a, hhold, hput⟩, h'⟩
    simp only [Dom.apply, Dom.replaceNodeWith, hres, hpop, Option.bind_eq_bind, Option.bind_some]
    exact he
  | replacePlaceholderWithNodes path m =>
    obtain ⟨hm, root, a, hroot, ha, hout⟩ := hv
    obtain ⟨hloose, hspared⟩ := ht root a hroot ha
    obtain ⟨hpop, -, hrest, h₀, -⟩ := h.popN hm
    have ha₀ : ({ d with stack := d.rest m } : Dom).navigate root path = some a :=
      navigate_stack.trans ha
    have hl := h₀.navigate (h₀.stackLive root (List.mem_of_getLast? hroot)) ha₀
    obtain ⟨d', r', he, hput, h'⟩ := h.exchange hm hl hout hloose hspared
    refine ⟨d', r', ?_, ⟨root, a, ?_, h.walk ha, hput⟩, h'⟩
    · simp only [Dom.apply, Dom.replacePlaceholderWithNodes, hpop, hroot, ha₀,
        Option.bind_eq_bind, Option.bind_some]
      exact he
    · rw [← hrest, hroot]
  | insertNodesAfter id m =>
    obtain ⟨hm, a, ha, hout⟩ := hv
    obtain ⟨hpop, -, -, -, -⟩ := h.popN hm
    obtain ⟨hres, hhold, hl⟩ := h.resolve ha
    have hloose : (d.parent a).isSome → d.Loose (d.popped m) := hres ▸ ht
    obtain ⟨d', r', he, hput, h'⟩ := h.insertBeside hm hl hout hloose between_after
    refine ⟨d', r', ?_, ⟨a, hhold, hput⟩, h'⟩
    simp only [Dom.apply, Dom.insertNodesAfter, hres, hpop, Option.bind_eq_bind,
      Option.bind_some]
    exact he
  | insertNodesBefore id m =>
    obtain ⟨hm, a, ha, hout⟩ := hv
    obtain ⟨hpop, -, -, -, -⟩ := h.popN hm
    obtain ⟨hres, hhold, hl⟩ := h.resolve ha
    have hloose : (d.parent a).isSome → d.Loose (d.popped m) := hres ▸ ht
    obtain ⟨d', r', he, hput, h'⟩ := h.insertBeside hm hl hout hloose between_before
    refine ⟨d', r', ?_, ⟨a, hhold, hput⟩, h'⟩
    simp only [Dom.apply, Dom.insertNodesBefore, hres, hpop, Option.bind_eq_bind,
      Option.bind_some]
    exact he
  | setAttribute name value id =>
    obtain ⟨n, hn⟩ := hv
    obtain ⟨hres, hhold, hl⟩ := h.resolve hn
    obtain ⟨d', he, h'⟩ := h.nodeMut hl (NodeKind.setAttribute name value)
    exact ⟨d', _, by rw [Dom.apply, Dom.setAttribute, hres, he], ⟨n, hhold, rfl⟩, h'⟩
  | setNodeText value id =>
    obtain ⟨n, hn⟩ := hv
    obtain ⟨hres, hhold, hl⟩ := h.resolve hn
    obtain ⟨d', he, h'⟩ := h.nodeMut hl (NodeKind.setText value)
    exact ⟨d', _, by rw [Dom.apply, Dom.setNodeText, hres, he], ⟨n, hhold, rfl⟩, h'⟩
  | createEventListener name id =>
    obtain ⟨n, hn⟩ := hv
    obtain ⟨hres, hhold, hl⟩ := h.resolve hn
    obtain ⟨d', he, h'⟩ := h.nodeMut hl (NodeKind.addListener name)
    exact ⟨d', _, by rw [Dom.apply, Dom.createEventListener, hres, he], ⟨n, hhold, rfl⟩, h'⟩
  | removeEventListener name id =>
    obtain ⟨n, hn⟩ := hv
    obtain ⟨hres, hhold, hl⟩ := h.resolve hn
    obtain ⟨d', he, h'⟩ := h.nodeMut hl (NodeKind.removeListener name)
    exact ⟨d', _, by rw [Dom.apply, Dom.removeEventListener, hres, he], ⟨n, hhold, rfl⟩, h'⟩
  | removeNode id =>
    obtain ⟨n, hn⟩ := hv
    obtain ⟨hres, hhold, hl⟩ := h.resolve hn
    have hspared : d.Spared n d.stack := hres ▸ ht
    obtain ⟨d', he, h'⟩ := h.removeNode hl hspared
    refine ⟨d', _, ?_, ⟨n, hhold, rfl⟩, h'⟩
    rw [Dom.apply, Dom.removeNode, hres]
    exact he
  | pushRoot id =>
    obtain ⟨n, hn⟩ := hv
    obtain ⟨hres, hhold, hl⟩ := h.resolve hn
    refine ⟨_, _, ?_, ⟨n, hhold, rfl⟩, h.pushRoot hl⟩
    rw [Dom.apply, Dom.pushRoot, hres]

end Represents

/-! ## Scripts -/

/-- After every call of a script the tree is that of the reference, and the arena in order. -/
def Follows : Dom → RefDom → List Mutation → Prop
  | d, r, [] => d.Agrees r ∧ d.Sound
  | d, r, call :: calls => (d.Agrees r ∧ d.Sound) ∧
    ∃ d' r', d.apply call = some d' ∧ r.Step call r' ∧ Follows d' r' calls

/-- Each call of a script meets a condition on the tree it finds. -/
def Throughout (P : Dom → Mutation → Prop) : Dom → List Mutation → Prop
  | _, [] => True
  | d, call :: calls => P d call ∧ ∀ d', d.apply call = some d' → Throughout P d' calls

theorem Represents.new : Represents Dom.new RefDom.new where
  nodes := ⟨rfl, trivial, trivial⟩
  nodup := List.nodup_singleton _
  live n hn := by
    cases n with
    | zero => exact List.mem_cons_self
    | succ n => cases hn
  wf := ⟨List.nodup_nil, fun _ hi => by cases hi⟩
  map e n := by
    cases e with
    | zero =>
      cases n with
      | zero => exact iff_of_true rfl rfl
      | succ n => exact iff_of_false (fun h => by cases h) fun h => by cases h
    | succ e =>
      cases n with
      | zero => exact iff_of_false (fun h => by cases h) fun h => by cases h
      | succ n => exact iff_of_false (fun h => by cases h) fun h => by cases h
  root := List.mem_cons_self
  stack := rfl
  stackLive n hn := by cases hn

theorem Represents.follows {calls : List Mutation} (h : Represents d r)
    (hc : Throughout (fun d call => d.Valid call ∧ d.Tidy call) d calls) :
    Follows d r calls := by
  induction calls generalizing d r with
  | nil => exact ⟨h.agrees, h.sound⟩
  | cons call calls ih =>
    obtain ⟨⟨hv, ht⟩, hrest⟩ := hc
    obtain ⟨d', r', he, hs, h'⟩ := h.step call hv ht
    exact ⟨⟨h.agrees, h.sound⟩, d', r', he, hs, ih h' (hrest d' he)⟩

/-- The canvas follows the reference through a script that is valid and tidy. -/
theorem script_follows (calls : List Mutation)
    (h : Throughout (fun d call => d.Valid call ∧ d.Tidy call) Dom.new calls) :
    Follows Dom.new RefDom.new calls :=
  Represents.new.follows h

theorem Follows.sound {calls : List Mutation} (h : Follows d r calls) :
    ∃ d', calls.foldlM Dom.apply d = some d' ∧ d'.Sound := by
  induction calls generalizing d r with
  | nil => exact ⟨d, rfl, h.2⟩
  | cons call calls ih =>
    obtain ⟨-, d₁, r₁, he, -, h₁⟩ := h
    obtain ⟨d', hd', hs⟩ := ih h₁
    refine ⟨d', ?_, hs⟩
    rw [List.foldlM_cons, he]
    exact hd'

theorem Throughout.cons {P : Dom → Mutation → Prop} {call : Mutation} {calls : List Mutation}
    (d' : Dom) (hp : P d call) (he : d.apply call = some d') (h : Throughout P d' calls) :
    Throughout P d (call :: calls) :=
  ⟨hp, fun _ h' => by cases he.symm.trans h'; exact h⟩

/-- Nothing is below a node without children. -/
theorem Below.eq_of_leaf {node : NodeId → Option Node} (hx : node a = some x)
    (hk : x.children = []) (h : Below node a n) : n = a := by
  cases h with
  | refl => rfl
  | child hy hc _ =>
    cases hx.symm.trans hy
    rw [hk] at hc
    cases hc

/-- A tree with some texts, each under the next identifier. -/
def texts (children : List NodeId) (ts : List (String × Option NodeId)) (stack : List NodeId) :
    Dom where
  nodes :=
    { slots := some { kind := .element "root" .empty [], children, elementId := some 0 } ::
        ts.mapIdx fun i t => some { kind := .text t.1, parent := t.2, elementId := some (i + 1) }
      free := [] }
  elementMap := (List.range (ts.length + 1)).map some
  stack

/-- A text is put below the root, another one before it, and the first is removed. -/
def exchanging : List Mutation :=
  [.createTextNode "a" 1, .appendChildren 0 1, .createTextNode "b" 2, .insertNodesBefore 1 1,
    .removeNode 1]

theorem script_follows_sample : Follows Dom.new RefDom.new exchanging := by
  refine script_follows exchanging ?_
  refine .cons (texts [] [("a", none)] [1]) ⟨fun n => ?_, (by decide : 1 < 2 ^ 32)⟩ rfl ?_
  · cases n with
    | zero => decide
    | succ n => exact fun h => by cases h
  refine .cons (texts [1] [("a", some 0)] []) ⟨⟨Nat.le_refl 1, 0, rfl, fun n hn hb => ?_⟩,
    List.nodup_singleton 1, fun n hn => ?_⟩ rfl ?_
  · cases List.mem_singleton.1 hn
    cases Below.eq_of_leaf rfl rfl hb
  · cases List.mem_singleton.1 hn
    rfl
  refine .cons (texts [1] [("a", some 0), ("b", none)] [2])
    ⟨fun n => ?_, (by decide : 2 < 2 ^ 32)⟩ rfl ?_
  · rcases n with _ | _ | n
    · decide
    · decide
    · exact fun h => by cases h
  refine .cons (texts [2, 1] [("a", some 0), ("b", some 0)] [])
    ⟨⟨Nat.le_refl 1, 1, rfl, fun p hp n hn hb => ?_⟩,
      fun _ => ⟨List.nodup_singleton 2, fun n hn => ?_⟩⟩ rfl ?_
  · cases hp
    cases List.mem_singleton.1 hn
    cases Below.eq_of_leaf rfl rfl hb
  · cases List.mem_singleton.1 hn
    rfl
  refine ⟨⟨⟨1, rfl⟩, fun n hb => ?_⟩, fun _ _ => trivial⟩
  cases Below.eq_of_leaf rfl rfl hb
  exact ⟨by decide, List.not_mem_nil⟩

/-- A text is put below the root, and moved to the end of the list it is in. -/
def moving : List Mutation :=
  [.createTextNode "a" 1, .appendChildren 0 1, .pushRoot 1, .appendChildren 0 1]

theorem listed_twice :
    Throughout Dom.Valid Dom.new moving ∧ ¬ Follows Dom.new RefDom.new moving := by
  constructor
  · refine .cons (texts [] [("a", none)] [1]) (fun n => ?_) rfl ?_
    · cases n with
      | zero => decide
      | succ n => exact fun h => by cases h
    refine .cons (texts [1] [("a", some 0)] []) ⟨Nat.le_refl 1, 0, rfl, fun n hn hb => ?_⟩
      rfl ?_
    · cases List.mem_singleton.1 hn
      cases Below.eq_of_leaf rfl rfl hb
    refine .cons (texts [1] [("a", some 0)] [1]) ⟨1, rfl⟩ rfl ?_
    refine ⟨⟨Nat.le_refl 1, 0, rfl, fun n hn hb => ?_⟩, fun _ _ => trivial⟩
    cases List.mem_singleton.1 hn
    cases Below.eq_of_leaf rfl rfl hb
  · intro h
    obtain ⟨d, hd, hs⟩ := h.sound
    have hd' : some (texts [1, 1] [("a", some 0)] []) = some d := hd
    cases hd'
    have hone := hs.once 0 _ rfl 1
    revert hone
    decide

end Wandr.Canvas
