import Wandr.Canvas.Dom
import Wandr.Lib.Forest
import Mathlib.Data.List.Dedup
import Mathlib.Data.List.Perm.Subperm

/-!
# The reference tree

What the mutations are for: a forest of nodes, the tree of the root among others that are not put
anywhere yet, in which a node that is put somewhere is taken from where it was.

* `RefDom.Step`: what each mutation does;
* `Dom.Agrees`, `Dom.Sound`: the tree below the root is the same, and the arena is in order;
* `Represents`: the arena holds the nodes of the forest; `Represents.agrees`, `Represents.sound`.
-/

namespace Wandr.Canvas

/-- What a node of the forest carries. -/
structure Label where
  kind : NodeKind
  elementId : Option Nat := none

structure RefDom where
  forest : Forest Label
  stack : List NodeId

mutual

/-- A tree is one of a template, with numbers of its own. -/
def TemplateNode.Grown : TemplateNode → Forest Label → Prop
  | .element tag attrs children, t =>
    ∃ n c, t = .node n { kind := (TemplateNode.element tag attrs children).kind } c .nil ∧
      TemplateNode.AllGrown children c
  | .text s, t => ∃ n, t = .node n { kind := (TemplateNode.text s).kind } .nil .nil
  | .dynamic id, t => ∃ n, t = .node n { kind := (TemplateNode.dynamic id).kind } .nil .nil

def TemplateNode.AllGrown : List TemplateNode → Forest Label → Prop
  | [], t => t = .nil
  | tn :: tns, t => ∃ t₁ t₂, t = t₁.append t₂ ∧ tn.Grown t₁ ∧ TemplateNode.AllGrown tns t₂

end

namespace RefDom

def new : RefDom := ⟨.node ROOT ⟨.element "root" .empty [], some 0⟩ .nil .nil, []⟩

variable (r : RefDom)

/-- The node with an identifier. -/
def holder (e : ElementId) : Option NodeId := r.forest.find fun l => l.elementId = some e

def walk (root : NodeId) : List UInt8 → Option NodeId
  | [] => some root
  | i :: path => do
    let c ← r.forest.childrenOf root
    let n ← c.roots[i.toNat]?
    walk n path

def rest (m : Nat) : List NodeId := r.stack.take (r.stack.length - m)

def popped (m : Nat) : List NodeId := r.stack.drop (r.stack.length - m)

/-- The nodes are taken from where they are, and put among the children of a node. -/
def moved (p : NodeId) (ns : List NodeId) (g : Forest Label → Forest Label → Forest Label) :
    Forest Label :=
  let taken := Forest.gather ns.dedup r.forest
  taken.2.edit p (g taken.1)

/-- The last nodes of the stack are put next to another one, or nowhere if it has no parent. -/
def Put (a : NodeId) (m : Nat) (g : Forest Label → Forest Label → Forest Label)
    (alone : Forest Label) (r' : RefDom) : Prop :=
  r'.stack = r.rest m ∧
    match r.forest.parentOf a with
    | some p => a ∉ r.popped m ∧ r'.forest = r.moved p (r.popped m) g
    | none => r'.forest = alone

/-- A tree is pushed, under an identifier. -/
def grown (t : Forest Label) (n : NodeId) (id : ElementId) : RefDom where
  forest := (r.forest.append t).relabel n fun l => { l with elementId := some id }
  stack := r.stack ++ [n]

/-- A tree has numbers that are not there yet, each once. -/
def Fresh (t : Forest Label) : Prop := t.ids.Nodup ∧ ∀ i ∈ t.ids, i ∉ r.forest.ids

/-- The kind of a node is changed. -/
def changed (n : NodeId) (g : NodeKind → NodeKind) : RefDom :=
  { r with forest := r.forest.relabel n fun l => { l with kind := g l.kind } }

def Step : Mutation → RefDom → Prop
  | .appendChildren id m, r' =>
    ∃ p, r.holder id = some p ∧
      r' = ⟨r.moved p (r.popped m) fun taken c => c.append taken, r.rest m⟩
  | .assignNodeId path id, r' =>
    ∃ root n, r.stack.getLast? = some root ∧ r.walk root path = some n ∧
      r' = { r with forest := r.forest.relabel n fun l => { l with elementId := some id } }
  | .createPlaceholder id, r' =>
    ∃ n, r.Fresh (.node n ⟨.placeholder, none⟩ .nil .nil) ∧
      r' = r.grown (.node n ⟨.placeholder, none⟩ .nil .nil) n id
  | .createTextNode value id, r' =>
    ∃ n, r.Fresh (.node n ⟨.text value, none⟩ .nil .nil) ∧
      r' = r.grown (.node n ⟨.text value, none⟩ .nil .nil) n id
  | .loadTemplate roots index id, r' =>
    ∃ tn t n, roots[index]? = some tn ∧ tn.Grown t ∧ t.roots = [n] ∧ r.Fresh t ∧
      r' = r.grown t n id
  | .replaceNodeWith id m, r' =>
    ∃ a, r.holder id = some a ∧ r.Put a m (Forest.replaceRoot a) (r.forest.remove a) r'
  | .replacePlaceholderWithNodes path m, r' =>
    ∃ root a, (r.rest m).getLast? = some root ∧ r.walk root path = some a ∧
      r.Put a m (Forest.replaceRoot a) (r.forest.remove a) r'
  | .insertNodesAfter id m, r' =>
    ∃ a, r.holder id = some a ∧ r.Put a m (Forest.insertAfter a) r.forest r'
  | .insertNodesBefore id m, r' =>
    ∃ a, r.holder id = some a ∧ r.Put a m (Forest.insertBefore a) r.forest r'
  | .setAttribute name value id, r' =>
    ∃ n, r.holder id = some n ∧ r' = r.changed n (NodeKind.setAttribute name value)
  | .setNodeText value id, r' =>
    ∃ n, r.holder id = some n ∧ r' = r.changed n (NodeKind.setText value)
  | .createEventListener name id, r' =>
    ∃ n, r.holder id = some n ∧ r' = r.changed n (NodeKind.addListener name)
  | .removeEventListener name id, r' =>
    ∃ n, r.holder id = some n ∧ r' = r.changed n (NodeKind.removeListener name)
  | .removeNode id, r' =>
    ∃ n, r.holder id = some n ∧ r' = { r with forest := r.forest.remove n }
  | .pushRoot id, r' => ∃ n, r.holder id = some n ∧ r' = { r with stack := r.stack ++ [n] }

end RefDom

/-! ## The tree below the root -/

namespace Dom

variable (d : Dom)

/-- The trees of some nodes, read off the arena; no more calls are needed than there are nodes. -/
def trees : Nat → List NodeId → Forest Label
  | 0, _ => .nil
  | _, [] => .nil
  | fuel + 1, n :: ns =>
    match d.node n with
    | some x => .node n ⟨x.kind, x.elementId⟩ (trees fuel x.children) (trees fuel ns)
    | none => .nil

/-- The tree below the root is that of the reference. -/
def Agrees (r : RefDom) : Prop :=
  ∃ x, d.node ROOT = some x ∧
    r.forest.childrenOf ROOT = some (d.trees d.nodes.slots.length x.children)

def parent (n : NodeId) : Option NodeId := (d.node n).bind Node.parent

def elementId (n : NodeId) : Option Nat := (d.node n).bind Node.elementId

/-- The arena is in order. -/
structure Sound : Prop where
  /-- A node is once in the list of its parent, and in no other. -/
  once : ∀ p x, d.node p = some x → ∀ n,
    x.children.count n = if d.parent n = some p then 1 else 0
  parents : ∀ n p, d.parent n = some p → (d.node p).isSome
  freeNodup : d.nodes.free.Nodup
  freeEmpty : ∀ n ∈ d.nodes.free, d.node n = none
  mapped : ∀ e n, d.lookup e = some n → d.elementId n = some e

/-- The map has the identifiers of the nodes, and no others. -/
def Mapped : Prop := ∀ e n, d.lookup e = some n ↔ d.elementId n = some e

/-- The arena has a node like this one of the forest. -/
def Holds (q : Option NodeId) (n : NodeId) (l : Label) (ks : List NodeId) : Prop :=
  d.node n = some { kind := l.kind, children := ks, parent := q, elementId := l.elementId }

end Dom

/-- The arena has the nodes of the forest, and no others. -/
structure Represents (d : Dom) (r : RefDom) : Prop where
  nodes : r.forest.Forall d.Holds none
  nodup : r.forest.ids.Nodup
  live : ∀ n, (d.node n).isSome → n ∈ r.forest.ids
  wf : d.nodes.Wf
  map : d.Mapped
  root : ROOT ∈ r.forest.ids
  stack : d.stack = r.stack
  stackLive : ∀ n ∈ d.stack, (d.node n).isSome

variable {d : Dom} {r : RefDom} {f : Forest Label} {q : Option NodeId} {n p : NodeId}

theorem Dom.trees_eq {fuel : Nat} (h : f.Forall d.Holds q) (hl : f.ids.length ≤ fuel) :
    d.trees fuel f.roots = f := by
  induction f generalizing fuel q with
  | nil => cases fuel <;> rfl
  | node id l c g hc hg =>
    rw [Forest.ids, List.length_cons, List.length_append] at hl
    obtain _ | fuel := fuel
    · cases hl
    · have hn : d.node id = some _ := h.1
      rw [Forest.roots, trees, hn]
      dsimp only
      rw [hc h.2.1 (by omega), hg h.2.2 (by omega)]

/-- There are no more nodes than slots. -/
theorem Dom.length_le_slots {ns : List NodeId} (hn : ns.Nodup)
    (h : ∀ i ∈ ns, (d.node i).isSome) : ns.length ≤ d.nodes.slots.length := by
  have hsub : ∀ i ∈ ns, i ∈ List.range d.nodes.slots.length := by
    intro i hi
    obtain ⟨x, hx⟩ := Option.isSome_iff_exists.1 (h i hi)
    exact List.mem_range.2 (Arena.lt_of_get? hx)
  have hle := (List.subperm_of_subset hn hsub).length_le
  rwa [List.length_range] at hle

namespace Represents

/-- A node of the forest, as it is in the arena. -/
theorem node (h : Represents d r) (hn : n ∈ r.forest.ids) : ∃ l c,
    r.forest.childrenOf n = some c ∧ d.Holds (r.forest.parentOf n) n l c.roots ∧
      c.Forall d.Holds (some n) := by
  obtain ⟨c, hc⟩ := Forest.exists_childrenOf hn
  obtain ⟨⟨l, hl⟩, hf⟩ := h.nodes.childrenOf h.nodup hc
  rw [Option.or_none] at hl
  exact ⟨l, c, hc, hl, hf⟩

theorem isSome (h : Represents d r) (hn : n ∈ r.forest.ids) : (d.node n).isSome := by
  obtain ⟨l, c, -, hd, -⟩ := h.node hn
  rw [hd]
  rfl

theorem parentOf (h : Represents d r) : r.forest.parentOf n = d.parent n := by
  unfold Dom.parent
  by_cases hn : n ∈ r.forest.ids
  · obtain ⟨l, c, -, hd, -⟩ := h.node hn
    rw [hd]
    rfl
  · rw [Forest.parentOf_eq_none hn, Option.not_isSome_iff_eq_none.1 (mt (h.live n) hn)]
    rfl

theorem children (h : Represents d r) {x : Node} (hp : d.node p = some x) :
    ∃ c, r.forest.childrenOf p = some c ∧ x.children = c.roots := by
  obtain ⟨l, c, hc, hd, -⟩ := h.node (h.live p (by rw [hp]; rfl))
  cases hp.symm.trans hd
  exact ⟨c, hc, rfl⟩

theorem agrees (h : Represents d r) : d.Agrees r := by
  obtain ⟨l, c, hc, hd, hf⟩ := h.node h.root
  refine ⟨_, hd, ?_⟩
  rw [hc, Dom.trees_eq hf]
  exact Dom.length_le_slots (Forest.nodup_childrenOf h.nodup hc) fun i hi =>
    h.isSome (Forest.subset_childrenOf hc i hi)

theorem sound (h : Represents d r) : d.Sound where
  once p x hp n := by
    obtain ⟨c, hc, hx⟩ := h.children hp
    rw [hx, ← h.parentOf]
    have hnodup := Forest.nodup_roots (Forest.nodup_childrenOf h.nodup hc)
    split
    · next hq =>
      obtain ⟨c', hc', hm⟩ := Forest.exists_of_parentOf h.nodup hq
      cases hc.symm.trans hc'
      exact List.count_eq_one_of_mem hnodup hm
    · next hq => exact List.count_eq_zero.2 fun hm => hq (Forest.parentOf_of_child h.nodup hc hm)
  parents n p hp := by
    rw [← h.parentOf] at hp
    obtain ⟨c, hc, -⟩ := Forest.exists_of_parentOf h.nodup hp
    exact h.isSome (Forest.mem_of_childrenOf hc)
  freeNodup := h.wf.nodup
  freeEmpty n hn := Option.not_isSome_iff_eq_none.1 fun hs => h.wf.notMem_free hs hn
  mapped e n := (h.map e n).1

/-- An identifier is that of the node it is mapped to. -/
theorem holder (h : Represents d r) {e : ElementId} (hl : d.lookup e = some n) :
    r.holder e = some n := by
  obtain ⟨x, hx, he⟩ := Option.bind_eq_some_iff.1 ((h.map e n).1 hl)
  unfold RefDom.holder
  rcases hf : r.forest.find fun l => l.elementId = some e with _ | m
  · have hn := h.live n (by rw [hx]; rfl)
    obtain ⟨q, l, ks, hd, hne⟩ := (Forest.forall_of_find h.nodes hf).exists_of_mem hn
    cases hx.symm.trans hd
    exact absurd he (of_decide_eq_false hne)
  · obtain ⟨q, l, ks, hd, he⟩ := h.nodes.find hf
    have hm := (h.map e m).2 (Option.bind_eq_some_iff.2 ⟨_, hd, of_decide_eq_true he⟩)
    exact hf.trans (hm.symm.trans hl)

theorem walk (h : Represents d r) {path : List UInt8} {root : NodeId}
    (hn : d.navigate root path = some n) : r.walk root path = some n := by
  induction path generalizing root with
  | nil => exact hn
  | cons i path ih =>
    rw [Dom.navigate, Option.bind_eq_bind, Option.bind_eq_some_iff] at hn
    obtain ⟨x, hx, hn⟩ := hn
    rw [Option.bind_eq_bind, Option.bind_eq_some_iff] at hn
    obtain ⟨m, hm, hn⟩ := hn
    obtain ⟨c, hc, hks⟩ := h.children hx
    rw [RefDom.walk, hc, Option.bind_eq_bind, Option.bind_some, ← hks, hm]
    exact ih hn

end Represents

end Wandr.Canvas
