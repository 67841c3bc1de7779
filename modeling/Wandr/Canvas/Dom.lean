import Wandr.Lib.Arena
import Wandr.Lib.Scan
import Wandr.Lib.Table

/-!
# The tree of the canvas

The tree a user interface is drawn from: an arena of nodes, each with the list of its children and
its parent, a map from the identifiers the virtual tree gives out to nodes, and a stack of the
nodes that a script of mutations has made or picked up.

* `Dom.apply`: what each of the fourteen mutations does; `none` where the program panics;
* `Dom.spliceIntoParent` puts nodes into the list of a parent, and does not look whether they are
  in another one.
-/

namespace Wandr.Canvas

open Text

abbrev NodeId := Nat

/-- An identifier of the virtual tree. -/
abbrev ElementId := Nat

abbrev Style := Table (Prod.fst : String × String → String)

inductive NodeKind
  | element (tag : String) (style : Style) (listeners : List String)
  | text (value : String)
  /-- Where something else is put later. -/
  | placeholder

structure Node where
  kind : NodeKind
  children : List NodeId := []
  parent : Option NodeId := none
  elementId : Option Nat := none

structure Dom where
  nodes : Arena Node
  elementMap : List (Option NodeId)
  stack : List NodeId

def ROOT : NodeId := 0

/-! ## Attributes -/

def declare (style : Style) (decl : List Char) : Style :=
  match beforeFirst ':' decl, afterFirst [':'] decl with
  | some k, some v => style.put (trim (String.ofList k), trim (String.ofList v))
  | _, _ => style

def mergeAttr (style : Style) (name value : String) : Style :=
  if name = "style" then (splitChar ';' value.toList).foldl declare style
  -- What is typed into a field is kept with its spaces.
  else if name = "value" then style.put (name, value)
  else style.put (name, trim value)

/-- The value of an attribute; a float as it is written. -/
inductive AttributeValue
  | text (s : String)
  | float (shown : String)
  | int (i : Int)
  | bool (b : Bool)
  | none
  | other

def attrToString : AttributeValue → Option String
  | .text s => some s
  | .float shown => some shown
  | .int i => some (toString i)
  | .bool b => some (if b then "true" else "false")
  | .none | .other => none

namespace NodeKind

def setAttribute (name : String) (value : AttributeValue) : NodeKind → NodeKind
  | element tag style listeners =>
    match attrToString value with
    | some v => element tag (mergeAttr style name v) listeners
    | none => element tag (style.retain fun row => row.1 ≠ name) listeners
  | kind => kind

def setText (value : String) : NodeKind → NodeKind
  | .text _ => .text value
  | kind => kind

def addListener (name : String) : NodeKind → NodeKind
  | element tag style listeners =>
    element tag style (if name ∈ listeners then listeners else listeners ++ [name])
  | kind => kind

def removeListener (name : String) : NodeKind → NodeKind
  | element tag style listeners => element tag style (listeners.filter fun l => l ≠ name)
  | kind => kind

end NodeKind

/-! ## Templates -/

inductive TemplateAttribute
  | static (name value : String)
  | dynamic (id : Nat)

inductive TemplateNode
  | element (tag : String) (attrs : List TemplateAttribute) (children : List TemplateNode)
  | text (text : String)
  | dynamic (id : Nat)

def staticAttr (style : Style) : TemplateAttribute → Style
  | .static name value => mergeAttr style name value
  | .dynamic _ => style

def TemplateNode.kind : TemplateNode → NodeKind
  | .element tag attrs _ => .element tag (attrs.foldl staticAttr .empty) []
  | .text s => .text s
  | .dynamic _ => .placeholder

namespace Dom

def new : Dom where
  nodes :=
    { slots := [some { kind := .element "root" .empty [], elementId := some 0 }]
      free := [] }
  elementMap := [some ROOT]
  stack := []

variable (d : Dom)

def node (id : NodeId) : Option Node := d.nodes.get? id

/-- A live node is changed. -/
def nodeMut (id : NodeId) (f : Node → Node) : Option Dom :=
  (d.node id).map fun x => { d with nodes := d.nodes.put id (f x) }

def alloc (x : Node) : Dom × NodeId :=
  ({ d with nodes := (d.nodes.alloc x).1 }, (d.nodes.alloc x).2)

/-- The map is made long enough, and an identifier entered; the node keeps 32 bits of it. -/
def mapElement (eid : ElementId) (n : NodeId) : Option Dom :=
  nodeMut
    { d with
      elementMap :=
        (d.elementMap ++ List.replicate (eid + 1 - d.elementMap.length) none).set eid (some n) }
    n fun x => { x with elementId := some (eid % 2 ^ 32) }

def lookup (eid : ElementId) : Option NodeId := d.elementMap[eid]?.join

def resolve (eid : ElementId) : NodeId := (d.lookup eid).getD ROOT

def navigate (root : NodeId) : List UInt8 → Option NodeId
  | [] => some root
  | i :: path => do
    let x ← d.node root
    let c ← x.children[i.toNat]?
    navigate c path

def setParents (parent : NodeId) (ns : List NodeId) : Option Dom :=
  ns.foldlM (fun d n => d.nodeMut n fun x => { x with parent := some parent }) d

end Dom

mutual

def Dom.instantiate (d : Dom) : TemplateNode → Option (Dom × NodeId)
  | .element tag attrs children => do
    let (d, id) := d.alloc { kind := (TemplateNode.element tag attrs children).kind }
    let (d, ids) ← Dom.instantiateAll d children
    let d ← d.setParents id ids
    let d ← d.nodeMut id fun x => { x with children := ids }
    some (d, id)
  | .text s => some (d.alloc { kind := (TemplateNode.text s).kind })
  | .dynamic id => some (d.alloc { kind := (TemplateNode.dynamic id).kind })

def Dom.instantiateAll (d : Dom) : List TemplateNode → Option (Dom × List NodeId)
  | [] => some (d, [])
  | tn :: tns => do
    let (d, n) ← Dom.instantiate d tn
    let (d, ns) ← Dom.instantiateAll d tns
    some (d, n :: ns)

end

namespace Dom

variable (d : Dom)

/-- The last nodes of the stack, in their order. -/
def popN (m : Nat) : Option (Dom × List NodeId) :=
  if m ≤ d.stack.length then
    some ({ d with stack := d.stack.take (d.stack.length - m) },
      d.stack.drop (d.stack.length - m))
  else none

/-- A node is taken out of the list of its parent; that it has this parent is left as it is. -/
def detach (n : NodeId) : Option Dom := do
  let x ← d.node n
  match x.parent with
  | some p => d.nodeMut p fun y => { y with children := y.children.erase n }
  | none => some d

/-- The slot of a node is left, and the entry of its identifier. -/
def release (n : NodeId) (x : Node) : Dom :=
  { d with
    nodes := d.nodes.release n
    elementMap := match x.elementId with
      | some eid => d.elementMap.set eid none
      | none => d.elementMap }

/-- A node and what is below it are freed. No more calls are open at once than there are slots. -/
def freeSubtree : Nat → Dom → NodeId → Option Dom
  | 0, _, _ => none
  | fuel + 1, d, n => do
    let x ← d.node n
    let d ← d.nodeMut n fun x => { x with children := [] }
    let d ← x.children.foldlM (freeSubtree fuel) d
    let y ← d.node n
    some (d.release n y)

def free (n : NodeId) : Option Dom := d.freeSubtree (d.nodes.slots.length + 1) n

def spliceIntoParent (parent : NodeId) (pos : Nat) : List NodeId → Dom → Option Dom
  | [], d => some d
  | n :: new, d => do
    let d ← d.nodeMut n fun x => { x with parent := some parent }
    let p ← d.node parent
    if pos ≤ p.children.length then
      let d ← d.nodeMut parent fun p => { p with children := p.children.insertIdx pos n }
      spliceIntoParent parent (pos + 1) new d
    else none

/-! ## Mutations -/

def appendChildren (id : ElementId) (m : Nat) : Option Dom := do
  let parent := d.resolve id
  let (d, new) ← d.popN m
  let p ← d.node parent
  d.spliceIntoParent parent p.children.length new

def assignNodeId (path : List UInt8) (id : ElementId) : Option Dom := do
  let root ← d.stack.getLast?
  let target ← d.navigate root path
  d.mapElement id target

/-- A node is pushed, under an identifier. -/
def push (id : ElementId) (n : NodeId) : Option Dom := do
  let d ← d.mapElement id n
  some { d with stack := d.stack ++ [n] }

def createPlaceholder (id : ElementId) : Option Dom :=
  let (d, n) := d.alloc { kind := .placeholder }
  d.push id n

def createTextNode (value : String) (id : ElementId) : Option Dom :=
  let (d, n) := d.alloc { kind := .text value }
  d.push id n

def loadTemplate (roots : List TemplateNode) (index : Nat) (id : ElementId) : Option Dom := do
  let tn ← roots[index]?
  let (d, n) ← d.instantiate tn
  d.push id n

/-- A node is replaced by others, in the list of its parent if it has one, and freed. -/
def replace (target : NodeId) (new : List NodeId) : Option Dom := do
  let x ← d.node target
  let d ← match x.parent with
    | some parent => do
      let p ← d.node parent
      let d ← d.detach target
      d.spliceIntoParent parent ((p.children.idxOf? target).getD 0) new
    | none => some d
  d.free target

def replaceNodeWith (id : ElementId) (m : Nat) : Option Dom := do
  let target := d.resolve id
  let (d, new) ← d.popN m
  d.replace target new

def replacePlaceholderWithNodes (path : List UInt8) (m : Nat) : Option Dom := do
  -- The path starts at the node below those that are popped.
  let (d, new) ← d.popN m
  let root ← d.stack.getLast?
  let target ← d.navigate root path
  d.replace target new

/-- Nodes are put next to another one, in the list of its parent if it has one. -/
def insertBeside (anchor : NodeId) (place : Nat → Nat) (new : List NodeId) : Option Dom := do
  let x ← d.node anchor
  match x.parent with
  | some parent => do
    let p ← d.node parent
    d.spliceIntoParent parent (((p.children.idxOf? anchor).map place).getD 0) new
  | none => some d

def insertNodesAfter (id : ElementId) (m : Nat) : Option Dom := do
  let anchor := d.resolve id
  let (d, new) ← d.popN m
  d.insertBeside anchor (· + 1) new

def insertNodesBefore (id : ElementId) (m : Nat) : Option Dom := do
  let anchor := d.resolve id
  let (d, new) ← d.popN m
  d.insertBeside anchor (·) new

def setAttribute (name : String) (value : AttributeValue) (id : ElementId) : Option Dom :=
  d.nodeMut (d.resolve id) fun x => { x with kind := x.kind.setAttribute name value }

def setNodeText (value : String) (id : ElementId) : Option Dom :=
  d.nodeMut (d.resolve id) fun x => { x with kind := x.kind.setText value }

def createEventListener (name : String) (id : ElementId) : Option Dom :=
  d.nodeMut (d.resolve id) fun x => { x with kind := x.kind.addListener name }

def removeEventListener (name : String) (id : ElementId) : Option Dom :=
  d.nodeMut (d.resolve id) fun x => { x with kind := x.kind.removeListener name }

def removeNode (id : ElementId) : Option Dom := do
  let node := d.resolve id
  let d ← d.detach node
  d.free node

def pushRoot (id : ElementId) : Option Dom :=
  some { d with stack := d.stack ++ [d.resolve id] }

end Dom

inductive Mutation
  | appendChildren (id : ElementId) (m : Nat)
  | assignNodeId (path : List UInt8) (id : ElementId)
  | createPlaceholder (id : ElementId)
  | createTextNode (value : String) (id : ElementId)
  | loadTemplate (roots : List TemplateNode) (index : Nat) (id : ElementId)
  | replaceNodeWith (id : ElementId) (m : Nat)
  | replacePlaceholderWithNodes (path : List UInt8) (m : Nat)
  | insertNodesAfter (id : ElementId) (m : Nat)
  | insertNodesBefore (id : ElementId) (m : Nat)
  | setAttribute (name : String) (value : AttributeValue) (id : ElementId)
  | setNodeText (value : String) (id : ElementId)
  | createEventListener (name : String) (id : ElementId)
  | removeEventListener (name : String) (id : ElementId)
  | removeNode (id : ElementId)
  | pushRoot (id : ElementId)

def Dom.apply (d : Dom) : Mutation → Option Dom
  | .appendChildren id m => d.appendChildren id m
  | .assignNodeId path id => d.assignNodeId path id
  | .createPlaceholder id => d.createPlaceholder id
  | .createTextNode value id => d.createTextNode value id
  | .loadTemplate roots index id => d.loadTemplate roots index id
  | .replaceNodeWith id m => d.replaceNodeWith id m
  | .replacePlaceholderWithNodes path m => d.replacePlaceholderWithNodes path m
  | .insertNodesAfter id m => d.insertNodesAfter id m
  | .insertNodesBefore id m => d.insertNodesBefore id m
  | .setAttribute name value id => d.setAttribute name value id
  | .setNodeText value id => d.setNodeText value id
  | .createEventListener name id => d.createEventListener name id
  | .removeEventListener name id => d.removeEventListener name id
  | .removeNode id => d.removeNode id
  | .pushRoot id => d.pushRoot id

end Wandr.Canvas
