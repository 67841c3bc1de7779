import Wandr.Canvas.Reference

/-!
# The renderer of the canvas

The renderer lays out the tree that the virtual tree has become, and keeps from it where the
elements are that listen for something (`relayout`). A pointer is aimed at one of these; what it
was aimed at is kept, by its identifier, until it moves or is released, and so is the text field
that has the focus.

* `Renderer.paintWalk`: what a layout keeps;
* `Renderer.step`: the calls of the host. What is sent to the virtual tree is logged, with the
  node it was meant for and the node it reaches.
-/

namespace Wandr.Canvas

/-- The arithmetic of the places on the screen; nothing is asked of it. -/
class Px (F : Type) extends Add F, Sub F, Mul F, Div F where
  /-- A decimal number as a fraction. -/
  lit : Nat → Nat → F
  lt : F → F → Bool
  le : F → F → Bool
  max : F → F → F
  min : F → F → F
  abs : F → F

open Px

structure Box (F : Type) where
  x : F
  y : F
  w : F
  h : F

/-- What an element listens for. -/
structure Flags where
  click : Bool
  down : Bool
  move : Bool
  key : Bool
  deriving DecidableEq

/-- An identifier that is kept, with the node it was taken from as long as that is in the tree. -/
structure Aim where
  eid : ElementId
  node : Option NodeId
  deriving DecidableEq

structure HitRect (F : Type) extends Box F where
  eid : ElementId
  flags : Flags
  scrolled : Bool
  node : NodeId

/-- A gesture under way that is not a drag. -/
structure Down (F : Type) where
  startY : F
  lastY : F
  contentY : F
  click : Option Aim
  canScroll : Bool
  scrolling : Bool

/-- The element that a drag goes to. -/
structure Captured (F : Type) extends Box F where
  aim : Aim
  scrolled : Bool

inductive Payload (F : Type)
  | mouse (x y ex ey : F)
  | key (codePoint keyId : Nat)
  | focus
  deriving DecidableEq

/-- An event that is sent to the virtual tree: the node it was meant for, if that is still there,
    and the node that has the identifier. -/
structure Dispatch (F : Type) where
  name : String
  eid : ElementId
  payload : Payload F
  aimed : Option NodeId
  reached : Option NodeId
  deriving DecidableEq

structure Renderer (F : Type) where
  tree : Forest Label := .nil
  dirty : Bool := true
  surface : F × F
  hits : List (HitRect F) := []
  captured : Option (Captured F) := none
  focused : Option Aim := none
  keyboardInset : F
  pendingFocusScroll : Bool := false
  scale : F
  scrollActive : Bool := false
  scrollVp : Box F
  scrollContentH : F
  scrollY : F
  stickKey : Option String := none
  stickPinned : Bool := true
  down : Option (Down F) := none
  lifecyclePaused : Bool := false
  log : List (Dispatch F) := []

def Flags.any (f : Flags) : Bool := f.click || f.down || f.move || f.key

def flagsOf (listeners : List String) : Flags where
  click := "click" ∈ listeners
  down := "mousedown" ∈ listeners
  move := "mousemove" ∈ listeners
  key := "keydown" ∈ listeners

def Style.value (style : Style) (name : String) : Option String :=
  (style.get? name).map Prod.snd

/-- What a text field declares of its focus. -/
def Style.focusAttr (style : Style) : Option String :=
  if (style.value "data-input").isSome then style.value "focused" else none

/-- A node that is not in the tree any more is not aimed at. -/
def Aim.retarget (tree : Forest Label) (a : Aim) : Aim :=
  { a with node := a.node.filter (· ∈ tree.ids) }

section Layout

variable {F : Type} [Px F]

/-- The distance of 1 from the next number. -/
def epsilon : F := lit 1 8388608

def isZero (x : F) : Bool := le x (lit 0 1) && le (lit 0 1) x

def clamp (x lo hi : F) : F := if lt x lo then lo else if lt hi x then hi else x

def Box.contains (b : Box F) (x y : F) : Bool :=
  le b.x x && le x (b.x + b.w) && le b.y y && le y (b.y + b.h)

/-! ## The walk over the tree that is laid out -/

/-- What the walk has found so far. -/
structure Walk (F : Type) where
  hits : List (HitRect F) := []
  scrollActive : Bool := false
  scrollVp : Box F
  scrollBottom : F
  scrollContentH : F
  stickRegionKey : Option String := none
  sawFocusAttr : Bool := false
  domFocus : Option Aim := none

/-- The furthest bottom of what is in the scroll region. -/
def Walk.extend (w : Walk F) (inScroll : Bool) (b : Box F) : Walk F :=
  if inScroll then { w with scrollBottom := max w.scrollBottom (b.y + b.h) } else w

/-- An element that listens for something is kept; a text field may declare that it has the
    focus, or not. -/
def Walk.element (w : Walk F) (n : NodeId) (elementId : Option ElementId) (style : Style)
    (listeners : List String) (scrolled : Bool) (b : Box F) : Walk F :=
  let flags := flagsOf listeners
  let eid := if flags.any then elementId else none
  { w with
    sawFocusAttr := w.sawFocusAttr || style.focusAttr.isSome
    domFocus := if style.focusAttr = some "1" then eid.map fun e => ⟨e, some n⟩ else w.domFocus
    hits := w.hits ++ (eid.map fun e => { b with eid := e, flags, scrolled, node := n }).toList }

/-- The elements with the places the layout gave them, in the order they are painted. -/
def paintWalk (layout : NodeId → Box F) (px py : F) (inScroll : Bool) :
    Forest Label → Walk F → Walk F
  | .nil, w => w
  | .node n l c rest, w =>
    let b : Box F := { layout n with x := px + (layout n).x, y := py + (layout n).y }
    let walked :=
      match l.kind with
      | .element _ style listeners =>
        if style.value "display" = some "none" then w
        else
          let w := (w.extend inScroll b).element n l.elementId style listeners inScroll b
          if style.value "overflow" = some "scroll" then
            let w := paintWalk layout b.x b.y true c
              { w with
                scrollActive := true
                scrollVp := b
                scrollBottom := b.y
                stickRegionKey := style.value "data-stick-key" }
            { w with scrollContentH := max (w.scrollBottom - b.y) b.h }
          else paintWalk layout b.x b.y inScroll c w
      | .text _ | .placeholder => w.extend inScroll b
    paintWalk layout px py inScroll rest walked

end Layout

namespace Renderer

variable {F : Type} [Px F]

/-! ## Scrolling -/

/-- What the soft keyboard covers, while a field has the focus. -/
def kbInsetPx (s : Renderer F) : F :=
  if s.focused.isNone then lit 0 1
  else if lt (lit 0 1) s.keyboardInset then s.keyboardInset
  else s.surface.2 * lit 45 100

def maxScroll (s : Renderer F) : F :=
  max (s.scrollContentH - s.scrollVp.h + s.kbInsetPx) (lit 0 1)

def inScrollViewport (s : Renderer F) (x y : F) : Bool :=
  s.scrollActive && s.scrollVp.contains x y

def scrollThreshold : F := lit 16 1

/-- The field that has the focus is scrolled above the keyboard. -/
def ensureFocusedVisible (s : Renderer F) : Renderer F :=
  if le s.kbInsetPx (lit 0 1) || !s.scrollActive then s
  else
    match s.focused.bind fun a => s.hits.find? fun h => h.eid = a.eid && h.scrolled with
    | none => s
    | some field =>
      let visibleBottom := s.scrollVp.y + s.scrollVp.h - s.kbInsetPx
      let margin := lit 16 1 * s.scale
      let fieldBottom := field.y + field.h - s.scrollY
      let s :=
        if lt visibleBottom (fieldBottom + margin) then
          { s with
            scrollY := min (s.scrollY + (fieldBottom + margin - visibleBottom)) s.maxScroll }
        else s
      let fieldTop := field.y - s.scrollY
      if lt fieldTop s.scrollVp.y then
        { s with scrollY := max (s.scrollY - (s.scrollVp.y - fieldTop)) (lit 0 1) }
      else s

/-! ## The layout -/

/-- The virtual tree has become another one. -/
def rerender (tree : Forest Label) (s : Renderer F) : Renderer F :=
  { s with
    tree
    captured := s.captured.map fun c => { c with aim := c.aim.retarget tree }
    down := s.down.map fun d => { d with click := d.click.map (Aim.retarget tree) }
    focused := s.focused.map (Aim.retarget tree) }

/-- What the walk finds is kept. Where a field declares its focus, the declarations decide. -/
def keepWalk (layout : NodeId → Box F) (s : Renderer F) : Renderer F × Option String :=
  let w := paintWalk layout (lit 0 1) (lit 0 1) false s.tree
    { scrollVp := s.scrollVp, scrollBottom := lit 0 1, scrollContentH := s.scrollContentH }
  ({ s with
      hits := w.hits
      scrollActive := w.scrollActive
      scrollVp := w.scrollVp
      scrollContentH := w.scrollContentH
      focused := if w.sawFocusAttr then w.domFocus else s.focused }, w.stickRegionKey)

/-- A conversation that is opened is shown from its end, and stays there while it grows. -/
def stick (key : Option String) (s : Renderer F) : Renderer F :=
  match key with
  | none => s
  | some key =>
    let s :=
      if s.stickKey = some key then s else { s with stickKey := some key, stickPinned := true }
    if s.stickPinned then { s with scrollY := s.maxScroll } else s

def relayout (layout : NodeId → Box F) (s : Renderer F) : Renderer F :=
  let (s, key) := keepWalk layout s
  let s := stick key s
  let s := { s with scrollY := clamp s.scrollY (lit 0 1) s.maxScroll }
  if s.pendingFocusScroll then { ensureFocusedVisible s with pendingFocusScroll := false } else s

/-- A frame lays the tree out that the virtual tree has become, if it is dirty and shown. -/
def renderFrame (size : F × F) (tree : Forest Label) (layout : NodeId → Box F) (s : Renderer F) :
    Renderer F :=
  let s := if isZero s.surface.1 then { s with surface := size } else s
  if s.lifecyclePaused then s
  else if s.dirty then { relayout layout (rerender tree s) with dirty := false }
  else s

/-! ## Pointers and keys -/

/-- Send an event to the virtual tree. -/
def dispatch (name : String) (a : Aim) (payload : Payload F) (s : Renderer F) : Renderer F :=
  { s with
    log := s.log ++
      [{ name
         eid := a.eid
         payload
         aimed := a.node
         reached := s.tree.find fun l => l.elementId = some a.eid }] }

/-- A place on the screen, and one in an element in units of its author. -/
def mouse (s : Renderer F) (x y ex ey : F) : Payload F := .mouse x y (ex / s.scale) (ey / s.scale)

/-- The last element that is painted at a place. -/
def hitAt (s : Renderer F) (x y : F) : Option (HitRect F) :=
  s.hits.reverse.find? fun h =>
    (!h.scrolled || s.scrollVp.contains x y) &&
      h.toBox.contains x (if h.scrolled then y + s.scrollY else y)

/-- A press outside the field takes the focus from it. -/
def blur (hit : Option (HitRect F)) (s : Renderer F) : Renderer F :=
  if hit.any fun h => h.flags.key then s
  else
    match s.focused with
    | some old => { dispatch "focusout" old .focus s with dirty := true }
    | none => s

/-- A drag goes to the element it begins on. -/
def capture (h : HitRect F) (x y : F) (s : Renderer F) : Renderer F :=
  let cy := if h.scrolled then y + s.scrollY else y
  let a : Aim := ⟨h.eid, some h.node⟩
  let s := { s with captured := some { h.toBox with aim := a, scrolled := h.scrolled } }
  let s :=
    if h.flags.down then dispatch "mousedown" a (s.mouse x y (x - h.x) (cy - h.y)) s else s
  { s with
    focused := if h.flags.key then some a else none
    pendingFocusScroll := s.pendingFocusScroll || h.flags.key
    dirty := true }

/-- A press that may become a tap or move what is scrolled. -/
def press (hit : Option (HitRect F)) (x y : F) (s : Renderer F) : Renderer F :=
  let aim (p : Flags → Bool) : Option Aim :=
    hit.bind fun h => if p h.flags then some ⟨h.eid, some h.node⟩ else none
  let focus := aim Flags.key
  let s :=
    { s with
      focused := focus
      down := some
        { startY := y
          lastY := y
          contentY := if hit.any fun h => h.scrolled then y + s.scrollY else y
          click := aim Flags.click
          canScroll := s.inScrollViewport x y
          scrolling := false } }
  if focus.isSome then { s with pendingFocusScroll := true, dirty := true } else s

def onPointerDown (x y : F) (s : Renderer F) : Renderer F :=
  let hit := s.hitAt x y
  let s := blur hit s
  match hit with
  | some h => if h.flags.move then capture h x y s else press hit x y s
  | none => press hit x y s

def onKey (down : Bool) (codePoint keyId : Nat) (s : Renderer F) : Renderer F :=
  match s.focused with
  | some a =>
    { dispatch (if down then "keydown" else "keyup") a (.key codePoint keyId) s with dirty := true }
  | none => s

/-- The place of a drag in its element. -/
def drag (name : String) (c : Captured F) (x y : F) (s : Renderer F) : Renderer F :=
  let cy := if c.scrolled then y + s.scrollY else y
  let ex := clamp (x - c.x) (lit 0 1) c.w
  let ey := clamp (cy - c.y) (lit 0 1) c.h
  { dispatch name c.aim (s.mouse x y ex ey) s with dirty := true }

def onPointerMove (x y : F) (s : Renderer F) : Renderer F :=
  match s.captured with
  | some c => drag "mousemove" c x y s
  | none =>
    match s.down with
    | none => s
    | some d =>
      -- A press that moves far enough scrolls from then on.
      if d.scrolling || d.canScroll && lt scrollThreshold (abs (y - d.startY)) then
        let scrollY := clamp (s.scrollY - (y - d.lastY)) (lit 0 1) s.maxScroll
        { s with
          down := some { d with lastY := y, scrolling := true }
          scrollY
          stickPinned := le (s.maxScroll - scrollThreshold) scrollY
          dirty := true }
      else s

def onScroll (x y _dx dy : F) (s : Renderer F) : Renderer F :=
  if s.inScrollViewport x y then
    let scrollY := clamp (s.scrollY + dy) (lit 0 1) s.maxScroll
    { s with
      scrollY
      stickPinned := le (s.maxScroll - scrollThreshold) scrollY
      dirty := true }
  else s

def onPointerUp (x y : F) (s : Renderer F) : Renderer F :=
  match s.captured with
  | some c => drag "mouseup" c x y { s with captured := none }
  | none =>
    match s.down with
    | none => s
    | some d =>
      let s := { s with down := none }
      match d.click with
      | some a =>
        if d.scrolling then s
        else { dispatch "click" a (s.mouse x d.contentY (lit 0 1) (lit 0 1)) s with dirty := true }
      | none => s

/-! ## The host's calls -/

inductive Input (F : Type)
  /-- A frame on a surface of a size: the tree the virtual tree becomes if it is rendered, and
      where its layout puts the nodes. -/
  | frame (size : F × F) (tree : Forest Label) (layout : NodeId → Box F)
  | pointerDown (x y : F)
  | pointerMove (x y : F)
  | pointerUp (x y : F)
  | scroll (x y dx dy : F)
  | key (down : Bool) (codePoint keyId : Nat)
  | resize (w h : F)
  | setScale (scale : F)
  | setKeyboardInset (px : F)
  | markDirty
  | lifecycle (state : Nat)

def step (s : Renderer F) : Input F → Renderer F
  | .frame size tree layout => renderFrame size tree layout s
  | .pointerDown x y => onPointerDown x y s
  | .pointerMove x y => onPointerMove x y s
  | .pointerUp x y => onPointerUp x y s
  | .scroll x y dx dy => onScroll x y dx dy s
  | .key down codePoint keyId => onKey down codePoint keyId s
  | .resize w h => { s with surface := (w, h), dirty := true }
  | .setScale scale =>
    let scale := clamp scale (lit 5 10) (lit 4 1)
    if lt epsilon (abs (scale - s.scale)) then { s with scale, dirty := true } else s
  | .setKeyboardInset px => { s with keyboardInset := max px (lit 0 1) }
  | .markDirty => { s with dirty := true }
  | .lifecycle state => { s with lifecyclePaused := state = 4 ∨ state = 5 }

end Renderer

end Wandr.Canvas
