import Mathlib.Data.List.Forall2
import Wandr.Markdown.Renderer

/-!
# Streams of events

The parser closes each tag it opens, so a stream is that of a list of elements. What a document has
of them: their text, run by run, with the styles and the link around it, and a block for each
element that stands outermost.

* `Elem.IsInline`, `Elem.IsBlock`: where an element may stand;
* `Elem.pieces`: its text;
* `Renders`: blocks that are those of a stream.
-/

namespace Wandr.Markdown

/-- An element of a stream, with all that is in it. -/
inductive Elem
  | text (s : String)
  | code (s : String)
  | softBreak
  | hardBreak
  | rule
  | other
  | codeBlock (kind : CodeBlockKind) (texts : List String)
  | container (c : Container) (children : List Elem)

/-- The text of a run, or of a code block. -/
inductive Piece
  | run (r : Run)
  | code (text : String)
  deriving DecidableEq

namespace Elem

mutual

def events : Elem → List Event
  | text s => [.text s]
  | code s => [.code s]
  | softBreak => [.softBreak]
  | hardBreak => [.hardBreak]
  | rule => [.rule]
  | other => [.other]
  | codeBlock kind texts =>
    .start (.codeBlock kind) :: (texts.map Event.text ++ [.stop (.codeBlock kind)])
  | container c cs => .start (.container c) :: (eventsAll cs ++ [.stop (.container c)])

def eventsAll : List Elem → List Event
  | [] => []
  | e :: es => events e ++ eventsAll es

end

mutual

/-- The brackets of an element; a container that is not modelled has no node. -/
def shape : Elem → Nesting.Elem NodeKind
  | text s => .leaf (some (.text s))
  | code s => .leaf (some (.inlineCode s))
  | softBreak => .leaf (some .softBreak)
  | hardBreak => .leaf (some .hardBreak)
  | rule => .leaf (some .thematicBreak)
  | other => .leaf none
  | codeBlock kind texts => .leaf (some (.codeBlock kind.language (String.join texts)))
  | container c cs => .node (kindOf c) (shapeAll cs)

def shapeAll : List Elem → List (Nesting.Elem NodeKind)
  | [] => []
  | e :: es => shape e :: shapeAll es

end

mutual

/-- An element that may stand in a line of text. -/
def IsInline : Elem → Prop
  | text _ | code _ | softBreak | hardBreak | other => True
  | container .emphasis cs | container .strong cs | container (.link _) cs
  | container .unmodelled cs => AllInline cs
  | _ => False

def AllInline : List Elem → Prop
  | [] => True
  | e :: es => IsInline e ∧ AllInline es

end

mutual

/-- An element that may stand where a paragraph may; in an item and in a block that is not modelled
there may be text as well. -/
def IsBlock : Elem → Prop
  | rule | other | codeBlock _ _ => True
  | container .paragraph cs | container (.heading _) cs => AllInline cs
  | container .blockQuote cs => AllBlocks cs
  | container (.list _) cs => AllItems cs
  | container .unmodelled cs => AllParts cs
  | _ => False

def AllBlocks : List Elem → Prop
  | [] => True
  | e :: es => IsBlock e ∧ AllBlocks es

def AllItems : List Elem → Prop
  | [] => True
  | container .item cs :: es => AllParts cs ∧ AllItems es
  | _ => False

def AllParts : List Elem → Prop
  | [] => True
  | e :: es => (IsInline e ∨ IsBlock e) ∧ AllParts es

end

mutual

/-- The text of an element, with the styles around it and the innermost link. -/
def pieces (style : RunStyle) : Elem → List Piece
  | text s => [.run ⟨s, style.styles, style.linkUrl⟩]
  | code s => [.run ⟨s, style.styles ++ [.code], style.linkUrl⟩]
  | softBreak => [.run ⟨" ", style.styles, style.linkUrl⟩]
  | hardBreak => [.run ⟨"\n", style.styles, style.linkUrl⟩]
  | rule => []
  | other => []
  | codeBlock _ texts => [.code (String.join texts)]
  | container .emphasis cs => piecesAll ⟨style.styles ++ [.emphasis], style.linkUrl⟩ cs
  | container .strong cs => piecesAll ⟨style.styles ++ [.strong], style.linkUrl⟩ cs
  | container (.link destUrl) cs => piecesAll ⟨style.styles, some destUrl⟩ cs
  | container _ cs => piecesAll style cs

def piecesAll (style : RunStyle) : List Elem → List Piece
  | [] => []
  | e :: es => pieces style e ++ piecesAll style es

end

end Elem

/-! ## Documents -/

def SimpleBlock.pieces : SimpleBlock → List Piece
  | .paragraph runs => runs.map Piece.run
  | .heading h => h.runs.map Piece.run
  | .codeBlock c => [.code c.text]
  | .thematicBreak => []

def ListItem.pieces (item : ListItem) : List Piece := item.blocks.flatMap SimpleBlock.pieces

def Block.pieces : Block → List Piece
  | .paragraph runs => runs.map Piece.run
  | .heading h => h.runs.map Piece.run
  | .codeBlock c => [.code c.text]
  | .thematicBreak => []
  | .bulletList items => items.flatMap ListItem.pieces
  | .orderedList _ items => items.flatMap ListItem.pieces
  | .blockQuote blocks => blocks.flatMap SimpleBlock.pieces

/-- The block is that of the element, and has its text; if it is a list, so have its items. -/
def Yields : Elem → Block → Prop
  | .rule, .thematicBreak => True
  | .codeBlock kind texts, .codeBlock c =>
    c.language = kind.language ∧ c.text = String.join texts
  | .container .paragraph cs, .paragraph runs => runs.map Piece.run = Elem.piecesAll {} cs
  | .container (.heading level) cs, .heading h =>
    h.level = headingLevelToU8 level ∧ h.runs.map Piece.run = Elem.piecesAll {} cs
  | .container .blockQuote cs, .blockQuote blocks =>
    blocks.flatMap SimpleBlock.pieces = Elem.piecesAll {} cs
  | .container (.list none) cs, .bulletList items =>
    List.Forall₂ (fun e item => ListItem.pieces item = Elem.pieces {} e) cs items
  | .container (.list (some n)) cs, .orderedList start items =>
    start = n % 2 ^ 32 ∧
      List.Forall₂ (fun e item => ListItem.pieces item = Elem.pieces {} e) cs items
  | _, _ => False

/-- Each outermost element has its block; an element that is not modelled has those of what is in
it, where text has a paragraph of its own. -/
inductive Renders : List Elem → List Block → Prop
  | nil : Renders [] []
  | block {e : Elem} {es : List Elem} {b : Block} {bs : List Block} :
    Yields e b → Renders es bs → Renders (e :: es) (b :: bs)
  | text {e : Elem} {es : List Elem} {runs : List Run} {bs : List Block} : e.IsInline →
    (∀ cs, e ≠ .container .unmodelled cs) → runs ≠ [] → runs.map Piece.run = e.pieces {} →
      Renders es bs → Renders (e :: es) (.paragraph runs :: bs)
  | none {e : Elem} {es : List Elem} {bs : List Block} : e.IsInline →
    (∀ cs, e ≠ .container .unmodelled cs) → e.pieces {} = [] → Renders es bs →
      Renders (e :: es) bs
  | unmodelled {cs es : List Elem} {bs bs' : List Block} : Renders cs bs → Renders es bs' →
    Renders (.container .unmodelled cs :: es) (bs ++ bs')

end Wandr.Markdown
