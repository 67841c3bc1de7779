import Mathlib.Algebra.Group.Nat.Defs
import Wandr.Lib.Nesting

/-!
# The markdown renderer

The events of a parser are made into a tree, and the tree into the blocks of a document. A block of
the document is at most one level deep: what is nested deeper becomes part of the block around it.

* `buildTree`: the tree;
* `collectBlock`, `collectSimpleBlock`, `collectItem`: its blocks;
* `walkInline`, `collectRuns`: the runs of text in them.
-/

namespace Wandr.Markdown

/-! ## Events -/

inductive HeadingLevel
  | h1
  | h2
  | h3
  | h4
  | h5
  | h6
  deriving DecidableEq

inductive CodeBlockKind
  | indented
  | fenced (lang : String)
  deriving DecidableEq

/-- A tag that is around others; images, HTML blocks, tables and the like are not modelled by the
document. -/
inductive Container
  | paragraph
  | heading (level : HeadingLevel)
  | blockQuote
  | list (start : Option Nat)
  | item
  | emphasis
  | strong
  | link (destUrl : String)
  | unmodelled
  deriving DecidableEq

inductive Tag
  | codeBlock (kind : CodeBlockKind)
  | container (c : Container)
  deriving DecidableEq

inductive Event
  | start (tag : Tag)
  /-- The end of a tag. -/
  | stop (tag : Tag)
  | text (s : String)
  | code (s : String)
  | softBreak
  | hardBreak
  | rule
  /-- Inline HTML, footnote references, markers of tasks and the like. -/
  | other
  deriving DecidableEq

/-! ## The tree -/

inductive NodeKind
  | document
  | paragraph
  | heading (level : Nat)
  | codeBlock (language : Option String) (text : String)
  | blockQuote
  | bulletList
  | orderedList (start : Nat)
  | item
  | thematicBreak
  | emphasis
  | strong
  | link (url : String)
  | text (s : String)
  | inlineCode (s : String)
  | softBreak
  | hardBreak
  deriving DecidableEq

abbrev Node := Nesting.Tree NodeKind

def headingLevelToU8 : HeadingLevel → Nat
  | .h1 => 1
  | .h2 => 2
  | .h3 => 3
  | .h4 => 4
  | .h5 => 5
  | .h6 => 6

def CodeBlockKind.language : CodeBlockKind → Option String
  | .indented => none
  | .fenced lang => if lang.isEmpty then none else some lang

/-- The kind of node for a container, if the document has one. -/
def kindOf : Container → Option NodeKind
  | .paragraph => some .paragraph
  | .heading level => some (.heading (headingLevelToU8 level))
  | .blockQuote => some .blockQuote
  | .list (some start) => some (.orderedList (start % 2 ^ 32))
  | .list none => some .bulletList
  | .item => some .item
  | .emphasis => some .emphasis
  | .strong => some .strong
  | .link destUrl => some (.link destUrl)
  | .unmodelled => none

def blockOrInlineFromTag : Tag → Option NodeKind
  | .codeBlock kind => some (.codeBlock kind.language "")
  | .container c => kindOf c

/-- The stack of nodes, and whether a code block is open. -/
structure Builder where
  stack : Nesting.Builder NodeKind
  inCodeBlock : Bool

namespace Builder

/-- A code block holds its text itself. -/
def pushCode (n : Node) (s : String) : Node :=
  match n with
  | .mk (.codeBlock language buf) cs => .mk (.codeBlock language (buf ++ s)) cs
  | n => n

def step (b : Builder) : Event → Builder
  | .start tag =>
    match blockOrInlineFromTag tag with
    | some kind =>
      { stack := b.stack.enter kind
        inCodeBlock := match kind with
          | .codeBlock _ _ => true
          | _ => b.inCodeBlock }
    | none => b
  | .stop tag =>
    { stack := b.stack.leave
      inCodeBlock := match tag with
        | .codeBlock _ => false
        | _ => b.inCodeBlock }
  | .text s =>
    if b.inCodeBlock then
      { b with stack := { b.stack with top := pushCode b.stack.top s } }
    else { b with stack := b.stack.add (.text s) }
  | .code s => { b with stack := b.stack.add (.inlineCode s) }
  | .softBreak => { b with stack := b.stack.add .softBreak }
  | .hardBreak => { b with stack := b.stack.add .hardBreak }
  | .rule => { b with stack := b.stack.add .thematicBreak }
  | .other => b

def start : Builder where
  stack := ⟨.mk .document [], []⟩
  inCodeBlock := false

def run (b : Builder) (events : List Event) : Builder := events.foldl step b

end Builder

/-- The tree of a stream; the parser leaves no tag open. -/
def buildTree (events : List Event) : Node := (Builder.start.run events).stack.top

/-! ## Runs -/

inductive InlineStyle
  | emphasis
  | strong
  | code
  deriving DecidableEq

structure Run where
  text : String
  styles : List InlineStyle
  linkUrl : Option String
  deriving DecidableEq

structure RunStyle where
  styles : List InlineStyle := []
  linkUrl : Option String := none
  deriving DecidableEq

namespace RunStyle

def withStyle (style : RunStyle) (s : InlineStyle) : RunStyle :=
  { style with styles := style.styles ++ [s] }

def withLink (style : RunStyle) (url : String) : RunStyle := { style with linkUrl := some url }

def run (style : RunStyle) (text : String) : Run := ⟨text, style.styles, style.linkUrl⟩

end RunStyle

mutual

def walkInline (style : RunStyle) : Node → List Run
  | .mk (.text t) _ => [style.run t]
  | .mk .softBreak _ => [style.run " "]
  | .mk .hardBreak _ => [style.run "\n"]
  | .mk (.inlineCode c) _ => [(style.withStyle .code).run c]
  | .mk .emphasis cs => collectRuns (style.withStyle .emphasis) cs
  | .mk .strong cs => collectRuns (style.withStyle .strong) cs
  | .mk (.link url) cs => collectRuns (style.withLink url) cs
  | .mk _ cs => collectRuns style cs

def collectRuns (style : RunStyle) : List Node → List Run
  | [] => []
  | n :: ns => walkInline style n ++ collectRuns style ns

end

/-! ## Blocks -/

structure HeadingBlock where
  level : Nat
  runs : List Run
  deriving DecidableEq

structure CodeBlock where
  language : Option String
  text : String
  deriving DecidableEq

inductive SimpleBlock
  | paragraph (runs : List Run)
  | heading (h : HeadingBlock)
  | codeBlock (c : CodeBlock)
  | thematicBreak
  deriving DecidableEq

structure ListItem where
  blocks : List SimpleBlock
  deriving DecidableEq

inductive Block
  | paragraph (runs : List Run)
  | heading (h : HeadingBlock)
  | codeBlock (c : CodeBlock)
  | thematicBreak
  | bulletList (items : List ListItem)
  | orderedList (start : Nat) (items : List ListItem)
  | blockQuote (blocks : List SimpleBlock)
  deriving DecidableEq

/-- Runs become a paragraph, if there are any. -/
def paragraphOf (runs : List Run) : List SimpleBlock :=
  if runs.isEmpty then [] else [.paragraph runs]

mutual

/-- What is nested in a block is part of it. -/
def collectSimpleBlock : Node → List SimpleBlock
  | .mk .paragraph cs => [.paragraph (collectRuns {} cs)]
  | .mk (.heading level) cs => [.heading ⟨level, collectRuns {} cs⟩]
  | .mk (.codeBlock language text) _ => [.codeBlock ⟨language, text⟩]
  | .mk .thematicBreak _ => [.thematicBreak]
  | .mk .bulletList cs => collectSimpleBlocks cs
  | .mk (.orderedList _) cs => collectSimpleBlocks cs
  | .mk .blockQuote cs => collectSimpleBlocks cs
  | .mk .item cs => collectSimpleBlocks cs
  | n => paragraphOf (walkInline {} n)

def collectSimpleBlocks : List Node → List SimpleBlock
  | [] => []
  | n :: ns => collectSimpleBlock n ++ collectSimpleBlocks ns

end

def isBlockKind : NodeKind → Bool
  | .paragraph => true
  | .heading _ => true
  | .codeBlock _ _ => true
  | .thematicBreak => true
  | .bulletList => true
  | .orderedList _ => true
  | .blockQuote => true
  | .item => true
  | _ => false

/-- The blocks of an item; what stands between blocks is a paragraph. -/
def collectItem (pending : List Run) : List Node → List SimpleBlock
  | [] => paragraphOf pending
  | n :: ns =>
    if isBlockKind n.label then paragraphOf pending ++ collectSimpleBlock n ++ collectItem [] ns
    else collectItem (pending ++ walkInline {} n) ns

/-- The items of a list; its other children are left out. -/
def collectItems (ns : List Node) : List ListItem :=
  (ns.filter fun n => n.label = .item).map fun n => ⟨collectItem [] n.children⟩

def collectBlock : Node → List Block
  | .mk .paragraph cs => [.paragraph (collectRuns {} cs)]
  | .mk (.heading level) cs => [.heading ⟨level, collectRuns {} cs⟩]
  | .mk (.codeBlock language text) _ => [.codeBlock ⟨language, text⟩]
  | .mk .thematicBreak _ => [.thematicBreak]
  | .mk .bulletList cs => [.bulletList (collectItems cs)]
  | .mk (.orderedList start) cs => [.orderedList start (collectItems cs)]
  | .mk .blockQuote cs => [.blockQuote (collectSimpleBlocks cs)]
  | n =>
    let runs := walkInline {} n
    if runs.isEmpty then [] else [.paragraph runs]

/-- The blocks of the document. -/
def render (events : List Event) : List Block := (buildTree events).children.flatMap collectBlock

end Wandr.Markdown
