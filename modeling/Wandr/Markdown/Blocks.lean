import Wandr.Markdown.Stream

/-!
# The document of a stream

The start of a tag that is not modelled is skipped, but not its end, which closes the node around
it. What comes after that goes to another node, and so to another block, or is lost.

* `run_events`: the tree is built as from brackets;
* `renders_parts`: the blocks of a tree that is the right one;
* `render_kept`: the document is right if nothing comes after an end that closes another node, and
  the tree is right only then.
-/

namespace Wandr.Markdown

open Nesting Nesting.Elem

/-! ## The tree -/

theorem run_append (b : Builder) (es fs : List Event) : b.run (es ++ fs) = (b.run es).run fs :=
  List.foldl_append

/-- The text of a code block is put together. -/
theorem run_texts (language : Option String) (cs : List Node) (texts : List String) (buf : String)
    (below : List Node) :
    Builder.run ⟨⟨.mk (.codeBlock language buf) cs, below⟩, true⟩ (texts.map Event.text) =
      ⟨⟨.mk (.codeBlock language (texts.foldl (· ++ ·) buf)) cs, below⟩, true⟩ := by
  induction texts generalizing buf with
  | nil => rfl
  | cons t ts ih => exact ih (buf ++ t)

mutual

/-- The tree is built as from the brackets of the elements. -/
theorem run_events : (e : Elem) → ∀ st : Nesting.Builder NodeKind,
    Builder.run ⟨st, false⟩ e.events = ⟨st.run e.shape.tokens, false⟩
  | .text _, _ => rfl
  | .code _, _ => rfl
  | .softBreak, _ => rfl
  | .hardBreak, _ => rfl
  | .rule, _ => rfl
  | .other, _ => rfl
  | .codeBlock kind texts, st => by
    rw [Elem.events, Elem.shape]
    change Builder.run ⟨st.enter (.codeBlock kind.language ""), true⟩ _ = _
    rw [run_append]
    unfold Nesting.Builder.enter
    rw [run_texts]
    rfl
  | .container c cs, st => by
    rw [Elem.events, Elem.shape, tokens]
    have hstart : Builder.step ⟨st, false⟩ (.start (.container c)) =
        ⟨st.step (.enter (kindOf c)), false⟩ := by
      cases c with
      | list start => cases start <;> rfl
      | _ => rfl
    change (Builder.step ⟨st, false⟩ (.start (.container c))).run _ = _
    rw [hstart, run_append, run_eventsAll cs]
    change _ = Builder.mk ((st.step (.enter (kindOf c))).run _) false
    rw [Nesting.Builder.run_append]
    rfl

theorem run_eventsAll : (es : List Elem) → ∀ st : Nesting.Builder NodeKind,
    Builder.run ⟨st, false⟩ (Elem.eventsAll es) = ⟨st.run (tokensAll (Elem.shapeAll es)), false⟩
  | [], _ => rfl
  | e :: es, st => by
    rw [Elem.eventsAll, Elem.shapeAll, tokensAll, run_append, run_events e, run_eventsAll es,
      Nesting.Builder.run_append]

end

/-- The tree is the right one if and only if nothing comes after an end that closes another node. -/
theorem buildTree_eq_iff (es : List Elem) :
    buildTree (Elem.eventsAll es) = .mk .document (forestAll (Elem.shapeAll es)) ↔
      KeptAll (Elem.shapeAll es) := by
  have hrun : buildTree (Elem.eventsAll es) =
      (Nesting.Builder.run ⟨.mk .document [], []⟩ (tokensAll (Elem.shapeAll es))).top :=
    congrArg (fun b => b.stack.top) (run_eventsAll es _)
  have hnil : (Nesting.Builder.run ⟨.mk NodeKind.document [], []⟩
      (tokensAll (Elem.shapeAll es))).below = [] :=
    List.eq_nil_of_length_eq_zero (Nat.le_zero.1 (length_runAll _ _))
  rw [hrun, ← build_eq_iff _ NodeKind.document]
  generalize Nesting.Builder.run ⟨.mk NodeKind.document [], []⟩ _ = b at hnil
  obtain ⟨top, below⟩ := b
  cases hnil
  exact ⟨fun h => congrArg (Nesting.Builder.mk · []) h, fun h => congrArg Nesting.Builder.top h⟩

/-! ## Runs -/

theorem collectRuns_append (style : RunStyle) (ns ms : List Node) :
    collectRuns style (ns ++ ms) = collectRuns style ns ++ collectRuns style ms := by
  induction ns with
  | nil => rfl
  | cons n ns ih => rw [List.cons_append, collectRuns, collectRuns, ih, List.append_assoc]

mutual

/-- A text has its runs. -/
theorem runs_inline : (e : Elem) → e.IsInline → ∀ style : RunStyle,
    (collectRuns style e.shape.forest).map Piece.run = e.pieces style
  | .text _, _, _ => rfl
  | .code _, _, _ => rfl
  | .softBreak, _, _ => rfl
  | .hardBreak, _, _ => rfl
  | .other, _, _ => rfl
  | .container .emphasis cs, h, style => by
    have hcs := runs_inlineAll cs h (style.withStyle .emphasis)
    rw [Elem.shape, kindOf, forest, collectRuns, collectRuns, List.append_nil]
    exact hcs
  | .container .strong cs, h, style => by
    have hcs := runs_inlineAll cs h (style.withStyle .strong)
    rw [Elem.shape, kindOf, forest, collectRuns, collectRuns, List.append_nil]
    exact hcs
  | .container (.link url) cs, h, style => by
    have hcs := runs_inlineAll cs h (style.withLink url)
    rw [Elem.shape, kindOf, forest, collectRuns, collectRuns, List.append_nil]
    exact hcs
  | .container .unmodelled cs, h, style => runs_inlineAll cs h style

theorem runs_inlineAll : (es : List Elem) → Elem.AllInline es → ∀ style : RunStyle,
    (collectRuns style (forestAll (Elem.shapeAll es))).map Piece.run = Elem.piecesAll style es
  | [], _, _ => rfl
  | e :: es, h, style => by
    rw [Elem.shapeAll, forestAll, collectRuns_append, List.map_append, runs_inline e h.1,
      runs_inlineAll es h.2]
    rfl

end

mutual

/-- A text has no nodes of blocks. -/
theorem inline_kind : (e : Elem) → e.IsInline → ∀ n ∈ e.shape.forest, isBlockKind n.label = false
  | .text _, _, _, hn => by
    rw [List.mem_singleton.1 hn]
    rfl
  | .code _, _, _, hn => by
    rw [List.mem_singleton.1 hn]
    rfl
  | .softBreak, _, _, hn => by
    rw [List.mem_singleton.1 hn]
    rfl
  | .hardBreak, _, _, hn => by
    rw [List.mem_singleton.1 hn]
    rfl
  | .other, _, _, hn => absurd hn List.not_mem_nil
  | .container .emphasis _, _, _, hn => by
    rw [List.mem_singleton.1 hn]
    rfl
  | .container .strong _, _, _, hn => by
    rw [List.mem_singleton.1 hn]
    rfl
  | .container (.link _) _, _, _, hn => by
    rw [List.mem_singleton.1 hn]
    rfl
  | .container .unmodelled cs, h, n, hn => inline_kindAll cs h n hn

theorem inline_kindAll : (es : List Elem) → Elem.AllInline es →
    ∀ n ∈ forestAll (Elem.shapeAll es), isBlockKind n.label = false
  | [], _, _, hn => absurd hn List.not_mem_nil
  | e :: es, h, n, hn => by
    rw [Elem.shapeAll, forestAll] at hn
    rcases List.mem_append.1 hn with hn | hn
    · exact inline_kind e h.1 n hn
    · exact inline_kindAll es h.2 n hn

end

/-! ## Blocks -/

theorem pieces_paragraphOf (runs : List Run) :
    (paragraphOf runs).flatMap SimpleBlock.pieces = runs.map Piece.run := by
  unfold paragraphOf
  cases runs with
  | nil => rfl
  | cons r rs => exact List.append_nil _

/-- What is no block becomes a paragraph. -/
theorem collectSimpleBlock_inline {n : Node} (h : isBlockKind n.label = false) :
    collectSimpleBlock n = paragraphOf (walkInline {} n) := by
  obtain ⟨kind, cs⟩ := n
  cases kind with
  | document => rfl
  | emphasis => rfl
  | strong => rfl
  | link => rfl
  | text => rfl
  | inlineCode => rfl
  | softBreak => rfl
  | hardBreak => rfl
  | _ => cases h

theorem collectSimpleBlocks_append (ns ms : List Node) :
    collectSimpleBlocks (ns ++ ms) = collectSimpleBlocks ns ++ collectSimpleBlocks ms := by
  induction ns with
  | nil => rfl
  | cons n ns ih =>
    rw [List.cons_append, collectSimpleBlocks, collectSimpleBlocks, ih, List.append_assoc]

theorem pieces_collectSimpleBlocks {ns : List Node} (h : ∀ n ∈ ns, isBlockKind n.label = false) :
    (collectSimpleBlocks ns).flatMap SimpleBlock.pieces =
      (collectRuns {} ns).map Piece.run := by
  induction ns with
  | nil => rfl
  | cons n ns ih =>
    rw [collectSimpleBlocks, collectRuns, List.flatMap_append, List.map_append,
      collectSimpleBlock_inline (h n List.mem_cons_self), pieces_paragraphOf,
      ih fun m hm => h m (List.mem_cons_of_mem _ hm)]

theorem pieces_inline {e : Elem} (h : e.IsInline) :
    (collectSimpleBlocks e.shape.forest).flatMap SimpleBlock.pieces = e.pieces {} := by
  rw [pieces_collectSimpleBlocks (inline_kind e h), runs_inline e h]

/-- The blocks of an item have the text of its nodes. -/
theorem pieces_collectItem (pending : List Run) (ns : List Node) :
    (collectItem pending ns).flatMap SimpleBlock.pieces =
      pending.map Piece.run ++ (collectSimpleBlocks ns).flatMap SimpleBlock.pieces := by
  induction ns generalizing pending with
  | nil =>
    rw [collectItem, pieces_paragraphOf]
    exact (List.append_nil _).symm
  | cons n ns ih =>
    rw [collectItem, collectSimpleBlocks, List.flatMap_append]
    split
    · rw [List.flatMap_append, List.flatMap_append, pieces_paragraphOf, ih, List.append_assoc]
      rfl
    · next hn =>
      rw [ih, List.map_append, collectSimpleBlock_inline (Bool.eq_false_iff.2 hn),
        pieces_paragraphOf, List.append_assoc]

mutual

/-- The text of a block is kept where the block becomes part of another. -/
theorem pieces_block : (e : Elem) → e.IsBlock →
    (collectSimpleBlocks e.shape.forest).flatMap SimpleBlock.pieces = e.pieces {}
  | .rule, _ => rfl
  | .other, _ => rfl
  | .codeBlock _ _, _ => rfl
  | .container .paragraph cs, h => by
    rw [Elem.shape, kindOf, forest, collectSimpleBlocks, collectSimpleBlocks, List.append_nil]
    exact (List.append_nil _).trans (runs_inlineAll cs h {})
  | .container (.heading _) cs, h => by
    rw [Elem.shape, kindOf, forest, collectSimpleBlocks, collectSimpleBlocks, List.append_nil]
    exact (List.append_nil _).trans (runs_inlineAll cs h {})
  | .container .blockQuote cs, h => by
    rw [Elem.shape, kindOf, forest, collectSimpleBlocks, collectSimpleBlocks, List.append_nil]
    exact pieces_blocks cs h
  | .container (.list none) cs, h => by
    rw [Elem.shape, kindOf, forest, collectSimpleBlocks, collectSimpleBlocks, List.append_nil]
    exact pieces_items cs h
  | .container (.list (some _)) cs, h => by
    rw [Elem.shape, kindOf, forest, collectSimpleBlocks, collectSimpleBlocks, List.append_nil]
    exact pieces_items cs h
  | .container .unmodelled cs, h => pieces_parts cs h

theorem pieces_blocks : (es : List Elem) → Elem.AllBlocks es →
    (collectSimpleBlocks (forestAll (Elem.shapeAll es))).flatMap SimpleBlock.pieces =
      Elem.piecesAll {} es
  | [], _ => rfl
  | e :: es, h => by
    rw [Elem.shapeAll, forestAll, collectSimpleBlocks_append, List.flatMap_append,
      pieces_block e h.1, pieces_blocks es h.2]
    rfl

theorem pieces_items : (es : List Elem) → Elem.AllItems es →
    (collectSimpleBlocks (forestAll (Elem.shapeAll es))).flatMap SimpleBlock.pieces =
      Elem.piecesAll {} es
  | [], _ => rfl
  | .container .item cs :: es, h => by
    have hcs := pieces_parts cs h.1
    rw [Elem.shapeAll, forestAll, collectSimpleBlocks_append, List.flatMap_append,
      pieces_items es h.2, Elem.shape, kindOf, forest, collectSimpleBlocks, collectSimpleBlocks,
      List.append_nil]
    rw [collectSimpleBlock, hcs]
    rfl

theorem pieces_parts : (es : List Elem) → Elem.AllParts es →
    (collectSimpleBlocks (forestAll (Elem.shapeAll es))).flatMap SimpleBlock.pieces =
      Elem.piecesAll {} es
  | [], _ => rfl
  | e :: es, h => by
    have he : (collectSimpleBlocks e.shape.forest).flatMap SimpleBlock.pieces = e.pieces {} := by
      rcases h.1 with hi | hb
      · exact pieces_inline hi
      · exact pieces_block e hb
    rw [Elem.shapeAll, forestAll, collectSimpleBlocks_append, List.flatMap_append, he,
      pieces_parts es h.2]
    rfl

end

/-- Each item of a list has its own text. -/
theorem forall₂_items : (es : List Elem) → Elem.AllItems es →
    List.Forall₂ (fun e item => ListItem.pieces item = Elem.pieces {} e) es
      (collectItems (forestAll (Elem.shapeAll es)))
  | [], _ => .nil
  | .container .item cs :: es, h => by
    refine .cons ?_ (forall₂_items es h.2)
    exact (pieces_collectItem [] _).trans (pieces_parts cs h.1)

/-- A block that is modelled has its own block of the document. -/
theorem yields_block {e : Elem} (h : e.IsBlock) (ho : e ≠ .other)
    (hu : ∀ cs, e ≠ .container .unmodelled cs) :
    ∃ b, e.shape.forest.flatMap collectBlock = [b] ∧ Yields e b := by
  cases e with
  | rule => exact ⟨_, rfl, trivial⟩
  | codeBlock kind texts => exact ⟨_, rfl, rfl, rfl⟩
  | other => exact absurd rfl ho
  | container c cs =>
    cases c with
    | paragraph => exact ⟨_, rfl, runs_inlineAll cs h {}⟩
    | heading level => exact ⟨_, rfl, rfl, runs_inlineAll cs h {}⟩
    | blockQuote => exact ⟨_, rfl, pieces_blocks cs h⟩
    | list start =>
      cases start with
      | none => exact ⟨_, rfl, forall₂_items cs h⟩
      | some n => exact ⟨_, rfl, rfl, forall₂_items cs h⟩
    | unmodelled => exact absurd rfl (hu cs)
    | _ => exact absurd h id
  | _ => exact absurd h id

theorem collectBlock_inline {n : Node} (h : isBlockKind n.label = false) :
    collectBlock n =
      if (walkInline {} n).isEmpty then [] else [.paragraph (walkInline {} n)] := by
  obtain ⟨kind, cs⟩ := n
  cases kind with
  | document => rfl
  | emphasis => rfl
  | strong => rfl
  | link => rfl
  | text => rfl
  | inlineCode => rfl
  | softBreak => rfl
  | hardBreak => rfl
  | _ => cases h

/-- A text that stands alone has a paragraph, if there is any of it. -/
theorem renders_text {e : Elem} (h : e.IsInline) (hu : ∀ cs, e ≠ .container .unmodelled cs)
    {n : Node} (hn : e.shape.forest = [n]) {es : List Elem} {bs : List Block}
    (hes : Renders es bs) : Renders (e :: es) (e.shape.forest.flatMap collectBlock ++ bs) := by
  have hruns := runs_inline e h {}
  have hkind := inline_kind e h n (hn ▸ List.mem_singleton.2 rfl)
  rw [hn, collectRuns, collectRuns, List.append_nil] at hruns
  rw [hn, List.flatMap_singleton, collectBlock_inline hkind]
  split
  · next hempty =>
    rw [List.isEmpty_iff.1 hempty] at hruns
    exact .none h hu hruns.symm hes
  · next hempty => exact .text h hu (fun hnil => hempty (List.isEmpty_iff.2 hnil)) hruns hes

theorem allParts_of_allInline : (es : List Elem) → Elem.AllInline es → Elem.AllParts es
  | [], _ => trivial
  | _ :: es, h => ⟨.inl h.1, allParts_of_allInline es h.2⟩

theorem allParts_of_allBlocks : (es : List Elem) → Elem.AllBlocks es → Elem.AllParts es
  | [], _ => trivial
  | _ :: es, h => ⟨.inr h.1, allParts_of_allBlocks es h.2⟩

mutual

theorem renders_part : (e : Elem) → e.IsInline ∨ e.IsBlock → ∀ (es : List Elem) (bs : List Block),
    Renders es bs → Renders (e :: es) (e.shape.forest.flatMap collectBlock ++ bs)
  | .text s, _, _, _, hes => renders_text (e := .text s) trivial (fun _ h => by cases h) rfl hes
  | .code s, _, _, _, hes => renders_text (e := .code s) trivial (fun _ h => by cases h) rfl hes
  | .softBreak, _, _, _, hes =>
    renders_text (e := .softBreak) trivial (fun _ h => by cases h) rfl hes
  | .hardBreak, _, _, _, hes =>
    renders_text (e := .hardBreak) trivial (fun _ h => by cases h) rfl hes
  | .other, _, _, _, hes => .none trivial (fun _ h => by cases h) rfl hes
  | .container .unmodelled cs, h, es, bs, hes => by
    refine .unmodelled (renders_parts cs ?_) hes
    rcases h with h | h
    · exact allParts_of_allInline cs h
    · exact h
  | .container .emphasis cs, h, es, bs, hes => by
    rcases h with h | h
    · exact renders_text h (fun _ h => by cases h) rfl hes
    · exact absurd h id
  | .container .strong cs, h, es, bs, hes => by
    rcases h with h | h
    · exact renders_text h (fun _ h => by cases h) rfl hes
    · exact absurd h id
  | .container (.link _) cs, h, es, bs, hes => by
    rcases h with h | h
    · exact renders_text h (fun _ h => by cases h) rfl hes
    · exact absurd h id
  | .rule, _, _, _, hes => .block trivial hes
  | .codeBlock _ _, _, _, _, hes => .block ⟨rfl, rfl⟩ hes
  | .container .paragraph cs, h, es, bs, hes => by
    obtain ⟨b, hb, hy⟩ := yields_block (h.resolve_left id) (fun h => by cases h)
      (fun _ h => by cases h)
    rw [hb]
    exact .block hy hes
  | .container (.heading _) cs, h, es, bs, hes => by
    obtain ⟨b, hb, hy⟩ := yields_block (h.resolve_left id) (fun h => by cases h)
      (fun _ h => by cases h)
    rw [hb]
    exact .block hy hes
  | .container .blockQuote cs, h, es, bs, hes => by
    obtain ⟨b, hb, hy⟩ := yields_block (h.resolve_left id) (fun h => by cases h)
      (fun _ h => by cases h)
    rw [hb]
    exact .block hy hes
  | .container (.list _) cs, h, es, bs, hes => by
    obtain ⟨b, hb, hy⟩ := yields_block (h.resolve_left id) (fun h => by cases h)
      (fun _ h => by cases h)
    rw [hb]
    exact .block hy hes
  | .container .item _, h, _, _, _ => by
    rcases h with h | h
    · exact absurd h id
    · exact absurd h id

/-- The blocks of the right tree are those of the stream. -/
theorem renders_parts : (es : List Elem) → Elem.AllParts es →
    Renders es ((forestAll (Elem.shapeAll es)).flatMap collectBlock)
  | [], _ => .nil
  | e :: es, h => by
    rw [Elem.shapeAll, forestAll, List.flatMap_append]
    exact renders_part e h.1 es _ (renders_parts es h.2)

end

theorem flatMap_items {es : List Elem} {items : List ListItem}
    (h : List.Forall₂ (fun e item => ListItem.pieces item = Elem.pieces {} e) es items) :
    items.flatMap ListItem.pieces = Elem.piecesAll {} es := by
  induction h with
  | nil => rfl
  | cons hi _ ih =>
    rw [List.flatMap_cons, hi, ih]
    rfl

theorem Yields.pieces {e : Elem} {b : Block} (h : Yields e b) : b.pieces = e.pieces {} := by
  unfold Yields at h
  split at h
  · rfl
  · exact congrArg (fun t => [Piece.code t]) h.2
  · exact h
  · exact h.2
  · exact h
  · exact flatMap_items h
  · exact flatMap_items h.2
  · exact absurd h id

/-- The blocks of a stream have its text, in its order. -/
theorem Renders.pieces {es : List Elem} {bs : List Block} (h : Renders es bs) :
    bs.flatMap Block.pieces = Elem.piecesAll {} es := by
  induction h with
  | nil => rfl
  | block hy _ ih =>
    rw [List.flatMap_cons, hy.pieces, ih]
    rfl
  | text _ _ _ hr _ ih =>
    rw [List.flatMap_cons, ih]
    exact congrArg (· ++ _) hr
  | none _ _ hp _ ih =>
    rw [ih, Elem.piecesAll, hp]
    rfl
  | unmodelled _ _ ih ih' =>
    rw [List.flatMap_append, ih, ih']
    rfl

/-- The blocks are those of the stream, and their text is its text, if in no outermost element
there is a node after an end that closes another one. The tree is the right one only then. -/
theorem render_kept (es : List Elem) (h : Elem.AllBlocks es) :
    (KeptAll (Elem.shapeAll es) →
      Renders es (render (Elem.eventsAll es)) ∧
        (render (Elem.eventsAll es)).flatMap Block.pieces = Elem.piecesAll {} es) ∧
    (buildTree (Elem.eventsAll es) = .mk .document (forestAll (Elem.shapeAll es)) ↔
      KeptAll (Elem.shapeAll es)) := by
  refine ⟨fun hk => ?_, buildTree_eq_iff es⟩
  have hrenders : Renders es (render (Elem.eventsAll es)) := by
    unfold render
    rw [(buildTree_eq_iff es).2 hk]
    exact renders_parts es (allParts_of_allBlocks es h)
  exact ⟨hrenders, hrenders.pieces⟩

/-- An image at the end of a paragraph. -/
theorem render_kept_image : Renders
    [.container .paragraph [.text "b", .container .unmodelled [.text "a"]]]
    (render (Elem.eventsAll
      [.container .paragraph [.text "b", .container .unmodelled [.text "a"]]])) := by
  have hblocks : Elem.AllBlocks
      [.container .paragraph [.text "b", .container .unmodelled [.text "a"]]] :=
    ⟨⟨trivial, ⟨trivial, trivial⟩, trivial⟩, trivial⟩
  exact ((render_kept _ hblocks).1 ⟨rfl, trivial⟩).1

/-- The text after an image in an item is lost. -/
theorem image_loses_text : ¬ ∀ es : List Elem, Elem.AllBlocks es →
    (render (Elem.eventsAll es)).flatMap Block.pieces = Elem.piecesAll {} es := by
  intro h
  have hblocks : Elem.AllBlocks [.container (.list none)
      [.container .item [.container .unmodelled [.text "a"], .text "b"]]] :=
    ⟨⟨⟨.inl ⟨trivial, trivial⟩, .inl trivial, trivial⟩, trivial⟩, trivial⟩
  have htext := h _ hblocks
  revert htext
  decide

end Wandr.Markdown
