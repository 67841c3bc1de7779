import Mathlib.Data.Rat.Defs
import Wandr.Lib.Machine
import Wandr.Tetris.Game

/-!
# The board of the game

While rows are shown that will be taken out, keys are not heeded and the piece does not fall. But
the buttons and gestures of the screen are heeded, and the first frame of a new game lets a piece
come whatever the game does. Without these the board is what it should be.

* `lock_apply`, `ofFn_collapse`: what a lock and a collapse do to the board;
* `Turn`: what a step does; `Sound`: what holds between steps;
* `board_kept`: so it is in a run.
-/

namespace Wandr.Tetris

open Machine

/-! ## The board -/

section
variable {b b' : Board} {p : Piece} {c : Int × Int} {ry : Fin ROWS} {cx : Fin COLS}
  {rows : List (Fin ROWS)}

theorem foldl_put_apply {kind : Kind} {cells : List (Int × Int)} :
    (cells.foldl (fun b c => b.put kind c) b) ry cx =
      if ((cx.val : Int), (ry.val : Int)) ∈ cells then some kind else b ry cx := by
  induction cells generalizing b with
  | nil => exact (if_neg List.not_mem_nil).symm
  | cons c cells ih =>
    rw [List.foldl_cons, ih]
    by_cases hc : ((cx.val : Int), (ry.val : Int)) ∈ cells
    · rw [if_pos hc, if_pos (List.mem_cons_of_mem _ hc)]
    · rw [if_neg hc]
      unfold Board.put
      by_cases he : c.1 = cx.val ∧ c.2 = ry.val
      · rw [if_pos he, if_pos (List.mem_cons.2 (Or.inl (Prod.ext he.1.symm he.2.symm)))]
      · rw [if_neg he, if_neg]
        intro hm
        rcases List.mem_cons.1 hm with rfl | hm
        · exact he ⟨rfl, rfl⟩
        · exact hc hm

/-- A lock adds the cells of the piece that are in the well. -/
theorem lock_apply : (b.lock p) ry cx =
    if ((cx.val : Int), (ry.val : Int)) ∈ p.cells then some p.kind else b ry cx :=
  foldl_put_apply

theorem lock_lock : (b.lock p).lock p = b.lock p := by
  funext ry cx
  rw [lock_apply, lock_apply]
  split <;> rfl

theorem isSome_lock (h : (b ry cx).isSome) : ((b.lock p) ry cx).isSome := by
  rw [lock_apply]
  split
  · rfl
  · exact h

/-- What collides with a board does with one that has more. -/
theorem collides_mono (h : ∀ ry cx, (b ry cx).isSome → (b' ry cx).isSome)
    (hc : collides b p = true) : collides b' p = true := by
  unfold collides at hc ⊢
  rw [List.any_eq_true] at hc ⊢
  obtain ⟨c, hm, hb⟩ := hc
  refine ⟨c, hm, ?_⟩
  unfold blocked at hb ⊢
  rw [Bool.or_eq_true] at hb ⊢
  refine hb.imp_right fun ho => ?_
  unfold occupied at ho ⊢
  split
  · next hw =>
    rw [dif_pos hw] at ho
    exact h _ _ ho
  · next hw =>
    rw [dif_neg hw] at ho
    exact ho

/-- A piece that does not collide is between the walls and above the floor, on free cells. -/
theorem fits_of_not_collides (h : collides b p = false) :
    ∀ c ∈ p.cells, 0 ≤ c.1 ∧ c.1 < COLS ∧ c.2 < ROWS ∧ occupied b c = false := by
  intro c hc
  have hb := List.any_eq_false.1 h c hc
  unfold blocked at hb
  simp only [Bool.or_eq_true, decide_eq_true_eq, not_or, not_lt, not_le, ge_iff_le] at hb
  exact ⟨hb.1.1.1, hb.1.1.2, hb.1.2, Bool.eq_false_iff.2 hb.2⟩

theorem mem_fullRows : ry ∈ b.fullRows ↔ ∀ cx, (b ry cx).isSome := by
  unfold Board.fullRows Board.isFull
  rw [List.mem_filter, List.all_eq_true]
  exact ⟨fun h cx => h.2 cx (List.mem_finRange cx),
    fun h => ⟨List.mem_finRange ry, fun cx _ => h cx⟩⟩

/-- A row is written above those that are. -/
theorem ofFn_write {nb : Board} {row : Fin COLS → Option Kind} {k : Nat}
    {ks : List (Fin COLS → Option Kind)}
    (h : List.ofFn nb = List.replicate (k + 1) (fun _ => none) ++ ks) :
    List.ofFn (fun wy : Fin ROWS => if wy.val + 1 = k + 1 then row else nb wy) =
      List.replicate k (fun _ => none) ++ row :: ks := by
  have hlen := congrArg List.length h
  rw [List.length_ofFn, List.length_append, List.length_replicate] at hlen
  refine List.ext_getElem? fun i => ?_
  have hi := congrArg (·[i]?) h
  rw [List.getElem?_ofFn, List.getElem?_append, List.length_replicate,
    List.getElem?_replicate] at hi
  rw [List.getElem?_ofFn, List.getElem?_append, List.length_replicate, List.getElem?_replicate]
  dsimp only
  by_cases hik : i < k
  · rw [if_pos (Nat.lt_succ_of_lt hik), if_pos (Nat.lt_succ_of_lt hik), dif_pos (by omega)] at hi
    rw [if_pos hik, if_pos hik, dif_pos (by omega), if_neg (by omega), hi]
  by_cases he : i = k
  · rw [if_neg hik, dif_pos (by omega), if_pos (by omega), he, Nat.sub_self,
      List.getElem?_cons_zero]
  · obtain ⟨j, hj⟩ : ∃ j, i = k + 1 + j := ⟨i - (k + 1), by omega⟩
    have hj₁ : i - (k + 1) = j := by omega
    have hj₂ : i - k = j + 1 := by omega
    rw [if_neg (by omega), hj₁] at hi
    rw [if_neg hik, hj₂, List.getElem?_cons_succ, ← hi]
    split
    · rw [if_neg (by omega)]
    · rfl

theorem foldl_copyRow (l : List (Fin ROWS)) (acc : Board × Nat)
    (ks : List (Fin COLS → Option Kind))
    (h : List.ofFn acc.1 = List.replicate acc.2 (fun _ => none) ++ ks) (hl : l.length ≤ acc.2) :
    ∃ k, List.ofFn (l.foldl (copyRow b rows) acc).1 = List.replicate k (fun _ => none) ++
      (((l.filter fun ry => ry ∉ rows).map b).reverse ++ ks) := by
  induction l generalizing acc ks with
  | nil => exact ⟨acc.2, h⟩
  | cons ry l ih =>
    rw [List.length_cons] at hl
    rw [List.foldl_cons]
    by_cases hr : ry ∈ rows
    · have hc : copyRow b rows acc ry = acc := if_pos hr
      rw [hc, List.filter_cons_of_neg (by simpa using hr)]
      exact ih acc ks h (by omega)
    · obtain ⟨n, hn⟩ : ∃ n, acc.2 = n + 1 := ⟨acc.2 - 1, by omega⟩
      have hc : copyRow b rows acc ry =
          (fun wy => if wy.val + 1 = n + 1 then b ry else acc.1 wy, n) := by
        unfold copyRow
        rw [if_neg hr, hn]
        rfl
      rw [hn] at h
      obtain ⟨k, hk⟩ := ih (copyRow b rows acc ry) (b ry :: ks)
        (by rw [hc]; exact ofFn_write h) (by rw [hc]; dsimp only; omega)
      refine ⟨k, ?_⟩
      rw [hk, List.filter_cons_of_pos (by simpa using hr), List.map_cons, List.reverse_cons,
        List.append_assoc]
      rfl

/-- A collapse takes the rows out and keeps the others in their order. -/
theorem ofFn_collapse : List.ofFn (b.collapse rows) =
    List.replicate (ROWS - ((List.finRange ROWS).filter fun ry => ry ∉ rows).length)
      (fun _ => none) ++ ((List.finRange ROWS).filter fun ry => ry ∉ rows).map b := by
  obtain ⟨k, hk⟩ : ∃ k, List.ofFn (b.collapse rows) = _ :=
    foldl_copyRow (List.finRange ROWS).reverse (Board.empty, ROWS) [] rfl
      (by rw [List.length_reverse, List.length_finRange])
  rw [List.append_nil, List.filter_reverse, List.map_reverse, List.reverse_reverse] at hk
  have hlen := congrArg List.length hk
  rw [List.length_ofFn, List.length_append, List.length_replicate, List.length_map] at hlen
  have hk' : k = ROWS - ((List.finRange ROWS).filter fun ry => ry ∉ rows).length := by omega
  rw [← hk']
  exact hk

/-- No row is full when the full ones are taken out. -/
theorem fullRows_collapse : (b.collapse b.fullRows).fullRows = [] := by
  refine List.eq_nil_iff_forall_not_mem.2 fun ry hry => ?_
  rw [mem_fullRows] at hry
  have hm : b.collapse b.fullRows ry ∈ List.ofFn (b.collapse b.fullRows) :=
    List.mem_ofFn.2 ⟨ry, rfl⟩
  rw [ofFn_collapse, List.mem_append, List.mem_replicate, List.mem_map] at hm
  rcases hm with ⟨-, he⟩ | ⟨ry', hm, he⟩
  · have h0 := hry 0
    rw [he] at h0
    cases h0
  · have hnot := of_decide_eq_true (List.mem_filter.1 hm).2
    rw [mem_fullRows, he] at hnot
    exact hnot hry

theorem fullRows_empty : Board.empty.fullRows = [] := by
  refine List.eq_nil_iff_forall_not_mem.2 fun ry hry => ?_
  have h0 := mem_fullRows.1 hry 0
  cases h0

end

/-! ## Moves -/

variable {F : Type} {s s' t : State F}

/-- The piece is moved or turned, and only to where it fits if it did. -/
structure Steers (s s' : State F) : Prop where
  board : s'.board = s.board
  clearing : s'.clearing = s.clearing
  gameOver : s'.gameOver = s.gameOver
  kind : s'.piece.kind = s.piece.kind
  fits : collides s.board s.piece = false → collides s'.board s'.piece = false

theorem Steers.refl : Steers s s := ⟨rfl, rfl, rfl, rfl, id⟩

theorem Steers.trans (h : Steers s s') (h' : Steers s' t) : Steers s t :=
  ⟨h'.board.trans h.board, h'.clearing.trans h.clearing, h'.gameOver.trans h.gameOver,
    h'.kind.trans h.kind, fun hf => h'.fits (h.fits hf)⟩

/-- The piece goes to where it fits. -/
theorem Steers.to (hb : t.board = s.board) (hc : t.clearing = s.clearing)
    (hg : t.gameOver = s.gameOver) (hk : t.piece.kind = s.piece.kind)
    (hf : ¬ collides s.board t.piece = true) : Steers s t :=
  ⟨hb, hc, hg, hk, fun _ => by rw [hb]; exact Bool.eq_false_iff.2 hf⟩

theorem steers_touchLockReset : Steers s (touchLockReset s) := by
  unfold touchLockReset
  split <;> exact ⟨rfl, rfl, rfl, rfl, id⟩

theorem steers_tryMove {dx : Int} : Steers s (tryMove s dx).1 := by
  unfold tryMove
  split
  · exact .refl
  · next hc =>
    refine Steers.trans ?_ steers_touchLockReset
    exact .to rfl rfl rfl rfl hc

/-- A piece that is turned is of its kind. -/
theorem kind_of_mem_turned {p : Piece} {cw : Bool} {t : Piece × Nat} (h : t ∈ turned p cw) :
    t.1.kind = p.kind := by
  unfold turned at h
  obtain ⟨k, -, he⟩ := List.mem_map.1 (List.fst_mem_of_mem_zipIdx h)
  rw [← he]

theorem steers_rotate {cw : Bool} : Steers s (rotate s cw) := by
  unfold rotate
  split
  · exact .refl
  · split
    · next p kick hf =>
      have hp := List.find?_some hf
      refine Steers.trans ?_ steers_touchLockReset
      refine .to rfl rfl rfl (kind_of_mem_turned (List.mem_of_find?_eq_some hf)) fun hc => ?_
      rw [hc] at hp
      cases hp
    · exact .refl

theorem steers_dragLoop {n : Nat} : Steers s (dragLoop n s) := by
  induction n generalizing s with
  | zero => exact .refl
  | succ n ih =>
    rw [dragLoop]
    split
    · exact .refl
    · next hc =>
      refine Steers.trans ?_ ih
      exact .to rfl rfl rfl rfl hc

theorem steers_swipeLoop {dir : Int} {n : Nat} : Steers s (swipeLoop dir n s) := by
  induction n generalizing s with
  | zero => exact .refl
  | succ n ih =>
    rw [swipeLoop]
    have hm : Steers s (tryMove s dir).1 := steers_tryMove
    split
    · next s' he =>
      rw [he] at hm
      exact hm.trans ih
    · next s' he =>
      rw [he] at hm
      exact hm

theorem steers_dropLoop {n : Nat} : Steers s (dropLoop n s) := by
  induction n generalizing s with
  | zero => exact .refl
  | succ n ih =>
    rw [dropLoop]
    split
    · exact .refl
    · next hc =>
      refine Steers.trans ?_ ih
      exact .to rfl rfl rfl rfl hc

theorem steers_fallLoop {interval : Nat} {soft : Bool} {n : Nat} :
    Steers s (fallLoop interval soft n s) := by
  induction n generalizing s with
  | zero => exact .refl
  | succ n ih =>
    rw [fallLoop]
    split
    · dsimp only
      split
      · exact ⟨rfl, rfl, rfl, rfl, id⟩
      · next hc =>
        refine Steers.trans ?_ ih
        exact .to rfl rfl rfl rfl hc
    · exact .refl

theorem steers_autoShift {dt : Nat} : Steers s (autoShift s dt) := by
  unfold autoShift
  split
  · dsimp only
    generalize (if s.dasStarted = true then s.arrCfg else s.dasCfg) = limit
    split
    · have hm : Steers { s with das := s.das + dt }
          (tryMove { s with das := s.das + dt } s.moveDir).1 := steers_tryMove
      exact ⟨hm.board, hm.clearing, hm.gameOver, hm.kind, hm.fits⟩
    · exact ⟨rfl, rfl, rfl, rfl, id⟩
  · exact .refl

theorem exists_shape (k : Kind) (r : Rot) : ∃ d ∈ SHAPES[k][r], 0 ≤ d.2 := by
  revert k r
  decide

/-- A piece at the floor cannot go down. -/
theorem collides_of_room {b : Board} {p : Piece} (h : p.room = 0) :
    collides b p.down = true := by
  obtain ⟨d, hd, hpos⟩ := exists_shape p.kind p.rot
  unfold Piece.room at h
  refine List.any_eq_true.2 ⟨(p.x + d.1, p.y + 1 + d.2), List.mem_map.2 ⟨d, hd, rfl⟩, ?_⟩
  unfold blocked
  simp only [Bool.or_eq_true, decide_eq_true_eq]
  refine Or.inl (Or.inr ?_)
  omega

theorem room_down {p : Piece} {n : Nat} (h : p.room ≤ n + 1) : p.down.room ≤ n := by
  unfold Piece.room Piece.down at *
  dsimp only at *
  omega

/-- A piece that falls comes to rest: it has no more rows to fall by than it is given. -/
theorem grounded_dropLoop {n : Nat} (h : s.piece.room ≤ n) : grounded (dropLoop n s) = true := by
  induction n generalizing s with
  | zero => exact collides_of_room (Nat.le_zero.1 h)
  | succ n ih =>
    rw [dropLoop]
    split
    · next hc => exact hc
    · exact ih (room_down h)

/-! ## Steps -/

/-- What holds between steps: the piece fits while it is played, no row is full unless full rows are
shown, and then they are all of these and the piece is on the board. -/
structure Sound (s : State F) : Prop where
  fits : s.clearing = none → s.gameOver = false → collides s.board s.piece = false
  notFull : s.clearing = none → s.board.fullRows = []
  shown : ∀ rows elapsed, s.clearing = some (rows, elapsed) → rows = s.board.fullRows ∧ rows ≠ []
  locked : s.clearing.isSome → s.board.lock s.piece = s.board ∧ grounded s = true

/-- What a step does to the board. -/
inductive Turn (s s' : State F) : Prop
  /-- Nothing; while rows are shown, the piece stays too. -/
  | kept (board : s'.board = s.board)
    (rows : s'.clearing.map Prod.fst = s.clearing.map Prod.fst)
    (piece : s.clearing.isSome → s'.piece = s.piece)
  /-- The piece is locked where it came to rest, and the rows that are full are shown, if any. -/
  | locked (p : Piece) (clearing : s.clearing = none) (kind : p.kind = s.piece.kind)
    (fits : s.gameOver = false → collides s.board p = false)
    (rests : collides s.board p.down = true)
    (board : ∀ ry cx, s'.board ry cx =
      if ((cx.val : Int), (ry.val : Int)) ∈ p.cells then some p.kind else s.board ry cx)
    (rows : s'.clearing.map Prod.fst =
      if s'.board.fullRows = [] then none else some s'.board.fullRows)
    (piece : s'.clearing.isSome → s'.piece = p)
  /-- The rows that were full are taken out, and the others kept in their order. -/
  | collapsed (shown : s.clearing.isSome) (clearing : s'.clearing = none)
    (board : List.ofFn s'.board = List.replicate s.board.fullRows.length (fun _ => none) ++
      ((List.finRange ROWS).filter fun ry => !s.board.isFull ry).map s.board)
  /-- A new game. -/
  | restarted (board : s'.board = .empty) (clearing : s'.clearing = none)

theorem Sound.of_steers (hs : Sound s) (h : Steers s t)
    (hp : s.clearing.isSome → t.piece = s.piece) : Sound t where
  fits hc hg := h.fits (hs.fits (h.clearing ▸ hc) (h.gameOver ▸ hg))
  notFull hc := by
    rw [h.board]
    exact hs.notFull (h.clearing ▸ hc)
  shown rows elapsed hc := by
    rw [h.board]
    exact hs.shown rows elapsed (h.clearing ▸ hc)
  locked hc := by
    rw [h.clearing] at hc
    unfold grounded
    rw [h.board, hp hc]
    exact hs.locked hc

theorem Turn.of_steers (h : Steers s t) (hp : s.clearing.isSome → t.piece = s.piece) : Turn s t :=
  .kept h.board (congrArg _ h.clearing) hp

/-- What does not look at the board or the piece, nor changes them. -/
structure Aside (s t : State F) : Prop where
  board : t.board = s.board
  piece : t.piece = s.piece
  clearing : t.clearing = s.clearing
  gameOver : t.gameOver = s.gameOver

theorem Aside.steers (h : Aside s t) : Steers s t :=
  ⟨h.board, h.clearing, h.gameOver, congrArg _ h.piece,
    fun hf => by rw [h.board, h.piece]; exact hf⟩

/-! ## The next piece -/

theorem spawn_spec {k : Kind} : (spawn s k).board = s.board ∧
    (spawn s k).clearing = s.clearing ∧
    ((spawn s k).gameOver = false → collides (spawn s k).board (spawn s k).piece = false) := by
  unfold spawn
  dsimp only
  split
  · exact ⟨rfl, rfl, fun h => by cases h⟩
  · next hc => exact ⟨rfl, rfl, fun _ => Bool.eq_false_iff.2 hc⟩

theorem sound_spawn {k : Kind} (hc : s.clearing = none) (hf : s.board.fullRows = []) :
    Sound (spawn s k) := by
  obtain ⟨hb, hcl, hfits⟩ := spawn_spec (s := s) (k := k)
  rw [hc] at hcl
  refine ⟨fun _ => hfits, fun _ => hb ▸ hf, fun rows elapsed h => ?_, fun h => ?_⟩
  · rw [hcl] at h
    cases h
  · rw [hcl] at h
    cases h

theorem hold_spec (hc : s.clearing = none) (hs : Sound s) :
    Sound (hold s) ∧ (hold s).board = s.board ∧ (hold s).clearing = s.clearing := by
  unfold hold
  split
  · dsimp only
    split
    · next h _ =>
      obtain ⟨hb, hcl, -⟩ := spawn_spec (s := { s with hold := some s.piece.kind }) (k := h)
      have hsound := sound_spawn (s := { s with hold := some s.piece.kind }) (k := h) hc
        (hs.notFull hc)
      exact ⟨⟨hsound.fits, hsound.notFull, hsound.shown, hsound.locked⟩, hb, hcl⟩
    · unfold spawnNext
      dsimp only
      generalize refillQueue s.queue s.rng = q
      obtain ⟨hb, hcl, -⟩ := spawn_spec (k := q.1.headD 0)
        (s := { s with hold := some s.piece.kind, queue := q.1.tail, rng := q.2 })
      have hsound := sound_spawn (k := q.1.headD 0)
        (s := { s with hold := some s.piece.kind, queue := q.1.tail, rng := q.2 }) hc
        (hs.notFull hc)
      exact ⟨⟨hsound.fits, hsound.notFull, hsound.shown, hsound.locked⟩, hb, hcl⟩
  · exact ⟨hs, rfl, rfl⟩

/-! ## The lock -/

/-- A piece that rests is locked. -/
theorem lockAndNext_spec (hg : grounded s = true) (hc : s.clearing = none) :
    Sound (lockAndNext s) ∧ (lockAndNext s).board = s.board.lock s.piece ∧
      (lockAndNext s).clearing.map Prod.fst =
        (if (s.board.lock s.piece).fullRows = [] then none
        else some (s.board.lock s.piece).fullRows) ∧
      ((lockAndNext s).clearing.isSome → (lockAndNext s).piece = s.piece) := by
  unfold lockAndNext
  dsimp only
  split
  · next he =>
    rw [List.isEmpty_iff] at he
    rw [if_pos he]
    unfold spawnNext
    dsimp only
    generalize refillQueue s.queue s.rng = q
    generalize s.tally.scored _ _ = tally
    obtain ⟨hb, hcl, -⟩ := spawn_spec (k := q.1.headD 0)
      (s := { s with board := s.board.lock s.piece, tally, queue := q.1.tail, rng := q.2 })
    have hsound := sound_spawn (k := q.1.headD 0)
      (s := { s with board := s.board.lock s.piece, tally, queue := q.1.tail, rng := q.2 }) hc he
    refine ⟨⟨hsound.fits, hsound.notFull, hsound.shown, hsound.locked⟩, hb, ?_, fun h => ?_⟩
    · rw [hcl, hc]
      rfl
    · rw [hcl, hc] at h
      cases h
  · next he =>
    rw [List.isEmpty_iff] at he
    rw [if_neg he]
    refine ⟨⟨fun h => (by cases h), fun h => (by cases h), fun rows elapsed h => ?_,
      fun _ => ⟨lock_lock, collides_mono (fun _ _ => isSome_lock) hg⟩⟩, rfl, rfl, fun _ => rfl⟩
    cases h
    exact ⟨rfl, he⟩

/-- A piece that is on the board is locked again while rows are shown. -/
theorem lockAndNext_again (hs : Sound s) (hc : s.clearing.isSome) :
    Sound (lockAndNext s) ∧ (lockAndNext s).board = s.board ∧
      (lockAndNext s).clearing.map Prod.fst = s.clearing.map Prod.fst ∧
      (lockAndNext s).piece = s.piece := by
  obtain ⟨hlock, hg⟩ := hs.locked hc
  obtain ⟨⟨rows, elapsed⟩, hrows⟩ := Option.isSome_iff_exists.1 hc
  obtain ⟨hr, hne⟩ := hs.shown rows elapsed hrows
  have hnb : ¬ s.board.fullRows.isEmpty = true := by
    rw [List.isEmpty_iff, ← hr]
    exact hne
  unfold lockAndNext
  rw [hlock]
  dsimp only
  rw [if_neg hnb, hrows]
  refine ⟨⟨fun h => (by cases h), fun h => (by cases h), fun rows' elapsed' h => ?_,
    fun _ => ⟨hlock, hg⟩⟩, rfl, by rw [hr]; rfl, rfl⟩
  cases h
  exact ⟨rfl, hr ▸ hne⟩

/-- A piece that is steered to where it rests, and locked there. -/
theorem turn_lock (hs : Sound s) (h : Steers s t) (hg : grounded t = true)
    (hc : s.clearing = none) : Sound (lockAndNext t) ∧ Turn s (lockAndNext t) := by
  obtain ⟨hsound, hb, hr, hp⟩ := lockAndNext_spec hg (h.clearing.trans hc)
  refine ⟨hsound, .locked t.piece hc h.kind (fun hgo => ?_) ?_ (fun ry cx => ?_) ?_ hp⟩
  · rw [← h.board]
    exact h.fits (hs.fits hc hgo)
  · rw [← h.board]
    exact hg
  · rw [hb, lock_apply, h.board]
  · rw [hr, hb]

theorem turn_hardDrop (hs : Sound s) : Sound (hardDrop s) ∧ Turn s (hardDrop s) := by
  unfold hardDrop
  cases hc : s.clearing with
  | none => exact turn_lock hs steers_dropLoop (grounded_dropLoop (Nat.le_refl _)) hc
  | some c =>
    have hsome : s.clearing.isSome := by rw [hc]; rfl
    have hg := (hs.locked hsome).2
    have hdrop : dropLoop s.piece.room s = s := by
      cases s.piece.room with
      | zero => rfl
      | succ n => exact if_pos hg
    rw [hdrop]
    obtain ⟨hsound, hb, hr, hp⟩ := lockAndNext_again hs hsome
    exact ⟨hsound, .kept hb hr fun _ => hp⟩

/-- The rows that are shown are taken out. -/
theorem turn_finishClear {rows : List (Fin ROWS)} {elapsed : Nat} (hs : Sound s)
    (hc : s.clearing = some (rows, elapsed)) (e : Nat) :
    Sound (finishClear { s with clearing := some (rows, e) }) ∧
      Turn s (finishClear { s with clearing := some (rows, e) }) := by
  obtain ⟨hr, -⟩ := hs.shown rows elapsed hc
  unfold finishClear spawnNext
  dsimp only
  generalize refillQueue s.queue s.rng = q
  have hf : (s.board.collapse rows).fullRows = [] := by
    rw [hr]
    exact fullRows_collapse
  obtain ⟨hb, hcl, -⟩ := spawn_spec (k := q.1.headD 0)
    (s := { s with
      board := s.board.collapse rows, clearing := none, queue := q.1.tail, rng := q.2 })
  have hsound := sound_spawn (k := q.1.headD 0)
    (s := { s with
      board := s.board.collapse rows, clearing := none, queue := q.1.tail, rng := q.2 }) rfl hf
  have hfilter : ((List.finRange ROWS).filter fun ry => ry ∉ rows) =
      (List.finRange ROWS).filter fun ry => !s.board.isFull ry := by
    refine List.filter_congr fun ry hm => ?_
    have hmem : ry ∈ rows ↔ s.board.isFull ry = true := by
      rw [hr]
      unfold Board.fullRows
      rw [List.mem_filter, and_iff_right hm]
    cases hf : s.board.isFull ry with
    | true => exact decide_eq_false (not_not_intro (hmem.2 hf))
    | false => exact decide_eq_true fun h => Bool.false_ne_true (hf.symm.trans (hmem.1 h))
  have hlen : ROWS - ((List.finRange ROWS).filter fun ry => !s.board.isFull ry).length =
      s.board.fullRows.length := by
    have hsum := List.length_eq_length_filter_add (l := List.finRange ROWS) s.board.isFull
    rw [List.length_finRange] at hsum
    unfold Board.fullRows
    omega
  refine ⟨⟨hsound.fits, hsound.notFull, hsound.shown, hsound.locked⟩,
    .collapsed (by rw [hc]; rfl) hcl ?_⟩
  dsimp only at hb ⊢
  rw [hb, ofFn_collapse, hfilter, hlen]

theorem steers_good (hs : Sound s) (h : Steers s t)
    (hp : s.clearing.isSome → t.piece = s.piece) : Sound t ∧ Turn s t :=
  ⟨hs.of_steers h hp, .of_steers h hp⟩

namespace Aside

theorem good (hs : Sound s) (h : Aside s t) : Sound t ∧ Turn s t :=
  steers_good hs h.steers fun _ => h.piece

theorem before (hs : Sound s) (ha : Aside s s') (h : Sound s' → Sound t ∧ Turn s' t) :
    Sound t ∧ Turn s t := by
  obtain ⟨ht, hturn⟩ := h (ha.good hs).1
  refine ⟨ht, ?_⟩
  obtain ⟨hb, hp, hc, hg⟩ := ha
  cases hturn with
  | kept board rows piece =>
    exact .kept (board.trans hb) (hc ▸ rows) fun h => (piece (hc ▸ h)).trans hp
  | locked p clearing kind fits rests board rows piece =>
    refine .locked p (hc ▸ clearing) (hp ▸ kind) (fun h => hb ▸ fits (hg ▸ h)) (hb ▸ rests)
      (fun ry cx => ?_) rows piece
    rw [board, hb]
  | collapsed shown clearing board => exact .collapsed (hc ▸ shown) clearing (hb ▸ board)
  | restarted board clearing => exact .restarted board clearing

theorem after (h : Sound s' ∧ Turn s s') (ha : Aside s' t) : Sound t ∧ Turn s t := by
  obtain ⟨hs, hturn⟩ := h
  refine ⟨(ha.good hs).1, ?_⟩
  obtain ⟨hb, hp, hc, hg⟩ := ha
  cases hturn with
  | kept board rows piece =>
    exact .kept (hb.trans board) (hc ▸ rows) fun h => hp.trans (piece h)
  | locked p clearing kind fits rests board rows piece =>
    refine .locked p clearing kind fits rests (fun ry cx => ?_) ?_ fun h => ?_
    · rw [hb, board]
    · rw [hc, hb, rows]
    · exact hp.trans (piece (hc ▸ h))
  | collapsed shown clearing board =>
    refine .collapsed shown (hc.trans clearing) ?_
    rw [hb, board]
  | restarted board clearing => exact .restarted (hb.trans board) (hc.trans clearing)

end Aside

/-! ## Frames -/

theorem lockAccum_touchLockReset (h : s.lockAccum = 0) : (touchLockReset s).lockAccum = 0 := by
  unfold touchLockReset
  split
  · rfl
  · exact h

theorem lockAccum_autoShift {dt : Nat} (h : s.lockAccum = 0) : (autoShift s dt).lockAccum = 0 := by
  unfold autoShift
  split
  · dsimp only
    generalize (if s.dasStarted = true then s.arrCfg else s.dasCfg) = limit
    split
    · dsimp only
      unfold tryMove
      split
      · exact h
      · exact lockAccum_touchLockReset h
    · exact h
  · exact h

theorem steers_fallen {interval g : Nat} {soft : Bool} {n : Nat}
    (ht : t = fallLoop interval soft n { s with gravityAccum := g }) :
    Steers s { t with lockAccum := 0, lockResets := 0 } := by
  have h : Steers { s with gravityAccum := g } t := ht ▸ steers_fallLoop
  exact ⟨h.board, h.clearing, h.gameOver, h.kind, h.fits⟩

/-- A frame of the running game. -/
theorem turn_playFrame {fallNs : UInt32 → Nat} {dt : Nat} (hs : Sound s) (hc : s.clearing = none) :
    Sound (playFrame s fallNs dt) ∧ Turn s (playFrame s fallNs dt) := by
  have hnone (h : s.clearing.isSome) : False := by
    rw [hc] at h
    cases h
  have ha : Steers s (autoShift s dt) := steers_autoShift
  unfold playFrame
  dsimp only
  generalize autoShift s dt = a at ha
  split
  · next hg =>
    split
    · exact turn_lock hs (ha.trans ⟨rfl, rfl, rfl, rfl, id⟩) hg hc
    · exact steers_good hs (ha.trans ⟨rfl, rfl, rfl, rfl, id⟩) fun h => (hnone h).elim
  · exact steers_good hs (ha.trans (steers_fallen rfl)) fun h => (hnone h).elim

/-- Nothing is locked in the first frame of a game. -/
theorem steers_playFrame {fallNs : UInt32 → Nat} (h : s.lockAccum = 0) :
    Steers s (playFrame s fallNs 0) := by
  have ha : Steers s (autoShift s 0) := steers_autoShift
  have hl : (autoShift s 0).lockAccum = 0 := lockAccum_autoShift h
  unfold playFrame
  dsimp only
  generalize autoShift s 0 = a at ha hl
  split
  · rw [if_neg (by rw [hl]; decide)]
    exact ha.trans ⟨rfl, rfl, rfl, rfl, id⟩
  · exact ha.trans (steers_fallen rfl)

theorem turn_clearFrame {dt : Nat} {rows : List (Fin ROWS)} {elapsed : Nat} (hs : Sound s)
    (hc : s.clearing = some (rows, elapsed)) :
    Sound (clearFrame s dt rows elapsed) ∧ Turn s (clearFrame s dt rows elapsed) := by
  unfold clearFrame
  dsimp only
  split
  · exact turn_finishClear hs hc _
  · obtain ⟨hr, hne⟩ := hs.shown rows elapsed hc
    refine ⟨⟨fun h => (by cases h), fun h => (by cases h), fun rows' e h => ?_, fun _ => ?_⟩, ?_⟩
    · cases h
      exact ⟨hr, hne⟩
    · exact hs.locked (by rw [hc]; rfl)
    · exact .kept rfl (by rw [hc]; rfl) fun _ => rfl

/-- What a frame does after the first one of a game. -/
theorem turn_advance {fallNs : UInt32 → Nat} {tally : Tally} {dt : Nat} (hs : Sound s) :
    Sound (advance { s with tally } fallNs dt) ∧ Turn s (advance { s with tally } fallNs dt) := by
  have ha : Aside s { s with tally } := ⟨rfl, rfl, rfl, rfl⟩
  refine ha.before hs fun hs' => ?_
  unfold advance
  split
  · next rows elapsed hc => exact turn_clearFrame hs' hc
  · next hc =>
    split
    · exact Aside.good hs' ⟨rfl, rfl, rfl, rfl⟩
    · exact turn_playFrame hs' hc

theorem start_spec (saved : Saved) (nanos : Nat) (hs : Sound s) (hc : s.clearing = none) :
    Sound (start s saved nanos) ∧ (start s saved nanos).board = s.board ∧
      (start s saved nanos).clearing = none ∧ (start s saved nanos).lockAccum = 0 ∧
      (start s saved nanos).lastNs = nanos := by
  have hnone (h : s.clearing.isSome) : False := by
    rw [hc] at h
    cases h
  have hf := hs.notFull hc
  unfold start spawnNext loadSettings
  dsimp only
  generalize refillQueue s.queue _ = q
  generalize q.1.headD 0 = k
  unfold spawn
  dsimp only
  split
  · exact ⟨⟨fun _ h => (by cases h), fun _ => hf, fun rows e h => (by cases hc.symm.trans h),
      fun h => (hnone h).elim⟩, rfl, hc, rfl, rfl⟩
  · next hfits =>
    exact ⟨⟨fun _ _ => Bool.eq_false_iff.2 hfits, fun _ => hf,
      fun rows e h => (by cases hc.symm.trans h), fun h => (hnone h).elim⟩, rfl, hc, rfl, rfl⟩

/-- In the first frame of a game a piece comes, and no more than moves. -/
theorem turn_first {fallNs : UInt32 → Nat} {tally : Tally} (hs : Sound s')
    (hb : s'.board = s.board) (hc : s.clearing = none) (hc' : s'.clearing = none)
    (hl : s'.lockAccum = 0) :
    Sound (advance { s' with tally } fallNs 0) ∧ Turn s (advance { s' with tally } fallNs 0) := by
  have hst : Steers s' (advance { s' with tally } fallNs 0) := by
    have ha : Steers s' { s' with tally } := ⟨rfl, rfl, rfl, rfl, id⟩
    unfold advance
    split
    · next hsome => cases hc'.symm.trans hsome
    · split
      · exact ha
      · exact ha.trans (steers_playFrame hl)
  refine ⟨hs.of_steers hst fun h => ?_, .kept (hst.board.trans hb) ?_ fun h => ?_⟩
  · rw [hc'] at h
    cases h
  · rw [hst.clearing, hc', hc]
  · rw [hc] at h
    cases h

/-! ## Keys -/

/-- The state of a new game. -/
theorem sound_new (hb : s.board = .empty) (hp : s.piece = ⟨0, 0, 3, 0⟩) (hc : s.clearing = none) :
    Sound s := by
  have hempty : collides Board.empty ⟨0, 0, 3, 0⟩ = false := by decide
  refine ⟨fun _ _ => ?_, fun _ => ?_, fun rows elapsed h => ?_, fun h => ?_⟩
  · rw [hb, hp]
    exact hempty
  · rw [hb]
    exact fullRows_empty
  · rw [hc] at h
    cases h
  · rw [hc] at h
    cases h

theorem sound_reset {zero : F} : Sound (reset s zero) ∧ Turn s (reset s zero) :=
  ⟨sound_new rfl rfl rfl, .restarted rfl rfl⟩

theorem turn_hold (hs : Sound s) (hc : s.clearing.isSome → s.canHold = false) :
    Sound (hold s) ∧ Turn s (hold s) := by
  by_cases h : s.clearing = none
  · obtain ⟨hsound, hb, hcl⟩ := hold_spec h hs
    refine ⟨hsound, .kept hb (congrArg _ hcl) fun hsome => ?_⟩
    rw [h] at hsome
    cases hsome
  · have hsame : hold s = s := by
      unfold hold
      rw [hc (Option.isSome_iff_ne_none.2 h)]
      rfl
    rw [hsame]
    exact Aside.good hs ⟨rfl, rfl, rfl, rfl⟩

theorem turn_playKey {code : String} (hs : Sound s) :
    Sound (playKey s code) ∧ Turn s (playKey s code) := by
  have haside : Aside s s := ⟨rfl, rfl, rfl, rfl⟩
  unfold playKey
  split
  · exact haside.good hs
  · next hg =>
    have hnone (h : s.clearing.isSome) : False := hg (by rw [h, Bool.or_true])
    split
    · exact steers_good hs steers_tryMove fun h => (hnone h).elim
    split
    · exact steers_good hs steers_tryMove fun h => (hnone h).elim
    split
    · exact Aside.good hs ⟨rfl, rfl, rfl, rfl⟩
    split
    · exact steers_good hs steers_rotate fun h => (hnone h).elim
    split
    · exact steers_good hs steers_rotate fun h => (hnone h).elim
    split
    · exact turn_hold hs fun h => (hnone h).elim
    split
    · exact turn_hardDrop hs
    · exact haside.good hs

theorem turn_handleKey {zero : F} {code : String} {down : Bool} (hs : Sound s) :
    Sound (handleKey s zero code down) ∧ Turn s (handleKey s zero code down) := by
  unfold handleKey
  split
  · split
    · exact sound_reset
    split
    · split <;> exact Aside.good hs ⟨rfl, rfl, rfl, rfl⟩
    split
    · exact Aside.good hs ⟨rfl, rfl, rfl, rfl⟩
    split
    · exact Aside.good hs ⟨rfl, rfl, rfl, rfl⟩
    · exact turn_playKey hs
  · split <;> exact Aside.good hs ⟨rfl, rfl, rfl, rfl⟩

/-! ## Touches -/

/-- A button does nothing to a piece that is on the board. -/
def Inert (s : State F) : Button → Prop
  | .left => collides s.board (s.piece.shift (-1)) = true
  | .right => collides s.board (s.piece.shift 1) = true
  | .ccw => Stuck s false
  | .cw => Stuck s true
  | .hold => s.canHold = false
  | .soft | .hard | .pause => True

def InertGesture (s : State F) : Gesture → Prop
  | .tap => Stuck s true
  | .swipe steps => steps = 0 ∨ collides s.board (s.piece.shift steps.sign) = true
  | .flick | .drag _ | .up => True

theorem rotate_of_stuck {cw : Bool} (h : Stuck s cw) : rotate s cw = s := by
  unfold rotate
  split
  · rfl
  · next hk =>
    have hall := h.resolve_left hk
    have hnone : ((turned s.piece cw).find? fun t => !collides s.board t.1) = none := by
      refine List.find?_eq_none.2 fun t ht => ?_
      rw [hall t ht]
      exact Bool.false_ne_true
    rw [hnone]

theorem tryMove_of_collides {dx : Int} (h : collides s.board (s.piece.shift dx) = true) :
    tryMove s dx = (s, false) := if_pos h

theorem foldl_held (touches : List (Nat × Button)) :
    ∃ dir soft, touches.foldl held s = { s with moveDir := dir, touchSoft := soft } := by
  induction touches generalizing s with
  | nil => exact ⟨s.moveDir, s.touchSoft, rfl⟩
  | cons t touches ih =>
    rw [List.foldl_cons]
    unfold held
    split <;> exact ih

theorem exists_recomputeHeld :
    ∃ dir soft, recomputeHeld s = { s with moveDir := dir, touchSoft := soft } :=
  foldl_held (s := { s with moveDir := 0, touchSoft := false }) s.touches

/-- A button that moves the piece is pressed. -/
theorem turn_pressMove {dx : Int} {t : Nat × Button} (hs : Sound s)
    (hi : s.clearing.isSome → collides s.board (s.piece.shift dx) = true) :
    Sound { (tryMove (recomputeHeld { s with touches := s.touches ++ [t] }) dx).1 with
        das := 0, dasStarted := false } ∧
      Turn s { (tryMove (recomputeHeld { s with touches := s.touches ++ [t] }) dx).1 with
        das := 0, dasStarted := false } := by
  obtain ⟨dir, soft, he⟩ := exists_recomputeHeld (s := { s with touches := s.touches ++ [t] })
  rw [he]
  have hm : Steers { s with touches := s.touches ++ [t], moveDir := dir, touchSoft := soft }
      (tryMove { s with touches := s.touches ++ [t], moveDir := dir, touchSoft := soft } dx).1 :=
    steers_tryMove
  refine steers_good hs ⟨hm.board, hm.clearing, hm.gameOver, hm.kind, hm.fits⟩ fun h => ?_
  have hc := tryMove_of_collides
    (s := { s with touches := s.touches ++ [t], moveDir := dir, touchSoft := soft }) (hi h)
  dsimp only at hc ⊢
  rw [hc]

theorem turn_rotate {cw : Bool} (hs : Sound s) (hi : s.clearing.isSome → Stuck s cw) :
    Sound (rotate s cw) ∧ Turn s (rotate s cw) :=
  steers_good hs steers_rotate fun h => by rw [rotate_of_stuck (hi h)]

theorem turn_pressButton {btn : Button} {id : Nat} (hs : Sound s)
    (hi : s.clearing.isSome → Inert s btn) :
    Sound (pressButton s btn id) ∧ Turn s (pressButton s btn id) := by
  cases btn with
  | left => exact turn_pressMove hs hi
  | right => exact turn_pressMove hs hi
  | ccw => exact turn_rotate hs hi
  | cw => exact turn_rotate hs hi
  | soft =>
    obtain ⟨dir, soft, he⟩ :=
      exists_recomputeHeld (s := { s with touches := s.touches ++ [(id, .soft)] })
    unfold pressButton
    rw [he]
    exact Aside.good hs ⟨rfl, rfl, rfl, rfl⟩
  | hard => exact turn_hardDrop hs
  | hold => exact turn_hold hs hi
  | pause => exact Aside.good hs ⟨rfl, rfl, rfl, rfl⟩

theorem dragLoop_of_grounded {n : Nat} (h : grounded s = true) : dragLoop n s = s := by
  cases n with
  | zero => rfl
  | succ n => exact if_pos h

theorem swipeLoop_of_collides {dir : Int} {n : Nat}
    (h : collides s.board (s.piece.shift dir) = true) : swipeLoop dir n s = s := by
  cases n with
  | zero => rfl
  | succ n => rw [swipeLoop, tryMove_of_collides h]

theorem turn_boardGesture {g : Gesture} (hs : Sound s)
    (hi : s.clearing.isSome → InertGesture s g) :
    Sound (boardGesture s g) ∧ Turn s (boardGesture s g) := by
  cases g with
  | tap => exact turn_rotate hs hi
  | flick => exact turn_hardDrop hs
  | drag steps =>
    exact steers_good hs steers_dragLoop fun h => congrArg _ (dragLoop_of_grounded (hs.locked h).2)
  | swipe steps =>
    refine steers_good hs steers_swipeLoop fun h => ?_
    rcases hi h with rfl | hc
    · rfl
    · exact congrArg _ (swipeLoop_of_collides hc)
  | up => exact Aside.good hs ⟨rfl, rfl, rfl, rfl⟩

section
variable [Coord F] {ev : PointerEvent F}

/-- The end of a touch of a button changes nothing else. -/
theorem releaseButton_spec (s : State F) (ev : PointerEvent F) : Aside s (releaseButton s ev) ∧
    endedGesture (releaseButton s ev) ev = endedGesture s ev := by
  unfold releaseButton
  split
  · next pos _ =>
    obtain ⟨dir, soft, he⟩ :=
      exists_recomputeHeld (s := { s with touches := s.touches.eraseIdx pos })
    rw [he]
    dsimp only
    split <;> exact ⟨⟨rfl, rfl, rfl, rfl⟩, rfl⟩
  · exact ⟨⟨rfl, rfl, rfl, rfl⟩, rfl⟩

open Coord

/-- A touch does nothing to a piece that is on the board. -/
def Harmless (s : State F) (ev : PointerEvent F) : Prop :=
  match ev.kind with
  | .down =>
    inRect ((screen s).muteRect (max s.h (lit 1 1))) ev.x ev.y = true ∨
      inRect ((screen s).exitRect (max s.h (lit 1 1))) ev.x ev.y = true ∨
      s.gameOver = true ∨ s.paused = true ∨
      ∀ btn, (screen s).button ev.x ev.y = some btn → Inert s btn
  | .up | .cancel | .leave => ∀ g, endedGesture s ev = some g → InertGesture s g
  | .move | .scroll | .enter => True

theorem turn_pointerDown (hs : Sound s) (hk : ev.kind = .down)
    (hi : s.clearing.isSome → Harmless s ev) :
    Sound (pointerDown s ev) ∧ Turn s (pointerDown s ev) := by
  unfold Harmless at hi
  rw [hk] at hi
  unfold pointerDown
  dsimp only
  split
  · exact Aside.good hs ⟨rfl, rfl, rfl, rfl⟩
  next hmute =>
  split
  · exact Aside.good hs ⟨rfl, rfl, rfl, rfl⟩
  next hexit =>
  split
  · exact sound_reset
  next hgo =>
  split
  · exact Aside.good hs ⟨rfl, rfl, rfl, rfl⟩
  next hp =>
  split
  · next btn hb =>
    refine turn_pressButton hs fun h => ?_
    rcases hi h with h | h | h | h | h
    · exact absurd h hmute
    · exact absurd h hexit
    · exact absurd h hgo
    · exact absurd h hp
    · exact h btn hb
  · split <;> exact Aside.good hs ⟨rfl, rfl, rfl, rfl⟩

theorem turn_pointerUp (hs : Sound s)
    (hi : s.clearing.isSome → ∀ g, endedGesture s ev = some g → InertGesture s g) :
    Sound (pointerUp s ev) ∧ Turn s (pointerUp s ev) := by
  obtain ⟨ha, he⟩ := releaseButton_spec s ev
  unfold pointerUp
  dsimp only
  rw [he]
  cases hg : endedGesture s ev with
  | none => exact ha.good hs
  | some g =>
    refine ha.before hs fun hs' => ?_
    have hinert : (releaseButton s ev).clearing.isSome → InertGesture (releaseButton s ev) g := by
      intro h
      have hi' := hi (ha.clearing ▸ h) g hg
      unfold InertGesture Stuck at hi' ⊢
      rw [ha.board, ha.piece]
      exact hi'
    exact Aside.after (turn_boardGesture hs' hinert) ⟨rfl, rfl, rfl, rfl⟩

theorem turn_handlePointer (hs : Sound s) (hi : s.clearing.isSome → Harmless s ev) :
    Sound (handlePointer s ev) ∧ Turn s (handlePointer s ev) := by
  unfold handlePointer
  split
  · next hk => exact turn_pointerDown hs hk hi
  · next hk =>
    refine turn_pointerUp hs fun h => ?_
    have hh := hi h
    unfold Harmless at hh
    rw [hk] at hh
    exact hh
  · next hk =>
    refine turn_pointerUp hs fun h => ?_
    have hh := hi h
    unfold Harmless at hh
    rw [hk] at hh
    exact hh
  · next hk =>
    refine turn_pointerUp hs fun h => ?_
    have hh := hi h
    unfold Harmless at hh
    rw [hk] at hh
    exact hh
  all_goals exact Aside.good hs ⟨rfl, rfl, rfl, rfl⟩

/-! ## Runs -/

/-- Nothing comes to the piece while rows are shown: no touch that would move it, and no new game in
which the next piece has not come yet. -/
def Undisturbed (s : State F) (ev : Event F) : Prop :=
  s.clearing.isSome →
    match ev with
    | .frame .. => s.started = true
    | .pointer ev => Harmless s ev
    | _ => True

theorem turn_onFrame {fallNs : UInt32 → Nat} {width height : F} {saved : Saved} {nanos : Nat}
    (hs : Sound s) (hi : s.clearing.isSome → s.started = true) :
    Sound (onFrame s fallNs width height saved nanos) ∧
      Turn s (onFrame s fallNs width height saved nanos) := by
  have ha : Aside s (if le s.w (lit 0 1) then { s with w := width, h := height } else s) := by
    split <;> exact ⟨rfl, rfl, rfl, rfl⟩
  have hstarted :
      (if le s.w (lit 0 1) then { s with w := width, h := height } else s).started = s.started := by
    split <;> rfl
  unfold onFrame
  dsimp only
  generalize (if le s.w (lit 0 1) then { s with w := width, h := height } else s) = a
    at ha hstarted
  refine ha.before hs fun hs' => ?_
  by_cases hst : s.started = true
  · rw [if_pos (hstarted.trans hst)]
    exact Aside.after (turn_advance hs') ⟨rfl, rfl, rfl, rfl⟩
  · have hc : a.clearing = none := by
      rw [ha.clearing]
      exact Option.not_isSome_iff_eq_none.1 fun h => hst (hi h)
    rw [if_neg fun h => hst (hstarted.symm.trans h)]
    obtain ⟨hsound, hb, hc', hl, hlast⟩ := start_spec saved nanos hs' hc
    have hsame : Min.min (nanos - (start a saved nanos).lastNs) (LOCK_DELAY_NS * 4) = 0 := by
      rw [hlast, Nat.sub_self]
      rfl
    rw [hsame]
    exact Aside.after (turn_first hsound hb hc hc' hl) ⟨rfl, rfl, rfl, rfl⟩

theorem turn_step {fallNs : UInt32 → Nat} {ev : Event F} (hs : Sound s) (hi : Undisturbed s ev) :
    Sound (step s fallNs ev) ∧ Turn s (step s fallNs ev) := by
  cases ev with
  | frame width height saved nanos => exact turn_onFrame hs hi
  | resize width height => exact Aside.good hs ⟨rfl, rfl, rfl, rfl⟩
  | key code down => exact turn_handleKey hs
  | pointer ev => exact turn_handlePointer hs hi
  | background =>
    unfold step
    dsimp only
    split <;> exact Aside.good hs ⟨rfl, rfl, rfl, rfl⟩

/-- After the first frame, in a run in which nothing comes to the piece while rows are shown, the
piece that is played fits, no row is full but those that are shown, and each step does to the board
what it should. -/
theorem board_kept (fallNs : UInt32 → Nat) (width height : F) (saved : Saved) (nanos : Nat)
    (h : Run (step · fallNs ·) Undisturbed (onFrame initial fallNs width height saved nanos) s) :
    (s.clearing = none → s.gameOver = false →
      (∀ c ∈ s.piece.cells, 0 ≤ c.1 ∧ c.1 < COLS ∧ c.2 < ROWS ∧ occupied s.board c = false) ∧
        ∀ ry, ∃ cx, s.board ry cx = none) ∧
      ∀ ev, Undisturbed s ev → Turn s (step s fallNs ev) := by
  have h₀ : Sound (onFrame (initial : State F) fallNs width height saved nanos) :=
    (turn_onFrame (sound_new rfl rfl rfl) fun h => by cases h).1
  have hs := h.invariant h₀ fun ev hs hi => (turn_step hs hi).1
  refine ⟨fun hc hg => ⟨fits_of_not_collides (hs.fits hc hg), fun ry => ?_⟩,
    fun ev hi => (turn_step hs hi).2⟩
  by_contra hn
  have hfull : ry ∈ s.board.fullRows := by
    refine mem_fullRows.2 fun cx => ?_
    by_contra hcx
    exact hn ⟨cx, Option.not_isSome_iff_eq_none.1 hcx⟩
  rw [hs.notFull hc] at hfull
  cases hfull

end

/-! ## A row that is filled -/

instance coordRat : Coord ℚ where
  lit n d := mkRat n d
  lt x y := decide (x < y)
  le x y := decide (x ≤ y)
  max x y := if x ≤ y then y else x
  min x y := if x ≤ y then x else y
  abs x := if x ≤ 0 then -x else x
  floor x := x.floor
  toI32 x := x.num.tdiv x.den

def everySecond (_ : UInt32) : Nat := 1000000000

def noneSaved : Saved := ⟨0, none, none, none, none⟩

/-- The first pieces are L, I and J. -/
def dealt : State ℚ := onFrame initial everySecond 1000 2000 noneSaved 5

/-- The three pieces are dropped next to each other. -/
def fillRow : List (Event ℚ) :=
  (["Space"] ++ List.replicate 3 "ArrowRight" ++ ["Space"] ++ List.replicate 3 "ArrowLeft" ++
    ["Space"]).map fun code => .key code true

def rowFilled : State ℚ := fillRow.foldl (step · everySecond ·) dealt

/-- The rows have been shown for long enough. -/
def nextFrame : Event ℚ := .frame 1000 2000 noneSaved 300000005

theorem run_fillRow {Ok : State ℚ → Event ℚ → Prop}
    (h : ∀ s code down, Ok s (.key code down)) : Run (step · everySecond ·) Ok dealt rowFilled := by
  refine run_of_goes ?_
  have hgoes (codes : List String) (s : State ℚ) :
      Goes (step · everySecond ·) Ok s (codes.map fun code => .key code true) := by
    induction codes generalizing s with
    | nil => exact trivial
    | cons code codes ih => exact ⟨h s code true, ih _⟩
  exact hgoes _ dealt

theorem board_kept_filled :
    (∀ c ∈ (step rowFilled everySecond nextFrame).piece.cells, 0 ≤ c.1 ∧ c.1 < COLS ∧
        c.2 < ROWS ∧ occupied (step rowFilled everySecond nextFrame).board c = false) ∧
      ∀ ry, ∃ cx, (step rowFilled everySecond nextFrame).board ry cx = none := by
  have hrun : Run (step · everySecond ·) Undisturbed dealt rowFilled :=
    run_fillRow fun _ _ _ _ => trivial
  have hstarted : rowFilled.started = true := by decide +kernel
  have hnext := Run.step nextFrame hrun fun _ => hstarted
  exact (board_kept everySecond 1000 2000 noneSaved 5 hnext).1 (by decide +kernel)
    (by decide +kernel)

/-- The button that holds a piece is touched while the row is shown. -/
def holdTouch : Event ℚ := .pointer ⟨0, .down, 600, 1900⟩

/-- The next piece comes on that touch, while the row is shown. -/
theorem held_while_shown : ¬ ∀ s : State ℚ,
    Run (step · everySecond ·) (fun _ _ => True) dealt s →
      ∀ ev, s.clearing.isSome → (step s everySecond ev).clearing.isSome →
        (step s everySecond ev).piece = s.piece := by
  intro h
  have hsame := h rowFilled (run_fillRow fun _ _ _ => trivial) holdTouch (by decide +kernel)
    (by decide +kernel)
  revert hsame
  decide +kernel

end Wandr.Tetris
