import Mathlib.Data.Fintype.Pi
import Mathlib.Data.List.FinRange

/-!
# Tetris

The game as it takes frames, keys and touches. A lock has two parts: the piece goes to the board and
full rows are noted, and after an animation they are taken out and the next piece comes.

* `lockAndNext`, `finishClear`: the two parts of a lock;
* `onFrame`, `handleKey`, `handlePointer`: what the game takes.
-/

namespace Wandr.Tetris

abbrev COLS : Nat := 10

abbrev ROWS : Nat := 20

def NEXT_SHOWN : Nat := 5

def LOCK_DELAY_NS : Nat := 500000000

def MAX_LOCK_RESETS : Nat := 15

def DAS_NS : Nat := 170000000

def ARR_NS : Nat := 45000000

def CLEAR_ANIM_NS : Nat := 200000000

def LEVELUP_FLASH_NS : Nat := 450000000

def BANNER_NS : Nat := 900000000

/-! ## Pieces -/

/-- I, O, T, S, Z, J, L. -/
abbrev Kind := Fin 7

abbrev Rot := Fin 4

/-- The columns and rows of the cells of a piece in its box, turned. -/
def SHAPES : Vector (Vector (List (Int × Int)) 4) 7 := #v[
  #v[[(0, 1), (1, 1), (2, 1), (3, 1)],
    [(2, 0), (2, 1), (2, 2), (2, 3)],
    [(0, 2), (1, 2), (2, 2), (3, 2)],
    [(1, 0), (1, 1), (1, 2), (1, 3)]],
  #v[[(1, 0), (2, 0), (1, 1), (2, 1)],
    [(1, 0), (2, 0), (1, 1), (2, 1)],
    [(1, 0), (2, 0), (1, 1), (2, 1)],
    [(1, 0), (2, 0), (1, 1), (2, 1)]],
  #v[[(1, 0), (0, 1), (1, 1), (2, 1)],
    [(1, 0), (1, 1), (2, 1), (1, 2)],
    [(0, 1), (1, 1), (2, 1), (1, 2)],
    [(1, 0), (0, 1), (1, 1), (1, 2)]],
  #v[[(1, 0), (2, 0), (0, 1), (1, 1)],
    [(1, 0), (1, 1), (2, 1), (2, 2)],
    [(1, 1), (2, 1), (0, 2), (1, 2)],
    [(0, 0), (0, 1), (1, 1), (1, 2)]],
  #v[[(0, 0), (1, 0), (1, 1), (2, 1)],
    [(2, 0), (1, 1), (2, 1), (1, 2)],
    [(0, 1), (1, 1), (1, 2), (2, 2)],
    [(1, 0), (0, 1), (1, 1), (0, 2)]],
  #v[[(0, 0), (0, 1), (1, 1), (2, 1)],
    [(1, 0), (2, 0), (1, 1), (1, 2)],
    [(0, 1), (1, 1), (2, 1), (2, 2)],
    [(1, 0), (1, 1), (0, 2), (1, 2)]],
  #v[[(2, 0), (0, 1), (1, 1), (2, 1)],
    [(1, 0), (1, 1), (1, 2), (2, 2)],
    [(0, 1), (1, 1), (2, 1), (0, 2)],
    [(0, 0), (1, 0), (1, 1), (1, 2)]]]

/-- Where a piece that is turned is tried, one after another; up is positive. -/
def kicks (isI : Bool) (src dst : Rot) : List (Int × Int) :=
  if isI then
    match src.val, dst.val with
    | 0, 1 => [(0, 0), (-2, 0), (1, 0), (-2, -1), (1, 2)]
    | 1, 0 => [(0, 0), (2, 0), (-1, 0), (2, 1), (-1, -2)]
    | 1, 2 => [(0, 0), (-1, 0), (2, 0), (-1, 2), (2, -1)]
    | 2, 1 => [(0, 0), (1, 0), (-2, 0), (1, -2), (-2, 1)]
    | 2, 3 => [(0, 0), (2, 0), (-1, 0), (2, 1), (-1, -2)]
    | 3, 2 => [(0, 0), (-2, 0), (1, 0), (-2, -1), (1, 2)]
    | 3, 0 => [(0, 0), (1, 0), (-2, 0), (1, -2), (-2, 1)]
    | 0, 3 => [(0, 0), (-1, 0), (2, 0), (-1, 2), (2, -1)]
    | _, _ => List.replicate 5 (0, 0)
  else
    match src.val, dst.val with
    | 0, 1 => [(0, 0), (-1, 0), (-1, 1), (0, -2), (-1, -2)]
    | 1, 0 => [(0, 0), (1, 0), (1, -1), (0, 2), (1, 2)]
    | 1, 2 => [(0, 0), (1, 0), (1, -1), (0, 2), (1, 2)]
    | 2, 1 => [(0, 0), (-1, 0), (-1, 1), (0, -2), (-1, -2)]
    | 2, 3 => [(0, 0), (1, 0), (1, 1), (0, -2), (1, -2)]
    | 3, 2 => [(0, 0), (-1, 0), (-1, -1), (0, 2), (-1, 2)]
    | 3, 0 => [(0, 0), (-1, 0), (-1, -1), (0, 2), (-1, 2)]
    | 0, 3 => [(0, 0), (1, 0), (1, 1), (0, -2), (1, -2)]
    | _, _ => List.replicate 5 (0, 0)

/-- A piece, turned and at a place; rows are counted down from the top. -/
structure Piece where
  kind : Kind
  rot : Rot
  x : Int
  y : Int
  deriving DecidableEq

namespace Piece

/-- The columns and rows of the cells of a piece. -/
def cells (p : Piece) : List (Int × Int) :=
  SHAPES[p.kind][p.rot].map fun d => (p.x + d.1, p.y + d.2)

def down (p : Piece) : Piece := { p with y := p.y + 1 }

def shift (p : Piece) (dx : Int) : Piece := { p with x := p.x + dx }

end Piece

/-! ## The board -/

/-- What is locked in each cell, by row and column. -/
abbrev Board := Fin ROWS → Fin COLS → Option Kind

def Board.empty : Board := fun _ _ => none

/-- A cell in the well is locked. -/
def occupied (b : Board) (c : Int × Int) : Bool :=
  if h : (0 ≤ c.1 ∧ c.1.toNat < COLS) ∧ 0 ≤ c.2 ∧ c.2.toNat < ROWS then
    (b ⟨c.2.toNat, h.2.2⟩ ⟨c.1.toNat, h.1.2⟩).isSome
  else false

/-- A cell is beside or below the well, or locked. -/
def blocked (b : Board) (c : Int × Int) : Bool :=
  c.1 < 0 || c.1 ≥ COLS || c.2 ≥ ROWS || occupied b c

def collides (b : Board) (p : Piece) : Bool := p.cells.any (blocked b)

/-- A cell is locked, if it is in the well. -/
def Board.put (b : Board) (kind : Kind) (c : Int × Int) : Board := fun ry cx =>
  if c.1 = cx.val ∧ c.2 = ry.val then some kind else b ry cx

def Board.lock (b : Board) (p : Piece) : Board := p.cells.foldl (fun b c => b.put p.kind c) b

def Board.isFull (b : Board) (ry : Fin ROWS) : Bool :=
  (List.finRange COLS).all fun cx => (b ry cx).isSome

def Board.fullRows (b : Board) : List (Fin ROWS) := (List.finRange ROWS).filter b.isFull

/-- A row is copied to the lowest row that is not written yet. -/
def copyRow (b : Board) (rows : List (Fin ROWS)) (acc : Board × Nat) (ry : Fin ROWS) :
    Board × Nat :=
  if ry ∈ rows then acc
  else (fun wy => if wy.val + 1 = acc.2 then b ry else acc.1 wy, acc.2 - 1)

/-- The rows that are not taken out are copied to an empty board, from the bottom. -/
def Board.collapse (b : Board) (rows : List (Fin ROWS)) : Board :=
  ((List.finRange ROWS).reverse.foldl (copyRow b rows) (Board.empty, ROWS)).1

/-! ## The state -/

/-- The score, and what is shown of it. -/
structure Tally where
  score : UInt32 := 0
  lines : UInt32 := 0
  level : UInt32 := 1
  combo : Int := -1
  b2b : Bool := false
  highScore : UInt32 := 0
  banner : Option (String × Nat) := none
  levelupFlash : Nat := 0

inductive Button
  | left
  | right
  | ccw
  | cw
  | soft
  | hard
  | hold
  | pause
  deriving DecidableEq

def Button.all : List Button := [.left, .right, .ccw, .cw, .soft, .hard, .hold, .pause]

structure State (F : Type) where
  board : Board := .empty
  piece : Piece := ⟨0, 0, 3, 0⟩
  queue : List Kind := []
  hold : Option Kind := none
  canHold : Bool := true
  tally : Tally := {}
  paused : Bool := false
  gameOver : Bool := false
  started : Bool := false
  rng : UInt64 := 0
  gravityAccum : Nat := 0
  lastNs : Nat := 0
  softDrop : Bool := false
  lockAccum : Nat := 0
  lockResets : Nat := 0
  touches : List (Nat × Button) := []
  moveDir : Int := 0
  das : Nat := 0
  dasStarted : Bool := false
  touchSoft : Bool := false
  boardTouch : Option (Nat × F × F × Nat) := none
  lastRot : Bool := false
  lastKick : Nat := 0
  /-- The rows that are taken out, and for how long they have been shown. -/
  clearing : Option (List (Fin ROWS) × Nat) := none
  ghostOn : Bool := true
  dasCfg : Nat := DAS_NS
  arrCfg : Nat := ARR_NS
  muted : Bool := false
  w : F
  h : F

/-! ## The next piece -/

def nextRng (x : UInt64) : UInt64 :=
  let x := x ^^^ (x <<< 13)
  let x := x ^^^ (x >>> 7)
  x ^^^ (x <<< 17)

/-- Two pieces of a bag change places. -/
def swap (bag : List Kind) (i j : Nat) : List Kind :=
  match bag[i]?, bag[j]? with
  | some a, some b => (bag.set i b).set j a
  | _, _ => bag

def shuffle (rng : UInt64) : List Kind × UInt64 :=
  [6, 5, 4, 3, 2, 1].foldl
    (fun acc i =>
      let rng := nextRng acc.2
      (swap acc.1 i (rng % (UInt64.ofNat i + 1)).toNat, rng))
    (List.finRange 7, rng)

/-- One bag is enough for the queue to be long enough. -/
def refillQueue (queue : List Kind) (rng : UInt64) : List Kind × UInt64 :=
  if queue.length ≤ NEXT_SHOWN then
    let bag := shuffle rng
    (queue ++ bag.1, bag.2)
  else (queue, rng)

variable {F : Type} (s : State F)

def spawn (kind : Kind) : State F :=
  let s := { s with
    piece := ⟨kind, 0, 3, 0⟩, gravityAccum := 0, lockAccum := 0, lockResets := 0, lastRot := false }
  if collides s.board s.piece then
    { s with
      gameOver := true
      tally := { s.tally with highScore := max s.tally.highScore s.tally.score } }
  else s

/-- The next piece of the queue comes. -/
def spawnNext : State F :=
  let q := refillQueue s.queue s.rng
  spawn { s with queue := q.1.tail, rng := q.2 } (q.1.headD 0)

/-! ## Moves -/

def grounded : Bool := collides s.board s.piece.down

def touchLockReset : State F :=
  if grounded s && s.lockResets < MAX_LOCK_RESETS then
    { s with lockAccum := 0, lockResets := s.lockResets + 1 }
  else s

def tryMove (dx : Int) : State F × Bool :=
  if collides s.board (s.piece.shift dx) then (s, false)
  else (touchLockReset { s with piece := s.piece.shift dx, lastRot := false }, true)

/-- The piece turned, at each place where it is tried, with the numbers of these. -/
def turned (p : Piece) (cw : Bool) : List (Piece × Nat) :=
  let dst := if cw then p.rot + 1 else p.rot + 3
  ((kicks (p.kind = 0) p.rot dst).map fun k => (⟨p.kind, dst, p.x + k.1, p.y - k.2⟩ : Piece)).zipIdx

def rotate (cw : Bool) : State F :=
  if s.piece.kind = 1 then s
  else
    match (turned s.piece cw).find? fun t => !collides s.board t.1 with
    | some (p, kick) => touchLockReset { s with piece := p, lastRot := true, lastKick := kick }
    | none => s

/-- The piece cannot be turned. -/
def Stuck (cw : Bool) : Prop :=
  s.piece.kind = 1 ∨ ∀ t ∈ turned s.piece cw, collides s.board t.1 = true

/-! ## The lock -/

/-- A corner of the box of a piece is beside or below the well, or locked. -/
def tspinKind : Nat :=
  if s.piece.kind ≠ 2 ∨ !s.lastRot then 0
  else
    let occ (dx dy : Int) : Bool := blocked s.board (s.piece.x + dx, s.piece.y + dy)
    let tl := occ 0 0
    let tr := occ 2 0
    let bl := occ 0 2
    let br := occ 2 2
    if tl.toNat + tr.toNat + bl.toNat + br.toNat < 3 then 0
    else
      let front := match s.piece.rot.val with
        | 0 => tl && tr
        | 1 => tr && br
        | 2 => bl && br
        | _ => tl && bl
      if front || s.lastKick = 4 then 2 else 1

def clearValue (tspin n : Nat) : UInt32 × Bool × String :=
  match tspin, n with
  | 2, 0 => (400, true, "T-SPIN")
  | 2, 1 => (800, true, "T-SPIN SINGLE")
  | 2, 2 => (1200, true, "T-SPIN DOUBLE")
  | 2, 3 => (1600, true, "T-SPIN TRIPLE")
  | 1, 0 => (100, true, "T-SPIN MINI")
  | 1, 1 => (200, true, "T-SPIN MINI")
  | 1, 2 => (400, true, "T-SPIN MINI")
  | _, 1 => (100, false, "SINGLE")
  | _, 2 => (300, false, "DOUBLE")
  | _, 3 => (500, false, "TRIPLE")
  | _, 4 => (800, true, "TETRIS")
  | _, _ => (0, false, "")

/-- The score of a lock that fills some rows. -/
def Tally.scored (t : Tally) (tspin n : Nat) : Tally :=
  let (base, difficult, name) := clearValue tspin n
  let t := { t with combo := if n > 0 then t.combo + 1 else -1 }
  let t :=
    if base > 0 then
      let pts := (if difficult && t.b2b then base * 3 / 2 else base) * t.level
      let score := t.score + pts
      let score :=
        if 0 < n ∧ (0 : Int) < t.combo then score + 50 * UInt32.ofNat t.combo.toNat * t.level
        else score
      let b2b := if difficult then true else if n > 0 then false else t.b2b
      let label :=
        if b2b && difficult && (name = "TETRIS" || name.startsWith "T-SPIN") then "B2B " ++ name
        else name
      { t with score, b2b, banner := some (label, BANNER_NS) }
    else t
  let t :=
    if n > 0 then
      let lines := t.lines + UInt32.ofNat n
      let level := lines / 10 + 1
      { t with
        lines, level
        levelupFlash := if level > t.level then LEVELUP_FLASH_NS else t.levelupFlash }
    else t
  { t with highScore := max t.highScore t.score }

/-- The piece goes to the board. The rows that are full then are shown for a time; without any, the
next piece comes at once. -/
def lockAndNext : State F :=
  let tspin := tspinKind s
  let board := s.board.lock s.piece
  let rows := board.fullRows
  let s := { s with board, tally := s.tally.scored tspin rows.length }
  if rows.isEmpty then { spawnNext s with canHold := true }
  else { s with clearing := some (rows, 0) }

/-- The rows are taken out, and the next piece comes. -/
def finishClear : State F :=
  match s.clearing with
  | some (rows, _) =>
    { spawnNext { s with clearing := none, board := s.board.collapse rows } with canHold := true }
  | none => s

def hold : State F :=
  if s.canHold then
    let cur := s.piece.kind
    let s' := match s.hold with
      | some h => spawn { s with hold := some cur } h
      | none => spawnNext { s with hold := some cur }
    { s' with canHold := false }
  else s

/-- How many rows a piece can go down at most. -/
def Piece.room (p : Piece) : Nat := (ROWS - p.y).toNat

/-- The piece falls, for two points a row. -/
def dropLoop : Nat → State F → State F
  | 0, s => s
  | n + 1, s =>
    if collides s.board s.piece.down then s
    else
      dropLoop n
        { s with piece := s.piece.down, tally := { s.tally with score := s.tally.score + 2 } }

def hardDrop : State F := lockAndNext (dropLoop s.piece.room s)

/-! ## Frames -/

def softActive : Bool := s.softDrop || s.touchSoft

/-- The time a piece falls by a row in, from that of its level. -/
def gravityNs (fallNs : UInt32 → Nat) : Nat :=
  if softActive s then max (fallNs s.tally.level / 20) 1000000
  else max (fallNs s.tally.level) 1000000

def fallLoop (interval : Nat) (soft : Bool) : Nat → State F → State F
  | 0, s => s
  | n + 1, s =>
    if interval ≤ s.gravityAccum then
      let s := { s with gravityAccum := s.gravityAccum - interval }
      if collides s.board s.piece.down then s
      else
        fallLoop interval soft n
          { s with
            piece := s.piece.down
            tally := { s.tally with score := s.tally.score + if soft then 1 else 0 } }
    else s

/-- What is read from the files of the game; nothing where there is none. -/
structure Saved where
  highScore : UInt32
  das : Option Nat
  arr : Option Nat
  ghost : Option Nat
  mute : Option Nat

def loadSettings (saved : Saved) : State F :=
  { s with
    dasCfg := (saved.das.map fun das => min das 1000 * 1000000).getD s.dasCfg
    arrCfg := (saved.arr.map fun arr => min arr 1000 * 1000000).getD s.arrCfg
    ghostOn := (saved.ghost.map fun g => decide (g ≠ 0)).getD s.ghostOn
    muted := (saved.mute.map fun m => decide (m ≠ 0)).getD s.muted }

/-- The first frame of a game. -/
def start (saved : Saved) (nanos : Nat) : State F :=
  let s := { s with
    rng := UInt64.ofNat nanos ||| 1
    lastNs := nanos
    tally := { s.tally with highScore := saved.highScore } }
  { spawnNext (loadSettings s saved) with canHold := true, started := true }

def Tally.fade (t : Tally) (dt : Nat) : Tally :=
  { t with
    banner := (t.banner.map fun b => (b.1, b.2 - dt)).filter fun b => b.2 ≠ 0
    levelupFlash := t.levelupFlash - dt }

/-- A frame while rows are shown. -/
def clearFrame (dt : Nat) (rows : List (Fin ROWS)) (elapsed : Nat) : State F :=
  let s := { s with clearing := some (rows, elapsed + dt) }
  if elapsed + dt ≥ CLEAR_ANIM_NS then finishClear s else s

/-- A button that is held moves the piece again after a time. -/
def autoShift (dt : Nat) : State F :=
  if s.moveDir ≠ 0 then
    let s := { s with das := s.das + dt }
    if s.das ≥ (if s.dasStarted then s.arrCfg else s.dasCfg) then
      { (tryMove s s.moveDir).1 with das := 0, dasStarted := true }
    else s
  else s

def playFrame (fallNs : UInt32 → Nat) (dt : Nat) : State F :=
  let s := autoShift s dt
  if grounded s then
    let s := { s with lockAccum := s.lockAccum + dt }
    if s.lockAccum ≥ LOCK_DELAY_NS then lockAndNext s else s
  else
    let s := { s with gravityAccum := s.gravityAccum + dt }
    let s := fallLoop (gravityNs s fallNs) (softActive s) (s.piece.room + 1) s
    { s with lockAccum := 0, lockResets := 0 }

/-! ## Keys -/

/-- A new game: the next frame is its first. -/
def reset (zero : F) : State F :=
  { rng := s.rng ||| 1, tally := { highScore := s.tally.highScore }, w := zero, h := zero }

/-- A key of the running game is pressed. -/
def playKey (code : String) : State F :=
  if s.paused || s.gameOver || s.clearing.isSome then s
  else if code = "ArrowLeft" then (tryMove s (-1)).1
  else if code = "ArrowRight" then (tryMove s 1).1
  else if code = "ArrowDown" then { s with softDrop := true }
  else if code = "ArrowUp" ∨ code = "KeyX" then rotate s true
  else if code = "KeyZ" then rotate s false
  else if code = "KeyC" ∨ code = "ShiftLeft" ∨ code = "ShiftRight" then hold s
  else if code = "Space" then hardDrop s
  else s

def handleKey (zero : F) (code : String) (down : Bool) : State F :=
  if down then
    if code = "KeyR" then reset s zero
    else if code = "KeyP" ∨ code = "Escape" then
      if s.gameOver then s else { s with paused := !s.paused }
    else if code = "KeyG" then { s with ghostOn := !s.ghostOn }
    else if code = "KeyM" then { s with muted := !s.muted }
    else playKey s code
  else if code = "ArrowDown" then { s with softDrop := false }
  else s

/-! ## Touches -/

def held (t : Nat × Button) : State F :=
  match t.2 with
  | .left => { s with moveDir := -1 }
  | .right => { s with moveDir := 1 }
  | .soft => { s with touchSoft := true }
  | _ => s

def recomputeHeld : State F := s.touches.foldl held { s with moveDir := 0, touchSoft := false }

def pressButton (btn : Button) (id : Nat) : State F :=
  match btn with
  | .left =>
    { (tryMove (recomputeHeld { s with touches := s.touches ++ [(id, btn)] }) (-1)).1 with
      das := 0, dasStarted := false }
  | .right =>
    { (tryMove (recomputeHeld { s with touches := s.touches ++ [(id, btn)] }) 1).1 with
      das := 0, dasStarted := false }
  | .soft => recomputeHeld { s with touches := s.touches ++ [(id, btn)] }
  | .ccw => rotate s false
  | .cw => rotate s true
  | .hard => hardDrop s
  | .hold => hold s
  | .pause => { s with paused := true }

/-- The arithmetic of the places on the screen; nothing is asked of it. -/
class Coord (F : Type) extends Add F, Sub F, Mul F, Div F where
  /-- A decimal number as a fraction. -/
  lit : Nat → Nat → F
  lt : F → F → Bool
  le : F → F → Bool
  max : F → F → F
  min : F → F → F
  abs : F → F
  floor : F → F
  toI32 : F → Int

open Coord

structure Rect (F : Type) where
  x : F
  y : F
  width : F
  height : F

def inRect [Coord F] (r : Rect F) (x y : F) : Bool :=
  le r.x x && le x (r.x + r.width) && le r.y y && le y (r.y + r.height)

structure Layout (F : Type) where
  w : F
  cell : F
  bx : F
  byTop : F
  boardW : F
  boardH : F
  margin : F
  ctrlY : F
  ctrlH : F

def layout [Coord F] (w h : F) : Layout F :=
  let margin := w * lit 2 100
  let topH := h * lit 165 1000
  let ctrlH := h * lit 17 100
  let ctrlY := h - ctrlH
  let bottom := ctrlY - margin
  let availH := max (bottom - topH - margin) (lit 1 1)
  let cell :=
    max (floor (min ((w - lit 2 1 * margin) / lit COLS 1) (availH / lit ROWS 1))) (lit 1 1)
  let boardW := cell * lit COLS 1
  let boardH := cell * lit ROWS 1
  { w, cell, boardW, boardH, margin, ctrlY, ctrlH
    bx := (w - boardW) * lit 5 10
    byTop := topH + (bottom - topH - boardH) * lit 5 10 }

namespace Layout

variable [Coord F] (l : Layout F)

/-- The place of the button with a number, in two rows of four. -/
def btnRect (i : Nat) : Rect F :=
  let gap := l.margin
  let bw := (l.w - lit 2 1 * l.margin - lit 3 1 * gap) / lit 4 1
  let bh := (l.ctrlH - l.margin - gap) / lit 2 1
  { x := l.margin + lit (i % 4) 1 * (bw + gap)
    y := l.ctrlY + l.margin * lit 5 10 + lit (i / 4) 1 * (bh + gap)
    width := bw
    height := bh }

def boardRect : Rect F := ⟨l.bx, l.byTop, l.boardW, l.boardH⟩

def exitRect (h : F) : Rect F :=
  let sz := h * lit 5 100
  ⟨l.w - l.margin - sz, l.margin * lit 5 10, sz, sz⟩

def muteRect (h : F) : Rect F :=
  let ex := l.exitRect h
  ⟨ex.x - ex.width - l.margin * lit 6 10, ex.y, ex.width, ex.height⟩

/-- The first button at a place. -/
def button (x y : F) : Option Button :=
  (Button.all.zipIdx.find? fun b => inRect (l.btnRect b.2) x y).map Prod.fst

end Layout

/-- What a touch of the board was. -/
inductive Gesture
  | tap
  | flick
  | drag (steps : Int)
  | swipe (steps : Int)
  | up

def gesture [Coord F] (cell sx sy ex ey : F) (dt : Nat) : Gesture :=
  let dx := ex - sx
  let dy := ey - sy
  if lt (abs dx) (cell * lit 6 10) && lt (abs dy) (cell * lit 6 10) then .tap
  else if le (abs dx) (abs dy) then
    if lt (lit 0 1) dy then
      if lt (cell * lit 4 1) dy && dt < 250000000 then .flick else .drag (toI32 (dy / cell))
    else .up
  else .swipe (toI32 (dx / cell))

/-- The piece goes down by some rows, as far as it can. -/
def dragLoop : Nat → State F → State F
  | 0, s => s
  | n + 1, s =>
    if collides s.board s.piece.down then s else dragLoop n { s with piece := s.piece.down }

def swipeLoop (dir : Int) : Nat → State F → State F
  | 0, s => s
  | n + 1, s =>
    match tryMove s dir with
    | (s, true) => swipeLoop dir n s
    | (s, false) => s

/-- The absolute value of a number of 32 bits, the least of which has none. -/
def absI32 (n : Int) : Int := if n = -2 ^ 31 then n else n.natAbs

def boardGesture : Gesture → State F
  | .tap => rotate s true
  | .flick => hardDrop s
  | .drag steps => dragLoop (Min.min steps ROWS).toNat s
  | .swipe steps => swipeLoop steps.sign (Min.min (absI32 steps) COLS).toNat s
  | .up => s

inductive PointerKind
  | down
  | up
  | move
  | scroll
  | cancel
  | enter
  | leave

structure PointerEvent (F : Type) where
  id : Nat
  kind : PointerKind
  x : F
  y : F

section
variable [Coord F] (ev : PointerEvent F)

def screen : Layout F := layout (max s.w (lit 1 1)) (max s.h (lit 1 1))

def pointerDown : State F :=
  let l := screen s
  if inRect (l.muteRect (max s.h (lit 1 1))) ev.x ev.y then { s with muted := !s.muted }
  -- The launcher comes to the front; the game stays as it is.
  else if inRect (l.exitRect (max s.h (lit 1 1))) ev.x ev.y then s
  else if s.gameOver then reset s (lit 0 1)
  else if s.paused then { s with paused := false }
  else
    match l.button ev.x ev.y with
    | some btn => pressButton s btn ev.id
    | none =>
      if inRect l.boardRect ev.x ev.y then
        { s with boardTouch := some (ev.id, ev.x, ev.y, s.lastNs) }
      else s

/-- A touch of a button ends. -/
def releaseButton : State F :=
  match s.touches.findIdx? fun t => t.1 = ev.id with
  | some pos =>
    let s := recomputeHeld { s with touches := s.touches.eraseIdx pos }
    if s.moveDir = 0 then { s with dasStarted := false } else s
  | none => s

/-- What a touch of the board was that ends. -/
def endedGesture : Option Gesture :=
  match s.boardTouch with
  | some (id, sx, sy, st) =>
    if id = ev.id then some (gesture (screen s).cell sx sy ev.x ev.y (s.lastNs - st)) else none
  | none => none

def pointerUp : State F :=
  let s := releaseButton s ev
  match endedGesture s ev with
  | some g => { boardGesture s g with boardTouch := none }
  | none => s

def handlePointer : State F :=
  match ev.kind with
  | .down => pointerDown s ev
  | .up | .cancel | .leave => pointerUp s ev
  | .move | .scroll | .enter => s

end

/-! ## What the game takes -/

inductive Event (F : Type)
  /-- A frame, with the size of the canvas and the files there are. -/
  | frame (width height : F) (saved : Saved) (nanos : Nat)
  | resize (width height : F)
  | key (code : String) (down : Bool)
  | pointer (ev : PointerEvent F)
  /-- The app is paused or stopped. -/
  | background

/-- While rows are shown nothing falls. -/
def advance (fallNs : UInt32 → Nat) (dt : Nat) : State F :=
  match s.clearing with
  | some (rows, elapsed) => clearFrame s dt rows elapsed
  | none => if s.paused || s.gameOver then s else playFrame s fallNs dt

variable [Coord F]

def onFrame (fallNs : UInt32 → Nat) (width height : F) (saved : Saved) (nanos : Nat) : State F :=
  let s := if le s.w (lit 0 1) then { s with w := width, h := height } else s
  let s := if s.started then s else start s saved nanos
  let dt := Min.min (nanos - s.lastNs) (LOCK_DELAY_NS * 4)
  { advance { s with tally := s.tally.fade dt } fallNs dt with lastNs := nanos }

def step (fallNs : UInt32 → Nat) : Event F → State F
  | .frame width height saved nanos => onFrame s fallNs width height saved nanos
  | .resize width height => { s with w := width, h := height }
  | .key code down => handleKey s (lit 0 1) code down
  | .pointer ev => handlePointer s ev
  | .background => if s.started && !s.gameOver then { s with paused := true } else s

def initial : State F := { w := lit 0 1, h := lit 0 1 }

end Wandr.Tetris
