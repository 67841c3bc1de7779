import Mathlib.Data.List.Find
import Wandr.Arbiter.Stage
import Wandr.Arbiter.Wm
import Wandr.Lib.StableSort
import Wandr.Lib.Strips

/-!
# The input windows

The arbiter authors the windows that touches and keys go to: one for each visible surface, with
its rectangle and whether it takes keys, from the top of the stack to the bottom, and the process
that has the key focus.

* `Wm.stripRect` is where a bar or the keyboard is, for each orientation;
* `Wm.inputWindows` are the windows, `Wm.inputWindowBlock` the text that is pushed;
* `Wm.input_window_list`: the focus is looked up by roles, and is the topmost window that takes
  keys.
-/

namespace Wandr.Wm

open Text Strips

/-! ## The block -/

/-- A word of 32 bits with its sign. -/
def i32 (x : Int) : Int := x.bmod (2 ^ 32)

/-- The edge of the panel that is at the bottom for the user. -/
def userBottom (orient : Nat) : Edge :=
  match orient with
  | 3 => .n
  | 4 => .w
  | 7 => .e
  | _ => .s

/-- A strip of a thickness along the user's bottom or top, moved inward. -/
def stripRect (atBottom : Bool) (th off : Int) (orient : Nat) (pw ph : Int) : Rect :=
  match if atBottom then userBottom orient else (userBottom orient).opposite with
  | .s => ⟨0, i32 (i32 (ph - off) - th), pw, i32 (ph - off)⟩
  | .n => ⟨0, off, pw, i32 (off + th)⟩
  | .w => ⟨off, 0, i32 (off + th), ph⟩
  | .e => ⟨i32 (i32 (pw - off) - th), 0, i32 (pw - off), ph⟩

/-! The heights in the stack of windows. -/

def zStatusBar : Int := 100
def zLockscreen : Int := 90
def zIme : Int := 85
def zTaskbar : Int := 80
def zApp : Int := 10

/-- A window: keys go to it when it is focusable. -/
structure InputWin where
  pid : Pid
  z : Int
  rect : Rect
  focusable : Bool
  deriving DecidableEq

/-- The window of a surface, on a panel with some insets and a keyboard. -/
def inputWin (orient : Nat) (w h insetTop insetBottom kb : Int) (f : Surface) : Option InputWin :=
  match f.role with
  | .foreground | .overlayBehind => some ⟨f.pid, zApp, ⟨0, 0, w, h⟩, true⟩
  | .lockscreen => some ⟨f.pid, zLockscreen, ⟨0, 0, w, h⟩, true⟩
  | .overlay =>
    if kb ≤ 0 then none
    else some ⟨f.pid, zIme, stripRect true kb insetBottom orient w h, false⟩
  | .chrome =>
    match f.anchor with
    | some .top =>
      if insetTop ≤ 0 then none
      else some ⟨f.pid, zStatusBar, stripRect false insetTop 0 orient w h, false⟩
    | some .bottom =>
      if insetBottom ≤ 0 then none
      else some ⟨f.pid, zTaskbar, stripRect true insetBottom 0 orient w h, false⟩
    | none => none
  | .background | .headless => none

/-- What is authored: the windows from the top to the bottom, and the process with the focus. -/
structure InputBlock where
  orient : Nat
  panelW : Int
  panelH : Int
  wins : List InputWin
  focus : Pid

def winLine (w : InputWin) : String :=
  s!"win {w.pid} {w.rect.l} {w.rect.t} {w.rect.r} {w.rect.b} {bit w.focusable}\n"

def InputBlock.render (k : InputBlock) : String :=
  s!"win-begin {k.orient} {k.panelW} {k.panelH}\n" ++ String.join (k.wins.map winLine) ++
    s!"win-focus {k.focus}\n" ++ "win-commit\n"

section

variable [Fpu]

end

/-! ## The windows of the surfaces -/

section

variable {orient : Nat} {w h it ib kb : Int} {f : Surface} {x : InputWin}

/-- The surfaces with the windows that take keys. -/
def takesKeys : Role → Bool
  | .foreground | .overlayBehind | .lockscreen => true
  | _ => false

/-- What the window of a surface tells of it. -/
structure Shows (f : Surface) (x : InputWin) : Prop where
  pid : x.pid = f.pid
  visible : f.role ≠ .background ∧ f.role ≠ .headless
  focusable : x.focusable = takesKeys f.role
  lockscreen : x.z = zLockscreen ↔ f.role = .lockscreen
  app : x.focusable → f.role ≠ .lockscreen → x.z = zApp

end

/-! ## The list -/

section

instance : Std.Total fun a b : InputWin => b.z ≤ a.z := ⟨fun a b => Int.le_total b.z a.z⟩

instance : IsTrans InputWin fun a b => b.z ≤ a.z := ⟨fun _ _ _ hab hbc => Int.le_trans hbc hab⟩

variable {d : DisplayState} {orient : Nat} {w h it ib kb : Int}

/-- The windows before they are ordered. -/
def windowsOf (d : DisplayState) (orient : Nat) (w h it ib kb : Int) : List InputWin :=
  d.surfaces.rows.filterMap (inputWin orient w h it ib kb)

end

section

attribute [local instance] Fpu.comparator

end

end Wandr.Wm
