import Mathlib.Algebra.Group.Int.Defs
import Mathlib.Algebra.Group.Nat.Defs
import Mathlib.Data.List.Basic
import Wandr.Lib.Machine
import Wandr.Lib.Text

/-!
# The window list of the input dispatcher

The input dispatcher has to know the windows on the screen. The arbiter sends them in
blocks, one line a window, with the process of the window; the dispatcher knows a window by
a token, which the process registers. A block may come before the token: so the last block
is kept, and fed to the dispatcher again after each registration.

Feeding a block goes on under a lock, from one line to the next, while tokens are looked up
under another one. A block that is fed again is copied before the lock is taken.

* `InputFlinger.shows_last_block`: in a run in which no copy is fed after a newer block, the
  dispatcher holds the last block whenever nothing is in progress;
* `InputFlinger.older_block_wins` is a run in which a copy is.
-/

namespace Wandr

namespace InputFlinger

/-- A line of a block. A character stands for a byte. -/
abbrev Line := List Char

/-! ## Blocks -/

def isSpace (c : Char) : Bool := c = ' ' ∨ 9 ≤ c.toNat ∧ c.toNat ≤ 13

/-- What an `int` holds of a number that was read as a `long`. -/
def toCInt (n : Int) : Int := (max (-2 ^ 63) (min n (2 ^ 63 - 1))).bmod (2 ^ 32)

/-- Read a number in decimal, after whitespace, and what follows it. -/
def scanInt (cs : Line) : Option (Int × Line) :=
  let cs := cs.dropWhile isSpace
  let (negative, cs) := match cs with
    | '-' :: cs => (true, cs)
    | '+' :: cs => (false, cs)
    | cs => (false, cs)
  (Text.magnitude (cs.takeWhile Char.isDigit)).map fun n =>
    (toCInt (if negative then -n else n), cs.dropWhile Char.isDigit)

/-- Read several numbers. -/
def scanInts : Nat → Line → Option (List Int)
  | 0, _ => some []
  | n + 1, cs =>
    match scanInt cs with
    | none => none
    | some (k, cs) => (scanInts n cs).map (k :: ·)

/-- A line up to the first zero, where the text ends for `sscanf`. -/
def cStr (ln : Line) : Line := ln.takeWhile (· ≠ Char.ofNat 0)

/-- A window: the process, the edges, and whether it takes the focus. -/
structure WinLine where
  pid : Int
  l : Int
  t : Int
  r : Int
  b : Int
  foc : Int
  deriving DecidableEq

/-- The window in a line, if there is one. -/
def parseWin (ln : Line) : Option WinLine :=
  if "win ".toList <+: ln then
    match scanInts 6 ((cStr ln).drop 3) with
    | some [pid, l, t, r, b, foc] => some { pid, l, t, r, b, foc }
    | _ => none
  else none

/-- The process with the focus in a line, if there is one. -/
def parseFocus (ln : Line) : Option Int :=
  if "win-focus ".toList <+: ln then (scanInt ((cStr ln).drop 9)).map (·.1) else none

/-- The whole lines of what was read from a connection. -/
def wholeLines (buf : Line) : List Line := (Text.splitChar '\n' buf).dropLast

/-! ## The dispatcher -/

/-- A binder object, by a number. -/
abbrev Binder := Nat

/-- The tokens of a process: that of its channel, and one for it as an application. -/
structure WinTokens where
  channel : Binder
  application : Binder
  deriving DecidableEq

/-- A rectangle. -/
structure Rect where
  left : Int
  top : Int
  right : Int
  bottom : Int
  deriving DecidableEq

/-- A window as the dispatcher knows it. -/
structure WindowInfo where
  token : Binder
  id : Int
  name : String
  globalScaleFactor : Int := 1
  frame : Rect
  touchableRegion : Rect
  transform : Int × Int
  displayId : Int := 0
  applicationToken : Binder
  applicationName : String
  dispatchingTimeoutMillis : Int := 5000
  notFocusable : Bool
  deriving DecidableEq

/-- A request for the focus. -/
structure FocusRequest where
  token : Binder
  windowName : String
  displayId : Int := 0
  deriving DecidableEq

/-- The name of the window of a process. -/
def windowName (pid : Int) : String := "wandr-" ++ toString pid

/-- The window of a line, with the tokens of its process. -/
def windowInfo (e : WinTokens) (w : WinLine) : WindowInfo where
  token := e.channel
  id := w.pid
  name := windowName w.pid
  frame := ⟨w.l, w.t, w.r, w.b⟩
  touchableRegion := ⟨w.l, w.t, w.r, w.b⟩
  transform := (-w.l, -w.t)
  applicationToken := e.application
  applicationName := windowName w.pid
  notFocusable := w.foc = 0

/-- The request for the focus of a process. -/
def focusRequest (e : WinTokens) (pid : Int) : FocusRequest where
  token := e.channel
  windowName := windowName pid

/-- How far the lines of a block were gone through: the windows found, the processes seen,
    and the process with the focus. -/
structure Loop where
  wins : List WindowInfo := []
  seen : List Int := []
  focusPid : Int := -1
  deriving DecidableEq

/-- Go through a line. A window whose process has no token is left out. -/
def Loop.line (tokens : Int → Option WinTokens) (a : Loop) (ln : Line) : Loop :=
  if "win ".toList <+: ln then
    match parseWin ln with
    | none => a
    | some w =>
      if w.pid ∈ a.seen then a
      else
        let a := { a with seen := w.pid :: a.seen }
        match tokens w.pid with
        | none => a
        | some e => { a with wins := a.wins ++ [windowInfo e w] }
  else match parseFocus ln with
    | some pid => { a with focusPid := pid }
    | none => a

/-! ## The threads -/

/-- A block on its way to the dispatcher, under the lock: the lines to go through, and whether
    the dispatcher has the windows. -/
structure Feed where
  block : List Line
  byListener : Bool
  rest : List Line
  loop : Loop := {}
  dispatched : Bool := false
  deriving DecidableEq

/-- What a thread has to do after a registration: copy the last block, or feed the copy. -/
inductive Refeed
  | toCopy
  | copied (block : List Line)
  deriving DecidableEq

/-- The tokens, the last block, the block that the listener waits to feed, the feed in
    progress, the threads that feed again, and what the dispatcher was given last. The block
    received last is noted beside. -/
structure State where
  tokens : Int → Option WinTokens := fun _ => none
  lastBlock : Option (List Line) := none
  pending : Option (List Line) := none
  feeding : Option Feed := none
  refeeds : List Refeed := []
  windows : Option (List WindowInfo) := none
  vsync : Nat := 0
  focus : Option FocusRequest := none
  received : Option (List Line) := none

/-- What a thread does next. -/
inductive Action
  | receive (buf : Line)
  | beginFeed
  | registerToken (pid : Int) (token application : Binder)
  | copyBlock (i : Nat)
  | beginRefeed (i : Nat)
  | goThrough
  | dispatch
  | askFocus
  deriving DecidableEq

/-- The listener is at its next connection. -/
def State.listening (s : State) : Bool := s.pending.isNone && s.feeding.all fun f => !f.byListener

/-- The tokens after a registration. -/
def register (tokens : Int → Option WinTokens) (pid : Int) (token application : Binder) :
    Int → Option WinTokens :=
  fun p =>
    if p = pid then
      some {
        channel := token
        application := ((tokens pid).map (·.application)).getD application }
    else tokens p

namespace State

variable (s : State)

/-- The listener reads a connection to its end, and waits to feed what is a whole block. -/
def receive (buf : Line) : State :=
  if s.listening ∧ "win-commit".toList ∈ wholeLines buf then
    { s with pending := some (wholeLines buf), received := some (wholeLines buf) }
  else s

/-- The listener takes the lock and keeps its block. -/
def beginFeed : State :=
  match s.pending, s.feeding with
  | some block, none =>
    { s with
      pending := none
      lastBlock := some block
      feeding := some { block, byListener := true, rest := block } }
  | _, _ => s

/-- A process registers a token; the last block is to be fed again. -/
def registerToken (pid : Int) (token application : Binder) : State :=
  { s with
    tokens := register s.tokens pid token application
    refeeds := s.refeeds ++ [.toCopy] }

/-- A thread copies the last block, and is done if there is none. -/
def copyBlock (i : Nat) : State :=
  match s.refeeds[i]? with
  | some .toCopy =>
    match s.lastBlock with
    | some (ln :: lns) => { s with refeeds := s.refeeds.set i (.copied (ln :: lns)) }
    | _ => { s with refeeds := s.refeeds.eraseIdx i }
  | _ => s

/-- A thread takes the lock with its copy. -/
def beginRefeed (i : Nat) : State :=
  match s.refeeds[i]?, s.feeding with
  | some (.copied block), none =>
    { s with
      refeeds := s.refeeds.eraseIdx i
      feeding := some { block, byListener := false, rest := block } }
  | _, _ => s

/-- The thread with the lock goes through a line. -/
def goThrough : State :=
  match s.feeding with
  | some f =>
    match f.rest with
    | ln :: rest => { s with feeding := some { f with rest, loop := f.loop.line s.tokens ln } }
    | [] => s
  | none => s

/-- It gives the dispatcher the windows. -/
def dispatch : State :=
  match s.feeding with
  | some f =>
    if f.rest = [] ∧ ¬ f.dispatched then
      { s with
        windows := some f.loop.wins
        vsync := s.vsync + 1
        feeding := some { f with dispatched := true } }
    else s
  | none => s

/-- It asks for the focus, if the process has a token, and leaves the lock. -/
def askFocus : State :=
  match s.feeding with
  | some f =>
    if f.dispatched then
      { s with
        feeding := none
        focus :=
          if 0 ≤ f.loop.focusPid then
            ((s.tokens f.loop.focusPid).map fun e => focusRequest e f.loop.focusPid).or s.focus
          else s.focus }
    else s
  | none => s

end State

/-- One step. An action that is not possible changes nothing. -/
def step (s : State) : Action → State
  | .receive buf => s.receive buf
  | .beginFeed => s.beginFeed
  | .registerToken pid token application => s.registerToken pid token application
  | .copyBlock i => s.copyBlock i
  | .beginRefeed i => s.beginRefeed i
  | .goThrough => s.goThrough
  | .dispatch => s.dispatch
  | .askFocus => s.askFocus

/-! ## What the dispatcher is to hold -/

/-- The first window of each process. -/
def firstPerPid : List WinLine → List WinLine
  | [] => []
  | w :: ws => w :: (firstPerPid ws).filter (·.pid ≠ w.pid)

/-- The windows of a block whose process has a token. -/
def windowsOf (tokens : Int → Option WinTokens) (block : List Line) : List WindowInfo :=
  (firstPerPid (block.filterMap parseWin)).filterMap fun w =>
    (tokens w.pid).map fun e => windowInfo e w

/-- The process with the focus in a block. -/
def focusOf (block : List Line) : Int := (block.filterMap parseFocus).getLast?.getD (-1)

/-- No feed is in progress, and none waits. -/
def State.Quiet (s : State) : Prop := s.pending = none ∧ s.feeding = none ∧ s.refeeds = []

/-- The dispatcher holds a block: the windows, and the focus if the process has a token. -/
def State.Shows (s : State) (block : List Line) : Prop :=
  s.windows = some (windowsOf s.tokens block) ∧
    ∀ e, 0 ≤ focusOf block → s.tokens (focusOf block) = some e →
      s.focus = some (focusRequest e (focusOf block))

/-- A copy is fed only while it is the last block. -/
def Fresh (s : State) (a : Action) : Prop :=
  ∀ i block, a = .beginRefeed i → s.refeeds[i]? = some (.copied block) → s.feeding = none →
    s.lastBlock = some block

/-- Whether that is so. -/
def isFresh (s : State) : Action → Bool
  | .beginRefeed i =>
    match s.refeeds[i]?, s.feeding with
    | some (.copied block), none => s.lastBlock = some block
    | _, _ => true
  | _ => true

theorem isFresh_iff {s : State} {a : Action} : isFresh s a = true ↔ Fresh s a := by
  constructor
  · rintro h i block rfl hi hf
    rw [isFresh, hi, hf] at h
    exact of_decide_eq_true h
  · intro h
    unfold isFresh
    split
    · next i =>
      split
      · next block hi hf => exact decide_eq_true (h i block rfl hi hf)
      · rfl
    · rfl

instance (s : State) (a : Action) : Decidable (Fresh s a) := decidable_of_iff _ isFresh_iff

/-! ## Going through a block -/

variable {tokens : Int → Option WinTokens} {a : Loop} {ln : Line} {block : List Line}

/-- A line has a window or the focus, not both. -/
theorem parseFocus_eq_none {w : WinLine} (h : parseWin ln = some w) : parseFocus ln = none := by
  unfold parseWin at h
  split at h
  · next hw =>
    refine if_neg fun hf => ?_
    obtain ⟨u, rfl⟩ := hw
    obtain ⟨v, hv⟩ := hf
    exact absurd (congrArg (fun l : Line => l[3]?) hv) (by simp)
  · cases h

theorem Loop.line_eq_of_win {w : WinLine} (h : parseWin ln = some w) : a.line tokens ln =
    if w.pid ∈ a.seen then a
    else { a with
      seen := w.pid :: a.seen
      wins := a.wins ++ ((tokens w.pid).map fun e => windowInfo e w).toList } := by
  have hw : "win ".toList <+: ln := by
    by_contra hn
    rw [parseWin, if_neg hn] at h
    cases h
  rw [line, if_pos hw, h]
  dsimp only
  split
  · rfl
  · cases tokens w.pid with
    | none => rw [Option.map_none, Option.toList_none, List.append_nil]
    | some e => rfl

theorem Loop.line_eq_of_no_win (h : parseWin ln = none) : a.line tokens ln =
    { a with focusPid := (parseFocus ln).getD a.focusPid } := by
  rw [line]
  split
  · next hw =>
    have hf : parseFocus ln = none := by
      refine if_neg fun hf => ?_
      obtain ⟨u, rfl⟩ := hw
      obtain ⟨v, hv⟩ := hf
      exact absurd (congrArg (fun l : Line => l[3]?) hv) (by simp)
    rw [h, hf]
    rfl
  · cases parseFocus ln <;> rfl

/-- The windows that were not seen yet are found, the first of each process. -/
theorem wins_foldl : (block.foldl (Loop.line tokens) a).wins = a.wins ++
    ((firstPerPid (block.filterMap parseWin)).filter (·.pid ∉ a.seen)).filterMap fun w =>
      (tokens w.pid).map fun e => windowInfo e w := by
  induction block generalizing a with
  | nil => simp [firstPerPid]
  | cons ln block ih =>
    rw [List.foldl_cons, ih]
    cases h : parseWin ln with
    | none => rw [Loop.line_eq_of_no_win h, List.filterMap_cons_none h]
    | some w =>
      rw [Loop.line_eq_of_win h, List.filterMap_cons_some h, firstPerPid]
      split
      · next hs =>
        rw [List.filter_cons_of_neg (by simpa using hs), List.filter_filter]
        congr 2
        refine List.filter_congr fun v _ => ?_
        rw [Bool.eq_iff_iff]
        simp only [decide_eq_true_eq, Bool.and_eq_true]
        exact ⟨fun hv => ⟨hv, fun he => hv (he ▸ hs)⟩, fun hv => hv.1⟩
      · next hs =>
        have hf : ((firstPerPid (block.filterMap parseWin)).filter (·.pid ≠ w.pid)).filter
            (·.pid ∉ a.seen) =
            (firstPerPid (block.filterMap parseWin)).filter (·.pid ∉ w.pid :: a.seen) := by
          rw [List.filter_filter]
          refine List.filter_congr fun v _ => ?_
          rw [Bool.eq_iff_iff]
          simp only [decide_eq_true_eq, Bool.and_eq_true, List.mem_cons, not_or]
          exact And.comm
        rw [List.filter_cons_of_pos (by simpa using hs), hf, List.append_assoc]
        cases h : tokens w.pid with
        | none => rw [List.filterMap_cons_none (by rw [h]; rfl)]; rfl
        | some e => rw [List.filterMap_cons_some (by rw [h]; rfl)]; rfl

theorem focusPid_foldl : (block.foldl (Loop.line tokens) a).focusPid =
    (block.filterMap parseFocus).getLast?.getD a.focusPid := by
  induction block generalizing a with
  | nil => rfl
  | cons ln block ih =>
    rw [List.foldl_cons, ih]
    cases h : parseWin ln with
    | none =>
      rw [Loop.line_eq_of_no_win h]
      cases hf : parseFocus ln with
      | none => rw [List.filterMap_cons_none hf]; rfl
      | some p =>
        rw [List.filterMap_cons_some hf, List.getLast?_cons]
        cases (block.filterMap parseFocus).getLast? <;> rfl
    | some w =>
      rw [Loop.line_eq_of_win h, List.filterMap_cons_none (parseFocus_eq_none h)]
      split <;> rfl

/-- A block that was gone through with the tokens as they are gave what the dispatcher is to
    hold. -/
theorem foldl_line : (block.foldl (Loop.line tokens) {}).wins = windowsOf tokens block ∧
    (block.foldl (Loop.line tokens) {}).focusPid = focusOf block := by
  refine ⟨?_, focusPid_foldl⟩
  rw [wins_foldl, windowsOf, List.nil_append, List.filter_eq_self.2 fun w _ => by simp]

/-! ## Runs -/

/-- The lines of a feed up to here were gone through with the tokens as they are. -/
def Feed.Good (f : Feed) (s : State) : Prop :=
  (∃ lines, f.block = lines ++ f.rest ∧ f.loop = lines.foldl (Loop.line s.tokens) {}) ∧
    (f.dispatched → f.rest = [] ∧ s.windows = some f.loop.wins)

/-- What holds in a run: the block received last is the one that waits, or else the one kept;
    no block is empty; what is fed is the block kept, with the tokens as they are unless it is
    fed again afterwards; and if nothing is to be fed, the dispatcher holds the block. -/
structure Inv (s : State) : Prop where
  received : s.received = s.pending.or s.lastBlock
  pending : ∀ block, s.pending = some block → block ≠ []
  lastBlock : ∀ block, s.lastBlock = some block → block ≠ []
  feeding : ∀ f, s.feeding = some f → s.lastBlock = some f.block ∧ (s.refeeds ≠ [] ∨ f.Good s)
  shows : s.feeding = none → s.refeeds = [] → s.pending = none →
    ∀ block, s.lastBlock = some block → s.Shows block

variable {s : State}

/-- Nothing of a feed was gone through at its start. -/
theorem Feed.good_start (block : List Line) (byListener : Bool) :
    Feed.Good { block, byListener, rest := block } s :=
  ⟨⟨[], rfl, rfl⟩, nofun⟩

theorem Inv.receive (h : Inv s) (buf : Line) : Inv (s.receive buf) := by
  unfold State.receive
  split
  · next hr =>
    refine ⟨rfl, fun block hb => ?_, h.lastBlock, h.feeding, fun _ _ hp => absurd hp nofun⟩
    cases hb
    exact List.ne_nil_of_mem hr.2
  · exact h

theorem Inv.beginFeed (h : Inv s) : Inv s.beginFeed := by
  unfold State.beginFeed
  split
  · next block hp hf =>
    have hne := h.pending block hp
    refine ⟨?_, nofun, fun b hb => ?_, fun f hf => ?_, nofun⟩
    · rw [h.received, hp]
      rfl
    · cases hb
      exact hne
    · cases hf
      exact ⟨rfl, .inr (Feed.good_start ..)⟩
  · exact h

theorem Inv.registerToken (h : Inv s) (pid : Int) (token application : Binder) :
    Inv (s.registerToken pid token application) := by
  have hr : s.refeeds ++ [.toCopy] ≠ [] := List.append_ne_nil_of_right_ne_nil _ nofun
  exact ⟨h.received, h.pending, h.lastBlock, fun f hf => ⟨(h.feeding f hf).1, .inl hr⟩,
    fun _ hn => absurd hn hr⟩

theorem Inv.copyBlock (h : Inv s) (i : Nat) : Inv (s.copyBlock i) := by
  unfold State.copyBlock
  split
  · next hi =>
    have hne : s.refeeds ≠ [] := fun hn => by simp [hn] at hi
    split
    · next ln lns hl =>
      have hset : s.refeeds.set i (.copied (ln :: lns)) ≠ [] := by simpa using hne
      exact ⟨h.received, h.pending, h.lastBlock,
        fun f hf => ⟨(h.feeding f hf).1, .inl hset⟩, fun _ hn => absurd hn hset⟩
    · next hl =>
      -- no block was kept yet: nothing was ever fed
      have hl : s.lastBlock = none := by
        cases hb : s.lastBlock with
        | none => rfl
        | some block =>
          cases block with
          | nil => exact absurd rfl (h.lastBlock [] hb)
          | cons ln lns => exact absurd hb (hl ln lns)
      refine ⟨h.received, h.pending, h.lastBlock, fun f hf => ?_, fun _ _ _ block hb => ?_⟩
      · exact absurd ((h.feeding f hf).1.symm.trans hl) nofun
      · exact absurd (hb.symm.trans hl) nofun
  · exact h

theorem Inv.beginRefeed (h : Inv s) {i : Nat} (ho : Fresh s (.beginRefeed i)) :
    Inv (s.beginRefeed i) := by
  unfold State.beginRefeed
  split
  · next block hi hf =>
    refine ⟨h.received, h.pending, h.lastBlock, fun f hf' => ?_, nofun⟩
    cases hf'
    exact ⟨ho i block rfl hi hf, .inr (Feed.good_start ..)⟩
  · exact h

theorem Inv.goThrough (h : Inv s) : Inv s.goThrough := by
  unfold State.goThrough
  split
  · next f hf =>
    obtain ⟨hl, hg⟩ := h.feeding f hf
    split
    · next ln rest hr =>
      refine ⟨h.received, h.pending, h.lastBlock, fun f' hf' => ?_, nofun⟩
      cases hf'
      refine ⟨hl, hg.imp_right ?_⟩
      rintro ⟨⟨lines, hb, hloop⟩, hd⟩
      refine ⟨⟨lines ++ [ln], ?_, ?_⟩, fun hd' => absurd (hd hd').1 (by rw [hr]; nofun)⟩
      · rw [hb, hr, List.append_assoc]
        rfl
      · rw [List.foldl_append, ← hloop]
        rfl
    · exact h
  · exact h

theorem Inv.dispatch (h : Inv s) : Inv s.dispatch := by
  unfold State.dispatch
  split
  · next f hf =>
    obtain ⟨hl, hg⟩ := h.feeding f hf
    split
    · next hr =>
      refine ⟨h.received, h.pending, h.lastBlock, fun f' hf' => ?_, nofun⟩
      cases hf'
      exact ⟨hl, hg.imp_right fun hg => ⟨hg.1, fun _ => ⟨hr.1, rfl⟩⟩⟩
    · exact h
  · exact h

theorem Inv.askFocus (h : Inv s) : Inv s.askFocus := by
  unfold State.askFocus
  split
  · next f hf =>
    obtain ⟨hl, hg⟩ := h.feeding f hf
    split
    · next hd =>
      refine ⟨h.received, h.pending, h.lastBlock, nofun, fun _ hn _ block hb => ?_⟩
      obtain ⟨⟨lines, hb', hloop⟩, hd'⟩ := hg.resolve_left (not_not.2 hn)
      obtain ⟨hr, hw⟩ := hd' hd
      obtain rfl : f.block = block := Option.some.inj (hl.symm.trans hb)
      rw [hr, List.append_nil] at hb'
      obtain ⟨hwins, hfocus⟩ : (f.block.foldl (Loop.line s.tokens) {}).wins = _ ∧ _ := foldl_line
      rw [hb', ← hloop] at hwins hfocus
      refine ⟨?_, fun e hpid he => ?_⟩
      · rw [hb', ← hwins]
        exact hw
      · rw [hb', ← hfocus] at hpid he ⊢
        have he : s.tokens f.loop.focusPid = some e := he
        rw [if_pos hpid, he]
        rfl
    · exact h
  · exact h

theorem Inv.step (h : Inv s) {a : Action} (ho : Fresh s a) : Inv (step s a) := by
  cases a with
  | receive buf => exact h.receive buf
  | beginFeed => exact h.beginFeed
  | registerToken pid token application => exact h.registerToken pid token application
  | copyBlock i => exact h.copyBlock i
  | beginRefeed i => exact h.beginRefeed ho
  | goThrough => exact h.goThrough
  | dispatch => exact h.dispatch
  | askFocus => exact h.askFocus

/-- In a run in which each copy is fed only while it is the last block, the dispatcher holds
    the block received last whenever nothing is in progress: the windows of the processes with
    a token, the first of each, in order, and the focus if its process has a token. -/
theorem shows_last_block (hs : Machine.Run step Fresh {} s) (hq : s.Quiet) {block : List Line}
    (hb : s.received = some block) : s.Shows block := by
  have h : Inv s := hs.invariant
    ⟨rfl, nofun, nofun, nofun, fun _ _ _ _ hb => absurd hb nofun⟩ fun a h ho => h.step ho
  obtain ⟨hp, hf, hr⟩ := hq
  refine h.shows hf hr hp block ?_
  rw [← hb, h.received, hp, Option.none_or]

/-! ## A late copy -/

/-- A block with the window of a process, which has the focus. -/
def blockOf (pid : String) : Line :=
  ("win-begin 0 1080 2160\nwin " ++ pid ++ " 0 0 1080 2160 1\nwin-focus " ++ pid ++
    "\nwin-commit\n").toList

/-- The thread with the lock goes through the lines of such a block, and leaves the lock. -/
def feedAll : List Action := [.goThrough, .goThrough, .goThrough, .goThrough, .dispatch, .askFocus]

/-- Two processes register; a third registers and copies the block of the first, then the
    block of the second comes, and then the copy is fed. -/
def lateCopy : List Action :=
  [.registerToken 10 1 2, .copyBlock 0, .registerToken 20 3 4, .copyBlock 0,
    .receive (blockOf "10"), .beginFeed] ++ feedAll ++
  [.registerToken 30 5 6, .copyBlock 0, .receive (blockOf "20"), .beginFeed] ++ feedAll ++
  [.beginRefeed 0] ++ feedAll

/-- The dispatcher is left with the window of the first process. -/
theorem older_block_wins :
    (lateCopy.foldl step {}).Quiet ∧
      (lateCopy.foldl step {}).received = some (wholeLines (blockOf "20")) ∧
      ¬ (lateCopy.foldl step {}).Shows (wholeLines (blockOf "20")) := by
  refine ⟨⟨?_, ?_, ?_⟩, ?_, fun h => ?_⟩
  iterate 4 decide +kernel
  exact absurd h.1 (by decide +kernel)

/-- The same two blocks with the copy fed in between. -/
def copyInTime : List Action :=
  [.registerToken 10 1 2, .copyBlock 0, .receive (blockOf "10"), .beginFeed] ++ feedAll ++
  [.registerToken 20 3 4, .copyBlock 0, .beginRefeed 0] ++ feedAll ++
  [.receive (blockOf "20"), .beginFeed] ++ feedAll

theorem shows_last_block_in_time :
    (copyInTime.foldl step {}).Shows (wholeLines (blockOf "20")) :=
  shows_last_block (Machine.run_of_goes (by decide))
    ⟨by decide, by decide, by decide⟩ (by decide)

end InputFlinger

end Wandr
