import Jcode.Support.Std

/-!
# Schema — the record and the world model

`timeline.rs`, `program.rs` and `model.rs` of `crates/schema`.  A timeline records real
transitions; a world model predicts them.  A model is a pair of closures, and beside them, when the
model was written as text, the rule program they come from.  A computation that may panic (a
closure, an index out of bounds) is an `Option`: `none` is a panic.
-/

namespace Jcode.Schema
open Rust

/-! ### The timeline -/

/-- Rows of colors. -/
abbrev Grid := List (List UInt8)

/-- One real transition of the environment. -/
structure Transition where
  index : ℕ
  stateBefore : Grid
  action : String
  stateAfter : Grid
  levelUp : Bool
  dead : Bool
  win : Bool
  deriving DecidableEq, Repr

def Transition.terminal (t : Transition) : Bool := t.levelUp || t.dead || t.win

/-- An append-only sequence of transitions: each is numbered by its place. -/
@[ext]
structure Timeline where
  records : List Transition
  indexed : ∀ (i : ℕ) (t : Transition), records[i]? = some t → t.index = i

namespace Timeline

def new : Timeline := ⟨[], fun _ _ h => by cases h⟩

def len (tl : Timeline) : ℕ := tl.records.length

def isEmpty (tl : Timeline) : Bool := tl.records.isEmpty

def last (tl : Timeline) : Option Transition := tl.records.getLast?

/-- The transition `append` records. -/
def record (tl : Timeline) (stateBefore : Grid) (action : String) (stateAfter : Grid)
    (levelUp dead win : Bool) : Transition :=
  { index := tl.len, stateBefore, action, stateAfter, levelUp, dead, win }

/-- Record one transition at the end. -/
def append (tl : Timeline) (stateBefore : Grid) (action : String) (stateAfter : Grid)
    (levelUp dead win : Bool) : Timeline where
  records := tl.records ++ [tl.record stateBefore action stateAfter levelUp dead win]
  indexed i t h := by
    rcases lt_trichotomy i tl.records.length with hlt | heq | hgt
    · rw [List.getElem?_append_left hlt] at h
      exact tl.indexed i t h
    · subst heq
      rw [List.getElem?_concat_length, Option.some.injEq] at h
      exact h ▸ rfl
    · rw [List.getElem?_eq_none (by simpa using hgt)] at h
      cases h

end Timeline

/-! ### Predictions -/

/-- What a model claims the next observation will be. -/
structure Prediction where
  grid : Grid
  levelUp : Bool := false
  dead : Bool := false
  win : Bool := false
  deriving DecidableEq, Repr

/-! ### Rule programs -/

def deltas : List (String × ℤ × ℤ) :=
  [("up", 0, -1), ("down", 0, 1), ("left", -1, 0), ("right", 1, 0)]

def delta (action : String) : ℤ × ℤ :=
  ((deltas.find? fun d => d.1 == action).map fun d => (d.2.1, d.2.2)).getD (0, 0)

/-- The cells of color `color`, as pairs of a column and a row, row by row. -/
def findColor (grid : Grid) (color : UInt8) : List (ℕ × ℕ) :=
  grid.zipIdx.flatMap fun (row, y) =>
    (row.zipIdx.filter fun cell => cell.1 == color).map fun cell => (cell.2, y)

/-- The first cell of color 1. -/
def player (grid : Grid) : Option (ℕ × ℕ) := (findColor grid 1).head?

/-- `grid[y][x]`. -/
def cell (grid : Grid) (x y : ℕ) : Option UInt8 := grid[y]?.bind fun row => row[x]?

/-- `grid[y][x] = color`. -/
def setCell (grid : Grid) (x y : ℕ) (color : UInt8) : Option Grid :=
  grid[y]?.bind fun row => if x < row.length then some (grid.set y (row.set x color)) else none

/-- `grid[0].len()`. -/
def width (grid : Grid) : Option ℕ := grid.head?.map List.length

structure CellWrite where
  x : ℕ
  y : ℕ
  color : UInt8
  deriving DecidableEq, Repr

/-- What happens when a rule fires. -/
structure Effect where
  playerAdvances : Bool := false
  push : Bool := false
  win : Bool := false
  dead : Bool := false
  writes : List CellWrite := []
  writesWhenBeyond : Option UInt8 := none
  deriving DecidableEq, Repr

/-- A transition rule, keyed on the color of the cell the player enters. -/
structure Rule where
  onTarget : UInt8
  beyondAnyOf : Option (List UInt8) := none
  note : String := ""
  effect : Effect := {}
  deriving DecidableEq, Repr

/-- A world model as data. -/
structure RuleProgram where
  rules : List Rule := []
  goalAbsentColors : List UInt8 := []
  deriving DecidableEq, Repr

namespace RuleProgram

/-- Whether the cell `(x, y)` is on the board: the height of the grid and the width of its first
row are the bounds. -/
def onBoard (grid : Grid) (x y : ℤ) : Option Bool :=
  if y < 0 ∨ x < 0 ∨ grid.length ≤ y.toNat then some false
  else (width grid).map fun w => x.toNat < w

/-- One cell rewrite; a cell off the board is left out. -/
def write (grid : Grid) (w : CellWrite) : Option Grid :=
  if w.y < grid.length then
    (width grid).bind fun width => if w.x < width then setCell grid w.x w.y w.color else some grid
  else some grid

/-- The rewrites of an effect, and its flags; `dockedColor` is the color a pushed occupant landed
on. -/
def reflow (grid : Grid) (dockedColor : Option UInt8) (effect : Effect) : Option Prediction := do
  let writesApply :=
    match effect.writesWhenBeyond with
    | none => true
    | some c => dockedColor == some c
  let grid ← if writesApply then effect.writes.foldlM write grid else some grid
  return { grid, levelUp := false, dead := effect.dead, win := effect.win }

/-- The effect of a rule: the push or the move, then the rewrites. -/
def apply (state : Grid) (px py tx ty : ℕ) (dx dy : ℤ) (beyond : Option UInt8) (effect : Effect) :
    Option Prediction := do
  if effect.push then
    if ← onBoard state (tx + dx) (ty + dy) then
      let occupant ← cell state tx ty
      let g ← setCell state (tx + dx).toNat (ty + dy).toNat occupant
      let g ← setCell g tx ty 1
      let g ← setCell g px py 0
      reflow g beyond effect
    else return { grid := state }
  else if effect.playerAdvances then
    let g ← setCell state px py 0
    let g ← setCell g tx ty 1
    reflow g none effect
  else reflow state none effect

/-- The guard of a rule on the cell beyond the target. -/
def guardHolds (rule : Rule) (beyond : Option UInt8) : Bool :=
  match rule.beyondAnyOf with
  | none => true
  | some allowed => beyond.any fun b => allowed.contains b

/-- The rules in order, up to the first that applies; when none does the move is blocked. -/
def fire (state : Grid) (px py tx ty : ℕ) (dx dy : ℤ) (target : UInt8) :
    List Rule → Option Prediction
  | [] => some { grid := state }
  | rule :: rules =>
      if rule.onTarget ≠ target then fire state px py tx ty dx dy target rules
      else do
        let beyond ←
          if ← onBoard state (tx + dx) (ty + dy) then
            (cell state (tx + dx).toNat (ty + dy).toNat).map some
          else some none
        if guardHolds rule beyond then apply state px py tx ty dx dy beyond rule.effect
        else fire state px py tx ty dx dy target rules

/-- One step of the program. -/
def step (p : RuleProgram) (state : Grid) (action : String) : Option Prediction :=
  match player state with
  | none => some { grid := state }
  | some (px, py) => do
      let (dx, dy) := delta action
      if ← onBoard state (px + dx) (py + dy) then
        let tx := (px + dx).toNat
        let ty := (py + dy).toNat
        fire state px py tx ty dx dy (← cell state tx ty) p.rules
      else return { grid := state }

/-- The goal: none of the absent colors is left. -/
def isGoal (p : RuleProgram) (state : Grid) : Bool :=
  !p.goalAbsentColors.isEmpty &&
    !state.any fun row => row.any fun v => p.goalAbsentColors.contains v

/-- What a rule is matched by across versions. -/
def key (r : Rule) : UInt8 × Option (List UInt8) := (r.onTarget, r.beyondAnyOf)

/-- The colors as the derived `Debug` of a vector prints them. -/
def debugColors (colors : List UInt8) : String :=
  "[" ++ join ", " (colors.map fun c => toString c.toNat) ++ "]"

/-- The lines of the difference to a previous program. -/
def diff (p prev : RuleProgram) : List String :=
  let changed := p.rules.filterMap fun r =>
    match prev.rules.find? fun q => key q == key r with
    | none => some s!"+ rule on color {r.onTarget.toNat}"
    | some q =>
        if q.effect ≠ r.effect then some s!"~ rule on color {r.onTarget.toNat} effect changed"
        else none
  let removed := (prev.rules.filter fun q => !p.rules.any fun r => key r == key q).map fun q =>
    s!"- rule on color {q.onTarget.toNat}"
  let goal :=
    if p.goalAbsentColors ≠ prev.goalAbsentColors then
      ["~ goal predicate: absent" ++ debugColors prev.goalAbsentColors ++ " -> absent" ++
        debugColors p.goalAbsentColors]
    else []
  changed ++ removed ++ goal

end RuleProgram

/-! ### The world model -/

abbrev StepFn := Grid → String → Option Prediction

abbrev GoalFn := Grid → Option Bool

/-- The current hypothesis about the game. -/
structure WorldModel where
  step : StepFn
  isGoal : GoalFn
  revision : UInt32
  history : List String
  /-- The program the model was written as, when it was. -/
  program : Option RuleProgram

namespace WorldModel

def new (step : StepFn) (isGoal : GoalFn) (description : String) : WorldModel :=
  { step, isGoal, revision := 0, history := [description], program := none }

/-- A model whose behavior is a program. -/
def fromProgram (program : RuleProgram) (description : String) : WorldModel where
  step := program.step
  isGoal grid := some (program.isGoal grid)
  revision := 0
  history := [description]
  program := some program

/-- Install a program, with the difference to the one before in the history. -/
def reviseProgram (m : WorldModel) (program : RuleProgram) (description : String) : WorldModel :=
  let diff :=
    match m.program with
    | some prev =>
        let d := program.diff prev
        if d.isEmpty then "no structural change" else join "; " d
    | none => "installed initial program"
  { step := program.step
    isGoal := fun grid => some (program.isGoal grid)
    revision := m.revision + 1
    history := m.history ++ [description ++ " [" ++ diff ++ "]"]
    program := some program }

/-- The model in which nothing changes. -/
def vacuous : WorldModel :=
  new (fun grid _ => some { grid }) (fun _ => some false) "vacuous initial model"

/-- Exchange one closure or both. -/
def revise (m : WorldModel) (step : Option StepFn) (isGoal : Option GoalFn)
    (description : String) : WorldModel :=
  { m with
    step := step.getD m.step
    isGoal := isGoal.getD m.isGoal
    revision := m.revision + 1
    history := m.history ++ [description] }

end WorldModel

end Jcode.Schema
