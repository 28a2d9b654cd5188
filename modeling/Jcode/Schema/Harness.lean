import Jcode.Schema.World

/-!
# Schema — the loop

`backtest.rs`, `planner.rs`, `executor.rs` and `agent.rs` of `crates/schema`.  A cycle of the agent
backtests the model, deliberates, passes the certification gate, and commits the actions that come
out of it.  The environment and the deliberator are parameters.
-/

namespace Jcode.Schema
open Rust

/-! ### Backtests -/

inductive MismatchKind where
  | grid
  | flags
  deriving DecidableEq, Repr

structure Mismatch where
  index : ℕ
  kind : MismatchKind
  detail : String
  deriving DecidableEq, Repr

structure BacktestReport where
  total : ℕ := 0
  exact : ℕ := 0
  skipped : ℕ := 0
  mismatches : List Mismatch := []
  deriving DecidableEq, Repr

namespace BacktestReport

def green (r : BacktestReport) : Bool := r.mismatches.isEmpty && 0 < r.total

def summary (r : BacktestReport) : String :=
  s!"{r.exact} / {r.total - r.skipped} exact after {r.total} steps; " ++
    s!"{r.mismatches.length} mismatch(es), {r.skipped} skipped"

end BacktestReport

/-- The first cell of a row that differs. -/
def rowDiff (y : ℕ) (pr rr : List UInt8) : Option String :=
  if pr.length ≠ rr.length then some s!"row {y} width {pr.length} != {rr.length}"
  else
    ((pr.zip rr).zipIdx.find? fun cell => cell.1.1 ≠ cell.1.2).map fun ((pv, rv), x) =>
      s!"cell ({x},{y}) predicted {pv.toNat}, observed {rv.toNat}"

def firstCellDiff (pred real : Grid) : String :=
  if pred.length ≠ real.length then s!"row count {pred.length} != {real.length}"
  else
    ((pred.zip real).zipIdx.findSome? fun ((pr, rr), y) => rowDiff y pr rr).getD
      "grids differ (no cell-level diff found)"

/-- Replay one transition. -/
def backtestStep (model : WorldModel) (report : BacktestReport) (t : Transition) :
    Option BacktestReport := do
  let pred ← model.step t.stateBefore t.action
  let flagsOk := pred.levelUp == t.levelUp && pred.dead == t.dead && pred.win == t.win
  if !flagsOk then
    let detail := s!"predicted (level_up={pred.levelUp}, dead={pred.dead}, win={pred.win}) " ++
      s!"but observed (level_up={t.levelUp}, dead={t.dead}, win={t.win}) at step {t.index}"
    return { report with mismatches := report.mismatches ++ [⟨t.index, .flags, detail⟩] }
  else if t.terminal then return { report with skipped := report.skipped + 1 }
  else if pred.grid ≠ t.stateAfter then
    let detail := s!"grid mismatch at step {t.index}: " ++ firstCellDiff pred.grid t.stateAfter
    return { report with mismatches := report.mismatches ++ [⟨t.index, .grid, detail⟩] }
  else return { report with exact := report.exact + 1 }

/-- Replay the whole timeline. -/
def runBacktest (model : WorldModel) (timeline : Timeline) : Option BacktestReport :=
  timeline.records.foldlM (backtestStep model) { total := timeline.len }

/-! ### Search in the model -/

inductive GoalVia where
  | isGoal
  | levelUp
  | win
  deriving DecidableEq, Repr

def GoalVia.display : GoalVia → String
  | .isGoal => "is_goal"
  | .levelUp => "level_up"
  | .win => "win"

structure BfsReport where
  plan : Option (List String)
  expanded : ℕ
  distinct : ℕ
  goalVia : Option GoalVia
  deriving DecidableEq, Repr

def BfsReport.summary (r : BfsReport) : String :=
  match r.plan, r.goalVia with
  | some p, some via =>
      s!"BFS: goal in {p.length} step(s) via {via.display}; expanded {r.expanded} nodes, " ++
        s!"{r.distinct} distinct states"
  | _, _ => s!"BFS: no goal found; expanded {r.expanded} nodes, {r.distinct} distinct states"

/-- The grids to expand, each with the path to it, and the grids seen. -/
structure Frontier where
  queue : List (Grid × List String)
  seen : Finset Grid

/-- Try the actions at one state: the report of a search that ends here, or the frontier. -/
def expandState (model : WorldModel) (state : Grid) (path : List String) (expanded : ℕ) :
    List String → Frontier → Option (BfsReport ⊕ Frontier)
  | [], f => some (.inr f)
  | a :: actions, f => do
      let pred ← model.step state a
      let extend (via : GoalVia) : BfsReport :=
        { plan := some (path ++ [a]), expanded, distinct := f.seen.card, goalVia := some via }
      if pred.dead then expandState model state path expanded actions f
      else if pred.win then return .inl (extend .win)
      else if pred.levelUp then return .inl (extend .levelUp)
      else if ← model.isGoal pred.grid then return .inl (extend .isGoal)
      else if pred.grid ∈ f.seen then expandState model state path expanded actions f
      else
        expandState model state path expanded actions
          { queue := f.queue ++ [(pred.grid, path ++ [a])], seen := insert pred.grid f.seen }

/-- The search; `nodes` more states may be expanded. -/
def bfsLoop (model : WorldModel) (actions : List String) :
    (nodes expanded : ℕ) → Frontier → Option BfsReport
  | nodes, expanded, f =>
      match f.queue, nodes with
      | [], _ | _, 0 =>
          some { plan := none, expanded, distinct := f.seen.card, goalVia := none }
      | (state, path) :: queue, nodes + 1 => do
          match ← expandState model state path (expanded + 1) actions { f with queue } with
          | .inl report => return report
          | .inr f => bfsLoop model actions nodes (expanded + 1) f

/-- Breadth-first search for a goal, inside the model. -/
def runBfs (model : WorldModel) (start : Grid) (actions : List String) (maxNodes : ℕ) :
    Option BfsReport := do
  if ← model.isGoal start then
    return { plan := some [], expanded := 0, distinct := 1, goalVia := some .isGoal }
  else bfsLoop model actions maxNodes 0 { queue := [(start, [])], seen := {start} }

/-! ### Execution -/

/-- What the environment returns for an interaction. -/
structure Observation where
  grid : Grid
  levelUp : Bool := false
  dead : Bool := false
  win : Bool := false
  deriving DecidableEq, Repr

/-- An environment over the states `ε`. -/
structure Environment (ε : Type) where
  reset : ε → Option (Observation × ε)
  step : ε → String → Option (Observation × ε)
  actionsTaken : ε → ℕ
  legalActions : ε → List String

structure ExecutionReport where
  committed : List String
  executed : List String
  discarded : List String
  mispredictions : ℕ
  counterexample : Option Transition
  counterexampleDetail : String
  finalState : Grid
  win : Bool
  levelUp : Bool
  dead : Bool
  deriving DecidableEq, Repr

namespace ExecutionReport

def halted (r : ExecutionReport) : Bool := 0 < r.mispredictions

def summary (r : ExecutionReport) : String :=
  let n := r.executed.length
  if !r.halted then
    let tail := if r.win then "WIN" else if r.levelUp then "level_up" else "ok"
    s!"{n}/{r.committed.length} executed with 0 mispredictions -> " ++ tail
  else
    s!"halted after {n}/{r.committed.length} actions: {r.counterexampleDetail}; " ++
      s!"{r.discarded.length} queued action(s) discarded"

end ExecutionReport

section Environment
variable {ε : Type} (env : Environment ε)

/-- The actions of a plan from its `i`-th on: the prediction first, then the action, then the
record, then the comparison. -/
def commitFrom (model : WorldModel) (plan : List String) : (rest : List String) → (i : ℕ) →
    (executed : List String) → (cur : Grid) → ε → Timeline →
    Option (ExecutionReport × ε × Timeline)
  | [], _, executed, cur, e, timeline =>
      some ({ committed := plan, executed, discarded := [], mispredictions := 0,
              counterexample := none, counterexampleDetail := "", finalState := cur,
              win := false, levelUp := false, dead := false }, e, timeline)
  | action :: rest, i, executed, cur, e, timeline => do
      let pred ← model.step cur action
      let (obs, e) ← env.step e action
      let t := timeline.record cur action obs.grid obs.levelUp obs.dead obs.win
      let timeline := timeline.append cur action obs.grid obs.levelUp obs.dead obs.win
      let executed := executed ++ [action]
      let flagsOk := pred.levelUp == t.levelUp && pred.dead == t.dead && pred.win == t.win
      let ok := flagsOk && (t.terminal || pred.grid == obs.grid)
      if !ok then
        let kind := if flagsOk then "grid misprediction" else "flag misprediction"
        return ({ committed := plan, executed, discarded := rest, mispredictions := 1,
                  counterexample := some t,
                  counterexampleDetail := s!"{kind} at committed step {i}",
                  finalState := obs.grid, win := obs.win, levelUp := obs.levelUp,
                  dead := obs.dead }, e, timeline)
      else if t.terminal then
        return ({ committed := plan, executed, discarded := rest, mispredictions := 0,
                  counterexample := none, counterexampleDetail := "", finalState := obs.grid,
                  win := obs.win, levelUp := obs.levelUp, dead := obs.dead }, e, timeline)
      else commitFrom model plan rest (i + 1) executed obs.grid e timeline

/-- Execute a plan, up to the first misprediction or terminal transition. -/
def commitActions (e : ε) (model : WorldModel) (timeline : Timeline) (current : Grid)
    (plan : List String) : Option (ExecutionReport × ε × Timeline) :=
  commitFrom env model plan plan 0 [] current e timeline

end Environment

/-! ### The agent -/

inductive Intent where
  | plan
  | experiment
  deriving DecidableEq, Repr

def Intent.tag : Intent → String
  | .plan => "[plan]"
  | .experiment => "[experiment]"

structure Deliberation where
  actions : List String
  intent : Intent
  note : String
  deriving DecidableEq, Repr

/-- A deliberator over the states `δ`; it may leave any model behind. -/
structure Deliberator (δ : Type) where
  deliberate : δ → (current : Grid) → WorldModel → Timeline → BacktestReport →
    (counterexample : Option Transition) → Option (Deliberation × WorldModel × δ)

structure EpisodeLog where
  backtests : List String := []
  bfsReports : List String := []
  executions : List String := []
  notes : List String := []
  revisionsSeen : UInt32 := 0
  won : Bool := false
  envActions : ℕ := 0
  deriving DecidableEq, Repr

/-- The agent between two cycles: its fields, and the variables of `run`. -/
structure Agent (ε δ : Type) where
  env : ε
  model : WorldModel
  deliberator : δ
  timeline : Timeline
  current : Grid
  counterexample : Option Transition
  log : EpisodeLog

/-- How a cycle ends. -/
inductive Flow where
  | again
  | stop
  deriving DecidableEq, Repr

section Agent
variable {ε δ : Type} (env : Environment ε) (del : Deliberator δ)

/-- Backtest the model, and ask the deliberator; it sees the counterexample once. -/
def deliberate (a : Agent ε δ) : Option (Deliberation × Agent ε δ) := do
  let report ← runBacktest a.model a.timeline
  let (delib, model, deliberator) ←
    del.deliberate a.deliberator a.current a.model a.timeline report a.counterexample
  let notes := if delib.note.isEmpty then a.log.notes else a.log.notes ++ [delib.note]
  let log := { a.log with backtests := a.log.backtests ++ [report.summary], notes }
  return (delib, { a with model, deliberator, log, counterexample := none })

/-- The certification gate: a plan is searched for in a certified model, and is an experiment in
any other. -/
def gate (delib : Deliberation) (a : Agent ε δ) : Option (Deliberation × Agent ε δ) := do
  if delib.intent = .plan then
    let post ← runBacktest a.model a.timeline
    if !(post.green || a.timeline.isEmpty) then
      return ({ delib with intent := .experiment }, a)
    else
      let bfs ← runBfs a.model a.current (env.legalActions a.env) 100000
      let a := { a with log := { a.log with bfsReports := a.log.bfsReports ++ [bfs.summary] } }
      match bfs.plan with
      | some plan => return ({ delib with actions := plan }, a)
      -- the actions stay those of the deliberator, and the intent a plan
      | none => return (delib, a)
  else return (delib, a)

/-- Commit the actions and record what came of them. -/
def execute (delib : Deliberation) (a : Agent ε δ) : Option (Flow × Agent ε δ) := do
  if delib.actions.isEmpty then return (.again, a)
  else
    let (result, e, timeline) ← commitActions env a.env a.model a.timeline a.current delib.actions
    let executions := a.log.executions ++ [delib.intent.tag ++ " " ++ result.summary]
    let a := { a with env := e, timeline, current := result.finalState
                      log := { a.log with executions } }
    if result.win then return (.stop, { a with log := { a.log with won := true } })
    else if result.dead then
      -- this branch comes before that of a halt
      let (obs, e) ← env.reset a.env
      return (.again, { a with env := e, current := obs.grid })
    else if result.halted then return (.again, { a with counterexample := result.counterexample })
    else return (.again, a)

/-- The part of a cycle before its actions are committed. -/
def turn (a : Agent ε δ) : Option (Deliberation × Agent ε δ) := do
  let (delib, a) ← deliberate del a
  gate env delib a

/-- One cycle. -/
def cycle (a : Agent ε δ) : Option (Flow × Agent ε δ) := do
  let (delib, a) ← turn env del a
  execute env delib a

/-- The cycles that are left. -/
def cycles : ℕ → Agent ε δ → Option (Agent ε δ)
  | 0, a => some a
  | n + 1, a => do
      let (flow, a) ← cycle env del a
      match flow with
      | .again => cycles n a
      | .stop => return a

/-- The agent at the head of its first cycle. -/
def observe (e : ε) (model : WorldModel) (deliberator : δ) (timeline : Timeline) :
    Option (Agent ε δ) := do
  let (obs, e) ← env.reset e
  return { env := e, model, deliberator, timeline, current := obs.grid, counterexample := none,
           log := {} }

/-- The last entries of the log. -/
def finish (a : Agent ε δ) : Agent ε δ :=
  { a with log := { a.log with revisionsSeen := a.model.revision
                               envActions := env.actionsTaken a.env } }

/-- An episode, of at most `maxCycles` cycles. -/
def run (e : ε) (model : WorldModel) (deliberator : δ) (timeline : Timeline) (maxCycles : ℕ) :
    Option (Agent ε δ) := do
  let a ← observe env e model deliberator timeline
  let a ← cycles env del maxCycles a
  return finish env a

end Agent

end Jcode.Schema
