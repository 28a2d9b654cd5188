import Jcode.Schema.Harness

/-!
# Schema — deliberation as text, and sessions

`protocol.rs`, `session.rs`, and the hypotheses of `deliberators.rs`.  The protocol deliberator
sends a request as JSON to a provider and reads a response back; a session is a program and a
timeline as JSON.  `serde_json` is a parameter, and so is the provider.
-/

namespace Jcode.Schema
open Rust

/-! ### The protocol -/

/-- A transition as it is written. -/
structure TransitionDigest where
  index : ℕ
  action : String
  stateBefore : Grid
  stateAfter : Grid
  levelUp : Bool
  dead : Bool
  win : Bool
  deriving DecidableEq, Repr

def TransitionDigest.ofTransition (t : Transition) : TransitionDigest where
  index := t.index
  action := t.action
  stateBefore := t.stateBefore
  stateAfter := t.stateAfter
  levelUp := t.levelUp
  dead := t.dead
  win := t.win

/-- What a deliberator is handed each turn. -/
structure DeliberationRequest where
  currentGrid : Grid
  legalActions : List String
  timeline : List TransitionDigest
  currentProgram : RuleProgram
  backtestSummary : String
  counterexample : Option TransitionDigest
  deriving DecidableEq, Repr

/-- What it returns. -/
structure DeliberationResponse where
  revisedProgram : Option RuleProgram := none
  intent : String
  actions : List String := []
  note : String := ""
  deriving DecidableEq, Repr

/-- `serde_json` on requests and responses. -/
structure ProtocolJson where
  toJson : DeliberationRequest → String
  fromStr : String → Except String DeliberationResponse

/-- A provider over the states `φ`: a prompt in, a completion out. -/
abbrev Provider (φ : Type) := φ → String → Option (String × φ)

/-- The provider's state, and the exchanges so far. -/
structure ProtocolState (φ : Type) where
  provider : φ
  transcript : List (String × String) := []

/-- The deliberator that asks a provider. -/
def protocolDeliberator {φ : Type} (json : ProtocolJson) (provider : Provider φ) :
    Deliberator (ProtocolState φ) where
  deliberate s current model timeline backtest counterexample := do
    let request : DeliberationRequest :=
      { currentGrid := current
        legalActions := ["up", "down", "left", "right"]
        timeline := timeline.records.map TransitionDigest.ofTransition
        currentProgram := model.program.getD {}
        backtestSummary := backtest.summary
        counterexample := counterexample.map TransitionDigest.ofTransition }
    let prompt := json.toJson request
    let (raw, next) ← provider s.provider prompt
    let s : ProtocolState φ := ⟨next, s.transcript ++ [(prompt, raw)]⟩
    match json.fromStr raw with
    | .error e =>
        return ({ actions := [], intent := .experiment,
                  note := s!"unparseable deliberation response: {e}" }, model, s)
    | .ok resp =>
        let description := if resp.note.isEmpty then "protocol revision" else resp.note
        let model :=
          match resp.revisedProgram with
          | some program => model.reviseProgram program description
          | none => model
        let intent := if resp.intent = "plan" then Intent.plan else Intent.experiment
        return ({ actions := resp.actions, intent, note := resp.note }, model, s)

/-! ### Sessions -/

structure Session where
  task : String
  program : RuleProgram
  revision : UInt32
  history : List String
  timeline : List TransitionDigest
  deriving DecidableEq, Repr

namespace Session

def capture (task : String) (model : WorldModel) (timeline : Timeline) : Session where
  task := task
  program := model.program.getD {}
  revision := model.revision
  history := model.history
  timeline := timeline.records.map TransitionDigest.ofTransition

def restoreModel (s : Session) : WorldModel :=
  { WorldModel.fromProgram s.program "restored from session" with
    revision := s.revision
    history := s.history }

def restoreTimeline (s : Session) : Timeline :=
  s.timeline.foldl
    (fun tl t => tl.append t.stateBefore t.action t.stateAfter t.levelUp t.dead t.win) .new

end Session

/-- `serde_json` on sessions. -/
structure SessionJson where
  toJson : Session → String
  fromJson : String → Except String Session

/-! ### The hypotheses of the toggle deliberator -/

inductive Semantics where
  | blocking
  | passable
  | lethal
  deriving DecidableEq, Repr

/-- What each unknown color does. -/
abbrev SemMap := UInt8 → Option Semantics

/-- `as usize` on an index; a negative one is out of every bound. -/
def asIndex (x : ℤ) : Option ℕ := if 0 ≤ x then some x.toNat else none

/-- The player moved from one cell to another. -/
def moved (grid : Grid) (px py tx ty : ℕ) : Option Grid := do
  setCell (← setCell grid px py 0) tx ty 1

/-- The prediction of one hypothesis. -/
def predict (sem : SemMap) (state : Grid) (action : String) : Option Prediction := do
  let (px, py) ← (findColor state 1).head?
  let (dx, dy) := delta action
  let tx ← asIndex (px + dx)
  let ty ← asIndex (py + dy)
  let v ← cell state tx ty
  if v = 3 then return { grid := ← moved state px py tx ty, win := true }
  else
    match if v = 0 then Semantics.passable else (sem v).getD .blocking with
    | .passable => return { grid := ← moved state px py tx ty }
    | .lethal => return { grid := state, dead := true }
    | .blocking => return { grid := state }

/-- Whether a hypothesis explains every transition; the first that it does not ends the check. -/
def consistentWith (sem : SemMap) : List Transition → Option Bool
  | [] => some true
  | t :: rest => do
      let p ← predict sem t.stateBefore t.action
      if (p.levelUp, p.dead, p.win) ≠ (t.levelUp, t.dead, t.win) then return false
      else if !t.terminal && p.grid ≠ t.stateAfter then return false
      else consistentWith sem rest

def consistent (sem : SemMap) (timeline : Timeline) : Option Bool :=
  consistentWith sem timeline.records

end Jcode.Schema
