import Jcode.Dag.Schedule

/-!
# Dag — runs of the engine

A run calls the engine's operations in any order, with any arguments.  A call that fails is a step
too: what it leaves behind is the graph it returns.
-/

namespace Jcode.Dag

/-- A call of one engine operation. -/
inductive Op where
  | seed (specs : List NodeSpec)
  | dispatch (nodeId : NodeId) (worker : String)
  | expandNode (nodeId : NodeId) (actor : String) (children : List NodeSpec)
  | completeNode (nodeId : NodeId) (actor : String) (artifact : HandoffArtifact)
  | failNode (nodeId : NodeId) (actor : String)
  | injectFromGate (gateId : NodeId) (actor : String) (newNodes : List NodeSpec)
  | requeueFailed (nodeId : NodeId)

variable (parse : String → Option ConfidenceLevel)

/-- The graph a call leaves behind. -/
def Op.apply (graph : TaskGraph) : Op → TaskGraph
  | .seed specs => (Dag.seed graph specs).2
  | .dispatch nodeId worker => (Dag.dispatch graph nodeId worker).2
  | .expandNode nodeId actor children => (Dag.expandNode graph nodeId actor children).2
  | .completeNode nodeId actor artifact => (Dag.completeNode parse graph nodeId actor artifact).2
  | .failNode nodeId actor => (Dag.failNode graph nodeId actor).2
  | .injectFromGate gateId actor newNodes => (Dag.injectFromGate graph gateId actor newNodes).2
  | .requeueFailed nodeId => (Dag.requeueFailed graph nodeId).2

/-- One call. -/
def Step (g g' : TaskGraph) : Prop := ∃ op : Op, g' = op.apply parse g

/-- A run: any number of calls. -/
def Steps : TaskGraph → TaskGraph → Prop := Relation.ReflTransGen (Step parse)

/-- The graphs that runs from the empty graph reach. -/
def Reachable (mode : Mode) (g : TaskGraph) : Prop := Steps parse (TaskGraph.new mode) g

/-- The graph that calls made one after the other leave behind. -/
def Op.applyAll (graph : TaskGraph) (ops : List Op) : TaskGraph := ops.foldl (Op.apply parse) graph

variable {parse}

theorem Step.call (g : TaskGraph) (op : Op) : Step parse g (op.apply parse g) := ⟨op, rfl⟩

theorem Steps.refl (g : TaskGraph) : Steps parse g g := Relation.ReflTransGen.refl

theorem Steps.one {g g' : TaskGraph} (h : Step parse g g') : Steps parse g g' :=
  Relation.ReflTransGen.single h

theorem Steps.trans {g₁ g₂ g₃ : TaskGraph} (h₁ : Steps parse g₁ g₂) (h₂ : Steps parse g₂ g₃) :
    Steps parse g₁ g₃ :=
  Relation.ReflTransGen.trans h₁ h₂

theorem Steps.applyAll (g : TaskGraph) (ops : List Op) :
    Steps parse g (Op.applyAll parse g ops) := by
  induction ops generalizing g with
  | nil => exact .refl g
  | cons op ops ih => exact (Steps.one (.call g op)).trans (ih _)

/-- **The invariant rule.**  What one step preserves, a run preserves. -/
theorem Steps.preserves {P : TaskGraph → Prop} (hP : ∀ g g', P g → Step parse g g' → P g')
    {g g' : TaskGraph} (h : Steps parse g g') (h₀ : P g) : P g' := by
  induction h with
  | refl => exact h₀
  | tail _ hs ih => exact hP _ _ ih hs

theorem Reachable.steps {mode : Mode} {g g' : TaskGraph} (h : Reachable parse mode g)
    (hs : Steps parse g g') : Reachable parse mode g' :=
  Steps.trans h hs

/-! ### A finished deep run -/

/-- The three rungs by name. -/
def rungByName : String → Option ConfidenceLevel
  | "low" => some .low
  | "medium" => some .medium
  | "high" => some .high
  | _ => none

/-- An artifact a deep graph accepts. -/
def explored (findings : String) : HandoffArtifact :=
  { findings := findings, confidence := some "high", whatIDidNotCheck := ["behaviour under load"] }

def deepSpecs : List NodeSpec := [{ id := some "a", content := "map the module", kind := .explore }]

def deepChildren : List NodeSpec := [{ id := some "c", content := "the parser", kind := .explore }]

/-- `a` is expanded into `c`; `c`, the gate of `a`, `a` and the root gate are completed in turn. -/
def deepCalls : List Op :=
  [.seed deepSpecs,
   .dispatch "a" "w", .expandNode "a" "w" deepChildren,
   .dispatch "c" "w", .completeNode "c" "w" (explored "the parser is total"),
   .dispatch "a::gate" "w", .completeNode "a::gate" "w" { findings := "read c" },
   .dispatch "a" "w", .completeNode "a" "w" (explored "one parser, no state"),
   .dispatch "plan::gate" "w", .completeNode "plan::gate" "w" { findings := "read a" }]

/-- The graph after the first `n` calls. -/
def deepRun (n : ℕ) : TaskGraph := Op.applyAll rungByName (TaskGraph.new .deep) (deepCalls.take n)

theorem deepRun_reachable (n : ℕ) : Reachable rungByName .deep (deepRun n) := .applyAll _ _

end Jcode.Dag
