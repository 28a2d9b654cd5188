import Jcode.Bridge.Plan
import Jcode.Dag.Schedule

/-!
# Server — the handlers of the graph mutations

`jcode-app-core/src/server/comm_graph.rs`.  A handler finds the swarm of the requesting session,
lifts its plan, runs one engine operation and lowers the result; it returns its reply to the client
and the plans it leaves behind.  The election of the seeder as coordinator and the persistence and
broadcast after a success do not write plans, and are left out.
-/

namespace Jcode.Server
open Rust Jcode.Dag Jcode.Bridge

/-- The wire form of a node spec. -/
structure TaskGraphNodeSpec where
  id : String
  content : String
  kind : Option String := none
  dependsOn : List String := []
  priority : UInt8 := 0
  deriving DecidableEq, Repr

def specFromWire (spec : TaskGraphNodeSpec) : NodeSpec where
  id := some spec.id
  content := spec.content
  kind := parseKind spec.kind
  dependsOn := spec.dependsOn
  priority := spec.priority

structure SwarmMember where
  swarmId : Option String
  deriving DecidableEq, Repr

abbrev Plans := StrMap VersionedPlan

/-- What a handler tells the client. -/
inductive Reply where
  | done
  | notInSwarm
  | noPlan
  | invalidArtifact (e : String)
  | seedDowngrade
  | rejected (op : String) (e : DagError)
  deriving DecidableEq, Repr

/-- The text of an error reply. -/
def Reply.message : Reply → Option String
  | .done => none
  | .notInSwarm => some "Not in a swarm."
  | .noPlan => some "No plan for this swarm."
  | .invalidArtifact e => some s!"Invalid artifact JSON: {e}"
  | .seedDowngrade => some ("Seed rejected: this swarm already has a non-empty deep-mode plan; "
      ++ "seeding with mode=light would silently strip its gates and artifact "
      ++ "validation. Omit `mode` to keep deep, or finish/clear the current plan first.")
  | .rejected op e => some (op ++ " rejected: " ++ e.display)

/-- What the handlers read and do not write. -/
structure Env where
  json : SerdeJson
  /-- `ConfidenceLevel::parse`. -/
  parse : String → Option ConfidenceLevel
  members : StrMap SwarmMember
  /-- The last recorded reasoning effort of each session. -/
  sessionEffort : StrMap String

def swarmIdFor (session : String) (members : StrMap SwarmMember) : Option String :=
  (members.get session).bind SwarmMember.swarmId

/-- Claim a queued node that is unowned, or assigned to the actor, for the actor; `dispatch` checks
its dependencies. -/
def claimQueuedNodeForActor (graph : TaskGraph) (nodeId : NodeId) (actor : String) : TaskGraph :=
  let claimable : Bool := match graph.get nodeId with
    | some node => node.status = .queued && (node.owner = none || node.owner = some actor)
    | none => false
  if claimable then (dispatch graph nodeId actor).2 else graph

/-! ### Seeding -/

def isDeepSwarmEffort (effort : String) : Bool := eqIgnoreAsciiCase (trim effort) "swarm-deep"

/-- The requested mode, or deep for a session at deep effort. -/
def resolvedMode (env : Env) (session : String) (mode : Option String) : Option String :=
  mode.or (((env.sessionEffort.get session).filter isDeepSwarmEffort).map fun _ => "deep")

/-- Whether a mode would strip the gates of a non-empty deep plan. -/
def downgradesDeep (plan : VersionedPlan) (mode : String) : Bool :=
  eqIgnoreAsciiCase plan.mode "deep" && !eqIgnoreAsciiCase mode "deep" && !plan.items.isEmpty

/-- Seed through the bridge: a replay that changes nothing does not touch the plan. -/
def seedPlan (json : SerdeJson) (plan : VersionedPlan) (specs : List NodeSpec) :
    Except DagError Unit × VersionedPlan :=
  let before := toTaskGraph json plan
  match seed before specs with
  | (.ok (), graph) =>
      if graph ≠ before then
        let plan := applyTaskGraph json plan graph
        (.ok (), { plan with version := plan.version + 1 })
      else (.ok (), plan)
  | (.error e, _) => (.error e, plan)

def handleCommSeedGraph (env : Env) (plans : Plans) (session : String) (mode : Option String)
    (nodes : List TaskGraphNodeSpec) : Reply × Plans :=
  match swarmIdFor session env.members with
  | none => (.notInSwarm, plans)
  | some swarmId =>
      let specs := nodes.map specFromWire
      let resolved := resolvedMode env session mode
      -- the entry is created here, and its mode and participants are written, before the seed
      let plan := (plans.get swarmId).getD VersionedPlan.new
      if resolved.any (downgradesDeep plan) then (.seedDowngrade, plans.insert swarmId plan)
      else
        let plan := { plan with mode := resolved.getD plan.mode }
        let plan := { plan with participants := insert session plan.participants }
        match seedPlan env.json plan specs with
        | (.ok (), plan) => (.done, plans.insert swarmId plan)
        | (.error e, plan) => (.rejected "Seed" e, plans.insert swarmId plan)

/-! ### Mutating one node -/

/-- The handlers of one node: claim it, run the operation, and lower the result of a success. -/
def mutateNode {α : Type} (env : Env) (plans : Plans) (session swarmId : String) (nodeId : NodeId)
    (name : String) (op : TaskGraph → Outcome α) : Reply × Plans :=
  match plans.get swarmId with
  | none => (.noPlan, plans)
  | some plan =>
      let graph := claimQueuedNodeForActor (toTaskGraph env.json plan) nodeId session
      match op graph with
      | (.ok _, graph) =>
          let plan := applyTaskGraph env.json plan graph
          (.done, plans.insert swarmId { plan with version := plan.version + 1 })
      | (.error e, _) => (.rejected name e, plans)

def handleCommExpandNode (env : Env) (plans : Plans) (session : String) (nodeId : NodeId)
    (children : List TaskGraphNodeSpec) : Reply × Plans :=
  match swarmIdFor session env.members with
  | none => (.notInSwarm, plans)
  | some swarmId =>
      mutateNode env plans session swarmId nodeId "Expand" fun graph =>
        expandNode graph nodeId session (children.map specFromWire)

def handleCommCompleteNode (env : Env) (plans : Plans) (session : String) (nodeId : NodeId)
    (artifactJson : String) : Reply × Plans :=
  match swarmIdFor session env.members with
  | none => (.notInSwarm, plans)
  | some swarmId =>
      match env.json.fromStr artifactJson with
      | .error e => (.invalidArtifact e, plans)
      | .ok artifact =>
          mutateNode env plans session swarmId nodeId "Complete" fun graph =>
            completeNode env.parse graph nodeId session artifact

def handleCommInjectGap (env : Env) (plans : Plans) (session : String) (gateId : NodeId)
    (nodes : List TaskGraphNodeSpec) : Reply × Plans :=
  match swarmIdFor session env.members with
  | none => (.notInSwarm, plans)
  | some swarmId =>
      mutateNode env plans session swarmId gateId "Inject" fun graph =>
        injectFromGate graph gateId session (nodes.map specFromWire)

/-- A graph mutation of a client. -/
inductive Request where
  | seedGraph (mode : Option String) (nodes : List TaskGraphNodeSpec)
  | expandNode (nodeId : NodeId) (children : List TaskGraphNodeSpec)
  | completeNode (nodeId : NodeId) (artifactJson : String)
  | injectGap (gateId : NodeId) (nodes : List TaskGraphNodeSpec)

def handle (env : Env) (plans : Plans) (session : String) : Request → Reply × Plans
  | .seedGraph mode nodes => handleCommSeedGraph env plans session mode nodes
  | .expandNode nodeId children => handleCommExpandNode env plans session nodeId children
  | .completeNode nodeId json => handleCommCompleteNode env plans session nodeId json
  | .injectGap gateId nodes => handleCommInjectGap env plans session gateId nodes

/-! ### A swarm of one session -/

/-- `serde_json` on one artifact and its text. -/
def readText : String := "\x7b\"findings\":\"read\"\x7d"

def readArtifact : HandoffArtifact := { findings := "read" }

def readJson : SerdeJson where
  fromStr text := if text = readText then .ok readArtifact else .error "expected value"
  toString a := if a = readArtifact then .ok readText else .error "unknown artifact"

/-- The session `s` in the swarm `w`. -/
def oneSession : Env where
  json := readJson
  parse _ := none
  members := StrMap.empty.insert "s" { swarmId := some "w" }
  sessionEffort := StrMap.empty

/-- The plans with `items` in the light plan of the swarm `w`. -/
def lightPlan (items : List PlanItem) : VersionedPlan :=
  { VersionedPlan.new with items := items, participants := {"s"} }

def onePlan (items : List PlanItem) : Plans := StrMap.empty.insert "w" (lightPlan items)

end Jcode.Server
