import Jcode.Support.Std

/-!
# Swarm — the instructions of a worker

`jcode-swarm-core/src/lib.rs`: the instructions that end the prompt of a worker.  A prompt that
carries the marker of an instruction already is left as it is.
-/

namespace Jcode.Swarm
open Rust

def SWARM_COMPLETION_REPORT_MARKER : String := "SWARM COMPLETION REPORT REQUIRED"

def SWARM_DEEP_NODE_MARKER : String := "DEEP TASK GRAPH NODE"

def MAX_SWARM_MEMBERS : ℕ := 1000

/-- The message, an empty line unless it is empty, and the reminder. -/
def appendReminder (message marker instructions : String) : String :=
  if contains message marker then message
  else
    let out := trimEnd message
    (if out.isEmpty then out else out ++ "\n\n") ++ "<system-reminder>\n" ++ marker ++
      instructions ++ "</system-reminder>"

def appendSwarmCompletionReportInstructions (message : String) : String :=
  appendReminder message SWARM_COMPLETION_REPORT_MARKER
    ("\nBefore finishing, call the swarm tool with action=\"report\" to submit your completion "
      ++ "report. Include a concise message, validation/tests performed, and blockers or "
      ++ "follow-ups. After the report tool succeeds, also write a brief final assistant "
      ++ "response. Do not finish with only tool output, a lifecycle status change, or no final "
      ++ "response. Do not send a separate DM for the final report unless you need interactive "
      ++ "coordination before finishing.\n")

/-- What a node marked as bounded is told. -/
def atomicNodeInstructions (nodeId : String) : String :=
  s!"\nYou are executing node '{nodeId}' of a deep task graph. The planner explicitly marked "
    ++ "this node as bounded and non-expandable. Do NOT call expand_node, even if the node contains "
    ++ "multiple concerns. Execute the assigned scope atomically, then call the swarm tool with "
    ++ s!"action=\"complete_node\", node_id=\"{nodeId}\", and a typed artifact containing findings, "
    ++ "evidence (file:line refs), validation, open_questions, a REQUIRED confidence (low, medium, "
    ++ "or high), and an honest what_i_did_not_check list. A turn that ends without complete_node "
    ++ "gets re-queued and may fail.\n"

/-- What any other node is told: expand or complete. -/
def nodeInstructions (nodeId : String) : String :=
  s!"\nYou are executing node '{nodeId}' of a deep task graph with a large parallel agent "
    ++ s!"budget (up to {MAX_SWARM_MEMBERS} live agents per swarm; using it is expected, not "
    ++ "wasteful). Choose one of exactly two finishes for this node:\n"
    ++ "1. Decompose for parallelism: if this node contains more than one independently checkable "
    ++ "concern, do NOT work through it serially. Call the swarm tool with "
    ++ s!"action=\"expand_node\", node_id=\"{nodeId}\", and MANY independent children (add "
    ++ "depends_on edges only for real data dependencies, so the ready set stays wide). Then "
    ++ "finish your turn; the children fan out to parallel agents and you will be re-woken to "
    ++ "synthesize their results.\n"
    ++ "2. Execute atomically: do the work, then call the swarm tool with "
    ++ s!"action=\"complete_node\", node_id=\"{nodeId}\", and a typed artifact: findings, evidence "
    ++ "(file:line refs), validation, open_questions, a REQUIRED confidence (low, medium, or high; "
    ++ "report low honestly, it routes follow-up work to shore up your scope instead of counting "
    ++ "against you), and an honest what_i_did_not_check (the critique gate turns those into new "
    ++ "nodes, so listing them is how coverage grows).\n"
    ++ "These are the ONLY two ways this node can close: a turn that ends without expand_node or "
    ++ "complete_node gets the node re-queued to a fresh agent, and a repeat fails it.\n"

def appendDeepNodeInstructions (message nodeId : String) : String :=
  appendReminder message SWARM_DEEP_NODE_MARKER
    (if contains (toAsciiLowercase message) "do not expand this node"
      then atomicNodeInstructions nodeId else nodeInstructions nodeId)

/-- What a gate is told: inject gaps or pass, and which ids it must name. -/
def gateInstructions (gateId : String) (auditedIds lowConfidenceSiblings : List String) : String :=
  s!"\nYou are executing critique/verify gate '{gateId}' of a deep task graph. Your job is "
    ++ "to find gaps, not to pass work through. Read every audited artifact, especially each "
    ++ "what_i_did_not_check list, and probe them. Finish in one of exactly two ways:\n"
    ++ "1. Gaps or failures found: call the swarm tool with action=\"inject_gap\", "
    ++ s!"gate_id=\"{gateId}\", and one new node per gap (they run in parallel and you re-run "
    ++ "afterwards). The parent cannot close until they drain, so be thorough now. Injecting nodes "
    ++ "is SUCCESS for a gate, not failure: a growing graph is the system working.\n"
    ++ "2. Genuinely clean: call the swarm tool with action=\"complete_node\", "
    ++ s!"node_id=\"{gateId}\", and an artifact whose findings account for EVERY node you audited "
    ++ "BY ID with what you checked and why no gaps remain. The server rejects a pass whose "
    ++ "findings/open_questions do not name each audited node id.\n"
    ++ (if auditedIds.isEmpty then ""
        else "AUDIT SCOPE: you are auditing node(s) [" ++ join ", " auditedIds
          ++ "]. A passing artifact must address each of these ids explicitly.\n")
    ++ (if lowConfidenceSiblings.isEmpty then ""
        else "PRIORITY: sibling node(s) [" ++ join ", " lowConfidenceSiblings
          ++ "] completed with LOW confidence. The server will REJECT your pass unless you either "
          ++ "inject follow-up nodes that shore up that work, or name each of those ids in your "
          ++ "artifact findings with why the low confidence is acceptable. Injecting follow-ups "
          ++ "adds breadth but does not erase the record: when you re-run after they drain, your "
          ++ "passing artifact must STILL name each low-confidence id (e.g. 'X was shored up by "
          ++ "Y').\n")
    ++ "Do not pass the gate without doing one of these.\n"

def appendDeepGateInstructions (message gateId : String)
    (auditedIds lowConfidenceSiblings : List String) : String :=
  appendReminder message SWARM_DEEP_NODE_MARKER
    (gateInstructions gateId auditedIds lowConfidenceSiblings)

end Jcode.Swarm
