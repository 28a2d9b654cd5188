import Jcode.Support.Runs
import Jcode.Support.Std

/-!
# Memory — Graph

The memory graph: the nodes (memories and tags), the edges by their source, and for each node the
list of the sources of the edges into it (`reverseEdges`), which has no kinds.  A map's entry that
is missing and one that is empty read alike (`getEdges`, `getIncoming`).
-/

namespace Jcode.Memory

open Rust Runs

/-- The kinds of relation between two nodes. -/
inductive EdgeKind where
  | hasTag
  | inCluster
  | relatesTo (weight : Float32)
  | supersedes
  | contradicts
  | derivedFrom
  deriving BEq

/-- `matches!(kind, EdgeKind::HasTag)`. -/
def EdgeKind.isHasTag : EdgeKind → Bool
  | .hasTag => true
  | _ => false

/-- An edge, as its source stores it. -/
structure Edge where
  target : String
  kind : EdgeKind

structure TagEntry where
  id : String
  name : String
  description : Option String
  count : ℕ

/-- `format!("tag:{}", name)`. -/
def tagId (name : String) : String := "tag:" ++ name

def TagEntry.new (name : String) : TagEntry :=
  { id := tagId name, name := name, description := none, count := 0 }

/-- A memory, by what the graph reads of it. -/
structure MemoryEntry where
  id : String
  tags : List String
  active : Bool
  supersededBy : Option String

structure MemoryGraph where
  memories : StrMap MemoryEntry
  tags : StrMap TagEntry
  edges : StrMap (List Edge)
  reverseEdges : StrMap (List String)
  linkDiscoveryCount : ℕ

namespace MemoryGraph

def new : MemoryGraph :=
  { memories := .empty, tags := .empty, edges := .empty, reverseEdges := .empty,
    linkDiscoveryCount := 0 }

/-- The edges from a node. -/
def getEdges (g : MemoryGraph) (id : String) : List Edge := (g.edges.get id).getD []

/-- The nodes with an edge to this one, once for each edge. -/
def getIncoming (g : MemoryGraph) (id : String) : List String := (g.reverseEdges.get id).getD []

/-! ### Edges -/

def addEdgeInternal (g : MemoryGraph) (source target : String) (kind : EdgeKind) : MemoryGraph :=
  { g with
    edges := g.edges.insert source (g.getEdges source ++ [⟨target, kind⟩])
    reverseEdges := g.reverseEdges.insert target (g.getIncoming target ++ [source]) }

/-- An edge that is there already is not added again. -/
def addEdge (g : MemoryGraph) (source target : String) (kind : EdgeKind) : MemoryGraph :=
  if (g.getEdges source).any (fun e => e.target == target && e.kind == kind) then g
  else g.addEdgeInternal source target kind

/-- The way `remove_edge` and `untag_memory` take edges out: of `source`'s edges to `target` those of
a kind that `p` accepts, and of the sources of `target` every occurrence of `source`. -/
def dropEdges (g : MemoryGraph) (source target : String) (p : EdgeKind → Bool) : MemoryGraph :=
  { g with
    edges := g.edges.modify source (List.filter fun e => !(e.target == target && p e.kind))
    reverseEdges := g.reverseEdges.modify target (List.filter (· != source)) }

def removeEdge (g : MemoryGraph) (source target : String) (kind : EdgeKind) : MemoryGraph :=
  g.dropEdges source target (· == kind)

def linkMemories (g : MemoryGraph) (source target : String) (weight : Float32) : MemoryGraph :=
  let g := g.addEdge source target (.relatesTo weight)
  { g with linkDiscoveryCount := g.linkDiscoveryCount + 1 }

/-- The older memory is marked inactive. -/
def supersede (g : MemoryGraph) (newerId olderId : String) : MemoryGraph :=
  let g := g.addEdge newerId olderId .supersedes
  { g with
    memories := g.memories.modify olderId fun m =>
      { m with active := false, supersededBy := some newerId } }

def markContradiction (g : MemoryGraph) (idA idB : String) : MemoryGraph :=
  (g.addEdge idA idB .contradicts).addEdge idB idA .contradicts

/-! ### Tags -/

def ensureTag (g : MemoryGraph) (name : String) : MemoryGraph :=
  match g.tags.get (tagId name) with
  | some _ => g
  | none => { g with tags := g.tags.insert (tagId name) (TagEntry.new name) }

/-- `tag.count += 1`, or `tag.count.saturating_sub(1)`. -/
def modifyTagCount (g : MemoryGraph) (tagId : String) (f : ℕ → ℕ) : MemoryGraph :=
  { g with tags := g.tags.modify tagId fun tag => { tag with count := f tag.count } }

def tagMemory (g : MemoryGraph) (memoryId tagName : String) : MemoryGraph :=
  let g := g.ensureTag tagName
  if (g.getEdges memoryId).any (fun e => e.target == tagId tagName && e.kind.isHasTag) then g
  else
    let g := (g.addEdgeInternal memoryId (tagId tagName) .hasTag).modifyTagCount (tagId tagName)
      (· + 1)
    { g with
      memories := g.memories.modify memoryId fun m =>
        if tagName ∈ m.tags then m else { m with tags := m.tags ++ [tagName] } }

def untagMemory (g : MemoryGraph) (memoryId tagName : String) : MemoryGraph :=
  let g := (g.dropEdges memoryId (tagId tagName) EdgeKind.isHasTag).modifyTagCount (tagId tagName)
    (· - 1)
  { g with
    memories := g.memories.modify memoryId fun m =>
        { m with tags := m.tags.filter (· != tagName) } }

/-- The memories that are listed as sources of a tag. -/
def getMemoriesByTag (g : MemoryGraph) (tagName : String) : List MemoryEntry :=
  (g.getIncoming (tagId tagName)).filterMap g.memories.get

/-! ### Memories -/

/-- One tag of a memory that is added. -/
def addTagOf (id : String) (g : MemoryGraph) (tagName : String) : MemoryGraph :=
  ((g.ensureTag tagName).addEdgeInternal id (tagId tagName) .hasTag).modifyTagCount (tagId tagName)
    (· + 1)

def addMemory (g : MemoryGraph) (entry : MemoryEntry) : MemoryGraph × String :=
  let g := entry.tags.foldl (addTagOf entry.id) g
  let g :=
    match entry.supersededBy with
    | some newer => g.addEdgeInternal newer entry.id .supersedes
    | none => g
  ({ g with memories := g.memories.insert entry.id entry }, entry.id)

/-- One edge of a memory that is removed: its target loses the memory as a source, and a tag counts
one memory fewer. -/
def detachFrom (id : String) (g : MemoryGraph) (edge : Edge) : MemoryGraph :=
  let g := { g with reverseEdges := g.reverseEdges.modify edge.target (List.filter (· != id)) }
  if edge.kind.isHasTag then g.modifyTagCount edge.target (· - 1) else g

/-- One source of a memory that is removed loses its edges to it. -/
def dropTarget (id : String) (g : MemoryGraph) (source : String) : MemoryGraph :=
  { g with edges := g.edges.modify source (List.filter (·.target != id)) }

/-- Remove all edges from this memory. -/
def dropOutgoing (g : MemoryGraph) (id : String) : MemoryGraph :=
  (g.getEdges id).foldl (detachFrom id) { g with edges := g.edges.remove id }

/-- Remove all edges pointing to this memory, by the sources that are listed. -/
def dropIncoming (g : MemoryGraph) (id : String) : MemoryGraph :=
  (g.getIncoming id).foldl (dropTarget id) { g with reverseEdges := g.reverseEdges.remove id }

def removeMemory (g : MemoryGraph) (id : String) : MemoryGraph × Option MemoryEntry :=
  let dropped := (g.dropOutgoing id).dropIncoming id
  ({ dropped with memories := dropped.memories.remove id }, g.memories.get id)

end MemoryGraph

/-! ### Runs -/

/-- The operations that change a graph. -/
inductive Op where
  | addMemory (entry : MemoryEntry)
  | removeMemory (id : String)
  | tagMemory (memoryId tagName : String)
  | untagMemory (memoryId tagName : String)
  | addEdge (source target : String) (kind : EdgeKind)
  | removeEdge (source target : String) (kind : EdgeKind)
  | linkMemories (source target : String) (weight : Float32)
  | supersede (newerId olderId : String)
  | markContradiction (idA idB : String)

def Op.apply (g : MemoryGraph) : Op → MemoryGraph
  | .addMemory entry => (g.addMemory entry).1
  | .removeMemory id => (g.removeMemory id).1
  | .tagMemory memoryId tagName => g.tagMemory memoryId tagName
  | .untagMemory memoryId tagName => g.untagMemory memoryId tagName
  | .addEdge source target kind => g.addEdge source target kind
  | .removeEdge source target kind => g.removeEdge source target kind
  | .linkMemories source target weight => g.linkMemories source target weight
  | .supersede newerId olderId => g.supersede newerId olderId
  | .markContradiction idA idB => g.markContradiction idA idB

/-- No operation fails. -/
def step (g : MemoryGraph) (op : Op) : Option MemoryGraph := some (op.apply g)

end Jcode.Memory
