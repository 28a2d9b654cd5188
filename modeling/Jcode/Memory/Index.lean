import Jcode.Memory.Graph

/-!
# Memory — Index

The reverse index of the memory graph is exact (`Indexed`) when it lists each source of a node once
for each of its edges to the node.

* `MemoryGraph.indexed_dropEdges_iff`: taking edges out by kind keeps the index exact exactly when
  no edge of another kind is left between the two nodes.
* `MemoryGraph.Indexed.removeMemory`: removing a memory keeps it exact, and leaves no edge from or
  to the memory.
* `reverse_index_exact`: in a run from the empty graph the index is exact in every state exactly
  when each `remove_edge` and `untag_memory` takes out all that the source has there.
* `parallel_edge_dangles`: otherwise an edge outlives the memory it points to.
-/

namespace Jcode.Memory

open Rust Runs

namespace MemoryGraph

/-- The edges from `a` to `b`, counted at `a`. -/
def fanOut (g : MemoryGraph) (a b : String) : ℕ := (g.getEdges a).countP (·.target == b)

/-- The edges from `a` to `b`, counted at `b`. -/
def fanIn (g : MemoryGraph) (a b : String) : ℕ := (g.getIncoming b).count a

/-- The reverse index is exact. -/
def Indexed (g : MemoryGraph) : Prop := ∀ a b, g.fanIn a b = g.fanOut a b

variable {g : MemoryGraph}

theorem indexed_new : new.Indexed := fun _ _ => rfl

theorem fanOut_eq_zero {a b : String} : g.fanOut a b = 0 ↔ ∀ e ∈ g.getEdges a, e.target ≠ b := by
  simp [fanOut, List.countP_eq_zero]

/-- Only the edges and their index matter. -/
theorem indexed_congr {g' : MemoryGraph} (he : g'.edges = g.edges)
    (hr : g'.reverseEdges = g.reverseEdges) : g'.Indexed ↔ g.Indexed := by
  simp only [Indexed, fanIn, fanOut, getIncoming, getEdges, he, hr]

/-! ### Adding edges -/

theorem fanOut_addEdgeInternal (s t : String) (k : EdgeKind) (a b : String) :
    (g.addEdgeInternal s t k).fanOut a b = g.fanOut a b + if a = s ∧ b = t then 1 else 0 := by
  rw [fanOut, getEdges, addEdgeInternal, StrMap.get_insert]
  by_cases ha : a = s
  · have hone : [Edge.mk t k].countP (·.target == b) = if b = t then 1 else 0 := by
      rw [List.countP_singleton]
      exact if_congr (beq_iff_eq.trans eq_comm) rfl rfl
    rw [if_pos ha, Option.getD_some, List.countP_append, hone, ← ha, fanOut]
    simp only [true_and]
  · rw [if_neg ha, if_neg (fun h => ha h.1), Nat.add_zero, fanOut, getEdges]

theorem fanIn_addEdgeInternal (s t : String) (k : EdgeKind) (a b : String) :
    (g.addEdgeInternal s t k).fanIn a b = g.fanIn a b + if a = s ∧ b = t then 1 else 0 := by
  rw [fanIn, getIncoming, addEdgeInternal, StrMap.get_insert]
  by_cases hb : b = t
  · have hone : [s].count a = if a = s then 1 else 0 := by
      rw [List.count_singleton]
      exact if_congr (beq_iff_eq.trans eq_comm) rfl rfl
    rw [if_pos hb, Option.getD_some, List.count_append, hone, ← hb, fanIn]
    simp only [and_true]
  · rw [if_neg hb, if_neg (fun h => hb h.2), Nat.add_zero, fanIn, getIncoming]

namespace Indexed

theorem addEdgeInternal (h : g.Indexed) (s t : String) (k : EdgeKind) :
    (g.addEdgeInternal s t k).Indexed := by
  intro a b
  rw [fanIn_addEdgeInternal, fanOut_addEdgeInternal, h a b]

theorem addEdge (h : g.Indexed) (s t : String) (k : EdgeKind) : (g.addEdge s t k).Indexed := by
  unfold MemoryGraph.addEdge
  split
  · exact h
  · exact h.addEdgeInternal s t k

theorem ensureTag (h : g.Indexed) (name : String) : (g.ensureTag name).Indexed := by
  unfold MemoryGraph.ensureTag
  split
  · exact h
  · exact (indexed_congr rfl rfl).mpr h

theorem addTagOf (h : g.Indexed) (id tagName : String) : (addTagOf id g tagName).Indexed :=
  (indexed_congr rfl rfl).mpr ((h.ensureTag tagName).addEdgeInternal id (tagId tagName) .hasTag)

theorem tagMemory (h : g.Indexed) (memoryId tagName : String) :
    (g.tagMemory memoryId tagName).Indexed := by
  unfold MemoryGraph.tagMemory
  dsimp only
  split
  · exact h.ensureTag tagName
  · exact (indexed_congr rfl rfl).mpr
      ((h.ensureTag tagName).addEdgeInternal memoryId (tagId tagName) .hasTag)

theorem addMemory (h : g.Indexed) (entry : MemoryEntry) : (g.addMemory entry).1.Indexed := by
  have htags : (entry.tags.foldl (MemoryGraph.addTagOf entry.id) g).Indexed := by
    induction entry.tags generalizing g with
    | nil => exact h
    | cons tagName tags ih => exact ih (h.addTagOf entry.id tagName)
  unfold MemoryGraph.addMemory
  dsimp only
  split
  · exact (indexed_congr rfl rfl).mpr (htags.addEdgeInternal _ entry.id .supersedes)
  · exact (indexed_congr rfl rfl).mpr htags

end Indexed

/-! ### Taking edges out -/

/-- A filter on the edges to `t` does not change how many there are to another node. -/
theorem countP_filter_of_ne {l : List Edge} {q : Edge → Bool} {b t : String} (hb : b ≠ t)
    (hq : ∀ e ∈ l, e.target ≠ t → q e) :
    (l.filter q).countP (·.target == b) = l.countP (·.target == b) := by
  rw [List.countP_filter]
  refine List.countP_congr fun e he => ?_
  rw [Bool.and_eq_true]
  exact and_iff_left_of_imp fun heb => hq e he fun het => hb ((beq_iff_eq.mp heb).symm.trans het)

theorem fanOut_dropEdges (s t : String) (p : EdgeKind → Bool) (a b : String) :
    (g.dropEdges s t p).fanOut a b =
      if a = s ∧ b = t then (g.getEdges s).countP (fun e => e.target == t && !p e.kind)
      else g.fanOut a b := by
  by_cases ha : a = s
  · subst ha
    have hget : (g.dropEdges a t p).getEdges a =
        (g.getEdges a).filter fun e => !(e.target == t && p e.kind) := by
      rw [getEdges, dropEdges, StrMap.get_modify_self, getEdges]
      cases g.edges.get a <;> rfl
    rw [fanOut, hget]
    by_cases hb : b = t
    · subst hb
      rw [if_pos ⟨rfl, rfl⟩, List.countP_filter]
      exact List.countP_congr fun e _ => by cases h : e.target == b <;> simp
    · rw [if_neg (fun h => hb h.2), fanOut]
      exact countP_filter_of_ne hb fun e _ he => by simp [he]
  · rw [if_neg (fun h => ha h.1), fanOut, getEdges, dropEdges, StrMap.get_modify_of_ne _ ha]
    rfl

theorem fanIn_dropEdges (s t : String) (p : EdgeKind → Bool) (a b : String) :
    (g.dropEdges s t p).fanIn a b = if a = s ∧ b = t then 0 else g.fanIn a b := by
  by_cases hb : b = t
  · subst hb
    have hget : (g.dropEdges s b p).getIncoming b = (g.getIncoming b).filter (· != s) := by
      rw [getIncoming, dropEdges, StrMap.get_modify_self, getIncoming]
      cases g.reverseEdges.get b <;> rfl
    rw [fanIn, hget]
    by_cases ha : a = s
    · rw [if_pos ⟨ha, rfl⟩, ha, List.count_eq_zero]
      simp
    · rw [if_neg (fun h => ha h.1), List.count_filter (by simpa using ha), fanIn]
  · rw [if_neg (fun h => hb h.2), fanIn, getIncoming, dropEdges, StrMap.get_modify_of_ne _ hb]
    rfl

/-- **Taking edges out by kind.** -/
theorem indexed_dropEdges_iff (h : g.Indexed) {s t : String} {p : EdgeKind → Bool} :
    (g.dropEdges s t p).Indexed ↔ ∀ e ∈ g.getEdges s, e.target = t → p e.kind := by
  have hzero : (g.getEdges s).countP (fun e => e.target == t && !p e.kind) = 0 ↔
      ∀ e ∈ g.getEdges s, e.target = t → p e.kind := by
    simp [List.countP_eq_zero]
  rw [← hzero]
  constructor
  · intro hd
    have hst := hd s t
    rw [fanIn_dropEdges, fanOut_dropEdges, if_pos ⟨rfl, rfl⟩, if_pos ⟨rfl, rfl⟩] at hst
    exact hst.symm
  · intro h₀ a b
    rw [fanIn_dropEdges, fanOut_dropEdges, h₀, h a b]

/-! ### Removing a memory -/

theorem getEdges_foldl_detachFrom (id : String) (own : List Edge) (a : String) :
    (own.foldl (detachFrom id) g).getEdges a = g.getEdges a := by
  induction own generalizing g with
  | nil => rfl
  | cons e own ih =>
      have hone : (detachFrom id g e).getEdges a = g.getEdges a := by
        unfold detachFrom
        dsimp only
        split <;> rfl
      rw [List.foldl_cons, ih, hone]

/-- Each target of the edges loses the memory as a source. -/
theorem fanIn_foldl_detachFrom (id : String) (own : List Edge) (a b : String) :
    (own.foldl (detachFrom id) g).fanIn a b =
      if a = id ∧ b ∈ own.map Edge.target then 0 else g.fanIn a b := by
  induction own generalizing g with
  | nil => simp
  | cons e own ih =>
      have hone : (detachFrom id g e).fanIn a b =
          if a = id ∧ b = e.target then 0 else g.fanIn a b := by
        rw [← fanIn_dropEdges id e.target (fun _ => true)]
        unfold detachFrom
        dsimp only
        split <;> rfl
      rw [List.foldl_cons, ih, hone]
      simp only [List.map_cons, List.mem_cons]
      grind

theorem getIncoming_foldl_dropTarget (id : String) (sources : List String) (b : String) :
    (sources.foldl (dropTarget id) g).getIncoming b = g.getIncoming b := by
  induction sources generalizing g with
  | nil => rfl
  | cons s sources ih => rw [List.foldl_cons, ih]; rfl

/-- Each source loses its edges to the memory. -/
theorem fanOut_foldl_dropTarget (id : String) (sources : List String) (a b : String) :
    (sources.foldl (dropTarget id) g).fanOut a b =
      if b = id ∧ a ∈ sources then 0 else g.fanOut a b := by
  induction sources generalizing g with
  | nil => simp
  | cons s sources ih =>
      have hone : (dropTarget id g s).fanOut a b =
          if a = s ∧ b = id then 0 else g.fanOut a b := by
        rw [fanOut, getEdges, dropTarget]
        by_cases ha : a = s
        · subst ha
          rw [StrMap.get_modify_self, fanOut, getEdges]
          cases g.edges.get a with
          | none => simp
          | some l =>
              simp only [Option.map_some, Option.getD_some, true_and]
              by_cases hb : b = id
              · subst hb
                simp [List.countP_filter]
              · rw [if_neg hb]
                exact countP_filter_of_ne hb fun e _ he => by simpa using he
        · rw [StrMap.get_modify_of_ne _ ha, if_neg (fun h => ha h.1)]
          rfl
      rw [List.foldl_cons, ih, hone]
      simp only [List.mem_cons]
      grind

theorem fanOut_dropOutgoing (id a b : String) :
    (g.dropOutgoing id).fanOut a b = if a = id then 0 else g.fanOut a b := by
  rw [fanOut, dropOutgoing, getEdges_foldl_detachFrom, getEdges, StrMap.get_remove]
  split <;> rfl

theorem fanIn_dropOutgoing (id a b : String) :
    (g.dropOutgoing id).fanIn a b =
      if a = id ∧ b ∈ (g.getEdges id).map Edge.target then 0 else g.fanIn a b :=
  fanIn_foldl_detachFrom id (g.getEdges id) a b

theorem fanOut_dropIncoming (id a b : String) :
    (g.dropIncoming id).fanOut a b =
      if b = id ∧ a ∈ g.getIncoming id then 0 else g.fanOut a b :=
  fanOut_foldl_dropTarget id (g.getIncoming id) a b

theorem fanIn_dropIncoming (id a b : String) :
    (g.dropIncoming id).fanIn a b = if b = id then 0 else g.fanIn a b := by
  rw [fanIn, dropIncoming, getIncoming_foldl_dropTarget, getIncoming, StrMap.get_remove]
  split <;> rfl

/-- What is left of the edges once a memory is removed, counted at the source. -/
theorem fanOut_removeMemory (h : g.Indexed) (id a b : String) :
    (g.removeMemory id).1.fanOut a b = if a = id ∨ b = id then 0 else g.fanOut a b := by
  have hres : (g.removeMemory id).1.fanOut a b =
      if b = id ∧ a ∈ (g.dropOutgoing id).getIncoming id then 0 else
        if a = id then 0 else g.fanOut a b := by
    rw [← fanOut_dropOutgoing, ← fanOut_dropIncoming]
    rfl
  rw [hres]
  by_cases ha : a = id
  · simp [ha]
  · -- a source that is not listed has no edge to the memory
    have hlisted : a ∉ (g.dropOutgoing id).getIncoming id → g.fanOut a id = 0 := by
      intro hmem
      have hzero : (g.dropOutgoing id).fanIn a id = 0 := List.count_eq_zero.mpr hmem
      rwa [fanIn_dropOutgoing, if_neg (fun h => ha h.1), h] at hzero
    by_cases hb : b = id
    · subst hb
      by_cases hmem : a ∈ (g.dropOutgoing b).getIncoming b
      · simp [hmem]
      · simp [hmem, hlisted hmem]
    · simp [ha, hb]

/-- The same, counted at the target. -/
theorem fanIn_removeMemory (h : g.Indexed) (id a b : String) :
    (g.removeMemory id).1.fanIn a b = if a = id ∨ b = id then 0 else g.fanIn a b := by
  have hres : (g.removeMemory id).1.fanIn a b = if b = id then 0 else
      if a = id ∧ b ∈ (g.getEdges id).map Edge.target then 0 else g.fanIn a b := by
    rw [← fanIn_dropOutgoing, ← fanIn_dropIncoming]
    rfl
  rw [hres]
  by_cases hb : b = id
  · simp [hb]
  · by_cases ha : a = id
    · -- a node the memory has no edge to does not list it
      subst ha
      have hlisted : b ∉ (g.getEdges a).map Edge.target → g.fanIn a b = 0 := by
        intro hmem
        rw [h, fanOut_eq_zero]
        exact fun e he heb => hmem (List.mem_map.mpr ⟨e, he, heb⟩)
      by_cases hmem : b ∈ (g.getEdges a).map Edge.target
      · simp [hb, hmem]
      · simp [hb, hmem, hlisted hmem]
    · simp [ha, hb]

theorem Indexed.removeMemory (h : g.Indexed) (id : String) : (g.removeMemory id).1.Indexed := by
  intro a b
  rw [fanIn_removeMemory h, fanOut_removeMemory h, h]

/-- No edge from or to a memory is left when it is removed. -/
theorem Indexed.ne_of_removeMemory (h : g.Indexed) {id a : String} {e : Edge}
    (he : e ∈ (g.removeMemory id).1.getEdges a) : a ≠ id ∧ e.target ≠ id := by
  have hpos : (g.removeMemory id).1.fanOut a e.target ≠ 0 :=
    fun h₀ => fanOut_eq_zero.mp h₀ e he rfl
  rw [fanOut_removeMemory h] at hpos
  exact not_or.mp fun hid => hpos (if_pos hid)

end MemoryGraph

/-! ### Runs -/

/-- An operation that takes out edges of one kind takes out all that its source has to its
target. -/
def Op.TakesAll (g : MemoryGraph) : Op → Prop
  | .untagMemory memoryId tagName =>
      ∀ e ∈ g.getEdges memoryId, e.target = tagId tagName → e.kind.isHasTag
  | .removeEdge source target kind => ∀ e ∈ g.getEdges source, e.target = target → e.kind == kind
  | _ => True

instance (g : MemoryGraph) : (op : Op) → Decidable (op.TakesAll g)
  | .untagMemory memoryId tagName => inferInstanceAs (Decidable
      (∀ e ∈ g.getEdges memoryId, e.target = tagId tagName → e.kind.isHasTag))
  | .removeEdge source target kind => inferInstanceAs (Decidable
      (∀ e ∈ g.getEdges source, e.target = target → e.kind == kind))
  | .addMemory .. | .removeMemory .. | .tagMemory .. | .addEdge .. | .linkMemories ..
  | .supersede .. | .markContradiction .. => .isTrue trivial

/-- **One operation.** -/
theorem indexed_apply_iff {g : MemoryGraph} (h : g.Indexed) (op : Op) :
    (op.apply g).Indexed ↔ op.TakesAll g := by
  cases op with
  | addMemory entry => exact iff_of_true (h.addMemory entry) trivial
  | removeMemory id => exact iff_of_true (h.removeMemory id) trivial
  | tagMemory memoryId tagName => exact iff_of_true (h.tagMemory memoryId tagName) trivial
  | untagMemory memoryId tagName =>
      exact (MemoryGraph.indexed_congr rfl rfl).trans (MemoryGraph.indexed_dropEdges_iff h)
  | addEdge source target kind => exact iff_of_true (h.addEdge source target kind) trivial
  | removeEdge source target kind => exact MemoryGraph.indexed_dropEdges_iff h
  | linkMemories source target weight =>
      have hadd := h.addEdge source target (.relatesTo weight)
      exact iff_of_true ((MemoryGraph.indexed_congr rfl rfl).mpr hadd) trivial
  | supersede newerId olderId =>
      have hadd := h.addEdge newerId olderId .supersedes
      exact iff_of_true ((MemoryGraph.indexed_congr rfl rfl).mpr hadd) trivial
  | markContradiction idA idB =>
      have hadd := (h.addEdge idA idB .contradicts).addEdge idB idA .contradicts
      exact iff_of_true hadd trivial

variable {ts : List (Transition MemoryGraph Op)} {g : MemoryGraph}

/-- The index is exact in every state of a run exactly when each of its operations takes out all the
edges it should. -/
theorem indexed_run_iff {g₀ : MemoryGraph} (run : Run step g₀ ts g) (h : g₀.Indexed) :
    (∀ t ∈ ts, t.after.Indexed) ↔ ∀ t ∈ ts, t.event.TakesAll t.before := by
  induction run with
  | nil => simp
  | @cons s s₁ s' op ts hs _ ih =>
      obtain rfl : op.apply s = s₁ := Option.some.inj hs
      rw [List.forall_mem_cons, List.forall_mem_cons, indexed_apply_iff h]
      exact and_congr_right fun hop => ih ((indexed_apply_iff h op).mpr hop)

/-- **The reverse index.**  In a run from the empty graph it is exact in every state exactly when
each operation that takes edges out takes out all that its source has to its target; and then no
edge from or to a memory is left by its removal. -/
theorem reverse_index_exact (run : Run step .new ts g) :
    ((∀ t ∈ ts, t.after.Indexed) ↔ ∀ t ∈ ts, t.event.TakesAll t.before) ∧
      ((∀ t ∈ ts, t.event.TakesAll t.before) →
        ∀ t ∈ ts, ∀ x, t.event = .removeMemory x →
          ∀ a, ∀ e ∈ t.after.getEdges a, a ≠ x ∧ e.target ≠ x) := by
  refine ⟨indexed_run_iff run MemoryGraph.indexed_new, fun hall t ht x hx a e he => ?_⟩
  have hbefore : t.before.Indexed :=
    run.before_of (fun t ht hs h => by
      obtain hap : t.event.apply t.before = t.after := Option.some.inj hs
      exact hap ▸ (indexed_apply_iff h t.event).mpr (hall t ht)) MemoryGraph.indexed_new ht
  have hafter : (t.before.removeMemory x).1 = t.after := by
    have hs := Option.some.inj (run.step_of_mem ht)
    rwa [hx] at hs
  rw [← hafter] at he
  exact hbefore.ne_of_removeMemory he

/-- A memory is superseded and contradicted by another, the other is tagged and untagged, and the
older one is removed. -/
theorem reverse_index_exact_tagged :
    ∃ ts g, Run step .new ts g ∧
      ts.map Transition.event =
        [.supersede "a" "b", .markContradiction "a" "b", .tagMemory "a" "x", .untagMemory "a" "x",
          .removeMemory "b"] ∧
      (∀ t ∈ ts, t.after.Indexed) ∧
      ∀ t ∈ ts, t.event = .removeMemory "b" →
        ∀ a, ∀ e ∈ t.after.getEdges a, a ≠ "b" ∧ e.target ≠ "b" := by
  have hexec : (exec step .new
      [.supersede "a" "b", .markContradiction "a" "b", .tagMemory "a" "x", .untagMemory "a" "x",
        .removeMemory "b"]).map (fun r => r.1.all fun t => t.event.TakesAll t.before) =
      some true := by decide +kernel
  obtain ⟨ts, g, run, hes, hobs⟩ := Run.of_observed hexec
  have htakes : ∀ t ∈ ts, t.event.TakesAll t.before := by simpa using hobs
  obtain ⟨hiff, hremoved⟩ := reverse_index_exact run
  exact ⟨ts, g, run, hes, hiff.mpr htakes, fun t ht => hremoved htakes t ht "b"⟩

/-- A memory that is superseded and contradicted by another, once they no longer contradict. -/
def parallelOps : List Op :=
  [.supersede "a" "b", .markContradiction "a" "b", .removeEdge "a" "b" .contradicts,
    .removeEdge "b" "a" .contradicts, .removeMemory "b"]

/-- The index loses the edge that is left, and the edge outlives the memory it points to. -/
theorem parallel_edge_dangles :
    ∃ ts g, Run step .new ts g ∧ ts.map Transition.event = parallelOps ∧
      (∃ t ∈ ts, ¬ t.after.Indexed) ∧ ∃ e ∈ g.getEdges "a", e.target = "b" := by
  have hexec : (exec step .new parallelOps).map
      (fun r => (r.2.fanIn "a" "b", r.2.fanOut "a" "b")) = some (0, 1) := by decide +kernel
  obtain ⟨ts, g, run, hes, hobs⟩ := Run.of_observed hexec
  obtain ⟨hin, hout⟩ := Prod.mk.inj hobs
  have hdangle : ∃ e ∈ g.getEdges "a", e.target = "b" := by
    by_contra hnone
    have hzero := MemoryGraph.fanOut_eq_zero.mpr fun e he heb => hnone ⟨e, he, heb⟩
    exact one_ne_zero (hout.symm.trans hzero)
  refine ⟨ts, g, run, hes, ?_, hdangle⟩
  by_contra hnone
  have hall : ∀ t ∈ ts, t.after.Indexed := fun t ht => by_contra fun h => hnone ⟨t, ht, h⟩
  have hg : g.Indexed := by
    exact run.preserves (fun t ht _ _ => hall t ht) MemoryGraph.indexed_new
  exact zero_ne_one (hin.symm.trans ((hg "a" "b").trans hout))

end Jcode.Memory
