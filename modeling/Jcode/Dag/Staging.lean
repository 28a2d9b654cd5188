import Jcode.Dag.Graph

/-!
# Dag — what the staging steps of a mutation do

One lemma for each helper of `Ops.lean`: what it says about the specs and the graph when it
succeeds.
-/

namespace Jcode.Dag
open Rust

variable {g : TaskGraph}

/-! ### Outcomes -/

/-- A mutation that succeeded staged the graph it left behind. -/
theorem commit_eq_ok {α : Type} {r : Except DagError (α × TaskGraph)} {a : α} {g' : TaskGraph} :
    commit g r = (.ok a, g') ↔ r = .ok (a, g') := by
  rcases r with e | ⟨b, staged⟩ <;> simp [commit]

/-- **A failed mutation leaves the graph unchanged.** -/
theorem commit_error {α : Type} {r : Except DagError (α × TaskGraph)} {e : DagError}
    (h : (commit g r).1 = .error e) : (commit g r).2 = g := by
  rcases r with e | ⟨b, staged⟩
  · rfl
  · cases h

/-! ### Spec ids and dependencies -/

theorem validatedSpecId_eq_ok {spec : NodeSpec} {op : String} {id : NodeId} :
    validatedSpecId spec op = .ok id ↔ spec.id = some id ∧ (trim id).isEmpty = false := by
  simp only [validatedSpecId, bind_eq_ok, okOr_eq_ok, ensure_eq_ok, pure, Except.pure,
    Except.ok.injEq]
  constructor
  · rintro ⟨_, h, -, ht, rfl⟩; exact ⟨h, ht⟩
  · rintro ⟨h, ht⟩; exact ⟨id, h, (), ht, rfl⟩

theorem nodeId_of_eq_some {spec : NodeSpec} {id : NodeId} (h : spec.id = some id) :
    spec.nodeId = id := by
  rw [NodeSpec.nodeId, h]; rfl

/-- New ids are those of the specs, distinct and free in the graph. -/
theorem newNodeIds_eq_ok {op : String} {specs : List NodeSpec} {seen ids : List NodeId}
    (h : newNodeIds g op seen specs = .ok ids) (hseen : seen.Nodup) :
    ids = seen ++ specs.map NodeSpec.nodeId ∧ ids.Nodup ∧
      ∀ spec ∈ specs, spec.nodeId ∉ g.ids := by
  induction specs generalizing seen with
  | nil =>
      simp only [newNodeIds, Except.ok.injEq] at h
      subst h
      exact ⟨by simp, hseen, by simp⟩
  | cons spec specs ih =>
      simp only [newNodeIds, bind_eq_ok, validatedSpecId_eq_ok, ensure_eq_ok] at h
      obtain ⟨id, ⟨hid, -⟩, -, hfree, h⟩ := h
      obtain rfl := nodeId_of_eq_some hid
      simp only [TaskGraph.contains_iff, List.contains_eq_mem, decide_eq_true_eq, not_or] at hfree
      obtain ⟨rfl, hn, hnew⟩ := ih h (hseen.append (List.nodup_singleton _) (by simpa using hfree.2))
      refine ⟨by simp, hn, fun s hs => ?_⟩
      rcases List.mem_cons.mp hs with rfl | hs
      · exact hfree.1
      · exact hnew s hs

theorem checkDependencies_eq_ok {known : List NodeId} {specs : List (NodeId × NodeSpec)} :
    checkDependencies g known specs = .ok () ↔
      ∀ e ∈ specs, ∀ d ∈ e.2.dependsOn, d ∈ known ∨ d ∈ g.ids := by
  induction specs with
  | nil => simp [checkDependencies]
  | cons e specs ih =>
      simp only [checkDependencies, List.forall_mem_cons, ← ih]
      split
      · rename_i d hf
        have hd := List.find?_some hf
        simp only [Bool.and_eq_true, Bool.not_eq_true', ← Bool.not_eq_true,
          TaskGraph.contains_iff, List.contains_eq_mem, decide_eq_true_eq] at hd
        simp only [reduceCtorEq, false_iff, not_and]
        exact fun h => absurd (h d (List.mem_of_find?_eq_some hf)) (by tauto)
      · rename_i hf
        simp only [List.find?_eq_none, Bool.and_eq_true, Bool.not_eq_true', ← Bool.not_eq_true,
          TaskGraph.contains_iff, List.contains_eq_mem, decide_eq_true_eq, not_and, not_not] at hf
        exact ⟨fun h => ⟨fun d hd => or_iff_not_imp_left.mpr (hf d hd), h⟩, fun h => h.2⟩

/-- The check of `expand_node` and `inject_from_gate`, which pair each spec with its id. -/
theorem checkDependencies_zip {known : List NodeId} {specs : List NodeSpec}
    (h : checkDependencies g known ((specs.map NodeSpec.nodeId).zip specs) = .ok ()) :
    ∀ spec ∈ specs, ∀ d ∈ spec.dependsOn, d ∈ known ∨ d ∈ g.ids := by
  rw [← List.map_prod_right_eq_zip] at h
  exact fun spec hs => checkDependencies_eq_ok.mp h _ (List.mem_map_of_mem hs)

/-! ### Pushing nodes -/

@[simp] theorem specToNode_id (spec : NodeSpec) (p : Option NodeId) (o : NodeOrigin) :
    (specToNode spec p o).id = spec.nodeId := rfl

theorem map_specToNode_ids (specs : List NodeSpec) (p : Option NodeId) (o : NodeOrigin) :
    (specs.map fun spec => specToNode spec p o).map (·.id) = specs.map NodeSpec.nodeId := by
  simp [Function.comp_def]

theorem pushSpecs_eq (specs : List NodeSpec) (p : Option NodeId) (o : NodeOrigin) :
    pushSpecs g specs p o =
      { g with nodes := g.nodes ++ specs.map fun spec => specToNode spec p o } := by
  induction specs generalizing g with
  | nil => simp [pushSpecs]
  | cons spec specs ih =>
      rw [pushSpecs, List.foldl_cons, ← pushSpecs, ih]
      simp

/-! ### Gate ids -/

/-- While `gateIdFrom` returns a taken id, every counter it tried is taken. -/
theorem gateIdFrom_taken {base : String} {fuel n : ℕ} (h : gateIdFrom g base fuel n ∈ g.ids) :
    ∀ k ≤ fuel, base ++ toString (n + k) ∈ g.ids := by
  induction fuel generalizing n with
  | zero =>
      intro k hk
      obtain rfl : k = 0 := Nat.le_zero.mp hk
      exact h
  | succ fuel ih =>
      rw [gateIdFrom] at h
      split at h
      · rename_i hc
        intro k hk
        cases k with
        | zero => exact TaskGraph.contains_iff.mp hc
        | succ k =>
            have := ih h k (Nat.le_of_succ_le_succ hk)
            rwa [Nat.add_assoc, Nat.add_comm 1 k] at this
      · rename_i hc
        exact absurd (TaskGraph.contains_iff.mpr h) hc

/-- **A gate id is fresh**: the counters tried are one more than the nodes. -/
theorem uniqueGateId_fresh (g : TaskGraph) (id : NodeId) : uniqueGateId g id ∉ g.ids := by
  simp only [uniqueGateId]
  split
  · intro h
    let tried := (List.range (g.nodes.length + 1)).map fun k =>
      s!"{id}::gate" ++ toString (2 + k)
    have hsub : tried ⊆ g.ids := fun c hc => by
      obtain ⟨k, hk, rfl⟩ := List.mem_map.mp hc
      exact gateIdFrom_taken h k (Nat.le_of_lt_succ (List.mem_range.mp hk))
    have hnodup : tried.Nodup := List.nodup_range.map fun a b hab =>
      Nat.add_left_cancel (Nat.repr_injective ((String.append_right_inj _).mp hab))
    have hlen := (List.subperm_of_subset hnodup hsub).length_le
    simp [tried, TaskGraph.ids] at hlen
  · rename_i h
    exact fun h' => h (TaskGraph.contains_iff.mpr h')

end Jcode.Dag
