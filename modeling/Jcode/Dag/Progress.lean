import Jcode.Dag.Preserve
import Jcode.Dag.Sim

/-!
# Dag — no wedge

On a reachable graph with nothing running and nothing failed, either everything is done or some
node is ready.  The simulator leaves nothing running between its batches, so it stops with every
node terminal, out of steps, or behind a failed node.

* `Inv.exists_ready`: an open node of least rank is ready.
* `runFrom_result`: the simulator stops, and says why.
* `reachable_no_wedge`: both, for a reachable graph.
-/

namespace Jcode.Dag

variable {parse : String → Option ConfidenceLevel} {mode : Mode} {g g' : TaskGraph}

/-! ### Ready nodes -/

theorem mem_readyNodes (hg : g.ids.Nodup) {n : TaskNode} :
    n ∈ readyNodes g ↔ n ∈ g.nodes ∧ n.status = .queued ∧ DepsDone g n := by
  rw [readyNodes, List.mem_insertionSort, List.mem_filter, isReady_iff hg]

/-- When nothing runs and nothing has failed, an open node of least rank is ready. -/
theorem Inv.exists_ready (hg : Inv g)
    (hidle : ∀ n ∈ g.nodes, n.status ≠ .running ∧ n.status ≠ .failed)
    (hopen : ¬ ∀ n ∈ g.nodes, n.status = .done) : readyNodes g ≠ [] := by
  have hout : ¬ hg.auditTree.node ⊆ {i | ∃ m ∈ g.nodes, m.id = i ∧ m.status = .done} := by
    intro hsub
    refine hopen fun n hn => ?_
    obtain ⟨m, hm, e, hs⟩ := hsub (TaskGraph.id_mem_ids hn)
    rwa [← TaskGraph.eq_of_id_eq hg.wf.ids_nodup hm hn e]
  obtain ⟨i, hi, hnot, hdeps⟩ := hg.auditTree.exists_minimal hout
  obtain ⟨n, hn, rfl⟩ := TaskGraph.mem_ids.mp hi
  have hq : n.status = .queued := by
    cases hs : n.status with
    | queued => rfl
    | running => exact absurd hs (hidle n hn).1
    | done => exact absurd ⟨n, hn, rfl, hs⟩ hnot
    | failed => exact absurd hs (hidle n hn).2
  exact List.ne_nil_of_mem ((mem_readyNodes hg.wf.ids_nodup).mpr
    ⟨hn, hq, fun d hd => hdeps d ⟨n, hn, rfl, hd⟩⟩)

/-- A ready node can be dispatched to any worker. -/
theorem dispatch_of_ready (hg : g.ids.Nodup) {n : TaskNode} (hn : n ∈ readyNodes g)
    (worker : String) : (dispatch g n.id worker).1 = true := by
  have hready := (mem_readyNodes hg).mp hn
  have h : dispatch g n.id worker = (true, _) := (dispatch_eq_true hg).mpr
    ⟨n, TaskGraph.get_self hg hready.1, (isReady_iff hg).mpr hready.2, rfl⟩
  rw [h]

/-! ### Batches -/

/-- Nothing runs, but perhaps the node `but`. -/
def Idle (g : TaskGraph) (but : Option NodeId) : Prop :=
  ∀ n ∈ g.nodes, n.status = .running → some n.id = but

/-- A write that stops the one running node. -/
theorem Idle.of_modify {id : NodeId} {f : TaskNode → TaskNode} (h : Idle g (some id))
    (hf : ∀ n, (f n).status ≠ .running) : Idle (g.modify id f) none := by
  intro n' hn' hs
  obtain ⟨n, hn, rfl⟩ := List.mem_map.mp hn'
  split at hs
  · exact absurd hs (hf n)
  · rename_i hne
    exact absurd (Option.some.inj (h n hn hs)) hne

theorem Idle.pushAll {l : List TaskNode} {but : Option NodeId} (h : Idle g but)
    (hl : ∀ n ∈ l, n.status ≠ .running) : Idle (g.pushAll l) but := by
  intro n hn hs
  rcases List.mem_append.mp hn with hn | hn
  · exact h n hn hs
  · exact absurd hs (hl n hn)

theorem Idle.joinLevel {but : Option NodeId} (h : Idle g but) (newIds : List NodeId)
    (p : Option NodeId) : Idle (joinLevel newIds g p) but := by
  cases p with
  | none => exact h
  | some q =>
      intro n' hn' hs
      obtain ⟨n, hn, rfl⟩ := List.mem_map.mp hn'
      split at hs
      · rename_i e; rw [if_pos e]; exact h n hn hs
      · rename_i e; rw [if_neg e]; exact h n hn hs

theorem dispatch_idle (hg : g.ids.Nodup) {id : NodeId} {worker : String}
    (h : dispatch g id worker = (true, g')) (hidle : Idle g none) : Idle g' (some id) := by
  obtain ⟨-, -, -, rfl⟩ := (dispatch_eq_true hg).mp h
  intro n' hn' hs
  obtain ⟨n, hn, rfl⟩ := List.mem_map.mp hn'
  split at hs
  · rename_i e; rw [if_pos e]; exact congrArg some e
  · exact absurd (hidle n hn hs) (by simp)

/-- Accepted actions: the node they were handed stops running. -/
theorem applyAction_idle (hg : Inv g) {id : NodeId} {worker : String} {action : WorkerAction}
    (h : applyAction parse g id worker action = (.ok (), g')) (hidle : Idle g (some id)) :
    Idle g' none := by
  have hdiscard : ∀ {α : Type} {o : Outcome α}, discard o = (.ok (), g') → ∃ a, o = (.ok a, g') := by
    rintro α ⟨r, graph⟩ h
    cases r with
    | ok a => simp only [discard, Prod.mk.injEq] at h; exact ⟨a, by rw [h.2]⟩
    | error e => simp [discard, Except.map] at h
  cases action with
  | complete a =>
      obtain ⟨-, -, -, -, -, -, rfl⟩ := completeNode_eq_ok hg.wf.ids_nodup h
      exact hidle.of_modify fun n => by simp
  | fail =>
      obtain ⟨-, -, -, rfl⟩ := failNode_eq_ok hg.wf.ids_nodup h
      exact hidle.of_modify fun n => by simp
  | expand children =>
      obtain ⟨out, h⟩ := hdiscard h
      obtain ⟨n, -, -, -, -, -, -, -, rfl⟩ := expandNode_eq_ok hg.wf.ids_nodup h
      refine (hidle.of_modify fun n => by simp [flipComposite]).pushAll fun n hn => ?_
      rw [expandNodes_queued hn]
      decide
  | injectGap newNodes =>
      obtain ⟨ids, h⟩ := hdiscard h
      obtain ⟨n, -, -, -, -, -, -, -, rfl⟩ := injectFromGate_eq_ok hg.wf.ids_nodup h
      refine Idle.joinLevel ?_ _ n.parent
      refine (hidle.of_modify fun n => by simp [requeueGate]).pushAll fun n hn => ?_
      rw [(specNodes_fresh hn).2.1]
      decide

/-! ### The simulator -/

section Sim
variable {σ : Type} {worker : Worker σ} {maxWorkers maxSteps : ℕ}

/-- The action of a worker is a call of the engine. -/
theorem applyAction_step (g : TaskGraph) (id : NodeId) (name : String) (action : WorkerAction) :
    Step parse g (applyAction parse g id name action).2 := by
  cases action with
  | complete a => exact ⟨.completeNode id name a, rfl⟩
  | expand children => exact ⟨.expandNode id name children, rfl⟩
  | injectGap newNodes => exact ⟨.injectFromGate id name newNodes, rfl⟩
  | fail => exact ⟨.failNode id name, rfl⟩

/-- A batch whose actions are accepted leaves nothing running, and counts its dispatches. -/
theorem runBatch_ok (idx : ℕ) (ready : List (NodeId × NodeKind)) {steps steps' : ℕ} {s s' : σ}
    (h : Reachable parse mode g) (hidle : Idle g none)
    (hrun : runBatch parse worker maxWorkers idx ready steps g s = (.ok steps', g', s')) :
    Reachable parse mode g' ∧ Idle g' none ∧ steps ≤ steps' ∧
      ∀ id kind rest, ready = (id, kind) :: rest → (∀ w, (dispatch g id w).1 = true) →
        steps < steps' := by
  induction ready generalizing idx steps g s with
  | nil =>
      simp only [runBatch, Prod.mk.injEq, Except.ok.injEq] at hrun
      obtain ⟨rfl, rfl, rfl⟩ := hrun
      exact ⟨h, hidle, le_rfl, fun _ _ _ e => nomatch e⟩
  | cons entry ready ih =>
      obtain ⟨id, kind⟩ := entry
      have hnd := h.inv.wf.ids_nodup
      simp only [runBatch] at hrun
      cases hd : dispatch g id s!"w{idx % maxWorkers}" with
      | mk accepted g₁ =>
          rw [hd] at hrun
          cases accepted with
          | false =>
              obtain rfl := dispatch_eq_false hnd hd
              obtain ⟨hr, hi, hle, -⟩ := ih (idx + 1) h hidle hrun
              refine ⟨hr, hi, hle, fun _ _ _ e hready => ?_⟩
              cases e
              have := hready s!"w{idx % maxWorkers}"
              rw [hd] at this; cases this
          | true =>
              have hstep : Step parse g g₁ := ⟨.dispatch id _, (congrArg Prod.snd hd).symm⟩
              have h₁ : Reachable parse mode g₁ := h.steps (.one hstep)
              have hidle₁ := dispatch_idle hnd hd hidle
              dsimp only at hrun
              generalize worker id kind (assembleInput g₁ id) s = decision at hrun
              obtain ⟨action, s₁⟩ := decision
              dsimp only at hrun
              have hact : Step parse g₁ (applyAction parse g₁ id s!"w{idx % maxWorkers}" action).2 :=
                applyAction_step g₁ id _ action
              cases ha : applyAction parse g₁ id s!"w{idx % maxWorkers}" action with
              | mk result g₂ =>
                  rw [ha] at hrun hact
                  cases result with
                  | error e => simp at hrun
                  | ok u =>
                      obtain ⟨hr, hi, hle, -⟩ := ih (idx + 1) (h₁.steps (.one hact))
                        (applyAction_idle h₁.inv ha hidle₁) hrun
                      exact ⟨hr, hi, by omega, fun _ _ _ _ _ => by omega⟩

/-- **The simulator stops**, after at most `maxSteps` steps and a last batch; it reports a stall
only when it is out of steps or some node has failed. -/
theorem runFrom_result (hw : 1 ≤ maxWorkers) (steps : ℕ) (s : σ) (h : Reachable parse mode g)
    (hidle : Idle g none) : ∃ r g' s',
      (∀ fuel, maxSteps - steps < fuel →
        runFrom parse worker maxWorkers maxSteps fuel steps g s = some (r, g', s')) ∧
      ∀ rep, r = .ok rep → rep.stalled = true →
        maxSteps ≤ rep.steps ∨ ∃ n ∈ g'.nodes, n.status = .failed := by
  -- each batch dispatches its first node, so the steps left decrease
  induction hk : maxSteps - steps using Nat.strong_induction_on generalizing steps g s with
  | _ k ih =>
      have hunfold : ∀ {r g' s'}, (∀ fuel, runFrom parse worker maxWorkers maxSteps (fuel + 1) steps
          g s = some (r, g', s')) → ∀ fuel, k < fuel →
          runFrom parse worker maxWorkers maxSteps fuel steps g s = some (r, g', s') :=
        fun hf fuel hfuel => by
          obtain ⟨fuel, rfl⟩ := Nat.exists_eq_add_of_lt (Nat.zero_lt_of_lt hfuel)
          rw [Nat.zero_add]; exact hf fuel
      by_cases hall : g.allTerminal = true
      · refine ⟨.ok (report g steps false), g, s, hunfold fun fuel => ?_, ?_⟩
        · rw [runFrom, if_pos hall]
        · rintro rep ⟨⟩ hs; cases hs
      by_cases hmax : steps ≥ maxSteps
      · refine ⟨.ok (report g steps true), g, s, hunfold fun fuel => ?_, ?_⟩
        · rw [runFrom, if_neg hall, if_pos hmax]
        · rintro rep ⟨⟩ -; exact .inl hmax
      have hg := h.inv
      cases hready : readyNodes g with
      | nil =>
          refine ⟨.ok (report g steps true), g, s, hunfold fun fuel => ?_, ?_⟩
          · rw [runFrom, if_neg hall, if_neg hmax]
            simp [hready]
          · rintro rep ⟨⟩ -
            by_contra hno
            push Not at hno
            have hidle' : ∀ n ∈ g.nodes, n.status ≠ .running ∧ n.status ≠ .failed :=
              fun n hn => ⟨fun hs => Option.some_ne_none _ (hidle n hn hs), hno.2 n hn⟩
            refine hg.exists_ready hidle' (fun hdone => hall ?_) hready
            simp only [TaskGraph.allTerminal, List.all_eq_true]
            exact fun n hn => by simp [TaskNode.isTerminal, hdone n hn]
      | cons n rest =>
          have htake : ((readyNodes g).take maxWorkers).map (fun node => (node.id, node.kind)) =
              (n.id, n.kind) ::
                (rest.take (maxWorkers - 1)).map fun node => (node.id, node.kind) := by
            obtain ⟨m, rfl⟩ := Nat.exists_eq_add_of_le hw
            rw [hready, Nat.add_comm, List.take_succ_cons, List.map_cons, Nat.add_sub_cancel]
          cases hb : runBatch parse worker maxWorkers 0 (((readyNodes g).take maxWorkers).map
            fun node => (node.id, node.kind)) steps g s with
          | mk result out =>
              obtain ⟨g₁, s₁⟩ := out
              have hb' := hb
              rw [htake] at hb'
              cases result with
              | error e =>
                  refine ⟨.error e, g₁, s₁, hunfold fun fuel => ?_, fun rep hrep => ?_⟩
                  · rw [runFrom, if_neg hall, if_neg hmax]
                    simp only [htake, List.isEmpty_cons, Bool.false_eq_true, if_false, hb']
                  · cases hrep
              | ok steps' =>
                  obtain ⟨h₁, hidle₁, -, hlt⟩ := runBatch_ok 0 _ h hidle hb
                  have hlt : steps < steps' := hlt _ _ _ htake fun w =>
                    dispatch_of_ready hg.wf.ids_nodup (hready ▸ List.mem_cons_self) w
                  obtain ⟨r, g₂, s₂, hres, hwhy⟩ :=
                    ih (maxSteps - steps') (by omega) steps' s₁ h₁ hidle₁ rfl
                  refine ⟨r, g₂, s₂, fun fuel hfuel => ?_, hwhy⟩
                  obtain ⟨fuel, rfl⟩ := Nat.exists_eq_add_of_lt (Nat.zero_lt_of_lt hfuel)
                  rw [Nat.zero_add, runFrom, if_neg hall, if_neg hmax]
                  simp only [htake, List.isEmpty_cons, Bool.false_eq_true, if_false, hb']
                  exact hres fuel (by omega)

end Sim

/-- **No wedge.**  In a reachable graph with nothing running and nothing failed, everything is done,
or there are ready nodes and each can be dispatched; and the simulator, started there with at least
one worker, stops, and reports a stall only when it is out of steps or behind a failed node. -/
theorem reachable_no_wedge (h : Reachable parse mode g)
    (hidle : ∀ n ∈ g.nodes, n.status ≠ .running ∧ n.status ≠ .failed) :
    ((∀ n ∈ g.nodes, n.status = .done) ∨ readyNodes g ≠ [] ∧
      ∀ n ∈ readyNodes g, ∀ w, (dispatch g n.id w).1 = true) ∧
    ∀ {σ : Type} (worker : Worker σ) (s : σ) (maxWorkers maxSteps : ℕ), 1 ≤ maxWorkers →
      ∃ r g' s', (∀ fuel, maxSteps < fuel →
        runFrom parse worker maxWorkers maxSteps fuel 0 g s = some (r, g', s')) ∧
      ∀ rep, r = .ok rep → rep.stalled = true →
        maxSteps ≤ rep.steps ∨ ∃ n ∈ g'.nodes, n.status = .failed := by
  refine ⟨?_, fun worker s maxWorkers maxSteps hw => ?_⟩
  · by_cases hdone : ∀ n ∈ g.nodes, n.status = .done
    · exact .inl hdone
    · exact .inr ⟨h.inv.exists_ready hidle hdone,
        fun n hn w => dispatch_of_ready h.inv.wf.ids_nodup hn w⟩
  · exact runFrom_result hw 0 s h fun n hn hs => absurd hs (hidle n hn).1

/-- The seeded graph is not wedged. -/
theorem deepRun_no_wedge : readyNodes (deepRun 1) ≠ [] := by
  rcases (reachable_no_wedge (deepRun_reachable 1) (by decide +kernel)).1 with h | ⟨h, -⟩
  · exact absurd h (by decide +kernel)
  · exact h

end Jcode.Dag
