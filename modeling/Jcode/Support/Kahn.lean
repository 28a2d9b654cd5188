import Mathlib

/-!
# Support — Kahn's algorithm

A worklist that peels the vertices of zero in-degree off a finite graph.  The graph is given by
its vertices `ids` and, for each vertex `d`, the list `dependents d` of the vertices that wait
for `d`, with multiplicity; `degree i` counts the entries for `i` in all of these lists.

* `loop_ordered`: the visited vertices are listed in an order in which every vertex comes after
  everything it waits for.
* `loop_queue_nil`: `edgeFuel` steps empty the worklist.
* `visited_iff_acc`: a vertex is visited exactly when no chain of waits from it is endless.
* `visits_all_iff`: every vertex is visited exactly when the waiting relation has a ranking.
-/

namespace Kahn

variable {ι : Type*} [DecidableEq ι]

/-- The worklist's state: the in-degrees left, the vertices to visit, and the vertices visited,
the last one first. -/
structure State (ι : Type*) where
  indegree : ι → ℕ
  queue : List ι
  visited : List ι

/-- Lower the in-degree of `child` by one; a vertex that reaches zero is queued. -/
def relax (s : State ι) (child : ι) : State ι :=
  let degree := s.indegree child - 1
  { s with
    indegree := Function.update s.indegree child degree
    queue := if degree = 0 then child :: s.queue else s.queue }

/-- Visit the queued vertices, last in first out. -/
def loop (dependents : ι → List ι) : ℕ → State ι → State ι
  | 0, s => s
  | fuel + 1, s =>
      match s.queue with
      | [] => s
      | id :: queue =>
          if id ∈ s.visited then loop dependents fuel { s with queue := queue }
          else
            loop dependents fuel
              ((dependents id).foldl relax { s with queue := queue, visited := id :: s.visited })

/-! ### Relaxing a list of dependents -/

theorem relax_visited (s : State ι) (c : ι) : (relax s c).visited = s.visited := rfl

theorem foldl_relax_visited (l : List ι) (s : State ι) :
    (l.foldl relax s).visited = s.visited := by
  induction l generalizing s with
  | nil => rfl
  | cons c l ih => rw [List.foldl_cons, ih, relax_visited]

theorem relax_indegree (s : State ι) (c i : ι) :
    (relax s c).indegree i = s.indegree i - if c = i then 1 else 0 := by
  by_cases h : i = c
  · subst h; simp [relax]
  · simp [relax, Function.update_of_ne h, Ne.symm h]

/-- Relaxing `l` lowers the in-degree of `i` by the number of its entries in `l`. -/
theorem foldl_relax_indegree (l : List ι) (s : State ι) (i : ι) :
    (l.foldl relax s).indegree i = s.indegree i - l.count i := by
  induction l generalizing s with
  | nil => simp
  | cons c l ih =>
      rw [List.foldl_cons, ih, relax_indegree, List.count_cons, Nat.sub_sub, Nat.add_comm]
      simp only [beq_iff_eq]

theorem mem_relax_queue {s : State ι} {c q : ι} (h : q ∈ s.queue) : q ∈ (relax s c).queue := by
  simp only [relax]
  split
  · exact List.mem_cons_of_mem _ h
  · exact h

theorem mem_foldl_relax_queue {l : List ι} {s : State ι} {q : ι} (h : q ∈ s.queue) :
    q ∈ (l.foldl relax s).queue := by
  induction l generalizing s with
  | nil => exact h
  | cons c l ih => exact ih (mem_relax_queue h)

/-- A vertex of `l` whose in-degree ends at zero is queued. -/
theorem queued_of_foldl_relax {l : List ι} {s : State ι} {i : ι} (hi : i ∈ l)
    (h : (l.foldl relax s).indegree i = 0) : i ∈ (l.foldl relax s).queue := by
  induction l generalizing s with
  | nil => cases hi
  | cons c l ih =>
      rw [List.foldl_cons] at h ⊢
      by_cases hl : i ∈ l
      · exact ih hl h
      · obtain rfl : i = c := (List.mem_cons.mp hi).resolve_right hl
        -- the entry at the head is the last one, so it is the one that reaches zero
        rw [foldl_relax_indegree, List.count_eq_zero_of_not_mem hl, Nat.sub_zero] at h
        refine mem_foldl_relax_queue ?_
        have hz : s.indegree i - 1 = 0 := by rwa [relax_indegree, if_pos rfl] at h
        simp [relax, hz]

/-- A queued vertex was queued before, or is one of `l` and has no in-degree left. -/
theorem mem_queue_of_foldl_relax {l : List ι} {s : State ι} {q : ι}
    (h : q ∈ (l.foldl relax s).queue) :
    q ∈ s.queue ∨ q ∈ l ∧ (l.foldl relax s).indegree q = 0 := by
  induction l generalizing s with
  | nil => exact Or.inl h
  | cons c l ih =>
      rw [List.foldl_cons] at h ⊢
      rcases ih h with h' | ⟨hq, hz⟩
      · simp only [relax] at h'
        split at h'
        · rename_i hz
          rcases List.mem_cons.mp h' with rfl | h'
          · refine Or.inr ⟨List.mem_cons_self, ?_⟩
            rw [foldl_relax_indegree, relax_indegree, if_pos rfl, hz, Nat.zero_sub]
          · exact Or.inl h'
        · exact Or.inl h'
      · exact Or.inr ⟨List.mem_cons_of_mem _ hq, hz⟩

theorem foldl_relax_queue_length (l : List ι) (s : State ι) :
    (l.foldl relax s).queue.length ≤ s.queue.length + l.length := by
  induction l generalizing s with
  | nil => simp
  | cons c l ih =>
      rw [List.foldl_cons]
      have hc : (relax s c).queue.length ≤ s.queue.length + 1 := by
        simp only [relax]; split <;> simp
      have := ih (relax s c)
      simp only [List.length_cons]
      omega

/-! ### The graph -/

section Graph
variable (ids : Finset ι) (dependents : ι → List ι)

/-- `i` waits for the vertex `d`. -/
def Waits (i d : ι) : Prop := d ∈ ids ∧ i ∈ dependents d

/-- The in-degree of `i`: its entries in the lists of all vertices. -/
def degree (i : ι) : ℕ := ∑ d ∈ ids, (dependents d).count i

/-- A number of steps that empties a worklist started at `queue`: each vertex in it, and each
edge, is popped once. -/
def edgeFuel (queue : List ι) : ℕ := queue.length + ∑ d ∈ ids, (dependents d).length

/-- Every vertex of the list comes before everything it waits for. -/
def Ordered : List ι → Prop
  | [] => True
  | v :: rest => (∀ d, Waits ids dependents v d → d ∈ rest) ∧ Ordered rest

/-- The worklist's invariant. -/
structure Inv (s : State ι) : Prop where
  indegree_eq : ∀ i, s.indegree i =
    degree ids dependents i - ∑ d ∈ s.visited.toFinset, (dependents d).count i
  queue_zero : ∀ q ∈ s.queue, q ∈ ids ∧ s.indegree q = 0
  visited_nodup : s.visited.Nodup
  visited_sub : ∀ v ∈ s.visited, v ∈ ids
  zero_queued : ∀ i ∈ ids, s.indegree i = 0 → i ∈ s.visited ∨ i ∈ s.queue
  ordered : Ordered ids dependents s.visited

variable {ids dependents}

/-- When the edges from a set of vertices use up the in-degree of `i`, everything `i` waits for
is in the set. -/
theorem waits_mem_of_degree_le {V : Finset ι} {i d : ι} (hV : V ⊆ ids)
    (h : degree ids dependents i ≤ ∑ d ∈ V, (dependents d).count i)
    (hd : Waits ids dependents i d) : d ∈ V := by
  by_contra hn
  have hlt : ∑ d ∈ V, (dependents d).count i < degree ids dependents i :=
    Finset.sum_lt_sum_of_subset hV hd.1 hn (List.count_pos_iff.mpr hd.2) fun _ _ _ => Nat.zero_le _
  omega

theorem Inv.start {degree₀ : ι → ℕ} {queue : List ι}
    (hdeg : ∀ i, degree₀ i = degree ids dependents i)
    (hq : ∀ i, i ∈ queue ↔ i ∈ ids ∧ degree₀ i = 0) :
    Inv ids dependents { indegree := degree₀, queue := queue, visited := [] } where
  indegree_eq i := by simp [hdeg]
  queue_zero q h := (hq q).mp h
  visited_nodup := List.nodup_nil
  visited_sub _ h := nomatch h
  zero_queued i hi hz := Or.inr ((hq i).mpr ⟨hi, hz⟩)
  ordered := trivial

/-- Popping a vertex visited before. -/
theorem Inv.skip {s : State ι} {id : ι} {queue : List ι} (h : Inv ids dependents s)
    (hq : s.queue = id :: queue) (hv : id ∈ s.visited) :
    Inv ids dependents { s with queue := queue } where
  indegree_eq := h.indegree_eq
  queue_zero q hm := h.queue_zero q (hq ▸ List.mem_cons_of_mem _ hm)
  visited_nodup := h.visited_nodup
  visited_sub := h.visited_sub
  zero_queued i hi hz := by
    rcases h.zero_queued i hi hz with hm | hm
    · exact Or.inl hm
    · rcases List.mem_cons.mp (hq ▸ hm) with rfl | hm
      · exact Or.inl hv
      · exact Or.inr hm
  ordered := h.ordered

/-- Popping a new vertex and relaxing its dependents. -/
theorem Inv.visit {s : State ι} {id : ι} {queue : List ι} (hsub : ∀ d, ∀ i ∈ dependents d, i ∈ ids)
    (h : Inv ids dependents s) (hq : s.queue = id :: queue) (hv : id ∉ s.visited) :
    Inv ids dependents
      ((dependents id).foldl relax { s with queue := queue, visited := id :: s.visited }) := by
  have hpop : id ∈ ids ∧ s.indegree id = 0 := h.queue_zero id (hq ▸ List.mem_cons_self)
  have hle : ∀ i, ((dependents id).foldl relax
      { s with queue := queue, visited := id :: s.visited }).indegree i ≤
      s.indegree i := fun i => by
    rw [foldl_relax_indegree]; exact Nat.sub_le _ _
  constructor
  · intro i
    rw [foldl_relax_indegree, foldl_relax_visited, List.toFinset_cons,
      Finset.sum_insert (by simpa using hv), h.indegree_eq, Nat.sub_sub, Nat.add_comm]
  · intro q hm
    rcases mem_queue_of_foldl_relax hm with hm | ⟨hm, hz⟩
    · obtain ⟨h₁, h₂⟩ := h.queue_zero q (hq ▸ List.mem_cons_of_mem _ hm)
      exact ⟨h₁, Nat.le_zero.mp (h₂ ▸ hle q)⟩
    · exact ⟨hsub id q hm, hz⟩
  · rw [foldl_relax_visited]
    exact List.nodup_cons.mpr ⟨hv, h.visited_nodup⟩
  · intro v hm
    rw [foldl_relax_visited] at hm
    rcases List.mem_cons.mp hm with rfl | hm
    · exact hpop.1
    · exact h.visited_sub v hm
  · intro i hi hz
    rw [foldl_relax_visited]
    by_cases hl : i ∈ dependents id
    · exact Or.inr (queued_of_foldl_relax hl hz)
    · rw [foldl_relax_indegree, List.count_eq_zero_of_not_mem hl, Nat.sub_zero] at hz
      rcases h.zero_queued i hi hz with hm | hm
      · exact Or.inl (List.mem_cons_of_mem _ hm)
      · rcases List.mem_cons.mp (hq ▸ hm) with rfl | hm
        · exact Or.inl List.mem_cons_self
        · exact Or.inr (mem_foldl_relax_queue hm)
  · rw [foldl_relax_visited]
    refine ⟨fun d hd => ?_, h.ordered⟩
    have hz := h.indegree_eq id
    rw [hpop.2] at hz
    exact List.mem_toFinset.mp (waits_mem_of_degree_le
      (fun v hm => h.visited_sub v (List.mem_toFinset.mp hm)) (by omega) hd)

theorem Inv.loop (hsub : ∀ d, ∀ i ∈ dependents d, i ∈ ids) :
    ∀ (fuel : ℕ) {s : State ι}, Inv ids dependents s → Inv ids dependents (loop dependents fuel s)
  | 0, _, h => h
  | fuel + 1, s, h => by
      rw [Kahn.loop]
      split
      · exact h
      · rename_i id queue hq
        split
        · rename_i hv; exact Inv.loop hsub fuel (h.skip hq hv)
        · rename_i hv; exact Inv.loop hsub fuel (h.visit hsub hq hv)

/-- **Enough steps empty the worklist.**  The bound counts the queued vertices and the edges out
of the vertices not visited yet. -/
theorem loop_queue_nil (hsub : ∀ d, ∀ i ∈ dependents d, i ∈ ids) :
    ∀ (fuel : ℕ) {s : State ι}, Inv ids dependents s →
      edgeFuel (ids \ s.visited.toFinset) dependents s.queue ≤ fuel →
      (Kahn.loop dependents fuel s).queue = []
  | 0, s, _, hf => by
      rw [Kahn.loop]
      simp only [edgeFuel] at hf
      exact List.length_eq_zero_iff.mp (by omega)
  | fuel + 1, s, h, hf => by
      rw [Kahn.loop]
      split
      · assumption
      · rename_i id queue hq
        rw [edgeFuel, hq, List.length_cons] at hf
        split
        · rename_i hv
          exact loop_queue_nil hsub fuel (h.skip hq hv) (by simp only [edgeFuel]; omega)
        · rename_i hv
          refine loop_queue_nil hsub fuel (h.visit hsub hq hv) ?_
          have hid : id ∈ ids \ s.visited.toFinset :=
            Finset.mem_sdiff.mpr ⟨(h.queue_zero id (hq ▸ List.mem_cons_self)).1, by simpa using hv⟩
          have hsum := Finset.add_sum_erase _ (fun d => (dependents d).length) hid
          have hset : ids \ (id :: s.visited).toFinset = (ids \ s.visited.toFinset).erase id := by
            ext d; simp only [List.toFinset_cons, Finset.mem_sdiff, Finset.mem_insert,
              Finset.mem_erase]; tauto
          have hlen := foldl_relax_queue_length (dependents id)
            { s with queue := queue, visited := id :: s.visited }
          rw [edgeFuel, foldl_relax_visited, hset]
          simp only at hlen hsum ⊢
          omega

/-! ### Orders and rankings -/

/-- The height of `i` in a list: the number of entries from its first occurrence on. -/
def height : List ι → ι → ℕ
  | [], _ => 0
  | v :: rest, i => if i = v then rest.length + 1 else height rest i

theorem height_le (l : List ι) (i : ι) : height l i ≤ l.length := by
  induction l with
  | nil => simp [height]
  | cons v l ih => simp only [height, List.length_cons]; split <;> omega

omit [DecidableEq ι] in
/-- An ordered list contains what its entries wait for. -/
theorem mem_of_ordered {l : List ι} {i d : ι} (ho : Ordered ids dependents l) (hi : i ∈ l)
    (hd : Waits ids dependents i d) : d ∈ l := by
  induction l with
  | nil => cases hi
  | cons v l ih =>
      rcases List.mem_cons.mp hi with rfl | hi
      · exact List.mem_cons_of_mem _ (ho.1 d hd)
      · exact List.mem_cons_of_mem _ (ih ho.2 hi)

/-- Heights in an ordered list decrease along the waiting relation. -/
theorem height_lt_of_ordered {l : List ι} {i d : ι} (ho : Ordered ids dependents l)
    (hn : l.Nodup) (hi : i ∈ l) (hd : Waits ids dependents i d) : height l d < height l i := by
  induction l with
  | nil => cases hi
  | cons v l ih =>
      obtain ⟨hv, hn'⟩ := List.nodup_cons.mp hn
      by_cases e : i = v
      · subst e
        have hdl : d ∈ l := ho.1 d hd
        have hne : d ≠ i := fun e => hv (e ▸ hdl)
        simp only [height, if_neg hne, if_pos]
        exact Nat.lt_succ_of_le (height_le l d)
      · have hil : i ∈ l := (List.mem_cons.mp hi).resolve_left e
        have hlt := ih ho.2 hn' hil
        have e' : d ≠ v := fun e' => hv (e' ▸ mem_of_ordered ho.2 hil hd)
        simpa only [height, if_neg e, if_neg e'] using hlt

/-- Once the worklist is empty, a vertex that was not visited has edges left. -/
theorem indegree_pos_of_unvisited {degree₀ : ι → ℕ} {queue : List ι} {fuel : ℕ}
    (hsub : ∀ d, ∀ i ∈ dependents d, i ∈ ids)
    (hdeg : ∀ i, degree₀ i = degree ids dependents i)
    (hq : ∀ i, i ∈ queue ↔ i ∈ ids ∧ degree₀ i = 0)
    (hf : edgeFuel ids dependents queue ≤ fuel) {i : ι} (hi : i ∈ ids)
    (hn : i ∉ (Kahn.loop dependents fuel ⟨degree₀, queue, []⟩).visited) :
    0 < (Kahn.loop dependents fuel ⟨degree₀, queue, []⟩).indegree i := by
  have h₀ := Inv.start hdeg hq
  have hnil := loop_queue_nil hsub fuel h₀ (by simpa [edgeFuel] using hf)
  refine Nat.pos_of_ne_zero fun hz => ?_
  rcases (h₀.loop hsub fuel).zero_queued i hi hz with hm | hm
  · exact hn hm
  · rw [hnil] at hm; cases hm

omit [DecidableEq ι] in
/-- What an ordered list holds waits for nothing endlessly. -/
theorem acc_of_ordered {l : List ι} {i : ι} (ho : Ordered ids dependents l) (hi : i ∈ l) :
    Acc (fun d i => Waits ids dependents i d) i := by
  induction l generalizing i with
  | nil => cases hi
  | cons v l ih =>
      rcases List.mem_cons.mp hi with rfl | hi
      · exact ⟨i, fun d hd => ih ho.2 (ho.1 d hd)⟩
      · exact ih ho.2 hi

/-- **A vertex is visited** exactly when no chain of waits from it is endless. -/
theorem visited_iff_acc {degree₀ : ι → ℕ} {queue : List ι} {fuel : ℕ}
    (hsub : ∀ d, ∀ i ∈ dependents d, i ∈ ids)
    (hdeg : ∀ i, degree₀ i = degree ids dependents i)
    (hq : ∀ i, i ∈ queue ↔ i ∈ ids ∧ degree₀ i = 0)
    (hf : edgeFuel ids dependents queue ≤ fuel) {i : ι} (hi : i ∈ ids) :
    i ∈ (Kahn.loop dependents fuel ⟨degree₀, queue, []⟩).visited ↔
      Acc (fun d i => Waits ids dependents i d) i := by
  have h := (Inv.start hdeg hq).loop hsub fuel
  refine ⟨acc_of_ordered h.ordered, fun hacc => ?_⟩
  -- an unvisited vertex waits for an unvisited one
  induction hacc with
  | intro i _ ih =>
      by_contra hn
      have hz := (indegree_pos_of_unvisited hsub hdeg hq hf hi hn).ne'
      rw [h.indegree_eq] at hz
      refine hz (Nat.sub_eq_zero_of_le (Finset.sum_le_sum_of_ne_zero fun d hd hc => ?_))
      have hw : Waits ids dependents i d :=
        ⟨hd, List.count_pos_iff.mp (Nat.pos_of_ne_zero hc)⟩
      exact List.mem_toFinset.mpr (ih d hw hd)

/-- **Kahn's algorithm decides acyclicity.**  Started at the vertices of zero in-degree with
`edgeFuel` steps, it visits every vertex exactly when the waiting relation has a ranking. -/
theorem visits_all_iff {degree₀ : ι → ℕ} {queue : List ι} {fuel : ℕ}
    (hsub : ∀ d, ∀ i ∈ dependents d, i ∈ ids)
    (hdeg : ∀ i, degree₀ i = degree ids dependents i)
    (hq : ∀ i, i ∈ queue ↔ i ∈ ids ∧ degree₀ i = 0)
    (hf : edgeFuel ids dependents queue ≤ fuel) :
    (∀ i ∈ ids, i ∈ (Kahn.loop dependents fuel ⟨degree₀, queue, []⟩).visited) ↔
      ∃ rank : ι → ℕ, ∀ i d, Waits ids dependents i d → rank d < rank i := by
  have h := (Inv.start hdeg hq).loop hsub fuel
  constructor
  · intro hall
    exact ⟨height _, fun i d hd =>
      height_lt_of_ordered h.ordered h.visited_nodup (hall i (hsub d i hd.2)) hd⟩
  · rintro ⟨rank, hrank⟩ i hi
    refine (visited_iff_acc hsub hdeg hq hf hi).mpr ?_
    exact Subrelation.accessible (fun {d i} hd => hrank i d hd)
      ((InvImage.wf rank wellFounded_lt).apply i)

omit [DecidableEq ι] in
/-- Among finitely many vertices, no chain of waits is endless exactly when none comes back. -/
theorem acc_all_iff_acyclic : (∀ i, Acc (fun d i => Waits ids dependents i d) i) ↔
    ∀ i, ¬ Relation.TransGen (Waits ids dependents) i i := by
  constructor
  · intro hacc i hcycle
    have hwf : WellFounded (Relation.TransGen fun d i => Waits ids dependents i d) :=
      ⟨fun i => (hacc i).transGen⟩
    exact hwf.irrefl.irrefl i (Relation.transGen_swap.mpr hcycle)
  · intro hacyclic i
    by_contra hacc
    obtain ⟨f, -, hf⟩ := not_acc_iff_exists_descending_chain.mp hacc
    -- an endless chain meets one of its vertices again
    obtain ⟨m, n, hne, heq⟩ := Finite.exists_ne_map_eq_of_infinite
      fun n => (⟨f (n + 1), (hf n).1⟩ : ids)
    have heq : f (m + 1) = f (n + 1) := congrArg Subtype.val heq
    have hchain : ∀ {a b : ℕ}, a < b → Relation.TransGen (Waits ids dependents) (f a) (f b) := by
      intro a b hab
      induction hab with
      | refl => exact .single (hf a)
      | step _ ih => exact ih.tail (hf _)
    rcases lt_or_gt_of_ne hne with hlt | hlt
    · exact hacyclic _ (heq ▸ hchain (Nat.succ_lt_succ hlt))
    · exact hacyclic _ (heq ▸ hchain (Nat.succ_lt_succ hlt))

end Graph

end Kahn
