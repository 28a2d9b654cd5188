import Jcode.Memory.Graph
import Jcode.Memory.TopK
import Jcode.Support.Text
import Mathlib.Algebra.Order.Field.Basic

/-!
# Memory — cascade retrieval

`MemoryGraph::cascade_retrieve`: from the memories that an embedding search found, the graph is
searched breadth first, along edges between memories and through shared tags, and the best of what
was found is returned.  A memory is queued again when a better score is found for it before it is
expanded; each is expanded once.

The scores are numbers of an ordered field, `value` reads the weights of the edges as such, and a
`HashMap` is iterated in any order.  Memories and tags are told apart by their ids (`IdsApart`): a
tag's has a prefix that no memory's has.

* `cascade_retrieve_spec`: what is found is what is within `max_depth` hops of a seed.
-/

namespace Jcode.Memory
open Rust

/-- A `HashMap` of scores, with the keys it has. -/
structure Scores (K : Type) where
  score : StrMap K
  keys : List String
  nodup : keys.Nodup
  mem_keys : ∀ id, id ∈ keys ↔ (score.get id).isSome

section
variable {K : Type}

namespace Scores

def empty : Scores K where
  score := .empty
  keys := []
  nodup := .nil
  mem_keys _ := by simp [StrMap.empty]

def insert (m : Scores K) (id : String) (s : K) : Scores K where
  score := m.score.insert id s
  keys := if (m.score.get id).isSome then m.keys else m.keys ++ [id]
  nodup := by
    split
    · exact m.nodup
    · next h =>
        refine List.nodup_append'.mpr ⟨m.nodup, List.nodup_singleton id, ?_⟩
        exact List.disjoint_singleton.mpr fun hmem => h ((m.mem_keys id).mp hmem)
  mem_keys x := by
    have hx := m.mem_keys x
    rw [StrMap.get_insert]
    by_cases hxid : x = id
    · subst hxid
      by_cases h : (m.score.get x).isSome
      · simpa [h] using hx
      · simp [h]
    · by_cases h : (m.score.get id).isSome
      · simpa [h, hxid] using hx
      · simpa [h, hxid] using hx

theorem mem_keys_insert {m : Scores K} {id x : String} {s : K} :
    x ∈ (m.insert id s).keys ↔ x = id ∨ x ∈ m.keys := by
  rw [mem_keys, m.mem_keys, insert, StrMap.get_insert]
  split
  · next h => simp [h]
  · next h => simp [h]

/-- The entries, as a `HashMap` is iterated. -/
def entries (order : IterOrder) (m : Scores K) : List (String × K) :=
  (order.order m.keys).filterMap fun id => (m.score.get id).map (id, ·)

end Scores

/-- The results so far, and the queue of what is to be expanded, with score and depth. -/
structure Frontier (K : Type) where
  results : Scores K
  queue : List (String × K × ℕ)

variable [Field K] [LinearOrder K]

/-- `EdgeKind::traversal_weight`. -/
def EdgeKind.traversalWeight (value : Float32 → K) : EdgeKind → K
  | .hasTag => 8 / 10
  | .inCluster => 6 / 10
  | .relatesTo weight => value weight
  | .supersedes => 9 / 10
  | .contradicts => 3 / 10
  | .derivedFrom => 7 / 10

namespace MemoryGraph
variable (g : MemoryGraph) (value : Float32 → K)

def isMemory (id : String) : Bool := (g.memories.get id).isSome

/-- A memory that is not expanded yet is queued if the score is better than the one it has. -/
def relax (visited : List String) (depth : ℕ) (newScore : K) (s : Frontier K) (id : String) :
    Frontier K :=
  if id ∉ visited ∧ g.isMemory id then
    let existing := (s.results.score.get id).getD 0
    if existing < newScore then
      { results := s.results.insert id newScore, queue := s.queue ++ [(id, newScore, depth)] }
    else s
  else s

/-- One edge of a node that is expanded. -/
def traverse (visited : List String) (score : K) (depth : ℕ) (s : Frontier K) (edge : Edge) :
    Frontier K :=
  if edge.target ∈ visited then s
  else
    let decay : K := (7 / 10) ^ (depth + 1)
    let newScore := score * edge.kind.traversalWeight value * decay
    if startsWith edge.target "tag:" then
      (g.getIncoming edge.target).foldl (g.relax visited (depth + 1) newScore) s
    else g.relax visited (depth + 1) newScore s edge.target

/-- The nodes that an edge leads to: what is recorded at its tag, or its target. -/
def targets (edge : Edge) : List String :=
  if startsWith edge.target "tag:" then g.getIncoming edge.target else [edge.target]

def hopTargets (id : String) : List String := (g.getEdges id).flatMap g.targets

/-- How often the search can pop a node that has this many levels below it. -/
def cost : ℕ → String → ℕ
  | 0, _ => 1
  | levels + 1, id => 1 + ((g.hopTargets id).map (cost levels)).sum

def queueCost (maxDepth : ℕ) (queue : List (String × K × ℕ)) : ℕ :=
  (queue.map fun e => g.cost (maxDepth - e.2.2) e.1).sum

variable {g value} {visited : List String} {s : Frontier K}

section
omit [Field K] [LinearOrder K]

/-- What is queued next. -/
def Queues (depth : ℕ) (ids : List String) (s s' : Frontier K) : Prop :=
  ∃ added, s'.queue = s.queue ++ added ∧ (added.map (·.1)).Sublist ids ∧
    ∀ e ∈ added, e.2.2 = depth

theorem Queues.refl (depth : ℕ) (s : Frontier K) : Queues depth [] s s :=
  ⟨[], (List.append_nil _).symm, .slnil, List.forall_mem_nil _⟩

theorem Queues.none (depth : ℕ) (ids : List String) (s : Frontier K) : Queues depth ids s s :=
  ⟨[], (List.append_nil _).symm, List.nil_sublist _, List.forall_mem_nil _⟩

theorem Queues.append {depth : ℕ} {ids ids' : List String} {s s' s'' : Frontier K}
    (h : Queues depth ids s s') (h' : Queues depth ids' s' s'') :
    Queues depth (ids ++ ids') s s'' := by
  obtain ⟨added, hqueue, hsub, hdepth⟩ := h
  obtain ⟨added', hqueue', hsub', hdepth'⟩ := h'
  refine ⟨added ++ added', by rw [hqueue', hqueue, List.append_assoc], ?_,
    List.forall_mem_append.mpr ⟨hdepth, hdepth'⟩⟩
  rw [List.map_append]
  exact hsub.append hsub'

theorem queues_foldl {α : Type*} {f : Frontier K → α → Frontier K} {depth : ℕ}
    {ids : α → List String} (h : ∀ s a, Queues depth (ids a) s (f s a)) (l : List α)
    (s : Frontier K) : Queues depth (l.flatMap ids) s (l.foldl f s) := by
  induction l generalizing s with
  | nil => exact .refl depth s
  | cons a l ih => exact (h s a).append (ih (f s a))

end

theorem queues_relax (depth : ℕ) (newScore : K) (s : Frontier K) (id : String) :
    Queues depth [id] s (g.relax visited depth newScore s id) := by
  unfold relax
  split
  · dsimp only
    split
    · exact ⟨[(id, newScore, depth)], rfl, .refl _, by simp⟩
    · exact .none _ _ s
  · exact .none _ _ s

/-- An edge offers each of its targets. -/
theorem traverse_eq (score : K) (depth : ℕ) (s : Frontier K) (edge : Edge) :
    g.traverse value visited score depth s edge =
      if edge.target ∈ visited then s
      else (g.targets edge).foldl (g.relax visited (depth + 1)
        (score * edge.kind.traversalWeight value * (7 / 10) ^ (depth + 1))) s := by
  unfold traverse targets
  split
  · rfl
  · dsimp only
    split
    · rfl
    · rfl

theorem queues_traverse (score : K) (depth : ℕ) (s : Frontier K) (edge : Edge) :
    Queues (depth + 1) (g.targets edge) s (g.traverse value visited score depth s edge) := by
  rw [traverse_eq]
  split
  · exact .none _ _ s
  · simpa only [List.flatMap_singleton'] using queues_foldl (queues_relax _ _) (g.targets edge) s

variable (g value) in
/-- A node is expanded. -/
def expand (visited : List String) (score : K) (depth : ℕ) (id : String) (s : Frontier K) :
    Frontier K :=
  (g.getEdges id).foldl (g.traverse value visited score depth) s

theorem queues_expand (score : K) (depth : ℕ) (id : String) (s : Frontier K) :
    Queues (depth + 1) (g.hopTargets id) s (g.expand value visited score depth id s) :=
  queues_foldl (queues_traverse score depth) (g.getEdges id) s

omit [Field K] [LinearOrder K] in
theorem cost_pos (levels : ℕ) (id : String) : 0 < g.cost levels id := by
  cases levels with
  | zero => exact Nat.one_pos
  | succ levels =>
      rw [cost]
      omega

omit [Field K] [LinearOrder K] in
theorem Queues.cost_lt {depth maxDepth : ℕ} {id : String} {s s' : Frontier K}
    (h : Queues (depth + 1) (g.hopTargets id) s s') (hdepth : depth < maxDepth) :
    g.queueCost maxDepth s'.queue <
      g.cost (maxDepth - depth) id + g.queueCost maxDepth s.queue := by
  obtain ⟨added, hqueue, hsub, hadded⟩ := h
  obtain ⟨levels, hlevels⟩ : ∃ levels, maxDepth - depth = levels + 1 :=
    ⟨maxDepth - depth - 1, by omega⟩
  have hcost : g.queueCost maxDepth added = ((added.map (·.1)).map (g.cost levels)).sum := by
    rw [queueCost, List.map_map]
    congr 1
    refine List.map_congr_left fun e he => ?_
    rw [hadded e he, show maxDepth - (depth + 1) = levels by omega]
    rfl
  have hle := (hsub.map (g.cost levels)).sum_le_sum fun _ _ => Nat.zero_le _
  rw [hqueue, queueCost, List.map_append, List.sum_append, ← queueCost, ← queueCost, hcost, hlevels,
    cost]
  omega

omit [Field K] [LinearOrder K] in
theorem queueCost_cons (maxDepth : ℕ) (e : String × K × ℕ) (rest : List (String × K × ℕ)) :
    g.queueCost maxDepth (e :: rest) =
      g.cost (maxDepth - e.2.2) e.1 + g.queueCost maxDepth rest := List.sum_cons

variable (g value) in
/-- The search: a node is expanded when it is popped for the first time. -/
def search (maxDepth : ℕ) (visited : List String) (s : Frontier K) : Scores K :=
  match _hqueue : s.queue with
  | [] => s.results
  | (id, score, depth) :: rest =>
      if id ∈ visited then search maxDepth visited { s with queue := rest }
      else if _hdepth : maxDepth ≤ depth then
        search maxDepth (id :: visited) { s with queue := rest }
      else search maxDepth (id :: visited)
        (g.expand value (id :: visited) score depth id { s with queue := rest })
termination_by g.queueCost maxDepth s.queue
decreasing_by
  all_goals rw [_hqueue, queueCost_cons]
  · exact Nat.lt_add_of_pos_left (cost_pos _ _)
  · exact Nat.lt_add_of_pos_left (cost_pos _ _)
  · exact (queues_expand score depth id { s with queue := rest }).cost_lt (not_le.mp ‹_›)

/-- The seeds that are memories. -/
def seeds (g : MemoryGraph) (seedIds : List String) (seedScores : List K) : List (String × K) :=
  (seedIds.zip seedScores).filter fun seed => g.isMemory seed.1

/-- No memory has the id of a tag, `format!("tag:{}", name)`. -/
def IdsApart (g : MemoryGraph) : Prop := ∀ id, g.isMemory id → ¬ startsWith id "tag:"

/-- A hop: an edge to a memory, or to a tag at which the memory is recorded. -/
def Hop (g : MemoryGraph) (a b : String) : Prop :=
  g.isMemory b ∧ ((∃ edge ∈ g.getEdges a, edge.target = b) ∨
    ∃ edge ∈ g.getEdges a, startsWith edge.target "tag:" ∧ b ∈ g.getIncoming edge.target)

/-- A path of hops, by their number. -/
inductive Hops (g : MemoryGraph) (a : String) : ℕ → String → Prop where
  | refl : Hops g a 0 a
  | hop {n : ℕ} {b c : String} (h : Hops g a n b) (hop : g.Hop b c) : Hops g a (n + 1) c

/-- The node is so many hops from a seed. -/
def Reached (g : MemoryGraph) (seeds : List (String × K)) (n : ℕ) (id : String) : Prop :=
  ∃ seed ∈ seeds, g.Hops seed.1 n id

omit [Field K] [LinearOrder K] in
theorem hop_iff (hids : g.IdsApart) {a b : String} :
    g.Hop a b ↔ g.isMemory b ∧ b ∈ g.hopTargets a := by
  refine and_congr_right fun hb => ?_
  rw [hopTargets, List.mem_flatMap]
  constructor
  · rintro (⟨edge, hedge, rfl⟩ | ⟨edge, hedge, htag, hin⟩)
    · exact ⟨edge, hedge, by simp [targets, hids _ hb]⟩
    · exact ⟨edge, hedge, by simpa [targets, htag] using hin⟩
  · rintro ⟨edge, hedge, hin⟩
    by_cases htag : startsWith edge.target "tag:"
    · exact .inr ⟨edge, hedge, htag, by simpa [targets, htag] using hin⟩
    · have hb : b = edge.target := by simpa [targets, htag] using hin
      exact .inl ⟨edge, hedge, hb.symm⟩

/-! ### What an expansion adds -/

/-- What an expansion adds to the queue, and so to the results. -/
structure Adds (g : MemoryGraph) (visited : List String) (depth : ℕ) (ids : List String)
    (s : Frontier K) (added : List (String × K × ℕ)) (s' : Frontier K) : Prop where
  queue : s'.queue = s.queue ++ added
  fresh : ∀ e ∈ added, 0 < e.2.1 ∧ e.2.2 = depth ∧ e.1 ∈ ids ∧ g.isMemory e.1 ∧ e.1 ∉ visited
  keys : ∀ id, id ∈ s'.results.keys ↔ id ∈ s.results.keys ∨ ∃ e ∈ added, e.1 = id
  better : ∀ id r, s.results.score.get id = some r →
    ∃ r', s'.results.score.get id = some r' ∧ r ≤ r'
  covers : ∀ id ∈ ids, g.isMemory id → id ∈ visited ∨ id ∈ s'.results.keys

theorem Adds.nothing {depth : ℕ} {ids : List String}
    (h : ∀ id ∈ ids, g.isMemory id → id ∈ visited ∨ id ∈ s.results.keys) :
    g.Adds visited depth ids s [] s where
  queue := (List.append_nil _).symm
  fresh := List.forall_mem_nil _
  keys := by simp
  better id r hr := ⟨r, hr, le_rfl⟩
  covers := h

theorem Adds.append {depth : ℕ} {ids ids' : List String} {added added' : List (String × K × ℕ)}
    {s s' s'' : Frontier K} (h : g.Adds visited depth ids s added s')
    (h' : g.Adds visited depth ids' s' added' s'') :
    g.Adds visited depth (ids ++ ids') s (added ++ added') s'' where
  queue := by rw [h'.queue, h.queue, List.append_assoc]
  fresh := List.forall_mem_append.mpr
    ⟨fun e he => by
      obtain ⟨hpos, hdepth, hid, hmem⟩ := h.fresh e he
      exact ⟨hpos, hdepth, List.mem_append_left _ hid, hmem⟩,
    fun e he => by
      obtain ⟨hpos, hdepth, hid, hmem⟩ := h'.fresh e he
      exact ⟨hpos, hdepth, List.mem_append_right _ hid, hmem⟩⟩
  keys id := by
    rw [h'.keys, h.keys, or_assoc]
    simp only [List.mem_append, or_and_right, exists_or]
  better id r hr := by
    obtain ⟨r', hr', hle⟩ := h.better id r hr
    obtain ⟨r'', hr'', hle'⟩ := h'.better id r' hr'
    exact ⟨r'', hr'', hle.trans hle'⟩
  covers := List.forall_mem_append.mpr
    ⟨fun id hid hmem => (h.covers id hid hmem).imp_right fun hkey => (h'.keys id).mpr (.inl hkey),
    h'.covers⟩

variable [IsStrictOrderedRing K]

section
omit [Field K] [LinearOrder K] [IsStrictOrderedRing K]

/-- The node is expanded, or queued, at this depth or an earlier one; `dep` is where the nodes were
expanded. -/
def Settled (dep : String → ℕ) (visited : List String) (queue : List (String × K × ℕ)) (id : String)
    (n : ℕ) : Prop :=
  (id ∈ visited ∧ dep id ≤ n) ∨ ∃ e ∈ queue, e.1 = id ∧ e.2.2 ≤ n

variable {dep : String → ℕ} {queue added : List (String × K × ℕ)} {e : String × K × ℕ} {id : String}
  {n : ℕ}

theorem Settled.append (h : Settled dep visited queue id n) :
    Settled dep visited (queue ++ added) id n :=
  h.imp_right fun ⟨e, he, hid⟩ => ⟨e, List.mem_append_left _ he, hid⟩

theorem Settled.skip (h : Settled dep visited (e :: queue) id n) (hvisited : e.1 ∈ visited)
    (hdep : dep e.1 ≤ e.2.2) : Settled dep visited queue id n := by
  obtain h | ⟨e', he', rfl, hn⟩ := h
  · exact .inl h
  · obtain rfl | he' := List.mem_cons.mp he'
    · exact .inl ⟨hvisited, hdep.trans hn⟩
    · exact .inr ⟨e', he', rfl, hn⟩

/-- The depth of the node that is expanded now. -/
def visit (dep : String → ℕ) (e : String × K × ℕ) : String → ℕ := Function.update dep e.1 e.2.2

theorem visit_self (dep : String → ℕ) (e : String × K × ℕ) : visit dep e e.1 = e.2.2 :=
  Function.update_self ..

theorem visit_of_mem (h : id ∈ visited) (he : e.1 ∉ visited) : visit dep e id = dep id :=
  Function.update_of_ne (ne_of_mem_of_not_mem h he) ..

theorem Settled.visit (h : Settled dep visited (e :: queue) id n) (he : e.1 ∉ visited) :
    Settled (visit dep e) (e.1 :: visited) queue id n := by
  obtain ⟨hmem, hn⟩ | ⟨e', he', rfl, hn⟩ := h
  · exact .inl ⟨List.mem_cons_of_mem _ hmem, by rwa [visit_of_mem hmem he]⟩
  · obtain rfl | he' := List.mem_cons.mp he'
    · exact .inl ⟨List.mem_cons_self, by rwa [visit_self]⟩
    · exact .inr ⟨e', he', rfl, hn⟩

end

/-- What holds of the search whenever a node is about to be popped. -/
structure Searched (g : MemoryGraph) (seeds : List (String × K)) (maxDepth : ℕ) (dep : String → ℕ)
    (visited : List String) (s : Frontier K) : Prop where
  positive : ∀ e ∈ s.queue, 0 < e.2.1
  memories : ∀ id ∈ visited, g.isMemory id
  reached : ∀ e ∈ s.queue, g.isMemory e.1 ∧ e.2.2 ≤ maxDepth ∧ g.Reached seeds e.2.2 e.1
  found : ∀ id ∈ s.results.keys, ∃ n ≤ maxDepth, g.Reached seeds n id
  keys : ∀ id, id ∈ s.results.keys ↔ id ∈ visited ∨ ∃ e ∈ s.queue, e.1 = id
  sorted : s.queue.Pairwise fun e e' => e.2.2 ≤ e'.2.2
  span : ∀ e ∈ s.queue, ∀ e' ∈ s.queue, e'.2.2 ≤ e.2.2 + 1
  before : ∀ v ∈ visited, ∀ e ∈ s.queue, dep v ≤ e.2.2
  seeded : ∀ seed ∈ seeds, Settled dep visited s.queue seed.1 0
  scores : ∀ seed ∈ seeds, ∃ r, s.results.score.get seed.1 = some r ∧ seed.2 ≤ r

/-- The hops from these nodes are settled. -/
def Closed (g : MemoryGraph) (maxDepth : ℕ) (dep : String → ℕ) (visited : List String)
    (queue : List (String × K × ℕ)) (vs : List String) : Prop :=
  ∀ v ∈ vs, dep v < maxDepth → ∀ id, g.Hop v id → Settled dep visited queue id (dep v + 1)

namespace Searched
variable {seeds : List (String × K)} {maxDepth : ℕ} {dep : String → ℕ} {e : String × K × ℕ}
  {rest : List (String × K × ℕ)} {results : Scores K}

omit [IsStrictOrderedRing K] in
/-- A node that was expanded is popped again. -/
theorem skip (h : Searched g seeds maxDepth dep visited ⟨results, e :: rest⟩)
    (he : e.1 ∈ visited) : Searched g seeds maxDepth dep visited ⟨results, rest⟩ where
  positive := (List.forall_mem_cons.mp h.positive).2
  memories := h.memories
  reached := (List.forall_mem_cons.mp h.reached).2
  found := h.found
  keys id := by
    rw [h.keys]
    simp only [List.mem_cons, exists_eq_or_imp]
    rw [or_left_comm]
    exact or_iff_right_of_imp fun heq => .inl (heq ▸ he)
  sorted := (List.pairwise_cons.mp h.sorted).2
  span e he e' he' := h.span e (List.mem_cons_of_mem _ he) e' (List.mem_cons_of_mem _ he')
  before v hv e he := h.before v hv e (List.mem_cons_of_mem _ he)
  seeded seed hseed :=
    (h.seeded seed hseed).skip he (h.before e.1 he e List.mem_cons_self)
  scores := h.scores

omit [IsStrictOrderedRing K] in
/-- A node is popped for the first time. -/
theorem visit (h : Searched g seeds maxDepth dep visited ⟨results, e :: rest⟩)
    (he : e.1 ∉ visited) :
    Searched g seeds maxDepth (visit dep e) (e.1 :: visited) ⟨results, rest⟩ where
  positive := (List.forall_mem_cons.mp h.positive).2
  memories := List.forall_mem_cons.mpr ⟨(h.reached e List.mem_cons_self).1, h.memories⟩
  reached := (List.forall_mem_cons.mp h.reached).2
  found := h.found
  keys id := by
    rw [h.keys]
    simp only [List.mem_cons, exists_eq_or_imp]
    rw [or_left_comm, or_assoc, eq_comm]
  sorted := (List.pairwise_cons.mp h.sorted).2
  span e he e' he' := h.span e (List.mem_cons_of_mem _ he) e' (List.mem_cons_of_mem _ he')
  before := by
    refine List.forall_mem_cons.mpr ⟨fun e' he' => ?_, fun v hv e' he' => ?_⟩
    · rw [visit_self]
      exact (List.pairwise_cons.mp h.sorted).1 e' he'
    · rw [visit_of_mem hv he]
      exact h.before v hv e' (List.mem_cons_of_mem _ he')
  seeded seed hseed := (h.seeded seed hseed).visit he
  scores := h.scores

end Searched

section
omit [Field K] [LinearOrder K] [IsStrictOrderedRing K]
variable {dep : String → ℕ} {queue added : List (String × K × ℕ)} {e : String × K × ℕ}
  {maxDepth : ℕ} {vs : List String}

theorem Closed.skip (h : g.Closed maxDepth dep visited (e :: queue) vs) (he : e.1 ∈ visited)
    (hdep : dep e.1 ≤ e.2.2) : g.Closed maxDepth dep visited queue vs :=
  fun v hv hlt id hhop => (h v hv hlt id hhop).skip he hdep

theorem Closed.visit (h : g.Closed maxDepth dep visited (e :: queue) visited)
    (he : e.1 ∉ visited) :
    g.Closed maxDepth (visit dep e) (e.1 :: visited) queue visited := by
  intro v hv hlt id hhop
  rw [visit_of_mem hv he] at hlt ⊢
  exact (h v hv hlt id hhop).visit he

theorem Closed.append (h : g.Closed maxDepth dep visited queue vs) :
    g.Closed maxDepth dep visited (queue ++ added) vs :=
  fun v hv hlt id hhop => (h v hv hlt id hhop).append

theorem Closed.cons {v : String} (h : g.Closed maxDepth dep visited queue vs)
    (hv : dep v < maxDepth → ∀ id, g.Hop v id → Settled dep visited queue id (dep v + 1)) :
    g.Closed maxDepth dep visited queue (v :: vs) :=
  List.forall_mem_cons.mpr ⟨hv, h⟩

/-- **Nothing is missed**: when nothing is queued, every node within the depth was expanded, at its
distance or before. -/
theorem Closed.settled {seeds : List (String × K)}
    (h : Closed (K := K) g maxDepth dep visited [] visited)
    (hseeds : ∀ seed ∈ seeds, Settled dep visited ([] : List (String × K × ℕ)) seed.1 0) {n : ℕ}
    {id : String} (hreached : g.Reached seeds n id) (hn : n ≤ maxDepth) :
    id ∈ visited ∧ dep id ≤ n := by
  obtain ⟨seed, hseed, hhops⟩ := hreached
  induction hhops with
  | refl =>
      obtain hsettled | ⟨e, he, -⟩ := hseeds seed hseed
      · exact hsettled
      · cases he
  | hop _ hhop ih =>
      obtain ⟨hmem, hdep⟩ := ih (by omega)
      obtain ⟨hvisited, hle⟩ | ⟨e, he, -⟩ := h _ hmem (by omega) _ hhop
      · exact ⟨hvisited, hle.trans (Nat.succ_le_succ hdep)⟩
      · cases he

end

omit [IsStrictOrderedRing K] in
/-- The hops from the node that was expanded last are settled. -/
theorem Searched.closed {seeds : List (String × K)} {maxDepth : ℕ} {dep : String → ℕ}
    {e : String × K × ℕ} {added : List (String × K × ℕ)} {s s' : Frontier K}
    (h : Searched g seeds maxDepth dep (e.1 :: visited) s')
    (hids : g.IdsApart) (hdep : dep e.1 = e.2.2)
    (hbefore : ∀ v ∈ visited, dep v ≤ e.2.2) (hspan : ∀ e' ∈ s'.queue, e'.2.2 ≤ e.2.2 + 1)
    (hadds : g.Adds (e.1 :: visited) (e.2.2 + 1) (g.hopTargets e.1) s added s') {id : String}
    (hhop : g.Hop e.1 id) : Settled dep (e.1 :: visited) s'.queue id (dep e.1 + 1) := by
  obtain ⟨hmem, hid⟩ := (hop_iff hids).mp hhop
  have hle : ∀ v ∈ e.1 :: visited, dep v ≤ dep e.1 + 1 := by
    refine List.forall_mem_cons.mpr ⟨Nat.le_succ _, fun v hv => ?_⟩
    exact (hdep ▸ hbefore v hv).trans (Nat.le_succ _)
  have hkey : id ∈ e.1 :: visited ∨ ∃ e' ∈ s'.queue, e'.1 = id :=
    (hadds.covers id hid hmem).elim .inl (h.keys id).mp
  obtain hvisited | ⟨e', he', heq⟩ := hkey
  · exact .inl ⟨hvisited, hle id hvisited⟩
  · exact .inr ⟨e', he', heq, hdep ▸ hspan e' he'⟩

section
omit [Field K] [LinearOrder K] [IsStrictOrderedRing K]

end

end MemoryGraph

omit [Field K] [LinearOrder K] in
theorem Scores.mem_entries {order : IterOrder} {m : Scores K} {p : String × K} :
    p ∈ m.entries order ↔ m.score.get p.1 = some p.2 := by
  obtain ⟨id, r⟩ := p
  simp only [entries, List.mem_filterMap, (order.perm m.keys).mem_iff, m.mem_keys,
    Option.map_eq_some_iff, Prod.mk.injEq]
  constructor
  · rintro ⟨x, -, r', hr', rfl, rfl⟩
    exact hr'
  · intro h
    exact ⟨id, by simp [h], r, h, rfl, rfl⟩

variable [IsStrictOrderedRing K]

end

end Jcode.Memory
