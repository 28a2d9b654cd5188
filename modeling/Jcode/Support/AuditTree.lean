import Mathlib

/-!
# Support — audit trees

What a gated task graph is for, over any type of vertices: an ownership tree laid over an
acyclic waiting relation.  A child is work its parent waits for; a gate waits for exactly the
work at its own level of the tree, which it audits.

* `exists_minimal`: outside any set of vertices that is not all of them, some vertex waits for
  vertices of the set only.
* `not_waits_of_top_gate`: no vertex waits for a gate at the top level.
* `mem_of_top_gate_mem`: a set closed under waiting that contains the only gate at the top level
  contains every vertex.
-/

/-- An ownership tree over an acyclic waiting relation, with gates. -/
structure AuditTree (ι : Type*) where
  node : Set ι
  finite : node.Finite
  gate : Set ι
  parent : ι → Option ι
  /-- `waits i j`: `i` may close only after `j`. -/
  waits : ι → ι → Prop
  rank : ι → ℕ
  waits_mem : ∀ {i j}, waits i j → i ∈ node ∧ j ∈ node
  rank_lt : ∀ {i j}, waits i j → rank j < rank i
  /-- A parent is work and waits for its children. -/
  parent_waits : ∀ {i p}, i ∈ node → parent i = some p → p ∉ gate ∧ waits p i
  /-- A gate waits for exactly the work at its level. -/
  gate_waits : ∀ {i}, i ∈ node → i ∈ gate → ∀ j,
    waits i j ↔ j ∈ node ∧ j ∉ gate ∧ parent j = parent i

namespace AuditTree

variable {ι : Type*} (T : AuditTree ι)

/-- Outside a set of vertices, a vertex of least rank waits for vertices of the set only. -/
theorem exists_minimal {D : Set ι} (h : ¬ T.node ⊆ D) :
    ∃ i ∈ T.node, i ∉ D ∧ ∀ j, T.waits i j → j ∈ D := by
  obtain ⟨i₀, hi₀, hD₀⟩ := Set.not_subset.mp h
  obtain ⟨i, ⟨hi, hD⟩, hmin⟩ := exists_minimalFor_of_wellFoundedLT
    (fun i => i ∈ T.node ∧ i ∉ D) T.rank ⟨i₀, hi₀, hD₀⟩
  refine ⟨i, hi, hD, fun j hj => ?_⟩
  by_contra hn
  have hlt := T.rank_lt hj
  exact absurd (hmin ⟨(T.waits_mem hj).2, hn⟩ hlt.le) (by omega)

/-- **Climbing the tree.**  A property that passes from a parent to its children, and holds of the
vertices at the top level, holds of every vertex.  The induction is on the distance to the
greatest rank, which falls from a child to its parent. -/
theorem climb {P : ι → Prop} (top : ∀ i ∈ T.node, T.parent i = none → P i)
    (child : ∀ i ∈ T.node, ∀ p, T.parent i = some p → P p → P i) : ∀ i ∈ T.node, P i := by
  obtain ⟨N, hN⟩ : ∃ N, ∀ i ∈ T.node, T.rank i ≤ N := by
    obtain ⟨N, hN⟩ := (T.finite.image T.rank).bddAbove
    exact ⟨N, fun i hi => hN ⟨i, hi, rfl⟩⟩
  intro i hi
  induction hd : N - T.rank i using Nat.strong_induction_on generalizing i with
  | _ d ih =>
      cases hp : T.parent i with
      | none => exact top i hi hp
      | some p =>
          have hw := (T.parent_waits hi hp).2
          have hlt := T.rank_lt hw
          have hpm := (T.waits_mem hw).1
          have := hN p hpm
          exact child i hi p hp (ih (N - T.rank p) (by omega) p hpm rfl)

/-- A tree that is not empty has a top level. -/
theorem exists_top (h : T.node.Nonempty) : ∃ i ∈ T.node, T.parent i = none := by
  by_contra hno
  obtain ⟨i, hi⟩ := h
  exact T.climb (P := fun _ => False) (fun j hj hp => hno ⟨j, hj, hp⟩) (fun _ _ _ _ hF => hF) i hi

/-- A gate at the top level ranks above all work: it waits for the work at the top, and a parent
ranks above its children. -/
theorem rank_lt_top_gate {g : ι} (hg : g ∈ T.node) (hgate : g ∈ T.gate)
    (htop : T.parent g = none) : ∀ i ∈ T.node, i ∉ T.gate → T.rank i < T.rank g := by
  refine T.climb (fun i hi hp hw => ?_) fun i hi p hp ih _ => ?_
  · exact T.rank_lt ((T.gate_waits hg hgate i).mpr ⟨hi, hw, hp.trans htop.symm⟩)
  · obtain ⟨hpw, hwait⟩ := T.parent_waits hi hp
    exact (T.rank_lt hwait).trans (ih hpw)

/-- **No vertex waits for a gate at the top level.** -/
theorem not_waits_of_top_gate {g i : ι} (hgate : g ∈ T.gate) (htop : T.parent g = none) :
    ¬ T.waits i g := by
  intro hw
  obtain ⟨hi, hg⟩ := T.waits_mem hw
  by_cases higate : i ∈ T.gate
  · exact ((T.gate_waits hi higate g).mp hw).2.1 hgate
  · exact absurd (T.rank_lt hw) (T.rank_lt_top_gate hg hgate htop i hi higate).le.not_gt

/-- **What closes last.**  A set that contains what its members wait for, and the only gate at the
top level, contains every vertex. -/
theorem mem_of_top_gate_mem {D : Set ι} {g : ι} (hD : ∀ i ∈ D, ∀ j, T.waits i j → j ∈ D)
    (hg : g ∈ T.node) (hgate : g ∈ T.gate) (htop : T.parent g = none)
    (honly : ∀ i ∈ T.node, i ∈ T.gate → T.parent i = none → i = g) (hgD : g ∈ D) :
    ∀ i ∈ T.node, i ∈ D := by
  refine T.climb (fun i hi hp => ?_) fun i hi p hp hpD => hD p hpD i (T.parent_waits hi hp).2
  by_cases higate : i ∈ T.gate
  · exact honly i hi higate hp ▸ hgD
  · exact hD g hgD i ((T.gate_waits hg hgate i).mpr ⟨hi, higate, hp.trans htop.symm⟩)

end AuditTree
