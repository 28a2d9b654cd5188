import Jcode.Memory.Index

/-!
# Memory — Tags

That a memory has a tag is kept four times: in the memory's own list, as an edge, in the index of
the edges, and in the count of the tag.  They agree (`TagsAgree`) as long as each operation finds
them in a state it can handle (`Op.Accounts`).

* `MemoryGraph.Tallied`: the invariant, and `Tallied.tagsAgree`.
* `tagsAgree_apply_iff`: one operation keeps the four together exactly when it accounts.
* `tag_accounting`: so does a run, in every state.
* `tags_miscounted`: two runs that do not.
-/

namespace Jcode.Memory

open Rust Runs

/-! ### Counting a list against a set -/

section Lists
variable {α : Type*} [DecidableEq α] {l : List α} {p : α → Bool} {S : Set α}

/-- A list that holds what satisfies `p` once, when it is in `S`. -/
theorem countP_eq_ncard (h : ∀ a, p a → (a ∈ S → l.count a = 1) ∧ (a ∉ S → l.count a = 0))
    (hS : ∀ a ∈ S, p a) : l.countP p = S.ncard := by
  have hmem : ∀ a, a ∈ l.filter p ↔ a ∈ S := by
    intro a
    rw [List.mem_filter]
    refine ⟨fun ha => ?_, fun ha => ⟨?_, hS a ha⟩⟩
    · by_contra hnot
      exact List.count_eq_zero.mp ((h a ha.2).2 hnot) ha.1
    · exact List.count_pos_iff.mp (((h a (hS a ha)).1 ha).symm ▸ Nat.one_pos)
  have hnodup : (l.filter p).Nodup := by
    refine List.nodup_iff_count_le_one.mpr fun a => ?_
    by_cases ha : a ∈ l.filter p
    · have hpa := (List.mem_filter.mp ha).2
      rw [List.count_filter hpa, (h a hpa).1 ((hmem a).mp ha)]
    · rw [List.count_eq_zero.mpr ha]
      exact Nat.zero_le 1
  have hset : S = ↑(l.filter p).toFinset := by
    ext a
    rw [Finset.mem_coe, List.mem_toFinset, hmem]
  rw [hset, Set.ncard_coe_finset, List.toFinset_card_of_nodup hnodup, List.countP_eq_length_filter]

/-- A list that holds all of `S`, and one element more often than `S` does. -/
theorem ncard_lt_countP (h : ∀ a ∈ S, p a ∧ a ∈ l) {x : α} (hx : p x)
    (hmore : (x ∈ S ∧ 1 < l.count x) ∨ (x ∉ S ∧ 0 < l.count x)) : S.ncard < l.countP p := by
  have hcount : (l.filter p).count x = l.count x := List.count_filter hx
  have hpos : 0 < l.count x := hmore.elim (fun h => Nat.zero_lt_of_lt h.2) And.right
  have hxl : x ∈ l.filter p := by
    rwa [← List.count_pos_iff, hcount]
  -- without one `x`, the list still holds all of `S`
  have hsub : S ⊆ ↑((l.filter p).erase x).toFinset := by
    intro a ha
    rw [Finset.mem_coe, List.mem_toFinset]
    by_cases hax : a = x
    · subst hax
      have htwo : 1 < l.count a := hmore.elim And.right fun h => absurd ha h.1
      rw [← List.count_pos_iff, List.count_erase_self, hcount]
      exact Nat.sub_pos_of_lt htwo
    · exact (List.mem_erase_of_ne hax).mpr (List.mem_filter.mpr ⟨(h a ha).2, (h a ha).1⟩)
  have hcard : S.ncard ≤ ((l.filter p).erase x).toFinset.card := by
    rw [← Set.ncard_coe_finset]
    exact Set.ncard_le_ncard hsub (Finset.finite_toSet _)
  have hlen := hcard.trans (List.toFinset_card_le _)
  rw [List.length_erase_of_mem hxl] at hlen
  rw [List.countP_eq_length_filter]
  exact Nat.lt_of_le_pred (List.length_pos_of_mem hxl) hlen

end Lists

theorem tagId_inj {a b : String} (h : tagId a = tagId b) : a = b := by
  have hlist := congrArg String.toList h
  rw [tagId, tagId, String.toList_append, String.toList_append] at hlist
  exact String.toList_inj.mp (List.append_cancel_left hlist)

theorem tagId_eq_iff {a b : String} : tagId a = tagId b ↔ a = b := ⟨tagId_inj, congrArg tagId⟩

namespace MemoryGraph

/-! ### The four copies -/

/-- The `HasTag` edges from `a` to a tag. -/
def tagOut (g : MemoryGraph) (a tagName : String) : ℕ :=
  (g.getEdges a).countP fun e => e.target == tagId tagName && e.kind.isHasTag

/-- The count of a tag, zero when there is no such tag. -/
def tagCount (g : MemoryGraph) (tagName : String) : ℕ :=
  ((g.tags.get (tagId tagName)).map TagEntry.count).getD 0

/-- The memories whose list has a tag. -/
def holders (g : MemoryGraph) (tagName : String) : Set String :=
  {a | ∃ m, g.memories.get a = some m ∧ tagName ∈ m.tags}

/-- The count, the edges, the memories and the lookup of every tag agree. -/
def TagsAgree (g : MemoryGraph) : Prop := ∀ tagName,
  g.tagCount tagName = ∑ᶠ a, g.tagOut a tagName ∧
    ∑ᶠ a, g.tagOut a tagName = (g.holders tagName).ncard ∧
    (g.holders tagName).ncard = (g.getMemoriesByTag tagName).length

variable {g : MemoryGraph}

theorem length_getMemoriesByTag (g : MemoryGraph) (tagName : String) :
    (g.getMemoriesByTag tagName).length =
      (g.getIncoming (tagId tagName)).countP fun a => (g.memories.get a).isSome := by
  rw [getMemoriesByTag, List.length_filterMap_eq_countP]

theorem tagOut_le_fanOut (g : MemoryGraph) (a tagName : String) :
    g.tagOut a tagName ≤ g.fanOut a (tagId tagName) :=
  List.countP_mono_left fun _ _ h => (Bool.and_eq_true_iff.mp h).1

/-- What holds of each memory on its own, and what the counts make of it. -/
structure Tallied (g : MemoryGraph) : Prop where
  indexed : g.Indexed
  nodup : ∀ a m, g.memories.get a = some m → m.tags.Nodup
  tagged : ∀ a t, a ∈ g.holders t → g.tagOut a t = 1
  untagged : ∀ a t, a ∉ g.holders t → g.tagOut a t = 0
  /-- A memory has no other edges to tags. -/
  plain : ∀ a t, (g.memories.get a).isSome → g.fanOut a (tagId t) = g.tagOut a t
  counted : ∀ t, g.tagCount t = (g.holders t).ncard

theorem isSome_of_mem_holders {a t : String} (h : a ∈ g.holders t) :
    (g.memories.get a).isSome := by
  obtain ⟨m, hm, -⟩ := h
  rw [hm]
  rfl

theorem tallied_new : new.Tallied where
  indexed := indexed_new
  nodup a m h := by cases h
  tagged a t h := by obtain ⟨m, hm, -⟩ := h; cases hm
  untagged a t _ := rfl
  plain a t h := by cases h
  counted t := by
    have hnone : new.holders t = ∅ := by
      ext a
      exact iff_of_false (fun ⟨m, hm, _⟩ => by cases hm) id
    rw [hnone, Set.ncard_empty]
    rfl

namespace Tallied

theorem lookup (h : g.Tallied) (t : String) :
    (g.getIncoming (tagId t)).countP (fun a => (g.memories.get a).isSome) =
      (g.holders t).ncard := by
  refine countP_eq_ncard (fun a ha => ?_) fun a => isSome_of_mem_holders
  have hcount : (g.getIncoming (tagId t)).count a = g.tagOut a t :=
    (h.indexed a (tagId t)).trans (h.plain a t ha)
  rw [hcount]
  exact ⟨h.tagged a t, h.untagged a t⟩

/-- The holders are listed, so there are finitely many. -/
theorem finite (h : g.Tallied) (t : String) : (g.holders t).Finite := by
  refine (g.getIncoming (tagId t)).toFinset.finite_toSet.subset fun a ha => ?_
  rw [Finset.mem_coe, List.mem_toFinset, ← List.count_pos_iff]
  have hcount := h.indexed a (tagId t)
  rw [fanIn] at hcount
  rw [hcount, h.plain a t (isSome_of_mem_holders ha), h.tagged a t ha]
  exact Nat.one_pos

theorem edges (h : g.Tallied) (t : String) : ∑ᶠ a, g.tagOut a t = (g.holders t).ncard := by
  classical
  have hone : ∀ a, g.tagOut a t = if a ∈ (h.finite t).toFinset then 1 else 0 := by
    intro a
    by_cases ha : a ∈ g.holders t
    · rw [if_pos ((h.finite t).mem_toFinset.mpr ha), h.tagged a t ha]
    · rw [if_neg (fun hmem => ha ((h.finite t).mem_toFinset.mp hmem)), h.untagged a t ha]
  have hsupport : (Function.support fun a => g.tagOut a t) ⊆ ↑(h.finite t).toFinset := by
    intro a ha
    by_contra hnot
    exact ha ((hone a).trans (if_neg hnot))
  rw [finsum_eq_sum_of_support_subset _ hsupport, Set.ncard_eq_toFinset_card _ (h.finite t),
    Finset.card_eq_sum_ones]
  exact Finset.sum_congr rfl fun a ha => (hone a).trans (if_pos ha)

/-- **The four copies agree.** -/
theorem tagsAgree (h : g.Tallied) : g.TagsAgree := by
  intro t
  rw [h.counted t, h.edges t, length_getMemoriesByTag, h.lookup t]
  exact ⟨rfl, rfl, rfl⟩

end Tallied

/-! ### Adding -/

theorem tagOut_addEdgeInternal (s t : String) (k : EdgeKind) (a tagName : String) :
    (g.addEdgeInternal s t k).tagOut a tagName =
      g.tagOut a tagName + if a = s ∧ t = tagId tagName ∧ k.isHasTag then 1 else 0 := by
  rw [tagOut, getEdges, addEdgeInternal, StrMap.get_insert]
  by_cases ha : a = s
  · have hone : [Edge.mk t k].countP (fun e => e.target == tagId tagName && e.kind.isHasTag) =
        if t = tagId tagName ∧ k.isHasTag then 1 else 0 := by
      rw [List.countP_singleton]
      exact if_congr (by simp) rfl rfl
    rw [if_pos ha, Option.getD_some, List.countP_append, hone, ← ha, tagOut]
    simp only [true_and]
  · rw [if_neg ha, if_neg (fun h => ha h.1), Nat.add_zero, tagOut, getEdges]

theorem tagOut_ensureTag (name a t : String) : (g.ensureTag name).tagOut a t = g.tagOut a t := by
  unfold ensureTag
  split <;> rfl

theorem fanOut_ensureTag (name a b : String) : (g.ensureTag name).fanOut a b = g.fanOut a b := by
  unfold ensureTag
  split <;> rfl

theorem memories_ensureTag (name : String) : (g.ensureTag name).memories = g.memories := by
  unfold ensureTag
  split <;> rfl

/-- A tag that is created counts nothing. -/
theorem tagCount_ensureTag (name t : String) : (g.ensureTag name).tagCount t = g.tagCount t := by
  unfold ensureTag
  split
  · rfl
  · rename_i hnone
    rw [tagCount, StrMap.get_insert]
    split
    · rename_i ht
      rw [tagCount, ht, hnone]
      rfl
    · rfl

theorem exists_ensureTag (name : String) :
    ∃ tag, (g.ensureTag name).tags.get (tagId name) = some tag := by
  unfold ensureTag
  split
  · rename_i tag htag
    exact ⟨tag, htag⟩
  · exact ⟨_, StrMap.get_insert_self ..⟩

theorem tagCount_modifyTagCount_of_ne {id t : String} (f : ℕ → ℕ) (h : tagId t ≠ id) :
    (g.modifyTagCount id f).tagCount t = g.tagCount t := by
  rw [tagCount, modifyTagCount, StrMap.get_modify_of_ne _ h]
  rfl

/-- A count goes down, and stays at zero. -/
theorem tagCount_pred (id t : String) :
    (g.modifyTagCount id (· - 1)).tagCount t = g.tagCount t - if id = tagId t then 1 else 0 := by
  by_cases h : id = tagId t
  · subst h
    rw [if_pos rfl, tagCount, modifyTagCount, StrMap.get_modify_self, tagCount]
    cases g.tags.get (tagId t) <;> rfl
  · rw [if_neg h, tagCount_modifyTagCount_of_ne _ (fun e => h e.symm)]
    rfl

theorem tagCount_addTagOf (id name t : String) :
    (addTagOf id g name).tagCount t = g.tagCount t + if t = name then 1 else 0 := by
  by_cases h : t = name
  · subst h
    obtain ⟨tag, htag⟩ := exists_ensureTag (g := g) t
    have hcount := tagCount_ensureTag (g := g) t t
    rw [tagCount, htag] at hcount
    have htag' : ((g.ensureTag t).addEdgeInternal id (tagId t) .hasTag).tags.get (tagId t) =
        some tag := htag
    rw [if_pos rfl, ← hcount, addTagOf, tagCount, modifyTagCount, StrMap.get_modify_self, htag']
    rfl
  · rw [if_neg h, addTagOf, tagCount_modifyTagCount_of_ne _ (fun e => h (tagId_inj e))]
    exact tagCount_ensureTag name t

theorem tagOut_addTagOf (id name a t : String) :
    (addTagOf id g name).tagOut a t = g.tagOut a t + if a = id ∧ t = name then 1 else 0 := by
  have hedge := tagOut_addEdgeInternal (g := g.ensureTag name) id (tagId name) .hasTag a t
  rw [tagOut_ensureTag] at hedge
  refine hedge.trans (congrArg _ (if_congr ?_ rfl rfl))
  rw [tagId_eq_iff]
  exact and_congr_right fun _ => ⟨fun h => h.1.symm, fun h => ⟨h.symm, rfl⟩⟩

theorem fanOut_addTagOf (id name a b : String) :
    (addTagOf id g name).fanOut a b = g.fanOut a b + if a = id ∧ b = tagId name then 1 else 0 := by
  have hedge := fanOut_addEdgeInternal (g := g.ensureTag name) id (tagId name) .hasTag a b
  rw [fanOut_ensureTag] at hedge
  exact hedge

theorem memories_addTagOf (id name : String) : (addTagOf id g name).memories = g.memories :=
  memories_ensureTag name

/-- The tags of a memory that is added, one by one. -/
theorem foldl_addTagOf (id : String) (tags : List String) :
    (tags.foldl (addTagOf id) g).memories = g.memories ∧
      (∀ t, (tags.foldl (addTagOf id) g).tagCount t = g.tagCount t + tags.count t) ∧
      (∀ a t, (tags.foldl (addTagOf id) g).tagOut a t =
        g.tagOut a t + if a = id then tags.count t else 0) ∧
      ∀ a t, (tags.foldl (addTagOf id) g).fanOut a (tagId t) =
        g.fanOut a (tagId t) + if a = id then tags.count t else 0 := by
  induction tags generalizing g with
  | nil => simp
  | cons name tags ih =>
      obtain ⟨hm, hc, ho, hf⟩ := ih (g := addTagOf id g name)
      rw [List.foldl_cons]
      refine ⟨hm.trans (memories_addTagOf id name), fun t => ?_, fun a t => ?_, fun a t => ?_⟩
      · rw [hc, tagCount_addTagOf, List.count_cons]
        grind
      · rw [ho, tagOut_addTagOf, List.count_cons]
        grind
      · rw [hf, fanOut_addTagOf, List.count_cons]
        have := @tagId_eq_iff t name
        grind

/-- The edge from the memory that supersedes an entry. -/
def supersededEdge (entry : MemoryEntry) (a b : String) : ℕ :=
  if entry.supersededBy = some a ∧ b = entry.id then 1 else 0

theorem get_memories_addMemory (g : MemoryGraph) (entry : MemoryEntry) (a : String) :
    (g.addMemory entry).1.memories.get a =
      if a = entry.id then some entry else g.memories.get a := by
  have hm := (foldl_addTagOf (g := g) entry.id entry.tags).1
  unfold addMemory
  dsimp only
  rw [StrMap.get_insert]
  split
  · rfl
  · split
    · exact congrArg (StrMap.get · a) hm
    · exact congrArg (StrMap.get · a) hm

theorem tagCount_addMemory (g : MemoryGraph) (entry : MemoryEntry) (t : String) :
    (g.addMemory entry).1.tagCount t = g.tagCount t + entry.tags.count t := by
  have hc := (foldl_addTagOf (g := g) entry.id entry.tags).2.1 t
  unfold addMemory
  dsimp only
  split
  · exact hc
  · exact hc

theorem tagOut_addMemory (g : MemoryGraph) (entry : MemoryEntry) (a t : String) :
    (g.addMemory entry).1.tagOut a t =
      g.tagOut a t + if a = entry.id then entry.tags.count t else 0 := by
  have ho := (foldl_addTagOf (g := g) entry.id entry.tags).2.2.1 a t
  unfold addMemory
  dsimp only
  split
  · rename_i newer _
    have hedge := tagOut_addEdgeInternal (g := entry.tags.foldl (addTagOf entry.id) g) newer
      entry.id .supersedes a t
    rw [if_neg (fun h => by cases h.2.2), Nat.add_zero, ho] at hedge
    exact hedge
  · exact ho

theorem fanOut_addMemory (g : MemoryGraph) (entry : MemoryEntry) (a t : String) :
    (g.addMemory entry).1.fanOut a (tagId t) =
      g.fanOut a (tagId t) + (if a = entry.id then entry.tags.count t else 0) +
        supersededEdge entry a (tagId t) := by
  have hf := (foldl_addTagOf (g := g) entry.id entry.tags).2.2.2 a t
  rw [← hf, supersededEdge]
  unfold addMemory
  dsimp only
  split
  · rename_i newer hnewer
    have hedge := fanOut_addEdgeInternal (g := entry.tags.foldl (addTagOf entry.id) g) newer
      entry.id .supersedes a (tagId t)
    refine hedge.trans (congrArg _ (if_congr ?_ rfl rfl))
    rw [hnewer, Option.some_inj]
    exact and_congr_left fun _ => eq_comm
  · rename_i hnone
    rw [hnone, if_neg (fun h => by cases h.1)]
    rfl

theorem mem_holders_addMemory (g : MemoryGraph) (entry : MemoryEntry) (a t : String) :
    a ∈ (g.addMemory entry).1.holders t ↔
      (a = entry.id ∧ t ∈ entry.tags) ∨ (a ≠ entry.id ∧ a ∈ g.holders t) := by
  rw [holders, Set.mem_ofPred_eq, get_memories_addMemory]
  by_cases ha : a = entry.id
  · simp [ha]
  · simp [ha, holders]

/-! ### Removing a memory -/

/-- Edges that do not lead to the removed memory stay where they are. -/
theorem countP_getEdges_removeMemory {id a : String} {q : Edge → Bool} (ha : a ≠ id)
    (hq : ∀ e, q e → e.target ≠ id) :
    ((g.removeMemory id).1.getEdges a).countP q = (g.getEdges a).countP q := by
  have hdrop : ∀ (sources : List String) (g : MemoryGraph),
      ((sources.foldl (dropTarget id) g).getEdges a).countP q = (g.getEdges a).countP q := by
    intro sources
    induction sources with
    | nil => intro g; rfl
    | cons source sources ih =>
        intro g
        rw [List.foldl_cons, ih, getEdges, dropTarget, StrMap.get_modify]
        split
        · rename_i hsource
          rw [hsource, getEdges]
          cases g.edges.get source with
          | none => rfl
          | some l =>
              rw [Option.map_some, Option.getD_some, Option.getD_some, List.countP_filter]
              exact List.countP_congr fun e _ => by
                rw [Bool.and_eq_true]
                exact and_iff_left_of_imp fun he => by simpa using hq e he
        · rfl
  have hres : ((g.removeMemory id).1.getEdges a).countP q =
      ((g.dropOutgoing id).getEdges a).countP q :=
    hdrop ((g.dropOutgoing id).getIncoming id)
      { g.dropOutgoing id with reverseEdges := (g.dropOutgoing id).reverseEdges.remove id }
  rw [hres, dropOutgoing, getEdges_foldl_detachFrom, getEdges, StrMap.get_remove, if_neg ha]
  rfl

theorem tagOut_removeMemory (h : g.Indexed) (id a t : String) :
    (g.removeMemory id).1.tagOut a t = if a = id ∨ tagId t = id then 0 else g.tagOut a t := by
  split
  · rename_i hid
    have hle := tagOut_le_fanOut (g.removeMemory id).1 a t
    rw [fanOut_removeMemory h, if_pos hid] at hle
    exact Nat.le_zero.mp hle
  · rename_i hid
    obtain ⟨ha, ht⟩ := not_or.mp hid
    refine countP_getEdges_removeMemory ha fun e he => ?_
    rw [beq_iff_eq.mp (Bool.and_eq_true_iff.mp he).1]
    exact ht

theorem memories_foldl_detachFrom (id : String) (own : List Edge) :
    (own.foldl (detachFrom id) g).memories = g.memories := by
  induction own generalizing g with
  | nil => rfl
  | cons e own ih =>
      rw [List.foldl_cons, ih]
      unfold detachFrom
      dsimp only
      split <;> rfl

theorem foldl_dropTarget (id : String) (sources : List String) :
    (sources.foldl (dropTarget id) g).memories = g.memories ∧
      (sources.foldl (dropTarget id) g).tags = g.tags := by
  induction sources generalizing g with
  | nil => exact ⟨rfl, rfl⟩
  | cons source sources ih =>
      rw [List.foldl_cons]
      exact ih

theorem get_memories_removeMemory (g : MemoryGraph) (id a : String) :
    (g.removeMemory id).1.memories.get a = if a = id then none else g.memories.get a := by
  have hm : ((g.dropOutgoing id).dropIncoming id).memories = g.memories := by
    rw [dropIncoming, (foldl_dropTarget id _).1]
    exact memories_foldl_detachFrom id (g.getEdges id)
  unfold removeMemory
  dsimp only
  rw [hm]
  rfl

/-- Each tag edge of a removed memory is counted out. -/
theorem tagCount_foldl_detachFrom (id : String) (own : List Edge) (t : String) :
    (own.foldl (detachFrom id) g).tagCount t =
      g.tagCount t - own.countP fun e => e.target == tagId t && e.kind.isHasTag := by
  induction own generalizing g with
  | nil => rfl
  | cons e own ih =>
      have hone : (detachFrom id g e).tagCount t =
          g.tagCount t - if e.target == tagId t && e.kind.isHasTag then 1 else 0 := by
        unfold detachFrom
        dsimp only
        split
        · rename_i hkind
          refine (tagCount_pred e.target t).trans (congrArg _ (if_congr ?_ rfl rfl))
          rw [hkind, Bool.and_true, beq_iff_eq]
        · rename_i hkind
          rw [Bool.eq_false_iff.mpr hkind, Bool.and_false]
          rfl
      rw [List.foldl_cons, ih, hone, List.countP_cons, Nat.sub_sub, Nat.add_comm]

theorem tagCount_removeMemory (g : MemoryGraph) (id t : String) :
    (g.removeMemory id).1.tagCount t = g.tagCount t - g.tagOut id t := by
  have htags : ((g.dropOutgoing id).dropIncoming id).tags = (g.dropOutgoing id).tags :=
    (foldl_dropTarget id _).2
  have hcount := tagCount_foldl_detachFrom (g := { g with edges := g.edges.remove id }) id
    (g.getEdges id) t
  refine Eq.trans ?_ hcount
  rw [tagCount, tagCount]
  exact congrArg (fun tags : StrMap TagEntry =>
    ((tags.get (tagId t)).map TagEntry.count).getD 0) htags

theorem mem_holders_removeMemory (g : MemoryGraph) (id a t : String) :
    a ∈ (g.removeMemory id).1.holders t ↔ a ≠ id ∧ a ∈ g.holders t := by
  rw [holders, Set.mem_ofPred_eq, get_memories_removeMemory]
  by_cases ha : a = id
  · simp [ha]
  · simp [ha, holders]

/-! ### Untagging -/

theorem countP_and_not {α : Type*} (l : List α) (p q : α → Bool) :
    l.countP (fun e => p e && q e) + l.countP (fun e => p e && !q e) = l.countP p := by
  induction l with
  | nil => rfl
  | cons e l ih =>
      simp only [List.countP_cons]
      cases p e <;> cases q e <;> simp <;> omega

theorem tagOut_dropEdges (s name a t : String) :
    (g.dropEdges s (tagId name) EdgeKind.isHasTag).tagOut a t =
      if a = s ∧ t = name then 0 else g.tagOut a t := by
  by_cases ha : a = s
  · subst ha
    have hget : (g.dropEdges a (tagId name) EdgeKind.isHasTag).getEdges a =
        (g.getEdges a).filter fun e => !(e.target == tagId name && e.kind.isHasTag) := by
      rw [getEdges, dropEdges, StrMap.get_modify_self, getEdges]
      cases g.edges.get a <;> rfl
    rw [tagOut, hget, List.countP_filter]
    by_cases ht : t = name
    · subst ht
      rw [if_pos ⟨rfl, rfl⟩, List.countP_eq_zero]
      intro e _
      simp
    · rw [if_neg (fun h => ht h.2), tagOut]
      refine List.countP_congr fun e _ => ?_
      rw [Bool.and_eq_true]
      refine and_iff_left_of_imp fun he => ?_
      have hne : e.target ≠ tagId name := by
        rw [beq_iff_eq.mp (Bool.and_eq_true_iff.mp he).1]
        exact fun heq => ht (tagId_inj heq)
      simp [hne]
  · rw [if_neg (fun h => ha h.1), tagOut, getEdges, dropEdges, StrMap.get_modify_of_ne _ ha]
    rfl

theorem tagOut_untagMemory (g : MemoryGraph) (id name a t : String) :
    (g.untagMemory id name).tagOut a t = if a = id ∧ t = name then 0 else g.tagOut a t :=
  tagOut_dropEdges id name a t

theorem tagCount_untagMemory (g : MemoryGraph) (id name t : String) :
    (g.untagMemory id name).tagCount t = g.tagCount t - if t = name then 1 else 0 := by
  have hcount := tagCount_pred (g := g.dropEdges id (tagId name) EdgeKind.isHasTag) (tagId name) t
  refine hcount.trans (congrArg (_ - ·) (if_congr ?_ rfl rfl))
  rw [tagId_eq_iff]
  exact eq_comm

theorem get_memories_untagMemory (g : MemoryGraph) (id name a : String) :
    (g.untagMemory id name).memories.get a = if a = id
      then (g.memories.get id).map fun m => { m with tags := m.tags.filter (· != name) }
      else g.memories.get a := rfl

theorem mem_holders_untagMemory (g : MemoryGraph) (id name a t : String) :
    a ∈ (g.untagMemory id name).holders t ↔ a ∈ g.holders t ∧ ¬ (a = id ∧ t = name) := by
  rw [holders, Set.mem_ofPred_eq, get_memories_untagMemory]
  by_cases ha : a = id
  · subst ha
    cases hm : g.memories.get a with
    | none => simp [holders, hm]
    | some m => simp [holders, hm]
  · simp [ha, holders]

/-! ### Tagging -/

theorem any_tagOut {id name : String} :
    (g.getEdges id).any (fun e => e.target == tagId name && e.kind.isHasTag) ↔
      g.tagOut id name ≠ 0 := by
  rw [tagOut, ne_eq, List.countP_eq_zero, List.any_eq_true]
  simp

/-- A memory that has the edge is left as it is. -/
theorem tagMemory_of_edge {id name : String} (h : g.tagOut id name ≠ 0) :
    g.tagMemory id name = g.ensureTag name := by
  have hany : ((g.ensureTag name).getEdges id).any
      (fun e => e.target == tagId name && e.kind.isHasTag) :=
    any_tagOut.mpr (by rwa [tagOut_ensureTag])
  unfold tagMemory
  dsimp only
  rw [if_pos hany]

/-- Otherwise it gets the tag. -/
theorem tagMemory_of_no_edge {id name : String} (h : g.tagOut id name = 0) :
    g.tagMemory id name =
      { addTagOf id g name with
        memories := (addTagOf id g name).memories.modify id fun m =>
          if name ∈ m.tags then m else { m with tags := m.tags ++ [name] } } := by
  have hany : ¬ ((g.ensureTag name).getEdges id).any
      (fun e => e.target == tagId name && e.kind.isHasTag) := by
    rw [any_tagOut, tagOut_ensureTag, h]
    exact fun hne => hne rfl
  unfold tagMemory
  dsimp only
  rw [if_neg hany]
  rfl

/-! ### The invariant, operation by operation -/

/-- A graph that reads the same. -/
theorem Tallied.congr {g' : MemoryGraph} (h : g.Tallied) (hm : g'.memories = g.memories)
    (he : g'.edges = g.edges) (hr : g'.reverseEdges = g.reverseEdges)
    (hc : ∀ t, g'.tagCount t = g.tagCount t) : g'.Tallied := by
  have hholders : ∀ t, g'.holders t = g.holders t := fun t => by rw [holders, hm, holders]
  have htag : ∀ a t, g'.tagOut a t = g.tagOut a t := fun a t => by
    rw [tagOut, getEdges, he, tagOut, getEdges]
  refine ⟨(indexed_congr he hr).mpr h.indexed, fun a m => ?_, fun a t ha => ?_, fun a t ha => ?_,
    fun a t ha => ?_, fun t => ?_⟩
  · rw [hm]
    exact h.nodup a m
  · rw [htag]
    exact h.tagged a t (hholders t ▸ ha)
  · rw [htag]
    exact h.untagged a t (hholders t ▸ ha)
  · rw [htag, fanOut, getEdges, he]
    exact h.plain a t (hm ▸ ha)
  · rw [hc, hholders, h.counted]

theorem tallied_ensureTag (h : g.Tallied) (name : String) : (g.ensureTag name).Tallied := by
  refine h.congr (memories_ensureTag name) ?_ ?_ (tagCount_ensureTag name)
  · unfold ensureTag
    split <;> rfl
  · unfold ensureTag
    split <;> rfl

theorem mem_holders_iff {id name : String} {m : MemoryEntry} (hm : g.memories.get id = some m) :
    id ∈ g.holders name ↔ name ∈ m.tags := by
  rw [holders, Set.mem_ofPred_eq, hm]
  exact ⟨fun ⟨m', hm', ht⟩ => (Option.some.inj hm') ▸ ht, fun ht => ⟨m, rfl, ht⟩⟩

theorem ncard_holders_insert {g' : MemoryGraph} {id t : String} (h : g.Tallied)
    (hid : id ∉ g.holders t) (h' : ∀ a, a ∈ g'.holders t ↔ a = id ∨ a ∈ g.holders t) :
    (g'.holders t).ncard = (g.holders t).ncard + 1 := by
  have hset : g'.holders t = insert id (g.holders t) := Set.ext h'
  rw [hset, Set.ncard_insert_of_notMem hid (h.finite t)]

theorem ncard_holders_erase {g' : MemoryGraph} {id t : String} (hid : id ∈ g.holders t)
    (h' : ∀ a, a ∈ g'.holders t ↔ a ≠ id ∧ a ∈ g.holders t) :
    (g'.holders t).ncard = (g.holders t).ncard - 1 := by
  have hset : g'.holders t = g.holders t \ {id} := by
    ext a
    rw [h', Set.mem_sdiff_singleton]
    exact and_comm
  rw [hset, Set.ncard_sdiff_singleton_of_mem hid]

/-- A memory without edges to tags is added. -/
theorem tallied_addMemory (h : g.Tallied) {entry : MemoryEntry} (hnodup : entry.tags.Nodup)
    (hclear : ∀ t, g.fanOut entry.id (tagId t) = 0)
    (hnewer : ∀ newer t, entry.supersededBy = some newer → entry.id = tagId t →
      newer ≠ entry.id ∧ g.memories.get newer = none) : (g.addMemory entry).1.Tallied := by
  have hout : ∀ t, g.tagOut entry.id t = 0 := fun t =>
    Nat.le_zero.mp ((tagOut_le_fanOut g entry.id t).trans (hclear t).le)
  have hnot : ∀ t, entry.id ∉ g.holders t := fun t ht => by
    have hone := h.tagged entry.id t ht
    rw [hout t] at hone
    cases hone
  refine ⟨h.indexed.addMemory entry, fun a m hm => ?_, fun a t ha => ?_, fun a t ha => ?_,
    fun a t ha => ?_, fun t => ?_⟩
  · rw [get_memories_addMemory] at hm
    split at hm
    · cases hm
      exact hnodup
    · exact h.nodup a m hm
  · rw [tagOut_addMemory]
    rcases (mem_holders_addMemory g entry a t).mp ha with ⟨rfl, ht⟩ | ⟨hne, ha⟩
    · rw [if_pos rfl, hout, List.count_eq_one_of_mem hnodup ht]
    · rw [if_neg hne, h.tagged a t ha]
  · rw [mem_holders_addMemory] at ha
    rw [tagOut_addMemory]
    by_cases hid : a = entry.id
    · have ht : t ∉ entry.tags := fun ht => ha (.inl ⟨hid, ht⟩)
      rw [if_pos hid, hid, hout, List.count_eq_zero.mpr ht]
    · rw [if_neg hid, h.untagged a t fun hmem => ha (.inr ⟨hid, hmem⟩)]
  · -- the edge that supersedes the entry leads to no tag, or comes from no memory
    rw [get_memories_addMemory] at ha
    have hedge : supersededEdge entry a (tagId t) = 0 := by
      refine if_neg fun ⟨hsup, hid⟩ => ?_
      obtain ⟨hne, hnone⟩ := hnewer a t hsup hid.symm
      rw [if_neg hne, hnone] at ha
      cases ha
    rw [fanOut_addMemory, tagOut_addMemory, hedge, Nat.add_zero]
    by_cases hid : a = entry.id
    · rw [hid, hclear, hout]
    · rw [if_neg hid] at ha
      rw [if_neg hid, h.plain a t ha]
  · rw [tagCount_addMemory, h.counted]
    by_cases ht : t ∈ entry.tags
    · rw [List.count_eq_one_of_mem hnodup ht]
      refine (ncard_holders_insert h (hnot t) fun a => ?_).symm
      rw [mem_holders_addMemory]
      by_cases hid : a = entry.id <;> simp [hid, ht]
    · rw [List.count_eq_zero.mpr ht, Nat.add_zero]
      refine congrArg Set.ncard (Set.ext fun a => ?_)
      rw [mem_holders_addMemory]
      by_cases hid : a = entry.id
      · rw [hid]
        exact iff_of_false (hnot t) (by simp [ht])
      · simp [hid]

/-- A memory is removed whose id names no tag of another. -/
theorem tallied_removeMemory (h : g.Tallied) {id : String}
    (hid : ∀ t, id = tagId t → ∀ a ∈ g.holders t, a = id) : (g.removeMemory id).1.Tallied := by
  refine ⟨h.indexed.removeMemory id, fun a m hm => ?_, fun a t ha => ?_, fun a t ha => ?_,
    fun a t ha => ?_, fun t => ?_⟩
  · rw [get_memories_removeMemory] at hm
    split at hm
    · cases hm
    · exact h.nodup a m hm
  · obtain ⟨hne, ha⟩ := (mem_holders_removeMemory g id a t).mp ha
    have htag : tagId t ≠ id := fun e => hne (hid t e.symm a ha)
    rw [tagOut_removeMemory h.indexed, if_neg (not_or.mpr ⟨hne, htag⟩), h.tagged a t ha]
  · rw [mem_holders_removeMemory] at ha
    rw [tagOut_removeMemory h.indexed]
    split
    · rfl
    · rename_i hno
      exact h.untagged a t fun hmem => ha ⟨(not_or.mp hno).1, hmem⟩
  · rw [get_memories_removeMemory] at ha
    rw [fanOut_removeMemory h.indexed, tagOut_removeMemory h.indexed]
    split
    · rfl
    · rename_i hno
      rw [if_neg (not_or.mp hno).1] at ha
      exact h.plain a t ha
  · rw [tagCount_removeMemory, h.counted]
    by_cases hmem : id ∈ g.holders t
    · rw [h.tagged id t hmem]
      exact (ncard_holders_erase hmem fun a => mem_holders_removeMemory g id a t).symm
    · rw [h.untagged id t hmem, Nat.sub_zero]
      refine congrArg Set.ncard (Set.ext fun a => ?_)
      rw [mem_holders_removeMemory]
      exact (and_iff_right_of_imp fun ha (hne : a = id) => hmem (hne ▸ ha)).symm

/-- A memory is tagged. -/
theorem tallied_tagMemory (h : g.Tallied) {id name : String}
    (hid : (g.memories.get id).isSome) : (g.tagMemory id name).Tallied := by
  obtain ⟨m, hm⟩ := Option.isSome_iff_exists.mp hid
  by_cases hmem : id ∈ g.holders name
  · rw [tagMemory_of_edge (by rw [h.tagged id name hmem]; exact one_ne_zero)]
    exact tallied_ensureTag h name
  · have hout := h.untagged id name hmem
    have hnew : name ∉ m.tags := fun ht => hmem ((mem_holders_iff hm).mpr ht)
    rw [tagMemory_of_no_edge hout]
    set g' : MemoryGraph := { addTagOf id g name with
      memories := (addTagOf id g name).memories.modify id fun m =>
        if name ∈ m.tags then m else { m with tags := m.tags ++ [name] } } with hg'
    have hget : ∀ a, g'.memories.get a =
        if a = id then some { m with tags := m.tags ++ [name] } else g.memories.get a := by
      intro a
      rw [hg']
      dsimp only
      rw [memories_addTagOf, StrMap.get_modify, hm, Option.map_some, if_neg hnew]
    have hholders : ∀ a t, a ∈ g'.holders t ↔ (a = id ∧ t = name) ∨ a ∈ g.holders t := by
      intro a t
      rw [holders, Set.mem_ofPred_eq, hget]
      by_cases ha : a = id
      · subst ha
        simp [mem_holders_iff hm, or_comm]
      · simp [ha, holders]
    have htag : ∀ a t, g'.tagOut a t = g.tagOut a t + if a = id ∧ t = name then 1 else 0 :=
      fun a t => tagOut_addTagOf id name a t
    refine ⟨(indexed_congr rfl rfl).mpr (h.indexed.addTagOf id name), fun a m' hm' => ?_,
      fun a t ha => ?_, fun a t ha => ?_, fun a t ha => ?_, fun t => ?_⟩
    · rw [hget] at hm'
      split at hm'
      · cases hm'
        exact List.nodup_append.mpr ⟨h.nodup id m hm, List.nodup_singleton name,
          fun x hx y hy e => hnew (List.mem_singleton.mp hy ▸ e ▸ hx)⟩
      · exact h.nodup a m' hm'
    · rw [htag]
      rcases (hholders a t).mp ha with ⟨rfl, rfl⟩ | hold
      · rw [hout, if_pos ⟨rfl, rfl⟩]
      · rw [h.tagged a t hold, if_neg]
        rintro ⟨rfl, rfl⟩
        exact hmem hold
    · rw [hholders, not_or] at ha
      rw [htag, if_neg ha.1, h.untagged a t ha.2]
    · have hplain : g.fanOut a (tagId t) = g.tagOut a t := by
        rw [hget] at ha
        split at ha
        · rename_i hid
          exact hid ▸ h.plain id t (by rw [hm]; rfl)
        · exact h.plain a t ha
      have hfan : g'.fanOut a (tagId t) =
          g.fanOut a (tagId t) + if a = id ∧ tagId t = tagId name then 1 else 0 :=
        fanOut_addTagOf id name a (tagId t)
      rw [hfan, htag, hplain]
      simp only [tagId_eq_iff]
    · have hcount : g'.tagCount t = g.tagCount t + if t = name then 1 else 0 :=
        tagCount_addTagOf id name t
      rw [hcount, h.counted]
      by_cases ht : t = name
      · subst ht
        rw [if_pos rfl]
        exact (ncard_holders_insert h hmem fun a => by simp [hholders]).symm
      · rw [if_neg ht]
        refine congrArg Set.ncard (Set.ext fun a => ?_)
        rw [hholders]
        simp [ht]

/-- A memory loses a tag that it has, or that nobody has. -/
theorem tallied_untagMemory (h : g.Tallied) {id name : String}
    (hid : (g.memories.get id).isSome) (htag : id ∈ g.holders name ∨ g.holders name = ∅) :
    (g.untagMemory id name).Tallied := by
  have hkinds : ∀ e ∈ g.getEdges id, e.target = tagId name → EdgeKind.isHasTag e.kind := by
    have hsplit := countP_and_not (g.getEdges id) (fun e => e.target == tagId name)
      fun e => e.kind.isHasTag
    have hplain := h.plain id name hid
    rw [fanOut, tagOut] at hplain
    rw [hplain, Nat.add_eq_left, List.countP_eq_zero] at hsplit
    intro e he ht
    simpa [ht] using hsplit e he
  have hindexed : (g.untagMemory id name).Indexed :=
    (indexed_congr rfl rfl).mpr ((indexed_dropEdges_iff h.indexed).mpr hkinds)
  refine ⟨hindexed, fun a m hm => ?_, fun a t ha => ?_, fun a t ha => ?_, fun a t ha => ?_,
    fun t => ?_⟩
  · rw [get_memories_untagMemory] at hm
    split at hm
    · obtain ⟨m', hm', rfl⟩ := Option.map_eq_some_iff.mp hm
      exact (h.nodup id m' hm').filter _
    · exact h.nodup a m hm
  · obtain ⟨ha, hne⟩ := (mem_holders_untagMemory g id name a t).mp ha
    rw [tagOut_untagMemory, if_neg hne, h.tagged a t ha]
  · rw [tagOut_untagMemory]
    split
    · rfl
    · rename_i hne
      exact h.untagged a t fun hmem => ha ((mem_holders_untagMemory g id name a t).mpr ⟨hmem, hne⟩)
  · have hsome : (g.memories.get a).isSome := by
      rw [get_memories_untagMemory] at ha
      split at ha
      · rename_i hid
        rwa [hid, ← Option.isSome_map]
      · exact ha
    have hin := hindexed a (tagId t)
    have hfan : (g.untagMemory id name).fanIn a (tagId t) =
        if a = id ∧ tagId t = tagId name then 0 else g.fanIn a (tagId t) :=
      fanIn_dropEdges id (tagId name) EdgeKind.isHasTag a (tagId t)
    rw [← hin, hfan, tagOut_untagMemory, h.indexed, h.plain a t hsome]
    simp only [tagId_eq_iff]
  · rw [tagCount_untagMemory, h.counted]
    by_cases ht : t = name
    · subst ht
      rw [if_pos rfl]
      rcases htag with hmem | hnone
      · refine (ncard_holders_erase hmem fun a => ?_).symm
        rw [mem_holders_untagMemory, and_comm]
        simp
      · have hnone' : (g.untagMemory id t).holders t = ∅ := by
          refine Set.eq_empty_of_forall_notMem fun a ha => ?_
          have hmem := ((mem_holders_untagMemory g id t a t).mp ha).1
          rw [hnone] at hmem
          exact hmem
        rw [hnone, hnone', Set.ncard_empty]
    · rw [if_neg ht, Nat.sub_zero]
      refine congrArg Set.ncard (Set.ext fun a => ?_)
      rw [mem_holders_untagMemory]
      simp [ht]

/-! ### Where the copies part -/

/-- A memory that is listed more often than it has the tag. -/
theorem not_tagsAgree_of_extra {t x : String} (hindexed : g.Indexed)
    (hlisted : ∀ a ∈ g.holders t, 0 < g.fanOut a (tagId t)) (hx : (g.memories.get x).isSome)
    (hmore : (x ∈ g.holders t ∧ 1 < g.fanOut x (tagId t)) ∨
      (x ∉ g.holders t ∧ 0 < g.fanOut x (tagId t))) : ¬ g.TagsAgree := by
  intro hagree
  have hcount : ∀ a, (g.getIncoming (tagId t)).count a = g.fanOut a (tagId t) := fun a =>
    hindexed a (tagId t)
  have hlt : (g.holders t).ncard <
      (g.getIncoming (tagId t)).countP fun a => (g.memories.get a).isSome := by
    refine ncard_lt_countP (fun a ha => ⟨isSome_of_mem_holders ha, ?_⟩) hx ?_
    · rw [← List.count_pos_iff, hcount]
      exact hlisted a ha
    · rw [hcount]
      exact hmore
  rw [← length_getMemoriesByTag, ← (hagree t).2.2] at hlt
  exact lt_irrefl _ hlt

/-- A memory that is added over edges to tags, or superseded under the name of a tag. -/
theorem not_tagsAgree_addMemory (h : g.Tallied) {entry : MemoryEntry} (hnodup : entry.tags.Nodup)
    {x t : String}
    (hx : (x = entry.id ∧ g.fanOut entry.id (tagId t) ≠ 0) ∨
      (entry.supersededBy = some x ∧ entry.id = tagId t ∧
        (x = entry.id ∨ g.memories.get x ≠ none))) : ¬ (g.addMemory entry).1.TagsAgree := by
  have hlisted : ∀ a ∈ (g.addMemory entry).1.holders t,
      0 < (g.addMemory entry).1.fanOut a (tagId t) := by
    intro a ha
    rw [fanOut_addMemory]
    rcases (mem_holders_addMemory g entry a t).mp ha with ⟨rfl, ht⟩ | ⟨hne, hold⟩
    · rw [if_pos rfl, List.count_eq_one_of_mem hnodup ht]
      omega
    · have hone := tagOut_le_fanOut g a t
      rw [h.tagged a t hold] at hone
      omega
  have hsome : ((g.addMemory entry).1.memories.get x).isSome := by
    rw [get_memories_addMemory]
    split
    · rfl
    · rename_i hne
      rcases hx with ⟨rfl, -⟩ | ⟨-, -, rfl | hmem⟩
      · exact absurd rfl hne
      · exact absurd rfl hne
      · exact Option.isSome_iff_ne_none.mpr hmem
  refine not_tagsAgree_of_extra (h.indexed.addMemory entry) hlisted hsome ?_
  -- `x` has one edge to the tag besides those it is to have
  have hextra : (if x = entry.id then entry.tags.count t else g.fanOut x (tagId t)) <
      (g.addMemory entry).1.fanOut x (tagId t) := by
    rw [fanOut_addMemory]
    rcases hx with ⟨rfl, hold⟩ | ⟨hsup, hid, -⟩
    · rw [if_pos rfl, if_pos rfl]
      omega
    · have hedge : supersededEdge entry x (tagId t) = 1 := if_pos ⟨hsup, hid.symm⟩
      rw [hedge]
      split <;> omega
  by_cases hmem : x ∈ (g.addMemory entry).1.holders t
  · refine .inl ⟨hmem, ?_⟩
    rcases (mem_holders_addMemory g entry x t).mp hmem with ⟨hid, ht⟩ | ⟨hne, hold⟩
    · rw [if_pos hid, List.count_eq_one_of_mem hnodup ht] at hextra
      exact hextra
    · have hone := tagOut_le_fanOut g x t
      rw [h.tagged x t hold] at hone
      rw [if_neg hne] at hextra
      exact hone.trans_lt hextra
  · exact .inr ⟨hmem, Nat.zero_lt_of_lt hextra⟩

/-- A memory is removed under the name of a tag that another memory has. -/
theorem not_tagsAgree_removeMemory (h : g.Tallied) {t a : String} (ha : a ∈ g.holders t)
    (hne : a ≠ tagId t) : ¬ (g.removeMemory (tagId t)).1.TagsAgree := by
  intro hagree
  have hmem : a ∈ (g.removeMemory (tagId t)).1.holders t :=
    (mem_holders_removeMemory g (tagId t) a t).mpr ⟨hne, ha⟩
  have hfinite : ((g.removeMemory (tagId t)).1.holders t).Finite :=
    (h.finite t).subset fun b hb => ((mem_holders_removeMemory g (tagId t) b t).mp hb).2
  have hnone : (g.removeMemory (tagId t)).1.getIncoming (tagId t) = [] := by
    rw [List.eq_nil_iff_forall_not_mem]
    intro b hb
    have hpos := List.count_pos_iff.mpr hb
    have hzero := fanIn_removeMemory h.indexed (tagId t) b (tagId t)
    rw [if_pos (.inr rfl), fanIn] at hzero
    omega
  have hcard := (hagree t).2.2
  rw [length_getMemoriesByTag, hnone, List.countP_nil] at hcard
  rw [(Set.ncard_eq_zero hfinite).mp hcard] at hmem
  exact hmem

/-- A tag that others have is taken from a memory that does not have it. -/
theorem not_tagsAgree_untagMemory (h : g.Tallied) {id t : String} (hid : id ∉ g.holders t)
    (hsome : g.holders t ≠ ∅) : ¬ (g.untagMemory id t).TagsAgree := by
  intro hagree
  have hsame : (g.untagMemory id t).holders t = g.holders t := by
    ext a
    rw [mem_holders_untagMemory]
    refine and_iff_left_of_imp fun ha => ?_
    rintro ⟨rfl, -⟩
    exact hid ha
  have hcount := (hagree t).1.trans (hagree t).2.1
  rw [tagCount_untagMemory, if_pos rfl, h.counted, hsame] at hcount
  have hpos := (Set.ncard_pos (h.finite t)).mpr (Set.nonempty_iff_ne_empty.mpr hsome)
  omega

end MemoryGraph

/-! ### Runs -/

open MemoryGraph

/-- The operations on memories and tags: the tags of an entry are distinct, and what is tagged or
untagged exists. -/
def Op.OnTags (g : MemoryGraph) : Op → Prop
  | .addMemory entry => entry.tags.Nodup
  | .removeMemory _ => True
  | .tagMemory memoryId _ | .untagMemory memoryId _ => (g.memories.get memoryId).isSome
  | _ => False

instance (g : MemoryGraph) : (op : Op) → Decidable (op.OnTags g)
  | .addMemory entry => inferInstanceAs (Decidable entry.tags.Nodup)
  | .removeMemory _ => .isTrue trivial
  | .tagMemory memoryId _ | .untagMemory memoryId _ =>
      inferInstanceAs (Decidable (g.memories.get memoryId).isSome)
  | .addEdge .. | .removeEdge .. | .linkMemories .. | .supersede .. | .markContradiction .. =>
      .isFalse id

/-- An operation that keeps the copies together.  An entry is added under an id without edges to
tags, and nothing in the graph supersedes it when its id is that of a tag; no memory is removed
under the id of a tag that another memory has; a tag is taken from a memory that has it, or when
nobody has it. -/
def Op.Accounts (g : MemoryGraph) : Op → Prop
  | .addMemory entry => (∀ t, g.fanOut entry.id (tagId t) = 0) ∧
      ∀ newer t, entry.supersededBy = some newer → entry.id = tagId t →
        newer ≠ entry.id ∧ g.memories.get newer = none
  | .removeMemory id => ∀ t, id = tagId t → ∀ a ∈ g.holders t, a = id
  | .untagMemory memoryId tagName => memoryId ∈ g.holders tagName ∨ g.holders tagName = ∅
  | _ => True

theorem tallied_apply {g : MemoryGraph} (h : g.Tallied) {op : Op} (hop : op.OnTags g)
    (ha : op.Accounts g) : (op.apply g).Tallied := by
  cases op with
  | addMemory entry => exact tallied_addMemory h hop ha.1 ha.2
  | removeMemory id => exact tallied_removeMemory h ha
  | tagMemory id name => exact tallied_tagMemory h hop
  | untagMemory id name => exact tallied_untagMemory h hop ha
  | _ => exact hop.elim

/-- **One operation.** -/
theorem tagsAgree_apply_iff {g : MemoryGraph} (h : g.Tallied) {op : Op} (hop : op.OnTags g) :
    (op.apply g).TagsAgree ↔ op.Accounts g := by
  refine ⟨fun hagree => ?_, fun ha => (tallied_apply h hop ha).tagsAgree⟩
  cases op with
  | addMemory entry =>
      refine ⟨fun t => ?_, fun newer t hnewer hid => ?_⟩
      · by_contra hold
        exact not_tagsAgree_addMemory h hop (.inl ⟨rfl, hold⟩) hagree
      · by_contra hbad
        have hbad' : newer = entry.id ∨ g.memories.get newer ≠ none := by
          by_contra hno
          obtain ⟨hne, hnone⟩ := not_or.mp hno
          exact hbad ⟨hne, not_not.mp hnone⟩
        exact not_tagsAgree_addMemory h hop (.inr ⟨hnewer, hid, hbad'⟩) hagree
  | removeMemory id =>
      rintro t rfl a ha
      by_contra hne
      exact not_tagsAgree_removeMemory h ha hne hagree
  | untagMemory id name =>
      by_contra hbad
      obtain ⟨hid, hsome⟩ := not_or.mp hbad
      exact not_tagsAgree_untagMemory h hid hsome hagree
  | tagMemory => trivial
  | addEdge | removeEdge | linkMemories | supersede | markContradiction => trivial

variable {ts : List (Transition MemoryGraph Op)} {g : MemoryGraph}

theorem tagsAgree_run_iff {g₀ : MemoryGraph} (run : Run step g₀ ts g) (h : g₀.Tallied)
    (hop : ∀ t ∈ ts, t.event.OnTags t.before) :
    (∀ t ∈ ts, t.after.TagsAgree) ↔ ∀ t ∈ ts, t.event.Accounts t.before := by
  induction run with
  | nil => simp
  | @cons s s₁ s' op ts hs _ ih =>
      obtain rfl : op.apply s = s₁ := Option.some.inj hs
      rw [List.forall_mem_cons] at hop
      rw [List.forall_mem_cons, List.forall_mem_cons, tagsAgree_apply_iff h hop.1]
      exact and_congr_right fun ha => ih (tallied_apply h hop.1 ha) hop.2

/-- **Tag accounting.**  In a run from the empty graph the count, the edges, the lists and the
lookup of every tag agree in every state exactly when each operation accounts. -/
theorem tag_accounting (run : Run step .new ts g) (hop : ∀ t ∈ ts, t.event.OnTags t.before) :
    (∀ t ∈ ts, t.after.TagsAgree) ↔ ∀ t ∈ ts, t.event.Accounts t.before :=
  tagsAgree_run_iff run tallied_new hop

/-- A memory with its tags. -/
def memory (id : String) (tags : List String) : MemoryEntry where
  id := id
  tags := tags
  active := true
  supersededBy := none

/-- A memory is added, tagged, untagged and removed. -/
theorem tag_accounting_lifecycle :
    ∃ ts g, Run step .new ts g ∧
      ts.map Transition.event = [.addMemory (memory "a" ["x"]), .tagMemory "a" "y",
        .untagMemory "a" "x", .removeMemory "a"] ∧
      ((∀ t ∈ ts, t.after.TagsAgree) ↔ ∀ t ∈ ts, t.event.Accounts t.before) := by
  have hexec : (exec step .new [.addMemory (memory "a" ["x"]), .tagMemory "a" "y",
      .untagMemory "a" "x", .removeMemory "a"]).map
        (fun r => r.1.all fun t => t.event.OnTags t.before) = some true := by decide +kernel
  obtain ⟨ts, g, run, hes, hobs⟩ := Run.of_observed hexec
  exact ⟨ts, g, run, hes, tag_accounting run (by simpa using hobs)⟩

/-- After these operations the count of the tag `x` is not the number of memories found by it. -/
def Miscounts (ops : List Op) : Prop :=
  ∃ ts g, Run step .new ts g ∧ ts.map Transition.event = ops ∧
    (∀ t ∈ ts, t.event.OnTags t.before) ∧ ¬ g.TagsAgree

theorem miscounts_of_exec {ops : List Op} {count found : ℕ} (hne : count ≠ found)
    (h : (exec step .new ops).map (fun r => (r.1.all (fun t => t.event.OnTags t.before),
      r.2.tagCount "x", (r.2.getMemoriesByTag "x").length)) = some (true, count, found)) :
    Miscounts ops := by
  obtain ⟨ts, g, run, hes, hobs⟩ := Run.of_observed h
  obtain ⟨hon, hpair⟩ := Prod.mk.inj hobs
  obtain ⟨hcount, hfound⟩ := Prod.mk.inj hpair
  refine ⟨ts, g, run, hes, by simpa using hon, fun hagree => hne ?_⟩
  obtain ⟨h₁, h₂, h₃⟩ := hagree "x"
  rw [← hcount, ← hfound, h₁, h₂, h₃]

/-- **Two miscounts.**  A tag is taken from a memory that does not have it, and counts one memory
fewer; a memory is added again, and its edges are counted twice. -/
theorem tags_miscounted :
    Miscounts [.addMemory (memory "a" ["x"]), .addMemory (memory "b" []), .untagMemory "b" "x"] ∧
      Miscounts [.addMemory (memory "a" ["x"]), .addMemory (memory "a" ["x"]),
        .untagMemory "a" "x"] := by
  refine ⟨miscounts_of_exec Nat.zero_ne_one ?_,
    miscounts_of_exec Nat.one_ne_zero ?_⟩
  · decide +kernel
  · decide +kernel

end Jcode.Memory
