import Jcode.Live.Assign

/-!
# Live — Target

A coordinator may name a worker instead of one of its tasks.  The task that is meant is found among
those of the worker that allow the action, the most active status first; the choice is refused when
the best of them are several.

* `filter_insertionSort`: a stable sort keeps the order of what it does not tell apart.
* `taskControlTargetItemId_eq`: the answer, by the candidates of the best class alone.
* `target_unambiguous_iff`: when it can be relied on.
-/

namespace Jcode.Live
open Jcode.Bridge

/-! ### The choice -/

/-- The class of a status, the best one first. -/
def targetClass (item : PlanItem) : ℕ :=
  if item.status ∈ ["running", "running_stale"] then 0
  else if item.status ∈ ["queued", "ready", "pending", "todo"] then 1
  else if item.status ∈ ["failed", "stopped", "crashed"] then 2
  else if item.status ∈ ["completed", "done"] then 3
  else 4

/-- The tasks of the session that allow the action. -/
def targetCandidates (items : List PlanItem) (targetSession : String)
    (action : TaskControlAction) : List PlanItem :=
  (items.filter fun item => item.assignedTo == some targetSession).filter fun item =>
    taskControlActionAllowsStatus action item.status

def noTargetError (targetSession : String) (action : TaskControlAction) : String :=
  "No task assigned to '" ++ targetSession ++ "' can be " ++ action.asStr ++
    ". Provide task_id explicitly, or assign a task first."

def multipleTargetsError (targetSession : String) (action : TaskControlAction)
    (candidates : List PlanItem) : String :=
  "Multiple tasks assigned to '" ++ targetSession ++ "' can be " ++ action.asStr ++ ": " ++
    ", ".intercalate (candidates.map (·.id)) ++ ". Provide task_id explicitly."

/-- They are sorted by class; the sort is stable. -/
def sortedCandidates (items : List PlanItem) (targetSession : String)
    (action : TaskControlAction) : List PlanItem :=
  (targetCandidates items targetSession action).insertionSort fun a b =>
    targetClass a ≤ targetClass b

def taskControlTargetItemId (items : List PlanItem) (targetSession : String)
    (action : TaskControlAction) : Except String String :=
  match sortedCandidates items targetSession action with
  | [] => .error (noTargetError targetSession action)
  | [item] => .ok item.id
  | first :: second :: rest =>
      if first.status ≠ second.status then .ok first.id
      else .error (multipleTargetsError targetSession action (first :: second :: rest))

/-! ### Stable sorting -/

/-- **A stable sort** keeps the order of the elements of each key. -/
theorem filter_insertionSort {α : Type*} (key : α → ℕ) (k : ℕ) (l : List α) :
    (l.insertionSort fun a b => key a ≤ key b).filter (fun a => key a = k) =
      l.filter fun a => key a = k := by
  have hpairwise : (l.filter fun a => key a = k).Pairwise fun a b => key a ≤ key b := by
    refine List.pairwise_iff_forall_sublist.mpr fun hab => ?_
    have ha := List.of_mem_filter (hab.subset (List.mem_cons_self ..))
    have hb := List.of_mem_filter (hab.subset (List.mem_cons_of_mem _ (List.mem_cons_self ..)))
    exact ((of_decide_eq_true ha).trans (of_decide_eq_true hb).symm).le
  have hsub := (List.sublist_insertionSort hpairwise List.filter_sublist).filter fun a => key a = k
  rw [List.filter_filter] at hsub
  simp only [Bool.and_self] at hsub
  refine (hsub.eq_of_length ?_).symm
  exact ((List.perm_insertionSort _ l).filter _).length_eq.symm

/-! ### The best candidates -/

/-- The candidates no other candidate is better than, in the order of the items. -/
def bestTargets (items : List PlanItem) (targetSession : String) (action : TaskControlAction) :
    List PlanItem :=
  (targetCandidates items targetSession action).filter fun item =>
    ∀ other ∈ targetCandidates items targetSession action, targetClass item ≤ targetClass other

theorem sortedCandidates_pairwise (items : List PlanItem) (targetSession : String)
    (action : TaskControlAction) : (sortedCandidates items targetSession action).Pairwise
      fun a b => targetClass a ≤ targetClass b :=
  List.pairwise_insertionSort (fun a b => targetClass a ≤ targetClass b) _

/-- The best candidates are those of the class of the first one of the sorted list. -/
theorem bestTargets_eq {items : List PlanItem} {targetSession : String}
    {action : TaskControlAction} {first : PlanItem} {rest : List PlanItem}
    (hsort : sortedCandidates items targetSession action = first :: rest) :
    bestTargets items targetSession action =
      (first :: rest).filter fun item => targetClass item = targetClass first := by
  have hmem : ∀ item, item ∈ first :: rest ↔ item ∈ targetCandidates items targetSession action :=
    fun item => by rw [← hsort, sortedCandidates, List.mem_insertionSort]
  have hleast : ∀ item ∈ first :: rest, targetClass first ≤ targetClass item := by
    have hpairwise := sortedCandidates_pairwise items targetSession action
    rw [hsort] at hpairwise
    intro item hitem
    rcases List.mem_cons.mp hitem with rfl | hitem
    · exact le_rfl
    · exact List.rel_of_pairwise_cons hpairwise hitem
  rw [← hsort, sortedCandidates, filter_insertionSort, bestTargets]
  refine List.filter_congr fun item hitem => decide_eq_decide.mpr ⟨fun hbest => ?_, fun heq => ?_⟩
  · refine le_antisymm (hbest first ((hmem first).mp (List.mem_cons_self ..))) ?_
    exact hleast item ((hmem item).mpr hitem)
  · intro other hother
    rw [heq]
    exact hleast other ((hmem other).mpr hother)

/-- **The answer depends on the candidates of the best class**, and of these on the first two. -/
theorem taskControlTargetItemId_eq (items : List PlanItem) (targetSession : String)
    (action : TaskControlAction) :
    (bestTargets items targetSession action = [] ∧
      taskControlTargetItemId items targetSession action =
        .error (noTargetError targetSession action)) ∨
    (∃ item, bestTargets items targetSession action = [item] ∧
      taskControlTargetItemId items targetSession action = .ok item.id) ∨
    ∃ first second rest, bestTargets items targetSession action = first :: second :: rest ∧
      ((first.status ≠ second.status ∧
        taskControlTargetItemId items targetSession action = .ok first.id) ∨
      first.status = second.status ∧
        taskControlTargetItemId items targetSession action =
          .error (multipleTargetsError targetSession action
            (sortedCandidates items targetSession action))) := by
  rw [taskControlTargetItemId]
  cases hsort : sortedCandidates items targetSession action with
  | nil =>
      have hnil : targetCandidates items targetSession action = [] := by
        refine List.eq_nil_iff_forall_not_mem.mpr fun item hitem => ?_
        rw [← List.mem_insertionSort fun a b => targetClass a ≤ targetClass b] at hitem
        rw [sortedCandidates] at hsort
        exact List.not_mem_nil (hsort ▸ hitem)
      exact .inl ⟨by rw [bestTargets, hnil, List.filter_nil], rfl⟩
  | cons first rest =>
      refine .inr ?_
      have hbest := bestTargets_eq hsort
      rw [List.filter_cons, if_pos (decide_eq_true rfl)] at hbest
      rw [hbest]
      cases rest with
      | nil => exact .inl ⟨first, rfl, rfl⟩
      | cons second rest =>
          dsimp only
          by_cases hclass : targetClass second = targetClass first
          · rw [List.filter_cons, if_pos (decide_eq_true hclass)]
            refine .inr ⟨first, second, _, rfl, ?_⟩
            by_cases hstatus : first.status = second.status
            · rw [if_neg (not_not.mpr hstatus)]
              exact .inr ⟨hstatus, rfl⟩
            · rw [if_pos hstatus]
              exact .inl ⟨hstatus, rfl⟩
          · -- the second candidate is worse than the first, and so are the others
            have hpairwise := sortedCandidates_pairwise items targetSession action
            rw [hsort] at hpairwise
            have hlt : targetClass first < targetClass second := lt_of_le_of_ne
              (List.rel_of_pairwise_cons hpairwise (List.mem_cons_self ..)) (Ne.symm hclass)
            have hworse : ∀ item ∈ second :: rest, targetClass first < targetClass item := by
              intro item hitem
              rcases List.mem_cons.mp hitem with rfl | hitem
              · exact hlt
              · exact hlt.trans_le (List.rel_of_pairwise_cons hpairwise.of_cons hitem)
            have hstatus : first.status ≠ second.status := fun h =>
              hclass (by rw [targetClass, targetClass, h])
            refine .inl ⟨first, congrArg (first :: ·) ?_, if_pos hstatus⟩
            refine List.filter_eq_nil_iff.mpr fun item hitem => ?_
            exact fun heq => (hworse item hitem).ne' (of_decide_eq_true heq)

/-! ### Reliance -/

/-- An answer names the only candidate of its class, no candidate has a better class, and several
candidates of the best class are refused. -/
def TargetUnambiguous (items : List PlanItem) (targetSession : String)
    (action : TaskControlAction) : Prop :=
  (∀ id, taskControlTargetItemId items targetSession action = .ok id →
    ∃ item ∈ items, item.id = id ∧ item.assignedTo = some targetSession ∧
      taskControlActionAllowsStatus action item.status ∧
      (targetCandidates items targetSession action).filter
        (fun other => targetClass other = targetClass item) = [item] ∧
      ∀ other ∈ targetCandidates items targetSession action,
        targetClass item ≤ targetClass other) ∧
  (2 ≤ (bestTargets items targetSession action).length →
    ∃ error, taskControlTargetItemId items targetSession action = .error error)

theorem mem_targetCandidates {items : List PlanItem} {targetSession : String}
    {action : TaskControlAction} {item : PlanItem} :
    item ∈ targetCandidates items targetSession action ↔
      item ∈ items ∧ item.assignedTo = some targetSession ∧
        taskControlActionAllowsStatus action item.status := by
  rw [targetCandidates, List.mem_filter, List.mem_filter, beq_iff_eq, and_assoc]

/-- The only best candidate is the only candidate of its class. -/
theorem bestTargets_singleton {items : List PlanItem} {targetSession : String}
    {action : TaskControlAction} {item : PlanItem}
    (hbest : bestTargets items targetSession action = [item]) :
    item ∈ targetCandidates items targetSession action ∧
    (∀ other ∈ targetCandidates items targetSession action,
      targetClass item ≤ targetClass other) ∧
    (targetCandidates items targetSession action).filter
      (fun other => targetClass other = targetClass item) = [item] := by
  have hmem : item ∈ bestTargets items targetSession action := by
    rw [hbest]
    exact List.mem_singleton_self item
  obtain ⟨hcandidate, hleast⟩ := List.mem_filter.mp hmem
  have hleast := of_decide_eq_true hleast
  refine ⟨hcandidate, hleast, ?_⟩
  rw [← hbest, bestTargets]
  refine List.filter_congr fun other hother => decide_eq_decide.mpr ⟨fun heq => ?_, fun hall => ?_⟩
  · intro third hthird
    rw [heq]
    exact hleast third hthird
  · exact le_antisymm (hall item hcandidate) (hleast other hother)

/-- **The choice is unambiguous** exactly when the first two candidates of the best class, if there
are two, have the same status: those of different statuses are not seen to be of one class. -/
theorem target_unambiguous_iff (items : List PlanItem) (targetSession : String)
    (action : TaskControlAction) :
    TargetUnambiguous items targetSession action ↔
      ∀ first second rest,
        bestTargets items targetSession action = first :: second :: rest →
          first.status = second.status := by
  rcases taskControlTargetItemId_eq items targetSession action with
    ⟨hbest, hanswer⟩ | ⟨item, hbest, hanswer⟩ |
      ⟨first, second, rest, hbest, ⟨hstatus, hanswer⟩ | ⟨hstatus, hanswer⟩⟩
  · refine iff_of_true ⟨fun id hok => ?_, fun _ => ⟨_, hanswer⟩⟩ fun first second rest h => ?_
    · rw [hanswer] at hok
      cases hok
    · rw [hbest] at h
      cases h
  · refine iff_of_true ⟨fun id hok => ?_, fun hlen => ?_⟩ fun first second rest h => ?_
    · rw [hanswer] at hok
      cases hok
      obtain ⟨hcandidate, hleast, honly⟩ := bestTargets_singleton hbest
      obtain ⟨hitem, hassigned, hallows⟩ := mem_targetCandidates.mp hcandidate
      exact ⟨item, hitem, rfl, hassigned, hallows, honly, hleast⟩
    · rw [hbest] at hlen
      exact absurd hlen (by simp)
    · rw [hbest] at h
      cases h
  · refine iff_of_false (fun h => ?_) fun h => hstatus (h first second rest hbest)
    obtain ⟨error, herror⟩ := h.2 (by rw [hbest]; simp)
    rw [hanswer] at herror
    cases herror
  · refine iff_of_true ⟨fun id hok => ?_, fun _ => ⟨_, hanswer⟩⟩ fun first' second' rest' h => ?_
    · rw [hanswer] at hok
      cases hok
    · rw [hbest] at h
      cases h
      exact hstatus

def controlItem (id status : String) : PlanItem where
  content := ""
  status := status
  priority := "medium"
  id := id
  assignedTo := some "agent-a"

/-- **Two active tasks are taken for one**: the first is resumed, whichever it is. -/
theorem resume_ambiguous :
    ¬ TargetUnambiguous [controlItem "one" "running", controlItem "two" "running_stale"]
      "agent-a" .resume := by
  intro h
  obtain ⟨error, herror⟩ := h.2 (by decide)
  rw [show taskControlTargetItemId [controlItem "one" "running",
    controlItem "two" "running_stale"] "agent-a" .resume = .ok "one" by decide] at herror
  cases herror

end Jcode.Live
