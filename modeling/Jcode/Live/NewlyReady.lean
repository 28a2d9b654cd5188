import Jcode.Live.Stall

/-!
# Live — what is announced as ready

`newly_ready_item_ids` of `jcode-plan/src/lib.rs`: each broadcast of a plan names the items that are
ready now and were not before.  Here items complete one after another, in any order.

* `mem_newlyReady_completed`: a completion makes ready the items it was the last open dependency of.
* `ready_announced_once`: over any completions each item is announced at most once, when its last open
  dependency completes.
-/

namespace Jcode.Live
open Rust Jcode.Dag Jcode.Bridge

variable {items : List PlanItem} {order order' : IterOrder} {id status x : String}

/-- The ready items of `after` that are not ready in `before`; the two walks over the maps may be in
different orders. -/
def newlyReadyItemIds (order order' : IterOrder) (before after : List PlanItem) : List String :=
  let beforeReady := (summarizePlanGraph order before).readyIds
  ((summarizePlanGraph order' after).readyIds).filter fun itemId => itemId ∉ beforeReady

/-- The items, once the one of this id has a new status. -/
def withStatus (items : List PlanItem) (id status : String) : List PlanItem :=
  items.map fun item => if item.id = id then { item with status := status } else item

/-- The items after completions, each an id and the word for completed. -/
def afterCompletions (items : List PlanItem) (completions : List (String × String)) :
    List PlanItem :=
  completions.foldl (fun items c => withStatus items c.1 c.2) items

/-- What is announced, completion by completion. -/
def announced (order order' : IterOrder) (items : List PlanItem) :
    List (String × String) → List String
  | [] => []
  | c :: cs =>
      newlyReadyItemIds order order' items (withStatus items c.1 c.2) ++
        announced order order' (withStatus items c.1 c.2) cs

/-- The item `x` can be started. -/
def ReadyIn (items : List PlanItem) (x : String) : Prop :=
  ∃ item ∈ items, item.id = x ∧ isRunnableStatus item.status = true ∧ DepsCompleted items item ∧
    ¬ Endless items x

/-- No item of this id waits to be started. -/
def Settled (items : List PlanItem) (x : String) : Prop :=
  ∀ item ∈ items, item.id = x → isRunnableStatus item.status = false

/-- Of all that `x` waits for, only `id` is open. -/
def LastOpen (items : List PlanItem) (id x : String) : Prop :=
  (∃ dep ∈ items, dep.id = id) ∧ (∀ dep ∈ items, dep.id = id → isCompletedStatus dep.status = false) ∧
    ∃ item ∈ items, item.id = x ∧ isRunnableStatus item.status = true ∧ id ∈ item.blockedBy ∧
      (∀ d ∈ item.blockedBy, d ≠ id →
        ∃ dep ∈ items, dep.id = d ∧ isCompletedStatus dep.status = true) ∧ ¬ Endless items x

/-! ### One completion -/

theorem mem_newlyReadyItemIds {before after : List PlanItem} :
    x ∈ newlyReadyItemIds order order' before after ↔ ReadyIn after x ∧ ¬ ReadyIn before x := by
  rw [newlyReadyItemIds, List.mem_filter, mem_readyIds, decide_eq_true_eq, mem_readyIds]
  exact Iff.rfl

theorem mem_withStatus {item' : PlanItem} : item' ∈ withStatus items id status ↔
    ∃ item ∈ items, (if item.id = id then { item with status := status } else item) = item' :=
  List.mem_map

theorem withStatus_ids : (withStatus items id status).map (·.id) = items.map (·.id) := by
  rw [withStatus, List.map_map]
  refine List.map_congr_left fun item _ => ?_
  simp only [Function.comp_apply]
  split <;> rfl

theorem withStatus_knownIds : knownIds (withStatus items id status) = knownIds items := by
  rw [knownIds, withStatus_ids, knownIds]

theorem endless_withStatus : Endless (withStatus items id status) x ↔ Endless items x := by
  have hdepends : DependsIn (withStatus items id status) = DependsIn items := by
    funext i d
    rw [DependsIn, DependsIn, withStatus_knownIds, eq_iff_iff]
    constructor
    · rintro ⟨item', hitem', hid, hd, hknown⟩
      obtain ⟨item, hitem, rfl⟩ := mem_withStatus.mp hitem'
      split at hid <;> split at hd <;> exact ⟨item, hitem, hid, hd, hknown⟩
    · rintro ⟨item, hitem, hid, hd, hknown⟩
      refine ⟨_, mem_withStatus.mpr ⟨item, hitem, rfl⟩, ?_, ?_, hknown⟩
      · split <;> exact hid
      · split <;> exact hd
  rw [endless_iff, endless_iff, hdepends]

theorem completed_not_runnable (h : isCompletedStatus status = true) :
    isRunnableStatus status = false := by
  simp only [isCompletedStatus, List.mem_cons, List.not_mem_nil, or_false, decide_eq_true_eq] at h
  rcases h with rfl | rfl <;> decide

/-- What is completed after a completion. -/
theorem completed_withStatus (hstatus : isCompletedStatus status = true) {d : String} :
    (∃ dep ∈ withStatus items id status, dep.id = d ∧ isCompletedStatus dep.status = true) ↔
      (∃ dep ∈ items, dep.id = d ∧ isCompletedStatus dep.status = true) ∨
        d = id ∧ ∃ dep ∈ items, dep.id = id := by
  constructor
  · rintro ⟨dep', hdep', hid, hdone⟩
    obtain ⟨dep, hdep, rfl⟩ := mem_withStatus.mp hdep'
    by_cases heq : dep.id = id
    · rw [if_pos heq] at hid
      exact .inr ⟨hid.symm.trans heq, dep, hdep, heq⟩
    · rw [if_neg heq] at hid hdone
      exact .inl ⟨dep, hdep, hid, hdone⟩
  · rintro (⟨dep, hdep, hid, hdone⟩ | ⟨rfl, dep, hdep, hid⟩)
    · refine ⟨_, mem_withStatus.mpr ⟨dep, hdep, rfl⟩, ?_⟩
      split
      · exact ⟨hid, hstatus⟩
      · exact ⟨hid, hdone⟩
    · refine ⟨_, mem_withStatus.mpr ⟨dep, hdep, rfl⟩, ?_⟩
      rw [if_pos hid]
      exact ⟨hid, hstatus⟩

/-- What is ready after a completion. -/
theorem readyIn_withStatus (hstatus : isCompletedStatus status = true) :
    ReadyIn (withStatus items id status) x ↔ x ≠ id ∧ ∃ item ∈ items, item.id = x ∧
      isRunnableStatus item.status = true ∧ (∀ d ∈ item.blockedBy,
        (∃ dep ∈ items, dep.id = d ∧ isCompletedStatus dep.status = true) ∨
          d = id ∧ ∃ dep ∈ items, dep.id = id) ∧ ¬ Endless items x := by
  simp only [ReadyIn, DepsCompleted, completed_withStatus hstatus, endless_withStatus]
  constructor
  · rintro ⟨item', hitem', hid, hrun, hdeps, hends⟩
    obtain ⟨item, hitem, rfl⟩ := mem_withStatus.mp hitem'
    by_cases heq : item.id = id
    · rw [if_pos heq] at hrun
      rw [completed_not_runnable hstatus] at hrun
      cases hrun
    · rw [if_neg heq] at hid hrun hdeps
      exact ⟨fun hx => heq (hid.trans hx), item, hitem, hid, hrun, hdeps, hends⟩
  · rintro ⟨hne, item, hitem, hid, hrun, hdeps, hends⟩
    have heq : item.id ≠ id := fun h => hne (hid.symm.trans h)
    refine ⟨_, mem_withStatus.mpr ⟨item, hitem, rfl⟩, ?_⟩
    rw [if_neg heq]
    exact ⟨hid, hrun, hdeps, hends⟩

/-- **A completion announces what it was holding up.** -/
theorem mem_newlyReady_completed (hids : (items.map (·.id)).Nodup)
    (hstatus : isCompletedStatus status = true) :
    x ∈ newlyReadyItemIds order order' items (withStatus items id status) ↔
      LastOpen items id x := by
  have huniq : ∀ {a b : PlanItem}, a ∈ items → b ∈ items → a.id = b.id → a = b := fun ha hb h =>
    Keyed.eq_of_key_eq hids ha hb h
  rw [mem_newlyReadyItemIds, readyIn_withStatus hstatus]
  constructor
  · rintro ⟨⟨-, item, hitem, hid, hrun, hdeps, hends⟩, hnot⟩
    -- not all of it was completed before, so it waits for `id`, and `id` was open
    obtain ⟨d, hd, hopen⟩ : ∃ d ∈ item.blockedBy,
        ¬ ∃ dep ∈ items, dep.id = d ∧ isCompletedStatus dep.status = true := by
      by_contra hall
      push Not at hall
      refine hnot ⟨item, hitem, hid, hrun, fun d hd => ?_, hends⟩
      obtain ⟨dep, hdep, hdid, hdone⟩ := hall d hd
      exact ⟨dep, hdep, hdid, hdone⟩
    obtain ⟨rfl, hknown⟩ := (hdeps d hd).resolve_left hopen
    refine ⟨hknown, fun dep hdep hdid => ?_, item, hitem, hid, hrun, hd, fun e he hne => ?_, hends⟩
    · by_contra hdone
      exact hopen ⟨dep, hdep, hdid, by simpa using hdone⟩
    · exact (hdeps e he).resolve_right fun h => hne h.1
  · rintro ⟨hknown, hopen, item, hitem, hid, hrun, hd, hdeps, hends⟩
    refine ⟨⟨?_, item, hitem, hid, hrun, fun e he => ?_, hends⟩, ?_⟩
    · -- an item that waits for itself is endless
      rintro rfl
      exact hends ⟨fun _ => x, rfl, fun _ => ⟨item, hitem, hid, hd, mem_knownIds.mpr hknown⟩⟩
    · by_cases heq : e = id
      · exact .inr ⟨heq, hknown⟩
      · exact .inl (hdeps e he heq)
    · rintro ⟨item', hitem', hid', -, hdeps', -⟩
      obtain rfl := huniq hitem' hitem (hid'.trans hid.symm)
      obtain ⟨dep, hdep, hdid, hdone⟩ := hdeps' id hd
      rw [hopen dep hdep hdid] at hdone
      cases hdone

theorem newlyReadyItemIds_nodup (before : List PlanItem) {after : List PlanItem}
    (hids : (after.map (·.id)).Nodup) : (newlyReadyItemIds order order' before after).Nodup := by
  refine List.Nodup.filter _ ?_
  simp only [summarizePlanGraph]
  exact (List.perm_insertionSort _ _).nodup_iff.mpr (hids.sublist (List.filter_sublist.map _))

/-! ### Completions one after another -/

/-- What is ready or settled stays so. -/
theorem settled_withStatus (hstatus : isCompletedStatus status = true)
    (h : ReadyIn items x ∨ Settled items x) :
    ReadyIn (withStatus items id status) x ∨ Settled (withStatus items id status) x := by
  by_cases heq : x = id
  · refine .inr fun item' hitem' hid => ?_
    obtain ⟨item, hitem, rfl⟩ := mem_withStatus.mp hitem'
    by_cases hone : item.id = id
    · rw [if_pos hone]
      exact completed_not_runnable hstatus
    · rw [if_neg hone] at hid
      exact absurd (hid.trans heq) hone
  rcases h with ⟨item, hitem, hid, hrun, hdeps, hends⟩ | hsettled
  · exact .inl ((readyIn_withStatus hstatus).mpr
      ⟨heq, item, hitem, hid, hrun, fun d hd => .inl (hdeps d hd), hends⟩)
  · refine .inr fun item' hitem' hid => ?_
    obtain ⟨item, hitem, rfl⟩ := mem_withStatus.mp hitem'
    split
    · exact completed_not_runnable hstatus
    · rename_i hne
      rw [if_neg hne] at hid
      exact hsettled item hitem hid

theorem not_readyIn_of_settled (h : Settled items x) : ¬ ReadyIn items x := by
  rintro ⟨item, hitem, hid, hrun, -⟩
  rw [h item hitem hid] at hrun
  cases hrun

/-- What is ready or settled is not announced any more. -/
theorem not_mem_announced {completions : List (String × String)}
    (hdone : ∀ c ∈ completions, isCompletedStatus c.2 = true)
    (h : ReadyIn items x ∨ Settled items x) : x ∉ announced order order' items completions := by
  induction completions generalizing items with
  | nil => exact List.not_mem_nil
  | cons c cs ih =>
      obtain ⟨hc, hcs⟩ := List.forall_mem_cons.mp hdone
      have hnext : ReadyIn (withStatus items c.1 c.2) x ∨ Settled (withStatus items c.1 c.2) x :=
        settled_withStatus hc h
      rw [announced, List.mem_append, not_or]
      refine ⟨fun hmem => ?_, ih hcs hnext⟩
      obtain ⟨hready, hnot⟩ := mem_newlyReadyItemIds.mp hmem
      rcases hnext with hready' | hsettled
      · rcases h with hbefore | hbefore
        · exact hnot hbefore
        · obtain ⟨-, item, hitem, hid, hrun, -⟩ := (readyIn_withStatus hc).mp hready
          rw [hbefore item hitem hid] at hrun
          cases hrun
      · exact not_readyIn_of_settled hsettled hready

theorem mem_announced {completions : List (String × String)} :
    x ∈ announced order order' items completions ↔ ∃ cs₁ c cs₂, completions = cs₁ ++ c :: cs₂ ∧
      x ∈ newlyReadyItemIds order order' (afterCompletions items cs₁)
        (withStatus (afterCompletions items cs₁) c.1 c.2) := by
  induction completions generalizing items with
  | nil => simp [announced]
  | cons c cs ih =>
      rw [announced, List.mem_append, ih]
      constructor
      · rintro (hmem | ⟨cs₁, c', cs₂, rfl, hmem⟩)
        · exact ⟨[], c, cs, rfl, hmem⟩
        · exact ⟨c :: cs₁, c', cs₂, rfl, hmem⟩
      · rintro ⟨cs₁, c', cs₂, heq, hmem⟩
        cases cs₁ with
        | nil =>
            obtain ⟨rfl, rfl⟩ := List.cons.inj heq
            exact .inl hmem
        | cons d cs₁ =>
            obtain ⟨rfl, rfl⟩ := List.cons.inj heq
            exact .inr ⟨cs₁, c', cs₂, rfl, hmem⟩

theorem afterCompletions_ids (completions : List (String × String)) :
    (afterCompletions items completions).map (·.id) = items.map (·.id) := by
  induction completions generalizing items with
  | nil => rfl
  | cons c cs ih => exact ih.trans withStatus_ids

theorem announced_nodup (hids : (items.map (·.id)).Nodup) {completions : List (String × String)}
    (hdone : ∀ c ∈ completions, isCompletedStatus c.2 = true) :
    (announced order order' items completions).Nodup := by
  induction completions generalizing items with
  | nil => exact List.nodup_nil
  | cons c cs ih =>
      obtain ⟨hc, hcs⟩ := List.forall_mem_cons.mp hdone
      have hids' : ((withStatus items c.1 c.2).map (·.id)).Nodup := by
        rw [withStatus_ids]
        exact hids
      refine (newlyReadyItemIds_nodup items hids').append (ih hids' hcs) fun x hx hx' => ?_
      exact not_mem_announced hcs (.inl (mem_newlyReadyItemIds.mp hx).1) hx'

/-- What becomes ready is announced. -/
theorem readyIn_or_mem_announced {completions : List (String × String)}
    (h : ReadyIn (afterCompletions items completions) x) :
    ReadyIn items x ∨ x ∈ announced order order' items completions := by
  induction completions generalizing items with
  | nil => exact .inl h
  | cons c cs ih =>
      by_cases hbefore : ReadyIn items x
      · exact .inl hbefore
      refine .inr (List.mem_append.mpr ?_)
      rcases ih h with hnow | hlater
      · exact .inl (mem_newlyReadyItemIds.mpr ⟨hnow, hbefore⟩)
      · exact .inr hlater

/-- **Each item is announced once**, if at all.  Over any completions, nothing is announced twice, nor
what was ready from the start; an item is announced by the completion of the last open item it waits
for; and what is ready in the end was ready from the start, or has been announced. -/
theorem ready_announced_once (hids : (items.map (·.id)).Nodup) (completions : List (String × String))
    (hdone : ∀ c ∈ completions, isCompletedStatus c.2 = true) :
    (announced order order' items completions).Nodup ∧
    (∀ x ∈ announced order order' items completions, ¬ ReadyIn items x) ∧
    (∀ x, x ∈ announced order order' items completions ↔ ∃ cs₁ c cs₂,
      completions = cs₁ ++ c :: cs₂ ∧ LastOpen (afterCompletions items cs₁) c.1 x) ∧
    ∀ x, ReadyIn (afterCompletions items completions) x →
      ReadyIn items x ∨ x ∈ announced order order' items completions := by
  refine ⟨announced_nodup hids hdone,
    fun x hx hready => not_mem_announced hdone (.inl hready) hx, fun x => ?_,
    fun x hready => readyIn_or_mem_announced hready⟩
  rw [mem_announced]
  refine exists_congr fun cs₁ => exists_congr fun c => exists_congr fun cs₂ =>
    and_congr_right fun heq => mem_newlyReady_completed ?_ ?_
  · rw [afterCompletions_ids]
    exact hids
  · exact hdone c (heq ▸ List.mem_append_right cs₁ List.mem_cons_self)

/-- `b` waits for `a`, and `c` for both: `b` is announced when `a` completes, then `c`. -/
def threeItems : List PlanItem :=
  [{ content := "the lexer", status := "running", priority := "high", id := "a" },
   { content := "the parser", status := "queued", priority := "high", id := "b", blockedBy := ["a"] },
   { content := "the printer", status := "queued", priority := "high", id := "c",
     blockedBy := ["a", "b"] }]

theorem ready_announced_once_threeItems :
    (announced .insertion .insertion threeItems [("a", "done"), ("b", "completed")]).Nodup ∧
      announced .insertion .insertion threeItems [("a", "done"), ("b", "completed")] = ["b", "c"] :=
  ⟨(ready_announced_once (by decide) [("a", "done"), ("b", "completed")] (by decide)).1, by decide⟩

end Jcode.Live
