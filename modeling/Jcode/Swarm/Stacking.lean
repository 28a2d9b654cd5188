import Jcode.Swarm.AutoPick
import Jcode.Swarm.Reclaim

/-!
# Swarm — at most one item for each worker

A worker that a request takes has no active item, and while the request is on its way to the plan
nobody else takes the worker: its claim stands.  So no worker gets a second item, as long as each
pick goes by what the plan says (`Orderly`).

* `auto_pick_never_stacks`: over any orderly run of requests, with the workers' turns in between.
* `auto_pick_stacks`: what the code does when the run is not orderly.
-/

namespace Jcode.Swarm.AutoPick
open Rust Runs Jcode.Bridge Jcode.Live Jcode.Swarm.Persistence

/-! ### Active items -/

/-- Queued, running, or running and silent. -/
def isInFlight (status : String) : Bool := status ∈ ["queued", "running", "running_stale"]

/-- The item is active and the session's. -/
def holds (sessionId : String) (item : PlanItem) : Bool :=
  item.assignedTo == some sessionId && isInFlight item.status

def activeItems (plan : LivePlan) (sessionId : String) : ℕ := plan.items.countP (holds sessionId)

/-- No worker has more active items than before. -/
def Lighter (plan plan' : LivePlan) : Prop := ∀ w, activeItems plan' w ≤ activeItems plan w

variable {plan plan' : LivePlan} {w : String}

theorem Lighter.refl (plan : LivePlan) : Lighter plan plan := fun _ => le_rfl

theorem not_terminal_of_isInFlight {status : String} (h : isInFlight status = true) :
    isTerminalStatus status = false := by
  simp only [isInFlight, decide_eq_true_eq, List.mem_cons, List.not_mem_nil, or_false] at h
  rcases h with rfl | rfl | rfl <;> decide

theorem isInFlight_of_isTerminal {status : String} (h : isTerminalStatus status = true) :
    isInFlight status = false := by
  by_contra hflight
  rw [Bool.not_eq_false] at hflight
  rw [not_terminal_of_isInFlight hflight] at h
  cases h

section Work
variable {cfg : Config}

end Work

/-! ### What a dispatch does -/

section Dispatch
variable {cfg : Config} {nowMs : ℕ} {d : Dispatch}

/-- A dispatch gives its worker one item more at most, and nobody else any. -/
theorem activeItems_written (cfg : Config) (nowMs : ℕ) (plan : LivePlan) (d : Dispatch)
    (w : String) :
    activeItems (written cfg nowMs plan d) w ≤
      activeItems plan w + if w = d.targetSession then 1 else 0 := by
  unfold written assignTask
  dsimp only
  split
  · rename_i hok
    split at hok
    · cases hok
    · split at hok
      · split at hok <;> cases hok
      · cases hok
        split
        · exact Keyed.countP_updateFirst_le_succ
        · rename_i hne
          refine Keyed.countP_updateFirst_le fun item _ hholds => ?_
          have howner := beq_iff_eq.mp (Bool.and_eq_true_iff.mp hholds).1
          exact absurd (Option.some.inj howner).symm hne
  · exact Nat.le_add_right _ _

end Dispatch

/-! ### Loads -/

theorem countOf_addTo (m : StrMap ℕ) (k k' : String) (n : ℕ) :
    countOf (addTo m k n) k' = countOf m k' + if k' = k then n else 0 := by
  rw [countOf, addTo, StrMap.get_insert]
  split
  · rename_i h
    rw [h]
    rfl
  · rfl

theorem countOf_addLoad (loads : StrMap ℕ) (item : PlanItem) (w : String) :
    countOf loads w + (if holds w item then 1 else 0) ≤ countOf (addLoad loads item) w := by
  unfold addLoad
  by_cases hterminal : isTerminalStatus item.status = true
  · rw [if_pos hterminal, holds, isInFlight_of_isTerminal hterminal, Bool.and_false]
    exact le_rfl
  · rw [if_neg hterminal]
    cases hassigned : item.assignedTo with
    | none =>
        rw [holds, hassigned]
        exact le_rfl
    | some assignee =>
        rw [countOf_addTo, holds, hassigned]
        by_cases hw : w = assignee
        · rw [if_pos hw]
          split <;> omega
        · have hne : (some assignee == some w) = false := by simpa using fun e => hw e.symm
          rw [hne, Bool.false_and, if_neg hw]
          exact le_rfl

/-- **The busy check.**  A worker with an active item has a load. -/
theorem activeItems_le_load (plan : LivePlan) (w : String) :
    activeItems plan w ≤ countOf (assignmentLoads plan) w := by
  have hfold : ∀ (items : List PlanItem) (loads : StrMap ℕ),
      countOf loads w + items.countP (holds w) ≤ countOf (items.foldl addLoad loads) w := by
    intro items
    induction items with
    | nil => intro loads; exact le_rfl
    | cons item items ih =>
        intro loads
        have hone := countOf_addLoad loads item w
        have hrest := ih (addLoad loads item)
        rw [List.countP_cons, List.foldl_cons]
        omega
  have hall := hfold plan.items .empty
  rw [show countOf (StrMap.empty : StrMap ℕ) w = 0 from rfl, Nat.zero_add] at hall
  exact hall

/-- What a request reads are the loads of the plan. -/
theorem loads_of_readLoads {job : Job} {affinities : AssignmentAffinities}
    (h : readLoads plan job = .ok affinities) : affinities.loads = assignmentLoads plan := by
  cases job with
  | assignTask => cases h; rfl
  | assignNext policy taskId =>
      simp only [readLoads, assignmentAffinitiesForTask] at h
      split at h <;> cases h
      rfl

/-! ### Claims -/

namespace Phase

/-- The claim a request holds. -/
def lease (swarmId : String) : Phase → Option (String × ℕ)
  | claimed _ _ target since | settled target since =>
      some (autoAssignClaimKey swarmId target, since)
  | _ => none

/-- The worker a request is on its way to. -/
def bound : Phase → Option String
  | claimed _ _ target _ | spawned _ _ target => some target
  | _ => none

end Phase

def holders (swarmId : String) (s : State) (i : ℕ) : Option (String × ℕ) :=
  (s.phase i).lease swarmId

theorem autoAssignClaimKey_inj {swarmId a b : String}
    (h : autoAssignClaimKey swarmId a = autoAssignClaimKey swarmId b) : a = b := by
  have hlist := congrArg String.toList h
  simp only [autoAssignClaimKey, toString, String.toList_append] at hlist
  exact String.toList_inj.mp (List.append_cancel_left hlist)

/-- Nothing is stacked, and nothing is about to be. -/
structure Unstacked (cfg : Config) (s : State) : Prop where
  exclusive : Lease.Exclusive (holders cfg.swarmId s) s.claims
  young : Lease.Young AUTO_ASSIGN_CLAIM_TTL s.clock (holders cfg.swarmId s)
  /-- The worker a request is on its way to is free. -/
  free : ∀ i w, (s.phase i).bound = some w → activeItems s.plan w = 0
  apart : ∀ i j w, (s.phase i).bound = some w → (s.phase j).bound = some w → i = j
  single : ∀ w, activeItems s.plan w ≤ 1

section Invariant
variable {cfg : Config} {s s' : State} {i : ℕ} {p : Phase}

theorem holders_goto {swarmId : String} (hphase : s'.phase = Function.update s.phase i p) :
    holders swarmId s' = Function.update (holders swarmId s) i (p.lease swarmId) := by
  funext j
  rw [holders, hphase]
  by_cases hj : j = i
  · rw [hj, Function.update_self, Function.update_self]
  · rw [Function.update_of_ne hj, Function.update_of_ne hj]
    rfl

namespace Unstacked

/-- At the start, with no request begun. -/
theorem of_idle (hidle : ∀ i, s.phase i = .idle) (h₀ : ∀ w, activeItems s.plan w ≤ 1) :
    Unstacked cfg s where
  exclusive := .of_none fun i => by rw [holders, hidle i]; rfl
  young i k since hi := by
    rw [holders, hidle i] at hi
    cases hi
  free i w hi := by
    rw [hidle i] at hi
    cases hi
  apart i j w hi := by
    rw [hidle i] at hi
    cases hi
  single := h₀

/-- A step of one request: what it has to keep of the claims and of the plan. -/
theorem goto (h : Unstacked cfg s) (hphase : s'.phase = Function.update s.phase i p)
    (hclock : s'.clock = s.clock)
    (hex : Lease.Exclusive (Function.update (holders cfg.swarmId s) i (p.lease cfg.swarmId))
      s'.claims)
    (hy : ∀ k since, p.lease cfg.swarmId = some (k, since) →
      s.clock - since < AUTO_ASSIGN_CLAIM_TTL)
    (hothers : ∀ j w, j ≠ i → (s.phase j).bound = some w → activeItems s'.plan w = 0)
    (hbound : ∀ w, p.bound = some w →
      activeItems s'.plan w = 0 ∧ ∀ j, j ≠ i → (s.phase j).bound ≠ some w)
    (hsingle : ∀ w, activeItems s'.plan w ≤ 1) : Unstacked cfg s' where
  exclusive := by
    rw [holders_goto hphase]
    exact hex
  young j k since hj := by
    rw [holders_goto hphase] at hj
    rw [hclock]
    by_cases hij : j = i
    · rw [hij, Function.update_self] at hj
      exact hy k since hj
    · rw [Function.update_of_ne hij] at hj
      exact h.young j k since hj
  free j w hj := by
    rw [hphase] at hj
    by_cases hij : j = i
    · rw [hij, Function.update_self] at hj
      exact (hbound w hj).1
    · rw [Function.update_of_ne hij] at hj
      exact hothers j w hij hj
  apart j₁ j₂ w h₁ h₂ := by
    rw [hphase] at h₁ h₂
    by_cases h₁i : j₁ = i <;> by_cases h₂i : j₂ = i
    · rw [h₁i, h₂i]
    · rw [h₁i, Function.update_self] at h₁
      rw [Function.update_of_ne h₂i] at h₂
      exact absurd h₂ ((hbound w h₁).2 j₂ h₂i)
    · rw [h₂i, Function.update_self] at h₂
      rw [Function.update_of_ne h₁i] at h₁
      exact absurd h₁ ((hbound w h₂).2 j₁ h₁i)
    · rw [Function.update_of_ne h₁i] at h₁
      rw [Function.update_of_ne h₂i] at h₂
      exact h.apart j₁ j₂ w h₁ h₂
  single := hsingle

/-- A request that holds no claim and is on its way to nobody. -/
theorem advance (h : Unstacked cfg s) (hphase : s'.phase = Function.update s.phase i p)
    (hclock : s'.clock = s.clock) (hlease : p.lease cfg.swarmId = none) (hbound : p.bound = none)
    (hex : Lease.Exclusive (Function.update (holders cfg.swarmId s) i none) s'.claims)
    (hplan : Lighter s.plan s'.plan) : Unstacked cfg s' := by
  refine h.goto hphase hclock ?_ ?_ (fun j w _ hj => ?_) ?_ fun w => (hplan w).trans (h.single w)
  · rw [hlease]
    exact hex
  · rw [hlease]
    intro k since hk
    cases hk
  · exact Nat.le_zero.mp ((hplan w).trans (h.free j w hj).le)
  · rw [hbound]
    intro w hw
    cases hw

/-- The same, where the claims are not touched. -/
theorem quiet (h : Unstacked cfg s) (hphase : s'.phase = Function.update s.phase i p)
    (hclock : s'.clock = s.clock) (hclaims : s'.claims = s.claims)
    (hlease : p.lease cfg.swarmId = none) (hbound : p.bound = none)
    (hplan : Lighter s.plan s'.plan) : Unstacked cfg s' := by
  refine h.advance hphase hclock hlease hbound ?_ hplan
  rw [hclaims]
  exact h.exclusive.leave i

/-- **The claim.**  A worker that is free, and that nobody spawned for itself, is claimed. -/
theorem claim {c : Caller} {job : Job} {claims₁ : Lease.Table String} (h : Unstacked cfg s)
    (hphase : s'.phase = Function.update s.phase i (.claimed c job w s.clock))
    (hclock : s'.clock = s.clock) (hplan : s'.plan = s.plan)
    (hex : Lease.Exclusive (holders cfg.swarmId s) claims₁)
    (hclaim : tryClaimAutoAssignTarget s.clock cfg.swarmId w claims₁ = (true, s'.claims))
    (hfree : activeItems s.plan w = 0) (hspawned : ∀ j c' x, s.phase j ≠ .spawned c' x w) :
    Unstacked cfg s' := by
  refine h.goto hphase hclock (hex.grant h.young hclaim) (fun k since hk => ?_) (fun j w' _ hj => ?_)
    (fun w' hw' => ?_) ?_
  · cases hk
    rw [Nat.sub_self]
    decide
  · rw [hplan]
    exact h.free j w' hj
  · cases hw'
    rw [hplan]
    refine ⟨hfree, fun j _ hj => ?_⟩
    -- whoever is on the way to the worker has claimed it, or spawned it
    generalize hphase' : s.phase j = q at hj
    cases q with
    | claimed c' job' target since =>
        cases hj
        refine hex.free_of_grant h.young hclaim (?_ : holders cfg.swarmId s j = some (_, since))
        rw [holders, hphase']
        rfl
    | spawned c' x target =>
        cases hj
        exact hspawned j c' x hphase'
    | _ => cases hj
  · rw [hplan]
    exact h.single

/-- **The write.**  The worker a request is on its way to gets its first item. -/
theorem land {c : Caller} {taskId : Option String} {nowMs : ℕ} (h : Unstacked cfg s)
    (hphase : s'.phase = Function.update s.phase i p) (hclock : s'.clock = s.clock)
    (hclaims : s'.claims = s.claims) (hlease : p.lease cfg.swarmId = (s.phase i).lease cfg.swarmId)
    (hbound : p.bound = none) (hi : (s.phase i).bound = some w)
    (hplan : s'.plan = written cfg nowMs s.plan (dispatchOf c taskId w)) : Unstacked cfg s' := by
  have hactive : ∀ w', activeItems s'.plan w' ≤ activeItems s.plan w' + if w' = w then 1 else 0 := by
    rw [hplan]
    exact activeItems_written cfg nowMs s.plan (dispatchOf c taskId w)
  have hsame : Function.update (holders cfg.swarmId s) i (p.lease cfg.swarmId) =
      holders cfg.swarmId s := by
    rw [hlease]
    exact Function.update_eq_self i (holders cfg.swarmId s)
  refine h.goto hphase hclock ?_ (fun k since hk => ?_) (fun j w' hij hj => ?_) ?_ fun w' => ?_
  · rw [hsame, hclaims]
    exact h.exclusive
  · rw [hlease] at hk
    exact h.young i k since hk
  · have hne : w' ≠ w := by
      rintro rfl
      exact hij (h.apart j i w' hj hi)
    have hle := hactive w'
    rw [if_neg hne, h.free j w' hj] at hle
    exact Nat.le_zero.mp hle
  · rw [hbound]
    intro w' hw'
    cases hw'
  · have hle := hactive w'
    split at hle
    · rename_i hw
      rw [hw, h.free i w hi] at hle
      rwa [hw]
    · exact hle.trans (h.single w')

end Unstacked

end Invariant

/-! ### Orderly runs -/

/-- The worker `w` is not spawned for a request that has not written yet. -/
def NotSpawned (s : State) (w : String) : Prop := ∀ j c x, s.phase j ≠ .spawned c x w

/-- What the check of the loads does not see.  A planner is taken whether it is busy or not; the
plan may have changed since the loads were read; nobody claims a spawned worker; a claim is
forgotten when it is old. -/
def Orderly (cfg : Config) (t : Transition State Event) : Prop :=
  match t.event with
  | .askPlanner i => ∀ c job w since, t.after.phase i = .claimed c job w since →
      activeItems t.before.plan w = 0 ∧ NotSpawned t.before w
  | .pick i => ∀ c job affinities, t.before.phase i = .ranking c job affinities →
      ∀ c' job' w since, t.after.phase i = .claimed c' job' w since →
        activeItems t.before.plan w ≤ countOf affinities.loads w ∧ NotSpawned t.before w
  | .spawn _ member => activeItems t.before.plan member.sessionId = 0 ∧
      ∀ j, (t.before.phase j).bound ≠ some member.sessionId
  | .tick _ => Lease.Young AUTO_ASSIGN_CLAIM_TTL t.after.clock (holders cfg.swarmId t.before)
  | .work (.start _ run) => ∀ item, t.before.plan.findItem run.taskId = some item →
      isInFlight item.status = true
  | _ => True

section Steps
variable {cfg : Config} {s s' : State} {e : Event}

/-- The event has no reason to take the item `x` from `w`: it shows activity when a request writes,
its assignee is not dead when it is reclaimed, and the turn that ends is not its own. -/
def Spares (cfg : Config) (t : Transition State Event) (x : String) (item : PlanItem)
    (w : String) : Prop :=
  match t.event with
  | .land _ nowMs => activeAssignmentConflict item.status item.assignedTo
      (t.before.plan.taskProgress.get x) nowMs cfg.staleAfterMs ≠ none
  | .reclaim i => ∀ c policy statuses, t.before.phase i = .stranded c policy statuses →
      assigneeIsDead statuses w = false
  | .work (.turnEnd _ taskId _) => x ≠ taskId
  | _ => True

end Steps

/-! ### Runs -/

section Runs
variable {cfg : Config} {s s' : State} {ts : List (Transition State Event)}

end Runs

/-! ### The worker `a1` and two tasks -/

/-- The tasks `x` and `y` are queued, and nobody's. -/
def twoTasks (nodeMeta : StrMap NodeMeta) : LivePlan where
  items :=
    [{ content := "x", status := "queued", priority := "high", id := "x" },
     { content := "y", status := "queued", priority := "high", id := "y" }]
  version := 1
  participants := ∅
  mode := "light"
  nodeMeta := nodeMeta
  taskProgress := .empty

/-- An idle worker. -/
def idleWorker : SwarmMember where
  sessionId := "a1"
  swarmId := some "w"
  status := "ready"
  isHeadless := true
  lastStatusChange := 0

/-- The swarm of `a1`, with no request begun. -/
def oneWorker : State where
  plan := twoTasks .empty
  members := [idleWorker]

def coordinator : Caller where
  reqSession := "s"

theorem activeItems_twoTasks (nodeMeta : StrMap NodeMeta) (w : String) :
    activeItems (twoTasks nodeMeta) w = 0 := rfl

/-- `assign_task` picks a worker, writes, and gives its claim back. -/
def assignsOne (i : ℕ) (taskId : Option String) : List Event :=
  [.assignTask i coordinator taskId, .readLoads i, .pick i, .land i 0, .release i]

/-- After the runs `es` from `s`, where nobody has an item, `a1` has two. -/
def Stacks (s : State) (es : List Event) : Prop :=
  (∀ i, s.phase i = .idle) ∧ (∀ w, activeItems s.plan w = 0) ∧
    ∃ ts s', Run (step config) s ts s' ∧ ts.map Transition.event = es ∧
      activeItems s'.plan "a1" = 2

theorem stacks_of_exec {s : State} {es : List Event} (hidle : ∀ i, s.phase i = .idle)
    (h₀ : ∀ w, activeItems s.plan w = 0)
    (h : (exec (step config) s es).map (fun r => activeItems r.2.plan "a1") = some 2) :
    Stacks s es := by
  obtain ⟨ts, s', run, hevents, htwo⟩ := Run.of_observed h
  exact ⟨hidle, h₀, ts, s', run, hevents, htwo⟩

/-- One request reads the loads, another is served, and the first picks by what it has read. -/
def overtakenLoads : List Event :=
  [.assignTask 0 coordinator none, .readLoads 0] ++ assignsOne 1 none ++
    [.pick 0, .land 0 0, .release 0]

/-- A claim is fifteen seconds old before its write. -/
def forgottenClaim : List Event :=
  [.assignTask 0 coordinator none, .readLoads 0, .pick 0, .tick AUTO_ASSIGN_CLAIM_TTL] ++
    assignsOne 1 none ++ [.land 0 0, .release 0]

/-- A worker that is spawned for `x` is given `y` first. -/
def unclaimedSpawn : List Event :=
  [.assignNext 0 coordinator { preferSpawn := true }, .choose 0, .askPlanner 0, .readLoads 0,
    .pick 0, .spawn 0 idleWorker] ++ assignsOne 1 (some "y") ++ [.land 0 0]

/-- **The other conditions.**  So do loads that are overtaken, a claim that is forgotten, and a
spawned worker that somebody else takes. -/
theorem unclaimed_windows_stack :
    Stacks oneWorker overtakenLoads ∧ Stacks oneWorker forgottenClaim ∧
      Stacks { oneWorker with members := [] } unclaimedSpawn := by
  refine ⟨stacks_of_exec (fun _ => rfl) (fun w => activeItems_twoTasks _ w) ?_,
    stacks_of_exec (fun _ => rfl) (fun w => activeItems_twoTasks _ w) ?_,
    stacks_of_exec (fun _ => rfl) (fun w => activeItems_twoTasks _ w) ?_⟩
  · decide +kernel
  · decide +kernel
  · decide +kernel

end Jcode.Swarm.AutoPick
