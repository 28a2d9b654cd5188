import Jcode.Support.Forest
import Jcode.Swarm.Membership

/-!
# Swarm — the spawn tree

The owners of the members form a forest while each new parent is given to members it does not lie
below.  A removal gives its orphans to the coordinator when the departing member has no owner in
the swarm, and the coordinator may be a descendant of an orphan.

* `owner_remove`: what a removal does to the owners.
* `remove_forest_iff`: when a removal leaves a forest.
* `spawn_tree_forest`: every state of a run is a forest while its steps are grounded.
* `coordinator_below_orphan`: a run that elects a grandchild and gives it its own parent.
-/

namespace Jcode.Swarm.Membership
open Rust Runs Forests Relation

variable {s s' : SwarmState} {sid swarm : String}

/-! ### Owners and swarms, operation by operation -/

namespace SwarmState

/-- The key of a member is its session. -/
def Keyed (s : SwarmState) : Prop :=
  ∀ k member, s.members.get k = some member → member.sessionId = k

theorem owner_modify (f : SwarmMember → SwarmMember)
    (hf : ∀ member, (f member).reportBackToSessionId = member.reportBackToSessionId) :
    ({ s with members := s.members.modify sid f } : SwarmState).owner = s.owner := by
  funext k
  by_cases hk : k = sid
  · simp [owner, hk, Option.bind_map, hf]
  · simp [owner, StrMap.get_modify_of_ne _ hk]

theorem swarmId_modify (f : SwarmMember → SwarmMember)
    (hf : ∀ member, (f member).swarmId = member.swarmId) :
    ({ s with members := s.members.modify sid f } : SwarmState).swarmId = s.swarmId := by
  funext k
  by_cases hk : k = sid
  · simp [swarmId, hk, Option.bind_map, hf]
  · simp [swarmId, StrMap.get_modify_of_ne _ hk]

theorem Keyed.modify (h : Keyed s) (f : SwarmMember → SwarmMember)
    (hf : ∀ member, (f member).sessionId = member.sessionId) :
    Keyed { s with members := s.members.modify sid f } := by
  intro k member hk
  rw [StrMap.get_modify] at hk
  split at hk
  · rename_i heq
    obtain ⟨member', hmember', rfl⟩ := Option.map_eq_some_iff.mp hk
    rw [hf, heq]
    exact h sid member' hmember'
  · exact h k member hk

@[simp] theorem owner_setRole (role : String) : (s.setRole sid role).owner = s.owner :=
  owner_modify _ fun _ => rfl

@[simp] theorem swarmId_setRole (role : String) : (s.setRole sid role).swarmId = s.swarmId :=
  swarmId_modify _ fun _ => rfl

theorem Keyed.setRole (h : Keyed s) (role : String) : Keyed (s.setRole sid role) :=
  h.modify _ fun _ => rfl

@[simp] theorem quit_members : (s.quit sid swarm).members = s.members := by
  unfold quit
  split <;> rfl

@[simp] theorem quit_coordinators : (s.quit sid swarm).coordinators = s.coordinators := by
  unfold quit
  split <;> rfl

@[simp] theorem owner_quit : (s.quit sid swarm).owner = s.owner := by
  funext k
  simp [owner]

@[simp] theorem swarmId_quit : (s.quit sid swarm).swarmId = s.swarmId := by
  funext k
  simp [swarmId]

@[simp] theorem owner_reelect : (s.reelect sid swarm).owner = s.owner := by
  unfold reelect
  split
  · split
    · rfl
    · exact owner_setRole _
  · rfl

@[simp] theorem swarmId_reelect : (s.reelect sid swarm).swarmId = s.swarmId := by
  unfold reelect
  split
  · split
    · rfl
    · exact swarmId_setRole _
  · rfl

theorem Keyed.reelect (h : Keyed s) : Keyed (s.reelect sid swarm) := by
  unfold SwarmState.reelect
  split
  · split
    · exact h
    · exact Keyed.setRole (s := { s with coordinators := _ }) h _
  · exact h

@[simp] theorem owner_vacate : (s.vacate sid swarm).owner = s.owner := by simp [vacate]

@[simp] theorem swarmId_vacate : (s.vacate sid swarm).swarmId = s.swarmId := by simp [vacate]

theorem Keyed.vacate (h : Keyed s) : Keyed (s.vacate sid swarm) := by
  have hquit : Keyed (s.quit sid swarm) := fun k member hk => h k member (by simpa using hk)
  exact hquit.reelect.setRole _

/-- The children, in the swarm, of a member. -/
def Child (s : SwarmState) (sid swarm k : String) : Prop :=
  s.swarmId k = some swarm ∧ s.owner k = some sid

theorem isChild_iff {member : SwarmMember} {k : String} (h : s.members.get k = some member) :
    isChild sid swarm member = true ↔ s.Child sid swarm k := by
  simp [isChild, Child, swarmId, owner, h]

/-- **The owners after a removal.** -/
theorem owner_remove (h : Keyed s) (k : String) :
    (s.Child sid swarm k →
      (s.removeSessionFromSwarm sid swarm).owner k = (s.heir sid swarm).filter (· ≠ k)) ∧
      (¬ s.Child sid swarm k → (s.removeSessionFromSwarm sid swarm).owner k = s.owner k) := by
  have hvacate : ∀ member, (s.vacate sid swarm).members.get k = some member →
      (isChild sid swarm member = true ↔ s.Child sid swarm k) ∧ member.sessionId = k := by
    intro member hmember
    have hchild : isChild sid swarm member = true ↔ (s.vacate sid swarm).Child sid swarm k :=
      isChild_iff hmember
    rw [Child, swarmId_vacate, owner_vacate] at hchild
    exact ⟨hchild, h.vacate k member hmember⟩
  have howner : (s.vacate sid swarm).owner k = s.owner k := congrFun owner_vacate k
  have hswarm : (s.vacate sid swarm).swarmId k = s.swarmId k := congrFun swarmId_vacate k
  simp only [owner, swarmId] at howner hswarm
  cases hk : (s.vacate sid swarm).members.get k with
  | none =>
      rw [hk] at howner hswarm
      refine ⟨fun hc => ?_, fun _ => ?_⟩
      · rw [Child, swarmId, ← hswarm] at hc
        cases hc.1
      · simp [removeSessionFromSwarm, reparent, owner, hk, ← howner]
  | some member =>
      obtain ⟨hchild, hsession⟩ := hvacate member hk
      rw [hk] at howner
      refine ⟨fun hc => ?_, fun hc => ?_⟩
      · simp [removeSessionFromSwarm, reparent, owner, hk, hchild.mpr hc, hsession]
      · have hno := mt hchild.mp hc
        simp [removeSessionFromSwarm, reparent, owner, hk, hno, ← howner]

/-! ### The heir -/

/-- The coordinator after the departure of a session. -/
def successor (s : SwarmState) (sid swarm : String) : Option String :=
  if s.coordinators.get swarm = some sid then (s.quit sid swarm).electable swarm
  else s.coordinators.get swarm

/-- The owner of a session is another member of the swarm. -/
def OwnedIn (s : SwarmState) (sid swarm : String) : Prop :=
  ∃ owner, s.owner sid = some owner ∧ owner ≠ sid ∧ s.swarmId owner = some swarm

theorem mem_of_electable {k : String} (h : s.electable swarm = some k) :
    (∃ ids, s.swarmsById.get swarm = some ids ∧ k ∈ ids) ∧
      ∃ member, s.members.get k = some member ∧ member.isHeadless = false := by
  obtain ⟨ids, hids, hmin⟩ := Option.bind_eq_some_iff.mp h
  obtain ⟨hmem, hsome⟩ := List.mem_filter.mp (List.min?_mem hmin)
  obtain ⟨member, hmember⟩ := Option.isSome_iff_exists.mp hsome
  obtain ⟨hget, hheadless⟩ := Option.filter_eq_some_iff.mp hmember
  exact ⟨⟨ids, hids, hmem⟩, member, hget, by simpa using hheadless⟩

theorem not_mem_quit {ids : List String} (h : (s.quit sid swarm).swarmsById.get swarm = some ids) :
    sid ∉ ids := by
  unfold quit at h
  split at h
  · rename_i hnone
    rw [hnone] at h
    cases h
  · simp only at h
    split at h
    · simp [StrMap.get_remove] at h
    · rw [StrMap.get_insert_self] at h
      cases h
      simp

theorem successor_ne {k : String} (h : s.successor sid swarm = some k) : k ≠ sid := by
  rintro rfl
  unfold successor at h
  split at h
  · obtain ⟨⟨ids, hids, hk⟩, -⟩ := mem_of_electable h
    exact not_mem_quit hids hk
  · rename_i hne
    exact hne h

@[simp] theorem vacate_coordinators :
    (s.vacate sid swarm).coordinators.get swarm = s.successor sid swarm := by
  unfold vacate successor reelect
  simp only [quit_coordinators]
  split
  · split
    · rename_i hnone
      simp [setRole, hnone, StrMap.get_remove]
    · rename_i newId hnew
      simp [setRole, setCoordinator, hnew]
  · simp [setRole]

theorem heir_of_owned {owner : String} (h : s.owner sid = some owner) (hne : owner ≠ sid)
    (hswarm : s.swarmId owner = some swarm) : s.heir sid swarm = some owner := by
  simp [heir, fallbackParent, h, hne, hswarm]

theorem heir_of_not_owned (h : ¬ s.OwnedIn sid swarm) :
    s.heir sid swarm = s.successor sid swarm := by
  have hfilter : (s.successor sid swarm).filter (· ≠ sid) = s.successor sid swarm := by
    cases hk : s.successor sid swarm with
    | none => rfl
    | some k => simp [successor_ne hk]
  unfold heir fallbackParent
  rw [vacate_coordinators, swarmId_vacate, hfilter]
  cases howner : s.owner sid with
  | none => rfl
  | some owner => exact if_neg fun hc => h ⟨owner, howner, hc⟩

/-- The session whose children get the coordinator is above none of the coordinator's owners. -/
def Clear (s : SwarmState) (sid swarm : String) : Prop :=
  ¬ s.OwnedIn sid swarm → ∀ coordinator, s.successor sid swarm = some coordinator →
    ∀ k, s.Child sid swarm k → k ≠ coordinator → ¬ TransGen (Link s.owner) coordinator k

/-- **When a removal leaves a forest.** -/
theorem remove_forest_iff (keyed : Keyed s) (h : Forest s.owner) :
    Forest (s.removeSessionFromSwarm sid swarm).owner ↔ s.Clear sid swarm := by
  have hiff : ∀ heir, s.heir sid swarm = some heir →
      (Forest (s.removeSessionFromSwarm sid swarm).owner ↔
        ∀ k, s.Child sid swarm k → k ≠ heir → ¬ TransGen (Link s.owner) heir k) := by
    intro heir hheir
    have hsource : ∀ k, s.Child sid swarm k → s.owner k = some sid := fun k hk => hk.2
    refine forest_redirect_iff h hsource ?_ ?_
      fun k hk => (owner_remove keyed k).2 hk
    · intro k hk hne
      rw [(owner_remove keyed k).1 hk, hheir]
      simpa using hne.symm
    · intro hk
      rw [(owner_remove keyed heir).1 hk, hheir]
      simp
  by_cases howned : s.OwnedIn sid swarm
  · -- the owner of the departing member is above its children
    obtain ⟨owner, howner, hne, hswarm⟩ := howned
    refine iff_of_true ((hiff owner (heir_of_owned howner hne hswarm)).mpr ?_)
      fun hno => absurd ⟨owner, howner, hne, hswarm⟩ hno
    intro k hk _ hbelow
    have hchild : Link s.owner k sid := hk.2
    have hup : Link s.owner sid owner := howner
    exact h k (.head hchild (.head hup hbelow))
  · have hheir := heir_of_not_owned howned
    cases hsuccessor : s.successor sid swarm with
    | none =>
        rw [hsuccessor] at hheir
        refine iff_of_true (h.of_le fun k owner hk => ?_) ?_
        · by_cases hc : s.Child sid swarm k
          · rw [(owner_remove keyed k).1 hc, hheir] at hk
            cases hk
          · rw [(owner_remove keyed k).2 hc] at hk
            exact hk
        · intro _ coordinator hcoordinator
          rw [hsuccessor] at hcoordinator
          cases hcoordinator
    | some coordinator =>
        rw [hsuccessor] at hheir
        rw [hiff coordinator hheir]
        constructor
        · intro hclear _ c hc
          rw [hsuccessor] at hc
          cases hc
          exact hclear
        · intro hclear
          exact hclear howned coordinator hsuccessor

/-! ### The other operations -/

/-- What the invariant needs of an operation that adds no owner. -/
structure Trims (s s' : SwarmState) : Prop where
  keyed : Keyed s → Keyed s'
  owner : ∀ k o, s'.owner k = some o → s.owner k = some o

theorem Trims.trans {s₁ s₂ s₃ : SwarmState} (h₁ : Trims s₁ s₂) (h₂ : Trims s₂ s₃) :
    Trims s₁ s₃ :=
  ⟨fun h => h₂.keyed (h₁.keyed h), fun k o h => h₁.owner k o (h₂.owner k o h)⟩

theorem trims_of_members (h : s'.members = s.members) : Trims s s' := by
  refine ⟨fun keyed k member hk => keyed k member (h ▸ hk), fun k o hk => ?_⟩
  rw [SwarmState.owner, h] at hk
  exact hk

theorem trims_modify (f : SwarmMember → SwarmMember)
    (hf : ∀ member, (f member).sessionId = member.sessionId ∧
      (f member).reportBackToSessionId = member.reportBackToSessionId) :
    Trims s { s with members := s.members.modify sid f } :=
  ⟨fun keyed => keyed.modify f fun member => (hf member).1,
    fun k o hk => by rwa [owner_modify f fun member => (hf member).2] at hk⟩

theorem trims_setRole (role : String) : Trims s (s.setRole sid role) :=
  trims_modify _ fun _ => ⟨rfl, rfl⟩

theorem trims_setCoordinator : Trims s (s.setCoordinator swarm sid) := trims_of_members rfl

theorem trims_drop : Trims s (s.drop sid) := by
  refine ⟨fun keyed k member hk => ?_, fun k o hk => ?_⟩
  · simp only [drop, StrMap.get_remove] at hk
    split at hk
    · cases hk
    · exact keyed k member hk
  · simp only [SwarmState.owner, drop, StrMap.get_remove] at hk
    split at hk
    · cases hk
    · exact hk

theorem trims_detach : Trims s (s.detach sid) := trims_modify _ fun _ => ⟨rfl, rfl⟩

theorem trims_assignRole {connections : Connections} {req target role : String}
    (h : s.handleCommAssignRole connections req target role = some s') : Trims s s' := by
  unfold handleCommAssignRole at h
  split at h
  · cases h
  · split at h
    · cases h
    · split at h
      · cases h
      · simp only at h
        split at h
        · split at h
          · cases h
            exact ((trims_setRole role).trans trims_setCoordinator).trans (trims_setRole "agent")
          · cases h
            exact (trims_setRole role).trans trims_setCoordinator
        · cases h
          exact trims_setRole role

theorem trims_seed (connections : Connections) :
    Trims s (s.ensureSeederCanCoordinate connections swarm sid) := by
  unfold ensureSeederCanCoordinate
  split
  · split
    · exact ⟨id, fun _ _ => id⟩
    · exact (trims_setCoordinator.trans (trims_setRole "coordinator")).trans (trims_setRole "agent")
  · exact trims_setCoordinator.trans (trims_setRole "coordinator")

theorem owner_insertMember (member : SwarmMember) (k : String) :
    (s.insertMember member).owner k =
      if k = member.sessionId then member.reportBackToSessionId else s.owner k := by
  have hmembers : (s.insertMember member).members =
      s.members.insert member.sessionId member := by
    unfold insertMember
    split <;> rfl
  rw [SwarmState.owner, hmembers, StrMap.get_insert]
  split <;> rfl

theorem Keyed.insertMember (keyed : Keyed s) (member : SwarmMember) :
    Keyed (s.insertMember member) := by
  intro k m hk
  have hmembers : (s.insertMember member).members =
      s.members.insert member.sessionId member := by
    unfold SwarmState.insertMember
    split <;> rfl
  rw [hmembers, StrMap.get_insert] at hk
  split at hk
  · rename_i heq
    cases hk
    exact heq.symm
  · exact keyed k m hk

/-! ### Runs -/

theorem forest_insert_root (h : Forest s.owner) {member : SwarmMember}
    (hroot : member.reportBackToSessionId = none) : Forest (s.insertMember member).owner := by
  refine h.of_le fun k o hk => ?_
  rw [owner_insertMember, hroot] at hk
  split at hk
  · cases hk
  · exact hk

theorem forest_insert (h : Forest s.owner) {member : SwarmMember} {owner : String}
    (howner : member.reportBackToSessionId = some owner) (hne : member.sessionId ≠ owner)
    (hbelow : ¬ TransGen (Link s.owner) owner member.sessionId) :
    Forest (s.insertMember member).owner := by
  have hmoved : ∀ a b, a = member.sessionId → (s.insertMember member).owner a = some b →
      b = owner ∧ a ≠ owner := by
    rintro a b rfl hab
    rw [owner_insertMember, if_pos rfl, howner] at hab
    cases hab
    exact ⟨rfl, hne⟩
  refine h.redirect hmoved ?_ ?_
  · intro a b ha hab
    rwa [owner_insertMember, if_neg ha] at hab
  · rintro a rfl -
    exact hbelow

end SwarmState

open SwarmState

/-- The members that a step gives a new parent are above none of its owners. -/
def Grounded (s : SwarmState) : Event → Prop
  | .spawn sid _ _ (some owner) => ¬ TransGen (Link s.owner) owner sid
  | .remove sid swarm => s.Clear sid swarm
  | .leave sid => ∀ swarm, s.swarmId sid = some swarm → (s.drop sid).Clear sid swarm
  | .disable sid => ∀ swarm, s.swarmId sid = some swarm → (s.detach sid).Clear sid swarm
  | .enable sid _ => ∀ swarm, s.swarmId sid = some swarm → s.Clear sid swarm
  | _ => True

/-- The owners are a forest. -/
structure SpawnTree (s : SwarmState) : Prop where
  keyed : s.Keyed
  forest : Forest s.owner

theorem SpawnTree.trims (tree : SpawnTree s) (h : s.Trims s') : SpawnTree s' :=
  ⟨h.keyed tree.keyed, tree.forest.of_le h.owner⟩

theorem SpawnTree.remove (tree : SpawnTree s) (clear : s.Clear sid swarm) :
    SpawnTree (s.removeSessionFromSwarm sid swarm) := by
  refine ⟨fun k member hk => ?_, (remove_forest_iff tree.keyed tree.forest).mpr clear⟩
  obtain ⟨member', hmember', rfl⟩ := Option.map_eq_some_iff.mp hk
  have hsession := tree.keyed.vacate k member' hmember'
  split <;> exact hsession

theorem SpawnTree.step {e : Event} (tree : SpawnTree s) (h : step s e = some s')
    (grounded : Grounded s e) : SpawnTree s' := by
  cases e with
  | attach sid swarm =>
      cases h
      unfold ensureClientSwarmMember
      split
      · exact tree.trims (trims_modify _ fun _ => ⟨rfl, rfl⟩)
      · exact ⟨tree.keyed.insertMember _, forest_insert_root tree.forest rfl⟩
  | spawn sid swarm isHeadless owner =>
      simp only [Membership.step] at h
      split at h
      · rename_i hnew
        cases h
        refine ⟨tree.keyed.insertMember _, ?_⟩
        cases owner with
        | none => exact forest_insert_root tree.forest rfl
        | some owner =>
            refine forest_insert tree.forest rfl (fun heq => ?_) grounded
            obtain ⟨hnone, hsome⟩ := hnew
            rw [Option.all_some, ← heq, ← Option.not_isNone, hnone] at hsome
            cases hsome
      · cases h
  | remove sid swarm =>
      cases h
      exact tree.remove grounded
  | leave sid =>
      cases h
      unfold SwarmState.leave
      split
      · exact tree.trims trims_drop
      · rename_i swarm hswarm
        exact (tree.trims trims_drop).remove (grounded swarm hswarm)
  | disable sid =>
      cases h
      unfold SwarmState.disable
      split
      · exact tree.trims trims_detach
      · rename_i swarm hswarm
        exact (tree.trims trims_detach).remove (grounded swarm hswarm)
  | enable sid newSwarm =>
      cases h
      have hold : SpawnTree (s.leaveOld sid) := by
        unfold leaveOld
        split
        · exact tree
        · rename_i swarm hswarm
          exact tree.remove (grounded swarm hswarm)
      unfold SwarmState.enable
      cases newSwarm with
      | none => exact hold
      | some newId =>
          have henter : SpawnTree ((s.leaveOld sid).enter sid newId) :=
            hold.trims (trims_of_members rfl)
          exact henter.trims (trims_modify _ fun _ => ⟨rfl, rfl⟩)
  | assignRole connections req target role => exact tree.trims (trims_assignRole h)
  | seed connections sid =>
      obtain ⟨swarm, -, rfl⟩ := Option.map_eq_some_iff.mp h
      exact tree.trims (trims_seed connections)

variable {ts : List (Transition SwarmState Event)}

/-- **The spawn tree is a forest**, in every state of a run whose steps are grounded: following
the owners from a member never returns to it. -/
theorem spawn_tree_forest (run : Run step .empty ts s)
    (grounded : ∀ t ∈ ts, Grounded t.before t.event) (sid : String) :
    ¬ TransGen (Link s.owner) sid sid := by
  have htree : SpawnTree s := by
    refine run.preserves (P := SpawnTree) (fun t ht hs tree => tree.step hs (grounded t ht)) ⟨?_, ?_⟩
    · rintro _ _ ⟨⟩
    · intro a ha
      obtain ⟨b, hb, -⟩ := TransGen.head'_iff.mp ha
      cases hb
  exact htree.forest sid

/-- A session, the worker it spawned, and the worker of that one; the middle one leaves. -/
theorem spawn_tree_forest_orphan : ∃ ts s, Run step .empty ts s ∧ s.owner "c" = some "a" ∧
    ¬ TransGen (Link s.owner) "c" "c" := by
  have hexec : (exec step .empty [.attach "a" (some "s"), .spawn "b" (some "s") true (some "a"),
      .spawn "c" (some "s") true (some "b"), .remove "b" "s"]).map (fun r =>
        (r.2.owner "c", r.1.map fun t => (t.before.owner "a", t.before.owner "b",
          t.before.swarmId "a"))) =
      some (some "a", [(none, none, none), (none, none, some "s"), (none, some "a", some "s"),
        (none, some "a", some "s")]) := by decide +kernel
  obtain ⟨ts, s, run, hes, hobs⟩ := Run.of_observed hexec
  obtain ⟨howner, hts⟩ := Prod.mk.inj hobs
  refine ⟨ts, s, run, howner, spawn_tree_forest run ?_ "c"⟩
  obtain _ | ⟨t₁, _ | ⟨t₂, _ | ⟨t₃, _ | ⟨t₄, _ | _⟩⟩⟩⟩ := ts <;> simp at hes hts
  obtain ⟨h₁, h₂, h₃, h₄⟩ := hes
  obtain ⟨-, ⟨ha₂, hb₂, -⟩, ⟨ha₃, hb₃, -⟩, ha₄, hb₄, hs₄⟩ := hts
  have hroot : ∀ {s : SwarmState} {k : String}, s.owner "a" = none →
      ¬ TransGen (Link s.owner) "a" k := by
    intro s k ha hk
    obtain ⟨b, hb, -⟩ := TransGen.head'_iff.mp hk
    rw [Link, ha] at hb
    cases hb
  intro t ht
  simp only [List.mem_cons, List.not_mem_nil, or_false] at ht
  rcases ht with rfl | rfl | rfl | rfl
  · rw [h₁]
    trivial
  · rw [h₂]
    exact hroot ha₂
  · -- the owner of the new session is below the root only
    rw [h₃]
    intro hcycle
    obtain ⟨b, hb, hbc⟩ := TransGen.head'_iff.mp hcycle
    rw [Link, hb₃] at hb
    cases hb
    rcases reflTransGen_iff_eq_or_transGen.mp hbc with heq | habove
    · exact absurd heq (by simp)
    · exact hroot ha₃ habove
  · rw [h₄]
    exact fun hno => absurd ⟨"a", hb₄, by simp, hs₄⟩ hno

/-- The events of a run where the root leaves. -/
def rootLeaves : List Event :=
  [.attach "a" (some "s"), .seed ⟨fun _ => false, fun _ => true⟩ "a",
    .spawn "b" (some "s") true (some "a"), .spawn "c" (some "s") false (some "b"),
    .remove "a" "s"]

/-- The coordinator leaves: its grandchild is elected, and is the new owner of its own owner. -/
theorem coordinator_below_orphan : ∃ ts s, Run step .empty ts s ∧ s.owner "b" = some "c" ∧
    s.owner "c" = some "b" ∧ TransGen (Link s.owner) "b" "b" := by
  have hexec : (exec step .empty rootLeaves).map (fun r => (r.2.owner "b", r.2.owner "c")) =
      some (some "c", some "b") := by decide +kernel
  obtain ⟨ts, s, run, -, hobs⟩ := Run.of_observed hexec
  obtain ⟨hb, hc⟩ := Prod.mk.inj hobs
  exact ⟨ts, s, run, hb, hc, .tail (.single hb) hc⟩

end Jcode.Swarm.Membership
