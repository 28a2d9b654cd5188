import Jcode.Swarm.SpawnTree

/-!
# Swarm — one coordinator

The coordinator of a swarm is written in `swarm_coordinators` and in the role of a member, and the
two agree as long as roles are given soundly.  Two role assignments break the agreement: a session
that promotes itself over a stale coordinator leaves the role of that one, where
`ensure_seeder_can_coordinate` takes it away; a coordinator that is given another role keeps its
entry.

* `assignRole_coordinated_iff`: when a role assignment keeps the agreement.
* `coordinators_agree`: the agreement, in every state of a run whose steps are sound.
* `promoted_over_stale`: a run with two coordinators.
-/

namespace Jcode.Swarm.Membership
open Rust Runs

variable {s s' : SwarmState} {sid swarm : String}

namespace SwarmState

def role (s : SwarmState) (sessionId : String) : Option String :=
  (s.members.get sessionId).map SwarmMember.role

/-- The member of a swarm whose role is `coordinator`. -/
def Coordinates (s : SwarmState) (swarm c : String) : Prop :=
  s.swarmId c = some swarm ∧ s.role c = some "coordinator"

/-- The two copies agree, and a swarm lists its members only. -/
structure Coordinated (s : SwarmState) : Prop where
  agree : ∀ swarm c, s.coordinators.get swarm = some c ↔ s.Coordinates swarm c
  listed : ∀ swarm ids, s.swarmsById.get swarm = some ids → ∀ c ∈ ids, s.swarmId c = some swarm

theorem role_modify (f : SwarmMember → SwarmMember)
    (hf : ∀ member, (f member).role = member.role) :
    ({ s with members := s.members.modify sid f } : SwarmState).role = s.role := by
  funext k
  by_cases hk : k = sid
  · simp [role, hk, Function.comp_def, hf]
  · simp [role, StrMap.get_modify_of_ne _ hk]

theorem role_setRole (r k : String) : (s.setRole sid r).role k =
    if k = sid then (s.role sid).map fun _ => r else s.role k := by
  by_cases hk : k = sid
  · simp only [role, setRole, hk, StrMap.get_modify_self, Option.map_map, if_true]
    rfl
  · simp [role, setRole, StrMap.get_modify_of_ne _ hk, hk]

theorem role_of_swarmId {k : String} (h : s.swarmId k = some swarm) :
    ∃ r, s.role k = some r := by
  obtain ⟨member, hmember, -⟩ := Option.bind_eq_some_iff.mp h
  exact ⟨member.role, by simp [role, hmember]⟩

/-! ### A session leaves its swarm -/

/-- The copies agree, except for a session that is leaving its swarm. -/
structure Leaving (s : SwarmState) (sid swarm : String) : Prop where
  agree : ∀ swarm' c, c ≠ sid → (s.coordinators.get swarm' = some c ↔ s.Coordinates swarm' c)
  own : ∀ swarm', s.coordinators.get swarm' = some sid → swarm' = swarm
  listed : ∀ swarm' ids, s.swarmsById.get swarm' = some ids → ∀ c ∈ ids,
    s.swarmId c = some swarm' ∨ c = sid ∧ swarm' = swarm

theorem subset_of_quit {swarm' : String} {ids : List String}
    (h : (s.quit sid swarm).swarmsById.get swarm' = some ids) :
    ∃ ids', s.swarmsById.get swarm' = some ids' ∧ ∀ c ∈ ids, c ∈ ids' := by
  by_cases heq : swarm' = swarm
  · subst heq
    unfold quit at h
    split at h
    · exact ⟨ids, h, fun _ => id⟩
    · rename_i ids' hids'
      refine ⟨ids', hids', fun c hc => ?_⟩
      simp only at h
      split at h
      · simp [StrMap.get_remove] at h
      · rw [StrMap.get_insert_self] at h
        cases h
        exact List.mem_of_mem_filter hc
  · refine ⟨ids, ?_, fun _ => id⟩
    unfold quit at h
    split at h
    · exact h
    · simp only at h
      split at h
      · rwa [StrMap.get_remove, if_neg heq] at h
      · rwa [StrMap.get_insert, if_neg heq] at h

theorem Leaving.quit (h : Leaving s sid swarm) :
    ∀ swarm' ids, (s.quit sid swarm).swarmsById.get swarm' = some ids → ∀ c ∈ ids,
      s.swarmId c = some swarm' := by
  intro swarm' ids hids c hc
  obtain ⟨ids', hids', hsub⟩ := subset_of_quit hids
  rcases h.listed swarm' ids' hids' c (hsub c hc) with hswarm | ⟨rfl, rfl⟩
  · exact hswarm
  · exact absurd hc (not_mem_quit hids)

/-- The coordinators after the departure. -/
theorem coordinators_vacate (swarm' : String) : (s.vacate sid swarm).coordinators.get swarm' =
    if swarm' = swarm then s.successor sid swarm else s.coordinators.get swarm' := by
  split
  · rename_i heq
    rw [heq, vacate_coordinators]
  · rename_i hne
    simp only [vacate, reelect, setRole, quit_coordinators]
    split
    · split <;> simp [StrMap.get_remove, setCoordinator, StrMap.get_insert, hne]
    · simp

/-- The roles after the departure. -/
theorem role_vacate {k : String} (hk : k ≠ sid) : (s.vacate sid swarm).role k =
    if s.coordinators.get swarm = some sid ∧ s.successor sid swarm = some k then
      (s.role k).map fun _ => "coordinator"
    else s.role k := by
  have hquit : (s.quit sid swarm).role = s.role := by
    funext k
    simp [role]
  unfold vacate reelect
  rw [role_setRole, if_neg hk, quit_coordinators]
  by_cases hcoordinator : s.coordinators.get swarm = some sid
  · simp only [hcoordinator, if_true, true_and, successor]
    split
    · rename_i hnone
      rw [hnone, if_neg (by simp)]
      exact congrFun hquit k
    · rename_i newId hnew
      rw [hnew, role_setRole]
      by_cases heq : k = newId
      · rw [if_pos heq, if_pos (congrArg some heq.symm), heq]
        exact congrArg _ (congrFun hquit newId)
      · rw [if_neg heq, if_neg fun hsome => heq (Option.some.inj hsome).symm]
        exact congrFun hquit k
  · rw [if_neg hcoordinator, if_neg fun hc => hcoordinator hc.1]
    exact congrFun hquit k

theorem role_vacate_self : (s.vacate sid swarm).role sid ≠ some "coordinator" := by
  unfold vacate
  rw [role_setRole, if_pos rfl]
  cases ((s.quit sid swarm).reelect sid swarm).role sid <;> simp

@[simp] theorem swarmId_reparent (heir : Option String) :
    (s.reparent heir sid swarm).swarmId = s.swarmId := by
  funext k
  cases hk : s.members.get k with
  | none => simp [swarmId, reparent, hk]
  | some member =>
      simp only [swarmId, reparent, StrMap.get_mapValues, hk, Option.map_some, Option.bind_some]
      split <;> rfl

@[simp] theorem role_reparent (heir : Option String) :
    (s.reparent heir sid swarm).role = s.role := by
  funext k
  cases hk : s.members.get k with
  | none => simp [role, reparent, hk]
  | some member =>
      simp only [role, reparent, StrMap.get_mapValues, hk, Option.map_some]
      split <;> rfl

theorem vacate_swarmsById :
    (s.vacate sid swarm).swarmsById = (s.quit sid swarm).swarmsById := by
  unfold vacate reelect
  split
  · split <;> rfl
  · rfl

theorem Leaving.successor_mem (h : Leaving s sid swarm)
    (hcoordinator : s.coordinators.get swarm = some sid) {c : String}
    (hc : s.successor sid swarm = some c) : s.swarmId c = some swarm := by
  rw [successor, if_pos hcoordinator] at hc
  obtain ⟨⟨ids, hids, hmem⟩, -⟩ := mem_of_electable hc
  exact h.quit swarm ids hids c hmem

/-- The coordinator leaves, and the one that is elected has both copies. -/
theorem Leaving.agree_elected (h : Leaving s sid swarm)
    (hcoordinator : s.coordinators.get swarm = some sid) {c : String} (hself : c ≠ sid)
    (swarm' : String) :
    (if swarm' = swarm then s.successor sid swarm else s.coordinators.get swarm') = some c ↔
      (s.vacate sid swarm).Coordinates swarm' c := by
  have hagree := h.agree swarm' c hself
  rw [Coordinates, swarmId_vacate, role_vacate hself]
  by_cases hnew : s.successor sid swarm = some c
  · -- the one elected is a member of this swarm only
    have hswarm := h.successor_mem hcoordinator hnew
    obtain ⟨r, hr⟩ := role_of_swarmId hswarm
    rw [if_pos (⟨hcoordinator, hnew⟩ : _ ∧ _), hr, hnew]
    refine ⟨fun hc => ⟨?_, rfl⟩, fun hc => ?_⟩
    · split at hc
      · rename_i heq
        rw [heq, hswarm]
      · exact (hagree.mp hc).1
    · rw [hswarm] at hc
      rw [if_pos (Option.some.inj hc.1).symm]
  · have hrole : (if s.coordinators.get swarm = some sid ∧ s.successor sid swarm = some c then
        (s.role c).map fun _ => "coordinator" else s.role c) = s.role c :=
      if_neg fun hboth => hnew hboth.2
    rw [hrole]
    split
    · rename_i heq
      refine iff_of_false hnew fun hc => ?_
      rw [heq] at hagree hc
      rw [hagree.mpr hc] at hcoordinator
      exact hself (Option.some.inj hcoordinator)
    · exact hagree

/-- Another member leaves. -/
theorem Leaving.agree_unelected (h : Leaving s sid swarm)
    (hcoordinator : s.coordinators.get swarm ≠ some sid) {c : String} (hself : c ≠ sid)
    (swarm' : String) :
    (if swarm' = swarm then s.successor sid swarm else s.coordinators.get swarm') = some c ↔
      (s.vacate sid swarm).Coordinates swarm' c := by
  have hsame : (if swarm' = swarm then s.successor sid swarm else s.coordinators.get swarm') =
      s.coordinators.get swarm' := by
    split
    · rename_i heq
      rw [heq, successor, if_neg hcoordinator]
    · rfl
  rw [hsame, Coordinates, swarmId_vacate, role_vacate hself,
    if_neg fun hboth => hcoordinator hboth.1]
  exact h.agree swarm' c hself

/-- **The departure of a session restores the agreement.** -/
theorem Leaving.remove (h : Leaving s sid swarm) :
    Coordinated (s.removeSessionFromSwarm sid swarm) := by
  refine ⟨fun swarm' c => ?_, fun swarm' ids hids c hc => ?_⟩
  · change (s.vacate sid swarm).coordinators.get swarm' = some c ↔ _
    rw [Coordinates, removeSessionFromSwarm, swarmId_reparent, role_reparent,
      coordinators_vacate]
    by_cases hself : c = sid
    · -- the session that leaves is no coordinator
      subst hself
      refine iff_of_false (fun hc => ?_) fun hc => role_vacate_self hc.2
      split at hc
      · exact successor_ne hc rfl
      · rename_i hne
        exact hne (h.own swarm' hc)
    · by_cases hcoordinator : s.coordinators.get swarm = some sid
      · exact h.agree_elected hcoordinator hself swarm'
      · exact h.agree_unelected hcoordinator hself swarm'
  · rw [removeSessionFromSwarm, swarmId_reparent, swarmId_vacate]
    exact h.quit swarm' ids (vacate_swarmsById ▸ hids) c hc

/-- A session is removed from the swarm it coordinates, if any. -/
theorem Coordinated.leaving (h : Coordinated s)
    (hown : ∀ swarm', s.coordinators.get swarm' = some sid → swarm' = swarm) :
    Leaving s sid swarm :=
  ⟨fun swarm' c _ => h.agree swarm' c, hown,
    fun swarm' ids hids c hc => .inl (h.listed swarm' ids hids c hc)⟩

/-- A session that is no longer a member is removed from its old swarm. -/
theorem Coordinated.leaving_of_forgotten (h : Coordinated s) (hswarm : s.swarmId sid = some swarm)
    (hothers : ∀ k, k ≠ sid → s'.swarmId k = s.swarmId k ∧ s'.role k = s.role k)
    (hcoordinators : s'.coordinators = s.coordinators) (hswarms : s'.swarmsById = s.swarmsById) :
    Leaving s' sid swarm := by
  refine ⟨fun swarm' c hc => ?_, fun swarm' hc => ?_, fun swarm' ids hids c hc => ?_⟩
  · rw [Coordinates, (hothers c hc).1, (hothers c hc).2, hcoordinators]
    exact h.agree swarm' c
  · rw [hcoordinators] at hc
    have hsid := ((h.agree swarm' sid).mp hc).1
    rw [hswarm] at hsid
    exact (Option.some.inj hsid).symm
  · rw [hswarms] at hids
    have hc' := h.listed swarm' ids hids c hc
    by_cases hself : c = sid
    · subst hself
      rw [hswarm] at hc'
      exact .inr ⟨rfl, (Option.some.inj hc').symm⟩
    · rw [(hothers c hself).1]
      exact .inl hc'

/-! ### A session joins a swarm -/

/-- A session of no swarm is neither listed nor a coordinator. -/
structure Unplaced (s : SwarmState) (sid : String) : Prop where
  listed : ∀ swarm ids, s.swarmsById.get swarm = some ids → sid ∉ ids
  coordinator : ∀ swarm, s.coordinators.get swarm ≠ some sid

theorem Coordinated.unplaced (h : Coordinated s) (hswarm : s.swarmId sid = none) :
    Unplaced s sid := by
  refine ⟨fun swarm ids hids hmem => ?_, fun swarm hc => ?_⟩
  · have hsid := h.listed swarm ids hids sid hmem
    rw [hswarm] at hsid
    cases hsid
  · have hsid := ((h.agree swarm sid).mp hc).1
    rw [hswarm] at hsid
    cases hsid

theorem Coordinated.join (h : Coordinated s) (unplaced : Unplaced s sid)
    (hothers : ∀ k, k ≠ sid → s'.swarmId k = s.swarmId k ∧ s'.role k = s.role k)
    (hrole : s'.role sid ≠ some "coordinator") (hcoordinators : s'.coordinators = s.coordinators)
    (hlisted : ∀ swarm ids, s'.swarmsById.get swarm = some ids → ∀ c ∈ ids,
      c = sid ∧ s'.swarmId sid = some swarm ∨ ∃ ids', s.swarmsById.get swarm = some ids' ∧ c ∈ ids') :
    Coordinated s' := by
  refine ⟨fun swarm c => ?_, fun swarm ids hids c hc => ?_⟩
  · rw [hcoordinators]
    by_cases hself : c = sid
    · subst hself
      exact iff_of_false (unplaced.coordinator swarm) fun hc => hrole hc.2
    · rw [Coordinates, (hothers c hself).1, (hothers c hself).2]
      exact h.agree swarm c
  · rcases hlisted swarm ids hids c hc with ⟨rfl, hswarm⟩ | ⟨ids', hids', hmem⟩
    · exact hswarm
    · have hself : c ≠ sid := by
        rintro rfl
        exact unplaced.listed swarm ids' hids' hmem
      rw [(hothers c hself).1]
      exact h.listed swarm ids' hids' c hmem

theorem Coordinated.of_same (h : Coordinated s) (hswarm : s'.swarmId = s.swarmId)
    (hrole : s'.role = s.role) (hcoordinators : s'.coordinators = s.coordinators)
    (hswarms : s'.swarmsById = s.swarmsById) : Coordinated s' := by
  refine ⟨fun swarm c => ?_, fun swarm ids hids => ?_⟩
  · rw [Coordinates, hswarm, hrole, hcoordinators]
    exact h.agree swarm c
  · rw [hswarm]
    exact h.listed swarm ids (hswarms ▸ hids)

/-! ### Roles are given -/

/-- The role of coordinator passes from a member of the swarm to another session. -/
theorem coordinated_transfer_iff {req target : String} (h : Coordinated s)
    (hreq : s.swarmId req = some swarm)
    (hfrom : s.coordinators.get swarm = some req ∨ target = req)
    (hcoordinators : s'.coordinators = s.coordinators.insert swarm target)
    (hrole : ∀ k, s'.role k = if k = target then some "coordinator"
      else if k = req then some "agent" else s.role k)
    (hswarm : s'.swarmId = s.swarmId) (hswarms : s'.swarmsById = s.swarmsById) :
    Coordinated s' ↔ s.swarmId target = some swarm ∧
      ∀ c, s.coordinators.get swarm = some c → c = req := by
  constructor
  · intro h'
    refine ⟨?_, fun c hc => ?_⟩
    · have htarget := (h'.agree swarm target).mp (by rw [hcoordinators, StrMap.get_insert_self])
      rw [← hswarm]
      exact htarget.1
    · by_contra hne
      -- the old coordinator keeps its role
      have htarget : target = req := hfrom.resolve_left fun heq => by
        rw [hc] at heq
        exact hne (Option.some.inj heq)
      have hold := (h.agree swarm c).mp hc
      have hkept : s'.Coordinates swarm c := by
        rw [Coordinates, hswarm, hrole, if_neg (htarget ▸ hne), if_neg hne]
        exact hold
      have hnew := (h'.agree swarm c).mpr hkept
      rw [hcoordinators, StrMap.get_insert_self, htarget] at hnew
      exact hne (Option.some.inj hnew).symm
  · rintro ⟨htarget, honly⟩
    refine ⟨fun swarm' c => ?_, fun swarm' ids hids => ?_⟩
    · have hagree := h.agree swarm' c
      rw [hcoordinators, StrMap.get_insert, Coordinates, hswarm, hrole]
      by_cases hsw : swarm' = swarm
      · subst hsw
        rw [if_pos rfl, Option.some.injEq]
        refine ⟨fun hc => ?_, fun hc => ?_⟩
        · rw [← hc, if_pos rfl]
          exact ⟨htarget, rfl⟩
        · by_contra hne
          rw [if_neg fun heq => hne heq.symm] at hc
          split at hc
          · simp at hc
          · rename_i hcreq
            exact hcreq (honly c (hagree.mpr hc))
      · rw [if_neg hsw]
        by_cases hplaced : s.swarmId c = some swarm
        · -- a member of the swarm coordinates no other
          have hne : s.swarmId c ≠ some swarm' := fun hc =>
            hsw (Option.some.inj (hc.symm.trans hplaced))
          exact iff_of_false (fun hc => hne (hagree.mp hc).1) fun hc => hne hc.1
        · have hct : c ≠ target := by
            rintro rfl
            exact hplaced htarget
          have hcr : c ≠ req := by
            rintro rfl
            exact hplaced hreq
          rw [if_neg hct, if_neg hcr]
          exact hagree
    · rw [hswarm]
      exact h.listed swarm' ids (hswarms ▸ hids)

/-- Another role is given. -/
theorem coordinated_setRole_iff {target r : String} (h : Coordinated s)
    (hr : r ≠ "coordinator") :
    Coordinated (s.setRole target r) ↔ ∀ swarm, s.coordinators.get swarm ≠ some target := by
  have hself : (s.setRole target r).role target ≠ some "coordinator" := by
    rw [role_setRole, if_pos rfl]
    cases s.role target <;> simp [hr]
  constructor
  · intro h' swarm hc
    exact hself ((h'.agree swarm target).mp hc).2
  · refine fun hno => ⟨fun swarm c => ?_, fun swarm ids hids => ?_⟩
    · by_cases hc : c = target
      · subst hc
        exact iff_of_false (hno swarm) fun hc => hself hc.2
      · rw [Coordinates, swarmId_setRole, role_setRole, if_neg hc]
        exact h.agree swarm c
    · rw [swarmId_setRole]
      exact h.listed swarm ids hids

/-- The role of coordinator is given to a member of the requester's swarm that has no other
coordinator than the requester; another role is not given to a coordinator. -/
def SoundRole (s : SwarmState) (req target role : String) : Prop :=
  if role = "coordinator" then
    s.swarmId target = s.swarmId req ∧ ∀ swarm c, s.swarmId req = some swarm →
      s.coordinators.get swarm = some c → c = req
  else ∀ swarm, s.coordinators.get swarm ≠ some target

@[simp] theorem swarmId_setCoordinator : (s.setCoordinator swarm sid).swarmId = s.swarmId := rfl

@[simp] theorem role_setCoordinator : (s.setCoordinator swarm sid).role = s.role := rfl

/-- The roles after `a` and then `b` are written, with the coordinator between. -/
theorem role_passed {req target k : String} (hreq : (s.role req).isSome)
    (htarget : (s.role target).isSome) (hne : req ≠ target) :
    ((s.setRole target "coordinator").setRole req "agent").role k =
      if k = target then some "coordinator" else if k = req then some "agent" else s.role k := by
  obtain ⟨r, hr⟩ := Option.isSome_iff_exists.mp hreq
  obtain ⟨r', hr'⟩ := Option.isSome_iff_exists.mp htarget
  rw [role_setRole, role_setRole, role_setRole, if_neg hne, hr, hr']
  by_cases hk : k = target
  · simp [hk, hne.symm]
  · by_cases hk' : k = req <;> simp [hk, hk', hne]

/-- What an accepted assignment does. -/
theorem assignRole_cases {connections : Connections} {req target r : String}
    (accepted : s.handleCommAssignRole connections req target r = some s') :
    ∃ swarm, s.swarmId req = some swarm ∧
      (r = "coordinator" ∧ (s.coordinators.get swarm = some req ∨ target = req) ∧
          s'.coordinators = s.coordinators.insert swarm target ∧
          (∀ k, s'.role k = if k = target then some "coordinator"
            else if k = req then some "agent" else s.role k) ∧
          s'.swarmId = s.swarmId ∧ s'.swarmsById = s.swarmsById ∨
        r ≠ "coordinator" ∧ s' = s.setRole target r) := by
  unfold handleCommAssignRole at accepted
  split at accepted
  · cases accepted
  · rename_i swarm hreq
    refine ⟨swarm, hreq, ?_⟩
    split at accepted
    · cases accepted
    · rename_i hcan
      split at accepted
      · cases accepted
      · rename_i hmember
        have htarget : (s.role target).isSome := by
          unfold role
          rw [Option.isSome_map, ← Option.not_isNone, Bool.eq_false_of_not_eq_true hmember]
          rfl
        obtain ⟨r', hr'⟩ := role_of_swarmId hreq
        have hreq' : (s.role req).isSome := hr' ▸ rfl
        simp only at accepted
        split at accepted
        · rename_i hr
          subst hr
          refine .inl ⟨rfl, ?_, ?_⟩
          · by_contra hno
            simp only [not_or] at hno
            simp [canAssignRole, hno.1, hno.2] at hcan
          · split at accepted
            · rename_i hne
              cases accepted
              exact ⟨rfl, fun k => role_passed hreq' htarget hne, by simp, rfl⟩
            · rename_i heq
              cases accepted
              refine ⟨rfl, fun k => ?_, by simp, rfl⟩
              rw [role_setCoordinator, role_setRole]
              split
              · exact Option.map_eq_some_iff.mpr
                  ((Option.isSome_iff_exists.mp htarget).imp fun _ h => ⟨h, rfl⟩)
              · rename_i hk
                rw [if_neg fun hkr => hk (hkr.trans (not_not.mp heq))]
        · rename_i hr
          cases accepted
          exact .inr ⟨hr, rfl⟩

/-- **When a role assignment keeps the agreement.** -/
theorem assignRole_coordinated_iff {connections : Connections} {req target r : String}
    (h : Coordinated s) (accepted : s.handleCommAssignRole connections req target r = some s') :
    Coordinated s' ↔ s.SoundRole req target r := by
  obtain ⟨swarm, hreq, ⟨rfl, hfrom, hcoordinators, hrole, hswarm, hswarms⟩ | ⟨hr, rfl⟩⟩ :=
    assignRole_cases accepted
  · rw [coordinated_transfer_iff h hreq hfrom hcoordinators hrole hswarm hswarms, SoundRole,
      if_pos rfl, hreq]
    refine and_congr_right fun _ => ⟨fun honly swarm' c hswarm' => ?_, fun honly c => honly swarm c rfl⟩
    cases hswarm'
    exact honly c
  · rw [SoundRole, if_neg hr]
    exact coordinated_setRole_iff h hr

theorem Coordinated.seed (h : Coordinated s) (connections : Connections)
    (hswarm : s.swarmId sid = some swarm) :
    Coordinated (s.ensureSeederCanCoordinate connections swarm sid) := by
  obtain ⟨r, hr⟩ := role_of_swarmId hswarm
  have hsid : (s.role sid).isSome := hr ▸ rfl
  unfold ensureSeederCanCoordinate
  split
  · rename_i prior hprior
    split
    · exact h
    · rename_i hstale
      -- the role passes from the stale coordinator
      have hne : prior ≠ sid := fun heq => hstale (.inl heq)
      obtain ⟨hpriorSwarm, hpriorRole⟩ := (h.agree swarm prior).mp hprior
      have hcoordinators : (((s.setCoordinator swarm sid).setRole sid "coordinator").setRole prior
          "agent").coordinators = s.coordinators.insert swarm sid := rfl
      refine (coordinated_transfer_iff h hpriorSwarm (.inl hprior) hcoordinators (fun k => ?_)
        (by simp) rfl).mpr ⟨hswarm, fun c hc => ?_⟩
      · have hset : (((s.setCoordinator swarm sid).setRole sid "coordinator").setRole prior
            "agent").role = ((s.setRole sid "coordinator").setRole prior "agent").role := rfl
        rw [hset]
        exact role_passed (hpriorRole ▸ rfl) hsid hne
      · rw [hprior] at hc
        exact (Option.some.inj hc).symm
  · rename_i hnone
    have hcoordinators : ((s.setCoordinator swarm sid).setRole sid "coordinator").coordinators =
        s.coordinators.insert swarm sid := rfl
    refine (coordinated_transfer_iff h hswarm (.inr rfl) hcoordinators (fun k => ?_) (by simp)
      rfl).mpr ⟨hswarm, fun c hc => ?_⟩
    · rw [role_setRole, role_setCoordinator, hr]
      by_cases hk : k = sid <;> simp [hk]
    · rw [hnone] at hc
      cases hc

theorem mem_of_enter {swarm' : String} {ids : List String} {c : String}
    (h : (s.enter sid swarm).swarmsById.get swarm' = some ids) (hc : c ∈ ids) :
    c = sid ∧ swarm' = swarm ∨ ∃ ids', s.swarmsById.get swarm' = some ids' ∧ c ∈ ids' := by
  simp only [enter, StrMap.get_insert] at h
  split at h
  · rename_i heq
    cases h
    rcases List.mem_insert_iff.mp hc with rfl | hc
    · exact .inl ⟨rfl, heq⟩
    · cases hids : s.swarmsById.get swarm with
      | none => simp [hids] at hc
      | some ids' => exact .inr ⟨ids', heq ▸ hids, by simpa [hids] using hc⟩
  · exact .inr ⟨ids, h, hc⟩

theorem swarmId_of_get_eq {k : String} (h : s'.members.get k = s.members.get k) :
    s'.swarmId k = s.swarmId k ∧ s'.role k = s.role k := by
  simp [swarmId, role, h]

theorem Coordinated.insertMember (h : Coordinated s) {member : SwarmMember}
    (hnew : s.members.get member.sessionId = none) (hrole : member.role ≠ "coordinator") :
    Coordinated (s.insertMember member) := by
  have hmembers : (s.insertMember member).members =
      s.members.insert member.sessionId member := by
    unfold SwarmState.insertMember
    split <;> rfl
  have hcoordinators : (s.insertMember member).coordinators = s.coordinators := by
    unfold SwarmState.insertMember
    split <;> rfl
  have hswarm : (s.insertMember member).swarmId member.sessionId = member.swarmId := by
    simp [swarmId, hmembers]
  have hnone : s.swarmId member.sessionId = none := by simp [swarmId, hnew]
  refine h.join (h.unplaced hnone) (fun k hk => swarmId_of_get_eq ?_) ?_ hcoordinators
    fun swarm ids hids c hc => ?_
  · rw [hmembers, StrMap.get_insert, if_neg hk]
  · simpa [role, hmembers] using hrole
  · rw [hswarm]
    unfold SwarmState.insertMember at hids
    split at hids
    · rename_i swarm' hmember
      rcases mem_of_enter hids hc with ⟨rfl, rfl⟩ | hold
      · exact .inl ⟨rfl, hmember⟩
      · exact .inr hold
    · exact .inr ⟨ids, hids, hc⟩

theorem Coordinated.leave (h : Coordinated s) : Coordinated (s.leave sid) := by
  have hothers : ∀ k, k ≠ sid →
      (s.drop sid).swarmId k = s.swarmId k ∧ (s.drop sid).role k = s.role k :=
    fun k hk => swarmId_of_get_eq (by simp [drop, StrMap.get_remove, hk])
  unfold SwarmState.leave
  split
  · rename_i hnone
    have hgone : (s.drop sid).members.get sid = none := by simp [drop, StrMap.get_remove]
    exact h.join (h.unplaced hnone) hothers (by simp [role, hgone]) rfl
      fun swarm ids hids c hc => .inr ⟨ids, hids, hc⟩
  · rename_i swarm hswarm
    exact (h.leaving_of_forgotten hswarm hothers rfl rfl).remove

theorem Coordinated.disable (h : Coordinated s) : Coordinated (s.disable sid) := by
  have hothers : ∀ k, k ≠ sid →
      (s.detach sid).swarmId k = s.swarmId k ∧ (s.detach sid).role k = s.role k :=
    fun k hk => swarmId_of_get_eq (StrMap.get_modify_of_ne _ hk)
  unfold SwarmState.disable
  split
  · rename_i hnone
    refine h.join (h.unplaced hnone) hothers ?_ rfl fun swarm ids hids c hc => .inr ⟨ids, hids, hc⟩
    cases hmember : s.members.get sid <;> simp [role, detach, hmember]
  · rename_i swarm hswarm
    exact (h.leaving_of_forgotten hswarm hothers rfl rfl).remove

theorem Coordinated.leaveOld (h : Coordinated s) :
    Coordinated (s.leaveOld sid) ∧ Unplaced (s.leaveOld sid) sid := by
  unfold SwarmState.leaveOld
  split
  · rename_i hnone
    exact ⟨h, h.unplaced hnone⟩
  · rename_i swarm hswarm
    have hown : ∀ swarm', s.coordinators.get swarm' = some sid → swarm' = swarm := by
      intro swarm' hc
      have hsid := ((h.agree swarm' sid).mp hc).1
      rw [hswarm] at hsid
      exact (Option.some.inj hsid).symm
    have hremoved := (h.leaving hown).remove
    refine ⟨hremoved, fun swarm' ids hids hmem => ?_, fun swarm' hc => ?_⟩
    · -- listed in its old swarm only, which it has left
      have hquit : (s.quit sid swarm).swarmsById.get swarm' = some ids := vacate_swarmsById ▸ hids
      have hsid := hremoved.listed swarm' ids hids sid hmem
      rw [removeSessionFromSwarm, swarmId_reparent, swarmId_vacate, hswarm] at hsid
      cases hsid
      exact not_mem_quit hquit hmem
    · have hrole := ((hremoved.agree swarm' sid).mp hc).2
      rw [removeSessionFromSwarm, role_reparent] at hrole
      exact role_vacate_self hrole

theorem Coordinated.enable (h : Coordinated s) (hmember : (s.members.get sid).isSome)
    (newSwarm : Option String) : Coordinated (s.enable sid newSwarm) := by
  obtain ⟨hold, unplaced⟩ : Coordinated (s.leaveOld sid) ∧ Unplaced (s.leaveOld sid) sid :=
    h.leaveOld
  unfold SwarmState.enable
  cases newSwarm with
  | none => exact hold
  | some newId =>
      -- the session is still a member
      have hpresent : ((s.leaveOld sid).members.get sid).isSome := by
        unfold SwarmState.leaveOld
        split
        · exact hmember
        · rename_i swarm hswarm
          have hkept : (s.removeSessionFromSwarm sid swarm).swarmId sid = some swarm := by
            rw [removeSessionFromSwarm, swarmId_reparent, swarmId_vacate, hswarm]
          obtain ⟨member, hget, -⟩ := Option.bind_eq_some_iff.mp hkept
          exact hget ▸ rfl
      obtain ⟨member, hget⟩ := Option.isSome_iff_exists.mp hpresent
      refine hold.join unplaced (fun k hk => swarmId_of_get_eq (StrMap.get_modify_of_ne _ hk)) ?_ rfl
        fun swarm ids hids c hc => ?_
      · simp [role, enter, hget]
      · rcases mem_of_enter hids hc with ⟨rfl, rfl⟩ | hlisted
        · exact .inl ⟨rfl, by simp [swarmId, enter, hget]⟩
        · exact .inr hlisted

end SwarmState

open SwarmState

/-- A step that keeps the two copies of each coordinator in agreement. -/
def Sound (s : SwarmState) : Event → Prop
  | .remove sid swarm => ∀ swarm', s.coordinators.get swarm' = some sid → swarm' = swarm
  | .enable sid _ => (s.members.get sid).isSome
  | .assignRole _ req target role => s.SoundRole req target role
  | _ => True

theorem SwarmState.Coordinated.step {e : Event} (h : Coordinated s) (hstep : step s e = some s')
    (sound : Sound s e) : Coordinated s' := by
  cases e with
  | attach sid swarm =>
      cases hstep
      unfold ensureClientSwarmMember
      split
      · exact h.of_same (swarmId_modify _ fun _ => rfl) (role_modify _ fun _ => rfl) rfl rfl
      · rename_i hnew
        exact h.insertMember (by simpa using hnew) (by simp)
  | spawn sid swarm isHeadless owner =>
      simp only [Membership.step] at hstep
      split at hstep
      · rename_i hnew
        cases hstep
        exact h.insertMember (Option.isNone_iff_eq_none.mp hnew.1) (by simp)
      · cases hstep
  | remove sid swarm =>
      cases hstep
      exact (h.leaving sound).remove
  | leave sid =>
      cases hstep
      exact h.leave
  | disable sid =>
      cases hstep
      exact h.disable
  | enable sid newSwarm =>
      cases hstep
      exact h.enable sound newSwarm
  | assignRole connections req target role =>
      exact (assignRole_coordinated_iff h hstep).mpr sound
  | seed connections sid =>
      obtain ⟨swarm, hswarm, rfl⟩ := Option.map_eq_some_iff.mp hstep
      exact h.seed connections hswarm

variable {ts : List (Transition SwarmState Event)}

/-- **One coordinator**: in every state of a run whose steps are sound, a swarm has at most one
member whose role is `coordinator`, and that is the one in `swarm_coordinators`. -/
theorem coordinators_agree (run : Run step .empty ts s)
    (sound : ∀ t ∈ ts, Sound t.before t.event) (swarm : String) :
    (∀ a b, s.Coordinates swarm a → s.Coordinates swarm b → a = b) ∧
      ∀ c, s.coordinators.get swarm = some c ↔ s.Coordinates swarm c := by
  have h : Coordinated s := by
    refine run.preserves (P := Coordinated) (fun t ht hs h => h.step hs (sound t ht)) ⟨?_, ?_⟩
    · refine fun swarm c => iff_of_false (by rintro ⟨⟩) ?_
      rintro ⟨hswarm, -⟩
      cases hswarm
    · rintro _ _ ⟨⟩
  refine ⟨fun a b ha hb => ?_, fun c => h.agree swarm c⟩
  have hab := (h.agree swarm a).mpr ha
  rw [(h.agree swarm b).mpr hb] at hab
  exact (Option.some.inj hab).symm

/-- A session promotes itself, and passes the role on. -/
theorem coordinators_agree_passed : ∃ ts s, Run step .empty ts s ∧
    s.coordinators.get "s" = some "b" ∧ s.Coordinates "s" "b" := by
  have hexec : (exec step .empty [.attach "a" (some "s"), .attach "b" (some "s"),
      .assignRole ⟨fun _ => false, fun _ => true⟩ "a" "a" "coordinator",
      .assignRole ⟨fun _ => false, fun _ => true⟩ "a" "b" "coordinator"]).map (fun r =>
        (r.2.coordinators.get "s", r.1.map fun t =>
          (t.before.swarmId "a", t.before.swarmId "b", t.before.coordinators.get "s"))) =
      some (some "b", [(none, none, none), (some "s", none, none), (some "s", some "s", none),
        (some "s", some "s", some "a")]) := by decide +kernel
  obtain ⟨ts, s, run, hes, hobs⟩ := Run.of_observed hexec
  obtain ⟨hcoordinator, hts⟩ := Prod.mk.inj hobs
  refine ⟨ts, s, run, hcoordinator, ((coordinators_agree run ?_ "s").2 "b").mp hcoordinator⟩
  obtain _ | ⟨t₁, _ | ⟨t₂, _ | ⟨t₃, _ | ⟨t₄, _ | _⟩⟩⟩⟩ := ts <;> simp at hes hts
  obtain ⟨h₁, h₂, h₃, h₄⟩ := hes
  obtain ⟨-, -, ⟨ha₃, -, hc₃⟩, ha₄, hb₄, hc₄⟩ := hts
  intro t ht
  simp only [List.mem_cons, List.not_mem_nil, or_false] at ht
  rcases ht with rfl | rfl | rfl | rfl
  · rw [h₁]
    trivial
  · rw [h₂]
    trivial
  · rw [h₃]
    refine ⟨rfl, fun swarm c hswarm hc => ?_⟩
    cases ha₃.symm.trans hswarm
    cases hc₃.symm.trans hc
  · rw [h₄]
    refine ⟨hb₄.trans ha₄.symm, fun swarm c hswarm hc => ?_⟩
    cases ha₄.symm.trans hswarm
    cases hc₄.symm.trans hc
    rfl

/-- A session promotes itself over a coordinator that is gone: both have the role. -/
theorem promoted_over_stale : ∃ ts s, Run step .empty ts s ∧
    s.Coordinates "s" "a" ∧ s.Coordinates "s" "b" ∧ s.coordinators.get "s" = some "b" := by
  have hexec : (exec step .empty [.attach "a" (some "s"), .attach "b" (some "s"),
      .assignRole ⟨fun _ => false, fun _ => true⟩ "a" "a" "coordinator",
      .assignRole ⟨fun k => k = "a", fun _ => true⟩ "b" "b" "coordinator"]).map (fun r =>
        ((r.2.swarmId "a", r.2.role "a"), (r.2.swarmId "b", r.2.role "b"),
          r.2.coordinators.get "s")) =
      some ((some "s", some "coordinator"), (some "s", some "coordinator"), some "b") := by
    decide +kernel
  obtain ⟨ts, s, run, -, hobs⟩ := Run.of_observed hexec
  obtain ⟨ha, hobs⟩ := Prod.mk.inj hobs
  obtain ⟨hb, hc⟩ := Prod.mk.inj hobs
  exact ⟨ts, s, run, Prod.mk.inj ha, Prod.mk.inj hb, hc⟩

end Jcode.Swarm.Membership
