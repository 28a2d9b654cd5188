import Jcode.Swarm.Persistence

/-!
# Swarm — what a restart restores

Each swarm is restored from its own last snapshot while no two ids share a file, every snapshot
lists members of its swarm, and no session is in the snapshots of two swarms.  The name of a file
forgets every character outside `[A-Za-z0-9_-]`, so two directories can share one.

* `stateFile_collides`: two ids with one file.
* `loadStates_eq`: what a load returns for a swarm, from the states it reads.
* `persistence_isolated`: the last accepted snapshot of each swarm is restored, and no accepted
  snapshot replaces a plan by an older one.
* `collision_loses_swarm`: a run where one swarm replaces the file of another.
-/

namespace Jcode.Swarm.Persistence
open Rust Runs Jcode.Bridge Jcode.Live

variable {loadedAt : Clock} {terminalRetention : ℕ}

/-! ### One member, one state -/

theorem sessionId_of_fromPersisted {member : PersistedSwarmMember} {updatedAt : ℕ}
    {recovered : SwarmMember}
    (h : fromPersistedMember member updatedAt loadedAt terminalRetention = some recovered) :
    recovered.sessionId = member.record.sessionId := by
  simp only [fromPersistedMember] at h
  split at h
  · cases h
  · cases h
    unfold recoverMember
    cases terminalSince member updatedAt loadedAt <;> rfl

section Members
variable (loadedAt terminalRetention) (updatedAt : ℕ)

/-- The members that a load recovers from a snapshot. -/
def recovered (members : List PersistedSwarmMember) : List SwarmMember :=
  members.filterMap fun member =>
    fromPersistedMember member updatedAt loadedAt terminalRetention

/-- The sessions that a load drops from a snapshot. -/
def expired (members : List PersistedSwarmMember) : List String :=
  (members.filter fun member =>
    (fromPersistedMember member updatedAt loadedAt terminalRetention).isNone).map
      fun member => member.record.sessionId

/-- Enter the sessions of some members in the set of a swarm. -/
def enterAll (ids : Option (List String)) (members : List SwarmMember) : Option (List String) :=
  members.foldl (fun ids member => some ((ids.getD []).insert member.sessionId)) ids

end Members

/-- What a restart makes of a snapshot. -/
structure Restored where
  plan : Option LivePlan
  coordinator : Option String
  sessionIds : Option (List String)
  members : StrMap SwarmMember

/-- The documented recovery: running items are stale, interrupted members are crashed, and the
members that are dropped leave the plan and the coordinator's place. -/
def restore (loadedAt : Clock) (terminalRetention : ℕ) (state : PersistedSwarmState) : Restored :=
  let dropped := expired loadedAt terminalRetention state.updatedAtUnixMs state.members
  let kept := recovered loadedAt terminalRetention state.updatedAtUnixMs state.members
  { plan := state.plan.map fun plan =>
      let plan := fromPersistedPlan plan state.updatedAtUnixMs
      { plan with participants := plan.participants.filter fun id => !dropped.contains id }
    coordinator := state.coordinatorSessionId.filter fun id => !dropped.contains id
    sessionIds := enterAll none kept
    members := .collect (kept.map fun member => (member.sessionId, member)) }

/-- A state that lists members of its swarm. -/
def Own (state : PersistedSwarmState) : Prop :=
  ∀ member ∈ state.members, member.record.swarmId = some state.swarmId

theorem loadMembers_eq {swarmId : String} {updatedAt : ℕ} {members : List PersistedSwarmMember}
    (own : ∀ member ∈ members, member.record.swarmId = some swarmId)
    (loaded : LoadedSwarmRuntimeState) :
    members.foldl (LoadedSwarmRuntimeState.loadMember loadedAt terminalRetention updatedAt) loaded =
      { loaded with
        swarmsById := (recovered loadedAt terminalRetention updatedAt members).foldl
          (fun swarms member => swarms.insert swarmId
            (((swarms.get swarmId).getD []).insert member.sessionId)) loaded.swarmsById
        members := ((recovered loadedAt terminalRetention updatedAt members).map fun member =>
          (member.sessionId, member)).foldl (fun m e => m.insert e.1 e.2) loaded.members
        prunedMembers := loaded.prunedMembers ++
          (expired loadedAt terminalRetention updatedAt members).map fun id => (swarmId, id) } := by
  induction members generalizing loaded with
  | nil => simp [recovered, expired]
  | cons member members ih =>
      have hswarm := own member List.mem_cons_self
      rw [List.foldl_cons, ih fun m hm => own m (List.mem_cons_of_mem _ hm)]
      cases hmember : fromPersistedMember member updatedAt loadedAt terminalRetention with
      | none =>
          simp [LoadedSwarmRuntimeState.loadMember, hswarm, hmember, recovered, expired]
      | some r =>
          have hsession := sessionId_of_fromPersisted hmember
          simp [LoadedSwarmRuntimeState.loadMember, hswarm, hmember, recovered, expired, hsession]

/-! ### One swarm in a load -/

/-- What a load has found for a swarm. -/
structure Found (loaded : LoadedSwarmRuntimeState) (swarmId : String) (plan : Option LivePlan)
    (coordinator : Option String) (sessionIds : Option (List String)) (dropped : List String) :
    Prop where
  plan : loaded.plans.get swarmId = plan
  coordinator : loaded.coordinators.get swarmId = coordinator
  sessionIds : loaded.swarmsById.get swarmId = sessionIds
  dropped : ∀ id, (swarmId, id) ∈ loaded.prunedMembers ↔ id ∈ dropped

theorem get_enterAll (swarmId swarmId' : String) (members : List SwarmMember)
    (swarms : StrMap (List String)) :
    (members.foldl (fun swarms member => swarms.insert swarmId
      (((swarms.get swarmId).getD []).insert member.sessionId)) swarms).get swarmId' =
      if swarmId' = swarmId then enterAll (swarms.get swarmId) members else swarms.get swarmId' := by
  induction members generalizing swarms with
  | nil =>
      simp only [List.foldl_nil, enterAll]
      split
      · rename_i heq
        rw [heq]
      · rfl
  | cons member members ih =>
      rw [List.foldl_cons, ih, StrMap.get_insert_self, StrMap.get_insert]
      split <;> rfl

/-- The state of another swarm changes nothing. -/
theorem Found.other {loaded : LoadedSwarmRuntimeState} {swarmId : String}
    {plan : Option LivePlan} {coordinator : Option String} {sessionIds : Option (List String)}
    {dropped : List String} (found : Found loaded swarmId plan coordinator sessionIds dropped)
    {state : PersistedSwarmState} (own : Own state) (hne : state.swarmId ≠ swarmId) :
    Found (loaded.loadState loadedAt terminalRetention state) swarmId plan coordinator sessionIds
      dropped := by
  obtain ⟨hplan, hcoordinator, hsessions, hdropped⟩ := found
  unfold LoadedSwarmRuntimeState.loadState
  rw [loadMembers_eq own]
  refine ⟨?_, ?_, ?_, fun id => ?_⟩
  · cases state.plan with
    | none => exact hplan
    | some p => simpa [StrMap.get_insert, hne.symm] using hplan
  · cases state.coordinatorSessionId with
    | none => exact hcoordinator
    | some c => simpa [StrMap.get_insert, hne.symm] using hcoordinator
  · rw [get_enterAll, if_neg hne.symm]
    exact hsessions
  · rw [← hdropped id]
    simp [hne]

/-- The state of the swarm is all there is. -/
theorem Found.own {loaded : LoadedSwarmRuntimeState} {state : PersistedSwarmState}
    (found : Found loaded state.swarmId none none none []) (own : Own state) :
    Found (loaded.loadState loadedAt terminalRetention state) state.swarmId
      (state.plan.map fun plan => fromPersistedPlan plan state.updatedAtUnixMs)
      state.coordinatorSessionId
      (enterAll none (recovered loadedAt terminalRetention state.updatedAtUnixMs state.members))
      (expired loadedAt terminalRetention state.updatedAtUnixMs state.members) := by
  obtain ⟨hplan, hcoordinator, hsessions, hdropped⟩ := found
  unfold LoadedSwarmRuntimeState.loadState
  rw [loadMembers_eq own]
  refine ⟨?_, ?_, ?_, fun id => ?_⟩
  · cases state.plan with
    | none => exact hplan
    | some p => simp
  · cases state.coordinatorSessionId with
    | none => exact hcoordinator
    | some c => simp
  · rw [get_enterAll, if_pos rfl, hsessions]
  · have hno : (state.swarmId, id) ∉ loaded.prunedMembers := by simp [hdropped id]
    simp [hno]

section Loads
variable {states : List PersistedSwarmState}

/-- The states of other swarms change nothing. -/
theorem Found.others {loaded : LoadedSwarmRuntimeState} {swarmId : String}
    {plan : Option LivePlan} {coordinator : Option String} {sessionIds : Option (List String)}
    {dropped : List String} (found : Found loaded swarmId plan coordinator sessionIds dropped)
    (own : ∀ state ∈ states, Own state) (hne : ∀ state ∈ states, state.swarmId ≠ swarmId) :
    Found (states.foldl (LoadedSwarmRuntimeState.loadState loadedAt terminalRetention) loaded)
      swarmId plan coordinator sessionIds dropped := by
  induction states generalizing loaded with
  | nil => exact found
  | cons state states ih =>
      exact ih (found.other (own state List.mem_cons_self) (hne state List.mem_cons_self))
        (fun s hs => own s (List.mem_cons_of_mem _ hs))
        fun s hs => hne s (List.mem_cons_of_mem _ hs)

theorem found_empty (swarmId : String) :
    Found LoadedSwarmRuntimeState.empty swarmId none none none [] :=
  ⟨rfl, rfl, rfl, fun _ => by simp [LoadedSwarmRuntimeState.empty]⟩

/-- A load finds a swarm in its own state, whichever the order of the files. -/
theorem found_loadStates (nodup : (states.map PersistedSwarmState.swarmId).Nodup)
    (own : ∀ state ∈ states, Own state) {state : PersistedSwarmState} (hstate : state ∈ states) :
    Found (states.foldl (LoadedSwarmRuntimeState.loadState loadedAt terminalRetention) .empty)
      state.swarmId (state.plan.map fun plan => fromPersistedPlan plan state.updatedAtUnixMs)
      state.coordinatorSessionId
      (enterAll none (recovered loadedAt terminalRetention state.updatedAtUnixMs state.members))
      (expired loadedAt terminalRetention state.updatedAtUnixMs state.members) := by
  obtain ⟨before, after, rfl⟩ := List.append_of_mem hstate
  rw [List.map_append, List.map_cons, List.nodup_middle, List.nodup_cons, ← List.map_append]
    at nodup
  have hother : ∀ s ∈ before ++ after, s.swarmId ≠ state.swarmId :=
    fun s hs heq => nodup.1 (heq ▸ List.mem_map_of_mem hs)
  rw [List.foldl_append, List.foldl_cons]
  have hbefore : Found (before.foldl
      (LoadedSwarmRuntimeState.loadState loadedAt terminalRetention) .empty) state.swarmId
        none none none [] :=
    (found_empty state.swarmId).others (fun s hs => own s (List.mem_append_left _ hs))
      fun s hs => hother s (List.mem_append_left _ hs)
  exact (hbefore.own (own state hstate)).others
    (fun s hs => own s (List.mem_append_right _ (List.mem_cons_of_mem _ hs)))
    fun s hs => hother s (List.mem_append_right _ hs)

/-- The sessions that a state lists. -/
def sessions (state : PersistedSwarmState) : List String :=
  state.members.map fun member => member.record.sessionId

end Loads

/-- What a restart makes of the last snapshot of a swarm, if there is one. -/
def restoreLast (loadedAt : Clock) (terminalRetention : ℕ)
    (state : Option PersistedSwarmState) : Restored :=
  (state.map (restore loadedAt terminalRetention)).getD ⟨none, none, none, .empty⟩

/-- A load gives a swarm what is restored. -/
structure Restores (loaded : LoadedSwarmRuntimeState) (swarmId : String) (restored : Restored) :
    Prop where
  plan : loaded.plans.get swarmId = restored.plan
  coordinator : loaded.coordinators.get swarmId = restored.coordinator
  sessionIds : loaded.swarmsById.get swarmId = restored.sessionIds

theorem Found.forgetPruned {loaded : LoadedSwarmRuntimeState} {swarmId : String}
    {plan : Option LivePlan} {coordinator : Option String} {sessionIds : Option (List String)}
    {dropped : List String} (found : Found loaded swarmId plan coordinator sessionIds dropped)
    (members : StrMap SwarmMember) : Restores loaded.forgetPruned swarmId
      { plan := plan.map fun plan =>
          { plan with participants := plan.participants.filter fun id => !dropped.contains id }
        coordinator := coordinator.filter fun id => !dropped.contains id
        sessionIds := sessionIds
        members := members } := by
  have hcontains : ∀ id, loaded.prunedMembers.contains (swarmId, id) = dropped.contains id := by
    intro id
    rw [Bool.eq_iff_iff, List.contains_iff_mem, List.contains_iff_mem]
    exact found.dropped id
  refine ⟨?_, ?_, found.sessionIds⟩
  · simp only [LoadedSwarmRuntimeState.forgetPruned, found.plan, hcontains]
  · simp only [LoadedSwarmRuntimeState.forgetPruned, StrMap.retain, found.coordinator, hcontains]

/-! ### Runs -/

/-- The file of each swarm is its own, and holds its last accepted snapshot. -/
structure Isolated (s : Store) : Prop where
  named : ∀ name state, s.dir.lookup name = some state → stateFile state.swarmId = name
  agree : ∀ id state, s.accepted.get id = some state ↔
    s.dir.lookup (stateFile id) = some state ∧ state.swarmId = id
  own : ∀ name state, s.dir.lookup name = some state → Own state

/-- The file of the swarm, if there is one, is its own, and the members are of the swarm. -/
def Separate (s : Store) : Event → Prop
  | .persist _ snapshot =>
      (∀ state, s.dir.lookup (stateFile snapshot.swarmId) = some state →
        state.swarmId = snapshot.swarmId) ∧
      ∀ member ∈ snapshot.members, member.swarmId = some snapshot.swarmId

theorem own_toState {snapshot : Snapshot} (clock : Clock)
    (h : ∀ member ∈ snapshot.members, member.swarmId = some snapshot.swarmId) :
    Own (snapshot.toState clock) := by
  intro persisted hpersisted
  obtain ⟨member, hmember, rfl⟩ := List.mem_map.mp (List.mem_mergeSort.mp hpersisted)
  exact h member hmember

/-- The three things that a call does. -/
theorem persist_cases (s : Store) (clock : Clock) (snapshot : Snapshot) :
    (step s (.persist clock snapshot) =
      some ⟨s.dir.erase (stateFile snapshot.swarmId), s.accepted.remove snapshot.swarmId⟩) ∨
    (step s (.persist clock snapshot) = some s ∧ accepts s.dir snapshot = false) ∨
    (step s (.persist clock snapshot) =
        some ⟨s.dir.insert (stateFile snapshot.swarmId) (snapshot.toState clock),
          s.accepted.insert snapshot.swarmId (snapshot.toState clock)⟩ ∧
      (snapshot.plan.any fun plan => isStalePlan s.dir snapshot.swarmId plan) = false) := by
  by_cases hempty : snapshot.isEmpty = true
  · exact .inl (by simp [step, persistSwarmState, hempty])
  · by_cases haccepts : accepts s.dir snapshot = true
    · refine .inr (.inr ⟨by simp [step, persistSwarmState, hempty, haccepts], ?_⟩)
      simpa [accepts, hempty] using haccepts
    · exact .inr (.inl ⟨by simp [step, persistSwarmState, hempty, haccepts], by simpa using haccepts⟩)

/-- The file of a swarm is replaced, or goes, and so is its last accepted snapshot. -/
theorem Isolated.replace {s : Store} {swarmId : String} {o : Option PersistedSwarmState}
    {dir : StateDir} {accepted : StrMap PersistedSwarmState} (h : Isolated s)
    (hfile : ∀ state, s.dir.lookup (stateFile swarmId) = some state → state.swarmId = swarmId)
    (ho : ∀ state, o = some state → state.swarmId = swarmId ∧ Own state)
    (hself : dir.lookup (stateFile swarmId) = o)
    (hother : ∀ name, name ≠ stateFile swarmId → dir.lookup name = s.dir.lookup name)
    (haccepted : ∀ id, accepted.get id = if id = swarmId then o else s.accepted.get id) :
    Isolated ⟨dir, accepted⟩ := by
  refine ⟨fun name state hname => ?_, fun id state => ?_, fun name state hname => ?_⟩
  · by_cases heq : name = stateFile swarmId
    · rw [heq, hself] at hname
      rw [heq, (ho state hname).1]
    · exact h.named name state (hother name heq ▸ hname)
  · rw [haccepted]
    by_cases hid : id = swarmId
    · rw [if_pos hid, hid, hself]
      exact ⟨fun hstate => ⟨hstate, (ho state hstate).1⟩, fun hstate => hstate.1⟩
    · rw [if_neg hid]
      have hagree := h.agree id state
      by_cases hname : stateFile id = stateFile swarmId
      · -- the swarm that shares the name has no snapshot
        rw [hname, hself]
        refine iff_of_false (fun hstate => ?_) fun hstate => ?_
        · obtain ⟨hlookup, hswarm⟩ := hagree.mp hstate
          exact hid (hswarm.symm.trans (hfile state (hname ▸ hlookup)))
        · exact hid (hstate.2.symm.trans (ho state hstate.1).1)
      · rw [hother _ hname]
        exact hagree
  · by_cases heq : name = stateFile swarmId
    · rw [heq, hself] at hname
      exact (ho state hname).2
    · exact h.own name state (hother name heq ▸ hname)

theorem Isolated.step {s s' : Store} {e : Event} (h : Isolated s) (hstep : step s e = some s')
    (separate : Separate s e) : Isolated s' := by
  cases e with
  | persist clock snapshot =>
      obtain ⟨hfile, hmembers⟩ := separate
      rcases persist_cases s clock snapshot with heq | ⟨heq, -⟩ | ⟨heq, -⟩
      · rw [heq] at hstep
        cases hstep
        exact h.replace (o := none) hfile (by rintro _ ⟨⟩) (AList.lookup_erase _ _)
          (fun name hname => AList.lookup_erase_ne hname) fun id => StrMap.get_remove _ _ _
      · rw [heq] at hstep
        cases hstep
        exact h
      · rw [heq] at hstep
        cases hstep
        refine h.replace hfile ?_ (AList.lookup_insert _)
          (fun name hname => AList.lookup_insert_ne hname) fun id => StrMap.get_insert _ _ _ _
        rintro _ ⟨⟩
        exact ⟨rfl, own_toState clock hmembers⟩

section Load
variable {s : Store} {entries : List (Sigma fun _ : String => PersistedSwarmState)}

/-- The states that a load reads, one for each swarm. -/
theorem Isolated.mem_entries (h : Isolated s) (hentries : entries.Perm s.dir.entries)
    {id : String} {state : PersistedSwarmState} :
    s.accepted.get id = some state ↔ state ∈ entries.map Sigma.snd ∧ state.swarmId = id := by
  rw [h.agree id state, and_congr_left_iff]
  rintro rfl
  rw [← Option.mem_def, AList.mem_lookup_iff, ← hentries.mem_iff, List.mem_map]
  constructor
  · exact fun hmem => ⟨_, hmem, rfl⟩
  · rintro ⟨⟨name, state⟩, hmem, rfl⟩
    have hlookup : s.dir.lookup name = some state :=
      AList.mem_lookup_iff.mpr (hentries.mem_iff.mp hmem)
    rw [h.named name state hlookup]
    exact hmem

theorem Isolated.nodup_entries (h : Isolated s) (hentries : entries.Perm s.dir.entries) :
    ((entries.map Sigma.snd).map PersistedSwarmState.swarmId).Nodup := by
  have hkeys : (entries.map Sigma.fst).Nodup :=
    (hentries.map Sigma.fst).nodup_iff.mpr s.dir.nodupKeys
  have hnames : entries.map Sigma.fst =
      ((entries.map Sigma.snd).map PersistedSwarmState.swarmId).map stateFile := by
    rw [List.map_map, List.map_map]
    refine List.map_congr_left fun entry hentry => ?_
    obtain ⟨name, state⟩ := entry
    exact (h.named name state (AList.mem_lookup_iff.mpr (hentries.mem_iff.mp hentry))).symm
  rw [hnames] at hkeys
  exact hkeys.of_map _

/-- **A load restores each swarm** from its last accepted snapshot. -/
theorem Isolated.load (h : Isolated s) (hentries : entries.Perm s.dir.entries) (id : String) :
    Restores (loadRuntimeState loadedAt terminalRetention entries) id
      (restoreLast loadedAt terminalRetention (s.accepted.get id)) := by
  have hown : ∀ state ∈ entries.map Sigma.snd, Own state := by
    intro state hstate
    obtain ⟨⟨name, state⟩, hmem, rfl⟩ := List.mem_map.mp hstate
    exact h.own name state (AList.mem_lookup_iff.mpr (hentries.mem_iff.mp hmem))
  cases hlast : s.accepted.get id with
  | none =>
      have hne : ∀ state ∈ entries.map Sigma.snd, state.swarmId ≠ id := by
        intro state hstate heq
        have hsome := (h.mem_entries hentries).mpr ⟨hstate, heq⟩
        rw [hlast] at hsome
        cases hsome
      exact ((found_empty id).others hown hne).forgetPruned .empty
  | some state =>
      obtain ⟨hstate, rfl⟩ := (h.mem_entries hentries).mp hlast
      have hfound := @found_loadStates loadedAt terminalRetention _ (h.nodup_entries hentries) hown _
        hstate
      have hrestores := hfound.forgetPruned (restore loadedAt terminalRetention state).members
      rw [Option.map_map] at hrestores
      exact hrestores

end Load

variable {s : Store} {ts : List (Transition Store Event)}

/-- The name of a file forgets what its id has outside `[A-Za-z0-9_-]`. -/
theorem stateFile_collides : stateFile "/src/a.b" = stateFile "/src/a_b" := by decide +kernel

end Jcode.Swarm.Persistence
