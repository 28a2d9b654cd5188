import Jcode.Support.Nested
import Jcode.Support.Std

/-!
# Swarm — Channels

Which sessions listen to which channels of which swarms, indexed from both sides.

* `ChannelIndex.mem_apply_swarm`, `mem_apply_session`: what an operation does to a subscription.
* `channelIndex_spec`: after any operations, the index holds the subscriptions that are left, in
  both directions, and nothing else.
-/

namespace Jcode.Swarm
open Rust Nested

/-- The sessions by swarm and channel, and the channels by session and swarm. -/
structure ChannelIndex where
  bySwarmChannel : Index String String String
  bySession : Index String String String

namespace ChannelIndex

/-- `ChannelIndex::default`. -/
def default : ChannelIndex := ⟨∅, ∅⟩

def subscribe (index : ChannelIndex) (sessionId swarmId channel : String) : ChannelIndex where
  bySwarmChannel := add index.bySwarmChannel swarmId channel sessionId
  bySession := add index.bySession sessionId swarmId channel

def unsubscribe (index : ChannelIndex) (sessionId swarmId channel : String) : ChannelIndex where
  bySwarmChannel := drop index.bySwarmChannel swarmId channel sessionId
  bySession := drop index.bySession sessionId swarmId channel

section Order
variable (order : IterOrder)

/-- The swarms and channels to visit are known from the session; otherwise all are visited. -/
def removeSession (index : ChannelIndex) (sessionId : String) : ChannelIndex :=
  match index.bySession.lookup sessionId with
  | some sessionSubscriptions =>
      { bySwarmChannel := (order.order sessionSubscriptions.keys).foldl
          (fun bySwarmChannel swarmId => dropUnder bySwarmChannel swarmId
            (fun _ => order.order (sorted (entry sessionSubscriptions swarmId))) sessionId)
          index.bySwarmChannel
        bySession := index.bySession.erase sessionId }
  | none =>
      { index with
        bySwarmChannel := (order.order index.bySwarmChannel.keys).foldl
          (fun bySwarmChannel swarmId => dropUnder bySwarmChannel swarmId
            (fun swarmSubs => order.order swarmSubs.keys) sessionId)
          index.bySwarmChannel }

end Order

def members (index : ChannelIndex) (swarmId channel : String) : List String :=
  sorted (under index.bySwarmChannel swarmId channel)

end ChannelIndex

/-! ### Operations -/

inductive ChannelOp where
  | subscribe (sessionId swarmId channel : String)
  | unsubscribe (sessionId swarmId channel : String)
  | removeSession (sessionId : String)
  deriving DecidableEq

def ChannelIndex.apply (order : IterOrder) (index : ChannelIndex) : ChannelOp → ChannelIndex
  | .subscribe sessionId swarmId channel => index.subscribe sessionId swarmId channel
  | .unsubscribe sessionId swarmId channel => index.unsubscribe sessionId swarmId channel
  | .removeSession sessionId => index.removeSession order sessionId

/-- The operation is about the session's subscription to the channel of the swarm. -/
def ChannelOp.Mentions (sessionId swarmId channel : String) (op : ChannelOp) : Prop :=
  op = .subscribe sessionId swarmId channel ∨ op = .unsubscribe sessionId swarmId channel ∨
    op = .removeSession sessionId

instance (sessionId swarmId channel : String) :
    DecidablePred (ChannelOp.Mentions sessionId swarmId channel) :=
  fun _ => inferInstanceAs (Decidable (_ ∨ _))

/-- The last operation about the subscription made it. -/
def Subscribed (ops : List ChannelOp) (sessionId swarmId channel : String) : Prop :=
  (ops.filter (·.Mentions sessionId swarmId channel)).getLast? =
    some (.subscribe sessionId swarmId channel)

theorem subscribed_concat (ops : List ChannelOp) (op : ChannelOp)
    (sessionId swarmId channel : String) :
    Subscribed (ops ++ [op]) sessionId swarmId channel ↔
      if op.Mentions sessionId swarmId channel then op = .subscribe sessionId swarmId channel
      else Subscribed ops sessionId swarmId channel := by
  rw [Subscribed, List.filter_append, List.filter_singleton]
  by_cases h : op.Mentions sessionId swarmId channel
  · rw [if_pos h, decide_eq_true h, cond_true, List.getLast?_concat, Option.some.injEq]
  · rw [if_neg h, decide_eq_false h, cond_false, List.append_nil, Subscribed]

/-! ### What an operation does -/

namespace ChannelIndex
variable {order : IterOrder} {index : ChannelIndex} {sessionId swarmId channel : String}

/-- The two directions hold the same subscriptions. -/
def Synced (index : ChannelIndex) : Prop := ∀ sessionId swarmId channel,
  sessionId ∈ under index.bySwarmChannel swarmId channel ↔
    channel ∈ under index.bySession sessionId swarmId

theorem mem_removeSession_swarm (h : index.Synced) (removed : String) :
    sessionId ∈ under (index.removeSession order removed).bySwarmChannel swarmId channel ↔
      sessionId ≠ removed ∧ sessionId ∈ under index.bySwarmChannel swarmId channel := by
  have hmem : ∀ keys : List String, (∀ k, k ∈ order.order keys ↔ k ∈ keys) :=
    fun keys k => (order.perm keys).mem_iff
  rw [removeSession]
  cases hsubs : index.bySession.lookup removed with
  | some subscriptions =>
      -- the visits come to every channel the session listens to
      have hunder : ∀ w, under index.bySession removed w = entry subscriptions w := fun w => by
        rw [under, hsubs, Option.getD_some]
      dsimp only
      rw [under_walk]
      · by_cases hin : swarmId ∈ order.order subscriptions.keys
        · rw [if_pos hin, Finset.mem_erase]
        · rw [if_neg hin]
          refine ⟨fun hs => ⟨?_, hs⟩, fun hs => hs.2⟩
          rintro rfl
          rw [h, hunder, entry, AList.lookup_eq_none.mpr] at hs
          · exact absurd hs (Finset.notMem_empty channel)
          · exact fun hkey => hin ((hmem _ _).mpr (AList.mem_keys.mp hkey))
      · intro hs
        rw [hmem, mem_sorted, ← hunder]
        exact (h removed swarmId channel).mp hs
  | none =>
      dsimp only
      rw [under_walk]
      · by_cases hin : swarmId ∈ order.order index.bySwarmChannel.keys
        · rw [if_pos hin, Finset.mem_erase]
        · have hnone : index.bySwarmChannel.lookup swarmId = none :=
            AList.lookup_eq_none.mpr fun hkey => hin ((hmem _ _).mpr (AList.mem_keys.mp hkey))
          rw [if_neg hin, under, hnone, Option.getD_none, entry_empty]
          exact ⟨fun hs => absurd hs (Finset.notMem_empty _),
            fun hs => absurd hs.2 (Finset.notMem_empty _)⟩
      · intro hs
        refine (hmem _ _).mpr (AList.mem_keys.mp (AList.lookup_isSome.mp ?_))
        rw [under, entry] at hs
        cases hget : AList.lookup channel ((index.bySwarmChannel.lookup swarmId).getD ∅) with
        | some sessions => rfl
        | none =>
            rw [hget] at hs
            exact absurd hs (Finset.notMem_empty _)

theorem mem_removeSession_session (removed : String) :
    channel ∈ under (index.removeSession order removed).bySession sessionId swarmId ↔
      sessionId ≠ removed ∧ channel ∈ under index.bySession sessionId swarmId := by
  rw [removeSession]
  cases hsubs : index.bySession.lookup removed with
  | some subscriptions =>
      by_cases heq : sessionId = removed
      · subst heq
        simp [under]
      · simp [under, heq]
  | none =>
      dsimp only
      by_cases heq : sessionId = removed
      · subst heq
        simp [under, hsubs]
      · simp [heq]

/-- What an operation does to a subscription, by swarm and channel. -/
theorem mem_apply_swarm (h : index.Synced) (op : ChannelOp) :
    sessionId ∈ under (index.apply order op).bySwarmChannel swarmId channel ↔
      if op.Mentions sessionId swarmId channel then op = .subscribe sessionId swarmId channel
      else sessionId ∈ under index.bySwarmChannel swarmId channel := by
  cases op with
  | subscribe s w c =>
      rw [apply, subscribe, under_add]
      by_cases hkeys : swarmId = w ∧ channel = c
      · obtain ⟨rfl, rfl⟩ := hkeys
        by_cases hs : s = sessionId
        · simp [ChannelOp.Mentions, hs]
        · simp [ChannelOp.Mentions, hs, Ne.symm hs]
      · have hnot : ¬ (s = sessionId ∧ w = swarmId ∧ c = channel) := fun heq =>
          hkeys ⟨heq.2.1.symm, heq.2.2.symm⟩
        simp [ChannelOp.Mentions, hkeys, hnot]
  | unsubscribe s w c =>
      rw [apply, unsubscribe, under_drop]
      by_cases hkeys : swarmId = w ∧ channel = c
      · obtain ⟨rfl, rfl⟩ := hkeys
        by_cases hs : s = sessionId
        · simp [ChannelOp.Mentions, hs]
        · simp [ChannelOp.Mentions, hs, Ne.symm hs]
      · have hnot : ¬ (s = sessionId ∧ w = swarmId ∧ c = channel) := fun heq =>
          hkeys ⟨heq.2.1.symm, heq.2.2.symm⟩
        simp [ChannelOp.Mentions, hkeys, hnot]
  | removeSession s =>
      rw [apply, mem_removeSession_swarm h]
      by_cases hs : s = sessionId
      · simp [ChannelOp.Mentions, hs]
      · simp [ChannelOp.Mentions, hs, Ne.symm hs]

/-- What an operation does to a subscription, by session and swarm. -/
theorem mem_apply_session (op : ChannelOp) :
    channel ∈ under (index.apply order op).bySession sessionId swarmId ↔
      if op.Mentions sessionId swarmId channel then op = .subscribe sessionId swarmId channel
      else channel ∈ under index.bySession sessionId swarmId := by
  cases op with
  | subscribe s w c =>
      rw [apply, subscribe, under_add]
      by_cases hkeys : sessionId = s ∧ swarmId = w
      · obtain ⟨rfl, rfl⟩ := hkeys
        by_cases hc : c = channel
        · simp [ChannelOp.Mentions, hc]
        · simp [ChannelOp.Mentions, hc, Ne.symm hc]
      · have hnot : ¬ (s = sessionId ∧ w = swarmId ∧ c = channel) := fun heq =>
          hkeys ⟨heq.1.symm, heq.2.1.symm⟩
        simp [ChannelOp.Mentions, hkeys, hnot]
  | unsubscribe s w c =>
      rw [apply, unsubscribe, under_drop]
      by_cases hkeys : sessionId = s ∧ swarmId = w
      · obtain ⟨rfl, rfl⟩ := hkeys
        by_cases hc : c = channel
        · simp [ChannelOp.Mentions, hc]
        · simp [ChannelOp.Mentions, hc, Ne.symm hc]
      · have hnot : ¬ (s = sessionId ∧ w = swarmId ∧ c = channel) := fun heq =>
          hkeys ⟨heq.1.symm, heq.2.1.symm⟩
        simp [ChannelOp.Mentions, hkeys, hnot]
  | removeSession s =>
      rw [apply, mem_removeSession_session]
      by_cases hs : s = sessionId
      · simp [ChannelOp.Mentions, hs]
      · simp [ChannelOp.Mentions, hs, Ne.symm hs]

theorem pruned_apply (hswarm : Pruned index.bySwarmChannel) (hsession : Pruned index.bySession)
    (op : ChannelOp) : Pruned (index.apply order op).bySwarmChannel ∧
      Pruned (index.apply order op).bySession := by
  cases op with
  | subscribe s w c => exact ⟨hswarm.add w c s, hsession.add s w c⟩
  | unsubscribe s w c => exact ⟨hswarm.drop w c s, hsession.drop s w c⟩
  | removeSession s =>
      rw [apply, removeSession]
      split
      · refine ⟨pruned_walk hswarm _, fun session subs hget => ?_⟩
        by_cases hs : session = s
        · subst hs
          rw [AList.lookup_erase] at hget
          cases hget
        · rw [AList.lookup_erase_ne hs] at hget
          exact hsession session subs hget
      · exact ⟨pruned_walk hswarm _, hsession⟩

end ChannelIndex

/-! ### Runs -/

/-- **The index holds the subscriptions that are left**, in both directions, in levels that are not
empty, and lists the members of a channel once each and in order. -/
theorem channelIndex_spec (order : IterOrder) (ops : List ChannelOp) :
    let index := ops.foldl (ChannelIndex.apply order) ChannelIndex.default
    (∀ sessionId swarmId channel,
      (sessionId ∈ under index.bySwarmChannel swarmId channel ↔
        channel ∈ under index.bySession sessionId swarmId) ∧
      (sessionId ∈ under index.bySwarmChannel swarmId channel ↔
        Subscribed ops sessionId swarmId channel)) ∧
    Pruned index.bySwarmChannel ∧ Pruned index.bySession ∧
    ∀ swarmId channel, (index.members swarmId channel).Pairwise (· < ·) ∧
      ∀ sessionId, sessionId ∈ index.members swarmId channel ↔
        Subscribed ops sessionId swarmId channel := by
  intro index
  have hrun : (∀ s w c, (s ∈ under index.bySwarmChannel w c ↔ Subscribed ops s w c) ∧
      (c ∈ under index.bySession s w ↔ Subscribed ops s w c)) ∧
      Pruned index.bySwarmChannel ∧ Pruned index.bySession := by
    induction ops using List.reverseRecOn with
    | nil =>
        refine ⟨fun s w c => ?_, pruned_empty, pruned_empty⟩
        simp [index, ChannelIndex.default, Subscribed]
    | append_singleton ops op ih =>
        obtain ⟨hholds, hswarm, hsession⟩ := ih
        have hsync : (ops.foldl (ChannelIndex.apply order) ChannelIndex.default).Synced :=
          fun s w c => (hholds s w c).1.trans (hholds s w c).2.symm
        have hstep : index = (ops.foldl (ChannelIndex.apply order) ChannelIndex.default).apply
            order op := by
          simp only [index, List.foldl_append, List.foldl_cons, List.foldl_nil]
        rw [hstep]
        refine ⟨fun s w c => ?_, ChannelIndex.pruned_apply hswarm hsession op⟩
        rw [ChannelIndex.mem_apply_swarm hsync, ChannelIndex.mem_apply_session,
          subscribed_concat]
        constructor
        · split
          · exact .rfl
          · exact (hholds s w c).1
        · split
          · exact .rfl
          · exact (hholds s w c).2
  obtain ⟨hholds, hswarm, hsession⟩ := hrun
  refine ⟨fun s w c => ⟨(hholds s w c).1.trans (hholds s w c).2.symm, (hholds s w c).1⟩, hswarm,
    hsession, fun w c => ⟨pairwise_sorted _, fun s => ?_⟩⟩
  rw [ChannelIndex.members, mem_sorted]
  exact (hholds s w c).1

end Jcode.Swarm
