import Jcode.Support.Runs
import Jcode.Support.Std

/-!
# Swarm — the broadcast of statuses

`jcode-app-core/src/server/swarm.rs`: `broadcast_swarm_status`.  In a small swarm the caller sends a
snapshot of the members itself.  In a larger one it leaves a request, and one flush loop serves all
the requests that come before its snapshot.

A change and the call that follows it are two steps, and so are the reading of the session ids, the
snapshot of the members, and each send.  Each call has a number, and so has the flush loop it
spawns.  Changes are counted, and a snapshot carries the count at its time.

* `one_flush`: at most one flush loop is active.
* `status_broadcast_covers`: while no snapshot is sent after a newer one, and flushes find somebody,
  the last snapshot sent at rest covers every request.
* `direct_broadcasts_cross`: two direct broadcasts that overlap leave the older snapshot behind.
-/

namespace Jcode.Swarm.Broadcast
open Rust Runs

variable {M : Type}

structure Snapshot (M : Type) where
  takenAt : ℕ
  members : List (String × M)
  deriving DecidableEq, Repr

structure PendingSwarmStatusBroadcast where
  scheduled : Bool := false
  dirty : Bool := false
  deriving DecidableEq, Repr

/-- Where a call is, with the number of its change. -/
inductive Caller (M : Type) where
  | idle
  | changed (change : ℕ)
  /-- The swarm is small: the call has read the session ids. -/
  | direct (change : ℕ) (sessionIds : List String)
  | sending (change : ℕ) (snapshot : Snapshot M) (sessionIds : List String)
  /-- The swarm is not small: the call is about to leave its request. -/
  | enqueuing (change : ℕ)
  /-- The request is made: nothing is left to do for the call. -/
  | requested (change : ℕ)
  deriving DecidableEq, Repr

/-- Where a flush loop is. -/
inductive Flush (M : Type) where
  | off
  | sleeping
  | taking (sessionIds : List String)
  | sending (snapshot : Snapshot M) (sessionIds : List String)
  /-- About to look for requests that came since. -/
  | settling
  | over
  deriving DecidableEq, Repr

def Flush.active : Flush M → Bool
  | .off | .over => false
  | _ => true

structure State (M : Type) where
  /-- The sessions of the swarm. -/
  sessionIds : List String
  members : StrMap M
  changes : ℕ
  caller : ℕ → Caller M
  flush : ℕ → Flush M
  /-- The entry of the swarm in `pending_swarm_status_broadcasts`. -/
  pending : Option PendingSwarmStatusBroadcast
  sent : List (String × Snapshot M)

def State.init (sessionIds : List String) (members : StrMap M) : State M where
  sessionIds := sessionIds
  members := members
  changes := 0
  caller _ := .idle
  flush _ := .off
  pending := none
  sent := []

namespace State

def setCaller (s : State M) (i : ℕ) (caller : Caller M) : State M :=
  { s with caller := Function.update s.caller i caller }

def setFlush (s : State M) (i : ℕ) (flush : Flush M) : State M :=
  { s with flush := Function.update s.flush i flush }

/-- The members of `session_ids`, as they are. -/
def snapshot (s : State M) (sessionIds : List String) : Snapshot M where
  takenAt := s.changes
  members := sessionIds.filterMap fun sid => (s.members.get sid).map fun member => (sid, member)

end State

inductive Event (M : Type) where
  /-- Sessions join or leave. -/
  | membership (sessionIds : List String)
  /-- A member changes; the call `i` will follow. -/
  | change (i : ℕ) (sessionId : String) (member : M)
  /-- `broadcast_swarm_status` reads the session ids. -/
  | call (i : ℕ)
  | takeDirect (i : ℕ)
  | sendDirect (i : ℕ)
  /-- The request goes into the pending map, under its lock. -/
  | enqueue (i : ℕ)
  | wake (i : ℕ)
  | takeFlush (i : ℕ)
  | sendFlush (i : ℕ)
  | settle (i : ℕ)
  deriving DecidableEq, Repr

section Threshold
variable (threshold : ℕ)

def step (s : State M) : Event M → Option (State M)
  | .membership sessionIds => some { s with sessionIds := sessionIds }
  | .change i sessionId member =>
      match s.caller i with
      | .idle =>
          some { s.setCaller i (.changed (s.changes + 1)) with
            members := s.members.insert sessionId member
            changes := s.changes + 1 }
      | _ => none
  | .call i =>
      match s.caller i with
      | .changed change =>
          if s.sessionIds.isEmpty then some (s.setCaller i (.requested change))
          else if s.sessionIds.length < threshold then
            some (s.setCaller i (.direct change s.sessionIds))
          else some (s.setCaller i (.enqueuing change))
      | _ => none
  | .takeDirect i =>
      match s.caller i with
      | .direct change ids => some (s.setCaller i (.sending change (s.snapshot ids) ids))
      | _ => none
  | .sendDirect i =>
      match s.caller i with
      | .sending change snapshot (sid :: ids) =>
          some { s.setCaller i
              (if ids.isEmpty then .requested change else .sending change snapshot ids) with
            sent := s.sent ++ [(sid, snapshot)] }
      | _ => none
  | .enqueue i =>
      match s.caller i with
      | .enqueuing change =>
          let entry := s.pending.getD {}
          if entry.scheduled then
            some { s.setCaller i (.requested change) with
              pending := some { entry with dirty := true } }
          else
            some { (s.setCaller i (.requested change)).setFlush i .sleeping with
              pending := some { scheduled := true, dirty := false } }
      | _ => none
  | .wake i =>
      match s.flush i with
      | .sleeping =>
          some (s.setFlush i
            (if s.sessionIds.isEmpty then .settling else .taking s.sessionIds))
      | _ => none
  | .takeFlush i =>
      match s.flush i with
      | .taking ids => some (s.setFlush i (.sending (s.snapshot ids) ids))
      | _ => none
  | .sendFlush i =>
      match s.flush i with
      | .sending snapshot (sid :: ids) =>
          some { s.setFlush i (if ids.isEmpty then .settling else .sending snapshot ids) with
            sent := s.sent ++ [(sid, snapshot)] }
      | _ => none
  | .settle i =>
      match s.flush i with
      | .settling =>
          match s.pending with
          | none => some (s.setFlush i .over)
          | some entry =>
              if entry.dirty then
                some { s.setFlush i .sleeping with pending := some { entry with dirty := false } }
              else some { s.setFlush i .over with pending := none }
      | _ => none

/-- What a step does. -/
inductive Effect (s : State M) : Event M → State M → Prop where
  | membership (sessionIds : List String) :
      Effect s (.membership sessionIds) { s with sessionIds := sessionIds }
  | change {i : ℕ} {sessionId : String} {member : M} (h : s.caller i = .idle) :
      Effect s (.change i sessionId member) { s.setCaller i (.changed (s.changes + 1)) with
        members := s.members.insert sessionId member
        changes := s.changes + 1 }
  | call {i change : ℕ} {caller : Caller M} (h : s.caller i = .changed change)
      (hcaller : caller = .requested change ∧ s.sessionIds.isEmpty = true ∨
        caller = .direct change s.sessionIds ∧ s.sessionIds.length < threshold ∨
        caller = .enqueuing change) :
      Effect s (.call i) (s.setCaller i caller)
  | takeDirect {i change : ℕ} {ids : List String} (h : s.caller i = .direct change ids) :
      Effect s (.takeDirect i) (s.setCaller i (.sending change (s.snapshot ids) ids))
  | sendDirect {i change : ℕ} {snapshot : Snapshot M} {sid : String} {ids : List String}
      (h : s.caller i = .sending change snapshot (sid :: ids)) :
      Effect s (.sendDirect i) { s.setCaller i
          (if ids.isEmpty then .requested change else .sending change snapshot ids) with
        sent := s.sent ++ [(sid, snapshot)] }
  | mark {i change : ℕ} {entry : PendingSwarmStatusBroadcast}
      (h : s.caller i = .enqueuing change) (hpending : s.pending = some entry)
      (hscheduled : entry.scheduled = true) :
      Effect s (.enqueue i) { s.setCaller i (.requested change) with
        pending := some { entry with dirty := true } }
  | schedule {i change : ℕ} (h : s.caller i = .enqueuing change)
      (hscheduled : (s.pending.getD {}).scheduled = false) :
      Effect s (.enqueue i) { (s.setCaller i (.requested change)).setFlush i .sleeping with
        pending := some { scheduled := true, dirty := false } }
  | wake {i : ℕ} (h : s.flush i = .sleeping) :
      Effect s (.wake i) (s.setFlush i
        (if s.sessionIds.isEmpty then .settling else .taking s.sessionIds))
  | takeFlush {i : ℕ} {ids : List String} (h : s.flush i = .taking ids) :
      Effect s (.takeFlush i) (s.setFlush i (.sending (s.snapshot ids) ids))
  | sendFlush {i : ℕ} {snapshot : Snapshot M} {sid : String} {ids : List String}
      (h : s.flush i = .sending snapshot (sid :: ids)) :
      Effect s (.sendFlush i) { s.setFlush i
          (if ids.isEmpty then .settling else .sending snapshot ids) with
        sent := s.sent ++ [(sid, snapshot)] }
  | again {i : ℕ} {entry : PendingSwarmStatusBroadcast} (h : s.flush i = .settling)
      (hpending : s.pending = some entry) (hdirty : entry.dirty = true) :
      Effect s (.settle i) { s.setFlush i .sleeping with
        pending := some { entry with dirty := false } }
  | finish {i : ℕ} (h : s.flush i = .settling)
      (hclean : ∀ entry, s.pending = some entry → entry.dirty = false) :
      Effect s (.settle i) { s.setFlush i .over with pending := none }

variable {threshold} {s s' : State M} {e : Event M}

theorem effect_of_step (h : step threshold s e = some s') : Effect threshold s e s' := by
  cases e with
  | membership sessionIds =>
      cases h
      exact .membership sessionIds
  | change i sessionId member =>
      simp only [step] at h
      split at h
      · rename_i hi
        cases h
        exact .change hi
      · cases h
  | call i =>
      simp only [step] at h
      split at h
      · rename_i change hi
        split at h
        · rename_i hempty
          cases h
          exact .call hi (.inl ⟨rfl, hempty⟩)
        · split at h
          · rename_i hlength
            cases h
            exact .call hi (.inr (.inl ⟨rfl, hlength⟩))
          · cases h
            exact .call hi (.inr (.inr rfl))
      · cases h
  | takeDirect i =>
      simp only [step] at h
      split at h
      · rename_i hi
        cases h
        exact .takeDirect hi
      · cases h
  | sendDirect i =>
      simp only [step] at h
      split at h
      · rename_i hi
        cases h
        exact .sendDirect hi
      · cases h
  | enqueue i =>
      simp only [step] at h
      split at h
      · rename_i change hi
        split at h
        · rename_i hscheduled
          cases h
          cases hpending : s.pending with
          | none =>
              rw [hpending] at hscheduled
              cases hscheduled
          | some entry =>
              rw [hpending] at hscheduled
              exact .mark hi hpending hscheduled
        · rename_i hscheduled
          cases h
          exact .schedule hi (Bool.eq_false_of_not_eq_true hscheduled)
      · cases h
  | wake i =>
      simp only [step] at h
      split at h
      · rename_i hi
        cases h
        exact .wake hi
      · cases h
  | takeFlush i =>
      simp only [step] at h
      split at h
      · rename_i hi
        cases h
        exact .takeFlush hi
      · cases h
  | sendFlush i =>
      simp only [step] at h
      split at h
      · rename_i hi
        cases h
        exact .sendFlush hi
      · cases h
  | settle i =>
      simp only [step] at h
      split at h
      · rename_i hi
        split at h
        · rename_i hpending
          cases h
          have heq : s.setFlush i .over = { s.setFlush i .over with pending := none } := by
            rw [← hpending]
            rfl
          rw [heq]
          exact .finish hi (by simp [hpending])
        · rename_i entry hpending
          split at h
          · rename_i hdirty
            cases h
            exact .again hi hpending hdirty
          · rename_i hdirty
            cases h
            exact .finish hi (by simp [hpending, hdirty])
      · cases h

/-! ### One flush loop -/

/-- The loop that is active is the one that the pending entry stands for. -/
structure FlushLaw (s : State M) : Prop where
  one : ∀ i j, (s.flush i).active = true → (s.flush j).active = true → i = j
  scheduled : ∀ entry, s.pending = some entry → entry.scheduled = true
  active : ∀ i, (s.flush i).active = true → s.pending.isSome = true
  alive : s.pending.isSome = true → ∃ i, (s.flush i).active = true

/-- The active loop takes a step and leaves an entry. -/
theorem FlushLaw.of_active {i : ℕ} {flush : Flush M} (law : FlushLaw s)
    (hi : (s.flush i).active = true) (hactive : flush.active = true)
    (hflush : s'.flush = Function.update s.flush i flush)
    (hscheduled : ∀ entry, s'.pending = some entry → entry.scheduled = true)
    (hsome : s.pending.isSome = true → s'.pending.isSome = true) : FlushLaw s' := by
  have honly : ∀ j, (s'.flush j).active = true → j = i := by
    intro j hj
    by_cases hji : j = i
    · exact hji
    · rw [hflush, Function.update_of_ne hji] at hj
      exact law.one j i hj hi
  exact ⟨fun j k hj hk => (honly j hj).trans (honly k hk).symm, hscheduled,
    fun _ _ => hsome (law.active i hi), fun _ => ⟨i, by rw [hflush, Function.update_self, hactive]⟩⟩

theorem FlushLaw.step (law : FlushLaw s) (effect : Effect threshold s e s') : FlushLaw s' := by
  cases effect with
  | membership => exact ⟨law.one, law.scheduled, law.active, law.alive⟩
  | change => exact ⟨law.one, law.scheduled, law.active, law.alive⟩
  | call => exact ⟨law.one, law.scheduled, law.active, law.alive⟩
  | takeDirect => exact ⟨law.one, law.scheduled, law.active, law.alive⟩
  | sendDirect => exact ⟨law.one, law.scheduled, law.active, law.alive⟩
  | mark h hpending hscheduled =>
      refine ⟨law.one, ?_, fun _ _ => rfl, fun _ => law.alive (hpending ▸ rfl)⟩
      rintro _ ⟨⟩
      exact hscheduled
  | @schedule i change h hscheduled =>
      -- nothing is pending, so no loop is active
      have hnone : ∀ j, (s.flush j).active = true → j = i := by
        intro j hj
        obtain ⟨entry, hentry⟩ := Option.isSome_iff_exists.mp (law.active j hj)
        rw [hentry, Option.getD_some, law.scheduled entry hentry] at hscheduled
        cases hscheduled
      have honly : ∀ j, (Function.update s.flush i .sleeping j).active = true → j = i := by
        intro j hj
        by_cases hji : j = i
        · exact hji
        · rw [Function.update_of_ne hji] at hj
          exact hnone j hj
      refine ⟨fun j k hj hk => (honly j hj).trans (honly k hk).symm, ?_, fun _ _ => rfl,
        fun _ => ⟨i, congrArg Flush.active (Function.update_self i _ s.flush)⟩⟩
      rintro _ ⟨⟩
      rfl
  | wake h =>
      refine law.of_active (congrArg Flush.active h) ?_ rfl law.scheduled id
      split <;> rfl
  | takeFlush h => exact law.of_active (congrArg Flush.active h) rfl rfl law.scheduled id
  | sendFlush h =>
      refine law.of_active (congrArg Flush.active h) ?_ rfl law.scheduled id
      split <;> rfl
  | @again i entry h hpending hdirty =>
      have hscheduled := law.scheduled entry hpending
      refine law.of_active (congrArg Flush.active h) rfl rfl ?_ fun _ => rfl
      rintro _ ⟨⟩
      exact hscheduled
  | @finish i h hclean =>
      have hover : ∀ j, (Function.update s.flush i .over j).active = false := by
        intro j
        by_cases hji : j = i
        · rw [hji, Function.update_self]
          rfl
        · rw [Function.update_of_ne hji]
          by_contra hj
          exact hji (law.one j i (Bool.eq_true_of_not_eq_false hj) (congrArg Flush.active h))
      exact ⟨fun j k hj => absurd hj (Bool.eq_false_iff.mp (hover j)), by rintro _ ⟨⟩,
        fun j hj => absurd hj (Bool.eq_false_iff.mp (hover j)), by rintro ⟨⟩⟩

/-- **At most one flush loop is active.** -/
theorem one_flush {sessionIds : List String} {members : StrMap M}
    {ts : List (Transition (State M) (Event M))}
    (run : Run (step threshold) (.init sessionIds members) ts s) : FlushLaw s :=
  run.preserves (fun _ _ hs law => law.step (effect_of_step hs))
    ⟨by rintro _ _ ⟨⟩, by rintro _ ⟨⟩, by rintro _ ⟨⟩, by rintro ⟨⟩⟩

/-! ### What a request is owed -/

/-- The change that a call is about. -/
def Caller.change? : Caller M → Option ℕ
  | .idle => none
  | .changed change | .direct change _ | .sending change _ _ | .enqueuing change
  | .requested change => some change

def Served (s : State M) (change : ℕ) : Prop := ∃ x ∈ s.sent, change ≤ x.2.takenAt

/-- A flush will take a snapshot, or is sending one that has the change. -/
inductive Due (s : State M) (change : ℕ) : Prop where
  | dirty {entry : PendingSwarmStatusBroadcast} (h : s.pending = some entry)
      (hdirty : entry.dirty = true)
  | sleeping {i : ℕ} (h : s.flush i = .sleeping)
  | taking {i : ℕ} {ids : List String} (h : s.flush i = .taking ids)
  | sending {i : ℕ} {snapshot : Snapshot M} {ids : List String}
      (h : s.flush i = .sending snapshot ids) (hchange : change ≤ snapshot.takenAt)

structure RequestLaw (s : State M) : Prop where
  known : ∀ i change, (s.caller i).change? = some change → change ≤ s.changes
  direct : ∀ i change snapshot ids, s.caller i = .sending change snapshot ids →
    change ≤ snapshot.takenAt
  owed : ∀ i change, s.caller i = .requested change → Served s change ∨ Due s change

/-- The call and each flush find somebody in the swarm. -/
def Heard (t : Transition (State M) (Event M)) : Prop :=
  match t.event with
  | .call _ | .wake _ => t.before.sessionIds ≠ []
  | _ => True

/-- What is sent is no older than what was sent. -/
def InOrder (t : Transition (State M) (Event M)) : Prop :=
  match t.event with
  | .sendDirect i => ∀ change snapshot ids, t.before.caller i = .sending change snapshot ids →
      ∀ x ∈ t.before.sent, x.2.takenAt ≤ snapshot.takenAt
  | .sendFlush i => ∀ snapshot ids, t.before.flush i = .sending snapshot ids →
      ∀ x ∈ t.before.sent, x.2.takenAt ≤ snapshot.takenAt
  | _ => True

/-- A call keeps to its change. -/
theorem change_of_effect (effect : Effect threshold s e s') (i : ℕ) :
    s.changes ≤ s'.changes ∧ ((s'.caller i).change? = (s.caller i).change? ∨
      (s'.caller i).change? = some s'.changes) := by
  have hkeep : ∀ {j : ℕ} {c d : Caller M}, s.caller j = c → d.change? = c.change? →
      (Function.update s.caller j d i).change? = (s.caller i).change? := by
    intro j c d hj hd
    by_cases hij : i = j
    · rw [hij, Function.update_self, hd, hj]
    · rw [Function.update_of_ne hij]
  cases effect with
  | membership => exact ⟨le_rfl, .inl rfl⟩
  | wake => exact ⟨le_rfl, .inl rfl⟩
  | takeFlush => exact ⟨le_rfl, .inl rfl⟩
  | sendFlush => exact ⟨le_rfl, .inl rfl⟩
  | again => exact ⟨le_rfl, .inl rfl⟩
  | finish => exact ⟨le_rfl, .inl rfl⟩
  | @change j sessionId member h =>
      refine ⟨Nat.le_succ _, ?_⟩
      by_cases hij : i = j
      · exact .inr (by simp [State.setCaller, hij, Caller.change?])
      · exact .inl (by simp [State.setCaller, hij])
  | call h hcaller =>
      refine ⟨le_rfl, .inl (hkeep h ?_)⟩
      rcases hcaller with ⟨rfl, -⟩ | ⟨rfl, -⟩ | rfl <;> rfl
  | takeDirect h => exact ⟨le_rfl, .inl (hkeep h rfl)⟩
  | sendDirect h =>
      refine ⟨le_rfl, .inl (hkeep h ?_)⟩
      split <;> rfl
  | mark h => exact ⟨le_rfl, .inl (hkeep h rfl)⟩
  | schedule h => exact ⟨le_rfl, .inl (hkeep h rfl)⟩

theorem direct_step (law : RequestLaw s) (effect : Effect threshold s e s') {i change : ℕ}
    {snapshot : Snapshot M} {ids : List String} (hi : s'.caller i = .sending change snapshot ids) :
    change ≤ snapshot.takenAt := by
  have hdirect := law.direct i
  cases effect with
  | membership => exact hdirect change snapshot ids hi
  | wake => exact hdirect change snapshot ids hi
  | takeFlush => exact hdirect change snapshot ids hi
  | sendFlush => exact hdirect change snapshot ids hi
  | again => exact hdirect change snapshot ids hi
  | finish => exact hdirect change snapshot ids hi
  | change h =>
      simp only [State.setCaller, Function.update_apply] at hi
      grind
  | call h hcaller =>
      simp only [State.setCaller, Function.update_apply] at hi
      grind
  | takeDirect h =>
      have hknown := law.known i
      simp only [State.setCaller, State.snapshot, Function.update_apply] at hi
      grind [Caller.change?]
  | sendDirect h =>
      simp only [State.setCaller, Function.update_apply] at hi
      grind
  | mark h =>
      simp only [State.setCaller, Function.update_apply] at hi
      grind
  | schedule h =>
      simp only [State.setCaller, State.setFlush, Function.update_apply] at hi
      grind

/-- What was owed stays owed while calls and the membership change. -/
theorem Due.of_eq {change : ℕ} (due : Due s change) (hflush : s'.flush = s.flush)
    (hpending : s'.pending = s.pending) : Due s' change := by
  cases due with
  | dirty h hdirty => exact .dirty (hpending.trans h) hdirty
  | sleeping h => exact .sleeping ((congrFun hflush _).trans h)
  | taking h => exact .taking ((congrFun hflush _).trans h)
  | sending h hchange => exact .sending ((congrFun hflush _).trans h) hchange

theorem owed_step (flush : FlushLaw s) (law : RequestLaw s) (effect : Effect threshold s e s')
    (heard : Heard ⟨s, e, s'⟩) {i change : ℕ} (hi : s'.caller i = .requested change) :
    Served s' change ∨ Due s' change := by
  have howed := law.owed i change
  cases effect with
  | membership => exact (howed hi).imp_right fun due => due.of_eq rfl rfl
  | @change j sessionId member h =>
      have hij : i ≠ j := by
        rintro rfl
        simp [State.setCaller] at hi
      simp only [State.setCaller, Function.update_of_ne hij] at hi
      exact (howed hi).imp_right fun due => due.of_eq rfl rfl
  | @call j k caller h hcaller =>
      have hij : i ≠ j := by
        rintro rfl
        simp only [State.setCaller, Function.update_self] at hi
        rcases hcaller with ⟨-, hempty⟩ | ⟨rfl, -⟩ | rfl
        · exact heard (List.isEmpty_iff.mp hempty)
        · cases hi
        · cases hi
      simp only [State.setCaller, Function.update_of_ne hij] at hi
      exact (howed hi).imp_right fun due => due.of_eq rfl rfl
  | @takeDirect j k ids h =>
      have hij : i ≠ j := by
        rintro rfl
        simp [State.setCaller] at hi
      simp only [State.setCaller, Function.update_of_ne hij] at hi
      exact (howed hi).imp_right fun due => due.of_eq rfl rfl
  | @sendDirect j k snapshot sid ids h =>
      by_cases hij : i = j
      · -- the call has sent its own snapshot
        have hk : k = change := by
          simp only [State.setCaller, hij, Function.update_self] at hi
          split at hi
          · cases hi
            rfl
          · cases hi
        subst hk
        exact .inl ⟨(sid, snapshot), List.mem_append_right _ List.mem_cons_self,
          law.direct j k snapshot _ h⟩
      · simp only [State.setCaller, Function.update_of_ne hij] at hi
        rcases howed hi with ⟨x, hx, hchange⟩ | due
        · exact .inl ⟨x, List.mem_append_left _ hx, hchange⟩
        · exact .inr (due.of_eq rfl rfl)
  | mark => exact .inr (.dirty rfl rfl)
  | @schedule j k h => exact .inr (.sleeping (Function.update_self j _ s.flush))
  | @wake j h =>
      have hids : s.sessionIds.isEmpty = false := by
        rw [List.isEmpty_eq_false_iff]
        exact heard
      have hj : (if s.sessionIds.isEmpty then Flush.settling else .taking s.sessionIds) =
          (.taking s.sessionIds : Flush M) := by
        rw [hids]
        rfl
      exact .inr (.taking ((Function.update_self j _ s.flush).trans hj))
  | @takeFlush j ids h =>
      exact .inr (.sending (Function.update_self j _ s.flush)
        (law.known i change (congrArg Caller.change? hi)))
  | @sendFlush j snapshot sid ids h =>
      have hne : ∀ k f, s.flush k = f → f ≠ .sending snapshot (sid :: ids) → k ≠ j := by
        rintro k f hk hf rfl
        exact hf (hk.symm.trans h)
      rcases howed hi with ⟨x, hx, hchange⟩ | due
      · exact .inl ⟨x, List.mem_append_left _ hx, hchange⟩
      · cases due with
        | dirty hpending hdirty => exact .inr (.dirty hpending hdirty)
        | sleeping hk =>
            exact .inr (.sleeping ((Function.update_of_ne (hne _ _ hk (by simp)) _ _).trans hk))
        | taking hk =>
            exact .inr (.taking ((Function.update_of_ne (hne _ _ hk (by simp)) _ _).trans hk))
        | @sending k taken ids' hk hchange =>
            -- the one loop that sends
            have hkj := flush.one k j (congrArg Flush.active hk) (congrArg Flush.active h)
            rw [hkj, h] at hk
            cases hk
            exact .inl ⟨(sid, snapshot), List.mem_append_right _ List.mem_cons_self, hchange⟩
  | @again j entry h => exact .inr (.sleeping (Function.update_self j _ s.flush))
  | @finish j h hclean =>
      have hne : ∀ k f, s.flush k = f → f ≠ .settling → k ≠ j := by
        rintro k f hk hf rfl
        exact hf (hk.symm.trans h)
      refine (howed hi).imp_right fun due => ?_
      cases due with
      | @dirty entry hpending hdirty =>
          rw [hclean entry hpending] at hdirty
          cases hdirty
      | sleeping hk => exact .sleeping ((Function.update_of_ne (hne _ _ hk (by simp)) _ _).trans hk)
      | taking hk => exact .taking ((Function.update_of_ne (hne _ _ hk (by simp)) _ _).trans hk)
      | sending hk hchange =>
          exact .sending ((Function.update_of_ne (hne _ _ hk (by simp)) _ _).trans hk) hchange

theorem RequestLaw.step (flush : FlushLaw s) (law : RequestLaw s)
    (effect : Effect threshold s e s') (heard : Heard ⟨s, e, s'⟩) : RequestLaw s' := by
  refine ⟨fun i change hi => ?_, fun _ _ _ _ hi => direct_step law effect hi,
    fun _ _ hi => owed_step flush law effect heard hi⟩
  obtain ⟨hle, hkeep | hnew⟩ := change_of_effect effect i
  · exact (law.known i change (hkeep ▸ hi)).trans hle
  · rw [hnew] at hi
    cases hi
    exact le_rfl

/-! ### The snapshots sent -/

/-- No snapshot was sent after a newer one. -/
def Ordered (s : State M) : Prop := (s.sent.map fun x => x.2.takenAt).Pairwise (· ≤ ·)

theorem Ordered.append {x : String × Snapshot M} {sent : List (String × Snapshot M)}
    (h : (sent.map fun x => x.2.takenAt).Pairwise (· ≤ ·))
    (hx : ∀ y ∈ sent, y.2.takenAt ≤ x.2.takenAt) :
    ((sent ++ [x]).map fun x => x.2.takenAt).Pairwise (· ≤ ·) := by
  rw [List.map_append, List.pairwise_append]
  refine ⟨h, List.pairwise_singleton _ _, fun a ha b hb => ?_⟩
  obtain ⟨y, hy, rfl⟩ := List.mem_map.mp ha
  rw [List.map_singleton, List.mem_singleton] at hb
  exact hb ▸ hx y hy

theorem Ordered.step (h : Ordered s) (effect : Effect threshold s e s')
    (order : InOrder ⟨s, e, s'⟩) : Ordered s' := by
  cases effect with
  | sendDirect hi => exact Ordered.append h (order _ _ _ hi)
  | sendFlush hi => exact Ordered.append h (order _ _ hi)
  | _ => exact h

/-- The last snapshot sent is no older than any other. -/
theorem Ordered.served (h : Ordered s) {change : ℕ} (served : Served s change) :
    ∃ x, s.sent.getLast? = some x ∧ change ≤ x.2.takenAt := by
  obtain ⟨y, hy, hchange⟩ := served
  unfold Ordered at h
  rcases List.eq_nil_or_concat' s.sent with hnil | ⟨sent, x, hsent⟩
  · rw [hnil] at hy
    cases hy
  · rw [hsent] at h hy ⊢
    refine ⟨x, by simp, ?_⟩
    rw [List.map_append, List.pairwise_append] at h
    rcases List.mem_append.mp hy with hy | hy
    · exact hchange.trans (h.2.2 _ (List.mem_map_of_mem hy) _ (by simp))
    · rw [List.mem_singleton.mp hy] at hchange
      exact hchange

variable {sessionIds : List String} {members : StrMap M}
  {ts : List (Transition (State M) (Event M))}

/-- **The broadcast loses no update** when its snapshots are sent in order and somebody hears
them: at rest, the last snapshot sent covers each request. -/
theorem status_broadcast_covers (run : Run (step threshold) (.init sessionIds members) ts s) :
    (∀ i j, (s.flush i).active = true → (s.flush j).active = true → i = j) ∧
      ((∀ t ∈ ts, Heard t ∧ InOrder t) → (∀ i, (s.flush i).active = false) →
        ∀ i change, s.caller i = .requested change →
          ∃ x, s.sent.getLast? = some x ∧ change ≤ x.2.takenAt) := by
  refine ⟨(one_flush run).one, fun hts hrest i change hi => ?_⟩
  have hlaw : FlushLaw s ∧ RequestLaw s ∧ Ordered s := by
    have hinit : Run (step threshold) (.init sessionIds members) [] _ := .nil _
    refine run.preserves (P := fun s => FlushLaw s ∧ RequestLaw s ∧ Ordered s) ?_
      ⟨one_flush hinit, ⟨?_, ?_, ?_⟩, .nil⟩
    · rintro t ht hs ⟨hflush, hrequest, hordered⟩
      have effect := effect_of_step hs
      exact ⟨hflush.step effect, hrequest.step hflush effect (hts t ht).1,
        hordered.step effect (hts t ht).2⟩
    · rintro _ _ ⟨⟩
    · rintro _ _ _ _ ⟨⟩
    · rintro _ _ ⟨⟩
  obtain ⟨hflush, hrequest, hordered⟩ := hlaw
  -- at rest nothing is due
  have hidle : ∀ {j : ℕ}, ¬ (s.flush j).active = true := fun {j} h => by
    rw [hrest j] at h
    cases h
  rcases hrequest.owed i change hi with served | due
  · exact hordered.served served
  · cases due with
    | dirty h =>
        obtain ⟨j, hj⟩ := hflush.alive (h ▸ rfl)
        exact absurd hj hidle
    | sleeping h => exact absurd (congrArg Flush.active h) hidle
    | taking h => exact absurd (congrArg Flush.active h) hidle
    | sending h => exact absurd (congrArg Flush.active h) hidle

/-! ### Debounced broadcasts -/

/-- What was sent is no newer than what the loop is sending, or will take. -/
structure FlushOrder (s : State M) : Prop where
  past : ∀ x ∈ s.sent, x.2.takenAt ≤ s.changes
  sending : ∀ i snapshot ids, s.flush i = .sending snapshot ids →
    snapshot.takenAt ≤ s.changes ∧ ∀ x ∈ s.sent, x.2.takenAt ≤ snapshot.takenAt

/-- A step that sends nothing itself, as the call does in a small swarm. -/
def Debounced (t : Transition (State M) (Event M)) : Prop := ∀ i, t.event ≠ .sendDirect i

theorem FlushOrder.step (flush : FlushLaw s) (order : FlushOrder s)
    (effect : Effect threshold s e s') (debounced : Debounced ⟨s, e, s'⟩) : FlushOrder s' := by
  obtain ⟨hpast, hsending⟩ := order
  -- a loop that does not send leaves the others as they are
  have hkeep : ∀ {j : ℕ} {flush : Flush M}, (∀ snapshot ids, flush ≠ .sending snapshot ids) →
      ∀ i snapshot ids, Function.update s.flush j flush i = .sending snapshot ids →
        snapshot.takenAt ≤ s.changes ∧ ∀ x ∈ s.sent, x.2.takenAt ≤ snapshot.takenAt := by
    intro j flush hflush i snapshot ids hi
    by_cases hij : i = j
    · rw [hij, Function.update_self] at hi
      exact absurd hi (hflush snapshot ids)
    · rw [Function.update_of_ne hij] at hi
      exact hsending i snapshot ids hi
  cases effect with
  | membership => exact ⟨hpast, hsending⟩
  | change =>
      refine ⟨fun x hx => (hpast x hx).trans (Nat.le_succ _), fun i snapshot ids hi => ?_⟩
      obtain ⟨hle, hall⟩ := hsending i snapshot ids hi
      exact ⟨hle.trans (Nat.le_succ _), hall⟩
  | call => exact ⟨hpast, hsending⟩
  | takeDirect => exact ⟨hpast, hsending⟩
  | @sendDirect i => exact absurd rfl (debounced i)
  | mark => exact ⟨hpast, hsending⟩
  | schedule => exact ⟨hpast, hkeep (by rintro _ _ ⟨⟩)⟩
  | wake =>
      refine ⟨hpast, hkeep fun snapshot ids => ?_⟩
      split <;> rintro ⟨⟩
  | @takeFlush j ids h =>
      refine ⟨hpast, fun i snapshot ids hi => ?_⟩
      by_cases hij : i = j
      · simp only [State.setFlush, hij, Function.update_self] at hi
        cases hi
        exact ⟨le_rfl, hpast⟩
      · simp only [State.setFlush, Function.update_of_ne hij] at hi
        exact hsending i snapshot ids hi
  | @sendFlush j snapshot sid ids h =>
      obtain ⟨hle, hall⟩ := hsending j snapshot _ h
      have hsent : ∀ x ∈ s.sent ++ [(sid, snapshot)], x.2.takenAt ≤ snapshot.takenAt := by
        intro x hx
        rcases List.mem_append.mp hx with hx | hx
        · exact hall x hx
        · rw [List.mem_singleton.mp hx]
      refine ⟨fun x hx => (hsent x hx).trans hle, fun i taken ids' hi => ?_⟩
      by_cases hij : i = j
      · simp only [State.setFlush, hij, Function.update_self] at hi
        split at hi
        · cases hi
        · cases hi
          exact ⟨hle, hsent⟩
      · -- one loop sends at a time
        simp only [State.setFlush, Function.update_of_ne hij] at hi
        exact absurd (flush.one i j (congrArg Flush.active hi) (congrArg Flush.active h)) hij
  | again => exact ⟨hpast, hkeep (by rintro _ _ ⟨⟩)⟩
  | finish => exact ⟨hpast, hkeep (by rintro _ _ ⟨⟩)⟩

/-- Without direct broadcasts, the snapshots are sent in order. -/
theorem inOrder_of_debounced (run : Run (step threshold) (.init sessionIds members) ts s)
    (hts : ∀ t ∈ ts, Debounced t) : ∀ t ∈ ts, InOrder t := by
  intro t ht
  have hinit : Run (step threshold) (.init sessionIds members) [] _ := .nil _
  have hlaw := run.before_of (P := fun s => FlushLaw s ∧ FlushOrder s)
    (fun t ht hs law => ⟨law.1.step (effect_of_step hs),
      law.2.step law.1 (effect_of_step hs) (hts t ht)⟩)
    ⟨one_flush hinit, ⟨by rintro _ ⟨⟩, by rintro _ _ _ ⟨⟩⟩⟩ ht
  have hdebounced := hts t ht
  unfold InOrder
  split
  · rename_i i he
    exact absurd he (hdebounced i)
  · exact fun snapshot ids hi => (hlaw.2.sending _ snapshot ids hi).2
  · trivial

end Threshold

/-- A request that comes while the flush sends. -/
def joined : List (Event String) :=
  [.change 0 "worker" "ready", .call 0, .enqueue 0, .wake 0, .takeFlush 0,
    .change 1 "worker" "running", .call 1, .enqueue 1, .sendFlush 0, .sendFlush 0, .settle 0,
    .wake 0, .takeFlush 0, .sendFlush 0, .sendFlush 0, .settle 0]

theorem status_broadcast_covers_joined : ∃ ts s,
    Run (step 2) (State.init ["lead", "worker"] (StrMap.empty.insert "worker" "spawned")) ts s ∧
      s.caller 1 = .requested 2 ∧ ∃ x, s.sent.getLast? = some x ∧ 2 ≤ x.2.takenAt := by
  have hexec : (exec (step 2) (State.init ["lead", "worker"]
        (StrMap.empty.insert "worker" "spawned")) joined).map
      (fun r => (r.1.map fun t => t.before.sessionIds, r.2.caller 1, r.2.pending)) =
        some (List.replicate 16 ["lead", "worker"], .requested 2, none) := rfl
  obtain ⟨ts, s, run, hes, hobs⟩ := Run.of_observed hexec
  obtain ⟨hids, hobs⟩ := Prod.mk.inj hobs
  obtain ⟨hcaller, hpending⟩ := Prod.mk.inj hobs
  have hrest : ∀ i, (s.flush i).active = false := fun i => by
    by_contra h
    have hsome := (one_flush run).active i (Bool.eq_true_of_not_eq_false h)
    rw [hpending] at hsome
    cases hsome
  have hheard : ∀ t ∈ ts, t.before.sessionIds ≠ [] := by
    intro t ht
    have hmem : t.before.sessionIds ∈ List.replicate 16 ["lead", "worker"] :=
      hids ▸ List.mem_map_of_mem ht
    rw [List.eq_of_mem_replicate hmem]
    simp
  have hdebounced : ∀ t ∈ ts, Debounced t := by
    intro t ht i he
    have hmem : Event.sendDirect i ∈ joined := he ▸ hes ▸ List.mem_map_of_mem ht
    simp [joined] at hmem
  refine ⟨ts, s, run, hcaller, (status_broadcast_covers run).2 (fun t ht => ⟨?_, ?_⟩) hrest 1 2
    hcaller⟩
  · have hids := hheard t ht
    unfold Heard
    split
    · exact hids
    · exact hids
    · trivial
  · exact inOrder_of_debounced run hdebounced t ht

/-- Two calls in a swarm of one. -/
def crossing : List (Event String) :=
  [.change 0 "worker" "ready", .call 0, .takeDirect 0, .change 1 "worker" "running", .call 1,
    .takeDirect 1, .sendDirect 1, .sendDirect 0]

/-- Two direct broadcasts overlap, and the older snapshot is the last one sent. -/
theorem direct_broadcasts_cross : ∃ ts s,
    Run (step 2) (State.init ["worker"] (StrMap.empty.insert "worker" "spawned")) ts s ∧
      (∀ i, (s.flush i).active = false) ∧ s.caller 1 = .requested 2 ∧
        ∃ x, s.sent.getLast? = some x ∧ x.2.takenAt < 2 :=
  ⟨_, _, (Run.of_exec (rfl : exec (step 2) _ crossing = some (_, _))).1, fun _ => rfl, rfl, _, rfl,
    Nat.lt_succ_self 1⟩

end Jcode.Swarm.Broadcast
