import Jcode.Support.Runs
import Jcode.Support.Text

/-!
# Memory — pending payloads

Each session has at most one memory payload that waits for its next turn.  `take_pending_memory`
takes it out, and discards it when it is old, when all its memories are known to the session, when
its prompt is that of the last payload, or when its memories are mostly those of the last payload.
What it compares with is kept in three records: the last signature, the last set and the injected
ids.

The signature is recorded when its own check has passed, before the memories are compared.

* `take_cases`: what a take does.
* `agree_apply_of_not_concerns`, `Agree.apply`: the sessions are apart.
* `injectedAt_apply`: what a call does to the times of injection.
-/

namespace Jcode.Memory
open Rust Runs

def MEMORY_REPEAT_SUPPRESSION_SECS : ℕ := 90
def MEMORY_SET_REPEAT_SUPPRESSION_SECS : ℕ := 180
def INJECTED_MEMORY_TTL_SECS : ℕ := 45 * 60

/-- `at.elapsed().as_secs()`, of instants in nanoseconds. -/
def elapsedSecs (now at_ : ℕ) : ℕ := (now - at_) / 1000000000

def injectedRecently (now at_ : ℕ) : Bool := decide (elapsedSecs now at_ < INJECTED_MEMORY_TTL_SECS)

theorem elapsedSecs_mono {now now' at_ at' : ℕ} (hnow : now ≤ now') (hat : at' ≤ at_) :
    elapsedSecs now at_ ≤ elapsedSecs now' at' :=
  Nat.div_le_div_right (tsub_le_tsub hnow hat)

/-- A pending memory result from async checking. -/
structure PendingMemory where
  prompt : String
  displayPrompt : Option String
  computedAt : ℕ
  count : ℕ
  memoryIds : List String
  deriving DecidableEq, Repr

def PendingMemory.isFresh (pending : PendingMemory) (now : ℕ) : Bool :=
  decide (elapsedSecs now pending.computedAt < 120)

/-- Two functions of the standard library: `str::to_lowercase`, and whether the quotient of two
counts, taken as `f32`, is at least `MEMORY_SET_OVERLAP_SUPPRESSION_RATIO`, which is `0.8`. -/
structure PendingEnv where
  toLowercase : String → String
  ratioReached : ℕ → ℕ → Bool

/-- The four maps by session. -/
structure PendingState where
  pending : StrMap PendingMemory
  lastSignature : StrMap (String × ℕ)
  lastSet : StrMap (Finset String × ℕ)
  injected : StrMap (StrMap ℕ)

def PendingState.initial : PendingState := ⟨.empty, .empty, .empty, .empty⟩

def memorySet (ids : List String) : Finset String := ids.toFinset

section
variable (env : PendingEnv)

def promptSignature (prompt : String) : String :=
  env.toLowercase (join "\n" (((lines prompt).map trim).filter fun line => line ≠ ""))

/-- `memory_overlap_ratio(left, right) >= MEMORY_SET_OVERLAP_SUPPRESSION_RATIO`. -/
def memoryOverlapReached (left right : Finset String) : Bool :=
  decide (left ≠ ∅) && decide (right ≠ ∅) &&
    env.ratioReached (left ∩ right).card (max left.card right.card)

namespace PendingState
variable (s : PendingState) (now : ℕ) (sessionId : String)

def isMemoryInjected (id : String) : Bool :=
  match s.injected.get sessionId with
  | some set => (set.get id).any (injectedRecently now)
  | none => false

def insertInjectedIds (ids : List String) : PendingState :=
  let set := ((s.injected.get sessionId).getD .empty).retain fun _ at_ => injectedRecently now at_
  { s with injected := s.injected.insert sessionId (ids.foldl (fun m id => m.insert id now) set) }

def markMemoriesInjected (ids : List String) : PendingState := s.insertInjectedIds now sessionId ids

def markMemoriesKnown (ids : List String) : PendingState :=
  if ids.isEmpty then s else s.insertInjectedIds now sessionId ids

def syncInjectedMemories (ids : List String) : PendingState :=
  if ids.isEmpty then { s with injected := s.injected.remove sessionId }
  else { s with injected := s.injected.insert sessionId (.collect (ids.map fun id => (id, now))) }

def clearInjectedMemories : PendingState :=
  { s with
    lastSignature := s.lastSignature.remove sessionId
    lastSet := s.lastSet.remove sessionId
    injected := s.injected.remove sessionId }

def clearAllInjectedMemories : PendingState :=
  { s with lastSignature := .empty, lastSet := .empty, injected := .empty }

def clearPendingMemory : PendingState :=
  clearInjectedMemories
    { s with
      pending := s.pending.remove sessionId
      lastSignature := s.lastSignature.remove sessionId
      lastSet := s.lastSet.remove sessionId } sessionId

def clearAllPendingMemory : PendingState :=
  clearAllInjectedMemories { s with pending := .empty, lastSignature := .empty, lastSet := .empty }

/-- `set_pending_memory_with_ids_and_display`, of which `set_pending_memory_with_ids` and
`set_pending_memory` are the calls without a display text and without ids. -/
def setPendingMemory (prompt : String) (count : ℕ) (memoryIds : List String)
    (displayPrompt : Option String) : PendingState :=
  let similar := (s.pending.get sessionId).any fun existing =>
    existing.isFresh now &&
      (promptSignature env existing.prompt == promptSignature env prompt ||
        memoryOverlapReached env (memorySet existing.memoryIds) (memorySet memoryIds))
  if similar then s
  else { s with pending := s.pending.insert sessionId ⟨prompt, displayPrompt, now, count, memoryIds⟩ }

/-- The last payload had this signature, a short while ago. -/
def isDuplicate (sig : String) : Bool :=
  (s.lastSignature.get sessionId).any fun last =>
    last.1 == sig && decide (elapsedSecs now last.2 < MEMORY_REPEAT_SUPPRESSION_SECS)

/-- The last payload had most of these memories, a while ago. -/
def isOverlapping (ids : List String) : Bool :=
  (s.lastSet.get sessionId).any fun last =>
    memoryOverlapReached env last.1 (memorySet ids) &&
      decide (elapsedSecs now last.2 < MEMORY_SET_REPEAT_SUPPRESSION_SECS)

/-- Every memory of a payload is known to the session. -/
def allKnown (ids : List String) : Bool :=
  !ids.isEmpty && ids.all (s.isMemoryInjected now sessionId)

end PendingState

/-- What `take_pending_memory` does with the payload: it returns it, or logs why it is discarded. -/
inductive Taken where
  | nothing | stale | known | duplicate | overlapping
  | returned (pending : PendingMemory)
  deriving DecidableEq, Repr

def Taken.result : Taken → Option PendingMemory
  | .returned pending => some pending
  | _ => none

def PendingState.takePendingMemory (s : PendingState) (now : ℕ) (sessionId : String) :
    Taken × PendingState :=
  match s.pending.get sessionId with
  | none => (.nothing, s)
  | some pending =>
      let s := { s with pending := s.pending.remove sessionId }
      if !pending.isFresh now then (.stale, s)
      else if s.allKnown now sessionId pending.memoryIds then (.known, s)
      else if s.isDuplicate now sessionId (promptSignature env pending.prompt) then (.duplicate, s)
      else
        -- recorded here, although the payload may still be discarded
        let s := { s with
          lastSignature :=
            s.lastSignature.insert sessionId (promptSignature env pending.prompt, now) }
        if pending.memoryIds.isEmpty then (.returned pending, s)
        else if s.isOverlapping env now sessionId pending.memoryIds then (.overlapping, s)
        else
          let s := { s with
            lastSet := s.lastSet.insert sessionId (memorySet pending.memoryIds, now) }
          (.returned pending, s.markMemoriesInjected now sessionId pending.memoryIds)

/-! ### The calls -/

inductive PendingOp where
  | set (sessionId prompt : String) (count : ℕ) (memoryIds : List String)
      (displayPrompt : Option String)
  | take (sessionId : String)
  | markInjected (sessionId : String) (ids : List String)
  | markKnown (sessionId : String) (ids : List String)
  | sync (sessionId : String) (ids : List String)
  | clearInjected (sessionId : String)
  | clearPending (sessionId : String)
  | clearAllInjected
  | clearAllPending
  deriving DecidableEq, Repr

/-- A call, and when it is made. -/
structure PendingCall where
  now : ℕ
  op : PendingOp
  deriving DecidableEq, Repr

def PendingState.apply (s : PendingState) (call : PendingCall) : PendingState :=
  match call.op with
  | .set sessionId prompt count ids display =>
      s.setPendingMemory env call.now sessionId prompt count ids display
  | .take sessionId => (s.takePendingMemory env call.now sessionId).2
  | .markInjected sessionId ids => s.markMemoriesInjected call.now sessionId ids
  | .markKnown sessionId ids => s.markMemoriesKnown call.now sessionId ids
  | .sync sessionId ids => s.syncInjectedMemories call.now sessionId ids
  | .clearInjected sessionId => s.clearInjectedMemories sessionId
  | .clearPending sessionId => s.clearPendingMemory sessionId
  | .clearAllInjected => s.clearAllInjectedMemories
  | .clearAllPending => s.clearAllPendingMemory

/-- The state, and when the last call was made. -/
structure PendingClock where
  clock : ℕ
  state : PendingState

/-- A call is made no earlier than the last. -/
def PendingClock.step (s : PendingClock) (call : PendingCall) : Option PendingClock :=
  if s.clock ≤ call.now then some ⟨call.now, s.state.apply env call⟩ else none

end

/-! ### One call -/

section
variable {env : PendingEnv} {s s' : PendingState} {now : ℕ} {sessionId : String}

namespace PendingState

/-- The payload is taken out. -/
def takenOut (s : PendingState) (sessionId : String) : PendingState :=
  { s with pending := s.pending.remove sessionId }

/-- The payload is taken out and its signature recorded. -/
def signed (env : PendingEnv) (s : PendingState) (now : ℕ) (sessionId : String)
    (pending : PendingMemory) : PendingState :=
  { s.takenOut sessionId with
    lastSignature := s.lastSignature.insert sessionId (promptSignature env pending.prompt, now) }

/-- The payload is taken out and all of it recorded. -/
def delivered (env : PendingEnv) (s : PendingState) (now : ℕ) (sessionId : String)
    (pending : PendingMemory) : PendingState :=
  if pending.memoryIds.isEmpty then s.signed env now sessionId pending
  else
    markMemoriesInjected
      { s.signed env now sessionId pending with
        lastSet := s.lastSet.insert sessionId (memorySet pending.memoryIds, now) }
      now sessionId pending.memoryIds

theorem isOverlapping_nil : s.isOverlapping env now sessionId [] = false := by
  unfold isOverlapping
  cases s.lastSet.get sessionId <;> simp [memoryOverlapReached, memorySet]

/-- The checks read what the call found. -/
theorem take_of_pending {p : PendingMemory} (hp : s.pending.get sessionId = some p) :
    s.takePendingMemory env now sessionId =
      if !p.isFresh now then (.stale, s.takenOut sessionId)
      else if s.allKnown now sessionId p.memoryIds then (.known, s.takenOut sessionId)
      else if s.isDuplicate now sessionId (promptSignature env p.prompt) then
        (.duplicate, s.takenOut sessionId)
      else if s.isOverlapping env now sessionId p.memoryIds then
        (.overlapping, s.signed env now sessionId p)
      else (.returned p, s.delivered env now sessionId p) := by
  have hchecked : s.takePendingMemory env now sessionId =
      if !p.isFresh now then (.stale, s.takenOut sessionId)
      else if s.allKnown now sessionId p.memoryIds then (.known, s.takenOut sessionId)
      else if s.isDuplicate now sessionId (promptSignature env p.prompt) then
        (.duplicate, s.takenOut sessionId)
      else if p.memoryIds.isEmpty then (.returned p, s.signed env now sessionId p)
      else if s.isOverlapping env now sessionId p.memoryIds then
        (.overlapping, s.signed env now sessionId p)
      else
        (.returned p, markMemoriesInjected
          { s.signed env now sessionId p with
            lastSet := s.lastSet.insert sessionId (memorySet p.memoryIds, now) }
          now sessionId p.memoryIds) := by
    unfold takePendingMemory
    rw [hp]
    rfl
  rw [hchecked, delivered]
  cases hids : p.memoryIds with
  | nil => rw [isOverlapping_nil]; rfl
  | cons id ids => rfl

/-- What `take_pending_memory` does, in six cases. -/
theorem take_cases (env : PendingEnv) (s : PendingState) (now : ℕ) (sessionId : String) :
    (s.pending.get sessionId = none ∧ s.takePendingMemory env now sessionId = (.nothing, s)) ∨
    ∃ p, s.pending.get sessionId = some p ∧
      (p.isFresh now = false ∧
          s.takePendingMemory env now sessionId = (.stale, s.takenOut sessionId) ∨
        s.allKnown now sessionId p.memoryIds = true ∧
          s.takePendingMemory env now sessionId = (.known, s.takenOut sessionId) ∨
        p.isFresh now = true ∧ s.allKnown now sessionId p.memoryIds = false ∧
          (s.isDuplicate now sessionId (promptSignature env p.prompt) = true ∧
              s.takePendingMemory env now sessionId = (.duplicate, s.takenOut sessionId) ∨
            s.isDuplicate now sessionId (promptSignature env p.prompt) = false ∧
              (s.isOverlapping env now sessionId p.memoryIds = true ∧
                  s.takePendingMemory env now sessionId =
                    (.overlapping, s.signed env now sessionId p) ∨
                s.isOverlapping env now sessionId p.memoryIds = false ∧
                  s.takePendingMemory env now sessionId =
                    (.returned p, s.delivered env now sessionId p)))) := by
  cases hp : s.pending.get sessionId with
  | none =>
      unfold takePendingMemory
      rw [hp]
      exact .inl ⟨rfl, rfl⟩
  | some p =>
      refine .inr ⟨p, rfl, ?_⟩
      rw [take_of_pending hp]
      cases p.isFresh now with
      | false => exact .inl ⟨rfl, rfl⟩
      | true =>
          refine .inr ?_
          cases s.allKnown now sessionId p.memoryIds with
          | true => exact .inl ⟨rfl, rfl⟩
          | false =>
              refine .inr ⟨rfl, rfl, ?_⟩
              cases s.isDuplicate now sessionId (promptSignature env p.prompt) with
              | true => exact .inl ⟨rfl, rfl⟩
              | false =>
                  refine .inr ⟨rfl, ?_⟩
                  cases s.isOverlapping env now sessionId p.memoryIds with
                  | true => exact .inl ⟨rfl, rfl⟩
                  | false => exact .inr ⟨rfl, rfl⟩

/-! #### The sessions are apart -/

/-- The four maps have the same entries for a session. -/
structure Agree (sessionId : String) (s s' : PendingState) : Prop where
  pending : s.pending.get sessionId = s'.pending.get sessionId
  lastSignature : s.lastSignature.get sessionId = s'.lastSignature.get sessionId
  lastSet : s.lastSet.get sessionId = s'.lastSet.get sessionId
  injected : s.injected.get sessionId = s'.injected.get sessionId

theorem Agree.refl (sessionId : String) (s : PendingState) : Agree sessionId s s :=
  ⟨rfl, rfl, rfl, rfl⟩

theorem Agree.symm (h : Agree sessionId s s') : Agree sessionId s' s :=
  ⟨h.pending.symm, h.lastSignature.symm, h.lastSet.symm, h.injected.symm⟩

theorem Agree.trans {s'' : PendingState} (h : Agree sessionId s s') (h' : Agree sessionId s' s'') :
    Agree sessionId s s'' :=
  ⟨h.pending.trans h'.pending, h.lastSignature.trans h'.lastSignature, h.lastSet.trans h'.lastSet,
    h.injected.trans h'.injected⟩

end PendingState

/-- The sessions a call is about. -/
def PendingOp.Concerns (sessionId : String) : PendingOp → Prop
  | .set id .. | .take id | .markInjected id _ | .markKnown id _ | .sync id _ | .clearInjected id
  | .clearPending id => id = sessionId
  | .clearAllInjected | .clearAllPending => True

instance : ∀ op : PendingOp, Decidable (op.Concerns sessionId)
  | .set id .. | .take id | .markInjected id _ | .markKnown id _ | .sync id _ | .clearInjected id
  | .clearPending id => inferInstanceAs (Decidable (id = sessionId))
  | .clearAllInjected | .clearAllPending => inferInstanceAs (Decidable True)

namespace PendingState

theorem agree_delivered {other : String} {p : PendingMemory} (h : sessionId ≠ other) :
    Agree sessionId s (s.delivered env now other p) := by
  unfold delivered
  split <;> constructor <;>
    simp [signed, takenOut, markMemoriesInjected, insertInjectedIds, StrMap.get_insert,
      StrMap.get_remove, h]

/-- **A call on one session leaves the entries of another alone.** -/
theorem agree_apply_of_not_concerns {call : PendingCall} (h : ¬ call.op.Concerns sessionId) :
    Agree sessionId s (s.apply env call) := by
  obtain ⟨now, op⟩ := call
  cases op with
  | set other prompt count ids display =>
      have hne : sessionId ≠ other := fun heq => h heq.symm
      simp only [apply, setPendingMemory]
      split <;> constructor <;> simp [StrMap.get_insert, hne]
  | take other =>
      have hne : sessionId ≠ other := fun heq => h heq.symm
      have hout : Agree sessionId s (s.takenOut other) := by
        constructor <;> simp [takenOut, StrMap.get_remove, hne]
      have hsigned : ∀ p, Agree sessionId s (s.signed env now other p) := by
        intro p
        constructor <;> simp [signed, takenOut, StrMap.get_remove, StrMap.get_insert, hne]
      simp only [apply]
      obtain ⟨_, heq⟩ | ⟨p, _, hcases⟩ := take_cases env s now other
      · rw [heq]
        exact .refl _ _
      · obtain ⟨_, heq⟩ | ⟨_, heq⟩ | ⟨_, _, ⟨_, heq⟩ | ⟨_, ⟨_, heq⟩ | ⟨_, heq⟩⟩⟩ := hcases
        · rw [heq]; exact hout
        · rw [heq]; exact hout
        · rw [heq]; exact hout
        · rw [heq]; exact hsigned p
        · rw [heq]; exact agree_delivered hne
  | markInjected other ids =>
      have hne : sessionId ≠ other := fun heq => h heq.symm
      constructor <;> simp [apply, markMemoriesInjected, insertInjectedIds, StrMap.get_insert, hne]
  | markKnown other ids =>
      have hne : sessionId ≠ other := fun heq => h heq.symm
      simp only [apply, markMemoriesKnown]
      split <;> constructor <;> simp [insertInjectedIds, StrMap.get_insert, hne]
  | sync other ids =>
      have hne : sessionId ≠ other := fun heq => h heq.symm
      simp only [apply, syncInjectedMemories]
      split <;> constructor <;> simp [StrMap.get_insert, StrMap.get_remove, hne]
  | clearInjected other =>
      have hne : sessionId ≠ other := fun heq => h heq.symm
      constructor <;> simp [apply, clearInjectedMemories, StrMap.get_remove, hne]
  | clearPending other =>
      have hne : sessionId ≠ other := fun heq => h heq.symm
      constructor <;> simp [apply, clearPendingMemory, clearInjectedMemories, StrMap.get_remove, hne]
  | clearAllInjected => exact absurd trivial h
  | clearAllPending => exact absurd trivial h

/-- A take reads the entries of its session. -/
theorem Agree.take (h : Agree sessionId s s') :
    (s.takePendingMemory env now sessionId).1 = (s'.takePendingMemory env now sessionId).1 ∧
      Agree sessionId (s.takePendingMemory env now sessionId).2
        (s'.takePendingMemory env now sessionId).2 := by
  have hout : Agree sessionId (s.takenOut sessionId) (s'.takenOut sessionId) :=
    ⟨by simp [takenOut, StrMap.get_remove], h.lastSignature, h.lastSet, h.injected⟩
  have hsigned : ∀ p, Agree sessionId (s.signed env now sessionId p) (s'.signed env now sessionId p) :=
    fun p => ⟨hout.pending, by simp [signed], h.lastSet, h.injected⟩
  have hdelivered : ∀ p,
      Agree sessionId (s.delivered env now sessionId p) (s'.delivered env now sessionId p) := by
    intro p
    unfold delivered
    split
    · exact hsigned p
    · refine ⟨(hsigned p).pending, (hsigned p).lastSignature, by simp [markMemoriesInjected,
        insertInjectedIds], ?_⟩
      simp only [markMemoriesInjected, insertInjectedIds, StrMap.get_insert_self, signed, takenOut]
      rw [h.injected]
  cases hp : s.pending.get sessionId with
  | none =>
      have hp' : s'.pending.get sessionId = none := h.pending ▸ hp
      unfold takePendingMemory
      rw [hp, hp']
      exact ⟨rfl, h⟩
  | some p =>
      have hp' : s'.pending.get sessionId = some p := h.pending ▸ hp
      have hknown : s.allKnown now sessionId p.memoryIds = s'.allKnown now sessionId p.memoryIds := by
        unfold allKnown isMemoryInjected
        rw [h.injected]
      have hduplicate : s.isDuplicate now sessionId (promptSignature env p.prompt) =
          s'.isDuplicate now sessionId (promptSignature env p.prompt) := by
        unfold isDuplicate
        rw [h.lastSignature]
      have hoverlap : s.isOverlapping env now sessionId p.memoryIds =
          s'.isOverlapping env now sessionId p.memoryIds := by
        unfold isOverlapping
        rw [h.lastSet]
      rw [take_of_pending hp, take_of_pending hp', hknown, hduplicate, hoverlap]
      split
      · exact ⟨rfl, hout⟩
      · split
        · exact ⟨rfl, hout⟩
        · split
          · exact ⟨rfl, hout⟩
          · split
            · exact ⟨rfl, hsigned p⟩
            · exact ⟨rfl, hdelivered p⟩

/-- A call reads and writes the entries of a session alike. -/
theorem Agree.apply {call : PendingCall} (h : Agree sessionId s s') :
    Agree sessionId (s.apply env call) (s'.apply env call) := by
  by_cases hcall : call.op.Concerns sessionId
  · obtain ⟨now, op⟩ := call
    have hinsert : ∀ ids, Agree sessionId (s.insertInjectedIds now sessionId ids)
        (s'.insertInjectedIds now sessionId ids) := fun ids =>
      ⟨h.pending, h.lastSignature, h.lastSet, by simp [insertInjectedIds, h.injected]⟩
    cases op with
    | set other prompt count ids display =>
        obtain rfl : other = sessionId := hcall
        simp only [PendingState.apply, setPendingMemory]
        rw [h.pending]
        split
        · exact h
        · exact ⟨by simp, h.lastSignature, h.lastSet, h.injected⟩
    | take other =>
        obtain rfl : other = sessionId := hcall
        exact h.take.2
    | markInjected other ids =>
        obtain rfl : other = sessionId := hcall
        exact hinsert ids
    | markKnown other ids =>
        obtain rfl : other = sessionId := hcall
        simp only [PendingState.apply, markMemoriesKnown]
        split
        · exact h
        · exact hinsert ids
    | sync other ids =>
        obtain rfl : other = sessionId := hcall
        simp only [PendingState.apply, syncInjectedMemories]
        split
        · exact ⟨h.pending, h.lastSignature, h.lastSet, by simp [StrMap.get_remove]⟩
        · exact ⟨h.pending, h.lastSignature, h.lastSet, by simp⟩
    | clearInjected other =>
        obtain rfl : other = sessionId := hcall
        constructor <;> simp [PendingState.apply, clearInjectedMemories, StrMap.get_remove, h.pending]
    | clearPending other =>
        obtain rfl : other = sessionId := hcall
        constructor <;>
          simp [PendingState.apply, clearPendingMemory, clearInjectedMemories, StrMap.get_remove]
    | clearAllInjected => exact ⟨h.pending, rfl, rfl, rfl⟩
    | clearAllPending => exact ⟨rfl, rfl, rfl, rfl⟩
  · have hs : Agree sessionId s (s.apply env call) := agree_apply_of_not_concerns hcall
    have hs' : Agree sessionId s' (s'.apply env call) := agree_apply_of_not_concerns hcall
    exact hs.symm.trans (h.trans hs')

/-! #### The times of injection -/

/-- When a memory was injected into a session, as recorded. -/
def injectedAt (s : PendingState) (sessionId id : String) : Option ℕ :=
  (s.injected.get sessionId).bind fun set => set.get id

theorem isMemoryInjected_eq {id : String} :
    s.isMemoryInjected now sessionId id = (s.injectedAt sessionId id).any (injectedRecently now) := by
  unfold isMemoryInjected injectedAt
  cases s.injected.get sessionId <;> rfl

omit env s s' sessionId in
theorem get_foldl_insert (ids : List String) (m : StrMap ℕ) (id : String) :
    (ids.foldl (fun m id => m.insert id now) m).get id =
      if id ∈ ids then some now else m.get id := by
  induction ids generalizing m with
  | nil => simp
  | cons k ids ih =>
      rw [List.foldl_cons, ih, StrMap.get_insert]
      by_cases hids : id ∈ ids
      · rw [if_pos hids, if_pos (List.mem_cons_of_mem _ hids)]
      · simp [hids]

theorem injectedAt_insertInjectedIds {ids : List String} {id : String} :
    (s.insertInjectedIds now sessionId ids).injectedAt sessionId id =
      if id ∈ ids then some now
      else (s.injectedAt sessionId id).filter fun at_ => injectedRecently now at_ := by
  unfold injectedAt insertInjectedIds
  rw [StrMap.get_insert_self, Option.bind_some, get_foldl_insert]
  cases s.injected.get sessionId <;> rfl

theorem injectedAt_syncInjectedMemories {ids : List String} {id : String} :
    (s.syncInjectedMemories now sessionId ids).injectedAt sessionId id =
      if id ∈ ids then some now else none := by
  unfold syncInjectedMemories injectedAt
  cases ids with
  | nil => simp [StrMap.get_remove]
  | cons k ids =>
      have hcollect : (StrMap.collect ((k :: ids).map fun id => (id, now))).get id =
          if id ∈ k :: ids then some now else none := by
        rw [StrMap.collect, List.foldl_map]
        exact get_foldl_insert (k :: ids) .empty id
      simpa using hcollect

end PendingState

/-- A call writes these ids of a session as injected, if the payload it takes is the given one. -/
def PendingOp.Injects (sessionId id : String) (taken : Option PendingMemory) : PendingOp → Prop
  | .take other => other = sessionId ∧ ∃ p, taken = some p ∧ id ∈ p.memoryIds
  | .markInjected other ids | .markKnown other ids | .sync other ids => other = sessionId ∧ id ∈ ids
  | _ => False

/-- A call drops the ids of a session. -/
def PendingOp.Forgets (sessionId : String) : PendingOp → Prop
  | .sync other _ | .clearInjected other | .clearPending other => other = sessionId
  | .clearAllInjected | .clearAllPending => True
  | _ => False

/-- The payload that a call returns. -/
def PendingState.taken (env : PendingEnv) (s : PendingState) (call : PendingCall) :
    Option PendingMemory :=
  match call.op with
  | .take sessionId => (s.takePendingMemory env call.now sessionId).1.result
  | _ => none

namespace PendingState

theorem injectedAt_delivered {p : PendingMemory} {id : String} :
    (s.delivered env now sessionId p).injectedAt sessionId id =
      if id ∈ p.memoryIds then some now
      else if p.memoryIds = [] then s.injectedAt sessionId id
      else (s.injectedAt sessionId id).filter fun at_ => injectedRecently now at_ := by
  unfold delivered
  cases hids : p.memoryIds with
  | nil => simp [signed, takenOut, injectedAt]
  | cons k ids =>
      simp only [List.isEmpty_cons, Bool.false_eq_true, if_false, reduceCtorEq]
      exact injectedAt_insertInjectedIds

/-- **The times of injection.**  A call that injects a memory writes the time; another leaves the time
of a recent injection, unless it drops the ids of the session. -/
theorem injectedAt_apply {call : PendingCall} {id : String} :
    (call.op.Injects sessionId id (s.taken env call) →
      (s.apply env call).injectedAt sessionId id = some call.now) ∧
    (¬ call.op.Forgets sessionId → ∀ at_, s.injectedAt sessionId id = some at_ →
      injectedRecently call.now at_ = true →
      (s.apply env call).injectedAt sessionId id = some call.now ∨
        (s.apply env call).injectedAt sessionId id = some at_) := by
  by_cases hconcerns : call.op.Concerns sessionId
  · obtain ⟨now, op⟩ := call
    have hinsert : ∀ ids,
        (id ∈ ids → (s.insertInjectedIds now sessionId ids).injectedAt sessionId id = some now) ∧
        ∀ at_, s.injectedAt sessionId id = some at_ → injectedRecently now at_ = true →
          (s.insertInjectedIds now sessionId ids).injectedAt sessionId id = some now ∨
            (s.insertInjectedIds now sessionId ids).injectedAt sessionId id = some at_ := by
      intro ids
      rw [injectedAt_insertInjectedIds]
      refine ⟨fun hmem => if_pos hmem, fun at_ hat hrecent => ?_⟩
      split
      · exact .inl rfl
      · exact .inr (by rw [hat, Option.filter_some, if_pos hrecent])
    cases op with
    | set other prompt count ids display =>
        refine ⟨False.elim, fun _ at_ hat _ => .inr ?_⟩
        simp only [apply, setPendingMemory]
        split <;> exact hat
    | take other =>
        obtain rfl : other = sessionId := hconcerns
        have hunlessReturned : ∀ {out : Taken} {s' : PendingState},
            s.takePendingMemory env now other = (out, s') → out.result = none →
            s'.injected = s.injected →
            (PendingOp.Injects other id (s.taken env ⟨now, .take other⟩) (.take other) →
              (s.apply env ⟨now, .take other⟩).injectedAt other id = some now) ∧
            (¬ PendingOp.Forgets other (.take other) → ∀ at_, s.injectedAt other id = some at_ →
              injectedRecently now at_ = true →
              (s.apply env ⟨now, .take other⟩).injectedAt other id = some now ∨
                (s.apply env ⟨now, .take other⟩).injectedAt other id = some at_) := by
          intro out s' heq hnone hinjected
          simp only [apply, taken, PendingOp.Injects, heq, hnone]
          have hsame : s'.injectedAt other id = s.injectedAt other id := by
            unfold injectedAt
            rw [hinjected]
          refine ⟨fun h => ?_, fun _ at_ hat _ => .inr (hsame.trans hat)⟩
          obtain ⟨_, _, hnone, _⟩ := h
          cases hnone
        obtain ⟨_, heq⟩ | ⟨p, _, hcases⟩ := take_cases env s now other
        · exact hunlessReturned heq rfl rfl
        · obtain ⟨_, heq⟩ | ⟨_, heq⟩ | ⟨_, _, ⟨_, heq⟩ | ⟨_, ⟨_, heq⟩ | ⟨_, heq⟩⟩⟩ := hcases
          · exact hunlessReturned heq rfl rfl
          · exact hunlessReturned heq rfl rfl
          · exact hunlessReturned heq rfl rfl
          · exact hunlessReturned heq rfl rfl
          · simp only [apply, taken, PendingOp.Injects, heq, Taken.result, injectedAt_delivered]
            refine ⟨fun ⟨_, q, hq, hmem⟩ => ?_, fun _ at_ hat hrecent => ?_⟩
            · obtain rfl := Option.some.inj hq
              exact if_pos hmem
            · split
              · exact .inl rfl
              · right
                split
                · exact hat
                · rw [hat, Option.filter_some, if_pos hrecent]
    | markInjected other ids =>
        obtain rfl : other = sessionId := hconcerns
        exact ⟨fun h => (hinsert ids).1 h.2, fun _ => (hinsert ids).2⟩
    | markKnown other ids =>
        obtain rfl : other = sessionId := hconcerns
        simp only [apply, markMemoriesKnown]
        cases ids with
        | nil => exact ⟨fun h => absurd h.2 List.not_mem_nil, fun _ at_ hat _ => .inr hat⟩
        | cons k ids => exact ⟨fun h => (hinsert _).1 h.2, fun _ => (hinsert _).2⟩
    | sync other ids =>
        obtain rfl : other = sessionId := hconcerns
        refine ⟨fun h => ?_, fun h => absurd rfl h⟩
        rw [apply, injectedAt_syncInjectedMemories, if_pos h.2]
    | clearInjected other => exact ⟨False.elim, fun h => absurd hconcerns h⟩
    | clearPending other => exact ⟨False.elim, fun h => absurd hconcerns h⟩
    | clearAllInjected => exact ⟨False.elim, fun h => absurd trivial h⟩
    | clearAllPending => exact ⟨False.elim, fun h => absurd trivial h⟩
  · have hagree : Agree sessionId s (s.apply env call) := agree_apply_of_not_concerns hconcerns
    have hsame : (s.apply env call).injectedAt sessionId id = s.injectedAt sessionId id := by
      unfold injectedAt
      rw [hagree.injected]
    refine ⟨fun h => ?_, fun _ at_ hat _ => .inr (hsame.trans hat)⟩
    obtain ⟨now, op⟩ := call
    cases op with
    | take other | markInjected other ids | markKnown other ids | sync other ids =>
        exact absurd h.1 hconcerns
    | set | clearInjected | clearPending | clearAllInjected | clearAllPending => exact h.elim

end PendingState
end

end Jcode.Memory
