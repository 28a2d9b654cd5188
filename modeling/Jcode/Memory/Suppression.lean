import Jcode.Memory.Pending

/-!
# Memory — suppression

What the records say of the payloads that were returned.  A take records the signature of its payload
before it compares the memories, and a payload that this comparison discards has left its signature:
for a while no payload with that prompt is returned, although none was.

* `DiscardsLate`: the comparison of the memories is the check that discards.
* `NoTrace`: what is to hold of a run: a discarded payload leaves the records alone, and what is
  suppressed is suppressed for a payload that was returned.
* `no_trace_iff`: it holds exactly of the runs in which no take discards late.
-/

namespace Jcode.Memory
open Rust Runs

section
variable {env : PendingEnv} {s s' : PendingState} {now : ℕ} {sessionId : String}

namespace PendingState

/-- The payload is fresh, it has an unknown memory and another prompt than the last, and its memories
are mostly those of the last. -/
def DiscardsLate (env : PendingEnv) (s : PendingState) (now : ℕ) (sessionId : String) : Prop :=
  ∃ p, s.pending.get sessionId = some p ∧ p.isFresh now = true ∧
    s.allKnown now sessionId p.memoryIds = false ∧
    s.isDuplicate now sessionId (promptSignature env p.prompt) = false ∧
    s.isOverlapping env now sessionId p.memoryIds = true

/-- The three records are the same. -/
structure SameRecords (s s' : PendingState) : Prop where
  lastSignature : s'.lastSignature = s.lastSignature
  lastSet : s'.lastSet = s.lastSet
  injected : s'.injected = s.injected

/-- **A take that returns nothing** leaves the records alone, unless it discards late. -/
theorem sameRecords_take_iff
    (hnone : (s.takePendingMemory env now sessionId).1.result = none) :
    SameRecords s (s.takePendingMemory env now sessionId).2 ↔ ¬ s.DiscardsLate env now sessionId := by
  have hkept : ∀ {out : Taken}, s.takePendingMemory env now sessionId = (out, s.takenOut sessionId) →
      SameRecords s (s.takePendingMemory env now sessionId).2 := by
    intro out heq
    rw [heq]
    exact ⟨rfl, rfl, rfl⟩
  obtain ⟨hp, heq⟩ | ⟨p, hp, hcases⟩ := take_cases env s now sessionId
  · refine iff_of_true (by rw [heq]; exact ⟨rfl, rfl, rfl⟩) fun ⟨p, hp', _⟩ => ?_
    rw [hp] at hp'
    cases hp'
  · have hlate : s.DiscardsLate env now sessionId ↔ p.isFresh now = true ∧
        s.allKnown now sessionId p.memoryIds = false ∧
        s.isDuplicate now sessionId (promptSignature env p.prompt) = false ∧
        s.isOverlapping env now sessionId p.memoryIds = true := by
      refine ⟨fun ⟨q, hq, h⟩ => ?_, fun h => ⟨p, hp, h⟩⟩
      obtain rfl := Option.some.inj (hp.symm.trans hq)
      exact h
    rw [hlate]
    obtain ⟨hstale, heq⟩ | ⟨hknown, heq⟩ | ⟨hfresh, hunknown, hcases⟩ := hcases
    · exact iff_of_true (hkept heq) fun h => by rw [hstale] at h; exact absurd h.1 nofun
    · exact iff_of_true (hkept heq) fun h => by rw [hknown] at h; exact absurd h.2.1 nofun
    obtain ⟨hdup, heq⟩ | ⟨hnew, ⟨hoverlap, heq⟩ | ⟨_, heq⟩⟩ := hcases
    · exact iff_of_true (hkept heq) fun h => by rw [hdup] at h; exact absurd h.2.2.1 nofun
    · refine iff_of_false (fun hsame => ?_) (not_not_intro ⟨hfresh, hunknown, hnew, hoverlap⟩)
      -- had the record been there, the payload would have been a duplicate
      have hsig := congrArg (fun m : StrMap (String × ℕ) => m.get sessionId) hsame.lastSignature
      simp only [heq, signed, StrMap.get_insert_self] at hsig
      rw [isDuplicate, ← hsig] at hnew
      simp [elapsedSecs, MEMORY_REPEAT_SUPPRESSION_SECS] at hnew
    · rw [heq] at hnone
      cases hnone

/-- **The last signature** is that of a payload that a take returned, or discarded late. -/
theorem lastSignature_apply {call : PendingCall} {last : String × ℕ}
    (h : (s.apply env call).lastSignature.get sessionId = some last) :
    s.lastSignature.get sessionId = some last ∨
      call.op = .take sessionId ∧ (s.DiscardsLate env call.now sessionId ∨
        ∃ p, s.taken env call = some p ∧ last = (promptSignature env p.prompt, call.now)) := by
  by_cases hconcerns : call.op.Concerns sessionId
  · obtain ⟨now, op⟩ := call
    cases op with
    | set other prompt count ids display =>
        simp only [apply, setPendingMemory] at h
        split at h <;> exact .inl h
    | take other =>
        obtain rfl : other = sessionId := hconcerns
        simp only [apply] at h
        have htaken : ∀ {r}, s.takePendingMemory env now other = r →
            s.taken env ⟨now, .take other⟩ = r.1.result := fun heq => heq ▸ rfl
        obtain ⟨_, heq⟩ | ⟨p, hp, hcases⟩ := take_cases env s now other
        · rw [heq] at h
          exact .inl h
        · obtain ⟨_, heq⟩ | ⟨_, heq⟩ | ⟨hfresh, hunknown, hcases⟩ := hcases
          · rw [heq] at h
            exact .inl h
          · rw [heq] at h
            exact .inl h
          obtain ⟨_, heq⟩ | ⟨hnew, ⟨hoverlap, heq⟩ | ⟨_, heq⟩⟩ := hcases
          · rw [heq] at h
            exact .inl h
          · exact .inr ⟨rfl, .inl ⟨p, hp, hfresh, hunknown, hnew, hoverlap⟩⟩
          · rw [heq] at h
            have hlast : (s.delivered env now other p).lastSignature.get other =
                some (promptSignature env p.prompt, now) := by
              unfold delivered
              split <;> simp [signed, markMemoriesInjected, insertInjectedIds]
            exact .inr ⟨rfl, .inr ⟨p, htaken heq, Option.some.inj (h.symm.trans hlast)⟩⟩
    | markInjected other ids => exact .inl h
    | markKnown other ids =>
        simp only [apply, markMemoriesKnown] at h
        split at h <;> exact .inl h
    | sync other ids =>
        simp only [apply, syncInjectedMemories] at h
        split at h <;> exact .inl h
    | clearInjected other | clearPending other =>
        obtain rfl : other = sessionId := hconcerns
        simp [apply, clearPendingMemory, clearInjectedMemories, StrMap.get_remove] at h
    | clearAllInjected | clearAllPending => cases h
  · have hagree : Agree sessionId s (s.apply env call) := agree_apply_of_not_concerns hconcerns
    exact .inl (hagree.lastSignature.trans h)

/-- **The last set** is that of a payload that a take returned. -/
theorem lastSet_apply {call : PendingCall} {last : Finset String × ℕ}
    (h : (s.apply env call).lastSet.get sessionId = some last) :
    s.lastSet.get sessionId = some last ∨
      call.op = .take sessionId ∧
        ∃ p, s.taken env call = some p ∧ last = (memorySet p.memoryIds, call.now) := by
  by_cases hconcerns : call.op.Concerns sessionId
  · obtain ⟨now, op⟩ := call
    cases op with
    | set other prompt count ids display =>
        simp only [apply, setPendingMemory] at h
        split at h <;> exact .inl h
    | take other =>
        obtain rfl : other = sessionId := hconcerns
        simp only [apply] at h
        have htaken : ∀ {r}, s.takePendingMemory env now other = r →
            s.taken env ⟨now, .take other⟩ = r.1.result := fun heq => heq ▸ rfl
        obtain ⟨_, heq⟩ | ⟨p, hp, hcases⟩ := take_cases env s now other
        · rw [heq] at h
          exact .inl h
        · obtain ⟨_, heq⟩ | ⟨_, heq⟩ | ⟨_, _, ⟨_, heq⟩ | ⟨_, ⟨_, heq⟩ | ⟨_, heq⟩⟩⟩ := hcases
          · rw [heq] at h; exact .inl h
          · rw [heq] at h; exact .inl h
          · rw [heq] at h; exact .inl h
          · rw [heq] at h; exact .inl h
          · rw [heq] at h
            unfold delivered at h
            split at h
            · exact .inl h
            · simp only [markMemoriesInjected, insertInjectedIds, StrMap.get_insert_self] at h
              exact .inr ⟨rfl, p, htaken heq, (Option.some.inj h).symm⟩
    | markInjected other ids => exact .inl h
    | markKnown other ids =>
        simp only [apply, markMemoriesKnown] at h
        split at h <;> exact .inl h
    | sync other ids =>
        simp only [apply, syncInjectedMemories] at h
        split at h <;> exact .inl h
    | clearInjected other | clearPending other =>
        obtain rfl : other = sessionId := hconcerns
        simp [apply, clearPendingMemory, clearInjectedMemories, StrMap.get_remove] at h
    | clearAllInjected | clearAllPending => cases h
  · have hagree : Agree sessionId s (s.apply env call) := agree_apply_of_not_concerns hconcerns
    exact .inl (hagree.lastSet.trans h)

theorem taken_of_take {call : PendingCall} (h : call.op = .take sessionId) :
    s.taken env call = (s.takePendingMemory env call.now sessionId).1.result := by
  unfold taken
  rw [h]

theorem apply_of_take {call : PendingCall} (h : call.op = .take sessionId) :
    s.apply env call = (s.takePendingMemory env call.now sessionId).2 := by
  unfold apply
  rw [h]

theorem isDuplicate_of_take {p : PendingMemory} (hp : s.pending.get sessionId = some p)
    (h : (s.takePendingMemory env now sessionId).1 = .duplicate) :
    s.isDuplicate now sessionId (promptSignature env p.prompt) = true := by
  rw [take_of_pending hp] at h
  by_contra hnew
  rw [if_neg hnew] at h
  split_ifs at h

theorem isOverlapping_of_take {p : PendingMemory} (hp : s.pending.get sessionId = some p)
    (h : (s.takePendingMemory env now sessionId).1 = .overlapping) :
    s.isOverlapping env now sessionId p.memoryIds = true := by
  rw [take_of_pending hp] at h
  by_contra hnew
  rw [if_neg hnew] at h
  split_ifs at h

/-- What is returned has a memory that is not known. -/
theorem allKnown_of_take {p : PendingMemory}
    (h : (s.takePendingMemory env now sessionId).1.result = some p) :
    s.allKnown now sessionId p.memoryIds = false := by
  obtain ⟨_, heq⟩ | ⟨q, _, hcases⟩ := take_cases env s now sessionId
  · rw [heq] at h; cases h
  · obtain ⟨_, heq⟩ | ⟨_, heq⟩ | ⟨_, hunknown, ⟨_, heq⟩ | ⟨_, ⟨_, heq⟩ | ⟨_, heq⟩⟩⟩ := hcases
    · rw [heq] at h; cases h
    · rw [heq] at h; cases h
    · rw [heq] at h; cases h
    · rw [heq] at h; cases h
    · rw [heq] at h
      obtain rfl := Option.some.inj h
      exact hunknown

/-- What is discarded late is not returned. -/
theorem DiscardsLate.result (h : s.DiscardsLate env now sessionId) :
    (s.takePendingMemory env now sessionId).1.result = none := by
  obtain ⟨p, hp, hfresh, hunknown, hnew, hoverlap⟩ := h
  rw [take_of_pending hp, hfresh, hunknown, hnew, hoverlap]
  rfl

end PendingState

/-! ### Whole runs -/

theorem PendingClock.step_eq_some {c c' : PendingClock} {call : PendingCall} :
    c.step env call = some c' ↔ c.clock ≤ call.now ∧ c' = ⟨call.now, c.state.apply env call⟩ := by
  unfold PendingClock.step
  split
  · next h => simp [h, eq_comm]
  · next h => simp [h]

/-- A take on the session returned the payload at that time. -/
def Returned (env : PendingEnv) (sessionId : String) (pending : PendingMemory) (at_ : ℕ)
    (t : Transition PendingClock PendingCall) : Prop :=
  t.event = ⟨at_, .take sessionId⟩ ∧ t.before.state.taken env t.event = some pending

/-- The memory was injected into the session at that time, and its ids were not dropped since. -/
def InjectedSince (env : PendingEnv) (ts : List (Transition PendingClock PendingCall))
    (sessionId id : String) (at_ : ℕ) : Prop :=
  ∃ us t vs, ts = us ++ t :: vs ∧ t.event.now = at_ ∧
    t.event.op.Injects sessionId id (t.before.state.taken env t.event) ∧
    ∀ v ∈ vs, ¬ v.event.op.Forgets sessionId

/-- What the takes on a session returned. -/
def takenBy (env : PendingEnv) (sessionId : String) (ts : List (Transition PendingClock PendingCall)) :
    List (Option PendingMemory) :=
  ts.filterMap fun t =>
    if t.event.op = .take sessionId then some (t.before.state.taken env t.event) else none

/-- The calls that are about a session. -/
def heardBy (sessionId : String) (ts : List (Transition PendingClock PendingCall)) :
    List PendingCall :=
  (ts.map Transition.event).filter fun call => call.op.Concerns sessionId

/-- **A discarded payload leaves no trace.** -/
structure NoTrace (env : PendingEnv) (ts : List (Transition PendingClock PendingCall)) : Prop where
  /-- a take that returns nothing leaves the records of every session -/
  kept : ∀ t ∈ ts, ∀ sessionId, t.event.op = .take sessionId →
    t.before.state.taken env t.event = none → t.before.state.SameRecords t.after.state
  /-- a duplicate is one of a payload that was returned to the same session -/
  duplicate : ∀ us t vs sessionId p, ts = us ++ t :: vs → t.event.op = .take sessionId →
    t.before.state.pending.get sessionId = some p →
    (t.before.state.takePendingMemory env t.event.now sessionId).1 = .duplicate →
    ∃ u ∈ us, ∃ q at_, Returned env sessionId q at_ u ∧
      promptSignature env q.prompt = promptSignature env p.prompt ∧
      elapsedSecs t.event.now at_ < MEMORY_REPEAT_SUPPRESSION_SECS
  /-- what overlaps, overlaps a payload that was returned to the same session -/
  overlapping : ∀ us t vs sessionId p, ts = us ++ t :: vs → t.event.op = .take sessionId →
    t.before.state.pending.get sessionId = some p →
    (t.before.state.takePendingMemory env t.event.now sessionId).1 = .overlapping →
    ∃ u ∈ us, ∃ q at_, Returned env sessionId q at_ u ∧
      memoryOverlapReached env (memorySet q.memoryIds) (memorySet p.memoryIds) = true ∧
      elapsedSecs t.event.now at_ < MEMORY_SET_REPEAT_SUPPRESSION_SECS
  /-- a payload that is returned with memories has one that was not injected of late -/
  unknown : ∀ us t vs sessionId p at_, ts = us ++ t :: vs → Returned env sessionId p at_ t →
    p.memoryIds ≠ [] → ∃ id ∈ p.memoryIds, ∀ at', InjectedSince env us sessionId id at' →
      INJECTED_MEMORY_TTL_SECS ≤ elapsedSecs at_ at'
  /-- what a session is given depends on the calls that are about it -/
  apart : ∀ us c, Run (PendingClock.step env) ⟨0, .initial⟩ us c → ∀ sessionId,
    heardBy sessionId us = heardBy sessionId ts → takenBy env sessionId us = takenBy env sessionId ts

variable {ts : List (Transition PendingClock PendingCall)} {c : PendingClock}

/-- The last set of each session is one that was returned. -/
theorem lastSet_returned (run : Run (PendingClock.step env) ⟨0, .initial⟩ ts c) :
    ∀ last, c.state.lastSet.get sessionId = some last →
      ∃ u ∈ ts, ∃ q, Returned env sessionId q last.2 u ∧ memorySet q.memoryIds = last.1 := by
  refine run.records_nil (P := fun us c => ∀ last, c.state.lastSet.get sessionId = some last →
    ∃ u ∈ us, ∃ q, Returned env sessionId q last.2 u ∧ memorySet q.memoryIds = last.1)
    (fun us t _ hstep ih last hlast => ?_) (fun last hlast => nomatch hlast)
  obtain ⟨_, hafter⟩ := PendingClock.step_eq_some.mp hstep
  rw [hafter] at hlast
  obtain hbefore | ⟨hop, p, htaken, rfl⟩ := PendingState.lastSet_apply hlast
  · obtain ⟨u, hu, q, hq⟩ := ih last hbefore
    exact ⟨u, List.mem_append_left _ hu, q, hq⟩
  · have hevent : t.event = ⟨t.event.now, .take sessionId⟩ := by rw [← hop]
    exact ⟨t, List.mem_append_right _ (List.mem_singleton_self t), p, ⟨hevent, htaken⟩, rfl⟩

/-- The last signature of each session is one that was returned, if no take has discarded late. -/
theorem lastSignature_returned (run : Run (PendingClock.step env) ⟨0, .initial⟩ ts c)
    (hlate : ∀ t ∈ ts, ∀ sessionId, t.event.op = .take sessionId →
      ¬ t.before.state.DiscardsLate env t.event.now sessionId) :
    ∀ last, c.state.lastSignature.get sessionId = some last →
      ∃ u ∈ ts, ∃ q, Returned env sessionId q last.2 u ∧
        promptSignature env q.prompt = last.1 := by
  refine run.records_nil (P := fun us c => ∀ last, c.state.lastSignature.get sessionId = some last →
    ∃ u ∈ us, ∃ q, Returned env sessionId q last.2 u ∧ promptSignature env q.prompt = last.1)
    (fun us t ht hstep ih last hlast => ?_) (fun last hlast => nomatch hlast)
  obtain ⟨_, hafter⟩ := PendingClock.step_eq_some.mp hstep
  rw [hafter] at hlast
  obtain hbefore | ⟨hop, hdiscards | ⟨p, htaken, rfl⟩⟩ := PendingState.lastSignature_apply hlast
  · obtain ⟨u, hu, q, hq⟩ := ih last hbefore
    exact ⟨u, List.mem_append_left _ hu, q, hq⟩
  · exact absurd hdiscards (hlate t ht sessionId hop)
  · have hevent : t.event = ⟨t.event.now, .take sessionId⟩ := by rw [← hop]
    exact ⟨t, List.mem_append_right _ (List.mem_singleton_self t), p, ⟨hevent, htaken⟩, rfl⟩

/-- A memory that was injected of late is recorded as injected, then or later. -/
theorem injectedAt_of_injectedSince (run : Run (PendingClock.step env) ⟨0, .initial⟩ ts c)
    {id : String} : ∀ at_, InjectedSince env ts sessionId id at_ → injectedRecently c.clock at_ = true →
      ∃ at', c.state.injectedAt sessionId id = some at' ∧ at_ ≤ at' ∧ at' ≤ c.clock := by
  refine run.records_nil (P := fun us c => ∀ at_, InjectedSince env us sessionId id at_ →
    injectedRecently c.clock at_ = true →
    ∃ at', c.state.injectedAt sessionId id = some at' ∧ at_ ≤ at' ∧ at' ≤ c.clock)
    (fun us t _ hstep ih at_ hinjected hrecent => ?_) ?_
  · obtain ⟨hclock, hafter⟩ := PendingClock.step_eq_some.mp hstep
    have hspec := @PendingState.injectedAt_apply env t.before.state sessionId t.event id
    rw [hafter] at hrecent ⊢
    obtain ⟨vs, u, ws, heq, hnow, hinjects, hforgets⟩ := hinjected
    obtain rfl | ⟨ws, w, rfl⟩ := List.eq_nil_or_concat' ws
    · -- the last call is the one that injects
      obtain ⟨rfl, hlast⟩ := List.append_inj' heq rfl
      obtain rfl : t = u := List.singleton_inj.mp hlast
      exact ⟨t.event.now, hspec.1 hinjects, hnow.ge, le_rfl⟩
    · have hsplit : us ++ [t] = (vs ++ u :: ws) ++ [w] := by rw [heq]; simp
      obtain ⟨rfl, hlast⟩ := List.append_inj' hsplit rfl
      obtain rfl : t = w := List.singleton_inj.mp hlast
      have hbefore : InjectedSince env (vs ++ u :: ws) sessionId id at_ :=
        ⟨vs, u, ws, rfl, hnow, hinjects, fun v hv => hforgets v (List.mem_append_left _ hv)⟩
      have hforget : ¬ t.event.op.Forgets sessionId :=
        hforgets t (List.mem_append_right _ (List.mem_singleton_self t))
      have hrecent' : injectedRecently t.before.clock at_ = true :=
        decide_eq_true (lt_of_le_of_lt (elapsedSecs_mono hclock le_rfl) (of_decide_eq_true hrecent))
      obtain ⟨at', hat, hle, hle'⟩ := ih at_ hbefore hrecent'
      have hat' : injectedRecently t.event.now at' = true :=
        decide_eq_true (lt_of_le_of_lt (elapsedSecs_mono le_rfl hle) (of_decide_eq_true hrecent))
      obtain hnew | hold := hspec.2 hforget at' hat hat'
      · exact ⟨t.event.now, hnew, hle.trans (hle'.trans hclock), le_rfl⟩
      · exact ⟨at', hold, hle, hle'.trans hclock⟩
  · rintro at_ ⟨us, t, vs, heq, _⟩
    simp at heq

/-- What the takes of a session answer to the calls about it. -/
def answers (env : PendingEnv) (sessionId : String) :
    PendingState → List PendingCall → List (Option PendingMemory)
  | _, [] => []
  | s, call :: calls =>
      (if call.op = .take sessionId then [s.taken env call] else []) ++
        answers env sessionId (s.apply env call) calls

theorem takenBy_cons (t : Transition PendingClock PendingCall) :
    takenBy env sessionId (t :: ts) =
      (if t.event.op = .take sessionId then [t.before.state.taken env t.event] else []) ++
        takenBy env sessionId ts := by
  rw [takenBy, List.filterMap_cons]
  split_ifs <;> rfl

theorem heardBy_cons (t : Transition PendingClock PendingCall) :
    heardBy sessionId (t :: ts) =
      if t.event.op.Concerns sessionId then t.event :: heardBy sessionId ts
      else heardBy sessionId ts := by
  simp only [heardBy, List.map_cons, List.filter_cons, decide_eq_true_eq]

theorem takenBy_eq_answers {c' : PendingClock} (run : Run (PendingClock.step env) c ts c')
    (h : c.state.Agree sessionId s) :
    takenBy env sessionId ts = answers env sessionId s (heardBy sessionId ts) := by
  induction run generalizing s with
  | nil => rfl
  | @cons c c₁ c' call ts hstep _ ih =>
      obtain ⟨_, rfl⟩ := PendingClock.step_eq_some.mp hstep
      have htaken : call.op = .take sessionId → c.state.taken env call = s.taken env call := by
        intro hop
        obtain ⟨now, op⟩ := call
        obtain rfl : op = .take sessionId := hop
        exact congrArg Taken.result h.take.1
      rw [takenBy_cons, heardBy_cons]
      by_cases hconcerns : call.op.Concerns sessionId
      · rw [if_pos hconcerns, answers, ih h.apply]
        by_cases hop : call.op = .take sessionId
        · rw [if_pos hop, if_pos hop, htaken hop]
        · rw [if_neg hop, if_neg hop]
      · have hagree : (c.state.apply env call).Agree sessionId s :=
          (PendingState.agree_apply_of_not_concerns hconcerns).symm.trans h
        have hop : call.op ≠ .take sessionId := fun hop => hconcerns (by rw [hop]; rfl)
        rw [if_neg hconcerns, if_neg hop, List.nil_append]
        exact ih hagree

/-! ### The theorem -/

theorem noTrace_of_not_discardsLate (run : Run (PendingClock.step env) ⟨0, .initial⟩ ts c)
    (hlate : ∀ t ∈ ts, ∀ sessionId, t.event.op = .take sessionId →
      ¬ t.before.state.DiscardsLate env t.event.now sessionId) : NoTrace env ts where
  kept t ht sessionId hop hnone := by
    obtain ⟨_, hafter⟩ := PendingClock.step_eq_some.mp (run.step_of_mem ht)
    rw [PendingState.taken_of_take hop] at hnone
    rw [hafter, PendingState.apply_of_take hop]
    exact (PendingState.sameRecords_take_iff hnone).mpr (hlate t ht sessionId hop)
  duplicate us t vs sessionId p hts hop hp hdup := by
    subst hts
    obtain ⟨ hprefix, _, _⟩ := run.split_at
    obtain ⟨last, hlast, hsame⟩ := (Option.any_eq_true _ _).mp (PendingState.isDuplicate_of_take hp hdup)
    obtain ⟨hsig, hrecent⟩ := Bool.and_eq_true_iff.mp hsame
    obtain ⟨u, hu, q, hq, hqsig⟩ := lastSignature_returned hprefix
      (fun t ht => hlate t (List.mem_append_left _ ht)) last hlast
    exact ⟨u, hu, q, last.2, hq, hqsig.trans (beq_iff_eq.mp hsig), of_decide_eq_true hrecent⟩
  overlapping us t vs sessionId p hts hop hp hoverlap := by
    subst hts
    obtain ⟨ hprefix, _, _⟩ := run.split_at
    obtain ⟨last, hlast, hsame⟩ :=
      (Option.any_eq_true _ _).mp (PendingState.isOverlapping_of_take hp hoverlap)
    obtain ⟨hreached, hrecent⟩ := Bool.and_eq_true_iff.mp hsame
    obtain ⟨u, hu, q, hq, hqset⟩ := lastSet_returned hprefix last hlast
    exact ⟨u, hu, q, last.2, hq, hqset ▸ hreached, of_decide_eq_true hrecent⟩
  unknown us t vs sessionId p at_ hts hreturned hids := by
    subst hts
    obtain ⟨ hprefix, hstep, _⟩ := run.split_at
    obtain ⟨hclock, _⟩ := PendingClock.step_eq_some.mp hstep
    obtain ⟨hevent, htaken⟩ := hreturned
    have hop : t.event.op = .take sessionId := by rw [hevent]
    have hnow : t.event.now = at_ := by rw [hevent]
    rw [PendingState.taken_of_take hop, hnow] at htaken
    rw [hnow] at hclock
    by_contra hall
    push Not at hall
    -- were all injected of late, they would all be known
    have hknown : t.before.state.allKnown at_ sessionId p.memoryIds = true := by
      rw [PendingState.allKnown, Bool.and_eq_true_iff, List.all_eq_true]
      refine ⟨by simpa using hids, fun id hid => ?_⟩
      obtain ⟨at', hinjected, hrecent⟩ := hall id hid
      have hrecent' : injectedRecently t.before.clock at' = true :=
        decide_eq_true ((elapsedSecs_mono hclock le_rfl).trans_lt hrecent)
      obtain ⟨at'', hat, hle, _⟩ := injectedAt_of_injectedSince hprefix at' hinjected hrecent'
      rw [PendingState.isMemoryInjected_eq, hat]
      exact decide_eq_true ((elapsedSecs_mono le_rfl hle).trans_lt hrecent)
    rw [PendingState.allKnown_of_take htaken] at hknown
    cases hknown
  apart us c' run' sessionId hheard := by
    rw [takenBy_eq_answers run (.refl sessionId _), takenBy_eq_answers run' (.refl sessionId _), hheard]

theorem not_noTrace_of_discardsLate (run : Run (PendingClock.step env) ⟨0, .initial⟩ ts c)
    {t : Transition PendingClock PendingCall} (ht : t ∈ ts) (hop : t.event.op = .take sessionId)
    (h : t.before.state.DiscardsLate env t.event.now sessionId) : ¬ NoTrace env ts := by
  intro hnoTrace
  obtain ⟨_, hafter⟩ := PendingClock.step_eq_some.mp (run.step_of_mem ht)
  have hkept := hnoTrace.kept t ht sessionId hop
    ((PendingState.taken_of_take hop).trans h.result)
  rw [hafter, PendingState.apply_of_take hop] at hkept
  exact (PendingState.sameRecords_take_iff h.result).mp hkept h

/-- **When a discarded payload leaves no trace**: when no take discards late. -/
theorem no_trace_iff (run : Run (PendingClock.step env) ⟨0, .initial⟩ ts c) :
    NoTrace env ts ↔ ∀ t ∈ ts, ∀ sessionId, t.event.op = .take sessionId →
      ¬ t.before.state.DiscardsLate env t.event.now sessionId := by
  refine ⟨fun h t ht sessionId hop hdiscards => ?_, noTrace_of_not_discardsLate run⟩
  exact not_noTrace_of_discardsLate run ht hop hdiscards h

end

/-- Texts in ASCII, and the exact quotient. -/
def plainEnv : PendingEnv where
  toLowercase := toAsciiLowercase
  ratioReached intersection baseline := decide (4 * baseline ≤ 5 * intersection)

theorem no_trace_iff_returned :
    ∃ ts c, Run (PendingClock.step plainEnv) ⟨0, .initial⟩ ts c ∧
      ts.map Transition.event = [⟨1, .set "s" "p" 1 ["a"] none⟩, ⟨2, .take "s"⟩] ∧
      NoTrace plainEnv ts := by
  refine ⟨_, _, .cons rfl (.cons rfl (.nil _)), rfl, ?_⟩
  refine (no_trace_iff (.cons rfl (.cons rfl (.nil _)))).mpr fun t ht sessionId hop => ?_
  rcases List.mem_cons.mp ht with rfl | ht
  · cases hop
  · obtain rfl := List.mem_singleton.mp ht
    obtain rfl : "s" = sessionId := PendingOp.take.inj hop
    intro hdiscards
    have hresult := hdiscards.result
    revert hresult
    decide +kernel

/-- The second payload is discarded by its memories, and the third by the prompt of the second. -/
def unreturnedCalls : List PendingCall :=
  [⟨1, .set "s" "p" 4 ["a", "b", "c", "d"] none⟩, ⟨2, .take "s"⟩,
    ⟨3, .set "s" "q" 5 ["a", "b", "c", "d", "e"] none⟩, ⟨4, .take "s"⟩,
    ⟨5, .set "s" "q" 1 ["f"] none⟩, ⟨6, .take "s"⟩]

theorem suppressed_for_unreturned :
    ∃ ts c, Run (PendingClock.step plainEnv) ⟨0, .initial⟩ ts c ∧
      ts.map Transition.event = unreturnedCalls ∧
      takenBy plainEnv "s" ts = [some ⟨"p", none, 1, 4, ["a", "b", "c", "d"]⟩, none, none] ∧
      ¬ NoTrace plainEnv ts := by
  refine ⟨_, _, .cons rfl (.cons rfl (.cons rfl (.cons rfl (.cons rfl (.cons rfl (.nil _)))))), rfl,
    by decide +kernel, ?_⟩
  -- the fourth call is the one that discards late
  refine not_noTrace_of_discardsLate
    (.cons rfl (.cons rfl (.cons rfl (.cons rfl (.cons rfl (.cons rfl (.nil _)))))))
    (List.mem_cons_of_mem _ (List.mem_cons_of_mem _ (List.mem_cons_of_mem _ List.mem_cons_self)))
    rfl ?_
  exact ⟨⟨"q", none, 3, 5, ["a", "b", "c", "d", "e"]⟩, by decide +kernel, by decide +kernel,
    by decide +kernel, by decide +kernel, by decide +kernel⟩

end Jcode.Memory
