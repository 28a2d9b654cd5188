import Jcode.Compaction.Session

/-!
# Compaction — Steps

What each operation of the manager can do.

* `CompactionManager.check_cases`: a check does nothing or gives the task up, or adopts its result.
* `CompactionManager.maybeStart_cases`, `force_cases`: a start does nothing, or starts a task with a
  safe cutoff.
* `CompactionManager.hard_cases`: a hard compaction does nothing, or drops messages up to a safe
  cutoff.
* `CompactionManager.ensure_rule`: what these keep, `ensure_context_fits` keeps.
-/

namespace Jcode.Compaction

/-- A count that is cut down to the length drops the same. -/
theorem drop_min_length {α : Type*} (l : List α) (k : ℕ) : l.drop (min k l.length) = l.drop k := by
  rcases Nat.le_total k l.length with h | h
  · rw [Nat.min_eq_left h]
  · rw [Nat.min_eq_right h, List.drop_length, List.drop_eq_nil_of_le h]

namespace CompactionManager

variable {m : CompactionManager} {env : Env} {all : List Message}

theorem activeMessages_eq : m.activeMessages all = all.drop m.compactedCount :=
  drop_min_length all m.compactedCount

theorem length_activeMessages :
    (m.activeMessages all).length = all.length - m.compactedCount := by
  rw [activeMessages_eq, List.length_drop]

theorem safeCompactionCutoff_le (messages : List Message) (k : ℕ) :
    safeCompactionCutoff messages k ≤ messages.length := by
  have hgrow : ∀ (before : List Message) (scan : ToolScan),
      growKept scan before ≤ before.length := by
    intro before
    induction before with
    | nil => exact fun _ => Nat.zero_le _
    | cons msg before ih =>
        intro scan
        unfold growKept
        split
        · exact Nat.le_succ _
        · exact (ih _).trans (Nat.le_succ _)
  unfold safeCompactionCutoff
  dsimp only
  split
  · exact Nat.min_le_right ..
  · refine (hgrow _ _).trans ?_
    rw [List.length_reverse]
    exact List.length_take_le' ..

/-! ### Adopting a result -/

theorem clamp_eq (h : m.compactedCount ≤ all.length ∨ all = []) :
    m.clampCompactedCountToMessages all = m := by
  unfold clampCompactedCountToMessages
  rcases h with h | rfl
  · split
    · rfl
    · rfl
  · rfl

/-- A count that is too large is cut down, and then nothing is active. -/
theorem clamp_cases (m : CompactionManager) (all : List Message) :
    m.clampCompactedCountToMessages all = m ∨
    all.length < m.compactedCount ∧ m.clampCompactedCountToMessages all =
      { m with compactedCount := all.length, activeChars := .setExact 0 } := by
  unfold clampCompactedCountToMessages
  split
  · exact .inl rfl
  · split
    · exact .inl rfl
    · rename_i hcount
      exact .inr ⟨Nat.lt_of_not_le hcount, rfl⟩

/-- A discarded payload changes a summary's texts alone. -/
theorem discardOversized_chain {summary summary' : Summary}
    (h : summary.discardOversized = some summary') : summary'.chain = summary.chain := by
  unfold Summary.discardOversized at h
  split at h
  · cases h
  · split at h
    · cases h
    · obtain rfl := Option.some.inj h
      rfl

/-- What discarding a payload leaves alone. -/
theorem discard_frame (m : CompactionManager) :
    ∃ summary observed, m.discardOversizedOpenaiNativeCompaction =
      { m with activeSummary := summary, observedInputTokens := observed } ∧
      summary.map Summary.chain = m.activeSummary.map Summary.chain := by
  unfold discardOversizedOpenaiNativeCompaction
  split
  · rename_i summary hsummary
    refine ⟨some summary, none, rfl, ?_⟩
    obtain ⟨old, hold, hdiscard⟩ := Option.bind_eq_some_iff.mp hsummary
    rw [hold, Option.map_some, Option.map_some, discardOversized_chain hdiscard]
  · exact ⟨m.activeSummary, m.observedInputTokens, rfl, rfl⟩

/-- What adopting a result does. -/
theorem adoptResult_spec (m : CompactionManager) (result : CompactionResult)
    (all : List Message) :
    ∃ summary event, m.adoptResult result all =
      { m.advance all m.pendingCutoff with
        activeSummary := some summary
        observedInputTokens := none
        lastCompaction := some event
        turnsSinceLastCompact := 0
        history := { m.history with
          tails := if all.isEmpty then m.history.tails
            else ((m.advance all m.pendingCutoff).activeMessages all).length :: m.history.tails }
        pendingTask := none
        pendingTrigger := none
        pendingCutoff := 0 } ∧ summary.chain = result.chain := by
  unfold adoptResult
  dsimp only
  generalize hadopted : ({ text := result.summaryText
                           openaiEncryptedContent := result.openaiEncryptedContent
                           coversUpToTurn := result.coversUpToTurn
                           originalTurnCount := m.pendingCutoff
                           chain := result.chain } : Summary) = adopted
  obtain ⟨summary, observed, hdiscard, hchain⟩ :=
    discard_frame { m.advance all m.pendingCutoff with activeSummary := some adopted }
  rw [hdiscard]
  obtain ⟨kept, rfl, hkept⟩ := Option.map_eq_some_iff.mp hchain
  exact ⟨kept, _, rfl, hkept.trans (hadopted ▸ rfl)⟩

/-- The task has a result that will be adopted. -/
def Applies (m : CompactionManager) (all : List Message) : Prop :=
  ∃ task result, m.pendingTask = some task ∧ task.outcome = some (.ok result) ∧
    m.leavesNoHealthyTail all = false

/-- A check does nothing or gives the task up, or it adopts its result. -/
theorem check_cases (m : CompactionManager) (all : List Message) :
    (¬ (m.clampCompactedCountToMessages all).Applies all ∧
      (m.checkAndApplyCompactionWith all = m.clampCompactedCountToMessages all ∨
        m.checkAndApplyCompactionWith all =
          (m.clampCompactedCountToMessages all).clearPending)) ∨
    ∃ task result, (m.clampCompactedCountToMessages all).pendingTask = some task ∧
      task.outcome = some (.ok result) ∧
      (m.clampCompactedCountToMessages all).leavesNoHealthyTail all = false ∧
      m.checkAndApplyCompactionWith all =
        (m.clampCompactedCountToMessages all).adoptResult result all := by
  unfold checkAndApplyCompactionWith
  dsimp only
  generalize m.clampCompactedCountToMessages all = m
  -- without a result there is nothing to adopt
  have hnot : ∀ {task : Task}, m.pendingTask = some task →
      (∀ result, task.outcome ≠ some (.ok result)) → ¬ m.Applies all := by
    rintro task htask houtcome ⟨task', result, htask', houtcome', -⟩
    obtain rfl := Option.some.inj (htask.symm.trans htask')
    exact houtcome result houtcome'
  split
  · rename_i htask
    refine .inl ⟨?_, .inl rfl⟩
    rintro ⟨task, result, htask', -⟩
    exact nomatch htask.symm.trans htask'
  · rename_i task htask
    split
    · rename_i houtcome
      exact .inl ⟨hnot htask fun result => by rw [houtcome]; nofun, .inl rfl⟩
    · rename_i result houtcome
      unfold applyResult
      split
      · rename_i htail
        refine .inl ⟨?_, .inr rfl⟩
        rintro ⟨-, -, -, -, htail'⟩
        exact nomatch htail.symm.trans htail'
      · rename_i htail
        exact .inr ⟨task, result, htask, houtcome, Bool.eq_false_iff.mpr htail, rfl⟩
    · rename_i houtcome
      exact .inl ⟨hnot htask fun result => by rw [houtcome]; nofun, .inr rfl⟩
    · rename_i houtcome
      exact .inl ⟨hnot htask fun result => by rw [houtcome]; nofun, .inr rfl⟩

/-- A check starts nothing. -/
theorem check_starts (m : CompactionManager) (all : List Message) :
    (m.checkAndApplyCompactionWith all).history.starts = m.history.starts := by
  have hclamp : (m.clampCompactedCountToMessages all).history = m.history := by
    rcases m.clamp_cases all with heq | ⟨-, heq⟩ <;> rw [heq]
  rcases m.check_cases all with ⟨-, heq | heq⟩ | ⟨task, result, -, -, -, heq⟩
  · rw [heq, hclamp]
  · rw [heq, ← hclamp]
    rfl
  · obtain ⟨summary, event, hadopt, -⟩ :=
      (m.clampCompactedCountToMessages all).adoptResult_spec result all
    rw [heq, hadopt, ← hclamp]

/-! ### Starting a task -/

/-- A task is started, with a safe cutoff. -/
def Starts (m : CompactionManager) (all : List Message) (m' : CompactionManager) : Prop :=
  ∃ k trigger, m.pendingTask = none ∧ 0 < safeCompactionCutoff (m.activeMessages all) k ∧
    m' = m.startTask all (safeCompactionCutoff (m.activeMessages all) k) trigger

/-- Only without a task is a compaction due. -/
theorem pendingTask_of_shouldCompact (h : m.shouldCompactWith env all = true) :
    m.pendingTask = none := by
  have hpro : m.shouldCompactProactively env all = true → m.pendingTask = none := by
    intro h
    simp only [shouldCompactProactively, antiSignalsBlock] at h
    by_contra hne
    simp [Option.isSome_iff_ne_none.mpr hne] at h
  unfold shouldCompactWith at h
  rcases hmode : m.mode with _ | _ | _ <;> simp only [hmode, Bool.and_eq_true] at h
  · exact Option.isNone_iff_eq_none.mp h.2.1.1
  · exact hpro h.2.2
  · have hsem := h.2.2
    simp only [shouldCompactSemantic, antiSignalsBlock] at hsem
    by_contra hne
    simp [Option.isSome_iff_ne_none.mpr hne] at hsem

theorem maybeStart_cases (m : CompactionManager) (env : Env) (all : List Message) :
    m.maybeStartCompactionWith env all = m ∨
      m.Starts all (m.maybeStartCompactionWith env all) := by
  unfold maybeStartCompactionWith
  split
  · exact .inl rfl
  · rename_i hshould
    dsimp only
    split
    · exact .inl rfl
    · split
      · exact .inl rfl
      · rename_i hcutoff
        have hnone := pendingTask_of_shouldCompact (by simpa using hshould)
        exact .inr ⟨_, _, hnone, Nat.pos_of_ne_zero hcutoff, rfl⟩

theorem force_cases (m : CompactionManager) (env : Env) (all : List Message) :
    (m.forceCompactWith env all).1 = m ∨ m.Starts all (m.forceCompactWith env all).1 := by
  unfold forceCompactWith
  dsimp only
  split
  · exact .inl rfl
  · rename_i hpending
    split
    · exact .inl rfl
    · split
      · exact .inl rfl
      · split
        · exact .inl rfl
        · split
          · exact .inl rfl
          · rename_i hcutoff
            have hnone : m.pendingTask = none := by simpa using hpending
            exact .inr ⟨_, _, hnone, Nat.pos_of_ne_zero hcutoff, rfl⟩

/-! ### Hard compaction -/

/-- The cutoff of a hard compaction is a safe one. -/
theorem hardCutoff_safe (active : List Message) (budget turns : ℕ) :
    ∃ k, hardCutoff active budget turns = safeCompactionCutoff active k := by
  induction turns using Nat.strongRecOn with
  | ind turns ih =>
      unfold hardCutoff
      dsimp only
      split
      · exact ⟨_, rfl⟩
      · split
        · exact ⟨_, rfl⟩
        · rename_i hturns
          exact ih _ (by unfold MIN_TURNS_TO_KEEP at *; omega)

/-- A hard compaction does nothing, or drops messages up to a safe cutoff. -/
theorem hard_cases (m : CompactionManager) (env : Env) (all : List Message) :
    (m.hardCompactWith env all).1 = m.clampCompactedCountToMessages all ∨
    ∃ k, 0 < safeCompactionCutoff ((m.clampCompactedCountToMessages all).activeMessages all) k ∧
      (m.hardCompactWith env all).1 =
        (m.clampCompactedCountToMessages all).dropMessages env all
          (safeCompactionCutoff ((m.clampCompactedCountToMessages all).activeMessages all) k) := by
  unfold hardCompactWith
  dsimp only
  generalize m.clampCompactedCountToMessages all = m
  split
  · exact .inl rfl
  · obtain ⟨k, hk⟩ := hardCutoff_safe (m.activeMessages all) m.tokenBudget
      (min RECENT_TURNS_TO_KEEP ((m.activeMessages all).length - 1))
    rw [hk]
    split
    · exact .inl rfl
    · rename_i hcutoff
      exact .inr ⟨k, Nat.pos_of_ne_zero hcutoff, rfl⟩

theorem abortTask_frame (m : CompactionManager) :
    ∃ trigger cutoff, m.abortTask =
      { m with pendingTask := none, pendingTrigger := trigger, pendingCutoff := cutoff } := by
  unfold abortTask
  split
  · exact ⟨none, 0, rfl⟩
  · rename_i htask
    have hnone : m.pendingTask = none := by simpa using htask
    exact ⟨m.pendingTrigger, m.pendingCutoff, by rw [← hnone]⟩

/-- What dropping messages does. -/
theorem dropMessages_spec (m : CompactionManager) (env : Env) (all : List Message) (cutoff : ℕ) :
    ∃ summary event trigger pendingCutoff, m.dropMessages env all cutoff =
      { m with
        compactedCount := min (m.compactedCount + cutoff) all.length
        activeChars := .setExact (remainingSuffixChars (m.activeMessages all) cutoff)
        activeSummary := some summary
        observedInputTokens := none
        lastCompaction := some event
        history := { m.history with starts := all.length :: m.history.starts }
        pendingTask := none
        pendingTrigger := trigger
        pendingCutoff := pendingCutoff } ∧
      summary.chain = extendChain m.activeSummary ((m.activeMessages all).take cutoff) := by
  obtain ⟨trigger, pendingCutoff, habort⟩ := m.abortTask_frame
  unfold dropMessages
  dsimp only
  rw [habort]
  exact ⟨_, _, trigger, pendingCutoff, rfl, rfl⟩

/-! ### Before an API call -/

/-- What the operations it calls keep, `ensure_context_fits` keeps. -/
theorem ensure_rule {P : CompactionManager → Prop} {during : Option Completion}
    (hfinish : ∀ m completion, P m → P (m.finishTask completion))
    (hcheck : ∀ m, P m → P (m.checkAndApplyCompactionWith all))
    (hhard : ∀ m, P m → P (m.hardCompactWith env all).1)
    (hmaybe : ∀ m, P m → P (m.maybeStartCompactionWith env all)) (h : P m) :
    P (m.ensureContextFits env during all).1 := by
  have hwait : P (m.waitIfPending during all) := by
    have hduring : P (during.elim m m.finishTask) := by
      cases during with
      | none => exact h
      | some completion => exact hfinish m completion h
    unfold waitIfPending waitForPendingCompactionAtHardThreshold
    dsimp only
    split
    · split
      · exact hcheck _ hduring
      · exact hduring
    · exact h
  have hrelieve : P (m.relieve env during all).1 := by
    unfold relieve
    dsimp only
    split
    · exact h
    · split
      · exact hwait
      · exact hhard _ hwait
  unfold ensureContextFits
  split
  · rename_i m' dropped heq
    rwa [heq] at hrelieve
  · rename_i m' heq
    rw [heq] at hrelieve
    dsimp only
    split
    · exact hmaybe m' hrelieve
    · exact hmaybe m' hrelieve

end CompactionManager

/-! ### Truncation -/

/-- What truncation does not change in a message, it does not change in the transcript. -/
theorem Session.map_truncate {β : Type*} {f : Message → β} (s : Session)
    (hf : ∀ messages, (emergencyTruncateLargePayloads messages EMERGENCY_TOOL_RESULT_MAX_CHARS
      EMERGENCY_IMAGE_MAX_CHARS).1.map f = messages.map f) :
    s.truncate.messages.map f = s.messages.map f := by
  have hmessages : s.truncate.messages =
      s.messages.take (min s.manager.compactedCount s.messages.length) ++
        (emergencyTruncateLargePayloads
          (s.messages.drop (min s.manager.compactedCount s.messages.length))
          EMERGENCY_TOOL_RESULT_MAX_CHARS EMERGENCY_IMAGE_MAX_CHARS).1 := rfl
  rw [hmessages, List.map_append, hf, ← List.map_append, List.take_append_drop]

theorem Session.length_truncate (s : Session) :
    s.truncate.messages.length = s.messages.length := by
  have hrole : ∀ messages, (emergencyTruncateLargePayloads messages EMERGENCY_TOOL_RESULT_MAX_CHARS
      EMERGENCY_IMAGE_MAX_CHARS).1.map Message.role = messages.map Message.role := by
    intro messages
    simp [emergencyTruncateLargePayloads, Function.comp_def]
  simpa using congrArg List.length (s.map_truncate hrole)

/-- The manager marks its estimate as stale, or nothing was truncated. -/
theorem Session.truncate_manager (s : Session) :
    s.truncate.manager = { s.manager with
      observedInputTokens := none
      activeChars := s.manager.activeChars.invalidate } ∨
    s.truncate.manager = s.manager ∧ (emergencyTruncateLargePayloads
      (s.messages.drop (min s.manager.compactedCount s.messages.length))
      EMERGENCY_TOOL_RESULT_MAX_CHARS EMERGENCY_IMAGE_MAX_CHARS).2 = 0 := by
  unfold Session.truncate CompactionManager.emergencyTruncateWith
  dsimp only
  split
  · exact .inl rfl
  · rename_i hnone
    exact .inr ⟨rfl, Nat.eq_zero_of_not_pos hnone⟩

end Jcode.Compaction
