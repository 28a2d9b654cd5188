import Jcode.Compaction.Steps

/-!
# Compaction — Coverage

Each message is compacted once: the summary is made of exactly the messages before the compacted
count, and a running task of those that follow, up to its cutoff (`Covered`).

* `CompactionManager.Covered.check`, `starts`, `hard`: the three ways of compacting keep this.
* `compaction_covers`: it holds in every state of a live session, and a background result leaves at
  least two messages active.
* `compaction_covers_hard`: a session with a background result and a hard compaction.
-/

namespace Jcode.Compaction

open Runs

/-- What a running task knows of the manager that started it; the transcript has `n` messages. -/
structure Task.Covers (task : Task) (m : CompactionManager) (n : ℕ) : Prop where
  startedAt : task.startedAt = m.compactedCount
  pos : 0 < m.pendingCutoff
  fits : m.compactedCount + m.pendingCutoff ≤ n
  chain : (extendChain task.existingSummary task.messages).flatten =
    List.range (m.compactedCount + m.pendingCutoff)
  outcome : ∀ result, task.outcome = some (.ok result) →
    result.chain = extendChain task.existingSummary task.messages

/-- The chain of the summary is the messages before the compacted count, once each. -/
structure CompactionManager.Covered (m : CompactionManager) (n : ℕ) : Prop where
  count_le : m.compactedCount ≤ n
  chain : (chainOf m.activeSummary).flatten = List.range m.compactedCount
  pending : ∀ task, m.pendingTask = some task → task.Covers m n
  tails : ∀ k ∈ m.history.tails, MIN_TURNS_TO_KEEP ≤ k

theorem flatten_extendChain (existing : Option Summary) (messages : List Message) :
    (extendChain existing messages).flatten =
      (chainOf existing).flatten ++ messages.map Message.position := by
  simp [extendChain]

/-- A result is made of what the task was given. -/
theorem generate_chain {provider : Provider} {messages : List Message} {existing : Option Summary}
    {durationMs : ℕ} {result : CompactionResult}
    (h : generateCompactionArtifact provider messages existing durationMs = some result) :
    result.chain = extendChain existing messages := by
  have hexisting : chainOf (existing.map fun summary => summary.discardOversized.getD summary) =
      chainOf existing := by
    cases existing with
    | none => rfl
    | some summary =>
        rcases hdiscard : summary.discardOversized with _ | discarded
        · simp [chainOf, hdiscard]
        · simp [chainOf, hdiscard, CompactionManager.discardOversized_chain hdiscard]
  unfold generateCompactionArtifact at h
  dsimp only at h
  split at h
  · obtain rfl := Option.some.inj h
    exact congrArg (· ++ _) hexisting
  · obtain ⟨summary, -, rfl⟩ := Option.map_eq_some_iff.mp h
    exact congrArg (· ++ _) hexisting

namespace CompactionManager

variable {m : CompactionManager} {env : Env} {all : List Message} {n : ℕ}

/-- The positions of the next messages to compact. -/
theorem positions_take (hpos : all.map Message.position = List.range all.length) {k : ℕ}
    (hk : m.compactedCount + k ≤ all.length) :
    ((m.activeMessages all).take k).map Message.position = List.range' m.compactedCount k := by
  rw [activeMessages_eq, List.map_take, List.map_drop, hpos, List.range_eq_range', List.drop_range',
    List.take_range'_of_length_ge (by omega), Nat.mul_one, Nat.zero_add]

/-- The summary with the next messages covers them too. -/
theorem flatten_extendChain_take (hpos : all.map Message.position = List.range all.length) {k : ℕ}
    (hchain : (chainOf m.activeSummary).flatten = List.range m.compactedCount)
    (hk : m.compactedCount + k ≤ all.length) :
    (extendChain m.activeSummary ((m.activeMessages all).take k)).flatten =
      List.range (m.compactedCount + k) := by
  rw [flatten_extendChain, positions_take hpos hk, hchain, List.range_eq_range',
    List.range_eq_range']
  simpa using List.range'_append_1 (s := 0) (m := m.compactedCount) (n := k)

namespace Covered

/-- A longer transcript changes nothing. -/
theorem mono (h : m.Covered n) {n' : ℕ} (hn : n ≤ n') : m.Covered n' where
  count_le := h.count_le.trans hn
  chain := h.chain
  pending task htask := { h.pending task htask with fits := (h.pending task htask).fits.trans hn }
  tails := h.tails

theorem clamp_eq (h : m.Covered n) (hall : all.length = n ∨ all = []) :
    m.clampCompactedCountToMessages all = m := by
  refine CompactionManager.clamp_eq (hall.imp_left fun hn => ?_)
  exact hn ▸ h.count_le

/-- What the invariant reads. -/
theorem congr {m' : CompactionManager} (h : m.Covered n)
    (hcount : m'.compactedCount = m.compactedCount)
    (hchain : chainOf m'.activeSummary = chainOf m.activeSummary)
    (htask : m'.pendingTask = m.pendingTask) (hcutoff : m'.pendingCutoff = m.pendingCutoff)
    (hhistory : m'.history = m.history) : m'.Covered n where
  count_le := hcount ▸ h.count_le
  chain := by rw [hchain, hcount, h.chain]
  pending task ht := by
    have hcovers := h.pending task (htask ▸ ht)
    refine ⟨hcount ▸ hcovers.startedAt, hcutoff ▸ hcovers.pos, ?_, ?_, hcovers.outcome⟩
    · rw [hcount, hcutoff]
      exact hcovers.fits
    · rw [hcount, hcutoff]
      exact hcovers.chain
  tails := hhistory ▸ h.tails

theorem discard (h : m.Covered n) : m.discardOversizedOpenaiNativeCompaction.Covered n := by
  obtain ⟨summary, observed, hdiscard, hchain⟩ := m.discard_frame
  rw [hdiscard]
  exact h.congr rfl (congrArg (Option.getD · []) hchain) rfl rfl rfl

theorem clearPending (h : m.Covered n) : m.clearPending.Covered n where
  count_le := h.count_le
  chain := h.chain
  pending _ htask := by cases htask
  tails := h.tails

theorem finishTask (h : m.Covered n) (completion : Completion) :
    (m.finishTask completion).Covered n := by
  unfold CompactionManager.finishTask
  split
  · rename_i task htask
    split
    · have hcovers := h.pending task htask
      refine ⟨h.count_le, h.chain, fun task' htask' => ?_, h.tails⟩
      obtain rfl := Option.some.inj htask'
      cases completion with
      | ran provider durationMs =>
          refine ⟨hcovers.startedAt, hcovers.pos, hcovers.fits, hcovers.chain, fun result hres => ?_⟩
          rcases hgen : generateCompactionArtifact provider task.messages task.existingSummary
            durationMs with _ | result'
          · simp [Task.finish, hgen] at hres
          · obtain rfl : result' = result := by simpa [Task.finish, hgen] using hres
            exact generate_chain hgen
      | panicked => exact ⟨hcovers.startedAt, hcovers.pos, hcovers.fits, hcovers.chain, nofun⟩
    · exact h
  · exact h

/-- The count after a result is adopted. -/
theorem advance_count (hall : all.length = n ∨ all = []) {k : ℕ} (hk : m.compactedCount + k ≤ n) :
    (m.advance all k).compactedCount = m.compactedCount + k := by
  unfold advance
  dsimp only
  rcases hall with rfl | rfl
  · split
    · rfl
    · exact Nat.min_eq_left hk
  · rfl

/-- **A background result.** -/
theorem check (h : m.Covered n) (hall : all.length = n ∨ all = []) :
    (m.checkAndApplyCompactionWith all).Covered n := by
  have hcases := m.check_cases all
  rw [h.clamp_eq hall] at hcases
  rcases hcases with ⟨-, heq | heq⟩ | ⟨task, result, htask, houtcome, htail, heq⟩
  · rwa [heq]
  · exact heq ▸ h.clearPending
  · have hcovers := h.pending task htask
    have hcount := advance_count hall hcovers.fits
    obtain ⟨summary, event, hadopt, hsummary⟩ := m.adoptResult_spec result all
    rw [heq, hadopt]
    refine ⟨hcount.trans_le hcovers.fits, ?_, nofun, fun k hk => ?_⟩
    · change summary.chain.flatten = List.range (m.advance all m.pendingCutoff).compactedCount
      rw [hsummary, hcovers.outcome result houtcome, hcovers.chain, hcount]
    · dsimp only at hk
      split at hk
      · exact h.tails k hk
      · rename_i hne
        rcases List.mem_cons.mp hk with rfl | hk
        · -- the guard, on the slice before the count advances
          rw [length_activeMessages, hcount]
          have hguard : m.pendingCutoff ≤ all.length - m.compactedCount - MIN_TURNS_TO_KEEP := by
            have hlen : (m.activeMessages all).length = all.length - m.compactedCount :=
              length_activeMessages
            simpa [leavesNoHealthyTail, hne, hlen] using htail
          have hpos := hcovers.pos
          omega
        · exact h.tails k hk

/-- **A task that is started.** -/
theorem starts {m' : CompactionManager} (h : m.Covered all.length)
    (hpos : all.map Message.position = List.range all.length) (hstarts : m.Starts all m') :
    m'.Covered all.length := by
  obtain ⟨k, trigger, -, hcutoff, rfl⟩ := hstarts
  have hle := safeCompactionCutoff_le (m.activeMessages all) k
  rw [length_activeMessages] at hle
  have hcount := h.count_le
  refine ⟨hcount, h.chain, fun task htask => ?_, h.tails⟩
  obtain rfl := Option.some.inj htask
  have hfits : m.compactedCount + safeCompactionCutoff (m.activeMessages all) k ≤ all.length := by
    omega
  exact ⟨rfl, hcutoff, hfits, flatten_extendChain_take hpos h.chain hfits, nofun⟩

theorem maybeStart (h : m.Covered all.length)
    (hpos : all.map Message.position = List.range all.length) :
    (m.maybeStartCompactionWith env all).Covered all.length := by
  rcases m.maybeStart_cases env all with heq | hstarts
  · rwa [heq]
  · exact h.starts hpos hstarts

theorem force (h : m.Covered all.length)
    (hpos : all.map Message.position = List.range all.length) :
    (m.forceCompactWith env all).1.Covered all.length := by
  rcases m.force_cases env all with heq | hstarts
  · rwa [heq]
  · exact h.starts hpos hstarts

/-- **A hard compaction.** -/
theorem hard (h : m.Covered all.length)
    (hpos : all.map Message.position = List.range all.length) :
    (m.hardCompactWith env all).1.Covered all.length := by
  have hcases := m.hard_cases env all
  rw [h.clamp_eq (.inl rfl)] at hcases
  rcases hcases with heq | ⟨k, -, heq⟩
  · rwa [heq]
  · generalize hcutoff : safeCompactionCutoff (m.activeMessages all) k = cutoff at heq
    have hle := safeCompactionCutoff_le (m.activeMessages all) k
    rw [length_activeMessages, hcutoff] at hle
    have hcount := h.count_le
    have hfits : m.compactedCount + cutoff ≤ all.length := by omega
    obtain ⟨summary, event, trigger, pendingCutoff, hdrop, hsummary⟩ :=
      m.dropMessages_spec env all cutoff
    rw [heq, hdrop]
    refine ⟨Nat.min_le_right .., ?_, nofun, h.tails⟩
    change summary.chain.flatten = List.range (min (m.compactedCount + cutoff) all.length)
    rw [hsummary, flatten_extendChain_take hpos h.chain hfits, Nat.min_eq_left hfits]

/-- **Before an API call.** -/
theorem ensure (h : m.Covered all.length)
    (hpos : all.map Message.position = List.range all.length) (during : Option Completion) :
    (m.ensureContextFits env during all).1.Covered all.length :=
  ensure_rule (P := fun m => m.Covered all.length) (fun _ completion h => h.finishTask completion)
    (fun _ h => h.check (.inl rfl)) (fun _ h => h.hard hpos) (fun _ h => h.maybeStart hpos) h

end Covered
end CompactionManager

/-! ### Sessions -/

/-- The messages are numbered, and the manager covers those it has compacted. -/
structure Session.Covered (s : Session) : Prop where
  positions : s.messages.map Message.position = List.range s.messages.length
  manager : s.manager.Covered s.messages.length

theorem positions_truncate (messages : List Message) (a b : ℕ) :
    (emergencyTruncateLargePayloads messages a b).1.map Message.position =
      messages.map Message.position := by
  simp [emergencyTruncateLargePayloads, Function.comp_def]

namespace Session.Covered

variable {s : Session}

theorem new (config : CompactionConfig) (mode : CompactionMode) :
    (Session.new config mode).Covered where
  positions := rfl
  manager := ⟨Nat.le_refl _, rfl, nofun, nofun⟩

theorem append (h : s.Covered) (role : Role) (content : List ContentBlock)
    (announcement : Announcement) : (s.append role content announcement).Covered := by
  refine ⟨?_, ?_⟩
  · simp [Session.append, h.positions, List.range_succ]
  · have hmono : s.manager.Covered (s.messages.length + 1) := h.manager.mono (Nat.le_succ _)
    unfold Session.append
    rw [List.length_append, List.length_singleton]
    cases announcement with
    | unsized => exact hmono.congr rfl rfl rfl rfl rfl
    | withMessage => exact hmono.congr rfl rfl rfl rfl rfl
    | blocks => exact hmono.congr rfl rfl rfl rfl rfl

theorem truncate (h : s.Covered) : s.truncate.Covered := by
  have hpos := s.map_truncate fun messages => positions_truncate messages _ _
  refine ⟨by rw [hpos, s.length_truncate, h.positions], ?_⟩
  rw [s.length_truncate]
  rcases s.truncate_manager with heq | ⟨heq, -⟩
  · rw [heq]
    exact h.manager.congr rfl rfl rfl rfl rfl
  · rw [heq]
    exact h.manager

/-- **One event.** -/
theorem live (h : s.Covered) (e : LiveEvent) : (s.live e).Covered := by
  cases e with
  | append role content announcement => exact h.append role content announcement
  | maybeStart env => exact ⟨h.positions, h.manager.maybeStart h.positions⟩
  | force env => exact ⟨h.positions, h.manager.force h.positions⟩
  | finish completion => exact ⟨h.positions, h.manager.finishTask completion⟩
  | check => exact ⟨h.positions, h.manager.check (.inl rfl)⟩
  | checkUnknown =>
      exact ⟨h.positions, (h.manager.check (.inr rfl)).congr rfl rfl rfl rfl rfl⟩
  | poll => exact ⟨h.positions, (h.manager.check (.inl rfl)).congr rfl rfl rfl rfl rfl⟩
  | hard env => exact ⟨h.positions, h.manager.hard h.positions⟩
  | ensure env during => exact ⟨h.positions, h.manager.ensure h.positions during⟩
  | truncate => exact h.truncate
  | api => exact ⟨h.positions, (h.manager.check (.inl rfl)).discard⟩
  | setBudget budget => exact ⟨h.positions, h.manager.congr rfl rfl rfl rfl rfl⟩
  | setMode mode => exact ⟨h.positions, h.manager.congr rfl rfl rfl rfl rfl⟩
  | observe tokens => exact ⟨h.positions, h.manager.congr rfl rfl rfl rfl rfl⟩
  | snapshot tokens => exact ⟨h.positions, h.manager.congr rfl rfl rfl rfl rfl⟩

theorem run {s s' : Session} {ts : List (Transition Session LiveEvent)}
    (run : Run liveStep s ts s') (h : s.Covered) : s'.Covered :=
  run.preserves (fun t _ ht h => (Option.some.inj ht) ▸ h.live t.event) h

end Session.Covered

/-- **Each message is compacted once.**  In every state of a live session the compacted count is
within the transcript, a running task was started at it, the chain of summarisation steps took the
messages before it, each once and no other, and every background result that was applied to a
transcript left at least two messages active. -/
theorem compaction_covers {config : CompactionConfig} {mode : CompactionMode}
    {ts : List (Transition Session LiveEvent)} {s : Session}
    (run : Run liveStep (.new config mode) ts s) :
    s.messages.map Message.position = List.range s.messages.length ∧
      s.manager.compactedCount ≤ s.messages.length ∧
      (∀ task, s.manager.pendingTask = some task → task.startedAt = s.manager.compactedCount) ∧
      (chainOf s.manager.activeSummary).flatten = List.range s.manager.compactedCount ∧
      ∀ tail ∈ s.manager.history.tails, MIN_TURNS_TO_KEEP ≤ tail := by
  have h := Session.Covered.run run (.new config mode)
  refine ⟨h.positions, h.manager.count_le, fun task htask => ?_, h.manager.chain, h.manager.tails⟩
  exact (h.manager.pending task htask).startedAt

/-- Usage, compared without rounding. -/
def Threshold.percent : Threshold → ℕ
  | .compaction => 80
  | .critical => 95
  | .manualCompactMin => 10
  | .proactiveFloor => 40

/-- Surroundings without an embedding model. -/
def plainEnv : Env :=
  { usageGe := fun threshold tokens budget => threshold.percent * budget ≤ 100 * tokens
    usageLt := fun threshold tokens budget => 100 * tokens < threshold.percent * budget
    usagePercent := fun tokens budget => toString (100 * tokens / budget) ++ ".0"
    projectedGe := fun _ _ => false
    topicShift := false
    embeds := fun _ => false
    relevant := fun _ _ => false
    isAlphanumeric := Char.isAlphanum }

/-- A provider without compaction of its own. -/
def plainProvider : Provider :=
  { nativeCompact := fun _ _ _ => none
    contextWindow := 200000
    completeSimple := fun _ _ => some "What we did." }

/-- A message of forty characters is added. -/
def appendForty : LiveEvent :=
  .append .user [.text "A message of forty characters, no more.."] .blocks

/-- Twelve messages, a compaction in the background while a message is added, and a hard one. -/
def coverageEvents : List LiveEvent :=
  .setBudget 100 :: List.replicate 12 appendForty ++
    [.force plainEnv, appendForty, .finish (.ran plainProvider 10), .check, .hard plainEnv]

theorem compaction_covers_hard :
    ∃ ts s, Run liveStep (.new .default .reactive) ts s ∧
      ts.map Transition.event = coverageEvents ∧
      s.manager.compactedCount = 3 ∧ chainOf s.manager.activeSummary = [[0, 1], [2]] ∧
      s.manager.history.tails = [11] ∧
      (∀ tail ∈ s.manager.history.tails, MIN_TURNS_TO_KEEP ≤ tail) := by
  have hexec : (exec liveStep (.new .default .reactive) coverageEvents).map (fun r =>
      (r.2.manager.compactedCount, chainOf r.2.manager.activeSummary, r.2.manager.history.tails)) =
      some (3, [[0, 1], [2]], [11]) := by decide +kernel
  obtain ⟨ts, s, run, hes, hobs⟩ := Run.of_observed hexec
  obtain ⟨hcount, hrest⟩ := Prod.mk.inj hobs
  obtain ⟨hchain, htails⟩ := Prod.mk.inj hrest
  exact ⟨ts, s, run, hes, hcount, hchain, htails, (compaction_covers run).2.2.2.2⟩

end Jcode.Compaction
