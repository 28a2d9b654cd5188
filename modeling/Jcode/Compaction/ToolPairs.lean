import Jcode.Compaction.Coverage

/-!
# Compaction — ToolPairs

No compaction parts a tool result from its call.  The safe cutoff closes what it keeps: each result
there has its call there (`Closed`).  So wherever the active messages begin, those up to the moment
the compaction was started are closed (`Boundary`); and what came later answers no call from before
that moment, when none was outstanding.

* `closed_drop_safeCompactionCutoff`: the safe cutoff closes what it keeps.
* `Session.Paired.live`: the active messages begin at a boundary, and so do those a running task
  will leave.
* `no_orphan_results`: in the messages of every request, each result follows its call.
* `not_outstanding_of_answered`: calls that are answered once are not outstanding once answered.
-/

namespace Jcode.Compaction

open Runs

/-! ### Calls and results -/

/-- The call a block makes. -/
def ContentBlock.use : ContentBlock → Option String
  | .toolUse id _ _ => some id
  | _ => none

/-- The call a block answers. -/
def ContentBlock.result : ContentBlock → Option String
  | .toolResult toolUseId _ => some toolUseId
  | _ => none

def Message.uses (msg : Message) : List String := msg.content.filterMap ContentBlock.use

def Message.results (msg : Message) : List String := msg.content.filterMap ContentBlock.result

/-- The ids of the calls in the messages. -/
def uses (messages : List Message) : List String := messages.flatMap Message.uses

/-- The ids of the calls that the messages answer. -/
def results (messages : List Message) : List String := messages.flatMap Message.results

/-- Each result has its call among the messages. -/
def Closed (messages : List Message) : Prop := ∀ id ∈ results messages, id ∈ uses messages

/-- Each result comes in a later message than its call. -/
def ResultsFollow (messages : List Message) : Prop :=
  ∀ before msg after, messages = before ++ msg :: after → ∀ id ∈ msg.results, id ∈ uses before

/-- After `n` messages, a call waits for a result that is still to come. -/
def Outstanding (messages : List Message) (n : ℕ) : Prop :=
  ∃ id ∈ uses (messages.take n), id ∈ results (messages.drop n)

@[simp] theorem uses_cons (msg : Message) (l : List Message) : uses (msg :: l) = msg.uses ++ uses l :=
  List.flatMap_cons

@[simp] theorem results_cons (msg : Message) (l : List Message) :
    results (msg :: l) = msg.results ++ results l := List.flatMap_cons

@[simp] theorem uses_append (l₁ l₂ : List Message) : uses (l₁ ++ l₂) = uses l₁ ++ uses l₂ :=
  List.flatMap_append

@[simp] theorem results_append (l₁ l₂ : List Message) :
    results (l₁ ++ l₂) = results l₁ ++ results l₂ := List.flatMap_append

theorem resultsFollow_iff {messages : List Message} :
    ResultsFollow messages ↔ ∀ i, (h : i < messages.length) →
      ∀ id ∈ messages[i].results, id ∈ uses (messages.take i) := by
  constructor
  · intro h i hi
    refine h (messages.take i) messages[i] (messages.drop (i + 1)) ?_
    rw [← List.drop_eq_getElem_cons hi, List.take_append_drop]
  · rintro h before msg after rfl id hid
    have hmem := h before.length (by simp) id (by simpa using hid)
    simpa using hmem

instance (messages : List Message) : Decidable (ResultsFollow messages) :=
  decidable_of_iff _ resultsFollow_iff.symm

instance (messages : List Message) (n : ℕ) : Decidable (Outstanding messages n) :=
  inferInstanceAs (Decidable (∃ id ∈ uses (messages.take n), id ∈ results (messages.drop n)))

/-- A summary in front answers no call. -/
theorem ResultsFollow.append_summary {messages : List Message} (h : ResultsFollow messages)
    (summary : Option Summary) :
    ResultsFollow ((summary.map CompactionManager.summaryMessage).toList ++ messages) := by
  cases summary with
  | none => exact h
  | some summary =>
      intro before msg after heq id hid
      cases before with
      | nil =>
          obtain ⟨rfl, -⟩ := List.cons.inj heq
          unfold Message.results CompactionManager.summaryMessage at hid
          split at hid <;> cases hid
      | cons first before =>
          obtain ⟨-, hrest⟩ := List.cons.inj heq
          rw [uses_cons]
          exact List.mem_append_right _ (h before msg after hrest id hid)

/-! ### The safe cutoff -/

/-- A scan that has seen the calls `U` and the results `R`. -/
structure ToolScan.Tracks (scan : ToolScan) (U R : List String) : Prop where
  available : ∀ id, id ∈ scan.available ↔ id ∈ U
  missing : ∀ id, id ∈ scan.missing ↔ id ∈ R ∧ id ∉ U

namespace ToolScan.Tracks

variable {scan : ToolScan} {U R U' R' : List String}

theorem congr (h : scan.Tracks U R) (hU : ∀ id, id ∈ U' ↔ id ∈ U) (hR : ∀ id, id ∈ R' ↔ id ∈ R) :
    scan.Tracks U' R' where
  available id := (h.available id).trans (hU id).symm
  missing id := by rw [h.missing id, hU, hR]

theorem block (h : scan.Tracks U R) (b : ContentBlock) :
    (scan.block b).Tracks (b.use.toList ++ U) (b.result.toList ++ R) := by
  cases b with
  | toolUse id name input =>
      refine ⟨fun id' => ?_, fun id' => ?_⟩
      · simp [ToolScan.block, ContentBlock.use, h.available id']
      · simp only [ToolScan.block, ContentBlock.use, ContentBlock.result, List.mem_filter,
          h.missing id', bne_iff_ne, Option.toList_some, Option.toList_none, List.cons_append,
          List.nil_append, List.mem_cons, not_or]
        tauto
  | toolResult toolUseId content =>
      have hU : ∀ id, id ∈ (ContentBlock.toolResult toolUseId content).use.toList ++ U ↔ id ∈ U :=
        fun id => by simp [ContentBlock.use]
      have hR : ∀ id, id ∈ (ContentBlock.toolResult toolUseId content).result.toList ++ R ↔
          id = toolUseId ∨ id ∈ R := fun id => by simp [ContentBlock.result]
      have hblock : scan.block (.toolResult toolUseId content) =
          if toolUseId ∈ scan.available then scan
          else ⟨scan.available, toolUseId :: scan.missing⟩ := rfl
      rw [hblock]
      split
      · rename_i hmem
        have hin := (h.available toolUseId).mp hmem
        refine ⟨fun id => (h.available id).trans (hU id).symm, fun id => ?_⟩
        rw [h.missing id, hU, hR]
        constructor
        · exact fun hid => ⟨.inr hid.1, hid.2⟩
        · rintro ⟨rfl | hid, hout⟩
          · exact absurd hin hout
          · exact ⟨hid, hout⟩
      · rename_i hmem
        have hnot : toolUseId ∉ U := fun hin => hmem ((h.available toolUseId).mpr hin)
        refine ⟨fun id => (h.available id).trans (hU id).symm, fun id => ?_⟩
        rw [List.mem_cons, h.missing id, hU, hR]
        constructor
        · rintro (rfl | hid)
          · exact ⟨.inl rfl, hnot⟩
          · exact ⟨.inr hid.1, hid.2⟩
        · rintro ⟨rfl | hid, hout⟩
          · exact .inl rfl
          · exact .inr ⟨hid, hout⟩
  | text | reasoning | reasoningTrace | anthropicThinking | openAIReasoning | image
  | openAICompaction => exact h

theorem message (h : scan.Tracks U R) (msg : Message) :
    (scan.message msg).Tracks (msg.uses ++ U) (msg.results ++ R) := by
  unfold ToolScan.message Message.uses Message.results
  induction msg.content generalizing scan U R with
  | nil => exact h
  | cons b content ih =>
      refine (ih (h.block b)).congr (fun id => ?_) fun id => ?_
      · rcases hb : b.use with _ | id'
        · simp [hb]
        · simpa [hb] using or_left_comm
      · rcases hb : b.result with _ | id'
        · simp [hb]
        · simpa [hb] using or_left_comm

theorem foldl (h : scan.Tracks U R) (l : List Message) :
    (l.foldl ToolScan.message scan).Tracks (uses l ++ U) (results l ++ R) := by
  induction l generalizing scan U R with
  | nil => exact h
  | cons msg l ih =>
      refine (ih (h.message msg)).congr (fun id => ?_) fun id => ?_
      · simp only [uses_cons, List.mem_append]; tauto
      · simp only [results_cons, List.mem_append]; tauto

/-- When nothing is missing, what was seen is closed. -/
theorem closed {l : List Message} (h : scan.Tracks (uses l) (results l))
    (hmissing : scan.missing.isEmpty) : Closed l := by
  intro id hid
  by_contra hout
  have hmem := (h.missing id).mpr ⟨hid, hout⟩
  rw [List.isEmpty_iff.mp hmissing] at hmem
  cases hmem

end ToolScan.Tracks

/-- The backward walk stops where the kept messages are closed. -/
theorem closed_drop_growKept {scan : ToolScan} {kept before : List Message}
    (h : scan.Tracks (uses kept) (results kept)) :
    growKept scan before = 0 ∨
      Closed ((before.reverse ++ kept).drop (growKept scan before)) := by
  induction before generalizing scan kept with
  | nil => exact .inl rfl
  | cons msg before ih =>
      have hmsg : (scan.message msg).Tracks (uses (msg :: kept)) (results (msg :: kept)) := by
        simpa using h.message msg
      unfold growKept
      rw [List.reverse_cons, List.append_assoc, List.singleton_append]
      split
      · rename_i hmissing
        refine .inr ?_
        rw [← List.length_reverse, List.drop_left]
        exact hmsg.closed hmissing
      · exact ih hmsg

/-- **The safe cutoff.** -/
theorem closed_drop_safeCompactionCutoff (messages : List Message) (k : ℕ) :
    safeCompactionCutoff messages k = 0 ∨
      Closed (messages.drop (safeCompactionCutoff messages k)) := by
  have hempty : (⟨[], []⟩ : ToolScan).Tracks [] [] := ⟨fun _ => .rfl, fun _ => by simp⟩
  have hscan := hempty.foldl (messages.drop (min k messages.length))
  rw [List.append_nil, List.append_nil] at hscan
  unfold safeCompactionCutoff
  dsimp only
  split
  · rename_i hmissing
    exact .inr (hscan.closed hmissing)
  · have hgrow := @closed_drop_growKept _ _ (messages.take (min k messages.length)).reverse hscan
    rwa [List.reverse_reverse, List.take_append_drop] at hgrow

/-! ### Boundaries -/

/-- Active messages may begin at `c`: a compaction was started with `n` messages, of which those
from `c` on are closed. -/
def Boundary (starts : List ℕ) (messages : List Message) (c : ℕ) : Prop :=
  c = 0 ∨ ∃ n ∈ starts, c ≤ n ∧ n ≤ messages.length ∧ Closed ((messages.take n).drop c)

namespace Boundary

variable {starts : List ℕ} {messages : List Message} {c : ℕ}

theorem le_length (h : Boundary starts messages c) : c ≤ messages.length := by
  rcases h with rfl | ⟨n, -, hcn, hn, -⟩
  · exact Nat.zero_le _
  · exact hcn.trans hn

theorem cons (h : Boundary starts messages c) (n : ℕ) : Boundary (n :: starts) messages c := by
  rcases h with rfl | ⟨n', hn', hrest⟩
  · exact .inl rfl
  · exact .inr ⟨n', List.mem_cons_of_mem _ hn', hrest⟩

theorem append (h : Boundary starts messages c) (msg : Message) :
    Boundary starts (messages ++ [msg]) c := by
  rcases h with rfl | ⟨n, hn, hcn, hlen, hclosed⟩
  · exact .inl rfl
  · refine .inr ⟨n, hn, hcn, hlen.trans (by simp), ?_⟩
    rwa [List.take_append_of_le_length hlen]

/-- Only the calls and the results of each message matter. -/
theorem congr (h : Boundary starts messages c) {messages' : List Message}
    (hids : messages'.map (fun msg => (msg.uses, msg.results)) =
      messages.map fun msg => (msg.uses, msg.results)) : Boundary starts messages' c := by
  have huses : ∀ l : List Message,
      uses l = (l.map fun msg => (msg.uses, msg.results)).flatMap Prod.fst := by
    intro l
    rw [List.flatMap_map]
    rfl
  have hresults : ∀ l : List Message,
      results l = (l.map fun msg => (msg.uses, msg.results)).flatMap Prod.snd := by
    intro l
    rw [List.flatMap_map]
    rfl
  have hlen : messages'.length = messages.length := by simpa using congrArg List.length hids
  rcases h with rfl | ⟨n, hn, hcn, hle, hclosed⟩
  · exact .inl rfl
  · refine .inr ⟨n, hn, hcn, hlen.symm ▸ hle, ?_⟩
    unfold Closed at hclosed ⊢
    rw [huses, hresults, List.map_drop, List.map_take] at hclosed ⊢
    rwa [hids]

/-- Where a compaction that is started now will cut. -/
theorem of_safeCutoff {m : CompactionManager} {k : ℕ} (h : Boundary starts messages m.compactedCount) :
    Boundary (messages.length :: starts) messages
      (m.compactedCount + safeCompactionCutoff (m.activeMessages messages) k) := by
  have hle := CompactionManager.safeCompactionCutoff_le (m.activeMessages messages) k
  rw [CompactionManager.length_activeMessages] at hle
  have hcount := h.le_length
  rcases closed_drop_safeCompactionCutoff (m.activeMessages messages) k with hzero | hclosed
  · rw [hzero]
    exact h.cons _
  · refine .inr ⟨messages.length, List.mem_cons_self, by omega, Nat.le_refl _, ?_⟩
    rw [List.take_length]
    rw [CompactionManager.activeMessages_eq] at hclosed ⊢
    rwa [List.drop_drop] at hclosed

/-- **No orphans.**  From a boundary on, each result follows its call. -/
theorem resultsFollow_drop (h : Boundary starts messages c) (hdistinct : (uses messages).Nodup)
    (hfollow : ResultsFollow messages) (hout : ∀ n ∈ starts, ¬ Outstanding messages n) :
    ResultsFollow (messages.drop c) := by
  intro before msg after heq id hid
  have hsplit : messages = messages.take c ++ before ++ msg :: after := by
    rw [List.append_assoc, ← heq, List.take_append_drop]
  have huse := hfollow (messages.take c ++ before) msg after hsplit id hid
  rw [uses_append, List.mem_append] at huse
  refine huse.resolve_left fun hcompacted => ?_
  rcases h with rfl | ⟨n, hn, hcn, hlen, hclosed⟩
  · rw [List.take_zero] at hcompacted
    cases hcompacted
  · have hlength : (messages.take c).length = c := List.length_take_of_le (hcn.trans hlen)
    rcases Nat.lt_or_ge (c + before.length) n with hpos | hpos
    · -- the result was there when the compaction was started, and so was its call
      have hseg : (messages.take n).drop c = (messages.drop c).take (n - c) := List.drop_take ..
      have hmem : id ∈ results ((messages.take n).drop c) := by
        rw [hseg, heq, List.take_append, List.take_of_length_le (by omega)]
        obtain ⟨k, hk⟩ : ∃ k, n - c - before.length = k + 1 :=
          Nat.exists_eq_add_one.mpr (by omega)
        rw [hk, List.take_succ_cons]
        simp [hid]
      have hkept : id ∈ uses (messages.drop c) := by
        have hsub := hclosed id hmem
        rw [hseg] at hsub
        rw [← List.take_append_drop (n - c) (messages.drop c), uses_append]
        exact List.mem_append_left _ hsub
      rw [← List.take_append_drop c messages, uses_append] at hdistinct
      exact (List.nodup_append.mp hdistinct).2.2 id hcompacted id hkept rfl
    · -- it came later, and its call was outstanding
      refine hout n hn ⟨id, ?_, ?_⟩
      · rw [← Nat.add_sub_cancel' hcn, List.take_add, uses_append]
        exact List.mem_append_left _ hcompacted
      · rw [hsplit, List.drop_append_of_le_length (by rw [List.length_append, hlength]; omega)]
        simp [hid]

end Boundary

/-! ### Operations -/

/-- The active messages begin at a boundary, and so do those that a running task will leave. -/
structure CompactionManager.Paired (m : CompactionManager) (messages : List Message) : Prop where
  active : Boundary m.history.starts messages m.compactedCount
  pending : m.pendingTask.isSome →
    Boundary m.history.starts messages (m.compactedCount + m.pendingCutoff)

namespace CompactionManager.Paired

variable {m : CompactionManager} {env : Env} {all messages : List Message}

/-- What the invariant reads. -/
theorem congr {m' : CompactionManager} (h : m.Paired messages)
    (hcount : m'.compactedCount = m.compactedCount)
    (htask : m'.pendingTask.isSome → m.pendingTask.isSome)
    (hcutoff : m'.pendingCutoff = m.pendingCutoff) (hhistory : m'.history = m.history) :
    m'.Paired messages where
  active := by rw [hhistory, hcount]; exact h.active
  pending hsome := by rw [hhistory, hcount, hcutoff]; exact h.pending (htask hsome)

theorem clearPending (h : m.Paired messages) : m.clearPending.Paired messages :=
  ⟨h.active, nofun⟩

theorem discard (h : m.Paired messages) :
    m.discardOversizedOpenaiNativeCompaction.Paired messages := by
  obtain ⟨summary, observed, hdiscard, -⟩ := m.discard_frame
  rw [hdiscard]
  exact h.congr rfl (fun hsome => hsome) rfl rfl

theorem finishTask (h : m.Paired messages) (completion : Completion) :
    (m.finishTask completion).Paired messages := by
  unfold CompactionManager.finishTask
  split
  · rename_i task htask
    split
    · exact h.congr rfl (fun _ => by rw [htask]; rfl) rfl rfl
    · exact h
  · exact h

theorem check (h : m.Paired messages) (hall : all = messages ∨ all = []) :
    (m.checkAndApplyCompactionWith all).Paired messages := by
  have hcases := m.check_cases all
  rw [clamp_eq (hall.imp_left fun hm => hm ▸ h.active.le_length)] at hcases
  rcases hcases with ⟨-, heq | heq⟩ | ⟨task, result, htask, -, -, heq⟩
  · rwa [heq]
  · exact heq ▸ h.clearPending
  · have hpending := h.pending (by rw [htask]; rfl)
    obtain ⟨summary, event, hadopt, -⟩ := m.adoptResult_spec result all
    have hcount := Covered.advance_count (hall.imp_left (congrArg List.length)) hpending.le_length
    rw [heq, hadopt]
    refine ⟨?_, nofun⟩
    change Boundary m.history.starts messages (m.advance all m.pendingCutoff).compactedCount
    rwa [hcount]

theorem starts {m' : CompactionManager} (h : m.Paired messages) (hstarts : m.Starts messages m') :
    m'.Paired messages := by
  obtain ⟨k, trigger, -, -, rfl⟩ := hstarts
  exact ⟨h.active.cons _, fun _ => h.active.of_safeCutoff⟩

theorem maybeStart (h : m.Paired messages) :
    (m.maybeStartCompactionWith env messages).Paired messages := by
  rcases m.maybeStart_cases env messages with heq | hstarts
  · rwa [heq]
  · exact h.starts hstarts

theorem force (h : m.Paired messages) : (m.forceCompactWith env messages).1.Paired messages := by
  rcases m.force_cases env messages with heq | hstarts
  · rwa [heq]
  · exact h.starts hstarts

theorem hard (h : m.Paired messages) : (m.hardCompactWith env messages).1.Paired messages := by
  have hcases := m.hard_cases env messages
  rw [clamp_eq (.inl h.active.le_length)] at hcases
  rcases hcases with heq | ⟨k, -, heq⟩
  · rwa [heq]
  · have hcut := h.active.of_safeCutoff (k := k)
    obtain ⟨summary, event, trigger, pendingCutoff, hdrop, -⟩ :=
      m.dropMessages_spec env messages (safeCompactionCutoff (m.activeMessages messages) k)
    rw [heq, hdrop]
    refine ⟨?_, nofun⟩
    change Boundary (messages.length :: m.history.starts) messages (min _ messages.length)
    rwa [Nat.min_eq_left hcut.le_length]

theorem ensure (h : m.Paired messages) (during : Option Completion) :
    (m.ensureContextFits env during messages).1.Paired messages :=
  ensure_rule (P := fun m => m.Paired messages) (fun _ completion h => h.finishTask completion)
    (fun _ h => h.check (.inl rfl)) (fun _ h => h.hard) (fun _ h => h.maybeStart) h

end CompactionManager.Paired

/-! ### Sessions -/

/-- Truncation keeps the calls and the results. -/
theorem ids_truncate (messages : List Message) (a b : ℕ) :
    (emergencyTruncateLargePayloads messages a b).1.map (fun msg => (msg.uses, msg.results)) =
      messages.map fun msg => (msg.uses, msg.results) := by
  have hblock : ∀ block : ContentBlock,
      ((truncatedBlock a b block).getD block).use = block.use ∧
        ((truncatedBlock a b block).getD block).result = block.result := by
    intro block
    cases block with
    | toolResult toolUseId content =>
        unfold truncatedBlock
        dsimp only
        split <;> exact ⟨rfl, rfl⟩
    | image mediaType data =>
        unfold truncatedBlock
        dsimp only
        split <;> exact ⟨rfl, rfl⟩
    | text | reasoning | reasoningTrace | anthropicThinking | openAIReasoning | toolUse
    | openAICompaction => exact ⟨rfl, rfl⟩
  unfold emergencyTruncateLargePayloads
  rw [List.map_map]
  refine List.map_congr_left fun msg _ => ?_
  refine Prod.ext ?_ ?_
  · simp only [Function.comp_apply, Message.uses, List.filterMap_map]
    exact List.filterMap_congr fun block _ => (hblock block).1
  · simp only [Function.comp_apply, Message.results, List.filterMap_map]
    exact List.filterMap_congr fun block _ => (hblock block).2

def Session.Paired (s : Session) : Prop := s.manager.Paired s.messages

namespace Session.Paired

variable {s : Session}

theorem append (h : s.Paired) (role : Role) (content : List ContentBlock)
    (announcement : Announcement) : (s.append role content announcement).Paired := by
  have hmore : s.manager.Paired (s.append role content announcement).messages :=
    ⟨h.active.append _, fun hsome => (h.pending hsome).append _⟩
  cases announcement with
  | unsized => exact hmore.congr rfl (fun hsome => hsome) rfl rfl
  | withMessage => exact hmore.congr rfl (fun hsome => hsome) rfl rfl
  | blocks => exact hmore.congr rfl (fun hsome => hsome) rfl rfl

theorem truncate (h : s.Paired) : s.truncate.Paired := by
  have hids := s.map_truncate fun messages => ids_truncate messages _ _
  have hsame : s.manager.Paired s.truncate.messages :=
    ⟨h.active.congr hids, fun hsome => (h.pending hsome).congr hids⟩
  unfold Session.Paired
  rcases s.truncate_manager with heq | ⟨heq, -⟩
  · rw [heq]
    exact hsame.congr rfl (fun hsome => hsome) rfl rfl
  · rwa [heq]

/-- **One event.** -/
theorem live (h : s.Paired) (e : LiveEvent) : (s.live e).Paired := by
  cases e with
  | append role content announcement => exact h.append role content announcement
  | maybeStart env => exact CompactionManager.Paired.maybeStart h
  | force env => exact CompactionManager.Paired.force h
  | finish completion => exact CompactionManager.Paired.finishTask h completion
  | check => exact CompactionManager.Paired.check h (.inl rfl)
  | checkUnknown =>
      exact (CompactionManager.Paired.check h (.inr rfl)).congr rfl (fun hsome => hsome) rfl rfl
  | poll =>
      exact (CompactionManager.Paired.check h (.inl rfl)).congr rfl (fun hsome => hsome) rfl rfl
  | hard env => exact CompactionManager.Paired.hard h
  | ensure env during => exact CompactionManager.Paired.ensure h during
  | truncate => exact h.truncate
  | api => exact (CompactionManager.Paired.check h (.inl rfl)).discard
  | setBudget | setMode | observe | snapshot => exact h.congr rfl (fun hsome => hsome) rfl rfl

theorem run {s s' : Session} {ts : List (Transition Session LiveEvent)}
    (run : Run liveStep s ts s') (h : s.Paired) : s'.Paired :=
  run.preserves (fun t _ ht h => (Option.some.inj ht) ▸ h.live t.event) h

end Session.Paired

/-- **No compaction orphans a tool result.**  In a live session whose calls have distinct ids, whose
results come in later messages than their calls, and in which no call was outstanding when a
compaction was started, each result in the messages of a request has its call earlier there. -/
theorem no_orphan_results {config : CompactionConfig} {mode : CompactionMode}
    {ts : List (Transition Session LiveEvent)} {s : Session}
    (run : Run liveStep (.new config mode) ts s) (hdistinct : (uses s.messages).Nodup)
    (hfollow : ResultsFollow s.messages)
    (hout : ∀ n ∈ s.manager.history.starts, ¬ Outstanding s.messages n) :
    ResultsFollow (s.manager.messagesForApiWith s.messages).2 := by
  have hpaired : s.Paired := Session.Paired.run run ⟨.inl rfl, nofun⟩
  have hchecked := (CompactionManager.Paired.check hpaired (.inl rfl)).discard
  -- neither step starts a compaction
  have hstarts : (s.manager.messagesForApiWith s.messages).1.history.starts =
      s.manager.history.starts := by
    obtain ⟨summary, observed, hdiscard, -⟩ :=
      (s.manager.checkAndApplyCompactionWith s.messages).discard_frame
    rw [← s.manager.check_starts s.messages]
    exact congrArg (fun m => m.history.starts) hdiscard
  have hactive := hchecked.active.resultsFollow_drop hdistinct hfollow
    fun n hn => hout n (hstarts ▸ hn)
  rw [← CompactionManager.activeMessages_eq] at hactive
  exact hactive.append_summary _

/-- A call and its result among twelve messages, a compaction that would part them, and another call
before its result is applied. -/
def pairedEvents : List LiveEvent :=
  [.setBudget 1000, appendForty, .append .assistant [.toolUse "t1" "read" "\x7b\x7d"] .blocks,
    .append .user [.toolResult "t1" "done"] .blocks] ++ List.replicate 9 appendForty ++
  [.force plainEnv, .append .assistant [.toolUse "t2" "read" "\x7b\x7d"] .blocks,
    .append .user [.toolResult "t2" "done"] .blocks, .finish (.ran plainProvider 10), .check]

/-- The compaction stops before the call, and no result is orphaned. -/
theorem no_orphan_results_paired :
    ∃ ts s, Run liveStep (.new .default .reactive) ts s ∧ ts.map Transition.event = pairedEvents ∧
      s.manager.compactedCount = 1 ∧ s.manager.history.starts = [12] ∧
      ResultsFollow (s.manager.messagesForApiWith s.messages).2 := by
  have hexec : (exec liveStep (.new .default .reactive) pairedEvents).map (fun r =>
      ((r.2.manager.compactedCount, r.2.manager.history.starts),
        (decide (uses r.2.messages).Nodup, decide (ResultsFollow r.2.messages),
          decide (Outstanding r.2.messages 12)))) =
      some ((1, [12]), (true, true, false)) := by decide +kernel
  obtain ⟨ts, s, run, hes, hobs⟩ := Run.of_observed hexec
  obtain ⟨hstate, hchecks⟩ := Prod.mk.inj hobs
  obtain ⟨hcount, hstarts⟩ := Prod.mk.inj hstate
  obtain ⟨hdistinct, hrest⟩ := Prod.mk.inj hchecks
  obtain ⟨hfollow, hout⟩ := Prod.mk.inj hrest
  refine ⟨ts, s, run, hes, hcount, hstarts, ?_⟩
  refine no_orphan_results run (of_decide_eq_true hdistinct) (of_decide_eq_true hfollow) ?_
  intro n hn
  obtain rfl := List.mem_singleton.mp (hstarts ▸ hn)
  exact of_decide_eq_false hout

/-- When each call is answered at most once, one that is answered is not outstanding. -/
theorem not_outstanding_of_answered {messages : List Message} {n : ℕ}
    (honce : (results messages).Nodup)
    (hanswered : ∀ id ∈ uses (messages.take n), id ∈ results (messages.take n)) :
    ¬ Outstanding messages n := by
  rintro ⟨id, huse, hresult⟩
  rw [← List.take_append_drop n messages, results_append] at honce
  exact (List.nodup_append.mp honce).2.2 id (hanswered id huse) id hresult rfl

end Jcode.Compaction
