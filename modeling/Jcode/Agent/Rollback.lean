import Jcode.Agent.Agree

/-!
# Agent — what a rollback leaves behind

A rollback throws away all that a loop has collected of an attempt, except for the counts of tokens:
a count that the dead attempt reported is stored with the answer, unless the next attempt reports
one of the same kind.

* `foldl_absorb_twin`: the counts and the marks have no influence on the rest.
* `rollback_leaves_no_trace`: when a rolled-back attempt leaves nothing in what is stored.
-/

namespace Jcode.Agent
open Chat Rust

/-! ### Rolled-back attempts -/

/-- An event that an attempt may have before it is rolled back. -/
def StreamEvent.isRetractable : StreamEvent → Bool
  | .messageEnd _ | .sessionId _ | .nativeToolCall _ _ _ | .error _ _ => false
  | _ => true

/-- Attempts, each with the rollback that ends it. -/
def rolledBackEvents (dead : List (List StreamEvent × ℕ × ℕ)) : List StreamEvent :=
  dead.flatMap fun d => d.1 ++ [.retryRollback d.2.1 d.2.2]

theorem isError_of_isRetractable {e : StreamEvent} (h : e.isRetractable = true) :
    e.isError = false := by
  cases e with
  | error => cases h
  | _ => rfl

theorem rolledBackEvents_isError {dead : List (List StreamEvent × ℕ × ℕ)}
    (h : ∀ d ∈ dead, ∀ e ∈ d.1, e.isRetractable = true) :
    ∀ e ∈ rolledBackEvents dead, e.isError = false := by
  intro e he
  obtain ⟨d, hd, hmem⟩ := List.mem_flatMap.mp he
  rcases List.mem_append.mp hmem with hmem | hmem
  · exact isError_of_isRetractable (h d hd e hmem)
  · rw [List.mem_singleton.mp hmem]
    rfl

theorem readEvents_append {es rest : List StreamEvent} (h : ∀ e ∈ es, e.isRetractable = true) :
    readEvents false (es ++ rest) = es ++ readEvents false rest := by
  induction es with
  | nil => rfl
  | cons e es ih =>
      obtain ⟨he, hes⟩ := List.forall_mem_cons.mp h
      cases e with
      | messageEnd | sessionId | nativeToolCall | error => cases he
      | _ => simp [readEvents, ih hes]

theorem rolledBackEvents_cons (d : List StreamEvent × ℕ × ℕ)
    (ds : List (List StreamEvent × ℕ × ℕ)) :
    rolledBackEvents (d :: ds) = d.1 ++ .retryRollback d.2.1 d.2.2 :: rolledBackEvents ds := by
  simp [rolledBackEvents]

theorem readEvents_rolledBackEvents {dead : List (List StreamEvent × ℕ × ℕ)}
    (h : ∀ d ∈ dead, ∀ e ∈ d.1, e.isRetractable = true) (es : List StreamEvent) :
    readEvents false (rolledBackEvents dead ++ es) = rolledBackEvents dead ++ readEvents false es := by
  induction dead with
  | nil => rfl
  | cons d ds ih =>
      obtain ⟨hd, hds⟩ := List.forall_mem_cons.mp h
      rw [rolledBackEvents_cons, List.append_assoc, readEvents_append hd, List.cons_append,
        readEvents, ih hds, List.append_assoc, List.cons_append]

/-! ### What is collected -/

variable {env : Env}

variable (env) in
/-- **The counts and the marks** have no influence on what else is collected. -/
theorem absorb_twin (r : Response) (usage : Usage) (marks : AgentMarks) (e : StreamEvent) :
    ∃ marks', absorb env { r with usage, marks } e =
      { absorb env r e with usage := usage.count e, marks := marks' } := by
  cases e with
  | thinkingSignatureDelta | openAIReasoning =>
      refine ⟨marks, ?_⟩
      cases hstore : storesReasoningContentForContext env with
      | false => simp [absorb, runTurnEvent, hstore, Usage.count]
      | true => simp [absorb, runTurnEvent, hstore, Usage.count]
  | toolUseSignature signature =>
      refine ⟨marks, ?_⟩
      cases hempty : signature.isEmpty with
      | false => simp [absorb, runTurnEvent, hempty, Usage.count]
      | true => simp [absorb, runTurnEvent, hempty, Usage.count]
  | toolUseEnd =>
      refine ⟨marks, ?_⟩
      cases htool : r.currentTool with
      | none => simp [absorb, runTurnEvent, htool, Usage.count]
      | some tool => simp [absorb, runTurnEvent, htool, Usage.count]
  | sessionId sid =>
      refine ⟨marks.session sid, ?_⟩
      cases hsaw : r.sawMessageEnd with
      | false => simp [absorb, runTurnEvent, hsaw, Usage.count]
      | true => simp [absorb, runTurnEvent, hsaw, Usage.count]
  | compaction trigger preTokens content =>
      cases content with
      | none => exact ⟨_, rfl⟩
      | some content => exact ⟨_, rfl⟩
  | _ => exact ⟨_, rfl⟩

variable (env) in
theorem foldl_absorb_twin (es : List StreamEvent) (r : Response) (usage : Usage)
    (marks : AgentMarks) : ∃ marks', es.foldl (absorb env) { r with usage, marks } =
      { es.foldl (absorb env) r with usage := es.foldl Usage.count usage, marks := marks' } := by
  induction es generalizing r usage marks with
  | nil => exact ⟨marks, rfl⟩
  | cons e es ih =>
      obtain ⟨marks', h⟩ := absorb_twin env r usage marks e
      rw [List.foldl_cons, h]
      exact ih _ _ _

theorem foldl_absorb_usage (es : List StreamEvent) (r : Response) :
    (es.foldl (absorb env) r).usage = es.foldl Usage.count r.usage := by
  obtain ⟨marks', h⟩ := foldl_absorb_twin env es r r.usage r.marks
  exact congrArg Response.usage h

variable (env) in
/-- Nothing is left of the attempts but their counts. -/
theorem foldl_absorb_rolledBackEvents (dead : List (List StreamEvent × ℕ × ℕ))
    (marks : AgentMarks) (usage : Usage) :
    ∃ marks', (rolledBackEvents dead).foldl (absorb env) (.rolledBack marks usage) =
      .rolledBack marks' ((rolledBackEvents dead).foldl Usage.count usage) := by
  induction dead generalizing marks usage with
  | nil => exact ⟨marks, rfl⟩
  | cons d ds ih =>
      rw [rolledBackEvents_cons, List.foldl_append, List.foldl_append, List.foldl_cons,
        List.foldl_cons, absorb_rollback, foldl_absorb_usage]
      exact ih _ _

/-! ### The counts -/

theorem foldl_count (u : Usage) (es : List StreamEvent) :
    es.foldl Usage.count u = u.update (usageOf es).input (usageOf es).output
      (usageOf es).cacheRead (usageOf es).cacheCreation := by
  induction es using List.reverseRecOn with
  | nil => rfl
  | append_singleton es e ih =>
      have hlast : usageOf (es ++ [e]) = (usageOf es).count e := by
        rw [usageOf, List.foldl_append]
        rfl
      rw [List.foldl_append, ih, hlast]
      cases e with
      | tokenUsage input output cacheRead cacheCreation =>
          cases input <;> cases output <;> cases cacheRead <;> cases cacheCreation <;> rfl
      | _ => rfl

/-- Of each kind that `a` counts, `b` counts too. -/
def Usage.CoveredBy (a b : Usage) : Prop :=
  (b.input.isSome = true ∨ a.input.getD 0 = 0) ∧ (b.output.isSome = true ∨ a.output.getD 0 = 0) ∧
  (b.cacheRead.isSome = true ∨ a.cacheRead = .none) ∧
  (b.cacheCreation.isSome = true ∨ a.cacheCreation = .none)

theorem stored_update_eq_iff (a b : Usage) :
    (a.update b.input b.output b.cacheRead b.cacheCreation).stored = b.stored ↔ a.CoveredBy b := by
  have hcount : ∀ x y : Option ℕ, (if y.isSome then y else x).getD 0 = y.getD 0 ↔
      (y.isSome = true ∨ x.getD 0 = 0) := by
    intro x y
    cases y with
    | none => simp
    | some y => simp
  have hcache : ∀ x y : Option ℕ, (if y.isSome then y else x) = y ↔
      (y.isSome = true ∨ x = none) := by
    intro x y
    cases y with
    | none => simp
    | some y => simp
  simp only [Usage.stored, Usage.update, StoredTokenUsage.mk.injEq, hcount, hcache, Usage.CoveredBy]

/-! ### What is stored -/

theorem removeTruncated_usage_eq_iff {toolCalls kept : List ToolCall} {blocks : List ContentBlock}
    {usage usage' : Usage} :
    removeTruncated toolCalls kept (storedMessage blocks usage) =
      removeTruncated toolCalls kept (storedMessage blocks usage') ↔
    blocks = [] ∨ usage.stored = usage'.stored := by
  rw [removeTruncated, removeTruncated]
  cases blocks with
  | nil => simp [storedMessage]
  | cons block blocks =>
      split
      · simp [storedMessage]
      · simp [storedMessage]

theorem reasoningBlocks_eq_nil_iff {r : Response} :
    reasoningBlocks env r = [] ↔ r.reasoningContent = "" ∧
      ¬ (storesReasoningContentForContext env = true ∧ r.openaiReasoningItems ≠ []) := by
  have hpush : ∀ store, pushReasoningBlocks env.providerName r.reasoningContent
      r.reasoningSignature store = [] ↔ r.reasoningContent = "" := by
    intro store
    rw [pushReasoningBlocks]
    split_ifs <;> simp_all
  rw [reasoningBlocks, List.append_eq_nil_iff, hpush]
  cases storesReasoningContentForContext env with
  | true => simp
  | false => simp

/-- No reasoning, and no call. -/
def Response.Silent (env : Env) (r : Response) : Prop :=
  reasoningBlocks env r = [] ∧ r.toolCalls = []

theorem runTurnFinish_eq_iff (r : Response) (usage : Usage) (marks : AgentMarks) :
    runTurnFinish env { r with usage, marks } = runTurnFinish env r ↔
      (trim r.textContent = "" ∧ r.Silent env) ∨ usage.stored = r.usage.stored := by
  rcases recover_cases env.json env.newId r.textContent r.toolCalls with
    ⟨heq, -⟩ | ⟨hnil, hblank, call, tc, -, heq, -⟩
  · simp only [runTurnFinish, heq, Stored.mk.injEq, and_true]
    refine Iff.trans removeTruncated_usage_eq_iff (or_congr_left ?_)
    rw [List.append_eq_nil_iff, List.append_eq_nil_iff, List.map_eq_nil_iff, and_assoc]
    refine and_congr ?_ .rfl
    by_cases hempty : r.textContent = ""
    · simp [hempty, trim_eq_empty_iff]
    · by_cases hblank : trim r.textContent = ""
      · simp [hblank]
      · simp [hempty, hblank]
  · simp only [runTurnFinish, heq, Stored.mk.injEq, and_true]
    refine Iff.trans removeTruncated_usage_eq_iff (or_congr_left (iff_of_false ?_ ?_))
    · simp
    · exact fun h => hblank h.1

theorem mpscFinish_eq_iff {s s' : Streaming} {usage : Usage} {marks : AgentMarks}
    (h : s'.response = { s.response with usage, marks }) :
    (mpscFinish env s').1 = (mpscFinish env s).1 ↔
      (s.response.textContent = "" ∧ s.response.Silent env) ∨
        usage.stored = s.response.usage.stored := by
  rcases recover_cases env.json env.newId s.response.textContent s.response.toolCalls with
    ⟨heq, -⟩ | ⟨hnil, hblank, call, tc, -, heq, -⟩
  · simp only [mpscFinish, h, heq, Stored.mk.injEq, and_true]
    refine Iff.trans removeTruncated_usage_eq_iff (or_congr_left ?_)
    rw [List.append_eq_nil_iff, List.append_eq_nil_iff, List.map_eq_nil_iff, and_assoc]
    refine and_congr ?_ .rfl
    by_cases hempty : s.response.textContent = ""
    · simp [hempty]
    · simp [hempty]
  · simp only [mpscFinish, h, heq, Stored.mk.injEq, and_true]
    refine Iff.trans removeTruncated_usage_eq_iff (or_congr_left (iff_of_false ?_ ?_))
    · simp
    · rintro ⟨hempty, -⟩
      exact hblank (by rw [hempty]; rfl)

/-! ### Whole responses -/

/-- The attempt has no reasoning that is stored, and no call. -/
def Silent (env : Env) (attempt : List StreamEvent) : Prop :=
  reasoningOf attempt = "" ∧ ¬ (storesReasoningContentForContext env = true ∧
    ∃ e ∈ attempt, e.isReasoningItem = true) ∧ callsOf env.json attempt = []

variable (env) in
/-- The events, after the attempts and without them. -/
theorem foldl_absorb_dead (marks : AgentMarks) (dead : List (List StreamEvent × ℕ × ℕ))
    (es : List StreamEvent) : ∃ marks',
      (rolledBackEvents dead ++ es).foldl (absorb env) (.new marks) =
        { es.foldl (absorb env) (.new marks) with
          usage := es.foldl Usage.count (usageOf (rolledBackEvents dead)), marks := marks' } := by
  obtain ⟨marks₁, h₁⟩ := foldl_absorb_rolledBackEvents env dead marks .none
  obtain ⟨marks₂, h₂⟩ := foldl_absorb_twin env es (.new marks)
    (usageOf (rolledBackEvents dead)) marks₁
  refine ⟨marks₂, ?_⟩
  rw [List.foldl_append]
  exact (congrArg (es.foldl (absorb env)) h₁).trans h₂

variable (env) in
/-- What a response is silent about, its last attempt is silent about. -/
theorem silent_iff (marks : AgentMarks) (es : List StreamEvent) :
    let r := es.foldl (absorb env) (.new marks)
    r.textContent = textOf (lastAttempt es) ∧ (r.Silent env ↔ Silent env (lastAttempt es)) := by
  intro r
  obtain ⟨marks', usage', hattempt⟩ := foldl_absorb_lastAttempt env marks .none es
  have hr : r = (lastAttempt es).foldl (absorb env) (.rolledBack marks' usage') := hattempt
  have hno : ∀ e ∈ lastAttempt es, e.isRollback = false := fun e he => (mem_lastAttempt he).2
  obtain ⟨htext, hreasoning, hitems, -, -⟩ := reads_rolledBack env hno marks' usage'
  have hnil := calls_eq_nil_iff env hno marks' usage'
  rw [← hr] at htext hreasoning hitems hnil
  refine ⟨htext, ?_⟩
  rw [Response.Silent, reasoningBlocks_eq_nil_iff, hreasoning, hitems, hnil, Silent, and_assoc]
  refine and_congr .rfl (and_congr (not_congr ?_) .rfl)
  rw [← and_assoc, and_self]

theorem usage_stored_eq_iff (marks : AgentMarks) (dead : List (List StreamEvent × ℕ × ℕ))
    (es : List StreamEvent) :
    (es.foldl Usage.count (usageOf (rolledBackEvents dead))).stored =
      (es.foldl (absorb env) (.new marks)).usage.stored ↔
    (usageOf (rolledBackEvents dead)).CoveredBy (usageOf es) := by
  rw [foldl_absorb_usage, foldl_count]
  exact stored_update_eq_iff _ _

theorem runTurn_rolledBack (marks : AgentMarks) {dead : List (List StreamEvent × ℕ × ℕ)}
    {es : List StreamEvent} (hdead : ∀ d ∈ dead, ∀ e ∈ d.1, e.isRetractable = true)
    (hok : ∀ e ∈ es, e.isError = false) :
    ∃ stored stored', runTurn env marks (rolledBackEvents dead ++ es) = .ok stored ∧
      runTurn env marks es = .ok stored' ∧
      (stored = stored' ↔
        (trim (textOf (lastAttempt (readEvents false es))) = "" ∧
          Silent env (lastAttempt (readEvents false es))) ∨
        (usageOf (rolledBackEvents dead)).CoveredBy (usageOf (readEvents false es))) := by
  have hall : ∀ e ∈ rolledBackEvents dead ++ es, e.isError = false := fun e he => by
    rcases List.mem_append.mp he with he | he
    · exact rolledBackEvents_isError hdead e he
    · exact hok e he
  obtain ⟨marks', hfold⟩ := foldl_absorb_dead env marks dead (readEvents false es)
  obtain ⟨htext, hsilent⟩ := silent_iff env marks (readEvents false es)
  refine ⟨runTurnFinish env ((rolledBackEvents dead ++ readEvents false es).foldl (absorb env)
    (.new marks)), runTurnFinish env ((readEvents false es).foldl (absorb env) (.new marks)),
    ?_, ?_, ?_⟩
  · rw [runTurn, consume_runTurn hall, ← readEvents_rolledBackEvents hdead]
    rfl
  · rw [runTurn, consume_runTurn hok]
    rfl
  · rw [hfold]
    refine (runTurnFinish_eq_iff _ _ _).trans ?_
    rw [usage_stored_eq_iff, htext, hsilent]

theorem mpsc_rolledBack (marks : AgentMarks) {dead : List (List StreamEvent × ℕ × ℕ)}
    {es : List StreamEvent} (hdead : ∀ d ∈ dead, ∀ e ∈ d.1, e.isRetractable = true)
    (hok : ∀ e ∈ es, e.isError = false) :
    ∃ stored stored' sent sent',
      runTurnStreamingMpsc env marks (rolledBackEvents dead ++ es) = .ok (stored, sent) ∧
      runTurnStreamingMpsc env marks es = .ok (stored', sent') ∧
      (stored = stored' ↔
        (textOf (lastAttempt es) = "" ∧ Silent env (lastAttempt es)) ∨
        (usageOf (rolledBackEvents dead)).CoveredBy (usageOf es)) := by
  have hall : ∀ e ∈ rolledBackEvents dead ++ es, e.isError = false := fun e he => by
    rcases List.mem_append.mp he with he | he
    · exact rolledBackEvents_isError hdead e he
    · exact hok e he
  obtain ⟨marks', hfold⟩ := foldl_absorb_dead env marks dead es
  obtain ⟨htext, hsilent⟩ := silent_iff env marks es
  have hresponse := foldl_stream_response env es (.new marks)
  have hboth := (foldl_stream_response env (rolledBackEvents dead ++ es) (.new marks)).trans
    hfold
  set s := es.foldl (stream env) (.new marks) with hs
  set t := (rolledBackEvents dead ++ es).foldl (stream env) (.new marks) with ht
  refine ⟨(mpscFinish env t).1, (mpscFinish env s).1, (mpscFinish env t).2, (mpscFinish env s).2,
    ?_, ?_, ?_⟩
  · rw [runTurnStreamingMpsc, consume_mpsc hall, ← ht]
    rfl
  · rw [runTurnStreamingMpsc, consume_mpsc hok, ← hs]
    rfl
  · have hnew : (Streaming.new marks).response = .new marks := rfl
    rw [hnew] at hresponse
    rw [← hresponse] at hboth htext hsilent
    refine (mpscFinish_eq_iff hboth).trans ?_
    rw [htext, hsilent, hresponse, usage_stored_eq_iff]

variable (env) in
/-- **A rolled-back attempt leaves no trace** in what is stored exactly when nothing is stored, or
the next attempt counts its tokens itself. -/
theorem rollback_leaves_no_trace (marks : AgentMarks) {dead : List (List StreamEvent × ℕ × ℕ)}
    {es : List StreamEvent} (hdead : ∀ d ∈ dead, ∀ e ∈ d.1, e.isRetractable = true)
    (hok : ∀ e ∈ es, e.isError = false) :
    (∃ stored stored', runTurn env marks (rolledBackEvents dead ++ es) = .ok stored ∧
      runTurn env marks es = .ok stored' ∧
      (stored = stored' ↔
        (trim (textOf (lastAttempt (readEvents false es))) = "" ∧
          Silent env (lastAttempt (readEvents false es))) ∨
        (usageOf (rolledBackEvents dead)).CoveredBy (usageOf (readEvents false es)))) ∧
    ∃ stored stored' sent sent',
      runTurnStreamingMpsc env marks (rolledBackEvents dead ++ es) = .ok (stored, sent) ∧
      runTurnStreamingMpsc env marks es = .ok (stored', sent') ∧
      (stored = stored' ↔
        (textOf (lastAttempt es) = "" ∧ Silent env (lastAttempt es)) ∨
        (usageOf (rolledBackEvents dead)).CoveredBy (usageOf es)) :=
  ⟨runTurn_rolledBack marks hdead hok, mpsc_rolledBack marks hdead hok⟩

/-! ### A count that stays -/

/-- An attempt that reports its input tokens, and is rolled back. -/
def counted : List (List StreamEvent × ℕ × ℕ) :=
  [([.tokenUsage (some 7) none (some 5) none, .textDelta "a"], 1, 3)]

theorem rollback_leaves_no_trace_counted :
    (∃ stored stored',
      runTurn plainEnv noMarks (rolledBackEvents counted ++ [.textDelta "b"]) = .ok stored ∧
      runTurn plainEnv noMarks [.textDelta "b"] = .ok stored' ∧
      (stored = stored' ↔
        (trim (textOf (lastAttempt (readEvents false [.textDelta "b"]))) = "" ∧
          Silent plainEnv (lastAttempt (readEvents false [.textDelta "b"]))) ∨
        (usageOf (rolledBackEvents counted)).CoveredBy
          (usageOf (readEvents false [.textDelta "b"])))) ∧
    ∃ stored stored' sent sent',
      runTurnStreamingMpsc plainEnv noMarks (rolledBackEvents counted ++ [.textDelta "b"]) =
        .ok (stored, sent) ∧
      runTurnStreamingMpsc plainEnv noMarks [.textDelta "b"] = .ok (stored', sent') ∧
      (stored = stored' ↔
        (textOf (lastAttempt [.textDelta "b"]) = "" ∧
          Silent plainEnv (lastAttempt [.textDelta "b"])) ∨
        (usageOf (rolledBackEvents counted)).CoveredBy (usageOf [.textDelta "b"])) :=
  rollback_leaves_no_trace plainEnv noMarks (by decide) (by decide)

/-- **The tokens of a rolled-back attempt** are stored with the answer, in both loops. -/
theorem dead_tokens_stored : (∀ d ∈ counted, ∀ e ∈ d.1, e.isRetractable = true) ∧
    (runTurn plainEnv noMarks (rolledBackEvents counted ++ [.textDelta "b"])).toOption.map
        Stored.message = some (some ([.text "b" none], ⟨7, 0, some 5, none⟩)) ∧
    (runTurn plainEnv noMarks [.textDelta "b"]).toOption.map Stored.message =
      some (some ([.text "b" none], ⟨0, 0, none, none⟩)) ∧
    ((runTurnStreamingMpsc plainEnv noMarks
        (rolledBackEvents counted ++ [.textDelta "b"])).toOption.map fun out => out.1.message) =
      some (some ([.text "b" none], ⟨7, 0, some 5, none⟩)) ∧
    ((runTurnStreamingMpsc plainEnv noMarks [.textDelta "b"]).toOption.map fun out =>
      out.1.message) = some (some ([.text "b" none], ⟨0, 0, none, none⟩)) :=
  ⟨by decide, by decide +kernel, by decide +kernel, by decide +kernel, by decide +kernel⟩

end Jcode.Agent
