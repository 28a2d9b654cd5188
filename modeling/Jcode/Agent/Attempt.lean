import Jcode.Agent.Stream

/-!
# Agent — what an attempt says

A response comes in attempts: each rollback throws away what came before it, and the events after
the last one are the attempt that counts.  Its text, its reasoning and its calls are read off the
events, and the loops collect just these.

* `foldl_absorb_lastAttempt`: what is collected, is collected from the last attempt, but for the
  counts of tokens.
* `reads_rolledBack`, `foldl_absorb_signed`: what is collected from an attempt is what it says.
-/

namespace Jcode.Agent
open Chat Rust

/-! ### Reading an attempt -/

def StreamEvent.isRollback : StreamEvent → Bool
  | .retryRollback _ _ => true
  | _ => false

/-- The events after the last rollback. -/
def lastAttempt (events : List StreamEvent) : List StreamEvent :=
  events.rtakeWhile fun e => !e.isRollback

def textOf : List StreamEvent → String
  | [] => ""
  | .textDelta text :: es => text ++ textOf es
  | _ :: es => textOf es

def reasoningOf : List StreamEvent → String
  | [] => ""
  | .thinkingDelta text :: es => text ++ reasoningOf es
  | _ :: es => reasoningOf es

/-- The last stop reason that is given, or the one before. -/
def stopReasonFrom : Option String → List StreamEvent → Option String
  | reason, [] => reason
  | _, .messageEnd (some reason) :: es => stopReasonFrom (some reason) es
  | reason, _ :: es => stopReasonFrom reason es

/-- The calls that are completed, given the one that is open and its input so far. -/
def callsFrom (json : Json) : Option ToolCall → String → List StreamEvent → List ToolCall
  | _, _, [] => []
  | tool, input, e :: es =>
      match e with
      | .toolUseStart id name => callsFrom json (some ⟨id, name, null, none, none⟩) "" es
      | .toolInputDelta delta => callsFrom json tool (input ++ delta) es
      | .toolUseEnd =>
          match tool with
          | some tool =>
              let value := ToolCall.parseStreamedInputToObject json input
              { tool with input := value, intent := ToolCall.intentFromInput json value } ::
                callsFrom json none "" es
          | none => callsFrom json none input es
      | _ => callsFrom json tool input es

def callsOf (json : Json) (attempt : List StreamEvent) : List ToolCall :=
  callsFrom json none "" attempt

/-- A signature comes after a call that is completed. -/
def Signed (json : Json) (attempt : List StreamEvent) : Prop :=
  ∃ us signature vs, attempt = us ++ .toolUseSignature signature :: vs ∧ signature ≠ "" ∧
    callsOf json us ≠ []

def StreamEvent.isReasoningItem : StreamEvent → Bool
  | .openAIReasoning _ _ _ _ => true
  | _ => false

/-- The counts, after an event. -/
def Usage.count (u : Usage) : StreamEvent → Usage
  | .tokenUsage input output cacheRead cacheCreation =>
      u.update input output cacheRead cacheCreation
  | _ => u

/-- The last count of each kind that the events report. -/
def usageOf (events : List StreamEvent) : Usage := events.foldl Usage.count .none

/-! ### Attempts -/

variable {env : Env} {r r' : Response} {e : StreamEvent} {es : List StreamEvent}

/-- After a rollback. -/
def Response.rolledBack (marks : AgentMarks) (usage : Usage) : Response :=
  { Response.new marks with usage }

theorem absorb_rollback (r : Response) (attempt max : ℕ) :
    absorb env r (.retryRollback attempt max) = .rolledBack r.marks r.usage := rfl

theorem mem_lastAttempt (h : e ∈ lastAttempt es) : e ∈ es ∧ e.isRollback = false := by
  refine ⟨(List.rtakeWhile_suffix _ es).subset h, ?_⟩
  simpa using List.mem_rtakeWhile_imp h

variable (env) in
/-- What is collected, is collected from the last attempt. -/
theorem foldl_absorb_lastAttempt (marks : AgentMarks) (usage : Usage) (es : List StreamEvent) :
    ∃ marks' usage', es.foldl (absorb env) (.rolledBack marks usage) =
      (lastAttempt es).foldl (absorb env) (.rolledBack marks' usage') := by
  induction es using List.reverseRecOn with
  | nil => exact ⟨marks, usage, rfl⟩
  | append_singleton es e ih =>
      rw [List.foldl_append, lastAttempt]
      by_cases he : e.isRollback = true
      · rw [List.rtakeWhile_concat_neg _ _ _ (by simp [he])]
        cases e with
        | retryRollback attempt max => exact ⟨_, _, rfl⟩
        | _ => cases he
      · obtain ⟨marks', usage', h⟩ := ih
        refine ⟨marks', usage', ?_⟩
        rw [List.rtakeWhile_concat_pos _ _ _ (by simp [he]), List.foldl_append, h]
        rfl

/-! ### One event -/

def ToolCall.unsigned (tool : ToolCall) : ToolCall := { tool with thoughtSignature := none }

theorem signLast_unsigned (signature : String) (calls : List ToolCall) :
    (signLast signature calls).map ToolCall.unsigned = calls.map ToolCall.unsigned := by
  induction calls with
  | nil => rfl
  | cons tool rest ih =>
      cases rest with
      | nil => rfl
      | cons next rest =>
          show tool.unsigned :: (signLast signature (next :: rest)).map ToolCall.unsigned = _
          rw [ih]
          rfl

theorem signLast_signed (signature : String) {calls : List ToolCall} (h : calls ≠ []) :
    ∃ tool ∈ signLast signature calls, tool.thoughtSignature ≠ none := by
  induction calls with
  | nil => exact absurd rfl h
  | cons tool rest ih =>
      cases rest with
      | nil => exact ⟨_, List.mem_singleton.mpr rfl, Option.some_ne_none _⟩
      | cons next rest =>
          obtain ⟨signed, hmem, hsigned⟩ := ih (List.cons_ne_nil _ _)
          exact ⟨signed, List.mem_cons_of_mem _ hmem, hsigned⟩

theorem signLast_nil_iff (signature : String) (calls : List ToolCall) :
    signLast signature calls = [] ↔ calls = [] := by
  cases calls with
  | nil => exact .rfl
  | cons tool rest =>
      cases rest with
      | nil => simp [signLast]
      | cons next rest => simp [signLast]

/-- Some call that has been collected is signed. -/
def Response.Signed (r : Response) : Prop := ∃ tool ∈ r.toolCalls, tool.thoughtSignature ≠ none

/-- What an event of an attempt adds. -/
structure Absorbs (env : Env) (r r' : Response) (e : StreamEvent) : Prop where
  text : r'.textContent = r.textContent ++ textOf [e]
  reasoning : r'.reasoningContent = r.reasoningContent ++ reasoningOf [e]
  items : r'.openaiReasoningItems ≠ [] ↔ r.openaiReasoningItems ≠ [] ∨
    storesReasoningContentForContext env = true ∧ e.isReasoningItem = true
  stop : r'.stopReason = stopReasonFrom r.stopReason [e]
  calls : ∀ rest, (r'.toolCalls ++
      callsFrom env.json r'.currentTool r'.currentToolInput rest).map ToolCall.unsigned =
    (r.toolCalls ++
      callsFrom env.json r.currentTool r.currentToolInput (e :: rest)).map ToolCall.unsigned
  current : (∀ tool, r.currentTool = some tool → tool.thoughtSignature = none) →
    ∀ tool, r'.currentTool = some tool → tool.thoughtSignature = none
  signed : (∀ tool, r.currentTool = some tool → tool.thoughtSignature = none) →
    (r'.Signed ↔ r.Signed ∨
      ∃ signature, e = .toolUseSignature signature ∧ signature ≠ "" ∧ r.toolCalls ≠ [])

/-- An event that none of these is about. -/
theorem Absorbs.same (htext : r'.textContent = r.textContent)
    (hreasoning : r'.reasoningContent = r.reasoningContent)
    (hitems : r'.openaiReasoningItems = r.openaiReasoningItems)
    (hstop : r'.stopReason = r.stopReason) (htools : r'.toolCalls = r.toolCalls)
    (hcurrent : r'.currentTool = r.currentTool)
    (hinput : r'.currentToolInput = r.currentToolInput) (hnothing : textOf [e] = "")
    (hthinks : reasoningOf [e] = "") (hitem : e.isReasoningItem = false)
    (hends : stopReasonFrom r.stopReason [e] = r.stopReason)
    (hcalls : ∀ rest, callsFrom env.json r.currentTool r.currentToolInput (e :: rest) =
      callsFrom env.json r.currentTool r.currentToolInput rest)
    (hsigns : ∀ signature, e ≠ .toolUseSignature signature) : Absorbs env r r' e where
  text := by simp [htext, hnothing]
  reasoning := by simp [hreasoning, hthinks]
  items := by simp [hitems, hitem]
  stop := by rw [hstop, hends]
  calls rest := by rw [htools, hcurrent, hinput, hcalls]
  current := by
    rw [hcurrent]
    exact id
  signed _ := by
    rw [Response.Signed, htools]
    refine ⟨.inl, ?_⟩
    rintro (h | ⟨signature, rfl, -⟩)
    · exact h
    · exact absurd rfl (hsigns signature)

variable (env) in
theorem absorbs (r : Response) (he : e.isRollback = false) :
    Absorbs env r (absorb env r e) e := by
  cases e with
  | retryRollback => cases he
  | textDelta text =>
      refine ⟨by simp [absorb, runTurnEvent, textOf], by simp [absorb, runTurnEvent, reasoningOf],
        by simp [absorb, runTurnEvent, StreamEvent.isReasoningItem], rfl, fun _ => rfl, id, ?_⟩
      intro _
      simp [absorb, runTurnEvent, Response.Signed]
  | thinkingDelta text =>
      refine ⟨by simp [absorb, runTurnEvent, textOf], by simp [absorb, runTurnEvent, reasoningOf],
        by simp [absorb, runTurnEvent, StreamEvent.isReasoningItem], rfl, fun _ => rfl, id, ?_⟩
      intro _
      simp [absorb, runTurnEvent, Response.Signed]
  | toolUseStart id name =>
      refine ⟨by simp [absorb, runTurnEvent, textOf], by simp [absorb, runTurnEvent, reasoningOf],
        by simp [absorb, runTurnEvent, StreamEvent.isReasoningItem], rfl, fun _ => rfl, ?_, ?_⟩
      · intro _ tool htool
        obtain rfl := Option.some.inj htool
        rfl
      · intro _
        simp [absorb, runTurnEvent, Response.Signed]
  | toolInputDelta delta =>
      refine ⟨by simp [absorb, runTurnEvent, textOf], by simp [absorb, runTurnEvent, reasoningOf],
        by simp [absorb, runTurnEvent, StreamEvent.isReasoningItem], rfl, fun _ => rfl, id, ?_⟩
      intro _
      simp [absorb, runTurnEvent, Response.Signed]
  | toolUseEnd =>
      cases htool : r.currentTool with
      | none =>
          have habsorb : absorb env r .toolUseEnd = r := by simp [absorb, runTurnEvent, htool]
          rw [habsorb]
          refine .same rfl rfl rfl rfl rfl rfl rfl rfl rfl rfl rfl (fun _ => ?_) (by simp)
          rw [htool, callsFrom]
      | some tool =>
          refine ⟨by simp [absorb, runTurnEvent, htool, textOf],
            by simp [absorb, runTurnEvent, htool, reasoningOf],
            by simp [absorb, runTurnEvent, htool, StreamEvent.isReasoningItem],
            by simp [absorb, runTurnEvent, htool, stopReasonFrom],
            fun rest => by simp [absorb, runTurnEvent, htool, callsFrom],
            fun _ => by simp [absorb, runTurnEvent, htool], fun hunsigned => ?_⟩
          have hnone := hunsigned tool htool
          simp only [Response.Signed, absorb, runTurnEvent, htool, List.mem_append,
            List.mem_singleton]
          constructor
          · rintro ⟨signed, hmem | rfl, hsigned⟩
            · exact .inl ⟨signed, hmem, hsigned⟩
            · exact absurd hnone hsigned
          · rintro (⟨signed, hmem, hsigned⟩ | ⟨signature, h, -⟩)
            · exact ⟨signed, .inl hmem, hsigned⟩
            · cases h
  | toolUseSignature signature =>
      by_cases hempty : signature = ""
      · have habsorb : absorb env r (.toolUseSignature signature) = r := by
          simp [absorb, runTurnEvent, hempty]
        rw [habsorb]
        refine ⟨by simp [textOf], by simp [reasoningOf], by simp [StreamEvent.isReasoningItem], rfl,
          fun _ => rfl, id, fun _ => ⟨.inl, ?_⟩⟩
        rintro (h | ⟨signature', h, hne, -⟩)
        · exact h
        · cases h
          exact absurd hempty hne
      · have habsorb : absorb env r (.toolUseSignature signature) =
            { r with toolCalls := signLast signature r.toolCalls } := by
          simp [absorb, runTurnEvent, hempty]
        rw [habsorb]
        refine ⟨by simp [textOf], by simp [reasoningOf], by simp [StreamEvent.isReasoningItem], rfl,
          fun rest => ?_, id, fun _ => ?_⟩
        · rw [List.map_append, signLast_unsigned, ← List.map_append]
          rfl
        · simp only [Response.Signed]
          constructor
          · intro h
            refine .inr ⟨signature, rfl, hempty, fun hnil => ?_⟩
            rw [hnil] at h
            obtain ⟨tool, hmem, -⟩ := h
            cases hmem
          · rintro (⟨tool, hmem, -⟩ | ⟨-, -, -, hne⟩)
            · exact signLast_signed signature (List.ne_nil_of_mem hmem)
            · exact signLast_signed signature hne
  | openAIReasoning id summary encryptedContent status =>
      cases hstore : storesReasoningContentForContext env with
      | false =>
          have habsorb : absorb env r (.openAIReasoning id summary encryptedContent status) = r := by
            simp [absorb, runTurnEvent, hstore]
          rw [habsorb]
          refine ⟨by simp [textOf], by simp [reasoningOf], by simp [hstore], rfl, fun _ => rfl,
            fun h => h,
            fun _ => ?_⟩
          simp
      | true =>
          refine ⟨by simp [absorb, runTurnEvent, hstore, textOf],
            by simp [absorb, runTurnEvent, hstore, reasoningOf],
            by simp [absorb, runTurnEvent, hstore, StreamEvent.isReasoningItem],
            by simp [absorb, runTurnEvent, hstore, stopReasonFrom],
            fun rest => by simp [absorb, runTurnEvent, hstore, callsFrom],
            by simp [absorb, runTurnEvent, hstore], fun _ => ?_⟩
          simp [absorb, runTurnEvent, hstore, Response.Signed]
  | messageEnd reason =>
      refine ⟨by simp [absorb, runTurnEvent, textOf], by simp [absorb, runTurnEvent, reasoningOf],
        by simp [absorb, runTurnEvent, StreamEvent.isReasoningItem], ?_, fun _ => rfl, id, ?_⟩
      · cases reason with
        | none => rfl
        | some reason => rfl
      · intro _
        simp [absorb, runTurnEvent, Response.Signed]
  | thinkingSignatureDelta signature =>
      cases hstore : storesReasoningContentForContext env with
      | false =>
          have habsorb : absorb env r (.thinkingSignatureDelta signature) = r := by
            simp [absorb, runTurnEvent, hstore]
          rw [habsorb]
          exact .same rfl rfl rfl rfl rfl rfl rfl rfl rfl rfl rfl (fun _ => rfl) (by simp)
      | true =>
          have habsorb : absorb env r (.thinkingSignatureDelta signature) =
              { r with reasoningSignature := r.reasoningSignature ++ signature } := by
            simp [absorb, runTurnEvent, hstore]
          rw [habsorb]
          exact .same rfl rfl rfl rfl rfl rfl rfl rfl rfl rfl rfl (fun _ => rfl) (by simp)
  | compaction trigger preTokens content =>
      cases content with
      | none => exact .same rfl rfl rfl rfl rfl rfl rfl rfl rfl rfl rfl (fun _ => rfl) (by simp)
      | some content =>
          exact .same rfl rfl rfl rfl rfl rfl rfl rfl rfl rfl rfl (fun _ => rfl) (by simp)
  | sessionId sid =>
      cases hsaw : r.sawMessageEnd with
      | false =>
          have habsorb : absorb env r (.sessionId sid) = { r with marks := r.marks.session sid } := by
            simp [absorb, runTurnEvent, hsaw]
          rw [habsorb]
          exact .same rfl rfl rfl rfl rfl rfl rfl rfl rfl rfl rfl (fun _ => rfl) (by simp)
      | true =>
          have habsorb : absorb env r (.sessionId sid) = { r with marks := r.marks.session sid } := by
            simp [absorb, runTurnEvent, hsaw]
          rw [habsorb]
          exact .same rfl rfl rfl rfl rfl rfl rfl rfl rfl rfl rfl (fun _ => rfl) (by simp)
  | _ => exact .same rfl rfl rfl rfl rfl rfl rfl rfl rfl rfl rfl (fun _ => rfl) (by simp)

/-! ### A whole attempt -/

theorem textOf_cons (e : StreamEvent) (es : List StreamEvent) :
    textOf (e :: es) = textOf [e] ++ textOf es := by
  cases e with
  | _ => simp [textOf]

theorem reasoningOf_cons (e : StreamEvent) (es : List StreamEvent) :
    reasoningOf (e :: es) = reasoningOf [e] ++ reasoningOf es := by
  cases e with
  | _ => simp [reasoningOf]

theorem stopReasonFrom_cons (reason : Option String) (e : StreamEvent) (es : List StreamEvent) :
    stopReasonFrom reason (e :: es) = stopReasonFrom (stopReasonFrom reason [e]) es := by
  cases e with
  | messageEnd given =>
      cases given with
      | none => rfl
      | some given => rfl
  | _ => rfl

/-- What the events of an attempt add. -/
structure Reads (env : Env) (r r' : Response) (es : List StreamEvent) : Prop where
  text : r'.textContent = r.textContent ++ textOf es
  reasoning : r'.reasoningContent = r.reasoningContent ++ reasoningOf es
  items : r'.openaiReasoningItems ≠ [] ↔ r.openaiReasoningItems ≠ [] ∨
    storesReasoningContentForContext env = true ∧ ∃ e ∈ es, e.isReasoningItem = true
  stop : r'.stopReason = stopReasonFrom r.stopReason es
  calls : r'.toolCalls.map ToolCall.unsigned = (r.toolCalls ++
    callsFrom env.json r.currentTool r.currentToolInput es).map ToolCall.unsigned
  current : (∀ tool, r.currentTool = some tool → tool.thoughtSignature = none) →
    ∀ tool, r'.currentTool = some tool → tool.thoughtSignature = none

variable (env) in
theorem reads (h : ∀ e ∈ es, e.isRollback = false) (r : Response) :
    Reads env r (es.foldl (absorb env) r) es := by
  induction es generalizing r with
  | nil => exact ⟨by simp [textOf], by simp [reasoningOf], by simp, rfl, by simp [callsFrom], id⟩
  | cons e es ih =>
      obtain ⟨he, hes⟩ := List.forall_mem_cons.mp h
      have hone := absorbs env r he
      have hrest := ih hes (absorb env r e)
      refine ⟨?_, ?_, ?_, ?_, ?_, fun hr => hrest.current (hone.current hr)⟩
      · rw [List.foldl_cons, hrest.text, hone.text, textOf_cons e es, String.append_assoc]
      · rw [List.foldl_cons, hrest.reasoning, hone.reasoning, reasoningOf_cons e es,
          String.append_assoc]
      · rw [List.foldl_cons, hrest.items, hone.items, or_assoc, ← and_or_left, List.exists_mem_cons_iff]
      · rw [List.foldl_cons, hrest.stop, hone.stop, ← stopReasonFrom_cons]
      · rw [List.foldl_cons, hrest.calls, hone.calls es]

variable (env) in
/-- Nothing has been collected. -/
theorem reads_rolledBack (h : ∀ e ∈ es, e.isRollback = false) (marks : AgentMarks) (usage : Usage) :
    let r' := es.foldl (absorb env) (.rolledBack marks usage)
    r'.textContent = textOf es ∧ r'.reasoningContent = reasoningOf es ∧
      (r'.openaiReasoningItems ≠ [] ↔ storesReasoningContentForContext env = true ∧
        ∃ e ∈ es, e.isReasoningItem = true) ∧
      r'.stopReason = stopReasonFrom none es ∧
      r'.toolCalls.map ToolCall.unsigned = (callsOf env.json es).map ToolCall.unsigned := by
  obtain ⟨htext, hreasoning, hitems, hstop, hcalls, -⟩ :=
    reads env h (.rolledBack marks usage)
  refine ⟨?_, ?_, ?_, hstop, hcalls⟩
  · rw [htext]
    exact String.empty_append
  · rw [hreasoning]
    exact String.empty_append
  · rw [hitems]
    exact or_iff_right fun hne => hne rfl

variable (env) in
theorem calls_eq_nil_iff (h : ∀ e ∈ es, e.isRollback = false) (marks : AgentMarks) (usage : Usage) :
    (es.foldl (absorb env) (.rolledBack marks usage)).toolCalls = [] ↔ callsOf env.json es = [] := by
  obtain ⟨-, -, -, -, hcalls⟩ := reads_rolledBack env h marks usage
  rw [← List.map_eq_nil_iff (f := ToolCall.unsigned), hcalls, List.map_eq_nil_iff]

theorem signed_append_singleton {json : Json} (es : List StreamEvent) (e : StreamEvent) :
    Signed json (es ++ [e]) ↔ Signed json es ∨
      ∃ signature, e = .toolUseSignature signature ∧ signature ≠ "" ∧ callsOf json es ≠ [] := by
  constructor
  · rintro ⟨us, signature, vs, heq, hne, hcalls⟩
    rcases List.eq_nil_or_concat vs with rfl | ⟨vs, last, rfl⟩
    · obtain ⟨rfl, hlast⟩ := List.append_inj' heq rfl
      exact .inr ⟨signature, List.singleton_inj.mp hlast, hne, hcalls⟩
    · rw [List.concat_eq_append, ← List.cons_append, ← List.append_assoc] at heq
      obtain ⟨rfl, -⟩ := List.append_inj' heq rfl
      exact .inl ⟨us, signature, vs, rfl, hne, hcalls⟩
  · rintro (⟨us, signature, vs, rfl, hne, hcalls⟩ | ⟨signature, rfl, hne, hcalls⟩)
    · exact ⟨us, signature, vs ++ [e], by simp, hne, hcalls⟩
    · exact ⟨es, signature, [], rfl, hne, hcalls⟩

variable (env) in
/-- **A call is signed** when a signature comes after it. -/
theorem foldl_absorb_signed (h : ∀ e ∈ es, e.isRollback = false) (marks : AgentMarks)
    (usage : Usage) :
    (es.foldl (absorb env) (.rolledBack marks usage)).Signed ↔ Signed env.json es := by
  induction es using List.reverseRecOn with
  | nil =>
      constructor
      · rintro ⟨tool, hmem, -⟩
        cases hmem
      · rintro ⟨us, signature, vs, heq, -⟩
        simp at heq
  | append_singleton es e ih =>
      have hes : ∀ e ∈ es, e.isRollback = false := fun e he => h e (List.mem_append_left _ he)
      have he := h e (List.mem_append_right _ (List.mem_singleton.mpr rfl))
      have hcurrent := (reads env hes (.rolledBack marks usage)).current
        fun tool htool => by cases htool
      rw [List.foldl_append, List.foldl_cons, List.foldl_nil, (absorbs _ _ he).signed hcurrent, ih hes,
        signed_append_singleton]
      simp only [ne_eq, calls_eq_nil_iff _ hes]

end Jcode.Agent
