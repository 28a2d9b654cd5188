import Jcode.Agent.Attempt
import Jcode.Support.Text

/-!
# Agent — the two turn loops store the same response

Both loops collect the same (`foldl_stream_response`), and take the calls out of a text in the same
way.  They differ in what they make of it: `run_turn_streaming_mpsc` stores a tool use without its
signature, and a text of nothing but whitespace, where `run_turn` keeps the signature and skips the
text.

* `message_eq_iff`: when the messages that are made of one response are equal.
* `loops_agree`: when the loops store the same for a sequence of events.
-/

namespace Jcode.Agent
open Chat Rust

/-! ### Blank texts -/

/-- What has been trimmed is not blank, unless it is empty. -/
theorem eq_empty_of_trimmed {s : String} {l : List Char}
    (hs : s = String.ofList (l.rdropWhile isWhitespace))
    (hblank : ∀ c ∈ s.toList, isWhitespace c = true) : s = "" := by
  rw [hs, String.toList_ofList, ← List.rdropWhile_eq_nil_iff, List.rdropWhile_idempotent] at hblank
  rw [hs, hblank, String.ofList_nil]

/-! ### What the recovery makes of a text -/

/-- The texts around a call are trimmed. -/
def WrappedCall.Trimmed (call : WrappedCall) : Prop :=
  (∃ s, call.prefixText = trimEnd s) ∧ ∃ s, call.suffixText = trim s

theorem findArguments_trimmed {json : Json} {before : List Char} {toolName : String}
    {rest : List Char} {fallback : Option WrappedCall} {call : WrappedCall}
    (hfallback : ∀ c ∈ fallback, c.Trimmed)
    (h : findArguments json before toolName rest fallback = some call) : call.Trimmed := by
  induction rest generalizing fallback with
  | nil => exact hfallback call h
  | cons c cs ih =>
      rw [findArguments] at h
      split at h
      · split at h
        · exact ih hfallback h
        · next parsed rest _ =>
            split at h
            · dsimp only at h
              split at h
              · obtain rfl := Option.some.inj h
                exact ⟨⟨_, rfl⟩, _, rfl⟩
              · refine ih (fun c hc => ?_) h
                cases fallback with
                | none =>
                    obtain rfl := Option.some.inj hc
                    exact ⟨⟨_, rfl⟩, _, rfl⟩
                | some first => exact hfallback c hc
            · exact ih hfallback h
      · exact ih hfallback h

theorem parseTextWrappedToolCall_trimmed {json : Json} {text : String} {call : WrappedCall}
    (h : parseTextWrappedToolCall json text = some call) : call.Trimmed := by
  rw [parseTextWrappedToolCall] at h
  split at h
  · cases h
  · dsimp only at h
    split at h
    · cases h
    · refine findArguments_trimmed (fun c hc => ?_) h
      cases hc

/-- What is left of the text is not blank, unless it is empty. -/
theorem WrappedCall.Trimmed.sanitized {call : WrappedCall} (h : call.Trimmed)
    (hblank : trim call.sanitized = "") : call.sanitized = "" := by
  obtain ⟨⟨before, hprefix⟩, after, hsuffix⟩ := h
  rw [trim_eq_empty_iff] at hblank
  rw [WrappedCall.sanitized] at hblank ⊢
  split
  · next hempty =>
      rw [if_pos hempty] at hblank
      exact eq_empty_of_trimmed hprefix hblank
  · next hsome =>
      rw [if_neg hsome] at hblank
      refine absurd ?_ hsome
      rw [String.isEmpty_iff]
      refine eq_empty_of_trimmed hsuffix fun c hc => hblank c ?_
      split
      · exact hc
      · rw [String.toList_append]
        exact List.mem_append_right _ hc

/-- Nothing is recovered, or a call that is not signed. -/
theorem recover_cases (json : Json) (newId text : String) (calls : List ToolCall) :
    (recoverTextWrappedToolCall json newId text calls = (text, calls) ∧
      (calls ≠ [] ∨ trim text = "" ∨ parseTextWrappedToolCall json text = none)) ∨
    calls = [] ∧ trim text ≠ "" ∧ ∃ call tc, parseTextWrappedToolCall json text = some call ∧
      recoverTextWrappedToolCall json newId text calls = (call.sanitized, [tc]) ∧
      tc.thoughtSignature = none := by
  rw [recoverTextWrappedToolCall]
  cases calls with
  | cons tc rest => exact .inl ⟨rfl, .inl (List.cons_ne_nil _ _)⟩
  | nil =>
      by_cases hblank : trim text = ""
      · exact .inl ⟨by simp [hblank], .inr (.inl hblank)⟩
      · cases hparse : parseTextWrappedToolCall json text with
        | none => exact .inl ⟨by simp, .inr (.inr rfl)⟩
        | some call => exact .inr ⟨rfl, hblank, call, _, rfl, if_neg (by simp [hblank]), rfl⟩

/-! ### The message -/

theorem storedMessage_eq_iff {blocks blocks' : List ContentBlock} {usage : Usage} :
    storedMessage blocks usage = storedMessage blocks' usage ↔ blocks = blocks' := by
  cases blocks with
  | nil =>
      cases blocks' with
      | nil => simp
      | cons => simp [storedMessage]
  | cons =>
      cases blocks' with
      | nil => simp [storedMessage]
      | cons => simp [storedMessage]

/-- When two messages are equal that have the reasoning and the calls in common, but for the
signatures of the calls. -/
theorem message_eq_iff {text text' : List ContentBlock}
    (htext : ∀ block ∈ text, ContentBlock.isToolUse block = false)
    (htext' : ∀ block ∈ text', ContentBlock.isToolUse block = false)
    (shared : List ContentBlock) (toolCalls kept : List ToolCall) (usage : Usage) :
    removeTruncated toolCalls kept (storedMessage (text ++ shared ++
        toolCalls.map fun tc => .toolUse tc.id tc.name tc.input tc.thoughtSignature) usage) =
      removeTruncated toolCalls kept (storedMessage (text' ++ shared ++
        toolCalls.map fun tc => .toolUse tc.id tc.name tc.input none) usage) ↔
    text = text' ∧ ((∀ tc ∈ toolCalls, tc.thoughtSignature = none) ∨
      kept.length < toolCalls.length ∧ kept = []) := by
  rw [removeTruncated, removeTruncated]
  by_cases hcut : kept.length < toolCalls.length ∧ kept = []
  · -- no call is left in either message
    obtain ⟨tc, rest, rfl⟩ := List.exists_cons_of_length_pos (Nat.zero_lt_of_lt hcut.1)
    have hkeep : ∀ bs : List ContentBlock, (∀ b ∈ bs, ContentBlock.isToolUse b = false) →
        bs.filter (fun b => !ContentBlock.isToolUse b) = bs := fun bs h =>
      List.filter_eq_self.mpr fun b hb => by rw [h b hb, Bool.not_false]
    have hdrop : ∀ (f : ToolCall → Option String) (calls : List ToolCall),
        (calls.map fun tc => ContentBlock.toolUse tc.id tc.name tc.input (f tc)).filter
          (fun b => !ContentBlock.isToolUse b) = [] := fun f calls => by
      rw [List.filter_map, List.map_eq_nil_iff, List.filter_eq_nil_iff]
      intro tc _
      simp [ContentBlock.isToolUse]
    have hsome : ∀ (bs : List ContentBlock) (f : ToolCall → Option String),
        storedMessage (bs ++ (tc :: rest).map fun tc => .toolUse tc.id tc.name tc.input (f tc)) usage =
          some (bs ++ (tc :: rest).map fun tc => .toolUse tc.id tc.name tc.input (f tc),
            usage.stored) := fun bs f => by
      simp [storedMessage]
    rw [if_pos hcut, if_pos hcut, hsome _ ToolCall.thoughtSignature, hsome _ fun _ => none]
    simp only [Option.map_some, Option.some_inj, Prod.mk.injEq, and_true, List.filter_append,
      hkeep text htext, hkeep text' htext', hdrop ToolCall.thoughtSignature, hdrop fun _ => none,
      List.append_nil, List.append_cancel_right_eq]
    exact (and_iff_left (.inr hcut)).symm
  · rw [if_neg hcut, if_neg hcut, storedMessage_eq_iff, or_iff_left hcut]
    constructor
    · intro h
      obtain ⟨hblocks, hcalls⟩ := List.append_inj' h (by simp)
      refine ⟨List.append_cancel_right hblocks, fun tc htc => ?_⟩
      have heq := List.map_inj_left.mp hcalls tc htc
      simp only [ContentBlock.toolUse.injEq, true_and] at heq
      exact heq
    · rintro ⟨rfl, hcalls⟩
      refine congrArg _ (List.map_inj_left.mpr fun tc htc => ?_)
      rw [hcalls tc htc]

/-! ### What the loops make of a response -/

/-- All calls are cut off. -/
def Response.CutOff (r : Response) : Prop :=
  shouldContinueAfterStopReason (r.stopReason.getD "") = true ∧ ∀ tc ∈ r.toolCalls, tc.input = null

theorem truncated_iff {reason : Option String} {calls : List ToolCall} (h : calls ≠ []) :
    ((filterTruncatedToolCalls reason calls).length < calls.length ∧
      filterTruncatedToolCalls reason calls = []) ↔
    shouldContinueAfterStopReason (reason.getD "") = true ∧ ∀ tc ∈ calls, tc.input = null := by
  have hpos := List.length_pos_iff.mpr h
  rw [filterTruncatedToolCalls]
  split
  · next hcontinue =>
      rw [and_iff_right hcontinue, and_iff_right_of_imp fun hnil => by rw [hnil]; exact hpos,
        List.filter_eq_nil_iff]
      simp
  · next hcontinue => simp [hcontinue, h]

variable {env : Env}

/-- The messages that are made of one response. -/
theorem finish_message_eq_iff (s : Streaming) :
    (runTurnFinish env s.response).message = (mpscFinish env s).1.message ↔
      (s.response.textContent ≠ "" → trim s.response.textContent ≠ "") ∧
      (s.response.Signed → s.response.CutOff) := by
  set r := s.response with hr
  have hblocks : ∀ {text : String} {b : Bool}, ∀ block ∈
      (if b = true then [ContentBlock.text text none] else []), ContentBlock.isToolUse block = false := by
    intro text b block hblock
    cases b with
    | false => cases hblock
    | true =>
        rw [List.mem_singleton.mp hblock]
        rfl
  have htexts : ∀ text : String,
      (if (!text.isEmpty && !(trim text).isEmpty) = true then [ContentBlock.text text none] else []) =
        (if (!text.isEmpty) = true then [ContentBlock.text text none] else []) ↔
      (text ≠ "" → trim text ≠ "") := by
    intro text
    by_cases hempty : text = ""
    · simp [hempty]
    · by_cases hblank : trim text = ""
      · simp [hempty, hblank]
      · simp [hempty, hblank]
  have hmessage : ∀ text toolCalls, recoverTextWrappedToolCall env.json env.newId r.textContent
      r.toolCalls = (text, toolCalls) →
      ((runTurnFinish env r).message = (mpscFinish env s).1.message ↔
        (text ≠ "" → trim text ≠ "") ∧ ((∀ tc ∈ toolCalls, tc.thoughtSignature = none) ∨
          (filterTruncatedToolCalls r.stopReason toolCalls).length < toolCalls.length ∧
            filterTruncatedToolCalls r.stopReason toolCalls = [])) := by
    intro text toolCalls heq
    rw [← htexts text, ← message_eq_iff hblocks hblocks (reasoningBlocks env r) toolCalls _ r.usage]
    simp only [runTurnFinish, mpscFinish, ← hr, heq]
  rcases recover_cases env.json env.newId r.textContent r.toolCalls with
    ⟨heq, -⟩ | ⟨hnil, hblank, call, tc, hparse, heq, htc⟩
  · rw [hmessage _ _ heq]
    refine and_congr .rfl ?_
    by_cases hsigned : r.Signed
    · obtain ⟨tc, htc, hsome⟩ := id hsigned
      rw [or_iff_right fun h => hsome (h tc htc), truncated_iff (List.ne_nil_of_mem htc)]
      exact ⟨fun h _ => h, fun h => h hsigned⟩
    · refine iff_of_true (.inl fun tc htc => ?_) fun h => absurd h hsigned
      by_contra hsome
      exact hsigned ⟨tc, htc, hsome⟩
  · rw [hmessage _ _ heq]
    refine iff_of_true ⟨fun hne htrim => ?_, .inl fun tc' htc' => ?_⟩ ⟨fun _ => hblank, ?_⟩
    · exact hne ((parseTextWrappedToolCall_trimmed hparse).sanitized htrim)
    · rw [List.mem_singleton.mp htc']
      exact htc
    · rintro ⟨tc', hmem, -⟩
      rw [hnil] at hmem
      cases hmem

theorem finish_toolCalls (s : Streaming) :
    (runTurnFinish env s.response).toolCalls = (mpscFinish env s).1.toolCalls := rfl

/-! ### The loops -/

/-- A session id comes at most once, and last. -/
def SessionIdLast (events : List StreamEvent) : Prop :=
  ∀ us sid vs, events = us ++ .sessionId sid :: vs → vs = []

theorem readEvents_eq {events : List StreamEvent} (h : SessionIdLast events) (saw : Bool) :
    readEvents saw events = events := by
  induction events generalizing saw with
  | nil => cases saw <;> rfl
  | cons e es ih =>
      have hes : SessionIdLast es := fun us sid vs heq => h (e :: us) sid vs (by rw [heq]; rfl)
      cases e with
      | sessionId sid =>
          obtain rfl := h [] sid es rfl
          cases saw with
          | false => rfl
          | true => rfl
      | _ =>
          cases saw with
          | false => simp only [readEvents, ih hes]
          | true => simp only [readEvents, ih hes]

/-- The loops store the same for this attempt: its text is not blank, and if a call of it is
signed, all calls are cut off. -/
def Replayable (json : Json) (attempt : List StreamEvent) : Prop :=
  (textOf attempt ≠ "" → trim (textOf attempt) ≠ "") ∧
  (Signed json attempt →
    shouldContinueAfterStopReason ((stopReasonFrom none attempt).getD "") = true ∧
    ∀ tc ∈ callsOf json attempt, tc.input = null)

variable (env) in
/-- **The two loops store the same response** exactly when the attempt that counts has no blank text
and no signed call that is kept. -/
theorem loops_agree (marks : AgentMarks) {events : List StreamEvent}
    (hok : ∀ e ∈ events, e.isError = false) (hlast : SessionIdLast events) :
    ∃ stored stored' sent, runTurn env marks events = .ok stored ∧
      runTurnStreamingMpsc env marks events = .ok (stored', sent) ∧
      ((stored.message = stored'.message ∧ stored.toolCalls = stored'.toolCalls) ↔
        Replayable env.json (lastAttempt events)) := by
  have hresponse := foldl_stream_response env events (.new marks)
  set s := events.foldl (stream env) (.new marks) with hs
  refine ⟨runTurnFinish env s.response, (mpscFinish env s).1, (mpscFinish env s).2, ?_, ?_, ?_⟩
  · rw [runTurn, consume_runTurn hok, readEvents_eq hlast, hresponse]
    rfl
  · rw [runTurnStreamingMpsc, consume_mpsc hok, ← hs]
    rfl
  · rw [finish_toolCalls, and_iff_left rfl, finish_message_eq_iff]
    obtain ⟨marks', usage', hattempt⟩ :=
      foldl_absorb_lastAttempt env marks .none events
    have hr : s.response =
        (lastAttempt events).foldl (absorb env) (.rolledBack marks' usage') :=
      hresponse.trans hattempt
    have hno : ∀ e ∈ lastAttempt events, e.isRollback = false := fun e he => (mem_lastAttempt he).2
    have hsigned := foldl_absorb_signed env hno marks' usage'
    obtain ⟨htext, -, -, hstop, hcalls⟩ := reads_rolledBack env hno marks' usage'
    rw [← hr] at hsigned htext hstop hcalls
    rw [Replayable, htext, hsigned, Response.CutOff, hstop]
    have hinputs : (∀ tc ∈ s.response.toolCalls, tc.input = null) ↔
        ∀ tc ∈ callsOf env.json (lastAttempt events), tc.input = null := by
      have hunsigned : ∀ calls : List ToolCall, (∀ tc ∈ calls, tc.input = null) ↔
          ∀ tc ∈ calls.map ToolCall.unsigned, tc.input = null := fun calls => by
        rw [List.forall_mem_map]
        rfl
      rw [hunsigned, hcalls, ← hunsigned]
    rw [hinputs]

/-! ### A signed call -/

/-- No text parses. -/
def plainJson : Json where
  fromStr _ := none
  nextValue _ := none
  getStr _ _ := none

def plainEnv : Env where
  json := plainJson
  providerName := "gemini"
  preserveReasoningContext := false
  supportsImageInput := false
  handlesToolsInternally := false
  showThinking := false
  visualContext _ _ _ _ := none
  sessionMessages := 0
  newId := "0"

def noMarks : AgentMarks where
  lastConnectionType := none
  lastStatusDetail := none
  lastUpstreamProvider := none
  providerSessionId := none
  compactionUsage := []
  nativeCalls := []

theorem loops_agree_text : ∃ stored stored' sent,
    runTurn plainEnv noMarks [.textDelta "a"] = .ok stored ∧
    runTurnStreamingMpsc plainEnv noMarks [.textDelta "a"] = .ok (stored', sent) ∧
    ((stored.message = stored'.message ∧ stored.toolCalls = stored'.toolCalls) ↔
      Replayable plainJson (lastAttempt [.textDelta "a"])) := by
  refine loops_agree plainEnv noMarks (fun e he => ?_) fun us sid vs heq => ?_
  · rw [List.mem_singleton.mp he]
    rfl
  · have hmem : StreamEvent.sessionId sid ∈ [StreamEvent.textDelta "a"] := by simp [heq]
    cases List.mem_singleton.mp hmem

def signedCall : List StreamEvent :=
  [.toolUseStart "a" "bash", .toolUseEnd, .toolUseSignature "s"]

/-- **The signature of a call is dropped** by one of the loops. -/
theorem signature_dropped : (∀ e ∈ signedCall, e.isError = false) ∧ SessionIdLast signedCall ∧
    (runTurn plainEnv noMarks signedCall).toOption.map Stored.message ≠
      (runTurnStreamingMpsc plainEnv noMarks signedCall).toOption.map fun out => out.1.message := by
  refine ⟨by decide, fun us sid vs heq => ?_, by decide +kernel⟩
  have hmem : StreamEvent.sessionId sid ∈ signedCall := by simp [heq]
  simp [signedCall] at hmem

end Jcode.Agent
