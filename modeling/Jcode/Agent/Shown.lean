import Jcode.Agent.Agree

/-!
# Agent — what the client is shown is what is stored

`run_turn_streaming_mpsc` shows a text while it arrives, but nothing from the first marker of a
wrapped call on.  When the stream has ended and a call is taken out of the text, the client gets the
rest of it; when none is, the message keeps the whole text, and the client does not get it.

* `stream_shows`: the client has the text, or the part before a marker.
* `shown_is_stored`: when what the client is shown is what is stored.
-/

namespace Jcode.Agent
open Chat Rust Occur

/-! ### The client -/

/-- What a client makes of an event. -/
def ServerEvent.onClient (shown : String) : ServerEvent → String
  | .textDelta text => shown ++ text
  | .textReplace text => text
  | .retryRollback _ _ => ""
  | _ => shown

/-- The text that the events show. -/
def clientText (sent : List ServerEvent) : String := sent.foldl ServerEvent.onClient ""

def ContentBlock.textBlock : ContentBlock → Option String
  | .text text _ => some text
  | _ => none

/-- The text of a message. -/
def storedText (message : Option (List ContentBlock × StoredTokenUsage)) : Option String :=
  message.bind fun m => (m.1.filterMap ContentBlock.textBlock).head?

/-- The client is shown the text, up to whitespace at its end, or nothing if there is none. -/
def SameText (shown : String) : Option String → Prop
  | some text => trimEnd shown = trimEnd text
  | none => trim shown = ""

@[simp] theorem clientText_send (s : Streaming) (event : ServerEvent) :
    clientText (s.send event).sent = event.onClient (clientText s.sent) := by
  rw [clientText, Streaming.send, List.foldl_append]
  rfl

@[simp] theorem clientText_collect (s : Streaming) (r : Response) :
    clientText (s.collect r).sent = clientText s.sent := rfl

@[simp] theorem clientText_closeReasoning (s : Streaming) :
    clientText s.closeReasoning.sent = clientText s.sent := by
  rw [Streaming.closeReasoning]
  split
  · exact clientText_send _ _
  · rfl

@[simp] theorem closeReasoning_textWrappedDetected (s : Streaming) :
    s.closeReasoning.textWrappedDetected = s.textWrappedDetected := by
  rw [Streaming.closeReasoning]
  split
  · rfl
  · rfl

/-! ### Markers -/

theorem findWrapMarker_eq_some {text : List Char} {idx : ℕ} (h : findWrapMarker text = some idx) :
    ∃ marker ∈ WRAP_TOOL_MARKERS, ∃ after, text = text.take idx ++ marker.toList ++ after := by
  obtain ⟨marker, hmarker, hfind⟩ := List.mem_filterMap.mp (List.min?_mem h)
  obtain ⟨-, ⟨after, hafter⟩, -⟩ := findAt_eq_some_iff.mp hfind
  refine ⟨marker, hmarker, after, ?_⟩
  rw [List.append_assoc, hafter, List.take_append_drop]

theorem marker_visible {marker : String} (h : marker ∈ WRAP_TOOL_MARKERS) :
    ∃ c ∈ marker.toList, isWhitespace c = false := by
  simp only [WRAP_TOOL_MARKERS, List.mem_cons, List.not_mem_nil, or_false] at h
  rcases h with rfl | rfl
  · exact ⟨'t', by decide, by decide⟩
  · exact ⟨'+', by decide, by decide⟩

/-- The text goes on behind the part before a marker. -/
theorem trimEnd_before_marker {text before marker after : List Char}
    (h : text = before ++ marker ++ after) (hvisible : ∃ c ∈ marker, isWhitespace c = false) :
    before.rdropWhile isWhitespace ≠ text.rdropWhile isWhitespace := by
  obtain ⟨c, hc, hvisible⟩ := hvisible
  intro heq
  have htext := List.rdropWhile_append_rtakeWhile (p := isWhitespace) (l := text)
  have hbefore := List.rdropWhile_append_rtakeWhile (p := isWhitespace) (l := before)
  have hrest : before.rtakeWhile isWhitespace ++ (marker ++ after) =
      text.rtakeWhile isWhitespace := by
    refine (List.append_right_inj (before.rdropWhile isWhitespace)).mp ?_
    rw [← List.append_assoc, hbefore, ← List.append_assoc, ← h, heq, htext]
  have hmem : c ∈ text.rtakeWhile isWhitespace := by
    rw [← hrest]
    exact List.mem_append_right _ (List.mem_append_left _ hc)
  rw [List.mem_rtakeWhile_imp hmem] at hvisible
  cases hvisible

/-! ### One event -/

/-- **What the client sees** of a response: the text, or the part before a marker. -/
structure Shows (s : Streaming) : Prop where
  items : ∀ block ∈ s.response.openaiReasoningItems, ContentBlock.textBlock block = none
  view : (s.textWrappedDetected = false ∧ clientText s.sent = s.response.textContent ∧
      findWrapMarker s.response.textContent.toList = none) ∨
    (s.textWrappedDetected = true ∧ ∃ marker ∈ WRAP_TOOL_MARKERS, ∃ before after,
      s.response.textContent.toList = before ++ marker.toList ++ after ∧
      clientText s.sent = trimEnd (String.ofList before))

variable {env : Env} {s s' : Streaming}

/-- An event without text. -/
theorem Shows.same (h : Shows s)
    (hitems : s'.response.openaiReasoningItems = s.response.openaiReasoningItems)
    (hdetected : s'.textWrappedDetected = s.textWrappedDetected)
    (hclient : clientText s'.sent = clientText s.sent)
    (htext : s'.response.textContent = s.response.textContent) : Shows s' := by
  refine ⟨by rw [hitems]; exact h.items, ?_⟩
  rw [hdetected, hclient, htext]
  exact h.view

theorem Shows.showText (h : Shows s) (text : String) :
    Shows ((s.collect { s.response with
      textContent := s.response.textContent ++ text }).showText text) := by
  rw [Streaming.showText]
  rcases h.view with ⟨hdetected, hclient, hnone⟩ | ⟨hdetected, marker, hmarker, before, after, heq, hc⟩
  · rw [if_neg (by simp [Streaming.collect, hdetected])]
    simp only [Streaming.collect_response, findWrapMarkerIncremental_append hnone]
    cases hfind : findWrapMarker (s.response.textContent ++ text).toList with
    | none =>
        refine ⟨h.items, .inl ⟨hdetected, ?_, hfind⟩⟩
        rw [clientText_send, ServerEvent.onClient, clientText_collect, hclient]
        rfl
    | some idx =>
        obtain ⟨marker, hmarker, after, hafter⟩ := findWrapMarker_eq_some hfind
        refine ⟨h.items, .inr ⟨rfl, marker, hmarker, _, after, hafter, ?_⟩⟩
        rw [clientText_send, ServerEvent.onClient]
  · rw [if_pos (by simp [Streaming.collect, hdetected])]
    refine ⟨h.items, .inr ⟨hdetected, marker, hmarker, before, after ++ text.toList, ?_, hc⟩⟩
    rw [Streaming.collect_response, String.toList_append, heq, List.append_assoc]

/-- **An event** leaves the client with the text, or with the part before a marker. -/
theorem stream_shows (h : Shows s) (e : StreamEvent) : Shows (stream env s e) := by
  cases e with
  | textDelta text =>
      simp only [stream, mpscEvent]
      split
      · exact h.showText text
      · have hclosed : Shows s.closeReasoning := h.same (by simp) (by simp) (by simp) (by simp)
        exact hclosed.showText text
  | retryRollback attempt max =>
      refine ⟨?_, .inl ⟨rfl, ?_, rfl⟩⟩
      · intro block hblock
        cases hblock
      · simp only [stream, mpscEvent, clientText_send]
        rfl
  | openAIReasoning id summary encryptedContent status =>
      cases hstore : storesReasoningContentForContext env with
      | false => simpa [stream, mpscEvent, hstore] using h
      | true =>
          simp only [stream, mpscEvent, hstore, if_true]
          refine ⟨fun block hblock => ?_, h.view⟩
          rcases List.mem_append.mp hblock with hblock | hblock
          · exact h.items block hblock
          · rw [List.mem_singleton.mp hblock]
            rfl
  | thinkingSignatureDelta signature =>
      cases hstore : storesReasoningContentForContext env with
      | false => simpa [stream, mpscEvent, hstore] using h
      | true =>
          simp only [stream, mpscEvent, hstore, if_true]
          exact h.same rfl rfl rfl rfl
  | thinkingDelta text =>
      simp only [stream, mpscEvent]
      split
      · refine h.same rfl rfl ?_ rfl
        rw [clientText_collect, clientText_send]
        rfl
      · exact h.same rfl rfl rfl rfl
  | toolUseEnd =>
      cases htool : s.response.currentTool with
      | none => simpa [stream, mpscEvent, htool] using h
      | some tool =>
          simp only [stream, mpscEvent, htool]
          exact h.same rfl rfl (clientText_send _ _) rfl
  | toolUseSignature signature =>
      cases hempty : signature.isEmpty with
      | true => simpa [stream, mpscEvent, hempty] using h
      | false =>
          simp only [stream, mpscEvent, hempty]
          exact h.same rfl rfl rfl rfl
  | compaction trigger preTokens content =>
      cases content with
      | none => exact h
      | some content => exact h.same rfl rfl rfl rfl
  | thinkingDone | toolUseStart | messageEnd =>
      simp only [stream, mpscEvent]
      exact h.same (by simp) (by simp [Streaming.send, Streaming.collect])
        (by simp [ServerEvent.onClient]) (by simp)
  | thinkingEnd | error => exact h
  | tokenUsage | nativeToolCall => exact h.same rfl rfl rfl rfl
  | _ => exact h.same rfl rfl (clientText_send _ _) rfl

variable (env) in
theorem foldl_stream_shows (h : Shows s) (events : List StreamEvent) :
    Shows (events.foldl (stream env) s) := by
  induction events generalizing s with
  | nil => exact h
  | cons e es ih => exact ih (stream_shows h e)

theorem shows_new (marks : AgentMarks) : Shows (.new marks) where
  items block hblock := by cases hblock
  view := .inl ⟨rfl, rfl, rfl⟩

/-! ### The end of the stream -/

theorem filterMap_textBlock_filter (blocks : List ContentBlock) :
    (blocks.filter fun block => !ContentBlock.isToolUse block).filterMap ContentBlock.textBlock =
      blocks.filterMap ContentBlock.textBlock := by
  rw [List.filterMap_filter]
  refine List.filterMap_congr fun block _ => ?_
  cases block with
  | _ => rfl

theorem storedText_removeTruncated (toolCalls kept : List ToolCall)
    (message : Option (List ContentBlock × StoredTokenUsage)) :
    storedText (removeTruncated toolCalls kept message) = storedText message := by
  rw [removeTruncated]
  split
  · cases message with
    | none => rfl
    | some m =>
        show ((m.1.filter _).filterMap ContentBlock.textBlock).head? = _
        rw [filterMap_textBlock_filter]
        rfl
  · rfl

theorem storedText_storedMessage (blocks : List ContentBlock) (usage : Usage) :
    storedText (storedMessage blocks usage) = (blocks.filterMap ContentBlock.textBlock).head? := by
  cases blocks with
  | nil => rfl
  | cons => rfl

theorem reasoningBlocks_textBlock {r : Response}
    (h : ∀ block ∈ r.openaiReasoningItems, ContentBlock.textBlock block = none) :
    (reasoningBlocks env r).filterMap ContentBlock.textBlock = [] := by
  have hpush : (pushReasoningBlocks env.providerName r.reasoningContent r.reasoningSignature
      (storesReasoningContentForContext env)).filterMap ContentBlock.textBlock = [] := by
    rw [pushReasoningBlocks]
    split_ifs <;> rfl
  rw [reasoningBlocks, List.filterMap_append, hpush, List.nil_append]
  split
  · exact List.filterMap_eq_nil_iff.mpr h
  · rfl

theorem mpscFinish_text {s : Streaming} (h : Shows s) {text : String} {toolCalls : List ToolCall}
    (heq : recoverTextWrappedToolCall env.json env.newId s.response.textContent
      s.response.toolCalls = (text, toolCalls)) :
    storedText (mpscFinish env s).1.message = if text = "" then none else some text := by
  simp only [mpscFinish, heq]
  rw [storedText_removeTruncated, storedText_storedMessage, List.filterMap_append,
    List.filterMap_append, reasoningBlocks_textBlock h.items, List.append_nil]
  have huses : (toolCalls.map fun tc => ContentBlock.toolUse tc.id tc.name tc.input none).filterMap
      ContentBlock.textBlock = [] := by
    rw [List.filterMap_map, List.filterMap_eq_nil_iff]
    exact fun _ _ => rfl
  rw [huses, List.append_nil]
  by_cases hempty : text = ""
  · simp [hempty]
  · simp [hempty, ContentBlock.textBlock]

theorem clientText_usage (s : Streaming) (usage : Usage) (rest : List ServerEvent) :
    clientText (s.sent ++ (if usage = .none then []
      else [.tokenUsage usage.stored.inputTokens usage.stored.outputTokens
        usage.stored.cacheReadInputTokens usage.stored.cacheCreationInputTokens]) ++ rest) =
      rest.foldl ServerEvent.onClient (clientText s.sent) := by
  rw [clientText, List.foldl_append, List.foldl_append]
  split
  · rfl
  · rfl

/-- Nothing is recovered. -/
theorem mpscFinish_kept {s : Streaming}
    (heq : recoverTextWrappedToolCall env.json env.newId s.response.textContent
      s.response.toolCalls = (s.response.textContent, s.response.toolCalls)) :
    clientText (mpscFinish env s).2 = clientText s.sent := by
  simp only [mpscFinish, heq]
  rw [clientText_usage]
  cases s.response.toolCalls with
  | nil => rfl
  | cons => rfl

/-- A call is recovered. -/
theorem mpscFinish_recovered {s : Streaming} {text : String} {tc : ToolCall}
    (hnil : s.response.toolCalls = [])
    (heq : recoverTextWrappedToolCall env.json env.newId s.response.textContent
      s.response.toolCalls = (text, [tc])) : clientText (mpscFinish env s).2 = text := by
  simp only [mpscFinish, heq]
  rw [clientText_usage, hnil]
  rfl

/-- The client is shown a text: it has no marker, or a call is taken out of it. -/
def Restored (json : Json) (attempt : List StreamEvent) : Prop :=
  findWrapMarker (textOf attempt).toList = none ∨
    callsOf json attempt = [] ∧ (parseTextWrappedToolCall json (textOf attempt)).isSome = true

theorem sameText_stored {s : Streaming} (h : Shows s) :
    SameText (clientText (mpscFinish env s).2) (storedText (mpscFinish env s).1.message) ↔
      findWrapMarker s.response.textContent.toList = none ∨ s.response.toolCalls = [] ∧
        (parseTextWrappedToolCall env.json s.response.textContent).isSome = true := by
  rcases recover_cases env.json env.newId s.response.textContent s.response.toolCalls with
    ⟨heq, hwhy⟩ | ⟨hnil, -, call, tc, hparse, heq, -⟩
  · rw [mpscFinish_text h heq, mpscFinish_kept heq]
    rcases h.view with ⟨-, hclient, hnone⟩ | ⟨-, marker, hmarker, before, after, htext, hclient⟩
    · refine iff_of_true ?_ (.inl hnone)
      rw [hclient]
      split
      · next hempty =>
          rw [SameText, hempty]
          rfl
      · exact rfl
    · obtain ⟨c, hc, hvisible⟩ := marker_visible hmarker
      have hmem : c ∈ s.response.textContent.toList := by
        rw [htext]
        exact List.mem_append_left _ (List.mem_append_right _ hc)
      have hne : s.response.textContent ≠ "" := fun hempty => by
        rw [hempty] at hmem
        cases hmem
      refine iff_of_false ?_ ?_
      · rw [if_neg hne, SameText, hclient, trimEnd, trimEnd, trimEnd, String.toList_ofList,
          String.toList_ofList, List.rdropWhile_idempotent, String.ofList_inj]
        exact trimEnd_before_marker htext ⟨c, hc, hvisible⟩
      · rintro (hnone | ⟨hnil, hparse⟩)
        · refine findWrapMarker_eq_none_iff.mp hnone marker hmarker ⟨before, after, htext.symm⟩
        · rcases hwhy with hcalls | hblank | hfail
          · exact hcalls hnil
          · rw [trim_eq_empty_iff.mp hblank c hmem] at hvisible
            cases hvisible
          · rw [hfail] at hparse
            cases hparse
  · rw [mpscFinish_text h heq, mpscFinish_recovered hnil heq]
    refine iff_of_true ?_ (.inr ⟨hnil, by rw [hparse]; rfl⟩)
    split
    · next hempty =>
        rw [SameText, hempty]
        rfl
    · exact rfl

variable (env) in
/-- **What the client is shown is what is stored** exactly when the text of the attempt that counts
has no marker, or a call is taken out of it. -/
theorem shown_is_stored (marks : AgentMarks) {events : List StreamEvent}
    (hok : ∀ e ∈ events, e.isError = false) :
    ∃ stored sent, runTurnStreamingMpsc env marks events = .ok (stored, sent) ∧
      (SameText (clientText sent) (storedText stored.message) ↔
        Restored env.json (lastAttempt events)) := by
  have hresponse := foldl_stream_response env events (.new marks)
  have hshows := foldl_stream_shows env (shows_new marks) events
  set s := events.foldl (stream env) (.new marks) with hs
  refine ⟨(mpscFinish env s).1, (mpscFinish env s).2, ?_, ?_⟩
  · rw [runTurnStreamingMpsc, consume_mpsc hok, ← hs]
    rfl
  · obtain ⟨marks', usage', hattempt⟩ := foldl_absorb_lastAttempt env marks .none events
    have hr : s.response =
        (lastAttempt events).foldl (absorb env) (.rolledBack marks' usage') :=
      hresponse.trans hattempt
    have hno : ∀ e ∈ lastAttempt events, e.isRollback = false := fun e he => (mem_lastAttempt he).2
    have hnil := calls_eq_nil_iff env hno marks' usage'
    obtain ⟨htext, -⟩ := reads_rolledBack env hno marks' usage'
    rw [← hr] at hnil htext
    rw [sameText_stored hshows, hnil, htext, Restored]

/-! ### A marker without a call -/

theorem shown_is_stored_text : ∃ stored sent,
    runTurnStreamingMpsc plainEnv noMarks [.textDelta "a"] = .ok (stored, sent) ∧
    (SameText (clientText sent) (storedText stored.message) ↔
      Restored plainJson (lastAttempt [.textDelta "a"])) := by
  refine shown_is_stored plainEnv noMarks fun e he => ?_
  rw [List.mem_singleton.mp he]
  rfl

/-- A text about the marker. -/
def mentioned : List StreamEvent := [.textDelta "Use +#+# as", .textDelta " a separator."]

/-- **The rest of a text is not shown** when it mentions a marker. -/
theorem mention_cut_off : (∀ e ∈ mentioned, e.isError = false) ∧
    ((runTurnStreamingMpsc plainEnv noMarks mentioned).toOption.map fun out =>
      (clientText out.2, storedText out.1.message)) =
        some ("Use", some "Use +#+# as a separator.") ∧
    ¬ SameText "Use" (some "Use +#+# as a separator.") := by
  refine ⟨by decide, by decide +kernel, ?_⟩
  rw [SameText]
  decide +kernel

end Jcode.Agent
