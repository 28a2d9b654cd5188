import Jcode.Agent.Recovery

/-!
# Agent — the stream of a response

The event loops of `run_turn` (`agent/turn_loops.rs`) and of `run_turn_streaming_mpsc`
(`agent/turn_streaming_mpsc.rs`), and what each makes of the response when the stream has ended.
The second one tells a client what it sees.  What has to do with the clock is left out, and so are
cancellation, printing, logging and telemetry; an error ends the stream.

* `runTurnEvent_next`, `mpscEvent_next`: both loops collect the same from an event (`absorb`).
-/

namespace Jcode.Agent
open Chat Rust

/-! ### Events -/

inductive ConnectionPhase where
  | authenticating
  | connecting
  | waitingForResponse
  | streaming
  | retrying (attempt max : ℕ)
  deriving DecidableEq, Repr

def ConnectionPhase.toString : ConnectionPhase → String
  | .authenticating => "authenticating"
  | .connecting => "connecting"
  | .waitingForResponse => "waiting for response"
  | .streaming => "streaming"
  | .retrying attempt max => s!"retrying ({attempt}/{max})"

/-- An event of a provider's stream. -/
inductive StreamEvent where
  | textDelta (text : String)
  | toolUseStart (id name : String)
  | toolInputDelta (delta : String)
  | toolUseEnd
  | toolUseSignature (signature : String)
  | toolResult (toolUseId content : String) (isError : Bool)
  | generatedImage (id path : String) (metadataPath : Option String) (outputFormat : String)
      (revisedPrompt : Option String)
  | thinkingStart
  | thinkingDelta (text : String)
  | thinkingSignatureDelta (signature : String)
  | openAIReasoning (id : String) (summary : List String) (encryptedContent status : Option String)
  | thinkingEnd
  | thinkingDone
  | messageEnd (stopReason : Option String)
  | retryRollback (attempt max : ℕ)
  | tokenUsage (inputTokens outputTokens cacheReadInputTokens cacheCreationInputTokens : Option ℕ)
  | connectionType (connection : String)
  | connectionPhase (phase : ConnectionPhase)
  | statusDetail (detail : String)
  | error (message : String) (retryAfterSecs : Option ℕ)
  | sessionId (sid : String)
  | compaction (trigger : String) (preTokens : Option ℕ) (openaiEncryptedContent : Option String)
  | upstreamProvider (provider : String)
  | nativeToolCall (requestId toolName : String) (input : Value)
  deriving DecidableEq, Repr

/-- An event that `run_turn_streaming_mpsc` sends to a client. -/
inductive ServerEvent where
  | textDelta (text : String)
  | textReplace (text : String)
  | reasoningDelta (text : String)
  | reasoningDone
  | toolStart (id name : String)
  | toolInput (delta : String)
  | toolExec (id name : String)
  | toolDone (id name output : String) (error : Option String)
  | generatedImage (id path : String) (metadataPath : Option String) (outputFormat : String)
      (revisedPrompt : Option String)
  | connectionType (connection : String)
  | connectionPhase (phase : String)
  | statusDetail (detail : String)
  | retryRollback (attempt max : ℕ)
  | messageEnd
  | sessionId (sessionId : String)
  | upstreamProvider (provider : String)
  | tokenUsage (input output : ℕ) (cacheReadInput cacheCreationInput : Option ℕ)
  deriving DecidableEq, Repr

structure StreamError where
  message : String
  retryAfterSecs : Option ℕ
  deriving DecidableEq, Repr

/-! ### What the loops read and collect -/

/-- The agent and its provider, as both loops read them. -/
structure Env where
  json : Json
  providerName : String
  preserveReasoningContext : Bool
  supportsImageInput : Bool
  handlesToolsInternally : Bool
  showThinking : Bool
  /-- `generated_image_visual_context_blocks`, which reads the image. -/
  visualContext : String → Option String → String → Option String → Option (List ContentBlock)
  /-- `session.messages.len()`. -/
  sessionMessages : ℕ
  /-- The id that `id::new_id` yields. -/
  newId : String

def storesReasoningContentForContext (env : Env) : Bool :=
  if env.preserveReasoningContext then
    let name := toAsciiLowercase env.providerName
    name == "openrouter" || name == "anthropic" || name == "openai"
  else false

/-- The four counts of a `TokenUsage` event. -/
structure Usage where
  input : Option ℕ
  output : Option ℕ
  cacheRead : Option ℕ
  cacheCreation : Option ℕ
  deriving DecidableEq, Repr

def Usage.none : Usage := ⟨.none, .none, .none, .none⟩

/-- What an event changes of the agent itself. -/
structure AgentMarks where
  lastConnectionType : Option String
  lastStatusDetail : Option String
  lastUpstreamProvider : Option String
  providerSessionId : Option String
  /-- The calls of `update_compaction_usage_from_stream`. -/
  compactionUsage : List (ℕ × Option ℕ × Option ℕ)
  /-- The native tools that were executed for the provider. -/
  nativeCalls : List (String × String × Value)
  deriving DecidableEq, Repr

/-- What a loop has collected of a response. -/
structure Response where
  textContent : String
  toolCalls : List ToolCall
  currentTool : Option ToolCall
  currentToolInput : String
  generatedImageContexts : List (List ContentBlock)
  usage : Usage
  sawMessageEnd : Bool
  stopReason : Option String
  reasoningContent : String
  reasoningSignature : String
  openaiReasoningItems : List ContentBlock
  sdkToolResults : StrMap (String × Bool)
  openaiNativeCompaction : Option (String × ℕ)
  marks : AgentMarks

def Response.new (marks : AgentMarks) : Response where
  textContent := ""
  toolCalls := []
  currentTool := none
  currentToolInput := ""
  generatedImageContexts := []
  usage := .none
  sawMessageEnd := false
  stopReason := none
  reasoningContent := ""
  reasoningSignature := ""
  openaiReasoningItems := []
  sdkToolResults := .empty
  openaiNativeCompaction := none
  marks := marks

/-- What `run_turn_streaming_mpsc` keeps besides, and what it has sent. -/
structure Streaming where
  response : Response
  textWrappedDetected : Bool
  reasoningOpen : Bool
  toolIdToName : StrMap String
  sent : List ServerEvent

def Streaming.new (marks : AgentMarks) : Streaming where
  response := .new marks
  textWrappedDetected := false
  reasoningOpen := false
  toolIdToName := .empty
  sent := []

/-- After an event. -/
inductive Flow (σ : Type) where
  | next (s : σ)
  /-- The loop is left. -/
  | stop (s : σ)
  | failed (error : StreamError)

/-- A loop over the events of a stream. -/
def consume {σ : Type} (step : σ → StreamEvent → Flow σ) : σ → List StreamEvent → Except StreamError σ
  | s, [] => .ok s
  | s, e :: es =>
      match step s e with
      | .next s' => consume step s' es
      | .stop s' => .ok s'
      | .failed error => .error error

/-! ### Pieces that both loops have -/

/-- The signature goes to the last tool call. -/
def signLast (signature : String) : List ToolCall → List ToolCall
  | [] => []
  | [tool] => [{ tool with thoughtSignature := some signature }]
  | tool :: rest => tool :: signLast signature rest

/-- The counts of an event over those so far. -/
def Usage.update (u : Usage) (inputTokens outputTokens cacheRead cacheCreation : Option ℕ) : Usage where
  input := if inputTokens.isSome then inputTokens else u.input
  output := if outputTokens.isSome then outputTokens else u.output
  cacheRead := if cacheRead.isSome then cacheRead else u.cacheRead
  cacheCreation := if cacheCreation.isSome then cacheCreation else u.cacheCreation

def AgentMarks.updateCompactionUsage (m : AgentMarks) (u : Usage) : AgentMarks :=
  match u.input with
  | some input =>
      { m with compactionUsage := m.compactionUsage ++ [(input, u.cacheRead, u.cacheCreation)] }
  | none => m

def AgentMarks.connect (m : AgentMarks) (connection : String) : AgentMarks :=
  { m with lastConnectionType := some connection }

def AgentMarks.detail (m : AgentMarks) (detail : String) : AgentMarks :=
  { m with lastStatusDetail := some detail }

def AgentMarks.upstream (m : AgentMarks) (provider : String) : AgentMarks :=
  { m with lastUpstreamProvider := some provider }

def AgentMarks.session (m : AgentMarks) (sid : String) : AgentMarks :=
  { m with providerSessionId := some sid }

/-- A native tool is executed, and its result sent to the provider. -/
def AgentMarks.execute (m : AgentMarks) (requestId toolName : String) (input : Value) : AgentMarks :=
  { m with nativeCalls :=
      m.nativeCalls ++ [(requestId, toolName, ToolCall.normalizeInputToObject input)] }

section
variable (env : Env)

/-- The image as visual context, if the provider takes images. -/
def imageContexts (path : String) (metadataPath : Option String) (outputFormat : String)
    (revisedPrompt : Option String) : List (List ContentBlock) :=
  if env.supportsImageInput then
    (env.visualContext path metadataPath outputFormat revisedPrompt).toList
  else []

/-! ### `run_turn` -/

def runTurnEvent (r : Response) : StreamEvent → Flow Response
  | .thinkingStart | .thinkingEnd | .thinkingDone => .next r
  | .thinkingDelta text => .next { r with reasoningContent := r.reasoningContent ++ text }
  | .thinkingSignatureDelta signature =>
      if storesReasoningContentForContext env then
        .next { r with reasoningSignature := r.reasoningSignature ++ signature }
      else .next r
  | .textDelta text => .next { r with textContent := r.textContent ++ text }
  | .toolUseStart id name =>
      .next { r with currentTool := some ⟨id, name, null, none, none⟩, currentToolInput := "" }
  | .toolInputDelta delta => .next { r with currentToolInput := r.currentToolInput ++ delta }
  | .toolUseEnd =>
      match r.currentTool with
      | some tool =>
          let input := ToolCall.parseStreamedInputToObject env.json r.currentToolInput
          .next { r with
            toolCalls := r.toolCalls ++
              [{ tool with input, intent := ToolCall.intentFromInput env.json input }]
            currentTool := none
            currentToolInput := "" }
      | none => .next r
  | .toolUseSignature signature =>
      if signature.isEmpty then .next r
      else .next { r with toolCalls := signLast signature r.toolCalls }
  | .toolResult toolUseId content isError =>
      .next { r with sdkToolResults := r.sdkToolResults.insert toolUseId (content, isError) }
  | .generatedImage _ path metadataPath outputFormat revisedPrompt =>
      .next { r with generatedImageContexts := r.generatedImageContexts ++
        imageContexts env path metadataPath outputFormat revisedPrompt }
  | .tokenUsage input output cacheRead cacheCreation =>
      let usage := r.usage.update input output cacheRead cacheCreation
      .next { r with usage, marks := r.marks.updateCompactionUsage usage }
  | .connectionType connection => .next { r with marks := r.marks.connect connection }
  | .connectionPhase _ => .next r
  | .statusDetail detail => .next { r with marks := r.marks.detail detail }
  | .retryRollback _ _ =>
      .next { r with
        textContent := ""
        toolCalls := []
        currentTool := none
        currentToolInput := ""
        sdkToolResults := .empty
        generatedImageContexts := []
        reasoningContent := ""
        reasoningSignature := ""
        openaiReasoningItems := []
        openaiNativeCompaction := none
        sawMessageEnd := false
        stopReason := none }
  | .messageEnd reason =>
      .next { r with
        sawMessageEnd := true
        stopReason := if reason.isSome then reason else r.stopReason }
  | .sessionId sid =>
      let r' := { r with marks := r.marks.session sid }
      if r.sawMessageEnd then .stop r' else .next r'
  | .upstreamProvider provider => .next { r with marks := r.marks.upstream provider }
  | .openAIReasoning id summary encryptedContent status =>
      if storesReasoningContentForContext env then
        .next { r with openaiReasoningItems :=
          r.openaiReasoningItems ++ [.openAIReasoning id summary encryptedContent status] }
      else .next r
  | .compaction _ _ openaiEncryptedContent =>
      match openaiEncryptedContent with
      | some encryptedContent =>
          .next { r with openaiNativeCompaction :=
            r.openaiNativeCompaction <|> some (encryptedContent, env.sessionMessages) }
      | none => .next r
  | .nativeToolCall requestId toolName input =>
      .next { r with marks := r.marks.execute requestId toolName input }
  | .error message retryAfterSecs => .failed ⟨message, retryAfterSecs⟩

/-! ### `run_turn_streaming_mpsc` -/

namespace Streaming

def send (s : Streaming) (event : ServerEvent) : Streaming := { s with sent := s.sent ++ [event] }

def collect (s : Streaming) (response : Response) : Streaming := { s with response }

/-- The reasoning that the client sees is closed. -/
def closeReasoning (s : Streaming) : Streaming :=
  if s.reasoningOpen then { s with reasoningOpen := false }.send .reasoningDone else s

/-- The text that has been collected is shown up to the first marker. -/
def showText (s : Streaming) (text : String) : Streaming :=
  if s.textWrappedDetected then s
  else
    match findWrapMarkerIncremental s.response.textContent text.utf8ByteSize with
    | some markerIdx =>
        { s with textWrappedDetected := true }.send
          (.textReplace (trimEnd (String.ofList (s.response.textContent.toList.take markerIdx))))
    | none => s.send (.textDelta text)

end Streaming

def mpscEvent (s : Streaming) : StreamEvent → Flow Streaming
  | .thinkingStart => .next (s.send (.connectionPhase ConnectionPhase.streaming.toString))
  | .thinkingEnd => .next s
  | .thinkingSignatureDelta signature =>
      if storesReasoningContentForContext env then
        .next (s.collect { s.response with
          reasoningSignature := s.response.reasoningSignature ++ signature })
      else .next s
  | .thinkingDelta text =>
      let s :=
        if env.showThinking && !text.isEmpty then
          { s with reasoningOpen := true }.send (.reasoningDelta text)
        else s
      .next (s.collect { s.response with reasoningContent := s.response.reasoningContent ++ text })
  | .thinkingDone => .next s.closeReasoning
  | .textDelta text =>
      let s := if (trim text).isEmpty then s else s.closeReasoning
      .next ((s.collect { s.response with textContent := s.response.textContent ++ text }).showText
        text)
  | .toolUseStart id name =>
      let s := s.closeReasoning.send (.toolStart id name)
      .next ({ s with toolIdToName := s.toolIdToName.insert id name }.collect
        { s.response with
          currentTool := some ⟨id, name, null, none, none⟩
          currentToolInput := "" })
  | .toolInputDelta delta =>
      .next ((s.send (.toolInput delta)).collect
        { s.response with currentToolInput := s.response.currentToolInput ++ delta })
  | .toolUseEnd =>
      match s.response.currentTool with
      | some tool =>
          let input := ToolCall.parseStreamedInputToObject env.json s.response.currentToolInput
          .next ((s.send (.toolExec tool.id tool.name)).collect { s.response with
            toolCalls := s.response.toolCalls ++
              [{ tool with input, intent := ToolCall.intentFromInput env.json input }]
            currentTool := none
            currentToolInput := "" })
      | none => .next s
  | .toolUseSignature signature =>
      if signature.isEmpty then .next s
      else .next (s.collect { s.response with
        toolCalls := signLast signature s.response.toolCalls })
  | .toolResult toolUseId content isError =>
      let toolName := (s.toolIdToName.get toolUseId).getD ""
      .next ((s.send (.toolDone toolUseId toolName content
        (if isError then some "Tool error" else none))).collect { s.response with
          sdkToolResults := s.response.sdkToolResults.insert toolUseId (content, isError) })
  | .generatedImage id path metadataPath outputFormat revisedPrompt =>
      .next ((s.send (.generatedImage id path metadataPath outputFormat revisedPrompt)).collect
        { s.response with
          generatedImageContexts := s.response.generatedImageContexts ++
            imageContexts env path metadataPath outputFormat revisedPrompt })
  | .tokenUsage input output cacheRead cacheCreation =>
      let usage := s.response.usage.update input output cacheRead cacheCreation
      .next (s.collect { s.response with
        usage := usage
        marks := s.response.marks.updateCompactionUsage usage })
  | .connectionType connection =>
      .next ((s.send (.connectionType connection)).collect
        { s.response with marks := s.response.marks.connect connection })
  | .connectionPhase phase => .next (s.send (.connectionPhase phase.toString))
  | .statusDetail detail =>
      .next ((s.send (.statusDetail detail)).collect
        { s.response with marks := s.response.marks.detail detail })
  | .retryRollback attempt max =>
      let s :=
        { s with
          textWrappedDetected := false
          toolIdToName := .empty
          reasoningOpen := false }.collect { s.response with
            textContent := ""
            toolCalls := []
            currentTool := none
            currentToolInput := ""
            sdkToolResults := .empty
            generatedImageContexts := []
            reasoningContent := ""
            reasoningSignature := ""
            openaiReasoningItems := []
            openaiNativeCompaction := none
            sawMessageEnd := false
            stopReason := none }
      .next ((s.send (.retryRollback attempt max)).send
        (.connectionPhase (ConnectionPhase.retrying attempt max).toString))
  | .messageEnd reason =>
      .next ((s.closeReasoning.send .messageEnd).collect { s.response with
        sawMessageEnd := true
        stopReason := if reason.isSome then reason else s.response.stopReason })
  | .sessionId sid =>
      .next ((s.send (.sessionId sid)).collect
        { s.response with marks := s.response.marks.session sid })
  | .openAIReasoning id summary encryptedContent status =>
      if storesReasoningContentForContext env then
        .next (s.collect { s.response with
          openaiReasoningItems := s.response.openaiReasoningItems ++
            [.openAIReasoning id summary encryptedContent status] })
      else .next s
  | .compaction _ _ openaiEncryptedContent =>
      match openaiEncryptedContent with
      | some encryptedContent =>
          .next (s.collect { s.response with
            openaiNativeCompaction :=
              s.response.openaiNativeCompaction <|> some (encryptedContent, env.sessionMessages) })
      | none => .next s
  | .nativeToolCall requestId toolName input =>
      .next (s.collect { s.response with
        marks := s.response.marks.execute requestId toolName input })
  | .upstreamProvider provider =>
      .next ((s.send (.upstreamProvider provider)).collect
        { s.response with marks := s.response.marks.upstream provider })
  | .error message retryAfterSecs => .failed ⟨message, retryAfterSecs⟩

/-! ### The end of the stream -/

structure StoredTokenUsage where
  inputTokens : ℕ
  outputTokens : ℕ
  cacheReadInputTokens : Option ℕ
  cacheCreationInputTokens : Option ℕ
  deriving DecidableEq, Repr

def Usage.stored (u : Usage) : StoredTokenUsage :=
  ⟨u.input.getD 0, u.output.getD 0, u.cacheRead, u.cacheCreation⟩

/-- What a loop leaves behind when the stream of a response has ended. -/
structure Stored where
  /-- The assistant message. -/
  message : Option (List ContentBlock × StoredTokenUsage)
  nativeCompaction : Option (String × ℕ)
  /-- The calls that go on to be run. -/
  toolCalls : List ToolCall
  sdkToolResults : StrMap (String × Bool)
  /-- The user messages with the generated images. -/
  imageMessages : List (List ContentBlock)

def pushReasoningBlocks (providerName reasoningContent reasoningSignature : String)
    (storeReplayContext : Bool) : List ContentBlock :=
  if reasoningContent.isEmpty then []
  else if storeReplayContext then
    if eqIgnoreAsciiCase providerName "anthropic" then
      if reasoningSignature.isEmpty then [.reasoningTrace reasoningContent]
      else [.anthropicThinking reasoningContent reasoningSignature]
    else if eqIgnoreAsciiCase providerName "openai" then [.reasoningTrace reasoningContent]
    else [.reasoning reasoningContent]
  else [.reasoningTrace reasoningContent]

/-- The blocks that both loops store in the same way. -/
def reasoningBlocks (r : Response) : List ContentBlock :=
  let store := storesReasoningContentForContext env
  pushReasoningBlocks env.providerName r.reasoningContent r.reasoningSignature store ++
    if store then r.openaiReasoningItems else []

def storedMessage (blocks : List ContentBlock) (usage : Usage) :
    Option (List ContentBlock × StoredTokenUsage) :=
  if blocks.isEmpty then none else some (blocks, usage.stored)

def ContentBlock.isToolUse : ContentBlock → Bool
  | .toolUse _ _ _ _ => true
  | _ => false

/-- `remove_tool_use_blocks`, when all calls were cut off. -/
def removeTruncated (toolCalls kept : List ToolCall)
    (message : Option (List ContentBlock × StoredTokenUsage)) :
    Option (List ContentBlock × StoredTokenUsage) :=
  if kept.length < toolCalls.length ∧ kept = [] then
    message.map fun m => (m.1.filter fun block => !ContentBlock.isToolUse block, m.2)
  else message

def JCODE_NATIVE_TOOLS : List String := ["selfdev", "communicate"]

/-- The calls that are run here. -/
def runCalls (kept : List ToolCall) : List ToolCall :=
  if env.handlesToolsInternally then kept.filter fun tc => JCODE_NATIVE_TOOLS.contains tc.name
  else kept

def runTurnFinish (r : Response) : Stored :=
  let (text, toolCalls) := recoverTextWrappedToolCall env.json env.newId r.textContent r.toolCalls
  let visibleTextIsEmpty := (trim text).isEmpty
  -- whitespace is not stored as an answer
  let blocks := (if !text.isEmpty && !visibleTextIsEmpty then [.text text none] else []) ++
    reasoningBlocks env r ++
    toolCalls.map fun tc => .toolUse tc.id tc.name tc.input tc.thoughtSignature
  let kept := filterTruncatedToolCalls r.stopReason toolCalls
  { message := removeTruncated toolCalls kept (storedMessage blocks r.usage)
    nativeCompaction := r.openaiNativeCompaction
    toolCalls := runCalls env kept
    sdkToolResults := r.sdkToolResults
    imageMessages := r.generatedImageContexts }

def mpscFinish (s : Streaming) : Stored × List ServerEvent :=
  let r := s.response
  let usage := r.usage.stored
  let sent := s.sent ++
    if r.usage = .none then []
    else [.tokenUsage usage.inputTokens usage.outputTokens usage.cacheReadInputTokens
      usage.cacheCreationInputTokens]
  let (text, toolCalls) := recoverTextWrappedToolCall env.json env.newId r.textContent r.toolCalls
  -- a recovered call is shown, and the text without it
  let sent := sent ++
    match r.toolCalls, toolCalls.getLast? with
    | [], some tc =>
        [.textReplace text, .toolStart tc.id tc.name, .toolInput tc.input, .toolExec tc.id tc.name]
    | _, _ => []
  let blocks := (if !text.isEmpty then [.text text none] else []) ++ reasoningBlocks env r ++
    toolCalls.map fun tc => .toolUse tc.id tc.name tc.input none
  let kept := filterTruncatedToolCalls r.stopReason toolCalls
  let run := runCalls env kept
  ({ message := removeTruncated toolCalls kept (storedMessage blocks r.usage)
     nativeCompaction := r.openaiNativeCompaction
     toolCalls := run
     sdkToolResults := r.sdkToolResults
     -- images wait for a call to be run, unless there is none
     imageMessages := if !kept.isEmpty && run.isEmpty then [] else r.generatedImageContexts },
   sent)

/-- A response, in `run_turn`. -/
def runTurn (marks : AgentMarks) (events : List StreamEvent) : Except StreamError Stored :=
  (consume (runTurnEvent env) (.new marks) events).map (runTurnFinish env)

/-- A response, in `run_turn_streaming_mpsc`. -/
def runTurnStreamingMpsc (marks : AgentMarks) (events : List StreamEvent) :
    Except StreamError (Stored × List ServerEvent) :=
  (consume (mpscEvent env) (.new marks) events).map (mpscFinish env)

/-! ### What both loops collect -/

/-- What an event adds to a response. -/
def absorb (r : Response) (e : StreamEvent) : Response :=
  match runTurnEvent env r e with
  | .next r' | .stop r' => r'
  | .failed _ => r

/-- What an event makes of a response and of what the client sees. -/
def stream (s : Streaming) (e : StreamEvent) : Streaming :=
  match mpscEvent env s e with
  | .next s' | .stop s' => s'
  | .failed _ => s

end

def StreamEvent.isError : StreamEvent → Bool
  | .error _ _ => true
  | _ => false

variable {env : Env}

@[simp] theorem Streaming.send_response (s : Streaming) (event : ServerEvent) :
    (s.send event).response = s.response := rfl

@[simp] theorem Streaming.collect_response (s : Streaming) (r : Response) :
    (s.collect r).response = r := rfl

@[simp] theorem Streaming.closeReasoning_response (s : Streaming) :
    s.closeReasoning.response = s.response := by
  rw [closeReasoning]
  split
  · rfl
  · rfl

@[simp] theorem Streaming.showText_response (s : Streaming) (text : String) :
    (s.showText text).response = s.response := by
  rw [showText]
  split
  · rfl
  · split
    · rfl
    · rfl

/-- **The same is collected** from an event. -/
theorem stream_response (s : Streaming) (e : StreamEvent) :
    (stream env s e).response = absorb env s.response e := by
  cases e with
  | textDelta text =>
      simp only [stream, mpscEvent, absorb, runTurnEvent, Streaming.showText_response]
      split
      · rfl
      · simp
  | thinkingDelta text =>
      simp only [stream, mpscEvent, absorb, runTurnEvent]
      split
      · rfl
      · rfl
  | thinkingSignatureDelta | openAIReasoning =>
      cases hstore : storesReasoningContentForContext env with
      | false => simp [stream, mpscEvent, absorb, runTurnEvent, hstore]
      | true => simp [stream, mpscEvent, absorb, runTurnEvent, hstore]
  | toolUseSignature signature =>
      cases hempty : signature.isEmpty with
      | false => simp [stream, mpscEvent, absorb, runTurnEvent, hempty]
      | true => simp [stream, mpscEvent, absorb, runTurnEvent, hempty]
  | toolUseEnd =>
      cases htool : s.response.currentTool with
      | none => simp [stream, mpscEvent, absorb, runTurnEvent, htool]
      | some tool => simp [stream, mpscEvent, absorb, runTurnEvent, htool]
  | sessionId sid =>
      simp only [stream, mpscEvent, absorb, runTurnEvent]
      cases s.response.sawMessageEnd with
      | false => rfl
      | true => rfl
  | compaction trigger preTokens content =>
      cases content with
      | none => rfl
      | some content => rfl
  | thinkingDone | toolUseStart | messageEnd =>
      simp [stream, mpscEvent, absorb, runTurnEvent]
  | _ => rfl

/-- The second loop is not left before the end of the stream. -/
theorem mpscEvent_eq (s : Streaming) {e : StreamEvent} (he : e.isError = false) :
    mpscEvent env s e = .next (stream env s e) := by
  cases e with
  | error => cases he
  | thinkingSignatureDelta | openAIReasoning =>
      cases hstore : storesReasoningContentForContext env with
      | false => simp [stream, mpscEvent, hstore]
      | true => simp [stream, mpscEvent, hstore]
  | toolUseSignature signature =>
      cases hempty : signature.isEmpty with
      | false => simp [stream, mpscEvent, hempty]
      | true => simp [stream, mpscEvent, hempty]
  | toolUseEnd =>
      cases htool : s.response.currentTool with
      | none => simp [stream, mpscEvent, htool]
      | some tool => simp [stream, mpscEvent, htool]
  | compaction trigger preTokens content =>
      cases content with
      | none => rfl
      | some content => rfl
  | _ => rfl

variable (env) in
theorem foldl_stream_response (events : List StreamEvent) (s : Streaming) :
    (events.foldl (stream env) s).response = events.foldl (absorb env) s.response := by
  induction events generalizing s with
  | nil => rfl
  | cons e es ih => rw [List.foldl_cons, ih, stream_response, List.foldl_cons]

/-- `run_turn_streaming_mpsc` reads a stream to its end. -/
theorem consume_mpsc {events : List StreamEvent} (h : ∀ e ∈ events, e.isError = false)
    (s : Streaming) : consume (mpscEvent env) s events = .ok (events.foldl (stream env) s) := by
  induction events generalizing s with
  | nil => rfl
  | cons e es ih =>
      obtain ⟨he, hes⟩ := List.forall_mem_cons.mp h
      rw [consume, mpscEvent_eq s he, List.foldl_cons]
      exact ih hes _

/-- The events that `run_turn` reads: up to a session id that follows the end of the message. -/
def readEvents : Bool → List StreamEvent → List StreamEvent
  | _, [] => []
  | _, .messageEnd reason :: es => .messageEnd reason :: readEvents true es
  | _, .retryRollback attempt max :: es => .retryRollback attempt max :: readEvents false es
  | true, .sessionId sid :: _ => [.sessionId sid]
  | saw, e :: es => e :: readEvents saw es

theorem consume_runTurn {events : List StreamEvent} (h : ∀ e ∈ events, e.isError = false)
    (r : Response) : consume (runTurnEvent env) r events =
      .ok ((readEvents r.sawMessageEnd events).foldl (absorb env) r) := by
  induction events generalizing r with
  | nil => rfl
  | cons e es ih =>
      obtain ⟨he, hes⟩ := List.forall_mem_cons.mp h
      cases e with
      | error => cases he
      | sessionId sid =>
          cases hsaw : r.sawMessageEnd with
          | true => simp [consume, runTurnEvent, readEvents, absorb, hsaw]
          | false =>
              have hrest := ih hes { r with marks := r.marks.session sid }
              simp only [hsaw] at hrest
              simp [consume, runTurnEvent, readEvents, absorb, hsaw, hrest]
      | thinkingSignatureDelta | openAIReasoning =>
          cases hstore : storesReasoningContentForContext env with
          | false => simp [consume, runTurnEvent, readEvents, absorb, hstore, ih hes]
          | true => simp [consume, runTurnEvent, readEvents, absorb, hstore, ih hes]
      | toolUseSignature signature =>
          cases hempty : signature.isEmpty with
          | false => simp [consume, runTurnEvent, readEvents, absorb, hempty, ih hes]
          | true => simp [consume, runTurnEvent, readEvents, absorb, hempty, ih hes]
      | toolUseEnd =>
          cases htool : r.currentTool with
          | none => simp [consume, runTurnEvent, readEvents, absorb, htool, ih hes]
          | some tool => simp [consume, runTurnEvent, readEvents, absorb, htool, ih hes]
      | compaction trigger preTokens content =>
          cases content with
          | none => simp [consume, runTurnEvent, readEvents, absorb, ih hes]
          | some content => simp [consume, runTurnEvent, readEvents, absorb, ih hes]
      | _ => simp [consume, runTurnEvent, readEvents, absorb, ih hes]

end Jcode.Agent
