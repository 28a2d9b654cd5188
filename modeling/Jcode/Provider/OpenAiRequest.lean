import Jcode.Chat.Message
import Jcode.Support.Pairing

/-!
# Provider — OpenAI request

The input of a Responses request, built from the messages of a conversation.  Tool results may
stand before or behind their call, several times or not at all; the request puts one output right
behind each call.  A first pass collects items and remembers which calls are open and which
outputs came early; the passes behind it inject what is missing, choose an output for each call,
and put the items in order.

An item is a JSON object; `Item` has a constructor for each shape the builder writes, and
`Item.kind` is what the passes read of it: `type` and `call_id`.
-/

namespace Jcode.Provider.OpenAi

open Jcode.Chat Pairing Rust

/-! ### Items -/

/-- A part of the content of a user message. -/
inductive ContentPart where
  | inputText (text : String)
  | inputImage (imageUrl : String)
  deriving DecidableEq, Repr

/-- An item of the input. -/
inductive Item where
  /-- `type: message`, `role: user`. -/
  | userMessage (content : List ContentPart)
  /-- `type: message`, `role: assistant`, with one `output_text`. -/
  | assistantMessage (text : String)
  | compaction (encryptedContent : String)
  | reasoning (id : String) (summary : List String) (encryptedContent status : Option String)
  | functionCall (name arguments callId : String)
  | functionCallOutput (callId output : String)
  deriving DecidableEq, Repr

/-- `type` and `call_id`. -/
def Item.kind : Item → Kind String
  | .functionCall _ _ callId => .call callId
  | .functionCallOutput callId _ => .answer callId
  | _ => .other

def TOOL_OUTPUT_MISSING_TEXT : String :=
  "Tool output missing (session interrupted before tool execution completed)"

def missingOutput : String := "[Error] " ++ TOOL_OUTPUT_MISSING_TEXT

def orphanToolOutputToUserMessage (callId output : String) : Option Item :=
  let output := trim output
  if output.isEmpty || output == missingOutput then none
  else some <| .userMessage
    [.inputText ("[Recovered orphaned tool output: " ++ callId ++ "]\n" ++ output)]

/-! ### Native compaction -/

def OPENAI_ENCRYPTED_CONTENT_PROVIDER_MAX_CHARS : ℕ := 10485760
def OPENAI_ENCRYPTED_CONTENT_SAFE_MAX_CHARS : ℕ := 9500000

def openaiEncryptedContentIsSendable (encryptedContent : String) : Bool :=
  encryptedContent.utf8ByteSize ≤ OPENAI_ENCRYPTED_CONTENT_SAFE_MAX_CHARS

def openaiEncryptedContentFallbackSummary (encryptedContentLen : ℕ) : String :=
  "OpenAI native compaction state was discarded because its encrypted payload was " ++
    toString encryptedContentLen ++ " chars, above Jcode's safe replay limit of " ++
    toString OPENAI_ENCRYPTED_CONTENT_SAFE_MAX_CHARS ++ " chars (provider hard limit: " ++
    toString OPENAI_ENCRYPTED_CONTENT_PROVIDER_MAX_CHARS ++
    " chars). Earlier compacted details may be unavailable; use the recent visible messages and " ++
    "session search/tools if exact prior details are needed."

def compactionItem (encryptedContent : String) : Item :=
  if openaiEncryptedContentIsSendable encryptedContent then .compaction encryptedContent
  else .userMessage
    [.inputText (openaiEncryptedContentFallbackSummary encryptedContent.utf8ByteSize)]

/-! ### Collecting the items -/

/-- `HashMap<String, String>`, of which the collection asks for the entries as well. -/
abbrev Outputs := AList fun _ : String => String

/-- The variables of the first pass. -/
structure Collected where
  items : List Item
  openCalls : List String
  pendingOutputs : Outputs
  usedOutputs : List String

def Collected.empty : Collected := ⟨[], [], ∅, []⟩

def Collected.push (s : Collected) (item : Item) : Collected :=
  { s with items := s.items ++ [item] }

/-- The output of a result. -/
def resultOutput (content : String) (isError : Option Bool) : String :=
  if isError = some true then "[Error] " ++ content else content

/-- The user message of the parts collected so far. -/
def flushParts (parts : List ContentPart) : List Item :=
  if parts.isEmpty then [] else [.userMessage parts]

def Collected.flush (s : Collected) (parts : List ContentPart) : Collected :=
  { s with items := s.items ++ flushParts parts }

/-- A tool result of a user message. -/
def Collected.toolResult (s : Collected) (toolUseId output : String) : Collected :=
  if toolUseId ∈ s.usedOutputs then s
  else if toolUseId ∈ s.openCalls then
    { s.push (.functionCallOutput (sanitizeToolId toolUseId) output) with
      openCalls := s.openCalls.erase toolUseId
      usedOutputs := s.usedOutputs.insert toolUseId }
  else if toolUseId ∈ s.pendingOutputs then s
  else { s with pendingOutputs := s.pendingOutputs.insert toolUseId output }

/-- A block of a user message, with `content_parts`. -/
def userBlock (s : Collected × List ContentPart) (block : ContentBlock) :
    Collected × List ContentPart :=
  let (s, parts) := s
  match block with
  | .image mediaType data =>
    (s, parts ++ [.inputImage ("data:" ++ mediaType ++ ";base64," ++ data)])
  | .text text _ => (s, parts ++ [.inputText text])
  | .openAICompaction encryptedContent =>
    ((s.flush parts).push (compactionItem encryptedContent), [])
  | .toolResult toolUseId content isError =>
    ((s.flush parts).toolResult toolUseId (resultOutput content isError), [])
  | _ => (s, parts)

/-- A tool use of an assistant message; `hasFutureOutput` when some message behind this one holds
a result for it. -/
def Collected.toolUse (s : Collected) (hasFutureOutput : Bool) (id name : String) (input : Value) :
    Collected :=
  let arguments := if isObject input then input else "\x7b\x7d"
  let s := s.push (.functionCall name arguments (sanitizeToolId id))
  match s.pendingOutputs.lookup id with
  | some output =>
    { s.push (.functionCallOutput (sanitizeToolId id) output) with
      pendingOutputs := s.pendingOutputs.erase id
      usedOutputs := s.usedOutputs.insert id }
  | none =>
    if hasFutureOutput then { s with openCalls := s.openCalls.insert id }
    else { s.push (.functionCallOutput (sanitizeToolId id) missingOutput) with
      usedOutputs := s.usedOutputs.insert id }

/-- A block of an assistant message. -/
def assistantBlock (hasFutureOutput : String → Bool) (s : Collected) (block : ContentBlock) :
    Collected :=
  match block with
  | .text text _ => s.push (.assistantMessage text)
  | .openAIReasoning id summary encryptedContent status =>
    s.push (.reasoning id summary encryptedContent status)
  | .toolUse id name input _ => s.toolUse (hasFutureOutput id) id name input
  | _ => s

/-- The id of a tool result. -/
def toolResultId : ContentBlock → Option String
  | .toolResult toolUseId _ _ => some toolUseId
  | _ => none

/-- `tool_result_last_pos`, over the messages from position `idx` on. -/
def toolResultLastPos (messages : List (Message × ℕ)) : StrMap ℕ :=
  messages.foldl (fun pos (msg, idx) =>
    match msg.role with
    | .user => (msg.content.filterMap toolResultId).foldl (fun pos id => pos.insert id idx) pos
    | .assistant => pos) .empty

def hasFutureOutput (lastPos : StrMap ℕ) (idx : ℕ) (id : String) : Bool :=
  ((lastPos.get id).map fun pos => decide (pos > idx)).getD false

def collectMessage (lastPos : StrMap ℕ) (s : Collected) (entry : Message × ℕ) : Collected :=
  let (msg, idx) := entry
  match msg.role with
  | .user =>
    let (s, parts) := msg.content.foldl userBlock (s, [])
    s.flush parts
  | .assistant => msg.content.foldl (assistantBlock (hasFutureOutput lastPos idx)) s

/-- The first pass. -/
def collect (messages : List Message) : Collected :=
  messages.zipIdx.foldl (collectMessage (toolResultLastPos messages.zipIdx)) .empty

/-! ### Repairing what the first pass leaves -/

/-- A call that is still open. -/
def Collected.closeCall (s : Collected) (callId : String) : Collected :=
  if callId ∈ s.usedOutputs then s
  else match s.pendingOutputs.lookup callId with
    | some output =>
      { s.push (.functionCallOutput (sanitizeToolId callId) output) with
        pendingOutputs := s.pendingOutputs.erase callId }
    | none => s.push (.functionCallOutput (sanitizeToolId callId) missingOutput)

/-- `for call_id in open_calls { .. }`, in the order of the set's iterator. -/
def Collected.closeCalls (hash : IterOrder) (s : Collected) : Collected :=
  (hash.order s.openCalls).foldl Collected.closeCall s

/-- The outputs left pending, as user messages in the order of their ids. -/
def Collected.orphans (s : Collected) : List Item :=
  (s.pendingOutputs.entries.insertionSort fun a b => a.1 ≤ b.1).filterMap fun entry =>
    orphanToolOutputToUserMessage (sanitizeToolId entry.1) entry.2

/-- `output_ids`. -/
def outputIds (items : List Item) : List String :=
  items.filterMap fun item =>
    match item.kind with
    | .answer callId => some callId
    | _ => none

/-- Injects the missing output behind a call that has none anywhere. -/
def normalizeItem (s : List String × List Item) (item : Item) : List String × List Item :=
  let (ids, normalized) := s
  let normalized := normalized ++ [item]
  match item.kind with
  | .call callId =>
    if callId ∈ ids then (ids, normalized)
    else (ids.insert callId, normalized ++ [.functionCallOutput callId missingOutput])
  | _ => (ids, normalized)

def normalize (items : List Item) : List Item :=
  (items.foldl normalizeItem (outputIds items, [])).2

/-- Whether an item's output is the missing one. -/
def isMissing : Item → Bool
  | .functionCallOutput _ output => output == missingOutput
  | _ => false

/-- A real output takes the place of a missing one. -/
def chooseOutput (outputs : StrMap Item) (item : Item) : StrMap Item :=
  match item.kind with
  | .answer callId =>
    match outputs.get callId with
    | some existing =>
      if isMissing existing && !isMissing item then outputs.insert callId item else outputs
    | none => outputs.insert callId item
  | _ => outputs

def outputMap (items : List Item) : StrMap Item := items.foldl chooseOutput .empty

/-- The output of a call in the ordered list. -/
def outputFor (outputs : StrMap Item) (callId : String) : Item :=
  (outputs.get callId).getD (.functionCallOutput callId missingOutput)

/-- An output whose call does not stand before it. -/
def strayItems : Item → List Item
  | .functionCallOutput callId output => (orphanToolOutputToUserMessage callId output).toList
  | _ => []

/-- The variables of the last pass. -/
structure Ordered where
  ordered : List Item
  usedOutputs : List String

def orderItem (outputs : StrMap Item) (s : Ordered) (item : Item) : Ordered :=
  match item.kind with
  | .call callId =>
    ⟨s.ordered ++ [item, outputFor outputs callId], s.usedOutputs.insert callId⟩
  | .answer callId =>
    if callId ∈ s.usedOutputs then s else { s with ordered := s.ordered ++ strayItems item }
  | .other => { s with ordered := s.ordered ++ [item] }

def order (items : List Item) : List Item :=
  (items.foldl (orderItem (outputMap items)) ⟨[], []⟩).ordered

def buildResponsesInput (hash : IterOrder) (messages : List Message) : List Item :=
  let s := (collect messages).closeCalls hash
  order (normalize (s.items ++ s.orphans))

end Jcode.Provider.OpenAi
