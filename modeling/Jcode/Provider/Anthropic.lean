import Jcode.Chat.Message
import Jcode.Support.Turns

/-!
# Provider — Anthropic request

The messages of a request to Anthropic, built from those of a conversation: each message's blocks
in the provider's form, a synthetic error result behind each assistant message with calls that
are never answered, and neighbouring messages of one role merged.
-/

namespace Jcode.Provider.Anthropic

open Jcode.Chat Turns

/-! ### Blocks -/

structure ApiImageSource where
  kind : String
  mediaType : String
  data : String
  deriving DecidableEq, Repr

inductive ToolResultContentBlock where
  | text (text : String)
  | image (source : ApiImageSource)
  deriving DecidableEq, Repr

inductive ToolResultContent where
  | text (text : String)
  | blocks (blocks : List ToolResultContentBlock)
  deriving DecidableEq, Repr

structure CacheControlParam where
  kind : String
  ttl : Option String
  deriving DecidableEq, Repr

inductive ApiContentBlock where
  | text (text : String) (cacheControl : Option CacheControlParam)
  | toolUse (id name : String) (input : Value) (cacheControl : Option CacheControlParam)
  | toolResult (toolUseId : String) (content : ToolResultContent) (isError : Bool)
  | thinking (thinking signature : String)
  | image (source : ApiImageSource)
  deriving DecidableEq, Repr

/-- A message of the request: `role` and `content`. -/
abbrev ApiMessage := Turn Role ApiContentBlock

def anthropicMapToolNameForOauth (name : String) : String :=
  match name with
  | "bash" => "Bash"
  | "read" => "Read"
  | "write" => "Write"
  | "edit" => "Edit"
  | "glob" => "Glob"
  | "grep" => "Grep"
  | "subagent" => "Agent"
  | "schedule" => "ScheduleWakeup"
  | "skill_manage" => "Skill"
  | _ => name

/-! ### Formatting a message -/

def ToolResultContentBlock.isImage : ToolResultContentBlock → Bool
  | .image _ => true
  | .text _ => false

/-- A text: folded into the result before it when that one carries an image. -/
def formatText (result : List ApiContentBlock) (text : String) : List ApiContentBlock :=
  match result.getLast? with
  | some (.toolResult toolUseId (.blocks blocks) isError) =>
    if blocks.any ToolResultContentBlock.isImage then
      result.dropLast ++ [.toolResult toolUseId (.blocks (blocks ++ [.text text])) isError]
    else result ++ [.text text none]
  | _ => result ++ [.text text none]

/-- An image: put into the result before it, if there is one. -/
def formatImage (result : List ApiContentBlock) (mediaType data : String) :
    List ApiContentBlock :=
  let source : ApiImageSource := ⟨"base64", mediaType, data⟩
  match result.getLast? with
  | some (.toolResult toolUseId (.text text) isError) =>
    result.dropLast ++ [.toolResult toolUseId (.blocks [.text text, .image source]) isError]
  | some (.toolResult toolUseId (.blocks blocks) isError) =>
    result.dropLast ++ [.toolResult toolUseId (.blocks (blocks ++ [.image source])) isError]
  | _ => result ++ [.image source]

def formatBlock (isOauth : Bool) (result : List ApiContentBlock) (block : ContentBlock) :
    List ApiContentBlock :=
  match block with
  | .text text _ => formatText result text
  | .anthropicThinking thinking signature => result ++ [.thinking thinking signature]
  | .toolUse id name input _ =>
    result ++ [.toolUse (sanitizeToolId id)
      (if isOauth then anthropicMapToolNameForOauth name else name)
      (if isObject input then input else "\x7b\x7d") none]
  | .toolResult toolUseId content isError =>
    result ++ [.toolResult (sanitizeToolId toolUseId) (.text content) (isError.getD false)]
  | .image mediaType data => formatImage result mediaType data
  | _ => result

def formatContentBlocks (isOauth : Bool) (blocks : List ContentBlock) : List ApiContentBlock :=
  blocks.foldl (formatBlock isOauth) []

/-! ### Formatting a conversation -/

/-- The id of a tool use. -/
def toolUseId : ContentBlock → Option String
  | .toolUse id _ _ _ => some id
  | _ => none

/-- The id of a tool result. -/
def toolResultId : ContentBlock → Option String
  | .toolResult toolUseId _ _ => some toolUseId
  | _ => none

def toolUseIds (messages : List Message) : List String :=
  messages.flatMap fun msg => msg.content.filterMap toolUseId

def toolResultIds (messages : List Message) : List String :=
  messages.flatMap fun msg => msg.content.filterMap toolResultId

/-- The calls that are never answered. -/
def dangling (messages : List Message) : List String :=
  (toolUseIds messages).filter (· ∉ toolResultIds messages)

def interruptedText : String := "[Session interrupted before tool execution completed]"

def syntheticResult (id : String) : ApiContentBlock :=
  .toolResult (sanitizeToolId id) (.text interruptedText) true

/-- The results injected behind a message. -/
def syntheticResults (dangling : List String) (msg : Message) : List ApiContentBlock :=
  match msg.role with
  | .assistant =>
    ((msg.content.filterMap toolUseId).filter (· ∈ dangling)).map syntheticResult
  | .user => []

/-- A message, unless it is empty. -/
def unlessEmpty (role : Role) (content : List ApiContentBlock) : List ApiMessage :=
  if content.isEmpty then [] else [⟨role, content⟩]

/-- The messages built from one. -/
def formatMessage (isOauth : Bool) (dangling : List String) (msg : Message) : List ApiMessage :=
  unlessEmpty msg.role (formatContentBlocks isOauth msg.content) ++
    unlessEmpty .user (syntheticResults dangling msg)

/-- Adds a message, or its content to the last one when that is of the same role. -/
def mergeMessage (merged : List ApiMessage) (msg : ApiMessage) : List ApiMessage :=
  match merged.getLast? with
  | some last =>
    if last.role = msg.role then
      merged.dropLast ++ [{ last with content := last.content ++ msg.content }]
    else merged ++ [msg]
  | none => merged ++ [msg]

def formatMessages (messages : List Message) (isOauth : Bool) : List ApiMessage :=
  let result := messages.flatMap (formatMessage isOauth (dangling messages))
  result.foldl mergeMessage []

end Jcode.Provider.Anthropic
