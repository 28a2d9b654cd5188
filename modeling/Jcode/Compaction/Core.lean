import Jcode.Support.Std

/-!
# Compaction — Core

What compaction computes from messages alone: their size, the token estimate, the texts it writes
and asks for, the cutoff that does not part a tool result from its call, and the emergency
truncation.

A message carries its `position` in the transcript and a summary the positions of the messages it
was made from, one list for each summarisation step (`chain`).  Both are history variables: no
function of the program reads them.
-/

namespace Jcode.Compaction

open Rust

/-! ### Constants -/

def DEFAULT_TOKEN_BUDGET : ℕ := 200000
def RECENT_TURNS_TO_KEEP : ℕ := 10
def MIN_TURNS_TO_KEEP : ℕ := 2
def EMERGENCY_TOOL_RESULT_MAX_CHARS : ℕ := 4000
def EMERGENCY_IMAGE_MAX_CHARS : ℕ := 1024
def CHARS_PER_TOKEN : ℕ := 4
def IMAGE_TOKEN_COST : ℕ := 1600
def SYSTEM_OVERHEAD_TOKENS : ℕ := 18000
def TOKEN_HISTORY_WINDOW : ℕ := 20
def EMBED_MAX_CHARS_PER_MSG : ℕ := 512
def OPENAI_ENCRYPTED_CONTENT_PROVIDER_MAX_CHARS : ℕ := 10485760
def OPENAI_ENCRYPTED_CONTENT_SAFE_MAX_CHARS : ℕ := 9500000

/-- The fractions of the token budget that usage is compared with: 80%, 95% and 10%, and the floor
of the configuration below which nothing is compacted ahead of need. -/
inductive Threshold where
  | compaction
  | critical
  | manualCompactMin
  | proactiveFloor

/-! ### Messages -/

inductive Role where
  | user
  | assistant

/-- A block of a message; the input of a tool call is its JSON text. -/
inductive ContentBlock where
  | text (text : String)
  | reasoning (text : String)
  | reasoningTrace (text : String)
  | anthropicThinking (thinking signature : String)
  | openAIReasoning (id : String) (summary : List String) (encryptedContent status : Option String)
  | toolUse (id name input : String)
  | toolResult (toolUseId content : String)
  | image (mediaType data : String)
  | openAICompaction (encryptedContent : String)

structure Message where
  role : Role
  content : List ContentBlock
  position : ℕ

/-- A summary of the turns up to a point. -/
structure Summary where
  text : String
  openaiEncryptedContent : Option String
  coversUpToTurn : ℕ
  originalTurnCount : ℕ
  chain : List (List ℕ)

/-! ### Sizes -/

/-- `str::len`, in bytes. -/
def len (s : String) : ℕ := s.utf8ByteSize

/-- An image costs a flat amount, whatever its payload. -/
def blockCharCount : ContentBlock → ℕ
  | .text text => len text
  | .reasoning text => len text
  | .reasoningTrace text => len text
  | .anthropicThinking thinking signature => len thinking + len signature
  | .openAIReasoning id summary encryptedContent status =>
      len id + (summary.map len).sum + (encryptedContent.map len).getD 0 +
        (status.map len).getD 0
  | .toolUse _ _ input => len input + 50
  | .toolResult _ content => len content + 20
  | .image _ _ => IMAGE_TOKEN_COST * CHARS_PER_TOKEN
  | .openAICompaction encryptedContent => len encryptedContent

def contentCharCount (content : List ContentBlock) : ℕ := (content.map blockCharCount).sum

def messageCharCount (msg : Message) : ℕ := contentCharCount msg.content

/-- `messages.iter().map(message_char_count).sum()`. -/
def totalChars (messages : List Message) : ℕ := (messages.map messageCharCount).sum

def summaryPayloadCharCount (summary : Summary) : ℕ :=
  (summary.openaiEncryptedContent.map len).getD (len summary.text)

/-- The overhead is for the system prompt and the tool definitions; small budgets have none. -/
def estimateCompactionTokensFromChars (totalChars tokenBudget : ℕ) : ℕ :=
  totalChars / CHARS_PER_TOKEN +
    if DEFAULT_TOKEN_BUDGET / 2 ≤ tokenBudget then SYSTEM_OVERHEAD_TOKENS else 0

def estimateCompactionTokens (summary : Option Summary) (activeMessageChars tokenBudget : ℕ) : ℕ :=
  estimateCompactionTokensFromChars
    ((summary.map summaryPayloadCharCount).getD 0 + activeMessageChars) tokenBudget

/-! ### Cutting strings at a boundary -/

/-- The characters from the front that fit into `n` bytes. -/
def takeBytes : ℕ → List Char → List Char
  | _, [] => []
  | n, c :: cs => if c.utf8Size ≤ n then c :: takeBytes (n - c.utf8Size) cs else []

def truncateStrBoundary (value : String) (maxBytes : ℕ) : String :=
  if len value ≤ maxBytes then value else String.ofList (takeBytes maxBytes value.toList)

def tailStrBoundary (value : String) (maxBytes : ℕ) : String :=
  if len value ≤ maxBytes then value
  else String.ofList (takeBytes maxBytes value.toList.reverse).reverse

/-! ### The prompt -/

def SUMMARY_PROMPT : String :=
  "Summarize our conversation so you can continue this work later.\n\n" ++
    "Write in natural language with these sections:\n" ++
    "- **Context:** What we're working on and why (1-2 sentences)\n" ++
    "- **What we did:** Key actions taken, files changed, problems solved\n" ++
    "- **Current state:** What works, what's broken, what's next\n" ++
    "- **User preferences:** Specific requirements or decisions they made\n\n" ++
    "Be concise but preserve important details. You can search the full conversation later if " ++
    "you need exact error messages or code snippets."

def compactedSummaryTextBlock (summary : String) : String :=
  "## Previous Conversation Summary\n\n" ++ summary ++ "\n\n---\n\n"

def blockConversationText : ContentBlock → String
  | .text text => text ++ "\n"
  | .toolUse _ name input => "[Tool: " ++ name ++ " - " ++ input ++ "]\n"
  | .toolResult _ content =>
      "[Result: " ++ (if 500 < len content then
        truncateStrBoundary content 500 ++ "... (truncated)" else content) ++ "]\n"
  | .reasoning _ | .reasoningTrace _ | .anthropicThinking _ _ | .openAIReasoning _ _ _ _ => ""
  | .image _ _ => "[Image]\n"
  | .openAICompaction _ => "[OpenAI native compaction]\n"

def messageConversationText (msg : Message) : String :=
  (match msg.role with
    | .user => "**User:**\n"
    | .assistant => "**Assistant:**\n") ++ join "" (msg.content.map blockConversationText) ++ "\n"

def buildCompactionConversationText (messages : List Message) (existingSummary : Option Summary) :
    String :=
  (match existingSummary with
    | some summary => "## Previous Summary\n\n" ++ summary.text ++ "\n\n## New Conversation\n\n"
    | none => "") ++ join "" (messages.map messageConversationText)

/-- The conversation is cut when it does not fit into the model's window. -/
def buildCompactionPrompt (messages : List Message) (existingSummary : Option Summary)
    (maxPromptChars : ℕ) : String :=
  let conversationText := buildCompactionConversationText messages existingSummary
  let overhead := len SUMMARY_PROMPT + 50
  let conversationText :=
    if maxPromptChars < len conversationText + overhead ∧ overhead < maxPromptChars then
      truncateStrBoundary conversationText (maxPromptChars - overhead) ++
        "\n\n... [earlier conversation truncated to fit context window]\n"
    else conversationText
  conversationText ++ "\n\n---\n\n" ++ SUMMARY_PROMPT

/-! ### The safe cutoff -/

/-- The tool ids of the kept messages: those of calls, and those of results whose call is not
there. -/
structure ToolScan where
  available : List String
  missing : List String

def ToolScan.block (scan : ToolScan) : ContentBlock → ToolScan
  | .toolUse id _ _ => ⟨id :: scan.available, scan.missing.filter (· != id)⟩
  | .toolResult toolUseId _ =>
      if toolUseId ∈ scan.available then scan else ⟨scan.available, toolUseId :: scan.missing⟩
  | _ => scan

def ToolScan.message (scan : ToolScan) (msg : Message) : ToolScan := msg.content.foldl block scan

/-- Walk backward over the messages before the cutoff, the last one first, until no call is
missing; when that never happens, nothing is to be compacted. -/
def growKept (scan : ToolScan) : List Message → ℕ
  | [] => 0
  | msg :: before =>
      if (scan.message msg).missing.isEmpty then before.length
      else growKept (scan.message msg) before

def safeCompactionCutoff (messages : List Message) (initialCutoff : ℕ) : ℕ :=
  let cutoff := min initialCutoff messages.length
  let scan := (messages.drop cutoff).foldl ToolScan.message ⟨[], []⟩
  if scan.missing.isEmpty then cutoff else growKept scan (messages.take cutoff).reverse

/-! ### Semantic texts -/

def pushSemanticExcerpt (maxChars : ℕ) (target source : String) : String :=
  if source.isEmpty then target
  else (if target.isEmpty then target else target ++ " ") ++
    String.ofList (source.toList.take maxChars)

def semanticGoalText (messages : List Message) : String :=
  (messages.flatMap Message.content).foldl (fun text block =>
    match block with
    | .text blockText => pushSemanticExcerpt 200 text blockText
    | .toolResult _ content => pushSemanticExcerpt 100 text content
    | _ => text) ""

def semanticMessageText (msg : Message) : String :=
  msg.content.foldl (fun text block =>
    match block with
    | .text blockText => pushSemanticExcerpt EMBED_MAX_CHARS_PER_MSG text blockText
    | _ => text) ""

/-! ### Emergencies -/

def looksLikeFileReference (word : String) : Bool :=
  (contains word "/" || contains word ".") && 3 < len word && len word < 120 &&
    !"http".toList.isPrefixOf word.toList &&
    (contains word ".rs" || contains word ".ts" || contains word ".py" || contains word ".toml" ||
      contains word ".json" || "src/".toList.isPrefixOf word.toList ||
      "./".toList.isPrefixOf word.toList)

/-- `str::trim_matches` of what is neither alphanumeric nor one of `/._-`. -/
def cleanFileReference (isAlphanumeric : Char → Bool) (word : String) : String :=
  let strip := fun c => !isAlphanumeric c && c != '/' && c != '.' && c != '_' && c != '-'
  String.ofList ((word.toList.dropWhile strip).rdropWhile strip)

def extractFileMentions (isAlphanumeric : Char → Bool) (text : String) : List String :=
  ((splitWhitespace text).filter looksLikeFileReference).map (cleanFileReference isAlphanumeric)
    |>.filter (!·.isEmpty)

/-- `sort` and `dedup`. -/
def sortedDistinct (l : List String) : List String := (l.insertionSort (· ≤ ·)).dedup

/-- The summary of an emergency names the tools and the files of what was dropped. -/
def buildEmergencySummaryText (isAlphanumeric : Char → Bool) (existingSummary : Option String)
    (droppedCount preTokens tokenBudget : ℕ) (droppedMessages : List Message) : String :=
  let blocks := droppedMessages.flatMap Message.content
  let tools := sortedDistinct <| blocks.filterMap fun block =>
    match block with
    | .toolUse _ name _ => some name
    | _ => none
  let files := (sortedDistinct <| blocks.flatMap fun block =>
    match block with
    | .text text => extractFileMentions isAlphanumeric text
    | _ => []).take 30
  join "\n\n" <|
    (match existingSummary with
      | some existing => if existing.isEmpty then [] else [existing]
      | none => []) ++
    ["**[Emergency compaction]**: " ++ toString droppedCount ++
      " messages were dropped to recover from context overflow. The conversation had ~" ++
      toString (preTokens / 1000) ++ "k tokens which exceeded the " ++
      toString (tokenBudget / 1000) ++ "k limit."] ++
    (if tools.isEmpty then [] else ["Tools used: " ++ join ", " tools]) ++
    (if files.isEmpty then [] else ["Files referenced: " ++ join ", " files])

def emergencyTruncatedToolResult (content : String) (maxChars : ℕ) : String :=
  let head := truncateStrBoundary content (maxChars / 2)
  let tail := tailStrBoundary content (maxChars / 4)
  head ++ "\n\n... [" ++ toString (len content - (len head + len tail)) ++
    " chars truncated for context recovery] ...\n\n" ++ tail

/-- What a block becomes, when it is too large. -/
def truncatedBlock (maxToolResultChars maxImageChars : ℕ) : ContentBlock → Option ContentBlock
  | .toolResult toolUseId content =>
      if maxToolResultChars < len content then
        some (.toolResult toolUseId (emergencyTruncatedToolResult content maxToolResultChars))
      else none
  | .image mediaType data =>
      if maxImageChars < len data then
        some (.text ("[Image omitted during emergency context recovery: media_type=" ++ mediaType ++
          ", original_base64_chars=" ++ toString (len data) ++
          ". Rely on adjacent browser/tool text, screenshots saved to disk, or " ++
          "re-open/re-screenshot if visual details are needed.]"))
      else none
  | _ => none

/-- The messages with their large blocks replaced, and how many were. -/
def emergencyTruncateLargePayloads (messages : List Message)
    (maxToolResultChars maxImageChars : ℕ) : List Message × ℕ :=
  (messages.map fun msg =>
    { msg with
      content := msg.content.map fun block =>
        (truncatedBlock maxToolResultChars maxImageChars block).getD block },
   (messages.map fun msg =>
    msg.content.countP fun block =>
      (truncatedBlock maxToolResultChars maxImageChars block).isSome).sum)

/-! ### OpenAI's native state -/

def openaiEncryptedContentIsSendable (encryptedContent : String) : Bool :=
  len encryptedContent ≤ OPENAI_ENCRYPTED_CONTENT_SAFE_MAX_CHARS

def openaiEncryptedContentFallbackSummary (encryptedContentLen : ℕ) : String :=
  "OpenAI native compaction state was discarded because its encrypted payload was " ++
    toString encryptedContentLen ++ " chars, above Jcode's safe replay limit of " ++
    toString OPENAI_ENCRYPTED_CONTENT_SAFE_MAX_CHARS ++ " chars (provider hard limit: " ++
    toString OPENAI_ENCRYPTED_CONTENT_PROVIDER_MAX_CHARS ++
    " chars). Earlier compacted details may be unavailable; use the recent visible messages and " ++
    "session search/tools if exact prior details are needed."

/-- A payload that is too large to replay gives way to a text. -/
def Summary.discardOversized (summary : Summary) : Option Summary :=
  match summary.openaiEncryptedContent with
  | none => none
  | some encryptedContent =>
      if openaiEncryptedContentIsSendable encryptedContent then none
      else
        let fallback := openaiEncryptedContentFallbackSummary (len encryptedContent)
        some { summary with
          openaiEncryptedContent := none
          text :=
            if (trim summary.text).isEmpty then fallback
            else if contains summary.text "OpenAI native compaction state was discarded" then
              summary.text
            else summary.text ++ "\n\n" ++ fallback }

end Jcode.Compaction
