import Jcode.Support.Std

/-!
# Chat — Message

The messages of a conversation as they are stored and as they are sent: a role and a list of
content blocks.  A value of `serde_json::Value` is represented by its compact text, of which the
program only asks whether it is that of an object.
-/

namespace Jcode.Chat

/-- `serde_json::Value`, by its compact text. -/
abbrev Value := String

/-- `Value::is_object`: the compact text of an object, and of no other value, begins with a
brace. -/
def isObject (v : Value) : Bool := v.toList.head? == some '\x7b'

/-- `DateTime<Utc>`, in nanoseconds from the epoch. -/
abbrev DateTime := ℤ

inductive Role where
  | user
  | assistant
  deriving DecidableEq, Repr

structure CacheControl where
  kind : String
  ttl : Option String
  deriving DecidableEq, Repr

/-- A block of a message. -/
inductive ContentBlock where
  | text (text : String) (cacheControl : Option CacheControl)
  | reasoning (text : String)
  | reasoningTrace (text : String)
  | anthropicThinking (thinking signature : String)
  | openAIReasoning (id : String) (summary : List String) (encryptedContent status : Option String)
  | toolUse (id name : String) (input : Value) (thoughtSignature : Option String)
  | toolResult (toolUseId content : String) (isError : Option Bool)
  | image (mediaType data : String)
  | openAICompaction (encryptedContent : String)
  deriving DecidableEq, Repr

/-- A message as a provider receives it. -/
structure Message where
  role : Role
  content : List ContentBlock
  timestamp : Option DateTime
  toolDurationMs : Option ℕ
  deriving DecidableEq, Repr

/-! ### The stable hash -/

def STABLE_HASH_SEED : UInt64 := 0xcbf29ce484222325
def STABLE_HASH_PRIME : UInt64 := 0x100000001b3

def stableHashBytes (bytes : List UInt8) : UInt64 :=
  bytes.foldl (fun hash byte => (hash ^^^ byte.toUInt64) * STABLE_HASH_PRIME) STABLE_HASH_SEED

/-- `u64::to_le_bytes`. -/
def toLeBytes (n : UInt64) : List UInt8 :=
  (List.range 8).map fun i => (n >>> (8 * i).toUInt64).toUInt8

def extendStableHash (acc next : UInt64) : UInt64 :=
  stableHashBytes (toLeBytes acc ++ toLeBytes next)

section
variable (toVec : Message → List UInt8)

/-- The hash of the JSON that `toVec` (`serde_json::to_vec`) writes for the message. -/
def stableMessageHash (message : Message) : UInt64 := stableHashBytes (toVec message)

end

/-! ### Tool ids -/

def sanitizeToolId (id : String) : String :=
  if id.isEmpty then "unknown"
  else
    let sanitized := String.ofList <| id.toList.map fun c =>
      if Rust.isAsciiAlphanumeric c || c == '_' || c == '-' then c else '_'
    if sanitized.isEmpty then "unknown" else sanitized

end Jcode.Chat
