import Jcode.Chat.Message
import Jcode.Support.Occur

/-!
# Agent — calls that are wrapped in text

`agent/response_recovery.rs` and the marker scan of `agent/turn_streaming_mpsc.rs`.  Some models
write a tool call into their text, behind a marker.  The scan looks for the first marker while the
text arrives, and the recovery takes the call out of the text when it is complete.  What
`serde_json` makes of a text is a parameter.

* `findWrapMarkerIncremental_append`: the scan of what is appended finds what a scan of the whole
  text finds.
-/

namespace Jcode.Agent
open Chat Occur

/-- What the recovery asks of `serde_json`. -/
structure Json where
  /-- `from_str`. -/
  fromStr : String → Option Value
  /-- `Deserializer::into_iter`: the first value of a text, and the text behind it. -/
  nextValue : List Char → Option (Value × List Char)
  /-- `get` and `as_str`. -/
  getStr : Value → String → Option String

def WRAP_TOOL_MARKERS : List String := ["to=functions.", "+#+#"]

/-- The first marker in the text, by the number of characters before it. -/
def findWrapMarker (text : List Char) : Option ℕ :=
  (WRAP_TOOL_MARKERS.filterMap fun marker => findAt marker.toList text).min?

def maxMarkerLen : ℕ := ((WRAP_TOOL_MARKERS.map String.utf8ByteSize).max?).getD 0

/-- The first marker, sought where the last `appendedLen` bytes of the text are, and a little
before. -/
def findWrapMarkerIncremental (accumulated : String) (appendedLen : ℕ) : Option ℕ :=
  let scanStart := accumulated.utf8ByteSize - (appendedLen + (maxMarkerLen - 1))
  -- the greatest character boundary up to there
  let before := within Char.utf8Size scanStart accumulated.toList
  (findWrapMarker (accumulated.toList.drop before)).map (before + ·)

theorem utf8ByteSize_eq (s : String) : s.utf8ByteSize = weight Char.utf8Size s.toList := by
  have h := String.utf8ByteSize_ofList s.toList
  rw [String.ofList_toList] at h
  rw [h]
  generalize s.toList = l
  induction l with
  | nil => rfl
  | cons c cs ih =>
      rw [String.utf8Len_cons, ih, weight, weight, List.map_cons, List.sum_cons, Nat.add_comm]

theorem findWrapMarker_eq_none_iff {text : List Char} :
    findWrapMarker text = none ↔ ∀ marker ∈ WRAP_TOOL_MARKERS, ¬ marker.toList <:+: text := by
  rw [findWrapMarker, List.min?_eq_none_iff, List.filterMap_eq_nil_iff]
  exact forall₂_congr fun _ _ => findAt_eq_none_iff

/-- A part in which no marker begins may be skipped. -/
theorem findWrapMarker_drop {text : List Char} {k : ℕ} (hk : k ≤ text.length)
    (h : ∀ marker ∈ WRAP_TOOL_MARKERS, ∀ m < k, ¬ marker.toList <+: text.drop m) :
    findWrapMarker text = (findWrapMarker (text.drop k)).map (k + ·) := by
  simp only [findWrapMarker, WRAP_TOOL_MARKERS, List.forall_mem_cons] at h ⊢
  obtain ⟨hfunctions, hplus, -⟩ := h
  simp only [List.filterMap_cons, List.filterMap_nil, findAt_drop hk hfunctions,
    findAt_drop hk hplus]
  cases findAt "to=functions.".toList (text.drop k) with
  | none =>
      cases findAt "+#+#".toList (text.drop k) with
      | none => rfl
      | some b => simp [List.min?, Nat.add_comm]
  | some a =>
      cases findAt "+#+#".toList (text.drop k) with
      | none => simp [List.min?, Nat.add_comm]
      | some b => simp [List.min?, Nat.add_comm]

/-- **The scan of what is appended** finds what a scan of the whole text finds, when there was no
marker before. -/
theorem findWrapMarkerIncremental_append {xs ys : String} (h : findWrapMarker xs.toList = none) :
    findWrapMarkerIncremental (xs ++ ys) ys.utf8ByteSize = findWrapMarker (xs ++ ys).toList := by
  have hbytes : (xs ++ ys).utf8ByteSize = xs.utf8ByteSize + ys.utf8ByteSize :=
    String.utf8ByteSize_append ..
  have hpos : ∀ c : Char, 0 < c.utf8Size := Char.utf8Size_pos
  rw [findWrapMarkerIncremental]
  generalize hscan : (xs ++ ys).utf8ByteSize - (ys.utf8ByteSize + (maxMarkerLen - 1)) = scanStart
  have hfits := weight_take_within (w := Char.utf8Size) scanStart (xs ++ ys).toList
  have hlen := within_le_length (w := Char.utf8Size) scanStart (xs ++ ys).toList
  generalize within Char.utf8Size scanStart (xs ++ ys).toList = k at hfits hlen ⊢
  refine (findWrapMarker_drop hlen fun marker hmarker m hm => ?_).symm
  rw [String.toList_append] at hfits hlen ⊢
  refine not_early hpos (findWrapMarker_eq_none_iff.mp h marker hmarker) ?_
  -- what comes before a skipped place ends at least a marker's length before the old end
  have hbefore : weight Char.utf8Size ((xs.toList ++ ys.toList).take m) + 1 ≤ scanStart := by
    refine le_trans ?_ ((weight_take_mono (Nat.succ_le_of_lt hm) _).trans hfits)
    have hget : m < (xs.toList ++ ys.toList).length := hm.trans_le hlen
    rw [List.take_succ_eq_append_getElem hget, weight_append]
    exact Nat.add_le_add_left (length_le_weight hpos [_]) _
  have hmarker : weight Char.utf8Size marker.toList ≤ maxMarkerLen := by
    simp only [WRAP_TOOL_MARKERS, List.mem_cons, List.not_mem_nil, or_false] at hmarker
    rcases hmarker with rfl | rfl
    · decide
    · decide
  have hmax : maxMarkerLen = 13 := by decide
  rw [← utf8ByteSize_eq xs]
  omega

/-! ### Tool calls -/

structure ToolCall where
  id : String
  name : String
  input : Value
  intent : Option String
  thoughtSignature : Option String
  deriving DecidableEq, Repr

/-- `Value::Null`. -/
def null : Value := "null"

/-- `Value::Object` of an empty map. -/
def emptyObject : Value := "\x7b\x7d"

namespace ToolCall

def normalizeInputToObject (input : Value) : Value :=
  if isObject input then input else emptyObject

def parseStreamedInputToObject (json : Json) (input : String) : Value :=
  let trimmed := Rust.trim input
  if trimmed.isEmpty then emptyObject
  else
    match json.fromStr trimmed with
    | some value => normalizeInputToObject value
    | none => null

def intentFromInput (json : Json) (input : Value) : Option String :=
  ((json.getStr input "intent").map Rust.trim).filter fun intent => !intent.isEmpty

end ToolCall

/-! ### The recovery -/

/-- A call in a text: the text before it, its name and arguments, and the text behind it. -/
structure WrappedCall where
  prefixText : String
  toolName : String
  arguments : Value
  suffixText : String
  deriving DecidableEq, Repr

def isNameChar (c : Char) : Bool := Rust.isAsciiAlphanumeric c || c == '_'

/-- From each brace on, an object; one that ends the text is the call, and else the first one. -/
def findArguments (json : Json) (before : List Char) (toolName : String) :
    List Char → Option WrappedCall → Option WrappedCall
  | [], fallback => fallback
  | c :: cs, fallback =>
      if c = '\x7b' then
        match json.nextValue (c :: cs) with
        | none => findArguments json before toolName cs fallback
        | some (parsed, rest) =>
            if isObject parsed then
              let call : WrappedCall :=
                ⟨Rust.trimEnd (String.ofList before), toolName, parsed,
                  Rust.trim (String.ofList rest)⟩
              if call.suffixText.isEmpty then some call
              else findArguments json before toolName cs (fallback <|> some call)
            else findArguments json before toolName cs fallback
      else findArguments json before toolName cs fallback

def functionsMarker : String := "to=functions."

def parseTextWrappedToolCall (json : Json) (text : String) : Option WrappedCall :=
  match findAt functionsMarker.toList text.toList with
  | none => none
  | some markerIdx =>
      let afterMarker := text.toList.drop (markerIdx + functionsMarker.length)
      let toolName := String.ofList (afterMarker.takeWhile isNameChar)
      if toolName.isEmpty then none
      else findArguments json (text.toList.take markerIdx) toolName
        (afterMarker.dropWhile isNameChar) none

/-- The text without the call. -/
def WrappedCall.sanitized (call : WrappedCall) : String :=
  if call.suffixText.isEmpty then call.prefixText
  else if call.prefixText.isEmpty then call.suffixText
  else call.prefixText ++ "\n" ++ call.suffixText

/-- `recover_text_wrapped_tool_call`, with the id that `new_id` yields. -/
def recoverTextWrappedToolCall (json : Json) (newId : String) (textContent : String)
    (toolCalls : List ToolCall) : String × List ToolCall :=
  if !toolCalls.isEmpty || (Rust.trim textContent).isEmpty then (textContent, toolCalls)
  else
    match parseTextWrappedToolCall json textContent with
    | none => (textContent, toolCalls)
    | some call =>
        (call.sanitized, toolCalls ++ [{
          id := "fallback_text_call_" ++ newId
          name := call.toolName
          input := call.arguments
          intent := ToolCall.intentFromInput json call.arguments
          thoughtSignature := none }])

/-! ### Stop reasons -/

def shouldContinueAfterStopReason (stopReason : String) : Bool :=
  let reason := Rust.toAsciiLowercase (Rust.trim stopReason)
  if reason.isEmpty then false
  else if reason == "stop" || reason == "end_turn" || reason == "tool_use" then false
  else
    Rust.contains reason "incomplete" || Rust.contains reason "max_output_tokens" ||
      Rust.contains reason "max_tokens" || Rust.contains reason "length" ||
      Rust.contains reason "trunc" || Rust.contains reason "commentary"

/-- The calls whose input was not cut off. -/
def filterTruncatedToolCalls (stopReason : Option String) (toolCalls : List ToolCall) :
    List ToolCall :=
  if shouldContinueAfterStopReason (stopReason.getD "") then
    toolCalls.filter fun tc => tc.input != null
  else toolCalls

end Jcode.Agent
