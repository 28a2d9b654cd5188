import Jcode.Agent.Stream
import Jcode.Support.Json

/-!
# Provider — OpenAI stream, tool calls

`parse_openai_response_event` on the events about items that call tools, and the queue that
`OpenAIResponsesStream` puts before it.  A call is collected under the id of its item, and is given out
at `arguments.done`, or at `output_item.done` when it was not before.  The events are as they are after
their text was parsed; those about text, reasoning and the end of the response are left out.

* `pollAll_cons`: the stream gives out what each event leaves in the queue, before the next event.
-/

namespace Jcode.Provider.OpenAiStream

open Rust
open Serde (Value)
open Agent (StreamEvent)

/-! ### Events and items -/

inductive ResponseEventKind where
  | outputItemAdded
  | functionCallArgumentsDelta
  | functionCallArgumentsDone
  | outputItemDone
  deriving DecidableEq, Repr

structure ResponseSseEvent where
  kind : ResponseEventKind
  item : Option Value := none
  delta : Option String := none
  itemId : Option String := none
  callId : Option String := none
  name : Option String := none
  arguments : Option String := none

structure StreamingToolCallState where
  callId : Option String := none
  name : Option String := none
  arguments : String := ""
  deriving DecidableEq, Repr

/-- The text of a field. -/
def textOf (item : Value) (key : String) : Option String := (item.get key).bind Value.asStr

def isToolItem (item : Value) : Bool :=
  textOf item "type" = some "function_call" || textOf item "type" = some "custom_tool_call"

def streamingToolItemId (item : Value) : Option String :=
  (textOf item "id").or (textOf item "item_id")

/-- What the stream reads from elsewhere: a value as JSON, and an item that is no tool call. -/
structure StreamEnv where
  toJson : Value → String
  handleOtherItem : Value → List StreamEvent → Option StreamEvent × List StreamEvent

def isObjectOrArray : Value → Bool
  | .object _ | .array _ => true
  | _ => false

def normalizeOpenaiToolArguments (rawArguments : String) : String :=
  if trim rawArguments = "" ∨ trim rawArguments = "null" then "\x7b\x7d" else rawArguments

/-- `VecDeque::pop_front`. -/
def popFront : List StreamEvent → Option StreamEvent × List StreamEvent
  | [] => (none, [])
  | event :: pending => (some event, pending)

/-- The three events of a call. -/
def toolUse (id name arguments : String) : List StreamEvent :=
  [.toolUseStart id name, .toolInputDelta arguments, .toolUseEnd]

/-- Its callers have the id of the item, so no id is made up. -/
def streamToolCallFromState (itemId : String) (state : StreamingToolCallState)
    (pending : List StreamEvent) : Option StreamEvent × List StreamEvent :=
  match state.name.filter fun name => name ≠ "" with
  | none => (none, pending)
  | some toolName =>
      let rawCallId := (state.callId.filter fun id => id ≠ "").getD itemId
      let arguments := normalizeOpenaiToolArguments
        (if state.arguments = "" then "\x7b\x7d" else state.arguments)
      popFront (pending ++ toolUse (Chat.sanitizeToolId rawCallId) toolName arguments)

section
variable (env : StreamEnv)

/-- The item's fields, over those that were collected. -/
def StreamingToolCallState.addItem (state : StreamingToolCallState) (item : Value) :
    StreamingToolCallState where
  callId := (textOf item "call_id").or state.callId
  name := (textOf item "name").or state.name
  arguments :=
    match (textOf item "arguments").or (textOf item "input"), item.get "input" with
    | some arguments, _ => arguments
    | none, some input => if isObjectOrArray input then env.toJson input else state.arguments
    | none, none => state.arguments

/-- The arguments of a finished item. -/
def itemArguments (item : Value) : String :=
  ((textOf item "arguments").or ((item.get "input").bind fun input =>
    if isObjectOrArray input then some (env.toJson input) else input.asStr)).getD "\x7b\x7d"

def handleOpenaiOutputItem (item : Value) (pending : List StreamEvent) :
    Option StreamEvent × List StreamEvent :=
  if isToolItem item then
    popFront (pending ++ toolUse ((textOf item "call_id").getD "") ((textOf item "name").getD "")
      (normalizeOpenaiToolArguments (itemArguments env item)))
  else env.handleOtherItem item pending

/-! ### The stream -/

structure OpenAIResponsesStream where
  pending : List StreamEvent
  streamingToolCalls : StrMap StreamingToolCallState
  completedToolItems : Finset String

def OpenAIResponsesStream.new : OpenAIResponsesStream := ⟨[], .empty, ∅⟩

/-- `parse_openai_response_event`, on the stream's maps and its queue. -/
def OpenAIResponsesStream.parse (s : OpenAIResponsesStream) (event : ResponseSseEvent) :
    Option StreamEvent × OpenAIResponsesStream :=
  match event.kind with
  | .outputItemAdded =>
      match event.item with
      | none => (none, s)
      | some item =>
          if textOf item "type" = some "reasoning" then (some .thinkingStart, s)
          else match isToolItem item, streamingToolItemId item with
          | true, some itemId =>
              let state := (s.streamingToolCalls.get itemId).getD {}
              (none, { s with
                streamingToolCalls := s.streamingToolCalls.insert itemId (state.addItem env item) })
          | _, _ => (none, s)
  | .functionCallArgumentsDelta =>
      match event.itemId with
      | none => (none, s)
      | some itemId =>
          let state := (s.streamingToolCalls.get itemId).getD {}
          let state : StreamingToolCallState :=
            { callId := event.callId.or state.callId
              name := event.name.or state.name
              arguments := state.arguments ++ event.delta.getD "" }
          (none, { s with streamingToolCalls := s.streamingToolCalls.insert itemId state })
  | .functionCallArgumentsDone =>
      match event.itemId with
      | none => (none, s)
      | some itemId =>
          let state := (s.streamingToolCalls.get itemId).getD {}
          let state : StreamingToolCallState :=
            { callId := event.callId.or state.callId
              name := event.name.or state.name
              arguments := event.arguments.getD state.arguments }
          let calls := s.streamingToolCalls.remove itemId
          match streamToolCallFromState itemId state s.pending with
          | (some toolEvent, pending) =>
              (some toolEvent, ⟨pending, calls, insert itemId s.completedToolItems⟩)
          | (none, pending) => (none, ⟨pending, calls.insert itemId state, s.completedToolItems⟩)
  | .outputItemDone =>
      match event.item with
      | none => (none, s)
      | some item =>
          let completed := (streamingToolItemId item).filter (· ∈ s.completedToolItems)
          match completed, isToolItem item with
          | some itemId, true =>
              (none, { s with completedToolItems := s.completedToolItems.erase itemId })
          | _, _ =>
              let (out, pending) := handleOpenaiOutputItem env item s.pending
              (out, { s with pending })

/-- The loop of `parse_next_event` over the events that have arrived. -/
def OpenAIResponsesStream.parseEvents (s : OpenAIResponsesStream) :
    List ResponseSseEvent → Option StreamEvent × OpenAIResponsesStream × List ResponseSseEvent
  | [] => (none, s, [])
  | event :: rest =>
      match s.parse env event with
      | (some out, s) => (some out, s, rest)
      | (none, s) => s.parseEvents rest

/-- `parse_next_event`: what is in the queue comes first. -/
def OpenAIResponsesStream.parseNextEvent (s : OpenAIResponsesStream)
    (events : List ResponseSseEvent) :
    Option StreamEvent × OpenAIResponsesStream × List ResponseSseEvent :=
  match popFront s.pending with
  | (some out, pending) => (some out, { s with pending }, events)
  | (none, _) => s.parseEvents env events

theorem length_parseEvents (s : OpenAIResponsesStream) (events : List ResponseSseEvent) :
    (s.parseEvents env events).1 = none ∨
      (s.parseEvents env events).2.2.length < events.length := by
  induction events generalizing s with
  | nil => exact .inl rfl
  | cons event rest ih =>
      rw [OpenAIResponsesStream.parseEvents]
      split
      · exact .inr (Nat.lt_succ_self _)
      · rename_i s' _
        exact (ih s').imp_right fun h => Nat.lt_succ_of_lt h

/-- What the stream gives leaves fewer events, or fewer in the queue. -/
theorem parseNextEvent_decreases {s s' : OpenAIResponsesStream} {events rest : List ResponseSseEvent}
    {out : StreamEvent} (h : s.parseNextEvent env events = (some out, s', rest)) :
    rest.length < events.length ∨ rest = events ∧ s'.pending.length < s.pending.length := by
  rw [OpenAIResponsesStream.parseNextEvent] at h
  cases hpending : s.pending with
  | cons event pending =>
      rw [hpending, popFront] at h
      obtain ⟨_, hs, hrest⟩ : _ ∧ _ ∧ events = rest := by simpa using h
      exact .inr ⟨hrest.symm, by rw [← hs]; exact Nat.lt_succ_self _⟩
  | nil =>
      rw [hpending, popFront] at h
      dsimp only at h
      obtain hnone | hlt := length_parseEvents env s events
      · rw [h] at hnone
        cases hnone
      · rw [h] at hlt
        exact .inl hlt

/-- The stream is polled until it has no more to give. -/
def OpenAIResponsesStream.pollAll (s : OpenAIResponsesStream) (events : List ResponseSseEvent) :
    List StreamEvent :=
  match _h : s.parseNextEvent env events with
  | (none, _, _) => []
  | (some out, s', rest) => out :: s'.pollAll rest
termination_by (events.length, s.pending.length)
decreasing_by
  obtain hlt | ⟨rfl, hlt⟩ := parseNextEvent_decreases env _h
  · exact Prod.Lex.left _ _ hlt
  · exact Prod.Lex.right _ hlt

theorem pollAll_of_none {s s' : OpenAIResponsesStream} {events rest : List ResponseSseEvent}
    (h : s.parseNextEvent env events = (none, s', rest)) : s.pollAll env events = [] := by
  rw [OpenAIResponsesStream.pollAll]
  split
  · rfl
  · rename_i heq
    rw [h] at heq
    cases heq

theorem pollAll_of_some {s s' : OpenAIResponsesStream} {events rest : List ResponseSseEvent}
    {out : StreamEvent} (h : s.parseNextEvent env events = (some out, s', rest)) :
    s.pollAll env events = out :: s'.pollAll env rest := by
  rw [OpenAIResponsesStream.pollAll]
  split
  · rename_i heq
    rw [h] at heq
    cases heq
  · rename_i heq
    rw [h] at heq
    cases heq
    rfl

theorem pollAll_congr {s s' : OpenAIResponsesStream} {events events' : List ResponseSseEvent}
    (h : s.parseNextEvent env events = s'.parseNextEvent env events') :
    s.pollAll env events = s'.pollAll env events' := by
  rcases hnext : s'.parseNextEvent env events' with ⟨out, s'', rest⟩
  rw [hnext] at h
  cases out with
  | none => rw [pollAll_of_none env h, pollAll_of_none env hnext]
  | some out => rw [pollAll_of_some env h, pollAll_of_some env hnext]

/-- What is in the queue comes first. -/
theorem pollAll_pending (s : OpenAIResponsesStream) (events : List ResponseSseEvent) :
    s.pollAll env events = s.pending ++ OpenAIResponsesStream.pollAll env { s with pending := [] } events := by
  obtain ⟨pending, calls, completed⟩ := s
  induction pending with
  | nil => rfl
  | cons event pending ih =>
      rw [List.cons_append, ← ih]
      exact pollAll_of_some env rfl

variable {env}

theorem pollAll_nil {s : OpenAIResponsesStream} (h : s.pending = []) : s.pollAll env [] = [] := by
  have hnext : s.parseNextEvent env [] = (none, s, []) := by
    rw [OpenAIResponsesStream.parseNextEvent, h]
    rfl
  exact pollAll_of_none env hnext

/-- **The stream, event by event**: it gives out what an event leaves in the queue before it reads the
next. -/
theorem pollAll_cons {s s' : OpenAIResponsesStream} {event : ResponseSseEvent}
    {out : Option StreamEvent} {rest : List ResponseSseEvent} (h : s.pending = [])
    (hparse : s.parse env event = (out, s')) (hempty : out = none → s'.pending = []) :
    s.pollAll env (event :: rest) =
      out.toList ++ s'.pending ++ OpenAIResponsesStream.pollAll env { s' with pending := [] } rest := by
  have hnext : s.parseNextEvent env (event :: rest) = s.parseEvents env (event :: rest) := by
    rw [OpenAIResponsesStream.parseNextEvent, h]
    rfl
  rw [OpenAIResponsesStream.parseEvents, hparse] at hnext
  cases out with
  | some out => rw [pollAll_of_some env hnext, pollAll_pending]; rfl
  | none =>
      obtain ⟨pending, calls, completed⟩ := s'
      obtain rfl : pending = [] := hempty rfl
      exact pollAll_congr env hnext

end

end Jcode.Provider.OpenAiStream
