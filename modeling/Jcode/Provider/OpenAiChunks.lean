import Jcode.Provider.OpenAiStream
import Jcode.Support.Occur
import Jcode.Support.RecordLog
import Jcode.Support.Text

/-!
# Provider — OpenAI stream, chunks

`OpenAIResponsesStream` over the chunks of bytes as they arrive.  A chunk that is not a text on its own
is dropped; the others are put behind the buffer, and the blocks that end in it are given out one by
one.  The functions that turn the JSON of a block into events are parameters, with what they put in the
queue as their value.

* `pollAll_eq`: the stream gives out what is in the text of the chunks that it could read, as if it had
  come at once.
* `chunks_same_events`: so cuts between characters are not seen.
-/

namespace Jcode.Provider.OpenAiStream

open Rust
open RecordLog (utf8 fromUtf8)
open Serde (Value)
open Agent (StreamEvent)

/-! ### The data of a block -/

/-- `sse_data_line`. -/
def sseDataLine (line : String) : Option String :=
  (stripPrefix line "data:").map fun rest => (stripPrefix rest " ").getD rest

/-- The data lines of a block, if there are any. -/
def blockData (block : List Char) : Option String :=
  match (lines (String.ofList block)).filterMap sseDataLine with
  | [] => none
  | dataLines => some (join "\n" dataLines)

/-- The data, read as JSON. -/
inductive ReadEvent where
  | textDelta (delta : String)
  | item (event : ResponseSseEvent)
  /-- About reasoning, the end of the response, or an error. -/
  | other (value : Value)

/-- What the stream reads from elsewhere. -/
structure ResponseEnv where
  toLowercase : String → String
  isStructuredResponseEvent : String → Bool
  fromStr : String → Option ReadEvent
  toJson : Value → String
  /-- `stream_text_or_recovered_tool_call`. -/
  textEvents : String → List StreamEvent
  /-- `handle_openai_output_item`, of an item that is no tool call; a message is left out when its text
  was streamed. -/
  itemEvents : Bool → Value → List StreamEvent
  otherEvents : Value → List StreamEvent

/-- What is kept from event to event. -/
structure ResponseState where
  sawTextDelta : Bool
  streamingToolCalls : StrMap StreamingToolCallState
  completedToolItems : Finset String

section
variable (env : ResponseEnv)

def isWebsocketFallbackNotice (data : String) : Bool :=
  !env.isStructuredResponseEvent data &&
    contains (env.toLowercase data) "falling back from websockets to https transport"

def ResponseEnv.items (sawTextDelta : Bool) : StreamEnv where
  toJson := env.toJson
  handleOtherItem item pending := popFront (pending ++ env.itemEvents sawTextDelta item)

def parseOpenaiResponseEvent (data : String) (s : ResponseState) (pending : List StreamEvent) :
    Option StreamEvent × ResponseState × List StreamEvent :=
  if data = "[DONE]" then (some (.messageEnd none), s, pending)
  else if isWebsocketFallbackNotice env data then (none, s, pending)
  else if contains (env.toLowercase data) "stream disconnected before completion" ∧
      env.isStructuredResponseEvent data = false then
    (some (.error data none), s, pending)
  else
    match env.fromStr data with
    | none => (none, s, pending)
    | some (.textDelta delta) =>
        let next := popFront (pending ++ env.textEvents delta)
        (next.1, { s with sawTextDelta := true }, next.2)
    | some (.item event) =>
        let next := OpenAIResponsesStream.parse (env.items s.sawTextDelta)
          ⟨pending, s.streamingToolCalls, s.completedToolItems⟩ event
        (next.1, ⟨s.sawTextDelta, next.2.streamingToolCalls, next.2.completedToolItems⟩,
          next.2.pending)
    | some (.other value) =>
        let next := popFront (pending ++ env.otherEvents value)
        (next.1, s, next.2)

end

/-! ### The buffer -/

/-- The block that ends first, and what is behind it. -/
def nextBlock (buffer : List Char) : Option (List Char × List Char) :=
  (Occur.findAt ['\n', '\n'] buffer).map fun pos => (buffer.take pos, buffer.drop (pos + 2))

/-- What the block is in the text. -/
theorem nextBlock_eq_some {buffer block rest : List Char} (h : nextBlock buffer = some (block, rest)) :
    ∃ pos, Occur.findAt ['\n', '\n'] buffer = some pos ∧ pos + 2 ≤ buffer.length ∧
      buffer.take pos = block ∧ buffer.drop (pos + 2) = rest := by
  obtain ⟨pos, hpos, hpair⟩ := Option.map_eq_some_iff.mp h
  obtain ⟨hblock, hrest⟩ := Prod.mk.inj hpair
  obtain ⟨hle, hprefix, -⟩ := Occur.findAt_eq_some_iff.mp hpos
  have hlength := hprefix.length_le
  simp only [List.length_cons, List.length_nil, List.length_drop] at hlength
  exact ⟨pos, hpos, by omega, hblock, hrest⟩

theorem nextBlock_lt {buffer block rest : List Char} (h : nextBlock buffer = some (block, rest)) :
    rest.length < buffer.length := by
  obtain ⟨pos, -, hle, -, rfl⟩ := nextBlock_eq_some h
  rw [List.length_drop]
  omega

/-- More text does not change the block that ends first. -/
theorem nextBlock_append {buffer block rest : List Char} (h : nextBlock buffer = some (block, rest))
    (more : List Char) : nextBlock (buffer ++ more) = some (block, rest ++ more) := by
  obtain ⟨pos, hpos, hle, rfl, rfl⟩ := nextBlock_eq_some h
  rw [nextBlock, Occur.findAt_append hpos, Option.map_some, List.take_append_of_le_length (by omega),
    List.drop_append_of_le_length hle]

structure ResponsesStream where
  buffer : List Char
  pending : List StreamEvent
  state : ResponseState

def ResponsesStream.new : ResponsesStream := ⟨[], [], ⟨false, .empty, ∅⟩⟩

section
variable (env : ResponseEnv)

/-- The loop of `parse_next_event`. -/
def ResponsesStream.parseBuffer (s : ResponsesStream) : Option StreamEvent × ResponsesStream :=
  match _h : nextBlock s.buffer with
  | none => (none, s)
  | some (block, rest) =>
      match blockData block with
      | none => ResponsesStream.parseBuffer { s with buffer := rest }
      | some data =>
          match parseOpenaiResponseEvent env data s.state s.pending with
          | (some out, state, pending) => (some out, ⟨rest, pending, state⟩)
          | (none, state, pending) => ResponsesStream.parseBuffer ⟨rest, pending, state⟩
termination_by s.buffer.length
decreasing_by
  · exact nextBlock_lt _h
  · exact nextBlock_lt _h

/-- `parse_next_event`: what is in the queue comes first. -/
def ResponsesStream.parseNextEvent (s : ResponsesStream) : Option StreamEvent × ResponsesStream :=
  match popFront s.pending with
  | (some out, pending) => (some out, { s with pending })
  | (none, _) => s.parseBuffer env

/-- A chunk that is not a text is dropped. -/
def ResponsesStream.receive (s : ResponsesStream) (bytes : List UInt8) : ResponsesStream :=
  match fromUtf8 bytes with
  | some text => { s with buffer := s.buffer ++ text }
  | none => s

/-- `poll_next`, with the chunks that are still to come; `none` is the end of the stream. -/
def ResponsesStream.pollNext (s : ResponsesStream) :
    List (List UInt8) → Option StreamEvent × ResponsesStream × List (List UInt8)
  | [] =>
      match s.parseNextEvent env with
      | (out, s) => (out, s, [])
  | bytes :: chunks =>
      match s.parseNextEvent env with
      | (some out, s) => (some out, s, bytes :: chunks)
      | (none, s) => (s.receive bytes).pollNext chunks

/-- What the text gives out when it is all there. -/
def drain (s : ResponseState) (text : List Char) : List StreamEvent :=
  match _h : nextBlock text with
  | none => []
  | some (block, rest) =>
      match blockData block with
      | none => drain s rest
      | some data =>
          let next := parseOpenaiResponseEvent env data s []
          next.1.toList ++ next.2.2 ++ drain next.2.1 rest
termination_by text.length
decreasing_by
  · exact nextBlock_lt _h
  · exact nextBlock_lt _h

/-- What the stream still gives out, when this text is still to come. -/
def ResponsesStream.outlook (s : ResponsesStream) (more : List Char) : List StreamEvent :=
  s.pending ++ drain env s.state (s.buffer ++ more)

end

/-! ### One event -/

section
variable {env : ResponseEnv} {s s' : ResponsesStream} {state : ResponseState}
  {buffer block rest : List Char}

theorem drain_of_none (h : nextBlock buffer = none) : drain env state buffer = [] := by
  rw [drain]
  split
  · rfl
  · rename_i heq
    rw [h] at heq
    cases heq

theorem drain_of_some (h : nextBlock buffer = some (block, rest)) : drain env state buffer =
    match blockData block with
    | none => drain env state rest
    | some data => (parseOpenaiResponseEvent env data state []).1.toList ++
        (parseOpenaiResponseEvent env data state []).2.2 ++
          drain env (parseOpenaiResponseEvent env data state []).2.1 rest := by
  rw [drain]
  split
  · rename_i heq
    rw [h] at heq
    cases heq
  · rename_i heq
    rw [h] at heq
    cases heq
    rfl

theorem popFront_quiet {pending : List StreamEvent} (h : (popFront pending).1 = none) :
    (popFront pending).2 = [] := by
  cases pending with
  | nil => rfl
  | cons event pending => cases h

theorem streamToolCallFromState_quiet {itemId : String} {call : StreamingToolCallState}
    {pending : List StreamEvent} (h : streamToolCallFromState itemId call [] = (none, pending)) :
    pending = [] := by
  unfold streamToolCallFromState at h
  split at h
  · exact (Prod.mk.inj h).2.symm
  · cases h

/-- A tool's event that gives nothing out leaves nothing in the queue. -/
theorem parse_quiet {sawTextDelta : Bool} {calls : StrMap StreamingToolCallState}
    {completed : Finset String} {event : ResponseSseEvent}
    (h : (OpenAIResponsesStream.parse (env.items sawTextDelta) ⟨[], calls, completed⟩ event).1 = none) :
    (OpenAIResponsesStream.parse (env.items sawTextDelta) ⟨[], calls, completed⟩ event).2.pending =
      [] := by
  revert h
  unfold OpenAIResponsesStream.parse
  split
  · split
    · exact fun _ => rfl
    · split
      · exact fun _ => rfl
      · split <;> exact fun _ => rfl
  · split <;> exact fun _ => rfl
  · split
    · exact fun _ => rfl
    · dsimp only
      split
      · intro h
        cases h
      · rename_i heq
        exact fun _ => streamToolCallFromState_quiet heq
  · split
    · exact fun _ => rfl
    · dsimp only
      split
      · exact fun _ => rfl
      · unfold handleOpenaiOutputItem
        split
        · intro h
          cases h
        · exact popFront_quiet

theorem parseOpenaiResponseEvent_quiet {data : String}
    (h : (parseOpenaiResponseEvent env data state []).1 = none) :
    (parseOpenaiResponseEvent env data state []).2.2 = [] := by
  revert h
  unfold parseOpenaiResponseEvent
  split
  · intro h
    cases h
  split
  · exact fun _ => rfl
  split
  · intro h
    cases h
  split
  · exact fun _ => rfl
  · exact popFront_quiet
  · exact parse_quiet
  · exact popFront_quiet

/-- There is less in the buffer, or less in the queue. -/
def Shorter (s' s : ResponsesStream) : Prop :=
  s'.buffer.length < s.buffer.length ∨
    s'.buffer.length = s.buffer.length ∧ s'.pending.length < s.pending.length

/-- What the stream gives out comes first of all that it has to give, and the rest is still to come; if
it gives nothing, no block has ended. -/
def Gives (env : ResponseEnv) (s : ResponsesStream) : Option StreamEvent × ResponsesStream → Prop
  | (some out, s') => Shorter s' s ∧ ∀ more, s.outlook env more = out :: s'.outlook env more
  | (none, s') => s'.pending = [] ∧ nextBlock s'.buffer = none ∧
      ∀ more, s.outlook env more = s'.outlook env more

/-- A stream may go on as another one with less in its buffer. -/
theorem Gives.of_later {result : Option StreamEvent × ResponsesStream} (h : Gives env s' result)
    (hlt : s'.buffer.length < s.buffer.length)
    (hnext : ∀ more, s.outlook env more = s'.outlook env more) : Gives env s result := by
  obtain ⟨out, s₁⟩ := result
  cases out with
  | some out =>
      obtain ⟨hshorter, hrest⟩ := h
      refine ⟨.inl ?_, fun more => (hnext more).trans (hrest more)⟩
      rcases hshorter with hless | ⟨heq, -⟩
      · exact hless.trans hlt
      · exact heq ▸ hlt
  | none =>
      obtain ⟨hempty, hend, hrest⟩ := h
      exact ⟨hempty, hend, fun more => (hnext more).trans (hrest more)⟩

/-- The block that ends first, when the queue is empty. -/
theorem outlook_of_some {data : String} (hpending : s.pending = [])
    (hblock : nextBlock s.buffer = some (block, rest)) (hdata : blockData block = some data)
    (more : List Char) : s.outlook env more =
      (parseOpenaiResponseEvent env data s.state []).1.toList ++
        (parseOpenaiResponseEvent env data s.state []).2.2 ++
          drain env (parseOpenaiResponseEvent env data s.state []).2.1 (rest ++ more) := by
  rw [ResponsesStream.outlook, hpending, drain_of_some (nextBlock_append hblock more), hdata]
  rfl

theorem parseBuffer_gives (s : ResponsesStream) (hpending : s.pending = []) :
    Gives env s (s.parseBuffer env) := by
  fun_induction ResponsesStream.parseBuffer env s with
  | case1 s hnone => exact ⟨hpending, hnone, fun more => rfl⟩
  | case2 s block rest hblock hdata ih =>
      refine (ih hpending).of_later (nextBlock_lt hblock) fun more => ?_
      rw [ResponsesStream.outlook, ResponsesStream.outlook,
        drain_of_some (nextBlock_append hblock more), hdata]
  | case3 s block rest hblock data hdata out state pending hout =>
      rw [hpending] at hout
      refine ⟨.inl (nextBlock_lt hblock), fun more => ?_⟩
      rw [outlook_of_some hpending hblock hdata more, hout]
      rfl
  | case4 s block rest hblock data hdata state pending hout ih =>
      rw [hpending] at hout
      -- an event that gives nothing out leaves the queue empty, so a chunk may end behind it
      have hquiet : pending = [] := by
        have h := @parseOpenaiResponseEvent_quiet env s.state data
        rw [hout] at h
        exact h rfl
      refine (ih hquiet).of_later (nextBlock_lt hblock) fun more => ?_
      rw [outlook_of_some hpending hblock hdata more, hout]
      rfl

theorem parseNextEvent_gives (s : ResponsesStream) : Gives env s (s.parseNextEvent env) := by
  rw [ResponsesStream.parseNextEvent]
  cases hpending : s.pending with
  | nil => exact parseBuffer_gives s hpending
  | cons event pending =>
      refine ⟨.inr ⟨rfl, ?_⟩, fun more => ?_⟩
      · rw [hpending]
        exact Nat.lt_succ_self _
      · rw [ResponsesStream.outlook, hpending]
        rfl

/-! ### All events -/

/-- The text of the chunks that are read. -/
def received (chunks : List (List UInt8)) : List Char := (chunks.filterMap fromUtf8).flatten

theorem outlook_receive (s : ResponsesStream) (bytes : List UInt8) (chunks : List (List UInt8)) :
    (s.receive bytes).outlook env (received chunks) = s.outlook env (received (bytes :: chunks)) := by
  rw [ResponsesStream.receive, received, received, List.filterMap_cons]
  cases fromUtf8 bytes with
  | none => rfl
  | some chunk =>
      dsimp only
      rw [ResponsesStream.outlook, ResponsesStream.outlook, List.flatten_cons, List.append_assoc]

theorem pollNext_spec (s : ResponsesStream) (chunks : List (List UInt8)) :
    (∀ out s' rest, s.pollNext env chunks = (some out, s', rest) →
      (rest.length < chunks.length ∨ rest.length = chunks.length ∧ Shorter s' s) ∧
        s.outlook env (received chunks) = out :: s'.outlook env (received rest)) ∧
    (∀ s' rest, s.pollNext env chunks = (none, s', rest) →
      s.outlook env (received chunks) = []) := by
  induction chunks generalizing s with
  | nil =>
      have hgives := @parseNextEvent_gives env s
      rw [ResponsesStream.pollNext]
      rcases hnext : s.parseNextEvent env with ⟨out, s₁⟩
      rw [hnext] at hgives
      refine ⟨fun out' s' rest h => ?_, fun s' rest h => ?_⟩
      · cases h
        exact ⟨.inr ⟨rfl, hgives.1⟩, hgives.2 _⟩
      · cases h
        obtain ⟨hempty, hend, hrest⟩ := hgives
        rw [hrest, ResponsesStream.outlook, hempty]
        exact drain_of_none (by rwa [received, List.filterMap_nil, List.flatten_nil, List.append_nil])
  | cons bytes chunks ih =>
      have hgives := @parseNextEvent_gives env s
      rw [ResponsesStream.pollNext]
      rcases hnext : s.parseNextEvent env with ⟨out, s₁⟩
      rw [hnext] at hgives
      cases out with
      | some out =>
          refine ⟨fun out' s' rest h => ?_, fun s' rest h => ?_⟩
          · cases h
            exact ⟨.inr ⟨rfl, hgives.1⟩, hgives.2 _⟩
          · cases h
      | none =>
          -- no block has ended: the next chunk is put behind the buffer
          obtain ⟨-, -, hrest⟩ := hgives
          rw [hrest, ← outlook_receive]
          obtain ⟨hsome, hnone⟩ := ih (s₁.receive bytes)
          refine ⟨fun out' s' rest h => ?_, hnone⟩
          obtain ⟨hshorter, hgives⟩ := hsome out' s' rest h
          refine ⟨.inl ?_, hgives⟩
          rw [List.length_cons]
          rcases hshorter with hlt | ⟨heq, -⟩ <;> omega

end

section
variable (env : ResponseEnv)

/-- The stream is polled to its end. -/
def ResponsesStream.pollAll (s : ResponsesStream) (chunks : List (List UInt8)) : List StreamEvent :=
  match _h : s.pollNext env chunks with
  | (none, _, _) => []
  | (some out, s', rest) => out :: s'.pollAll rest
termination_by (chunks.length, s.buffer.length, s.pending.length)
decreasing_by
  obtain ⟨hchunks | ⟨hchunks, hbuffer | ⟨hbuffer, hqueue⟩⟩, -⟩ := (pollNext_spec s chunks).1 _ _ _ _h
  · exact Prod.Lex.left _ _ hchunks
  · rw [hchunks]
    exact Prod.Lex.right _ (Prod.Lex.left _ _ hbuffer)
  · rw [hchunks, hbuffer]
    exact Prod.Lex.right _ (Prod.Lex.right _ hqueue)

/-- **The stream gives out what is in the text that it read**, whatever chunks the text came in. -/
theorem pollAll_eq (s : ResponsesStream) (chunks : List (List UInt8)) :
    s.pollAll env chunks = s.outlook env (received chunks) := by
  fun_induction ResponsesStream.pollAll env s chunks with
  | case1 s chunks s' rest h => exact ((pollNext_spec s chunks).2 _ _ h).symm
  | case2 s chunks out s' rest h ih =>
      rw [ih]
      exact ((pollNext_spec s chunks).1 _ _ _ h).2.symm

variable {env}

/-- When every chunk is read, so is every byte. -/
theorem utf8_received {chunks : List (List UInt8)} (h : ∀ bytes ∈ chunks, (fromUtf8 bytes).isSome) :
    utf8 (received chunks) = chunks.flatten := by
  induction chunks with
  | nil => rfl
  | cons bytes chunks ih =>
      obtain ⟨hbytes, hchunks⟩ := List.forall_mem_cons.mp h
      obtain ⟨chunk, hchunk⟩ := Option.isSome_iff_exists.mp hbytes
      have hread : received (bytes :: chunks) = chunk ++ received chunks := by
        rw [received, List.filterMap_cons_some hchunk, List.flatten_cons, received]
      rw [hread, RecordLog.utf8_append, ih hchunks, List.flatten_cons,
        RecordLog.fromUtf8_eq_some hchunk]

/-- **Cuts between characters are not seen**: however the bytes are cut, as long as every chunk is a
text on its own, the stream gives out the same events. -/
theorem chunks_same_events {chunks chunks' : List (List UInt8)}
    (hsame : chunks.flatten = chunks'.flatten)
    (hread : ∀ bytes ∈ chunks, (fromUtf8 bytes).isSome)
    (hread' : ∀ bytes ∈ chunks', (fromUtf8 bytes).isSome) :
    ResponsesStream.new.pollAll env chunks = ResponsesStream.new.pollAll env chunks' := by
  have hutf8 : utf8 (received chunks) = utf8 (received chunks') :=
    (utf8_received hread).trans (hsame.trans (utf8_received hread').symm)
  have hreceived : received chunks = received chunks' := by
    have h := congrArg fromUtf8 hutf8
    rwa [RecordLog.fromUtf8_utf8, RecordLog.fromUtf8_utf8, Option.some.injEq] at h
  rw [pollAll_eq, pollAll_eq, hreceived]

/-! ### The end of the stream -/

def doneText : List Char := "data: [DONE]\n\n".toList

theorem drain_doneText (state : ResponseState) : drain env state doneText = [.messageEnd none] := by
  have hblock : nextBlock doneText = some ("data: [DONE]".toList, []) := by decide +kernel
  have hdata : blockData "data: [DONE]".toList = some "[DONE]" := by decide +kernel
  have hempty : nextBlock [] = none := by decide
  rw [drain_of_some hblock, hdata]
  dsimp only
  rw [parseOpenaiResponseEvent, if_pos rfl, drain_of_none hempty]
  rfl

theorem pollAll_one (text : List Char) :
    ResponsesStream.new.pollAll env [utf8 text] = drain env ResponsesStream.new.state text := by
  have hreceived : received [utf8 text] = text := by
    rw [received, List.filterMap_cons_some (RecordLog.fromUtf8_utf8 text), List.filterMap_nil,
      List.flatten_cons, List.flatten_nil, List.append_nil]
  rw [pollAll_eq, hreceived]
  rfl

end

/-- Nothing is read as JSON. -/
def bareEnv : ResponseEnv where
  toLowercase := id
  isStructuredResponseEvent _ := false
  fromStr _ := none
  toJson _ := ""
  textEvents _ := []
  itemEvents _ _ := []
  otherEvents _ := []

theorem chunks_same_events_done :
    ResponsesStream.new.pollAll bareEnv [utf8 (doneText.take 8), utf8 (doneText.drop 8)] =
      [.messageEnd none] := by
  have hsame : [utf8 (doneText.take 8), utf8 (doneText.drop 8)].flatten = [utf8 doneText].flatten := by
    decide +kernel
  refine (chunks_same_events hsame ?_ ?_).trans ((pollAll_one doneText).trans (drain_doneText _))
  · exact List.forall_mem_cons.mpr ⟨by rw [RecordLog.fromUtf8_utf8]; rfl,
      List.forall_mem_singleton.mpr (by rw [RecordLog.fromUtf8_utf8]; rfl)⟩
  · exact List.forall_mem_singleton.mpr (by rw [RecordLog.fromUtf8_utf8]; rfl)

/-- A delta with a character of two bytes, and the end of the stream. -/
def deltaText : List Char :=
  "data: \x7b\"type\":\"response.output_text.delta\",\"delta\":\"é\"\x7d\n\n".toList ++ doneText

/-- Its bytes, cut inside that character. -/
def cutChunks : List (List UInt8) := [(utf8 deltaText).take 53, (utf8 deltaText).drop 53]

/-- **A cut inside a character loses both chunks**, and here the whole stream. -/
theorem cut_character_lost :
    cutChunks.flatten = utf8 deltaText ∧ [] ∉ cutChunks ∧ utf8 deltaText ≠ [] ∧
    ∀ env : ResponseEnv, ResponsesStream.new.pollAll env cutChunks ≠
      ResponsesStream.new.pollAll env [utf8 deltaText] := by
  refine ⟨by decide +kernel, by decide +kernel, by decide +kernel, fun env heq => ?_⟩
  have hfirst : fromUtf8 ((utf8 deltaText).take 53) = none := by decide +kernel
  have hsecond : fromUtf8 ((utf8 deltaText).drop 53) = none := by decide +kernel
  have hlost : received cutChunks = [] := by
    rw [received, cutChunks, List.filterMap_cons_none hfirst, List.filterMap_cons_none hsecond]
    rfl
  have hblock : nextBlock deltaText = some (deltaText.take 55, doneText) := by decide +kernel
  have hdata : (blockData (deltaText.take 55)).isSome := by decide +kernel
  obtain ⟨data, hdata⟩ := Option.isSome_iff_exists.mp hdata
  have hempty : nextBlock [] = none := by decide
  rw [pollAll_one, pollAll_eq, hlost, drain_of_some hblock, hdata] at heq
  dsimp only at heq
  rw [drain_doneText] at heq
  have hnothing : ResponsesStream.new.outlook env [] = [] := drain_of_none hempty
  rw [hnothing] at heq
  exact List.append_ne_nil_of_right_ne_nil _ (List.cons_ne_nil _ _) heq.symm

end Jcode.Provider.OpenAiStream
