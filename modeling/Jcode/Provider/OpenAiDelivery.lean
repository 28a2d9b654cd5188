import Jcode.Provider.OpenAiStream

/-!
# Provider — OpenAI stream, delivery

Items that call tools, streamed side by side.  Each is added with its call's id and name, its arguments
come piece by piece and then as a whole, and it is done; the events of different items come in any
order.  The second way out of the stream gives the call's id as it is, and the first makes it one that
may be sent back.

* `Interleaved`: the events of some items, in any order of the items.
* `DeliveredOnce`: each call is given out once, in one piece, when its arguments are done.
* `delivered_once_iff`: it is so exactly when the calls have ids and names that both ways give alike.
-/

namespace Jcode.Provider.OpenAiStream

open Rust
open Serde (Value)
open Agent (StreamEvent)

/-! ### The events of an item -/

/-- An item that calls a tool, with the arguments of its `arguments.done`, if there is one, and of its
`output_item.done`. -/
structure ToolItem where
  id : String
  callId : String
  name : String
  doneArguments : Option String
  lastArguments : String
  deriving DecidableEq, Repr

/-- The JSON of the item. -/
structure IsItem (it : ToolItem) (item : Value) : Prop where
  type : textOf item "type" = some "function_call"
  id : streamingToolItemId item = some it.id
  callId : textOf item "call_id" = some it.callId
  name : textOf item "name" = some it.name

/-- An event about the arguments of the item, which may name its call. -/
structure IsAbout (it : ToolItem) (event : ResponseSseEvent) : Prop where
  itemId : event.itemId = some it.id
  callId : event.callId = none ∨ event.callId = some it.callId
  name : event.name = none ∨ event.name = some it.name

/-- How far an item has come. -/
inductive Phase where
  | fresh | added | done | closed
  deriving DecidableEq, Repr

section
variable (env : StreamEnv)

/-- The events of an item that are still to come. -/
inductive Remaining (it : ToolItem) : Phase → List ResponseSseEvent → Prop where
  | added {event : ResponseSseEvent} {item : Value} {rest : List ResponseSseEvent}
      (hkind : event.kind = .outputItemAdded) (hitem : event.item = some item)
      (his : IsItem it item) (hrest : Remaining it .added rest) :
      Remaining it .fresh (event :: rest)
  | delta {event : ResponseSseEvent} {rest : List ResponseSseEvent}
      (hkind : event.kind = .functionCallArgumentsDelta) (habout : IsAbout it event)
      (hrest : Remaining it .added rest) : Remaining it .added (event :: rest)
  | done {event : ResponseSseEvent} {arguments : String} {rest : List ResponseSseEvent}
      (hkind : event.kind = .functionCallArgumentsDone) (habout : IsAbout it event)
      (harguments : event.arguments = some arguments) (hdone : it.doneArguments = some arguments)
      (hrest : Remaining it .done rest) : Remaining it .added (event :: rest)
  | last {event : ResponseSseEvent} {item : Value} {phase : Phase} {rest : List ResponseSseEvent}
      (hphase : phase = .done ∨ phase = .added ∧ it.doneArguments = none)
      (hkind : event.kind = .outputItemDone) (hitem : event.item = some item)
      (his : IsItem it item) (harguments : itemArguments env item = it.lastArguments)
      (hrest : Remaining it .closed rest) : Remaining it phase (event :: rest)
  | closed : Remaining it .closed []

/-- The item an event is about. -/
def eventItemId (event : ResponseSseEvent) : Option String :=
  match event.kind with
  | .outputItemAdded | .outputItemDone => event.item.bind streamingToolItemId
  | .functionCallArgumentsDelta | .functionCallArgumentsDone => event.itemId

/-- The events of some items with distinct ids: those of each item are in their order, and there are no
others. -/
structure Interleaved (items : List ToolItem) (events : List ResponseSseEvent) : Prop where
  distinct : (items.map ToolItem.id).Nodup
  about : ∀ event ∈ events, ∃ it ∈ items, eventItemId event = some it.id
  remaining : ∀ it ∈ items,
    Remaining env it .fresh (events.filter fun event => eventItemId event = some it.id)

end

/-! ### Delivery -/

/-- The three events of the item's call. -/
def ToolItem.triple (it : ToolItem) : List StreamEvent :=
  toolUse (Chat.sanitizeToolId it.callId) it.name
    (normalizeOpenaiToolArguments (it.doneArguments.getD it.lastArguments))

/-- The event that the call is due at: `arguments.done`, or `output_item.done` where it is missing. -/
def ToolItem.isDueAt (it : ToolItem) (event : ResponseSseEvent) : Bool :=
  match event.kind with
  | .functionCallArgumentsDone => it.doneArguments.isSome
  | .outputItemDone => it.doneArguments.isNone
  | _ => false

/-- The items whose calls are due, in the order of the events they are due at. -/
def deliveries (items : List ToolItem) (events : List ResponseSseEvent) : List ToolItem :=
  events.filterMap fun event =>
    (items.find? fun it => eventItemId event = some it.id).filter fun it => it.isDueAt event

/-- **Each call is delivered once**: of every item one call is due, and at each time the stream has
given out the calls that are due, each in one piece. -/
structure DeliveredOnce (env : StreamEnv) (items : List ToolItem) (events : List ResponseSseEvent) :
    Prop where
  each : (deliveries items events).Perm items
  inOrder : ∀ seen, seen <+: events →
    OpenAIResponsesStream.new.pollAll env seen = (deliveries items seen).flatMap ToolItem.triple

/-- What both ways out of the stream give alike: a call whose arguments are done has a name, and an id,
or an item whose id is no better; another has an id that needs no change. -/
def ToolItem.Plain (it : ToolItem) : Prop :=
  match it.doneArguments with
  | some _ => it.name ≠ "" ∧ (it.callId = "" → Chat.sanitizeToolId it.id = "unknown")
  | none => Chat.sanitizeToolId it.callId = it.callId

/-! ### What the stream does -/

/-- What the stream gives out at an event of the item. -/
def ToolItem.emitted (it : ToolItem) (event : ResponseSseEvent) : List StreamEvent :=
  match event.kind with
  | .functionCallArgumentsDone =>
      if it.name = "" then []
      else toolUse (Chat.sanitizeToolId (if it.callId = "" then it.id else it.callId)) it.name
        (normalizeOpenaiToolArguments (it.doneArguments.getD ""))
  | .outputItemDone =>
      if it.doneArguments.isSome ∧ it.name ≠ "" then []
      else toolUse it.callId it.name (normalizeOpenaiToolArguments it.lastArguments)
  | _ => []

/-- What the stream has collected of an item. -/
def Collected (s : OpenAIResponsesStream) (it : ToolItem) : Phase → Prop
  | .fresh => it.id ∉ s.completedToolItems
  | .added => it.id ∉ s.completedToolItems ∧ ∃ arguments,
      s.streamingToolCalls.get it.id = some ⟨some it.callId, some it.name, arguments⟩
  | .done => it.doneArguments.isSome ∧ (it.id ∈ s.completedToolItems ↔ it.name ≠ "")
  | .closed => True

section
variable {env : StreamEnv} {it : ToolItem} {s s' : OpenAIResponsesStream} {event : ResponseSseEvent}
  {rest : List ResponseSseEvent} {phase : Phase}

theorem IsItem.isToolItem {item : Value} (h : IsItem it item) : isToolItem item = true := by
  rw [OpenAiStream.isToolItem, h.type]
  rfl

/-- The two streams have collected the same of the other items. -/
def SameElsewhere (id : String) (s s' : OpenAIResponsesStream) : Prop :=
  ∀ id', id' ≠ id → s'.streamingToolCalls.get id' = s.streamingToolCalls.get id' ∧
    (id' ∈ s'.completedToolItems ↔ id' ∈ s.completedToolItems)

theorem Collected.of_sameElsewhere {it' : ToolItem} (h : Collected s it' phase)
    (hsame : SameElsewhere it.id s s') (hne : it'.id ≠ it.id) : Collected s' it' phase := by
  obtain ⟨hget, hmem⟩ := hsame it'.id hne
  cases phase with
  | fresh => exact mt hmem.mp h
  | added => exact ⟨mt hmem.mp h.1, hget ▸ h.2⟩
  | done => exact ⟨h.1, hmem.trans h.2⟩
  | closed => trivial

/-- What the stream does with an event of an item. -/
structure Handles (env : StreamEnv) (it : ToolItem) (s : OpenAIResponsesStream)
    (event : ResponseSseEvent) (rest : List ResponseSseEvent) (out : Option StreamEvent)
    (s' : OpenAIResponsesStream) : Prop where
  parse : s.parse env event = (out, s')
  emitted : out.toList ++ s'.pending = it.emitted event
  quiet : out = none → s'.pending = []
  remaining : ∃ phase, Remaining env it phase rest ∧ Collected s' it phase
  elsewhere : SameElsewhere it.id s s'

theorem handles_added {item : Value} (hpending : s.pending = []) (hkind : event.kind = .outputItemAdded)
    (hitem : event.item = some item) (his : IsItem it item) (hrest : Remaining env it .added rest)
    (hcollected : Collected s it .fresh) : ∃ out s', Handles env it s event rest out s' := by
  refine ⟨none, ⟨s.pending, s.streamingToolCalls.insert it.id
    (((s.streamingToolCalls.get it.id).getD {}).addItem env item), s.completedToolItems⟩, ?_, ?_,
    fun _ => hpending, ?_, ?_⟩
  · rw [OpenAIResponsesStream.parse, hkind, hitem]
    dsimp only
    rw [if_neg (by rw [his.type]; decide), his.isToolItem, his.id]
  · rw [ToolItem.emitted, hkind, hpending]
    rfl
  · refine ⟨.added, hrest, hcollected,
      (((s.streamingToolCalls.get it.id).getD {}).addItem env item).arguments, ?_⟩
    rw [StrMap.get_insert_self, StreamingToolCallState.addItem, his.callId, his.name]
    rfl
  · intro id' hne
    exact ⟨by rw [StrMap.get_insert, if_neg hne], Iff.rfl⟩

theorem handles_delta (hpending : s.pending = [])
    (hkind : event.kind = .functionCallArgumentsDelta) (habout : IsAbout it event)
    (hrest : Remaining env it .added rest) (hcollected : Collected s it .added) :
    ∃ out s', Handles env it s event rest out s' := by
  obtain ⟨hopen, arguments, hget⟩ := hcollected
  have hcallId : event.callId.or (some it.callId) = some it.callId := by
    obtain h | h := habout.callId <;> rw [h] <;> rfl
  have hname : event.name.or (some it.name) = some it.name := by
    obtain h | h := habout.name <;> rw [h] <;> rfl
  refine ⟨none, ⟨s.pending, s.streamingToolCalls.insert it.id
    ⟨some it.callId, some it.name, arguments ++ event.delta.getD ""⟩, s.completedToolItems⟩, ?_, ?_,
    fun _ => hpending, ?_, ?_⟩
  · rw [OpenAIResponsesStream.parse, hkind, habout.itemId]
    dsimp only
    rw [hget, Option.getD_some, hcallId, hname]
  · rw [ToolItem.emitted, hkind, hpending]
    rfl
  · exact ⟨.added, hrest, hopen, _, StrMap.get_insert_self _ _ _⟩
  · intro id' hne
    exact ⟨by rw [StrMap.get_insert, if_neg hne], Iff.rfl⟩

/-- No arguments and no arguments to speak of are the same. -/
theorem normalize_empty (arguments : String) :
    normalizeOpenaiToolArguments (if arguments = "" then "\x7b\x7d" else arguments) =
      normalizeOpenaiToolArguments arguments := by
  split
  · rename_i h
    rw [h]
    decide
  · rfl

theorem handles_done {arguments : String} (hpending : s.pending = [])
    (hkind : event.kind = .functionCallArgumentsDone) (habout : IsAbout it event)
    (harguments : event.arguments = some arguments) (hdone : it.doneArguments = some arguments)
    (hrest : Remaining env it .done rest) (hcollected : Collected s it .added) :
    ∃ out s', Handles env it s event rest out s' := by
  obtain ⟨hopen, collected, hget⟩ := hcollected
  have hcallId : event.callId.or (some it.callId) = some it.callId := by
    obtain h | h := habout.callId <;> rw [h] <;> rfl
  have hname : event.name.or (some it.name) = some it.name := by
    obtain h | h := habout.name <;> rw [h] <;> rfl
  have hread : ∀ toolEvent pending,
      streamToolCallFromState it.id ⟨some it.callId, some it.name, arguments⟩ [] = (toolEvent, pending) →
      s.parse env event = (toolEvent, ⟨pending, if toolEvent.isSome then s.streamingToolCalls.remove it.id
        else (s.streamingToolCalls.remove it.id).insert it.id
          ⟨some it.callId, some it.name, arguments⟩,
        if toolEvent.isSome then insert it.id s.completedToolItems else s.completedToolItems⟩) := by
    intro toolEvent pending hresult
    rw [OpenAIResponsesStream.parse, hkind, habout.itemId]
    cases toolEvent with
    | none => simp only [hget, Option.getD_some, hcallId, hname, harguments, hpending, hresult]; rfl
    | some toolEvent =>
        simp only [hget, Option.getD_some, hcallId, hname, harguments, hpending, hresult]; rfl
  by_cases hempty : it.name = ""
  · -- a call without a name is put back
    refine ⟨none, ⟨[], (s.streamingToolCalls.remove it.id).insert it.id
      ⟨some it.callId, some it.name, arguments⟩, s.completedToolItems⟩, ?_, ?_, fun _ => rfl,
      ⟨.done, hrest, ?_⟩, ?_⟩
    · exact hread none [] (by
        rw [streamToolCallFromState, Option.filter_some, if_neg (by simpa using hempty)])
    · rw [ToolItem.emitted, hkind]
      exact (if_pos hempty).symm
    · exact ⟨by rw [hdone]; rfl, iff_of_false hopen (not_not_intro hempty)⟩
    · intro id' hne
      exact ⟨by rw [StrMap.get_insert, if_neg hne, StrMap.get_remove, if_neg hne], Iff.rfl⟩
  · refine ⟨some (.toolUseStart (Chat.sanitizeToolId (if it.callId = "" then it.id else it.callId))
      it.name), ⟨[.toolInputDelta (normalizeOpenaiToolArguments arguments), .toolUseEnd],
        s.streamingToolCalls.remove it.id, insert it.id s.completedToolItems⟩, ?_, ?_,
      fun hnone => absurd hnone (by simp), ⟨.done, hrest, ?_⟩, ?_⟩
    · have hid : ((some it.callId).filter fun id => id ≠ "").getD it.id =
          if it.callId = "" then it.id else it.callId := by
        by_cases h : it.callId = "" <;> simp [Option.filter, h]
      exact hread _ _ (by
        rw [streamToolCallFromState, Option.filter_some, if_pos (by simpa using hempty), hid,
          normalize_empty]
        rfl)
    · rw [ToolItem.emitted, hkind]
      dsimp only
      rw [if_neg hempty, hdone]
      rfl
    · exact ⟨by rw [hdone]; rfl, iff_of_true (Finset.mem_insert_self _ _) hempty⟩
    · intro id' hne
      exact ⟨by rw [StrMap.get_remove, if_neg hne], by rw [Finset.mem_insert, or_iff_right hne]⟩

theorem handles_last {item : Value} (hpending : s.pending = [])
    (hphase : phase = .done ∨ phase = .added ∧ it.doneArguments = none)
    (hkind : event.kind = .outputItemDone) (hitem : event.item = some item) (his : IsItem it item)
    (harguments : itemArguments env item = it.lastArguments) (hrest : Remaining env it .closed rest)
    (hcollected : Collected s it phase) : ∃ out s', Handles env it s event rest out s' := by
  by_cases hmem : it.id ∈ s.completedToolItems
  · -- the call was given out when its arguments were done
    obtain ⟨hdone, hname⟩ : it.doneArguments.isSome ∧ it.name ≠ "" := by
      obtain rfl | ⟨rfl, _⟩ := hphase
      · exact ⟨hcollected.1, hcollected.2.mp hmem⟩
      · exact absurd hmem hcollected.1
    refine ⟨none, ⟨s.pending, s.streamingToolCalls, s.completedToolItems.erase it.id⟩, ?_, ?_,
      fun _ => hpending, ⟨.closed, hrest, trivial⟩, ?_⟩
    · rw [OpenAIResponsesStream.parse, hkind, hitem]
      dsimp only
      rw [his.id, his.isToolItem, Option.filter_some, if_pos (decide_eq_true hmem)]
    · rw [ToolItem.emitted, hkind, hpending]
      exact (if_pos ⟨hdone, hname⟩).symm
    · intro id' hne
      exact ⟨rfl, by rw [Finset.mem_erase, and_iff_right hne]⟩
  · have hdue : ¬ (it.doneArguments.isSome ∧ it.name ≠ "") := by
      rintro ⟨hdone, hname⟩
      obtain rfl | ⟨rfl, hnone⟩ := hphase
      · exact hmem (hcollected.2.mpr hname)
      · rw [hnone] at hdone
        cases hdone
    refine ⟨some (.toolUseStart it.callId it.name), ⟨[.toolInputDelta
      (normalizeOpenaiToolArguments it.lastArguments), .toolUseEnd], s.streamingToolCalls,
      s.completedToolItems⟩, ?_, ?_, nofun, ⟨.closed, hrest, trivial⟩, fun id' _ => ⟨rfl, Iff.rfl⟩⟩
    · rw [OpenAIResponsesStream.parse, hkind, hitem]
      dsimp only
      rw [his.id, his.isToolItem, Option.filter_some, if_neg (by simpa using hmem),
        handleOpenaiOutputItem, his.isToolItem, if_pos rfl, his.callId, his.name, harguments, hpending]
      rfl
    · rw [ToolItem.emitted, hkind]
      exact (if_neg hdue).symm

/-- **One event of an item**: what is given out, and what is collected after it. -/
theorem exists_handles (hpending : s.pending = [])
    (hremaining : Remaining env it phase (event :: rest)) (hcollected : Collected s it phase) :
    ∃ out s', Handles env it s event rest out s' := by
  cases hremaining with
  | added hkind hitem his hrest => exact handles_added hpending hkind hitem his hrest hcollected
  | delta hkind habout hrest => exact handles_delta hpending hkind habout hrest hcollected
  | done hkind habout harguments hdone hrest =>
      exact handles_done hpending hkind habout harguments hdone hrest hcollected
  | last hphase hkind hitem his harguments hrest =>
      exact handles_last hpending hphase hkind hitem his harguments hrest hcollected

end

/-! ### Whole streams -/

section
variable {env : StreamEnv} {items : List ToolItem} {events : List ResponseSseEvent}

/-- The item that an event is about. -/
def itemOf (items : List ToolItem) (event : ResponseSseEvent) : Option ToolItem :=
  items.find? fun it => eventItemId event = some it.id

theorem itemOf_eq_some (hdistinct : (items.map ToolItem.id).Nodup) {event : ResponseSseEvent}
    {it : ToolItem} : itemOf items event = some it ↔ it ∈ items ∧ eventItemId event = some it.id := by
  constructor
  · intro h
    exact ⟨List.mem_of_find?_eq_some h, by simpa using List.find?_some h⟩
  · rintro ⟨hmem, hid⟩
    obtain ⟨it', hfind⟩ : ∃ it', itemOf items event = some it' :=
      Option.isSome_iff_exists.mp (List.find?_isSome.mpr ⟨it, hmem, by simpa using hid⟩)
    have hid' : eventItemId event = some it'.id := by simpa using List.find?_some hfind
    have heq : it' = it := List.inj_on_of_nodup_map hdistinct (List.mem_of_find?_eq_some hfind) hmem
      (Option.some.inj (hid'.symm.trans hid))
    rw [hfind, heq]

/-- The stream between two events: its queue is empty, and it has collected what the items have told. -/
structure Ready (env : StreamEnv) (items : List ToolItem) (s : OpenAIResponsesStream)
    (events : List ResponseSseEvent) : Prop where
  pending : s.pending = []
  about : ∀ event ∈ events, ∃ it ∈ items, eventItemId event = some it.id
  remaining : ∀ it ∈ items, ∃ phase,
    Remaining env it phase (events.filter fun event => eventItemId event = some it.id) ∧
      Collected s it phase

theorem Interleaved.ready (h : Interleaved env items events) :
    Ready env items OpenAIResponsesStream.new events where
  pending := rfl
  about := h.about
  remaining it hit := ⟨.fresh, h.remaining it hit, Finset.notMem_empty _⟩

theorem Ready.step {s : OpenAIResponsesStream} {event : ResponseSseEvent}
    {rest : List ResponseSseEvent} (hdistinct : (items.map ToolItem.id).Nodup)
    (h : Ready env items s (event :: rest)) :
    ∃ it out s', itemOf items event = some it ∧ s.parse env event = (out, s') ∧
      out.toList ++ s'.pending = it.emitted event ∧ (out = none → s'.pending = []) ∧
      Ready env items { s' with pending := [] } rest := by
  obtain ⟨it, hit, hid⟩ := h.about event List.mem_cons_self
  obtain ⟨phase, hremaining, hcollected⟩ := h.remaining it hit
  rw [List.filter_cons_of_pos (by simpa using hid)] at hremaining
  obtain ⟨out, s', hhandles⟩ := exists_handles h.pending hremaining hcollected
  refine ⟨it, out, s', (itemOf_eq_some hdistinct).mpr ⟨hit, hid⟩, hhandles.parse, hhandles.emitted,
    hhandles.quiet, rfl, fun event' hevent' => h.about event' (List.mem_cons_of_mem _ hevent'),
    fun it' hit' => ?_⟩
  have hqueue : ∀ phase, Collected s' it' phase → Collected { s' with pending := [] } it' phase := by
    intro phase hphase
    cases phase <;> exact hphase
  by_cases hsame : it'.id = it.id
  · obtain rfl : it' = it := List.inj_on_of_nodup_map hdistinct hit' hit hsame
    obtain ⟨phase', hremaining', hcollected'⟩ := hhandles.remaining
    exact ⟨phase', hremaining', hqueue phase' hcollected'⟩
  · obtain ⟨phase', hremaining', hcollected'⟩ := h.remaining it' hit'
    have hother : ¬ eventItemId event = some it'.id := fun heq =>
      hsame (Option.some.inj (heq.symm.trans hid))
    rw [List.filter_cons_of_neg (by simpa using hother)] at hremaining'
    exact ⟨phase', hremaining', hqueue phase' (hcollected'.of_sameElsewhere hhandles.elsewhere hsame)⟩

/-- What the stream gives out at an event. -/
def emittedAt (items : List ToolItem) (event : ResponseSseEvent) : List StreamEvent :=
  (itemOf items event).elim [] fun it => it.emitted event

/-- What is due at an event. -/
def dueAt (items : List ToolItem) (event : ResponseSseEvent) : List StreamEvent :=
  (itemOf items event).elim [] fun it => if it.isDueAt event then it.triple else []

/-- **The run**: the stream gives out what it gives out at each event. -/
theorem Ready.pollAll {s : OpenAIResponsesStream} {seen rest : List ResponseSseEvent}
    (hdistinct : (items.map ToolItem.id).Nodup) (h : Ready env items s (seen ++ rest)) :
    s.pollAll env seen = seen.flatMap (emittedAt items) := by
  induction seen generalizing s with
  | nil => exact pollAll_nil h.pending
  | cons event seen ih =>
      obtain ⟨it, out, s', hitem, hparse, hemitted, hquiet, hready⟩ := h.step hdistinct
      rw [pollAll_cons h.pending hparse hquiet, hemitted, ih hready, List.flatMap_cons, emittedAt,
        hitem]
      rfl

theorem deliveries_flatMap (seen : List ResponseSseEvent) :
    (deliveries items seen).flatMap ToolItem.triple = seen.flatMap (dueAt items) := by
  induction seen with
  | nil => rfl
  | cons event seen ih =>
      rw [List.flatMap_cons, ← ih, deliveries, List.filterMap_cons, ← itemOf, dueAt]
      cases itemOf items event with
      | none => rfl
      | some it =>
          cases hdue : it.isDueAt event with
          | true => simp [Option.filter, hdue, deliveries]
          | false => simp [Option.filter, hdue, deliveries]

/-- The stream is in order where it gives out what is due, at each event. -/
theorem inOrder_iff (h : Interleaved env items events) :
    (∀ seen, seen <+: events → OpenAIResponsesStream.new.pollAll env seen =
      (deliveries items seen).flatMap ToolItem.triple) ↔
      ∀ event ∈ events, emittedAt items event = dueAt items event := by
  have hpoll : ∀ seen, seen <+: events →
      OpenAIResponsesStream.new.pollAll env seen = seen.flatMap (emittedAt items) := by
    rintro seen ⟨rest, rfl⟩
    exact h.ready.pollAll h.distinct
  constructor
  · intro hall event hevent
    obtain ⟨seen, rest, rfl⟩ := List.append_of_mem hevent
    have hbefore : seen <+: seen ++ event :: rest := List.prefix_append _ _
    have hafter : seen ++ [event] <+: seen ++ event :: rest :=
      (List.prefix_append_right_inj seen).mpr (List.prefix_append [event] rest)
    have hone := hall _ hbefore
    have htwo := hall _ hafter
    rw [hpoll _ hbefore, deliveries_flatMap] at hone
    rw [hpoll _ hafter, deliveries_flatMap, List.flatMap_append, List.flatMap_append, hone] at htwo
    simpa using htwo
  · intro hall seen hseen
    rw [hpoll seen hseen, deliveries_flatMap]
    exact List.flatMap_congr fun event hevent => hall event (hseen.subset hevent)

variable {it : ToolItem}

/-- One event of the item is the one that its call is due at. -/
theorem Remaining.countP_isDueAt {phase : Phase} (h : Remaining env it phase events) :
    ((phase = .fresh ∨ phase = .added) → events.countP it.isDueAt = 1) ∧
      (phase = .done → it.doneArguments.isSome → events.countP it.isDueAt = 0) ∧
      (phase = .closed → events = []) := by
  induction h with
  | added hkind _ _ _ ih =>
      refine ⟨fun _ => ?_, nofun, nofun⟩
      rw [List.countP_cons_of_neg (by rw [ToolItem.isDueAt, hkind]; exact Bool.false_ne_true)]
      exact ih.1 (.inr rfl)
  | delta hkind _ _ ih =>
      refine ⟨fun _ => ?_, nofun, nofun⟩
      rw [List.countP_cons_of_neg (by rw [ToolItem.isDueAt, hkind]; exact Bool.false_ne_true)]
      exact ih.1 (.inr rfl)
  | done hkind _ _ hdone _ ih =>
      refine ⟨fun _ => ?_, nofun, nofun⟩
      have hsome : it.doneArguments.isSome = true := by rw [hdone]; rfl
      rw [List.countP_cons_of_pos (by rw [ToolItem.isDueAt, hkind]; exact hsome), ih.2.1 rfl hsome]
  | @last event item phase rest hphase hkind _ _ _ _ ih =>
      obtain rfl := ih.2.2 rfl
      have hdue : it.isDueAt event = it.doneArguments.isNone := by rw [ToolItem.isDueAt, hkind]
      refine ⟨fun h => ?_, fun _ hsome => ?_, fun h => ?_⟩
      · obtain rfl | ⟨rfl, hnone⟩ := hphase
        · obtain h | h := h <;> cases h
        · rw [List.countP_singleton, hdue, hnone]
          rfl
      · rw [List.countP_singleton, hdue, Option.isNone_eq_false_iff.mpr hsome]
        rfl
      · obtain rfl | ⟨rfl, _⟩ := hphase <;> cases h
  | closed => exact ⟨fun h => h.elim nofun nofun, nofun, fun _ => rfl⟩

/-- The events that the stream gives something out at: arguments that are done belong to an item that has
them, and each item is done. -/
theorem Remaining.due_events {phase : Phase} (h : Remaining env it phase events) :
    (∀ event ∈ events, event.kind = .functionCallArgumentsDone → it.doneArguments.isSome) ∧
      ((phase = .fresh ∨ phase = .added) → it.doneArguments.isSome →
        ∃ event ∈ events, event.kind = .functionCallArgumentsDone) ∧
      (phase ≠ .closed → ∃ event ∈ events, event.kind = .outputItemDone) := by
  induction h with
  | added hkind _ _ _ ih | delta hkind _ _ ih =>
      refine ⟨?_, fun _ hsome => ?_, fun _ => ?_⟩
      · refine List.forall_mem_cons.mpr ⟨fun h => ?_, ih.1⟩
        rw [hkind] at h
        cases h
      · obtain ⟨event, hevent, hdone⟩ := ih.2.1 (.inr rfl) hsome
        exact ⟨event, List.mem_cons_of_mem _ hevent, hdone⟩
      · obtain ⟨event, hevent, hlast⟩ := ih.2.2 nofun
        exact ⟨event, List.mem_cons_of_mem _ hevent, hlast⟩
  | done hkind _ _ hdone _ ih =>
      refine ⟨?_, fun _ _ => ⟨_, List.mem_cons_self, hkind⟩, fun _ => ?_⟩
      · exact List.forall_mem_cons.mpr ⟨fun _ => by rw [hdone]; rfl, ih.1⟩
      · obtain ⟨event, hevent, hlast⟩ := ih.2.2 nofun
        exact ⟨event, List.mem_cons_of_mem _ hevent, hlast⟩
  | last hphase hkind _ _ _ _ ih =>
      refine ⟨?_, fun h hsome => ?_, fun _ => ⟨_, List.mem_cons_self, hkind⟩⟩
      · refine List.forall_mem_cons.mpr ⟨fun h => ?_, ih.1⟩
        rw [hkind] at h
        cases h
      · obtain rfl | ⟨rfl, hnone⟩ := hphase
        · obtain h | h := h <;> cases h
        · rw [hnone] at hsome
          cases hsome
  | closed =>
      exact ⟨List.forall_mem_nil _, fun h => h.elim nofun nofun, fun h => absurd rfl h⟩

/-- Of every item one call is due. -/
theorem deliveries_perm (h : Interleaved env items events) : (deliveries items events).Perm items := by
  refine List.perm_iff_count.mpr fun it => ?_
  have hcount : (deliveries items events).count it =
      events.countP fun event => (itemOf items event).filter (fun it => it.isDueAt event) == some it :=
    List.count_filterMap
  rw [hcount]
  by_cases hit : it ∈ items
  · have hevent : ∀ event, ((itemOf items event).filter (fun it => it.isDueAt event) == some it) =
        (it.isDueAt event && decide (eventItemId event = some it.id)) := by
      intro event
      rw [Bool.eq_iff_iff, beq_iff_eq, Option.filter_eq_some_iff, Bool.and_eq_true_iff,
        itemOf_eq_some h.distinct, decide_eq_true_iff, and_iff_right hit, and_comm]
    simp only [hevent]
    rw [← List.countP_filter, ((h.remaining it hit).countP_isDueAt).1 (.inl rfl),
      List.count_eq_one_of_mem h.distinct.of_map hit]
  · rw [List.count_eq_zero_of_not_mem hit]
    refine List.countP_eq_zero.mpr fun event _ heq => hit ?_
    obtain ⟨hfind, _⟩ := Option.filter_eq_some_iff.mp (beq_iff_eq.mp heq)
    exact ((itemOf_eq_some h.distinct).mp hfind).1

theorem toolUse_inj {id id' name arguments : String} :
    toolUse id name arguments = toolUse id' name arguments ↔ id = id' := by
  simp [toolUse]

/-- At `arguments.done` the stream gives out what is due when the call has a name and an id. -/
theorem emitted_eq_due_of_done {arguments : String} {event : ResponseSseEvent}
    (hkind : event.kind = .functionCallArgumentsDone) (hdone : it.doneArguments = some arguments) :
    it.emitted event = (if it.isDueAt event then it.triple else []) ↔ it.Plain := by
  rw [ToolItem.emitted, ToolItem.isDueAt, ToolItem.triple, ToolItem.Plain, hkind, hdone]
  by_cases hname : it.name = ""
  · refine iff_of_false (fun h => ?_) fun h => h.1 hname
    rw [if_pos hname] at h
    cases h
  · have hid : Chat.sanitizeToolId "" = "unknown" := rfl
    dsimp only
    rw [if_neg hname, Option.isSome_some, if_pos rfl, Option.getD_some, Option.getD_some, toolUse_inj,
      and_iff_right hname]
    by_cases hcallId : it.callId = ""
    · rw [if_pos hcallId, hcallId, hid]
      exact ⟨fun h _ => h, fun h => h rfl⟩
    · rw [if_neg hcallId]
      exact iff_of_true rfl fun h => absurd h hcallId

/-- At `output_item.done` it does so when nothing is due any more, or the call's id needs no change. -/
theorem emitted_eq_due_of_last {event : ResponseSseEvent} (hkind : event.kind = .outputItemDone)
    (hnone : it.doneArguments = none) :
    it.emitted event = (if it.isDueAt event then it.triple else []) ↔ it.Plain := by
  rw [ToolItem.emitted, ToolItem.isDueAt, ToolItem.triple, ToolItem.Plain, hkind, hnone]
  have hkept : ¬ ((none : Option String).isSome = true ∧ it.name ≠ "") := fun h => nomatch h.1
  dsimp only
  rw [if_neg hkept, Option.isNone_none, if_pos rfl, Option.getD_none, toolUse_inj]
  exact eq_comm

/-- At the events of the item the stream gives out what is due exactly where both ways out are alike. -/
theorem emitted_eq_due_iff (h : Remaining env it .fresh events) :
    (∀ event ∈ events, it.emitted event = if it.isDueAt event then it.triple else []) ↔ it.Plain := by
  obtain ⟨hdoneOnly, hdone, hlast⟩ := h.due_events
  cases harguments : it.doneArguments with
  | some arguments =>
      have hsome : it.doneArguments.isSome = true := by rw [harguments]; rfl
      constructor
      · intro hall
        obtain ⟨event, hevent, hkind⟩ := hdone (.inl rfl) hsome
        exact (emitted_eq_due_of_done hkind harguments).mp (hall event hevent)
      · intro hplain event hevent
        cases hkind : event.kind with
        | outputItemAdded | functionCallArgumentsDelta => simp [ToolItem.emitted, ToolItem.isDueAt, hkind]
        | functionCallArgumentsDone => exact (emitted_eq_due_of_done hkind harguments).mpr hplain
        | outputItemDone =>
            rw [ToolItem.Plain, harguments] at hplain
            simp [ToolItem.emitted, ToolItem.isDueAt, hkind, harguments, hplain.1]
  | none =>
      constructor
      · intro hall
        obtain ⟨event, hevent, hkind⟩ := hlast nofun
        exact (emitted_eq_due_of_last hkind harguments).mp (hall event hevent)
      · intro hplain event hevent
        cases hkind : event.kind with
        | outputItemAdded | functionCallArgumentsDelta => simp [ToolItem.emitted, ToolItem.isDueAt, hkind]
        | functionCallArgumentsDone =>
            have hsome := hdoneOnly event hevent hkind
            rw [harguments] at hsome
            cases hsome
        | outputItemDone => exact (emitted_eq_due_of_last hkind harguments).mpr hplain

theorem deliveredOnce_iff_plain (h : Interleaved env items events) :
    DeliveredOnce env items events ↔ ∀ it ∈ items, it.Plain := by
  have horder : DeliveredOnce env items events ↔
      ∀ event ∈ events, emittedAt items event = dueAt items event :=
    ⟨fun hd => (inOrder_iff h).mp hd.inOrder, fun hall => ⟨deliveries_perm h, (inOrder_iff h).mpr hall⟩⟩
  have hat : ∀ {event it}, it ∈ items → eventItemId event = some it.id →
      (emittedAt items event = dueAt items event ↔
        it.emitted event = if it.isDueAt event then it.triple else []) := by
    intro event it hit hid
    rw [emittedAt, dueAt, (itemOf_eq_some h.distinct).mpr ⟨hit, hid⟩]
    rfl
  rw [horder]
  constructor
  · intro hall it hit
    refine (emitted_eq_due_iff (h.remaining it hit)).mp fun event hevent => ?_
    obtain ⟨hmem, hid⟩ := List.mem_filter.mp hevent
    exact (hat hit (of_decide_eq_true hid)).mp (hall event hmem)
  · intro hall event hevent
    obtain ⟨it, hit, hid⟩ := h.about event hevent
    refine (hat hit hid).mpr ((emitted_eq_due_iff (h.remaining it hit)).mpr (hall it hit) event ?_)
    exact List.mem_filter.mpr ⟨hevent, decide_eq_true hid⟩

/-- **When each call is delivered once**: when both ways out of the stream give it alike. -/
theorem delivered_once_iff (h : Interleaved env items events) :
    DeliveredOnce env items events ↔ ∀ it ∈ items, it.Plain :=
  deliveredOnce_iff_plain h

end

/-- Values that are not read as JSON, and items that give nothing. -/
def plainEnv : StreamEnv := ⟨fun _ => "", fun _ pending => (none, pending)⟩

/-- An item as it is in its first and its last event. -/
def itemJson (id callId name arguments : String) : Value :=
  .object [("arguments", .string arguments), ("call_id", .string callId), ("id", .string id),
    ("name", .string name), ("type", .string "function_call")]

def readItem : ToolItem := ⟨"fc_1", "call_1", "read", some "\x7b\x7d", ""⟩

def readEvents : List ResponseSseEvent :=
  [{ kind := .outputItemAdded, item := some (itemJson "fc_1" "call_1" "read" "") },
    { kind := .functionCallArgumentsDelta, itemId := some "fc_1", delta := some "\x7b" },
    { kind := .functionCallArgumentsDone, itemId := some "fc_1", arguments := some "\x7b\x7d" },
    { kind := .outputItemDone, item := some (itemJson "fc_1" "call_1" "read" "") }]

/-- The events of one item. -/
theorem interleaved_singleton {env : StreamEnv} {it : ToolItem} {events : List ResponseSseEvent}
    (habout : ∀ event ∈ events, eventItemId event = some it.id)
    (h : Remaining env it .fresh events) : Interleaved env [it] events where
  distinct := List.pairwise_singleton _ _
  about event hevent := ⟨it, List.mem_singleton_self it, habout event hevent⟩
  remaining := by
    have hall : (events.filter fun event => eventItemId event = some it.id) = events :=
      List.filter_eq_self.mpr fun event hevent => decide_eq_true (habout event hevent)
    exact List.forall_mem_singleton.mpr (hall.symm ▸ h)

theorem delivered_once_iff_read : DeliveredOnce plainEnv [readItem] readEvents := by
  have hremaining : Remaining plainEnv readItem .fresh readEvents :=
    .added rfl rfl ⟨rfl, rfl, rfl, rfl⟩ (.delta rfl ⟨rfl, .inl rfl, .inl rfl⟩
      (.done rfl ⟨rfl, .inl rfl, .inl rfl⟩ rfl rfl
        (.last (.inl rfl) rfl rfl ⟨rfl, rfl, rfl, rfl⟩ rfl .closed)))
  refine (delivered_once_iff (interleaved_singleton (by decide) hremaining)).mpr ?_
  exact List.forall_mem_singleton.mpr ⟨by decide, fun h => absurd h (by decide)⟩

def dottedItem : ToolItem := ⟨"fc_1", "call.1", "read", none, "\x7b\x7d"⟩

def dottedEvents : List ResponseSseEvent :=
  [{ kind := .outputItemAdded, item := some (itemJson "fc_1" "call.1" "read" "") },
    { kind := .outputItemDone, item := some (itemJson "fc_1" "call.1" "read" "\x7b\x7d") }]

/-- The id of a call whose arguments are not said to be done is given as it is. -/
theorem dotted_not_delivered :
    Interleaved plainEnv [dottedItem] dottedEvents ∧
      ¬ DeliveredOnce plainEnv [dottedItem] dottedEvents := by
  have hremaining : Remaining plainEnv dottedItem .fresh dottedEvents :=
    .added rfl rfl ⟨rfl, rfl, rfl, rfl⟩
      (.last (.inr ⟨rfl, rfl⟩) rfl rfl ⟨rfl, rfl, rfl, rfl⟩ rfl .closed)
  have hinterleaved := interleaved_singleton (by decide) hremaining
  refine ⟨hinterleaved, fun h => ?_⟩
  have hplain : Chat.sanitizeToolId "call.1" = "call.1" :=
    (deliveredOnce_iff_plain hinterleaved).mp h dottedItem (List.mem_singleton_self _)
  exact absurd hplain (by decide)

end Jcode.Provider.OpenAiStream
