import Jcode.Provider.OpenAiRequest

/-!
# Provider — OpenAI repair

The input built from a conversation, whatever the order its tool results stand in: each call is
followed at once by the first result there is for it, the other blocks keep their order, and the
results that answer no call come behind as user messages.

* `Inv.collect`: the first pass writes each answered call's first result somewhere behind it, and
  keeps as pending the first result of each id that is not called.
* `buildResponsesInput_eq`: the input is each message's items, with its answer behind each call,
  and then the recovered messages.
* `buildResponsesInput_repairs`: the calls, their outputs, the contents and the recovered messages
  of the input.
-/

namespace Jcode.Provider.OpenAi

open Jcode.Chat Pairing Rust

/-! ### What a conversation says -/

/-- The blocks of a conversation, each with the role it is said in. -/
def blocks (messages : List Message) : List (Role × ContentBlock) :=
  messages.flatMap fun msg => msg.content.map (msg.role, ·)

/-- A user's tool result: its id and its output. -/
def resultOf : Role × ContentBlock → Option (String × String)
  | (.user, .toolResult toolUseId content isError) =>
    some (toolUseId, resultOutput content isError)
  | _ => none

/-- An assistant's tool use. -/
def callOf : Role × ContentBlock → Option String
  | (.assistant, .toolUse id _ _ _) => some id
  | _ => none

def resultsIn (l : List (Role × ContentBlock)) : List (String × String) := l.filterMap resultOf
def callsIn (l : List (Role × ContentBlock)) : List String := l.filterMap callOf

def toolUseIds (messages : List Message) : List String := callsIn (blocks messages)

/-- The first result for an id, anywhere in the conversation. -/
def firstResult (messages : List Message) (id : String) : Option String :=
  (resultsIn (blocks messages)).lookup id

/-- The ids that have results and no call, in order. -/
def orphanIds (messages : List Message) : List String :=
  (((resultsIn (blocks messages)).map Prod.fst).dedup.filter (· ∉ toolUseIds messages)).insertionSort
    (· ≤ ·)

/-- A user message for each id that has results and no call. -/
def recovered (messages : List Message) : List Item :=
  (orphanIds messages).filterMap fun id =>
    (firstResult messages id).bind (orphanToolOutputToUserMessage (sanitizeToolId id))

/-- What a block says in the input, calls and results aside. -/
def blockContents : Role × ContentBlock → List Item
  | (.user, .text text _) => [.userMessage [.inputText text]]
  | (.user, .image mediaType data) =>
    [.userMessage [.inputImage ("data:" ++ mediaType ++ ";base64," ++ data)]]
  | (.user, .openAICompaction encryptedContent) => [compactionItem encryptedContent]
  | (.assistant, .text text _) => [.assistantMessage text]
  | (.assistant, .openAIReasoning id summary encryptedContent status) =>
    [.reasoning id summary encryptedContent status]
  | _ => []

/-- What an item says, calls and outputs aside: each part of a user message by itself. -/
def Item.contents : Item → List Item
  | .userMessage parts => parts.map fun part => .userMessage [part]
  | .functionCall .. => []
  | .functionCallOutput .. => []
  | item => [item]

def Item.callId? (item : Item) : Option String :=
  match item.kind with
  | .call callId => some callId
  | _ => none

/-! ### The items of a message, outputs aside -/

/-- The items of the rest of a user message, behind the parts collected so far. -/
def userItems (parts : List ContentPart) : List ContentBlock → List Item
  | [] => flushParts parts
  | .image mediaType data :: blocks =>
    userItems (parts ++ [.inputImage ("data:" ++ mediaType ++ ";base64," ++ data)]) blocks
  | .text text _ :: blocks => userItems (parts ++ [.inputText text]) blocks
  | .openAICompaction encryptedContent :: blocks =>
    flushParts parts ++ compactionItem encryptedContent :: userItems [] blocks
  | .toolResult .. :: blocks => flushParts parts ++ userItems [] blocks
  | _ :: blocks => userItems parts blocks

/-- The item of a block of an assistant message. -/
def assistantItem : ContentBlock → Option Item
  | .text text _ => some (.assistantMessage text)
  | .openAIReasoning id summary encryptedContent status =>
    some (.reasoning id summary encryptedContent status)
  | .toolUse id name input _ =>
    some (.functionCall name (if isObject input then input else "\x7b\x7d") (sanitizeToolId id))
  | _ => none

def messageItems (msg : Message) : List Item :=
  match msg.role with
  | .user => userItems [] msg.content
  | .assistant => msg.content.filterMap assistantItem

/-! ### Kinds -/

theorem kind_flushParts {parts : List ContentPart} : ∀ item ∈ flushParts parts,
    item.kind = .other := by
  intro item hitem
  rw [flushParts] at hitem
  split at hitem
  · cases hitem
  · cases List.mem_singleton.mp hitem
    rfl

theorem kind_compactionItem (encryptedContent : String) :
    (compactionItem encryptedContent).kind = .other := by
  rw [compactionItem]
  split <;> rfl

theorem kind_userItems {parts : List ContentPart} {content : List ContentBlock} :
    ∀ item ∈ userItems parts content, item.kind = .other := by
  fun_induction userItems parts content with
  | case1 parts => exact kind_flushParts
  | case2 _ _ _ _ ih => exact ih
  | case3 _ _ _ _ ih => exact ih
  | case4 parts encryptedContent blocks ih =>
      intro item hitem
      rcases List.mem_append.mp hitem with hitem | hitem
      · exact kind_flushParts item hitem
      · rcases List.mem_cons.mp hitem with rfl | hitem
        · exact kind_compactionItem encryptedContent
        · exact ih item hitem
  | case5 parts blocks _ _ _ ih =>
      intro item hitem
      rcases List.mem_append.mp hitem with hitem | hitem
      · exact kind_flushParts item hitem
      · exact ih item hitem
  | case6 _ _ _ _ _ _ _ ih => exact ih

theorem kind_assistantItem {block : ContentBlock} {item : Item}
    (h : assistantItem block = some item) (callId : String) : item.kind ≠ .answer callId := by
  cases block <;> cases h <;> rintro ⟨⟩

theorem kind_messageItems {msg : Message} :
    ∀ item ∈ messageItems msg, ∀ callId, item.kind ≠ .answer callId := by
  intro item hitem callId hkind
  rw [messageItems] at hitem
  split at hitem
  · rw [kind_userItems item hitem] at hkind
    cases hkind
  · obtain ⟨block, -, hblock⟩ := List.mem_filterMap.mp hitem
    exact kind_assistantItem hblock callId hkind

theorem kind_orphan {callId output : String} {item : Item}
    (h : orphanToolOutputToUserMessage callId output = some item) : item.kind = .other := by
  rw [orphanToolOutputToUserMessage] at h
  split at h <;> cases h
  rfl

/-! ### Where the last result of an id stands -/

/-- The ids of a message's tool results. -/
def resultIds (msg : Message) : List String :=
  match msg.role with
  | .user => msg.content.filterMap toolResultId
  | .assistant => []

theorem get_foldl_insert (ids : List String) (idx : ℕ) (pos : StrMap ℕ) (id : String) :
    (ids.foldl (fun pos id => pos.insert id idx) pos).get id =
      if id ∈ ids then some idx else pos.get id := by
  induction ids generalizing pos with
  | nil => rfl
  | cons id' ids ih =>
      rw [List.foldl_cons, ih, StrMap.get_insert]
      by_cases hmem : id ∈ ids
      · rw [if_pos hmem, if_pos (.tail _ hmem)]
      · rw [if_neg hmem]
        by_cases hid : id = id'
        · rw [if_pos hid, if_pos (by rw [hid]; exact List.mem_cons_self)]
        · rw [if_neg hid, if_neg (by simp [hid, hmem])]

theorem toolResultLastPos_concat (messages : List (Message × ℕ)) (msg : Message) (idx : ℕ)
    (id : String) : (toolResultLastPos (messages ++ [(msg, idx)])).get id =
      if id ∈ resultIds msg then some idx else (toolResultLastPos messages).get id := by
  rw [toolResultLastPos, List.foldl_concat, ← toolResultLastPos, resultIds]
  cases hrole : msg.role with
  | user => simp only [hrole, get_foldl_insert]
  | assistant => simp only [hrole, if_neg List.not_mem_nil]

theorem le_of_lastPos {messages : List Message} {id : String} {pos : ℕ}
    (h : (toolResultLastPos messages.zipIdx).get id = some pos) : pos < messages.length := by
  induction messages using List.reverseRecOn with
  | nil => cases h
  | append_singleton messages msg ih =>
      rw [List.zipIdx_append, List.zipIdx_singleton, toolResultLastPos_concat] at h
      rw [List.length_append, List.length_singleton]
      split at h
      · cases h
        omega
      · exact Nat.lt_succ_of_lt (ih h)

/-- A result is to come exactly when a message behind holds one. -/
theorem hasFutureOutput_iff (before : List Message) (msg : Message) (behind : List Message)
    (hmsg : msg.role = .assistant) (id : String) :
    hasFutureOutput (toolResultLastPos (before ++ msg :: behind).zipIdx) before.length id = true ↔
      ∃ m ∈ behind, id ∈ resultIds m := by
  induction behind using List.reverseRecOn with
  | nil =>
      have hnil : resultIds msg = [] := by rw [resultIds, hmsg]
      rw [hasFutureOutput, List.zipIdx_append, List.zipIdx_singleton, toolResultLastPos_concat,
        hnil, if_neg List.not_mem_nil]
      refine ⟨fun h => ?_, fun ⟨m, hm, _⟩ => absurd hm List.not_mem_nil⟩
      cases hget : (toolResultLastPos before.zipIdx).get id with
      | none => rw [hget] at h; cases h
      | some pos =>
          rw [hget] at h
          have hlt := le_of_lastPos hget
          have hgt : pos > before.length := of_decide_eq_true h
          omega
  | append_singleton behind last ih =>
      rw [hasFutureOutput, ← List.cons_append, ← List.append_assoc, List.zipIdx_append,
        List.zipIdx_singleton, toolResultLastPos_concat]
      by_cases hlast : id ∈ resultIds last
      · rw [if_pos hlast]
        refine ⟨fun _ => ⟨last, by simp, hlast⟩, fun _ => decide_eq_true ?_⟩
        simp
      · rw [if_neg hlast, ← hasFutureOutput, ih]
        constructor
        · rintro ⟨m, hm, hid⟩
          exact ⟨m, List.mem_append_left _ hm, hid⟩
        · rintro ⟨m, hm, hid⟩
          rcases List.mem_append.mp hm with hm | hm
          · exact ⟨m, hm, hid⟩
          · cases List.mem_singleton.mp hm
            exact absurd hid hlast

/-! ### The first pass -/

/-- The first pass between two blocks: `done` are the blocks behind it, `todo` those before it. -/
structure Inv (done todo : List (Role × ContentBlock)) (s : Collected) : Prop where
  /-- What came early is the first result of its id. -/
  pending : ∀ id, s.pendingOutputs.lookup id =
    if id ∈ callsIn done then none else (resultsIn done).lookup id
  /-- A call is open while its first result is to come. -/
  openCalls : ∀ id, id ∈ s.openCalls ↔
    id ∈ callsIn done ∧ (resultsIn done).lookup id = none ∧ (resultsIn todo).lookup id ≠ none
  nodup : s.openCalls.Nodup
  used : ∀ id, id ∈ s.usedOutputs ↔ id ∈ callsIn done ∧
    ((resultsIn done).lookup id ≠ none ∨ (resultsIn todo).lookup id = none)
  /-- Each call that is not open has its output. -/
  outputs : ∀ callId output, .functionCallOutput callId output ∈ s.items ↔
    ∃ id ∈ s.usedOutputs, callId = sanitizeToolId id ∧
      output = ((resultsIn (done ++ todo)).lookup id).getD missingOutput
  calls : ∀ callId, (∃ item ∈ s.items, item.kind = .call callId) ↔
    ∃ id ∈ callsIn done, callId = sanitizeToolId id
  follows : Follows Item.kind [] s.items

theorem lookup_append {l m : List (String × String)} {id : String} :
    (l ++ m).lookup id = (l.lookup id).or (m.lookup id) := by
  induction l with
  | nil => rfl
  | cons entry l ih =>
      rw [List.cons_append, List.lookup_cons, List.lookup_cons, ih]
      split <;> rfl

section Step
variable {done todo : List (Role × ContentBlock)} {b : Role × ContentBlock} {s : Collected}
  {item : Item}

theorem resultsIn_append (l m : List (Role × ContentBlock)) :
    resultsIn (l ++ m) = resultsIn l ++ resultsIn m := List.filterMap_append

theorem callsIn_append (l m : List (Role × ContentBlock)) :
    callsIn (l ++ m) = callsIn l ++ callsIn m := List.filterMap_append

theorem Inv.init (todo : List (Role × ContentBlock)) : Inv [] todo .empty where
  pending _ := rfl
  openCalls _ := ⟨fun h => absurd h List.not_mem_nil, fun h => absurd h.1 List.not_mem_nil⟩
  nodup := List.nodup_nil
  used _ := ⟨fun h => absurd h List.not_mem_nil, fun h => absurd h.1 List.not_mem_nil⟩
  outputs _ _ := ⟨fun h => absurd h List.not_mem_nil, fun ⟨_, h, _⟩ => absurd h List.not_mem_nil⟩
  calls _ := ⟨fun ⟨_, h, _⟩ => absurd h List.not_mem_nil, fun ⟨_, h, _⟩ => absurd h List.not_mem_nil⟩
  follows pre a post _ h := by cases List.nil_eq_append_iff.mp h |>.2

/-- A block that is neither a result nor a call. -/
theorem Inv.neutral (h : Inv done (b :: todo) s) (hresult : resultOf b = none)
    (hcall : callOf b = none) : Inv (done ++ [b]) todo s := by
  have hcalls : callsIn (done ++ [b]) = callsIn done := by
    rw [callsIn_append, callsIn, callsIn, List.filterMap_cons_none hcall]
    exact List.append_nil _
  have hdone : resultsIn (done ++ [b]) = resultsIn done := by
    rw [resultsIn_append, resultsIn, resultsIn, List.filterMap_cons_none hresult]
    exact List.append_nil _
  have htodo : resultsIn (b :: todo) = resultsIn todo := List.filterMap_cons_none hresult
  refine ⟨?_, ?_, h.nodup, ?_, ?_, ?_, h.follows⟩
  · rw [hcalls, hdone]
    exact h.pending
  · rw [hcalls, hdone, ← htodo]
    exact h.openCalls
  · rw [hcalls, hdone, ← htodo]
    exact h.used
  · rw [← List.append_cons]
    exact h.outputs
  · rw [hcalls]
    exact h.calls

theorem exists_push_call (hitem : ∀ callId, item.kind ≠ .call callId) {callId : String} :
    (∃ a ∈ (s.push item).items, a.kind = .call callId) ↔ ∃ a ∈ s.items, a.kind = .call callId := by
  refine ⟨fun ⟨a, ha, hkind⟩ => ?_, fun ⟨a, ha, hkind⟩ => ⟨a, List.mem_append_left _ ha, hkind⟩⟩
  rcases List.mem_append.mp ha with ha | ha
  · exact ⟨a, ha, hkind⟩
  · rw [List.mem_singleton.mp ha] at hkind
    exact absurd hkind (hitem callId)

theorem Inv.push_other (h : Inv done todo s) (hitem : item.kind = .other) :
    Inv done todo (s.push item) where
  pending := h.pending
  openCalls := h.openCalls
  nodup := h.nodup
  used := h.used
  outputs callId output := by
    refine Iff.trans ⟨fun hmem => ?_, fun hmem => List.mem_append_left _ hmem⟩
      (h.outputs callId output)
    rcases List.mem_append.mp hmem with hmem | hmem
    · exact hmem
    · rw [← List.mem_singleton.mp hmem] at hitem
      cases hitem
  calls callId := by
    refine Iff.trans (exists_push_call fun k hk => ?_) (h.calls callId)
    rw [hitem] at hk
    cases hk
  follows := h.follows.concat fun k hk => by
    rw [hitem] at hk
    cases hk

theorem Inv.flush (h : Inv done todo s) (parts : List ContentPart) :
    Inv done todo (s.flush parts) := by
  rw [Collected.flush, flushParts]
  split
  · rw [List.append_nil]
    exact h
  · exact h.push_other rfl

theorem callOf_of_resultOf {r : String × String} (h : resultOf b = some r) : callOf b = none := by
  match b, h with
  | (.user, .toolResult ..), _ => rfl

theorem resultOf_of_callOf {id : String} (h : callOf b = some id) : resultOf b = none := by
  cases hresult : resultOf b with
  | none => rfl
  | some r => exact absurd h (by rw [callOf_of_resultOf hresult]; rintro ⟨⟩)

theorem callsIn_concat_result {r : String × String} (h : resultOf b = some r) :
    callsIn (done ++ [b]) = callsIn done := by
  rw [callsIn_append, callsIn, callsIn, List.filterMap_cons_none (callOf_of_resultOf h)]
  exact List.append_nil _

theorem lookup_concat_result {id output : String} (h : resultOf b = some (id, output))
    (id' : String) : (resultsIn (done ++ [b])).lookup id' =
      ((resultsIn done).lookup id').or (if id' = id then some output else none) := by
  rw [resultsIn_append, lookup_append]
  congr 1
  rw [resultsIn, List.filterMap_cons_some h, List.lookup_cons]
  by_cases hid : id' = id
  · rw [if_pos hid, beq_iff_eq.mpr hid]
  · rw [if_neg hid, beq_eq_false_iff_ne.mpr hid]
    rfl

theorem lookup_cons_result {id output : String} (h : resultOf b = some (id, output))
    (id' : String) : (resultsIn (b :: todo)).lookup id' =
      if id' = id then some output else (resultsIn todo).lookup id' := by
  rw [resultsIn, List.filterMap_cons_some h, List.lookup_cons]
  by_cases hid : id' = id
  · rw [if_pos hid, beq_iff_eq.mpr hid]
  · rw [if_neg hid, beq_eq_false_iff_ne.mpr hid]
    rfl

/-- What holds behind a result, of a state that differs at its id only. -/
theorem Inv.of_result {id output : String} {s' : Collected} (h : Inv done (b :: todo) s)
    (hresult : resultOf b = some (id, output))
    (hpending : ∀ id', id' ≠ id → s'.pendingOutputs.lookup id' = s.pendingOutputs.lookup id')
    (hself : s'.pendingOutputs.lookup id =
      if id ∈ callsIn done then none else ((resultsIn done).lookup id).or (some output))
    (hopen : ∀ id', id' ∈ s'.openCalls ↔ id' ≠ id ∧ id' ∈ s.openCalls) (hnodup : s'.openCalls.Nodup)
    (hused : ∀ id', id' ∈ s'.usedOutputs ↔ id' ∈ s.usedOutputs ∨ id' = id ∧ id ∈ callsIn done)
    (houtputs : ∀ callId output, .functionCallOutput callId output ∈ s'.items ↔
      ∃ id ∈ s'.usedOutputs, callId = sanitizeToolId id ∧
        output = ((resultsIn (done ++ b :: todo)).lookup id).getD missingOutput)
    (hcalls : ∀ callId, (∃ item ∈ s'.items, item.kind = .call callId) ↔
      ∃ item ∈ s.items, item.kind = .call callId)
    (hfollows : Follows Item.kind [] s'.items) : Inv (done ++ [b]) todo s' := by
  refine ⟨fun id' => ?_, fun id' => ?_, hnodup, fun id' => ?_, ?_, fun callId => ?_, hfollows⟩
  · rw [callsIn_concat_result hresult, lookup_concat_result hresult]
    by_cases hid : id' = id
    · rw [if_pos hid, hid, hself]
    · rw [if_neg hid, Option.or_none, hpending id' hid, h.pending]
  · rw [callsIn_concat_result hresult, lookup_concat_result hresult, hopen, h.openCalls,
      lookup_cons_result hresult]
    by_cases hid : id' = id
    · simp [hid]
    · simp [hid]
  · rw [callsIn_concat_result hresult, lookup_concat_result hresult, hused, h.used,
      lookup_cons_result hresult]
    by_cases hid : id' = id
    · rw [hid, if_pos rfl, if_pos rfl]
      refine ⟨fun hor => ⟨hor.elim (·.1) (·.2), .inl ?_⟩, fun hand => .inr ⟨rfl, hand.1⟩⟩
      cases (resultsIn done).lookup id <;> simp
    · simp [hid]
  · rw [← List.append_cons]
    exact houtputs
  · rw [callsIn_concat_result hresult, hcalls, h.calls]

/-- **A tool result** answers its open call, waits for a call to come, or is not the first. -/
theorem Inv.toolResult {id output : String} (h : Inv done (b :: todo) s)
    (hresult : resultOf b = some (id, output)) :
    Inv (done ++ [b]) todo (s.toolResult id output) := by
  have htodo : (resultsIn (b :: todo)).lookup id = some output := by
    rw [lookup_cons_result hresult, if_pos rfl]
  rw [Collected.toolResult]
  by_cases hused : id ∈ s.usedOutputs
  · -- A later result of an answered call.
    have hcall : id ∈ callsIn done := ((h.used id).mp hused).1
    have hclosed : id ∉ s.openCalls := fun hopen =>
      ((h.used id).mp hused).2.elim (fun hne => hne ((h.openCalls id).mp hopen).2.1)
        fun hnone => by rw [htodo] at hnone; cases hnone
    rw [if_pos hused]
    refine h.of_result hresult (fun _ _ => rfl) ?_ (fun id' => ?_) h.nodup (fun id' => ?_)
      h.outputs (fun _ => Iff.rfl) h.follows
    · rw [h.pending, if_pos hcall, if_pos hcall]
    · exact ⟨fun hmem => ⟨fun hid => hclosed (hid ▸ hmem), hmem⟩, (·.2)⟩
    · exact ⟨.inl, fun hor => hor.elim (fun hmem => hmem) fun hid => hid.1 ▸ hused⟩
  rw [if_neg hused]
  by_cases hopen : id ∈ s.openCalls
  · -- The first result of a call that waits for it.
    obtain ⟨hcall, hnone, -⟩ := (h.openCalls id).mp hopen
    rw [if_pos hopen]
    have hvalue : (resultsIn (done ++ b :: todo)).lookup id = some output := by
      rw [resultsIn_append, lookup_append, hnone, htodo]
      rfl
    refine h.of_result hresult (fun _ _ => rfl) ?_ (fun id' => h.nodup.mem_erase_iff)
      (h.nodup.erase id) (fun id' => ?_) (fun callId output' => ?_) (fun callId => ?_) ?_
    · rw [Collected.push, h.pending, if_pos hcall, if_pos hcall]
    · rw [List.mem_insert_iff]
      exact ⟨fun hor => hor.elim (fun hid => .inr ⟨hid, hcall⟩) .inl,
        fun hor => hor.elim .inr fun hid => .inl hid.1⟩
    · rw [Collected.push, List.mem_append, List.mem_singleton, h.outputs]
      constructor
      · rintro (⟨id', hmem, hid'⟩ | hitem)
        · exact ⟨id', List.mem_insert_of_mem hmem, hid'⟩
        · cases hitem
          exact ⟨id, List.mem_insert_self, rfl, by rw [hvalue]; rfl⟩
      · rintro ⟨id', hmem, rfl, rfl⟩
        rcases List.mem_insert_iff.mp hmem with rfl | hmem
        · exact .inr (by rw [hvalue]; rfl)
        · exact .inl ⟨id', hmem, rfl, rfl⟩
    · exact exists_push_call fun _ => by rintro ⟨⟩
    · refine h.follows.concat fun k hk => .inr ?_
      cases hk
      exact (h.calls _).mpr ⟨id, hcall, rfl⟩
  rw [if_neg hopen]
  have hcall : id ∉ callsIn done := fun hcall => by
    by_cases hnone : (resultsIn done).lookup id = none
    · exact hopen ((h.openCalls id).mpr ⟨hcall, hnone, by rw [htodo]; rintro ⟨⟩⟩)
    · exact hused ((h.used id).mpr ⟨hcall, .inl hnone⟩)
  have hpending := h.pending id
  rw [if_neg hcall] at hpending
  by_cases hmem : id ∈ s.pendingOutputs
  · -- A later result of an id not called so far.
    rw [if_pos hmem]
    refine h.of_result hresult (fun _ _ => rfl) ?_ (fun id' => ?_) h.nodup (fun id' => ?_)
      h.outputs (fun _ => Iff.rfl) h.follows
    · rw [if_neg hcall, hpending]
      cases hlookup : (resultsIn done).lookup id with
      | none =>
          rw [hlookup] at hpending
          exact absurd hmem (AList.lookup_eq_none.mp hpending)
      | some first => rfl
    · exact ⟨fun hmem => ⟨fun hid => hopen (hid ▸ hmem), hmem⟩, (·.2)⟩
    · exact ⟨.inl, fun hor => hor.elim (fun hmem => hmem) fun hid => absurd hid.2 hcall⟩
  · -- The first result of an id not called so far.
    rw [if_neg hmem]
    refine h.of_result hresult (fun id' hid => AList.lookup_insert_ne hid) ?_ (fun id' => ?_)
      h.nodup (fun id' => ?_) h.outputs (fun _ => Iff.rfl) h.follows
    · rw [if_neg hcall, ← hpending, AList.lookup_eq_none.mpr hmem]
      exact AList.lookup_insert _
    · exact ⟨fun hmem => ⟨fun hid => hopen (hid ▸ hmem), hmem⟩, (·.2)⟩
    · exact ⟨.inl, fun hor => hor.elim (fun hmem => hmem) fun hid => absurd hid.2 hcall⟩

/-- What holds behind a call and, unless it stays open, its output. -/
theorem Inv.of_call {id name arguments : String} {s' : Collected} (h : Inv done (b :: todo) s)
    (hcall : callOf b = some id) (hnew : id ∉ callsIn done) (outputs : List Item)
    (hitems : s'.items =
      s.items ++ .functionCall name arguments (sanitizeToolId id) :: outputs)
    (hpending : ∀ id', id' ≠ id → s'.pendingOutputs.lookup id' = s.pendingOutputs.lookup id')
    (hself : s'.pendingOutputs.lookup id = none)
    (hopen : ∀ id', id' ∈ s'.openCalls ↔ id' ∈ s.openCalls ∨ id' = id ∧
      (resultsIn done).lookup id = none ∧ (resultsIn todo).lookup id ≠ none)
    (hnodup : s'.openCalls.Nodup)
    (hused : ∀ id', id' ∈ s'.usedOutputs ↔ id' ∈ s.usedOutputs ∨ id' = id ∧
      ((resultsIn done).lookup id ≠ none ∨ (resultsIn todo).lookup id = none))
    (houtputs : ∀ item ∈ outputs, item = .functionCallOutput (sanitizeToolId id)
      (((resultsIn (done ++ b :: todo)).lookup id).getD missingOutput))
    (hanswered : outputs = [] ↔ id ∉ s'.usedOutputs) : Inv (done ++ [b]) todo s' := by
  have hcalls : callsIn (done ++ [b]) = callsIn done ++ [id] := by
    rw [callsIn_append, callsIn, callsIn, List.filterMap_cons_some hcall]
    rfl
  have hdone : resultsIn (done ++ [b]) = resultsIn done := by
    rw [resultsIn_append, resultsIn, resultsIn,
      List.filterMap_cons_none (resultOf_of_callOf hcall)]
    exact List.append_nil _
  have htodo : resultsIn (b :: todo) = resultsIn todo :=
    List.filterMap_cons_none (resultOf_of_callOf hcall)
  have hmem : ∀ id', id' ∈ callsIn (done ++ [b]) ↔ id' ∈ callsIn done ∨ id' = id := fun id' => by
    rw [hcalls, List.mem_append, List.mem_singleton]
  refine ⟨fun id' => ?_, fun id' => ?_, hnodup, fun id' => ?_, fun callId output => ?_,
    fun callId => ?_, ?_⟩
  · rw [hdone]
    by_cases hid : id' = id
    · rw [hid, hself, if_pos ((hmem id).mpr (.inr rfl))]
    · rw [hpending id' hid, h.pending]
      simp [hmem, hid]
  · rw [hopen, h.openCalls, hmem, hdone, htodo]
    by_cases hid : id' = id
    · simp [hid, hnew]
    · simp [hid]
  · rw [hused, h.used, hmem, hdone, htodo]
    by_cases hid : id' = id
    · simp [hid, hnew]
    · simp [hid]
  · rw [hitems, List.mem_append, h.outputs, ← List.append_cons, List.mem_cons]
    constructor
    · rintro (⟨id', hmem', hid'⟩ | hitem | hitem)
      · exact ⟨id', (hused id').mpr (.inl hmem'), hid'⟩
      · cases hitem
      · have hne : outputs ≠ [] := List.ne_nil_of_mem hitem
        cases houtputs _ hitem
        exact ⟨id, not_not.mp fun hn => hne (hanswered.mpr hn), rfl, rfl⟩
    · rintro ⟨id', hmem', rfl, rfl⟩
      rcases (hused id').mp hmem' with hmem' | ⟨rfl, -⟩
      · exact .inl ⟨id', hmem', rfl, rfl⟩
      · obtain ⟨item, hitem⟩ :=
          List.exists_mem_of_ne_nil _ fun hnil => hanswered.mp hnil hmem'
        exact .inr (.inr (houtputs item hitem ▸ hitem))
  · rw [hitems, hcalls]
    have hother : ∀ item ∈ outputs, item.kind ≠ .call callId := fun item hitem => by
      rw [houtputs item hitem]
      rintro ⟨⟩
    constructor
    · rintro ⟨item, hitem, hkind⟩
      rcases List.mem_append.mp hitem with hitem | hitem
      · obtain ⟨id', hid', rfl⟩ := (h.calls callId).mp ⟨item, hitem, hkind⟩
        exact ⟨id', List.mem_append_left _ hid', rfl⟩
      · rcases List.mem_cons.mp hitem with rfl | hitem
        · cases hkind
          exact ⟨id, List.mem_append_right _ List.mem_cons_self, rfl⟩
        · exact absurd hkind (hother item hitem)
    · rintro ⟨id', hid', rfl⟩
      rcases List.mem_append.mp hid' with hid' | hid'
      · obtain ⟨item, hitem, hkind⟩ := (h.calls _).mpr ⟨id', hid', rfl⟩
        exact ⟨item, List.mem_append_left _ hitem, hkind⟩
      · rw [List.mem_singleton.mp hid']
        exact ⟨_, List.mem_append_right _ List.mem_cons_self, rfl⟩
  · rw [hitems, List.append_cons]
    refine (h.follows.concat fun k hk => ?_).append_of_mem fun item hitem k hk => ?_
    · cases hk
    · rw [houtputs item hitem] at hk
      cases hk
      exact ⟨_, List.mem_append_right _ List.mem_cons_self, rfl⟩

/-- **A tool use** takes the output that came early, waits for one to come, or has the missing
one. -/
theorem Inv.toolUse {id name : String} {input : Value} {future : Bool}
    (h : Inv done (b :: todo) s) (hcall : callOf b = some id) (hnew : id ∉ callsIn done)
    (hfuture : future = true ↔ (resultsIn todo).lookup id ≠ none) :
    Inv (done ++ [b]) todo (s.toolUse future id name input) := by
  have hpending := h.pending id
  rw [if_neg hnew] at hpending
  have hunused : id ∉ s.usedOutputs := fun hused => hnew ((h.used id).mp hused).1
  have hvalue : (resultsIn (done ++ b :: todo)).lookup id =
      ((resultsIn done).lookup id).or ((resultsIn todo).lookup id) := by
    rw [resultsIn_append, lookup_append, resultsIn, resultsIn,
      List.filterMap_cons_none (resultOf_of_callOf hcall)]
    rfl
  cases hlookup : s.pendingOutputs.lookup id with
  | some output =>
      have hdone : (resultsIn done).lookup id = some output := hpending.symm.trans hlookup
      simp only [Collected.toolUse, Collected.push, hlookup]
      refine h.of_call hcall hnew [.functionCallOutput (sanitizeToolId id) output]
        (List.append_assoc ..) (fun id' hid => AList.lookup_erase_ne hid) (AList.lookup_erase ..)
        (fun id' => ?_) h.nodup (fun id' => ?_) (fun item hitem => ?_) ?_
      · simp [hdone]
      · rw [List.mem_insert_iff, hdone]
        exact ⟨fun hor => hor.elim (fun hid => .inr ⟨hid, .inl (by rintro ⟨⟩)⟩) .inl,
          fun hor => hor.elim .inr fun hid => .inl hid.1⟩
      · rw [List.mem_singleton.mp hitem, hvalue, hdone]
        rfl
      · simp
  | none =>
      have hdone : (resultsIn done).lookup id = none := hpending.symm.trans hlookup
      cases hf : future with
      | true =>
          have htodo := hfuture.mp hf
          simp only [Collected.toolUse, Collected.push, hlookup, if_true]
          refine h.of_call hcall hnew [] rfl (fun _ _ => rfl) hlookup (fun id' => ?_)
            (h.nodup.insert) (fun id' => ?_) (fun item hitem => nomatch hitem) ?_
          · simp [hdone, htodo, or_comm]
          · simp [hdone, htodo]
          · exact ⟨fun _ => hunused, fun _ => rfl⟩
      | false =>
          have htodo : (resultsIn todo).lookup id = none :=
            not_not.mp fun hne => absurd (hfuture.mpr hne) (by rw [hf]; decide)
          simp only [Collected.toolUse, Collected.push, hlookup, Bool.false_eq_true, if_false]
          refine h.of_call hcall hnew [.functionCallOutput (sanitizeToolId id) missingOutput]
            (List.append_assoc ..) (fun _ _ => rfl) hlookup (fun id' => ?_) h.nodup
            (fun id' => ?_) (fun item hitem => ?_) ?_
          · simp [htodo]
          · simp [htodo, or_comm]
          · rw [List.mem_singleton.mp hitem, hvalue, hdone, htodo]
            rfl
          · simp

end Step

section Blocks
variable {done todo : List (Role × ContentBlock)} {s : Collected}

theorem Inv.userBlock {block : ContentBlock} (h : Inv done ((.user, block) :: todo) s)
    (parts : List ContentPart) :
    Inv (done ++ [(.user, block)]) todo (userBlock (s, parts) block).1 := by
  cases block with
  | toolResult toolUseId content isError => exact (h.flush parts).toolResult rfl
  | openAICompaction encryptedContent =>
      exact ((h.flush parts).push_other (kind_compactionItem _)).neutral rfl rfl
  | _ => exact h.neutral rfl rfl

theorem Inv.userBlocks {content : List ContentBlock} (parts : List ContentPart)
    (h : Inv done (content.map (Role.user, ·) ++ todo) s) :
    Inv (done ++ content.map (Role.user, ·)) todo (content.foldl OpenAi.userBlock (s, parts)).1 := by
  induction content generalizing done s parts with
  | nil => simpa using h
  | cons block content ih =>
      rw [List.map_cons, List.append_cons]
      exact ih _ (h.userBlock parts)

/-- No result stands in an assistant's message. -/
theorem resultsIn_assistant (content : List ContentBlock) :
    resultsIn (content.map (Role.assistant, ·)) = [] := by
  rw [resultsIn, List.filterMap_eq_nil_iff]
  intro b hb
  obtain ⟨block, -, rfl⟩ := List.mem_map.mp hb
  rfl

theorem Inv.assistantBlock {block : ContentBlock} {future : String → Bool}
    (h : Inv done ((.assistant, block) :: todo) s)
    (hnodup : (callsIn (done ++ (.assistant, block) :: todo)).Nodup)
    (hfuture : ∀ id, future id = true ↔ (resultsIn todo).lookup id ≠ none) :
    Inv (done ++ [(.assistant, block)]) todo (assistantBlock future s block) := by
  cases block with
  | text text cacheControl => exact (h.push_other rfl).neutral rfl rfl
  | openAIReasoning id summary encryptedContent status => exact (h.push_other rfl).neutral rfl rfl
  | toolUse id name input thoughtSignature =>
      refine h.toolUse rfl (fun hmem => ?_) (hfuture id)
      rw [callsIn_append] at hnodup
      exact (List.nodup_append.mp hnodup).2.2 id hmem id List.mem_cons_self rfl
  | _ => exact h.neutral rfl rfl

theorem Inv.assistantBlocks {content : List ContentBlock} {future : String → Bool}
    (h : Inv done (content.map (Role.assistant, ·) ++ todo) s)
    (hnodup : (callsIn (done ++ content.map (Role.assistant, ·) ++ todo)).Nodup)
    (hfuture : ∀ id, future id = true ↔ (resultsIn todo).lookup id ≠ none) :
    Inv (done ++ content.map (Role.assistant, ·)) todo
      (content.foldl (OpenAi.assistantBlock future) s) := by
  induction content generalizing done s with
  | nil => simpa using h
  | cons block content ih =>
      rw [List.map_cons, List.append_cons] at hnodup ⊢
      rw [List.map_cons, List.cons_append] at h
      refine ih (h.assistantBlock ?_ fun id => ?_) hnodup
      · rw [List.append_cons, ← List.append_assoc]
        exact hnodup
      · rw [hfuture, resultsIn_append, resultsIn_assistant, List.nil_append]

end Blocks

/-! ### The items that are no outputs -/

section Kept
variable {s : Collected}

theorem calls_push {item : Item} (h : ∀ k, item.kind ≠ .answer k) :
    Pairing.calls Item.kind (s.push item).items = Pairing.calls Item.kind s.items ++ [item] := by
  rw [Collected.push, calls_append, calls_cons h]
  rfl

theorem calls_push_output {callId output : String} :
    Pairing.calls Item.kind (s.push (.functionCallOutput callId output)).items =
      Pairing.calls Item.kind s.items := by
  have hkind : (Item.functionCallOutput callId output).kind = .answer callId := rfl
  rw [Collected.push, calls_append, calls_cons_answer hkind]
  exact List.append_nil _

theorem calls_flush (parts : List ContentPart) :
    Pairing.calls Item.kind (s.flush parts).items =
      Pairing.calls Item.kind s.items ++ flushParts parts := by
  have hother : ∀ item ∈ flushParts parts, ∀ k, item.kind ≠ .answer k := fun item hitem k hk => by
    rw [kind_flushParts item hitem] at hk
    cases hk
  rw [Collected.flush, calls_append, calls_eq_self hother]

theorem calls_toolResult (id output : String) :
    Pairing.calls Item.kind (s.toolResult id output).items = Pairing.calls Item.kind s.items := by
  rw [Collected.toolResult]
  split
  · rfl
  split
  · exact calls_push_output
  split <;> rfl

theorem calls_userBlocks (content : List ContentBlock) (parts : List ContentPart) :
    Pairing.calls Item.kind
      ((content.foldl userBlock (s, parts)).1.flush (content.foldl userBlock (s, parts)).2).items =
        Pairing.calls Item.kind s.items ++ userItems parts content := by
  induction content generalizing s parts with
  | nil => exact calls_flush parts
  | cons block content ih =>
      rw [List.foldl_cons, ih]
      cases block with
      | openAICompaction encryptedContent =>
          rw [userBlock, calls_push (by rw [kind_compactionItem]; rintro k ⟨⟩), calls_flush,
            userItems, List.append_assoc, List.append_assoc]
          rfl
      | toolResult toolUseId content isError =>
          rw [userBlock, calls_toolResult, calls_flush, userItems, List.append_assoc]
      | _ => rfl

theorem calls_toolUse (future : Bool) (id name : String) (input : Value) :
    Pairing.calls Item.kind (s.toolUse future id name input).items =
      Pairing.calls Item.kind s.items ++
        [.functionCall name (if isObject input then input else "\x7b\x7d") (sanitizeToolId id)] := by
  rw [← calls_push (by rintro k ⟨⟩), Collected.toolUse]
  dsimp only
  split
  · exact calls_push_output
  split
  · rfl
  · exact calls_push_output

theorem calls_assistantBlocks (future : String → Bool) (content : List ContentBlock) :
    Pairing.calls Item.kind (content.foldl (assistantBlock future) s).items =
      Pairing.calls Item.kind s.items ++ content.filterMap assistantItem := by
  induction content generalizing s with
  | nil => exact (List.append_nil _).symm
  | cons block content ih =>
      rw [List.foldl_cons, ih]
      cases block with
      | text text cacheControl =>
          rw [assistantBlock, calls_push (by rintro k ⟨⟩), List.append_assoc]
          rfl
      | openAIReasoning id summary encryptedContent status =>
          rw [assistantBlock, calls_push (by rintro k ⟨⟩), List.append_assoc]
          rfl
      | toolUse id name input thoughtSignature =>
          rw [assistantBlock, calls_toolUse, List.append_assoc]
          rfl
      | _ => rfl

theorem calls_collectMessage (lastPos : StrMap ℕ) (msg : Message) (idx : ℕ) :
    Pairing.calls Item.kind (collectMessage lastPos s (msg, idx)).items =
      Pairing.calls Item.kind s.items ++ messageItems msg := by
  rw [collectMessage, messageItems]
  cases hrole : msg.role with
  | user => exact calls_userBlocks ..
  | assistant => exact calls_assistantBlocks ..

end Kept

/-! ### The whole first pass -/

theorem blocks_append (l m : List Message) : blocks (l ++ m) = blocks l ++ blocks m :=
  List.flatMap_append

theorem blocks_cons (msg : Message) (l : List Message) :
    blocks (msg :: l) = msg.content.map (msg.role, ·) ++ blocks l := List.flatMap_cons

theorem lookup_ne_none_iff {l : List (String × String)} {id : String} :
    l.lookup id ≠ none ↔ id ∈ l.map Prod.fst := by
  induction l with
  | nil => simp
  | cons entry l ih =>
      rw [List.lookup_cons, List.map_cons, List.mem_cons, ← ih]
      by_cases hid : id = entry.1
      · simp [hid]
      · simp [hid, beq_eq_false_iff_ne.mpr hid]

theorem toolResultId_map (content : List ContentBlock) :
    (resultsIn (content.map (Role.user, ·))).map Prod.fst = content.filterMap toolResultId := by
  rw [resultsIn, List.filterMap_map, List.map_filterMap]
  congr 1
  funext block
  cases block <;> rfl

/-- The ids of the results of some messages. -/
theorem lookup_blocks_ne_none_iff {messages : List Message} {id : String} :
    (resultsIn (blocks messages)).lookup id ≠ none ↔ ∃ m ∈ messages, id ∈ resultIds m := by
  rw [lookup_ne_none_iff]
  induction messages with
  | nil => simp [blocks, resultsIn]
  | cons msg messages ih =>
      rw [blocks_cons, resultsIn_append, List.map_append, List.mem_append, ih]
      simp only [List.exists_mem_cons_iff]
      refine or_congr_left ?_
      rw [resultIds]
      cases hrole : msg.role with
      | user => rw [toolResultId_map]
      | assistant => rw [resultsIn_assistant, List.map_nil]

theorem Inv.collectMessage {before behind : List Message} {msg : Message} {s : Collected}
    (h : Inv (blocks before) (blocks (msg :: behind)) s)
    (hnodup : (toolUseIds (before ++ msg :: behind)).Nodup) :
    Inv (blocks (before ++ [msg])) (blocks behind)
      (collectMessage (toolResultLastPos (before ++ msg :: behind).zipIdx) s
        (msg, before.length)) := by
  have hblocks : blocks (before ++ [msg]) = blocks before ++ msg.content.map (msg.role, ·) := by
    rw [blocks_append, blocks_cons]
    exact congrArg _ (List.append_nil _)
  rw [toolUseIds, List.append_cons, blocks_append, hblocks] at hnodup
  rw [blocks_cons] at h
  rw [hblocks, OpenAi.collectMessage]
  cases hrole : msg.role with
  | user =>
      rw [hrole] at h
      exact (h.userBlocks []).flush _
  | assistant =>
      rw [hrole] at h hnodup
      refine h.assistantBlocks hnodup fun id => ?_
      rw [hasFutureOutput_iff before msg behind hrole, lookup_blocks_ne_none_iff]

/-- **The first pass** over a whole conversation. -/
theorem Inv.collect {messages : List Message} (hnodup : (toolUseIds messages).Nodup) :
    Inv (blocks messages) [] (collect messages) ∧
      Pairing.calls Item.kind (collect messages).items = messages.flatMap messageItems := by
  have run : ∀ before behind s, messages = before ++ behind →
      Inv (blocks before) (blocks behind) s →
      Inv (blocks messages) []
        ((behind.zipIdx before.length).foldl
          (OpenAi.collectMessage (toolResultLastPos messages.zipIdx)) s) ∧
      Pairing.calls Item.kind ((behind.zipIdx before.length).foldl
          (OpenAi.collectMessage (toolResultLastPos messages.zipIdx)) s).items =
        Pairing.calls Item.kind s.items ++ behind.flatMap messageItems := by
    intro before behind s hmessages h
    induction behind generalizing before s with
    | nil =>
        rw [hmessages, List.append_nil] at *
        exact ⟨h, (List.append_nil _).symm⟩
    | cons msg behind ih =>
        rw [List.zipIdx_cons, List.foldl_cons]
        rw [hmessages] at hnodup
        have hstep := h.collectMessage hnodup
        rw [← hmessages] at hstep
        obtain ⟨hinv, hcalls⟩ := ih (before ++ [msg]) _ (by rw [hmessages, List.append_cons]) hstep
        rw [List.length_append, List.length_singleton] at hinv hcalls
        refine ⟨hinv, ?_⟩
        rw [hcalls, calls_collectMessage, List.flatMap_cons, List.append_assoc]
  exact run [] messages .empty rfl (.init _)

/-! ### The passes behind the first -/

section Passes
variable {items : List Item}

theorem mem_outputIds {callId : String} :
    callId ∈ outputIds items ↔ ∃ output, .functionCallOutput callId output ∈ items := by
  rw [outputIds, List.mem_filterMap]
  constructor
  · rintro ⟨item, hitem, hkind⟩
    cases item <;> cases hkind
    exact ⟨_, hitem⟩
  · rintro ⟨output, hitem⟩
    exact ⟨_, hitem, rfl⟩

/-- Nothing is injected when each call has an output somewhere. -/
theorem normalize_eq_self (h : ∀ item ∈ items, ∀ k, item.kind = .call k → k ∈ outputIds items) :
    normalize items = items := by
  have run : ∀ (l : List Item) (normalized : List Item),
      (∀ item ∈ l, ∀ k, item.kind = .call k → k ∈ outputIds items) →
      (l.foldl normalizeItem (outputIds items, normalized)).2 = normalized ++ l := by
    intro l
    induction l with
    | nil => exact fun _ _ => (List.append_nil _).symm
    | cons item l ih =>
        intro normalized hl
        have hstep : normalizeItem (outputIds items, normalized) item =
            (outputIds items, normalized ++ [item]) := by
          rw [normalizeItem]
          split
          case h_1 callId hkind => exact if_pos (hl item List.mem_cons_self callId hkind)
          case h_2 => rfl
        rw [List.foldl_cons, hstep, ih _ fun a ha => hl a (.tail _ ha), ← List.append_cons]
  exact run items [] h

theorem get_chooseOutput {outputs : StrMap Item} {item a : Item} {callId : String}
    (h : outputs.get callId = none ∨ outputs.get callId = some item)
    (ha : a.kind = .answer callId → a = item) :
    (chooseOutput outputs a).get callId =
      if a.kind = .answer callId then some item else outputs.get callId := by
  rw [chooseOutput]
  split
  case h_1 k hkind =>
    by_cases hk : k = callId
    · -- An output of the call, which is the one output there is.
      subst hk
      rw [if_pos hkind, ← ha hkind]
      rcases h with hnone | hsome
      · rw [hnone]
        exact StrMap.get_insert_self ..
      · rw [hsome, ha hkind]
        dsimp only
        rw [Bool.and_not_self, if_neg (by decide), hsome]
    · have hne : callId ≠ k := fun h => hk h.symm
      have hinsert : (outputs.insert k a).get callId = outputs.get callId := if_neg hne
      rw [if_neg (by rw [hkind]; exact fun h => hk (Kind.answer.inj h))]
      split
      · split
        · exact hinsert
        · rfl
      · exact hinsert
  case h_2 hkind => rw [if_neg (hkind callId)]

/-- When all outputs of a call are one, that one is chosen. -/
theorem get_outputMap {item : Item} {callId : String} (hitem : item ∈ items)
    (hkind : item.kind = .answer callId)
    (hall : ∀ a ∈ items, a.kind = .answer callId → a = item) :
    (outputMap items).get callId = some item := by
  have run : ∀ (l : List Item) (outputs : StrMap Item),
      (∀ a ∈ l, a.kind = .answer callId → a = item) →
      outputs.get callId = none ∨ outputs.get callId = some item →
      item ∈ l ∨ outputs.get callId = some item →
      (l.foldl chooseOutput outputs).get callId = some item := by
    intro l
    induction l with
    | nil => exact fun _ _ _ hmem => hmem.resolve_left List.not_mem_nil
    | cons a l ih =>
        intro outputs hl hget hmem
        have hstep := get_chooseOutput hget (hl a List.mem_cons_self)
        refine ih _ (fun b hb => hl b (.tail _ hb)) ?_ ?_
        · rw [hstep]
          split
          · exact .inr rfl
          · exact hget
        · rw [hstep]
          by_cases ha : a.kind = .answer callId
          · exact .inr (if_pos ha)
          · rw [if_neg ha]
            refine hmem.imp_left fun hmem => ?_
            rcases List.mem_cons.mp hmem with rfl | hmem
            · exact absurd hkind ha
            · exact hmem
  exact run items .empty hall (.inl rfl) (.inl hitem)

theorem foldl_orderItem (outputs : StrMap Item) {seen : List String} {s : Ordered}
    (hseen : ∀ k, k ∈ seen ↔ k ∈ s.usedOutputs) :
    (items.foldl (orderItem outputs) s).ordered =
      s.ordered ++ settle Item.kind (outputFor outputs) strayItems seen items := by
  induction items generalizing seen s with
  | nil => exact (List.append_nil _).symm
  | cons item items ih =>
      rw [List.foldl_cons, settle, orderItem]
      cases hkind : item.kind with
      | call k =>
          refine (@ih (k :: seen) _ fun k' => ?_).trans ?_
          · rw [List.mem_cons, List.mem_insert_iff, hseen]
          · exact List.append_assoc ..
      | answer k =>
          dsimp only
          by_cases hk : k ∈ s.usedOutputs
          · rw [if_pos hk, if_pos ((hseen k).mpr hk), ih hseen]
          · rw [if_neg hk, if_neg (mt (hseen k).mp hk)]
            exact (@ih seen { s with ordered := s.ordered ++ strayItems item } hseen).trans
              (List.append_assoc ..)
      | other =>
          exact (@ih seen { s with ordered := s.ordered ++ [item] } hseen).trans
            (List.append_assoc ..)

/-- The last pass puts its output behind each call. -/
theorem order_eq_weave (h : Follows Item.kind [] items) :
    order items =
      weave Item.kind (outputFor (outputMap items)) (Pairing.calls Item.kind items) := by
  rw [order, foldl_orderItem _ fun _ => Iff.rfl, settle_eq_weave h]
  rfl

end Passes

/-! ### The recovered messages -/

section Recovered
variable {messages : List Message} {s : Collected}

theorem mem_orphanIds {id : String} :
    id ∈ orphanIds messages ↔ firstResult messages id ≠ none ∧ id ∉ toolUseIds messages := by
  rw [orphanIds, List.mem_insertionSort, List.mem_filter, List.mem_dedup, firstResult,
    lookup_ne_none_iff, decide_eq_true_eq]

theorem kind_recovered : ∀ item ∈ recovered messages, item.kind = .other := by
  intro item hitem
  obtain ⟨id, -, hitem⟩ := List.mem_filterMap.mp hitem
  obtain ⟨output, -, hitem⟩ := Option.bind_eq_some_iff.mp hitem
  exact kind_orphan hitem

/-- What is left pending are the first results of the ids that are not called. -/
theorem orphans_eq (h : ∀ id, s.pendingOutputs.lookup id =
    if id ∈ toolUseIds messages then none else firstResult messages id) :
    s.orphans = recovered messages := by
  let before : (_ : String) × String → (_ : String) × String → Prop := fun a b => a.1 ≤ b.1
  have : Std.Total before := ⟨fun a b => le_total a.1 b.1⟩
  have : IsTrans _ before := ⟨fun _ _ _ => le_trans⟩
  have hmem : ∀ id, id ∈ s.pendingOutputs.keys ↔ id ∈ orphanIds messages := fun id => by
    rw [mem_orphanIds, ← AList.mem_keys, ← not_iff_not, ← AList.lookup_eq_none, h]
    by_cases hid : id ∈ toolUseIds messages <;> simp [hid]
  have hkeys : (s.pendingOutputs.entries.insertionSort before).map Sigma.fst =
      orphanIds messages := by
    refine List.Perm.eq_of_pairwise' (r := (· ≤ ·)) ?_ (List.pairwise_insertionSort ..) ?_
    · exact List.pairwise_map.mpr (List.pairwise_insertionSort before _)
    · refine ((List.perm_insertionSort before _).map Sigma.fst).trans ?_
      exact (List.perm_ext_iff_of_nodup s.pendingOutputs.keys_nodup
        ((List.perm_insertionSort ..).nodup_iff.mpr ((List.nodup_dedup _).filter _))).mpr hmem
  rw [Collected.orphans, recovered, ← hkeys, List.filterMap_map]
  refine List.filterMap_congr fun entry hentry => ?_
  have hentry : entry ∈ s.pendingOutputs.entries := (List.mem_insertionSort _).mp hentry
  have hlookup : s.pendingOutputs.lookup entry.1 = some entry.2 := AList.mem_lookup_iff.mpr hentry
  rw [h] at hlookup
  split at hlookup
  · cases hlookup
  · rw [Function.comp_apply, hlookup]
    rfl

end Recovered

/-! ### The input of a conversation -/

section Input
variable {messages : List Message}

/-- The output of a call: the first result there is for its id, or the missing one. -/
def answerItem (messages : List Message) (callId : String) : Item :=
  .functionCallOutput callId <|
    (((toolUseIds messages).find? fun id => sanitizeToolId id == callId).bind
      (firstResult messages)).getD missingOutput

theorem answerItem_sanitize (h : ((toolUseIds messages).map sanitizeToolId).Nodup) {id : String}
    (hid : id ∈ toolUseIds messages) : answerItem messages (sanitizeToolId id) =
      .functionCallOutput (sanitizeToolId id) ((firstResult messages id).getD missingOutput) := by
  have hfind : ((toolUseIds messages).find? fun id' => sanitizeToolId id' == sanitizeToolId id) =
      some id := by
    cases hf : (toolUseIds messages).find? fun id' => sanitizeToolId id' == sanitizeToolId id with
    | none => exact absurd (beq_iff_eq.mpr rfl) (List.find?_eq_none.mp hf id hid)
    | some id' =>
        have heq : sanitizeToolId id' = sanitizeToolId id :=
          beq_iff_eq.mp (@List.find?_some _ (fun id' => sanitizeToolId id' == _) _ _ hf)
        rw [List.inj_on_of_nodup_map h (List.mem_of_find?_eq_some hf) hid heq]
  rw [answerItem, hfind]
  rfl

/-- The calls of the messages' items are the tool uses. -/
theorem callIds_messageItems (messages : List Message) :
    (messages.flatMap messageItems).filterMap Item.callId? =
      (toolUseIds messages).map sanitizeToolId := by
  have huser : ∀ content, (userItems [] content).filterMap Item.callId? = [] := fun content =>
    List.filterMap_eq_nil_iff.mpr fun item hitem => by rw [Item.callId?, kind_userItems item hitem]
  have huses : ∀ content : List ContentBlock, callsIn (content.map (Role.user, ·)) = [] :=
    fun content => List.filterMap_eq_nil_iff.mpr fun b hb => by
      obtain ⟨block, -, rfl⟩ := List.mem_map.mp hb
      rfl
  induction messages with
  | nil => rfl
  | cons msg messages ih =>
      rw [List.flatMap_cons, List.filterMap_append, ih, toolUseIds, toolUseIds, blocks_cons,
        callsIn_append, List.map_append, messageItems]
      refine congrArg (· ++ _) ?_
      cases hrole : msg.role with
      | user => rw [huser, huses, List.map_nil]
      | assistant =>
          rw [callsIn, List.filterMap_filterMap, List.filterMap_map, List.map_filterMap]
          refine List.filterMap_congr fun block _ => ?_
          cases block <;> rfl

theorem contents_flushParts (parts : List ContentPart) :
    (flushParts parts).flatMap Item.contents = parts.map fun part => .userMessage [part] := by
  cases parts with
  | nil => rfl
  | cons part parts => exact List.append_nil _

theorem contents_compactionItem (encryptedContent : String) :
    (compactionItem encryptedContent).contents = [compactionItem encryptedContent] := by
  rw [compactionItem]
  split <;> rfl

theorem contents_userItems (parts : List ContentPart) (content : List ContentBlock) :
    (userItems parts content).flatMap Item.contents = (parts.map fun part => .userMessage [part]) ++
      (content.map (Role.user, ·)).flatMap blockContents := by
  fun_induction userItems parts content with
  | case1 parts => rw [contents_flushParts, List.map_nil, List.flatMap_nil, List.append_nil]
  | case2 parts mediaType data blocks ih => rw [ih, List.map_append, List.append_assoc]; rfl
  | case3 parts text cacheControl blocks ih => rw [ih, List.map_append, List.append_assoc]; rfl
  | case4 parts encryptedContent blocks ih =>
      rw [List.flatMap_append, contents_flushParts, List.flatMap_cons, ih, contents_compactionItem]
      rfl
  | case5 parts blocks _ _ _ ih => rw [List.flatMap_append, contents_flushParts, ih]; rfl
  | case6 parts block blocks himage htext hcompaction hresult ih =>
      rw [ih]
      cases block with
      | image mediaType data => exact absurd rfl (himage mediaType data)
      | text text cacheControl => exact absurd rfl (htext text cacheControl)
      | openAICompaction encryptedContent => exact absurd rfl (hcompaction encryptedContent)
      | toolResult id content isError => exact absurd rfl (hresult id content isError)
      | _ => rfl

/-- The messages' items say what the blocks say, in their order. -/
theorem contents_messageItems (messages : List Message) :
    (messages.flatMap messageItems).flatMap Item.contents =
      (blocks messages).flatMap blockContents := by
  induction messages with
  | nil => rfl
  | cons msg messages ih =>
      rw [List.flatMap_cons, List.flatMap_append, ih, blocks_cons, List.flatMap_append,
        messageItems]
      refine congrArg (· ++ _) ?_
      cases hrole : msg.role with
      | user => exact contents_userItems [] msg.content
      | assistant =>
          dsimp only
          induction msg.content with
          | nil => rfl
          | cons block content ih =>
              rw [List.map_cons, List.flatMap_cons, ← ih]
              cases block <;> rfl

/-- **The input of a conversation** is its messages' items, with its answer behind each call, and
then the recovered messages. -/
theorem buildResponsesInput_eq (hash : IterOrder)
    (h : ((toolUseIds messages).map sanitizeToolId).Nodup) :
    buildResponsesInput hash messages =
      weave Item.kind (answerItem messages) (messages.flatMap messageItems) ++
        recovered messages := by
  obtain ⟨hinv, hcalls⟩ := Inv.collect (List.Nodup.of_map _ h)
  have hclosed : (collect messages).openCalls = [] :=
    List.eq_nil_iff_forall_not_mem.mpr fun id hid => ((hinv.openCalls id).mp hid).2.2 rfl
  have hclose : (collect messages).closeCalls hash = collect messages := by
    rw [Collected.closeCalls, hclosed, (hash.perm []).eq_nil]
    rfl
  have horphans : (collect messages).orphans = recovered messages := orphans_eq hinv.pending
  have hother : ∀ item ∈ recovered messages, ∀ k, item.kind ≠ .answer k := fun item hitem k hk => by
    rw [kind_recovered item hitem] at hk
    cases hk
  have hused : ∀ id, id ∈ (collect messages).usedOutputs ↔ id ∈ toolUseIds messages := fun id =>
    (hinv.used id).trans ⟨(·.1), fun hid => ⟨hid, .inr rfl⟩⟩
  -- A call and its output, among the items of the first pass.
  have hcall : ∀ item ∈ (collect messages).items ++ recovered messages, ∀ k, item.kind = .call k →
      ∃ id ∈ toolUseIds messages, k = sanitizeToolId id := fun item hitem k hk => by
    rcases List.mem_append.mp hitem with hitem | hitem
    · exact (hinv.calls k).mp ⟨item, hitem, hk⟩
    · rw [kind_recovered item hitem] at hk
      cases hk
  have houtput : ∀ id ∈ toolUseIds messages,
      answerItem messages (sanitizeToolId id) ∈ (collect messages).items ++ recovered messages :=
    fun id hid => by
      rw [answerItem_sanitize h hid]
      refine List.mem_append_left _ ((hinv.outputs _ _).mpr ⟨id, (hused id).mpr hid, rfl, ?_⟩)
      rw [List.append_nil]
      rfl
  have honly : ∀ item ∈ (collect messages).items ++ recovered messages, ∀ k,
      item.kind = .answer k → item = answerItem messages k := fun item hitem k hk => by
    rcases List.mem_append.mp hitem with hitem | hitem
    · cases item <;> cases hk
      obtain ⟨id, hid, rfl, rfl⟩ := (hinv.outputs _ _).mp hitem
      rw [answerItem_sanitize h ((hused id).mp hid), List.append_nil]
      rfl
    · exact absurd hk (hother item hitem k)
  have hnormal : normalize ((collect messages).items ++ recovered messages) =
      (collect messages).items ++ recovered messages :=
    normalize_eq_self fun item hitem k hk => by
      obtain ⟨id, hid, rfl⟩ := hcall item hitem k hk
      exact mem_outputIds.mpr ⟨_, houtput id hid⟩
  have hanswers : ∀ item ∈ (collect messages).items ++ recovered messages, ∀ k,
      item.kind = .call k →
      outputFor (outputMap ((collect messages).items ++ recovered messages)) k =
        answerItem messages k := fun item hitem k hk => by
    obtain ⟨id, hid, rfl⟩ := hcall item hitem k hk
    rw [outputFor, get_outputMap (houtput id hid) rfl fun a ha => honly a ha _]
    rfl
  rw [buildResponsesInput, hclose, horphans, hnormal,
    order_eq_weave (hinv.follows.append_of_forall hother),
    weave_congr fun item hitem => hanswers item (mem_of_mem_calls hitem), calls_append,
    calls_eq_self hother, hcalls, weave_append, weave_eq_self kind_recovered]

/-- An input that answers each call of a conversation and keeps what the conversation says:
`conversation` is the input up to the recovered messages. -/
structure Repairs (messages : List Message) (input conversation : List Item) : Prop where
  split : input = conversation ++ recovered messages
  paired : Paired Item.kind input
  calls : input.filterMap Item.callId? = (toolUseIds messages).map sanitizeToolId
  outputs : ∀ id ∈ toolUseIds messages, ∀ output,
    .functionCallOutput (sanitizeToolId id) output ∈ input ↔
      output = (firstResult messages id).getD missingOutput
  contents : conversation.flatMap Item.contents = (blocks messages).flatMap blockContents

/-- **Each call is paired with its real output**: the first result of its id, wherever it stands,
or the missing one; the other blocks keep their order, and behind them each id with results and
no call has one user message. -/
theorem buildResponsesInput_repairs (hash : IterOrder) (messages : List Message)
    (h : ((toolUseIds messages).map sanitizeToolId).Nodup) :
    ∃ conversation, Repairs messages (buildResponsesInput hash messages) conversation := by
  have hkept : ∀ item ∈ messages.flatMap messageItems, ∀ k, item.kind ≠ .answer k :=
    fun item hitem => by
      obtain ⟨msg, -, hitem⟩ := List.mem_flatMap.mp hitem
      exact kind_messageItems item hitem
  have hinput := buildResponsesInput_eq hash h
  refine ⟨_, hinput, ?_, ?_, fun id hid output => ?_, ?_⟩
  · rw [hinput]
    exact (paired_weave hkept fun _ => rfl).append (paired_of_forall_other kind_recovered)
  · have hnone : (recovered messages).filterMap Item.callId? = [] :=
      List.filterMap_eq_nil_iff.mpr fun item hitem => by
        rw [Item.callId?, kind_recovered item hitem]
    rw [hinput, List.filterMap_append, hnone, List.append_nil, ← callIds_messageItems,
      List.filterMap_eq_flatMap_toList, List.filterMap_eq_flatMap_toList]
    exact flatMap_weave fun _ => rfl
  · have hcall : ∃ item ∈ messages.flatMap messageItems,
        item.kind = .call (sanitizeToolId id) := by
      have hmem : sanitizeToolId id ∈ (messages.flatMap messageItems).filterMap Item.callId? := by
        rw [callIds_messageItems]
        exact List.mem_map_of_mem hid
      obtain ⟨item, hitem, hcallId⟩ := List.mem_filterMap.mp hmem
      refine ⟨item, hitem, ?_⟩
      cases item <;> cases hcallId
      rfl
    rw [hinput, List.mem_append, mem_weave hkept (fun _ => rfl) rfl, answerItem_sanitize h hid]
    constructor
    · rintro (⟨heq, -⟩ | hmem)
      · exact (Item.functionCallOutput.inj heq).2
      · cases kind_recovered _ hmem
    · rintro rfl
      exact .inl ⟨rfl, hcall⟩
  · rw [flatMap_weave fun _ => rfl, contents_messageItems]

end Input

/-- A conversation in which `b` is answered before it is called, `a` twice, `c` never, and `z`
without a call. -/
def unordered : List Message :=
  [⟨.user, [.text "go" none, .toolResult "b" "early" none], none, none⟩,
    ⟨.assistant, [.toolUse "a" "read" "\x7b\x7d" none, .toolUse "b" "ls" "null" none,
      .toolUse "c.1" "ls" "\x7b\x7d" none, .text "done" none], none, none⟩,
    ⟨.user, [.toolResult "z" " lost " none, .toolResult "a" "no file" (some true),
      .image "image/png" "AA==", .toolResult "a" "later" none], none, none⟩]

theorem buildResponsesInput_repairs_unordered :
    ∃ conversation, Repairs unordered (buildResponsesInput .insertion unordered) conversation :=
  buildResponsesInput_repairs .insertion unordered (by decide +kernel)

example : buildResponsesInput .insertion unordered =
    [.userMessage [.inputText "go"],
      .functionCall "read" "\x7b\x7d" "a", .functionCallOutput "a" "[Error] no file",
      .functionCall "ls" "\x7b\x7d" "b", .functionCallOutput "b" "early",
      .functionCall "ls" "\x7b\x7d" "c_1", .functionCallOutput "c_1" missingOutput,
      .assistantMessage "done",
      .userMessage [.inputImage "data:image/png;base64,AA=="],
      .userMessage [.inputText "[Recovered orphaned tool output: z]\nlost"]] := by
  decide +kernel

end Jcode.Provider.OpenAi
