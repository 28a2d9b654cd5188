import Jcode.Provider.Anthropic
import Jcode.Support.Keyed

/-!
# Provider — Anthropic repair

What the provider demands of a request: roles alternate, and the message behind an assistant
message with calls has one result for each of them and no other.  The repair injects the missing
results message by message, before it merges neighbours, so a result injected in the middle of
several assistant messages separates an answered call from its result.

* `formatMessages_eq`: the messages built are those of each message, merged.
* `formatMessages_admissible_iff`: the request is admissible exactly when no call has two results
  and no run of assistant messages goes on, behind an answered call, after one with a call that is
  never answered.
-/

namespace Jcode.Provider.Anthropic

open Jcode.Chat Turns

/-! ### What blocks say -/

/-- A text, an image or thinking. -/
inductive Said where
  | text (text : String)
  | image (mediaType data : String)
  | thinking (thinking signature : String)
  deriving DecidableEq, Repr

def ToolResultContentBlock.said : ToolResultContentBlock → Said
  | .text s => .text s
  | .image source => .image source.mediaType source.data

/-- What is put into a result, behind its own text. -/
def ToolResultContent.said : ToolResultContent → List Said
  | .text _ => []
  | .blocks l => l.tail.map ToolResultContentBlock.said

/-- The text of the result itself. -/
def ToolResultContent.ownText : ToolResultContent → String
  | .text s => s
  | .blocks (.text s :: _) => s
  | .blocks _ => ""

/-- A result by its id, its text and whether it is an error. -/
abbrev Answer := String × String × Bool

def ApiContentBlock.answer : ApiContentBlock → Option Answer
  | .toolResult toolUseId content isError => some (toolUseId, content.ownText, isError)
  | _ => none

def ApiContentBlock.callId : ApiContentBlock → Option String
  | .toolUse id _ _ _ => some id
  | _ => none

def ApiContentBlock.said : ApiContentBlock → List Said
  | .text s _ => [.text s]
  | .image source => [.image source.mediaType source.data]
  | .thinking s signature => [.thinking s signature]
  | .toolResult _ content _ => content.said
  | .toolUse .. => []

/-- The same of the blocks of a conversation. -/
def blockAnswer : ContentBlock → Option Answer
  | .toolResult toolUseId content isError =>
    some (sanitizeToolId toolUseId, content, isError.getD false)
  | _ => none

def blockSaid : ContentBlock → List Said
  | .text text _ => [.text text]
  | .image mediaType data => [.image mediaType data]
  | .anthropicThinking thinking signature => [.thinking thinking signature]
  | _ => []

/-- A block that has a form in the request. -/
def IsFormatted : ContentBlock → Prop
  | .text .. => True
  | .anthropicThinking .. => True
  | .toolUse .. => True
  | .toolResult .. => True
  | .image .. => True
  | _ => False

/-! ### Formatting keeps what is said -/

section Format
variable {result : List ApiContentBlock} {block : ContentBlock}

/-- The results that hold blocks begin with their own text. -/
def Wrapped (result : List ApiContentBlock) : Prop :=
  ∀ id blocks isError, .toolResult id (.blocks blocks) isError ∈ result →
    ∃ text rest, blocks = .text text :: rest

/-- `result'` says what `result` says and then what `block` says. -/
structure Extends (result : List ApiContentBlock) (block : ContentBlock)
    (result' : List ApiContentBlock) : Prop where
  wrapped : Wrapped result'
  answers : result'.filterMap ApiContentBlock.answer =
    result.filterMap ApiContentBlock.answer ++ (blockAnswer block).toList
  calls : result'.filterMap ApiContentBlock.callId =
    result.filterMap ApiContentBlock.callId ++ ((toolUseId block).map sanitizeToolId).toList
  said : result'.flatMap ApiContentBlock.said =
    result.flatMap ApiContentBlock.said ++ blockSaid block
  /-- Nothing comes of nothing but a block that has a form. -/
  nonempty : result' ≠ [] ↔ result ≠ [] ∨ IsFormatted block

theorem Extends.push (h : Wrapped result) {api : ApiContentBlock}
    (hwrapped : ∀ id blocks isError, api ≠ .toolResult id (.blocks blocks) isError)
    (hanswer : api.answer = blockAnswer block)
    (hcall : api.callId = (toolUseId block).map sanitizeToolId)
    (hsaid : api.said = blockSaid block) (hform : IsFormatted block) :
    Extends result block (result ++ [api]) where
  wrapped id blocks isError hmem := by
    rcases List.mem_append.mp hmem with hmem | hmem
    · exact h id blocks isError hmem
    · exact absurd (List.mem_singleton.mp hmem).symm (hwrapped id blocks isError)
  answers := by
    rw [List.filterMap_append, ← hanswer]
    cases hapi : api.answer <;> simp [hapi]
  calls := by
    rw [List.filterMap_append, ← hcall]
    cases hapi : api.callId <;> simp [hapi]
  said := by
    rw [List.flatMap_append, ← hsaid, List.flatMap_singleton]
  nonempty := by simp [hform]

/-- A block put into the result that comes last. -/
theorem Extends.amend (h : Wrapped result) {id : String} {content content' : ToolResultContent}
    {isError : Bool} (hlast : result.getLast? = some (.toolResult id content isError))
    (hwrapped : ∀ blocks, content' = .blocks blocks → ∃ text rest, blocks = .text text :: rest)
    (hown : content'.ownText = content.ownText)
    (hsaid : content'.said = content.said ++ blockSaid block) (hanswer : blockAnswer block = none)
    (hcall : toolUseId block = none) :
    Extends result block (result.dropLast ++ [.toolResult id content' isError]) := by
  have hresult : result = result.dropLast ++ [.toolResult id content isError] :=
    (List.dropLast_append_getLast? _ hlast).symm
  refine ⟨fun id' blocks isError' hmem => ?_, ?_, ?_, ?_, ?_⟩
  · rcases List.mem_append.mp hmem with hmem | hmem
    · exact h id' blocks isError' (List.mem_of_mem_dropLast hmem)
    · cases List.mem_singleton.mp hmem
      exact hwrapped blocks rfl
  · conv_rhs => rw [hresult]
    rw [hanswer]
    simp [ApiContentBlock.answer, hown]
  · conv_rhs => rw [hresult]
    rw [hcall, List.filterMap_append, List.filterMap_append]
    exact (List.append_nil _).symm
  · conv_rhs => rw [hresult]
    rw [List.flatMap_append, List.flatMap_append, List.flatMap_singleton, List.flatMap_singleton,
      List.append_assoc]
    exact congrArg _ hsaid
  · have hne : result ≠ [] := fun hnil => by rw [hnil] at hlast; cases hlast
    simp [hne]

theorem Extends.formatBlock (isOauth : Bool) (h : Wrapped result) (block : ContentBlock) :
    Extends result block (formatBlock isOauth result block) := by
  have skip : blockAnswer block = none → toolUseId block = none → blockSaid block = [] →
      ¬ IsFormatted block → Extends result block result := fun ha hc hs hf =>
    ⟨h, by rw [ha]; simp, by rw [hc]; simp, by rw [hs]; simp, by simp [hf]⟩
  cases block with
  | text text cacheControl =>
      have push : Extends result (.text text cacheControl) (result ++ [.text text none]) :=
        .push h (fun _ _ _ => by rintro ⟨⟩) rfl rfl rfl trivial
      rw [Anthropic.formatBlock, formatText]
      split
      case h_1 id blocks isError hlast =>
        split
        · obtain ⟨own, rest, rfl⟩ := h id blocks isError (List.mem_of_getLast? hlast)
          refine .amend h hlast (fun blocks' hb => ?_) rfl ?_ rfl rfl
          · cases hb
            exact ⟨own, rest ++ [.text text], rfl⟩
          · simp [ToolResultContent.said, blockSaid, ToolResultContentBlock.said]
        · exact push
      case h_2 => exact push
  | anthropicThinking thinking signature =>
      exact .push h (fun _ _ _ => by rintro ⟨⟩) rfl rfl rfl trivial
  | toolUse id name input thoughtSignature =>
      exact .push h (fun _ _ _ => by rintro ⟨⟩) rfl rfl rfl trivial
  | toolResult toolUseId content isError =>
      exact .push h (fun _ _ _ => by rintro ⟨⟩) rfl rfl rfl trivial
  | image mediaType data =>
      rw [Anthropic.formatBlock, formatImage]
      split
      case h_1 id text isError hlast =>
        refine .amend h hlast (fun blocks' hb => ?_) rfl rfl rfl rfl
        cases hb
        exact ⟨text, _, rfl⟩
      case h_2 id blocks isError hlast =>
        obtain ⟨own, rest, rfl⟩ := h id blocks isError (List.mem_of_getLast? hlast)
        refine .amend h hlast (fun blocks' hb => ?_) rfl ?_ rfl rfl
        · cases hb
          exact ⟨own, rest ++ [.image _], rfl⟩
        · simp [ToolResultContent.said, blockSaid, ToolResultContentBlock.said]
      case h_3 => exact .push h (fun _ _ _ => by rintro ⟨⟩) rfl rfl rfl trivial
  | _ => exact skip rfl rfl rfl id

/-- `api` says what `blocks` say. -/
structure Says (blocks : List ContentBlock) (api : List ApiContentBlock) : Prop where
  wrapped : Wrapped api
  answers : api.filterMap ApiContentBlock.answer = blocks.filterMap blockAnswer
  calls : api.filterMap ApiContentBlock.callId = (blocks.filterMap toolUseId).map sanitizeToolId
  said : api.flatMap ApiContentBlock.said = blocks.flatMap blockSaid
  nonempty : api ≠ [] ↔ ∃ block ∈ blocks, IsFormatted block

theorem Says.concat {blocks : List ContentBlock} {result' : List ApiContentBlock}
    (h : Says blocks result) (he : Extends result block result') :
    Says (blocks ++ [block]) result' where
  wrapped := he.wrapped
  answers := by
    rw [he.answers, h.answers, List.filterMap_append]
    cases hb : blockAnswer block <;> simp [hb]
  calls := by
    rw [he.calls, h.calls, List.filterMap_append, List.map_append]
    cases hb : toolUseId block <;> simp [hb]
  said := by rw [he.said, h.said, List.flatMap_append, List.flatMap_singleton]
  nonempty := by
    rw [he.nonempty, h.nonempty]
    simp [or_and_right, exists_or]

/-- **Formatting keeps what is said.** -/
theorem formatContentBlocks_texts (isOauth : Bool) (blocks : List ContentBlock) :
    Says blocks (formatContentBlocks isOauth blocks) := by
  induction blocks using List.reverseRecOn with
  | nil =>
      refine ⟨fun _ _ _ h => absurd h List.not_mem_nil, rfl, rfl, rfl, ?_⟩
      exact ⟨fun h => absurd rfl h, fun ⟨_, h, _⟩ => absurd h List.not_mem_nil⟩
  | append_singleton blocks block ih =>
      rw [formatContentBlocks, List.foldl_concat, ← formatContentBlocks]
      exact ih.concat (Extends.formatBlock isOauth ih.wrapped block)

end Format

/-! ### What a request must be -/

/-- The results of a conversation, in order. -/
def results (messages : List Message) : List (String × String × Bool) :=
  messages.flatMap fun msg => msg.content.filterMap fun
    | .toolResult toolUseId content isError => some (toolUseId, content, isError.getD false)
    | _ => none

/-- The answer to a call: its result, or the synthetic one when there is none. -/
def answerTo (messages : List Message) (id : String) : Answer :=
  match (results messages).lookup id with
  | some (content, isError) => (sanitizeToolId id, content, isError)
  | none => (sanitizeToolId id, interruptedText, true)

/-- A conversation whose calls have distinct ids and whose results stand in user messages, behind
the run of assistant messages that holds their call. -/
structure WellFormed (messages : List Message) : Prop where
  nodup : ((toolUseIds messages).map sanitizeToolId).Nodup
  called : ∀ before msg after, messages = before ++ msg :: after →
    ∀ id content isError, .toolResult id content isError ∈ msg.content →
      msg.role = .user ∧ ∃ start caller run users, before = start ++ caller :: run ++ users ∧
        caller.role = .assistant ∧ id ∈ caller.content.filterMap toolUseId ∧
        (∀ m ∈ run, m.role = .assistant) ∧ ∀ m ∈ users, m.role = .user

/-- What the provider admits as the request of a conversation. -/
structure Admissible (messages : List Message) (request : List ApiMessage) : Prop where
  alternates : request.IsChain fun t u => t.role ≠ u.role
  /-- The message behind a call has one result for it. -/
  answered : ∀ before msg after, request = before ++ msg :: after → msg.role = .assistant →
    ∀ id name input cacheControl, .toolUse id name input cacheControl ∈ msg.content →
      ∃ raw ∈ toolUseIds messages, sanitizeToolId raw = id ∧ ∃ answers rest,
        after = answers :: rest ∧ answers.role = .user ∧
        ((answers.content.filterMap ApiContentBlock.answer).filter fun answer => answer.1 = id) =
          [answerTo messages raw]
  /-- A result answers a call of the message before it. -/
  called : ∀ before msg after, request = before ++ msg :: after →
    ∀ id content isError, .toolResult id content isError ∈ msg.content →
      ∃ start caller name input cacheControl, before = start ++ [caller] ∧
        caller.role = .assistant ∧ .toolUse id name input cacheControl ∈ caller.content
  said : (request.flatMap fun msg => msg.content.flatMap ApiContentBlock.said) =
    messages.flatMap fun msg => msg.content.flatMap blockSaid

/-- A run of assistant messages goes on, behind an answered call, after a message with a call that
is never answered. -/
def Interrupted (messages : List Message) : Prop :=
  ∃ before front msg back after, messages = before ++ (front ++ msg :: back) ++ after ∧
    (∀ m ∈ front ++ msg :: back, m.role = .assistant) ∧
    (∃ id ∈ msg.content.filterMap toolUseId, id ∉ toolResultIds messages) ∧
    (∃ m ∈ front ++ [msg], ∃ id ∈ m.content.filterMap toolUseId, id ∈ toolResultIds messages) ∧
    ∃ m ∈ back, ∃ block ∈ m.content, IsFormatted block

/-! ### The request, turn by turn -/

theorem foldl_mergeMessage (l : List ApiMessage) : l.foldl mergeMessage [] = merge l := by
  have run : ∀ (l merged : List ApiMessage) (last : ApiMessage),
      l.foldl mergeMessage (merged ++ [last]) = merged ++ merge (last :: l) := by
    intro l
    induction l with
    | nil => exact fun _ _ => rfl
    | cons msg l ih =>
        intro merged last
        have hlast : (merged ++ [last]).getLast? = some last := List.getLast?_concat
        rw [List.foldl_cons, mergeMessage, hlast]
        dsimp only
        by_cases hrole : last.role = msg.role
        · rw [if_pos hrole, List.dropLast_concat, ih]
          refine congrArg _ ?_
          rcases merge_cons_cases msg l with ⟨hl, h⟩ | ⟨u, m, hl, ⟨hu, h⟩ | ⟨hu, h⟩⟩
          all_goals rw [merge, merge.eq_2 last, h, hl]
          all_goals simp [*]
        · rw [if_neg hrole, ih, List.append_assoc]
          refine congrArg _ ?_
          rcases merge_cons_cases msg l with ⟨hl, h⟩ | ⟨u, m, hl, ⟨hu, h⟩ | ⟨hu, h⟩⟩
          all_goals rw [merge.eq_2 last, h]
          all_goals simp [Ne.symm hrole]
  cases l with
  | nil => rfl
  | cons msg l => exact run l [] msg

section Request
variable {messages : List Message} {isOauth : Bool}

theorem formatMessages_eq (messages : List Message) (isOauth : Bool) :
    formatMessages messages isOauth =
      merge (messages.flatMap (formatMessage isOauth (dangling messages))) :=
  foldl_mergeMessage _

/-- What is read of a block: its result's answer, its call when an assistant says it, its id when
it is a result, and what it says. -/
def answersOf (_ : Role) (block : ApiContentBlock) : List Answer := block.answer.toList

def callsOf (role : Role) (block : ApiContentBlock) : List String :=
  if role = .assistant then block.callId.toList else []

def answerIds (role : Role) (block : ApiContentBlock) : List String :=
  (answersOf role block).map Prod.fst

def saidOf (_ : Role) (block : ApiContentBlock) : List Said := block.said

theorem reading_unlessEmpty {γ : Type*} (f : Role → ApiContentBlock → List γ) (role : Role)
    (content : List ApiContentBlock) :
    reading f (unlessEmpty role content) = content.flatMap (f role) := by
  rw [unlessEmpty]
  split
  case isTrue h => rw [List.isEmpty_iff.mp h]; rfl
  case isFalse => exact List.append_nil _

theorem reading_flatMap {γ : Type*} (f : Role → ApiContentBlock → List γ)
    (pieces : Message → List ApiMessage) (messages : List Message) :
    reading f (messages.flatMap pieces) = messages.flatMap fun msg => reading f (pieces msg) :=
  List.flatMap_assoc

/-- The ids of the calls an assistant makes in a message. -/
def callIds (msg : Message) : List String :=
  if msg.role = .assistant then msg.content.filterMap toolUseId else []

/-- The calls of a message that are never answered. -/
def unanswered (dangling : List String) (msg : Message) : List String :=
  (callIds msg).filter (· ∈ dangling)

theorem syntheticResults_eq (dangling : List String) (msg : Message) :
    syntheticResults dangling msg = (unanswered dangling msg).map syntheticResult := by
  rw [syntheticResults, unanswered, callIds]
  cases msg.role with
  | user => rfl
  | assistant => rfl

variable (isOauth) in
theorem reading_calls (dangling : List String) (msg : Message) :
    reading callsOf (formatMessage isOauth dangling msg) = (callIds msg).map sanitizeToolId := by
  have hsynthetic : (syntheticResults dangling msg).flatMap (callsOf .user) = [] := by
    rw [List.flatMap_eq_nil_iff]
    exact fun _ _ => rfl
  rw [formatMessage, reading_append, reading_unlessEmpty, reading_unlessEmpty, hsynthetic,
    List.append_nil, callIds]
  cases hrole : msg.role with
  | user =>
      refine (List.flatMap_eq_nil_iff.mpr fun _ _ => rfl).trans ?_
      rw [if_neg (by decide)]
      rfl
  | assistant =>
      rw [if_pos rfl, ← (formatContentBlocks_texts isOauth msg.content).calls,
        List.filterMap_eq_flatMap_toList]
      rfl

variable (isOauth) in
theorem reading_answerIds (dangling : List String) (msg : Message) :
    reading answerIds (formatMessage isOauth dangling msg) =
      (msg.content.filterMap toolResultId ++ unanswered dangling msg).map sanitizeToolId := by
  have hids : ∀ (role : Role) (content : List ApiContentBlock),
      content.flatMap (answerIds role) = (content.filterMap ApiContentBlock.answer).map Prod.fst :=
    fun role content => by
      rw [List.filterMap_eq_flatMap_toList, List.map_flatMap]
      rfl
  rw [formatMessage, reading_append, reading_unlessEmpty, reading_unlessEmpty, hids, hids,
    (formatContentBlocks_texts isOauth msg.content).answers, List.map_append, syntheticResults_eq,
    List.map_filterMap, List.map_filterMap, List.filterMap_map, List.map_filterMap]
  refine congrArg₂ _ (List.filterMap_congr fun block _ => ?_) ?_
  · cases block <;> rfl
  · rw [← List.filterMap_eq_map]
    rfl

variable (isOauth) in
theorem reading_said (dangling : List String) (msg : Message) :
    reading saidOf (formatMessage isOauth dangling msg) = msg.content.flatMap blockSaid := by
  have hsynthetic : (syntheticResults dangling msg).flatMap (saidOf .user) = [] := by
    rw [syntheticResults_eq, List.flatMap_eq_nil_iff]
    intro block hblock
    obtain ⟨id, -, rfl⟩ := List.mem_map.mp hblock
    rfl
  rw [formatMessage, reading_append, reading_unlessEmpty, reading_unlessEmpty, hsynthetic,
    List.append_nil, ← (formatContentBlocks_texts isOauth msg.content).said]
  rfl

/-! ### Ids -/

theorem mem_toolUseIds {msg : Message} {id : String} (hmsg : msg ∈ messages)
    (hid : id ∈ callIds msg) : id ∈ toolUseIds messages := by
  rw [callIds] at hid
  split at hid
  · exact List.mem_flatMap.mpr ⟨msg, hmsg, hid⟩
  · cases hid

theorem callIds_sublist (msg : Message) :
    (callIds msg).Sublist (msg.content.filterMap toolUseId) := by
  rw [callIds]
  split
  · exact List.Sublist.refl _
  · exact List.nil_sublist _

theorem mem_dangling {id : String} :
    id ∈ dangling messages ↔ id ∈ toolUseIds messages ∧ id ∉ toolResultIds messages := by
  rw [dangling, List.mem_filter, decide_eq_true_eq]

theorem mem_unanswered {msg : Message} {id : String} :
    id ∈ unanswered (dangling messages) msg ↔ id ∈ callIds msg ∧ id ∈ dangling messages := by
  rw [unanswered, List.mem_filter, decide_eq_true_eq]

variable (h : WellFormed messages)
include h

theorem WellFormed.sanitize_inj {id id' : String} (hid : id ∈ toolUseIds messages)
    (hid' : id' ∈ toolUseIds messages) (heq : sanitizeToolId id = sanitizeToolId id') : id = id' :=
  List.inj_on_of_nodup_map h.nodup hid hid' heq

theorem WellFormed.nodup_callIds : (messages.flatMap callIds).Nodup :=
  (List.Sublist.flatMap_right messages fun msg _ => callIds_sublist msg).nodup
    (List.Nodup.of_map _ h.nodup)

theorem WellFormed.nodup_calls :
    (reading callsOf (messages.flatMap (formatMessage isOauth (dangling messages)))).Nodup := by
  have hcalls : reading callsOf (messages.flatMap (formatMessage isOauth (dangling messages))) =
      (messages.flatMap callIds).map sanitizeToolId := by
    rw [reading_flatMap, List.map_flatMap]
    exact List.flatMap_congr fun msg _ => reading_calls isOauth _ msg
  rw [hcalls]
  exact ((List.Sublist.flatMap_right messages fun msg _ => callIds_sublist msg).map _).nodup h.nodup

/-- Where the call of a result stands. -/
theorem WellFormed.exists_caller {id : String} (hid : id ∈ toolResultIds messages) :
    ∃ start caller run users msg after,
      messages = start ++ caller :: (run ++ users ++ msg :: after) ∧ id ∈ callIds caller ∧
        caller.role = .assistant ∧ (∀ m ∈ run, m.role = .assistant) ∧
        (∀ m ∈ users, m.role = .user) ∧ msg.role = .user ∧
        ∃ content isError, .toolResult id content isError ∈ msg.content := by
  obtain ⟨msg, hmsg, hid⟩ := List.mem_flatMap.mp hid
  obtain ⟨block, hblock, hresult⟩ := List.mem_filterMap.mp hid
  cases block <;> cases hresult
  obtain ⟨before, after, hsplit⟩ := List.append_of_mem hmsg
  obtain ⟨huser, start, caller, run, users, rfl, hcaller, hcall, hrun, husers⟩ :=
    h.called before msg after hsplit id _ _ hblock
  refine ⟨start, caller, run, users, msg, after, ?_, ?_, hcaller, hrun, husers, huser, _, _,
    hblock⟩
  · rw [hsplit]
    simp
  · rw [callIds, if_pos hcaller]
    exact hcall

theorem WellFormed.result_mem {id : String} (hid : id ∈ toolResultIds messages) :
    id ∈ toolUseIds messages := by
  obtain ⟨start, caller, run, users, msg, after, hsplit, hcall, -⟩ := h.exists_caller hid
  exact mem_toolUseIds (by rw [hsplit]; simp) hcall

/-- When no call has two results, no two results of the request are of one id. -/
theorem WellFormed.nodup_answerIds (hresults : (toolResultIds messages).Nodup) :
    (reading answerIds (messages.flatMap (formatMessage isOauth (dangling messages)))).Nodup := by
  have hids : reading answerIds (messages.flatMap (formatMessage isOauth (dangling messages))) =
      (messages.flatMap fun msg => msg.content.filterMap toolResultId ++
        unanswered (dangling messages) msg).map sanitizeToolId := by
    rw [reading_flatMap, List.map_flatMap]
    exact List.flatMap_congr fun msg _ => reading_answerIds isOauth _ msg
  have hperm := List.flatMap_append_perm messages (fun msg => msg.content.filterMap toolResultId)
    (unanswered (dangling messages))
  have hsynthetic : (messages.flatMap (unanswered (dangling messages))).Nodup :=
    (List.Sublist.flatMap_right messages fun msg _ => List.filter_sublist).nodup h.nodup_callIds
  have hmem : ∀ id ∈ messages.flatMap (unanswered (dangling messages)), id ∈ dangling messages :=
    fun id hid => by
      obtain ⟨msg, -, hid⟩ := List.mem_flatMap.mp hid
      exact (mem_unanswered.mp hid).2
  rw [hids]
  refine List.Nodup.map_on (fun id hid id' hid' => h.sanitize_inj ?_ ?_) ?_
  · rcases List.mem_append.mp (hperm.mem_iff.mpr hid) with hid | hid
    · exact h.result_mem hid
    · exact (mem_dangling.mp (hmem id hid)).1
  · rcases List.mem_append.mp (hperm.mem_iff.mpr hid') with hid' | hid'
    · exact h.result_mem hid'
    · exact (mem_dangling.mp (hmem id' hid')).1
  · refine hperm.nodup_iff.mp (List.nodup_append.mpr ⟨hresults, hsynthetic, ?_⟩)
    rintro id hid _ hid' rfl
    exact (mem_dangling.mp (hmem id hid')).2 hid

end Request

/-! ### Each call is answered -/

/-- Of a call, that the reply has one result for it. -/
def AnsweredBy (messages : List Message) (block : ApiContentBlock)
    (reply : List ApiContentBlock) : Prop :=
  ∀ id name input cacheControl, block = .toolUse id name input cacheControl →
    ∃ raw ∈ toolUseIds messages, sanitizeToolId raw = id ∧
      ((reply.filterMap ApiContentBlock.answer).filter fun answer => answer.1 = id) =
        [answerTo messages raw]

section Answers
variable {messages : List Message} {isOauth : Bool} {request : List ApiMessage}

theorem Admissible.replied (h : Admissible messages request) :
    Replied .assistant .user (AnsweredBy messages) request := by
  refine replied_iff.mpr fun before msg after hsplit hrole block hblock id name input cc heq => ?_
  subst heq
  obtain ⟨raw, hraw, hid, answers, rest, rfl, huser, hanswers⟩ :=
    h.answered before msg after hsplit hrole id name input cc hblock
  refine ⟨raw, hraw, hid, ?_⟩
  have hchain := h.alternates
  rw [hsplit] at hchain
  rw [reply_eq_next hchain.right_of_append hrole, next, if_pos huser]
  exact hanswers

theorem answered_of_replied (halternates : request.IsChain fun t u => t.role ≠ u.role)
    (h : Replied .assistant .user (AnsweredBy messages) request) {before after : List ApiMessage}
    {msg : ApiMessage} (hsplit : request = before ++ msg :: after) (hrole : msg.role = .assistant)
    {id name : String} {input : Value} {cacheControl : Option CacheControlParam}
    (hblock : .toolUse id name input cacheControl ∈ msg.content) :
    ∃ raw ∈ toolUseIds messages, sanitizeToolId raw = id ∧ ∃ answers rest,
      after = answers :: rest ∧ answers.role = .user ∧
      ((answers.content.filterMap ApiContentBlock.answer).filter fun answer => answer.1 = id) =
        [answerTo messages raw] := by
  obtain ⟨raw, hraw, hid, hanswers⟩ :=
    replied_iff.mp h before msg after hsplit hrole _ hblock id name input cacheControl rfl
  rw [hsplit] at halternates
  rw [reply_eq_next halternates.right_of_append hrole] at hanswers
  refine ⟨raw, hraw, hid, ?_⟩
  cases after with
  | nil => cases hanswers
  | cons answers rest =>
      rw [next] at hanswers
      split at hanswers
      case isTrue huser => exact ⟨answers, rest, rfl, huser, hanswers⟩
      case isFalse => cases hanswers

/-! ### The messages of one message -/

theorem mem_unlessEmpty {role : Role} {content : List ApiContentBlock} {t : ApiMessage} :
    t ∈ unlessEmpty role content ↔ content ≠ [] ∧ t = ⟨role, content⟩ := by
  rw [unlessEmpty]
  split
  case isTrue h => simp [List.isEmpty_iff.mp h]
  case isFalse h => simp [List.isEmpty_iff.not.mp h]

theorem unlessEmpty_of_ne {role : Role} {content : List ApiContentBlock} (h : content ≠ []) :
    unlessEmpty role content = [⟨role, content⟩] := if_neg (List.isEmpty_iff.not.mpr h)

/-- An assistant message of those built from a message. -/
theorem formatMessage_split {dangling : List String} {msg : Message}
    {before after : List ApiMessage} {t : ApiMessage}
    (h : formatMessage isOauth dangling msg = before ++ t :: after) (ht : t.role = .assistant) :
    msg.role = .assistant ∧ t.content = formatContentBlocks isOauth msg.content ∧
      after = unlessEmpty .user (syntheticResults dangling msg) := by
  have hsynthetic : t ∉ unlessEmpty .user (syntheticResults dangling msg) := fun hmem => by
    rw [(mem_unlessEmpty.mp hmem).2] at ht
    cases ht
  rw [formatMessage] at h
  by_cases hempty : formatContentBlocks isOauth msg.content = []
  · rw [hempty] at h
    refine absurd ?_ hsynthetic
    rw [show unlessEmpty .user (syntheticResults dangling msg) = before ++ t :: after from h]
    exact List.mem_append_right _ List.mem_cons_self
  · rw [unlessEmpty_of_ne hempty] at h
    cases before with
    | nil =>
        obtain ⟨rfl, rfl⟩ := List.cons.inj h
        exact ⟨ht, rfl, rfl⟩
    | cons u before =>
        refine absurd ?_ hsynthetic
        rw [show unlessEmpty .user (syntheticResults dangling msg) = before ++ t :: after from
          (List.cons.inj h).2]
        exact List.mem_append_right _ List.mem_cons_self

/-- A message without a block that has a form gives nothing. -/
theorem formatMessage_eq_nil {dangling : List String} {msg : Message}
    (h : ∀ block ∈ msg.content, ¬IsFormatted block) : formatMessage isOauth dangling msg = [] := by
  have hempty : formatContentBlocks isOauth msg.content = [] :=
    not_not.mp fun hne => by
      obtain ⟨block, hblock, hform⟩ :=
        (formatContentBlocks_texts isOauth msg.content).nonempty.mp hne
      exact h block hblock hform
  have huses : msg.content.filterMap toolUseId = [] := List.filterMap_eq_nil_iff.mpr fun block hb =>
    by cases block <;> first | rfl | exact absurd trivial (h _ hb)
  have hcalls : callIds msg = [] := by
    rw [callIds, huses, ite_self]
  rw [formatMessage, hempty, syntheticResults_eq, unanswered, hcalls]
  rfl

theorem role_of_mem_formatMessage {dangling : List String} {msg : Message} {t : ApiMessage}
    (ht : t ∈ formatMessage isOauth dangling msg) (hrole : msg.role = .user) : t.role = .user := by
  rcases List.mem_append.mp ht with ht | ht
  · rw [(mem_unlessEmpty.mp ht).2]
    exact hrole
  · rw [(mem_unlessEmpty.mp ht).2]

/-- A run of assistant messages in which nothing follows a call that is never answered: its
messages, and then what is injected. -/
theorem exists_split_of_quiet {dangling : List String} {run : List Message}
    (hrun : ∀ m ∈ run, m.role = .assistant)
    (hquiet : ∀ front m back, run = front ++ m :: back → unanswered dangling m ≠ [] →
      ∀ n ∈ back, ∀ block ∈ n.content, ¬IsFormatted block) :
    ∃ said injected, run.flatMap (formatMessage isOauth dangling) = said ++ injected ∧
      (∀ t ∈ said, t.role = .assistant) ∧ ∀ t ∈ injected, t.role = .user := by
  induction run with
  | nil =>
      exact ⟨[], [], rfl, fun _ h => absurd h List.not_mem_nil,
        fun _ h => absurd h List.not_mem_nil⟩
  | cons m run ih =>
      have hmessage : ∀ t ∈ unlessEmpty m.role (formatContentBlocks isOauth m.content),
          t.role = .assistant := fun t ht => by
        rw [(mem_unlessEmpty.mp ht).2]
        exact hrun m List.mem_cons_self
      by_cases hm : unanswered dangling m = []
      · obtain ⟨said, injected, hsplit, hsaid, hinjected⟩ := ih
          (fun n hn => hrun n (.tail _ hn)) fun front n back heq => hquiet (m :: front) n back
            (by rw [heq]; rfl)
        refine ⟨unlessEmpty m.role (formatContentBlocks isOauth m.content) ++ said, injected, ?_,
          fun t ht => ?_, hinjected⟩
        · rw [List.flatMap_cons, hsplit, formatMessage, syntheticResults_eq, hm, List.append_assoc,
            List.append_assoc]
          rfl
        · exact (List.mem_append.mp ht).elim (hmessage t) (hsaid t)
      · have hrest : run.flatMap (formatMessage isOauth dangling) = [] :=
          List.flatMap_eq_nil_iff.mpr fun n hn =>
            formatMessage_eq_nil (hquiet [] m run rfl hm n hn)
        refine ⟨_, unlessEmpty .user (syntheticResults dangling m), ?_, hmessage, fun t ht => ?_⟩
        · rw [List.flatMap_cons, hrest, List.append_nil, formatMessage]
        · rw [(mem_unlessEmpty.mp ht).2]

/-- What stands behind the first message of such a run. -/
theorem exists_split_behind {dangling : List String} {msg : Message} {run : List Message}
    (hrun : ∀ m ∈ msg :: run, m.role = .assistant)
    (hquiet : ∀ front m back, msg :: run = front ++ m :: back → unanswered dangling m ≠ [] →
      ∀ n ∈ back, ∀ block ∈ n.content, ¬IsFormatted block) :
    ∃ said injected, unlessEmpty .user (syntheticResults dangling msg) ++
        run.flatMap (formatMessage isOauth dangling) = said ++ injected ∧
      (∀ t ∈ said, t.role = .assistant) ∧ ∀ t ∈ injected, t.role = .user := by
  by_cases hmsg : unanswered dangling msg = []
  · rw [syntheticResults_eq, hmsg]
    exact exists_split_of_quiet (fun m hm => hrun m (.tail _ hm))
      fun front m back heq => hquiet (msg :: front) m back (by rw [heq]; rfl)
  · have hrest : run.flatMap (formatMessage isOauth dangling) = [] :=
      List.flatMap_eq_nil_iff.mpr fun n hn =>
        formatMessage_eq_nil (hquiet [] msg run rfl hmsg n hn)
    refine ⟨[], _, by rw [hrest, List.append_nil, List.nil_append],
      fun t ht => absurd ht List.not_mem_nil, fun t ht => ?_⟩
    rw [(mem_unlessEmpty.mp ht).2]

/-! ### An admissible request -/

theorem results_keys (messages : List Message) :
    (results messages).map Prod.fst = toolResultIds messages := by
  rw [results, toolResultIds, List.map_flatMap]
  refine List.flatMap_congr fun msg _ => ?_
  rw [List.map_filterMap]
  refine List.filterMap_congr fun block _ => ?_
  cases block <;> rfl

theorem answerTo_of_mem (hresults : (toolResultIds messages).Nodup) {msg : Message}
    (hmsg : msg ∈ messages) {id content : String} {isError : Option Bool}
    (hblock : .toolResult id content isError ∈ msg.content) :
    answerTo messages id = (sanitizeToolId id, content, isError.getD false) := by
  have hmem : (id, content, isError.getD false) ∈ results messages :=
    List.mem_flatMap.mpr ⟨msg, hmsg, List.mem_filterMap.mpr ⟨_, hblock, rfl⟩⟩
  rw [← results_keys] at hresults
  rw [answerTo, Keyed.lookup_eq_some_of_mem hresults hmem]

theorem answerTo_of_notMem {id : String} (hid : id ∉ toolResultIds messages) :
    answerTo messages id = (sanitizeToolId id, interruptedText, true) := by
  have hnone : (results messages).lookup id = none := by
    rw [List.lookup_eq_none_iff]
    intro e he
    rw [← results_keys] at hid
    exact bne_iff_ne.mpr fun heq => hid (List.mem_map.mpr ⟨e, he, heq.symm⟩)
  rw [answerTo, hnone]

theorem answerTo_fst (messages : List Message) (id : String) :
    (answerTo messages id).1 = sanitizeToolId id := by
  rw [answerTo]
  split <;> rfl

theorem answer_syntheticResult {id : String} {content : List ApiContentBlock}
    (hid : syntheticResult id ∈ content) :
    (sanitizeToolId id, interruptedText, true) ∈ content.filterMap ApiContentBlock.answer :=
  List.mem_filterMap.mpr ⟨_, hid, rfl⟩

/-- The call a block of an assistant message makes. -/
theorem exists_call_of_mem {msg : Message} (hrole : msg.role = .assistant) {id name : String}
    {input : Value} {cacheControl : Option CacheControlParam}
    (hblock : .toolUse id name input cacheControl ∈ formatContentBlocks isOauth msg.content) :
    ∃ raw ∈ callIds msg, sanitizeToolId raw = id := by
  have hmem : id ∈ (formatContentBlocks isOauth msg.content).filterMap ApiContentBlock.callId :=
    List.mem_filterMap.mpr ⟨_, hblock, rfl⟩
  rw [(formatContentBlocks_texts isOauth msg.content).calls] at hmem
  obtain ⟨raw, hraw, hid⟩ := List.mem_map.mp hmem
  exact ⟨raw, by rwa [callIds, if_pos hrole], hid⟩

/-- **Each call is answered** when no call has two results and no run of assistant messages is
interrupted. -/
theorem WellFormed.replied (h : WellFormed messages) (hresults : (toolResultIds messages).Nodup)
    (hquiet : ¬Interrupted messages) : Replied .assistant .user (AnsweredBy messages)
      (messages.flatMap (formatMessage isOauth (dangling messages))) := by
  refine replied_iff.mpr fun before t after hsplit ht block hblock id name input cc heq => ?_
  subst heq
  obtain ⟨l₁, msg, l₂, b, c, hmsgs, hmsg, -, rfl⟩ := exists_of_flatMap_eq hsplit
  obtain ⟨hrole, hcontent, rfl⟩ := formatMessage_split hmsg ht
  rw [hcontent] at hblock
  obtain ⟨raw, hraw, rfl⟩ := exists_call_of_mem hrole hblock
  have hmem : msg ∈ messages := by rw [hmsgs]; simp
  refine ⟨raw, mem_toolUseIds hmem hraw, rfl, ?_⟩
  -- No two results of the request are of one id, so one that is there is the only one.
  suffices hanswer : answerTo messages raw ∈ (reply .assistant .user
      (unlessEmpty .user (syntheticResults (dangling messages) msg) ++
        l₂.flatMap (formatMessage isOauth (dangling messages)))).filterMap
          ApiContentBlock.answer by
    have hnodup : (reading answerIds
        (messages.flatMap (formatMessage isOauth (dangling messages)))).Nodup :=
      h.nodup_answerIds hresults
    rw [hsplit, reading_append, reading_cons] at hnodup
    have hreply := (reading_reply_sublist (a := .assistant) (b := .user) answerIds _).nodup
      (List.nodup_append.mp (List.nodup_append.mp hnodup).2.1).2.1
    have hkeys : ∀ content : List ApiContentBlock, content.flatMap (answerIds .user) =
        (content.filterMap ApiContentBlock.answer).map Prod.fst := fun content => by
      rw [List.filterMap_eq_flatMap_toList, List.map_flatMap]
      rfl
    rw [hkeys] at hreply
    have hsingle := Keyed.filter_key_eq_singleton hreply hanswer
    rw [answerTo_fst] at hsingle
    exact hsingle
  by_cases hid : raw ∈ toolResultIds messages
  · -- Its result stands behind the run of assistant messages, and so does the reply.
    obtain ⟨start, caller, run, users, u, after', hmsgs', hcall, hcaller, hrun, husers, hu,
      content, isError, hresult⟩ := h.exists_caller hid
    obtain ⟨rfl, rfl, rfl⟩ := eq_of_nodup_flatMap h.nodup_callIds hmsgs hmsgs' hraw hcall
    have huMem : u ∈ messages := by rw [hmsgs]; simp
    have hrun' : ∀ m ∈ msg :: run, m.role = .assistant := fun m hm =>
      (List.mem_cons.mp hm).elim (fun heq => heq ▸ hrole) (hrun m)
    have hquiet' : ∀ front m back, msg :: run = front ++ m :: back →
        unanswered (dangling messages) m ≠ [] →
        ∀ n ∈ back, ∀ block ∈ n.content, ¬IsFormatted block := by
      intro front m back heq hne n hn block hblock hform
      obtain ⟨id, hid'⟩ := List.exists_mem_of_ne_nil _ hne
      obtain ⟨hcall', hdangling⟩ := mem_unanswered.mp hid'
      refine hquiet ⟨l₁, front, m, back, users ++ u :: after', ?_, ?_, ⟨id, ?_, ?_⟩,
        ⟨msg, ?_, raw, ?_, hid⟩, n, hn, block, hblock, hform⟩
      · rw [hmsgs, ← heq]
        simp
      · rwa [← heq]
      · exact (callIds_sublist m).mem hcall'
      · exact (mem_dangling.mp hdangling).2
      · cases front with
        | nil => exact List.mem_singleton.mpr (List.cons.inj heq).1
        | cons m' front =>
            rw [(List.cons.inj heq).1]
            exact List.mem_cons_self
      · exact (callIds_sublist msg).mem hraw
    obtain ⟨said, injected, hsaid, hsaidRole, hinjected⟩ := @exists_split_behind isOauth
      (dangling messages) msg run hrun' hquiet'
    have hformatted : formatContentBlocks isOauth u.content ≠ [] :=
      (formatContentBlocks_texts isOauth u.content).nonempty.mpr ⟨_, hresult, trivial⟩
    have hturn : ⟨u.role, formatContentBlocks isOauth u.content⟩ ∈
        injected ++ (users ++ [u]).flatMap (formatMessage isOauth (dangling messages)) := by
      refine List.mem_append_right _ (List.mem_flatMap.mpr ⟨u, by simp, ?_⟩)
      exact List.mem_append_left _ (mem_unlessEmpty.mpr ⟨hformatted, rfl⟩)
    have hbehind : unlessEmpty .user (syntheticResults (dangling messages) msg) ++
        (run ++ users ++ u :: after').flatMap (formatMessage isOauth (dangling messages)) =
          said ++
            ((injected ++ (users ++ [u]).flatMap (formatMessage isOauth (dangling messages))) ++
              after'.flatMap (formatMessage isOauth (dangling messages))) := by
      rw [List.append_cons, List.flatMap_append, List.append_assoc run, List.flatMap_append,
        ← List.append_assoc, ← List.append_assoc, hsaid]
      simp only [List.append_assoc]
    rw [hbehind, reply_append_of_eq hsaidRole, reply_append_of_forall (by decide) (fun t ht => ?_)
      (List.ne_nil_of_mem hturn), answerTo_of_mem hresults huMem hresult]
    · rw [List.filterMap_append]
      refine List.mem_append_left _ (List.mem_filterMap.mpr ?_)
      have hanswer : (sanitizeToolId raw, content, isError.getD false) ∈
          (formatContentBlocks isOauth u.content).filterMap ApiContentBlock.answer := by
        rw [(formatContentBlocks_texts isOauth u.content).answers]
        exact List.mem_filterMap.mpr ⟨_, hresult, rfl⟩
      obtain ⟨api, hapi, hget⟩ := List.mem_filterMap.mp hanswer
      exact ⟨api, List.mem_flatMap.mpr ⟨_, hturn, hapi⟩, hget⟩
    · rcases List.mem_append.mp ht with ht | ht
      · exact hinjected t ht
      · obtain ⟨m, hm, ht⟩ := List.mem_flatMap.mp ht
        refine role_of_mem_formatMessage ht ?_
        rcases List.mem_append.mp hm with hm | hm
        · exact husers m hm
        · rwa [List.mem_singleton.mp hm]
  · -- A call that is never answered: its result is injected.
    have hinjected : syntheticResult raw ∈ syntheticResults (dangling messages) msg := by
      rw [syntheticResults_eq]
      exact List.mem_map_of_mem (mem_unanswered.mpr
        ⟨hraw, mem_dangling.mpr ⟨mem_toolUseIds hmem hraw, hid⟩⟩)
    have hne : syntheticResults (dangling messages) msg ≠ [] := List.ne_nil_of_mem hinjected
    rw [unlessEmpty_of_ne hne, reply_append_of_forall (by decide)
      (fun u hu => by rw [List.mem_singleton.mp hu]) (List.cons_ne_nil _ _),
      answerTo_of_notMem hid]
    exact answer_syntheticResult (List.mem_append_left _ (by simpa using hinjected))

/-! ### Where calls and results stand in the request -/

theorem mem_answerIds {role : Role} {content : List ApiContentBlock} {id : String}
    {result : ToolResultContent} {isError : Bool}
    (hblock : .toolResult id result isError ∈ content) : id ∈ content.flatMap (answerIds role) :=
  List.mem_flatMap.mpr ⟨_, hblock, List.mem_singleton.mpr rfl⟩

theorem exists_of_mem_answerIds {role : Role} {content : List ApiContentBlock} {id : String}
    (hid : id ∈ content.flatMap (answerIds role)) :
    ∃ result isError, .toolResult id result isError ∈ content := by
  obtain ⟨block, hblock, hid⟩ := List.mem_flatMap.mp hid
  cases block with
  | toolResult id' result isError =>
      cases List.mem_singleton.mp hid
      exact ⟨_, _, hblock⟩
  | _ => cases hid

theorem mem_callsOf {msg : ApiMessage} (hrole : msg.role = .assistant) {id name : String}
    {input : Value} {cacheControl : Option CacheControlParam}
    (hblock : .toolUse id name input cacheControl ∈ msg.content) :
    id ∈ msg.content.flatMap (callsOf msg.role) := by
  rw [hrole]
  exact List.mem_flatMap.mpr ⟨_, hblock, List.mem_singleton.mpr rfl⟩

theorem exists_of_mem_callsOf {msg : ApiMessage} {id : String}
    (hid : id ∈ msg.content.flatMap (callsOf msg.role)) :
    msg.role = .assistant ∧ ∃ name input cacheControl,
      .toolUse id name input cacheControl ∈ msg.content := by
  obtain ⟨block, hblock, hid⟩ := List.mem_flatMap.mp hid
  rw [callsOf] at hid
  split at hid
  · cases block with
    | toolUse id' name input cacheControl =>
        cases List.mem_singleton.mp hid
        exact ⟨‹_›, _, _, _, hblock⟩
    | _ => cases hid
  · cases hid

theorem WellFormed.nodup_request_calls (h : WellFormed messages) :
    (reading callsOf (formatMessages messages isOauth)).Nodup := by
  rw [formatMessages_eq, reading_merge]
  exact h.nodup_calls

/-- The call of each result of the request. -/
theorem WellFormed.exists_call (h : WellFormed messages) {id : String}
    (hid : id ∈ reading answerIds (formatMessages messages isOauth)) :
    id ∈ reading callsOf (formatMessages messages isOauth) := by
  rw [formatMessages_eq, reading_merge, reading_flatMap] at hid ⊢
  obtain ⟨msg, hmsg, hid⟩ := List.mem_flatMap.mp hid
  rw [reading_answerIds] at hid
  obtain ⟨raw, hraw, rfl⟩ := List.mem_map.mp hid
  have hcaller : ∃ caller ∈ messages, raw ∈ callIds caller := by
    rcases List.mem_append.mp hraw with hraw | hraw
    · obtain ⟨start, caller, run, users, u, after, hsplit, hcall, -⟩ :=
        h.exists_caller (List.mem_flatMap.mpr ⟨msg, hmsg, hraw⟩)
      exact ⟨caller, by rw [hsplit]; simp, hcall⟩
    · exact ⟨msg, hmsg, (mem_unanswered.mp hraw).1⟩
  obtain ⟨caller, hmem, hcall⟩ := hcaller
  refine List.mem_flatMap.mpr ⟨caller, hmem, ?_⟩
  rw [reading_calls]
  exact List.mem_map_of_mem hcall

theorem formatMessages_alternates (messages : List Message) (isOauth : Bool) :
    (formatMessages messages isOauth).IsChain fun t u => t.role ≠ u.role := by
  rw [formatMessages_eq]
  exact merge_alternates _

theorem formatMessages_said (messages : List Message) (isOauth : Bool) :
    ((formatMessages messages isOauth).flatMap fun msg =>
      msg.content.flatMap ApiContentBlock.said) =
        messages.flatMap fun msg => msg.content.flatMap blockSaid := by
  have hread : reading saidOf (formatMessages messages isOauth) =
      messages.flatMap fun msg => msg.content.flatMap blockSaid := by
    rw [formatMessages_eq, reading_merge, reading_flatMap]
    exact List.flatMap_congr fun msg _ => reading_said isOauth _ msg
  exact hread

/-- A request is admissible when no call has two results and no run is interrupted. -/
theorem WellFormed.admissible (h : WellFormed messages) (hresults : (toolResultIds messages).Nodup)
    (hquiet : ¬Interrupted messages) : Admissible messages (formatMessages messages isOauth) := by
  have hanswered : Replied .assistant .user (AnsweredBy messages)
      (formatMessages messages isOauth) := by
    rw [formatMessages_eq]
    exact (replied_merge _).mpr (h.replied hresults hquiet)
  have halternates := formatMessages_alternates messages isOauth
  refine ⟨halternates, fun before msg after hsplit hrole id name input cc hblock =>
    answered_of_replied halternates hanswered hsplit hrole hblock, ?_, formatMessages_said ..⟩
  intro before msg after hsplit id result isError hblock
  -- The call of the result, and the results behind that call.
  have hmem : id ∈ reading callsOf (formatMessages messages isOauth) := by
    refine h.exists_call (mem_reading.mpr ⟨msg, by rw [hsplit]; simp, _, hblock, ?_⟩)
    exact List.mem_singleton.mpr rfl
  obtain ⟨caller, hcaller, hcall⟩ := List.mem_flatMap.mp hmem
  obtain ⟨hassistant, name, input, cc, huse⟩ := exists_of_mem_callsOf hcall
  obtain ⟨start, behind, hsplit'⟩ := List.append_of_mem hcaller
  obtain ⟨raw, -, -, answers, rest, rfl, -, hanswers⟩ :=
    answered_of_replied halternates hanswered hsplit' hassistant huse
  have hanswer : id ∈ answers.content.flatMap (answerIds answers.role) := by
    have hone : answerTo messages raw ∈ (answers.content.filterMap ApiContentBlock.answer).filter
        fun answer => answer.1 = id := by
      rw [hanswers]
      exact List.mem_cons_self
    obtain ⟨hone, hfst⟩ := List.mem_filter.mp hone
    obtain ⟨block, hblock', hget⟩ := List.mem_filterMap.mp hone
    cases block with
    | toolResult id' result' isError' =>
        rw [← of_decide_eq_true hfst, ← Option.some.inj hget]
        exact mem_answerIds hblock'
    | _ => cases hget
  have hnodup : (reading answerIds (formatMessages messages isOauth)).Nodup := by
    rw [formatMessages_eq, reading_merge]
    exact h.nodup_answerIds hresults
  rw [List.append_cons] at hsplit'
  obtain ⟨rfl, -, -⟩ := eq_of_nodup_flatMap hnodup hsplit hsplit' (mem_answerIds hblock) hanswer
  exact ⟨start, caller, name, input, cc, rfl, hassistant, huse⟩

/-! ### What an admissible request demands -/

/-- In an admissible request the results of a call stand in the message behind it. -/
theorem Admissible.eq_of_result (h : WellFormed messages)
    (ha : Admissible messages (formatMessages messages isOauth))
    {start behind before after : List ApiMessage} {caller msg : ApiMessage} {id : String}
    (hcaller : formatMessages messages isOauth = start ++ caller :: behind)
    (hcall : id ∈ caller.content.flatMap (callsOf caller.role))
    (hsplit : formatMessages messages isOauth = before ++ msg :: after)
    (hid : id ∈ msg.content.flatMap (answerIds msg.role)) : before = start ++ [caller] := by
  obtain ⟨result, isError, hblock⟩ := exists_of_mem_answerIds hid
  obtain ⟨start', caller', name, input, cc, rfl, hassistant, huse⟩ :=
    ha.called before msg after hsplit id result isError hblock
  rw [← List.append_cons] at hsplit
  obtain ⟨rfl, rfl, -⟩ := eq_of_nodup_flatMap h.nodup_request_calls hcaller hsplit hcall
    (mem_callsOf hassistant huse)
  rfl

/-- An admissible request has one result for each id. -/
theorem Admissible.nodup_answerIds (h : WellFormed messages)
    (ha : Admissible messages (formatMessages messages isOauth)) :
    (reading answerIds (formatMessages messages isOauth)).Nodup := by
  refine List.nodup_iff_count_le_one.mpr fun id => ?_
  by_cases hid : id ∈ reading answerIds (formatMessages messages isOauth)
  · obtain ⟨caller, hcaller, hcall⟩ := List.mem_flatMap.mp (h.exists_call hid)
    obtain ⟨hassistant, name, input, cc, huse⟩ := exists_of_mem_callsOf hcall
    obtain ⟨start, behind, hsplit⟩ := List.append_of_mem hcaller
    obtain ⟨raw, -, -, answers, rest, rfl, -, hanswers⟩ :=
      ha.answered start caller behind hsplit hassistant id name input cc huse
    have hbefore : id ∉ reading answerIds (start ++ [caller]) := fun hmem => by
      obtain ⟨msg, hmsg, hid'⟩ := List.mem_flatMap.mp hmem
      obtain ⟨b, a, hb⟩ := List.append_of_mem hmsg
      have heq := ha.eq_of_result h hsplit hcall
        (hsplit.trans (by rw [List.append_cons, hb, List.append_assoc, List.cons_append])) hid'
      rw [heq] at hb
      exact absurd (List.self_eq_append_right.mp hb) (List.cons_ne_nil _ _)
    have hbehind : id ∉ reading answerIds rest := fun hmem => by
      obtain ⟨msg, hmsg, hid'⟩ := List.mem_flatMap.mp hmem
      obtain ⟨b, a, rfl⟩ := List.append_of_mem hmsg
      have heq := ha.eq_of_result h hsplit hcall
        (hsplit.trans (by simp : _ = (start ++ caller :: answers :: b) ++ msg :: a)) hid'
      have hlength := congrArg List.length heq
      simp at hlength
    have hone : (answers.content.flatMap (answerIds answers.role)).count id = 1 := by
      have hkeys : answers.content.flatMap (answerIds answers.role) =
          (answers.content.filterMap ApiContentBlock.answer).map Prod.fst := by
        rw [List.filterMap_eq_flatMap_toList, List.map_flatMap]
        rfl
      rw [hkeys, List.count_eq_countP, List.countP_map, List.countP_eq_length_filter]
      refine Eq.trans (congrArg List.length ?_) (congrArg List.length hanswers)
      exact List.filter_congr fun answer _ => beq_eq_decide ..
    rw [hsplit, List.append_cons, reading_append, reading_cons, List.count_append,
      List.count_append, List.count_eq_zero.mpr hbefore, List.count_eq_zero.mpr hbehind, hone]
  · rw [List.count_eq_zero.mpr hid]
    exact Nat.zero_le 1

theorem Admissible.results_nodup (h : WellFormed messages)
    (ha : Admissible messages (formatMessages messages isOauth)) :
    (toolResultIds messages).Nodup := by
  have hids := ha.nodup_answerIds h
  rw [formatMessages_eq, reading_merge, reading_flatMap,
    List.flatMap_congr fun msg _ => reading_answerIds isOauth _ msg, ← List.map_flatMap] at hids
  exact (List.Sublist.flatMap_right messages fun msg _ => List.sublist_append_left _ _).nodup
    (List.Nodup.of_map _ hids)

/-- What is injected behind assistant messages answers no call that has a result. -/
theorem WellFormed.not_injected (h : WellFormed messages) {l : List Message}
    (hl : ∀ m ∈ l, m ∈ messages ∧ m.role = .assistant) {t : ApiMessage}
    (ht : t ∈ l.flatMap (formatMessage isOauth (dangling messages))) (hrole : t.role = .user)
    {raw : String} (hraw : raw ∈ toolResultIds messages) :
    ∀ answer ∈ t.content.filterMap ApiContentBlock.answer, answer.1 ≠ sanitizeToolId raw := by
  intro answer hanswer heq
  obtain ⟨m, hm, ht⟩ := List.mem_flatMap.mp ht
  obtain ⟨hmem, hassistant⟩ := hl m hm
  rcases List.mem_append.mp ht with ht | ht
  · rw [(mem_unlessEmpty.mp ht).2] at hrole
    exact absurd (hassistant.symm.trans hrole) (by decide)
  · rw [(mem_unlessEmpty.mp ht).2, syntheticResults_eq] at hanswer
    obtain ⟨block, hblock, hget⟩ := List.mem_filterMap.mp hanswer
    obtain ⟨id, hid, rfl⟩ := List.mem_map.mp hblock
    rw [← Option.some.inj hget] at heq
    obtain ⟨-, hdangling⟩ := mem_unanswered.mp hid
    obtain ⟨huse, hnone⟩ := mem_dangling.mp hdangling
    rw [h.sanitize_inj huse (h.result_mem hraw) heq] at hnone
    exact hnone hraw

/-- In an admissible request no run is interrupted. -/
theorem Admissible.not_interrupted (h : WellFormed messages)
    (ha : Admissible messages (formatMessages messages isOauth)) : ¬Interrupted messages := by
  rintro ⟨before, front, msg, back, after, hmsgs, hrun, ⟨id, huse, hid⟩,
    ⟨caller, hcaller, raw, hraw, hresult⟩, n, hn, block, hblock, hform⟩
  have hreplied : Replied .assistant .user (AnsweredBy messages)
      (messages.flatMap (formatMessage isOauth (dangling messages))) := by
    rw [← replied_merge, ← formatMessages_eq]
    exact ha.replied
  -- The caller, what is injected behind it, and the message that goes on.
  obtain ⟨f₁, f₂, hfront⟩ := List.append_of_mem hcaller
  obtain ⟨k₁, k₂, rfl⟩ := List.append_of_mem hn
  have hinRun : ∀ m, m ∈ front ++ [msg] ∨ m ∈ k₁ ++ n :: k₂ → m ∈ messages ∧ m.role = .assistant :=
    fun m hm => by
      have hm' : m ∈ front ++ msg :: (k₁ ++ n :: k₂) := by
        rw [List.append_cons, List.mem_append]
        exact hm
      refine ⟨?_, hrun m hm'⟩
      rw [hmsgs]
      exact List.mem_append_left _ (List.mem_append_right _ hm')
  have hcallerRole : caller.role = .assistant := (hinRun caller (.inl hcaller)).2
  have hnRole : n.role = .assistant := (hinRun n (.inr (by simp))).2
  have hcalls : sanitizeToolId raw ∈
      (formatContentBlocks isOauth caller.content).filterMap ApiContentBlock.callId := by
    rw [(formatContentBlocks_texts isOauth caller.content).calls]
    exact List.mem_map_of_mem hraw
  obtain ⟨use, huseMem, huseId⟩ := List.mem_filterMap.mp hcalls
  have hcallerNe : formatContentBlocks isOauth caller.content ≠ [] := List.ne_nil_of_mem huseMem
  have hnNe : formatContentBlocks isOauth n.content ≠ [] :=
    (formatContentBlocks_texts isOauth n.content).nonempty.mpr ⟨block, hblock, hform⟩
  let pieces : List Message → List ApiMessage :=
    List.flatMap (formatMessage isOauth (dangling messages))
  let between : List ApiMessage :=
    unlessEmpty .user (syntheticResults (dangling messages) caller) ++ pieces (f₂ ++ k₁)
  have hsplit : messages.flatMap (formatMessage isOauth (dangling messages)) =
      pieces (before ++ f₁) ++ ⟨.assistant, formatContentBlocks isOauth caller.content⟩ ::
        (between ++ ⟨.assistant, formatContentBlocks isOauth n.content⟩ ::
          (unlessEmpty .user (syntheticResults (dangling messages) n) ++
            pieces (k₂ ++ after))) := by
    have hordered : messages = (before ++ f₁) ++ caller :: ((f₂ ++ k₁) ++ n :: (k₂ ++ after)) := by
      rw [hmsgs, List.append_cons front, hfront]
      simp
    rw [show messages.flatMap (formatMessage isOauth (dangling messages)) = pieces messages
      from rfl]
    conv_lhs => rw [hordered]
    simp only [pieces, between, List.flatMap_append, List.flatMap_cons, formatMessage,
      hcallerRole, hnRole, unlessEmpty_of_ne hcallerNe, unlessEmpty_of_ne hnNe, List.append_assoc,
      List.cons_append, List.nil_append]
  -- What is injected behind `msg` ends the reply before the run goes on.
  have hinjected : ∃ u ∈ between, u.role ≠ .assistant := by
    have hne : syntheticResults (dangling messages) msg ≠ [] := by
      rw [syntheticResults_eq]
      refine List.ne_nil_of_mem (List.mem_map_of_mem (mem_unanswered.mpr ⟨?_, mem_dangling.mpr
        ⟨List.mem_flatMap.mpr ⟨msg, (hinRun msg (.inl (by simp))).1, huse⟩, hid⟩⟩))
      rwa [callIds, if_pos (hinRun msg (.inl (by simp))).2]
    refine ⟨⟨.user, syntheticResults (dangling messages) msg⟩, ?_, Role.noConfusion⟩
    rcases List.eq_nil_or_concat f₂ with rfl | ⟨f₂, last, rfl⟩
    · obtain ⟨-, hlast⟩ := List.append_inj' hfront rfl
      obtain rfl : msg = caller := List.singleton_inj.mp hlast
      exact List.mem_append_left _ (mem_unlessEmpty.mpr ⟨hne, rfl⟩)
    · rw [List.concat_eq_append, ← List.cons_append, ← List.append_assoc] at hfront
      obtain ⟨-, hlast⟩ := List.append_inj' hfront rfl
      refine List.mem_append_right _ (List.mem_flatMap.mpr ⟨msg, ?_, ?_⟩)
      · rw [List.singleton_inj.mp hlast]
        simp
      · exact List.mem_append_right _ (mem_unlessEmpty.mpr ⟨hne, rfl⟩)
  cases use with
  | toolUse id' name input cc =>
      cases huseId
      obtain ⟨raw', -, -, hanswers⟩ :=
        replied_iff.mp hreplied _ _ _ hsplit rfl _ huseMem _ _ _ _ rfl
      have hreply : reply .assistant .user (between ++
          ⟨.assistant, formatContentBlocks isOauth n.content⟩ ::
            (unlessEmpty .user (syntheticResults (dangling messages) n) ++ pieces (k₂ ++ after))) =
          reply .assistant .user between :=
        reply_append_of_exists (a := Role.assistant) (b := Role.user)
          (t := ⟨Role.assistant, formatContentBlocks isOauth n.content⟩) Role.noConfusion rfl
          hinjected _
      rw [hreply] at hanswers
      have hone : answerTo messages raw' ∈ ((reply .assistant .user between).filterMap
          ApiContentBlock.answer).filter fun answer => answer.1 = sanitizeToolId raw := by
        rw [hanswers]
        exact List.mem_cons_self
      obtain ⟨hone, hfst⟩ := List.mem_filter.mp hone
      obtain ⟨api, hapi, hget⟩ := List.mem_filterMap.mp hone
      obtain ⟨t, ht, htRole, hapi⟩ := mem_reply hapi
      have hpieces : t ∈ pieces (caller :: (f₂ ++ k₁)) := by
        rcases List.mem_append.mp ht with ht | ht
        · exact List.mem_append_left _ (List.mem_append_right _ ht)
        · exact List.mem_append_right _ ht
      refine h.not_injected (fun m hm => hinRun m ?_) hpieces htRole hresult _
        (List.mem_filterMap.mpr ⟨api, hapi, hget⟩) (of_decide_eq_true hfst)
      rcases List.mem_cons.mp hm with rfl | hm
      · exact .inl hcaller
      · rcases List.mem_append.mp hm with hm | hm
        · exact .inl (by rw [hfront]; simp [hm])
        · exact .inr (List.mem_append_left _ hm)
  | _ => cases huseId

/-- **A request is admissible** exactly when no call has two results and no run of assistant
messages is interrupted. -/
theorem formatMessages_admissible_iff (messages : List Message) (isOauth : Bool)
    (h : WellFormed messages) : Admissible messages (formatMessages messages isOauth) ↔
      (toolResultIds messages).Nodup ∧ ¬Interrupted messages :=
  ⟨fun ha => ⟨ha.results_nodup h, ha.not_interrupted h⟩,
    fun hcondition => h.admissible hcondition.1 hcondition.2⟩

end Answers

/-- Two calls, one of them never answered, and the result of the other. -/
def parallelCalls : List Message :=
  [⟨.assistant, [.toolUse "a" "read" "\x7b\x7d" none, .toolUse "b" "ls" "\x7b\x7d" none],
      none, none⟩,
    ⟨.user, [.toolResult "a" "text" none, .image "image/png" "AA==", .text "label" none],
      none, none⟩]

/-- The same, with a message of the assistant between them. -/
def goesOn : List Message :=
  [⟨.assistant, [.toolUse "a" "read" "\x7b\x7d" none, .toolUse "b" "ls" "\x7b\x7d" none],
      none, none⟩,
    ⟨.assistant, [.text "and then" none], none, none⟩,
    ⟨.user, [.toolResult "a" "text" none], none, none⟩]

/-- A run of assistant messages and the message that answers it. -/
theorem wellFormed_of_run {run : List Message} {answers : Message}
    (hnodup : ((toolUseIds (run ++ [answers])).map sanitizeToolId).Nodup)
    (hrun : ∀ m ∈ run, m.role = .assistant ∧ m.content.filterMap toolResultId = [])
    (huser : answers.role = .user)
    (hcalled : ∀ id ∈ answers.content.filterMap toolResultId,
      ∃ m ∈ run, id ∈ m.content.filterMap toolUseId) : WellFormed (run ++ [answers]) := by
  refine ⟨hnodup, fun before msg after hsplit id content isError hblock => ?_⟩
  have hid : id ∈ msg.content.filterMap toolResultId := List.mem_filterMap.mpr ⟨_, hblock, rfl⟩
  rcases List.eq_nil_or_concat after with rfl | ⟨after, last, rfl⟩
  · obtain ⟨rfl, hlast⟩ := List.append_inj' hsplit rfl
    obtain rfl := List.singleton_inj.mp hlast
    obtain ⟨caller, hcaller, hcall⟩ := hcalled id hid
    obtain ⟨start, behind, rfl⟩ := List.append_of_mem hcaller
    exact ⟨huser, start, caller, behind, [], (List.append_nil _).symm, (hrun caller hcaller).1,
      hcall, fun m hm => (hrun m (by simp [hm])).1, fun m hm => absurd hm List.not_mem_nil⟩
  · rw [List.concat_eq_append, ← List.cons_append, ← List.append_assoc] at hsplit
    obtain ⟨rfl, -⟩ := List.append_inj' hsplit rfl
    rw [(hrun msg (by simp)).2] at hid
    cases hid

theorem formatMessages_admissible_iff_parallelCalls :
    Admissible parallelCalls (formatMessages parallelCalls false) ↔
      (toolResultIds parallelCalls).Nodup ∧ ¬Interrupted parallelCalls :=
  formatMessages_admissible_iff parallelCalls false
    (@wellFormed_of_run [_] _ (by decide +kernel) (by decide +kernel) rfl (by decide +kernel))

/-- The result of `a` stands two messages behind its call. -/
theorem goesOn_not_admissible :
    WellFormed goesOn ∧ ¬Admissible goesOn (formatMessages goesOn false) := by
  refine ⟨@wellFormed_of_run [_, _] _ (by decide +kernel) (by decide +kernel) rfl
    (by decide +kernel), fun h => ?_⟩
  have hrequest : formatMessages goesOn false =
      [] ++ ⟨.assistant,
          [.toolUse "a" "read" "\x7b\x7d" none, .toolUse "b" "ls" "\x7b\x7d" none]⟩ ::
        [⟨.user, [.toolResult "b" (.text interruptedText) true]⟩,
          ⟨.assistant, [.text "and then" none]⟩,
          ⟨.user, [.toolResult "a" (.text "text") false]⟩] := by
    decide +kernel
  obtain ⟨raw, -, -, answers, rest, hafter, -, hanswers⟩ :=
    h.answered _ _ _ hrequest rfl "a" "read" "\x7b\x7d" none List.mem_cons_self
  obtain ⟨rfl, -⟩ := List.cons.inj hafter
  have hnone : ([ApiContentBlock.toolResult "b" (.text interruptedText) true].filterMap
      ApiContentBlock.answer).filter (fun answer => answer.1 = "a") = [] := by decide
  exact List.cons_ne_nil _ _ (hanswers.symm.trans hnone)

end Jcode.Provider.Anthropic
