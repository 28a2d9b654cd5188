import Jcode.Provider.AnthropicRepair

/-!
# Provider — Anthropic prompt cache

`add_message_cache_breakpoint`: in each of the two newest assistant messages of a request, the last block
that is a text or a call is marked, and what comes before a marker is read from the cache in the next
turn.  A user message that is added behind the conversation, as a memory is, becomes a message of its own
or a part of the last user message, which is behind every marker.

* `formatMessages_concat`: what a user message at the end does to the request.
* `cache_markers_unmoved`: it moves no marker, and changes nothing before one.
-/

namespace Jcode.Provider.Anthropic

open Jcode.Chat Turns

/-! ### The markers -/

def CacheControlParam.ephemeral (cacheTtl1h : Bool) : CacheControlParam :=
  ⟨"ephemeral", if cacheTtl1h then some "1h" else none⟩

/-- Mark the first block that can be marked. -/
def markFirst (cacheTtl1h : Bool) : List ApiContentBlock → List ApiContentBlock
  | [] => []
  | .text text _ :: rest => .text text (some (.ephemeral cacheTtl1h)) :: rest
  | .toolUse id name input _ :: rest =>
      .toolUse id name input (some (.ephemeral cacheTtl1h)) :: rest
  | block :: rest => block :: markFirst cacheTtl1h rest

/-- Mark the last block that can be marked. -/
def markMessage (cacheTtl1h : Bool) (msg : ApiMessage) : ApiMessage :=
  { msg with content := (markFirst cacheTtl1h msg.content.reverse).reverse }

/-- The two newest assistant messages, the newest first. -/
def assistantIndices (messages : List ApiMessage) : List ℕ :=
  ((messages.zipIdx.reverse.filter fun entry => entry.1.role = .assistant).map Prod.snd).take 2

def addMessageCacheBreakpoint (messages : List ApiMessage) (cacheTtl1h : Bool) : List ApiMessage :=
  if messages.length < 3 then messages
  else
    (assistantIndices messages).foldl
      (fun messages idx => messages.modify idx (markMessage cacheTtl1h)) messages

def ApiContentBlock.isMarked : ApiContentBlock → Bool
  | .text _ cacheControl | .toolUse _ _ _ cacheControl => cacheControl.isSome
  | _ => false

/-- Where the markers are: the message and the block. -/
def markersFrom (i : ℕ) : List ApiMessage → List (ℕ × ℕ)
  | [] => []
  | msg :: rest =>
      ((msg.content.zipIdx.filter fun block => block.1.isMarked).map fun block => (i, block.2)) ++
        markersFrom (i + 1) rest

def markers (messages : List ApiMessage) : List (ℕ × ℕ) := markersFrom 0 messages

/-- Nothing is marked. -/
def Unmarked (content : List ApiContentBlock) : Prop := ∀ block ∈ content, block.isMarked = false

/-! ### A formatted message has no marker -/

theorem unmarked_formatBlock (isOauth : Bool) {result : List ApiContentBlock} (h : Unmarked result)
    (block : ContentBlock) : Unmarked (formatBlock isOauth result block) := by
  have hpush : ∀ {api : ApiContentBlock}, api.isMarked = false → Unmarked (result ++ [api]) :=
    fun hapi => List.forall_mem_append.mpr ⟨h, List.forall_mem_singleton.mpr hapi⟩
  have hamend : ∀ {api : ApiContentBlock}, api.isMarked = false →
      Unmarked (result.dropLast ++ [api]) := fun hapi =>
    List.forall_mem_append.mpr
      ⟨fun b hb => h b (List.mem_of_mem_dropLast hb), List.forall_mem_singleton.mpr hapi⟩
  cases block with
  | text text cacheControl =>
      rw [formatBlock, formatText]
      split
      · split
        · exact hamend rfl
        · exact hpush rfl
      · exact hpush rfl
  | image mediaType data =>
      rw [formatBlock, formatImage]
      split
      · exact hamend rfl
      · exact hamend rfl
      · exact hpush rfl
  | anthropicThinking thinking signature => exact hpush rfl
  | toolUse id name input signature => exact hpush rfl
  | toolResult toolUseId content isError => exact hpush rfl
  | _ => exact h

theorem unmarked_formatContentBlocks (isOauth : Bool) (blocks : List ContentBlock) :
    Unmarked (formatContentBlocks isOauth blocks) := by
  rw [formatContentBlocks]
  suffices h : ∀ result, Unmarked result → Unmarked (blocks.foldl (formatBlock isOauth) result) from
    h [] (List.forall_mem_nil _)
  induction blocks with
  | nil => exact fun result h => h
  | cons block blocks ih => exact fun result h => ih _ (unmarked_formatBlock isOauth h block)

theorem unmarked_syntheticResults (dangling : List String) (msg : Message) :
    Unmarked (syntheticResults dangling msg) := by
  intro block hblock
  unfold syntheticResults at hblock
  split at hblock
  · obtain ⟨id, _, rfl⟩ := List.mem_map.mp hblock
    rfl
  · cases hblock

/-- A formatted request has no marker. -/
theorem unmarked_formatMessages (messages : List Message) (isOauth : Bool) :
    ∀ msg ∈ formatMessages messages isOauth, Unmarked msg.content := by
  have hreading : ∀ b ∈ reading (fun _ b => [b]) (formatMessages messages isOauth),
      b.isMarked = false := by
    rw [formatMessages_eq, reading_merge]
    intro b hb
    obtain ⟨t, ht, y, hy, hby⟩ := mem_reading.mp hb
    obtain rfl := List.mem_singleton.mp hby
    obtain ⟨msg, _, hmsg⟩ := List.mem_flatMap.mp ht
    obtain hmsg | hmsg := List.mem_append.mp hmsg
    · rw [(mem_unlessEmpty.mp hmsg).2] at hy
      exact unmarked_formatContentBlocks isOauth msg.content b hy
    · rw [(mem_unlessEmpty.mp hmsg).2] at hy
      exact unmarked_syntheticResults _ msg b hy
  exact fun msg hmsg b hb =>
    hreading b (mem_reading.mpr ⟨msg, hmsg, b, hb, List.mem_singleton_self b⟩)

/-! ### A user message at the end -/

/-- A message of the user that says only texts. -/
structure SaysOnlyTexts (msg : Message) : Prop where
  role : msg.role = .user
  texts : ∀ block ∈ msg.content, ∃ text cacheControl, block = .text text cacheControl ∧ text ≠ ""

section
variable {messages : List Message} {memory : Message}

theorem dangling_concat (h : SaysOnlyTexts memory) :
    dangling (messages ++ [memory]) = dangling messages := by
  have hquiet : ∀ f : ContentBlock → Option String, (∀ text cacheControl, f (.text text cacheControl) =
      none) → memory.content.filterMap f = [] := by
    intro f hf
    refine List.filterMap_eq_nil_iff.mpr fun block hblock => ?_
    obtain ⟨text, cacheControl, rfl, _⟩ := h.texts block hblock
    exact hf text cacheControl
  have huses : toolUseIds (messages ++ [memory]) = toolUseIds messages := by
    simp [toolUseIds, hquiet toolUseId fun _ _ => rfl]
  have hresults : toolResultIds (messages ++ [memory]) = toolResultIds messages := by
    simp [toolResultIds, hquiet toolResultId fun _ _ => rfl]
  rw [dangling, dangling, huses, hresults]

/-- **What a user message at the end does to the request**: only user messages at its end differ. -/
theorem formatMessages_concat (isOauth : Bool) (h : SaysOnlyTexts memory) :
    ∃ common rest rest', formatMessages messages isOauth = common ++ rest ∧
      formatMessages (messages ++ [memory]) isOauth = common ++ rest' ∧
      rest.length ≤ rest'.length ∧ ∀ msg ∈ rest ++ rest', msg.role = .user := by
  have hrequest : formatMessages (messages ++ [memory]) isOauth =
      (formatMessage isOauth (dangling messages) memory).foldl mergeMessage
        (formatMessages messages isOauth) := by
    simp only [formatMessages, dangling_concat h, List.flatMap_append, List.foldl_append,
      List.flatMap_cons, List.flatMap_nil, List.append_nil]
  have hmemory : formatMessage isOauth (dangling messages) memory =
      unlessEmpty .user (formatContentBlocks isOauth memory.content) := by
    simp [formatMessage, syntheticResults, h.role, unlessEmpty]
  rw [hrequest, hmemory, unlessEmpty]
  split
  · exact ⟨formatMessages messages isOauth, [], [], (List.append_nil _).symm,
      (List.append_nil _).symm, le_rfl, List.forall_mem_nil _⟩
  · rw [List.foldl_cons, List.foldl_nil, mergeMessage]
    generalize formatMessages messages isOauth = request
    obtain rfl | ⟨common, last, rfl⟩ := List.eq_nil_or_concat' request
    · exact ⟨[], [], [_], rfl, rfl, Nat.zero_le 1, by simp⟩
    · rw [List.getLast?_concat]
      dsimp only
      split
      · rename_i hrole
        rw [List.dropLast_concat]
        exact ⟨common, [last], [_], rfl, rfl, le_rfl, by simp [hrole]⟩
      · exact ⟨common ++ [last], [], [_], (List.append_nil _).symm, rfl, Nat.zero_le 1, by simp⟩

end

/-! ### Marking -/

section
variable {cacheTtl1h : Bool} {messages common rest : List ApiMessage}

/-- Messages of the user at the end are not looked at. -/
theorem assistantIndices_append (h : ∀ msg ∈ rest, msg.role = .user) :
    assistantIndices (common ++ rest) = assistantIndices common := by
  have hrest : (rest.zipIdx (0 + common.length)).reverse.filter
      (fun entry => decide (entry.1.role = .assistant)) = [] := by
    refine List.filter_eq_nil_iff.mpr fun entry hentry => ?_
    rw [h entry.1 (List.fst_mem_of_mem_zipIdx (List.mem_reverse.mp hentry))]
    decide
  rw [assistantIndices, assistantIndices, List.zipIdx_append, List.reverse_append,
    List.filter_append, hrest, List.nil_append]

theorem mem_assistantIndices {i : ℕ} (h : i ∈ assistantIndices messages) :
    ∃ msg, messages[i]? = some msg ∧ msg.role = .assistant := by
  obtain ⟨⟨msg, j⟩, hentry, rfl⟩ := List.mem_map.mp (List.mem_of_mem_take h)
  obtain ⟨hmem, hrole⟩ := List.mem_filter.mp hentry
  exact ⟨msg, List.mem_zipIdx_iff_getElem?.mp (List.mem_reverse.mp hmem), of_decide_eq_true hrole⟩

/-- The messages at the indices are marked. -/
def markAt (cacheTtl1h : Bool) (is : List ℕ) (messages : List ApiMessage) : List ApiMessage :=
  is.foldl (fun messages idx => messages.modify idx (markMessage cacheTtl1h)) messages

theorem markAt_append {is : List ℕ} (h : ∀ i ∈ is, i < common.length) :
    markAt cacheTtl1h is (common ++ rest) = markAt cacheTtl1h is common ++ rest := by
  induction is generalizing common with
  | nil => rfl
  | cons i is ih =>
      obtain ⟨hi, his⟩ := List.forall_mem_cons.mp h
      have hmodify : (common ++ rest).modify i (markMessage cacheTtl1h) =
          common.modify i (markMessage cacheTtl1h) ++ rest := by
        simp only [List.modify_eq_take_drop, List.take_append_of_le_length hi.le,
          List.drop_append_of_le_length hi.le, List.append_assoc]
        obtain ⟨msg, later, hdrop⟩ :=
          List.exists_cons_of_ne_nil (mt List.drop_eq_nil_iff.mp (Nat.not_le.mpr hi))
        rw [hdrop]
        rfl
      rw [markAt, List.foldl_cons, hmodify]
      exact ih fun j hj => by rw [List.length_modify]; exact his j hj

theorem getElem?_markAt_of_notMem {is : List ℕ} {i : ℕ} (h : i ∉ is) :
    (markAt cacheTtl1h is messages)[i]? = messages[i]? := by
  induction is generalizing messages with
  | nil => rfl
  | cons j is ih =>
      obtain ⟨hj, his⟩ := not_or.mp (fun hmem => h (List.mem_cons.mpr hmem))
      rw [markAt, List.foldl_cons, ← markAt, ih his, List.getElem?_modify_ne _ _ (Ne.symm hj)]

theorem role_markAt {is : List ℕ} (i : ℕ) :
    (markAt cacheTtl1h is messages)[i]?.map Turn.role = messages[i]?.map Turn.role := by
  induction is generalizing messages with
  | nil => rfl
  | cons j is ih =>
      rw [markAt, List.foldl_cons, ← markAt, ih, List.getElem?_modify]
      cases messages[i]? with
      | none => rfl
      | some msg =>
          refine congrArg some ?_
          dsimp only
          split <;> rfl

theorem countP_markFirst_le (content : List ApiContentBlock) :
    (markFirst cacheTtl1h content).countP ApiContentBlock.isMarked ≤
      content.countP ApiContentBlock.isMarked + 1 := by
  induction content with
  | nil => exact Nat.zero_le _
  | cons block content ih =>
      cases block with
      | text | toolUse =>
          rw [markFirst, List.countP_cons, List.countP_cons]
          split <;> split <;> omega
      | toolResult | thinking | image =>
          simp only [markFirst, List.countP_cons]
          omega

/-- How many markers there are. -/
def countMarkers (messages : List ApiMessage) : ℕ :=
  (messages.map fun msg => msg.content.countP ApiContentBlock.isMarked).sum

theorem countMarkers_modify_le (i : ℕ) :
    countMarkers (messages.modify i (markMessage cacheTtl1h)) ≤ countMarkers messages + 1 := by
  induction messages generalizing i with
  | nil => simp [countMarkers]
  | cons msg messages ih =>
      cases i with
      | zero =>
          have hmark := @countP_markFirst_le cacheTtl1h msg.content.reverse
          rw [List.countP_reverse] at hmark
          simp only [List.modify_zero_cons, countMarkers, List.map_cons, List.sum_cons, markMessage,
            List.countP_reverse]
          omega
      | succ i =>
          have hrest := ih i
          simp only [List.modify_succ_cons, countMarkers, List.map_cons, List.sum_cons] at hrest ⊢
          omega

theorem countMarkers_markAt_le (is : List ℕ) :
    countMarkers (markAt cacheTtl1h is messages) ≤ countMarkers messages + is.length := by
  induction is generalizing messages with
  | nil => exact le_rfl
  | cons i is ih =>
      have hone := @countMarkers_modify_le cacheTtl1h messages i
      have hrest := @ih (messages.modify i (markMessage cacheTtl1h))
      rw [markAt, List.foldl_cons, ← markAt, List.length_cons]
      omega

theorem length_markersFrom (i : ℕ) : (markersFrom i messages).length = countMarkers messages := by
  induction messages generalizing i with
  | nil => rfl
  | cons msg messages ih =>
      have hblocks : ((msg.content.zipIdx.filter fun block => block.1.isMarked).map
          fun block => (i, block.2)).length = msg.content.countP ApiContentBlock.isMarked := by
        have hfst : msg.content = msg.content.zipIdx.map Prod.fst := (List.zipIdx_map_fst 0 _).symm
        rw [List.length_map, ← List.countP_eq_length_filter]
        conv_rhs => rw [hfst, List.countP_map]
        rfl
      rw [markersFrom, List.length_append, hblocks, ih, countMarkers, countMarkers, List.map_cons,
        List.sum_cons]

theorem markersFrom_of_unmarked (i : ℕ) (h : ∀ msg ∈ rest, Unmarked msg.content) :
    markersFrom i rest = [] := by
  induction rest generalizing i with
  | nil => rfl
  | cons msg rest ih =>
      obtain ⟨hmsg, hrest⟩ := List.forall_mem_cons.mp h
      have hnone : msg.content.zipIdx.filter (fun block => block.1.isMarked) = [] := by
        refine List.filter_eq_nil_iff.mpr fun block hblock => ?_
        rw [hmsg block.1 (List.fst_mem_of_mem_zipIdx hblock)]
        exact Bool.false_ne_true
      rw [markersFrom, hnone]
      exact ih (i + 1) hrest

theorem markersFrom_append (i : ℕ) (h : ∀ msg ∈ rest, Unmarked msg.content) :
    markersFrom i (common ++ rest) = markersFrom i common := by
  induction common generalizing i with
  | nil => exact markersFrom_of_unmarked i h
  | cons msg common ih => rw [List.cons_append, markersFrom, markersFrom, ih]

theorem mem_markersFrom {i : ℕ} {m : ℕ × ℕ} (h : m ∈ markersFrom i messages) :
    i ≤ m.1 ∧ ∃ msg, messages[m.1 - i]? = some msg ∧ ¬ Unmarked msg.content := by
  induction messages generalizing i with
  | nil => cases h
  | cons msg messages ih =>
      rw [markersFrom] at h
      obtain h | h := List.mem_append.mp h
      · obtain ⟨⟨block, j⟩, hblock, rfl⟩ := List.mem_map.mp h
        obtain ⟨hmem, hmarked⟩ := List.mem_filter.mp hblock
        refine ⟨le_rfl, msg, by simp, fun hunmarked => ?_⟩
        rw [hunmarked block (List.fst_mem_of_mem_zipIdx hmem)] at hmarked
        cases hmarked
      · obtain ⟨hle, msg', hget, hmarked⟩ := ih h
        refine ⟨by omega, msg', ?_, hmarked⟩
        rw [show m.1 - i = (m.1 - (i + 1)) + 1 by omega, List.getElem?_cons_succ]
        exact hget

/-- The markers are in the part before the user messages at the end, which are as they were. -/
theorem addMessageCacheBreakpoint_append (hlength : 3 ≤ (common ++ rest).length)
    (hrest : ∀ msg ∈ rest, msg.role = .user) :
    addMessageCacheBreakpoint (common ++ rest) cacheTtl1h =
      markAt cacheTtl1h (assistantIndices common) common ++ rest := by
  rw [addMessageCacheBreakpoint, if_neg (Nat.not_lt.mpr hlength), assistantIndices_append hrest]
  refine markAt_append fun i hi => ?_
  obtain ⟨msg, hget, _⟩ := mem_assistantIndices hi
  exact (List.getElem?_eq_some_iff.mp hget).1

/-- A marker is in an assistant message. -/
theorem role_of_mem_markers (hunmarked : ∀ msg ∈ common, Unmarked msg.content) {m : ℕ × ℕ}
    (h : m ∈ markers (markAt cacheTtl1h (assistantIndices common) common)) :
    ∃ msg, (markAt cacheTtl1h (assistantIndices common) common)[m.1]? = some msg ∧
      msg.role = .assistant := by
  obtain ⟨_, msg, hget, hmarked⟩ := mem_markersFrom h
  rw [Nat.sub_zero] at hget
  by_cases hi : m.1 ∈ assistantIndices common
  · obtain ⟨msg', hget', hrole⟩ := mem_assistantIndices hi
    have hsame := @role_markAt cacheTtl1h common (assistantIndices common) m.1
    rw [hget, hget'] at hsame
    exact ⟨msg, hget, (Option.some.inj hsame).trans hrole⟩
  · rw [getElem?_markAt_of_notMem hi] at hget
    exact absurd (hunmarked msg (List.mem_of_getElem? hget)) hmarked

end

/-- **A memory at the end moves no marker.** -/
theorem cache_markers_unmoved (messages : List Message) (memory : Message) (isOauth cacheTtl1h : Bool)
    (hlength : 3 ≤ (formatMessages messages isOauth).length) (hmemory : SaysOnlyTexts memory) :
    let base := addMessageCacheBreakpoint (formatMessages messages isOauth) cacheTtl1h
    let extended :=
      addMessageCacheBreakpoint (formatMessages (messages ++ [memory]) isOauth) cacheTtl1h
    markers extended = markers base ∧ (markers base).length ≤ 2 ∧
      (∀ m ∈ markers base, ∃ msg, base[m.1]? = some msg ∧ msg.role = .assistant) ∧
      ∀ m ∈ markers base, ∀ k ≤ m.1, extended[k]? = base[k]? := by
  intro base extended
  obtain ⟨common, rest, rest', hbase, hextended, hle, hroles⟩ :=
    @formatMessages_concat messages memory isOauth hmemory
  obtain ⟨hrest, hrest'⟩ := List.forall_mem_append.mp hroles
  have hunmarked := unmarked_formatMessages messages isOauth
  have hunmarked' := unmarked_formatMessages (messages ++ [memory]) isOauth
  rw [hbase] at hlength hunmarked
  rw [hextended] at hunmarked'
  obtain ⟨hcommon, hrestUnmarked⟩ := List.forall_mem_append.mp hunmarked
  have hrestUnmarked' := (List.forall_mem_append.mp hunmarked').2
  have hlength' : 3 ≤ (common ++ rest').length := by
    rw [List.length_append] at hlength ⊢
    omega
  have hbase' : base = markAt cacheTtl1h (assistantIndices common) common ++ rest := by
    rw [← addMessageCacheBreakpoint_append hlength hrest, ← hbase]
  have hextended' : extended = markAt cacheTtl1h (assistantIndices common) common ++ rest' := by
    rw [← addMessageCacheBreakpoint_append hlength' hrest', ← hextended]
  have hmarkers : markers base = markers (markAt cacheTtl1h (assistantIndices common) common) := by
    rw [hbase']
    exact markersFrom_append 0 hrestUnmarked
  have hmarkers' : markers extended =
      markers (markAt cacheTtl1h (assistantIndices common) common) := by
    rw [hextended']
    exact markersFrom_append 0 hrestUnmarked'
  have hin : ∀ m ∈ markers base, m.1 < (markAt cacheTtl1h (assistantIndices common) common).length := by
    intro m hm
    obtain ⟨msg, hget, _⟩ := role_of_mem_markers hcommon (hmarkers ▸ hm)
    exact (List.getElem?_eq_some_iff.mp hget).1
  refine ⟨hmarkers'.trans hmarkers.symm, ?_, fun m hm => ?_, fun m hm k hk => ?_⟩
  · have hnone : countMarkers common = 0 := by
      rw [← length_markersFrom 0, markersFrom_of_unmarked 0 hcommon, List.length_nil]
    have hcount := @countMarkers_markAt_le cacheTtl1h common (assistantIndices common)
    have htwo : (assistantIndices common).length ≤ 2 := List.length_take_le 2 _
    rw [hmarkers, markers, length_markersFrom]
    omega
  · obtain ⟨msg, hget, hrole⟩ := role_of_mem_markers hcommon (hmarkers ▸ hm)
    refine ⟨msg, ?_, hrole⟩
    rw [hbase', List.getElem?_append_left (hin m hm)]
    exact hget
  · have hkin := hk.trans_lt (hin m hm)
    rw [hbase', hextended', List.getElem?_append_left hkin, List.getElem?_append_left hkin]

/-- A question, its answer, and the next question. -/
def recalled : List Message :=
  [⟨.user, [.text "hi" none], none, none⟩, ⟨.assistant, [.text "ok" none], none, none⟩,
    ⟨.user, [.text "go" none], none, none⟩]

theorem cache_markers_unmoved_recalled :
    markers (addMessageCacheBreakpoint
      (formatMessages (recalled ++ [⟨.user, [.text "memory" none], none, none⟩]) false) true) =
      markers (addMessageCacheBreakpoint (formatMessages recalled false) true) :=
  (cache_markers_unmoved recalled ⟨.user, [.text "memory" none], none, none⟩ false true (by decide)
    ⟨rfl, fun block hblock => ⟨"memory", none, List.mem_singleton.mp hblock, by decide⟩⟩).1

end Jcode.Provider.Anthropic
