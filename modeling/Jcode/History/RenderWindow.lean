import Jcode.History.Types
import Jcode.Support.Text

/-!
# History — the window on compacted messages

Of the messages that a compaction covers, the last ones are shown: as many as are asked for, and back
to the start of a turn.  A prefix that is short, or of few turns, is shown whole.

* `WellPlaced`: a start that shows enough, and begins a turn.
* `render_window_spec`: the start is well placed and its counts are right; of a prefix that is cut it
  is the greatest such start, and to ask for more never gives a later one.
* `shown_whole`: a prefix that is shown whole may have a later start that is well placed.
-/

namespace Jcode.History

open Chat Rust

/-! ### Which messages are shown -/

/-- The text of the first block that has one. -/
def firstText (msg : StoredMessage) : Option String :=
  msg.content.findSome? fun | .text text _ => some text | _ => none

def isInternalSystemReminder (msg : StoredMessage) : Bool :=
  (firstText msg).any fun text => startsWith (trimStart text) "<system-reminder>"

def TODO_HILL_CLIMBABILITY_CONTINUATION_MESSAGE : String :=
  "Your hill-climbability is not high enough. First, improve the goal's objective and feedback " ++
  "loop so progress can be measured across iterations. Then call the todo tool again with the " ++
  "revised goal before continuing the task. The goal is to create a strong feedback loop you can " ++
  "iterate against."

def TODO_OWNERSHIP_CONTINUATION_MESSAGE : String :=
  "Your end-to-end ownership is not high enough to complete this goal. Take ownership of the full " ++
  "user outcome, not just the immediate implementation. Follow the work through every relevant " ++
  "integration and runtime path, resolve consequential gaps, validate the complete workflow, and " ++
  "finish the necessary follow-through."

def TODO_COMPLETION_CONTINUATION_MESSAGE : String :=
  "Your completion confidence is missing or not high enough. Validate the completed result more " ++
  "thoroughly, address any remaining issues, and then reassess whether the work is ready to finalize."

def TODO_CONFIDENCE_SPIKE_CONTINUATION_MESSAGE : String :=
  "Your completion confidence rose too sharply to count as independently validated. Recheck the " ++
  "completed result using concrete evidence, address any issues you find, and then reassess " ++
  "whether the work is ready to finalize."

def LEGACY_TODO_CONFIDENCE_SUMMARY_PREFIX : String :=
  "All todos are done. Todo confidence summary:"

def isAutoPokeMessage (message : String) : Bool :=
  let trimmed := trim message
  (startsWith trimmed "You have " && contains trimmed " incomplete todo" &&
      endsWith trimmed "update the todo tool.") ||
    startsWith trimmed TODO_HILL_CLIMBABILITY_CONTINUATION_MESSAGE ||
    startsWith trimmed TODO_OWNERSHIP_CONTINUATION_MESSAGE ||
    startsWith trimmed TODO_COMPLETION_CONTINUATION_MESSAGE ||
    startsWith trimmed TODO_CONFIDENCE_SPIKE_CONTINUATION_MESSAGE ||
    startsWith trimmed LEGACY_TODO_CONFIDENCE_SUMMARY_PREFIX

def isAutoPokeUserMessage (msg : StoredMessage) : Bool :=
  msg.role = .user && msg.displayRole.isNone && (firstText msg).any isAutoPokeMessage

def storedMessageRendersVisibleMessage (msg : StoredMessage) : Bool :=
  !isInternalSystemReminder msg && msg.content.any fun
    | .text text _ => !text.isEmpty
    | .toolResult .. => true
    | _ => false

def storedMessageIsUserTurn (msg : StoredMessage) : Bool :=
  msg.role = .user && msg.displayRole.isNone && !isAutoPokeUserMessage msg &&
    storedMessageRendersVisibleMessage msg

/-! ### The window -/

def COMPACTED_HISTORY_MIN_RENDERABLE_TO_TRUNCATE : ℕ := 80
def COMPACTED_HISTORY_MIN_TURNS_TO_TRUNCATE : ℕ := 5

structure RenderedCompactedHistoryInfo where
  totalMessages : ℕ
  visibleMessages : ℕ
  remainingMessages : ℕ
  hiddenUserPrompts : ℕ
  deriving DecidableEq, Repr

section
variable {α : Type*} (p : α → Bool) (xs : List α)

/-- The loop from the end: the place where `visible` have been seen. -/
def countBack (visible : ℕ) : ℕ → ℕ → ℕ
  | 0, _ => xs.length
  | idx + 1, seen =>
      if xs[idx]?.any p then
        if visible ≤ seen + 1 then idx else countBack visible idx (seen + 1)
      else countBack visible idx seen

/-- The loop back to a boundary, or to the first place. -/
def snapBack : ℕ → ℕ
  | 0 => 0
  | boundary + 1 => if xs[boundary + 1]?.any p then boundary + 1 else snapBack boundary

end

/-- The prefix is shown whole: it is short, or of few turns. -/
def mustShowAll (compactedPrefix : List StoredMessage) : Bool :=
  compactedPrefix.countP storedMessageRendersVisibleMessage <
      COMPACTED_HISTORY_MIN_RENDERABLE_TO_TRUNCATE ||
    compactedPrefix.countP storedMessageIsUserTurn ≤ COMPACTED_HISTORY_MIN_TURNS_TO_TRUNCATE

/-- The start, before it is moved to the start of a turn. -/
def renderStart (compactedPrefix : List StoredMessage) (requestedVisible : ℕ) : ℕ :=
  let totalRenderable := compactedPrefix.countP storedMessageRendersVisibleMessage
  let visibleRenderable :=
    if mustShowAll compactedPrefix then totalRenderable else min requestedVisible totalRenderable
  if visibleRenderable = 0 then compactedPrefix.length
  else if totalRenderable - visibleRenderable = 0 then 0
  else
    countBack storedMessageRendersVisibleMessage compactedPrefix visibleRenderable
      compactedPrefix.length 0

/-- The start of the turn. -/
def snapStart (compactedPrefix : List StoredMessage) (start : ℕ) : ℕ :=
  if 0 < start ∧ start < compactedPrefix.length then
    let boundary := snapBack storedMessageIsUserTurn compactedPrefix start
    if compactedPrefix[boundary]?.any storedMessageIsUserTurn then boundary else start
  else start

def compactedHistoryRenderWindow (messages : List StoredMessage)
    (compactedCount requestedVisible : ℕ) : ℕ × RenderedCompactedHistoryInfo :=
  let compactedCount := min compactedCount messages.length
  let compactedPrefix := messages.take compactedCount
  let start := snapStart compactedPrefix (renderStart compactedPrefix requestedVisible)
  let totalRenderable := compactedPrefix.countP storedMessageRendersVisibleMessage
  let visibleRenderable :=
    (compactedPrefix.drop start).countP storedMessageRendersVisibleMessage
  (start,
    { totalMessages := totalRenderable
      visibleMessages := visibleRenderable
      remainingMessages := totalRenderable - visibleRenderable
      hiddenUserPrompts := (compactedPrefix.take start).countP storedMessageIsUserTurn })

/-! ### The loops -/

section
variable {α : Type*} {p : α → Bool} {xs : List α}

theorem countP_drop {i : ℕ} (hi : i < xs.length) :
    (xs.drop i).countP p = (xs.drop (i + 1)).countP p + if xs[i]?.any p then 1 else 0 := by
  rw [List.drop_eq_getElem_cons hi, List.countP_cons, List.getElem?_eq_getElem hi, Option.any_some]

theorem countP_drop_antitone {i j : ℕ} (h : i ≤ j) :
    (xs.drop j).countP p ≤ (xs.drop i).countP p := by
  have hdrop : xs.drop j = (xs.drop i).drop (j - i) := by rw [List.drop_drop, Nat.add_sub_cancel' h]
  rw [hdrop]
  exact (List.drop_sublist _ _).countP_le

/-- **The backward count** ends at the last place from which enough are seen. -/
theorem countBack_spec {visible idx seen : ℕ} (hseen : seen = (xs.drop idx).countP p)
    (hidx : idx ≤ xs.length) (hlt : seen < visible) (hle : visible ≤ xs.countP p) :
    (xs.drop (countBack p xs visible idx seen)).countP p = visible ∧
      ∀ start, visible ≤ (xs.drop start).countP p → start ≤ countBack p xs visible idx seen := by
  induction idx generalizing seen with
  | zero =>
      rw [List.drop_zero] at hseen
      omega
  | succ idx ih =>
      have hcount := countP_drop (p := p) hidx
      rw [countBack]
      split
      · rename_i hp
        rw [if_pos hp, ← hseen] at hcount
        split
        · refine ⟨by omega, fun start hstart => ?_⟩
          by_contra hgt
          have hle : idx + 1 ≤ start := by omega
          have hmono : (xs.drop start).countP p ≤ (xs.drop (idx + 1)).countP p :=
            countP_drop_antitone hle
          omega
        · exact ih hcount.symm (by omega) (by omega)
      · rename_i hp
        rw [if_neg hp, ← hseen] at hcount
        exact ih hcount.symm (by omega) hlt

/-- **The boundary** is the last one, if there is any. -/
theorem snapBack_spec (start : ℕ) :
    snapBack p xs start ≤ start ∧
      ∀ i ≤ start, xs[i]?.any p → i ≤ snapBack p xs start ∧ xs[snapBack p xs start]?.any p := by
  induction start with
  | zero =>
      refine ⟨le_rfl, fun i hi hboundary => ?_⟩
      obtain rfl := Nat.le_zero.mp hi
      exact ⟨le_rfl, hboundary⟩
  | succ start ih =>
      rw [snapBack]
      split
      · rename_i hp
        exact ⟨le_rfl, fun i hi _ => ⟨hi, hp⟩⟩
      · rename_i hp
        refine ⟨ih.1.trans (Nat.le_succ _), fun i hi hboundary => ?_⟩
        have hne : i ≠ start + 1 := by
          rintro rfl
          exact hp hboundary
        exact ih.2 i (by omega) hboundary

end

/-! ### Where the window starts -/

/-- A user turn begins there. -/
def TurnAt (compactedPrefix : List StoredMessage) (i : ℕ) : Prop :=
  compactedPrefix[i]?.any storedMessageIsUserTurn = true

/-- A start that shows enough, and at which a turn begins if any begins before. -/
structure WellPlaced (compactedPrefix : List StoredMessage) (requestedVisible start : ℕ) : Prop where
  le : start ≤ compactedPrefix.length
  visible : min requestedVisible (compactedPrefix.countP storedMessageRendersVisibleMessage) ≤
    (compactedPrefix.drop start).countP storedMessageRendersVisibleMessage
  turn : start = 0 ∨ start = compactedPrefix.length ∨ TurnAt compactedPrefix start ∨
    ∀ i ≤ start, ¬ TurnAt compactedPrefix i

section
variable {compactedPrefix : List StoredMessage} {start requestedVisible : ℕ}

theorem WellPlaced.of_le {requestedVisible' : ℕ} (hle : requestedVisible ≤ requestedVisible')
    (h : WellPlaced compactedPrefix requestedVisible' start) :
    WellPlaced compactedPrefix requestedVisible start :=
  ⟨h.le, (min_le_min_right _ hle).trans h.visible, h.turn⟩

theorem snapStart_le : snapStart compactedPrefix start ≤ start := by
  unfold snapStart
  split
  · dsimp only
    split
    · exact (snapBack_spec start).1
    · exact le_rfl
  · exact le_rfl

/-- After the move a turn begins at the start, or none does before it. -/
theorem snapStart_turn (hle : start ≤ compactedPrefix.length) :
    snapStart compactedPrefix start = 0 ∨
      snapStart compactedPrefix start = compactedPrefix.length ∨
      TurnAt compactedPrefix (snapStart compactedPrefix start) ∨
      ∀ i ≤ snapStart compactedPrefix start, ¬ TurnAt compactedPrefix i := by
  unfold snapStart
  split
  · dsimp only
    split
    · rename_i hturn
      exact .inr (.inr (.inl hturn))
    · rename_i hturn
      refine .inr (.inr (.inr fun i hi hat => ?_))
      exact hturn ((snapBack_spec start).2 i hi hat).2
  · omega

/-- No start that is well placed is later, if it is not before the move. -/
theorem WellPlaced.le_snapStart {start' : ℕ} (h : WellPlaced compactedPrefix requestedVisible start')
    (hle : start' ≤ start) : start' ≤ snapStart compactedPrefix start := by
  unfold snapStart
  split
  · rename_i hinside
    dsimp only
    split
    · rename_i hturn
      rcases h.turn with hzero | hend | hat | hnone
      · exact hzero ▸ Nat.zero_le _
      · omega
      · exact ((snapBack_spec start).2 start' hle hat).1
      · by_contra hlt
        exact hnone _ (Nat.le_of_not_le hlt) hturn
    · exact hle
  · exact hle

/-- The prefix is cut. -/
def Cut (compactedPrefix : List StoredMessage) (requestedVisible : ℕ) : Prop :=
  mustShowAll compactedPrefix = false ∧
    requestedVisible < compactedPrefix.countP storedMessageRendersVisibleMessage

/-- A prefix that is not cut is shown from its first message, or has none to show. -/
theorem renderStart_of_not_cut (h : ¬ Cut compactedPrefix requestedVisible) :
    renderStart compactedPrefix requestedVisible =
      if compactedPrefix.countP storedMessageRendersVisibleMessage = 0 then compactedPrefix.length
      else 0 := by
  have hall : (if mustShowAll compactedPrefix then
      compactedPrefix.countP storedMessageRendersVisibleMessage
      else min requestedVisible (compactedPrefix.countP storedMessageRendersVisibleMessage)) =
      compactedPrefix.countP storedMessageRendersVisibleMessage := by
    split
    · rfl
    · rename_i hshow
      exact Nat.min_eq_right (Nat.le_of_not_lt fun hlt => h ⟨Bool.eq_false_iff.mpr hshow, hlt⟩)
  unfold renderStart
  dsimp only
  rw [hall, Nat.sub_self, if_pos rfl]

/-- A prefix that is cut is shown from the last message from which enough are seen. -/
theorem renderStart_of_cut (h : Cut compactedPrefix requestedVisible) :
    renderStart compactedPrefix requestedVisible ≤ compactedPrefix.length ∧
      (compactedPrefix.drop (renderStart compactedPrefix requestedVisible)).countP
        storedMessageRendersVisibleMessage = requestedVisible ∧
      ∀ start' ≤ compactedPrefix.length, requestedVisible ≤ (compactedPrefix.drop start').countP
        storedMessageRendersVisibleMessage →
        start' ≤ renderStart compactedPrefix requestedVisible := by
  obtain ⟨hshow, hlt⟩ := h
  have hnot : ¬ compactedPrefix.countP storedMessageRendersVisibleMessage - requestedVisible = 0 := by
    omega
  unfold renderStart
  dsimp only
  rw [hshow, if_neg Bool.false_ne_true, Nat.min_eq_left hlt.le, if_neg hnot]
  split
  · rename_i hzero
    refine ⟨le_rfl, ?_, fun start' hle _ => hle⟩
    rw [List.drop_length, hzero]
    rfl
  · rename_i hpos
    have hdrop : 0 = (compactedPrefix.drop compactedPrefix.length).countP
        storedMessageRendersVisibleMessage := by
      rw [List.drop_length]
      rfl
    obtain ⟨hcount, hlast⟩ :=
      countBack_spec hdrop le_rfl (Nat.pos_of_ne_zero hpos) hlt.le
    refine ⟨?_, hcount, fun start' _ => hlast start'⟩
    by_contra hgt
    rw [List.drop_of_length_le (Nat.le_of_not_le hgt)] at hcount
    exact hpos hcount.symm

/-- **The start is well placed**, and of a prefix that is cut no other is later. -/
theorem snapStart_renderStart_wellPlaced :
    WellPlaced compactedPrefix requestedVisible
        (snapStart compactedPrefix (renderStart compactedPrefix requestedVisible)) ∧
      (Cut compactedPrefix requestedVisible → ∀ start',
        WellPlaced compactedPrefix requestedVisible start' →
        start' ≤ snapStart compactedPrefix (renderStart compactedPrefix requestedVisible)) := by
  have hsnap := @snapStart_le compactedPrefix (renderStart compactedPrefix requestedVisible)
  by_cases hcut : Cut compactedPrefix requestedVisible
  · obtain ⟨hle, hcount, hlast⟩ := renderStart_of_cut hcut
    refine ⟨⟨hsnap.trans hle, ?_, snapStart_turn hle⟩, fun _ start' h => ?_⟩
    · have hmono := @countP_drop_antitone _ storedMessageRendersVisibleMessage compactedPrefix _ _
        hsnap
      rw [hcount] at hmono
      exact (min_le_left _ _).trans hmono
    · have hvisible := h.visible
      rw [Nat.min_eq_left hcut.2.le] at hvisible
      exact h.le_snapStart (hlast start' h.le hvisible)
  · have hstart := renderStart_of_not_cut hcut
    refine ⟨?_, fun h => absurd h hcut⟩
    rw [hstart]
    split
    · rename_i hzero
      rw [snapStart, if_neg fun h => lt_irrefl _ h.2]
      exact ⟨le_rfl, by rw [hzero, Nat.min_zero]; exact Nat.zero_le _, .inr (.inl rfl)⟩
    · rw [snapStart, if_neg fun h => lt_irrefl _ h.1]
      exact ⟨Nat.zero_le _, min_le_right _ _, .inl rfl⟩

/-- To ask for more never gives a later start. -/
theorem snapStart_renderStart_antitone {requestedVisible' : ℕ}
    (hle : requestedVisible ≤ requestedVisible') :
    snapStart compactedPrefix (renderStart compactedPrefix requestedVisible') ≤
      snapStart compactedPrefix (renderStart compactedPrefix requestedVisible) := by
  obtain ⟨hplaced, hlast⟩ := @snapStart_renderStart_wellPlaced compactedPrefix requestedVisible
  obtain ⟨hplaced', -⟩ := @snapStart_renderStart_wellPlaced compactedPrefix requestedVisible'
  by_cases hcut : Cut compactedPrefix requestedVisible
  · exact hlast hcut _ (hplaced'.of_le hle)
  · have hcut' : ¬ Cut compactedPrefix requestedVisible' :=
      fun h => hcut ⟨h.1, hle.trans_lt h.2⟩
    rw [renderStart_of_not_cut hcut, renderStart_of_not_cut hcut']

end

/-- **The window on compacted messages.** -/
theorem render_window_spec (messages : List StoredMessage) (compactedCount requestedVisible : ℕ) :
    let compactedPrefix := messages.take (min compactedCount messages.length)
    let totalRenderable := compactedPrefix.countP storedMessageRendersVisibleMessage
    let (start, info) := compactedHistoryRenderWindow messages compactedCount requestedVisible
    WellPlaced compactedPrefix requestedVisible start ∧
      info.totalMessages = totalRenderable ∧
      info.visibleMessages =
        (compactedPrefix.drop start).countP storedMessageRendersVisibleMessage ∧
      info.remainingMessages =
        (compactedPrefix.take start).countP storedMessageRendersVisibleMessage ∧
      info.visibleMessages + info.remainingMessages = totalRenderable ∧
      info.hiddenUserPrompts = (compactedPrefix.take start).countP storedMessageIsUserTurn ∧
      (Cut compactedPrefix requestedVisible → ∀ start',
        WellPlaced compactedPrefix requestedVisible start' → start' ≤ start) ∧
      (¬ Cut compactedPrefix requestedVisible →
        start = if totalRenderable = 0 then compactedPrefix.length else 0) ∧
      ∀ requestedVisible' ≥ requestedVisible,
        (compactedHistoryRenderWindow messages compactedCount requestedVisible').1 ≤ start := by
  dsimp only [compactedHistoryRenderWindow]
  set compactedPrefix := messages.take (min compactedCount messages.length)
  obtain ⟨hplaced, hlast⟩ := @snapStart_renderStart_wellPlaced compactedPrefix requestedVisible
  set start := snapStart compactedPrefix (renderStart compactedPrefix requestedVisible) with hstart
  have hsum : (compactedPrefix.take start).countP storedMessageRendersVisibleMessage +
      (compactedPrefix.drop start).countP storedMessageRendersVisibleMessage =
      compactedPrefix.countP storedMessageRendersVisibleMessage := by
    rw [← List.countP_append, List.take_append_drop]
  refine ⟨hplaced, rfl, rfl, by omega, by omega, rfl, hlast, fun hcut => ?_, fun _ hle => ?_⟩
  · rw [hstart, renderStart_of_not_cut hcut]
    split
    · rw [snapStart, if_neg fun h => lt_irrefl _ h.2]
    · rw [snapStart, if_neg fun h => lt_irrefl _ h.1]
  · exact snapStart_renderStart_antitone hle

/-- An answer, and the result of a tool. -/
def answerAndResult : List StoredMessage :=
  [⟨"m1", .assistant, [.text "hello" none], none, none, none, none⟩,
    ⟨"m2", .user, [.toolResult "t1" "ok" none], none, none, none, none⟩]

/-- **A prefix that is shown whole**: one message is asked for, both are shown, and a later start
would be well placed. -/
theorem shown_whole :
    (compactedHistoryRenderWindow answerAndResult 2 1).1 = 0 ∧
      WellPlaced (answerAndResult.take (min 2 answerAndResult.length)) 1 1 := by
  refine ⟨by decide +kernel, Nat.le_succ 1, by decide +kernel, .inr (.inr (.inl ?_))⟩
  show TurnAt answerAndResult 1
  unfold TurnAt
  decide +kernel

end Jcode.History
