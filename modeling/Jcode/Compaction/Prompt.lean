import Jcode.Compaction.Core

/-!
# Compaction — Prompt

The prompt for a summary has a bound, and a conversation that is too long for it is cut.  What is
put behind the cut, the notice, a separator and the prompt itself, is longer than the slack that is
left for it, so a prompt that is cut does not keep the bound.

* `truncateStrBoundary_spec`: a cut is between characters, and close to where it is asked for.
* `prompt_bounded_iff`: the prompt keeps the bound exactly when nothing is cut.
-/

namespace Jcode.Compaction

/-! ### Cuts -/

@[simp] theorem len_append (s t : String) : len (s ++ t) = len s + len t :=
  String.utf8ByteSize_append ..

theorem len_ofList_cons (c : Char) (cs : List Char) :
    len (String.ofList (c :: cs)) = c.utf8Size + len (String.ofList cs) := by
  rw [len, len, String.utf8ByteSize_ofList, String.utf8ByteSize_ofList, String.utf8Len_cons,
    Nat.add_comm]

theorem takeBytes_spec (n : ℕ) (cs : List Char) : ∃ rest, cs = takeBytes n cs ++ rest ∧
    len (String.ofList (takeBytes n cs)) ≤ n ∧
    (rest = [] ∨ n < len (String.ofList (takeBytes n cs)) + 4) := by
  induction cs generalizing n with
  | nil => exact ⟨[], rfl, Nat.zero_le _, .inl rfl⟩
  | cons c cs ih =>
      rw [takeBytes]
      split
      · next hfits =>
          obtain ⟨rest, heq, hle, hclose⟩ := ih (n - c.utf8Size)
          refine ⟨rest, congrArg (c :: ·) heq, ?_, hclose.imp_right fun hlt => ?_⟩
          · rw [len_ofList_cons]
            omega
          · rw [len_ofList_cons]
            omega
      · next hlarge =>
          have hsize := c.utf8Size_le_four
          refine ⟨c :: cs, rfl, Nat.zero_le _, .inr ?_⟩
          rw [String.ofList_nil]
          exact Nat.lt_of_lt_of_le (Nat.lt_of_not_le hlarge) (hsize.trans (Nat.le_add_left _ _))

/-- **A cut is between characters**, and less than a character before the byte it is asked for. -/
theorem truncateStrBoundary_spec (value : String) (maxBytes : ℕ) : ∃ rest,
    value = truncateStrBoundary value maxBytes ++ rest ∧
    len (truncateStrBoundary value maxBytes) ≤ maxBytes ∧
    (rest = "" ∨ maxBytes < len (truncateStrBoundary value maxBytes) + 4) := by
  rw [truncateStrBoundary]
  split
  · next hfits => exact ⟨"", String.append_empty.symm, hfits, .inl rfl⟩
  · obtain ⟨rest, heq, hle, hclose⟩ := takeBytes_spec maxBytes value.toList
    refine ⟨String.ofList rest, ?_, hle, hclose.imp_left fun hnil => ?_⟩
    · rw [← String.ofList_append, ← heq, String.ofList_toList]
    · rw [hnil, String.ofList_nil]

/-! ### The prompt -/

/-- What stands between a conversation that is cut and the prompt. -/
def cutNotice : String := "\n\n... [earlier conversation truncated to fit context window]\n"

theorem len_cutNotice : len cutNotice = 61 := by decide

theorem len_separator : len "\n\n---\n\n" = 7 := by decide

/-- **The prompt keeps its bound** exactly when the conversation fits and nothing is cut; it ends
with the request for a summary, and begins with the conversation up to a character. -/
theorem prompt_bounded_iff (messages : List Message) (existingSummary : Option Summary)
    {maxPromptChars : ℕ} (hmax : len SUMMARY_PROMPT + 50 < maxPromptChars) :
    let conversationText := buildCompactionConversationText messages existingSummary
    let prompt := buildCompactionPrompt messages existingSummary maxPromptChars
    (len prompt ≤ maxPromptChars ↔
      len conversationText + (len SUMMARY_PROMPT + 50) ≤ maxPromptChars) ∧
    ∃ kept rest notice, conversationText = kept ++ rest ∧ prompt = kept ++ notice ++ SUMMARY_PROMPT := by
  intro conversationText prompt
  by_cases hcut : maxPromptChars < len conversationText + (len SUMMARY_PROMPT + 50)
  · have hprompt : prompt = truncateStrBoundary conversationText
        (maxPromptChars - (len SUMMARY_PROMPT + 50)) ++ cutNotice ++ "\n\n---\n\n" ++
          SUMMARY_PROMPT := by
      simp only [prompt, buildCompactionPrompt]
      rw [if_pos ⟨hcut, hmax⟩]
      rfl
    obtain ⟨rest, heq, hle, hclose⟩ :=
      truncateStrBoundary_spec conversationText (maxPromptChars - (len SUMMARY_PROMPT + 50))
    refine ⟨?_, _, rest, cutNotice ++ "\n\n---\n\n", heq, ?_⟩
    · refine iff_of_false ?_ (Nat.not_le_of_lt hcut)
      have hnear : maxPromptChars - (len SUMMARY_PROMPT + 50) < len (truncateStrBoundary
          conversationText (maxPromptChars - (len SUMMARY_PROMPT + 50))) + 4 := by
        rcases hclose with rfl | hclose
        · rw [String.append_empty] at heq
          rw [← heq]
          omega
        · exact hclose
      rw [hprompt, len_append, len_append, len_append, len_cutNotice, len_separator]
      omega
    · rw [hprompt, String.append_assoc, String.append_assoc, String.append_assoc,
        String.append_assoc]
  · have hprompt : prompt = conversationText ++ "\n\n---\n\n" ++ SUMMARY_PROMPT := by
      simp only [prompt, buildCompactionPrompt]
      rw [if_neg fun h => hcut h.1]
    refine ⟨?_, conversationText, "", "\n\n---\n\n", String.append_empty.symm, hprompt⟩
    refine iff_of_true ?_ (Nat.le_of_not_lt hcut)
    rw [hprompt, len_append, len_append, len_separator]
    omega

theorem prompt_bounded_iff_nil :
    let prompt := buildCompactionPrompt [] none 10000
    (len prompt ≤ 10000 ↔
      len (buildCompactionConversationText [] none) + (len SUMMARY_PROMPT + 50) ≤ 10000) ∧
    ∃ kept rest notice, buildCompactionConversationText [] none = kept ++ rest ∧
      prompt = kept ++ notice ++ SUMMARY_PROMPT :=
  prompt_bounded_iff [] none (by decide +kernel)

/-- A message of one letter. -/
def shortMessage : Message := { role := .user, content := [.text "a"], position := 0 }

/-- **A prompt that is cut is too long.** -/
theorem cut_prompt_too_long :
    len SUMMARY_PROMPT + 50 < len SUMMARY_PROMPT + 51 ∧
    len (buildCompactionPrompt [shortMessage] none (len SUMMARY_PROMPT + 51)) =
      len SUMMARY_PROMPT + 69 := by
  decide +kernel

end Jcode.Compaction
