import Jcode.Compaction.ToolPairs

/-!
# Compaction — Cutoff

The safe cutoff is the greatest one that is safe, and the halving search of a hard compaction loses
nothing: it tries to keep more turns first, and comes down to the greatest safe cutoff that keeps
two.

* `safeCompactionCutoff_greatest`: safe, and maximal.
* `hardCutoff_spec`: how the search ends.
* `hard_compact_drops_enough`: what a hard compaction drops, and when it refuses.
-/

namespace Jcode.Compaction

/-! ### The safe cutoff -/

theorem ToolScan.Tracks.closed_iff {scan : ToolScan} {l : List Message}
    (h : scan.Tracks (uses l) (results l)) : scan.missing.isEmpty ↔ Closed l := by
  refine ⟨h.closed, fun hclosed => List.isEmpty_iff.mpr ?_⟩
  refine List.eq_nil_iff_forall_not_mem.mpr fun id hmem => ?_
  obtain ⟨hresult, huse⟩ := (h.missing id).mp hmem
  exact huse (hclosed id hresult)

/-- The backward walk passes no index from which the messages are closed. -/
theorem le_growKept {scan : ToolScan} {kept before : List Message}
    (h : scan.Tracks (uses kept) (results kept)) {c : ℕ} (hc : c < before.length)
    (hclosed : Closed ((before.reverse ++ kept).drop c)) : c ≤ growKept scan before := by
  induction before generalizing scan kept with
  | nil => cases hc
  | cons msg before ih =>
      have hmsg : (scan.message msg).Tracks (uses (msg :: kept)) (results (msg :: kept)) := by
        simpa using h.message msg
      rw [List.reverse_cons, List.append_assoc, List.singleton_append] at hclosed
      rw [growKept]
      split
      · exact Nat.le_of_lt_succ hc
      · next hmissing =>
          have hne : c ≠ before.length := by
            rintro rfl
            rw [← List.length_reverse, List.drop_left] at hclosed
            exact hmissing (hmsg.closed_iff.mpr hclosed)
          exact ih hmsg (Nat.lt_of_le_of_ne (Nat.le_of_lt_succ hc) hne) hclosed

theorem growKept_le (scan : ToolScan) (before : List Message) :
    growKept scan before ≤ before.length := by
  induction before generalizing scan with
  | nil => exact Nat.le_refl _
  | cons msg before ih =>
      rw [growKept]
      split
      · exact Nat.le_succ _
      · exact (ih _).trans (Nat.le_succ _)

/-- **The safe cutoff is the greatest one that is safe**: from it on each result has its call, and
no later index up to the one that is asked for has that property. -/
theorem safeCompactionCutoff_greatest (messages : List Message) (initialCutoff : ℕ) :
    let c := safeCompactionCutoff messages initialCutoff
    c ≤ initialCutoff ∧ (c = 0 ∨ Closed (messages.drop c)) ∧
      ∀ c' ≤ min initialCutoff messages.length, Closed (messages.drop c') → c' ≤ c := by
  refine ⟨?_, closed_drop_safeCompactionCutoff messages initialCutoff, fun c' hc' hclosed => ?_⟩
  · rw [safeCompactionCutoff]
    split
    · exact Nat.min_le_left _ _
    · refine (growKept_le _ _).trans ?_
      rw [List.length_reverse, List.length_take]
      exact (Nat.min_le_left _ _).trans (Nat.min_le_left _ _)
  · have hempty : (⟨[], []⟩ : ToolScan).Tracks [] [] := ⟨fun _ => .rfl, fun _ => by simp⟩
    have hscan := hempty.foldl (messages.drop (min initialCutoff messages.length))
    rw [List.append_nil, List.append_nil] at hscan
    rw [safeCompactionCutoff]
    split
    · exact hc'
    · next hmissing =>
        have hne : c' ≠ min initialCutoff messages.length := by
          rintro rfl
          exact hmissing (hscan.closed_iff.mpr hclosed)
        refine le_growKept hscan ?_ ?_
        · rw [List.length_reverse, List.length_take, Nat.min_eq_left (Nat.min_le_right _ _)]
          exact Nat.lt_of_le_of_ne hc' hne
        · rwa [List.reverse_reverse, List.take_append_drop]

/-! ### Hard compaction -/

namespace CompactionManager

/-- **How the search ends**: with a safe cutoff that keeps some number of turns, at least two, and
fits, or with the one that keeps two. -/
theorem hardCutoff_spec (active : List Message) (tokenBudget : ℕ) {turns : ℕ}
    (hturns : MIN_TURNS_TO_KEEP ≤ turns) : ∃ keep, MIN_TURNS_TO_KEEP ≤ keep ∧
      hardCutoff active tokenBudget turns = safeCompactionCutoff active (active.length - keep) ∧
      ((0 < hardCutoff active tokenBudget turns ∧
        remainingSuffixChars active (hardCutoff active tokenBudget turns) / CHARS_PER_TOKEN ≤
          tokenBudget) ∨ keep = MIN_TURNS_TO_KEEP) := by
  induction turns using Nat.strongRecOn with
  | ind turns ih =>
      rw [hardCutoff]
      split
      · next hfits => exact ⟨turns, hturns, rfl, .inl hfits⟩
      · split
        · exact ⟨_, Nat.le_refl _, rfl, .inr rfl⟩
        · next hmany =>
            have hlt : max (turns / 2) MIN_TURNS_TO_KEEP < turns := by
              rw [MIN_TURNS_TO_KEEP] at hmany ⊢
              omega
            exact ih _ hlt (Nat.le_max_right _ _)

/-- The later the cutoff, the less is kept. -/
theorem remainingSuffixChars_anti (active : List Message) {c c' : ℕ} (h : c ≤ c') :
    remainingSuffixChars active c' ≤ remainingSuffixChars active c := by
  obtain ⟨k, rfl⟩ := Nat.exists_eq_add_of_le h
  have hsplit := List.take_append_drop k (active.drop c)
  rw [List.drop_drop] at hsplit
  rw [remainingSuffixChars, remainingSuffixChars, totalChars, totalChars, ← hsplit,
    List.map_append, List.sum_append]
  exact Nat.le_add_left _ _

/-- A cutoff that parts no call from its result. -/
def PairSafe (active : List Message) (c : ℕ) : Prop := c = 0 ∨ Closed (active.drop c)

variable {m : CompactionManager} {env : Env} {all : List Message}

/-- **The search loses nothing**: its cutoff keeps two turns, fits if any safe one that keeps two
fits, and is positive if any of these is. -/
theorem hardCutoff_best {active : List Message} (tokenBudget : ℕ) {turns : ℕ}
    (hturns : MIN_TURNS_TO_KEEP ≤ turns) {c : ℕ} (hsafe : PairSafe active c)
    (hkeep : c + MIN_TURNS_TO_KEEP ≤ active.length) :
    (remainingSuffixChars active c / CHARS_PER_TOKEN ≤ tokenBudget →
      remainingSuffixChars active (hardCutoff active tokenBudget turns) / CHARS_PER_TOKEN ≤
        tokenBudget) ∧
    (hardCutoff active tokenBudget turns = 0 → c = 0) := by
  obtain ⟨keep, hmin, hcutoff, hend⟩ := hardCutoff_spec active tokenBudget hturns
  rcases hend with ⟨hpos, hfits⟩ | rfl
  · exact ⟨fun _ => hfits, fun hzero => absurd hzero hpos.ne'⟩
  · have hle : c ≤ hardCutoff active tokenBudget turns := by
      rw [hcutoff]
      rcases hsafe with rfl | hclosed
      · exact Nat.zero_le _
      · refine (safeCompactionCutoff_greatest active _).2.2 c (Nat.le_min.mpr ⟨?_, ?_⟩) hclosed
        · exact Nat.le_sub_of_add_le hkeep
        · exact (Nat.le_add_right _ _).trans hkeep
    refine ⟨fun hfits => ?_, fun hzero => Nat.le_zero.mp (hzero ▸ hle)⟩
    exact (Nat.div_le_div_right (remainingSuffixChars_anti active hle)).trans hfits

/-- **A hard compaction drops enough, and no more than it must.** -/
theorem hard_compact_drops_enough (m : CompactionManager) (env : Env) (all : List Message) :
    let active := (m.clampCompactedCountToMessages all).activeMessages all
    let m' := (m.hardCompactWith env all).1
    (∀ d, (m.hardCompactWith env all).2 = .ok d →
      0 < d ∧ m'.compactedCount = m.compactedCount + d ∧
      MIN_TURNS_TO_KEEP ≤ (m'.activeMessages all).length ∧ m'.pendingTask = none ∧
      ((∃ c, PairSafe active c ∧ c + MIN_TURNS_TO_KEEP ≤ active.length ∧
          remainingSuffixChars active c / CHARS_PER_TOKEN ≤ m.tokenBudget) →
        totalChars (m'.activeMessages all) / CHARS_PER_TOKEN ≤ m.tokenBudget)) ∧
    ∀ e, (m.hardCompactWith env all).2 = .error e →
      (active.length ≤ MIN_TURNS_TO_KEEP ∨
        ∀ c, PairSafe active c → c + MIN_TURNS_TO_KEEP ≤ active.length → c = 0) ∧
      m'.compactedCount = (m.clampCompactedCountToMessages all).compactedCount ∧
      m'.activeSummary = m.activeSummary ∧ m'.pendingTask = m.pendingTask := by
  intro active m'
  have hbudget : (m.clampCompactedCountToMessages all).tokenBudget = m.tokenBudget := by
    rcases m.clamp_cases all with heq | ⟨-, heq⟩ <;> rw [heq]
  have hsummary : (m.clampCompactedCountToMessages all).activeSummary = m.activeSummary := by
    rcases m.clamp_cases all with heq | ⟨-, heq⟩ <;> rw [heq]
  have hpending : (m.clampCompactedCountToMessages all).pendingTask = m.pendingTask := by
    rcases m.clamp_cases all with heq | ⟨-, heq⟩ <;> rw [heq]
  by_cases hfew : active.length ≤ MIN_TURNS_TO_KEEP
  · have hrun : m.hardCompactWith env all = (m.clampCompactedCountToMessages all, .error
        ("Not enough messages to compact (have " ++ toString active.length ++
          ", need more than " ++ toString MIN_TURNS_TO_KEEP ++ ")")) := if_pos hfew
    refine ⟨fun d hd => ?_, fun e _ => ⟨.inl hfew, ?_⟩⟩
    · rw [hrun] at hd
      cases hd
    · rw [show m' = _ from congrArg Prod.fst hrun]
      exact ⟨rfl, hsummary, hpending⟩
  · have hturns : MIN_TURNS_TO_KEEP ≤ min RECENT_TURNS_TO_KEEP (active.length - 1) := by
      simp only [MIN_TURNS_TO_KEEP, RECENT_TURNS_TO_KEEP] at hfew ⊢
      omega
    have hrun : m.hardCompactWith env all =
        if hardCutoff active (m.clampCompactedCountToMessages all).tokenBudget
          (min RECENT_TURNS_TO_KEEP (active.length - 1)) = 0 then
          (m.clampCompactedCountToMessages all,
            .error "Cannot compact — would split tool call/result pairs")
        else ((m.clampCompactedCountToMessages all).dropMessages env all
          (hardCutoff active (m.clampCompactedCountToMessages all).tokenBudget
            (min RECENT_TURNS_TO_KEEP (active.length - 1))),
          .ok (hardCutoff active (m.clampCompactedCountToMessages all).tokenBudget
            (min RECENT_TURNS_TO_KEEP (active.length - 1)))) := if_neg hfew
    rw [hbudget] at hrun
    have hbest := fun c => @hardCutoff_best active m.tokenBudget _ hturns c
    obtain ⟨keep, hmin, hcutoff, -⟩ := hardCutoff_spec active m.tokenBudget hturns
    generalize hardCutoff active m.tokenBudget (min RECENT_TURNS_TO_KEEP (active.length - 1)) =
      cutoff at hrun hbest hcutoff
    by_cases hzero : cutoff = 0
    · rw [if_pos hzero] at hrun
      refine ⟨fun d hd => ?_, fun e _ => ⟨.inr fun c hsafe hkeep => (hbest c hsafe hkeep).2 hzero, ?_⟩⟩
      · rw [hrun] at hd
        cases hd
      · rw [show m' = _ from congrArg Prod.fst hrun]
        exact ⟨rfl, hsummary, hpending⟩
    · rw [if_neg hzero] at hrun
      refine ⟨fun d hd => ?_, fun e he => ?_⟩
      · obtain rfl : cutoff = d := by
          rw [hrun] at hd
          exact Except.ok.inj hd
        -- a count that was cut down would leave nothing active
        have hclamp : m.clampCompactedCountToMessages all = m := by
          rcases m.clamp_cases all with heq | ⟨-, heq⟩
          · exact heq
          · refine absurd ?_ hfew
            rw [length_activeMessages, heq, Nat.sub_self]
            exact Nat.zero_le _
        have hle : cutoff ≤ active.length - keep :=
          hcutoff ▸ (safeCompactionCutoff_greatest active _).1
        have hlen : active.length = all.length - m.compactedCount := by
          rw [length_activeMessages, hclamp]
        have hmany : MIN_TURNS_TO_KEEP < active.length := Nat.lt_of_not_le hfew
        have hpos : 0 < cutoff := Nat.pos_of_ne_zero hzero
        rw [hclamp] at hrun
        obtain ⟨summary, event, trigger, pendingCutoff, hdrop, -⟩ :=
          m.dropMessages_spec env all cutoff
        have hm' : m' = _ := (congrArg Prod.fst hrun).trans hdrop
        have hcount : m'.compactedCount = m.compactedCount + cutoff := by
          rw [hm']
          exact Nat.min_eq_left (by omega)
        have hactive : m'.activeMessages all = active.drop cutoff := by
          rw [activeMessages_eq, hcount, ← List.drop_drop, ← activeMessages_eq, ← hclamp]
        refine ⟨hpos, hcount, ?_, by rw [hm'], ?_⟩
        · rw [hactive, List.length_drop]
          omega
        · rintro ⟨c, hsafe, hkeep, hfits⟩
          rw [hactive]
          exact (hbest c hsafe hkeep).1 hfits
      · rw [hrun] at he
        cases he

end CompactionManager

end Jcode.Compaction
