import Mathlib

/-!
# Support — Runs

The runs of a partial step function: a list of transitions, each from the state the one before it
left.  The rules go from one transition to a run.

* `Run.preserves`: what each transition preserves, the run preserves.
* `Run.before_of`: it holds before each transition too.
* `Run.records`: an invariant of a state and the transitions that led to it.
* `Run.forall_after_iff`: an invariant that each step keeps exactly under a condition.
* `Run.account`: a measure that each transition changes by a gain and a loss is, over the run,
  changed by their sums.
* `Run.length_add_le`: a measure that each transition decreases bounds the length of the run.
* `Run.exists_finish`: where every unfinished state has a run that a measure pays for, there is one
  to a finished state.
* `Run.once`: what needs a mark to be absent, and sets it for good, happens once.
-/

namespace Runs

/-- One step: the event, and the states around it. -/
structure Transition (σ α : Type*) where
  before : σ
  event : α
  after : σ

variable {σ α : Type*}

/-- The transitions `ts` lead from one state to another. -/
inductive Run (step : σ → α → Option σ) : σ → List (Transition σ α) → σ → Prop where
  | nil (s : σ) : Run step s [] s
  | cons {s s₁ s' : σ} {e : α} {ts : List (Transition σ α)}
      (h : step s e = some s₁) (run : Run step s₁ ts s') : Run step s (⟨s, e, s₁⟩ :: ts) s'

/-- Make the steps `es` one after the other. -/
def exec (step : σ → α → Option σ) (s : σ) : List α → Option (List (Transition σ α) × σ)
  | [] => some ([], s)
  | e :: es =>
      match step s e with
      | none => none
      | some s₁ => (exec step s₁ es).map fun r => (⟨s, e, s₁⟩ :: r.1, r.2)

variable {step : σ → α → Option σ} {s s' : σ} {ts : List (Transition σ α)}

namespace Run

/-- What is executed is a run of its events. -/
theorem of_exec {es : List α} (h : exec step s es = some (ts, s')) :
    Run step s ts s' ∧ ts.map Transition.event = es := by
  induction es generalizing s ts with
  | nil =>
      cases h
      exact ⟨.nil _, rfl⟩
  | cons e es ih =>
      rw [exec] at h
      split at h
      · cases h
      · rename_i s₁ hs
        obtain ⟨⟨us, s''⟩, hus, heq⟩ := Option.map_eq_some_iff.mp h
        cases heq
        obtain ⟨run, hes⟩ := ih hus
        exact ⟨.cons hs run, congrArg (e :: ·) hes⟩

/-- A run with an observation, from its execution. -/
theorem of_observed {β : Type*} {f : List (Transition σ α) × σ → β} {es : List α} {b : β}
    (h : (exec step s es).map f = some b) :
    ∃ ts s', Run step s ts s' ∧ ts.map Transition.event = es ∧ f (ts, s') = b := by
  obtain ⟨⟨ts, s'⟩, hexec, rfl⟩ := Option.map_eq_some_iff.mp h
  exact ⟨ts, s', (of_exec hexec).1, (of_exec hexec).2, rfl⟩

theorem step_of_mem (run : Run step s ts s') {t : Transition σ α} (ht : t ∈ ts) :
    step t.before t.event = some t.after := by
  induction run with
  | nil => cases ht
  | cons h _ ih =>
      rcases List.mem_cons.mp ht with rfl | ht
      · exact h
      · exact ih ht

/-- The state in the middle of a run. -/
theorem split {us : List (Transition σ α)} (run : Run step s (ts ++ us) s') :
    ∃ s₁, Run step s ts s₁ ∧ Run step s₁ us s' := by
  induction ts generalizing s with
  | nil => exact ⟨s, .nil s, run⟩
  | cons t ts ih =>
      rw [List.cons_append] at run
      cases run with
      | cons h run =>
          obtain ⟨s₁, h₁, h₂⟩ := ih run
          exact ⟨s₁, .cons h h₁, h₂⟩

/-- The run around one of its transitions. -/
theorem split_at {t : Transition σ α} {us : List (Transition σ α)}
    (run : Run step s (ts ++ t :: us) s') :
    Run step s ts t.before ∧ step t.before t.event = some t.after ∧ Run step t.after us s' := by
  obtain ⟨s₁, h₁, h₂⟩ := run.split
  cases h₂ with
  | cons h run => exact ⟨h₁, h, run⟩

/-- **The invariant rule.** -/
theorem preserves {P : σ → Prop} (run : Run step s ts s')
    (hP : ∀ t ∈ ts, step t.before t.event = some t.after → P t.before → P t.after) (h₀ : P s) :
    P s' := by
  induction run with
  | nil => exact h₀
  | cons h _ ih =>
      exact ih (fun t ht => hP t (List.mem_cons_of_mem _ ht)) (hP _ List.mem_cons_self h h₀)

/-- An invariant holds before each transition. -/
theorem before_of {P : σ → Prop} (run : Run step s ts s')
    (hP : ∀ t ∈ ts, step t.before t.event = some t.after → P t.before → P t.after) (h₀ : P s)
    {t : Transition σ α} (ht : t ∈ ts) : P t.before := by
  obtain ⟨us, vs, rfl⟩ := List.append_of_mem ht
  exact run.split_at.1.preserves (fun t' ht' => hP t' (List.mem_append_left _ ht')) h₀

/-- **The history rule**: an invariant that speaks of the transitions so far. -/
theorem records {P : List (Transition σ α) → σ → Prop} (run : Run step s ts s')
    (hP : ∀ us, ∀ t ∈ ts, step t.before t.event = some t.after → P us t.before →
      P (us ++ [t]) t.after) {us : List (Transition σ α)} (h₀ : P us s) : P (us ++ ts) s' := by
  induction run generalizing us with
  | nil => exact (List.append_nil us).symm ▸ h₀
  | cons h _ ih =>
      have hrest := ih (fun us t ht => hP us t (List.mem_cons_of_mem _ ht))
        (hP us _ List.mem_cons_self h h₀)
      rwa [List.append_assoc] at hrest

/-- The history of a whole run. -/
theorem records_nil {P : List (Transition σ α) → σ → Prop} (run : Run step s ts s')
    (hP : ∀ us, ∀ t ∈ ts, step t.before t.event = some t.after → P us t.before →
      P (us ++ [t]) t.after) (h₀ : P [] s) : P ts s' :=
  List.nil_append ts ▸ run.records hP h₀

/-- **The exactness rule.**  Where one step from an invariant keeps it exactly under a condition on the
step, a whole run keeps it exactly when all its steps meet the condition. -/
theorem forall_after_iff {P : σ → Prop} {C : σ → α → Prop} (run : Run step s ts s')
    (h : ∀ t ∈ ts, step t.before t.event = some t.after → P t.before →
      (P t.after ↔ C t.before t.event)) (h₀ : P s) :
    (∀ t ∈ ts, P t.after) ↔ ∀ t ∈ ts, C t.before t.event := by
  induction run with
  | nil => exact ⟨fun _ _ ht => absurd ht List.not_mem_nil, fun _ _ ht => absurd ht List.not_mem_nil⟩
  | cons hs _ ih =>
      have hone := h _ List.mem_cons_self hs h₀
      have hrest := ih fun t ht => h t (List.mem_cons_of_mem _ ht)
      rw [List.forall_mem_cons, List.forall_mem_cons]
      constructor
      · rintro ⟨hafter, hall⟩
        exact ⟨hone.mp hafter, (hrest hafter).mp hall⟩
      · rintro ⟨hmeets, hall⟩
        exact ⟨hone.mpr hmeets, (hrest (hone.mpr hmeets)).mpr hall⟩

/-- **The accounting rule.** -/
theorem account {m : σ → ℕ} {gain loss : Transition σ α → ℕ} (run : Run step s ts s')
    (h : ∀ t ∈ ts, step t.before t.event = some t.after →
      m t.after + loss t = m t.before + gain t) :
    m s' + (ts.map loss).sum = m s + (ts.map gain).sum := by
  induction run with
  | nil => rfl
  | cons hs _ ih =>
      have hrest := ih fun t ht => h t (List.mem_cons_of_mem _ ht)
      have hone := h _ List.mem_cons_self hs
      simp only [List.map_cons, List.sum_cons] at hrest hone ⊢
      omega

/-- **The descent rule.** -/
theorem length_add_le {m : σ → ℕ} (run : Run step s ts s')
    (h : ∀ t ∈ ts, step t.before t.event = some t.after → m t.after < m t.before) :
    ts.length + m s' ≤ m s := by
  induction run with
  | nil => exact (Nat.zero_add _).le
  | cons hs _ ih =>
      have hrest := ih fun t ht => h t (List.mem_cons_of_mem _ ht)
      have hone := h _ List.mem_cons_self hs
      simp only [List.length_cons] at hrest hone ⊢
      omega

/-- One run after another. -/
theorem append {us : List (Transition σ α)} {s₁ : σ} (run : Run step s ts s₁)
    (run' : Run step s₁ us s') : Run step s (ts ++ us) s' := by
  induction run with
  | nil => exact run'
  | cons h _ ih => exact .cons h (ih run')

/-- **The drain rule.**  Where every unfinished state has a run that the measure pays for, there is
one to a finished state, and the measure pays for it. -/
theorem exists_finish {P G : σ → Prop} {Q : Transition σ α → Prop} (m : σ → ℕ)
    (h : ∀ s, P s → ¬ G s → ∃ ts s', Run step s ts s' ∧ P s' ∧ ts ≠ [] ∧
      ts.length + m s' ≤ m s ∧ ∀ t ∈ ts, Q t) (h₀ : P s) :
    ∃ ts s', Run step s ts s' ∧ P s' ∧ G s' ∧ ts.length + m s' ≤ m s ∧ ∀ t ∈ ts, Q t := by
  induction hm : m s using Nat.strong_induction_on generalizing s with
  | _ k ih =>
      by_cases hG : G s
      · exact ⟨[], s, .nil s, h₀, hG, by simp [hm], by simp⟩
      · obtain ⟨ts, s₁, run, hP, hne, hle, hQ⟩ := h s h₀ hG
        have hpos := List.length_pos_iff.mpr hne
        obtain ⟨us, s', run', hP', hG', hle', hQ'⟩ := ih (m s₁) (by omega) hP rfl
        refine ⟨ts ++ us, s', run.append run', hP', hG', ?_, List.forall_mem_append.mpr ⟨hQ, hQ'⟩⟩
        rw [List.length_append]
        omega

/-- **The one-shot rule.** -/
theorem once {p : Transition σ α → Bool} {M : σ → Prop} (run : Run step s ts s')
    (hp : ∀ t ∈ ts, step t.before t.event = some t.after → p t → ¬ M t.before ∧ M t.after)
    (hM : ∀ t ∈ ts, step t.before t.event = some t.after → M t.before → M t.after) :
    ts.countP p ≤ 1 := by
  -- once marked, it happens no more
  have hmarked : ∀ {s s' : σ} {ts : List (Transition σ α)}, Run step s ts s' →
      (∀ t ∈ ts, step t.before t.event = some t.after → p t → ¬ M t.before ∧ M t.after) →
      (∀ t ∈ ts, step t.before t.event = some t.after → M t.before → M t.after) →
      M s → ts.countP p = 0 := by
    intro s s' ts run hp hM h₀
    refine List.countP_eq_zero.mpr fun t ht hpt => ?_
    exact (hp t ht (run.step_of_mem ht) hpt).1 (run.before_of hM h₀ ht)
  induction run with
  | nil => exact Nat.zero_le 1
  | @cons s s₁ s' e ts h run ih =>
      have hp' := fun t (ht : t ∈ ts) => hp t (List.mem_cons_of_mem _ ht)
      have hM' := fun t (ht : t ∈ ts) => hM t (List.mem_cons_of_mem _ ht)
      rw [List.countP_cons]
      split
      · rename_i hpt
        rw [hmarked run hp' hM' (hp _ List.mem_cons_self h hpt).2]
      · exact ih hp' hM'

end Run

end Runs
