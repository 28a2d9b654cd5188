import Jcode.Schema.Protocol

/-!
# Schema — one notion of match

The backtest, the executor and the toggle deliberator compare predictions with transitions, each in
its own code.  `Explains` is the comparison all three make: the flags always, and the grid unless
the transition is terminal.

* `backtest_clean_iff`: a backtest has no mismatch exactly when the model explains every
  transition.
* `commitFrom_appends`: an execution appends transitions that are explained, and, when it halts,
  one that is not.
* `one_notion_of_match`: what the backtest says before and after an execution, and what the
  deliberator keeps.
-/

namespace Jcode.Schema

/-- The prediction stands against the transition. -/
structure Explains (pred : Prediction) (t : Transition) : Prop where
  levelUp : pred.levelUp = t.levelUp
  dead : pred.dead = t.dead
  win : pred.win = t.win
  grid : t.terminal = true ∨ pred.grid = t.stateAfter

/-- The comparison as the executor writes it. -/
theorem explains_iff {pred : Prediction} {t : Transition} :
    (pred.levelUp == t.levelUp && pred.dead == t.dead && pred.win == t.win &&
      (t.terminal || pred.grid == t.stateAfter)) = true ↔ Explains pred t := by
  simp only [Bool.and_eq_true, Bool.or_eq_true, beq_iff_eq]
  exact ⟨fun ⟨⟨⟨h₁, h₂⟩, h₃⟩, h₄⟩ => ⟨h₁, h₂, h₃, h₄⟩,
    fun h => ⟨⟨⟨h.levelUp, h.dead⟩, h.win⟩, h.grid⟩⟩

instance (pred : Prediction) (t : Transition) : Decidable (Explains pred t) :=
  decidable_of_iff _ explains_iff

/-- The model predicts the transition. -/
def Predicts (model : WorldModel) (t : Transition) : Prop :=
  ∃ pred, model.step t.stateBefore t.action = some pred ∧ Explains pred t

/-! ### The backtest -/

section Backtest
variable {model : WorldModel} {report report' : BacktestReport} {t : Transition}
  {pred : Prediction}

theorem backtestStep_explained (hp : model.step t.stateBefore t.action = some pred)
    (h : Explains pred t) : backtestStep model report t =
      some (if t.terminal then { report with skipped := report.skipped + 1 }
        else { report with exact := report.exact + 1 }) := by
  obtain ⟨h₁, h₂, h₃, hgrid⟩ := h
  cases ht : t.terminal with
  | true => simp [backtestStep, hp, h₁, h₂, h₃, ht]
  | false =>
      have hg : pred.grid = t.stateAfter := hgrid.resolve_left (by simp [ht])
      simp [backtestStep, hp, h₁, h₂, h₃, ht, hg]

theorem backtestStep_mismatch (hp : model.step t.stateBefore t.action = some pred)
    (h : ¬ Explains pred t) : ∃ kind detail, backtestStep model report t =
      some { report with mismatches := report.mismatches ++ [⟨t.index, kind, detail⟩] } := by
  cases hflags : (pred.levelUp == t.levelUp && pred.dead == t.dead && pred.win == t.win) with
  | false =>
      exact ⟨.flags, _, by
        simp only [backtestStep, hp, hflags, Option.bind_eq_bind, Option.bind_some, Bool.not_false,
          if_true]
        rfl⟩
  | true =>
      have hgrid : t.terminal = false ∧ pred.grid ≠ t.stateAfter := by
        simp only [Bool.and_eq_true, beq_iff_eq] at hflags
        rw [← Bool.not_eq_true, ne_eq, ← not_or]
        exact fun hg => h ⟨hflags.1.1, hflags.1.2, hflags.2, hg⟩
      exact ⟨.grid, _, by
        simp only [backtestStep, hp, hflags, hgrid.1, hgrid.2, Option.bind_eq_bind,
          Option.bind_some, Bool.not_true, Bool.false_eq_true, if_false, ne_eq, not_false_eq_true,
          if_true]
        rfl⟩

theorem backtestStep_panic (hp : model.step t.stateBefore t.action = none) :
    backtestStep model report t = none := by
  simp [backtestStep, hp]

/-- A run over explained transitions only counts them. -/
theorem replay_explained {ts : List Transition} (h : ∀ t ∈ ts, Predicts model t) :
    ts.foldlM (backtestStep model) report = some
      { report with
        skipped := report.skipped + (ts.filter Transition.terminal).length
        exact := report.exact + (ts.filter fun t => !t.terminal).length } := by
  induction ts generalizing report with
  | nil => rfl
  | cons t ts ih =>
      obtain ⟨pred, hp, he⟩ := h t List.mem_cons_self
      rw [List.foldlM_cons, backtestStep_explained hp he, Option.bind_eq_bind, Option.bind_some,
        ih fun t ht => h t (List.mem_cons_of_mem _ ht)]
      cases ht : t.terminal with
      | true => simp [ht]; omega
      | false => simp [ht]; omega

/-- What a run over the record preserves of the counts. -/
theorem replay_counts {ts : List Transition}
    (h : ts.foldlM (backtestStep model) report = some report') :
    report'.total = report.total ∧
    report'.exact + report'.skipped + report'.mismatches.length =
      report.exact + report.skipped + report.mismatches.length + ts.length := by
  induction ts generalizing report with
  | nil =>
      obtain rfl := Option.some.inj h
      exact ⟨rfl, rfl⟩
  | cons t ts ih =>
      cases hp : model.step t.stateBefore t.action with
      | none => rw [List.foldlM_cons, backtestStep_panic hp] at h; cases h
      | some pred =>
          by_cases he : Explains pred t
          · rw [List.foldlM_cons, backtestStep_explained hp he] at h
            obtain ⟨htotal, hsum⟩ := ih h
            refine ⟨htotal.trans (by split <;> rfl), hsum.trans ?_⟩
            split <;> simp only [List.length_cons] <;> omega
          · obtain ⟨_, _, hm⟩ := @backtestStep_mismatch model report t pred hp he
            rw [List.foldlM_cons, hm] at h
            obtain ⟨htotal, hsum⟩ := ih h
            refine ⟨htotal, hsum.trans ?_⟩
            simp only [List.length_append, List.length_cons, List.length_nil]
            omega

/-- A run that ends without a mismatch began without one, and met none. -/
theorem replay_clean {ts : List Transition}
    (h : ts.foldlM (backtestStep model) report = some report') (hclean : report'.mismatches = []) :
    report.mismatches = [] ∧ ∀ t ∈ ts, Predicts model t := by
  induction ts generalizing report with
  | nil =>
      obtain rfl := Option.some.inj h
      exact ⟨hclean, fun _ ht => by cases ht⟩
  | cons t ts ih =>
      cases hp : model.step t.stateBefore t.action with
      | none => rw [List.foldlM_cons, backtestStep_panic hp] at h; cases h
      | some pred =>
          by_cases he : Explains pred t
          · rw [List.foldlM_cons, backtestStep_explained hp he] at h
            obtain ⟨hstart, hrest⟩ := ih h
            refine ⟨?_, List.forall_mem_cons.mpr ⟨⟨pred, hp, he⟩, hrest⟩⟩
            split at hstart <;> exact hstart
          · obtain ⟨_, _, hm⟩ := @backtestStep_mismatch model report t pred hp he
            rw [List.foldlM_cons, hm] at h
            exact absurd (ih h).1 (by simp)

/-- **A backtest is clean exactly when every transition is predicted.** -/
theorem backtest_clean_iff {tl : Timeline} :
    (∃ report, runBacktest model tl = some report ∧ report.mismatches = []) ↔
      ∀ t ∈ tl.records, Predicts model t := by
  constructor
  · rintro ⟨report, h, hclean⟩
    exact (replay_clean h hclean).2
  · intro h
    exact ⟨_, replay_explained h, rfl⟩

/-- The counts of a backtest add up to the length of the timeline. -/
theorem backtest_accounts {tl : Timeline} (h : runBacktest model tl = some report) :
    report.total = tl.len ∧
      report.exact + report.skipped + report.mismatches.length = report.total := by
  obtain ⟨htotal, hsum⟩ := replay_counts h
  refine ⟨htotal, ?_⟩
  rw [hsum, htotal]
  simp [Timeline.len]

end Backtest

/-! ### The executor -/

section Execution
variable {ε : Type} {env : Environment ε} {model : WorldModel} {plan rest executed : List String}
  {i : ℕ} {cur : Grid} {e e' : ε} {tl tl' : Timeline} {report : ExecutionReport}

/-- **One committed action.**  It is the last one, not predicted or terminal, and halts the plan
exactly when it was not predicted; or it was predicted, is not terminal, and the plan goes on. -/
theorem commitFrom_exits {action : String}
    (h : commitFrom env model plan (action :: rest) i executed cur e tl = some (report, e', tl')) :
    ∃ pred obs e₁, model.step cur action = some pred ∧ env.step e action = some (obs, e₁) ∧
      let t := tl.record cur action obs.grid obs.levelUp obs.dead obs.win
      let tl₁ := tl.append cur action obs.grid obs.levelUp obs.dead obs.win
      (report.committed = plan ∧ report.executed = executed ++ [action] ∧ report.discarded = rest ∧
        report.finalState = obs.grid ∧ (report.halted = true ↔ ¬ Explains pred t) ∧
        report.counterexample = (if report.halted then some t else none) ∧
        (report.halted = true ∨ t.terminal = true) ∧ report.win = obs.win ∧
        report.dead = obs.dead ∧ e' = e₁ ∧ tl' = tl₁) ∨
      (Explains pred t ∧ t.terminal = false ∧
        commitFrom env model plan rest (i + 1) (executed ++ [action]) obs.grid e₁ tl₁ =
          some (report, e', tl')) := by
  rw [commitFrom] at h
  obtain ⟨pred, hp, h⟩ := Option.bind_eq_some_iff.mp h
  obtain ⟨⟨obs, e₁⟩, ho, h⟩ := Option.bind_eq_some_iff.mp h
  refine ⟨pred, obs, e₁, hp, ho, ?_⟩
  have hiff := @explains_iff pred (tl.record cur action obs.grid obs.levelUp obs.dead obs.win)
  dsimp only at h
  split at h
  · rename_i hno
    obtain ⟨rfl, rfl, rfl⟩ : _ ∧ _ ∧ _ := by simpa using h
    refine .inl ⟨rfl, rfl, rfl, rfl, ⟨fun _ hex => ?_, fun _ => rfl⟩, rfl, .inl rfl, rfl, rfl, rfl,
      rfl⟩
    rw [Bool.not_eq_true'] at hno
    exact Bool.false_ne_true (hno.symm.trans (hiff.mpr hex))
  · rename_i hok
    rw [Bool.not_eq_true, Bool.not_eq_false'] at hok
    have hex := hiff.mp hok
    split at h
    · rename_i hterm
      obtain ⟨rfl, rfl, rfl⟩ : _ ∧ _ ∧ _ := by simpa using h
      exact .inl ⟨rfl, rfl, rfl, rfl, ⟨fun hhalt => (by cases hhalt), fun hnot => absurd hex hnot⟩,
        rfl, .inr hterm, rfl, rfl, rfl, rfl⟩
    · rename_i hterm
      exact .inr ⟨hex, Bool.not_eq_true _ ▸ hterm, h⟩

/-- **An execution appends transitions the model predicts, and, when it halts, one that it does
not.** -/
theorem commitFrom_appends
    (h : commitFrom env model plan rest i executed cur e tl = some (report, e', tl')) :
    ∃ passed, tl'.records = tl.records ++ passed ++ report.counterexample.toList ∧
      (∀ t ∈ passed, Predicts model t) ∧ report.halted = report.counterexample.isSome ∧
      ∀ t, report.counterexample = some t →
        ∃ pred, model.step t.stateBefore t.action = some pred ∧ ¬ Explains pred t := by
  induction rest generalizing i executed cur e tl with
  | nil =>
      obtain ⟨rfl, rfl, rfl⟩ : _ ∧ _ ∧ _ := by simpa [commitFrom] using h
      exact ⟨[], by simp, fun _ ht => (by cases ht), rfl, fun _ ht => (by cases ht)⟩
  | cons action rest ih =>
      obtain ⟨pred, obs, e₁, hp, -, hcases⟩ := commitFrom_exits h
      rcases hcases with ⟨-, -, -, -, hhalt, hce, -, -, -, -, rfl⟩ | ⟨he, -, hrest⟩
      · cases hh : report.halted with
        | true =>
            rw [hh, if_pos rfl] at hce
            refine ⟨[], by simp [hce, Timeline.append], fun _ ht => (by cases ht), by simp [hce],
              fun t ht => ?_⟩
            obtain rfl := Option.some.inj (hce.symm.trans ht)
            exact ⟨pred, hp, hhalt.mp hh⟩
        | false =>
            rw [hh, if_neg Bool.false_ne_true] at hce
            have he := not_not.mp (mt hhalt.mpr (by simp [hh]))
            refine ⟨[_], by simp [hce, Timeline.append]; rfl, ?_, by simp [hce], fun t ht => ?_⟩
            · exact List.forall_mem_singleton.mpr ⟨pred, hp, he⟩
            · rw [hce] at ht
              cases ht
      · obtain ⟨passed, hrec, hpass, hhalt, hce⟩ := ih hrest
        refine ⟨_ :: passed, ?_, List.forall_mem_cons.mpr ⟨⟨pred, hp, he⟩, hpass⟩, hhalt, hce⟩
        rw [hrec]
        simp [Timeline.append]

/-- Predicted transitions and one that is not, in a backtest. -/
theorem replay_halted {before : BacktestReport} {passed : List Transition} {ce : Option Transition}
    (hpass : ∀ t ∈ passed, Predicts model t)
    (hce : ∀ t, ce = some t →
      ∃ pred, model.step t.stateBefore t.action = some pred ∧ ¬ Explains pred t) :
    ∃ after, (passed ++ ce.toList).foldlM (backtestStep model) before = some after ∧
      after.mismatches.map (·.index) = before.mismatches.map (·.index) ++ ce.toList.map (·.index) ∧
      after.exact = before.exact + (passed.filter fun t => !t.terminal).length ∧
      after.skipped = before.skipped + (passed.filter Transition.terminal).length := by
  rw [List.foldlM_append, replay_explained hpass, Option.bind_eq_bind, Option.bind_some]
  cases ce with
  | none => exact ⟨_, rfl, by simp, rfl, rfl⟩
  | some t =>
      obtain ⟨pred, hp, hn⟩ := hce t rfl
      obtain ⟨kind, detail, hm⟩ := @backtestStep_mismatch model
        { before with
          skipped := before.skipped + (passed.filter Transition.terminal).length
          exact := before.exact + (passed.filter fun t => !t.terminal).length } t pred hp hn
      rw [Option.toList_some, List.foldlM_cons, hm, Option.bind_eq_bind, Option.bind_some]
      exact ⟨_, rfl, by simp, rfl, rfl⟩

/-- The total is only carried along. -/
theorem replay_total {ts : List Transition} {r r' : BacktestReport} (n : ℕ)
    (h : ts.foldlM (backtestStep model) r = some r') :
    ts.foldlM (backtestStep model) { r with total := n } = some { r' with total := n } := by
  induction ts generalizing r with
  | nil =>
      obtain rfl := Option.some.inj h
      rfl
  | cons t ts ih =>
      cases hp : model.step t.stateBefore t.action with
      | none => rw [List.foldlM_cons, backtestStep_panic hp] at h; cases h
      | some pred =>
          have hstep : backtestStep model { r with total := n } t =
              (backtestStep model r t).map fun r => { r with total := n } := by
            simp only [backtestStep, hp, Option.bind_eq_bind, Option.bind_some]
            split
            · rfl
            split
            · rfl
            split <;> rfl
          rw [List.foldlM_cons, Option.bind_eq_bind] at h
          obtain ⟨r₁, hr₁, hrest⟩ := Option.bind_eq_some_iff.mp h
          rw [List.foldlM_cons, hstep, hr₁]
          exact ih hrest

end Execution

/-! ### The deliberator -/

theorem consistentWith_iff {sem : SemMap} {ts : List Transition} :
    consistentWith sem ts = some true ↔
      ∀ t ∈ ts, ∃ pred, predict sem t.stateBefore t.action = some pred ∧ Explains pred t := by
  induction ts with
  | nil => simp [consistentWith]
  | cons t ts ih =>
      rw [List.forall_mem_cons, ← ih, consistentWith]
      cases hp : predict sem t.stateBefore t.action with
      | none => simp
      | some pred =>
          simp only [Option.bind_eq_bind, Option.bind_some, Option.some.injEq, exists_eq_left']
          split
          · rename_i hflags
            refine ⟨fun h => (by cases h), fun ⟨he, _⟩ => absurd ?_ hflags⟩
            rw [he.levelUp, he.dead, he.win]
          · rename_i hflags
            simp only [ne_eq, not_not, Prod.mk.injEq] at hflags
            split
            · rename_i hgrid
              simp only [Bool.and_eq_true, Bool.not_eq_true', decide_eq_true_eq] at hgrid
              refine ⟨fun h => (by cases h), fun ⟨he, _⟩ => absurd ?_ hgrid.2⟩
              exact he.grid.resolve_left (by simp [hgrid.1])
            · rename_i hgrid
              have he : Explains pred t := by
                refine ⟨hflags.1, hflags.2.1, hflags.2.2, or_iff_not_imp_left.mpr fun ht => ?_⟩
                by_contra hne
                exact hgrid (by simp [ht, hne])
              exact ⟨fun h => ⟨he, h⟩, fun h => h.2⟩

/-! ### All three -/

/-- **One notion of match.**  The counts of a backtest add up; an execution adds to the mismatches
its counterexample and nothing else, and counts every other transition it appended as exact or, when
terminal, as skipped; and a hypothesis is consistent exactly when the backtest of its predictions
has no mismatch. -/
theorem one_notion_of_match {ε : Type} (env : Environment ε) :
    (∀ model tl report, runBacktest model tl = some report →
      report.exact + report.skipped + report.mismatches.length = report.total) ∧
    (∀ model tl before e cur plan report e' tl', runBacktest model tl = some before →
      commitActions env e model tl cur plan = some (report, e', tl') →
      ∃ after passed, runBacktest model tl' = some after ∧
        tl'.records = tl.records ++ passed ++ report.counterexample.toList ∧
        report.halted = report.counterexample.isSome ∧
        after.mismatches.map (·.index) =
          before.mismatches.map (·.index) ++ report.counterexample.toList.map (·.index) ∧
        after.exact = before.exact + (passed.filter fun t => !t.terminal).length ∧
        after.skipped = before.skipped + (passed.filter fun t => t.terminal).length) ∧
    ∀ sem tl (model : WorldModel), model.step = predict sem →
      (consistent sem tl = some true ↔
        ∃ report, runBacktest model tl = some report ∧ report.mismatches = []) := by
  refine ⟨fun model tl report h => (backtest_accounts h).2, ?_, ?_⟩
  · intro model tl before e cur plan report e' tl' hbefore hcommit
    obtain ⟨passed, hrec, hpass, hhalt, hce⟩ := commitFrom_appends hcommit
    have hbefore' := replay_total tl'.len hbefore
    obtain ⟨after, hafter, hcounts⟩ := @replay_halted model { before with total := tl'.len } passed
      report.counterexample hpass hce
    refine ⟨after, passed, ?_, hrec, hhalt, hcounts⟩
    rw [runBacktest, hrec, List.append_assoc, List.foldlM_append, hbefore', Option.bind_eq_bind,
      Option.bind_some, hafter]
  · intro sem tl model hmodel
    rw [backtest_clean_iff, consistent, consistentWith_iff]
    simp only [Predicts, hmodel]

/-- A cell in which every action is lethal. -/
def lethalCell : Environment ℕ where
  reset n := some ({ grid := [[1]] }, n)
  step n _ := some ({ grid := [[1]], dead := true }, n + 1)
  actionsTaken n := n
  legalActions _ := ["up"]

/-- The vacuous model does not see the death coming, and the backtest says so. -/
theorem lethalCell_match : ∃ report e' tl', commitActions lethalCell 0 .vacuous .new [[1]] ["up"] =
      some (report, e', tl') ∧ report.halted = true ∧
      ∃ after, runBacktest .vacuous tl' = some after ∧ after.mismatches.map (·.index) = [0] := by
  refine ⟨_, _, _, rfl, rfl, ?_⟩
  obtain ⟨after, -, hafter, -, -, hm, -⟩ := (one_notion_of_match lethalCell).2.1 .vacuous .new
    { total := 0 } 0 [[1]] ["up"] _ _ _ rfl rfl
  exact ⟨after, hafter, hm⟩

end Jcode.Schema
