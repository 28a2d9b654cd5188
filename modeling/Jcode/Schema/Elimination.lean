import Jcode.Schema.Toggle

/-!
# Schema — Elimination

A run of the agent with the toggle deliberator, in an environment that behaves as one of the
hypotheses predicts.

* `Sound.deliberate`, `Sound.cycle`: what a deliberation and a cycle keep.
* `commitFrom_probe`: an executed probe ends on a step that the hypotheses disagree about.
* `elimination`: the hypotheses that are left are those consistent with the record, the true one is
  among them, and an executed probe leaves fewer.
* `two_agents_probe`: with two cells of color 1 the probe may move the wrong one.
-/

namespace Jcode.Schema
open ToggleDeliberator

variable {ε : Type}

/-! ### Environments -/

/-- The environment is reached from `e₀`, by resets and by steps; it shows the grid, unless a
terminal step led to it. -/
inductive Reached (env : Environment ε) (e₀ : ε) : ε → Option Grid → Prop
  | start : Reached env e₀ e₀ none
  | reset {e e' : ε} {g : Option Grid} {obs : Observation} (reached : Reached env e₀ e g)
      (resets : env.reset e = some (obs, e')) : Reached env e₀ e' (some obs.grid)
  | step {e e' : ε} {g : Grid} {a : String} {obs : Observation} (reached : Reached env e₀ e (some g))
      (steps : env.step e a = some (obs, e')) :
      Reached env e₀ e' (if obs.levelUp || obs.dead || obs.win then none else some obs.grid)

/-- **The steps of the environment agree with the predictions of the hypothesis.** -/
def Agrees (env : Environment ε) (e₀ : ε) (s : SemMap) : Prop :=
  ∀ e e' g a obs i, Reached env e₀ e (some g) → env.step e a = some (obs, e') →
    Accounts s ⟨i, g, a, obs.grid, obs.levelUp, obs.dead, obs.win⟩

/-- At most one cell of the grid is the agent. -/
def OneAgent (g : Grid) : Prop := {pos : ℕ × ℕ | cell g pos.1 pos.2 = some 1}.Subsingleton

/-- Every episode of the environment begins with one agent. -/
def StartsWithOneAgent (env : Environment ε) (e₀ : ε) : Prop :=
  ∀ e e' g obs, Reached env e₀ e g → env.reset e = some (obs, e') → OneAgent obs.grid

section Agent
variable {g g' : Grid} {action : String}

theorem OneAgent.onePlayer (h : OneAgent g) {px py : ℕ} (hplayer : player g = some (px, py)) :
    OnePlayer g :=
  ⟨(px, py), cell_of_player hplayer, fun _ hpos => h hpos (cell_of_player hplayer)⟩

theorem OnePlayer.oneAgent (h : OnePlayer g) : OneAgent g := fun _ hp _ hq => h.unique hp hq

/-- The player of a board with one agent is that agent. -/
theorem OneAgent.player_eq (h : OneAgent g) {p : ℕ × ℕ} (hp : cell g p.1 p.2 = some 1) :
    player g = some p := by
  obtain ⟨px, py, hplayer⟩ := exists_player hp
  have hat : cell g (px, py).1 (px, py).2 = some 1 := cell_of_player hplayer
  rw [hplayer, h hp hat]

theorem outcome_grid {sem : SemMap} {t : UInt8} {still walked : Grid} :
    (outcome sem t still walked).grid = still ∨ (outcome sem t still walked).grid = walked := by
  rw [outcome]
  split
  · exact .inr rfl
  · cases if t = 0 then Semantics.passable else (sem t).getD .blocking with
    | blocking => exact .inl rfl
    | passable => exact .inr rfl
    | lethal => exact .inl rfl

/-- **A prediction keeps one agent.** -/
theorem predict_oneAgent {sem : SemMap} {pred : Prediction} (hone : OneAgent g)
    (h : predict sem g action = some pred) : OneAgent pred.grid := by
  obtain ⟨att⟩ := attempt_of_predict h
  obtain ⟨walked, -, hcells, hall⟩ := predict_of_attempt att
  rw [hall sem, Option.some.injEq] at h
  obtain hgrid | hgrid : pred.grid = g ∨ pred.grid = walked := h ▸ outcome_grid
  · rw [hgrid]
    exact hone
  · have honly := (att.recolor_one (hone.onePlayer att.player_at) .advance).mpr (by simp)
    rw [hgrid]
    refine OnePlayer.oneAgent ?_
    simpa only [OnePlayer, hcells] using honly

theorem outcome_levelUp {sem : SemMap} {t : UInt8} {still walked : Grid} :
    (outcome sem t still walked).levelUp = false := by
  rw [outcome]
  split
  · rfl
  · cases if t = 0 then Semantics.passable else (sem t).getD .blocking <;> rfl

/-- What a hypothesis explains is no level. -/
theorem Accounts.levelUp {sem : SemMap} {t : Transition} (h : Accounts sem t) :
    t.levelUp = false := by
  obtain ⟨pred, hpred, hex⟩ := h
  obtain ⟨att⟩ := attempt_of_predict hpred
  obtain ⟨walked, -, -, hall⟩ := predict_of_attempt att
  rw [hall sem, Option.some.injEq] at hpred
  rw [← hex.levelUp, ← hpred, outcome_levelUp]

/-- Every grid that is shown has one agent. -/
theorem Reached.oneAgent {env : Environment ε} {e₀ e : ε} {s : SemMap} {shown : Option Grid}
    (hagrees : Agrees env e₀ s) (hone : StartsWithOneAgent env e₀)
    (h : Reached env e₀ e shown) : ∀ g ∈ shown, OneAgent g := by
  induction h with
  | start => exact fun g hg => by cases hg
  | reset hreached hreset =>
      rintro g ⟨rfl⟩
      exact hone _ _ _ _ hreached hreset
  | @step e e' g a obs hreached hstep ih =>
      intro g' hg'
      obtain ⟨pred, hpred, hex⟩ := hagrees _ _ _ _ _ 0 hreached hstep
      split at hg'
      · cases hg'
      · next hnot =>
          obtain rfl := Option.some.inj hg'
          have hgrid : pred.grid = obs.grid := hex.grid.resolve_left hnot
          exact hgrid ▸ predict_oneAgent (ih g rfl) hpred

end Agent

/-! ### Walking a probe -/

/-- The agent has walked over the floor of a board, from one cell to another. -/
structure Walked (state : Grid) (start p : ℕ × ℕ) (g : Grid) : Prop where
  floor : p = start ∨ cell state p.1 p.2 = some 0
  cells : ∀ pos : ℕ × ℕ, cell g pos.1 pos.2 = (cell state pos.1 pos.2).map fun c =>
    if pos = p then 1 else if pos = start then 0 else c

section Walk
variable {state g : Grid} {start p q : ℕ × ℕ} {action : String} {c : UInt8}

theorem Walked.refl (hstart : player state = some start) : Walked state start start state where
  floor := .inl rfl
  cells pos := by
    by_cases hpos : pos = start
    · subst hpos
      rw [cell_of_player hstart]
      simp
    · simp [hpos]

theorem Beside.ne (h : Beside p action q) : q ≠ p := by
  rintro rfl
  obtain ⟨haction, hx, hy⟩ := h
  have hmoves : ∀ a ∈ ACTIONS, delta a ≠ (0, 0) := by decide
  exact hmoves action haction (Prod.ext (by dsimp only; omega) (by dsimp only; omega))

/-- **The attempt of a walking agent**: it enters the cell beside it, as the board has it. -/
theorem Walked.attempt (hwalked : Walked state start p g) (hstart : player state = some start)
    (hone : OneAgent state) (hbeside : Beside p action q) (hc : cell state q.1 q.2 = some c)
    (hne : c ≠ 1) : ∃ att : Attempt g action, att.playerPos = p ∧ att.targetPos = q ∧
      att.target = c := by
  have hstartCell := cell_of_player hstart
  have hcell : ∀ pos : ℕ × ℕ, cell g pos.1 pos.2 = some 1 → pos = p := by
    intro pos hpos
    rw [hwalked.cells] at hpos
    obtain ⟨c', hc', hcolor⟩ := Option.map_eq_some_iff.mp hpos
    by_contra hp
    rw [if_neg hp] at hcolor
    split at hcolor
    · cases hcolor
    · next hs => exact hs (hone (hcolor ▸ hc') hstartCell)
  have hp : cell g p.1 p.2 = some 1 := by
    obtain rfl | hfloor := hwalked.floor
    · simp [hwalked.cells, hstartCell]
    · simp [hwalked.cells, hfloor]
  have hplayer : player g = some p :=
    OneAgent.player_eq (fun _ hpos _ hpos' => (hcell _ hpos).trans (hcell _ hpos').symm) hp
  have hq : cell g q.1 q.2 = some c := by
    have hqs : q ≠ start := by
      rintro rfl
      exact hne (Option.some.inj (hc.symm.trans hstartCell))
    rw [hwalked.cells, hc, Option.map_some, if_neg hbeside.ne, if_neg hqs]
  exact ⟨⟨p.1, p.2, q.1, q.2, c, _, hplayer, hbeside.2.1, hbeside.2.2, hq, rfl⟩, rfl, rfl, rfl⟩

/-- **A step over floor**: all hypotheses predict that the agent walks on. -/
theorem Walked.walk (hwalked : Walked state start p g) (hstart : player state = some start)
    (hone : OneAgent state) (hbeside : Beside p action q) (hfloor : cell state q.1 q.2 = some 0) :
    ∃ g', Walked state start q g' ∧ ∀ sem, predict sem g action = some { grid := g' } := by
  obtain ⟨att, hplayer, htarget, hcolor⟩ := hwalked.attempt hstart hone hbeside hfloor (by decide)
  obtain ⟨g', -, hcells, hall⟩ := predict_of_attempt att
  refine ⟨g', ⟨.inr hfloor, fun pos => ?_⟩, fun sem => ?_⟩
  · rw [hcells, hwalked.cells, Option.map_map, hplayer, htarget]
    cases hpos : cell state pos.1 pos.2 with
    | none => rfl
    | some c =>
        by_cases hq : pos = q
        · simp [Move.recolor, hq]
        · by_cases hp : pos = p
          · subst hp
            obtain rfl | hfloor := hwalked.floor
            · simp [Move.recolor, hq]
            · obtain rfl := Option.some.inj (hfloor.symm.trans hpos)
              simp [Move.recolor, hq]
          · simp [Move.recolor, hq, hp]
  · rw [hall, hcolor]
    rfl

/-- **A step into a color**: the hypotheses predict by what they say of it. -/
theorem Walked.enter (hwalked : Walked state start p g) (hstart : player state = some start)
    (hone : OneAgent state) (hbeside : Beside p action q) (hc : cell state q.1 q.2 = some c)
    (hne : c ≠ 1) : ∃ g', g' ≠ g ∧ ∀ sem, predict sem g action = some (outcome sem c g g') := by
  obtain ⟨att, -, htarget, hcolor⟩ := hwalked.attempt hstart hone hbeside hc hne
  obtain ⟨g', -, hcells, hall⟩ := predict_of_attempt att
  refine ⟨g', ?_, fun sem => by rw [hall, hcolor]⟩
  rintro rfl
  have hat : cell g' att.targetPos.1 att.targetPos.2 = some att.target := att.target_at
  have hmoved := hcells att.targetPos.1 att.targetPos.2
  rw [hat, Option.map_some, Move.recolor, if_pos rfl, Option.some.injEq] at hmoved
  exact hne (hcolor ▸ hmoved)

end Walk

/-! ### What an execution records -/

section Commit
variable {env : Environment ε} {e₀ e e' : ε} {s m : SemMap} {model : WorldModel}
  {plan rest executed : List String} {i : ℕ} {cur state : Grid} {tl tl' : Timeline}
  {report : ExecutionReport}

theorem accounts_append {action : String} {obs : Observation}
    (htl : ∀ t ∈ tl.records, Accounts s t)
    (h : Accounts s (tl.record cur action obs.grid obs.levelUp obs.dead obs.win)) :
    ∀ t ∈ (tl.append cur action obs.grid obs.levelUp obs.dead obs.win).records,
      Accounts s t := by
  intro t ht
  rcases List.mem_append.mp ht with ht | ht
  · exact htl t ht
  · obtain rfl := List.mem_singleton.mp ht
    exact h

/-- **An execution records what the hypothesis explains**, and ends within reach. -/
theorem commitFrom_accounted (hagrees : Agrees env e₀ s) (hreached : Reached env e₀ e (some cur))
    (htl : ∀ t ∈ tl.records, Accounts s t)
    (h : commitFrom env model plan rest i executed cur e tl = some (report, e', tl')) :
    (∀ t ∈ tl'.records, Accounts s t) ∧ ∃ shown, Reached env e₀ e' shown ∧
      (report.win = false → report.dead = false → shown = some report.finalState) := by
  induction rest generalizing i executed cur e tl with
  | nil =>
      obtain ⟨rfl, rfl, rfl⟩ : _ ∧ _ ∧ _ := by simpa [commitFrom] using h
      exact ⟨htl, _, hreached, fun _ _ => rfl⟩
  | cons action rest ih =>
      obtain ⟨pred, obs, e₁, -, hstep, hcases⟩ := commitFrom_exits h
      have hacc := hagrees _ _ _ _ _ tl.len hreached hstep
      have hnext := hreached.step hstep
      rcases hcases with ⟨-, -, -, hfinal, -, -, -, hwin, hdead, rfl, rfl⟩ | ⟨-, hterm, hrest⟩
      · refine ⟨accounts_append htl hacc, _, hnext, fun hw hd => ?_⟩
        have hlevel : obs.levelUp = false := hacc.levelUp
        rw [hwin] at hw
        rw [hdead] at hd
        simp [hlevel, hw, hd, hfinal]
      · have hopen : (obs.levelUp || obs.dead || obs.win) = false := hterm
        rw [hopen, if_neg Bool.false_ne_true] at hnext
        exact ih hnext (accounts_append htl hacc) hrest

/-- **An executed probe ends on a step into a target color**, as far as all hypotheses agree on the
way there. -/
theorem commitFrom_probe {start p : ℕ × ℕ} {targets : List UInt8} (hagrees : Agrees env e₀ s)
    (hmodel : model.step = predict m) (htargets : (1 : UInt8) ∉ targets)
    (hstart : player state = some start) (hone : OneAgent state)
    (hprobe : Probes state targets p rest) (hwalked : Walked state start p cur)
    (hreached : Reached env e₀ e (some cur))
    (h : commitFrom env model plan rest i executed cur e tl = some (report, e', tl')) :
    ∃ t ∈ tl'.records, ∃ c ∈ targets, ∃ g, g ≠ t.stateBefore ∧
      ∀ sem, predict sem t.stateBefore t.action = some (outcome sem c t.stateBefore g) := by
  induction hprobe generalizing i executed cur e tl with
  | @enter p q a c hbeside hc htarget =>
      have hne : c ≠ 1 := fun heq => htargets (heq ▸ htarget)
      obtain ⟨g, hg, hall⟩ := hwalked.enter hstart hone hbeside hc hne
      obtain ⟨pred, obs, e₁, -, -, hcases⟩ := commitFrom_exits h
      refine ⟨tl.record cur a obs.grid obs.levelUp obs.dead obs.win, ?_, c, htarget, g, hg, hall⟩
      have hlast : tl.record cur a obs.grid obs.levelUp obs.dead obs.win ∈
          (tl.append cur a obs.grid obs.levelUp obs.dead obs.win).records :=
        List.mem_append_right _ (List.mem_singleton_self _)
      rcases hcases with ⟨-, -, -, -, -, -, -, -, -, -, rfl⟩ | ⟨-, -, hrest⟩
      · exact hlast
      · obtain ⟨-, -, rfl⟩ : _ ∧ _ ∧ _ := by simpa [commitFrom] using hrest
        exact hlast
  | @walk p q a as hbeside hfloor hprobe ih =>
      obtain ⟨g, hwalked', hall⟩ := hwalked.walk hstart hone hbeside hfloor
      obtain ⟨pred, obs, e₁, hpred, hstep, hcases⟩ := commitFrom_exits h
      obtain ⟨pred', hpred', hex⟩ := hagrees _ _ _ _ _ tl.len hreached hstep
      -- the model and the environment agree on this step
      obtain rfl := Option.some.inj ((hall s).symm.trans hpred')
      rw [hmodel, hall m, Option.some.injEq] at hpred
      subst hpred
      have hterm : (tl.record cur a obs.grid obs.levelUp obs.dead obs.win).terminal = false := by
        have hlevel : false = obs.levelUp := hex.levelUp
        have hdead : false = obs.dead := hex.dead
        have hwin : false = obs.win := hex.win
        simp [Transition.terminal, Timeline.record, ← hlevel, ← hdead, ← hwin]
      rcases hcases with ⟨-, -, -, -, hhalt, -, hlast, -⟩ | ⟨-, -, hrest⟩
      · rcases hlast with hlast | hlast
        · exact absurd hex (hhalt.mp hlast)
        · rw [hterm] at hlast
          cases hlast
      · have hgrid : g = obs.grid := hex.grid.resolve_left (ne_true_of_eq_false hterm)
        have hnext := hreached.step hstep
        have hopen : (obs.levelUp || obs.dead || obs.win) = false := hterm
        rw [hopen, if_neg Bool.false_ne_true] at hnext
        exact ih (hgrid ▸ hwalked') hnext hrest

end Commit

/-! ### What tells hypotheses apart -/

/-- Two predictions that stand against one transition are the same, as far as it shows. -/
theorem Explains.agree {pred pred' : Prediction} {t : Transition} (h : Explains pred t)
    (h' : Explains pred' t) : pred.dead = pred'.dead ∧
      (pred.levelUp = false → pred.dead = false → pred.win = false → pred.grid = pred'.grid) := by
  refine ⟨h.dead.trans h'.dead.symm, fun hlevel hdead hwin => ?_⟩
  have hterm : ¬ t.terminal = true := by
    simp [Transition.terminal, ← h.levelUp, ← h.dead, ← h.win, hlevel, hdead, hwin]
  exact (h.grid.resolve_left hterm).trans (h'.grid.resolve_left hterm).symm

theorem outcome_of_some {sem : SemMap} {c : UInt8} {x : Semantics} {still walked : Grid}
    (h₀ : c ≠ 0) (h₃ : c ≠ 3) (hx : sem c = some x) :
    outcome sem c still walked = x.outcome still walked := by
  rw [outcome, if_neg h₃, if_neg h₀, hx, Option.getD_some]

/-- **A step into a color tells apart the hypotheses that differ on it.** -/
theorem not_accounts {s m : SemMap} {t : Transition} {c : UInt8} {x y : Semantics} {g : Grid}
    (h₀ : c ≠ 0) (h₃ : c ≠ 3) (hx : s c = some x) (hy : m c = some y) (hne : x ≠ y)
    (hg : g ≠ t.stateBefore)
    (hall : ∀ sem, predict sem t.stateBefore t.action = some (outcome sem c t.stateBefore g))
    (hs : Accounts s t) : ¬ Accounts m t := by
  rintro ⟨pred', hpred', hex'⟩
  obtain ⟨pred, hpred, hex⟩ := hs
  rw [hall, Option.some.injEq, outcome_of_some h₀ h₃ hx] at hpred
  rw [hall, Option.some.injEq, outcome_of_some h₀ h₃ hy] at hpred'
  subst hpred hpred'
  obtain ⟨hdead, hgrid⟩ := hex.agree hex'
  cases x <;> cases y <;> simp_all [Semantics.outcome, eq_comm]

/-! ### Deliberations -/

/-- **A deliberation** keeps what is consistent, models the first of it, and probes or plans. -/
theorem ToggleDeliberator.deliberate_cases {del del' : ToggleDeliberator} {current : Grid}
    {model model' : WorldModel} {tl : Timeline} {backtest : BacktestReport}
    (ce : Option Transition) {d : Deliberation}
    (h : del.deliberate current model tl backtest ce = some (d, model', del')) :
    ∃ cs best, retain tl del.candidates = some cs ∧ del' = { del with candidates := cs } ∧
      model'.step = predict best ∧
      (d.intent = .experiment ∧ probePath current del'.ambiguousColors = some (some d.actions) ∨
        d.intent = .plan ∧ d.actions = []) := by
  obtain ⟨cs, hcs, h⟩ := Option.bind_eq_some_iff.mp h
  obtain ⟨best, -, h⟩ := Option.bind_eq_some_iff.mp h
  refine ⟨cs, best, hcs, ?_⟩
  dsimp only at h
  split at h
  · obtain ⟨rfl, rfl, rfl⟩ : _ ∧ _ ∧ _ := by simpa using h
    exact ⟨rfl, rfl, .inr ⟨rfl, rfl⟩⟩
  · obtain ⟨probe, hprobe, h⟩ := Option.bind_eq_some_iff.mp h
    cases probe with
    | none =>
        obtain ⟨rfl, rfl, rfl⟩ : _ ∧ _ ∧ _ := by simpa using h
        exact ⟨rfl, rfl, .inr ⟨rfl, rfl⟩⟩
    | some probe =>
        obtain ⟨rfl, rfl, rfl⟩ : _ ∧ _ ∧ _ := by simpa using h
        exact ⟨rfl, rfl, .inl ⟨rfl, hprobe⟩⟩

/-- Hypotheses that differ on a color are told apart by it from any other. -/
theorem exists_differs {del : ToggleDeliberator} {c : UInt8} (h : c ∈ del.ambiguousColors)
    (s : SemMap) : c ∈ del.unknownColors ∧ ∃ m ∈ del.candidates, m c ≠ s c := by
  obtain ⟨hc, hlt⟩ := List.mem_filter.mp h
  refine ⟨hc, ?_⟩
  by_contra hsame
  push Not at hsame
  have hsub : (del.candidates.map fun m => m c).dedup ⊆ [s c] := by
    intro v hv
    obtain ⟨m, hm, rfl⟩ := List.mem_map.mp (List.mem_dedup.mp hv)
    exact List.mem_singleton.mpr (hsame m hm)
  have hle := ((List.nodup_dedup _).subperm hsub).length_le
  rw [decide_eq_true_eq] at hlt
  exact absurd (hlt.trans_le hle) (lt_irrefl 1)

theorem mem_unknownIn {grid : Grid} {c : UInt8} (h : c ∈ unknownIn grid) :
    c ≠ 0 ∧ c ≠ 1 ∧ c ≠ 3 := by
  rw [unknownIn, List.mem_insertionSort, List.mem_dedup, List.mem_filter] at h
  simpa using h.2

section Runs
variable {env : Environment ε} {e₀ : ε} {s : SemMap} {g₀ : Grid}
  {a a' a₁ a₁' : Agent ε ToggleDeliberator} {d d' : Deliberation}

/-- **The state of a run** between two steps of the agent: the record is explained by `s`, and no
hypothesis that is consistent with it has been dropped. -/
structure Sound (env : Environment ε) (e₀ : ε) (s : SemMap) (g₀ : Grid)
    (a : Agent ε ToggleDeliberator) : Prop where
  reached : Reached env e₀ a.env (some a.current)
  accounted : ∀ t ∈ a.timeline.records, Accounts s t
  colors : a.deliberator.unknownColors = unknownIn g₀
  about : ∀ m ∈ a.deliberator.candidates, Over (unknownIn g₀) m
  complete : ∀ m, Over (unknownIn g₀) m → consistent m a.timeline = some true →
    m ∈ a.deliberator.candidates

/-- **What is kept in a sound state**: the hypotheses that are consistent with the record. -/
theorem Sound.retain (h : Sound env e₀ s g₀ a) (hs : Over (unknownIn g₀) s) : ∃ cs,
    ToggleDeliberator.retain a.timeline a.deliberator.candidates = some cs ∧
    cs.Sublist a.deliberator.candidates ∧ s ∈ cs ∧
    ∀ m, m ∈ cs ↔ Over (unknownIn g₀) m ∧ consistent m a.timeline = some true := by
  obtain ⟨cs, hcs, hsub, hmem⟩ :=
    retain_spec (consistent_isSome h.accounted) a.deliberator.candidates
  have hiff : ∀ m, m ∈ cs ↔ Over (unknownIn g₀) m ∧ consistent m a.timeline = some true := by
    intro m
    rw [hmem]
    exact and_congr_left fun hm => ⟨h.about m, fun hover => h.complete m hover hm⟩
  exact ⟨cs, hcs, hsub, (hiff s).mpr ⟨hs, consistent_iff.mpr h.accounted⟩, hiff⟩

/-- A deliberation keeps a state sound. -/
theorem Sound.deliberate (h : Sound env e₀ s g₀ a) (hs : Over (unknownIn g₀) s)
    (hdel : Schema.deliberate toggleDeliberator a = some (d, a₁)) : Sound env e₀ s g₀ a₁ ∧
    ToggleDeliberator.retain a.timeline a.deliberator.candidates =
      some a₁.deliberator.candidates ∧
    (d.intent = .experiment ∧ (∃ m, a₁.model.step = predict m) ∧
        probePath a₁.current a₁.deliberator.ambiguousColors = some (some d.actions) ∨
      d.intent = .plan ∧ d.actions = []) := by
  obtain ⟨kept, hkept, -, -, hmem⟩ := h.retain hs
  simp only [Schema.deliberate, Option.bind_eq_bind, Option.bind_eq_some_iff] at hdel
  obtain ⟨report, -, ⟨d', model, del⟩, hcases, heq⟩ := hdel
  obtain ⟨rfl, rfl⟩ := Prod.mk.inj (Option.some.inj heq)
  obtain ⟨cs, best, hcs, rfl, hmodel, hrest⟩ := deliberate_cases a.counterexample hcases
  obtain rfl := Option.some.inj (hcs.symm.trans hkept)
  refine ⟨⟨h.reached, h.accounted, h.colors, fun m hm => ((hmem m).mp hm).1,
    fun m hover hm => (hmem m).mpr ⟨hover, hm⟩⟩, hcs, hrest.imp ?_ id⟩
  rintro ⟨hintent, hprobe⟩
  exact ⟨hintent, ⟨best, hmodel⟩, hprobe⟩

/-- The gate keeps a state sound, and lets an experiment with actions through as it is. -/
theorem Sound.turn (h : Sound env e₀ s g₀ a) (hs : Over (unknownIn g₀) s)
    (hturn : Schema.turn env toggleDeliberator a = some (d, a₁)) : Sound env e₀ s g₀ a₁ ∧
    (d.intent = .experiment → d.actions ≠ [] → (∃ m, a₁.model.step = predict m) ∧
      probePath a₁.current a₁.deliberator.ambiguousColors = some (some d.actions)) := by
  obtain ⟨⟨d₀, a₀⟩, hdel, hgate⟩ := Option.bind_eq_some_iff.mp hturn
  obtain ⟨hsound, -, hcases⟩ := h.deliberate hs hdel
  rcases gate_spec hgate with ⟨hi, rfl, rfl⟩ | ⟨hi, rfl, rfl⟩ | ⟨hi, -, bfs, -, rfl, rfl⟩
  · refine ⟨hsound, fun _ _ => ?_⟩
    rcases hcases with ⟨-, hprobe⟩ | ⟨hplan, -⟩
    · exact hprobe
    · rw [hi] at hplan
      cases hplan
  · refine ⟨hsound, fun _ hne => ?_⟩
    rcases hcases with ⟨hexp, -⟩ | ⟨-, hnil⟩
    · rw [hi] at hexp
      cases hexp
    · exact absurd hnil hne
  · refine ⟨⟨hsound.reached, hsound.accounted, hsound.colors, hsound.about, hsound.complete⟩,
      fun hexp _ => ?_⟩
    rw [show d₀.intent = .experiment from hexp] at hi
    cases hi

/-- **What an execution leaves behind** when the run goes on. -/
theorem execute_again {δ : Type} {a a' : Agent ε δ} (h : execute env d a = some (.again, a')) :
    (d.actions = [] ∧ a' = a) ∨ ∃ report e,
      commitActions env a.env a.model a.timeline a.current d.actions =
        some (report, e, a'.timeline) ∧ a'.deliberator = a.deliberator ∧
      ((report.win = false ∧ report.dead = false ∧ a'.env = e ∧ a'.current = report.finalState) ∨
        ∃ obs, env.reset e = some (obs, a'.env) ∧ a'.current = obs.grid) := by
  rw [execute] at h
  split at h
  · next hnil =>
      obtain ⟨-, rfl⟩ := Prod.mk.inj (Option.some.inj h)
      exact .inl ⟨List.isEmpty_iff.mp hnil, rfl⟩
  obtain ⟨⟨report, e, tl⟩, hcommit, h⟩ := Option.bind_eq_some_iff.mp h
  dsimp only at h
  split at h
  · cases (Prod.mk.inj (Option.some.inj h)).1
  next hwin =>
  split at h
  · obtain ⟨⟨obs, e'⟩, hreset, h⟩ := Option.bind_eq_some_iff.mp h
    obtain ⟨-, rfl⟩ := Prod.mk.inj (Option.some.inj h)
    exact .inr ⟨report, e, hcommit, rfl, .inr ⟨obs, hreset, rfl⟩⟩
  next hdead =>
  rw [Bool.not_eq_true] at hwin hdead
  split at h
  · obtain ⟨-, rfl⟩ := Prod.mk.inj (Option.some.inj h)
    exact .inr ⟨report, e, hcommit, rfl, .inl ⟨hwin, hdead, rfl, rfl⟩⟩
  · obtain ⟨-, rfl⟩ := Prod.mk.inj (Option.some.inj h)
    exact .inr ⟨report, e, hcommit, rfl, .inl ⟨hwin, hdead, rfl, rfl⟩⟩

/-- An execution keeps a state sound. -/
theorem Sound.execute (hagrees : Agrees env e₀ s) (h : Sound env e₀ s g₀ a)
    (hexec : Schema.execute env d a = some (.again, a')) : Sound env e₀ s g₀ a' := by
  obtain ⟨-, rfl⟩ | ⟨report, e, hcommit, hdel, hrest⟩ := execute_again hexec
  · exact h
  obtain ⟨haccounted, shown, hreached, hshown⟩ :=
    commitFrom_accounted hagrees h.reached h.accounted hcommit
  obtain ⟨passed, hrecords, -⟩ := commitFrom_appends hcommit
  refine ⟨?_, haccounted, hdel ▸ h.colors, hdel ▸ h.about, fun m hover hm => ?_⟩
  · rcases hrest with ⟨hwin, hdead, henv, hcurrent⟩ | ⟨obs, hreset, hcurrent⟩
    · rw [henv, hcurrent, ← hshown hwin hdead]
      exact hreached
    · rw [hcurrent]
      exact hreached.reset hreset
  · -- what explains the longer record explains the shorter
    rw [hdel]
    refine h.complete m hover (consistent_iff.mpr fun t ht => consistent_iff.mp hm t ?_)
    rw [hrecords, List.append_assoc]
    exact List.mem_append_left _ ht

/-- A cycle keeps a state sound. -/
theorem Sound.cycle (hagrees : Agrees env e₀ s) (hs : Over (unknownIn g₀) s)
    (h : Sound env e₀ s g₀ a)
    (hcycle : Schema.cycle env toggleDeliberator a = some (.again, a')) : Sound env e₀ s g₀ a' := by
  obtain ⟨⟨d, a₁⟩, hturn, hexec⟩ := Option.bind_eq_some_iff.mp hcycle
  exact (h.turn hs hturn).1.execute hagrees hexec

/-- **An executed probe leaves fewer hypotheses.** -/
theorem Sound.shrinks (hagrees : Agrees env e₀ s) (hs : Over (unknownIn g₀) s)
    (hone : StartsWithOneAgent env e₀) (h : Sound env e₀ s g₀ a)
    (hturn : Schema.turn env toggleDeliberator a = some (d, a₁)) (hi : d.intent = .experiment)
    (hne : d.actions ≠ []) (hexec : Schema.execute env d a₁ = some (.again, a'))
    (hdel : Schema.deliberate toggleDeliberator a' = some (d', a₁')) :
    a₁'.deliberator.candidates.Sublist a₁.deliberator.candidates ∧
      a₁'.deliberator.candidates.length < a₁.deliberator.candidates.length := by
  obtain ⟨h₁, hprobing⟩ := h.turn hs hturn
  obtain ⟨⟨best, hmodel⟩, hpath⟩ := hprobing hi hne
  have h' := h₁.execute hagrees hexec
  obtain ⟨cs, hcs, hsub, -, hmem⟩ := h'.retain hs
  obtain ⟨-, hkept, -⟩ := h'.deliberate hs hdel
  obtain rfl := Option.some.inj (hkept.symm.trans hcs)
  obtain ⟨hnil, -⟩ | ⟨report, e, hcommit, hsame, -⟩ := execute_again hexec
  · exact absurd hnil hne
  rw [hsame] at hsub
  refine ⟨hsub, lt_of_le_of_ne hsub.length_le fun hlen => ?_⟩
  -- the probe ends in a color that tells some hypothesis from `s`
  obtain ⟨start, hstart, hprobe⟩ := probePath_spec hpath
  have hcolors : ∀ c ∈ a₁.deliberator.ambiguousColors, c ∈ unknownIn g₀ := fun c hc =>
    h₁.colors ▸ (List.mem_filter.mp hc).1
  obtain ⟨t, ht, c, hc, g, hg, hall⟩ := commitFrom_probe hagrees hmodel
    (fun hone => (mem_unknownIn (hcolors 1 hone)).2.1 rfl) hstart
    (h₁.reached.oneAgent hagrees hone _ rfl) hprobe (.refl hstart) h₁.reached hcommit
  obtain ⟨-, m, hm, hdiffers⟩ := exists_differs hc s
  obtain ⟨h₀, -, h₃⟩ := mem_unknownIn (hcolors c hc)
  obtain ⟨x, hx⟩ := Option.isSome_iff_exists.mp ((hs c).mpr (hcolors c hc))
  obtain ⟨y, hy⟩ := Option.isSome_iff_exists.mp ((h₁.about m hm c).mpr (hcolors c hc))
  have hxy : x ≠ y := by
    rintro rfl
    exact hdiffers (hy.trans hx.symm)
  refine not_accounts h₀ h₃ hx hy hxy hg hall (h'.accounted t ht) ?_
  rw [← hsub.eq_of_length hlen] at hm
  exact consistent_iff.mp ((hmem m).mp hm).2 t ht

end Runs

theorem Head.sound {ep : Episode ε ToggleDeliberator} {g₀ : Grid} {s : SemMap} {k : ℕ}
    {a : Agent ε ToggleDeliberator} (hdel : ep.del = toggleDeliberator)
    (hnew : ep.deliberator = .new g₀) (htl : ep.timeline = .new) (hs : Over (unknownIn g₀) s)
    (hagrees : Agrees ep.env ep.start s) (h : Head ep k a) : Sound ep.env ep.start s g₀ a := by
  induction h with
  | first _ hobs =>
      obtain ⟨⟨obs, e⟩, hreset, h⟩ := Option.bind_eq_some_iff.mp hobs
      obtain rfl := Option.some.inj h
      rw [hnew, htl]
      exact ⟨.reset .start hreset, fun t ht => (by cases ht), rfl, fun m hm => mem_new_iff.mp hm,
        fun m hover _ => mem_new_iff.mpr hover⟩
  | next _ _ hcycle ih => exact ih.cycle hagrees hs (hdel ▸ hcycle)

/-- **Elimination.**  In an environment that behaves as `s`, the hypotheses a deliberation leaves are
those consistent with the whole record, and `s` is one of them.  Where the episodes begin with one
agent, an executed experiment leaves fewer. -/
theorem elimination (ep : Episode ε ToggleDeliberator) {g₀ : Grid} {s : SemMap}
    (hdel : ep.del = toggleDeliberator) (hnew : ep.deliberator = .new g₀)
    (htl : ep.timeline = .new) (hs : Over (unknownIn g₀) s)
    (hagrees : Agrees ep.env ep.start s) :
    (∀ k a, Head ep k a → ∃ cs, retain a.timeline a.deliberator.candidates = some cs ∧ s ∈ cs ∧
      (∀ m, m ∈ cs ↔ Over (unknownIn g₀) m ∧ consistent m a.timeline = some true) ∧
      ∀ d a₁, deliberate ep.del a = some (d, a₁) → a₁.deliberator.candidates = cs) ∧
    (StartsWithOneAgent ep.env ep.start → ∀ k a d a₁ a' d' a₁', Head ep k a →
      turn ep.env ep.del a = some (d, a₁) → d.intent = .experiment → d.actions ≠ [] →
      execute ep.env d a₁ = some (.again, a') → deliberate ep.del a' = some (d', a₁') →
      a₁'.deliberator.candidates.Sublist a₁.deliberator.candidates ∧
        a₁'.deliberator.candidates.length < a₁.deliberator.candidates.length) := by
  refine ⟨fun k a hhead => ?_, ?_⟩
  · have hsound := hhead.sound hdel hnew htl hs hagrees
    obtain ⟨cs, hcs, -, hin, hmem⟩ := hsound.retain hs
    refine ⟨cs, hcs, hin, hmem, fun d a₁ hd => ?_⟩
    obtain ⟨-, hkept, -⟩ := hsound.deliberate hs (hdel ▸ hd)
    exact Option.some.inj (hkept.symm.trans hcs)
  · intro hone k a d a₁ a' d' a₁' hhead hturn hi hne hexec hd
    exact (hhead.sound hdel hnew htl hs hagrees).shrinks hagrees hs hone (hdel ▸ hturn) hi hne hexec
      (hdel ▸ hd)

/-! ### Environments that behave as a hypothesis -/

/-- A board on which the actions do what the hypothesis predicts. -/
def predicted (board : Grid) (s : SemMap) : Environment Grid where
  reset _ := some ({ grid := board }, board)
  step g a := (predict s g a).map fun p =>
    ({ grid := p.grid, levelUp := p.levelUp, dead := p.dead, win := p.win }, p.grid)
  actionsTaken _ := 0
  legalActions _ := ACTIONS

theorem predicted_agrees (board : Grid) (s : SemMap) : Agrees (predicted board s) board s := by
  have hshown : ∀ e shown, Reached (predicted board s) board e shown → ∀ g ∈ shown, e = g := by
    intro e shown h
    induction h with
    | start => exact fun g hg => by cases hg
    | reset _ hreset =>
        obtain ⟨rfl, rfl⟩ := Prod.mk.inj (Option.some.inj hreset)
        rintro g ⟨rfl⟩
        rfl
    | step _ hstep _ =>
        obtain ⟨p, -, hobs⟩ := Option.map_eq_some_iff.mp hstep
        obtain ⟨rfl, rfl⟩ := Prod.mk.inj hobs
        intro g hg
        split at hg
        · cases hg
        · exact Option.some.inj hg
  intro e e' g a obs i hreached hstep
  obtain rfl := hshown e _ hreached g rfl
  obtain ⟨p, hp, hobs⟩ := Option.map_eq_some_iff.mp hstep
  obtain ⟨rfl, rfl⟩ := Prod.mk.inj hobs
  exact ⟨p, hp, rfl, rfl, rfl, .inr rfl⟩

/-- Two cycles on such a board. -/
def predictedEpisode (board : Grid) (s : SemMap) : Episode Grid ToggleDeliberator where
  env := predicted board s
  del := toggleDeliberator
  start := board
  model := .vacuous
  deliberator := .new board
  timeline := .new
  maxCycles := 2

/-- The color 7 can be walked on. -/
def passableSeven : SemMap := fun c => if c = 7 then some .passable else none

theorem over_passableSeven : Over [7] passableSeven := by
  intro c
  rw [passableSeven, List.mem_singleton]
  split <;> simp [*]

/-- The agent, and a cell of color 7. -/
def corridor : Grid := [[1, 7]]

theorem corridor_oneAgent : OneAgent corridor := by
  have hone : ∀ pos : ℕ × ℕ, cell corridor pos.1 pos.2 = some 1 → pos = (0, 0) := by
    intro pos hpos
    have hmem := mem_findColor.mpr hpos
    rwa [show findColor corridor 1 = [(0, 0)] by decide, List.mem_singleton] at hmem
  exact fun pos hpos pos' hpos' => (hone pos hpos).trans (hone pos' hpos').symm

theorem elimination_corridor :
    (∀ k a, Head (predictedEpisode corridor passableSeven) k a →
      ∃ cs, retain a.timeline a.deliberator.candidates = some cs ∧ passableSeven ∈ cs ∧
      (∀ m, m ∈ cs ↔ Over (unknownIn corridor) m ∧ consistent m a.timeline = some true) ∧
      ∀ d a₁, deliberate (predictedEpisode corridor passableSeven).del a = some (d, a₁) →
        a₁.deliberator.candidates = cs) ∧
    ∀ k a d a₁ a' d' a₁', Head (predictedEpisode corridor passableSeven) k a →
      turn (predictedEpisode corridor passableSeven).env
        (predictedEpisode corridor passableSeven).del a = some (d, a₁) →
      d.intent = .experiment → d.actions ≠ [] →
      execute (predictedEpisode corridor passableSeven).env d a₁ = some (.again, a') →
      deliberate (predictedEpisode corridor passableSeven).del a' = some (d', a₁') →
      a₁'.deliberator.candidates.Sublist a₁.deliberator.candidates ∧
        a₁'.deliberator.candidates.length < a₁.deliberator.candidates.length := by
  have h := elimination (predictedEpisode corridor passableSeven) rfl rfl rfl
    (show Over (unknownIn corridor) passableSeven from
      (show unknownIn corridor = [7] by decide) ▸ over_passableSeven)
    (predicted_agrees corridor passableSeven)
  refine ⟨h.1, h.2 fun e e' g obs _ hreset => ?_⟩
  obtain ⟨rfl, -⟩ := Prod.mk.inj (Option.some.inj hreset)
  exact corridor_oneAgent

/-- Two cells of color 1: the search starts at the first, and the first after a step down is the
other. -/
def twoAgents : Grid := [[1, 3, 1], [0, 3, 0], [7, 3, 0]]

/-- **A probe that tells nothing apart**: its second step moves the other agent. -/
theorem two_agents_probe : Over (unknownIn twoAgents) passableSeven ∧
    Agrees (predictedEpisode twoAgents passableSeven).env twoAgents passableSeven ∧
    ∃ a d a₁ a' d' a₁', Head (predictedEpisode twoAgents passableSeven) 0 a ∧
      turn (predictedEpisode twoAgents passableSeven).env
        (predictedEpisode twoAgents passableSeven).del a = some (d, a₁) ∧
      d.intent = .experiment ∧ d.actions = ["down", "down"] ∧
      execute (predictedEpisode twoAgents passableSeven).env d a₁ = some (.again, a') ∧
      deliberate (predictedEpisode twoAgents passableSeven).del a' = some (d', a₁') ∧
      a₁.deliberator.candidates.length = 3 ∧ a₁'.deliberator.candidates.length = 3 := by
  refine ⟨(show unknownIn twoAgents = [7] by decide) ▸ over_passableSeven,
    predicted_agrees twoAgents passableSeven, ?_⟩
  set ep := predictedEpisode twoAgents passableSeven
  have hrun : ((observe ep.env ep.start ep.model ep.deliberator ep.timeline).bind fun a =>
      (turn ep.env ep.del a).bind fun x => (execute ep.env x.1 x.2).bind fun y =>
        (deliberate ep.del y.2).map fun z => (x.1.intent, x.1.actions, y.1,
          x.2.deliberator.candidates.length, z.2.deliberator.candidates.length)) =
      some (.experiment, ["down", "down"], .again, 3, 3) := by
    decide +kernel
  obtain ⟨a, hobserve, h⟩ := Option.bind_eq_some_iff.mp hrun
  obtain ⟨⟨d, a₁⟩, hturn, h⟩ := Option.bind_eq_some_iff.mp h
  obtain ⟨⟨flow, a'⟩, hexec, h⟩ := Option.bind_eq_some_iff.mp h
  obtain ⟨⟨d', a₁'⟩, hdel, h⟩ := Option.map_eq_some_iff.mp h
  obtain ⟨hi, hactions, rfl, hlen, hlen'⟩ : _ ∧ _ ∧ _ ∧ _ ∧ _ := by simpa using h
  exact ⟨a, d, a₁, a', d', a₁', .first (by decide) hobserve, hturn, hi, hactions, hexec, hdel, hlen,
    hlen'⟩

end Jcode.Schema
