import Jcode.Schema.Match

/-!
# Schema — what reaches the environment, and what comes back

The cycles of an episode, from their heads: the agent between two cycles (`Head`).

* `Head.run_eq`: the episode is what follows its heads.
* `plans_certified_iff`: the plans an episode commits come from the search, in a certified model,
  except where the search finds nothing and the deliberator's own actions stand in.
* `counterexamples_kept_iff`: a misprediction reaches the next deliberation, except where the
  mispredicted transition is a death.
-/

namespace Jcode.Schema

/-- What an episode starts from. -/
structure Episode (ε δ : Type) where
  env : Environment ε
  del : Deliberator δ
  start : ε
  model : WorldModel
  deliberator : δ
  timeline : Timeline
  maxCycles : ℕ

variable {ε δ : Type}

def Episode.run (ep : Episode ε δ) : Option (Agent ε δ) :=
  Schema.run ep.env ep.del ep.start ep.model ep.deliberator ep.timeline ep.maxCycles

/-- `a` is the agent at the head of the `k`-th cycle. -/
inductive Head (ep : Episode ε δ) : ℕ → Agent ε δ → Prop where
  | first {a : Agent ε δ} : 0 < ep.maxCycles →
      observe ep.env ep.start ep.model ep.deliberator ep.timeline = some a → Head ep 0 a
  | next {k : ℕ} {a a' : Agent ε δ} : Head ep k a → k + 1 < ep.maxCycles →
      cycle ep.env ep.del a = some (.again, a') → Head ep (k + 1) a'

section Head
variable {ep : Episode ε δ} {k : ℕ} {a a' : Agent ε δ}

theorem Head.lt (h : Head ep k a) : k < ep.maxCycles := by
  cases h with
  | first hmax => exact hmax
  | next _ hmax => exact hmax

/-- **The episode goes on from its heads.** -/
theorem Head.run_eq (h : Head ep k a) :
    ep.run = (cycles ep.env ep.del (ep.maxCycles - k) a).map (finish ep.env) := by
  induction h with
  | first hmax hobs =>
      rw [Episode.run, Schema.run, hobs, Nat.sub_zero]
      simp [Option.map_eq_bind]
  | @next k a a' _ hmax hcycle ih =>
      rw [ih]
      have hsub : ep.maxCycles - k = (ep.maxCycles - (k + 1)) + 1 := by omega
      rw [hsub, cycles, hcycle]
      rfl

end Head

/-! ### One cycle -/

section Cycle
variable {env : Environment ε} {del : Deliberator δ} {a a' : Agent ε δ}
  {d d' : Deliberation}

theorem deliberate_spec (h : deliberate del a = some (d, a')) :
    a'.env = a.env ∧ a'.timeline = a.timeline ∧ a'.current = a.current ∧
      a'.counterexample = none := by
  simp only [deliberate, Option.bind_eq_bind, Option.bind_eq_some_iff] at h
  obtain ⟨report, -, ⟨d', model, s⟩, -, h⟩ := h
  obtain ⟨rfl, rfl⟩ := Prod.mk.inj (Option.some.inj h)
  exact ⟨rfl, rfl, rfl, rfl⟩

/-- The model is certified: it explains the whole record, or there is none. -/
def Certified (a : Agent ε δ) : Prop :=
  a.timeline.isEmpty = true ∨
    ∃ post, runBacktest a.model a.timeline = some post ∧ post.mismatches = []

/-- The test of the gate. -/
theorem certified_iff : Certified a ↔ ∃ post, runBacktest a.model a.timeline = some post ∧
    (post.green || a.timeline.isEmpty) = true := by
  constructor
  · rintro (hempty | ⟨post, hpost, hclean⟩)
    · refine ⟨{ total := a.timeline.len }, ?_, by simp [hempty]⟩
      rw [runBacktest, List.isEmpty_iff.mp hempty]
      rfl
    · refine ⟨post, hpost, ?_⟩
      cases hrec : a.timeline.records with
      | nil => simp [Timeline.isEmpty, hrec]
      | cons t ts =>
          have htotal := (backtest_accounts hpost).1
          simp [BacktestReport.green, hclean, htotal, Timeline.len, hrec]
  · rintro ⟨post, hpost, htest⟩
    rcases Bool.or_eq_true_iff.mp htest with hgreen | hempty
    · refine .inr ⟨post, hpost, ?_⟩
      simp only [BacktestReport.green, Bool.and_eq_true, List.isEmpty_iff] at hgreen
      exact hgreen.1
    · exact .inl hempty

/-- The search of a cycle. -/
def search (env : Environment ε) (a : Agent ε δ) : Option BfsReport :=
  runBfs a.model a.current (env.legalActions a.env) 100000

/-- **What the gate lets through**: an experiment, a plan made into one, or, in a certified model,
the plan of the search; where the search finds none, the actions that came in. -/
theorem gate_spec (h : gate env d a = some (d', a')) :
    (d.intent = .experiment ∧ d' = d ∧ a' = a) ∨
    (d.intent = .plan ∧ d' = { d with intent := .experiment } ∧ a' = a) ∨
    (d.intent = .plan ∧ Certified a ∧ ∃ bfs, search env a = some bfs ∧
      d' = { d with actions := bfs.plan.getD d.actions } ∧
      a' = { a with log := { a.log with bfsReports := a.log.bfsReports ++ [bfs.summary] } }) := by
  rw [gate] at h
  cases hi : d.intent with
  | experiment =>
      simp only [hi, reduceCtorEq, if_false] at h
      obtain ⟨rfl, rfl⟩ := Prod.mk.inj (Option.some.inj h)
      exact .inl ⟨rfl, rfl, rfl⟩
  | plan =>
      simp only [hi, if_true, Option.bind_eq_bind, Option.bind_eq_some_iff] at h
      obtain ⟨post, hpost, h⟩ := h
      split at h
      · obtain ⟨rfl, rfl⟩ := Prod.mk.inj (Option.some.inj h)
        exact .inr (.inl ⟨rfl, rfl, rfl⟩)
      · rename_i htest
        rw [Bool.not_eq_true, Bool.not_eq_false'] at htest
        obtain ⟨bfs, hbfs, h⟩ := Option.bind_eq_some_iff.mp h
        refine .inr (.inr ⟨rfl, certified_iff.mpr ⟨post, hpost, htest⟩, bfs, hbfs, ?_⟩)
        cases hplan : bfs.plan with
        | none =>
            rw [hplan] at h
            obtain ⟨rfl, rfl⟩ := Prod.mk.inj (Option.some.inj h)
            exact ⟨by rw [← hi]; rfl, rfl⟩
        | some plan =>
            rw [hplan] at h
            obtain ⟨rfl, rfl⟩ := Prod.mk.inj (Option.some.inj h)
            exact ⟨by rw [← hi]; rfl, rfl⟩

/-! ### Plans -/

/-- The plan a cycle commits is the plan of the search, in a certified model. -/
def PlansCertified (env : Environment ε) (del : Deliberator δ) (a : Agent ε δ) : Prop :=
  ∀ d a', turn env del a = some (d, a') → d.intent = .plan → d.actions ≠ [] →
    Certified a' ∧ ∃ bfs, search env a' = some bfs ∧ bfs.plan = some d.actions

/-- The deliberator asks for a plan and proposes actions, its model is certified, and the search
finds no plan. -/
def FallsThrough (env : Environment ε) (del : Deliberator δ) (a : Agent ε δ) : Prop :=
  ∃ d a₁ bfs, deliberate del a = some (d, a₁) ∧ d.intent = .plan ∧ d.actions ≠ [] ∧
    Certified a₁ ∧ search env a₁ = some bfs ∧ bfs.plan = none

theorem gate_falls_through {bfs : BfsReport} (hi : d.intent = .plan) (hcert : Certified a)
    (hbfs : search env a = some bfs) (hplan : bfs.plan = none) : gate env d a = some
      (d, { a with log := { a.log with bfsReports := a.log.bfsReports ++ [bfs.summary] } }) := by
  obtain ⟨post, hpost, htest⟩ := certified_iff.mp hcert
  rw [search] at hbfs
  simp only [gate, hi, if_true, hpost, htest, hbfs, hplan, Option.bind_eq_bind, Option.bind_some,
    Bool.not_true, Bool.false_eq_true, if_false]
  rfl

theorem plansCertified_iff : PlansCertified env del a ↔ ¬ FallsThrough env del a := by
  constructor
  · rintro h ⟨d, a₁, bfs, hdel, hi, hne, hcert, hbfs, hplan⟩
    have hturn : turn env del a = some (d, { a₁ with
        log := { a₁.log with bfsReports := a₁.log.bfsReports ++ [bfs.summary] } }) := by
      rw [turn, hdel]
      exact gate_falls_through hi hcert hbfs hplan
    obtain ⟨-, bfs', hbfs', hplan'⟩ := h d _ hturn hi hne
    -- the search reads nothing of the log, so it is the one that found no plan
    obtain rfl := Option.some.inj (hbfs.symm.trans hbfs')
    rw [hplan] at hplan'
    cases hplan'
  · intro h d' a' hturn hi' hne
    obtain ⟨⟨d, a₁⟩, hdel, hgate⟩ := Option.bind_eq_some_iff.mp hturn
    rcases gate_spec hgate with ⟨hi, rfl, rfl⟩ | ⟨-, hi, -⟩ | ⟨hi, hcert, bfs, hbfs, rfl, rfl⟩
    · rw [hi] at hi'; cases hi'
    · rw [hi] at hi'; cases hi'
    · refine ⟨hcert, bfs, hbfs, ?_⟩
      cases hplan : bfs.plan with
      | none =>
          rw [hplan] at hne
          exact absurd ⟨d, a₁, bfs, hdel, hi, hne, hcert, hbfs, hplan⟩ h
      | some plan => rfl

/-- What is committed is logged, under the tag of its intent. -/
theorem execute_logs {flow : Flow} (h : execute env d a = some (flow, a')) (hne : d.actions ≠ []) :
    ∃ result e tl,
      commitActions env a.env a.model a.timeline a.current d.actions = some (result, e, tl) ∧
      a'.log.executions = a.log.executions ++ [d.intent.tag ++ " " ++ result.summary] := by
  rw [execute, if_neg (by simpa using hne)] at h
  obtain ⟨⟨result, e, tl⟩, hcommit, h⟩ := Option.bind_eq_some_iff.mp h
  refine ⟨result, e, tl, hcommit, ?_⟩
  dsimp only at h
  split at h
  · obtain ⟨-, rfl⟩ := Prod.mk.inj (Option.some.inj h); rfl
  split at h
  · obtain ⟨⟨obs, e'⟩, -, h⟩ := Option.bind_eq_some_iff.mp h
    obtain ⟨-, rfl⟩ := Prod.mk.inj (Option.some.inj h); rfl
  split at h
  · obtain ⟨-, rfl⟩ := Prod.mk.inj (Option.some.inj h); rfl
  · obtain ⟨-, rfl⟩ := Prod.mk.inj (Option.some.inj h); rfl

end Cycle

/-- **Plans are searched for in certified models**, in every cycle of an episode, exactly when no
cycle falls through the gate. -/
theorem plans_certified_iff (ep : Episode ε δ) :
    (∀ k a, Head ep k a → PlansCertified ep.env ep.del a) ↔
      ∀ k a, Head ep k a → ¬ FallsThrough ep.env ep.del a :=
  forall₃_congr fun _ _ _ => plansCertified_iff

/-! ### An episode that falls through -/

/-- A cell in which nothing happens. -/
def stillCell : Environment ℕ where
  reset n := some ({ grid := [[1]] }, n)
  step n _ := some ({ grid := [[1]] }, n + 1)
  actionsTaken n := n
  legalActions _ := ["up"]

/-- The request of the first cycle, and its text. -/
def firstRequest : DeliberationRequest where
  currentGrid := [[1]]
  legalActions := ["up", "down", "left", "right"]
  timeline := []
  currentProgram := {}
  backtestSummary := "0 / 0 exact after 0 steps; 0 mismatch(es), 0 skipped"
  counterexample := none

def firstRequestText : String :=
  "\x7b\"current_grid\":[[1]],\"legal_actions\":[\"up\",\"down\",\"left\",\"right\"]," ++
    "\"timeline\":[],\"current_program\":\x7b\"rules\":[]\x7d," ++
    "\"backtest_summary\":\"0 / 0 exact after 0 steps; 0 mismatch(es), 0 skipped\"," ++
    "\"counterexample\":null\x7d"

/-- A response that asks for a plan and proposes an action. -/
def eagerResponse : DeliberationResponse := { intent := "plan", actions := ["up"] }

def eagerText : String := "\x7b\"intent\":\"plan\",\"actions\":[\"up\"]\x7d"

/-- `serde_json` on the first request and the response. -/
def eagerJson : ProtocolJson where
  toJson request := if request = firstRequest then firstRequestText else ""
  fromStr text := if text = eagerText then .ok eagerResponse else .error "expected value"

/-- The agent in the still cell, with a provider that answers with `eagerText`. -/
def eagerEpisode : Episode ℕ (ProtocolState Unit) where
  env := stillCell
  del := protocolDeliberator eagerJson fun _ _ => some (eagerText, ())
  start := 0
  model := .vacuous
  deliberator := { provider := () }
  timeline := .new
  maxCycles := 1

/-- The agent at the head of its only cycle. -/
def eagerHead : Agent ℕ (ProtocolState Unit) where
  env := 0
  model := .vacuous
  deliberator := { provider := () }
  timeline := .new
  current := [[1]]
  counterexample := none
  log := {}

/-- The search finds nothing, and the provider's action is executed as a plan. -/
theorem eager_plan_not_searched :
    (eagerEpisode.run.map fun a => (a.log.bfsReports, a.log.executions)) =
      some (["BFS: no goal found; expanded 1 nodes, 1 distinct states"],
        ["[plan] 1/1 executed with 0 mispredictions -> ok"]) ∧
    ¬ ∀ k a, Head eagerEpisode k a → PlansCertified eagerEpisode.env eagerEpisode.del a := by
  have hhead : Head eagerEpisode 0 eagerHead := .first (by decide) rfl
  refine ⟨by decide +kernel, fun h => plansCertified_iff.mp (h 0 eagerHead hhead) ?_⟩
  have hfacts : ((deliberate eagerEpisode.del eagerHead).bind fun x =>
      (search eagerEpisode.env x.2).map fun bfs =>
        (x.1.intent, x.1.actions, x.2.timeline.isEmpty, bfs.plan)) =
      some (.plan, ["up"], true, none) := by
    decide +kernel
  obtain ⟨⟨d, a₁⟩, hdel, hrest⟩ := Option.bind_eq_some_iff.mp hfacts
  obtain ⟨bfs, hbfs, heq⟩ := Option.map_eq_some_iff.mp hrest
  obtain ⟨hi, hactions, hempty, hplan⟩ : _ ∧ _ ∧ _ ∧ _ := by simpa using heq
  exact ⟨d, a₁, bfs, hdel, hi, by simp [hactions], .inl hempty, hbfs, hplan⟩

/-! ### Counterexamples -/

section Cycle
variable {env : Environment ε} {del : Deliberator δ} {a a' a₁ : Agent ε δ} {d : Deliberation}

theorem turn_counterexample (h : turn env del a = some (d, a')) : a'.counterexample = none := by
  obtain ⟨⟨d₁, a₁⟩, hdel, hgate⟩ := Option.bind_eq_some_iff.mp h
  have hnone := (deliberate_spec hdel).2.2.2
  rcases gate_spec hgate with ⟨-, -, rfl⟩ | ⟨-, -, rfl⟩ | ⟨-, -, _, -, -, rfl⟩
  · exact hnone
  · exact hnone
  · exact hnone

/-- The cycle at `a` commits actions, with this report and the timeline they leave behind. -/
def Commits (env : Environment ε) (del : Deliberator δ) (a : Agent ε δ) (result : ExecutionReport)
    (tl : Timeline) : Prop :=
  ∃ d a₁ e, turn env del a = some (d, a₁) ∧ d.actions ≠ [] ∧
    commitActions env a₁.env a₁.model a₁.timeline a₁.current d.actions = some (result, e, tl)

/-- The counterexample of a report is the last record, and is there when the report is halted. -/
theorem Commits.last {result : ExecutionReport} {tl : Timeline} (h : Commits env del a result tl) :
    result.halted = result.counterexample.isSome ∧
      ∀ t, result.counterexample = some t → tl.last = some t := by
  obtain ⟨d, a₁, e, -, -, hcommit⟩ := h
  obtain ⟨passed, hrec, -, hhalt, -⟩ := commitFrom_appends hcommit
  refine ⟨hhalt, fun t ht => ?_⟩
  rw [Timeline.last, hrec, ht, Option.toList_some, List.getLast?_append]
  rfl

theorem Commits.unique {result result' : ExecutionReport} {tl tl' : Timeline}
    (h : Commits env del a result tl) (h' : Commits env del a result' tl') :
    result' = result ∧ tl' = tl := by
  obtain ⟨d, a₁, e, hturn, -, hcommit⟩ := h
  obtain ⟨d', a₁', e', hturn', -, hcommit'⟩ := h'
  obtain ⟨rfl, rfl⟩ := Prod.mk.inj (Option.some.inj (hturn.symm.trans hturn'))
  obtain ⟨rfl, h₂⟩ := Prod.mk.inj (Option.some.inj (hcommit.symm.trans hcommit'))
  exact ⟨rfl, (Prod.mk.inj h₂).2.symm⟩

/-- **What a cycle leaves for the next**: nothing when it commits nothing, the counterexample of
its report when the last transition is no death, and nothing when it is. -/
theorem cycle_again (h : cycle env del a = some (.again, a')) :
    (a'.counterexample = none ∧ ∀ result tl, ¬ Commits env del a result tl) ∨
    ∃ result tl, Commits env del a result tl ∧
      a'.counterexample = if result.dead then none else result.counterexample := by
  obtain ⟨⟨d, a₁⟩, hturn, h⟩ := Option.bind_eq_some_iff.mp h
  have hnone := turn_counterexample hturn
  dsimp only at h
  rw [execute] at h
  by_cases hne : d.actions = []
  · rw [if_pos (by simp [hne])] at h
    obtain ⟨-, rfl⟩ := Prod.mk.inj (Option.some.inj h)
    refine .inl ⟨hnone, ?_⟩
    rintro result tl ⟨d', a₂, -, hturn', hne', -⟩
    obtain ⟨rfl, -⟩ := Prod.mk.inj (Option.some.inj (hturn.symm.trans hturn'))
    exact hne' hne
  · rw [if_neg (by simpa using hne)] at h
    obtain ⟨⟨result, e, tl⟩, hcommit, h⟩ := Option.bind_eq_some_iff.mp h
    have hcommits : Commits env del a result tl := ⟨d, a₁, e, hturn, hne, hcommit⟩
    refine .inr ⟨result, tl, hcommits, ?_⟩
    dsimp only at h
    split at h
    · cases (Prod.mk.inj (Option.some.inj h)).1
    split at h
    · rename_i hdead
      obtain ⟨⟨obs, e'⟩, -, h⟩ := Option.bind_eq_some_iff.mp h
      obtain ⟨-, rfl⟩ := Prod.mk.inj (Option.some.inj h)
      rw [if_pos hdead]
      exact hnone
    split at h
    · rename_i hdead _
      obtain ⟨-, rfl⟩ := Prod.mk.inj (Option.some.inj h)
      rw [if_neg hdead]
    · rename_i hdead hhalt
      obtain ⟨-, rfl⟩ := Prod.mk.inj (Option.some.inj h)
      rw [if_neg hdead]
      have hce : result.counterexample = none := by
        rw [hcommits.last.1] at hhalt
        simpa using hhalt
      rw [hce]
      exact hnone

end Cycle

/-- A deliberation receives a counterexample exactly when the cycle before it halted, and then the
mispredicted transition, the last one recorded. -/
def CounterexamplesKept (ep : Episode ε δ) : Prop :=
  (∀ a, Head ep 0 a → a.counterexample = none) ∧
  ∀ k a a', Head ep k a → k + 1 < ep.maxCycles → cycle ep.env ep.del a = some (.again, a') →
    ∀ t, a'.counterexample = some t ↔
      ∃ result tl, Commits ep.env ep.del a result tl ∧ result.halted = true ∧
        result.counterexample = some t ∧ tl.last = some t

/-- **Counterexamples are kept**, in an episode, exactly when no cycle that another follows halts
at a death. -/
theorem counterexamples_kept_iff (ep : Episode ε δ) :
    CounterexamplesKept ep ↔
      ∀ k a a', Head ep k a → k + 1 < ep.maxCycles → cycle ep.env ep.del a = some (.again, a') →
        ∀ result tl, Commits ep.env ep.del a result tl → result.halted = true →
          result.dead = false := by
  constructor
  · rintro ⟨-, hkept⟩ k a a' hhead hmax hcycle result tl hcommits hhalt
    rw [hcommits.last.1] at hhalt
    obtain ⟨t, ht⟩ := Option.isSome_iff_exists.mp hhalt
    have hnext := (hkept k a a' hhead hmax hcycle t).mpr
      ⟨result, tl, hcommits, by rw [hcommits.last.1, ht]; rfl, ht, hcommits.last.2 t ht⟩
    rcases cycle_again hcycle with ⟨hnone, -⟩ | ⟨result', tl', hcommits', hce⟩
    · rw [hnone] at hnext; cases hnext
    · obtain ⟨rfl, rfl⟩ := hcommits'.unique hcommits
      by_contra hdead
      rw [if_pos (by simpa using hdead), hnext] at hce
      cases hce
  · intro hsafe
    refine ⟨fun a hhead => ?_, fun k a a' hhead hmax hcycle t => ?_⟩
    · cases hhead with
      | first _ hobs =>
          obtain ⟨⟨obs, e⟩, -, h⟩ := Option.bind_eq_some_iff.mp hobs
          obtain rfl := Option.some.inj h
          rfl
    · have hall := hsafe k a a' hhead hmax hcycle
      rcases cycle_again hcycle with ⟨hnone, hno⟩ | ⟨result, tl, hcommits, hce⟩
      · rw [hnone]
        exact ⟨fun h => (by cases h), fun ⟨result, tl, h, _⟩ => absurd h (hno result tl)⟩
      · constructor
        · intro h
          rw [hce] at h
          cases hdead : result.dead with
          | true => rw [hdead] at h; cases h
          | false =>
              rw [hdead, if_neg Bool.false_ne_true] at h
              exact ⟨result, tl, hcommits, by rw [hcommits.last.1, h]; rfl, h, hcommits.last.2 t h⟩
        · rintro ⟨result', tl', hcommits', hhalt, ht, -⟩
          obtain ⟨rfl, rfl⟩ := hcommits.unique hcommits'
          rw [hce, hall _ _ hcommits hhalt]
          exact ht

/-- A deliberator that always tries `up`. -/
def curious : Deliberator Unit where
  deliberate s _ model _ _ _ :=
    some ({ actions := ["up"], intent := .experiment, note := "" }, model, s)

/-- Two cycles in the lethal cell, with the vacuous model. -/
def lethalEpisode : Episode ℕ Unit where
  env := lethalCell
  del := curious
  start := 0
  model := .vacuous
  deliberator := ()
  timeline := .new
  maxCycles := 2

/-- The agent at the head of the first of them. -/
def lethalHead : Agent ℕ Unit where
  env := 0
  model := .vacuous
  deliberator := ()
  timeline := .new
  current := [[1]]
  counterexample := none
  log := {}

/-- The unforeseen death is recorded, but not handed to the second deliberation. -/
theorem lethal_counterexample_lost : ¬ CounterexamplesKept lethalEpisode := by
  have hhead : Head lethalEpisode 0 lethalHead := .first (by decide) rfl
  intro h
  rw [counterexamples_kept_iff] at h
  have hcommits : ((turn lethalEpisode.env lethalEpisode.del lethalHead).bind fun x =>
      (commitActions lethalCell x.2.env x.2.model x.2.timeline x.2.current x.1.actions).map
        fun y => (x.1.actions, y.1.halted, y.1.dead)) = some (["up"], true, true) := by
    decide +kernel
  have hcycle : ((cycle lethalEpisode.env lethalEpisode.del lethalHead).map Prod.fst) =
      some .again := by
    decide +kernel
  obtain ⟨⟨d, a₁⟩, hturn, hrest⟩ := Option.bind_eq_some_iff.mp hcommits
  obtain ⟨⟨result, e, tl⟩, hcommit, heq⟩ := Option.map_eq_some_iff.mp hrest
  obtain ⟨⟨flow, a'⟩, hagain, rfl⟩ := Option.map_eq_some_iff.mp hcycle
  obtain ⟨hactions, hhalt, hdead⟩ : _ ∧ _ ∧ _ := by simpa using heq
  have hfalse := h 0 lethalHead a' hhead (by decide) hagain result tl
    ⟨d, a₁, e, hturn, by simp [hactions], hcommit⟩ hhalt
  rw [hdead] at hfalse
  cases hfalse

end Jcode.Schema
