import Jcode.Schema.Protocol

/-!
# Schema — models that are programs

A model written as text carries its program beside its closures.  `reviseProgram` replaces both;
`revise` replaces closures and leaves the program.

* `program_is_behavior_iff`: along a sequence of revisions the program of the model is its behavior,
  and a session restores it, exactly when no revision exchanges a closure of a model with a program
  for another.
-/

namespace Jcode.Schema

/-! ### Building and revising -/

/-- The constructors of a model. -/
inductive Origin where
  | new (step : StepFn) (isGoal : GoalFn) (description : String)
  | fromProgram (program : RuleProgram) (description : String)
  | vacuous

def Origin.build : Origin → WorldModel
  | .new step isGoal description => .new step isGoal description
  | .fromProgram program description => .fromProgram program description
  | .vacuous => .vacuous

/-- The mutators of a model. -/
inductive Revision where
  | revise (step : Option StepFn) (isGoal : Option GoalFn) (description : String)
  | reviseProgram (program : RuleProgram) (description : String)

def Revision.apply (m : WorldModel) : Revision → WorldModel
  | .revise step isGoal description => m.revise step isGoal description
  | .reviseProgram program description => m.reviseProgram program description

/-- The model after some revisions. -/
def revised (origin : Origin) (revisions : List Revision) : WorldModel :=
  revisions.foldl Revision.apply origin.build

/-! ### The program and the closures -/

/-- The closures of the model are those of its program, if it has one. -/
def Backed (m : WorldModel) : Prop :=
  ∀ p, m.program = some p →
    (∀ grid action, m.step grid action = p.step grid action) ∧
    ∀ grid, m.isGoal grid = some (p.isGoal grid)

/-- A revision exchanges no closure of a model with a program for another. -/
def Keeps (m : WorldModel) : Revision → Prop
  | .reviseProgram _ _ => True
  | .revise step isGoal _ => ∀ p, m.program = some p →
      (∀ f, step = some f → ∀ grid action, f grid action = p.step grid action) ∧
      ∀ f, isGoal = some f → ∀ grid, f grid = some (p.isGoal grid)

theorem backed_build (origin : Origin) : Backed origin.build := by
  intro p hp
  cases origin with
  | new step isGoal description => cases hp
  | fromProgram program description =>
      obtain rfl := Option.some.inj hp
      exact ⟨fun _ _ => rfl, fun _ => rfl⟩
  | vacuous => cases hp

/-- **One revision**: a backed model stays backed exactly when the revision keeps its closures. -/
theorem backed_apply_iff {m : WorldModel} (h : Backed m) (r : Revision) :
    Backed (r.apply m) ↔ Keeps m r := by
  cases r with
  | reviseProgram program description =>
      refine ⟨fun _ => trivial, fun _ p hp => ?_⟩
      obtain rfl := Option.some.inj hp
      exact ⟨fun _ _ => rfl, fun _ => rfl⟩
  | revise step isGoal description =>
      refine forall₂_congr fun p hp => ?_
      obtain ⟨hstep, hgoal⟩ := h p hp
      refine and_congr ?_ ?_
      · cases step with
        | none => exact ⟨fun _ _ hf => (by cases hf), fun _ => hstep⟩
        | some f => exact ⟨fun hf _ e => Option.some.inj e ▸ hf, fun hf => hf f rfl⟩
      · cases isGoal with
        | none => exact ⟨fun _ _ hf => (by cases hf), fun _ => hgoal⟩
        | some f => exact ⟨fun hf _ e => Option.some.inj e ▸ hf, fun hf => hf f rfl⟩

/-- Along revisions that all keep the closures, the model stays backed. -/
theorem backed_revised {origin : Origin} {revisions : List Revision}
    (h : ∀ k r, revisions[k]? = some r → Keeps (revised origin (revisions.take k)) r) :
    ∀ k ≤ revisions.length, Backed (revised origin (revisions.take k)) := by
  intro k
  induction k with
  | zero => exact fun _ => backed_build origin
  | succ k ih =>
      intro hk
      have hget : revisions[k]? = some revisions[k] := List.getElem?_eq_getElem hk
      rw [revised, List.take_succ_eq_append_getElem hk, List.foldl_append]
      exact (backed_apply_iff (ih (Nat.le_of_succ_le hk)) _).mpr (h k _ hget)

/-! ### Sessions -/

/-- Recording again, from their first on, transitions that are numbered by their places. -/
theorem append_digests {ts : List Transition} {tl : Timeline}
    (hindex : ∀ i t, ts[i]? = some t → t.index = tl.len + i) :
    ((ts.map TransitionDigest.ofTransition).foldl (fun tl t =>
      tl.append t.stateBefore t.action t.stateAfter t.levelUp t.dead t.win) tl).records =
      tl.records ++ ts := by
  induction ts generalizing tl with
  | nil => simp
  | cons t ts ih =>
      have hindex₀ := hindex 0 t rfl
      have ht : tl.record t.stateBefore t.action t.stateAfter t.levelUp t.dead t.win = t := by
        cases t
        simp only [Timeline.record, Nat.add_zero] at hindex₀ ⊢
        rw [hindex₀]
      rw [List.map_cons, List.foldl_cons, ih]
      · simp only [TransitionDigest.ofTransition, Timeline.append, ht, List.append_assoc,
          List.singleton_append]
      · intro i t' ht'
        have hi := hindex (i + 1) t' ht'
        simp only [Timeline.append, Timeline.len, List.length_append, List.length_cons,
          List.length_nil] at hi ⊢
        omega

/-- A session restores the timeline it captured. -/
theorem restoreTimeline_capture (task : String) (m : WorldModel) (tl : Timeline) :
    (Session.capture task m tl).restoreTimeline = tl := by
  ext1
  have hindex : ∀ i t, tl.records[i]? = some t → t.index = Timeline.new.len + i := fun i t ht => by
    rw [tl.indexed i t ht, Timeline.len, Timeline.new, List.length_nil, Nat.zero_add]
  exact append_digests hindex

/-- The session of a model and a timeline, written and read, restores them both. -/
def SessionRestores (json : SessionJson) (m : WorldModel) : Prop :=
  ∀ task tl,
    json.fromJson (json.toJson (Session.capture task m tl)) = .ok (Session.capture task m tl) →
    ∃ s, json.fromJson (json.toJson (Session.capture task m tl)) = .ok s ∧
      (∀ grid action, s.restoreModel.step grid action = m.step grid action) ∧
      (∀ grid, s.restoreModel.isGoal grid = m.isGoal grid) ∧
      s.restoreModel.revision = m.revision ∧ s.restoreModel.history = m.history ∧
      s.restoreTimeline = tl ∧
      runBacktest s.restoreModel s.restoreTimeline = runBacktest m tl

/-- The backtest reads nothing of a model but its predictions. -/
theorem runBacktest_congr {m m' : WorldModel} (h : ∀ grid action, m'.step grid action =
    m.step grid action) (tl : Timeline) : runBacktest m' tl = runBacktest m tl := by
  have hstep : backtestStep m' = backtestStep m := by
    funext report t
    simp only [backtestStep, h]
  rw [runBacktest, runBacktest, hstep]

theorem sessionRestores_of_backed {json : SessionJson} {m : WorldModel} {p : RuleProgram}
    (h : Backed m) (hp : m.program = some p) : SessionRestores json m := by
  intro task tl hjson
  obtain ⟨hstep, hgoal⟩ := h p hp
  have hprog : (Session.capture task m tl).program = p := by
    rw [Session.capture, hp]
    rfl
  have hstep' : ∀ grid action,
      (Session.capture task m tl).restoreModel.step grid action = m.step grid action := by
    intro grid action
    rw [hstep, Session.restoreModel, WorldModel.fromProgram, hprog]
  refine ⟨_, hjson, hstep', fun grid => ?_, rfl, rfl, restoreTimeline_capture task m tl, ?_⟩
  · rw [hgoal, Session.restoreModel, WorldModel.fromProgram, hprog]
  · rw [restoreTimeline_capture]
    exact runBacktest_congr hstep' tl

/-- The program of the model is its behavior, and a session restores it. -/
def ProgramIsBehavior (json : SessionJson) (m : WorldModel) : Prop :=
  ∀ p, m.program = some p →
    (∀ grid action, m.step grid action = p.step grid action) ∧
    (∀ grid, m.isGoal grid = some (p.isGoal grid)) ∧ SessionRestores json m

theorem programIsBehavior_iff {json : SessionJson} {m : WorldModel} :
    ProgramIsBehavior json m ↔ Backed m :=
  ⟨fun h p hp => ⟨(h p hp).1, (h p hp).2.1⟩,
    fun h p hp => ⟨(h p hp).1, (h p hp).2, sessionRestores_of_backed h hp⟩⟩

/-- **Program-backed models are what they say**, after any number of revisions, exactly when each
revision of a model with a program keeps its closures or replaces the program. -/
theorem program_is_behavior_iff (json : SessionJson) (origin : Origin)
    (revisions : List Revision) :
    (∀ k ≤ revisions.length, ProgramIsBehavior json (revised origin (revisions.take k))) ↔
      ∀ k r, revisions[k]? = some r → Keeps (revised origin (revisions.take k)) r := by
  simp only [programIsBehavior_iff]
  refine ⟨fun h k r hr => ?_, backed_revised⟩
  obtain ⟨hk, rfl⟩ := List.getElem?_eq_some_iff.mp hr
  have hnext := h (k + 1) hk
  rw [revised, List.take_succ_eq_append_getElem hk, List.foldl_append] at hnext
  exact (backed_apply_iff (h k (Nat.le_of_lt hk)) _).mp hnext

/-- A model that starts as the vacuous program and is then given a closure that always wins. -/
def winner : List Revision :=
  [.revise (some fun grid _ => some { grid, win := true }) none "every action wins"]

/-- Its program still says that nothing happens. -/
theorem winner_program_stale : ∃ p, (revised (.fromProgram {} "vacuous") winner).program = some p ∧
    (revised (.fromProgram {} "vacuous") winner).step [[1]] "up" ≠ p.step [[1]] "up" :=
  ⟨{}, rfl, by decide +kernel⟩

end Jcode.Schema
