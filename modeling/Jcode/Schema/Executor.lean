import Jcode.Schema.Match

/-!
# Schema — the executor

What `commit_actions` leaves behind, whatever the environment answers.  The environment is stepped
on the executed actions and on nothing else, and each of its answers is in the timeline, chained to
the one before.

* `Recorded.cons`: what a record before the others changes.
* `commitActions_recorded`: the whole execution.
* `commitActions_returns`: it comes to an end, when neither the model nor the environment panics.
-/

namespace Jcode.Schema

/-- What the environment answered. -/
def Transition.observation (t : Transition) : Observation :=
  { grid := t.stateAfter, levelUp := t.levelUp, dead := t.dead, win := t.win }

/-- The model's prediction does not stand against the transition. -/
def Mispredicts (model : WorldModel) (t : Transition) : Prop :=
  ∃ pred, model.step t.stateBefore t.action = some pred ∧ ¬ Explains pred t

theorem Predicts.not_mispredicts {model : WorldModel} {t : Transition} (h : Predicts model t) :
    ¬ Mispredicts model t := by
  rintro ⟨pred', hstep', hnot⟩
  obtain ⟨pred, hstep, hexplains⟩ := h
  obtain rfl := Option.some.inj (hstep.symm.trans hstep')
  exact hnot hexplains

/-- Each transition begins where the one before ended, from `start` to `final`. -/
def Chained : (start : Grid) → List Transition → (final : Grid) → Prop
  | start, [], final => final = start
  | start, t :: ts, final => t.stateBefore = start ∧ Chained t.stateAfter ts final

section
variable {ε : Type} (env : Environment ε)

/-- The environment, stepped on the actions in order. -/
def steps : ε → List String → Option (List Observation × ε)
  | e, [] => some ([], e)
  | e, a :: as => do
      let (obs, e) ← env.step e a
      let (rest, e) ← steps e as
      return (obs :: rest, e)

/-- **What an execution of `actions` leaves behind**: the records it added, and how they stand to
the model. -/
structure Recorded (model : WorldModel) (start : Grid) (e : ε) (tl : Timeline)
    (actions : List String) (finalState : Grid) (halted : Bool)
    (counterexample : Option Transition) (e' : ε) (tl' : Timeline) (records : List Transition) :
    Prop where
  /-- The environment was stepped on these actions, and answered what is recorded. -/
  stepped : steps env e actions = some (records.map Transition.observation, e')
  named : records.map (·.action) = actions
  kept : tl'.records = tl.records ++ records
  chained : Chained start records finalState
  /-- Up to the last record everything was predicted, and nothing was terminal. -/
  gated : ∀ t ∈ records.dropLast, t.terminal = false ∧ Predicts model t
  halts : halted = true ↔ ∃ t, records.getLast? = some t ∧ Mispredicts model t
  surfaced : counterexample = if halted then records.getLast? else none

variable {env} {model : WorldModel} {plan rest executed actions : List String} {i : ℕ}
  {cur finalState : Grid} {e e₁ e' : ε} {tl tl' : Timeline} {report : ExecutionReport}
  {halted : Bool} {counterexample : Option Transition} {records : List Transition}

/-- An execution of nothing. -/
theorem Recorded.nil : Recorded env model cur e tl [] cur false none e tl [] where
  stepped := rfl
  named := rfl
  kept := (List.append_nil _).symm
  chained := rfl
  gated _ ht := by cases ht
  halts := by
    refine ⟨fun h => (by cases h), ?_⟩
    rintro ⟨_, ht, -⟩
    cases ht
  surfaced := rfl

/-- **A record before the others.** -/
theorem Recorded.cons {action : String} {pred : Prediction} {obs : Observation}
    (hstep : model.step cur action = some pred) (henv : env.step e action = some (obs, e₁))
    (hex : Explains pred (tl.record cur action obs.grid obs.levelUp obs.dead obs.win))
    (hterm : (tl.record cur action obs.grid obs.levelUp obs.dead obs.win).terminal = false)
    (h : Recorded env model obs.grid e₁
      (tl.append cur action obs.grid obs.levelUp obs.dead obs.win) actions finalState halted
      counterexample e' tl' records) :
    Recorded env model cur e tl (action :: actions) finalState halted counterexample e' tl'
      (tl.record cur action obs.grid obs.levelUp obs.dead obs.win :: records) where
  stepped := by
    rw [steps, henv, Option.bind_eq_bind, Option.bind_some]
    show Option.bind (steps env e₁ actions) _ = _
    rw [h.stepped]
    rfl
  named := congrArg (action :: ·) h.named
  kept := by rw [h.kept, Timeline.append, List.append_assoc, List.singleton_append]
  chained := ⟨rfl, h.chained⟩
  gated t ht := by
    cases hrecords : records with
    | nil => rw [hrecords] at ht; cases ht
    | cons r rs =>
        rw [hrecords, List.dropLast_cons_cons, List.mem_cons, ← hrecords] at ht
        rcases ht with rfl | ht
        · exact ⟨hterm, pred, hstep, hex⟩
        · exact h.gated t ht
  halts := by
    rw [h.halts, List.getLast?_cons]
    cases records.getLast? with
    | some last => rfl
    | none =>
        have hnot : ¬ Mispredicts model
            (tl.record cur action obs.grid obs.levelUp obs.dead obs.win) :=
          Predicts.not_mispredicts ⟨pred, hstep, hex⟩
        constructor
        · rintro ⟨_, ht, -⟩
          cases ht
        · rintro ⟨t, ht, hmis⟩
          obtain rfl := Option.some.inj ht
          exact absurd hmis hnot
  surfaced := by
    rw [h.surfaced, List.getLast?_cons]
    cases hhalt : halted with
    | false => rfl
    | true =>
        obtain ⟨last, hlast, -⟩ := h.halts.mp hhalt
        rw [hlast]
        rfl

/-- **The rest of a plan.** -/
theorem commitFrom_recorded
    (h : commitFrom env model plan rest i executed cur e tl = some (report, e', tl')) :
    report.committed = plan ∧ ∃ actions records, report.executed = executed ++ actions ∧
      actions ++ report.discarded = rest ∧
      Recorded env model cur e tl actions report.finalState report.halted report.counterexample e'
        tl' records := by
  induction rest generalizing i executed cur e tl with
  | nil =>
      obtain ⟨rfl, rfl, rfl⟩ : _ ∧ _ ∧ _ := by simpa [commitFrom] using h
      exact ⟨rfl, [], [], (List.append_nil _).symm, rfl, .nil⟩
  | cons action rest ih =>
      obtain ⟨pred, obs, e₁, hstep, henv, hcases⟩ := commitFrom_exits h
      rcases hcases with ⟨hplan, hexec, hdisc, hfinal, hhalt, hce, -, -, -, rfl, rfl⟩ |
        ⟨hex, hterm, hrest⟩
      · refine ⟨hplan, [action],
          [tl.record cur action obs.grid obs.levelUp obs.dead obs.win], hexec,
          by rw [hdisc]; rfl, ?_⟩
        refine ⟨?_, rfl, rfl, ⟨rfl, hfinal⟩, fun _ ht => (by cases ht), ?_, hce⟩
        · rw [steps, henv]
          rfl
        · rw [hhalt]
          refine ⟨fun hnot => ⟨_, rfl, pred, hstep, hnot⟩, ?_⟩
          rintro ⟨t, ht, hmis⟩ hex
          obtain rfl := Option.some.inj ht
          exact Predicts.not_mispredicts ⟨pred, hstep, hex⟩ hmis
      · obtain ⟨hplan, actions, records, hexec, hdisc, hrec⟩ := ih hrest
        refine ⟨hplan, action :: actions, _ :: records, ?_, by rw [List.cons_append, hdisc],
          .cons hstep henv hex hterm hrec⟩
        rw [hexec, List.append_assoc, List.singleton_append]

/-- **An execution is gated and recorded**: the executed actions are the ones the environment was
stepped on, each has its record, and the last record alone may be one the model mispredicts. -/
theorem commitActions_recorded {current : Grid}
    (h : commitActions env e model tl current plan = some (report, e', tl')) :
    report.committed = plan ∧ report.executed ++ report.discarded = report.committed ∧
    ∃ records, records.length = report.executed.length ∧
      (∀ i t, records[i]? = some t → t.index = tl.len + i) ∧
      Recorded env model current e tl report.executed report.finalState report.halted
        report.counterexample e' tl' records := by
  obtain ⟨hplan, actions, records, hexec, hdisc, hrec⟩ := commitFrom_recorded h
  rw [List.nil_append] at hexec
  subst hexec
  refine ⟨hplan, hdisc.trans hplan.symm, records, ?_, fun i t ht => ?_, hrec⟩
  · rw [← hrec.named, List.length_map]
  · refine tl'.indexed _ t ?_
    rw [hrec.kept, Timeline.len, List.getElem?_append_right (Nat.le_add_right _ _),
      Nat.add_sub_cancel_left]
    exact ht

/-- Two deaths are planned, and the first is not predicted. -/
theorem commitActions_recorded_lethalCell :
    ∃ report e' tl', commitActions lethalCell 0 .vacuous .new [[1]] ["up", "up"] =
      some (report, e', tl') ∧ report.halted = true ∧ report.executed ++ report.discarded =
        report.committed := by
  refine ⟨_, _, _, rfl, rfl, ?_⟩
  obtain ⟨-, hsplit, -⟩ := @commitActions_recorded _ lethalCell .vacuous ["up", "up"] 0 _ .new _ _
    [[1]] rfl
  exact hsplit

theorem commitFrom_returns (hstep : ∀ s a, (model.step s a).isSome)
    (henv : ∀ e a, (env.step e a).isSome) :
    (commitFrom env model plan rest i executed cur e tl).isSome := by
  induction rest generalizing i executed cur e tl with
  | nil => rfl
  | cons action rest ih =>
      obtain ⟨pred, hpred⟩ := Option.isSome_iff_exists.mp (hstep cur action)
      obtain ⟨⟨obs, e₁⟩, hobs⟩ := Option.isSome_iff_exists.mp (henv e action)
      simp only [commitFrom, hpred, hobs, Option.bind_eq_bind, Option.bind_some]
      split
      · rfl
      · split
        · rfl
        · exact ih

/-- **With a model and an environment that do not panic the execution ends, with a report.** -/
theorem commitActions_returns (hstep : ∀ s a, (model.step s a).isSome)
    (henv : ∀ e a, (env.step e a).isSome) (current : Grid) :
    (commitActions env e model tl current plan).isSome :=
  commitFrom_returns hstep henv

end

end Jcode.Schema
