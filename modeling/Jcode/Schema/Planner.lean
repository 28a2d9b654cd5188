import Jcode.Schema.Harness
import Jcode.Support.Search

/-!
# Schema — the planner

What `run_bfs` finds, and what it rules out.  A plan is judged by the predictions along it, each
made from the grid of the one before; the search is in layers, whatever the two closures of the
model compute.

* `expandState_cons`: what one action does to the search at a state.
* `bfsLoop_layered`: the layers through the whole search.
* `runBfs_correct`: a plan is safe and shortest, and a search that ends early has nothing to find.
* `runBfs_returns`: the search ends with a report, when the model does not panic.
-/

namespace Jcode.Schema
open Search

variable {model : WorldModel} {start s t u : Grid} {actions as p : List String} {a : String}
  {pred : Prediction} {via : GoalVia} {n nodes : ℕ} {f f' : Frontier} {r : BfsReport}

/-! ### Predictions along a plan -/

/-- The predictions along the actions `as`. -/
def along (model : WorldModel) : Grid → List String → Option (List Prediction)
  | _, [] => some []
  | s, a :: as => do
      let pred ← model.step s a
      let preds ← along model pred.grid as
      return pred :: preds

/-- The prediction is a goal, of this kind. -/
def Reaches (model : WorldModel) (pred : Prediction) : GoalVia → Prop
  | .isGoal => model.isGoal pred.grid = some true
  | .levelUp => pred.levelUp = true
  | .win => pred.win = true

/-- No prediction along `as` is a death, and the start or one of them is a goal. -/
def Attains (model : WorldModel) (start : Grid) (as : List String) : Prop :=
  ∃ preds, along model start as = some preds ∧ (∀ pred ∈ preds, pred.dead = false) ∧
    (model.isGoal start = some true ∨ ∃ pred ∈ preds, ∃ via, Reaches model pred via)

/-- The last of the predictions is a goal of this kind; without a prediction, the start is one. -/
def EndsVia (model : WorldModel) (start : Grid) (preds : List Prediction) (via : GoalVia) : Prop :=
  match preds.getLast? with
  | none => via = .isGoal ∧ model.isGoal start = some true
  | some pred => Reaches model pred via

/-- The search goes on over this step. -/
def Goes (model : WorldModel) (actions : List String) (s : Grid) (a : String) (u : Grid) : Prop :=
  a ∈ actions ∧ ∃ pred, model.step s a = some pred ∧ pred.dead = false ∧
    (∀ via, ¬ Reaches model pred via) ∧ pred.grid = u

/-- The search ends over this step. -/
def Wins (model : WorldModel) (actions : List String) (s : Grid) (a : String) : Prop :=
  a ∈ actions ∧ ∃ pred via, model.step s a = some pred ∧ pred.dead = false ∧ Reaches model pred via

/-- The search through this model is in layers. -/
abbrev InLayers (model : WorldModel) (actions : List String) (start : Grid) (f : Frontier) : Prop :=
  Layered (Goes model actions) (Wins model actions) start f.queue (f.seen : Set Grid)

theorem along_snoc {preds : List Prediction} (h : along model start as = some preds)
    (hend : (preds.getLast?.map (·.grid)).getD start = t) (hstep : model.step t a = some pred) :
    along model start (as ++ [a]) = some (preds ++ [pred]) := by
  induction as generalizing start preds with
  | nil =>
      obtain rfl := Option.some.inj h
      obtain rfl : start = t := hend
      simp [along, hstep]
  | cons b as ih =>
      rw [along, Option.bind_eq_bind, Option.bind_eq_some_iff] at h
      obtain ⟨first, hfirst, h⟩ := h
      obtain ⟨rest, hrest, hpreds⟩ := Option.bind_eq_some_iff.mp h
      obtain rfl := Option.some.inj hpreds
      have hend' : (rest.getLast?.map (·.grid)).getD first.grid = t := by
        rw [List.getLast?_cons] at hend
        cases hl : rest.getLast? with
        | none => rw [hl] at hend; exact hend
        | some last => rw [hl] at hend; exact hend
      rw [List.cons_append, along, hfirst, Option.bind_eq_bind, Option.bind_some, ih hrest hend']
      rfl

/-- A path of the search, as predictions. -/
theorem along_of_path (h : Path (Goes model actions) start as t) : ∃ preds,
    along model start as = some preds ∧ (∀ pred ∈ preds, pred.dead = false) ∧
      (preds.getLast?.map (·.grid)).getD start = t ∧ ∀ a ∈ as, a ∈ actions := by
  induction h with
  | nil => exact ⟨[], rfl, nofun, rfl, nofun⟩
  | snoc _ step ih =>
      obtain ⟨preds, halong, hsafe, hend, hmem⟩ := ih
      obtain ⟨hin, pred, hstep, hdead, -, rfl⟩ := step
      refine ⟨_, along_snoc halong hend hstep, ?_, by simp, ?_⟩
      · intro q hq
        rcases List.mem_append.mp hq with hq | hq
        · exact hsafe q hq
        · exact List.mem_singleton.mp hq ▸ hdead
      · intro b hb
        rcases List.mem_append.mp hb with hb | hb
        · exact hmem b hb
        · exact List.mem_singleton.mp hb ▸ hin

/-- The first goal among safe predictions is one the search would end at. -/
theorem wins_of_reaches {preds : List Prediction} (hpath : Path (Goes model actions) start p s)
    (halong : along model s as = some preds) (hsafe : ∀ pred ∈ preds, pred.dead = false)
    (hmem : ∀ a ∈ as, a ∈ actions) (hgoal : ∃ pred ∈ preds, ∃ via, Reaches model pred via) :
    ∃ as' t a, Path (Goes model actions) start as' t ∧ Wins model actions t a ∧
      as'.length < p.length + as.length := by
  induction as generalizing p s preds with
  | nil =>
      obtain rfl := Option.some.inj halong
      obtain ⟨_, h, -⟩ := hgoal
      cases h
  | cons a as ih =>
      rw [along, Option.bind_eq_bind, Option.bind_eq_some_iff] at halong
      obtain ⟨pred, hstep, halong⟩ := halong
      obtain ⟨rest, hrest, hpreds⟩ := Option.bind_eq_some_iff.mp halong
      obtain rfl := Option.some.inj hpreds
      obtain ⟨hdead, hsafe⟩ := List.forall_mem_cons.mp hsafe
      obtain ⟨hin, hmem⟩ := List.forall_mem_cons.mp hmem
      by_cases hhere : ∃ via, Reaches model pred via
      · obtain ⟨via, hvia⟩ := hhere
        refine ⟨p, s, a, hpath, ⟨hin, pred, via, hstep, hdead, hvia⟩, ?_⟩
        rw [List.length_cons]
        omega
      · have hrestgoal : ∃ pred ∈ rest, ∃ via, Reaches model pred via := by
          obtain ⟨q, hq, hvia⟩ := hgoal
          rcases List.mem_cons.mp hq with rfl | hq
          · exact absurd hvia hhere
          · exact ⟨q, hq, hvia⟩
        obtain ⟨as', t, b, hpath', hwins, hlt⟩ :=
          ih (.snoc hpath ⟨hin, pred, hstep, hdead, not_exists.mp hhere, rfl⟩) hrest hsafe hmem
            hrestgoal
        refine ⟨as', t, b, hpath', hwins, ?_⟩
        rw [List.length_append, List.length_singleton] at hlt
        rw [List.length_cons]
        omega

/-! ### The search -/

/-- **What one action does at a state**: its prediction is a death, a goal, seen, or fresh. -/
theorem expandState_cons {out : BfsReport ⊕ Frontier}
    (h : expandState model s p n (a :: as) f = some out) :
    ∃ pred, model.step s a = some pred ∧
      ((pred.dead = true ∧ expandState model s p n as f = some out) ∨
        (pred.dead = false ∧ ∃ via, Reaches model pred via ∧
          out = .inl ⟨some (p ++ [a]), n, f.seen.card, some via⟩) ∨
        (pred.dead = false ∧ (∀ via, ¬ Reaches model pred via) ∧
          ((pred.grid ∈ f.seen ∧ expandState model s p n as f = some out) ∨
            (pred.grid ∉ f.seen ∧ expandState model s p n as
              ⟨f.queue ++ [(pred.grid, p ++ [a])], insert pred.grid f.seen⟩ = some out)))) := by
  rw [expandState, Option.bind_eq_bind, Option.bind_eq_some_iff] at h
  obtain ⟨pred, hstep, h⟩ := h
  refine ⟨pred, hstep, ?_⟩
  cases hdead : pred.dead with
  | true => exact .inl ⟨rfl, by simpa [hdead] using h⟩
  | false =>
      cases hwin : pred.win with
      | true => exact .inr (.inl ⟨rfl, .win, hwin, by simpa [hdead, hwin] using h.symm⟩)
      | false =>
          cases hlevel : pred.levelUp with
          | true =>
              exact .inr (.inl ⟨rfl, .levelUp, hlevel,
                by simpa [hdead, hwin, hlevel] using h.symm⟩)
          | false =>
              simp only [hdead, hwin, hlevel, Bool.false_eq_true, if_false] at h
              obtain ⟨goal, hgoal, h⟩ := Option.bind_eq_some_iff.mp h
              cases goal with
              | true => exact .inr (.inl ⟨rfl, .isGoal, hgoal, by simpa using h.symm⟩)
              | false =>
                  refine .inr (.inr ⟨rfl, ?_, ?_⟩)
                  · rintro (_ | _ | _) hr
                    · cases hgoal.symm.trans hr
                    · cases hlevel.symm.trans hr
                    · cases hwin.symm.trans hr
                  · by_cases hseen : pred.grid ∈ f.seen
                    · exact .inl ⟨hseen, by simpa [hseen] using h⟩
                    · exact .inr ⟨hseen, by simpa [hseen] using h⟩

theorem Goes.cons {b : String} (h : Goes model as s a u) : Goes model (b :: as) s a u :=
  ⟨List.mem_cons_of_mem _ h.1, h.2⟩

/-- The actions of a state that leave the search unfinished: each is a death or leads to a state
seen, and the states they add are fresh. -/
theorem expandState_goes (h : expandState model s p n as f = some (.inr f')) :
    ∃ fresh, f'.queue = f.queue ++ fresh ∧
      (f'.seen : Set Grid) = ↑f.seen ∪ {u | ∃ e ∈ fresh, e.1 = u} ∧
      (∀ e ∈ fresh, e.1 ∉ (f.seen : Set Grid) ∧ ∃ a, Goes model as s a e.1 ∧ e.2 = p ++ [a]) ∧
      ∀ a ∈ as, ∃ pred, model.step s a = some pred ∧
        (pred.dead = true ∨
          (∀ via, ¬ Reaches model pred via) ∧ pred.grid ∈ (f'.seen : Set Grid)) := by
  induction as generalizing f with
  | nil =>
      obtain rfl := Sum.inr.inj (Option.some.inj h)
      exact ⟨[], by simp, by simp, nofun, nofun⟩
  | cons a as ih =>
      obtain ⟨pred, hstep, ⟨hdead, h⟩ | ⟨-, _, -, hend⟩ | ⟨hdead, hreach, ⟨hseen, h⟩ | ⟨hseen, h⟩⟩⟩ :=
        expandState_cons h
      · obtain ⟨fresh, hqueue, hset, hfresh, hall⟩ := ih h
        refine ⟨fresh, hqueue, hset, fun e he => ?_,
          List.forall_mem_cons.mpr ⟨⟨pred, hstep, .inl hdead⟩, hall⟩⟩
        obtain ⟨hnot, b, hgoes, heq⟩ := hfresh e he
        exact ⟨hnot, b, hgoes.cons, heq⟩
      · cases hend
      · obtain ⟨fresh, hqueue, hset, hfresh, hall⟩ := ih h
        refine ⟨fresh, hqueue, hset, fun e he => ?_,
          List.forall_mem_cons.mpr ⟨⟨pred, hstep, .inr ⟨hreach, hset ▸ .inl hseen⟩⟩, hall⟩⟩
        obtain ⟨hnot, b, hgoes, heq⟩ := hfresh e he
        exact ⟨hnot, b, hgoes.cons, heq⟩
      · obtain ⟨fresh, hqueue, hset, hfresh, hall⟩ := ih h
        have hset' : (f'.seen : Set Grid) =
            ↑f.seen ∪ {u | ∃ e ∈ (pred.grid, p ++ [a]) :: fresh, e.1 = u} := by
          rw [hset]
          ext u
          simp only [Finset.coe_insert, Set.mem_union, Set.mem_insert_iff, Set.mem_ofPred_eq,
            List.exists_mem_cons_iff]
          rw [eq_comm (a := u)]
          tauto
        refine ⟨(pred.grid, p ++ [a]) :: fresh, by simp [hqueue], hset', ?_,
          List.forall_mem_cons.mpr ⟨⟨pred, hstep, .inr ⟨hreach, ?_⟩⟩, hall⟩⟩
        · refine List.forall_mem_cons.mpr ⟨⟨hseen, a, ⟨List.mem_cons_self, pred, hstep, hdead,
            hreach, rfl⟩, rfl⟩, fun e he => ?_⟩
          obtain ⟨hnot, b, hgoes, heq⟩ := hfresh e he
          refine ⟨fun hold => hnot ?_, b, hgoes.cons, heq⟩
          exact Finset.mem_coe.mpr (Finset.mem_insert_of_mem hold)
        · rw [hset']
          exact .inr ⟨_, List.mem_cons_self, rfl⟩

/-- The action of a state that ends the search. -/
theorem expandState_wins (h : expandState model s p n as f = some (.inl r)) :
    ∃ a ∈ as, ∃ pred via, model.step s a = some pred ∧ pred.dead = false ∧
      Reaches model pred via ∧ r.plan = some (p ++ [a]) ∧ r.goalVia = some via ∧
      r.expanded = n := by
  induction as generalizing f with
  | nil => cases h
  | cons a as ih =>
      obtain ⟨pred, hstep, ⟨-, h⟩ | ⟨hdead, via, hvia, hend⟩ | ⟨-, -, ⟨-, h⟩ | ⟨-, h⟩⟩⟩ :=
        expandState_cons h
      · obtain ⟨b, hb, hrest⟩ := ih h
        exact ⟨b, List.mem_cons_of_mem _ hb, hrest⟩
      · obtain rfl := Sum.inl.inj hend
        exact ⟨a, List.mem_cons_self, pred, via, hstep, hdead, hvia, rfl, rfl, rfl⟩
      · obtain ⟨b, hb, hrest⟩ := ih h
        exact ⟨b, List.mem_cons_of_mem _ hb, hrest⟩
      · obtain ⟨b, hb, hrest⟩ := ih h
        exact ⟨b, List.mem_cons_of_mem _ hb, hrest⟩

/-- Expanding the head keeps the search in layers. -/
theorem expandState_layered {queue : List (Grid × List String)} {seen : Finset Grid}
    (hlayers : InLayers model actions start ⟨(s, p) :: queue, seen⟩)
    (h : expandState model s p n actions ⟨queue, seen⟩ = some (.inr f')) :
    InLayers model actions start f' := by
  obtain ⟨fresh, hqueue, hset, hfresh, hall⟩ := expandState_goes h
  rw [InLayers, hqueue, hset]
  refine hlayers.expand hfresh fun a => ⟨?_, ?_⟩
  · rintro ⟨hin, pred, via, hstep, hdead, hvia⟩
    obtain ⟨pred', hstep', hcases⟩ := hall a hin
    obtain rfl := Option.some.inj (hstep.symm.trans hstep')
    rcases hcases with htrue | ⟨hnot, -⟩
    · cases htrue.symm.trans hdead
    · exact hnot via hvia
  · rintro u ⟨hin, pred, hstep, hdead, -, rfl⟩
    obtain ⟨pred', hstep', hcases⟩ := hall a hin
    obtain rfl := Option.some.inj (hstep.symm.trans hstep')
    rcases hcases with htrue | ⟨-, hseen⟩
    · cases htrue.symm.trans hdead
    · rw [hset] at hseen
      exact hseen

/-- What the report of a search says; `limit` states were to be expanded at most. -/
structure Searched (model : WorldModel) (actions : List String) (start : Grid) (limit : ℕ)
    (r : BfsReport) : Prop where
  /-- A plan is a path of the search and one step more, and no goal lies nearer. -/
  found : ∀ plan, r.plan = some plan → ∃ p s a pred via, plan = p ++ [a] ∧ a ∈ actions ∧
    Path (Goes model actions) start p s ∧ model.step s a = some pred ∧ pred.dead = false ∧
    Reaches model pred via ∧ r.goalVia = some via ∧
    ∀ as t b, Path (Goes model actions) start as t → Wins model actions t b → p.length ≤ as.length
  bounded : r.expanded ≤ limit
  exhausted : r.plan = none → r.expanded < limit →
    ∀ as t a, Path (Goes model actions) start as t → ¬ Wins model actions t a

/-- The search stops when the queue is empty, and when no more states may be expanded. -/
theorem bfsLoop_stop (hstop : f.queue = [] ∨ nodes = 0) :
    bfsLoop model actions nodes n f = some ⟨none, n, f.seen.card, none⟩ := by
  obtain ⟨queue, seen⟩ := f
  rcases hstop with rfl | rfl
  · cases nodes with
    | zero => rfl
    | succ nodes => rfl
  · cases queue with
    | nil => rfl
    | cons e queue => rfl

/-- **The search, from any frontier in layers.** -/
theorem bfsLoop_layered (hlayers : InLayers model actions start f)
    (h : bfsLoop model actions nodes n f = some r) :
    Searched model actions start (n + nodes) r := by
  induction nodes generalizing n f with
  | zero =>
      rw [bfsLoop_stop (.inr rfl)] at h
      obtain rfl := Option.some.inj h
      exact ⟨fun _ hplan => (by cases hplan), le_rfl, fun _ hlt => absurd hlt (lt_irrefl n)⟩
  | succ nodes ih =>
      obtain ⟨queue, seen⟩ := f
      cases queue with
      | nil =>
          rw [bfsLoop_stop (.inl rfl)] at h
          obtain rfl := Option.some.inj h
          exact ⟨fun _ hplan => (by cases hplan), Nat.le_add_right _ _,
            fun _ _ as t a hpath => (hlayers.complete hpath).2 a⟩
      | cons e queue =>
          obtain ⟨s, p⟩ := e
          obtain ⟨out, hout, h⟩ := Option.bind_eq_some_iff.mp h
          cases out with
          | inl report =>
              obtain rfl := Option.some.inj h
              obtain ⟨a, hin, pred, via, hstep, hdead, hvia, hplan, hgoal, hexp⟩ :=
                expandState_wins hout
              refine ⟨fun plan hp => ?_, by omega, fun hnone => ?_⟩
              · obtain rfl := Option.some.inj (hplan.symm.trans hp)
                exact ⟨p, s, a, pred, via, rfl, hin, hlayers.path _ List.mem_cons_self, hstep, hdead,
                  hvia, hgoal, fun as t b hpath => hlayers.shortest hpath⟩
              · cases hplan.symm.trans hnone
          | inr f' =>
              rw [show n + (nodes + 1) = n + 1 + nodes by omega]
              exact ih (expandState_layered hlayers hout) h

/-- What attains a goal wins somewhere, one step from the end of a path no longer than it. -/
theorem wins_of_attains (hstart : model.isGoal start = some false)
    (hattains : Attains model start as) (hmem : ∀ a ∈ as, a ∈ actions) :
    ∃ as' t a, Path (Goes model actions) start as' t ∧ Wins model actions t a ∧
      as'.length < as.length := by
  obtain ⟨preds, halong, hsafe, hgoal⟩ := hattains
  rcases hgoal with hgoal | hgoal
  · cases hstart.symm.trans hgoal
  · obtain ⟨as', t, a, hpath, hwins, hlt⟩ := wins_of_reaches .nil halong hsafe hmem hgoal
    exact ⟨as', t, a, hpath, hwins, by simpa using hlt⟩

/-- **A plan is safe and shortest, and a search that ends early has nothing to find.** -/
theorem runBfs_correct {maxNodes : ℕ} (h : runBfs model start actions maxNodes = some r) :
    r.expanded ≤ maxNodes ∧
    (∀ plan, r.plan = some plan →
      (∀ a ∈ plan, a ∈ actions) ∧
      (∃ preds via, along model start plan = some preds ∧ (∀ pred ∈ preds, pred.dead = false) ∧
        r.goalVia = some via ∧ EndsVia model start preds via) ∧
      (∀ as, as <+: plan → as ≠ plan → ¬ Attains model start as) ∧
      ∀ as, (∀ a ∈ as, a ∈ actions) → as.length < plan.length → ¬ Attains model start as) ∧
    (r.plan = none → r.expanded < maxNodes →
      ∀ as, (∀ a ∈ as, a ∈ actions) → ¬ Attains model start as) := by
  rw [runBfs, Option.bind_eq_bind, Option.bind_eq_some_iff] at h
  obtain ⟨goal, hgoal, h⟩ := h
  cases goal with
  | true =>
      obtain rfl := Option.some.inj h
      refine ⟨Nat.zero_le _, fun plan hplan => ?_, fun hnone => (by cases hnone)⟩
      obtain rfl := Option.some.inj hplan
      refine ⟨fun _ ha => (by cases ha),
        ⟨[], .isGoal, rfl, fun _ hp => (by cases hp), rfl, rfl, hgoal⟩,
        fun as hpre hne => absurd (List.prefix_nil.mp hpre) hne, fun as _ hlt => ?_⟩
      exact absurd hlt (Nat.not_lt_zero _)
  | false =>
      have hstart : InLayers model actions start ⟨[(start, [])], {start}⟩ := by
        rw [InLayers, Finset.coe_singleton]
        exact .start_layered
      have hsearched := bfsLoop_layered hstart h
      rw [Nat.zero_add] at hsearched
      refine ⟨hsearched.bounded, fun plan hplan => ?_, fun hnone hlt as hmem hattains => ?_⟩
      · obtain ⟨p, s, a, pred, via, rfl, hin, hpath, hstep, hdead, hvia, hgoalVia, hleast⟩ :=
          hsearched.found plan hplan
        obtain ⟨preds, halong, hsafe, hend, hmem⟩ := along_of_path hpath
        have hplanmem : ∀ b ∈ p ++ [a], b ∈ actions := by
          intro b hb
          rcases List.mem_append.mp hb with hb | hb
          · exact hmem b hb
          · exact List.mem_singleton.mp hb ▸ hin
        have hshortest : ∀ as, (∀ b ∈ as, b ∈ actions) → as.length < (p ++ [a]).length →
            ¬ Attains model start as := by
          intro as has hlt hattains
          obtain ⟨as', t, b, hpath', hwins, hlt'⟩ := wins_of_attains hgoal hattains has
          have hle := hleast as' t b hpath' hwins
          rw [List.length_append, List.length_singleton] at hlt
          omega
        refine ⟨hplanmem, ⟨preds ++ [pred], via, along_snoc halong hend hstep, ?_, hgoalVia, ?_⟩,
          fun as hpre hne => ?_, hshortest⟩
        · intro q hq
          rcases List.mem_append.mp hq with hq | hq
          · exact hsafe q hq
          · exact List.mem_singleton.mp hq ▸ hdead
        · rw [EndsVia, List.getLast?_concat]
          exact hvia
        · refine hshortest as (fun b hb => hplanmem b (hpre.subset hb)) ?_
          exact lt_of_le_of_ne hpre.length_le fun heq => hne (hpre.eq_of_length heq)
      · obtain ⟨as', t, b, hpath, hwins, -⟩ := wins_of_attains hgoal hattains hmem
        exact hsearched.exhausted hnone hlt as' t b hpath hwins

/-- Two moves: `r` counts up, to a win at 3, and `d` dies. -/
def staircase : WorldModel :=
  .new (fun grid action =>
    if action = "r" then
      some { grid := grid.map (·.map (· + 1)), win := grid == [[2]] }
    else some { grid, dead := true }) (fun _ => some false) "staircase"

theorem runBfs_correct_staircase :
    let r : BfsReport := ⟨some ["r", "r", "r"], 3, 3, some .win⟩
    r.expanded ≤ 10 ∧
    (∀ plan, r.plan = some plan →
      (∀ a ∈ plan, a ∈ ["d", "r"]) ∧
      (∃ preds via, along staircase [[0]] plan = some preds ∧
        (∀ pred ∈ preds, pred.dead = false) ∧
        r.goalVia = some via ∧ EndsVia staircase [[0]] preds via) ∧
      (∀ as, as <+: plan → as ≠ plan → ¬ Attains staircase [[0]] as) ∧
      ∀ as, (∀ a ∈ as, a ∈ ["d", "r"]) → as.length < plan.length → ¬ Attains staircase [[0]] as) ∧
    (r.plan = none → r.expanded < 10 →
      ∀ as, (∀ a ∈ as, a ∈ ["d", "r"]) → ¬ Attains staircase [[0]] as) :=
  @runBfs_correct staircase [[0]] ["d", "r"] _ 10 (by decide +kernel)

/-! ### The search returns -/

theorem expandState_returns (hstep : ∀ s a, (model.step s a).isSome)
    (hgoal : ∀ s, (model.isGoal s).isSome) : (expandState model s p n as f).isSome := by
  induction as generalizing f with
  | nil => rfl
  | cons a as ih =>
      obtain ⟨pred, hpred⟩ := Option.isSome_iff_exists.mp (hstep s a)
      obtain ⟨goal, hg⟩ := Option.isSome_iff_exists.mp (hgoal pred.grid)
      simp only [expandState, hpred, hg, Option.bind_eq_bind, Option.bind_some]
      split
      · exact ih
      · split
        · rfl
        · split
          · rfl
          · split
            · rfl
            · split
              · exact ih
              · exact ih

theorem bfsLoop_returns (hstep : ∀ s a, (model.step s a).isSome)
    (hgoal : ∀ s, (model.isGoal s).isSome) : (bfsLoop model actions nodes n f).isSome := by
  induction nodes generalizing n f with
  | zero => rw [bfsLoop_stop (.inr rfl)]; rfl
  | succ nodes ih =>
      obtain ⟨queue, seen⟩ := f
      cases queue with
      | nil => rw [bfsLoop_stop (.inl rfl)]; rfl
      | cons e queue =>
          obtain ⟨s, p⟩ := e
          have hexpand : (expandState model s p (n + 1) actions ⟨queue, seen⟩).isSome :=
            expandState_returns hstep hgoal
          obtain ⟨out, hout⟩ := Option.isSome_iff_exists.mp hexpand
          show (Option.bind (expandState model s p (n + 1) actions ⟨queue, seen⟩) _).isSome
          rw [hout, Option.bind_some]
          cases out with
          | inl report => rfl
          | inr f' => exact ih

/-- **With a model that does not panic the search ends, with a report.** -/
theorem runBfs_returns (hstep : ∀ s a, (model.step s a).isSome)
    (hgoal : ∀ s, (model.isGoal s).isSome) (maxNodes : ℕ) :
    (runBfs model start actions maxNodes).isSome := by
  obtain ⟨goal, hg⟩ := Option.isSome_iff_exists.mp (hgoal start)
  rw [runBfs, hg, Option.bind_eq_bind, Option.bind_some]
  cases goal with
  | true => rfl
  | false => exact bfsLoop_returns hstep hgoal

end Jcode.Schema
