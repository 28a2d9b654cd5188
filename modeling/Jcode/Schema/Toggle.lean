import Jcode.Schema.Certify
import Jcode.Schema.OnePlayer

/-!
# Schema — The toggle deliberator

`ToggleDeliberator` of `deliberators.rs`.  A hypothesis says of every unknown color whether it
blocks, can be walked on, or kills.  The deliberator keeps the hypotheses that the record does not
rule out, and as long as they differ on a color it walks into a cell of that color, over floor.

* `predict_of_attempt`: what a hypothesis predicts.
* `mem_new_iff`: at first the hypotheses are all maps over the unknown colors.
* `retain_spec`: what is kept.
* `probePath_spec`: where a probe leads.
* `probeLoop_stable`: the search for a probe is not cut short.
-/

namespace Jcode.Schema
open Rust

def ACTIONS : List String := ["up", "down", "left", "right"]

def SEMANTICS : List Semantics := [.blocking, .passable, .lethal]

def Semantics.debug : Semantics → String
  | .blocking => "Blocking"
  | .passable => "Passable"
  | .lethal => "Lethal"

/-- The colors, sorted, and the hypotheses that are left. -/
structure ToggleDeliberator where
  unknownColors : List UInt8
  candidates : List SemMap

/-! ### The search for a probe -/

/-- The cells to expand, each with the path to it, and the cells seen. -/
structure Probe where
  queue : List ((ℕ × ℕ) × List String)
  seen : Finset (ℕ × ℕ)

/-- Try the actions at one cell: the probe, or the frontier. -/
def probeCell (state : Grid) (targets : List UInt8) (x y : ℕ) (path : List String) :
    List String → Probe → Option (List String ⊕ Probe)
  | [], f => some (.inr f)
  | a :: actions, f => do
      let (dx, dy) := delta a
      if ← RuleProgram.onBoard state (x + dx) (y + dy) then
        let pos := ((x + dx).toNat, (y + dy).toNat)
        let v ← cell state pos.1 pos.2
        if v ∈ targets then return .inl (path ++ [a])
        else if v = 0 ∧ pos ∉ f.seen then
          probeCell state targets x y path actions
            { queue := f.queue ++ [(pos, path ++ [a])], seen := insert pos f.seen }
        else probeCell state targets x y path actions f
      else probeCell state targets x y path actions f

/-- The search; `n` more cells may be expanded. -/
def probeLoop (state : Grid) (targets : List UInt8) : ℕ → Probe → Option (Option (List String))
  | 0, _ => some none
  | n + 1, f =>
      match f.queue with
      | [] => some none
      | ((x, y), path) :: queue => do
          match ← probeCell state targets x y path ACTIONS { f with queue } with
          | .inl probe => return some probe
          | .inr f => probeLoop state targets n f

/-- The shortest way over floor into a cell of a target color.  No more cells are expanded than
there are cells of floor, and the first. -/
def probePath (state : Grid) (targets : List UInt8) : Option (Option (List String)) := do
  let start ← player state
  probeLoop state targets ((findColor state 0).length + 1)
    { queue := [(start, [])], seen := {start} }

/-! ### Deliberation -/

namespace ToggleDeliberator

/-- The colors of a grid whose meaning is not known beforehand. -/
def unknownIn (grid : Grid) : List UInt8 :=
  ((grid.flatten.filter fun c => c ∉ ([0, 1, 3] : List UInt8)).dedup).insertionSort (· ≤ ·)

/-- Each hypothesis, with each meaning of the color. -/
def widen (candidates : List SemMap) (c : UInt8) : List SemMap :=
  candidates.flatMap fun m => SEMANTICS.map fun s => Function.update m c (some s)

def new (initialGrid : Grid) : ToggleDeliberator where
  unknownColors := unknownIn initialGrid
  candidates := (unknownIn initialGrid).foldl widen [fun _ => none]

/-- The hypotheses that are consistent with the timeline. -/
def retain (timeline : Timeline) : List SemMap → Option (List SemMap)
  | [] => some []
  | m :: rest => do
      let keep ← consistent m timeline
      let rest ← retain timeline rest
      return if keep then m :: rest else rest

/-- The colors the hypotheses differ on; every hypothesis is about all the unknown colors. -/
def ambiguousColors (d : ToggleDeliberator) : List UInt8 :=
  d.unknownColors.filter fun c => 1 < (d.candidates.map fun m => m c).dedup.length

/-- A hypothesis as the derived `Debug` of its map prints it. -/
def debugMap (d : ToggleDeliberator) (m : SemMap) : String :=
  "\x7b" ++ join ", " (d.unknownColors.filterMap fun c =>
    (m c).map fun s => toString c.toNat ++ ": " ++ s.debug) ++ "\x7d"

def debugActions (actions : List String) : String :=
  "[" ++ join ", " (actions.map fun a => "\"" ++ a ++ "\"") ++ "]"

def describe (d : ToggleDeliberator) (best : SemMap) (timeline : Timeline) : String :=
  "mechanism hypothesis " ++ d.debugMap best ++ " (" ++ toString d.candidates.length ++
    " candidate(s) consistent with " ++ toString timeline.len ++ "-step history)"

def probeNote (d : ToggleDeliberator) (ambiguous : List UInt8) (probe : List String) : String :=
  "Ambiguity over colors " ++ RuleProgram.debugColors ambiguous ++
    ": committing discriminating probe " ++ debugActions probe ++
    "; outcomes differ across " ++ toString d.candidates.length ++ " surviving candidates."

def planNote (d : ToggleDeliberator) (best : SemMap) (backtest : BacktestReport) : String :=
  "Unique-enough mechanism " ++ d.debugMap best ++ "; backtest " ++ backtest.summary ++
    "; handing plan to in-model BFS."

/-- Drop what the record rules out, install the first hypothesis that is left, and probe a color
that is in doubt, when there is one within reach. -/
def deliberate (d : ToggleDeliberator) (current : Grid) (model : WorldModel) (timeline : Timeline)
    (backtest : BacktestReport) (_counterexample : Option Transition) :
    Option (Deliberation × WorldModel × ToggleDeliberator) := do
  let candidates ← retain timeline d.candidates
  let d := { d with candidates }
  let best ← candidates.head?
  let model := model.revise (some (predict best)) none (d.describe best timeline)
  let ambiguous := d.ambiguousColors
  let probe ← if ambiguous.isEmpty then some none else probePath current ambiguous
  match probe with
  | some probe =>
      return ({ actions := probe, intent := .experiment, note := d.probeNote ambiguous probe },
        model, d)
  | none =>
      return ({ actions := [], intent := .plan, note := d.planNote best backtest }, model, d)

end ToggleDeliberator

def toggleDeliberator : Deliberator ToggleDeliberator := ⟨ToggleDeliberator.deliberate⟩

/-! ### Where a probe leads -/

/-- The action leads from one cell to the other. -/
def Beside (p : ℕ × ℕ) (action : String) (q : ℕ × ℕ) : Prop :=
  action ∈ ACTIONS ∧ (q.1 : ℤ) = p.1 + (delta action).1 ∧ (q.2 : ℤ) = p.2 + (delta action).2

/-- **A probe**: the actions lead over floor, and the last of them into a target color. -/
inductive Probes (state : Grid) (targets : List UInt8) : ℕ × ℕ → List String → Prop
  | enter {p q : ℕ × ℕ} {a : String} {c : UInt8} (beside : Beside p a q)
      (entered : cell state q.1 q.2 = some c) (target : c ∈ targets) : Probes state targets p [a]
  | walk {p q : ℕ × ℕ} {a : String} {as : List String} (beside : Beside p a q)
      (floor : cell state q.1 q.2 = some 0) (rest : Probes state targets q as) :
      Probes state targets p (a :: as)

section Search
variable {state : Grid} {targets : List UInt8}

theorem nonneg_of_onBoard {x y : ℤ} (h : RuleProgram.onBoard state x y = some true) :
    0 ≤ x ∧ 0 ≤ y := by
  rw [RuleProgram.onBoard] at h
  split at h
  · cases h
  · omega

/-- The cells that may still be expanded. -/
def Probe.left (state : Grid) (f : Probe) : ℕ :=
  ((findColor state 0).toFinset \ f.seen).card + f.queue.length

theorem Probe.left_insert {f : Probe} {pos : ℕ × ℕ} {path : List String}
    (hfloor : cell state pos.1 pos.2 = some 0) (hnew : pos ∉ f.seen) :
    Probe.left state ⟨f.queue ++ [(pos, path)], insert pos f.seen⟩ = f.left state := by
  have hmem : pos ∈ (findColor state 0).toFinset \ f.seen :=
    Finset.mem_sdiff.mpr ⟨List.mem_toFinset.mpr (mem_findColor.mpr hfloor), hnew⟩
  have hpos := Finset.card_pos.mpr ⟨pos, hmem⟩
  rw [left, left, Finset.sdiff_insert, Finset.card_erase_of_mem hmem, List.length_append,
    List.length_singleton]
  omega

/-- **One cell**: an action enters a target color, or the floor around it is queued. -/
theorem probeCell_spec {x y : ℕ} {path : List String} {actions : List String} {f : Probe}
    {r : List String ⊕ Probe} (hactions : ∀ a ∈ actions, a ∈ ACTIONS)
    (h : probeCell state targets x y path actions f = some r) :
    (∃ a, r = .inl (path ++ [a]) ∧ Probes state targets (x, y) [a]) ∨
    (∃ f', r = .inr f' ∧ f'.left state = f.left state ∧ ∀ e ∈ f'.queue, e ∈ f.queue ∨
      ∃ a, e.2 = path ++ [a] ∧ Beside (x, y) a e.1 ∧ cell state e.1.1 e.1.2 = some 0) := by
  induction actions generalizing f with
  | nil =>
      obtain rfl := Option.some.inj h
      exact .inr ⟨f, rfl, rfl, fun e he => .inl he⟩
  | cons a actions ih =>
      obtain ⟨ha, hrest⟩ := List.forall_mem_cons.mp hactions
      obtain ⟨⟨dx, dy⟩, hd⟩ : ∃ d, delta a = d := ⟨_, rfl⟩
      rw [probeCell, hd] at h
      obtain ⟨inside, hinside, h⟩ := Option.bind_eq_some_iff.mp h
      cases inside with
      | false => exact ih hrest h
      | true =>
          obtain ⟨v, hv, h⟩ := Option.bind_eq_some_iff.mp h
          have hbeside : Beside (x, y) a ((x + dx : ℤ).toNat, (y + dy : ℤ).toNat) := by
            obtain ⟨hx, hy⟩ := nonneg_of_onBoard hinside
            rw [Beside, hd]
            exact ⟨ha, Int.toNat_of_nonneg hx, Int.toNat_of_nonneg hy⟩
          split at h
          · next htarget =>
              obtain rfl := Option.some.inj h
              exact .inl ⟨a, rfl, .enter hbeside hv htarget⟩
          split at h
          · next hfloor =>
              obtain ⟨rfl, hnew⟩ := hfloor
              obtain hfound | ⟨f', hr, hleft, hqueue⟩ := ih hrest h
              · exact .inl hfound
              · refine .inr ⟨f', hr, hleft.trans (Probe.left_insert hv hnew), fun e he => ?_⟩
                obtain hin | hnext := hqueue e he
                · rcases List.mem_append.mp hin with hin | hin
                  · exact .inl hin
                  · obtain rfl := List.mem_singleton.mp hin
                    exact .inr ⟨a, rfl, hbeside, hv⟩
                · exact .inr hnext
          · exact ih hrest h

/-- **The search keeps its promise**: what is queued is joined to the start, so that a probe from
there is one from the start. -/
theorem probeLoop_spec {start : ℕ × ℕ} {n : ℕ} {f : Probe} {probe : List String}
    (hqueue : ∀ e ∈ f.queue, ∀ as, Probes state targets e.1 as →
      Probes state targets start (e.2 ++ as))
    (h : probeLoop state targets n f = some (some probe)) : Probes state targets start probe := by
  induction n generalizing f with
  | zero => cases h
  | succ n ih =>
      rw [probeLoop] at h
      split at h
      · cases h
      · next x y path queue heq =>
          rw [heq] at hqueue
          obtain ⟨hhead, hrest⟩ := List.forall_mem_cons.mp hqueue
          obtain ⟨r, hr, h⟩ := Option.bind_eq_some_iff.mp h
          obtain ⟨a, rfl, hprobe⟩ | ⟨f', rfl, -, hnext⟩ := probeCell_spec (fun a ha => ha) hr
          · obtain rfl := Option.some.inj (Option.some.inj h)
            exact hhead _ hprobe
          · refine ih (fun e he as has => ?_) h
            obtain hold | ⟨a, hpath, hbeside, hfloor⟩ := hnext e he
            · exact hrest e hold as has
            · rw [hpath, List.append_assoc]
              exact hhead _ (.walk hbeside hfloor has)

/-- **A probe leads over floor into a cell of a target color.** -/
theorem probePath_spec {probe : List String} (h : probePath state targets = some (some probe)) :
    ∃ start, player state = some start ∧ Probes state targets start probe := by
  obtain ⟨start, hstart, h⟩ := Option.bind_eq_some_iff.mp h
  refine ⟨start, hstart, probeLoop_spec (fun e he as has => ?_) h⟩
  obtain rfl := List.mem_singleton.mp he
  exact has

/-- **The search is not cut short**: with all the cells left to expand, more change nothing. -/
theorem probeLoop_stable {n : ℕ} {f : Probe} (hleft : f.left state ≤ n) (k : ℕ) :
    probeLoop state targets (n + k) f = probeLoop state targets n f := by
  induction n generalizing f with
  | zero =>
      have hnil : f.queue = [] := List.length_eq_zero_iff.mp (by unfold Probe.left at hleft; omega)
      rw [Nat.zero_add]
      cases k with
      | zero => rfl
      | succ k =>
          rw [probeLoop, probeLoop]
          split
          · rfl
          · next heq =>
              rw [hnil] at heq
              cases heq
  | succ n ih =>
      rw [Nat.succ_add, probeLoop, probeLoop]
      split
      · rfl
      · next x y path queue heq =>
          cases hr : probeCell state targets x y path ACTIONS { f with queue } with
          | none => rfl
          | some r =>
              obtain ⟨a, rfl, -⟩ | ⟨f', rfl, hsame, -⟩ := probeCell_spec (fun a ha => ha) hr
              · rfl
              · refine ih ?_
                rw [Probe.left, heq, List.length_cons, ← Nat.add_assoc] at hleft
                rw [hsame]
                exact Nat.le_of_succ_le_succ hleft

/-- The search for a probe has all the cells it needs. -/
theorem probePath_stable (k : ℕ) : probePath state targets =
    (player state).bind fun start => probeLoop state targets
      ((findColor state 0).length + 1 + k) ⟨[(start, [])], {start}⟩ := by
  rw [probePath, Option.bind_eq_bind]
  refine congrArg _ (funext fun start => (probeLoop_stable ?_ k).symm)
  have hle := (Finset.card_le_card (Finset.sdiff_subset (s := (findColor state 0).toFinset)
    (t := {start}))).trans (List.toFinset_card_le _)
  rw [Probe.left]
  exact Nat.add_le_add_right hle 1

end Search

/-! ### What the hypotheses predict -/

section Predict
variable {g : Grid} {action : String}

/-- What comes of a cell of this meaning: the agent is still where it was, or has walked. -/
def Semantics.outcome (still walked : Grid) : Semantics → Prediction
  | .passable => { grid := walked }
  | .lethal => { grid := still, dead := true }
  | .blocking => { grid := still }

/-- The prediction for a target of the color `t`, from the boards that are possible. -/
def outcome (sem : SemMap) (t : UInt8) (still walked : Grid) : Prediction :=
  if t = 3 then { grid := walked, win := true }
  else (if t = 0 then Semantics.passable else (sem t).getD .blocking).outcome still walked

theorem asIndex_natCast (n : ℕ) : asIndex (n : ℤ) = some n := by
  rw [asIndex, if_pos (Int.natCast_nonneg n), Int.toNat_natCast]

/-- **All hypotheses predict from the same two boards**: the one at hand, and the one on which the
player has walked. -/
theorem predict_of_attempt (att : Attempt g action) : ∃ walked : Grid,
    walked.length = g.length ∧
    (∀ x y, cell walked x y = (cell g x y).map
      (Move.advance.recolor att.playerPos att.targetPos att.beyondPos att.target (x, y))) ∧
    ∀ sem, predict sem g action = some (outcome sem att.target g walked) := by
  obtain ⟨g₁, hset₁, hshape₁, hcells₁⟩ := setCell_of_cell 0 (cell_of_player att.player_at)
  have htarget₁ := (hcells₁ att.tx att.ty).trans (by rw [att.target_at, Option.map_some])
  obtain ⟨g₂, hset₂, hshape₂, hcells₂⟩ := setCell_of_cell 1 htarget₁
  have hmoved : moved g att.px att.py att.tx att.ty = some g₂ := by
    rw [moved, hset₁]
    exact hset₂
  refine ⟨g₂, ?_, fun x y => ?_, fun sem => ?_⟩
  · simpa using congrArg List.length (hshape₂.trans hshape₁)
  · rw [hcells₂, hcells₁, Option.map_map]
    rfl
  · have hplayer : (findColor g 1).head? = some (att.px, att.py) := att.player_at
    simp only [predict, hplayer, ← att.tx_eq, ← att.ty_eq, asIndex_natCast, att.target_at, hmoved,
      Option.bind_eq_bind, Option.bind_some, outcome]
    split
    · rfl
    · cases if att.target = 0 then Semantics.passable else (sem att.target).getD .blocking <;> rfl

/-- A prediction is about an attempt. -/
theorem attempt_of_predict {sem : SemMap} {pred : Prediction}
    (h : predict sem g action = some pred) : Nonempty (Attempt g action) := by
  obtain ⟨⟨px, py⟩, hplayer, h⟩ := Option.bind_eq_some_iff.mp h
  obtain ⟨tx, htx, h⟩ := Option.bind_eq_some_iff.mp h
  obtain ⟨ty, hty, h⟩ := Option.bind_eq_some_iff.mp h
  obtain ⟨t, ht, -⟩ := Option.bind_eq_some_iff.mp h
  have hindex : ∀ {i : ℤ} {n : ℕ}, asIndex i = some n → (n : ℤ) = i := by
    intro i n hi
    rw [asIndex] at hi
    split at hi
    · next hpos =>
        obtain rfl := Option.some.inj hi
        exact Int.toNat_of_nonneg hpos
    · cases hi
  exact ⟨⟨px, py, tx, ty, t, _, hplayer, hindex htx, hindex hty, ht, rfl⟩⟩

/-- Whether a prediction can be made does not depend on the hypothesis. -/
theorem predict_isSome {sem : SemMap} (sem' : SemMap)
    (h : (predict sem g action).isSome = true) : (predict sem' g action).isSome = true := by
  obtain ⟨pred, hpred⟩ := Option.isSome_iff_exists.mp h
  obtain ⟨att⟩ := attempt_of_predict hpred
  obtain ⟨walked, -, -, hall⟩ := predict_of_attempt att
  rw [hall sem', Option.isSome_some]

end Predict

/-! ### What the record rules out -/

/-- The hypothesis explains the transition. -/
def Accounts (sem : SemMap) (t : Transition) : Prop :=
  ∃ pred, predict sem t.stateBefore t.action = some pred ∧ Explains pred t

theorem consistent_iff {sem : SemMap} {tl : Timeline} :
    consistent sem tl = some true ↔ ∀ t ∈ tl.records, Accounts sem t :=
  consistentWith_iff

/-- Where one hypothesis predicts every step, the others are checked without a panic. -/
theorem consistent_isSome {sem : SemMap} {tl : Timeline} (h : ∀ t ∈ tl.records, Accounts sem t)
    (sem' : SemMap) : (consistent sem' tl).isSome = true := by
  rw [consistent]
  generalize tl.records = ts at h ⊢
  induction ts with
  | nil => rfl
  | cons t ts ih =>
      obtain ⟨⟨pred, hpred, -⟩, hrest⟩ := List.forall_mem_cons.mp h
      obtain ⟨pred', hpred'⟩ := Option.isSome_iff_exists.mp
        (predict_isSome sem' (by rw [hpred, Option.isSome_some]))
      rw [consistentWith, hpred', Option.bind_eq_bind, Option.bind_some]
      split
      · rfl
      · split
        · rfl
        · exact ih hrest

namespace ToggleDeliberator

/-- **What is kept.** -/
theorem retain_spec {tl : Timeline} (htotal : ∀ m, (consistent m tl).isSome = true)
    (ms : List SemMap) : ∃ kept, retain tl ms = some kept ∧ kept.Sublist ms ∧
      ∀ m, m ∈ kept ↔ m ∈ ms ∧ consistent m tl = some true := by
  induction ms with
  | nil => exact ⟨[], rfl, List.Sublist.slnil, by simp⟩
  | cons m ms ih =>
      obtain ⟨kept, hkept, hsub, hmem⟩ := ih
      obtain ⟨keep, hkeep⟩ := Option.isSome_iff_exists.mp (htotal m)
      rw [retain, hkeep, hkept]
      cases keep with
      | true =>
          refine ⟨m :: kept, rfl, hsub.cons_cons m, fun m' => ?_⟩
          rw [List.mem_cons, List.mem_cons, hmem, or_and_right]
          refine or_congr ⟨?_, And.left⟩ .rfl
          rintro rfl
          exact ⟨rfl, hkeep⟩
      | false =>
          refine ⟨kept, rfl, hsub.cons m, fun m' => ?_⟩
          rw [hmem, List.mem_cons, or_and_right]
          refine ⟨.inr, fun h => h.resolve_left ?_⟩
          rintro ⟨rfl, htrue⟩
          rw [hkeep] at htrue
          cases htrue

/-- The hypothesis is about these colors. -/
def Over (colors : List UInt8) (m : SemMap) : Prop := ∀ c, (m c).isSome = true ↔ c ∈ colors

theorem mem_widen {candidates : List SemMap} {c : UInt8} {m : SemMap} :
    m ∈ widen candidates c ↔ ∃ b ∈ candidates, ∃ s, m = Function.update b c (some s) := by
  have hall : ∀ s, s ∈ SEMANTICS := fun s => by cases s <;> decide
  simp only [widen, List.mem_flatMap, List.mem_map, hall, true_and, eq_comm]

theorem mem_foldl_widen {colors : List UInt8} {base : List SemMap} {m : SemMap} :
    m ∈ colors.foldl widen base ↔ ∃ b ∈ base,
      (∀ c ∉ colors, m c = b c) ∧ ∀ c ∈ colors, (m c).isSome = true := by
  induction colors generalizing base with
  | nil =>
      rw [List.foldl_nil]
      refine ⟨fun h => ⟨m, h, fun _ _ => rfl, fun c hc => absurd hc List.not_mem_nil⟩, ?_⟩
      rintro ⟨b, hb, hsame, -⟩
      have heq : m = b := funext fun c => hsame c List.not_mem_nil
      exact heq ▸ hb
  | cons c colors ih =>
      rw [List.foldl_cons, ih]
      constructor
      · rintro ⟨b', hb', hsame, hsome⟩
        obtain ⟨b, hb, s, rfl⟩ := mem_widen.mp hb'
        refine ⟨b, hb, fun c' hc' => ?_, fun c' hc' => ?_⟩
        · obtain ⟨hne, hnot⟩ := not_or.mp (mt List.mem_cons.mpr hc')
          rw [hsame c' hnot, Function.update_of_ne hne]
        · by_cases hin : c' ∈ colors
          · exact hsome c' hin
          · obtain rfl := (List.mem_cons.mp hc').resolve_right hin
            rw [hsame c' hin, Function.update_self, Option.isSome_some]
      · rintro ⟨b, hb, hsame, hsome⟩
        obtain ⟨s, hs⟩ := Option.isSome_iff_exists.mp (hsome c (List.mem_cons_self ..))
        refine ⟨Function.update b c (some s), mem_widen.mpr ⟨b, hb, s, rfl⟩, fun c' hc' => ?_,
          fun c' hc' => hsome c' (List.mem_cons_of_mem _ hc')⟩
        by_cases heq : c' = c
        · subst heq
          rw [hs, Function.update_self]
        · rw [Function.update_of_ne heq, hsame c' fun h => hc' ((List.mem_cons.mp h).resolve_left heq)]

/-- **At first every meaning of every unknown color is possible.** -/
theorem mem_new_iff {grid : Grid} {m : SemMap} :
    m ∈ (new grid).candidates ↔ Over (unknownIn grid) m := by
  rw [new, mem_foldl_widen]
  constructor
  · rintro ⟨b, hb, hsame, hsome⟩ c
    refine ⟨fun hc => ?_, hsome c⟩
    by_contra hnot
    rw [hsame c hnot, List.mem_singleton.mp hb] at hc
    cases hc
  · intro h
    refine ⟨fun _ => none, List.mem_singleton_self _, fun c hc => ?_, fun c hc => (h c).mpr hc⟩
    rw [← Option.not_isSome_iff_eq_none, h]
    exact hc

end ToggleDeliberator

end Jcode.Schema
