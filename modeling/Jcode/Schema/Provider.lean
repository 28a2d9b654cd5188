import Jcode.Schema.Elimination

/-!
# Schema — a provider that learns what the colors do

`demo_provider.rs`, the scripted provider.  It reads a request, classifies each color by what
happened when the player stepped toward it, writes the program that says so, and probes the nearest
color that has not been classified.

* `authored_step`: an authored program does at a cell what the color means, and nothing else.
* `classify_learned`: over a record in which the colors have one meaning, what is classified is that
  meaning, and every color that was entered is classified.
* `Learned.foreseen`: the program that is written then predicts the whole record.
-/

namespace Jcode.Schema
open Rust

namespace Effect

def advance : Effect := { playerAdvances := true }

def advanceWin : Effect := { playerAdvances := true, win := true }

end Effect

namespace DemoProvider
open RuleProgram

/-! ### The provider -/

/-- What happened when the player stepped toward a cell of a color. -/
inductive Sem where
  | passable
  | winning
  | lethal
  | blocking
  deriving DecidableEq, Repr

/-- The colors that are classified. -/
abbrev Sems := UInt8 → Option Sem

/-- The colors, in the order of a `BTreeMap` that is keyed by them. -/
def COLORS : List UInt8 := (List.range 256).map UInt8.ofNat

/-- What one transition shows; stepping onto floor or nowhere shows nothing. -/
def classifyStep (sems : Sems) (t : TransitionDigest) : Option Sems :=
  match player t.stateBefore with
  | none => some sems
  | some (px, py) => do
      let (dx, dy) := delta t.action
      if ← onBoard t.stateBefore (px + dx) (py + dy) then
        let tx := (px + dx).toNat
        let ty := (py + dy).toNat
        let target ← cell t.stateBefore tx ty
        if target = 0 ∨ target = 1 then return sems
        else
          let sem :=
            if t.win then Sem.winning
            else if t.dead then .lethal
            else if player t.stateAfter = some (tx, ty) then .passable
            else .blocking
          return Function.update sems target (some sem)
      else return sems

def classify (timeline : List TransitionDigest) : Option Sems :=
  timeline.foldlM classifyStep fun _ => none

def semName : Sem → String
  | .passable => "passable"
  | .winning => "winning"
  | .lethal => "lethal"
  | .blocking => "blocking"

def semEffect : Sem → Option Effect
  | .passable => some .advance
  | .winning => some .advanceWin
  | .lethal => some { dead := true }
  -- no rule is a block
  | .blocking => none

/-- The rule for a classified color; floor and goal are known beforehand. -/
def learnedRule (color : UInt8) (sem : Sem) : Option Rule :=
  if color = 0 ∨ color = 3 then none
  else (semEffect sem).map fun effect =>
    { onTarget := color, note := "learned " ++ semName sem, effect }

def authorProgram (sems : Sems) : RuleProgram where
  rules :=
    { onTarget := 0, note := "floor", effect := .advance } ::
    { onTarget := 3, note := "goal", effect := .advanceWin } ::
    COLORS.filterMap fun color => (sems color).bind (learnedRule color)

/-- The colors of the grid that are not classified, sorted. -/
def unknownColors (grid : Grid) (sems : Sems) : List UInt8 :=
  ((grid.flatten.filter fun c => c ∉ ([0, 1, 3] : List UInt8) ∧ (sems c).isNone).dedup).insertionSort
    (· ≤ ·)

/-- The search is that of the toggle deliberator; without a player there is no probe. -/
def probePath (grid : Grid) (targets : List UInt8) : Option (Option (List String)) :=
  match player grid with
  | none => some none
  | some _ => Schema.probePath grid targets

/-- The answer to a request that was understood. -/
def respond (req : DeliberationRequest) : Option DeliberationResponse := do
  let sems ← classify req.timeline
  let program := authorProgram sems
  let unknown := unknownColors req.currentGrid sems
  if unknown.isEmpty then
    return { revisedProgram := some program, intent := "plan"
             note := "mechanism fully classified; certify and plan to goal" }
  else
    match ← probePath req.currentGrid unknown with
    | some p =>
        return { revisedProgram := some program, intent := "experiment", actions := p
                 note := "probing ambiguous color(s) " ++ debugColors unknown ++ " via " ++
                   ToggleDeliberator.debugActions p ++ " to learn their semantics" }
    | none =>
        return { revisedProgram := some program, intent := "plan"
                 note := "no reachable probe; planning with current model" }

/-- `serde_json` on the side of the provider too. -/
structure ProviderJson extends ProtocolJson where
  readRequest : String → Except String DeliberationRequest
  writeResponse : DeliberationResponse → String

def toggleProvider (json : ProviderJson) : Provider Unit := fun _ prompt =>
  match json.readRequest prompt with
  | .error e =>
      some (json.writeResponse
        { intent := "experiment", note := "could not parse request: " ++ e }, ())
  | .ok req => (respond req).map fun response => (json.writeResponse response, ())

/-! ### What an authored program does -/

/-- What a color means to the program that is written from a classification. -/
def meaning (sems : Sems) (color : UInt8) : Sem :=
  if color = 0 then .passable else if color = 3 then .winning else (sems color).getD .blocking

/-- What happens at a cell of this meaning. -/
def Sem.deed : Sem → Deed
  | .passable => ⟨.advance, fun _ _ => none, false, false⟩
  | .winning => ⟨.advance, fun _ _ => none, true, false⟩
  | .lethal => ⟨.stay, fun _ _ => none, false, true⟩
  | .blocking => .blocked

/-- What comes of it: the player is still where it was, or has walked. -/
def Sem.prediction (still walked : Grid) : Sem → Prediction
  | .passable => { grid := walked }
  | .winning => { grid := walked, win := true }
  | .lethal => { grid := still, dead := true }
  | .blocking => { grid := still }

section Authored
variable {sems sems' truth : Sems} {c t : UInt8} {b : Option UInt8} {g : Grid} {action : String}
  {pred : Prediction}

theorem mem_COLORS (c : UInt8) : c ∈ COLORS :=
  List.mem_map.mpr ⟨c.toNat, List.mem_range.mpr c.toNat_lt, UInt8.ofNat_toNat⟩

/-- Among rules for different keys, the search finds the rule for its own. -/
theorem find?_filterMap_key {α β : Type} {f : α → Option β} {p : β → Bool} {k : α} {l : List α}
    (hkey : ∀ a r, f a = some r → (p r = true ↔ a = k)) (hk : k ∈ l) :
    (l.filterMap f).find? p = f k := by
  induction l with
  | nil => exact absurd hk List.not_mem_nil
  | cons a l ih =>
      rw [List.filterMap_cons]
      cases hf : f a with
      | none =>
          dsimp only
          rcases List.mem_cons.mp hk with rfl | hin
          · -- the key has no rule here, and no other key has its rule
            rw [hf, List.find?_eq_none]
            intro r hr hp
            obtain ⟨a, -, ha⟩ := List.mem_filterMap.mp hr
            obtain rfl := (hkey a r ha).mp hp
            cases hf.symm.trans ha
          · exact ih hin
      | some r =>
          dsimp only
          by_cases ha : a = k
          · subst ha
            rw [List.find?_cons_of_pos ((hkey a r hf).mpr rfl), hf]
          · rw [List.find?_cons_of_neg fun hp => ha ((hkey a r hf).mp hp)]
            exact ih ((List.mem_cons.mp hk).resolve_left fun h => ha h.symm)

theorem applies_learned {sem : Sem} {r : Rule} (h : learnedRule c sem = some r) :
    applies t b r = true ↔ c = t := by
  rw [learnedRule] at h
  split at h
  · cases h
  · obtain ⟨effect, -, rfl⟩ := Option.map_eq_some_iff.mp h
    simp [applies, guardHolds]

/-- **The rule that applies** is the one for the color. -/
theorem find?_authored (sems : Sems) (t : UInt8) (b : Option UInt8) :
    (authorProgram sems).rules.find? (applies t b) =
      if t = 0 then some { onTarget := 0, note := "floor", effect := .advance }
      else if t = 3 then some { onTarget := 3, note := "goal", effect := .advanceWin }
      else (sems t).bind (learnedRule t) := by
  have hrest : (COLORS.filterMap fun color => (sems color).bind (learnedRule color)).find?
      (applies t b) = (sems t).bind (learnedRule t) := by
    refine find?_filterMap_key (f := fun color => (sems color).bind (learnedRule color))
      (fun color r hr => ?_) (mem_COLORS t)
    obtain ⟨sem, -, hrule⟩ := Option.bind_eq_some_iff.mp hr
    exact applies_learned hrule
  rw [authorProgram]
  by_cases h0 : t = 0
  · subst h0
    rfl
  · rw [List.find?_cons_of_neg (by simp [applies, Ne.symm h0]), if_neg h0]
    by_cases h3 : t = 3
    · subst h3
      rfl
    · rw [List.find?_cons_of_neg (by simp [applies, Ne.symm h3]), if_neg h3, hrest]

/-- **What the program does** is what the color means. -/
theorem authorProgram_deed (sems : Sems) (t : UInt8) (b : Option UInt8) :
    (authorProgram sems).deed t b = (meaning sems t).deed := by
  rw [deed, find?_authored, meaning]
  by_cases h0 : t = 0
  · rw [if_pos h0, if_pos h0]
    rfl
  · rw [if_neg h0, if_neg h0]
    by_cases h3 : t = 3
    · rw [if_pos h3, if_pos h3]
      rfl
    · rw [if_neg h3, if_neg h3]
      cases hsem : sems t with
      | none => rfl
      | some sem =>
          rw [Option.bind_some, learnedRule, if_neg (not_or.mpr ⟨h0, h3⟩), Option.getD_some]
          cases sem <;> rfl

/-- **A step of an authored program that enters a cell**: all of them tell the same two boards
apart, as the hypotheses of the toggle deliberator do. -/
theorem authored_step (hrect : Rectangular g) (att : Attempt g action) : ∃ walked : Grid,
    Rectangular walked ∧
    (∀ sem, predict sem g action = some (outcome sem att.target g walked)) ∧
    (∀ x y, cell walked x y = (cell g x y).map
      (Move.advance.recolor att.playerPos att.targetPos att.beyondPos att.target (x, y))) ∧
    ∀ sems, (authorProgram sems).step g action =
      some ((meaning sems att.target).prediction g walked) := by
  obtain ⟨walked, hlen, hcells, hall⟩ := predict_of_attempt att
  have hshape : walked.map List.length = g.map List.length :=
    shape_of_cells hlen fun x y => by rw [hcells, Option.isSome_map]
  refine ⟨walked, hrect.of_shape hshape, hall, hcells, fun sems => ?_⟩
  obtain ⟨pred, hpred, hperf⟩ := att.performed hrect (authorProgram sems)
  rw [authorProgram_deed] at hperf
  have hdone : att.Performed (meaning sems att.target).deed
      ((meaning sems att.target).prediction g walked) := by
    cases meaning sems att.target with
    | passable => exact ⟨hlen, rfl, rfl, rfl, hcells⟩
    | winning => exact ⟨hlen, rfl, rfl, rfl, hcells⟩
    | lethal =>
        refine ⟨rfl, rfl, rfl, rfl, fun x y => ?_⟩
        simp [Sem.deed, Sem.prediction, Move.recolor]
    | blocking => exact att.performed_blocked
  rw [hpred, hperf.unique hdone]

/-- Programs do the same where the color means the same. -/
theorem authored_congr (hrect : Rectangular g)
    (h : ∀ att : Attempt g action, meaning sems att.target = meaning sems' att.target) :
    (authorProgram sems).step g action = (authorProgram sems').step g action := by
  rcases step_rectangular hrect action with hblocked | ⟨⟨att⟩⟩
  · rw [hblocked, hblocked]
  · obtain ⟨walked, -, -, -, hall⟩ := authored_step hrect att
    rw [hall, hall, h att]

/-- A rectangular board with at most one agent. -/
structure Tidy (g : Grid) : Prop where
  rect : Rectangular g
  one : OneAgent g

/-- **An authored program keeps a board tidy.** -/
theorem Tidy.step (h : Tidy g) (hstep : (authorProgram sems).step g action = some pred) :
    Tidy pred.grid := by
  rcases step_rectangular h.rect action with hblocked | ⟨⟨att⟩⟩
  · obtain rfl := Option.some.inj ((hblocked _).symm.trans hstep)
    exact h
  · obtain ⟨walked, hrect, hpredict, -, hall⟩ := authored_step h.rect att
    obtain rfl := Option.some.inj ((hall sems).symm.trans hstep)
    have hwalked : Tidy walked := by
      refine ⟨hrect, ?_⟩
      have hone := predict_oneAgent h.one (hpredict fun _ => some .passable)
      have hgrid : (outcome (fun _ => some .passable) att.target g walked).grid = walked := by
        rw [outcome]
        split <;> simp [Semantics.outcome]
      rwa [hgrid] at hone
    cases meaning sems att.target with
    | passable => exact hwalked
    | winning => exact hwalked
    | lethal => exact h
    | blocking => exact h

theorem prediction_levelUp (sem : Sem) (still walked : Grid) :
    (sem.prediction still walked).levelUp = false := by
  cases sem <;> rfl

/-- An authored program predicts no level. -/
theorem authored_levelUp (hrect : Rectangular g)
    (hstep : (authorProgram sems).step g action = some pred) : pred.levelUp = false := by
  rcases step_rectangular hrect action with hblocked | ⟨⟨att⟩⟩
  · obtain rfl := Option.some.inj ((hblocked _).symm.trans hstep)
    rfl
  · obtain ⟨walked, -, -, -, hall⟩ := authored_step hrect att
    obtain rfl := Option.some.inj ((hall sems).symm.trans hstep)
    exact prediction_levelUp _ _ _

end Authored

/-! ### What the record shows -/

/-- The program predicts the transition. -/
def Foreseen (sems : Sems) (t : Transition) : Prop :=
  ∃ pred, (authorProgram sems).step t.stateBefore t.action = some pred ∧ Explains pred t

/-- What is classified is what the colors mean, and they are the colors that were entered. -/
structure Learned (truth : Sems) (ts : List Transition) (sems : Sems) : Prop where
  sound : ∀ c sem, sems c = some sem → meaning truth c = sem
  entered : ∀ c, (sems c).isSome = true ↔ c ≠ 0 ∧ c ≠ 1 ∧
    ∃ t ∈ ts, ∃ att : Attempt t.stateBefore t.action, att.target = c

section Record
variable {sems truth : Sems} {t : Transition} {ts : List Transition} {g : Grid} {action : String}

/-- There is one attempt at most. -/
theorem target_unique (att att' : Attempt g action) : att.targetPos = att'.targetPos ∧
    att.target = att'.target := by
  have hplayer := Option.some.inj (att.player_at.symm.trans att'.player_at)
  obtain ⟨hx, hy⟩ := Prod.mk.inj hplayer
  have htx : att.tx = att'.tx := by
    have := att.tx_eq
    have := att'.tx_eq
    omega
  have hty : att.ty = att'.ty := by
    have := att.ty_eq
    have := att'.ty_eq
    omega
  refine ⟨Prod.ext htx hty, Option.some.inj ?_⟩
  rw [← att.target_at, ← att'.target_at, htx, hty]

/-- The cell that is entered is on the board. -/
theorem onBoard_target (hrect : Rectangular g) (att : Attempt g action) :
    onBoard g (att.px + (delta action).1) (att.py + (delta action).2) = some true := by
  rw [← att.tx_eq, ← att.ty_eq, onBoard_rectangular hrect]
  simp [att.target_at]

/-- A player that has walked is at the cell that was entered. -/
theorem player_walked (att : Attempt g action) {walked : Grid} (hone : OneAgent walked)
    (hcells : ∀ x y, cell walked x y = (cell g x y).map
      (Move.advance.recolor att.playerPos att.targetPos att.beyondPos att.target (x, y))) :
    player walked = some att.targetPos := by
  refine hone.player_eq ?_
  have hat : cell g att.targetPos.1 att.targetPos.2 = some att.target := att.target_at
  rw [hcells, hat, Option.map_some, Move.recolor, if_pos rfl]

/-- **What one transition shows** is what the color means that was entered. -/
theorem classifyStep_entered (htidy : Tidy t.stateBefore) (hforeseen : Foreseen truth t)
    (att : Attempt t.stateBefore t.action) (h0 : att.target ≠ 0) (h1 : att.target ≠ 1) :
    classifyStep sems (.ofTransition t) =
      some (Function.update sems att.target (some (meaning truth att.target))) := by
  obtain ⟨walked, -, hpredict, hcells, hall⟩ := authored_step htidy.rect att
  obtain ⟨pred, hpred, hex⟩ := hforeseen
  have htidy' := htidy.step hpred
  obtain rfl := Option.some.inj ((hall truth).symm.trans hpred)
  have htx : ((att.px : ℤ) + (delta t.action).1).toNat = att.tx := by rw [← att.tx_eq]; rfl
  have hty : ((att.py : ℤ) + (delta t.action).2).toNat = att.ty := by rw [← att.ty_eq]; rfl
  have hstep : classifyStep sems (.ofTransition t) = some (Function.update sems att.target (some
      (if t.win then Sem.winning else if t.dead then .lethal
        else if player t.stateAfter = some (att.tx, att.ty) then .passable else .blocking))) := by
    simp only [classifyStep, TransitionDigest.ofTransition, att.player_at,
      onBoard_target htidy.rect att, htx, hty, att.target_at, Option.bind_eq_bind,
      Option.bind_some, if_true, h0, h1, or_self, if_false]
    rfl
  rw [hstep, ← hex.win, ← hex.dead]
  have hopen : t.levelUp = false := hex.levelUp.symm.trans (prediction_levelUp _ _ _)
  have hgrid : t.win = false → t.dead = false →
      ((meaning truth att.target).prediction t.stateBefore walked).grid = t.stateAfter := by
    intro hwin hdead
    refine hex.grid.resolve_left ?_
    simp [Transition.terminal, hopen, hwin, hdead]
  rw [← hex.win, ← hex.dead] at hgrid
  cases hsem : meaning truth att.target with
  | passable =>
      rw [hsem] at hgrid htidy'
      have hafter : walked = t.stateAfter := hgrid rfl rfl
      have hone : OneAgent walked := htidy'.one
      have hplayer : player t.stateAfter = some (att.tx, att.ty) :=
        hafter ▸ (player_walked att hone hcells)
      simp only [Sem.prediction, Bool.false_eq_true, if_false]
      rw [if_pos hplayer]
  | winning => rfl
  | lethal => rfl
  | blocking =>
      rw [hsem] at hgrid
      have hafter : t.stateBefore = t.stateAfter := hgrid rfl rfl
      have hplayer : player t.stateAfter ≠ some (att.tx, att.ty) := by
        rw [← hafter]
        intro hplayer
        have hat : cell t.stateBefore att.tx att.ty = some 1 := cell_of_player hplayer
        exact h1 (Option.some.inj (att.target_at.symm.trans hat))
      simp only [Sem.prediction, Bool.false_eq_true, if_false]
      rw [if_neg hplayer]

/-- A step onto floor, or nowhere, shows nothing. -/
theorem classifyStep_same (hrect : Rectangular t.stateBefore)
    (h : ∀ att : Attempt t.stateBefore t.action, att.target = 0 ∨ att.target = 1) :
    classifyStep sems (.ofTransition t) = some sems := by
  rw [classifyStep]
  simp only [TransitionDigest.ofTransition]
  cases hplayer : player t.stateBefore with
  | none => rfl
  | some pos =>
      obtain ⟨px, py⟩ := pos
      dsimp only
      rw [onBoard_rectangular hrect, Option.bind_eq_bind, Option.bind_some]
      split
      · next hon =>
          obtain ⟨hx, hy, hcell⟩ := of_decide_eq_true hon
          obtain ⟨c, hc⟩ := Option.isSome_iff_exists.mp hcell
          have htarget := h ⟨px, py, _, _, c, _, hplayer, Int.toNat_of_nonneg hx,
            Int.toNat_of_nonneg hy, hc, rfl⟩
          dsimp only at htarget
          simp only [hc, Option.bind_eq_bind, Option.bind_some, htarget, if_true]
          rfl
      · rfl

/-- **What is classified is what the colors mean.** -/
theorem classify_learned (h : ∀ t ∈ ts, Foreseen truth t ∧ Tidy t.stateBefore) :
    ∃ sems, classify (ts.map .ofTransition) = some sems ∧ Learned truth ts sems := by
  induction ts using List.reverseRecOn with
  | nil =>
      refine ⟨fun _ => none, rfl, nofun, fun c => ?_⟩
      simp
  | append_singleton ts t ih =>
      obtain ⟨sems, hsems, hlearned⟩ := ih fun t ht => h t (List.mem_append_left _ ht)
      obtain ⟨hforeseen, htidy⟩ := h t (List.mem_append_right _ (List.mem_singleton_self t))
      have hstep : classify ((ts ++ [t]).map .ofTransition) =
          classifyStep sems (.ofTransition t) := by
        rw [List.map_append, classify, List.foldlM_append]
        rw [classify] at hsems
        rw [hsems]
        simp
      by_cases hsame : ∀ att : Attempt t.stateBefore t.action, att.target = 0 ∨ att.target = 1
      · refine ⟨sems, by rw [hstep, classifyStep_same htidy.rect hsame], hlearned.sound,
          fun c => ?_⟩
        rw [hlearned.entered]
        refine and_congr_right fun hc0 => and_congr_right fun hc1 => ?_
        constructor
        · rintro ⟨t', ht', att⟩
          exact ⟨t', List.mem_append_left _ ht', att⟩
        · rintro ⟨t', ht', att, rfl⟩
          rcases List.mem_append.mp ht' with ht' | ht'
          · exact ⟨t', ht', att, rfl⟩
          · obtain rfl := List.mem_singleton.mp ht'
            exact absurd (hsame att) (not_or.mpr ⟨hc0, hc1⟩)
      · obtain ⟨att, hatt⟩ := not_forall.mp hsame
        obtain ⟨h0, h1⟩ := not_or.mp hatt
        refine ⟨_, by rw [hstep, classifyStep_entered htidy hforeseen att h0 h1], ?_, fun c => ?_⟩
        · intro c sem hsem
          by_cases hc : c = att.target
          · subst hc
            rw [Function.update_self] at hsem
            exact Option.some.inj hsem
          · rw [Function.update_of_ne hc] at hsem
            exact hlearned.sound c sem hsem
        · by_cases hc : c = att.target
          · subst hc
            rw [Function.update_self]
            refine iff_of_true rfl ⟨h0, h1, t, ?_, att, rfl⟩
            exact List.mem_append_right _ (List.mem_singleton_self t)
          · rw [Function.update_of_ne hc, hlearned.entered]
            refine and_congr_right fun _ => and_congr_right fun _ => ?_
            constructor
            · rintro ⟨t', ht', att'⟩
              exact ⟨t', List.mem_append_left _ ht', att'⟩
            · rintro ⟨t', ht', att', rfl⟩
              rcases List.mem_append.mp ht' with ht' | ht'
              · exact ⟨t', ht', att', rfl⟩
              · obtain rfl := List.mem_singleton.mp ht'
                exact absurd (target_unique att' att).2 hc

variable (htruth : truth 1 = none)
include htruth

/-- Of the colors that were entered the classification says what they mean. -/
theorem Learned.meaning_eq (h : Learned truth ts sems) (ht : t ∈ ts)
    (att : Attempt t.stateBefore t.action) : meaning sems att.target = meaning truth att.target := by
  by_cases h0 : att.target = 0
  · rw [h0]
    rfl
  by_cases h1 : att.target = 1
  · have hnone : sems 1 = none := by
      rw [← Option.not_isSome_iff_eq_none, h.entered]
      exact fun hall => hall.2.1 rfl
    rw [h1, meaning, meaning, hnone, htruth]
  · obtain ⟨sem, hsem⟩ := Option.isSome_iff_exists.mp
      ((h.entered att.target).mpr ⟨h0, h1, t, ht, att, rfl⟩)
    have hsound := h.sound _ _ hsem
    rw [meaning, hsem, Option.getD_some, if_neg h0]
    split
    · next h3 => rw [h3]; rfl
    · exact hsound.symm

/-- **The authored program predicts the whole record.** -/
theorem Learned.foreseen (h : Learned truth ts sems)
    (hts : ∀ t ∈ ts, Foreseen truth t ∧ Tidy t.stateBefore) : ∀ t ∈ ts, Foreseen sems t := by
  intro t ht
  obtain ⟨⟨pred, hpred, hex⟩, htidy⟩ := hts t ht
  refine ⟨pred, ?_, hex⟩
  rw [← hpred]
  exact authored_congr htidy.rect fun att => h.meaning_eq htruth ht att

end Record

end DemoProvider

end Jcode.Schema
