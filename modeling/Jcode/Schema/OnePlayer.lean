import Jcode.Schema.Behavior

/-!
# Schema — One player

A step of a rule program is defined on every rectangular board and keeps its shape.  Without
rewrites, one player stays one player, except that a push by an action without a direction erases
it: the player is what is pushed, and its old cell is cleared last.

* `Attempt.recolor_one`: the players after a move.
* `step_one_player`: what a step keeps, and when it keeps the player.
-/

namespace Jcode.Schema

variable {g : Grid} {action : String}

/-! ### Shapes -/

theorem shape_of_cells {g' : Grid} (hlen : g'.length = g.length)
    (hcell : ∀ x y, (cell g' x y).isSome = (cell g x y).isSome) :
    g'.map List.length = g.map List.length := by
  refine List.ext_getElem (by simpa using hlen) fun y hy' hy => ?_
  rw [List.length_map] at hy hy'
  rw [List.getElem_map, List.getElem_map]
  have hlt : ∀ x, x < g'[y].length ↔ x < g[y].length := fun x => by
    have hxy := hcell x y
    rw [cell, cell, List.getElem?_eq_getElem hy, List.getElem?_eq_getElem hy', Option.bind_some,
      Option.bind_some] at hxy
    have hiff : g'[y][x]?.isSome = true ↔ g[y][x]?.isSome = true := by rw [hxy]
    rwa [isSome_getElem?, isSome_getElem?] at hiff
  exact le_antisymm (not_lt.mp fun h => lt_irrefl _ ((hlt _).mp h))
    (not_lt.mp fun h => lt_irrefl _ ((hlt _).mpr h))

theorem Attempt.Performed.shape {att : Attempt g action} {d : Deed} {pred : Prediction}
    (h : att.Performed d pred) : pred.grid.map List.length = g.map List.length :=
  shape_of_cells h.rows fun x y => by rw [h.cells, Option.isSome_map]

/-! ### Players -/

/-- One cell of the board is the player. -/
def OnePlayer (g : Grid) : Prop := ∃! pos : ℕ × ℕ, cell g pos.1 pos.2 = some 1

/-- No effect rewrites a cell. -/
def RuleProgram.WriteFree (p : RuleProgram) : Prop := ∀ rule ∈ p.rules, rule.effect.writes = []

theorem exists_player {pos : ℕ × ℕ} (h : cell g pos.1 pos.2 = some 1) :
    ∃ px py, player g = some (px, py) := by
  obtain ⟨pos', hpos'⟩ := Option.ne_none_iff_exists'.mp
    (mt List.head?_eq_none_iff.mp (List.ne_nil_of_mem (mem_findColor.mpr h)))
  exact ⟨pos'.1, pos'.2, hpos'⟩

theorem OnePlayer.cell_iff (h : OnePlayer g) {px py : ℕ} (hplayer : player g = some (px, py))
    (pos : ℕ × ℕ) : cell g pos.1 pos.2 = some 1 ↔ pos = (px, py) := by
  obtain ⟨pos', -, honly⟩ := h
  have hat : (px, py) = pos' := honly (px, py) (cell_of_player hplayer)
  refine ⟨fun hpos => (honly pos hpos).trans hat.symm, ?_⟩
  rintro rfl
  exact cell_of_player hplayer

namespace Attempt
variable (att : Attempt g action)

/-- A player that stays where it is enters its own cell, and has itself beyond it. -/
theorem still (hstill : att.playerPos = att.targetPos) :
    delta action = (0, 0) ∧ att.beyondPos = att.targetPos ∧ att.target = 1 ∧
      att.beyond = some 1 := by
  obtain ⟨hx, hy⟩ := Prod.mk.inj hstill
  have hdx := att.tx_eq
  have hdy := att.ty_eq
  rw [hx] at hdx
  rw [hy] at hdy
  have hdelta : delta action = (0, 0) := Prod.ext (by dsimp only; omega) (by dsimp only; omega)
  have htarget : att.target = 1 := by
    have hcell := cell_of_player att.player_at
    rw [hx, hy, att.target_at] at hcell
    exact Option.some.inj hcell
  refine ⟨hdelta, ?_, htarget, ?_⟩
  · rw [beyondPos, targetPos, hdelta]
    simp
  · rw [att.beyond_at, hdelta, ← htarget, ← att.target_at]
    simp

/-- **The players after a move**: one, unless a player that stays where it is pushes. -/
theorem recolor_one (hone : OnePlayer g) (m : Move) :
    (∃! pos : ℕ × ℕ, (cell g pos.1 pos.2).map
      (m.recolor att.playerPos att.targetPos att.beyondPos att.target pos) = some 1) ↔
      ¬ (m = .push ∧ att.playerPos = att.targetPos) := by
  have hcell := hone.cell_iff att.player_at
  have htarget : cell g att.targetPos.1 att.targetPos.2 = some att.target := att.target_at
  cases m with
  | stay =>
      refine iff_of_true ?_ (by simp)
      simpa [Move.recolor] using show ∃! pos : ℕ × ℕ, cell g pos.1 pos.2 = some 1 from hone
  | advance =>
      refine iff_of_true ⟨att.targetPos, ?_, fun pos hpos => ?_⟩ (by simp)
      · simp [Move.recolor, htarget]
      · obtain ⟨c, hc, hcolor⟩ := Option.map_eq_some_iff.mp hpos
        by_contra hne
        rw [Move.recolor, if_neg hne] at hcolor
        split at hcolor
        · cases hcolor
        · next hplayer => exact hplayer ((hcell pos).mp (hcolor ▸ hc))
  | push =>
      by_cases hstill : att.playerPos = att.targetPos
      · refine iff_of_false ?_ (by simp [hstill])
        rintro ⟨pos, hpos, -⟩
        obtain ⟨c, hc, hcolor⟩ := Option.map_eq_some_iff.mp hpos
        obtain ⟨-, hbeyond, -⟩ := att.still hstill
        rw [Move.recolor, hbeyond, ← hstill] at hcolor
        by_cases hplayer : pos = att.playerPos
        · rw [if_pos hplayer] at hcolor
          cases hcolor
        · rw [if_neg hplayer, if_neg hplayer, if_neg hplayer] at hcolor
          exact hplayer ((hcell pos).mp (hcolor ▸ hc))
      · refine iff_of_true ⟨att.targetPos, ?_, fun pos hpos => ?_⟩ fun h => hstill h.2
        · simp [Move.recolor, htarget, Ne.symm hstill]
        · obtain ⟨c, hc, hcolor⟩ := Option.map_eq_some_iff.mp hpos
          by_contra hne
          by_cases hplayer : pos = att.playerPos
          · rw [Move.recolor, if_pos hplayer] at hcolor
            cases hcolor
          · rw [Move.recolor, if_neg hplayer, if_neg hne] at hcolor
            split at hcolor
            · -- what is pushed is not a player
              rw [hcolor] at htarget
              exact hstill ((hcell att.targetPos).mp htarget).symm
            · exact hplayer ((hcell pos).mp (hcolor ▸ hc))

end Attempt

/-- An action without a direction enters the player's own cell. -/
theorem exists_still {px py : ℕ} (hplayer : player g = some (px, py))
    (hdelta : delta action = (0, 0)) : ∃ att : Attempt g action, att.playerPos = att.targetPos := by
  have hcell := cell_of_player hplayer
  exact ⟨⟨px, py, px, py, 1, _, hplayer, by simp [hdelta], by simp [hdelta], hcell, rfl⟩, rfl⟩

/-! ### Steps -/

theorem RuleProgram.WriteFree.writes {p : RuleProgram} (h : p.WriteFree) (t : UInt8)
    (b : Option UInt8) : (p.deed t b).writes = fun _ _ => none := by
  rw [RuleProgram.deed]
  split
  · rfl
  · next rule hfind =>
      have hnil := h rule (List.mem_of_find?_eq_some hfind)
      have hpaint : painted rule.effect.writes = fun _ _ => none := by
        rw [hnil]
        rfl
      rw [Effect.deed]
      split
      · rfl
      · simp [hpaint]

/-- The move of a deed is a push exactly when the first rule that applies pushes. -/
theorem RuleProgram.deed_push_iff (p : RuleProgram) :
    (p.deed 1 (some 1)).move = .push ↔
      ∃ rule, p.rules.find? (applies 1 (some 1)) = some rule ∧ rule.effect.push = true := by
  rw [RuleProgram.deed]
  cases p.rules.find? (applies 1 (some 1)) with
  | none => simp [Deed.blocked]
  | some rule =>
      cases hpush : rule.effect.push with
      | true => simp [Effect.deed, hpush]
      | false =>
          cases hadv : rule.effect.playerAdvances with
          | true => simp [Effect.deed, hpush, hadv]
          | false => simp [Effect.deed, hpush, hadv]

/-- **A step is defined, keeps the shape, and leaves the board alone** when nothing applies or
nothing can be pushed.  **It keeps one player**, without rewrites, unless the action has no
direction and the first rule for the player's own cell pushes. -/
theorem step_one_player (hrect : Rectangular g) (p : RuleProgram) (action : String) : ∃ pred,
    p.step g action = some pred ∧ pred.grid.map List.length = g.map List.length ∧
    (IsEmpty (Attempt g action) → pred = { grid := g }) ∧
    (∀ att : Attempt g action,
      p.rules.find? (RuleProgram.applies att.target att.beyond) = none → pred = { grid := g }) ∧
    (∀ (att : Attempt g action) (rule : Rule),
      p.rules.find? (RuleProgram.applies att.target att.beyond) = some rule →
      rule.effect.push = true → att.beyond = none → pred = { grid := g }) ∧
    (p.WriteFree → OnePlayer g →
      (OnePlayer pred.grid ↔ ¬ (delta action = (0, 0) ∧ ∃ rule,
        p.rules.find? (RuleProgram.applies 1 (some 1)) = some rule ∧
          rule.effect.push = true))) := by
  by_cases hatt : Nonempty (Attempt g action)
  · obtain ⟨att⟩ := hatt
    obtain ⟨pred, hstep, hdone⟩ := att.performed hrect p
    have hblocked : ∀ att' : Attempt g action,
        p.deed att'.target att'.beyond = .blocked → pred = { grid := g } := fun att' hdeed => by
      obtain ⟨pred', hstep', hdone'⟩ := att'.performed hrect p
      rw [hstep, Option.some.injEq] at hstep'
      rw [hdeed, ← hstep'] at hdone'
      exact hdone'.unique att'.performed_blocked
    refine ⟨pred, hstep, hdone.shape, fun hnone => (hnone.false att).elim, fun att' hfind => ?_,
      fun att' rule hfind hpush hbeyond => ?_, fun hfree hone => ?_⟩
    · exact hblocked att' (by rw [RuleProgram.deed, hfind])
    · refine hblocked att' ?_
      rw [RuleProgram.deed, hfind]
      dsimp only
      rw [Effect.deed, if_pos ⟨hpush, hbeyond⟩]
    · have hplayers : OnePlayer pred.grid ↔ ¬ ((p.deed att.target att.beyond).move = .push ∧
          att.playerPos = att.targetPos) := by
        rw [← att.recolor_one hone, OnePlayer]
        simp only [hdone.cells, hfree.writes, Option.getD_none]
      rw [hplayers, not_iff_not]
      constructor
      · rintro ⟨hmove, hstill⟩
        obtain ⟨hdelta, -, htarget, hbeyond⟩ := att.still hstill
        rw [htarget, hbeyond, p.deed_push_iff] at hmove
        exact ⟨hdelta, hmove⟩
      · rintro ⟨hdelta, hrule⟩
        have hx := att.tx_eq
        have hy := att.ty_eq
        rw [hdelta, add_zero, Nat.cast_inj] at hx hy
        have hstill : att.playerPos = att.targetPos := Prod.ext hx.symm hy.symm
        obtain ⟨-, -, htarget, hbeyond⟩ := att.still hstill
        rw [htarget, hbeyond, p.deed_push_iff]
        exact ⟨hrule, hstill⟩
  · obtain hblocked := (step_rectangular hrect action).resolve_right hatt
    refine ⟨{ grid := g }, hblocked p, rfl, fun _ => rfl, fun _ _ => rfl, fun _ _ _ _ _ => rfl,
      fun _ hone => iff_of_true hone ?_⟩
    rintro ⟨hdelta, -⟩
    obtain ⟨pos, hpos, -⟩ := hone
    obtain ⟨px, py, hplayer⟩ := exists_player hpos
    exact hatt (exists_still hplayer hdelta).nonempty

/-- The player is pushed onto itself. -/
def pushSelf : RuleProgram := { rules := [{ onTarget := 1, effect := { push := true } }] }

theorem rectangular_one : Rectangular [[1]] := by
  intro row hrow
  rw [List.mem_singleton.mp hrow]
  rfl

theorem step_one_player_pushSelf : ∃ pred,
    pushSelf.step [[1]] "wait" = some pred ∧
    pred.grid.map List.length = ([[1]] : Grid).map List.length ∧
    (IsEmpty (Attempt [[1]] "wait") → pred = { grid := [[1]] }) ∧
    (∀ att : Attempt [[1]] "wait",
      pushSelf.rules.find? (RuleProgram.applies att.target att.beyond) = none →
        pred = { grid := [[1]] }) ∧
    (∀ (att : Attempt [[1]] "wait") (rule : Rule),
      pushSelf.rules.find? (RuleProgram.applies att.target att.beyond) = some rule →
      rule.effect.push = true → att.beyond = none → pred = { grid := [[1]] }) ∧
    (pushSelf.WriteFree → OnePlayer [[1]] →
      (OnePlayer pred.grid ↔ ¬ (delta "wait" = (0, 0) ∧ ∃ rule,
        pushSelf.rules.find? (RuleProgram.applies 1 (some 1)) = some rule ∧
          rule.effect.push = true))) :=
  step_one_player rectangular_one pushSelf "wait"

/-- **A player is lost.** -/
theorem player_pushed_away : Rectangular [[1]] ∧ pushSelf.WriteFree ∧ OnePlayer [[1]] ∧
    pushSelf.step [[1]] "wait" = some { grid := [[0]] } ∧ ¬ OnePlayer [[0]] := by
  refine ⟨rectangular_one, by simp [RuleProgram.WriteFree, pushSelf], ⟨(0, 0), rfl, ?_⟩,
    by decide, ?_⟩
  · rintro ⟨x, y⟩ hpos
    obtain ⟨row, hrow, hx⟩ := cell_eq_some_iff.mp hpos
    cases y with
    | zero =>
        cases hrow
        cases x with
        | zero => rfl
        | succ x => cases hx
    | succ y => cases hrow
  · rintro ⟨pos, hpos, -⟩
    have hmem := mem_findColor.mpr hpos
    exact absurd hmem (by rw [show findColor [[0]] 1 = [] by decide]; exact List.not_mem_nil)

end Jcode.Schema
