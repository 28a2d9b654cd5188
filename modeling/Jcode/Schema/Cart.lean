import Jcode.Schema.Executor
import Jcode.Schema.OnePlayer

/-!
# Schema — The cart

`CartDock` of `envs.rs`, and the program that was written for it.  A cart that is pushed onto the
dock opens a gate elsewhere on the board.

* `cart_step_eq`: on every walled board the program's step is the step of the environment.
* `Yard.step`: what the boards of an episode keep.
* `cart_program_simulates`: along any actions from a reset, the program predicts every answer.
-/

namespace Jcode.Schema

/-! ### The environment -/

structure CartDock where
  grid : Grid
  taken : ℕ
  deriving DecidableEq, Repr

namespace CartDock

def LAYOUT : Grid :=
  [[5, 5, 5, 5, 5, 5, 5],
   [5, 1, 0, 4, 0, 6, 5],
   [5, 5, 5, 5, 5, 5, 5],
   [5, 5, 5, 3, 5, 5, 5],
   [5, 5, 5, 5, 5, 5, 5]]

def GATE : ℕ × ℕ := (3, 2)

def reset (e : CartDock) : Option (Observation × CartDock) :=
  some ({ grid := LAYOUT }, { e with grid := LAYOUT })

/-- One action: the player advances, wins, pushes the cart or stays. -/
def step (e : CartDock) (action : String) : Option (Observation × CartDock) := do
  let taken := e.taken + 1
  let (px, py) ← player e.grid
  let (dx, dy) := delta action
  let tx ← asIndex (px + dx)
  let ty ← asIndex (py + dy)
  let v ← cell e.grid tx ty
  if v = 0 then
    let grid ← setCell (← setCell e.grid px py 0) tx ty 1
    return ({ grid }, { grid, taken })
  else if v = 3 then
    let grid ← setCell (← setCell e.grid px py 0) tx ty 1
    return ({ grid, win := true }, { grid, taken })
  else if v = 4 then
    let bx ← asIndex (tx + dx)
    let bY ← asIndex (ty + dy)
    let beyond ← cell e.grid bx bY
    if beyond = 0 ∨ beyond = 6 then
      let grid ← setCell (← setCell (← setCell e.grid bx bY 4) tx ty 1) px py 0
      let grid ← if beyond = 6 then setCell grid GATE.1 GATE.2 0 else some grid
      return ({ grid }, { grid, taken })
    else return ({ grid := e.grid }, { e with taken })
  else return ({ grid := e.grid }, { e with taken })

end CartDock

def cartDock : Environment CartDock where
  reset := CartDock.reset
  step := CartDock.step
  actionsTaken := CartDock.taken
  legalActions _ := ["up", "down", "left", "right"]

/-! ### The program -/

def cartPush : Effect where
  playerAdvances := true
  push := true
  writes := [{ x := 3, y := 2, color := 0 }]
  writesWhenBeyond := some 6

def cartProgram : RuleProgram where
  rules :=
    [{ onTarget := 0, effect := { playerAdvances := true } },
     { onTarget := 3, effect := { playerAdvances := true, win := true } },
     { onTarget := 4, beyondAnyOf := some [0, 6], effect := cartPush }]

/-- The rule the program fires. -/
theorem find_cartProgram (t : UInt8) (b : Option UInt8) :
    cartProgram.rules.find? (RuleProgram.applies t b) =
      if t = 0 then some { onTarget := 0, effect := { playerAdvances := true } }
      else if t = 3 then some { onTarget := 3, effect := { playerAdvances := true, win := true } }
      else if t = 4 ∧ (b = some 0 ∨ b = some 6) then
        some { onTarget := 4, beyondAnyOf := some [0, 6], effect := cartPush }
      else none := by
  have hguard : (b.any fun c => [0, 6].contains c) = decide (b = some 0 ∨ b = some 6) := by
    cases b <;> simp
  simp only [cartProgram, List.find?_cons, List.find?_nil, RuleProgram.applies,
    RuleProgram.guardHolds, hguard, Bool.and_true]
  by_cases h0 : t = 0
  · simp [h0]
  · by_cases h3 : t = 3
    · simp [h3]
    · by_cases h4 : t = 4
      · by_cases hb : b = some 0 ∨ b = some 6
        · simp [h4, hb]
        · simp [h4, hb]
      · have hne : ∀ c, t ≠ c → (c == t) = false := fun c hc => beq_eq_false_iff_ne.mpr hc.symm
        simp [h0, h3, h4, hne 0 h0, hne 3 h3, hne 4 h4]

/-! ### Walled boards -/

section Walls
variable {g : Grid} {action : String} {x y : ℕ} {c : UInt8}

/-- A cell on the edge of the board. -/
def Border (g : Grid) (x y : ℕ) : Prop :=
  x = 0 ∨ y = 0 ∨ y + 1 = g.length ∨ cell g (x + 1) y = none

instance (g : Grid) (x y : ℕ) : Decidable (Border g x y) :=
  inferInstanceAs (Decidable (_ ∨ _ ∨ _ ∨ _))

/-- A board with a player, inside walls. -/
structure Walled (g : Grid) : Prop where
  rect : Rectangular g
  rows : 3 ≤ g.length
  cols : ∀ row ∈ g, 4 ≤ row.length
  wall : ∀ x y c, cell g x y = some c → Border g x y → c = 5
  player : (player g).isSome = true

theorem Rectangular.isSome_cell (h : Rectangular g) {row : List UInt8} (hrow : row ∈ g) :
    (cell g x y).isSome = true ↔ y < g.length ∧ x < row.length := by
  have hwidth : ∀ row' ∈ g, row'.length = row.length := fun row' hrow' =>
    Option.some.inj ((h row' hrow').symm.trans (h row hrow))
  constructor
  · intro hcell
    obtain ⟨c, hc⟩ := Option.isSome_iff_exists.mp hcell
    obtain ⟨row', hget, hx⟩ := cell_eq_some_iff.mp hc
    obtain ⟨hy, rfl⟩ := List.getElem?_eq_some_iff.mp hget
    exact ⟨hy, hwidth _ (List.getElem_mem hy) ▸ (List.getElem?_eq_some_iff.mp hx).1⟩
  · rintro ⟨hy, hx⟩
    rw [cell, List.getElem?_eq_getElem hy, Option.bind_some, isSome_getElem?,
      hwidth _ (List.getElem_mem hy)]
    exact hx

theorem delta_cases (action : String) :
    delta action = (0, -1) ∨ delta action = (0, 1) ∨ delta action = (-1, 0) ∨
      delta action = (1, 0) ∨ delta action = (0, 0) := by
  rw [delta]
  cases hfind : deltas.find? fun d => d.1 == action with
  | none => simp
  | some d =>
      have hmem := List.mem_of_find?_eq_some hfind
      simp only [deltas, List.mem_cons, List.not_mem_nil, or_false] at hmem
      rcases hmem with rfl | rfl | rfl | rfl <;> simp

/-- Inside the walls every neighbour is on the board. -/
theorem neighbour_cell (h : Rectangular g) (hcell : cell g x y = some c) (hin : ¬ Border g x y)
    (action : String) :
    0 ≤ (x : ℤ) + (delta action).1 ∧ 0 ≤ (y : ℤ) + (delta action).2 ∧
      (cell g (x + (delta action).1).toNat (y + (delta action).2).toNat).isSome = true := by
  obtain ⟨row, hrow, hx⟩ := cell_eq_some_iff.mp hcell
  have hmem := List.mem_of_getElem? hrow
  have hy : y < g.length := (List.getElem?_eq_some_iff.mp hrow).1
  have hxlt : x < row.length := (List.getElem?_eq_some_iff.mp hx).1
  simp only [Border, not_or, ← Option.isNone_iff_eq_none, Bool.not_eq_true,
    Option.isNone_eq_false_iff, h.isSome_cell hmem] at hin
  obtain ⟨hx0, hy0, hlast, -, hright⟩ := hin
  rw [h.isSome_cell hmem]
  rcases delta_cases action with hd | hd | hd | hd | hd <;> rw [hd] <;> dsimp only <;> omega

/-- Inside walls the player enters a cell. -/
theorem Walled.attempt (h : Walled g) (action : String) : Nonempty (Attempt g action) := by
  obtain ⟨⟨px, py⟩, hplayer⟩ := Option.isSome_iff_exists.mp h.player
  have hcell := cell_of_player hplayer
  have hin : ¬ Border g px py := fun hborder => by
    have hfive := h.wall px py 1 hcell hborder
    exact absurd hfive (by decide)
  obtain ⟨hx, hy, hsome⟩ := neighbour_cell h.rect hcell hin action
  obtain ⟨t, ht⟩ := Option.isSome_iff_exists.mp hsome
  exact ⟨⟨px, py, _, _, t, _, hplayer, Int.toNat_of_nonneg hx, Int.toNat_of_nonneg hy, ht, rfl⟩⟩

/-- Beyond a target that is not wall there is a cell. -/
theorem Walled.beyond (h : Walled g) (att : Attempt g action) (ht : att.target ≠ 5) :
    ∃ b, att.beyond = some b := by
  have hin : ¬ Border g att.tx att.ty := fun hborder => ht (h.wall _ _ _ att.target_at hborder)
  obtain ⟨hx, hy, hsome⟩ := neighbour_cell h.rect att.target_at hin action
  rw [att.beyond_at, if_pos ⟨hx, hy⟩]
  exact Option.isSome_iff_exists.mp hsome

end Walls

/-! ### The same step -/

section Step
variable {g : Grid} {action : String}

/-- The step of the environment, by the colors it meets. -/
theorem CartDock.step_eq (att : Attempt g action) (n : ℕ) : CartDock.step ⟨g, n⟩ action =
    if att.target = 0 then do
      let grid ← setCell (← setCell g att.px att.py 0) att.tx att.ty 1
      return ({ grid }, { grid, taken := n + 1 })
    else if att.target = 3 then do
      let grid ← setCell (← setCell g att.px att.py 0) att.tx att.ty 1
      return ({ grid, win := true }, { grid, taken := n + 1 })
    else if att.target = 4 then do
      let bx ← asIndex (att.tx + (delta action).1)
      let bY ← asIndex (att.ty + (delta action).2)
      let beyond ← cell g bx bY
      if beyond = 0 ∨ beyond = 6 then
        let grid ← setCell (← setCell (← setCell g bx bY 4) att.tx att.ty 1) att.px att.py 0
        let grid ← if beyond = 6 then setCell grid GATE.1 GATE.2 0 else some grid
        return ({ grid }, { grid, taken := n + 1 })
      else return ({ grid := g }, { grid := g, taken := n + 1 })
    else return ({ grid := g }, { grid := g, taken := n + 1 }) := by
  have hindex : ∀ i : ℕ, asIndex (i : ℤ) = some i := fun i => by
    rw [asIndex, if_pos (Int.natCast_nonneg i), Int.toNat_natCast]
  simp only [CartDock.step, att.player_at, ← att.tx_eq, ← att.ty_eq, hindex, att.target_at,
    Option.bind_eq_bind, Option.bind_some]

/-- Walking onto the target can be done. -/
theorem walk_of_attempt (att : Attempt g action) : ∃ g₁ g₂,
    setCell g att.px att.py 0 = some g₁ ∧ setCell g₁ att.tx att.ty 1 = some g₂ := by
  obtain ⟨g₁, hset₁, -, hcells₁⟩ := setCell_of_cell 0 (cell_of_player att.player_at)
  have htarget₁ := (hcells₁ att.tx att.ty).trans (by rw [att.target_at, Option.map_some])
  obtain ⟨g₂, hset₂, -⟩ := setCell_of_cell 1 htarget₁
  exact ⟨g₁, g₂, hset₁, hset₂⟩

/-- The gate is a cell of a board that has the shape of a walled one. -/
theorem Walled.write_gate (h : Walled g) {g' : Grid}
    (hshape : g'.map List.length = g.map List.length) :
    RuleProgram.write g' { x := 3, y := 2, color := 0 } = setCell g' 3 2 0 := by
  have hrows : g'.length = g.length := by simpa using congrArg List.length hshape
  have hy : 2 < g'.length := hrows ▸ h.rows
  have hcols : ∀ row ∈ g', 4 ≤ row.length := fun row hrow => by
    have hmem : row.length ∈ g.map List.length := hshape ▸ List.mem_map_of_mem hrow
    obtain ⟨row', hrow', hlen⟩ := List.mem_map.mp hmem
    exact hlen ▸ h.cols row' hrow'
  rw [RuleProgram.write, if_pos hy, h.rect.of_shape hshape _ (List.getElem_mem hy),
    Option.bind_some]
  exact if_pos (hcols _ (List.getElem_mem hy))

/-- The gate can be opened. -/
theorem Walled.open_gate (h : Walled g) {g' : Grid}
    (hshape : g'.map List.length = g.map List.length) :
    ∃ g'', RuleProgram.write g' { x := 3, y := 2, color := 0 } = some g'' ∧
      setCell g' 3 2 0 = some g'' := by
  obtain ⟨g'', hwrite, -⟩ := write_rectangular (h.rect.of_shape hshape)
    { x := 3, y := 2, color := 0 }
  exact ⟨g'', hwrite, (h.write_gate hshape).symm.trans hwrite⟩

/-- Pushing the cart can be done. -/
theorem push_of_attempt (att : Attempt g action) {b : UInt8}
    (hbeyond : cell g att.beyondPos.1 att.beyondPos.2 = some b) : ∃ g₁ g₂ g₃,
    setCell g att.beyondPos.1 att.beyondPos.2 4 = some g₁ ∧ setCell g₁ att.tx att.ty 1 = some g₂ ∧
    setCell g₂ att.px att.py 0 = some g₃ ∧ g₃.map List.length = g.map List.length := by
  obtain ⟨g₁, hset₁, hshape₁, hcells₁⟩ := setCell_of_cell 4 hbeyond
  have htarget₁ := (hcells₁ att.tx att.ty).trans (by rw [att.target_at, Option.map_some])
  obtain ⟨g₂, hset₂, hshape₂, hcells₂⟩ := setCell_of_cell 1 htarget₁
  have hplayer₂ := (hcells₂ att.px att.py).trans
    (by rw [hcells₁, cell_of_player att.player_at, Option.map_some, Option.map_some])
  obtain ⟨g₃, hset₃, hshape₃, -⟩ := setCell_of_cell 0 hplayer₂
  exact ⟨g₁, g₂, g₃, hset₁, hset₂, hset₃, hshape₃.trans (hshape₂.trans hshape₁)⟩

/-- Where there is something beyond the target, its place is on the board. -/
theorem asIndex_beyond (att : Attempt g action) {b : UInt8} (hb : att.beyond = some b) :
    asIndex (att.tx + (delta action).1) = some att.beyondPos.1 ∧
      asIndex (att.ty + (delta action).2) = some att.beyondPos.2 := by
  by_cases hpos : 0 ≤ (att.tx : ℤ) + (delta action).1 ∧ 0 ≤ (att.ty : ℤ) + (delta action).2
  · exact ⟨if_pos hpos.1, if_pos hpos.2⟩
  · rw [att.beyond_at, if_neg hpos] at hb
    cases hb

/-- **The program's step is the step of the environment**, on every walled board. -/
theorem cart_step_eq (h : Walled g) (n : ℕ) (action : String) : ∃ obs,
    CartDock.step ⟨g, n⟩ action = some (obs, ⟨obs.grid, n + 1⟩) ∧
    cartProgram.step g action = some ⟨obs.grid, obs.levelUp, obs.dead, obs.win⟩ := by
  obtain ⟨att⟩ := h.attempt action
  rw [CartDock.step_eq att, att.step_eq h.rect, find_cartProgram]
  obtain ⟨g₁, g₂, hset₁, hset₂⟩ := walk_of_attempt att
  by_cases h0 : att.target = 0
  · refine ⟨{ grid := g₂ }, ?_, ?_⟩
    · simp [h0, hset₁, hset₂]
    · simp [h0, RuleProgram.apply, hset₁, hset₂, RuleProgram.reflow]
  · by_cases h3 : att.target = 3
    · refine ⟨{ grid := g₂, win := true }, ?_, ?_⟩
      · simp [h3, hset₁, hset₂]
      · simp [h3, RuleProgram.apply, hset₁, hset₂, RuleProgram.reflow]
    · by_cases h4 : att.target = 4
      · obtain ⟨b, hb⟩ := h.beyond att (by rw [h4]; decide)
        obtain ⟨hon, hread⟩ := att.read_beyond h.rect
        have hbeyond := hread b hb
        obtain ⟨hbx, hby⟩ := asIndex_beyond att hb
        obtain ⟨g₃, g₄, g₅, hset₃, hset₄, hset₅, hshape⟩ := push_of_attempt att hbeyond
        obtain ⟨g₆, hwrite, hgate⟩ := h.open_gate hshape
        have happly := @att.apply_push _ _ cartPush g₃ g₄ g₅ rfl (by rw [hon, hb]; rfl)
          (by rw [h4, hset₃]) hset₄ hset₅
        by_cases hb6 : b = 6
        · subst hb6
          refine ⟨{ grid := g₆ }, ?_, ?_⟩
          · simp [h4, hbx, hby, hbeyond, hset₃, hset₄, hset₅, hgate, CartDock.GATE]
          · rw [if_neg h0, if_neg h3, if_pos ⟨h4, .inr hb⟩]
            dsimp only
            rw [happly, hb]
            simp [RuleProgram.reflow, cartPush, hwrite]
        · by_cases hb0 : b = 0
          · subst hb0
            refine ⟨{ grid := g₅ }, ?_, ?_⟩
            · simp [h4, hbx, hby, hbeyond, hset₃, hset₄, hset₅]
            · rw [if_neg h0, if_neg h3, if_pos ⟨h4, .inl hb⟩]
              dsimp only
              rw [happly, hb]
              simp [RuleProgram.reflow, cartPush]
          · refine ⟨{ grid := g }, ?_, ?_⟩
            · simp [h4, hbx, hby, hbeyond, hb0, hb6]
            · simp [h4, hb, hb0, hb6]
      · refine ⟨{ grid := g }, ?_, ?_⟩
        · simp [h0, h3, h4]
        · simp [h0, h3, h4]

/-! ### The boards of an episode -/

/-- What the program does, by the colors. -/
theorem cart_deed (t : UInt8) (b : Option UInt8) : cartProgram.deed t b =
    if t = 0 then ⟨.advance, fun _ _ => none, false, false⟩
    else if t = 3 then ⟨.advance, fun _ _ => none, true, false⟩
    else if t = 4 ∧ (b = some 0 ∨ b = some 6) then
      ⟨.push, if b = some 6 then painted cartPush.writes else fun _ _ => none, false, false⟩
    else .blocked := by
  rw [RuleProgram.deed, find_cartProgram]
  by_cases h0 : t = 0
  · rw [if_pos h0, if_pos h0]
    rfl
  · by_cases h3 : t = 3
    · rw [if_neg h0, if_neg h0, if_pos h3, if_pos h3]
      rfl
    · rw [if_neg h0, if_neg h0, if_neg h3, if_neg h3]
      by_cases h4 : t = 4 ∧ (b = some 0 ∨ b = some 6)
      · rw [if_pos h4, if_pos h4]
        obtain ⟨rfl, rfl | rfl⟩ := h4
        · simp [Effect.deed, cartPush]
        · simp [Effect.deed, cartPush]
      · rw [if_neg h4, if_neg h4]

/-- A cell that is none of the three keeps its color, and is known by it. -/
theorem Attempt.recolor_other (hrect : Rectangular g) (att : Attempt g action) {m : Move}
    {pos : ℕ × ℕ} {c : UInt8} (hcell : cell g pos.1 pos.2 = some c) (hplayer : c ≠ 1)
    (htarget : c ≠ att.target) (hbeyond : m = .push → ∃ b, att.beyond = some b ∧ b ≠ c) :
    m.recolor att.playerPos att.targetPos att.beyondPos att.target pos c = c := by
  have hp : pos ≠ att.playerPos := by
    rintro rfl
    exact hplayer (Option.some.inj (hcell.symm.trans (cell_of_player att.player_at)))
  have ht : pos ≠ att.targetPos := by
    rintro rfl
    exact htarget (Option.some.inj (hcell.symm.trans att.target_at))
  cases m with
  | stay => rfl
  | advance => simp only [Move.recolor, if_neg hp, if_neg ht]
  | push =>
      obtain ⟨b, hb, hne⟩ := hbeyond rfl
      have hbp : pos ≠ att.beyondPos := by
        rintro rfl
        exact hne (Option.some.inj (((att.read_beyond hrect).2 b hb).symm.trans hcell))
      simp only [Move.recolor, if_neg hp, if_neg ht, if_neg hbp]

/-- A board of an episode: walled, with at most one dock, and the gate shut while there is one. -/
structure Yard (g : Grid) : Prop where
  shape : g.map List.length = [7, 7, 7, 7, 7]
  wall : ∀ x y c, cell g x y = some c → Border g x y → c = 5
  player : (player g).isSome = true
  dock : ∀ p q : ℕ × ℕ, cell g p.1 p.2 = some 6 → cell g q.1 q.2 = some 6 → p = q
  gate : ∀ p : ℕ × ℕ, cell g p.1 p.2 = some 6 → cell g 3 2 = some 5

namespace Yard

theorem row_length (h : Yard g) {row : List UInt8} (hrow : row ∈ g) : row.length = 7 := by
  have hmem : row.length ∈ g.map List.length := List.mem_map_of_mem hrow
  rw [h.shape] at hmem
  simpa using hmem

theorem rows (h : Yard g) : g.length = 5 := by
  simpa using congrArg List.length h.shape

theorem walled (h : Yard g) : Walled g where
  rect row hrow := by
    rw [width_eq, h.shape, h.row_length hrow]
    rfl
  rows := by
    rw [h.rows]
    decide
  cols row hrow := by
    rw [h.row_length hrow]
    decide
  wall := h.wall
  player := h.player

theorem isSome_cell (h : Yard g) {x y : ℕ} : (cell g x y).isSome = true ↔ y < 5 ∧ x < 7 := by
  have hrow : g.get ⟨0, h.rows ▸ by decide⟩ ∈ g := List.get_mem g _
  rw [h.walled.rect.isSome_cell hrow, h.row_length hrow, h.rows]

/-- The edge of the board is where it is. -/
theorem border_iff (h : Yard g) {x y : ℕ} :
    Border g x y ↔ x = 0 ∨ y = 0 ∨ y = 4 ∨ ¬ (y < 5 ∧ x < 6) := by
  rw [Border, h.rows, ← Option.not_isSome_iff_eq_none, h.isSome_cell]
  omega

/-- The deeds of the program that change the board. -/
structure Stirs (att : Attempt g action) (d : Deed) : Prop where
  move : d.move = .advance ∨ d.move = .push ∧ att.target = 4
  target : att.target ≠ 1 ∧ att.target ≠ 5 ∧ att.target ≠ 6
  beyond : d.move = .push → ∃ b, att.beyond = some b ∧ b ≠ 5
  writes : d.writes = (fun _ _ => none) ∨
    d.move = .push ∧ att.target = 4 ∧ att.beyond = some 6 ∧ d.writes = painted cartPush.writes

variable {att : Attempt g action} {d : Deed} {pred : Prediction}

/-- The only cell that is rewritten is the gate. -/
theorem Stirs.writes_eq (hd : Stirs att d) (x y : ℕ) :
    d.writes x y = none ∨ (x, y) = (3, 2) ∧ d.writes x y = some 0 ∧ d.move = .push ∧
      att.target = 4 ∧ att.beyond = some 6 := by
  rcases hd.writes with hnone | ⟨hmove, htarget, hbeyond, hgate⟩
  · exact .inl (by rw [hnone])
  · by_cases hxy : x = 3 ∧ y = 2
    · obtain ⟨rfl, rfl⟩ := hxy
      exact .inr ⟨rfl, by rw [hgate]; rfl, hmove, htarget, hbeyond⟩
    · refine .inl ?_
      rw [hgate]
      simp [painted, cartPush, hxy]

/-- A dock was a dock before, and nothing was pushed onto it. -/
theorem six_before (hd : Stirs att d) (hdone : att.Performed d pred) {p : ℕ × ℕ}
    (hsix : cell pred.grid p.1 p.2 = some 6) :
    cell g p.1 p.2 = some 6 ∧ (d.move = .push → p ≠ att.beyondPos) := by
  rw [hdone.cells] at hsix
  obtain ⟨c, hc, hcolor⟩ := Option.map_eq_some_iff.mp hsix
  rcases hd.writes_eq p.1 p.2 with hnone | ⟨-, hzero, -⟩
  · rw [hnone, Option.getD_none] at hcolor
    rcases hd.move with hmove | ⟨hmove, htarget⟩
    · rw [hmove, Move.recolor] at hcolor
      refine ⟨?_, fun hpush => absurd (hmove.symm.trans hpush) (by decide)⟩
      split at hcolor
      · exact absurd hcolor (by decide)
      · split at hcolor
        · exact absurd hcolor (by decide)
        · rw [hc, hcolor]
    · rw [hmove, Move.recolor] at hcolor
      split at hcolor
      · exact absurd hcolor (by decide)
      · split at hcolor
        · exact absurd hcolor (by decide)
        · split at hcolor
          · exact absurd hcolor hd.target.2.2
          · next hne => exact ⟨by rw [hc, hcolor], fun _ => hne⟩
  · rw [hzero, Option.getD_some] at hcolor
    exact absurd hcolor (by decide)

/-- The walls stay, but for the gate when it opens. -/
theorem five_after (hrect : Rectangular g) (hd : Stirs att d) (hdone : att.Performed d pred)
    {p : ℕ × ℕ} (hfive : cell g p.1 p.2 = some 5) (hnone : d.writes p.1 p.2 = none) :
    cell pred.grid p.1 p.2 = some 5 := by
  rw [hdone.cells, hfive, Option.map_some, hnone, Option.getD_none,
    att.recolor_other hrect hfive (by decide) hd.target.2.1.symm hd.beyond]

theorem of_stirs (h : Yard g) (hd : Stirs att d) (hdone : att.Performed d pred) :
    Yard pred.grid where
  shape := hdone.shape.trans h.shape
  wall x y c hc hborder := by
    have hsome : (cell g x y).isSome = true := by
      have hcell := hdone.cells x y
      rw [hc] at hcell
      obtain ⟨c', hc', -⟩ := Option.map_eq_some_iff.mp hcell.symm
      rw [hc', Option.isSome_some]
    have hedge : Border g x y := by
      have hright : (cell pred.grid (x + 1) y).isSome = (cell g (x + 1) y).isSome := by
        rw [hdone.cells, Option.isSome_map]
      rw [Border, hdone.rows, ← Option.not_isSome_iff_eq_none, hright,
        Option.not_isSome_iff_eq_none] at hborder
      exact hborder
    obtain ⟨c', hc'⟩ := Option.isSome_iff_exists.mp hsome
    have hfive := h.wall x y c' hc' hedge
    have hnone : d.writes x y = none := by
      rcases hd.writes_eq x y with hnone | ⟨hgate, -⟩
      · exact hnone
      · obtain ⟨rfl, rfl⟩ := Prod.mk.inj hgate
        rw [h.border_iff] at hedge
        omega
    have hafter := @five_after _ _ _ _ _ h.walled.rect hd hdone (x, y) (by rw [hc', hfive]) hnone
    exact Option.some.inj (hc.symm.trans hafter)
  player := by
    have hone : cell pred.grid att.targetPos.1 att.targetPos.2 = some 1 := by
      have hnone : d.writes att.tx att.ty = none := by
        rcases hd.writes_eq att.tx att.ty with hnone | ⟨hgate, -, -, htarget, hbeyond⟩
        · exact hnone
        · -- the gate is still shut where the cart is about to dock
          obtain ⟨hx, hy⟩ := Prod.mk.inj hgate
          have hdock := (att.read_beyond h.walled.rect).2 6 hbeyond
          have hshut := h.gate att.beyondPos hdock
          rw [← hx, ← hy, att.target_at, htarget] at hshut
          exact absurd (Option.some.inj hshut) (by decide)
      have hapart : att.targetPos ≠ att.playerPos := by
        intro heq
        obtain ⟨hx, hy⟩ := Prod.mk.inj heq
        have hplayer := cell_of_player att.player_at
        rw [← hx, ← hy, att.target_at] at hplayer
        exact hd.target.1 (Option.some.inj hplayer)
      rw [hdone.cells, show cell g att.targetPos.1 att.targetPos.2 = some att.target from
        att.target_at, Option.map_some]
      show some ((d.writes att.tx att.ty).getD _) = _
      rw [hnone, Option.getD_none]
      rcases hd.move with hmove | ⟨hmove, -⟩
      · rw [hmove]
        exact congrArg some (if_pos rfl)
      · rw [hmove]
        exact congrArg some ((if_neg hapart).trans (if_pos rfl))
    obtain ⟨px, py, hplayer⟩ := exists_player hone
    rw [hplayer, Option.isSome_some]
  dock p q hp hq :=
    h.dock p q (six_before hd hdone hp).1 (six_before hd hdone hq).1
  gate p hp := by
    obtain ⟨hsix, hne⟩ := six_before hd hdone hp
    refine @five_after _ _ _ _ _ h.walled.rect hd hdone (3, 2) (h.gate p hsix) ?_
    rcases hd.writes_eq 3 2 with hnone | ⟨-, -, hmove, -, hbeyond⟩
    · exact hnone
    · have hdock := (att.read_beyond h.walled.rect).2 6 hbeyond
      exact absurd (h.dock p att.beyondPos hsix hdock) (hne hmove)

/-- **A step keeps the yard.** -/
theorem step (h : Yard g) (action : String) (hstep : cartProgram.step g action = some pred) :
    Yard pred.grid := by
  obtain ⟨att⟩ := h.walled.attempt action
  obtain ⟨pred', hpred', hdone⟩ := att.performed h.walled.rect cartProgram
  obtain rfl := Option.some.inj (hstep.symm.trans hpred')
  rw [cart_deed] at hdone
  by_cases h0 : att.target = 0
  · rw [if_pos h0] at hdone
    exact h.of_stirs ⟨.inl rfl, by rw [h0]; decide, fun hpush => (by cases hpush), .inl rfl⟩ hdone
  · rw [if_neg h0] at hdone
    by_cases h3 : att.target = 3
    · rw [if_pos h3] at hdone
      exact h.of_stirs ⟨.inl rfl, by rw [h3]; decide, fun hpush => (by cases hpush), .inl rfl⟩ hdone
    · rw [if_neg h3] at hdone
      by_cases h4 : att.target = 4 ∧ (att.beyond = some 0 ∨ att.beyond = some 6)
      · rw [if_pos h4] at hdone
        obtain ⟨htarget, hbeyond⟩ := h4
        refine h.of_stirs ⟨.inr ⟨rfl, htarget⟩, by rw [htarget]; decide, fun _ => ?_, ?_⟩ hdone
        · rcases hbeyond with hb | hb
          · exact ⟨0, hb, by decide⟩
          · exact ⟨6, hb, by decide⟩
        · by_cases h6 : att.beyond = some 6
          · exact .inr ⟨rfl, htarget, h6, if_pos h6⟩
          · exact .inl (if_neg h6)
      · rw [if_neg h4] at hdone
        rw [hdone.unique att.performed_blocked]
        exact h

theorem layout_bounds {x y : ℕ} {c : UInt8} (h : cell CartDock.LAYOUT x y = some c) :
    y < 5 ∧ x < 7 := by
  have hrow : [5, 1, 0, 4, 0, 6, 5] ∈ CartDock.LAYOUT := by decide
  have hrect : Rectangular CartDock.LAYOUT := by
    rw [Rectangular]
    decide
  exact (hrect.isSome_cell hrow).mp (by rw [h, Option.isSome_some])

theorem layout : Yard CartDock.LAYOUT := by
  have hwall : ∀ y < 5, ∀ x < 7, Border CartDock.LAYOUT x y →
      cell CartDock.LAYOUT x y = some 5 := by decide
  have hdock : ∀ y < 5, ∀ x < 7, cell CartDock.LAYOUT x y = some 6 → (x, y) = (5, 1) := by decide
  refine ⟨rfl, fun x y c hc hborder => ?_, rfl, fun p q hp hq => ?_, fun _ _ => rfl⟩
  · obtain ⟨hy, hx⟩ := layout_bounds hc
    exact Option.some.inj (hc.symm.trans (hwall y hy x hx hborder))
  · obtain ⟨hpy, hpx⟩ := layout_bounds hp
    obtain ⟨hqy, hqx⟩ := layout_bounds hq
    exact (hdock p.2 hpy p.1 hpx hp).trans (hdock q.2 hqy q.1 hqx hq).symm

end Yard

end Step

/-! ### Episodes -/

/-- **In a yard the program predicts every answer**, along any actions. -/
theorem Yard.steps_predicted {g : Grid} (h : Yard g) (n : ℕ) (actions : List String) :
    ∃ records e', steps cartDock ⟨g, n⟩ actions =
        some (records.map Transition.observation, e') ∧
      records.map (·.action) = actions ∧ Chained g records e'.grid ∧
      ∀ t ∈ records, cartProgram.step t.stateBefore t.action =
        some ⟨t.stateAfter, t.levelUp, t.dead, t.win⟩ := by
  induction actions generalizing g n with
  | nil => exact ⟨[], ⟨g, n⟩, rfl, rfl, rfl, fun t ht => absurd ht List.not_mem_nil⟩
  | cons action actions ih =>
      obtain ⟨obs, henv, hprog⟩ := cart_step_eq h.walled n action
      obtain ⟨records, e', hsteps, hnamed, hchained, hpred⟩ :=
        ih (h.step action hprog : Yard obs.grid) (n + 1)
      refine ⟨⟨n, g, action, obs.grid, obs.levelUp, obs.dead, obs.win⟩ :: records, e', ?_,
        congrArg (action :: ·) hnamed, ⟨rfl, hchained⟩, List.forall_mem_cons.mpr ⟨hprog, hpred⟩⟩
      rw [steps, show cartDock.step ⟨g, n⟩ action = _ from henv, Option.bind_eq_bind,
        Option.bind_some]
      show Option.bind (steps cartDock ⟨obs.grid, n + 1⟩ actions) _ = _
      rw [hsteps]
      rfl

/-- **The program simulates the environment**: on every walled board it makes the same step, with
the same flags, and along any actions from a reset it predicts every answer. -/
theorem cart_program_simulates :
    (∀ g, Walled g → ∀ n action, ∃ obs,
      CartDock.step ⟨g, n⟩ action = some (obs, ⟨obs.grid, n + 1⟩) ∧
      cartProgram.step g action = some ⟨obs.grid, obs.levelUp, obs.dead, obs.win⟩) ∧
    ∀ (e : CartDock) (actions : List String), ∃ obs e₀ records e',
      cartDock.reset e = some (obs, e₀) ∧
      steps cartDock e₀ actions = some (records.map Transition.observation, e') ∧
      records.map (·.action) = actions ∧ Chained obs.grid records e'.grid ∧
      ∀ t ∈ records, cartProgram.step t.stateBefore t.action =
        some ⟨t.stateAfter, t.levelUp, t.dead, t.win⟩ := by
  refine ⟨fun g h n action => cart_step_eq h n action, fun e actions => ?_⟩
  obtain ⟨records, e', hrun⟩ := Yard.layout.steps_predicted e.taken actions
  exact ⟨_, _, records, e', rfl, hrun⟩

theorem cart_program_simulates_layout : ∃ obs,
    CartDock.step ⟨CartDock.LAYOUT, 0⟩ "right" = some (obs, ⟨obs.grid, 1⟩) ∧
    cartProgram.step CartDock.LAYOUT "right" =
      some ⟨obs.grid, obs.levelUp, obs.dead, obs.win⟩ :=
  cart_program_simulates.1 CartDock.LAYOUT Yard.layout.walled 0 "right"

end Jcode.Schema
