import Jcode.Schema.Behavior

/-!
# Schema — differences between programs

`diff` looks a rule up by its color and its guard.  Two programs with the same rules in another order
do not differ, and where the guards of two rules overlap the order decides.

* `stepsAlike_iff`: two programs make the same steps exactly when they have the same deeds.
* `diff_faithful_iff`: programs without a difference behave alike exactly when a rule that has been
  overtaken by another does what that one does.
* `diff_misses_order`: two rules in the other order are no structural change, and the player dies.
-/

namespace Jcode.Schema
open RuleProgram

/-! ### Boards that tell deeds apart -/

/-- `n` rows of the color `c`, and below them rows that begin with the colors `col`. -/
def scene (w n : ℕ) (c : UInt8) (col : List UInt8) : Grid :=
  List.replicate n (List.replicate (w + 1) c) ++ col.map fun k => k :: List.replicate w c

section Scene
variable {w n x y : ℕ} {c t : UInt8} {b : Option UInt8} {col : List UInt8}

theorem scene_row {row : List UInt8} (h : row ∈ scene w n c col) : row.length = w + 1 := by
  rcases List.mem_append.mp h with h | h
  · rw [(List.mem_replicate.mp h).2, List.length_replicate]
  · obtain ⟨k, -, rfl⟩ := List.mem_map.mp h
    rw [List.length_cons, List.length_replicate]

theorem scene_rectangular : Rectangular (scene w n c col) := by
  intro row hrow
  rw [width, scene_row hrow]
  cases hhead : (scene w n c col).head? with
  | none => rw [List.head?_eq_none_iff.mp hhead] at hrow; cases hrow
  | some first => rw [Option.map_some, scene_row (List.mem_of_mem_head? hhead)]

theorem cell_scene_above (hx : x ≤ w) (hy : y < n) : cell (scene w n c col) x y = some c := by
  refine cell_eq_some_iff.mpr ⟨List.replicate (w + 1) c, ?_, ?_⟩
  · rw [scene, List.getElem?_append_left (by simpa using hy), List.getElem?_replicate, if_pos hy]
  · rw [List.getElem?_replicate, if_pos (by omega)]

theorem cell_scene_below (i : ℕ) : cell (scene w n c col) 0 (n + i) = col[i]? := by
  rw [cell, scene, List.getElem?_append_right (by simp), List.length_replicate,
    Nat.add_sub_cancel_left, List.getElem?_map]
  cases col[i]? with
  | none => rfl
  | some k => rfl

/-- The upper rows are all alike. -/
theorem flatMap_above {β : Type} {f : List UInt8 × ℕ → List β}
    (hf : ∀ y, f (List.replicate (w + 1) c, y) = []) :
    (List.replicate n (List.replicate (w + 1) c)).zipIdx.flatMap f = [] := by
  refine List.flatMap_eq_nil_iff.mpr ?_
  rintro ⟨row, y⟩ hrow
  have hmem := List.fst_mem_of_mem_zipIdx hrow
  obtain rfl : row = List.replicate (w + 1) c := (List.mem_replicate.mp hmem).2
  exact hf y

theorem player_scene (hc : c ≠ 1) : player (scene w n c (1 :: col)) = some (0, n) := by
  rw [player, findColor, scene, List.zipIdx_append, List.flatMap_append, flatMap_above,
    List.nil_append, List.length_replicate, List.map_cons, List.zipIdx_cons, List.flatMap_cons]
  · simp
  · refine fun y => List.map_eq_nil_iff.mpr (List.filter_eq_nil_iff.mpr ?_)
    rintro ⟨k, x⟩ hk
    have hmem := List.fst_mem_of_mem_zipIdx hk
    rw [(List.mem_replicate.mp hmem).2]
    simpa using hc

/-- The player above `t`, with `b` below. -/
def downward (hc : c ≠ 1) : Attempt (scene w n c (1 :: t :: b.toList)) "down" where
  px := 0
  py := n
  tx := 0
  ty := n + 1
  target := t
  beyond := b
  player_at := player_scene hc
  tx_eq := rfl
  ty_eq := rfl
  target_at := cell_scene_below 1
  beyond_at := by
    have hpos : (0 : ℤ) ≤ (0 : ℕ) + (delta "down").1 ∧ (0 : ℤ) ≤ (n + 1 : ℕ) + (delta "down").2 := by
      show (0 : ℤ) ≤ 0 + 0 ∧ (0 : ℤ) ≤ (n + 1 : ℕ) + 1
      omega
    rw [if_pos hpos]
    refine ((cell_scene_below 2).trans ?_).symm
    cases b with
    | none => rfl
    | some b => rfl

/-- The player stays where it is. -/
def still : Attempt (scene w n 0 [1]) "wait" where
  px := 0
  py := n
  tx := 0
  ty := n
  target := 1
  beyond := some 1
  player_at := player_scene (by decide)
  tx_eq := rfl
  ty_eq := (Int.add_zero _).symm
  target_at := cell_scene_below 0
  beyond_at := by
    have hpos : (0 : ℤ) ≤ (0 : ℕ) + (delta "wait").1 ∧ (0 : ℤ) ≤ (n : ℕ) + (delta "wait").2 := by
      show (0 : ℤ) ≤ 0 + 0 ∧ (0 : ℤ) ≤ (n : ℕ) + 0
      omega
    rw [if_pos hpos]
    show some 1 = cell (scene w n 0 [1]) 0 (n + 0)
    rw [cell_scene_below]
    rfl

end Scene

/-! ### Programs and their deeds -/

/-- Two programs make the same steps. -/
def StepsAlike (p q : RuleProgram) : Prop :=
  ∀ g, Rectangular g → ∀ action, p.step g action = q.step g action

variable {p q : RuleProgram} {t : UInt8} {b : Option UInt8}

theorem deed_clear (p : RuleProgram) (t : UInt8) (b : Option UInt8) :
    ∃ n, ∀ x y, n ≤ y → (p.deed t b).writes x y = none := by
  rw [deed]
  cases p.rules.find? (applies t b) with
  | none => exact ⟨0, fun _ _ _ => rfl⟩
  | some rule =>
      simp only [Effect.deed]
      split
      · exact ⟨0, fun _ _ _ => rfl⟩
      · dsimp only
        split
        · exact exists_painted_none _
        · exact ⟨0, fun _ _ _ => rfl⟩

/-- A push needs something to be told from an advance by. -/
theorem deed_move_push (h : (p.deed t b).move = .push) : ∃ k, b = some k ∧ (k = t → t = 1) := by
  rw [deed] at h
  cases hfind : p.rules.find? (applies t b) with
  | none => rw [hfind] at h; cases h
  | some rule =>
      simp only [hfind, Effect.deed] at h
      split at h
      · cases h
      · next hnot =>
          dsimp only at h
          split at h
          · next hpush =>
              cases b with
              | none => exact absurd ⟨hpush, rfl⟩ hnot
              | some k =>
                  refine ⟨k, rfl, fun hk => ?_⟩
                  by_contra hne
                  rw [if_pos ⟨congrArg some hk, hne⟩] at h
                  cases h
          · split at h
            · cases h
            · cases h

/-- A push and an advance leave different colors beyond the target, or on a player that pushes
itself. -/
theorem Move.push_ne_advance {n : ℕ} (hpush : ∃ k, b = some k ∧ (k = t → t = 1))
    (hcolor : ∀ i k, (1 :: t :: b.toList)[i]? = some k →
      Move.push.recolor (0, n) (0, n + 1) (0, n + 2) t (0, n + i) k =
        Move.advance.recolor (0, n) (0, n + 1) (0, n + 2) t (0, n + i) k)
    (hstill : t = 1 → b = some 1 →
      Move.push.recolor (0, n) (0, n) (0, n) 1 (0, n) 1 =
        Move.advance.recolor (0, n) (0, n) (0, n) 1 (0, n) 1) : False := by
  obtain ⟨k, rfl, hk⟩ := hpush
  have hbeyond := hcolor 2 k rfl
  have hkt : k = t := by simpa [Move.recolor] using hbeyond.symm
  have ht := hk hkt
  have hself := hstill ht (by rw [hkt, ht])
  simp [Move.recolor] at hself

/-- The colors around the player tell two moves apart. -/
theorem Move.eq_of_colors {m m' : Move} {n : ℕ}
    (hm : m = .push → ∃ k, b = some k ∧ (k = t → t = 1))
    (hm' : m' = .push → ∃ k, b = some k ∧ (k = t → t = 1))
    (hcolor : ∀ i k, (1 :: t :: b.toList)[i]? = some k →
      m.recolor (0, n) (0, n + 1) (0, n + 2) t (0, n + i) k =
        m'.recolor (0, n) (0, n + 1) (0, n + 2) t (0, n + i) k)
    (hstill : t = 1 → b = some 1 →
      m.recolor (0, n) (0, n) (0, n) 1 (0, n) 1 = m'.recolor (0, n) (0, n) (0, n) 1 (0, n) 1) :
    m = m' := by
  have hplayer := hcolor 0 1 rfl
  cases m with
  | stay =>
      cases m' with
      | stay => rfl
      | advance => simp [Move.recolor] at hplayer
      | push => simp [Move.recolor] at hplayer
  | advance =>
      cases m' with
      | stay => simp [Move.recolor] at hplayer
      | advance => rfl
      | push =>
          exact (Move.push_ne_advance (hm' rfl) (fun i k hk => (hcolor i k hk).symm)
            fun ht hb => (hstill ht hb).symm).elim
  | push =>
      cases m' with
      | stay => simp [Move.recolor] at hplayer
      | advance => exact (Move.push_ne_advance (hm rfl) hcolor hstill).elim
      | push => rfl

/-- At one attempt, programs that make the same steps do the same. -/
theorem StepsAlike.at_attempt (h : StepsAlike p q) {g : Grid} {action : String}
    (att : Attempt g action) (hrect : Rectangular g) :
    (p.deed att.target att.beyond).win = (q.deed att.target att.beyond).win ∧
    (p.deed att.target att.beyond).dead = (q.deed att.target att.beyond).dead ∧
    ∀ x y c, cell g x y = some c →
      ((p.deed att.target att.beyond).writes x y).getD
        ((p.deed att.target att.beyond).move.recolor att.playerPos att.targetPos att.beyondPos
          att.target (x, y) c) =
      ((q.deed att.target att.beyond).writes x y).getD
        ((q.deed att.target att.beyond).move.recolor att.playerPos att.targetPos att.beyondPos
          att.target (x, y) c) := by
  obtain ⟨pred, hstep, hperf⟩ := att.performed hrect p
  obtain ⟨pred', hstep', hperf'⟩ := att.performed hrect q
  obtain rfl := Option.some.inj (hstep.symm.trans ((h g hrect action).trans hstep'))
  refine ⟨hperf.win.symm.trans hperf'.win, hperf.dead.symm.trans hperf'.dead, fun x y c hc => ?_⟩
  have hcells := (hperf.cells x y).symm.trans (hperf'.cells x y)
  rw [hc] at hcells
  exact Option.some.inj hcells

/-- The colors two deeds leave around a player who looks down. -/
theorem StepsAlike.downward_eq (h : StepsAlike p q) {w n : ℕ} {c : UInt8} (hc : c ≠ 1) {x y : ℕ}
    {k : UInt8} (hk : cell (scene w n c (1 :: t :: b.toList)) x y = some k) :
    ((p.deed t b).writes x y).getD
        ((p.deed t b).move.recolor (0, n) (0, n + 1) (0, n + 2) t (x, y) k) =
      ((q.deed t b).writes x y).getD
        ((q.deed t b).move.recolor (0, n) (0, n + 1) (0, n + 2) t (x, y) k) :=
  (h.at_attempt (downward hc) scene_rectangular).2.2 x y k hk

/-- The same moves: below all the rewrites the occupants tell. -/
theorem StepsAlike.move_eq (h : StepsAlike p q) (t : UInt8) (b : Option UInt8) :
    (p.deed t b).move = (q.deed t b).move := by
  obtain ⟨n₁, hp⟩ := deed_clear p t b
  obtain ⟨n₂, hq⟩ := deed_clear q t b
  obtain ⟨n, hn₁, hn₂⟩ : ∃ n, n₁ ≤ n ∧ n₂ ≤ n := ⟨max n₁ n₂, le_max_left _ _, le_max_right _ _⟩
  have hcolor : ∀ i k, (1 :: t :: b.toList)[i]? = some k →
      (p.deed t b).move.recolor (0, n) (0, n + 1) (0, n + 2) t (0, n + i) k =
        (q.deed t b).move.recolor (0, n) (0, n + 1) (0, n + 2) t (0, n + i) k := by
    intro i k hk
    have heq := h.downward_eq (w := 0) (n := n) (c := 0) (by decide)
      ((cell_scene_below i).trans hk)
    rw [hp 0 (n + i) (by omega), hq 0 (n + i) (by omega)] at heq
    exact heq
  have hstill : t = 1 → b = some 1 →
      (p.deed t b).move.recolor (0, n) (0, n) (0, n) 1 (0, n) 1 =
        (q.deed t b).move.recolor (0, n) (0, n) (0, n) 1 (0, n) 1 := by
    rintro rfl rfl
    have heq := (h.at_attempt (still (w := 0) (n := n)) scene_rectangular).2.2 0 n 1
      (cell_scene_below 0)
    rw [show (still (w := 0) (n := n)).target = 1 from rfl,
      show (still (w := 0) (n := n)).beyond = some 1 from rfl, hp 0 n hn₁, hq 0 n hn₂] at heq
    exact heq
  exact Move.eq_of_colors deed_move_push deed_move_push hcolor hstill

/-- A color under the rewrites tells whether there is one. -/
theorem eq_of_getD {o o' : Option UInt8} (h : ∀ c, c ≠ 1 → o.getD c = o'.getD c) : o = o' := by
  have h₀ := h 0 (by decide)
  have h₂ := h 2 (by decide)
  cases o with
  | none =>
      cases o' with
      | none => rfl
      | some c => exact absurd (h₀.trans h₂.symm) (by decide)
  | some c =>
      cases o' with
      | none => exact absurd (h₀.symm.trans h₂) (by decide)
      | some c' => exact congrArg some h₀

/-- **Two programs make the same steps exactly when they have the same deeds.** -/
theorem stepsAlike_iff : StepsAlike p q ↔ ∀ t b, p.deed t b = q.deed t b := by
  constructor
  · intro h t b
    obtain ⟨hwin, hdead, -⟩ := h.at_attempt
      (downward (w := 0) (n := 0) (c := 0) (t := t) (b := b) (by decide)) scene_rectangular
    have hwrites : (p.deed t b).writes = (q.deed t b).writes := by
      funext x y
      refine eq_of_getD fun c hc => ?_
      -- the cell lies above the three cells of the move
      have heq := h.downward_eq (w := x) (n := y + 1) (t := t) (b := b) hc
        (cell_scene_above le_rfl (Nat.lt_succ_self y))
      have hkeep : ∀ m : Move, m.recolor (0, y + 1) (0, y + 1 + 1) (0, y + 1 + 2) t (x, y) c = c := by
        intro m
        cases m with
        | stay => rfl
        | advance =>
            rw [Move.recolor, if_neg (fun heq => ?_), if_neg (fun heq => ?_)]
            · exact absurd (Prod.mk.inj heq).2 (by omega)
            · exact absurd (Prod.mk.inj heq).2 (by omega)
        | push =>
            rw [Move.recolor, if_neg (fun heq => ?_), if_neg (fun heq => ?_),
              if_neg (fun heq => ?_)]
            · exact absurd (Prod.mk.inj heq).2 (by omega)
            · exact absurd (Prod.mk.inj heq).2 (by omega)
            · exact absurd (Prod.mk.inj heq).2 (by omega)
      rw [hkeep, hkeep] at heq
      exact heq
    exact Deed.ext (h.move_eq t b) hwrites hwin hdead
  · intro h g hrect action
    rcases step_rectangular hrect action with hblocked | ⟨⟨att⟩⟩
    · rw [hblocked, hblocked]
    · obtain ⟨pred, hstep, hperf⟩ := att.performed hrect p
      obtain ⟨pred', hstep', hperf'⟩ := att.performed hrect q
      rw [h] at hperf
      rw [hstep, hstep', hperf.unique hperf']

/-! ### What a difference is not -/

/-- Where two rules with different guards apply first in the two programs, they do the same. -/
def OrderHarmless (p q : RuleProgram) : Prop :=
  ∀ t b r r', p.rules.find? (applies t b) = some r → q.rules.find? (applies t b) = some r' →
    key r ≠ key r' → r.effect.deed t b = r'.effect.deed t b

/-- Each rule of a program without a difference has its like in the other. -/
theorem like_of_diff_nil (h : p.diff q = []) :
    (∀ r ∈ p.rules, ∃ r', q.rules.find? (fun r' => key r' == key r) = some r' ∧
      r'.effect = r.effect) ∧
    (∀ r' ∈ q.rules, ∃ r ∈ p.rules, key r = key r') ∧
    p.goalAbsentColors = q.goalAbsentColors := by
  rw [diff, List.append_eq_nil_iff, List.append_eq_nil_iff] at h
  obtain ⟨⟨hchanged, hremoved⟩, hgoal⟩ := h
  refine ⟨fun r hr => ?_, fun r' hr' => ?_, ?_⟩
  · have hnone := List.filterMap_eq_nil_iff.mp hchanged r hr
    cases hfind : q.rules.find? fun r' => key r' == key r with
    | none => rw [hfind] at hnone; cases hnone
    | some r' =>
        refine ⟨r', rfl, ?_⟩
        by_contra hne
        rw [hfind] at hnone
        simp only [ne_eq, hne, not_false_eq_true, if_true] at hnone
        cases hnone
  · have hnone := List.filter_eq_nil_iff.mp (List.map_eq_nil_iff.mp hremoved) r' hr'
    simpa using hnone
  · by_contra hne
    rw [if_pos hne] at hgoal
    cases hgoal

/-- Whether a rule applies depends on its key. -/
theorem applies_congr {r r' : Rule} (h : key r = key r') : applies t b r = applies t b r' := by
  obtain ⟨htarget, hguard⟩ := Prod.mk.inj h
  simp only [applies, guardHolds, htarget, hguard]

/-- A rule is found by its key where it is the first to apply. -/
theorem find_key {rules : List Rule} {r : Rule} (h : rules.find? (applies t b) = some r) :
    rules.find? (fun r' => key r' == key r) = some r := by
  obtain ⟨happlies, before, after, rfl, hbefore⟩ := List.find?_eq_some_iff_append.mp h
  refine List.find?_eq_some_iff_append.mpr ⟨beq_self_eq_true _, before, after, rfl, fun r' hr' => ?_⟩
  have hnot := hbefore r' hr'
  simp only [Bool.not_eq_true', beq_eq_false_iff_ne, ne_eq]
  intro heq
  rw [applies_congr heq, happlies] at hnot
  cases hnot

/-- With no difference, the deeds agree exactly where the order is harmless. -/
theorem deed_eq_iff (h : p.diff q = []) :
    (∀ t b, p.deed t b = q.deed t b) ↔ OrderHarmless p q := by
  obtain ⟨hlike, hback, -⟩ := like_of_diff_nil h
  constructor
  · intro hdeed t b r r' hr hr' _
    have heq := hdeed t b
    rw [deed, deed, hr, hr'] at heq
    exact heq
  · intro hharmless t b
    rw [deed, deed]
    cases hr : p.rules.find? (applies t b) with
    | none =>
        cases hr' : q.rules.find? (applies t b) with
        | none => rfl
        | some r' =>
            obtain ⟨r, hmem, hkey⟩ := hback r' (List.mem_of_find?_eq_some hr')
            have hno := List.find?_eq_none.mp hr r hmem
            rw [applies_congr hkey] at hno
            exact absurd (List.find?_some hr') hno
    | some r =>
        obtain ⟨like, hfind, heffect⟩ := hlike r (List.mem_of_find?_eq_some hr)
        cases hr' : q.rules.find? (applies t b) with
        | none =>
            have hno := List.find?_eq_none.mp hr' like (List.mem_of_find?_eq_some hfind)
            have hkey := List.find?_some hfind
            rw [applies_congr (beq_iff_eq.mp hkey)] at hno
            exact absurd (List.find?_some hr) hno
        | some r' =>
            by_cases hkey : key r = key r'
            · have hsame := find_key hr'
              rw [← hkey, hfind] at hsame
              obtain rfl := Option.some.inj hsame
              show r.effect.deed t b = like.effect.deed t b
              rw [heffect]
            · exact hharmless t b r r' hr hr' hkey

/-- **Programs without a difference behave alike exactly when the order of their rules is
harmless.** -/
theorem diff_faithful_iff (h : p.diff q = []) :
    (∀ g, Rectangular g → ∀ action,
      p.step g action = q.step g action ∧ p.isGoal g = q.isGoal g) ↔ OrderHarmless p q := by
  have hgoal : ∀ g, p.isGoal g = q.isGoal g := fun g => by
    rw [isGoal, isGoal, (like_of_diff_nil h).2.2]
  rw [← deed_eq_iff h, ← stepsAlike_iff]
  exact ⟨fun hboth g hrect action => (hboth g hrect action).1,
    fun hsteps g hrect action => ⟨hsteps g hrect action, hgoal g⟩⟩

/-- Color 2 is walked on, and before color 3 it is deadly. -/
def deadlyLast : RuleProgram where
  rules := [{ onTarget := 2, effect := { playerAdvances := true } },
    { onTarget := 2, beyondAnyOf := some [3], effect := { dead := true } }]

/-- The same rules in the other order. -/
def deadlyFirst : RuleProgram := { rules := deadlyLast.rules.reverse }

theorem diff_faithful_iff_deadly : (∀ g, Rectangular g → ∀ action,
      deadlyFirst.step g action = deadlyLast.step g action ∧
        deadlyFirst.isGoal g = deadlyLast.isGoal g) ↔ OrderHarmless deadlyFirst deadlyLast :=
  diff_faithful_iff (by decide +kernel)

/-- **Two rules in the other order are no structural change**, and the move that was safe is
deadly. -/
theorem diff_misses_order : deadlyFirst.diff deadlyLast = [] ∧
    ((WorldModel.fromProgram deadlyLast "walk").reviseProgram deadlyFirst "again").history =
      ["walk", "again [no structural change]"] ∧
    Rectangular [[1, 2, 3]] ∧
    deadlyLast.step [[1, 2, 3]] "right" = some { grid := [[0, 1, 3]] } ∧
    deadlyFirst.step [[1, 2, 3]] "right" = some { grid := [[1, 2, 3]], dead := true } := by
  refine ⟨by decide +kernel, by decide +kernel, ?_, by decide +kernel, by decide +kernel⟩
  intro row hrow
  obtain rfl := List.mem_singleton.mp hrow
  rfl

end Jcode.Schema
