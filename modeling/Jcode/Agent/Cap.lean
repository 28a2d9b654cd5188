import Jcode.Agent.Retry
import Jcode.Compaction.Coverage

/-!
# Agent — the cap on retries

Three failures of a turn share one counter of retries, and the counter starts again with every
stream that opens.  So it counts the recoveries since the last response only as long as no stream
has been opened after the first of them.

* `Law.run`: how the counter stands to the recoveries.
* `capped_iff`: the recoveries are capped, except where one too many comes after another stream has
  been opened.
* `streams_break_uncapped`: a run in which the seventh does.
-/

namespace Jcode.Retry
open Runs

/-! ### What is counted -/

/-- The recovery succeeds in this step. -/
def recovers (t : Transition Turn Event) : Bool :=
  match t.event, t.before.place with
  | .poll (.failed error s), .opening _ false | .broke error s, .streaming =>
      (t.before.agent.tryAutoCompactAfterContextLimit s error).2
  | _, _ => false

/-- A stream is opened. -/
def opens (t : Transition Turn Event) : Bool :=
  match t.event, t.before.place with
  | .poll .opened, .opening _ false => true
  | _, _ => false

/-- A response is completed. -/
def completes (t : Transition Turn Event) : Bool :=
  match t.event with
  | .responded false _ _ => true
  | _ => false

/-- Since the last completed response, or the start of the turn: the recoveries, and whether a
stream has been opened after the first of them. -/
structure Since where
  recoveries : ℕ := 0
  reopened : Bool := false
  deriving DecidableEq, Repr

def Since.observe (m : Since) (t : Transition Turn Event) : Since :=
  if completes t then {}
  else if recovers t then { m with recoveries := m.recoveries + 1 }
  else if opens t then { m with reopened := 0 < m.recoveries }
  else m

def since (ts : List (Transition Turn Event)) : Since := ts.foldl Since.observe {}

/-- **The cap**: no more than `MAX_CONTEXT_LIMIT_RETRIES + 1` recoveries from one response to the
next, and the last of these ends the turn with an error. -/
def Capped (ts : List (Transition Turn Event)) : Prop :=
  ∀ us t vs, ts = us ++ t :: vs → recovers t = true →
    (since us).recoveries < MAX_CONTEXT_LIMIT_RETRIES + 1 ∧
    ((since us).recoveries = MAX_CONTEXT_LIMIT_RETRIES →
      ∃ error, t.after.place = .ended (.error error))

/-! ### One step -/

variable {loop : Loop} {t t' : Turn} {e : Event}

/-- **A failure that is recovered from** counts, and ends the turn when it is one too many. -/
theorem Turn.fail_recovered {s : Surroundings} {error : String} {resume : Place}
    (h : (t.agent.tryAutoCompactAfterContextLimit s error).2 = true)
    (hresume : ∀ result, resume ≠ .ended result) :
    (t.fail s error resume).contextLimitRetries = t.contextLimitRetries + 1 ∧
      ((∃ reason, (t.fail s error resume).place = .ended (.error reason)) ↔
        MAX_CONTEXT_LIMIT_RETRIES < t.contextLimitRetries + 1) ∧
      ((∀ result, (t.fail s error resume).place ≠ .ended result) →
        (t.fail s error resume).place = resume) := by
  rcases hrun : t.agent.tryAutoCompactAfterContextLimit s error with ⟨agent, recovered⟩
  rw [hrun] at h
  obtain rfl : recovered = true := h
  rw [Turn.fail, hrun]
  dsimp only
  split
  · next hmax => exact ⟨rfl, iff_of_true ⟨_, rfl⟩ hmax, fun hnot => absurd rfl (hnot _)⟩
  · next hmax =>
      refine ⟨rfl, iff_of_false ?_ hmax, fun _ => rfl⟩
      rintro ⟨reason, hreason⟩
      exact hresume _ hreason

theorem Turn.fail_not_recovered {s : Surroundings} {error : String} {resume : Place}
    (h : (t.agent.tryAutoCompactAfterContextLimit s error).2 = false) :
    (t.fail s error resume).contextLimitRetries = t.contextLimitRetries ∧
      (t.fail s error resume).place = .ended (.error error) := by
  rcases hrun : t.agent.tryAutoCompactAfterContextLimit s error with ⟨agent, recovered⟩
  rw [hrun] at h
  obtain rfl : recovered = false := h
  rw [Turn.fail, hrun]
  exact ⟨rfl, rfl⟩

/-- What a step does to the counter of retries. -/
inductive Counts (t t' : Turn) (tr : Transition Turn Event) : Prop
  | recovery (recovered : recovers tr = true) (unfinished : completes tr = false)
      (count : t'.contextLimitRetries = t.contextLimitRetries + 1) (left : t'.place ≠ .streaming)
      (ends : (∃ reason, t'.place = .ended (.error reason)) ↔
        MAX_CONTEXT_LIMIT_RETRIES < t.contextLimitRetries + 1)
  | opening (recovered : recovers tr = false) (opened : opens tr = true)
      (unfinished : completes tr = false) (count : t'.contextLimitRetries = 0)
  | other (recovered : recovers tr = false) (opened : opens tr = false)
      (response : completes tr = true → t.place = .streaming)
      (count : t'.contextLimitRetries = t.contextLimitRetries)
      (stays : t'.place = .streaming → t.place = .streaming)

/-- A failure of a call or of a stream, whether it is recovered from or not. -/
theorem Turn.fail_counts {s : Surroundings} {error : String} {resume : Place}
    (hrecovers : recovers ⟨t, e, t.fail s error resume⟩ =
      (t.agent.tryAutoCompactAfterContextLimit s error).2)
    (hopens : opens ⟨t, e, t.fail s error resume⟩ = false)
    (hcompletes : completes ⟨t, e, t.fail s error resume⟩ = false)
    (hresume : ∀ result, resume ≠ .ended result) (hleft : resume ≠ .streaming) :
    Counts t (t.fail s error resume) ⟨t, e, t.fail s error resume⟩ := by
  cases hrec : (t.agent.tryAutoCompactAfterContextLimit s error).2 with
  | true =>
      obtain ⟨hcount, hends, hplace⟩ := Turn.fail_recovered hrec hresume
      refine .recovery (hrecovers.trans hrec) hcompletes hcount (fun hstreaming => ?_) hends
      refine hleft ((hplace fun result hended => ?_).symm.trans hstreaming)
      rw [hstreaming] at hended
      cases hended
  | false =>
      obtain ⟨hcount, hplace⟩ := @Turn.fail_not_recovered t s error resume hrec
      refine .other (hrecovers.trans hrec) hopens (fun h => ?_) hcount fun hstreaming => ?_
      · rw [hcompletes] at h
        cases h
      · rw [hplace] at hstreaming
        cases hstreaming

/-- **Each step** recovers from a failure, opens a stream, or leaves the counter as it is. -/
theorem step_counts (h : step loop t e = some t') :
    (∀ result, t.place ≠ .ended result) ∧ Counts t t' ⟨t, e, t'⟩ := by
  have hclosed : ∀ {result}, t.place = .ended result → step loop t e = none := by
    intro result hended
    cases e <;> simp [step, hended]
  refine ⟨fun result hended => ?_, ?_⟩
  · rw [hclosed hended] at h
    cases h
  cases e with
  | build repair s during inject =>
      cases hplace : t.place with
      | head =>
          simp only [step, hplace] at h
          obtain rfl := Option.some.inj h
          exact .other rfl rfl (fun h => by cases h) rfl fun h => by cases h
      | _ => simp [step, hplace] at h
  | poll outcome =>
      cases hplace : t.place with
      | opening request completed =>
          cases completed with
          | true =>
              simp only [step, hplace] at h
              obtain rfl := Option.some.inj h
              have hnot : ∀ tr, tr = (⟨t, .poll outcome, { t with place := .panicked }⟩ :
                  Transition Turn Event) → recovers tr = false ∧ opens tr = false := by
                rintro _ rfl
                cases outcome <;> simp [recovers, opens, hplace]
              exact .other (hnot _ rfl).1 (hnot _ rfl).2 (fun h => by cases h) rfl
                fun h => by cases h
          | false =>
              cases outcome with
              | pending =>
                  simp only [step, hplace] at h
                  obtain rfl := Option.some.inj h
                  exact .other rfl rfl (fun h => by cases h) rfl id
              | opened =>
                  simp only [step, hplace] at h
                  obtain rfl := Option.some.inj h
                  exact .opening rfl (by simp [opens, hplace]) rfl rfl
              | failed error s =>
                  simp only [step, hplace] at h
                  obtain rfl := Option.some.inj h
                  refine Turn.fail_counts (by simp [recovers, hplace]) rfl rfl ?_ ?_
                  · cases loop <;> simp [Turn.afterFailedOpening]
                  · cases loop <;> simp [Turn.afterFailedOpening]
      | _ => simp [step, hplace] at h
  | tick =>
      obtain rfl : t' = t := by
        cases loop <;> cases hplace : t.place <;> simp_all [step]
      exact .other rfl rfl (fun h => by cases h) rfl id
  | shutdown =>
      obtain rfl : t' = { t with place := .ended (.ok ()) } := by
        cases loop <;> cases hplace : t.place <;> simp_all [step]
      exact .other rfl rfl (fun h => by cases h) rfl fun h => by cases h
  | received effect =>
      cases hplace : t.place with
      | streaming =>
          simp only [step, hplace] at h
          obtain rfl := Option.some.inj h
          exact .other rfl rfl (fun h => by cases h) rfl fun _ => hplace
      | _ => simp [step, hplace] at h
  | broke error s =>
      cases hplace : t.place with
      | streaming =>
          simp only [step, hplace] at h
          obtain rfl := Option.some.inj h
          exact Turn.fail_counts (by simp [recovers, hplace]) rfl rfl (by simp) (by simp)
      | _ => simp [step, hplace] at h
  | responded cancelled effect next =>
      cases hplace : t.place with
      | streaming =>
          simp only [step, hplace] at h
          obtain rfl := Option.some.inj h
          exact .other rfl rfl (fun _ => hplace) rfl fun _ => hplace
      | _ => simp [step, hplace] at h

/-! ### Runs -/

/-- How the counter stands to what has been counted. -/
structure Law (m : Since) (t : Turn) : Prop where
  exact : m.reopened = false → t.contextLimitRetries = m.recoveries
  behind : m.reopened = true → t.contextLimitRetries < m.recoveries
  fresh : t.place = .streaming → t.contextLimitRetries = 0
  capped : (∀ result, t.place ≠ .ended result) →
    t.contextLimitRetries ≤ MAX_CONTEXT_LIMIT_RETRIES

theorem Law.after {m : Since} (hlaw : Law m t) (h : step loop t e = some t') :
    Law (m.observe ⟨t, e, t'⟩) t' := by
  obtain ⟨hnot, hcounts⟩ := step_counts h
  have hle := hlaw.capped hnot
  cases hcounts with
  | recovery hrec hopen hcount hleft hends =>
      rw [Since.observe, hopen, hrec, if_neg Bool.false_ne_true, if_pos rfl]
      refine ⟨fun hr => ?_, fun hr => ?_, fun hs => absurd hs hleft, fun hrunning => ?_⟩
      · rw [hcount, hlaw.exact hr]
      · rw [hcount]
        exact Nat.succ_lt_succ (hlaw.behind hr)
      · by_contra hgt
        rw [not_le, hcount] at hgt
        obtain ⟨reason, hended⟩ := hends.mpr hgt
        exact hrunning _ hended
  | opening hrec hopened hopen hcount =>
      rw [Since.observe, hopen, hrec, hopened, if_neg Bool.false_ne_true,
        if_neg Bool.false_ne_true, if_pos rfl]
      refine ⟨fun hr => ?_, fun hr => ?_, fun _ => hcount, fun _ => hcount ▸ Nat.zero_le _⟩
      · rw [decide_eq_false_iff_not, not_lt, Nat.le_zero] at hr
        rw [hcount, hr]
      · rw [hcount]
        exact of_decide_eq_true hr
  | other hrec hopened hresponse hcount hstays =>
      have hcapped : t'.contextLimitRetries ≤ MAX_CONTEXT_LIMIT_RETRIES := hcount ▸ hle
      have hfresh : t'.place = .streaming → t'.contextLimitRetries = 0 := fun hs =>
        hcount.trans (hlaw.fresh (hstays hs))
      rw [Since.observe, hrec, hopened]
      split
      · next hcompletes =>
          exact ⟨fun _ => hcount.trans (hlaw.fresh (hresponse hcompletes)), fun hr => (by cases hr),
            hfresh, fun _ => hcapped⟩
      · rw [if_neg Bool.false_ne_true, if_neg Bool.false_ne_true]
        exact ⟨fun hr => hcount.trans (hlaw.exact hr), fun hr => hcount ▸ hlaw.behind hr, hfresh,
          fun _ => hcapped⟩

theorem Law.run {agent : Agent} {ts : List (Transition Turn Event)}
    (run : Run (step loop) (.start agent) ts t) : Law (since ts) t := by
  have hstart : Law (since []) (.start agent) :=
    ⟨fun _ => rfl, fun h => (by cases h), fun h => (by cases h), fun _ => Nat.zero_le _⟩
  refine run.records (P := fun us t => Law (since us) t) (fun us tr _ hstep hlaw => ?_) hstart
  rw [since, List.foldl_append]
  exact hlaw.after hstep

/-- **The cap holds exactly** where no recovery is one too many after another stream has been
opened. -/
theorem capped_iff {agent : Agent} {ts : List (Transition Turn Event)}
    (run : Run (step loop) (.start agent) ts t) : Capped ts ↔
      ∀ us tr vs, ts = us ++ tr :: vs → recovers tr = true →
        ¬ (MAX_CONTEXT_LIMIT_RETRIES ≤ (since us).recoveries ∧ (since us).reopened = true) := by
  refine forall₃_congr fun us tr vs => forall_congr' fun hts => forall_congr' fun hrec => ?_
  subst hts
  obtain ⟨hbefore, hstep, -⟩ := run.split_at
  have hlaw := Law.run hbefore
  obtain ⟨hnot, hcounts⟩ := step_counts hstep
  have hle := hlaw.capped hnot
  cases hcounts with
  | recovery _ _ hcount _ hends =>
      rw [hends]
      cases hr : (since us).reopened with
      | false =>
          have heq := hlaw.exact hr
          refine iff_of_true ⟨by omega, fun hmax => by omega⟩ ?_
          simp
      | true =>
          have hlt := hlaw.behind hr
          constructor
          · rintro ⟨hbound, hlast⟩ ⟨hmany, -⟩
            have := hlast (by omega)
            omega
          · intro hfew
            have hlt' : (since us).recoveries < MAX_CONTEXT_LIMIT_RETRIES :=
              not_le.mp fun hmany => hfew ⟨hmany, rfl⟩
            exact ⟨by omega, fun hmax => by omega⟩
  | opening hno => rw [hrec] at hno; cases hno
  | other hno => rw [hrec] at hno; cases hno

/-! ### Streams that break -/

/-- Plain surroundings, in which every lock is free. -/
def plainSurroundings : Surroundings where
  env := Compaction.plainEnv
  toLowercase := Rust.toAsciiLowercase
  config := .default
  mode := .reactive
  nativeLock := true
  imageLock := true
  lock := true

/-- Twelve messages. -/
def longTalk : Agent where
  provider := ⟨true, true, 200000⟩
  messages := List.replicate 12 ⟨.user, [.text "hello" none], none, none⟩
  compaction := none
  manager := (Compaction.CompactionManager.new .default .reactive).seedRestoredMessages 12
  providerSessionId := none

/-- A stream that opens and breaks. -/
def brokenStream : List Event :=
  [.build id plainSurroundings none fun a => (a, []), .poll .opened,
    .broke "prompt is too long" plainSurroundings]

theorem capped_iff_brokenStream : ∃ ts t, Run (step .runTurn) (.start longTalk) ts t ∧
    ts.map Transition.event = brokenStream ∧
    (Capped ts ↔ ∀ us tr vs, ts = us ++ tr :: vs → recovers tr = true →
      ¬ (MAX_CONTEXT_LIMIT_RETRIES ≤ (since us).recoveries ∧ (since us).reopened = true)) := by
  have hobserved : (exec (step .runTurn) (.start longTalk) brokenStream).map
      (fun r => r.2.contextLimitRetries) = some 1 := by
    decide +kernel
  obtain ⟨ts, t, run, hevents, -⟩ := Run.of_observed hobserved
  exact ⟨ts, t, run, hevents, capped_iff run⟩

theorem exists_uncapped (loop : Loop) : ∃ ts t,
    Run (step loop) (.start longTalk) ts t ∧
      ts.map Transition.event = (List.replicate 7 brokenStream).flatten ∧ ¬ Capped ts := by
  have hobserved : (exec (step loop) (.start longTalk) (List.replicate 7 brokenStream).flatten).map
      (fun r => ((since (r.1.take 20)).recoveries, (r.1[20]?).map recovers)) =
      some (6, some true) := by
    cases loop <;> decide +kernel
  obtain ⟨ts, t, run, hevents, hfacts⟩ := Run.of_observed hobserved
  obtain ⟨hsix, hlast⟩ := Prod.mk.inj hfacts
  obtain ⟨tr, htr, hrec⟩ := Option.map_eq_some_iff.mp hlast
  obtain ⟨hlen, hget⟩ := List.getElem?_eq_some_iff.mp htr
  refine ⟨ts, t, run, hevents, fun hcapped => ?_⟩
  have hsplit : ts = ts.take 20 ++ tr :: ts.drop 21 := by
    rw [← hget, List.cons_getElem_drop_succ, List.take_append_drop]
  have hbound := (hcapped _ _ _ hsplit hrec).1
  rw [hsix] at hbound
  exact absurd hbound (by decide)

/-- **Seven streams break, and each time the turn goes on.** -/
theorem streams_break_uncapped :
    (∃ ts t, Run (step .runTurn) (.start longTalk) ts t ∧
      ts.map Transition.event = (List.replicate 7 brokenStream).flatten ∧ ¬ Capped ts) ∧
    ∃ ts t, Run (step .runTurnStreamingMpsc) (.start longTalk) ts t ∧
      ts.map Transition.event = (List.replicate 7 brokenStream).flatten ∧ ¬ Capped ts :=
  ⟨exists_uncapped _, exists_uncapped _⟩

end Jcode.Retry
