import Jcode.Agent.Cap

/-!
# Agent — the call after a recovery

After a recovery a turn goes on from the head of its loop, where the request is built anew.  The
one failure for which it does not is that of a call in `run_turn_streaming_mpsc`: its `continue` is
that of the loop around `select!`, which polls the same future again.

* `recovered_place`: where a turn stands after a recovery.
* `Unfinished.step`: no call is waited on whose future has completed.
* `reissued_iff`: every recovery leads to a new call, except that one.
-/

namespace Jcode.Retry
open Runs

variable {loop : Loop} {t t' : Turn} {e : Event} {tr : Transition Turn Event}

/-! ### New calls -/

/-- A call is polled whose future has completed. -/
def repolls (tr : Transition Turn Event) : Bool :=
  match tr.event, tr.before.place with
  | .poll _, .opening _ true => true
  | _, _ => false

/-- **The turn goes on with a new call**, and with nothing else: its messages are those of
`messages_for_provider` for the agent as it is, once its tool outputs are repaired. -/
def Reissues (loop : Loop) (t : Turn) : Prop :=
  (∃ e t', step loop t e = some t') ∧ ∀ e t', step loop t e = some t' →
    ∃ repair s during inject request, e = .build repair s during inject ∧
      t'.place = .opening request false ∧
      ∃ memory, request.messages = ((repair t.agent).messagesForProvider s during).2 ++ memory

/-- No completed call is polled, and each recovery within the limit leads to a new call. -/
def Reissued (loop : Loop) (ts : List (Transition Turn Event)) : Prop :=
  ∀ tr ∈ ts, repolls tr = false ∧ (recovers tr = true →
    tr.before.contextLimitRetries < MAX_CONTEXT_LIMIT_RETRIES → Reissues loop tr.after)

/-- The head of the loop is where requests are built. -/
theorem reissues_of_head (h : t.place = .head) : Reissues loop t := by
  refine ⟨⟨.build id plainSurroundings none fun a => (a, []), _, by rw [step, h]⟩, ?_⟩
  intro e t' hstep
  cases e with
  | build repair s during inject =>
      rw [step, h] at hstep
      obtain rfl := Option.some.inj hstep
      exact ⟨repair, s, during, inject, _, rfl, rfl, _, rfl⟩
  | _ => cases loop <;> simp [step, h] at hstep

/-- In the loop around `select!` a keepalive may come next. -/
theorem not_reissues_of_opening {request : Request} {completed : Bool}
    (h : t.place = .opening request completed) : ¬ Reissues .runTurnStreamingMpsc t := by
  rintro ⟨-, hnext⟩
  obtain ⟨_, _, _, _, _, hbuild, -⟩ := hnext .tick t (by simp [step, h])
  cases hbuild

/-- **Where a turn stands after a recovery within the limit.** -/
theorem recovered_place (h : step loop tr.before tr.event = some tr.after)
    (hrec : recovers tr = true)
    (hretries : tr.before.contextLimitRetries < MAX_CONTEXT_LIMIT_RETRIES) :
    (tr.before.place = .streaming ∧ tr.after.place = .head) ∨
      ∃ request, tr.before.place = .opening request false ∧
        tr.after.place = Turn.afterFailedOpening loop request := by
  obtain ⟨t, e, t'⟩ := tr
  dsimp only at h hretries ⊢
  -- the counter is within the limit, so the turn has not ended
  have hgoes : ∀ {s error resume}, (t.agent.tryAutoCompactAfterContextLimit s error).2 = true →
      (∀ result, resume ≠ .ended result) → (t.fail s error resume).place = resume := by
    intro s error resume hyes hresume
    rcases hrun : t.agent.tryAutoCompactAfterContextLimit s error with ⟨agent, recovered⟩
    rw [hrun] at hyes
    obtain rfl : recovered = true := hyes
    rw [Turn.fail, hrun]
    dsimp only
    rw [if_neg (not_lt.mpr hretries)]
  cases e with
  | poll outcome =>
      cases outcome with
      | failed error s =>
          cases hplace : t.place with
          | opening request completed =>
              cases completed with
              | true => simp [recovers, hplace] at hrec
              | false =>
                  simp only [step, hplace] at h
                  obtain rfl := Option.some.inj h
                  refine .inr ⟨request, rfl, hgoes ?_ ?_⟩
                  · simpa [recovers, hplace] using hrec
                  · cases loop <;> simp [Turn.afterFailedOpening]
          | _ => simp [recovers, hplace] at hrec
      | _ => simp [recovers] at hrec
  | broke error s =>
      cases hplace : t.place with
      | streaming =>
          simp only [step, hplace] at h
          obtain rfl := Option.some.inj h
          exact .inl ⟨rfl, hgoes (by simpa [recovers, hplace] using hrec) (by simp)⟩
      | _ => simp [recovers, hplace] at hrec
  | _ => simp [recovers] at hrec

/-! ### Calls that have completed -/

/-- The turn does not wait on a call whose future has completed. -/
def Unfinished (t : Turn) : Prop := ∀ request, t.place ≠ .opening request true

theorem Unfinished.not_repolls (h : Unfinished tr.before) : repolls tr = false := by
  rw [repolls]
  split
  · next request _ hplace => exact absurd hplace (h request)
  · rfl

/-- A failed call is waited on again when it is recovered from in the loop around `select!`. -/
def Stuck (loop : Loop) (tr : Transition Turn Event) : Prop :=
  loop = .runTurnStreamingMpsc ∧ (∃ request, tr.before.place = .opening request false) ∧
    recovers tr = true ∧ tr.before.contextLimitRetries < MAX_CONTEXT_LIMIT_RETRIES

theorem Unfinished.step (hopen : Unfinished t) (h : Retry.step loop t e = some t')
    (hstuck : ¬ Stuck loop ⟨t, e, t'⟩) : Unfinished t' := by
  intro request' hplace'
  have hfail : ∀ {s error resume}, (t.fail s error resume).place = .opening request' true →
      (t.agent.tryAutoCompactAfterContextLimit s error).2 = true ∧
        t.contextLimitRetries < MAX_CONTEXT_LIMIT_RETRIES ∧ resume = .opening request' true := by
    intro s error resume hplace
    rcases hrun : t.agent.tryAutoCompactAfterContextLimit s error with ⟨agent, recovered⟩
    rw [Turn.fail, hrun] at hplace
    cases recovered with
    | false => cases hplace
    | true =>
        dsimp only at hplace
        split at hplace
        · cases hplace
        · next hmax => exact ⟨rfl, Nat.lt_of_succ_le (not_lt.mp hmax), hplace⟩
  cases e with
  | build repair s during inject =>
      cases hplace : t.place with
      | head =>
          simp only [Retry.step, hplace] at h
          obtain rfl := Option.some.inj h
          cases hplace'
      | _ => simp [Retry.step, hplace] at h
  | poll outcome =>
      cases hplace : t.place with
      | opening request completed =>
          cases completed with
          | true => exact hopen request hplace
          | false =>
              cases outcome with
              | pending =>
                  simp only [Retry.step, hplace] at h
                  obtain rfl := Option.some.inj h
                  exact hopen request' hplace'
              | opened =>
                  simp only [Retry.step, hplace] at h
                  obtain rfl := Option.some.inj h
                  cases hplace'
              | failed error s =>
                  simp only [Retry.step, hplace] at h
                  obtain rfl := Option.some.inj h
                  obtain ⟨hyes, hretries, hresume⟩ := hfail hplace'
                  cases loop with
                  | runTurn => cases hresume
                  | runTurnStreamingMpsc =>
                      refine hstuck ⟨rfl, ⟨request, hplace⟩, ?_, hretries⟩
                      simpa [recovers, hplace] using hyes
      | _ => simp [Retry.step, hplace] at h
  | tick =>
      obtain rfl : t' = t := by
        cases loop <;> cases hplace : t.place <;> simp_all [Retry.step]
      exact hopen request' hplace'
  | shutdown =>
      obtain rfl : t' = { t with place := .ended (.ok ()) } := by
        cases loop <;> cases hplace : t.place <;> simp_all [Retry.step]
      cases hplace'
  | received effect =>
      cases hplace : t.place with
      | streaming =>
          simp only [Retry.step, hplace] at h
          obtain rfl := Option.some.inj h
          cases hplace'
      | _ => simp [Retry.step, hplace] at h
  | broke error s =>
      cases hplace : t.place with
      | streaming =>
          simp only [Retry.step, hplace] at h
          obtain rfl := Option.some.inj h
          obtain ⟨-, -, hresume⟩ := hfail hplace'
          cases hresume
      | _ => simp [Retry.step, hplace] at h
  | responded cancelled effect next =>
      cases hplace : t.place with
      | streaming =>
          simp only [Retry.step, hplace] at h
          obtain rfl := Option.some.inj h
          cases next <;> cases hplace'
      | _ => simp [Retry.step, hplace] at h

/-- **A recovery leads to a new call, exactly** where no call that fails in the loop around
`select!` is recovered from within the limit. -/
theorem reissued_iff {agent : Agent} {ts : List (Transition Turn Event)}
    (run : Run (step loop) (.start agent) ts t) :
    Reissued loop ts ↔ ∀ tr ∈ ts, ¬ Stuck loop tr := by
  constructor
  · rintro h tr htr ⟨rfl, ⟨request, hplace⟩, hrec, hretries⟩
    have hreissues := (h tr htr).2 hrec hretries
    obtain ⟨hstreaming, -⟩ | ⟨request', -, hafter⟩ :=
      recovered_place (run.step_of_mem htr) hrec hretries
    · rw [hplace] at hstreaming
      cases hstreaming
    · exact not_reissues_of_opening hafter hreissues
  · intro hstuck tr htr
    have hunfinished : Unfinished tr.before :=
      run.before_of (fun tr htr hstep hopen => hopen.step hstep (hstuck tr htr))
        (fun request h => by cases h) htr
    refine ⟨hunfinished.not_repolls, fun hrec hretries => ?_⟩
    obtain ⟨-, hafter⟩ | ⟨request, hbefore, hafter⟩ :=
      recovered_place (run.step_of_mem htr) hrec hretries
    · exact reissues_of_head hafter
    · cases loop with
      | runTurn => exact reissues_of_head hafter
      | runTurnStreamingMpsc =>
          exact absurd ⟨rfl, ⟨request, hbefore⟩, hrec, hretries⟩ (hstuck tr htr)

theorem reissued_iff_brokenStream : ∃ ts t,
    Run (step .runTurnStreamingMpsc) (.start longTalk) ts t ∧
    ts.map Transition.event = brokenStream ∧
    (Reissued .runTurnStreamingMpsc ts ↔ ∀ tr ∈ ts, ¬ Stuck .runTurnStreamingMpsc tr) := by
  have hobserved : (exec (step .runTurnStreamingMpsc) (.start longTalk) brokenStream).map
      (fun r => r.2.contextLimitRetries) = some 1 := by
    decide +kernel
  obtain ⟨ts, t, run, hevents, -⟩ := Run.of_observed hobserved
  exact ⟨ts, t, run, hevents, reissued_iff run⟩

/-! ### A call that fails -/

/-- A call that fails, and is polled again. -/
def failedCall : List Event :=
  [.build id plainSurroundings none fun a => (a, []),
    .poll (.failed "prompt is too long" plainSurroundings), .tick, .poll .pending]

/-- **A completed call is polled again**, after a recovery, and the turn panics. -/
theorem failed_call_polled_again : ∃ ts t,
    Run (step .runTurnStreamingMpsc) (.start longTalk) ts t ∧
    ts.map Transition.event = failedCall ∧ t.place = .panicked ∧
    t.agent.manager.compactedCount = 2 ∧ ¬ Reissued .runTurnStreamingMpsc ts := by
  have hobserved : (exec (step .runTurnStreamingMpsc) (.start longTalk) failedCall).map (fun r =>
      (match r.2.place with | .panicked => true | _ => false, r.2.agent.manager.compactedCount,
        r.1.any repolls)) = some (true, 2, true) := by
    decide +kernel
  obtain ⟨ts, t, run, hevents, hfacts⟩ := Run.of_observed hobserved
  obtain ⟨hplace, hfacts⟩ := Prod.mk.inj hfacts
  obtain ⟨hcount, hany⟩ := Prod.mk.inj hfacts
  refine ⟨ts, t, run, hevents, ?_, hcount, fun h => ?_⟩
  · dsimp only at hplace
    split at hplace
    · assumption
    · cases hplace
  · obtain ⟨tr, htr, hrepolls⟩ := List.any_eq_true.mp hany
    rw [(h tr htr).1] at hrepolls
    cases hrepolls

end Jcode.Retry
