import Jcode.Mutation.Answers

/-!
# Mutation — the replay window

A final response is replayed as long as its record is fresh.  The age of a record counts from its
creation, before its execution, so the window that opens when an execution finishes may be short,
or empty.

* `file_of_step`: who writes the file of a key.
* `replayed_in_window_iff`: the requests within `FINAL_STATE_TTL` of the end of an execution are
  answered from its record, exactly when they are within it of the creation of the record, and
  nobody wrote the file since.
* `slow_execution_repeated`: a request that comes right after a slow execution executes again.
-/

namespace Jcode.Mutation
open Rust Runs

/-! ### The file of a key -/

section Requests
variable (request : ℕ → Request)

/-- The step writes a record without a final response to the file of the key, or removes it. -/
def rewrites (key : String) : Event → Bool
  | .dropStale i | .createPending i _ => (request i).key == key
  | _ => false

/-- The step writes a final response to the file of the key. -/
def finishes (key : String) : Event → Bool
  | .persistFinal i _ => (request i).key == key
  | _ => false

variable {request} {files₀ : Files} {s s' : State} {e : Event}

/-- The files after a step. -/
theorem step_files (h : step request s e = some s') :
    s'.files = match e with
      | .dropStale i => s.files.remove (request i).key
      | .createPending i nowMs => saveState ((request i).pendingState nowMs) s.files
      | .persistFinal i response =>
          match s.phase i with
          | .executing state => saveState { state with finalResponse := some response } s.files
          | _ => s.files
      | _ => s.files := by
  cases e with
  | call i =>
      simp only [step] at h
      split at h
      · cases h
        rfl
      · cases h
  | check i nowMs =>
      simp only [step] at h
      split at h
      · cases h
        rfl
      · cases h
  | dropStale i =>
      simp only [step] at h
      split at h
      · cases h
        rfl
      · cases h
        rfl
      · cases h
  | register i =>
      simp only [step, joinOrClaim] at h
      split at h
      · cases h
        rfl
      · split at h
        · cases h
          rfl
        · cases h
          rfl
      · cases h
  | readPending i nowMs =>
      simp only [step] at h
      split at h
      · split at h
        · cases h
          rfl
        · cases h
          rfl
        · cases h
          rfl
      · cases h
  | createPending i nowMs =>
      simp only [step] at h
      split at h
      · cases h
        rfl
      · cases h
  | persistFinal i response =>
      simp only [step] at h
      split at h
      · rename_i hi
        cases h
        simp only [hi]
      · cases h
  | drain i =>
      simp only [step] at h
      split at h
      · cases h
        rfl
      · cases h
  | send executor =>
      simp only [step] at h
      split at h
      · cases h
      · cases h
        rfl

/-- Nobody else writes the file. -/
theorem file_of_step (law : Law request files₀ s) (h : step request s e = some s') {key : String}
    (hrewrites : rewrites request key e = false) (hfinishes : finishes request key e = false) :
    s'.files.states.get key = s.files.states.get key := by
  rw [step_files h]
  cases e with
  | dropStale i =>
      have hne : key ≠ (request i).key := fun heq => by simp [rewrites, heq] at hrewrites
      exact if_neg hne
  | createPending i nowMs =>
      have hne : key ≠ (request i).key := fun heq => by simp [rewrites, heq] at hrewrites
      exact if_neg hne
  | persistFinal i response =>
      dsimp only
      split
      · rename_i state hi
        have hkey : state.key = (request i).key := law.keys i state (by rw [hi]; rfl)
        have hne : key ≠ state.key := fun heq => by
          simp [finishes, heq, hkey] at hfinishes
        exact if_neg hne
      · rfl
  | _ => rfl

/-- A rewritten file has no final response. -/
theorem not_final_of_rewrites (h : step request s e = some s') {key : String}
    (hrewrites : rewrites request key e = true) {state : PersistedSwarmMutationState}
    (hfile : s'.files.states.get key = some state) : state.finalResponse = none := by
  rw [step_files h] at hfile
  cases e with
  | dropStale i =>
      have heq : (request i).key = key := by simpa [rewrites] using hrewrites
      subst heq
      simp [Files.remove, StrMap.get_remove] at hfile
  | createPending i nowMs =>
      have heq : (request i).key = key := by simpa [rewrites] using hrewrites
      subst heq
      have hstate : some ((request i).pendingState nowMs) = some state :=
        (StrMap.get_insert_self _ _ _).symm.trans hfile
      cases hstate
      rfl
  | _ => cases hrewrites

/-- The file that the end of an execution writes. -/
theorem file_of_finish (law : Law request files₀ s) {i : ℕ}
    {response : PersistedSwarmMutationResponse}
    (h : step request s (.persistFinal i response) = some s') :
    ∃ state, s.phase i = .executing state ∧
      s'.files.states.get (request i).key = some { state with finalResponse := some response } := by
  have hfiles := step_files h
  simp only [step] at h
  split at h
  · rename_i state hi
    refine ⟨state, hi, ?_⟩
    simp only [hi] at hfiles
    rw [hfiles, ← law.keys i state (by rw [hi]; rfl)]
    exact StrMap.get_insert_self _ _ _
  · cases h

variable {ts : List (Transition State Event)} {key : String}

/-- The file of a key is kept while nobody writes it. -/
theorem file_of_run (law : Law request files₀ s) (run : Run (step request) s ts s')
    (hts : ∀ t ∈ ts, rewrites request key t.event = false ∧ finishes request key t.event = false) :
    s'.files.states.get key = s.files.states.get key := by
  have hkeep := run.preserves
    (P := fun s₁ => Law request files₀ s₁ ∧ s₁.files.states.get key = s.files.states.get key)
    (fun t ht h ⟨hlaw, hfile⟩ =>
      ⟨hlaw.step h, (file_of_step hlaw h (hts t ht).1 (hts t ht).2).trans hfile⟩) ⟨law, rfl⟩
  exact hkeep.2

/-- A rewritten file has no final response until an execution finishes. -/
theorem not_final_of_run (law : Law request files₀ s) (run : Run (step request) s ts s')
    (hfinishes : ∀ t ∈ ts, finishes request key t.event = false)
    (hrewrites : ∃ t ∈ ts, rewrites request key t.event = true)
    {state : PersistedSwarmMutationState} (hfile : s'.files.states.get key = some state) :
    state.finalResponse = none := by
  obtain ⟨t, ht, hrewrite⟩ := hrewrites
  obtain ⟨us, vs, rfl⟩ := List.append_of_mem ht
  obtain ⟨hbefore, hstep, hafter⟩ := run.split_at
  have hlaw : Law request files₀ t.before := hbefore.preserves (fun _ _ h law => law.step h) law
  have hkeep := hafter.preserves
    (P := fun s₁ => Law request files₀ s₁ ∧
      ∀ state, s₁.files.states.get key = some state → state.finalResponse = none)
    (fun u hu h ⟨hlaw, hnone⟩ => by
      refine ⟨hlaw.step h, fun state hfile => ?_⟩
      cases hu' : rewrites request key u.event with
      | true => exact not_final_of_rewrites h hu' hfile
      | false =>
          rw [file_of_step hlaw h hu' (hfinishes u (by simp [hu]))] at hfile
          exact hnone state hfile)
    ⟨hlaw.step hstep, fun state hfile => not_final_of_rewrites hstep hrewrite hfile⟩
  exact hkeep.2 state hfile

/-! ### Answers from a record -/

variable (request) in
/-- The request has found the response, or has been answered with it. -/
def AnsweredFrom (i : ℕ) (response : PersistedSwarmMutationResponse) (s : State) : Prop :=
  s.phase i = .checked (some response) ∨
    s.phase i = .replayed ∧
      s.responses i = [response.intoServerEvent (request i).requestId (request i).sessionId]

/-- What a request finds. -/
theorem check_finds {i nowMs : ℕ} (hreplay : (request i).replayFinal = true)
    (h : step request s (.check i nowMs) = some s') :
    s'.phase i = match loadState nowMs (request i).key s.files with
      | .absent => .checked none
      | .stale => .dropping
      | .state state => .checked state.finalResponse := by
  simp only [step, hreplay, if_true] at h
  split at h
  · cases h
    exact Function.update_self _ _ _
  · cases h

/-- A request that is still at its check has no answer. -/
theorem Law.responses_of_checked (law : Law request files₀ s) {i : ℕ}
    {found : Option PersistedSwarmMutationResponse} (hi : s.phase i = .checked found) :
    s.responses i = [] := by
  refine List.eq_nil_iff_forall_not_mem.mpr fun event hevent => ?_
  rcases law.sent i event (mem_responses.mp hevent) with ⟨hphase, -⟩ | ⟨e, rfl | hphase, hserves⟩
  · rw [hi] at hphase
    cases hphase
  · obtain ⟨state, response, hphase, -⟩ := hserves
    rw [hi] at hphase
    cases hphase
  · rw [hi] at hphase
    cases hphase

/-- An answer stands. -/
theorem AnsweredFrom.step {i : ℕ} {response : PersistedSwarmMutationResponse}
    (ha : AnsweredFrom request i response s) (law : Law request files₀ s)
    (h : step request s e = some s') : AnsweredFrom request i response s' := by
  rcases ha with hi | ⟨hi, hresponses⟩
  · have hother : ∀ {j : ℕ} {phase : Phase}, s.phase j ≠ s.phase i →
        Function.update s.phase j phase i = .checked (some response) := by
      intro j phase hne
      rw [Function.update_of_ne fun heq => hne (congrArg s.phase heq.symm)]
      exact hi
    rcases step_cases h with ⟨j, -, hj, rfl⟩ | effect
    · exact .inl (hother (by simp [hi, hj]))
    · cases effect with
      | check hj => exact .inl (hother (by simp [hi, hj]))
      | @advance j phase files hadv =>
          refine .inl (hother fun heq => ?_)
          rw [heq, hi] at hadv
          cases hadv
      | @replay j other hj =>
          by_cases hji : j = i
          · subst hji
            cases hj.symm.trans hi
            refine .inr ⟨Function.update_self _ _ _, ?_⟩
            rw [responses_append rfl, law.responses_of_checked hi]
            rfl
          · exact .inl ((Function.update_of_ne (Ne.symm hji) _ _).trans hi)
      | join hj => exact .inl (hother (by simp [hi, hj]))
      | claim hj => exact .inl (hother (by simp [hi, hj]))
      | drain hj => exact .inl (hother (by simp [hi, hj]))
      | send hj => exact .inl hi
  · have hkeep := phase_of_rank_zero h (i := i) (by rw [hi]; rfl)
    have hlength := (law.step h).deduplicated.one_response i
    have hpre : s.responses i <+: s'.responses i := by
      rcases step_cases h with ⟨j, -, -, rfl⟩ | effect
      · exact List.prefix_refl _
      · exact (effect.sent_prefix.filter _).map _
    have heq : s.responses i = s'.responses i :=
      hpre.eq_of_length_le (by rw [hresponses]; exact hlength)
    exact .inr ⟨hkeep.trans hi, heq.symm.trans hresponses⟩

/-! ### The window -/

/-- The time a step reads. -/
def Event.nowMs : Event → Option ℕ
  | .check _ nowMs | .readPending _ nowMs | .createPending _ nowMs => some nowMs
  | _ => none

variable (request) in
/-- A run whose steps are made at times that never go back. -/
structure TimedRun (s : State) (us : List (ℕ × Transition State Event)) (s' : State) : Prop where
  run : Run (step request) s (us.map Prod.snd) s'
  monotone : (us.map Prod.fst).Pairwise (· ≤ ·)
  reads : ∀ u ∈ us, ∀ nowMs, u.2.event.nowMs = some nowMs → nowMs = u.1

variable (request) in
/-- A request that replays, within `FINAL_STATE_TTL` of the last execution of its key to finish. -/
structure Window (us : List (ℕ × Transition State Event)) where
  before : List (ℕ × Transition State Event)
  finish : ℕ × Transition State Event
  between : List (ℕ × Transition State Event)
  check : ℕ × Transition State Event
  after : List (ℕ × Transition State Event)
  split : us = before ++ finish :: (between ++ check :: after)
  executor : ℕ
  response : PersistedSwarmMutationResponse
  finish_event : finish.2.event = .persistFinal executor response
  i : ℕ
  nowMs : ℕ
  check_event : check.2.event = .check i nowMs
  replayFinal : (request i).replayFinal = true
  same_key : (request i).key = (request executor).key
  last : ∀ u ∈ between, finishes request (request i).key u.2.event = false
  within : nowMs < finish.1 + FINAL_STATE_TTL

variable {us : List (ℕ × Transition State Event)}

/-- The request is answered from the response of the execution, and never executes. -/
def Window.Answered (w : Window request us) : Prop :=
  ∀ u ∈ w.check :: w.after, AnsweredFrom request w.i w.response u.2.after

/-- The record of the execution was created no longer than `FINAL_STATE_TTL` ago, and nobody rewrote
or removed it since the execution finished. -/
def Window.Fresh (w : Window request us) : Prop :=
  ∃ state, w.finish.2.before.phase w.executor = .executing state ∧
    w.nowMs - state.createdAtUnixMs ≤ FINAL_STATE_TTL ∧
    ∀ u ∈ w.between, rewrites request (request w.i).key u.2.event = false

theorem isStale_final {nowMs : ℕ} (state : PersistedSwarmMutationState)
    (response : PersistedSwarmMutationResponse) :
    isStale nowMs { state with finalResponse := some response } = false ↔
      nowMs - state.createdAtUnixMs ≤ FINAL_STATE_TTL := by
  simp [isStale, elapsedExceeds]

variable (request s) in
/-- A timed run with what is observed of its steps and at its end, from its execution. -/
theorem TimedRun.of_observed {β γ : Type*} (g : Transition State Event → β) (f : State → γ)
    (obs : List (ℕ × Event × β)) (c : γ)
    (h : (exec (step request) s (obs.map fun x => x.2.1)).map (fun r => (r.1.map g, f r.2)) =
      some (obs.map fun x => x.2.2, c))
    (hmonotone : (obs.map Prod.fst).Pairwise (· ≤ ·))
    (hreads : ∀ x ∈ obs, ∀ nowMs, x.2.1.nowMs = some nowMs → nowMs = x.1) :
    ∃ us s', TimedRun request s us s' ∧ us.map (fun u => (u.1, u.2.event, g u.2)) = obs ∧
      f s' = c := by
  obtain ⟨ts, s', run, hevents, hobs⟩ := Run.of_observed h
  obtain ⟨hg, hf⟩ := Prod.mk.inj hobs
  have hlength : (obs.map Prod.fst).length = ts.length := by
    rw [List.length_map, ← List.length_map (f := Transition.event), hevents, List.length_map]
  have hfst : ((obs.map Prod.fst).zip ts).map Prod.fst = obs.map Prod.fst :=
    List.map_fst_zip hlength.le
  have hsnd : ((obs.map Prod.fst).zip ts).map Prod.snd = ts := List.map_snd_zip hlength.ge
  have hsteps : ts.map (fun t => (t.event, g t)) = obs.map Prod.snd := by
    rw [← List.zip_map', hevents, hg, List.zip_map']
  have hall : ((obs.map Prod.fst).zip ts).map (fun u => (u.1, u.2.event, g u.2)) = obs := by
    calc ((obs.map Prod.fst).zip ts).map (fun u => (u.1, u.2.event, g u.2))
        = (obs.map Prod.fst).zip (ts.map fun t => (t.event, g t)) := by
          rw [List.zip_map_right]
          rfl
      _ = obs := by rw [hsteps, List.zip_map', List.map_id']
  refine ⟨(obs.map Prod.fst).zip ts, s', ⟨hsnd.symm ▸ run, hfst.symm ▸ hmonotone, ?_⟩, hall, hf⟩
  intro u hu nowMs hnow
  have hmem : (u.1, u.2.event, g u.2) ∈ obs := by
    rw [← hall]
    exact List.mem_map_of_mem hu
  exact hreads _ hmem nowMs hnow

variable (request) in
/-- The window of two events of a timed run, with what is observed of them. -/
theorem exists_window {β : Type*} (g : Transition State Event → β)
    {l₁ l₂ l₃ : List (ℕ × Event × β)} {t t' executor i nowMs : ℕ}
    {response : PersistedSwarmMutationResponse} {b b' : β}
    (h : us.map (fun u => (u.1, u.2.event, g u.2)) =
      l₁ ++ (t, .persistFinal executor response, b) :: (l₂ ++ (t', .check i nowMs, b') :: l₃))
    (hreplay : (request i).replayFinal = true) (hkey : (request i).key = (request executor).key)
    (hlast : ∀ x ∈ l₂, finishes request (request i).key x.2.1 = false)
    (hwithin : nowMs < t + FINAL_STATE_TTL) :
    ∃ w : Window request us, w.executor = executor ∧ w.i = i ∧ w.nowMs = nowMs ∧
      g w.finish.2 = b ∧ g w.check.2 = b' ∧
      w.between.map (fun u => u.2.event) = l₂.map fun x => x.2.1 := by
  obtain ⟨before, rest, hsplit, -, hrest⟩ := List.map_eq_append_iff.mp h
  obtain ⟨finish, rest', rfl, hfinish, hrest'⟩ := List.map_eq_cons_iff.mp hrest
  obtain ⟨between, last, rfl, rfl, hlast'⟩ := List.map_eq_append_iff.mp hrest'
  obtain ⟨check, after, rfl, hcheck, -⟩ := List.map_eq_cons_iff.mp hlast'
  simp only [Prod.mk.injEq] at hfinish hcheck
  refine ⟨⟨before, finish, between, check, after, hsplit, executor, response, hfinish.2.1, i, nowMs,
    hcheck.2.1, hreplay, hkey, fun u hu => ?_, hfinish.1 ▸ hwithin⟩, rfl, rfl, rfl, hfinish.2.2,
    hcheck.2.2, ?_⟩
  · exact hlast (u.1, u.2.event, g u.2) (List.mem_map_of_mem hu)
  · rw [List.map_map]
    rfl

/-- What the request finds is the response of the execution, when the record is fresh. -/
theorem Window.check_iff (w : Window request us) (run : TimedRun request (State.init files₀) us s) :
    w.check.2.after.phase w.i = .checked (some w.response) ↔ w.Fresh := by
  have hrun := run.run
  rw [w.split, List.map_append, List.map_cons, List.map_append, List.map_cons] at hrun
  obtain ⟨hbefore, hfinish, hrest⟩ := hrun.split_at
  obtain ⟨hbetween, hcheck, -⟩ := hrest.split_at
  rw [w.finish_event] at hfinish
  rw [w.check_event] at hcheck
  have law := law_of_run hbefore
  obtain ⟨state, hstate, hfile⟩ := file_of_finish law hfinish
  rw [← w.same_key] at hfile
  have hlast : ∀ t ∈ w.between.map Prod.snd,
      finishes request (request w.i).key t.event = false := by
    intro t ht
    obtain ⟨u, hu, rfl⟩ := List.mem_map.mp ht
    exact w.last u hu
  rw [check_finds w.replayFinal hcheck]
  by_cases hkept : ∀ u ∈ w.between, rewrites request (request w.i).key u.2.event = false
  · -- the record of the execution is still there
    have hsame := file_of_run (law.step hfinish) hbetween fun t ht => by
      refine ⟨?_, hlast t ht⟩
      obtain ⟨u, hu, rfl⟩ := List.mem_map.mp ht
      exact hkept u hu
    rw [loadState, hsame, hfile]
    dsimp only
    cases hstale : isStale w.nowMs { state with finalResponse := some w.response } with
    | true =>
        refine ⟨fun h => (by cases h), ?_⟩
        rintro ⟨state', hstate', hage, -⟩
        cases hstate.symm.trans hstate'
        rw [(isStale_final state w.response).mpr hage] at hstale
        cases hstale
    | false =>
        refine ⟨fun _ => ⟨state, hstate, (isStale_final state w.response).mp hstale, hkept⟩, ?_⟩
        exact fun _ => rfl
  · -- another record is, without a final response
    refine ⟨fun hfound => ?_, fun hfresh => absurd hfresh.choose_spec.2.2 hkept⟩
    push Not at hkept
    obtain ⟨u, hu, hrewrite⟩ := hkept
    have hnone : ∀ state, w.check.2.before.files.states.get (request w.i).key = some state →
        state.finalResponse = none := fun _ =>
      not_final_of_run (law.step hfinish) hbetween hlast
        ⟨u.2, List.mem_map_of_mem hu, by simpa using hrewrite⟩
    rw [loadState] at hfound
    cases hget : w.check.2.before.files.states.get (request w.i).key with
    | none =>
        rw [hget] at hfound
        cases hfound
    | some other =>
        rw [hget] at hfound
        cases hstale : isStale w.nowMs other with
        | true => simp [hstale] at hfound
        | false => simp [hstale, hnone other hget] at hfound

/-- **The replay window.**  A request within `FINAL_STATE_TTL` of the end of an execution is
answered from its record exactly when it is within it of the creation of the record, and nobody
wrote the file since. -/
theorem replayed_in_window_iff (run : TimedRun request (State.init files₀) us s)
    (w : Window request us) : w.Answered ↔ w.Fresh := by
  rw [← w.check_iff run]
  have hrun := run.run
  rw [w.split, List.map_append, List.map_cons, List.map_append, List.map_cons] at hrun
  obtain ⟨hbefore, hfinish, hrest⟩ := hrun.split_at
  obtain ⟨hbetween, hcheck, hafter⟩ := hrest.split_at
  have law : Law request files₀ w.check.2.before :=
    hbetween.preserves (fun _ _ h law => law.step h) ((law_of_run hbefore).step hfinish)
  refine ⟨fun h => ?_, fun h u hu => ?_⟩
  · rcases h w.check List.mem_cons_self with hfound | ⟨hreplayed, -⟩
    · exact hfound
    · rw [w.check_event] at hcheck
      rw [check_finds w.replayFinal hcheck] at hreplayed
      split at hreplayed
      · cases hreplayed
      · cases hreplayed
      · cases hreplayed
  · -- the answer stands from the check on
    have hkeep : ∀ t ∈ w.after.map Prod.snd, step request t.before t.event = some t.after →
        (Law request files₀ t.before ∧ AnsweredFrom request w.i w.response t.before) →
          Law request files₀ t.after ∧ AnsweredFrom request w.i w.response t.after :=
      fun t _ h ⟨hlaw, ha⟩ => ⟨hlaw.step h, ha.step hlaw h⟩
    rcases List.mem_cons.mp hu with rfl | hu
    · exact .inl h
    · have hmem := List.mem_map_of_mem (f := Prod.snd) hu
      have hat := hafter.before_of
        (P := fun s => Law request files₀ s ∧ AnsweredFrom request w.i w.response s) hkeep
        ⟨law.step hcheck, .inl h⟩ hmem
      exact (hkeep _ hmem (hafter.step_of_mem hmem) hat).2

end Requests

/-! ### A quick execution, and a slow one -/

/-- The record of an execution that began at 0. -/
def spawnRecord : PersistedSwarmMutationState where
  key := "k"
  action := "spawn"
  sessionId := "coord"
  createdAtUnixMs := 0

/-- The first request executes at once, and the second comes ten seconds after it. -/
def quickExecution : List (ℕ × Event × Phase) :=
  ([(0, .call 0, .idle), (0, .check 0 0, .waiting), (0, .register 0, .checked none),
    (0, .readPending 0 0, .claimed), (0, .createPending 0 0, .creating)] :
      List (ℕ × Event × Phase)) ++
    (0, .persistFinal 0 (.spawn "w"), .executing spawnRecord) ::
    (([(0, .drain 0, .persisted { spawnRecord with finalResponse := some (.spawn "w") } (.spawn "w")),
        (0, .send 0, .finished { spawnRecord with finalResponse := some (.spawn "w") } (.spawn "w")),
        (10000, .call 1,
          .finished { spawnRecord with finalResponse := some (.spawn "w") } (.spawn "w"))] :
            List (ℕ × Event × Phase)) ++
      (10000, .check 1 10000,
        .finished { spawnRecord with finalResponse := some (.spawn "w") } (.spawn "w")) ::
      [(10000, .register 1,
        .finished { spawnRecord with finalResponse := some (.spawn "w") } (.spawn "w"))])

theorem replayed_in_window_iff_quickExecution :
    ∃ us s', TimedRun spawnRequest (State.init .empty) us s' ∧
      ∃ w : Window spawnRequest us, w.Fresh ∧ w.Answered := by
  obtain ⟨us, s', run, hobs, -⟩ := TimedRun.of_observed spawnRequest (State.init .empty)
    (fun t => t.before.phase 0) (fun s => s.phase 1) quickExecution .replayed
    (by decide +kernel) (by decide) (by decide)
  rw [quickExecution] at hobs
  obtain ⟨w, hexecutor, hi, hnow, hphase, -, hbetween⟩ :=
    exists_window spawnRequest (fun t => t.before.phase 0) hobs rfl rfl (by decide) (by decide)
  have hkept : ∀ e ∈ w.between.map (fun u => u.2.event), rewrites spawnRequest "k" e = false := by
    rw [hbetween]
    decide
  have hfresh : w.Fresh := by
    refine ⟨spawnRecord, ?_, by rw [hnow]; decide, fun u hu => hkept _ (List.mem_map_of_mem hu)⟩
    rw [hexecutor]
    exact hphase
  exact ⟨us, s', run, w, hfresh, (replayed_in_window_iff run w).mpr hfresh⟩

/-- The first request executes for 31 seconds; the second comes right after. -/
def slowExecution : List (ℕ × Event × Phase) :=
  ([(0, .call 0, .idle), (0, .check 0 0, .idle), (0, .register 0, .idle),
    (0, .readPending 0 0, .idle), (0, .createPending 0 0, .idle)] : List (ℕ × Event × Phase)) ++
    (31000, .persistFinal 0 (.spawn "w"), .idle) ::
    (([(31000, .drain 0, .idle), (31000, .send 0, .idle), (31000, .call 1, .waiting)] :
      List (ℕ × Event × Phase)) ++
      (31001, .check 1 31001, .dropping) ::
      [(31001, .dropStale 1, .checked none), (31001, .register 1, .claimed),
        (31001, .readPending 1 31001, .creating),
        (31001, .createPending 1 31001,
          .executing { spawnRecord with createdAtUnixMs := 31001 })])

/-- **A repeated execution.**  A request that comes a millisecond after an execution of 31 seconds
finished finds its record stale, and executes again. -/
theorem slow_execution_repeated :
    ∃ us s', TimedRun spawnRequest (State.init .empty) us s' ∧
      (∃ w : Window spawnRequest us, w.nowMs = 31001 ∧ ¬ w.Answered) ∧ s'.executes 1 := by
  obtain ⟨us, s', run, hobs, hphase⟩ := TimedRun.of_observed spawnRequest (State.init .empty)
    (fun t => t.after.phase 1) (fun s => s.phase 1) slowExecution
    (.executing { spawnRecord with createdAtUnixMs := 31001 })
    (by decide +kernel) (by decide) (by decide)
  rw [slowExecution] at hobs
  obtain ⟨w, -, hi, hnow, -, hdropping, -⟩ :=
    exists_window spawnRequest (fun t => t.after.phase 1) hobs rfl rfl (by decide) (by decide)
  refine ⟨us, s', run, ⟨w, hnow, fun h => ?_⟩, by rw [State.executes, hphase]; rfl⟩
  have hanswered := h w.check List.mem_cons_self
  rw [AnsweredFrom, hi, hdropping] at hanswered
  rcases hanswered with hfound | ⟨hreplayed, -⟩
  · cases hfound
  · cases hreplayed

end Jcode.Mutation
