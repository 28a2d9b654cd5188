import Jcode.Await.Members
import Jcode.Support.Runs

/-!
# Await — no waiter is orphaned

The waiters and the active flag are behind two locks.  Whoever ends a wait takes the waiters, or finds
that none is left, under the one, and clears the flag under the other.  A request that registers
its waiter in between finds the flag set, and leaves its waiter to nobody.

* `step_cases`: what a step does.
* `waiters_attended`: at rest, every waiter has a watcher that will take it, as long as no waiter is
  registered in between; and a request has one response at most, always.
* `waiters_attended_failing`: a waiter that was registered in between.
-/

namespace Jcode.Await
open Rust Runs

/-! ### What a step does -/

section Steps
variable (awaited : Awaited) (request : ℕ → AwaitRequest)

/-- What a step does. -/
inductive Effect (s : World) : Event → World → Prop where
  | tick (ms : ℕ) : Effect s (.tick ms) { s with now := s.now + ms }
  | change (members : StrMap SwarmMember) (swarms : StrMap (List String)) :
      Effect s (.change members swarms) { s with members := members, swarms := swarms }
  | disconnect (i : ℕ) :
      Effect s (.disconnect i) { s with closed := Function.update s.closed i true }
  | load {i : ℕ} (h : s.handler i = .idle) :
      Effect s (.load i)
        { s.setHandler i (.loaded (loadState s.now s.file)) with file := loadState s.now s.file }
  | read {i : ℕ} {persisted : Option AwaitMembersState} (h : s.handler i = .loaded persisted) :
      Effect s (.read i) (readStep awaited s i persisted)
  | ensure {i : ℕ} {persisted : Option AwaitMembersState} {statuses : List AwaitedMemberStatus}
      (h : s.handler i = .prepared persisted statuses) :
      Effect s (.ensure i) (ensureStep request s i persisted statuses)
  | register {i : ℕ} {state : AwaitMembersState} {statuses : List AwaitedMemberStatus}
      (h : s.handler i = .joined state statuses false) (hb : (request i).background = false) :
      Effect s (.addWaiter i)
        { s.setHandler i (.registered state) with waiters := s.waiters ++ [i] }
  | expire {i : ℕ} {state : AwaitMembersState} {statuses : List AwaitedMemberStatus}
      (h : s.handler i = .joined state statuses true) (hb : (request i).background = false) :
      Effect s (.addWaiter i)
        { s.setHandler i (.finishing (.persist state false false (timeoutOutcome statuses))) with
          waiters := s.waiters ++ [i] }
  | markBackground {i : ℕ} {state : AwaitMembersState} {statuses : List AwaitedMemberStatus}
      {response : Response} (h : s.handler i = .joined state statuses false)
      (hb : (request i).background = true) (hr : response.backgroundStarted = true)
      (hc : response.outcome.completed = false) :
      Effect s (.markActive i) ((markStep s i state).respond i response)
  | mark {i : ℕ} {state : AwaitMembersState} (h : s.handler i = .registered state)
      (hb : (request i).background = false) : Effect s (.markActive i) (markStep s i state)
  | satisfied {i : ℕ} {state : AwaitMembersState} (h : s.watcher i = .looping state)
      (hs : satisfies awaited (s.statuses awaited) = true) :
      Effect s (.watch i) (s.setWatcher i (.finishing (.persist state true false
        (satisfiedOutcome awaited (s.statuses awaited)))))
  | unsatisfied {i : ℕ} {state : AwaitMembersState} (h : s.watcher i = .looping state) :
      Effect s (.watch i) (s.setWatcher i (.unsatisfied state (s.statuses awaited)))
  | prefs {i : ℕ} {state : AwaitMembersState} {statuses : List AwaitedMemberStatus}
      {watcher : Watcher} (h : s.watcher i = .unsatisfied state statuses)
      (hw : watcher = .waiting state statuses ∨ watcher = .retaining state statuses) :
      Effect s (.prefs i) { s.setWatcher i watcher with file := loadState s.now s.file }
  | stay {i : ℕ} {state : AwaitMembersState} {statuses : List AwaitedMemberStatus}
      (h : s.watcher i = .retaining state statuses)
      (hr : s.waiters.filter (fun j => !s.closed j) ≠ []) :
      Effect s (.retain i) { s.setWatcher i (.waiting state statuses) with
        waiters := s.waiters.filter fun j => !s.closed j }
  | leave {i : ℕ} {state : AwaitMembersState} {statuses : List AwaitedMemberStatus}
      (h : s.watcher i = .retaining state statuses)
      (hr : s.waiters.filter (fun j => !s.closed j) = []) :
      Effect s (.retain i) { s.setWatcher i (.finishing (.clear none)) with waiters := [] }
  | timeout {i : ℕ} {state : AwaitMembersState} {statuses : List AwaitedMemberStatus}
      (h : s.watcher i = .waiting state statuses) (hd : state.deadlineUnixMs ≤ s.now) :
      Effect s (.timeout i)
        (s.setWatcher i (.finishing (.persist state true false (timeoutOutcome statuses))))
  | wake {i : ℕ} {state : AwaitMembersState} {statuses : List AwaitedMemberStatus}
      (h : s.watcher i = .waiting state statuses) : Effect s (.wake i) (s.setWatcher i (.looping state))
  | finish {actor : Actor} {finish : Finish} (h : s.finish actor = some finish) :
      Effect s (.finish actor) (finishStep s actor finish)

variable {awaited request} {s s' : World} {e : Event}

theorem step_cases (h : step awaited request s e = some s') : Effect awaited request s e s' := by
  cases e with
  | tick ms =>
      cases h
      exact .tick ms
  | change members swarms =>
      cases h
      exact .change members swarms
  | disconnect i =>
      cases h
      exact .disconnect i
  | load i =>
      simp only [step] at h
      split at h
      · rename_i hi
        cases h
        exact .load hi
      · cases h
  | read i =>
      simp only [step] at h
      split at h
      · rename_i hi
        cases h
        exact .read hi
      · cases h
  | ensure i =>
      simp only [step] at h
      split at h
      · rename_i hi
        cases h
        exact .ensure hi
      · cases h
  | addWaiter i =>
      simp only [step] at h
      split at h
      · rename_i state statuses expired hi hb
        cases h
        cases expired with
        | true => exact .expire hi hb
        | false => exact .register hi hb
      · cases h
  | markActive i =>
      simp only [step] at h
      split at h
      · rename_i hi hb
        cases h
        exact .markBackground hi hb rfl rfl
      · rename_i hi hb
        cases h
        exact .mark hi hb
      · cases h
  | watch i =>
      simp only [step] at h
      split at h
      · rename_i hi
        split at h
        · rename_i hs
          cases h
          exact .satisfied hi hs
        · cases h
          exact .unsatisfied hi
      · cases h
  | prefs i =>
      simp only [step] at h
      split at h
      · rename_i hi
        cases h
        refine .prefs hi ?_
        split
        · exact .inl rfl
        · exact .inr rfl
      · cases h
  | retain i =>
      simp only [step] at h
      split at h
      · rename_i state statuses hi
        cases h
        by_cases hr : s.waiters.filter (fun j => !s.closed j) = []
        · rw [hr]
          exact .leave hi hr
        · rw [if_neg (mt List.isEmpty_iff.mp hr)]
          exact .stay hi hr
      · cases h
  | timeout i =>
      simp only [step] at h
      split at h
      · rename_i hi
        split at h
        · rename_i hd
          cases h
          exact .timeout hi hd
        · cases h
      · cases h
  | wake i =>
      simp only [step] at h
      split at h
      · rename_i hi
        cases h
        exact .wake hi
      · cases h
  | finish actor =>
      obtain ⟨finish, hfinish, rfl⟩ := Option.map_eq_some_iff.mp h
      exact .finish hfinish

/-- The request whose handler or watcher takes the step. -/
def Event.about : Event → Option ℕ
  | .tick _ | .change _ _ => none
  | .disconnect i | .load i | .read i | .ensure i | .addWaiter i | .markActive i | .watch i | .prefs i
  | .retain i | .timeout i | .wake i | .finish (.handler i) | .finish (.watcher i) => some i

/-- A step leaves the other requests. -/
theorem step_others (h : step awaited request s e = some s') {j : ℕ} (hj : e.about ≠ some j) :
    s'.handler j = s.handler j ∧ s'.watcher j = s.watcher j := by
  have hne : ∀ {i}, e.about = some i → j ≠ i := by
    rintro i hi rfl
    exact hj hi
  have effect := step_cases h
  cases effect with
  | tick _ | change _ _ | disconnect _ => exact ⟨rfl, rfl⟩
  | load _ | ensure _ | register _ _ | expire _ _ => exact ⟨Function.update_of_ne (hne rfl) _ _, rfl⟩
  | read _ =>
      unfold readStep
      dsimp only
      split
      · exact ⟨Function.update_of_ne (hne rfl) _ _, rfl⟩
      · exact ⟨Function.update_of_ne (hne rfl) _ _, rfl⟩
  | markBackground _ _ _ _ | mark _ _ =>
      unfold markStep
      split
      · exact ⟨Function.update_of_ne (hne rfl) _ _, rfl⟩
      · exact ⟨Function.update_of_ne (hne rfl) _ _, Function.update_of_ne (hne rfl) _ _⟩
  | satisfied _ _ | unsatisfied _ | prefs _ _ | stay _ _ | leave _ _ | timeout _ _ | wake _ =>
      exact ⟨rfl, Function.update_of_ne (hne rfl) _ _⟩
  | @finish actor finish _ =>
      cases actor with
      | handler i =>
          cases finish with
          | persist _ _ _ _ | take _ _ => exact ⟨Function.update_of_ne (hne rfl) _ _, rfl⟩
          | clear answer =>
              cases answer with
              | none | some _ => exact ⟨Function.update_of_ne (hne rfl) _ _, rfl⟩
      | watcher i =>
          cases finish with
          | persist _ _ _ _ | take _ _ | clear _ => exact ⟨rfl, Function.update_of_ne (hne rfl) _ _⟩

/-- A request that takes no step in a run stays where it was. -/
theorem run_others {ts : List (Transition World Event)} (run : Run (step awaited request) s ts s')
    {j : ℕ} (hj : ∀ t ∈ ts, t.event.about ≠ some j) :
    s'.handler j = s.handler j ∧ s'.watcher j = s.watcher j :=
  run.preserves (P := fun s₁ => s₁.handler j = s.handler j ∧ s₁.watcher j = s.watcher j)
    (fun t ht h hs => ⟨(step_others h (hj t ht)).1.trans hs.1, (step_others h (hj t ht)).2.trans hs.2⟩)
    ⟨rfl, rfl⟩

/-- Where one request alone takes steps, the others stay idle. -/
theorem idle_before {now : ℕ} {members : StrMap SwarmMember} {swarms : StrMap (List String)}
    {file : Option AwaitMembersState} {ts : List (Transition World Event)} {i : ℕ}
    (run : Run (step awaited request) (World.init now members swarms file) ts s)
    (habout : ∀ t ∈ ts, ∀ j, t.event.about = some j → j = i) {t : Transition World Event}
    (ht : t ∈ ts) {j : ℕ} (hj : j ≠ i) :
    t.before.handler j = .idle ∧ t.before.watcher j = .absent :=
  run.before_of (P := fun s => s.handler j = .idle ∧ s.watcher j = .absent)
    (fun u hu h hs => by
      obtain ⟨hhandler, hwatcher⟩ := step_others h fun heq => hj (habout u hu j heq)
      exact ⟨hhandler.trans hs.1, hwatcher.trans hs.2⟩)
    ⟨rfl, rfl⟩ ht

/-! ### Waiters -/

def Finish.clears : Finish → Bool
  | .clear _ => true
  | _ => false

def Handler.clears : Handler → Bool
  | .finishing finish => finish.clears
  | _ => false

def Watcher.clears : Watcher → Bool
  | .finishing finish => finish.clears
  | _ => false

/-- The request is not between two of its steps. -/
def Handler.atRest : Handler → Bool
  | .idle | .done => true
  | _ => false

/-- The watcher will look at the waiters again. -/
def Watcher.serves : Watcher → Bool
  | .absent | .exited => false
  | .finishing finish => !finish.clears
  | _ => true

/-- No waiter is registered while an actor has taken the waiters, or found none, and has not cleared
the flag yet. -/
def Unhurried (s : World) : Event → Prop
  | .addWaiter _ => (∀ i, (s.handler i).clears = false) ∧ ∀ i, (s.watcher i).clears = false
  | _ => True

/-- The key of every waiter with a client is active, and has a watcher that will serve it. -/
def Attended (s : World) : Prop :=
  ∀ j ∈ s.waiters, s.closed j = false → s.active = true ∧ ∃ k, (s.watcher k).serves = true

/-- Where the request of a waiter is. -/
def Placed (active : Bool) : Handler → Prop
  | .registered _ | .finishing _ => True
  | .done => active = true
  | _ => False

/-- The invariant of the waiters. -/
structure Served (s : World) : Prop where
  handlers : ∀ i, (s.handler i).clears = true → s.waiters = []
  watchers : ∀ i, (s.watcher i).clears = true → s.waiters = []
  watched : s.active = true → ∃ k, (s.watcher k).serves = true ∨ (s.watcher k).clears = true
  placed : ∀ j ∈ s.waiters, Placed s.active (s.handler j)

/-- A step that moves one handler and leaves the flag. -/
theorem Served.move {i : ℕ} {handler : Handler} (hs : Served s)
    (hh : s'.handler = Function.update s.handler i handler) (hw : s'.watcher = s.watcher)
    (hwaiters : s'.waiters = s.waiters) (hactive : s'.active = s.active)
    (hclears : handler.clears = true → s.waiters = [])
    (hplaced : i ∈ s.waiters → Placed s.active handler) : Served s' where
  handlers := by
    rw [hh, hwaiters, Function.forall_update_iff s.handler
      fun _ h => Handler.clears h = true → s.waiters = []]
    exact ⟨hclears, fun j _ => hs.handlers j⟩
  watchers := by
    rw [hw, hwaiters]
    exact hs.watchers
  watched := by
    rw [hw, hactive]
    exact hs.watched
  placed := by
    rw [hh, hwaiters, hactive]
    exact (Function.forall_update_iff s.handler
      fun j h => j ∈ s.waiters → Placed s.active h).mpr ⟨hplaced, fun j _ => hs.placed j⟩

/-- A step that moves one watcher that goes on serving. -/
theorem Served.watch {i : ℕ} {watcher : Watcher} (hs : Served s)
    (hh : s'.handler = s.handler) (hw : s'.watcher = Function.update s.watcher i watcher)
    (hwaiters : s'.waiters ⊆ s.waiters) (hactive : s'.active = s.active)
    (hserves : watcher.serves = true ∨ watcher.clears = true ∧ s'.waiters = []) : Served s' where
  handlers j hj := by
    rw [hh] at hj
    exact List.subset_nil.mp (hs.handlers j hj ▸ hwaiters)
  watchers := by
    rw [hw]
    refine (Function.forall_update_iff s.watcher
      fun _ w => Watcher.clears w = true → s'.waiters = []).mpr ⟨fun hclears => ?_, fun j _ hj => ?_⟩
    · rcases hserves with hserves | ⟨-, hnil⟩
      · cases watcher with
        | finishing finish =>
            simp only [Watcher.serves, Watcher.clears] at hserves hclears
            rw [hclears] at hserves
            cases hserves
        | _ => cases hclears
      · exact hnil
    · exact List.subset_nil.mp (hs.watchers j hj ▸ hwaiters)
  watched := by
    intro _
    refine ⟨i, ?_⟩
    rw [hw, Function.update_self]
    exact hserves.imp_right And.left
  placed j hj := by
    rw [hh, hactive]
    exact hs.placed j (hwaiters hj)

theorem afterJoin_clears (r : AwaitRequest) (statuses : List AwaitedMemberStatus)
    (prefs : AwaitMembersState) (expired : Bool) :
    ¬ (afterJoin r statuses prefs expired).clears = true := by
  unfold afterJoin
  split
  · nofun
  · nofun

/-- A request registers its waiter, when nobody is about to clear the flag. -/
theorem Served.addWaiter {i : ℕ} {handler : Handler} (hs : Served s)
    (hunhurried : (∀ i, (s.handler i).clears = false) ∧ ∀ i, (s.watcher i).clears = false)
    (hh : s'.handler = Function.update s.handler i handler) (hw : s'.watcher = s.watcher)
    (hwaiters : s'.waiters = s.waiters ++ [i]) (hactive : s'.active = s.active)
    (hclears : handler.clears = false) (hplaced : Placed s.active handler) : Served s' where
  handlers := by
    rw [hh]
    refine (Function.forall_update_iff s.handler
      fun _ h => Handler.clears h = true → s'.waiters = []).mpr ⟨fun hc => ?_, fun j _ hc => ?_⟩
    · rw [hclears] at hc
      cases hc
    · rw [hunhurried.1 j] at hc
      cases hc
  watchers j hj := by
    rw [hw, hunhurried.2 j] at hj
    cases hj
  watched := by
    rw [hw, hactive]
    exact hs.watched
  placed := by
    rw [hh, hactive]
    refine (Function.forall_update_iff s.handler
      fun j h => j ∈ s'.waiters → Placed s.active h).mpr ⟨fun _ => hplaced, fun j hj hmem => ?_⟩
    rw [hwaiters, List.mem_append, List.mem_singleton] at hmem
    exact hs.placed j (hmem.resolve_right hj)

/-- A request finds the flag set, or sets it and spawns a watcher. -/
theorem Served.mark {i : ℕ} {state : AwaitMembersState} (hs : Served s)
    (hmark : s' = markStep s i state ∨ ∃ response, s' = (markStep s i state).respond i response) :
    Served s' := by
  have hserved : Served (markStep s i state) := by
    unfold markStep
    split
    · rename_i hactive
      exact hs.move rfl rfl rfl rfl nofun fun _ => hactive
    · refine ⟨?_, ?_, fun _ => ⟨i, .inl (by simp [World.setWatcher, Watcher.serves])⟩, ?_⟩
      · exact (Function.forall_update_iff s.handler
          fun _ h => Handler.clears h = true → s.waiters = []).mpr ⟨nofun, fun j _ => hs.handlers j⟩
      · exact (Function.forall_update_iff s.watcher
          fun _ w => Watcher.clears w = true → s.waiters = []).mpr ⟨nofun, fun j _ => hs.watchers j⟩
      · refine (Function.forall_update_iff s.handler
          fun j h => j ∈ s.waiters → Placed true h).mpr ⟨fun _ => rfl, fun j _ hmem => ?_⟩
        have hplaced := hs.placed j hmem
        cases hj : s.handler j with
        | done => rfl
        | _ => rwa [hj] at hplaced
  rcases hmark with rfl | ⟨response, rfl⟩
  · exact hserved
  · exact ⟨hserved.handlers, hserved.watchers, hserved.watched, hserved.placed⟩

/-- The end of a wait: the waiters are taken before the flag is cleared. -/
theorem Served.finish {actor : Actor} {finish : Finish} (hs : Served s)
    (h : s.finish actor = some finish) : Served (finishStep s actor finish) := by
  cases actor with
  | handler i =>
      have hi : s.handler i = .finishing finish := by
        simp only [World.finish] at h
        split at h
        · cases h
          assumption
        · cases h
      cases finish with
      | persist state refresh own outcome =>
          exact hs.move rfl rfl rfl rfl nofun fun _ => trivial
      | take own outcome =>
          exact ⟨fun _ _ => rfl, fun _ _ => rfl, hs.watched, nofun⟩
      | clear answer =>
          have hnil := hs.handlers i (by rw [hi]; rfl)
          have hserved : Served { s.exit (.handler i) with active := false } :=
            ⟨fun _ _ => hnil, fun _ _ => hnil, nofun, fun j hj => by
              have hmem : j ∈ s.waiters := hj
              rw [hnil] at hmem
              cases hmem⟩
          cases answer with
          | none => exact hserved
          | some outcome =>
              exact ⟨hserved.handlers, hserved.watchers, hserved.watched, hserved.placed⟩
  | watcher i =>
      have hi : s.watcher i = .finishing finish := by
        simp only [World.finish] at h
        split at h
        · cases h
          assumption
        · cases h
      cases finish with
      | persist state refresh own outcome =>
          exact hs.watch rfl rfl (List.Subset.refl _) rfl (.inl rfl)
      | take own outcome => exact hs.watch rfl rfl (List.nil_subset _) rfl (.inr ⟨rfl, rfl⟩)
      | clear answer =>
          have hnil := hs.watchers i (by rw [hi]; rfl)
          have hserved : Served { s.exit (.watcher i) with active := false } :=
            ⟨fun _ _ => hnil, fun _ _ => hnil, nofun, fun j hj => by
              have hmem : j ∈ s.waiters := hj
              rw [hnil] at hmem
              cases hmem⟩
          exact hserved

theorem Served.step (hs : Served s) (hunhurried : Unhurried s e)
    (h : step awaited request s e = some s') : Served s' := by
  have effect := step_cases h
  cases effect with
  | tick _ | change _ _ | disconnect _ => exact ⟨hs.handlers, hs.watchers, hs.watched, hs.placed⟩
  | @load i hi =>
      refine hs.move rfl rfl rfl rfl nofun fun hmem => ?_
      have hplaced := hs.placed i hmem
      rw [hi] at hplaced
      exact hplaced
  | @read i persisted hi =>
      have hnot : i ∉ s.waiters := fun hmem => by
        have hplaced := hs.placed i hmem
        rw [hi] at hplaced
        exact hplaced
      unfold readStep
      dsimp only
      split
      · exact hs.move rfl rfl rfl rfl nofun fun hmem => absurd hmem hnot
      · exact hs.move rfl rfl rfl rfl nofun fun hmem => absurd hmem hnot
  | @ensure i persisted statuses hi =>
      have hnot : i ∉ s.waiters := fun hmem => by
        have hplaced := hs.placed i hmem
        rw [hi] at hplaced
        exact hplaced
      exact hs.move rfl rfl rfl rfl (fun hclears => absurd hclears (afterJoin_clears _ _ _ _))
        fun hmem => absurd hmem hnot
  | @register i state statuses hi hb => exact hs.addWaiter hunhurried rfl rfl rfl rfl rfl trivial
  | @expire i state statuses hi hb => exact hs.addWaiter hunhurried rfl rfl rfl rfl rfl trivial
  | markBackground hi hb _ _ => exact hs.mark (.inr ⟨_, rfl⟩)
  | mark hi hb => exact hs.mark (.inl rfl)
  | satisfied hi _ | unsatisfied hi | timeout hi _ | wake hi =>
      exact hs.watch rfl rfl (List.Subset.refl _) rfl (.inl rfl)
  | prefs hi hw =>
      refine hs.watch rfl rfl (List.Subset.refl _) rfl (.inl ?_)
      rcases hw with rfl | rfl
      · rfl
      · rfl
  | stay hi _ => exact hs.watch rfl rfl List.filter_sublist.subset rfl (.inl rfl)
  | leave hi _ => exact hs.watch rfl rfl (List.nil_subset _) rfl (.inr ⟨rfl, rfl⟩)
  | finish hfinish => exact hs.finish hfinish

theorem Served.init (now : ℕ) (members : StrMap SwarmMember) (swarms : StrMap (List String))
    (file : Option AwaitMembersState) : Served (World.init now members swarms file) where
  handlers _ h := by cases h
  watchers _ h := by cases h
  watched h := by cases h
  placed _ h := by cases h

/-- At rest, the waiters are attended. -/
theorem Served.attended (hs : Served s) (hrest : ∀ i, (s.handler i).atRest = true) :
    Attended s := by
  intro j hj _
  have hplaced := hs.placed j hj
  have hat := hrest j
  have hactive : s.active = true := by
    cases hhandler : s.handler j with
    | done => rwa [hhandler] at hplaced
    | idle =>
        rw [hhandler] at hplaced
        exact hplaced.elim
    | _ =>
        rw [hhandler] at hat
        cases hat
  obtain ⟨k, hserves | hclears⟩ := hs.watched hactive
  · exact ⟨hactive, k, hserves⟩
  · rw [hs.watchers k hclears] at hj
    cases hj

/-! ### Responses -/

/-- The responses that a request may still get from its own handler, or for a waiter that is yet to
be registered. -/
def Handler.tickets : Handler → ℕ
  | .registered _ | .done => 0
  | .finishing (.persist _ _ own _) | .finishing (.take own _) => if own then 1 else 0
  | .finishing (.clear answer) => if answer.isSome then 1 else 0
  | _ => 1

/-- The responses that a request has had, and may still get. -/
def World.tickets (s : World) (j : ℕ) : ℕ :=
  s.responses.countP (fun r => r.1 == j) + s.waiters.count j + (s.handler j).tickets

theorem tickets_update {i j : ℕ} {handler : Handler} (hle : handler.tickets ≤ (s.handler i).tickets) :
    (Function.update s.handler i handler j).tickets ≤ (s.handler j).tickets := by
  rw [Function.update_apply]
  split
  · rename_i heq
    exact heq ▸ hle
  · exact le_rfl

/-- The handler of a request answers it. -/
theorem tickets_answer (i : ℕ) (handler : Handler)
    (hr : ∃ response, s'.responses = s.responses ++ [(i, response)]) (hw : s'.waiters = s.waiters)
    (hh : s'.handler = Function.update s.handler i handler)
    (hlt : handler.tickets + 1 ≤ (s.handler i).tickets) {j : ℕ} : s'.tickets j ≤ s.tickets j := by
  obtain ⟨response, hr⟩ := hr
  rw [World.tickets, World.tickets, hr, hw, hh, List.countP_append, List.countP_singleton,
    Function.update_apply]
  by_cases hji : j = i
  · subst hji
    simp only [beq_self_eq_true, if_true]
    omega
  · have hne : (i == j) = false := beq_eq_false_iff_ne.mpr (Ne.symm hji)
    simp only [hne, hji, if_false, Bool.false_eq_true]
    omega

/-- A step that answers nobody and registers nobody. -/
theorem tickets_quiet (hr : s'.responses = s.responses) (hw : ∀ j, s'.waiters.count j ≤ s.waiters.count j)
    (hh : ∀ j, (s'.handler j).tickets ≤ (s.handler j).tickets) {j : ℕ} :
    s'.tickets j ≤ s.tickets j := by
  have hwj := hw j
  have hhj := hh j
  rw [World.tickets, World.tickets, hr]
  omega

/-- A request registers its waiter. -/
theorem tickets_addWaiter (i : ℕ) (handler : Handler) (hr : s'.responses = s.responses)
    (hw : s'.waiters = s.waiters ++ [i]) (hh : s'.handler = Function.update s.handler i handler)
    (hlt : handler.tickets + 1 ≤ (s.handler i).tickets) {j : ℕ} : s'.tickets j ≤ s.tickets j := by
  rw [World.tickets, World.tickets, hr, hw, hh, List.count_append, List.count_singleton,
    Function.update_apply]
  by_cases hji : j = i
  · subst hji
    simp only [beq_self_eq_true, if_true]
    omega
  · have hne : (i == j) = false := beq_eq_false_iff_ne.mpr (Ne.symm hji)
    simp only [hne, hji, if_false, Bool.false_eq_true]
    omega

theorem afterJoin_tickets (r : AwaitRequest) (statuses : List AwaitedMemberStatus)
    (prefs : AwaitMembersState) (expired : Bool) :
    (afterJoin r statuses prefs expired).tickets = 1 := by
  unfold afterJoin
  split
  · rfl
  · rfl

theorem countP_responses (waiters : List ℕ) (response : Response) (j : ℕ) :
    (waiters.map fun i => (i, response)).countP (fun r => r.1 == j) = waiters.count j := by
  rw [List.countP_map]
  rfl

/-- The end of a wait answers each waiter that it takes. -/
theorem tickets_finish {actor : Actor} {finish : Finish} (h : s.finish actor = some finish) (j : ℕ) :
    (finishStep s actor finish).tickets j ≤ s.tickets j := by
  have hi : ∀ i, actor = .handler i → s.handler i = .finishing finish := by
    rintro i rfl
    simp only [World.finish] at h
    split at h
    · cases h
      assumption
    · cases h
  cases finish with
  | persist state refresh own outcome =>
      refine tickets_quiet (by cases actor <;> rfl) (fun _ => by cases actor <;> exact le_rfl)
        (fun j => ?_)
      cases actor with
      | handler i => exact tickets_update (by rw [hi i rfl]; exact le_rfl)
      | watcher i => exact le_rfl
  | take own outcome =>
      have hhandler : ((finishStep s actor (.take own outcome)).handler j).tickets ≤
          (s.handler j).tickets := by
        cases actor with
        | handler i =>
            refine tickets_update ?_
            rw [hi i rfl]
            cases own with
            | true => exact le_rfl
            | false => exact le_rfl
        | watcher i => exact le_rfl
      rw [World.tickets, World.tickets]
      have hresponses : (finishStep s actor (.take own outcome)).responses =
        s.responses ++ s.waiters.map fun i => (i, { outcome := outcome }) := rfl
      have hwaiters : (finishStep s actor (.take own outcome)).waiters = [] := rfl
      rw [hresponses, hwaiters, List.countP_append, countP_responses, List.count_nil]
      omega
  | clear answer =>
      cases actor with
      | handler i =>
          cases answer with
          | none =>
              refine tickets_quiet ?_ ?_ ?_
              exacts [rfl, fun _ => le_rfl, fun j => tickets_update (Nat.zero_le _)]
          | some outcome =>
              refine tickets_answer i .done ?_ ?_ ?_ ?_
              exacts [⟨_, rfl⟩, rfl, rfl, by rw [hi i rfl]; exact le_rfl]
      | watcher i =>
          refine tickets_quiet ?_ ?_ ?_
          exacts [rfl, fun _ => le_rfl, fun _ => le_rfl]

/-- A step gives nobody a second response. -/
theorem tickets_step (h : step awaited request s e = some s') (j : ℕ) :
    s'.tickets j ≤ s.tickets j := by
  have effect := step_cases h
  cases effect with
  | tick _ | change _ _ | disconnect _ => exact le_rfl
  | load hi =>
      refine tickets_quiet ?_ ?_ ?_
      exacts [rfl, fun _ => le_rfl, fun j => tickets_update (by rw [hi]; exact le_rfl)]
  | @read i persisted hi =>
      unfold readStep
      dsimp only
      split
      · refine tickets_answer i .done ?_ ?_ ?_ ?_
        exacts [⟨_, rfl⟩, rfl, rfl, by rw [hi]; exact le_rfl]
      · refine tickets_quiet ?_ ?_ ?_
        exacts [rfl, fun _ => le_rfl, fun j => tickets_update (by rw [hi]; exact le_rfl)]
  | ensure hi =>
      refine tickets_quiet ?_ ?_ ?_
      exacts [rfl, fun _ => le_rfl,
        fun j => tickets_update (by rw [hi, afterJoin_tickets]; exact le_rfl)]
  | @register i state statuses hi _ =>
      refine tickets_addWaiter i (.registered state) ?_ ?_ ?_ ?_
      exacts [rfl, rfl, rfl, by rw [hi]; exact le_rfl]
  | @expire i state statuses hi _ =>
      refine tickets_addWaiter i
        (.finishing (.persist state false false (timeoutOutcome statuses))) ?_ ?_ ?_ ?_
      exacts [rfl, rfl, rfl, by rw [hi]; exact le_rfl]
  | @markBackground i state statuses response hi _ _ _ =>
      refine tickets_answer i .done ⟨response, ?_⟩ ?_ ?_ (by rw [hi]; exact le_rfl)
      all_goals
        unfold markStep
        split <;> rfl
  | @mark i state hi _ =>
      refine tickets_quiet ?_ (fun j => ?_) (fun j => ?_)
      all_goals
        unfold markStep
        split
      · rfl
      · rfl
      · exact le_rfl
      · exact le_rfl
      · exact tickets_update (Nat.zero_le _)
      · exact tickets_update (Nat.zero_le _)
  | satisfied _ _ | unsatisfied _ | timeout _ _ | wake _ | prefs _ _ =>
      refine tickets_quiet ?_ ?_ ?_
      exacts [rfl, fun _ => le_rfl, fun _ => le_rfl]
  | stay _ _ =>
      refine tickets_quiet ?_ ?_ ?_
      exacts [rfl, fun j => List.filter_sublist.count_le j, fun _ => le_rfl]
  | leave _ _ =>
      refine tickets_quiet ?_ ?_ ?_
      exacts [rfl, fun _ => Nat.zero_le _, fun _ => le_rfl]
  | finish hfinish => exact tickets_finish hfinish j

/-- **No waiter is orphaned** in a run in which none is registered while somebody is about to clear
the flag: at rest, every waiter with a client has an active key and a watcher that will serve it.
In every run, a request has one response at most. -/
theorem waiters_attended {now : ℕ} {members : StrMap SwarmMember} {swarms : StrMap (List String)}
    {file : Option AwaitMembersState} {ts : List (Transition World Event)}
    (run : Run (step awaited request) (World.init now members swarms file) ts s) :
    ((∀ t ∈ ts, Unhurried t.before t.event) → (∀ i, (s.handler i).atRest = true) → Attended s) ∧
      ∀ i, (s.responses.filter fun r => r.1 == i).length ≤ 1 := by
  constructor
  · intro hunhurried hrest
    exact (run.preserves (P := Served) (fun t ht h hs => hs.step (hunhurried t ht) h)
      (.init now members swarms file)).attended hrest
  · intro i
    have htickets := run.preserves (P := fun s => s.tickets i ≤ 1)
      (fun t _ h hle => (tickets_step h i).trans hle) le_rfl
    rw [World.tickets, List.countP_eq_length_filter] at htickets
    omega

end Steps

/-! ### A waiter nobody takes -/

/-- Waiting for the member `m`, blocking, for an hour. -/
def forMember : Awaited where
  reqSession := "s"
  swarmId := "w"
  requestedIds := ["m"]
  targetStatus := ["completed"]
  mode := none

def blocking (i : ℕ) : AwaitRequest where
  id := i
  timeoutSecs := none
  background := false
  notify := true
  wake := true

/-- The member is running; nothing was asked before. -/
def runningMember : World :=
  World.init 0 (StrMap.empty.insert "m" { status := "running" }) StrMap.empty none

/-- A request registers its waiter, and the watcher looks at the members. -/
def registers (i : ℕ) : List Event := [.load i, .read i, .ensure i, .addWaiter i, .markActive i]

def looks (i : ℕ) : List Event := [.watch i, .prefs i, .retain i]

theorem waiters_attended_first :
    ∃ ts s, Run (step forMember blocking) runningMember ts s ∧
      ts.map Transition.event = registers 0 ++ looks 0 ∧ s.waiters = [0] ∧ Attended s := by
  obtain ⟨ts, s, run, hevents, hobs⟩ := Run.of_observed
    (f := fun r : List (Transition World Event) × World =>
      (r.2.waiters, (r.2.handler 0).atRest,
        r.1.all fun t => !(t.before.handler 0).clears && !(t.before.watcher 0).clears))
    (show (exec (step forMember blocking) runningMember (registers 0 ++ looks 0)).map _ =
      some ([0], true, true) by decide +kernel)
  obtain ⟨hwaiters, hobs⟩ := Prod.mk.inj hobs
  obtain ⟨hhandler, hclears⟩ := Prod.mk.inj hobs
  -- only the first request takes steps
  have habout : ∀ t ∈ ts, ∀ j, t.event.about = some j → j = 0 := by
    have hall : ∀ e ∈ ts.map Transition.event, ∀ j, e.about = some j → j = 0 := by
      rw [hevents]
      simp [registers, looks, Event.about]
    exact fun t ht => hall _ (List.mem_map_of_mem ht)
  refine ⟨ts, s, run, hevents, hwaiters, (waiters_attended run).1 (fun t ht => ?_) fun j => ?_⟩
  · have hzero := List.all_eq_true.mp hclears t ht
    simp only [Bool.and_eq_true, Bool.not_eq_true'] at hzero
    have hnone : ∀ j, (t.before.handler j).clears = false ∧ (t.before.watcher j).clears = false := by
      intro j
      by_cases hj : j = 0
      · exact hj ▸ hzero
      · obtain ⟨hidle, habsent⟩ := idle_before run habout ht hj
        rw [hidle, habsent]
        exact ⟨rfl, rfl⟩
    unfold Unhurried
    split
    · exact ⟨fun j => (hnone j).1, fun j => (hnone j).2⟩
    · trivial
  · by_cases hj : j = 0
    · exact hj ▸ hhandler
    · have hidle : s.handler j = .idle :=
        (run_others run fun t ht heq => hj (habout t ht j heq)).1
      rw [hidle]
      rfl

/-- The client of the first request is gone; the second registers its waiter after the watcher has
looked for waiters, and before it clears the flag. -/
def overtaken : List Event :=
  registers 0 ++ [.disconnect 0] ++ looks 0 ++ registers 1 ++ [.finish (.watcher 0)]

/-- The second request waits for nobody. -/
theorem waiters_attended_failing :
    ∃ ts s, Run (step forMember blocking) runningMember ts s ∧
      ts.map Transition.event = overtaken ∧ (∀ i, (s.handler i).atRest = true) ∧ ¬ Attended s := by
  obtain ⟨ts, s, run, hevents, hobs⟩ := Run.of_observed
    (f := fun r : List (Transition World Event) × World =>
      (r.2.waiters, r.2.closed 1, r.2.active, (r.2.handler 0).atRest, (r.2.handler 1).atRest))
    (show (exec (step forMember blocking) runningMember overtaken).map _ =
      some ([1], false, false, true, true) by decide +kernel)
  obtain ⟨hwaiters, hobs⟩ := Prod.mk.inj hobs
  obtain ⟨hclosed, hobs⟩ := Prod.mk.inj hobs
  obtain ⟨hactive, hobs⟩ := Prod.mk.inj hobs
  obtain ⟨hzero, hone⟩ := Prod.mk.inj hobs
  refine ⟨ts, s, run, hevents, fun i => ?_, fun hattended => ?_⟩
  · by_cases hi₀ : i = 0
    · exact hi₀ ▸ hzero
    by_cases hi₁ : i = 1
    · exact hi₁ ▸ hone
    have habout : ∀ e ∈ ts.map Transition.event, e.about = some 0 ∨ e.about = some 1 := by
      rw [hevents]
      simp [overtaken, registers, looks, Event.about]
    have hidle : s.handler i = .idle := (run_others run fun t ht heq => by
      rcases habout _ (List.mem_map_of_mem ht) with h | h
      · exact hi₀ (Option.some.inj (heq.symm.trans h))
      · exact hi₁ (Option.some.inj (heq.symm.trans h))).1
    rw [hidle]
    rfl
  · obtain ⟨hset, -⟩ := hattended 1 (hwaiters ▸ List.mem_cons_self) hclosed
    rw [hactive] at hset
    cases hset

end Jcode.Await
