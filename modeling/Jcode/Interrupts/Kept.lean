import Jcode.Interrupts.Store
import Jcode.Support.Runs

/-!
# Interrupts — one copy of each

The store file is changed by reading it and writing it whole, without a lock, and a queue is left to
whoever still has a handle of it.

* `Joins`: what is injected is the drained queue, cut into runs of one source.
* `interrupts_kept`: in a run in which nothing comes between the read and the write of the file, or
  between the copy of a queue and the end of its agent, every accepted interrupt is in one place; the
  transcript gets what is drained, in order, always.
* `interrupts_kept_failing`: of two calls that append at once, one is lost.
-/

namespace Jcode.Interrupts
open Rust Runs

/-! ### Injection -/

/-- The injected messages are the runs of the drained ones, joined. -/
def Joins (messages : List SoftInterruptMessage) (injected : List InjectedSoftInterrupt) : Prop :=
  ∃ runs : List (List SoftInterruptMessage), runs.flatten = messages ∧
    List.Forall₂ (fun run i => (∀ m ∈ run, m.source = i.source) ∧ run ≠ [] ∧
      i.content = join "\n\n" (run.map SoftInterruptMessage.content)) runs injected

theorem Joins.append {messages messages' : List SoftInterruptMessage}
    {injected injected' : List InjectedSoftInterrupt} (h : Joins messages injected)
    (h' : Joins messages' injected') : Joins (messages ++ messages') (injected ++ injected') := by
  obtain ⟨runs, rfl, hruns⟩ := h
  obtain ⟨runs', rfl, hruns'⟩ := h'
  exact ⟨runs ++ runs', List.flatten_append, List.rel_append hruns hruns'⟩

/-- A group of one source. -/
theorem Joins.flushGroup {group : List SoftInterruptMessage} {source : SoftInterruptSource}
    (h : ∀ m ∈ group, m.source = source) :
    Joins group (flushGroup source (group.map SoftInterruptMessage.content)) := by
  cases group with
  | nil => exact ⟨[], rfl, .nil⟩
  | cons m group => exact ⟨[m :: group], List.flatten_singleton, .cons ⟨h, List.cons_ne_nil _ _, rfl⟩ .nil⟩

/-- The loop goes on with a group of one source. -/
theorem injectLoop_joins {c : SoftInterruptSource} {g : List SoftInterruptMessage}
    (messages : List SoftInterruptMessage) (h : ∀ m ∈ g, m.source = c) :
    Joins (g ++ messages)
      (injectLoop messages (some c) (g.map SoftInterruptMessage.content)) := by
  induction messages generalizing c g with
  | nil =>
      rw [List.append_nil]
      exact .flushGroup h
  | cons m messages ih =>
      rw [injectLoop]
      split
      · exact (Joins.flushGroup h).append
          (ih (c := m.source) (g := [m]) fun m' hm' => by rw [List.mem_singleton.mp hm'])
      · rename_i hsource
        have heq : c = m.source := not_not.mp hsource
        have hgroup : ∀ m' ∈ g ++ [m], m'.source = c := by
          intro m' hm'
          rcases List.mem_append.mp hm' with hm' | hm'
          · exact h m' hm'
          · rw [List.mem_singleton.mp hm', heq]
        have hjoins := ih hgroup
        rwa [List.append_assoc, List.map_append] at hjoins

/-- A drained queue is injected in order, joined within runs of one source. -/
theorem injectMessages_joins (messages : List SoftInterruptMessage) :
    Joins messages (injectMessages messages) := by
  cases messages with
  | nil => exact ⟨[], rfl, .nil⟩
  | cons m messages =>
      exact injectLoop_joins (c := m.source) (g := [m]) messages fun m' hm' => by
        rw [List.mem_singleton.mp hm']

/-! ### Copies -/

/-- What a restore has taken from the file, and has yet to put into the queue. -/
def Activity.hands : Activity → List Queued
  | .restoring items => items
  | _ => []

/-- The places of an interrupt: the queue of the session's agent, what it is restoring, the store
file and the transcript. -/
def World.held (s : World) : List Queued := s.live ++ s.activity.hands ++ s.load ++ s.injected

/-- Nothing comes between the two ends of a change: an append or a restore finds the file as it has
read it, a shutdown finds no file that it would overwrite, and a queue is pushed to while it is the
queue of the session's agent, and not between its copy and the end of the agent. -/
def orderly (s : World) : Event → Bool
  | .enqueue i =>
      match s.call i, s.activity with
      | .enqueueing _, .snapshot _ => false
      | .enqueueing agent, _ => s.agent == some agent
      | _, _ => true
  | .write i =>
      match s.call i with
      | .writing loaded => s.load == loaded
      | _ => true
  | .remove =>
      match s.activity with
      | .taken items => s.load == items
      | _ => true
  | .persist => s.load.isEmpty
  | _ => true

theorem load_overwrite (interrupts : List Queued) : (overwrite interrupts).getD [] = interrupts := by
  unfold overwrite
  split
  · rename_i hnil
    exact (List.isEmpty_iff.mp hnil).symm
  · rfl

section Steps
variable {message : ℕ → SoftInterruptMessage} {s s' : World} {e : Event}

variable (message) in
/-- The copies of the interrupt of a call. -/
def World.copies (s : World) (i : ℕ) : ℕ := s.held.count ⟨i, message i⟩

variable (message) in
/-- The invariant of the copies. -/
structure Kept (s : World) : Prop where
  copies : ∀ i, s.copies message i = if s.call i = .returned true then 1 else 0
  pending : ∀ pending, s.activity = .snapshot pending → ∃ agent, s.agent = some agent ∧
    pending = s.queue agent
  working : s.agent = none → s.activity = .idle

/-- A step of a call that moves no interrupt. -/
theorem Kept.setCall {i : ℕ} {c : Call} (hk : Kept message s) (hcall : c ≠ .returned true)
    (hi : s.call i ≠ .returned true) (h : s'.call = Function.update s.call i c)
    (hheld : s'.held = s.held) (hactivity : s'.activity = s.activity) (hagent : s'.agent = s.agent)
    (hqueue : s'.queue = s.queue) : Kept message s' where
  copies := by
    rw [h]
    refine (Function.forall_update_iff s.call fun j c' => s'.copies message j =
      if c' = Call.returned true then 1 else 0).mpr ⟨?_, fun j _ => ?_⟩
    · have hnone := hk.copies i
      rw [if_neg hi] at hnone
      rw [World.copies, hheld, if_neg hcall]
      exact hnone
    · rw [World.copies, hheld]
      exact hk.copies j
  pending := by
    rw [hactivity, hagent, hqueue]
    exact hk.pending
  working := by
    rw [hactivity, hagent]
    exact hk.working

/-- A call puts its interrupt somewhere, and returns. -/
theorem Kept.accept {i : ℕ} (hk : Kept message s) (hi : s.call i ≠ .returned true)
    (h : s'.call = Function.update s.call i (.returned true))
    (hheld : s'.held.Perm (⟨i, message i⟩ :: s.held))
    (hpending : ∀ pending, s'.activity = .snapshot pending → ∃ agent, s'.agent = some agent ∧
      pending = s'.queue agent)
    (hworking : s'.agent = none → s'.activity = .idle) : Kept message s' where
  copies := by
    rw [h]
    refine (Function.forall_update_iff s.call fun j c => s'.copies message j =
      if c = Call.returned true then 1 else 0).mpr ⟨?_, fun j hj => ?_⟩
    · have hnone := hk.copies i
      rw [if_neg hi, World.copies] at hnone
      rw [World.copies, hheld.count_eq, List.count_cons_self, hnone]
      rfl
    · have hne : (⟨i, message i⟩ : Queued) ≠ ⟨j, message j⟩ := fun heq =>
        hj (congrArg Queued.call heq).symm
      rw [World.copies, hheld.count_eq, List.count_cons_of_ne hne]
      exact hk.copies j
  pending := hpending
  working := hworking

/-- A step of the agent moves interrupts from place to place. -/
theorem Kept.move (hk : Kept message s) (hcall : s'.call = s.call) (hheld : s'.held.Perm s.held)
    (hpending : ∀ pending, s'.activity = .snapshot pending → ∃ agent, s'.agent = some agent ∧
      pending = s'.queue agent)
    (hworking : s'.agent = none → s'.activity = .idle) : Kept message s' where
  copies i := by
    rw [hcall, World.copies, hheld.count_eq]
    exact hk.copies i
  pending := hpending
  working := hworking

theorem Kept.step (hk : Kept message s) (horderly : orderly s e = true)
    (h : step message s e = some s') : Kept message s' := by
  cases e with
  | lookUp i =>
      simp only [Interrupts.step] at h
      split at h
      · rename_i hi
        cases h
        refine hk.setCall ?_ (by rw [hi]; nofun) rfl rfl rfl rfl rfl
        split
        · nofun
        · nofun
      · cases h
  | find i busy =>
      simp only [Interrupts.step] at h
      split at h
      · rename_i hi
        cases h
        refine hk.setCall ?_ (by rw [hi]; nofun) rfl rfl rfl rfl rfl
        split
        · split
          · nofun
          · nofun
        · nofun
      · cases h
  | register i =>
      simp only [Interrupts.step] at h
      split at h
      · rename_i agent hi
        cases h
        exact hk.setCall (c := .enqueueing agent) nofun (by rw [hi]; nofun) rfl rfl rfl rfl rfl
      · cases h
  | enqueue i =>
      simp only [Interrupts.step] at h
      split at h
      · rename_i agent hi
        cases h
        have hagent : s.agent = some agent ∧ ∀ pending, s.activity ≠ .snapshot pending := by
          simp only [orderly, hi] at horderly
          split at horderly
          · cases horderly
          · rename_i heq hnot
            cases heq
            exact ⟨beq_iff_eq.mp horderly, hnot⟩
          · rename_i hnot _
            exact (hnot agent rfl).elim
        refine hk.accept (by rw [hi]; nofun) rfl ?_ (fun pending hpending => ?_) hk.working
        · have hlive : World.live ((s.setQueue agent (s.queue agent ++ [⟨i, message i⟩])).setCall i
              (.returned true)) = s.live ++ [⟨i, message i⟩] := by
            simp [World.live, World.setQueue, World.setCall, hagent.1]
          rw [World.held, hlive]
          exact List.perm_iff_count.mpr fun q => by
            simp only [World.held, List.count_append, List.count_cons, List.count_nil]
            simp only [World.setQueue, World.setCall, World.load]
            omega
        · exact absurd hpending (hagent.2 pending)
      · cases h
  | check i =>
      simp only [Interrupts.step] at h
      split at h
      · rename_i hi
        cases h
        refine hk.setCall ?_ (by rw [hi]; nofun) rfl rfl rfl rfl rfl
        split
        · nofun
        · nofun
      · cases h
  | read i =>
      simp only [Interrupts.step] at h
      split at h
      · rename_i hi
        cases h
        exact hk.setCall (c := .writing s.load) nofun (by rw [hi]; nofun) rfl rfl rfl rfl rfl
      · cases h
  | write i =>
      simp only [Interrupts.step] at h
      split at h
      · rename_i loaded hi
        cases h
        simp only [orderly, hi, beq_iff_eq] at horderly
        refine hk.accept (by rw [hi]; nofun) rfl ?_ hk.pending hk.working
        exact List.perm_iff_count.mpr fun q => by
          simp only [World.held, World.load, World.live, World.setCall, load_overwrite,
            List.count_append, List.count_cons, List.count_nil, ← horderly]
          omega
      · cases h
  | start =>
      simp only [Interrupts.step] at h
      split at h
      · rename_i hagent
        cases h
        have hidle := hk.working hagent
        refine hk.move rfl (List.Perm.of_eq ?_) (fun pending hpending => ?_) nofun
        · simp [World.held, World.live, World.load, World.setQueue, hagent]
        · have hpending : s.activity = .snapshot pending := hpending
          rw [hidle] at hpending
          cases hpending
      · cases h
  | enter | publish =>
      obtain ⟨agent, hagent, rfl⟩ := Option.map_eq_some_iff.mp h
      exact hk.move rfl (.refl _) hk.pending hk.working
  | leave | withdraw =>
      cases h
      exact hk.move rfl (.refl _) hk.pending hk.working
  | take =>
      simp only [Interrupts.step] at h
      split at h
      · rename_i agent hagent hidle
        cases h
        refine hk.move rfl (List.Perm.of_eq ?_) nofun fun hnone => ?_
        · simp only [World.held, hidle]
          rfl
        · rw [hagent] at hnone
          cases hnone
      · cases h
  | remove =>
      simp only [Interrupts.step] at h
      split at h
      · rename_i items htaken
        cases h
        simp only [orderly, htaken, beq_iff_eq] at horderly
        refine hk.move rfl (List.Perm.of_eq ?_) nofun fun hnone => ?_
        · simp only [World.held, htaken, horderly]
          simp [World.live, World.load, Activity.hands]
        · have hidle := hk.working hnone
          rw [htaken] at hidle
          cases hidle
      · cases h
  | extend =>
      simp only [Interrupts.step] at h
      split at h
      · rename_i agent items hagent hrestoring
        cases h
        refine hk.move rfl (List.Perm.of_eq ?_) nofun fun _ => rfl
        simp [World.held, World.live, World.load, World.setQueue, hagent, hrestoring,
          Activity.hands]
      · cases h
  | inject =>
      simp only [Interrupts.step] at h
      split at h
      · rename_i agent hagent hidle
        cases h
        refine hk.move rfl (List.perm_iff_count.mpr fun q => ?_) (fun pending hpending => ?_)
          hk.working
        · simp only [World.held, World.live, World.load, World.setQueue, hagent, hidle,
            Option.map_some, Option.getD_some, Function.update_self, List.count_append,
            List.count_nil]
          omega
        · have hpending : s.activity = .snapshot pending := hpending
          rw [hidle] at hpending
          cases hpending
      · cases h
  | snapshot =>
      simp only [Interrupts.step] at h
      split at h
      · rename_i agent hagent hidle
        cases h
        refine hk.move rfl (List.Perm.of_eq ?_) (fun pending hpending => ?_) fun hnone => ?_
        · simp only [World.held, hidle]
          rfl
        · cases hpending
          exact ⟨agent, hagent, rfl⟩
        · rw [hagent] at hnone
          cases hnone
      · cases h
  | persist =>
      simp only [Interrupts.step] at h
      split at h
      · rename_i pending hsnapshot
        cases h
        obtain ⟨agent, hagent, rfl⟩ := hk.pending pending hsnapshot
        have hempty : s.load = [] := List.isEmpty_iff.mp horderly
        refine hk.move rfl (List.Perm.of_eq ?_) nofun fun _ => rfl
        have hload : World.load { s with activity := .idle, agent := none, file := overwrite (s.queue agent) } = s.queue agent := load_overwrite _
        simp only [World.held, hload, hempty, hsnapshot]
        simp [World.live, hagent, Activity.hands]
      · cases h

theorem Kept.init (stored : Bool) : Kept message (World.init stored) where
  copies _ := rfl
  pending := nofun
  working _ := rfl

/-- **One copy of each** in a run in which nothing comes between the two ends of a change: every
interrupt whose call returned true is in the queue of the session's agent, in its store file, in the
transcript, or on its way from the file to the queue, and in one of them only.  In every run, the
transcript gets the contents of each drained queue in order, joined within runs of one source. -/
theorem interrupts_kept {stored : Bool} {ts : List (Transition World Event)}
    (run : Run (Interrupts.step message) (World.init stored) ts s) :
    ((∀ t ∈ ts, orderly t.before t.event = true) →
      ∀ i, s.call i = .returned true → s.copies message i = 1) ∧
      ∀ t ∈ ts, t.event = .inject → ∃ injected,
        t.after.transcript = t.before.transcript ++ injected.map InjectedSoftInterrupt.added ∧
          Joins (t.before.live.map Queued.message) injected ∧
            t.after.injected = t.before.injected ++ t.before.live := by
  constructor
  · intro horderly i hi
    have hkept := run.preserves (P := Kept message)
      (fun t ht h hk => hk.step (horderly t ht) h) (.init stored)
    exact (hkept.copies i).trans (if_pos hi)
  · intro t ht hinject
    have h := run.step_of_mem ht
    rw [hinject] at h
    simp only [Interrupts.step] at h
    split at h
    · rename_i agent hagent _
      have hlive : t.before.live = t.before.queue agent := by
        rw [World.live, hagent]
        rfl
      rw [← Option.some.inj h, hlive]
      exact ⟨_, rfl, injectMessages_joins _, rfl⟩
    · cases h

end Steps

/-! ### An interrupt that is lost -/

/-- Interrupts of a user. -/
def said (i : ℕ) : SoftInterruptMessage where
  content := if i = 0 then "stop" else "go on"
  urgent := false
  source := .user

/-- A call finds no agent, and reads the store file. -/
def defers (i : ℕ) : List Event := [.lookUp i, .find i false, .check i, .read i]

/-- Two calls, one after the other, a restart, and a turn. -/
def restarted : List Event :=
  defers 0 ++ [.write 0] ++ defers 1 ++ [.write 1, .start, .take, .remove, .extend, .inject]

theorem interrupts_kept_restarted :
    ∃ ts s, Run (step said) (World.init true) ts s ∧ ts.map Transition.event = restarted ∧
      s.transcript = [⟨.user, [.text "stop\n\ngo on" none], none⟩] ∧ s.copies said 0 = 1 := by
  obtain ⟨ts, s, run, hevents, hobs⟩ := Run.of_observed
    (f := fun r : List (Transition World Event) × World =>
      (r.2.transcript, r.2.call 0, r.1.all fun t => orderly t.before t.event))
    (show (exec (step said) (World.init true) restarted).map _ =
      some ([⟨.user, [.text "stop\n\ngo on" none], none⟩], .returned true, true) by decide +kernel)
  obtain ⟨htranscript, hobs⟩ := Prod.mk.inj hobs
  obtain ⟨hcall, horderly⟩ := Prod.mk.inj hobs
  exact ⟨ts, s, run, hevents, htranscript,
    (interrupts_kept run).1 (List.all_eq_true.mp horderly) 0 hcall⟩

/-- Both read the file before either writes it. -/
def atOnce : List Event := defers 0 ++ defers 1 ++ [.write 0, .write 1]

/-- The first interrupt is nowhere, though its call has returned true. -/
theorem interrupts_kept_failing :
    ∃ ts s, Run (step said) (World.init true) ts s ∧ ts.map Transition.event = atOnce ∧
      s.call 0 = .returned true ∧ s.copies said 0 = 0 := by
  obtain ⟨ts, s, run, hevents, hobs⟩ := Run.of_observed
    (f := fun r : List (Transition World Event) × World => (r.2.call 0, r.2.copies said 0))
    (show (exec (step said) (World.init true) atOnce).map _ = some (.returned true, 0) by
      decide +kernel)
  obtain ⟨hcall, hcopies⟩ := Prod.mk.inj hobs
  exact ⟨ts, s, run, hevents, hcall, hcopies⟩

end Jcode.Interrupts
