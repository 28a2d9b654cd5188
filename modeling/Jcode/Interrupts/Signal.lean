import Jcode.Support.Runs

/-!
# Interrupts — the cancel signal

`InterruptSignal`: a flag, and an epoch that counts the fires.  `fire` and `reset_if_epoch` take several
atomic steps on the two, and the steps of any number of calls come in any order.  `next` makes the
next step of a call that has begun.

* `Unset`: why the flag of a signal that was fired may be down.
* `deferred_reset_keeps_cancel`: when all calls have returned, a fire that is newer than every reset
  that was applied is still set; and a reset is applied only if its epoch was still the epoch after
  it had put down the flag.
-/

namespace Jcode.Interrupts
open Runs

/-- The two variables. -/
structure InterruptSignal where
  flag : Bool
  epoch : UInt64
  deriving DecidableEq, Repr

namespace InterruptSignal

def new : InterruptSignal := ⟨false, 0⟩

def isSet (s : InterruptSignal) : Bool := s.flag

end InterruptSignal

/-- How far a call has come. -/
inductive SignalCall where
  | ready
  /-- `fire`, which has counted, and has yet to set the flag. -/
  | firing
  | fired
  /-- `epoch`, with what it returned. -/
  | read (epoch : UInt64)
  /-- `reset_if_epoch`: its epoch is the epoch. -/
  | checked (epoch : UInt64)
  /-- The flag is down, and the epoch has yet to be read again. -/
  | cleared (epoch : UInt64)
  /-- A newer fire has to be restored. -/
  | restoring (epoch : UInt64)
  | reset (epoch : UInt64) (applied : Bool)
  deriving DecidableEq, Repr

/-- It has begun, and has not returned. -/
def SignalCall.InProgress : SignalCall → Prop
  | .firing | .checked _ | .cleared _ | .restoring _ => True
  | .ready | .fired | .read _ | .reset _ _ => False

structure SignalState where
  signal : InterruptSignal
  calls : ℕ → SignalCall

def SignalState.initial : SignalState := ⟨.new, fun _ => .ready⟩

/-- One atomic step.  A call begins with its first. -/
inductive SignalStep where
  | fire (i : ℕ)
  | epoch (i : ℕ)
  /-- The epoch is the one that the call `j` of `epoch` returned. -/
  | resetIfEpoch (i j : ℕ)
  | next (i : ℕ)
  deriving DecidableEq, Repr

namespace SignalState

/-- The signal, and how far the call `i` has come. -/
def set (s : SignalState) (i : ℕ) (call : SignalCall) (signal : InterruptSignal) : SignalState :=
  ⟨signal, Function.update s.calls i call⟩

def step (s : SignalState) : SignalStep → Option SignalState
  | .fire i =>
      if s.calls i = .ready then
        some (s.set i .firing { s.signal with epoch := s.signal.epoch + 1 })
      else none
  | .epoch i => if s.calls i = .ready then some (s.set i (.read s.signal.epoch) s.signal) else none
  | .resetIfEpoch i j =>
      match s.calls i, s.calls j with
      | .ready, .read epoch =>
          if s.signal.epoch ≠ epoch then some (s.set i (.reset epoch false) s.signal)
          else some (s.set i (.checked epoch) s.signal)
      | _, _ => none
  | .next i =>
      match s.calls i with
      | .firing => some (s.set i .fired { s.signal with flag := true })
      | .checked epoch => some (s.set i (.cleared epoch) { s.signal with flag := false })
      | .cleared epoch =>
          if s.signal.epoch ≠ epoch then some (s.set i (.restoring epoch) s.signal)
          else some (s.set i (.reset epoch true) s.signal)
      | .restoring epoch => some (s.set i (.reset epoch false) { s.signal with flag := true })
      | _ => none

end SignalState

/-! ### What a step does -/

/-- The call that makes the step. -/
def SignalStep.call : SignalStep → ℕ
  | .fire i | .epoch i | .resetIfEpoch i _ | .next i => i

/-- How far a call comes by one step, and what becomes of the signal. -/
inductive SignalCall.Next (signal : InterruptSignal) :
    SignalCall → SignalCall → InterruptSignal → Prop where
  | fire : Next signal .ready .firing { signal with epoch := signal.epoch + 1 }
  | epoch : Next signal .ready (.read signal.epoch) signal
  | refuse {epoch : UInt64} (h : signal.epoch ≠ epoch) :
      Next signal .ready (.reset epoch false) signal
  | check {epoch : UInt64} (h : signal.epoch = epoch) : Next signal .ready (.checked epoch) signal
  | set : Next signal .firing .fired { signal with flag := true }
  | clear {epoch : UInt64} :
      Next signal (.checked epoch) (.cleared epoch) { signal with flag := false }
  | race {epoch : UInt64} (h : signal.epoch ≠ epoch) :
      Next signal (.cleared epoch) (.restoring epoch) signal
  | apply {epoch : UInt64} (h : signal.epoch = epoch) :
      Next signal (.cleared epoch) (.reset epoch true) signal
  | restore {epoch : UInt64} :
      Next signal (.restoring epoch) (.reset epoch false) { signal with flag := true }

/-- Only the call that makes the step comes any further; it is firing if the step was to count. -/
theorem SignalState.step_cases {s s' : SignalState} {e : SignalStep} (h : s.step e = some s') :
    ∃ call signal, SignalCall.Next s.signal (s.calls e.call) call signal ∧
      s' = s.set e.call call signal ∧ (call = .firing ↔ ∃ i, e = .fire i) := by
  cases e with
  | fire i =>
      rw [step] at h
      split at h
      · rename_i hready
        cases h
        exact ⟨_, _, hready ▸ .fire, rfl, iff_of_true rfl ⟨i, rfl⟩⟩
      · cases h
  | epoch i =>
      rw [step] at h
      split at h
      · rename_i hready
        cases h
        exact ⟨_, _, hready ▸ .epoch, rfl, iff_of_false nofun nofun⟩
      · cases h
  | resetIfEpoch i j =>
      rw [step] at h
      split at h
      · rename_i hready _
        split at h
        · rename_i hne
          cases h
          exact ⟨_, _, hready ▸ .refuse hne, rfl, iff_of_false nofun nofun⟩
        · rename_i heq
          cases h
          exact ⟨_, _, hready ▸ .check (not_not.mp heq), rfl, iff_of_false nofun nofun⟩
      · cases h
  | next i =>
      rw [step] at h
      split at h
      · rename_i hcall
        cases h
        exact ⟨_, _, hcall ▸ .set, rfl, iff_of_false nofun nofun⟩
      · rename_i hcall
        cases h
        exact ⟨_, _, hcall ▸ .clear, rfl, iff_of_false nofun nofun⟩
      · rename_i hcall
        split at h
        · rename_i hne
          cases h
          exact ⟨_, _, hcall ▸ .race hne, rfl, iff_of_false nofun nofun⟩
        · rename_i heq
          cases h
          exact ⟨_, _, hcall ▸ .apply (not_not.mp heq), rfl, iff_of_false nofun nofun⟩
      · rename_i hcall
        cases h
        exact ⟨_, _, hcall ▸ .restore, rfl, iff_of_false nofun nofun⟩
      · cases h

@[simp] theorem SignalState.set_calls_self (s : SignalState) (i : ℕ) (call : SignalCall)
    (signal : InterruptSignal) : (s.set i call signal).calls i = call := Function.update_self ..

theorem SignalState.set_calls_of_ne (s : SignalState) {i j : ℕ} (h : j ≠ i) (call : SignalCall)
    (signal : InterruptSignal) : (s.set i call signal).calls j = s.calls j :=
  Function.update_of_ne h ..

/-! ### The flag -/

/-- The epoch of the last fire. -/
def lastFire (ts : List (Transition SignalState SignalStep)) : Option UInt64 :=
  (ts.reverse.find? fun t => match t.event with | .fire _ => true | _ => false).map
    (·.after.signal.epoch)

theorem lastFire_concat_fire {t : Transition SignalState SignalStep} {i : ℕ}
    (h : t.event = .fire i) (ts : List (Transition SignalState SignalStep)) :
    lastFire (ts ++ [t]) = some t.after.signal.epoch := by
  rw [lastFire, List.reverse_append, List.reverse_singleton, List.singleton_append,
    List.find?_cons_of_pos (by rw [h]), Option.map_some]

theorem lastFire_concat_of_ne {t : Transition SignalState SignalStep}
    (h : ¬ ∃ i, t.event = .fire i) (ts : List (Transition SignalState SignalStep)) :
    lastFire (ts ++ [t]) = lastFire ts := by
  rw [lastFire, List.reverse_append, List.reverse_singleton, List.singleton_append,
    List.find?_cons_of_neg, lastFire]
  cases he : t.event with
  | fire i => exact absurd ⟨i, he⟩ h
  | epoch | resetIfEpoch | next => exact Bool.false_ne_true

/-- Why the flag may be down after a fire: a call has yet to set it, or to see that it must be set,
or the newest fire was reset. -/
def Unset (s : SignalState) : Prop :=
  ∃ i, s.calls i = .firing ∨ (∃ epoch, s.calls i = .cleared epoch) ∨
    (∃ epoch, s.calls i = .restoring epoch) ∨ s.calls i = .reset s.signal.epoch true

/-- What holds of the flag after the steps so far. -/
def FlagKept (ts : List (Transition SignalState SignalStep)) (s : SignalState) : Prop :=
  (∀ epoch, lastFire ts = some epoch → s.signal.epoch = epoch) ∧
    (s.signal.flag = false → lastFire ts = none ∨ Unset s)

/-- A call that begins says nothing of the flag. -/
theorem Unset.set {s : SignalState} (h : Unset s) {i : ℕ} (hready : s.calls i = .ready)
    (call : SignalCall) : Unset (s.set i call s.signal) := by
  obtain ⟨j, hj⟩ := h
  have hne : j ≠ i := by
    rintro rfl
    rw [hready] at hj
    obtain hj | ⟨_, hj⟩ | ⟨_, hj⟩ | hj := hj <;> cases hj
  refine ⟨j, ?_⟩
  rwa [SignalState.set_calls_of_ne s hne]

theorem FlagKept.step {ts : List (Transition SignalState SignalStep)}
    {t : Transition SignalState SignalStep} (h : t.before.step t.event = some t.after)
    (hkept : FlagKept ts t.before) : FlagKept (ts ++ [t]) t.after := by
  obtain ⟨call, signal, hnext, hafter, hfiring⟩ := SignalState.step_cases h
  obtain ⟨hepoch, hflag⟩ := hkept
  by_cases hfire : ∃ i, t.event = .fire i
  · -- the epoch is that of this fire, which has yet to set the flag
    obtain ⟨i, hi⟩ := hfire
    refine ⟨fun epoch hlast => ?_, fun _ => .inr ⟨t.event.call, .inl ?_⟩⟩
    · rw [lastFire_concat_fire hi] at hlast
      exact Option.some.inj hlast
    · rw [hafter, SignalState.set_calls_self]
      exact hfiring.mpr ⟨i, hi⟩
  · have hcall : call ≠ .firing := mt hfiring.mp hfire
    rw [FlagKept, lastFire_concat_of_ne hfire, hafter]
    generalize hthis : t.before.calls t.event.call = this at hnext
    cases hnext with
    | fire => exact absurd rfl hcall
    | epoch | refuse | check =>
        exact ⟨hepoch, fun hdown => (hflag hdown).imp_right fun hunset => hunset.set hthis _⟩
    | set | restore => exact ⟨hepoch, nofun⟩
    | clear => exact ⟨hepoch, fun _ => .inr ⟨_, .inr (.inl ⟨_, SignalState.set_calls_self ..⟩)⟩⟩
    | race =>
        exact ⟨hepoch, fun _ => .inr ⟨_, .inr (.inr (.inl ⟨_, SignalState.set_calls_self ..⟩))⟩⟩
    | apply heq =>
        subst heq
        exact ⟨hepoch, fun _ => .inr ⟨_, .inr (.inr (.inr (SignalState.set_calls_self ..)))⟩⟩

/-! ### A reset that was applied -/

/-- The call puts the flag down. -/
def Clears (i : ℕ) (epoch : UInt64) (t : Transition SignalState SignalStep) : Prop :=
  t.before.calls i = .checked epoch ∧ t.after.calls i = .cleared epoch ∧ t.after.signal.flag = false

/-- The call reads the epoch again, and returns. -/
def Applies (i : ℕ) (epoch : UInt64) (t : Transition SignalState SignalStep) : Prop :=
  t.before.calls i = .cleared epoch ∧ t.before.signal.epoch = epoch ∧
    t.after.calls i = .reset epoch true

/-- What a reset did before. -/
def ResetKept (ts : List (Transition SignalState SignalStep)) (s : SignalState) : Prop :=
  ∀ i epoch, (s.calls i = .cleared epoch → ∃ t ∈ ts, Clears i epoch t) ∧
    (s.calls i = .reset epoch true →
      ∃ us vs t, ts = us ++ t :: vs ∧ Applies i epoch t ∧ ∃ t' ∈ us, Clears i epoch t')

theorem ResetKept.step {ts : List (Transition SignalState SignalStep)}
    {t : Transition SignalState SignalStep} (h : t.before.step t.event = some t.after)
    (hkept : ResetKept ts t.before) : ResetKept (ts ++ [t]) t.after := by
  obtain ⟨call, signal, hnext, hafter, -⟩ := SignalState.step_cases h
  intro i epoch
  by_cases hi : i = t.event.call
  · subst hi
    have hcall : t.after.calls t.event.call = call := by rw [hafter, SignalState.set_calls_self]
    have hsignal : t.after.signal = signal := congrArg SignalState.signal hafter
    generalize hthis : t.before.calls t.event.call = this at hnext
    cases hnext with
    | fire | epoch | refuse | check | set | race | restore =>
        rw [hcall]
        exact ⟨nofun, nofun⟩
    | clear =>
        refine ⟨fun hcleared => ?_, fun hreset => ?_⟩
        · rw [hcall] at hcleared
          cases hcleared
          exact ⟨t, List.mem_concat_self, hthis, hcall, congrArg InterruptSignal.flag hsignal⟩
        · rw [hcall] at hreset
          cases hreset
    | apply heq =>
        refine ⟨fun hcleared => ?_, fun hreset => ?_⟩
        · rw [hcall] at hcleared
          cases hcleared
        · rw [hcall] at hreset
          cases hreset
          exact ⟨ts, [], t, rfl, ⟨hthis, heq, hcall⟩, (hkept _ _).1 hthis⟩
  · have hsame : t.after.calls i = t.before.calls i := by
      rw [hafter, SignalState.set_calls_of_ne _ hi]
    rw [hsame]
    obtain ⟨hcleared, hreset⟩ := hkept i epoch
    refine ⟨fun hthis => ?_, fun hthis => ?_⟩
    · obtain ⟨t', ht', hclears⟩ := hcleared hthis
      exact ⟨t', List.mem_append_left _ ht', hclears⟩
    · obtain ⟨us, vs, t', rfl, happlies, hclears⟩ := hreset hthis
      exact ⟨us, vs ++ [t], t', by simp, happlies, hclears⟩

/-- **No deferred reset erases a newer cancel.** -/
theorem deferred_reset_keeps_cancel {ts : List (Transition SignalState SignalStep)}
    {s : SignalState} (run : Run SignalState.step .initial ts s) :
    (∀ epoch, lastFire ts = some epoch → (∀ i, ¬ (s.calls i).InProgress) →
      (∀ i epoch', s.calls i = .reset epoch' true → epoch' < epoch) → s.signal.isSet = true) ∧
    ∀ i epoch, s.calls i = .reset epoch true →
      ∃ us vs t, ts = us ++ t :: vs ∧ Applies i epoch t ∧ ∃ t' ∈ us, Clears i epoch t' := by
  have hflag : FlagKept ([] ++ ts) s :=
    run.records (fun us t _ h hkept => FlagKept.step h hkept) ⟨nofun, fun _ => .inl rfl⟩
  have hreset : ResetKept ([] ++ ts) s :=
    run.records (fun us t _ h hkept => ResetKept.step h hkept) fun i epoch => ⟨nofun, nofun⟩
  refine ⟨fun epoch hlast hquiet hnewer => ?_, fun i epoch => (hreset i epoch).2⟩
  by_contra hdown
  obtain hnone | ⟨i, hi⟩ := hflag.2 (Bool.eq_false_iff.mpr hdown)
  · rw [List.nil_append, hlast] at hnone
    cases hnone
  · have hdone := hquiet i
    obtain hi | ⟨_, hi⟩ | ⟨_, hi⟩ | hi := hi
    · exact hdone (hi ▸ trivial)
    · exact hdone (hi ▸ trivial)
    · exact hdone (hi ▸ trivial)
    · have hlt := hnewer i _ hi
      rw [hflag.1 epoch hlast] at hlt
      exact absurd hlt (UInt64.lt_irrefl _)

/-- A fire comes between the check of a deferred reset and its store. -/
def racedSteps : List SignalStep :=
  [.fire 0, .next 0, .epoch 1, .resetIfEpoch 2 1, .fire 3, .next 3, .next 2, .next 2, .next 2]

theorem deferred_reset_keeps_cancel_raced :
    ∃ ts s, Run SignalState.step .initial ts s ∧ ts.map Transition.event = racedSteps ∧
      s.calls 2 = .reset 1 false ∧ lastFire ts = some 2 ∧ s.signal.isSet = true := by
  have hexec : ∃ r, Runs.exec SignalState.step .initial racedSteps = some r ∧
      lastFire r.1 = some 2 ∧ r.2.calls =
        Function.update (Function.update (Function.update (Function.update (fun _ => .ready)
          0 .fired) 1 (.read 1)) 3 .fired) 2 (.reset 1 false) := by
    refine ⟨_, rfl, rfl, ?_⟩
    funext i
    rcases i with _ | _ | _ | _ | i <;> rfl
  obtain ⟨⟨ts, s⟩, hexec, hlast, hcalls⟩ := hexec
  obtain ⟨run, hevents⟩ := Run.of_exec hexec
  refine ⟨ts, s, run, hevents, congrFun hcalls 2, hlast, ?_⟩
  refine (deferred_reset_keeps_cancel run).1 2 hlast (fun i => ?_) fun i epoch => ?_
  · rw [hcalls]
    rcases i with _ | _ | _ | _ | i <;> exact id
  · rw [hcalls]
    rcases i with _ | _ | _ | _ | i <;> nofun

end Jcode.Interrupts
