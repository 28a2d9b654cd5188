import Jcode.Storage.Files

/-!
# Storage — Replaced

However the steps of the calls are mixed, and wherever a call fails or its process dies, the file is
always a whole one, and a reader has what the last call to replace it has written.

* `act_spec`: what an operation of a call changes.
* `Law.step`: the invariant, of the calls that have replaced the file so far.
* `replaced_atomically`: each call that succeeds replaces the file once, and no other; a reader finds
  the last of them, and the backup is a whole file of before.
-/

namespace Jcode.Storage
open RecordLog Runs

variable {α : Type} {format : Format α}

theorem Format.parse_toVec (value : α) : format.parse (format.toVec value) = .ok value := by
  obtain ⟨text, htext, hvalue⟩ := format.roundTrip value
  rw [Format.parse, htext]
  dsimp only
  rw [hvalue]

/-! ### What an operation does -/

/-- The call has written all its bytes. -/
def Phase.whole : Phase → Bool
  | .sync | .check | .removeBackup | .link | .rename | .syncDir | .returned true => true
  | _ => false

/-- The call has replaced the file. -/
def Phase.replaced : Phase → Bool
  | .syncDir | .returned true => true
  | _ => false

/-- The operation is the renaming, and it is done. -/
def Write.Replaces (call : Write) (i : ℕ) (ok : Bool) (d : Dir) : Prop :=
  call.phase = .rename ∧ ok = true ∧ d.temps i = true

instance (call : Write) (i : ℕ) (ok : Bool) (d : Dir) : Decidable (call.Replaces i ok d) :=
  inferInstanceAs (Decidable (_ ∧ _))

/-- What an operation of the call `i` changes. -/
structure ActSpec (call : Write) (i : ℕ) (ok : Bool) (d : Dir) (phase : Phase) (d' : Dir) : Prop where
  primary : d'.primary = if call.Replaces i ok d then some (.temp i) else d.primary
  replaced : phase.replaced = true ↔ call.Replaces i ok d ∨ call.phase.replaced = true
  backup : d'.backup = d.backup ∨ d'.backup = none ∨ d'.backup = d.primary
  others : ∀ inode, inode ≠ .temp i → d'.data inode = d.data inode
  /-- Its own file is whole once all the bytes are written, and is not written again. -/
  whole : phase.whole = true → d'.data (.temp i) = call.bytes ∨
    call.phase.whole = true ∧ d'.data (.temp i) = d.data (.temp i)

/-- An operation that is not the renaming leaves the file. -/
theorem ActSpec.of_ne {call : Write} {i : ℕ} {ok : Bool} {d d' : Dir} {phase : Phase}
    (hne : call.phase ≠ .rename) (hprimary : d'.primary = d.primary)
    (hreplaced : phase.replaced = call.phase.replaced)
    (hbackup : d'.backup = d.backup ∨ d'.backup = none ∨ d'.backup = d.primary)
    (hothers : ∀ inode, inode ≠ .temp i → d'.data inode = d.data inode)
    (hwhole : phase.whole = true → d'.data (.temp i) = call.bytes ∨
      call.phase.whole = true ∧ d'.data (.temp i) = d.data (.temp i)) :
    ActSpec call i ok d phase d' := by
  have hnot : ¬ call.Replaces i ok d := fun h => hne h.1
  exact ⟨by rw [if_neg hnot, hprimary], by rw [hreplaced, or_iff_right hnot], hbackup, hothers, hwhole⟩

theorem act_spec {call : Write} {i : ℕ} {ok : Bool} {d d' : Dir} {phase : Phase}
    (h : call.act i ok d = some (phase, d')) : ActSpec call i ok d phase d' := by
  obtain ⟨bytes, durable, now⟩ := call
  cases now with
  | ensureDir =>
      cases ok <;> cases h <;>
        exact .of_ne nofun rfl rfl (.inl rfl) (fun _ _ => rfl) nofun
  | create =>
      cases ok with
      | false => cases h; exact .of_ne nofun rfl rfl (.inl rfl) (fun _ _ => rfl) nofun
      | true =>
          cases h
          exact .of_ne nofun rfl rfl (.inl rfl) (fun _ hne => Function.update_of_ne hne _ _) nofun
  | write =>
      cases ok with
      | false => cases h; exact .of_ne nofun rfl rfl (.inl rfl) (fun _ _ => rfl) nofun
      | true =>
          cases durable <;> cases h <;>
            exact .of_ne nofun rfl rfl (.inl rfl) (fun _ hne => Function.update_of_ne hne _ _)
              fun _ => .inl (Function.update_self _ _ _)
  | sync =>
      cases ok with
      | false => cases h; exact .of_ne nofun rfl rfl (.inl rfl) (fun _ _ => rfl) nofun
      | true =>
          cases h
          exact .of_ne nofun rfl rfl (.inl rfl) (fun _ _ => rfl) fun _ => .inr ⟨rfl, rfl⟩
  | check =>
      rw [Write.act] at h
      cases hthere : ok && d.primary.isSome <;> rw [hthere] at h <;> cases h <;>
        exact .of_ne nofun rfl rfl (.inl rfl) (fun _ _ => rfl) fun _ => .inr ⟨rfl, rfl⟩
  | removeBackup =>
      cases ok with
      | false =>
          cases h
          exact .of_ne nofun rfl rfl (.inl rfl) (fun _ _ => rfl) fun _ => .inr ⟨rfl, rfl⟩
      | true =>
          cases h
          exact .of_ne nofun rfl rfl (.inr (.inl rfl)) (fun _ _ => rfl) fun _ => .inr ⟨rfl, rfl⟩
  | link =>
      rw [Write.act] at h
      cases hfree : ok && d.backup.isNone with
      | false =>
          rw [hfree] at h
          cases h
          exact .of_ne nofun rfl rfl (.inl rfl) (fun _ _ => rfl) fun _ => .inr ⟨rfl, rfl⟩
      | true =>
          rw [hfree] at h
          cases h
          exact .of_ne nofun rfl rfl (.inr (.inr rfl)) (fun _ _ => rfl) fun _ => .inr ⟨rfl, rfl⟩
  | rename =>
      rw [Write.act] at h
      cases hdone : ok && d.temps i with
      | false =>
          have hnot : ¬ Write.Replaces ⟨bytes, durable, .rename⟩ i ok d := fun hrep => by
            rw [hrep.2.1, hrep.2.2] at hdone
            cases hdone
          rw [hdone] at h
          cases h
          exact ⟨(if_neg hnot).symm, by simp [Phase.replaced, hnot], .inl rfl, fun _ _ => rfl, nofun⟩
      | true =>
          have hrep : Write.Replaces ⟨bytes, durable, .rename⟩ i ok d :=
            ⟨rfl, Bool.and_eq_true_iff.mp hdone⟩
          rw [hdone] at h
          cases durable <;> cases h <;>
            exact ⟨(if_pos hrep).symm, iff_of_true rfl (.inl hrep), .inl rfl, fun _ _ => rfl,
              fun _ => .inr ⟨rfl, rfl⟩⟩
  | syncDir =>
      cases h
      exact .of_ne nofun rfl rfl (.inl rfl) (fun _ _ => rfl) fun _ => .inr ⟨rfl, rfl⟩
  | removeTemp =>
      cases ok <;> cases h <;>
        exact .of_ne nofun rfl rfl (.inl rfl) (fun _ _ => rfl) nofun
  | returned ok' => cases h

/-! ### The invariant -/

/-- The call whose file takes the primary place in a step. -/
def replaces (t : Transition (State α) (Event α)) : Option ℕ :=
  match t.event with
  | .act i ok =>
      if (t.before.writes i).any fun call => decide (call.Replaces i ok t.before.dir) then some i
      else none
  | _ => none

/-- The calls that have replaced the file, in order. -/
def replacers (ts : List (Transition (State α) (Event α))) : List ℕ := ts.filterMap replaces

/-- No call is under way, and the file is whole, if there is one. -/
structure Initial (format : Format α) (s : State α) : Prop where
  writes : ∀ i, s.writes i = none
  reads : ∀ j, s.reads j = none
  primary : ∀ inode, s.dir.primary = some inode → (∃ n, inode = .original n) ∧
    ∃ value, format.parse (s.dir.data inode) = .ok value
  backup : ∀ inode, s.dir.backup = some inode → ∃ n, inode = .original n

/-- What holds once the calls `is` have replaced the file. -/
structure Law (format : Format α) (s₀ : State α) (is : List ℕ) (s : State α) : Prop where
  primary : s.dir.primary = (is.getLast?.map Inode.temp).or s₀.dir.primary
  nodup : is.Nodup
  originals : ∀ n, s.dir.data (.original n) = s₀.dir.data (.original n)
  backup : ∀ inode, s.dir.backup = some inode →
    s₀.dir.backup = some inode ∨ s₀.dir.primary = some inode ∨ ∃ i ∈ is, inode = .temp i
  written : ∀ i call, s.writes i = some call → ∃ value, call.bytes = format.toVec value
  whole : ∀ i call, s.writes i = some call → call.phase.whole = true →
    s.dir.data (.temp i) = call.bytes
  replaced : ∀ i, i ∈ is ↔ ∃ call, s.writes i = some call ∧ call.phase.replaced = true
  /-- No reader has needed the backup. -/
  reads : ∀ j read, s.reads j = some read → ∃ result, read = .returned result ∧
    result ≠ .error .corrupt ∧ result ≠ .error .bothCorrupt

/-- What a reader that opens the file finds. -/
def Dir.found (format : Format α) (d : Dir) (ok : Bool) : Except ReadError α :=
  match d.primary with
  | none => .error .notFound
  | some inode => if ok then format.parse (d.data inode) else .error .io

/-- The data of the file once the calls `is` have replaced it: those of the last one. -/
def fileAfter (s₀ s : State α) (is : List ℕ) : Option (List UInt8) :=
  (is.getLast?.bind fun i => (s.writes i).map Write.bytes).or (s₀.dir.primary.map s₀.dir.data)

variable {s₀ s s' : State α} {is : List ℕ} {ts : List (Transition (State α) (Event α))}

theorem Phase.whole_of_replaced {phase : Phase} (h : phase.replaced = true) : phase.whole = true := by
  cases phase with
  | syncDir => rfl
  | returned ok => cases ok <;> first | rfl | cases h
  | _ => cases h

theorem eq_some_of_update {β : Type} {f : ℕ → Option β} {i i' : ℕ} {b b' : β}
    (h : Function.update f i (some b) i' = some b') :
    i' = i ∧ b = b' ∨ i' ≠ i ∧ f i' = some b' := by
  by_cases hi : i' = i
  · subst hi
    rw [Function.update_self] at h
    exact .inl ⟨rfl, Option.some.inj h⟩
  · rw [Function.update_of_ne hi] at h
    exact .inr ⟨hi, h⟩

theorem Initial.law (h : Initial format s₀) : Law format s₀ [] s₀ where
  primary := rfl
  nodup := List.nodup_nil
  originals _ := rfl
  backup _ hb := .inl hb
  written i call hcall := by rw [h.writes i] at hcall; cases hcall
  whole i call hcall := by rw [h.writes i] at hcall; cases hcall
  replaced i := iff_of_false List.not_mem_nil (by rintro ⟨call, hcall, -⟩; rw [h.writes i] at hcall; cases hcall)
  reads j read hread := by rw [h.reads j] at hread; cases hread

namespace Law

/-- The data of a file that a call has put in place. -/
theorem data_of_mem (h : Law format s₀ is s) {i : ℕ} (hi : i ∈ is) :
    ∃ call, s.writes i = some call ∧ s.dir.data (.temp i) = call.bytes := by
  obtain ⟨call, hcall, hreplaced⟩ := (h.replaced i).mp hi
  exact ⟨call, hcall, h.whole i call hcall (Phase.whole_of_replaced hreplaced)⟩

/-- The file is whole. -/
theorem parse (h₀ : Initial format s₀) (h : Law format s₀ is s) {inode : Inode}
    (hp : s.dir.primary = some inode) : ∃ value, format.parse (s.dir.data inode) = .ok value := by
  rw [h.primary] at hp
  cases hlast : is.getLast? with
  | none =>
      rw [hlast] at hp
      obtain ⟨⟨n, rfl⟩, value, hvalue⟩ := h₀.primary inode hp
      exact ⟨value, by rw [h.originals]; exact hvalue⟩
  | some i =>
      rw [hlast] at hp
      obtain rfl := Option.some.inj hp
      obtain ⟨call, hcall, hdata⟩ := h.data_of_mem (List.mem_of_getLast? hlast)
      obtain ⟨value, hvalue⟩ := h.written i call hcall
      exact ⟨value, by rw [hdata, hvalue]; exact Format.parse_toVec value⟩

/-- A call that has just begun. -/
theorem write (h : Law format s₀ is s) {i : ℕ} (hnone : s.writes i = none) (value : α) (durable : Bool) :
    Law format s₀ is { s with
      writes := Function.update s.writes i (some ⟨format.toVec value, durable, .ensureDir⟩) } where
  primary := h.primary
  nodup := h.nodup
  originals := h.originals
  backup := h.backup
  written i' call hcall := by
    rcases eq_some_of_update hcall with ⟨-, rfl⟩ | ⟨-, hcall⟩
    · exact ⟨value, rfl⟩
    · exact h.written i' call hcall
  whole i' call hcall hwhole := by
    rcases eq_some_of_update hcall with ⟨-, rfl⟩ | ⟨-, hcall⟩
    · cases hwhole
    · exact h.whole i' call hcall hwhole
  replaced i' := by
    rw [h.replaced i']
    dsimp only
    by_cases hi : i' = i
    · subst hi
      rw [Function.update_self, hnone]
      refine iff_of_false (by simp) ?_
      rintro ⟨call, hcall, hreplaced⟩
      obtain rfl := Option.some.inj hcall
      cases hreplaced
    · rw [Function.update_of_ne hi]
  reads := h.reads

/-- A part of the bytes is written. -/
theorem part (h : Law format s₀ is s) {i n : ℕ} {call : Write}
    (hcall : s.writes i = some call) (hphase : call.phase = .write) :
    Law format s₀ is { s with dir := s.dir.setData (.temp i) (call.bytes.take n) } where
  primary := h.primary
  nodup := h.nodup
  originals k :=
    (Dir.setData_data_of_ne (show Inode.original k ≠ .temp i from nofun) _).trans (h.originals k)
  backup := h.backup
  written := h.written
  whole i' call' hcall' hwhole := by
    by_cases hi : i' = i
    · subst hi
      obtain rfl := Option.some.inj (hcall.symm.trans hcall')
      rw [hphase] at hwhole
      cases hwhole
    · exact (Dir.setData_data_of_ne (fun heq => hi (Inode.temp.inj heq)) _).trans
        (h.whole i' call' hcall' hwhole)
  replaced := h.replaced
  reads := h.reads

/-- An operation of a call. -/
theorem act (h : Law format s₀ is s) {i : ℕ} {ok : Bool} {call : Write} {phase : Phase} {d : Dir}
    (hcall : s.writes i = some call) (hact : call.act i ok s.dir = some (phase, d)) :
    Law format s₀ (is ++ if call.Replaces i ok s.dir then [i] else [])
      { s with dir := d, writes := Function.update s.writes i (some { call with phase }) } := by
  have spec := act_spec hact
  have hnot : call.Replaces i ok s.dir → i ∉ is := by
    rintro ⟨hphase, -⟩ hi
    obtain ⟨call', hcall', hreplaced⟩ := (h.replaced i).mp hi
    obtain rfl := Option.some.inj (hcall.symm.trans hcall')
    rw [hphase] at hreplaced
    cases hreplaced
  constructor
  · dsimp only
    rw [spec.primary]
    split
    · rw [List.getLast?_concat]
      rfl
    · rw [List.append_nil, h.primary]
  · split
    · next hrep => exact List.Nodup.append h.nodup (List.nodup_singleton i) (by simpa using hnot hrep)
    · rw [List.append_nil]
      exact h.nodup
  · exact fun n => (spec.others (.original n) nofun).trans (h.originals n)
  · intro inode hb
    have hold : s₀.dir.backup = some inode ∨ s₀.dir.primary = some inode ∨ ∃ i ∈ is, inode = .temp i := by
      rcases spec.backup with heq | heq | heq
      · exact h.backup inode (heq.symm.trans hb)
      · cases heq.symm.trans hb
      · have hp := heq.symm.trans hb
        rw [h.primary] at hp
        cases hlast : is.getLast? with
        | none => rw [hlast] at hp; exact .inr (.inl hp)
        | some k =>
            rw [hlast] at hp
            exact .inr (.inr ⟨k, List.mem_of_getLast? hlast, (Option.some.inj hp).symm⟩)
    exact hold.imp_right (Or.imp_right fun ⟨k, hk, heq⟩ => ⟨k, List.mem_append_left _ hk, heq⟩)
  · intro i' call' hcall'
    rcases eq_some_of_update hcall' with ⟨rfl, rfl⟩ | ⟨-, hcall'⟩
    · exact h.written i' call hcall
    · exact h.written i' call' hcall'
  · intro i' call' hcall' hwhole
    rcases eq_some_of_update hcall' with ⟨rfl, rfl⟩ | ⟨hi, hcall'⟩
    · rcases spec.whole hwhole with hdata | ⟨hbefore, hdata⟩
      · exact hdata
      · exact hdata.trans (h.whole i' call hcall hbefore)
    · refine (spec.others _ fun heq => hi (Inode.temp.inj heq)).trans ?_
      exact h.whole i' call' hcall' hwhole
  · intro i'
    by_cases hi : i' = i
    · subst hi
      dsimp only
      rw [Function.update_self, List.mem_append, h.replaced i', hcall]
      simp only [Option.some.injEq, exists_eq_left']
      rw [spec.replaced, or_comm]
      refine or_congr ?_ .rfl
      split
      · next hrep => simp [hrep]
      · next hrep => simp [hrep]
    · dsimp only
      rw [Function.update_of_ne hi, ← h.replaced i', List.mem_append, or_iff_left]
      split
      · simpa using hi
      · exact List.not_mem_nil
  · exact h.reads

/-- A reader finds the file as it is. -/
theorem read_first (h₀ : Initial format s₀) (h : Law format s₀ is s) (j : ℕ) (ok : Bool) (n : ℕ) :
    readStep format j ok n s.dir none = some (.returned (s.dir.found format ok), s.dir) := by
  rw [readStep, Dir.found]
  cases hp : s.dir.primary with
  | none => rfl
  | some inode =>
      obtain ⟨value, hvalue⟩ := h.parse h₀ hp
      cases ok with
      | false => rfl
      | true =>
          dsimp only
          rw [if_pos rfl, if_pos rfl, hvalue]

/-- And it is a whole one. -/
theorem found_ne (h₀ : Initial format s₀) (h : Law format s₀ is s) (ok : Bool) :
    s.dir.found format ok ≠ .error .corrupt ∧ s.dir.found format ok ≠ .error .bothCorrupt := by
  rw [Dir.found]
  cases hp : s.dir.primary with
  | none => exact ⟨nofun, nofun⟩
  | some inode =>
      obtain ⟨value, hvalue⟩ := h.parse h₀ hp
      dsimp only
      rw [hvalue]
      cases ok <;> exact ⟨nofun, nofun⟩

/-- A read. -/
theorem read (h₀ : Initial format s₀) (h : Law format s₀ is s) {j : ℕ} {ok : Bool} {n : ℕ}
    {read : Read α} {d : Dir} (hread : readStep format j ok n s.dir (s.reads j) = some (read, d)) :
    Law format s₀ is { s with dir := d, reads := Function.update s.reads j (some read) } := by
  cases hold : s.reads j with
  | some before =>
      obtain ⟨result, rfl, -⟩ := h.reads j before hold
      rw [hold] at hread
      cases hread
  | none =>
      rw [hold, h.read_first h₀] at hread
      obtain ⟨hresult, rfl⟩ := Prod.mk.inj (Option.some.inj hread)
      refine ⟨h.primary, h.nodup, h.originals, h.backup, h.written, h.whole, h.replaced, ?_⟩
      intro j' read' hread'
      rcases eq_some_of_update hread' with ⟨-, rfl⟩ | ⟨-, hread'⟩
      · exact ⟨_, hresult.symm, h.found_ne h₀ ok⟩
      · exact h.reads j' read' hread'

/-- **One step.** -/
theorem step {e : Event α} (h₀ : Initial format s₀) (h : Law format s₀ is s)
    (hstep : step format s e = some s') : Law format s₀ (is ++ (replaces ⟨s, e, s'⟩).toList) s' := by
  cases e with
  | write i value durable =>
      rw [replaces, Option.toList_none, List.append_nil]
      rw [Storage.step] at hstep
      split at hstep
      · next hnone =>
          obtain rfl := Option.some.inj hstep
          exact h.write hnone value durable
      · cases hstep
  | part i n =>
      rw [replaces, Option.toList_none, List.append_nil]
      rw [Storage.step] at hstep
      split at hstep
      · next call hcall =>
          split at hstep
          · next hphase =>
              obtain rfl := Option.some.inj hstep
              exact h.part hcall hphase
          · cases hstep
      · cases hstep
  | act i ok =>
      rw [Storage.step] at hstep
      obtain ⟨call, hcall, hstep⟩ := Option.bind_eq_some_iff.mp hstep
      obtain ⟨⟨phase, d⟩, hact, rfl⟩ := Option.map_eq_some_iff.mp hstep
      have hnext := h.act hcall hact
      have hlist : ∀ after : State α, (replaces ⟨s, .act i ok, after⟩).toList =
          if call.Replaces i ok s.dir then [i] else [] := by
        intro after
        simp only [replaces, hcall, Option.any_some, decide_eq_true_eq]
        split <;> rfl
      rw [hlist]
      exact hnext
  | read j ok n =>
      rw [replaces, Option.toList_none, List.append_nil]
      rw [Storage.step] at hstep
      obtain ⟨⟨read, d⟩, hread, rfl⟩ := Option.map_eq_some_iff.mp hstep
      exact h.read h₀ hread

/-- The invariant of a run. -/
theorem run (h₀ : Initial format s₀) (run : Run (Storage.step format) s₀ ts s) :
    Law format s₀ (replacers ts) s := by
  refine run.records_nil (P := fun us s => Law format s₀ (replacers us) s) ?_ h₀.law
  intro us t _ hstep h
  rw [replacers, List.filterMap_append]
  have hlist : List.filterMap replaces [t] = (replaces t).toList := by
    cases ht : replaces t <;> simp [ht]
  rw [hlist]
  exact h.step h₀ hstep

/-- The data of the file. -/
theorem data_eq (h₀ : Initial format s₀) (h : Law format s₀ is s) :
    s.dir.primary.map s.dir.data = fileAfter s₀ s is := by
  rw [h.primary, fileAfter]
  cases hlast : is.getLast? with
  | none =>
      cases hp : s₀.dir.primary with
      | none => rfl
      | some inode =>
          obtain ⟨⟨n, rfl⟩, -⟩ := h₀.primary inode hp
          exact congrArg some (h.originals n)
  | some i =>
      obtain ⟨call, hcall, hdata⟩ := h.data_of_mem (List.mem_of_getLast? hlast)
      rw [Option.map_some, Option.some_or, Option.map_some, hdata, Option.bind_some, hcall]
      rfl

/-- The backup is the file that there was, or one that was in its place. -/
theorem backup_eq (h₀ : Initial format s₀) (h : Law format s₀ is s) {inode : Inode}
    (hb : s.dir.backup = some inode) : s₀.dir.backup = some inode ∧
      s.dir.data inode = s₀.dir.data inode ∨
    ∃ before, before <+: is ∧ some (s.dir.data inode) = fileAfter s₀ s before := by
  rcases h.backup inode hb with hold | hold | ⟨i, hi, rfl⟩
  · obtain ⟨n, rfl⟩ := h₀.backup inode hold
    exact .inl ⟨hold, h.originals n⟩
  · obtain ⟨⟨n, rfl⟩, -⟩ := h₀.primary inode hold
    refine .inr ⟨[], List.nil_prefix, ?_⟩
    rw [fileAfter, hold, h.originals]
    rfl
  · obtain ⟨front, rest, rfl⟩ := List.append_of_mem hi
    obtain ⟨call, hcall, hdata⟩ := h.data_of_mem hi
    refine .inr ⟨front ++ [i], ⟨rest, List.append_assoc ..⟩, ?_⟩
    rw [fileAfter, List.getLast?_concat, Option.bind_some, hcall, hdata]
    rfl

end Law

/-! ### Whole runs -/

/-- **The file is replaced atomically.**  A call that returns has replaced the file, once, or else it has
failed; the file has the bytes of the last call that has replaced it, and a reader gets their value.
The backup is the one there was, or a whole file that stood in the place of this one before; no
reader needs it. -/
theorem replaced_atomically (h₀ : Initial format s₀) (run : Run (step format) s₀ ts s) :
    s.dir.primary.map s.dir.data = fileAfter s₀ s (replacers ts) ∧
    (replacers ts).Nodup ∧
    (∀ i call ok, s.writes i = some call → call.phase = .returned ok →
      (i ∈ replacers ts ↔ ok = true)) ∧
    (∀ j ok n s', s.reads j = none → step format s (.read j ok n) = some s' → s'.dir = s.dir ∧
      s'.reads j = some (.returned (s.dir.found format ok))) ∧
    (∀ j read, s.reads j = some read → ∃ result, read = .returned result ∧
      result ≠ .error .corrupt ∧ result ≠ .error .bothCorrupt) ∧
    ∀ inode, s.dir.backup = some inode →
      s₀.dir.backup = some inode ∧ s.dir.data inode = s₀.dir.data inode ∨
      ∃ before, before <+: replacers ts ∧ some (s.dir.data inode) = fileAfter s₀ s before := by
  have h := Law.run h₀ run
  refine ⟨h.data_eq h₀, h.nodup, fun i call ok hcall hphase => ?_, fun j ok n s' hnone hstep => ?_,
    h.reads, fun inode hb => h.backup_eq h₀ hb⟩
  · rw [h.replaced i, hcall]
    simp only [Option.some.injEq, exists_eq_left', hphase]
    cases ok <;> simp [Phase.replaced]
  · rw [step, hnone, h.read_first h₀] at hstep
    obtain rfl := Option.some.inj hstep
    exact ⟨rfl, Function.update_self _ _ _⟩

/-- Plain text, as a format. -/
def plainText : Format (List Char) := ⟨utf8, some, fun value => ⟨value, fromUtf8_utf8 value, rfl⟩⟩

/-- There is no file yet. -/
def noFile : State (List Char) :=
  ⟨⟨none, none, fun _ => false, fun _ => []⟩, fun _ => none, fun _ => none⟩

/-- One call writes the file while another one fails. -/
def twoWrites : List (Event (List Char)) :=
  [.write 0 ['a'] false, .write 1 ['b'] true, .act 0 true, .act 1 true, .act 0 true, .act 1 true,
    .part 1 0, .act 1 false, .act 0 true, .act 0 true, .act 1 true, .act 0 true]

theorem replaced_atomically_twoWrites : ∃ ts s, Run (step plainText) noFile ts s ∧
    replacers ts = [0] ∧ s.dir.primary.map s.dir.data = fileAfter noFile s (replacers ts) := by
  have h₀ : Initial plainText noFile := ⟨fun _ => rfl, fun _ => rfl, nofun, nofun⟩
  have hobserved : (exec (step plainText) noFile twoWrites).map (fun r => replacers r.1) = some [0] := by
    decide
  obtain ⟨ts, s, run, -, hreplacers⟩ := Run.of_observed hobserved
  exact ⟨ts, s, run, hreplacers, (replaced_atomically h₀ run).1⟩

end Jcode.Storage
