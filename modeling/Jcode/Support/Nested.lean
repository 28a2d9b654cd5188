import Mathlib

/-!
# Support — Nested

Maps of maps of sets, as an index over two keys keeps them.  An addition makes the levels it needs,
and a removal takes out the levels that it leaves empty.

* `under_add`, `under_drop`: what an operation stores under two keys.
* `under_walk`: the same for a walk over many keys.
* `Pruned`: no level is empty, and every operation keeps it so.
-/

namespace Nested

variable {α β γ : Type*} [DecidableEq α] [DecidableEq β] [DecidableEq γ]

/-! ### Sets under a key -/

/-- Sets under a key. -/
abbrev Level (β γ : Type*) := AList fun _ : β => Finset γ

/-- What is stored under the key. -/
def entry (l : Level β γ) (b : β) : Finset γ := (l.lookup b).getD ∅

/-- The elements of a set, in order. -/
def sorted {γ : Type*} [LinearOrder γ] (cs : Finset γ) : List γ := cs.sort (· ≤ ·)

@[simp] theorem mem_sorted {γ : Type*} [LinearOrder γ] {cs : Finset γ} {c : γ} :
    c ∈ sorted cs ↔ c ∈ cs := Finset.mem_sort _

theorem pairwise_sorted {γ : Type*} [LinearOrder γ] (cs : Finset γ) :
    (sorted cs).Pairwise (· < ·) := (Finset.sortedLT_sort cs).pairwise

/-- `l.entry(b).or_default().insert(c)`. -/
def addEntry (l : Level β γ) (b : β) (c : γ) : Level β γ := l.insert b (insert c (entry l b))

/-- Remove `c` from the set under the key, and the set when it is empty. -/
def dropEntry (l : Level β γ) (b : β) (c : γ) : Level β γ :=
  match l.lookup b with
  | none => l
  | some cs => if cs.erase c = ∅ then l.erase b else l.insert b (cs.erase c)

/-- No set is empty. -/
def Full (l : Level β γ) : Prop := ∀ b cs, l.lookup b = some cs → cs ≠ ∅

omit [DecidableEq γ] in
@[simp] theorem entry_empty (b : β) : entry (∅ : Level β γ) b = ∅ := by
  rw [entry, AList.lookup_empty, Option.getD_none]

omit [DecidableEq γ] in
theorem full_empty : Full (∅ : Level β γ) := by
  intro b cs h
  rw [AList.lookup_empty] at h
  cases h

theorem entry_addEntry (l : Level β γ) (b : β) (c : γ) (b' : β) :
    entry (addEntry l b c) b' = if b' = b then insert c (entry l b') else entry l b' := by
  rw [entry, addEntry]
  by_cases h : b' = b
  · subst h
    rw [AList.lookup_insert, if_pos rfl, Option.getD_some]
  · rw [AList.lookup_insert_ne h, if_neg h, entry]

theorem entry_dropEntry (l : Level β γ) (b : β) (c : γ) (b' : β) :
    entry (dropEntry l b c) b' = if b' = b then (entry l b').erase c else entry l b' := by
  rw [dropEntry]
  cases hl : l.lookup b with
  | none =>
      by_cases h : b' = b
      · subst h
        rw [if_pos rfl, entry, hl, Option.getD_none, Finset.erase_empty]
      · rw [if_neg h]
  | some cs =>
      by_cases h : b' = b
      · subst h
        have hentry : entry l b' = cs := by rw [entry, hl, Option.getD_some]
        rw [if_pos rfl, hentry]
        dsimp only
        split
        · next hempty => rw [entry, AList.lookup_erase, Option.getD_none, hempty]
        · rw [entry, AList.lookup_insert, Option.getD_some]
      · rw [if_neg h]
        dsimp only
        split
        · rw [entry, AList.lookup_erase_ne h, entry]
        · rw [entry, AList.lookup_insert_ne h, entry]

theorem Full.addEntry {l : Level β γ} (h : Full l) (b : β) (c : γ) : Full (addEntry l b c) := by
  intro b' cs hget
  rw [Nested.addEntry] at hget
  by_cases hb : b' = b
  · subst hb
    rw [AList.lookup_insert] at hget
    cases hget
    exact Finset.insert_ne_empty c _
  · rw [AList.lookup_insert_ne hb] at hget
    exact h b' cs hget

theorem Full.dropEntry {l : Level β γ} (h : Full l) (b : β) (c : γ) : Full (dropEntry l b c) := by
  intro b' cs hget
  rw [Nested.dropEntry] at hget
  split at hget
  · exact h b' cs hget
  · split at hget
    · by_cases hb : b' = b
      · subst hb
        rw [AList.lookup_erase] at hget
        cases hget
      · rw [AList.lookup_erase_ne hb] at hget
        exact h b' cs hget
    · next hne =>
        by_cases hb : b' = b
        · subst hb
          rw [AList.lookup_insert] at hget
          cases hget
          exact hne
        · rw [AList.lookup_insert_ne hb] at hget
          exact h b' cs hget

/-- Remove `c` from the sets under the keys `bs`. -/
def dropEntries (l : Level β γ) (bs : List β) (c : γ) : Level β γ :=
  bs.foldl (fun l b => dropEntry l b c) l

theorem entry_dropEntries (l : Level β γ) (bs : List β) (c : γ) (b : β) :
    entry (dropEntries l bs c) b = if b ∈ bs then (entry l b).erase c else entry l b := by
  induction bs generalizing l with
  | nil => rw [dropEntries, List.foldl_nil, if_neg List.not_mem_nil]
  | cons b' bs ih =>
      rw [dropEntries, List.foldl_cons, ← dropEntries, ih, entry_dropEntry]
      by_cases hb : b = b'
      · simp [hb]
      · simp [hb]

theorem Full.dropEntries {l : Level β γ} (h : Full l) (bs : List β) (c : γ) :
    Full (dropEntries l bs c) := by
  induction bs generalizing l with
  | nil => exact h
  | cons b bs ih => exact ih (h.dropEntry b c)

/-! ### Two keys -/

/-- Levels under a key. -/
abbrev Index (α β γ : Type*) := AList fun _ : α => Level β γ

/-- What is stored under two keys. -/
def under (m : Index α β γ) (a : α) (b : β) : Finset γ := entry ((m.lookup a).getD ∅) b

/-- `m.entry(a).or_default().entry(b).or_default().insert(c)`. -/
def add (m : Index α β γ) (a : α) (b : β) (c : γ) : Index α β γ :=
  m.insert a (addEntry ((m.lookup a).getD ∅) b c)

/-- Change the level under the key, if there is one, and remove it when it is empty. -/
def update (m : Index α β γ) (a : α) (f : Level β γ → Level β γ) : Index α β γ :=
  match m.lookup a with
  | none => m
  | some l => if (f l).entries.isEmpty then m.erase a else m.insert a (f l)

/-- No level is empty, and no set of a level is. -/
def Pruned (m : Index α β γ) : Prop := ∀ a l, m.lookup a = some l → l ≠ ∅ ∧ Full l

omit [DecidableEq γ] in
theorem pruned_empty : Pruned (∅ : Index α β γ) := by
  intro a l h
  rw [AList.lookup_empty] at h
  cases h

omit [DecidableEq γ] in
@[simp] theorem under_empty (a : α) (b : β) : under (∅ : Index α β γ) a b = ∅ := by
  rw [under, AList.lookup_empty, Option.getD_none, entry_empty]

omit [DecidableEq γ] in
theorem Pruned.full {m : Index α β γ} (h : Pruned m) (a : α) : Full ((m.lookup a).getD ∅) := by
  cases hm : m.lookup a with
  | none => exact full_empty
  | some l => exact (h a l hm).2

theorem under_add (m : Index α β γ) (a : α) (b : β) (c : γ) (a' : α) (b' : β) :
    under (add m a b c) a' b' =
      if a' = a ∧ b' = b then insert c (under m a' b') else under m a' b' := by
  rw [under, add]
  by_cases ha : a' = a
  · subst ha
    rw [AList.lookup_insert, Option.getD_some, entry_addEntry, under]
    simp only [true_and]
  · rw [AList.lookup_insert_ne ha, if_neg fun h => ha h.1, under]

theorem Pruned.add {m : Index α β γ} (h : Pruned m) (a : α) (b : β) (c : γ) :
    Pruned (add m a b c) := by
  intro a' l hget
  rw [Nested.add] at hget
  by_cases ha : a' = a
  · subst ha
    rw [AList.lookup_insert] at hget
    cases hget
    refine ⟨fun hempty => ?_, (h.full a').addEntry b c⟩
    have hentry := entry_addEntry ((m.lookup a').getD ∅) b c b
    rw [hempty, entry_empty, if_pos rfl] at hentry
    exact Finset.insert_ne_empty c _ hentry.symm
  · rw [AList.lookup_insert_ne ha] at hget
    exact h a' l hget

omit [DecidableEq γ] in
/-- A change that makes nothing of nothing. -/
theorem under_update {f : Level β γ → Level β γ} (hf : ∀ b, entry (f ∅) b = ∅)
    (m : Index α β γ) (a a' : α) (b : β) : under (update m a f) a' b =
      if a' = a then entry (f ((m.lookup a).getD ∅)) b else under m a' b := by
  rw [update]
  cases hm : m.lookup a with
  | none =>
      by_cases ha : a' = a
      · subst ha
        rw [if_pos rfl, Option.getD_none, hf, under, hm, Option.getD_none, entry_empty]
      · rw [if_neg ha]
  | some l =>
      rw [Option.getD_some]
      dsimp only
      split
      · next hempty =>
          by_cases ha : a' = a
          · subst ha
            have hnil : f l = ∅ := AList.ext (List.isEmpty_iff.mp hempty)
            rw [if_pos rfl, under, AList.lookup_erase, Option.getD_none, hnil]
          · rw [if_neg ha, under, AList.lookup_erase_ne ha, under]
      · by_cases ha : a' = a
        · subst ha
          rw [if_pos rfl, under, AList.lookup_insert, Option.getD_some]
        · rw [if_neg ha, under, AList.lookup_insert_ne ha, under]

omit [DecidableEq γ] in
theorem Pruned.update {m : Index α β γ} (h : Pruned m) (a : α) {f : Level β γ → Level β γ}
    (hf : ∀ l, Full l → Full (f l)) : Pruned (update m a f) := by
  intro a' l hget
  rw [Nested.update] at hget
  cases hm : m.lookup a with
  | none =>
      rw [hm] at hget
      exact h a' l hget
  | some old =>
      rw [hm] at hget
      dsimp only at hget
      split at hget
      · by_cases ha : a' = a
        · subst ha
          rw [AList.lookup_erase] at hget
          cases hget
        · rw [AList.lookup_erase_ne ha] at hget
          exact h a' l hget
      · next hne =>
          by_cases ha : a' = a
          · subst ha
            rw [AList.lookup_insert] at hget
            cases hget
            refine ⟨fun hempty => hne ?_, hf old (h a' old hm).2⟩
            rw [hempty, AList.empty_entries, List.isEmpty_nil]
          · rw [AList.lookup_insert_ne ha] at hget
            exact h a' l hget

/-- Remove `c` from the set under two keys. -/
def drop (m : Index α β γ) (a : α) (b : β) (c : γ) : Index α β γ :=
  update m a fun l => dropEntry l b c

theorem under_drop (m : Index α β γ) (a : α) (b : β) (c : γ) (a' : α) (b' : β) :
    under (drop m a b c) a' b' =
      if a' = a ∧ b' = b then (under m a' b').erase c else under m a' b' := by
  have hf : ∀ b', entry (dropEntry (∅ : Level β γ) b c) b' = ∅ := fun b' => by
    rw [entry_dropEntry, entry_empty, Finset.erase_empty, ite_self]
  rw [drop, under_update hf]
  by_cases ha : a' = a
  · subst ha
    rw [if_pos rfl, entry_dropEntry, under]
    simp only [true_and]
  · rw [if_neg ha, if_neg fun h => ha h.1]

theorem Pruned.drop {m : Index α β γ} (h : Pruned m) (a : α) (b : β) (c : γ) :
    Pruned (drop m a b c) :=
  h.update a fun _ hl => hl.dropEntry b c

/-! ### Walks -/

/-- Remove `c` from the sets under the keys `names l` of the level `l` under `a`. -/
def dropUnder (m : Index α β γ) (a : α) (names : Level β γ → List β) (c : γ) : Index α β γ :=
  update m a fun l => dropEntries l (names l) c

theorem under_dropUnder (m : Index α β γ) (a : α) (names : Level β γ → List β) (c : γ) (a' : α)
    (b : β) : under (dropUnder m a names c) a' b =
      if a' = a ∧ b ∈ names ((m.lookup a').getD ∅) then (under m a' b).erase c
      else under m a' b := by
  have hf : ∀ b, entry (dropEntries (∅ : Level β γ) (names ∅) c) b = ∅ := fun b => by
    rw [entry_dropEntries, entry_empty, Finset.erase_empty, ite_self]
  rw [dropUnder, under_update hf]
  by_cases ha : a' = a
  · subst ha
    rw [if_pos rfl, entry_dropEntries, under]
    simp only [true_and]
  · rw [if_neg ha, if_neg fun h => ha h.1]

theorem Pruned.dropUnder {m : Index α β γ} (h : Pruned m) (a : α) (names : Level β γ → List β)
    (c : γ) : Pruned (dropUnder m a names c) :=
  h.update a fun _ hl => hl.dropEntries _ c

theorem lookup_dropUnder_ne {m : Index α β γ} {a a' : α} (names : Level β γ → List β) (c : γ)
    (ha : a' ≠ a) : (dropUnder m a names c).lookup a' = m.lookup a' := by
  rw [dropUnder, update]
  split
  · rfl
  · split
    · exact AList.lookup_erase_ne ha
    · exact AList.lookup_insert_ne ha

variable {names : α → Level β γ → List β} {c : γ}

/-- A walk that removes `c` leaves the other sets alone. -/
theorem under_walk_of_notMem {m : Index α β γ} (as : List α) {a : α} {b : β}
    (hc : c ∉ under m a b) :
    under (as.foldl (fun m a => dropUnder m a (names a) c) m) a b = under m a b := by
  induction as generalizing m with
  | nil => rfl
  | cons a' as ih =>
      have hstep : under (dropUnder m a' (names a') c) a b = under m a b := by
        rw [under_dropUnder, Finset.erase_eq_of_notMem hc, ite_self]
      rw [List.foldl_cons, ih (hstep ▸ hc), hstep]

/-- **A walk that removes `c`** removes it under every key it comes to, when it names each set there
that holds `c`. -/
theorem under_walk {m : Index α β γ} (as : List α) {a : α} {b : β}
    (hnames : c ∈ under m a b → b ∈ names a ((m.lookup a).getD ∅)) :
    under (as.foldl (fun m a => dropUnder m a (names a) c) m) a b =
      if a ∈ as then (under m a b).erase c else under m a b := by
  by_cases hc : c ∈ under m a b
  · induction as generalizing m with
    | nil => rw [List.foldl_nil, if_neg List.not_mem_nil]
    | cons a' as ih =>
        rw [List.foldl_cons]
        by_cases ha : a = a'
        · subst ha
          have hstep : under (dropUnder m a (names a) c) a b = (under m a b).erase c := by
            rw [under_dropUnder, if_pos ⟨rfl, hnames hc⟩]
          rw [if_pos (List.mem_cons_self ..), under_walk_of_notMem, hstep]
          rw [hstep]
          exact Finset.notMem_erase c _
        · have hsame : under (dropUnder m a' (names a') c) a b = under m a b := by
            rw [under_dropUnder, if_neg fun h => ha h.1]
          rw [ih (by rw [hsame, lookup_dropUnder_ne _ _ ha]; exact hnames) (hsame ▸ hc), hsame]
          simp only [List.mem_cons, ha, false_or]
  · rw [under_walk_of_notMem as hc, Finset.erase_eq_of_notMem hc, ite_self]

theorem pruned_walk {m : Index α β γ} (h : Pruned m) (as : List α) :
    Pruned (as.foldl (fun m a => dropUnder m a (names a) c) m) := by
  induction as generalizing m with
  | nil => exact h
  | cons a as ih => exact ih (h.dropUnder a (names a) c)

end Nested
