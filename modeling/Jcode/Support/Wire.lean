import Mathlib

/-!
# Support — Wire

Bytes that are written one after the other, and readers that take them off again.  A reader is given
the bytes that are left and gives back those it has not read.

* `leValue_leBytes`: a number survives in its low bytes, up to their number.
* `Reads.bind`, `reads_each`: what is written in parts is read in parts.
* `Steady`: what a reader has read does not depend on what follows.
* `Reads.truncated`: a reader that is steady refuses every part of what it reads.
* `Yields.bind`: what a reader gives has the properties its parts give it.
-/

namespace Wire

/-! ### Numbers -/

/-- The low bytes of a number, the lowest first. -/
def leBytes : ℕ → ℕ → List UInt8
  | 0, _ => []
  | k + 1, n => UInt8.ofNat n :: leBytes k (n / 256)

/-- The number of these bytes. -/
def leValue : List UInt8 → ℕ
  | [] => 0
  | b :: bs => b.toNat + 256 * leValue bs

@[simp] theorem length_leBytes (k n : ℕ) : (leBytes k n).length = k := by
  induction k generalizing n with
  | zero => rfl
  | succ k ih => rw [leBytes, List.length_cons, ih]

/-- **A number survives in its low bytes**, up to their number. -/
theorem leValue_leBytes (k n : ℕ) : leValue (leBytes k n) = n % 256 ^ k := by
  induction k generalizing n with
  | zero => exact (Nat.mod_one n).symm
  | succ k ih =>
      have hbyte : (UInt8.ofNat n).toNat = n % 256 := UInt8.toNat_ofNat'
      rw [leBytes, leValue, ih, hbyte, Nat.pow_succ', Nat.mod_mul]

theorem leValue_leBytes_of_lt {k n : ℕ} (h : n < 256 ^ k) : leValue (leBytes k n) = n := by
  rw [leValue_leBytes, Nat.mod_eq_of_lt h]

/-! ### Readers -/

/-- A reader of bytes. -/
abbrev Reader (ε : Type) := StateT (List UInt8) (Except ε)

section
variable {ε α β : Type}

/-- The next `n` bytes. -/
def take (e : ε) (n : ℕ) : Reader ε (List UInt8) := fun raw =>
  if n ≤ raw.length then .ok (raw.take n, raw.drop n) else .error e

/-- So many times over. -/
def many (r : Reader ε α) : ℕ → Reader ε (List α)
  | 0 => pure []
  | n + 1 => do
      let a ← r
      let rest ← many r n
      pure (a :: rest)

/-- For each of these. -/
def each (r : β → Reader ε α) : List β → Reader ε (List α)
  | [] => pure []
  | b :: bs => do
      let a ← r b
      let rest ← each r bs
      pure (a :: rest)

/-- The reader reads these bytes as `a`, whatever follows. -/
def Reads (r : Reader ε α) (bytes : List UInt8) (a : α) : Prop :=
  ∀ rest, r (bytes ++ rest) = .ok (a, rest)

/-- What has been read does not depend on what follows. -/
def Steady (r : Reader ε α) : Prop :=
  ∀ raw a rest more, r raw = .ok (a, rest) → r (raw ++ more) = .ok (a, rest ++ more)

/-- What the reader gives has this property. -/
def Yields (r : Reader ε α) (P : α → Prop) : Prop := ∀ raw a rest, r raw = .ok (a, rest) → P a

variable {r : Reader ε α} {f : α → Reader ε β} {bytes bytes' : List UInt8} {a : α} {b : β}

theorem bind_apply (r : Reader ε α) (f : α → Reader ε β) (raw : List UInt8) :
    (r >>= f) raw = (r raw).bind fun p => f p.1 p.2 := rfl

theorem reads_pure (a : α) : Reads (pure a : Reader ε α) [] a := fun _ => rfl

theorem reads_take {e : ε} {n : ℕ} (h : bytes.length = n) : Reads (take e n) bytes bytes := by
  intro rest
  subst h
  rw [take, if_pos (by simp), List.take_left, List.drop_left]

/-- What is written in parts is read in parts. -/
theorem Reads.bind (h : Reads r bytes a) (h' : Reads (f a) bytes' b) :
    Reads (r >>= f) (bytes ++ bytes') b := by
  intro rest
  rw [bind_apply, List.append_assoc, h (bytes' ++ rest)]
  exact h' rest

theorem Reads.map (h : Reads r bytes a) (g : α → β) :
    Reads (r >>= fun a => pure (g a)) bytes (g a) := by
  have hbind : Reads (r >>= fun a => pure (g a)) (bytes ++ []) (g a) := h.bind (reads_pure (g a))
  rwa [List.append_nil] at hbind

theorem reads_many {write : β → List UInt8} {value : β → α} {l : List β}
    (h : ∀ b ∈ l, Reads r (write b) (value b)) :
    Reads (many r l.length) (l.flatMap write) (l.map value) := by
  induction l with
  | nil => exact reads_pure []
  | cons b l ih =>
      obtain ⟨hb, hl⟩ := List.forall_mem_cons.mp h
      exact hb.bind ((ih hl).map (value b :: ·))

theorem reads_each {r : β → Reader ε α} {write : α → List UInt8} {key : α → β} {l : List α}
    (h : ∀ a ∈ l, Reads (r (key a)) (write a) a) :
    Reads (each r (l.map key)) (l.flatMap write) l := by
  induction l with
  | nil => exact reads_pure []
  | cons a l ih =>
      obtain ⟨ha, hl⟩ := List.forall_mem_cons.mp h
      exact ha.bind ((ih hl).map (a :: ·))

/-! ### Steadiness -/

theorem steady_pure (a : α) : Steady (pure a : Reader ε α) := by
  rintro raw a' rest more h
  obtain ⟨rfl, rfl⟩ := Prod.mk.inj (Except.ok.inj h)
  rfl

theorem steady_throw (e : ε) : Steady (throw e : Reader ε α) := nofun

theorem steady_take (e : ε) (n : ℕ) : Steady (take e n) := by
  rintro raw a rest more h
  rw [take] at h ⊢
  split at h
  · next hle =>
      obtain ⟨rfl, rfl⟩ := Prod.mk.inj (Except.ok.inj h)
      rw [if_pos (by rw [List.length_append]; omega), List.take_append_of_le_length hle,
        List.drop_append_of_le_length hle]
  · cases h

theorem Steady.bind (h : Steady r) (h' : ∀ a, Steady (f a)) : Steady (r >>= f) := by
  rintro raw b rest more hrun
  rw [bind_apply] at hrun ⊢
  cases hr : r raw with
  | error e =>
      rw [hr] at hrun
      cases hrun
  | ok p =>
      rw [hr] at hrun
      rw [h raw p.1 p.2 more hr]
      exact h' p.1 p.2 b rest more hrun

theorem Steady.many (h : Steady r) (n : ℕ) : Steady (many r n) := by
  induction n with
  | zero => exact steady_pure []
  | succ n ih => exact h.bind fun a => ih.bind fun rest => steady_pure (a :: rest)

theorem Steady.each {r : β → Reader ε α} (h : ∀ b, Steady (r b)) (l : List β) :
    Steady (each r l) := by
  induction l with
  | nil => exact steady_pure []
  | cons b l ih => exact (h b).bind fun a => ih.bind fun rest => steady_pure (a :: rest)

/-- **A steady reader refuses every part of what it reads**: with the rest behind it the part would
be read with something left over. -/
theorem Reads.truncated (hsteady : Steady r) (h : Reads r bytes a) {n : ℕ} (hn : n < bytes.length) :
    ∃ e, r (bytes.take n) = .error e := by
  cases hr : r (bytes.take n) with
  | error e => exact ⟨e, rfl⟩
  | ok p =>
      have hwhole := hsteady _ p.1 p.2 (bytes.drop n) hr
      rw [List.take_append_drop] at hwhole
      have hread := h []
      rw [List.append_nil, hwhole] at hread
      obtain ⟨-, hnil⟩ := Prod.mk.inj (Except.ok.inj hread)
      have hdrop := (List.append_eq_nil_iff.mp hnil).2
      rw [List.drop_eq_nil_iff] at hdrop
      omega

/-! ### What a reader gives -/

theorem yields_pure {P : α → Prop} (h : P a) : Yields (pure a : Reader ε α) P := by
  rintro raw a' rest hrun
  obtain ⟨rfl, -⟩ := Prod.mk.inj (Except.ok.inj hrun)
  exact h

theorem yields_take (e : ε) (n : ℕ) : Yields (take e n) fun bytes => bytes.length = n := by
  rintro raw bytes rest hrun
  rw [take] at hrun
  split at hrun
  · next hle =>
      obtain ⟨rfl, -⟩ := Prod.mk.inj (Except.ok.inj hrun)
      exact List.length_take_of_le hle
  · cases hrun

theorem yields_any (r : Reader ε α) : Yields r fun _ => True := fun _ _ _ _ => trivial

theorem Yields.bind {P : α → Prop} {Q : β → Prop} (h : Yields r P)
    (h' : ∀ a, P a → Yields (f a) Q) : Yields (r >>= f) Q := by
  rintro raw b rest hrun
  rw [bind_apply] at hrun
  cases hr : r raw with
  | error e =>
      rw [hr] at hrun
      cases hrun
  | ok p =>
      rw [hr] at hrun
      exact h' p.1 (h raw p.1 p.2 hr) p.2 b rest hrun

theorem Yields.many {P : α → Prop} (h : Yields r P) (n : ℕ) :
    Yields (many r n) fun l => l.length = n ∧ ∀ a ∈ l, P a := by
  induction n with
  | zero => exact yields_pure ⟨rfl, nofun⟩
  | succ n ih =>
      refine h.bind fun a ha => ih.bind fun rest hrest => yields_pure ⟨?_, ?_⟩
      · rw [List.length_cons, hrest.1]
      · exact List.forall_mem_cons.mpr ⟨ha, hrest.2⟩

theorem Yields.each {r : β → Reader ε α} {P : α → Prop} (l : List β) (h : ∀ b ∈ l, Yields (r b) P) :
    Yields (each r l) fun out => out.length = l.length ∧ ∀ a ∈ out, P a := by
  induction l with
  | nil => exact yields_pure ⟨rfl, nofun⟩
  | cons b l ih =>
      obtain ⟨hb, hl⟩ := List.forall_mem_cons.mp h
      refine hb.bind fun a ha => (ih hl).bind fun rest hrest => yields_pure ⟨?_, ?_⟩
      · rw [List.length_cons, hrest.1, List.length_cons]
      · exact List.forall_mem_cons.mpr ⟨ha, hrest.2⟩

end

end Wire
