import Mathlib

/-!
# Support — Std

The functions of Rust's standard library that the models call: `str` methods, on the characters
of a string, and the ways a `Result` or an `Option` leaves a function early.  The rules read a
successful computation back: a `bind` succeeds when both parts do (`bind_eq_ok`), a check when
its condition holds (`ensure_eq_ok`).
-/

namespace Rust

/-! ### Strings -/

/-- `char::is_whitespace`: the characters with the Unicode property `White_Space`. -/
def isWhitespace (c : Char) : Bool :=
  let n := c.toNat
  (0x9 ≤ n && n ≤ 0xD) || n == 0x20 || n == 0x85 || n == 0xA0 || n == 0x1680 ||
    (0x2000 ≤ n && n ≤ 0x200A) || n == 0x2028 || n == 0x2029 || n == 0x202F || n == 0x205F ||
    n == 0x3000

/-- `str::trim`. -/
def trim (s : String) : String :=
  String.ofList ((s.toList.dropWhile isWhitespace).rdropWhile isWhitespace)

/-- `str::trim_end`. -/
def trimEnd (s : String) : String := String.ofList (s.toList.rdropWhile isWhitespace)

/-- `char::is_ascii_alphanumeric`. -/
def isAsciiAlphanumeric (c : Char) : Bool :=
  ('a' ≤ c && c ≤ 'z') || ('A' ≤ c && c ≤ 'Z') || ('0' ≤ c && c ≤ '9')

/-- `str::contains`, of a text. -/
def contains (s pattern : String) : Bool := pattern.toList <:+: s.toList

/-- `str::split_whitespace`. -/
def splitWhitespace (s : String) : List String :=
  ((s.toList.splitOnP isWhitespace).filter fun word => !word.isEmpty).map String.ofList

/-- `str::to_ascii_lowercase`. -/
def toAsciiLowercase (s : String) : String := String.ofList (s.toList.map Char.toLower)

/-- `str::eq_ignore_ascii_case`. -/
def eqIgnoreAsciiCase (a b : String) : Bool := toAsciiLowercase a == toAsciiLowercase b

/-- `[String]::join`. -/
def join (sep : String) (parts : List String) : String := sep.intercalate parts

/-! ### Maps -/

/-- A `HashMap<String, _>`, by its lookups. -/
structure StrMap (α : Type) where
  get : String → Option α

namespace StrMap
variable {α : Type}

def empty : StrMap α := ⟨fun _ => none⟩

def insert (m : StrMap α) (k : String) (a : α) : StrMap α :=
  ⟨fun k' => if k' = k then some a else m.get k'⟩

def remove (m : StrMap α) (k : String) : StrMap α := ⟨fun k' => if k' = k then none else m.get k'⟩

/-- `if let Some(a) = m.get_mut(k) { .. }`. -/
def modify (m : StrMap α) (k : String) (f : α → α) : StrMap α :=
  ⟨fun k' => if k' = k then (m.get k).map f else m.get k'⟩

/-- `for a in m.values_mut() { .. }`. -/
def mapValues (m : StrMap α) (f : α → α) : StrMap α := ⟨fun k => (m.get k).map f⟩

/-- `HashMap::retain`. -/
def retain (m : StrMap α) (p : String → α → Bool) : StrMap α := ⟨fun k => (m.get k).filter (p k)⟩

/-- `Iterator::collect`: a later entry replaces an earlier one of the same key. -/
def collect (entries : List (String × α)) : StrMap α :=
  entries.foldl (fun m e => m.insert e.1 e.2) empty

theorem get_insert (m : StrMap α) (k k' : String) (a : α) :
    (m.insert k a).get k' = if k' = k then some a else m.get k' := rfl

@[simp] theorem get_insert_self (m : StrMap α) (k : String) (a : α) :
    (m.insert k a).get k = some a := if_pos rfl

theorem get_remove (m : StrMap α) (k k' : String) :
    (m.remove k).get k' = if k' = k then none else m.get k' := rfl

theorem get_modify (m : StrMap α) (k k' : String) (f : α → α) :
    (m.modify k f).get k' = if k' = k then (m.get k).map f else m.get k' := rfl

@[simp] theorem get_modify_self (m : StrMap α) (k : String) (f : α → α) :
    (m.modify k f).get k = (m.get k).map f := if_pos rfl

theorem get_modify_of_ne {m : StrMap α} {k k' : String} (f : α → α) (h : k' ≠ k) :
    (m.modify k f).get k' = m.get k' := if_neg h

@[simp] theorem get_mapValues (m : StrMap α) (f : α → α) (k : String) :
    (m.mapValues f).get k = (m.get k).map f := rfl

section Collect
variable {β : Type} {key : β → String} {val : β → α}

theorem get_foldl_of_notMem {l : List β} {k : String} (m : StrMap α) (hk : k ∉ l.map key) :
    ((l.map fun b => (key b, val b)).foldl (fun m e => m.insert e.1 e.2) m).get k = m.get k := by
  induction l generalizing m with
  | nil => rfl
  | cons b l ih =>
      obtain ⟨hb, hl⟩ := not_or.mp (fun h => hk (List.mem_cons.mpr h))
      rw [List.map_cons, List.foldl_cons, ih _ hl, get_insert, if_neg hb]

theorem get_collect_of_notMem {l : List β} {k : String} (hk : k ∉ l.map key) :
    (collect (l.map fun b => (key b, val b))).get k = none :=
  get_foldl_of_notMem empty hk

/-- When the keys are distinct, each entry is found. -/
theorem get_collect_of_mem {l : List β} (h : (l.map key).Nodup) {b : β} (hb : b ∈ l) :
    (collect (l.map fun b => (key b, val b))).get (key b) = some (val b) := by
  unfold collect
  generalize (empty : StrMap α) = m
  induction l generalizing m with
  | nil => cases hb
  | cons c l ih =>
      obtain ⟨hc, hl⟩ := List.nodup_cons.mp h
      rw [List.map_cons, List.foldl_cons]
      rcases List.mem_cons.mp hb with rfl | hb
      · rw [get_foldl_of_notMem _ hc, get_insert_self]
      · exact ih hl hb _

end Collect

end StrMap

/-- The order a `HashMap` is iterated in, which the library leaves open. -/
structure IterOrder where
  order : List String → List String
  perm : ∀ l, (order l).Perm l

/-- The order of insertion. -/
def IterOrder.insertion : IterOrder := ⟨id, .refl⟩

/-! ### Early returns -/

universe u
variable {ε : Type*} {α β : Type u}

/-- `Option::ok_or`. -/
def okOr (o : Option α) (e : ε) : Except ε α :=
  match o with
  | some a => .ok a
  | none => .error e

/-- `if !c { return Err(e) }`. -/
def ensure (c : Prop) [Decidable c] (e : ε) : Except ε Unit := if c then .ok () else .error e

@[simp] theorem okOr_eq_ok {o : Option α} {e : ε} {a : α} : okOr o e = .ok a ↔ o = some a := by
  cases o <;> simp [okOr]

@[simp] theorem ensure_eq_ok {c : Prop} [Decidable c] {e : ε} {u : Unit} :
    ensure c e = .ok u ↔ c := by
  unfold ensure; split <;> simp [*]

theorem bind_eq_ok {x : Except ε α} {f : α → Except ε β} {b : β} :
    x >>= f = .ok b ↔ ∃ a, x = .ok a ∧ f a = .ok b := by
  cases x <;> simp [bind, Except.bind]

end Rust
