import Mathlib.Data.String.Basic
import Mathlib.Data.List.Sort

/-!
# Support — Json

`serde_json::Value`.  An object is a map ordered by its keys, a list that a `Value` alone does not
promise to be sorted; `Ordered` says that it is, at every depth.

* `Value.sub_induction`: a property of values holds if it holds of each value that has only smaller
  values of it inside.
-/

namespace Serde

/-! ### Ordered maps -/

/-- `BTreeMap<String, _>`: its entries, by ascending keys. -/
abbrev Map (α : Type*) := List (String × α)

namespace Map
variable {α β : Type*}

def Sorted (m : Map α) : Prop := m.Pairwise fun a b => a.1 < b.1

instance (m : Map α) : Decidable m.Sorted := inferInstanceAs (Decidable (List.Pairwise _ _))

def keys (m : Map α) : List String := m.map (·.1)

def get : Map α → String → Option α
  | [], _ => none
  | (k, v) :: m, key => if k = key then some v else get m key

def insert : Map α → String → α → Map α
  | [], key, value => [(key, value)]
  | (k, v) :: m, key, value =>
      if key < k then (key, value) :: (k, v) :: m
      else if key = k then (key, value) :: m
      else (k, v) :: insert m key value

def remove (m : Map α) (key : String) : Map α := m.filter (·.1 ≠ key)

/-- The values changed, each by its key. -/
def mapValues (f : String → α → β) (m : Map α) : Map β := m.map fun e => (e.1, f e.1 e.2)

attribute [local grind =] get insert

theorem keys_mapValues (f : String → α → β) (m : Map α) : (m.mapValues f).keys = m.keys := by
  rw [keys, mapValues, List.map_map]
  rfl

theorem sorted_keys {m : Map α} : m.Sorted ↔ m.keys.Pairwise (· < ·) := List.pairwise_map.symm

theorem Sorted.mapValues {m : Map α} (h : m.Sorted) (f : String → α → β) :
    (m.mapValues f).Sorted := by
  rw [sorted_keys, keys_mapValues]
  exact sorted_keys.mp h

theorem Sorted.nodup {m : Map α} (h : m.Sorted) : m.keys.Nodup :=
  (sorted_keys.mp h).imp fun hlt => hlt.ne

theorem get_mapValues (f : String → α → β) (m : Map α) (key : String) :
    (m.mapValues f).get key = (m.get key).map (f key) := by
  induction m with
  | nil => rfl
  | cons e m ih =>
      obtain ⟨k, v⟩ := e
      show (if k = key then some (f k v) else (mapValues f m).get key) = _
      rw [ih, get]
      split
      · next h => rw [h, Option.map_some]
      · rfl

theorem mem_of_get {m : Map α} {key : String} {value : α} (h : m.get key = some value) :
    (key, value) ∈ m := by
  induction m with
  | nil => cases h
  | cons e m ih =>
      obtain ⟨k, v⟩ := e
      rw [get] at h
      split at h
      · next hk =>
          cases h
          exact hk ▸ List.mem_cons_self
      · exact List.mem_cons_of_mem _ (ih h)

theorem Sorted.get_of_mem {m : Map α} (hm : m.Sorted) {key : String} {value : α}
    (h : (key, value) ∈ m) : m.get key = some value := by
  induction m with
  | nil => cases h
  | cons e m ih =>
      obtain ⟨k, v⟩ := e
      obtain ⟨hk, hm⟩ := List.pairwise_cons.mp hm
      rw [get]
      obtain h | h := List.mem_cons.mp h
      · cases h
        exact if_pos rfl
      · rw [if_neg (hk _ h).ne]
        exact ih hm h

theorem mem_keys {m : Map α} {key : String} : key ∈ m.keys ↔ (m.get key).isSome := by
  induction m with
  | nil => simp [keys, get]
  | cons e m ih =>
      obtain ⟨k, v⟩ := e
      rw [keys, List.map_cons, List.mem_cons, get]
      by_cases h : k = key
      · simp [h]
      · rw [if_neg h, ← ih]
        exact or_iff_right (Ne.symm h)

theorem get_insert (m : Map α) (key k : String) (value : α) :
    (m.insert key value).get k = if key = k then some value else m.get k := by
  induction m with
  | nil => rfl
  | cons e m ih =>
      obtain ⟨k', v⟩ := e
      rw [insert]
      split
      · rfl
      · split
        · next heq =>
            rw [get, get, ← heq]
            split <;> rfl
        · next hne =>
            rw [get, ih, get]
            split
            · next heq => rw [if_neg (heq ▸ hne)]
            · rfl

theorem mem_keys_insert {m : Map α} {key k : String} {value : α} :
    k ∈ (m.insert key value).keys ↔ k = key ∨ k ∈ m.keys := by
  rw [mem_keys, get_insert, mem_keys]
  split
  · next h => simp [h]
  · next h => simp [Ne.symm h]

theorem Sorted.insert {m : Map α} (h : m.Sorted) (key : String) (value : α) :
    (m.insert key value).Sorted := by
  induction m with
  | nil => exact List.pairwise_singleton _ _
  | cons e m ih =>
      obtain ⟨k, v⟩ := e
      obtain ⟨hk, hm⟩ := List.pairwise_cons.mp h
      rw [Map.insert]
      split
      · next hlt =>
          exact List.pairwise_cons.mpr
            ⟨List.forall_mem_cons.mpr ⟨hlt, fun e he => hlt.trans (hk e he)⟩, h⟩
      · split
        · next heq => exact List.pairwise_cons.mpr ⟨fun e he => heq ▸ hk e he, hm⟩
        · next hnlt hne =>
            have hlt : k < key := lt_of_le_of_ne (not_lt.mp hnlt) (Ne.symm hne)
            refine List.pairwise_cons.mpr ⟨fun e he => ?_, ih hm⟩
            have hmem : e.1 ∈ (Map.insert m key value).keys := List.mem_map_of_mem he
            obtain heq | hold := mem_keys_insert.mp hmem
            · exact heq ▸ hlt
            · obtain ⟨e', he', heq⟩ := List.mem_map.mp hold
              exact heq ▸ hk e' he'

/-- What is there is not changed. -/
theorem Sorted.insert_of_get {m : Map α} (h : m.Sorted) {key : String} {value : α}
    (hget : m.get key = some value) : m.insert key value = m := by
  induction m with
  | nil => cases hget
  | cons e m ih =>
      obtain ⟨k, v⟩ := e
      obtain ⟨hk, hm⟩ := List.pairwise_cons.mp h
      rw [get] at hget
      rw [Map.insert]
      split at hget
      · next heq =>
          cases hget
          rw [heq, if_neg (lt_irrefl _), if_pos rfl]
      · next hne =>
          have hlt : k < key := hk _ (mem_of_get hget)
          rw [if_neg hlt.not_gt, if_neg hlt.ne', ih hm hget]

end Map

/-! ### Values -/

/-- `serde_json::Value`; a number by its text. -/
inductive Value where
  | null
  | bool (b : Bool)
  | number (text : String)
  | string (s : String)
  | array (items : List Value)
  | object (map : List (String × Value))

namespace Value

def asStr : Value → Option String
  | string s => some s
  | _ => none

def asArray : Value → Option (List Value)
  | array items => some items
  | _ => none

def asObject : Value → Option (Map Value)
  | object map => some map
  | _ => none

/-- `Value::get` of a key. -/
def get (v : Value) (key : String) : Option Value := v.asObject.bind (·.get key)

/-- Every object is sorted. -/
inductive Ordered : Value → Prop where
  | null : Ordered null
  | bool (b : Bool) : Ordered (bool b)
  | number (text : String) : Ordered (number text)
  | string (s : String) : Ordered (string s)
  | array {items : List Value} (h : ∀ item ∈ items, Ordered item) : Ordered (array items)
  | object {map : Map Value} (hsorted : map.Sorted) (h : ∀ e ∈ map, Ordered e.2) :
      Ordered (object map)

theorem sizeOf_item {item : Value} {items : List Value} (h : item ∈ items) :
    sizeOf item < sizeOf (array items) := by
  have := List.sizeOf_lt_of_mem h
  rw [array.sizeOf_spec]
  omega

theorem sizeOf_field {e : String × Value} {map : Map Value} (h : e ∈ map) :
    sizeOf e.2 < sizeOf (object map) := by
  have := List.sizeOf_lt_of_mem h
  obtain ⟨k, v⟩ := e
  rw [object.sizeOf_spec]
  rw [Prod.mk.sizeOf_spec] at this
  show sizeOf v < _
  omega

/-- By the size of the value. -/
theorem sub_induction {P : Value → Prop} (h : ∀ v, (∀ v', sizeOf v' < sizeOf v → P v') → P v)
    (v : Value) : P v := by
  induction hn : sizeOf v using Nat.strong_induction_on generalizing v with
  | _ n ih =>
      subst hn
      exact h v fun v' hv' => ih _ hv' v' rfl

mutual

/-- Whether every object is sorted. -/
def isOrdered : Value → Bool
  | array items => itemsOrdered items
  | object map => decide (Map.Sorted map) && fieldsOrdered map
  | _ => true

def itemsOrdered : List Value → Bool
  | [] => true
  | item :: items => isOrdered item && itemsOrdered items

def fieldsOrdered : List (String × Value) → Bool
  | [] => true
  | (_, value) :: map => isOrdered value && fieldsOrdered map

end

theorem itemsOrdered_iff {items : List Value} :
    itemsOrdered items ↔ ∀ item ∈ items, isOrdered item := by
  induction items with
  | nil => simp [itemsOrdered]
  | cons item items ih => rw [itemsOrdered, Bool.and_eq_true, ih, List.forall_mem_cons]

theorem fieldsOrdered_iff {map : Map Value} :
    fieldsOrdered map ↔ ∀ e ∈ map, isOrdered e.2 := by
  induction map with
  | nil => simp [fieldsOrdered]
  | cons e map ih => rw [fieldsOrdered, Bool.and_eq_true, ih, List.forall_mem_cons]

theorem Ordered.of_isOrdered {v : Value} (h : isOrdered v) : v.Ordered := by
  induction v using sub_induction with
  | h v ih =>
      cases v with
      | null => exact .null
      | bool b => exact .bool b
      | number text => exact .number text
      | string s => exact .string s
      | array items =>
          rw [isOrdered, itemsOrdered_iff] at h
          exact .array fun item hitem => ih item (sizeOf_item hitem) (h item hitem)
      | object map =>
          rw [isOrdered, Bool.and_eq_true, decide_eq_true_eq, fieldsOrdered_iff] at h
          exact .object h.1 fun e he => ih e.2 (sizeOf_field he) (h.2 e he)

end Value

end Serde
