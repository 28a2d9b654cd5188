import Jcode.Support.Json

/-!
# Provider — strict schemas

`strict_normalize_schema`: the schema of a tool's input, brought to the form that strict mode asks
for.  Every object lists all its properties as required and allows no others, and a property that
was optional is made nullable instead.

* `Normal` is the form, said of a value alone, at every depth.
* `strictNormalizeSchema_normal`, `Normal.strictNormalizeSchema_eq`: the result has the form, and
  what has it is not changed.
* `strict_normalize_schema_fixpoint`: normalizing is idempotent, and what it gives to the objects.
-/

namespace Jcode.OpenAiSchema

open Serde

/-! ### The normalization -/

/-- `json!({ "type": "null" })`. -/
def nullSchema : Value := .object [("type", .string "null")]

/-- `json!({ "anyOf": [schema, { "type": "null" }] })`. -/
def orNull (schema : Value) : Value := .object [("anyOf", .array [schema, nullSchema])]

def schemaIsObjectTyped (map : Map Value) : Bool :=
  match Map.get map "type" with
  | some (.string t) => t == "object"
  | some (.array types) => types.any fun v => v.asStr == some "object"
  | _ => false

def schemaContainsNullType (schema : Value) : Bool :=
  (((schema.get "type").bind Value.asStr).map (· == "null")).getD false

def makeSchemaNullable : Value → Value
  | .object map =>
      match Map.get map "type" with
      | some (.string t) =>
          if t ≠ "null" then .object (Map.insert map "type" (.array [.string t, .string "null"]))
          else .object map
      | some (.array types) =>
          let types :=
            if types.any fun v => v.asStr == some "null" then types else types ++ [.string "null"]
          .object (Map.insert map "type" (.array types))
      | _ =>
          match Map.get map "anyOf" with
          | some (.array anyOf) =>
              let anyOf :=
                if anyOf.any schemaContainsNullType then anyOf else anyOf ++ [nullSchema]
              .object (Map.insert map "anyOf" (.array anyOf))
          | _ => orNull (.object map)
  | other => orNull other

/-- The keywords whose value is a map of schemas. -/
def isMapKeyword (key : String) : Bool :=
  key ∈ ["properties", "$defs", "definitions", "patternProperties"]

def existingRequiredKeys (map : Map Value) : List String :=
  (((Map.get map "required").bind Value.asArray).map (List.filterMap Value.asStr)).getD []

def normalizeRequiredProperties (map : Map Value) : Map Value :=
  match (Map.get map "properties").bind Value.asObject with
  | none => map
  | some properties =>
      let names := (Map.keys properties).insertionSort (· ≤ ·)
      let existing := existingRequiredKeys map
      let properties := Map.mapValues
        (fun name schema => if name ∈ existing then schema else makeSchemaNullable schema) properties
      Map.insert (Map.insert map "properties" (.object properties)) "required"
        (.array (names.map .string))

/-- `normalize_map`, once the keywords are normalized. -/
def closeMap (map : Map Value) : Map Value :=
  let objectTyped := schemaIsObjectTyped map
  let map := normalizeRequiredProperties map
  if objectTyped || (Map.get map "properties").isSome then
    Map.insert map "additionalProperties" (.bool false)
  else map

mutual

def strictNormalizeSchema : Value → Value
  | .object map => .object (closeMap (normalizeFields map))
  | .array items => .array (normalizeItems items)
  | other => other

def normalizeItems : List Value → List Value
  | [] => []
  | item :: items => strictNormalizeSchema item :: normalizeItems items

/-- The keywords of an object; the value of some is not a schema but a map of schemas. -/
def normalizeFields : List (String × Value) → List (String × Value)
  | [] => []
  | (key, .object children) :: map =>
      (key, if isMapKeyword key then .object (normalizeChildren children)
        else strictNormalizeSchema (.object children)) :: normalizeFields map
  | (key, value) :: map => (key, strictNormalizeSchema value) :: normalizeFields map

def normalizeChildren : List (String × Value) → List (String × Value)
  | [] => []
  | (key, value) :: children => (key, strictNormalizeSchema value) :: normalizeChildren children

end

def normalizeStrictSchemaKeyword (key : String) (value : Value) : Value :=
  if isMapKeyword key then
    match value with
    | .object children => .object (Map.mapValues (fun _ => strictNormalizeSchema) children)
    | _ => strictNormalizeSchema value
  else if key ∈ ["allOf", "anyOf", "oneOf", "prefixItems"] then
    match value with
    | .array items => .array (items.map strictNormalizeSchema)
    | _ => strictNormalizeSchema value
  else strictNormalizeSchema value

attribute [local grind =] strictNormalizeSchema normalizeFields makeSchemaNullable

theorem normalizeItems_eq (items : List Value) :
    normalizeItems items = items.map strictNormalizeSchema := by
  induction items with
  | nil => rfl
  | cons item items ih => rw [normalizeItems, ih, List.map_cons]

theorem normalizeChildren_eq (children : Map Value) :
    normalizeChildren children = Map.mapValues (fun _ => strictNormalizeSchema) children := by
  induction children with
  | nil => rfl
  | cons e children ih =>
      rw [normalizeChildren, ih]
      rfl

theorem strictNormalizeSchema_array (items : List Value) :
    strictNormalizeSchema (.array items) = .array (items.map strictNormalizeSchema) := by
  rw [strictNormalizeSchema, normalizeItems_eq]

/-- The arrays of the composing keywords are normalized as any array is. -/
theorem normalizeStrictSchemaKeyword_eq (key : String) (value : Value) :
    normalizeStrictSchemaKeyword key value =
      match value with
      | .object children =>
          if isMapKeyword key then .object (Map.mapValues (fun _ => strictNormalizeSchema) children)
          else strictNormalizeSchema (.object children)
      | _ => strictNormalizeSchema value := by
  unfold normalizeStrictSchemaKeyword
  cases value with
  | array items =>
      dsimp only
      rw [← strictNormalizeSchema_array, ite_self, ite_self]
  | object children => simp only [ite_self]
  | null | bool | number | string => simp only [ite_self]

theorem normalizeFields_eq (map : Map Value) :
    normalizeFields map = Map.mapValues normalizeStrictSchemaKeyword map := by
  induction map with
  | nil => rfl
  | cons e map ih =>
      obtain ⟨key, value⟩ := e
      rw [show Map.mapValues normalizeStrictSchemaKeyword ((key, value) :: map) =
        (key, normalizeStrictSchemaKeyword key value) ::
          Map.mapValues normalizeStrictSchemaKeyword map from rfl, ← ih,
        normalizeStrictSchemaKeyword_eq]
      cases value with
      | object children => rw [normalizeFields, normalizeChildren_eq]
      | null | bool | number | string | array => rw [normalizeFields]; nofun

/-- `normalize_map`. -/
theorem strictNormalizeSchema_object (map : Map Value) :
    strictNormalizeSchema (.object map) =
      .object (closeMap (Map.mapValues normalizeStrictSchemaKeyword map)) := by
  rw [strictNormalizeSchema, normalizeFields_eq]

/-! ### The normal form -/

/-- The form of strict mode. -/
inductive Normal : Value → Prop where
  | null : Normal .null
  | bool (b : Bool) : Normal (.bool b)
  | number (text : String) : Normal (.number text)
  | string (s : String) : Normal (.string s)
  | array {items : List Value} (h : ∀ item ∈ items, Normal item) : Normal (.array items)
  | object {map : Map Value} (sorted : Map.Sorted map)
      (sortedChildren : ∀ key cs, Map.get map key = some (.object cs) → isMapKeyword key →
        Map.Sorted cs)
      (children : ∀ key cs, Map.get map key = some (.object cs) → isMapKeyword key →
        ∀ e ∈ cs, Normal e.2)
      (keywords : ∀ key value, Map.get map key = some value →
        (isMapKeyword key → value.asObject = none) → Normal value)
      (required : ∀ ps, Map.get map "properties" = some (.object ps) →
        Map.get map "required" = some (.array ((Map.keys ps).map .string)))
      (additional : schemaIsObjectTyped map ∨ (Map.get map "properties").isSome →
        Map.get map "additionalProperties" = some (.bool false)) :
      Normal (.object map)

theorem sort_keys {map : Map Value} (h : Map.Sorted map) :
    (Map.keys map).insertionSort (· ≤ ·) = Map.keys map :=
  List.Pairwise.insertionSort_eq ((Map.sorted_keys.mp h).imp le_of_lt)

theorem mapValues_eq_self {map : Map Value} (h : Map.Sorted map) {f : String → Value → Value}
    (hf : ∀ key value, Map.get map key = some value → f key value = value) :
    Map.mapValues f map = map := by
  have hmem : ∀ e ∈ map, (e.1, f e.1 e.2) = e := fun e he => by
    rw [hf e.1 e.2 (h.get_of_mem he)]
  exact (List.map_congr_left hmem).trans (List.map_id map)

theorem existingRequiredKeys_of_get {map : Map Value} {names : List String}
    (h : Map.get map "required" = some (.array (names.map .string))) :
    existingRequiredKeys map = names := by
  have hnames : (names.map Value.string).filterMap Value.asStr = names := by
    rw [List.filterMap_map]
    exact List.filterMap_some
  rw [existingRequiredKeys, h]
  exact hnames

/-- Nothing is left to be closed. -/
theorem closeMap_eq_self {map : Map Value} (hsorted : Map.Sorted map)
    (hps : ∀ ps, Map.get map "properties" = some (.object ps) → Map.Sorted ps)
    (hrequired : ∀ ps, Map.get map "properties" = some (.object ps) →
      Map.get map "required" = some (.array ((Map.keys ps).map .string)))
    (hadditional : schemaIsObjectTyped map ∨ (Map.get map "properties").isSome →
      Map.get map "additionalProperties" = some (.bool false)) : closeMap map = map := by
  have hnormalize : normalizeRequiredProperties map = map := by
    unfold normalizeRequiredProperties
    cases hget : (Map.get map "properties").bind Value.asObject with
    | none => rfl
    | some ps =>
        obtain ⟨value, hvalue, hobject⟩ := Option.bind_eq_some_iff.mp hget
        cases value with
        | object ps' =>
            obtain rfl : ps' = ps := Option.some.inj hobject
            have hreq := hrequired ps' hvalue
            have hkept : Map.mapValues (fun name schema =>
                if name ∈ existingRequiredKeys map then schema else makeSchemaNullable schema) ps' =
                ps' := mapValues_eq_self (hps ps' hvalue) fun key value h => by
              rw [existingRequiredKeys_of_get hreq, if_pos (Map.mem_keys.mpr (by rw [h]; rfl))]
            dsimp only
            rw [hkept, hsorted.insert_of_get hvalue, sort_keys (hps ps' hvalue),
              hsorted.insert_of_get hreq]
        | null | bool | number | string | array => cases hobject
  rw [closeMap, hnormalize]
  split
  · next h => exact hsorted.insert_of_get (hadditional (Bool.or_eq_true_iff.mp h))
  · rfl

/-- **What has the form is not changed.** -/
theorem Normal.strictNormalizeSchema_eq {v : Value} (h : Normal v) : strictNormalizeSchema v = v := by
  induction h with
  | null | bool | number | string => rw [strictNormalizeSchema]; all_goals nofun
  | array h ih =>
      rw [strictNormalizeSchema_array, List.map_congr_left ih, List.map_id']
  | @object map sorted sortedChildren _ _ required additional ihchildren ihkeywords =>
      have hkeyword : ∀ key value, Map.get map key = some value →
          normalizeStrictSchemaKeyword key value = value := by
        intro key value hget
        rw [normalizeStrictSchemaKeyword_eq]
        cases value with
        | object cs =>
            dsimp only
            split
            · next hkey =>
                have hcs := sortedChildren key cs hget hkey
                exact congrArg Value.object (mapValues_eq_self hcs fun k v hkv =>
                  ihchildren key cs hget hkey _ (Map.mem_of_get hkv))
            · next hkey => exact ihkeywords key _ hget (fun h => absurd h hkey)
        | null | bool | number | string | array => exact ihkeywords key _ hget (fun _ => rfl)
      rw [strictNormalizeSchema_object, mapValues_eq_self sorted hkeyword]
      exact congrArg Value.object (closeMap_eq_self sorted
        (fun ps hps => sortedChildren _ ps hps (by decide)) required additional)

/-- The form is that of a value. -/
theorem Normal.ordered {v : Value} (h : Normal v) : v.Ordered := by
  induction h with
  | null => exact .null
  | bool b => exact .bool b
  | number text => exact .number text
  | string s => exact .string s
  | array _ ih => exact .array ih
  | @object map sorted sortedChildren _ _ _ _ ihchildren ihkeywords =>
      refine .object sorted fun e he => ?_
      obtain ⟨key, value⟩ := e
      have hget := sorted.get_of_mem he
      by_cases hkey : isMapKeyword key
      · cases value with
        | object cs => exact .object (sortedChildren key cs hget hkey) (ihchildren key cs hget hkey)
        | null | bool | number | string | array => exact ihkeywords key _ hget (fun _ => rfl)
      · exact ihkeywords key value hget (fun h => absurd h hkey)

/-! ### The result has the form -/

/-- The form, of each keyword by itself. -/
structure KeywordsNormal (map : Map Value) : Prop where
  sorted : Map.Sorted map
  sortedChildren : ∀ key cs, Map.get map key = some (.object cs) → isMapKeyword key → Map.Sorted cs
  children : ∀ key cs, Map.get map key = some (.object cs) → isMapKeyword key →
    ∀ e ∈ cs, Normal e.2
  keywords : ∀ key value, Map.get map key = some value →
    (isMapKeyword key → value.asObject = none) → Normal value

theorem Normal.keywordsNormal {map : Map Value} (h : Normal (.object map)) : KeywordsNormal map := by
  cases h with
  | object sorted sortedChildren children keywords => exact ⟨sorted, sortedChildren, children, keywords⟩

namespace KeywordsNormal
variable {map : Map Value} (h : KeywordsNormal map)
include h

theorem insert {key : String} {value : Value} (hvalue : Normal value)
    (hkey : isMapKeyword key → value.asObject = none) :
    KeywordsNormal (Map.insert map key value) where
  sorted := h.sorted.insert key value
  sortedChildren k cs hget hk := by
    rw [Map.get_insert] at hget
    split at hget
    · next heq =>
        cases hget
        cases hkey (heq ▸ hk)
    · exact h.sortedChildren k cs hget hk
  children k cs hget hk := by
    rw [Map.get_insert] at hget
    split at hget
    · next heq =>
        cases hget
        cases hkey (heq ▸ hk)
    · exact h.children k cs hget hk
  keywords k value' hget hk := by
    rw [Map.get_insert] at hget
    split at hget
    · cases hget
      exact hvalue
    · exact h.keywords k value' hget hk

theorem insert_children {key : String} {cs : Map Value} (hkey : isMapKeyword key)
    (hsorted : Map.Sorted cs) (hcs : ∀ e ∈ cs, Normal e.2) :
    KeywordsNormal (Map.insert map key (.object cs)) where
  sorted := h.sorted.insert key _
  sortedChildren k cs' hget hk := by
    rw [Map.get_insert] at hget
    split at hget
    · cases hget
      exact hsorted
    · exact h.sortedChildren k cs' hget hk
  children k cs' hget hk := by
    rw [Map.get_insert] at hget
    split at hget
    · cases hget
      exact hcs
    · exact h.children k cs' hget hk
  keywords k value hget hk := by
    rw [Map.get_insert] at hget
    split at hget
    · next heq =>
        cases hget
        cases hk (heq ▸ hkey)
    · exact h.keywords k value hget hk

end KeywordsNormal

/-- An object of one keyword that says nothing of properties. -/
theorem normal_singleton {key : String} {value : Value} (hvalue : Normal value)
    (hobject : value.asObject = none) (hkey : key ≠ "properties")
    (htyped : schemaIsObjectTyped [(key, value)] = false) : Normal (.object [(key, value)]) := by
  have hget : ∀ k value', Map.get [(key, value)] k = some value' → k = key ∧ value' = value := by
    intro k value' h
    rw [Map.get] at h
    split at h
    · next heq => exact ⟨heq.symm, (Option.some.inj h).symm⟩
    · cases h
  refine .object (List.pairwise_singleton _ _) ?_ ?_ ?_ ?_ ?_
  · intro k cs h
    obtain ⟨-, rfl⟩ := hget k _ h
    cases hobject
  · intro k cs h
    obtain ⟨-, rfl⟩ := hget k _ h
    cases hobject
  · intro k value' h _
    exact (hget k value' h).2 ▸ hvalue
  · intro ps h
    exact absurd (hget _ _ h).1.symm hkey
  · rintro (h | h)
    · rw [htyped] at h
      cases h
    · obtain ⟨value', h⟩ := Option.isSome_iff_exists.mp h
      exact absurd (hget _ _ h).1.symm hkey

theorem normal_nullSchema : Normal nullSchema :=
  normal_singleton (.string _) rfl (by decide) (by decide)

theorem Normal.orNull {v : Value} (h : Normal v) : Normal (orNull v) := by
  refine normal_singleton (.array fun item hitem => ?_) rfl (by decide) rfl
  obtain rfl | hitem := List.mem_cons.mp hitem
  · exact h
  · exact List.mem_singleton.mp hitem ▸ normal_nullSchema

/-- A list that replaces one of the keywords that say nothing of properties. -/
theorem Normal.insert_array {map : Map Value} (h : Normal (.object map)) {key : String}
    {items : List Value} (hkey : key ∉ ["properties", "required", "additionalProperties"])
    (hitems : ∀ item ∈ items, Normal item)
    (htyped : schemaIsObjectTyped (Map.insert map key (.array items)) → schemaIsObjectTyped map) :
    Normal (.object (Map.insert map key (.array items))) := by
  have hkeywords : KeywordsNormal (Map.insert map key (.array items)) :=
    h.keywordsNormal.insert (.array hitems) fun _ => rfl
  have hget : ∀ k ∈ ["properties", "required", "additionalProperties"],
      Map.get (Map.insert map key (.array items)) k = Map.get map k := fun k hk => by
    have hne : key ≠ k := fun heq => hkey (heq ▸ hk)
    rw [Map.get_insert, if_neg hne]
  obtain ⟨sorted, sortedChildren, children, keywords⟩ := hkeywords
  cases h with
  | object _ _ _ _ required additional =>
      refine .object sorted sortedChildren children keywords ?_ ?_
      · intro ps hps
        rw [hget _ (by decide)] at hps ⊢
        exact required ps hps
      · intro hor
        rw [hget _ (by decide)] at hor ⊢
        exact additional (hor.imp_left htyped)

/-- What is made nullable keeps the form. -/
theorem Normal.makeSchemaNullable {v : Value} (h : Normal v) : Normal (makeSchemaNullable v) := by
  cases v with
  | null | bool | number | string | array => exact h.orNull
  | object map =>
      have hitems : ∀ key items, Map.get map key = some (.array items) →
          ∀ item ∈ items, Normal item := by
        intro key items hget
        cases h.keywordsNormal.keywords key _ hget (fun _ => rfl) with
        | array hitems => exact hitems
      unfold OpenAiSchema.makeSchemaNullable
      dsimp only
      split
      · next t ht =>
          split
          · refine h.insert_array (by decide) ?_ ?_
            · intro item hitem
              obtain rfl | hitem := List.mem_cons.mp hitem
              · exact .string t
              · exact List.mem_singleton.mp hitem ▸ .string _
            · intro htyped
              rw [schemaIsObjectTyped, Map.get_insert, if_pos rfl] at htyped
              rw [schemaIsObjectTyped, ht]
              simpa [Value.asStr] using htyped
          · exact h
      · next types htypes =>
          refine h.insert_array (by decide) ?_ ?_
          · split
            · exact hitems _ _ htypes
            · intro item hitem
              obtain hitem | hitem := List.mem_append.mp hitem
              · exact hitems _ _ htypes item hitem
              · exact List.mem_singleton.mp hitem ▸ .string _
          · intro htyped
            rw [schemaIsObjectTyped, Map.get_insert, if_pos rfl] at htyped
            rw [schemaIsObjectTyped, htypes]
            dsimp only at htyped ⊢
            split at htyped
            · exact htyped
            · simpa [Value.asStr] using htyped
      · split
        · next anyOf hanyOf =>
            refine h.insert_array (by decide) ?_ ?_
            · split
              · exact hitems _ _ hanyOf
              · intro item hitem
                obtain hitem | hitem := List.mem_append.mp hitem
                · exact hitems _ _ hanyOf item hitem
                · exact List.mem_singleton.mp hitem ▸ normal_nullSchema
            · intro htyped
              rwa [schemaIsObjectTyped, Map.get_insert, if_neg (by decide)] at htyped
        · exact h.orNull

/-! ### Closing an object -/

/-- The properties that were optional are made nullable, and all are listed. -/
theorem KeywordsNormal.normalizeRequiredProperties {map : Map Value} (h : KeywordsNormal map) :
    KeywordsNormal (normalizeRequiredProperties map) ∧
      ∀ ps, Map.get (normalizeRequiredProperties map) "properties" = some (.object ps) →
        Map.get (normalizeRequiredProperties map) "required" =
          some (.array ((Map.keys ps).map .string)) := by
  unfold OpenAiSchema.normalizeRequiredProperties
  cases hget : (Map.get map "properties").bind Value.asObject with
  | none =>
      refine ⟨h, fun ps hps => ?_⟩
      rw [show Map.get map "properties" = _ from hps] at hget
      cases hget
  | some ps =>
      obtain ⟨value, hvalue, hobject⟩ := Option.bind_eq_some_iff.mp hget
      obtain rfl : value = .object ps := by
        cases value with
        | object ps' => exact congrArg Value.object (Option.some.inj hobject)
        | null | bool | number | string | array => cases hobject
      have hsorted := h.sortedChildren _ ps hvalue (by decide)
      have hps := h.children _ ps hvalue (by decide)
      have hnew : ∀ e ∈ Map.mapValues (fun name schema =>
          if name ∈ existingRequiredKeys map then schema else makeSchemaNullable schema) ps,
          Normal e.2 := by
        refine List.forall_mem_map.mpr fun e he => ?_
        dsimp only
        split
        · exact hps e he
        · exact (hps e he).makeSchemaNullable
      dsimp only
      refine ⟨?_, ?_⟩
      · refine (h.insert_children (by decide) (hsorted.mapValues _) hnew).insert ?_ (fun _ => rfl)
        exact .array (List.forall_mem_map.mpr fun name _ => .string name)
      · intro ps' hps'
        rw [Map.get_insert, if_neg (by decide), Map.get_insert, if_pos rfl] at hps'
        cases hps'
        rw [Map.get_insert, if_pos rfl, sort_keys hsorted, Map.keys_mapValues]

theorem schemaIsObjectTyped_congr {map map' : Map Value}
    (h : Map.get map "type" = Map.get map' "type") :
    schemaIsObjectTyped map = schemaIsObjectTyped map' := by
  rw [schemaIsObjectTyped, schemaIsObjectTyped, h]

theorem get_normalizeRequiredProperties {map : Map Value} {key : String}
    (hkey : key ∉ ["properties", "required"]) :
    Map.get (normalizeRequiredProperties map) key = Map.get map key := by
  simp only [List.mem_cons, List.not_mem_nil, or_false, not_or] at hkey
  unfold normalizeRequiredProperties
  split
  · rfl
  · dsimp only
    rw [Map.get_insert, if_neg (Ne.symm hkey.2), Map.get_insert, if_neg (Ne.symm hkey.1)]

/-- A map of normal keywords is closed. -/
theorem KeywordsNormal.closeMap {map : Map Value} (h : KeywordsNormal map) :
    Normal (.object (closeMap map)) := by
  obtain ⟨hkeywords, hrequired⟩ := h.normalizeRequiredProperties
  have htyped : schemaIsObjectTyped (OpenAiSchema.normalizeRequiredProperties map) =
      schemaIsObjectTyped map :=
    schemaIsObjectTyped_congr (get_normalizeRequiredProperties (by decide))
  unfold OpenAiSchema.closeMap
  dsimp only
  split
  · have hclosed : KeywordsNormal (Map.insert (OpenAiSchema.normalizeRequiredProperties map)
        "additionalProperties" (.bool false)) := hkeywords.insert (.bool false) fun _ => rfl
    obtain ⟨sorted, sortedChildren, children, keywords⟩ := hclosed
    refine .object sorted sortedChildren children keywords ?_ ?_
    · intro ps hps
      rw [Map.get_insert, if_neg (by decide)] at hps ⊢
      exact hrequired ps hps
    · intro _
      rw [Map.get_insert, if_pos rfl]
  · next hnot =>
      obtain ⟨sorted, sortedChildren, children, keywords⟩ := hkeywords
      refine .object sorted sortedChildren children keywords hrequired ?_
      intro hor
      rw [htyped] at hor
      exact absurd (Bool.or_eq_true_iff.mpr hor) hnot

/-- A keyword's value has the form once it is normalized, if what is inside it has. -/
theorem keywordsNormal_mapValues {map : Map Value} (hsorted : Map.Sorted map)
    (hfields : ∀ e ∈ map, e.2.Ordered)
    (ih : ∀ v, sizeOf v < sizeOf (Value.object map) → v.Ordered → Normal (strictNormalizeSchema v)) :
    KeywordsNormal (Map.mapValues normalizeStrictSchemaKeyword map) := by
  -- the value that a keyword's was normalized from, and which of the two ways
  have hfrom : ∀ key value, Map.get (Map.mapValues normalizeStrictSchemaKeyword map) key = some value →
      (∃ cs, isMapKeyword key ∧ (Value.object cs).Ordered ∧
        value = .object (Map.mapValues (fun _ => strictNormalizeSchema) cs) ∧
        ∀ e ∈ cs, Normal (strictNormalizeSchema e.2)) ∨
      ((isMapKeyword key → value.asObject = none) ∧ Normal value) := by
    intro key value hget
    rw [Map.get_mapValues] at hget
    obtain ⟨v, hv, rfl⟩ := Option.map_eq_some_iff.mp hget
    have hmem := Map.mem_of_get hv
    have hlt : sizeOf v < sizeOf (Value.object map) := Value.sizeOf_field hmem
    have hordered : v.Ordered := hfields _ hmem
    have hnormal := ih v hlt hordered
    rw [normalizeStrictSchemaKeyword_eq]
    cases v with
    | object cs =>
        dsimp only
        split
        · next hkey =>
            refine .inl ⟨cs, hkey, hordered, rfl, fun e he => ?_⟩
            cases hordered with
            | object _ hcs => exact ih e.2 ((Value.sizeOf_field he).trans hlt) (hcs e he)
        · next hkey => exact .inr ⟨fun h => absurd h hkey, hnormal⟩
    | array items =>
        refine .inr ⟨fun _ => ?_, hnormal⟩
        rw [strictNormalizeSchema_array]
        rfl
    | null | bool | number | string => exact .inr ⟨fun _ => rfl, hnormal⟩
  refine ⟨hsorted.mapValues _, ?_, ?_, ?_⟩
  · intro key cs hget hkey
    obtain ⟨cs', -, hordered, heq, -⟩ | ⟨hobject, -⟩ := hfrom key _ hget
    · cases heq
      cases hordered with
      | object hsorted _ => exact hsorted.mapValues _
    · cases hobject hkey
  · intro key cs hget hkey
    obtain ⟨cs', -, -, heq, hcs⟩ | ⟨hobject, -⟩ := hfrom key _ hget
    · cases heq
      exact List.forall_mem_map.mpr hcs
    · cases hobject hkey
  · intro key value hget hobject
    obtain ⟨cs, hkey, -, rfl, -⟩ | ⟨-, hnormal⟩ := hfrom key _ hget
    · cases hobject hkey
    · exact hnormal

/-- **The result has the form.** -/
theorem strictNormalizeSchema_normal {v : Value} (h : v.Ordered) :
    Normal (strictNormalizeSchema v) := by
  induction v using Value.sub_induction with
  | h v ih =>
      cases h with
      | null => exact .null
      | bool b => exact .bool b
      | number text => exact .number text
      | string s => exact .string s
      | array hitems =>
          rw [strictNormalizeSchema_array]
          refine .array (List.forall_mem_map.mpr fun item hitem => ?_)
          exact ih item (Value.sizeOf_item hitem) (hitems item hitem)
      | object hsorted hfields =>
          rw [strictNormalizeSchema_object]
          exact (keywordsNormal_mapValues hsorted hfields ih).closeMap

/-! ### What is reached through keywords -/

/-- The values that a schema is made of: those of its keywords, or of the entries of a keyword's map
of schemas, and the items of its lists, at any depth. -/
inductive Reached (schema : Value) : Value → Prop where
  | refl : Reached schema schema
  | item {items : List Value} {item : Value} (h : Reached schema (.array items))
      (hitem : item ∈ items) : Reached schema item
  | keyword {map : Map Value} {key : String} {value : Value} (h : Reached schema (.object map))
      (hget : Map.get map key = some value) (hkey : isMapKeyword key → value.asObject = none) :
      Reached schema value
  | child {map cs : Map Value} {key name : String} {value : Value}
      (h : Reached schema (.object map)) (hget : Map.get map key = some (.object cs))
      (hkey : isMapKeyword key) (hchild : Map.get cs name = some value) : Reached schema value

theorem Normal.of_reached {schema v : Value} (h : Normal schema) (hreached : Reached schema v) :
    Normal v := by
  induction hreached with
  | refl => exact h
  | item _ hitem ih =>
      cases ih with
      | array hitems => exact hitems _ hitem
  | keyword _ hget hkey ih => exact ih.keywordsNormal.keywords _ _ hget hkey
  | child _ hget hkey hchild ih =>
      exact ih.keywordsNormal.children _ _ hget hkey _ (Map.mem_of_get hchild)

/-- **A fixpoint is reached at once**, and in it every object that has properties requires each of
them, by ascending name, and allows no others. -/
theorem strict_normalize_schema_fixpoint {schema : Value} (h : schema.Ordered) :
    strictNormalizeSchema (strictNormalizeSchema schema) = strictNormalizeSchema schema ∧
      ∀ map ps, Reached (strictNormalizeSchema schema) (.object map) →
        Map.get map "properties" = some (.object ps) →
        (Map.keys ps).Pairwise (· < ·) ∧
          Map.get map "required" = some (.array ((Map.keys ps).map .string)) ∧
          Map.get map "additionalProperties" = some (.bool false) := by
  have hnormal := strictNormalizeSchema_normal h
  refine ⟨hnormal.strictNormalizeSchema_eq, fun map ps hreached hps => ?_⟩
  cases hnormal.of_reached hreached with
  | object _ sortedChildren _ _ required additional =>
      refine ⟨Map.sorted_keys.mp (sortedChildren _ ps hps (by decide)), required ps hps, ?_⟩
      exact additional (.inr (by rw [hps]; rfl))

/-- An object in an object. -/
def nestedSchema : Value :=
  .object [("properties", .object [("child", .object [("properties", .object
    [("name", .object [("type", .string "string")])]), ("type", .string "object")])]),
    ("type", .string "object")]

theorem strict_normalize_schema_fixpoint_nested :
    strictNormalizeSchema (strictNormalizeSchema nestedSchema) =
        strictNormalizeSchema nestedSchema ∧
      (strictNormalizeSchema nestedSchema).get "required" = some (.array [.string "child"]) := by
  obtain ⟨hfixed, hobjects⟩ :=
    strict_normalize_schema_fixpoint (.of_isOrdered (v := nestedSchema) (by decide))
  exact ⟨hfixed, (hobjects _ _ .refl rfl).2.1⟩

end Jcode.OpenAiSchema
