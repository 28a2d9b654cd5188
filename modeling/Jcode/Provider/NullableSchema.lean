import Jcode.Provider.StrictSchema

/-!
# Provider — nullable schemas

What `make_schema_nullable` does to the instances that a schema admits, by the meaning of the
keywords `type`, `enum`, `const`, `properties`, `required` and `anyOf`.  One keyword is edited, and
the others still constrain `null`.

* `validates_makeSchemaNullable`: the instances other than `null` are those of the schema.
* `make_schema_nullable_iff`: `null` is added exactly if the other keywords admit it (`Widened`).
* `enum_not_widened`: an optional property with an `enum` cannot be answered with `null`.
-/

namespace Jcode.OpenAiSchema

open Serde

/-! ### Validation -/

/-- How numbers are read: which are integers, and when two values are equal. -/
structure Reading where
  isInteger : String → Bool
  equal : Value → Value → Prop
  equal_null : ∀ v, equal v .null ↔ v = .null

/-- The instance has the type. -/
def HasType (r : Reading) (t : String) : Value → Prop
  | .null => t = "null"
  | .bool _ => t = "boolean"
  | .number text => t = "number" ∨ t = "integer" ∧ r.isInteger text
  | .string _ => t = "string"
  | .array _ => t = "array"
  | .object _ => t = "object"

/-- A keyword that has no schemas inside; one that is malformed, or unknown, admits everything. -/
def AssertionHolds (r : Reading) (key : String) (value v : Value) : Prop :=
  match key, value with
  | "type", .string t => HasType r t v
  | "type", .array types => ∃ t, .string t ∈ types ∧ HasType r t v
  | "enum", .array values => ∃ x ∈ values, r.equal x v
  | "const", value => r.equal value v
  | "required", .array names =>
      ∀ map, v = .object map → ∀ name, .string name ∈ names → (Map.get map name).isSome
  | _, _ => True

mutual

/-- The instance is valid; what is neither an object nor a Boolean is no schema. -/
def Validates (r : Reading) : Value → Value → Prop
  | .bool b, _ => b = true
  | .object map, v => FieldsValidate r map v
  | _, _ => False

def FieldsValidate (r : Reading) : List (String × Value) → Value → Prop
  | [], _ => True
  | (key, .array branches) :: map, v =>
      (if key = "anyOf" then AnyValidates r branches v
        else AssertionHolds r key (.array branches) v) ∧ FieldsValidate r map v
  | (key, .object ps) :: map, v =>
      (if key = "properties" then PropertiesValidate r ps v
        else AssertionHolds r key (.object ps) v) ∧ FieldsValidate r map v
  | (key, value) :: map, v => AssertionHolds r key value v ∧ FieldsValidate r map v

def AnyValidates (r : Reading) : List Value → Value → Prop
  | [], _ => False
  | branch :: branches, v => Validates r branch v ∨ AnyValidates r branches v

def PropertiesValidate (r : Reading) : List (String × Value) → Value → Prop
  | [], _ => True
  | (name, schema) :: ps, v =>
      (∀ x, v.get name = some x → Validates r schema x) ∧ PropertiesValidate r ps v

end

/-- A keyword admits the instance. -/
def KeywordHolds (r : Reading) (key : String) (value v : Value) : Prop :=
  match value with
  | .array branches =>
      if key = "anyOf" then ∃ branch ∈ branches, Validates r branch v
      else AssertionHolds r key (.array branches) v
  | .object ps =>
      if key = "properties" then ∀ e ∈ ps, ∀ x, v.get e.1 = some x → Validates r e.2 x
      else AssertionHolds r key (.object ps) v
  | value => AssertionHolds r key value v

section
variable {r : Reading}

theorem anyValidates_iff {branches : List Value} {v : Value} :
    AnyValidates r branches v ↔ ∃ branch ∈ branches, Validates r branch v := by
  induction branches with
  | nil => simp [AnyValidates]
  | cons branch branches ih =>
      rw [AnyValidates, ih]
      simp only [List.mem_cons, exists_eq_or_imp]

theorem propertiesValidate_iff {ps : Map Value} {v : Value} :
    PropertiesValidate r ps v ↔ ∀ e ∈ ps, ∀ x, v.get e.1 = some x → Validates r e.2 x := by
  induction ps with
  | nil => simp [PropertiesValidate]
  | cons e ps ih => rw [PropertiesValidate, ih, List.forall_mem_cons]

theorem fieldsValidate_iff {map : Map Value} {v : Value} :
    FieldsValidate r map v ↔ ∀ e ∈ map, KeywordHolds r e.1 e.2 v := by
  induction map with
  | nil => simp [FieldsValidate]
  | cons e map ih =>
      obtain ⟨key, value⟩ := e
      rw [List.forall_mem_cons, ← ih]
      cases value with
      | array branches =>
          rw [FieldsValidate, anyValidates_iff]
          rfl
      | object ps =>
          rw [FieldsValidate, propertiesValidate_iff]
          rfl
      | null | bool | number | string =>
          rw [FieldsValidate]
          · rfl
          · nofun
          · nofun

/-- An object admits what each of its keywords does. -/
theorem validates_object {map : Map Value} (h : Map.Sorted map) {v : Value} :
    Validates r (.object map) v ↔
      ∀ key value, Map.get map key = some value → KeywordHolds r key value v := by
  rw [Validates, fieldsValidate_iff]
  exact ⟨fun hall key value hget => hall _ (Map.mem_of_get hget),
    fun hall e he => hall e.1 e.2 (h.get_of_mem he)⟩

/-- One keyword is replaced. -/
theorem validates_insert {map : Map Value} (h : Map.Sorted map) {key : String} {value v : Value} :
    Validates r (.object (Map.insert map key value)) v ↔
      KeywordHolds r key value v ∧
        ∀ k x, Map.get map k = some x → k ≠ key → KeywordHolds r k x v := by
  rw [validates_object (h.insert key value)]
  constructor
  · intro hall
    refine ⟨hall key value (by rw [Map.get_insert, if_pos rfl]), fun k x hget hne => ?_⟩
    exact hall k x (by rw [Map.get_insert, if_neg (Ne.symm hne), hget])
  · rintro ⟨hkey, hothers⟩ k x hget
    rw [Map.get_insert] at hget
    split at hget
    · next heq =>
        cases hget
        exact heq ▸ hkey
    · next hne => exact hothers k x hget (Ne.symm hne)

theorem validates_get {map : Map Value} (h : Map.Sorted map) {key : String} {value v : Value}
    (hget : Map.get map key = some value) :
    Validates r (.object map) v ↔
      KeywordHolds r key value v ∧
        ∀ k x, Map.get map k = some x → k ≠ key → KeywordHolds r k x v := by
  rw [← validates_insert h, h.insert_of_get hget]

/-! ### The keywords that are edited -/

theorem hasType_null {v : Value} : HasType r "null" v ↔ v = .null := by
  cases v <;> simp [HasType]

theorem typeHolds_string {t : String} {v : Value} :
    KeywordHolds r "type" (.string t) v ↔ HasType r t v := Iff.rfl

theorem typeHolds_array {types : List Value} {v : Value} :
    KeywordHolds r "type" (.array types) v ↔ ∃ t, .string t ∈ types ∧ HasType r t v := Iff.rfl

theorem eq_string {v : Value} {s : String} (h : v.asStr = some s) : v = .string s := by
  cases v with
  | string s' => exact congrArg Value.string (Option.some.inj h)
  | null | bool | number | array | object => cases h

/-- The type `null` is listed, or listed besides. -/
theorem typeHolds_append {types : List Value} {v : Value} :
    KeywordHolds r "type" (.array (types ++ [.string "null"])) v ↔
      KeywordHolds r "type" (.array types) v ∨ v = .null := by
  simp only [typeHolds_array, List.mem_append, List.mem_singleton, Value.string.injEq, or_and_right,
    exists_or, exists_eq_left, hasType_null]

theorem typeHolds_pair {t : String} {v : Value} :
    KeywordHolds r "type" (.array [.string t, .string "null"]) v ↔ HasType r t v ∨ v = .null := by
  simp [typeHolds_array, hasType_null]

theorem anyOfHolds {branches : List Value} {v : Value} :
    KeywordHolds r "anyOf" (.array branches) v ↔ ∃ branch ∈ branches, Validates r branch v := Iff.rfl

theorem validates_nullSchema {v : Value} : Validates r nullSchema v ↔ v = .null := by
  rw [nullSchema, validates_object (List.pairwise_singleton _ _)]
  constructor
  · intro h
    exact hasType_null.mp (h "type" (.string "null") rfl)
  · rintro rfl key value hget
    rw [Map.get] at hget
    split at hget
    · next heq =>
        cases hget
        exact heq ▸ typeHolds_string.mpr (hasType_null.mpr rfl)
    · cases hget

theorem anyOfHolds_append {branches : List Value} {v : Value} :
    KeywordHolds r "anyOf" (.array (branches ++ [nullSchema])) v ↔
      KeywordHolds r "anyOf" (.array branches) v ∨ v = .null := by
  simp only [anyOfHolds, List.mem_append, List.mem_singleton, or_and_right, exists_or,
    exists_eq_left, validates_nullSchema]

theorem validates_orNull {schema v : Value} :
    Validates r (orNull schema) v ↔ Validates r schema v ∨ v = .null := by
  have hinsert : orNull schema =
      .object (Map.insert [] "anyOf" (.array ([schema] ++ [nullSchema]))) := rfl
  rw [hinsert, validates_insert List.Pairwise.nil, anyOfHolds_append, anyOfHolds]
  simp [Map.get]

/-- The keywords but one admit `null`. -/
def OthersAdmitNull (r : Reading) (map : Map Value) (key : String) : Prop :=
  ∀ k value, Map.get map k = some value → k ≠ key → KeywordHolds r k value .null

/-- Where a keyword is edited, the others admit `null`, and where a branch for it is found, a branch
does. -/
def Widened (r : Reading) : Value → Prop
  | .object map =>
      match Map.get map "type" with
      | some (.string _) => OthersAdmitNull r map "type"
      | some (.array _) => OthersAdmitNull r map "type"
      | _ =>
          match Map.get map "anyOf" with
          | some (.array branches) =>
              OthersAdmitNull r map "anyOf" ∧
                (branches.any schemaContainsNullType → ∃ branch ∈ branches, Validates r branch .null)
          | _ => True
  | _ => True

/-- **The other instances** are not touched. -/
theorem validates_makeSchemaNullable {schema v : Value} (h : schema.Ordered) (hv : v ≠ .null) :
    Validates r (makeSchemaNullable schema) v ↔ Validates r schema v := by
  cases h with
  | null | bool | number | string | array => exact validates_orNull.trans (or_iff_left hv)
  | @object map hsorted _ =>
      unfold makeSchemaNullable
      dsimp only
      split
      · next t ht =>
          split
          · rw [validates_insert hsorted, validates_get hsorted ht]
            refine and_congr_left fun _ => ?_
            exact typeHolds_pair.trans (or_iff_left hv)
          · exact Iff.rfl
      · next types htypes =>
          rw [validates_insert hsorted, validates_get hsorted htypes]
          refine and_congr_left fun _ => ?_
          split
          · exact Iff.rfl
          · exact typeHolds_append.trans (or_iff_left hv)
      · split
        · next branches hbranches =>
            rw [validates_insert hsorted, validates_get hsorted hbranches]
            refine and_congr_left fun _ => ?_
            split
            · exact Iff.rfl
            · exact anyOfHolds_append.trans (or_iff_left hv)
        · exact validates_orNull.trans (or_iff_left hv)

/-- **Null** is admitted exactly if the keywords that are not edited admit it. -/
theorem validates_null_makeSchemaNullable {schema : Value} (h : schema.Ordered) :
    Validates r (makeSchemaNullable schema) .null ↔ Widened r schema := by
  cases h with
  | null | bool | number | string | array => exact iff_of_true (validates_orNull.mpr (.inr rfl)) trivial
  | @object map hsorted _ =>
      unfold makeSchemaNullable
      dsimp only
      split
      · next t ht =>
          have hwidened : Widened r (.object map) = OthersAdmitNull r map "type" := by
            rw [Widened, ht]
          rw [hwidened]
          split
          · rw [validates_insert hsorted]
            exact and_iff_right (typeHolds_pair.mpr (.inr rfl))
          · next hnull =>
              rw [validates_get hsorted ht, typeHolds_string, not_not.mp hnull]
              exact and_iff_right rfl
      · next types htypes =>
          have hwidened : Widened r (.object map) = OthersAdmitNull r map "type" := by
            rw [Widened, htypes]
          rw [hwidened, validates_insert hsorted]
          refine and_iff_right ?_
          split
          · next hany =>
              obtain ⟨item, hitem, hnull⟩ := List.any_eq_true.mp hany
              exact typeHolds_array.mpr ⟨"null", eq_string (beq_iff_eq.mp hnull) ▸ hitem, rfl⟩
          · exact typeHolds_append.mpr (.inr rfl)
      · next hstring harray =>
          split
          · next branches hbranches =>
              have hwidened : Widened r (.object map) = (OthersAdmitNull r map "anyOf" ∧
                  (branches.any schemaContainsNullType →
                    ∃ branch ∈ branches, Validates r branch .null)) := by
                unfold Widened
                dsimp only
                split
                · next t ht => exact (hstring t ht).elim
                · next types htypes => exact (harray types htypes).elim
                · rw [hbranches]
              rw [hwidened, validates_insert hsorted, and_comm]
              refine and_congr_right fun _ => ?_
              split
              · next hany => exact ⟨fun h _ => h, fun h => h hany⟩
              · next hany => exact iff_of_true (anyOfHolds_append.mpr (.inr rfl)) (absurd · hany)
          · next hanyOf =>
              have hwidened : Widened r (.object map) = True := by
                unfold Widened
                dsimp only
                split
                · next t ht => exact (hstring t ht).elim
                · next types htypes => exact (harray types htypes).elim
                · split
                  · next branches hbranches => exact (hanyOf branches hbranches).elim
                  · rfl
              rw [hwidened]
              exact iff_of_true (validates_orNull.mpr (.inr rfl)) trivial

end

/-! ### Optional properties -/

theorem asStr_strictNormalizeSchema (v : Value) : (strictNormalizeSchema v).asStr = v.asStr := by
  cases v with
  | array items =>
      rw [strictNormalizeSchema_array]
      rfl
  | object map =>
      rw [strictNormalizeSchema_object]
      rfl
  | null | bool | number | string => rfl

theorem asArray_normalizeStrictSchemaKeyword (key : String) (v : Value) :
    (normalizeStrictSchemaKeyword key v).asArray =
      v.asArray.map (List.map strictNormalizeSchema) := by
  rw [normalizeStrictSchemaKeyword_eq]
  cases v with
  | array items =>
      dsimp only
      rw [strictNormalizeSchema_array]
      rfl
  | object children =>
      dsimp only
      rw [strictNormalizeSchema_object]
      split <;> rfl
  | null | bool | number | string => rfl

/-- Normalizing the keywords does not change what is required. -/
theorem existingRequiredKeys_mapValues (map : Map Value) :
    existingRequiredKeys (Map.mapValues normalizeStrictSchemaKeyword map) =
      existingRequiredKeys map := by
  have hnames : ∀ items : List Value,
      (items.map strictNormalizeSchema).filterMap Value.asStr = items.filterMap Value.asStr := by
    intro items
    rw [List.filterMap_map]
    exact List.filterMap_congr fun v _ => asStr_strictNormalizeSchema v
  rw [existingRequiredKeys, existingRequiredKeys, Map.get_mapValues]
  cases Map.get map "required" with
  | none => rfl
  | some v =>
      rw [Option.map_some, Option.bind_some, Option.bind_some, asArray_normalizeStrictSchemaKeyword]
      cases v.asArray with
      | none => rfl
      | some items => exact hnames items

theorem get_properties_closeMap {map ps : Map Value}
    (hps : Map.get map "properties" = some (.object ps)) :
    Map.get (closeMap map) "properties" = some (.object (Map.mapValues
      (fun name schema => if name ∈ existingRequiredKeys map then schema
        else makeSchemaNullable schema) ps)) := by
  have hrequired : Map.get (normalizeRequiredProperties map) "properties" = some (.object
      (Map.mapValues (fun name schema => if name ∈ existingRequiredKeys map then schema
        else makeSchemaNullable schema) ps)) := by
    rw [normalizeRequiredProperties, hps, Option.bind_some, Value.asObject]
    dsimp only
    rw [Map.get_insert, if_neg (by decide), Map.get_insert, if_pos rfl]
  unfold closeMap
  dsimp only
  split
  · rwa [Map.get_insert, if_neg (by decide)]
  · exact hrequired

/-- An optional property is made nullable. -/
theorem get_properties_strictNormalizeSchema {map ps : Map Value} {name : String} {schema : Value}
    (hps : Map.get map "properties" = some (.object ps)) (hget : Map.get ps name = some schema)
    (hoptional : name ∉ existingRequiredKeys map) :
    ∃ out ps', strictNormalizeSchema (.object map) = .object out ∧
      Map.get out "properties" = some (.object ps') ∧
      Map.get ps' name = some (makeSchemaNullable (strictNormalizeSchema schema)) := by
  have hnormalized : Map.get (Map.mapValues normalizeStrictSchemaKeyword map) "properties" =
      some (.object (Map.mapValues (fun _ => strictNormalizeSchema) ps)) := by
    rw [Map.get_mapValues, hps, Option.map_some, normalizeStrictSchemaKeyword_eq]
    rfl
  rw [strictNormalizeSchema_object]
  refine ⟨_, _, rfl, get_properties_closeMap hnormalized, ?_⟩
  rw [Map.get_mapValues, Map.get_mapValues, hget, existingRequiredKeys_mapValues]
  exact congrArg some (if_neg hoptional)

/-- **Null is added exactly if** the other keywords admit it, and so is it for the optional
properties of an object that is normalized. -/
theorem make_schema_nullable_iff (r : Reading) {schema : Value} (h : schema.Ordered) :
    (Validates r (makeSchemaNullable schema) .null ∧
        (∀ v, v ≠ .null → (Validates r (makeSchemaNullable schema) v ↔ Validates r schema v)) ↔
      Widened r schema) ∧
    ∀ map ps name property, schema = .object map →
      Map.get map "properties" = some (.object ps) → Map.get ps name = some property →
      name ∉ existingRequiredKeys map →
      ∃ out ps' property', strictNormalizeSchema schema = .object out ∧
        Map.get out "properties" = some (.object ps') ∧ Map.get ps' name = some property' ∧
        (Validates r property' .null ↔ Widened r (strictNormalizeSchema property)) := by
  constructor
  · rw [validates_null_makeSchemaNullable h]
    exact and_iff_left fun v hv => validates_makeSchemaNullable h hv
  · rintro map ps name property rfl hps hget hoptional
    obtain ⟨out, ps', hout, hps', hget'⟩ :=
      get_properties_strictNormalizeSchema hps hget hoptional
    refine ⟨out, ps', _, hout, hps', hget', validates_null_makeSchemaNullable ?_⟩
    have hproperties : (Value.object ps).Ordered := by
      cases h with
      | object _ hfields => exact hfields _ (Map.mem_of_get hps)
    have hproperty : property.Ordered := by
      cases hproperties with
      | object _ hfields => exact hfields _ (Map.mem_of_get hget)
    exact (strictNormalizeSchema_normal hproperty).ordered

/-! ### Where null is not admitted -/

/-- Numbers as they are written. -/
def exactReading : Reading where
  isInteger text := text.toList.all Char.isDigit
  equal := Eq
  equal_null _ := Iff.rfl

/-- An optional property is made nullable where its type is all there is. -/
theorem make_schema_nullable_iff_string :
    Validates exactReading (makeSchemaNullable (.object [("type", .string "string")])) .null :=
  (((make_schema_nullable_iff exactReading
    (.of_isOrdered (v := .object [("type", .string "string")]) (by decide))).1).mpr (by
      intro k value hget hne
      rw [Map.get, if_neg (Ne.symm hne)] at hget
      cases hget)).1

/-- An optional property of one of two values. -/
def unitSchema : Value :=
  .object [("enum", .array [.string "celsius", .string "fahrenheit"]), ("type", .string "string")]

/-- **An enumeration is not widened**: the type of an optional property allows `null`, and its
values still do not. -/
theorem enum_not_widened :
    makeSchemaNullable unitSchema =
        .object [("enum", .array [.string "celsius", .string "fahrenheit"]),
          ("type", .array [.string "string", .string "null"])] ∧
      ¬ Validates exactReading (makeSchemaNullable unitSchema) .null := by
  refine ⟨rfl, fun h => ?_⟩
  rw [validates_null_makeSchemaNullable (.of_isOrdered (by decide))] at h
  obtain ⟨x, hx, hnull⟩ : ∃ x ∈ [Value.string "celsius", .string "fahrenheit"], x = .null :=
    h "enum" _ rfl (by decide)
  simp only [List.mem_cons, List.not_mem_nil, or_false] at hx
  obtain rfl | rfl := hx
  · cases hnull
  · cases hnull

end Jcode.OpenAiSchema
