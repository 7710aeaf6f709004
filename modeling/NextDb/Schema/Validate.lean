import NextDb.Model.Record

/-!
# Validation against a schema

`validateField` checks a JSON value against a field, and stops at the first thing
wrong with it. A key of an object that no field names is not looked at.

`Accepts` says what a value must be like.

* `validateField_ok`: what passes the check is what the field accepts, at every path.
-/

namespace NextDb

open List

def Json.isNull : Json → Bool
  | .null => true
  | _ => false

def Json.asStr : Json → Option String
  | .string value => some value
  | _ => none

def Json.asArray : Json → Option (List Json)
  | .array values => some values
  | _ => none

def Json.asObject : Json → Option (List (String × Json))
  | .object values => some values
  | _ => none

def Json.isBoolean : Json → Bool
  | .bool _ => true
  | _ => false

def Json.isU64 : Json → Bool
  | .number value => value.asU64.isSome
  | _ => false

def isJsonInteger : Json → Bool
  | .number value => value.asI64.isSome || value.asU64.isSome
  | _ => false

/-- A string that is not blank. -/
def isNonEmptyString (value : Option String) : Bool := value.any fun value => trim value != ""

/-- The keys of an object ref whose values must be non-empty strings. -/
def objectRefKeys : List String := ["id", "path", "contentType", "sha256"]

def validateObjectRef (path : String) (value : Json) : Result Unit := do
  let object ← okOr s!"{path} must be an object ref" value.asObject
  objectRefKeys.forM fun key =>
    if isNonEmptyString ((object.lookup key).bind Json.asStr) then .ok ()
    else bail s!"{path}.{key} must be a non-empty string"
  if (object.lookup "byteSize").any Json.isU64 then .ok ()
  else bail s!"{path}.byteSize must be a non-negative integer"

mutual

def validateField : String → FieldSchema → Json → Result Unit
  | path, ⟨fieldType, optional⟩, value =>
    if value.isNull then
      if optional then .ok () else bail s!"{path} cannot be null"
    else validateFieldType path fieldType value

/-- `validate_field` of a value that is not null. -/
def validateFieldType : String → FieldType → Json → Result Unit
  | path, .string, value => if value.asStr.isSome then .ok () else bail s!"{path} must be a string"
  | path, .text inlineUntil, value =>
    match value.asStr with
    | none => bail s!"{path} must be a string"
    | some text =>
      if text.utf8ByteSize > inlineUntil then bail s!"{path} must be at most {inlineUntil} bytes"
      else .ok ()
  | path, .int64, value => if isJsonInteger value then .ok () else bail s!"{path} must be an integer"
  | path, .timeMs, value => if isJsonInteger value then .ok () else bail s!"{path} must be an integer"
  | path, .boolean, value => if value.isBoolean then .ok () else bail s!"{path} must be a boolean"
  | path, .id _, value =>
    if isNonEmptyString value.asStr then .ok () else bail s!"{path} must be a non-empty id string"
  | path, .objectRef _, value => validateObjectRef path value
  | path, .list item, value => do
    let values ← okOr s!"{path} must be an array" value.asArray
    values.zipIdx.forM fun (value, index) =>
      -- an item is a field that is not optional
      if value.isNull then bail s!"{path}[{index}] cannot be null"
      else validateFieldType s!"{path}[{index}]" item value
  | path, .object fields, value => do
    let object ← okOr s!"{path} must be an object" value.asObject
    validateFields path fields object
  | _, .json, _ => .ok ()

/-- The loop over the fields in `validate_object_fields`. -/
def validateFields : String → List (String × FieldSchema) → List (String × Json) → Result Unit
  | _, [], _ => .ok ()
  | path, (name, field) :: fields, object => do
    (match object.lookup name with
      | some value => validateField s!"{path}.{name}" field value
      | none => if field.optional then .ok () else bail s!"{path}.{name} is required")
    validateFields path fields object

end

def validateObjectFields (path : String) (fields : List (String × FieldSchema)) (value : Json) :
    Result Unit := do
  let object ← okOr s!"{path} must be an object" value.asObject
  validateFields path fields object

variable (self : DatabaseSchema)

def DatabaseSchema.validateTableRecord (tableName : String) (value : Json) :
    Result Unit := do
  let table ← okOr s!"schema missing table {tableName}" self.tables[tableName]?
  validateObjectFields s!"tables.{tableName}" table.fields.toList value

def DatabaseSchema.nestedTable (tableName nestedName : String) : Option NestedTableSchema :=
  self.tables[tableName]?.bind fun table => table.nested[nestedName]?

def DatabaseSchema.validateNestedTableRecord (tableName nestedName : String)
    (value : Json) : Result Unit := do
  let nested ← okOr s!"schema missing nested table {tableName}.{nestedName}" (self.nestedTable tableName nestedName)
  validateObjectFields s!"tables.{tableName}.nested.{nestedName}" nested.fields.toList value

def DatabaseSchema.validateBehaviorInput (behaviorName mutation : String)
    (value : Json) : Result Unit := do
  let field ← okOr s!"schema missing behavior input {behaviorName}.{mutation}"
    (self.behaviors[behaviorName]?.bind fun behavior => behavior.mutations[mutation]?)
  validateField s!"behavior.{behaviorName}.{mutation}" field value

/-- The payload of an event that the schema does not declare is not checked. -/
def DatabaseSchema.validateEventPayload (eventName : String) (value : Json) : Result Unit :=
  match self.events[eventName]? with
  | none => .ok ()
  | some event => validateField s!"events.{eventName}.payload" event.payload value

/-! ## What a field accepts -/

mutual

/-- The value is one of the field. -/
def FieldSchema.Accepts : FieldSchema → Json → Prop
  | ⟨fieldType, optional⟩, value =>
    if value.isNull then optional = true else fieldType.Accepts value

/-- What a value that is not null must be like. -/
def FieldType.Accepts : FieldType → Json → Prop
  | .string, value => value.asStr.isSome
  | .text inlineUntil, value => ∃ text, value.asStr = some text ∧ text.utf8ByteSize ≤ inlineUntil
  | .int64, value => isJsonInteger value
  | .timeMs, value => isJsonInteger value
  | .boolean, value => value.isBoolean
  | .id _, value => isNonEmptyString value.asStr
  | .objectRef _, value => ∃ object, value.asObject = some object ∧
      (∀ key ∈ objectRefKeys, isNonEmptyString ((object.lookup key).bind Json.asStr)) ∧
      (object.lookup "byteSize").any Json.isU64
  | .list item, value => ∃ values, value.asArray = some values ∧
      ∀ value ∈ values, value.isNull = false ∧ item.Accepts value
  | .object fields, value => ∃ object, value.asObject = some object ∧
      FieldSchema.AcceptsAll fields object
  | .json, _ => True

/-- Every field accepts its value, or is optional. -/
def FieldSchema.AcceptsAll : List (String × FieldSchema) → List (String × Json) → Prop
  | [], _ => True
  | (name, field) :: fields, object =>
    (match object.lookup name with
      | some value => field.Accepts value
      | none => field.optional = true) ∧ FieldSchema.AcceptsAll fields object

end

theorem validateObjectRef_ok {path : String} {value : Json} :
    validateObjectRef path value = .ok () ↔ ∃ object,
    value.asObject = some object ∧
    (∀ key ∈ objectRefKeys, isNonEmptyString ((object.lookup key).bind Json.asStr)) ∧
    (object.lookup "byteSize").any Json.isU64 := by
  unfold validateObjectRef
  rw [bind_eq_ok]
  refine exists_congr fun object => ?_
  rw [okOr_eq_ok, check_eq_ok, forM_eq_ok, ite_bail_eq_ok]
  simp only [ite_bail_eq_ok]

mutual

theorem validateField_ok : ∀ (path : String) (field : FieldSchema) (value : Json),
    validateField path field value = .ok () ↔ field.Accepts value
  | path, ⟨fieldType, optional⟩, value => by
    simp only [validateField, FieldSchema.Accepts]
    split
    · exact ite_bail_eq_ok
    · exact validateFieldType_ok path fieldType value

theorem validateFieldType_ok : ∀ (path : String) (fieldType : FieldType) (value : Json),
    validateFieldType path fieldType value = .ok () ↔ fieldType.Accepts value
  | path, .string, value => by simp only [validateFieldType, FieldType.Accepts, ite_bail_eq_ok]
  | path, .text inlineUntil, value => by
    simp only [validateFieldType, FieldType.Accepts]
    cases value.asStr with
    | none => simp [bail]
    | some text =>
      by_cases h : text.utf8ByteSize > inlineUntil
      · simp [h, bail]
      · simp [h, Nat.le_of_not_lt h]
  | path, .int64, value => by simp only [validateFieldType, FieldType.Accepts, ite_bail_eq_ok]
  | path, .timeMs, value => by simp only [validateFieldType, FieldType.Accepts, ite_bail_eq_ok]
  | path, .boolean, value => by simp only [validateFieldType, FieldType.Accepts, ite_bail_eq_ok]
  | path, .id _, value => by simp only [validateFieldType, FieldType.Accepts, ite_bail_eq_ok]
  | path, .objectRef _, value => by
    simp only [validateFieldType, FieldType.Accepts]
    exact validateObjectRef_ok
  | path, .list item, value => by
    have hitem : ∀ (index : Nat) (value : Json),
    (if value.isNull then bail s!"{path}[{index}] cannot be null"
          else validateFieldType s!"{path}[{index}]" item value : Result Unit) = .ok () ↔
          value.isNull = false ∧ item.Accepts value := by
      intro index value
      cases hn : value.isNull with
      | true => simp [bail]
      | false =>
        rw [if_neg (by simp), validateFieldType_ok]
        simp
    simp only [validateFieldType, FieldType.Accepts, bind_eq_ok, okOr_eq_ok, forM_eq_ok]
    refine exists_congr fun values => and_congr_right fun _ => ?_
    constructor
    · intro h value hv
      obtain ⟨index, hi⟩ := getElem?_of_mem hv
      exact (hitem index value).mp (h (value, index) (mk_mem_zipIdx_iff_getElem?.mpr hi))
    · rintro h ⟨value, index⟩ hi
      exact (hitem index value).mpr (h value (mem_of_getElem? (mk_mem_zipIdx_iff_getElem?.mp hi)))
  | path, .object fields, value => by
    simp only [validateFieldType, FieldType.Accepts, bind_eq_ok, okOr_eq_ok]
    exact exists_congr fun object => and_congr_right fun _ => validateFields_ok path fields object
  | path, .json, value => by simp only [validateFieldType, FieldType.Accepts]

theorem validateFields_ok :
    ∀ (path : String) (fields : List (String × FieldSchema)) (object : List (String × Json)),
    validateFields path fields object = .ok () ↔ FieldSchema.AcceptsAll fields object
  | path, [], object => by simp only [validateFields, FieldSchema.AcceptsAll]
  | path, (name, field) :: fields, object => by
    have hrest := validateFields_ok path fields object
    simp only [validateFields, FieldSchema.AcceptsAll, check_eq_ok, hrest]
    refine and_congr_left fun _ => ?_
    cases object.lookup name with
    | none => exact ite_bail_eq_ok
    | some value => exact validateField_ok s!"{path}.{name}" field value

end

variable {α : Type} {fields : List (String × FieldSchema)} {key : String}

theorem forall_mem_entries_iff {β : Type} {a : α} {b : β} {entries : List (α × β)}
    {p : α → β → Prop} :
    (∀ x y, (x, y) ∈ (a, b) :: entries → p x y) ↔ p a b ∧ ∀ x y, (x, y) ∈ entries → p x y := by
  simp [or_imp, forall_and]

theorem acceptsAll_iff {object : List (String × Json)} :
    FieldSchema.AcceptsAll fields object ↔ ∀ name field, (name, field) ∈ fields →
      match object.lookup name with
      | some value => field.Accepts value
      | none => field.optional = true := by
  induction fields with
  | nil => simp [FieldSchema.AcceptsAll]
  | cons entry fields ih =>
    obtain ⟨name, field⟩ := entry
    rw [FieldSchema.AcceptsAll, ih, forall_mem_entries_iff]

/-! ## The maps of a schema -/

mutual

/-- At every nesting, the names of the fields are distinct and ascending. -/
def FieldType.WellFormed : FieldType → Prop
  | .list item => item.WellFormed
  | .object fields => KeysAscending fields ∧ FieldSchema.AllWellFormed fields
  | .string | .text _ | .int64 | .timeMs | .boolean | .id _ | .objectRef _ | .json => True

/-- The type of the field is well formed. -/
def FieldSchema.WellFormed : FieldSchema → Prop
  | ⟨fieldType, _⟩ => fieldType.WellFormed

/-- The types of all fields are well formed. -/
def FieldSchema.AllWellFormed : List (String × FieldSchema) → Prop
  | [] => True
  | (_, field) :: fields => field.WellFormed ∧ FieldSchema.AllWellFormed fields

end

theorem allWellFormed_iff :
    FieldSchema.AllWellFormed fields ↔ ∀ name field, (name, field) ∈ fields → field.WellFormed := by
  induction fields with
  | nil => simp [FieldSchema.AllWellFormed]
  | cons entry fields ih =>
    obtain ⟨name, field⟩ := entry
    rw [FieldSchema.AllWellFormed, ih, forall_mem_entries_iff]

/-- A map of fields. -/
def MapWellFormed (fields : BTreeMap String FieldSchema) : Prop :=
  ∀ (name : String) (field : FieldSchema), fields[name]? = some field → field.WellFormed

/-- The fields of a schema, wherever they stand in it. -/
structure DatabaseSchema.WellFormed (schema : DatabaseSchema) : Prop where
  objects : ∀ (name : String) (object : ObjectSchema), schema.objects[name]? = some object → MapWellFormed object.fields
  tables : ∀ (name : String) (table : TableSchema), schema.tables[name]? = some table → MapWellFormed table.fields
  nested : ∀ tableName name nested, schema.nestedTable tableName name = some nested → MapWellFormed nested.fields
  events : ∀ (name : String) (event : EventSchema), schema.events[name]? = some event → event.payload.WellFormed
  behaviors : ∀ (name : String) (behavior : BehaviorSchema), schema.behaviors[name]? = some behavior →
    MapWellFormed behavior.mutations

theorem lookup_eq_of_mem {entries : List (String × α)} (ha : KeysAscending entries) {a : α}
    (h : (key, a) ∈ entries) :
    entries.lookup key = some a := by
  induction entries with
  | nil => cases h
  | cons entry entries ih =>
    obtain ⟨key', b⟩ := entry
    rw [KeysAscending, pairwise_cons] at ha
    rw [lookup_cons]
    rcases mem_cons.mp h with h | h
    · cases h
      simp
    · have hlt : key' < key := ha.1 _ h
      have hne : (key == key') = false := by
        simpa using fun he : key = key' => absurd (he ▸ hlt) (String.lt_irrefl _)
      rw [hne]
      exact ih ha.2 h

theorem mem_of_lookup {entries : List (String × α)} {a : α} (h : entries.lookup key = some a) :
    (key, a) ∈ entries := by
  obtain ⟨before, after, rfl, -⟩ := lookup_eq_some_iff.mp h
  exact mem_append_right _ mem_cons_self

end NextDb
