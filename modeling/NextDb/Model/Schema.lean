import Std.Data.ExtTreeMap.Lemmas

/-!
# Database schemas

The schema of a database and the migration plan between two of them, as the
log carries them. A map inside a field type is its list of entries.
-/

namespace NextDb

/-- `BTreeMap`. -/
abbrev BTreeMap (κ α : Type) [Ord κ] := Std.ExtTreeMap κ α

mutual

inductive FieldType where
  | string
  | text (inlineUntil : Nat)
  | int64
  | timeMs
  | boolean
  | id (entity : String)
  | objectRef (object : String)
  | list (item : FieldType)
  | object (fields : List (String × FieldSchema))
  | json

structure FieldSchema where
  fieldType : FieldType
  optional : Bool

end

mutual

def FieldType.beq : FieldType → FieldType → Bool
  | .string, .string => true
  | .text n, .text m => n == m
  | .int64, .int64 => true
  | .timeMs, .timeMs => true
  | .boolean, .boolean => true
  | .id entity, .id entity' => entity == entity'
  | .objectRef object, .objectRef object' => object == object'
  | .list item, .list item' => item.beq item'
  | .object fields, .object fields' => FieldSchema.beqAll fields fields'
  | .json, .json => true
  | _, _ => false

def FieldSchema.beq : FieldSchema → FieldSchema → Bool
  | ⟨fieldType, optional⟩,
    ⟨fieldType', optional'⟩ => fieldType.beq fieldType' && optional == optional'

def FieldSchema.beqAll : List (String × FieldSchema) → List (String × FieldSchema) → Bool
  | [], [] => true
  | (name, field) :: fields, (name', field') :: fields' =>
    name == name' && field.beq field' && FieldSchema.beqAll fields fields'
  | _, _ => false

end

mutual

theorem FieldType.eq_of_beq : ∀ {a b : FieldType}, a.beq b = true → a = b
  | a, b, h => by
    cases a <;> cases b <;> simp only [FieldType.beq, Bool.false_eq_true,
    beq_iff_eq] at h <;> try first | rfl | rw [h]
    · rw [FieldType.eq_of_beq h]
    · rw [FieldSchema.eq_of_beqAll h]

theorem FieldSchema.eq_of_beq : ∀ {a b : FieldSchema}, a.beq b = true → a = b
  | ⟨fieldType, optional⟩, ⟨fieldType', optional'⟩, h => by
    simp only [FieldSchema.beq, Bool.and_eq_true, beq_iff_eq] at h
    rw [FieldType.eq_of_beq h.1, h.2]

theorem FieldSchema.eq_of_beqAll :
    ∀ {as bs : List (String × FieldSchema)}, FieldSchema.beqAll as bs = true → as = bs
  | [], [], _ => rfl
  | [], _ :: _, h => by simp [FieldSchema.beqAll] at h
  | _ :: _, [], h => by simp [FieldSchema.beqAll] at h
  | (name, field) :: as, (name', field') :: bs, h => by
    simp only [FieldSchema.beqAll, Bool.and_eq_true, beq_iff_eq] at h
    rw [h.1.1, FieldSchema.eq_of_beq h.1.2, FieldSchema.eq_of_beqAll h.2]

end

mutual

theorem FieldType.beq_self : ∀ a : FieldType, a.beq a = true
  | .list item => by simp [FieldType.beq, FieldType.beq_self item]
  | .object fields => by simp [FieldType.beq, FieldSchema.beqAll_self fields]
  | .string | .text _ | .int64 | .timeMs | .boolean | .id _ | .objectRef _ | .json => by
    simp [FieldType.beq]

theorem FieldSchema.beq_self : ∀ a : FieldSchema, a.beq a = true
  | ⟨fieldType, optional⟩ => by simp [FieldSchema.beq, FieldType.beq_self fieldType]

theorem FieldSchema.beqAll_self :
    ∀ as : List (String × FieldSchema), FieldSchema.beqAll as as = true
  | [] => rfl
  | (name, field) :: as => by
    simp [FieldSchema.beqAll, FieldSchema.beq_self field, FieldSchema.beqAll_self as]

end

instance : DecidableEq FieldType := fun a b =>
  decidable_of_iff (a.beq b = true) ⟨FieldType.eq_of_beq, fun h => h ▸ FieldType.beq_self a⟩

instance : DecidableEq FieldSchema := fun a b =>
  decidable_of_iff (a.beq b = true) ⟨FieldSchema.eq_of_beq, fun h => h ▸ FieldSchema.beq_self a⟩

inductive StorageClass where
  | actorPartition
  | resident
  | lru (maxItems : Nat)
  | disk
  | chatLog (bucket : String) (order : List String) (liveWindow : Nat)
  | object
deriving DecidableEq

inductive ReadVisibilityRule where
  | fieldEqualsUserId (field : String)
deriving DecidableEq

structure ReadVisibilityPolicy where
  all : List ReadVisibilityRule
deriving DecidableEq

structure IndexSchema where
  fields : List String
  unique : Bool
deriving DecidableEq

structure ObjectSchema where
  fields : BTreeMap String FieldSchema
deriving DecidableEq

structure NestedTableSchema where
  storage : StorageClass
  fields : BTreeMap String FieldSchema
  readVisibility : ReadVisibilityPolicy
  indexes : BTreeMap String IndexSchema
deriving DecidableEq

structure TableSchema where
  storage : StorageClass
  fields : BTreeMap String FieldSchema
  nested : BTreeMap String NestedTableSchema
  readVisibility : ReadVisibilityPolicy
  indexes : BTreeMap String IndexSchema
deriving DecidableEq

structure BehaviorSchema where
  mutations : BTreeMap String FieldSchema
deriving DecidableEq

structure EventSchema where
  payload : FieldSchema
deriving DecidableEq

structure DatabaseSchema where
  name : String
  version : Nat
  objects : BTreeMap String ObjectSchema
  tables : BTreeMap String TableSchema
  events : BTreeMap String EventSchema
  behaviors : BTreeMap String BehaviorSchema
deriving DecidableEq

structure SchemaMigrationPlan where
  fromVersion : Nat
  toVersion : Nat
  compatible : Bool
  errors : List String
  warnings : List String
  requiresReplayRebuild : Bool
  replaySafeBreakingChanges : List String
  unsafeBreakingChanges : List String
  projectionRebuildRequired : Bool
  projectionRebuildReasons : List String
deriving DecidableEq

end NextDb
