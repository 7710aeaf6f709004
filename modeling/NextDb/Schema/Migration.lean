import NextDb.Records.Rebuild

/-!
# Migration plans

`SchemaMigrationPlan.between` compares two schemas. What the checks push into the
lists of the plan is the list of the changes they find, in order.

* `between_sound`: under a plan without errors a value that the current schema accepts
  is accepted by the candidate, if what it holds at the fields the candidate adds is
  accepted there; and without a reason to rebuild the projection, the tables that both
  schemas have keep the definitions that their projection depends on.
-/

namespace NextDb

open Records List Option Std.ExtTreeMap

inductive SchemaChange where
  /-- `push_replay_safe_schema_change`. -/
  | replaySafe (message : String)
  /-- `push_unsafe_schema_change`. -/
  | breaking (message : String)
  /-- `push_projection_rebuild_reason`. -/
  | rebuild (reason : String)
deriving DecidableEq

/-! ## The checks -/

mutual

def checkFieldShapeChange : String → FieldSchema → FieldSchema → List SchemaChange
  | path, ⟨fieldType, optional⟩, candidate =>
    checkFieldTypeShapeChange path fieldType candidate.fieldType ++
      if optional ≠ candidate.optional then [.breaking s!"{path} optional flag cannot change"] else []

def checkFieldTypeShapeChange : String → FieldType → FieldType → List SchemaChange
  | path, .object fields, .object candidateFields =>
    checkObjectFields path fields candidateFields ++ candidateFields.flatMap fun (fieldName,
    field) =>
        if (fields.lookup fieldName).isNone ∧ field.optional = false then
          [.breaking s!"{path}.fields.{fieldName} required field cannot be added"]
        else []
  | path, current, candidate =>
    if current = candidate then [] else [.breaking s!"{path} type cannot change"]

/-- The loop over the fields of the current object type. -/
def checkObjectFields : String → List (String × FieldSchema) → List (String × FieldSchema) →
    List SchemaChange
  | _, [], _ => []
  | path, (fieldName, field) :: fields, candidateFields =>
    (match candidateFields.lookup fieldName with
      | none => [.breaking s!"{path}.fields.{fieldName} cannot be removed"]
      | some candidateField => checkFieldShapeChange s!"{path}.fields.{fieldName}" field candidateField) ++
    checkObjectFields path fields candidateFields

end

def checkFieldChanges (path : String) (current candidate : BTreeMap String FieldSchema) :
    List SchemaChange :=
  current.toList.flatMap fun (fieldName, field) =>
    match candidate[fieldName]? with
    | none =>
      [.replaySafe s!"{path}.{fieldName} cannot be removed", .rebuild s!"{path}.{fieldName} removed"]
    | some candidateField => checkFieldShapeChange s!"{path}.{fieldName}" field candidateField

def checkBehaviorMutationChanges (path : String) (current candidate : BTreeMap String FieldSchema) :
    List SchemaChange :=
  current.toList.flatMap fun (mutationName, mutation) =>
    match candidate[mutationName]? with
    | none => [.breaking s!"{path}.{mutationName} cannot be removed"]
    | some candidateMutation => checkFieldShapeChange s!"{path}.{mutationName}" mutation candidateMutation

def checkRecordProjectionShapeChanges (path : String)
    (currentStorage candidateStorage : StorageClass)
    (currentIndexes candidateIndexes : BTreeMap String IndexSchema) : List SchemaChange :=
  (if currentStorage ≠ candidateStorage then [.rebuild s!"{path}.storage changed"] else []) ++
    if currentIndexes ≠ candidateIndexes then [.rebuild s!"{path}.indexes changed"] else []

def checkNestedTable (tableName nestedName : String) (nested : NestedTableSchema) :
    Option NestedTableSchema → List SchemaChange
  | none => [.replaySafe s!"nested table {tableName}.{nestedName} cannot be removed"]
  | some candidate =>
    checkFieldChanges s!"tables.{tableName}.nested.{nestedName}.fields" nested.fields candidate.fields ++
      checkRecordProjectionShapeChanges s!"tables.{tableName}.nested.{nestedName}" nested.storage
        candidate.storage nested.indexes candidate.indexes

def checkTable (tableName : String) (table : TableSchema) : Option TableSchema → List SchemaChange
  | none => [.replaySafe s!"table {tableName} cannot be removed"]
  | some candidate =>
    checkFieldChanges s!"tables.{tableName}.fields" table.fields candidate.fields ++
      checkRecordProjectionShapeChanges s!"tables.{tableName}" table.storage candidate.storage
        table.indexes candidate.indexes ++
      table.nested.toList.flatMap fun (nestedName, nested) =>
        checkNestedTable tableName nestedName nested candidate.nested[nestedName]?

def checkObject (objectName : String) (object : ObjectSchema) :
    Option ObjectSchema → List SchemaChange
  | none => [.replaySafe s!"object {objectName} cannot be removed"]
  | some candidate => checkFieldChanges s!"objects.{objectName}.fields" object.fields candidate.fields

def checkEvent (eventName : String) (event : EventSchema) : Option EventSchema → List SchemaChange
  | none => [.replaySafe s!"event {eventName} cannot be removed"]
  | some candidate => checkFieldShapeChange s!"events.{eventName}.payload" event.payload candidate.payload

def checkBehavior (behaviorName : String) (behavior : BehaviorSchema) :
    Option BehaviorSchema → List SchemaChange
  | none => [.replaySafe s!"behavior {behaviorName} cannot be removed"]
  | some candidate =>
    checkBehaviorMutationChanges s!"behaviors.{behaviorName}.mutations" behavior.mutations candidate.mutations

variable (current candidate : DatabaseSchema)

/-- The changes from the current schema to the candidate. -/
def schemaChanges : List SchemaChange :=
  (if candidate.version < current.version then
    [.breaking s!"schema version cannot decrease from {current.version} to {candidate.version}"] else []) ++
  (current.tables.toList.flatMap fun (tableName, table) =>
    checkTable tableName table candidate.tables[tableName]?) ++
  (current.objects.toList.flatMap fun (objectName, object) =>
    checkObject objectName object candidate.objects[objectName]?) ++
  (current.events.toList.flatMap fun (eventName, event) =>
    checkEvent eventName event candidate.events[eventName]?) ++
  (current.behaviors.toList.flatMap fun (behaviorName, behavior) =>
    checkBehavior behaviorName behavior candidate.behaviors[behaviorName]?)

def SchemaChange.error : SchemaChange → Option String
  | .replaySafe message | .breaking message => some message
  | .rebuild _ => none

def SchemaChange.replaySafeMessage : SchemaChange → Option String
  | .replaySafe message => some message
  | _ => none

def SchemaChange.breakingMessage : SchemaChange → Option String
  | .breaking message => some message
  | _ => none

def SchemaChange.rebuildReason : SchemaChange → Option String
  | .rebuild reason => some reason
  | _ => none

/-- Each reason is pushed once. -/
def pushReasons (reasons : List String) : List String :=
  reasons.foldl (fun pushed reason => if pushed.contains reason then pushed else pushed ++ [reason]) []

def SchemaMigrationPlan.between : SchemaMigrationPlan :=
  let changes := schemaChanges current candidate
  let errors := changes.filterMap SchemaChange.error
  let replaySafeBreakingChanges := changes.filterMap SchemaChange.replaySafeMessage
  let projectionRebuildReasons := pushReasons (changes.filterMap SchemaChange.rebuildReason)
  { fromVersion := current.version
    toVersion := candidate.version
    compatible := errors.isEmpty
    errors
    warnings :=
      if candidate.version = current.version ∧ candidate ≠ current then
        [s!"schema content changed without version bump at version {current.version}"]
      else []
    requiresReplayRebuild := !replaySafeBreakingChanges.isEmpty
    replaySafeBreakingChanges
    unsafeBreakingChanges := changes.filterMap SchemaChange.breakingMessage
    projectionRebuildRequired := !projectionRebuildReasons.isEmpty
    projectionRebuildReasons }

def SchemaMigrationPlan.canReplayRebuild (self : SchemaMigrationPlan) : Bool :=
  !self.compatible && self.requiresReplayRebuild && self.unsafeBreakingChanges.isEmpty

def SchemaMigrationPlan.intoResult (self : SchemaMigrationPlan) : Result Unit :=
  if self.compatible then .ok () else
    let errors := "; ".intercalate self.errors
    bail s!"incompatible schema migration: {errors}"

/-! ## Values that fit -/

mutual

/-- What a value holds at the fields that the candidate adds is accepted there. -/
def FieldType.Fits : FieldType → FieldType → Json → Prop
  | .object fields, .object candidateFields, value => ∀ object, value.asObject = some object →
      FieldSchema.FitsShared fields candidateFields object ∧
      ∀ name candidateField member, (name, candidateField) ∈ candidateFields →
        fields.lookup name = none → object.lookup name = some member → candidateField.Accepts member
  | _, _, _ => True

/-- A value of the field fits the candidate's field. -/
def FieldSchema.Fits : FieldSchema → FieldSchema → Json → Prop
  | ⟨fieldType, _⟩, candidate, value => fieldType.Fits candidate.fieldType value

/-- The fields that both have. -/
def FieldSchema.FitsShared : List (String × FieldSchema) → List (String × FieldSchema) →
    List (String × Json) → Prop
  | [], _, _ => True
  | (name, field) :: fields, candidateFields, object =>
    (∀ candidateField member, candidateFields.lookup name = some candidateField →
      object.lookup name = some member → field.Fits candidateField member) ∧
    FieldSchema.FitsShared fields candidateFields object

end

/-- A record of a table that holds every required field that the candidate adds. -/
def RecordFits (fields candidateFields : BTreeMap String FieldSchema) (value : Json) : Prop :=
  ∀ object, value.asObject = some object → ∀ (name : String) (candidateField : FieldSchema),
    candidateFields[name]? = some candidateField →
      match fields[name]?, object.lookup name with
      | some field, some member => field.Fits candidateField member
      | some _, none => True
      | none, some member => candidateField.Accepts member
      | none, none => candidateField.optional = true

/-! ## A check that finds nothing -/

/-- A field of an object that both the current type and the candidate have. -/
def SharedAccepts (fields candidateFields : List (String × FieldSchema))
    (object : List (String × Json)) : Prop :=
  ∀ name field candidateField, (name, field) ∈ fields → candidateFields.lookup name = some candidateField →
    match object.lookup name with
    | some member => candidateField.Accepts member
    | none => candidateField.optional = true

variable {path name : String} {field : FieldSchema} {fields : BTreeMap String FieldSchema}

theorem checkFieldShapeChange_nil {candidate : FieldSchema}
    (h : checkFieldShapeChange path field candidate = []) :
    checkFieldTypeShapeChange path field.fieldType candidate.fieldType = [] ∧
    field.optional = candidate.optional := by
  obtain ⟨fieldType, optional⟩ := field
  rw [checkFieldShapeChange, append_eq_nil_iff] at h
  refine ⟨h.1, ?_⟩
  by_cases he : optional = candidate.optional
  · exact he
  · rw [if_pos he] at h
    cases h.2

/-- Other than between two object types, only an equal type passes. -/
theorem checkFieldTypeShapeChange_nil {fieldType candidate : FieldType}
    (h : checkFieldTypeShapeChange path fieldType candidate = []) :
    fieldType = candidate ∨ ∃ fields candidateFields,
    fieldType = .object fields ∧ candidate = .object candidateFields ∧
    checkObjectFields path fields candidateFields =
    [] ∧ ∀ name field, (name, field) ∈ candidateFields → fields.lookup name = none →
    field.optional = true := by
  have hother : ∀ {p : Prop} [Decidable p] {change : SchemaChange}, (if p then [] else [change]) = [] → p := by
    intro p _ change h
    by_cases hp : p
    · exact hp
    · rw [if_neg hp] at h
      cases h
  unfold checkFieldTypeShapeChange at h
  split at h
  · next path fields candidateFields =>
    rw [append_eq_nil_iff, flatMap_eq_nil_iff] at h
    refine .inr ⟨fields, candidateFields, rfl, rfl, h.1, fun name field hmem hnone => ?_⟩
    have hone := h.2 _ hmem
    dsimp only at hone
    cases hopt : field.optional with
    | true => rfl
    | false =>
      rw [if_pos ⟨by rw [hnone]; rfl, hopt⟩] at hone
      cases hone
  · exact .inl (hother h)

mutual

theorem accepts_of_shape :
    ∀ {path : String} (field candidate : FieldSchema) {value : Json},
    checkFieldShapeChange path field candidate = [] →
    candidate.WellFormed → field.Fits candidate value → field.Accepts value →
    candidate.Accepts value
  | path, ⟨fieldType, optional⟩, ⟨candidateType, candidateOptional⟩, value, h, hwf, hfits,
    haccepts => by
    obtain ⟨htype, hoptional⟩ := checkFieldShapeChange_nil h
    rw [FieldSchema.Accepts] at haccepts ⊢
    rw [FieldSchema.WellFormed] at hwf
    rw [FieldSchema.Fits] at hfits
    split
    · next hnull =>
      rw [if_pos hnull] at haccepts
      exact hoptional.symm.trans haccepts
    · next hnull =>
      rw [if_neg hnull] at haccepts
      exact typeAccepts_of_shape fieldType candidateType htype hwf hfits haccepts

theorem typeAccepts_of_shape : ∀ {path : String} (fieldType candidate : FieldType) {value : Json},
    checkFieldTypeShapeChange path fieldType candidate = [] → candidate.WellFormed →
    fieldType.Fits candidate value →
    fieldType.Accepts value → candidate.Accepts value
  | path, .object fields, candidate, value, h, hwf, hfits, haccepts => by
    rcases checkFieldTypeShapeChange_nil h with rfl | ⟨_, candidateFields, hcur, rfl, hshared,
    hadded⟩
    · exact haccepts
    · cases hcur
      rw [FieldType.WellFormed] at hwf
      rw [FieldType.Fits] at hfits
      rw [FieldType.Accepts] at haccepts ⊢
      obtain ⟨object, hobject, haccepts⟩ := haccepts
      obtain ⟨hfitsShared, hfitsAdded⟩ := hfits object hobject
      have hsame := sharedAccepts_of_shape fields candidateFields hshared hfitsShared haccepts hwf.2
      refine ⟨object, hobject, acceptsAll_iff.mpr fun name candidateField hmem => ?_⟩
      cases hcur : fields.lookup name with
      | some field =>
        exact hsame name field candidateField (mem_of_lookup hcur) (lookup_eq_of_mem hwf.1 hmem)
      | none =>
        cases hmember : object.lookup name with
        | some member => exact hfitsAdded name candidateField member hmem hcur hmember
        | none => exact hadded name candidateField hmem hcur
  | path, .string, candidate, value, h, _, _, haccepts
  | path, .text _, candidate, value, h, _, _, haccepts
  | path, .int64, candidate, value, h, _, _, haccepts
  | path, .timeMs, candidate, value, h, _, _, haccepts
  | path, .boolean, candidate, value, h, _, _, haccepts
  | path, .id _, candidate, value, h, _, _, haccepts
  | path, .objectRef _, candidate, value, h, _, _, haccepts
  | path, .list _, candidate, value, h, _, _, haccepts
  | path, .json, candidate, value, h, _, _, haccepts => by
    rcases checkFieldTypeShapeChange_nil h with rfl | ⟨_, _, hcur, _⟩
    · exact haccepts
    · cases hcur

theorem sharedAccepts_of_shape :
    ∀ {path : String} (fields candidateFields : List (String × FieldSchema))
    {object : List (String × Json)}, checkObjectFields path fields candidateFields = [] →
    FieldSchema.FitsShared fields candidateFields object → FieldSchema.AcceptsAll fields object →
    FieldSchema.AllWellFormed candidateFields → SharedAccepts fields candidateFields object
  | path, [], candidateFields, object, _, _, _, _ => fun _ _ _ hmem => (not_mem_nil hmem).elim
  | path, (name, field) :: fields, candidateFields, object, h, hfits, haccepts, hwf => by
    rw [checkObjectFields, append_eq_nil_iff] at h
    rw [FieldSchema.FitsShared] at hfits
    rw [FieldSchema.AcceptsAll] at haccepts
    have hrest := sharedAccepts_of_shape fields candidateFields h.2 hfits.2 haccepts.2 hwf
    intro name' field' candidateField hmem hcand
    rcases mem_cons.mp hmem with he | hmem
    · cases he
      have hshape := h.1
      have hone := haccepts.1
      rw [hcand] at hshape
      cases hmember : object.lookup name with
      | none =>
        rw [hmember] at hone
        exact (checkFieldShapeChange_nil hshape).2.symm.trans hone
      | some member =>
        rw [hmember] at hone
        exact accepts_of_shape field candidateField hshape (allWellFormed_iff.mp hwf name candidateField
          (mem_of_lookup hcand)) (hfits.1 candidateField member hcand hmember) hone
    · exact hrest name' field' candidateField hmem hcand

end

/-! ## Plans -/

/-- The changes of a field that both have are all breaking. -/
def Breaking (changes : List SchemaChange) : Prop := ∀ change ∈ changes, change.error.isSome

theorem Breaking.append {as bs : List SchemaChange} (ha : Breaking as) (hb : Breaking bs) :
    Breaking (as ++ bs) := fun change hmem => (mem_append.mp hmem).elim (ha change) (hb change)

variable {p : Prop} {message : String} {candidateFields : BTreeMap String FieldSchema}
    {value : Json}

theorem breaking_ite [Decidable p] : Breaking (if p then [.breaking message] else []) := by
  intro change hmem
  split at hmem
  · rw [mem_singleton.mp hmem]
    rfl
  · cases hmem

theorem breaking_ite_not [Decidable p] : Breaking (if p then [] else [.breaking message]) := by
  rw [← ite_not]
  exact breaking_ite

mutual

theorem breaking_checkFieldShapeChange :
    ∀ (path : String) (field candidate : FieldSchema),
    Breaking (checkFieldShapeChange path field candidate)
  | path, ⟨fieldType, _⟩, candidate => by
    rw [checkFieldShapeChange]
    exact (breaking_checkFieldTypeShapeChange path fieldType candidate.fieldType).append breaking_ite

theorem breaking_checkFieldTypeShapeChange :
    ∀ (path : String) (fieldType candidate : FieldType),
    Breaking (checkFieldTypeShapeChange path fieldType candidate)
  | path, .object fields, candidate => by
    unfold checkFieldTypeShapeChange
    cases candidate with
    | object candidateFields =>
      refine (breaking_checkObjectFields path fields candidateFields).append fun change hmem => ?_
      obtain ⟨entry, _, hmem⟩ := mem_flatMap.mp hmem
      exact breaking_ite change hmem
    | _ => exact breaking_ite_not
  | path, .string, candidate | path, .text _, candidate | path, .int64, candidate
  | path, .timeMs, candidate | path, .boolean, candidate | path, .id _, candidate
  | path, .objectRef _, candidate | path, .list _, candidate | path, .json, candidate => by
    unfold checkFieldTypeShapeChange
    exact breaking_ite_not

theorem breaking_checkObjectFields :
    ∀ (path : String) (fields candidateFields : List (String × FieldSchema)),
    Breaking (checkObjectFields path fields candidateFields)
  | _, [], _ => fun _ hmem => (not_mem_nil hmem).elim
  | path, (name, field) :: fields, candidateFields => by
    rw [checkObjectFields]
    refine Breaking.append ?_ (breaking_checkObjectFields path fields candidateFields)
    split
    · intro change hmem
      rw [mem_singleton.mp hmem]
      rfl
    · exact breaking_checkFieldShapeChange _ field _

end

/-- Changes without an error. -/
def Harmless (changes : List SchemaChange) : Prop := ∀ change ∈ changes, change.error = none

theorem checkFieldShapeChange_nil_of_harmless {candidate : FieldSchema}
    (h : Harmless (checkFieldShapeChange path field candidate)) :
    checkFieldShapeChange path field candidate = [] := by
  refine eq_nil_iff_forall_not_mem.mpr fun change hmem => ?_
  have := breaking_checkFieldShapeChange path field candidate change hmem
  rw [h change hmem] at this
  cases this

theorem compatible_iff {current candidate : DatabaseSchema} :
    (SchemaMigrationPlan.between current candidate).compatible = true ↔
    Harmless (schemaChanges current candidate) := by
  show ((schemaChanges current candidate).filterMap SchemaChange.error).isEmpty = true ↔ _
  rw [List.isEmpty_iff, List.filterMap_eq_nil_iff]
  rfl

theorem pushReasons_isEmpty {reasons : List String} :
    (pushReasons reasons).isEmpty = reasons.isEmpty := by
  have hpush : ∀ (reasons pushed : List String), pushed ≠ [] → reasons.foldl (fun pushed reason =>
        if pushed.contains reason then pushed else pushed ++ [reason]) pushed ≠ [] := by
    intro reasons
    induction reasons with
    | nil => exact fun _ h => h
    | cons reason reasons ih =>
      intro pushed h
      refine ih _ ?_
      dsimp only
      split
      · exact h
      · simp
  cases reasons with
  | nil => rfl
  | cons reason reasons => simpa [pushReasons] using hpush reasons [reason] (by simp)

theorem projectionRebuildRequired_eq_false {current candidate : DatabaseSchema} :
    (SchemaMigrationPlan.between current candidate).projectionRebuildRequired = false ↔
    ∀ change ∈ schemaChanges current candidate, change.rebuildReason = none := by
  show (!(pushReasons ((schemaChanges current candidate).filterMap _)).isEmpty) = false ↔ _
  rw [pushReasons_isEmpty, Bool.not_eq_false', List.isEmpty_iff, List.filterMap_eq_nil_iff]

section

variable {current candidate : DatabaseSchema} {change : SchemaChange}

theorem mem_schemaChanges_of_table {name : String} {table : TableSchema}
    (htable : current.tables[name]? = some table)
    (h : change ∈ checkTable name table candidate.tables[name]?) :
    change ∈ schemaChanges current candidate := by
  have hmem : change ∈ current.tables.toList.flatMap fun (tableName, table) =>
      checkTable tableName table candidate.tables[tableName]? :=
    mem_flatMap.mpr ⟨(name, table), mem_toList_iff_getElem?_eq_some.mpr htable, h⟩
  simp only [schemaChanges, mem_append]
  exact .inl (.inl (.inl (.inr hmem)))

theorem mem_schemaChanges_of_event {name : String} {event : EventSchema}
    (hevent : current.events[name]? = some event)
    (h : change ∈ checkEvent name event candidate.events[name]?) :
    change ∈ schemaChanges current candidate := by
  have hmem : change ∈ current.events.toList.flatMap fun (eventName, event) =>
      checkEvent eventName event candidate.events[eventName]? :=
    mem_flatMap.mpr ⟨(name, event), mem_toList_iff_getElem?_eq_some.mpr hevent, h⟩
  simp only [schemaChanges, mem_append]
  exact .inl (.inr hmem)

theorem mem_schemaChanges_of_behavior {name : String}
    {behavior : BehaviorSchema} (hbehavior : current.behaviors[name]? = some behavior)
    (h : change ∈ checkBehavior name behavior candidate.behaviors[name]?) :
    change ∈ schemaChanges current candidate := by
  have hmem : change ∈ current.behaviors.toList.flatMap fun (behaviorName, behavior) =>
      checkBehavior behaviorName behavior candidate.behaviors[behaviorName]? :=
    mem_flatMap.mpr ⟨(name, behavior), mem_toList_iff_getElem?_eq_some.mpr hbehavior, h⟩
  simp only [schemaChanges, mem_append]
  exact .inr hmem

end

/-! ## What a plan says -/

/-- A field that passes is kept, with its shape. -/
theorem kept_of_harmless {removed : List SchemaChange} {found : Option FieldSchema}
    (hremoved : ¬Harmless removed)
    (h : Harmless (match found with | none => removed | some candidate => checkFieldShapeChange path field candidate)) :
    ∃ candidate, found = some candidate ∧ checkFieldShapeChange path field candidate = [] := by
  cases found with
  | none => exact absurd h hremoved
  | some candidate => exact ⟨candidate, rfl, checkFieldShapeChange_nil_of_harmless h⟩

theorem checkFieldChanges_of_harmless (h : Harmless (checkFieldChanges path fields candidateFields))
    (hfield : fields[name]? = some field) :
    ∃ candidateField, candidateFields[name]? = some candidateField ∧
    checkFieldShapeChange s!"{path}.{name}" field candidateField = [] := by
  refine kept_of_harmless (fun hremoved => ?_) fun change hmem =>
    h change (mem_flatMap.mpr ⟨(name, field), mem_toList_iff_getElem?_eq_some.mpr hfield, hmem⟩)
  cases hremoved _ mem_cons_self

theorem checkBehaviorMutationChanges_of_harmless
    {mutations candidateMutations : BTreeMap String FieldSchema}
    (h : Harmless (checkBehaviorMutationChanges path mutations candidateMutations))
    {mutation : FieldSchema}
    (hmutation : mutations[name]? = some mutation) :
    ∃ candidateMutation, candidateMutations[name]? =
    some candidateMutation ∧ checkFieldShapeChange s!"{path}.{name}" mutation candidateMutation =
    [] := by
  refine kept_of_harmless (fun hremoved => ?_) fun change hmem =>
    h change (mem_flatMap.mpr ⟨(name, mutation), mem_toList_iff_getElem?_eq_some.mpr hmutation, hmem⟩)
  cases hremoved _ mem_cons_self

theorem validateObjectFields_ok :
    validateObjectFields path fields.toList value = .ok () ↔
    ∃ object, value.asObject = some object ∧
      ∀ (name : String) (field : FieldSchema), fields[name]? = some field →
        match object.lookup name with
        | some member => field.Accepts member
        | none => field.optional = true := by
  unfold validateObjectFields
  rw [bind_eq_ok]
  refine exists_congr fun object => ?_
  rw [okOr_eq_ok, validateFields_ok, acceptsAll_iff]
  refine and_congr_right fun _ => ⟨fun h name field hfield => ?_, fun h name field hmem => ?_⟩
  · exact h name field (mem_toList_iff_getElem?_eq_some.mpr hfield)
  · exact h name field (mem_toList_iff_getElem?_eq_some.mp hmem)

/-- A record that the fields accept and that fits is accepted by the candidate's fields. -/
theorem validateObjectFields_of_harmless {checked : String}
    (h : Harmless (checkFieldChanges checked fields candidateFields))
    (hwf : MapWellFormed candidateFields)
    (hfits : RecordFits fields candidateFields value)
    (hvalid : validateObjectFields path fields.toList value = .ok ())
    :
    validateObjectFields path candidateFields.toList value = .ok () := by
  obtain ⟨object, hobject, haccepts⟩ := validateObjectFields_ok.mp hvalid
  refine validateObjectFields_ok.mpr ⟨object, hobject, fun name candidateField hcandidate => ?_⟩
  have hone := hfits object hobject name candidateField hcandidate
  cases hfield : fields[name]? with
  | none =>
    rw [hfield] at hone
    cases hmember : object.lookup name with
    | none | some =>
      rw [hmember] at hone
      exact hone
  | some field =>
    obtain ⟨candidateField', hcandidate', hshape⟩ := checkFieldChanges_of_harmless h hfield
    obtain rfl : candidateField' = candidateField := some.inj (hcandidate'.symm.trans hcandidate)
    have hold := haccepts name field hfield
    rw [hfield] at hone
    cases hmember : object.lookup name with
    | none =>
      rw [hmember] at hold
      exact (checkFieldShapeChange_nil hshape).2.symm.trans hold
    | some member =>
      rw [hmember] at hold hone
      exact accepts_of_shape field candidateField' hshape (hwf name candidateField' hcandidate) hone hold

/-- What is accepted under the current schema and fits is accepted under the candidate. -/
structure AcceptsFitting (current candidate : DatabaseSchema) : Prop where
  table : ∀ (name : String) (value : Json), current.validateTableRecord name value = .ok () →
    (∀ table candidateTable, current.tables[name]? = some table → candidate.tables[name]? = some candidateTable →
      RecordFits table.fields candidateTable.fields value) →
    candidate.validateTableRecord name value = .ok ()
  nestedTable : ∀ (tableName name : String) (value : Json),
    current.validateNestedTableRecord tableName name value = .ok () →
    (∀ nested candidateNested, current.nestedTable tableName name = some nested →
      candidate.nestedTable tableName name = some candidateNested →
      RecordFits nested.fields candidateNested.fields value) →
    candidate.validateNestedTableRecord tableName name value = .ok ()
  event : ∀ (name : String) (value : Json) (event : EventSchema), current.events[name]? = some event →
    current.validateEventPayload name value = .ok () →
    (∀ candidateEvent : EventSchema, candidate.events[name]? = some candidateEvent →
      event.payload.Fits candidateEvent.payload value) →
    candidate.validateEventPayload name value = .ok ()
  behavior : ∀ (name mutation : String) (value : Json), current.validateBehaviorInput name mutation value = .ok () →
    (∀ behavior candidateBehavior field candidateField, current.behaviors[name]? = some behavior →
      candidate.behaviors[name]? = some candidateBehavior → behavior.mutations[mutation]? = some field →
      candidateBehavior.mutations[mutation]? = some candidateField → field.Fits candidateField value) →
    candidate.validateBehaviorInput name mutation value = .ok ()

variable {current candidate}

section
variable (h : Harmless (schemaChanges current candidate))
include h

theorem table_of_harmless {table : TableSchema} (htable : current.tables[name]? = some table) :
    ∃ candidateTable, candidate.tables[name]? = some candidateTable ∧
    Harmless (checkFieldChanges s!"tables.{name}.fields" table.fields candidateTable.fields) := by
  have hone : Harmless (checkTable name table candidate.tables[name]?) := fun change hmem =>
    h change (mem_schemaChanges_of_table htable hmem)
  cases hcandidate : candidate.tables[name]? with
  | none =>
    rw [hcandidate] at hone
    cases hone _ mem_cons_self
  | some candidateTable =>
    rw [hcandidate, checkTable] at hone
    exact ⟨candidateTable, rfl, fun change hmem =>
      hone change (mem_append_left _ (mem_append_left _ hmem))⟩

theorem nestedTable_of_harmless {tableName : String}
    {nested : NestedTableSchema} (hnested : current.nestedTable tableName name = some nested) :
    ∃ candidateNested, candidate.nestedTable tableName name = some candidateNested ∧
    Harmless (checkFieldChanges s!"tables.{tableName}.nested.{name}.fields" nested.fields candidateNested.fields) := by
  obtain ⟨table, htable, hnested⟩ := bind_eq_some_iff.mp hnested
  obtain ⟨candidateTable, hcandidate, -⟩ := table_of_harmless h htable
  have hone : Harmless (checkNestedTable tableName name nested candidateTable.nested[name]?) := by
    refine fun change hmem => h change (mem_schemaChanges_of_table htable ?_)
    rw [hcandidate, checkTable]
    exact mem_append_right _ (mem_flatMap.mpr ⟨(name, nested), mem_toList_iff_getElem?_eq_some.mpr hnested, hmem⟩)
  rw [DatabaseSchema.nestedTable, hcandidate, bind_some]
  cases hfound : candidateTable.nested[name]? with
  | none =>
    rw [hfound] at hone
    cases hone _ mem_cons_self
  | some candidateNested =>
    rw [hfound, checkNestedTable] at hone
    exact ⟨candidateNested, rfl, fun change hmem => hone change (mem_append_left _ hmem)⟩

theorem event_of_harmless {event : EventSchema} (hevent : current.events[name]? = some event) :
    ∃ candidateEvent, candidate.events[name]? = some candidateEvent ∧
    checkFieldShapeChange s!"events.{name}.payload" event.payload candidateEvent.payload = [] := by
  have hone : Harmless (checkEvent name event candidate.events[name]?) := fun change hmem =>
    h change (mem_schemaChanges_of_event hevent hmem)
  cases hcandidate : candidate.events[name]? with
  | none =>
    rw [hcandidate] at hone
    cases hone _ mem_cons_self
  | some candidateEvent =>
    rw [hcandidate, checkEvent] at hone
    exact ⟨candidateEvent, rfl, checkFieldShapeChange_nil_of_harmless hone⟩

theorem behavior_of_harmless {behavior : BehaviorSchema}
    (hbehavior : current.behaviors[name]? = some behavior) :
    ∃ candidateBehavior, candidate.behaviors[name]? = some candidateBehavior ∧ Harmless
    (checkBehaviorMutationChanges s!"behaviors.{name}.mutations" behavior.mutations candidateBehavior.mutations) := by
  have hone : Harmless (checkBehavior name behavior candidate.behaviors[name]?) := fun change hmem =>
    h change (mem_schemaChanges_of_behavior hbehavior hmem)
  cases hcandidate : candidate.behaviors[name]? with
  | none =>
    rw [hcandidate] at hone
    cases hone _ mem_cons_self
  | some candidateBehavior =>
    rw [hcandidate, checkBehavior] at hone
    exact ⟨candidateBehavior, rfl, hone⟩

theorem acceptsFitting_of_harmless (hwf : candidate.WellFormed) :
    AcceptsFitting current candidate where
  table name value hvalid hfits := by
    obtain ⟨table, htable, hvalid⟩ := bind_eq_ok.mp hvalid
    have htable := okOr_eq_ok.mp htable
    obtain ⟨candidateTable, hcandidate, hfields⟩ := table_of_harmless h htable
    exact bind_eq_ok.mpr ⟨candidateTable, okOr_eq_ok.mpr hcandidate,
      validateObjectFields_of_harmless hfields (hwf.tables name candidateTable hcandidate)
        (hfits table candidateTable htable hcandidate) hvalid⟩
  nestedTable tableName name value hvalid hfits := by
    obtain ⟨nested, hnested, hvalid⟩ := bind_eq_ok.mp hvalid
    have hnested := okOr_eq_ok.mp hnested
    obtain ⟨candidateNested, hcandidate, hfields⟩ := nestedTable_of_harmless h hnested
    exact bind_eq_ok.mpr ⟨candidateNested, okOr_eq_ok.mpr hcandidate,
      validateObjectFields_of_harmless hfields (hwf.nested tableName name candidateNested hcandidate)
        (hfits nested candidateNested hnested hcandidate) hvalid⟩
  event name value event hevent hvalid hfits := by
    obtain ⟨candidateEvent, hcandidate, hshape⟩ := event_of_harmless h hevent
    rw [DatabaseSchema.validateEventPayload, hevent] at hvalid
    rw [DatabaseSchema.validateEventPayload, hcandidate]
    exact (validateField_ok _ _ _).mpr (accepts_of_shape event.payload candidateEvent.payload hshape (hwf.events name
      candidateEvent hcandidate) (hfits candidateEvent hcandidate) ((validateField_ok _ _ _).mp hvalid))
  behavior name mutation value hvalid hfits := by
    obtain ⟨field, hfield, hvalid⟩ := bind_eq_ok.mp hvalid
    obtain ⟨behavior, hbehavior, hfield⟩ := bind_eq_some_iff.mp (okOr_eq_ok.mp hfield)
    obtain ⟨candidateBehavior, hcandidate, hmutations⟩ := behavior_of_harmless h hbehavior
    obtain ⟨candidateField, hcandidateField, hshape⟩ :=
      checkBehaviorMutationChanges_of_harmless hmutations hfield
    refine bind_eq_ok.mpr ⟨candidateField, okOr_eq_ok.mpr ?_, (validateField_ok _ _ _).mpr ?_⟩
    · exact bind_eq_some_iff.mpr ⟨candidateBehavior, hcandidate, hcandidateField⟩
    · exact accepts_of_shape field
        candidateField hshape (hwf.behaviors name candidateBehavior hcandidate mutation candidateField hcandidateField)
        (hfits behavior candidateBehavior field candidateField hbehavior hcandidate hfield
          hcandidateField) ((validateField_ok _ _ _).mp hvalid)

end

/-- The tables that both schemas have keep their storage and indexes. -/
def SameShapes (current candidate : DatabaseSchema) : Prop :=
  ∀ path shape candidateShape, tableShape current path = some shape →
    tableShape candidate path = some candidateShape → candidateShape = shape

theorem shape_of_noRebuild (path : String) {storage candidateStorage : StorageClass}
    {indexes candidateIndexes : BTreeMap String IndexSchema}
    (h : ∀ change ∈ checkRecordProjectionShapeChanges path storage candidateStorage indexes candidateIndexes,
    change.rebuildReason = none) :
    (⟨candidateStorage, candidateIndexes⟩ : TableShape) = ⟨storage, indexes⟩ := by
  have hone : ∀ {p : Prop} [Decidable p] {reason : String},
      (∀ change ∈ if p then [SchemaChange.rebuild reason] else [], change.rebuildReason = none) → ¬p := by
    intro p _ reason h hp
    rw [if_pos hp] at h
    cases h _ mem_cons_self
  have hstorage := hone fun change hmem => h change (mem_append_left _ hmem)
  have hindexes := hone fun change hmem => h change (mem_append_right _ hmem)
  rw [Decidable.not_not.mp hstorage, Decidable.not_not.mp hindexes]

theorem sameShapes_of_noRebuild
    (h : ∀ change ∈ schemaChanges current candidate, change.rebuildReason = none) :
    SameShapes current candidate := by
  intro path shape candidateShape hshape hcandidate
  cases path with
  | table name =>
    obtain ⟨table, htable, rfl⟩ := map_eq_some_iff.mp hshape
    obtain ⟨candidateTable, hfound, rfl⟩ := map_eq_some_iff.mp hcandidate
    refine shape_of_noRebuild s!"tables.{name}" fun change hmem =>
      h change (mem_schemaChanges_of_table htable ?_)
    rw [hfound, checkTable]
    exact mem_append_left _ (mem_append_right _ hmem)
  | nested parent name =>
    obtain ⟨nested, hnested, rfl⟩ := map_eq_some_iff.mp hshape
    obtain ⟨candidateNested, hfound, rfl⟩ := map_eq_some_iff.mp hcandidate
    obtain ⟨table, htable, hnested⟩ := bind_eq_some_iff.mp hnested
    obtain ⟨candidateTable, hcandidateTable, hfound⟩ := bind_eq_some_iff.mp hfound
    refine shape_of_noRebuild s!"tables.{parent}.nested.{name}" fun change hmem =>
      h change (mem_schemaChanges_of_table htable ?_)
    rw [hcandidateTable, checkTable]
    refine mem_append_right _ (mem_flatMap.mpr ⟨(name, nested), mem_toList_iff_getElem?_eq_some.mpr hnested, ?_⟩)
    dsimp only
    rw [hfound, checkNestedTable]
    exact mem_append_right _ hmem

/-- A compatible plan accepts what fits, and without a reason to rebuild the projection it is the
same under both schemas, of the records whose tables both have. -/
theorem between_sound {current candidate : DatabaseSchema}
    (hcurrent : current.validationReport.ok = true)
    (hcandidate : candidate.validationReport.ok = true) (hwf : candidate.WellFormed) :
    ((SchemaMigrationPlan.between current candidate).compatible = true →
    AcceptsFitting current candidate) ∧
    ((SchemaMigrationPlan.between current candidate).projectionRebuildRequired = false →
    SameShapes current candidate ∧
    (LogicalNamesDistinct current → LogicalNamesDistinct candidate →
    ∀ {P : Type} (store : ProjectionStore P) (records : List DbRecord), (∀ record ∈ records,
    ∃ path : TablePath,
    record.table = path.logicalName ∧ (tableShape current path).isSome ∧
    (tableShape candidate path).isSome) →
    buildUnder store records current = buildUnder store records candidate)) := by
  refine ⟨fun hcompatible => acceptsFitting_of_harmless (compatible_iff.mp hcompatible) hwf, fun hrebuild => ?_⟩
  have hshapes := sameShapes_of_noRebuild (projectionRebuildRequired_eq_false.mp hrebuild)
  refine ⟨hshapes, fun hdistinct hdistinct' P store records hrecords => ?_⟩
  refine buildUnder_congr store hdistinct hdistinct' (ordersParse_of_valid hcurrent) (ordersParse_of_valid hcandidate)
    fun record hrecord => ?_
  obtain ⟨path, htable, hshape, hshape'⟩ := hrecords record hrecord
  obtain ⟨shape, hshape⟩ := isSome_iff_exists.mp hshape
  obtain ⟨shape', hshape'⟩ := isSome_iff_exists.mp hshape'
  exact ⟨path, shape, htable, hshape, hshapes path shape shape' hshape hshape' ▸ hshape'⟩

/-! ## A field is added -/

def idField : BTreeMap String FieldSchema := Std.ExtTreeMap.empty.insert "id" ⟨.id "Post", false⟩

def postsSchema (version : Nat) (fields : BTreeMap String FieldSchema) : DatabaseSchema where
  name := "posts"
  version
  objects := Std.ExtTreeMap.empty.insert "Object" ⟨idField⟩
  tables := Std.ExtTreeMap.empty.insert "posts" ⟨.disk, fields, ∅, ⟨[]⟩, ∅⟩
  events := ∅
  behaviors := ∅

def postsCurrent : DatabaseSchema := postsSchema 1 idField

def postsCandidate : DatabaseSchema := postsSchema 2 (idField.insert "note" ⟨.string, true⟩)

def postsStore : ProjectionStore (List (DbRecord × List String)) where
  empty := []
  upsertWithIndexesAndOrder projection record indexes _ := .ok ((record, indexes.keys) :: projection)

def postsRow : DbRecord := ⟨"posts", "a", ⟨.object [("id", .string "a")],
    List.pairwise_singleton _ _, trivial, trivial⟩, 0, 1, "posts/a"⟩

def postsRecord : Json := .object [("id", .string "a"), ("note", .bool true)]

theorem mapWellFormed_insert (h : MapWellFormed fields) (hfield : field.WellFormed) :
    MapWellFormed (fields.insert name field) := by
  intro name' field' hget
  rw [Std.ExtTreeMap.getElem?_insert] at hget
  split at hget
  · exact some.inj hget ▸ hfield
  · exact h name' field' hget

theorem eq_of_insert_empty {α : Type} {key key' : String} {a a' : α}
    (h : ((∅ : BTreeMap String α).insert key a)[key']? = some a') : key' = key ∧ a' = a := by
  rw [Std.ExtTreeMap.getElem?_insert] at h
  split at h
  · next he => exact ⟨(compare_eq_iff_eq.mp he).symm, (some.inj h).symm⟩
  · simp at h

theorem idField_wellFormed : MapWellFormed idField :=
  mapWellFormed_insert (fun _ _ h => by simp at h) trivial

theorem postsSchema_wellFormed (version : Nat) (hfields : MapWellFormed fields) :
    (postsSchema version fields).WellFormed := by
  refine ⟨fun name object h => ?_, fun name table h => ?_, fun tableName name nested h => ?_, fun name event h => ?_,
    fun name behavior h => ?_⟩
  · obtain ⟨-, rfl⟩ := eq_of_insert_empty h
    exact idField_wellFormed
  · obtain ⟨-, rfl⟩ := eq_of_insert_empty h
    exact hfields
  · obtain ⟨table, htable, hnested⟩ := bind_eq_some_iff.mp h
    obtain ⟨-, rfl⟩ := eq_of_insert_empty htable
    simp at hnested
  · simp [postsSchema] at h
  · simp [postsSchema] at h

theorem postsCandidate_wellFormed : postsCandidate.WellFormed :=
  postsSchema_wellFormed 2 (mapWellFormed_insert idField_wellFormed trivial)

theorem between_sound_sample :
    AcceptsFitting postsCurrent postsCandidate ∧ SameShapes postsCurrent postsCandidate ∧
    buildUnder postsStore [postsRow] postsCurrent =
    buildUnder postsStore [postsRow] postsCandidate := by
  obtain ⟨haccepts, hsame⟩ :=
    @between_sound postsCurrent postsCandidate (by decide +kernel) (by decide +kernel) postsCandidate_wellFormed
  obtain ⟨hshapes, hbuild⟩ := hsame (by decide +kernel)
  have hdistinct : LogicalNamesDistinct postsCurrent ∧ LogicalNamesDistinct postsCandidate := by
    unfold LogicalNamesDistinct
    decide +kernel
  refine ⟨haccepts (by decide +kernel), hshapes,
    hbuild hdistinct.1 hdistinct.2 postsStore [postsRow] fun record hmem => ?_⟩
  rw [mem_singleton.mp hmem]
  exact ⟨.table "posts", rfl, by decide +kernel, by decide +kernel⟩

/-- What the current schema does not look at the candidate checks. -/
theorem between_added_field :
    postsCurrent.validationReport.ok = true ∧ postsCandidate.validationReport.ok = true ∧
    (SchemaMigrationPlan.between postsCurrent postsCandidate).compatible = true ∧
    postsCurrent.validateTableRecord
    "posts" postsRecord = .ok () ∧
    postsCandidate.validateTableRecord "posts" postsRecord ≠ .ok () := by
  refine ⟨?_, ?_, ?_, ?_, ?_⟩ <;> decide +kernel

end NextDb
