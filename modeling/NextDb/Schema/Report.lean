import NextDb.Schema.Validate

/-!
# The validation report of a schema

The errors are listed in the order in which the report finds them.
-/

namespace NextDb

def stripPrefix (text front : String) : Option String :=
  if front.toList.isPrefixOf text.toList then some (String.ofList (text.toList.drop front.length)) else none

def stripSuffix (text back : String) : Option String :=
  if back.toList.isSuffixOf text.toList then
    some (String.ofList (text.toList.take (text.length - back.length)))
  else none

def parseStorageFieldName (field : String) : Except String String :=
  if trim field = "" then .error "must reference a field"
  else if field ≠ trim field then .error "must not contain surrounding whitespace"
  else .ok field

def parseChatLogBucketField (bucket : String) : Except String String :=
  match (stripPrefix bucket "day(").bind (stripSuffix · ")") with
  | none => .error "must be day(field)"
  | some field => parseStorageFieldName field

def parseChatLogOrderField (term : String) : Except String String :=
  match (stripPrefix term "desc(").bind (stripSuffix · ")") with
  | some field => parseStorageFieldName field
  | none => parseStorageFieldName term

def ReadVisibilityRule.field : ReadVisibilityRule → String
  | .fieldEqualsUserId field => field

variable (schema : DatabaseSchema)

mutual

def validateFieldSchema : String → FieldType → List String
  | path, .text inlineUntil =>
    if inlineUntil = 0 then [s!"{path}.inlineUntil must be greater than 0"] else []
  | path, .id entity => if trim entity = "" then [s!"{path}.entity must not be empty"] else []
  | path, .objectRef object =>
    if trim object = "" then [s!"{path}.object must not be empty"]
    else if schema.objects.contains object then []
    else [s!"{path}.object references missing object {object}"]
  | path, .list item => validateFieldSchema s!"{path}.item" item
  | path, .object fields =>
    (if fields.isEmpty then [s!"{path}.fields must not be empty"] else []) ++
      validateFieldEntries s!"{path}.fields" fields
  | _, .string | _, .int64 | _, .timeMs | _, .boolean | _, .json => []

/-- The loop over the fields in `validate_field_map`. -/
def validateFieldEntries : String → List (String × FieldSchema) → List String
  | _, [] => []
  | path, (fieldName, ⟨fieldType, _⟩) :: fields =>
    (if trim fieldName = "" then [s!"{path} contains an empty field name"] else []) ++
      validateFieldSchema s!"{path}.{fieldName}.type" fieldType ++ validateFieldEntries path fields

end

def validateFieldMap (path : String) (fields : BTreeMap String FieldSchema) : List String :=
  (if fields.isEmpty then [s!"{path} must not be empty"] else []) ++ validateFieldEntries schema path fields.toList

def validateStorageClass (path : String) (fields : BTreeMap String FieldSchema) :
    StorageClass → List String
  | .lru maxItems => if maxItems = 0 then [s!"{path}.maxItems must be greater than 0"] else []
  | .chatLog bucket order liveWindow =>
    (if liveWindow = 0 then [s!"{path}.liveWindow must be greater than 0"] else []) ++
    (if order.isEmpty then [s!"{path}.order must not be empty"] else []) ++
    (match parseChatLogBucketField bucket with
      | .ok field =>
        if fields.contains field then [] else [s!"{path}.bucket references missing field {field}"]
      | .error message => [s!"{path}.bucket {message}"]) ++
    order.zipIdx.flatMap fun (term, index) =>
      match parseChatLogOrderField term with
      | .ok field =>
        if fields.contains field then []
        else [s!"{path}.order[{index}] references missing field {field}"]
      | .error message => [s!"{path}.order[{index}] {message}"]
  | .actorPartition | .resident | .disk | .object => []

def isVisibilityFieldByte (byte : UInt8) : Bool :=
  0x30 ≤ byte && byte ≤ 0x39 || 0x41 ≤ byte && byte ≤ 0x5a || 0x61 ≤ byte && byte ≤ 0x7a || byte == 0x5f || byte == 0x2d

def validateReadVisibilityPolicy (path : String) (fields : BTreeMap String FieldSchema)
    (policy : ReadVisibilityPolicy) : List String :=
  (if policy.all.length > 8 then [s!"{path}.all supports at most 8 rules"] else []) ++
  policy.all.zipIdx.flatMap fun (rule, index) =>
    let field := rule.field
    let rulePath := s!"{path}.all[{index}]"
    if field = "" ∨ field.utf8ByteSize > 64 ∨ ¬field.toUTF8.data.all isVisibilityFieldByte then
      [s!"{rulePath}.field is invalid"]
    else
      match fields[field]? with
      | none => [s!"{rulePath}.field references missing field {field}"]
      | some fieldSchema =>
        match fieldSchema.fieldType with
        | .id entity =>
          if entity = "User" then []
          else [s!"{rulePath}.field must reference a User id or string field"]
        | .string => []
        | _ => [s!"{rulePath}.field must reference a User id or string field"]

def validateIndexes (path : String) (fields : BTreeMap String FieldSchema)
    (indexes : BTreeMap String IndexSchema) : List String :=
  indexes.toList.flatMap fun (indexName, index) =>
    (if index.fields.isEmpty then [s!"{path}.indexes.{indexName}.fields must not be empty"] else []) ++
    index.fields.flatMap fun field =>
      if fields.contains field then []
      else [s!"{path}.indexes.{indexName}.fields references missing field {field}"]

/-- What the report says of a table or a nested table by itself. -/
def validateTable (path : String) (storage : StorageClass) (fields : BTreeMap String FieldSchema)
    (readVisibility : ReadVisibilityPolicy) (indexes : BTreeMap String IndexSchema) : List String :=
  validateFieldMap schema s!"{path}.fields" fields ++ validateStorageClass s!"{path}.storage" fields storage ++
    validateReadVisibilityPolicy s!"{path}.readVisibility" fields readVisibility ++
    validateIndexes path fields indexes

def messageFields : List String :=
  ["id", "roomId", "senderId", "body", "attachments", "createdAtMs", "path"]

structure SchemaValidationReport where
  ok : Bool
  errors : List String

def validationErrors : List String :=
  (if trim schema.name = "" then ["schema.name is required"] else []) ++
  (if schema.objects.contains "Object" then []
    else ["objects.Object is required for ObjectRef fields"]) ++
  (schema.objects.toList.flatMap fun (objectName, object) =>
    validateFieldMap schema s!"objects.{objectName}.fields" object.fields) ++
  (match schema.nestedTable "rooms" "messages" with
    | none => []
    | some messages => messageFields.flatMap fun field =>
      if messages.fields.contains field then []
      else [s!"tables.rooms.nested.messages.fields.{field} is required"]) ++
  (schema.behaviors.toList.flatMap fun (behaviorName, behavior) =>
    (if behavior.mutations.isEmpty then
      [s!"behaviors.{behaviorName}.mutations must not be empty"] else []) ++
    validateFieldMap schema s!"behaviors.{behaviorName}.mutations" behavior.mutations) ++
  (schema.events.toList.flatMap fun (eventName, event) =>
    (if trim eventName = "" then ["events contains an empty event name"] else []) ++
    validateFieldSchema schema s!"events.{eventName}.payload.type" event.payload.fieldType) ++
  (schema.tables.toList.flatMap fun (tableName, table) =>
    validateTable schema s!"tables.{tableName}" table.storage table.fields table.readVisibility table.indexes ++
    table.nested.toList.flatMap fun (nestedName, nested) =>
      validateTable schema s!"tables.{tableName}.nested.{nestedName}" nested.storage nested.fields
        nested.readVisibility nested.indexes)

def DatabaseSchema.validationReport : SchemaValidationReport :=
  let errors := validationErrors schema
  ⟨errors.isEmpty, errors⟩

def SchemaValidationReport.intoResult (self : SchemaValidationReport) : Result Unit :=
  if self.ok then .ok () else
    let errors := "; ".intercalate self.errors
    bail s!"invalid schema: {errors}"

theorem validationReport_ok {schema : DatabaseSchema} :
    schema.validationReport.ok = true ↔ validationErrors schema = [] := by
  rw [DatabaseSchema.validationReport, List.isEmpty_iff]

end NextDb
