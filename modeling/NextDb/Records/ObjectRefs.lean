import NextDb.Schema.Validate

/-!
# References to objects

The index of the objects that messages and records refer to. A message refers to
its attachments; a record refers to what its value holds at the object ref fields
that the schema declares for its table.
-/

namespace NextDb

/-- `BTreeSet`. -/
abbrev BTreeSet (κ : Type) [Ord κ] := Std.ExtTreeSet κ

def Json.asU64 : Json → Option Nat
  | .number value => value.asU64.map UInt64.toNat
  | _ => none

namespace Records

structure DeclaredObjectRef where
  path : String
  id : String
  objectPath : String
  contentType : String
  byteSize : Nat
  sha256 : String

/-- `split_once`. -/
def splitOnce (text : String) (separator : Char) : Option (String × String) :=
  if separator ∈ text.toList then
    some (String.ofList (text.toList.takeWhile (· ≠ separator)),
      String.ofList (text.toList.dropWhile (· ≠ separator)).tail)
  else none

def objectRefStringField (path : String) (object : List (String × Json)) (field : String) :
    Result String :=
  okOr s!"{path}.{field} must be a non-empty string"
    (((object.lookup field).bind Json.asStr).filter fun value => trim value != "")

def collectObjectRef (path : String) (value : Json) : Result DeclaredObjectRef := do
  let object ← okOr s!"{path} must be an object ref" value.asObject
  let id ← objectRefStringField path object "id"
  let objectPath ← objectRefStringField path object "path"
  let contentType ← objectRefStringField path object "contentType"
  let byteSize ← okOr s!"{path}.byteSize must be a non-negative integer" ((object.lookup "byteSize").bind Json.asU64)
  let sha256 ← objectRefStringField path object "sha256"
  return { path, id, objectPath, contentType, byteSize, sha256 }

mutual

def collectDeclaredObjectRefsFromType : String → FieldType → Json → Result (List DeclaredObjectRef)
  | path, .objectRef _, value =>
    if value.isNull then .ok [] else return [← collectObjectRef path value]
  | path, .list item, value => do
    if value.isNull then .ok []
    else
      let values ← okOr s!"{path} must be an array" value.asArray
      let refs ← values.zipIdx.mapM fun (value, index) =>
        collectDeclaredObjectRefsFromType s!"{path}[{index}]" item value
      return refs.flatten
  | path, .object fields, value =>
    if value.isNull then .ok []
    else do collectFromFields path fields (← okOr s!"{path} must be an object" value.asObject)
  | _, .string, _ | _, .text _, _ | _, .int64, _ | _, .timeMs, _ | _, .boolean, _ | _, .id _, _
  | _, .json, _ => .ok []

/-- The loop over the fields in `collect_declared_object_refs_from_fields`. -/
def collectFromFields : String → List (String × FieldSchema) → List (String × Json) →
    Result (List DeclaredObjectRef)
  | _, [], _ => .ok []
  | path, (name, ⟨fieldType, _⟩) :: fields, object => do
    let refs ← (match object.lookup name with
      | some value => collectDeclaredObjectRefsFromType s!"{path}.{name}" fieldType value
      | none => .ok [])
    return refs ++ (← collectFromFields path fields object)

end

def collectDeclaredObjectRefs (path : String) (fields : BTreeMap String FieldSchema)
    (value : Json) :
    Result (List DeclaredObjectRef) := do
  collectFromFields path fields.toList (← okOr s!"{path} must be an object" value.asObject)

/-- The references of a record. A record of a table that the schema does not have has none. -/
def declaredRecordObjectRefs (schema : DatabaseSchema) (record : DbRecord) :
    Result (List DeclaredObjectRef) :=
  match splitOnce record.table '.' with
  | some (table, nested) =>
    match schema.nestedTable table nested with
    | some nestedSchema =>
      collectDeclaredObjectRefs s!"{record.path} in tables.{table}.nested.{nested}" nestedSchema.fields
        record.value.json
    | none => .ok []
  | none =>
    match schema.tables[record.table]? with
    | some tableSchema =>
      collectDeclaredObjectRefs s!"{record.path} in tables.{record.table}" tableSchema.fields record.value.json
    | none => .ok []

def declaredRecordObjectRefIds (schema : DatabaseSchema) (record : DbRecord) :
    Result (List String) := do
  return (← declaredRecordObjectRefs schema record).map DeclaredObjectRef.id

/-- The sources of the references to each object. -/
structure RefState where
  refs : BTreeMap String (BTreeSet String)
deriving DecidableEq

/-- Inserts a source of a reference to an object. -/
def RefState.retain (self : RefState) (source objectId : String) : RefState :=
  ⟨self.refs.alter objectId fun sources => some ((sources.getD ∅).insert source)⟩

def RefState.retainMessage (self : RefState) (message : Message) : RefState :=
  message.attachments.foldl (fun state attachment => state.retain message.path attachment.id) self

/-- Removes a source, and each object that has no source left. -/
def RefState.removeSource (self : RefState) (source : String) : RefState :=
  ⟨self.refs.filterMap fun _ sources =>
    let rest := sources.erase source
    if rest.isEmpty then none else some rest⟩

def RefState.retainRecordForSchema (self : RefState) (schema : DatabaseSchema) (record : DbRecord) :
    Result RefState := do
  let ids ← declaredRecordObjectRefIds schema record
  return ids.foldl (fun state objectId => state.retain record.path objectId) (self.removeSource record.path)

def RefState.fromMessages (messages : List Message) : RefState :=
  messages.foldl RefState.retainMessage ⟨∅⟩

def RefState.fromMessagesAndRecordsForSchema (messages : List Message) (records : List DbRecord)
    (schema : DatabaseSchema) : Result RefState :=
  records.foldlM (fun state record => state.retainRecordForSchema schema record) (RefState.fromMessages messages)

end Records

end NextDb
