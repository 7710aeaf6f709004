import NextDb.Api.Converge
import NextDb.Api.RecordMatch
import NextDb.Lib.Entries

/-!
# The key-value store of the record projection

The records are kept by table and key, and beside that by parent, by the time of their last write,
in the order of a chat log, and by the values of each index; references lead from a record to its
entries. The keys are the UTF-8 bytes of texts whose parts NUL characters join, and the bytes of
texts are in the order of the texts.

* `upsertWithIndexes`, `deleteFromProjection`: a record with its entries put in every keyspace, and
  taken from it.
* `list`, `listByKeyPrefix`, `listRecent`, `queryIndex`: what is read of one keyspace.
-/

namespace NextDb.Api.ProjectionKv

open Records TextKeys Entries Fallible
open Routing (splitAll)
open Chat (strBytes)
open Messages (normalizeLimit)
open RecordMatch (jsonGet recordIndexValues)
open Converge (RecordProjectionMutation)

structure ProjectedRecordEnvelope where
  table : String
  key : String
  value : BinaryJsonValue
  updatedAtMs : Nat
  lsn : Nat
  path : String

/-- `postcard`, `serde_json` and the display of numbers. -/
structure ProjectionLibraries where
  envelopeToVec : ProjectedRecordEnvelope → Result Bytes
  envelopeFromBytes : Bytes → Result ProjectedRecordEnvelope
  recordFromSlice : Bytes → Result DbRecord
  indexValuesToVec : List BinaryJsonValue → Result Bytes
  indexValuesFromBytes : Bytes → Result (List BinaryJsonValue)
  valuesFromSlice : Bytes → Result (List Json)
  floatText : F64 → String
  jsonText : Json → String

/-- What is written is read back. -/
structure ProjectionLibraries.Lawful (lib : ProjectionLibraries) : Prop where
  envelope : ∀ {envelope bytes}, lib.envelopeToVec envelope = .ok bytes → lib.envelopeFromBytes bytes = .ok envelope
  indexValues : ∀ {values bytes}, lib.indexValuesToVec values = .ok bytes → lib.indexValuesFromBytes bytes = .ok values

variable (lib : ProjectionLibraries)

def projectedRecordMagic : Bytes := [0x4e, 0x44, 0x42, 0x52, 0x45, 0x43, 0x30, 0x31]

def indexValuesMagic : Bytes := [0x4e, 0x44, 0x42, 0x49, 0x44, 0x58, 0x30, 0x31]

def encodeProjectedRecord (record : DbRecord) : Result Bytes := do
  let value ← BinaryJsonValue.fromJson record.value.json
  let postcard ← lib.envelopeToVec
    { table := record.table, key := record.key, value, updatedAtMs := record.updatedAtMs, lsn := record.lsn,
      path := record.path }
  return projectedRecordMagic ++ postcard

def decodeProjectedRecord (bytes : Bytes) : Result DbRecord :=
  if !projectedRecordMagic.isPrefixOf bytes then
    withContext "parse legacy JSON record projection" (lib.recordFromSlice bytes)
  else do
    let envelope ← withContext "parse postcard record projection envelope"
      (lib.envelopeFromBytes (bytes.drop projectedRecordMagic.length))
    let value ← withContext "decode record projection value" envelope.value.intoValue
    return { table := envelope.table, key := envelope.key, value, updatedAtMs := envelope.updatedAtMs,
             lsn := envelope.lsn, path := envelope.path }

/-! ## Keys -/

def recordKey (table key : String) : String := joined table key

def recordPrefix (table keyPrefix : String) : String := joined table keyPrefix

def maxU64 : Nat := 18446744073709551615

def recentKey (record : DbRecord) : String :=
  joined record.table (joined (padded 20 (maxU64 - record.lsn))
    (joined (padded 20 (maxU64 - record.updatedAtMs)) record.key))

def recentPrefix (table : String) : String := joined table ""

def recentRefKey (table key : String) : String := joined table key

def orderKey (table parentKey orderId cursor key : String) : String :=
  joined table (joined parentKey (joined orderId (joined cursor key)))

def orderRefPrefix (table key : String) : String := joined table (joined key "")

def orderRefKey (table key orderId : String) : String := joined table (joined key orderId)

def partitionKey (table parentKey nestedKey : String) : String :=
  joined table (joined parentKey nestedKey)

def partitionPrefix (table parentKey : String) : String := joined table (joined parentKey "")

/-- The text behind a start that it has. -/
def behind (start text : String) : Option String :=
  if Starts start text then some (String.ofList (text.toList.drop start.toList.length)) else none

def parsePartitionKey (table parentKey key : String) : Option String :=
  behind (partitionPrefix table parentKey) key

def partitionAfterNestedKey (parentKey : String) (afterKey : Option String) : Option String :=
  afterKey.map fun afterKey => (behind (parentKey ++ ":") afterKey).getD afterKey

def splitNestedKey (key : String) : Option (String × String) :=
  (splitOnce key ':').filter fun (parentKey, nestedKey) => parentKey ≠ "" && nestedKey ≠ ""

def hexNibble (char : Char) : Result UInt8 :=
  if '0' ≤ char ∧ char ≤ '9' then .ok (UInt8.ofNat (char.toNat - '0'.toNat))
  else if 'a' ≤ char ∧ char ≤ 'f' then .ok (UInt8.ofNat (char.toNat - 'a'.toNat + 10))
  else if 'A' ≤ char ∧ char ≤ 'F' then .ok (UInt8.ofNat (char.toNat - 'A'.toNat + 10))
  else bail "invalid hex digit"

/-- `decode_hex`, two digits at a time. -/
def decodeHex : List Char → Result Bytes
  | [] => .ok []
  | [_] => bail "invalid hex value"
  | high :: low :: rest => do
    let high ← hexNibble high
    let low ← hexNibble low
    let bytes ← decodeHex rest
    return (high * 16 + low) :: bytes

def encodeIndexValuesComponent (values : List Json) : Result String := do
  let values ← values.mapM BinaryJsonValue.fromJson
  let payload ← lib.indexValuesToVec values
  return hexLower (indexValuesMagic ++ payload)

/-- The bytes of a component that begins with the magic of index values. -/
def indexValuesPayload (component : String) : Option Bytes :=
  (decodeHex component.toList).toOption.bind fun bytes =>
    if indexValuesMagic.isPrefixOf bytes then some (bytes.drop indexValuesMagic.length) else none

def decodeIndexValuesComponent (component : String) : Result (List Json) :=
  match indexValuesPayload component with
  | some payload => do
    let values ← withContext "parse postcard index values" (lib.indexValuesFromBytes payload)
    values.mapM BinaryJsonValue.intoJson
  | none => withContext "parse legacy JSON index values" (lib.valuesFromSlice (strBytes component))

def indexPrefix (table indexName : String) (values : List Json) : Result String := do
  return joined table (joined indexName (joined (← encodeIndexValuesComponent lib values) ""))

def indexKeyPrefix (table indexName : String) (values : List Json) (keyPrefix : String) :
    Result String := do
  return joined table (joined indexName (joined (← encodeIndexValuesComponent lib values) keyPrefix))

def indexKey (table indexName : String) (values : List Json) (key : String) : Result String := do
  return joined table (joined indexName (joined (← encodeIndexValuesComponent lib values) key))

def indexRefPrefix (table key : String) : String := joined table (joined key "")

def indexRefKey (table key indexName : String) (values : List Json) : Result String := do
  return joined table (joined key (joined indexName (← encodeIndexValuesComponent lib values)))

structure IndexRef where
  indexName : String
  values : List Json

def parseIndexRefKey (key : String) : Result (Option IndexRef) :=
  match splitAll '\x00' key.toList with
  | [_, _, indexName, component] => do
    let values ← decodeIndexValuesComponent lib (String.ofList component)
    return some ⟨String.ofList indexName, values⟩
  | _ => .ok none

/-! ## Orders -/

def orderId (order : List RecordOrderTerm) : String :=
  hexLower (strBytes (String.join (order.map fun term =>
    (match term.direction with
    | .asc => "asc:"
    | .desc => "desc:") ++ (term.field ++ "\n"))))

def invertSortComponent (value : String) : String := hexLower ((strBytes value).map (255 - ·))

def orderValueComponent (value : Option Json) (direction : RecordOrderDirection) : String :=
  let asc :=
    match value with
    | some (.number (.posInt n)) => "2u" ++ padded 20 n.toNat
    | some (.number (.negInt i _)) => "2i" ++ padded 20 (i.toInt + 2 ^ 63).toNat
    | some (.number (.float x _)) => "2f" ++ lib.floatText x
    | some (.string value) => "3s" ++ hexLower (strBytes value)
    | some (.bool value) => "1b" ++ (if value then "1" else "0")
    | some .null | none => "0"
    | some value => "4j" ++ hexLower (strBytes (lib.jsonText value))
  match direction with
  | .asc => asc
  | .desc => invertSortComponent asc

def orderRecordCursor (record : DbRecord) (order : List RecordOrderTerm) : String :=
  "_".intercalate (order.map fun term =>
    orderValueComponent lib (jsonGet record.value.json term.field) term.direction) ++
    ("__" ++ hexLower (strBytes record.key))

/-! ## The store -/

structure RecordProjectionKv where
  records : BTreeMap String Bytes
  indexes : BTreeMap String Bytes
  indexRefs : BTreeMap String Unit
  partitions : BTreeMap String Bytes
  recent : BTreeMap String Bytes
  recentRefs : BTreeMap String String
  orders : BTreeMap String Bytes
  orderRefs : BTreeMap String String

def RecordProjectionKv.empty : RecordProjectionKv := ⟨∅, ∅, ∅, ∅, ∅, ∅, ∅, ∅⟩

abbrev KvTask := Task RecordProjectionKv Error

/-- The entry that a reference leads to is removed. -/
def eraseReferred (reference : Option String) (entries : BTreeMap String Bytes) :
    BTreeMap String Bytes :=
  match reference with
  | some key => entries.erase key
  | none => entries

def putRecordBytes (record : DbRecord) (recordBytes : Bytes) : KvTask Unit := change fun kv =>
  let refKey := recentRefKey record.table record.key
  { kv with
    records := kv.records.insert (recordKey record.table record.key) recordBytes
    recent := (eraseReferred kv.recentRefs[refKey]? kv.recent).insert (recentKey record) recordBytes
    recentRefs := kv.recentRefs.insert refKey (recentKey record)
    partitions := match splitNestedKey record.key with
      | some (parentKey, nestedKey) => kv.partitions.insert (partitionKey record.table parentKey nestedKey) recordBytes
      | none => kv.partitions }

variable (kv : RecordProjectionKv)

def orderRemovals (table key : String) : List (String × String) :=
  scan (orderRefPrefix table key) kv.orderRefs

def removeOrders (removals : List (String × String)) : RecordProjectionKv :=
  { kv with
    orderRefs := (removals.map Prod.fst).foldl (·.erase ·) kv.orderRefs
    orders := (removals.map Prod.snd).foldl (·.erase ·) kv.orders }

def removeOrderEntries (table key : String) : KvTask Unit :=
  change fun kv => removeOrders kv (orderRemovals kv table key)

def removeRecord (table key : String) : KvTask Unit := change fun kv =>
  let refKey := recentRefKey table key
  removeOrders
    { kv with
      records := kv.records.erase (recordKey table key)
      recent := eraseReferred kv.recentRefs[refKey]? kv.recent
      recentRefs := kv.recentRefs.erase refKey
      partitions := match splitNestedKey key with
        | some (parentKey, nestedKey) => kv.partitions.erase (partitionKey table parentKey nestedKey)
        | none => kv.partitions }
    (orderRemovals kv table key)

def putOrderEntry (record : DbRecord) (orderId cursor : String) (recordBytes : Bytes) :
    KvTask Unit := change fun kv =>
  match splitNestedKey record.key with
  | none => kv
  | some (parentKey, _) =>
    let refKey := orderRefKey record.table record.key orderId
    let key := orderKey record.table parentKey orderId cursor record.key
    { kv with
      orders := (eraseReferred kv.orderRefs[refKey]? kv.orders).insert key recordBytes
      orderRefs := kv.orderRefs.insert refKey key }

/-- No other record has the values. -/
def checkUnique (record : DbRecord) (indexName : String) (values : List Json)
    (unique : Bool) : Result Unit :=
  if unique then do
    let start ← indexPrefix lib record.table indexName values
    (scan start kv.indexes).forM fun entry => do
      let existing ← decodeProjectedRecord lib entry.2
      if existing.key ≠ record.key then
        bail ("unique index violation on " ++ record.table ++ "." ++ indexName ++ " for record " ++ record.key)
      else .ok ()
  else .ok ()

def putIndexEntry (record : DbRecord) (indexName : String) (values : List Json) (unique : Bool)
    (recordBytes : Bytes) : KvTask Unit := do
  let kv ← get
  check (checkUnique lib kv record indexName values unique)
  let key ← check (indexKey lib record.table indexName values record.key)
  let refKey ← check (indexRefKey lib record.table record.key indexName values)
  change fun kv =>
    { kv with indexes := kv.indexes.insert key recordBytes, indexRefs := kv.indexRefs.insert refKey () }

/-- A reference of the record, and the entry that it stands for, if it parses. -/
def indexRemoval (table key refKey : String) : Result (Option (String × String)) := do
  match ← parseIndexRefKey lib refKey with
  | none => return none
  | some ref => return some (refKey, ← indexKey lib table ref.indexName ref.values key)

def indexRemovals (table key : String) : Result (List (Option (String × String))) :=
  (scan (indexRefPrefix table key) kv.indexRefs).mapM fun entry => indexRemoval lib table key entry.1

def removeIndexes (removals : List (String × String)) : RecordProjectionKv :=
  { kv with
    indexRefs := (removals.map Prod.fst).foldl (·.erase ·) kv.indexRefs
    indexes := (removals.map Prod.snd).foldl (·.erase ·) kv.indexes }

def removeIndexEntries (table key : String) : KvTask Unit := do
  let kv ← get
  let removals ← check (indexRemovals lib kv table key)
  change fun kv => removeIndexes kv removals.reduceOption

def getRecord (table key : String) : Result (Option DbRecord) :=
  match kv.records[recordKey table key]? with
  | none => .ok none
  | some bytes =>
    (withContext ("decode fjall record projection for " ++ table ++ "/" ++ key)
      (decodeProjectedRecord lib bytes)).map some

/-- The records of the entries that are not skipped, decoded up to the limit. -/
def collect (context : Result DbRecord → Result DbRecord) (skipsKey : String → Bool)
    (skips : DbRecord → Bool) :
    Nat → List (String × Bytes) → Result (List DbRecord)
  | _, [] => .ok []
  | limit, (key, bytes) :: entries =>
    if skipsKey key then collect context skipsKey skips limit entries
    else do
      let record ← context (decodeProjectedRecord lib bytes)
      if skips record then collect context skipsKey skips limit entries
      else if limit ≤ 1 then return [record]
      else return record :: (← collect context skipsKey skips (limit - 1) entries)

/-- The text is not behind the one after which a list goes on. -/
def notAfter (after : Option String) (text : String) : Bool := after.any (text ≤ ·)

def listByKeyPrefixRaw (kv : RecordProjectionKv) (table keyPrefix : String)
    (afterKey : Option String) (limit : Option Nat) : Result (List DbRecord) :=
  collect lib (withContext ("decode fjall record projection for table " ++ table)) (fun _ => false)
    (fun record => notAfter afterKey record.key) (normalizeLimit limit) (scan (recordPrefix table keyPrefix) kv.records)

def listPartition (kv : RecordProjectionKv) (table parentKey : String) (afterKey : Option String)
    (limit : Option Nat) : Result (List DbRecord) :=
  let afterNestedKey := partitionAfterNestedKey parentKey afterKey
  collect lib (withContext ("decode fjall partition projection for " ++ table ++ "/" ++ parentKey))
    (fun key => (parsePartitionKey table parentKey key).all (notAfter afterNestedKey)) (fun _ => false)
    (normalizeLimit limit) (scan (partitionPrefix table parentKey) kv.partitions)

def listRecent (kv : RecordProjectionKv) (table : String) (limit : Option Nat) :
    Result (List DbRecord) :=
  collect lib (withContext ("decode fjall recent projection for table " ++ table)) (fun _ => false) (fun _ => false)
    (normalizeLimit limit) (scan (recentPrefix table) kv.recent)

def queryIndexWith (kv : RecordProjectionKv) (table indexName : String) (values : List Json)
    (keyPrefix : Option String) (afterKey : Option String) (limit : Option Nat) :
    Result (List DbRecord) := do
  let start ← match keyPrefix with
    | some keyPrefix => indexKeyPrefix lib table indexName values keyPrefix
    | none => indexPrefix lib table indexName values
  collect lib id (fun _ => false) (fun record => notAfter afterKey record.key) (normalizeLimit limit)
    (scan start kv.indexes)

/-! ## The record store -/

def partitionParentFromPrefix (keyPrefix : String) : Option String :=
  if keyPrefix.toList.getLast? = some ':' then
    some (String.ofList keyPrefix.toList.dropLast) |>.filter (· ≠ "")
  else none

def list (kv : RecordProjectionKv) (table : String) (afterKey : Option String)
    (limit : Option Nat) :
    Result (List DbRecord) :=
  listByKeyPrefixRaw lib kv table "" afterKey limit

def listByKeyPrefix (kv : RecordProjectionKv) (table keyPrefix : String) (afterKey : Option String)
    (limit : Option Nat) : Result (List DbRecord) :=
  match partitionParentFromPrefix keyPrefix with
  | some parentKey => listPartition lib kv table parentKey afterKey limit
  | none => listByKeyPrefixRaw lib kv table keyPrefix afterKey limit

def queryIndex (kv : RecordProjectionKv) (table indexName : String) (values : List Json)
    (afterKey : Option String) (limit : Option Nat) : Result (List DbRecord) :=
  queryIndexWith lib kv table indexName values none afterKey limit

def queryIndexByKeyPrefix (kv : RecordProjectionKv) (table indexName : String) (values : List Json)
    (keyPrefix : String) (afterKey : Option String) (limit : Option Nat) : Result (List DbRecord) :=
  queryIndexWith lib kv table indexName values (some keyPrefix) afterKey limit

def putIndexEntries (record : DbRecord) (recordBytes : Bytes) :
    List (String × IndexSchema) → KvTask Unit
  | [] => pure ()
  | (indexName, index) :: indexes => do
    let values ← check (recordIndexValues record index)
    putIndexEntry lib record indexName values index.unique recordBytes
    putIndexEntries record recordBytes indexes

def putOrder (record : DbRecord) (order : Option (List RecordOrderTerm)) (recordBytes : Bytes) :
    KvTask Unit :=
  match order with
  | some order => putOrderEntry record (orderId order) (orderRecordCursor lib record order) recordBytes
  | none => pure ()

def applyPreparedProjectionUpsert (record : DbRecord) (indexes : BTreeMap String IndexSchema)
    (order : Option (List RecordOrderTerm)) (recordBytes : Bytes) : KvTask Unit := do
  putRecordBytes record recordBytes
  putOrder lib record order recordBytes
  putIndexEntries lib record recordBytes indexes.toList

/-- The entries of the record as it was, if it was there. -/
def removeOldEntries (existed : Bool) (table key : String) : KvTask Unit :=
  if existed then do
    removeOrderEntries table key
    removeIndexEntries lib table key
  else pure ()

def upsertWithIndexes (record : DbRecord) (indexes : BTreeMap String IndexSchema)
    (order : Option (List RecordOrderTerm)) : KvTask Unit := do
  let recordBytes ← check (encodeProjectedRecord lib record)
  let kv ← get
  let existing ← check (getRecord lib kv record.table record.key)
  removeOldEntries lib existing.isSome record.table record.key
  applyPreparedProjectionUpsert lib record indexes order recordBytes

def deleteFromProjection (table key : String) : KvTask Bool := do
  let kv ← get
  let existing ← check (getRecord lib kv table key)
  removeRecord table key
  removeOrderEntries table key
  removeIndexEntries lib table key
  return existing.isSome

/-- `RecordStore::apply_transaction`. -/
def applyOperations : List RecordProjectionMutation → KvTask Unit
  | [] => pure ()
  | .upsert record indexes order :: mutations => do
    upsertWithIndexes lib record indexes order
    applyOperations mutations
  | .delete table key :: mutations => do
    let _ ← deleteFromProjection lib table key
    applyOperations mutations

end NextDb.Api.ProjectionKv
