import NextDb.Api.RecordCommit
import NextDb.Records.References

/-!
# The index of the object references

A durable write takes the lock of its shard while it allocates its LSNs and queues its
records, and waits for the log writer. Then it updates the index of the object references:
a message adds its attachments, a record replaces what its path referred to. Updates are
made in the order in which they arrive, and not in the order of the LSNs.

* `index_equals_data`: in a run in which no update comes after that of a later write of
  its record, and whose writes update the index once they are in the log, the index is
  that of the log's messages and live records as soon as all writes have returned.
-/

namespace NextDb.Api.ObjectRefIndex

open Records Run Wal List
open RecordCommit (RecordOperation WalStamp nestedRecordKey nestedRecordPath)

/-! ## Requests -/

/-- A component of letters, digits and these characters is one path component unless it is blank. -/
def ensureSafeRecordComponent (value : String) : Bool :=
  !(trim value).isEmpty && value.toList.all fun char =>
    char.isAlphanum || char == '-' || char == '_' || char == ':' || char == '.'

def componentsSafe : RecordOperation → Bool
  | .upsert table key _ | .delete table key =>
    ensureSafeRecordComponent table && ensureSafeRecordComponent key
  | .nestedUpsert table parentKey nested nestedKey _ | .nestedDelete table parentKey nested nestedKey =>
    ensureSafeRecordComponent table && ensureSafeRecordComponent parentKey &&
      ensureSafeRecordComponent nested && ensureSafeRecordComponent nestedKey

/-- What `ensure_transaction_key_once` remembers of an operation. -/
def recordIdentity : RecordOperation → String
  | .upsert table key _ | .delete table key => s!"{table}/{key}"
  | .nestedUpsert table parentKey nested nestedKey _ | .nestedDelete table parentKey nested nestedKey =>
    s!"{nestedRecordTable table nested}/{nestedRecordKey parentKey nestedKey}"

/-- The objects whose existence `validate_record_object_refs` and
`validate_nested_record_object_refs` check. -/
def operationObjectIds (schema : DatabaseSchema) : RecordOperation → Result (List String)
  | .upsert table _ value => do
    let tableSchema ← okOr s!"schema missing table {table}" schema.tables[table]?
    let refs ← collectDeclaredObjectRefs s!"tables.{table}" tableSchema.fields value.json
    return refs.map DeclaredObjectRef.id
  | .nestedUpsert table _ nested _ value => do
    let nestedSchema ← okOr s!"schema missing nested table {table}.{nested}" (schema.nestedTable table nested)
    let refs ← collectDeclaredObjectRefs s!"tables.{table}.nested.{nested}" nestedSchema.fields value.json
    return refs.map DeclaredObjectRef.id
  | .delete _ _ | .nestedDelete _ _ _ _ => .ok []

/-- A durable write, as its request asks for it. -/
inductive WriteRequest where
  /-- `send_message` and `send_messages`. -/
  | sendMessages (messages : List MessageDraft)
  | record (operation : RecordOperation) (timestampMs : Nat) (clientMutationId : Option String)
  | transaction (operations : List RecordOperation) (timestampMs : Nat) (clientMutationId : Option String)
  /-- A record of another kind. -/
  | other (payload : WalPayload)

/-- The changes that a request logs. -/
def WriteRequest.mutations : WriteRequest → List DbRecordMutationDraft
  | .record operation timestampMs clientMutationId => [operation.mutation timestampMs clientMutationId]
  | .transaction operations timestampMs _ => operations.map (RecordOperation.mutation timestampMs none)
  | .sendMessages _ | .other _ => []

def mutationPayload : DbRecordMutationDraft → WalPayload
  | .upsert record => .recordUpserted record
  | .delete record => .recordDeleted record

def WriteRequest.payloads : WriteRequest → List WalPayload
  | .sendMessages messages => messages.map .messageCreated
  | .record operation timestampMs clientMutationId =>
    [mutationPayload (operation.mutation timestampMs clientMutationId)]
  | .transaction operations timestampMs clientMutationId =>
    [.recordTransactionCommitted (operations.map (RecordOperation.mutation timestampMs none)) clientMutationId]
  | .other payload => [payload]

/-- What the handlers check of an operation. -/
structure OperationChecked (schema : DatabaseSchema) (operation : RecordOperation) : Prop where
  safe : componentsSafe operation = true
  objectIds : ∃ ids, operationObjectIds schema operation = .ok ids

/-- What the handlers check of a request, and the paths that they give its messages. -/
def WriteRequest.Checked (schema : DatabaseSchema) : WriteRequest → Prop
  | .sendMessages messages => ∀ message ∈ messages, message.path =
    s!"rooms/{message.roomId}/messages/{message.id}"
  | .record operation _ _ => OperationChecked schema operation
  | .transaction operations _ _ =>
    (∀ operation ∈ operations, OperationChecked schema operation) ∧
    (operations.map recordIdentity).Nodup
  | .other payload => recordMutations payload = [] ∧ ∀ message, payload ≠ .messageCreated message

/-! ## Names of nested tables -/

theorem splitOnce_of_notMem {text : String} {separator : Char} (h : separator ∉ text.toList) :
    splitOnce text separator = none := if_neg h

theorem splitOnce_nestedRecordTable {table : String} (h : '.' ∉ table.toList) (nested : String) :
    splitOnce (nestedRecordTable table nested) '.' = some (table, nested) := by
  have hlist : (nestedRecordTable table nested).toList = table.toList ++ '.' :: nested.toList := by
    simp [nestedRecordTable, toString]
  have hall : ∀ c ∈ table.toList, decide (c ≠ '.') = true := fun c hc => by
    rw [decide_eq_true_iff]
    rintro rfl
    exact h hc
  rw [splitOnce, if_pos (by simp [hlist]), hlist, takeWhile_append_of_pos hall, dropWhile_append_of_pos hall]
  simp

/-! ## The index -/

/-- `ObjectRefIndex::retain_record_for_schema`. An update that fails leaves what it has changed. -/
def retainRecord (schema : DatabaseSchema) (refs : RefState) (record : DbRecord) :
    Except RefState RefState :=
  match refs.retainRecordForSchema schema record with
  | .ok refs => .ok refs
  | .error _ => .error (refs.removeSource record.path)

def deletedPaths (operations : List DbRecordMutationDraft) : List String :=
  operations.filterMap fun
    | .upsert _ => none
    | .delete record => some record.path

def upsertedRecords (lsn : Nat) (operations : List DbRecordMutationDraft) : List DbRecord :=
  operations.filterMap fun
    | .upsert record => some (record.intoRecord lsn)
    | .delete _ => none

def applyRecordChangesForSchema (schema : DatabaseSchema) (refs : RefState)
    (removedPaths : List String) (retainedRecords : List DbRecord) : Except RefState RefState :=
  retainedRecords.foldlM (retainRecord schema) (removedPaths.foldl RefState.removeSource refs)

/-- The update that the handler of a record's payload makes. -/
def updateFor (schema : DatabaseSchema) (refs : RefState) (walRecord : WalRecord) :
    Except RefState RefState :=
  match walRecord.payload with
  | .messageCreated message => .ok (refs.retainMessage (message.intoMessage walRecord.lsn))
  | .recordUpserted record => retainRecord schema refs (record.intoRecord walRecord.lsn)
  | .recordDeleted record => .ok (refs.removeSource record.path)
  | .recordTransactionCommitted operations _ =>
    applyRecordChangesForSchema schema refs (deletedPaths operations) (upsertedRecords walRecord.lsn operations)
  | _ => .ok refs

/-! ## The server -/

/-- How far a write has come. -/
inductive WritePhase where
  | prepared
  /-- The shard's lock is held. -/
  | allocating (records : List WalRecord)
  | enqueued (records : List WalRecord)
  | appended (records : List WalRecord)
  | indexed (records : List WalRecord)
  | failed

/-- A write on its way. -/
structure Write where
  request : WriteRequest
  shard : Nat
  phase : WritePhase

/-- The log, the references and the writes that are on their way. -/
structure ServerState where
  nextLsn : Nat
  /-- The archived and active records of each shard. -/
  files : List (List WalRecord × List WalRecord)
  refs : RefState
  writes : List Write

/-- The log, as the readers of all shards read it. -/
def ServerState.walRecords (s : ServerState) : List WalRecord := readRecordsFromWalPaths s.files

def ServerState.setPhase (s : ServerState) (i : Nat) (write : Write) (phase : WritePhase) :
    ServerState :=
  { s with writes := s.writes.set i { write with phase } }

/-- The log writer writes a batch to its shard. -/
def ServerState.writeRecords (s : ServerState) (shard : Nat) (records : List WalRecord) :
    ServerState :=
  { s with files := s.files.modify shard fun file => (file.1, file.2 ++ records) }

def Write.holdsLock (self : Write) : Bool :=
  match self.phase with
  | .allocating _ => true
  | _ => false

def Write.queued (self : Write) : List WalRecord :=
  match self.phase with
  | .enqueued records => records
  | _ => []

/-- No batch of the shard was queued before this one. -/
def FirstInQueue (s : ServerState) (shard : Nat) (records : List WalRecord) : Prop :=
  ∀ other ∈ s.writes, other.shard = shard → ∀ r ∈ records, ∀ r' ∈ other.queued, r' ∈ records ∨ r.lsn < r'.lsn

def stampRecord (stamp : WalStamp) (lsn schemaVersion : Nat) (payload : WalPayload) :
    WalRecord where
  lsn
  shard := stamp.shard
  shardEpoch := stamp.shardEpoch
  ownerNodeId := stamp.ownerNodeId
  timestampMs := stamp.timestampMs
  schemaVersion
  durability := stamp.durability
  payload
  checksum := stamp.checksum

/-- The steps of a write, and a rebuild. -/
inductive IndexEvent where
  | request (request : WriteRequest) (shard : Nat)
  | lock (write : Nat)
  | allocate (write : Nat) (stamp : WalStamp)
  | enqueue (write : Nat)
  | append (write : Nat)
  | index (write : Nat)
  /-- The index rejects the update. -/
  | rejectIndex (write : Nat)
  /-- The request fails or is dropped; its records may reach the log all the same. -/
  | fail (write : Nat) (written : Bool)

variable (schema : DatabaseSchema)

/-- What each event does to the log and the references. -/
inductive IndexStep : ServerState → IndexEvent → ServerState → Prop where
  | request {s : ServerState} {request shard} : request.Checked schema → shard < s.files.length →
    IndexStep s (.request request shard) { s with writes := s.writes ++ [⟨request, shard, .prepared⟩] }
  | lock {s : ServerState} {i} {write : Write} : s.writes[i]? = some write → write.phase = .prepared →
    (∀ other ∈ s.writes, other.shard = write.shard → other.holdsLock = false) →
    IndexStep s (.lock i) (s.setPhase i write (.allocating []))
  | allocate {s : ServerState} {i} {write : Write} {records payload stamp} : s.writes[i]? = some write →
    write.phase = .allocating records → write.request.payloads[records.length]? = some payload →
    stamp.shard = write.shard →
    IndexStep s (.allocate i stamp)
      { s.setPhase i write (.allocating (records ++ [stampRecord stamp (s.nextLsn + 1) schema.version payload])) with
        nextLsn := s.nextLsn + 1 }
  | enqueue {s : ServerState} {i} {write : Write} {records} : s.writes[i]? = some write →
    write.phase = .allocating records → records.length = write.request.payloads.length →
    IndexStep s (.enqueue i) (s.setPhase i write (.enqueued records))
  | append {s : ServerState} {i} {write : Write} {records} : s.writes[i]? = some write →
    write.phase = .enqueued records → FirstInQueue s write.shard records →
    IndexStep s (.append i) ((s.setPhase i write (.appended records)).writeRecords write.shard records)
  | index {s : ServerState} {i} {write : Write} {records refs} : s.writes[i]? = some write →
    write.phase = .appended records → records.foldlM (updateFor schema) s.refs = .ok refs →
    IndexStep s (.index i) { s.setPhase i write (.indexed records) with refs }
  | rejectIndex {s : ServerState} {i} {write : Write} {records refs} : s.writes[i]? = some write →
    write.phase = .appended records → records.foldlM (updateFor schema) s.refs = .error refs →
    IndexStep s (.rejectIndex i) { s.setPhase i write .failed with refs }
  | fail {s : ServerState} {i} {write : Write} {written} : s.writes[i]? = some write →
    (∀ records, write.phase ≠ .indexed records) →
    IndexStep s (.fail i written)
      ((s.setPhase i write .failed).writeRecords write.shard (if written then write.queued else []))

/-! ## Paths -/

/-- The components of the path of an operation's record. -/
def operationComponents : RecordOperation → List String
  | .upsert table key _ | .delete table key => [table, key]
  | .nestedUpsert table parentKey nested nestedKey _ | .nestedDelete table parentKey nested nestedKey =>
    [table, parentKey, nested, nestedKey]

theorem slash_notMem_of_safe {value : String} (h : ensureSafeRecordComponent value = true) :
    '/' ∉ value.toList := by
  intro hmem
  rw [ensureSafeRecordComponent, Bool.and_eq_true, all_eq_true] at h
  exact absurd (h.2 _ hmem) (by decide)

def joinSlash (components : List String) : List Char :=
  components.flatMap fun component => '/' :: component.toList

theorem takeWhile_joinSlash {component : String} (h : '/' ∉ component.toList)
    (components : List String) :
    (component.toList ++ joinSlash components).takeWhile (· ≠ '/') = component.toList := by
  have hall : ∀ c ∈ component.toList, decide (c ≠ '/') = true := fun c hc => by
    rw [decide_eq_true_iff]
    rintro rfl
    exact h hc
  rw [takeWhile_append_of_pos hall]
  cases components with
  | nil | cons => simp [joinSlash]

theorem joinSlash_inj {components components' : List String} (h : ∀ c ∈ components, '/' ∉ c.toList)
    (h' : ∀ c ∈ components', '/' ∉ c.toList) (he : joinSlash components = joinSlash components') :
    components = components' := by
  induction components generalizing components' with
  | nil =>
    cases components' with
    | nil => rfl
    | cons c components' => cases he
  | cons c components ih =>
    cases components' with
    | nil => cases he
    | cons c' components' =>
      rw [forall_mem_cons] at h h'
      have hrest : c.toList ++ joinSlash components = c'.toList ++ joinSlash components' := cons.inj he |>.2
      have hfirst := congrArg (takeWhile (· ≠ '/')) hrest
      rw [takeWhile_joinSlash h.1, takeWhile_joinSlash h'.1] at hfirst
      rw [hfirst] at hrest
      rw [String.toList_inj.mp hfirst, ih h.2 h'.2 (append_cancel_left hrest)]

theorem mutation_path (operation : RecordOperation) (timestampMs : Nat)
    (clientMutationId : Option String) :
    (mutationPath (operation.mutation timestampMs clientMutationId)).toList = "tables".toList ++
    joinSlash (operationComponents operation) := by
  cases operation <;>
    simp [RecordOperation.mutation, mutationPath, nestedRecordPath, joinSlash, operationComponents, toString]

variable {operation : RecordOperation} {mutation : DbRecordMutationDraft}

theorem slash_notMem_components (h : componentsSafe operation = true) :
    ∀ c ∈ operationComponents operation, '/' ∉ c.toList := by
  have hsafe : ∀ c ∈ operationComponents operation, ensureSafeRecordComponent c = true := by
    cases operation <;> simpa [componentsSafe, operationComponents, and_assoc] using h
  exact fun c hc => slash_notMem_of_safe (hsafe c hc)

theorem recordIdentity_of_components {operation' : RecordOperation}
    (h : operationComponents operation = operationComponents operation') :
    recordIdentity operation = recordIdentity operation' := by
  cases operation <;> cases operation' <;> simp_all [operationComponents, recordIdentity]

/-- Operations on records of distinct identities change distinct paths. -/
theorem nodup_mutationPaths {operations : List RecordOperation} {timestampMs : Nat}
    {clientMutationId : Option String}
    (hsafe : ∀ operation ∈ operations, componentsSafe operation = true)
    (hidentities : (operations.map recordIdentity).Nodup) :
    ((operations.map (RecordOperation.mutation timestampMs clientMutationId)).map mutationPath).Nodup := by
  rw [map_map]
  refine pairwise_map.mpr ((pairwise_map.mp hidentities).imp_of_mem fun {a b} ha hb hne hpath => hne ?_)
  have hlist := congrArg String.toList (show mutationPath _ = mutationPath _ from hpath)
  rw [mutation_path, mutation_path] at hlist
  exact recordIdentity_of_components (joinSlash_inj (slash_notMem_components (hsafe a ha))
    (slash_notMem_components (hsafe b hb)) (append_cancel_left hlist))

/-- Messages and records stand under different roots. -/
structure PathsNamed (r : WalRecord) : Prop where
  message : ∀ message, messageOf r = some message → "rooms/".toList <+: message.path.toList
  record : ∀ mutation ∈ recordMutations r.payload, "tables/".toList <+: (mutationPath mutation).toList

theorem pathsApart_of_named {log : WalRecord → Prop} (h : ∀ r, log r → PathsNamed r) :
    PathsApart log := by
  intro r r' message hr hmessage hr'
  cases hmutation : walMutationAt message.path r' with
  | none => rfl
  | some mutation =>
    obtain ⟨hmem, hpath⟩ := mem_of_lastAt hmutation
    have hrooms := (h r hr).message message hmessage
    have htables := (h r' hr').record mutation hmem
    rw [hpath] at htables
    exact absurd (prefix_of_prefix_length_le hrooms htables (by decide)) (by decide)

theorem operation_named (operation : RecordOperation) (timestampMs : Nat)
    (clientMutationId : Option String) :
    "tables/".toList <+: (mutationPath (operation.mutation timestampMs clientMutationId)).toList := by
  rw [mutation_path]
  cases operation <;> exact ⟨_, rfl⟩

theorem recordMutations_mutationPayload (mutation : DbRecordMutationDraft) :
    recordMutations (mutationPayload mutation) = [mutation] := by
  cases mutation <;> rfl

variable {request : WriteRequest}

theorem WriteRequest.Checked.recordMutations_of_payload {schema : DatabaseSchema}
    (hchecked : request.Checked schema)
    {payload : WalPayload} (h : payload ∈ request.payloads) :
    recordMutations payload = request.mutations := by
  cases request with
  | sendMessages messages =>
    obtain ⟨draft, -, rfl⟩ := mem_map.mp h
    rfl
  | record operation timestampMs clientMutationId =>
    rw [mem_singleton.mp h, recordMutations_mutationPayload]
    rfl
  | transaction operations timestampMs clientMutationId =>
    rw [mem_singleton.mp h]
    rfl
  | other payload =>
    rw [mem_singleton.mp h]
    exact hchecked.1

theorem WriteRequest.mutation_named (h : mutation ∈ request.mutations) :
    "tables/".toList <+: (mutationPath mutation).toList := by
  cases request with
  | record operation timestampMs clientMutationId =>
    rw [mem_singleton.mp h]
    exact operation_named ..
  | transaction operations timestampMs clientMutationId =>
    obtain ⟨operation, -, rfl⟩ := mem_map.mp h
    exact operation_named ..
  | sendMessages | other => cases h

theorem WriteRequest.Checked.nodup {schema : DatabaseSchema} (h : request.Checked schema) :
    (request.mutations.map mutationPath).Nodup := by
  cases request with
  | transaction operations timestampMs clientMutationId =>
    exact nodup_mutationPaths (fun operation hop => (h.1 operation hop).safe) h.2
  | record operation timestampMs clientMutationId => exact nodup_singleton _
  | sendMessages | other => exact nodup_nil

theorem WriteRequest.Checked.message_named {schema : DatabaseSchema} (h : request.Checked schema)
    {draft : MessageDraft}
    (hpayload : .messageCreated draft ∈ request.payloads) :
    "rooms/".toList <+: draft.path.toList := by
  cases request with
  | sendMessages messages =>
    obtain ⟨_, hdraft, he⟩ := mem_map.mp hpayload
    cases he
    rw [h draft hdraft]
    simp [toString]
  | record operation timestampMs clientMutationId =>
    have he := mem_singleton.mp hpayload
    cases operation <;> cases he
  | transaction operations timestampMs clientMutationId => cases mem_singleton.mp hpayload
  | other payload => exact absurd (mem_singleton.mp hpayload).symm (h.2 draft)

variable {r : WalRecord}

theorem WriteRequest.Checked.named {schema : DatabaseSchema} (h : request.Checked schema)
    (hr : r.payload ∈ request.payloads) : PathsNamed r := by
  constructor
  · intro message hmessage
    unfold messageOf at hmessage
    split at hmessage
    · next draft hpayload =>
      cases hmessage
      exact h.message_named (hpayload ▸ hr)
    · cases hmessage
  · intro mutation hmutation
    rw [h.recordMutations_of_payload hr] at hmutation
    exact WriteRequest.mutation_named hmutation

/-! ## What an update leaves -/

section Update

variable {schema : DatabaseSchema} {log : WalRecord → Prop}

/-- What a log with one more record refers to. -/
theorem logRefers_add (hapart : PathsApart fun r' => log r' ∨ r' = r)
    (horder : ∀ r' path, log r' → (walMutationAt path
    r').isSome → (walMutationAt path r).isSome → r'.lsn < r.lsn) (source objectId : String) :
    LogRefers schema (fun r'
    => log r' ∨ r' = r) source objectId ↔
      match walMutationAt source r with
      | some mutation => ∃ record, mutationLeaves r.lsn mutation = some record ∧
      RecordRefers schema record objectId
      | none => LogRefers schema log source objectId ∨ ∃ message, messageOf r = some message ∧
          MessageRefers message source objectId := by
  cases hmutation : walMutationAt source r with
  | some mutation =>
    have hchanges : (walMutationAt source r).isSome := by rw [hmutation]; rfl
    have hself := newest_add_self hchanges fun r' hr' h => horder r' source hr' h hchanges
    constructor
    · rintro (⟨r', message, hr', hmessage, hpath, -⟩ | ⟨record, ⟨r', mutation', hnewest, hmutation', hleaves⟩, hrefers⟩)
      · have hnone := hapart r' r message hr' hmessage (.inr rfl)
        rw [hpath, hmutation] at hnone
        cases hnone
      · cases (hself r').mp hnewest
        cases hmutation.symm.trans hmutation'
        exact ⟨record, hleaves, hrefers⟩
    · rintro ⟨record, hleaves, hrefers⟩
      exact .inr ⟨record, ⟨r, mutation, (hself r).mpr rfl, hmutation, hleaves⟩, hrefers⟩
  | none =>
    have hlive : ∀ record, Live (fun r' => log r' ∨ r' = r) source record ↔ Live log source record := fun record =>
      exists_congr fun r' => exists_congr fun mutation =>
        and_congr_left' (newest_add_of_not (fun r'' (he : r'' = r) => he ▸ hmutation) r')
    simp only [LogRefers, hlive]
    constructor
    · rintro (⟨r', message, hr' | rfl, hmessage⟩ | hrecord)
      · exact .inl (.inl ⟨r', message, hr', hmessage⟩)
      · exact .inr ⟨message, hmessage⟩
      · exact .inl (.inr hrecord)
    · rintro ((⟨r', message, hr', hmessage⟩ | hrecord) | ⟨message, hmessage⟩)
      · exact .inl ⟨r', message, .inl hr', hmessage⟩
      · exact .inr hrecord
      · exact .inl ⟨r, message, .inr rfl, hmessage⟩

theorem refers_foldl_removeSource (refs : RefState) (paths : List String)
    (source objectId : String) :
    (paths.foldl RefState.removeSource refs).Refers source objectId ↔
    source ∉ paths ∧ refs.Refers source objectId := by
  induction paths generalizing refs with
  | nil => simp
  | cons path paths ih =>
    rw [foldl_cons, ih, refers_removeSource, mem_cons, not_or]
    tauto

variable {refs : RefState}

theorem tight_foldl_removeSource (h : refs.Tight) (paths : List String) :
    (paths.foldl RefState.removeSource refs).Tight := by
  induction paths generalizing refs with
  | nil => exact h
  | cons path paths ih => exact ih (tight_removeSource refs path)

theorem foldlM_retainRecord_ok {records : List DbRecord} {refs' : RefState}
    (h : records.foldlM (fun refs record => refs.retainRecordForSchema schema record) refs = .ok refs') :
    records.foldlM (retainRecord schema) refs = .ok refs' := by
  induction records generalizing refs with
  | nil =>
    cases h
    rfl
  | cons record records ih =>
    rw [foldlM_cons] at h
    obtain ⟨next, hnext, h⟩ := bind_eq_ok.mp h
    rw [foldlM_cons, retainRecord, hnext]
    exact ih h

variable {mutations : List DbRecordMutationDraft} {path : String} {lsn : Nat}
    {records : List WalRecord}

theorem mem_deletedPaths :
    path ∈ deletedPaths mutations ↔ ∃ record, .delete record ∈ mutations ∧ record.path = path := by
  rw [deletedPaths, mem_filterMap]
  constructor
  · rintro ⟨mutation, hmem, h⟩
    cases mutation with
    | upsert record => cases h
    | delete record => exact ⟨record, hmem, Option.some.inj h⟩
  · rintro ⟨record, hmem, rfl⟩
    exact ⟨_, hmem, rfl⟩

theorem mem_upsertedRecords {record : DbRecord} :
    record ∈ upsertedRecords lsn mutations ↔ ∃ draft, .upsert draft ∈ mutations ∧
    draft.intoRecord lsn = record := by
  rw [upsertedRecords, mem_filterMap]
  constructor
  · rintro ⟨mutation, hmem, h⟩
    cases mutation with
    | upsert draft => exact ⟨draft, hmem, Option.some.inj h⟩
    | delete draft => cases h
  · rintro ⟨draft, hmem, rfl⟩
    exact ⟨_, hmem, rfl⟩

theorem upsertedRecords_paths (lsn : Nat) (mutations : List DbRecordMutationDraft) :
    ((upsertedRecords lsn mutations).map (·.path)).Sublist (mutations.map mutationPath) := by
  induction mutations with
  | nil => exact .slnil
  | cons mutation mutations ih =>
    cases mutation with
    | upsert draft => exact ih.cons_cons _
    | delete draft => exact ih.cons _

/-- Among changes of distinct paths, the last at a path is the one at the path. -/
theorem lastAt_eq_some (hpaths : (mutations.map mutationPath).Nodup) (hmem : mutation ∈ mutations) :
    lastAt (mutationPath mutation) mutations = some mutation := by
  induction mutations using reverseRecOn with
  | nil => cases hmem
  | append_singleton mutations last ih =>
    rw [map_append, nodup_append] at hpaths
    rw [lastAt_concat]
    rcases mem_append.mp hmem with hmem | hmem
    · have hne : mutationPath last ≠ mutationPath mutation := fun he =>
        hpaths.2.2 _ (mem_map_of_mem hmem) _ (by simp) he.symm
      rw [if_neg hne]
      exact ih hpaths.1 hmem
    · rw [mem_singleton.mp hmem, if_pos rfl]

theorem lastAt_eq_none (h : lastAt path mutations = none) :
    ∀ mutation ∈ mutations, mutationPath mutation ≠ path := by
  intro mutation hmem he
  have hnil := getLast?_eq_none_iff.mp h
  have : mutation ∈ mutations.filter fun mutation => mutationPath mutation = path :=
    mem_filter.mpr ⟨hmem, by simpa using he⟩
  rw [hnil] at this
  cases this

/-- What the changes of a transaction leave. -/
theorem exists_applyRecordChanges (hpaths : (mutations.map mutationPath).Nodup)
    (hreadable : ∀ draft, .upsert draft ∈ mutations → Readable schema (draft.intoRecord lsn))
    (htight : refs.Tight) :
    ∃ refs', applyRecordChangesForSchema schema refs (deletedPaths mutations) (upsertedRecords lsn mutations) =
        .ok refs' ∧ refs'.Tight ∧ ∀ source objectId, refs'.Refers source objectId ↔
      match lastAt source mutations with
      | some mutation => ∃ record, mutationLeaves lsn mutation = some record ∧
      RecordRefers schema record objectId
      | none => refs.Refers source objectId := by
  obtain ⟨refs', hok, htight', hrefers⟩ := exists_foldlM_retainRecord (hpaths.sublist (upsertedRecords_paths lsn
    mutations)) (fun record hrecord => by
      obtain ⟨draft, hdraft, rfl⟩ := mem_upsertedRecords.mp hrecord
      exact hreadable draft hdraft)
    (tight_foldl_removeSource htight (deletedPaths mutations))
  refine ⟨refs', foldlM_retainRecord_ok hok, htight', fun source objectId => ?_⟩
  rw [hrefers, refers_foldl_removeSource]
  cases hlast : lastAt source mutations with
  | none =>
    have hnone := lastAt_eq_none hlast
    have hupserted : ∀ record ∈ upsertedRecords lsn mutations, record.path ≠ source := by
      intro record hrecord
      obtain ⟨draft, hdraft, rfl⟩ := mem_upsertedRecords.mp hrecord
      exact hnone _ hdraft
    have hdeleted : source ∉ deletedPaths mutations := fun hmem => by
      obtain ⟨draft, hdraft, hpath⟩ := mem_deletedPaths.mp hmem
      exact hnone _ hdraft hpath
    show _ ↔ refs.Refers source objectId
    constructor
    · rintro (⟨record, hrecord, hpath, -⟩ | ⟨-, -, h⟩)
      · exact absurd hpath (hupserted record hrecord)
      · exact h
    · exact fun h => .inr ⟨hupserted, hdeleted, h⟩
  | some mutation =>
    obtain ⟨hmem, hpath⟩ := mem_of_lastAt hlast
    have honly : ∀ other ∈ mutations, mutationPath other = source → other = mutation := fun other hother he => by
      have := lastAt_eq_some hpaths hother
      rw [he, hlast] at this
      exact (Option.some.inj this).symm
    cases mutation with
    | upsert draft =>
      constructor
      · rintro (⟨record, hrecord, hat, h⟩ | ⟨hnone, -⟩)
        · obtain ⟨draft', hdraft', rfl⟩ := mem_upsertedRecords.mp hrecord
          cases honly _ hdraft' hat
          exact ⟨_, rfl, h⟩
        · exact absurd hpath (hnone _ (mem_upsertedRecords.mpr ⟨draft, hmem, rfl⟩))
      · rintro ⟨record, hleaves, h⟩
        cases hleaves
        exact .inl ⟨_, mem_upsertedRecords.mpr ⟨draft, hmem, rfl⟩, hpath, h⟩
    | delete draft =>
      constructor
      · rintro (⟨record, hrecord, hat, h⟩ | ⟨-, hnot, -⟩)
        · obtain ⟨draft', hdraft', rfl⟩ := mem_upsertedRecords.mp hrecord
          cases honly _ hdraft' hat
        · exact absurd (mem_deletedPaths.mpr ⟨draft, hmem, hpath⟩) hnot
      · rintro ⟨record, hleaves, -⟩
        cases hleaves

/-- The update of a record, if there is one, is that of its changes. -/
theorem updateFor_of_messageOf (h : messageOf r = none) (refs : RefState) :
    updateFor schema refs r =
    applyRecordChangesForSchema schema refs (deletedPaths (recordMutations r.payload))
    (upsertedRecords r.lsn (recordMutations r.payload)) := by
  unfold messageOf at h
  unfold updateFor
  cases hpayload : r.payload with
  | messageCreated message =>
    rw [hpayload] at h
    cases h
  | recordUpserted record =>
    show _ = (retainRecord schema refs (record.intoRecord r.lsn)) >>= pure
    rw [bind_pure]
  | _ => rfl

/-- An update after those of all records that were written before at its paths. -/
theorem updateFor_refers (htight : refs.Tight) (hrefers : ∀ source objectId,
    refs.Refers source objectId ↔ LogRefers schema log source objectId)
    (hapart : PathsApart fun r' => log r' ∨ r' = r)
    (horder : ∀ r' path, log r' → (walMutationAt path r').isSome → (walMutationAt path r).isSome →
      r'.lsn < r.lsn)
    (hpaths : ((recordMutations r.payload).map mutationPath).Nodup)
    (hreadable : ∀ draft, .upsert draft ∈ recordMutations r.payload →
      Readable schema (draft.intoRecord r.lsn)) :
    ∃ refs', updateFor schema refs r = .ok refs' ∧ refs'.Tight ∧
    ∀ source objectId, refs'.Refers source objectId ↔
    LogRefers schema (fun r' => log r' ∨ r' = r) source objectId := by
  cases hmessage : messageOf r with
  | none =>
    obtain ⟨refs', hok, htight', hrefers'⟩ := exists_applyRecordChanges hpaths hreadable htight
    refine ⟨refs', (updateFor_of_messageOf hmessage refs).trans hok, htight', fun source objectId => ?_⟩
    rw [hrefers', logRefers_add hapart horder, ← walMutationAt, hrefers, hmessage]
    cases walMutationAt source r with
    | none => simp
    | some mutation => rfl
  | some message =>
    obtain ⟨draft, hpayload, hinto⟩ : ∃ draft, r.payload = .messageCreated draft ∧
      draft.intoMessage r.lsn = message := by
      unfold messageOf at hmessage
      split at hmessage
      · next draft hpayload => exact ⟨draft, hpayload, Option.some.inj hmessage⟩
      · cases hmessage
    have hnone : ∀ source, walMutationAt source r = none := fun source => by
      rw [walMutationAt, hpayload]
      rfl
    refine ⟨refs.retainMessage message, by rw [updateFor, hpayload, ← hinto], ?_, fun source objectId => ?_⟩
    · rw [retainMessage_eq]
      exact htight.retainAll _ _
    · rw [logRefers_add hapart horder, hnone, retainMessage_eq, refers_retainAll, hrefers, hmessage, or_comm]
      simp [MessageRefers, @eq_comm _ source]

/-- An update whose references can be read is not rejected. -/
theorem updateFor_ok (htight : refs.Tight)
    (hpaths : ((recordMutations r.payload).map mutationPath).Nodup)
    (hreadable : ∀ draft, .upsert draft ∈ recordMutations r.payload →
      Readable schema (draft.intoRecord r.lsn)) :
    ∃ refs', updateFor schema refs r = .ok refs' ∧ refs'.Tight := by
  cases hmessage : messageOf r with
  | none =>
    obtain ⟨refs', hok, htight', -⟩ := exists_applyRecordChanges hpaths hreadable htight
    exact ⟨refs', (updateFor_of_messageOf hmessage refs).trans hok, htight'⟩
  | some message =>
    unfold messageOf at hmessage
    split at hmessage
    · next draft hpayload =>
      refine ⟨_, by rw [updateFor, hpayload], ?_⟩
      rw [retainMessage_eq]
      exact htight.retainAll _ _
    · cases hmessage

theorem foldlM_updateFor_ok (htight : refs.Tight)
    (hpaths : ∀ r ∈ records, ((recordMutations r.payload).map mutationPath).Nodup)
    (hreadable : ∀ r ∈ records,
    ∀ draft, .upsert draft ∈ recordMutations r.payload → Readable schema (draft.intoRecord r.lsn)) :
    ∃ refs', records.foldlM (updateFor schema) refs = .ok refs' := by
  induction records generalizing refs with
  | nil => exact ⟨refs, rfl⟩
  | cons r records ih =>
    rw [forall_mem_cons] at hpaths hreadable
    obtain ⟨next, hnext, hnextTight⟩ := updateFor_ok htight hpaths.1 hreadable.1
    obtain ⟨refs', hok⟩ := ih hnextTight hpaths.2 hreadable.2
    refine ⟨refs', ?_⟩
    rw [foldlM_cons, hnext]
    exact hok

/-- The updates of a batch, made one after the other. -/
theorem foldlM_updateFor_refers (htight : refs.Tight)
    (hrefers : ∀ source objectId, refs.Refers source objectId ↔
      LogRefers schema log source objectId)
    (hapart : PathsApart fun r => log r ∨ r ∈ records) (horder : ∀ r ∈ records,
    ∀ r' path, log r' → (walMutationAt path r').isSome → (walMutationAt path r).isSome →
      r'.lsn < r.lsn)
    (hasc : records.Pairwise fun a b => a.lsn < b.lsn)
    (hpaths : ∀ r ∈ records, ((recordMutations r.payload).map mutationPath).Nodup)
    (hreadable : ∀ r ∈ records,
    ∀ draft, .upsert draft ∈ recordMutations r.payload → Readable schema (draft.intoRecord r.lsn)) :
    ∃ refs', records.foldlM (updateFor schema) refs = .ok refs' ∧ refs'.Tight ∧ ∀ source objectId,
    refs'.Refers source objectId ↔
    LogRefers schema (fun r => log r ∨ r ∈ records) source objectId := by
  induction records generalizing refs log with
  | nil => exact ⟨refs, rfl, htight, by simpa using hrefers⟩
  | cons r records ih =>
    have hcons : (fun r' => log r' ∨ r' ∈ r :: records) = fun r' => (log r' ∨ r' = r) ∨ r' ∈ records := by
      funext r'
      rw [mem_cons, or_assoc]
    rw [pairwise_cons] at hasc
    rw [forall_mem_cons] at horder hpaths hreadable
    rw [hcons] at hapart ⊢
    obtain ⟨next, hnext, hnextTight, hnextRefers⟩ := updateFor_refers htight hrefers
      (fun r' r'' message hr' hm hr'' => hapart r' r'' message (.inl hr') hm (.inl hr'')) horder.1 hpaths.1 hreadable.1
    obtain ⟨refs', hok, htight', hrefers'⟩ := ih hnextTight hnextRefers hapart (fun a ha r' path hr' h' h =>
      hr'.elim (fun hlog => horder.2 a ha r' path hlog h' h) (fun he => he ▸ hasc.1 a ha)) hasc.2 hpaths.2 hreadable.2
    refine ⟨refs', ?_, htight', hrefers'⟩
    rw [foldlM_cons, hnext]
    exact hok

end Update

/-! ## Runs -/

/-- The records of a write, as far as they have their LSNs. -/
def Write.records (self : Write) : List WalRecord :=
  match self.phase with
  | .allocating records | .enqueued records | .appended records | .indexed records => records
  | .prepared | .failed => []

def Write.loggedRecords (self : Write) : List WalRecord :=
  match self.phase with
  | .appended records | .indexed records => records
  | _ => []

def Write.indexedRecords (self : Write) : List WalRecord :=
  match self.phase with
  | .indexed records => records
  | _ => []

/-- The references of every upsert can be read where the index looks for them. -/
def WriteRequest.Readable (schema : DatabaseSchema) (request : WriteRequest) : Prop :=
  ∀ draft, .upsert draft ∈ request.mutations → Records.Readable schema (draft.intoRecord 0)

/-- No update comes after one of a later write of its record, and what is logged is indexed. -/
def InOrder (s : ServerState) : IndexEvent → Prop
  | .request request _ => request.Readable schema
  | .index i => ∀ write other r r' path, s.writes[i]? = some write → other ∈ s.writes →
    r ∈ write.records →
    r' ∈ other.indexedRecords → (walMutationAt path r').isSome → (walMutationAt path r).isSome →
    r'.lsn < r.lsn
  | .fail i written => written = false ∧ ∀ write records, s.writes[i]? = some write →
    write.phase ≠ .appended records
  | _ => True

/-- The record is in a file of the log. -/
def ServerState.Logged (s : ServerState) (r : WalRecord) : Prop :=
  ∃ file ∈ s.files, r ∈ file.1 ++ file.2

/-- A server that has loaded the index from its log. -/
structure Started (s : ServerState) : Prop where
  idle : s.writes = []
  distinct : ∀ r r', s.Logged r → s.Logged r' → r.lsn = r'.lsn → r = r'
  bound : ∀ r, s.Logged r → r.lsn ≤ s.nextLsn
  named : ∀ r, s.Logged r → PathsNamed r
  loaded : RefState.fromMessagesAndRecordsForSchema (messagesFromWalRecords s.walRecords)
    (recordsFromWalRecords s.walRecords) schema = .ok s.refs

/-- Every write is in the index, or has failed. -/
def ServerState.AllReturned (s : ServerState) : Prop :=
  ∀ write ∈ s.writes, write.phase = .failed ∨ ∃ records, write.phase = .indexed records

/-- What is known of a write. -/
structure Made (schema : DatabaseSchema) (s : ServerState) (write : Write) : Prop where
  shard : write.shard < s.files.length
  checked : write.request.Checked schema
  readable : write.request.Readable schema
  payloads : ∀ r ∈ write.records, r.payload ∈ write.request.payloads
  ascending : write.records.Pairwise fun a b => a.lsn < b.lsn

section Invariant

-- `base` is the log at the start
variable (base : WalRecord → Prop) {schema : DatabaseSchema} {s t : ServerState}

/-- A record that has an LSN. -/
def Known (s : ServerState) (r : WalRecord) : Prop := base r ∨ ∃ write ∈ s.writes, r ∈ write.records

/-- The record was there at the start, or its write has put it in the index. -/
def Indexed (s : ServerState) (r : WalRecord) : Prop :=
  base r ∨ ∃ write ∈ s.writes, r ∈ write.indexedRecords

/-- The references are those of the records that are indexed. -/
structure Inv (schema : DatabaseSchema) (s : ServerState) : Prop where
  baseNamed : ∀ r, base r → PathsNamed r
  baseReadable : ∀ path record, Live base path record → Readable schema record
  above : ∀ write ∈ s.writes, ∀ r ∈ write.records, ∀ r', base r' → r'.lsn < r.lsn
  bound : ∀ r, Known base s r → r.lsn ≤ s.nextLsn
  distinct : ∀ r r', Known base s r → Known base s r' → r.lsn = r'.lsn → r = r'
  made : ∀ write ∈ s.writes, Made schema s write
  logged : ∀ r, s.Logged r ↔ base r ∨ ∃ write ∈ s.writes, r ∈ write.loggedRecords
  tight : s.refs.Tight
  refers : ∀ source objectId, s.refs.Refers source objectId ↔ LogRefers schema (Indexed base s) source objectId

variable {base} {records : List WalRecord} {r' : WalRecord} {write' : Write} {refs : RefState}

theorem eq_of_ascending (h : records.Pairwise fun a b => a.lsn < b.lsn) (hr : r ∈ records)
    (hr' : r' ∈ records) (he : r.lsn = r'.lsn) : r = r' := by
  have hnodup : (records.map (·.lsn)).Nodup := pairwise_map.mpr (h.imp fun hlt => hlt.ne)
  exact inj_on_of_nodup_map hnodup hr hr' he

theorem logged_writeRecords {shard : Nat} (hshard : shard < s.files.length)
    (records : List WalRecord) (r : WalRecord) :
    (s.writeRecords shard records).Logged r ↔ s.Logged r ∨ r ∈ records := by
  unfold ServerState.Logged ServerState.writeRecords
  have hfile : s.files[shard]? = some s.files[shard] := getElem?_eq_getElem hshard
  show (∃ file ∈ s.files.modify shard _, _) ↔ _
  rw [modify_eq_set_getElem?, hfile]
  exact exists_mem_set_iff hfile (by simp only [mem_append]; tauto)

variable {write : Write} {i : Nat}

/-- A write goes on: it keeps its records, drops them, or takes the next LSNs. -/
theorem Inv.update (h : Inv base schema s) (hi : s.writes[i]? = some write)
    (hwrites : t.writes = s.writes.set i write')
    (hfiles : t.files.length = s.files.length) (hnext : s.nextLsn ≤ t.nextLsn)
    (hrecords : ∀ r ∈ write'.records,
    r ∈ write.records ∨ s.nextLsn < r.lsn ∧ r.lsn ≤ t.nextLsn) (hmade : Made schema t write')
    (hlogged : ∀ r, t.Logged r ↔ base r ∨ ∃ write ∈ t.writes, r ∈ write.loggedRecords)
    (htight : t.refs.Tight)
    (hrefers : ∀ source objectId, t.refs.Refers source objectId ↔
      LogRefers schema (Indexed base t) source objectId) :
    Inv base schema t :=
    by
  have hmem : write ∈ s.writes := mem_of_getElem? hi
  have hknown : ∀ r, Known base t r → Known base s r ∨ r ∈ write'.records ∧ s.nextLsn < r.lsn ∧ r.lsn ≤ t.nextLsn := by
    rintro r (hr | ⟨other, hother, hr⟩)
    · exact .inl (.inl hr)
    · rw [hwrites] at hother
      rcases mem_or_eq_of_mem_set hother with hother | rfl
      · exact .inl (.inr ⟨other, hother, hr⟩)
      · exact (hrecords r hr).imp (fun hr => .inr ⟨write, hmem, hr⟩) fun hfresh => ⟨hr, hfresh⟩
  refine ⟨h.baseNamed, h.baseReadable, ?_, fun r hr => ?_, fun r r' hr hr' he => ?_, ?_, hlogged, htight, hrefers⟩
  · rw [hwrites]
    refine forall_mem_set h.above fun r hr r' hr' => ?_
    rcases hrecords r hr with hr | hfresh
    · exact h.above write hmem r hr r' hr'
    · have := h.bound r' (.inl hr')
      omega
  · rcases hknown r hr with hr | hfresh
    · have := h.bound r hr
      omega
    · exact hfresh.2.2
  · rcases hknown r hr with hr | hfresh
    · rcases hknown r' hr' with hr' | hfresh'
      · exact h.distinct r r' hr hr' he
      · have := h.bound r hr
        omega
    · rcases hknown r' hr' with hr' | hfresh'
      · have := h.bound r' hr'
        omega
      · exact eq_of_ascending hmade.ascending hfresh.1 hfresh'.1 he
  · rw [hwrites]
    refine forall_mem_set (fun other hother => ?_) hmade
    have hother := h.made other hother
    exact ⟨hfiles ▸ hother.shard, hother.checked, hother.readable, hother.payloads, hother.ascending⟩

theorem exists_logged_set {i : Nat} {write write' : Write} (hi : s.writes[i]? = some write)
    (r : WalRecord)
    {records : List WalRecord}
    (h : ∀ r, r ∈ write'.loggedRecords ↔ r ∈ write.loggedRecords ∨ r ∈ records) :
    (base r ∨ ∃ write ∈ s.writes.set i write', r ∈ write.loggedRecords) ↔
    (base r ∨ ∃ write ∈ s.writes, r ∈ write.loggedRecords) ∨ r ∈ records := by
  rw [exists_mem_set_iff hi (h r), or_assoc]

theorem indexed_set {i : Nat} {write write' : Write}
    (hi : s.writes[i]? = some write) (hwrites : t.writes = s.writes.set i write')
    {records : List WalRecord}
    (h : ∀ r, r ∈ write'.indexedRecords ↔ r ∈ write.indexedRecords ∨ r ∈ records) :
    Indexed base t = fun r => Indexed base s r ∨ r ∈ records := by
  funext r
  rw [Indexed, hwrites, exists_mem_set_iff hi (h r), ← or_assoc, ← Indexed]

section
variable (h : Inv base schema s)
include h

/-- A write goes on and neither the log nor the index changes. -/
theorem Inv.quiet (hi : s.writes[i]? = some write) (hwrites : t.writes = s.writes.set i write')
    (hfiles : t.files = s.files) (hrefs : t.refs = s.refs) (hnext : s.nextLsn ≤ t.nextLsn)
    (hrecords : ∀ r ∈ write'.records, r ∈ write.records ∨ s.nextLsn < r.lsn ∧ r.lsn ≤ t.nextLsn)
    (hmade : Made schema t write') (hlogged : write'.loggedRecords = write.loggedRecords)
    (hindexed : write'.indexedRecords = write.indexedRecords) : Inv base schema t := by
  refine h.update hi hwrites (by rw [hfiles]) hnext hrecords hmade (fun r => ?_)
    (hrefs ▸ h.tight) fun source objectId => ?_
  · have hset := @exists_logged_set base s i write write' hi r [] (by simp [hlogged])
    rw [hwrites, hset, ← h.logged]
    simp [ServerState.Logged, hfiles]
  · have hset := @indexed_set base s t i write write' hi hwrites [] (by simp [hindexed])
    rw [hset, hrefs, h.refers]
    simp

theorem Inv.prepare {shard : Nat} (hchecked : request.Checked schema)
    (hreadable : request.Readable schema) (hshard : shard < s.files.length) :
    Inv base schema { s with writes := s.writes ++ [⟨request, shard, .prepared⟩] } := by
  have hsplit : ∀ has : Write → Prop, ¬ has ⟨request, shard, .prepared⟩ →
      ((∃ write ∈ s.writes ++ [⟨request, shard, .prepared⟩], has write) ↔ ∃ write ∈ s.writes, has write) := by
    intro has hnot
    simp only [mem_append, mem_singleton, or_and_right, exists_or, exists_eq_left, hnot, or_false]
  have hknown : Known base { s with writes := s.writes ++ [⟨request, shard, .prepared⟩] } = Known base s := by
    funext r
    exact congrArg _ (propext (hsplit (fun write => r ∈ write.records) not_mem_nil))
  have hindexed : Indexed base { s with writes := s.writes ++ [⟨request, shard, .prepared⟩] } = Indexed base s := by
    funext r
    exact congrArg _ (propext (hsplit (fun write => r ∈ write.indexedRecords) not_mem_nil))
  refine ⟨h.baseNamed, h.baseReadable, fun write hwrite => ?_, ?_, ?_, fun write hwrite => ?_, fun r => ?_, h.tight, ?_⟩
  · rcases mem_append.mp hwrite with hwrite | hwrite
    · exact h.above write hwrite
    · rw [mem_singleton.mp hwrite]
      exact fun _ h => nomatch h
  · rw [hknown]
    exact h.bound
  · rw [hknown]
    exact h.distinct
  · rcases mem_append.mp hwrite with hwrite | hwrite
    · have hold := h.made write hwrite
      exact ⟨hold.shard, hold.checked, hold.readable, hold.payloads, hold.ascending⟩
    · rw [mem_singleton.mp hwrite]
      exact ⟨hshard, hchecked, hreadable, (fun _ h => nomatch h), Pairwise.nil⟩
  · rw [hsplit (fun write => r ∈ write.loggedRecords) not_mem_nil]
    exact h.logged r
  · rw [hindexed]
    exact h.refers

theorem Inv.lock {i : Nat} {write : Write} (hi : s.writes[i]? = some write)
    (hphase : write.phase = .prepared) :
    Inv base schema (s.setPhase i write (.allocating [])) := by
  have hmade := h.made write (mem_of_getElem? hi)
  refine h.quiet hi rfl rfl rfl (Nat.le_refl _) (fun _ h => nomatch h) ?_ ?_ ?_
  · exact ⟨hmade.shard, hmade.checked, hmade.readable, (fun _ h => nomatch h), Pairwise.nil⟩
  · simp [Write.loggedRecords, hphase]
  · simp [Write.indexedRecords, hphase]

theorem Inv.allocate {i : Nat} {write : Write} {records : List WalRecord} {payload : WalPayload}
    {stamp : WalStamp} (hi : s.writes[i]? = some write) (hphase : write.phase = .allocating records)
    (hpayload : write.request.payloads[records.length]? = some payload) :
    Inv base schema { s.setPhase
    i write (.allocating (records ++ [stampRecord stamp (s.nextLsn + 1) schema.version payload])) with nextLsn :=
    s.nextLsn + 1 } := by
  have hmem := mem_of_getElem? hi
  have hmade := h.made write hmem
  have hrecords : write.records = records := by simp [Write.records, hphase]
  refine h.quiet hi rfl rfl rfl (Nat.le_succ _) (fun r hr => ?_) ?_ ?_ ?_
  · rcases mem_append.mp hr with hr | hr
    · exact .inl (hrecords ▸ hr)
    · rw [mem_singleton.mp hr]
      exact .inr ⟨Nat.lt_succ_self _, Nat.le_refl _⟩
  · refine ⟨hmade.shard, hmade.checked, hmade.readable, fun r hr => ?_, ?_⟩
    · rcases mem_append.mp hr with hr | hr
      · exact hmade.payloads r (hrecords ▸ hr)
      · rw [mem_singleton.mp hr]
        exact mem_of_getElem? hpayload
    · refine pairwise_append.mpr ⟨hrecords ▸ hmade.ascending, pairwise_singleton _ _, fun a ha b hb => ?_⟩
      rw [mem_singleton.mp hb]
      exact Nat.lt_succ_of_le (h.bound a (.inr ⟨write, hmem, hrecords ▸ ha⟩))
  · simp [Write.loggedRecords, hphase]
  · simp [Write.indexedRecords, hphase]

theorem Inv.enqueue {i : Nat} {write : Write} {records : List WalRecord}
    (hi : s.writes[i]? = some write)
    (hphase : write.phase = .allocating records) :
    Inv base schema (s.setPhase i write (.enqueued records)) := by
  have hmade := h.made write (mem_of_getElem? hi)
  have hrecords : write.records = records := by simp [Write.records, hphase]
  refine h.quiet hi rfl rfl rfl (Nat.le_refl _) (fun r hr => .inl (hrecords ▸ hr)) ?_ ?_ ?_
  · exact ⟨hmade.shard, hmade.checked, hmade.readable, fun r hr => hmade.payloads r (hrecords ▸ hr),
      hrecords ▸ hmade.ascending⟩
  · simp [Write.loggedRecords, hphase]
  · simp [Write.indexedRecords, hphase]

theorem Inv.append {i : Nat} {write : Write}
    {records : List WalRecord} (hi : s.writes[i]? = some write)
    (hphase : write.phase = .enqueued records) :
    Inv base schema ((s.setPhase i write (.appended records)).writeRecords write.shard records) := by
  have hmade := h.made write (mem_of_getElem? hi)
  have hrecords : write.records = records := by simp [Write.records, hphase]
  refine h.update hi rfl (length_modify ..) (Nat.le_refl _) (fun r hr => .inl (hrecords ▸ hr)) ?_ (fun r => ?_) h.tight
    fun source objectId => ?_
  · exact ⟨(length_modify ..).symm ▸ hmade.shard, hmade.checked, hmade.readable,
      fun r hr => hmade.payloads r (hrecords ▸ hr), hrecords ▸ hmade.ascending⟩
  · have hset := @exists_logged_set base s i write { write with phase := .appended records } hi r records
      (by simp [Write.loggedRecords, hphase])
    have hlogged := @logged_writeRecords (s.setPhase i write (.appended records)) write.shard hmade.shard records r
    exact hlogged.trans ((or_congr_left (h.logged r)).trans hset.symm)
  · have hset := @indexed_set base s ((s.setPhase i write (.appended records)).writeRecords write.shard records) i write
      { write with phase := .appended records } hi rfl [] (by simp [Write.indexedRecords, hphase])
    rw [hset]
    simp only [not_mem_nil, or_false]
    exact h.refers source objectId

theorem Inv.fail {i : Nat} {write : Write} (hi : s.writes[i]? = some write)
    (hindexed : ∀ records, write.phase ≠ .indexed records)
    (happended : ∀ records, write.phase ≠ .appended records) :
    Inv base schema (s.setPhase i write .failed) := by
  have hmade := h.made write (mem_of_getElem? hi)
  refine h.quiet hi rfl rfl rfl (Nat.le_refl _) (fun _ h => nomatch h) ?_ ?_ ?_
  · exact ⟨hmade.shard, hmade.checked, hmade.readable, (fun _ h => nomatch h), Pairwise.nil⟩
  · cases hphase : write.phase with
    | appended records => exact absurd hphase (happended records)
    | indexed records => exact absurd hphase (hindexed records)
    | _ => simp [Write.loggedRecords, hphase]
  · cases hphase : write.phase with
    | indexed records => exact absurd hphase (hindexed records)
    | _ => simp [Write.indexedRecords, hphase]

theorem Inv.named (hr : Known base s r) : PathsNamed r := by
  rcases hr with hr | ⟨write, hwrite, hr⟩
  · exact h.baseNamed r hr
  · have hmade := h.made write hwrite
    exact hmade.checked.named (hmade.payloads r hr)

end

theorem mem_records_of_indexed (h : r ∈ write.indexedRecords) : r ∈ write.records := by
  unfold Write.indexedRecords at h
  unfold Write.records
  split at h
  · next hphase => simpa [hphase] using h
  · cases h

theorem known_of_indexed (h : Indexed base s r) : Known base s r :=
  h.imp_right fun ⟨write, hwrite, hr⟩ => ⟨write, hwrite, mem_records_of_indexed hr⟩

theorem Made.nodup (h : Made schema s write) (hr : r ∈ write.records) :
    ((recordMutations r.payload).map mutationPath).Nodup := by
  rw [h.checked.recordMutations_of_payload (h.payloads r hr)]
  exact h.checked.nodup

theorem Made.readable_upsert (h : Made schema s write) (hr : r ∈ write.records)
    {draft : DbRecordDraft}
    (hdraft : .upsert draft ∈ recordMutations r.payload) :
    Readable schema (draft.intoRecord r.lsn) := by
  rw [h.checked.recordMutations_of_payload (h.payloads r hr)] at hdraft
  exact h.readable draft hdraft

/-- The index takes the update of a write that comes in order. -/
theorem Inv.exists_update (h : Inv base schema s) (hi : s.writes[i]? = some write)
    (hphase : write.phase = .appended records) (horder : InOrder schema s (.index i)) :
    ∃ refs, records.foldlM (updateFor schema) s.refs = .ok refs ∧ refs.Tight ∧ ∀ source objectId,
    refs.Refers source objectId ↔
    LogRefers schema (fun r => Indexed base s r ∨ r ∈ records) source objectId := by
  have hmem := mem_of_getElem? hi
  have hmade := h.made write hmem
  have hrecords : write.records = records := by simp [Write.records, hphase]
  refine foldlM_updateFor_refers h.tight h.refers (pathsApart_of_named fun r hr => h.named ?_) ?_ (hrecords ▸
    hmade.ascending) (fun r hr => hmade.nodup (hrecords ▸ hr)) fun r hr draft => hmade.readable_upsert (hrecords ▸ hr)
  · exact hr.elim known_of_indexed fun hr => .inr ⟨write, hmem, hrecords ▸ hr⟩
  · rintro r hr r' path (hr' | ⟨other, hother, hr'⟩) hchanges' hchanges
    · exact h.above write hmem r (hrecords ▸ hr) r' hr'
    · exact horder write other r r' path hi hother (hrecords ▸ hr) hr' hchanges' hchanges

theorem Inv.index (h : Inv base schema s) (hi : s.writes[i]? = some write)
    (hphase : write.phase = .appended records)
    (hok : records.foldlM (updateFor schema) s.refs = .ok refs)
    (horder : InOrder schema s (.index i)) :
    Inv base schema { s.setPhase i write (.indexed records) with refs } := by
  have hmade := h.made write (mem_of_getElem? hi)
  have hrecords : write.records = records := by simp [Write.records, hphase]
  obtain ⟨refs', hok', htight, hrefers⟩ := h.exists_update hi hphase horder
  cases hok.symm.trans hok'
  refine h.update hi rfl rfl (Nat.le_refl _) (fun r hr => .inl (hrecords ▸ hr)) ?_ (fun r => ?_) htight
    fun source objectId => ?_
  · exact ⟨hmade.shard, hmade.checked, hmade.readable, fun r hr => hmade.payloads r (hrecords ▸ hr),
      hrecords ▸ hmade.ascending⟩
  · have hset := @exists_logged_set base s i write { write with phase := .indexed records } hi r []
      (by simp [Write.loggedRecords, hphase])
    refine (h.logged r).trans (Iff.trans ?_ hset.symm)
    simp
  · have hset := @indexed_set base s { s.setPhase i write (.indexed records) with refs } i write
      { write with phase := .indexed records } hi rfl records (by simp [Write.indexedRecords, hphase])
    rw [hset]
    exact hrefers source objectId

theorem Inv.not_rejected (h : Inv base schema s) (hi : s.writes[i]? = some write)
    (hphase : write.phase = .appended records) :
    records.foldlM (updateFor schema) s.refs ≠ .error refs := by
  have hmade := h.made write (mem_of_getElem? hi)
  have hrecords : write.records = records := by simp [Write.records, hphase]
  obtain ⟨refs', hok⟩ := foldlM_updateFor_ok h.tight (fun r hr => hmade.nodup (hrecords ▸ hr)) fun r hr draft =>
    hmade.readable_upsert (hrecords ▸ hr)
  rw [hok]
  simp

theorem writeRecords_nil (s : ServerState) (shard : Nat) : s.writeRecords shard [] = s := by
  unfold ServerState.writeRecords
  simp only [append_nil]
  rw [show (fun file : List WalRecord × List WalRecord => (file.1, file.2)) = id from rfl, modify_id]

theorem Inv.step {e : IndexEvent} (h : Inv base schema s) (horder : InOrder schema s e)
    (hstep : IndexStep schema s e t) : Inv base schema t := by
  cases hstep with
  | request hchecked hshard => exact h.prepare hchecked horder hshard
  | lock hi hphase _ => exact h.lock hi hphase
  | allocate hi hphase hpayload _ => exact h.allocate hi hphase hpayload
  | enqueue hi hphase _ => exact h.enqueue hi hphase
  | append hi hphase _ => exact h.append hi hphase
  | index hi hphase hok => exact h.index hi hphase hok horder
  | rejectIndex hi hphase herror =>
    exact absurd herror (h.not_rejected hi hphase)
  | fail hi hindexed =>
    obtain ⟨rfl, happended⟩ := horder
    rw [if_neg Bool.false_ne_true, writeRecords_nil]
    exact h.fail hi hindexed fun records => happended _ records hi

theorem readable_of_fromMessages {messages : List Message} {records : List DbRecord}
    {state : RefState} (h : RefState.fromMessagesAndRecordsForSchema messages records schema = .ok state) :
    ∀ record ∈ records, Readable schema record := by
  unfold RefState.fromMessagesAndRecordsForSchema at h
  generalize RefState.fromMessages messages = self at h
  induction records generalizing self with
  | nil => exact fun _ h => nomatch h
  | cons record records ih =>
    rw [foldlM_cons] at h
    obtain ⟨next, hnext, h⟩ := bind_eq_ok.mp h
    obtain ⟨ids, hids, -⟩ := retainRecordForSchema_eq_ok.mp hnext
    exact forall_mem_cons.mpr ⟨⟨ids, hids⟩, ih next h⟩

theorem Started.mem_walRecords (h : Started schema s) : r ∈ s.walRecords ↔ s.Logged r :=
  mem_readRecordsFromWalPaths fun file hfile file' hfile' r hr r' hr' =>
    h.distinct r r' ⟨file, hfile, hr⟩ ⟨file', hfile', hr'⟩

theorem Started.inv (h : Started schema s) : Inv s.Logged schema s := by
  have hasc : s.walRecords.Pairwise fun a b => a.lsn < b.lsn := readRecordsFromWalPaths_ascending s.files
  have hlog : (· ∈ s.walRecords) = s.Logged := funext fun r => propext h.mem_walRecords
  have hnone : ∀ has : Write → Prop, ¬ ∃ write ∈ s.writes, has write := by simp [h.idle]
  have hreadable : ∀ path record, Live s.Logged path record → Readable schema record := by
    intro path record hlive
    rw [← hlog, ← getElem?_recordsByPath hasc] at hlive
    refine readable_of_fromMessages h.loaded record (mem_map.mpr ⟨(path, record), ?_, rfl⟩)
    exact Std.ExtTreeMap.mem_toList_iff_getElem?_eq_some.mpr hlive
  have hindexed : Indexed s.Logged s = s.Logged := by
    funext r
    simp [Indexed, h.idle]
  obtain ⟨state, hstate, htight, hrefers⟩ := @refers_fromWalRecords schema _ hasc
    (pathsApart_of_named fun r hr => h.named r (h.mem_walRecords.mp hr)) (hlog ▸ hreadable)
  cases hstate.symm.trans h.loaded
  refine ⟨h.named, hreadable, ?_, fun r hr => ?_, fun r r' hr hr' => ?_, ?_, fun r => ?_, htight, ?_⟩
  · simp [h.idle]
  · exact h.bound r (hr.resolve_right (hnone _))
  · exact h.distinct r r' (hr.resolve_right (hnone _)) (hr'.resolve_right (hnone _))
  · simp [h.idle]
  · simp [h.idle]
  · rw [hindexed, ← hlog]
    exact hrefers

theorem Inv.readable_live (h : Inv base schema s) {path : String} {record : DbRecord}
    (hlive : Live (Indexed base s) path record) : Readable schema record := by
  obtain ⟨r, mutation, hnewest, hmutation, hleaves⟩ := hlive
  rcases hnewest.mem with hr | ⟨write, hwrite, hr⟩
  · exact h.baseReadable path record ⟨r, mutation, ⟨hr, hnewest.changes, fun r' hr' => hnewest.newest r' (.inl hr')⟩,
      hmutation, hleaves⟩
  · cases mutation with
    | upsert draft =>
      cases hleaves
      exact (h.made write hwrite).readable_upsert (mem_records_of_indexed hr) (mem_of_lastAt hmutation).1
    | delete draft => cases hleaves

theorem Inv.indexed_eq_logged (h : Inv base schema s) (hdone : s.AllReturned) :
    Indexed base s = s.Logged := by
  have hsame : ∀ write ∈ s.writes, write.indexedRecords = write.loggedRecords := by
    intro write hwrite
    rcases hdone write hwrite with hphase | ⟨records, hphase⟩
    · simp [Write.indexedRecords, Write.loggedRecords, hphase]
    · simp [Write.indexedRecords, Write.loggedRecords, hphase]
  funext r
  rw [h.logged, Indexed]
  refine congrArg _ (propext (exists_congr fun write => and_congr_right fun hwrite => ?_))
  rw [hsame write hwrite]

theorem Inv.logged_distinct (h : Inv base schema s) (hr : s.Logged r) (hr' : s.Logged r')
    (he : r.lsn = r'.lsn) :
    r = r' := by
  have hknown : ∀ r, s.Logged r → Known base s r :=
    fun r hr => ((h.logged r).mp hr).imp_right fun ⟨write, hwrite, hr⟩ => ⟨write, hwrite, by
      unfold Write.loggedRecords at hr
      unfold Write.records
      split at hr <;> simp_all⟩
  exact h.distinct r r' (hknown r hr) (hknown r' hr') he

theorem Inv.mem_walRecords (h : Inv base schema s) : r ∈ s.walRecords ↔ s.Logged r :=
  mem_readRecordsFromWalPaths fun file hfile file' hfile' _ hr _ hr' =>
    h.logged_distinct ⟨file, hfile, hr⟩ ⟨file', hfile', hr'⟩

end Invariant

/-- In a run without an update out of order the index is that of the log once all writes have
returned. -/
theorem index_equals_data {schema : DatabaseSchema} {s t : ServerState}
    (hs : Started schema s) (hrun : Reaches (IndexStep schema) (InOrder schema) s t)
    (hdone : t.AllReturned) :
    RefState.fromMessagesAndRecordsForSchema (messagesFromWalRecords t.walRecords) (recordsFromWalRecords t.walRecords)
    schema = .ok t.refs := by
  have h : Inv s.Logged schema t := hrun.invariant (fun _ _ _ h horder hstep => h.step horder hstep) hs.inv
  have hindexed := h.indexed_eq_logged hdone
  have hlog : (· ∈ t.walRecords) = t.Logged := funext fun r => propext h.mem_walRecords
  obtain ⟨state, hstate, htight, hrefers⟩ := @refers_fromWalRecords schema _ (readRecordsFromWalPaths_ascending t.files)
    (pathsApart_of_named fun r hr => h.named (known_of_indexed (by
      rw [hindexed, ← hlog]
      exact hr)))
    (fun path record hlive => h.readable_live (by
      rw [hindexed, ← hlog]
      exact hlive))
  have hsame : state = t.refs := RefState.ext_refers htight h.tight fun source objectId => by
    rw [hrefers, h.refers, hindexed, ← hlog]
    rfl
  rw [← hsame]
  exact hstate

section Sample

def picturePosts : DatabaseSchema :=
  postsSchema 1 (idField.insert "image" ⟨.objectRef "Object", true⟩)

def pictureJson (objectId : String) : Json :=
  .object [("id", .string "a"), ("image", .object [("byteSize", .number (.posInt 1)),
    ("contentType", .string "text/plain"), ("id", .string objectId), ("path", .string "objects/o"),
    ("sha256", .string "00")])]

theorem pictureJson_wellFormed (objectId : String) : (pictureJson objectId).WellFormed := by
  refine ⟨pairwise_pair.mpr ?_, trivial, ⟨?_, trivial, trivial, trivial, trivial, trivial, trivial⟩, trivial⟩
  · show "id" < "image"
    decide
  · simp only [KeysAscending, pairwise_cons, mem_cons, forall_eq_or_imp, not_mem_nil, false_implies, implies_true,
      and_true, Pairwise.nil]
    decide

/-- A post with a picture. -/
def post (objectId : String) : RecordOperation :=
  .upsert "posts" "a" ⟨pictureJson objectId, pictureJson_wellFormed objectId⟩

def postRecord (objectId : String) (lsn : Nat) : WalRecord :=
  stampRecord RecordCommit.postStamp lsn 1 (mutationPayload ((post objectId).mutation 0 none))

def pictureRefs (objectId : String) : RefState := RefState.retain ⟨∅⟩ "tables/posts/a" objectId

/-- Two upserts of the post are on their way. -/
def posting (first second : WritePhase) (nextLsn : Nat) (active : List WalRecord)
    (refs : RefState) :
    ServerState :=
  ⟨nextLsn, [([], active)], refs, [⟨.record (post "o") 0 none, 0, first⟩, ⟨.record (post "p") 0 none, 0, second⟩]⟩

def fresh : ServerState := ⟨0, [([], [])], ⟨∅⟩, []⟩

theorem fresh_started : Started picturePosts fresh where
  idle := rfl
  distinct := by simp [fresh, ServerState.Logged]
  bound := by simp [fresh, ServerState.Logged]
  named := by simp [fresh, ServerState.Logged]
  loaded := eq_ok_of_toOption (by decide +kernel)

variable {objectId : String}

theorem post_checked
    (h : (operationObjectIds picturePosts (post objectId)).toOption = some [objectId]) :
    (WriteRequest.record (post objectId) 0 none).Checked picturePosts :=
  ⟨show (ensureSafeRecordComponent "posts" && ensureSafeRecordComponent "a") = true by decide +kernel,
    [objectId], eq_ok_of_toOption h⟩

theorem post_readable (h : (declaredRecordObjectRefIds picturePosts ⟨"posts", "a",
    ⟨pictureJson objectId, pictureJson_wellFormed objectId⟩, 0, 0,
      "tables/posts/a"⟩).toOption = some [objectId]) :
    (WriteRequest.record (post objectId) 0 none).Readable picturePosts := by
  intro draft hdraft
  cases mem_singleton.mp hdraft
  exact ⟨[objectId], eq_ok_of_toOption h⟩

/-- Both posts are logged in their order. -/
theorem reaches_appended : Reaches (IndexStep picturePosts) (InOrder picturePosts) fresh (posting
    (.appended [postRecord "o" 1]) (.appended [postRecord "p" 2]) 2 [postRecord "o" 1,
    postRecord "p" 2] ⟨∅⟩) := by
  have h₁ := (@Reaches.refl _ _ (IndexStep picturePosts) (InOrder picturePosts) fresh).take
    (e := IndexEvent.request (.record (post "o") 0 none) 0) (.request (post_checked (by decide +kernel)) Nat.one_pos)
    (post_readable (by decide +kernel))
  have h₂ := h₁.take (e := IndexEvent.request (.record (post "p") 0 none) 0)
    (.request (post_checked (by decide +kernel)) Nat.one_pos) (post_readable (by decide +kernel))
  have h₃ := h₂.take (e := .lock 0) (.lock rfl rfl (by simp [fresh, Write.holdsLock])) (by trivial)
  have h₄ := h₃.take (e := .allocate 0 RecordCommit.postStamp) (.allocate rfl rfl rfl rfl) (by trivial)
  have h₅ := h₄.take (e := .enqueue 0) (.enqueue rfl rfl rfl) (by trivial)
  replace h₅ : Reaches _ _ fresh (posting (.enqueued [postRecord "o" 1]) .prepared 1 [] ⟨∅⟩) := h₅
  have h₆ := h₅.take (e := .append 0) (.append rfl rfl (by simp [FirstInQueue, posting, Write.queued])) (by trivial)
  replace h₆ : Reaches _ _ fresh (posting (.appended [postRecord "o" 1]) .prepared 1 [postRecord "o" 1] ⟨∅⟩) := h₆
  have h₇ := h₆.take (e := .lock 1) (.lock rfl rfl (by simp [posting, Write.holdsLock])) (by trivial)
  have h₈ := h₇.take (e := .allocate 1 RecordCommit.postStamp) (.allocate rfl rfl rfl rfl) (by trivial)
  have h₉ := h₈.take (e := .enqueue 1) (.enqueue rfl rfl rfl) (by trivial)
  replace h₉ : Reaches _ _ fresh (posting (.appended [postRecord "o" 1]) (.enqueued [postRecord "p" 2]) 2
      [postRecord "o" 1] ⟨∅⟩) := h₉
  have h₁₀ := h₉.take (e := .append 1) (.append rfl rfl (by simp [FirstInQueue, posting, Write.queued])) (by trivial)
  exact h₁₀

theorem inOrder_index {schema : DatabaseSchema} {s : ServerState} {i : Nat} {write : Write}
    (hi : s.writes[i]? = some write)
    (h : ∀ other ∈ s.writes, ∀ r' ∈ other.indexedRecords, ∀ r ∈ write.records,
    r'.lsn < r.lsn) : InOrder schema s (.index i) := by
  intro write' other r r' path hi' hother hr hr' _ _
  cases hi.symm.trans hi'
  exact h other hother r' hr' r hr

theorem index_step {meets : ServerState → IndexEvent → Prop} (s : ServerState) (i : Nat)
    (write : Write) (records : List WalRecord) (refs : RefState)
    (h : Reaches (IndexStep picturePosts) meets fresh s)
    (hi : s.writes[i]? = some write) (hphase : write.phase = .appended records)
    (hrefs : (records.foldlM (updateFor picturePosts) s.refs).toOption = some refs)
    (hmeets : meets s (.index i)) :
    Reaches (IndexStep picturePosts) meets fresh { s.setPhase i write (.indexed records) with refs } :=
  h.take (.index hi hphase (eq_ok_of_toOption hrefs)) hmeets

/-- The updates in the order of the log. -/
def inOrder : ServerState :=
  posting (.indexed [postRecord "o" 1]) (.indexed [postRecord "p" 2]) 2 [postRecord "o" 1, postRecord "p" 2]
    (pictureRefs "p")

theorem reaches_inOrder :
    Reaches (IndexStep picturePosts) (InOrder picturePosts) fresh inOrder := by
  have h₁ := index_step (posting _ _ _ _ _) 0 ⟨.record (post "o") 0 none, 0, .appended [postRecord "o" 1]⟩
    [postRecord "o" 1] (pictureRefs "o") reaches_appended rfl rfl (by decide +kernel)
    (inOrder_index rfl (by simp [posting, Write.indexedRecords]))
  exact index_step (posting _ _ _ _ _) 1 ⟨.record (post "p") 0 none, 0, .appended [postRecord "p" 2]⟩
    [postRecord "p" 2] (pictureRefs "p") h₁ rfl rfl (by decide +kernel)
    (inOrder_index rfl (by simp [posting, Write.indexedRecords, Write.records, postRecord, stampRecord]))

theorem inOrder_returned : inOrder.AllReturned := by
  simp [ServerState.AllReturned, inOrder, posting]

theorem index_equals_data_sample :
    RefState.fromMessagesAndRecordsForSchema (messagesFromWalRecords inOrder.walRecords)
    (recordsFromWalRecords inOrder.walRecords) picturePosts = .ok (pictureRefs "p") :=
  index_equals_data fresh_started reaches_inOrder inOrder_returned

/-- The update of the first post is made last, and the index keeps the picture that the second has
replaced. -/
theorem index_behind_data : ¬ ∀ (schema : DatabaseSchema) (s t : ServerState), Started schema s →
    Reaches (IndexStep schema) (fun _ _ => True) s t → t.AllReturned →
    RefState.fromMessagesAndRecordsForSchema
    (messagesFromWalRecords t.walRecords) (recordsFromWalRecords t.walRecords) schema =
    .ok t.refs := by
  intro h
  have h₀ : Reaches (IndexStep picturePosts) (fun _ _ => True) fresh _ := reaches_appended.weaken fun _ _ _ => trivial
  have h₁ := index_step (posting _ _ _ _ _) 1 ⟨.record (post "p") 0 none, 0, .appended [postRecord "p" 2]⟩
    [postRecord "p" 2] (pictureRefs "p") h₀ rfl rfl (by decide +kernel) trivial
  have h₂ := index_step (posting _ _ _ _ _) 0 ⟨.record (post "o") 0 none, 0, .appended [postRecord "o" 1]⟩
    [postRecord "o" 1] (pictureRefs "o") h₁ rfl rfl (by decide +kernel) trivial
  have hdata := h _ _ _ fresh_started h₂ (by simp [ServerState.AllReturned, ServerState.setPhase, posting])
  have hsame : (RefState.fromMessagesAndRecordsForSchema (messagesFromWalRecords inOrder.walRecords)
      (recordsFromWalRecords inOrder.walRecords) picturePosts).toOption = some (pictureRefs "o") :=
    congrArg Except.toOption hdata
  exact absurd hsame (by decide +kernel)

end Sample

end NextDb.Api.ObjectRefIndex
