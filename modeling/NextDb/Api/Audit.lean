import NextDb.Api.Mutation
import NextDb.Api.Messages
import NextDb.Api.ObjectRefIndex

/-!
# Audit traces and replays

A trace is a page of the records of the log that are about a target: a room, a user, an object, a
record, a path or a client mutation id. A record of a transaction is about all that its operations
are about. A replay is what the log says of a target up to an LSN.

* `tracePage_filter`: a page shows the records about its target, and nothing else of the log.
* `replayRecords_filter`: so does a replay.
-/

namespace NextDb.Api.Audit

open ObjectRefIndex (ensureSafeRecordComponent)
open RecordCommit (nestedRecordKey)
open Messages (normalizeLimit)
open Records (nestedRecordTable mutationPath)

/-! ## Targets -/

inductive AuditTraceKind where
  | room
  | user
  | object
  | record
  | nestedRecord
  | path
  | clientMutation
deriving DecidableEq

structure AuditTraceQuery where
  kind : AuditTraceKind
  id : Option String
  table : Option String
  recordKey : Option String
  parentKey : Option String
  nested : Option String
  nestedKey : Option String
  path : Option String
  clientMutationId : Option String

structure AuditTraceTarget where
  kind : AuditTraceKind
  id : String
  table : Option String
  recordKey : Option String
  parentKey : Option String
  nested : Option String
  nestedKey : Option String
  path : Option String
  clientMutationId : Option String
deriving DecidableEq

def requiredTraceValue (value : Option String) (message : String) : Except ApiError String :=
  let value := value.getD ""
  if trim value = "" then .error (.badRequest message) else .ok value

def ensureTraceComponent (value message : String) : Except ApiError Unit :=
  if ensureSafeRecordComponent value then .ok () else .error (.badRequest message)

def targetOfId (kind : AuditTraceKind) (id : String) : AuditTraceTarget :=
  ⟨kind, id, none, none, none, none, none, none, none⟩

/-- A path is relative and does not leave its directory. -/
def ensureTracePath (path : String) : Except ApiError Unit :=
  if trim path = "" ∨ "..".toList <:+: path.toList ∨ "/".toList <+: path.toList then
    .error (.badRequest "invalid trace path")
  else .ok ()

def auditTraceTarget (query : AuditTraceQuery) : Except ApiError AuditTraceTarget :=
  match query.kind with
  | .room => do
    let id ← requiredTraceValue query.id "id is required for room trace"
    ensureTraceComponent id "invalid room id"
    return targetOfId .room id
  | .user => do
    let id ← requiredTraceValue query.id "id is required for user trace"
    ensureTraceComponent id "invalid user id"
    return targetOfId .user id
  | .object => do
    let id ← requiredTraceValue query.id "id is required for object trace"
    ensureTraceComponent id "invalid object id"
    return targetOfId .object id
  | .record => do
    let table ← requiredTraceValue query.table "table is required for record trace"
    let recordKey ← requiredTraceValue (query.recordKey.or query.id) "recordKey or id is required for record trace"
    ensureTraceComponent table "invalid table name"
    ensureTraceComponent recordKey "invalid record key"
    return { targetOfId .record recordKey with table := some table, recordKey := some recordKey }
  | .nestedRecord => do
    let table ← requiredTraceValue query.table "table is required for nestedRecord trace"
    let parentKey ← requiredTraceValue query.parentKey "parentKey is required for nestedRecord trace"
    let nested ← requiredTraceValue query.nested "nested is required for nestedRecord trace"
    let nestedKey ← requiredTraceValue (query.nestedKey.or query.id)
      "nestedKey or id is required for nestedRecord trace"
    ensureTraceComponent table "invalid table name"
    ensureTraceComponent parentKey "invalid parent key"
    ensureTraceComponent nested "invalid nested table name"
    ensureTraceComponent nestedKey "invalid nested key"
    return { targetOfId .nestedRecord nestedKey with
      table := some table
      recordKey := some (nestedRecordKey parentKey nestedKey)
      parentKey := some parentKey
      nested := some nested
      nestedKey := some nestedKey }
  | .path => do
    let path ← requiredTraceValue (query.path.or query.id) "path or id is required for path trace"
    ensureTracePath path
    return { targetOfId .path path with path := some path }
  | .clientMutation => do
    let clientMutationId ← requiredTraceValue (query.clientMutationId.or query.id)
      "clientMutationId or id is required for clientMutation trace"
    return { targetOfId .clientMutation clientMutationId with clientMutationId := some clientMutationId }

def auditReplayTarget (query : AuditTraceQuery) : Except ApiError AuditTraceTarget := do
  let target ← auditTraceTarget { query with path := none, clientMutationId := none }
  match target.kind with
  | .record | .nestedRecord | .user | .object => return target
  | .room | .path | .clientMutation =>
    .error (.badRequest "replay supports record, nestedRecord, user, and object targets")

/-! ## What a record is about -/

def nestedRecordPrefix (parentKey : String) : String := s!"{parentKey}:"

def mutationTable : DbRecordMutationDraft → String
  | .upsert record => record.table
  | .delete record => record.table

def mutationKey : DbRecordMutationDraft → String
  | .upsert record => record.key
  | .delete record => record.key

/-- The changes of records that a payload makes. -/
def payloadMutations : WalPayload → List DbRecordMutationDraft
  | .recordUpserted record => [.upsert record]
  | .recordDeleted record => [.delete record]
  | .recordTransactionCommitted operations _ => operations
  | _ => []

mutual

def jsonContainsObjectId (objectId : String) : Json → Bool
  | .object fields => (match fields.lookup "id", fields.lookup "path" with
      | some (.string id),
      some (.string path) => id == objectId && "objects/".toList.isPrefixOf path.toList
      | _, _ => false) || fieldsContainObjectId objectId fields
  | .array values => valuesContainObjectId objectId values
  | _ => false

def valuesContainObjectId (objectId : String) : List Json → Bool
  | [] => false
  | value :: values => jsonContainsObjectId objectId value || valuesContainObjectId objectId values

def fieldsContainObjectId (objectId : String) : List (String × Json) → Bool
  | [] => false
  | (_, value) :: fields => jsonContainsObjectId objectId value || fieldsContainObjectId objectId fields

end

def valueContainsObjectId (value : Value) (objectId : String) : Bool :=
  jsonContainsObjectId objectId value.json

def mutationInRoom (roomId : String) (operation : DbRecordMutationDraft) : Bool :=
  mutationTable operation == "rooms" && mutationKey operation == roomId ||
    mutationTable operation == "rooms.messages" &&
      (nestedRecordPrefix roomId).toList.isPrefixOf (mutationKey operation).toList

def payloadMatchesRoomTrace (roomId : String) : WalPayload → Bool
  | .messageCreated message => message.roomId == roomId
  | payload => (payloadMutations payload).any (mutationInRoom roomId)

def payloadMatchesUserTrace (userId : String) : WalPayload → Bool
  | .messageCreated message => message.senderId == userId
  | .userEventPublished event => event.userId == userId
  | .userUpserted user => user.userId == userId
  | _ => false

def mutationContainsObjectId (objectId : String) : DbRecordMutationDraft → Bool
  | .upsert record => valueContainsObjectId record.value objectId
  | .delete _ => false

def payloadMatchesObjectTrace (objectId : String) : WalPayload → Bool
  | .objectCommitted object _ => object.id == objectId
  | .objectDeleted deletedObjectId _ _ _ _ => deletedObjectId == objectId
  | .messageCreated message => message.attachments.any (·.id == objectId)
  | payload => (payloadMutations payload).any (mutationContainsObjectId objectId)

def payloadMatchesTableRecord (table key : String) (payload : WalPayload) : Bool :=
  (payloadMutations payload).any fun operation => mutationTable operation == table && mutationKey operation == key

def clientMutationRecordPath : ClientMutationRecord → Option String
  | .recordDeleteNoop _ _ path => some path
  | .recordTransactionNoop => none
  | .objectDeleteNoop _ path => some path

def payloadMatchesPath (path : String) : WalPayload → Bool
  | .messageCreated message => message.path == path
  | .userEventPublished event => event.path == path
  | .userUpserted user => user.path == path
  | .objectCommitted object _ => object.path == path
  | .objectDeleted _ _ deletedPath _ _ => deletedPath == path
  | .clientMutationRecorded _ record => clientMutationRecordPath record == some path
  | .hostHttpRequested request => path == s!"host-http/requests/{request.requestId}"
  | .hostHttpCompleted requestId _ => path == s!"host-http/requests/{requestId}"
  | .schemaApplied schema _ => path == s!"schema/versions/{schema.version}"
  | payload => (payloadMutations payload).any (mutationPath · == path)

def payloadMatchesClientMutationId (clientMutationId : String) : WalPayload → Bool
  | .messageCreated message => message.clientMutationId == some clientMutationId
  | .userEventPublished event => event.clientMutationId == some clientMutationId
  | .userUpserted user => user.clientMutationId == some clientMutationId
  | .objectCommitted _ existing | .objectDeleted _ _ _ _ existing | .recordTransactionCommitted _ existing =>
    existing == some clientMutationId
  | .recordUpserted record => record.clientMutationId == some clientMutationId
  | .recordDeleted record => record.clientMutationId == some clientMutationId
  | .clientMutationRecorded existing _ => existing == clientMutationId
  | _ => false

/-- The table of the records of a target. -/
def AuditTraceTarget.logicalTable (target : AuditTraceTarget) : Option String :=
  match target.kind with
  | .record => target.table
  | .nestedRecord =>
    match target.table, target.nested with
    | some table, some nested => some (nestedRecordTable table nested)
    | _, _ => none
  | _ => none

def matchesAuditTraceTarget (record : WalRecord) (target : AuditTraceTarget) : Bool :=
  match target.kind with
  | .room => payloadMatchesRoomTrace target.id record.payload
  | .user => payloadMatchesUserTrace target.id record.payload
  | .object => payloadMatchesObjectTrace target.id record.payload
  | .record | .nestedRecord =>
    match target.logicalTable, target.recordKey with
    | some table, some recordKey => payloadMatchesTableRecord table recordKey record.payload
    | _, _ => false
  | .path => target.path.any (payloadMatchesPath · record.payload)
  | .clientMutation => target.clientMutationId.any (payloadMatchesClientMutationId · record.payload)

/-! ## Traces -/

structure AuditTraceResponse where
  target : AuditTraceTarget
  records : List WalRecord
  nextAfterLsn : Nat
  hasMore : Bool

/-- The page of a trace, after the records that are on it, and whether there are more. -/
def tracePage (target : AuditTraceTarget) (afterLsn limit : Nat) : List WalRecord → List WalRecord →
    List WalRecord × Bool
  | page, [] => (page, false)
  | page, record :: records =>
    if record.lsn ≤ afterLsn then tracePage target afterLsn limit page records
    else if !matchesAuditTraceTarget record target then tracePage target afterLsn limit page records
    else if limit ≤ page.length then (page, true)
    else tracePage target afterLsn limit (page ++ [record]) records

def auditTrace (records : List WalRecord) (target : AuditTraceTarget) (afterLsn : Option Nat)
    (limit : Option Nat) :
    AuditTraceResponse :=
  let page := tracePage target (afterLsn.getD 0) (normalizeLimit limit) [] records
  ⟨target, page.1, (page.1.getLast?.map (·.lsn)).getD (afterLsn.getD 0), page.2⟩

theorem tracePage_filter (target : AuditTraceTarget) (afterLsn limit : Nat)
    (page records : List WalRecord) :
    tracePage target afterLsn limit page records =
    tracePage target afterLsn limit page (records.filter (matchesAuditTraceTarget · target)) := by
  induction records generalizing page with
  | nil => rfl
  | cons record records ih =>
    cases hmatches : matchesAuditTraceTarget record target with
    | false => rw [List.filter_cons_of_neg (by simp [hmatches]), ← ih, tracePage, hmatches, Bool.not_false, if_pos rfl,
        ite_self]
    | true =>
      rw [List.filter_cons_of_pos (by simp [hmatches])]
      simp only [tracePage, hmatches, ih]

/-! ## Replays -/

inductive AuditReplayStatus where
  | exists
  | deleted
  | missing
deriving DecidableEq

structure AuditReplayDelete where
  table : Option String
  key : Option String
  objectId : Option String
  path : String
  deletedAtMs : Nat
  force : Option Bool

/-- What is known of a target, and from which record. -/
structure AuditReplayResponse where
  target : AuditTraceTarget
  atLsn : Nat
  status : AuditReplayStatus
  sourceLsn : Option Nat
  record : Option DbRecord
  user : Option UserProfile
  object : Option ObjectMetadata
  delete : Option AuditReplayDelete

def setReplayedMutation (response : AuditReplayResponse) (lsn : Nat) :
    DbRecordMutationDraft → AuditReplayResponse
  | .upsert record => ⟨response.target, response.atLsn, .exists, some lsn,
    some (record.intoRecord lsn), none,
      none, none⟩
  | .delete record => ⟨response.target, response.atLsn, .deleted, some lsn, none, none, none,
      some ⟨some record.table, some record.key, none, record.path, record.deletedAtMs, none⟩⟩

def replayRecordPayload (table key : String) (response : AuditReplayResponse)
    (walRecord : WalRecord) :
    AuditReplayResponse :=
  (payloadMutations walRecord.payload).foldl (fun response operation =>
    if mutationTable operation = table ∧ mutationKey operation = key then
      setReplayedMutation response walRecord.lsn operation
    else response) response

def replayUserPayload (response : AuditReplayResponse) (walRecord : WalRecord) :
    AuditReplayResponse :=
  match walRecord.payload with
  | .userUpserted user =>
    if user.userId = response.target.id then
      ⟨response.target, response.atLsn, .exists, some walRecord.lsn, none, some (user.intoProfile walRecord.lsn),
          none, none⟩
    else response
  | _ => response

def replayObjectPayload (response : AuditReplayResponse) (walRecord : WalRecord) :
    AuditReplayResponse :=
  match walRecord.payload with
  | .objectCommitted object _ =>
    if object.id = response.target.id then
      ⟨response.target, response.atLsn, .exists, some walRecord.lsn, none, none, some object, none⟩
    else response
  | .objectDeleted objectId deletedAtMs path force _ =>
    if objectId = response.target.id then
      ⟨response.target, response.atLsn, .deleted, some walRecord.lsn, none, none, none,
        some ⟨none, none, some objectId, path, deletedAtMs, some force⟩⟩
    else response
  | _ => response

def replayWalRecordIntoResponse (response : AuditReplayResponse) (walRecord : WalRecord) :
    AuditReplayResponse :=
  match response.target.kind with
  | .record | .nestedRecord =>
    match response.target.logicalTable, response.target.recordKey with
    | some table, some key => replayRecordPayload table key response walRecord
    | _, _ => response
  | .user => replayUserPayload response walRecord
  | .object => replayObjectPayload response walRecord
  | .room | .path | .clientMutation => response

/-- The records come in the order of their LSNs. -/
def replayRecords (atLsn : Nat) : AuditReplayResponse → List WalRecord → AuditReplayResponse
  | response, [] => response
  | response, walRecord :: records =>
    if atLsn < walRecord.lsn then response
    else replayRecords atLsn (replayWalRecordIntoResponse response walRecord) records

/-- `u64::MAX`. -/
def maxLsn : Nat := 18446744073709551615

def replayAuditTarget (records : List WalRecord) (target : AuditTraceTarget) (atLsn : Option Nat) :
    AuditReplayResponse :=
  replayRecords (atLsn.getD maxLsn) ⟨target, atLsn.getD maxLsn, .missing, none, none, none, none, none⟩ records

/-! ### What is replayed -/

variable {response : AuditReplayResponse} {walRecord : WalRecord}

theorem replayRecordPayload_of_other {table key : String}
    (h : payloadMatchesTableRecord table key walRecord.payload = false) :
    replayRecordPayload table key response walRecord = response := by
  have hother : ∀ operation ∈ payloadMutations walRecord.payload,
      ¬(mutationTable operation = table ∧ mutationKey operation = key) := by
    simpa [payloadMatchesTableRecord] using h
  unfold replayRecordPayload
  revert hother
  induction payloadMutations walRecord.payload with
  | nil => exact fun _ => rfl
  | cons operation operations ih =>
    intro hother
    rw [List.forall_mem_cons] at hother
    rw [List.foldl_cons, if_neg hother.1, ih hother.2]

theorem replayUserPayload_of_other
    (h : payloadMatchesUserTrace response.target.id walRecord.payload = false) :
    replayUserPayload response walRecord = response := by
  unfold replayUserPayload
  unfold payloadMatchesUserTrace at h
  cases hpayload : walRecord.payload with
  | userUpserted user =>
    rw [hpayload] at h
    exact if_neg (by simpa using h)
  | _ => rfl

theorem replayObjectPayload_of_other
    (h : payloadMatchesObjectTrace response.target.id walRecord.payload = false) :
    replayObjectPayload response walRecord = response := by
  unfold replayObjectPayload
  unfold payloadMatchesObjectTrace at h
  cases hpayload : walRecord.payload with
  | objectCommitted | objectDeleted =>
    rw [hpayload] at h
    exact if_neg (by simpa using h)
  | _ => rfl

theorem replayWalRecordIntoResponse_of_other
    (h : matchesAuditTraceTarget walRecord response.target = false) :
    replayWalRecordIntoResponse response walRecord = response := by
  unfold matchesAuditTraceTarget at h
  unfold replayWalRecordIntoResponse
  cases hkind : response.target.kind with
  | user => exact replayUserPayload_of_other (by simpa only [hkind] using h)
  | object => exact replayObjectPayload_of_other (by simpa only [hkind] using h)
  | room | path | clientMutation => rfl
  | record | nestedRecord =>
    simp only [hkind] at h
    dsimp only
    split
    · next table key htable hkey =>
      rw [htable, hkey] at h
      exact replayRecordPayload_of_other h
    · rfl

theorem setReplayedMutation_target (response : AuditReplayResponse) (lsn : Nat)
    (operation : DbRecordMutationDraft) :
    (setReplayedMutation response lsn operation).target = response.target := by
  cases operation <;> rfl

theorem replayRecordPayload_target (table key : String) (response : AuditReplayResponse)
    (walRecord : WalRecord) :
    (replayRecordPayload table key response walRecord).target = response.target := by
  unfold replayRecordPayload
  refine List.foldlRecOn (motive := fun (replayed : AuditReplayResponse) => replayed.target = response.target) _ _ rfl
    fun replayed htarget operation _ => ?_
  split
  · rw [setReplayedMutation_target, htarget]
  · exact htarget

theorem replayWalRecordIntoResponse_target (response : AuditReplayResponse)
    (walRecord : WalRecord) :
    (replayWalRecordIntoResponse response walRecord).target = response.target := by
  unfold replayWalRecordIntoResponse
  cases response.target.kind with
  | room | path | clientMutation => rfl
  | user =>
    simp only [replayUserPayload]
    split
    · split <;> rfl
    · rfl
  | object =>
    simp only [replayObjectPayload]
    split
    · split <;> rfl
    · split <;> rfl
    · rfl
  | record | nestedRecord =>
    dsimp only
    split
    · exact replayRecordPayload_target ..
    · rfl

theorem replayRecords_of_later {atLsn : Nat} {records : List WalRecord}
    (h : ∀ r ∈ records, atLsn < r.lsn) :
    replayRecords atLsn response records = response := by
  cases records with
  | nil => rfl
  | cons r records => exact if_pos (h r (by simp))

theorem replayRecords_filter {records : List WalRecord}
    (hasc : records.Pairwise fun a b => a.lsn < b.lsn)
    (atLsn : Nat) (response : AuditReplayResponse) : replayRecords atLsn response records =
    replayRecords atLsn response (records.filter (matchesAuditTraceTarget · response.target)) := by
  induction records generalizing response with
  | nil => rfl
  | cons r records ih =>
    obtain ⟨hlater, hasc⟩ := List.pairwise_cons.mp hasc
    by_cases hlsn : atLsn < r.lsn
    · have hall : ∀ other ∈ r :: records, atLsn < other.lsn :=
        List.forall_mem_cons.mpr ⟨hlsn, fun other hmem => hlsn.trans (hlater other hmem)⟩
      rw [replayRecords_of_later hall,
          replayRecords_of_later fun other hmem => hall other (List.mem_of_mem_filter hmem)]
    · rw [replayRecords, if_neg hlsn, ih hasc, replayWalRecordIntoResponse_target]
      cases hmatches : matchesAuditTraceTarget r response.target with
      | false => rw [List.filter_cons_of_neg (by simp [hmatches]), replayWalRecordIntoResponse_of_other hmatches]
      | true => rw [List.filter_cons_of_pos (by simp [hmatches]), replayRecords, if_neg hlsn]

end NextDb.Api.Audit
