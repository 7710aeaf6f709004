import NextDb.Model.Record

/-!
# The postcard form of a log record

A log frame holds a `PostcardWalRecordFrame`: a record whose JSON values are in
binary form and whose schema and migration plan are JSON texts. `fromRecord`
and `intoRecord` convert each way, constructor by constructor.

The serialisers and the hash functions belong to libraries of the server, and
are the fields of `Libraries`.

* `intoRecord_fromRecord`: a record that converts is the one its frame gives back.
-/

namespace NextDb.Wal

structure BinaryMessageDraft where
  id : String
  clientMutationId : Option String
  roomId : String
  senderId : String
  body : String
  attachments : List ObjectRef
  createdAtMs : Nat
  path : String

structure BinaryUserEventDraft where
  id : String
  clientMutationId : Option String
  userId : String
  name : String
  payload : BinaryJsonValue
  createdAtMs : Nat
  path : String

structure BinaryUserProfileDraft where
  userId : String
  clientMutationId : Option String
  displayName : Option String
  metadata : BinaryJsonValue
  createdAtMs : Nat
  updatedAtMs : Nat
  path : String

structure BinaryActorReminderDraft where
  actorKind : String
  actorKey : String
  reminderId : String
  dueAtMs : Nat
  payload : Option BinaryJsonValue

structure BinaryHostHttpRequestDraft where
  requestId : String
  method : String
  url : String
  headers : BTreeMap String String
  body : Option BinaryJsonValue
  bodyBase64 : Option String
  timeoutMs : Nat
  actorKind : String
  actorKey : String
  reminderId : String
  continuation : BinaryJsonValue
  requestedAtMs : Nat

structure BinaryDbRecordDraft where
  table : String
  key : String
  value : BinaryJsonValue
  updatedAtMs : Nat
  path : String
  clientMutationId : Option String

structure BinaryDbRecordDeleteDraft where
  table : String
  key : String
  deletedAtMs : Nat
  path : String
  clientMutationId : Option String

inductive BinaryDbRecordMutationDraft where
  | upsert (record : BinaryDbRecordDraft)
  | delete (record : BinaryDbRecordDeleteDraft)

inductive BinaryClientMutationRecord where
  | recordDeleteNoop (table key path : String)
  | recordTransactionNoop
  | objectDeleteNoop (objectId path : String)

inductive PostcardWalPayload where
  | messageCreated (message : BinaryMessageDraft)
  | userEventPublished (event : BinaryUserEventDraft)
  | userUpserted (user : BinaryUserProfileDraft)
  | objectCommitted (object : ObjectMetadata) (clientMutationId : Option String)
  | objectDeleted (objectId : String) (deletedAtMs : Nat) (path : String) (force : Bool)
      (clientMutationId : Option String)
  | recordUpserted (record : BinaryDbRecordDraft)
  | recordDeleted (record : BinaryDbRecordDeleteDraft)
  | recordTransactionCommitted (operations : List BinaryDbRecordMutationDraft)
      (clientMutationId : Option String)
  | schemaApplied (schemaJson migrationJson : Bytes)
  | behaviorPublished (publish : BehaviorPublishedDraft)
  | actorReminderScheduled (reminder : BinaryActorReminderDraft)
  | actorReminderCancelled (actorKind actorKey reminderId : String) (cancelledAtMs : Nat)
  | actorReminderFired (actorKind actorKey reminderId : String) (dueAtMs firedAtMs : Nat)
  | hostHttpRequested (request : BinaryHostHttpRequestDraft)
  | hostHttpCompleted (requestId : String) (completedAtMs : Nat)
  | clientMutationRecorded (clientMutationId : String) (record : BinaryClientMutationRecord)

structure PostcardWalRecordFrame where
  lsn : Nat
  shard : Nat
  shardEpoch : Nat
  ownerNodeId : String
  timestampMs : Nat
  schemaVersion : Nat
  durability : Durability
  payload : PostcardWalPayload
  checksum : Option String

/-- What the server takes from `postcard`, `serde_json`, `sha2` and `crc32c`. -/
structure Libraries where
  toAllocvec : PostcardWalRecordFrame → Result Bytes
  fromBytes : Bytes → Result PostcardWalRecordFrame
  schemaToVec : DatabaseSchema → Result Bytes
  schemaFromSlice : Bytes → Result DatabaseSchema
  migrationToVec : SchemaMigrationPlan → Result Bytes
  migrationFromSlice : Bytes → Result SchemaMigrationPlan
  materialToVec : WalRecordChecksumMaterial → Result Bytes
  recordFromSlice : Bytes → Result WalRecord
  recordFromStr : String → Result WalRecord
  sha256 : Bytes → Bytes
  crc32c : Bytes → UInt32

/-- The serialisers read back what they wrote, and a postcard frame, which
starts with an integer, takes at least one byte. -/
structure Libraries.Lawful (lib : Libraries) : Prop where
  postcard : ∀ {frame bytes}, lib.toAllocvec frame = .ok bytes → lib.fromBytes bytes = .ok frame
  postcard_ne_nil : ∀ {frame bytes}, lib.toAllocvec frame = .ok bytes → bytes ≠ []
  schema : ∀ {schema bytes}, lib.schemaToVec schema = .ok bytes → lib.schemaFromSlice bytes = .ok schema
  migration : ∀ {migration bytes}, lib.migrationToVec migration = .ok bytes →
    lib.migrationFromSlice bytes = .ok migration

/-- A JSON text holds no NUL character, and none starts with an N. -/
structure Libraries.JsonText (lib : Libraries) : Prop where
  nul : ∀ line : String, '\x00' ∈ line.toList → ∃ err, lib.recordFromStr line = .error err
  start : ∀ line : String, line.toList.head? = some 'N' → ∃ err, lib.recordFromStr line = .error err

/-! ## Drafts -/

def BinaryMessageDraft.fromDraft (draft : MessageDraft) : BinaryMessageDraft where
  id := draft.id
  clientMutationId := draft.clientMutationId
  roomId := draft.roomId
  senderId := draft.senderId
  body := draft.body
  attachments := draft.attachments
  createdAtMs := draft.createdAtMs
  path := draft.path

def BinaryMessageDraft.intoDraft (self : BinaryMessageDraft) : MessageDraft where
  id := self.id
  clientMutationId := self.clientMutationId
  roomId := self.roomId
  senderId := self.senderId
  body := self.body
  attachments := self.attachments
  createdAtMs := self.createdAtMs
  path := self.path

def BinaryUserEventDraft.fromDraft (draft : UserEventDraft) : Result BinaryUserEventDraft := do
  let payload ← BinaryJsonValue.fromJson draft.payload.json
  .ok { id := draft.id, clientMutationId := draft.clientMutationId, userId := draft.userId,
        name := draft.name, payload, createdAtMs := draft.createdAtMs, path := draft.path }

def BinaryUserEventDraft.intoDraft (self : BinaryUserEventDraft) : Result UserEventDraft := do
  let payload ← self.payload.intoValue
  .ok { id := self.id, clientMutationId := self.clientMutationId, userId := self.userId,
        name := self.name, payload, createdAtMs := self.createdAtMs, path := self.path }

def BinaryUserProfileDraft.fromDraft (draft : UserProfileDraft) :
    Result BinaryUserProfileDraft := do
  let metadata ← BinaryJsonValue.fromJson draft.metadata.json
  .ok { userId := draft.userId, clientMutationId := draft.clientMutationId,
        displayName := draft.displayName, metadata, createdAtMs := draft.createdAtMs,
        updatedAtMs := draft.updatedAtMs, path := draft.path }

def BinaryUserProfileDraft.intoDraft (self : BinaryUserProfileDraft) :
    Result UserProfileDraft := do
  let metadata ← self.metadata.intoValue
  .ok { userId := self.userId, clientMutationId := self.clientMutationId,
        displayName := self.displayName, metadata, createdAtMs := self.createdAtMs,
        updatedAtMs := self.updatedAtMs, path := self.path }

/-- `from_json` under an `Option`, transposed. -/
def fromJsonOption : Option Value → Result (Option BinaryJsonValue)
  | none => .ok none
  | some value => (BinaryJsonValue.fromJson value.json).map some

/-- `into_json` under an `Option`, transposed. -/
def intoJsonOption : Option BinaryJsonValue → Result (Option Value)
  | none => .ok none
  | some value => value.intoValue.map some

def BinaryActorReminderDraft.fromDraft (draft : ActorReminderDraft) :
    Result BinaryActorReminderDraft := do
  let payload ← fromJsonOption draft.payload
  .ok { actorKind := draft.actorKind, actorKey := draft.actorKey, reminderId := draft.reminderId,
        dueAtMs := draft.dueAtMs, payload }

def BinaryActorReminderDraft.intoDraft (self : BinaryActorReminderDraft) :
    Result ActorReminderDraft := do
  let payload ← intoJsonOption self.payload
  .ok { actorKind := self.actorKind, actorKey := self.actorKey, reminderId := self.reminderId,
        dueAtMs := self.dueAtMs, payload }

def BinaryHostHttpRequestDraft.fromDraft (draft : HostHttpRequestDraft) :
    Result BinaryHostHttpRequestDraft := do
  let body ← fromJsonOption draft.body
  let continuation ← BinaryJsonValue.fromJson draft.continuation.json
  .ok { requestId := draft.requestId, method := draft.method, url := draft.url,
        headers := draft.headers, body, bodyBase64 := draft.bodyBase64,
        timeoutMs := draft.timeoutMs, actorKind := draft.actorKind, actorKey := draft.actorKey,
        reminderId := draft.reminderId, continuation, requestedAtMs := draft.requestedAtMs }

def BinaryHostHttpRequestDraft.intoDraft (self : BinaryHostHttpRequestDraft) :
    Result HostHttpRequestDraft := do
  let body ← intoJsonOption self.body
  let continuation ← self.continuation.intoValue
  .ok { requestId := self.requestId, method := self.method, url := self.url,
        headers := self.headers, body, bodyBase64 := self.bodyBase64,
        timeoutMs := self.timeoutMs, actorKind := self.actorKind, actorKey := self.actorKey,
        reminderId := self.reminderId, continuation, requestedAtMs := self.requestedAtMs }

def BinaryDbRecordDraft.fromDraft (draft : DbRecordDraft) : Result BinaryDbRecordDraft := do
  let value ← BinaryJsonValue.fromJson draft.value.json
  .ok { table := draft.table, key := draft.key, value, updatedAtMs := draft.updatedAtMs,
        path := draft.path, clientMutationId := draft.clientMutationId }

def BinaryDbRecordDraft.intoDraft (self : BinaryDbRecordDraft) : Result DbRecordDraft := do
  let value ← self.value.intoValue
  .ok { table := self.table, key := self.key, value, updatedAtMs := self.updatedAtMs,
        path := self.path, clientMutationId := self.clientMutationId }

def BinaryDbRecordDeleteDraft.fromDraft (draft : DbRecordDeleteDraft) :
    BinaryDbRecordDeleteDraft where
  table := draft.table
  key := draft.key
  deletedAtMs := draft.deletedAtMs
  path := draft.path
  clientMutationId := draft.clientMutationId

def BinaryDbRecordDeleteDraft.intoDraft (self : BinaryDbRecordDeleteDraft) :
    DbRecordDeleteDraft where
  table := self.table
  key := self.key
  deletedAtMs := self.deletedAtMs
  path := self.path
  clientMutationId := self.clientMutationId

def BinaryDbRecordMutationDraft.fromDraft :
    DbRecordMutationDraft → Result BinaryDbRecordMutationDraft
  | .upsert record => (BinaryDbRecordDraft.fromDraft record).map .upsert
  | .delete record => .ok (.delete (BinaryDbRecordDeleteDraft.fromDraft record))

def BinaryDbRecordMutationDraft.intoDraft :
    BinaryDbRecordMutationDraft → Result DbRecordMutationDraft
  | .upsert record => record.intoDraft.map .upsert
  | .delete record => .ok (.delete record.intoDraft)

def BinaryClientMutationRecord.fromRecord : ClientMutationRecord → BinaryClientMutationRecord
  | .recordDeleteNoop table key path => .recordDeleteNoop table key path
  | .recordTransactionNoop => .recordTransactionNoop
  | .objectDeleteNoop objectId path => .objectDeleteNoop objectId path

def BinaryClientMutationRecord.intoRecord : BinaryClientMutationRecord → ClientMutationRecord
  | .recordDeleteNoop table key path => .recordDeleteNoop table key path
  | .recordTransactionNoop => .recordTransactionNoop
  | .objectDeleteNoop objectId path => .objectDeleteNoop objectId path

/-! ## Payloads and records -/

variable (lib : Libraries)

def PostcardWalPayload.fromPayload : WalPayload → Result PostcardWalPayload
  | .messageCreated message => .ok (.messageCreated (BinaryMessageDraft.fromDraft message))
  | .userEventPublished event => do
    .ok (.userEventPublished (← BinaryUserEventDraft.fromDraft event))
  | .userUpserted user => do
    .ok (.userUpserted (← BinaryUserProfileDraft.fromDraft user))
  | .objectCommitted object clientMutationId => .ok (.objectCommitted object clientMutationId)
  | .objectDeleted objectId deletedAtMs path force clientMutationId =>
    .ok (.objectDeleted objectId deletedAtMs path force clientMutationId)
  | .recordUpserted record => do
    .ok (.recordUpserted (← BinaryDbRecordDraft.fromDraft record))
  | .recordDeleted record => .ok (.recordDeleted (BinaryDbRecordDeleteDraft.fromDraft record))
  | .recordTransactionCommitted operations clientMutationId => do
    let operations ← operations.mapM BinaryDbRecordMutationDraft.fromDraft
    .ok (.recordTransactionCommitted operations clientMutationId)
  | .schemaApplied schema migration => do
    let schemaJson ← withContext "encode schema WAL postcard JSON" (lib.schemaToVec schema)
    let migrationJson ←
      withContext "encode schema migration WAL postcard JSON" (lib.migrationToVec migration)
    .ok (.schemaApplied schemaJson migrationJson)
  | .behaviorPublished publish => .ok (.behaviorPublished publish)
  | .actorReminderScheduled reminder => do
    .ok (.actorReminderScheduled (← BinaryActorReminderDraft.fromDraft reminder))
  | .actorReminderCancelled actorKind actorKey reminderId cancelledAtMs =>
    .ok (.actorReminderCancelled actorKind actorKey reminderId cancelledAtMs)
  | .actorReminderFired actorKind actorKey reminderId dueAtMs firedAtMs =>
    .ok (.actorReminderFired actorKind actorKey reminderId dueAtMs firedAtMs)
  | .hostHttpRequested request => do
    .ok (.hostHttpRequested (← BinaryHostHttpRequestDraft.fromDraft request))
  | .hostHttpCompleted requestId completedAtMs => .ok (.hostHttpCompleted requestId completedAtMs)
  | .clientMutationRecorded clientMutationId record =>
    .ok (.clientMutationRecorded clientMutationId (BinaryClientMutationRecord.fromRecord record))

def PostcardWalPayload.intoPayload : PostcardWalPayload → Result WalPayload
  | .messageCreated message => .ok (.messageCreated message.intoDraft)
  | .userEventPublished event => do .ok (.userEventPublished (← event.intoDraft))
  | .userUpserted user => do .ok (.userUpserted (← user.intoDraft))
  | .objectCommitted object clientMutationId => .ok (.objectCommitted object clientMutationId)
  | .objectDeleted objectId deletedAtMs path force clientMutationId =>
    .ok (.objectDeleted objectId deletedAtMs path force clientMutationId)
  | .recordUpserted record => do .ok (.recordUpserted (← record.intoDraft))
  | .recordDeleted record => .ok (.recordDeleted record.intoDraft)
  | .recordTransactionCommitted operations clientMutationId => do
    let operations ← operations.mapM BinaryDbRecordMutationDraft.intoDraft
    .ok (.recordTransactionCommitted operations clientMutationId)
  | .schemaApplied schemaJson migrationJson => do
    let schema ← withContext "decode schema WAL postcard JSON" (lib.schemaFromSlice schemaJson)
    let migration ←
      withContext "decode schema migration WAL postcard JSON" (lib.migrationFromSlice migrationJson)
    .ok (.schemaApplied schema migration)
  | .behaviorPublished publish => .ok (.behaviorPublished publish)
  | .actorReminderScheduled reminder => do
    .ok (.actorReminderScheduled (← reminder.intoDraft))
  | .actorReminderCancelled actorKind actorKey reminderId cancelledAtMs =>
    .ok (.actorReminderCancelled actorKind actorKey reminderId cancelledAtMs)
  | .actorReminderFired actorKind actorKey reminderId dueAtMs firedAtMs =>
    .ok (.actorReminderFired actorKind actorKey reminderId dueAtMs firedAtMs)
  | .hostHttpRequested request => do .ok (.hostHttpRequested (← request.intoDraft))
  | .hostHttpCompleted requestId completedAtMs => .ok (.hostHttpCompleted requestId completedAtMs)
  | .clientMutationRecorded clientMutationId record =>
    .ok (.clientMutationRecorded clientMutationId record.intoRecord)

def PostcardWalRecordFrame.fromRecord (record : WalRecord) : Result PostcardWalRecordFrame := do
  let payload ← PostcardWalPayload.fromPayload lib record.payload
  .ok { lsn := record.lsn, shard := record.shard, shardEpoch := record.shardEpoch,
        ownerNodeId := record.ownerNodeId, timestampMs := record.timestampMs,
        schemaVersion := record.schemaVersion, durability := record.durability, payload,
        checksum := record.checksum }

/-- A shard index always fits: the server's words have 64 bits. -/
def PostcardWalRecordFrame.intoRecord (self : PostcardWalRecordFrame) : Result WalRecord := do
  let payload ← withContext "decode WAL payload" (self.payload.intoPayload lib)
  .ok { lsn := self.lsn, shard := self.shard, shardEpoch := self.shardEpoch,
        ownerNodeId := self.ownerNodeId, timestampMs := self.timestampMs,
        schemaVersion := self.schemaVersion, durability := self.durability, payload,
        checksum := self.checksum }

/-! ## Round trip -/

theorem mapM_mapM {α β : Type} {f : α → Result β} {g : β → Result α}
    (hfg : ∀ {a b}, f a = .ok b → g b = .ok a)
    {as : List α} {bs : List β} (h : as.mapM f = .ok bs) : bs.mapM g = .ok as := by
  induction as generalizing bs with
  | nil => cases h; rfl
  | cons a as ih =>
    rw [List.mapM_cons] at h
    obtain ⟨b, hb, h⟩ := bind_eq_ok.mp h
    obtain ⟨bs', hbs, h⟩ := bind_eq_ok.mp h
    cases h
    rw [List.mapM_cons, hfg hb, ih hbs]
    rfl

theorem intoJsonOption_fromJsonOption {value : Option Value} {b : Option BinaryJsonValue}
    (h : fromJsonOption value = .ok b) : intoJsonOption b = .ok value := by
  cases value with
  | none => cases h; rfl
  | some value =>
    obtain ⟨_, hv, rfl⟩ := map_eq_ok.mp h
    rw [intoJsonOption, BinaryJsonValue.intoValue_fromJson hv]
    rfl

theorem BinaryUserEventDraft.intoDraft_fromDraft {draft : UserEventDraft} {b : BinaryUserEventDraft}
    (h : fromDraft draft = .ok b) : b.intoDraft = .ok draft := by
  obtain ⟨_, hp, h⟩ := bind_eq_ok.mp h
  cases h
  rw [intoDraft, BinaryJsonValue.intoValue_fromJson hp]
  rfl

theorem BinaryUserProfileDraft.intoDraft_fromDraft {draft : UserProfileDraft}
    {b : BinaryUserProfileDraft} (h : fromDraft draft = .ok b) : b.intoDraft = .ok draft := by
  obtain ⟨_, hp, h⟩ := bind_eq_ok.mp h
  cases h
  rw [intoDraft, BinaryJsonValue.intoValue_fromJson hp]
  rfl

theorem BinaryActorReminderDraft.intoDraft_fromDraft {draft : ActorReminderDraft}
    {b : BinaryActorReminderDraft} (h : fromDraft draft = .ok b) : b.intoDraft = .ok draft := by
  obtain ⟨_, hp, h⟩ := bind_eq_ok.mp h
  cases h
  rw [intoDraft, intoJsonOption_fromJsonOption hp]
  rfl

theorem BinaryHostHttpRequestDraft.intoDraft_fromDraft {draft : HostHttpRequestDraft}
    {b : BinaryHostHttpRequestDraft} (h : fromDraft draft = .ok b) : b.intoDraft = .ok draft := by
  obtain ⟨_, hb, h⟩ := bind_eq_ok.mp h
  obtain ⟨_, hc, h⟩ := bind_eq_ok.mp h
  cases h
  rw [intoDraft, intoJsonOption_fromJsonOption hb, BinaryJsonValue.intoValue_fromJson hc]
  rfl

theorem BinaryDbRecordDraft.intoDraft_fromDraft {draft : DbRecordDraft} {b : BinaryDbRecordDraft}
    (h : fromDraft draft = .ok b) : b.intoDraft = .ok draft := by
  obtain ⟨_, hv, h⟩ := bind_eq_ok.mp h
  cases h
  rw [intoDraft, BinaryJsonValue.intoValue_fromJson hv]
  rfl

theorem BinaryDbRecordMutationDraft.intoDraft_fromDraft {draft : DbRecordMutationDraft}
    {b : BinaryDbRecordMutationDraft} (h : fromDraft draft = .ok b) : b.intoDraft = .ok draft := by
  cases draft with
  | upsert record =>
    obtain ⟨_, hr, rfl⟩ := map_eq_ok.mp h
    rw [intoDraft, BinaryDbRecordDraft.intoDraft_fromDraft hr]
    rfl
  | delete record => cases h; rfl

@[simp] theorem BinaryClientMutationRecord.intoRecord_fromRecord (record : ClientMutationRecord) :
    (fromRecord record).intoRecord = record := by
  cases record <;> rfl

variable {lib}

theorem PostcardWalPayload.intoPayload_fromPayload (hlib : lib.Lawful) {payload : WalPayload}
    {p : PostcardWalPayload}
    (h : fromPayload lib payload = .ok p) : p.intoPayload lib = .ok payload := by
  cases payload with
  | userEventPublished event =>
    obtain ⟨_, he, h⟩ := bind_eq_ok.mp h
    cases h
    rw [intoPayload, BinaryUserEventDraft.intoDraft_fromDraft he]
    rfl
  | userUpserted user =>
    obtain ⟨_, hu, h⟩ := bind_eq_ok.mp h
    cases h
    rw [intoPayload, BinaryUserProfileDraft.intoDraft_fromDraft hu]
    rfl
  | recordUpserted record =>
    obtain ⟨_, hr, h⟩ := bind_eq_ok.mp h
    cases h
    rw [intoPayload, BinaryDbRecordDraft.intoDraft_fromDraft hr]
    rfl
  | recordTransactionCommitted operations clientMutationId =>
    obtain ⟨_, ho, h⟩ := bind_eq_ok.mp h
    cases h
    rw [intoPayload, mapM_mapM BinaryDbRecordMutationDraft.intoDraft_fromDraft ho]
    rfl
  | schemaApplied schema migration =>
    obtain ⟨_, hs, h⟩ := bind_eq_ok.mp h
    obtain ⟨_, hm, h⟩ := bind_eq_ok.mp h
    cases h
    rw [intoPayload, hlib.schema (withContext_eq_ok.mp hs), hlib.migration (withContext_eq_ok.mp hm)]
    rfl
  | actorReminderScheduled reminder =>
    obtain ⟨_, hr, h⟩ := bind_eq_ok.mp h
    cases h
    rw [intoPayload, BinaryActorReminderDraft.intoDraft_fromDraft hr]
    rfl
  | hostHttpRequested request =>
    obtain ⟨_, hr, h⟩ := bind_eq_ok.mp h
    cases h
    rw [intoPayload, BinaryHostHttpRequestDraft.intoDraft_fromDraft hr]
    rfl
  | clientMutationRecorded clientMutationId record =>
    cases h
    rw [intoPayload, BinaryClientMutationRecord.intoRecord_fromRecord]
  | messageCreated | objectCommitted | objectDeleted | recordDeleted | behaviorPublished
  | actorReminderCancelled | actorReminderFired | hostHttpCompleted => cases h; rfl

/-- A record that converts is the one its postcard form gives back. -/
theorem PostcardWalRecordFrame.intoRecord_fromRecord (hlib : lib.Lawful) {record : WalRecord}
    {frame : PostcardWalRecordFrame} (h : fromRecord lib record = .ok frame) :
    frame.intoRecord lib = .ok record := by
  obtain ⟨_, hp, h⟩ := bind_eq_ok.mp h
  cases h
  rw [intoRecord, PostcardWalPayload.intoPayload_fromPayload hlib hp]
  rfl

end NextDb.Wal
