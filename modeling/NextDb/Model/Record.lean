import NextDb.Model.Json
import NextDb.Model.Schema

/-!
# Log records

`WalRecord` is one entry of the write-ahead log: its sequence number (LSN), the
shard and the epoch it was written in, the durability it was written with and
one of sixteen payloads. The drafts are what a payload holds; `intoMessage` and
its siblings give the value a draft becomes at an LSN.
-/

namespace NextDb

structure ObjectMetadata where
  id : String
  path : String
  contentType : String
  byteSize : Nat
  sha256 : String
  createdAtMs : Nat
deriving DecidableEq

structure ObjectRef where
  id : String
  path : String
  contentType : String
  byteSize : Nat
  sha256 : String
deriving DecidableEq

structure Message where
  id : String
  roomId : String
  senderId : String
  body : String
  attachments : List ObjectRef
  createdAtMs : Nat
  lsn : Nat
  path : String
deriving DecidableEq

structure MessageDraft where
  id : String
  clientMutationId : Option String
  roomId : String
  senderId : String
  body : String
  attachments : List ObjectRef
  createdAtMs : Nat
  path : String
deriving DecidableEq

structure UserEventDraft where
  id : String
  clientMutationId : Option String
  userId : String
  name : String
  payload : Value
  createdAtMs : Nat
  path : String

structure UserEvent where
  id : String
  userId : String
  name : String
  payload : Value
  createdAtMs : Nat
  lsn : Nat
  path : String

structure UserProfileDraft where
  userId : String
  clientMutationId : Option String
  displayName : Option String
  metadata : Value
  createdAtMs : Nat
  updatedAtMs : Nat
  path : String

structure UserProfile where
  userId : String
  displayName : Option String
  metadata : Value
  createdAtMs : Nat
  updatedAtMs : Nat
  lsn : Nat
  path : String

structure DbRecord where
  table : String
  key : String
  value : Value
  updatedAtMs : Nat
  lsn : Nat
  path : String

structure DbRecordDraft where
  table : String
  key : String
  value : Value
  updatedAtMs : Nat
  path : String
  clientMutationId : Option String

structure DbRecordDeleteDraft where
  table : String
  key : String
  deletedAtMs : Nat
  path : String
  clientMutationId : Option String
deriving DecidableEq

inductive DbRecordMutationDraft where
  | upsert (record : DbRecordDraft)
  | delete (record : DbRecordDeleteDraft)

inductive ClientMutationRecord where
  | recordDeleteNoop (table key path : String)
  | recordTransactionNoop
  | objectDeleteNoop (objectId path : String)
deriving DecidableEq

structure BehaviorPublishedManifest where
  name : String
  version : String
  modulePath : String
  mutations : List String
deriving DecidableEq

structure BehaviorPublishedDraft where
  epoch : Nat
  loaded : Nat
  manifests : List BehaviorPublishedManifest
  publishedAtMs : Nat
deriving DecidableEq

structure ActorReminderDraft where
  actorKind : String
  actorKey : String
  reminderId : String
  dueAtMs : Nat
  payload : Option Value

structure HostHttpRequestDraft where
  requestId : String
  method : String
  url : String
  headers : BTreeMap String String
  body : Option Value
  bodyBase64 : Option String
  timeoutMs : Nat
  actorKind : String
  actorKey : String
  reminderId : String
  continuation : Value
  requestedAtMs : Nat

inductive Durability where
  | strict
  | relaxed
  | volatile
deriving DecidableEq

inductive WalPayload where
  | messageCreated (message : MessageDraft)
  | userEventPublished (event : UserEventDraft)
  | userUpserted (user : UserProfileDraft)
  | objectCommitted (object : ObjectMetadata) (clientMutationId : Option String)
  | objectDeleted (objectId : String) (deletedAtMs : Nat) (path : String) (force : Bool)
      (clientMutationId : Option String)
  | recordUpserted (record : DbRecordDraft)
  | recordDeleted (record : DbRecordDeleteDraft)
  | recordTransactionCommitted (operations : List DbRecordMutationDraft)
      (clientMutationId : Option String)
  | schemaApplied (schema : DatabaseSchema) (migration : SchemaMigrationPlan)
  | behaviorPublished (publish : BehaviorPublishedDraft)
  | actorReminderScheduled (reminder : ActorReminderDraft)
  | actorReminderCancelled (actorKind actorKey reminderId : String) (cancelledAtMs : Nat)
  | actorReminderFired (actorKind actorKey reminderId : String) (dueAtMs firedAtMs : Nat)
  | hostHttpRequested (request : HostHttpRequestDraft)
  | hostHttpCompleted (requestId : String) (completedAtMs : Nat)
  | clientMutationRecorded (clientMutationId : String) (record : ClientMutationRecord)

structure WalRecord where
  lsn : Nat
  shard : Nat
  shardEpoch : Nat
  ownerNodeId : String
  timestampMs : Nat
  schemaVersion : Nat
  durability : Durability
  payload : WalPayload
  checksum : Option String

def DbRecordDraft.intoRecord (draft : DbRecordDraft) (lsn : Nat) : DbRecord where
  table := draft.table
  key := draft.key
  value := draft.value
  updatedAtMs := draft.updatedAtMs
  lsn := lsn
  path := draft.path

def MessageDraft.intoMessage (draft : MessageDraft) (lsn : Nat) : Message where
  id := draft.id
  roomId := draft.roomId
  senderId := draft.senderId
  body := draft.body
  attachments := draft.attachments
  createdAtMs := draft.createdAtMs
  lsn := lsn
  path := draft.path

def UserEventDraft.intoEvent (draft : UserEventDraft) (lsn : Nat) : UserEvent where
  id := draft.id
  userId := draft.userId
  name := draft.name
  payload := draft.payload
  createdAtMs := draft.createdAtMs
  lsn
  path := draft.path

def UserProfileDraft.intoProfile (draft : UserProfileDraft) (lsn : Nat) : UserProfile where
  userId := draft.userId
  displayName := draft.displayName
  metadata := draft.metadata
  createdAtMs := draft.createdAtMs
  updatedAtMs := draft.updatedAtMs
  lsn
  path := draft.path

/-- The fields of a record that its checksum is taken over. -/
structure WalRecordChecksumMaterial where
  lsn : Nat
  shard : Nat
  shardEpoch : Nat
  ownerNodeId : String
  timestampMs : Nat
  schemaVersion : Nat
  durability : Durability
  payload : WalPayload

def WalRecord.checksumMaterial (record : WalRecord) : WalRecordChecksumMaterial where
  lsn := record.lsn
  shard := record.shard
  shardEpoch := record.shardEpoch
  ownerNodeId := record.ownerNodeId
  timestampMs := record.timestampMs
  schemaVersion := record.schemaVersion
  durability := record.durability
  payload := record.payload

inductive WalChecksumStatus where
  | missing
  | valid
  | mismatch (expected : String)
deriving DecidableEq

end NextDb
