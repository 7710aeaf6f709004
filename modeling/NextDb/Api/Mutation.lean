import NextDb.Model.Record

/-!
# Client mutations

A mutation may carry an id of its client. `committedMutationEntryFromWalRecord`
is what the server remembers of a log record under that id, to answer a
repetition of the mutation.
-/

namespace NextDb.Api

structure ApiError where
  status : Nat
  message : String
  details : Option Value

def ApiError.badRequest (message : String) : ApiError := ⟨400, message, none⟩
def ApiError.unauthorized (message : String) : ApiError := ⟨401, message, none⟩
def ApiError.notFound (message : String) : ApiError := ⟨404, message, none⟩
def ApiError.conflict (message : String) : ApiError := ⟨409, message, none⟩
def ApiError.payloadTooLarge (message : String) : ApiError := ⟨413, message, none⟩
def ApiError.locked (message : String) : ApiError := ⟨423, message, none⟩
def ApiError.internal (err : Error) : ApiError := ⟨500, err.message, none⟩

def ApiError.ownerConflict (shard : Nat) (owner ownerUrl : String) : ApiError where
  status := 409
  message := s!"shard {shard} is owned by {owner}; retry against {ownerUrl}"
  details := some
    { json := .object [("owner", .string owner), ("ownerUrl", .string ownerUrl),
        ("shard", .number (.posInt (UInt64.ofNat shard)))]
      wellFormed := ⟨List.pairwise_map.mp
          (show (["owner", "ownerUrl", "shard"] : List String).Pairwise (· < ·) by decide),
        trivial, trivial, trivial, trivial⟩ }

structure DeleteObjectResponse where
  objectId : String
  deleted : Bool
  lsn : Nat
  deletedAtMs : Option Nat
  path : String

structure DeleteRecordResponse where
  table : String
  key : String
  deleted : Bool
  lsn : Nat
  deletedAtMs : Option Nat
  path : String

inductive RecordTransactionOperationResponse where
  | recordUpserted (record : DbRecord)
  | recordDeleted (table key : String) (deletedAtMs lsn : Nat) (path : String)

structure RecordTransactionResponse where
  lsn : Nat
  operations : List RecordTransactionOperationResponse

inductive CommittedMutation where
  | messageCreated (message : Message)
  | userEventPublished (event : UserEvent)
  | userUpserted (user : UserProfile)
  | objectCommitted (object : ObjectMetadata)
  | objectDeleted (response : DeleteObjectResponse)
  | recordUpserted (record : DbRecord)
  | recordDeleted (response : DeleteRecordResponse)
  | recordTransactionCommitted (response : RecordTransactionResponse)

def recordTransactionResponseOperations (operations : List DbRecordMutationDraft) (lsn : Nat) :
    List RecordTransactionOperationResponse :=
  operations.map fun
    | .upsert record => .recordUpserted (record.intoRecord lsn)
    | .delete record => .recordDeleted record.table record.key record.deletedAtMs lsn record.path

def normalizeClientMutationId (value : Option String) : Except ApiError (Option String) :=
  match value.map trim with
  | none => .ok none
  | some value =>
    if value.isEmpty then .ok none
    else if value.utf8ByteSize > 160 || !value.toList.all fun char =>
        char.isAlphanum || char = '-' || char = '_' || char = ':' || char = '.' then
      .error (.badRequest "invalid clientMutationId")
    else .ok (some value)

def findCommittedMutation (clientMutations : BTreeMap String CommittedMutation)
    (clientMutationId : Option String) : Option CommittedMutation :=
  clientMutationId.bind (clientMutations[·]?)

def committedMutationEntryFromWalRecord (walRecord : WalRecord) :
    Option (String × CommittedMutation) :=
  match walRecord.payload with
  | .messageCreated message =>
    message.clientMutationId.map (·, .messageCreated (message.intoMessage walRecord.lsn))
  | .userEventPublished event =>
    event.clientMutationId.map (·, .userEventPublished (event.intoEvent walRecord.lsn))
  | .userUpserted user =>
    user.clientMutationId.map (·, .userUpserted (user.intoProfile walRecord.lsn))
  | .objectCommitted object clientMutationId => clientMutationId.map (·, .objectCommitted object)
  | .objectDeleted objectId deletedAtMs path _ clientMutationId =>
    clientMutationId.map (·, .objectDeleted ⟨objectId, true, walRecord.lsn, some deletedAtMs, path⟩)
  | .recordUpserted record =>
    record.clientMutationId.map (·, .recordUpserted (record.intoRecord walRecord.lsn))
  | .recordDeleted record =>
    record.clientMutationId.map (·, .recordDeleted
      ⟨record.table, record.key, true, walRecord.lsn, some record.deletedAtMs, record.path⟩)
  | .recordTransactionCommitted operations clientMutationId =>
    clientMutationId.map (·, .recordTransactionCommitted
      ⟨walRecord.lsn, recordTransactionResponseOperations operations walRecord.lsn⟩)
  | .clientMutationRecorded clientMutationId record =>
    some (clientMutationId,
      match record with
      | .recordDeleteNoop table key path =>
        .recordDeleted ⟨table, key, false, walRecord.lsn, none, path⟩
      | .recordTransactionNoop => .recordTransactionCommitted ⟨walRecord.lsn, []⟩
      | .objectDeleteNoop objectId path =>
        .objectDeleted ⟨objectId, false, walRecord.lsn, none, path⟩)
  | .schemaApplied .. | .behaviorPublished .. | .actorReminderScheduled ..
  | .actorReminderCancelled .. | .actorReminderFired .. | .hostHttpRequested ..
  | .hostHttpCompleted .. => none

/-- The client mutation id of a record. -/
def clientMutationIdOf (record : WalRecord) : Option String :=
  (committedMutationEntryFromWalRecord record).map Prod.fst

def noteCommittedMutationRecord (clientMutations : BTreeMap String CommittedMutation)
    (record : WalRecord) : BTreeMap String CommittedMutation :=
  match committedMutationEntryFromWalRecord record with
  | none => clientMutations
  | some (clientMutationId, mutation) => clientMutations.insert clientMutationId mutation

def clientMutationIndexFromWalRecords (records : List WalRecord) :
    BTreeMap String CommittedMutation :=
  records.foldl noteCommittedMutationRecord ∅

theorem noteCommittedMutationRecord_self {clientMutations : BTreeMap String CommittedMutation}
    {record : WalRecord} {id : String} {mutation : CommittedMutation}
    (h : committedMutationEntryFromWalRecord record = some (id, mutation)) :
    (noteCommittedMutationRecord clientMutations record)[id]? = some mutation := by
  rw [noteCommittedMutationRecord, h]
  exact Std.ExtTreeMap.getElem?_insert_self

theorem noteCommittedMutationRecord_of_ne {clientMutations : BTreeMap String CommittedMutation}
    {record : WalRecord} {id : String} (h : clientMutationIdOf record ≠ some id) :
    (noteCommittedMutationRecord clientMutations record)[id]? = clientMutations[id]? := by
  unfold noteCommittedMutationRecord
  unfold clientMutationIdOf at h
  cases he : committedMutationEntryFromWalRecord record with
  | none => rfl
  | some entry =>
    rw [he, Option.map_some, Ne, Option.some.injEq] at h
    show (clientMutations.insert entry.1 entry.2)[id]? = _
    rw [Std.ExtTreeMap.getElem?_insert, if_neg (by simpa using h)]

end NextDb.Api
