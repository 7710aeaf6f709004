import NextDb.Actor.Scope
import NextDb.Api.ObjectPut
import NextDb.Api.RecordCommit

/-!
# Durable mutations

A durable write that carries a client mutation id looks the id up first. A mutation of its kind
under the id is its answer, and one of another kind a conflict; else it appends its record, and
answers with that. A batch of messages and a batch of records are made of several such writes.

* `Mutation.describes_of_payload`: the answer from a record describes the mutation that appended it.
* `committedMutationEntryFromWalRecord_eq_some`: under an id the answer from the record is
  remembered.
-/

namespace NextDb.Api

open List Option Except

open RecordCommit (RecordOperation nestedRecordKey)
open ObjectPut (ensureSafeObjectId)
open Records (nestedRecordTable)

/-- A durable write, with what it asks for. -/
inductive Mutation where
  | sendMessage (roomId userId body : String) (attachments : List String)
  | publishUserEvent (userId name : String) (payload : Value)
  | upsertUser (userId : String) (displayName : Option String) (metadata : Value)
  | putObject (objectId : Option String) (contentType : String) (body : Bytes)
  | deleteObject (objectId : String) (force : Bool)
  | commitRecord (operation : RecordOperation)
  | recordTransaction (operations : List RecordOperation)

inductive MutationKind where
  | messageCreated
  | userEventPublished
  | userUpserted
  | objectCommitted
  | objectDeleted
  | recordUpserted
  | recordDeleted
  | recordTransactionCommitted
deriving DecidableEq

def CommittedMutation.kind : CommittedMutation → MutationKind
  | .messageCreated _ => .messageCreated
  | .userEventPublished _ => .userEventPublished
  | .userUpserted _ => .userUpserted
  | .objectCommitted _ => .objectCommitted
  | .objectDeleted _ => .objectDeleted
  | .recordUpserted _ => .recordUpserted
  | .recordDeleted _ => .recordDeleted
  | .recordTransactionCommitted _ => .recordTransactionCommitted

def recordKind : RecordOperation → MutationKind
  | .upsert .. | .nestedUpsert .. => .recordUpserted
  | .delete .. | .nestedDelete .. => .recordDeleted

def Mutation.kind : Mutation → MutationKind
  | .sendMessage .. => .messageCreated
  | .publishUserEvent .. => .userEventPublished
  | .upsertUser .. => .userUpserted
  | .putObject .. => .objectCommitted
  | .deleteObject .. => .objectDeleted
  | .commitRecord operation => recordKind operation
  | .recordTransaction _ => .recordTransactionCommitted

/-- What a write answers from the mutation found under its id, if one is. -/
def replay (kind : MutationKind) :
    Option CommittedMutation → Except ApiError (Option CommittedMutation)
  | none => .ok none
  | some existing =>
    if existing.kind = kind then .ok (some existing)
    else .error (.conflict "clientMutationId was already used for a different mutation kind")

/-! ## What is appended -/

variable (sha256 : Bytes → Bytes)

/-- What the server gives a write: a fresh id, the clock, the stored objects and records, and the
profile of its user. -/
structure CommitContext where
  id : String
  nowMs : Nat
  objects : String → Option ObjectMetadata
  present : String → String → Bool
  user : Option UserProfile

def objectRefOf (metadata : ObjectMetadata) : ObjectRef :=
  ⟨metadata.id, metadata.path, metadata.contentType, metadata.byteSize, metadata.sha256⟩

def resolveObjectRefsFrom (objects : String → Option ObjectMetadata) :
    List String → List String → Except ApiError (List ObjectRef)
  | _, [] => .ok []
  | seen, objectId :: attachments =>
    if !ensureSafeObjectId objectId then .error (.badRequest "invalid attachment object id")
    else if seen.contains objectId then resolveObjectRefsFrom objects seen attachments
    else
      match objects objectId with
      | none => .error (.notFound "attachment object not found")
      | some metadata =>
        (resolveObjectRefsFrom objects (objectId :: seen) attachments).map (objectRefOf metadata :: ·)

def resolveObjectRefs (objects : String → Option ObjectMetadata) (attachments : List String) :
    Except ApiError (List ObjectRef) :=
  resolveObjectRefsFrom objects [] attachments

def emptyObject : Value := ⟨.object [], ⟨List.Pairwise.nil, trivial⟩⟩

/-- The name that is kept of a profile. -/
def keptDisplayName (displayName : Option String) : Option String :=
  (displayName.map trim).filter fun name => !name.isEmpty

def keptMetadata (metadata : Value) : Value :=
  match metadata.json with
  | .null => emptyObject
  | _ => metadata

/-- `put_with_id`. -/
def putMetadata (context : CommitContext) (objectId contentType : String) (body : Bytes) :
    ObjectMetadata :=
  (ObjectPut.Config.mk 0 sha256).metadataOf ⟨objectId, contentType, body, none, .started, false⟩ context.nowMs

/-- The table, the key and the value of an operation; a delete has none. -/
structure RecordChange where
  table : String
  key : String
  value : Option Value

def operationChange : RecordOperation → RecordChange
  | .upsert table key value => ⟨table, key, some value⟩
  | .delete table key => ⟨table, key, none⟩
  | .nestedUpsert table parentKey nested nestedKey value =>
    ⟨nestedRecordTable table nested, nestedRecordKey parentKey nestedKey, some value⟩
  | .nestedDelete table parentKey nested nestedKey =>
    ⟨nestedRecordTable table nested, nestedRecordKey parentKey nestedKey, none⟩

/-- An upsert, or a delete of a record that there is. -/
def CommitContext.takes (context : CommitContext) (operation : RecordOperation) : Bool :=
  let change := operationChange operation
  change.value.isSome || context.present change.table change.key

/-- The record of a write. One that finds nothing to delete appends one only for its id. -/
def Mutation.payload (context : CommitContext) (clientMutationId : Option String) :
    Mutation → Except ApiError (Option WalPayload)
  | .sendMessage roomId userId body attachments => do
    let attachments ← resolveObjectRefs context.objects attachments
    return some (.messageCreated ⟨context.id, clientMutationId, roomId, userId, body, attachments,
    context.nowMs,
      s!"rooms/{roomId}/messages/{context.id}"⟩)
  | .publishUserEvent userId name payload =>
    .ok (some (.userEventPublished ⟨context.id, clientMutationId, userId, name, payload,
    context.nowMs,
      s!"users/{userId}/events/{context.id}"⟩))
  | .upsertUser userId displayName metadata =>
    .ok (some (.userUpserted ⟨userId, clientMutationId, keptDisplayName displayName,
    keptMetadata metadata,
      (context.user.map (·.createdAtMs)).getD context.nowMs, context.nowMs, s!"users/{userId}"⟩))
  | .putObject objectId contentType body =>
    let objectId := objectId.getD context.id
    if (context.objects objectId).isSome then .error (.conflict "object id already exists")
    else .ok (some (.objectCommitted (putMetadata sha256 context objectId contentType body) clientMutationId))
  | .deleteObject objectId force =>
    let path := s!"objects/{objectId}"
    if (context.objects objectId).isSome then
      .ok (some (.objectDeleted objectId context.nowMs path force clientMutationId))
    else .ok (clientMutationId.map fun id => .clientMutationRecorded id (.objectDeleteNoop objectId path))
  | .commitRecord operation =>
    match operation.mutation context.nowMs clientMutationId with
    | .upsert record => .ok (some (.recordUpserted record))
    | .delete record =>
      if context.present record.table record.key then .ok (some (.recordDeleted record))
      else .ok (clientMutationId.map fun id =>
        .clientMutationRecorded id (.recordDeleteNoop record.table record.key record.path))
  | .recordTransaction operations =>
    match (operations.filter context.takes).map (·.mutation context.nowMs none) with
    | [] => .ok (clientMutationId.map fun id => .clientMutationRecorded id .recordTransactionNoop)
    | operations => .ok (some (.recordTransactionCommitted operations clientMutationId))

/-- What a write answers from its record. -/
def committedResponse (record : WalRecord) : Option CommittedMutation :=
  match record.payload with
  | .messageCreated message => some (.messageCreated (message.intoMessage record.lsn))
  | .userEventPublished event => some (.userEventPublished (event.intoEvent record.lsn))
  | .userUpserted user => some (.userUpserted (user.intoProfile record.lsn))
  | .objectCommitted object _ => some (.objectCommitted object)
  | .objectDeleted objectId deletedAtMs path _ _ =>
    some (.objectDeleted ⟨objectId, true, record.lsn, some deletedAtMs, path⟩)
  | .recordUpserted draft => some (.recordUpserted (draft.intoRecord record.lsn))
  | .recordDeleted draft =>
    some (.recordDeleted ⟨draft.table, draft.key, true, record.lsn, some draft.deletedAtMs, draft.path⟩)
  | .recordTransactionCommitted operations _ =>
    some (.recordTransactionCommitted ⟨record.lsn, recordTransactionResponseOperations operations record.lsn⟩)
  | .clientMutationRecorded _ (.recordDeleteNoop table key path) =>
    some (.recordDeleted ⟨table, key, false, record.lsn, none, path⟩)
  | .clientMutationRecorded _ .recordTransactionNoop => some (.recordTransactionCommitted ⟨record.lsn, []⟩)
  | .clientMutationRecorded _ (.objectDeleteNoop objectId path) =>
    some (.objectDeleted ⟨objectId, false, record.lsn, none, path⟩)
  | _ => none

variable {record : WalRecord} {mutation : CommittedMutation} {clientMutationId : Option String}

/-- Under the id of a record what its write answers is remembered. -/
theorem committedMutationEntryFromWalRecord_eq_some {id : String} :
    committedMutationEntryFromWalRecord record =
    some (id, mutation) ↔ clientMutationIdOf record = some id ∧
    committedResponse record = some mutation := by
  unfold clientMutationIdOf committedMutationEntryFromWalRecord committedResponse
  cases record.payload with
  | clientMutationRecorded id' noop =>
    cases noop with
    | recordDeleteNoop | recordTransactionNoop | objectDeleteNoop => simp
  | _ => simp

/-- What is remembered after a record was remembered before it, or is of the record. -/
theorem noteCommittedMutationRecord_eq_some {clientMutations : BTreeMap String CommittedMutation}
    {id : String} (h : (noteCommittedMutationRecord clientMutations record)[id]? = some mutation) :
    clientMutations[id]? = some mutation ∨ committedMutationEntryFromWalRecord record =
    some (id, mutation) := by
  by_cases hid : clientMutationIdOf record = some id
  · obtain ⟨entry, hentry, rfl⟩ := map_eq_some_iff.mp hid
    have hself := @noteCommittedMutationRecord_self clientMutations record entry.1 entry.2 hentry
    rw [some.inj (h.symm.trans hself)]
    exact .inr hentry
  · rw [noteCommittedMutationRecord_of_ne hid] at h
    exact .inl h

/-- What is remembered of a log is of one of its records. -/
theorem clientMutationIndexFromWalRecords_eq_some {records : List WalRecord} {id : String}
    (h : (clientMutationIndexFromWalRecords records)[id]? = some mutation) :
    ∃ record ∈ records, committedMutationEntryFromWalRecord record = some (id, mutation) := by
  suffices hfold : ∀ index : BTreeMap String CommittedMutation,
      (records.foldl noteCommittedMutationRecord index)[id]? = some mutation → index[id]? = some mutation ∨
        ∃ record ∈ records, committedMutationEntryFromWalRecord record = some (id, mutation) by
    refine (hfold ∅ h).resolve_left fun hnone => ?_
    rw [Std.ExtTreeMap.getElem?_empty] at hnone
    cases hnone
  clear h
  induction records with
  | nil => exact fun _ h => .inl h
  | cons record records ih =>
    intro index h
    rcases ih _ h with hnoted | ⟨other, hother, hentry⟩
    · exact (noteCommittedMutationRecord_eq_some hnoted).imp_right fun hentry => ⟨record, mem_cons_self, hentry⟩
    · exact .inr ⟨other, mem_cons_of_mem _ hother, hentry⟩

/-! ## What an answer describes -/

def responseChange : RecordTransactionOperationResponse → RecordChange
  | .recordUpserted record => ⟨record.table, record.key, some record.value⟩
  | .recordDeleted table key _ _ _ => ⟨table, key, none⟩

/-- An answer has the user, the target and the content of a mutation. A transaction is answered
without the deletes that found no record. -/
def CommittedMutation.Describes : CommittedMutation → Mutation → Prop
  | .messageCreated message, .sendMessage roomId userId body attachments =>
    message.roomId = roomId ∧ message.senderId = userId ∧ message.body = body ∧
      ∃ objects, resolveObjectRefs objects attachments = .ok message.attachments
  | .userEventPublished event, .publishUserEvent userId name payload =>
    event.userId = userId ∧ event.name = name ∧ event.payload = payload
  | .userUpserted user, .upsertUser userId displayName metadata =>
    user.userId = userId ∧ user.displayName = keptDisplayName displayName ∧
    user.metadata = keptMetadata metadata
  | .objectCommitted object, .putObject objectId contentType body =>
    (∀ id, objectId = some id → object.id = id) ∧ object.contentType = contentType ∧
      object.byteSize = body.length ∧ object.sha256 = hexLower (sha256 body)
  | .objectDeleted response, .deleteObject objectId _ => response.objectId = objectId
  | .recordUpserted record, .commitRecord operation =>
    operationChange operation = ⟨record.table, record.key, some record.value⟩
  | .recordDeleted response, .commitRecord operation =>
    operationChange operation = ⟨response.table, response.key, none⟩
  | .recordTransactionCommitted response, .recordTransaction operations =>
    ∃ takes : RecordOperation → Bool,
      (∀ operation ∈ operations, (operationChange operation).value.isSome → takes operation) ∧
      response.operations.map responseChange = (operations.filter takes).map operationChange
  | _, _ => False

variable {sha256}

theorem CommittedMutation.Describes.kind_eq {response : CommittedMutation} {mutation : Mutation}
    (h : response.Describes sha256 mutation) : response.kind = mutation.kind := by
  cases response with
  | recordUpserted record =>
    cases mutation with
    | commitRecord operation =>
      have h : operationChange operation = ⟨record.table, record.key, some record.value⟩ := h
      cases operation with
      | upsert | nestedUpsert => rfl
      | delete | nestedDelete => cases congrArg RecordChange.value h
    | _ => exact h.elim
  | recordDeleted response =>
    cases mutation with
    | commitRecord operation =>
      have h : operationChange operation = ⟨response.table, response.key, none⟩ := h
      cases operation with
      | upsert | nestedUpsert => cases congrArg RecordChange.value h
      | delete | nestedDelete => rfl
    | _ => exact h.elim
  | _ =>
    cases mutation with
    | _ => first | rfl | exact h.elim

variable {operation : RecordOperation} {timestampMs : Nat} {context : CommitContext}

/-- What is logged of an operation changes what the operation does. -/
theorem mutation_upsert {draft : DbRecordDraft}
    (h : operation.mutation timestampMs clientMutationId = .upsert draft)
    : operationChange operation =
    ⟨draft.table, draft.key, some draft.value⟩ ∧ draft.clientMutationId = clientMutationId := by
  cases operation with
  | upsert | nestedUpsert =>
    cases h
    exact ⟨rfl, rfl⟩
  | delete | nestedDelete => cases h

theorem mutation_delete {draft : DbRecordDeleteDraft}
    (h : operation.mutation timestampMs clientMutationId = .delete draft) :
    operationChange operation = ⟨draft.table, draft.key, none⟩ ∧
    draft.clientMutationId = clientMutationId := by
  cases operation with
  | upsert | nestedUpsert => cases h
  | delete | nestedDelete =>
    cases h
    exact ⟨rfl, rfl⟩

theorem responseChange_mutation (operations : List RecordOperation) (timestampMs lsn : Nat) :
    (recordTransactionResponseOperations (operations.map (·.mutation timestampMs none)) lsn).map responseChange =
    operations.map operationChange := by
  rw [recordTransactionResponseOperations, List.map_map, List.map_map]
  refine List.map_congr_left fun operation _ => ?_
  cases operation with
  | upsert | nestedUpsert | delete | nestedDelete => rfl

theorem map_fst_pair {α β : Type} {o : Option α} {b : β} : (o.map (·, b)).map Prod.fst = o := by
  cases o with
  | none | some => rfl

/-- What a write answers from the record that it appends is about the write. -/
theorem Mutation.describes_of_payload {mutation : Mutation}
    (h : mutation.payload sha256 context clientMutationId = .ok (some record.payload)) :
    clientMutationIdOf record =
    clientMutationId ∧ ∃ response, committedResponse record = some response ∧
    response.Describes sha256 mutation := by
  unfold clientMutationIdOf committedMutationEntryFromWalRecord committedResponse
  cases mutation with
  | sendMessage roomId userId body attachments =>
    obtain ⟨refs, hrefs, hpayload⟩ := bind_eq_ok.mp h
    rw [← some.inj (ok.inj hpayload)]
    exact ⟨map_fst_pair, _, rfl, rfl, rfl, rfl, context.objects, hrefs⟩
  | publishUserEvent | upsertUser =>
    rw [← some.inj (ok.inj h)]
    exact ⟨map_fst_pair, _, rfl, rfl, rfl, rfl⟩
  | putObject objectId contentType body =>
    simp only [Mutation.payload] at h
    split at h
    · cases h
    · rw [← some.inj (ok.inj h)]
      refine ⟨map_fst_pair, _, rfl, fun id hid => ?_, rfl, rfl, rfl⟩
      rw [hid]
      rfl
  | deleteObject objectId force =>
    simp only [Mutation.payload] at h
    split at h
    · rw [← some.inj (ok.inj h)]
      exact ⟨map_fst_pair, _, rfl, rfl⟩
    · obtain ⟨id, rfl, hpayload⟩ := map_eq_some_iff.mp (ok.inj h)
      rw [← hpayload]
      exact ⟨rfl, _, rfl, rfl⟩
  | commitRecord operation =>
    simp only [Mutation.payload] at h
    split at h
    · next draft hdraft =>
      obtain ⟨hchange, hid⟩ := mutation_upsert hdraft
      rw [← some.inj (ok.inj h)]
      exact ⟨map_fst_pair.trans hid, _, rfl, hchange⟩
    · next draft hdraft =>
      obtain ⟨hchange, hid⟩ := mutation_delete hdraft
      split at h
      · rw [← some.inj (ok.inj h)]
        exact ⟨map_fst_pair.trans hid, _, rfl, hchange⟩
      · obtain ⟨id, rfl, hpayload⟩ := map_eq_some_iff.mp (ok.inj h)
        rw [← hpayload]
        exact ⟨rfl, _, rfl, hchange⟩
  | recordTransaction operations =>
    have htakes : ∀ operation ∈ operations, (operationChange operation).value.isSome → context.takes operation := by
      intro operation _ hsome
      exact Bool.or_eq_true_iff.mpr (.inl hsome)
    simp only [Mutation.payload] at h
    split at h
    · next hnone =>
      obtain ⟨id, rfl, hpayload⟩ := map_eq_some_iff.mp (ok.inj h)
      rw [← hpayload]
      refine ⟨rfl, _, rfl, context.takes, htakes, ?_⟩
      rw [map_eq_nil_iff.mp hnone]
      rfl
    · rw [← some.inj (ok.inj h)]
      exact ⟨map_fst_pair, _, rfl, context.takes, htakes, responseChange_mutation _ _ _⟩

theorem Mutation.payload_ne_none {mutation : Mutation} {id : String} :
    mutation.payload sha256 context (some id) ≠ .ok none := by
  intro h
  cases mutation with
  | sendMessage roomId userId body attachments =>
    obtain ⟨refs, -, hpayload⟩ := bind_eq_ok.mp h
    cases hpayload
  | publishUserEvent | upsertUser => cases h
  | putObject | deleteObject | recordTransaction =>
    simp only [Mutation.payload] at h
    split at h
    · cases h
    · cases h
  | commitRecord operation =>
    simp only [Mutation.payload] at h
    split at h
    · cases h
    · split at h
      · cases h
      · cases h

end NextDb.Api
