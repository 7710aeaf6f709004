import NextDb.Api.BehaviorReads
import NextDb.Api.ObjectPut

/-!
# The context of a behavior

What a read plan asks for is read from the database into the context that the behavior is invoked
with. Records, messages and objects are read where they are stored, audit traces and replays from
the log.

* `hydrate_agrees`: databases that agree on what is in the scopes of a manifest give one context.
* `traces_show_other_table`: a trace of a record shows all of a transaction that changed it, and a
  trace of a path is not checked.
-/

namespace NextDb.Api.BehaviorContext

open Audit BehaviorReads
open Messages (normalizeLimit)
open ObjectPut (ensureSafeObjectId)
open ObjectRefIndex (ensureSafeRecordComponent)
open RecordCommit (nestedRecordKey)
open Records (nestedRecordTable)

/-! ## The database -/

/-- What a behavior may read of the server. -/
structure Database where
  schema : DatabaseSchema
  /-- `record_hot.get`. -/
  recordHot : String → String → Option (Option DbRecord)
  durableDeleteLsn : String → String → Option Nat
  isWindowedTable : String → Bool
  records : String → String → Option DbRecord
  /-- `actors.latest_messages` and `chat_log.latest` of a room, with no cursor. -/
  hotMessages : String → Nat → List Message
  chatLog : String → Nat → List Message
  objects : String → Option (ObjectMetadata × Bytes)
  wal : List WalRecord
  ascending : wal.Pairwise fun a b => a.lsn < b.lsn

structure ConnectionSession where
  sessionId : String
  userId : Option String
  transport : ConnectionTransport

/-- What a context has besides the database: channels, connections and the request itself. -/
structure Runtime where
  members : String → List Value
  states : String → Option Value
  sessions : Option String → Option ConnectionTransport → List ConnectionSession
  requestContext : Value

variable (db : Database)

def validateTablePath (table : String) : Except ApiError Unit :=
  if !ensureSafeRecordComponent table then .error (.badRequest "invalid table name")
  else if (db.schema.tables[table]?).isNone then .error (.notFound "table not found")
  else .ok ()

def validateRecordPath (table key : String) : Except ApiError Unit := do
  validateTablePath db table
  if !ensureSafeRecordComponent key then .error (.badRequest "invalid record key") else .ok ()

def validateNestedTablePath (table parentKey nested : String) : Except ApiError Unit := do
  validateTablePath db table
  if !ensureSafeRecordComponent parentKey then .error (.badRequest "invalid parent record key")
  else if !ensureSafeRecordComponent nested then .error (.badRequest "invalid nested table name")
  else if (db.schema.tables[table]?.bind (·.nested[nested]?)).isNone then
    .error (.notFound "nested table not found")
  else .ok ()

def validateNestedRecordPath (table parentKey nested nestedKey : String) :
    Except ApiError Unit := do
  validateNestedTablePath db table parentKey nested
  if !ensureSafeRecordComponent nestedKey then .error (.badRequest "invalid nested record key") else .ok ()

def getRecordFromLiveOrDisk (table key : String) : Option DbRecord :=
  match db.recordHot table key with
  | some (some record) => some record
  | some none =>
    if (db.durableDeleteLsn table key).isSome then none
    else if db.isWindowedTable table then db.records table key
    else none
  | none => db.records table key

/-! ## Hydration -/

structure RecordContext where
  table : String
  key : String
  record : Option DbRecord

structure NestedRecordContext where
  read : BehaviorNestedRecordRead
  logicalTable : String
  logicalKey : String
  record : Option DbRecord

structure MessagesContext where
  roomId : String
  messages : List Message

structure ObjectContext where
  objectId : String
  object : Option ObjectMetadata

/-- The body is sent as base64. -/
structure ObjectBodyContext where
  objectId : String
  object : Option ObjectMetadata
  body : Option Bytes

structure SessionsContext where
  userId : Option String
  sessionId : Option String
  transport : Option ConnectionTransport
  sessions : List ConnectionSession

structure HydratedContext where
  records : List RecordContext
  nestedRecords : List NestedRecordContext
  latestMessages : List MessagesContext
  objects : List ObjectContext
  objectBodies : List ObjectBodyContext
  realtimeChannelMembers : List (String × List Value)
  realtimeChannelStates : List (String × Option Value)
  connectionSessions : List SessionsContext
  auditTraces : List AuditTraceResponse
  auditReplays : List AuditReplayResponse
  requestContext : Value

def hydrateBehaviorRecord (read : BehaviorRecordRead) : Except ApiError RecordContext := do
  validateRecordPath db read.table read.key
  return ⟨read.table, read.key, getRecordFromLiveOrDisk db read.table read.key⟩

def hydrateBehaviorNestedRecord (read : BehaviorNestedRecordRead) :
    Except ApiError NestedRecordContext := do
  validateNestedRecordPath db read.table read.parentKey read.nested read.nestedKey
  let logicalTable := nestedRecordTable read.table read.nested
  let logicalKey := nestedRecordKey read.parentKey read.nestedKey
  return ⟨read, logicalTable, logicalKey, getRecordFromLiveOrDisk db logicalTable logicalKey⟩

def hydrateBehaviorLatestMessages (read : BehaviorLatestMessagesRead) : MessagesContext :=
  let limit := normalizeLimit read.limit
  let hot := db.hotMessages read.roomId limit
  ⟨read.roomId, if limit ≤ hot.length then hot else db.chatLog read.roomId limit⟩

def hydrateBehaviorObject (db : Database) (objectId : String) : Except ApiError ObjectContext :=
  if !ensureSafeObjectId objectId then .error (.badRequest "invalid object id")
  else .ok ⟨objectId, (db.objects objectId).map Prod.fst⟩

def hydrateBehaviorObjectBody (db : Database) (objectId : String) :
    Except ApiError ObjectBodyContext :=
  if !ensureSafeObjectId objectId then .error (.badRequest "invalid object id")
  else .ok ⟨objectId, (db.objects objectId).map Prod.fst, (db.objects objectId).map Prod.snd⟩

def hydrateBehaviorRealtimeChannel {α : Type} (read : String → α) (channelId : String) :
    Except ApiError (String × α) :=
  if trim channelId = "" then .error (.badRequest "realtime channelId is required")
  else .ok (channelId, read channelId)

/-- A text that is given, unless it is blank. -/
def givenText (text : Option String) : Option String := (text.map trim).filter (· ≠ "")

def hydrateBehaviorConnectionSessions (runtime : Runtime) (read : BehaviorConnectionSessionsRead) :
    SessionsContext :=
  let userId := givenText read.userId
  let sessionId := givenText read.sessionId
  let sessions := runtime.sessions userId read.transport
  ⟨userId, sessionId, read.transport,
    match sessionId with
    | none => sessions
    | some sessionId => sessions.filter (·.sessionId == sessionId)⟩

def hydrateBehaviorAuditTrace (db : Database) (read : BehaviorAuditTraceRead) : Except ApiError
    AuditTraceResponse := do
  return auditTrace db.wal (← auditTraceTarget read.query) read.afterLsn read.limit

def hydrateBehaviorAuditReplay (db : Database) (read : BehaviorAuditReplayRead) :
    Except ApiError AuditReplayResponse := do
  return replayAuditTarget db.wal (← auditReplayTarget (behaviorAuditReplayQuery read)) read.atLsn

def hydrateBehaviorRequestContext (runtime : Runtime) (db : Database) (read : BehaviorReadPlan) :
    Except ApiError HydratedContext := do
  let records ← read.records.mapM (hydrateBehaviorRecord db)
  let nestedRecords ← read.nestedRecords.mapM (hydrateBehaviorNestedRecord db)
  let latestMessages := read.latestMessages.map (hydrateBehaviorLatestMessages db)
  let objects ← read.objects.mapM (hydrateBehaviorObject db)
  let objectBodies ← read.objectBodies.mapM (hydrateBehaviorObjectBody db)
  let realtimeChannelMembers ← read.realtimeChannelMembers.mapM (hydrateBehaviorRealtimeChannel runtime.members)
  let realtimeChannelStates ← read.realtimeChannelStates.mapM (hydrateBehaviorRealtimeChannel runtime.states)
  let connectionSessions := read.connectionSessions.map (hydrateBehaviorConnectionSessions runtime)
  let auditTraces ← read.auditTraces.mapM (hydrateBehaviorAuditTrace db)
  let auditReplays ← read.auditReplays.mapM (hydrateBehaviorAuditReplay db)
  return {
    records, nestedRecords, latestMessages, objects, objectBodies, realtimeChannelMembers, realtimeChannelStates,
    connectionSessions, auditTraces, auditReplays
    requestContext := runtime.requestContext }

/-! ## Databases that agree -/

/-- Databases that store the same of the tables, the messages and the objects in scope. -/
structure AgreeStored (s : Scopes) (db other : Database) : Prop where
  tables : ∀ table ∈ s.records.read, db.schema.tables[table]? = other.schema.tables[table]?
  nested : ∀ table nested, nestedScopeName table nested ∈ s.records.nestedRead →
    db.schema.tables[table]?.map (·.nested[nested]?) = other.schema.tables[table]?.map (·.nested[nested]?)
  recordHot : ∀ table, s.CoversTable table → db.recordHot table = other.recordHot table
  durableDeleteLsn : ∀ table, s.CoversTable table → db.durableDeleteLsn table = other.durableDeleteLsn table
  isWindowedTable : ∀ table, s.CoversTable table → db.isWindowedTable table = other.isWindowedTable table
  records : ∀ table, s.CoversTable table → db.records table = other.records table
  hotMessages : s.CoversTable "rooms.messages" → db.hotMessages = other.hotMessages
  chatLog : s.CoversTable "rooms.messages" → db.chatLog = other.chatLog
  objects : ∀ objectId, s.objects.allows objectId = true → db.objects objectId = other.objects objectId

/-- The log of a database cut to what is in scope, where a record of the log keeps its LSN. -/
noncomputable def walInScope (s : Scopes) (wal : List WalRecord) : List (Nat × WalPayload) :=
  wal.filterMap fun r => (s.part r.payload).map fun payload => (r.lsn, payload)

/-- Databases that agree on each part of a record of the log that is in scope. -/
structure AgreeParts (s : Scopes) (db other : Database) : Prop where
  stored : AgreeStored s db other
  wal : walInScope s db.wal = walInScope s other.wal

open Classical in
/-- Databases that agree on each record of the log with a part that is in scope. -/
structure AgreeRecords (s : Scopes) (db other : Database) : Prop where
  stored : AgreeStored s db other
  wal : db.wal.filter (fun r => decide (s.Covers r.payload)) = other.wal.filter (fun r => decide (s.Covers r.payload))

/-- Databases whose logs agree on the paths and the client mutation ids that a plan traces. -/
def AgreeTraced (read : BehaviorReadPlan) (db other : Database) : Prop :=
  ∀ item ∈ read.auditTraces, item.query.kind = .path ∨ item.query.kind = .clientMutation →
    ∀ target, auditTraceTarget item.query = .ok target →
      db.wal.filter (matchesAuditTraceTarget · target) = other.wal.filter (matchesAuditTraceTarget · target)

section Agreement

variable {s : Scopes} {db other : Database}

section
variable (h : AgreeStored s db other)
include h

variable {table objectId : String}

theorem getRecordFromLiveOrDisk_agrees (htable : s.CoversTable table) (key : String) :
    getRecordFromLiveOrDisk db table key = getRecordFromLiveOrDisk other table key := by
  rw [getRecordFromLiveOrDisk, getRecordFromLiveOrDisk, h.recordHot table htable, h.durableDeleteLsn table htable,
    h.isWindowedTable table htable, h.records table htable]

theorem hydrateBehaviorRecord_agrees {read : BehaviorRecordRead}
    (hread : read.table ∈ s.records.read) :
    hydrateBehaviorRecord db read = hydrateBehaviorRecord other read := by
  rw [hydrateBehaviorRecord, hydrateBehaviorRecord, validateRecordPath, validateRecordPath, validateTablePath,
    validateTablePath, h.tables _ hread, getRecordFromLiveOrDisk_agrees h (.inl hread)]

theorem validateNestedTablePath_agrees {parentKey nested : String}
    (hread : nestedScopeName table nested ∈ s.records.nestedRead) :
    validateNestedTablePath db table parentKey nested =
    validateNestedTablePath other table parentKey nested := by
  have hdeclared := h.nested table nested hread
  have htable : (db.schema.tables[table]?).isNone = (other.schema.tables[table]?).isNone := by
    simpa using congrArg Option.isNone hdeclared
  have hnested : (db.schema.tables[table]?.bind (·.nested[nested]?)) =
      (other.schema.tables[table]?.bind (·.nested[nested]?)) := by
    simpa only [Option.bind_map, Function.id_comp] using congrArg (·.bind id) hdeclared
  rw [validateNestedTablePath, validateNestedTablePath, validateTablePath, validateTablePath, htable, hnested]

theorem hydrateBehaviorNestedRecord_agrees {read : BehaviorNestedRecordRead}
    (hread : nestedScopeName read.table read.nested ∈ s.records.nestedRead) :
    hydrateBehaviorNestedRecord db read = hydrateBehaviorNestedRecord other read := by
  have hcovers : s.CoversTable (nestedRecordTable read.table read.nested) := .inr hread
  rw [hydrateBehaviorNestedRecord, hydrateBehaviorNestedRecord, validateNestedRecordPath, validateNestedRecordPath,
    validateNestedTablePath_agrees h hread]
  simp only [getRecordFromLiveOrDisk_agrees h hcovers]

theorem hydrateBehaviorLatestMessages_agrees (hread : "rooms.messages" ∈ s.records.nestedRead)
    (read : BehaviorLatestMessagesRead) :
    hydrateBehaviorLatestMessages db read = hydrateBehaviorLatestMessages other read := by
  rw [hydrateBehaviorLatestMessages, hydrateBehaviorLatestMessages, h.hotMessages (.inr hread), h.chatLog (.inr hread)]

theorem hydrateBehaviorObject_agrees (hread : s.objects.allows objectId = true) :
    hydrateBehaviorObject db objectId = hydrateBehaviorObject other objectId := by
  rw [hydrateBehaviorObject, hydrateBehaviorObject, h.objects objectId hread]

theorem hydrateBehaviorObjectBody_agrees (hread : s.objects.allows objectId = true) :
    hydrateBehaviorObjectBody db objectId = hydrateBehaviorObjectBody other objectId := by
  rw [hydrateBehaviorObjectBody, hydrateBehaviorObjectBody, h.objects objectId hread]

end

/-- A trace or a replay whose matches are in scope reads the same of both logs. -/
theorem matches_agree (h : AgreeRecords s db other)
    {target : AuditTraceTarget}
    (hcovers : ∀ r, matchesAuditTraceTarget r target = true → s.Covers r.payload) :
    db.wal.filter (matchesAuditTraceTarget · target) =
    other.wal.filter (matchesAuditTraceTarget · target) := by
  have hcut : ∀ wal : List WalRecord, wal.filter (matchesAuditTraceTarget · target) =
      (wal.filter fun r => @decide (s.Covers r.payload) (Classical.propDecidable _)).filter
        (matchesAuditTraceTarget · target) := by
    intro wal
    rw [List.filter_filter]
    refine List.filter_congr fun r _ => ?_
    cases hmatches : matchesAuditTraceTarget r target with
    | false => rfl
    | true => simpa using hcovers r hmatches
  rw [hcut, hcut other.wal, h.wal]

theorem hydrateBehaviorAuditTrace_agrees (h : AgreeRecords s db other)
    {read : BehaviorAuditTraceRead} (hread : s.AllowsTrace read.query)
    (htraced : read.query.kind = .path ∨ read.query.kind = .clientMutation → ∀ target,
      auditTraceTarget read.query = .ok
    target → db.wal.filter (matchesAuditTraceTarget · target) = other.wal.filter (matchesAuditTraceTarget · target)) :
    hydrateBehaviorAuditTrace db read = hydrateBehaviorAuditTrace other read := by
  unfold hydrateBehaviorAuditTrace
  cases htarget : auditTraceTarget read.query with
  | error e => rfl
  | ok target =>
    have hmatches : db.wal.filter (matchesAuditTraceTarget · target) =
        other.wal.filter (matchesAuditTraceTarget · target) := by
      by_cases hkind : read.query.kind = .path ∨ read.query.kind = .clientMutation
      · exact htraced hkind target htarget
      · exact matches_agree h fun r => Scopes.covers_of_matches htarget hread (not_or.mp hkind)
    have htrace : auditTrace db.wal target read.afterLsn read.limit =
        auditTrace other.wal target read.afterLsn read.limit := by
      simp only [auditTrace]
      rw [tracePage_filter, hmatches, ← tracePage_filter]
    exact congrArg Except.ok htrace

theorem hydrateBehaviorAuditReplay_agrees (h : AgreeRecords s db other)
    {read : BehaviorAuditReplayRead} (hread : s.AllowsTrace (behaviorAuditReplayQuery read)) :
    hydrateBehaviorAuditReplay db read = hydrateBehaviorAuditReplay other read := by
  unfold hydrateBehaviorAuditReplay
  cases htarget : auditReplayTarget (behaviorAuditReplayQuery read) with
  | error e => rfl
  | ok target =>
    have hquery : auditTraceTarget (behaviorAuditReplayQuery read) = .ok target := by
      obtain ⟨found, hfound, hsome⟩ := bind_eq_ok.mp htarget
      cases hkind : found.kind <;> rw [hkind] at hsome <;> cases hsome <;> exact hfound
    have hkind : (behaviorAuditReplayQuery read).kind ≠ .path ∧
        (behaviorAuditReplayQuery read).kind ≠ .clientMutation := by
      simp only [behaviorAuditReplayQuery]
      cases read.kind <;> decide
    have hmatches := matches_agree h fun r => Scopes.covers_of_matches (r := r) hquery hread hkind
    have hreplay : replayAuditTarget db.wal target read.atLsn = replayAuditTarget other.wal target read.atLsn := by
      rw [replayAuditTarget, replayAuditTarget, replayRecords_filter db.ascending, replayRecords_filter other.ascending]
      exact congrArg _ hmatches
    exact congrArg Except.ok hreplay

/-- A behavior whose read plan is accepted is sent what is in its scopes, and nothing else. A record
of the log with a part in scope counts as in scope, and so does what a plan traces by path or by
client mutation id. -/
theorem hydrate_agrees {manifest : BehaviorManifest} {read : BehaviorReadPlan}
    (hdeclared : s.Declared manifest) (haccepted : validateReadCapabilities manifest read = .ok ())
    (hagree : AgreeRecords s db other) (htraced : AgreeTraced read db other) (runtime : Runtime) :
    hydrateBehaviorRequestContext runtime db read =
    hydrateBehaviorRequestContext runtime other read := by
  have hallows := Scopes.allows_of_validated hdeclared haccepted
  have hstored := hagree.stored
  have hmessages : read.latestMessages.map (hydrateBehaviorLatestMessages db) =
      read.latestMessages.map (hydrateBehaviorLatestMessages other) :=
    List.map_congr_left fun item hitem =>
        hydrateBehaviorLatestMessages_agrees hstored (hallows.latestMessages item hitem) item
  rw [hydrateBehaviorRequestContext, hydrateBehaviorRequestContext, mapM_congr fun item hitem =>
    hydrateBehaviorRecord_agrees hstored (hallows.records item hitem), mapM_congr fun item hitem =>
    hydrateBehaviorNestedRecord_agrees hstored (hallows.nestedRecords item hitem), mapM_congr fun id hid =>
    hydrateBehaviorObject_agrees hstored (hallows.objects id hid), mapM_congr fun id hid =>
    hydrateBehaviorObjectBody_agrees hstored (hallows.objectBodies id hid), mapM_congr fun item hitem =>
      hydrateBehaviorAuditTrace_agrees hagree (hallows.auditTraces item hitem) (htraced item hitem),
    mapM_congr fun item hitem => hydrateBehaviorAuditReplay_agrees hagree (hallows.auditReplays item hitem), hmessages]

end Agreement

section Sample

def chatScopes : Scopes := ⟨⟨["rooms"], []⟩, ⟨[]⟩, ⟨[]⟩⟩

def chat : BehaviorManifest where
  name := "chat"
  version := "1"
  modulePath := "chat.wasm"
  mutations := ["send"]
  reads := none
  recordScopes := some chatScopes.records
  objectScopes := some chatScopes.objects
  realtimeScopes := none
  connectionScopes := none
  userScopes := some chatScopes.users

def upsertOf (table key path : String) (value : Bool) : DbRecordDraft :=
  ⟨table, key, ⟨.bool value, trivial⟩, 10, path, none⟩

/-- A transaction on a room in scope and a record of another table. -/
def mixed (secret : Bool) : WalRecord :=
  ⟨1, 0, 1, "a", 10, 1, .strict, .recordTransactionCommitted
    [.upsert (upsertOf "rooms" "lobby" "tables/rooms/6c.json" true),
      .upsert (upsertOf "secrets" "key" "tables/secrets/6b.json" secret)] none, none⟩

def loneSecret (secret : Bool) : WalRecord :=
  ⟨1, 0, 1, "a", 10, 1, .strict, .recordUpserted (upsertOf "secrets" "key" "tables/secrets/6b.json" secret), none⟩

def databaseOf (r : WalRecord) (secret : Bool) : Database where
  schema := ⟨"app", 1, ∅, (∅ : BTreeMap String TableSchema).insert "rooms" ⟨.disk, ∅, ∅, ⟨[]⟩, ∅⟩, ∅, ∅⟩
  recordHot _ _ := none
  durableDeleteLsn _ _ := none
  isWindowedTable _ := false
  records table _ := if table = "secrets" then some
      ((upsertOf table "key" "tables/secrets/6b.json" secret).intoRecord 1) else none
  hotMessages _ _ := []
  chatLog _ _ := []
  objects _ := none
  wal := [r]
  ascending := List.pairwise_singleton ..

def noRuntime : Runtime := ⟨fun _ => [], fun _ => none, fun _ _ => [], ⟨.null, trivial⟩⟩

def noReads : BehaviorReadPlan := ⟨[], [], [], [], [], [], [], [], [], []⟩

def roomTrace : BehaviorReadPlan :=
  { noReads with
    records := [⟨"rooms", "lobby"⟩]
    auditTraces := [⟨⟨.record, none, some "rooms", some "lobby", none, none, none, none, none⟩, none, none⟩] }

def secretTrace : BehaviorReadPlan :=
  { noReads with
    auditTraces := [⟨⟨.path, none, none, none, none, none, none, some "tables/secrets/6b.json", none⟩, none, none⟩] }

theorem chatScopes_mutation (operation : DbRecordMutationDraft) :
    chatScopes.CoversMutation operation ↔ mutationTable operation = "rooms" := by
  simp [Scopes.CoversMutation, Scopes.CoversTable, chatScopes, BehaviorScopes.allows]

theorem stored_agrees (r other : WalRecord) (secret otherSecret : Bool) :
    AgreeStored chatScopes (databaseOf r secret) (databaseOf other otherSecret) where
  tables _ _ := rfl
  nested _ _ _ := rfl
  recordHot _ _ := rfl
  durableDeleteLsn _ _ := rfl
  isWindowedTable _ _ := rfl
  records table htable := by
    have hrooms : table = "rooms" := by simpa [Scopes.CoversTable, chatScopes] using htable
    subst hrooms
    rfl
  hotMessages _ := rfl
  chatLog _ := rfl
  objects _ _ := rfl

def secretWritten : DbRecordMutationDraft → Bool
  | .upsert record =>
    match record.value.json with
    | .bool value => record.table == "secrets" && value
    | _ => false
  | .delete _ => false

/-- Whether a trace of the context has a change that writes `true` to the other table. -/
def showsSecret (context : HydratedContext) : Bool :=
  context.auditTraces.any fun trace => trace.records.any fun r => (payloadMutations r.payload).any secretWritten

theorem hydrate_agrees_sample :
    hydrateBehaviorRequestContext noRuntime (databaseOf (loneSecret true) true) roomTrace =
    hydrateBehaviorRequestContext noRuntime (databaseOf (loneSecret false) false) roomTrace := by
  refine @hydrate_agrees chatScopes _ _ chat _ ⟨rfl, rfl, rfl⟩ ?_ ⟨stored_agrees _ _ _ _, ?_⟩ ?_ noRuntime
  · exact eq_ok_of_toOption (by decide +kernel)
  · simp [databaseOf, loneSecret, Scopes.Covers, payloadMutations, chatScopes_mutation, mutationTable, upsertOf]
  · simp [AgreeTraced, roomTrace]

/-- A trace of a room shows all of a transaction that changed it, and a trace of a path is not
checked against the scopes. -/
theorem traces_show_other_table :
    (validateReadCapabilities chat roomTrace = .ok () ∧
    AgreeParts chatScopes (databaseOf (mixed true) true)
    (databaseOf (mixed false) false) ∧
    hydrateBehaviorRequestContext noRuntime (databaseOf (mixed true) true)
    roomTrace ≠ hydrateBehaviorRequestContext noRuntime (databaseOf (mixed false) false) roomTrace) ∧
    (validateReadCapabilities chat secretTrace = .ok () ∧
    AgreeParts chatScopes (databaseOf (loneSecret true) true)
    (databaseOf (loneSecret false) false) ∧
    hydrateBehaviorRequestContext noRuntime (databaseOf (loneSecret true) true)
    secretTrace ≠ hydrateBehaviorRequestContext noRuntime (databaseOf (loneSecret false) false) secretTrace) := by
  refine ⟨⟨eq_ok_of_toOption (by decide +kernel), ⟨stored_agrees _ _ _ _, ?_⟩, fun heq => ?_⟩,
    ⟨eq_ok_of_toOption (by decide +kernel), ⟨stored_agrees _ _ _ _, ?_⟩, fun heq => ?_⟩⟩
  · simp [walInScope, databaseOf, mixed, Scopes.part, Scopes.Covers, payloadMutations, chatScopes_mutation,
      mutationTable, upsertOf]
  · have hshown := congrArg (fun context => context.toOption.map showsSecret) heq
    exact absurd hshown (by decide +kernel)
  · simp [walInScope, databaseOf, loneSecret, Scopes.part, Scopes.Covers, payloadMutations, chatScopes_mutation,
      mutationTable, upsertOf]
  · have hshown := congrArg (fun context => context.toOption.map showsSecret) heq
    exact absurd hshown (by decide +kernel)

end Sample

end NextDb.Api.BehaviorContext
