import NextDb.Api.Visibility

/-!
# Realtime connections

A connection of a user takes frames of its client and batches of events, while records are written,
schemas applied, and the queries of other connections evaluated. A frame is judged by the schema
that the step found which made it. The rows of live queries are not filtered by the user.

* `frames_visible`: where each live query that is answered selects only rows that the user may read,
  so are all rows that the connection is ever sent.
* `query_shows_hidden`: a live query is sent the rows of others.
-/

namespace NextDb.Api.Connections

open Run List Option
open Wal (recordsByLsn)
open Auth (startsWith)
open Audit (nestedRecordPrefix)
open Records (nestedRecordTable TablePath)
open Messages (normalizeLimit)
open ObjectRefIndex (ensureSafeRecordComponent)
open Frames RecordMatch LiveQuery Sync Visibility

/-! ## Answers to live queries -/

/-- What a step of a connection finds around it: what activating a room, taking a snapshot and
reading the log return, the queries of the user's other sessions, and what executing a query
returns. -/
structure Surroundings where
  activated : Except ApiError Unit
  snapshot : Except ApiError ListRecordsResponse
  walRead : Result Unit
  otherSessionQueries : Nat
  volatileGeneration : String → Option String → Nat
  executed : RecordQuerySubscription → Except String ListRecordsResponse

def executeRecordQueryEvaluation (lib : QueryLibrary) (around : Surroundings)
    (subscription : RecordQuerySubscription) : Except String RecordQueryEvaluation := do
  let response ← around.executed subscription
  return ⟨response, lib.resultId response⟩

/-- `live_query_cache_token_with_lsn`. -/
def liveQueryCacheToken (around : Surroundings) (subscription : RecordQuerySubscription)
    (lsn : Option Nat) :
    Option LiveQueryEvaluationCacheToken :=
  lsn.map fun lsn => ⟨lsn, around.volatileGeneration subscription.subscribedTable subscription.parentKeyPrefix⟩

def cachedRecordQueryEvaluation (lib : QueryLibrary) (around : Surroundings)
    (cache : LiveQueryEvaluationCache)
    (subscription : RecordQuerySubscription) (token : Option LiveQueryEvaluationCacheToken) :
    Except String RecordQueryEvaluation × LiveQueryEvaluationCache :=
  match token with
  | none => (executeRecordQueryEvaluation lib around subscription, cache)
  | some token =>
    let key : LiveQueryEvaluationCacheKey := ⟨token, subscription.planKey lib⟩
    match cache.lookup key with
    | some evaluation => (.ok evaluation, cache)
    | none =>
      match executeRecordQueryEvaluation lib around subscription with
      | .error err => (.error err, cache)
      | .ok evaluation => (.ok evaluation, insertEvaluation cache key evaluation)

def ensureLiveQueryResultSize (subscription : RecordQuerySubscription) (rowCount maxRows : Nat) :
    Except String Unit :=
  if maxRows = 0 ∨ rowCount ≤ maxRows then .ok ()
  else .error (s!"live query result too large: queryId={subscription.queryId} table={subscription.subscribedTable} "
    ++ s!"rows={rowCount} maxLiveQueryResultRows={maxRows}; narrow the query or lower limit")

/-- The frame that tells of an evaluation, unless the client has it. -/
def prepareRecordQueryEvaluation (lib : QueryLibrary) (limits : LiveQueryLimits) (currentLsn : Nat)
    (subscription : RecordQuerySubscription) (force : Bool) (deletedHints : RecordQueryDeletedHints)
    (evaluation : RecordQueryEvaluation) : Except String (Option ServerFrame) :=
  if !force && subscription.lastResultId == some evaluation.resultId then .ok none
  else do
    ensureLiveQueryResultSize subscription evaluation.response.records.length limits.maxLiveQueryResultRows
    let result := ServerFrame.queryResult subscription.queryId evaluation.response currentLsn evaluation.resultId
    if subscription.diff && !force then
      return some (subscription.lastResponse.elim result fun previous =>
        .queryDiff subscription.queryId (recordQueryDiff lib previous evaluation.response deletedHints) currentLsn
          evaluation.resultId)
    else return some result

/-! ## The connection and what is around it -/

/-- The library, the limits and the user of a connection. -/
structure ConnectionConfig where
  lib : QueryLibrary
  limits : LiveQueryLimits
  userId : Option String
  sessionId : String

/-- `records` is what a read of a key returns, from the hot cache or from disk. -/
structure RealtimeState where
  schema : DatabaseSchema
  currentLsn : Nat
  walRecords : List WalRecord
  records : String → String → Option DbRecord
  cache : LiveQueryEvaluationCache
  connection : RealtimeConnectionState
  /-- What the connection was sent, each frame with the schema that it was made under. -/
  sent : List (DatabaseSchema × ServerFrame)

/-- What a frame of the client, or a batch of events, leads to. -/
structure Handled where
  connection : RealtimeConnectionState
  cache : LiveQueryEvaluationCache
  frames : List ServerFrame

section Handlers

variable (cfg : ConnectionConfig) (s : RealtimeState) (around : Surroundings)

def Handled.only (connection : RealtimeConnectionState) (frames : List ServerFrame) : Handled :=
  ⟨connection, s.cache, frames⟩

def subscriptionCatchUpTables (filters : SyncFilters) : List String :=
  (Std.ExtTreeSet.ofList (filters.tables ++ filters.tableRanges.map TableSubscription.table ++
    filters.nestedTables.map NestedTableSubscription.logicalTable) compare).toList

def sendSubscriptionCatchUp (filters : SyncFilters) (afterLsn : Nat) (limit : Option Nat) :
    List ServerFrame :=
  match around.walRead with
  | .error err => [.error s!"subscription catch-up failed: {err.chain}"]
  | .ok () =>
    let records := ((recordsByLsn s.walRecords).toList.map Prod.snd).filter (afterLsn < ·.lsn)
    let page := syncEventsFromWalRecords cfg.lib { filters with schema := some s.schema } records afterLsn
      (normalizeLimit limit)
    (filterVisibleCatchUpEvents page.events s.schema cfg.userId).map .event ++
      [.subscriptionCatchUp filters.rooms filters.users (subscriptionCatchUpTables filters) filters.nestedTables
        filters.includeObjects page.nextAfterLsn s.currentLsn page.hasMore]

/-- No filter but the schema's. -/
def noFilters : SyncFilters := ⟨[], [], [], [], [], none, false⟩

def catchUpFrom (filters : SyncFilters) (afterLsn limit : Option Nat) : List ServerFrame :=
  afterLsn.elim [] fun afterLsn => sendSubscriptionCatchUp cfg s around filters afterLsn limit

def activationFrames : List ServerFrame :=
  match around.activated with
  | .ok () => []
  | .error error => [.error error.message]

def subscribeRoom (roomId : String) (afterLsn catchUpLimit : Option Nat) : Handled :=
  .only s { s.connection with subscribedRooms := s.connection.subscribedRooms.insert roomId }
    (activationFrames around ++ [.subscribed roomId] ++
      catchUpFrom cfg s around { noFilters with rooms := [roomId] } afterLsn catchUpLimit)

def unsubscribeRoom (roomId : String) : Handled :=
  .only s { s.connection with subscribedRooms := s.connection.subscribedRooms.erase roomId } [.unsubscribed roomId]

def validateTableSubscription (schema : DatabaseSchema) (subscription : TableSubscription) :
    Except ApiError Unit :=
  match subscription.indexName, subscription.indexValues with
  | none, none => .ok ()
  | none, some _ => .error (.badRequest "indexValues requires indexName for table subscriptions")
  | some _, none => .error (.badRequest "indexName requires indexValues for table subscriptions")
  | some indexName, some indexValues =>
    match tableSubscriptionIndexSchema schema subscription.table indexName with
    | none => .error (.badRequest
        s!"table subscription index {indexName} is not declared on {subscription.table}")
    | some index => (parseIndexPrefixValues cfg.lib indexValues index).map fun _ => ()

/-- The frame of a snapshot, or of its failure. -/
def snapshotFrames (name : String) (limit : Option Nat)
    (frame : ListRecordsResponse → ServerFrame) :
    List ServerFrame :=
  if limit.isNone then []
  else
    match around.snapshot with
    | .ok response => [frame (filterVisibleTableSnapshot response s.schema cfg.userId)]
    | .error error => [.error s!"{name} failed: {error.message}"]

def subscribeTable (subscription : TableSubscription)
    (snapshotLimit afterLsn catchUpLimit : Option Nat) :
    Handled :=
  match validateTableSubscription cfg s.schema subscription with
  | .error error => .only s s.connection [.error error.message]
  | .ok () =>
    let filters := if subscription.isFullTable then { noFilters with tables := [subscription.table] }
      else { noFilters with tableRanges := [subscription] }
    .only s (s.connection.addTableSubscription subscription).1 ([.tableSubscribed subscription.table] ++
        snapshotFrames cfg s around "table snapshot" snapshotLimit (fun response =>
          .tableSnapshot subscription.table subscription.lowerKey subscription.upperKey subscription.indexName
            subscription.indexValues response s.currentLsn) ++
        catchUpFrom cfg s around filters afterLsn catchUpLimit)

def unsubscribeTable (subscription : TableSubscription) : Handled :=
  .only s (s.connection.removeTableSubscription subscription).1 [.tableUnsubscribed subscription.table]

/-- `validate_nested_table_path`. -/
def validateNestedSubscription (schema : DatabaseSchema) (subscription : NestedTableSubscription) :
    Except ApiError Unit :=
  if !ensureSafeRecordComponent subscription.table then .error (.badRequest "invalid table name")
  else if (schema.tables[subscription.table]?).isNone then .error (.notFound "table not found")
  else if !ensureSafeRecordComponent subscription.parentKey then .error (.badRequest "invalid parent record key")
  else if !ensureSafeRecordComponent subscription.nested then .error (.badRequest "invalid nested table name")
  else if (schema.nestedTable subscription.table subscription.nested).isNone then
    .error (.notFound "nested table not found")
  else .ok ()

def subscribeNestedTable (subscription : NestedTableSubscription)
    (snapshotLimit afterLsn catchUpLimit : Option Nat) :
    Handled :=
  match validateNestedSubscription s.schema subscription with
  | .error error => .only s s.connection [.error error.message]
  | .ok () =>
    let inRoom := subscription.table = "rooms" ∧ subscription.nested = "messages"
    .only s (s.connection.addNestedTableSubscription subscription).1
      ((if inRoom then activationFrames around else []) ++ [.tableSubscribed subscription.logicalTable] ++
        snapshotFrames cfg s around "nested table snapshot" snapshotLimit (fun response =>
          .nestedTableSnapshot subscription.table subscription.parentKey subscription.nested response s.currentLsn) ++
        catchUpFrom cfg s around { noFilters with nestedTables := [subscription] } afterLsn catchUpLimit)

def unsubscribeNestedTable (subscription : NestedTableSubscription) : Handled :=
  .only s (s.connection.removeNestedTableSubscription subscription).1 [.tableUnsubscribed subscription.logicalTable]

def isValidQueryId (queryId : String) : Bool :=
  !queryId.isEmpty && decide (queryId.utf8ByteSize ≤ 128) && queryId.toList.all fun char =>
    char.isAlphanum || char == '-' || char == '_' || char == ':' || char == '.'

/-- The subscription that a frame asks for. -/
def querySubscription (lib : QueryLibrary) (schema : DatabaseSchema) (queryId table : String)
    (parentKey nested indexName : Option String) (query : QueryRecordsByIndexQuery)
    (order resultId : Option String) (diff : Bool) : RecordQuerySubscription where
  queryId := queryId
  table := table
  parentKey := parentKey
  nested := nested
  subscribedTable := nested.elim table (nestedRecordTable table)
  parentKeyPrefix := parentKey.map nestedRecordPrefix
  indexName := indexName
  indexQuery := query
  impactFilter := recordQueryImpactFilter lib schema table nested indexName query query.predicate
  schemaVersion := schema.version
  afterKey := query.afterKey
  afterCursor := query.afterCursor
  limit := query.limit
  order := order
  predicate := query.predicate
  lastResultId := resultId
  lastResponse := none
  lastResponseKeys := []
  retainedScopeKeys := ∅
  diff := diff

def userQuerySubscriptionLimitError (queryId : String) : Option String := do
  if cfg.limits.maxLiveQueriesPerUser = 0 then none
  else
    let userId ← cfg.userId
    let current := s.connection.projectedQueryCount queryId
    let total := around.otherSessionQueries + current
    if total ≤ cfg.limits.maxLiveQueriesPerUser then none
    else some (s!"live query subscription user limit exceeded: userId={userId} "
      ++ s!"maxLiveQueriesPerUser={cfg.limits.maxLiveQueriesPerUser} otherSessions={around.otherSessionQueries} "
      ++ s!"currentSessionRequested={current} requested={total}")

def subscribeQuery (subscription : RecordQuerySubscription) : Handled :=
  if !isValidQueryId subscription.queryId then .only s s.connection [.error "invalid queryId"]
  else
    match (s.connection.querySubscriptionLimitError subscription.queryId subscription.subscribedTable
        cfg.limits).or (userQuerySubscriptionLimitError cfg s around subscription.queryId) with
    | some message => .only s s.connection [.error message]
    | none =>
      let token := liveQueryCacheToken around subscription (some s.currentLsn)
      let cached := cachedRecordQueryEvaluation cfg.lib around s.cache subscription token
      let failed := fun (err : String) =>
        (⟨s.connection, cached.2, [.error s!"query subscription failed: {err}"]⟩ : Handled)
      match cached.1 with
      | .error err => failed err
      | .ok evaluation =>
        match prepareRecordQueryEvaluation cfg.lib cfg.limits s.currentLsn subscription
            subscription.lastResultId.isNone [] evaluation with
        | .error err => failed err
        | .ok none =>
          ⟨s.connection.addQuerySubscription subscription.queryId subscription, cached.2,
            [.queryUnchanged subscription.queryId (subscription.lastResultId.getD "") s.currentLsn,
              .querySubscribed subscription.queryId]⟩
        | .ok (some frame) =>
          ⟨s.connection.addQuerySubscription subscription.queryId (subscription.applySnapshot evaluation), cached.2,
            [frame, .querySubscribed subscription.queryId]⟩

def unsubscribeQuery (queryId : String) : Handled :=
  .only s (s.connection.removeQuerySubscriptionEntry queryId).1 [.queryUnsubscribed queryId]

def subscribeUserEvents (afterLsn catchUpLimit : Option Nat) : Handled :=
  match cfg.userId with
  | none => .only s s.connection [.error "subscribeUserEvents requires userId"]
  | some userId =>
    .only s { s.connection with subscribedUserEvents := true }
      (catchUpFrom cfg s around { noFilters with users := [userId] } afterLsn catchUpLimit)

def subscribeObjects (afterLsn catchUpLimit : Option Nat) : Handled :=
  .only s { s.connection with subscribedObjects := true } ([.objectsSubscribed] ++
      catchUpFrom cfg s around { noFilters with includeObjects := true } afterLsn catchUpLimit)

def handleClientFrame : ClientFrame → Handled
  | .subscribeRoom roomId afterLsn catchUpLimit => subscribeRoom cfg s around roomId afterLsn catchUpLimit
  | .unsubscribeRoom roomId => unsubscribeRoom s roomId
  | .subscribeTable subscription snapshotLimit afterLsn catchUpLimit =>
    subscribeTable cfg s around subscription snapshotLimit afterLsn catchUpLimit
  | .unsubscribeTable subscription => unsubscribeTable s subscription
  | .subscribeNestedTable subscription snapshotLimit afterLsn catchUpLimit =>
    subscribeNestedTable cfg s around subscription snapshotLimit afterLsn catchUpLimit
  | .unsubscribeNestedTable subscription => unsubscribeNestedTable s subscription
  | .subscribeQuery queryId table parentKey nested indexName query order resultId diff =>
    subscribeQuery cfg s around
      (querySubscription cfg.lib s.schema queryId table parentKey nested indexName query order resultId diff)
  | .unsubscribeQuery queryId => unsubscribeQuery s queryId
  | .subscribeUserEvents afterLsn catchUpLimit => subscribeUserEvents cfg s around afterLsn catchUpLimit
  | .unsubscribeUserEvents =>
    .only s { s.connection with subscribedUserEvents := false } [.userEventsUnsubscribed]
  | .subscribeObjects afterLsn catchUpLimit => subscribeObjects cfg s around afterLsn catchUpLimit
  | .unsubscribeObjects => .only s { s.connection with subscribedObjects := false } [.objectsUnsubscribed]

end Handlers

/-! ## Batches of events -/

def encodeDeliveryEventsFrame : List DeliveryEvent → Option ServerFrame
  | [] => none
  | [event] => some (.event event)
  | events => some (.events events)

/-- Events for a connection, and the frame of all of them when it was encoded for several
connections. -/
structure RoutedRealtimeEventBatch where
  events : List DeliveryEvent
  preencodedEventsFrame : Option ServerFrame
  encoded : ∀ frame, preencodedEventsFrame = some frame → encodeDeliveryEventsFrame events = some frame

def DeliveryEvent.recordLsn : DeliveryEvent → Option Nat
  | .recordUpserted _ _ record => some record.lsn
  | .recordDeleted _ _ _ lsn _ _ => some lsn
  | _ => none

/-- Evaluations are shared where the node has all that the events tell of. -/
def recordEventBatchCacheLsn (events : List DeliveryEvent) (currentLsn : Nat) : Option Nat :=
  let lsns := events.filterMap DeliveryEvent.recordLsn
  if !lsns.isEmpty && decide (lsns.foldr max 0 ≤ currentLsn) then some currentLsn else none

/-- A batch half way through the queries that it may change. -/
structure BatchState where
  connection : RealtimeConnectionState
  cache : LiveQueryEvaluationCache
  evaluated : List (RecordQueryPlanKey × Except String RecordQueryEvaluation)
  frames : List ServerFrame

section Batches

variable (cfg : ConnectionConfig) (s : RealtimeState) (around : Surroundings) (lsn : Option Nat)
  (deletedHints : RecordQueryDeletedHints)

/-- Queries with the same plan are evaluated once for a batch. -/
def evaluateInBatch (batch : BatchState) (subscription : RecordQuerySubscription) :
    Except String RecordQueryEvaluation × BatchState :=
  let planKey := subscription.planKey cfg.lib
  match batch.evaluated.lookup planKey with
  | some evaluation => (evaluation, batch)
  | none =>
    let cached := cachedRecordQueryEvaluation cfg.lib around batch.cache subscription
      (liveQueryCacheToken around subscription lsn)
    (cached.1, { batch with cache := cached.2, evaluated := (planKey, cached.1) :: batch.evaluated })

def BatchState.fail (batch : BatchState) (err : String) : BatchState :=
  { batch with frames := batch.frames ++ [.error s!"query refresh failed: {err}"] }

def refreshQuery (batch : BatchState) (queryId : String) : BatchState :=
  match batch.connection.subscribedQueries[queryId]? with
  | none => batch
  | some subscription =>
    let done := evaluateInBatch cfg around lsn batch subscription
    match done.1 with
    | .error err => done.2.fail err
    | .ok evaluation =>
      match prepareRecordQueryEvaluation cfg.lib cfg.limits s.currentLsn subscription false deletedHints evaluation with
      | .error err => done.2.fail err
      | .ok none => done.2
      | .ok (some frame) =>
        { done.2 with
          frames := done.2.frames ++ [frame]
          connection :=
            { done.2.connection with
              subscribedQueries :=
                done.2.connection.subscribedQueries.insert queryId (subscription.applySnapshot evaluation) } }

/-- The frame of the events of a batch that the connection is to have. -/
def eventsFrame (batch : RoutedRealtimeEventBatch) : List ServerFrame :=
  let deliverable := batch.events.filter fun event =>
    shouldDeliverEvent cfg.lib event s.schema s.connection cfg.userId cfg.sessionId
  if deliverable.isEmpty then []
  else if deliverable.length = batch.events.length ∧ batch.preencodedEventsFrame.isSome then
    batch.preencodedEventsFrame.toList
  else (encodeDeliveryEventsFrame deliverable).toList

end Batches

def affectedBy (cfg : ConnectionConfig) (s : RealtimeState) (batch : RoutedRealtimeEventBatch) :
    List String × RecordQueryDeletedHints :=
  affectedLiveQueryRefreshBatch cfg.lib s.connection s.schema.version batch.events

def laggedFrame (skipped : Nat) : ServerFrame :=
  .error s!"connection lagged and skipped {skipped} realtime events; resubscribe with latest LSN"

def processRealtimeEventBatch (cfg : ConnectionConfig) (s : RealtimeState) (around : Surroundings)
    (batch : RoutedRealtimeEventBatch) (lagged : Option Nat) : Handled :=
  let affected := affectedBy cfg s batch
  let lsn := recordEventBatchCacheLsn batch.events s.currentLsn
  let done := affected.1.foldl (refreshQuery cfg s around lsn affected.2)
    ⟨s.connection, s.cache, [], eventsFrame cfg s batch⟩
  ⟨done.connection, done.cache, done.frames ++ (lagged.map laggedFrame).toList⟩

/-! ## The machine -/

/-- What a query selects: the rows of its table, below its parent, that its predicate and index
leave in. -/
def inScope (lib : QueryLibrary) (schema : DatabaseSchema) (subscription : RecordQuerySubscription)
    (record : DbRecord) : Bool :=
  (subscription.nested.isNone || subscription.parentKeyPrefix.all (startsWith record.key)) &&
    (recordQueryImpactFilter lib schema subscription.table subscription.nested subscription.indexName
      subscription.indexQuery subscription.predicate).passes lib record

/-- Executing a query returns records that it selects, as they are read. -/
def Executes (lib : QueryLibrary) (s : RealtimeState) (around : Surroundings) : Prop :=
  ∀ subscription response, around.executed subscription = .ok response →
    response.table = subscription.subscribedTable ∧ ∀ record ∈ response.records,
      s.records subscription.subscribedTable record.key = some record ∧ inScope lib s.schema subscription record = true

/-- What a connection sees of the server, and what it does. -/
inductive RealtimeEvent where
  /-- A record is appended to the log. -/
  | append (record : WalRecord) (currentLsn : Nat)
  /-- What a read of a key returns changes. -/
  | store (table key : String) (record : Option DbRecord)
  | applySchema (schema : DatabaseSchema)
  /-- A query of another connection is evaluated. -/
  | evaluate (subscription : RecordQuerySubscription) (lsn : Option Nat) (around : Surroundings)
  | frame (frame : ClientFrame) (around : Surroundings)
  | deliver (batch : RoutedRealtimeEventBatch) (lagged : Option Nat) (around : Surroundings)
  | reconnect

def storeRecord (records : String → String → Option DbRecord) (table key : String)
    (record : Option DbRecord) :
    String → String → Option DbRecord :=
  fun t k => if t = table ∧ k = key then record else records t k

def RealtimeState.handled (s : RealtimeState) (handled : Handled) : RealtimeState :=
  { s with
    connection := handled.connection
    cache := handled.cache
    sent := s.sent ++ handled.frames.map (s.schema, ·) }

/-- What each event does to the connection. -/
inductive RealtimeStep (cfg : ConnectionConfig) : RealtimeState → RealtimeEvent → RealtimeState →
    Prop where
  | append {s : RealtimeState} {record currentLsn} :
    RealtimeStep cfg s (.append record currentLsn)
      { s with walRecords := s.walRecords ++ [record], currentLsn := currentLsn }
  | store {s : RealtimeState} {table key record} :
    RealtimeStep cfg s (.store table key record) { s with records := storeRecord s.records table key record }
  | applySchema {s schema} :
    RealtimeStep cfg s (.applySchema schema) { s with schema := schema }
  | evaluate {s : RealtimeState} {subscription lsn around} : Executes cfg.lib s around →
    RealtimeStep cfg s (.evaluate subscription lsn around)
      { s with
        cache := (cachedRecordQueryEvaluation cfg.lib around s.cache subscription
          (liveQueryCacheToken around subscription lsn)).2 }
  | frame {s : RealtimeState} {f around} : Executes cfg.lib s around →
    RealtimeStep cfg s (.frame f around) (s.handled (handleClientFrame cfg s around f))
  | deliver {s : RealtimeState} {batch lagged around} :
    Executes cfg.lib s around →
    RealtimeStep cfg s (.deliver batch lagged around) (s.handled (processRealtimeEventBatch cfg s around batch lagged))
  | reconnect {s : RealtimeState} :
    RealtimeStep cfg s .reconnect (s.handled ⟨.new, s.cache, [.hello cfg.userId cfg.sessionId]⟩)

/-- Whatever the query may answer, from the records or from the cache, the user may read. -/
structure QueryShows (cfg : ConnectionConfig) (s : RealtimeState) (around : Surroundings)
    (lsn : Option Nat) (subscription : RecordQuerySubscription) : Prop where
  stored : ∀ record, s.records subscription.subscribedTable record.key = some record →
    inScope cfg.lib s.schema subscription record = true →
    Allows s.schema cfg.userId (subscription.subscribedTable, record)
  cached : ∀ token evaluation, liveQueryCacheToken around subscription lsn = some token →
    (⟨token, subscription.planKey cfg.lib⟩, evaluation) ∈ s.cache →
    ∀ row ∈ evaluation.response.rows, Allows s.schema cfg.userId row

/-- Tables with a dot in their name are public, and the live queries that the step answers select
only rows that the user may read. -/
def QueriesShow (cfg : ConnectionConfig) (s : RealtimeState) : RealtimeEvent → Prop
  | .frame f around => DottedPublic s.schema ∧
    match f with
    | .subscribeQuery queryId table parentKey nested indexName query order resultId diff =>
      QueryShows cfg s around (some s.currentLsn)
        (querySubscription cfg.lib s.schema queryId table parentKey nested indexName query order resultId diff)
    | _ => True
  | .deliver batch _ around => DottedPublic s.schema ∧
    ∀ queryId ∈ (affectedBy cfg s batch).1, ∀ subscription,
    s.connection.subscribedQueries[queryId]? =
        some subscription →
      QueryShows cfg s around (recordEventBatchCacheLsn batch.events s.currentLsn) subscription
  | _ => True

/-! ## What the answers show -/

/-- All rows of a frame are ones that the user may read. -/
def FrameShows (schema : DatabaseSchema) (userId : Option String) (frame : ServerFrame) : Prop :=
  ∀ row ∈ frame.rows, Allows schema userId row

section Shown

variable {cfg : ConnectionConfig} {s : RealtimeState} {around : Surroundings} {lsn : Option Nat}

theorem mem_of_lookup {κ α : Type} [BEq κ] [LawfulBEq κ] {entries : List (κ × α)} {key : κ} {a : α}
    (h : entries.lookup key = some a) : (key, a) ∈ entries := by
  obtain ⟨before, after, rfl, -⟩ := lookup_eq_some_iff.mp h
  exact mem_append_right before mem_cons_self

variable {subscription : RecordQuerySubscription} {schema : DatabaseSchema} {userId : Option String}
  {frame : ServerFrame} {evaluation : RecordQueryEvaluation} {frames : List ServerFrame}

/-- A query that is executed returns rows that it selects. -/
theorem executed_shows (hexec : Executes cfg.lib s around)
    (h : QueryShows cfg s around lsn subscription)
    (heval : executeRecordQueryEvaluation cfg.lib around subscription = .ok evaluation) :
    ∀ row ∈ evaluation.response.rows, Allows s.schema cfg.userId row := by
  intro row hrow
  obtain ⟨response, hresponse, heq⟩ := bind_eq_ok.mp heval
  obtain rfl := Except.ok.inj heq
  obtain ⟨htable, hrows⟩ := hexec subscription response hresponse
  obtain ⟨record, hrecord, rfl⟩ := mem_map.mp hrow
  obtain ⟨hstored, hscope⟩ := hrows record hrecord
  show Allows s.schema cfg.userId (response.table, record)
  rw [htable]
  exact h.stored record hstored hscope

/-- The entries of a cache that a query may be answered from. -/
def CacheShows (cfg : ConnectionConfig) (s : RealtimeState) (around : Surroundings)
    (lsn : Option Nat) (cache : LiveQueryEvaluationCache) : Prop :=
  ∀ subscription token evaluation, QueryShows cfg s around lsn subscription →
    liveQueryCacheToken around subscription lsn = some token →
    (⟨token, subscription.planKey cfg.lib⟩, evaluation) ∈ cache →
    ∀ row ∈ evaluation.response.rows, Allows s.schema cfg.userId row

theorem CacheShows.start : CacheShows cfg s around lsn s.cache :=
  fun _ token evaluation h htoken hmem => h.cached token evaluation htoken hmem

theorem cached_shows {cache : LiveQueryEvaluationCache} (hexec : Executes cfg.lib s around)
    (hcache : CacheShows cfg s around lsn cache) (h : QueryShows cfg s around lsn subscription) :
    let cached := cachedRecordQueryEvaluation cfg.lib around cache subscription
      (liveQueryCacheToken around subscription lsn)
    CacheShows cfg s around lsn cached.2 ∧ ∀ evaluation, cached.1 = .ok evaluation → ∀ row ∈ evaluation.response.rows,
      Allows s.schema cfg.userId row := by
  intro cached
  have hcached : cached =
    cachedRecordQueryEvaluation cfg.lib around cache subscription (liveQueryCacheToken around subscription lsn) := rfl
  cases htoken : liveQueryCacheToken around subscription lsn with
  | none =>
    rw [htoken] at hcached
    rw [hcached]
    exact ⟨hcache, fun evaluation heval => executed_shows hexec h heval⟩
  | some token =>
    rw [htoken] at hcached
    simp only [cachedRecordQueryEvaluation] at hcached
    split at hcached
    · next evaluation hfound =>
      rw [hcached]
      refine ⟨hcache, fun evaluation' heq => ?_⟩
      obtain rfl := Except.ok.inj heq
      exact hcache subscription token evaluation h htoken (mem_of_lookup hfound)
    · split at hcached
      · rw [hcached]
        exact ⟨hcache, fun _ h => nomatch h⟩
      · next evaluation heval =>
        have hshows := executed_shows hexec h heval
        rw [hcached]
        refine ⟨fun other token' evaluation' hother htoken' hmem => ?_, fun evaluation' heq => ?_⟩
        · dsimp only at hmem
          rcases mem_insertEntry (mem_of_mem_drop hmem) with hnew | hold
          · rw [show evaluation' = evaluation from congrArg Prod.snd hnew]
            exact hshows
          · exact hcache other token' evaluation' hother htoken' hold
        · obtain rfl := Except.ok.inj heq
          exact hshows

theorem prepared_shows {lib : QueryLibrary} {limits : LiveQueryLimits} {currentLsn : Nat}
    {force : Bool} {deletedHints : RecordQueryDeletedHints} (h :
    prepareRecordQueryEvaluation lib limits currentLsn subscription force deletedHints evaluation = .ok (some frame))
    (hshows : ∀ row ∈ evaluation.response.rows, Allows schema userId row) :
    FrameShows schema userId frame := by
  unfold prepareRecordQueryEvaluation at h
  split at h
  · cases h
  · obtain ⟨_, -, h⟩ := bind_eq_ok.mp h
    split at h
    · cases hlast : subscription.lastResponse with
      | none =>
        rw [hlast] at h
        obtain rfl := some.inj (Except.ok.inj h)
        exact hshows
      | some previous =>
        rw [hlast] at h
        obtain rfl := some.inj (Except.ok.inj h)
        exact fun row hrow => hshows row (recordQueryDiff_rows hrow)
    · obtain rfl := some.inj (Except.ok.inj h)
      exact hshows

/-! ### Batches -/

/-- What holds between the queries of a batch. -/
structure BatchShows (cfg : ConnectionConfig) (s : RealtimeState) (around : Surroundings)
    (lsn : Option Nat) (ids : List String) (batch : BatchState) : Prop where
  queries : ∀ queryId ∈ ids, ∀ subscription, batch.connection.subscribedQueries[queryId]? = some subscription →
    QueryShows cfg s around lsn subscription
  cache : CacheShows cfg s around lsn batch.cache
  evaluated : ∀ (planKey : RecordQueryPlanKey) (evaluation : RecordQueryEvaluation),
    (planKey, .ok evaluation) ∈ batch.evaluated → ∀ row ∈ evaluation.response.rows, Allows s.schema cfg.userId row
  frames : ∀ frame ∈ batch.frames, FrameShows s.schema cfg.userId frame

variable {ids : List String} {batch : BatchState} {deletedHints : RecordQueryDeletedHints}

section
variable (h : BatchShows cfg s around lsn ids batch)
include h

theorem BatchShows.evaluate (hexec : Executes cfg.lib s around)
    (hshows : QueryShows cfg s around lsn subscription) :
    let done := evaluateInBatch cfg around lsn batch subscription
    BatchShows cfg s around lsn ids done.2 ∧ done.2.connection = batch.connection ∧
      ∀ evaluation, done.1 = .ok evaluation → ∀ row ∈ evaluation.response.rows, Allows s.schema cfg.userId row := by
  intro done
  have hdone : done = evaluateInBatch cfg around lsn batch subscription := rfl
  simp only [evaluateInBatch] at hdone
  split at hdone
  · next evaluation hfound =>
    rw [hdone]
    refine ⟨h, rfl, fun evaluation' heq => ?_⟩
    have heq : evaluation = .ok evaluation' := heq
    exact h.evaluated _ evaluation' (mem_of_lookup (heq ▸ hfound))
  · obtain ⟨hcache, hrows⟩ := cached_shows hexec h.cache hshows
    rw [hdone]
    refine ⟨{ h with cache := hcache, evaluated := fun planKey evaluation hmem => ?_ }, rfl, hrows⟩
    rcases mem_cons.mp hmem with hnew | hold
    · exact hrows evaluation (congrArg Prod.snd hnew).symm
    · exact h.evaluated planKey evaluation hold

theorem BatchShows.fail (err : String) : BatchShows cfg s around lsn ids (batch.fail err) := by
  refine { h with frames := fun frame hmem => ?_ }
  rcases mem_append.mp hmem with hold | hnew
  · exact h.frames frame hold
  · obtain rfl := mem_singleton.mp hnew
    exact fun _ h => nomatch h

theorem BatchShows.refresh (hexec : Executes cfg.lib s around) {queryId : String}
    (hmem : queryId ∈ ids) :
    BatchShows cfg s around lsn ids (refreshQuery cfg s around lsn deletedHints batch queryId) := by
  unfold refreshQuery
  split
  · exact h
  · next subscription hfound =>
    have hshows := h.queries queryId hmem subscription hfound
    obtain ⟨hdone, hconnection, hrows⟩ := h.evaluate hexec hshows
    dsimp only
    split
    · exact hdone.fail _
    · next evaluation heval =>
      split
      · exact hdone.fail _
      · exact hdone
      · next frame hframe =>
        refine { hdone with queries := fun other hother given hgiven => ?_, frames := fun shown hshown => ?_ }
        · rw [Std.ExtTreeMap.getElem?_insert] at hgiven
          split at hgiven
          · obtain rfl := some.inj hgiven
            exact ⟨hshows.stored, hshows.cached⟩
          · exact hdone.queries other hother given hgiven
        · rcases mem_append.mp hshown with hold | hnew
          · exact hdone.frames shown hold
          · obtain rfl := mem_singleton.mp hnew
            exact prepared_shows hframe (hrows evaluation heval)

theorem BatchShows.refreshAll {rest : List String}
    (hexec : Executes cfg.lib s around) (hsub : ∀ queryId ∈ rest, queryId ∈ ids) :
    BatchShows cfg s around lsn ids (rest.foldl (refreshQuery cfg s around lsn deletedHints) batch) := by
  induction rest generalizing batch with
  | nil => exact h
  | cons queryId rest ih =>
    exact ih (h.refresh hexec (hsub queryId mem_cons_self)) fun other hother =>
      hsub other (mem_cons_of_mem queryId hother)

end

theorem encodeDeliveryEventsFrame_rows {events : List DeliveryEvent}
    (h : encodeDeliveryEventsFrame events = some frame)
    {row : String × DbRecord} (hrow : row ∈ frame.rows) : ∃ event ∈ events, row ∈ event.rows := by
  match events, h with
  | [event], h =>
    obtain rfl := some.inj h
    exact ⟨event, mem_singleton.mpr rfl, hrow⟩
  | event :: next :: rest, h =>
    obtain rfl := some.inj h
    exact mem_flatMap.mp hrow

theorem eventsFrame_shows (hdotted : DottedPublic s.schema) (batch : RoutedRealtimeEventBatch) :
    ∀ frame ∈ eventsFrame cfg s batch, FrameShows s.schema cfg.userId frame := by
  intro frame hframe row hrow
  simp only [eventsFrame] at hframe
  split at hframe
  · cases hframe
  · split at hframe
    · next hall =>
      obtain ⟨event, hevent, hrow⟩ :=
        encodeDeliveryEventsFrame_rows (batch.encoded frame (mem_toList.mp hframe)) hrow
      have hdeliver := length_filter_eq_length_iff.mp hall.1 event hevent
      exact shouldDeliverEvent_rows hdotted hdeliver hrow
    · obtain ⟨event, hevent, hrow⟩ := encodeDeliveryEventsFrame_rows (mem_toList.mp hframe) hrow
      exact shouldDeliverEvent_rows hdotted (mem_filter.mp hevent).2 hrow

theorem batch_shows (hdotted : DottedPublic s.schema)
    (hexec : Executes cfg.lib s around) {batch : RoutedRealtimeEventBatch} {lagged : Option Nat}
    (hqueries : ∀ queryId ∈ (affectedBy cfg s batch).1, ∀ subscription,
      s.connection.subscribedQueries[queryId]? =
    some subscription → QueryShows cfg s around (recordEventBatchCacheLsn batch.events s.currentLsn) subscription) :
    ∀ frame ∈ (processRealtimeEventBatch cfg s around batch lagged).frames,
    FrameShows s.schema cfg.userId frame := by
  intro frame hframe
  rcases mem_append.mp hframe with hdone | hlagged
  · have hstart : BatchShows cfg s around (recordEventBatchCacheLsn batch.events s.currentLsn)
        (affectedBy cfg s batch).1 ⟨s.connection, s.cache, [], eventsFrame cfg s batch⟩ :=
      ⟨hqueries, CacheShows.start, fun _ _ hmem => (by cases hmem), eventsFrame_shows hdotted batch⟩
    exact (hstart.refreshAll hexec fun _ h => h).frames frame hdone
  · obtain ⟨skipped, -, rfl⟩ := map_eq_some_iff.mp (mem_toList.mp hlagged)
    exact fun _ h => nomatch h

/-! ### Frames of the client -/

/-- No frame has a row that the user may not read. -/
def Handled.Shows (schema : DatabaseSchema) (userId : Option String) (handled : Handled) : Prop :=
  ∀ frame ∈ handled.frames, FrameShows schema userId frame

theorem FrameShows.bare (h : frame.rows = []) : FrameShows schema userId frame :=
  fun row hrow => (by rw [h] at hrow; cases hrow)

theorem bare_shows (h : ∀ frame ∈ frames, frame.rows = []) :
    ∀ frame ∈ frames, FrameShows schema userId frame :=
  fun frame hframe => .bare (h frame hframe)

theorem append_shows {more : List ServerFrame}
    (h : ∀ frame ∈ frames, FrameShows schema userId frame)
    (hmore : ∀ frame ∈ more, FrameShows schema userId frame) :
    ∀ frame ∈ frames ++ more, FrameShows schema userId frame :=
  fun frame hframe => (mem_append.mp hframe).elim (h frame) (hmore frame)

theorem activationFrames_bare : ∀ frame ∈ activationFrames around, frame.rows = [] := by
  intro frame hframe
  unfold activationFrames at hframe
  split at hframe
  · cases hframe
  · obtain rfl := mem_singleton.mp hframe
    rfl

theorem catchUpFrom_shows (hdotted : DottedPublic s.schema) (filters : SyncFilters)
    (afterLsn limit : Option Nat) :
    ∀ frame ∈ catchUpFrom cfg s around filters afterLsn limit,
    FrameShows s.schema cfg.userId frame := by
  intro frame hframe
  cases afterLsn with
  | none => cases hframe
  | some afterLsn =>
    have hframe : frame ∈ sendSubscriptionCatchUp cfg s around filters afterLsn limit := hframe
    unfold sendSubscriptionCatchUp at hframe
    split at hframe
    · obtain rfl := mem_singleton.mp hframe
      exact .bare rfl
    · rcases mem_append.mp hframe with hpage | hend
      · obtain ⟨event, hevent, rfl⟩ := mem_map.mp hpage
        exact fun row hrow => filterVisibleCatchUpEvents_rows hdotted hevent hrow
      · obtain rfl := mem_singleton.mp hend
        exact .bare rfl

theorem snapshotFrames_shows (hdotted : DottedPublic s.schema) {name : String} {limit : Option Nat}
    {frame : ListRecordsResponse → ServerFrame}
    (hrows : ∀ response, (frame response).rows = response.rows) :
    ∀ shown ∈ snapshotFrames cfg s around name limit frame,
    FrameShows s.schema cfg.userId shown := by
  intro shown hshown
  unfold snapshotFrames at hshown
  split at hshown
  · cases hshown
  · split at hshown
    · obtain rfl := mem_singleton.mp hshown
      intro row hrow
      rw [hrows] at hrow
      exact filterVisibleTableSnapshot_rows hdotted hrow
    · obtain rfl := mem_singleton.mp hshown
      exact .bare rfl

theorem one_bare_shows (h : frame.rows = []) :
    ∀ shown ∈ [frame], FrameShows schema userId shown := by
  intro shown hshown
  obtain rfl := mem_singleton.mp hshown
  exact .bare h

theorem subscribeTable_shows (hdotted : DottedPublic s.schema)
    (subscription : TableSubscription) (snapshotLimit afterLsn catchUpLimit : Option Nat) :
    (subscribeTable cfg s around subscription snapshotLimit afterLsn catchUpLimit).Shows s.schema cfg.userId := by
  unfold subscribeTable
  split
  · exact one_bare_shows rfl
  · exact append_shows (append_shows (one_bare_shows rfl) (snapshotFrames_shows hdotted fun _ => rfl))
      (catchUpFrom_shows hdotted _ _ _)

theorem subscribeNestedTable_shows (hdotted : DottedPublic s.schema)
    (subscription : NestedTableSubscription) (snapshotLimit afterLsn catchUpLimit : Option Nat) :
    (subscribeNestedTable cfg s around subscription snapshotLimit afterLsn catchUpLimit).Shows s.schema cfg.userId := by
  unfold subscribeNestedTable
  split
  · exact one_bare_shows rfl
  · refine append_shows (append_shows (append_shows ?_ (one_bare_shows rfl))
      (snapshotFrames_shows hdotted fun _ => rfl)) (catchUpFrom_shows hdotted _ _ _)
    split
    · exact bare_shows activationFrames_bare
    · exact fun _ h => nomatch h

theorem subscribeQuery_shows (hexec : Executes cfg.lib s around)
    (h : QueryShows cfg s around (some s.currentLsn) subscription) :
    (subscribeQuery cfg s around subscription).Shows s.schema cfg.userId := by
  unfold subscribeQuery
  split
  · exact one_bare_shows rfl
  · split
    · exact one_bare_shows rfl
    · obtain ⟨-, hrows⟩ := cached_shows hexec CacheShows.start h
      dsimp only
      split
      · exact one_bare_shows rfl
      · next evaluation heval =>
        split
        · exact one_bare_shows rfl
        · exact fun frame hframe => .bare (by
            rcases mem_cons.mp hframe with rfl | hframe
            · rfl
            · obtain rfl := mem_singleton.mp hframe
              rfl)
        · next frame hframe =>
          intro shown hshown
          rcases mem_cons.mp hshown with rfl | hshown
          · exact prepared_shows hframe (hrows evaluation heval)
          · obtain rfl := mem_singleton.mp hshown
            exact .bare rfl

theorem handleClientFrame_shows {f : ClientFrame} (hexec : Executes cfg.lib s around)
    (h : QueriesShow cfg s (.frame f around)) :
    (handleClientFrame cfg s around f).Shows s.schema cfg.userId := by
  obtain ⟨hdotted, hquery⟩ := h
  cases f with
  | subscribeRoom roomId afterLsn catchUpLimit =>
    exact append_shows (append_shows (bare_shows activationFrames_bare) (one_bare_shows rfl))
      (catchUpFrom_shows hdotted _ _ _)
  | subscribeTable subscription snapshotLimit afterLsn catchUpLimit =>
    exact subscribeTable_shows hdotted subscription snapshotLimit afterLsn catchUpLimit
  | subscribeNestedTable subscription snapshotLimit afterLsn catchUpLimit =>
    exact subscribeNestedTable_shows hdotted subscription snapshotLimit afterLsn catchUpLimit
  | subscribeQuery queryId table parentKey nested indexName query order resultId diff =>
    exact subscribeQuery_shows hexec hquery
  | subscribeUserEvents afterLsn catchUpLimit =>
    show (subscribeUserEvents cfg s around afterLsn catchUpLimit).Shows s.schema cfg.userId
    unfold subscribeUserEvents
    split
    · exact one_bare_shows rfl
    · exact catchUpFrom_shows hdotted _ _ _
  | subscribeObjects afterLsn catchUpLimit =>
    exact append_shows (one_bare_shows rfl) (catchUpFrom_shows hdotted _ _ _)
  | _ => exact one_bare_shows rfl

/-! ### Runs -/

/-- All that the connection was sent the user might read, by the schema of the time. -/
def SentVisible (cfg : ConnectionConfig) (s : RealtimeState) : Prop :=
  ∀ sent ∈ s.sent, FrameShows sent.1 cfg.userId sent.2

theorem SentVisible.handled (h : SentVisible cfg s) {handled : Handled}
    (hshows : handled.Shows s.schema cfg.userId) :
    SentVisible cfg (s.handled handled) := by
  intro sent hsent
  rcases mem_append.mp hsent with hold | hnew
  · exact h sent hold
  · obtain ⟨frame, hframe, rfl⟩ := mem_map.mp hnew
    exact hshows frame hframe

theorem SentVisible.step {t : RealtimeState} {e : RealtimeEvent} (h : SentVisible cfg s)
    (hmeets : QueriesShow cfg s e) (hstep : RealtimeStep cfg s e t) : SentVisible cfg t := by
  cases hstep with
  | append | store | applySchema | evaluate => exact h
  | frame hexec => exact h.handled (handleClientFrame_shows hexec hmeets)
  | deliver hexec => exact h.handled (batch_shows hmeets.1 hexec hmeets.2)
  | reconnect => exact h.handled (one_bare_shows rfl)

end Shown

/-- In every run whose steps answer live queries only with what the user may read, under schemas
whose tables with a dot in their name are public, the connection is sent only rows that the user may
read. -/
theorem frames_visible {cfg : ConnectionConfig} {s t : RealtimeState} (hs : s.sent = [])
    (hrun : Reaches (RealtimeStep cfg) (QueriesShow cfg) s t) {schema : DatabaseSchema}
    {frame : ServerFrame}
    (hsent : (schema, frame) ∈ t.sent) {row : String × DbRecord} (hrow : row ∈ frame.rows) :
    Allows schema cfg.userId row := by
  have hstart : SentVisible cfg s := fun sent hmem => (by rw [hs] at hmem; cases hmem)
  exact hrun.invariant (fun _ _ _ h hmeets hstep => h.step hmeets hstep) hstart _ hsent row hrow

/-! ## A query of a table with a policy -/

theorem subscribeQuery_result {cfg : ConnectionConfig} {s : RealtimeState}
    {around : Surroundings} {subscription : RecordQuerySubscription}
    {response : ListRecordsResponse}
    (hvalid : isValidQueryId subscription.queryId = true) (hlimits : cfg.limits = ⟨0, 0, 0, 0⟩)
    (hcache : s.cache = [])
    (hexec : around.executed subscription = .ok response)
    (hfresh : subscription.lastResultId = none) :
    .queryResult subscription.queryId response s.currentLsn (cfg.lib.resultId response) ∈
    (subscribeQuery cfg s around subscription).frames := by
  have heval : executeRecordQueryEvaluation cfg.lib around subscription = .ok ⟨response, cfg.lib.resultId response⟩ :=
      by
    rw [executeRecordQueryEvaluation, hexec]
    rfl
  simp [subscribeQuery, hvalid, hlimits, RealtimeConnectionState.querySubscriptionLimitError,
    userQuerySubscriptionLimitError, cachedRecordQueryEvaluation, liveQueryCacheToken, hcache, heval,
    prepareRecordQueryEvaluation, hfresh, ensureLiveQueryResultSize, bind, Except.bind, pure, Except.pure]

section Sample

/-- Documents are read by their owners. -/
def docsSchema : DatabaseSchema where
  name := "docs"
  version := 1
  objects := ∅
  tables := (∅ : BTreeMap String TableSchema).insert "docs" ⟨.resident, ∅, ∅, ⟨[.fieldEqualsUserId "owner"]⟩, ∅⟩
  events := ∅
  behaviors := ∅

variable (owner : String)

def docOf : DbRecord where
  table := "docs"
  key := "a"
  value := ⟨.object [("owner", .string owner)], List.pairwise_singleton _ _, trivial, trivial⟩
  updatedAtMs := 1
  lsn := 1
  path := "tables/docs/a"

def plainLibrary : QueryLibrary where
  valueEq _ _ := false
  compareNumbers _ _ := none
  parseValue _ := none
  parseValues text := .error text
  indexQueryText _ := ""
  predicateText _ := ""
  resultId _ := "result"

def alice : ConnectionConfig := ⟨plainLibrary, ⟨0, 0, 0, 0⟩, some "alice", "session"⟩

def docState : RealtimeState where
  schema := docsSchema
  currentLsn := 1
  walRecords := []
  records table key := if table = "docs" ∧ key = "a" then some (docOf owner) else none
  cache := []
  connection := .new
  sent := []

def docsOf : ListRecordsResponse := ⟨"docs", [docOf owner], some "a", none, false⟩

def docAround : Surroundings where
  activated := .ok ()
  snapshot := .ok (docsOf owner)
  walRead := .ok ()
  otherSessionQueries := 0
  volatileGeneration _ _ := 0
  executed subscription :=
    if subscription.subscribedTable = "docs" ∧ inScope plainLibrary docsSchema subscription (docOf owner) then
      .ok (docsOf owner)
    else .error "table not found"

def allDocs : QueryRecordsByIndexQuery :=
  ⟨none, none, none, none, none, none, none, none, none, none⟩

def queryDocs : ClientFrame := .subscribeQuery "q" "docs" none none none allDocs none none false

def docsQuery : RecordQuerySubscription :=
  querySubscription plainLibrary docsSchema "q" "docs" none none none allDocs none none false

theorem docs_execute : Executes plainLibrary (docState owner) (docAround owner) := by
  intro subscription response h
  simp only [docAround] at h
  split at h
  · next hquery =>
    obtain rfl := Except.ok.inj h
    refine ⟨hquery.1.symm, fun record hrecord => ?_⟩
    obtain rfl := mem_singleton.mp hrecord
    exact ⟨if_pos ⟨hquery.1, rfl⟩, hquery.2⟩
  · cases h

theorem docs_sent :
    ((docState owner).handled (handleClientFrame alice (docState owner) (docAround owner) queryDocs)).sent =
    (handleClientFrame alice (docState owner) (docAround owner) queryDocs).frames.map (docsSchema,
    ·) := rfl

theorem docs_result : (docsSchema, .queryResult "q" (docsOf owner) 1 "result") ∈
    ((docState owner).handled (handleClientFrame alice (docState owner) (docAround owner) queryDocs)).sent := by
  rw [docs_sent]
  refine mem_map_of_mem ?_
  have hexec : (docAround owner).executed docsQuery = .ok (docsOf owner) := by
    simp only [docAround]
    exact if_pos ⟨rfl, rfl⟩
  exact @subscribeQuery_result alice (docState owner) (docAround owner) docsQuery (docsOf owner) (by decide) rfl rfl
    hexec rfl

theorem docs_policy {path : TablePath} {policy : ReadVisibilityPolicy}
    (h : tablePolicy docsSchema path = some policy) :
    path = .table "docs" ∧ policy = ⟨[.fieldEqualsUserId "owner"]⟩ := by
  cases path with
  | table name =>
    obtain ⟨table, htable, rfl⟩ := map_eq_some_iff.mp h
    rw [docsSchema, Std.ExtTreeMap.getElem?_insert] at htable
    split at htable
    · next hname =>
      obtain rfl := some.inj htable
      exact ⟨congrArg TablePath.table (compare_eq_iff_eq.mp hname).symm, rfl⟩
    · simp at htable
  | nested parent name =>
    obtain ⟨nested, hnested, -⟩ := map_eq_some_iff.mp h
    obtain ⟨table, htable, hnested⟩ := bind_eq_some_iff.mp hnested
    rw [docsSchema, Std.ExtTreeMap.getElem?_insert] at htable
    split at htable
    · obtain rfl := some.inj htable
      simp at hnested
    · simp at htable

theorem docs_allowed : Allows docsSchema (some "alice") ("docs", docOf "alice") := by
  intro path policy hname hpolicy
  rw [(docs_policy hpolicy).2]
  decide

theorem frames_visible_sample : Allows docsSchema alice.userId ("docs", docOf "alice") := by
  have h₀ : Reaches (RealtimeStep alice) (QueriesShow alice) (docState "alice") (docState "alice") := Reaches.refl _
  have hdotted : DottedPublic docsSchema := by
    intro path policy hdot hpolicy
    rw [(docs_policy hpolicy).1] at hdot
    exact absurd hdot (by decide)
  have hshows : QueriesShow alice (docState "alice") (.frame queryDocs (docAround "alice")) := by
    refine ⟨hdotted, fun record hstored hscope => ?_, fun _ _ _ h => nomatch h⟩
    simp only [docState] at hstored
    split at hstored
    · obtain rfl := some.inj hstored
      exact docs_allowed
    · cases hstored
  have hrun := h₀.take (e := RealtimeEvent.frame queryDocs (docAround "alice")) (.frame (docs_execute "alice")) hshows
  exact frames_visible rfl hrun (docs_result "alice") (mem_singleton.mpr rfl)

/-- A live query of a table whose rows only their owners may read is sent the row of another user.
-/
theorem query_shows_hidden :
    ¬∀ (cfg : ConnectionConfig) (s t : RealtimeState) (schema : DatabaseSchema)
    (frame : ServerFrame) (row : String × DbRecord), s.sent = [] →
    Reaches (RealtimeStep cfg) (fun _ _ => True) s t →
    (schema, frame) ∈ t.sent → row ∈ frame.rows → Allows schema cfg.userId row := by
  intro hall
  have h₀ : Reaches (RealtimeStep alice) (fun _ _ => True) (docState "bob") (docState "bob") := Reaches.refl _
  have hrun := h₀.take (.frame (f := queryDocs) (docs_execute "bob")) trivial
  have hallows := hall alice _ _ _ _ ("docs", docOf "bob") rfl hrun (docs_result "bob") (mem_singleton.mpr rfl)
  have hrefused := hallows (.table "docs") ⟨[.fieldEqualsUserId "owner"]⟩ rfl (by
    rw [tablePolicy, docsSchema, Std.ExtTreeMap.getElem?_insert_self]
    rfl)
  exact absurd hrefused (by decide)

end Sample

end NextDb.Api.Connections
