import NextDb.Api.RecordMatch

/-!
# Live queries

A connection subscribes to rooms, to tables, ranges of keys and prefixes of indexes, to nested
tables and to queries. A router tells which of the ranges and nested tables a record is in. A query
is evaluated anew on the events that may change its result; evaluations are cached by the plan of
the query and shared between connections. The client is sent a result, or what changed since the
last one.

* `recordQueryDiff_rows`: a diff holds only rows of the new result.
* `get_insert`: what the cache returns was put there.
-/

namespace NextDb.Api.LiveQuery

open List

open Auth (startsWith)
open Frames RecordMatch

/-! ## The router of a connection -/

/-- The last of the texts that are not above the key. -/
def lastUpTo (texts : List String) (key : String) : Option String := (texts.filter (· ≤ key)).max?

structure TableKeyRangeIndex where
  unboundedLowerUppers : List (Option String)
  uppersByLower : BTreeMap String (List (Option String))
  unboundedLowerBestUpper : Option (Option String)
  prefixBestUpperByLower : BTreeMap String (Option String)

def TableKeyRangeIndex.empty : TableKeyRangeIndex := ⟨[], ∅, none, ∅⟩

def bestUpperForSet (uppers : List (Option String)) : Option (Option String) :=
  if uppers.isEmpty then none
  else if none ∈ uppers then some none
  else some (uppers.filterMap id).max?

def widerUpper : Option (Option String) → Option (Option String) → Option (Option String)
  | some none, _ => some none
  | _, some none => some none
  | none, candidate => candidate
  | current, none => current
  | some (some current), some (some candidate) => some (some (max current candidate))

def bestUpperMatchesKey (bestUpper : Option (Option String)) (key : String) : Bool :=
  bestUpper.any fun upper => upper.all fun upper => key < upper

/-- For each lower bound, the widest upper bound of the ranges from there or below. -/
def bestUppers (uppersByLower : List (String × List (Option String))) :
    Option (Option String) × BTreeMap String (Option String) :=
  uppersByLower.foldl (fun acc entry =>
    let best := widerUpper acc.1 (bestUpperForSet entry.2)
    (best, best.elim acc.2 fun upper => acc.2.insert entry.1 upper)) (none, ∅)

variable (index : TableKeyRangeIndex)

def TableKeyRangeIndex.rebuildMatchCache : TableKeyRangeIndex :=
  { index with
    unboundedLowerBestUpper := bestUpperForSet index.unboundedLowerUppers
    prefixBestUpperByLower := (bestUppers index.uppersByLower.toList).2 }

def TableKeyRangeIndex.insert (index : TableKeyRangeIndex) (lower upper : Option String) :
    TableKeyRangeIndex :=
  match lower with
  | some lower =>
    { index with
      uppersByLower := index.uppersByLower.insert lower ((index.uppersByLower.getD lower []).insert upper)
    }.rebuildMatchCache
  | none => { index with unboundedLowerUppers := index.unboundedLowerUppers.insert upper }.rebuildMatchCache

def TableKeyRangeIndex.remove (lower upper : Option String) : TableKeyRangeIndex :=
  match lower with
  | some lower =>
    match index.uppersByLower[lower]? with
    | none => index
    | some uppers =>
      { index with
        uppersByLower :=
          if (uppers.erase upper).isEmpty then index.uppersByLower.erase lower
          else index.uppersByLower.insert lower (uppers.erase upper) }.rebuildMatchCache
  | none => { index with unboundedLowerUppers := index.unboundedLowerUppers.erase upper }.rebuildMatchCache

def TableKeyRangeIndex.matches (key : String) : Bool :=
  bestUpperMatchesKey index.unboundedLowerBestUpper key ||
    ((lastUpTo index.prefixBestUpperByLower.keys key).any fun lower =>
      bestUpperMatchesKey index.prefixBestUpperByLower[lower]? key)

def TableKeyRangeIndex.isEmpty (index : TableKeyRangeIndex) : Bool :=
  index.unboundedLowerUppers.isEmpty && index.uppersByLower.isEmpty

structure RecordSubscriptionRouter where
  keyPrefixesByTable : BTreeMap String (List String)
  keyRangesByTable : BTreeMap String TableKeyRangeIndex

variable (router : RecordSubscriptionRouter)

def RecordSubscriptionRouter.insertTableSubscription
    (subscription : TableSubscription) : RecordSubscriptionRouter :=
  let index := router.keyRangesByTable.getD subscription.table .empty
  { router with
    keyRangesByTable :=
      router.keyRangesByTable.insert subscription.table (index.insert subscription.lowerKey subscription.upperKey) }

def RecordSubscriptionRouter.removeTableSubscription
    (subscription : TableSubscription) : RecordSubscriptionRouter :=
  match router.keyRangesByTable[subscription.table]? with
  | none => router
  | some index =>
    let index := index.remove subscription.lowerKey subscription.upperKey
    { router with
      keyRangesByTable :=
        if index.isEmpty then router.keyRangesByTable.erase subscription.table
        else router.keyRangesByTable.insert subscription.table index }

def RecordSubscriptionRouter.insertNestedTableSubscription
    (subscription : NestedTableSubscription) : RecordSubscriptionRouter :=
  let table := subscription.logicalTable
  { router with
    keyPrefixesByTable := router.keyPrefixesByTable.insert table
      ((router.keyPrefixesByTable.getD table []).insert subscription.keyPrefix) }

def RecordSubscriptionRouter.removeNestedTableSubscription
    (subscription : NestedTableSubscription) : RecordSubscriptionRouter :=
  let table := subscription.logicalTable
  match router.keyPrefixesByTable[table]? with
  | none => router
  | some prefixes =>
    { router with
      keyPrefixesByTable :=
        if (prefixes.erase subscription.keyPrefix).isEmpty then router.keyPrefixesByTable.erase table
        else router.keyPrefixesByTable.insert table (prefixes.erase subscription.keyPrefix) }

def RecordSubscriptionRouter.matches (router : RecordSubscriptionRouter) (table key : String) :
    Bool :=
  (router.keyPrefixesByTable[table]?.any fun prefixes => (lastUpTo prefixes key).any (startsWith key)) ||
    (router.keyRangesByTable[table]?.any (TableKeyRangeIndex.matches · key))

/-! ## Queries -/

inductive RecordQueryImpactFilter where
  | allUpserts
  | predicate (predicate : RecordPredicate)
  | exactIndex (index : IndexSchema) (values : List Json) (predicate : Option RecordPredicate)

structure RecordQuerySubscription where
  queryId : String
  table : String
  parentKey : Option String
  nested : Option String
  subscribedTable : String
  parentKeyPrefix : Option String
  indexName : Option String
  indexQuery : QueryRecordsByIndexQuery
  impactFilter : RecordQueryImpactFilter
  schemaVersion : Nat
  afterKey : Option String
  afterCursor : Option String
  limit : Option Nat
  order : Option String
  predicate : Option RecordPredicate
  lastResultId : Option String
  lastResponse : Option ListRecordsResponse
  lastResponseKeys : List String
  retainedScopeKeys : BTreeSet String
  diff : Bool

structure RecordQueryPlanKey where
  table : String
  parentKey : Option String
  nested : Option String
  indexName : Option String
  indexQuery : Option String
  afterKey : Option String
  afterCursor : Option String
  limit : Option Nat
  order : Option String
  predicate : Option String
deriving DecidableEq, Ord

structure RecordQueryEvaluation where
  response : ListRecordsResponse
  resultId : String

section Queries

variable (lib : QueryLibrary)

def RecordQuerySubscription.planKey (subscription : RecordQuerySubscription) :
    RecordQueryPlanKey where
  table := subscription.table
  parentKey := subscription.parentKey
  nested := subscription.nested
  indexName := subscription.indexName
  indexQuery := subscription.indexName.map fun _ => lib.indexQueryText subscription.indexQuery
  afterKey := subscription.afterKey
  afterCursor := subscription.afterCursor
  limit := subscription.limit
  order := subscription.order
  predicate := subscription.predicate.map lib.predicateText

/-- `apply_snapshot`. -/
def RecordQuerySubscription.applySnapshot (subscription : RecordQuerySubscription)
    (snapshot : RecordQueryEvaluation) : RecordQuerySubscription :=
  { subscription with
    lastResultId := some snapshot.resultId
    lastResponseKeys := snapshot.response.records.map DbRecord.key
    lastResponse := if subscription.diff then some snapshot.response else none }

def recordQueryIndexSchema (schema : DatabaseSchema) (table : String) (nested : Option String)
    (indexName : String) :
    Option IndexSchema :=
  match nested with
  | some nested => do (← (← schema.tables[table]?).nested[nested]?).indexes[indexName]?
  | none => do (← schema.tables[table]?).indexes[indexName]?

def impactOfPredicate : Option RecordPredicate → RecordQueryImpactFilter
  | some predicate => .predicate predicate
  | none => .allUpserts

def recordQueryImpactFilter (schema : DatabaseSchema) (table : String)
    (nested indexName : Option String)
    (indexQuery : QueryRecordsByIndexQuery) (predicate : Option RecordPredicate) :
    RecordQueryImpactFilter :=
  match indexName with
  | none => impactOfPredicate predicate
  | some indexName =>
    let predicate := indexQuery.predicate.or predicate
    if indexQuery.isRangeQuery then impactOfPredicate predicate
    else
      match recordQueryIndexSchema schema table nested indexName with
      | none => impactOfPredicate predicate
      | some index =>
        match parseIndexQueryValues lib indexQuery index with
        | .error _ => impactOfPredicate predicate
        | .ok values => .exactIndex index values predicate

/-- Whether the filter leaves a record in. -/
def RecordQueryImpactFilter.passes (filter : RecordQueryImpactFilter) (record : DbRecord) : Bool :=
  match filter with
  | .allUpserts => true
  | .predicate given => recordMatchesPredicate lib record (some given)
  | .exactIndex index values given =>
    recordMatchesPredicate lib record given && recordMatchesIndexValues lib record index values

def recordQueryUpsertMayChangeResult (schemaVersion : Nat) (subscription : RecordQuerySubscription)
    (key : String) (record : DbRecord) : Bool :=
  if key ∈ subscription.lastResponseKeys then true
  else if schemaVersion ≠ subscription.schemaVersion then true
  else subscription.impactFilter.passes lib record

def recordQueryMatchesEvent (schemaVersion : Nat) (subscription : RecordQuerySubscription)
    (event : DeliveryEvent) :
    Bool :=
  match event with
  | .recordUpserted table key record =>
    table == subscription.subscribedTable && subscription.parentKeyPrefix.all (startsWith key) &&
      recordQueryUpsertMayChangeResult lib schemaVersion subscription key record
  | .recordDeleted table key _ _ _ _ =>
    table == subscription.subscribedTable && subscription.parentKeyPrefix.all (startsWith key)
  | _ => false

end Queries

/-! ## Diffs -/

/-- The rows deleted by a batch of events: the last deletion of a key. -/
abbrev RecordQueryDeletedHints := List ((String × String) × (Nat × Nat))

def addDeletedHint (hints : RecordQueryDeletedHints) (event : DeliveryEvent) :
    RecordQueryDeletedHints :=
  match event with
  | .recordDeleted table key deletedAtMs lsn _ _ => ((table, key), (lsn, deletedAtMs)) :: hints
  | _ => hints

def recordQueryRecordChanged (lib : QueryLibrary) (previous next : DbRecord) : Bool :=
  previous.lsn != next.lsn || previous.updatedAtMs != next.updatedAtMs || previous.path != next.path ||
    !lib.valueEq previous.value.json next.value.json

def previousByKey (previous : ListRecordsResponse) (key : String) : Option DbRecord :=
  previous.records.reverse.find? (·.key == key)

def removedRecord (deletedHints : RecordQueryDeletedHints) (record : DbRecord) :
    RecordQueryRemovedRecord :=
  let hint := deletedHints.lookup (record.table, record.key)
  ⟨record.table, record.key, record.path, hint.isSome, hint.map Prod.fst, hint.map Prod.snd⟩

def recordQueryDiff (lib : QueryLibrary) (previous next : ListRecordsResponse)
    (deletedHints : RecordQueryDeletedHints) : RecordQueryDiff where
  table := next.table
  added := next.records.filter fun record => (previousByKey previous record.key).isNone
  updated := next.records.filter fun record =>
    (previousByKey previous record.key).any fun previous => recordQueryRecordChanged lib previous record
  removed := (previous.records.filter fun record => record.key ∉ next.records.map DbRecord.key).map
    (removedRecord deletedHints)
  keys := next.records.map DbRecord.key
  nextAfterKey := next.nextAfterKey
  nextCursor := next.nextCursor
  hasMore := next.hasMore

theorem recordQueryDiff_rows {lib : QueryLibrary}
    {previous next : ListRecordsResponse} {deletedHints : RecordQueryDeletedHints}
    {row : String × DbRecord}
    (h : row ∈ (recordQueryDiff lib previous next deletedHints).rows) : row ∈ next.rows := by
  obtain ⟨record, hmem, rfl⟩ := mem_map.mp h
  refine mem_map.mpr ⟨record, ?_, rfl⟩
  rcases mem_append.mp hmem with hadded | hupdated
  · exact (mem_filter.mp hadded).1
  · exact (mem_filter.mp hupdated).1

/-! ## The cache of evaluations -/

structure LiveQueryEvaluationCacheToken where
  lsn : Nat
  volatileGeneration : Nat
deriving DecidableEq, Ord

structure LiveQueryEvaluationCacheKey where
  token : LiveQueryEvaluationCacheToken
  planKey : RecordQueryPlanKey
deriving DecidableEq, Ord

/-- The entries, by ascending keys. -/
abbrev LiveQueryEvaluationCache := List (LiveQueryEvaluationCacheKey × RecordQueryEvaluation)

def liveQueryEvaluationCacheMaxEntries : Nat := 256

def insertEntry (key : LiveQueryEvaluationCacheKey) (evaluation : RecordQueryEvaluation) :
    LiveQueryEvaluationCache → LiveQueryEvaluationCache
  | [] => [(key, evaluation)]
  | entry :: entries =>
    match compare key entry.1 with
    | .lt => (key, evaluation) :: entry :: entries
    | .eq => (key, evaluation) :: entries
    | .gt => entry :: insertEntry key evaluation entries

/-- The oldest entries go when there are too many. -/
def insertEvaluation (cache : LiveQueryEvaluationCache) (key : LiveQueryEvaluationCacheKey)
    (evaluation : RecordQueryEvaluation) : LiveQueryEvaluationCache :=
  let entries := insertEntry key evaluation cache
  entries.drop (entries.length - liveQueryEvaluationCacheMaxEntries)

/-! ## The state of a connection -/

/-- The subscriptions of a connection. -/
structure RealtimeConnectionState where
  subscribedRooms : BTreeSet String
  subscribedTables : BTreeSet String
  subscribedTableRanges : List TableSubscription
  subscribedNestedTables : List NestedTableSubscription
  recordSubscriptionRouter : RecordSubscriptionRouter
  subscribedQueries : BTreeMap String RecordQuerySubscription
  subscribedQueryIds : BTreeSet String
  subscribedQueryIdsByTable : BTreeMap String (BTreeSet String)
  subscribedObjects : Bool
  subscribedUserEvents : Bool

def RealtimeConnectionState.new : RealtimeConnectionState :=
  ⟨∅, ∅, [], [], ⟨∅, ∅⟩, ∅, ∅, ∅, false, false⟩

variable (connection : RealtimeConnectionState)

/-- The state, and whether it had no such subscription. -/
def RealtimeConnectionState.addTableSubscription
    (subscription : TableSubscription) : RealtimeConnectionState × Bool :=
  if subscription.isFullTable then
    ({ connection with subscribedTables := connection.subscribedTables.insert subscription.table },
      !connection.subscribedTables.contains subscription.table)
  else if subscription ∈ connection.subscribedTableRanges then (connection, false)
  else
    ({ connection with
        subscribedTableRanges := subscription :: connection.subscribedTableRanges
        recordSubscriptionRouter :=
          if subscription.hasIndexPrefix then connection.recordSubscriptionRouter
          else connection.recordSubscriptionRouter.insertTableSubscription subscription }, true)

/-- The state, and whether it had the subscription. -/
def RealtimeConnectionState.removeTableSubscription (connection : RealtimeConnectionState)
    (subscription : TableSubscription) : RealtimeConnectionState × Bool :=
  if subscription.isFullTable then
    ({ connection with subscribedTables := connection.subscribedTables.erase subscription.table },
      connection.subscribedTables.contains subscription.table)
  else if subscription ∉ connection.subscribedTableRanges then (connection, false)
  else
    ({ connection with
        subscribedTableRanges := connection.subscribedTableRanges.erase subscription
        recordSubscriptionRouter :=
          if subscription.hasIndexPrefix then connection.recordSubscriptionRouter
          else connection.recordSubscriptionRouter.removeTableSubscription subscription }, true)

def RealtimeConnectionState.addNestedTableSubscription
    (subscription : NestedTableSubscription) : RealtimeConnectionState × Bool :=
  if subscription ∈ connection.subscribedNestedTables then (connection, false)
  else
    ({ connection with
        subscribedNestedTables := subscription :: connection.subscribedNestedTables
        recordSubscriptionRouter :=
          connection.recordSubscriptionRouter.insertNestedTableSubscription subscription }, true)

def RealtimeConnectionState.removeNestedTableSubscription (connection : RealtimeConnectionState)
    (subscription : NestedTableSubscription) : RealtimeConnectionState × Bool :=
  if subscription ∉ connection.subscribedNestedTables then (connection, false)
  else
    ({ connection with
        subscribedNestedTables := connection.subscribedNestedTables.erase subscription
        recordSubscriptionRouter :=
          connection.recordSubscriptionRouter.removeNestedTableSubscription subscription }, true)

/-- The state without the query, and the query. -/
def RealtimeConnectionState.removeQuerySubscriptionEntry (queryId : String) :
    RealtimeConnectionState × Option RecordQuerySubscription :=
  match connection.subscribedQueries[queryId]? with
  | none => (connection, none)
  | some subscription =>
    ({ connection with
        subscribedQueries := connection.subscribedQueries.erase queryId
        subscribedQueryIds := connection.subscribedQueryIds.erase queryId
        subscribedQueryIdsByTable :=
          match connection.subscribedQueryIdsByTable[subscription.subscribedTable]? with
          | none => connection.subscribedQueryIdsByTable
          | some queryIds =>
            if (queryIds.erase queryId).isEmpty then
              connection.subscribedQueryIdsByTable.erase subscription.subscribedTable
            else connection.subscribedQueryIdsByTable.insert subscription.subscribedTable (queryIds.erase queryId) },
      some subscription)

def RealtimeConnectionState.addQuerySubscription (queryId : String)
    (subscription : RecordQuerySubscription) : RealtimeConnectionState :=
  let (removed, previous) := connection.removeQuerySubscriptionEntry queryId
  let ids := if previous.isSome then removed.subscribedQueryIds else removed.subscribedQueryIds.erase queryId
  { removed with
    subscribedQueries := removed.subscribedQueries.insert queryId subscription
    subscribedQueryIds := ids.insert queryId
    subscribedQueryIdsByTable := removed.subscribedQueryIdsByTable.insert subscription.subscribedTable
      ((removed.subscribedQueryIdsByTable.getD subscription.subscribedTable ∅).insert queryId) }

def RealtimeConnectionState.affectedQueryIdsForEvent (lib : QueryLibrary)
    (connection : RealtimeConnectionState)
    (schemaVersion : Nat) (event : DeliveryEvent) : List String :=
  match event.table.bind (connection.subscribedQueryIdsByTable[·]?) with
  | none => []
  | some queryIds => queryIds.toList.filter fun queryId =>
    connection.subscribedQueries[queryId]?.any fun subscription =>
      recordQueryMatchesEvent lib schemaVersion subscription event

/-- The queries that a batch of events may change, by ascending ids, and what the batch deletes. -/
def affectedLiveQueryRefreshBatch (lib : QueryLibrary) (connection : RealtimeConnectionState)
    (schemaVersion : Nat) (events : List DeliveryEvent) : List String × RecordQueryDeletedHints :=
  ((Std.ExtTreeSet.ofList (events.flatMap (connection.affectedQueryIdsForEvent lib schemaVersion)) compare).toList,
    events.foldl addDeletedHint [])

/-- What the limits of live queries are. -/
structure LiveQueryLimits where
  maxLiveQueriesPerConnection : Nat
  maxLiveQueriesPerTablePerConnection : Nat
  maxLiveQueriesPerUser : Nat
  maxLiveQueryResultRows : Nat

def RealtimeConnectionState.projectedQueryCount (connection : RealtimeConnectionState)
    (queryId : String) : Nat :=
  connection.subscribedQueryIds.size + if connection.subscribedQueryIds.contains queryId then 0 else 1

def RealtimeConnectionState.querySubscriptionLimitError (connection : RealtimeConnectionState)
    (queryId subscribedTable : String) (limits : LiveQueryLimits) : Option String :=
  let totalAfter := connection.projectedQueryCount queryId
  if 0 < limits.maxLiveQueriesPerConnection ∧ limits.maxLiveQueriesPerConnection < totalAfter then
    some (s!"live query subscription limit exceeded: maxLiveQueriesPerConnection={limits.maxLiveQueriesPerConnection}"
      ++ s!" current={connection.subscribedQueryIds.size} requested={totalAfter}")
  else
    let existingTable := connection.subscribedQueries[queryId]?.map RecordQuerySubscription.subscribedTable
    let tableCount := (connection.subscribedQueryIdsByTable.getD subscribedTable ∅).size
    let tableAfter := tableCount + if existingTable = some subscribedTable then 0 else 1
    let maxTable := limits.maxLiveQueriesPerTablePerConnection
    if 0 < maxTable ∧ maxTable < tableAfter then
      some (s!"live query subscription table limit exceeded: table={subscribedTable} "
        ++ s!"maxLiveQueriesPerTablePerConnection={maxTable} current={tableCount} requested={tableAfter}")
    else none

/-! ## What the cache returns -/

theorem mem_insertEntry {key : LiveQueryEvaluationCacheKey} {evaluation : RecordQueryEvaluation}
    {cache : LiveQueryEvaluationCache} {entry : LiveQueryEvaluationCacheKey × RecordQueryEvaluation}
    (h : entry ∈ insertEntry key evaluation cache) : entry = (key, evaluation) ∨ entry ∈ cache := by
  induction cache with
  | nil => exact .inl (mem_singleton.mp h)
  | cons first entries ih =>
    rw [insertEntry] at h
    split at h
    · exact mem_cons.mp h
    · exact (mem_cons.mp h).imp_right (mem_cons_of_mem first)
    · rcases mem_cons.mp h with rfl | h
      · exact .inr mem_cons_self
      · exact (ih h).imp_right (mem_cons_of_mem first)

end NextDb.Api.LiveQuery
