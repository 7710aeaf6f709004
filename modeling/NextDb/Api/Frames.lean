import NextDb.Api.Audit
import NextDb.Api.Auth

/-!
# Frames of realtime connections

A client sends frames to subscribe and unsubscribe; the server sends what it is subscribed to. Rows
of records are in the events, in the snapshots of tables, and in the results and diffs of live
queries.
-/

namespace NextDb.Api.Frames

open Auth (startsWith)
open Audit (nestedRecordPrefix)
open Records (nestedRecordTable)

/-! ## Events -/

inductive DeliveryEvent where
  | messageCreated (roomId : String) (message : Message)
  | volatileRoomEvent (roomId name : String) (payload : Value)
  | volatileUserEvent (userId name : String) (payload : Value) (targetSessionIds : Option (List String))
  | userEvent (userId : String) (event : UserEvent)
  | userUpserted (userId : String) (user : UserProfile)
  | recordUpserted (table key : String) (record : DbRecord)
  | recordDeleted (table key : String) (deletedAtMs lsn : Nat) (path : String) (previousRecord : Option DbRecord)
  | objectCommitted (object : ObjectMetadata) (lsn : Nat)
  | objectDeleted (objectId : String) (deletedAtMs lsn : Nat) (path : String) (force : Bool)

def DeliveryEvent.roomId : DeliveryEvent → Option String
  | .messageCreated roomId _ | .volatileRoomEvent roomId _ _ => some roomId
  | _ => none

def DeliveryEvent.userId : DeliveryEvent → Option String
  | .volatileUserEvent userId _ _ _ | .userEvent userId _ | .userUpserted userId _ => some userId
  | _ => none

def DeliveryEvent.table : DeliveryEvent → Option String
  | .recordUpserted table _ _ | .recordDeleted table _ _ _ _ _ => some table
  | _ => none

def DeliveryEvent.recordKey : DeliveryEvent → Option String
  | .recordUpserted _ key _ | .recordDeleted _ key _ _ _ _ => some key
  | _ => none

def DeliveryEvent.isObjectEvent : DeliveryEvent → Bool
  | .objectCommitted _ _ | .objectDeleted _ _ _ _ _ => true
  | _ => false

def DeliveryEvent.targetSessionIds : DeliveryEvent → Option (List String)
  | .volatileUserEvent _ _ _ targetSessionIds => targetSessionIds
  | _ => none

/-! ## Subscriptions of tables -/

structure NestedTableSubscription where
  table : String
  parentKey : String
  nested : String
deriving DecidableEq

def NestedTableSubscription.logicalTable (subscription : NestedTableSubscription) : String :=
  nestedRecordTable subscription.table subscription.nested

def NestedTableSubscription.keyPrefix (subscription : NestedTableSubscription) : String :=
  nestedRecordPrefix subscription.parentKey

structure TableSubscription where
  table : String
  lowerKey : Option String
  upperKey : Option String
  indexName : Option String
  indexValues : Option String
deriving DecidableEq

variable (subscription : TableSubscription)

def TableSubscription.isFullTable : Bool :=
  subscription.lowerKey.isNone && subscription.upperKey.isNone && subscription.indexName.isNone

def TableSubscription.hasIndexPrefix : Bool := subscription.indexName.isSome

def TableSubscription.matches (table key : String) : Bool :=
  subscription.table == table && !subscription.hasIndexPrefix &&
    (subscription.lowerKey.all fun lower => lower ≤ key) && (subscription.upperKey.all fun upper => key < upper)

/-! ## Queries of records -/

inductive RecordPredicateOp where
  | eq
  | ne
  | lt
  | lte
  | gt
  | gte
  | contains
  | startsWith
  | exists
deriving DecidableEq

structure RecordPredicateTerm where
  field : String
  op : RecordPredicateOp
  value : Option Value

structure RecordPredicate where
  all : List RecordPredicateTerm

structure QueryRecordsByIndexQuery where
  value : Option String
  values : Option String
  lower : Option String
  upper : Option String
  lowerValues : Option String
  upperValues : Option String
  afterKey : Option String
  afterCursor : Option String
  limit : Option Nat
  predicate : Option RecordPredicate

def QueryRecordsByIndexQuery.isRangeQuery (query : QueryRecordsByIndexQuery) : Bool :=
  query.lower.isSome || query.upper.isSome || query.lowerValues.isSome || query.upperValues.isSome ||
    query.afterCursor.isSome

structure ListRecordsResponse where
  table : String
  records : List DbRecord
  nextAfterKey : Option String
  nextCursor : Option String
  hasMore : Bool

structure RecordQueryRemovedRecord where
  table : String
  key : String
  path : String
  deleted : Bool
  lsn : Option Nat
  deletedAtMs : Option Nat

structure RecordQueryDiff where
  table : String
  added : List DbRecord
  updated : List DbRecord
  removed : List RecordQueryRemovedRecord
  keys : List String
  nextAfterKey : Option String
  nextCursor : Option String
  hasMore : Bool

/-! ## Frames -/

inductive ClientFrame where
  | subscribeRoom (roomId : String) (afterLsn catchUpLimit : Option Nat)
  | unsubscribeRoom (roomId : String)
  | subscribeTable (subscription : TableSubscription) (snapshotLimit afterLsn catchUpLimit : Option Nat)
  | unsubscribeTable (subscription : TableSubscription)
  | subscribeNestedTable (subscription : NestedTableSubscription)
      (snapshotLimit afterLsn catchUpLimit : Option Nat)
  | unsubscribeNestedTable (subscription : NestedTableSubscription)
  | subscribeQuery (queryId table : String) (parentKey nested indexName : Option String)
      (query : QueryRecordsByIndexQuery) (order resultId : Option String) (diff : Bool)
  | unsubscribeQuery (queryId : String)
  | subscribeUserEvents (afterLsn catchUpLimit : Option Nat)
  | unsubscribeUserEvents
  | subscribeObjects (afterLsn catchUpLimit : Option Nat)
  | unsubscribeObjects

inductive ServerFrame where
  | hello (userId : Option String) (sessionId : String)
  | subscribed (roomId : String)
  | unsubscribed (roomId : String)
  | tableSubscribed (table : String)
  | tableSnapshot (table : String) (lowerKey upperKey indexName indexValues : Option String)
      (response : ListRecordsResponse) (currentLsn : Nat)
  | nestedTableSnapshot (table parentKey nested : String) (response : ListRecordsResponse) (currentLsn : Nat)
  | tableUnsubscribed (table : String)
  | querySubscribed (queryId : String)
  | queryUnsubscribed (queryId : String)
  | queryResult (queryId : String) (response : ListRecordsResponse) (currentLsn : Nat) (resultId : String)
  | queryDiff (queryId : String) (diff : RecordQueryDiff) (currentLsn : Nat) (resultId : String)
  | queryUnchanged (queryId resultId : String) (currentLsn : Nat)
  | objectsSubscribed
  | userEventsUnsubscribed
  | objectsUnsubscribed
  | event (event : DeliveryEvent)
  | events (events : List DeliveryEvent)
  | subscriptionCatchUp (rooms users tables : List String) (nestedTables : List NestedTableSubscription)
      (objects : Bool) (nextAfterLsn currentLsn : Nat) (hasMore : Bool)
  | error (message : String)

/-- The rows of an event, with the table that they are in. -/
def DeliveryEvent.rows : DeliveryEvent → List (String × DbRecord)
  | .recordUpserted table _ record => [(table, record)]
  | .recordDeleted table _ _ _ _ previousRecord => previousRecord.toList.map (table, ·)
  | _ => []

def ListRecordsResponse.rows (response : ListRecordsResponse) : List (String × DbRecord) :=
  response.records.map (response.table, ·)

def RecordQueryDiff.rows (diff : RecordQueryDiff) : List (String × DbRecord) :=
  (diff.added ++ diff.updated).map (diff.table, ·)

/-- The rows of a frame, with the table that they are in. -/
def ServerFrame.rows : ServerFrame → List (String × DbRecord)
  | .tableSnapshot _ _ _ _ _ response _ | .nestedTableSnapshot _ _ _ response _ => response.rows
  | .queryResult _ response _ _ => response.rows
  | .queryDiff _ diff _ _ => diff.rows
  | .event e => e.rows
  | .events es => es.flatMap DeliveryEvent.rows
  | _ => []

end NextDb.Api.Frames
