import NextDb.Actor.Scope
import NextDb.Api.SubscriptionRouter

/-!
# Fanout of events

The server keeps the subscriptions of the realtime sessions in indexes, and finds the sessions of an
event there: ranges of keys in buckets by the first byte of the key, nested tables in buckets by a
hash of their prefix, the others by their name.
-/

namespace NextDb.Api.RealtimeFanout

open Actor (ScopeLibraries shardIndex)
open Frames RecordMatch LiveQuery Std Multimap

/-- `BTreeSet`. -/
abbrev BTreeSet (α : Type) [Ord α] := ExtTreeSet α

abbrev SessionIds := BTreeSet String

def fanoutBucketCount : Nat := 256

structure RoutedRealtimeEventBatch (Frame : Type) where
  events : List DeliveryEvent
  preencodedEventsFrame : Option Frame

/-! ## Sets of sessions by value -/

variable (index : BTreeMap String SessionIds)

def addValues (sessionId : String) (values : List String) :
    BTreeMap String SessionIds :=
  values.foldl (fun index value => addValue index value sessionId) index

def removeIndexValue (value sessionId : String) : BTreeMap String SessionIds :=
  removeValue index value sessionId

def removeValues (sessionId : String) (values : List String) :
    BTreeMap String SessionIds :=
  values.foldl (fun index value => removeIndexValue index value sessionId) index

/-! ## Prefixes of indexes -/

structure IndexPrefixFanoutSubscription where
  table : String
  fields : List String
  valuesJson : String
deriving DecidableEq

instance : Ord IndexPrefixFanoutSubscription where
  compare := compareLex (compareOn (·.table)) (compareLex (compareOn (·.fields)) (compareOn (·.valuesJson)))

instance : TransOrd IndexPrefixFanoutSubscription :=
  inferInstanceAs (TransCmp (compareLex _ (compareLex _ _)))

instance : LawfulEqOrd IndexPrefixFanoutSubscription where
  eq_of_compare {a b} h := by
    have hparts : compare a.table b.table = .eq ∧ compare a.fields b.fields = .eq ∧
        compare a.valuesJson b.valuesJson = .eq := by
      simpa [compare, compareLex, compareOn, Ordering.then_eq_eq] using h
    cases a
    cases b
    simpa using hparts

structure IndexPrefixFanoutIndex where
  subscriptions : BTreeMap IndexPrefixFanoutSubscription SessionIds

def IndexPrefixFanoutIndex.default : IndexPrefixFanoutIndex := ⟨∅⟩

def IndexPrefixFanoutIndex.insert (index : IndexPrefixFanoutIndex)
    (subscription : IndexPrefixFanoutSubscription) (sessionId : String) : IndexPrefixFanoutIndex :=
  ⟨addValue index.subscriptions subscription sessionId⟩

def IndexPrefixFanoutIndex.remove (index : IndexPrefixFanoutIndex)
    (subscription : IndexPrefixFanoutSubscription) (sessionId : String) : IndexPrefixFanoutIndex :=
  ⟨removeValue index.subscriptions subscription sessionId⟩

def IndexPrefixFanoutIndex.isEmpty (index : IndexPrefixFanoutIndex) : Bool :=
  index.subscriptions.isEmpty

def eventRecordForIndexPrefix : DeliveryEvent → Option (String × DbRecord)
  | .recordUpserted table _ record => some (table, record)
  | .recordDeleted table _ _ _ _ (some previousRecord) => some (table, previousRecord)
  | _ => none

/-! ## Ranges of keys -/

def rangeFanoutBucket (key : String) : Nat := (key.toUTF8.data.toList.head?.map UInt8.toNat).getD 0

inductive FanoutBucketSelection where
  | empty
  | fallback
  | buckets (buckets : List Nat)

def emptyRange (subscription : TableSubscription) : Bool :=
  match subscription.lowerKey, subscription.upperKey with
  | some lower, some upper => decide (upper ≤ lower)
  | _, _ => false

def rangeFanoutBuckets (subscription : TableSubscription) : FanoutBucketSelection :=
  if emptyRange subscription then .empty
  else
    let lowerBucket := (subscription.lowerKey.map rangeFanoutBucket).getD 0
    let upperBucket := (subscription.upperKey.map rangeFanoutBucket).getD 255
    if upperBucket < lowerBucket then .fallback
    else if lowerBucket = 0 ∧ upperBucket = 255 then .fallback
    else .buckets (List.range' lowerBucket (upperBucket + 1 - lowerBucket))

def collectMatchingUpperSessions (uppers : BTreeMap (Option String) SessionIds) (key : String)
    (sessionIds : SessionIds) : SessionIds :=
  uppers.toList.foldl (fun sessionIds entry => if belowUpper key entry.1 then sessionIds ∪ entry.2 else sessionIds)
    sessionIds

def bestUpperForSessionMap (uppers : BTreeMap (Option String) SessionIds) :
    Option (Option String) :=
  bestUpperForSet uppers.keys

structure RangeFanoutBucketIndex where
  unboundedLowerUppers : BTreeMap (Option String) SessionIds
  uppersByLower : BTreeMap String (BTreeMap (Option String) SessionIds)
  unboundedLowerBestUpper : Option (Option String)
  prefixBestUpperByLower : BTreeMap String (Option String)

namespace RangeFanoutBucketIndex

def default : RangeFanoutBucketIndex := ⟨∅, ∅, none, ∅⟩

/-- The upper bounds from each lower bound. -/
def entries (index : RangeFanoutBucketIndex) : List (String × List (Option String)) :=
  index.uppersByLower.toList.map fun entry => (entry.1, entry.2.keys)

def rebuildMatchCache (index : RangeFanoutBucketIndex) : RangeFanoutBucketIndex :=
  { index with
    unboundedLowerBestUpper := bestUpperForSessionMap index.unboundedLowerUppers
    prefixBestUpperByLower := (bestUppers index.entries).2 }

def insert (index : RangeFanoutBucketIndex) (subscription : TableSubscription)
    (sessionId : String) :
    RangeFanoutBucketIndex :=
  match subscription.lowerKey with
  | some lower =>
    { index with
      uppersByLower := insertEntry index.uppersByLower lower ∅ (addValue · subscription.upperKey sessionId)
    }.rebuildMatchCache
  | none =>
    { index with
      unboundedLowerUppers := addValue index.unboundedLowerUppers subscription.upperKey sessionId }.rebuildMatchCache

def remove (index : RangeFanoutBucketIndex) (subscription : TableSubscription)
    (sessionId : String) :
    RangeFanoutBucketIndex :=
  match subscription.lowerKey with
  | some lower =>
    if lower ∈ index.uppersByLower then
      { index with
        uppersByLower :=
          removeEntry index.uppersByLower lower (removeValue · subscription.upperKey sessionId) (·.isEmpty)
      }.rebuildMatchCache
    else index
  | none =>
    { index with
      unboundedLowerUppers := removeValue index.unboundedLowerUppers subscription.upperKey sessionId
    }.rebuildMatchCache

/-- From the last lower bound up to the key down, as long as a range from the next one or below may
have the key. -/
def collectDown (index : RangeFanoutBucketIndex) (key : String) :
    List (String × BTreeMap (Option String) SessionIds) → SessionIds → SessionIds
  | [], sessionIds => sessionIds
  | (_, uppers) :: previous, sessionIds =>
    let sessionIds := collectMatchingUpperSessions uppers key sessionIds
    match previous with
    | [] => sessionIds
    | (previousLower, _) :: _ =>
      if bestUpperMatchesKey index.prefixBestUpperByLower[previousLower]? key then
        collectDown index key previous sessionIds
      else sessionIds

def matchingSessionIds (index : RangeFanoutBucketIndex) (key : String) : SessionIds :=
  let sessionIds := if bestUpperMatchesKey index.unboundedLowerBestUpper key then
      collectMatchingUpperSessions index.unboundedLowerUppers key ∅
    else ∅
  index.collectDown key (index.uppersByLower.toList.filter (·.1 ≤ key)).reverse sessionIds

def isEmpty (index : RangeFanoutBucketIndex) : Bool :=
  index.unboundedLowerUppers.isEmpty && index.uppersByLower.isEmpty

end RangeFanoutBucketIndex

structure RangeFanoutIndex where
  fallback : RangeFanoutBucketIndex
  buckets : BTreeMap Nat RangeFanoutBucketIndex

namespace RangeFanoutIndex

def default : RangeFanoutIndex := ⟨.default, ∅⟩

def insert (index : RangeFanoutIndex) (subscription : TableSubscription) (sessionId : String) :
    RangeFanoutIndex :=
  match rangeFanoutBuckets subscription with
  | .empty => index
  | .fallback => { index with fallback := index.fallback.insert subscription sessionId }
  | .buckets buckets =>
    { index with
      buckets := buckets.foldl (fun map bucket => insertEntry map bucket .default (·.insert subscription sessionId))
        index.buckets }

def remove (index : RangeFanoutIndex) (subscription : TableSubscription) (sessionId : String) :
    RangeFanoutIndex :=
  match rangeFanoutBuckets subscription with
  | .empty => index
  | .fallback => { index with fallback := index.fallback.remove subscription sessionId }
  | .buckets buckets =>
    { index with
      buckets := buckets.foldl (fun map bucket =>
        removeEntry map bucket (·.remove subscription sessionId) (·.isEmpty)) index.buckets }

def matchingSessionIds (index : RangeFanoutIndex) (key : String) : SessionIds :=
  let sessionIds := index.fallback.matchingSessionIds key
  match index.buckets[rangeFanoutBucket key]? with
  | some bucket => sessionIds ∪ bucket.matchingSessionIds key
  | none => sessionIds

def isEmpty (index : RangeFanoutIndex) : Bool := index.fallback.isEmpty && index.buckets.isEmpty

end RangeFanoutIndex

/-! ## Subscriptions of sessions -/

/-- The sets of a session are lists here, of which only the elements matter. -/
structure RealtimeFanoutSubscriptions where
  rooms : List String
  fullTables : List String
  tableRanges : List TableSubscription
  indexPrefixTables : List IndexPrefixFanoutSubscription
  nestedTables : List NestedTableSubscription
  queryTables : List String
  userEvents : Bool
  objects : Bool

def RealtimeFanoutSubscriptions.default : RealtimeFanoutSubscriptions :=
  ⟨[], [], [], [], [], [], false, false⟩

structure RealtimeFanoutSession (Sender : Type) where
  userId : Option String
  sender : Sender
  subscriptions : RealtimeFanoutSubscriptions

structure PrefixFanoutBucketIndex where
  sessionIdsByPrefix : BTreeMap String SessionIds

namespace PrefixFanoutBucketIndex

def default : PrefixFanoutBucketIndex := ⟨∅⟩

def insert (index : PrefixFanoutBucketIndex) (keyPrefix sessionId : String) :
    PrefixFanoutBucketIndex :=
  ⟨addValue index.sessionIdsByPrefix keyPrefix sessionId⟩

def remove (index : PrefixFanoutBucketIndex) (keyPrefix sessionId : String) :
    PrefixFanoutBucketIndex :=
  ⟨removeIndexValue index.sessionIdsByPrefix keyPrefix sessionId⟩

def collectPrefixMatches (index : PrefixFanoutBucketIndex) (keyPrefix : String)
    (sessionIds : SessionIds) :
    SessionIds :=
  match index.sessionIdsByPrefix[keyPrefix]? with
  | some prefixSessionIds => sessionIds ∪ prefixSessionIds
  | none => sessionIds

def isEmpty (index : PrefixFanoutBucketIndex) : Bool := index.sessionIdsByPrefix.isEmpty

end PrefixFanoutBucketIndex

structure PrefixFanoutIndex where
  buckets : BTreeMap Nat PrefixFanoutBucketIndex

def PrefixFanoutIndex.default : PrefixFanoutIndex := ⟨∅⟩

def PrefixFanoutIndex.isEmpty (index : PrefixFanoutIndex) : Bool := index.buckets.isEmpty

structure RealtimeFanoutInner (Sender : Type) where
  sessions : BTreeMap String (RealtimeFanoutSession Sender)
  rooms : BTreeMap String SessionIds
  fullTables : BTreeMap String SessionIds
  rangeTables : BTreeMap String RangeFanoutIndex
  indexPrefixTables : BTreeMap String IndexPrefixFanoutIndex
  nestedTables : BTreeMap String PrefixFanoutIndex
  queryTables : BTreeMap String SessionIds
  userEvents : BTreeMap String SessionIds
  objects : SessionIds

def RealtimeFanoutInner.default {Sender : Type} : RealtimeFanoutInner Sender :=
  ⟨∅, ∅, ∅, ∅, ∅, ∅, ∅, ∅, ∅⟩

section Model

variable (lib : QueryLibrary) (scopeLib : ScopeLibraries)

/-! ## Hashed prefixes -/

def prefixFanoutBucket (keyPrefix : String) : Nat := shardIndex scopeLib keyPrefix fanoutBucketCount

namespace PrefixFanoutIndex

def insert (index : PrefixFanoutIndex) (keyPrefix sessionId : String) : PrefixFanoutIndex :=
  ⟨insertEntry index.buckets (prefixFanoutBucket scopeLib keyPrefix) .default (·.insert keyPrefix sessionId)⟩

def remove (index : PrefixFanoutIndex) (keyPrefix sessionId : String) : PrefixFanoutIndex :=
  ⟨removeEntry index.buckets (prefixFanoutBucket scopeLib keyPrefix) (·.remove keyPrefix sessionId) (·.isEmpty)⟩

def collectPrefixMatches (index : PrefixFanoutIndex) (keyPrefix : String)
    (sessionIds : SessionIds) : SessionIds :=
  match index.buckets[prefixFanoutBucket scopeLib keyPrefix]? with
  | some index => index.collectPrefixMatches keyPrefix sessionIds
  | none => sessionIds

/-- The empty prefix, those before the second character and every later one, and the key. -/
def prefixesOf (key : String) : List String :=
  "" :: (List.range key.toList.length).tail.map (fun n => String.ofList (key.toList.take n)) ++ [key]

def matchingSessionIds (index : PrefixFanoutIndex) (key : String) : SessionIds :=
  (prefixesOf key).foldl (fun sessionIds keyPrefix => index.collectPrefixMatches scopeLib keyPrefix sessionIds) ∅

end PrefixFanoutIndex

/-! ## Values of index prefixes -/

def IndexPrefixFanoutSubscription.matches (subscription : IndexPrefixFanoutSubscription)
    (record : DbRecord) : Bool :=
  match lib.parseValues subscription.valuesJson with
  | .error _ => false
  | .ok values =>
    if values.length > subscription.fields.length then false
    else (subscription.fields.zip values).all fun pair =>
      (valueAtFieldPath record.value.json pair.1).any (lib.valueEq · pair.2)

def IndexPrefixFanoutIndex.matchingSessionIds (index : IndexPrefixFanoutIndex)
    (event : DeliveryEvent) : SessionIds :=
  match eventRecordForIndexPrefix event with
  | none => ∅
  | some (table, record) =>
    index.subscriptions.toList.foldl (fun sessionIds entry =>
      if entry.1.table == table && entry.1.matches lib record then sessionIds ∪ entry.2 else sessionIds) ∅

def indexPrefixSubscription (subscription : TableSubscription) (schema : DatabaseSchema) :
    Option IndexPrefixFanoutSubscription := do
  let indexName ← subscription.indexName
  let valuesJson ← subscription.indexValues
  let index ← tableSubscriptionIndexSchema schema subscription.table indexName
  let _ ← (parseIndexPrefixValues lib valuesJson index).toOption
  return ⟨subscription.table, index.fields, valuesJson⟩

def indexPrefixSubscriptions (tableRanges : List TableSubscription) (schema : DatabaseSchema) :
    List IndexPrefixFanoutSubscription :=
  tableRanges.filterMap fun subscription => indexPrefixSubscription lib subscription schema

/-! ## The registry -/

namespace RealtimeFanoutInner

variable {Sender : Type} (inner : RealtimeFanoutInner Sender)

def addRecordIndexes (sessionId : String)
    (subscriptions : RealtimeFanoutSubscriptions) : RealtimeFanoutInner Sender :=
  { inner with
    rooms := addValues inner.rooms sessionId subscriptions.rooms
    fullTables := addValues inner.fullTables sessionId subscriptions.fullTables
    rangeTables := (subscriptions.tableRanges.filter (!·.hasIndexPrefix)).foldl (fun tables subscription =>
      insertEntry tables subscription.table .default (·.insert subscription sessionId)) inner.rangeTables
    indexPrefixTables := subscriptions.indexPrefixTables.foldl (fun tables subscription =>
      insertEntry tables subscription.table .default (·.insert subscription sessionId)) inner.indexPrefixTables
    nestedTables := subscriptions.nestedTables.foldl (fun tables subscription =>
      insertEntry tables subscription.logicalTable .default
        (PrefixFanoutIndex.insert scopeLib · subscription.keyPrefix sessionId)) inner.nestedTables }

def removeRecordIndexes (sessionId : String)
    (subscriptions : RealtimeFanoutSubscriptions) : RealtimeFanoutInner Sender :=
  { inner with
    rooms := removeValues inner.rooms sessionId subscriptions.rooms
    fullTables := removeValues inner.fullTables sessionId subscriptions.fullTables
    rangeTables := (subscriptions.tableRanges.filter (!·.hasIndexPrefix)).foldl (fun tables subscription =>
      removeEntry tables subscription.table (·.remove subscription sessionId) (·.isEmpty)) inner.rangeTables
    indexPrefixTables := subscriptions.indexPrefixTables.foldl (fun tables subscription =>
      removeEntry tables subscription.table (·.remove subscription sessionId) (·.isEmpty)) inner.indexPrefixTables
    nestedTables := subscriptions.nestedTables.foldl (fun tables subscription =>
      removeEntry tables subscription.logicalTable
        (PrefixFanoutIndex.remove scopeLib · subscription.keyPrefix sessionId) (·.isEmpty)) inner.nestedTables }

def addQueryIndexes (sessionId : String)
    (subscriptions : RealtimeFanoutSubscriptions) : RealtimeFanoutInner Sender :=
  { inner with queryTables := addValues inner.queryTables sessionId subscriptions.queryTables }

def removeQueryIndexes (sessionId : String)
    (subscriptions : RealtimeFanoutSubscriptions) : RealtimeFanoutInner Sender :=
  { inner with queryTables := removeValues inner.queryTables sessionId subscriptions.queryTables }

def addUserEventIndex (sessionId : String) (userId : Option String)
    (subscriptions : RealtimeFanoutSubscriptions) : RealtimeFanoutInner Sender :=
  match subscriptions.userEvents, userId with
  | true, some userId => { inner with userEvents := addValue inner.userEvents userId sessionId }
  | _, _ => inner

def removeUserEventIndex (sessionId : String) (userId : Option String)
    (subscriptions : RealtimeFanoutSubscriptions) : RealtimeFanoutInner Sender :=
  match subscriptions.userEvents, userId with
  | true, some userId => { inner with userEvents := removeIndexValue inner.userEvents userId sessionId }
  | _, _ => inner

def addObjectIndex (sessionId : String)
    (subscriptions : RealtimeFanoutSubscriptions) : RealtimeFanoutInner Sender :=
  if subscriptions.objects then { inner with objects := inner.objects.insert sessionId } else inner

def removeObjectIndex (sessionId : String)
    (subscriptions : RealtimeFanoutSubscriptions) : RealtimeFanoutInner Sender :=
  if subscriptions.objects then { inner with objects := inner.objects.erase sessionId } else inner

def setSession (sessionId : String) (session : RealtimeFanoutSession Sender) :
    RealtimeFanoutInner Sender :=
  { inner with sessions := inner.sessions.insert sessionId session }

def removeSession (sessionId : String) : RealtimeFanoutInner Sender :=
  match inner.sessions[sessionId]? with
  | none => inner
  | some session =>
    let inner := { inner with sessions := inner.sessions.erase sessionId }
    let inner := inner.removeRecordIndexes scopeLib sessionId session.subscriptions
    let inner := inner.removeQueryIndexes sessionId session.subscriptions
    let inner := inner.removeUserEventIndex sessionId session.userId session.subscriptions
    inner.removeObjectIndex sessionId session.subscriptions

/-- The subscriptions of a session are replaced: its indexes are removed as they were, and added as
they are. -/
def replaceSubscriptions (sessionId : String)
    (change : RealtimeFanoutSubscriptions → RealtimeFanoutSubscriptions)
    (remove add : RealtimeFanoutInner Sender → RealtimeFanoutSession Sender →
      RealtimeFanoutInner Sender) :
    RealtimeFanoutInner Sender :=
  match inner.sessions[sessionId]? with
  | none => inner
  | some session =>
    let changed := { session with subscriptions := change session.subscriptions }
    add ((remove inner session).setSession sessionId changed) changed

def replaceRecordSubscriptions (sessionId : String)
    (rooms fullTables : List String) (tableRanges : List TableSubscription)
    (indexPrefixTables : List IndexPrefixFanoutSubscription)
    (nestedTables : List NestedTableSubscription) :
    RealtimeFanoutInner Sender :=
  inner.replaceSubscriptions sessionId
    (fun subscriptions => { subscriptions with rooms, fullTables, tableRanges, indexPrefixTables, nestedTables })
    (fun inner session => inner.removeRecordIndexes scopeLib sessionId session.subscriptions)
    fun inner session => inner.addRecordIndexes scopeLib sessionId session.subscriptions

def replaceQuerySubscriptions (sessionId : String) (queryTables : List String) :
    RealtimeFanoutInner Sender :=
  inner.replaceSubscriptions sessionId (fun subscriptions => { subscriptions with queryTables })
    (fun inner session => inner.removeQueryIndexes sessionId session.subscriptions)
    fun inner session => inner.addQueryIndexes sessionId session.subscriptions

def replaceUserEventSubscription (inner : RealtimeFanoutInner Sender) (sessionId : String)
    (subscribed : Bool) :
    RealtimeFanoutInner Sender :=
  inner.replaceSubscriptions sessionId (fun subscriptions => { subscriptions with userEvents := subscribed })
    (fun inner session => inner.removeUserEventIndex sessionId session.userId session.subscriptions)
    fun inner session => inner.addUserEventIndex sessionId session.userId session.subscriptions

def replaceObjectSubscription (inner : RealtimeFanoutInner Sender) (sessionId : String)
    (subscribed : Bool) :
    RealtimeFanoutInner Sender :=
  inner.replaceSubscriptions sessionId (fun subscriptions => { subscriptions with objects := subscribed })
    (fun inner session => inner.removeObjectIndex sessionId session.subscriptions)
    fun inner session => inner.addObjectIndex sessionId session.subscriptions

/-! ## Deliveries -/

/-- The sessions that the entry of a name has. -/
def sessionIdsOf (index : BTreeMap String SessionIds) (name : String) : SessionIds :=
  index.getD name ∅

def recordCandidates (inner : RealtimeFanoutInner Sender) (event : DeliveryEvent)
    (table key : String) : SessionIds :=
  sessionIdsOf inner.fullTables table ∪ (inner.rangeTables[table]?.elim ∅ fun index => index.matchingSessionIds key) ∪
    (inner.indexPrefixTables[table]?.elim ∅ fun index => index.matchingSessionIds lib event) ∪
    (inner.nestedTables[table]?.elim ∅ fun index => index.matchingSessionIds scopeLib key) ∪
    sessionIdsOf inner.queryTables table

def userCandidates (inner : RealtimeFanoutInner Sender) (event : DeliveryEvent) (userId : String) :
    SessionIds :=
  match event.targetSessionIds with
  | some targetSessionIds => sessionIdsOf inner.userEvents userId ∩ ExtTreeSet.ofList targetSessionIds compare
  | none => sessionIdsOf inner.userEvents userId

def candidateSessionIds (inner : RealtimeFanoutInner Sender) (event : DeliveryEvent) : SessionIds :=
  (if event.isObjectEvent then inner.objects else ∅) ∪
    (event.roomId.elim ∅ fun roomId => sessionIdsOf inner.rooms roomId) ∪
    (match event.table, event.recordKey with
      | some table, some key => inner.recordCandidates lib scopeLib event table key
      | _, _ => ∅) ∪
    (event.userId.elim ∅ fun userId => inner.userCandidates event userId)

abbrev Batches := BTreeMap String (List DeliveryEvent × List Nat)

def pushEvent (event : DeliveryEvent) (eventIndex : Nat) (batches : Batches) (sessionId : String) :
    Batches :=
  insertEntry batches sessionId ([], []) fun batch => (batch.1 ++ [event], batch.2 ++ [eventIndex])

def batchesForEvents (inner : RealtimeFanoutInner Sender) (events : List DeliveryEvent) : Batches :=
  events.zipIdx.foldl (fun batches indexed =>
    (inner.candidateSessionIds lib scopeLib indexed.1).toList.foldl (pushEvent indexed.1 indexed.2) batches) ∅

variable {Frame : Type} (preencodeSharedEvents : List DeliveryEvent → Option Frame)

/-- The frame of a list of events is made for the first session with it. -/
def deliver (inner : RealtimeFanoutInner Sender)
    (made : BTreeMap (List Nat) (Option Frame) × List (Sender × RoutedRealtimeEventBatch Frame))
    (entry : String × List DeliveryEvent × List Nat) :
    BTreeMap (List Nat) (Option Frame) × List (Sender × RoutedRealtimeEventBatch Frame) :=
  let (sessionId, batch, indices) := entry
  let preencodedEventsFrame := (made.1[indices]?).getD (preencodeSharedEvents batch)
  let encodedByIndices := made.1.insert indices preencodedEventsFrame
  match inner.sessions[sessionId]? with
  | some session => (encodedByIndices, made.2 ++ [(session.sender, ⟨batch, preencodedEventsFrame⟩)])
  | none => (encodedByIndices, made.2)

def deliveriesForEvents (inner : RealtimeFanoutInner Sender) (events : List DeliveryEvent) :
    List (Sender × RoutedRealtimeEventBatch Frame) :=
  ((inner.batchesForEvents lib scopeLib events).toList.foldl (inner.deliver preencodeSharedEvents) (∅, [])).2

end RealtimeFanoutInner

/-! ## Calls -/

/-- A call of the registry. -/
inductive FanoutCall (Sender : Type) where
  | register (sessionId : String) (userId : Option String) (sender : Sender)
  | unregister (sessionId : String)
  | updateRecordSubscriptions (sessionId : String) (rooms fullTables : List String)
      (tableRanges : List TableSubscription) (nestedTables : List NestedTableSubscription) (schema : DatabaseSchema)
  | updateQuerySubscriptions (sessionId : String) (queryTables : List String)
  | updateUserEventSubscription (sessionId : String) (subscribed : Bool)
  | updateObjectSubscription (sessionId : String) (subscribed : Bool)

def RealtimeFanoutInner.apply {Sender : Type} (inner : RealtimeFanoutInner Sender) :
    FanoutCall Sender → RealtimeFanoutInner Sender
  | .register sessionId userId sender =>
    (inner.removeSession scopeLib sessionId).setSession sessionId ⟨userId, sender, .default⟩
  | .unregister sessionId => inner.removeSession scopeLib sessionId
  | .updateRecordSubscriptions sessionId rooms fullTables tableRanges nestedTables schema =>
    inner.replaceRecordSubscriptions scopeLib sessionId rooms fullTables tableRanges
      (indexPrefixSubscriptions lib tableRanges schema) nestedTables
  | .updateQuerySubscriptions sessionId queryTables => inner.replaceQuerySubscriptions sessionId queryTables
  | .updateUserEventSubscription sessionId subscribed => inner.replaceUserEventSubscription sessionId subscribed
  | .updateObjectSubscription sessionId subscribed => inner.replaceObjectSubscription sessionId subscribed

end Model

end NextDb.Api.RealtimeFanout
