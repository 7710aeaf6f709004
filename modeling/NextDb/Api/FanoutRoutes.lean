import NextDb.Api.FanoutRanges

/-!
# Routes of the fanout

What a session is subscribed to are the routes that its events may come on. Each index of the
registry has the sessions of one kind of route, and the sessions of an event are those of the routes
that it comes on.

* `recordIndexes`, `queryIndexes`, `userEventIndexes`, `objectIndexes`: what the subscriptions of
  one kind put into the indexes, and what goes with them.
-/

namespace NextDb.Api.RealtimeFanout

open List Std Std.ExtTreeMap

open Actor (ScopeLibraries)
open Auth (startsWith)
open Frames RecordMatch LiveQuery Multimap
open TextKeys (Starts)

/-! ## Sets of sessions by value -/

variable {index : BTreeMap String SessionIds} {sessionId : String} {value other key : String}
    {values : List String}

theorem lists_addValues : Lists (addValues index sessionId values) value
    other ↔ (value ∈ values ∧ other = sessionId) ∨ Lists index value other := by
  have hall :=
    iff_foldl_add (Lists · value other) (fun index added => lists_addValue added value sessionId other) values index
  rw [addValues, hall]
  simp

theorem lists_removeValues : Lists (removeValues index sessionId values)
    value other ↔ Lists index value other ∧ ¬ (value ∈ values ∧ other = sessionId) := by
  have hall := iff_foldl_remove (Lists · value other)
    (fun index removed => lists_removeValue removed value sessionId other) values index
  refine hall.trans (and_congr_right fun _ => ?_)
  constructor
  · exact fun h hin => h value hin.1 ⟨rfl, hin.2⟩
  · rintro h removed hremoved ⟨rfl, hsame⟩
    exact h ⟨hremoved, hsame⟩

theorem full_addValues (h : Full index) (sessionId : String) (values : List String) :
    Full (addValues index sessionId values) :=
  foldl_keeps (I := Full) (fun _ value hindex => Full.addValue value sessionId hindex) values h

theorem full_removeValues (h : Full index) (sessionId : String) (values : List String) :
    Full (removeValues index sessionId values) :=
  foldl_keeps (I := Full) (fun _ value hindex => Full.removeValue value sessionId hindex) values h

theorem mem_sessionIdsOf {name : String} :
    sessionId ∈ RealtimeFanoutInner.sessionIdsOf index name ↔ Lists index name sessionId := by
  rw [RealtimeFanoutInner.sessionIdsOf, getD_eq_getD_getElem?]
  cases hfound : index[name]? with
  | none | some => simp [Multimap.Lists, Holds, hfound]

/-! ## Prefixes of indexes -/

namespace IndexPrefixFanoutIndex

def Has (index : IndexPrefixFanoutIndex) (subscription : IndexPrefixFanoutSubscription)
    (sessionId : String) : Prop :=
  Lists index.subscriptions subscription sessionId

structure Ok (index : IndexPrefixFanoutIndex) : Prop where
  full : Full index.subscriptions
  nonempty : index.isEmpty = false

variable {index : IndexPrefixFanoutIndex} {lib : QueryLibrary}

theorem not_has_of_isEmpty (h : index.isEmpty = true) (subscription : IndexPrefixFanoutSubscription)
    (sessionId : String) : ¬ index.Has subscription sessionId := by
  rw [Has, isEmpty_iff.mp h]
  exact not_lists_empty _ _

theorem isEmpty_insert (subscription : IndexPrefixFanoutSubscription) (sessionId : String) :
    (index.insert subscription sessionId).isEmpty = false := by
  have hhas : (index.insert subscription sessionId).Has subscription sessionId :=
    (lists_addValue _ _ _ _).mpr (.inl ⟨rfl, rfl⟩)
  by_contra hempty
  exact not_has_of_isEmpty (by simpa using hempty) subscription sessionId hhas

theorem exists_has (h : index.Ok) :
    ∃ listed : IndexPrefixFanoutSubscription × String, index.Has listed.1 listed.2 := by
  by_contra hnone
  exact isEmpty_eq_false_iff.mp h.nonempty
    (h.full.eq_empty fun subscription sessionId hlists => hnone ⟨(subscription, sessionId), hlists⟩)

theorem mem_matchingSessionIds {event : DeliveryEvent} :
    sessionId ∈ index.matchingSessionIds lib event ↔
    ∃ table record, eventRecordForIndexPrefix event = some (table, record) ∧ ∃ subscription,
    index.Has subscription sessionId ∧ subscription.table = table ∧
    subscription.matches lib record = true := by
  rw [matchingSessionIds]
  cases heq : eventRecordForIndexPrefix event with
  | none => simp
  | some found =>
    obtain ⟨table, record⟩ := found
    have hentry : ∀ (sessionIds : SessionIds) (entry : IndexPrefixFanoutSubscription × SessionIds),
        sessionId ∈ (if entry.1.table == table && entry.1.matches lib record then sessionIds ∪ entry.2
            else sessionIds) ↔
          ((entry.1.table = table ∧ entry.1.matches lib record = true) ∧ sessionId ∈ entry.2) ∨
            sessionId ∈ sessionIds := by
      intro sessionIds entry
      split
      · next hmatch =>
        rw [Bool.and_eq_true, beq_iff_eq] at hmatch
        simp [hmatch, ExtTreeSet.mem_union_iff, or_comm]
      · next hmatch =>
        rw [Bool.and_eq_true, beq_iff_eq] at hmatch
        simp only [hmatch, false_and, false_or]
    dsimp only
    rw [iff_foldl_add (sessionId ∈ ·) hentry]
    constructor
    · rintro (⟨⟨subscription, listed⟩, hmem, ⟨htable, hmatch⟩, hlisted⟩ | hnone)
      · exact ⟨table, record, rfl, subscription, ⟨listed, mem_toList_iff_getElem?_eq_some.mp hmem, hlisted⟩, htable,
          hmatch⟩
      · simp at hnone
    · rintro ⟨_, _, heq, subscription, ⟨listed, hfound, hlisted⟩, htable, hmatch⟩
      cases heq
      exact .inl ⟨(subscription, listed), mem_toList_iff_getElem?_eq_some.mpr hfound, ⟨htable, hmatch⟩, hlisted⟩

end IndexPrefixFanoutIndex

/-! ## Prefixes of keys -/

theorem mem_prefixesOf {keyPrefix : String} :
    keyPrefix ∈ PrefixFanoutIndex.prefixesOf key ↔ startsWith key keyPrefix = true := by
  rw [startsWith_iff, Starts, PrefixFanoutIndex.prefixesOf]
  simp only [cons_append, mem_cons, mem_append, mem_map]
  constructor
  · rintro (rfl | ⟨n, -, rfl⟩ | hsame)
    · simp
    · rw [String.toList_ofList]
      exact take_prefix n _
    · rw [hsame.resolve_right (by simp)]
  · intro hstarts
    have htake : keyPrefix.toList = key.toList.take keyPrefix.toList.length := prefix_iff_eq_take.mp hstarts
    have hle := hstarts.length_le
    by_cases hnone : keyPrefix.toList.length = 0
    · exact .inl (String.toList_inj.mp (by simpa using length_eq_zero_iff.mp hnone))
    · by_cases hall : keyPrefix.toList.length = key.toList.length
      · rw [hall, take_length] at htake
        exact .inr (.inr (.inl (String.toList_inj.mp htake)))
      · refine .inr (.inl ⟨keyPrefix.toList.length, ?_, ?_⟩)
        · rw [← drop_one, range_eq_range', drop_range', mem_range'_1]
          omega
        · rw [← htake, String.ofList_toList]

namespace PrefixFanoutIndex

def Has (index : PrefixFanoutIndex) (bucket : Nat) (keyPrefix sessionId : String) : Prop :=
  Holds index.buckets bucket fun index => Lists index.sessionIdsByPrefix keyPrefix sessionId

structure Ok (index : PrefixFanoutIndex) : Prop where
  buckets : All index.buckets fun index => Full index.sessionIdsByPrefix ∧ index.isEmpty = false
  nonempty : index.isEmpty = false

variable {scopeLib : ScopeLibraries} {index : PrefixFanoutIndex}

theorem not_lists_of_isEmpty {index : PrefixFanoutBucketIndex} (h : index.isEmpty = true)
    (keyPrefix sessionId : String) : ¬ Lists index.sessionIdsByPrefix keyPrefix sessionId := by
  rw [isEmpty_iff.mp h]
  exact not_lists_empty _ _

theorem not_has_of_isEmpty (h : index.isEmpty = true) (bucket : Nat)
    (keyPrefix sessionId : String) :
    ¬ index.Has bucket keyPrefix sessionId := by
  rw [Has, isEmpty_iff.mp h]
  exact not_holds_empty _ _

theorem has_insert (scopeLib : ScopeLibraries) (keyPrefix sessionId : String) (bucket : Nat)
    (listed other : String) :
    (index.insert scopeLib keyPrefix sessionId).Has bucket listed other ↔
    (bucket = prefixFanoutBucket scopeLib keyPrefix ∧ listed = keyPrefix ∧ other = sessionId) ∨
    index.Has bucket listed other :=
  holds_insertEntry (fun index : PrefixFanoutBucketIndex => Lists index.sessionIdsByPrefix listed other) _
    (all_trivial index.buckets) trivial (not_lists_empty listed other)
    (fun _ _ => lists_addValue keyPrefix listed sessionId other) bucket

theorem has_remove (scopeLib : ScopeLibraries) (keyPrefix sessionId : String) (bucket : Nat)
    (listed other : String) :
    (index.remove scopeLib keyPrefix sessionId).Has bucket listed other ↔
    index.Has bucket listed other ∧
    ¬ (bucket = prefixFanoutBucket scopeLib keyPrefix ∧ listed = keyPrefix ∧ other = sessionId) :=
  holds_removeEntry (fun index : PrefixFanoutBucketIndex => Lists index.sessionIdsByPrefix listed other) _
    (all_trivial index.buckets) (fun _ _ => lists_removeValue keyPrefix listed sessionId other)
    (fun _ hempty => not_lists_of_isEmpty hempty listed other) bucket

theorem isEmpty_insert (keyPrefix sessionId : String) :
    (index.insert scopeLib keyPrefix sessionId).isEmpty = false := by
  by_contra hempty
  exact not_has_of_isEmpty (by simpa using hempty) _ keyPrefix sessionId
    ((has_insert _ keyPrefix sessionId _ keyPrefix sessionId).mpr (.inl ⟨rfl, rfl, rfl⟩))

theorem bucket_isEmpty_insert (index : PrefixFanoutBucketIndex) (keyPrefix sessionId : String) :
    (index.insert keyPrefix sessionId).isEmpty = false := by
  have hlists : Lists (index.insert keyPrefix sessionId).sessionIdsByPrefix keyPrefix sessionId :=
    (lists_addValue _ _ _ _).mpr (.inl ⟨rfl, rfl⟩)
  by_contra hempty
  exact not_lists_of_isEmpty (by simpa using hempty) keyPrefix sessionId hlists

theorem buckets_insert (keyPrefix sessionId : String)
    (h : All index.buckets fun index => Full index.sessionIdsByPrefix ∧ index.isEmpty = false) :
    (index.insert scopeLib keyPrefix sessionId).Ok :=
  ⟨all_insertEntry h ⟨Full.addValue _ _ (all_empty _), bucket_isEmpty_insert _ _ _⟩ fun _ hindex =>
      ⟨hindex.1.addValue _ _, bucket_isEmpty_insert _ _ _⟩,
    isEmpty_insert keyPrefix sessionId⟩

theorem buckets_remove (keyPrefix sessionId : String)
    (h : index.Ok) (hleft : (index.remove scopeLib keyPrefix sessionId).isEmpty = false) :
    (index.remove scopeLib keyPrefix sessionId).Ok :=
  ⟨all_removeEntry h.buckets fun _ hindex hleft => ⟨hindex.1.removeValue _ _, hleft⟩, hleft⟩

theorem exists_has (h : index.Ok) :
    ∃ listed : Nat × String × String, index.Has listed.1 listed.2.1 listed.2.2 := by
  by_contra hnone
  refine isEmpty_eq_false_iff.mp h.nonempty
    (Multimap.eq_empty (fun index (listed : String × String) => Lists index.sessionIdsByPrefix listed.1 listed.2)
    (h.buckets.imp fun index hindex => ?_) fun bucket listed hhas => hnone ⟨(bucket, listed.1, listed.2), hhas⟩)
  by_contra hno
  exact isEmpty_eq_false_iff.mp hindex.2
    (hindex.1.eq_empty fun keyPrefix sessionId hlists => hno ⟨(keyPrefix, sessionId), hlists⟩)

theorem mem_matchingSessionIds : sessionId ∈ index.matchingSessionIds scopeLib key ↔ ∃ keyPrefix,
    index.Has (prefixFanoutBucket scopeLib keyPrefix) keyPrefix sessionId ∧
    startsWith key keyPrefix = true := by
  have hcollect : ∀ (sessionIds : SessionIds) (keyPrefix : String),
      sessionId ∈ index.collectPrefixMatches scopeLib keyPrefix sessionIds ↔
        index.Has (prefixFanoutBucket scopeLib keyPrefix) keyPrefix sessionId ∨ sessionId ∈ sessionIds := by
    intro sessionIds keyPrefix
    rw [collectPrefixMatches, Has, Holds]
    cases hbucket : index.buckets[prefixFanoutBucket scopeLib keyPrefix]? with
    | none => simp
    | some bucket =>
      simp only [PrefixFanoutBucketIndex.collectPrefixMatches, Multimap.Lists, Holds]
      cases hfound : bucket.sessionIdsByPrefix[keyPrefix]? with
      | none => simp [hfound]
      | some listed => simp [hfound, ExtTreeSet.mem_union_iff, or_comm]
  rw [matchingSessionIds, iff_foldl_add (sessionId ∈ ·) hcollect]
  simp only [mem_prefixesOf, ExtTreeSet.not_mem_empty, or_false]
  exact exists_congr fun keyPrefix => and_comm

end PrefixFanoutIndex

/-! ## Routes -/

/-- A way on which events come to sessions. -/
inductive Route where
  | room (roomId : String)
  | fullTable (table : String)
  | range (table : String) (place : Option Nat) (lower upper : Option String)
  | indexPrefix (table : String) (subscription : IndexPrefixFanoutSubscription)
  | nestedTable (table : String) (bucket : Nat) (keyPrefix : String)
  | queryTable (table : String)
  | userEvents (userId : String)
  | objects

/-- The subscriptions that are replaced together. -/
inductive RouteKind where
  | record
  | query
  | userEvent
  | object

def Route.kind : Route → RouteKind
  | .queryTable _ => .query
  | .userEvents _ => .userEvent
  | .objects => .object
  | _ => .record

variable {Sender : Type} {scopeLib : ScopeLibraries}

/-- The session is on the route. -/
def RealtimeFanoutSession.Subscribes (scopeLib : ScopeLibraries)
    (session : RealtimeFanoutSession Sender) : Route → Prop
  | .room roomId => roomId ∈ session.subscriptions.rooms
  | .fullTable table => table ∈ session.subscriptions.fullTables
  | .range table place lower upper => ∃ subscription ∈ session.subscriptions.tableRanges,
    subscription.hasIndexPrefix = false ∧ table = subscription.table ∧
      place ∈ (rangeFanoutBuckets subscription).places ∧ lower = subscription.lowerKey ∧
      upper = subscription.upperKey
  | .indexPrefix table subscription =>
    subscription ∈ session.subscriptions.indexPrefixTables ∧ table = subscription.table
  | .nestedTable table bucket keyPrefix => ∃ subscription ∈ session.subscriptions.nestedTables,
    table = subscription.logicalTable ∧
    bucket = prefixFanoutBucket scopeLib subscription.keyPrefix ∧
      keyPrefix = subscription.keyPrefix
  | .queryTable table => table ∈ session.subscriptions.queryTables
  | .userEvents userId => session.subscriptions.userEvents = true ∧ session.userId = some userId
  | .objects => session.subscriptions.objects = true

/-- The session has a plain range of the table, which may be of no key. -/
def RealtimeFanoutSession.HasRange (session : RealtimeFanoutSession Sender) (table : String) :
    Prop :=
  ∃ subscription ∈ session.subscriptions.tableRanges, subscription.hasIndexPrefix = false ∧ table = subscription.table

namespace RealtimeFanoutInner

open RealtimeFanoutSession (Subscribes HasRange)

/-- The index of the route has the session. -/
def Listed (inner : RealtimeFanoutInner Sender) (route : Route) (sessionId : String) : Prop :=
  match route with
  | .room roomId => Lists inner.rooms roomId sessionId
  | .fullTable table => Lists inner.fullTables table sessionId
  | .range table place lower upper => Holds inner.rangeTables table fun index => index.Has place lower upper sessionId
  | .indexPrefix table subscription => Holds inner.indexPrefixTables table fun index => index.Has subscription sessionId
  | .nestedTable table bucket keyPrefix =>
    Holds inner.nestedTables table fun index => index.Has bucket keyPrefix sessionId
  | .queryTable table => Lists inner.queryTables table sessionId
  | .userEvents userId => Lists inner.userEvents userId sessionId
  | .objects => sessionId ∈ inner.objects

/-- No index has an empty set; an entry of `rangeTables` may be empty. -/
structure Ok (inner : RealtimeFanoutInner Sender) : Prop where
  rooms : Full inner.rooms
  fullTables : Full inner.fullTables
  rangeTables : All inner.rangeTables RangeFanoutIndex.Ok
  indexPrefixTables : All inner.indexPrefixTables IndexPrefixFanoutIndex.Ok
  nestedTables : All inner.nestedTables PrefixFanoutIndex.Ok
  queryTables : Full inner.queryTables
  userEvents : Full inner.userEvents

/-! ## Indexes of one kind -/

/-- These put the session on its routes of one kind, and take it from them. -/
structure Indexes (scopeLib : ScopeLibraries) (sessionId : String) (kind : RouteKind)
    (add remove : RealtimeFanoutInner Sender → RealtimeFanoutSession Sender →
      RealtimeFanoutInner Sender) : Prop where
  sessions : ∀ inner session, (add inner session).sessions = inner.sessions ∧
    (remove inner session).sessions = inner.sessions
  ok : ∀ inner session, inner.Ok → (add inner session).Ok ∧ (remove inner session).Ok
  added : ∀ inner session route other, (add inner session).Listed route other ↔
    (route.kind = kind ∧ session.Subscribes scopeLib route ∧ other = sessionId) ∨ inner.Listed route other
  removed : ∀ inner session route other, (remove inner session).Listed route other ↔
    inner.Listed route other ∧ ¬ (route.kind = kind ∧ session.Subscribes scopeLib route ∧ other = sessionId)
  entered : ∀ {inner session table index}, (add inner session).rangeTables[table]? = some index →
    (kind = .record ∧ session.HasRange table) ∨ inner.rangeTables[table]? = some index
  left : ∀ {inner session table index}, (remove inner session).rangeTables[table]? = some index →
    index.isEmpty = true → inner.rangeTables[table]? = some index ∧ ¬ (kind = .record ∧ session.HasRange table)

variable (scopeLib) (sessionId : String)

theorem addedRecordIndexes (inner : RealtimeFanoutInner Sender)
    (session : RealtimeFanoutSession Sender) (route : Route)
    (other : String) : (inner.addRecordIndexes scopeLib sessionId session.subscriptions).Listed route other ↔
    (route.kind = .record ∧ session.Subscribes scopeLib route ∧ other = sessionId) ∨
    inner.Listed route other := by
  cases route with
  | room | fullTable => simpa [Route.kind, Subscribes, Listed, addRecordIndexes] using lists_addValues
  | range table place lower upper =>
    have hrange := holds_foldl_insertEntry (RangeFanoutIndex.Has · place lower upper other) TableSubscription.table
      (RangeFanoutIndex.not_has_default place lower upper other)
      (fun subscription _ => RangeFanoutIndex.has_insert subscription sessionId place lower upper other)
      (session.subscriptions.tableRanges.filter (!·.hasIndexPrefix)) inner.rangeTables table
    refine hrange.trans (or_congr_left ?_)
    simp [Route.kind, Subscribes, ← exists_and_right, and_assoc]
  | indexPrefix table subscription =>
    have hpre := holds_foldl_insertEntry (IndexPrefixFanoutIndex.Has · subscription other)
      IndexPrefixFanoutSubscription.table (not_lists_empty subscription other) (fun added _ => lists_addValue added
      subscription sessionId other) session.subscriptions.indexPrefixTables inner.indexPrefixTables table
    refine hpre.trans (or_congr_left ?_)
    simp only [Route.kind, Subscribes, true_and]
    constructor
    · rintro ⟨_, hmem, htable, rfl, hsame⟩
      exact ⟨⟨hmem, htable⟩, hsame⟩
    · rintro ⟨⟨hmem, htable⟩, hsame⟩
      exact ⟨subscription, hmem, htable, rfl, hsame⟩
  | nestedTable table bucket keyPrefix =>
    have hnested := holds_foldl_insertEntry (PrefixFanoutIndex.Has · bucket keyPrefix other)
      NestedTableSubscription.logicalTable (not_holds_empty bucket _) (fun subscription _ =>
        PrefixFanoutIndex.has_insert scopeLib subscription.keyPrefix sessionId bucket keyPrefix other)
      session.subscriptions.nestedTables inner.nestedTables table
    refine hnested.trans (or_congr_left ?_)
    simp [Route.kind, Subscribes, ← exists_and_right, and_assoc]
  | _ => simp [Route.kind, Listed, addRecordIndexes]

theorem removedRecordIndexes (inner : RealtimeFanoutInner Sender)
    (session : RealtimeFanoutSession Sender) (route : Route) (other : String) :
    (inner.removeRecordIndexes scopeLib sessionId session.subscriptions).Listed route other ↔
    inner.Listed route other ∧
    ¬ (route.kind = .record ∧ session.Subscribes scopeLib route ∧ other = sessionId) := by
  cases route with
  | room | fullTable => simpa [Route.kind, Subscribes, Listed, removeRecordIndexes] using lists_removeValues
  | range table place lower upper =>
    have hrange := holds_foldl_removeEntry (RangeFanoutIndex.Has · place lower upper other) TableSubscription.table
      (fun index hempty => RangeFanoutIndex.not_has_of_isEmpty other hempty place lower upper)
      (fun subscription _ => RangeFanoutIndex.has_remove subscription sessionId place lower upper other)
      (session.subscriptions.tableRanges.filter (!·.hasIndexPrefix)) inner.rangeTables table
    refine hrange.trans (and_congr_right fun _ => ?_)
    simp [Route.kind, Subscribes]
  | indexPrefix table subscription =>
    have hpre := holds_foldl_removeEntry (IndexPrefixFanoutIndex.Has · subscription other)
      IndexPrefixFanoutSubscription.table (fun index hempty => IndexPrefixFanoutIndex.not_has_of_isEmpty
      hempty subscription other) (fun removed _ => lists_removeValue removed subscription sessionId other)
      session.subscriptions.indexPrefixTables inner.indexPrefixTables table
    refine hpre.trans (and_congr_right fun _ => ?_)
    simp [Route.kind, Subscribes]
    grind
  | nestedTable table bucket keyPrefix =>
    have hnested :=
      holds_foldl_removeEntry (PrefixFanoutIndex.Has · bucket keyPrefix other) NestedTableSubscription.logicalTable
      (fun index hempty => PrefixFanoutIndex.not_has_of_isEmpty hempty bucket keyPrefix other) (fun subscription _ =>
        PrefixFanoutIndex.has_remove scopeLib subscription.keyPrefix sessionId bucket keyPrefix other)
      session.subscriptions.nestedTables inner.nestedTables table
    refine hnested.trans (and_congr_right fun _ => ?_)
    simp [Route.kind, Subscribes]
  | _ => simp [Route.kind, Listed, removeRecordIndexes]

theorem recordIndexes : Indexes scopeLib sessionId .record
    (fun (inner : RealtimeFanoutInner Sender) session =>
      inner.addRecordIndexes scopeLib sessionId session.subscriptions)
    fun inner session => inner.removeRecordIndexes scopeLib sessionId session.subscriptions where
  sessions _ _ := ⟨rfl, rfl⟩
  ok inner session h := by
    constructor
    · exact
        { rooms := full_addValues h.rooms _ _
          fullTables := full_addValues h.fullTables _ _
          rangeTables := all_foldl_insertEntry h.rangeTables (fun _ => RangeFanoutIndex.ok_default.insert _ _)
            (fun _ _ hindex => hindex.insert _ _) _
          indexPrefixTables := all_foldl_insertEntry h.indexPrefixTables
            (fun _ => ⟨Full.addValue _ _ (all_empty _), IndexPrefixFanoutIndex.isEmpty_insert _ _⟩)
            (fun _ _ hindex => ⟨hindex.full.addValue _ _, IndexPrefixFanoutIndex.isEmpty_insert _ _⟩) _
          nestedTables := all_foldl_insertEntry h.nestedTables
            (fun _ => PrefixFanoutIndex.buckets_insert _ _ (all_empty _))
            (fun _ _ hindex => PrefixFanoutIndex.buckets_insert _ _ hindex.buckets) _
          queryTables := h.queryTables
          userEvents := h.userEvents }
    · exact
        { rooms := full_removeValues h.rooms _ _
          fullTables := full_removeValues h.fullTables _ _
          rangeTables := all_foldl_removeEntry h.rangeTables (fun _ _ hindex _ => hindex.remove _ _) _
          indexPrefixTables := all_foldl_removeEntry h.indexPrefixTables
            (fun _ _ hindex hleft => ⟨hindex.full.removeValue _ _, hleft⟩) _
          nestedTables := all_foldl_removeEntry h.nestedTables
            (fun _ _ hindex hleft => PrefixFanoutIndex.buckets_remove _ _ hindex hleft) _
          queryTables := h.queryTables
          userEvents := h.userEvents }
  added := addedRecordIndexes scopeLib sessionId
  removed := removedRecordIndexes scopeLib sessionId
  entered hfound := by simpa [HasRange, and_assoc] using entry_foldl_insertEntry _ hfound
  left hfound hempty := by simpa [HasRange, and_assoc] using empty_foldl_removeEntry _ hfound hempty

theorem queryIndexes :
    Indexes scopeLib sessionId .query (fun (inner : RealtimeFanoutInner Sender) session =>
    inner.addQueryIndexes sessionId session.subscriptions) fun inner session =>
    inner.removeQueryIndexes sessionId session.subscriptions where
  sessions _ _ := ⟨rfl, rfl⟩
  ok _ _ h := ⟨{ h with queryTables := full_addValues h.queryTables _ _ },
    { h with queryTables := full_removeValues h.queryTables _ _ }⟩
  added inner session route other := by
    cases route with
    | queryTable table => simpa [Route.kind, Subscribes, Listed, addQueryIndexes] using lists_addValues
    | _ => simp [Route.kind, Listed, addQueryIndexes]
  removed inner session route other := by
    cases route with
    | queryTable table => simpa [Route.kind, Subscribes, Listed, removeQueryIndexes] using lists_removeValues
    | _ => simp [Route.kind, Listed, removeQueryIndexes]
  entered := .inr
  left hfound _ := ⟨hfound, by simp⟩

theorem userEventIndexes :
    Indexes scopeLib sessionId .userEvent (fun (inner : RealtimeFanoutInner Sender) session =>
    inner.addUserEventIndex sessionId session.userId session.subscriptions) fun inner session =>
    inner.removeUserEventIndex sessionId session.userId session.subscriptions where
  sessions _ _ := by
    unfold addUserEventIndex removeUserEventIndex
    constructor <;> split <;> rfl
  ok _ _ h := by
    unfold addUserEventIndex removeUserEventIndex
    constructor
    · split
      · exact { h with userEvents := h.userEvents.addValue _ _ }
      · exact h
    · split
      · exact { h with userEvents := h.userEvents.removeValue _ _ }
      · exact h
  added inner session route other := by
    cases route with
    | userEvents name =>
      simp only [addUserEventIndex, Route.kind, Subscribes, true_and]
      split
      · next userId hsubscribed huser =>
        have hadded : Lists (addValue inner.userEvents userId sessionId) name other ↔ _ := lists_addValue _ _ _ _
        simpa [hsubscribed, huser, Listed, eq_comm] using hadded
      · next hneither =>
        refine (or_iff_right fun hin => ?_).symm
        exact hneither name hin.1.1 hin.1.2
    | _ =>
      unfold addUserEventIndex
      split <;> simp [Route.kind, Listed]
  removed inner session route other := by
    cases route with
    | userEvents name =>
      simp only [removeUserEventIndex, Route.kind, Subscribes, true_and]
      split
      · next userId hsubscribed huser =>
        have hremoved : Lists (removeIndexValue inner.userEvents userId sessionId) name other ↔ _ :=
          lists_removeValue _ _ _ _
        simpa [hsubscribed, huser, Listed, eq_comm] using hremoved
      · next hneither =>
        refine (and_iff_left fun hin => ?_).symm
        exact hneither name hin.1.1 hin.1.2
    | _ =>
      unfold removeUserEventIndex
      split <;> simp [Route.kind, Listed]
  entered hfound := by
    unfold addUserEventIndex at hfound
    split at hfound <;> exact .inr hfound
  left hfound _ := by
    unfold removeUserEventIndex at hfound
    split at hfound <;> exact ⟨hfound, by simp⟩

theorem objectIndexes :
    Indexes scopeLib sessionId .object (fun (inner : RealtimeFanoutInner Sender) session =>
    inner.addObjectIndex sessionId session.subscriptions) fun inner session =>
    inner.removeObjectIndex sessionId session.subscriptions where
  sessions _ _ := by
    unfold addObjectIndex removeObjectIndex
    constructor <;> split <;> rfl
  ok _ _ h := by
    unfold addObjectIndex removeObjectIndex
    constructor <;> split <;> exact { h with }
  added inner session route other := by
    unfold addObjectIndex
    cases route <;> split <;> simp_all [Route.kind, Subscribes, Listed, ExtTreeSet.mem_insert, eq_comm (a := other)]
  removed inner session route other := by
    unfold removeObjectIndex
    cases route <;> split <;>
      simp_all [Route.kind, Subscribes, Listed, ExtTreeSet.mem_erase, and_comm, eq_comm (a := other)]
  entered hfound := by
    unfold addObjectIndex at hfound
    split at hfound <;> exact .inr hfound
  left hfound _ := by
    unfold removeObjectIndex at hfound
    split at hfound <;> exact ⟨hfound, by simp⟩

end RealtimeFanoutInner

end NextDb.Api.RealtimeFanout
