import NextDb.Api.FanoutRoutes

/-!
# Deliveries of the fanout

A registry that only keeps what the calls said asks every session for every event. The fanout finds
the same sessions in its indexes, and its batches are the events that each of them is subscribed to.
A record is in an index prefix by its values of the fields of the index, all of which it must have;
the fanout has a test of its own for it, which takes the name of a field for a path and reads the
first fields only.

* `Tracks.apply`: the indexes have the routes of the sessions, whatever call comes.
* `mem_candidateSessionIds`: the lookups of an event find the sessions that the fanout's tests pick.
* `recordHasIndexPrefix_eq`: the two tests of an index prefix agree on the records that have all
  indexed values, where no name of an indexed field has a dot.
* `deliveriesForEvents_eq`: on such records the fanout delivers what that registry does, and it has
  nothing left without sessions.
-/

namespace NextDb.Api.RealtimeFanout

open List Std.ExtTreeMap

open Actor (ScopeLibraries)
open Frames RecordMatch LiveQuery Multimap
open Routing (splitAll_of_notMem)
open RealtimeFanoutSession (Subscribes HasRange)

variable {Sender Frame : Type} {lib : QueryLibrary} {scopeLib : ScopeLibraries}

/-! ## Subscribers -/

/-- What the calls for a session said. -/
structure Subscriber (Sender : Type) where
  userId : Option String
  sender : Sender
  rooms : List String
  fullTables : List String
  tableRanges : List TableSubscription
  nestedTables : List NestedTableSubscription
  schema : Option DatabaseSchema
  queryTables : List String
  userEvents : Bool
  objects : Bool

abbrev Subscribers (Sender : Type) := BTreeMap String (Subscriber Sender)

def Subscribers.apply (subscribers : Subscribers Sender) : FanoutCall Sender → Subscribers Sender
  | .register sessionId userId sender =>
    subscribers.insert sessionId ⟨userId, sender, [], [], [], [], none, [], false, false⟩
  | .unregister sessionId => subscribers.erase sessionId
  | .updateRecordSubscriptions sessionId rooms fullTables tableRanges nestedTables schema =>
    subscribers.modify sessionId fun subscriber =>
      { subscriber with rooms, fullTables, tableRanges, nestedTables, schema := some schema }
  | .updateQuerySubscriptions sessionId queryTables =>
    subscribers.modify sessionId fun subscriber => { subscriber with queryTables }
  | .updateUserEventSubscription sessionId subscribed =>
    subscribers.modify sessionId fun subscriber => { subscriber with userEvents := subscribed }
  | .updateObjectSubscription sessionId subscribed =>
    subscribers.modify sessionId fun subscriber => { subscriber with objects := subscribed }

/-- The fanout's test: the record has the values at the paths that the first fields of the index
spell. -/
def recordHasIndexPrefix (lib : QueryLibrary) (schema : DatabaseSchema) (record : DbRecord)
    (subscription : TableSubscription) : Bool :=
  match subscription.indexName, subscription.indexValues with
  | some indexName, some indexValues =>
    (tableSubscriptionIndexSchema schema subscription.table indexName).any fun index =>
      match parseIndexPrefixValues lib indexValues index with
      | .ok values => (index.fields.zip values).all fun pair =>
        (valueAtFieldPath record.value.json pair.1).any (lib.valueEq · pair.2)
      | .error _ => false
  | _, _ => false

/-- The record of the event, or the one that it deletes, has the index prefix by the fanout's test.
-/
def eventHasIndexPrefix (lib : QueryLibrary) (schema : Option DatabaseSchema)
    (event : DeliveryEvent) (subscription : TableSubscription) : Bool :=
  (eventRecordForIndexPrefix event).any fun found =>
    subscription.table == found.1 && schema.any fun schema => recordHasIndexPrefix lib schema found.2 subscription

/-- The record of the event, or the one that it deletes, is in the index prefix of the subscription.
-/
def eventMatchesIndexPrefix (lib : QueryLibrary) (schema : Option DatabaseSchema)
    (event : DeliveryEvent) (subscription : TableSubscription) : Bool :=
  (eventRecordForIndexPrefix event).any fun found => event.recordKey.any fun key => subscription.hasIndexPrefix &&
    schema.any fun schema => recordMatchesTableSubscription lib found.1 key (some found.2) schema subscription

/-- A subscription of the session is for the event, where `indexPrefix` tells it of those with an
index prefix. -/
def Subscriber.takes (indexPrefix : TableSubscription → Bool) (sessionId : String)
    (subscriber : Subscriber Sender) (event : DeliveryEvent) : Bool :=
  (subscriber.objects && event.isObjectEvent) || (event.roomId.any fun roomId => decide (roomId ∈ subscriber.rooms)) ||
    (event.table.any fun table => event.recordKey.any fun key =>
      recordMatchesTableFilters table key subscriber.fullTables subscriber.tableRanges subscriber.nestedTables ||
        decide (table ∈ subscriber.queryTables)) ||
    subscriber.tableRanges.any indexPrefix ||
    (subscriber.userEvents && event.userId.any fun userId =>
      decide (subscriber.userId = some userId) &&
        event.targetSessionIds.all fun targetSessionIds => decide (sessionId ∈ targetSessionIds))

/-- A subscription of the session matches the event. -/
def Subscriber.matches (lib : QueryLibrary) (sessionId : String) (subscriber : Subscriber Sender)
    (event : DeliveryEvent) : Bool :=
  subscriber.takes (eventMatchesIndexPrefix lib subscriber.schema event) sessionId event

/-- The fanout's tests pick the session for the event. -/
def Subscriber.routed (lib : QueryLibrary) (sessionId : String) (subscriber : Subscriber Sender)
    (event : DeliveryEvent) : Bool :=
  subscriber.takes (eventHasIndexPrefix lib subscriber.schema event) sessionId event

/-- Each session with an event that is picked for it gets those events. -/
def Subscribers.deliver (picked : String → Subscriber Sender → DeliveryEvent → Bool)
    (preencodeSharedEvents : List DeliveryEvent → Option Frame) (subscribers : Subscribers Sender)
    (events : List DeliveryEvent) : List (Sender × RoutedRealtimeEventBatch Frame) :=
  subscribers.toList.filterMap fun entry =>
    let batch := events.filter (picked entry.1 entry.2)
    if batch.isEmpty then none else some (entry.2.sender, ⟨batch, preencodeSharedEvents batch⟩)

/-- Naive routing: each session gets the events that one of its subscriptions matches. -/
def Subscribers.deliveries (lib : QueryLibrary) : (List DeliveryEvent → Option Frame) →
    Subscribers Sender →
    List DeliveryEvent → List (Sender × RoutedRealtimeEventBatch Frame) :=
  Subscribers.deliver (Subscriber.matches lib)

/-- No field of the subscription's index has a dot in its name, and the record has a scalar value in
each of them. -/
def IndexedPlainly (schema : DatabaseSchema) (subscription : TableSubscription)
    (record : DbRecord) : Prop :=
  ∀ indexName ∈ subscription.indexName, ∀ index ∈ tableSubscriptionIndexSchema schema subscription.table indexName,
    (∀ field ∈ index.fields, '.' ∉ field.toList) ∧ (recordIndexValues record index).isOk = true

/-- So it is for every subscription of a session and every record that the events write or delete in
its table. -/
def AllIndexedPlainly (subscribers : Subscribers Sender) (events : List DeliveryEvent) : Prop :=
  ∀ (sessionId : String) (subscriber : Subscriber Sender), subscribers[sessionId]? = some subscriber →
    ∀ subscription ∈ subscriber.tableRanges, ∀ schema ∈ subscriber.schema, ∀ event ∈ events, ∀ record,
    eventRecordForIndexPrefix event = some (subscription.table, record) → IndexedPlainly schema subscription record

/-- The subscriptions that the registry of the fanout keeps of a subscriber. -/
def Subscriber.session (lib : QueryLibrary) (subscriber : Subscriber Sender) :
    RealtimeFanoutSession Sender where
  userId := subscriber.userId
  sender := subscriber.sender
  subscriptions :=
    { rooms := subscriber.rooms
      fullTables := subscriber.fullTables
      tableRanges := subscriber.tableRanges
      indexPrefixTables := subscriber.schema.elim [] (indexPrefixSubscriptions lib subscriber.tableRanges)
      nestedTables := subscriber.nestedTables
      queryTables := subscriber.queryTables
      userEvents := subscriber.userEvents
      objects := subscriber.objects }

/-! ## The indexes of the subscribers -/

namespace RealtimeFanoutInner

/-- The sessions are the subscribers, and the indexes have their routes. -/
structure Tracks (lib : QueryLibrary) (scopeLib : ScopeLibraries) (subscribers : Subscribers Sender)
    (inner : RealtimeFanoutInner Sender) : Prop where
  ok : inner.Ok
  sessions : ∀ sessionId : String, inner.sessions[sessionId]? = subscribers[sessionId]?.map (Subscriber.session lib)
  listed : ∀ route sessionId, inner.Listed route sessionId ↔
    ∃ session, inner.sessions[sessionId]? = some session ∧ session.Subscribes scopeLib route
  held : ∀ (table : String) index, inner.rangeTables[table]? = some index → index.isEmpty = true →
    ∃ (sessionId : String) (session : _), inner.sessions[sessionId]? = some session ∧ session.HasRange table

variable {inner : RealtimeFanoutInner Sender} {subscribers : Subscribers Sender}

theorem tracks_default : Tracks lib scopeLib (∅ : Subscribers Sender) .default where
  ok := ⟨all_empty _, all_empty _, all_empty _, all_empty _, all_empty _, all_empty _, all_empty _⟩
  sessions sessionId := by simp [RealtimeFanoutInner.default]
  listed route sessionId := by
    cases route <;> simp [Listed, Multimap.Lists, not_holds_empty, RealtimeFanoutInner.default]
  held table index hfound := by simp [RealtimeFanoutInner.default] at hfound

theorem listed_setSessions (sessions : BTreeMap String (RealtimeFanoutSession Sender))
    (route : Route)
    (sessionId : String) : Listed { inner with sessions } route sessionId ↔
    inner.Listed route sessionId := by
  cases route <;> rfl

theorem Ok.setSessions (h : inner.Ok) (sessions : BTreeMap String (RealtimeFanoutSession Sender)) :
    Ok { inner with sessions } :=
  { h with }

/-- Subscriptions of one kind are replaced in the session and in the indexes. -/
theorem Tracks.replace (h : Tracks lib scopeLib subscribers inner) {sessionId : String}
    {kind : RouteKind}
    {add remove : RealtimeFanoutInner Sender → RealtimeFanoutSession Sender →
      RealtimeFanoutInner Sender}
    (hindexes : Indexes scopeLib sessionId kind add remove)
    {changeSession : RealtimeFanoutSubscriptions → RealtimeFanoutSubscriptions}
    {change : Subscriber Sender →
    Subscriber Sender} (hchange : ∀ subscriber : Subscriber Sender,
      (change subscriber).session lib =
    { subscriber.session lib with subscriptions := changeSession (subscriber.session lib).subscriptions })
    (hothers : ∀ (session : RealtimeFanoutSession Sender) (route : Route), route.kind ≠ kind →
      (Subscribes scopeLib
    { session with subscriptions := changeSession session.subscriptions } route ↔
      session.Subscribes scopeLib route))
    (hranges : kind ≠ .record → ∀ subscriptions,
    (changeSession subscriptions).tableRanges = subscriptions.tableRanges) : Tracks lib scopeLib
    (subscribers.modify sessionId change) (inner.replaceSubscriptions sessionId changeSession remove add) := by
  unfold replaceSubscriptions
  split
  · next hnone =>
    have hnone := (h.sessions sessionId).symm.trans hnone
    rw [Option.map_eq_none_iff] at hnone
    rwa [Multimap.modify_of_absent change hnone]
  · next session hfound =>
    have hsessions : (add ((remove inner session).setSession sessionId { session with
        subscriptions := changeSession session.subscriptions }) { session with
        subscriptions := changeSession session.subscriptions }).sessions =
        inner.sessions.insert sessionId { session with subscriptions := changeSession session.subscriptions } := by
      rw [(hindexes.sessions _ _).1, setSession, (hindexes.sessions _ _).2]
    refine ⟨(hindexes.ok _ _ ((hindexes.ok _ session h.ok).2.setSessions _)).1, fun other => ?_, fun route other => ?_,
      fun table index hindex hempty => ?_⟩
    · rw [hsessions, Std.ExtTreeMap.getElem?_insert, Std.ExtTreeMap.getElem?_modify, h.sessions]
      split
      · next hsame =>
        obtain rfl := compare_eq_iff_eq.mp hsame
        rw [h.sessions, Option.map_eq_some_iff] at hfound
        obtain ⟨subscriber, hsubscriber, rfl⟩ := hfound
        rw [hsubscriber, Option.map_some, Option.map_some, hchange]
      · rfl
    · rw [hindexes.added, setSession, listed_setSessions, hindexes.removed, h.listed, hsessions,
        Std.ExtTreeMap.getElem?_insert]
      by_cases hsame : sessionId = other
      · subst hsame
        by_cases hkind : route.kind = kind
        · simp [hkind, hfound]
        · simp [hkind, hfound, hothers session route hkind]
      · simp [hsame, Ne.symm hsame]
    · rw [hsessions]
      simp only [Std.ExtTreeMap.getElem?_insert, compare_eq_iff_eq]
      rcases hindexes.entered hindex with ⟨-, hrange⟩ | hbefore
      · exact ⟨sessionId, _, if_pos rfl, hrange⟩
      · obtain ⟨hbefore, hnot⟩ := hindexes.left hbefore hempty
        obtain ⟨other, session', hfound', hrange⟩ := h.held table index hbefore hempty
        by_cases hsame : sessionId = other
        · subst hsame
          cases hfound.symm.trans hfound'
          have hkind : kind ≠ .record := fun hkind => hnot ⟨hkind, hrange⟩
          refine ⟨sessionId, _, if_pos rfl, ?_⟩
          rwa [HasRange, hranges hkind]
        · exact ⟨other, session', by rwa [if_neg hsame], hrange⟩

theorem Tracks.removeSession (h : Tracks lib scopeLib subscribers inner) (sessionId : String) :
    Tracks lib scopeLib (subscribers.erase sessionId) (inner.removeSession scopeLib sessionId) ∧
    (inner.removeSession scopeLib sessionId).sessions = inner.sessions.erase sessionId := by
  unfold RealtimeFanoutInner.removeSession
  split
  · next hnone =>
    have hnone' := (h.sessions sessionId).symm.trans hnone
    rw [Option.map_eq_none_iff] at hnone'
    rw [Multimap.erase_of_absent hnone', Multimap.erase_of_absent hnone]
    exact ⟨h, rfl⟩
  · next session hfound =>
    have hrecord := @recordIndexes Sender scopeLib sessionId
    have hquery := @queryIndexes Sender scopeLib sessionId
    have huser := @userEventIndexes Sender scopeLib sessionId
    have hobject := @objectIndexes Sender scopeLib sessionId
    dsimp only
    have hsessions :=
      (hobject.sessions _ session).2.trans ((huser.sessions _ session).2.trans ((hquery.sessions _ session).2.trans
        (hrecord.sessions { inner with sessions := inner.sessions.erase sessionId } session).2))
    refine ⟨⟨?_, fun other => ?_, fun route other => ?_, fun table index hindex hempty => ?_⟩, hsessions⟩
    · exact (hobject.ok _ _ (huser.ok _ _ (hquery.ok _ _ (hrecord.ok _ session (h.ok.setSessions _)).2).2).2).2
    · rw [hsessions, getElem?_erase, getElem?_erase, h.sessions]
      split <;> rfl
    · rw [hobject.removed, huser.removed, hquery.removed, hrecord.removed, listed_setSessions, h.listed, hsessions,
        getElem?_erase]
      by_cases hsame : sessionId = other
      · subst hsame
        cases route.kind <;> simp [hfound]
      · simp [hsame, Ne.symm hsame]
    · obtain ⟨hindex, -⟩ := hobject.left hindex hempty
      obtain ⟨hindex, -⟩ := huser.left hindex hempty
      obtain ⟨hindex, -⟩ := hquery.left hindex hempty
      obtain ⟨hindex, hnot⟩ := hrecord.left hindex hempty
      obtain ⟨other, session', hfound', hrange⟩ := h.held table index hindex hempty
      refine ⟨other, session', ?_, hrange⟩
      rw [hsessions, getElem?_erase]
      split
      · next hsame =>
        obtain rfl := compare_eq_iff_eq.mp hsame
        cases hfound.symm.trans hfound'
        exact absurd ⟨rfl, hrange⟩ hnot
      · exact hfound'

theorem Tracks.apply (h : Tracks lib scopeLib subscribers inner) (call : FanoutCall Sender) :
    Tracks lib scopeLib (subscribers.apply call) (inner.apply lib scopeLib call) := by
  simp only [RealtimeFanoutInner.apply, Subscribers.apply]
  cases call with
  | register sessionId userId sender =>
    obtain ⟨hremoved, hsessions⟩ := h.removeSession sessionId
    refine ⟨hremoved.ok.setSessions _, fun other => ?_, fun route other => ?_, fun table index hindex hempty => ?_⟩
    · simp only [setSession, Std.ExtTreeMap.getElem?_insert, hsessions, Std.ExtTreeMap.getElem?_erase, h.sessions]
      split <;> rfl
    · simp only [setSession, listed_setSessions, hremoved.listed, hsessions, Std.ExtTreeMap.getElem?_insert,
        Std.ExtTreeMap.getElem?_erase]
      split
      · cases route <;> simp [Subscribes, RealtimeFanoutSubscriptions.default]
      · rfl
    · obtain ⟨other, session, hfound, hrange⟩ := hremoved.held table index hindex hempty
      refine ⟨other, session, ?_, hrange⟩
      simp only [setSession, hsessions, Std.ExtTreeMap.getElem?_insert, Std.ExtTreeMap.getElem?_erase] at hfound ⊢
      split at hfound
      · cases hfound
      · next hne => rwa [if_neg hne, if_neg hne]
  | unregister sessionId => exact (h.removeSession sessionId).1
  | updateRecordSubscriptions sessionId rooms fullTables tableRanges nestedTables schema =>
    refine Tracks.replace h (recordIndexes scopeLib sessionId) ?_ (fun session route hkind => ?_) (absurd rfl)
    · exact fun _ => rfl
    · cases route <;> first | exact absurd rfl hkind | rfl
  | updateQuerySubscriptions sessionId queryTables =>
    refine Tracks.replace h (queryIndexes scopeLib sessionId) ?_ (fun session route hkind => ?_) fun _ _ => rfl
    · exact fun _ => rfl
    · cases route <;> first | exact absurd rfl hkind | rfl
  | updateUserEventSubscription sessionId subscribed =>
    refine Tracks.replace h (userEventIndexes scopeLib sessionId) ?_ (fun session route hkind => ?_) fun _ _ => rfl
    · exact fun _ => rfl
    · cases route <;> first | exact absurd rfl hkind | rfl
  | updateObjectSubscription sessionId subscribed =>
    refine Tracks.replace h (objectIndexes scopeLib sessionId) ?_ (fun session route hkind => ?_) fun _ _ => rfl
    · exact fun _ => rfl
    · cases route <;> first | exact absurd rfl hkind | rfl

end RealtimeFanoutInner

/-! ## Index prefixes -/

theorem parseIndexPrefixValues_ok {valuesJson : String}
    {index : IndexSchema} {values : List Json}
    (h : parseIndexPrefixValues lib valuesJson index = .ok values) :
    lib.parseValues valuesJson = .ok values ∧ values.length ≤ index.fields.length := by
  unfold parseIndexPrefixValues at h
  cases hparse : lib.parseValues valuesJson with
  | error err =>
    rw [hparse] at h
    cases h
  | ok parsed =>
    simp only [hparse, Except.mapError, bind, Except.bind] at h
    split at h
    · cases h
    · split at h
      · cases h
      · next hlength =>
        split at h
        · cases h
        · cases h
          exact ⟨rfl, Nat.le_of_not_gt hlength⟩

variable {subscription : TableSubscription} {table : String} {event : DeliveryEvent}
    {schema : DatabaseSchema}
  {record : DbRecord}

/-- The fanout keeps the fields of the index and the text of the values, and matches the record by
them. -/
theorem recordHasIndexPrefix_iff :
    recordHasIndexPrefix lib schema record subscription = true ↔
    ∃ kept, indexPrefixSubscription lib subscription schema = some kept ∧
    kept.matches lib record = true := by
  unfold recordHasIndexPrefix indexPrefixSubscription
  cases hname : subscription.indexName with
  | none => simp
  | some indexName =>
    cases hvalues : subscription.indexValues with
    | none => simp
    | some indexValues =>
      cases hindex : tableSubscriptionIndexSchema schema subscription.table indexName with
      | none => simp [hindex]
      | some index =>
        cases hparse : parseIndexPrefixValues lib indexValues index with
        | error err => simp [hindex, hparse, Except.toOption]
        | ok values =>
          obtain ⟨hparsed, hlength⟩ := parseIndexPrefixValues_ok hparse
          simp [hindex, hparse, Except.toOption, IndexPrefixFanoutSubscription.matches, hparsed, Nat.not_lt.mpr hlength]

/-- A field without a dot in its name is a path of one component. -/
theorem valueAtFieldPath_of_notMem {field : String} (h : '.' ∉ field.toList) (value : Json) :
    valueAtFieldPath value field = jsonGet value field := by
  rw [valueAtFieldPath, splitAll_of_notMem h]
  simp

theorem jsonGet_of_recordIndexValues {index : IndexSchema} {values : List Json}
    (h : recordIndexValues record index = .ok values) :
    Forall₂ (fun field value => jsonGet record.value.json field = some value) index.fields values := by
  refine (forall₂_of_mapM_ok h).imp fun field value hfield => ?_
  cases hget : jsonGet record.value.json field with
  | none =>
    rw [hget] at hfield
    cases hfield
  | some found =>
    rw [hget] at hfield
    dsimp only at hfield
    split at hfield
    · exact congrArg some (Except.ok.inj hfield)
    · cases hfield

/-- The values at the paths are the values of the index. -/
theorem valuesEq_take (lib : QueryLibrary) {fields : List String}
    (hdots : ∀ field ∈ fields, '.' ∉ field.toList) {recordValues : List Json}
    (hfields : Forall₂ (fun field value => jsonGet record.value.json field = some value) fields recordValues)
    {values : List Json} (hlength : values.length ≤ fields.length) :
    valuesEq lib (recordValues.take values.length) values =
    (fields.zip values).all fun pair => (valueAtFieldPath record.value.json pair.1).any (lib.valueEq · pair.2) := by
  induction hfields generalizing values with
  | nil =>
    obtain rfl := eq_nil_of_length_eq_zero (Nat.le_zero.mp hlength)
    rfl
  | @cons field value fields recordValues hfield hfields ih =>
    cases values with
    | nil => simp [valuesEq]
    | cons expected values =>
      have hrest := ih (fun field hmem => hdots field (mem_cons_of_mem _ hmem)) (Nat.le_of_succ_le_succ hlength)
      have hhead : (valueAtFieldPath record.value.json field).any
        (lib.valueEq · expected) = lib.valueEq value expected := by
        rw [valueAtFieldPath_of_notMem (hdots field mem_cons_self), hfield, Option.any_some]
      simp only [valuesEq, length_cons, take_succ_cons, zip_cons_cons, all_cons, hhead] at hrest ⊢
      rw [← hrest]
      simp [Bool.and_left_comm]

/-- The fanout's test of an index prefix and that of the subscription agree on a record that has all
indexed values. -/
theorem recordHasIndexPrefix_eq (hplain : IndexedPlainly schema subscription record)
    (key : String) :
    recordHasIndexPrefix lib schema record subscription = (subscription.hasIndexPrefix &&
      recordMatchesTableSubscription lib subscription.table key (some record) schema subscription) := by
  unfold recordHasIndexPrefix recordMatchesTableSubscription TableSubscription.hasIndexPrefix
  cases hname : subscription.indexName with
  | none => simp
  | some indexName =>
    cases hvalues : subscription.indexValues with
    | none => simp
    | some indexValues =>
      cases hindex : tableSubscriptionIndexSchema schema subscription.table indexName with
      | none => simp [hindex]
      | some index =>
        cases hparse : parseIndexPrefixValues lib indexValues index with
        | error err => simp [hindex, hparse]
        | ok values =>
          obtain ⟨hdots, hok⟩ := hplain indexName hname index hindex
          cases hrecord : recordIndexValues record index with
          | error err =>
            rw [hrecord] at hok
            cases hok
          | ok recordValues =>
            have htake := valuesEq_take lib hdots (jsonGet_of_recordIndexValues hrecord)
              (parseIndexPrefixValues_ok hparse).2
            simp [hindex, hparse, recordMatchesIndexValuePrefix, hrecord, htake]

theorem table_of_eventRecord (h : eventRecordForIndexPrefix event = some (table, record)) :
    event.table = some table ∧ ∃ key, event.recordKey = some key := by
  cases event with
  | recordUpserted table' key record' =>
    cases h
    exact ⟨rfl, key, rfl⟩
  | recordDeleted table' key deletedAtMs lsn path previousRecord =>
    cases previousRecord with
    | none => cases h
    | some record' =>
      cases h
      exact ⟨rfl, key, rfl⟩
  | _ => cases h

namespace RealtimeFanoutInner

variable {sessionId : String}

theorem eventHasIndexPrefix_eq {schema : Option DatabaseSchema}
    (hplain : ∀ schema' ∈ schema, ∀ record,
    eventRecordForIndexPrefix event = some (subscription.table, record) →
    IndexedPlainly schema' subscription record) :
    eventHasIndexPrefix lib schema event subscription =
    eventMatchesIndexPrefix lib schema event subscription := by
  unfold eventHasIndexPrefix eventMatchesIndexPrefix
  cases hevent : eventRecordForIndexPrefix event with
  | none => rfl
  | some found =>
    obtain ⟨table, record⟩ := found
    obtain ⟨-, key, hkey⟩ := table_of_eventRecord hevent
    cases schema with
    | none => simp [hkey]
    | some schema =>
      by_cases hsame : subscription.table = table
      · subst hsame
        simp [hkey, recordHasIndexPrefix_eq (hplain schema rfl record hevent) key]
      · simp [hkey, hsame, recordMatchesTableSubscription]

theorem indexPrefixSubscription_table {kept : IndexPrefixFanoutSubscription}
    (h : indexPrefixSubscription lib subscription schema = some kept) :
    kept.table = subscription.table := by
  simp only [indexPrefixSubscription, Option.bind_eq_bind, Option.bind_eq_some_iff, Option.pure_def,
    Option.some.injEq] at h
  obtain ⟨_, _, _, _, _, _, _, _, rfl⟩ := h
  rfl

theorem matches_tableSubscription_iff {key : String} :
    subscription.matches table key = true ↔ subscription.hasIndexPrefix = false ∧
    table = subscription.table ∧
    InRange key subscription.lowerKey subscription.upperKey := by
  simp only [TableSubscription.matches, Bool.and_eq_true, beq_iff_eq, Bool.not_eq_true', InRange, belowUpper]
  constructor
  · rintro ⟨⟨⟨htable, hplain⟩, hlower⟩, hupper⟩
    exact ⟨hplain, htable.symm, hlower, hupper⟩
  · rintro ⟨hplain, htable, hlower, hupper⟩
    exact ⟨⟨⟨htable.symm, hplain⟩, hlower⟩, hupper⟩

/-! ## Candidates -/

theorem mem_elim {κ ι : Type} {cmp : κ → κ → Ordering} [Std.TransCmp cmp]
    {map : Std.ExtTreeMap κ ι cmp} {key : κ} {found : ι → SessionIds} :
    sessionId ∈ map[key]?.elim ∅ found ↔ Holds map key fun index => sessionId ∈ found index := by
  cases hfound : map[key]? <;> simp [Holds, hfound]

section Lookups

variable {Sender' : Type} {inner : RealtimeFanoutInner Sender} {event : DeliveryEvent}
    {sessionId : String}
  {subscriber : Subscriber Sender'}
  (hok : inner.Ok)
  (hlisted : ∀ route, inner.Listed route sessionId ↔
      (subscriber.session lib).Subscribes scopeLib route)

include hok hlisted in
theorem mem_rangeLookup (table key : String) :
    sessionId ∈ inner.rangeTables[table]?.elim ∅ (fun index => index.matchingSessionIds key) ↔
    (subscriber.tableRanges.any fun subscription => subscription.matches table key) = true := by
  rw [mem_elim, any_eq_true]
  constructor
  · rintro ⟨index, hfound, hmem⟩
    obtain ⟨place, lower, upper, hplace, hhas, hin⟩ :=
      (RangeFanoutIndex.mem_matchingSessionIds sessionId (hok.rangeTables table index hfound) key).mp hmem
    obtain ⟨subscription, hmem, hplain, hsame, -, rfl, rfl⟩ :=
      (hlisted (.range table place lower upper)).mp ⟨index, hfound, hhas⟩
    exact ⟨subscription, hmem, matches_tableSubscription_iff.mpr ⟨hplain, hsame, hin⟩⟩
  · rintro ⟨subscription, hmem, hmatch⟩
    obtain ⟨hplain, hsame, hin⟩ := matches_tableSubscription_iff.mp hmatch
    have hplaces : ∃ place ∈ (rangeFanoutBuckets subscription).places, place = none ∨
        place = some (rangeFanoutBucket key) := by
      rcases bucket_mem hin with hall | hbucket
      · exact ⟨none, hall, .inl rfl⟩
      · exact ⟨_, hbucket, .inr rfl⟩
    obtain ⟨place, hmemPlace, hplace⟩ := hplaces
    obtain ⟨index, hfound, hhas⟩ := (hlisted (.range table place subscription.lowerKey subscription.upperKey)).mpr
      ⟨subscription, hmem, hplain, hsame, hmemPlace, rfl, rfl⟩
    exact ⟨index, hfound, (RangeFanoutIndex.mem_matchingSessionIds sessionId (hok.rangeTables table index hfound)
      key).mpr ⟨place, _, _, hplace, hhas, hin⟩⟩

include hlisted in
theorem mem_indexPrefixLookup (htable : event.table = some table) :
    sessionId ∈ inner.indexPrefixTables[table]?.elim ∅ (fun index => index.matchingSessionIds lib event) ↔
    subscriber.tableRanges.any (eventHasIndexPrefix lib subscriber.schema event) = true := by
  rw [mem_elim, any_eq_true]
  constructor
  · rintro ⟨index, hfound, hmem⟩
    obtain ⟨table', record, hrecord, kept, hhas, hsame, hmatch⟩ := IndexPrefixFanoutIndex.mem_matchingSessionIds.mp hmem
    obtain rfl : table' = table := Option.some.inj ((table_of_eventRecord hrecord).1.symm.trans htable)
    have hkept : kept ∈ subscriber.schema.elim [] (indexPrefixSubscriptions lib subscriber.tableRanges) :=
      ((hlisted (.indexPrefix table' kept)).mp ⟨index, hfound, hhas⟩).1
    cases hschema : subscriber.schema with
    | none =>
      rw [hschema] at hkept
      cases hkept
    | some schema =>
      rw [hschema] at hkept
      obtain ⟨subscription, hmem, hkept⟩ := mem_filterMap.mp hkept
      have hhas := recordHasIndexPrefix_iff.mpr ⟨kept, hkept, hmatch⟩
      refine ⟨subscription, hmem, ?_⟩
      simp [eventHasIndexPrefix, hrecord, hhas, ← hsame, indexPrefixSubscription_table hkept]
  · rintro ⟨subscription, hmem, hhas⟩
    rw [eventHasIndexPrefix, Option.any_eq_true] at hhas
    obtain ⟨⟨table', record⟩, hrecord, hhas⟩ := hhas
    rw [Bool.and_eq_true, beq_iff_eq, Option.any_eq_true] at hhas
    obtain ⟨hsame, schema, hschema, hhas⟩ := hhas
    obtain rfl : table' = table := Option.some.inj ((table_of_eventRecord hrecord).1.symm.trans htable)
    obtain ⟨kept, hkept, hmatch⟩ := recordHasIndexPrefix_iff.mp hhas
    have hkeptTable := (indexPrefixSubscription_table hkept).trans hsame
    have hsubscribed : kept ∈ subscriber.schema.elim [] (indexPrefixSubscriptions lib subscriber.tableRanges) := by
      rw [hschema]
      exact mem_filterMap.mpr ⟨subscription, hmem, hkept⟩
    obtain ⟨index, hfound, hhas⟩ := (hlisted (.indexPrefix table' kept)).mpr ⟨hsubscribed, hkeptTable.symm⟩
    exact ⟨index, hfound,
      IndexPrefixFanoutIndex.mem_matchingSessionIds.mpr ⟨table', record, hrecord, kept, hhas, hkeptTable, hmatch⟩⟩

include hlisted in
theorem mem_nestedLookup (table key : String) :
    sessionId ∈ inner.nestedTables[table]?.elim ∅ (fun index => index.matchingSessionIds scopeLib key) ↔
    nestedTableMatches subscriber.nestedTables table key = true := by
  rw [mem_elim, nestedTableMatches, any_eq_true]
  constructor
  · rintro ⟨index, hfound, hmem⟩
    obtain ⟨keyPrefix, hhas, hstarts⟩ := PrefixFanoutIndex.mem_matchingSessionIds.mp hmem
    obtain ⟨subscription, hmem, hsame, -, rfl⟩ := (hlisted (.nestedTable table _ keyPrefix)).mp ⟨index, hfound, hhas⟩
    exact ⟨subscription, hmem, by simp [hsame, hstarts]⟩
  · rintro ⟨subscription, hmem, hmatch⟩
    rw [Bool.and_eq_true, beq_iff_eq] at hmatch
    obtain ⟨index, hfound, hhas⟩ :=
      (hlisted (.nestedTable table _ subscription.keyPrefix)).mpr ⟨subscription, hmem, hmatch.1.symm, rfl, rfl⟩
    exact ⟨index, hfound, PrefixFanoutIndex.mem_matchingSessionIds.mpr ⟨_, hhas, hmatch.2⟩⟩

include hlisted in
theorem mem_userCandidates (userId : String) :
    sessionId ∈ inner.userCandidates event userId ↔
    (subscriber.userEvents = true ∧ subscriber.userId = some userId) ∧
    (event.targetSessionIds.all fun targetSessionIds => decide (sessionId ∈ targetSessionIds)) =
    true := by
  have huser : Lists inner.userEvents userId sessionId ↔ subscriber.userEvents = true ∧
    subscriber.userId = some userId := hlisted (.userEvents userId)
  unfold userCandidates
  cases event.targetSessionIds with
  | none => simpa [mem_sessionIdsOf] using huser
  | some targetSessionIds => simp [Std.ExtTreeSet.mem_inter_iff, mem_sessionIdsOf, huser]

include hok hlisted in
theorem mem_candidates_of_subscriber :
    sessionId ∈ inner.candidateSessionIds lib scopeLib event ↔
    subscriber.routed lib sessionId event = true := by
  have hobject : sessionId ∈ (if event.isObjectEvent then inner.objects else ∅) ↔
      (subscriber.objects && event.isObjectEvent) = true := by
    have hmem : sessionId ∈ inner.objects ↔ subscriber.objects = true := hlisted .objects
    split <;> simp_all
  have hroom : sessionId ∈ (event.roomId.elim ∅ fun roomId => sessionIdsOf inner.rooms roomId) ↔
      (event.roomId.any fun roomId => decide (roomId ∈ subscriber.rooms)) = true := by
    cases event.roomId with
    | none => simp
    | some roomId =>
      rw [Option.elim_some, Option.any_some, decide_eq_true_iff, mem_sessionIdsOf]
      exact hlisted (.room roomId)
  have hrecord : sessionId ∈ (match event.table, event.recordKey with
        | some table, some key => inner.recordCandidates lib scopeLib event table key
        | _, _ => ∅) ↔
      (event.table.any fun table => event.recordKey.any fun key =>
        recordMatchesTableFilters table key subscriber.fullTables subscriber.tableRanges subscriber.nestedTables ||
          decide (table ∈ subscriber.queryTables)) = true ∨
      subscriber.tableRanges.any (eventHasIndexPrefix lib subscriber.schema event) = true := by
    split
    · next table key htable hkey =>
      have hfull : Lists inner.fullTables table sessionId ↔ table ∈ subscriber.fullTables := hlisted (.fullTable table)
      have hquery : Lists inner.queryTables table sessionId ↔ table ∈ subscriber.queryTables :=
        hlisted (.queryTable table)
      simp only [recordCandidates, Std.ExtTreeSet.mem_union_iff, mem_sessionIdsOf, hfull, hquery,
        mem_rangeLookup hok hlisted, mem_indexPrefixLookup hlisted htable, mem_nestedLookup hlisted, htable, hkey,
        Option.any_some, recordMatchesTableFilters, Bool.or_eq_true, decide_eq_true_eq]
      tauto
    · next hneither =>
      have hpre : ∀ subscription, eventHasIndexPrefix lib subscriber.schema event subscription = false := by
        intro subscription
        rw [eventHasIndexPrefix]
        cases hevent : eventRecordForIndexPrefix event with
        | none => rfl
        | some found =>
          obtain ⟨htable, key, hkey⟩ := table_of_eventRecord hevent
          exact absurd hkey (hneither _ key htable)
      cases htable : event.table with
      | none => simp [hpre]
      | some table =>
        cases hkey : event.recordKey with
        | none => simp [hpre]
        | some key => exact absurd hkey (hneither table key htable)
  have huser : sessionId ∈ (event.userId.elim ∅ fun userId => inner.userCandidates event userId) ↔
      (subscriber.userEvents && event.userId.any fun userId => decide (subscriber.userId = some userId) &&
        event.targetSessionIds.all fun targetSessionIds => decide (sessionId ∈ targetSessionIds)) = true := by
    cases event.userId with
    | none => simp
    | some userId => simp only [Option.elim_some, mem_userCandidates hlisted, Option.any_some, Bool.and_eq_true,
        decide_eq_true_eq, and_assoc]
  rw [candidateSessionIds, Std.ExtTreeSet.mem_union_iff, Std.ExtTreeSet.mem_union_iff, Std.ExtTreeSet.mem_union_iff]
  refine (or_congr (or_congr (or_congr hobject hroom) hrecord) huser).trans ?_
  simp only [Subscriber.routed, Subscriber.takes, Bool.or_eq_true, or_assoc]

end Lookups

/-- The lookups of an event find the sessions that the fanout's tests pick. -/
theorem mem_candidateSessionIds {inner : RealtimeFanoutInner Sender}
    {subscribers : Subscribers Sender} (h : Tracks lib scopeLib subscribers inner) :
    sessionId ∈ inner.candidateSessionIds lib scopeLib event ↔
    ∃ subscriber, subscribers[sessionId]? = some subscriber ∧
    subscriber.routed lib sessionId event = true := by
  cases hfound : subscribers[sessionId]? with
  | some subscriber =>
    have hlisted : ∀ route, inner.Listed route sessionId ↔ (subscriber.session lib).Subscribes scopeLib route := by
      intro route
      rw [h.listed, h.sessions, hfound]
      simp
    rw [mem_candidates_of_subscriber h.ok hlisted]
    simp
  | none =>
    have hlisted : ∀ route, inner.Listed route sessionId ↔
        (Subscriber.session lib ⟨none, (), [], [], [], [], none, [], false, false⟩).Subscribes scopeLib route := by
      intro route
      rw [h.listed, h.sessions, hfound]
      cases route <;> simp [Subscribes, Subscriber.session]
    rw [mem_candidates_of_subscriber h.ok hlisted]
    simp [Subscriber.routed, Subscriber.takes, recordMatchesTableFilters, nestedTableMatches]

end RealtimeFanoutInner

/-! ## Batches -/

namespace RealtimeFanoutInner

/-- The batch with these events and their places, if there is one. -/
def batchOf (indexed : List (DeliveryEvent × Nat)) : Option (List DeliveryEvent × List Nat) :=
  if indexed.isEmpty then none else some (indexed.map Prod.fst, indexed.map Prod.snd)

theorem getElem?_pushAll {eventIndex : Nat} {sessionIds : List String} (hnodup : sessionIds.Nodup)
    (batches : Batches) (sessionId : String) :
    (sessionIds.foldl (pushEvent event eventIndex) batches)[sessionId]? =
    if sessionId ∈ sessionIds then some ((batches.getD sessionId ([], [])).1 ++ [event],
    (batches.getD sessionId ([], [])).2 ++ [eventIndex]) else batches[sessionId]? := by
  induction sessionIds generalizing batches with
  | nil => simp
  | cons first sessionIds ih =>
    obtain ⟨hfirst, hnodup⟩ := nodup_cons.mp hnodup
    rw [foldl_cons, ih hnodup]
    simp only [pushEvent, Multimap.insertEntry, Std.ExtTreeMap.getElem?_insert, Std.ExtTreeMap.getD_insert,
      compare_eq_iff_eq, mem_cons]
    by_cases hsame : first = sessionId
    · subst hsame
      simp [hfirst]
    · simp [hsame, Ne.symm hsame]

/-- A session's batch are the events that it is a candidate of. -/
theorem getElem?_batches {candidates : DeliveryEvent → SessionIds}
    (indexed : List (DeliveryEvent × Nat)) (sessionId : String) :
    (indexed.foldl (fun batches indexed => (candidates indexed.1).toList.foldl (pushEvent indexed.1 indexed.2) batches)
    (∅ : Batches))[sessionId]? =
    batchOf (indexed.filter fun indexed => sessionId ∈ candidates indexed.1) := by
  induction indexed using reverseRecOn with
  | nil => simp [batchOf]
  | append_singleton indexed last ih =>
    have hnodup : (candidates last.1).toList.Nodup :=
      Std.ExtTreeSet.distinct_toList.imp fun hne heq => hne (compare_eq_iff_eq.mpr heq)
    rw [foldl_append, foldl_cons, foldl_nil, getElem?_pushAll hnodup, filter_append]
    simp only [Std.ExtTreeSet.mem_toList, getD_eq_getD_getElem?, ih]
    by_cases hmem : sessionId ∈ candidates last.1
    · rw [if_pos hmem]
      by_cases hnone : (indexed.filter fun indexed => decide (sessionId ∈ candidates indexed.1)) = []
      · simp [hnone, hmem, batchOf]
      · simp [hnone, hmem, batchOf]
    · simp [hmem]

/-- The events at these places. -/
def eventsAt (events : List DeliveryEvent) (indices : List Nat) : List DeliveryEvent :=
  indices.filterMap fun index => events[index]?

theorem eventsAt_of_zipIdx {events : List DeliveryEvent} {indexed : List (DeliveryEvent × Nat)}
    (h : ∀ entry ∈ indexed, entry ∈ events.zipIdx) :
    eventsAt events (indexed.map Prod.snd) = indexed.map Prod.fst := by
  induction indexed with
  | nil => rfl
  | cons entry indexed ih =>
    obtain ⟨hentry, hindexed⟩ := forall_mem_cons.mp h
    have hfound : events[entry.2]? = some entry.1 := mem_zipIdx_iff_getElem?.mp hentry
    simpa [eventsAt, hfound] using ih hindexed

variable {inner : RealtimeFanoutInner Sender}
    {preencodeSharedEvents : List DeliveryEvent → Option Frame}

/-- A frame is made once for the places of the events, and is that of the events. -/
theorem deliver_foldl (events : List DeliveryEvent)
    (entries : List (String × List DeliveryEvent × List Nat))
    (hentries : ∀ entry ∈ entries, entry.2.1 = eventsAt events entry.2.2)
    (made : BTreeMap (List Nat) (Option Frame) × List (Sender × RoutedRealtimeEventBatch Frame))
    (hmade : ∀ (indices : List Nat) (frame : Option Frame),
    made.1[indices]? = some frame → frame = preencodeSharedEvents (eventsAt events indices)) :
    (entries.foldl (inner.deliver preencodeSharedEvents) made).2 =
    made.2 ++ entries.filterMap fun entry =>
    inner.sessions[entry.1]?.map fun session => (session.sender,
    ⟨entry.2.1, preencodeSharedEvents entry.2.1⟩) := by
  induction entries generalizing made with
  | nil => simp
  | cons entry entries ih =>
    obtain ⟨hentry, hentries⟩ := forall_mem_cons.mp hentries
    have hframe : (made.1[entry.2.2]?).getD (preencodeSharedEvents entry.2.1) = preencodeSharedEvents entry.2.1 := by
      cases hfound : made.1[entry.2.2]? with
      | none => rfl
      | some frame => rw [Option.getD_some, hmade entry.2.2 frame hfound, hentry]
    have hdeliver : inner.deliver preencodeSharedEvents made entry =
        (made.1.insert entry.2.2 (preencodeSharedEvents entry.2.1), made.2 ++ (inner.sessions[entry.1]?.map
          fun session => (session.sender, ⟨entry.2.1, preencodeSharedEvents entry.2.1⟩)).toList) := by
      rw [deliver]
      simp only [hframe]
      cases inner.sessions[entry.1]? <;> simp
    rw [foldl_cons, hdeliver, ih hentries]
    · rw [append_assoc]
      congr 1
      cases hsession : inner.sessions[entry.1]? <;> simp [hsession]
    · intro indices frame hfound
      rw [Std.ExtTreeMap.getElem?_insert] at hfound
      split at hfound
      · next hsame =>
        rw [← Std.LawfulEqCmp.eq_of_compare hsame, ← hentry]
        exact (Option.some.inj hfound).symm
      · exact hmade indices frame hfound

/-! ## Runs of calls -/

def run (lib : QueryLibrary) (scopeLib : ScopeLibraries) (calls : List (FanoutCall Sender)) :
    RealtimeFanoutInner Sender :=
  calls.foldl (RealtimeFanoutInner.apply lib scopeLib) .default

end RealtimeFanoutInner

def Subscribers.run (calls : List (FanoutCall Sender)) : Subscribers Sender :=
  calls.foldl Subscribers.apply ∅

namespace RealtimeFanoutInner

theorem run_spec (lib : QueryLibrary) (scopeLib : ScopeLibraries)
    (calls : List (FanoutCall Sender)) :
    Tracks lib scopeLib (Subscribers.run calls) (run lib scopeLib calls) := by
  induction calls using reverseRecOn with
  | nil => exact tracks_default
  | append_singleton calls call ih =>
    rw [run, Subscribers.run, foldl_append, foldl_append]
    exact ih.apply call

variable {inner : RealtimeFanoutInner Sender} {subscribers : Subscribers Sender}

/-- The batches are those of the subscribers that have an event. -/
theorem batchesForEvents_eq (h : Tracks lib scopeLib subscribers inner)
    (events : List DeliveryEvent) :
    inner.batchesForEvents lib scopeLib events = subscribers.filterMap fun sessionId subscriber =>
    batchOf (events.zipIdx.filter fun indexed => subscriber.routed lib sessionId indexed.1) := by
  refine ext_getElem? fun sessionId => ?_
  rw [batchesForEvents, getElem?_batches, getElem?_filterMap']
  cases hfound : subscribers[sessionId]? with
  | none =>
    have hnone : (events.zipIdx.filter fun indexed =>
        decide (sessionId ∈ inner.candidateSessionIds lib scopeLib indexed.1)) = [] := by
      rw [filter_eq_nil_iff]
      intro indexed _ hmem
      obtain ⟨subscriber, hsome, -⟩ := (mem_candidateSessionIds h).mp (of_decide_eq_true hmem)
      cases hfound.symm.trans hsome
    rw [hnone]
    rfl
  | some subscriber =>
    rw [Option.bind_some]
    congr 1
    refine filter_congr fun indexed _ => ?_
    rw [Bool.eq_iff_iff, decide_eq_true_eq, mem_candidateSessionIds h, hfound]
    simp

theorem map_fst_filter_zipIdx (events : List DeliveryEvent) (p : DeliveryEvent → Bool) :
    (events.zipIdx.filter fun indexed => p indexed.1).map Prod.fst = events.filter p := by
  rw [show (fun indexed : DeliveryEvent × Nat => p indexed.1) = p ∘ Prod.fst from rfl, ← filter_map, zipIdx_map_fst]

theorem deliveries_of_tracks (h : Tracks lib scopeLib subscribers inner)
    (preencodeSharedEvents : List DeliveryEvent →
    Option Frame) (events : List DeliveryEvent) :
    inner.deliveriesForEvents lib scopeLib preencodeSharedEvents events =
    subscribers.deliver (Subscriber.routed lib) preencodeSharedEvents events := by
  rw [deliveriesForEvents, batchesForEvents_eq h, toList_filterMap, deliver_foldl events _ ?_ _ (by simp), nil_append,
    filterMap_filterMap, Subscribers.deliver]
  · refine filterMap_congr fun entry hentry => ?_
    have hfound : subscribers[entry.1]? = some entry.2 := mem_toList_iff_getElem?_eq_some.mp hentry
    have hevents := map_fst_filter_zipIdx events (entry.2.routed lib entry.1)
    have hempty : (events.filter (entry.2.routed lib entry.1)).isEmpty =
        (events.zipIdx.filter fun indexed => entry.2.routed lib entry.1 indexed.1).isEmpty := by
      rw [← hevents, isEmpty_map]
    simp only [batchOf, hempty]
    split
    · rfl
    · simp only [Option.map_some, Option.bind_some, hevents]
      rw [h.sessions, hfound]
      rfl
  · intro entry hentry
    obtain ⟨⟨sessionId, subscriber⟩, -, hbatch⟩ := mem_filterMap.mp hentry
    simp only [batchOf] at hbatch
    split at hbatch
    · cases hbatch
    · cases hbatch
      exact (eventsAt_of_zipIdx fun entry hmem => (mem_filter.mp hmem).1).symm

theorem eq_default_of_tracks (h : Tracks lib scopeLib subscribers inner)
    (hnone : inner.sessions = ∅) : inner = .default := by
  have hlisted : ∀ route sessionId, ¬ inner.Listed route sessionId := by
    intro route sessionId hlisted
    obtain ⟨session, hfound, -⟩ := (h.listed route sessionId).mp hlisted
    rw [hnone] at hfound
    simp at hfound
  have hrooms : inner.rooms = ∅ := h.ok.rooms.eq_empty fun roomId => hlisted (.room roomId)
  have hfull : inner.fullTables = ∅ := h.ok.fullTables.eq_empty fun table => hlisted (.fullTable table)
  have hquery : inner.queryTables = ∅ := h.ok.queryTables.eq_empty fun table => hlisted (.queryTable table)
  have huser : inner.userEvents = ∅ := h.ok.userEvents.eq_empty fun userId => hlisted (.userEvents userId)
  have hobjects : inner.objects = ∅ := Std.ExtTreeSet.eq_empty_iff_forall_not_mem.mpr (hlisted .objects)
  have hprefixes : inner.indexPrefixTables = ∅ :=
    Multimap.eq_empty (fun index (listed : IndexPrefixFanoutSubscription × String) => index.Has listed.1 listed.2)
      (h.ok.indexPrefixTables.imp fun index hindex => IndexPrefixFanoutIndex.exists_has hindex) fun table listed =>
      hlisted (.indexPrefix table listed.1) listed.2
  have hnested : inner.nestedTables = ∅ :=
    Multimap.eq_empty (fun index (listed : Nat × String × String) => index.Has listed.1 listed.2.1 listed.2.2)
      (h.ok.nestedTables.imp fun index hindex => PrefixFanoutIndex.exists_has hindex) fun table listed =>
      hlisted (.nestedTable table listed.1 listed.2.1) listed.2.2
  have hranges : inner.rangeTables = ∅ := by
    refine eq_empty_iff_forall_not_mem.mpr fun table htable => ?_
    obtain ⟨index, hindex⟩ := Option.isSome_iff_exists.mp (mem_iff_isSome_getElem?.mp htable)
    have hempty := RangeFanoutIndex.isEmpty_of_not_has (h.ok.rangeTables table index hindex)
      fun place lower upper sessionId hhas => hlisted (.range table place lower upper) sessionId ⟨index, hindex, hhas⟩
    obtain ⟨sessionId, session, hfound, -⟩ := h.held table index hindex hempty
    rw [hnone] at hfound
    simp at hfound
  cases inner
  simp_all [RealtimeFanoutInner.default]

/-- On events whose records are indexed plainly the fanout's tests pick the sessions with a
subscription that matches. -/
theorem deliver_routed {events : List DeliveryEvent} (hplain : AllIndexedPlainly subscribers events)
    (preencodeSharedEvents : List DeliveryEvent → Option Frame) :
    subscribers.deliver (Subscriber.routed lib) preencodeSharedEvents events =
    subscribers.deliveries lib preencodeSharedEvents events := by
  refine filterMap_congr fun entry hentry => ?_
  have hfound : subscribers[entry.1]? = some entry.2 := mem_toList_iff_getElem?_eq_some.mp hentry
  have hsame : events.filter (entry.2.routed lib entry.1) = events.filter (entry.2.matches lib entry.1) := by
    refine filter_congr fun event hevent => ?_
    have hany : entry.2.tableRanges.any (eventHasIndexPrefix lib entry.2.schema event) =
        entry.2.tableRanges.any (eventMatchesIndexPrefix lib entry.2.schema event) := by
      rw [Bool.eq_iff_iff, any_eq_true, any_eq_true]
      refine exists_congr fun subscription => and_congr_right fun hmem => ?_
      rw [eventHasIndexPrefix_eq fun schema hschema record hrecord =>
        hplain entry.1 entry.2 hfound subscription hmem schema hschema event hevent record hrecord]
    rw [Subscriber.routed, Subscriber.matches, Subscriber.takes, Subscriber.takes, hany]
  dsimp only
  rw [hsame]

/-- Whatever calls came, every session gets the events that a subscription of it matches, in order,
if the records are indexed plainly, and the indexes are empty when there is no session. -/
theorem deliveriesForEvents_eq (lib : QueryLibrary) (scopeLib : ScopeLibraries)
    (preencodeSharedEvents : List DeliveryEvent → Option Frame) (calls : List (FanoutCall Sender)) :
    (∀ events, AllIndexedPlainly (Subscribers.run calls) events →
      (run lib scopeLib calls).deliveriesForEvents lib scopeLib preencodeSharedEvents events =
      (Subscribers.run calls).deliveries lib preencodeSharedEvents events) ∧
    (Subscribers.run calls = ∅ ↔ run lib scopeLib calls = .default) := by
  have htracks := run_spec lib scopeLib calls
  refine ⟨fun events hplain => ?_, fun hnone => ?_, fun hdefault => ?_⟩
  · rw [deliveries_of_tracks htracks, deliver_routed hplain]
  · refine eq_default_of_tracks htracks (ext_getElem? fun sessionId => ?_)
    rw [htracks.sessions, hnone]
    simp
  · refine ext_getElem? fun sessionId => ?_
    have hfound := htracks.sessions sessionId
    rw [hdefault] at hfound
    cases hsubscriber : (Subscribers.run calls)[sessionId]? with
    | none => simp
    | some subscriber => simp [hsubscriber, RealtimeFanoutInner.default] at hfound

end RealtimeFanoutInner

/-! ## Notes by owner and by part -/

section Sample

def notesFields : BTreeMap String FieldSchema :=
  ((∅ : BTreeMap String FieldSchema).insert "owner" ⟨.string, false⟩).insert "part.id" ⟨.string, false⟩

/-- The owner and the part of a note are indexed; the name of the field of the part has a dot. -/
def notesSchema : DatabaseSchema where
  name := "notes"
  version := 1
  objects := (∅ : BTreeMap String ObjectSchema).insert "Object" ⟨notesFields⟩
  tables := (∅ : BTreeMap String TableSchema).insert "notes" ⟨.resident, notesFields, ∅, ⟨[]⟩,
    ((∅ : BTreeMap String IndexSchema).insert "byOwner" ⟨["owner"], false⟩).insert "byPart" ⟨["part.id"], false⟩⟩
  events := ∅
  behaviors := ∅

def noteOf (key owner : String) : DbRecord where
  table := "notes"
  key
  value := ⟨.object [("owner", .string owner), ("part.id", .string "x")],
    pairwise_pair.mpr (show "owner" < "part.id" by decide), trivial, trivial, trivial⟩
  updatedAtMs := 0
  lsn := 1
  path := "notes/" ++ key

/-- A note of x is written, and one of y deleted. -/
def noteEvents : List DeliveryEvent :=
  [.recordUpserted "notes" "a" (noteOf "a" "x"), .recordDeleted "notes" "d" 1 2 "notes/d" (some (noteOf "d" "y"))]

/-- Texts are compared, and the values of `["x"]` are read. -/
def textsLibrary : QueryLibrary where
  valueEq a b := match a, b with
    | .string a, .string b => a == b
    | _, _ => false
  compareNumbers _ _ := none
  parseValue _ := none
  parseValues text := if text = "[\"x\"]" then .ok [.string "x"] else .error "invalid"
  indexQueryText _ := ""
  predicateText _ := ""
  resultId _ := ""

def textScopes : ScopeLibraries := ⟨String.length, fun _ => 0⟩

def indexedNotes (indexName : String) : TableSubscription :=
  ⟨"notes", none, none, some indexName, some "[\"x\"]"⟩

/-- The session `s` is subscribed to an index prefix, and `t` to the keys from c on. -/
def noteCalls (indexName : String) : List (FanoutCall String) :=
  [.register "s" none "s", .updateRecordSubscriptions "s" [] [] [indexedNotes indexName] [] notesSchema,
    .register "t" none "t", .updateRecordSubscriptions "t" [] [] [⟨"notes", some "c", none, none, none⟩] [] notesSchema]

theorem noteCalls_subscribers (indexName : String) :
    (Subscribers.run (noteCalls indexName)).toList =
    [("s", ⟨none, "s", [], [], [indexedNotes indexName], [], some notesSchema, [], false, false⟩),
      ("t", ⟨none, "t", [], [], [⟨"notes", some "c", none, none, none⟩], [], some notesSchema, [],
      false, false⟩)] :=
  rfl

theorem allIndexedPlainly_notes :
    AllIndexedPlainly (Subscribers.run (noteCalls "byOwner")) noteEvents := by
  intro sessionId subscriber hfound subscription hsubscription schema hschema event hevent record hrecord indexName
    hname index hindex
  have hmem := mem_toList_iff_getElem?_eq_some.mpr hfound
  rw [noteCalls_subscribers] at hmem
  simp only [mem_cons, Prod.mk.injEq, not_mem_nil, or_false] at hmem
  rcases hmem with ⟨-, rfl⟩ | ⟨-, rfl⟩
  · obtain rfl := mem_singleton.mp hsubscription
    obtain rfl := Option.some.inj hschema
    obtain rfl := Option.some.inj hname
    obtain rfl : (⟨["owner"], false⟩ : IndexSchema) = index := Option.some.inj hindex
    simp only [noteEvents, mem_cons, not_mem_nil, or_false] at hevent
    rcases hevent with rfl | rfl
    · obtain rfl : noteOf "a" "x" = record := (Prod.mk.inj (Option.some.inj hrecord)).2
      exact ⟨by decide, rfl⟩
    · obtain rfl : noteOf "d" "y" = record := (Prod.mk.inj (Option.some.inj hrecord)).2
      exact ⟨by decide, rfl⟩
  · obtain rfl := mem_singleton.mp hsubscription
    cases hname

/-- The session of the index prefix gets the note of x, and that of the range the deletion of the
other. -/
theorem deliveriesForEvents_notes :
    (RealtimeFanoutInner.run textsLibrary textScopes (noteCalls "byOwner")).deliveriesForEvents textsLibrary textScopes
      (fun _ => (none : Option Unit)) noteEvents =
    [("s", ⟨noteEvents.take 1, none⟩), ("t", ⟨noteEvents.drop 1, none⟩)] :=
  (RealtimeFanoutInner.deliveriesForEvents_eq textsLibrary textScopes _ (noteCalls "byOwner")).1 noteEvents
    allIndexedPlainly_notes

/-- The part of the note is at a name with a dot, where the subscription finds it and the fanout
does not. -/
theorem dotted_field_missed : notesSchema.validationReport.ok = true ∧
    notesSchema.validateTableRecord "notes" (noteOf "a" "x").value.json = .ok () ∧
    (RealtimeFanoutInner.run textsLibrary textScopes (noteCalls "byPart")).deliveriesForEvents textsLibrary textScopes
      (fun _ => (none : Option Unit)) (noteEvents.take 1) = [] ∧
    (Subscribers.run (noteCalls "byPart")).deliveries textsLibrary (fun _ => (none : Option Unit)) (noteEvents.take 1) =
    [("s", ⟨noteEvents.take 1, none⟩)] := by
  refine ⟨by decide +kernel, rfl, ?_, rfl⟩
  rw [RealtimeFanoutInner.deliveries_of_tracks (RealtimeFanoutInner.run_spec _ _ _)]
  rfl

end Sample

end NextDb.Api.RealtimeFanout
