import NextDb.Api.LiveQuery
import NextDb.Api.Sync

/-!
# Read visibility

The schema says of a table, or of a nested table, which of its rows a user may read. Events, pages
of the log and snapshots of tables are filtered by the policy of the table that they name.

* `allows_of_visible`: the policy that a name is looked up with is that of every table with that
  name, if the tables with a dot in their name are public.
* `shouldDeliverEvent_rows`, `filterVisibleCatchUpEvents_rows`, `filterVisibleTableSnapshot_rows`:
  what is left of events, pages and snapshots.
-/

namespace NextDb

def ReadVisibilityPolicy.isPublic (policy : ReadVisibilityPolicy) : Bool := policy.all.isEmpty

def ReadVisibilityRule.allows (value : Value) (userId : String) : ReadVisibilityRule → Bool
  | .fieldEqualsUserId field =>
    match Api.RecordMatch.jsonGet value.json field with
    | some (.string text) => text == userId
    | _ => false

def ReadVisibilityPolicy.allowsValueForUser (policy : ReadVisibilityPolicy) (value : Value)
    (userId : Option String) : Bool :=
  if policy.isPublic then true
  else
    match userId with
    | none => false
    | some userId => policy.all.all (ReadVisibilityRule.allows value userId)

end NextDb

namespace NextDb.Api.Visibility

open Records (splitOnce TablePath)
open ObjectRefIndex (splitOnce_of_notMem splitOnce_nestedRecordTable)
open Frames RecordMatch LiveQuery

def recordReadVisibilityPolicy (schema : DatabaseSchema) (table : String) :
    Option ReadVisibilityPolicy :=
  match splitOnce table '.' with
  | some (parent, nested) => (schema.nestedTable parent nested).map NestedTableSchema.readVisibility
  | none => schema.tables[table]?.map TableSchema.readVisibility

def recordVisibleToUser (record : DbRecord) (policy : Option ReadVisibilityPolicy)
    (userId : Option String) : Bool :=
  policy.all fun policy => policy.allowsValueForUser record.value userId

def recordEventVisibleToUser (event : DeliveryEvent) (schema : DatabaseSchema)
    (userId : Option String) : Bool :=
  match event with
  | .recordUpserted table _ record => recordVisibleToUser record (recordReadVisibilityPolicy schema table) userId
  | .recordDeleted table _ _ _ _ previousRecord =>
    match recordReadVisibilityPolicy schema table with
    | none => true
    | some policy =>
      policy.isPublic || previousRecord.any fun record => recordVisibleToUser record (some policy) userId
  | _ => true

def filterVisibleCatchUpEvents (events : List DeliveryEvent) (schema : DatabaseSchema)
    (userId : Option String) :
    List DeliveryEvent :=
  events.filter fun event => recordEventVisibleToUser event schema userId

def filterVisibleTableSnapshot (response : ListRecordsResponse) (schema : DatabaseSchema)
    (userId : Option String) :
    ListRecordsResponse :=
  let policy := recordReadVisibilityPolicy schema response.table
  { response with records := response.records.filter fun record => recordVisibleToUser record policy userId }

def eventMatchesTableSubscription (lib : QueryLibrary) (event : DeliveryEvent)
    (schema : DatabaseSchema) (subscription : TableSubscription) : Bool :=
  match event with
  | .recordUpserted table key record =>
    recordMatchesTableSubscription lib table key (some record) schema subscription
  | .recordDeleted table key _ _ _ previousRecord =>
    recordMatchesTableSubscription lib table key previousRecord schema subscription
  | _ => false

/-- A table, a range or a nested table that the event is in. -/
def subscribedRecordEvent (lib : QueryLibrary) (event : DeliveryEvent) (schema : DatabaseSchema)
    (connection : RealtimeConnectionState) : Bool :=
  (event.table.any fun table => connection.subscribedTables.contains table) ||
    (event.table.any fun table => event.recordKey.any fun key =>
      connection.recordSubscriptionRouter.matches table key) ||
    connection.subscribedTableRanges.any (eventMatchesTableSubscription lib event schema)

def shouldDeliverEvent (lib : QueryLibrary) (event : DeliveryEvent) (schema : DatabaseSchema)
    (connection : RealtimeConnectionState) (userId : Option String) (sessionId : String) : Bool :=
  if connection.subscribedObjects && event.isObjectEvent then true
  else if event.roomId.any fun roomId => connection.subscribedRooms.contains roomId then true
  else if recordEventVisibleToUser event schema userId && subscribedRecordEvent lib event schema connection then
      true
  else
    match event.userId with
    | none => false
    | some targetUserId =>
      connection.subscribedUserEvents && some targetUserId == userId &&
        event.targetSessionIds.all fun targetSessionIds => targetSessionIds.contains sessionId

/-! ## What the schema says of a table -/

def tablePolicy (schema : DatabaseSchema) : TablePath → Option ReadVisibilityPolicy
  | .table name => schema.tables[name]?.map TableSchema.readVisibility
  | .nested parent name => (schema.nestedTable parent name).map NestedTableSchema.readVisibility

/-- The user may read a row, by the policy of every table with this name. -/
def Allows (schema : DatabaseSchema) (userId : Option String) (row : String × DbRecord) : Prop :=
  ∀ (path : TablePath) (policy : ReadVisibilityPolicy), path.logicalName = row.1 →
    tablePolicy schema path = some policy → policy.allowsValueForUser row.2.value userId = true

/-- The top-level table that a path is of. -/
def rootTable : TablePath → String
  | .table name => name
  | .nested parent _ => parent

/-- Where the name of a top-level table has a dot, everybody may read it and its nested tables. -/
def DottedPublic (schema : DatabaseSchema) : Prop :=
  ∀ (path : TablePath) (policy : ReadVisibilityPolicy), '.' ∈ (rootTable path).toList →
    tablePolicy schema path = some policy → policy.isPublic = true

theorem allowsValueForUser_of_isPublic {policy : ReadVisibilityPolicy} (h : policy.isPublic = true)
    (value : Value) (userId : Option String) : policy.allowsValueForUser value userId = true := by
  simp only [ReadVisibilityPolicy.allowsValueForUser, h, if_true]

theorem recordReadVisibilityPolicy_path {schema : DatabaseSchema}
    {path : TablePath} (h : '.' ∉ (rootTable path).toList) :
    recordReadVisibilityPolicy schema path.logicalName = tablePolicy schema path := by
  cases path with
  | table name =>
    have hsplit : splitOnce (TablePath.table name).logicalName '.' = none := splitOnce_of_notMem h
    rw [recordReadVisibilityPolicy, hsplit]
    rfl
  | nested parent name =>
    have hsplit : splitOnce (TablePath.nested parent name).logicalName '.' = some (parent, name) :=
      splitOnce_nestedRecordTable h name
    rw [recordReadVisibilityPolicy, hsplit]
    rfl

variable {schema : DatabaseSchema} {userId : Option String}

theorem allows_of_visible (hdotted : DottedPublic schema) {table : String}
    {record : DbRecord} (h : recordVisibleToUser record (recordReadVisibilityPolicy schema table) userId = true) :
    Allows schema userId (table, record) := by
  intro path policy hname hpolicy
  by_cases hdot : '.' ∈ (rootTable path).toList
  · exact allowsValueForUser_of_isPublic (hdotted path policy hdot hpolicy) record.value userId
  · have hfound : recordReadVisibilityPolicy schema table = some policy := by
      have hpath : recordReadVisibilityPolicy schema path.logicalName = tablePolicy schema path :=
        recordReadVisibilityPolicy_path hdot
      rw [hname] at hpath
      exact hpath.trans hpolicy
    rw [hfound] at h
    exact h

variable {row : String × DbRecord} {event : DeliveryEvent}

theorem rows_of_event_visible (hdotted : DottedPublic schema)
    (h : recordEventVisibleToUser event schema userId = true)
    (hrow : row ∈ event.rows) : Allows schema userId row := by
  cases event with
  | recordUpserted table key record =>
    obtain rfl := List.mem_singleton.mp hrow
    exact allows_of_visible hdotted h
  | recordDeleted table key deletedAtMs lsn path previousRecord =>
    obtain ⟨record, hrecord, rfl⟩ := List.mem_map.mp hrow
    refine allows_of_visible hdotted ?_
    simp only [recordEventVisibleToUser] at h
    split at h
    · next hnone =>
      rw [hnone]
      rfl
    · next policy hpolicy =>
      rw [hpolicy]
      rcases Bool.or_eq_true_iff.mp h with hpublic | hprevious
      · exact allowsValueForUser_of_isPublic hpublic record.value userId
      · rwa [Option.mem_toList.mp hrecord] at hprevious
  | _ => cases hrow

/-- An event that is delivered for another reason has no rows. -/
theorem shouldDeliverEvent_rows (hdotted : DottedPublic schema)
    {lib : QueryLibrary} {connection : RealtimeConnectionState} {sessionId : String}
    (h : shouldDeliverEvent lib event schema connection userId sessionId = true)
    (hrow : row ∈ event.rows) :
    Allows schema userId row := by
  refine rows_of_event_visible hdotted ?_ hrow
  by_contra hhidden
  have hhidden := Bool.eq_false_of_not_eq_true hhidden
  cases event with
  | recordUpserted | recordDeleted =>
    simp [shouldDeliverEvent, hhidden, DeliveryEvent.isObjectEvent, DeliveryEvent.roomId, DeliveryEvent.userId] at h
  | _ => cases hrow

theorem filterVisibleCatchUpEvents_rows (hdotted : DottedPublic schema)
    {events : List DeliveryEvent}
    (h : event ∈ filterVisibleCatchUpEvents events schema userId) (hrow : row ∈ event.rows) :
    Allows schema userId row :=
  rows_of_event_visible hdotted (List.mem_filter.mp h).2 hrow

theorem filterVisibleTableSnapshot_rows (hdotted : DottedPublic schema)
    {response : ListRecordsResponse}
    (hrow : row ∈ (filterVisibleTableSnapshot response schema userId).rows) :
    Allows schema userId row := by
  obtain ⟨record, hrecord, rfl⟩ := List.mem_map.mp hrow
  exact allows_of_visible hdotted (List.mem_filter.mp hrecord).2

end NextDb.Api.Visibility
