import NextDb.Api.RecordMatch

/-!
# Pages of the log for a client

A client that was away is sent what it missed: the records of the log after an LSN that its filters
let through, as events, up to a limit. A transaction is sent whole.
-/

namespace NextDb.Api.Sync

open Frames RecordMatch

/-- What a page is about. Where nothing is asked for, it is about everything. -/
structure SyncFilters where
  rooms : List String
  users : List String
  tables : List String
  tableRanges : List TableSubscription
  nestedTables : List NestedTableSubscription
  schema : Option DatabaseSchema
  includeObjects : Bool

structure SyncEventPage where
  events : List DeliveryEvent
  nextAfterLsn : Nat
  hasMore : Bool

def SyncFilters.scoped (filters : SyncFilters) : Bool :=
  !filters.rooms.isEmpty || !filters.users.isEmpty || !filters.tables.isEmpty || !filters.tableRanges.isEmpty ||
    !filters.nestedTables.isEmpty || filters.includeObjects

section

variable (lib : QueryLibrary) (filters : SyncFilters)

def mutationEvents (lsn : Nat) : DbRecordMutationDraft → List DeliveryEvent
  | .upsert draft =>
    let record := draft.intoRecord lsn
    if filters.scoped && !recordMatchesTableFiltersWithRecord lib draft.table draft.key record filters.tables
        filters.tableRanges filters.nestedTables filters.schema then []
    else [.recordUpserted draft.table draft.key record]
  | .delete draft =>
    if filters.scoped && !recordMatchesTableFilters draft.table draft.key filters.tables filters.tableRanges
        filters.nestedTables then []
    else [.recordDeleted draft.table draft.key draft.deletedAtMs lsn draft.path none]

/-- The events of a record that the filters let through. -/
def recordEvents (record : WalRecord) : List DeliveryEvent :=
  match record.payload with
  | .messageCreated message =>
    if filters.scoped && message.roomId ∉ filters.rooms then []
    else [.messageCreated message.roomId (message.intoMessage record.lsn)]
  | .userEventPublished draft =>
    if filters.scoped && draft.userId ∉ filters.users then []
    else [.userEvent draft.userId (draft.intoEvent record.lsn)]
  | .userUpserted draft =>
    if filters.scoped && draft.userId ∉ filters.users then []
    else [.userUpserted draft.userId (draft.intoProfile record.lsn)]
  | .recordUpserted draft => mutationEvents lib filters record.lsn (.upsert draft)
  | .recordDeleted draft => mutationEvents lib filters record.lsn (.delete draft)
  | .recordTransactionCommitted operations _ => operations.flatMap (mutationEvents lib filters record.lsn)
  | .objectCommitted object _ =>
    if filters.scoped && !filters.includeObjects then [] else [.objectCommitted object record.lsn]
  | .objectDeleted objectId deletedAtMs path force _ =>
    if filters.scoped && !filters.includeObjects then []
    else [.objectDeleted objectId deletedAtMs record.lsn path force]
  | _ => []

/-- Whether a page has no room for more events. The first transaction always fits. -/
def pageFull (limit : Nat) (events more : List DeliveryEvent) : WalPayload → Bool
  | .recordTransactionCommitted _ _ => !events.isEmpty && decide (limit < events.length + more.length)
  | _ => decide (limit ≤ events.length)

def syncEventsFrom (afterLsn limit : Nat) : List WalRecord → SyncEventPage → SyncEventPage
  | [], page => page
  | record :: records, page =>
    let more := recordEvents lib filters record
    if record.lsn ≤ afterLsn ∨ more.isEmpty then syncEventsFrom afterLsn limit records page
    else if pageFull limit page.events more record.payload then { page with hasMore := true }
    else
      syncEventsFrom afterLsn limit records
        { page with events := page.events ++ more, nextAfterLsn := record.lsn }

def syncEventsFromWalRecords (records : List WalRecord) (afterLsn limit : Nat) : SyncEventPage :=
  syncEventsFrom lib filters afterLsn limit records ⟨[], afterLsn, false⟩

end

end NextDb.Api.Sync
