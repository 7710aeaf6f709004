import Mathlib.Data.Prod.Lex
import NextDb.Actor.Kernel
import NextDb.Api.ApplySchema
import NextDb.Api.Replicate
import NextDb.Lib.LastWord
import NextDb.Records.HotCache

/-!
# What a replica makes of a record

A replica applies the records of a batch one after the other once it has appended them. The record
projection is written by one task that takes the records' changes from a queue.

* `events_converge`: the events of a user do not depend on the order in which their records are
  applied.
-/

namespace NextDb.Api.Converge

open Wal Records ApplySchema

/-! ## The projections -/

/-- The profiles and the events of users. -/
structure UserProjectionState where
  profiles : BTreeMap String UserProfile
  events : BTreeMap String (List UserEvent)

/-- Events in the order of their LSNs, then of their times and ids. -/
def publishedBefore (left right : UserEvent) : Prop :=
  left.lsn < right.lsn ∨ left.lsn = right.lsn ∧
    (left.createdAtMs < right.createdAtMs ∨ left.createdAtMs = right.createdAtMs ∧ ¬ right.id < left.id)

instance : DecidableRel publishedBefore := fun left right =>
  inferInstanceAs (Decidable (left.lsn < right.lsn ∨ left.lsn = right.lsn ∧
    (left.createdAtMs < right.createdAtMs ∨ left.createdAtMs = right.createdAtMs ∧ ¬ right.id < left.id)))

def UserProjectionState.applyWalRecord (self : UserProjectionState) (record : WalRecord) :
    UserProjectionState :=
  match record.payload with
  | .userUpserted user =>
    let profile := user.intoProfile record.lsn
    { self with profiles := self.profiles.insert profile.userId profile }
  | .userEventPublished event =>
    let event := event.intoEvent record.lsn
    let events := self.events.getD event.userId []
    let events := if events.any (·.lsn == event.lsn) then events
      else (events ++ [event]).insertionSort publishedBefore
    { self with events := self.events.insert event.userId events }
  | _ => self

structure ActorReminderEntry where
  actorId : Actor.ActorId
  reminderId : String
  dueAtMs : Nat
  payload : Option Value

def actorKindFromWalStr : String → Option Actor.ActorKind
  | "room" => some .room
  | "scope" => some .scope
  | "table" => some .table
  | "view" => some .view
  | "aggregate" => some .aggregate
  | _ => none

def actorIdFromWalParts (actorKind actorKey : String) : Option Actor.ActorId := do
  let kind ← actorKindFromWalStr (trim actorKind)
  if trim actorKey = "" then none else some ⟨kind, trim actorKey⟩

def actorReminderEntryFromDraft (draft : ActorReminderDraft) : Option ActorReminderEntry :=
  (actorIdFromWalParts draft.actorKind draft.actorKey).map fun actorId =>
    ⟨actorId, draft.reminderId, draft.dueAtMs, draft.payload⟩

/-- The order of `ActorReminderKey`. -/
def dueBefore (left right : ActorReminderEntry) : Prop :=
  left.dueAtMs < right.dueAtMs ∨ left.dueAtMs = right.dueAtMs ∧
    (left.actorId.kind.asStr < right.actorId.kind.asStr ∨ left.actorId.kind.asStr = right.actorId.kind.asStr ∧
      (left.actorId.key < right.actorId.key ∨ left.actorId.key = right.actorId.key ∧
        ¬ right.reminderId < left.reminderId))

instance : DecidableRel dueBefore := fun left right =>
  inferInstanceAs (Decidable (left.dueAtMs < right.dueAtMs ∨ left.dueAtMs = right.dueAtMs ∧
    (left.actorId.kind.asStr < right.actorId.kind.asStr ∨ left.actorId.kind.asStr = right.actorId.kind.asStr ∧
      (left.actorId.key < right.actorId.key ∨ left.actorId.key = right.actorId.key ∧
        ¬ right.reminderId < left.reminderId))))

/-- The entries in the order of their keys. -/
abbrev ActorReminderWheel := List ActorReminderEntry

def ActorReminderWheel.remove (self : ActorReminderWheel) (actorId : Actor.ActorId)
    (reminderId : String) :
    ActorReminderWheel :=
  self.eraseP fun entry => entry.actorId == actorId && entry.reminderId == reminderId

def ActorReminderWheel.upsert (self : ActorReminderWheel) (entry : ActorReminderEntry) :
    ActorReminderWheel :=
  List.orderedInsert dueBefore entry (ActorReminderWheel.remove self entry.actorId entry.reminderId)

inductive RecordProjectionMutation where
  | upsert (record : DbRecord) (indexes : BTreeMap String IndexSchema) (order : Option (List RecordOrderTerm))
  | delete (table key : String)

inductive RecordProjectionJob where
  | upsert (lsn : Nat) (record : DbRecord) (indexes : BTreeMap String IndexSchema)
      (order : Option (List RecordOrderTerm))
  | delete (lsn : Nat) (table key : String)
  | transaction (lsn : Nat) (mutations : List RecordProjectionMutation)

def RecordProjectionJob.lsn : RecordProjectionJob → Nat
  | .upsert lsn .. | .delete lsn .. | .transaction lsn _ => lsn

def RecordProjectionJob.mutations : RecordProjectionJob → List RecordProjectionMutation
  | .upsert _ record indexes order => [.upsert record indexes order]
  | .delete _ table key => [.delete table key]
  | .transaction _ mutations => mutations

/-- The store of the record projection, that is written in place. -/
structure RecordStore (P : Type) extends ProjectionStore P where
  /-- What an upsert that fails leaves. -/
  failedUpsert : P → DbRecord → BTreeMap String IndexSchema → Option (List RecordOrderTerm) → P
  delete : P → String → String → P

variable {P : Type} (store : RecordStore P)

/-- The changes of a job in order, up to one that fails. -/
def applyTransaction (projection : P) : List RecordProjectionMutation → P × Bool
  | [] => (projection, true)
  | .upsert record indexes order :: mutations =>
    match store.upsertWithIndexesAndOrder projection record indexes order with
    | .ok projection => applyTransaction projection mutations
    | .error _ => (store.failedUpsert projection record indexes order, false)
  | .delete table key :: mutations => applyTransaction (store.delete projection table key) mutations

def clearDeleted (lsn : Nat) (recordHot : RecordHotState) :
    RecordProjectionMutation → RecordHotState
  | .upsert .. => recordHot
  | .delete table key => recordHot.clearDurableDeleteTombstone table key lsn

/-- A statement of `apply_replicated_wal_record` that changes a projection. -/
inductive Effect (P : Type) where
  | applyUser (record : WalRecord)
  | hotUpsert (record : DbRecord)
  | hotDelete (table key : String) (lsn : Nat)
  | hotUpsertMany (records : List DbRecord)
  | enqueue (job : RecordProjectionJob)
  | scheduleReminder (entry : ActorReminderEntry)
  | cancelReminder (actorId : Actor.ActorId) (reminderId : String)
  | commitRebuild (projection : P)
  | reconfigureHot (schema : DatabaseSchema) (records : List DbRecord)
  | applySchema (schema : DatabaseSchema)

/-! ## Applying a record -/

def recordIndexes (schema : DatabaseSchema) (tableName : String) :
    Result (BTreeMap String IndexSchema) :=
  match schema.tables[tableName]? with
  | some table => .ok table.indexes
  | none =>
    match (splitOnce tableName '.').bind fun (parentTable, nestedTable) =>
      schema.nestedTable parentTable nestedTable with
    | some nested => .ok nested.indexes
    | none => bail s!"schema missing table {tableName}"

def recordOrderForLogicalTable (schema : DatabaseSchema) (logicalTable : String) :
    Except ApiError (Option (List RecordOrderTerm)) :=
  match (splitOnce logicalTable '.').bind fun (tableName, nestedName) => schema.nestedTable tableName nestedName with
  | some nested =>
    match nested.storage with
    | .chatLog _ order _ => (badRequest (parseRecordOrderTerms order)).map some
    | _ => .ok none
  | none => .ok none

/-- A record that is upserted, with the indexes and the order of its table. -/
def preparedUpsert (schema : DatabaseSchema) (lsn : Nat) (draft : DbRecordDraft) :
    Except ApiError (DbRecord × BTreeMap String IndexSchema × Option (List RecordOrderTerm)) := do
  let indexes ← badRequest (recordIndexes schema draft.table)
  let order ← recordOrderForLogicalTable schema draft.table
  return (draft.intoRecord lsn, indexes, order)

def upsertDrafts (operations : List DbRecordMutationDraft) : List DbRecordDraft :=
  operations.filterMap fun operation => match operation with | .upsert record => some record | .delete _ => none

def deleteDrafts (operations : List DbRecordMutationDraft) : List DbRecordDeleteDraft :=
  operations.filterMap fun operation => match operation with | .upsert _ => none | .delete record => some record

/-- The deletes of a transaction come before its upserts. -/
def applyRecordTransactionOperations (schema : DatabaseSchema)
    (operations : List DbRecordMutationDraft) (lsn : Nat) : Except ApiError (List (Effect P)) := do
  let upserts ← (upsertDrafts operations).mapM (preparedUpsert schema lsn)
  let deletes := deleteDrafts operations
  return deletes.map (fun delete => .hotDelete delete.table delete.key lsn) ++ [.hotUpsertMany (upserts.map (·.1)),
      .enqueue (.transaction lsn (deletes.map (fun delete => .delete delete.table delete.key) ++
        upserts.map fun (record, indexes, order) => .upsert record indexes order))]

/-! ## The events of a user -/

open List

/-- The last events before an LSN, the last one first. -/
def UserProjectionState.listEvents (self : UserProjectionState) (userId : String)
    (beforeLsn : Option Nat) (limit : Nat) : List UserEvent :=
  ((self.events.getD userId []).reverse.filter fun event => beforeLsn.all (event.lsn < ·)).take limit

theorem publishedBefore_iff {left right : UserEvent} : publishedBefore left right ↔
    toLex (left.lsn, toLex (left.createdAtMs, left.id)) ≤
    toLex (right.lsn, toLex (right.createdAtMs, right.id)) := by
  simp only [publishedBefore, Prod.Lex.toLex_le_toLex, not_lt]

theorem publishedBefore_total (left right : UserEvent) :
    publishedBefore left right ∨ publishedBefore right left := by
  simp only [publishedBefore_iff]
  exact le_total ..

theorem publishedBefore_trans {left middle right : UserEvent} (h : publishedBefore left middle)
    (h' : publishedBefore middle right) : publishedBefore left right := by
  rw [publishedBefore_iff] at *
  exact h.trans h'

/-- The event of the user that a record publishes. -/
def eventOf (userId : String) (record : WalRecord) : Option UserEvent :=
  match record.payload with
  | .userEventPublished event => if event.userId = userId then some (event.intoEvent record.lsn) else none
  | _ => none

variable {self : UserProjectionState} {userId : String} {log applied : List WalRecord}
    {record : WalRecord}
  {events : List UserEvent} {event : UserEvent}

theorem events_applyWalRecord : (self.applyWalRecord record).events.getD userId [] =
    (eventOf userId record).elim (self.events.getD userId []) fun event =>
      if (self.events.getD userId []).any (·.lsn == event.lsn) then self.events.getD userId []
      else (self.events.getD userId [] ++ [event]).insertionSort publishedBefore := by
  unfold UserProjectionState.applyWalRecord eventOf
  cases record.payload with
  | userEventPublished draft =>
    by_cases huser : draft.userId = userId
    · subst huser
      simp [UserEventDraft.intoEvent]
    · simp [UserEventDraft.intoEvent, Std.ExtTreeMap.getD_insert, huser]
  | _ => rfl

/-- The events are those of the user that the records publish, in the order of their LSNs. -/
structure Feeds (userId : String) (applied : List WalRecord) (events : List UserEvent) : Prop where
  ascending : events.Pairwise fun left right => left.lsn < right.lsn
  mem_iff : ∀ event, event ∈ events ↔ event ∈ applied.filterMap (eventOf userId)

theorem Feeds.publish (h : Feeds userId applied events)
    (hevent : eventOf userId record = some event) (hnew : ∀ other ∈ events, other.lsn ≠ event.lsn) :
    Feeds userId (applied ++ [record]) ((events ++ [event]).insertionSort publishedBefore) := by
  have hperm := perm_insertionSort publishedBefore (events ++ [event])
  have happend : (events ++ [event]).Pairwise (·.lsn ≠ ·.lsn) :=
    pairwise_append.mpr ⟨h.ascending.imp Nat.ne_of_lt, pairwise_singleton .., by simpa using hnew⟩
  have hsorted : ((events ++ [event]).insertionSort publishedBefore).Pairwise publishedBefore :=
    @pairwise_insertionSort _ publishedBefore _ ⟨publishedBefore_total⟩ ⟨fun _ _ _ => publishedBefore_trans⟩ _
  constructor
  · refine (hsorted.and (hperm.symm.pairwise happend Ne.symm)).imp fun ⟨hbefore, hne⟩ => ?_
    exact (hbefore.imp_right And.left).resolve_right hne
  · intro other
    rw [hperm.mem_iff, filterMap_append, mem_append, mem_append, h.mem_iff, filterMap_cons_some hevent, filterMap_nil]

/-- An event that is there already is not put in again. -/
theorem Feeds.applyWalRecord (h : Feeds userId applied (self.events.getD userId []))
    (hunique : ∀ event ∈ applied.filterMap (eventOf userId), ∀ event',
      eventOf userId record = some event' →
      event.lsn = event'.lsn → event = event') :
    Feeds userId (applied ++ [record]) ((self.applyWalRecord record).events.getD userId []) := by
  rw [events_applyWalRecord]
  cases hevent : eventOf userId record with
  | none => exact ⟨h.ascending, fun event => by rw [filterMap_append, filterMap_cons_none hevent, filterMap_nil,
      append_nil, Option.elim, h.mem_iff]⟩
  | some event =>
    dsimp only [Option.elim]
    split
    · rename_i hany
      obtain ⟨there, hthere, hlsn⟩ := any_eq_true.mp hany
      have hsame : there = event := hunique there ((h.mem_iff there).mp hthere) event hevent (beq_iff_eq.mp hlsn)
      refine ⟨h.ascending, fun other => ?_⟩
      rw [filterMap_append, filterMap_cons_some hevent, filterMap_nil, mem_append, ← h.mem_iff, mem_singleton]
      exact ⟨.inl, fun hor => hor.elim id fun he => he ▸ hsame ▸ hthere⟩
    · rename_i hany
      exact h.publish hevent fun other hother he => hany (any_eq_true.mpr ⟨other, hother, beq_iff_eq.mpr he⟩)

theorem feeds_foldl (hunique : ∀ event ∈ applied.filterMap (eventOf userId),
    ∀ event' ∈ applied.filterMap (eventOf userId), event.lsn = event'.lsn → event = event') :
    Feeds userId applied ((applied.foldl UserProjectionState.applyWalRecord ⟨∅,
    ∅⟩).events.getD userId []) := by
  induction applied using List.reverseRecOn with
  | nil => exact ⟨by simp, by simp⟩
  | append_singleton applied record ih =>
    rw [foldl_append, foldl_cons, foldl_nil]
    rw [filterMap_append] at hunique
    refine (ih fun event h event' h' => ?_).applyWalRecord fun event h event' h' => ?_
    · exact hunique event (mem_append_left _ h) event' (mem_append_left _ h')
    · exact hunique event (mem_append_left _ h) event' (mem_append_right _ (by simp [h']))

/-- The pages of a user's events are those of the log, in whatever order and however often its
records are applied. -/
theorem events_converge
    (hasc : (log.filterMap (eventOf userId)).Pairwise fun left right => left.lsn < right.lsn)
    (hmem : ∀ record, record ∈ applied ↔ record ∈ log) (beforeLsn : Option Nat) (limit : Nat) :
    (applied.foldl UserProjectionState.applyWalRecord ⟨∅, ∅⟩).listEvents userId beforeLsn limit =
    ((log.filterMap (eventOf userId)).reverse.filter fun event => beforeLsn.all (event.lsn < ·)).take limit := by
  have hsame : ∀ event, event ∈ applied.filterMap (eventOf userId) ↔ event ∈ log.filterMap (eventOf userId) :=
    fun event => by simp only [mem_filterMap, hmem]
  have hlsns : ((log.filterMap (eventOf userId)).map (·.lsn)).Nodup := pairwise_map.mpr (hasc.imp Nat.ne_of_lt)
  have hfed : Feeds userId applied _ := feeds_foldl fun event h event' h' he =>
    inj_on_of_nodup_map hlsns ((hsame event).mp h) ((hsame event').mp h') he
  unfold UserProjectionState.listEvents
  rw [LastWord.eq_of_numbers hfed.ascending hasc fun event => (hfed.mem_iff event).trans (hsame event)]

def samplePublished (lsn : Nat) : WalRecord where
  lsn
  shard := 0
  shardEpoch := 1
  ownerNodeId := "n"
  timestampMs := 0
  schemaVersion := 1
  durability := .strict
  payload := .userEventPublished ⟨"e", none, "ada", "seen", ⟨.null, trivial⟩, 0, "users/ada/events/e"⟩
  checksum := none

/-- The second event comes first, and once more. -/
theorem events_converge_sample : ([samplePublished 2, samplePublished 1, samplePublished 2].foldl
    UserProjectionState.applyWalRecord ⟨∅, ∅⟩).listEvents "ada" none 10 =
    [samplePublished 2, samplePublished 1].filterMap (eventOf "ada") := by
  refine (@events_converge "ada" [samplePublished 1, samplePublished 2] _ (by simp [eventOf, samplePublished,
    UserEventDraft.intoEvent]) (by simp [or_comm]) none 10).trans ?_
  simp [eventOf, samplePublished, UserEventDraft.intoEvent]

end NextDb.Api.Converge
