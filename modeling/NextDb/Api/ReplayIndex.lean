import NextDb.Api.DurableMutation
import NextDb.Api.HostHttp
import NextDb.Api.Startup
import NextDb.Lib.LastWord

/-!
# What is known under a key

A command of a behavior that is tried again is recognised by a client mutation id, by the key of
a reminder or by the id of a host HTTP request. For each there is an index of the log. `find` is
what the indexes hold under a key, and `recordFound` what a record leaves there.

* `find_note`: noting a record leaves what the record says under its key, and all else as it is.
* `find_ofRecords_some`, `find_ofRecords_isSome`: the indexes of a log hold what its records say.
-/

namespace NextDb.Api.ReplayIndex

open HostHttp Startup LastWord Wal Option Std

inductive ReplayKey where
  | mutation (id : String)
  | reminder (key : ActorReminderIndexKey)
  | hostHttp (requestId : String)
deriving DecidableEq

/-- What a command is answered from. -/
inductive Found where
  | mutation (mutation : CommittedMutation)
  | reminder (reminder : ActorReminderDraft) (scheduledLsn scheduledAtMs : Nat)
  | hostHttp (request : HostHttpRequestDraft) (requestedLsn : Nat)

def recordFound (record : WalRecord) : Option (ReplayKey × Found) :=
  match record.payload with
  | .actorReminderScheduled reminder =>
    some (.reminder (actorReminderIndexKeyFromDraft reminder), .reminder reminder record.lsn record.timestampMs)
  | .hostHttpRequested request => some (.hostHttp request.requestId, .hostHttp request record.lsn)
  | _ => (committedMutationEntryFromWalRecord record).map fun entry => (.mutation entry.1, .mutation entry.2)

def keyOf (record : WalRecord) : Option ReplayKey := (recordFound record).map Prod.fst

/-- What a start makes of the log, by ids. -/
structure Indexes where
  clientMutations : BTreeMap String CommittedMutation
  actorReminders : ActorReminderIndex
  hostHttpRequests : HostHttpRequestIndex

def reminderFound (entry : ActorReminderRecord) : Found :=
  .reminder entry.reminder entry.scheduledLsn entry.scheduledAtMs

def requestFound (entry : HostHttpRequestRecord) : Found :=
  .hostHttp entry.request entry.requestedLsn

def Indexes.find (self : Indexes) : ReplayKey → Option Found
  | .mutation id => self.clientMutations[id]?.map .mutation
  | .reminder key => (actorReminderAt self.actorReminders key).map reminderFound
  | .hostHttp requestId => self.hostHttpRequests[requestId]?.map requestFound

/-- What follows an append. -/
def Indexes.note (self : Indexes) (record : WalRecord) : Indexes where
  clientMutations := noteCommittedMutationRecord self.clientMutations record
  actorReminders := indexReminderRecord self.actorReminders record
  hostHttpRequests := indexHostHttpRecord self.hostHttpRequests record

def Indexes.ofRecords (records : List WalRecord) : Indexes where
  clientMutations := clientMutationIndexFromWalRecords records
  actorReminders := actorReminderIndexFromWalRecords records
  hostHttpRequests := hostHttpRequestIndexFromWalRecords records

/-- What a record leaves under a key. -/
def tellsFound (key : ReplayKey) (record : WalRecord) : Option (Option Found) :=
  match recordFound record with
  | some (key', found) => if key' = key then some (some found) else none
  | none => none

variable {record : WalRecord} {key : ReplayKey} {found : Found}

theorem tellsFound_eq_some {left : Option Found} :
    tellsFound key record = some left ↔ ∃ found, recordFound record = some (key, found) ∧
    left = some found := by
  unfold tellsFound
  cases recordFound record with
  | none => simp
  | some entry =>
    obtain ⟨key', found⟩ := entry
    by_cases hkey : key' = key
    · simp [hkey, eq_comm]
    · simp [hkey]

theorem tellsFound_eq_none (h : ∀ found, recordFound record ≠ some (key, found)) :
    tellsFound key record = none := by
  refine eq_none_iff_forall_ne_some.mpr fun left hleft => ?_
  obtain ⟨found, hfound, -⟩ := tellsFound_eq_some.mp hleft
  exact h found hfound

theorem recordFound_mutation {id : String} : recordFound record = some (.mutation id, found) ↔
    ∃ mutation, committedMutationEntryFromWalRecord record = some (id, mutation) ∧
    found = .mutation mutation := by
  unfold recordFound committedMutationEntryFromWalRecord
  cases record.payload with
  | actorReminderScheduled | hostHttpRequested => simp
  | _ => simp [eq_comm]

theorem recordFound_reminder {key : ActorReminderIndexKey} :
    recordFound record = some (.reminder key, found) ↔
    ∃ reminder, record.payload = .actorReminderScheduled reminder ∧
    actorReminderIndexKeyFromDraft reminder = key ∧
    found = .reminder reminder record.lsn record.timestampMs := by
  unfold recordFound
  cases record.payload with
  | actorReminderScheduled | hostHttpRequested => simp [eq_comm]
  | _ => simp

theorem recordFound_hostHttp {requestId : String} :
    recordFound record = some (.hostHttp requestId, found) ↔
    ∃ request, record.payload = .hostHttpRequested request ∧
    request.requestId = requestId ∧ found = .hostHttp request record.lsn := by
  unfold recordFound
  cases record.payload with
  | actorReminderScheduled | hostHttpRequested => simp [eq_comm]
  | _ => simp

theorem find_clientMutations (clientMutations : BTreeMap String CommittedMutation)
    (record : WalRecord) (id : String) :
    (noteCommittedMutationRecord clientMutations record)[id]?.map Found.mutation =
    (tellsFound (.mutation id) record).getD (clientMutations[id]?.map .mutation) := by
  by_cases hid : clientMutationIdOf record = some id
  · obtain ⟨entry, hentry, rfl⟩ := map_eq_some_iff.mp hid
    rw [@noteCommittedMutationRecord_self clientMutations record entry.1 entry.2 hentry,
      tellsFound_eq_some.mpr ⟨_, recordFound_mutation.mpr ⟨entry.2, hentry, rfl⟩, rfl⟩]
    rfl
  · rw [noteCommittedMutationRecord_of_ne hid, tellsFound_eq_none]
    · rfl
    · intro found hfound
      obtain ⟨mutation, hentry, -⟩ := recordFound_mutation.mp hfound
      exact hid (by rw [clientMutationIdOf, hentry]; rfl)

theorem find_actorReminders (reminders : ActorReminderIndex) (record : WalRecord)
    (key : ActorReminderIndexKey) :
    (indexReminderRecord reminders record)[key]?.map reminderFound =
    (tellsFound (.reminder key) record).getD (reminders[key]?.map reminderFound) := by
  have hmark : ∀ key' status, (markReminder reminders key' status)[key]?.map reminderFound =
      reminders[key]?.map reminderFound := by
    intro key' status
    rw [markReminder, ExtHashMap.getElem?_alter]
    split
    · next hkey =>
      rw [beq_iff_eq.mp hkey, map_map]
      rfl
    · rfl
  by_cases hscheduled : ∃ reminder, record.payload = .actorReminderScheduled reminder
  · obtain ⟨reminder, hpayload⟩ := hscheduled
    rw [indexReminderRecord, tellsFound, recordFound, hpayload]
    by_cases hkey : actorReminderIndexKeyFromDraft reminder = key
    · simp [hkey, reminderFound]
    · simp [hkey, ExtHashMap.getElem?_insert]
  · rw [tellsFound_eq_none, getD_none]
    · unfold indexReminderRecord
      split
      · next reminder hpayload => exact absurd ⟨reminder, hpayload⟩ hscheduled
      · exact hmark _ _
      · exact hmark _ _
      · rfl
    · intro found hfound
      obtain ⟨reminder, hpayload, -⟩ := recordFound_reminder.mp hfound
      exact hscheduled ⟨reminder, hpayload⟩

theorem find_hostHttpRequests (requests : HostHttpRequestIndex) (record : WalRecord)
    (requestId : String) :
    (indexHostHttpRecord requests record)[requestId]?.map requestFound =
    (tellsFound (.hostHttp requestId) record).getD (requests[requestId]?.map requestFound) := by
  by_cases hrequested : ∃ request, record.payload = .hostHttpRequested request
  · obtain ⟨request, hpayload⟩ := hrequested
    rw [indexHostHttpRecord, tellsFound, recordFound, hpayload]
    by_cases hid : request.requestId = requestId
    · simp [hid, requestFound]
    · simp [hid, ExtTreeMap.getElem?_insert]
  · rw [tellsFound_eq_none, getD_none]
    · unfold indexHostHttpRecord
      split
      · next request hpayload => exact absurd ⟨request, hpayload⟩ hrequested
      · rw [getElem?_noteHostHttpCompleted]
        split
        · rw [map_map]
          rfl
        · rfl
      · rw [getElem?_noteHostHttpCallbackScheduled, map_map]
        refine congrArg (Option.map · _) (funext fun entry => ?_)
        simp [requestFound]
      · rfl
    · intro found hfound
      obtain ⟨request, hpayload, -⟩ := recordFound_hostHttp.mp hfound
      exact hrequested ⟨request, hpayload⟩

/-- Noting a record leaves what it says under its key. -/
theorem find_note (indexes : Indexes) (record : WalRecord) (key : ReplayKey) :
    (indexes.note record).find key = (tellsFound key record).getD (indexes.find key) := by
  cases key with
  | mutation id => exact find_clientMutations _ _ _
  | reminder key => exact find_actorReminders _ _ _
  | hostHttp requestId => exact find_hostHttpRequests _ _ _

/-- The indexes of a log hold what reading the log leaves, in the order of each. -/
theorem find_ofRecords (records : List WalRecord) (key : ReplayKey) :
    ∃ read', (∀ r, r ∈ read' ↔ r ∈ records) ∧ (Indexes.ofRecords records).find key =
    read (tellsFound key) read' := by
  have hordered : ∀ r, r ∈ orderedByLsn records ↔ r ∈ records := fun r => List.mem_insertionSort _
  cases key with
  | mutation id =>
    refine ⟨records, fun r => Iff.rfl, ?_⟩
    exact read_foldl (f := fun index : BTreeMap String CommittedMutation => index[id]?.map Found.mutation)
      (fun index record => find_clientMutations index record id) (by simp) records
  | reminder key =>
    refine ⟨_, hordered, ?_⟩
    exact read_foldl (f := fun index : ActorReminderIndex => index[key]?.map reminderFound)
      (fun index record => find_actorReminders index record key) (by simp) _
  | hostHttp requestId =>
    refine ⟨_, hordered, ?_⟩
    exact read_foldl (f := fun index : HostHttpRequestIndex => index[requestId]?.map requestFound)
      (fun index record => find_hostHttpRequests index record requestId) (by simp) _

theorem find_ofRecords_some {records : List WalRecord}
    (h : (Indexes.ofRecords records).find key = some found) :
    ∃ r ∈ records, recordFound r = some (key, found) := by
  obtain ⟨read', hmem, hread⟩ := find_ofRecords records key
  rw [hread] at h
  obtain ⟨r, hr, htells⟩ := mem_of_read h
  obtain ⟨found', hfound, heq⟩ := tellsFound_eq_some.mp htells
  cases heq
  exact ⟨r, (hmem r).mp hr, hfound⟩

theorem find_ofRecords_isSome {records : List WalRecord} {r : WalRecord} (hr : r ∈ records)
    (hkey : keyOf r = some key) : ((Indexes.ofRecords records).find key).isSome := by
  obtain ⟨read', hmem, hread⟩ := find_ofRecords records key
  rw [hread]
  refine read_isSome (fun r _ hnone => ?_) ((hmem r).mpr hr) ?_
  · obtain ⟨found, -, hleft⟩ := tellsFound_eq_some.mp hnone
    cases hleft
  · obtain ⟨entry, hentry, rfl⟩ := map_eq_some_iff.mp hkey
    exact isSome_iff_exists.mpr ⟨_, tellsFound_eq_some.mpr ⟨entry.2, hentry, rfl⟩⟩

end NextDb.Api.ReplayIndex
