import NextDb.Actor.Window
import NextDb.Wal.Decode

/-!
# Replay

`replayFrom` applies the messages of a log file above an LSN to the rooms it is
given.
-/

namespace NextDb.Wal

open Actor List

/-- What a replay has made of the log so far. -/
structure ReplayState where
  rooms : HashMap String RoomLiveState
  highestLsn : Nat
  scannedRecords : Nat
  recordsAfterSnapshot : Nat
  quarantinedWal : Option WalQuarantineReport

variable (lib : Libraries) (sort : MessageSort)

/-- The body of the loop over the recovered records. -/
def replayRecord (hotWindow sinceLsn : Nat) (state : ReplayState) (record : WalRecord) :
    ReplayState :=
  let state := { state with
    scannedRecords := state.scannedRecords + 1
    highestLsn := max state.highestLsn record.lsn }
  if record.lsn ≤ sinceLsn then state
  else
    let state := { state with recordsAfterSnapshot := state.recordsAfterSnapshot + 1 }
    match record.payload with
    | .messageCreated message =>
      { state with rooms := applyToRooms sort hotWindow state.rooms (message.intoMessage record.lsn) }
    | _ => state

def replayFrom (path : String) (file : Option Bytes) (hotWindow sinceLsn : Nat)
    (rooms : HashMap String RoomLiveState) : Result ReplayState :=
  match file with
  | none => .ok ⟨rooms, sinceLsn, 0, 0, none⟩
  | some _ => do
    let recovered ← readRecoverableRecordsFile lib path file
    .ok (recovered.records.foldl (replayRecord sort hotWindow sinceLsn) ⟨rooms, sinceLsn, 0, 0, recovered.quarantined⟩)

/-- The message of a record, if it is one. -/
def messageOf (record : WalRecord) : Option Message :=
  match record.payload with
  | .messageCreated message => some (message.intoMessage record.lsn)
  | _ => none

/-- The messages of a room, as they stand in the log. -/
def roomMessages (records : List WalRecord) (roomId : String) : List Message :=
  (records.filterMap messageOf).filter (·.roomId = roomId)

/-- The rooms after a replayed record. -/
def replayedRooms (hotWindow sinceLsn : Nat) (rooms : HashMap String RoomLiveState)
    (record : WalRecord) : HashMap String RoomLiveState :=
  if record.lsn ≤ sinceLsn then rooms
  else
    match messageOf record with
    | some message => applyToRooms sort hotWindow rooms message
    | none => rooms

variable {lib sort}

/-- Replay counts every recovered record and passes the quarantine on. -/
theorem foldl_replayRecord (hotWindow sinceLsn : Nat) (records : List WalRecord)
    (state : ReplayState) :
    (records.foldl (replayRecord sort hotWindow sinceLsn) state).scannedRecords =
    state.scannedRecords + records.length ∧
    (records.foldl (replayRecord sort hotWindow sinceLsn) state).quarantinedWal =
    state.quarantinedWal := by
  induction records generalizing state with
  | nil => exact ⟨rfl, rfl⟩
  | cons record records ih =>
    have hstep : (replayRecord sort hotWindow sinceLsn state record).scannedRecords = state.scannedRecords + 1 ∧
        (replayRecord sort hotWindow sinceLsn state record).quarantinedWal =
          state.quarantinedWal := by
      simp only [replayRecord]
      split
      · exact ⟨rfl, rfl⟩
      · split <;> exact ⟨rfl, rfl⟩
    rw [foldl_cons, (ih _).1, (ih _).2, hstep.1, hstep.2, length_cons]
    exact ⟨by omega, rfl⟩

theorem replayFrom_ok {path : String} {bytes : Bytes} {recovered : RecoverableWalRecords}
    (h : readRecoverableRecordsFile lib path (some bytes) = .ok recovered)
    (hotWindow sinceLsn : Nat)
    (rooms : HashMap String RoomLiveState) :
    ∃ state, replayFrom lib sort path (some bytes) hotWindow sinceLsn rooms =
    .ok state ∧ state.scannedRecords = recovered.records.length ∧
    state.quarantinedWal = recovered.quarantined := by
  refine ⟨_, by rw [replayFrom, h]; rfl, ?_, ?_⟩
  · rw [(foldl_replayRecord ..).1, Nat.zero_add]
  · rw [(foldl_replayRecord ..).2]

/-! ## The rooms of a replay -/

variable {message : Message} {roomId : String}

theorem messageOf_lsn {record : WalRecord} (h : messageOf record = some message) :
    message.lsn = record.lsn := by
  unfold messageOf at h
  split at h
  · cases h
    rfl
  · cases h

theorem mem_roomMessages {records : List WalRecord} : message ∈
    roomMessages records roomId ↔ (∃ record ∈ records, messageOf record = some message) ∧
    message.roomId = roomId := by
  simp [roomMessages, mem_filter, mem_filterMap]

theorem roomMessages_append (records more : List WalRecord) (roomId : String) :
    roomMessages (records ++ more) roomId =
    roomMessages records roomId ++ roomMessages more roomId := by
  simp [roomMessages]

/-- Replay leaves a room that held the newest of some messages with the newest of
these and the messages replayed, some of which it may hold already. -/
theorem foldl_replayedRooms_of_tells {hotWindow sinceLsn : Nat}
    {roomId : String} (records : List WalRecord) {rooms : HashMap String RoomLiveState}
    {before : List Message}
    (hroom : (rooms.getD roomId .new).messages = Newest.newest Message.lsn hotWindow before)
    (hd : Durable (before ++ (roomMessages records roomId).filter (sinceLsn < ·.lsn)))
    (htells : Newest.KeyTells Message.lsn (before ++ (roomMessages records roomId).filter (sinceLsn < ·.lsn))) :
    ((records.foldl (replayedRooms sort hotWindow sinceLsn) rooms).getD roomId .new).messages =
    Newest.newest Message.lsn hotWindow (before ++ (roomMessages records roomId).filter (sinceLsn < ·.lsn)) := by
  induction records generalizing rooms before with
  | nil => simpa [roomMessages] using hroom
  | cons record records ih =>
    rw [foldl_cons]
    by_cases hmsg : ∃ message, messageOf record = some message ∧ message.roomId = roomId ∧ sinceLsn < message.lsn
    · obtain ⟨message, hm, rfl, hlsn⟩ := hmsg
      have hcons : (roomMessages (record :: records) message.roomId).filter (sinceLsn < ·.lsn) = message ::
          (roomMessages records message.roomId).filter (sinceLsn < ·.lsn) := by
        simp [roomMessages, hm, hlsn]
      rw [hcons, append_cons] at hd htells ⊢
      have hstep : replayedRooms sort hotWindow sinceLsn rooms record = applyToRooms sort hotWindow rooms message := by
        rw [replayedRooms, if_neg (by rw [← messageOf_lsn hm]; omega), hm]
      refine ih ?_ hd htells
      rw [hstep, applyToRooms, Std.ExtHashMap.getD_insert_self, RoomLiveState.applyMessage]
      refine applyMessages_newest_of_tells sort hroom ?_ ?_ (cons_ne_nil _ _)
      · exact fun m hmem => hd m (mem_append_left _ hmem)
      · exact htells.mono fun m hmem => mem_append_left _ hmem
    · have hskip : (roomMessages (record :: records) roomId).filter (sinceLsn < ·.lsn) =
          (roomMessages records roomId).filter (sinceLsn < ·.lsn) := by
        rw [← singleton_append, roomMessages_append, filter_append]
        have : (roomMessages [record] roomId).filter (sinceLsn < ·.lsn) = [] := by
          refine filter_eq_nil_iff.mpr fun message hmem hlt => hmsg ?_
          obtain ⟨⟨r, hr, hm⟩, hroomId⟩ := mem_roomMessages.mp hmem
          rw [mem_singleton.mp hr] at hm
          exact ⟨message, hm, hroomId, by simpa using hlt⟩
        rw [this, nil_append]
      rw [hskip] at hd htells ⊢
      refine ih ?_ hd htells
      unfold replayedRooms
      split
      · exact hroom
      · next hlsn =>
        split
        · next message hm =>
          have hne : message.roomId ≠ roomId := fun he =>
            hmsg ⟨message, hm, he, by rw [messageOf_lsn hm]; omega⟩
          rw [applyToRooms, Std.ExtHashMap.getD_insert, if_neg (by simpa using hne)]
          exact hroom
        · exact hroom

/-- Replay of messages that the room does not hold. -/
theorem foldl_replayedRooms {hotWindow sinceLsn : Nat} (records : List WalRecord)
    {rooms : HashMap String RoomLiveState} {before : List Message}
    (hroom : (rooms.getD roomId .new).messages = Newest.newest Message.lsn hotWindow before)
    (hd : Durable (before ++ (roomMessages records roomId).filter (sinceLsn < ·.lsn)))
    (hn : ((before ++ (roomMessages records roomId).filter (sinceLsn < ·.lsn)).map Message.lsn).Nodup) :
    ((records.foldl (replayedRooms sort hotWindow sinceLsn) rooms).getD roomId .new).messages =
    Newest.newest Message.lsn hotWindow (before ++ (roomMessages records roomId).filter (sinceLsn < ·.lsn)) :=
  foldl_replayedRooms_of_tells records hroom hd fun _ ha _ hb => inj_on_of_nodup_map hn ha hb

end NextDb.Wal
