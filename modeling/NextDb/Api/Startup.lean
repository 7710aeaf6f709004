import NextDb.Actor.SnapshotStore
import NextDb.Api.Converge
import NextDb.Wal.Compact

/-!
# Recovery at startup

`main` reads the log five times: for the schema, for the rooms of each shard, for what the
actors of the snapshot have missed, for the reminders and for the other projections. A crash
during an append leaves a prefix of what was written.

* `startup_survives_cut_iff`: startup gives what it gives on the files cut back to their last
  whole frame if and only if no file ends inside a frame, and what the files hold can be read.
-/

namespace NextDb.Api.Startup

open Wal Records List
open Actor (MessageSort RoomLiveState)
open Converge (UserProjectionState ActorReminderWheel actorReminderEntryFromDraft actorIdFromWalParts)

/-! ## The readers -/

/-- What follows the first occurrence of a pattern. -/
def afterFirst (pattern : List Char) : List Char → Option (List Char)
  | [] => if pattern.isEmpty then some [] else none
  | c :: cs => if pattern.isPrefixOf (c :: cs) then some ((c :: cs).drop pattern.length) else afterFirst pattern cs

/-- `str::parse::<u64>`. -/
def parseU64 (text : List Char) : Option Nat :=
  let digits := if text.head? = some '+' then text.tail else text
  if digits.isEmpty then none
  else if digits.all Char.isDigit then
    let value := digits.foldl (fun n c => 10 * n + (c.toNat - '0'.toNat)) 0
    if value < UInt64.size then some value else none
  else none

def archivePathMaxLsn (fileName : String) : Option Nat := do
  let afterThrough ← afterFirst "-through-".toList fileName.toList
  parseU64 (afterThrough.takeWhile fun c => c ≠ '-' ∧ c ≠ '.')

section

variable (lib : Libraries)

def WalDir.readRecordsFromWalPaths (dir : WalDir) (paths : List String) : Result (List WalRecord) :=
  do
  let read ← paths.mapM fun path => dir.readRecordsIncludingArchives lib path
  .ok ((recordsByLsn read.flatten).toList.map Prod.snd)

def WalDir.readArchiveRecordsAfterLsn (dir : WalDir) (afterLsn : Nat) : Result (List WalRecord) :=
  do
  let through := fun file : String × Bytes => (archivePathMaxLsn file.1).any (· ≤ afterLsn)
  let files ← ((dir.archive.toList.filter fun file => isJsonl file.1 && !through file).mapM fun file =>
    readRecordsFile lib file.1 (some file.2))
  .ok files.flatten

def WalDir.readRecordsAfterLsnIncludingArchives (dir : WalDir) (path : String) (afterLsn : Nat) :
    Result (List WalRecord) := do
  let archived ← WalDir.readArchiveRecordsAfterLsn lib dir afterLsn
  let active ← dir.readRecords lib path
  let after := (archived ++ active).filter fun record => afterLsn < record.lsn
  .ok ((recordsByLsn after).toList.map Prod.snd)

def WalDir.readRecordsFromWalPathsAfterLsn (dir : WalDir) (paths : List String) (afterLsn : Nat) :
    Result (List WalRecord) := do
  let read ← paths.mapM fun path => WalDir.readRecordsAfterLsnIncludingArchives lib dir path afterLsn
  .ok ((recordsByLsn read.flatten).toList.map Prod.snd)

end

/-! ## What is made of the records -/

/-- `UserProjection::from_wal_records`. -/
def usersFromWalRecords (records : List WalRecord) : UserProjectionState :=
  records.foldl UserProjectionState.applyWalRecord ⟨∅, ∅⟩

def applyReminderRecord (wheel : ActorReminderWheel) (walRecord : WalRecord) : ActorReminderWheel :=
  match walRecord.payload with
  | .actorReminderScheduled reminder => (actorReminderEntryFromDraft reminder).elim wheel wheel.upsert
  | .actorReminderCancelled actorKind actorKey reminderId _
  | .actorReminderFired actorKind actorKey reminderId _ _ =>
    (actorIdFromWalParts actorKind actorKey).elim wheel fun actorId => wheel.remove actorId reminderId
  | _ => wheel

variable (walRecords : List WalRecord)

def actorRemindersFromWalRecords : ActorReminderWheel :=
  (orderedByLsn walRecords).foldl applyReminderRecord []

inductive ActorReminderRecordStatus where
  | scheduled
  | cancelled
  | fired
deriving DecidableEq

structure ActorReminderRecord where
  reminder : ActorReminderDraft
  scheduledLsn : Nat
  scheduledAtMs : Nat
  status : ActorReminderRecordStatus

abbrev ActorReminderIndexKey := String × String × String

def actorReminderIndexKeyFromParts (actorKind actorKey reminderId : String) :
    ActorReminderIndexKey :=
  (trim actorKind, trim actorKey, trim reminderId)

def actorReminderIndexKeyFromDraft (draft : ActorReminderDraft) : ActorReminderIndexKey :=
  actorReminderIndexKeyFromParts draft.actorKind draft.actorKey draft.reminderId

abbrev ActorReminderIndex := HashMap ActorReminderIndexKey ActorReminderRecord

variable (reminders : ActorReminderIndex)

def actorReminderAt (key : ActorReminderIndexKey) : Option ActorReminderRecord :=
  reminders[key]?

def markReminder (key : ActorReminderIndexKey)
    (status : ActorReminderRecordStatus) : ActorReminderIndex :=
  reminders.alter key fun record => record.map fun record => { record with status }

def indexReminderRecord (walRecord : WalRecord) : ActorReminderIndex :=
  match walRecord.payload with
  | .actorReminderScheduled reminder =>
    reminders.insert (actorReminderIndexKeyFromDraft reminder)
      ⟨reminder, walRecord.lsn, walRecord.timestampMs, .scheduled⟩
  | .actorReminderCancelled actorKind actorKey reminderId _ =>
    markReminder reminders (actorReminderIndexKeyFromParts actorKind actorKey reminderId) .cancelled
  | .actorReminderFired actorKind actorKey reminderId _ _ =>
    markReminder reminders (actorReminderIndexKeyFromParts actorKind actorKey reminderId) .fired
  | _ => reminders

def actorReminderIndexFromWalRecords : ActorReminderIndex :=
  (orderedByLsn walRecords).foldl indexReminderRecord ∅

structure StartupProjectionSeed where
  messages : List Message
  records : List DbRecord
  users : UserProjectionState
  clientMutations : BTreeMap String CommittedMutation

def startupProjectionSeed : StartupProjectionSeed where
  messages := messagesFromWalRecords walRecords
  records := recordsFromWalRecords walRecords
  users := usersFromWalRecords walRecords
  clientMutations := clientMutationIndexFromWalRecords walRecords

def readStartupProjectionsFromWalPaths (lib : Libraries) (dir : WalDir) (paths : List String) :
    Result StartupProjectionSeed :=
  (WalDir.readRecordsFromWalPaths lib dir paths).map startupProjectionSeed

def messageLiveWindow (schema : DatabaseSchema) : Option Nat := do
  let table ← schema.tables["rooms"]?
  match (← table.nested["messages"]?).storage with
  | .chatLog _ _ liveWindow => some liveWindow
  | _ => none

def defaultHotWindow : Nat := 5000

/-- The hot window of `effective_actor_runtime_config`. -/
def effectiveHotWindow (env : Option Nat) (schema : DatabaseSchema) : Nat :=
  (env <|> messageLiveWindow schema).getD defaultHotWindow

/-! ## Startup -/

/-- What the recovered server starts with. -/
structure Recovered where
  schema : SchemaRegistry
  rooms : HashMap String RoomLiveState
  highestLsn : Nat
  /-- What `actor_states_with_wal_tail` applies to the actors of the snapshot. -/
  walTailRecords : List WalRecord
  seed : StartupProjectionSeed
  actorReminders : ActorReminderWheel
  actorReminderIndex : ActorReminderIndex

/-- What startup finds beside the log. -/
structure Environment where
  lib : Libraries
  sort : MessageSort
  /-- `NEXTDB_HOT_WINDOW`. -/
  hotWindow : Option Nat
  schema : SchemaRegistry
  snapshot : Option Actor.SnapshotStore.ActorSnapshot

variable (env : Environment)

/-- The loop that replays the files of the shards. -/
def replayShards (dir : WalDir) (hotWindow sinceLsn : Nat) (paths : List String)
    (rooms : HashMap String RoomLiveState) : Result (HashMap String RoomLiveState × Nat) :=
  paths.foldlM (fun replayed path => do
    let replay ← replayFrom env.lib env.sort path dir.files[path]? hotWindow sinceLsn replayed.1
    .ok (replay.rooms, max replayed.2 replay.highestLsn)) (rooms, sinceLsn)

def snapshotRooms (snapshot : Option Actor.SnapshotStore.ActorSnapshot) :
    HashMap String RoomLiveState :=
  match snapshot with
  | some snapshot => snapshot.rooms.map fun _ room => ⟨room.messages⟩
  | none => ∅

def readWalTail (dir : WalDir) (paths : List String) (sinceLsn : Nat)
    (actorStates : List Actor.SnapshotStore.ActorKernelSnapshotEntry) : Result (List WalRecord) :=
  if actorStates.isEmpty then .ok [] else WalDir.readRecordsFromWalPathsAfterLsn env.lib dir paths sinceLsn

def startup (dir : WalDir) (paths : List String) : Result Recovered := do
  let schemaRecords ← WalDir.readRecordsFromWalPaths env.lib dir paths
  let (schema, _) ← recoverSchemaFromWal env.schema schemaRecords
  let sinceLsn := (env.snapshot.map (·.lsn)).getD 0
  let actorStates := (env.snapshot.map (·.actorStates)).getD []
  let (rooms, highestLsn) ← replayShards env dir (effectiveHotWindow env.hotWindow schema.schema) sinceLsn paths
    (snapshotRooms env.snapshot)
  let walTailRecords ← readWalTail env dir paths sinceLsn actorStates
  let allWalRecords ← WalDir.readRecordsFromWalPaths env.lib dir paths
  let seed ← readStartupProjectionsFromWalPaths env.lib dir paths
  return {
    schema, rooms, highestLsn, walTailRecords, seed
    actorReminders := actorRemindersFromWalRecords allWalRecords
    actorReminderIndex := actorReminderIndexFromWalRecords allWalRecords }

/-! ## A cut log -/

/-- The file of a shard that a crash left with the first bytes of an encoding. -/
structure CutShard (lib : Libraries) where
  path : String
  records : List WalRecord
  bytes : Bytes
  cut : Nat
  encoded : encodeWalRecords lib records = .ok bytes
  le_length : cut ≤ bytes.length

variable {lib : Libraries} (self : CutShard lib)

/-- What the crash left. -/
def CutShard.file : Bytes := self.bytes.take self.cut

/-- The file cut back to its last whole frame. -/
def CutShard.cutBack : Bytes :=
  self.bytes.take (frameEnd lib self.records (wholeFrames lib self.records self.cut))

/-- The records of the whole frames. -/
def CutShard.whole : List WalRecord :=
  self.records.take (wholeFrames lib self.records self.cut)

/-- These with their checksums, as they stand in the file. -/
def CutShard.signed : List WalRecord :=
  (self.whole.mapM (ensureChecksum lib)).toOption.getD []

/-- The schemas of the log are valid. -/
def SchemasValid (records : List WalRecord) : Prop :=
  ∀ record ∈ records, ∀ schema migration, record.payload = .schemaApplied schema migration →
    schema.validationReport.ok = true

/-- The whole frames of the shards and the archives can be read, and what is read of them
has no invalid schema. -/
def Readable (dir : WalDir) (shards : List (CutShard lib)) : Prop :=
  (∀ shard ∈ shards, ∀ record ∈ shard.whole, ChecksumFits lib record) ∧
    ∃ archived, dir.readArchiveRecords lib = .ok archived ∧
      SchemasValid (readRecordsFromWalPaths (shards.map fun shard => (archived, shard.signed)))

/-- No file ends inside a frame. -/
def NotTorn (shards : List (CutShard lib)) : Prop :=
  ∀ shard ∈ shards, FrameBoundary lib shard.records shard.cut

theorem CutShard.forall₂_signed (hlib : lib.Lawful) (self : CutShard lib) :
    List.Forall₂ (fun r s => ensureChecksum lib r = .ok s) self.whole self.signed := by
  obtain ⟨signed, hs, -⟩ := encodeWalRecords_frameBytes hlib self.encoded
  have hwhole : ∀ record ∈ self.whole, ∃ s, ensureChecksum lib record = .ok s := by
    intro record hrecord
    obtain ⟨i, hi, rfl⟩ := getElem_of_mem (mem_of_mem_take hrecord)
    exact ⟨_, (forall₂_iff_get.mp hs).2 i hi (hs.length_eq ▸ hi)⟩
  obtain ⟨checked, hchecked⟩ := mapM_ok_of_forall hwhole
  rw [CutShard.signed, hchecked]
  exact forall₂_of_mapM_ok hchecked

theorem CutShard.read_iff (hlib : lib.Lawful) (hjson : lib.JsonText) (self : CutShard lib)
    (path : String)
    (present : List WalRecord) : readRecordsFile lib path (some self.file) = .ok present ↔
    FrameBoundary lib
    self.records self.cut ∧ (∀ record ∈ self.whole, ChecksumFits lib record) ∧
    present = self.signed :=
  readRecordsFile_cut_iff hlib hjson self.encoded self.le_length (self.forall₂_signed hlib) present

theorem CutShard.cutBack_eq {self : CutShard lib} (h : FrameBoundary lib self.records self.cut) :
    self.cutBack = self.file := by
  rw [CutShard.cutBack, ← frameBoundary_iff.mp h, CutShard.file]

/-! ## Schemas -/

theorem noteSchemaApplied_ok_iff (found : AppliedSchemas) (record : WalRecord) :
    (∃ found', noteSchemaApplied found record = .ok found') ↔
    ∀ schema migration, record.payload = .schemaApplied schema migration →
    schema.validationReport.ok = true := by
  unfold noteSchemaApplied
  split
  · next schema migration hp =>
    constructor
    · rintro ⟨found', h⟩ schema' migration' hp'
      obtain ⟨⟨⟩, hvalid, -⟩ := bind_eq_ok.mp h
      rw [hp] at hp'
      cases hp'
      exact SchemaValidationReport.intoResult_eq_ok.mp hvalid
    · intro h
      exact ⟨_, bind_eq_ok.mpr ⟨(), SchemaValidationReport.intoResult_eq_ok.mpr (h schema migration hp), rfl⟩⟩
  · next hother => exact ⟨fun _ schema migration hp => absurd hp (hother schema migration), fun _ => ⟨_, rfl⟩⟩

theorem appliedSchemas_ok_iff (records : List WalRecord) :
    (∃ found, appliedSchemas records = .ok found) ↔ SchemasValid records := by
  unfold appliedSchemas SchemasValid
  generalize (⟨∅, none⟩ : AppliedSchemas) = found
  induction records generalizing found with
  | nil => simpa using ⟨found, rfl⟩
  | cons record records ih =>
    rw [forall_mem_cons, foldlM_cons, ← noteSchemaApplied_ok_iff found record]
    constructor
    · rintro ⟨last, h⟩
      obtain ⟨next, hnext, hrest⟩ := bind_eq_ok.mp h
      exact ⟨⟨next, hnext⟩, (ih next).mp ⟨last, hrest⟩⟩
    · rintro ⟨⟨next, hnext⟩, hrest⟩
      obtain ⟨last, hlast⟩ := (ih next).mpr hrest
      exact ⟨last, bind_eq_ok.mpr ⟨next, hnext, hlast⟩⟩

theorem recoverSchemaFromWal_ok_iff (registry : SchemaRegistry) (records : List WalRecord) :
    (∃ recovered, recoverSchemaFromWal registry records = .ok recovered) ↔
    SchemasValid records := by
  rw [← appliedSchemas_ok_iff]
  constructor
  · rintro ⟨recovered, h⟩
    obtain ⟨found, hfound, -⟩ := bind_eq_ok.mp h
    exact ⟨found, hfound⟩
  · rintro ⟨⟨history, latest⟩, hfound⟩
    rw [recoverSchemaFromWal, hfound]
    cases latest with
    | none | some => exact ⟨_, rfl⟩

/-! ## Reading -/

/-- The directory that a crash left with the files of the shards. -/
def Left (dir : WalDir) (shards : List (CutShard lib)) : Prop :=
  ∀ shard ∈ shards, dir.files[shard.path]? = some shard.file

variable {dir : WalDir} {shards : List (CutShard lib)} {archived : List WalRecord}

theorem readRecordsFromWalPaths_ok (hlib : lib.Lawful) (hjson : lib.JsonText)
    (hleft : Left dir shards)
    (htorn : NotTorn shards)
    (hfits : ∀ shard ∈ shards, ∀ record ∈ shard.whole, ChecksumFits lib record)
    (harchived : dir.readArchiveRecords lib = .ok archived) : WalDir.readRecordsFromWalPaths lib dir
    (shards.map (·.path)) =
    .ok (readRecordsFromWalPaths (shards.map fun shard => (archived, shard.signed))) := by
  have hread : (shards.map (·.path)).mapM (fun path => dir.readRecordsIncludingArchives lib path) =
      .ok (shards.map fun shard => readRecordsIncludingArchives archived shard.signed) := by
    refine mapM_map_ok fun shard hshard => ?_
    have hactive : dir.readRecords lib shard.path = .ok shard.signed := by
      rw [WalDir.readRecords, hleft shard hshard]
      exact (shard.read_iff hlib hjson _ _).mpr ⟨htorn shard hshard, hfits shard hshard, rfl⟩
    rw [WalDir.readRecordsIncludingArchives, harchived, hactive]
    rfl
  rw [WalDir.readRecordsFromWalPaths, hread]
  show Except.ok _ = Except.ok _
  rw [readRecordsFromWalPaths, flatMap_map]
  rfl

/-- What can be read is not torn. -/
theorem of_readRecordsFromWalPaths (hlib : lib.Lawful) (hjson : lib.JsonText)
    (hleft : Left dir shards)
    {records : List WalRecord}
    (hread : WalDir.readRecordsFromWalPaths lib dir (shards.map (·.path)) = .ok records)
    {shard : CutShard lib} (hshard : shard ∈ shards) :
    (FrameBoundary lib shard.records shard.cut ∧ ∀ record ∈ shard.whole, ChecksumFits lib record) ∧
    ∃ archived, dir.readArchiveRecords lib = .ok archived := by
  obtain ⟨files, hfiles, -⟩ := bind_eq_ok.mp hread
  obtain ⟨_, -, hfile⟩ := mem_mapM_of_mem hfiles (mem_map_of_mem hshard)
  obtain ⟨archived, harchived, hfile⟩ := bind_eq_ok.mp hfile
  obtain ⟨active, hactive, -⟩ := bind_eq_ok.mp hfile
  rw [WalDir.readRecords, hleft shard hshard] at hactive
  obtain ⟨hboundary, hfits, -⟩ := (shard.read_iff hlib hjson _ _).mp hactive
  exact ⟨⟨hboundary, hfits⟩, archived, harchived⟩

theorem readArchiveRecordsAfterLsn_ok (h : dir.readArchiveRecords lib = .ok archived)
    (afterLsn : Nat) :
    ∃ records, WalDir.readArchiveRecordsAfterLsn lib dir afterLsn = .ok records := by
  obtain ⟨files, hfiles, -⟩ := bind_eq_ok.mp h
  have hread : ∀ file ∈ dir.archive.toList.filter fun file =>
      isJsonl file.1 && !(archivePathMaxLsn file.1).any (· ≤ afterLsn),
      ∃ records, readRecordsFile lib file.1 (some file.2) = .ok records := by
    intro file hfile
    obtain ⟨hmem, hcond⟩ := mem_filter.mp hfile
    obtain ⟨records, -, hrecords⟩ := mem_mapM_of_mem hfiles (mem_filter.mpr ⟨hmem, (Bool.and_eq_true_iff.mp hcond).1⟩)
    exact ⟨records, hrecords⟩
  obtain ⟨after, hafter⟩ := mapM_ok_of_forall hread
  exact ⟨_, bind_eq_ok.mpr ⟨after, hafter, rfl⟩⟩

theorem readRecordsFromWalPathsAfterLsn_ok (hlib : lib.Lawful) (hjson : lib.JsonText)
    (hleft : Left dir shards)
    (htorn : NotTorn shards)
    (hfits : ∀ shard ∈ shards, ∀ record ∈ shard.whole, ChecksumFits lib record)
    (harchived : dir.readArchiveRecords lib = .ok archived) (afterLsn : Nat) :
    ∃ records, WalDir.readRecordsFromWalPathsAfterLsn lib dir (shards.map (·.path)) afterLsn =
    .ok records := by
  obtain ⟨after, hafter⟩ := readArchiveRecordsAfterLsn_ok harchived afterLsn
  have hread : ∀ path ∈ shards.map (·.path), ∃ records,
      WalDir.readRecordsAfterLsnIncludingArchives lib dir path afterLsn = .ok records := by
    intro path hpath
    obtain ⟨shard, hshard, rfl⟩ := mem_map.mp hpath
    have hactive : dir.readRecords lib shard.path = .ok shard.signed := by
      rw [WalDir.readRecords, hleft shard hshard]
      exact (shard.read_iff hlib hjson _ _).mpr ⟨htorn shard hshard, hfits shard hshard, rfl⟩
    exact ⟨_, bind_eq_ok.mpr ⟨after, hafter, bind_eq_ok.mpr ⟨_, hactive, rfl⟩⟩⟩
  obtain ⟨files, hfiles⟩ := mapM_ok_of_forall hread
  exact ⟨_, bind_eq_ok.mpr ⟨files, hfiles, rfl⟩⟩

theorem replayShards_ok {env : Environment}
    (hlib : env.lib.Lawful) {shards : List (CutShard env.lib)} (hleft : Left dir shards)
    (htorn : NotTorn shards) (hotWindow sinceLsn : Nat) (rooms : HashMap String RoomLiveState) :
    ∃ replayed, replayShards env dir hotWindow sinceLsn (shards.map (·.path)) rooms =
    .ok replayed := by
  refine foldlM_ok (fun replayed path hpath => ?_) _
  obtain ⟨shard, hshard, rfl⟩ := mem_map.mp hpath
  have hread :=
    @readRecoverableRecordsFile_framed env.lib _ (framed_of_boundary hlib shard.encoded (htorn shard hshard)) shard.path
  obtain ⟨state, hstate, -⟩ := @replayFrom_ok _ env.sort _ _ _ hread hotWindow sinceLsn replayed.1
  rw [hleft shard hshard]
  exact ⟨_, bind_eq_ok.mpr ⟨state, hstate, rfl⟩⟩

/-! ## Startup on a cut log -/

theorem readRecordsFromWalPaths_congr {back : WalDir} {paths : List String}
    (harchive : back.archive = dir.archive)
    (hfiles : ∀ path ∈ paths, back.files[path]? = dir.files[path]?) :
    WalDir.readRecordsFromWalPaths lib back paths =
    WalDir.readRecordsFromWalPaths lib dir paths := by
  have hread : ∀ path ∈ paths, back.readRecordsIncludingArchives lib path = dir.readRecordsIncludingArchives lib path := by
    intro path hpath
    rw [WalDir.readRecordsIncludingArchives, WalDir.readRecordsIncludingArchives, WalDir.readArchiveRecords,
      WalDir.readArchiveRecords, WalDir.readRecords, WalDir.readRecords, harchive, hfiles path hpath]
  rw [WalDir.readRecordsFromWalPaths, WalDir.readRecordsFromWalPaths, mapM_congr hread]

/-- Startup depends on the files of the shards and the archives only. -/
theorem startup_congr {env : Environment} {back : WalDir} {paths : List String}
    (harchive : back.archive = dir.archive)
    (hfiles : ∀ path ∈ paths, back.files[path]? = dir.files[path]?) :
    startup env back paths = startup env dir paths := by
  have hread := @readRecordsFromWalPaths_congr env.lib _ _ _ harchive hfiles
  have htail : ∀ sinceLsn actorStates,
      readWalTail env back paths sinceLsn actorStates = readWalTail env dir paths sinceLsn actorStates := by
    intro sinceLsn actorStates
    have hpath : ∀ path ∈ paths, WalDir.readRecordsAfterLsnIncludingArchives env.lib back path sinceLsn =
        WalDir.readRecordsAfterLsnIncludingArchives env.lib dir path sinceLsn := by
      intro path hpath
      rw [WalDir.readRecordsAfterLsnIncludingArchives, WalDir.readRecordsAfterLsnIncludingArchives,
        WalDir.readArchiveRecordsAfterLsn, WalDir.readArchiveRecordsAfterLsn, WalDir.readRecords, WalDir.readRecords,
        harchive, hfiles path hpath]
    rw [readWalTail, readWalTail, WalDir.readRecordsFromWalPathsAfterLsn, WalDir.readRecordsFromWalPathsAfterLsn,
      mapM_congr hpath]
  have hreplay : ∀ hotWindow sinceLsn rooms,
      replayShards env back hotWindow sinceLsn paths rooms = replayShards env dir hotWindow sinceLsn paths rooms := by
    intro hotWindow sinceLsn rooms
    refine foldlM_congr fun replayed path hpath => ?_
    rw [hfiles path hpath]
  simp only [startup, readStartupProjectionsFromWalPaths, hread, htail, hreplay]

theorem startup_ok {env : Environment} (hlib : env.lib.Lawful)
    (hjson : env.lib.JsonText) {shards : List (CutShard env.lib)} (hleft : Left dir shards)
    (htorn : NotTorn shards)
    (hreadable : Readable dir shards) :
    ∃ recovered, startup env dir (shards.map (·.path)) = .ok recovered := by
  obtain ⟨hfits, archived, harchived, hvalid⟩ := hreadable
  have hread := readRecordsFromWalPaths_ok hlib hjson hleft htorn hfits harchived
  obtain ⟨⟨schema, report⟩, hschema⟩ := (recoverSchemaFromWal_ok_iff env.schema _).mpr hvalid
  obtain ⟨⟨rooms, highestLsn⟩, hreplay⟩ := replayShards_ok hlib hleft htorn
    (effectiveHotWindow env.hotWindow schema.schema) ((env.snapshot.map (·.lsn)).getD 0) (snapshotRooms env.snapshot)
  obtain ⟨tail, htail⟩ : ∃ tail, readWalTail env dir (shards.map (·.path)) ((env.snapshot.map (·.lsn)).getD 0)
      ((env.snapshot.map (·.actorStates)).getD []) = .ok tail := by
    unfold readWalTail
    split
    · exact ⟨[], rfl⟩
    · exact readRecordsFromWalPathsAfterLsn_ok hlib hjson hleft htorn hfits harchived _
  have hseed : readStartupProjectionsFromWalPaths env.lib dir (shards.map (·.path)) =
      .ok (startupProjectionSeed (readRecordsFromWalPaths (shards.map fun shard => (archived, shard.signed)))) := by
    rw [readStartupProjectionsFromWalPaths, hread]
    rfl
  refine ⟨_, bind_eq_ok.mpr ⟨_, hread, bind_eq_ok.mpr ⟨_, hschema,
    bind_eq_ok.mpr ⟨_, hreplay, bind_eq_ok.mpr ⟨_, htail, bind_eq_ok.mpr ⟨_, hread, bind_eq_ok.mpr ⟨_, hseed, rfl⟩⟩⟩⟩⟩⟩⟩

theorem of_startup_ok {env : Environment} (hlib : env.lib.Lawful) (hjson : env.lib.JsonText)
    {shard : CutShard env.lib}
    {shards : List (CutShard env.lib)} (hleft : Left dir (shard :: shards))
    {recovered : Recovered} (h : startup env dir ((shard :: shards).map (·.path)) = .ok recovered) :
    NotTorn (shard :: shards) ∧ Readable dir (shard :: shards) := by
  obtain ⟨records, hread, h⟩ := bind_eq_ok.mp h
  obtain ⟨schema, hschema, -⟩ := bind_eq_ok.mp h
  have hshards := fun s (hs : s ∈ shard :: shards) => of_readRecordsFromWalPaths hlib hjson hleft hread hs
  have htorn : NotTorn (shard :: shards) := fun s hs => (hshards s hs).1.1
  have hfits := fun s hs => (hshards s hs).1.2
  obtain ⟨archived, harchived⟩ := (hshards shard mem_cons_self).2
  rw [readRecordsFromWalPaths_ok hlib hjson hleft htorn hfits harchived] at hread
  cases hread
  exact ⟨htorn, hfits, archived, harchived, (recoverSchemaFromWal_ok_iff env.schema _).mp ⟨schema, hschema⟩⟩

/-- Whatever prefix a crash left of the file of each shard, startup succeeds with what it
gives on the files cut back to their last whole frame if and only if no file ends inside a
frame, and what the files and the archives hold can be read. -/
theorem startup_survives_cut_iff {env : Environment} (hlib : env.lib.Lawful)
    (hjson : env.lib.JsonText) {shard : CutShard env.lib} {shards : List (CutShard env.lib)}
    {dir back : WalDir}
    (hleft : Left dir (shard :: shards))
    (hback : ∀ s ∈ shard :: shards, back.files[s.path]? = some s.cutBack)
    (harchive : back.archive = dir.archive) :
    (∃ recovered, startup env dir ((shard :: shards).map (·.path)) =
    .ok recovered ∧ startup env back ((shard :: shards).map (·.path)) = .ok recovered) ↔
    NotTorn (shard :: shards) ∧
    Readable dir (shard :: shards) := by
  constructor
  · rintro ⟨recovered, h, -⟩
    exact of_startup_ok hlib hjson hleft h
  · rintro ⟨htorn, hreadable⟩
    obtain ⟨recovered, h⟩ := startup_ok hlib hjson hleft htorn hreadable
    refine ⟨recovered, h, ?_⟩
    rw [startup_congr harchive fun path hpath => ?_, h]
    obtain ⟨s, hs, rfl⟩ := mem_map.mp hpath
    rw [hback s hs, CutShard.cutBack_eq (htorn s hs), hleft s hs]

section Sample

abbrev sampleEnv : Environment where
  lib := sampleLibraries
  sort := .merge
  hotWindow := none
  schema := SchemaRegistry.load ⟨"nextdb", 1, ∅, ∅, ∅, ∅⟩ none ∅
  snapshot := none

abbrev sampleFrame : Bytes := walFrame sampleLibraries sampleBytes

theorem encodeWalRecords_two :
    encodeWalRecords sampleLibraries [sampleRecord, sampleRecord] =
    .ok (sampleFrame ++ sampleFrame) :=
  @encodeWalRecords_append _ [sampleRecord] _ [sampleRecord] _ encodeWalRecords_sample encodeWalRecords_sample

/-- The only shard, whose file ends behind `cut` of the 200 bytes of its two frames. -/
def sampleShard (cut : Nat) (h : cut ≤ (sampleFrame ++ sampleFrame).length) :
    CutShard sampleEnv.lib where
  path := "shard-0000.jsonl"
  records := [sampleRecord, sampleRecord]
  bytes := sampleFrame ++ sampleFrame
  cut := cut
  encoded := encodeWalRecords_two
  le_length := h

def sampleDir (file : Bytes) : WalDir :=
  ⟨(∅ : BTreeMap String Bytes).insert "shard-0000.jsonl" file, ∅⟩

theorem sampleDir_file (file : Bytes) : (sampleDir file).files["shard-0000.jsonl"]? = some file :=
  Std.ExtTreeMap.getElem?_insert_self

theorem sampleDir_archive (file file' : Bytes) :
    (sampleDir file).archive = (sampleDir file').archive := rfl

theorem sampleFrame_length : sampleFrame.length = 100 := length_sample

theorem frameBytes_sample : frameBytes sampleLibraries sampleRecord = sampleFrame := by
  rw [frameBytes, encodeWalRecords_sample]

theorem le_length_sample {cut : Nat} (h : cut ≤ 200) :
    cut ≤ (sampleFrame ++ sampleFrame).length := by
  rw [length_append, sampleFrame_length]
  exact h

variable {cut : Nat} (h : cut ≤ (sampleFrame ++ sampleFrame).length)

theorem sample_left : Left (sampleDir (sampleShard cut h).file) [sampleShard cut h] := by
  intro shard hshard
  rw [mem_singleton.mp hshard]
  exact sampleDir_file _

theorem sample_whole {record : WalRecord}
    (hrecord : record ∈ (sampleShard cut h).whole) : record = sampleRecord :=
  (mem_pair.mp (mem_of_mem_take hrecord)).elim id id

theorem sample_signed {signed : WalRecord}
    (hsigned : signed ∈ (sampleShard cut h).signed) : signed = sampleSigned := by
  have hs := (sampleShard cut h).forall₂_signed sampleLibraries_lawful
  obtain ⟨i, hi, rfl⟩ := getElem_of_mem hsigned
  have hi' : i < (sampleShard cut h).whole.length := by rwa [hs.length_eq]
  have hsign := (forall₂_iff_get.mp hs).2 i hi' hi
  rw [sample_whole h (get_mem _ ⟨i, hi'⟩)] at hsign
  have hsample : ensureChecksum sampleLibraries sampleRecord = .ok sampleSigned := refreshChecksum_sample
  rw [hsample] at hsign
  exact (Except.ok.inj hsign).symm

theorem sample_schemasValid {signed : List WalRecord}
    (h : ∀ record ∈ signed, record = sampleSigned) :
    SchemasValid (readRecordsFromWalPaths [([], signed)]) := by
  intro record hrecord schema migration hp
  obtain ⟨file, hfile, hr⟩ := (mem_readRecordsFromWalPaths (by
    intro file hfile file' hfile' r hr r' hr' _
    rw [mem_singleton.mp hfile] at hr
    rw [mem_singleton.mp hfile'] at hr'
    rw [h r hr, h r' hr'])).mp hrecord
  rw [mem_singleton.mp hfile] at hr
  rw [h record hr] at hp
  cases hp

theorem sample_readable (file : Bytes) : Readable (sampleDir file) [sampleShard cut h] := by
  refine ⟨fun shard hshard record hrecord checksum hs => ?_, [], rfl,
    sample_schemasValid fun record hrecord => sample_signed h hrecord⟩
  rw [mem_singleton.mp hshard] at hrecord
  rw [sample_whole h hrecord] at hs
  cases hs

/-- Of the two frames the crash has left the first. -/
theorem startup_survives_cut_sample : ∃ shard : CutShard sampleEnv.lib, shard.cut = 100 ∧
    ∃ recovered, startup sampleEnv (sampleDir shard.file) [shard.path] = .ok recovered ∧
    startup sampleEnv (sampleDir shard.cutBack) [shard.path] = .ok recovered := by
  have h : 100 ≤ (sampleFrame ++ sampleFrame).length := le_length_sample (by decide)
  have hback : ∀ s ∈ [sampleShard 100 h], (sampleDir (sampleShard 100 h).cutBack).files[s.path]? = some s.cutBack := by
    intro s hs
    rw [mem_singleton.mp hs]
    exact sampleDir_file _
  have htorn : NotTorn [sampleShard 100 h] := by
    intro s hs
    rw [mem_singleton.mp hs]
    refine ⟨1, Nat.le_succ 1, ?_⟩
    have hend : frameEnd sampleLibraries [sampleRecord, sampleRecord] 1 = sampleFrame.length := by
      rw [frameEnd, map_cons, frameBytes_sample, Framing.endOf, take_succ_cons, take_zero, flatten_singleton]
    exact (hend.trans sampleFrame_length).symm
  exact ⟨sampleShard 100 h, rfl, (@startup_survives_cut_iff sampleEnv sampleLibraries_lawful sampleLibraries_jsonText
    (sampleShard 100 h) [] _ _ (sample_left h) hback (sampleDir_archive _ _)).mpr ⟨htorn, sample_readable h _⟩⟩

/-- Half of the first frame: cut back, the file is empty, and startup succeeds. -/
theorem startup_torn_fails : ∃ shard : CutShard sampleEnv.lib, shard.cut = 50 ∧
    (∃ recovered, startup sampleEnv (sampleDir shard.cutBack) [shard.path] = .ok recovered) ∧
    ∀ recovered, startup sampleEnv (sampleDir shard.file) [shard.path] ≠ .ok recovered := by
  have h : 50 ≤ (sampleFrame ++ sampleFrame).length := le_length_sample (by decide)
  have hwhole : wholeFrames sampleLibraries [sampleRecord, sampleRecord] 50 = 0 := by
    rw [wholeFrames, map_cons, frameBytes_sample, Framing.fitting, if_neg (by rw [sampleFrame_length]; decide)]
  refine ⟨sampleShard 50 h, rfl, ?_, fun recovered hstart => ?_⟩
  · have hback : (sampleShard 50 h).cutBack = (sampleShard 0 (Nat.zero_le _)).file := by
      show (sampleFrame ++ sampleFrame).take (frameEnd sampleLibraries [sampleRecord, sampleRecord]
        (wholeFrames sampleLibraries [sampleRecord, sampleRecord] 50)) = _
      rw [hwhole]
      rfl
    rw [hback]
    refine @startup_ok _ sampleEnv sampleLibraries_lawful sampleLibraries_jsonText _ (sample_left (Nat.zero_le _))
      (fun s hs => ?_) (sample_readable (Nat.zero_le _) _)
    rw [mem_singleton.mp hs]
    exact ⟨0, Nat.zero_le _, rfl⟩
  · have htorn := (of_startup_ok sampleLibraries_lawful sampleLibraries_jsonText (sample_left h) hstart).1
      (sampleShard 50 h) mem_cons_self
    rw [frameBoundary_iff] at htorn
    change 50 = frameEnd sampleLibraries [sampleRecord, sampleRecord]
      (wholeFrames sampleLibraries [sampleRecord, sampleRecord] 50) at htorn
    rw [hwhole] at htorn
    exact absurd htorn (by decide)

end Sample

end NextDb.Api.Startup
