import NextDb.Api.Mutation
import NextDb.Lib.Fallible
import NextDb.Records.FromWal
import NextDb.Records.ObjectRefs
import NextDb.Schema.Migration
import NextDb.Schema.Registry

/-!
# Applying a schema

A candidate is checked, the new projection is built aside and the new object refs in
memory. The `SchemaApplied` record is the commit point: it is appended before the
schema files, the projection, the object refs and the active schema are replaced, in
this order. What the steps meet outside of the modelled state is their `Environment`.

* `applySchemaCandidate_err`: a call that fails before the record is in the log changes
  nothing; after that, recovery restores the candidate.
-/

namespace NextDb.Api.ApplySchema

open Records Fallible Wal

variable {P : Type}

/-! ## State and environment -/

/-- A directory of the record store. A projection that was never bootstrapped is imported
from legacy files when it is first read. -/
structure RecordRoot (P : Type) where
  projection : P
  bootstrapped : Bool

/-- What an application of a schema reads and writes. -/
structure AppState (P : Type) where
  schema : SchemaRegistry
  wal : WalFiles
  /-- The root directory of the record store. -/
  root : Option (RecordRoot P)
  /-- The roots that commits renamed. -/
  backups : List (RecordRoot P)
  objectRefs : RefState

/-- What reads of the records find. -/
def AppState.projection (store : ProjectionStore P) (state : AppState P) : P :=
  (state.root.map RecordRoot.projection).getD store.empty

/-- How the append of the schema record ends. -/
inductive AppendOutcome where
  /-- The shard is frozen or not writable. -/
  | refused (err : ApiError)
  /-- An LSN was allocated, but no record was written. -/
  | unwritten (err : ApiError)
  /-- The record was written, but the append did not succeed: syncing or a replica failed. -/
  | unacknowledged (err : ApiError)
  | acknowledged

/-- What the calls outside of the application answer. -/
structure Environment where
  readWal : Result Unit
  validateLoadedBehaviorManifests : DatabaseSchema → Except ApiError Unit
  validateDeclaredObjectRef : DeclaredObjectRef → Except ApiError Unit
  validateRebuild : Result Unit
  writableShard : Except ApiError Unit
  preflightPeers : Except ApiError Unit
  stageRebuild : Result Unit
  markCommitting : Except ApiError Unit
  append : AppendOutcome
  shardEpoch : Nat
  ownerNodeId : String
  timestampMs : Nat
  checksum : Option String
  persistHistory : Result Unit
  persistSchema : Result Unit
  renameRoot : Result Unit
  renameStaged : Result Unit
  restoreRoot : Result Unit
  openProjection : Result Unit
  persistObjectRefs : Result Unit
  bootstrap : Result Unit
  projectionStatus : Result Unit

abbrev Call (P α : Type) := Task (AppState P) ApiError α

/-! ## Checks -/

def checkExpectedVersion (expectedVersion : Option Nat) (activeVersion : Nat) :
    Except ApiError Unit :=
  match expectedVersion with
  | none => .ok ()
  | some expectedVersion =>
    if activeVersion = expectedVersion then .ok ()
    else .error (ApiError.conflict
      s!"schema version conflict: expected active version {expectedVersion}, got {activeVersion}")

def badRequest {α : Type} (result : Result α) : Except ApiError α :=
  result.mapError fun err => ApiError.badRequest err.message

def internal {α : Type} (result : Result α) : Except ApiError α := result.mapError ApiError.internal

def validateRecordsObjectRefsAgainstSchema (env : Environment) (schema : DatabaseSchema)
    (records : List DbRecord) : Except ApiError Unit :=
  records.forM fun record => do
    (← badRequest (declaredRecordObjectRefs schema record)).forM env.validateDeclaredObjectRef

/-- The writable shard 0, which is not frozen. -/
def writableShard (env : Environment) (state : AppState P) : Except ApiError Unit :=
  if state.wal.files = [] then internal (bail "WAL shard 0 is not configured") else env.writableShard

structure SchemaApplyRequest where
  schema : DatabaseSchema
  apply : Bool
  persist : Bool
  expectedVersion : Option Nat
  allowBreakingReplay : Bool
  schemaReplayRunId : Option String

/-- What a call has computed when it comes to the commit point. -/
structure Prepared (P : Type) where
  migration : SchemaMigrationPlan
  replayRebuild : Bool
  projectionRebuild : Bool
  staged : Option P
  objectRefs : Option RefState

def prepareSchemaCandidate (store : ProjectionStore P) (env : Environment)
    (request : SchemaApplyRequest) (state : AppState P) : Except ApiError (Prepared P) := do
  let schema := request.schema
  checkExpectedVersion request.expectedVersion state.schema.schema.version
  badRequest schema.validationReport.intoResult
  let migration := SchemaMigrationPlan.between state.schema.schema schema
  let replayRebuild := request.allowBreakingReplay && migration.canReplayRebuild
  let projectionRebuild := replayRebuild || migration.projectionRebuildRequired
  (if !migration.compatible && !replayRebuild then badRequest migration.intoResult else .ok ())
  internal env.readWal
  let messages := messagesFromWalRecords state.wal.records
  let records := recordsFromWalRecords state.wal.records
  env.validateLoadedBehaviorManifests schema
  validateRecordsObjectRefsAgainstSchema env schema records
  let schemaOrders ← badRequest (schemaOrdersByTable schema)
  let rebuilt := internal (buildProjection store records (schemaIndexesByTable schema) schemaOrders)
  (if projectionRebuild then do
    internal env.validateRebuild
    let _ ← rebuilt
    return ()
  else .ok ())
  (if request.apply && request.persist then do
    writableShard env state
    env.preflightPeers
  else .ok ())
  let staged ← (if request.apply && projectionRebuild then do
    internal env.stageRebuild
    let projection ← rebuilt
    return some projection
  else return none)
  let objectRefs ← (if request.apply then do
    let refs ← internal (RefState.fromMessagesAndRecordsForSchema messages records schema)
    return some refs
  else return none)
  (if request.apply && request.persist && request.schemaReplayRunId.isSome then env.markCommitting
  else .ok ())
  return { migration, replayRebuild, projectionRebuild, staged, objectRefs }

/-! ## The commit point -/

/-- The record that `append_schema_applied_wal_record` appends to shard 0. -/
def schemaAppliedRecord (env : Environment) (schema : DatabaseSchema)
    (migration : SchemaMigrationPlan) (lsn : Nat) : WalRecord where
  lsn := lsn
  shard := 0
  shardEpoch := env.shardEpoch
  ownerNodeId := env.ownerNodeId
  timestampMs := env.timestampMs
  schemaVersion := schema.version
  durability := .strict
  payload := .schemaApplied schema migration
  checksum := env.checksum

/-- The log with the record. -/
def AppState.pushSchemaApplied (env : Environment) (schema : DatabaseSchema)
    (migration : SchemaMigrationPlan) (state : AppState P) : AppState P :=
  let wal := state.wal.allocateLsn
  { state with wal := wal.push 0 (schemaAppliedRecord env schema migration wal.nextLsn) le_rfl }

/-- Returns the LSN of the record. -/
def appendSchemaAppliedWalRecord (env : Environment) (schema : DatabaseSchema)
    (migration : SchemaMigrationPlan) : Call P Nat := do
  match env.append with
  | .refused err => check (.error err)
  | .unwritten err =>
    change fun state => { state with wal := state.wal.allocateLsn }
    check (.error err)
  | .unacknowledged err =>
    change (AppState.pushSchemaApplied env schema migration)
    check (.error err)
  | .acknowledged =>
    change (AppState.pushSchemaApplied env schema migration)
    read fun state => state.wal.nextLsn

/-! ## The steps after it -/

def persistCandidate (env : Environment) (schema : DatabaseSchema) : Call P Unit := do
  check (internal env.persistHistory)
  change fun state => { state with schema := state.schema.persistHistorySchema schema }
  check (internal env.persistSchema)
  change fun state => { state with schema := state.schema.persistSchema schema }

/-- The root is renamed. -/
def AppState.backUp (state : AppState P) : AppState P :=
  { state with root := none, backups := state.root.toList ++ state.backups }

/-- The last root that was renamed gets its name back. -/
def AppState.restore (state : AppState P) : AppState P :=
  { state with root := state.backups.head?, backups := state.backups.tail }

/-- The staged directory gets the name of the root. -/
def placeStaged (env : Environment) (staged : P) (hadExistingRoot : Bool) : Call P Unit := do
  match env.renameStaged with
  | .error err =>
    if hadExistingRoot && env.restoreRoot.toOption.isSome then change AppState.restore
    check (.error (ApiError.internal err))
  | .ok () =>
    change fun state => { state with root := some ⟨staged, true⟩ }
    check (internal env.openProjection)

/-- `StagedRecordProjectionRebuild::commit`. -/
def commitStaged (env : Environment) (staged : P) : Call P Unit := do
  let hadExistingRoot ← read fun state => state.root.isSome
  if hadExistingRoot then
    check (internal env.renameRoot)
    change AppState.backUp
  placeStaged env staged hadExistingRoot

/-- `ObjectRefIndex::replace_with`. -/
def replaceObjectRefs (env : Environment) (rebuilt : RefState) : Call P Unit := do
  change fun state => { state with objectRefs := rebuilt }
  check (internal env.persistObjectRefs)

/-- A projection that is read for the first time is bootstrapped. -/
def projectionStatus (store : ProjectionStore P) (env : Environment) : Call P Unit := do
  check (internal env.bootstrap)
  change fun state => { state with root := some ⟨state.projection store, true⟩ }
  check (internal env.projectionStatus)

/-- The candidate replaces the schema. -/
def switchSchema (env : Environment) (request : SchemaApplyRequest) (prepared : Prepared P) :
    Call P Unit := do
  (if request.persist then persistCandidate env request.schema else pure ())
  prepared.staged.forM (commitStaged env)
  prepared.objectRefs.forM (replaceObjectRefs env)
  change fun state => { state with schema := state.schema.apply request.schema }

structure SchemaApplyResponse where
  name : String
  version : Nat
  report : SchemaValidationReport
  migration : SchemaMigrationPlan
  applied : Bool
  persisted : Bool
  replayRebuild : Bool
  breakingReplayAllowed : Bool
  projectionRebuilt : Bool
  schemaAuditLsn : Option Nat

def applySchemaCandidate (store : ProjectionStore P) (env : Environment)
    (request : SchemaApplyRequest) :
    Call P SchemaApplyResponse := do
  let state ← read id
  let prepared ← check (prepareSchemaCandidate store env request state)
  let schemaAuditLsn ← (if request.apply && request.persist then
    do return some (← appendSchemaAppliedWalRecord env request.schema prepared.migration)
  else pure none)
  (if request.apply then switchSchema env request prepared else pure ())
  projectionStatus store env
  return {
    name := request.schema.name
    version := request.schema.version
    report := request.schema.validationReport
    migration := prepared.migration
    applied := request.apply
    persisted := request.apply && request.persist
    replayRebuild := prepared.replayRebuild
    breakingReplayAllowed := request.allowBreakingReplay
    projectionRebuilt := request.apply && prepared.projectionRebuild
    schemaAuditLsn }

/-! ## What a failure leaves -/

/-- The schema that a restart recovers. -/
def AppState.recovered (defaultNextdb : DatabaseSchema) (state : AppState P) :
    Result DatabaseSchema :=
  recoveredSchema defaultNextdb state.schema state.wal.records

/-- Neither the server nor what a restart makes of its disk has changed. -/
structure Unchanged (store : ProjectionStore P) (defaultNextdb : DatabaseSchema)
    (s t : AppState P) :
    Prop where
  active : t.schema.schema = s.schema.schema
  projection : t.projection store = s.projection store
  objectRefs : t.objectRefs = s.objectRefs
  recovered : t.recovered defaultNextdb = s.recovered defaultNextdb

/-- The root was renamed, and neither the new one nor the old one got its name. -/
structure SetAside (env : Environment) (s t : AppState P) : Prop where
  renameStaged : ∃ err, env.renameStaged = .error err
  restoreRoot : ∃ err, env.restoreRoot = .error err
  root : t.root = none
  backup : t.backups.head? = s.root

/-- The projection that a committed candidate has. -/
def Prepared.projection (store : ProjectionStore P) (prepared : Prepared P) (s : AppState P) : P :=
  prepared.staged.getD (s.projection store)

/-- The object refs that a committed candidate has. -/
def Prepared.refs (prepared : Prepared P) (s : AppState P) : RefState :=
  prepared.objectRefs.getD s.objectRefs

/-- The steps up to some point were made: the projection, the object refs and the active schema
are replaced as a whole, each after the one before. -/
inductive Switched (store : ProjectionStore P) (env : Environment) (request : SchemaApplyRequest)
    (prepared : Prepared P) (s t : AppState P) : Prop where
  | nothing (active : t.schema.schema = s.schema.schema)
      (projection : t.projection store = s.projection store ∨ SetAside env s t)
      (objectRefs : t.objectRefs = s.objectRefs)
  | projection (active : t.schema.schema = s.schema.schema)
      (projection : t.projection store = prepared.projection store s)
      (objectRefs : t.objectRefs = s.objectRefs)
  | objectRefs (active : t.schema.schema = s.schema.schema)
      (projection : t.projection store = prepared.projection store s)
      (objectRefs : t.objectRefs = prepared.refs s)
  | schema (active : t.schema.schema = request.schema)
      (projection : t.projection store = prepared.projection store s)
      (objectRefs : t.objectRefs = prepared.refs s)

theorem ends_persistCandidate (env : Environment) (schema : DatabaseSchema) (s : AppState P) :
    let persisted := fun t : AppState P => ∃ registry : SchemaRegistry,
      registry.schema = s.schema.schema ∧ t = { s with schema := registry }
    Ends (persistCandidate env schema) s (fun _ => persisted) fun _ => persisted := by
  intro persisted
  unfold persistCandidate
  cases env.persistHistory with
  | error err => exact ⟨s.schema, rfl, rfl⟩
  | ok =>
    cases env.persistSchema with
    | error err => exact ⟨s.schema.persistHistorySchema schema, rfl, rfl⟩
    | ok => exact ⟨(s.schema.persistHistorySchema schema).persistSchema schema, rfl, rfl⟩

theorem ends_placeStaged (env : Environment) (staged : P) (hadExistingRoot : Bool)
    (s : AppState P) :
    Ends (placeStaged env staged hadExistingRoot) s (fun _ t => t = { s with root := some ⟨staged,
    true⟩ }) fun _ t =>
    t = { s with root := some ⟨staged, true⟩ } ∨ (∃ err, env.renameStaged = .error err) ∧
    (hadExistingRoot = true ∧
    t = s.restore ∨ (hadExistingRoot = true → ∃ err, env.restoreRoot = .error err) ∧ t = s) := by
  unfold placeStaged
  cases hplace : env.renameStaged with
  | ok =>
    cases env.openProjection with
    | ok => rfl
    | error err => exact .inl rfl
  | error err =>
    cases hadExistingRoot with
    | false => exact .inr ⟨⟨err, rfl⟩, .inr ⟨nofun, rfl⟩⟩
    | true =>
      cases hrestore : env.restoreRoot with
      | ok => exact .inr ⟨⟨err, rfl⟩, .inl ⟨rfl, rfl⟩⟩
      | error err' => exact .inr ⟨⟨err, rfl⟩, .inr ⟨fun _ => ⟨err', rfl⟩, rfl⟩⟩

theorem ends_commitStaged (env : Environment) (staged : P) (s : AppState P) :
    Ends (commitStaged env staged) s
    (fun _ t => ∃ backups, t = { s with root := some ⟨staged, true⟩, backups }) fun _ t => ∃ root backups,
    t = { s with root, backups } ∧
    (root = s.root ∨ root = some ⟨staged, true⟩ ∨ SetAside env s t) := by
  unfold commitStaged
  rw [ends_bind, ends_read]
  cases hroot : s.root with
  | none =>
    refine (ends_placeStaged env staged false s).mono ?_ ?_
    · rintro _ t rfl
      exact ⟨s.backups, rfl⟩
    · rintro _ t (rfl | ⟨-, ⟨hf, -⟩ | ⟨-, rfl⟩⟩)
      · exact ⟨_, s.backups, rfl, .inr (.inl rfl)⟩
      · cases hf
      · exact ⟨t.root, t.backups, rfl, .inl hroot⟩
  | some root =>
    cases env.renameRoot with
    | error err => exact ⟨s.root, s.backups, rfl, .inl hroot⟩
    | ok =>
      refine (ends_placeStaged env staged true s.backUp).mono ?_ ?_
      · rintro _ t rfl
        exact ⟨s.backUp.backups, rfl⟩
      · rintro _ t (rfl | ⟨hplace, ⟨-, rfl⟩ | ⟨hrestore, rfl⟩⟩)
        · exact ⟨_, s.backUp.backups, rfl, .inr (.inl rfl)⟩
        · refine ⟨s.backUp.restore.root, s.backUp.restore.backups, rfl, .inl ?_⟩
          simp [AppState.restore, AppState.backUp, hroot]
        · refine ⟨none, s.backUp.backups, rfl, .inr (.inr ⟨hplace, hrestore rfl, rfl, ?_⟩)⟩
          simp [AppState.backUp, hroot]

/-- All steps were made, and the schema is active. -/
structure Complete (store : ProjectionStore P) (request : SchemaApplyRequest)
    (prepared : Prepared P) (s t : AppState P) : Prop where
  active : t.schema.schema = request.schema
  projection : t.projection store = prepared.projection store s
  objectRefs : t.objectRefs = prepared.refs s

theorem ends_commitStep (store : ProjectionStore P) (env : Environment)
    (request : SchemaApplyRequest)
    (prepared : Prepared P) (s u : AppState P) (hactive : u.schema.schema = s.schema.schema)
    (hroot : u.root = s.root)
    (hrefs : u.objectRefs = s.objectRefs) :
    Ends (prepared.staged.forM (commitStaged env)) u (fun _ t => t.wal = u.wal ∧
    t.schema = u.schema ∧ t.objectRefs = u.objectRefs ∧
    t.projection store = prepared.projection store s) fun _ t =>
    t.wal = u.wal ∧ Switched store env request prepared s t := by
  cases hstaged : prepared.staged with
  | none =>
    refine ⟨rfl, rfl, rfl, ?_⟩
    rw [AppState.projection, hroot, Prepared.projection, hstaged]
    rfl
  | some staged =>
    have hnew : ∀ t : AppState P, t.root = some ⟨staged, true⟩ → t.projection store = prepared.projection store s := by
      intro t ht
      rw [AppState.projection, ht, Prepared.projection, hstaged]
      rfl
    refine (ends_commitStaged env staged u).mono ?_ ?_
    · rintro _ t ⟨backups, rfl⟩
      exact ⟨rfl, rfl, rfl, hnew _ rfl⟩
    · rintro _ t ⟨root, backups, rfl, hfound⟩
      refine ⟨rfl, ?_⟩
      rcases hfound with rfl | rfl | haside
      · exact .nothing hactive (.inl (by rw [AppState.projection, AppState.projection, hroot])) hrefs
      · exact .projection hactive (hnew _ rfl) hrefs
      · exact .nothing hactive (.inr ⟨haside.renameStaged, haside.restoreRoot, haside.root, haside.backup.trans hroot⟩)
          hrefs

theorem ends_switchSchema (store : ProjectionStore P) (env : Environment)
    (request : SchemaApplyRequest)
    (prepared : Prepared P) (s u : AppState P) (hactive : u.schema.schema = s.schema.schema)
    (hroot : u.root = s.root)
    (hrefs : u.objectRefs = s.objectRefs) :
    Ends (switchSchema env request prepared) u (fun _ t => t.wal = u.wal ∧
    Complete store request prepared s t) fun _ t => t.wal = u.wal ∧
    Switched store env request prepared s t := by
  have hpersist : Ends (if request.persist then persistCandidate env request.schema else pure ()) u (fun _ t =>
      ∃ registry : SchemaRegistry, registry.schema = s.schema.schema ∧ t = { u with schema := registry }) fun _ t =>
      ∃ registry : SchemaRegistry,
        registry.schema = s.schema.schema ∧ t = { u with schema := registry } := by
    cases request.persist with
    | false => exact ⟨u.schema, hactive, rfl⟩
    | true => exact hactive ▸ ends_persistCandidate env request.schema u
  unfold switchSchema
  refine hpersist.bind ?_ ?_
  · rintro _ _ ⟨registry, hregistry, rfl⟩
    refine (ends_commitStep store env request prepared s { u with schema := registry } hregistry hroot hrefs).bind ?_
      fun _ _ h => h
    rintro _ v ⟨hwal, hschema, hrefs', hprojection⟩
    have hactive' : v.schema.schema = s.schema.schema := (congrArg _ hschema).trans hregistry
    cases hnew : prepared.objectRefs with
    | none =>
      refine ⟨hwal, rfl, hprojection, ?_⟩
      show v.objectRefs = prepared.refs s
      rw [hrefs', Prepared.refs, hnew]
      exact hrefs
    | some objectRefs =>
      have hreplaced : prepared.refs s = objectRefs := by rw [Prepared.refs, hnew]; rfl
      show Ends (replaceObjectRefs env objectRefs >>= _) v _ _
      unfold replaceObjectRefs
      cases env.persistObjectRefs with
      | error err => exact ⟨hwal, .objectRefs hactive' hprojection hreplaced.symm⟩
      | ok => exact ⟨hwal, rfl, hprojection, hreplaced.symm⟩
  · rintro _ _ ⟨registry, hregistry, rfl⟩
    refine ⟨rfl, .nothing hregistry (.inl ?_) hrefs⟩
    rw [AppState.projection, AppState.projection, hroot]

theorem ends_projectionStatus (store : ProjectionStore P) (env : Environment) (s : AppState P) :
    let same := fun t : AppState P => t.wal = s.wal ∧ t.schema = s.schema ∧
      t.objectRefs = s.objectRefs ∧ t.projection store = s.projection store
    Ends (projectionStatus store env) s (fun _ => same) fun _ => same := by
  intro same
  unfold projectionStatus
  cases env.bootstrap with
  | error err => exact ⟨rfl, rfl, rfl, rfl⟩
  | ok =>
    cases env.projectionStatus with
    | error | ok => exact ⟨rfl, rfl, rfl, rfl⟩

variable {s : AppState P} {request : SchemaApplyRequest} {store : ProjectionStore P}
    {env : Environment}
  {prepared : Prepared P}

/-- A call that comes to the commit point has a valid candidate, and a shard to append to. -/
theorem prepareSchemaCandidate_ok (h : prepareSchemaCandidate store env request s = .ok prepared) :
    request.schema.validationReport.ok = true ∧
    (request.apply = true → request.persist = true → s.wal.files ≠ []) := by
  unfold prepareSchemaCandidate at h
  obtain ⟨_, -, h⟩ := bind_eq_ok.mp h
  obtain ⟨_, hvalid, h⟩ := bind_eq_ok.mp h
  obtain ⟨_, -, h⟩ := bind_eq_ok.mp h
  obtain ⟨_, -, h⟩ := bind_eq_ok.mp h
  obtain ⟨_, -, h⟩ := bind_eq_ok.mp h
  obtain ⟨_, -, h⟩ := bind_eq_ok.mp h
  obtain ⟨_, -, h⟩ := bind_eq_ok.mp h
  obtain ⟨_, -, h⟩ := bind_eq_ok.mp h
  obtain ⟨_, hshard, -⟩ := bind_eq_ok.mp h
  refine ⟨?_, fun happly hpersist hfiles => ?_⟩
  · cases hresult : request.schema.validationReport.intoResult with
    | ok => exact SchemaValidationReport.intoResult_eq_ok.mp hresult
    | error err =>
      rw [hresult] at hvalid
      cases hvalid
  · rw [happly, hpersist] at hshard
    obtain ⟨_, hshard, -⟩ := bind_eq_ok.mp hshard
    rw [writableShard, if_pos hfiles] at hshard
    cases hshard

/-- The record is the last that the log returns. -/
theorem records_pushSchemaApplied (env : Environment) (schema : DatabaseSchema)
    (migration : SchemaMigrationPlan)
    (hfiles : s.wal.files ≠ []) :
    (s.pushSchemaApplied env schema migration).wal.records = s.wal.records ++
    [schemaAppliedRecord env schema migration (s.wal.nextLsn + 1)] := by
  refine readRecordsFromWalPaths_push (List.length_pos_iff.mpr hfiles) fun file hfile other hother => ?_
  have hle := s.wal.allocated file hfile other hother
  show other.lsn < s.wal.nextLsn + 1
  omega

theorem lsn_lt_of_mem_records {other : WalRecord} (h : other ∈ s.wal.records) :
    other.lsn < s.wal.nextLsn + 1 := by
  obtain ⟨file, hfile, other', hother, he⟩ := exists_lsn_readRecordsFromWalPaths.mp ⟨other, h, rfl⟩
  have hle := s.wal.allocated file hfile other' hother
  omega

/-- The `SchemaApplied` record is in the log. -/
structure Committed (store : ProjectionStore P) (defaultNextdb : DatabaseSchema) (env : Environment)
    (request : SchemaApplyRequest) (prepared : Prepared P) (s t : AppState P) : Prop where
  logged : t.wal.records = s.wal.records ++
    [schemaAppliedRecord env request.schema prepared.migration (s.wal.nextLsn + 1)]
  recovered : ∀ active, s.recovered defaultNextdb = .ok active → t.recovered defaultNextdb = .ok request.schema
  switched : Switched store env request prepared s t

theorem Committed.of_switched {defaultNextdb : DatabaseSchema} {t : AppState P}
    (hfiles : s.wal.files ≠ []) (hvalid : request.schema.validationReport.ok = true)
    (hwal : t.wal = (s.pushSchemaApplied env request.schema prepared.migration).wal)
    (hswitched : Switched store env request prepared s t) :
    Committed store defaultNextdb env request prepared s t := by
  have hlogged := hwal ▸ records_pushSchemaApplied env request.schema prepared.migration hfiles
  refine ⟨hlogged, fun active hactive => ?_, hswitched⟩
  rw [AppState.recovered, hlogged]
  exact recoverSchemaFromWal_concat hactive hvalid rfl fun other hother => lsn_lt_of_mem_records hother

/-- What a call that fails leaves. -/
def Failed (store : ProjectionStore P) (defaultNextdb : DatabaseSchema) (env : Environment)
    (request : SchemaApplyRequest) (s t : AppState P) : Prop :=
  t.wal.records = s.wal.records ∧ Unchanged store defaultNextdb s t ∨
    ∃ prepared, prepareSchemaCandidate store env request s = .ok prepared ∧
      Committed store defaultNextdb env request prepared s t

/-- An append that fails has written no record, or the one it was to write. -/
theorem ends_appendSchemaApplied (env : Environment) (schema : DatabaseSchema)
    (migration : SchemaMigrationPlan) (s : AppState P) :
    Ends (appendSchemaAppliedWalRecord env schema migration)
    s (fun _ t => t = s.pushSchemaApplied env schema migration) fun _ t => (∃ wal : WalFiles,
    wal.files = s.wal.files ∧ t = { s with wal }) ∨
    t = s.pushSchemaApplied env schema migration := by
  unfold appendSchemaAppliedWalRecord
  cases env.append with
  | refused err => exact .inl ⟨s.wal, rfl, rfl⟩
  | unwritten err => exact .inl ⟨s.wal.allocateLsn, rfl, rfl⟩
  | unacknowledged err => exact .inr rfl
  | acknowledged => rfl

theorem ends_prepare (store : ProjectionStore P) (env : Environment) (request : SchemaApplyRequest)
    (s : AppState P) :
    Ends (check (prepareSchemaCandidate store env request s) : Call P (Prepared P)) s
    (fun prepared t => prepareSchemaCandidate store env request s = .ok prepared ∧
    t = s) fun _ t => t = s :=
  Ends.check (fun _ h => ⟨h, rfl⟩) fun _ _ => rfl

theorem ends_applySchemaCandidate (store : ProjectionStore P) (defaultNextdb : DatabaseSchema)
    (env : Environment) (happly : request.apply = true) (hpersist : request.persist = true)
    (s : AppState P) :
    Ends (applySchemaCandidate store env request) s (fun _ _ => True) fun _ t =>
    Failed store defaultNextdb env request s t := by
  unfold applySchemaCandidate
  rw [ends_bind, ends_read]
  refine (ends_prepare store env request s).bind ?_ ?_
  · rintro prepared s ⟨hprepared, rfl⟩
    obtain ⟨hvalid, hfiles⟩ := prepareSchemaCandidate_ok hprepared
    have hfiles := hfiles happly hpersist
    have hfailed : ∀ {t : AppState P}, t.wal = (s.pushSchemaApplied env request.schema prepared.migration).wal →
        Switched store env request prepared s t → Failed store defaultNextdb env request s t :=
      fun hwal hswitched => .inr ⟨prepared, hprepared, .of_switched hfiles hvalid hwal hswitched⟩
    rw [happly, hpersist]
    have happend : Ends (do return some (← appendSchemaAppliedWalRecord env request.schema prepared.migration))
        s (fun _ t => t = s.pushSchemaApplied env request.schema prepared.migration)
        (fun _ t => (∃ wal : WalFiles, wal.files = s.wal.files ∧ t = { s with wal }) ∨
          t = s.pushSchemaApplied env request.schema prepared.migration) :=
      (ends_appendSchemaApplied env request.schema prepared.migration s).bind (fun _ _ h => h) fun _ _ h => h
    refine happend.bind ?_ ?_
    · rintro _ _ rfl
      rw [if_pos rfl]
      refine (ends_switchSchema store env request prepared s
        (s.pushSchemaApplied env request.schema prepared.migration) rfl rfl rfl).bind ?_ ?_
      · rintro _ t ⟨hwal, hcomplete⟩
        refine (ends_projectionStatus store env t).bind (fun _ _ _ => trivial) ?_
        rintro _ u ⟨hwal', hschema, hrefs, hprojection⟩
        exact hfailed (hwal'.trans hwal) (.schema ((congrArg _ hschema).trans hcomplete.active)
          (hprojection.trans hcomplete.projection) (hrefs.trans hcomplete.objectRefs))
      · rintro _ t ⟨hwal, hswitched⟩
        exact hfailed hwal hswitched
    · rintro _ _ (⟨wal, hwal, rfl⟩ | rfl)
      · have hrecords : wal.records = s.wal.records := congrArg readRecordsFromWalPaths hwal
        refine .inl ⟨hrecords, rfl, rfl, rfl, ?_⟩
        show recoveredSchema defaultNextdb s.schema wal.records = _
        rw [hrecords]
        rfl
      · exact hfailed rfl (.nothing rfl (.inl rfl) rfl)
  · rintro _ _ rfl
    exact .inl ⟨rfl, rfl, rfl, rfl, rfl⟩

/-- A call that fails has changed nothing, or has committed: then recovery restores the candidate,
and each part of the state is the old one or the candidate's. -/
theorem applySchemaCandidate_err {store : ProjectionStore P} (defaultNextdb : DatabaseSchema)
    {env : Environment}
    {request : SchemaApplyRequest} {s t : AppState P} {err : ApiError}
    (happly : request.apply = true)
    (hpersist : request.persist = true)
    (h : exec (applySchemaCandidate store env request) s = (.error err, t)) :
    t.wal.records = s.wal.records ∧ Unchanged store defaultNextdb s t ∨
    ∃ prepared, prepareSchemaCandidate store env
    request s = .ok prepared ∧ Committed store defaultNextdb env request prepared s t :=
  (ends_applySchemaCandidate store defaultNextdb env happly hpersist s).of_error h

/-! ## A full disk -/

/-- Every step succeeds but the writing of the history file. -/
def fullDisk : Environment where
  readWal := .ok ()
  validateLoadedBehaviorManifests _ := .ok ()
  validateDeclaredObjectRef _ := .ok ()
  validateRebuild := .ok ()
  writableShard := .ok ()
  preflightPeers := .ok ()
  stageRebuild := .ok ()
  markCommitting := .ok ()
  append := .acknowledged
  shardEpoch := 1
  ownerNodeId := "a"
  timestampMs := 0
  checksum := none
  persistHistory := bail "No space left on device"
  persistSchema := .ok ()
  renameRoot := .ok ()
  renameStaged := .ok ()
  restoreRoot := .ok ()
  openProjection := .ok ()
  persistObjectRefs := .ok ()
  bootstrap := .ok ()
  projectionStatus := .ok ()

def postsState : AppState (List (DbRecord × List String)) where
  schema := ⟨some postsCurrent, ∅, postsCurrent⟩
  wal := ⟨[([], [])], 0, by simp⟩
  root := none
  backups := []
  objectRefs := ⟨∅⟩

def postsRequest : SchemaApplyRequest := ⟨postsCandidate, true, true, none, false, none⟩

/-- The state that the call leaves. -/
def postsFailed : AppState (List (DbRecord × List String)) :=
  (exec (applySchemaCandidate postsStore fullDisk postsRequest) postsState).2

theorem exec_fullDisk :
    ∃ err, exec (applySchemaCandidate postsStore fullDisk postsRequest) postsState =
    (.error err, postsFailed) := by
  have hfails : (exec (applySchemaCandidate postsStore fullDisk postsRequest) postsState).1.toOption.isNone = true :=
      by decide +kernel
  unfold postsFailed
  generalize exec (applySchemaCandidate postsStore fullDisk postsRequest) postsState = r at hfails ⊢
  obtain ⟨_ | _, t⟩ := r
  · exact ⟨_, rfl⟩
  · cases hfails

theorem applySchemaCandidate_err_sample :
    postsFailed.wal.records = postsState.wal.records ∧
    Unchanged postsStore postsCurrent postsState postsFailed ∨
    ∃ prepared, prepareSchemaCandidate postsStore fullDisk postsRequest postsState = .ok prepared ∧
    Committed postsStore postsCurrent fullDisk postsRequest prepared postsState postsFailed := by
  obtain ⟨err, h⟩ := exec_fullDisk
  exact applySchemaCandidate_err postsCurrent rfl rfl h

/-- The call fails, and a restart recovers the candidate. -/
theorem applySchemaCandidate_not_atomic : ¬∀ (defaultNextdb : DatabaseSchema) (env : Environment)
    (request : SchemaApplyRequest) (s t : AppState (List (DbRecord × List String))) (err : ApiError), request.apply =
    true → request.persist = true → exec (applySchemaCandidate postsStore env request) s =
    (.error err, t) →
    Unchanged postsStore defaultNextdb s t := by
  intro h
  obtain ⟨err, herr⟩ := exec_fullDisk
  have hsame := (h postsCurrent fullDisk postsRequest postsState postsFailed err rfl rfl herr).recovered
  have hbefore : postsState.recovered postsCurrent = .ok postsCurrent := by decide +kernel
  have hafter : postsFailed.recovered postsCurrent = .ok postsCandidate := by decide +kernel
  rw [hbefore, hafter] at hsame
  exact absurd hsame (by decide +kernel)

end NextDb.Api.ApplySchema
