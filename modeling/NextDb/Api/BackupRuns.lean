import Mathlib.Data.List.Count
import NextDb.Api.ObjectPut
import NextDb.Lib.Fallible

/-!
# Backup runs and their retention

A backup run continues the chain of bundles with the highest LSN among those on disk, archives its
bundle as an object, and is entered in the catalog with the ids of the whole chain. A retention call
removes the bundles and the archives of the runs that it does not keep, and then the runs.

* `chains_kept`: each bundle of a run in the catalog is on disk, with the objects it was archived
  as, in every run of the system in which a retention call that deletes archives removes no run
  whose bundle is in a chain that it keeps, and no retention call fails after it has removed
  something.
-/

namespace NextDb.Api.BackupRuns

open Fallible Run List Option Std.ExtTreeMap
open ObjectPut (ensureSafeObjectId)

/-! ## Bundles on disk -/

structure ExportManifest where
  incremental : Bool
  baseLsn : Nat
  currentLsn : Nat
deriving DecidableEq

/-- What the listing finds in a bundle's directory. -/
structure ExportBundle where
  ok : Bool
  manifest : Option ExportManifest
deriving DecidableEq

structure ExportBundleListEntry where
  id : String
  ok : Bool
  manifest : Option ExportManifest

/-- An id of letters, digits, `-` and `_` is a path of one component unless it is empty. -/
def ensureSafeExportBundleId (id : String) : Bool :=
  !id.isEmpty && id.toList.all fun char => char.isAlphanum || char == '-' || char == '_'

def readExportBundleEntries (exportRoot : BTreeMap String ExportBundle) :
    List ExportBundleListEntry :=
  ((exportRoot.toList.filter fun entry => ensureSafeExportBundleId entry.1).map
    fun entry => ⟨entry.1, entry.2.ok, entry.2.manifest⟩).reverse

/-- An item takes the place of the best one so far when it is preferred to it. -/
def keepBest {α : Type} (prefer : α → α → Bool) (best : Option α) (item : α) : Option α :=
  if best.all (prefer · item) then some item else best

variable {α : Type} {nextLsn : Nat} {objectId : String}

theorem mem_of_foldl_keepBest {prefer : α → α → Bool} {items : List α} {best : Option α} {b : α}
    (h : items.foldl (keepBest prefer) best = some b) : best = some b ∨ b ∈ items := by
  induction items generalizing best with
  | nil => exact .inl h
  | cons item items ih =>
    rcases ih h with hbest | hmem
    · unfold keepBest at hbest
      split at hbest
      · cases hbest
        exact .inr mem_cons_self
      · exact .inl hbest
    · exact .inr (mem_cons_of_mem _ hmem)

/-- `Iterator::max_by_key`: the last of the greatest. -/
def maxByKey {α : Type} (key : α → Nat) (items : List α) : Option α :=
  items.foldl (keepBest fun b item => key b ≤ key item) none

theorem mem_of_maxByKey {key : α → Nat} {items : List α} {item : α}
    (h : maxByKey key items = some item) :
    item ∈ items :=
  (mem_of_foldl_keepBest h).resolve_left nofun

/-- The bundles that continue a chain that has come to an LSN. -/
def nextBundles (entries : List ExportBundleListEntry) (currentLsn : Nat) :
    List (ExportBundleListEntry × Nat) :=
  entries.filterMap fun candidate => do
    let manifest ← candidate.manifest
    if !candidate.ok || !manifest.incremental || manifest.baseLsn ≠ currentLsn ||
        manifest.currentLsn ≤ currentLsn then none
    else some (candidate, manifest.currentLsn)

variable {entries : List ExportBundleListEntry} {currentLsn : Nat}

theorem mem_nextBundles {next : ExportBundleListEntry}
    (h : (next, nextLsn) ∈ nextBundles entries currentLsn) :
    next ∈ entries ∧ next.ok = true ∧ next.manifest = some ⟨true, currentLsn, nextLsn⟩ ∧
    currentLsn < nextLsn := by
  obtain ⟨candidate, hcandidate, h⟩ := mem_filterMap.mp h
  obtain ⟨manifest, hmanifest, h⟩ := bind_eq_some_iff.mp h
  split at h
  · cases h
  · next hcheck =>
    cases h
    simp at hcheck
    obtain ⟨⟨⟨hok, hincremental⟩, hbase⟩, hlt⟩ := hcheck
    refine ⟨hcandidate, hok, ?_, hlt⟩
    rw [hmanifest, ← hbase, ← hincremental]

/-- The bundles above an LSN, of which a chain can still take one at a time. -/
def bundlesAbove (entries : List ExportBundleListEntry) (lsn : Nat) : List ExportBundleListEntry :=
  entries.filter fun entry => entry.manifest.any fun manifest => lsn < manifest.currentLsn

theorem bundlesAbove_lt {next : ExportBundleListEntry}
    (h : (next, nextLsn) ∈ nextBundles entries currentLsn) :
    (bundlesAbove entries nextLsn).length < (bundlesAbove entries currentLsn).length := by
  obtain ⟨hmem, -, hmanifest, hlt⟩ := mem_nextBundles h
  have hsub : bundlesAbove entries nextLsn = (bundlesAbove entries currentLsn).filter fun entry =>
        entry.manifest.any fun manifest => nextLsn < manifest.currentLsn := by
    unfold bundlesAbove
    rw [List.filter_filter]
    refine List.filter_congr fun entry _ => ?_
    cases entry.manifest with
    | none => rfl
    | some manifest =>
      simp
      omega
  rw [hsub, ← countP_eq_length_filter]
  refine lt_of_le_of_ne countP_le_length fun heq => ?_
  have hall := (countP_eq_length.mp heq) next (mem_filter.mpr ⟨hmem, by simp [hmanifest, hlt]⟩)
  simp [hmanifest] at hall

/-- The chain as far as the bundles continue it, and its LSN. -/
def continueChain (entries : List ExportBundleListEntry) (ids : List String) (currentLsn : Nat) :
    List String × Nat :=
  match _hnext : maxByKey Prod.snd (nextBundles entries currentLsn) with
  | none => (ids, currentLsn)
  | some (next, nextLsn) => continueChain entries (ids ++ [next.id]) nextLsn
termination_by (bundlesAbove entries currentLsn).length
decreasing_by exact bundlesAbove_lt (mem_of_maxByKey _hnext)

structure LatestExportBundleChain where
  bundleIds : List String
  lastCurrentLsn : Nat

/-- The chain that starts at a full bundle. -/
def chainOf (entries : List ExportBundleListEntry) (entry : ExportBundleListEntry) :
    Option LatestExportBundleChain := do
  let manifest ← entry.manifest
  if !entry.ok || manifest.incremental || manifest.baseLsn ≠ 0 then none
  else
    let (ids, currentLsn) := continueChain entries [entry.id] manifest.currentLsn
    some ⟨ids, currentLsn⟩

def latestExportBundleChainIds (entries : List ExportBundleListEntry) :
    Option LatestExportBundleChain :=
  (entries.filterMap (chainOf entries)).foldl
    (keepBest fun best chain => best.lastCurrentLsn < chain.lastCurrentLsn) none

theorem mem_continueChain {ids : List String} {id : String}
    (h : id ∈ (continueChain entries ids currentLsn).1) :
    id ∈ ids ∨ ∃ entry ∈ entries, entry.id = id := by
  fun_induction continueChain entries ids currentLsn with
  | case1 => exact .inl h
  | case2 ids currentLsn next nextLsn hnext ih =>
    rcases ih h with hmem | hmem
    · rcases mem_append.mp hmem with hmem | hmem
      · exact .inl hmem
      · rw [mem_singleton.mp hmem]
        exact .inr ⟨next, (mem_nextBundles (mem_of_maxByKey hnext)).1, rfl⟩
    · exact .inr hmem

theorem mem_latestExportBundleChainIds {chain : LatestExportBundleChain}
    (h : latestExportBundleChainIds entries = some chain) {id : String}
    (hid : id ∈ chain.bundleIds) :
    ∃ entry ∈ entries, entry.id = id := by
  obtain ⟨entry, hentry, hchain⟩ := mem_filterMap.mp ((mem_of_foldl_keepBest h).resolve_left nofun)
  obtain ⟨manifest, -, hchain⟩ := bind_eq_some_iff.mp hchain
  split at hchain
  · cases hchain
  · cases hchain
    rcases mem_continueChain hid with hmem | hmem
    · exact ⟨entry, hentry, (mem_singleton.mp hmem).symm⟩
    · exact hmem

theorem contains_of_mem_entries {exportRoot : BTreeMap String ExportBundle}
    {entry : ExportBundleListEntry}
    (h : entry ∈ readExportBundleEntries exportRoot) : exportRoot.contains entry.id = true := by
  obtain ⟨⟨id, bundle⟩, hmem, rfl⟩ := mem_map.mp (mem_reverse.mp h)
  have hget := mem_toList_iff_getElem?_eq_some.mp (mem_filter.mp hmem).1
  exact contains_iff_mem.mpr (mem_iff_isSome_getElem?.mpr (by rw [hget]; rfl))

/-! ## The server's part -/

structure ExportBackupRunRecord where
  id : String
  createdAtMs : Nat
  mode : String
  baseLsn : Nat
  currentLsn : Nat
  noOp : Bool
  bundleId : Option String
  objectId : Option String
  chainBundleIds : List String
  chainOk : Option Bool

structure StoredObject where
  metadata : ObjectMetadata
  /-- The bundle whose archive the body is. -/
  bundleId : Option String

/-- The bundles, the objects and the catalog of runs. -/
structure BackupState where
  currentLsn : Nat
  exportRoot : BTreeMap String ExportBundle
  objects : BTreeMap String StoredObject
  clientMutations : BTreeMap String CommittedMutation
  exportBackupRuns : List ExportBackupRunRecord
  /-- `backup-runs.json`. -/
  runsFile : List ExportBackupRunRecord
  /-- The bundles on disk that have been archived, each with the object it was archived as. -/
  archived : List (String × String)

abbrev Call (α : Type) := Task BackupState ApiError α

structure ExportBackupRunRequest where
  forceFull : Option Bool
  archiveObject : Option Bool
  objectId : Option String
  clientMutationId : Option String

structure ExportBackupRetentionRequest where
  dryRun : Option Bool
  keepLast : Option Nat
  beforeTimestampMs : Option Nat
  deleteBundles : Option Bool
  deleteArchiveObjects : Option Bool

/-- How the creation of a bundle ends. -/
inductive CreateOutcome where
  /-- Nothing was written. -/
  | refused (err : ApiError)
  /-- A part of the bundle was written. -/
  | torn (bundle : ExportBundle) (err : ApiError)
  /-- The bundle was written, as the listing finds it. -/
  | written (ok : Bool)

/-- How the upload of an archive object ends. -/
inductive PutOutcome where
  | refused (err : ApiError)
  /-- The object was written and is rolled back, or its rollback fails. -/
  | uncommitted (rolledBack : Bool) (err : ApiError)
  | committed

/-- What a backup run meets outside of the modelled state. -/
structure RunEnv where
  runId : String
  nowMs : Nat
  /-- The LSN of the manifest, which is read after the one of the run. -/
  manifestLsn : Nat
  create : CreateOutcome
  contentType : String
  byteSize : Nat
  sha256 : String
  put : PutOutcome
  /-- Whether the chain is found to be without problems. -/
  verify : Except ApiError Bool
  persist : Except ApiError Unit

/-- How the deletion of an archive object, or of a bundle's directory, ends. -/
inductive DeleteOutcome where
  /-- Nothing was done. -/
  | refused (err : ApiError)
  /-- The delete is in the log, and the object was not removed. -/
  | unremoved (err : ApiError)
  /-- It was removed, and the call fails, or the server stops. -/
  | removed (err : ApiError)
  | done

/-- What the calls of a retention answer. -/
structure RetentionEnv where
  nowMs : Nat
  removeDir : String → DeleteOutcome
  deleteObject : String → DeleteOutcome
  persist : Except ApiError Unit

/-! ## Backup runs -/

def persistExportBackupRuns (persist : Except ApiError Unit) : Call Unit := do
  check persist
  change fun s => { s with runsFile := s.exportBackupRuns }

def appendExportBackupRun (persist : Except ApiError Unit) (record : ExportBackupRunRecord) :
    Call ExportBackupRunRecord := do
  change fun s => { s with exportBackupRuns := s.exportBackupRuns ++ [record] }
  persistExportBackupRuns persist
  return record

def exportBundleId (nowMs baseLsn manifestLsn : Nat) : String :=
  if baseLsn > 0 then s!"export-{nowMs}-lsn-{baseLsn + 1}-{manifestLsn}" else s!"export-{nowMs}-lsn-{manifestLsn}"

def createExportBundle (env : RunEnv) (baseLsn : Nat) : Call String := do
  let s ← read id
  if baseLsn > s.currentLsn then
    check (.error (ApiError.badRequest s!"baseLsn {baseLsn} is ahead of current LSN {s.currentLsn}"))
  else
    let bundleId := exportBundleId env.nowMs baseLsn env.manifestLsn
    match env.create with
    | .refused err => check (.error err)
    | .torn bundle err => do
      change fun s => { s with exportRoot := s.exportRoot.insert bundleId bundle }
      check (.error err)
    | .written ok => do
      let bundle := ⟨ok, some ⟨decide (baseLsn > 0), baseLsn, env.manifestLsn⟩⟩
      change fun s => { s with exportRoot := s.exportRoot.insert bundleId bundle }
      return bundleId

/-- A mutation's record is appended, and remembered under the client's id. -/
def noteMutation (clientMutationId : Option String) (mutation : Nat → CommittedMutation)
    (s : BackupState) :
    BackupState :=
  { s with
    currentLsn := s.currentLsn + 1
    clientMutations := match clientMutationId with
      | none => s.clientMutations
      | some clientMutationId => s.clientMutations.insert clientMutationId (mutation (s.currentLsn + 1)) }

def insertObject (bundleId : String) (metadata : ObjectMetadata) (s : BackupState) : BackupState :=
  { s with objects := s.objects.insert metadata.id ⟨metadata, some bundleId⟩ }

/-- `commit_object_put` with the archive of a bundle. -/
def commitObjectPut (env : RunEnv) (bundleId objectId : String) (clientMutationId : Option String) :
    Call ObjectMetadata := do
  let clientMutationId ← check (normalizeClientMutationId clientMutationId)
  let s ← read id
  match findCommittedMutation s.clientMutations clientMutationId with
  | some (.objectCommitted object) => return object
  | some _ => check (.error (ApiError.conflict "clientMutationId was already used for a different mutation kind"))
  | none =>
    if !ensureSafeObjectId objectId then check (.error (ApiError.badRequest "invalid objectId"))
    else if s.objects.contains objectId then check (.error (ApiError.conflict "object id already exists"))
    else
      let metadata : ObjectMetadata :=
        ⟨objectId, s!"objects/{objectId}", env.contentType, env.byteSize, env.sha256, env.nowMs⟩
      match env.put with
      | .refused err => check (.error err)
      | .uncommitted rolledBack err => do
        if !rolledBack then change (insertObject bundleId metadata)
        check (.error err)
      | .committed => do
        change (insertObject bundleId metadata)
        change (noteMutation clientMutationId fun _ => .objectCommitted metadata)
        change fun s => { s with archived := (bundleId, objectId) :: s.archived }
        return metadata

def archiveExportBundleToObject (env : RunEnv) (bundleId : String)
    (objectId clientMutationId : Option String) :
    Call ObjectMetadata := do
  if !ensureSafeExportBundleId bundleId then check (.error (ApiError.badRequest "invalid export bundle id"))
  else
    let s ← read id
    if !s.exportRoot.contains bundleId then check (.error (ApiError.notFound "export bundle not found"))
    else
      let objectId := objectId.getD s!"export-bundle-{bundleId}"
      if !ensureSafeObjectId objectId then check (.error (ApiError.badRequest "invalid objectId"))
      else commitObjectPut env bundleId objectId clientMutationId

/-- The LSN that a run starts from. -/
def runBaseLsn (request : ExportBackupRunRequest) (chain : Option LatestExportBundleChain) : Nat :=
  if request.forceFull.getD false then 0 else (chain.map (·.lastCurrentLsn)).getD 0

/-- The bundles that a run starts from. -/
def runBaseIds (request : ExportBackupRunRequest) (chain : Option LatestExportBundleChain) :
    List String :=
  if runBaseLsn request chain = 0 then [] else (chain.map (·.bundleIds)).getD []

def archiveRunBundle (request : ExportBackupRunRequest) (env : RunEnv) (bundleId : String) :
    Call (Option ObjectMetadata) :=
  if request.archiveObject.getD true then
    some <$> archiveExportBundleToObject env bundleId request.objectId request.clientMutationId
  else return none

/-- A run that finds nothing above its base verifies the chain, if there is one. -/
def verifyExistingChain (env : RunEnv) : Option LatestExportBundleChain → Call (Option Bool)
  | none => return none
  | some _ => some <$> check env.verify

def buildExportBackupRunRecord (env : RunEnv) (baseLsn currentLsn : Nat) (noOp : Bool)
    (bundleId objectId : Option String)
    (chainBundleIds : List String) (chainOk : Option Bool) : ExportBackupRunRecord where
  id := env.runId
  createdAtMs := env.nowMs
  mode := if baseLsn > 0 then "incremental" else "full"
  baseLsn
  currentLsn
  noOp
  bundleId
  objectId
  chainBundleIds
  chainOk

/-- A run, from the chain on disk and the LSN that it has read. -/
def runFromChain (request : ExportBackupRunRequest) (env : RunEnv)
    (existing : Option LatestExportBundleChain) (currentLsn : Nat) : Call ExportBackupRunRecord :=
  let baseLsn := runBaseLsn request existing
  if !request.forceFull.getD false && baseLsn == currentLsn then do
    let chainOk ← verifyExistingChain env existing
    appendExportBackupRun env.persist
      (buildExportBackupRunRecord env baseLsn currentLsn true none none ((existing.map (·.bundleIds)).getD []) chainOk)
  else do
    let bundleId ← createExportBundle env baseLsn
    let archived ← archiveRunBundle request env bundleId
    let chainOk ← check env.verify
    appendExportBackupRun env.persist
      (buildExportBackupRunRecord env baseLsn currentLsn false (some bundleId) (archived.map (·.id))
        (runBaseIds request existing ++ [bundleId]) (some chainOk))

def runExportBackup (request : ExportBackupRunRequest) (env : RunEnv) :
    Call ExportBackupRunRecord := do
  let s ← read id
  runFromChain request env (latestExportBundleChainIds (readExportBundleEntries s.exportRoot)) s.currentLsn

/-! ## Retention -/

/-- A run that a retention call keeps, by its place in the order of the newest first. -/
def keepsRun (request : ExportBackupRetentionRequest) (index : Nat) (run : ExportBackupRunRecord) :
    Bool :=
  request.keepLast.any (index < ·) || request.beforeTimestampMs.any (· < run.createdAtMs)

/-- The catalog, the newest run first, as the stable `sort_by_key` leaves it. -/
def newestFirst (runs : List ExportBackupRunRecord) : List ExportBackupRunRecord :=
  runs.insertionSort fun a b => b.createdAtMs ≤ a.createdAtMs

def retainedRuns (request : ExportBackupRetentionRequest) (runs : List ExportBackupRunRecord) :
    List ExportBackupRunRecord :=
  ((newestFirst runs).zipIdx.filter fun run => keepsRun request run.2 run.1).map Prod.fst

def candidateRuns (request : ExportBackupRetentionRequest) (runs : List ExportBackupRunRecord) :
    List ExportBackupRunRecord :=
  ((newestFirst runs).zipIdx.filter fun run => !keepsRun request run.2 run.1).map Prod.fst

def protectedBundles (retained : List ExportBackupRunRecord) : List String :=
  retained.flatMap fun run => run.bundleId.toList ++ run.chainBundleIds

def protectedArchiveObjects (retained : List ExportBackupRunRecord) : List String :=
  retained.filterMap (·.objectId)

/-- What a retention deletes. -/
inductive Deletion where
  | bundle (id : String)
  | archive (id : String)
deriving DecidableEq

/-- What is deleted for a run, after what was deleted for the runs before. -/
def deletionsOf (request : ExportBackupRetentionRequest) (retained : List ExportBackupRunRecord)
    (deleted : List Deletion) (run : ExportBackupRunRecord) : List Deletion :=
  let bundles := if request.deleteBundles.getD true then
      run.bundleId.toList.filter fun id => !(protectedBundles retained).contains id && !deleted.contains (.bundle id)
    else []
  let objects := if request.deleteArchiveObjects.getD false then
      run.objectId.toList.filter fun id =>
        !(protectedArchiveObjects retained).contains id && !deleted.contains (.archive id)
    else []
  deleted ++ bundles.map .bundle ++ objects.map .archive

/-- What a retention call deletes, in order. -/
def retentionDeletions (request : ExportBackupRetentionRequest)
    (runs : List ExportBackupRunRecord) : List Deletion :=
  (candidateRuns request runs).foldl (deletionsOf request (retainedRuns request runs)) []

def eraseBundle (bundleId : String) (s : BackupState) : BackupState :=
  { s with
    exportRoot := s.exportRoot.erase bundleId
    archived := s.archived.filter fun entry => entry.1 ≠ bundleId }

/-- A removal, after the log has it. -/
def meetOutcome (outcome : DeleteOutcome) (note remove : BackupState → BackupState) : Call Unit :=
  match outcome with
  | .refused err => check (.error err)
  | .unremoved err => do
    change note
    check (.error err)
  | .removed err => do
    change note
    change remove
    check (.error err)
  | .done => do
    change note
    change remove

def removeExportBundleDir (outcome : DeleteOutcome) (bundleId : String) : Call Unit :=
  if !ensureSafeExportBundleId bundleId then check (.error (ApiError.badRequest "invalid export bundle id"))
  else meetOutcome outcome id (eraseBundle bundleId)

def eraseObject (objectId : String) (s : BackupState) : BackupState :=
  { s with objects := s.objects.erase objectId }

/-- The record of a delete, which had an object to delete or had none. -/
def noteObjectDeleted (nowMs : Nat) (objectId : String) (clientMutationId : Option String)
    (s : BackupState) :
    BackupState :=
  let deleted := s.objects.contains objectId
  if !deleted && clientMutationId.isNone then s
  else noteMutation clientMutationId (fun lsn => .objectDeleted
    ⟨objectId, deleted, lsn, if deleted then some nowMs else none, s!"objects/{objectId}"⟩) s

/-- `commit_object_delete` with `force`. -/
def commitObjectDelete (nowMs : Nat) (outcome : DeleteOutcome) (objectId : String)
    (clientMutationId : Option String) :
    Call Unit := do
  if !ensureSafeObjectId objectId then check (.error (ApiError.badRequest "invalid object id"))
  else
    let clientMutationId ← check (normalizeClientMutationId clientMutationId)
    let s ← read id
    match findCommittedMutation s.clientMutations clientMutationId with
    | some (.objectDeleted _) => return ()
    | some _ => check (.error (ApiError.conflict "clientMutationId was already used for a different mutation kind"))
    | none => meetOutcome outcome (noteObjectDeleted nowMs objectId clientMutationId) (eraseObject objectId)

def executeDeletion (env : RetentionEnv) : Deletion → Call Unit
  | .bundle id => removeExportBundleDir (env.removeDir id) id
  | .archive id => commitObjectDelete env.nowMs (env.deleteObject id) id (some s!"export-backup-retention-{id}")

/-- The candidates leave the catalog. -/
def dropCandidates (persist : Except ApiError Unit) (candidates : List ExportBackupRunRecord) :
    Call Unit := do
  change fun s =>
    { s with exportBackupRuns := s.exportBackupRuns.filter fun run => !(candidates.map (·.id)).contains run.id }
  persistExportBackupRuns persist

def retainExportBackups (request : ExportBackupRetentionRequest) (env : RetentionEnv) : Call Unit :=
  do
  if request.keepLast.isNone && request.beforeTimestampMs.isNone then
    check (.error (ApiError.badRequest "provide keepLast or beforeTimestampMs for backup retention"))
  else
    let s ← read id
    if request.dryRun.getD true then return ()
    else
      (retentionDeletions request s.exportBackupRuns).forM (executeDeletion env)
      let candidates := candidateRuns request s.exportBackupRuns
      if candidates.isEmpty then return ()
      else
        dropCandidates env.persist candidates

/-! ## Runs of the system -/

/-- A write, a backup run, a retention or a restart. -/
inductive BackupEvent where
  /-- Other writes are committed. -/
  | write (lsn : Nat)
  | run (request : ExportBackupRunRequest) (env : RunEnv)
  | retain (request : ExportBackupRetentionRequest) (env : RetentionEnv)
  | restart

def next (s : BackupState) : BackupEvent → BackupState
  | .write lsn => { s with currentLsn := max s.currentLsn lsn }
  | .run request env => (exec (runExportBackup request env) s).2
  | .retain request env => (exec (retainExportBackups request env) s).2
  | .restart => { s with exportBackupRuns := s.runsFile }

/-- The steps of `next` as a relation. -/
def BackupStep (s : BackupState) (e : BackupEvent) (t : BackupState) : Prop := t = next s e

/-- The object holds the archive of the bundle. -/
def BackupState.HasArchive (s : BackupState) (bundleId objectId : String) : Prop :=
  ∃ object, s.objects[objectId]? = some object ∧ object.bundleId = some bundleId

/-- A bundle has the objects that it was archived as. -/
def BackupState.Whole (s : BackupState) (bundleId : String) : Prop :=
  ∀ objectId, (bundleId, objectId) ∈ s.archived → s.HasArchive bundleId objectId

/-- The bundles of a run's chain are on disk, with their archives. -/
def BackupState.Kept (s : BackupState) (run : ExportBackupRunRecord) : Prop :=
  ∀ id ∈ run.chainBundleIds, s.exportRoot.contains id = true ∧ s.Whole id

/-- A deletion whose checks pass. -/
def Deletion.Passes (s : BackupState) : Deletion → Prop
  | .bundle id => ensureSafeExportBundleId id = true
  | .archive id => ensureSafeObjectId id = true ∧
    ∃ mutationId, normalizeClientMutationId (some s!"export-backup-retention-{id}") =
    .ok mutationId ∧
      ∀ mutation, findCommittedMutation s.clientMutations mutationId = some mutation →
        ∃ response, mutation = .objectDeleted response

def RetentionEnv.outcome (env : RetentionEnv) : Deletion → DeleteOutcome
  | .bundle id => env.removeDir id
  | .archive id => env.deleteObject id

/-- A deletion that a client mutation has been remembered for. -/
def Deletion.Answered (s : BackupState) : Deletion → Prop
  | .bundle _ => False
  | .archive id => ∃ mutationId response,
    normalizeClientMutationId (some s!"export-backup-retention-{id}") = .ok mutationId ∧
      findCommittedMutation s.clientMutations mutationId = some (.objectDeleted response)

/-- The deletion ends before the object is removed. -/
def DeleteOutcome.FailsBefore : DeleteOutcome → Prop
  | .refused _ | .unremoved _ => True
  | _ => False

/-- The deletion fails and leaves everything in place. -/
def Deletion.Refused (s : BackupState) (env : RetentionEnv) (deletion : Deletion) : Prop :=
  ¬ deletion.Passes s ∨ ¬ deletion.Answered s ∧ (env.outcome deletion).FailsBefore

/-- A retention call comes to its end, or its first deletion fails and removes nothing. -/
def AllOrNothing (s : BackupState) (env : RetentionEnv) (deletions : List Deletion) : Prop :=
  (∀ deletion ∈ deletions, deletion.Passes s ∧ env.outcome deletion = .done) ∧ env.persist = .ok () ∨
    ∀ deletion ∈ deletions.head?, deletion.Refused s env

/-- The client's id has been remembered for no archive. -/
def FreshMutation (s : BackupState) (clientMutationId : Option String) : Prop :=
  ∀ mutationId, normalizeClientMutationId clientMutationId = .ok mutationId →
    ∀ object, findCommittedMutation s.clientMutations mutationId ≠ some (.objectCommitted object)

/-- A retention call leaves the archives in place, or the runs that it removes have archived no
bundle in the chain of a run that it keeps. -/
def SparesChains (request : ExportBackupRetentionRequest) (runs : List ExportBackupRunRecord) :
    Prop :=
  request.deleteArchiveObjects.getD false = false ∨
    ∀ removed ∈ candidateRuns request runs, removed.objectId.isSome → ∀ id, removed.bundleId = some id →
      ∀ run ∈ retainedRuns request runs, id ∉ run.chainBundleIds

/-- A run continues bundles that have their archives, and archives its own under a new client id; a
retention call that fails has removed nothing, and none deletes the archives of removed runs on
which kept ones depend. -/
def KeepsArchives (s : BackupState) : BackupEvent → Prop
  | .run request env =>
    let existing := latestExportBundleChainIds (readExportBundleEntries s.exportRoot)
    (request.forceFull.getD false = false → ∀ chain, existing = some chain → ∀ id ∈ chain.bundleIds, s.Whole id) ∧
      s.Whole (exportBundleId env.nowMs (runBaseLsn request existing) env.manifestLsn) ∧
      (request.archiveObject.getD true = true → FreshMutation s request.clientMutationId)
  | .retain request env => request.dryRun.getD true = true ∨
    AllOrNothing s env (retentionDeletions request s.exportBackupRuns) ∧ SparesChains request s.exportBackupRuns
  | _ => True

/-- A server before its first backup run. -/
structure Fresh (s : BackupState) : Prop where
  runs : s.exportBackupRuns = []
  file : s.runsFile = []
  archived : s.archived = []

/-! ## What a backup run keeps -/

/-- Bundles and objects were added, and the catalog is as it was. -/
structure Extends (s t : BackupState) : Prop where
  bundles : ∀ id, s.exportRoot.contains id = true → t.exportRoot.contains id = true
  archives : ∀ id objectId, s.HasArchive id objectId → t.HasArchive id objectId
  archived : ∀ id objectId, (id, objectId) ∈ t.archived → (id, objectId) ∈ s.archived ∨ t.HasArchive id objectId
  runs : t.exportBackupRuns = s.exportBackupRuns
  file : t.runsFile = s.runsFile

theorem Extends.refl (s : BackupState) : Extends s s :=
  ⟨fun _ h => h, fun _ _ h => h, fun _ _ h => .inl h, rfl, rfl⟩

variable {s t u : BackupState} {run : ExportBackupRunRecord} {deletions : List Deletion}
    {deletion : Deletion}
  {env : RetentionEnv} {request : ExportBackupRetentionRequest}

theorem Extends.trans (h : Extends s t) (h' : Extends t u) : Extends s u := by
  refine ⟨fun id hid => h'.bundles id (h.bundles id hid), fun id o ho => h'.archives id o (h.archives id o ho),
    fun id o ho => ?_, h'.runs.trans h.runs, h'.file.trans h.file⟩
  rcases h'.archived id o ho with hmem | harchive
  · exact (h.archived id o hmem).imp_right (h'.archives id o)
  · exact .inr harchive

theorem Extends.whole (h : Extends s t) {id : String} (hid : s.Whole id) : t.Whole id := by
  intro objectId hmem
  rcases h.archived id objectId hmem with hmem | harchive
  · exact h.archives id objectId (hid objectId hmem)
  · exact harchive

/-- The object of a run holds the archive of the run's bundle. -/
def BackupState.OwnArchive (s : BackupState) (run : ExportBackupRunRecord) : Prop :=
  ∀ objectId, run.objectId = some objectId → ∃ bundleId, run.bundleId = some bundleId ∧ s.HasArchive bundleId objectId

/-- What holds of every run in the catalog. -/
def BackupState.Sound (s : BackupState) (run : ExportBackupRunRecord) : Prop :=
  s.Kept run ∧ s.OwnArchive run

theorem Extends.sound (h : Extends s t) (hrun : s.Sound run) : t.Sound run := by
  refine ⟨fun id hid => ⟨h.bundles id (hrun.1 id hid).1, h.whole (hrun.1 id hid).2⟩, fun objectId hobject => ?_⟩
  obtain ⟨bundleId, hbundle, harchive⟩ := hrun.2 objectId hobject
  exact ⟨bundleId, hbundle, h.archives bundleId objectId harchive⟩

theorem extends_insertBundle (s : BackupState) (id : String) (bundle : ExportBundle) :
    Extends s { s with exportRoot := s.exportRoot.insert id bundle } := by
  refine ⟨fun other hother => ?_, fun _ _ h => h, fun _ _ h => .inl h, rfl, rfl⟩
  show (s.exportRoot.insert id bundle).contains other = true
  rw [Std.ExtTreeMap.contains_insert, hother, Bool.or_true]

theorem hasArchive_insertObject (s : BackupState) (id : String) (metadata : ObjectMetadata) :
    (insertObject id metadata s).HasArchive id metadata.id :=
  ⟨_, getElem?_insert_self, rfl⟩

theorem extends_insertObject {s : BackupState} {metadata : ObjectMetadata}
    (hfree : s.objects.contains metadata.id = false) (id : String) :
    Extends s (insertObject id metadata s) := by
  refine ⟨fun _ h => h, fun other objectId ⟨object, hobject, hbundle⟩ => ⟨object, ?_, hbundle⟩,
    fun _ _ h => .inl h, rfl, rfl⟩
  show (s.objects.insert metadata.id _)[objectId]? = some object
  rw [Std.ExtTreeMap.getElem?_insert, if_neg, hobject]
  intro heq
  rw [← Std.LawfulEqOrd.eq_of_compare heq] at hobject
  rw [contains_eq_isSome_getElem?, hobject] at hfree
  cases hfree

theorem extends_noteMutation (s : BackupState) (mutationId : Option String)
    (mutation : Nat → CommittedMutation) :
    Extends s (noteMutation mutationId mutation s) :=
  ⟨fun _ h => h, fun _ _ h => h, fun _ _ h => .inl h, rfl, rfl⟩

variable {existing : Option LatestExportBundleChain} {outcome : DeleteOutcome}
    {runs : List ExportBackupRunRecord}

theorem extends_archived {id : String} (h : s.HasArchive id objectId) :
    Extends s { s with archived := (id, objectId) :: s.archived } := by
  refine ⟨fun _ h => h, fun _ _ h => h, fun other o ho => ?_, rfl, rfl⟩
  rcases mem_cons.mp ho with heq | hmem
  · cases heq
    exact .inr h
  · exact .inl hmem

theorem ends_createExportBundle (env : RunEnv) (baseLsn : Nat) (s : BackupState) :
    Ends (createExportBundle env baseLsn) s (fun id t => Extends s t ∧ id =
      exportBundleId env.nowMs baseLsn env.manifestLsn ∧ t.exportRoot.contains id = true ∧
      t.clientMutations = s.clientMutations) fun _ t => Extends s t := by
  unfold createExportBundle
  simp only [ends_bind, ends_read]
  split
  · exact .refl s
  · cases env.create with
    | refused err => exact .refl s
    | torn bundle err => exact extends_insertBundle s _ bundle
    | written ok => exact ⟨extends_insertBundle s _ _, rfl, contains_insert_self, rfl⟩

theorem ends_commitObjectPut (env : RunEnv)
    (bundleId objectId : String) {clientMutationId : Option String}
    (hfresh : FreshMutation s clientMutationId) :
    Ends (commitObjectPut env bundleId objectId clientMutationId) s
      (fun object t => Extends s t ∧ t.HasArchive bundleId object.id) fun _ t => Extends s t := by
  unfold commitObjectPut
  refine ends_bind.mpr (Ends.check (fun mutationId hmutation => ?_) fun _ _ => .refl s)
  simp only [ends_bind, ends_read]
  split
  · next object hfind => exact absurd hfind (hfresh mutationId hmutation object)
  · exact .refl s
  · split
    · exact .refl s
    · split
      · exact .refl s
      · next hfree =>
        let metadata : ObjectMetadata :=
          ⟨objectId, s!"objects/{objectId}", env.contentType, env.byteSize, env.sha256, env.nowMs⟩
        have hinsert := @extends_insertObject s metadata (Bool.eq_false_iff.mpr hfree) bundleId
        cases env.put with
        | refused err => exact .refl s
        | uncommitted rolledBack err =>
          cases rolledBack with
          | true => exact .refl s
          | false => exact hinsert
        | committed =>
          have hnote := extends_noteMutation (insertObject bundleId metadata s) mutationId fun _ =>
            .objectCommitted metadata
          have hown := hasArchive_insertObject s bundleId metadata
          exact ⟨(hinsert.trans hnote).trans (extends_archived hown), hown⟩

theorem ends_archiveExportBundleToObject (env : RunEnv) (bundleId : String)
    (objectId : Option String)
    {clientMutationId : Option String} (hfresh : FreshMutation s clientMutationId) :
    Ends (archiveExportBundleToObject env bundleId objectId clientMutationId) s
      (fun object t => Extends s t ∧ t.HasArchive bundleId object.id) fun _ t => Extends s t := by
  unfold archiveExportBundleToObject
  split
  · exact .refl s
  · simp only [ends_bind, ends_read]
    split
    · exact .refl s
    · split
      · exact .refl s
      · exact ends_commitObjectPut env bundleId _ hfresh

theorem ends_archiveRunBundle {request : ExportBackupRunRequest} (env : RunEnv) (bundleId : String)
    (hfresh : request.archiveObject.getD true = true → FreshMutation s request.clientMutationId) :
    Ends (archiveRunBundle request env bundleId) s
      (fun archived t => Extends s t ∧ ∀ object, archived = some object →
      t.HasArchive bundleId object.id)
      fun _ t => Extends s t := by
  unfold archiveRunBundle
  split
  · next harchive =>
    refine ends_map.mpr ((ends_archiveExportBundleToObject env bundleId _ (hfresh harchive)).mono ?_ fun _ _ h => h)
    rintro object t ⟨ht, hown⟩
    exact ⟨ht, fun _ heq => some.inj heq ▸ hown⟩
  · exact ⟨.refl s, nofun⟩

/-- Every run in the catalog, and in its file, is kept and has its own archive. -/
def Inv (s : BackupState) : Prop := ∀ run ∈ s.exportBackupRuns ++ s.runsFile, s.Sound run

theorem Extends.inv (h : Extends s t) (hs : Inv s) : Inv t := by
  intro run hrun
  rw [h.runs, h.file] at hrun
  exact h.sound (hs run hrun)

theorem ends_appendExportBackupRun (hs : Inv s) {record : ExportBackupRunRecord}
    (hrecord : s.Sound record) (persist : Except ApiError Unit) :
    Ends (appendExportBackupRun persist record) s (fun _ t => Inv t) fun _ t => Inv t := by
  have hmem : ∀ run ∈ s.exportBackupRuns ++ [record], s.Sound run := by
    intro run hrun
    rcases mem_append.mp hrun with hrun | hrun
    · exact hs run (mem_append_left _ hrun)
    · rw [mem_singleton.mp hrun]
      exact hrecord
  unfold appendExportBackupRun persistExportBackupRuns
  simp only [ends_bind, ends_change, ends_pure]
  refine Ends.check (fun _ _ => ?_) fun _ _ => ?_
  · intro run hrun
    rcases mem_append.mp hrun with hrun | hrun
    · exact hmem run hrun
    · exact hmem run hrun
  · intro run hrun
    rcases mem_append.mp hrun with hrun | hrun
    · exact hmem run hrun
    · exact hs run (mem_append_right _ hrun)

/-- The bundles that a run starts from are those of the chain. -/
theorem mem_runBaseIds {request : ExportBackupRunRequest} {id : String}
    (h : id ∈ runBaseIds request existing) :
    request.forceFull.getD false = false ∧ ∃ chain, existing = some chain ∧
    id ∈ chain.bundleIds := by
  unfold runBaseIds at h
  split at h
  · cases h
  · next hbase =>
    cases existing with
    | none => cases h
    | some chain =>
      refine ⟨?_, chain, rfl, h⟩
      by_contra hforce
      exact hbase (if_pos (by simpa using hforce))

theorem ends_runFromChain (hs : Inv s) {request : ExportBackupRunRequest} {env : RunEnv}
    (currentLsn : Nat) (hchain : request.forceFull.getD false = false →
    ∀ chain, existing = some chain → ∀ id ∈ chain.bundleIds, s.exportRoot.contains id = true ∧
      s.Whole id)
    (hnew : s.Whole (exportBundleId env.nowMs (runBaseLsn request existing) env.manifestLsn))
    (hfresh : request.archiveObject.getD true = true → FreshMutation s request.clientMutationId) :
    Ends (runFromChain request env existing currentLsn) s (fun _ t => Inv t) fun _ t => Inv t := by
  unfold runFromChain
  dsimp only
  split
  · next hnoop =>
    have hforce : request.forceFull.getD false = false := by
      simp at hnoop
      simpa using hnoop.1
    cases existing with
    | none => exact ends_appendExportBackupRun hs ⟨fun id hid => (by cases hid), fun _ h => (by cases h)⟩ env.persist
    | some chain =>
      refine ends_bind.mpr (ends_map.mpr (Ends.check (fun chainOk _ => ?_) fun _ _ => hs))
      exact ends_appendExportBackupRun hs ⟨fun id hid => hchain hforce chain rfl id hid,
        fun _ h => (by cases h)⟩ env.persist
  · refine (ends_createExportBundle env _ s).bind ?_ fun _ t ht => ht.inv hs
    rintro bundleId t ⟨ht, rfl, hcontains, hmutations⟩
    have hfresh : request.archiveObject.getD true = true → FreshMutation t request.clientMutationId := by
      intro harchive mutationId hmutation object
      rw [hmutations]
      exact hfresh harchive mutationId hmutation object
    refine (ends_archiveRunBundle env _ hfresh).bind ?_ fun _ u hu => (ht.trans hu).inv hs
    rintro archived u ⟨hu, hown⟩
    have hsu := ht.trans hu
    refine ends_bind.mpr (Ends.check (fun chainOk _ => ?_) fun _ _ => hsu.inv hs)
    refine ends_appendExportBackupRun (hsu.inv hs) ⟨fun id hid => ?_, fun objectId hobject => ?_⟩ env.persist
    · rcases mem_append.mp hid with hid | hid
      · obtain ⟨hforce, chain, hsome, hid⟩ := mem_runBaseIds hid
        obtain ⟨hcontains, hwhole⟩ := hchain hforce chain hsome id hid
        exact ⟨hsu.bundles id hcontains, hsu.whole hwhole⟩
      · rw [mem_singleton.mp hid]
        exact ⟨hu.bundles _ hcontains, hsu.whole hnew⟩
    · obtain ⟨object, hsome, rfl⟩ := map_eq_some_iff.mp hobject
      exact ⟨_, rfl, hown object hsome⟩

theorem ends_runExportBackup (hs : Inv s)
    {request : ExportBackupRunRequest} {env : RunEnv}
    (hmeets : KeepsArchives s (.run request env)) :
    Ends (runExportBackup request env) s (fun _ t => Inv t) fun _ t => Inv t := by
  obtain ⟨hchain, hnew, hfresh⟩ := hmeets
  unfold runExportBackup
  simp only [ends_bind, ends_read]
  refine ends_runFromChain hs _ (fun hforce chain hsome id hid => ⟨?_, hchain hforce chain hsome id hid⟩) hnew hfresh
  obtain ⟨entry, hentry, rfl⟩ := mem_latestExportBundleChainIds hsome hid
  exact contains_of_mem_entries hentry

/-! ## What a retention call removes -/

/-- No more than some deletions was removed, and the catalog is as it was. -/
structure Removes (s t : BackupState) (deletions : List Deletion) : Prop where
  bundles : ∀ id, s.exportRoot.contains id = true → .bundle id ∉ deletions → t.exportRoot.contains id = true
  archives : ∀ id objectId, s.HasArchive id objectId → .archive objectId ∉ deletions → t.HasArchive id objectId
  archived : ∀ entry ∈ t.archived, entry ∈ s.archived
  runs : t.exportBackupRuns = s.exportBackupRuns
  file : t.runsFile = s.runsFile
  passes : ∀ deletion : Deletion, deletion.Passes s → deletion.Passes t

theorem Removes.refl (s : BackupState) (deletions : List Deletion) : Removes s s deletions :=
  ⟨fun _ h _ => h, fun _ _ h _ => h, fun _ h => h, rfl, rfl, fun _ h => h⟩

theorem Removes.trans (h : Removes s t [deletion]) (h' : Removes t u deletions) :
    Removes s u (deletion :: deletions) := by
  have hsplit : ∀ {d}, d ∉ deletion :: deletions → d ∉ [deletion] ∧ d ∉ deletions := by
    intro d hd
    exact ⟨fun hmem => hd (by simp [mem_singleton.mp hmem]), fun hmem => hd (mem_cons_of_mem _ hmem)⟩
  refine ⟨fun id hid hnot => ?_, fun id o ho hnot => ?_, fun entry he => h.archived entry (h'.archived entry he),
    h'.runs.trans h.runs, h'.file.trans h.file, fun d hd => h'.passes d (h.passes d hd)⟩
  · exact h'.bundles id (h.bundles id hid (hsplit hnot).1) (hsplit hnot).2
  · exact h'.archives id o (h.archives id o ho (hsplit hnot).1) (hsplit hnot).2

theorem removes_eraseBundle (s : BackupState) (id : String) :
    Removes s (eraseBundle id s) [.bundle id] := by
  refine ⟨fun other hother hnot => ?_, fun _ _ h _ => h, fun entry he => mem_of_mem_filter he, rfl, rfl,
    fun deletion hd => ?_⟩
  · show (s.exportRoot.erase id).contains other = true
    rw [contains_erase, hother, Bool.and_true]
    have hne : id ≠ other := fun heq => hnot (by simp [heq])
    simpa using hne
  · cases deletion with
    | bundle | archive => exact hd

theorem removes_noteMutation (s : BackupState) (mutationId : Option String)
    (response : Nat → DeleteObjectResponse) :
    Removes s (noteMutation mutationId (fun lsn => .objectDeleted (response lsn)) s) [] := by
  refine ⟨fun _ h _ => h, fun _ _ h _ => h, fun _ h => h, rfl, rfl, fun deletion hd => ?_⟩
  cases deletion with
  | bundle id => exact hd
  | archive id =>
    obtain ⟨hsafe, id', hnormal, hfind⟩ := hd
    refine ⟨hsafe, id', hnormal, fun mutation hmutation => ?_⟩
    cases mutationId with
    | none => exact hfind mutation hmutation
    | some mutationId =>
      cases id' with
      | none => cases hmutation
      | some id' =>
        have hget : (s.clientMutations.insert mutationId (.objectDeleted (response (s.currentLsn + 1))))[id']? =
          some mutation := hmutation
        rw [Std.ExtTreeMap.getElem?_insert] at hget
        split at hget
        · cases hget
          exact ⟨_, rfl⟩
        · exact hfind mutation hget

theorem removes_eraseObject (s : BackupState) (id : String) :
    Removes s (eraseObject id s) [.archive id] := by
  refine ⟨fun _ h _ => h, fun other objectId ⟨object, hobject, hbundle⟩ hnot => ⟨object, ?_, hbundle⟩, fun _ h => h,
    rfl, rfl, fun deletion hd => ?_⟩
  · show (s.objects.erase id)[objectId]? = some object
    rw [getElem?_erase, if_neg, hobject]
    intro heq
    exact hnot (by simp [Std.LawfulEqOrd.eq_of_compare heq])
  · cases deletion with
    | bundle | archive => exact hd

theorem removes_noteObjectDeleted (s : BackupState) (nowMs : Nat) (objectId : String)
    (mutationId : Option String) :
    Removes s (noteObjectDeleted nowMs objectId mutationId s) [] := by
  unfold noteObjectDeleted
  dsimp only
  split
  · exact .refl s _
  · exact removes_noteMutation s mutationId _

theorem Removes.after (h : Removes s t []) (h' : Removes t u deletions) : Removes s u deletions :=
  ⟨fun id hid hnot => h'.bundles id (h.bundles id hid (by simp)) hnot, fun id o ho hnot =>
    h'.archives id o (h.archives id o ho (by simp)) hnot, fun entry he => h.archived entry (h'.archived entry he),
    h'.runs.trans h.runs, h'.file.trans h.file, fun d hd => h'.passes d (h.passes d hd)⟩

/-- What a removal leaves when it meets no failure, and when it fails before it removes anything. -/
theorem ends_meetOutcome {note remove : BackupState → BackupState} (hnote : Removes s (note s) [])
    (hremove : Removes (note s) (remove (note s)) deletions) :
    (outcome = .done → Ends (meetOutcome outcome note remove) s (fun _ t => Removes s t deletions) fun _ _ => False) ∧
    (outcome.FailsBefore →
    Ends (meetOutcome outcome note remove) s (fun _ _ => False) fun _ t => Removes s t []) := by
  constructor
  · rintro rfl
    exact hnote.after hremove
  · intro hfails
    cases outcome with
    | refused err => exact .refl s _
    | unremoved err => exact hnote
    | removed | done => exact hfails.elim

theorem ends_executeDeletion_done (hpasses : deletion.Passes s)
    (hdone : env.outcome deletion = .done) :
    Ends (executeDeletion env deletion) s (fun _ t => Removes s t [deletion]) fun _ _ => False := by
  cases deletion with
  | bundle id =>
    have hsafe : ensureSafeExportBundleId id = true := hpasses
    show Ends (removeExportBundleDir _ _) s _ _
    unfold removeExportBundleDir
    rw [if_neg (by simp [hsafe])]
    exact (ends_meetOutcome (.refl s _) (removes_eraseBundle s id)).1 hdone
  | archive id =>
    obtain ⟨hsafe, mutationId, hnormal, hfind⟩ := hpasses
    show Ends (commitObjectDelete _ _ _ _) s _ _
    unfold commitObjectDelete
    rw [if_neg (by simp [hsafe]), hnormal]
    simp only [ends_bind, ends_check_ok, ends_read, id_eq]
    split
    · exact .refl s _
    · next mutation hnot hmutation =>
      obtain ⟨response, rfl⟩ := hfind mutation hmutation
      exact absurd rfl (hnot response)
    · exact (ends_meetOutcome (removes_noteObjectDeleted s env.nowMs id mutationId) (removes_eraseObject _ id)).1 hdone

theorem ends_commitObjectDelete_refused {nowMs : Nat} {clientMutationId : Option String}
    (h : ∀ mutationId, ensureSafeObjectId objectId = true →
      normalizeClientMutationId clientMutationId =
    .ok mutationId → (∀ response,
      findCommittedMutation s.clientMutations mutationId ≠ some (.objectDeleted response)) ∧
    (findCommittedMutation s.clientMutations mutationId = none → outcome.FailsBefore)) : Ends
    (commitObjectDelete nowMs outcome objectId clientMutationId) s (fun _ _ => False) fun _ t => Removes s t [] := by
  unfold commitObjectDelete
  split
  · exact .refl s _
  · next hsafe =>
    refine ends_bind.mpr (Ends.check (fun mutationId hnormal => ?_) fun _ _ => .refl s _)
    obtain ⟨hnot, hnone⟩ := h mutationId (by simpa using hsafe) hnormal
    simp only [ends_bind, ends_read, id_eq]
    split
    · next response hfind => exact hnot response hfind
    · exact .refl s _
    · next hfind =>
      exact (ends_meetOutcome (removes_noteObjectDeleted s nowMs objectId mutationId)
        (removes_eraseObject _ objectId)).2 (hnone hfind)

theorem ends_executeDeletion_refused (h : deletion.Refused s env) :
    Ends (executeDeletion env deletion) s (fun _ _ => False) fun _ t => Removes s t [] := by
  cases deletion with
  | bundle id =>
    show Ends (removeExportBundleDir _ _) s _ _
    unfold removeExportBundleDir
    split
    · exact .refl s _
    · next hsafe =>
      have hfails := (h.resolve_left fun hnot => hnot (by simpa [Deletion.Passes] using hsafe)).2
      exact (ends_meetOutcome (.refl s _) (removes_eraseBundle s id)).2 hfails
  | archive id =>
    refine ends_commitObjectDelete_refused fun mutationId hsafe hnormal => ?_
    constructor
    · intro response hfind
      rcases h with hnot | ⟨hanswered, -⟩
      · refine hnot ⟨hsafe, mutationId, hnormal, fun mutation hmutation => ⟨response, ?_⟩⟩
        rw [hfind] at hmutation
        exact (some.inj hmutation).symm
      · exact hanswered ⟨mutationId, response, hnormal, hfind⟩
    · intro hfind
      refine (h.resolve_left fun hnot => hnot ⟨hsafe, mutationId, hnormal, fun mutation hmutation => ?_⟩).2
      rw [hfind] at hmutation
      cases hmutation

/-- Deletions that all pass remove no more than they name. -/
theorem ends_executeDeletions
    (h : ∀ deletion ∈ deletions, deletion.Passes s ∧ env.outcome deletion = .done) :
    Ends (deletions.forM (executeDeletion env)) s (fun _ t => Removes s t deletions) fun _ _ => False := by
  induction deletions generalizing s with
  | nil => exact .refl s _
  | cons deletion deletions ih =>
    obtain ⟨hpasses, hdone⟩ := h deletion mem_cons_self
    refine (ends_executeDeletion_done hpasses hdone).bind (fun _ t ht => ?_) fun _ _ hfalse => hfalse
    refine (ih fun other hother => ?_).mono (fun _ u hu => ht.trans hu) fun _ _ hfalse => hfalse
    obtain ⟨hpasses, hdone⟩ := h other (mem_cons_of_mem _ hother)
    exact ⟨ht.passes other hpasses, hdone⟩

/-! ## What a retention call keeps -/

theorem mem_of_mem_filter_newestFirst {keeps : ExportBackupRunRecord × Nat → Bool}
    (h : run ∈ ((newestFirst runs).zipIdx.filter keeps).map Prod.fst) : run ∈ runs := by
  obtain ⟨entry, hentry, rfl⟩ := mem_map.mp h
  exact (mem_insertionSort _).mp (fst_mem_of_mem_zipIdx (mem_filter.mp hentry).1)

theorem mem_retainedRuns (h : run ∈ retainedRuns request runs) : run ∈ runs :=
  mem_of_mem_filter_newestFirst h

theorem mem_candidateRuns (h : run ∈ candidateRuns request runs) : run ∈ runs :=
  mem_of_mem_filter_newestFirst h

theorem mem_newestFirst (h : run ∈ runs) :
    run ∈ retainedRuns request runs ∨ run ∈ candidateRuns request runs := by
  obtain ⟨i, hi⟩ := mem_iff_getElem?.mp ((mem_insertionSort _).mpr h : run ∈ newestFirst runs)
  have hmem := mk_mem_zipIdx_iff_getElem?.mpr hi
  by_cases hkeeps : keepsRun request i run = true
  · exact .inl (mem_map.mpr ⟨(run, i), mem_filter.mpr ⟨hmem, hkeeps⟩, rfl⟩)
  · exact .inr (mem_map.mpr ⟨(run, i), mem_filter.mpr ⟨hmem, by simpa using hkeeps⟩, rfl⟩)

/-- A deletion of removed runs takes nothing protected, and an archive only when it is asked to. -/
def Deletion.Allowed (request : ExportBackupRetentionRequest)
    (retained removed : List ExportBackupRunRecord) :
    Deletion → Prop
  | .bundle id => id ∉ protectedBundles retained
  | .archive id => request.deleteArchiveObjects.getD false = true ∧
    id ∉ protectedArchiveObjects retained ∧
    ∃ run ∈ removed, run.objectId = some id

theorem mem_foldl_deletionsOf {retained removed : List ExportBackupRunRecord}
    {deleted : List Deletion}
    (h : deletion ∈ removed.foldl (deletionsOf request retained) deleted) :
    deletion ∈ deleted ∨ deletion.Allowed request retained removed := by
  induction removed generalizing deleted with
  | nil => exact .inl h
  | cons candidate removed ih =>
    rcases ih h with hmem | hlater
    · unfold deletionsOf at hmem
      rcases mem_append.mp hmem with hmem | hmem
      · rcases mem_append.mp hmem with hmem | hmem
        · exact .inl hmem
        · obtain ⟨id, hid, rfl⟩ := mem_map.mp hmem
          split at hid
          · have hcheck := (mem_filter.mp hid).2
            simp at hcheck
            exact .inr hcheck.1
          · cases hid
      · obtain ⟨id, hid, rfl⟩ := mem_map.mp hmem
        split at hid
        · next hdelete =>
          obtain ⟨hid, hcheck⟩ := mem_filter.mp hid
          simp at hcheck
          exact .inr ⟨hdelete, by simpa using hcheck.1, candidate, mem_cons_self, mem_toList.mp hid⟩
        · cases hid
    · refine .inr ?_
      cases deletion with
      | bundle id => exact hlater
      | archive id =>
        obtain ⟨hdelete, hnot, run, hrun, hobject⟩ := hlater
        exact ⟨hdelete, hnot, run, mem_cons_of_mem _ hrun, hobject⟩

theorem mem_retentionDeletions (h : deletion ∈ retentionDeletions request runs) :
    deletion.Allowed request (retainedRuns request runs) (candidateRuns request runs) :=
  (mem_foldl_deletionsOf h).resolve_left not_mem_nil

/-- A run that is kept loses no bundle, and no archive of a bundle in its chain. -/
theorem Removes.sound (h : Removes s t (retentionDeletions request s.exportBackupRuns)) (hs : Inv s)
    (hspares : SparesChains request s.exportBackupRuns)
    (hrun : run ∈ retainedRuns request s.exportBackupRuns) :
    t.Sound run := by
  obtain ⟨hkept, hown⟩ := hs run (mem_append_left _ (mem_retainedRuns hrun))
  constructor
  · intro id hid
    obtain ⟨hcontains, hwhole⟩ := hkept id hid
    refine ⟨h.bundles id hcontains fun hdeleted => ?_, fun objectId hmem => ?_⟩
    · exact mem_retentionDeletions hdeleted (mem_flatMap.mpr ⟨run, hrun, mem_append_right _ hid⟩)
    · obtain ⟨object, hobject, hbundle⟩ := hwhole objectId (h.archived _ hmem)
      refine h.archives id objectId ⟨object, hobject, hbundle⟩ fun hdeleted => ?_
      obtain ⟨hdelete, -, removed, hremoved, hremovedObject⟩ := mem_retentionDeletions hdeleted
      obtain ⟨_, hremovedBundle, object', hobject', hbundle'⟩ :=
        (hs removed (mem_append_left _ (mem_candidateRuns hremoved))).2 objectId hremovedObject
      rw [hobject] at hobject'
      cases hobject'
      rw [hbundle] at hbundle'
      cases hbundle'
      rcases hspares with hkeep | hspares
      · rw [hkeep] at hdelete
        cases hdelete
      · exact hspares removed hremoved (by rw [hremovedObject]; rfl) id hremovedBundle run hrun hid
  · intro objectId hobject
    obtain ⟨bundleId, hbundle, harchive⟩ := hown objectId hobject
    refine ⟨bundleId, hbundle, h.archives bundleId objectId harchive fun hdeleted => ?_⟩
    exact (mem_retentionDeletions hdeleted).2.1 (mem_filterMap.mpr ⟨run, hrun, hobject⟩)

theorem Removes.inv (h : Removes s t []) (hs : Inv s) : Inv t := by
  intro run hrun
  rw [h.runs, h.file] at hrun
  obtain ⟨hkept, hown⟩ := hs run hrun
  refine ⟨fun id hid => ?_, fun objectId hobject => ?_⟩
  · obtain ⟨hcontains, hwhole⟩ := hkept id hid
    exact ⟨h.bundles id hcontains (by simp),
      fun objectId hmem => h.archives id objectId (hwhole objectId (h.archived _ hmem)) (by simp)⟩
  · obtain ⟨bundleId, hbundle, harchive⟩ := hown objectId hobject
    exact ⟨bundleId, hbundle, h.archives bundleId objectId harchive (by simp)⟩

/-- The catalog without the candidates, in memory and in its file. -/
theorem ends_dropCandidates {candidates : List ExportBackupRunRecord}
    {persist : Except ApiError Unit}
    (hruns : ∀ run ∈ s.exportBackupRuns, run ∉ candidates → s.Sound run)
    (hfile : ∀ err, persist = .error err → ∀ run ∈ s.runsFile, s.Sound run) :
    Ends (dropCandidates persist candidates) s (fun _ t => Inv t) fun _ t => Inv t := by
  have hkept : ∀ run ∈ s.exportBackupRuns.filter fun run => !(candidates.map (·.id)).contains run.id, s.Sound run := by
    intro run hrun
    obtain ⟨hmem, hid⟩ := mem_filter.mp hrun
    refine hruns run hmem fun hcandidate => ?_
    have hcontains : (candidates.map (·.id)).contains run.id = true :=
      contains_iff_mem.mpr (mem_map_of_mem hcandidate)
    rw [hcontains] at hid
    cases hid
  unfold dropCandidates persistExportBackupRuns
  simp only [ends_bind, ends_change]
  refine Ends.check (fun _ _ run hrun => ?_) fun err herr run hrun => ?_
  · rcases mem_append.mp hrun with hrun | hrun
    · exact hkept run hrun
    · exact hkept run hrun
  · rcases mem_append.mp hrun with hrun | hrun
    · exact hkept run hrun
    · exact hfile err herr run hrun

theorem ends_retainExportBackups (hs : Inv s) (hmeets : KeepsArchives s (.retain request env)) :
    Ends (retainExportBackups request env) s (fun _ t => Inv t) fun _ t => Inv t := by
  unfold retainExportBackups
  split
  · exact hs
  · simp only [ends_bind, ends_read, id_eq]
    split
    · exact hs
    · next hdry =>
      obtain ⟨hall, hspares⟩ := hmeets.resolve_left (by simpa using hdry)
      have hempty : candidateRuns request s.exportBackupRuns = [] →
          retentionDeletions request s.exportBackupRuns = [] := fun hnil => by
        rw [retentionDeletions, hnil]
        rfl
      rcases hall with ⟨hdone, hpersist⟩ | hfirst
      · refine (ends_executeDeletions hdone).bind (fun _ t ht => ?_) fun _ _ hfalse => hfalse.elim
        split
        · next hnone =>
          rw [hempty (isEmpty_iff.mp hnone)] at ht
          exact ht.inv hs
        · refine ends_dropCandidates (fun run hrun hnot => ?_) fun err herr => ?_
          · rw [ht.runs] at hrun
            have hretained := (mem_newestFirst hrun).resolve_right hnot
            exact ht.sound hs hspares hretained
          · rw [hpersist] at herr
            cases herr
      · cases hdeletions : retentionDeletions request s.exportBackupRuns with
        | nil =>
          show Ends _ s _ _
          split
          · exact hs
          · exact ends_dropCandidates (fun run hrun _ => hs run (mem_append_left _ hrun)) fun _ _ run hrun =>
              hs run (mem_append_right _ hrun)
        | cons deletion deletions =>
          rw [hdeletions] at hfirst
          have hrefused : Ends ((deletion :: deletions).forM (executeDeletion env)) s (fun _ _ => False) fun _ t =>
              Removes s t [] :=
            (ends_executeDeletion_refused (hfirst deletion rfl)).bind (fun _ _ hfalse => hfalse.elim) fun _ _ ht => ht
          exact hrefused.bind (fun _ _ hfalse => hfalse.elim) fun _ t ht => ht.inv hs

theorem Inv.next {e : BackupEvent} (h : Inv s) (hmeets : KeepsArchives s e)
    (hstep : BackupStep s e t) : Inv t := by
  have hends : ∀ {α : Type} {m : Call α}, (Ends m s (fun _ t => Inv t) fun _ t => Inv t) → Inv (exec m s).2 := by
    intro α m hm
    unfold Ends at hm
    split at hm
    · next heq => rwa [heq]
    · next heq => rwa [heq]
  subst hstep
  cases e with
  | write lsn => exact h
  | run request env => exact hends (ends_runExportBackup h hmeets)
  | retain request env => exact hends (ends_retainExportBackups h hmeets)
  | restart =>
    intro run hrun
    rcases mem_append.mp hrun with hrun | hrun
    · exact h run (mem_append_right _ hrun)
    · exact h run (mem_append_right _ hrun)

/-- Each bundle of the chain of a run in the catalog is on disk, with the objects that it was
archived as. -/
theorem chains_kept {s t : BackupState} (hs : Fresh s)
    (hrun : Reaches BackupStep KeepsArchives s t) :
    ∀ run ∈ t.exportBackupRuns, t.Kept run := by
  have hinv : Inv t := hrun.invariant (fun _ _ _ h hmeets hstep => h.next hmeets hstep) fun run hmem => by
    rw [hs.runs, hs.file] at hmem
    cases hmem
  exact fun run hmem => (hinv run (mem_append_left _ hmem)).1

/-! ## Two runs -/

section Sample

def fresh : BackupState := ⟨1, ∅, ∅, ∅, [], [], []⟩

theorem fresh_ok : Fresh fresh := ⟨rfl, rfl, rfl⟩

def runEnv (nowMs lsn : Nat) : RunEnv :=
  ⟨s!"run-{nowMs}", nowMs, lsn, .written true, "application/json", 9, "00", .committed, .ok true, .ok ()⟩

/-- A full backup, and an incremental one of the record that the first one's archive left in the
log. -/
def twoRuns : BackupState :=
  next (next fresh (.run ⟨none, none, none, none⟩ (runEnv 1 1))) (.run ⟨none, none, none, none⟩ (runEnv 2 2))

/-- Another full backup. -/
def threeRuns : BackupState := next twoRuns (.run ⟨some true, none, none, none⟩ (runEnv 3 3))

theorem whole_of_archived
    (h : ∀ entry ∈ s.archived, (s.objects[entry.2]?).bind (·.bundleId) = some entry.1)
    (id : String) : s.Whole id :=
  fun objectId hmem => bind_eq_some_iff.mp (h (id, objectId) hmem)

/-- A run without a client's id, from a state with all archives. -/
theorem takes_run (hrun : Reaches BackupStep KeepsArchives fresh s)
    (hall : ∀ entry ∈ s.archived, (s.objects[entry.2]?).bind (·.bundleId) = some entry.1)
    (forceFull : Option Bool) (env : RunEnv) :
    Reaches BackupStep KeepsArchives fresh (next s (.run ⟨forceFull, none, none, none⟩ env)) := by
  refine hrun.take (e := BackupEvent.run ⟨forceFull, none, none, none⟩ env) rfl
    ⟨fun _ _ _ id _ => whole_of_archived hall id, whole_of_archived hall _, fun _ mutationId hmutation => ?_⟩
  cases hmutation
  exact fun _ h => nomatch h

theorem reaches_twoRuns : Reaches BackupStep KeepsArchives fresh twoRuns :=
  takes_run (takes_run (.refl _) (fun _ h => nomatch h) none (runEnv 1 1)) (by decide +kernel) none (runEnv 2 2)

/-- Only the last run is kept, and the archives of the others are deleted. -/
def keepLast : ExportBackupRetentionRequest := ⟨some false, some 1, none, none, some true⟩

def keepLastEnv : RetentionEnv := ⟨4, fun _ => .done, fun _ => .done, .ok ()⟩

theorem archive_passes {id : String} (hsafe : ensureSafeObjectId id = true)
    (hnormal : (normalizeClientMutationId (some s!"export-backup-retention-{id}")).isOk = true)
    (hempty : s.clientMutations.isEmpty = true) : (Deletion.archive id).Passes s := by
  refine ⟨hsafe, ?_⟩
  cases hmutation : normalizeClientMutationId (some s!"export-backup-retention-{id}") with
  | error err =>
    rw [hmutation] at hnormal
    cases hnormal
  | ok mutationId =>
    refine ⟨mutationId, rfl, fun mutation hfind => ?_⟩
    obtain ⟨mutationId, -, hget⟩ := bind_eq_some_iff.mp hfind
    rw [isEmpty_iff.mp hempty, getElem?_empty] at hget
    cases hget

/-- Nothing of the first two runs is in the chain of the third. -/
theorem chains_kept_sample :
    (next threeRuns (.retain keepLast keepLastEnv)).exportBackupRuns.map (·.chainBundleIds) =
    [["export-3-lsn-3"]] ∧
    (next threeRuns (.retain keepLast keepLastEnv)).objects.keys =
    ["export-bundle-export-3-lsn-3"] ∧
    ∀ run ∈ (next threeRuns (.retain keepLast keepLastEnv)).exportBackupRuns,
      (next threeRuns (.retain keepLast keepLastEnv)).Kept run := by
  refine ⟨by decide +kernel, by decide +kernel, chains_kept fresh_ok ?_⟩
  have hthree : Reaches BackupStep KeepsArchives fresh threeRuns :=
    takes_run reaches_twoRuns (by decide +kernel) (some true) (runEnv 3 3)
  refine hthree.take (e := BackupEvent.retain keepLast keepLastEnv) rfl (.inr ⟨.inl ⟨?_, rfl⟩, .inr ?_⟩)
  · have hdeletions : retentionDeletions keepLast threeRuns.exportBackupRuns =
        [.bundle "export-2-lsn-2-2", .archive "export-bundle-export-2-lsn-2-2", .bundle "export-1-lsn-1",
          .archive "export-bundle-export-1-lsn-1"] := by decide +kernel
    rw [hdeletions]
    simp only [forall_mem_cons, not_mem_nil, false_implies, implies_true, and_true]
    exact ⟨⟨show ensureSafeExportBundleId _ = true by decide +kernel, rfl⟩,
      ⟨archive_passes (by decide +kernel) (by decide +kernel) (by decide +kernel), rfl⟩,
      ⟨show ensureSafeExportBundleId _ = true by decide +kernel, rfl⟩,
      archive_passes (by decide +kernel) (by decide +kernel) (by decide +kernel), rfl⟩
  · decide +kernel

/-- The archive of the full bundle, on which the run that is kept depends, is deleted. -/
theorem chains_not_kept : ¬ ∀ s t, Fresh s → Reaches BackupStep (fun _ _ => True) s t →
    ∀ run ∈ t.exportBackupRuns,
    t.Kept run := by
  intro h
  have hrun : Reaches BackupStep (fun _ _ => True) fresh (next twoRuns (.retain keepLast keepLastEnv)) :=
    (reaches_twoRuns.weaken fun _ _ _ => trivial).take (e := BackupEvent.retain keepLast keepLastEnv) rfl trivial
  have hchain : ["export-1-lsn-1", "export-2-lsn-2-2"] ∈
      (next twoRuns (.retain keepLast keepLastEnv)).exportBackupRuns.map (·.chainBundleIds) := by decide +kernel
  have harchived : ("export-1-lsn-1", "export-bundle-export-1-lsn-1") ∈
    (next twoRuns (.retain keepLast keepLastEnv)).archived := by
    decide +kernel
  have hgone :
      ((next twoRuns (.retain keepLast keepLastEnv)).objects["export-bundle-export-1-lsn-1"]?).isNone =
      true := by
    decide +kernel
  obtain ⟨run, hmem, hids⟩ := mem_map.mp hchain
  obtain ⟨-, hwhole⟩ := h _ _ fresh_ok hrun run hmem "export-1-lsn-1" (by rw [hids]; exact mem_cons_self)
  obtain ⟨object, hobject, -⟩ := hwhole _ harchived
  rw [hobject] at hgone
  cases hgone

end Sample

end NextDb.Api.BackupRuns
