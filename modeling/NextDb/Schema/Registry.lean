import NextDb.Schema.Report
import NextDb.Wal.ByLsn

/-!
# The schema registry and its recovery

The schema that is active, the schema file and the files of the versions there
were. At startup the schema file is loaded and then replaced by the schema of the
latest `SchemaApplied` record of the log.

* `recoverSchemaFromWal_concat`: a later `SchemaApplied` record decides.
* `readRecordsFromWalPaths_push`: a record with a new LSN is read last.
-/

namespace NextDb

open Wal List

structure SchemaRegistry where
  /-- The schema file. -/
  file : Option DatabaseSchema
  /-- The files of the versions. -/
  history : BTreeMap Nat DatabaseSchema
  schema : DatabaseSchema

def SchemaRegistry.persistHistorySchema (self : SchemaRegistry) (schema : DatabaseSchema) :
    SchemaRegistry :=
  { self with history := self.history.insert schema.version schema }

def SchemaRegistry.persistSchema (self : SchemaRegistry) (schema : DatabaseSchema) :
    SchemaRegistry :=
  { self with file := some schema }

def SchemaRegistry.apply (self : SchemaRegistry) (schema : DatabaseSchema) : SchemaRegistry :=
  { self with schema }

/-- `SchemaRegistry::load`, of the files that there are. -/
def SchemaRegistry.load (defaultNextdb : DatabaseSchema) (file : Option DatabaseSchema)
    (history : BTreeMap Nat DatabaseSchema) : SchemaRegistry :=
  let schema := file.getD defaultNextdb
  SchemaRegistry.persistHistorySchema ⟨some schema, history, schema⟩ schema

structure SchemaWalRecoveryReport where
  recovered : Bool
  latestLsn : Option Nat
  latestVersion : Option Nat
  historyVersions : List Nat

/-- What the loop over the log has found. -/
structure AppliedSchemas where
  history : BTreeMap Nat DatabaseSchema
  latest : Option (Nat × DatabaseSchema)

def noteSchemaApplied (found : AppliedSchemas) (walRecord : WalRecord) : Result AppliedSchemas :=
  match walRecord.payload with
  | .schemaApplied schema _ => do
    schema.validationReport.intoResult
    let later := found.latest.all fun latest => latest.1 < walRecord.lsn
    return ⟨found.history.insert schema.version schema,
      if later then some (walRecord.lsn, schema) else found.latest⟩
  | _ => .ok found

def appliedSchemas (records : List WalRecord) : Result AppliedSchemas :=
  records.foldlM noteSchemaApplied ⟨∅, none⟩

def recoverSchemaFromWal (registry : SchemaRegistry) (records : List WalRecord) :
    Result (SchemaRegistry × SchemaWalRecoveryReport) := do
  let found ← appliedSchemas records
  let registry := (found.history.toList.map Prod.snd).foldl SchemaRegistry.persistHistorySchema registry
  match found.latest with
  | some (latestLsn, latestSchema) =>
    let persisted := (registry.persistHistorySchema latestSchema).persistSchema latestSchema
    return (persisted.apply latestSchema, ⟨true, some latestLsn, some latestSchema.version, found.history.keys⟩)
  | none =>
    return (registry, ⟨false, none, none, (registry.history.insert registry.schema.version registry.schema).keys⟩)

/-- The schema that a server is left with that loads its files and recovers from its log. -/
def recoveredSchema (defaultNextdb : DatabaseSchema) (registry : SchemaRegistry)
    (records : List WalRecord) :
    Result DatabaseSchema :=
  (recoverSchemaFromWal (SchemaRegistry.load defaultNextdb registry.file registry.history) records).map
    fun recovered => recovered.1.schema

/-! ## The latest record -/

theorem SchemaValidationReport.intoResult_eq_ok {report : SchemaValidationReport} :
    report.intoResult = .ok () ↔ report.ok = true := by
  unfold SchemaValidationReport.intoResult
  split
  · next h => simp [h]
  · next h => simp [h, bail]

/-- What was found came from a record before. -/
theorem appliedSchemas_latest {records : List WalRecord} {found : AppliedSchemas} {lsn : Nat}
    {schema : DatabaseSchema}
    (h : appliedSchemas records = .ok found) (hl : found.latest = some (lsn, schema)) :
    ∃ record ∈ records, record.lsn = lsn := by
  induction records using reverseRecOn generalizing found with
  | nil =>
    cases h
    cases hl
  | append_singleton records record ih =>
    rw [appliedSchemas, foldlM_append] at h
    obtain ⟨before, hbefore, h⟩ := bind_eq_ok.mp h
    have hmem : record ∈ records ++ [record] := by simp
    have hold : before.latest = some (lsn, schema) → ∃ record' ∈ records ++ [record], record'.lsn = lsn := by
      intro hl
      obtain ⟨record', hmem, he⟩ := ih hbefore hl
      exact ⟨record', mem_append_left _ hmem, he⟩
    simp only [foldlM_cons, foldlM_nil, bind_pure] at h
    unfold noteSchemaApplied at h
    split at h
    · obtain ⟨_, _, h⟩ := bind_eq_ok.mp h
      cases h
      dsimp only at hl
      split at hl
      · cases hl
        exact ⟨record, hmem, rfl⟩
      · exact hold hl
    · cases h
      exact hold hl

variable {record : WalRecord}

/-- A record with a higher LSN than those before it decides what is recovered. -/
theorem recoverSchemaFromWal_concat {defaultNextdb active schema : DatabaseSchema}
    {registry registry' : SchemaRegistry} {migration : SchemaMigrationPlan}
    {records : List WalRecord}
    (hactive : recoveredSchema defaultNextdb registry records = .ok active)
    (hvalid : schema.validationReport.ok = true)
    (hpayload : record.payload = .schemaApplied schema migration)
    (hlsn : ∀ other ∈ records, other.lsn < record.lsn) :
    recoveredSchema defaultNextdb registry' (records ++ [record]) = .ok schema := by
  obtain ⟨recovered, hrecovered, -⟩ := map_eq_ok.mp hactive
  obtain ⟨found, hfound, -⟩ := bind_eq_ok.mp hrecovered
  have hlater : found.latest.all (fun latest => latest.1 < record.lsn) = true := by
    cases hl : found.latest with
    | none => rfl
    | some latest =>
      obtain ⟨other, hmem, he⟩ := appliedSchemas_latest hfound hl
      have := hlsn other hmem
      simp [← he, this]
  have hnext : appliedSchemas (records ++ [record]) = .ok ⟨found.history.insert schema.version schema,
      some (record.lsn, schema)⟩ := by
    rw [appliedSchemas, foldlM_append, show records.foldlM noteSchemaApplied ⟨∅, none⟩ = .ok found from hfound]
    show ([record].foldlM noteSchemaApplied found : Result AppliedSchemas) = _
    simp only [foldlM_cons, foldlM_nil, bind_pure]
    rw [noteSchemaApplied, hpayload]
    dsimp only
    rw [SchemaValidationReport.intoResult_eq_ok.mpr hvalid, hlater]
    rfl
  unfold recoveredSchema recoverSchemaFromWal
  rw [hnext]
  rfl

/-! ## Appending to a log file -/

/-- The log files of the shards, archived and active, and the last LSN that was allocated. -/
structure WalFiles where
  files : List (List WalRecord × List WalRecord)
  nextLsn : Nat
  allocated : ∀ file ∈ files, ∀ record ∈ file.1 ++ file.2, record.lsn ≤ nextLsn

/-- What reading the log returns. -/
def WalFiles.records (self : WalFiles) : List WalRecord := readRecordsFromWalPaths self.files

/-- `allocate_lsn`. -/
def WalFiles.allocateLsn (self : WalFiles) : WalFiles where
  files := self.files
  nextLsn := self.nextLsn + 1
  allocated file hfile record hrecord := (self.allocated file hfile record hrecord).trans (Nat.le_succ _)

/-- The active file of a shard gets a record. -/
def pushRecord (shard : Nat) (record : WalRecord) (files : List (List WalRecord × List WalRecord)) :
    List (List WalRecord × List WalRecord) :=
  files.modify shard fun file => (file.1, file.2 ++ [record])

theorem mem_pushRecord {shard : Nat} {other : WalRecord}
    {files : List (List WalRecord × List WalRecord)}
    {file : List WalRecord × List WalRecord} (hfile : file ∈ pushRecord shard record files)
    (hother : other ∈ file.1 ++ file.2) :
    other = record ∨ ∃ file ∈ files, other ∈ file.1 ++ file.2 := by
  obtain ⟨i, hi⟩ := getElem?_of_mem hfile
  rw [pushRecord, getElem?_modify] at hi
  obtain ⟨old, hold, rfl⟩ := Option.map_eq_some_iff.mp hi
  have hmem := mem_of_getElem? hold
  split at hother
  · rw [← append_assoc, mem_append, mem_singleton] at hother
    exact hother.symm.imp_right fun h => ⟨old, hmem, h⟩
  · exact .inr ⟨old, hmem, hother⟩

/-- A record with a new LSN is the last in its file, and the last that reading all files returns. -/
theorem readRecordsFromWalPaths_push {files : List (List WalRecord × List WalRecord)} {shard : Nat}
    (hshard : shard < files.length)
    (h : ∀ file ∈ files, ∀ other ∈ file.1 ++ file.2, other.lsn < record.lsn) :
    readRecordsFromWalPaths (pushRecord shard record files) =
    readRecordsFromWalPaths files ++ [record] := by
  obtain ⟨before, file, after, rfl, hlen⟩ : ∃ before file after, files = before ++ file :: after ∧
      before.length = shard :=
    ⟨files.take shard, files[shard], files.drop (shard + 1), by simp, by simp; omega⟩
  have hpush : pushRecord shard record (before ++ file :: after) = before ++ (file.1, file.2 ++ [record]) :: after := by
    rw [pushRecord, modify_eq_take_cons_drop (by simp [← hlen])]
    simp [← hlen]
  have hfile : readRecordsIncludingArchives file.1 (file.2 ++ [record]) = readRecordsIncludingArchives file.1 file.2 ++
      [record] := by
    have := @readByLsn_insert (file.1 ++ file.2) [] record
      (by simpa using fun other hother => h file (by simp) other (mem_append.mpr hother))
    simpa [readRecordsIncludingArchives, append_assoc] using this
  rw [hpush, readRecordsFromWalPaths, readRecordsFromWalPaths]
  simp only [flatMap_append, flatMap_cons, hfile]
  have hlt : ∀ other ∈ (before ++ file :: after).flatMap fun file =>
      readRecordsIncludingArchives file.1 file.2, other.lsn < record.lsn := by
    intro other hother
    obtain ⟨file', hfile', hother⟩ := mem_flatMap.mp hother
    exact h file' hfile' other (recordsByLsn_some (mem_readRecordsIncludingArchives.mp hother)).2
  have := @readByLsn_insert (before.flatMap (fun file => readRecordsIncludingArchives file.1 file.2) ++
      readRecordsIncludingArchives file.1 file.2)
    (after.flatMap fun file => readRecordsIncludingArchives file.1 file.2) record
    (by simpa [append_assoc] using hlt)
  simpa [append_assoc] using this

/-- A record with an allocated LSN is written. -/
def WalFiles.push (self : WalFiles) (shard : Nat) (record : WalRecord)
    (h : record.lsn ≤ self.nextLsn) : WalFiles where
  files := pushRecord shard record self.files
  nextLsn := self.nextLsn
  allocated file hfile other hother := by
    rcases mem_pushRecord hfile hother with rfl | ⟨file, hfile, hother⟩
    · exact h
    · exact self.allocated file hfile other hother

end NextDb
