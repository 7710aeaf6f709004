import NextDb.Api.ProjectionKv
import NextDb.Records.HotReads

/-!
# What a record write checks

Before a durable upsert, delete or transaction is appended to the log, the version that it expects
of a record is compared with the one in the record projection, and the unique indexes are validated
against the projection and the hot cache.

* `prepareRecordTransaction_accepted`: what is known of the operations of a transaction that is
  accepted.
-/

namespace NextDb.Api.RecordChecks

open Records List Except
open ApplySchema (badRequest internal)
open Converge (recordIndexes upsertDrafts deleteDrafts)
open ObjectRefIndex ProjectionKv
open RecordCommit (RecordOperation)
open RecordMatch (recordIndexValues)

/-- What a write reads. -/
structure RecordReads where
  schema : DatabaseSchema
  records : RecordProjectionKv
  hot : RecordHotState

variable (lib : ProjectionLibraries)

/-- The LSN of the record in the projection. -/
def ensureExpectedRecordLsn (reads : RecordReads) (table key : String) (expectedLsn : Option Nat) :
    Except ApiError Nat := do
  let current ← internal (getRecord lib reads.records table key)
  let currentLsn := (current.map DbRecord.lsn).getD 0
  match expectedLsn with
  | some expected =>
    if currentLsn ≠ expected then
      .error (.conflict ("record version conflict: expected lsn " ++ toString expected ++ ", found " ++ toString currentLsn))
    else .ok currentLsn
  | none => .ok currentLsn

/-! ## Unique indexes -/

/-- Finite numbers compare by their bits, except that there are two zeros. -/
def floatEq (a b : F64) : Bool := a.bits == b.bits || a.bits <<< 1 == 0 && b.bits <<< 1 == 0

def numberEq : Number → Number → Bool
  | .posInt m, .posInt n => m == n
  | .negInt i _, .negInt j _ => i == j
  | .float x _, .float y _ => floatEq x y
  | _, _ => false

/-- `PartialEq` of the values that an index may have, which are scalars. -/
def scalarEq : Json → Json → Bool
  | .null, .null => true
  | .bool a, .bool b => a == b
  | .number a, .number b => numberEq a b
  | .string a, .string b => a == b
  | _, _ => false

def valuesEq : List Json → List Json → Bool
  | [], [] => true
  | a :: as, b :: bs => scalarEq a b && valuesEq as bs
  | _, _ => false

/-- The records that a transaction changes. -/
structure TransactionPaths where
  deletes : List String
  deleteIdentities : List String
  upsertPaths : List String

/-- `record_identity`. -/
def identityOf (table key : String) : String := table ++ "/" ++ key

def recordConflictsWithUniqueCandidate (candidate : DbRecord) (index : IndexSchema)
    (values : List Json) (existing : DbRecord) (paths : TransactionPaths) : Except ApiError Bool :=
  if existing.key == candidate.key || paths.deletes.contains existing.path ||
      paths.deleteIdentities.contains (identityOf existing.table existing.key) ||
      paths.upsertPaths.contains existing.path then .ok false
  else do
    let existingValues ← badRequest (recordIndexValues existing index)
    return valuesEq existingValues values

/-- A record that the projection has, as it is by the hot cache. -/
def recordCurrentForUniqueValidation (hot : RecordHotState) (existing : DbRecord) :
    Option DbRecord :=
  match hot.get existing.table existing.key with
  | some (some hot) => some hot
  | some none => if (hot.durableDeleteLsn existing.table existing.key).join.isSome then none else some existing
  | none => some existing

def refuseConflict (candidate : DbRecord) (indexName : String) (index : IndexSchema)
    (values : List Json)
    (paths : TransactionPaths) (existing : DbRecord) : Except ApiError Unit := do
  if ← recordConflictsWithUniqueCandidate candidate index values existing paths then
    .error (.conflict ("unique index violation on " ++ candidate.table ++ "." ++ indexName ++ " for record " ++
      candidate.key))
  else .ok ()

/-- The values of the unique indexes so far: the table, the index and the text of the values, and
the key. -/
abbrev UniqueValues := List ((String × String × String) × String)

def validateIndex (reads : RecordReads) (paths : TransactionPaths) (record : DbRecord)
    (uniqueValues : UniqueValues)
    (entry : String × IndexSchema) : Except ApiError UniqueValues := do
  let values ← badRequest (recordIndexValues record entry.2)
  if !entry.2.unique then .ok uniqueValues
  else
    let identity := (record.table, entry.1, lib.jsonText (.array values))
    if (uniqueValues.lookup identity).any (· != record.key) then
      .error (.conflict ("unique index violation on " ++ record.table ++ "." ++ entry.1))
    else do
      let existing ← internal (queryIndex lib reads.records record.table entry.1 values none none)
      (existing.filterMap (recordCurrentForUniqueValidation reads.hot)).forM
        (refuseConflict record entry.1 entry.2 values paths)
      ((reads.hot.scanKeyOrder record.table).getD []).forM (refuseConflict record entry.1 entry.2 values paths)
      return (identity, record.key) :: uniqueValues

def validateUpsert (reads : RecordReads) (paths : TransactionPaths) (uniqueValues : UniqueValues)
    (record : DbRecord) : Except ApiError UniqueValues := do
  let indexes ← badRequest (recordIndexes reads.schema record.table)
  indexes.toList.foldlM (validateIndex lib reads paths record) uniqueValues

def validateTransactionUniqueIndexes (reads : RecordReads) (upserts : List DbRecord)
    (deletes deleteIdentities : List String) : Except ApiError Unit := do
  let paths : TransactionPaths := ⟨deletes, deleteIdentities, upserts.map DbRecord.path⟩
  let _ ← upserts.foldlM (validateUpsert lib reads paths) []

/-! ## Transactions -/

/-- What is checked of an operation elsewhere: the size of its value, the value and its object
references, and which shard is to be written. -/
structure OperationChecks where
  limit : RecordOperation → Except ApiError Unit
  value : RecordOperation → Except ApiError Unit
  writableShard : String → Except ApiError Nat

def ensureSafe (value message : String) : Except ApiError Unit :=
  if ensureSafeRecordComponent value then .ok () else .error (.badRequest message)

variable (schema : DatabaseSchema)

def validateTablePath (table : String) : Except ApiError Unit := do
  ensureSafe table "invalid table name"
  if schema.tables.contains table then .ok () else .error (.notFound "table not found")

def validateRecordPath (table key : String) : Except ApiError Unit := do
  validateTablePath schema table
  ensureSafe key "invalid record key"

def validateNestedRecordPath (table parentKey nested nestedKey : String) :
    Except ApiError Unit := do
  validateTablePath schema table
  ensureSafe parentKey "invalid parent record key"
  ensureSafe nested "invalid nested table name"
  if (schema.nestedTable table nested).isSome then ensureSafe nestedKey "invalid nested record key"
  else .error (.notFound "nested table not found")

def validateOperationPath : RecordOperation → Except ApiError Unit
  | .upsert table key _ | .delete table key => validateRecordPath schema table key
  | .nestedUpsert table parentKey nested nestedKey _ | .nestedDelete table parentKey nested nestedKey =>
    validateNestedRecordPath schema table parentKey nested nestedKey

/-- The partition of an operation, and whether it is one of a parent. -/
def operationPartition : RecordOperation → String × Bool
  | .upsert table key _ | .delete table key => (table ++ ":" ++ key, false)
  | .nestedUpsert table parentKey _ _ _ | .nestedDelete table parentKey _ _ => (table ++ ":" ++ parentKey, true)

/-- The logical table and key of a change. -/
def mutationPlace : DbRecordMutationDraft → String × String
  | .upsert record => (record.table, record.key)
  | .delete record => (record.table, record.key)

/-- What the preparation of a transaction has collected. -/
structure Preparation where
  seenKeys : List String
  touchedPartitions : List String
  nestedPartition : Option String
  shardIndex : Option Nat
  operations : List DbRecordMutationDraft
  provisionalUpserts : List DbRecord
  deletes : List String
  deleteIdentities : List String

def ensureTransactionPartition (p : Preparation) (partition : String) (isNested : Bool) :
    Except ApiError Preparation := do
  let touched := { p with touchedPartitions := partition :: p.touchedPartitions }
  if isNested then
    if p.nestedPartition.any (· != partition) then
      .error (.badRequest ("nested transaction operations must target one parent partition; got " ++
        p.nestedPartition.getD "" ++ " and " ++ partition))
    else if p.touchedPartitions.any (· != partition) then
      .error (.badRequest ("nested transaction operations must not be mixed with a different partition than " ++ partition))
    else .ok { touched with nestedPartition := some partition }
  else if p.nestedPartition.any (· != partition) then
    .error (.badRequest ("nested transaction operations must not be mixed with top-level partition " ++ partition))
  else .ok touched

def ensureTransactionKeyOnce (p : Preparation) (identity : String) : Except ApiError Preparation :=
  if p.seenKeys.contains identity then
    .error (.badRequest ("record transaction contains duplicate operation for " ++ identity))
  else .ok { p with seenKeys := identity :: p.seenKeys }

def ensureSameTransactionShard (p : Preparation) (shard : Nat) : Except ApiError Preparation :=
  match p.shardIndex with
  | some existing =>
    if existing ≠ shard then
      .error (.badRequest ("record transaction operations must target one shard; got shards " ++ toString existing ++
        " and " ++ toString shard))
    else .ok p
  | none => .ok { p with shardIndex := some shard }

/-- The change of an operation; a deletion of a record that the projection does not have is left
out. -/
def Preparation.add (p : Preparation) (currentLsn : Nat) : DbRecordMutationDraft → Preparation
  | .upsert record =>
    { p with
      operations := p.operations ++ [.upsert record]
      provisionalUpserts := p.provisionalUpserts ++ [record.intoRecord 0] }
  | .delete record =>
    if currentLsn = 0 then p
    else
      { p with
        operations := p.operations ++ [.delete record]
        deletes := record.path :: p.deletes
        deleteIdentities := identityOf record.table record.key :: p.deleteIdentities }

variable (checks : OperationChecks) (nowMs : Nat)

def prepareOperation (reads : RecordReads) (p : Preparation)
    (request : RecordOperation × Option Nat) :
    Except ApiError Preparation := do
  checks.limit request.1
  validateOperationPath reads.schema request.1
  checks.value request.1
  let p ← ensureTransactionPartition p (operationPartition request.1).1 (operationPartition request.1).2
  let mutation := request.1.mutation nowMs none
  let p ← ensureTransactionKeyOnce p (identityOf (mutationPlace mutation).1 (mutationPlace mutation).2)
  let shard ← checks.writableShard (operationPartition request.1).1
  let p ← ensureSameTransactionShard p shard
  let currentLsn ← ensureExpectedRecordLsn lib reads (mutationPlace mutation).1 (mutationPlace mutation).2 request.2
  return p.add currentLsn mutation

structure PreparedRecordTransaction where
  shard : Nat
  operations : List DbRecordMutationDraft

def prepareRecordTransaction (reads : RecordReads)
    (requests : List (RecordOperation × Option Nat)) :
    Except ApiError PreparedRecordTransaction := do
  let p ← requests.foldlM (prepareOperation lib checks nowMs reads) ⟨[], [], none, none, [], [], [], []⟩
  validateTransactionUniqueIndexes lib reads p.provisionalUpserts p.deletes p.deleteIdentities
  return ⟨p.shardIndex.getD 0, p.operations⟩

/-! ## What is known of an accepted transaction -/

/-- One key for each text of values. -/
def OneKeyEach (uniqueValues : UniqueValues) : Prop :=
  ∀ identity key key', (identity, key) ∈ uniqueValues → (identity, key') ∈ uniqueValues → key = key'

/-- The record has values in the index, and is remembered under them if the index is unique. -/
def Remembered (record : DbRecord) (entry : String × IndexSchema) (uniqueValues : UniqueValues) :
    Prop :=
  ∃ values, recordIndexValues record entry.2 = .ok values ∧
    (entry.2.unique = true → ((record.table, entry.1, lib.jsonText (.array values)), record.key) ∈ uniqueValues)

variable {lib} {checks} {nowMs} {reads : RecordReads} {paths : TransactionPaths} {α : Type}
  {identity : String × String × String} {key : String} {entry : String × IndexSchema}
    {operation : RecordOperation}
  {request : RecordOperation × Option Nat} {prepared : PreparedRecordTransaction}

theorem badRequest_eq_ok {result : Result α} {a : α} :
    badRequest result = .ok a ↔ result = .ok a := by
  cases result with
  | ok found => exact ⟨fun h => congrArg ok (ok.inj h), fun h => congrArg ok (ok.inj h)⟩
  | error err => exact ⟨nofun, nofun⟩

theorem internal_eq_ok {result : Result α} {a : α} : internal result = .ok a ↔ result = .ok a := by
  cases result with
  | ok found => exact ⟨fun h => congrArg ok (ok.inj h), fun h => congrArg ok (ok.inj h)⟩
  | error err => exact ⟨nofun, nofun⟩

variable {uniqueValues uniqueValues' : UniqueValues} {record : DbRecord} {p p' : Preparation}
  {requests : List (RecordOperation × Option Nat)}

theorem mem_of_lookup_eq_some (h : uniqueValues.lookup identity = some key) :
    (identity, key) ∈ uniqueValues := by
  obtain ⟨_, _, rfl, -⟩ := lookup_eq_some_iff.mp h
  exact mem_append_right _ mem_cons_self

theorem lookup_isSome_of_mem (h : (identity, key) ∈ uniqueValues) :
    ∃ key', uniqueValues.lookup identity = some key' := by
  induction uniqueValues with
  | nil => exact absurd h not_mem_nil
  | cons entry uniqueValues ih =>
    obtain ⟨identity', key'⟩ := entry
    by_cases hsame : identity = identity'
    · exact ⟨key', by rw [lookup_cons, beq_iff_eq.mpr hsame]⟩
    · obtain ⟨found, hfound⟩ := ih ((mem_cons.mp h).resolve_left fun he => hsame (Prod.mk.inj he).1)
      exact ⟨found, by rw [lookup_cons, beq_eq_false_iff_ne.mpr hsame]; exact hfound⟩

theorem OneKeyEach.cons {uniqueValues : UniqueValues}
    (h : OneKeyEach uniqueValues) {identity : String × String × String} {key : String}
    (hlookup : ∀ key',
    uniqueValues.lookup identity = some key' → key' = key) :
    OneKeyEach ((identity, key) :: uniqueValues) := by
  have hold : ∀ key', (identity, key') ∈ uniqueValues → key' = key := by
    intro key' hmem
    obtain ⟨found, hfound⟩ := lookup_isSome_of_mem hmem
    rw [h identity key' found hmem (mem_of_lookup_eq_some hfound), hlookup found hfound]
  intro identity' a b ha hb
  rcases mem_cons.mp ha with hnewa | holda <;> rcases mem_cons.mp hb with hnewb | holdb
  · rw [(Prod.mk.inj hnewa).2, (Prod.mk.inj hnewb).2]
  · obtain ⟨rfl, rfl⟩ := Prod.mk.inj hnewa
    exact (hold b holdb).symm
  · obtain ⟨rfl, rfl⟩ := Prod.mk.inj hnewb
    exact hold a holda
  · exact h identity' a b holda holdb

theorem validateIndex_ok (hone : OneKeyEach uniqueValues)
    (h : validateIndex lib reads paths record uniqueValues entry = .ok uniqueValues') :
    OneKeyEach uniqueValues' ∧ uniqueValues ⊆ uniqueValues' ∧
    Remembered lib record entry uniqueValues' := by
  obtain ⟨values, hvalues, h⟩ := bind_eq_ok.mp h
  replace hvalues := badRequest_eq_ok.mp hvalues
  by_cases hunique : entry.2.unique = true
  · simp only [hunique, Bool.not_true, Bool.false_eq_true, if_false] at h
    by_cases hother : (uniqueValues.lookup (record.table, entry.1, lib.jsonText (.array values))).any (· != record.key)
    · rw [if_pos hother] at h
      cases h
    · rw [if_neg hother] at h
      obtain ⟨existing, -, h⟩ := bind_eq_ok.mp h
      obtain ⟨-, -, h⟩ := bind_eq_ok.mp h
      obtain ⟨-, -, h⟩ := bind_eq_ok.mp h
      obtain rfl := ok.inj h
      refine ⟨hone.cons fun key' hkey' => ?_, subset_cons_self _ _, values, hvalues, fun _ => mem_cons_self⟩
      rw [hkey'] at hother
      simpa using hother
  · rw [if_pos (by simpa using hunique)] at h
    obtain rfl := ok.inj h
    exact ⟨hone, fun _ hmem => hmem, values, hvalues, fun hu => absurd hu hunique⟩

theorem Remembered.mono (h : Remembered lib record entry uniqueValues)
    (hsub : uniqueValues ⊆ uniqueValues') :
    Remembered lib record entry uniqueValues' := by
  obtain ⟨values, hvalues, hmem⟩ := h
  exact ⟨values, hvalues, fun hunique => hsub (hmem hunique)⟩

/-- The table of the record has indexes, and the record is remembered in each. -/
def RememberedIn (lib : ProjectionLibraries) (schema : DatabaseSchema) (record : DbRecord)
    (uniqueValues : UniqueValues) : Prop :=
  ∃ indexes, recordIndexes schema record.table = .ok indexes ∧
    ∀ entry ∈ indexes.toList, Remembered lib record entry uniqueValues

theorem validateUpsert_ok (hone : OneKeyEach uniqueValues)
    (h : validateUpsert lib reads paths uniqueValues record = .ok uniqueValues') :
    OneKeyEach uniqueValues' ∧ uniqueValues ⊆ uniqueValues' ∧
    RememberedIn lib reads.schema record uniqueValues' := by
  obtain ⟨indexes, hindexes, h⟩ := bind_eq_ok.mp h
  replace hindexes := badRequest_eq_ok.mp hindexes
  obtain ⟨⟨hone', hsub⟩, hall⟩ := foldlM_invariant (f := validateIndex lib reads paths record) (I :=
    fun u => OneKeyEach u ∧ uniqueValues ⊆ u) (Q := fun entry u => Remembered lib record entry u) (fun _ hI hstep => by
      obtain ⟨hone', hsub, hremembered⟩ := validateIndex_ok hI.1 hstep
      exact ⟨⟨hone', fun _ hmem => hsub (hI.2 hmem)⟩, hremembered⟩)
    (fun _ hI hQ hstep => hQ.mono (validateIndex_ok hI.1 hstep).2.1)
    ⟨hone, fun _ hmem => hmem⟩ h
  exact ⟨hone', hsub, indexes, hindexes, hall⟩

/-- No two of the upserts take the values of a unique index of a table, and each has its values. -/
structure UpsertsValid (schema : DatabaseSchema) (upserts : List DbRecord) : Prop where
  indexable : ∀ record ∈ upserts, ∃ indexes, recordIndexes schema record.table = .ok indexes ∧
    ∀ entry ∈ indexes.toList, ∃ values, recordIndexValues record entry.2 = .ok values
  unique : ∀ a ∈ upserts, ∀ b ∈ upserts, a.table = b.table → ∀ indexes, recordIndexes schema a.table = .ok indexes →
    ∀ entry ∈ indexes.toList, entry.2.unique = true →
      recordIndexValues a entry.2 = recordIndexValues b entry.2 → a.key = b.key

theorem validate_upserts {upserts : List DbRecord} {deletes deleteIdentities : List String}
    (h : validateTransactionUniqueIndexes lib reads upserts deletes deleteIdentities = .ok ()) :
    UpsertsValid reads.schema upserts := by
  obtain ⟨uniqueValues, hfold, -⟩ := bind_eq_ok.mp h
  obtain ⟨hone, hall⟩ := foldlM_invariant (I := OneKeyEach) (Q := RememberedIn lib reads.schema) (fun _ hI hstep => by
      obtain ⟨hone', -, hremembered⟩ := validateUpsert_ok hI hstep
      exact ⟨hone', hremembered⟩)
    (fun _ hI hQ hstep => by
      obtain ⟨indexes, hindexes, hQ⟩ := hQ
      exact ⟨indexes, hindexes, fun entry hentry => (hQ entry hentry).mono (validateUpsert_ok hI hstep).2.1⟩)
    (fun _ _ _ hmem => absurd hmem not_mem_nil) hfold
  constructor
  · intro record hrecord
    obtain ⟨indexes, hindexes, hremembered⟩ := hall record hrecord
    exact ⟨indexes, hindexes, fun entry hentry => (hremembered entry hentry).imp fun _ hvalues => hvalues.1⟩
  · intro a ha b hb htable indexes hindexes entry hentry hunique hvalues
    obtain ⟨indexesA, hindexesA, hA⟩ := hall a ha
    obtain ⟨indexesB, hindexesB, hB⟩ := hall b hb
    obtain rfl := ok.inj (hindexes.symm.trans hindexesA)
    obtain rfl := ok.inj ((htable ▸ hindexes).symm.trans hindexesB)
    obtain ⟨valuesA, hvaluesA, hmemA⟩ := hA entry hentry
    obtain ⟨valuesB, hvaluesB, hmemB⟩ := hB entry hentry
    obtain rfl : valuesA = valuesB := ok.inj ((hvaluesA.symm.trans hvalues).trans hvaluesB)
    exact hone _ _ _ (hmemA hunique) (htable ▸ hmemB hunique)

/-! ## What is prepared -/

theorem identityOf_mutation (operation : RecordOperation) :
    identityOf (mutationPlace (operation.mutation nowMs none)).1
    (mutationPlace (operation.mutation nowMs none)).2 = recordIdentity operation := by
  cases operation <;> simp [mutationPlace, RecordOperation.mutation, identityOf, recordIdentity, toString]

/-- The changes of operations whose components are safe, each for a record of its own. -/
structure Changes (nowMs : Nat) (operations : List DbRecordMutationDraft)
    (kept : List RecordOperation) : Prop where
  eq : operations = kept.map fun operation => operation.mutation nowMs none
  safe : ∀ operation ∈ kept, componentsSafe operation = true
  once : (kept.map recordIdentity).Nodup

/-- What is collected is that of the operations. -/
structure PreparedFrom (nowMs : Nat) (p : Preparation) : Prop where
  changes : ∃ kept, Changes nowMs p.operations kept ∧ ∀ operation ∈ kept, recordIdentity operation ∈ p.seenKeys
  provisional : p.provisionalUpserts = (upsertDrafts p.operations).map fun draft => draft.intoRecord 0
  deletes : ∀ path, path ∈ p.deletes ↔ ∃ draft ∈ deleteDrafts p.operations, draft.path = path
  deleteIdentities : ∀ identity, identity ∈ p.deleteIdentities ↔
    ∃ draft ∈ deleteDrafts p.operations, identityOf draft.table draft.key = identity

theorem safe_of_validateOperationPath {schema : DatabaseSchema}
    (h : validateOperationPath schema operation = .ok ()) :
    componentsSafe operation = true := by
  have hsafe : ∀ {value message : String}, ensureSafe value message = .ok () →
    ensureSafeRecordComponent value = true := by
    intro value message h
    unfold ensureSafe at h
    split at h
    · assumption
    · cases h
  cases operation with
  | upsert | delete =>
    obtain ⟨htable, hkey⟩ := check_eq_ok.mp h
    exact Bool.and_eq_true _ _ ▸ ⟨hsafe (check_eq_ok.mp htable).1, hsafe hkey⟩
  | nestedUpsert | nestedDelete =>
    exact safe_nested hsafe h
where
  safe_nested {schema : DatabaseSchema} {table parentKey nested nestedKey : String}
      (hsafe : ∀ {value message : String}, ensureSafe value message = .ok () → ensureSafeRecordComponent value = true)
      (h : validateNestedRecordPath schema table parentKey nested nestedKey = .ok ()) :
      (ensureSafeRecordComponent table && ensureSafeRecordComponent parentKey && ensureSafeRecordComponent nested &&
        ensureSafeRecordComponent nestedKey) = true := by
    obtain ⟨htable, h⟩ := check_eq_ok.mp h
    obtain ⟨hparent, h⟩ := check_eq_ok.mp h
    obtain ⟨hnested, h⟩ := check_eq_ok.mp h
    split at h
    · simp [hsafe (check_eq_ok.mp htable).1, hsafe hparent, hsafe hnested, hsafe h]
    · cases h

/-- The checks of partitions and shards leave the changes. -/
structure SameChanges (p p' : Preparation) : Prop where
  seenKeys : p'.seenKeys = p.seenKeys
  operations : p'.operations = p.operations
  provisional : p'.provisionalUpserts = p.provisionalUpserts
  deletes : p'.deletes = p.deletes
  deleteIdentities : p'.deleteIdentities = p.deleteIdentities

theorem sameChanges_partition {partition : String} {isNested : Bool}
    (h : ensureTransactionPartition p partition isNested = .ok p') : SameChanges p p' := by
  unfold ensureTransactionPartition at h
  dsimp only at h
  split at h
  · split at h
    · cases h
    · split at h
      · cases h
      · obtain rfl := ok.inj h
        exact ⟨rfl, rfl, rfl, rfl, rfl⟩
  · split at h
    · cases h
    · obtain rfl := ok.inj h
      exact ⟨rfl, rfl, rfl, rfl, rfl⟩

theorem sameChanges_shard {shard : Nat} (h : ensureSameTransactionShard p shard = .ok p') :
    SameChanges p p' := by
  unfold ensureSameTransactionShard at h
  split at h
  · split at h
    · cases h
    · obtain rfl := ok.inj h
      exact ⟨rfl, rfl, rfl, rfl, rfl⟩
  · obtain rfl := ok.inj h
    exact ⟨rfl, rfl, rfl, rfl, rfl⟩

theorem SameChanges.add (h : SameChanges p p') (currentLsn : Nat)
    (mutation : DbRecordMutationDraft) :
    SameChanges (p.add currentLsn mutation) (p'.add currentLsn mutation) := by
  obtain ⟨hseen, hoperations, hprovisional, hdeletes, hidentities⟩ := h
  cases mutation with
  | upsert record =>
    refine ⟨hseen, ?_, ?_, hdeletes, hidentities⟩
    · simp only [Preparation.add, hoperations]
    · simp only [Preparation.add, hprovisional]
  | delete record =>
    by_cases hzero : currentLsn = 0
    · simp only [Preparation.add, if_pos hzero]
      exact ⟨hseen, hoperations, hprovisional, hdeletes, hidentities⟩
    · simp only [Preparation.add, if_neg hzero, hoperations, hdeletes, hidentities]
      exact ⟨hseen, rfl, hprovisional, rfl, rfl⟩

theorem PreparedFrom.of_same {p p' : Preparation} (h : PreparedFrom nowMs p)
    (hsame : SameChanges p p') :
    PreparedFrom nowMs p' := by
  obtain ⟨hseen, hoperations, hprovisional, hdeletes, hidentities⟩ := hsame
  constructor
  · rw [hoperations, hseen]
    exact h.changes
  · rw [hoperations, hprovisional]
    exact h.provisional
  · rw [hoperations, hdeletes]
    exact h.deletes
  · rw [hoperations, hidentities]
    exact h.deleteIdentities

theorem upsertDrafts_append (operations more : List DbRecordMutationDraft) :
    upsertDrafts (operations ++ more) = upsertDrafts operations ++ upsertDrafts more :=
  filterMap_append

theorem deleteDrafts_append (operations more : List DbRecordMutationDraft) :
    deleteDrafts (operations ++ more) = deleteDrafts operations ++ deleteDrafts more :=
  filterMap_append

/-- The change of an operation whose record has not been seen is added, or left out. -/
theorem PreparedFrom.add (h : PreparedFrom nowMs p) (hsafe : componentsSafe operation = true)
    (hnew : recordIdentity operation ∉ p.seenKeys) (currentLsn : Nat) :
    PreparedFrom nowMs (Preparation.add { p with seenKeys := recordIdentity operation :: p.seenKeys } currentLsn
    (operation.mutation nowMs none)) := by
  obtain ⟨kept, hkept, hseen⟩ := h.changes
  have hall : ∀ other ∈ kept, recordIdentity other ∈ recordIdentity operation :: p.seenKeys := fun other hother =>
    mem_cons_of_mem _ (hseen other hother)
  have hpush : Changes nowMs (p.operations ++ [operation.mutation nowMs none]) (kept ++ [operation]) := by
    refine ⟨by rw [hkept.eq, map_append]; rfl, ?_, ?_⟩
    · intro other hother
      rcases mem_append.mp hother with hother | hother
      · exact hkept.safe other hother
      · exact mem_singleton.mp hother ▸ hsafe
    · rw [map_append, nodup_append]
      refine ⟨hkept.once, nodup_singleton _, fun identity hidentity other hother heq => hnew ?_⟩
      obtain ⟨old, hold, rfl⟩ := mem_map.mp hidentity
      rw [← mem_singleton.mp hother, ← heq]
      exact hseen old hold
  have hpushed : ∀ other ∈ kept ++ [operation], recordIdentity other ∈ recordIdentity operation :: p.seenKeys := by
    intro other hother
    rcases mem_append.mp hother with hother | hother
    · exact hall other hother
    · exact mem_singleton.mp hother ▸ mem_cons_self
  cases hmutation : operation.mutation nowMs none with
  | upsert draft =>
    rw [hmutation] at hpush
    refine ⟨⟨kept ++ [operation], hpush, hpushed⟩, ?_, ?_, ?_⟩
    · show p.provisionalUpserts ++ [draft.intoRecord 0] = _
      rw [Preparation.add, upsertDrafts_append, map_append, h.provisional]
      rfl
    · intro path
      rw [Preparation.add, deleteDrafts_append, h.deletes]
      simp [deleteDrafts]
    · intro identity
      rw [Preparation.add, deleteDrafts_append, h.deleteIdentities]
      simp [deleteDrafts]
  | delete draft =>
    rw [hmutation] at hpush
    by_cases hzero : currentLsn = 0
    · rw [Preparation.add, if_pos hzero]
      exact ⟨⟨kept, hkept, hall⟩, h.provisional, h.deletes, h.deleteIdentities⟩
    · rw [Preparation.add, if_neg hzero]
      refine ⟨⟨kept ++ [operation], hpush, hpushed⟩, ?_, ?_, ?_⟩
      · show p.provisionalUpserts = (upsertDrafts (p.operations ++ [.delete draft])).map _
        rw [upsertDrafts_append, map_append, h.provisional]
        simp [upsertDrafts]
      · intro path
        show path ∈ draft.path :: p.deletes ↔ ∃ d ∈ deleteDrafts (p.operations ++ [.delete draft]), _
        rw [deleteDrafts_append, mem_cons, h.deletes]
        simp [deleteDrafts, or_and_right, exists_or, or_comm, eq_comm]
      · intro identity
        show identity ∈ identityOf draft.table draft.key :: p.deleteIdentities ↔
          ∃ d ∈ deleteDrafts (p.operations ++ [.delete draft]), _
        rw [deleteDrafts_append, mem_cons, h.deleteIdentities]
        simp [deleteDrafts, or_and_right, exists_or, or_comm, eq_comm]

theorem prepareOperation_cases (h : prepareOperation lib checks nowMs reads p request = .ok p') :
    validateOperationPath reads.schema request.1 =
    .ok () ∧ ∃ p₁ p₃ currentLsn, SameChanges p p₁ ∧ recordIdentity request.1 ∉ p₁.seenKeys ∧
    SameChanges { p₁ with seenKeys := recordIdentity request.1 :: p₁.seenKeys } p₃ ∧
    p' = p₃.add currentLsn (request.1.mutation nowMs none) := by
  obtain ⟨-, h⟩ := check_eq_ok.mp h
  obtain ⟨hpath, h⟩ := check_eq_ok.mp h
  obtain ⟨-, h⟩ := check_eq_ok.mp h
  obtain ⟨p₁, hpartition, h⟩ := bind_eq_ok.mp h
  obtain ⟨p₂, honce, h⟩ := bind_eq_ok.mp h
  obtain ⟨shard, -, h⟩ := bind_eq_ok.mp h
  obtain ⟨p₃, hshard, h⟩ := bind_eq_ok.mp h
  obtain ⟨currentLsn, -, hadd⟩ := bind_eq_ok.mp h
  rw [identityOf_mutation] at honce
  unfold ensureTransactionKeyOnce at honce
  split at honce
  · cases honce
  · next hnew =>
    obtain rfl := ok.inj honce
    exact ⟨hpath, p₁, p₃, currentLsn, sameChanges_partition hpartition,
      by simpa using hnew, sameChanges_shard hshard, (ok.inj hadd).symm⟩

theorem prepareOperation_ok (h : prepareOperation lib checks nowMs reads p request = .ok p')
    (hp : PreparedFrom nowMs p)
    :
    PreparedFrom nowMs p' := by
  obtain ⟨hpath, p₁, p₃, currentLsn, hsame, hnew, hsame', rfl⟩ := prepareOperation_cases h
  exact ((hp.of_same hsame).add (safe_of_validateOperationPath hpath) hnew currentLsn).of_same (hsame'.add currentLsn _)

/-- What is known of the operations of a transaction that is accepted. -/
structure AcceptedOperations (schema : DatabaseSchema) (nowMs : Nat)
    (operations : List DbRecordMutationDraft) :
    Prop where
  changes : ∃ kept, Changes nowMs operations kept
  upserts : UpsertsValid schema ((upsertDrafts operations).map fun draft => draft.intoRecord 0)

theorem preparedFrom_of_foldlM
    (h : requests.foldlM (prepareOperation lib checks nowMs reads) ⟨[], [], none, none, [],
    [], [], []⟩ = .ok p) : PreparedFrom nowMs p := by
  have hnone : PreparedFrom nowMs ⟨[], [], none, none, [], [], [], []⟩ :=
    ⟨⟨[], ⟨rfl, nofun, nodup_nil⟩, nofun⟩,
      rfl, by simp [deleteDrafts], by simp [deleteDrafts]⟩
  exact (foldlM_invariant (Q := fun _ _ => True) (fun _ hI hstep => ⟨prepareOperation_ok hstep hI, trivial⟩)
    (fun _ _ _ _ => trivial) hnone h).1

theorem PreparedFrom.accepted (hp : PreparedFrom nowMs p)
    (hvalid : validateTransactionUniqueIndexes lib reads p.provisionalUpserts p.deletes p.deleteIdentities = .ok ()) :
    AcceptedOperations reads.schema nowMs p.operations := by
  obtain ⟨kept, hkept, -⟩ := hp.changes
  refine ⟨⟨kept, hkept⟩, ?_⟩
  rw [← hp.provisional]
  exact validate_upserts hvalid

theorem prepareRecordTransaction_accepted
    (h : prepareRecordTransaction lib checks nowMs reads requests = .ok prepared)
    :
    AcceptedOperations reads.schema nowMs prepared.operations := by
  obtain ⟨p, hfold, h⟩ := bind_eq_ok.mp h
  obtain ⟨hvalid, h⟩ := check_eq_ok.mp h
  obtain rfl := ok.inj h
  exact (preparedFrom_of_foldlM hfold).accepted hvalid

def isUpsert : RecordOperation → Bool
  | .upsert .. | .nestedUpsert .. => true
  | .delete .. | .nestedDelete .. => false

/-- Every upsert is prepared. -/
theorem operations_of_foldlM (hupserts : ∀ request ∈ requests, isUpsert request.1 = true)
    (h : requests.foldlM (prepareOperation lib checks nowMs reads) p = .ok p') :
    p'.operations = p.operations ++ requests.map fun request => request.1.mutation nowMs none := by
  have hstep : ∀ {p p' : Preparation} {request : RecordOperation × Option Nat}, isUpsert request.1 = true →
      prepareOperation lib checks nowMs reads p request = .ok p' →
      p'.operations = p.operations ++ [request.1.mutation nowMs none] := by
    intro p p' request hupsert h
    obtain ⟨-, p₁, p₃, currentLsn, hsame, -, hsame', rfl⟩ := prepareOperation_cases h
    rw [← hsame.operations, ← hsame'.operations]
    obtain ⟨operation, expectedLsn⟩ := request
    cases operation with
    | upsert | nestedUpsert => rfl
    | delete | nestedDelete => cases hupsert
  induction requests generalizing p p' with
  | nil =>
    obtain rfl := ok.inj h
    exact (append_nil _).symm
  | cons request requests ih =>
    obtain ⟨hfirst, hupserts⟩ := forall_mem_cons.mp hupserts
    obtain ⟨p₁, h₁, h⟩ := bind_eq_ok.mp ((foldlM_cons ..).symm.trans h)
    rw [ih hupserts h, hstep hfirst h₁, append_assoc]
    rfl

/-- Every upsert of an accepted transaction is in it. -/
theorem operations_of_upserts (hupserts : ∀ request ∈ requests, isUpsert request.1 = true)
    (h : prepareRecordTransaction lib checks nowMs reads requests = .ok prepared) :
    prepared.operations = requests.map fun request => request.1.mutation nowMs none := by
  obtain ⟨p, hfold, h⟩ := bind_eq_ok.mp h
  obtain ⟨-, h⟩ := check_eq_ok.mp h
  obtain rfl := ok.inj h
  exact operations_of_foldlM hupserts hfold

end NextDb.Api.RecordChecks
