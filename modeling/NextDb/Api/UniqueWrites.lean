import NextDb.Api.RecordWriters

/-!
# Unique indexes under concurrent writers

A write compares the values of its records with the answer of the projection's index and with the
hot cache, and then appends to the log.

* `uniqueCommitted_run`: no two committed records of a table have the same values in a unique index:
  in every run in which a committed record with the values of an upsert is seen when the upsert is
  validated, or replaced, none is logged between the validation and the append, and a record is
  changed at its path.
-/

namespace NextDb.Api.UniqueWrites

open Run List Option Std Records Converge ProjectionKv RecordChecks TransactionJob RecordWriters
open RecordCommit (RecordOperation)
open RecordMatch (recordIndexValues)

/-! ## Rivals -/

/-- The records have the same values in a unique index of their table. -/
def RivalsIn (schema : DatabaseSchema) (name : String) (index : IndexSchema) (values : List Json)
    (a b : DbRecord) : Prop :=
  a.table = b.table ∧ ((shapeOf schema).indexes a.table)[name]? = some index ∧ index.unique = true ∧
    recordIndexValues a index = .ok values ∧ recordIndexValues b index = .ok values

/-- The records have the same values under a unique index. -/
def Rivals (schema : DatabaseSchema) (a b : DbRecord) : Prop :=
  ∃ name index values, RivalsIn schema name index values a b

/-- No two committed records have the same values in a unique index of their table. -/
def UniqueCommitted (schema : DatabaseSchema) (wal : List WalRecord) : Prop :=
  ∀ (path path' : String) (a b : DbRecord), (recordsByPath wal)[path]? = some a → (recordsByPath wal)[path']? = some b →
    Rivals schema a b → path = path'

theorem Rivals.symm {schema : DatabaseSchema} {a b : DbRecord} (h : Rivals schema a b) :
    Rivals schema b a := by
  obtain ⟨name, index, values, htable, hindex, hunique, ha, hb⟩ := h
  exact ⟨name, index, values, htable.symm, htable ▸ hindex, hunique, hb, ha⟩

/-! ## What a validation compares with -/

/-- The projection's index has the record, and the hot cache has no other and no deletion of it; or
the hot cache has the record. -/
def Seen (lib : ProjectionLibraries) (s : WriteState) (name : String) (values : List Json)
    (record : DbRecord) : Prop :=
  ((∃ rows, queryIndex lib s.records record.table name values none none = .ok rows ∧ record ∈ rows) ∧
      recordCurrentForUniqueValidation s.hot record = some record) ∨
    s.hot.get record.table record.key = some (some record)

/-- The request deletes the record, or upserts it. -/
def Replaces (operations : List DbRecordMutationDraft) (record : DbRecord) : Prop :=
  (∃ deleted ∈ deleteDrafts operations,
      deleted.path = record.path ∨ identityOf deleted.table deleted.key = identityOf record.table record.key) ∨
    ∃ draft ∈ upsertDrafts operations, draft.path = record.path

variable {lib : ProjectionLibraries} {checks : OperationChecks} {schema : DatabaseSchema}
    {s t : WriteState}

theorem scalarEq_self {value : Json} (h : RecordMatch.isScalar value = true) :
    scalarEq value value = true := by
  cases value with
  | null => rfl
  | bool b | string b => exact beq_self_eq_true b
  | number n => cases n <;> simp [scalarEq, numberEq, floatEq]
  | array | object => cases h

variable {record : DbRecord} {index : IndexSchema} {values : List Json} {name : String}
    {paths : TransactionPaths}
  {reads : RecordReads} {nowMs : Nat}

theorem valuesEq_self (h : recordIndexValues record index = .ok values) :
    valuesEq values values = true := by
  have hscalar : ∀ value ∈ values, RecordMatch.isScalar value = true := by
    intro value hvalue
    obtain ⟨field, -, hfield⟩ := mem_of_mapM_ok h hvalue
    split at hfield
    · cases hfield
    · split at hfield
      · next hscalar =>
        obtain rfl := Except.ok.inj hfield
        exact hscalar
      · cases hfield
  clear h
  induction values with
  | nil => rfl
  | cons value values ih =>
    obtain ⟨hvalue, hvalues⟩ := forall_mem_cons.mp hscalar
    rw [valuesEq, scalarEq_self hvalue, ih hvalues]
    rfl

/-- Every record that is compared with is under the key of the candidate, replaced by the request,
or has other values. -/
def Compared (lib : ProjectionLibraries) (reads : RecordReads) (paths : TransactionPaths)
    (record : DbRecord) (entry : String × IndexSchema) : Prop :=
  entry.2.unique = true → ∀ values, recordIndexValues record entry.2 = .ok values →
    ∃ rows, queryIndex lib reads.records record.table entry.1 values none none = .ok rows ∧
      (∀ existing ∈ rows.filterMap (recordCurrentForUniqueValidation reads.hot),
        recordConflictsWithUniqueCandidate record entry.2 values existing paths = .ok false) ∧
      ∀ existing ∈ (reads.hot.scanKeyOrder record.table).getD [],
        recordConflictsWithUniqueCandidate record entry.2 values existing paths = .ok false

theorem refuseConflict_ok {candidate existing : DbRecord}
    (h : refuseConflict candidate name index values paths existing = .ok ()) :
    recordConflictsWithUniqueCandidate candidate index values existing paths = .ok false := by
  obtain ⟨conflicts, hconflicts, h⟩ := bind_eq_ok.mp h
  cases conflicts with
  | false => exact hconflicts
  | true => cases h

variable {uniqueValues uniqueValues' : UniqueValues} {other : DbRecord}
    {operations : List DbRecordMutationDraft}
  {r : WalRecord} {path : String}

theorem validateIndex_compared {entry : String × IndexSchema}
    (h : validateIndex lib reads paths record uniqueValues entry = .ok uniqueValues') :
    Compared lib reads paths record entry := by
  intro hunique values hvalues
  obtain ⟨found, hfound, h⟩ := bind_eq_ok.mp h
  obtain rfl := Except.ok.inj ((badRequest_eq_ok.mp hfound).symm.trans hvalues)
  simp only [hunique, Bool.not_true, Bool.false_eq_true, if_false] at h
  split at h
  · cases h
  · obtain ⟨rows, hrows, h⟩ := bind_eq_ok.mp h
    obtain ⟨hprojection, h⟩ := check_eq_ok.mp h
    obtain ⟨hhot, -⟩ := check_eq_ok.mp h
    refine ⟨rows, internal_eq_ok.mp hrows, fun existing hexisting => ?_, fun existing hexisting => ?_⟩
    · exact refuseConflict_ok (forM_eq_ok.mp hprojection existing hexisting)
    · exact refuseConflict_ok (forM_eq_ok.mp hhot existing hexisting)

theorem validateUpsert_compared
    (h : validateUpsert lib reads paths uniqueValues record = .ok uniqueValues') :
    ∃ indexes, recordIndexes reads.schema
    record.table = .ok indexes ∧ ∀ entry ∈ indexes.toList,
    Compared lib reads paths record entry := by
  obtain ⟨indexes, hindexes, h⟩ := bind_eq_ok.mp h
  obtain ⟨-, hall⟩ := foldlM_invariant (I := fun _ => True) (Q := fun entry _ => Compared lib reads paths record entry)
    (fun _ _ hstep => ⟨trivial, validateIndex_compared hstep⟩) (fun _ _ hQ _ => hQ) trivial h
  exact ⟨indexes, badRequest_eq_ok.mp hindexes, hall⟩

/-- What a validation that succeeds has compared the records of a request with. -/
theorem validate_compared {upserts : List DbRecord} {deletes deleteIdentities : List String}
    (h : validateTransactionUniqueIndexes lib reads upserts deletes deleteIdentities = .ok ())
    (hrecord : record ∈ upserts)
    (hindex : ((shapeOf reads.schema).indexes record.table)[name]? = some index) :
    Compared lib reads ⟨deletes, deleteIdentities, upserts.map DbRecord.path⟩ record (name,
    index) := by
  obtain ⟨uniqueValues, hfold, -⟩ := bind_eq_ok.mp h
  obtain ⟨-, hall⟩ := foldlM_invariant (I := fun _ => True) (Q := fun record _ => ∃ indexes,
    recordIndexes reads.schema record.table = .ok indexes ∧
      ∀ entry ∈ indexes.toList, Compared lib reads ⟨deletes, deleteIdentities, upserts.map DbRecord.path⟩ record entry)
    (fun _ _ hstep => ⟨trivial, validateUpsert_compared hstep⟩)
    (fun _ _ hcompared _ => by exact hcompared) trivial hfold
  obtain ⟨indexes, hindexes, hcompared⟩ := hall record hrecord
  rw [indexes_shapeOf hindexes] at hindex
  exact hcompared (name, index) (ExtTreeMap.mem_toList_iff_getElem?_eq_some.mpr hindex)

/-- A record that is seen, and has the values of an upsert under another key, is replaced. -/
theorem replaces_of_seen {p : Preparation} (hprepared : PreparedFrom nowMs p)
    (h : validatePrepared lib (s.reads schema) p = .ok ()) (hrecord : record ∈ p.provisionalUpserts)
    (hrivals : RivalsIn schema name index values record other) (hkey : other.key ≠ record.key)
    (hseen : Seen lib s name values other) : Replaces p.operations other := by
  obtain ⟨htable, hindex, hunique, hvalues, hother⟩ := hrivals
  obtain ⟨rows, hrows, hprojection, hhot⟩ := validate_compared h hrecord hindex hunique values hvalues
  have hconflicts : recordConflictsWithUniqueCandidate record index values other ⟨p.deletes, p.deleteIdentities,
      p.provisionalUpserts.map DbRecord.path⟩ = .ok false := by
    rcases hseen with ⟨⟨rows', hrows', hmem⟩, hcurrent⟩ | hget
    · rw [← htable] at hrows'
      obtain rfl := Except.ok.inj (hrows.symm.trans hrows')
      exact hprojection other (mem_filterMap.mpr ⟨other, hmem, hcurrent⟩)
    · refine hhot other ?_
      obtain ⟨hot, hhot, hfound⟩ := map_eq_some_iff.mp hget
      have hscan : s.hot.scanKeyOrder record.table = some (hot.records.toList.map Prod.snd) := by
        rw [htable]
        exact map_eq_some_iff.mpr ⟨hot, hhot, rfl⟩
      show other ∈ (s.hot.scanKeyOrder record.table).getD []
      rw [hscan]
      exact mem_map.mpr ⟨(other.key, other), ExtTreeMap.mem_toList_iff_getElem?_eq_some.mpr hfound, rfl⟩
  unfold recordConflictsWithUniqueCandidate at hconflicts
  split at hconflicts
  · next hskip =>
    simp only [Bool.or_eq_true, beq_iff_eq, contains_iff_mem] at hskip
    rcases hskip with ((hsame | hdeleted) | hidentity) | hupserted
    · exact absurd hsame hkey
    · obtain ⟨draft, hdraft, hpath⟩ := (hprepared.deletes _).mp hdeleted
      exact .inl ⟨draft, hdraft, .inl hpath⟩
    · obtain ⟨draft, hdraft, hsame⟩ := (hprepared.deleteIdentities _).mp hidentity
      exact .inl ⟨draft, hdraft, .inr hsame⟩
    · rw [hprepared.provisional, List.map_map] at hupserted
      obtain ⟨draft, hdraft, hpath⟩ := List.mem_map.mp hupserted
      exact .inr ⟨draft, hdraft, hpath⟩
  · obtain ⟨existing, hexisting, hne⟩ := bind_eq_ok.mp hconflicts
    obtain rfl := Except.ok.inj ((badRequest_eq_ok.mp hexisting).symm.trans hother)
    cases (Except.ok.inj hne).symm.trans (valuesEq_self hother)

/-! ## The invariant -/

/-- A committed record with the values of an upsert is seen when the upsert is validated, if the
request does not replace it; what has them when the request is logged had them then; and a record is
changed at its path. -/
def SeenInTime (lib : ProjectionLibraries) (schema : DatabaseSchema) (s : WriteState) :
    WriteEvent → Prop
  | .validate i => ∀ writer p readAt, s.writers[i]? = some writer → writer.phase = .read p readAt →
      ∀ record ∈ p.provisionalUpserts, ∀ (path : String) (other : DbRecord),
      (recordsByPath s.wal)[path]? = some other →
      other.key ≠ record.key → ∀ name index values, RivalsIn schema name index values record other →
      Replaces p.operations other ∨ Seen lib s name values other
  | .append i r => AtPaths s.wal r ∧ ∀ writer operations readAt checkedAt, s.writers[i]? =
    some writer →
      writer.phase = .checked operations readAt checkedAt → ∀ draft ∈ upsertDrafts operations,
      ∀ (path : String) (other : DbRecord), (recordsByPath s.wal)[path]? = some other →
      other.key ≠ draft.key →
      Rivals schema (draft.intoRecord 0) other →
      Replaces operations other ∨ (recordsByPath (s.wal.take checkedAt))[path]? = some other
  | _ => True

/-- The operations replace what had the values of an upsert when they were validated. -/
def ReplacesRivals (schema : DatabaseSchema) (wal : List WalRecord)
    (operations : List DbRecordMutationDraft) : Prop :=
  ∀ draft ∈ upsertDrafts operations, ∀ (path : String) (other : DbRecord), (recordsByPath wal)[path]? = some other →
    other.key ≠ draft.key → Rivals schema (draft.intoRecord 0) other → Replaces operations other

/-- The committed records are unique, and a writer that was checked replaces its rivals. -/
structure Inv (schema : DatabaseSchema) (s : WriteState) : Prop where
  writers : Writers schema s
  unique : UniqueCommitted schema s.wal
  checked : ∀ writer ∈ s.writers, ∀ operations readAt checkedAt, writer.phase = .checked operations readAt checkedAt →
    checkedAt ≤ s.wal.length ∧ ReplacesRivals schema (s.wal.take checkedAt) operations

variable {i : Nat} {writer : Writer}

/-- What the operations replace is changed by one of them. -/
theorem changed_of_replaces {kept : List RecordOperation} (hkept : Changes nowMs operations kept)
    (hoperations : recordMutations r.payload = operations) (hlogged : OperationsLogged s.wal)
    (hpaths : AtPaths s.wal r)
    (hother : (recordsByPath s.wal)[path]? = some other) (h : Replaces operations other) :
    ∃ mutation ∈ operations, mutationPath mutation = path := by
  have hcommitted := committedAt_recordsByPath hlogged
  have hpath := hcommitted.path path other hother
  rcases h with ⟨deleted, hdeleted, hsame | hidentity⟩ | ⟨draft, hdraft, hsame⟩
  · exact ⟨_, mem_deleteDrafts.mp hdeleted, hsame.trans hpath⟩
  · have hmem := mem_deleteDrafts.mp hdeleted
    have hplace : (other.table, other.key) = mutationPlace (.delete deleted) :=
      ((located_of_changes hkept hmem).place_of_identity (hcommitted.located path other hother) hidentity).symm
    exact ⟨_, hmem, (hpaths _ (hoperations ▸ hmem) path other hother hplace).symm⟩
  · exact ⟨_, mem_upsertDrafts.mp hdraft, hsame.trans hpath⟩

/-- The committed records have different values after operations that replace what had the values.
-/
theorem unique_append (haccepted : AcceptedOperations schema nowMs operations)
    (hoperations : recordMutations r.payload = operations) (hlogged : OperationsLogged s.wal)
    (hunique : UniqueCommitted schema s.wal) (hpaths : AtPaths s.wal r)
    (hreplaces : ReplacesRivals schema s.wal operations) :
    UniqueCommitted schema (s.wal ++ [r]) := by
  obtain ⟨kept, hkept⟩ := haccepted.changes
  have hone := once_of_changes hkept
  have hapart : ∀ {mutation : DbRecordMutationDraft} {a b : DbRecord} {path : String}, mutation ∈ operations →
      mutationLeaves r.lsn mutation = some a → (recordsByPath s.wal)[path]? = some b →
      (∀ mutation ∈ operations, mutationPath mutation ≠ path) → ¬ Rivals schema a b := by
    intro mutation a b path hmem hleaves hb hkeeps hrivals
    cases mutation with
    | delete draft => cases hleaves
    | upsert draft =>
      obtain rfl := some.inj hleaves
      by_cases hkey : b.key = draft.key
      · obtain ⟨name, index, values, htable, -⟩ := hrivals
        have hplace : (b.table, b.key) = mutationPlace (.upsert draft) := Prod.ext htable.symm hkey
        exact hkeeps _ hmem (hpaths _ (hoperations ▸ hmem) path b hb hplace).symm
      · have hreplaced := hreplaces draft (mem_upsertDrafts.mpr hmem) path b hb hkey hrivals
        obtain ⟨mutation, hchanged, hpath⟩ := changed_of_replaces hkept hoperations hlogged hpaths hb hreplaced
        exact hkeeps mutation hchanged hpath
  intro path path' a b ha hb hrivals
  rw [recordsByPath_concat] at ha hb
  rcases (committed_afterTransaction hone hoperations).mp ha with ⟨mutation, hmem, rfl, hleaves⟩ | ⟨hkeeps, ha⟩
  · rcases (committed_afterTransaction hone hoperations).mp hb with ⟨mutation', hmem', rfl, hleaves'⟩ | ⟨hkeeps, hb⟩
    · cases mutation with
      | delete draft => cases hleaves
      | upsert draft =>
        cases mutation' with
        | delete draft' => cases hleaves'
        | upsert draft' =>
          obtain rfl := some.inj hleaves
          obtain rfl := some.inj hleaves'
          obtain ⟨name, index, values, htable, hindex, huniqueIndex, hvalues, hvalues'⟩ := hrivals
          have hsame : indexValuesOf (draft.intoRecord r.lsn) index = indexValuesOf
            (draft'.intoRecord r.lsn) index := by
            rw [indexValuesOf, indexValuesOf, hvalues, hvalues']
          have hkey : draft.key = draft'.key := key_eq_of_valid haccepted.upserts (mem_upsertDrafts.mpr hmem)
            (mem_upsertDrafts.mpr hmem') htable hindex huniqueIndex hsame
          rw [hone.place _ hmem _ hmem' (Prod.ext htable hkey)]
    · exact absurd hrivals (hapart hmem hleaves hb hkeeps)
  · rcases (committed_afterTransaction hone hoperations).mp hb with ⟨mutation', hmem', rfl, hleaves'⟩ | ⟨hkeeps', hb⟩
    · exact absurd hrivals.symm (hapart hmem' hleaves' ha hkeeps)
    · exact hunique path path' a b ha hb hrivals

namespace Inv

theorem of_same (h : Inv schema s) (hwriters : Writers schema t) (hwal : t.wal = s.wal)
    (hsame : t.writers = s.writers) : Inv schema t where
  writers := hwriters
  unique := by rw [hwal]; exact h.unique
  checked := by rw [hwal, hsame]; exact h.checked

/-- A writer goes on, and is not about to append. -/
theorem setPhase (h : Inv schema s) {phase : WriterPhase}
    (hwriters : Writers schema (s.setPhase i writer phase))
    (hphase : ∀ operations readAt checkedAt, phase ≠ .checked operations readAt checkedAt) :
    Inv schema (s.setPhase i writer phase) where
  writers := hwriters
  unique := h.unique
  checked := forall_mem_set h.checked fun operations readAt checkedAt hchecked =>
    absurd hchecked (hphase operations readAt checkedAt)

theorem validate (h : Inv schema s) (hwriter : s.writers[i]? = some writer) {p : Preparation}
    {readAt : Nat} (hphase : writer.phase = .read p readAt)
    (hvalid : validatePrepared lib (s.reads schema) p = .ok ())
    (hwriters : Writers schema (s.setPhase i writer (.checked p.operations readAt s.wal.length)))
    (hmeets : SeenInTime lib schema s (.validate i)) :
    Inv schema (s.setPhase i writer (.checked p.operations readAt s.wal.length)) := by
  refine ⟨hwriters, h.unique, forall_mem_set h.checked fun operations readAt' checkedAt hchecked => ?_⟩
  obtain ⟨rfl, rfl, rfl⟩ := WriterPhase.checked.inj hchecked
  have hprepared := (h.writers.ok writer (mem_of_getElem? hwriter)).read p readAt hphase
  refine ⟨Nat.le_refl _, fun draft hdraft path other hother hkey hrivals => ?_⟩
  replace hother : (recordsByPath (s.wal.take s.wal.length))[path]? = some other := hother
  rw [take_length] at hother
  have hrecord : draft.intoRecord 0 ∈ p.provisionalUpserts := by
    rw [hprepared.provisional]
    exact mem_map_of_mem hdraft
  obtain ⟨name, index, values, hrivals⟩ := hrivals
  rcases hmeets writer p readAt hwriter hphase _ hrecord path other hother hkey name index values hrivals with
    hreplaced | hseen
  · exact hreplaced
  · exact replaces_of_seen hprepared hvalid hrecord hrivals hkey hseen

theorem append (h : Inv schema s) (hwriter : s.writers[i]? = some writer)
    {operations : List DbRecordMutationDraft}
    {readAt checkedAt : Nat} {r : WalRecord}
    (hphase : writer.phase = .checked operations readAt checkedAt)
    (hpayload : r.payload = commitPayload writer.transaction operations)
    (hwriters : Writers schema { s.setPhase i writer (.logged r) with wal := s.wal ++ [r] })
    (hmeets : SeenInTime lib schema s (.append i r)) :
    Inv schema { s.setPhase i writer (.logged r) with wal := s.wal ++ [r] } := by
  have hmem := mem_of_getElem? hwriter
  have haccepted := (h.writers.ok writer hmem).checked _ _ _ hphase
  have hoperations : recordMutations r.payload = operations := by rw [hpayload, recordMutations_commitPayload]
  obtain ⟨-, hchecked⟩ := h.checked writer hmem operations readAt checkedAt hphase
  have hreplaces : ReplacesRivals schema s.wal operations := by
    intro draft hdraft path other hother hkey hrivals
    rcases hmeets.2 writer operations readAt checkedAt hwriter hphase draft hdraft path other hother hkey hrivals with
      hreplaced | hbefore
    · exact hreplaced
    · exact hchecked draft hdraft path other hbefore hkey hrivals
  refine ⟨hwriters, unique_append haccepted hoperations h.writers.logged h.unique hmeets.1 hreplaces,
    forall_mem_set (fun w hw operations' readAt' checkedAt' hphase' => ?_) (by simp)⟩
  obtain ⟨hle, hreplaced⟩ := h.checked w hw operations' readAt' checkedAt' hphase'
  refine ⟨by rw [length_append]; omega, ?_⟩
  rw [take_append_of_le_length hle]
  exact hreplaced

theorem step (h : Inv schema s) {e : WriteEvent} (hmeets : SeenInTime lib schema s e)
    (hstep : WriteStep lib checks schema s e t) : Inv schema t := by
  have hwriters := h.writers.step hstep
  cases hstep with
  | receive hsingle hnow =>
    refine ⟨hwriters, h.unique, fun w hw => ?_⟩
    rcases mem_append.mp hw with hw | hw
    · exact h.checked w hw
    · rw [mem_singleton.mp hw]
      simp
  | read | answer | failLookup | fail => exact h.setPhase hwriters (by simp)
  | validate hwriter hphase hvalid hoperations => exact h.validate hwriter hphase hvalid hwriters hmeets
  | append hwriter hphase hpayload hpos hlsn habove => exact h.append hwriter hphase hpayload hwriters hmeets
  | @cache i writer r job hwriter hphase hjob =>
    have hcached : Writers schema (s.setPhase i writer (.cached r job)) := hwriters.of_same rfl rfl
    exact (h.setPhase hcached (by simp)).of_same hwriters rfl rfl
  | @enqueue i writer r job hwriter hphase =>
    have hcommitted : Writers schema (s.setPhase i writer (.committed r)) := hwriters.of_same rfl rfl
    exact (h.setPhase hcommitted (by simp)).of_same hwriters rfl rfl
  | @apply job queue hqueue =>
    obtain ⟨hwal, hsame, -⟩ := @work_fields lib { s with queue } job
    exact h.of_same hwriters hwal hsame
  | fetch | hydrate | touch | evict | evictIdle => exact h.of_same hwriters rfl rfl

end Inv

/-- Unique indexes stay unique over every run. -/
theorem uniqueCommitted_run (hs : Settled s) (hunique : UniqueCommitted schema s.wal)
    (hrun : Reaches (WriteStep lib checks schema) (SeenInTime lib schema) s t) :
    UniqueCommitted schema t.wal := by
  have h₀ : Inv schema s := ⟨hs.writersOk, hunique, by simp [hs.writers]⟩
  have h : Inv schema t := hrun.invariant (fun _ _ _ hI hmeets hstep => hI.step hmeets hstep) h₀
  exact h.unique

section Sample

/-- The address of a user is set. -/
def addressRecord (key address : String) (lsn : Nat) : WalRecord :=
  usersRecord lsn (.recordUpserted (userDraft key address))

/-- Users are hot. -/
def hotUsers : RecordHotState := ⟨(∅ : BTreeMap String HotTable).insert "users" ⟨none, ∅, ∅, ∅⟩, 0⟩

def setter (key address : String) (phase : WriterPhase) : Writer :=
  ⟨false, [(setEmail key address, none)], 0, phase⟩

/-- Requests before the applier does anything. -/
def setting (wal : List WalRecord) (hot : RecordHotState) (writers : List Writer) : WriteState :=
  ⟨wal, hot, [], .empty, writers, []⟩

theorem settled_setting : Settled (setting [] hotUsers []) where
  ascending := .nil
  bounded := by simp [setting]
  logged := fun _ h => nomatch h
  queue := rfl
  writers := rfl
  readers := rfl

theorem none_committed : (recordsByPath [])[path]? ≠ some record := by
  simp [recordsByPath]

theorem unique_setting : UniqueCommitted usersSchema [] :=
  fun _ _ _ _ ha => absurd ha none_committed

abbrev SetFrom (meets : WriteState → WriteEvent → Prop) (t : WriteState) : Prop :=
  Reaches (WriteStep usersLibrary writable usersSchema) meets (setting [] hotUsers []) t

theorem set_first : SetFrom (SeenInTime usersLibrary usersSchema)
    (setting [addressRecord "a" "x" 1] hotUsers [setter "a" "x" (.logged (addressRecord "a" "x" 1))]) := by
  refine reaches_logged (r := addressRecord "a" "x" 1) (.refl (setting [] hotUsers [])) rfl (by decide +kernel) rfl
    (by decide) (fun _ h => nomatch h) trivial trivial (fun _ => ?_) fun _ => ⟨?_, ?_⟩
  · exact fun _ _ _ _ _ _ _ _ _ hother => absurd hother none_committed
  · exact fun _ _ _ _ hother => absurd hother none_committed
  · exact fun _ _ _ _ _ _ _ _ _ _ hother => absurd hother none_committed

def hotFirst : RecordHotState := hotAfter hotUsers (addressRecord "a" "x" 1)

def jobFirst : RecordProjectionJob :=
  .upsert 1 ((userDraft "a" "x").intoRecord 1) usersTable.indexes none

theorem hot_first : hotFirst.get "users" "a" = some (some ((userDraft "a" "x").intoRecord 1)) := by
  with_unfolding_all rfl

/-- The second request is validated while the hot cache has the user of the first. -/
def setBoth : WriteState := setting [addressRecord "a" "x" 1, addressRecord "b" "y" 2] hotFirst
  [setter "a" "x" (.cached (addressRecord "a" "x" 1) jobFirst), setter "b" "y" (.logged (addressRecord "b" "y" 2))]

theorem committed_first (h : (recordsByPath [addressRecord "a" "x" 1])[path]? = some record) :
    path = "tables/users/a" ∧ record = (userDraft "a" "x").intoRecord 1 := by
  have hcommitted : recordsByPath [addressRecord "a" "x" 1] =
      (∅ : BTreeMap String DbRecord).insert "tables/users/a" ((userDraft "a" "x").intoRecord 1) := rfl
  rw [hcommitted, ExtTreeMap.getElem?_insert] at h
  split at h
  · next hpath => exact ⟨(Std.compare_eq_iff_eq.mp hpath).symm, (some.inj h).symm⟩
  · exact absurd h (by simp)

theorem set_both : SetFrom (SeenInTime usersLibrary usersSchema) setBoth := by
  have h₁ : SetFrom (SeenInTime usersLibrary usersSchema) (setting [addressRecord "a" "x" 1] hotFirst
      [setter "a" "x" (.cached (addressRecord "a" "x" 1) jobFirst)]) :=
    set_first.take (e := .cache 0)
      (@WriteStep.cache _ _ _ _ 0 (setter "a" "x" (.logged (addressRecord "a" "x" 1))) _ jobFirst rfl rfl rfl) trivial
  refine reaches_logged (r := addressRecord "b" "y" 2) h₁ rfl (by decide +kernel) rfl (by decide)
    (by simp [setting, addressRecord, usersRecord]) trivial trivial (fun p => ?_) fun _ => ⟨?_, ?_⟩
  · intro writer p readAt _ _ record _ path other hother _ name index values _
    obtain ⟨-, rfl⟩ := committed_first hother
    exact .inr (.inr hot_first)
  · intro mutation hmem path record hrecord hplace
    obtain ⟨rfl, rfl⟩ := committed_first hrecord
    obtain rfl := mem_singleton.mp hmem
    exact absurd (congrArg Prod.snd hplace) (by decide)
  · intro writer operations readAt checkedAt hwriter hphase draft _ path other hother _ _
    obtain rfl := some.inj (getElem?_concat_length.symm.trans hwriter)
    cases hphase
    exact .inr hother

theorem uniqueCommitted_both : Settled (setting [] hotUsers []) ∧ UniqueCommitted usersSchema [] ∧
    SetFrom (SeenInTime usersLibrary usersSchema) setBoth ∧
    UniqueCommitted usersSchema setBoth.wal :=
  ⟨settled_setting, unique_setting, set_both, uniqueCommitted_run settled_setting unique_setting set_both⟩

theorem set_twice : SetFrom (fun _ _ => True) (setting [addressRecord "a" "x" 1,
    addressRecord "b" "x" 2] hotUsers
    [setter "a" "x" (.logged (addressRecord "a" "x" 1)),
    setter "b" "x" (.logged (addressRecord "b" "x" 2))]) := by
  have h₁ : SetFrom (fun _ _ => True) _ := set_first.weaken fun _ _ _ => trivial
  exact reaches_logged (r := addressRecord "b" "x" 2) h₁ rfl (by decide +kernel) rfl (by decide)
    (by simp [setting, addressRecord, usersRecord]) trivial trivial (fun _ => trivial) fun _ => trivial

theorem same_address :
    Rivals usersSchema ((userDraft "a" "x").intoRecord 1) ((userDraft "b" "x").intoRecord 2) :=
  ⟨"byEmail", byEmail, [.string "x"], rfl, ExtTreeMap.getElem?_insert_self, rfl, rfl, rfl⟩

/-- Two committed users have the same address. -/
theorem set_to_two : ¬ ∀ (lib : ProjectionLibraries) (checks : OperationChecks)
    (schema : DatabaseSchema) (s t : WriteState), Settled s → UniqueCommitted schema s.wal →
    Reaches (WriteStep lib checks schema) (fun _ _ => True) s t → UniqueCommitted schema t.wal := by
  intro hall
  have hcommitted : recordsByPath [addressRecord "a" "x" 1, addressRecord "b" "x" 2] =
      ((∅ : BTreeMap String DbRecord).insert "tables/users/a" ((userDraft "a" "x").intoRecord 1)).insert
        "tables/users/b" ((userDraft "b" "x").intoRecord 2) := rfl
  have ha : (recordsByPath [addressRecord "a" "x" 1, addressRecord "b" "x" 2])["tables/users/a"]? =
      some ((userDraft "a" "x").intoRecord 1) := by
    rw [hcommitted, ExtTreeMap.getElem?_insert, if_neg (by decide), ExtTreeMap.getElem?_insert_self]
  have hb : (recordsByPath [addressRecord "a" "x" 1, addressRecord "b" "x" 2])["tables/users/b"]? =
      some ((userDraft "b" "x").intoRecord 2) := by
    rw [hcommitted, ExtTreeMap.getElem?_insert_self]
  have hsame : "tables/users/a" = "tables/users/b" :=
    hall _ _ _ _ _ settled_setting unique_setting set_twice _ _ _ _ ha hb same_address
  simp at hsame

end Sample

end NextDb.Api.UniqueWrites
