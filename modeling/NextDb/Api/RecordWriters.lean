import NextDb.Api.TransactionJob
import NextDb.Lib.LastWord

/-!
# Writers of records

A durable upsert, delete or transaction reads the versions of its records from the record
projection, validates the unique indexes, appends to the log, changes the hot cache and queues a job
for the projection. Many of them are at that at the same time, one task applies the jobs, reads
write rows of the projection to the hot cache, and records are evicted from it.

* `projectionJob_mutations`: what the job of a logged record is.
* `Writers.run`: in every run, what a writer has logged is in the log, in the order of the LSNs, and
  was checked.
-/

namespace NextDb.Api.RecordWriters

open Run List Option Records Fallible Converge ProjectionKv RecordChecks TransactionJob
open RecordCommit (RecordOperation)

/-! ## What a request reads, logs and changes -/

section Request

variable (lib : ProjectionLibraries) (checks : OperationChecks)

/-- The versions are read, and the operations are checked. -/
def readOperations (nowMs : Nat) (reads : RecordReads)
    (requests : List (RecordOperation × Option Nat)) :
    Except ApiError Preparation :=
  requests.foldlM (prepareOperation lib checks nowMs reads) ⟨[], [], none, none, [], [], [], []⟩

def validatePrepared (reads : RecordReads) (p : Preparation) : Except ApiError Unit :=
  validateTransactionUniqueIndexes lib reads p.provisionalUpserts p.deletes p.deleteIdentities

/-- What is appended to the log. -/
def commitPayload (transaction : Bool) (operations : List DbRecordMutationDraft) : WalPayload :=
  match transaction, operations with
  | false, [.upsert draft] => .recordUpserted draft
  | false, [.delete draft] => .recordDeleted draft
  | _, operations => .recordTransactionCommitted operations none

/-- The job of a record that is logged; looking up the order of a table may fail. -/
def projectionJob (schema : DatabaseSchema) (r : WalRecord) : Except ApiError RecordProjectionJob :=
  match r.payload with
  | .recordUpserted draft => do
    let (record, indexes, order) ← preparedUpsert schema r.lsn draft
    return .upsert r.lsn record indexes order
  | .recordDeleted draft => .ok (.delete r.lsn draft.table draft.key)
  | payload => do
    let upserts ← (upsertDrafts (recordMutations payload)).mapM (preparedUpsert schema r.lsn)
    return .transaction r.lsn ((deleteDrafts (recordMutations payload)).map deleteMutation ++
      upserts.map fun (record, indexes, order) => .upsert record indexes order)

/-- The hot cache after a record that is logged. -/
def hotAfter (hot : RecordHotState) (r : WalRecord) : RecordHotState :=
  match r.payload with
  | .recordUpserted draft => hot.upsert (draft.intoRecord r.lsn)
  | .recordDeleted draft => hot.deleteDurable draft.table draft.key r.lsn
  | payload =>
    ((deleteDrafts (recordMutations payload)).foldl (fun hot delete => hot.deleteDurable delete.table delete.key r.lsn)
      hot).upsertMany ((upsertDrafts (recordMutations payload)).map fun draft => draft.intoRecord r.lsn)

end Request

/-! ## The system -/

/-- How far a writer has come. -/
inductive WriterPhase where
  | received
  /-- The versions were read when the log had so many records. -/
  | read (p : Preparation) (readAt : Nat)
  /-- The indexes were validated when the log had so many records. -/
  | checked (operations : List DbRecordMutationDraft) (readAt checkedAt : Nat)
  | logged (r : WalRecord)
  | cached (r : WalRecord) (job : RecordProjectionJob)
  | committed (r : WalRecord)
  /-- The request was answered with an error after its record was logged. -/
  | failed (r : WalRecord)
  /-- The request was answered, and nothing was logged. -/
  | answered

/-- A transaction, or a single upsert or delete. -/
structure Writer where
  transaction : Bool
  requests : List (RecordOperation × Option Nat)
  nowMs : Nat
  phase : WriterPhase

def Writer.record? (writer : Writer) : Option WalRecord :=
  match writer.phase with
  | .logged r | .cached r _ | .committed r | .failed r => some r
  | .received | .read .. | .checked .. | .answered => none

/-- The log, the cache, the queue and the projection, with the writers that are on their way. -/
structure WriteState where
  wal : List WalRecord
  hot : RecordHotState
  /-- The queue of the record projection applier. -/
  queue : List RecordProjectionJob
  records : RecordProjectionKv
  writers : List Writer
  /-- The rows that reads have of the projection, and will write to the hot cache. -/
  readers : List (List DbRecord)

def WriteState.reads (s : WriteState) (schema : DatabaseSchema) : RecordReads :=
  ⟨schema, s.records, s.hot⟩

/-- What the applier makes of a job. -/
def WriteState.work (lib : ProjectionLibraries) (s : WriteState) (job : RecordProjectionJob) :
    WriteState :=
  match exec (applyOperations lib job.mutations) s.records with
  | (.ok _, records) => { s with records, hot := job.mutations.foldl (clearDeleted job.lsn) s.hot }
  | (.error _, records) => { s with records }

def WriteState.setPhase (s : WriteState) (i : Nat) (writer : Writer) (phase : WriterPhase) :
    WriteState :=
  { s with writers := s.writers.set i { writer with phase } }

/-- The steps of the writers, of the applier and of the cache. -/
inductive WriteEvent where
  | receive (transaction : Bool) (requests : List (RecordOperation × Option Nat)) (nowMs : Nat)
  | read (i : Nat)
  | validate (i : Nat)
  | append (i : Nat) (r : WalRecord)
  | cache (i : Nat)
  | enqueue (i : Nat)
  /-- The request is refused, or has nothing to log. -/
  | answer (i : Nat)
  /-- A step after the append fails. -/
  | fail (i : Nat)
  | apply
  | fetch (rows : List DbRecord)
  | hydrate (j : Nat)
  /-- A read of a record that the hot cache has. -/
  | touch (table key : String)
  | evict (table key : String)
  | evictIdle (idle : String → String → Bool)

/-- What each event does to the log, the cache and the projection. -/
inductive WriteStep (lib : ProjectionLibraries) (checks : OperationChecks)
    (schema : DatabaseSchema) :
    WriteState → WriteEvent → WriteState → Prop where
  | receive {s : WriteState} {transaction requests nowMs}
      (hsingle : transaction = false → requests.length = 1) (hnow : nowMs ≤ maxU64) :
      WriteStep lib checks schema s (.receive transaction requests nowMs)
        { s with writers := s.writers ++ [⟨transaction, requests, nowMs, .received⟩] }
  | read {s : WriteState} {i writer p} (hwriter : s.writers[i]? = some writer)
      (hphase : writer.phase = .received)
      (hread : readOperations lib checks writer.nowMs (s.reads schema) writer.requests = .ok p) :
      WriteStep lib checks schema s (.read i) (s.setPhase i writer (.read p s.wal.length))
  | validate {s : WriteState} {i writer} {p : Preparation} {readAt}
      (hwriter : s.writers[i]? = some writer) (hphase : writer.phase = .read p readAt)
      (hvalid : validatePrepared lib (s.reads schema) p = .ok ()) (hoperations : p.operations ≠ []) :
      WriteStep lib checks schema s (.validate i) (s.setPhase i writer (.checked p.operations readAt s.wal.length))
  /-- LSNs are allocated in the order of the log. -/
  | append {s : WriteState} {i writer operations readAt checkedAt r} (hwriter : s.writers[i]? = some writer)
      (hphase : writer.phase = .checked operations readAt checkedAt)
      (hpayload : r.payload = commitPayload writer.transaction operations) (hpos : 0 < r.lsn) (hlsn : r.lsn ≤ maxU64)
      (habove : ∀ old ∈ s.wal, old.lsn < r.lsn) :
      WriteStep lib checks schema s (.append i r)
        { s.setPhase i writer (.logged r) with wal := s.wal ++ [r] }
  | cache {s : WriteState} {i writer r job}
      (hwriter : s.writers[i]? = some writer) (hphase : writer.phase = .logged r)
      (hjob : projectionJob schema r = .ok job) :
      WriteStep lib checks schema s (.cache i) { s.setPhase i writer (.cached r job) with hot := hotAfter s.hot r }
  | enqueue {s : WriteState} {i writer r job}
      (hwriter : s.writers[i]? = some writer) (hphase : writer.phase = .cached r job) :
      WriteStep lib checks schema s (.enqueue i)
        { s.setPhase i writer (.committed r) with queue := s.queue ++ [job] }
  | answer {s : WriteState} {i writer} (hwriter : s.writers[i]? = some writer)
      (hphase : writer.record? = none) :
      WriteStep lib checks schema s (.answer i) (s.setPhase i writer .answered)
  | failLookup {s : WriteState} {i writer r err}
      (hwriter : s.writers[i]? = some writer) (hphase : writer.phase = .logged r)
      (hjob : projectionJob schema r = .error err) :
      WriteStep lib checks schema s (.fail i) (s.setPhase i writer (.failed r))
  /-- The object references could not be changed, or the applier has stopped. -/
  | fail {s : WriteState} {i writer r job}
      (hwriter : s.writers[i]? = some writer) (hphase : writer.phase = .cached r job) :
      WriteStep lib checks schema s (.fail i) (s.setPhase i writer (.failed r))
  | apply {s job queue}
      (hqueue : s.queue = job :: queue) :
      WriteStep lib checks schema s .apply ({ s with queue }.work lib job)
  | fetch {s : WriteState} {rows}
      (hrows : ∀ row ∈ rows, ∃ table key, getRecord lib s.records table key = .ok (some row)) :
      WriteStep lib checks schema s (.fetch rows) { s with readers := s.readers ++ [rows] }
  | hydrate {s : WriteState} {j rows} (hreader : s.readers[j]? = some rows) :
      WriteStep lib checks schema s (.hydrate j)
        { s with hot := s.hot.hydrateDurableMany rows, readers := s.readers.set j [] }
  | touch {s : WriteState} (table key : String) :
      WriteStep lib checks schema s (.touch table key) { s with hot := s.hot.touch table key }
  /-- Only records of windowed tables are evicted on request. -/
  | evict {s : WriteState} (table key : String) (hwindowed : s.hot.isWindowedTable table = true) :
      WriteStep lib checks schema s (.evict table key) { s with hot := s.hot.evict table key }
  | evictIdle {s : WriteState} (idle : String → String → Bool) :
      WriteStep lib checks schema s (.evictIdle idle) { s with hot := s.hot.evictIdleDurableRecords idle }

/-- The tables and keys that a record of the log changes. -/
def recordPlaces (r : WalRecord) : List (String × String) :=
  (recordMutations r.payload).map mutationPlace

/-- What a record of the log leaves at a place, if it changes it. -/
def placeTells (place : String × String) (r : WalRecord) : Option (Option DbRecord) :=
  ((recordMutations r.payload).filter fun mutation => mutationPlace mutation = place).getLast?.map
      (mutationLeaves r.lsn)

/-- What was last committed at a place. -/
def committedRecord (wal : List WalRecord) (place : String × String) : Option DbRecord :=
  LastWord.read (placeTells place) wal

/-- A committed record is changed at its path. -/
def AtPaths (wal : List WalRecord) (r : WalRecord) : Prop :=
  ∀ mutation ∈ recordMutations r.payload, ∀ (path : String) (record : DbRecord),
    (recordsByPath wal)[path]? = some record →
    (record.table, record.key) = mutationPlace mutation → path = mutationPath mutation

/-- Nothing is under way. -/
structure Settled (s : WriteState) : Prop where
  ascending : s.wal.Pairwise (·.lsn < ·.lsn)
  bounded : ∀ r ∈ s.wal, 0 < r.lsn ∧ r.lsn ≤ maxU64
  logged : OperationsLogged s.wal
  queue : s.queue = []
  writers : s.writers = []
  readers : s.readers = []

/-! ## What was last committed -/

variable {r : WalRecord} {place : String × String} {record : DbRecord} {job : RecordProjectionJob}

theorem placeTells_eq_none : placeTells place r = none ↔ place ∉ recordPlaces r := by
  rw [placeTells, Option.map_eq_none_iff, List.getLast?_eq_none_iff, List.filter_eq_nil_iff, recordPlaces, List.mem_map]
  simp

theorem lsn_of_mutationLeaves {lsn : Nat} {mutation : DbRecordMutationDraft}
    (h : mutationLeaves lsn mutation = some record) : record.lsn = lsn := by
  cases mutation with
  | upsert draft =>
    obtain rfl := some.inj h
    rfl
  | delete draft => cases h

theorem lsn_of_placeTells (h : placeTells place r = some (some record)) : record.lsn = r.lsn := by
  obtain ⟨mutation, -, hleaves⟩ := map_eq_some_iff.mp h
  exact lsn_of_mutationLeaves hleaves

/-! ## What is known of a request -/

@[simp] theorem recordMutations_commitPayload (transaction : Bool)
    (operations : List DbRecordMutationDraft) :
    recordMutations (commitPayload transaction operations) = operations := by
  unfold commitPayload
  split <;> rfl

variable {schema : DatabaseSchema}

theorem projectionJob_lsn (h : projectionJob schema r = .ok job) : job.lsn = r.lsn := by
  unfold projectionJob at h
  split at h
  · obtain ⟨⟨record, indexes, order⟩, -, h⟩ := bind_eq_ok.mp h
    obtain rfl := Except.ok.inj h
    rfl
  · obtain rfl := Except.ok.inj h
    rfl
  · obtain ⟨upserts, -, h⟩ := bind_eq_ok.mp h
    obtain rfl := Except.ok.inj h
    rfl

/-- A job deletes, and then upserts. -/
theorem projectionJob_mutations (h : projectionJob schema r = .ok job) :
    job.mutations = (deleteDrafts (recordMutations r.payload)).map
    deleteMutation ++ (upsertDrafts (recordMutations r.payload)).map (upsertMutation schema r.lsn) := by
  unfold projectionJob at h
  split at h
  · next draft hpayload =>
    obtain ⟨prepared, hprepared, h⟩ := bind_eq_ok.mp h
    rw [preparedUpsert_eq hprepared] at h
    obtain rfl := Except.ok.inj h
    rw [hpayload]
    rfl
  · next draft hpayload =>
    obtain rfl := Except.ok.inj h
    rw [hpayload]
    rfl
  · obtain ⟨upserts, hupserts, h⟩ := bind_eq_ok.mp h
    obtain rfl := Except.ok.inj h
    show _ ++ upserts.map _ = _
    rw [preparedUpserts_eq hupserts, List.map_map]
    rfl

theorem operationsLogged_of_accepted {nowMs : Nat} {operations : List DbRecordMutationDraft}
    (h : AcceptedOperations schema nowMs operations)
    (hoperations : recordMutations r.payload = operations) :
    OperationsLogged [r] := by
  intro r' hr' mutation hmem
  rw [mem_singleton.mp hr', hoperations] at hmem
  obtain ⟨kept, hkept⟩ := h.changes
  rw [hkept.eq, List.mem_map] at hmem
  obtain ⟨operation, hoperation, rfl⟩ := hmem
  exact ⟨operation, nowMs, none, hkept.safe operation hoperation, rfl⟩

theorem operationsLogged_append {wal more : List WalRecord} (h : OperationsLogged wal)
    (hmore : OperationsLogged more) :
    OperationsLogged (wal ++ more) := by
  intro r hr
  exact (mem_append.mp hr).elim (h r) (hmore r)

/-! ## What every run keeps -/

/-- What a writer has read was checked, and what it has logged is in the log. -/
structure WriterOk (schema : DatabaseSchema) (wal : List WalRecord) (writer : Writer) : Prop where
  nowMs : writer.nowMs ≤ maxU64
  read : ∀ p readAt, writer.phase = .read p readAt → PreparedFrom writer.nowMs p
  checked : ∀ operations readAt checkedAt, writer.phase = .checked operations readAt checkedAt →
    AcceptedOperations schema writer.nowMs operations
  logged : ∀ r, writer.record? = some r → r ∈ wal ∧ AcceptedOperations schema writer.nowMs (recordMutations r.payload)
  job : ∀ r job, writer.phase = .cached r job → projectionJob schema r = .ok job

/-- The records of the log ascend, and each writer's is its own. -/
structure Writers (schema : DatabaseSchema) (s : WriteState) : Prop where
  ascending : s.wal.Pairwise (·.lsn < ·.lsn)
  bounded : ∀ r ∈ s.wal, 0 < r.lsn ∧ r.lsn ≤ maxU64
  logged : OperationsLogged s.wal
  ok : ∀ writer ∈ s.writers, WriterOk schema s.wal writer
  once : ∀ (i j : Nat) (a b : Writer) (r : WalRecord), s.writers[i]? = some a → s.writers[j]? = some b →
    a.record? = some r → b.record? = some r → i = j

variable {lib : ProjectionLibraries} {checks : OperationChecks} {s t : WriteState} {i : Nat}
    {writer : Writer}

theorem Settled.writersOk (h : Settled s) : Writers schema s where
  ascending := h.ascending
  bounded := h.bounded
  logged := h.logged
  ok := by simp [h.writers]
  once := by simp [h.writers]

theorem work_fields (s : WriteState) (job : RecordProjectionJob) : (s.work lib job).wal = s.wal ∧
    (s.work lib job).writers = s.writers ∧ (s.work lib job).queue = s.queue ∧
    (s.work lib job).readers = s.readers := by
  unfold WriteState.work
  split <;> exact ⟨rfl, rfl, rfl, rfl⟩

theorem work_records (s : WriteState) (job : RecordProjectionJob) :
    (s.work lib job).records = (exec (applyOperations lib job.mutations) s.records).2 := by
  unfold WriteState.work
  split <;> simp_all

/-- The applier can always finish its queue. -/
theorem reaches_drained {meets : WriteState → WriteEvent → Prop} (hmeets : ∀ s, meets s .apply)
    (s : WriteState) :
    ∃ t, Reaches (WriteStep lib checks schema) meets s t ∧ t.queue = [] ∧ t.wal = s.wal ∧
    t.writers = s.writers ∧
    t.records = s.queue.foldl (fun records job => (exec (applyOperations lib job.mutations) records).2) s.records := by
  obtain ⟨queue, hqueue⟩ : ∃ queue, s.queue = queue := ⟨_, rfl⟩
  induction queue generalizing s with
  | nil => exact ⟨s, .refl _, hqueue, rfl, rfl, by rw [hqueue]; rfl⟩
  | cons job queue ih =>
    obtain ⟨hwal, hwriters, hrest, -⟩ := @work_fields lib { s with queue } job
    obtain ⟨t, hrun, hempty, hwal', hwriters', hrecords⟩ := ih ({ s with queue }.work lib job) hrest
    have hnone : Reaches (WriteStep lib checks schema) meets s s := .refl s
    refine ⟨t, Relation.ReflTransGen.trans (hnone.tail (hmeets s) (.apply hqueue)) hrun, hempty,
      hwal'.trans hwal, hwriters'.trans hwriters, ?_⟩
    rw [hrecords, hrest, work_records, hqueue]
    rfl

namespace Writers

theorem of_same (h : Writers schema s) (hwal : t.wal = s.wal) (hwriters : t.writers = s.writers) :
    Writers schema t := by
  constructor
  · rw [hwal]; exact h.ascending
  · rw [hwal]; exact h.bounded
  · rw [hwal]; exact h.logged
  · rw [hwal, hwriters]; exact h.ok
  · rw [hwriters]; exact h.once

/-- A writer goes on, with the record that it had. -/
theorem setPhase (h : Writers schema s)
    (hwriter : s.writers[i]? = some writer) {phase : WriterPhase}
    (hok : WriterOk schema s.wal { writer with phase })
    (hrecord : ∀ r, Writer.record? { writer with phase } = some r → writer.record? = some r) :
    Writers schema (s.setPhase i writer phase) where
  ascending := h.ascending
  bounded := h.bounded
  logged := h.logged
  ok := forall_mem_set h.ok hok
  once := by
    intro j k a b r ha hb hra hrb
    rcases getElem?_set_cases ha with ⟨rfl, rfl⟩ | ⟨-, hola⟩ <;> rcases getElem?_set_cases hb with ⟨rfl, rfl⟩ | ⟨-,
        holb⟩
    · rfl
    · exact h.once _ _ _ _ r hwriter holb (hrecord r hra) hrb
    · exact h.once _ _ _ _ r hola hwriter hra (hrecord r hrb)
    · exact h.once _ _ _ _ r hola holb hra hrb

theorem append (h : Writers schema s) (hwriter : s.writers[i]? = some writer)
    {operations : List DbRecordMutationDraft}
    {readAt checkedAt : Nat} {r : WalRecord}
    (hphase : writer.phase = .checked operations readAt checkedAt)
    (hpayload : r.payload = commitPayload writer.transaction operations)
    (hpos : 0 < r.lsn) (hlsn : r.lsn ≤ maxU64) (habove : ∀ old ∈ s.wal, old.lsn < r.lsn) :
    Writers schema { s.setPhase i writer (.logged r) with wal := s.wal ++ [r] } := by
  have hok := h.ok writer (mem_of_getElem? hwriter)
  have haccepted := hok.checked _ _ _ hphase
  have hoperations : recordMutations r.payload = operations := by rw [hpayload, recordMutations_commitPayload]
  have hnew : ∀ w ∈ s.writers, w.record? ≠ some r := fun w hw hr =>
    absurd (habove r ((h.ok w hw).logged r hr).1) (Nat.lt_irrefl _)
  constructor
  · refine pairwise_append.mpr ⟨h.ascending, pairwise_singleton _ _, fun old hold new hnew' => ?_⟩
    exact mem_singleton.mp hnew' ▸ habove old hold
  · intro old hold
    rcases mem_append.mp hold with hold | hold
    · exact h.bounded old hold
    · exact mem_singleton.mp hold ▸ ⟨hpos, hlsn⟩
  · exact operationsLogged_append h.logged (operationsLogged_of_accepted haccepted hoperations)
  · refine forall_mem_set (fun w hw => ?_) ?_
    · exact { h.ok w hw with logged := fun r' hr' => ((h.ok w hw).logged r' hr').imp_left (mem_append_left _) }
    · refine ⟨hok.nowMs, by simp, by simp, fun r' hr' => ?_, by simp⟩
      obtain rfl := some.inj hr'
      exact ⟨by simp, hoperations ▸ haccepted⟩
  · intro j k a b r' ha hb hra hrb
    rcases getElem?_set_cases ha with ⟨rfl, rfl⟩ | ⟨-, hola⟩ <;> rcases getElem?_set_cases hb with ⟨rfl, rfl⟩ | ⟨-,
        holb⟩
    · rfl
    · obtain rfl := some.inj hra
      exact absurd hrb (hnew b (mem_of_getElem? holb))
    · obtain rfl := some.inj hrb
      exact absurd hra (hnew a (mem_of_getElem? hola))
    · exact h.once _ _ _ _ r' hola holb hra hrb

theorem step {e : WriteEvent} (h : Writers schema s) (hstep : WriteStep lib checks schema s e t) :
    Writers schema t := by
  have hok : ∀ {i : Nat} {writer : Writer}, s.writers[i]? = some writer → WriterOk schema s.wal writer :=
    fun hwriter => h.ok _ (mem_of_getElem? hwriter)
  cases hstep with
  | @receive transaction requests nowMs hsingle hnow =>
    refine ⟨h.ascending, h.bounded, h.logged, fun w hw => ?_, fun i j a b r ha hb hra hrb => ?_⟩
    · rcases mem_append.mp hw with hw | hw
      · exact h.ok w hw
      · rw [mem_singleton.mp hw]
        exact ⟨hnow, by simp, by simp, by simp [Writer.record?], by simp⟩
    · rcases getElem?_push_cases ha with ha | ⟨rfl, rfl⟩
      · rcases getElem?_push_cases hb with hb | ⟨rfl, rfl⟩
        · exact h.once i j a b r ha hb hra hrb
        · cases hrb
      · cases hra
  | @read i writer p hwriter hphase hread =>
    refine h.setPhase hwriter ⟨(hok hwriter).nowMs, fun p' readAt hp => ?_,
      by simp, by simp [Writer.record?], by simp⟩ (by simp [Writer.record?])
    cases hp
    exact preparedFrom_of_foldlM hread
  | @validate i writer p readAt hwriter hphase hvalid hoperations =>
    refine h.setPhase hwriter ⟨(hok hwriter).nowMs,
        by simp, fun operations _ _ ho => ?_, by simp [Writer.record?], by simp⟩
      (by simp [Writer.record?])
    cases ho
    exact ((hok hwriter).read _ _ hphase).accepted hvalid
  | append hwriter hphase hpayload hpos hlsn habove => exact h.append hwriter hphase hpayload hpos hlsn habove
  | @cache i writer r job hwriter hphase hjob =>
    have hrecord : writer.record? = some r := by rw [Writer.record?, hphase]
    have hcached : Writers schema (s.setPhase i writer (.cached r job)) := by
      refine h.setPhase hwriter ⟨(hok hwriter).nowMs, by simp, by simp, ?_, ?_⟩ fun r' hr' => hrecord.trans hr'
      · exact fun r' hr' => (hok hwriter).logged r' (hrecord.trans hr')
      · rintro r' job' ⟨rfl, rfl⟩
        exact hjob
    exact hcached.of_same rfl rfl
  | @enqueue i writer r job hwriter hphase =>
    have hrecord : writer.record? = some r := by rw [Writer.record?, hphase]
    have hcommitted : Writers schema (s.setPhase i writer (.committed r)) :=
      h.setPhase hwriter ⟨(hok hwriter).nowMs,
        by simp, by simp, fun r' hr' => (hok hwriter).logged r' (hrecord.trans hr'), by simp⟩ fun r' hr' =>
        hrecord.trans hr'
    exact hcommitted.of_same rfl rfl
  | answer hwriter hphase =>
    exact h.setPhase hwriter ⟨(hok hwriter).nowMs, by simp, by simp, by simp [Writer.record?], by simp⟩
      (by simp [Writer.record?])
  | @failLookup _ writer r _ hwriter hphase | @fail _ writer r _ hwriter hphase =>
    have hrecord : writer.record? = some r := by rw [Writer.record?, hphase]
    exact h.setPhase hwriter ⟨(hok hwriter).nowMs,
      by simp, by simp, fun r' hr' => (hok hwriter).logged r' (hrecord.trans hr'), by simp⟩ fun r' hr' =>
      hrecord.trans hr'
  | @apply job queue hqueue =>
    obtain ⟨hwal, hwriters, -⟩ := @work_fields lib { s with queue } job
    exact h.of_same hwal hwriters
  | fetch | hydrate | touch | evict | evictIdle => exact h.of_same rfl rfl

theorem run {meets : WriteState → WriteEvent → Prop}
    (hrun : Reaches (WriteStep lib checks schema) meets s t)
    (h : Writers schema s) : Writers schema t :=
  hrun.invariant (fun _ _ _ hi _ hstep => hi.step hstep) h

end Writers

/-! ## One writer at a time -/

def WriteState.push (s : WriteState) (request : RecordOperation × Option Nat)
    (phase : WriterPhase) : WriteState :=
  { s with writers := s.writers ++ [⟨false, [request], 0, phase⟩] }

/-- `WriteState.push`, for a transaction too. -/
def WriteState.pushAll (s : WriteState) (transaction : Bool)
    (requests : List (RecordOperation × Option Nat)) (phase : WriterPhase) : WriteState :=
  { s with writers := s.writers ++ [⟨transaction, requests, 0, phase⟩] }

section

variable {reads : RecordReads} {transaction : Bool} {requests : List (RecordOperation × Option Nat)}
    {r : WalRecord}
  {request : RecordOperation × Option Nat} {meets : WriteState → WriteEvent → Prop}

/-- Upserts that pass their checks are prepared as they are. -/
theorem exists_prepared (hupserts : ∀ request ∈ requests, isUpsert request.1 = true)
    (hok : (readOperations lib checks 0 reads requests >>= validatePrepared lib reads).isOk = true) :
    ∃ p, readOperations lib checks 0 reads requests = .ok p ∧ validatePrepared lib reads p =
    .ok () ∧
    p.operations = requests.map fun request => request.1.mutation 0 none := by
  cases hprepared : readOperations lib checks 0 reads requests with
  | error err =>
    rw [hprepared] at hok
    cases hok
  | ok p =>
    rw [hprepared] at hok
    replace hok : (validatePrepared lib reads p).isOk = true := hok
    refine ⟨p, rfl, ?_, operations_of_foldlM hupserts hprepared⟩
    cases hvalid : validatePrepared lib reads p with
    | ok _ => rfl
    | error err =>
      rw [hvalid] at hok
      cases hok

theorem setPhase_pushAll (s : WriteState) (phase phase' : WriterPhase) :
    (s.pushAll transaction requests phase).setPhase s.writers.length ⟨transaction, requests, 0,
    phase⟩ phase' =
    s.pushAll transaction requests phase' := by
  simp [WriteState.setPhase, WriteState.pushAll]

/-- A request for upserts comes, and is read, checked and logged. -/
theorem reaches_logged_all (hreach : Reaches (WriteStep lib checks schema) meets t s)
    (hsingle : transaction = false → requests.length = 1) (hsome : requests ≠ [])
    (hupserts : ∀ request ∈ requests, isUpsert request.1 = true)
    (hok : (readOperations lib checks 0 (s.reads schema) requests >>= validatePrepared lib (s.reads schema)).isOk = true)
    (hpayload : r.payload = commitPayload transaction (requests.map fun request => request.1.mutation 0 none))
    (hlsn : 0 < r.lsn ∧ r.lsn ≤ maxU64) (habove : ∀ old ∈ s.wal, old.lsn < r.lsn)
    (hreceive : meets s (.receive transaction requests 0))
    (hread : meets (s.pushAll transaction requests .received) (.read s.writers.length))
    (hvalidate : ∀ p,
    meets (s.pushAll transaction requests (.read p s.wal.length)) (.validate s.writers.length))
    (happend : ∀ operations, meets (s.pushAll transaction requests
      (.checked operations s.wal.length s.wal.length)) (.append s.writers.length r)) :
    Reaches (WriteStep lib checks schema) meets t
      { s.pushAll transaction requests (.logged r) with wal := s.wal ++ [r] } := by
  obtain ⟨p, hprepared, hvalid, hoperations⟩ := exists_prepared hupserts hok
  have hwriter : ∀ phase, (s.pushAll transaction requests phase).writers[s.writers.length]? =
      some ⟨transaction, requests, 0, phase⟩ :=
    fun phase => getElem?_concat_length
  have hreceived : Reaches (WriteStep lib checks schema) meets t (s.pushAll transaction requests .received) :=
    hreach.take (.receive hsingle (Nat.zero_le _)) hreceive
  have hread := hreceived.take (.read (hwriter .received) rfl hprepared) hread
  rw [setPhase_pushAll] at hread
  have hchecked := hread.take (.validate (hwriter _) rfl hvalid (by simpa [hoperations] using hsome)) (hvalidate p)
  rw [setPhase_pushAll] at hchecked
  have hlogged := hchecked.take (.append (hwriter _) rfl (hoperations ▸ hpayload) hlsn.1 hlsn.2 habove) (happend _)
  rwa [setPhase_pushAll] at hlogged

theorem reaches_logged (hreach : Reaches (WriteStep lib checks schema) meets t s)
    (hupsert : isUpsert request.1 = true)
    (hok : (readOperations lib checks 0 (s.reads schema) [request] >>= validatePrepared lib (s.reads schema)).isOk =
    true) (hpayload : r.payload = commitPayload false [request.1.mutation 0 none])
    (hlsn : 0 < r.lsn ∧ r.lsn ≤ maxU64)
    (habove : ∀ old ∈ s.wal, old.lsn < r.lsn) (hreceive : meets s (.receive false [request] 0))
    (hread : meets (s.push request .received) (.read s.writers.length)) (hvalidate : ∀ p,
    meets (s.push request (.read p s.wal.length)) (.validate s.writers.length))
    (happend : ∀ operations,
    meets (s.push request (.checked operations s.wal.length s.wal.length)) (.append s.writers.length r)) :
    Reaches (WriteStep lib checks schema) meets t { s.push request (.logged r) with wal := s.wal ++ [r] } :=
  reaches_logged_all hreach (fun _ => rfl) (cons_ne_nil _ _) (by simpa using hupsert) hok hpayload hlsn habove hreceive
    hread hvalidate happend

end

end NextDb.Api.RecordWriters
