import NextDb.Api.RecordWriters

/-!
# The record projection and the log

Concurrent writers append to the log and then queue their jobs, and the applier takes the jobs in
the order of the queue. A replay takes the records of the log in the order of their LSNs.

* `projection_replays`: once all requests have finished and the queue is empty, the projection has
  the records that a replay of the log gives: in every run in which the jobs for a key are queued in
  the order of their LSNs, a record is changed at its path, no job meets a conflict, and no step
  between an append and its job fails.
-/

namespace NextDb.Api.ProjectionReplay

open Run List Std.ExtTreeMap Records Fallible TextKeys Converge ProjectionKv CurrentRecords RecordChecks
open TransactionJob RecordWriters
open RecordCommit (RecordOperation)

/-! ## What records of the log change -/

/-- The current records after a record of the log. -/
def recordApplied (current : CurrentRecords) (r : WalRecord) : CurrentRecords :=
  afterUpserts r.lsn (afterDeletes current (deleteDrafts (recordMutations r.payload)))
    (upsertDrafts (recordMutations r.payload))

def allApplied (current : CurrentRecords) (records : List WalRecord) : CurrentRecords :=
  records.foldl recordApplied current

theorem allApplied_concat (current : CurrentRecords) (records : List WalRecord) (r : WalRecord) :
    allApplied current (records ++ [r]) = recordApplied (allApplied current records) r :=
  foldl_append

variable {place : String × String} {r : WalRecord}

theorem rows_recordApplied_of_notMem (hone : Once (recordMutations r.payload))
    (h : place ∉ recordPlaces r)
    (current : CurrentRecords) : rows (recordApplied current r) place = rows current place := by
  have hnone : ∀ mutation ∈ recordMutations r.payload, mutationPlace mutation ≠ place := fun mutation hmem hplace =>
    h (mem_map.mpr ⟨mutation, hmem, hplace⟩)
  refine Option.ext fun record => (rows_afterJob hone).trans ⟨?_, fun hrow => .inr ⟨hnone, hrow⟩⟩
  rintro (⟨mutation, hmem, hplace, -⟩ | ⟨-, hrow⟩)
  · exact absurd hplace (hnone mutation hmem)
  · exact hrow

theorem rows_recordApplied_of_mem (hone : Once (recordMutations r.payload))
    (h : place ∈ recordPlaces r) (current current' : CurrentRecords) :
    rows (recordApplied current r) place = rows (recordApplied current' r) place := by
  obtain ⟨mutation, hmem, hplace⟩ := mem_map.mp h
  refine Option.ext fun record => (rows_afterJob hone).trans (Iff.trans ?_ (rows_afterJob hone).symm)
  refine or_congr_right (iff_of_false ?_ ?_)
  · exact fun hnone => hnone.1 mutation hmem hplace
  · exact fun hnone => hnone.1 mutation hmem hplace

/-- Records that change a place are applied in the same order. -/
theorem rows_allApplied_congr {records records' : List WalRecord}
    (hone : ∀ r ∈ records ++ records', Once (recordMutations r.payload))
    (h : records.filter (place ∈ recordPlaces ·) = records'.filter (place ∈ recordPlaces ·))
    (current : CurrentRecords) :
    rows (allApplied current records) place = rows (allApplied current records') place := by
  refine LastWord.foldl_eq_of_filter_eq (f := fun current => rows current place) ?_ ?_ h current
  · exact fun r hr hnone => rows_recordApplied_of_notMem (hone r hr) (by simpa using hnone)
  · exact fun r hr hsome current current' _ =>
        rows_recordApplied_of_mem (hone r hr) (by simpa using hsome) current current'

/-! ## Jobs without conflicts -/

/-- No upsert has the values of another record in a unique index when it is made. -/
def Undisputed (shape : ProjectionShape) : CurrentRecords → List RecordProjectionMutation → Prop
  | _, [] => True
  | current, .upsert record _ _ :: mutations => ¬ Conflicts shape current record ∧
      Undisputed shape (put current record) mutations
  | current, .delete table key :: mutations => Undisputed shape (erase current table key) mutations

variable {lib : ProjectionLibraries} {checks : OperationChecks} {schema : DatabaseSchema}
    {s t : WriteState}

theorem undisputed_job {lsn : Nat} {deletes : List DbRecordDeleteDraft}
    {upserts : List DbRecordDraft} {current : CurrentRecords} :
    Undisputed (shapeOf schema) current (deletes.map deleteMutation ++ upserts.map (upsertMutation schema lsn)) ↔
    NoConflicts schema lsn (afterDeletes current deletes) upserts := by
  induction deletes generalizing current with
  | cons draft deletes ih => exact ih
  | nil =>
    induction upserts generalizing current with
    | nil => exact Iff.rfl
    | cons draft upserts ih => exact and_congr_right fun _ => ih

/-! ## The invariant -/

/-- The record that a writer has logged, and has not queued a job for. -/
def pending? (writer : Writer) : Option WalRecord :=
  match writer.phase with
  | .logged r | .cached r _ => some r
  | .received | .read .. | .checked .. | .committed _ | .failed _ | .answered => none

/-- A writer has appended the record, and its job is not queued. -/
def Pending (s : WriteState) (r : WalRecord) : Prop :=
  ∃ writer ∈ s.writers, pending? writer = some r

/-- The records' values can be encoded. -/
def Encodes (lib : ProjectionLibraries) (schema : DatabaseSchema) (r : WalRecord) : Prop :=
  ∀ draft ∈ upsertDrafts (recordMutations r.payload), Serializes lib (draft.intoRecord r.lsn) ∧
    IndexesSerialize lib (shapeOf schema) (draft.intoRecord r.lsn)

/-- A record is changed at the path at which it is committed; a job is queued when those of earlier
records that change one of its keys are, and meets no conflict; no request fails between its append
and its job. -/
def InOrder (lib : ProjectionLibraries) (schema : DatabaseSchema) (s : WriteState) :
    WriteEvent → Prop
  | .append _ r => Encodes lib schema r ∧ ∀ mutation ∈ recordMutations r.payload,
      ∀ (path : String) (record : DbRecord),
      (recordsByPath s.wal)[path]? = some record →
      (record.table, record.key) = mutationPlace mutation →
      path = mutationPath mutation
  | .enqueue i => ∀ writer r, s.writers[i]? = some writer → pending? writer = some r →
      ∀ earlier, Pending s earlier → earlier.lsn < r.lsn →
      ∀ place ∈ recordPlaces r, place ∉ recordPlaces earlier
  | .apply => ∀ job ∈ s.queue.head?, ∀ current, Agrees lib (shapeOf schema) current s.records →
      Undisputed (shapeOf schema) current job.mutations
  | .fail _ => False
  | _ => True

/-- The projection has the records of the log before the run. -/
structure Projected (lib : ProjectionLibraries) (schema : DatabaseSchema) (s : WriteState)
    (current : CurrentRecords) : Prop
    extends Settled s where
  areCurrent : AreCurrent (recordsByPath s.wal) current
  agrees : Agrees lib (shapeOf schema) current s.records

def isFinished (writer : Writer) : Bool :=
  match writer.phase with
  | .committed _ | .failed _ | .answered => true
  | .received | .read .. | .checked .. | .logged _ | .cached .. => false

/-- All requests have finished, and the queue is empty. -/
structure Drained (s : WriteState) : Prop where
  writers : ∀ writer ∈ s.writers, isFinished writer = true
  queue : s.queue = []

/-- The records `news` were logged in the run; the jobs of `applied` are applied, and those of
`queued` are queued. -/
structure Inv (lib : ProjectionLibraries) (schema : DatabaseSchema) (base : List WalRecord)
    (start : CurrentRecords) (news applied queued : List WalRecord) (s : WriteState) : Prop where
  writers : Writers schema s
  wal : s.wal = base ++ news
  accepted : ∀ r ∈ news, ∃ nowMs, nowMs ≤ maxU64 ∧ AcceptedOperations schema nowMs (recordMutations r.payload)
  encodes : ∀ r ∈ news, Encodes lib schema r
  areCurrent : AreCurrent (recordsByPath s.wal) (allApplied start news)
  agrees : Agrees lib (shapeOf schema) (allApplied start applied) s.records
  queue : List.Forall₂ (fun r job => projectionJob schema r = .ok job) queued s.queue
  news : ∀ r, r ∈ news ↔ r ∈ applied ++ queued ∨ Pending s r
  behind : ∀ r ∈ applied ++ queued, ∀ later, Pending s later → ∀ place ∈ recordPlaces r, place ∈ recordPlaces later →
    r.lsn < later.lsn
  ordered : ∀ place, ((applied ++ queued).filter (place ∈ recordPlaces ·)).Pairwise fun a b => a.lsn < b.lsn

variable {base news applied queued : List WalRecord} {start : CurrentRecords} {i : Nat}
    {writer : Writer}

theorem ordered_push {place : String × String}
    (h : (base.filter (place ∈ recordPlaces ·)).Pairwise fun a b => a.lsn < b.lsn)
    (hr : ∀ a ∈ base, place ∈ recordPlaces a → place ∈ recordPlaces r → a.lsn < r.lsn) :
    ((base ++ [r]).filter (place ∈ recordPlaces ·)).Pairwise fun a b => a.lsn < b.lsn := by
  rw [filter_append]
  refine pairwise_append.mpr ⟨h, (pairwise_singleton _ r).filter _, fun a ha b hb => ?_⟩
  obtain ⟨ha, hplace⟩ := mem_filter.mp ha
  obtain ⟨hb, hplace'⟩ := mem_filter.mp hb
  rw [mem_singleton.mp hb] at hplace' ⊢
  exact hr a ha (by simpa using hplace) (by simpa using hplace')

theorem record_of_pending (h : pending? writer = some r) : writer.record? = some r := by
  unfold pending? at h
  unfold Writer.record?
  split at h <;> simp_all

theorem pending_setPhase (hwriter : s.writers[i]? = some writer)
    {phase : WriterPhase} (hsame : pending? { writer with phase } = pending? writer) :
    Pending (s.setPhase i writer phase) r ↔ Pending s r := by
  have hset : (∃ w ∈ s.writers.set i { writer with phase }, pending? w = some r) ↔
      (∃ w ∈ s.writers, pending? w = some r) ∨ False := exists_mem_set_iff hwriter (by rw [hsame, or_false])
  exact hset.trans (or_iff_left id)

theorem pending_logged (hwriter : s.writers[i]? = some writer) (hnone : pending? writer = none)
    (r' : WalRecord) :
    Pending (s.setPhase i writer (.logged r)) r' ↔ Pending s r' ∨ r = r' := by
  show (∃ w ∈ s.writers.set i _, pending? w = some r') ↔ (∃ w ∈ s.writers, pending? w = some r') ∨ r = r'
  refine exists_mem_set_iff hwriter ?_
  rw [hnone]
  simp [pending?]

/-- The job of one writer is queued; the other writers have other records. -/
theorem pending_committed (h : Writers schema s)
    (hwriter : s.writers[i]? = some writer) (hpending : pending? writer = some r) (r' : WalRecord) :
    Pending (s.setPhase i writer (.committed r)) r' ↔ Pending s r' ∧ r' ≠ r := by
  constructor
  · rintro ⟨w, hw, hr'⟩
    obtain ⟨j, hj⟩ := mem_iff_getElem?.mp hw
    rcases getElem?_set_cases hj with ⟨rfl, rfl⟩ | ⟨hne, hold⟩
    · cases hr'
    · refine ⟨⟨w, mem_of_getElem? hold, hr'⟩, fun heq => hne ?_⟩
      exact h.once _ _ _ _ r hold hwriter (record_of_pending (heq ▸ hr')) (record_of_pending hpending)
  · rintro ⟨⟨w, hw, hr'⟩, hne⟩
    obtain ⟨j, hj⟩ := mem_iff_getElem?.mp hw
    have hij : i ≠ j := by
      rintro rfl
      cases hwriter.symm.trans hj
      exact hne (Option.some.inj (hr'.symm.trans hpending))
    exact ⟨w, mem_of_getElem? ((getElem?_set_ne hij).trans hj), hr'⟩

theorem Projected.inv (h : Projected lib schema s start) :
    Inv lib schema s.wal start [] [] [] s where
  writers := h.toSettled.writersOk
  wal := (append_nil _).symm
  accepted := by simp
  encodes := by simp
  areCurrent := h.areCurrent
  agrees := h.agrees
  queue := h.queue ▸ .nil
  news := by simp [Pending, h.writers]
  behind := by simp
  ordered := by simp

namespace Inv

section
variable (h : Inv lib schema base start news applied queued s)
include h

theorem once (hr : r ∈ news) : Once (recordMutations r.payload) := by
  obtain ⟨nowMs, -, haccepted⟩ := h.accepted r hr
  obtain ⟨kept, hkept⟩ := haccepted.changes
  exact once_of_changes hkept

theorem mem_news (hr : r ∈ applied ++ queued) : r ∈ news :=
  (h.news r).mpr (.inl hr)

theorem mem_wal (hr : r ∈ news) : r ∈ s.wal :=
  h.wal ▸ mem_append_right _ hr

/-- Neither the log nor the queue nor the projection changes, nor what is pending. -/
theorem of_same (hwriters : Writers schema t) (hwal : t.wal = s.wal)
    (hrecords : t.records = s.records)
    (hqueue : t.queue = s.queue) (hpending : ∀ r, Pending t r ↔ Pending s r) :
    Inv lib schema base start news applied queued t where
  writers := hwriters
  wal := hwal.trans h.wal
  accepted := h.accepted
  encodes := h.encodes
  areCurrent := hwal ▸ h.areCurrent
  agrees := hrecords ▸ h.agrees
  queue := hqueue ▸ h.queue
  news := fun r => by rw [h.news, hpending]
  behind := fun r hr later hlater => h.behind r hr later ((hpending later).mp hlater)
  ordered := h.ordered

theorem append (hwriter : s.writers[i]? = some writer) (hnone : pending? writer = none)
    (habove : ∀ old ∈ s.wal,
    old.lsn < r.lsn) (hwriters : Writers schema { s.setPhase i writer (.logged r) with wal := s.wal ++ [r] })
    {nowMs : Nat} (hnow : nowMs ≤ maxU64)
    (haccepted : AcceptedOperations schema nowMs (recordMutations r.payload))
    (hmeets : InOrder lib schema s (.append i r)) :
    Inv lib schema base start (news ++ [r]) applied queued
    { s.setPhase i writer (.logged r) with wal := s.wal ++ [r] } where
  writers := hwriters
  wal := by rw [h.wal, append_assoc]
  accepted := by
    intro r' hr'
    rcases mem_append.mp hr' with hr' | hr'
    · exact h.accepted r' hr'
    · exact mem_singleton.mp hr' ▸ ⟨nowMs, hnow, haccepted⟩
  encodes := by
    intro r' hr'
    rcases mem_append.mp hr' with hr' | hr'
    · exact h.encodes r' hr'
    · exact mem_singleton.mp hr' ▸ hmeets.1
  areCurrent := by
    obtain ⟨kept, hkept⟩ := haccepted.changes
    have hcommitted := committedAt_recordsByPath h.writers.logged
    rw [allApplied_concat, recordsByPath_concat]
    refine areCurrent_afterJob (once_of_changes hkept) (fun mutation hmem => located_of_changes hkept hmem) hcommitted
      h.areCurrent rfl fun mutation hmem record hrow => ?_
    obtain ⟨path, hfound, hplace⟩ := (h.areCurrent _ record).mp hrow
    rw [hcommitted.path path record hfound]
    exact hmeets.2 mutation hmem path record hfound hplace.symm
  agrees := h.agrees
  queue := h.queue
  news := by
    intro r'
    have hpending : Pending { s.setPhase i writer (.logged r) with wal := s.wal ++ [r] } r' ↔ Pending s r' ∨ r = r' :=
      pending_logged hwriter hnone r'
    rw [mem_append, mem_singleton, h.news, hpending, or_assoc, eq_comm]
  behind := by
    intro r' hr' later hlater place hplace hplace'
    rcases (pending_logged hwriter hnone later).mp hlater with hlater | rfl
    · exact h.behind r' hr' later hlater place hplace hplace'
    · exact habove r' (h.mem_wal (h.mem_news hr'))
  ordered := h.ordered

theorem enqueue (hwriter : s.writers[i]? = some writer)
    {job : RecordProjectionJob} (hphase : writer.phase = .cached r job)
    (hwriters : Writers schema { s.setPhase i writer (.committed r) with queue := s.queue ++ [job] })
    (hmeets : InOrder lib schema s (.enqueue i)) :
    Inv lib schema base start news applied (queued ++ [r])
    { s.setPhase i writer (.committed r) with queue := s.queue ++ [job] } := by
  have hpending : pending? writer = some r := by rw [pending?, hphase]
  have hr : Pending s r := ⟨writer, mem_of_getElem? hwriter, hpending⟩
  have hcommitted : ∀ r', Pending { s.setPhase i writer (.committed r) with queue := s.queue ++ [job] } r' ↔
      Pending s r' ∧ r' ≠ r := fun r' => pending_committed h.writers hwriter hpending r'
  have hwal : ∀ r', Pending s r' → r' ∈ s.wal := fun r' hr' => h.mem_wal ((h.news r').mpr (.inr hr'))
  refine ⟨hwriters, h.wal, h.accepted, h.encodes, h.areCurrent, h.agrees, ?_, fun r' => ?_, ?_, fun place => ?_⟩
  · exact rel_append h.queue (.cons ((h.writers.ok writer (mem_of_getElem? hwriter)).job r job hphase) .nil)
  · rw [h.news, hcommitted, ← append_assoc, mem_append (s := applied ++ queued), mem_singleton]
    by_cases heq : r' = r
    · simp [heq, hr]
    · simp [heq]
  · intro r' hr' later hlater place hplace hplace'
    obtain ⟨hpend, hne⟩ := (hcommitted later).mp hlater
    rw [← append_assoc, mem_append, mem_singleton] at hr'
    rcases hr' with hr' | rfl
    · exact h.behind r' hr' later hpend place hplace hplace'
    · have hnot : ¬ later.lsn < r'.lsn :=
          fun hlt => hmeets writer r' hwriter hpending later hpend hlt place hplace hplace'
      have hlsn : later.lsn ≠ r'.lsn := fun heq =>
        hne (ObjectRefIndex.eq_of_ascending h.writers.ascending (hwal later hpend) (hwal r' hr) heq)
      omega
  · rw [← append_assoc]
    exact ordered_push (h.ordered place) fun a ha => h.behind a ha r hr place

end

theorem apply (hlib : lib.Lawful) (hshape : (shapeOf schema).Named)
    (h : Inv lib schema base start news applied queued s) {job : RecordProjectionJob}
    {queue : List RecordProjectionJob}
    (hqueue : s.queue = job :: queue) (hmeets : InOrder lib schema s .apply) :
    ∃ r rest, queued = r :: rest ∧
    Inv lib schema base start news (applied ++ [r]) rest ({ s with queue }.work lib job) := by
  have hforall := h.queue
  rw [hqueue] at hforall
  obtain ⟨r, rest, hjob, hrest, rfl⟩ := forall₂_cons_right_iff.mp hforall
  have hr : r ∈ news := h.mem_news (by simp)
  obtain ⟨nowMs, hnow, haccepted⟩ := h.accepted r hr
  have hno := hmeets job (by rw [hqueue]; rfl) _ h.agrees
  rw [projectionJob_mutations hjob, undisputed_job] at hno
  obtain ⟨hok, hagrees⟩ :=
      exec_job hlib hshape haccepted hnow (h.writers.bounded r (h.mem_wal hr)).2 (h.encodes r hr) h.agrees
  rw [← projectionJob_mutations hjob] at hok hagrees
  have hexec : exec (applyOperations lib job.mutations) s.records =
      (.ok (), (exec (applyOperations lib job.mutations) s.records).2) := Prod.ext (hok.mpr hno) rfl
  refine ⟨r, rest, rfl, ?_⟩
  have hwork : { s with queue }.work lib job =
      { s with queue, records := (exec (applyOperations lib job.mutations) s.records).2,
               hot := job.mutations.foldl (clearDeleted job.lsn) s.hot } := by
    unfold WriteState.work
    dsimp only
    rw [hexec]
  rw [hwork]
  have happend : applied ++ [r] ++ rest = applied ++ r :: rest := append_assoc ..
  refine ⟨h.writers.of_same rfl rfl, h.wal, h.accepted, h.encodes, h.areCurrent, ?_, hrest, ?_, ?_, ?_⟩
  · rw [allApplied_concat]
    exact hagrees hno
  · rw [happend]
    exact h.news
  · rw [happend]
    exact h.behind
  · rw [happend]
    exact h.ordered

theorem step (hlib : lib.Lawful) (hshape : (shapeOf schema).Named)
    (h : Inv lib schema base start news applied queued s)
    {e : WriteEvent} (hmeets : InOrder lib schema s e) (hstep : WriteStep lib checks schema s e t) :
    ∃ news applied queued, Inv lib schema base start news applied queued t := by
  have hwriters := h.writers.step hstep
  cases hstep with
  | @receive transaction requests nowMs hsingle hnow =>
    refine ⟨news, applied, queued, h.of_same hwriters rfl rfl rfl fun r => ?_⟩
    simp [Pending, or_and_right, exists_or, pending?]
  | @read _ _ _ hwriter hphase | @validate _ _ _ _ hwriter hphase =>
    exact ⟨news, applied, queued, h.of_same hwriters rfl rfl rfl fun r =>
      pending_setPhase hwriter (by simp [pending?, hphase])⟩
  | @append i writer operations readAt checkedAt r hwriter hphase hpayload hpos hlsn habove =>
    have hok := h.writers.ok writer (mem_of_getElem? hwriter)
    have haccepted := hok.checked _ _ _ hphase
    have hoperations : recordMutations r.payload = operations := by rw [hpayload, recordMutations_commitPayload]
    exact ⟨news ++ [r], applied, queued,
      h.append hwriter (by simp [pending?, hphase]) habove hwriters hok.nowMs (hoperations ▸ haccepted) hmeets⟩
  | @cache i writer r job hwriter hphase hjob =>
    have hpending : ∀ r', Pending (s.setPhase i writer (.cached r job)) r' ↔ Pending s r' := fun r' =>
      pending_setPhase hwriter (by simp [pending?, hphase])
    exact ⟨news, applied, queued, h.of_same hwriters rfl rfl rfl hpending⟩
  | @enqueue i writer r job hwriter hphase =>
    exact ⟨news, applied, queued ++ [r], h.enqueue hwriter hphase hwriters hmeets⟩
  | @answer i writer hwriter hphase =>
    refine ⟨news, applied, queued, h.of_same hwriters rfl rfl rfl fun r => pending_setPhase hwriter ?_⟩
    cases hpending : pending? writer with
    | none => rfl
    | some r' => cases hphase.symm.trans (record_of_pending hpending)
  | failLookup | fail => exact hmeets.elim
  | @apply job queue hqueue =>
    obtain ⟨r, rest, -, happlied⟩ := h.apply hlib hshape hqueue hmeets
    exact ⟨news, applied ++ [r], rest, happlied⟩
  | fetch | hydrate | touch | evict | evictIdle =>
    exact ⟨news, applied, queued, h.of_same hwriters rfl rfl rfl fun _ => Iff.rfl⟩

/-- What is applied is what was logged, key by key, once nothing is pending or queued. -/
theorem drained (h : Inv lib schema base start news applied queued s) (hdone : Drained s) :
    Agrees lib (shapeOf schema) (allApplied start applied) s.records ∧
    ∀ place, rows (allApplied start applied) place = rows (allApplied start news) place := by
  have hnone : ∀ r, ¬ Pending s r := by
    rintro r ⟨writer, hwriter, hpending⟩
    have hfinished := hdone.writers writer hwriter
    unfold isFinished at hfinished
    unfold pending? at hpending
    split at hpending <;> simp_all
  have hqueued : queued = [] := forall₂_nil_right_iff.mp (hdone.queue ▸ h.queue)
  have hmem : ∀ r, r ∈ applied ↔ r ∈ news := fun r => by simp [h.news, hqueued, hnone]
  refine ⟨h.agrees, fun place => rows_allApplied_congr (fun r hr => ?_) ?_ start⟩
  · exact h.once ((mem_append.mp hr).elim (hmem r).mp id)
  · have hasc : news.Pairwise fun a b => a.lsn < b.lsn :=
      (pairwise_append.mp (h.wal ▸ h.writers.ascending)).2.1
    have hordered := h.ordered place
    rw [hqueued, append_nil] at hordered
    refine LastWord.eq_of_numbers hordered (hasc.filter _) fun r => ?_
    rw [mem_filter, mem_filter, hmem]

end Inv

theorem mem_recordsFromWalRecords {wal : List WalRecord} {record : DbRecord} :
    record ∈ recordsFromWalRecords wal ↔
    ∃ path : String, (recordsByPath wal)[path]? = some record := by
  rw [recordsFromWalRecords, mem_map]
  constructor
  · rintro ⟨⟨path, found⟩, hmem, rfl⟩
    exact ⟨path, mem_toList_iff_getElem?_eq_some.mp hmem⟩
  · rintro ⟨path, hfound⟩
    exact ⟨(path, record), mem_toList_iff_getElem?_eq_some.mpr hfound, rfl⟩

/-- The record that a replay gives for a table and a key. -/
def Replayed (wal : List WalRecord) (table key : String) (found : Option DbRecord) : Prop :=
  ∀ record, found = some record ↔ record ∈ recordsFromWalRecords wal ∧ (record.table, record.key) = (table, key)

/-- The projection and a replay of the log. -/
theorem projection_replays (hlib : lib.Lawful) (hshape : (shapeOf schema).Named)
    (hs : Projected lib schema s start)
    (hrun : Reaches (WriteStep lib checks schema) (InOrder lib schema) s t)
    (hdone : Drained t) {table key : String} (htable : NulFree table) (hkey : NulFree key) :
    ∃ found, getRecord lib t.records table key = .ok found ∧ Replayed t.wal table key found := by
  have hinv := hrun.invariant (I := fun u => ∃ news applied queued,
    Inv lib schema s.wal start news applied queued u) (fun _ _ _ hI hmeets hstep => by
      obtain ⟨news, applied, queued, h⟩ := hI
      exact h.step hlib hshape hmeets hstep) ⟨[], [], [], hs.inv⟩
  obtain ⟨news, applied, queued, h⟩ := hinv
  obtain ⟨hagrees, hrows⟩ := h.drained hdone
  refine ⟨_, hagrees.getRecord_eq hlib htable hkey, fun record => ?_⟩
  rw [hrows, h.areCurrent, mem_recordsFromWalRecords, exists_and_right, eq_comm (a := (table, key))]

section Sample

def notesTable : TableSchema := ⟨.resident, ∅, ∅, ⟨[]⟩, ∅⟩

def notesSchema : DatabaseSchema where
  name := "app"
  version := 1
  objects := ∅
  tables := (∅ : BTreeMap String TableSchema).insert "notes" notesTable
  events := ∅
  behaviors := ∅

def noteDraft : DbRecordDraft := ⟨"notes", "a", .null, 0, "tables/notes/a", none⟩

def noteRequests : List (RecordOperation × Option Nat) := [(.upsert "notes" "a" .null, none)]

/-- Bytes for the note at two LSNs. -/
def notesLibrary : ProjectionLibraries :=
  givenLibrary [(⟨"notes", "a", .null, 0, 1, "tables/notes/a"⟩, [1]),
      (⟨"notes", "a", .null, 0, 2, "tables/notes/a"⟩, [2])] []

theorem notesLibrary_lawful : notesLibrary.Lawful := givenLibrary_lawful (by decide) nodup_nil

theorem notesShape_named : (shapeOf notesSchema).Named :=
  shapeOf_named_single rfl rfl fun _ _ hindex => by cases hindex.symm.trans getElem?_empty

def anyShard : OperationChecks := ⟨fun _ => .ok (), fun _ => .ok (), fun _ => .ok 0⟩

def noteRecord (lsn : Nat) : WalRecord :=
  ⟨lsn, 0, 0, "node", 0, 1, .strict, .recordUpserted noteDraft, none⟩

def noteJob (lsn : Nat) : RecordProjectionJob := .upsert lsn (noteDraft.intoRecord lsn) ∅ none

theorem noteJob_eq (lsn : Nat) :
    projectionJob notesSchema (noteRecord lsn) = .ok (noteJob lsn) := by
  rfl

def noteWriter (phase : WriterPhase) : Writer := ⟨false, noteRequests, 0, phase⟩

/-- Writers of the note, before the applier does anything. -/
def writing (wal : List WalRecord) (hot : RecordHotState) (queue : List RecordProjectionJob)
    (phases : List WriterPhase) : WriteState := ⟨wal, hot, queue, .empty, phases.map noteWriter, []⟩

def server : WriteState := writing [] ⟨∅, 0⟩ [] []

theorem server_projected : Projected notesLibrary notesSchema server (fun _ => ∅) where
  ascending := .nil
  bounded := by simp [server, writing]
  logged := fun _ h => nomatch h
  queue := rfl
  writers := rfl
  readers := rfl
  areCurrent := by
    intro place record
    simp [rows, recordsByPath, server, writing]
  agrees := agrees_empty

section
variable {meets : WriteState → WriteEvent → Prop} {hot : RecordHotState} {lsn : Nat}

theorem no_note_index {name : String} {index : IndexSchema} :
    ((shapeOf notesSchema).indexes "notes")[name]? ≠ some index := by
  intro h
  cases h.symm.trans (getElem?_empty (a := name))

theorem note_encodes (hlsn : lsn = 1 ∨ lsn = 2) :
    Encodes notesLibrary notesSchema (noteRecord lsn) := by
  intro draft hdraft
  obtain rfl := mem_singleton.mp (show draft ∈ [noteDraft] from hdraft)
  refine ⟨?_, fun name index hindex => absurd hindex no_note_index⟩
  rcases hlsn with rfl | rfl <;> exact ⟨_, rfl⟩

theorem note_undisputed (current : CurrentRecords) :
    Undisputed (shapeOf notesSchema) current (noteJob lsn).mutations := by
  refine ⟨?_, trivial⟩
  rintro ⟨name, index, other, hindex, -⟩
  exact no_note_index hindex

abbrev NoteSteps (meets : WriteState → WriteEvent → Prop) : WriteState → WriteState → Prop :=
  Reaches (WriteStep notesLibrary anyShard notesSchema) meets

/-- An event that is neither of the hot cache nor of the applier. -/
def ofWriter : WriteEvent → Bool
  | .receive .. | .read _ | .validate _ | .append .. | .enqueue _ => true
  | .cache _ | .answer _ | .fail _ | .apply | .fetch _ | .hydrate _ | .touch .. | .evict .. | .evictIdle _ => false

variable (hmeets : ∀ s e, ofWriter e = true → InOrder notesLibrary notesSchema s e → meets s e)
include hmeets

/-- Two writers of the note log their records. -/
theorem both_logged (hok : (readOperations notesLibrary anyShard 0 ((writing [] hot [] []).reads notesSchema) noteRequests
    >>= validatePrepared notesLibrary ((writing [] hot [] []).reads notesSchema)).isOk = true) :
    NoteSteps meets (writing [] hot [] [])
      (writing [noteRecord 1, noteRecord 2] hot [] [.logged (noteRecord 1),
      .logged (noteRecord 2)]) := by
  have hone : NoteSteps meets (writing [] hot [] []) (writing [noteRecord 1] hot [] [.logged (noteRecord 1)]) := by
    refine reaches_logged (r := noteRecord 1) (.refl _) rfl hok rfl (by decide) (fun _ h => nomatch h)
      (hmeets _ _ rfl trivial) (hmeets _ _ rfl trivial) (fun _ => hmeets _ _ rfl trivial) fun _ => hmeets _ _ rfl ?_
    exact ⟨note_encodes (.inl rfl), fun _ _ path _ hfound => by cases hfound.symm.trans (getElem?_empty (a := path))⟩
  refine reaches_logged (r := noteRecord 2) hone rfl hok rfl (by decide) (by simp [writing, noteRecord])
    (hmeets _ _ rfl trivial) (hmeets _ _ rfl trivial) (fun _ => hmeets _ _ rfl trivial) fun _ => hmeets _ _ rfl ?_
  refine ⟨note_encodes (.inr rfl), fun mutation hmem path record hfound _ => ?_⟩
  obtain rfl := mem_singleton.mp hmem
  have hcommitted : recordsByPath [noteRecord 1] =
      (∅ : BTreeMap String DbRecord).insert "tables/notes/a" (noteDraft.intoRecord 1) := rfl
  change (recordsByPath [noteRecord 1])[path]? = some record at hfound
  rw [hcommitted, Std.ExtTreeMap.getElem?_insert, getElem?_empty] at hfound
  split at hfound
  · next hpath => exact (compare_eq_iff_eq.mp hpath).symm
  · cases hfound

/-- Their jobs are queued in the order of the log. -/
theorem both_queued {start : WriteState}
    (h : NoteSteps meets start (writing [noteRecord 1, noteRecord 2] hot []
    [.cached (noteRecord 1) (noteJob 1), .cached (noteRecord 2) (noteJob 2)])) :
    NoteSteps meets start (writing [noteRecord 1, noteRecord 2] hot [noteJob 1, noteJob 2]
      [.committed (noteRecord 1), .committed (noteRecord 2)]) := by
  have hfirst : NoteSteps meets start (writing [noteRecord 1, noteRecord 2] hot [noteJob 1]
      [.committed (noteRecord 1), .cached (noteRecord 2) (noteJob 2)]) := by
    refine h.take (e := .enqueue 0) (@WriteStep.enqueue _ _ _ _ 0 (noteWriter (.cached (noteRecord 1) (noteJob 1)))
      _ _ rfl rfl) (hmeets _ _ rfl ?_)
    rintro writer r hwriter hpending earlier ⟨other, hother, hearlier⟩ hlt
    obtain rfl := Option.some.inj hwriter
    obtain rfl := Option.some.inj hpending
    rcases mem_pair.mp hother with rfl | rfl <;> obtain rfl := Option.some.inj hearlier <;> exact absurd hlt (by decide)
  refine hfirst.take (e := .enqueue 1) (@WriteStep.enqueue _ _ _ _ 1 (noteWriter (.cached (noteRecord 2) (noteJob 2)))
    _ _ rfl rfl) (hmeets _ _ rfl ?_)
  rintro writer r hwriter hpending earlier ⟨other, hother, hearlier⟩ hlt
  obtain rfl := Option.some.inj hwriter
  obtain rfl := Option.some.inj hpending
  rcases mem_pair.mp hother with rfl | rfl
  · cases hearlier
  · obtain rfl := Option.some.inj hearlier
    exact absurd hlt (by decide)

end

abbrev FromServer (meets : WriteState → WriteEvent → Prop) (t : WriteState) : Prop :=
  NoteSteps meets server t

abbrev Raced := FromServer fun _ _ => True

def hotOne : RecordHotState := hotAfter ⟨∅, 0⟩ (noteRecord 1)

def hotTwo : RecordHotState := hotAfter hotOne (noteRecord 2)

theorem note_accepted :
    (readOperations notesLibrary anyShard 0 (server.reads notesSchema) noteRequests >>=
    validatePrepared notesLibrary (server.reads notesSchema)).isOk = true := by
  decide +kernel

/-- The jobs of two writers of the note are queued in the other order. -/
theorem raced : ∃ t, Raced t ∧ Drained t ∧ t.wal = [noteRecord 1, noteRecord 2] ∧
    t.records = (exec (applyOperations
    notesLibrary (noteJob 1).mutations) (exec (applyOperations notesLibrary (noteJob 2).mutations) .empty).2).2 := by
  have h₁ : Raced _ := both_logged (fun _ _ _ _ => trivial) note_accepted
  have h₂ := h₁.take (e := .cache 0) (.cache rfl rfl (noteJob_eq 1)) trivial
  have h₃ := h₂.take (e := .cache 1) (.cache rfl rfl (noteJob_eq 2)) trivial
  have h₄ := h₃.take (e := .enqueue 1) (.enqueue rfl rfl) trivial
  have h₅ := h₄.take (e := .enqueue 0) (.enqueue rfl rfl) trivial
  obtain ⟨t, hrun, hqueue, hwal, hwriters, hrecords⟩ := @reaches_drained notesSchema notesLibrary anyShard
    (fun _ _ => True) (fun _ => trivial) (writing [noteRecord 1, noteRecord 2] hotTwo [noteJob 2, noteJob 1]
      [.committed (noteRecord 1), .committed (noteRecord 2)])
  refine ⟨t, h₅.trans hrun, ⟨?_, hqueue⟩, hwal, hrecords⟩
  intro writer hwriter
  rw [hwriters] at hwriter
  rcases mem_pair.mp hwriter with rfl | rfl <;> rfl

theorem nulFree_note : NulFree "notes" ∧ NulFree "a" := by decide

/-- The projection keeps the note of the first writer, and a replay gives that of the second. -/
theorem raced_not_replayed :
    ¬ ∀ (lib : ProjectionLibraries) (checks : OperationChecks) (schema : DatabaseSchema)
    (start : CurrentRecords) (s t : WriteState), lib.Lawful → (shapeOf schema).Named →
    Projected lib schema s start →
    Reaches (WriteStep lib checks schema) (fun _ _ => True) s t → Drained t →
    ∀ table key, NulFree table → NulFree key →
    ∃ found, getRecord lib t.records table key = .ok found ∧ Replayed t.wal table key found := by
  intro hall
  obtain ⟨t, hrun, hdone, hwal, hrecords⟩ := raced
  obtain ⟨found, hfound, hreplayed⟩ := hall _ _ _ _ _ t notesLibrary_lawful notesShape_named server_projected hrun hdone
    "notes" "a" nulFree_note.1 nulFree_note.2
  have hlsn : ((getRecord notesLibrary t.records "notes" "a").toOption.join.map DbRecord.lsn) = some 1 := by
    rw [hrecords]
    decide +kernel
  have hlast : ((recordsFromWalRecords t.wal).all fun record => record.lsn == 2) = true := by
    rw [hwal]
    decide +kernel
  rw [hfound] at hlsn
  cases found with
  | none => cases hlsn
  | some record =>
    have hone : record.lsn = 1 := Option.some.inj hlsn
    have htwo := all_eq_true.mp hlast record ((hreplayed record).mp rfl).1
    rw [hone] at htwo
    cases htwo

abbrev Ordered := FromServer (InOrder notesLibrary notesSchema)

/-- Two writers of the note, whose jobs are queued in order and applied. -/
theorem ordered : ∃ t, Ordered t ∧ Drained t ∧ t.wal = [noteRecord 1, noteRecord 2] := by
  let queued : WriteState := writing [noteRecord 1, noteRecord 2] hotTwo [noteJob 1, noteJob 2]
    [.committed (noteRecord 1), .committed (noteRecord 2)]
  have h₁ : Ordered _ := both_logged (fun _ _ _ h => h) note_accepted
  have h₂ := h₁.take (e := .cache 0) (.cache rfl rfl (noteJob_eq 1)) (by trivial)
  have h₃ := h₂.take (e := .cache 1) (.cache rfl rfl (noteJob_eq 2)) (by trivial)
  have h₄ : Ordered queued := both_queued (fun _ _ _ h => h) h₃
  have h₅ : Ordered ({ queued with queue := [noteJob 2] }.work notesLibrary (noteJob 1)) :=
    h₄.take (e := .apply) (.apply rfl) (by
      intro job hjob current _
      obtain rfl := Option.some.inj hjob
      exact note_undisputed current)
  obtain ⟨hwal, hwriters, hqueue, -⟩ := @work_fields notesLibrary { queued with queue := [noteJob 2] } (noteJob 1)
  have h₆ := h₅.take (e := .apply) (.apply hqueue) (by
    intro job hjob current _
    rw [hqueue] at hjob
    obtain rfl := Option.some.inj hjob
    exact note_undisputed current)
  obtain ⟨hwal', hwriters', hqueue', -⟩ := @work_fields notesLibrary
    { { queued with queue := [noteJob 2] }.work notesLibrary (noteJob 1) with queue := [] } (noteJob 2)
  refine ⟨_, h₆, ⟨fun writer hwriter => ?_, hqueue'⟩, hwal'.trans hwal⟩
  rw [hwriters'] at hwriter
  change writer ∈ ({ queued with queue := [noteJob 2] }.work notesLibrary (noteJob 1)).writers at hwriter
  rw [hwriters] at hwriter
  rcases mem_pair.mp hwriter with rfl | rfl <;> rfl

theorem projection_replays_note : notesLibrary.Lawful ∧ (shapeOf notesSchema).Named ∧ Projected
    notesLibrary notesSchema server (fun _ => ∅) ∧ NulFree "notes" ∧ NulFree "a" ∧ ∃ t, Ordered t ∧
    Drained t ∧
    ∃ found, getRecord notesLibrary t.records "notes" "a" = .ok found ∧
    Replayed t.wal "notes" "a" found := by
  obtain ⟨t, hrun, hdone, -⟩ := ordered
  exact ⟨notesLibrary_lawful, notesShape_named, server_projected, nulFree_note.1, nulFree_note.2, t, hrun, hdone,
    projection_replays notesLibrary_lawful notesShape_named server_projected hrun hdone nulFree_note.1 nulFree_note.2⟩

end Sample
end NextDb.Api.ProjectionReplay
