import NextDb.Api.ProjectionReplay

/-!
# Reads of records

A read takes a record from the hot cache; if the cache has neither the record nor its deletion and
may have dropped it, from the record projection, and then puts it in the cache.

* `read_committed`: with no write in flight, a read of a hot table returns what was last committed
  under the key: in every run in which the jobs for a key are queued and applied as for a replay,
  the hot cache is told of the records of a key in the order of their LSNs, a row that is read from
  the projection is put in the cache only while it is what was last committed, and a record leaves
  the cache only if its table is windowed and its job is applied.
-/

namespace NextDb.Api.RecordReads

open Run List Std Records TextKeys
open ApplySchema (internal)
open Converge ProjectionKv CurrentRecords RecordChecks TransactionJob RecordWriters
open ProjectionReplay (InOrder Pending pending? allApplied recordApplied Projected)

/-! ## A read -/

/-- `get_record_from_live_or_disk`: what is read, and the hot cache after it. -/
def getRecordFromLiveOrDisk (lib : ProjectionLibraries) (s : WriteState) (table key : String) :
    Except ApiError (Option DbRecord × RecordHotState) :=
  match s.hot.get table key with
  | some (some record) => .ok (some record, s.hot.touch table key)
  | some none =>
    if (s.hot.durableDeleteLsn table key).join.isSome then .ok (none, s.hot)
    else if s.hot.isWindowedTable table then do
      let record ← internal (getRecord lib s.records table key)
      return (record, s.hot.hydrateDurableMany record.toList)
    else .ok (none, s.hot)
  | none => do
    let record ← internal (getRecord lib s.records table key)
    return (record, s.hot)

/-- The record that a writer has logged, and not put in the hot cache. -/
def uncached? (writer : Writer) : Option WalRecord :=
  match writer.phase with
  | .logged r => some r
  | .received | .read .. | .checked .. | .cached .. | .committed _ | .failed _ | .answered => none

/-- A writer has appended the record, and has not put it in the cache. -/
def Uncached (s : WriteState) (r : WalRecord) : Prop :=
  ∃ writer ∈ s.writers, uncached? writer = some r

/-- The job of a record that changes the place is queued, or will be. -/
def Unapplied (s : WriteState) (place : String × String) : Prop :=
  ∃ r ∈ s.wal, place ∈ recordPlaces r ∧
    ((∃ job ∈ s.queue, job.lsn = r.lsn) ∨ ∃ writer ∈ s.writers, ∃ job, writer.phase = .cached r job)

/-- The cache has neither the record nor its deletion. -/
def Forgotten (hot : RecordHotState) (place : String × String) : Prop :=
  hot.entry place = some (none, none)

/-- What leaves the hot cache is of a windowed table, and its job is applied. -/
def MayLeave (s : WriteState) (changed : List (String × String)) (hot : RecordHotState) : Prop :=
  ∀ place, Forgotten hot place → place ∉ changed ∧
    (Forgotten s.hot place ∨ s.hot.isWindowedTable place.1 = true ∧ ¬ Unapplied s place)

/-- The hot cache is told of the records of a key in order, a row that is put in it is what was last
committed, and what leaves it may leave. -/
def KeepsHot (s : WriteState) : WriteEvent → Prop
  | .cache i => ∀ writer r, s.writers[i]? = some writer → writer.phase = .logged r →
      (∀ earlier, Uncached s earlier → earlier.lsn < r.lsn → ∀ place ∈ recordPlaces r,
      place ∉ recordPlaces earlier) ∧
        MayLeave s (recordPlaces r) (hotAfter s.hot r)
  | .hydrate j => ∀ rows, s.readers[j]? = some rows →
    MayLeave s [] (s.hot.hydrateDurableMany rows) ∧
      ∀ row ∈ rows, (s.hot.entry (row.table, row.key)).isSome →
      committedRecord s.wal (row.table, row.key) = some row ∧
          ∀ r, Uncached s r → (row.table, row.key) ∉ recordPlaces r
  | .evict table key => MayLeave s [] (s.hot.evict table key)
  | .evictIdle idle => MayLeave s [] (s.hot.evictIdleDurableRecords idle)
  | _ => True

def Coherent (lib : ProjectionLibraries) (schema : DatabaseSchema) (s : WriteState)
    (e : WriteEvent) : Prop :=
  InOrder lib schema s e ∧ KeepsHot s e

/-! ## What was last committed -/

variable {lib : ProjectionLibraries} {checks : OperationChecks} {schema : DatabaseSchema}
    {s t : WriteState}
  {base news applied queued cached : List WalRecord} {start : CurrentRecords} {i : Nat}
    {writer : Writer}
  {r : WalRecord} {place : String × String} {mutation : DbRecordMutationDraft}
    {records : List WalRecord}
  {phase : WriterPhase} {hot : RecordHotState}

theorem placeTells_of_mem (hone : Once (recordMutations r.payload))
    (hmem : mutation ∈ recordMutations r.payload) :
    placeTells (mutationPlace mutation) r = some (mutationLeaves r.lsn mutation) := by
  rw [placeTells, Option.map_eq_some_iff]
  have hsame : ∀ other ∈ (recordMutations r.payload).filter fun other => mutationPlace other = mutationPlace mutation,
      other = mutation := by
    intro other hother
    obtain ⟨hother, hplace⟩ := mem_filter.mp hother
    exact hone.place other hother mutation hmem (by simpa using hplace)
  cases hlast : ((recordMutations r.payload).filter fun other =>
    mutationPlace other = mutationPlace mutation).getLast? with
  | none =>
    have hempty := getLast?_eq_none_iff.mp hlast
    exact absurd (mem_filter.mpr ⟨hmem, by simp⟩) (hempty ▸ not_mem_nil)
  | some last => exact ⟨last, rfl, by rw [hsame last (mem_of_getLast? hlast)]⟩

theorem rows_recordApplied (hone : Once (recordMutations r.payload)) (current : CurrentRecords) :
    rows (recordApplied current r) place = (placeTells place r).getD (rows current place) := by
  by_cases hplace : place ∈ recordPlaces r
  · obtain ⟨mutation, hmem, rfl⟩ := mem_map.mp hplace
    rw [placeTells_of_mem hone hmem, Option.getD_some]
    refine Option.ext fun record => (rows_afterJob hone).trans ⟨?_, fun hleaves => .inl ⟨mutation, hmem, rfl, hleaves⟩⟩
    rintro (⟨other, hother, hsame, hleaves⟩ | ⟨hnone, -⟩)
    · rwa [hone.place other hother mutation hmem hsame] at hleaves
    · exact absurd rfl (hnone mutation hmem)
  · rw [ProjectionReplay.rows_recordApplied_of_notMem hone hplace, placeTells_eq_none.mpr hplace, Option.getD_none]

theorem committedRecord_concat (wal : List WalRecord) (r : WalRecord) (place : String × String) :
    committedRecord (wal ++ [r]) place = (placeTells place r).getD (committedRecord wal place) :=
  LastWord.read_concat _ wal r

/-- The rows after records of the log are what was last committed. -/
theorem rows_allApplied (hone : ∀ r ∈ records, Once (recordMutations r.payload))
    (hstart : rows start place = committedRecord base place) :
    rows (allApplied start records) place = committedRecord (base ++ records) place := by
  induction records using reverseRecOn with
  | nil => rw [append_nil, ← hstart]; rfl
  | append_singleton records r ih =>
    have ih := ih fun r' hr' => hone r' (mem_append_left _ hr')
    rw [ProjectionReplay.allApplied_concat, rows_recordApplied (hone r (by simp)), ih, ← append_assoc,
      committedRecord_concat]

/-- Records of the log that change a place in the same order leave the same there. -/
theorem committedRecord_congr {records' : List WalRecord}
    (h : records.filter (place ∈ recordPlaces ·) = records'.filter (place ∈ recordPlaces ·)) :
    committedRecord (base ++ records) place = committedRecord (base ++ records') place := by
  have hread : ∀ records : List WalRecord, committedRecord (base ++ records) place =
      records.foldl (fun left r => (placeTells place r).getD left) (committedRecord base place) := fun records =>
    foldl_append
  rw [hread, hread]
  refine LastWord.foldl_eq_of_filter_eq (f := id) ?_ ?_ h _
  · intro r _ hnone left
    rw [placeTells_eq_none.mpr (by simpa using hnone)]
    rfl
  · intro r _ hsome left left' _
    have htells : placeTells place r ≠ none := fun hnone => placeTells_eq_none.mp hnone (by simpa using hsome)
    obtain ⟨told, htold⟩ := Option.ne_none_iff_exists'.mp htells
    rw [htold]
    rfl

/-! ## The invariant -/

/-- What the hot cache has of a place that it was told of by `cached`, when the jobs of `applied`
are applied. -/
def EntryFits (base cached applied : List WalRecord) (windowed : Bool) (place : String × String) :
    HotEntry → Prop
  | (some record, deleted) => committedRecord (base ++ cached) place = some record ∧ deleted = none
  | (none, some lsn) => committedRecord (base ++ cached) place = none ∧
      (∃ r ∈ cached, place ∈ recordPlaces r ∧ r.lsn = lsn) ∧ ∀ r ∈ cached, place ∈ recordPlaces r →
      r.lsn ≤ lsn
  | (none, none) => if windowed then ∀ r ∈ cached, place ∈ recordPlaces r → r ∈ applied
      else committedRecord (base ++ cached) place = none

/-- Every entry of the cache fits what was cached and applied. -/
def HotFits (base cached applied : List WalRecord) (hot : RecordHotState) : Prop :=
  ∀ place entry, hot.entry place = some entry → EntryFits base cached applied (hot.isWindowedTable place.1) place entry

/-- The hot cache was told of `cached`. -/
structure Inv (lib : ProjectionLibraries) (schema : DatabaseSchema) (base : List WalRecord)
    (start : CurrentRecords)
    (news applied queued cached : List WalRecord) (s : WriteState) : Prop where
  replay : ProjectionReplay.Inv lib schema base start news applied queued s
  started : ∀ place, rows start place = committedRecord base place
  news : ∀ r, r ∈ news ↔ r ∈ cached ∨ Uncached s r
  told : ∀ r ∈ applied ++ queued, r ∈ cached
  held : ∀ writer ∈ s.writers, ∀ r job, writer.phase = .cached r job → r ∈ cached
  behind : ∀ r ∈ cached, ∀ later, Uncached s later → ∀ place ∈ recordPlaces r, place ∈ recordPlaces later →
    r.lsn < later.lsn
  ordered : ∀ place, (cached.filter (place ∈ recordPlaces ·)).Pairwise fun a b => a.lsn < b.lsn
  fits : HotFits base cached applied s.hot

theorem record_of_uncached (h : uncached? writer = some r) : writer.record? = some r := by
  unfold uncached? at h
  unfold Writer.record?
  split at h <;> simp_all

theorem uncached_setPhase (hwriter : s.writers[i]? = some writer)
    (hsame : uncached? { writer with phase } = uncached? writer) :
    Uncached (s.setPhase i writer phase) r ↔ Uncached s r := by
  have hset : (∃ w ∈ s.writers.set i { writer with phase }, uncached? w = some r) ↔
      (∃ w ∈ s.writers, uncached? w = some r) ∨ False := exists_mem_set_iff hwriter (by rw [hsame, or_false])
  exact hset.trans (or_iff_left id)

theorem uncached_logged (hwriter : s.writers[i]? = some writer) (hnone : uncached? writer = none)
    (r' : WalRecord) :
    Uncached (s.setPhase i writer (.logged r)) r' ↔ Uncached s r' ∨ r = r' := by
  show (∃ w ∈ s.writers.set i _, uncached? w = some r') ↔ (∃ w ∈ s.writers, uncached? w = some r') ∨ r = r'
  refine exists_mem_set_iff hwriter ?_
  rw [hnone]
  simp [uncached?]

/-- The hot cache is told of the record of one writer; the other writers have other records. -/
theorem uncached_cached (h : Writers schema s) (hwriter : s.writers[i]? = some writer)
    (hphase : writer.phase = .logged r) (hcached : uncached? { writer with phase } = none)
    (r' : WalRecord) :
    Uncached (s.setPhase i writer phase) r' ↔ Uncached s r' ∧ r' ≠ r := by
  have huncached : uncached? writer = some r := by rw [uncached?, hphase]
  constructor
  · rintro ⟨w, hw, hr'⟩
    obtain ⟨j, hj⟩ := mem_iff_getElem?.mp hw
    rcases getElem?_set_cases hj with ⟨rfl, rfl⟩ | ⟨hne, hold⟩
    · rw [hcached] at hr'
      cases hr'
    · refine ⟨⟨w, mem_of_getElem? hold, hr'⟩, fun heq => hne ?_⟩
      exact h.once _ _ _ _ r hold hwriter (record_of_uncached (heq ▸ hr')) (record_of_uncached huncached)
  · rintro ⟨⟨w, hw, hr'⟩, hne⟩
    obtain ⟨j, hj⟩ := mem_iff_getElem?.mp hw
    have hij : i ≠ j := by
      rintro rfl
      cases hwriter.symm.trans hj
      exact hne (Option.some.inj (hr'.symm.trans huncached))
    exact ⟨w, mem_of_getElem? ((getElem?_set_ne hij).trans hj), hr'⟩

/-- A change of the hot cache that keeps its entries keeps what they tell. -/
theorem HotFits.of_same {hot hot' : RecordHotState} (h : HotFits base cached applied hot)
    (hentry : ∀ place,
    hot'.entry place = hot.entry place)
    (hwindowed : ∀ table, hot'.isWindowedTable table = hot.isWindowedTable table) :
    HotFits base cached applied hot' := by
  intro place entry hplace
  rw [hwindowed]
  exact h place entry ((hentry place).symm.trans hplace)

/-- Records of windowed tables may leave the cache once they are applied. -/
theorem HotFits.fades {leave : String → Prop} {hot' : RecordHotState}
    (h : HotFits base cached applied hot)
    (hfades : hot.Fades leave hot') (hleave : ∀ place, leave place.1 → Forgotten hot' place →
    ¬ Forgotten hot place → hot.isWindowedTable place.1 = true ∧ ∀ r ∈ cached,
      place ∈ recordPlaces r → r ∈ applied) :
    HotFits base cached applied hot' := by
  intro place entry hentry
  rw [hfades.windowed]
  rcases hfades.entry place with hsame | ⟨hleaves, record, deleted, hbefore, hafter⟩
  · exact h place entry (hsame.symm.trans hentry)
  · obtain rfl := Option.some.inj (hafter.symm.trans hentry)
    obtain ⟨-, rfl⟩ : _ ∧ deleted = none := h place (some record, deleted) hbefore
    obtain ⟨hwindow, happlied⟩ := hleave place hleaves hafter (by rw [Forgotten, hbefore]; simp)
    show if hot.isWindowedTable place.1 then _ else _
    rw [if_pos hwindow]
    exact happlied

/-! ## What the hot cache is told -/

/-- What a change leaves under its key. -/
def entryAfter (lsn : Nat) : DbRecordMutationDraft → HotEntry → HotEntry
  | .upsert draft => HotEntry.put (draft.intoRecord lsn)
  | .delete _ => HotEntry.delete lsn

theorem entry_deletes (hot : RecordHotState)
    (deletes : List DbRecordDeleteDraft) (lsn : Nat) (place : String × String) :
    (deletes.foldl (fun hot delete => hot.deleteDurable delete.table delete.key lsn) hot).entry place =
    if ∃ delete ∈ deletes, place = (delete.table, delete.key) then
    (hot.entry place).map (HotEntry.delete lsn) else hot.entry place :=
  hot.entry_foldl place (fun entry => entry.delete_delete lsn) _ fun hot delete _ =>
    hot.entry_deleteDurable place delete.table delete.key lsn

theorem entry_puts (hot : RecordHotState) {records : List DbRecord}
    (record : DbRecord) (h : ∀ other ∈ records, place = (other.table, other.key) → other = record) :
    (records.foldl (fun hot record => hot.upsertInternal record false) hot).entry place =
    if ∃ other ∈ records,
    place = (other.table,
    other.key) then (hot.entry place).map (HotEntry.put record) else hot.entry place := by
  refine hot.entry_foldl place (fun entry => entry.put_put record) _ fun hot other hother => ?_
  have hput : (hot.upsertInternal other false).entry place = _ := hot.entry_put place other
  rw [hput]
  split
  · next hplace => rw [h other hother hplace]
  · rfl

theorem entry_puts_of_notMem (hot : RecordHotState) {records : List DbRecord}
    (h : ∀ record ∈ records, place ≠ (record.table, record.key)) :
    (records.foldl (fun hot record => hot.upsertInternal record false) hot).entry place =
    hot.entry place := by
  induction records generalizing hot with
  | nil => rfl
  | cons record records ih =>
    obtain ⟨hrecord, hrecords⟩ := forall_mem_cons.mp h
    have hput : (hot.upsertInternal record false).entry place = _ := hot.entry_put place record
    rw [foldl_cons, ih _ hrecords, hput, if_neg hrecord]

/-- The hot cache after a transaction, before records leave it. -/
def hotTold (hot : RecordHotState) (r : WalRecord) : RecordHotState :=
  ((upsertDrafts (recordMutations r.payload)).map fun draft => draft.intoRecord r.lsn).foldl
    (fun hot record => hot.upsertInternal record false)
    ((deleteDrafts (recordMutations r.payload)).foldl
      (fun hot delete => hot.deleteDurable delete.table delete.key r.lsn) hot)

theorem isWindowedTable_hotTold (hot : RecordHotState) (r : WalRecord) (table : String) :
    (hotTold hot r).isWindowedTable table = hot.isWindowedTable table := by
  rw [hotTold, RecordHotState.isWindowedTable_foldl _ fun hot record => hot.isWindowedTable_put record table,
    RecordHotState.isWindowedTable_foldl _ fun hot delete => hot.isWindowedTable_deleteDurable _ _ _ table]

theorem fades_hotAfter (hot : RecordHotState) (r : WalRecord) :
    (hotTold hot r).Fades (fun table => hot.isWindowedTable table = true) (hotAfter hot r) := by
  unfold hotAfter
  split
  · next draft hpayload =>
    rw [hotTold, hpayload]
    exact hot.fades_upsert (draft.intoRecord r.lsn)
  · next draft hpayload =>
    rw [hotTold, hpayload]
    exact .refl _ _
  · have hfades := ((deleteDrafts (recordMutations r.payload)).foldl
      (fun hot delete => hot.deleteDurable delete.table delete.key r.lsn) hot).fades_upsertMany
      ((upsertDrafts (recordMutations r.payload)).map fun draft => draft.intoRecord r.lsn)
    simp only [RecordHotState.isWindowedTable_foldl _ fun hot (delete : DbRecordDeleteDraft) =>
      hot.isWindowedTable_deleteDurable delete.table delete.key r.lsn _] at hfades
    exact hfades

theorem entry_hotTold_of_notMem (hot : RecordHotState) (h : place ∉ recordPlaces r) :
    (hotTold hot r).entry place = hot.entry place := by
  have hdeletes : ¬ ∃ delete ∈ deleteDrafts (recordMutations r.payload), place = (delete.table, delete.key) := by
    rintro ⟨delete, hdelete, hplace⟩
    exact h (mem_map.mpr ⟨_, mem_deleteDrafts.mp hdelete, hplace.symm⟩)
  rw [hotTold, entry_puts_of_notMem _ ?_, entry_deletes, if_neg hdeletes]
  intro record hrecord hplace
  obtain ⟨draft, hdraft, rfl⟩ := mem_map.mp hrecord
  exact h (mem_map.mpr ⟨_, mem_upsertDrafts.mp hdraft, hplace.symm⟩)

theorem entry_hotTold (hot : RecordHotState) (hone : Once (recordMutations r.payload))
    (hmem : mutation ∈ recordMutations r.payload) : (hotTold hot r).entry (mutationPlace mutation) =
    (hot.entry (mutationPlace mutation)).map (entryAfter r.lsn mutation) := by
  cases mutation with
  | upsert draft =>
    have hdeletes : ¬ ∃ delete ∈ deleteDrafts (recordMutations r.payload),
        mutationPlace (.upsert draft) = (delete.table, delete.key) := by
      rintro ⟨delete, hdelete, hplace⟩
      cases hone.place _ hmem _ (mem_deleteDrafts.mp hdelete) hplace
    rw [hotTold, entry_puts _ (draft.intoRecord r.lsn), if_pos, entry_deletes, if_neg hdeletes]
    · rfl
    · exact ⟨_, mem_map_of_mem (mem_upsertDrafts.mpr hmem), rfl⟩
    · intro other hother hplace
      obtain ⟨draft', hdraft', rfl⟩ := mem_map.mp hother
      cases hone.place _ hmem _ (mem_upsertDrafts.mp hdraft') hplace
      rfl
  | delete delete =>
    rw [hotTold, entry_puts_of_notMem, entry_deletes, if_pos ⟨delete, mem_deleteDrafts.mpr hmem, rfl⟩]
    · rfl
    · intro record hrecord hplace
      obtain ⟨draft, hdraft, rfl⟩ := mem_map.mp hrecord
      cases hone.place _ hmem _ (mem_upsertDrafts.mp hdraft) hplace

/-! ## Steps -/

theorem exists_job_of_forall₂ {jobs : List RecordProjectionJob}
    (h : List.Forall₂ (fun r job => projectionJob schema r = .ok job) records jobs)
    (hr : r ∈ records) :
    ∃ job ∈ jobs, job.lsn = r.lsn :=
  (exists_of_forall₂ h.flip hr).imp fun _ ⟨hmem, hjob⟩ => ⟨hmem, projectionJob_lsn hjob⟩

theorem isDurableRecord_of_located {path : String} (h : Located path place) {record : DbRecord}
    (hpath : record.path = path) (hlsn : 0 < record.lsn) : isDurableRecord record = true := by
  obtain ⟨operation, nowMs, id, -, hoperation, -⟩ := h.operation
  have hvolatile : record.path.startsWith "volatile/" = false := by
    refine String.startsWith_string_eq_false_iff.mpr fun hstarts => ?_
    rw [hpath, ← hoperation, ObjectRefIndex.mutation_path] at hstarts
    obtain ⟨rest, hrest⟩ := hstarts
    have hfirst := congrArg head? hrest
    simp at hfirst
  simp [isDurableRecord, hlsn, hvolatile]

/-- The mutation deletes what is at the place. -/
def deletesAt (place : String × String) : RecordProjectionMutation → Bool
  | .upsert .. => false
  | .delete table key => decide (place = (table, key))

namespace Inv

variable (h : Inv lib schema base start news applied queued cached s)
include h

theorem once (hr : r ∈ cached) : Once (recordMutations r.payload) :=
  h.replay.once ((h.news r).mpr (.inl hr))

theorem mem_wal (hr : r ∈ cached) : r ∈ s.wal := h.replay.mem_wal ((h.news r).mpr (.inl hr))

theorem not_uncached (hr : r ∈ cached) (hplace : place ∈ recordPlaces r) : ¬ Uncached s r :=
  fun huncached =>
  absurd (h.behind r hr r huncached place hplace hplace) (Nat.lt_irrefl _)

theorem applied_of (hplace : ¬ Unapplied s place) : ∀ r ∈ cached, place ∈ recordPlaces r →
    r ∈ applied := by
  intro r hr hmem
  by_contra hnot
  refine hplace ⟨r, h.mem_wal hr, hmem, ?_⟩
  rcases (h.replay.news r).mp ((h.news r).mpr (.inl hr)) with hqueued | ⟨writer, hwriter, hpending⟩
  · exact .inl (exists_job_of_forall₂ h.replay.queue ((mem_append.mp hqueued).resolve_left hnot))
  · cases hphase : writer.phase with
    | logged r' =>
      rw [pending?, hphase] at hpending
      obtain rfl := Option.some.inj hpending
      exact absurd ⟨writer, hwriter, by rw [uncached?, hphase]⟩ (h.not_uncached hr hmem)
    | cached r' job =>
      rw [pending?, hphase] at hpending
      obtain rfl := Option.some.inj hpending
      exact .inr ⟨writer, hwriter, job, hphase⟩
    | received | read | checked | committed | failed | answered =>
      rw [pending?, hphase] at hpending
      cases hpending

theorem committed_of_applied (happlied : ∀ r ∈ cached, place ∈ recordPlaces r → r ∈ applied) :
    rows (allApplied start applied) place = committedRecord (base ++ cached) place := by
  have hone : ∀ r ∈ applied, Once (recordMutations r.payload) := fun r hr =>
    h.replay.once (h.replay.mem_news (mem_append_left _ hr))
  rw [rows_allApplied hone (h.started place)]
  have hordered := h.replay.ordered place
  rw [filter_append] at hordered
  refine committedRecord_congr (LastWord.eq_of_numbers (pairwise_append.mp hordered).1 (h.ordered place) fun r => ?_)
  rw [mem_filter, mem_filter]
  constructor
  · exact fun hr => ⟨h.told r (mem_append_left _ hr.1), hr.2⟩
  · exact fun hr => ⟨happlied r hr.1 (by simpa using hr.2), hr.2⟩

theorem committed_of_told (hnone : ∀ r, Uncached s r → place ∉ recordPlaces r) :
    committedRecord s.wal place = committedRecord (base ++ cached) place := by
  have hasc : news.Pairwise fun a b => a.lsn < b.lsn :=
    (pairwise_append.mp (h.replay.wal ▸ h.replay.writers.ascending)).2.1
  rw [h.replay.wal]
  refine committedRecord_congr (LastWord.eq_of_numbers (hasc.filter _) (h.ordered place) fun r => ?_)
  rw [mem_filter, mem_filter, h.news]
  constructor
  · exact fun hr => ⟨hr.1.resolve_right fun huncached => hnone r huncached (by simpa using hr.2), hr.2⟩
  · exact fun hr => ⟨.inl hr.1, hr.2⟩

/-- Nothing is told, and nothing applied. -/
theorem of_same (hreplay : ProjectionReplay.Inv lib schema base start news applied queued t)
    (huncached : ∀ r,
    Uncached t r ↔ Uncached s r)
    (hheld : ∀ writer ∈ t.writers, ∀ r job, writer.phase = .cached r job → r ∈ cached)
    (hfits : HotFits base cached applied t.hot) :
    Inv lib schema base start news applied queued cached t where
  replay := hreplay
  started := h.started
  news := fun r => by rw [h.news, huncached]
  told := h.told
  held := hheld
  behind := fun r hr later hlater => h.behind r hr later ((huncached later).mp hlater)
  ordered := h.ordered
  fits := hfits

theorem held_setPhase (hcached : ∀ r job, phase = .cached r job → r ∈ cached) :
    ∀ w ∈ (s.setPhase i writer phase).writers, ∀ r job, w.phase = .cached r job → r ∈ cached :=
  forall_mem_set h.held hcached

theorem append (hwriter : s.writers[i]? = some writer) (hnone : uncached? writer = none)
    (habove : ∀ old ∈ s.wal, old.lsn < r.lsn)
    (hreplay : ProjectionReplay.Inv lib schema base start (news ++ [r])
    applied queued { s.setPhase i writer (.logged r) with wal := s.wal ++ [r] }) :
    Inv lib schema base start
    (news ++ [r]) applied queued cached { s.setPhase i writer (.logged r) with wal := s.wal ++ [r] } where
  replay := hreplay
  started := h.started
  news := by
    intro r'
    have huncached : Uncached { s.setPhase i writer (.logged r) with wal := s.wal ++ [r] } r' ↔
      Uncached s r' ∨ r = r' :=
      uncached_logged hwriter hnone r'
    rw [mem_append, mem_singleton, h.news, huncached, or_assoc, eq_comm]
  told := h.told
  held := h.held_setPhase (by simp)
  behind := by
    intro r' hr' later hlater place hplace hplace'
    rcases (uncached_logged hwriter hnone later).mp hlater with hlater | rfl
    · exact h.behind r' hr' later hlater place hplace hplace'
    · exact habove r' (h.mem_wal hr')
  ordered := h.ordered
  fits := h.fits

theorem committed_lt (hr : Uncached s r) (hplace : place ∈ recordPlaces r) {record : DbRecord}
    (hcommitted : committedRecord (base ++ cached) place = some record) : record.lsn < r.lsn := by
  obtain ⟨r', hr', htells⟩ := LastWord.mem_of_read hcommitted
  rw [lsn_of_placeTells htells]
  have hplace' : place ∈ recordPlaces r' := by
    by_contra hnot
    rw [placeTells_eq_none.mpr hnot] at htells
    cases htells
  rcases mem_append.mp hr' with hbase | hcached
  · have hasc := h.replay.writers.ascending
    rw [h.replay.wal] at hasc
    exact (pairwise_append.mp hasc).2.2 r' hbase r ((h.news r).mpr (.inr hr))
  · exact h.behind r' hcached r hr place hplace' hplace

variable {entry : HotEntry} {windowed : Bool}

/-- What a change leaves fits, once the hot cache was told. -/
theorem fits_told (hr : Uncached s r) (hone : Once (recordMutations r.payload))
    (hmem : mutation ∈ recordMutations r.payload)
    (hdurable : ∀ record, mutationLeaves r.lsn mutation = some record →
    isDurableRecord record = true)
    (hfits : EntryFits base cached applied windowed (mutationPlace mutation) entry) :
    EntryFits base (cached ++ [r]) applied windowed (mutationPlace mutation) (entryAfter r.lsn mutation entry) := by
  have hplace : mutationPlace mutation ∈ recordPlaces r := mem_map_of_mem hmem
  have hcommitted : committedRecord (base ++ (cached ++ [r]))
    (mutationPlace mutation) = mutationLeaves r.lsn mutation := by
    rw [← append_assoc, committedRecord_concat, placeTells_of_mem hone hmem, Option.getD_some]
  have hbelow : ∀ other ∈ cached, mutationPlace mutation ∈ recordPlaces other → other.lsn < r.lsn :=
    fun other hother hplace' => h.behind other hother r hr _ hplace' hplace
  obtain ⟨record?, deleted?⟩ := entry
  cases mutation with
  | upsert draft =>
    refine ⟨hcommitted, ?_⟩
    rw [if_pos (hdurable _ rfl)]
    cases record? with
    | some record =>
      obtain ⟨-, rfl⟩ : _ ∧ deleted? = none := hfits
      rfl
    | none =>
      cases deleted? with
      | none => rfl
      | some lsn =>
        obtain ⟨-, ⟨other, hother, hplace', rfl⟩, -⟩ := hfits
        have hlt := hbelow other hother hplace'
        show (some other.lsn).filter (fun deleted => !decide (deleted ≤ r.lsn)) = none
        rw [Option.filter_some, if_neg (by simp; omega)]
  | delete draft =>
    have hdeleted : entryAfter r.lsn (.delete draft) (record?, deleted?) = (none, some r.lsn) := by
      cases record? with
      | some record =>
        obtain ⟨htold, rfl⟩ : _ ∧ deleted? = none := hfits
        have hlt := h.committed_lt hr hplace htold
        have hnot : ¬ (isDurableRecord record = true ∧ r.lsn < record.lsn) := by omega
        simp [entryAfter, HotEntry.delete, hnot]
      | none =>
        cases deleted? with
        | none => simp [entryAfter, HotEntry.delete]
        | some lsn =>
          obtain ⟨-, ⟨other, hother, hplace', rfl⟩, -⟩ := hfits
          have hlt := hbelow other hother hplace'
          have hmax : max other.lsn r.lsn = r.lsn := by omega
          simp [entryAfter, HotEntry.delete, hmax]
    rw [hdeleted]
    refine ⟨hcommitted, ⟨r, by simp, hplace, rfl⟩, fun other hother hplace' => ?_⟩
    rcases mem_append.mp hother with hother | hother
    · exact Nat.le_of_lt (hbelow other hother hplace')
    · rw [mem_singleton.mp hother]

omit h in
theorem fits_push (hplace : place ∉ recordPlaces r)
    (hfits : EntryFits base cached applied windowed place entry) :
    EntryFits base (cached ++ [r]) applied windowed place entry := by
  have hcommitted : committedRecord (base ++ (cached ++ [r])) place = committedRecord (base ++ cached) place := by
    rw [← append_assoc, committedRecord_concat, placeTells_eq_none.mpr hplace, Option.getD_none]
  have hall : ∀ {p : WalRecord → Prop}, (∀ other ∈ cached, place ∈ recordPlaces other → p other) →
      ∀ other ∈ cached ++ [r], place ∈ recordPlaces other → p other := by
    intro p hp other hother hmem
    rcases mem_append.mp hother with hother | hother
    · exact hp other hother hmem
    · exact absurd (mem_singleton.mp hother ▸ hmem) hplace
  obtain ⟨record?, deleted?⟩ := entry
  cases record? with
  | some record => exact ⟨hcommitted.trans hfits.1, hfits.2⟩
  | none =>
    cases deleted? with
    | some lsn =>
      obtain ⟨hnone, ⟨other, hother, hlsn⟩, hle⟩ := hfits
      exact ⟨hcommitted.trans hnone, ⟨other, mem_append_left _ hother, hlsn⟩, hall hle⟩
    | none =>
      cases windowed with
      | true => exact hall hfits
      | false => exact hcommitted.trans hfits

theorem hotTold_fits (hr : Uncached s r) (hnews : r ∈ news) :
    HotFits base (cached ++ [r]) applied (hotTold s.hot r) := by
  intro place entry hentry
  rw [isWindowedTable_hotTold]
  by_cases hplace : place ∈ recordPlaces r
  · obtain ⟨mutation, hmem, rfl⟩ := mem_map.mp hplace
    have hone := h.replay.once hnews
    rw [entry_hotTold s.hot hone hmem] at hentry
    obtain ⟨before, hbefore, rfl⟩ := Option.map_eq_some_iff.mp hentry
    refine h.fits_told hr hone hmem (fun record hleaves => ?_) (h.fits _ before hbefore)
    obtain ⟨nowMs, -, haccepted⟩ := h.replay.accepted r hnews
    obtain ⟨kept, hkept⟩ := haccepted.changes
    refine isDurableRecord_of_located (located_of_changes hkept hmem) (mutationLeaves_path hleaves) ?_
    rw [lsn_of_mutationLeaves hleaves]
    exact (h.replay.writers.bounded r (h.replay.mem_wal hnews)).1
  · rw [entry_hotTold_of_notMem s.hot hplace] at hentry
    exact fits_push hplace (h.fits place entry hentry)

/-- The hot cache is told of a record. -/
theorem cache (hwriter : s.writers[i]? = some writer) (hphase : writer.phase = .logged r)
    {job : RecordProjectionJob} (hreplay : ProjectionReplay.Inv lib schema base start news applied
    queued { s.setPhase i writer (.cached r job) with hot := hotAfter s.hot r })
    (hmeets : KeepsHot s (.cache i)) :
    Inv lib schema base start news applied queued (cached ++ [r])
    { s.setPhase i writer (.cached r job) with hot := hotAfter s.hot r } := by
  have hr : Uncached s r := ⟨writer, mem_of_getElem? hwriter, by rw [uncached?, hphase]⟩
  have hnews : r ∈ news := (h.news r).mpr (.inr hr)
  obtain ⟨horder, hleave⟩ := hmeets writer r hwriter hphase
  have huncached : ∀ r', Uncached { s.setPhase i writer (.cached r job) with hot := hotAfter s.hot r } r' ↔
      Uncached s r' ∧ r' ≠ r := fun r' => uncached_cached h.replay.writers hwriter hphase rfl r'
  have hwal : ∀ r', Uncached s r' → r' ∈ s.wal := fun r' hr' => h.replay.mem_wal ((h.news r').mpr (.inr hr'))
  refine ⟨hreplay, h.started, fun r' => ?_, fun r' hr' => mem_append_left _ (h.told r' hr'), ?_, ?_,
    fun place => ?_, ?_⟩
  · rw [h.news, huncached, mem_append, mem_singleton]
    by_cases heq : r' = r
    · simp [heq, hr]
    · simp [heq]
  · refine forall_mem_set (fun w hw r' job' hw' => mem_append_left _ (h.held w hw r' job' hw')) fun r' job' hr' => ?_
    obtain ⟨rfl, -⟩ := WriterPhase.cached.inj hr'
    simp
  · intro r' hr' later hlater place hplace hplace'
    obtain ⟨hlater, hne⟩ := (huncached later).mp hlater
    rcases mem_append.mp hr' with hr' | hr'
    · exact h.behind r' hr' later hlater place hplace hplace'
    · rw [mem_singleton.mp hr'] at hplace ⊢
      have hnot : ¬ later.lsn < r.lsn := fun hlt => horder later hlater hlt place hplace hplace'
      have hlsn : later.lsn ≠ r.lsn := fun heq =>
        hne (ObjectRefIndex.eq_of_ascending h.replay.writers.ascending (hwal later hlater) (hwal r hr) heq)
      omega
  · exact ProjectionReplay.ordered_push (h.ordered place) fun a ha => h.behind a ha r hr place
  · exact (h.hotTold_fits hr hnews).fades (fades_hotAfter s.hot r) fun place _ hforgotten hnot => by
      obtain ⟨hmem, hgone | ⟨hwindowed, happlied⟩⟩ := hleave place hforgotten
      · rw [Forgotten, entry_hotTold_of_notMem s.hot hmem] at hnot
        exact absurd hgone hnot
      · refine ⟨(isWindowedTable_hotTold ..).trans hwindowed, fun other hother hplace => ?_⟩
        rcases mem_append.mp hother with hother | hother
        · exact h.applied_of happlied other hother hplace
        · exact absurd (mem_singleton.mp hother ▸ hplace) hmem

/-- The job of a record is queued. -/
theorem enqueue (hwriter : s.writers[i]? = some writer) {job : RecordProjectionJob}
    (hphase : writer.phase = .cached r job)
    (hreplay : ProjectionReplay.Inv lib schema base start news applied
    (queued ++ [r]) { s.setPhase i writer (.committed r) with queue := s.queue ++ [job] }) :
    Inv lib schema base start
    news applied (queued ++ [r]) cached { s.setPhase i writer (.committed r) with queue := s.queue ++ [job] } := by
  have huncached : ∀ r', Uncached { s.setPhase i writer (.committed r) with queue := s.queue ++ [job] } r' ↔
      Uncached s r' := fun r' => uncached_setPhase hwriter (by simp [uncached?, hphase])
  refine ⟨hreplay, h.started, fun r' => by rw [h.news, huncached], fun r' hr' => ?_, h.held_setPhase (by simp),
    fun r' hr' later hlater => h.behind r' hr' later ((huncached later).mp hlater), h.ordered, h.fits⟩
  rw [← append_assoc] at hr'
  rcases mem_append.mp hr' with hr' | hr'
  · exact h.told r' hr'
  · exact mem_singleton.mp hr' ▸ h.held writer (mem_of_getElem? hwriter) r job hphase

omit h in
theorem fits_applied (hfits : EntryFits base cached applied windowed place entry) :
    EntryFits base cached (applied ++ [r]) windowed place entry := by
  obtain ⟨record?, deleted?⟩ := entry
  cases record? with
  | some record => exact hfits
  | none =>
    cases deleted? with
    | some lsn => exact hfits
    | none =>
      cases windowed with
      | true => exact fun other hother hplace => mem_append_left _ (hfits other hother hplace)
      | false => exact hfits

/-- A deletion is cleared when its job, and with it all that the hot cache was told of the key, is
applied. -/
theorem fits_cleared {rest : List WalRecord} (hqueued : queued = r :: rest)
    (hplace : place ∈ recordPlaces r)
    (hfits : EntryFits base cached applied windowed place entry) :
    EntryFits base cached (applied ++ [r]) windowed place
    (entry.1, entry.2.filter fun deleted => !decide (deleted ≤ r.lsn)) := by
  obtain ⟨record?, deleted?⟩ := entry
  cases record? with
  | some record =>
    obtain ⟨htold, rfl⟩ : _ ∧ deleted? = none := hfits
    exact ⟨htold, rfl⟩
  | none =>
    cases deleted? with
    | none =>
      show EntryFits base cached (applied ++ [r]) windowed place (none, none)
      exact fits_applied hfits
    | some lsn =>
      show EntryFits base cached (applied ++ [r]) windowed place (none,
        (some lsn).filter fun deleted => !decide (deleted ≤ r.lsn))
      rw [Option.filter_some]
      by_cases hle : lsn ≤ r.lsn
      · obtain ⟨hnone, -, hall⟩ := hfits
        rw [if_neg (by simpa using hle)]
        cases windowed with
        | false => exact hnone
        | true =>
          intro other hother hmem
          have hother_le : other.lsn ≤ r.lsn := Nat.le_trans (hall other hother hmem) hle
          rcases (h.replay.news other).mp ((h.news other).mpr (.inl hother)) with hknown | hpending
          · rw [hqueued] at hknown
            rcases mem_append.mp hknown with happlied | hrest
            · exact mem_append_left _ happlied
            · rcases mem_cons.mp hrest with rfl | hrest
              · simp
              · -- a record that is queued later would be of a higher LSN
                have hordered := h.replay.ordered place
                rw [hqueued, filter_append, filter_cons_of_pos (by simpa using hplace)] at hordered
                have hlt :=
                  rel_of_pairwise_cons (pairwise_append.mp hordered).2.1 (mem_filter.mpr ⟨hrest, by simpa using hmem⟩)
                omega
          · have hr : r ∈ applied ++ queued := by simp [hqueued]
            have hlt := h.replay.behind r hr other hpending place hplace hmem
            omega
      · rw [if_pos (by simpa using hle)]
        exact hfits

omit h in
theorem entry_cleared (hot : RecordHotState) (mutations : List RecordProjectionMutation)
    (lsn : Nat) (place : String × String) : (mutations.foldl (clearDeleted lsn) hot).entry place =
    if ∃ mutation ∈ mutations, deletesAt place mutation =
    true then (hot.entry place).map fun entry =>
    (entry.1, entry.2.filter fun deleted => !decide (deleted ≤ lsn)) else hot.entry place := by
  refine hot.entry_foldl place (fun entry => ?_) (deletesAt place · = true) fun hot mutation _ => ?_
  · rw [Option.filter_filter]
    simp
  · cases mutation with
    | upsert record indexes order => rfl
    | delete table key =>
      rw [clearDeleted, RecordHotState.entry_clearDurableDeleteTombstone]
      by_cases hplace : place = (table, key)
      · rw [if_pos hplace, if_pos (by simpa [deletesAt] using hplace)]
      · rw [if_neg hplace, if_neg (by simpa [deletesAt] using hplace)]

omit h in
theorem isWindowedTable_cleared (hot : RecordHotState) (mutations : List RecordProjectionMutation)
    (lsn : Nat)
    (table : String) : (mutations.foldl (clearDeleted lsn) hot).isWindowedTable table =
    hot.isWindowedTable table := by
  refine hot.isWindowedTable_foldl (fun hot mutation => ?_) mutations
  cases mutation with
  | upsert record indexes order => rfl
  | delete table' key => exact hot.isWindowedTable_getMut table' table _ fun _ _ => rfl

/-- A job of the queue is applied. -/
theorem apply {job : RecordProjectionJob} {queue : List RecordProjectionJob}
    (hqueue : s.queue = job :: queue) {rest : List WalRecord} (hqueued : queued = r :: rest)
    (hreplay : ProjectionReplay.Inv lib schema base start news (applied ++ [r]) rest ({ s with queue }.work lib job)) :
    Inv lib schema base start news (applied ++ [r]) rest cached ({ s with queue }.work lib job) := by
  obtain ⟨-, hwriters, -⟩ := @work_fields lib { s with queue } job
  have huncached : ∀ r', Uncached ({ s with queue }.work lib job) r' ↔ Uncached s r' := fun r' => by
    unfold Uncached
    rw [hwriters]
  have hforall := h.replay.queue
  rw [hqueue, hqueued] at hforall
  have hjob : projectionJob schema r = .ok job := (forall₂_cons.mp hforall).1
  refine ⟨hreplay, h.started, fun r' => by rw [h.news, huncached], fun r' hr' => h.told r' ?_, by rw [hwriters]; exact
    h.held, fun r' hr' later hlater => h.behind r' hr' later ((huncached later).mp hlater), h.ordered, ?_⟩
  · rw [hqueued]
    simpa [or_assoc] using hr'
  · have hhot : ({ s with queue }.work lib job).hot = s.hot ∨
        ({ s with queue }.work lib job).hot = job.mutations.foldl (clearDeleted job.lsn) s.hot := by
      unfold WriteState.work
      split
      · exact .inr rfl
      · exact .inl rfl
    rcases hhot with hsame | hcleared
    · rw [hsame]
      exact fun place entry hentry => fits_applied (h.fits place entry hentry)
    · rw [hcleared]
      intro place entry hentry
      rw [isWindowedTable_cleared]
      rw [entry_cleared] at hentry
      split at hentry
      · next hdelete =>
        obtain ⟨mutation, hmem, hat⟩ := hdelete
        obtain ⟨before, hbefore, rfl⟩ := Option.map_eq_some_iff.mp hentry
        have hplace : place ∈ recordPlaces r := by
          rw [projectionJob_mutations hjob] at hmem
          rcases mem_append.mp hmem with hmem | hmem
          · obtain ⟨draft, hdraft, rfl⟩ := mem_map.mp hmem
            exact mem_map.mpr ⟨_, mem_deleteDrafts.mp hdraft, (of_decide_eq_true hat).symm⟩
          · obtain ⟨draft, -, rfl⟩ := mem_map.mp hmem
            cases hat
        rw [projectionJob_lsn hjob]
        exact h.fits_cleared hqueued hplace (h.fits place before hbefore)
      · exact fits_applied (h.fits place entry hentry)

/-- Records leave the cache. -/
theorem leave (hwriters : Writers schema s) {leave : String → Prop} (hfades : s.hot.Fades leave hot)
    (hmeets : MayLeave s [] hot) :
    Inv lib schema base start news applied queued cached { s with hot } := by
  refine h.of_same (h.replay.of_same (hwriters.of_same rfl rfl) rfl rfl rfl fun _ => Iff.rfl)
    (fun _ => Iff.rfl) h.held ?_
  refine h.fits.fades hfades fun place _ hforgotten hnot => ?_
  obtain ⟨-, hgone | ⟨hwindowed, happlied⟩⟩ := hmeets place hforgotten
  · exact absurd hgone hnot
  · exact ⟨hwindowed, h.applied_of happlied⟩

omit h in
/-- A row that is what was last committed is put in the cache. -/
theorem fits_hydrated {row : DbRecord}
    (hrow : committedRecord (base ++ cached) (row.table, row.key) = some row)
    (hfits : HotFits base cached applied hot) :
    HotFits base cached applied (hot.hydrateDurable row false) := by
  intro place entry hentry
  rw [RecordHotState.isWindowedTable_hydrateDurable]
  rcases hot.entry_hydrateDurable place row with hsame | ⟨rfl, hdurable, hput⟩
  · exact hfits place entry (hsame ▸ hentry)
  · rw [hput] at hentry
    obtain ⟨before, hbefore, rfl⟩ := Option.map_eq_some_iff.mp hentry
    obtain ⟨record?, deleted?⟩ := before
    have hold := hfits _ _ hbefore
    refine ⟨hrow, ?_⟩
    rw [if_pos hdurable]
    cases record? with
    | some record =>
      obtain ⟨-, rfl⟩ : _ ∧ deleted? = none := hold
      rfl
    | none =>
      cases deleted? with
      | none => rfl
      | some lsn => cases hrow.symm.trans hold.1

/-- Rows of the projection are put in the cache. -/
theorem hydrate {rows : List DbRecord} {j : Nat} (hreader : s.readers[j]? = some rows)
    (hmeets : KeepsHot s (.hydrate j)) : Inv lib schema base start news applied queued cached
    { s with hot := s.hot.hydrateDurableMany rows, readers := s.readers.set j [] } := by
  obtain ⟨hleave, hcommitted⟩ := hmeets rows hreader
  refine h.of_same (h.replay.of_same (h.replay.writers.of_same rfl rfl) rfl rfl rfl fun _ => Iff.rfl) (fun _ => Iff.rfl)
    h.held ?_
  have hall : ∀ {rows' : List DbRecord}, (∀ row ∈ rows', row ∈ rows) →
      HotFits base cached applied (rows'.foldl (fun hot row => hot.hydrateDurable row false) s.hot) ∧
        ∀ place, ((rows'.foldl (fun hot row => hot.hydrateDurable row false) s.hot).entry place).isSome =
          (s.hot.entry place).isSome := by
    intro rows' hsub
    induction rows' using reverseRecOn with
    | nil => exact ⟨h.fits, fun _ => rfl⟩
    | append_singleton rows' row ih =>
      obtain ⟨hfits, hsome⟩ := ih fun row' hrow' => hsub row' (mem_append_left _ hrow')
      rw [foldl_append, foldl_cons, foldl_nil]
      refine ⟨?_, fun place => ?_⟩
      · cases hentry : s.hot.entry (row.table, row.key) with
        | some entry =>
          obtain ⟨hlast, hnone⟩ := hcommitted row (hsub row (by simp)) (by rw [hentry]; rfl)
          rw [h.committed_of_told hnone] at hlast
          exact fits_hydrated hlast hfits
        | none =>
          refine hfits.of_same (fun place => ?_) fun table => RecordHotState.isWindowedTable_hydrateDurable _ row table
          rcases RecordHotState.entry_hydrateDurable _ place row with hsame | ⟨rfl, -, hput⟩
          · exact hsame
          · have hempty := hsome (row.table, row.key)
            rw [hentry, Option.isSome_none, Option.isSome_eq_false_iff, Option.isNone_iff_eq_none] at hempty
            rw [hput, hempty, Option.map_none]
      · rw [← hsome]
        rcases RecordHotState.entry_hydrateDurable _ place row with hsame | ⟨-, -, hput⟩
        · rw [hsame]
        · rw [hput, Option.isSome_map]
  refine (hall fun row hrow => hrow).1.fades
    (s.hot.fades_hydrateDurableMany rows) fun place hwindowed hforgotten hnot => ?_
  have hsame : (rows.foldl (fun hot row => hot.hydrateDurable row false) s.hot).isWindowedTable place.1 =
      s.hot.isWindowedTable place.1 :=
    s.hot.isWindowedTable_foldl (fun hot row => hot.isWindowedTable_hydrateDurable row place.1) rows
  refine ⟨hsame.trans hwindowed, ?_⟩
  obtain ⟨-, hgone | ⟨-, happlied⟩⟩ := hleave place hforgotten
  · have hfits := h.fits place (none, none) hgone
    rw [hwindowed] at hfits
    exact hfits
  · exact h.applied_of happlied

theorem step (hlib : lib.Lawful) (hshape : (shapeOf schema).Named)
    {e : WriteEvent} (hmeets : Coherent lib schema s e)
    (hstep : WriteStep lib checks schema s e t) :
    ∃ news applied queued cached, Inv lib schema base start news applied queued cached t := by
  obtain ⟨horder, hkeeps⟩ := hmeets
  have hwriters := h.replay.writers.step hstep
  have hpending : ∀ {w : Writer} {phase : WriterPhase}, w.phase = phase → pending? { w with phase } = pending? w := by
    rintro w phase rfl
    rfl
  cases hstep with
  | @receive transaction requests nowMs hsingle hnow =>
    refine ⟨news, applied, queued, cached,
      h.of_same (h.replay.of_same hwriters rfl rfl rfl fun r => ?_) (fun r => ?_) ?_ h.fits⟩
    · simp [Pending, or_and_right, exists_or, pending?]
    · simp [Uncached, or_and_right, exists_or, uncached?]
    · intro w hw r job hphase
      rcases mem_append.mp hw with hw | hw
      · exact h.held w hw r job hphase
      · rw [mem_singleton.mp hw] at hphase
        cases hphase
  | @read _ _ _ hwriter hphase | @validate _ _ _ _ hwriter hphase =>
    exact ⟨news, applied, queued, cached, h.of_same (h.replay.of_same hwriters rfl rfl rfl fun r =>
      ProjectionReplay.pending_setPhase hwriter (by simp [pending?, hphase]))
      (fun r => uncached_setPhase hwriter (by simp [uncached?, hphase])) (h.held_setPhase (by simp)) h.fits⟩
  | @append i writer operations readAt checkedAt r hwriter hphase hpayload hpos hlsn habove =>
    have hok := h.replay.writers.ok writer (mem_of_getElem? hwriter)
    have hoperations : recordMutations r.payload = operations := by rw [hpayload, recordMutations_commitPayload]
    have hreplay := h.replay.append hwriter (by simp [pending?, hphase]) habove hwriters hok.nowMs
      (hoperations ▸ hok.checked _ _ _ hphase) horder
    exact ⟨news ++ [r], applied, queued, cached, h.append hwriter (by simp [uncached?, hphase]) habove hreplay⟩
  | @cache i writer r job hwriter hphase hjob =>
    have hsame : ∀ r', Pending (s.setPhase i writer (.cached r job)) r' ↔ Pending s r' := fun r' =>
      ProjectionReplay.pending_setPhase hwriter (by simp [pending?, hphase])
    have hreplay := @ProjectionReplay.Inv.of_same _ _ _
      { s.setPhase i writer (.cached r job) with hot := hotAfter s.hot r } _ _ _ _ _ h.replay hwriters rfl rfl rfl hsame
    exact ⟨news, applied, queued, cached ++ [r], h.cache hwriter hphase hreplay hkeeps⟩
  | @enqueue i writer r job hwriter hphase =>
    exact ⟨news, applied, queued ++ [r], cached,
      h.enqueue hwriter hphase (h.replay.enqueue hwriter hphase hwriters horder)⟩
  | @answer i writer hwriter hphase =>
    refine ⟨news, applied, queued, cached,
      h.of_same (h.replay.of_same hwriters rfl rfl rfl fun r => ProjectionReplay.pending_setPhase hwriter ?_)
        (fun r => uncached_setPhase hwriter ?_) (h.held_setPhase (by simp)) h.fits⟩
    · cases hpend : pending? writer with
      | none => rfl
      | some r' => cases hphase.symm.trans (ProjectionReplay.record_of_pending hpend)
    · cases huncached : uncached? writer with
      | none => rfl
      | some r' => cases hphase.symm.trans (record_of_uncached huncached)
  | failLookup | fail => exact horder.elim
  | @apply job queue hqueue =>
    obtain ⟨r, rest, hqueued, hreplay⟩ := h.replay.apply hlib hshape hqueue horder
    exact ⟨news, applied ++ [r], rest, cached, h.apply hqueue hqueued hreplay⟩
  | fetch hrows =>
    exact ⟨news, applied, queued, cached,
      h.of_same (h.replay.of_same hwriters rfl rfl rfl fun _ => Iff.rfl) (fun _ => Iff.rfl) h.held h.fits⟩
  | hydrate hreader => exact ⟨news, applied, queued, cached, h.hydrate hreader hkeeps⟩
  | touch table key =>
    exact ⟨news, applied, queued, cached, h.of_same (h.replay.of_same hwriters rfl rfl rfl fun _ => Iff.rfl)
      (fun _ => Iff.rfl) h.held (h.fits.of_same (fun place => s.hot.entry_touch place table key)
        fun table' => s.hot.isWindowedTable_touch table key table')⟩
  | evict table key hwindowed =>
    exact ⟨news, applied, queued, cached, h.leave h.replay.writers (s.hot.fades_evict table key) hkeeps⟩
  | evictIdle idle =>
    exact ⟨news, applied, queued, cached, h.leave h.replay.writers (s.hot.fades_evictIdle idle) hkeeps⟩

end Inv

/-! ## What is read -/

/-- The projection has what was last committed, and the hot cache has it too, or is windowed. -/
structure Warm (lib : ProjectionLibraries) (schema : DatabaseSchema) (s : WriteState)
    (start : CurrentRecords) : Prop
    extends Projected lib schema s start where
  committed : ∀ place, rows start place = committedRecord s.wal place
  hot : ∀ place entry, s.hot.entry place = some entry →
    entry = (committedRecord s.wal place, none) ∨ s.hot.isWindowedTable place.1 = true ∧ entry = (none, none)

/-- No write is in flight. -/
def NoneInFlight (s : WriteState) : Prop := ∀ writer ∈ s.writers, pending? writer = none

theorem Warm.inv (hs : Warm lib schema s start) : Inv lib schema s.wal start [] [] [] [] s where
  replay := hs.toProjected.inv
  started := hs.committed
  news := by simp [Uncached, hs.writers]
  told := by simp
  held := by simp [hs.writers]
  behind := by simp
  ordered := by simp
  fits := by
    intro place entry hentry
    rcases hs.hot place entry hentry with rfl | ⟨hwindowed, rfl⟩
    · cases hcommitted : committedRecord s.wal place with
      | some record => exact ⟨by rw [append_nil, hcommitted], rfl⟩
      | none =>
        show if s.hot.isWindowedTable place.1 then _ else _
        split
        · simp
        · rw [append_nil, hcommitted]
    · show if s.hot.isWindowedTable place.1 then _ else _
      rw [if_pos hwindowed]
      simp

/-- A read of what the invariant describes. -/
theorem Inv.read (hlib : lib.Lawful) (h : Inv lib schema base start news applied queued cached s)
    {table key : String} (htable : NulFree table) (hkey : NulFree key)
    (hhot : (s.hot.tables[table]?).isSome)
    (hnone : ∀ r, Uncached s r → (table, key) ∉ recordPlaces r) :
    ∃ hot, getRecordFromLiveOrDisk lib s table key =
    .ok (committedRecord s.wal (table, key), hot) := by
  obtain ⟨state, hstate⟩ := Option.isSome_iff_exists.mp hhot
  have hentry : s.hot.entry (table, key) = some (state.records[key]?, state.durableDeleteTombstones[key]?) := by
    simp [RecordHotState.entry, hstate, HotTable.entry]
  have hget : s.hot.get table key = some state.records[key]? := by simp [RecordHotState.get, hstate]
  have hdeleted : s.hot.durableDeleteLsn table key = some state.durableDeleteTombstones[key]? := by
    simp [RecordHotState.durableDeleteLsn, hstate]
  have hfits := h.fits _ _ hentry
  rw [h.committed_of_told hnone]
  unfold getRecordFromLiveOrDisk
  rw [hget, hdeleted]
  cases hrecord : state.records[key]? with
  | some record =>
    rw [hrecord] at hfits
    exact ⟨_, by rw [hfits.1]⟩
  | none =>
    cases htombstone : state.durableDeleteTombstones[key]? with
    | some lsn =>
      rw [hrecord, htombstone] at hfits
      exact ⟨_, by rw [hfits.1]; rfl⟩
    | none =>
      rw [hrecord, htombstone] at hfits
      replace hfits : if s.hot.isWindowedTable table then _ else _ := hfits
      by_cases hwindowed : s.hot.isWindowedTable table = true
      · rw [if_pos hwindowed] at hfits
        refine ⟨s.hot.hydrateDurableMany (committedRecord (base ++ cached) (table, key)).toList, ?_⟩
        simp only [Option.join_some, Option.isSome_none, Bool.false_eq_true, if_false, if_pos hwindowed]
        rw [h.replay.agrees.getRecord_eq hlib htable hkey, h.committed_of_applied hfits]
        rfl
      · rw [if_neg hwindowed] at hfits
        refine ⟨s.hot, ?_⟩
        simp only [Option.join_some, Option.isSome_none, Bool.false_eq_true, if_false, if_neg hwindowed]
        rw [hfits]

/-- A read of a hot table returns what was last committed. -/
theorem read_committed (hlib : lib.Lawful) (hshape : (shapeOf schema).Named)
    (hs : Warm lib schema s start)
    (hrun : Reaches (WriteStep lib checks schema) (Coherent lib schema) s t)
    (hidle : NoneInFlight t)
    {table key : String} (htable : NulFree table) (hkey : NulFree key)
    (hhot : (t.hot.tables[table]?).isSome) :
    ∃ hot, getRecordFromLiveOrDisk lib t table key =
    .ok (committedRecord t.wal (table, key), hot) := by
  obtain ⟨news, applied, queued, cached, h⟩ := hrun.invariant (I := fun u => ∃ news applied queued cached,
    Inv lib schema s.wal start news applied queued cached u) (fun _ _ _ hI hmeets hstep => by
      obtain ⟨_, _, _, _, hI⟩ := hI
      exact hI.step hlib hshape hmeets hstep)
    ⟨[], [], [], [], hs.inv⟩
  refine h.read hlib htable hkey hhot fun r huncached => ?_
  obtain ⟨writer, hwriter, hr⟩ := huncached
  have hpending := hidle writer hwriter
  unfold uncached? at hr
  unfold pending? at hpending
  split at hr <;> simp_all

section Sample

open ProjectionReplay

/-- The table of the notes, without a note. -/
def notesHot (maxItems : Option Nat) (accessSeq : Nat) : RecordHotState :=
  ⟨(∅ : BTreeMap String HotTable).insert "notes" ⟨maxItems, ∅, ∅, ∅⟩, accessSeq⟩

/-- The table with the note of an LSN. -/
def holding (maxItems : Option Nat) (lsn accessSeq : Nat) : RecordHotState :=
  let records := (∅ : BTreeMap String DbRecord).insert "a" (noteDraft.intoRecord lsn)
  ⟨(∅ : BTreeMap String HotTable).insert "notes"
    ⟨maxItems, records, ∅, (∅ : BTreeMap String Nat).insert "a" accessSeq⟩, accessSeq⟩

variable {maxItems : Option Nat} {accessSeq lsn : Nat}

theorem forgotten_notesHot : Forgotten (notesHot maxItems accessSeq) place ↔ place.1 = "notes" := by
  simp only [Forgotten, RecordHotState.entry, notesHot, ExtTreeMap.getElem?_insert, ExtTreeMap.getElem?_empty,
    Std.compare_eq_iff_eq]
  split
  · next htable => simp [HotTable.entry, ← htable]
  · next htable => simpa [eq_comm] using htable

theorem forgotten_holding : Forgotten (holding maxItems lsn accessSeq) place ↔
    place.1 = "notes" ∧ place.2 ≠ "a" := by
  simp only [Forgotten, RecordHotState.entry, holding, ExtTreeMap.getElem?_insert, ExtTreeMap.getElem?_empty,
    Std.compare_eq_iff_eq]
  split
  · next htable => by_cases hkey : "a" = place.2 <;> simp [HotTable.entry, ← htable, hkey, Ne.symm]
  · next htable => simpa using fun h => absurd h.symm htable

theorem notes_warm :
    Warm notesLibrary notesSchema (writing [] (notesHot maxItems 0) [] []) (fun _ => ∅) where
  ascending := .nil
  bounded := by simp [writing]
  logged := fun _ h => nomatch h
  queue := rfl
  writers := rfl
  readers := rfl
  areCurrent := by
    intro place record
    simp [rows, recordsByPath, writing]
  agrees := agrees_empty
  committed := by
    intro place
    simp [rows, writing, committedRecord, LastWord.read]
  hot := by
    intro place entry hentry
    obtain ⟨state, hstate, rfl⟩ := Option.map_eq_some_iff.mp hentry
    replace hstate : ((∅ : BTreeMap String HotTable).insert "notes"
      ⟨maxItems, ∅, ∅, ∅⟩)[place.1]? = some state := hstate
    rw [ExtTreeMap.getElem?_insert, ExtTreeMap.getElem?_empty] at hstate
    split at hstate
    · obtain rfl := Option.some.inj hstate
      exact .inl (by simp [HotTable.entry, writing, committedRecord, LastWord.read])
    · cases hstate

/-- Two writers have queued their jobs, and the table has what it has. -/
def bothWritten (hot : RecordHotState) : WriteState :=
  writing [noteRecord 1, noteRecord 2] hot [noteJob 1, noteJob 2] [.committed (noteRecord 1), .committed (noteRecord 2)]

/-- The records after the jobs of the two. -/
def firstApplied : RecordProjectionKv :=
  (Fallible.exec (applyOperations notesLibrary (noteJob 1).mutations) .empty).2

def bothApplied : RecordProjectionKv :=
  (Fallible.exec (applyOperations notesLibrary (noteJob 2).mutations) firstApplied).2

theorem committed_notes :
    committedRecord [noteRecord 1, noteRecord 2] ("notes", "a") = some (noteDraft.intoRecord 2) :=
  rfl

section Windowed

abbrev Windowed (t : WriteState) : Prop :=
  NoteSteps (Coherent notesLibrary notesSchema) (writing [] (notesHot (some 1) 0) [] []) t

theorem windowed_writer (s : WriteState) (e : WriteEvent) (he : ofWriter e = true)
    (h : InOrder notesLibrary notesSchema s e) :
    Coherent notesLibrary notesSchema s e := by
  refine ⟨h, ?_⟩
  cases e <;> trivial

theorem may_cache {s : WriteState}
    (hhot : s.hot = notesHot (some 1) 0 ∨ s.hot = holding (some 1) 1 1) (r : WalRecord)
    (hplaces : recordPlaces r = [("notes", "a")]) :
    MayLeave s (recordPlaces r) (holding (some 1) lsn accessSeq) := by
  intro place hforgotten
  obtain ⟨htable, hkey⟩ := forgotten_holding.mp hforgotten
  refine ⟨fun hmem => hkey ?_, .inl ?_⟩
  · rw [hplaces, mem_singleton] at hmem
    rw [hmem]
  · rcases hhot with hhot | hhot <;> rw [hhot]
    · exact forgotten_notesHot.mpr htable
    · exact forgotten_holding.mpr ⟨htable, hkey⟩

theorem both_written : Windowed (bothWritten (holding (some 1) 2 2)) := by
  have hfirst : hotAfter (notesHot (some 1) 0) (noteRecord 1) = holding (some 1) 1 1 := by with_unfolding_all rfl
  have hsecond : hotAfter (holding (some 1) 1 1) (noteRecord 2) = holding (some 1) 2 2 := by with_unfolding_all rfl
  have h₁ : Windowed (writing [noteRecord 1, noteRecord 2] (notesHot (some 1) 0) []
      [.logged (noteRecord 1), .logged (noteRecord 2)]) := both_logged windowed_writer (by decide +kernel)
  have h₂ : Windowed (writing [noteRecord 1, noteRecord 2] (hotAfter (notesHot (some 1) 0) (noteRecord 1)) []
      [.cached (noteRecord 1) (noteJob 1), .logged (noteRecord 2)]) := by
    refine h₁.take (e := .cache 0)
      (@WriteStep.cache _ _ _ _ 0 (noteWriter (.logged (noteRecord 1))) _ (noteJob 1) rfl rfl rfl) ⟨trivial, ?_⟩
    rintro writer r hwriter hphase
    obtain rfl := Option.some.inj hwriter
    obtain rfl := WriterPhase.logged.inj hphase
    refine ⟨?_, hfirst ▸ may_cache (.inl rfl) (noteRecord 1) rfl⟩
    rintro earlier ⟨other, hother, hearlier⟩ hlt
    rcases mem_pair.mp hother with rfl | rfl <;> obtain rfl := Option.some.inj hearlier <;> exact absurd hlt (by decide)
  rw [hfirst] at h₂
  have h₃ : Windowed (writing [noteRecord 1, noteRecord 2] (hotAfter (holding (some 1) 1 1) (noteRecord 2)) []
      [.cached (noteRecord 1) (noteJob 1), .cached (noteRecord 2) (noteJob 2)]) := by
    refine h₂.take (e := .cache 1)
      (@WriteStep.cache _ _ _ _ 1 (noteWriter (.logged (noteRecord 2))) _ (noteJob 2) rfl rfl rfl) ⟨trivial, ?_⟩
    rintro writer r hwriter hphase
    obtain rfl := Option.some.inj hwriter
    obtain rfl := WriterPhase.logged.inj hphase
    refine ⟨?_, hsecond ▸ may_cache (.inr rfl) (noteRecord 2) rfl⟩
    rintro earlier ⟨other, hother, hearlier⟩ hlt
    rcases mem_pair.mp hother with rfl | rfl
    · cases hearlier
    · obtain rfl := Option.some.inj hearlier
      exact absurd hlt (by decide)
  rw [hsecond] at h₃
  exact both_queued windowed_writer h₃

def bothDone (hot : RecordHotState) (readers : List (List DbRecord)) : WriteState :=
  { bothWritten hot with queue := [], records := bothApplied, readers }

theorem both_applied : Windowed (bothDone (holding (some 1) 2 2) []) := by
  have happlies : ∀ {s : WriteState} {lsn}, s.queue.head? = some (noteJob lsn) →
      Coherent notesLibrary notesSchema s .apply := by
    intro s lsn hqueue
    refine ⟨fun job hjob current _ => ?_, trivial⟩
    rw [hqueue] at hjob
    obtain rfl := Option.some.inj hjob
    exact note_undisputed current
  let queued (queue : List RecordProjectionJob) (records : RecordProjectionKv) : WriteState :=
    { bothWritten (holding (some 1) 2 2) with queue, records }
  have hfirst : (queued [noteJob 2] .empty).work notesLibrary (noteJob 1) = queued [noteJob 2] firstApplied := by
    with_unfolding_all rfl
  have hsecond : (queued [] firstApplied).work notesLibrary (noteJob 2) = queued [] bothApplied := by
    with_unfolding_all rfl
  have h₁ : Windowed ((queued [noteJob 2] .empty).work notesLibrary (noteJob 1)) :=
    both_written.take (e := .apply) (.apply rfl) (happlies rfl)
  rw [hfirst] at h₁
  have h₂ : Windowed ((queued [] firstApplied).work notesLibrary (noteJob 2)) :=
    h₁.take (e := .apply) (.apply rfl) (happlies rfl)
  rwa [hsecond] at h₂

/-- Once the jobs are applied, every note may leave. -/
theorem may_leave {s : WriteState} {hot : RecordHotState} (hqueue : s.queue = [])
    (hidle : NoneInFlight s)
    (hwindowed : s.hot.isWindowedTable "notes" = true)
    (hhot : ∀ place, Forgotten hot place → place.1 = "notes") :
    MayLeave s [] hot := by
  refine fun place hforgotten => ⟨not_mem_nil, .inr ⟨by rwa [hhot place hforgotten], ?_⟩⟩
  rintro ⟨r, -, -, ⟨job, hjob, -⟩ | ⟨writer, hwriter, job, hphase⟩⟩
  · rw [hqueue] at hjob
    cases hjob
  · have hnone := hidle writer hwriter
    rw [ProjectionReplay.pending?, hphase] at hnone
    cases hnone

theorem applied_idle (hot : RecordHotState) (readers : List (List DbRecord)) :
    NoneInFlight (bothDone hot readers) := by
  intro writer hwriter
  rcases mem_pair.mp hwriter with rfl | rfl <;> rfl

/-- The note is evicted, and read from the projection. -/
theorem note_fetched : Windowed (bothDone (notesHot (some 1) 2) [[noteDraft.intoRecord 2]]) := by
  have hevicted : (holding (some 1) 2 2).evict "notes" "a" = notesHot (some 1) 2 := by with_unfolding_all rfl
  have h₁ : Windowed (bothDone ((holding (some 1) 2 2).evict "notes" "a") []) := by
    refine both_applied.take (e := .evict "notes" "a") (.evict "notes" "a" (by decide +kernel)) ⟨trivial, ?_⟩
    refine may_leave rfl (applied_idle _ _) (by decide +kernel) fun place hforgotten => ?_
    exact forgotten_notesHot.mp (hevicted ▸ hforgotten)
  rw [hevicted] at h₁
  refine h₁.take (e := .fetch [noteDraft.intoRecord 2]) (.fetch fun row hrow => ?_) ⟨trivial, trivial⟩
  obtain rfl := mem_singleton.mp hrow
  exact ⟨"notes", "a", rfl⟩

theorem note_hydrated : Windowed (bothDone (holding (some 1) 2 3) [[]]) := by
  have hhydrated : (notesHot (some 1) 2).hydrateDurableMany [noteDraft.intoRecord 2] = holding (some 1) 2 3 := by
    with_unfolding_all rfl
  have h : Windowed (bothDone ((notesHot (some 1) 2).hydrateDurableMany [noteDraft.intoRecord 2]) [[]]) := by
    refine note_fetched.take (e := .hydrate 0) (.hydrate rfl) ⟨trivial, fun rows hrows => ?_⟩
    obtain rfl := Option.some.inj hrows
    refine ⟨may_leave rfl (applied_idle _ _) (by decide +kernel) fun place hforgotten => ?_, fun row hrow _ => ?_⟩
    · exact (forgotten_holding.mp (hhydrated ▸ hforgotten)).1
    obtain rfl := mem_singleton.mp hrow
    refine ⟨committed_notes, fun r ⟨writer, hwriter, hr⟩ => ?_⟩
    rcases mem_pair.mp hwriter with rfl | rfl <;> cases hr
  rwa [hhydrated] at h

/-- The note is written twice, leaves the cache and comes back. -/
theorem read_committed_note : notesLibrary.Lawful ∧ (shapeOf notesSchema).Named ∧
    Warm notesLibrary notesSchema (writing [] (notesHot (some 1) 0) [] []) (fun _ => ∅) ∧
    NulFree "notes" ∧
    NulFree "a" ∧ ∃ t, Windowed t ∧ NoneInFlight t ∧ (t.hot.tables["notes"]?).isSome ∧
    ∃ hot, getRecordFromLiveOrDisk notesLibrary t "notes" "a" =
    .ok (committedRecord t.wal ("notes", "a"), hot) := by
  have hhot : ((bothDone (holding (some 1) 2 3) [[]]).hot.tables["notes"]?).isSome = true := by decide +kernel
  exact ⟨notesLibrary_lawful, notesShape_named, notes_warm, nulFree_note.1, nulFree_note.2, _, note_hydrated,
    applied_idle _ _, hhot, read_committed notesLibrary_lawful notesShape_named notes_warm note_hydrated
      (applied_idle _ _) nulFree_note.1 nulFree_note.2 hhot⟩

end Windowed

/-- A record of a resident table is idle, and leaves the cache. -/
theorem idle_not_read : ¬ ∀ (lib : ProjectionLibraries)
    (checks : OperationChecks) (schema : DatabaseSchema) (start : CurrentRecords) (s t : WriteState), lib.Lawful →
    (shapeOf schema).Named → Warm lib schema s start →
    Reaches (WriteStep lib checks schema) (fun _ _ => True) s t →
    NoneInFlight t → ∀ table key, NulFree table → NulFree key → (t.hot.tables[table]?).isSome →
    ∃ hot, getRecordFromLiveOrDisk lib t table key =
    .ok (committedRecord t.wal (table, key), hot) := by
  intro hall
  have h₁ := @both_logged (fun _ _ => True) (notesHot none 0) (fun _ _ _ _ => trivial) (by decide +kernel)
  have h₂ := h₁.take (e := .cache 0) (.cache rfl rfl (noteJob_eq 1)) trivial
  have h₃ := h₂.take (e := .cache 1) (.cache rfl rfl (noteJob_eq 2)) trivial
  have hevicted : (hotAfter (hotAfter (notesHot none 0) (noteRecord 1)) (noteRecord 2)).evictIdleDurableRecords
      (fun _ _ => true) = notesHot none 2 := by
    with_unfolding_all rfl
  have h₄ : NoteSteps (fun _ _ => True) (writing [] (notesHot none 0) [] []) (bothWritten ((hotAfter (hotAfter
      (notesHot none 0) (noteRecord 1)) (noteRecord 2)).evictIdleDurableRecords fun _ _ => true)) :=
    (both_queued (fun _ _ _ _ => trivial) h₃).take (e := .evictIdle fun _ _ => true) (.evictIdle _) trivial
  rw [hevicted] at h₄
  obtain ⟨hot, hread⟩ := hall _ _ _ _ _
    (bothWritten (notesHot none 2)) notesLibrary_lawful notesShape_named notes_warm h₄
    (fun writer hwriter => by rcases mem_pair.mp hwriter with rfl | rfl <;> rfl) "notes" "a" nulFree_note.1 nulFree_note.2
    (by decide +kernel)
  have hnone : ((getRecordFromLiveOrDisk notesLibrary (bothWritten (notesHot none 2))
      "notes" "a").toOption.any fun read => read.1.isNone) = true := by decide +kernel
  rw [hread] at hnone
  replace hnone : (committedRecord [noteRecord 1, noteRecord 2] ("notes", "a")).isNone = true := hnone
  rw [committed_notes] at hnone
  cases hnone

end Sample

end NextDb.Api.RecordReads
