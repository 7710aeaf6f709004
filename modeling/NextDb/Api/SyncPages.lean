import NextDb.Api.Sync
import Mathlib.Data.List.Flatten

/-!
# Pages of the log

* `syncEventsFrom_eq`: a page is of the first records that are wanted; it stops at the first that it
  has no room for.
* `sync_pages_complete`: who goes on after each page's last LSN, while there is more, gets the
  events of each record that is wanted once, in one page.
-/

namespace NextDb.Api.SyncPages

open RecordMatch Sync List

variable (lib : QueryLibrary) (filters : SyncFilters)

/-- The record is after the LSN, and the filters let events of it through. -/
def wanted (afterLsn : Nat) (record : WalRecord) : Bool :=
  afterLsn < record.lsn && !(recordEvents lib filters record).isEmpty

/-- The pages of calls each of which goes on where the last one ended, until there is no more. -/
def pages (records : List WalRecord) (limit : Nat) : Nat → Nat → Option (List SyncEventPage)
  | 0, _ => none
  | calls + 1, afterLsn =>
    let page := syncEventsFromWalRecords lib filters records afterLsn limit
    if page.hasMore then (pages records limit calls page.nextAfterLsn).map (page :: ·) else some [page]

theorem syncEventsFrom_eq (afterLsn limit : Nat) (records : List WalRecord) (page : SyncEventPage)
    (hmore : page.hasMore = false) :
    ∃ taken rest, records.filter (wanted lib filters afterLsn) = taken ++ rest ∧
    syncEventsFrom lib filters afterLsn limit records page =
    ⟨page.events ++ taken.flatMap (recordEvents lib filters),
    (taken.getLast?.map (·.lsn)).getD page.nextAfterLsn, !rest.isEmpty⟩ ∧
    (∀ before other after, taken = before ++ other :: after → pageFull limit
    (page.events ++ before.flatMap (recordEvents lib filters)) (recordEvents lib filters other) other.payload = false) ∧
    ∀ other ∈ rest.head?, pageFull limit (page.events ++ taken.flatMap (recordEvents lib filters))
    (recordEvents lib filters other) other.payload = true := by
  induction records generalizing page with
  | nil => exact ⟨[], [], by simp [syncEventsFrom, hmore.symm]⟩
  | cons r records ih =>
    rw [syncEventsFrom]
    by_cases hwanted : wanted lib filters afterLsn r = true
    · obtain ⟨hafter, hevents⟩ : afterLsn < r.lsn ∧ (recordEvents lib filters r).isEmpty = false := by
        simpa [wanted] using hwanted
      rw [filter_cons_of_pos hwanted]
      simp only [hevents, Nat.not_le.mpr hafter, Bool.false_eq_true, or_self, if_false]
      split
      · next hfull => exact ⟨[], _, rfl, by simp, by simp, by simpa using hfull⟩
      · next hroom =>
        obtain ⟨taken, rest, hfilter, heq, hrooms, hfull⟩ :=
          ih { page with events := page.events ++ recordEvents lib filters r, nextAfterLsn := r.lsn } hmore
        refine ⟨r :: taken, rest, by rw [hfilter, cons_append], ?_, ?_, by simpa using hfull⟩
        · rw [heq, getLast?_cons]
          cases taken.getLast? <;> simp
        · intro before other after hsplit
          cases before with
          | nil =>
            cases hsplit
            simpa using hroom
          | cons first before =>
            cases hsplit
            simpa using hrooms before other after rfl
    · have hskips : r.lsn ≤ afterLsn ∨ (recordEvents lib filters r).isEmpty = true := by
        by_contra hnot
        rw [not_or, not_le, Bool.not_eq_true] at hnot
        exact hwanted (by simp [wanted, hnot.1, hnot.2])
      rw [filter_cons_of_neg hwanted, if_pos hskips]
      exact ih page hmore

/-- A page with room for one event is of some record, if one is wanted. -/
theorem syncEventsFromWalRecords_eq (afterLsn : Nat) {limit : Nat} (records : List WalRecord)
    (hlimit : 1 ≤ limit) :
    ∃ taken rest, records.filter (wanted lib filters afterLsn) = taken ++ rest ∧
    syncEventsFromWalRecords lib filters
    records afterLsn limit =
    ⟨taken.flatMap (recordEvents lib filters), (taken.getLast?.map (·.lsn)).getD afterLsn,
    !rest.isEmpty⟩ ∧ (∀ before other after, taken = before ++ other :: after →
    pageFull limit (before.flatMap (recordEvents lib filters)) (recordEvents lib filters other) other.payload = false) ∧
    (rest ≠ [] → taken ≠ []) := by
  obtain ⟨taken, rest, hfilter, heq, hrooms, hfull⟩ :=
    syncEventsFrom_eq lib filters afterLsn limit records ⟨[], afterLsn, false⟩ rfl
  refine ⟨taken, rest, hfilter, heq.trans (by simp), by simpa using hrooms, ?_⟩
  rintro hrest rfl
  obtain ⟨other, rest, rfl⟩ := exists_cons_of_ne_nil hrest
  have hfull := hfull other rfl
  unfold pageFull at hfull
  split at hfull
  · simp at hfull
  · simp at hfull
    omega

variable {lib filters} {records : List WalRecord}

/-- A call with room for all events leaves nothing. -/
theorem events_of_unbounded {afterLsn unbounded : Nat}
    (hunbounded : (records.flatMap (recordEvents lib filters)).length ≤ unbounded) :
    (syncEventsFromWalRecords lib filters records afterLsn unbounded).events =
    (records.filter (wanted lib filters afterLsn)).flatMap (recordEvents lib filters) := by
  obtain ⟨taken, rest, hfilter, heq, -, hfull⟩ :=
    syncEventsFrom_eq lib filters afterLsn unbounded records ⟨[], afterLsn, false⟩ rfl
  have hevents : (syncEventsFromWalRecords lib filters records afterLsn unbounded).events =
      taken.flatMap (recordEvents lib filters) := (congrArg SyncEventPage.events heq).trans (by simp)
  rw [hevents, hfilter]
  cases rest with
  | nil => rw [append_nil]
  | cons other rest =>
    have hfull := hfull other rfl
    have hwanted : wanted lib filters afterLsn other = true := by
      refine (mem_filter.mp (?_ : other ∈ records.filter _)).2
      rw [hfilter]
      exact mem_append_right _ mem_cons_self
    have hpos : 0 < (recordEvents lib filters other).length := by
      simp only [wanted, Bool.and_eq_true, Bool.not_eq_true', isEmpty_eq_false_iff] at hwanted
      exact length_pos_of_ne_nil hwanted.2
    have hle :=
      ((filter_sublist (p := wanted lib filters afterLsn) (l := records)).flatMap (recordEvents lib filters)).length_le
    simp only [hfilter, flatMap_append, flatMap_cons, length_append] at hle
    unfold pageFull at hfull
    split at hfull
    · simp only [nil_append, Bool.and_eq_true, decide_eq_true_eq] at hfull
      omega
    · simp only [nil_append, decide_eq_true_eq] at hfull
      omega

/-- The records that are wanted after the last of a page are those that the page has no room for. -/
theorem filter_wanted_last {afterLsn : Nat} {taken rest : List WalRecord} {last : WalRecord}
    (hasc : records.Pairwise fun a b => a.lsn < b.lsn)
    (hfilter : records.filter (wanted lib filters afterLsn) = taken ++ rest)
    (hlast : taken.getLast? = some last) :
    records.filter (wanted lib filters last.lsn) = rest := by
  obtain ⟨before, rfl⟩ := getLast?_eq_some_iff.mp hlast
  have hasc' : ((before ++ [last]) ++ rest).Pairwise fun a b => a.lsn < b.lsn := hfilter ▸ hasc.filter _
  have hafter : afterLsn < last.lsn := by
    have hmem : last ∈ records.filter (wanted lib filters afterLsn) := by simp [hfilter]
    have hwanted := (mem_filter.mp hmem).2
    simp only [wanted, Bool.and_eq_true, decide_eq_true_eq] at hwanted
    exact hwanted.1
  obtain ⟨hbefore, -, hbehind⟩ := pairwise_append.mp hasc'
  have hsplit : records.filter (wanted lib filters last.lsn) =
      (records.filter (wanted lib filters afterLsn)).filter (last.lsn < ·.lsn) := by
    rw [filter_filter]
    refine filter_congr fun r _ => Bool.eq_iff_iff.mpr ?_
    simp only [wanted, Bool.and_eq_true, decide_eq_true_eq]
    exact ⟨fun h => ⟨h.1, hafter.trans h.1, h.2⟩, fun h => ⟨h.1, h.2.2⟩⟩
  rw [hsplit, hfilter, filter_append, filter_eq_nil_iff.mpr, nil_append, filter_eq_self]
  · intro r hr
    exact decide_eq_true (hbehind last (mem_append_right _ (mem_singleton_self _)) r hr)
  · intro r hr
    rw [decide_eq_true_eq, Nat.not_lt]
    rcases mem_append.mp hr with hr | hr
    · exact ((pairwise_append.mp hbefore).2.2 r hr last (mem_singleton_self _)).le
    · exact (congrArg WalRecord.lsn (mem_singleton.mp hr)).le

/-- With as many calls as there are records that are wanted, and one, the pages come to an end. -/
theorem exists_pages {limit : Nat} (hasc : records.Pairwise fun a b => a.lsn < b.lsn)
    (hlimit : 1 ≤ limit)
    (calls afterLsn : Nat)
    (hcalls : (records.filter (wanted lib filters afterLsn)).length < calls) : ∃ ps, ∃ chunks :
    List (List WalRecord), pages lib filters records limit calls afterLsn = some ps ∧
    ps.map (·.events) = chunks.map
    (·.flatMap (recordEvents lib filters)) ∧
    chunks.flatten = records.filter (wanted lib filters afterLsn) := by
  induction calls generalizing afterLsn with
  | zero => exact absurd hcalls (Nat.not_lt_zero _)
  | succ calls ih =>
    obtain ⟨taken, rest, hfilter, hpage, -, hprogress⟩ :=
      syncEventsFromWalRecords_eq lib filters afterLsn records hlimit
    rw [pages, hpage]
    cases rest with
    | nil => exact ⟨_, [taken], rfl, rfl, by simp [hfilter]⟩
    | cons other rest =>
      obtain ⟨last, hlast⟩ := Option.isSome_iff_exists.mp (getLast?_isSome.mpr (hprogress (cons_ne_nil _ _)))
      have hrest := filter_wanted_last hasc hfilter hlast
      obtain ⟨ps, chunks, hps, hevents, hflatten⟩ := ih last.lsn (by
        have htaken := length_pos_of_ne_nil (hprogress (cons_ne_nil _ _))
        rw [hfilter, length_append] at hcalls
        rw [hrest]
        omega)
      refine ⟨⟨taken.flatMap (recordEvents lib filters), last.lsn, true⟩ :: ps, taken :: chunks, ?_, ?_, ?_⟩
      · simp [hlast, hps]
      · rw [map_cons, map_cons, hevents]
      · rw [flatten_cons, hflatten, hrest, hfilter]

/-- The pages together are of the records that are wanted, each in one page, and have the events of
one call without a limit. -/
theorem sync_pages_complete (records : List WalRecord)
    (hasc : records.Pairwise fun a b => a.lsn < b.lsn)
    (limit : Nat) (hlimit : 1 ≤ limit) (afterLsn : Nat) : ∃ ps, ∃ chunks :
    List (List WalRecord), pages lib filters records limit (records.length + 1) afterLsn = some ps ∧
    ps.map (·.events) =
    chunks.map (·.flatMap (recordEvents lib filters)) ∧
    chunks.flatten = records.filter (wanted lib filters afterLsn) ∧
    ∀ unbounded, (records.flatMap (recordEvents lib filters)).length ≤ unbounded →
    ps.flatMap (·.events) =
    (syncEventsFromWalRecords lib filters records afterLsn unbounded).events := by
  obtain ⟨ps, chunks, hps, hevents, hflatten⟩ := exists_pages hasc hlimit (records.length + 1) afterLsn
    (Nat.lt_succ_of_le (length_filter_le _ _))
  refine ⟨ps, chunks, hps, hevents, hflatten, fun unbounded hunbounded => ?_⟩
  rw [events_of_unbounded hunbounded, ← hflatten, flatMap_def, hevents, ← flatMap_def, ← flatMap_id', flatMap_assoc]

section Sample

def noQueries : QueryLibrary :=
  ⟨fun _ _ => false, fun _ _ => none, fun _ => none, .error, fun _ => "", fun _ => "", fun _ => ""⟩

def everything : SyncFilters := ⟨[], [], [], [], [], none, false⟩

def deletedDraft (key : String) : DbRecordDeleteDraft := ⟨"notes", key, 1, "notes/" ++ key, none⟩

def deleted (lsn : Nat) : WalRecord :=
  ⟨lsn, 0, 1, "node", 0, 1, .strict, .recordDeleted (deletedDraft "a"), none⟩

/-- A transaction of three deletions. -/
def deletedTogether (lsn : Nat) : WalRecord :=
  ⟨lsn, 0, 1, "node", 0, 1, .strict,
    .recordTransactionCommitted (["a", "b", "c"].map fun key => .delete (deletedDraft key)) none, none⟩

def deletions : List WalRecord := [deleted 1, deletedTogether 2, deleted 3]

/-- Pages of two events: the three of the transaction are in one page. -/
theorem sync_pages_complete_sample : ∃ ps, ∃ chunks : List (List WalRecord),
    pages noQueries everything deletions 2 4 0 = some ps ∧
    ps.map (·.events) = chunks.map (·.flatMap (recordEvents noQueries everything)) ∧
    chunks.flatten = deletions.filter (wanted noQueries everything 0) ∧
    ∀ unbounded, (deletions.flatMap (recordEvents noQueries everything)).length ≤ unbounded →
    ps.flatMap (·.events) =
    (syncEventsFromWalRecords noQueries everything deletions 0 unbounded).events :=
  sync_pages_complete deletions (by decide) 2 (by decide) 0

example : (pages noQueries everything deletions 2 4 0).map (List.map fun page => page.events.length) = some [1, 3, 1] := by
  decide +kernel

end Sample

end NextDb.Api.SyncPages
