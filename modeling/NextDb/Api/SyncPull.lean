import NextDb.Api.SyncPages

/-!
# Pulls of a client

Writers on all shards take their LSNs from one counter, and each shard's file has its records when
its own writer gets to them. A client pulls what is above the LSN that its last page ended with; a
pull reads one shard after the other.

* `pulled_once`: when no record gets readable below what a page ends with, the client gets each
  once.
-/

namespace NextDb.Api.SyncPull

open Run Wal Frames Sync SyncPages RecordMatch List
open Messages (normalizeLimit normalizeLimit_pos)

structure SyncPullQuery where
  rooms : List String
  users : List String
  tables : List String
  nestedTables : List NestedTableSubscription
  objects : Bool

def SyncPullQuery.filters (query : SyncPullQuery) : SyncFilters where
  rooms := query.rooms
  users := query.users
  tables := query.tables
  tableRanges := []
  nestedTables := query.nestedTables
  schema := none
  includeObjects := query.objects

/-- `read_records_from_wal_paths_after_lsn`, where the shards' files have these records. -/
def readRecordsFromWalPathsAfterLsn (shards : List (List WalRecord)) (afterLsn : Nat) :
    List WalRecord :=
  readRecordsFromWalPaths (shards.map fun records => ([], records.filter (afterLsn < ·.lsn)))

/-! ## Writers and a client -/

/-- A shard of the log: the records that wait for its writer, and those in its file. -/
structure Shard where
  queue : List WalRecord
  written : List WalRecord

/-- A call of `sync_pull`, with what it has read of the shards. -/
structure Pull where
  limit : Option Nat
  read : List (List WalRecord)

/-- A page that was given to the client, with what was read for it. -/
structure Answer where
  read : List (List WalRecord)
  page : SyncEventPage

/-- The shards, and the client with its cursor. -/
structure ServerState where
  nextLsn : Nat
  currentLsn : Nat
  shards : List Shard
  /-- The `nextAfterLsn` that the client got last. -/
  cursor : Nat
  pull : Option Pull
  answers : List Answer

def ServerState.initial (shardCount : Nat) : ServerState :=
  ⟨0, 0, List.replicate shardCount ⟨[], []⟩, 0, none, []⟩

/-- Writes of the shards, and the steps of a pull. -/
inductive ServerEvent where
  /-- An LSN is allocated and the record enqueued, both under the lock of the shard. -/
  | enqueue (shard : Nat) (record : WalRecord)
  | write (shard : Nat)
  /-- The writer fails an append. -/
  | drop (shard : Nat)
  /-- `commit_lsn`, of a record that is written. -/
  | commit (shard i : Nat)
  | call (limit : Option Nat)
  | read
  | failed
  | answer

def ServerState.setShard (s : ServerState) (shard : Nat) (state : Shard) : ServerState :=
  { s with shards := s.shards.set shard state }

section

variable (lib : QueryLibrary) (query : SyncPullQuery)

def syncPull (shards : List (List WalRecord)) (afterLsn : Nat) (limit : Option Nat) :
    SyncEventPage :=
  syncEventsFromWalRecords lib query.filters (readRecordsFromWalPathsAfterLsn shards afterLsn) afterLsn
    (normalizeLimit limit)

/-- Where appends fail, the LSNs that were allocated have gaps. -/
def step (s : ServerState) : ServerEvent → Option ServerState
  | .enqueue shard record => do
    let state ← s.shards[shard]?
    if s.nextLsn < record.lsn then
      some { s.setShard shard { state with queue := state.queue ++ [record] } with nextLsn := record.lsn }
    else none
  | .write shard => do
    let state ← s.shards[shard]?
    let record ← state.queue.head?
    some (s.setShard shard ⟨state.queue.tail, state.written ++ [record]⟩)
  | .drop shard => do
    let state ← s.shards[shard]?
    some (s.setShard shard { state with queue := state.queue.tail })
  | .commit shard i => do
    let state ← s.shards[shard]?
    let record ← state.written[i]?
    some { s with currentLsn := max s.currentLsn record.lsn }
  | .call limit => if s.pull.isNone then some { s with pull := some ⟨limit, []⟩ } else none
  | .read => do
    let pull ← s.pull
    let state ← s.shards[pull.read.length]?
    some { s with pull := some { pull with read := pull.read ++ [state.written] } }
  | .failed => some { s with pull := none }
  | .answer => do
    let pull ← s.pull
    if pull.read.length = s.shards.length then
      let page := syncPull lib query pull.read s.cursor pull.limit
      some { s with cursor := page.nextAfterLsn, pull := none, answers := s.answers ++ [⟨pull.read, page⟩] }
    else none

/-! ## What is asked for -/

def asked (record : WalRecord) : Bool := !(recordEvents lib query.filters record).isEmpty

/-- The record is in the log of its shard. -/
def ServerState.Written (s : ServerState) (record : WalRecord) : Prop :=
  ∃ state ∈ s.shards, record ∈ state.written

/-- The record is in the log of its shard, or about to be. -/
def ServerState.Has (s : ServerState) (record : WalRecord) : Prop :=
  ∃ state ∈ s.shards, record ∈ state.written ++ state.queue

/-- Among these records, the page has room for those up to this one. -/
def HasRoom (limit : Nat) (records : List WalRecord) (record : WalRecord) : Prop :=
  ∀ before other after, records = before ++ other :: after → other.lsn ≤ record.lsn →
    pageFull limit (before.flatMap (recordEvents lib query.filters)) (recordEvents lib query.filters other)
      other.payload = false

/-- No record that is asked for is written when the client is past its LSN, and none that was
written behind the back of a call is below one that the page has room for. -/
def Meets (s : ServerState) : ServerEvent → Prop
  | .write shard => ∀ state record, s.shards[shard]? = some state →
    state.queue.head? = some record →
    asked lib query record = true → s.cursor < record.lsn
  | .answer => ∀ pull, s.pull = some pull → ∀ record, s.Written record →
    asked lib query record = true →
    s.cursor < record.lsn → (∀ records ∈ pull.read, record ∉ records) →
      ∀ other ∈ (readRecordsFromWalPathsAfterLsn pull.read s.cursor).filter (asked lib query),
        HasRoom lib query (normalizeLimit pull.limit)
          ((readRecordsFromWalPathsAfterLsn pull.read s.cursor).filter (asked lib query)) other →
        other.lsn < record.lsn
  | _ => True

/-- The pages are of chunks of records, one after the other, and these are all that the predicate is
true of. -/
structure Pages (answers : List Answer) (has : WalRecord → Prop) (chunks : List (List WalRecord)) :
    Prop where
  events : answers.map (·.page.events) = chunks.map (·.flatMap (recordEvents lib query.filters))
  ascending : chunks.flatten.Pairwise fun a b => a.lsn < b.lsn
  mem : ∀ record, record ∈ chunks.flatten ↔ has record

/-- Every record that is asked for is in exactly one page. -/
def PulledOnce (s : ServerState) : Prop :=
  ∃ chunks, Pages lib query s.answers (fun record => s.Written record ∧ asked lib query record = true) chunks

/-- All writers have finished, and the client has pulled until there is no more. -/
structure Finished (s : ServerState) : Prop where
  queues : ∀ state ∈ s.shards, state.queue = []
  pulled : ∃ answer, s.answers.getLast? = some answer ∧ answer.read = s.shards.map (·.written) ∧
    answer.page.hasMore = false

end

variable {lib : QueryLibrary} {query : SyncPullQuery} {s t : ServerState} {e : ServerEvent}
    {record : WalRecord}

/-! ## Pages -/

variable (lib query) in
/-- What is asked for of the records that a page is made of. -/
theorem syncPull_eq (read : List (List WalRecord)) (afterLsn : Nat) (limit : Option Nat) :
    ∃ taken rest, (readRecordsFromWalPathsAfterLsn read afterLsn).filter (asked lib query) =
    taken ++ rest ∧
    syncPull lib query read afterLsn limit = ⟨taken.flatMap (recordEvents lib query.filters),
    (taken.getLast?.map (·.lsn)).getD afterLsn, !rest.isEmpty⟩ ∧ (∀ before other after,
    taken = before ++ other :: after →
    pageFull (normalizeLimit limit) (before.flatMap (recordEvents lib query.filters))
    (recordEvents lib query.filters other) other.payload = false) ∧ (rest ≠ [] → taken ≠ []) := by
  have habove : ∀ r ∈ readRecordsFromWalPathsAfterLsn read afterLsn, afterLsn < r.lsn := by
    intro r hr
    obtain ⟨file, hfile, r', hr', hsame⟩ := exists_lsn_readRecordsFromWalPaths.mp ⟨r, hr, rfl⟩
    obtain ⟨records, -, rfl⟩ := mem_map.mp hfile
    rw [← hsame]
    exact of_decide_eq_true (mem_filter.mp hr').2
  obtain ⟨taken, rest, hfilter, hpage⟩ :=
    syncEventsFromWalRecords_eq lib query.filters afterLsn _ (normalizeLimit_pos limit)
  refine ⟨taken, rest, hfilter ▸ filter_congr fun r hr => ?_, hpage⟩
  rw [wanted, decide_eq_true (habove r hr), Bool.true_and]
  rfl

/-! ## Runs -/

/-- The log tells its records apart, and the pages are of all up to the client's LSN. -/
structure Inv (lib : QueryLibrary) (query : SyncPullQuery) (s : ServerState) : Prop where
  le : ∀ record, s.Has record → record.lsn ≤ s.nextLsn
  distinct : ∀ a b, s.Has a → s.Has b → a.lsn = b.lsn → a = b
  read : ∀ pull, s.pull = some pull → ∀ records ∈ pull.read, ∀ record ∈ records, s.Written record
  pages : ∃ chunks, Pages lib query s.answers
    (fun record => s.Written record ∧ asked lib query record = true ∧ record.lsn ≤ s.cursor) chunks
  more : ∀ answer ∈ s.answers, answer.page.hasMore = true → answer.page.events ≠ []
  last : ∀ answer, s.answers.getLast? = some answer → answer.page.hasMore = false → ∀ records ∈ answer.read,
    ∀ record ∈ records, asked lib query record = true → record.lsn ≤ s.cursor

theorem ServerState.Written.has (h : s.Written record) : s.Has record := by
  obtain ⟨state, hstate, hrecord⟩ := h
  exact ⟨state, hstate, mem_append_left _ hrecord⟩

/-- A shard goes on: nothing is enqueued but a record above all, and nothing is written that the
client is past. -/
theorem Inv.setShard (h : Inv lib query s) {shard lsn : Nat} {old new : Shard}
    (hold : s.shards[shard]? = some old)
    (hlsn : s.nextLsn ≤ lsn) (fresh : Option WalRecord) (hhas : ∀ r ∈ new.written ++ new.queue,
    r ∈ old.written ++ old.queue ∨ fresh = some r ∧ s.nextLsn < r.lsn ∧ r.lsn ≤ lsn)
    (hkept : ∀ r ∈ old.written,
    r ∈ new.written) (hnew : ∀ r ∈ new.written, r ∈ old.written ∨ (asked lib query r = true →
      s.cursor < r.lsn)) :
    Inv lib query { s.setShard shard new with nextLsn := lsn } := by
  have holdMem : old ∈ s.shards := mem_of_getElem? hold
  have hhas' : ∀ r, ServerState.Has { s.setShard shard new with nextLsn := lsn } r → s.Has r ∨ fresh = some r ∧
      s.nextLsn < r.lsn ∧ r.lsn ≤ lsn := by
    rintro r ⟨state, hstate, hr⟩
    rcases mem_or_eq_of_mem_set hstate with hstate | rfl
    · exact .inl ⟨state, hstate, hr⟩
    · exact (hhas r hr).imp_left fun hr => ⟨old, holdMem, hr⟩
  have hkept' : ∀ r, s.Written r → ServerState.Written { s.setShard shard new with nextLsn := lsn } r := by
    rintro r ⟨state, hstate, hr⟩
    obtain ⟨i, hi⟩ := mem_iff_getElem?.mp hstate
    by_cases hshard : shard = i
    · subst hshard
      cases hold.symm.trans hi
      exact ⟨new, mem_of_getElem? (getElem?_set_self_of hold), hkept r hr⟩
    · exact ⟨state, mem_of_getElem? ((getElem?_set_ne hshard).trans hi), hr⟩
  refine ⟨fun r hr => ?_, fun a b ha hb hsame => ?_, fun pull hpull records hrecords r hr => ?_, ?_, h.more, h.last⟩
  · rcases hhas' r hr with hr | ⟨-, -, hle⟩
    · exact (h.le r hr).trans hlsn
    · exact hle
  · rcases hhas' a ha with ha | ⟨hfa, ha, -⟩ <;> rcases hhas' b hb with hb | ⟨hfb, hb, -⟩
    · exact h.distinct a b ha hb hsame
    · have := h.le a ha
      omega
    · have := h.le b hb
      omega
    · exact Option.some.inj (hfa.symm.trans hfb)
  · exact hkept' r (h.read pull hpull records hrecords r hr)
  · obtain ⟨chunks, hpages⟩ := h.pages
    refine ⟨chunks, hpages.events, hpages.ascending, fun r => (hpages.mem r).trans ?_⟩
    refine ⟨fun hr => ⟨hkept' r hr.1, hr.2⟩, fun ⟨⟨state, hstate, hr⟩, hasked, hle⟩ => ⟨?_, hasked, hle⟩⟩
    rcases mem_or_eq_of_mem_set hstate with hstate | rfl
    · exact ⟨state, hstate, hr⟩
    · rcases hnew r hr with hr | hpast
      · exact ⟨old, holdMem, hr⟩
      · exact absurd (hpast hasked) (Nat.not_lt.mpr hle)

/-- What a call reads is in LSN order, and all of it is in the files. -/
theorem Inv.mem_read (h : Inv lib query s) {pull : Pull} (hpull : s.pull = some pull) :
    record ∈ readRecordsFromWalPathsAfterLsn pull.read s.cursor ↔
    (∃ records ∈ pull.read, record ∈ records) ∧
    s.cursor < record.lsn := by
  have hread := h.read pull hpull
  rw [readRecordsFromWalPathsAfterLsn, mem_readRecordsFromWalPaths]
  · simp only [List.mem_map, exists_exists_and_eq_and, List.nil_append, List.mem_filter, decide_eq_true_eq]
    exact ⟨fun ⟨records, hrecords, hr, hlt⟩ => ⟨⟨records, hrecords, hr⟩, hlt⟩,
      fun ⟨⟨records, hrecords, hr⟩, hlt⟩ => ⟨records, hrecords, hr, hlt⟩⟩
  · intro file hfile file' hfile' r hr r' hr'
    obtain ⟨records, hrecords, rfl⟩ := mem_map.mp hfile
    obtain ⟨records', hrecords', rfl⟩ := mem_map.mp hfile'
    exact h.distinct r r' (hread records hrecords r (mem_of_mem_filter hr)).has
      (hread records' hrecords' r' (mem_of_mem_filter hr')).has

theorem Inv.answer (h : Inv lib query s) {pull : Pull} (hpull : s.pull = some pull)
    (hmeets : Meets lib query s .answer) :
    let page := syncPull lib query pull.read s.cursor pull.limit
    Inv lib query { s with
      cursor := page.nextAfterLsn, pull := none, answers := s.answers ++ [⟨pull.read, page⟩] } := by
  obtain ⟨taken, rest, hfilter, heq, hrooms, hprogress⟩ :=
    syncPull_eq lib query pull.read s.cursor pull.limit
  obtain ⟨chunks, hpages⟩ := h.pages
  have hview : ∀ r, r ∈ taken ++ rest ↔ ((∃ records ∈ pull.read, r ∈ records) ∧ s.cursor < r.lsn) ∧
      asked lib query r = true := by
    intro r
    rw [← hfilter, mem_filter, h.mem_read hpull]
  have hasc : (taken ++ rest).Pairwise fun a b => a.lsn < b.lsn :=
    hfilter ▸ (readRecordsFromWalPaths_ascending _).filter _
  obtain ⟨htakenAsc, -, hacross⟩ := pairwise_append.mp hasc
  obtain ⟨cursor, hcursor⟩ : ∃ cursor, (taken.getLast?.map (·.lsn)).getD s.cursor = cursor := ⟨_, rfl⟩
  have hend : (taken = [] ∧ cursor = s.cursor) ∨ ∃ final ∈ taken, final.lsn = cursor ∧ ∀ r ∈ taken, r.lsn ≤ cursor := by
    rcases eq_nil_or_concat' taken with rfl | ⟨before, final, rfl⟩
    · exact .inl ⟨rfl, hcursor.symm⟩
    · have hfinal : final.lsn = cursor := by simpa using hcursor
      refine .inr ⟨final, by simp, hfinal, fun r hr => ?_⟩
      rcases mem_append.mp hr with hr | hr
      · exact hfinal ▸ ((pairwise_append.mp htakenAsc).2.2 r hr final (by simp)).le
      · exact (congrArg WalRecord.lsn (mem_singleton.mp hr)).trans hfinal |>.le
  have hgrows : s.cursor ≤ cursor := by
    rcases hend with ⟨-, hsame⟩ | ⟨final, hfinal, hsame, -⟩
    · exact hsame.ge
    · exact hsame ▸ ((hview final).mp (mem_append_left _ hfinal)).1.2.le
  have htaken : ∀ r ∈ taken, r.lsn ≤ cursor := by
    rcases hend with ⟨rfl, -⟩ | ⟨-, -, -, hle⟩
    · simp
    · exact hle
  have hrest : ∀ r ∈ rest, cursor < r.lsn := by
    intro r hr
    rcases hend with ⟨-, hsame⟩ | ⟨final, hfinal, hsame, -⟩
    · exact hsame ▸ ((hview r).mp (mem_append_right _ hr)).1.2
    · exact hsame ▸ hacross final hfinal r hr
  dsimp only
  rw [heq, hcursor]
  refine ⟨h.le, h.distinct, nofun, ⟨chunks ++ [taken], ?_, ?_, fun r => ?_⟩, fun answer hanswer => ?_, ?_⟩
  · simp [hpages.events]
  · rw [flatten_append, flatten_singleton, pairwise_append]
    refine ⟨hpages.ascending, htakenAsc, fun a ha b hb => ?_⟩
    exact ((hpages.mem a).mp ha).2.2.trans_lt ((hview b).mp (mem_append_left _ hb)).1.2
  · rw [flatten_append, flatten_singleton, mem_append, hpages.mem]
    constructor
    · rintro (⟨hwritten, hasked, hle⟩ | hr)
      · exact ⟨hwritten, hasked, hle.trans hgrows⟩
      · obtain ⟨⟨⟨records, hrecords, hmem⟩, -⟩, hasked⟩ := (hview r).mp (mem_append_left _ hr)
        exact ⟨h.read pull hpull records hrecords r hmem, hasked, htaken r hr⟩
    · rintro ⟨hwritten, hasked, hle⟩
      have hle : r.lsn ≤ cursor := hle
      by_cases hold : r.lsn ≤ s.cursor
      · exact .inl ⟨hwritten, hasked, hold⟩
      · right
        by_cases hread : ∃ records ∈ pull.read, r ∈ records
        · rcases mem_append.mp ((hview r).mpr ⟨⟨hread, Nat.not_le.mp hold⟩, hasked⟩) with hr | hr
          · exact hr
          · exact absurd (hrest r hr) (Nat.not_lt.mpr hle)
        · rcases hend with ⟨-, hsame⟩ | ⟨final, hfinal, hsame, -⟩
          · exact absurd (hsame ▸ hle) hold
          · have hlt := hmeets pull hpull r hwritten hasked (Nat.not_le.mp hold)
              (fun records hrecords hr => hread ⟨records, hrecords, hr⟩) final (hfilter ▸ mem_append_left _ hfinal) ?_
            · omega
            · intro before other after hsplit hother
              rw [hfilter] at hsplit
              have hnot : other ∉ rest := fun hin => absurd (hrest other hin) (by omega)
              rcases append_eq_append_iff.mp hsplit with ⟨more, -, hsplit⟩ | ⟨more, hsplit, hmore⟩
              · exact absurd (hsplit ▸ mem_append_right more mem_cons_self) hnot
              · cases more with
                | nil =>
                  cases hmore
                  exact absurd mem_cons_self hnot
                | cons first more =>
                  obtain ⟨rfl, -⟩ := cons.inj hmore
                  exact hrooms before other more hsplit
  · rcases mem_append.mp hanswer with hold | hnew
    · exact h.more answer hold
    · obtain rfl := mem_singleton.mp hnew
      intro hmore hnone
      obtain ⟨first, more, rfl⟩ := exists_cons_of_ne_nil (hprogress (by simpa using hmore))
      have hasked := ((hview first).mp (by simp)).2
      have hempty : recordEvents lib query.filters first = [] := (append_eq_nil_iff.mp hnone).1
      simp [asked, hempty] at hasked
  · intro answer hanswer hmore records hrecords r hr hasked
    rw [getLast?_concat] at hanswer
    cases hanswer
    by_cases hold : r.lsn ≤ s.cursor
    · exact hold.trans hgrows
    · have hin := (hview r).mpr ⟨⟨⟨records, hrecords, hr⟩, Nat.not_le.mp hold⟩, hasked⟩
      have hnone : rest = [] := by simpa using hmore
      rw [hnone, append_nil] at hin
      exact htaken r hin

theorem Inv.step (h : Inv lib query s) (hmeets : Meets lib query s e)
    (hstep : step lib query s e = some t) :
    Inv lib query t := by
  cases e with
  | enqueue shard record =>
    simp only [SyncPull.step, Option.bind_eq_bind, Option.bind_eq_some_iff, Option.ite_none_right_eq_some,
      Option.some.injEq] at hstep
    obtain ⟨state, hstate, hlsn, rfl⟩ := hstep
    refine h.setShard hstate hlsn.le (some record) (fun r hr => ?_) (fun _ => id) fun _ => .inl
    simp only [List.mem_append, List.mem_singleton] at hr ⊢
    rcases hr with hr | hr | rfl
    · exact .inl (.inl hr)
    · exact .inl (.inr hr)
    · exact .inr ⟨rfl, hlsn, le_refl _⟩
  | write shard =>
    simp only [SyncPull.step, Option.bind_eq_bind, Option.bind_eq_some_iff, Option.some.injEq] at hstep
    obtain ⟨state, hstate, record, hrecord, rfl⟩ := hstep
    obtain ⟨queue, hqueue⟩ := List.head?_eq_some_iff.mp hrecord
    refine h.setShard hstate le_rfl none (fun r hr => .inl ?_) (fun _ => List.mem_append_left _) fun r hr => ?_
    · rw [hqueue] at hr ⊢
      simpa [or_assoc] using hr
    · refine (List.mem_append.mp hr).imp_right fun hr hasked => ?_
      obtain rfl := List.mem_singleton.mp hr
      exact hmeets state r hstate hrecord hasked
  | drop shard =>
    simp only [SyncPull.step, Option.bind_eq_bind, Option.bind_eq_some_iff, Option.some.injEq] at hstep
    obtain ⟨state, hstate, rfl⟩ := hstep
    refine h.setShard hstate le_rfl none (fun r hr => .inl ?_) (fun _ => id) fun _ => .inl
    exact (List.mem_append.mp hr).elim (List.mem_append_left _) fun hr =>
      List.mem_append_right _ (List.mem_of_mem_tail hr)
  | commit shard i =>
    simp only [SyncPull.step, Option.bind_eq_bind, Option.bind_eq_some_iff, Option.some.injEq] at hstep
    obtain ⟨state, hstate, record, hrecord, rfl⟩ := hstep
    exact { h with pages := h.pages }
  | call limit =>
    simp only [SyncPull.step, Option.ite_none_right_eq_some, Option.some.injEq] at hstep
    obtain ⟨-, rfl⟩ := hstep
    refine { h with read := fun pull hpull => ?_, pages := h.pages }
    cases hpull
    simp
  | read =>
    simp only [SyncPull.step, Option.bind_eq_bind, Option.bind_eq_some_iff, Option.some.injEq] at hstep
    obtain ⟨pull, hpull, state, hstate, rfl⟩ := hstep
    refine { h with read := fun pull' hpull' records hrecords r hr => ?_, pages := h.pages }
    cases hpull'
    rcases List.mem_append.mp hrecords with hrecords | hrecords
    · exact h.read pull hpull records hrecords r hr
    · obtain rfl := List.mem_singleton.mp hrecords
      exact ⟨state, List.mem_of_getElem? hstate, hr⟩
  | failed =>
    cases hstep
    exact { h with read := nofun, pages := h.pages }
  | answer =>
    simp only [SyncPull.step, Option.bind_eq_bind, Option.bind_eq_some_iff, Option.ite_none_right_eq_some,
      Option.some.injEq] at hstep
    obtain ⟨pull, hpull, -, rfl⟩ := hstep
    exact h.answer hpull hmeets

theorem inv_initial (shardCount : Nat) : Inv lib query (.initial shardCount) where
  le record h := by
    obtain ⟨state, hstate, hrecord⟩ := h
    rw [eq_of_mem_replicate hstate] at hrecord
    cases hrecord
  distinct a _ h := by
    obtain ⟨state, hstate, ha⟩ := h
    rw [eq_of_mem_replicate hstate] at ha
    cases ha
  read := nofun
  pages := by
    refine ⟨[], rfl, Pairwise.nil, fun record => ⟨nofun, ?_⟩⟩
    rintro ⟨⟨state, hstate, hrecord⟩, -, -⟩
    rw [eq_of_mem_replicate hstate] at hrecord
    cases hrecord
  more := nofun
  last := nofun

/-- When no record gets readable below what a page ends with, a page that says that there is more
has events, and a client that pulls until there is no more has every record that it asks for in
exactly one page. -/
theorem pulled_once (lib : QueryLibrary) (query : SyncPullQuery) (shardCount : Nat)
    {s : ServerState}
    (h : Reaches (fun s e t => step lib query s e = some t) (Meets lib query) (.initial shardCount) s) :
    (∀ answer ∈ s.answers, answer.page.hasMore = true → answer.page.events ≠ []) ∧
    (Finished s → PulledOnce lib query s) := by
  have hinv : Inv lib query s :=
    h.invariant (I := Inv lib query) (fun _ _ _ hs hmeets hstep => hs.step hmeets hstep) (inv_initial shardCount)
  refine ⟨hinv.more, fun ⟨_, answer, hanswer, hread, hmore⟩ => ?_⟩
  obtain ⟨chunks, hpages⟩ := hinv.pages
  refine ⟨chunks, hpages.events, hpages.ascending, fun record => (hpages.mem record).trans ?_⟩
  refine ⟨fun hin => ⟨hin.1, hin.2.1⟩, fun ⟨hwritten, hasked⟩ => ⟨hwritten, hasked, ?_⟩⟩
  obtain ⟨state, hstate, hrecord⟩ := hwritten
  exact hinv.last answer hanswer hmore state.written (hread ▸ mem_map_of_mem hstate) record hrecord hasked

def sampleLib : QueryLibrary :=
  ⟨fun _ _ => false, fun _ _ => none, fun _ => none, .error, fun _ => "", fun _ => "", fun _ => ""⟩

def everything : SyncPullQuery := ⟨[], [], [], [], false⟩

def deleted (lsn : Nat) : WalRecord :=
  ⟨lsn, 0, 1, "node", 0, 1, .strict, .recordDeleted ⟨"notes", "a", 1, "notes/a", none⟩, none⟩

def deletedPage (lsns : List Nat) (nextAfterLsn : Nat) : SyncEventPage :=
  ⟨lsns.map fun lsn => .recordDeleted "notes" "a" 1 lsn "notes/a" none, nextAfterLsn, false⟩

def twoShards (answers : List Answer) : ServerState :=
  ⟨2, 0, [⟨[], [deleted 1]⟩, ⟨[], [deleted 2]⟩], 2, none, answers⟩

/-- Both records are in the files before the client pulls. -/
theorem pulled_once_sample :
    PulledOnce sampleLib everything (twoShards [⟨[[deleted 1], [deleted 2]], deletedPage [1,
    2] 2⟩]) := by
  refine (pulled_once sampleLib everything 2 ?_).2 ⟨by simp [twoShards], _, rfl, rfl, rfl⟩
  have hwrite : ∀ (lsn : Nat) {s : ServerState} {shard : Nat}, s.cursor = 0 → (∀ state, s.shards[shard]? = some state →
      state.queue = [deleted (lsn + 1)]) → Meets sampleLib everything s (.write shard) := by
    intro lsn s shard hcursor hqueue state record hstate hrecord _
    rw [hqueue state hstate] at hrecord
    cases hrecord
    rw [hcursor]
    exact Nat.succ_pos lsn
  have hstart : Reaches (fun s e t => step sampleLib everything s e = some t) (Meets sampleLib everything) (.initial 2)
      (.initial 2) := .refl _
  have hqueued := (hstart.take (e := ServerEvent.enqueue 0 (deleted 1)) rfl (by trivial)).take
    (e := ServerEvent.enqueue 1 (deleted 2)) rfl (by trivial)
  have hwritten := (hqueued.take (e := ServerEvent.write 0) rfl (hwrite 0 rfl (by rintro state ⟨⟩; rfl))).take
    (e := ServerEvent.write 1) rfl (hwrite 1 rfl (by rintro state ⟨⟩; rfl))
  have hread := ((hwritten.take (e := ServerEvent.call none) rfl (by trivial)).take (e := ServerEvent.read) rfl
    (by trivial)).take (e := ServerEvent.read) rfl (by trivial)
  refine hread.take (e := .answer) rfl ?_
  rintro pull ⟨⟩ record ⟨state, hstate, hrecord⟩ - - hunread
  refine absurd hrecord (hunread state.written ?_)
  rcases mem_cons.mp hstate with rfl | hstate
  · exact mem_cons_self
  · rw [mem_singleton.mp hstate]
    exact mem_cons_of_mem _ mem_cons_self

/-- The writer of the second shard is first: the client is past the first record when it is written.
-/
theorem pulled_skips_sample :
    ¬ ∀ s, Reaches (fun s e t => step sampleLib everything s e = some t) (fun _ _ => True)
    (.initial 2) s → Finished s → PulledOnce sampleLib everything s := by
  intro hall
  have hrun : run (step sampleLib everything) (fun _ _ => true) (.initial 2) [.enqueue 0 (deleted 1),
      .enqueue 1 (deleted 2), .write 1, .call none, .read, .read, .answer, .write 0, .call none, .read, .read,
      .answer] = some (twoShards [⟨[[], [deleted 2]], deletedPage [2] 2⟩,
        ⟨[[deleted 1], [deleted 2]], deletedPage [] 2⟩]) := rfl
  obtain ⟨chunks, hpages⟩ := hall _ (.of_run (fun _ _ _ => trivial) hrun) ⟨by simp [twoShards], _, rfl, rfl, rfl⟩
  have hmem := (hpages.mem (deleted 1)).mpr ⟨⟨_, mem_cons_self, mem_cons_self⟩, rfl⟩
  obtain ⟨chunk, hchunk, hmem⟩ := mem_flatten.mp hmem
  have hpage := hpages.events ▸ mem_map_of_mem hchunk
  have hevent : DeliveryEvent.recordDeleted "notes" "a" 1 1 "notes/a" none ∈
      chunk.flatMap (recordEvents sampleLib everything.filters) := mem_flatMap.mpr ⟨_, hmem, mem_cons_self⟩
  rcases mem_cons.mp hpage with hpage | hpage
  · rw [hpage] at hevent
    simp [deletedPage] at hevent
  · rw [mem_singleton.mp hpage] at hevent
    simp [deletedPage] at hevent

end NextDb.Api.SyncPull
