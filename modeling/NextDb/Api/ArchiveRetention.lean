import NextDb.Api.ObjectRefIndex
import NextDb.Api.Startup
import NextDb.Lib.LastWord

/-!
# Retention of the log archives

Compaction moves records from the log file of a shard to a file of the archive directory, and
`runWalArchiveRetention` removes the archive files whose records are all old enough. The chat
log, the record store and the schema file are left alone, and what startup and a rebuild make
of the log they make of the archives that are left.

* `archive_retention_keeps`: a call removes only files whose records are all before its bounds.
  In every run startup keeps the messages and records, unless a rebuild has dropped them. It
  keeps the users, the schema, the reminders and the references, and a rebuild keeps the
  messages and records, as long as the records removed are not the last word about any of them.
-/

namespace NextDb.Api.ArchiveRetention

open List Std.ExtTreeMap

open Converge (ActorReminderEntry ActorReminderWheel UserProjectionState actorIdFromWalParts
  actorReminderEntryFromDraft)
open LastWord (Leaves KeepsEvery KeepsLast Lasting lasting_keepsEvery lasting_keepsLast)
open ObjectRefIndex (PathsNamed)
open Records Run Startup Wal

/-! ## The call -/

structure WalArchiveRetentionQuery where
  dryRun : Option Bool
  beforeLsn : Option Nat
  beforeTimestampMs : Option Nat

structure WalArchiveRetentionFileReport where
  path : String
  shard : Nat
  records : Nat
  minLsn : Option Nat
  maxLsn : Option Nat
  minTimestampMs : Option Nat
  maxTimestampMs : Option Nat
  action : String
  reason : Option String

structure WalArchiveRetentionResponse where
  dryRun : Bool
  beforeLsn : Option Nat
  beforeTimestampMs : Option Nat
  candidates : Nat
  deleted : Nat
  retained : Nat
  reports : List WalArchiveRetentionFileReport

/-- The archive directory, as what reading each file answers. -/
abbrev Archive := BTreeMap String (Result (List WalRecord))

/-- `wal_archive_paths`. -/
def walArchivePaths (archive : Archive) : List (String × Result (List WalRecord)) :=
  archive.toList.filter fun file => isJsonl file.1

def retainReason (query : WalArchiveRetentionQuery) (records : List WalRecord) : Option String :=
  let maxLsn := (records.map (·.lsn)).max?
  let maxTimestampMs := (records.map (·.timestampMs)).max?
  let retainReason :=
    if records.isEmpty then some "archive file has no records"
    else query.beforeLsn.bind fun beforeLsn =>
      if maxLsn.any (beforeLsn ≤ ·) then some s!"max LSN is not before {beforeLsn}" else none
  retainReason <|> query.beforeTimestampMs.bind fun beforeTimestampMs =>
    if maxTimestampMs.any (beforeTimestampMs ≤ ·) then some s!"max timestamp is not before {beforeTimestampMs}"
    else none

def fileReport (path : String) (shard : Nat) (records : List WalRecord) (action : String)
    (reason : Option String) : WalArchiveRetentionFileReport where
  path := path
  shard := shard
  records := records.length
  minLsn := (records.map (·.lsn)).min?
  maxLsn := (records.map (·.lsn)).max?
  minTimestampMs := (records.map (·.timestampMs)).min?
  maxTimestampMs := (records.map (·.timestampMs)).max?
  action := action
  reason := reason

/-- What the loop over the archive files has done. -/
structure RetentionLoop where
  archive : Archive
  /-- The directory after each removal. -/
  removals : List Archive
  candidates : Nat
  deleted : Nat
  retained : Nat
  reports : List WalArchiveRetentionFileReport

def RetentionLoop.retain (self : RetentionLoop) (report : WalArchiveRetentionFileReport) :
    RetentionLoop :=
  { self with retained := self.retained + 1, reports := self.reports ++ [report] }

def retainFile (query : WalArchiveRetentionQuery) (shard : Nat) (self : RetentionLoop)
    (file : String × Result (List WalRecord)) : RetentionLoop :=
  match file.2 with
  | .error err => self.retain
      (fileReport file.1 shard [] "retain" (some s!"failed to read archive file: {err.chain}"))
  | .ok records =>
    match retainReason query records with
    | some reason => self.retain (fileReport file.1 shard records "retain" (some reason))
    | none =>
      if query.dryRun.getD true then
        { self with
          candidates := self.candidates + 1
          reports := self.reports ++ [fileReport file.1 shard records "delete" none] }
      else
        { archive := self.archive.erase file.1
          removals := self.removals ++ [self.archive.erase file.1]
          candidates := self.candidates + 1
          deleted := self.deleted + 1
          retained := self.retained
          reports := self.reports ++ [fileReport file.1 shard records "deleted" none] }

/-- The shards have one archive directory, which is listed again for each. -/
def retainShard (query : WalArchiveRetentionQuery) (self : RetentionLoop) (shard : Nat) :
    RetentionLoop :=
  (walArchivePaths self.archive).foldl (retainFile query shard) self

/-- The directory after each removal, and the response. A removal that fails ends the call. -/
def runWalArchiveRetention (archive : Archive) (walShards : Nat)
    (query : WalArchiveRetentionQuery) :
    List Archive × Result WalArchiveRetentionResponse :=
  if query.beforeLsn.isNone && query.beforeTimestampMs.isNone then
    ([], bail "provide beforeLsn or beforeTimestampMs for WAL archive retention")
  else
    let loop := (List.range walShards).foldl (retainShard query) ⟨archive, [], 0, 0, 0, []⟩
    (loop.removals, .ok ⟨query.dryRun.getD true, query.beforeLsn, query.beforeTimestampMs, loop.candidates,
      loop.deleted, loop.retained, loop.reports⟩)

/-! ## What it removes -/

/-- Every record is before the bounds. -/
structure Before (query : WalArchiveRetentionQuery) (records : List WalRecord) : Prop where
  lsn : ∀ beforeLsn, query.beforeLsn = some beforeLsn → ∀ r ∈ records, r.lsn < beforeLsn
  timestampMs : ∀ beforeTimestampMs, query.beforeTimestampMs = some beforeTimestampMs →
    ∀ r ∈ records, r.timestampMs < beforeTimestampMs

/-- What is left of a directory after removals that the query allows. -/
structure Trimmed (query : WalArchiveRetentionQuery) (archive left : Archive) : Prop where
  kept : ∀ {name : String} {file : Result (List WalRecord)}, left[name]? = some file → archive[name]? = some file
  removed : ∀ {name : String} {file : Result (List WalRecord)}, archive[name]? = some file → left[name]? = none →
    query.dryRun = some false ∧ isJsonl name ∧ ∃ records, file = .ok records ∧ records ≠ [] ∧ Before query records

theorem Trimmed.refl (query : WalArchiveRetentionQuery) (archive : Archive) :
    Trimmed query archive archive where
  kept h := h
  removed h h' := by rw [h] at h'; cases h'

variable {query : WalArchiveRetentionQuery} {archive left : Archive} {records file : List WalRecord}
  {loop : RetentionLoop} {shard : Nat} {wheel : ActorReminderWheel}

theorem Trimmed.trans {left' : Archive} (h : Trimmed query archive left)
    (h' : Trimmed query left left') :
    Trimmed query archive left' where
  kept hname := h.kept (h'.kept hname)
  removed {name file} hname hgone := by
    cases hleft : left[name]? with
    | none => exact h.removed hname hleft
    | some file' =>
      cases (h.kept hleft).symm.trans hname
      exact h'.removed hleft hgone

theorem before_of_max {values : List Nat} {bound : Nat} (h : ¬ values.max?.any (bound ≤ ·)) :
    ∀ v ∈ values, v < bound := by
  intro v hv
  cases hmax : values.max? with
  | none => simp [max?_eq_none_iff.mp hmax] at hv
  | some top =>
    have hle := (max?_eq_some_iff.mp hmax).2 v hv
    rw [hmax] at h
    simp only [Option.any_some, decide_eq_true_eq] at h
    omega

theorem before_of_retainReason (h : retainReason query records = none) :
    records ≠ [] ∧ Before query records := by
  unfold retainReason at h
  obtain ⟨hlsn, htimestamp⟩ := Option.or_eq_none_iff.mp ((Option.orElse_eq_or ..).symm.trans h)
  have hne : records.isEmpty = false := by
    cases hempty : records.isEmpty with
    | false => rfl
    | true =>
      rw [if_pos hempty] at hlsn
      cases hlsn
  rw [if_neg (by simp [hne])] at hlsn
  refine ⟨by simpa using hne, fun beforeLsn hbefore r hr => ?_, fun beforeTimestampMs hbefore r hr => ?_⟩
  · rw [hbefore, Option.bind_some] at hlsn
    refine before_of_max (fun hany => ?_) _ (mem_map_of_mem hr)
    rw [if_pos hany] at hlsn
    cases hlsn
  · rw [hbefore, Option.bind_some] at htimestamp
    refine before_of_max (fun hany => ?_) _ (mem_map_of_mem hr)
    rw [if_pos hany] at htimestamp
    cases htimestamp

/-- What the loop has left so far. -/
structure LoopInv (query : WalArchiveRetentionQuery) (archive : Archive) (loop : RetentionLoop) :
    Prop where
  left : Trimmed query archive loop.archive
  removals : ∀ left ∈ loop.removals, Trimmed query archive left

theorem LoopInv.retainFile (h : LoopInv query archive loop) (shard : Nat)
    {file : String × Result (List WalRecord)}
    (hjsonl : isJsonl file.1 = true)
    (hfile : ∀ file', loop.archive[file.1]? = some file' → file' = file.2) :
    LoopInv query archive (retainFile query shard loop file) := by
  unfold ArchiveRetention.retainFile
  split
  · exact ⟨h.left, h.removals⟩
  · next records hrecords =>
    split
    · exact ⟨h.left, h.removals⟩
    · next hreason =>
      split
      · exact ⟨h.left, h.removals⟩
      · next hdry =>
        have hleft : Trimmed query archive (loop.archive.erase file.1) := by
          refine h.left.trans ⟨fun {name file'} hname => ?_, fun {name file'} hname hgone => ?_⟩
          · rw [getElem?_erase] at hname
            split at hname
            · cases hname
            · exact hname
          · rw [getElem?_erase] at hgone
            split at hgone
            · next he =>
              have he := Std.LawfulEqCmp.eq_of_compare he
              subst he
              refine ⟨?_, hjsonl, records, (hfile file' hname).trans hrecords, before_of_retainReason hreason⟩
              cases hrun : query.dryRun with
              | none => simp [hrun] at hdry
              | some dryRun =>
                cases dryRun with
                | false => rfl
                | true => simp [hrun] at hdry
            · rw [hname] at hgone
              cases hgone
        refine ⟨hleft, fun left hin => ?_⟩
        rcases mem_append.mp hin with hin | hin
        · exact h.removals left hin
        · rw [mem_singleton.mp hin]
          exact hleft

variable {name : String} {active : List (List WalRecord)} {uptoLsn nowMs : Nat} {r : WalRecord}

theorem retainFile_kept {file : String × Result (List WalRecord)} {file' : Result (List WalRecord)}
    (h : (retainFile query shard loop file).archive[name]? = some file') :
    loop.archive[name]? = some file' := by
  unfold retainFile at h
  split at h
  · exact h
  · split at h
    · exact h
    · split at h
      · exact h
      · rw [getElem?_erase] at h
        split at h
        · cases h
        · exact h

theorem LoopInv.retainShard (h : LoopInv query archive loop) (shard : Nat) :
    LoopInv query archive (retainShard query loop shard) := by
  unfold ArchiveRetention.retainShard
  have hall : ∀ file ∈ walArchivePaths loop.archive, isJsonl file.1 = true ∧
      ∀ file', loop.archive[file.1]? = some file' → file' = file.2 := by
    intro file hfile
    obtain ⟨hmem, hjsonl⟩ := mem_filter.mp hfile
    refine ⟨hjsonl, fun file' hfile' => ?_⟩
    have := mem_toList_iff_getElem?_eq_some.mp (show (file.1, file.2) ∈ _ from hmem)
    exact Option.some.inj (hfile'.symm.trans this)
  generalize walArchivePaths loop.archive = files at hall
  induction files generalizing loop with
  | nil => exact h
  | cons file files ih =>
    obtain ⟨hfile, hrest⟩ := forall_mem_cons.mp hall
    refine ih (h.retainFile shard hfile.1 hfile.2) fun other hother => ?_
    exact ⟨(hrest other hother).1, fun file' hfile' => (hrest other hother).2 file' (retainFile_kept hfile')⟩

theorem runWalArchiveRetention_trimmed {walShards : Nat}
    (h : left ∈ (runWalArchiveRetention archive walShards query).1) :
    Trimmed query archive left := by
  unfold runWalArchiveRetention at h
  split at h
  · cases h
  · have hloop : LoopInv query archive ((range walShards).foldl (retainShard query) ⟨archive, [], 0, 0, 0, []⟩) := by
      generalize range walShards = shards
      have hstart : LoopInv query archive ⟨archive, [], 0, 0, 0, []⟩ := ⟨.refl query archive,
          nofun⟩
      generalize (⟨archive, [], 0, 0, 0, []⟩ : RetentionLoop) = loop at hstart
      induction shards generalizing loop with
      | nil => exact hstart
      | cons shard shards ih => exact ih _ (hstart.retainShard shard)
    exact hloop.removals left h

/-! ## What a record tells -/

def pathTells (path : String) (r : WalRecord) : Option (Option DbRecord) :=
  (walMutationAt path r).map (mutationLeaves r.lsn)

def userTells (userId : String) (r : WalRecord) : Option (Option UserProfile) :=
  match r.payload with
  | .userUpserted user => if user.userId = userId then some (some (user.intoProfile r.lsn)) else none
  | _ => none

/-- What an entry of the wheel is found by. -/
def reminderKey (entry : ActorReminderEntry) : Actor.ActorId × String :=
  (entry.actorId, entry.reminderId)

def reminderTells (key : Actor.ActorId × String) (r : WalRecord) :
    Option (Option ActorReminderEntry) :=
  match r.payload with
  | .actorReminderScheduled reminder => (actorReminderEntryFromDraft reminder).bind fun entry =>
    if reminderKey entry = key then some (some entry) else none
  | .actorReminderCancelled actorKind actorKey reminderId _
  | .actorReminderFired actorKind actorKey reminderId _ _ =>
    (actorIdFromWalParts actorKind actorKey).bind fun actorId =>
      if (actorId, reminderId) = key then some none else none
  | _ => none

def schemaTells (r : WalRecord) : Option (Option (Nat × DatabaseSchema)) :=
  match r.payload with
  | .schemaApplied schema _ => some (some (r.lsn, schema))
  | _ => none

theorem live_iff_leaves {log : WalRecord → Prop} {path : String} {record : DbRecord} :
    Live log path record ↔ Leaves (·.lsn) (pathTells path) log record := by
  have hsome : ∀ r, (pathTells path r).isSome = (walMutationAt path r).isSome := fun r => by
    rw [pathTells, Option.isSome_map]
  constructor
  · rintro ⟨r, mutation, hnewest, hmutation, hleaves⟩
    refine ⟨r, ⟨hnewest.mem, (hsome r).trans hnewest.changes, fun r' hr' h => ?_⟩, ?_⟩
    · exact hnewest.newest r' hr' ((hsome r').symm.trans h)
    · rw [pathTells, hmutation, Option.map_some, hleaves]
  · rintro ⟨r, hlast, htells⟩
    obtain ⟨mutation, hmutation, hleaves⟩ := Option.map_eq_some_iff.mp htells
    refine ⟨r, mutation, ⟨hlast.mem, (hsome r).symm.trans hlast.about, fun r' hr' h => ?_⟩, hmutation, hleaves⟩
    exact hlast.last r' hr' ((hsome r').trans h)

theorem getElem?_profiles (records : List WalRecord) (userId : String) :
    (usersFromWalRecords records).profiles[userId]? = LastWord.read (userTells userId) records := by
  induction records using reverseRecOn with
  | nil => simp [usersFromWalRecords, LastWord.read]
  | append_singleton records r ih =>
    rw [LastWord.read_concat, ← ih, usersFromWalRecords, foldl_append, foldl_cons, foldl_nil]
    show (UserProjectionState.applyWalRecord (usersFromWalRecords records) r).profiles[userId]? = _
    unfold UserProjectionState.applyWalRecord userTells
    cases r.payload with
    | userUpserted user =>
      show (insert _ _ _)[userId]? = (if user.userId = userId then _ else _ : Option (Option UserProfile)).getD _
      rw [Std.ExtTreeMap.getElem?_insert, apply_ite (Option.getD · _)]
      exact if_congr compare_eq_iff_eq rfl rfl
    | _ => rfl

/-- The wheel has one entry for each reminder. -/
def OneEach (wheel : ActorReminderWheel) : Prop := (wheel.map reminderKey).Nodup

theorem mem_remove (h : OneEach wheel) (actorId : Actor.ActorId) (reminderId : String)
    (entry : ActorReminderEntry) :
    entry ∈ ActorReminderWheel.remove wheel actorId reminderId ↔ entry ∈ wheel ∧
    reminderKey entry ≠ (actorId, reminderId) := by
  unfold ActorReminderWheel.remove
  have hkey : ∀ e : ActorReminderEntry,
      (fun entry : ActorReminderEntry => entry.actorId == actorId && entry.reminderId == reminderId) e = true ↔
        reminderKey e = (actorId, reminderId) := by
    intro e
    simp [reminderKey]
  generalize (fun entry : ActorReminderEntry => entry.actorId == actorId && entry.reminderId == reminderId) =
      same at hkey ⊢
  induction wheel with
  | nil => simp
  | cons e wheel ih =>
    obtain ⟨hnot, hrest⟩ := nodup_cons.mp (show (reminderKey e :: wheel.map reminderKey).Nodup from h)
    by_cases he : reminderKey e = (actorId, reminderId)
    · rw [eraseP_cons_of_pos ((hkey e).mpr he)]
      constructor
      · intro hmem
        refine ⟨mem_cons_of_mem _ hmem, fun heq => hnot ?_⟩
        rw [he, ← heq]
        exact mem_map_of_mem hmem
      · rintro ⟨hmem, hne⟩
        rcases mem_cons.mp hmem with rfl | hmem
        · exact absurd he hne
        · exact hmem
    · rw [eraseP_cons_of_neg (fun hc => he ((hkey e).mp hc)), mem_cons, mem_cons]
      constructor
      · rintro (rfl | hmem)
        · exact ⟨.inl rfl, he⟩
        · exact ((ih hrest).mp hmem).imp_left .inr
      · rintro ⟨rfl | hmem, hne⟩
        · exact .inl rfl
        · exact .inr ((ih hrest).mpr ⟨hmem, hne⟩)

theorem OneEach.remove (h : OneEach wheel) (actorId : Actor.ActorId) (reminderId : String) :
    OneEach (ActorReminderWheel.remove wheel actorId reminderId) :=
  h.sublist ((eraseP_sublist ..).map _)

theorem mem_upsert (h : OneEach wheel) (entry other : ActorReminderEntry) :
    other ∈ ActorReminderWheel.upsert wheel
    entry ↔ if reminderKey entry = reminderKey other then other = entry else other ∈ wheel := by
  unfold ActorReminderWheel.upsert
  rw [mem_orderedInsert, mem_remove h]
  split
  · next he => exact or_iff_left fun hmem => hmem.2 he.symm
  · next he =>
    constructor
    · rintro (rfl | hmem)
      · exact absurd rfl he
      · exact hmem.1
    · exact fun hmem => .inr ⟨hmem, fun heq => he heq.symm⟩

theorem OneEach.upsert (h : OneEach wheel) (entry : ActorReminderEntry) :
    OneEach (ActorReminderWheel.upsert wheel entry) := by
  unfold OneEach ActorReminderWheel.upsert
  refine ((perm_orderedInsert ..).map reminderKey).nodup_iff.mpr ?_
  refine nodup_cons.mpr ⟨fun hmem => ?_, h.remove ..⟩
  obtain ⟨other, hother, heq⟩ := mem_map.mp hmem
  exact ((mem_remove h ..).mp hother).2 heq

theorem oneEach_applyReminderRecord (h : OneEach wheel) (r : WalRecord) :
    OneEach (applyReminderRecord wheel r) ∧ ∀ entry, entry ∈ applyReminderRecord wheel r ↔
    (reminderTells (reminderKey entry) r).elim (entry ∈ wheel) (· = some entry) := by
  have hremove : ∀ (actorKind actorKey reminderId : String),
      OneEach ((actorIdFromWalParts actorKind actorKey).elim wheel fun actorId => wheel.remove actorId reminderId) ∧
      ∀ entry, entry ∈ ((actorIdFromWalParts actorKind actorKey).elim wheel fun actorId => wheel.remove actorId
          reminderId) ↔
        ((actorIdFromWalParts actorKind actorKey).bind fun actorId =>
          if (actorId, reminderId) = reminderKey entry then some (none : Option ActorReminderEntry) else none).elim
            (entry ∈ wheel) (· = some entry) := by
    intro actorKind actorKey reminderId
    cases actorIdFromWalParts actorKind actorKey with
    | none => exact ⟨h, fun entry => .rfl⟩
    | some actorId =>
      refine ⟨h.remove .., fun entry => (mem_remove h ..).trans ?_⟩
      rw [Option.bind_some]
      split
      · next he => exact iff_of_false (fun hmem => hmem.2 he.symm) nofun
      · next he => exact and_iff_left fun heq => he heq.symm
  unfold applyReminderRecord reminderTells
  cases r.payload with
  | actorReminderScheduled reminder =>
    dsimp only
    cases actorReminderEntryFromDraft reminder with
    | none => exact ⟨h, fun entry => .rfl⟩
    | some new =>
      refine ⟨h.upsert new, fun entry => (mem_upsert h new entry).trans ?_⟩
      rw [Option.bind_some]
      split
      · exact ⟨fun heq => congrArg some heq.symm, fun heq => (Option.some.inj heq).symm⟩
      · exact .rfl
  | actorReminderCancelled actorKind actorKey reminderId | actorReminderFired actorKind actorKey reminderId =>
    exact hremove actorKind actorKey reminderId
  | _ => exact ⟨h, fun entry => .rfl⟩

theorem oneEach_reminders (records : List WalRecord) :
    OneEach (records.foldl applyReminderRecord []) ∧ ∀ entry, entry ∈
    records.foldl applyReminderRecord [] ↔
    LastWord.read (reminderTells (reminderKey entry)) records = some entry := by
  induction records using reverseRecOn with
  | nil => exact ⟨nodup_nil, fun entry => by simp [LastWord.read]⟩
  | append_singleton records r ih =>
    rw [foldl_append, foldl_cons, foldl_nil]
    obtain ⟨hone, hmem⟩ := oneEach_applyReminderRecord ih.1 r
    refine ⟨hone, fun entry => (hmem entry).trans ?_⟩
    rw [LastWord.read_concat]
    cases reminderTells (reminderKey entry) r with
    | none => exact ih.2 entry
    | some left => exact .rfl

theorem mem_actorReminders (hasc : records.Pairwise fun a b => a.lsn < b.lsn)
    (entry : ActorReminderEntry) : entry ∈
    actorRemindersFromWalRecords records ↔
    LastWord.read (reminderTells (reminderKey entry)) records = some entry := by
  rw [actorRemindersFromWalRecords, orderedByLsn_of_ascending hasc]
  exact (oneEach_reminders records).2 entry

theorem appliedSchemas_read (hasc : records.Pairwise fun a b => a.lsn < b.lsn)
    {found : AppliedSchemas}
    (h : appliedSchemas records = .ok found) :
    found.latest = LastWord.read schemaTells records := by
  induction records using reverseRecOn generalizing found with
  | nil =>
    cases h
    rfl
  | append_singleton records r ih =>
    obtain ⟨hrecords, -, hlt⟩ := pairwise_append.mp hasc
    rw [appliedSchemas, foldlM_append] at h
    obtain ⟨before, hbefore, h⟩ := bind_eq_ok.mp h
    simp only [foldlM_cons, foldlM_nil, bind_pure] at h
    rw [LastWord.read_concat, ← ih hrecords hbefore]
    unfold noteSchemaApplied at h
    split at h
    · next schema migration hpayload =>
      have htells : schemaTells r = some (some (r.lsn, schema)) := by rw [schemaTells, hpayload]
      obtain ⟨_, -, h⟩ := bind_eq_ok.mp h
      rw [htells, Option.getD_some, ← Except.ok.inj h]
      refine if_pos ?_
      cases hlatest : before.latest with
      | none => rfl
      | some latest =>
        obtain ⟨other, hmem, he⟩ := appliedSchemas_latest hbefore hlatest
        have := hlt other hmem r (mem_singleton_self r)
        simp [← he, this]
    · next hother =>
      have htells : schemaTells r = none := by
        unfold schemaTells
        split
        · next schema migration hpayload => exact absurd hpayload (hother schema migration)
        · rfl
      rw [htells, Option.getD_none, ← Except.ok.inj h]

/-! ## The server -/

/-- The log of a node with its archives, and what is rebuilt from it. -/
structure ServerState where
  /-- The log file of each shard. -/
  active : List (List WalRecord)
  archive : Archive
  registry : SchemaRegistry
  chatLog : List Message
  /-- The record store has its marker. -/
  bootstrapped : Bool
  recordStore : BTreeMap String DbRecord
  /-- Every record that was ever written. -/
  appended : List WalRecord

/-- The projections that are only in memory. -/
structure StartupProjections where
  users : UserProjectionState
  reminders : ActorReminderWheel
  refs : RefState

def ServerState.readRecordsFromWalPaths (self : ServerState) : Result (List WalRecord) := do
  let files ← (walArchivePaths self.archive).mapM Prod.snd
  .ok (Wal.readRecordsFromWalPaths (self.active.map fun active => (files.flatten, active)))

/-- The stores once a record is written. -/
def ServerState.apply (self : ServerState) (r : WalRecord) : ServerState :=
  { self with
    registry :=
      match r.payload with
      | .schemaApplied schema _ => ((self.registry.persistHistorySchema schema).persistSchema schema).apply schema
      | _ => self.registry
    chatLog := self.chatLog ++ (messageOf r).toList
    bootstrapped := self.bootstrapped || !(recordMutations r.payload).isEmpty
    recordStore := applyWalRecord self.recordStore r
    appended := self.appended ++ [r] }

/-- `main`. The chat log has its marker since the first start. -/
def restart (defaultNextdb : DatabaseSchema) (self : ServerState) :
    Result (ServerState × StartupProjections) := do
  let records ← self.readRecordsFromWalPaths
  let (registry, _) ←
    recoverSchemaFromWal (SchemaRegistry.load defaultNextdb self.registry.file self.registry.history) records
  let seed := startupProjectionSeed records
  let rebuild := !self.bootstrapped && !seed.records.isEmpty
  let refs ← RefState.fromMessagesAndRecordsForSchema seed.messages seed.records registry.schema
  return ({ self with
      registry
      bootstrapped := self.bootstrapped || rebuild
      recordStore := if rebuild then recordsByPath records else self.recordStore },
    ⟨seed.users, actorRemindersFromWalRecords records, refs⟩)

/-- What `rebuild_projections_internal` builds from the log, one after the other. -/
inductive Rebuild where
  | chatLog
  | records

def ServerState.rebuild (self : ServerState) (records : List WalRecord) : Rebuild → ServerState
  | .chatLog => { self with chatLog := messagesFromWalRecords records }
  | .records => { self with bootstrapped := true, recordStore := recordsByPath records }

/-- What happens to the log, the archives and the derived stores. -/
inductive RetentionEvent where
  | write (shard : Nat) (r : WalRecord)
  | compact (shard uptoLsn nowMs : Nat)
  | retain (query : WalArchiveRetentionQuery) (left : Archive)
  | restart
  | rebuild (what : Rebuild)

/-- A record is written with a new LSN; the log file of a shard is compacted up to any LSN, and
the compaction may stop once it has written the archive; a call removes archives, and may stop
behind any removal; the server restarts, or rebuilds a projection. A snapshot changes none of
this but the LSN that compaction goes up to. -/
inductive RetentionStep (walName : Nat → String) (defaultNextdb : DatabaseSchema) :
    ServerState → RetentionEvent → ServerState → Prop
  | write {s : ServerState} {shard file r}
      (hfile : s.active[shard]? = some file) (hlsn : ∀ r' ∈ s.appended,
      r'.lsn < r.lsn) (hnamed : PathsNamed r)
      (hvalid : SchemasValid [r]) :
      RetentionStep walName defaultNextdb s (.write shard r)
        (ServerState.apply { s with active := s.active.set shard (file ++ [r]) } r)
  | archive {s : ServerState} {shard uptoLsn nowMs} {file : List WalRecord}
      (hfile : s.active[shard]? = some file) (hsome : file.filter (fun r => r.lsn ≤ uptoLsn) ≠ []) :
      RetentionStep walName defaultNextdb s (.compact shard uptoLsn nowMs)
        { s with
          archive := s.archive.insert (archiveName (walName shard) uptoLsn nowMs)
            (.ok (file.filter fun r => r.lsn ≤ uptoLsn)) }
  | compact {s : ServerState} {shard uptoLsn nowMs} {file : List WalRecord}
      (hfile : s.active[shard]? = some file) (hsome : file.filter (fun r => r.lsn ≤ uptoLsn) ≠ []) :
      RetentionStep walName defaultNextdb s (.compact shard uptoLsn nowMs)
        { s with
          archive := s.archive.insert (archiveName (walName shard) uptoLsn nowMs)
            (.ok (file.filter fun r => r.lsn ≤ uptoLsn))
          active := s.active.set shard (file.filter fun r => uptoLsn < r.lsn) }
  | retain {s query left}
      (hleft : left ∈ (runWalArchiveRetention s.archive s.active.length query).1) :
      RetentionStep walName defaultNextdb s (.retain query left) { s with archive := left }
  | restart {s t projections}
      (hrestart : restart defaultNextdb s = .ok (t, projections)) :
      RetentionStep walName defaultNextdb s .restart t
  | rebuild {s : ServerState} {records what}
      (hrecords : s.readRecordsFromWalPaths = .ok records) :
      RetentionStep walName defaultNextdb s (.rebuild what) (s.rebuild records what)

/-- The log has the record. -/
def ServerState.Logged (self : ServerState) (r : WalRecord) : Prop :=
  (∃ file ∈ self.active, r ∈ file) ∨
    ∃ (name : String) (records : List WalRecord), self.archive[name]? = some (.ok records) ∧ r ∈ records

/-- A relation of the log to what a removal leaves of it. -/
abbrev Keeps := (WalRecord → Prop) → (WalRecord → Prop) → Prop

/-- Compactions give their archives new names, and what is removed meets a condition. -/
def Removing (walName : Nat → String) (keeps : Keeps) (rebuilds : Prop) (s : ServerState) :
    RetentionEvent → Prop
  | .compact shard uptoLsn nowMs => s.archive[archiveName (walName shard) uptoLsn nowMs]? = none
  | .retain _ left => keeps s.Logged { s with archive := left }.Logged
  | .rebuild _ => rebuilds
  | .write .. | .restart => True

def KeepsMessages : Keeps := KeepsEvery fun r => (messageOf r).isSome

/-- The last change of each path stays, unless it is a deletion and every change of the path goes.
-/
def KeepsRecords : Keeps := fun log kept =>
  ∀ path, KeepsLast (·.lsn) (pathTells path) (pathTells path · = some none) log kept

def KeepsUsers : Keeps := fun log kept =>
  ∀ userId, KeepsLast (·.lsn) (userTells userId) (userTells userId · = some none) log kept

def KeepsReminders : Keeps := fun log kept =>
  ∀ key, KeepsLast (·.lsn) (reminderTells key) (reminderTells key · = some none) log kept

/-- The last `SchemaApplied` stays, or all of them go: then the schema file decides. -/
def KeepsSchema : Keeps := KeepsLast (·.lsn) schemaTells fun _ => True

/-- What one condition asks for, another does. -/
def Demands (keeps keeps' : Keeps) : Prop := ∀ log kept, keeps log kept → keeps' log kept

/-- A node without records. -/
structure Fresh (s : ServerState) : Prop where
  shards : s.active ≠ []
  active : ∀ file ∈ s.active, file = []
  archive : s.archive = ∅
  file : s.registry.file = some s.registry.schema
  chatLog : s.chatLog = []
  bootstrapped : s.bootstrapped = false
  recordStore : s.recordStore = ∅
  appended : s.appended = []

/-! ## The invariant -/

variable {walName : Nat → String} {defaultNextdb : DatabaseSchema} {keeps : Keeps} {rebuilds : Prop}

/-- What is left in the log is enough for what is to be kept, and the stores have what the log says.
-/
structure Inv (keeps : Keeps) (rebuilds : Prop) (s : ServerState) : Prop where
  shards : s.active ≠ []
  archive : ∀ (name : String) file, s.archive[name]? = some file → isJsonl name = true ∧ ∃ records, file = .ok records
  logged : ∀ r, s.Logged r → r ∈ s.appended
  ascending : s.appended.Pairwise fun a b => a.lsn < b.lsn
  named : ∀ r ∈ s.appended, PathsNamed r
  valid : SchemasValid s.appended
  kept : ∀ keeps', Lasting (·.lsn) keeps' → Demands keeps keeps' → keeps' (· ∈ s.appended) s.Logged
  chatLog : (rebuilds → Demands keeps KeepsMessages) → ∀ message, message ∈ s.chatLog ↔
    message ∈ messagesFromWalRecords s.appended
  recordStore : (rebuilds → Demands keeps KeepsRecords) → s.recordStore = recordsByPath s.appended
  bootstrapped : s.bootstrapped = false → ∀ r ∈ s.appended, recordMutations r.payload = []
  file : s.registry.file = some s.registry.schema
  schema : Demands keeps KeepsSchema → ∀ lsn schema, LastWord.read schemaTells s.appended = some (lsn, schema) →
    s.registry.schema = schema

variable {s t : ServerState}

theorem Fresh.inv (h : Fresh s) : Inv keeps rebuilds s := by
  have hnot : ∀ r, ¬ s.Logged r := by
    rintro r (⟨file, hfile, hr⟩ | ⟨name, records, hname, -⟩)
    · rw [h.active file hfile] at hr
      cases hr
    · simp [h.archive] at hname
  have hnone : (· ∈ s.appended) = s.Logged := by
    funext r
    simp [h.appended, hnot r]
  exact {
    shards := h.shards
    archive := fun name file hname => (by simp [h.archive] at hname)
    logged := fun r hr => absurd hr (hnot r)
    ascending := by rw [h.appended]; exact .nil
    named := by simp [h.appended]
    valid := by simp [h.appended, SchemasValid]
    kept := fun keeps' hlasting _ => by
      rw [hnone]
      exact hlasting.refl _
    chatLog := fun _ message => by simp [h.chatLog, h.appended, messagesFromWalRecords]
    recordStore := fun _ => by rw [h.recordStore, h.appended]; rfl
    bootstrapped := by simp [h.appended]
    file := h.file
    schema := fun _ lsn schema hread => by
      rw [h.appended] at hread
      cases hread }

theorem mem_set_iff {files : List (List WalRecord)}
    {shard : Nat} {file file' : List WalRecord} (h : files[shard]? = some file) (r : WalRecord) :
    (∃ f ∈ files.set shard file', r ∈ f) ∨ r ∈ file ↔ (∃ f ∈ files, r ∈ f) ∨ r ∈ file' := by
  have hfile' : file' ∈ files.set shard file' := mem_of_getElem? (getElem?_set_self_of h)
  constructor
  · rintro (⟨f, hf, hr⟩ | hr)
    · rcases mem_or_eq_of_mem_set hf with hf | rfl
      · exact .inl ⟨f, hf, hr⟩
      · exact .inr hr
    · exact .inl ⟨file, mem_of_getElem? h, hr⟩
  · rintro (⟨f, hf, hr⟩ | hr)
    · obtain ⟨j, hj⟩ := mem_iff_getElem?.mp hf
      by_cases hij : shard = j
      · subst hij
        cases h.symm.trans hj
        exact .inr hr
      · exact .inl ⟨f, mem_of_getElem? ((getElem?_set_ne hij).trans hj), hr⟩
    · exact .inl ⟨file', hfile', hr⟩

theorem Inv.read {s : ServerState} (h : Inv keeps rebuilds s) :
    ∃ records, s.readRecordsFromWalPaths = .ok records ∧
    records.Pairwise (fun a b => a.lsn < b.lsn) ∧ (· ∈ records) = s.Logged := by
  have hmem : ∀ file, file ∈ walArchivePaths s.archive ↔ s.archive[file.1]? = some file.2 := by
    intro file
    rw [walArchivePaths, mem_filter, mem_toList_iff_getElem?_eq_some]
    exact and_iff_left_of_imp fun hfile => (h.archive _ _ hfile).1
  obtain ⟨files, hfiles⟩ := @mapM_ok_of_forall _ _ _ Prod.snd (walArchivePaths s.archive) fun file hfile =>
    (h.archive _ _ ((hmem file).mp hfile)).2
  have hflatten : ∀ r, r ∈ files.flatten ↔ ∃ (name : String) (records : List WalRecord),
      s.archive[name]? = some (.ok records) ∧ r ∈ records := by
    intro r
    rw [mem_flatten]
    constructor
    · rintro ⟨records, hrecords, hr⟩
      obtain ⟨file, hfile, hread⟩ := mem_of_mapM_ok hfiles hrecords
      exact ⟨file.1, records, by rw [(hmem file).mp hfile, hread], hr⟩
    · rintro ⟨name, records, hname, hr⟩
      obtain ⟨records', hmem', hread'⟩ := mem_mapM_of_mem hfiles ((hmem (name, .ok records)).mpr hname)
      cases hread'
      exact ⟨records, hmem', hr⟩
  have hlogged : ∀ r, (∃ file ∈ s.active.map fun active => (files.flatten, active), r ∈ file.1 ++ file.2) ↔
      s.Logged r := by
    intro r
    simp only [mem_map, exists_exists_and_eq_and, mem_append, hflatten, ServerState.Logged]
    constructor
    · rintro ⟨file, hfile, hr | hr⟩
      · exact .inr hr
      · exact .inl ⟨file, hfile, hr⟩
    · rintro (⟨file, hfile, hr⟩ | hr)
      · exact ⟨file, hfile, .inr hr⟩
      · obtain ⟨file, hfile⟩ := exists_mem_of_ne_nil _ h.shards
        exact ⟨file, hfile, .inl hr⟩
  refine ⟨_, by rw [ServerState.readRecordsFromWalPaths, hfiles]; rfl, readRecordsFromWalPaths_ascending _, ?_⟩
  funext r
  refine propext ((mem_readRecordsFromWalPaths fun file hfile file' hfile' r hr r' hr' heq => ?_).trans (hlogged r))
  have hin : ∀ {r file}, file ∈ s.active.map (fun active => (files.flatten, active)) → r ∈ file.1 ++ file.2 →
      r ∈ s.appended := fun hfile hr => h.logged _ ((hlogged _).mp ⟨_, hfile, hr⟩)
  exact ObjectRefIndex.eq_of_ascending h.ascending (hin hfile hr) (hin hfile' hr') heq

/-- The log changes, and the stores do not. -/
theorem Inv.relog (h : Inv keeps rebuilds s) (hshards : active ≠ [])
    (harchive : ∀ (name : String) file, archive[name]? = some file → isJsonl name = true ∧
      ∃ records,
    file = .ok records) (hsub : ∀ r, ServerState.Logged { s with active, archive } r → s.Logged r)
    (hkeeps : ∀ keeps',
    Lasting (·.lsn) keeps' → Demands keeps keeps' →
      keeps' s.Logged (ServerState.Logged { s with active, archive })) :
    Inv keeps rebuilds { s with active, archive } where
  shards := hshards
  archive := harchive
  logged r hr := h.logged r (hsub r hr)
  ascending := h.ascending
  named := h.named
  valid := h.valid
  kept keeps' hlasting hdemands :=
    hlasting.trans (h.kept keeps' hlasting hdemands) (hkeeps keeps' hlasting hdemands) h.logged hsub
  chatLog := h.chatLog
  recordStore := h.recordStore
  bootstrapped := h.bootstrapped
  file := h.file
  schema := h.schema

/-- The log is held otherwise. -/
theorem Inv.move (h : Inv keeps rebuilds s) (hshards : active ≠ [])
    (harchive : ∀ (name : String) file, archive[name]? = some file → isJsonl name = true ∧
      ∃ records,
    file = .ok records) (hsame : ∀ r, ServerState.Logged { s with active, archive } r ↔
      s.Logged r) :
    Inv keeps rebuilds { s with active, archive } := by
  refine h.relog hshards harchive (fun r hr => (hsame r).mp hr) fun keeps' hlasting _ => ?_
  rw [funext fun r => propext (hsame r)]
  exact hlasting.refl _

theorem Inv.archive_insert (h : Inv keeps rebuilds s)
    (shard uptoLsn nowMs : Nat) (records : List WalRecord) (name : String)
    (file : Result (List WalRecord))
    (hname : (s.archive.insert (archiveName (walName shard) uptoLsn nowMs) (.ok records))[name]? = some file) :
    isJsonl name = true ∧ ∃ records, file = .ok records := by
  rw [Std.ExtTreeMap.getElem?_insert] at hname
  split at hname
  · next he =>
    rw [← Std.LawfulEqCmp.eq_of_compare he]
    exact ⟨isJsonl_archiveName .., records, (Option.some.inj hname).symm⟩
  · exact h.archive name file hname

/-- A new archive file adds its records. -/
theorem exists_insert_iff (hnone : archive[name]? = none) (records : List WalRecord)
    (r : WalRecord) :
    (∃ (n : String) (records' : List WalRecord),
    (archive.insert name (.ok records))[n]? = some (.ok records') ∧ r ∈ records') ↔
    (∃ (n : String) (records' : List WalRecord), archive[n]? = some (.ok records') ∧ r ∈ records') ∨
    r ∈ records := by
  constructor
  · rintro ⟨n, records', hn, hr⟩
    rw [Std.ExtTreeMap.getElem?_insert] at hn
    split at hn
    · cases hn
      exact .inr hr
    · exact .inl ⟨n, records', hn, hr⟩
  · rintro (⟨n, records', hn, hr⟩ | hr)
    · refine ⟨n, records', ?_, hr⟩
      rw [Std.ExtTreeMap.getElem?_insert, if_neg fun he => ?_]
      · exact hn
      · rw [← Std.LawfulEqCmp.eq_of_compare he, hnone] at hn
        cases hn
    · exact ⟨name, records, getElem?_insert_self, hr⟩

theorem Inv.archived (h : Inv keeps rebuilds s) (hfile : s.active[shard]? = some file) (hnew :
    s.archive[archiveName (walName shard) uptoLsn nowMs]? = none) : Inv keeps rebuilds { s with
      archive := s.archive.insert (archiveName (walName shard) uptoLsn nowMs)
        (.ok (file.filter fun r => r.lsn ≤ uptoLsn)) } := by
  refine h.move h.shards (h.archive_insert shard uptoLsn nowMs _) fun r => ?_
  refine (or_congr_right (exists_insert_iff hnew _ r)).trans ?_
  rw [← or_assoc]
  exact or_iff_left_of_imp fun hr => .inl ⟨file, mem_of_getElem? hfile, mem_of_mem_filter hr⟩

theorem Inv.compacted (h : Inv keeps rebuilds s) (hfile : s.active[shard]? = some file) (hnew :
    s.archive[archiveName (walName shard) uptoLsn nowMs]? = none) : Inv keeps rebuilds { s with
      archive := s.archive.insert (archiveName (walName shard) uptoLsn nowMs)
        (.ok (file.filter fun r => r.lsn ≤ uptoLsn))
      active := s.active.set shard (file.filter fun r => uptoLsn < r.lsn) } := by
  have hsplit : ∀ r, r ∈ file ↔ r ∈ file.filter (fun r => uptoLsn < r.lsn) ∨
      r ∈ file.filter (fun r => r.lsn ≤ uptoLsn) := by
    intro r
    simp only [mem_filter, decide_eq_true_eq, ← and_or_left]
    exact (and_iff_left (Nat.lt_or_ge uptoLsn r.lsn)).symm
  have hne : s.active.set shard (file.filter fun r => uptoLsn < r.lsn) ≠ [] := by
    simpa using h.shards
  refine h.move hne (h.archive_insert shard uptoLsn nowMs _) fun r => ?_
  refine (or_congr_right (exists_insert_iff hnew _ r)).trans ?_
  have hset := @mem_set_iff s.active shard file (file.filter fun r => uptoLsn < r.lsn) hfile r
  have hold : r ∈ file → ∃ f ∈ s.active, r ∈ f := fun hr => ⟨file, mem_of_getElem? hfile, hr⟩
  constructor
  · rintro (hr | hr | hr)
    · rcases hset.mp (.inl hr) with hr | hr
      · exact .inl hr
      · exact .inl (hold ((hsplit r).mpr (.inl hr)))
    · exact .inr hr
    · exact .inl (hold ((hsplit r).mpr (.inr hr)))
  · rintro (hr | hr)
    · rcases hset.mpr (.inl hr) with hr | hr
      · exact .inl hr
      · rcases (hsplit r).mp hr with hr | hr
        · exact .inl ⟨_, mem_of_getElem? (getElem?_set_self_of hfile), hr⟩
        · exact .inr (.inr hr)
    · exact .inr (.inl hr)

theorem Inv.retained (h : Inv keeps rebuilds s)
    (hleft : left ∈ (runWalArchiveRetention s.archive s.active.length query).1)
    (hkeeps : keeps s.Logged { s with archive := left }.Logged) :
    Inv keeps rebuilds { s with archive := left } :=
        by
  have htrimmed := runWalArchiveRetention_trimmed hleft
  refine h.relog h.shards (fun name file hname => h.archive name file (htrimmed.kept hname)) (fun r hr => ?_)
    fun keeps' _ hdemands => hdemands _ _ hkeeps
  rcases hr with hr | ⟨name, records, hname, hr⟩
  · exact .inl hr
  · exact .inr ⟨name, records, htrimmed.kept hname, hr⟩

theorem Inv.written (h : Inv keeps rebuilds s) (hfile : s.active[shard]? = some file)
    (hlsn : ∀ r' ∈ s.appended, r'.lsn < r.lsn) (hnamed : PathsNamed r) (hvalid : SchemasValid [r]) :
    Inv keeps rebuilds (ServerState.apply { s with active := s.active.set shard (file ++ [r]) } r) := by
  let t := ServerState.apply { s with active := s.active.set shard (file ++ [r]) } r
  have hlogged : t.Logged = fun r' => s.Logged r' ∨ r' = r := by
    funext r'
    have hset := @mem_set_iff s.active shard file (file ++ [r]) hfile r'
    have hself : r' ∈ file ++ [r] → ∃ f ∈ s.active.set shard (file ++ [r]), r' ∈ f := fun hr =>
      ⟨_, mem_of_getElem? (getElem?_set_self_of hfile), hr⟩
    have hold : r' ∈ file → ∃ f ∈ s.active, r' ∈ f := fun hr => ⟨file, mem_of_getElem? hfile, hr⟩
    refine propext ⟨?_, ?_⟩
    · rintro (hr | hr)
      · rcases hset.mp (.inl hr) with hr | hr
        · exact .inl (.inl hr)
        · rcases mem_append.mp hr with hr | hr
          · exact .inl (.inl (hold hr))
          · exact .inr (mem_singleton.mp hr)
      · exact .inl (.inr hr)
    · rintro ((hr | hr) | rfl)
      · exact .inl ((hset.mpr (.inl hr)).elim id fun hr => hself (mem_append_left _ hr))
      · exact .inr hr
      · exact .inl (hself (by simp))
  have happended : (· ∈ t.appended) = fun r' => r' ∈ s.appended ∨ r' = r := by
    funext r'
    show (r' ∈ s.appended ++ [r]) = _
    simp
  have hall : ∀ {p : WalRecord → Prop}, (∀ r' ∈ s.appended, p r') → p r → ∀ r' ∈ s.appended ++ [r], p r' := by
    intro p hold hnew r' hr'
    rcases mem_append.mp hr' with hr' | hr'
    · exact hold r' hr'
    · exact mem_singleton.mp hr' ▸ hnew
  refine {
    shards := by simpa [t, ServerState.apply] using h.shards
    archive := h.archive
    logged := fun r' hr' => ?_
    ascending := ?_
    named := hall h.named hnamed
    valid := hall h.valid (hvalid r (mem_singleton_self r))
    kept := fun keeps' hlasting hdemands => ?_
    chatLog := fun hmessages message => ?_
    recordStore := fun hrecords => ?_
    bootstrapped := fun hflag => ?_
    file := ?_
    schema := fun hschema lsn schema hread => ?_ }
  · have hr' : t.Logged r' := hr'
    rw [hlogged] at hr'
    exact mem_append.mpr (hr'.imp (h.logged r') mem_singleton.mpr)
  · refine pairwise_append.mpr ⟨h.ascending, pairwise_singleton _ r, fun r' hr' r'' hr'' => ?_⟩
    rw [mem_singleton.mp hr'']
    exact hlsn r' hr'
  · show keeps' (· ∈ t.appended) t.Logged
    rw [hlogged, happended]
    refine hlasting.add (h.kept keeps' hlasting hdemands) fun r' r'' hr' hr'' => ?_
    rw [hr'']
    exact hlsn r' hr'
  · show message ∈ s.chatLog ++ (messageOf r).toList ↔ message ∈ messagesFromWalRecords (s.appended ++ [r])
    rw [messagesFromWalRecords_append, mem_append, mem_append, h.chatLog hmessages]
    refine or_congr_right ?_
    simp [messagesFromWalRecords, eq_comm]
  · show applyWalRecord s.recordStore r = recordsByPath (s.appended ++ [r])
    rw [recordsByPath_concat, h.recordStore hrecords]
  · have hflag : (s.bootstrapped || !(recordMutations r.payload).isEmpty) = false := hflag
    rw [Bool.or_eq_false_iff] at hflag
    exact hall (h.bootstrapped hflag.1) (by simpa using hflag.2)
  · show (ServerState.apply _ r).registry.file = some (ServerState.apply _ r).registry.schema
    unfold ServerState.apply
    cases r.payload with
    | schemaApplied schema migration => rfl
    | _ => exact h.file
  · have hread : LastWord.read schemaTells (s.appended ++ [r]) = some (lsn, schema) := hread
    rw [LastWord.read_concat] at hread
    show (ServerState.apply _ r).registry.schema = schema
    unfold schemaTells at hread
    unfold ServerState.apply
    cases hpayload : r.payload with
    | schemaApplied schema' migration =>
      rw [hpayload] at hread
      cases hread
      rfl
    | _ =>
      rw [hpayload] at hread
      exact h.schema hschema lsn schema hread

/-! ## What is made of the log -/

theorem foldl_persistHistorySchema (schemas : List DatabaseSchema) (registry : SchemaRegistry) :
    (schemas.foldl SchemaRegistry.persistHistorySchema registry).file = registry.file ∧
    (schemas.foldl SchemaRegistry.persistHistorySchema registry).schema = registry.schema := by
  induction schemas generalizing registry with
  | nil => exact ⟨rfl, rfl⟩
  | cons schema schemas ih => exact ih (registry.persistHistorySchema schema)

/-- The last `SchemaApplied` of the log decides, or the schema file. -/
theorem recoverSchemaFromWal_schema {registry : SchemaRegistry}
    {recovered : SchemaRegistry × SchemaWalRecoveryReport}
    (h : recoverSchemaFromWal registry records = .ok recovered)
    (hasc : records.Pairwise fun a b => a.lsn < b.lsn)
    (hfile : registry.file = some registry.schema) : recovered.1.file = some recovered.1.schema ∧
    recovered.1.schema =
    ((LastWord.read schemaTells records).map Prod.snd).getD registry.schema := by
  obtain ⟨⟨history, latest⟩, hfound, h⟩ := bind_eq_ok.mp h
  have hlatest : latest = LastWord.read schemaTells records := appliedSchemas_read hasc hfound
  rw [← hlatest]
  cases latest with
  | none =>
    cases h
    obtain ⟨hfile', hschema⟩ := foldl_persistHistorySchema (history.toList.map Prod.snd) registry
    exact ⟨hfile'.trans (hfile.trans (congrArg some hschema.symm)), hschema⟩
  | some latest =>
    cases h
    exact ⟨rfl, rfl⟩

section

variable {s : ServerState} {records : List WalRecord}

section
variable (h : Inv keeps rebuilds s)
include h

theorem Inv.lsns {r' : WalRecord} (hr : r ∈ s.appended) (hr' : r' ∈ s.appended)
    (he : r.lsn = r'.lsn) :
    r = r' := ObjectRefIndex.eq_of_ascending h.ascending hr hr' he

variable {ν : Type}

/-- What the log leaves at a key is what everything that was written leaves there. -/
theorem Inv.leaves_iff {tells : WalRecord → Option (Option ν)}
    (hkept : KeepsLast (·.lsn) tells (tells · = some none) (· ∈ s.appended) s.Logged) {value : ν} :
    Leaves (·.lsn) tells s.Logged value ↔ Leaves (·.lsn) tells (· ∈ s.appended) value :=
  hkept.leaves_iff h.logged (fun _ hr => hr) fun _ _ hr hr' he => h.lsns hr hr' he

theorem Inv.read_eq {tells : WalRecord → Option (Option ν)}
    (hasc : records.Pairwise fun a b => a.lsn < b.lsn)
    (hmem : (· ∈ records) = s.Logged)
    (hkept : KeepsLast (·.lsn) tells (tells · = some none) (· ∈ s.appended) s.Logged)
    :
    LastWord.read tells records = LastWord.read tells s.appended := by
  refine Option.ext fun value => ?_
  rw [LastWord.read_eq_some_iff hasc, LastWord.read_eq_some_iff h.ascending, hmem]
  exact h.leaves_iff hkept

theorem Inv.live_iff (hrecords : Demands keeps KeepsRecords) (path : String) (record : DbRecord) :
    Live s.Logged path record ↔ Live (· ∈ s.appended) path record := by
  have hkept := h.kept KeepsRecords (.forall fun _ => lasting_keepsLast _) hrecords
  rw [live_iff_leaves, live_iff_leaves]
  exact h.leaves_iff (hkept path)

theorem Inv.recordsByPath_eq (hasc : records.Pairwise fun a b => a.lsn < b.lsn)
    (hmem : (· ∈ records) = s.Logged)
    (hrecords : Demands keeps KeepsRecords) : recordsByPath records = recordsByPath s.appended := by
  refine ext_getElem? fun path => Option.ext fun record => ?_
  rw [getElem?_recordsByPath hasc, getElem?_recordsByPath h.ascending, hmem]
  exact h.live_iff hrecords path record

theorem Inv.messages_iff (hmem : (· ∈ records) = s.Logged) (hmessages : Demands keeps KeepsMessages)
    (message : Message) : message ∈ messagesFromWalRecords records ↔
    message ∈ messagesFromWalRecords s.appended := by
  have hkept := h.kept KeepsMessages (lasting_keepsEvery _) hmessages
  have hin : ∀ r, r ∈ records ↔ s.Logged r := fun r => iff_of_eq (congrFun hmem r)
  rw [mem_messagesFromWalRecords, mem_messagesFromWalRecords]
  constructor
  · rintro ⟨r, hr, hmessage⟩
    exact ⟨r, h.logged r ((hin r).mp hr), hmessage⟩
  · rintro ⟨r, hr, hmessage⟩
    exact ⟨r, (hin r).mpr (hkept r hr (Option.isSome_iff_exists.mpr ⟨_, hmessage⟩)), hmessage⟩

section
variable (hasc : records.Pairwise fun a b => a.lsn < b.lsn)
include hasc

theorem Inv.profiles_eq (hmem : (· ∈ records) = s.Logged) (husers : Demands keeps KeepsUsers) :
    (usersFromWalRecords records).profiles = (usersFromWalRecords s.appended).profiles := by
  have hkept := h.kept KeepsUsers (.forall fun _ => lasting_keepsLast _) husers
  refine ext_getElem? fun userId => ?_
  rw [getElem?_profiles, getElem?_profiles, h.read_eq hasc hmem (hkept userId)]

theorem Inv.reminders_iff (hmem : (· ∈ records) = s.Logged)
    (hreminders : Demands keeps KeepsReminders) (entry : ActorReminderEntry) :
    entry ∈ actorRemindersFromWalRecords records ↔
    entry ∈ actorRemindersFromWalRecords s.appended := by
  have hkept := h.kept KeepsReminders (.forall fun _ => lasting_keepsLast _) hreminders
  rw [mem_actorReminders hasc, mem_actorReminders h.ascending, h.read_eq hasc hmem (hkept _)]

theorem Inv.schema_eq (hmem : (· ∈ records) = s.Logged) (hschema : Demands keeps KeepsSchema) :
    ((LastWord.read schemaTells records).map Prod.snd).getD s.registry.schema =
    s.registry.schema := by
  have hkept := h.kept KeepsSchema (lasting_keepsLast _) hschema
  cases hread : LastWord.read schemaTells records with
  | none => rfl
  | some latest =>
    rw [LastWord.read_eq_some_iff hasc, hmem] at hread
    have hleaves : Leaves (·.lsn) schemaTells (· ∈ s.appended) latest :=
      hkept.leaves_of h.logged (fun _ hr => hr) (fun _ _ hr hr' he => h.lsns hr hr' he) hread
    exact (h.schema hschema latest.1 latest.2 ((LastWord.read_eq_some_iff h.ascending).mpr hleaves)).symm

end

theorem Inv.logRefers_iff (hmem : (· ∈ records) = s.Logged)
    (hmessages : Demands keeps KeepsMessages)
    (hrecords : Demands keeps KeepsRecords) (schema : DatabaseSchema) (source objectId : String) :
    LogRefers schema (· ∈ records) source objectId ↔
    LogRefers schema (· ∈ s.appended) source objectId := by
  have hkept := h.kept KeepsMessages (lasting_keepsEvery _) hmessages
  rw [hmem]
  refine or_congr ?_ (exists_congr fun record => and_congr_left' (h.live_iff hrecords source record))
  constructor
  · rintro ⟨r, message, hr, hmessage, hrefers⟩
    exact ⟨r, message, h.logged r hr, hmessage, hrefers⟩
  · rintro ⟨r, message, hr, hmessage, hrefers⟩
    exact ⟨r, message, hkept r hr (Option.isSome_iff_exists.mpr ⟨_, hmessage⟩), hmessage, hrefers⟩

theorem Inv.not_rebuilt (hmem : (· ∈ records) = s.Logged) :
    (!s.bootstrapped && !(recordsFromWalRecords records).isEmpty) = false := by
  cases hflag : s.bootstrapped with
  | true => rfl
  | false =>
    have hnone : recordsByPath records = ∅ := by
      have hin : ∀ r ∈ records, recordMutations r.payload = [] := fun r hr =>
        h.bootstrapped hflag r (h.logged r ((iff_of_eq (congrFun hmem r)).mp hr))
      clear hmem
      induction records using reverseRecOn with
      | nil => rfl
      | append_singleton records r ih =>
        rw [recordsByPath_concat, applyWalRecord_of_nil (hin r (by simp))]
        exact ih fun r hr => hin r (mem_append_left _ hr)
    rw [recordsFromWalRecords, hnone]
    rfl

end

end

section
variable (h : Inv keeps rebuilds s)
include h

variable {projections : StartupProjections}

/-- What a restart that comes up has made of the log. -/
theorem Inv.restart_spec (hrestart : restart defaultNextdb s = .ok (t, projections)) :
    ∃ records registry, records.Pairwise (fun a b => a.lsn < b.lsn) ∧
    (· ∈ records) = s.Logged ∧ t = { s with registry } ∧ registry.file = some registry.schema ∧
    registry.schema =
    ((LastWord.read schemaTells records).map Prod.snd).getD s.registry.schema ∧
    RefState.fromMessagesAndRecordsForSchema
    (messagesFromWalRecords records) (recordsFromWalRecords records) registry.schema =
    .ok projections.refs ∧
    projections.users = usersFromWalRecords records ∧
    projections.reminders = actorRemindersFromWalRecords records := by
  obtain ⟨records, hread, hasc, hmem⟩ := h.read
  obtain ⟨records', hread', hrestart⟩ := bind_eq_ok.mp hrestart
  cases hread.symm.trans hread'
  obtain ⟨⟨registry, report⟩, hrecovered, hrestart⟩ := bind_eq_ok.mp hrestart
  obtain ⟨refs, hrefs, hrestart⟩ := bind_eq_ok.mp hrestart
  obtain ⟨hfile, hschema⟩ := recoverSchemaFromWal_schema hrecovered hasc (by rfl)
  have hstart : (SchemaRegistry.load defaultNextdb s.registry.file s.registry.history).schema = s.registry.schema := by
    rw [h.file]
    rfl
  have hrebuilt : (!s.bootstrapped && !(startupProjectionSeed records).records.isEmpty) = false := h.not_rebuilt hmem
  have hdone := Except.ok.inj hrestart
  rw [hrebuilt, Bool.or_false] at hdone
  refine ⟨records, registry, hasc, hmem, (congrArg Prod.fst hdone).symm, hfile, by rw [hschema, hstart], ?_, ?_, ?_⟩
  · rw [← congrArg (fun done => done.2.refs) hdone]
    exact hrefs
  · exact (congrArg (fun done => done.2.users) hdone).symm
  · exact (congrArg (fun done => done.2.reminders) hdone).symm

theorem Inv.restarted (hrestart : restart defaultNextdb s = .ok (t, projections)) :
    Inv keeps rebuilds t := by
  obtain ⟨records, registry, hasc, hmem, rfl, hfile, hschema, -⟩ := h.restart_spec hrestart
  exact { h with
    file := hfile
    schema := fun hkeeps lsn schema hread => by
      show registry.schema = schema
      rw [hschema, h.schema_eq hasc hmem hkeeps, h.schema hkeeps lsn schema hread] }

theorem Inv.rebuilt (hrebuilds : rebuilds) (hrecords : s.readRecordsFromWalPaths = .ok records)
    (what : Rebuild) :
    Inv keeps rebuilds (s.rebuild records what) := by
  obtain ⟨records', hread, hasc, hmem⟩ := h.read
  cases hread.symm.trans hrecords
  cases what with
  | chatLog =>
    exact { h with
      chatLog := fun hmessages message => h.messages_iff hmem (hmessages hrebuilds) message }
  | records =>
    exact { h with
      bootstrapped := nofun
      recordStore := fun hkeeps => h.recordsByPath_eq hasc hmem (hkeeps hrebuilds) }

theorem Inv.step {e : RetentionEvent} (hremoving : Removing walName keeps rebuilds s e)
    (hstep : RetentionStep walName defaultNextdb s e t) : Inv keeps rebuilds t := by
  cases hstep with
  | write hfile hlsn hnamed hvalid => exact h.written hfile hlsn hnamed hvalid
  | archive hfile _ => exact h.archived hfile hremoving
  | compact hfile _ => exact h.compacted hfile hremoving
  | retain hleft => exact h.retained hleft hremoving
  | restart hrestart => exact h.restarted hrestart
  | rebuild hrecords => exact h.rebuilt hremoving hrecords _

/-- A restart comes up if every record that is left at a path can be read under the schema. -/
theorem Inv.exists_restart (hrecords : Demands keeps KeepsRecords)
    (hschema : Demands keeps KeepsSchema)
    (hreadable : ∀ path record, Live (· ∈ s.appended) path record →
      Readable s.registry.schema record) :
    ∃ t projections, restart defaultNextdb s = .ok (t, projections) := by
  obtain ⟨records, hread, hasc, hmem⟩ := h.read
  have hin : ∀ r ∈ records, r ∈ s.appended := fun r hr => h.logged r ((iff_of_eq (congrFun hmem r)).mp hr)
  obtain ⟨⟨registry, report⟩, hrecovered⟩ :=
    (recoverSchemaFromWal_ok_iff (SchemaRegistry.load defaultNextdb s.registry.file s.registry.history) records).mpr
    fun r hr => h.valid r (hin r hr)
  obtain ⟨-, hregistry⟩ := recoverSchemaFromWal_schema hrecovered hasc (by rfl)
  have hstart : (SchemaRegistry.load defaultNextdb s.registry.file s.registry.history).schema = s.registry.schema := by
    rw [h.file]
    rfl
  rw [hstart, h.schema_eq hasc hmem hschema] at hregistry
  have hapart : PathsApart (· ∈ records) := ObjectRefIndex.pathsApart_of_named fun r hr => h.named r (hin r hr)
  have hreadable' : ∀ path record, Live (· ∈ records) path record → Readable registry.schema record := by
    intro path record hlive
    rw [hmem] at hlive
    rw [hregistry]
    exact hreadable path record ((h.live_iff hrecords path record).mp hlive)
  obtain ⟨refs, hrefs, -⟩ := refers_fromWalRecords hasc hapart hreadable'
  refine ⟨_, _, bind_eq_ok.mpr ⟨records, hread, bind_eq_ok.mpr ⟨_, hrecovered, bind_eq_ok.mpr ⟨refs, hrefs, rfl⟩⟩⟩⟩

end

/-! ## What retention keeps -/

/-- A call removes, wherever it stops, only archive files that can be read and hold records,
all of them before the bounds. In every run the chat log has the messages that were written,
and the record store the records, as long as no rebuild follows a removal that takes a message,
or the last change of a path. And as long as no removal takes the last word about one of them,
a restart comes up, and has the users, the schema, the pending reminders and the references
that everything written leaves. -/
theorem archive_retention_keeps {s t : ServerState}
    (hs : Fresh s) (hrun : Reaches (RetentionStep walName defaultNextdb) (Removing walName keeps rebuilds) s t) :
    (∀ query left, left ∈ (runWalArchiveRetention t.archive t.active.length query).1 →
    Trimmed query t.archive left) ∧
    ((rebuilds → Demands keeps KeepsMessages) → ∀ message,
    message ∈ t.chatLog ↔ message ∈ messagesFromWalRecords t.appended) ∧
    ((rebuilds → Demands keeps KeepsRecords) → t.recordStore = recordsByPath t.appended) ∧
    (Demands keeps KeepsRecords →
    Demands keeps KeepsSchema → (∀ path record, Live (· ∈ t.appended) path record →
    Readable t.registry.schema record) →
    ∃ t' projections, restart defaultNextdb t = .ok (t', projections)) ∧ ∀ t' projections,
    restart defaultNextdb t = .ok (t', projections) → t'.chatLog = t.chatLog ∧
    t'.recordStore = t.recordStore ∧
    (Demands keeps KeepsUsers →
    projections.users.profiles = (usersFromWalRecords t.appended).profiles) ∧
    (Demands keeps KeepsSchema → t'.registry.schema = t.registry.schema) ∧
    (Demands keeps KeepsReminders → ∀ entry,
    entry ∈ projections.reminders ↔ entry ∈ actorRemindersFromWalRecords t.appended) ∧
    (Demands keeps KeepsMessages → Demands keeps KeepsRecords → ∀ source objectId,
    projections.refs.Refers source objectId ↔
    LogRefers t'.registry.schema (· ∈ t.appended) source objectId) := by
  have h : Inv keeps rebuilds t :=
    hrun.invariant (fun _ _ _ h hremoving hstep => h.step hremoving hstep) hs.inv
  refine ⟨fun query left hleft => runWalArchiveRetention_trimmed hleft, h.chatLog, h.recordStore, h.exists_restart,
    fun t' projections hrestart => ?_⟩
  obtain ⟨records, registry, hasc, hmem, rfl, -, hschema, hrefs, husers, hreminders⟩ := h.restart_spec hrestart
  refine ⟨rfl, rfl, fun hkeeps => ?_, fun hkeeps => ?_, fun hkeeps entry => ?_,
      fun hmessages hrecords source objectId => ?_⟩
  · rw [husers]
    exact h.profiles_eq hasc hmem hkeeps
  · exact hschema.trans (h.schema_eq hasc hmem hkeeps)
  · rw [hreminders]
    exact h.reminders_iff hasc hmem hkeeps entry
  · have hapart : PathsApart (· ∈ records) := ObjectRefIndex.pathsApart_of_named fun r hr =>
      h.named r (h.logged r ((iff_of_eq (congrFun hmem r)).mp hr))
    obtain ⟨refs, hrefs', -, hrefers⟩ := refers_fromWalRecords hasc hapart fun path record hlive =>
      ObjectRefIndex.readable_of_fromMessages hrefs record ((mem_recordsFromWalRecords hasc).mpr (by rwa [hlive.path]))
    cases hrefs.symm.trans hrefs'
    exact (hrefers source objectId).trans (h.logRefers_iff hmem hmessages hrecords registry.schema source objectId)

/-! ## A user whose profile is archived -/

section Sample

def upserted (lsn : Nat) : WalRecord :=
  ⟨lsn, 0, 1, "", 0, 1, .strict, .userUpserted ⟨"u", none, none, .null, 0, lsn, "users/u"⟩, none⟩

def holding (active : List WalRecord) (archive : Archive) (appended : List WalRecord) :
    ServerState :=
  ⟨[active], archive, ⟨some postsCurrent, ∅, postsCurrent⟩, [], false, ∅, appended⟩

def shardName (_ : Nat) : String := "shard-0000.jsonl"

def archivedName : String := archiveName "shard-0000.jsonl" 1 5

def archived : Archive := (∅ : Archive).insert archivedName (.ok [upserted 1])

def beforeTwo : WalArchiveRetentionQuery := ⟨some false, some 2, none⟩

theorem holding_fresh : Fresh (holding [] ∅ []) where
  shards := cons_ne_nil _ _
  active _ hfile := mem_singleton.mp hfile
  archive := rfl
  file := rfl
  chatLog := rfl
  bootstrapped := rfl
  recordStore := rfl
  appended := rfl

theorem write_upserted {lsn : Nat} {active appended : List WalRecord} {archive : Archive}
    (hlsn : ∀ r ∈ appended, r.lsn < lsn) :
    RetentionStep shardName postsCurrent (holding active archive appended)
    (.write 0 (upserted lsn)) (holding (active ++ [upserted lsn]) archive (appended ++ [upserted lsn])) := by
  have hnamed : PathsNamed (upserted lsn) :=
    ⟨nofun, fun mutation hmutation => absurd hmutation not_mem_nil⟩
  have hvalid : SchemasValid [upserted lsn] := fun r hr schema migration hpayload => by
    rw [mem_singleton.mp hr] at hpayload
    cases hpayload
  exact @RetentionStep.write shardName postsCurrent (holding active archive appended) 0 active (upserted lsn) rfl hlsn
    hnamed hvalid

theorem archived_erase : archived.erase archivedName = ∅ := by
  refine Std.ExtTreeMap.ext_getElem? fun name => ?_
  rw [archived, Std.ExtTreeMap.getElem?_erase, Std.ExtTreeMap.getElem?_insert]
  split <;> simp

theorem removes_archived (walShards : Nat) :
    ∅ ∈ (runWalArchiveRetention archived (walShards + 1) beforeTwo).1 := by
  have hpaths : walArchivePaths archived = [(archivedName, .ok [upserted 1])] := by
    show filter _ [(archivedName, (.ok [upserted 1] : Result (List WalRecord)))] = _
    refine filter_eq_self.mpr fun file hfile => ?_
    rw [mem_singleton.mp hfile]
    exact isJsonl_archiveName ..
  have hfirst : retainShard beforeTwo ⟨archived, [], 0, 0, 0, []⟩ 0 =
      ⟨∅, [∅], 1, 1, 0, [fileReport archivedName 0 [upserted 1] "deleted" none]⟩ := by
    rw [retainShard, hpaths, ← archived_erase]
    rfl
  have hrest : ∀ (shards : List Nat) (loop : RetentionLoop), ∅ ∈ loop.removals → loop.archive = ∅ →
      ∅ ∈ (shards.foldl (retainShard beforeTwo) loop).removals := by
    intro shards
    induction shards with
    | nil => exact fun loop h _ => h
    | cons shard shards ih =>
      intro loop h hnone
      have hsame : retainShard beforeTwo loop shard = loop := by
        rw [retainShard, hnone]
        rfl
      rw [foldl_cons, hsame]
      exact ih loop h hnone
  show ∅ ∈ ((range (walShards + 1)).foldl (retainShard beforeTwo) ⟨archived, [], 0, 0, 0, []⟩).removals
  rw [range_succ_eq_map, foldl_cons, hfirst]
  exact hrest _ _ (mem_singleton_self _) rfl

variable {appended : List WalRecord}

theorem reaches_compacted {keeps : Keeps} {rebuilds : Prop} {active : List WalRecord} (hrun :
    Reaches (RetentionStep shardName postsCurrent) (Removing shardName keeps rebuilds) s (holding active ∅ appended))
    (hfile : active.filter (fun r => r.lsn ≤ 1) = [upserted 1]) :
    Reaches (RetentionStep shardName postsCurrent)
    (Removing shardName keeps rebuilds) s (holding (active.filter fun r => 1 < r.lsn) archived appended) := by
  have hstep := @RetentionStep.compact shardName postsCurrent (holding active ∅ appended) 0 1 5 active rfl
    (by rw [hfile]; exact cons_ne_nil _ _)
  rw [hfile] at hstep
  exact hrun.take hstep getElem?_empty

theorem reaches_removed {keeps : Keeps} {rebuilds : Prop} {active : List WalRecord} (hrun : Reaches
    (RetentionStep shardName postsCurrent) (Removing shardName keeps rebuilds) s (holding active archived appended))
    (hkeeps : keeps (holding active archived appended).Logged (holding active ∅ appended).Logged) :
    Reaches (RetentionStep shardName postsCurrent) (Removing shardName keeps rebuilds) s (holding active ∅ appended) :=
  hrun.take (@RetentionStep.retain shardName postsCurrent (holding active archived appended) beforeTwo ∅
    (removes_archived 0)) hkeeps

/-- Two records of one user: the archive with the first is removed, and the second is what startup
finds. -/
theorem archive_retention_keeps_sample : ∃ (t t' : ServerState) (projections : StartupProjections),
    t.appended = [upserted 1, upserted 2] ∧ ¬ t.Logged (upserted 1) ∧
    restart postsCurrent t = .ok (t', projections) ∧
    projections.users.profiles["u"]? = some ⟨"u", none, .null, 0, 2, 2, "users/u"⟩ := by
  let keeps : Keeps := fun log kept => KeepsRecords log kept ∧ KeepsUsers log kept ∧ KeepsSchema log kept
  have hlogged : ∀ r, (holding [upserted 2] archived [upserted 1, upserted 2]).Logged r → r = upserted 1 ∨
      r = upserted 2 := by
    rintro r (⟨file, hfile, hr⟩ | ⟨name, records, hname, hr⟩)
    · rw [mem_singleton.mp hfile] at hr
      exact .inr (mem_singleton.mp hr)
    · rcases (exists_insert_iff getElem?_empty [upserted 1] r).mp ⟨name, records, hname, hr⟩ with
        ⟨n, records', hn, -⟩ | hr
      · simp at hn
      · exact .inl (mem_singleton.mp hr)
  have hsecond : (holding [upserted 2] ∅ [upserted 1, upserted 2]).Logged (upserted 2) :=
    .inl ⟨_, mem_singleton_self _, mem_singleton_self _⟩
  have hkeeps : keeps (holding [upserted 2] archived [upserted 1, upserted 2]).Logged
      (holding [upserted 2] ∅ [upserted 1, upserted 2]).Logged := by
    have hnone : ∀ {ν : Type} (tells : WalRecord → Option (Option ν)) (may : WalRecord → Prop),
        (∀ lsn, tells (upserted lsn) = none) → KeepsLast (·.lsn) tells may
          (holding [upserted 2] archived [upserted 1, upserted 2]).Logged
          (holding [upserted 2] ∅ [upserted 1, upserted 2]).Logged := by
      intro ν tells may hnone r hr
      have habout := hr.about
      rcases hlogged r hr.mem with rfl | rfl
      · rw [hnone] at habout
        cases habout
      · exact .inl hsecond
    refine ⟨fun path => hnone _ _ fun lsn => rfl, fun userId r hr => ?_, hnone _ _ fun lsn => rfl⟩
    rcases hlogged r hr.mem with rfl | rfl
    · have hsame : (userTells userId (upserted 2)).isSome = (userTells userId (upserted 1)).isSome := by
        show (if "u" = userId then _ else none).isSome = (if "u" = userId then _ else none).isSome
        split <;> rfl
      have hle := hr.last (upserted 2) (.inl ⟨_, mem_singleton_self _, mem_singleton_self _⟩) (hsame.trans hr.about)
      exact absurd hle (by decide)
    · exact .inl hsecond
  have hwritten : Reaches (RetentionStep shardName postsCurrent) (Removing shardName keeps False) (holding [] ∅ [])
      (holding [upserted 1, upserted 2] ∅ [upserted 1, upserted 2]) :=
    ((Reaches.refl _).take (@write_upserted 1 [] [] ∅ fun r hr => absurd hr not_mem_nil) trivial).take
      (@write_upserted 2 [upserted 1] [upserted 1] ∅ (by decide)) trivial
  have hrun := reaches_removed (reaches_compacted hwritten rfl) hkeeps
  have hspec := archive_retention_keeps holding_fresh hrun
  have hreadable : ∀ path record, Live (· ∈ [upserted 1, upserted 2]) path record → Readable postsCurrent record := by
    rintro path record ⟨r, mutation, hnewest, hmutation, -⟩
    have hmem := hnewest.mem
    simp only [mem_cons, not_mem_nil, or_false] at hmem
    rcases hmem with rfl | rfl <;> cases hmutation
  obtain ⟨t', projections, hrestart⟩ := hspec.2.2.2.1 (fun _ _ h => h.1) (fun _ _ h => h.2.2) hreadable
  refine ⟨_, t', projections, rfl, ?_, hrestart, ?_⟩
  · rintro (⟨file, hfile, hr⟩ | ⟨name, records, hname, -⟩)
    · rw [mem_singleton.mp hfile] at hr
      exact absurd (congrArg WalRecord.lsn (mem_singleton.mp hr)) (by decide)
    · simp [holding] at hname
  · rw [(hspec.2.2.2.2 t' projections hrestart).2.2.1 fun _ _ h => h.2.1]
    exact (getElem?_profiles ..).trans rfl

/-- A call may remove the archive with the only record of a user: after the restart the user is
gone. -/
theorem retention_loses_user :
    ¬ ∀ (s t t' : ServerState) (projections : StartupProjections), Fresh s → Reaches
    (RetentionStep shardName postsCurrent) (Removing shardName (fun _ _ => True) False) s t →
    restart postsCurrent t =
    .ok (t', projections) →
    projections.users.profiles = (usersFromWalRecords t.appended).profiles := by
  intro h
  have hwritten : Reaches (RetentionStep shardName postsCurrent) (Removing shardName (fun _ _ => True) False)
      (holding [] ∅ []) (holding [upserted 1] ∅ [upserted 1]) :=
    (Reaches.refl _).take (@write_upserted 1 [] [] ∅ fun r hr => absurd hr not_mem_nil) trivial
  have hrun := reaches_removed (reaches_compacted hwritten rfl) trivial
  have hrestart : ∃ t' projections, restart postsCurrent (holding [] ∅ [upserted 1]) = .ok (t', projections) ∧
      projections.users = usersFromWalRecords [] := ⟨_, _, rfl, rfl⟩
  obtain ⟨t', projections, hrestart, husers⟩ := hrestart
  have hprofiles := h _ _ t' projections holding_fresh hrun hrestart
  have hfound := congrArg (fun profiles : BTreeMap String UserProfile => profiles["u"]?) hprofiles
  rw [husers] at hfound
  have hnone : (usersFromWalRecords []).profiles["u"]? = none := (getElem?_profiles ..).trans rfl
  have hsome : (usersFromWalRecords [upserted 1]).profiles["u"]? ≠ none := by
    rw [getElem?_profiles]
    exact Option.some_ne_none _
  exact hsome (hfound.symm.trans hnone)

end Sample

end NextDb.Api.ArchiveRetention
