import NextDb.Api.Startup
import NextDb.Wal.Integrity

/-!
# Reads after an LSN

`readRecordsAfterLsnIncludingArchives` leaves out the archive files whose names give an LSN
that is not above the cursor. Shards with their log files in one directory share its
archives.

* `read_after_lsn`: what is read is what all files hold above the cursor, in every run of
  appends and compactions of any shards.
-/

namespace NextDb.Api.Startup

open Wal Run List Std Std.ExtTreeMap

variable {lib : Libraries} {dir : WalDir} {name : String} {n m : Nat}

/-! ## The LSN in a name -/

theorem afterFirst_append {before : List Char} (h : 't' ∉ before) (text : List Char) :
    afterFirst "-through-".toList (before ++ ("-through-".toList ++ text)) = some text := by
  induction before with
  | nil => rfl
  | cons c before ih =>
    obtain ⟨-, hbefore⟩ := not_or.mp (mt mem_cons.mpr h)
    have hskip : "-through-".toList.isPrefixOf (c :: (before ++ ("-through-".toList ++ text))) = false := by
      cases before with
      | nil => simp [isPrefixOf]
      | cons d before =>
        have hd : 't' ≠ d := (not_or.mp (mt mem_cons.mpr hbefore)).1
        simp [isPrefixOf, hd]
    rw [cons_append, afterFirst, if_neg (by rw [hskip]; exact Bool.false_ne_true)]
    exact ih hbefore

theorem isDigit_of_mem {c : Char} (h : c ∈ Nat.toDigits 10 n) : c.isDigit = true :=
  Nat.isDigit_of_mem_toDigits (by decide) (by decide) h

theorem parseU64_toDigits (h : parseU64 (Nat.toDigits 10 n) = some m) : m = n := by
  have hhead : (Nat.toDigits 10 n).head? ≠ some '+' := fun hc =>
    absurd (isDigit_of_mem (mem_of_head? hc)) (by decide)
  simp only [parseU64, if_neg hhead] at h
  split at h
  · cases h
  · split at h
    · split at h
      · cases h
        exact Nat.ofDigitChars_ten_toDigits
      · cases h
    · cases h

/-- The name of an archive of a shard gives the LSN up to which it was archived, or none. -/
theorem archivePathMaxLsn_archiveName {shard uptoLsn nowMs : Nat}
    (h : archivePathMaxLsn (archiveName (shardFileName shard) uptoLsn nowMs) = some m) :
    m = uptoLsn := by
  have hdigit : ∀ c ∈ Nat.toDigits 10 uptoLsn, (decide (c ≠ '-' ∧ c ≠ '.')) = true := by
    intro c hc
    have := isDigit_of_mem hc
    refine decide_eq_true ⟨?_, ?_⟩ <;> rintro rfl <;> exact absurd this (by decide)
  have hfirst : 't' ∉ "shard-".toList ++ (Nat.toDigits 10 shard).leftpad 4 '0' := by
    intro ht
    rcases mem_append.mp ht with ht | ht
    · exact absurd ht (by decide)
    rcases mem_append.mp ht with ht | ht
    · exact absurd (eq_of_mem_replicate ht) (by decide)
    · exact absurd (isDigit_of_mem ht) (by decide)
  have hname : (archiveName (shardFileName shard) uptoLsn nowMs).toList =
      ("shard-".toList ++ (Nat.toDigits 10 shard).leftpad 4 '0') ++ ("-through-".toList ++
        (Nat.toDigits 10 uptoLsn ++ '-' :: (Nat.toDigits 10 nowMs ++ ".jsonl".toList))) := by
    have hstem : fileStem (shardFileName shard) =
        String.ofList ("shard-".toList ++ (Nat.toDigits 10 shard).leftpad 4 '0') := by
      unfold fileStem shardFileName
      rw [String.toList_ofList, splitExtension_jsonl]
      exact append_ne_nil_of_left_ne_nil (by decide) _
    rw [archiveName, hstem]
    have hstr : ∀ s : String, toString s = s := fun _ => rfl
    simp [String.toList_append, hstr]
  rw [archivePathMaxLsn, hname, afterFirst_append hfirst] at h
  change parseU64 (takeWhile _ _) = _ at h
  rw [takeWhile_append_of_pos hdigit, takeWhile_cons_of_neg (by decide), append_nil] at h
  exact parseU64_toDigits h

/-! ## What is left out -/

/-- An archive file holds records, none above the LSN that its name gives. -/
def Bounded (lib : Libraries) (name : String) (bytes : Bytes) : Prop :=
  ∃ records, FileHolds lib (some bytes) records ∧ ∀ m, archivePathMaxLsn name = some m → ∀ r ∈ records, r.lsn ≤ m

theorem mapM_through (hlib : lib.Lawful) (afterLsn : Nat) {files : List (String × Bytes)}
    (h : ∀ f ∈ files, Bounded lib f.1 f.2) :
    ∃ all after, files.mapM (fun f => readRecordsFile lib f.1 (some f.2)) = .ok all ∧
      (files.filter fun f => !(archivePathMaxLsn f.1).any (· ≤ afterLsn)).mapM
        (fun f => readRecordsFile lib f.1 (some f.2)) = .ok after ∧
      after.flatten.filter (afterLsn < ·.lsn) = all.flatten.filter (afterLsn < ·.lsn) := by
  induction files with
  | nil => exact ⟨[], [], rfl, rfl, rfl⟩
  | cons f files ih =>
    obtain ⟨all, after, hall, hafter, heq⟩ := ih fun f hf => h f (mem_cons_of_mem _ hf)
    obtain ⟨records, hholds, hbound⟩ := h f mem_cons_self
    have hread := hholds.read hlib f.1
    refine ⟨records :: all, ?_⟩
    rw [mapM_cons, hread, hall, filter_cons]
    split
    · refine ⟨records :: after, rfl, by rw [mapM_cons, hread, hafter]; rfl, ?_⟩
      rw [flatten_cons, flatten_cons, filter_append, filter_append, heq]
    · next hthrough =>
      refine ⟨after, rfl, hafter, ?_⟩
      rw [flatten_cons, filter_append, ← heq, self_eq_append_left, filter_eq_nil_iff]
      intro r hr
      cases hm : archivePathMaxLsn f.1 with
      | none => simp [hm] at hthrough
      | some m =>
        have hle : m ≤ afterLsn := by simpa [hm] using hthrough
        have := hbound m hm r hr
        simp
        omega

theorem recordsByLsn_filter (records : List WalRecord) (p : Nat → Bool) :
    (recordsByLsn (records.filter (p ·.lsn))).toList.map Prod.snd =
      ((recordsByLsn records).toList.map Prod.snd).filter (p ·.lsn) := by
  have hmap : recordsByLsn (records.filter (p ·.lsn)) = (recordsByLsn records).filter fun k _ => p k := by
    induction records using reverseRecOn with
    | nil => simp [recordsByLsn, filter_eq_empty_iff]
    | append_singleton records r ih =>
      refine ext_getElem? fun k => ?_
      rw [recordsByLsn_concat, getElem?_filter', ExtTreeMap.getElem?_insert, filter_append, filter_singleton]
      cases hp : p r.lsn with
      | true =>
        rw [cond_true, recordsByLsn_concat, ExtTreeMap.getElem?_insert, ih, getElem?_filter']
        split
        · next hk => rw [← LawfulEqCmp.eq_of_compare hk, Option.filter_some, if_pos hp]
        · rfl
      | false =>
        rw [cond_false, append_nil, ih, getElem?_filter']
        split
        · next hk => simp [← LawfulEqCmp.eq_of_compare hk, hp]
        · rfl
  rw [hmap, toList_filter, filter_map]
  refine congrArg _ (filter_congr fun kr hkr => ?_)
  rw [Function.comp_apply, (recordsByLsn_some (mem_toList_iff_getElem?_eq_some.mp hkr)).1]

/-! ## Runs -/

/-- A step of any shard's worker. -/
def DirStep (lib : Libraries) (log : ShardLog) (event : Nat × ShardEvent) (log' : ShardLog) :
    Prop :=
  ShardStep lib event.1 (shardFileName event.1) log event.2 log'

/-- The files of the log are readable, and the archives' names bound their records. -/
structure CursorInv (lib : Libraries) (dir : WalDir) : Prop where
  files : ∀ shard, ∃ records, FileHolds lib dir.files[shardFileName shard]? records
  archive : ∀ (name : String) (bytes : Bytes), dir.archive[name]? = some bytes →
    isJsonl name = true ∧ Bounded lib name bytes

theorem compactTempName_ne_shardFileName (name : String) (shard : Nat) :
    compactTempName name ≠ shardFileName shard := by
  intro h
  have hlist : (shardFileName shard).toList = _ ++ ".jsonl".toList := String.toList_ofList
  have hlast := congrArg getLast? (hlist.symm.trans (congrArg String.toList h.symm))
  rw [compactTempName, String.toList_append] at hlast
  simp only [getLast?_append] at hlast
  change some 'l' = some 'p' at hlast
  exact absurd hlast (by decide)

theorem CursorInv.step (hlib : lib.Lawful) {log log' : ShardLog} {event : Nat × ShardEvent}
    (h : CursorInv lib log.dir) (hstep : DirStep lib log event log') : CursorInv lib log'.dir := by
  obtain ⟨shard, event⟩ := event
  cases hstep with
  | @append commands records bytes hrecords hbytes =>
    refine ⟨fun other => ?_, h.archive⟩
    show ∃ records, FileHolds lib (log.dir.files.insert _ _)[shardFileName other]? records
    rw [ExtTreeMap.getElem?_insert]
    split
    · obtain ⟨active, hactive⟩ := h.files shard
      refine ⟨active ++ records, ?_⟩
      rw [getD_eq_getD_getElem?]
      refine hactive.append hbytes fun r hr => ?_
      obtain ⟨command, -, hc⟩ := mem_of_mapM_ok hrecords hr
      exact sealed_of_signedRecord hc
    · exact h.files other
  | @compact uptoLsn nowMs dir hstop =>
    obtain ⟨active, hactive⟩ := h.files shard
    by_cases hne : active.filter (fun r => r.lsn ≤ uptoLsn) = []
    · obtain ⟨report, he⟩ := compactWalFile_nothing hlib hactive uptoLsn nowMs hne
      rw [he] at hstop
      cases hstop
    obtain ⟨archived, retained, ha, hr, report, he⟩ := compactWalFile_spec hlib hactive uptoLsn nowMs hne
    rw [he] at hstop
    have hfiles : ∀ other, dir.files[shardFileName other]? = log.dir.files[shardFileName other]? ∨
        dir.files[shardFileName other]? = some retained := by
      intro other
      have htemp := compactTempName_ne_shardFileName (shardFileName shard) other
      simp only [compactSteps, mem_cons, not_mem_nil, or_false] at hstop
      rcases hstop with rfl | rfl | rfl <;>
        grind
    have harchive : dir.archive = log.dir.archive.insert
      (archiveName (shardFileName shard) uptoLsn nowMs) archived := by
      simp only [compactSteps, mem_cons, not_mem_nil, or_false] at hstop
      rcases hstop with rfl | rfl | rfl <;> rfl
    refine ⟨fun other => ?_, fun name bytes hname => ?_⟩
    · rcases hfiles other with hfile | hfile
      · show ∃ records, FileHolds lib dir.files[shardFileName other]? records
        rw [hfile]
        exact h.files other
      · show ∃ records, FileHolds lib dir.files[shardFileName other]? records
        rw [hfile]
        exact ⟨_, hr⟩
    · change dir.archive[name]? = some bytes at hname
      rw [harchive, ExtTreeMap.getElem?_insert] at hname
      split at hname
      · next hk =>
        cases hname
        cases LawfulEqCmp.eq_of_compare hk
        refine ⟨isJsonl_archiveName .., _, ha, fun m hm r hr => ?_⟩
        rw [archivePathMaxLsn_archiveName hm]
        exact of_decide_eq_true (mem_filter.mp hr).2
      · exact h.archive name bytes hname

/-- Reading above a cursor is reading everything and leaving out the rest: in every run of appends
and compactions of any shards in one directory, wherever the compactions stop. -/
theorem read_after_lsn (hlib : lib.Lawful) {t : ShardLog}
    (hrun : Reaches (DirStep lib) (fun _ _ => True) .new t)
    (shard afterLsn : Nat) :
    ∃ records, t.dir.readRecordsIncludingArchives lib (shardFileName shard) = .ok records ∧
    WalDir.readRecordsAfterLsnIncludingArchives lib t.dir (shardFileName shard) afterLsn =
      .ok (records.filter (afterLsn < ·.lsn)) := by
  have hnew : CursorInv lib ShardLog.new.dir :=
    ⟨fun shard => ⟨[], by simp [ShardLog.new, encodeWalRecords], by simp⟩, by simp [ShardLog.new]⟩
  have h : CursorInv lib t.dir := hrun.invariant (I := fun log => CursorInv lib log.dir)
    (fun _ _ _ h _ hstep => h.step hlib hstep) hnew
  obtain ⟨active, hactive⟩ := h.files shard
  have hread : t.dir.readRecords lib (shardFileName shard) = .ok active := hactive.read hlib _
  have hbounded : ∀ f ∈ t.dir.archive.toList.filter fun f => isJsonl f.1, Bounded lib f.1 f.2 := fun f hf =>
    (h.archive _ _ (mem_toList_iff_getElem?_eq_some.mp (mem_of_mem_filter hf))).2
  obtain ⟨all, after, hall, hafter, heq⟩ := mapM_through hlib afterLsn hbounded
  rw [filter_filter] at hafter
  refine ⟨readRecordsIncludingArchives all.flatten active, ?_, ?_⟩
  · rw [WalDir.readRecordsIncludingArchives, WalDir.readArchiveRecords, hall, hread]
    rfl
  · rw [WalDir.readRecordsAfterLsnIncludingArchives, WalDir.readArchiveRecordsAfterLsn]
    simp only [Bool.and_comm] at hafter ⊢
    rw [hafter, hread]
    show Except.ok _ = Except.ok _
    rw [filter_append, heq, ← filter_append, recordsByLsn_filter _ (afterLsn < ·)]
    rfl

/-- One batch, all of it archived, and two cursors. -/
theorem read_after_lsn_sample :
    ∃ t : ShardLog, t.dir.archive[archiveName (shardFileName 0) 1 5]? ≠ none ∧
    ∀ afterLsn ∈ [0, 1], ∃ records,
      t.dir.readRecordsIncludingArchives sampleLibraries (shardFileName 0) = .ok records ∧
      WalDir.readRecordsAfterLsnIncludingArchives sampleLibraries t.dir (shardFileName 0) afterLsn =
        .ok (records.filter (afterLsn < ·.lsn)) := by
  obtain ⟨t, archived, hrun, -, -, harchive⟩ := reaches_archived sampleLibraries_lawful (shardFileName 0)
    signedRecord_sample encodeWalRecords_signed (show sampleSigned.lsn ≤ 1 by decide) 5
  refine ⟨t, ?_, fun afterLsn _ => read_after_lsn sampleLibraries_lawful
    (Relation.ReflTransGen.mono (fun _ _ ⟨event, _, hstep⟩ => ⟨(0, event), trivial, hstep⟩) _ _ hrun) 0 afterLsn⟩
  rw [harchive, getElem?_insert_self]
  exact Option.some_ne_none _

end NextDb.Api.Startup
