import NextDb.Wal.Append
import NextDb.Wal.ByLsn
import NextDb.Wal.Writer

/-!
# Compaction

`compactWalFile` moves the records of a log file up to an LSN to a file of the archive
directory, and replaces the log file by one with the records above it. The archive file
is named after the log file, the LSN and the clock; creating it truncates a file that has
the name.

* `compact_keeps_records`: what was appended is read back from the archives and the log
  file, wherever a compaction stops, in every run that overwrites an archive only when
  its records are still elsewhere.
-/

namespace NextDb.Wal

open Framing Run List Std Std.ExtTreeMap

/-! ## The directory -/

/-- The directory of the log files, and the archive directory in it. -/
structure WalDir where
  files : BTreeMap String Bytes
  archive : BTreeMap String Bytes

/-- A file name before and behind its last dot, unless the dot comes first. -/
def splitExtension (name : List Char) : List Char × Option (List Char) :=
  match name.reverse.dropWhile (· ≠ '.') with
  | [] => (name, none)
  | _ :: stem =>
    if stem.isEmpty then (name, none)
    else (stem.reverse, some (name.reverse.takeWhile (· ≠ '.')).reverse)

/-- `Path::file_stem`. -/
def fileStem (name : String) : String := String.ofList (splitExtension name.toList).1

/-- `path.extension() == Some("jsonl")`. -/
def isJsonl (name : String) : Bool := (splitExtension name.toList).2 = some "jsonl".toList

def archiveName (name : String) (uptoLsn nowMs : Nat) : String :=
  fileStem name ++ s!"-through-{uptoLsn}-{nowMs}" ++ ".jsonl"

def compactTempName (name : String) : String := name ++ ".compact.tmp"

/-- What the writer appends to a log file, which it creates when it is missing. -/
def WalDir.appendFile (dir : WalDir) (name : String) (bytes : Bytes) : WalDir :=
  { dir with files := dir.files.insert name (dir.files.getD name [] ++ bytes) }

/-- `fs::rename` of a log file. -/
def WalDir.rename (dir : WalDir) (source target : String) : WalDir :=
  match dir.files[source]? with
  | some bytes => { dir with files := (dir.files.erase source).insert target bytes }
  | none => dir

variable (lib : Libraries)

def WalDir.readRecords (dir : WalDir) (name : String) : Result (List WalRecord) :=
  readRecordsFile lib name dir.files[name]?

def WalDir.readArchive (dir : WalDir) (name : String) : Result (List WalRecord) :=
  readRecordsFile lib name dir.archive[name]?

def WalDir.readArchiveRecords (dir : WalDir) : Result (List WalRecord) := do
  let files ← ((dir.archive.toList.filter fun f => isJsonl f.1).mapM fun f =>
    readRecordsFile lib f.1 (some f.2))
  .ok files.flatten

def WalDir.readRecordsIncludingArchives (dir : WalDir) (name : String) : Result (List WalRecord) :=
  do
  let archived ← dir.readArchiveRecords lib
  let active ← dir.readRecords lib name
  .ok (Wal.readRecordsIncludingArchives archived active)

/-! ## The compaction -/

structure WalCompactReport where
  uptoLsn : Nat
  archived : Nat
  retained : Nat
  archivePath : Option String

/-- The file is created, which truncates it, before the records are encoded. -/
def writeRecordsFile (files : BTreeMap String Bytes) (name : String) (records : List WalRecord) :
    BTreeMap String Bytes × Result Unit :=
  match encodeWalRecords lib records with
  | .ok encoded => (files.insert name encoded, .ok ())
  | .error err => (files.insert name [], .error err)

/-- The directory after each step, and the report. -/
def compactWalFile (dir : WalDir) (name : String) (uptoLsn nowMs : Nat) :
    List WalDir × Result WalCompactReport :=
  match dir.readRecords lib name with
  | .error err => ([], .error err)
  | .ok records =>
    let archivedRecords := records.filter fun r => r.lsn ≤ uptoLsn
    let retainedRecords := records.filter fun r => uptoLsn < r.lsn
    if archivedRecords.isEmpty then ([], .ok ⟨uptoLsn, 0, retainedRecords.length, none⟩)
    else
      let archivePath := archiveName name uptoLsn nowMs
      let (archive, written) := writeRecordsFile lib dir.archive archivePath archivedRecords
      let archiveWritten := { dir with archive }
      match written with
      | .error err => ([archiveWritten], .error err)
      | .ok () =>
        let (files, written) :=
          writeRecordsFile lib dir.files (compactTempName name) retainedRecords
        let tempWritten := { archiveWritten with files }
        match written with
        | .error err => ([archiveWritten, tempWritten], .error err)
        | .ok () =>
          let renamed := tempWritten.rename (compactTempName name) name
          ([archiveWritten, tempWritten, renamed],
            .ok ⟨uptoLsn, archivedRecords.length, retainedRecords.length, some archivePath⟩)

variable {lib}

/-! ## Names -/

theorem splitExtension_jsonl {stem : List Char} (h : stem ≠ []) :
    splitExtension (stem ++ ".jsonl".toList) = (stem, some "jsonl".toList) := by
  have hrev : (stem ++ ".jsonl".toList).reverse = ['l', 'n', 'o', 's', 'j'] ++ '.' :: stem.reverse := by
    rw [reverse_append]
    rfl
  rw [splitExtension, hrev, dropWhile_append_of_pos (by simp), takeWhile_append_of_pos (by simp)]
  rw [dropWhile_cons_of_neg (by decide), takeWhile_cons_of_neg (by decide)]
  show (if stem.reverse.isEmpty then _ else _ : _ × Option (List Char)) = _
  rw [if_neg (by simpa using h), reverse_reverse]
  rfl

theorem isJsonl_archiveName (name : String) (uptoLsn nowMs : Nat) :
    isJsonl (archiveName name uptoLsn nowMs) = true := by
  rw [isJsonl, archiveName, String.toList_append, splitExtension_jsonl ?_]
  · exact decide_eq_true rfl
  · rw [String.toList_append]
    intro h
    have hnil := (append_eq_nil_iff.mp h).2
    have hlen := congrArg length hnil
    simp [String.toList_append] at hlen

theorem compactTempName_ne (name : String) : compactTempName name ≠ name := by
  intro h
  have hlen := congrArg String.length h
  rw [compactTempName, String.length_append] at hlen
  exact absurd hlen (by show name.length + 12 ≠ name.length; omega)

/-! ## What a file holds -/

/-- A record as it is written, with its own checksum. -/
structure Sealed (lib : Libraries) (record : WalRecord) : Prop where
  ensured : ensureChecksum lib record = .ok record
  fits : ChecksumFits lib record

/-- A log file with these records, or none with no record. -/
structure FileHolds (lib : Libraries) (file : Option Bytes) (records : List WalRecord) : Prop where
  bytes : encodeWalRecords lib records = .ok (file.getD [])
  sealed : ∀ r ∈ records, Sealed lib r

variable {shard : Nat} {record : WalRecord} {records active : List WalRecord} {bytes : Bytes}
    {dir : WalDir}
  {name : String} {command : WalAppendCommand} {uptoLsn : Nat}

theorem sealed_of_signedRecord (h : signedRecord lib shard command = .ok record) :
    Sealed lib record :=
  ⟨(signedRecord_ok h).2.1, (signedRecord_ok h).2.2⟩

theorem eq_of_ensured {signed : List WalRecord} (hr : ∀ r ∈ records, Sealed lib r)
    (h : List.Forall₂ (fun r s => ensureChecksum lib r = .ok s) records signed) :
    signed = records := by
  induction h with
  | nil => rfl
  | cons ha _ ih =>
    rw [(hr _ mem_cons_self).ensured] at ha
    cases ha
    rw [ih fun r hr' => hr r (mem_cons_of_mem _ hr')]

/-- What a file holds is read back from it. -/
theorem FileHolds.read (hlib : lib.Lawful) {file : Option Bytes} {records : List WalRecord}
    (h : FileHolds lib file records) (path : String) :
    readRecordsFile lib path file = .ok records := by
  obtain ⟨signed, frames, hs, hf, hb⟩ := encodeWalRecords_frames hlib h.bytes
  have hsigned := eq_of_ensured h.sealed hs
  subst hsigned
  have hd := decodeWalRecords_frames' hf
  rw [← hb] at hd
  cases file with
  | none =>
    have hnil : numbered 1 signed = [] := by simpa [decodeWalRecords] using hd.symm
    have hlen := congrArg length hnil
    rw [length_numbered] at hlen
    rw [length_eq_zero_iff.mp hlen]
    rfl
  | some bytes =>
    refine readRecordsFile_ok.mpr ⟨_, hd, (map_snd_numbered ..).symm, fun d hd' => ?_⟩
    have hmem := mem_map_of_mem (f := Prod.snd) hd'
    rw [map_snd_numbered] at hmem
    exact (h.sealed _ hmem).fits

theorem encodeWalRecords_cons : encodeWalRecords lib (record :: records) = .ok bytes ↔
    ∃ frame encoded, encodeWalRecords
    lib [record] = .ok frame ∧ encodeWalRecords lib records = .ok encoded ∧
    bytes = frame ++ encoded := by
  constructor
  · intro h
    obtain ⟨signed, hs, h⟩ := bind_eq_ok.mp h
    obtain ⟨frame, hf, h⟩ := bind_eq_ok.mp h
    obtain ⟨encoded, he, h⟩ := bind_eq_ok.mp h
    cases h
    exact ⟨frame, encoded, encodeWalRecords_single hs hf, he, rfl⟩
  · rintro ⟨frame, encoded, hf, he, rfl⟩
    obtain ⟨signed, hs, hf⟩ := bind_eq_ok.mp hf
    obtain ⟨frame', hf', hf⟩ := bind_eq_ok.mp hf
    cases hf
    rw [encodeWalRecords, hs]
    show encodeWalRecordFrame lib signed >>= _ = _
    rw [hf']
    show encodeWalRecords lib records >>= _ = _
    rw [he, append_nil]
    rfl

theorem encodeWalRecords_append {more : List WalRecord}
    {encoded : Bytes} (h : encodeWalRecords lib records = .ok bytes)
    (hmore : encodeWalRecords lib more = .ok encoded) :
    encodeWalRecords lib (records ++ more) = .ok (bytes ++ encoded) := by
  induction records generalizing bytes with
  | nil => cases h; exact hmore
  | cons r records ih =>
    obtain ⟨frame, rest, hf, hr, rfl⟩ := encodeWalRecords_cons.mp h
    rw [cons_append, append_assoc]
    exact encodeWalRecords_cons.mpr ⟨frame, _, hf, ih hr, rfl⟩

theorem encodeWalRecords_filter (h : encodeWalRecords lib records = .ok bytes)
    (p : WalRecord → Bool) :
    ∃ encoded, encodeWalRecords lib (records.filter p) = .ok encoded := by
  induction records generalizing bytes with
  | nil => exact ⟨_, h⟩
  | cons r records ih =>
    obtain ⟨frame, rest, hf, hr, rfl⟩ := encodeWalRecords_cons.mp h
    obtain ⟨encoded, he⟩ := ih hr
    rw [filter_cons]
    split
    · exact ⟨_, encodeWalRecords_cons.mpr ⟨frame, encoded, hf, he, rfl⟩⟩
    · exact ⟨encoded, he⟩

theorem encodeWalRecords_take (h : encodeWalRecords lib records = .ok bytes) (i : Nat) :
    encodeWalRecords lib (records.take i) = .ok (bytes.take (frameEnd lib records i)) := by
  induction records generalizing bytes i with
  | nil =>
    cases h
    rw [take_nil, take_nil]
    rfl
  | cons record records ih =>
    cases i with
    | zero => rfl
    | succ i =>
      obtain ⟨frame, encoded, hframe, hencoded, rfl⟩ := encodeWalRecords_cons.mp h
      have hbytes : frameBytes lib record = frame := by rw [frameBytes, hframe]
      have hend : frameEnd lib (record :: records) (i + 1) = frame.length + frameEnd lib records i := by
        rw [frameEnd, map_cons, Framing.endOf_cons_succ, hbytes]
        rfl
      rw [hend, take_length_add_append]
      exact encodeWalRecords_cons.mpr ⟨frame, _, hframe, ih hencoded i, rfl⟩

theorem frameEnd_encode (hlib : lib.Lawful) (h : encodeWalRecords lib records = .ok bytes) :
    frameEnd lib records records.length = bytes.length := by
  obtain ⟨signed, -, -, rfl⟩ := encodeWalRecords_frameBytes hlib h
  rw [frameEnd, Framing.endOf, ← length_map (frameBytes lib), take_length]

theorem FileHolds.append {file : Option Bytes} {records more : List WalRecord} {encoded : Bytes}
    (h : FileHolds lib file records) (he : encodeWalRecords lib more = .ok encoded)
    (hmore : ∀ r ∈ more, Sealed lib r) :
    FileHolds lib (some (file.getD [] ++ encoded)) (records ++ more) where
  bytes := encodeWalRecords_append h.bytes he
  sealed r hr := (mem_append.mp hr).elim (h.sealed r) (hmore r)

/-- Writing some of the records of a file. -/
theorem FileHolds.write {file : Option Bytes} {records : List WalRecord}
    (h : FileHolds lib file records)
    (p : WalRecord → Bool) (files : BTreeMap String Bytes) (name : String) :
    ∃ bytes, writeRecordsFile lib files name
    (records.filter p) = (files.insert name bytes, .ok ()) ∧
    FileHolds lib (some bytes) (records.filter p) := by
  obtain ⟨bytes, hb⟩ := encodeWalRecords_filter h.bytes p
  refine ⟨bytes, by rw [writeRecordsFile, hb], hb, fun r hr => h.sealed r (mem_of_mem_filter hr)⟩

/-! ## The directory, step by step -/

/-- The directory after the archive, the temporary file and the renaming. -/
def compactSteps (dir : WalDir) (name : String) (uptoLsn nowMs : Nat) (archived retained : Bytes) :
    List WalDir :=
  let archive := dir.archive.insert (archiveName name uptoLsn nowMs) archived
  let files := dir.files.insert (compactTempName name) retained
  [⟨dir.files, archive⟩, ⟨files, archive⟩, ⟨(files.erase (compactTempName name)).insert name retained, archive⟩]

/-- A compaction with something to archive takes its three steps. -/
theorem compactWalFile_spec (hlib : lib.Lawful) (h : FileHolds lib dir.files[name]? records)
    (uptoLsn nowMs : Nat) (hne : records.filter (fun r => r.lsn ≤ uptoLsn) ≠ []) :
    ∃ archived retained, FileHolds lib (some archived) (records.filter fun r => r.lsn ≤ uptoLsn) ∧
    FileHolds lib (some retained) (records.filter fun r => uptoLsn < r.lsn) ∧
    ∃ report, compactWalFile lib dir name
    uptoLsn nowMs = (compactSteps dir name uptoLsn nowMs archived retained, .ok report) := by
  obtain ⟨archived, ha, harchived⟩ :=
    h.write (fun r => r.lsn ≤ uptoLsn) dir.archive (archiveName name uptoLsn nowMs)
  obtain ⟨retained, hr, hretained⟩ :=
    h.write (fun r => uptoLsn < r.lsn) dir.files (compactTempName name)
  refine ⟨archived, retained, harchived, hretained, ?_⟩
  have hread : dir.readRecords lib name = .ok records := h.read hlib name
  rw [compactWalFile, hread]
  show ∃ report, (if (records.filter fun r => r.lsn ≤ uptoLsn).isEmpty then _ else _) = _
  rw [if_neg (by simpa using hne)]
  simp only [ha, hr, WalDir.rename, getElem?_insert_self]
  exact ⟨_, rfl⟩

theorem compactWalFile_nothing (hlib : lib.Lawful) (h : FileHolds lib dir.files[name]? records)
    (uptoLsn nowMs : Nat) (hnil : records.filter (fun r => r.lsn ≤ uptoLsn) = []) :
    ∃ report, compactWalFile lib dir name uptoLsn nowMs = ([], .ok report) := by
  have hread : dir.readRecords lib name = .ok records := h.read hlib name
  rw [compactWalFile, hread]
  show ∃ report, (if (records.filter fun r => r.lsn ≤ uptoLsn).isEmpty then _ else _) = _
  rw [if_pos (by simpa using hnil)]
  exact ⟨_, rfl⟩

/-- The archive files are ones that are read, and hold records. -/
def ArchiveHolds (lib : Libraries) (dir : WalDir) : Prop :=
  ∀ (n : String) (bytes : Bytes), dir.archive[n]? = some bytes →
    isJsonl n = true ∧ ∃ records, FileHolds lib (some bytes) records

/-- The records of the archives are those of each archive file. -/
theorem readArchiveRecords_ok (hlib : lib.Lawful) (h : ArchiveHolds lib dir) :
    ∃ archived, dir.readArchiveRecords lib =
    .ok archived ∧ ∀ r, r ∈ archived ↔ ∃ n records, dir.readArchive lib n = .ok records ∧
    r ∈ records := by
  have hmem : ∀ {f : String × Bytes}, f ∈ dir.archive.toList.filter (fun f => isJsonl f.1) ↔
      dir.archive[f.1]? = some f.2 := by
    intro f
    rw [mem_filter, mem_toList_iff_getElem?_eq_some]
    exact and_iff_left_of_imp fun hf => (h _ _ hf).1
  have hread : ∀ f ∈ dir.archive.toList.filter (fun f => isJsonl f.1), ∃ records,
      (fun f => readRecordsFile lib f.1 (some f.2)) f = .ok records := by
    intro f hf
    obtain ⟨records, hr⟩ := (h _ _ (hmem.mp hf)).2
    exact ⟨records, hr.read hlib f.1⟩
  obtain ⟨files, hfiles⟩ := mapM_ok_of_forall hread
  refine ⟨files.flatten, ?_, fun r => ?_⟩
  · rw [WalDir.readArchiveRecords, hfiles]
    rfl
  · rw [mem_flatten]
    constructor
    · intro ⟨records, hrecords, hr⟩
      obtain ⟨f, hf, hread⟩ := mem_of_mapM_ok hfiles hrecords
      refine ⟨f.1, records, ?_, hr⟩
      rw [WalDir.readArchive, hmem.mp hf]
      exact hread
    · intro ⟨n, records, hread, hr⟩
      cases hn : dir.archive[n]? with
      | none =>
        rw [WalDir.readArchive, hn] at hread
        cases hread
        cases hr
      | some bytes =>
        obtain ⟨records', hmem', hread'⟩ := mem_mapM_of_mem hfiles ((@hmem (n, bytes)).mpr hn)
        rw [WalDir.readArchive, hn] at hread
        rw [hread] at hread'
        cases hread'
        exact ⟨records, hmem', hr⟩

/-! ## Runs -/

/-- The log of a shard, and what was appended to it. -/
structure ShardLog where
  dir : WalDir
  appended : List WalRecord

def ShardLog.new : ShardLog := ⟨⟨∅, ∅⟩, []⟩

/-- Appends and compactions of a shard. -/
inductive ShardEvent where
  | append (commands : List WalAppendCommand)
  | compact (uptoLsn nowMs : Nat)

/-- The worker appends a batch of records with new LSNs, or compacts and stops behind
any of the steps. -/
inductive ShardStep (lib : Libraries) (shard : Nat) (name : String) :
    ShardLog → ShardEvent → ShardLog → Prop
  | append {log : ShardLog} {commands records bytes} (hrecords : commands.mapM (signedRecord lib shard) = .ok records)
      (hbytes : encodeWalRecords lib records = .ok bytes)
      (hlsns : ((log.appended ++ records).map (·.lsn)).Nodup) :
      ShardStep lib shard name log (.append commands) ⟨log.dir.appendFile name bytes,
      log.appended ++ records⟩
  | compact {log : ShardLog} {uptoLsn nowMs dir}
      (hstop : dir ∈ (compactWalFile lib log.dir name uptoLsn nowMs).1) :
      ShardStep lib shard name log (.compact uptoLsn nowMs) ⟨dir, log.appended⟩

/-- What an archive of the name holds is still in the log file, or in another archive. -/
def KeepsArchive (lib : Libraries) (name : String) (log : ShardLog) : ShardEvent → Prop
  | .append _ => True
  | .compact uptoLsn nowMs =>
    ∀ records : List WalRecord, log.dir.readArchive lib (archiveName name uptoLsn nowMs) =
    .ok records → ∀ r ∈ records,
        (∃ active, log.dir.readRecords lib name = .ok active ∧ r ∈ active) ∨
        ∃ n other, n ≠ archiveName name uptoLsn nowMs ∧ log.dir.readArchive lib n = .ok other ∧
        r ∈ other

/-- What was appended is in the log file or in an archive. -/
structure LogInv (lib : Libraries) (name : String) (log : ShardLog) (active : List WalRecord) :
    Prop where
  file : FileHolds lib log.dir.files[name]? active
  archive : ArchiveHolds lib log.dir
  present : ∀ r, r ∈ log.appended ↔ r ∈ active ∨ ∃ n records, log.dir.readArchive lib n = .ok records ∧ r ∈ records
  lsns : (log.appended.map (·.lsn)).Nodup

theorem LogInv.new (lib : Libraries) (name : String) : LogInv lib name .new [] where
  file := ⟨by simp [ShardLog.new, encodeWalRecords], fun _ h => nomatch h⟩
  archive n bytes h := by simp [ShardLog.new] at h
  present r := by
    have hread : ∀ n, (ShardLog.new.dir.readArchive lib n : Result _) = .ok [] := fun n => by
      simp [ShardLog.new, WalDir.readArchive, readRecordsFile]
    simp [ShardLog.new] at hread ⊢
    simp [hread]
  lsns := .nil

theorem LogInv.append {log : ShardLog} {shard : Nat}
    {name : String} {active records : List WalRecord} {commands : List WalAppendCommand}
    {bytes : Bytes} (h : LogInv lib name log active)
    (hrecords : commands.mapM (signedRecord lib shard) = .ok records)
    (hbytes : encodeWalRecords lib records = .ok bytes)
    (hlsns : ((log.appended ++ records).map (·.lsn)).Nodup) :
    LogInv lib name ⟨log.dir.appendFile name bytes,
    log.appended ++ records⟩ (active ++ records) where
  file := by
    have hsealed : ∀ r ∈ records, Sealed lib r := fun r hr => by
      obtain ⟨command, -, hc⟩ := mem_of_mapM_ok hrecords hr
      exact sealed_of_signedRecord hc
    have happend := h.file.append hbytes hsealed
    rw [← getD_eq_getD_getElem?] at happend
    show FileHolds lib (log.dir.files.insert name (log.dir.files.getD name [] ++ bytes))[name]? _
    rwa [getElem?_insert_self]
  archive := h.archive
  present r := by
    show r ∈ log.appended ++ records ↔ r ∈ active ++ records ∨ ∃ n records, log.dir.readArchive lib n = .ok records ∧
      r ∈ records
    rw [mem_append, mem_append, h.present r, or_right_comm]
  lsns := hlsns

variable {log : ShardLog}

/-- The records up to the LSN get to the archive, whether or not they leave the log file. -/
theorem LogInv.archived (hlib : lib.Lawful) {active' : List WalRecord}
    (h : LogInv lib name log active) {nowMs : Nat}
    (hkeeps : KeepsArchive lib name log (.compact uptoLsn nowMs)) {archived : Bytes}
    (ha : FileHolds lib (some archived) (active.filter fun r => r.lsn ≤ uptoLsn))
    (hdir : dir.archive = log.dir.archive.insert (archiveName name uptoLsn nowMs) archived)
    (hfile : FileHolds lib dir.files[name]? active')
    (hactive : ∀ r, r ∈ active' ∨ r ∈ active.filter (fun r => r.lsn ≤ uptoLsn) ↔ r ∈ active) :
    LogInv lib name ⟨dir, log.appended⟩ active' := by
  let target := archiveName name uptoLsn nowMs
  have hself : dir.readArchive lib target = .ok (active.filter fun r => r.lsn ≤ uptoLsn) := by
    rw [WalDir.readArchive, hdir, getElem?_insert_self]
    exact ha.read hlib target
  have hother : ∀ {n}, n ≠ target → dir.readArchive lib n = log.dir.readArchive lib n := by
    intro n hn
    rw [WalDir.readArchive, hdir, ExtTreeMap.getElem?_insert, if_neg (by simpa using hn.symm)]
    rfl
  refine ⟨hfile, fun n bytes hn => ?_, fun r => ?_, h.lsns⟩
  · rw [hdir, ExtTreeMap.getElem?_insert] at hn
    split at hn
    · next he =>
      cases hn
      rw [← LawfulEqCmp.eq_of_compare he]
      exact ⟨isJsonl_archiveName .., _, ha⟩
    · exact h.archive n bytes hn
  · show r ∈ log.appended ↔ _
    have hin : r ∈ active → r ∈ active' ∨ ∃ n records, dir.readArchive lib n = .ok records ∧ r ∈ records :=
      fun hr => ((hactive r).mpr hr).imp_right fun hr => ⟨target, _, hself, hr⟩
    constructor
    · intro hr
      rcases (h.present r).mp hr with hr | ⟨n, records, hread, hr⟩
      · exact hin hr
      · by_cases hn : n = target
        · subst hn
          rcases hkeeps records hread r hr with ⟨active₁, hread₁, hr⟩ | ⟨n, other, hne, hread, hr⟩
          · rw [WalDir.readRecords, h.file.read hlib] at hread₁
            cases hread₁
            exact hin hr
          · exact .inr ⟨n, other, (hother hne).trans hread, hr⟩
        · exact .inr ⟨n, records, (hother hn).trans hread, hr⟩
    · rintro (hr | ⟨n, records, hread, hr⟩)
      · exact (h.present r).mpr (.inl ((hactive r).mp (.inl hr)))
      · by_cases hn : n = target
        · subst hn
          rw [hself] at hread
          cases hread
          exact (h.present r).mpr (.inl (mem_of_mem_filter hr))
        · exact (h.present r).mpr (.inr ⟨n, records, (hother hn).symm.trans hread, hr⟩)

theorem LogInv.compact (hlib : lib.Lawful)
    {log : ShardLog} {name : String} {active : List WalRecord} (h : LogInv lib name log active)
    {uptoLsn nowMs : Nat} {dir : WalDir}
    (hkeeps : KeepsArchive lib name log (.compact uptoLsn nowMs))
    (hstop : dir ∈ (compactWalFile lib log.dir name uptoLsn nowMs).1) :
    ∃ active', LogInv lib name ⟨dir, log.appended⟩ active' := by
  by_cases hne : active.filter (fun r => r.lsn ≤ uptoLsn) = []
  · obtain ⟨report, he⟩ := compactWalFile_nothing hlib h.file uptoLsn nowMs hne
    rw [he] at hstop
    cases hstop
  · obtain ⟨archived, retained, ha, hr, report, he⟩ :=
      compactWalFile_spec hlib h.file uptoLsn nowMs hne
    rw [he] at hstop
    have hboth : ∀ r, r ∈ active ∨ r ∈ active.filter (fun r => r.lsn ≤ uptoLsn) ↔ r ∈ active :=
      fun r => or_iff_left_of_imp mem_of_mem_filter
    have hsplit : ∀ r, r ∈ active.filter (fun r => uptoLsn < r.lsn) ∨ r ∈ active.filter (fun r => r.lsn ≤ uptoLsn) ↔
        r ∈ active := fun r => by
      simp only [mem_filter, decide_eq_true_eq, ← and_or_left]
      exact and_iff_left (Nat.lt_or_ge uptoLsn r.lsn)
    simp only [compactSteps, mem_cons, not_mem_nil, or_false] at hstop
    rcases hstop with rfl | rfl | rfl
    · exact ⟨_, h.archived hlib hkeeps ha rfl h.file hboth⟩
    · refine ⟨_, h.archived hlib hkeeps ha rfl ?_ hboth⟩
      rw [ExtTreeMap.getElem?_insert, if_neg (by simpa using compactTempName_ne name)]
      exact h.file
    · refine ⟨_, h.archived hlib hkeeps ha rfl ?_ hsplit⟩
      rw [getElem?_insert_self]
      exact hr

theorem LogInv.step (hlib : lib.Lawful) {s t : ShardLog} {e : ShardEvent}
    (h : ∃ active, LogInv lib name s active)
    (hkeeps : KeepsArchive lib name s e) (hstep : ShardStep lib shard name s e t) :
    ∃ active, LogInv lib name t active := by
  obtain ⟨active, h⟩ := h
  cases hstep with
  | append hrecords hbytes hlsns => exact ⟨_, h.append hrecords hbytes hlsns⟩
  | compact hstop => exact h.compact hlib hkeeps hstop

/-- What was appended is read back, each record once and in the order of their LSNs. -/
theorem LogInv.readRecordsIncludingArchives (hlib : lib.Lawful) (h : LogInv lib name log active) :
    ∃ records, log.dir.readRecordsIncludingArchives lib name = .ok records ∧
    records.Pairwise (fun a b => a.lsn < b.lsn) ∧ ∀ r, r ∈ records ↔ r ∈ log.appended := by
  obtain ⟨archived, ha, hmem⟩ := readArchiveRecords_ok hlib h.archive
  have hboth : ∀ r, r ∈ archived ++ active ↔ r ∈ log.appended := fun r => by
    rw [mem_append, hmem, or_comm, h.present]
  have hdistinct : ∀ r ∈ archived ++ active, ∀ r' ∈ archived ++ active, r.lsn = r'.lsn → r = r' :=
    fun r hr r' hr' => inj_on_of_nodup_map h.lsns ((hboth r).mp hr) ((hboth r').mp hr')
  refine ⟨Wal.readRecordsIncludingArchives archived active, ?_, readRecords_ascending .., fun r => ?_⟩
  · rw [WalDir.readRecordsIncludingArchives, ha, WalDir.readRecords, h.file.read hlib]
    rfl
  · rw [mem_readRecords_of_distinct hdistinct, hboth]

/-- A compaction that is not stopped leaves the records above the LSN in the log file. -/
theorem FileHolds.compacted (hlib : lib.Lawful) (h : FileHolds lib dir.files[name]? active)
    (uptoLsn nowMs : Nat) :
    ∃ states report, compactWalFile lib dir name uptoLsn nowMs = (states, .ok report) ∧
    (states.getLast?.getD dir).readRecords lib name =
    .ok (active.filter fun r => uptoLsn < r.lsn) := by
  by_cases hne : active.filter (fun r => r.lsn ≤ uptoLsn) = []
  · obtain ⟨report, he⟩ := compactWalFile_nothing hlib h uptoLsn nowMs hne
    refine ⟨_, _, he, (h.read hlib name).trans ?_⟩
    rw [filter_eq_self.mpr fun r hr => ?_]
    have := filter_eq_nil_iff.mp hne r hr
    simp only [decide_eq_true_eq] at this ⊢
    omega
  · obtain ⟨archived, retained, -, hr, report, he⟩ := compactWalFile_spec hlib h uptoLsn nowMs hne
    refine ⟨_, _, he, ?_⟩
    show readRecordsFile lib name (insert _ name retained)[name]? = _
    rw [getElem?_insert_self]
    exact hr.read hlib name

/-- Compaction loses nothing: in every run of a shard that overwrites an archive only
when its records are still in the log file or in another archive, and that stops behind
any step of a compaction, the records that were appended are read back, each once; and a
compaction that is not stopped succeeds, and leaves the records above the LSN. -/
theorem compact_keeps_records (hlib : lib.Lawful) {shard : Nat} {name : String}
    {t : ShardLog} (hrun : Reaches (ShardStep lib shard name) (KeepsArchive lib name) .new t) :
    (∃ records,
    t.dir.readRecordsIncludingArchives lib name = .ok records ∧
    records.Pairwise (fun a b => a.lsn < b.lsn) ∧ ∀ r,
    r ∈ records ↔ r ∈ t.appended) ∧ ∀ uptoLsn nowMs, ∃ active states report,
    t.dir.readRecords lib name = .ok active ∧
    compactWalFile lib t.dir name uptoLsn nowMs = (states, .ok report) ∧
    (states.getLast?.getD t.dir).readRecords lib name =
    .ok (active.filter fun r => uptoLsn < r.lsn) := by
  obtain ⟨active, h⟩ : ∃ active, LogInv lib name t active :=
    hrun.invariant (fun _ _ _ h hkeeps hstep => LogInv.step hlib h hkeeps hstep) ⟨[], .new lib name⟩
  refine ⟨h.readRecordsIncludingArchives hlib, fun uptoLsn nowMs => ?_⟩
  obtain ⟨states, report, he, hread⟩ := h.file.compacted hlib uptoLsn nowMs
  exact ⟨active, states, report, h.file.read hlib name, he, hread⟩

/-! ## Two compactions of one name -/

/-- A compaction that archives all records. -/
theorem LogInv.archiveAll (hlib : lib.Lawful) {shard : Nat} {log : ShardLog} {name : String}
    {active : List WalRecord}
    (h : LogInv lib name log active) {uptoLsn nowMs : Nat} (hne : active ≠ [])
    (hle : ∀ r ∈ active, r.lsn ≤ uptoLsn) :
    ∃ t archived, ShardStep lib shard name log (.compact uptoLsn nowMs) t ∧
    t.appended = log.appended ∧ FileHolds lib t.dir.files[name]? [] ∧
    FileHolds lib (some archived) active ∧
    t.dir.archive = log.dir.archive.insert (archiveName name uptoLsn nowMs) archived := by
  have hall : active.filter (fun r => r.lsn ≤ uptoLsn) = active :=
    filter_eq_self.mpr fun r hr => decide_eq_true (hle r hr)
  have hnone : active.filter (fun r => uptoLsn < r.lsn) = [] :=
    filter_eq_nil_iff.mpr fun r hr => by simpa using hle r hr
  obtain ⟨archived, retained, ha, hr, report, he⟩ :=
    compactWalFile_spec hlib h.file uptoLsn nowMs (by rwa [hall])
  rw [hall] at ha
  rw [hnone] at hr
  let files := log.dir.files.insert (compactTempName name) retained
  let dir : WalDir := ⟨(files.erase (compactTempName name)).insert name retained,
    log.dir.archive.insert (archiveName name uptoLsn nowMs) archived⟩
  have hstop : dir ∈ (compactWalFile lib log.dir name uptoLsn nowMs).1 := by
    rw [he]
    exact mem_cons_of_mem _ (mem_cons_of_mem _ mem_cons_self)
  have hfile : FileHolds lib dir.files[name]? [] := by
    rw [getElem?_insert_self]
    exact hr
  exact ⟨⟨dir, log.appended⟩, archived, .compact hstop, rfl, hfile, ha, rfl⟩

/-- The records of an archive directory with one file. -/
theorem readArchiveRecords_only (hlib : lib.Lawful) {target : String}
    (htarget : isJsonl target = true)
    (h : FileHolds lib (some bytes) records)
    (honly : ∀ n, dir.archive[n]? = if n = target then some bytes else none) :
    ∃ archived, dir.readArchiveRecords lib = .ok archived ∧ ∀ r, r ∈ archived ↔ r ∈ records := by
  have hholds : ArchiveHolds lib dir := by
    intro n bytes' hn
    rw [honly] at hn
    split at hn
    · next he =>
      cases hn
      rw [he]
      exact ⟨htarget, records, h⟩
    · cases hn
  obtain ⟨archived, harchived, hmem⟩ := readArchiveRecords_ok hlib hholds
  refine ⟨archived, harchived, fun r => (hmem r).trans ⟨?_, fun hr => ?_⟩⟩
  · intro ⟨n, records', hread, hr⟩
    rw [WalDir.readArchive, honly] at hread
    split at hread
    · rw [h.read hlib n] at hread
      cases hread
      exact hr
    · cases hread
      cases hr
  · refine ⟨target, records, ?_, hr⟩
    rw [WalDir.readArchive, honly, if_pos rfl]
    exact h.read hlib target

/-- One batch is appended, and all of it archived. -/
theorem reaches_archived (hlib : lib.Lawful) (name : String) {bytes : Bytes}
    (h : signedRecord lib shard command = .ok record)
    (hb : encodeWalRecords lib [record] = .ok bytes) (hle : record.lsn ≤ uptoLsn) (nowMs : Nat) :
    ∃ t archived, Reaches (ShardStep lib shard name) (KeepsArchive lib name) .new t ∧
    t.appended = [record] ∧
    LogInv lib name t [] ∧
    t.dir.archive = (∅ : BTreeMap _ _).insert (archiveName name uptoLsn nowMs) archived := by
  have hm : [command].mapM (signedRecord lib shard) = .ok [record] := by rw [mapM_cons, h]; rfl
  let s : ShardLog := ⟨ShardLog.new.dir.appendFile name bytes, ShardLog.new.appended ++ [record]⟩
  have hlsns : (s.appended.map (·.lsn)).Nodup := nodup_singleton _
  have hinv : LogInv lib name s [record] := (LogInv.new lib name).append hm hb hlsns
  obtain ⟨t, archived, ht, happ, hfile, -, harchive⟩ :=
    @hinv.archiveAll _ hlib shard _ _ _ uptoLsn nowMs (cons_ne_nil _ _) (by simpa using hle)
  have hkeeps : KeepsArchive lib name s (.compact uptoLsn nowMs) := fun records hread r hr => by
    have hnone : s.dir.readArchive lib (archiveName name uptoLsn nowMs) = .ok [] := by
      simp [s, ShardLog.new, WalDir.appendFile, WalDir.readArchive, readRecordsFile]
    cases hnone.symm.trans hread
    cases hr
  obtain ⟨active, hinv'⟩ := LogInv.step hlib ⟨_, hinv⟩ hkeeps ht
  obtain rfl : active = [] := by
    have hread := hfile.read hlib name
    rw [hinv'.file.read hlib name] at hread
    exact Except.ok.inj hread
  exact ⟨t, archived, ((Reaches.refl _).tail trivial (.append hm hb hlsns)).tail hkeeps ht, happ, hinv', harchive⟩

/-- Two compactions with one LSN and one reading of the clock: the second overwrites the
archive of the first, and what was appended before the first is lost. -/
theorem compact_overwrites (hlib : lib.Lawful) (name : String) {first second : WalAppendCommand}
    {r₁ r₂ : WalRecord}
    {bytes₁ bytes₂ : Bytes} (h₁ : signedRecord lib shard first = .ok r₁)
    (h₂ : signedRecord lib shard second = .ok r₂)
    (hb₁ : encodeWalRecords lib [r₁] = .ok bytes₁) (hb₂ : encodeWalRecords lib [r₂] = .ok bytes₂)
    (hne : r₁.lsn ≠ r₂.lsn) (hle₁ : r₁.lsn ≤ uptoLsn) (hle₂ : r₂.lsn ≤ uptoLsn) (nowMs : Nat) :
    ∃ t records, Reaches (ShardStep lib shard name) (fun _ _ => True) .new t ∧ r₁ ∈ t.appended ∧
    t.dir.readRecordsIncludingArchives lib name = .ok records ∧ r₁ ∉ records := by
  obtain ⟨s, archived₁, hs, happ, hinv, harchive⟩ := reaches_archived hlib name h₁ hb₁ hle₁ nowMs
  have hm₂ : [second].mapM (signedRecord lib shard) = .ok [r₂] := by rw [mapM_cons, h₂]; rfl
  have hlsns₂ : ((s.appended ++ [r₂]).map (·.lsn)).Nodup := by
    rw [happ]
    simpa using hne
  have hinv₂ := hinv.append hm₂ hb₂ hlsns₂
  obtain ⟨t, archived₂, ht, happ₂, hfile₂, ha₂, harchive₂⟩ :=
    @hinv₂.archiveAll _ hlib shard _ _ _ uptoLsn nowMs (cons_ne_nil _ _) (by simpa using hle₂)
  have honly : ∀ n, t.dir.archive[n]? =
      if n = archiveName name uptoLsn nowMs then some archived₂ else none := by
    intro n
    rw [harchive₂, ExtTreeMap.getElem?_insert]
    change (if _ then _ else s.dir.archive[n]?) = _
    rw [harchive, ExtTreeMap.getElem?_insert, getElem?_empty]
    by_cases hn : n = archiveName name uptoLsn nowMs
    · simp [hn]
    · simp [hn, Ne.symm hn]
  obtain ⟨archived, harchived, hmem⟩ :=
    readArchiveRecords_only hlib (isJsonl_archiveName ..) ha₂ honly
  refine ⟨t, Wal.readRecordsIncludingArchives archived [], ((hs.weaken fun _ _ _ => trivial).tail trivial
    (.append hm₂ hb₂ hlsns₂)).tail trivial ht, ?_, ?_, fun hr => ?_⟩
  · rw [happ₂, happ]
    exact mem_append_left _ (mem_singleton_self _)
  · rw [WalDir.readRecordsIncludingArchives, harchived, WalDir.readRecords, hfile₂.read hlib]
    rfl
  · have hin := (recordsByLsn_some (mem_readRecordsIncludingArchives.mp hr)).2
    rw [append_nil] at hin
    exact hne (congrArg WalRecord.lsn (mem_singleton.mp ((hmem r₁).mp hin)))

/-! ## Two concrete records -/

/-- The record of the second command, its JSON text, digest and postcard bytes. -/
def laterCommand : WalAppendCommand := { sampleCommand with lsn := 2 }

def laterTextBytes : Bytes := sampleTextBytes.set 7 0x32

def laterDigest : Bytes :=
  [0xa7, 0xcd, 0x9e, 0x3b, 0x13, 0x82, 0xa1, 0xb9, 0x3a, 0x92, 0xae, 0x74, 0xa2, 0x63, 0xc4,
   0x0e, 0xef, 0x74, 0x54, 0x70, 0xcf, 0x42, 0x44, 0x07, 0x6a, 0xf8, 0x46, 0x71, 0xf8, 0x65,
   0x06, 0x7f]

def laterChecksum : String := "sha256:" ++ hexLower laterDigest

def laterBytes : Bytes :=
  [0x02, 0x00, 0x01, 0x00, 0x00, 0x01, 0x00, 0x0e, 0x01, 0x72, 0x07, 0x01, 0x47, 0x73, 0x68,
   0x61, 0x32, 0x35, 0x36, 0x3a, 0x61, 0x37, 0x63, 0x64, 0x39, 0x65, 0x33, 0x62, 0x31, 0x33,
   0x38, 0x32, 0x61, 0x31, 0x62, 0x39, 0x33, 0x61, 0x39, 0x32, 0x61, 0x65, 0x37, 0x34, 0x61,
   0x32, 0x36, 0x33, 0x63, 0x34, 0x30, 0x65, 0x65, 0x66, 0x37, 0x34, 0x35, 0x34, 0x37, 0x30,
   0x63, 0x66, 0x34, 0x32, 0x34, 0x34, 0x30, 0x37, 0x36, 0x61, 0x66, 0x38, 0x34, 0x36, 0x37,
   0x31, 0x66, 0x38, 0x36, 0x35, 0x30, 0x36, 0x37, 0x66]

def laterSigned : WalRecord := { sampleSigned with lsn := 2, checksum := some laterChecksum }

/-- The libraries at the values that the two records pass them. -/
def pairLibraries : Libraries :=
  { sampleLibraries with
    toAllocvec
      | ⟨2, 0, 1, "", 0, 1, .strict, .hostHttpCompleted "r" 7, some checksum⟩ =>
        if checksum = laterChecksum then .ok laterBytes else bail "not sampled"
      | frame => sampleLibraries.toAllocvec frame
    fromBytes bytes :=
      if bytes = laterBytes then
        .ok ⟨2, 0, 1, "", 0, 1, .strict, .hostHttpCompleted "r" 7, some laterChecksum⟩
      else sampleLibraries.fromBytes bytes
    materialToVec
      | ⟨2, 0, 1, "", 0, 1, .strict, .hostHttpCompleted "r" 7⟩ => .ok laterTextBytes
      | material => sampleLibraries.materialToVec material
    sha256 bytes := if bytes = laterTextBytes then laterDigest else sampleLibraries.sha256 bytes
    crc32c bytes := if bytes = laterBytes then 0x731b740a else sampleLibraries.crc32c bytes }

theorem pairLibraries_lawful : pairLibraries.Lawful where
  postcard := by
    intro frame bytes h
    simp only [pairLibraries] at h ⊢
    split at h
    · split at h
      · next hc => cases h; subst hc; simp
      · cases h
    · have hread := sampleLibraries_lawful.postcard h
      split
      · next hb =>
        subst hb
        simp [sampleLibraries, sampleBytes, laterBytes] at hread
        cases hread
      · exact hread
  postcard_ne_nil := by
    intro frame bytes h
    simp only [pairLibraries] at h
    split at h
    · split at h
      · cases h; exact cons_ne_nil _ _
      · cases h
    · exact sampleLibraries_lawful.postcard_ne_nil h
  schema := sampleLibraries_lawful.schema
  migration := sampleLibraries_lawful.migration

theorem signedRecord_later : signedRecord pairLibraries 0 laterCommand = .ok laterSigned := by
  have hd : pairLibraries.sha256 laterTextBytes = laterDigest := by simp [pairLibraries]
  have hc : computeChecksum pairLibraries { laterSigned with checksum := none } = .ok laterChecksum :=
    congrArg (fun d => Except.ok ("sha256:" ++ hexLower d)) hd
  show refreshChecksum pairLibraries { laterSigned with checksum := none } = _
  rw [refreshChecksum, hc]
  rfl

theorem signedRecord_pair : signedRecord pairLibraries 0 sampleCommand = .ok sampleSigned := by
  have hd : pairLibraries.sha256 sampleTextBytes = sampleDigest := by
    have hne : sampleTextBytes ≠ laterTextBytes := by decide
    simp [pairLibraries, hne, sampleLibraries]
  have hc : computeChecksum pairLibraries sampleRecord = .ok sampleChecksum :=
    congrArg (fun d => Except.ok ("sha256:" ++ hexLower d)) hd
  show refreshChecksum pairLibraries sampleRecord = _
  rw [refreshChecksum, hc]
  rfl

/-- The frame of a record that postcard writes as these bytes. -/
theorem encodeWalRecords_one {frame : PostcardWalRecordFrame} {payload : Bytes}
    (he : ensureChecksum lib record = .ok record)
    (hf : PostcardWalRecordFrame.fromRecord lib record = .ok frame)
    (hp : lib.toAllocvec frame = .ok payload) (hlen : payload.length ≤ walFrameMaxBytes) :
    encodeWalRecords lib [record] = .ok (walFrame lib payload) := by
  have hframe : encodeWalRecordFrame lib record = .ok (walFrame lib payload) := by
    rw [encodeWalRecordFrame, hf]
    show (lib.toAllocvec frame >>= _) = _
    rw [hp]
    exact if_neg (Nat.not_lt.mpr hlen)
  exact encodeWalRecords_single he hframe

theorem encodeWalRecords_pair :
    encodeWalRecords pairLibraries [sampleSigned] = .ok (walFrame pairLibraries sampleBytes) ∧
    encodeWalRecords pairLibraries [laterSigned] = .ok (walFrame pairLibraries laterBytes) := by
  have hp : pairLibraries.toAllocvec ⟨1, 0, 1, "", 0, 1, .strict, .hostHttpCompleted "r" 7, some sampleChecksum⟩ =
        .ok sampleBytes := by simp [pairLibraries, sampleLibraries]
  have hl : pairLibraries.toAllocvec ⟨2, 0, 1, "", 0, 1, .strict, .hostHttpCompleted "r" 7, some laterChecksum⟩ =
        .ok laterBytes := by simp [pairLibraries]
  exact ⟨encodeWalRecords_one rfl rfl hp (by decide), encodeWalRecords_one rfl rfl hl (by decide)⟩

/-- One batch, all of it archived: it is read back. -/
theorem compact_keeps_records_sample :
    ∃ t : ShardLog, t.appended = [sampleSigned] ∧
    t.dir.archive[archiveName "shard-0000.jsonl" 1 5]? ≠ none ∧
    ∃ records, t.dir.readRecordsIncludingArchives pairLibraries "shard-0000.jsonl" = .ok records ∧
    records.Pairwise (fun a b => a.lsn < b.lsn) ∧ ∀ r, r ∈ records ↔ r ∈ t.appended := by
  obtain ⟨t, archived, hrun, happ, -, harchive⟩ := reaches_archived pairLibraries_lawful "shard-0000.jsonl"
    signedRecord_pair encodeWalRecords_pair.1 (show sampleSigned.lsn ≤ 1 by decide) 5
  refine ⟨t, happ, ?_, (compact_keeps_records pairLibraries_lawful hrun).1⟩
  rw [harchive, getElem?_insert_self]
  exact Option.some_ne_none _

/-- The second of two compactions up to LSN 2 at the same millisecond loses record 1. -/
theorem compact_overwrites_sample : ∃ (t : ShardLog) (records : List WalRecord),
    Reaches (ShardStep pairLibraries 0 "shard-0000.jsonl") (fun _ _ => True) .new t ∧
    sampleSigned ∈ t.appended ∧
    t.dir.readRecordsIncludingArchives pairLibraries "shard-0000.jsonl" = .ok records ∧
    sampleSigned ∉ records := by
  have hle₁ : sampleSigned.lsn ≤ 2 := by decide
  have hle₂ : laterSigned.lsn ≤ 2 := by decide
  exact compact_overwrites pairLibraries_lawful "shard-0000.jsonl" signedRecord_pair
    signedRecord_later encodeWalRecords_pair.1 encodeWalRecords_pair.2 (by decide) hle₁ hle₂ 5

end NextDb.Wal
