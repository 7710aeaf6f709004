import NextDb.Wal.Compact

/-!
# The integrity scan

`inspectIntegrity` reads the log file of each shard and the archives in its directory, and
reports what is wrong with the records. The archive directory is found next to the log
file, so shards with their files in one directory share it.

* `inspectIntegrity_shared`: an archived record is reported when there are two shards.
* `integrity_no_alarm`: nothing is reported in every run with one shard, or that archives
  nothing.
-/

namespace NextDb.Wal

open Run List Function Std

/-! ## Reports -/

inductive WalIntegrityFileKind where
  | active
  | archive

inductive WalIntegrityIssueSeverity where
  | warning
  | error
deriving DecidableEq

structure WalIntegrityIssue where
  severity : WalIntegrityIssueSeverity
  code : String
  path : Option String
  line : Option Nat
  lsn : Option Nat
  message : String

structure WalIntegrityLocation where
  path : String
  line : Nat
  shard : Nat

def WalIntegrityLocation.display (location : WalIntegrityLocation) : String :=
  s!"{location.path}:{location.line} shard {location.shard}"

structure WalIntegrityFileReport where
  path : String
  kind : WalIntegrityFileKind
  exists_ : Bool
  lineCount : Nat
  recordCount : Nat
  firstLsn : Option Nat
  lastLsn : Option Nat
  minTimestampMs : Option Nat
  maxTimestampMs : Option Nat

structure WalIntegrityShardReport where
  shard : Nat
  activePath : String
  archiveDir : String
  fileCount : Nat
  recordCount : Nat
  firstLsn : Option Nat
  lastLsn : Option Nat
  files : List WalIntegrityFileReport

structure WalIntegrityGap where
  afterLsn : Nat
  beforeLsn : Nat
  missingCount : Nat

structure WalIntegrityReport where
  ok : Bool
  shardCount : Nat
  fileCount : Nat
  recordCount : Nat
  uniqueLsnCount : Nat
  duplicateLsnCount : Nat
  checksumMissingCount : Nat
  checksumMismatchCount : Nat
  lowestLsn : Option Nat
  highestLsn : Nat
  gaps : List WalIntegrityGap
  shards : List WalIntegrityShardReport
  issueCount : Nat
  issuesTruncated : Bool
  issues : List WalIntegrityIssue

/-! ## One record -/

variable (lib : Libraries)

/-- An issue with a record. -/
def recordIssue (severity : WalIntegrityIssueSeverity) (code path : String) (line : Nat)
    (record : WalRecord) (message : String) : WalIntegrityIssue :=
  ⟨severity, code, some path, some line, some record.lsn, message⟩

/-- The issues with a record's place and fields. -/
def fieldIssues (path : String) (expectedShard : Nat) (previousFileLsn : Option Nat) (line : Nat)
    (record : WalRecord) : List WalIntegrityIssue :=
  let issue severity code message := recordIssue severity code path line record message
  (match previousFileLsn with
    | some previousLsn =>
      if record.lsn < previousLsn then
        [issue .error "fileLsnDecreased" s!"WAL file LSN decreased from {previousLsn} to {record.lsn}"]
      else []
    | none => []) ++
  (if record.lsn = 0 then [issue .error "zeroLsn" "WAL records must have non-zero LSNs"] else []) ++
  (if record.shard ≠ expectedShard then
    [issue .error "shardMismatch"
      s!"WAL record shard {record.shard} does not match path shard {expectedShard}"] else []) ++
  (if record.shardEpoch = 0 then
    [issue .error "zeroShardEpoch" "WAL records must have a non-zero shard epoch"] else []) ++
  (if record.schemaVersion = 0 then
    [issue .error "zeroSchemaVersion" "WAL records must have a non-zero schema version"] else []) ++
  (if record.timestampMs = 0 then
    [issue .warning "zeroTimestamp" "WAL record timestamp is zero"] else []) ++
  (if (trim record.ownerNodeId).isEmpty then
    [issue .warning "emptyOwnerNodeId"
      "WAL record ownerNodeId is empty; this is valid only for legacy records"] else []) ++
  (if record.durability = .volatile then
    [issue .error "volatileWalRecord" "volatile events must not be persisted in WAL"] else [])

def checksumIssues (path : String) (line : Nat) (record : WalRecord) : List WalIntegrityIssue :=
  let issue severity code message := recordIssue severity code path line record message
  match verifyChecksum lib record with
  | .ok .valid => []
  | .ok .missing =>
    [issue .warning "missingChecksum" "WAL record has no checksum; this is valid only for legacy records"]
  | .ok (.mismatch expected) =>
    [issue .error "checksumMismatch" s!"WAL checksum mismatch: expected {expected}, found {foundChecksum record}"]
  | .error err =>
    [issue .error "checksumFailed" s!"failed to compute WAL checksum: {err.message}"]

def recordIssues (path : String) (expectedShard : Nat) (previousFileLsn : Option Nat) (line : Nat)
    (record : WalRecord) : List WalIntegrityIssue :=
  fieldIssues path expectedShard previousFileLsn line record ++ checksumIssues lib path line record

/-- What the scan of all files carries along. -/
structure IntegrityScan where
  lsnLocations : BTreeMap Nat (List WalIntegrityLocation)
  checksumMissingCount : Nat
  checksumMismatchCount : Nat
  issues : List WalIntegrityIssue

/-- The scan of one file, and the LSN of its previous record. -/
structure FileScan where
  report : WalIntegrityFileReport
  previousFileLsn : Option Nat
  scan : IntegrityScan

def inspectRecord (path : String) (expectedShard : Nat) (state : FileScan) :
    Nat × WalRecord → FileScan
  | (line, record) =>
    let report := state.report
    let scan := state.scan
    { report := { report with
        lineCount := report.lineCount + 1
        recordCount := report.recordCount + 1
        firstLsn := some (report.firstLsn.getD record.lsn)
        lastLsn := some record.lsn
        minTimestampMs := some ((report.minTimestampMs.map (min · record.timestampMs)).getD record.timestampMs)
        maxTimestampMs := some ((report.maxTimestampMs.map (max · record.timestampMs)).getD record.timestampMs) }
      previousFileLsn := some record.lsn
      scan := {
        lsnLocations := scan.lsnLocations.insert record.lsn
          (scan.lsnLocations.getD record.lsn [] ++ [⟨path, line, expectedShard⟩])
        checksumMissingCount := scan.checksumMissingCount +
          (match verifyChecksum lib record with | .ok .missing => 1 | _ => 0)
        checksumMismatchCount := scan.checksumMismatchCount +
          (match verifyChecksum lib record with | .ok (.mismatch _) => 1 | .error _ => 1 | _ => 0)
        issues := scan.issues ++ recordIssues lib path expectedShard state.previousFileLsn line record } }

/-! ## One file -/

variable (utf8Error : Bytes → String)

def walParseFailed (path : String) (line : Option Nat) (message : String) : WalIntegrityIssue :=
  ⟨.error, "walParseFailed", some path, line, none, message⟩

/-- The lines of a legacy file that are records, and an issue for each that is not. -/
def inspectLines (path : String) (lineNumber : Nat) :
    List (List Char) → List (Nat × WalRecord) × List WalIntegrityIssue
  | [] => ([], [])
  | line :: lines =>
    let (records, issues) := inspectLines path (lineNumber + 1) lines
    if line.all isWhitespace then (records, issues)
    else
      match lib.recordFromStr (String.ofList line) with
      | .ok record => ((lineNumber, record) :: records, issues)
      | .error err =>
        (records, walParseFailed path (some lineNumber) s!"failed to parse WAL JSON line: {err.message}" :: issues)

def inspectDecodeJsonlWalRecords (path : String) (bytes : Bytes) :
    List (Nat × WalRecord) × List WalIntegrityIssue :=
  match fromUtf8 bytes with
  | some contents => inspectLines lib path 1 (linesFrom [] contents)
  | none =>
    ([], [walParseFailed path none s!"legacy WAL JSONL is not valid UTF-8: {utf8Error bytes}"])

/-- The records of a file, and the issues with what is no record. -/
def inspectDecode (path : String) (bytes : Bytes) :
    List (Nat × WalRecord) × List WalIntegrityIssue :=
  if walFrameMagic.isPrefixOf bytes then
    match decodeFramedWalRecords lib bytes with
    | .ok records => (records, [])
    | .error err => ([], [walParseFailed path none s!"failed to parse WAL frames: {err.chain}"])
  else inspectDecodeJsonlWalRecords lib utf8Error path bytes

def inspectIntegrityFile (path : String) (kind : WalIntegrityFileKind) (expectedShard : Nat)
    (file : Option Bytes) (scan : IntegrityScan) : WalIntegrityFileReport × IntegrityScan :=
  match file with
  | none =>
    (⟨path, kind, false, 0, 0, none, none, none, none⟩,
      { scan with issues := scan.issues ++ [⟨.warning, "missingWalFile", some path, none, none,
        "WAL file is missing; this is valid only before the shard has accepted writes"⟩] })
  | some bytes =>
    let (decoded, issues) := inspectDecode lib utf8Error path bytes
    let state := decoded.foldl (inspectRecord lib path expectedShard)
      ⟨⟨path, kind, true, 0, 0, none, none, none, none⟩, none,
        { scan with issues := scan.issues ++ issues }⟩
    (state.report, state.scan)

/-! ## All files -/

/-- The log files of the shards, in one directory. -/
def shardFileName (shard : Nat) : String :=
  String.ofList ("shard-".toList ++ (Nat.toDigits 10 shard).leftpad 4 '0' ++ ".jsonl".toList)

variable (root : String)

/-- The archives next to a log file, in the order of their paths. -/
def inspectArchivePaths (dir : WalDir) : List (String × Bytes) :=
  dir.archive.toList.filter fun f => isJsonl f.1

def inspectFiles (shard : Nat) : List (String × WalIntegrityFileKind × Option Bytes) →
    IntegrityScan →
    List WalIntegrityFileReport × IntegrityScan
  | [], scan => ([], scan)
  | (path, kind, file) :: files, scan =>
    let (report, scan) := inspectIntegrityFile lib utf8Error path kind shard file scan
    let (reports, scan) := inspectFiles shard files scan
    (report :: reports, scan)

/-- The archives, and then the log file. -/
def filesOfShard (dir : WalDir) (shard : Nat) :
    List (String × WalIntegrityFileKind × Option Bytes) :=
  (inspectArchivePaths dir).map (fun f => (s!"{root}/archive/{f.1}", .archive, some f.2)) ++
    [(s!"{root}/{shardFileName shard}", .active, dir.files[shardFileName shard]?)]

def inspectShard (dir : WalDir) (shard : Nat) (scan : IntegrityScan) :
    WalIntegrityShardReport × IntegrityScan :=
  let (files, scan) := inspectFiles lib utf8Error shard (filesOfShard root dir shard) scan
  ({ shard
     activePath := s!"{root}/{shardFileName shard}"
     archiveDir := s!"{root}/archive"
     fileCount := files.length
     recordCount := (files.map (·.recordCount)).sum
     firstLsn := (files.filterMap (·.firstLsn)).min?
     lastLsn := (files.filterMap (·.lastLsn)).max?
     files }, scan)

def inspectShards (dir : WalDir) :
    List Nat → IntegrityScan → List WalIntegrityShardReport × IntegrityScan
  | [], scan => ([], scan)
  | shard :: shards, scan =>
    let (report, scan) := inspectShard lib utf8Error root dir shard scan
    let (reports, scan) := inspectShards dir shards scan
    (report :: reports, scan)

/-- An LSN with more than one place. -/
def duplicateIssue (lsn : Nat) (locations : List WalIntegrityLocation) : Option WalIntegrityIssue :=
  if locations.length ≤ 1 then none
  else some ⟨.error, "duplicateLsn", locations.head?.map (·.path), locations.head?.map (·.line),
    some lsn, s!"LSN {lsn} appears in multiple WAL positions: " ++ ", ".intercalate (locations.map (·.display))⟩

/-- The gaps between the LSNs. -/
def lsnGaps : List Nat → List WalIntegrityGap
  | previousLsn :: lsn :: lsns =>
    (if previousLsn + 1 < lsn then [⟨previousLsn, lsn,
    lsn - previousLsn - 1⟩] else []) ++ lsnGaps (lsn :: lsns)
  | _ => []

def gapIssue (gap : WalIntegrityGap) : WalIntegrityIssue :=
  ⟨.warning, "lsnGap", none, none, some gap.afterLsn,
    s!"WAL LSN gap after {gap.afterLsn} before {gap.beforeLsn} ({gap.missingCount} missing)"⟩

/-- `inspect_integrity`, of the log files of `shardCount` shards in the directory. -/
def inspectIntegrity (shardCount : Nat) (dir : WalDir) : WalIntegrityReport :=
  let (shards, scan) := inspectShards lib utf8Error root dir (List.range shardCount) ⟨∅, 0, 0, []⟩
  let lsnLocations := scan.lsnLocations.toList
  let gaps := lsnGaps (lsnLocations.map Prod.fst)
  let issues := scan.issues ++ lsnLocations.filterMap (fun l => duplicateIssue l.1 l.2) ++ gaps.map gapIssue
  { ok := !issues.any fun issue => issue.severity = .error
    shardCount
    fileCount := (shards.map (·.fileCount)).sum
    recordCount := (shards.map (·.recordCount)).sum
    uniqueLsnCount := lsnLocations.length
    duplicateLsnCount := (lsnLocations.map fun l => l.2.length - 1).sum
    checksumMissingCount := scan.checksumMissingCount
    checksumMismatchCount := scan.checksumMismatchCount
    lowestLsn := (lsnLocations.head?.map Prod.fst)
    highestLsn := (lsnLocations.getLast?.map Prod.fst).getD 0
    gaps := gaps.take 100
    shards
    issueCount := issues.length
    issuesTruncated := 200 < issues.length
    issues := issues.take 200 }

variable {lib} {utf8Error : Bytes → String} {root : String}

/-! ## Records with nothing to report -/

/-- A record as a writer of the shard makes it. -/
structure OfShard (shard : Nat) (record : WalRecord) : Prop where
  lsn : record.lsn ≠ 0
  shard : record.shard = shard
  shardEpoch : record.shardEpoch ≠ 0
  schemaVersion : record.schemaVersion ≠ 0
  durability : record.durability ≠ .volatile

/-- A warning, and not about a shard. -/
structure Quiet (issue : WalIntegrityIssue) : Prop where
  severity : issue.severity = .warning
  code : issue.code ≠ "shardMismatch"

theorem Quiet.warning {code message : String} {path : Option String} {line lsn : Option Nat}
    (h : code ≠ "shardMismatch") : Quiet ⟨.warning, code, path, line, lsn, message⟩ := ⟨rfl, h⟩

variable {shard shardCount : Nat} {record : WalRecord} {records : List WalRecord}

theorem fieldIssues_quiet (h : OfShard shard record)
    {previousFileLsn : Option Nat} (hprevious : ∀ p ∈ previousFileLsn, p ≤ record.lsn)
    (path : String) (line : Nat) :
    ∀ issue ∈ fieldIssues path shard previousFileLsn line record, Quiet issue := by
  have hdecreased : ∀ p ∈ previousFileLsn, ¬ record.lsn < p := fun p hp =>
    Nat.not_lt.mpr (hprevious p hp)
  intro issue hi
  simp only [fieldIssues, h.lsn, h.shard, h.shardEpoch, h.schemaVersion, h.durability, if_false, ne_eq,
    not_true_eq_false, append_nil, mem_append] at hi
  rcases hi with (hi | hi) | hi
  · split at hi
    · rw [if_neg (hdecreased _ rfl)] at hi
      cases hi
    · cases hi
  · split at hi
    · rw [mem_singleton.mp hi]
      exact .warning (by decide)
    · cases hi
  · split at hi
    · rw [mem_singleton.mp hi]
      exact .warning (by decide)
    · cases hi

theorem checksumIssues_quiet (h : ChecksumFits lib record) (path : String) (line : Nat) :
    ∀ issue ∈ checksumIssues lib path line record, Quiet issue := by
  intro issue hi
  rcases verifyChecksum_iff.mpr h with hv | hv
  · rw [checksumIssues, hv] at hi
    rw [mem_singleton.mp hi]
    exact .warning (by decide)
  · rw [checksumIssues, hv] at hi
    cases hi

/-- What the scan knows after these LSNs, when nothing is wrong. -/
structure Scanned (scan : IntegrityScan) (lsns : List Nat) : Prop where
  quiet : ∀ issue ∈ scan.issues, Quiet issue
  locations : ∀ (lsn : Nat) (locations : List WalIntegrityLocation),
    scan.lsnLocations[lsn]? = some locations → locations.length ≤ lsns.count lsn

theorem Scanned.inspectRecord {state : FileScan}
    {lsns : List Nat} (h : Scanned state.scan lsns) (hrecord : OfShard shard record)
    (hfits : ChecksumFits lib record)
    (hprevious : ∀ p ∈ state.previousFileLsn, p ≤ record.lsn) (path : String) (line : Nat) :
    Scanned (inspectRecord lib path shard state (line, record)).scan (lsns ++ [record.lsn]) where
  quiet issue hi := by
    rcases mem_append.mp hi with hi | hi
    · exact h.quiet issue hi
    · rcases mem_append.mp hi with hi | hi
      · exact fieldIssues_quiet hrecord hprevious path line issue hi
      · exact checksumIssues_quiet hfits path line issue hi
  locations lsn locations hl := by
    change (state.scan.lsnLocations.insert record.lsn _)[lsn]? = some locations at hl
    rw [ExtTreeMap.getElem?_insert] at hl
    rw [count_append]
    split at hl
    · next he =>
      cases hl
      rw [← LawfulEqCmp.eq_of_compare he, length_append, count_singleton_self, length_singleton,
        ExtTreeMap.getD_eq_getD_getElem?]
      refine Nat.add_le_add_right ?_ 1
      cases hs : state.scan.lsnLocations[record.lsn]? with
      | none => exact Nat.zero_le _
      | some before => exact h.locations _ _ hs
    · exact (h.locations _ _ hl).trans (Nat.le_add_right ..)

/-- The records of a file, in the order of their LSNs. -/
structure InOrder (shard : Nat) (records : List WalRecord) : Prop where
  ofShard : ∀ r ∈ records, OfShard shard r
  ascending : records.Pairwise fun a b => a.lsn < b.lsn

theorem Scanned.foldl {shard : Nat} {decoded : List (Nat × WalRecord)} {state : FileScan}
    {lsns : List Nat}
    (h : Scanned state.scan lsns) (horder : InOrder shard (decoded.map Prod.snd))
    (hfits : ∀ d ∈ decoded,
    ChecksumFits lib d.2) (hprevious : ∀ p ∈ state.previousFileLsn, ∀ d ∈ decoded, p ≤ d.2.lsn)
    (path : String) :
    Scanned (decoded.foldl (Wal.inspectRecord lib path shard) state).scan (lsns ++ decoded.map (·.2.lsn)) := by
  induction decoded generalizing state lsns with
  | nil => simpa using h
  | cons d decoded ih =>
    obtain ⟨hd, hrest⟩ := pairwise_cons.mp horder.ascending
    have hone := h.inspectRecord (horder.ofShard d.2 mem_cons_self) (hfits d mem_cons_self)
      (fun p hp => hprevious p hp d mem_cons_self) path d.1
    have := @ih (Wal.inspectRecord lib path shard state d) _ hone ⟨fun r hr => horder.ofShard r (mem_cons_of_mem _ hr),
      hrest⟩ (fun d' hd' => hfits d' (mem_cons_of_mem _ hd')) (fun p hp d' hd' => by
        cases hp
        exact Nat.le_of_lt (hd _ (mem_map_of_mem hd')))
    rwa [append_assoc] at this

/-- A file that the writer wrote is decoded. -/
theorem inspectDecode_holds (utf8Error : Bytes → String) (path : String)
    (hlib : lib.Lawful) {bytes : Bytes} {decoded : List (Nat × WalRecord)}
    (h : FileHolds lib (some bytes) records)
    (hd : decodeWalRecords lib bytes = .ok decoded) :
    inspectDecode lib utf8Error path bytes = (decoded, []) := by
  obtain ⟨signed, frames, -, hf, hb⟩ := encodeWalRecords_frames hlib h.bytes
  have hb' : bytes = frames.flatten := hb
  have hframed : Framed bytes := hb' ▸ framed_flatten hf
  rcases hframed with rfl | hmagic
  · cases hd
    rfl
  · rw [decodeWalRecords_framed (.inr hmagic)] at hd
    rw [inspectDecode, if_pos (by simpa using hmagic), hd]

/-- A file with such records adds nothing but warnings. -/
theorem Scanned.inspectIntegrityFile (hlib : lib.Lawful) {shard : Nat} {scan : IntegrityScan}
    {lsns : List Nat}
    {file : Option Bytes} {records : List WalRecord} (h : Scanned scan lsns)
    (hfile : FileHolds lib file records)
    (horder : InOrder shard records) (path : String) (kind : WalIntegrityFileKind) :
    Scanned (inspectIntegrityFile lib utf8Error path kind shard file scan).2 (lsns ++ records.map (·.lsn)) := by
  cases file with
  | none =>
    obtain rfl : records = [] := Except.ok.inj (hfile.read hlib path).symm
    refine ⟨fun issue hi => ?_, fun lsn locations hl => ?_⟩
    · rcases mem_append.mp hi with hi | hi
      · exact h.quiet issue hi
      · rw [mem_singleton.mp hi]
        exact .warning (by decide)
    · simpa using h.locations lsn locations hl
  | some bytes =>
    obtain ⟨decoded, hd, rfl, hfits⟩ := readRecordsFile_ok.mp (hfile.read hlib path)
    have hdecode := inspectDecode_holds utf8Error path hlib hfile hd
    have hscan : Scanned { scan with issues := scan.issues ++ [] } lsns := by
      rw [append_nil]
      exact h
    have := @Scanned.foldl _ shard decoded ⟨⟨path, kind, true, 0, 0, none, none, none, none⟩, none,
      { scan with issues := scan.issues ++ [] }⟩ lsns hscan horder hfits nofun path
    rw [Wal.inspectIntegrityFile, hdecode, map_map]
    exact this

/-- The files hold these records, as the scan of the shard expects them. -/
def FilesHold (lib : Libraries) (shard : Nat)
    (files : List (String × WalIntegrityFileKind × Option Bytes))
    (contents : List (List WalRecord)) :
    Prop :=
  List.Forall₂ (fun f records => FileHolds lib f.2.2 records ∧ InOrder shard records) files contents

theorem Scanned.inspectFiles (hlib : lib.Lawful)
    {shard : Nat} {scan : IntegrityScan} {lsns : List Nat}
    {files : List (String × WalIntegrityFileKind × Option Bytes)}
    {contents : List (List WalRecord)} (h : Scanned scan lsns)
    (hf : FilesHold lib shard files contents) :
    Scanned (inspectFiles lib utf8Error shard files scan).2 (lsns ++ contents.flatten.map (·.lsn)) := by
  induction hf generalizing scan lsns with
  | nil => simpa [Wal.inspectFiles] using h
  | @cons f records _ _ hfile _ ih =>
    have hone := @h.inspectIntegrityFile _ utf8Error hlib _ _ _ _ _ hfile.1 hfile.2 f.1 f.2.1
    have := ih hone
    rw [append_assoc, ← map_append] at this
    exact this

theorem Scanned.inspectShards (hlib : lib.Lawful) {dir : WalDir} {shards : List Nat}
    {scan : IntegrityScan} {lsns : List Nat} {contents : Nat → List (List WalRecord)}
    (h : Scanned scan lsns)
    (hf : ∀ shard ∈ shards, FilesHold lib shard (filesOfShard root dir shard) (contents shard)) :
    Scanned (inspectShards lib utf8Error root dir shards scan).2
    (lsns ++ (shards.flatMap fun shard => (contents shard).flatten).map (·.lsn)) := by
  induction shards generalizing scan lsns with
  | nil => simpa [Wal.inspectShards] using h
  | cons shard shards ih =>
    have hone := @h.inspectFiles _ utf8Error hlib _ _ _ _ _ (hf shard mem_cons_self)
    have := ih hone fun s hs => hf s (mem_cons_of_mem _ hs)
    rw [append_assoc, ← map_append] at this
    exact this

/-- What the scan should report: nothing wrong, no LSN twice, no record of another shard. -/
structure NoAlarm (report : WalIntegrityReport) : Prop where
  ok : report.ok = true
  duplicateLsnCount : report.duplicateLsnCount = 0
  shardMismatch : ∀ issue ∈ report.issues, issue.code ≠ "shardMismatch"

theorem inspectIntegrity_noAlarm (hlib : lib.Lawful) {dir : WalDir}
    {contents : Nat → List (List WalRecord)}
    (hf : ∀ shard < shardCount, FilesHold lib shard (filesOfShard root dir shard) (contents shard))
    (hlsns : (((List.range shardCount).flatMap fun shard => (contents shard).flatten).map (·.lsn)).Nodup) :
    NoAlarm (inspectIntegrity lib utf8Error root shardCount dir) := by
  have hempty : Scanned ⟨∅, 0, 0, []⟩ [] := ⟨(fun _ h => nomatch h), fun lsn locations h => by simp at h⟩
  have hscan := @hempty.inspectShards _ utf8Error root hlib dir (range shardCount) _ _ contents fun s hs =>
    hf s (mem_range.mp hs)
  let scan := (inspectShards lib utf8Error root dir (range shardCount) ⟨∅, 0, 0, []⟩).2
  have hone : ∀ l ∈ scan.lsnLocations.toList, l.2.length ≤ 1 := fun l hl =>
    (hscan.locations _ _ (ExtTreeMap.mem_toList_iff_getElem?_eq_some.mp hl)).trans
      (nodup_iff_count_le_one.mp hlsns l.1)
  have hduplicates : scan.lsnLocations.toList.filterMap (fun l => duplicateIssue l.1 l.2) = [] :=
    filterMap_eq_nil_iff.mpr fun l hl => if_pos (hone l hl)
  have hquiet : ∀ issue ∈ scan.issues ++ scan.lsnLocations.toList.filterMap (fun l =>
      duplicateIssue l.1 l.2) ++ (lsnGaps (scan.lsnLocations.toList.map Prod.fst)).map gapIssue, Quiet issue := by
    intro issue hi
    rw [hduplicates, append_nil] at hi
    rcases mem_append.mp hi with hi | hi
    · exact hscan.quiet issue hi
    · obtain ⟨gap, -, rfl⟩ := mem_map.mp hi
      exact .warning (by decide)
  refine ⟨?_, ?_, fun issue hi => (hquiet issue (mem_of_mem_take hi)).code⟩
  · show (!any _ _) = true
    rw [Bool.not_eq_true', any_eq_false]
    intro issue hi
    rw [(hquiet issue hi).severity]
    decide
  · refine List.sum_eq_zero_iff_forall_eq_nat.mpr fun n hn => ?_
    obtain ⟨l, hl, rfl⟩ := List.mem_map.mp hn
    exact Nat.sub_eq_zero_of_le (hone l hl)

/-! ## Two shards and an archive -/

theorem mem_foldl_inspectRecord {path : String} {shard : Nat}
    {decoded : List (Nat × WalRecord)} {state : FileScan} {issue : WalIntegrityIssue}
    (h : issue ∈ state.scan.issues) :
    issue ∈ (decoded.foldl (inspectRecord lib path shard) state).scan.issues := by
  induction decoded generalizing state with
  | nil => exact h
  | cons d decoded ih => exact ih (mem_append_left _ h)

/-- A record of another shard is an error, wherever it stands in the file. -/
theorem exists_shardMismatch {path : String} {shard : Nat} {decoded : List (Nat × WalRecord)}
    {state : FileScan} {d : Nat × WalRecord} (hd : d ∈ decoded) (hne : d.2.shard ≠ shard) :
    ∃ issue ∈ (decoded.foldl (inspectRecord lib path shard) state).scan.issues,
      issue.severity = .error ∧ issue.code = "shardMismatch" := by
  induction decoded generalizing state with
  | nil => cases hd
  | cons d' decoded ih =>
    rcases mem_cons.mp hd with rfl | hd
    · let issue := recordIssue .error "shardMismatch" path d.1 d.2
        s!"WAL record shard {d.2.shard} does not match path shard {shard}"
      have hfield : issue ∈ fieldIssues path shard state.previousFileLsn d.1 d.2 := by
        simp [fieldIssues, hne, issue]
      have hmem : issue ∈ (inspectRecord lib path shard state d).scan.issues :=
        mem_append_right _ (mem_append_left _ hfield)
      exact ⟨issue, @mem_foldl_inspectRecord _ path shard decoded _ _ hmem, rfl, rfl⟩
    · exact ih hd

theorem mem_inspectIntegrityFile {path : String} {kind : WalIntegrityFileKind}
    {file : Option Bytes} {scan : IntegrityScan} {issue : WalIntegrityIssue}
    (h : issue ∈ scan.issues) :
    issue ∈ (inspectIntegrityFile lib utf8Error path kind shard file scan).2.issues := by
  cases file with
  | none => exact mem_append_left _ h
  | some bytes => exact mem_foldl_inspectRecord (mem_append_left _ h)

theorem mem_inspectFiles {shard : Nat} {files : List (String × WalIntegrityFileKind × Option Bytes)}
    {scan : IntegrityScan} {issue : WalIntegrityIssue} (h : issue ∈ scan.issues) :
    issue ∈ (inspectFiles lib utf8Error shard files scan).2.issues := by
  induction files generalizing scan with
  | nil => exact h
  | cons f files ih => exact ih (mem_inspectIntegrityFile h)

theorem mem_inspectShards {dir : WalDir} {shards : List Nat} {scan : IntegrityScan}
    {issue : WalIntegrityIssue}
    (h : issue ∈ scan.issues) :
    issue ∈ (inspectShards lib utf8Error root dir shards scan).2.issues := by
  induction shards generalizing scan with
  | nil => exact h
  | cons shard shards ih => exact ih (mem_inspectFiles h)

/-- A file with a record of another shard. -/
theorem exists_inspectFiles (hlib : lib.Lawful) {shard : Nat} {path : String}
    {kind : WalIntegrityFileKind}
    {bytes : Bytes} {records : List WalRecord} {r : WalRecord}
    (h : FileHolds lib (some bytes) records)
    (hr : r ∈ records) (hne : r.shard ≠ shard)
    {files : List (String × WalIntegrityFileKind × Option Bytes)}
    {scan : IntegrityScan} (hmem : (path, kind, some bytes) ∈ files) :
    ∃ issue ∈ (inspectFiles lib utf8Error shard files scan).2.issues, issue.severity = .error ∧
    issue.code = "shardMismatch" := by
  induction files generalizing scan with
  | nil => cases hmem
  | cons f files ih =>
    rcases mem_cons.mp hmem with rfl | hmem
    · obtain ⟨decoded, hd, rfl, -⟩ := readRecordsFile_ok.mp (h.read hlib path)
      obtain ⟨d, hmem, rfl⟩ := mem_map.mp hr
      have hdecode := inspectDecode_holds utf8Error path hlib h hd
      obtain ⟨issue, hi, he⟩ :=
        @exists_shardMismatch lib path shard decoded ⟨⟨path, kind, true, 0, 0, none, none, none, none⟩, none,
          { scan with issues := scan.issues ++ [] }⟩ d hmem hne
      have hone : issue ∈ (inspectIntegrityFile lib utf8Error path kind shard (some bytes) scan).2.issues := by
        simp only [inspectIntegrityFile, hdecode]
        exact hi
      exact ⟨issue, @mem_inspectFiles _ utf8Error shard files _ _ hone, he⟩
    · exact ih hmem

/-- With two shards in the directory, a scan finds an archived record in the wrong shard. -/
theorem inspectIntegrity_shared (hlib : lib.Lawful) {dir : WalDir} (hcount : 2 ≤ shardCount)
    {name : String} {bytes : Bytes} {r : WalRecord} (harchive : dir.archive[name]? = some bytes)
    (hname : isJsonl name = true) (h : FileHolds lib (some bytes) records) (hr : r ∈ records) :
    (inspectIntegrity lib utf8Error root shardCount dir).ok = false := by
  obtain ⟨shard, hshard, hne⟩ : ∃ shard < shardCount, r.shard ≠ shard := by
    by_cases h0 : r.shard = 0
    · exact ⟨1, by omega, by omega⟩
    · exact ⟨0, by omega, h0⟩
  have hfile : (s!"{root}/archive/{name}", WalIntegrityFileKind.archive, some bytes) ∈
      filesOfShard root dir shard := by
    refine mem_append_left _ (mem_map.mpr ⟨(name, bytes), ?_, rfl⟩)
    exact mem_filter.mpr ⟨ExtTreeMap.mem_toList_iff_getElem?_eq_some.mpr harchive, hname⟩
  have hshards : ∀ {shards : List Nat} {scan : IntegrityScan}, shard ∈ shards →
      ∃ issue ∈ (inspectShards lib utf8Error root dir shards scan).2.issues, issue.severity = .error := by
    intro shards
    induction shards with
    | nil => exact fun h => nomatch h
    | cons s shards ih =>
      intro scan hs
      rcases mem_cons.mp hs with rfl | hs
      · obtain ⟨issue, hi, he, -⟩ := @exists_inspectFiles _ utf8Error hlib _ _ _ _ _ _ h hr hne _ scan hfile
        exact ⟨issue, @mem_inspectShards _ utf8Error root dir shards _ _ hi, he⟩
      · exact ih hs
  obtain ⟨issue, hi, he⟩ := hshards (mem_range.mpr hshard)
  show (!any _ _) = false
  rw [Bool.not_eq_false', any_eq_true]
  exact ⟨issue, mem_append_left _ (mem_append_left _ hi), decide_eq_true he⟩

/-! ## Runs -/

/-- A call of `run_compact_wal` that goes through the shards. -/
structure CompactCall where
  uptoLsn : Nat
  next : Nat

/-- The directory, the records that were appended, and the LSNs of `run_compact_wal`. -/
structure WalSystem where
  dir : WalDir
  appended : List WalRecord
  lastSnapshotLsn : Nat
  lastCompactionLsn : Nat
  calls : List CompactCall

def WalSystem.new : WalSystem := ⟨⟨∅, ∅⟩, [], 0, 0, []⟩

/-- Appends, snapshots, and the steps of compactions. -/
inductive WalEvent where
  | append (shard : Nat) (commands : List WalAppendCommand)
  | snapshot (lsn : Nat)
  /-- `run_compact_wal` finds a newer snapshot. -/
  | compactBegin
  /-- The worker of the next shard compacts for the call. -/
  | compactShard (call : Nat) (nowMs : Nat)
  | compactEnd (call : Nat)

/-- A writer appends records with new LSNs, above those of its shard; a snapshot is saved;
or a call of `run_compact_wal` goes on. -/
inductive WalStep (lib : Libraries) (shardCount : Nat) : WalSystem → WalEvent → WalSystem → Prop
  | append {s : WalSystem} {shard commands records bytes} (hshard : shard < shardCount)
      (hrecords : commands.mapM (signedRecord lib shard) = .ok records)
      (hbytes : encodeWalRecords lib records = .ok bytes)
      (hlsns : ((s.appended ++ records).map (·.lsn)).Nodup)
      (hascending : ((s.appended.filter (·.shard = shard)) ++ records).Pairwise fun a b => a.lsn < b.lsn)
      (hcommands : ∀ c ∈ commands, 0 < c.lsn ∧ c.shardEpoch ≠ 0 ∧ c.durability ≠ .volatile) :
      WalStep lib shardCount s (.append shard commands)
        { s with dir := s.dir.appendFile (shardFileName shard) bytes
                 appended := s.appended ++ records }
  | snapshot {s lsn} :
      WalStep lib shardCount s (.snapshot lsn) { s with lastSnapshotLsn := lsn }
  | compactBegin {s : WalSystem} (hnew : s.lastCompactionLsn < s.lastSnapshotLsn) :
      WalStep lib shardCount s .compactBegin
        { s with calls := s.calls ++ [⟨s.lastSnapshotLsn, 0⟩] }
  | compactShard {s : WalSystem} {i nowMs} {call : CompactCall} {states : List WalDir}
      {report} (hcall : s.calls[i]? = some call) (hnext : call.next < shardCount)
      (hcompact : compactWalFile lib s.dir (shardFileName call.next) call.uptoLsn nowMs = (states,
      .ok report)) :
      WalStep lib shardCount s (.compactShard i nowMs)
        { s with dir := states.getLast?.getD s.dir
                 calls := s.calls.set i { call with next := call.next + 1 } }
  | compactEnd {s : WalSystem} {i} {call : CompactCall} (hcall : s.calls[i]? = some call)
      (hdone : call.next = shardCount) :
      WalStep lib shardCount s (.compactEnd i)
        { s with lastCompactionLsn := call.uptoLsn, calls := s.calls.eraseIdx i }

/-- The records carry a schema version; and with several shards, nothing is archived. -/
def ArchivesAlone (lib : Libraries) (shardCount : Nat) (s : WalSystem) : WalEvent → Prop
  | .append _ commands => ∀ c ∈ commands, c.schemaVersion ≠ 0
  | .compactShard i _ => shardCount ≤ 1 ∨
    ∀ call : CompactCall, s.calls[i]? = some call → ∀ records : List WalRecord,
      s.dir.readRecords lib (shardFileName call.next) = .ok records →
      ∀ r ∈ records, call.uptoLsn < r.lsn
  | _ => True

theorem shardFileName_inj {i j : Nat} (h : shardFileName i = shardFileName j) : i = j := by
  have hvalue : ∀ n : Nat, Nat.ofDigitChars 10 ((Nat.toDigits 10 n).leftpad 4 '0') 0 = n := by
    intro n
    rw [leftpad, Nat.ofDigitChars_append, Nat.ofDigitChars_replicate_zero, Nat.mul_zero, Nat.ofDigitChars_ten_toDigits]
  have hlist := String.ofList_injective h
  rw [append_left_inj, append_right_inj] at hlist
  rw [← hvalue i, ← hvalue j, hlist]

/-- What is in the log files and the archives: only one shard has archives, and no record
is in two files. -/
structure SystemInv (lib : Libraries) (shardCount : Nat) (s : WalSystem)
    (active : Nat → List WalRecord) (archived : String → List WalRecord) : Prop where
  files : ∀ i < shardCount, FileHolds lib s.dir.files[shardFileName i]? (active i) ∧
    InOrder i (active i) ∧ active i ⊆ s.appended
  archive : ∀ (name : String) (bytes : Bytes), s.dir.archive[name]? = some bytes →
    shardCount = 1 ∧ isJsonl name = true ∧ FileHolds lib (some bytes) (archived name) ∧
      InOrder 0 (archived name) ∧ archived name ⊆ s.appended ∧ (archived name).Disjoint (active 0)
  apart : ∀ (name name' : String) (bytes bytes' : Bytes), s.dir.archive[name]? = some bytes →
    s.dir.archive[name']? = some bytes' → name ≠ name' → (archived name).Disjoint (archived name')
  lsns : (s.appended.map (·.lsn)).Nodup

theorem SystemInv.new (lib : Libraries) (shardCount : Nat) :
    SystemInv lib shardCount .new (fun _ => []) (fun _ => []) where
  files i hi :=
    ⟨⟨by simp [WalSystem.new, encodeWalRecords], fun _ h => nomatch h⟩,
      ⟨(fun _ h => nomatch h), .nil⟩, nil_subset _⟩
  archive name bytes h := by simp [WalSystem.new] at h
  apart name name' bytes bytes' h := by simp [WalSystem.new] at h
  lsns := .nil

theorem InOrder.nodup (h : InOrder shard records) : records.Nodup :=
  h.ascending.imp fun hlt he => by rw [he] at hlt; exact absurd hlt (Nat.lt_irrefl _)

/-- In such a directory the scan reports nothing. -/
theorem SystemInv.noAlarm (hlib : lib.Lawful) {s : WalSystem} {active : Nat → List WalRecord}
    {archived : String → List WalRecord} (h : SystemInv lib shardCount s active archived) :
    NoAlarm (inspectIntegrity lib utf8Error root shardCount s.dir) := by
  let archives := (inspectArchivePaths s.dir).map fun f => archived f.1
  have hmem : ∀ {f : String × Bytes}, f ∈ inspectArchivePaths s.dir → s.dir.archive[f.1]? = some f.2 :=
    fun hf => ExtTreeMap.mem_toList_iff_getElem?_eq_some.mp (mem_of_mem_filter hf)
  have hfiles : ∀ i < shardCount, FilesHold lib i (filesOfShard root s.dir i) (archives ++ [active i]) := by
    intro i hi
    refine rel_append ?_ (.cons ⟨(h.files i hi).1, (h.files i hi).2.1⟩ .nil)
    rw [forall₂_map_left_iff, forall₂_map_right_iff, forall₂_same]
    intro f hf
    obtain ⟨hone, -, hholds, horder, -⟩ := h.archive _ _ (hmem hf)
    obtain rfl : i = 0 := by omega
    exact ⟨hholds, horder⟩
  refine inspectIntegrity_noAlarm hlib hfiles ?_
  have hsub : ∀ r ∈ (range shardCount).flatMap fun i => (archives ++ [active i]).flatten, r ∈ s.appended := by
    intro r hr
    obtain ⟨i, hi, hr⟩ := mem_flatMap.mp hr
    obtain ⟨records, hrecords, hr⟩ := mem_flatten.mp hr
    rcases mem_append.mp hrecords with hrecords | hrecords
    · obtain ⟨f, hf, rfl⟩ := mem_map.mp hrecords
      exact (h.archive _ _ (hmem hf)).2.2.2.2.1 hr
    · rw [mem_singleton.mp hrecords] at hr
      exact (h.files i (mem_range.mp hi)).2.2 hr
  refine Nodup.map_on (fun r hr r' hr' => inj_on_of_nodup_map h.lsns (hsub r hr) (hsub r' hr')) ?_
  have harchives : archives.flatten.Nodup := by
    refine nodup_flatten.mpr ⟨fun records hrecords => ?_, pairwise_map.mpr ?_⟩
    · obtain ⟨f, hf, rfl⟩ := mem_map.mp hrecords
      exact (h.archive _ _ (hmem hf)).2.2.2.1.nodup
    · refine (ExtTreeMap.distinct_keys_toList (t := s.dir.archive)).filter _ |>.imp_of_mem ?_
      intro f f' hf hf' hne
      exact h.apart _ _ _ _ (hmem hf) (hmem hf') fun he => hne (by simp [he])
  refine nodup_flatMap.mpr ⟨fun i hi => ?_, ?_⟩
  · rw [flatten_append, flatten_singleton]
    refine harchives.append (h.files i (mem_range.mp hi)).2.1.nodup fun r hr hr' => ?_
    obtain ⟨records, hrecords, hr⟩ := mem_flatten.mp hr
    obtain ⟨f, hf, rfl⟩ := mem_map.mp hrecords
    obtain ⟨hone, -, -, -, -, hdisjoint⟩ := h.archive _ _ (hmem hf)
    obtain rfl : i = 0 := by have := mem_range.mp hi; omega
    exact hdisjoint hr hr'
  · refine nodup_range.imp_of_mem fun {i j} hi hj hne r hr hr' => ?_
    have hnil : archives = [] := by
      refine map_eq_nil_iff.mpr (eq_nil_iff_forall_not_mem.mpr fun f hf => ?_)
      have hone := (h.archive _ _ (hmem hf)).1
      have := mem_range.mp hi
      have := mem_range.mp hj
      omega
    simp only [hnil, nil_append, flatten_singleton] at hr hr'
    have hi' := ((h.files i (mem_range.mp hi)).2.1.ofShard r hr).shard
    have hj' := ((h.files j (mem_range.mp hj)).2.1.ofShard r hr').shard
    exact hne (hi'.symm.trans hj')

theorem ofShard_of_signedRecord {command : WalAppendCommand}
    (h : signedRecord lib shard command = .ok record)
    (hlsn : 0 < command.lsn) (hepoch : command.shardEpoch ≠ 0)
    (hvolatile : command.durability ≠ .volatile)
    (hversion : command.schemaVersion ≠ 0) : OfShard shard record := by
  obtain ⟨checksum, -, rfl⟩ := refreshChecksum_ok h
  exact ⟨Nat.ne_of_gt hlsn, rfl, hepoch, hversion, hvolatile⟩

theorem SystemInv.append {shardCount shard : Nat} {s : WalSystem}
    {active : Nat → List WalRecord} {archived : String → List WalRecord}
    (h : SystemInv lib shardCount s active archived) {commands : List WalAppendCommand}
    {records : List WalRecord}
    {bytes : Bytes} (hshard : shard < shardCount)
    (hrecords : commands.mapM (signedRecord lib shard) = .ok records)
    (hbytes : encodeWalRecords lib records = .ok bytes)
    (hlsns : ((s.appended ++ records).map (·.lsn)).Nodup)
    (hascending : ((s.appended.filter (·.shard = shard)) ++ records).Pairwise fun a b => a.lsn < b.lsn)
    (hcommands : ∀ c ∈ commands, 0 < c.lsn ∧ c.shardEpoch ≠ 0 ∧ c.durability ≠ .volatile)
    (hversions : ∀ c ∈ commands, c.schemaVersion ≠ 0) : SystemInv
    lib shardCount { s with dir := s.dir.appendFile (shardFileName shard) bytes, appended := s.appended ++ records }
    (update active shard (active shard ++ records)) archived := by
  have hnew : ∀ r ∈ records, r ∉ s.appended := by
    rw [map_append, nodup_append] at hlsns
    exact fun r hr hin => hlsns.2.2 r.lsn (mem_map_of_mem hin) r.lsn (mem_map_of_mem hr) rfl
  obtain ⟨-, hsorted, habove⟩ := pairwise_append.mp hascending
  refine ⟨fun i hi => ?_, fun name bytes' hn => ?_, h.apart, hlsns⟩
  · obtain ⟨hholds, horder, hsub⟩ := h.files i hi
    show FileHolds lib (s.dir.files.insert (shardFileName shard) _)[shardFileName i]? _ ∧ _
    rw [ExtTreeMap.getElem?_insert]
    by_cases he : i = shard
    · subst he
      have hsealed : ∀ r ∈ records, Sealed lib r := fun r hr => by
        obtain ⟨command, -, hc⟩ := mem_of_mapM_ok hrecords hr
        exact sealed_of_signedRecord hc
      have happend := hholds.append hbytes hsealed
      rw [← ExtTreeMap.getD_eq_getD_getElem?] at happend
      rw [if_pos (by simp), update_self]
      refine ⟨happend, ⟨fun r hr => ?_, ?_⟩, fun r hr => ?_⟩
      · rcases mem_append.mp hr with hr | hr
        · exact horder.ofShard r hr
        · obtain ⟨command, hmem, hc⟩ := mem_of_mapM_ok hrecords hr
          obtain ⟨hlsn, hepoch, hvolatile⟩ := hcommands command hmem
          exact ofShard_of_signedRecord hc hlsn hepoch hvolatile (hversions command hmem)
      · refine pairwise_append.mpr ⟨horder.ascending, hsorted, fun r hr r' hr' => ?_⟩
        have hof := (horder.ofShard r hr).shard
        exact habove r (mem_filter.mpr ⟨hsub hr, decide_eq_true hof⟩) r' hr'
      · exact (mem_append.mp hr).elim (fun hr => mem_append_left _ (hsub hr)) (mem_append_right _)
    · have hname : ¬ compare (shardFileName shard) (shardFileName i) = .eq := fun hc =>
        he (shardFileName_inj (LawfulEqCmp.eq_of_compare hc)).symm
      rw [if_neg hname, update_of_ne he]
      exact ⟨hholds, horder, fun r hr => mem_append_left _ (hsub hr)⟩
  · obtain ⟨hone, hjsonl, hholds, horder, hsub, hdisjoint⟩ := h.archive name bytes' hn
    refine ⟨hone, hjsonl, hholds, horder, fun r hr => mem_append_left _ (hsub hr), ?_⟩
    obtain rfl : shard = 0 := by omega
    rw [update_self]
    intro r hr hr'
    rcases mem_append.mp hr' with hr' | hr'
    · exact hdisjoint hr hr'
    · exact hnew r hr' (hsub hr)

theorem InOrder.filter (h : InOrder shard records) (p : WalRecord → Bool) :
    InOrder shard (records.filter p) :=
  ⟨fun r hr => h.ofShard r (mem_of_mem_filter hr), h.ascending.filter p⟩

/-- The only shard archives the records up to the LSN. -/
theorem SystemInv.compact (hlib : lib.Lawful) {shardCount k : Nat} {s : WalSystem}
    {active : Nat → List WalRecord}
    {archived : String → List WalRecord} (h : SystemInv lib shardCount s active archived)
    (hk : k < shardCount) {uptoLsn nowMs : Nat} {states : List WalDir} {report : WalCompactReport}
    (hcompact : compactWalFile lib s.dir (shardFileName k) uptoLsn nowMs = (states, .ok report))
    (halone : shardCount ≤ 1 ∨ ∀ r ∈ active k, uptoLsn < r.lsn) (calls : List CompactCall) :
    ∃ active archived,
    SystemInv lib shardCount { s with dir := states.getLast?.getD s.dir, calls } active archived := by
  obtain ⟨hholds, horder, hsub⟩ := h.files k hk
  by_cases hne : (active k).filter (fun r => r.lsn ≤ uptoLsn) = []
  · obtain ⟨report', he⟩ := compactWalFile_nothing hlib hholds uptoLsn nowMs hne
    cases he.symm.trans hcompact
    exact ⟨active, archived, h.files, h.archive, h.apart, h.lsns⟩
  · obtain ⟨bytes, retained, ha, hr, report', he⟩ :=
      compactWalFile_spec hlib hholds uptoLsn nowMs hne
    cases he.symm.trans hcompact
    have hone : shardCount = 1 := by
      rcases halone with hone | hnone
      · omega
      · exact absurd (filter_eq_nil_iff.mpr fun r hr => by simpa using hnone r hr) hne
    obtain rfl : k = 0 := by omega
    let target := archiveName (shardFileName 0) uptoLsn nowMs
    have hother : ∀ {name : String} {bytes' : Bytes}, (s.dir.archive.insert target bytes)[name]? = some bytes' →
        name ≠ target →
          s.dir.archive[name]? = some bytes' := by
      intro name bytes' hn hne
      rwa [ExtTreeMap.getElem?_insert, if_neg (by simpa using hne.symm)] at hn
    refine ⟨fun _ => (active 0).filter fun r => uptoLsn < r.lsn, update archived target ((active 0).filter fun r =>
      r.lsn ≤ uptoLsn), fun i hi => ?_, fun name bytes' hn => ?_, fun name name' bytes₁ bytes₂ hn hn' hne => ?_, h.lsns⟩
    · obtain rfl : i = 0 := by omega
      show FileHolds lib (ExtTreeMap.insert _ (shardFileName 0) retained)[shardFileName 0]? _ ∧ _
      rw [ExtTreeMap.getElem?_insert_self]
      exact ⟨hr, horder.filter _, fun r hr => hsub (mem_of_mem_filter hr)⟩
    · by_cases hname : name = target
      · subst hname
        change (s.dir.archive.insert target bytes)[target]? = some bytes' at hn
        rw [ExtTreeMap.getElem?_insert_self] at hn
        cases hn
        rw [update_self]
        refine ⟨hone, isJsonl_archiveName .., ha, horder.filter _, fun r hr => hsub (mem_of_mem_filter hr),
          fun r hr hr' => ?_⟩
        have h₁ := of_decide_eq_true (mem_filter.mp hr).2
        have h₂ := of_decide_eq_true (mem_filter.mp hr').2
        omega
      · obtain ⟨-, hjsonl, hholds', horder', hsub', hdisjoint⟩ :=
          h.archive name bytes' (hother hn hname)
        rw [update_of_ne hname]
        exact ⟨hone, hjsonl, hholds', horder', hsub', fun r hr hr' => hdisjoint hr (mem_of_mem_filter hr')⟩
    · by_cases hname : name = target
      · have hname' : name' ≠ target := hname ▸ hne.symm
        have hdisjoint := (h.archive name' _ (hother hn' hname')).2.2.2.2.2
        rw [hname, update_self, update_of_ne hname']
        exact fun r hr hr' => hdisjoint hr' (mem_of_mem_filter hr)
      · rw [update_of_ne hname]
        by_cases hname' : name' = target
        · rw [hname', update_self]
          have hdisjoint := (h.archive name _ (hother hn hname)).2.2.2.2.2
          exact fun r hr hr' => hdisjoint hr (mem_of_mem_filter hr')
        · rw [update_of_ne hname']
          exact h.apart _ _ _ _ (hother hn hname) (hother hn' hname') hne

theorem SystemInv.step (hlib : lib.Lawful) {s t : WalSystem} {e : WalEvent}
    (h : ∃ active archived, SystemInv lib shardCount s active archived)
    (halone : ArchivesAlone lib shardCount s e)
    (hstep : WalStep lib shardCount s e t) :
    ∃ active archived, SystemInv lib shardCount t active archived := by
  obtain ⟨active, archived, h⟩ := h
  cases hstep with
  | append hshard hrecords hbytes hlsns hascending hcommands =>
    exact ⟨_, _, h.append hshard hrecords hbytes hlsns hascending hcommands halone⟩
  | snapshot | compactBegin | compactEnd => exact ⟨active, archived, h.files, h.archive, h.apart, h.lsns⟩
  | compactShard hcall hnext hcompact =>
    refine h.compact hlib hnext hcompact (halone.imp_right fun hall => ?_) _
    exact hall _ hcall _ ((h.files _ hnext).1.read hlib _)

/-- The scan raises no false alarm: in every run of any number of shards in one directory,
whose records carry a schema version, and that archives records only when there is one
shard, nothing is reported but warnings: no error, no LSN twice, no record of another
shard. -/
theorem integrity_no_alarm (hlib : lib.Lawful) (utf8Error : Bytes → String) (root : String)
    {shardCount : Nat} {t : WalSystem}
    (hrun : Reaches (WalStep lib shardCount) (ArchivesAlone lib shardCount) .new t) :
    NoAlarm (inspectIntegrity lib utf8Error root shardCount t.dir) := by
  obtain ⟨active, archived, h⟩ :=
    hrun.invariant (fun _ _ _ h halone hstep => SystemInv.step hlib h halone hstep) ⟨_, _, .new lib shardCount⟩
  exact h.noAlarm hlib

/-! ## One record, archived -/

/-- The first shard appends a record, and a call of `run_compact_wal` archives it. -/
theorem archived_sample {shardCount : Nat} (hcount : 0 < shardCount)
    {meets : WalSystem → WalEvent → Prop}
    (happend : meets .new (.append 0 [sampleCommand]))
    (hmeets : ∀ s e, (∀ shard commands, e ≠ .append shard commands) →
    meets s e) : ∃ t name bytes, Reaches (WalStep sampleLibraries shardCount) meets .new t ∧
    t.calls = [⟨1, 1⟩] ∧
    t.dir.files[shardFileName 1]? = none ∧ t.dir.archive[name]? = some bytes ∧ isJsonl name = true ∧
    FileHolds sampleLibraries (some bytes) [sampleSigned] := by
  have hsigned := signedRecord_sample
  have hm : [sampleCommand].mapM (signedRecord sampleLibraries 0) = .ok [sampleSigned] := by
    rw [mapM_cons, hsigned]
    rfl
  have hbytes := encodeWalRecords_signed
  let s₁ : WalSystem := { WalSystem.new with
    dir := WalSystem.new.dir.appendFile (shardFileName 0) (walFrame sampleLibraries sampleBytes)
    appended := [sampleSigned] }
  have h₁ : WalStep sampleLibraries shardCount .new (.append 0 [sampleCommand]) s₁ :=
    .append hcount hm hbytes (nodup_singleton _) (pairwise_singleton _ _) fun c hc => by
      rw [mem_singleton.mp hc]
      decide
  let s₂ : WalSystem := { s₁ with lastSnapshotLsn := 1 }
  let s₃ : WalSystem := { s₂ with calls := [⟨1, 0⟩] }
  have hfile : FileHolds sampleLibraries s₃.dir.files[shardFileName 0]? [sampleSigned] := by
    show FileHolds _ (ExtTreeMap.insert ∅ (shardFileName 0) _)[shardFileName 0]? _
    rw [ExtTreeMap.getElem?_insert_self]
    refine ⟨?_, fun r hr => mem_singleton.mp hr ▸ sealed_of_signedRecord hsigned⟩
    simpa [WalSystem.new] using hbytes
  obtain ⟨bytes, retained, ha, -, report, he⟩ :=
    compactWalFile_spec sampleLibraries_lawful hfile 1 5 (cons_ne_nil _ _)
  have h₄ := WalStep.compactShard (s := s₃) (i := 0) rfl hcount he
  have hsnapshot := hmeets s₁ (.snapshot 1) (by simp)
  have hbegin := hmeets s₂ .compactBegin (by simp)
  have hcompact := hmeets s₃ (.compactShard 0 5) (by simp)
  refine ⟨_, archiveName (shardFileName 0) 1 5, bytes,
    ((((Reaches.refl _).tail happend h₁).tail hsnapshot .snapshot).tail hbegin (.compactBegin Nat.zero_lt_one)).tail
    hcompact h₄, rfl, ?_, ?_, isJsonl_archiveName .., ha⟩
  · have hne : ¬ compare (shardFileName 0) (shardFileName 1) = .eq := fun hc =>
      absurd (shardFileName_inj (LawfulEqCmp.eq_of_compare hc)) (by decide)
    show ((ExtTreeMap.erase _ (compactTempName (shardFileName 0))).insert (shardFileName 0) retained)[shardFileName
      1]? = none
    rw [ExtTreeMap.getElem?_insert, if_neg hne, ExtTreeMap.getElem?_erase]
    split
    · rfl
    · next htemp =>
      rw [ExtTreeMap.getElem?_insert, if_neg htemp]
      show (ExtTreeMap.insert ∅ (shardFileName 0) _)[shardFileName 1]? = none
      rw [ExtTreeMap.getElem?_insert, if_neg hne, ExtTreeMap.getElem?_empty]
  · exact ExtTreeMap.getElem?_insert_self

/-- With one shard, the archived record is no cause for alarm. -/
theorem integrity_no_alarm_sample : ∃ t :
    WalSystem, t.dir.archive ≠ ∅ ∧
    NoAlarm (inspectIntegrity sampleLibraries (fun _ => "") "data/wal" 1 t.dir) := by
  obtain ⟨t, name, bytes, hrun, -, -, harchive, -⟩ :=
    @archived_sample 1 Nat.zero_lt_one (ArchivesAlone sampleLibraries 1)
      (fun c hc => by rw [mem_singleton.mp hc]; decide) fun s e he => by
      cases e with
      | append shard commands => exact absurd rfl (he shard commands)
      | compactShard i nowMs => exact .inl (Nat.le_refl 1)
      | _ => trivial
  refine ⟨t, fun hempty => ?_, integrity_no_alarm sampleLibraries_lawful _ _ hrun⟩
  rw [hempty, ExtTreeMap.getElem?_empty] at harchive
  cases harchive

/-- With two shards, a finished call of `run_compact_wal` makes the scan fail. -/
theorem integrity_alarm_sample :
    ∃ t : WalSystem, Reaches (WalStep sampleLibraries 2) (fun _ _ => True) .new t ∧
    t.calls = [] ∧ (inspectIntegrity sampleLibraries (fun _ => "") "data/wal" 2 t.dir).ok =
    false := by
  obtain ⟨t, name, bytes, hrun, hcalls, hmissing, harchive, hname, hholds⟩ :=
    @archived_sample 2 (by decide) (fun _ _ => True) trivial fun _ _ _ => trivial
  have hfile : FileHolds sampleLibraries t.dir.files[shardFileName 1]? [] := by
    rw [hmissing]
    exact ⟨rfl, fun _ h => nomatch h⟩
  obtain ⟨report, he⟩ := compactWalFile_nothing sampleLibraries_lawful hfile 1 6 rfl
  have hcall : t.calls[0]? = some ⟨1, 1⟩ := by rw [hcalls]; rfl
  have hnext := hrun.tail trivial (WalStep.compactShard hcall (by decide) he)
  have hcall' : (t.calls.set 0 ⟨1, 2⟩)[0]? = some ⟨1, 2⟩ := by rw [hcalls]; rfl
  refine ⟨_, hnext.tail trivial (.compactEnd hcall' rfl), ?_, ?_⟩
  · show (t.calls.set 0 ⟨1, 2⟩).eraseIdx 0 = []
    rw [hcalls]
    rfl
  · exact inspectIntegrity_shared sampleLibraries_lawful (Nat.le_refl 2) harchive hname hholds (mem_singleton_self _)

end NextDb.Wal
