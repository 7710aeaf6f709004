import NextDb.Wal.Frame

/-!
# Reading a log file

A file that starts with the frame magic is a row of frames; any other is legacy
text with one JSON record a line. `readRecordsFile` fails at the first fault and
at the first wrong checksum. `readRecoverableRecordsFile` keeps the frames before
the first fault and reports it as a quarantine.

A file is the bytes it holds, or `none` when it does not exist.
-/

namespace NextDb.Wal

open Framing

variable (lib : Libraries)

/-! ## Frames -/

/-- The error of the reader that stops at a fault. -/
def FrameFault.error (frame : Nat) : FrameFault → Error
  | .truncatedHeader => ⟨s!"truncated WAL frame header at frame {frame}", []⟩
  | .invalidMagic => ⟨s!"invalid WAL frame magic at frame {frame}", []⟩
  | .unsupportedVersion _ err => err.context s!"parse WAL frame {frame} header"
  | .emptyPayload => ⟨s!"empty WAL frame payload at frame {frame}", []⟩
  | .exceedsMaxSize len =>
    ⟨s!"WAL frame {frame} exceeds max size: {len} bytes > {walFrameMaxBytes} bytes", []⟩
  | .truncatedPayload => ⟨s!"truncated WAL frame payload at frame {frame}", []⟩
  | .crc32c err => err.context s!"verify WAL frame {frame} CRC32C"
  | .payload err => err

/-- The reason that the reader which recovers a prefix reports. -/
def FrameFault.reason (frame : Nat) : FrameFault → String
  | .truncatedHeader => s!"truncated WAL frame header at frame {frame}"
  | .invalidMagic => s!"invalid WAL frame magic at frame {frame}"
  | .unsupportedVersion version _ => s!"unsupported WAL frame version {version} at frame {frame}"
  | .emptyPayload => s!"empty WAL frame payload at frame {frame}"
  | .exceedsMaxSize len =>
    s!"WAL frame {frame} exceeds max size: {len} bytes > {walFrameMaxBytes} bytes"
  | .truncatedPayload => s!"truncated WAL frame payload at frame {frame}"
  | .crc32c err => s!"failed WAL frame CRC32C at frame {frame}: {err.message}"
  | .payload err => s!"parse WAL frame {frame}: {err.message}"

def decodeFrame : Next UInt8 WalRecord Error := fun frame rest =>
  (readFrame lib frame rest).mapError (·.error frame)

def decodeFramedWalRecords (bytes : Bytes) : Result (List (Nat × WalRecord)) :=
  readAll (decodeFrame lib) 1 bytes

structure WalQuarantineReport where
  path : String
  frame : Nat
  offset : Nat
  reason : String
deriving DecidableEq

structure RecoverableWalRecords where
  records : List WalRecord
  quarantined : Option WalQuarantineReport

/-- The stored checksum, as the errors print it. -/
def foundChecksum (record : WalRecord) : String := record.checksum.getD ""

/-- A frame of the reader that recovers a prefix: its record's checksum is
checked with it. -/
def recoverFrame : Next UInt8 WalRecord String := fun frame rest =>
  match readFrame lib frame rest with
  | .error fault => .error (fault.reason frame)
  | .ok (record, n) =>
    match verifyChecksum lib record with
    | .ok .valid | .ok .missing => .ok (record, n)
    | .ok (.mismatch expected) =>
      .error s!"WAL checksum mismatch at frame {frame}: expected {expected}, found {foundChecksum record}"
    | .error err => .error s!"failed to compute WAL checksum at frame {frame}: {err.message}"

def quarantineReport (path : String) (stop : Stop String) : WalQuarantineReport where
  path := path
  frame := stop.frame
  offset := stop.offset
  reason := stop.reason

def decodeFramedWalRecordsPrefix (path : String) (bytes : Bytes) : RecoverableWalRecords :=
  let decoded := readPrefix (recoverFrame lib) 1 0 bytes
  ⟨decoded.1, decoded.2.map (quarantineReport path)⟩

/-! ## Legacy text -/

/-- A line without the carriage return before its newline. -/
def stripCarriageReturn (line : List Char) : List Char :=
  if line.getLast? = some '\r' then line.dropLast else line

/-- `str::lines`, with the characters of the current line in `line`. -/
def linesFrom (line : List Char) : List Char → List (List Char)
  | [] => if line.isEmpty then [] else [line]
  | c :: rest =>
    if c = '\n' then stripCarriageReturn line :: linesFrom [] rest else linesFrom (line ++ [c]) rest

def parseLines (lineNumber : Nat) : List (List Char) → Result (List (Nat × WalRecord))
  | [] => .ok []
  | line :: lines =>
    if line.all isWhitespace then parseLines (lineNumber + 1) lines
    else do
      let record ← withContext s!"parse legacy WAL JSON line {lineNumber}" (lib.recordFromStr (String.ofList line))
      let records ← parseLines (lineNumber + 1) lines
      .ok ((lineNumber, record) :: records)

/-- `str::from_utf8`. -/
def fromUtf8 (bytes : Bytes) : Option (List Char) := bytes.toByteArray.utf8Decode?.map Array.toList

variable {bytes : Bytes} {record : WalRecord}

theorem fromUtf8_iff {cs : List Char} :
    fromUtf8 bytes = some cs ↔ bytes = cs.flatMap String.utf8EncodeChar := by
  have hinj : ∀ {a b : Bytes}, a.toByteArray = b.toByteArray → a = b := by
    intro a b h
    have := congrArg ByteArray.data h
    simpa using this
  constructor
  · intro h
    obtain ⟨decoded, hd, rfl⟩ := Option.map_eq_some_iff.mp h
    have hsome : bytes.toByteArray.utf8Decode?.isSome := by simp [hd]
    have henc := @ByteArray.utf8Encode_get_utf8Decode? bytes.toByteArray hsome
    simp only [hd, Option.get_some] at henc
    exact hinj henc.symm
  · rintro rfl
    have : (cs.flatMap String.utf8EncodeChar).toByteArray = cs.utf8Encode := rfl
    rw [fromUtf8, this, List.utf8Decode?_utf8Encode]
    rfl

def decodeJsonlWalRecords (bytes : Bytes) : Result (List (Nat × WalRecord)) := do
  let contents ← okOr "legacy WAL JSONL is not valid UTF-8" (fromUtf8 bytes)
  parseLines lib 1 (linesFrom [] contents)

/-! ## Files -/

def decodeWalRecords (bytes : Bytes) : Result (List (Nat × WalRecord)) :=
  if bytes.isEmpty then .ok []
  else if walFrameMagic.isPrefixOf bytes then decodeFramedWalRecords lib bytes
  else decodeJsonlWalRecords lib bytes

/-- The records of a decoded file, when no checksum is wrong. -/
def checkRecords : List (Nat × WalRecord) → Result (List WalRecord)
  | [] => .ok []
  | (index, record) :: decoded => do
    match ← verifyChecksum lib record with
    | .mismatch expected =>
      bail s!"WAL checksum mismatch at frame {index}: expected {expected}, found {foundChecksum record}"
    | _ =>
      let records ← checkRecords decoded
      .ok (record :: records)

def readRecordsFile (path : String) : Option Bytes → Result (List WalRecord)
  | none => .ok []
  | some bytes => do
    let decoded ← withContext s!"parse WAL file {path}" (decodeWalRecords lib bytes)
    checkRecords lib decoded

/-- The records of a legacy file before the first wrong checksum. -/
def recoverLines (path : String) : List (Nat × WalRecord) → Result RecoverableWalRecords
  | [] => .ok ⟨[], none⟩
  | (index, record) :: decoded => do
    match ← verifyChecksum lib record with
    | .mismatch expected =>
      .ok ⟨[], some {
        path
        frame := index
        offset := 0
        reason := s!"WAL checksum mismatch at legacy line {index}: expected {expected}, found {foundChecksum record}" }⟩
    | _ =>
      let recovered ← recoverLines path decoded
      .ok { recovered with records := record :: recovered.records }

def readRecoverableRecordsFile (path : String) : Option Bytes → Result RecoverableWalRecords
  | none => .ok ⟨[], none⟩
  | some bytes =>
    if bytes.isEmpty then .ok ⟨[], none⟩
    else if walFrameMagic.isPrefixOf bytes then .ok (decodeFramedWalRecordsPrefix lib path bytes)
    else do
      let decoded ← withContext s!"parse legacy WAL file {path}" (decodeJsonlWalRecords lib bytes)
      recoverLines lib path decoded

/-! ## Framed files -/

variable {lib}

/-- A file in the framed format, as far as the reader's first look goes. -/
def Framed (bytes : Bytes) : Prop := bytes = [] ∨ walFrameMagic <+: bytes

theorem magic_of_whole {frame : Bytes} (hw : (readFrame lib).Whole record frame) (tail : Bytes) :
    walFrameMagic <+: frame ++ tail := by
  obtain ⟨n, _, hok⟩ := hw.2 0 tail
  obtain ⟨headerLen, hf⟩ := readFrame_ok.mp hok
  rw [← hf.magic]
  exact List.take_prefix ..

theorem framed_flatten {records : List WalRecord} {frames : List Bytes}
    (hf : (readFrame lib).Frames records frames) :
    Framed frames.flatten := by
  cases hf with
  | nil => exact .inl rfl
  | cons hw _ => exact .inr (magic_of_whole hw _)

theorem Framed.append {bytes bytes' : Bytes} (h : Framed bytes) (h' : Framed bytes') :
    Framed (bytes ++ bytes') := by
  rcases h with rfl | h
  · exact h'
  · exact .inr (h.trans (List.prefix_append ..))

theorem Framed.take (h : Framed bytes) {k : Nat} (hk : k = 0 ∨ 4 ≤ k) : Framed (bytes.take k) := by
  rcases hk with rfl | hk
  · exact .inl rfl
  · rcases h with rfl | h
    · exact .inl (by simp)
    · exact .inr (List.prefix_take_iff.mpr ⟨h, hk⟩)

theorem decodeWalRecords_framed (h : Framed bytes) :
    decodeWalRecords lib bytes = decodeFramedWalRecords lib bytes := by
  unfold decodeWalRecords
  rcases h with rfl | h
  · simp [decodeFramedWalRecords]
  · have hne : bytes ≠ [] := by rintro rfl; simp [walFrameMagic] at h
    rw [if_neg (by simpa using hne), if_pos (by simpa using h)]

theorem readRecoverableRecordsFile_framed {bytes : Bytes} (h : Framed bytes) (path : String) :
    readRecoverableRecordsFile lib path (some bytes) =
    .ok (decodeFramedWalRecordsPrefix lib path bytes) := by
  rcases h with rfl | h
  · simp [readRecoverableRecordsFile, decodeFramedWalRecordsPrefix]
  · have hne : bytes ≠ [] := by rintro rfl; simp [walFrameMagic] at h
    simp only [readRecoverableRecordsFile]
    rw [if_neg (by simpa using hne), if_pos (by simpa using h)]

theorem recoverFrame_ok {frame : Nat} {rest : Bytes} {n : ℕ+} :
    recoverFrame lib frame rest = .ok (record, n) ↔
    readFrame lib frame rest = .ok (record, n) ∧ ChecksumFits lib record := by
  unfold recoverFrame
  rw [← verifyChecksum_iff]
  constructor
  · intro h
    split at h
    · cases h
    · next hr =>
      split at h
      · next hv => cases h; exact ⟨hr, .inr hv⟩
      · next hv => cases h; exact ⟨hr, .inl hv⟩
      · cases h
      · cases h
  · rintro ⟨hr, hv | hv⟩ <;> simp [hr, hv]

theorem recoverFrame_local : (recoverFrame lib).Local := by
  intro frame rest record n h
  obtain ⟨hr, hfit⟩ := recoverFrame_ok.mp h
  obtain ⟨hle, ht⟩ := readFrame_local hr
  exact ⟨hle, fun tail => recoverFrame_ok.mpr ⟨ht tail, hfit⟩⟩

theorem decodeFramedWalRecordsPrefix_fits (path : String) (bytes : Bytes) :
    ∀ record ∈ (decodeFramedWalRecordsPrefix lib path bytes).records, ChecksumFits lib record :=
  readPrefix_forall (fun _ _ _ _ h => (recoverFrame_ok.mp h).2) 1 0 bytes

theorem recoverFrame_whole (hw : (readFrame lib).Whole record bytes)
    (hfit : ChecksumFits lib record) :
    (recoverFrame lib).Whole record bytes := by
  refine ⟨hw.1, fun frame tail => ?_⟩
  obtain ⟨n, hn, hok⟩ := hw.2 frame tail
  exact ⟨n, hn, recoverFrame_ok.mpr ⟨hok, hfit⟩⟩

theorem recoverFrame_torn (ht : (readFrame lib).Torn bytes) : (recoverFrame lib).Torn bytes := by
  intro frame piece hp hne hneq
  obtain ⟨fault, hf⟩ := ht frame piece hp hne hneq
  exact ⟨_, by rw [recoverFrame, hf]⟩

theorem decodeFrame_whole (hw : (readFrame lib).Whole record bytes) :
    (decodeFrame lib).Whole record bytes := by
  refine ⟨hw.1, fun frame tail => ?_⟩
  obtain ⟨n, hn, hok⟩ := hw.2 frame tail
  exact ⟨n, hn, by rw [decodeFrame, hok]; rfl⟩

end NextDb.Wal
