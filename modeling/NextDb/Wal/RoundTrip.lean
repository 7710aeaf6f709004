import NextDb.Wal.Decode

/-!
# The codec round trip

* `decodeWalRecords_encode`: what encodes decodes to the same records, numbered
  from one, with their checksums filled in; and a concatenation decodes to the
  concatenation.
-/

namespace NextDb.Wal

open Framing

variable {lib : Libraries} {records : List WalRecord}

/-- What encodes is a row of frames of the records with their checksums filled in. -/
theorem encodeWalRecords_frames (hlib : lib.Lawful) {bytes : Bytes}
    (h : encodeWalRecords lib records = .ok bytes) :
    ∃ signed frames, List.Forall₂ (fun r s => ensureChecksum lib r = .ok s) records signed ∧
    (readFrame lib).Frames signed frames ∧ bytes = frames.flatten := by
  obtain ⟨signed, frames, hs, hf, rfl⟩ := encodeWalRecords_ok h
  exact ⟨signed, frames, hs, hf.imp fun _ _ => readFrame_encode hlib, rfl⟩

variable {record signed : WalRecord} {frames : List Bytes}

theorem encodeWalRecords_single {frame : Bytes} (hs : ensureChecksum lib record = .ok signed)
    (hf : encodeWalRecordFrame lib signed = .ok frame) :
    encodeWalRecords lib [record] = .ok frame := by
  rw [encodeWalRecords, hs]
  show encodeWalRecordFrame lib signed >>= _ = _
  rw [hf]
  show Except.ok (frame ++ []) = _
  rw [List.append_nil]

theorem backfilled_of_ensureChecksum (h : ensureChecksum lib record = .ok signed) :
    Backfilled lib record signed := by
  unfold ensureChecksum at h
  split at h
  · next hn =>
    refine ⟨fun hs => by simp [Option.isNone_iff_eq_none.mp hn] at hs, fun _ => ?_⟩
    obtain ⟨checksum, hc, hs⟩ := refreshChecksum_ok h
    exact ⟨checksum, hc, hs, verifyChecksum_refreshChecksum h⟩
  · next hn =>
    cases h
    exact ⟨fun _ => rfl, fun hm => absurd (by simp [hm]) hn⟩

/-- A row of frames decodes to its records, numbered from one, before anything
framed that follows it. -/
theorem decodeWalRecords_frames (hf : (readFrame lib).Frames records frames) {tail : Bytes}
    (ht : Framed tail) :
    decodeWalRecords lib (frames.flatten ++ tail) =
    (readAll (decodeFrame lib) (1 + records.length) tail).map (numbered 1 records ++ ·) := by
  rw [decodeWalRecords_framed ((framed_flatten hf).append ht), decodeFramedWalRecords]
  exact readAll_flatten (hf.imp fun _ _ => decodeFrame_whole) 1 tail

theorem decodeWalRecords_frames' (hf : (readFrame lib).Frames records frames) :
    decodeWalRecords lib frames.flatten = .ok (numbered 1 records) := by
  have := decodeWalRecords_frames hf (.inl rfl)
  rw [List.append_nil] at this
  rw [this, readAll_nil]
  simp [Except.map]

/-- The codec: what encodes decodes to the same records in order, each with a
missing checksum filled in, and the concatenation of two encodings decodes to
the concatenation of the two decodings, the second one's frames numbered on. -/
theorem decodeWalRecords_encode (hlib : lib.Lawful) :
    (∀ records bytes, encodeWalRecords lib records = .ok bytes →
    ∃ signed, List.Forall₂ (Backfilled lib) records signed ∧
    decodeWalRecords lib bytes = .ok (numbered 1 signed)) ∧
    (∀ records bytes records' bytes', encodeWalRecords lib records = .ok bytes →
    encodeWalRecords lib records' = .ok
    bytes' → ∃ decoded decoded', decodeWalRecords lib bytes = .ok decoded ∧
    decodeWalRecords lib bytes' = .ok decoded' ∧
    decodeWalRecords lib (bytes ++ bytes') = .ok (decoded ++ decoded'.map fun d => (decoded.length + d.1, d.2))) := by
  refine ⟨fun records bytes h => ?_, fun records bytes records' bytes' h h' => ?_⟩
  · obtain ⟨signed, frames, hs, hf, rfl⟩ := encodeWalRecords_frames hlib h
    exact ⟨signed, hs.imp fun _ _ => backfilled_of_ensureChecksum, decodeWalRecords_frames' hf⟩
  · obtain ⟨signed, frames, -, hf, rfl⟩ := encodeWalRecords_frames hlib h
    obtain ⟨signed', frames', -, hf', rfl⟩ := encodeWalRecords_frames hlib h'
    refine ⟨numbered 1 signed, numbered 1 signed', decodeWalRecords_frames' hf, decodeWalRecords_frames' hf', ?_⟩
    have hrest := readAll_flatten (hf'.imp fun _ _ => decodeFrame_whole) (1 + signed.length) []
    rw [List.append_nil, readAll_nil] at hrest
    rw [decodeWalRecords_frames hf (framed_flatten hf'), hrest, length_numbered, Nat.add_comm 1 signed.length,
      numbered_add]
    simp [Except.map]

/-! ## One concrete record -/

/-- The SHA-256 of the JSON text of `sampleMaterial`. -/
def sampleDigest : Bytes :=
  [0x78, 0x94, 0xc7, 0xb2, 0x94, 0xb4, 0x6f, 0xc8, 0x94, 0x1a, 0xff, 0xd7, 0x3c, 0x32, 0x3c,
   0x91, 0x3f, 0xdf, 0x8a, 0xed, 0xa4, 0xed, 0x14, 0x0a, 0x12, 0x81, 0x67, 0x72, 0x95, 0xd3,
   0x67, 0x75]

def sampleChecksum : String := "sha256:" ++ hexLower sampleDigest

/-- The postcard bytes of `sampleRecord`. -/
def sampleBytes : Bytes :=
  [0x01, 0x00, 0x01, 0x00, 0x00, 0x01, 0x00, 0x0e, 0x01, 0x72, 0x07, 0x01, 0x47, 0x73, 0x68,
   0x61, 0x32, 0x35, 0x36, 0x3a, 0x37, 0x38, 0x39, 0x34, 0x63, 0x37, 0x62, 0x32, 0x39, 0x34,
   0x62, 0x34, 0x36, 0x66, 0x63, 0x38, 0x39, 0x34, 0x31, 0x61, 0x66, 0x66, 0x64, 0x37, 0x33,
   0x63, 0x33, 0x32, 0x33, 0x63, 0x39, 0x31, 0x33, 0x66, 0x64, 0x66, 0x38, 0x61, 0x65, 0x64,
   0x61, 0x34, 0x65, 0x64, 0x31, 0x34, 0x30, 0x61, 0x31, 0x32, 0x38, 0x31, 0x36, 0x37, 0x37,
   0x32, 0x39, 0x35, 0x64, 0x33, 0x36, 0x37, 0x37, 0x35]

/-- A record, without its checksum. -/
def sampleRecord : WalRecord where
  lsn := 1
  shard := 0
  shardEpoch := 1
  ownerNodeId := ""
  timestampMs := 0
  schemaVersion := 1
  durability := .strict
  payload := .hostHttpCompleted "r" 7
  checksum := none

/-- The JSON text of `sampleRecord`, which is also what its checksum is taken over. -/
def sampleTextBytes : Bytes :=
  [0x7b, 0x22, 0x6c, 0x73, 0x6e, 0x22, 0x3a, 0x31, 0x2c, 0x22, 0x73, 0x68, 0x61, 0x72, 0x64,
   0x22, 0x3a, 0x30, 0x2c, 0x22, 0x73, 0x68, 0x61, 0x72, 0x64, 0x45, 0x70, 0x6f, 0x63, 0x68,
   0x22, 0x3a, 0x31, 0x2c, 0x22, 0x6f, 0x77, 0x6e, 0x65, 0x72, 0x4e, 0x6f, 0x64, 0x65, 0x49,
   0x64, 0x22, 0x3a, 0x22, 0x22, 0x2c, 0x22, 0x74, 0x69, 0x6d, 0x65, 0x73, 0x74, 0x61, 0x6d,
   0x70, 0x4d, 0x73, 0x22, 0x3a, 0x30, 0x2c, 0x22, 0x73, 0x63, 0x68, 0x65, 0x6d, 0x61, 0x56,
   0x65, 0x72, 0x73, 0x69, 0x6f, 0x6e, 0x22, 0x3a, 0x31, 0x2c, 0x22, 0x64, 0x75, 0x72, 0x61,
   0x62, 0x69, 0x6c, 0x69, 0x74, 0x79, 0x22, 0x3a, 0x22, 0x73, 0x74, 0x72, 0x69, 0x63, 0x74,
   0x22, 0x2c, 0x22, 0x70, 0x61, 0x79, 0x6c, 0x6f, 0x61, 0x64, 0x22, 0x3a, 0x7b, 0x22, 0x74,
   0x79, 0x70, 0x65, 0x22, 0x3a, 0x22, 0x68, 0x6f, 0x73, 0x74, 0x48, 0x74, 0x74, 0x70, 0x43,
   0x6f, 0x6d, 0x70, 0x6c, 0x65, 0x74, 0x65, 0x64, 0x22, 0x2c, 0x22, 0x72, 0x65, 0x71, 0x75,
   0x65, 0x73, 0x74, 0x49, 0x64, 0x22, 0x3a, 0x22, 0x72, 0x22, 0x2c, 0x22, 0x63, 0x6f, 0x6d,
   0x70, 0x6c, 0x65, 0x74, 0x65, 0x64, 0x41, 0x74, 0x4d, 0x73, 0x22, 0x3a, 0x37, 0x7d, 0x7d]

def sampleText : List Char := sampleTextBytes.map fun b => Char.ofNat b.toNat

/-- The libraries at the values that `sampleRecord` passes them; everything else
they refuse. -/
def sampleLibraries : Libraries where
  toAllocvec
    | ⟨1, 0, 1, "", 0, 1, .strict, .hostHttpCompleted "r" 7, some checksum⟩ =>
      if checksum = sampleChecksum then .ok sampleBytes else bail "not sampled"
    | _ => bail "not sampled"
  fromBytes bytes :=
    if bytes = sampleBytes then
      .ok ⟨1, 0, 1, "", 0, 1, .strict, .hostHttpCompleted "r" 7, some sampleChecksum⟩
    else bail "Hit the end of buffer, expected more data"
  schemaToVec _ := bail "not sampled"
  schemaFromSlice _ := bail "not sampled"
  migrationToVec _ := bail "not sampled"
  migrationFromSlice _ := bail "not sampled"
  materialToVec
    | ⟨1, 0, 1, "", 0, 1, .strict, .hostHttpCompleted "r" 7⟩ => .ok sampleTextBytes
    | _ => bail "not sampled"
  recordFromSlice _ := bail "expected value at line 1 column 1"
  recordFromStr line :=
    if line.toList = sampleText then .ok sampleRecord else bail "expected value at line 1 column 1"
  sha256 bytes := if bytes = sampleTextBytes then sampleDigest else []
  crc32c bytes := if bytes = sampleBytes then 0x2913320e else 0

theorem sampleLibraries_lawful : sampleLibraries.Lawful where
  postcard := by
    intro frame bytes h
    simp only [sampleLibraries] at h
    split at h
    · split at h
      · next hc => cases h; subst hc; simp [sampleLibraries]
      · cases h
    · cases h
  postcard_ne_nil := by
    intro frame bytes h
    simp only [sampleLibraries] at h
    split at h
    · split at h
      · cases h; exact List.cons_ne_nil _ _
      · cases h
    · cases h
  schema := nofun
  migration := nofun

theorem sampleLibraries_jsonText : sampleLibraries.JsonText where
  nul line h := ⟨_, if_neg fun hl => absurd (hl ▸ h) (by decide)⟩
  start line h := ⟨_, if_neg fun hl => absurd (hl ▸ h) (by decide)⟩

/-- The sample with its checksum. -/
def sampleSigned : WalRecord := { sampleRecord with checksum := some sampleChecksum }

theorem computeChecksum_sample :
    computeChecksum sampleLibraries sampleRecord = .ok sampleChecksum := by
  have hd : sampleLibraries.sha256 sampleTextBytes = sampleDigest := by simp [sampleLibraries]
  exact congrArg (fun d => Except.ok ("sha256:" ++ hexLower d)) hd

theorem refreshChecksum_sample :
    refreshChecksum sampleLibraries sampleRecord = .ok sampleSigned := by
  rw [refreshChecksum, computeChecksum_sample]
  rfl

theorem encodeWalRecordFrame_sample :
    encodeWalRecordFrame sampleLibraries sampleSigned =
    .ok (walFrame sampleLibraries sampleBytes) := by
  have hr : PostcardWalRecordFrame.fromRecord sampleLibraries sampleSigned =
      .ok ⟨1, 0, 1, "", 0, 1, .strict, .hostHttpCompleted "r" 7, some sampleChecksum⟩ := rfl
  have hv : sampleLibraries.toAllocvec ⟨1, 0, 1, "", 0, 1, .strict, .hostHttpCompleted "r" 7, some sampleChecksum⟩ =
      .ok sampleBytes := by simp [sampleLibraries]
  rw [encodeWalRecordFrame, hr]
  simp only [bind, Except.bind]
  rw [hv]
  exact if_neg (by decide)

theorem encodeWalRecords_sample :
    encodeWalRecords sampleLibraries [sampleRecord] = .ok (walFrame sampleLibraries sampleBytes) :=
  encodeWalRecords_single refreshChecksum_sample encodeWalRecordFrame_sample

theorem encodeWalRecords_signed :
    encodeWalRecords sampleLibraries [sampleSigned] = .ok (walFrame sampleLibraries sampleBytes) :=
  encodeWalRecords_single rfl encodeWalRecordFrame_sample

/-- The sample record round-trips through its frame. -/
theorem decodeWalRecords_encode_sample :
    ∃ signed, List.Forall₂ (Backfilled sampleLibraries) [sampleRecord] signed ∧
    decodeWalRecords sampleLibraries (walFrame sampleLibraries sampleBytes) =
    .ok (numbered 1 signed) :=
  (decodeWalRecords_encode sampleLibraries_lawful).1 _ _ encodeWalRecords_sample

end NextDb.Wal
