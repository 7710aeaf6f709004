import NextDb.Wal.Replay
import NextDb.Wal.RoundTrip

/-!
# Recovery of a torn tail

A log file that ends inside a frame is what an interrupted write leaves behind.
`replayFrom` keeps the whole frames and reports the rest, unless the cut is in
the magic of the first frame: the file is then taken for legacy text.

* `replayFrom_cut_iff`: exactly when a cut is recovered from.
-/

namespace NextDb.Wal

open Framing Actor List Option

variable {lib : Libraries}

/-! ## The frames of an encoding -/

/-- The frame that a record is encoded in. -/
def frameBytes (lib : Libraries) (record : WalRecord) : Bytes :=
  match encodeWalRecords lib [record] with
  | .ok bytes => bytes
  | .error _ => []

/-- Where the frames of the first `i` records end. -/
def frameEnd (lib : Libraries) (records : List WalRecord) (i : Nat) : Nat :=
  endOf (records.map (frameBytes lib)) i

/-- How many of the records have frames that end at or before `k`. -/
def wholeFrames (lib : Libraries) (records : List WalRecord) (k : Nat) : Nat :=
  fitting (records.map (frameBytes lib)) k

/-- `k` is where some number of frames end. -/
def FrameBoundary (lib : Libraries) (records : List WalRecord) (k : Nat) : Prop :=
  ∃ i ≤ records.length, k = frameEnd lib records i

theorem frameBytes_eq {record signed : WalRecord} {frame : Bytes}
    (hs : ensureChecksum lib record = .ok signed)
    (hf : encodeWalRecordFrame lib signed = .ok frame) : frameBytes lib record = frame := by
  simp [frameBytes, encodeWalRecords, hs, hf, bind, Except.bind]

/-- An encoding is the frames of its records, one after the other. -/
theorem encodeWalRecords_frameBytes (hlib : lib.Lawful)
    {records : List WalRecord} {bytes : Bytes} (h : encodeWalRecords lib records = .ok bytes) :
    ∃ signed, List.Forall₂ (fun r s => ensureChecksum lib r = .ok s) records signed ∧
    (readFrame lib).Frames signed (records.map (frameBytes lib)) ∧
    bytes = (records.map (frameBytes lib)).flatten := by
  obtain ⟨signed, frames, hs, hf, rfl⟩ := encodeWalRecords_ok h
  have hframes : records.map (frameBytes lib) = frames := by
    clear h
    induction hs generalizing frames with
    | nil => cases hf; rfl
    | cons hr _ ih =>
      cases hf with
      | cons hb hbs => rw [map_cons, frameBytes_eq hr hb, ih _ hbs]
  rw [hframes]
  exact ⟨signed, hs, hf.imp fun _ _ => readFrame_encode hlib, rfl⟩

theorem checksumFits_ensureChecksum {record signed : WalRecord}
    (h : ensureChecksum lib record = .ok signed) :
    ChecksumFits lib signed ↔ ChecksumFits lib record := by
  unfold ensureChecksum at h
  split at h
  · next hn =>
    obtain ⟨checksum, hc, rfl⟩ := refreshChecksum_ok h
    refine ⟨fun _ c hs => ?_, fun _ c hs => ?_⟩
    · simp [isNone_iff_eq_none.mp hn] at hs
    · cases hs; exact hc
  · cases h; rfl

/-! ## The first bytes of the magic -/

theorem linesFrom_of_noNewline {line rest : List Char} (h : '\n' ∉ rest) (hne : line ++ rest ≠ []) :
    linesFrom line rest = [line ++ rest] := by
  induction rest generalizing line with
  | nil => simpa [linesFrom] using hne
  | cons c rest ih =>
    rw [mem_cons, not_or] at h
    rw [linesFrom, if_neg (Ne.symm h.1), ih h.2 (by simp), append_assoc]
    rfl

theorem decodeJsonlWalRecords_text {bytes : Bytes} {cs : List Char} (h : fromUtf8 bytes = some cs) :
    decodeJsonlWalRecords lib bytes = parseLines lib 1 (linesFrom [] cs) := by
  rw [decodeJsonlWalRecords, h]
  rfl

theorem decodeJsonlWalRecords_start (hjson : lib.JsonText) {bytes : Bytes}
    {cs : List Char} (hb : fromUtf8 bytes = some ('N' :: cs)) (hn : '\n' ∉ cs) :
    ∃ err, decodeJsonlWalRecords lib bytes = .error err := by
  have hlines : linesFrom [] ('N' :: cs) = ['N' :: cs] :=
    linesFrom_of_noNewline (by simpa using hn) (by simp)
  obtain ⟨err, he⟩ := hjson.start (String.ofList ('N' :: cs)) (by simp)
  have hw : ¬ (('N' :: cs).all isWhitespace) := by simp [isWhitespace]
  refine ⟨err.context "parse legacy WAL JSON line 1", ?_⟩
  rw [decodeJsonlWalRecords_text hb, hlines, parseLines, if_neg hw, he]
  rfl

theorem decodeJsonlWalRecords_magic_cut (hjson : lib.JsonText) {k : Nat} (hk : 0 < k ∧ k < 4) :
    ∃ err, decodeJsonlWalRecords lib (walFrameMagic.take k) = .error err := by
  rcases (by omega : k = 1 ∨ k = 2 ∨ k = 3) with rfl | rfl | rfl
  · exact @decodeJsonlWalRecords_start _ hjson _ [] rfl (by decide)
  · exact @decodeJsonlWalRecords_start _ hjson _ ['D'] rfl (by decide)
  · exact @decodeJsonlWalRecords_start _ hjson _ ['D', 'B'] rfl (by decide)

theorem readRecoverableRecordsFile_magic_cut (hjson : lib.JsonText) (path : String) {k : Nat}
    (hk : 0 < k ∧ k < 4) :
    ∃ err, readRecoverableRecordsFile lib path (some (walFrameMagic.take k)) = .error err := by
  obtain ⟨err, he⟩ := decodeJsonlWalRecords_magic_cut hjson hk
  refine ⟨err.context s!"parse legacy WAL file {path}", ?_⟩
  have hne : (walFrameMagic.take k).isEmpty = false ∧ walFrameMagic.isPrefixOf (walFrameMagic.take k) = false := by
    rcases (by omega : k = 1 ∨ k = 2 ∨ k = 3) with rfl | rfl | rfl <;> decide
  simp only [readRecoverableRecordsFile, hne.1, hne.2, he]
  rfl

/-! ## Every cut -/

/-- Replay of the first `k` bytes of an encoding succeeds with the records of
the whole frames; it reports a quarantine, at the end of the last one, exactly
when `k` is not the end of a frame. -/
def RecoversCut (lib : Libraries) (sort : MessageSort) (path : String) (hotWindow sinceLsn : Nat)
    (rooms : HashMap String RoomLiveState) (records : List WalRecord) (bytes : Bytes) (k : Nat) :
    Prop :=
  ∃ recovered state, readRecoverableRecordsFile lib path (some (bytes.take k)) = .ok recovered ∧
    replayFrom lib sort path (some (bytes.take k)) hotWindow sinceLsn rooms = .ok state ∧
    state.scannedRecords = recovered.records.length ∧
    state.quarantinedWal = recovered.quarantined ∧
    List.Forall₂ (fun r s => ensureChecksum lib r = .ok s)
      (records.take (wholeFrames lib records k)) recovered.records ∧
    (recovered.quarantined.isSome ↔ ¬ FrameBoundary lib records k) ∧
    ∀ report ∈ recovered.quarantined, report.offset = frameEnd lib records (wholeFrames lib records k)

variable {sort : MessageSort} {path : String} {hotWindow sinceLsn : Nat}
  {rooms : HashMap String RoomLiveState} {records : List WalRecord} {bytes : Bytes} {k : Nat}

theorem frameBoundary_iff :
    FrameBoundary lib records k ↔ k = frameEnd lib records (wholeFrames lib records k) := by
  unfold FrameBoundary frameEnd wholeFrames
  rw [← boundary_iff, length_map]

/-- From the fourth byte on, a cut is recovered when the checksums of the whole
frames are right. -/
theorem recoversCut_of_framed (hlib : lib.Lawful) (h : encodeWalRecords lib records = .ok bytes)
    (hk : k ≤ bytes.length) (hcut : Framed (bytes.take k))
    (hfits : ∀ record ∈ records.take (wholeFrames lib records k),
    ChecksumFits lib record) :
    RecoversCut lib sort path hotWindow sinceLsn rooms records bytes k := by
  obtain ⟨signed, hs, hframes, rfl⟩ := encodeWalRecords_frameBytes hlib h
  let m := wholeFrames lib records k
  have hsm : Forall₂ (fun r s => ensureChecksum lib r = .ok s) (records.take m) (signed.take m) := forall₂_take m hs
  have hfits' : ∀ s ∈ signed.take m, ChecksumFits lib s := by
    intro s hmem
    obtain ⟨i, hi, rfl⟩ := getElem_of_mem hmem
    have hi' : i < (records.take m).length := by rwa [hsm.length_eq]
    have := (forall₂_iff_get.mp hsm).2 i hi' hi
    exact (checksumFits_ensureChecksum this).mpr (hfits _ (getElem_mem hi'))
  have hrows : (recoverFrame lib).Frames (signed.take m) ((records.map (frameBytes lib)).take m) := by
    have hread := forall₂_take m hframes
    exact forall₂_iff_get.mpr ⟨hread.length_eq, fun i hi hi' =>
      recoverFrame_whole ((forall₂_iff_get.mp hread).2 i hi hi') (hfits' _ (get_mem _ ⟨i, hi⟩))⟩
  have htorn : ∀ b ∈ records.map (frameBytes lib), (recoverFrame lib).Torn b := by
    intro b hb
    obtain ⟨i, hi, rfl⟩ := getElem_of_mem hb
    have hi' : i < signed.length := by rwa [hframes.length_eq]
    exact recoverFrame_torn (((forall₂_iff_get.mp hframes).2 i hi' hi).torn readFrame_local)
  obtain ⟨hrecs, hnone, hstop⟩ := readPrefix_cut hrows htorn 1 hk
  have hread := @readRecoverableRecordsFile_framed lib _ hcut path
  obtain ⟨state, hstate, hscan, hq⟩ := @replayFrom_ok _ sort _ _ _ hread hotWindow sinceLsn rooms
  refine ⟨_, state, hread, hstate, hscan, hq, ?_, ?_, ?_⟩
  · rw [decodeFramedWalRecordsPrefix, hrecs]
    exact hsm
  · rw [frameBoundary_iff, frameEnd, wholeFrames, ← hnone, decodeFramedWalRecordsPrefix, isSome_map, isSome_iff_ne_none]
  · intro report hr
    obtain ⟨stop, hmem, rfl⟩ := map_eq_some_iff.mp hr
    exact (hstop stop hmem).2

theorem framed_encode (hlib : lib.Lawful) (h : encodeWalRecords lib records = .ok bytes) :
    Framed bytes := by
  obtain ⟨_, -, hframes, rfl⟩ := encodeWalRecords_frameBytes hlib h
  exact framed_flatten hframes

theorem four_le_of_recoversCut (hjson : lib.JsonText) (hframed : Framed bytes)
    (hk : k ≤ bytes.length)
    (h : RecoversCut lib sort path hotWindow sinceLsn rooms records bytes k) : k = 0 ∨ 4 ≤ k := by
  obtain ⟨recovered, _, hread, -⟩ := h
  by_contra hn
  have hne : bytes ≠ [] := by rintro rfl; simp at hk; omega
  have hmagic : bytes.take k = walFrameMagic.take k := by
    obtain ⟨rest, rfl⟩ := hframed.resolve_left hne
    exact take_append_of_le_length (by simp [walFrameMagic]; omega)
  obtain ⟨err, he⟩ := readRecoverableRecordsFile_magic_cut hjson path (k := k) (by omega)
  rw [hmagic, he] at hread
  cases hread

/-- Replay recovers from a cut if and only if the cut is not within the first
magic and no whole frame has a stored checksum that is wrong. -/
theorem replayFrom_cut_iff (hlib : lib.Lawful) (hjson : lib.JsonText)
    (h : encodeWalRecords lib records = .ok bytes)
    (hk : k ≤ bytes.length) : RecoversCut lib sort path hotWindow sinceLsn rooms records bytes k ↔
    (k = 0 ∨ 4 ≤ k) ∧
    ∀ record ∈ records.take (wholeFrames lib records k), ChecksumFits lib record := by
  have hframed := framed_encode hlib h
  constructor
  · intro hcut
    have hk4 := four_le_of_recoversCut hjson hframed hk hcut
    refine ⟨hk4, fun record hmem => ?_⟩
    obtain ⟨recovered, _, hread, -, -, -, hrecs, -⟩ := hcut
    rw [readRecoverableRecordsFile_framed (hframed.take hk4)] at hread
    cases hread
    obtain ⟨i, hi, rfl⟩ := getElem_of_mem hmem
    have hi' := hrecs.length_eq ▸ hi
    have hsign := (forall₂_iff_get.mp hrecs).2 i hi hi'
    exact (checksumFits_ensureChecksum hsign).mp (decodeFramedWalRecordsPrefix_fits _ _ _ (getElem_mem hi'))
  · rintro ⟨hk4, hfits⟩
    exact recoversCut_of_framed hlib h hk (hframed.take hk4) hfits

theorem length_sample : (walFrame sampleLibraries sampleBytes).length = 100 := by
  rw [length_walFrame]
  rfl

/-- A cut in the payload of the only frame. -/
theorem replayFrom_cut_sample :
    RecoversCut sampleLibraries .merge "wal" 10 0 ∅ [sampleRecord] (walFrame sampleLibraries sampleBytes) 50 := by
  refine (replayFrom_cut_iff sampleLibraries_lawful sampleLibraries_jsonText encodeWalRecords_sample
    (by rw [length_sample]; decide)).mpr ⟨.inr (by decide), fun record hmem checksum hs => ?_⟩
  have := mem_singleton.mp (mem_of_mem_take hmem)
  subst this
  cases hs

/-- A cut behind the first byte. -/
theorem not_recoversCut_sample : encodeWalRecords sampleLibraries [sampleRecord] =
    .ok (walFrame sampleLibraries sampleBytes) ∧ 1 ≤ (walFrame sampleLibraries sampleBytes).length ∧
    ¬ RecoversCut sampleLibraries .merge "wal" 10 0 ∅ [sampleRecord] (walFrame sampleLibraries sampleBytes) 1 := by
  have hlen : 1 ≤ (walFrame sampleLibraries sampleBytes).length := by rw [length_sample]; decide
  refine ⟨encodeWalRecords_sample, hlen, fun h => ?_⟩
  have := four_le_of_recoversCut sampleLibraries_jsonText (framed_encode sampleLibraries_lawful encodeWalRecords_sample)
    hlen h
  omega

end NextDb.Wal
