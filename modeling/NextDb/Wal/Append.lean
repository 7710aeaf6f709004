import NextDb.Wal.TornTail

/-!
# Appending to a log file

The writer appends frames to whatever the file holds. A framed file stays
readable. A legacy text file does not: its reader finds the NUL bytes of a frame
header in a line.

* `readRecordsFile_append_iff`: exactly when a readable file stays readable.
-/

namespace NextDb.Wal

open Framing BigEndian List

variable {lib : Libraries}

/-! ## Binary bytes in a text -/

theorem utf8EncodeChar_zero {c : Char} (h : (0 : UInt8) ∈ String.utf8EncodeChar c) :
    c = '\x00' := by
  have hnat : ∀ {n : Nat}, (0 : UInt8) = UInt8.ofNat n → n % 256 = 0 := fun h => by
    simpa using (congrArg UInt8.toNat h).symm
  have hv : c.val.toNat ≤ 0x7f ∧ c.val.toNat % 256 = 0 := by
    simp only [String.utf8EncodeChar] at h
    split at h
    · next hc => exact ⟨hc, hnat (mem_singleton.mp h)⟩
    · exfalso
      split at h
      · simp only [mem_cons, not_mem_nil, or_false] at h
        rcases h with h | h <;> have := hnat h <;> omega
      · split at h <;> simp only [mem_cons, not_mem_nil, or_false] at h
        · rcases h with h | h | h <;> have := hnat h <;> omega
        · rcases h with h | h | h | h <;> have := hnat h <;> omega
  have hz : c.val.toNat = 0 := by omega
  exact Char.ext (UInt32.toNat_inj.mp hz)

theorem mem_linesFrom {c : Char} {line rest : List Char} (h : c ∈ line ++ rest) (hn : c ≠ '\n')
    (hr : c ≠ '\r') :
    ∃ l ∈ linesFrom line rest, c ∈ l := by
  induction rest generalizing line with
  | nil =>
    rw [append_nil] at h
    have hne : line.isEmpty = false := by cases line <;> simp at h ⊢
    exact ⟨line, by simp [linesFrom, hne], h⟩
  | cons d rest ih =>
    rw [linesFrom]
    split
    · next hd =>
      by_cases hl : c ∈ line
      · refine ⟨_, mem_cons_self, ?_⟩
        unfold stripCarriageReturn
        split
        · next hlast =>
          have hsplit := dropLast_append_getLast? _ hlast
          rw [← hsplit, mem_append, mem_singleton] at hl
          exact hl.resolve_right hr
        · exact hl
      · have hrest : c ∈ rest := by
          rcases mem_append.mp h with h | h
          · exact absurd h hl
          · exact (mem_cons.mp h).resolve_left (hd ▸ hn)
        obtain ⟨l, hmem, hc⟩ := @ih [] (by simpa using hrest)
        exact ⟨l, mem_cons_of_mem _ hmem, hc⟩
    · exact ih (by simpa [append_assoc] using h)

variable {line : List Char} {path : String} {record : WalRecord} {file : Bytes}

/-- A line with a NUL character is no JSON text, and not blank. -/
theorem parseLines_nul (hjson : lib.JsonText) {lines : List (List Char)} (hmem : line ∈ lines)
    (hc : '\x00' ∈ line)
    (lineNumber : Nat) : ∃ err, parseLines lib lineNumber lines = .error err := by
  induction lines generalizing lineNumber with
  | nil => cases hmem
  | cons l lines ih =>
    rw [parseLines]
    split
    · next hblank =>
      refine ih ?_ (lineNumber + 1)
      rcases mem_cons.mp hmem with rfl | hmem
      · exact absurd (all_eq_true.mp hblank _ hc) (by decide)
      · exact hmem
    · cases hl : lib.recordFromStr (String.ofList l) with
      | error err => exact ⟨_, rfl⟩
      | ok record =>
        rcases mem_cons.mp hmem with rfl | hmem
        · obtain ⟨err, he⟩ := hjson.nul (String.ofList line) (by simpa using hc)
          rw [hl] at he
          cases he
        · obtain ⟨err, he⟩ := ih hmem (lineNumber + 1)
          exact ⟨err, by simp only [withContext_ok, bind, Except.bind, he]⟩

variable {bytes : Bytes} {records signed : List WalRecord} {decoded : List (Nat × WalRecord)}
    {k : Nat}

theorem decodeJsonlWalRecords_zero (hjson : lib.JsonText) (h : 0 ∈ bytes) :
    ∃ err, decodeJsonlWalRecords lib bytes = .error err := by
  unfold decodeJsonlWalRecords
  cases hb : fromUtf8 bytes with
  | none => exact ⟨_, rfl⟩
  | some cs =>
    rw [fromUtf8_iff.mp hb] at h
    obtain ⟨c, hc, hz⟩ := mem_flatMap.mp h
    rw [utf8EncodeChar_zero hz] at hc
    obtain ⟨line, hline, hnul⟩ := @mem_linesFrom _ [] _ hc (by decide) (by decide)
    exact parseLines_nul hjson hline hnul 1

/-! ## Checked records -/

theorem checkRecords_ok : checkRecords lib decoded = .ok records ↔ records = decoded.map Prod.snd ∧
    ∀ d ∈ decoded, ChecksumFits lib d.2 := by
  induction decoded generalizing records with
  | nil => simp [checkRecords, eq_comm]
  | cons d decoded ih =>
    rw [map_cons, forall_mem_cons, ← verifyChecksum_iff]
    constructor
    · intro h
      obtain ⟨status, hs, h⟩ := bind_eq_ok.mp h
      split at h
      · cases h
      · next hne =>
        obtain ⟨rest, hr, h⟩ := bind_eq_ok.mp h
        cases h
        obtain ⟨rfl, hall⟩ := ih.mp hr
        refine ⟨rfl, ?_, hall⟩
        cases status with
        | missing => exact .inl hs
        | valid => exact .inr hs
        | mismatch expected => exact absurd rfl (hne expected)
    · rintro ⟨rfl, hd, hall⟩
      have hr := ih.mpr ⟨rfl, hall⟩
      rcases hd with hd | hd <;>
      · rw [checkRecords, hd]
        simp only [bind, Except.bind, hr]

theorem readRecordsFile_ok :
    readRecordsFile lib path (some bytes) = .ok records ↔
    ∃ decoded, decodeWalRecords lib bytes = .ok decoded ∧
    records = decoded.map Prod.snd ∧ ∀ d ∈ decoded, ChecksumFits lib d.2 := by
  simp only [readRecordsFile, bind_eq_ok, withContext_eq_ok, checkRecords_ok]

/-! ## The file after an append -/

theorem decodeFrame_ok {frame : Nat} {rest : Bytes} {n : ℕ+} :
    decodeFrame lib frame rest = .ok (record, n) ↔ readFrame lib frame rest = .ok (record, n) := by
  unfold decodeFrame
  cases readFrame lib frame rest <;> simp [Except.mapError]

theorem decodeFrame_local : (decodeFrame lib).Local := by
  intro frame rest record n h
  obtain ⟨hle, ht⟩ := readFrame_local (decodeFrame_ok.mp h)
  exact ⟨hle, fun tail => decodeFrame_ok.mpr (ht tail)⟩

/-- What encodes, behind a framed file that decodes. -/
theorem decodeWalRecords_append (hlib : lib.Lawful) (hfile : Framed file)
    (hd : decodeWalRecords lib file = .ok decoded) (h : encodeWalRecords lib records = .ok bytes) :
    ∃ signed, Forall₂ (fun r s => ensureChecksum lib r = .ok s) records signed ∧
    decodeWalRecords lib (file ++ bytes) =
    .ok (decoded ++ numbered (1 + decoded.length) signed) := by
  obtain ⟨signed, hs, hframes, rfl⟩ := encodeWalRecords_frameBytes hlib h
  refine ⟨signed, hs, ?_⟩
  rw [decodeWalRecords_framed hfile] at hd
  rw [decodeWalRecords_framed (hfile.append (framed_flatten hframes)), decodeFramedWalRecords,
    readAll_append decodeFrame_local hd]
  have hrow := readAll_flatten (hframes.imp fun _ _ => decodeFrame_whole) (1 + decoded.length) []
  rw [append_nil, readAll_nil] at hrow
  rw [hrow]
  simp [Except.map]

/-- Zero bytes behind a legacy text make it unreadable. -/
theorem decodeWalRecords_append_legacy (hjson : lib.JsonText) (hfile : ¬ Framed file)
    (hd : decodeWalRecords lib file = .ok decoded) (hzero : 0 ∈ bytes) :
    ∃ err, decodeWalRecords lib (file ++ bytes) = .error err := by
  obtain ⟨hne, hmagic⟩ := not_or.mp hfile
  have hlegacy : ∀ {b : Bytes}, b ≠ [] → ¬ walFrameMagic <+: b → decodeWalRecords lib b = decodeJsonlWalRecords lib b :=
      by
    intro b hb hm
    rw [decodeWalRecords, if_neg (by simpa using hb), if_neg (by simpa using hm)]
  have happend : ¬ walFrameMagic <+: file ++ bytes := by
    intro hp
    rcases Nat.lt_or_ge file.length 4 with hlt | hge
    · -- a file shorter than the magic would be a piece of it, which is no legacy text
      have hpre : file <+: walFrameMagic :=
        prefix_of_prefix_length_le (prefix_append ..) hp (by simp [walFrameMagic]; omega)
      have hpos := length_pos_iff.mpr hne
      obtain ⟨err, he⟩ := decodeJsonlWalRecords_magic_cut hjson (k := file.length) ⟨hpos, hlt⟩
      rw [hlegacy hne hmagic, prefix_iff_eq_take.mp hpre, he] at hd
      cases hd
    · exact hmagic (prefix_of_prefix_length_le hp (prefix_append ..) hge)
  rw [hlegacy (append_ne_nil_of_left_ne_nil hne _) happend]
  exact decodeJsonlWalRecords_zero hjson (mem_append_right _ hzero)

theorem zero_mem_encode (h : encodeWalRecords lib (record :: records) = .ok bytes) : 0 ∈ bytes := by
  obtain ⟨signed, frames, hs, hf, rfl⟩ := encodeWalRecords_ok h
  cases hs with
  | cons _ _ =>
    cases hf with
    | cons hframe _ =>
      obtain ⟨_, payload, _, _, _, rfl⟩ := encodeWalRecordFrame_ok hframe
      have hversion : (0 : UInt8) ∈ toBe 2 walFrameVersion := by decide
      simp [walFrame, hversion]

theorem checksumFits_forall₂
    (hs : Forall₂ (fun r s => ensureChecksum lib r = .ok s) records signed) :
    (∀ s ∈ signed, ChecksumFits lib s) ↔ ∀ r ∈ records, ChecksumFits lib r := by
  induction hs with
  | nil => simp
  | cons hr _ ih => rw [forall_mem_cons, forall_mem_cons, ih, checksumFits_ensureChecksum hr]

/-- A readable file followed by an encoding reads as the records of the file and
those appended if and only if nothing was appended, or the file is framed (or
empty) and no stored checksum of the appended records is wrong. -/
theorem readRecordsFile_append_iff (hlib : lib.Lawful) (hjson : lib.JsonText) {path : String}
    {file bytes : Bytes} {present records : List WalRecord}
    (hfile : readRecordsFile lib path (some file) = .ok present)
    (h : encodeWalRecords lib records = .ok bytes) :
    (∃ signed, List.Forall₂ (fun r s => ensureChecksum lib r = .ok s)
    records signed ∧ readRecordsFile lib path (some (file ++ bytes)) = .ok (present ++ signed)) ↔
    records = [] ∨
    Framed file ∧ ∀ record ∈ records, ChecksumFits lib record := by
  obtain ⟨decoded, hd, hpresent, hfits⟩ := readRecordsFile_ok.mp hfile
  by_cases hframed : Framed file
  · obtain ⟨signed, hs, happend⟩ := decodeWalRecords_append hlib hframed hd h
    simp only [hframed, true_and]
    constructor
    · rintro ⟨signed', hs', hread⟩
      obtain ⟨decoded', hd', -, hall⟩ := readRecordsFile_ok.mp hread
      rw [happend] at hd'
      cases hd'
      refine .inr ((checksumFits_forall₂ hs).mp fun s hmem => ?_)
      rw [← map_snd_numbered (1 + decoded.length) signed] at hmem
      obtain ⟨d, hdm, rfl⟩ := mem_map.mp hmem
      exact hall d (mem_append_right _ hdm)
    · intro hcond
      have hall : ∀ r ∈ records, ChecksumFits lib r := by
        rcases hcond with rfl | hall
        · simp
        · exact hall
      refine ⟨signed, hs, readRecordsFile_ok.mpr ⟨_, happend, by simp [hpresent], ?_⟩⟩
      rintro d hmem
      rcases mem_append.mp hmem with hmem | hmem
      · exact hfits d hmem
      · refine (checksumFits_forall₂ hs).mpr hall _ ?_
        rw [← map_snd_numbered (1 + decoded.length) signed]
        exact mem_map_of_mem hmem
  · cases records with
    | nil =>
      cases h
      exact ⟨fun _ => .inl rfl, fun _ => ⟨[], .nil, by simpa using hfile⟩⟩
    | cons record records =>
      obtain ⟨err, he⟩ := decodeWalRecords_append_legacy hjson hframed hd (zero_mem_encode h)
      simp only [hframed, false_and, or_false, reduceCtorEq, iff_false]
      rintro ⟨signed, -, hread⟩
      obtain ⟨decoded', hd', -⟩ := readRecordsFile_ok.mp hread
      rw [he] at hd'
      cases hd'

theorem ensureChecksum_unique {signed' : List WalRecord}
    (h : Forall₂ (fun r s => ensureChecksum lib r = .ok s) records signed)
    (h' : Forall₂ (fun r s => ensureChecksum lib r = .ok s) records signed') :
    signed' = signed := by
  induction h generalizing signed' with
  | nil =>
    cases h'
    rfl
  | cons hr _ ih =>
    cases h' with
    | cons hr' hrest =>
      rw [ih hrest]
      rw [hr] at hr'
      cases hr'
      rfl

theorem framed_of_boundary (hlib : lib.Lawful) (h : encodeWalRecords lib records = .ok bytes)
    (hk : FrameBoundary lib records k) : Framed (bytes.take k) := by
  obtain ⟨signed, -, hframes, rfl⟩ := encodeWalRecords_frameBytes hlib h
  obtain ⟨i, -, rfl⟩ := hk
  have hcut : ((records.map (frameBytes lib)).flatten).take (frameEnd lib records i) =
      ((records.map (frameBytes lib)).take i).flatten := by
    have hsplit : (records.map (frameBytes lib)).flatten = ((records.map (frameBytes lib)).take i).flatten ++
        ((records.map (frameBytes lib)).drop i).flatten := by
      rw [← flatten_append, take_append_drop]
    rw [hsplit]
    exact take_left
  rw [hcut]
  exact framed_flatten (forall₂_take i hframes)

/-- A file that is not framed when it is cut off holds a piece of the first magic, which is
no legacy text. -/
theorem decodeWalRecords_cut_error (hlib : lib.Lawful) (hjson : lib.JsonText)
    (h : encodeWalRecords lib records = .ok bytes) (hk : k ≤ bytes.length)
    (hcut : ¬ Framed (bytes.take k)) :
    ∃ err, decodeWalRecords lib (bytes.take k) = .error err := by
  have hframed := framed_encode hlib h
  have hk4 : 0 < k ∧ k < 4 := by
    by_contra hn
    exact hcut (hframed.take (by omega))
  have hne : bytes ≠ [] := by
    rintro rfl
    exact hcut (.inl (by simp))
  obtain ⟨rest, hrest⟩ := hframed.resolve_left hne
  have hmagic : bytes.take k = walFrameMagic.take k := by
    rw [← hrest]
    exact take_append_of_le_length (by simp [walFrameMagic]; omega)
  obtain ⟨hnil, hprefix⟩ := not_or.mp hcut
  obtain ⟨err, he⟩ := decodeJsonlWalRecords_magic_cut hjson hk4
  refine ⟨err, ?_⟩
  rw [decodeWalRecords, if_neg (by simpa using hnil), if_neg (by simpa using hprefix), hmagic, he]

/-- An encoding that is cut off reads as the records of the whole frames if it is cut
behind one of them and no stored checksum of theirs is wrong, and not at all otherwise. -/
theorem readRecordsFile_cut_iff (hlib : lib.Lawful) (hjson : lib.JsonText)
    (h : encodeWalRecords lib records = .ok bytes) (hk : k ≤ bytes.length)
    (hs : Forall₂ (fun r s => ensureChecksum lib r = .ok s) (records.take (wholeFrames lib records k)) signed)
    (present : List WalRecord) : readRecordsFile lib path (some (bytes.take k)) = .ok present ↔
    FrameBoundary lib
    records k ∧ (∀ record ∈ records.take (wholeFrames lib records k), ChecksumFits lib record) ∧
    present = signed := by
  rw [readRecordsFile_ok]
  by_cases hcut : Framed (bytes.take k)
  · obtain ⟨all, hall, hframes, rfl⟩ := encodeWalRecords_frameBytes hlib h
    have hwhole : (decodeFrame lib).Frames all (records.map (frameBytes lib)) :=
      hframes.imp fun _ _ => decodeFrame_whole
    have hrows : (decodeFrame lib).Frames signed ((records.map (frameBytes lib)).take (wholeFrames lib records k)) := by
      rw [ensureChecksum_unique (forall₂_take _ hall) hs]
      exact forall₂_take _ hwhole
    have htorn : ∀ b ∈ records.map (frameBytes lib), (decodeFrame lib).Torn b := by
      intro b hb
      obtain ⟨i, hi, rfl⟩ := getElem_of_mem hb
      have hi' : i < all.length := by rwa [hwhole.length_eq]
      exact ((forall₂_iff_get.mp hwhole).2 i hi' hi).torn decodeFrame_local
    have hdecode := fun decoded => readAll_cut hrows htorn 1 hk decoded
    rw [decodeWalRecords_framed hcut, decodeFramedWalRecords, frameBoundary_iff]
    constructor
    · rintro ⟨decoded, hd, rfl, hfits⟩
      obtain ⟨hend, rfl⟩ := (hdecode decoded).mp hd
      rw [map_snd_numbered]
      refine ⟨hend, (checksumFits_forall₂ hs).mp fun s hmem => ?_, rfl⟩
      rw [← map_snd_numbered 1 signed] at hmem
      obtain ⟨d, hdm, rfl⟩ := mem_map.mp hmem
      exact hfits d hdm
    · rintro ⟨hend, hfits, rfl⟩
      refine ⟨_, (hdecode _).mpr ⟨hend, rfl⟩, (map_snd_numbered 1 _).symm, fun d hmem => ?_⟩
      refine (checksumFits_forall₂ hs).mpr hfits _ ?_
      rw [← map_snd_numbered 1 present]
      exact mem_map_of_mem hmem
  · obtain ⟨err, he⟩ := decodeWalRecords_cut_error hlib hjson h hk hcut
    constructor
    · rintro ⟨decoded, hd, -⟩
      rw [he] at hd
      cases hd
    · rintro ⟨hb, -⟩
      exact absurd (framed_of_boundary hlib h hb) hcut

theorem readRecordsFile_sample :
    readRecordsFile sampleLibraries "wal" (some (walFrame sampleLibraries sampleBytes)) =
    .ok [sampleSigned] := by
  have hw := readFrame_encode sampleLibraries_lawful encodeWalRecordFrame_sample
  have hd := decodeWalRecords_frames' (.cons hw .nil)
  rw [flatten_singleton] at hd
  refine readRecordsFile_ok.mpr ⟨_, hd, rfl, fun d hmem checksum hs => ?_⟩
  rw [mem_singleton.mp hmem] at hs ⊢
  cases hs
  exact computeChecksum_sample

/-- A second frame behind the first. -/
theorem readRecordsFile_append_sample :
    ∃ signed, List.Forall₂ (fun r s => ensureChecksum sampleLibraries r = .ok s) [sampleRecord] signed ∧ readRecordsFile
    sampleLibraries "wal" (some (walFrame sampleLibraries sampleBytes ++ walFrame sampleLibraries sampleBytes)) =
    .ok ([sampleSigned] ++ signed) := by
  refine (readRecordsFile_append_iff sampleLibraries_lawful sampleLibraries_jsonText readRecordsFile_sample
    encodeWalRecords_sample).mpr (.inr ⟨?_, fun record hmem checksum hs => ?_⟩)
  · exact framed_encode sampleLibraries_lawful encodeWalRecords_sample
  · rw [mem_singleton.mp hmem] at hs
    cases hs

theorem linesFrom_newline {rest : List Char} (h : '\n' ∉ rest)
    (hr : (line ++ rest).getLast? ≠ some '\r') :
    linesFrom line (rest ++ ['\n']) = [line ++ rest] := by
  induction rest generalizing line with
  | nil =>
    rw [append_nil] at hr ⊢
    rw [nil_append, linesFrom, if_pos rfl, stripCarriageReturn, if_neg hr]
    rfl
  | cons c rest ih =>
    rw [mem_cons, not_or] at h
    rw [cons_append, linesFrom, if_neg (Ne.symm h.1), ih h.2 (by simpa using hr)]
    simp

/-- A legacy file of one line. -/
def sampleLegacyFile : Bytes := sampleTextBytes ++ [0x0a]

theorem readRecordsFile_legacy_sample :
    readRecordsFile sampleLibraries "wal" (some sampleLegacyFile) = .ok [sampleRecord] ∧
    ¬ Framed sampleLegacyFile := by
  have hutf : fromUtf8 sampleLegacyFile = some (sampleText ++ ['\n']) := fromUtf8_iff.mpr (by decide +kernel)
  have hlines : linesFrom [] (sampleText ++ ['\n']) = [sampleText] :=
    linesFrom_newline (by decide) (by decide)
  have hblank : ¬ (sampleText.all isWhitespace) := by decide
  have hrec : sampleLibraries.recordFromStr (String.ofList sampleText) = .ok sampleRecord := by
    simp [sampleLibraries]
  have hparse : parseLines sampleLibraries 1 [sampleText] = .ok [(1, sampleRecord)] := by
    rw [parseLines, if_neg hblank, hrec]
    rfl
  have hd : decodeWalRecords sampleLibraries sampleLegacyFile = .ok [(1, sampleRecord)] := by
    rw [decodeWalRecords, if_neg (by decide), if_neg (by decide), decodeJsonlWalRecords_text hutf, hlines, hparse]
  refine ⟨readRecordsFile_ok.mpr ⟨_, hd, rfl, fun d hmem checksum hs => ?_⟩, ?_⟩
  · rw [mem_singleton.mp hmem] at hs
    cases hs
  · exact not_or.mpr ⟨by decide, by decide⟩

/-- A frame behind a legacy line. -/
theorem readRecordsFile_legacy_append_sample :
    readRecordsFile sampleLibraries "wal" (some sampleLegacyFile) =
    .ok [sampleRecord] ∧ encodeWalRecords sampleLibraries [sampleRecord] =
    .ok (walFrame sampleLibraries sampleBytes) ∧
    ∀ records, readRecordsFile sampleLibraries "wal" (some (sampleLegacyFile ++ walFrame sampleLibraries sampleBytes)) ≠
    .ok records := by
  obtain ⟨hread, hframed⟩ := readRecordsFile_legacy_sample
  refine ⟨hread, encodeWalRecords_sample, fun records h => ?_⟩
  obtain ⟨decoded, hd, -⟩ := readRecordsFile_ok.mp hread
  obtain ⟨err, he⟩ :=
    decodeWalRecords_append_legacy sampleLibraries_jsonText hframed hd (zero_mem_encode encodeWalRecords_sample)
  obtain ⟨decoded', hd', -⟩ := readRecordsFile_ok.mp h
  rw [he] at hd'
  cases hd'

end NextDb.Wal
