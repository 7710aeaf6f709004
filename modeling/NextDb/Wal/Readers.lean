import NextDb.Wal.Append

/-!
# The two readers of a log file

* `readers_agree`: the reader that recovers quarantines nothing exactly when the strict one accepts
  the file, and of a framed file that the strict one rejects it has the longest row of good frames.
-/

namespace NextDb.Wal

open Framing List

variable {lib : Libraries}

/-- The bytes begin with frames of these records, whose checksums fit. -/
inductive LeadingFrames (lib : Libraries) : Nat → Bytes → List WalRecord → Prop where
  | nil {frame rest} : LeadingFrames lib frame rest []
  | cons {frame rest record records} {n : ℕ+} : readFrame lib frame rest = .ok (record, n) → ChecksumFits lib record →
    LeadingFrames lib (frame + 1) (rest.drop n) records → LeadingFrames lib frame rest (record :: records)

variable {frame offset : Nat} {rest : Bytes} {record : WalRecord} {records : List WalRecord}
    {path : String}

/-- What the bytes of the first frame are: all that `FrameAt` lists, with a checksum that fits. -/
theorem leadingFrames_cons_iff : LeadingFrames lib frame rest (record :: records) ↔
    ∃ (n : ℕ+) (headerLen : Nat),
    FrameAt lib rest record n headerLen ∧ ChecksumFits lib record ∧
    LeadingFrames lib (frame + 1) (rest.drop n) records := by
  constructor
  · rintro (_ | ⟨hread, hfit, hrest⟩)
    obtain ⟨headerLen, hframe⟩ := readFrame_ok.mp hread
    exact ⟨_, headerLen, hframe, hfit, hrest⟩
  · rintro ⟨n, headerLen, hframe, hfit, hrest⟩
    exact .cons (readFrame_ok.mpr ⟨headerLen, hframe⟩) hfit hrest

theorem leadingFrames_readPrefix (frame offset : Nat) (rest : Bytes) :
    LeadingFrames lib frame rest (readPrefix (recoverFrame lib) frame offset rest).1 := by
  induction frame, offset, rest using readPrefix.induct (recoverFrame lib) with
  | case1 frame offset => exact readPrefix_nil .. ▸ .nil
  | case2 frame offset rest hne e hn => exact readPrefix_error hne hn ▸ .nil
  | case3 frame offset rest hne record n hn _ ih =>
    rw [readPrefix_ok hne hn]
    exact .cons (recoverFrame_ok.mp hn).1 (recoverFrame_ok.mp hn).2 ih

theorem LeadingFrames.longest (h : LeadingFrames lib frame rest records) (offset : Nat) :
    records <+: (readPrefix (recoverFrame lib) frame offset rest).1 := by
  induction h generalizing offset with
  | nil => exact nil_prefix
  | @cons frame rest record records n hread hfit _ ih =>
    have hne : rest ≠ [] := by
      rintro rfl
      exact absurd (readFrame_local hread).1 n.pos.not_ge
    rw [readPrefix_ok hne (recoverFrame_ok.mpr ⟨hread, hfit⟩)]
    exact (prefix_cons_inj record).mpr (ih _)

theorem readPrefix_none_iff : readPrefix (recoverFrame lib) frame offset rest = (records, none) ↔
    ∃ decoded, readAll (decodeFrame lib) frame rest = .ok decoded ∧ records = decoded.map Prod.snd ∧
    ∀ d ∈ decoded, ChecksumFits lib d.2 := by
  induction frame, offset, rest using readPrefix.induct (recoverFrame lib) generalizing records with
  | case1 frame offset => simp [eq_comm]
  | case2 frame offset rest hne e hn =>
    rw [readPrefix_error hne hn]
    refine iff_of_false (by simp) ?_
    rintro ⟨decoded, hdecoded, -, hfits⟩
    cases hread : decodeFrame lib frame rest with
    | error err =>
      rw [readAll_error hne hread] at hdecoded
      cases hdecoded
    | ok got =>
      rw [readAll_ok hne hread] at hdecoded
      obtain ⟨_, -, rfl⟩ := map_eq_ok.mp hdecoded
      have hok := recoverFrame_ok.mpr ⟨decodeFrame_ok.mp hread, (forall_mem_cons.mp hfits).1⟩
      rw [hn] at hok
      cases hok
  | case3 frame offset rest hne record n hn _ ih =>
    obtain ⟨hread, hfit⟩ := recoverFrame_ok.mp hn
    rw [readPrefix_ok hne hn, readAll_ok hne (decodeFrame_ok.mpr hread)]
    constructor
    · intro h
      obtain ⟨rfl, hnone⟩ := Prod.mk.inj h
      obtain ⟨decoded, hdecoded, heq, hfits⟩ := ih.mp (Prod.ext rfl hnone)
      exact ⟨_, map_eq_ok.mpr ⟨decoded, hdecoded, rfl⟩, congrArg _ heq, forall_mem_cons.mpr ⟨hfit, hfits⟩⟩
    · rintro ⟨_, hdecoded, rfl, hfits⟩
      obtain ⟨decoded, hrest, rfl⟩ := map_eq_ok.mp hdecoded
      rw [ih.mpr ⟨decoded, hrest, rfl, (forall_mem_cons.mp hfits).2⟩]
      rfl

theorem recoverLines_none_iff {decoded : List (Nat × WalRecord)} :
    recoverLines lib path decoded = .ok ⟨records, none⟩ ↔
    checkRecords lib decoded = .ok records := by
  induction decoded generalizing records with
  | nil => simp [recoverLines, checkRecords]
  | cons d decoded ih =>
    rw [recoverLines, checkRecords, bind_eq_ok, bind_eq_ok]
    refine exists_congr fun status => and_congr_right fun _ => ?_
    split
    · exact iff_of_false (by simp) fun h => by cases h
    · rw [bind_eq_ok, bind_eq_ok]
      constructor
      · rintro ⟨⟨rest, quarantined⟩, hrest, h⟩
        cases h
        exact ⟨rest, ih.mp hrest, rfl⟩
      · rintro ⟨rest, hrest, h⟩
        cases h
        exact ⟨_, ih.mpr hrest, rfl⟩

theorem readers_agree_on (file : Option Bytes) :
    readRecordsFile lib path file = .ok records ↔
    readRecoverableRecordsFile lib path file = .ok ⟨records, none⟩ := by
  cases file with
  | none => simp [readRecordsFile, readRecoverableRecordsFile]
  | some bytes =>
    by_cases hframed : Framed bytes
    · rw [readRecoverableRecordsFile_framed hframed, readRecordsFile_ok, decodeWalRecords_framed hframed]
      refine (@readPrefix_none_iff lib 1 0 bytes records).symm.trans ?_
      simp [decodeFramedWalRecordsPrefix, Prod.ext_iff]
    · obtain ⟨hne, hmagic⟩ := not_or.mp hframed
      simp only [readRecordsFile, readRecoverableRecordsFile, decodeWalRecords]
      rw [if_neg (by simpa using hne), if_neg (by simpa using hmagic), if_neg (by simpa using hne),
        if_neg (by simpa using hmagic), bind_eq_ok, bind_eq_ok]
      simp [recoverLines_none_iff]

theorem readers_agree (lib : Libraries) (path : String) (file : Option Bytes) : (∀ records,
    readRecordsFile lib path file = .ok records ↔
    readRecoverableRecordsFile lib path file = .ok ⟨records, none⟩) ∧
    ∀ bytes ∈ file, Framed bytes → (∀ records, readRecordsFile lib path file ≠ .ok records) →
    ∃ records report,
    readRecoverableRecordsFile lib path file = .ok ⟨records, some report⟩ ∧
    LeadingFrames lib 1 bytes records ∧
    ∀ records', LeadingFrames lib 1 bytes records' → records' <+: records := by
  refine ⟨fun records => readers_agree_on file, ?_⟩
  rintro bytes rfl hframed hrejected
  have hread := @readRecoverableRecordsFile_framed lib bytes hframed path
  cases hquarantined : (decodeFramedWalRecordsPrefix lib path bytes).quarantined with
  | none =>
    refine absurd ((readers_agree_on _).mpr ?_) (hrejected (decodeFramedWalRecordsPrefix lib path bytes).records)
    rw [hread, ← hquarantined]
  | some report =>
    refine ⟨_, report, hread.trans ?_, leadingFrames_readPrefix 1 0 bytes, fun _ h => h.longest 0⟩
    rw [← hquarantined]
    rfl

end NextDb.Wal
