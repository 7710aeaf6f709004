import NextDb.Wal.Postcard

/-!
# Record checksums

The checksum of a record is the SHA-256 of the JSON text of every other field.
`ensureChecksum` fills in a missing one and leaves a stored one alone, right or
wrong.
-/

namespace NextDb.Wal

variable (lib : Libraries)

def computeChecksum (record : WalRecord) : Result String := do
  let bytes ← lib.materialToVec record.checksumMaterial
  .ok ("sha256:" ++ hexLower (lib.sha256 bytes))

def refreshChecksum (record : WalRecord) : Result WalRecord := do
  let checksum ← computeChecksum lib record
  .ok { record with checksum := some checksum }

def ensureChecksum (record : WalRecord) : Result WalRecord :=
  if record.checksum.isNone then refreshChecksum lib record else .ok record

def verifyChecksum (record : WalRecord) : Result WalChecksumStatus :=
  match record.checksum with
  | none => .ok .missing
  | some checksum => do
    let expected ← computeChecksum lib record
    if checksum = expected then .ok .valid else .ok (.mismatch expected)

/-- The stored checksum, if there is one, is the record's own. -/
def ChecksumFits (record : WalRecord) : Prop :=
  ∀ checksum, record.checksum = some checksum → computeChecksum lib record = .ok checksum

variable {lib}

theorem computeChecksum_with (record : WalRecord) (checksum : Option String) :
    computeChecksum lib { record with checksum } = computeChecksum lib record := rfl

variable {record signed : WalRecord}

theorem refreshChecksum_ok (h : refreshChecksum lib record = .ok signed) :
    ∃ checksum, computeChecksum lib record = .ok checksum ∧
    signed = { record with checksum := some checksum } := by
  obtain ⟨checksum, hc, h⟩ := bind_eq_ok.mp h
  cases h
  exact ⟨checksum, hc, rfl⟩

theorem verifyChecksum_refreshChecksum (h : refreshChecksum lib record = .ok signed) :
    verifyChecksum lib signed = .ok .valid := by
  obtain ⟨checksum, hc, rfl⟩ := refreshChecksum_ok h
  simp only [verifyChecksum, computeChecksum_with, hc]
  simp [bind, Except.bind]

theorem verifyChecksum_iff :
    (verifyChecksum lib record = .ok .missing ∨ verifyChecksum lib record = .ok .valid) ↔
    ChecksumFits lib record := by
  unfold verifyChecksum ChecksumFits
  cases hs : record.checksum with
  | none => simp
  | some checksum =>
    cases hc : computeChecksum lib record with
    | error e => simp [bind, Except.bind]
    | ok expected =>
      by_cases he : checksum = expected
      · simp [bind, Except.bind, he]
      · simp [bind, Except.bind, he, Ne.symm he]

/-- A record with its checksum backfilled. -/
structure Backfilled (lib : Libraries) (record signed : WalRecord) : Prop where
  stored : record.checksum.isSome → signed = record
  missing : record.checksum = none → ∃ checksum, computeChecksum lib record = .ok checksum ∧
    signed = { record with checksum := some checksum } ∧ verifyChecksum lib signed = .ok .valid

end NextDb.Wal
