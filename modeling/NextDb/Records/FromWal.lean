import NextDb.Wal.Replay
import NextDb.Wal.ByLsn

/-!
# Messages and records of the log

What the projections are built from: the messages of the log in order, and the
record that its last upsert left at each path.
-/

namespace NextDb.Records

open Wal

variable (records : List WalRecord)

def messagesFromWalRecords : List Message := records.filterMap messageOf

/-- One operation of a transaction, or a record's own. -/
def applyMutation (lsn : Nat) (recordsByPath : BTreeMap String DbRecord) :
    DbRecordMutationDraft → BTreeMap String DbRecord
  | .upsert record => recordsByPath.insert record.path (record.intoRecord lsn)
  | .delete record => recordsByPath.erase record.path

/-- What a log record does to the records, in order. -/
def recordMutations : WalPayload → List DbRecordMutationDraft
  | .recordUpserted record => [.upsert record]
  | .recordDeleted record => [.delete record]
  | .recordTransactionCommitted operations _ => operations
  | _ => []

def applyWalRecord (recordsByPath : BTreeMap String DbRecord) (walRecord : WalRecord) :
    BTreeMap String DbRecord :=
  (recordMutations walRecord.payload).foldl (applyMutation walRecord.lsn) recordsByPath

def recordsByPath : BTreeMap String DbRecord := records.foldl applyWalRecord ∅

def recordsFromWalRecords : List DbRecord :=
  (recordsByPath records).toList.map Prod.snd

theorem messagesFromWalRecords_append (records more : List WalRecord) :
    messagesFromWalRecords (records ++ more) =
    messagesFromWalRecords records ++ messagesFromWalRecords more := List.filterMap_append

theorem recordsByPath_concat (walRecord : WalRecord) :
    recordsByPath (records ++ [walRecord]) = applyWalRecord (recordsByPath records) walRecord := by
  simp [recordsByPath]

theorem applyWalRecord_of_nil {recordsByPath : BTreeMap String DbRecord} {walRecord : WalRecord}
    (h : recordMutations walRecord.payload = []) :
    applyWalRecord recordsByPath walRecord = recordsByPath := by
  rw [applyWalRecord, h]
  rfl

end NextDb.Records
