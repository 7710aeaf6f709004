import NextDb.Api.SnapshotFile
import NextDb.Wal.Compact

/-!
# The next LSN

An append allocates LSNs from `next_lsn`; the writer of the shard puts the frames of a batch at the
end of the active file and sends them to the replicas. Only some batches are synced. At startup
`next_lsn` is the highest LSN of the snapshot and of the active files.

The state holds, beside the files, the records that were acknowledged and those that a replica
accepted.

* `lsns_used_once`: no LSN in the files, the archives, the acknowledgements or the replicas is above
  `next_lsn`, and no two records have the same one, in every run in which a crash loses no frame
  that was acknowledged or accepted, torn bytes do not read as frames, and one snapshot at a time is
  written.
-/

namespace NextDb.Api.NextLsn

open Run Wal List Function
open Replicate (ShardFile)
open SnapshotFile (ServerState ServerEvent ServerStep CompactTask OneAtATime)

/-- The shards of a node with their files and queues, and its counter of LSNs. -/
structure NodeState where
  /-- The snapshots, the compactions and the records of the shards. The active ones are those that
  the active file starts with. -/
  server : ServerState
  files : Nat → WalFile
  /-- How much of a file is synced. -/
  synced : Nat → Nat
  /-- Where the last segment of a file ends that was acknowledged, or that a replica accepted. -/
  answered : Nat → Nat
  /-- The commands that the writer of a shard has not yet taken. -/
  queues : Nat → List WalAppendCommand
  nextLsn : Nat
  acked : List WalRecord
  accepted : List WalRecord

/-- Allocations, batches of the writers, snapshots, crashes and starts. -/
inductive NodeEvent where
  | allocate (shard : Nat) (command : WalAppendCommand)
  /-- The writer does not take the command. -/
  | burn
  /-- The first commands of the queue are answered with an error before they are written. -/
  | reject (shard count : Nat)
  /-- `write_all` fails, with the first `written` bytes in the file. -/
  | tear (shard count written : Nat)
  /-- A segment is written, synced if it has a `Strict` record, and goes to the replicas. -/
  | write (shard count : Nat) (answer : Bool) (accepted : List WalRecord)
  | repair (shard : Nat) (accepted : List WalRecord)
  | commit (lsn : Nat)
  /-- A step of a snapshot, or a compaction that begins or ends. -/
  | server (event : ServerEvent)
  | compactShard (compaction : Nat)
  /-- A shard's compaction fails, when the archive is written, or when the file is replaced too, but
  not opened again. -/
  | failCompaction (compaction : Nat) (archived replaced : Bool)
  /-- The server crashes, with so many bytes in each active file, and starts again. -/
  | restart (cuts : Nat → Nat)

/-- The events that leave the logs as they are. -/
def OffLog : ServerEvent → Prop
  | .append .. | .commit .. | .compactShard .. | .failCompaction .. | .restart => False
  | _ => True

def NodeState.active (s : NodeState) (shard : Nat) : List WalRecord := (s.server.wal shard).active

def NodeState.setFile (s : NodeState) (shard : Nat) (file : WalFile) : NodeState :=
  { s with files := Function.update s.files shard file }

def NodeState.setLog (s : NodeState) (shard : Nat) (log : ShardFile) : NodeState :=
  { s with server := { s.server with wal := Function.update s.server.wal shard log } }

def NodeState.setQueue (s : NodeState) (shard : Nat) (queue : List WalAppendCommand) : NodeState :=
  { s with queues := Function.update s.queues shard queue }

variable (lib : Libraries) (snapLib : Actor.SnapshotStore.Libraries) (sort : Actor.MessageSort)
    (path : Nat → String)
  (hotWindow walShards : Nat)

/-- Where the frames end that the active file starts with. -/
def NodeState.wholeEnd (s : NodeState) (shard : Nat) : Nat :=
  frameEnd lib (s.active shard) (s.active shard).length

/-- The active file has bytes behind those frames. -/
def NodeState.Torn (s : NodeState) (shard : Nat) : Prop :=
  s.wholeEnd lib shard < (s.files shard).bytes.length

instance (s : NodeState) (shard : Nat) : Decidable (s.Torn lib shard) :=
  inferInstanceAs (Decidable (_ < _))

/-- Bytes go to the end of the active file; the frames of these records are whole in them. -/
def NodeState.pushBytes (s : NodeState) (shard : Nat) (bytes : Bytes) (records : List WalRecord) :
    NodeState :=
  (s.setFile shard { s.files shard with bytes := (s.files shard).bytes ++ bytes }).setLog shard
    { s.server.wal shard with
      active := if s.Torn lib shard then s.active shard else s.active shard ++ records }

/-- What a compaction makes of the records that it has read. -/
def compactLog (s : NodeState) (task : CompactTask) (records : List WalRecord) : ShardFile where
  archived := (s.server.wal task.shard).archived ++ records.filter fun r => r.lsn ≤ task.uptoLsn
  active := records.filter fun r => task.uptoLsn < r.lsn

def NodeState.setCompaction (s : NodeState) (compaction : Nat) (task : CompactTask) : NodeState :=
  { s with server := s.server.setCompaction compaction task }

/-- The active file is replaced by one that is synced. -/
def NodeState.replaceFile (s : NodeState) (shard : Nat) (file : WalFile) (log : ShardFile) :
    NodeState :=
  { (s.setFile shard file).setLog shard log with
    synced := Function.update s.synced shard file.bytes.length
    answered := Function.update s.answered shard file.bytes.length }

/-- `highest_lsn` of `main`. The rooms of the replay do not matter to it. -/
def highestLsn (sinceLsn : Nat) (files : List (String × Bytes)) : Result Nat :=
  files.foldlM (fun highest file => do
    let replay ← replayFrom lib sort file.1 (some file.2) hotWindow sinceLsn ∅
    .ok (max highest replay.highestLsn)) sinceLsn

/-- The active files that a crash leaves, in the order of the shards. -/
def NodeState.filesAt (s : NodeState) (cuts : Nat → Nat) : List (String × Bytes) :=
  (List.range walShards).map fun shard => (path shard, (s.files shard).bytes.take (cuts shard))

/-- What each event does to the counter and the files. -/
inductive NodeStep : NodeState → NodeEvent → NodeState → Prop where
  | allocate {s : NodeState} {shard command} : shard < walShards → command.lsn = s.nextLsn + 1 →
    NodeStep s (.allocate shard command)
      { s.setQueue shard (s.queues shard ++ [command]) with nextLsn := s.nextLsn + 1 }
  | burn {s} : NodeStep s .burn { s with nextLsn := s.nextLsn + 1 }
  | reject {s : NodeState} {shard count} :
    NodeStep s (.reject shard count) (s.setQueue shard ((s.queues shard).drop count))
  | tear {s : NodeState} {shard count written records bytes} : (s.files shard).isOpen = true →
    ((s.queues shard).take count).mapM (signedRecord lib shard) = .ok records → records ≠ [] →
    encodeWalRecords lib records = .ok bytes →
    NodeStep s (.tear shard count written) ((s.pushBytes lib shard (bytes.take written)
          (records.take (wholeFrames lib records (min written bytes.length)))).setQueue
        shard ((s.queues shard).drop count))
  | write {s : NodeState} {shard count answer accepted records bytes} : (s.files shard).isOpen = true →
    ((s.queues shard).take count).mapM (signedRecord lib shard) = .ok records → records ≠ [] →
    encodeWalRecords lib records = .ok bytes → (∀ r ∈ accepted, r ∈ records) →
    NodeStep s (.write shard count answer accepted)
      { (s.pushBytes lib shard bytes records).setQueue shard ((s.queues shard).drop count) with
        synced := if records.any (fun r => r.durability = .strict) then
            Function.update s.synced shard ((s.files shard).bytes ++ bytes).length
          else s.synced
        answered := if answer || !accepted.isEmpty then
            Function.update s.answered shard ((s.files shard).bytes ++ bytes).length
          else s.answered
        acked := if answer then s.acked ++ records else s.acked
        accepted := s.accepted ++ accepted }
  | repair {s : NodeState} {shard accepted records} :
    readRecordsFile lib (path shard) (some (s.files shard).bytes) = .ok records →
    (∀ r ∈ accepted, r ∈ (s.server.wal shard).archived ++ records) →
    NodeStep s (.repair shard accepted)
      { s with
        synced := Function.update s.synced shard (s.files shard).bytes.length
        answered := Function.update s.answered shard (s.files shard).bytes.length
        accepted := s.accepted ++ accepted }
  | commit {s : NodeState} {lsn} : (∃ r ∈ s.acked, r.lsn = lsn) →
    NodeStep s (.commit lsn) { s with server := { s.server with currentLsn := max s.server.currentLsn lsn } }
  | server {s : NodeState} {event server} : OffLog event → ServerStep snapLib walShards s.server event server →
    NodeStep s (.server event) { s with server }
  | compactNothing {s : NodeState} {compaction task records} :
    s.server.compactions[compaction]? = some task → task.ended = false → task.shard < walShards →
    readRecordsFile lib (path task.shard) (some (s.files task.shard).bytes) = .ok records →
    (∀ r ∈ records, task.uptoLsn < r.lsn) →
    NodeStep s (.compactShard compaction) (s.setCompaction compaction { task with shard := task.shard + 1 })
  | compactShard {s : NodeState} {compaction task records bytes} :
    s.server.compactions[compaction]? = some task → task.ended = false → task.shard < walShards →
    readRecordsFile lib (path task.shard) (some (s.files task.shard).bytes) = .ok records →
    encodeWalRecords lib (compactLog s task records).active = .ok bytes →
    NodeStep s (.compactShard compaction)
      ((s.setCompaction compaction { task with shard := task.shard + 1 }).replaceFile task.shard ⟨bytes, true⟩
        (compactLog s task records))
  | failCompaction {s : NodeState} {compaction task} :
    s.server.compactions[compaction]? = some task → task.ended = false →
    NodeStep s (.failCompaction compaction false false) (s.setCompaction compaction { task with ended := true })
  | failArchived {s : NodeState} {compaction task records} :
    s.server.compactions[compaction]? = some task → task.ended = false → task.shard < walShards →
    readRecordsFile lib (path task.shard) (some (s.files task.shard).bytes) = .ok records →
    NodeStep s (.failCompaction compaction true false)
      ((s.setCompaction compaction { task with ended := true }).setLog task.shard
        { compactLog s task records with active := s.active task.shard })
  | failReplaced {s : NodeState} {compaction task records bytes} :
    s.server.compactions[compaction]? = some task → task.ended = false → task.shard < walShards →
    readRecordsFile lib (path task.shard) (some (s.files task.shard).bytes) = .ok records →
    encodeWalRecords lib (compactLog s task records).active = .ok bytes →
    NodeStep s (.failCompaction compaction true true)
      ((s.setCompaction compaction { task with ended := true }).replaceFile task.shard ⟨bytes, false⟩
        (compactLog s task records))
  | restart {s : NodeState} {cuts server lsn} {records : Nat → List WalRecord} :
    (∀ shard, s.synced shard ≤ cuts shard ∧ cuts shard ≤ (s.files shard).bytes.length) →
    ServerStep snapLib walShards s.server .restart server →
    highestLsn lib sort hotWindow server.lastSnapshotLsn (s.filesAt path walShards cuts) = .ok lsn →
    (∀ shard, readRecordsFile lib (path shard) (some ((s.files shard).bytes.take (cuts shard))) = .ok (records shard)) →
    NodeStep s (.restart cuts)
      { s with
        server := { server with
          currentLsn := lsn
          wal := fun shard => { s.server.wal shard with active := records shard } }
        files := fun shard => ⟨(s.files shard).bytes.take (cuts shard), true⟩
        queues := fun _ => []
        nextLsn := lsn }

/-- Torn bytes do not read as frames: a file with bytes behind its first whole frames is not read to
its end. -/
def TornShow (s : NodeState) : Prop :=
  ∀ shard cut, s.wholeEnd lib shard < cut → cut ≤ (s.files shard).bytes.length →
    ∃ err, readRecordsFile lib (path shard) (some ((s.files shard).bytes.take cut)) = .error err

/-- A crash loses no frame that was acknowledged or accepted; torn bytes show when a file is read;
one snapshot at a time is written. -/
def Keeps (s : NodeState) : NodeEvent → Prop
  | .restart cuts => TornShow lib path s ∧ ∀ shard, s.answered shard ≤ cuts shard
  | .repair .. | .compactShard _ | .failCompaction .. => TornShow lib path s
  | .server event => OneAtATime snapLib s.server event
  | _ => True

/-- A node with empty files and no snapshot. -/
structure Fresh (s : NodeState) : Prop where
  server : SnapshotFile.Fresh s.server
  active : ∀ shard, s.active shard = []
  files : ∀ shard, (s.files shard).bytes = []
  answered : ∀ shard, s.answered shard = 0
  queues : ∀ shard, s.queues shard = []
  known : s.acked = [] ∧ s.accepted = []

/-- The record is in an active file or an archive, it was acknowledged, or a replica has accepted
it. -/
def NodeState.Has (s : NodeState) (r : WalRecord) : Prop :=
  (∃ shard, r ∈ (s.server.wal shard).records) ∨ r ∈ s.acked ∨ r ∈ s.accepted

/-- No two records have one LSN, and none has one above the counter. -/
structure LsnsOnce (s : NodeState) : Prop where
  le_next : ∀ r, s.Has r → r.lsn ≤ s.nextLsn
  once : ∀ r r', s.Has r → s.Has r' → r.lsn = r'.lsn → r = r'

/-! ## Numbers -/

/-- The LSNs of the records and of the commands in the queues are taken from one counter. -/
structure Numbered (next : Nat) (queues : Nat → List WalAppendCommand) (has : WalRecord → Prop) :
    Prop where
  le_next : ∀ r, has r → r.lsn ≤ next
  once : ∀ r r', has r → has r' → r.lsn = r'.lsn → r = r'
  queued : ∀ shard, ∀ c ∈ queues shard, c.lsn ≤ next ∧ ∀ r, has r → r.lsn ≠ c.lsn
  ascending : ∀ shard, (queues shard).Pairwise fun c d => c.lsn < d.lsn
  apart : ∀ shard other, shard ≠ other → ∀ c ∈ queues shard, ∀ d ∈ queues other, c.lsn ≠ d.lsn

section

variable {next : Nat} {queues : Nat → List WalAppendCommand} {has has' : WalRecord → Prop}
    {shard : Nat}

theorem Numbered.mono (h : Numbered next queues has) (hhas : ∀ r, has' r → has r) :
    Numbered next queues has' where
  le_next r hr := h.le_next r (hhas r hr)
  once r r' hr hr' := h.once r r' (hhas r hr) (hhas r' hr')
  queued shard c hc := ⟨(h.queued shard c hc).1, fun r hr => (h.queued shard c hc).2 r (hhas r hr)⟩
  ascending := h.ascending
  apart := h.apart

theorem Numbered.burn (h : Numbered next queues has) : Numbered (next + 1) queues has where
  le_next r hr := Nat.le_succ_of_le (h.le_next r hr)
  once := h.once
  queued shard c hc := ⟨Nat.le_succ_of_le (h.queued shard c hc).1, (h.queued shard c hc).2⟩
  ascending := h.ascending
  apart := h.apart

theorem mem_update {queue : List WalAppendCommand} {other : Nat} {c : WalAppendCommand}
    (h : c ∈ update queues shard queue other) :
    other = shard ∧ c ∈ queue ∨ other ≠ shard ∧ c ∈ queues other := by
  by_cases hne : other = shard
  · subst hne
    rw [update_self] at h
    exact .inl ⟨rfl, h⟩
  · rw [update_of_ne hne] at h
    exact .inr ⟨hne, h⟩

theorem Numbered.allocate (h : Numbered next queues has) {command : WalAppendCommand}
    (hlsn : command.lsn = next + 1) :
    Numbered (next + 1) (update queues shard (queues shard ++ [command])) has := by
  have hmem : ∀ other, ∀ c ∈ update queues shard (queues shard ++ [command]) other, c ∈ queues other ∨ other = shard ∧
      c = command := by
    intro other c hc
    rcases mem_update hc with ⟨rfl, hc⟩ | ⟨-, hc⟩
    · exact (mem_append.mp hc).imp_right fun hc => ⟨rfl, mem_singleton.mp hc⟩
    · exact .inl hc
  have hbelow : ∀ other, ∀ c ∈ queues other, c.lsn < command.lsn := by
    intro other c hc
    have := (h.queued other c hc).1
    omega
  refine ⟨h.burn.le_next, h.once, ?_, ?_, ?_⟩
  · intro other c hc
    rcases hmem other c hc with hc | ⟨-, rfl⟩
    · exact h.burn.queued other c hc
    · refine ⟨hlsn.le, fun r hr => ?_⟩
      have := h.le_next r hr
      omega
  · intro other
    by_cases hne : other = shard
    · subst hne
      rw [update_self, pairwise_append]
      refine ⟨h.ascending _, pairwise_singleton .., fun c hc d hd => ?_⟩
      rw [mem_singleton.mp hd]
      exact hbelow _ c hc
    · rw [update_of_ne hne]
      exact h.ascending other
  · intro one other hne c hc d hd
    rcases hmem one c hc with hold | ⟨hone, rfl⟩
    · rcases hmem other d hd with hold' | ⟨-, rfl⟩
      · exact h.apart one other hne c hold d hold'
      · exact (hbelow one c hold).ne
    · rcases hmem other d hd with hold' | ⟨hother, rfl⟩
      · exact (hbelow other d hold').ne'
      · exact absurd (hone.trans hother.symm) hne

theorem Numbered.drop (h : Numbered next queues has) (count : Nat) :
    Numbered next (update queues shard ((queues shard).drop count)) has := by
  have hmem : ∀ other, ∀ c ∈ update queues shard ((queues shard).drop count) other, c ∈ queues other := by
    intro other c hc
    rcases mem_update hc with ⟨rfl, hc⟩ | ⟨-, hc⟩
    · exact mem_of_mem_drop hc
    · exact hc
  refine ⟨h.le_next, h.once, fun other c hc => h.queued other c (hmem other c hc), fun other => ?_,
    fun one other hne c hc d hd => h.apart one other hne c (hmem one c hc) d (hmem other d hd)⟩
  by_cases hne : other = shard
  · subst hne
    rw [update_self]
    exact (h.ascending _).sublist (drop_sublist ..)
  · rw [update_of_ne hne]
    exact h.ascending other

/-- The commands that leave a queue are written. -/
theorem Numbered.write {lib : Libraries} {count : Nat} {records : List WalRecord}
    (h : Numbered next queues has)
    (hrecords : ((queues shard).take count).mapM (signedRecord lib shard) = .ok records)
    (hhas : ∀ r,
    has' r → has r ∨ r ∈ records) :
    Numbered next (update queues shard ((queues shard).drop count)) has' := by
  have hcommand : ∀ r ∈ records, ∃ c ∈ (queues shard).take count, signedRecord lib shard c = .ok r ∧ r.lsn = c.lsn := by
    intro r hr
    obtain ⟨c, hc, hsign⟩ := mem_of_mapM_ok hrecords hr
    exact ⟨c, hc, hsign, (signedRecord_data hsign).2⟩
  have hnew : ∀ r, has r → ∀ r' ∈ records, r.lsn ≠ r'.lsn := by
    intro r hr r' hr' heq
    obtain ⟨c, hc, -, hlsn⟩ := hcommand r' hr'
    exact (h.queued shard c (mem_of_mem_take hc)).2 r hr (heq.trans hlsn)
  have hdrop := @Numbered.drop next queues has shard h count
  refine ⟨fun r hr => ?_, fun r r' hr hr' heq => ?_, fun other c hc => ⟨(hdrop.queued other c hc).1, fun r hr => ?_⟩,
    hdrop.ascending, hdrop.apart⟩
  · rcases hhas r hr with hr | hr
    · exact h.le_next r hr
    · obtain ⟨c, hc, -, hlsn⟩ := hcommand r hr
      rw [hlsn]
      exact (h.queued shard c (mem_of_mem_take hc)).1
  · rcases hhas r hr with hr | hr
    · rcases hhas r' hr' with hr' | hr'
      · exact h.once r r' hr hr' heq
      · exact absurd heq (hnew r hr r' hr')
    · rcases hhas r' hr' with hr' | hr'
      · exact absurd heq.symm (hnew r' hr' r hr)
      · obtain ⟨c, hc, hsign, hlsn⟩ := hcommand r hr
        obtain ⟨c', hc', hsign', hlsn'⟩ := hcommand r' hr'
        have hnodup : (((queues shard).take count).map (·.lsn)).Nodup :=
          pairwise_map.mpr (((h.ascending shard).sublist (take_sublist count _)).imp ne_of_lt)
        have hsame : c = c' := inj_on_of_nodup_map hnodup hc hc' (by omega)
        subst hsame
        exact Except.ok.inj (hsign.symm.trans hsign')
  · rcases hhas r hr with hr | hr
    · exact (hdrop.queued other c hc).2 r hr
    · obtain ⟨d, hd, -, hlsn⟩ := hcommand r hr
      rw [hlsn]
      rcases mem_update hc with ⟨rfl, hc⟩ | ⟨hne, hc⟩
      · have hascending := h.ascending other
        rw [← take_append_drop count (queues other), pairwise_append] at hascending
        exact (hascending.2.2 d hd c hc).ne
      · exact h.apart shard other (Ne.symm hne) d (mem_of_mem_take hd) c hc

end

/-! ## What an active file holds -/

section

open Framing

variable {lib} {active records : List WalRecord} {k : Nat}

theorem wholeFrames_le_length (lib : Libraries) (records : List WalRecord) (k : Nat) :
    wholeFrames lib records k ≤ records.length := by
  have := fitting_le (records.map (frameBytes lib)) k
  rwa [length_map] at this

theorem le_wholeFrames {i : Nat} (hi : i ≤ records.length) (h : frameEnd lib records i ≤ k) :
    i ≤ wholeFrames lib records k :=
  le_fitting (by rwa [length_map]) h

theorem frameEnd_wholeFrames_le (lib : Libraries) (records : List WalRecord) (k : Nat) :
    frameEnd lib records (wholeFrames lib records k) ≤ k := endOf_fitting_le ..

theorem take_wholeFrames (h : frameEnd lib records records.length ≤ k) :
    records.take (wholeFrames lib records k) = records :=
  take_of_length_le (le_wholeFrames (le_refl _) h)

theorem wholeFrames_mono {k' : Nat} (h : k ≤ k') :
    wholeFrames lib records k ≤ wholeFrames lib records k' :=
  le_wholeFrames (wholeFrames_le_length ..) ((frameEnd_wholeFrames_le ..).trans h)

theorem frameEnd_append {i : Nat} (h : i ≤ records.length) (more : List WalRecord) :
    frameEnd lib (records ++ more) i = frameEnd lib records i := by
  rw [frameEnd, frameEnd, endOf, endOf, map_append, take_append_of_le_length (by rwa [length_map])]

variable {r : WalRecord}

theorem mem_take_wholeFrames_append (h : r ∈ records.take (wholeFrames lib records k))
    (more : List WalRecord) :
    r ∈ (records ++ more).take (wholeFrames lib (records ++ more) k) := by
  have hle := wholeFrames_le_length lib records k
  have hmono : wholeFrames lib records k ≤ wholeFrames lib (records ++ more) k := by
    refine le_wholeFrames (hle.trans ?_) ?_
    · rw [length_append]
      exact Nat.le_add_right ..
    · rw [frameEnd_append hle]
      exact frameEnd_wholeFrames_le ..
  rw [← take_append_of_le_length hle] at h
  exact (take_prefix_take_left hmono).subset h

/-- The active file starts with the frames of these records; what was answered is in it. -/
structure LogHolds (lib : Libraries) (bytes : Bytes) (active : List WalRecord) (answered : Nat) :
    Prop where
  whole : ∃ whole, encodeWalRecords lib active = .ok whole ∧ whole <+: bytes
  sealed : ∀ r ∈ active, Sealed lib r
  answered_le : answered ≤ bytes.length

variable {bytes : Bytes} {answered : Nat}

theorem LogHolds.encode (hlib : lib.Lawful) (h : LogHolds lib bytes active answered) :
    encodeWalRecords lib active =
    .ok (bytes.take (frameEnd lib active active.length)) ∧ frameEnd lib active active.length ≤
    bytes.length := by
  obtain ⟨whole, hencode, hextends⟩ := h.whole
  rw [frameEnd_encode hlib hencode, ← prefix_iff_eq_take.mp hextends]
  exact ⟨hencode, hextends.length_le⟩

/-- A cut that is read to its end is one behind a whole frame, and gives the records up to it. -/
theorem LogHolds.read_cut (hlib : lib.Lawful) (hjson : lib.JsonText)
    (h : LogHolds lib bytes active answered)
    {path : String} {cut : Nat} (hcut : cut ≤ frameEnd lib active active.length)
    (hread : readRecordsFile lib path (some (bytes.take cut)) = .ok records) :
    FrameBoundary lib active cut ∧ records = active.take (wholeFrames lib active cut) := by
  obtain ⟨hencode, hle⟩ := h.encode hlib
  have htake : bytes.take cut = (bytes.take (frameEnd lib active active.length)).take cut := by
    rw [take_take, min_eq_left hcut]
  have hsigned : Forall₂ (fun r s => ensureChecksum lib r = .ok s) (active.take (wholeFrames lib active cut))
      (active.take (wholeFrames lib active cut)) := by
    rw [forall₂_same]
    exact fun r hr => (h.sealed r (mem_of_mem_take hr)).ensured
  rw [htake] at hread
  obtain ⟨hboundary, -, hrecords⟩ :=
    (readRecordsFile_cut_iff hlib hjson hencode (by rw [length_take]; omega) hsigned records).mp hread
  exact ⟨hboundary, hrecords⟩

/-- Cut back to a whole frame, the file is the encoding of the records up to it. -/
theorem LogHolds.encode_cut (hlib : lib.Lawful) (h : LogHolds lib bytes active answered)
    {cut : Nat} (hcut : cut ≤ frameEnd lib active active.length)
    (hboundary : FrameBoundary lib active cut) :
    encodeWalRecords lib (active.take (wholeFrames lib active cut)) = .ok (bytes.take cut) := by
  obtain ⟨hencode, -⟩ := h.encode hlib
  have htake := encodeWalRecords_take hencode (wholeFrames lib active cut)
  rwa [← frameBoundary_iff.mp hboundary, take_take, min_eq_left hcut] at htake

/-- Bytes are added; behind whole frames, the frames that they start with are whole. -/
theorem LogHolds.push (hlib : lib.Lawful) (h : LogHolds lib bytes active answered)
    {more part : Bytes} (hpart : encodeWalRecords lib records = .ok part)
    (hextends : part <+: more) (hsealed : ∀ r ∈ records, Sealed lib r) :
    LogHolds lib (bytes ++ more)
    (if frameEnd lib active active.length < bytes.length then active else active ++ records) answered := by
  have hanswered : answered ≤ (bytes ++ more).length := by
    rw [length_append]
    exact h.answered_le.trans (Nat.le_add_right ..)
  obtain ⟨whole, hencode, hwhole⟩ := h.whole
  split
  · exact ⟨⟨whole, hencode, hwhole.trans (prefix_append ..)⟩, h.sealed, hanswered⟩
  · next htorn =>
    have hall : whole = bytes := by
      rw [frameEnd_encode hlib hencode] at htorn
      exact hwhole.eq_of_length_le (Nat.le_of_not_lt htorn)
    subst hall
    exact ⟨⟨_, encodeWalRecords_append hencode hpart, (prefix_append_right_inj _).mpr hextends⟩,
      fun r hr => (mem_append.mp hr).elim (h.sealed r) (hsealed r), hanswered⟩

/-- The record will be read from the active file wherever a crash cuts it, or the file will not be
read. -/
def KeptIn (lib : Libraries) (active : List WalRecord) (answered : Nat) (r : WalRecord) : Prop :=
  r ∈ active.take (wholeFrames lib active answered) ∨ frameEnd lib active active.length < answered

theorem KeptIn.raise {answered' : Nat} (h : KeptIn lib active answered r)
    (hle : answered ≤ answered') :
    KeptIn lib active answered' r :=
  h.imp (fun hr => (take_prefix_take_left (wholeFrames_mono hle)).subset hr) fun hlt => lt_of_lt_of_le hlt hle

theorem KeptIn.push (h : KeptIn lib active answered r)
    (hholds : LogHolds lib bytes active answered) :
    KeptIn lib (if frameEnd lib active active.length < bytes.length then active else active ++ records) answered r := by
  split
  · exact h
  · next htorn =>
    have := hholds.answered_le
    exact .inl (mem_take_wholeFrames_append (h.resolve_right (by omega)) records)

/-- What is answered is kept when the file is cut back behind it. -/
theorem KeptIn.cut {cut : Nat}
    (h : KeptIn lib active answered r) (hle : answered ≤ cut)
    (hcut : cut ≤ frameEnd lib active active.length) :
    KeptIn lib (active.take (wholeFrames lib active cut)) answered r := by
  have hr := h.resolve_right (Nat.not_lt_of_le (hle.trans hcut))
  have hfits : wholeFrames lib active answered ≤ (active.take (wholeFrames lib active cut)).length := by
    rw [length_take]
    exact Nat.le_min.mpr ⟨wholeFrames_mono hle, wholeFrames_le_length ..⟩
  have hend : frameEnd lib (active.take (wholeFrames lib active cut)) (wholeFrames lib active answered) =
      frameEnd lib active (wholeFrames lib active answered) := by
    rw [← frameEnd_append hfits (active.drop (wholeFrames lib active cut)), take_append_drop]
  have hwhole := le_wholeFrames hfits (hend.le.trans (frameEnd_wholeFrames_le ..))
  have hmono : wholeFrames lib active answered ≤ wholeFrames lib active cut := wholeFrames_mono hle
  rw [← min_eq_left hmono, ← take_take] at hr
  exact .inl ((take_prefix_take_left hwhole).subset hr)

theorem KeptIn.of_mem (hr : r ∈ active) (hle : frameEnd lib active active.length ≤ answered) :
    KeptIn lib active answered r :=
  .inl (by rwa [take_wholeFrames hle])

end

/-! ## The invariant -/

variable {lib snapLib sort path hotWindow walShards}

/-- The files, the queues and what was acknowledged agree with the counter. -/
structure NodeInv (lib : Libraries) (snapLib : Actor.SnapshotStore.Libraries) (walShards : Nat)
    (s : NodeState) :
    Prop where
  server : SnapshotFile.Inv snapLib s.server
  logs : ∀ shard, LogHolds lib (s.files shard).bytes (s.active shard) (s.answered shard)
  shards : ∀ shard, s.active shard ≠ [] ∨ s.queues shard ≠ [] → shard < walShards
  kept : ∀ r, r ∈ s.acked ∨ r ∈ s.accepted →
    r.lsn ≤ s.server.lastSnapshotLsn ∨ ∃ shard, KeptIn lib (s.active shard) (s.answered shard) r
  numbered : Numbered s.nextLsn s.queues s.Has

/-- What is archived, and what compactions are at, is not above the stored snapshot. -/
structure Archived (s t : NodeState) : Prop where
  server : ∃ wal currentLsn compactions, t.server = { s.server with wal, currentLsn, compactions }
  archived : ∀ shard, ∀ r ∈ (t.server.wal shard).archived,
    r ∈ (s.server.wal shard).archived ∨ ∃ task ∈ s.server.compactions, r.lsn ≤ task.uptoLsn
  compactions : ∀ task ∈ t.server.compactions, ∃ old ∈ s.server.compactions, task.uptoLsn = old.uptoLsn

variable {t : NodeState}

theorem Archived.inv {s : NodeState} (h : Archived s t) (hinv : SnapshotFile.Inv snapLib s.server) :
    SnapshotFile.Inv snapLib t.server := by
  obtain ⟨wal, currentLsn, compactions, hserver⟩ := h.server
  have harchived := h.archived
  have hcompactions := h.compactions
  rw [hserver] at harchived hcompactions ⊢
  refine hinv.setWal (fun shard r hr => ?_) fun task htask => ?_
  · rcases harchived shard r hr with hr | ⟨task, htask, hle⟩
    · exact hinv.archived shard r hr
    · have := hinv.compactions task htask
      omega
  · obtain ⟨old, hold, hlsn⟩ := hcompactions task htask
    rw [hlsn]
    exact hinv.compactions old hold

/-- A step at the log of one shard. -/
theorem NodeInv.at_shard {s t : NodeState} {shard : Nat} (h : NodeInv lib snapLib walShards s)
    (harchived : Archived s t)
    (hothers : ∀ other, other ≠ shard → (t.files other).bytes = (s.files other).bytes ∧
    t.active other = s.active other ∧ t.answered other = s.answered other)
    (hlog : LogHolds lib (t.files shard).bytes (t.active shard) (t.answered shard))
    (hshards : ∀ other, t.active other ≠ [] ∨ t.queues other ≠ [] → s.active other ≠ [] ∨
      s.queues other ≠ [])
    (hkept : ∀ r, KeptIn lib (s.active shard) (s.answered shard) r →
    r.lsn ≤ s.server.lastSnapshotLsn ∨ KeptIn lib (t.active shard) (t.answered shard) r)
    (hknown : ∀ r, r ∈ t.acked ∨ r ∈ t.accepted → (r ∈ s.acked ∨ r ∈ s.accepted) ∨
      r.lsn ≤ s.server.lastSnapshotLsn ∨
    KeptIn lib (t.active shard) (t.answered shard) r)
    (hnumbered : Numbered t.nextLsn t.queues t.Has) :
    NodeInv lib snapLib walShards t := by
  have hlast : t.server.lastSnapshotLsn = s.server.lastSnapshotLsn := by
    obtain ⟨wal, currentLsn, compactions, hserver⟩ := harchived.server
    rw [hserver]
  refine ⟨harchived.inv h.server, fun other => ?_, fun other hother => h.shards other (hshards other hother), ?_,
    hnumbered⟩
  · by_cases hne : other = shard
    · rw [hne]
      exact hlog
    · obtain ⟨hbytes, hactive, hanswered⟩ := hothers other hne
      rw [hbytes, hactive, hanswered]
      exact h.logs other
  · intro r hr
    rw [hlast]
    rcases hknown r hr with hr | hr | hr
    · rcases h.kept r hr with hle | ⟨other, hin⟩
      · exact .inl hle
      · by_cases hne : other = shard
        · rw [hne] at hin
          exact (hkept r hin).imp_right fun hin => ⟨shard, hin⟩
        · obtain ⟨-, hactive, hanswered⟩ := hothers other hne
          refine .inr ⟨other, ?_⟩
          rw [hactive, hanswered]
          exact hin
    · exact .inl hr
    · exact .inr ⟨shard, hr⟩

/-! ### Writing -/

section

variable {s : NodeState} {shard : Nat} {bytes : Bytes} {records : List WalRecord}

theorem setLog_archived {log : ShardFile} (h : log.archived = (s.server.wal shard).archived)
    (other : Nat) :
    ((s.setLog shard log).server.wal other).archived = (s.server.wal other).archived := by
  show (update s.server.wal shard log other).archived = _
  by_cases hne : other = shard
  · rw [hne, update_self, h]
  · rw [update_of_ne hne]

theorem setLog_active (s : NodeState) (shard : Nat) (log : ShardFile) :
    (s.setLog shard log).active shard = log.active :=
  congrArg ShardFile.active (update_self ..)

variable {other : Nat}

theorem setLog_active_ne {log : ShardFile} (hne : other ≠ shard) :
    (s.setLog shard log).active other = s.active other :=
  congrArg ShardFile.active (update_of_ne hne ..)

theorem pushBytes_archived (s : NodeState) (shard : Nat) (bytes : Bytes) (records : List WalRecord)
    (other : Nat) :
    ((s.pushBytes lib shard bytes records).server.wal other).archived =
    (s.server.wal other).archived :=
  @setLog_archived (s.setFile shard _) shard
    { s.server.wal shard with active := if s.Torn lib shard then s.active shard else s.active shard ++ records }
        rfl other

theorem pushBytes_active (s : NodeState) (shard : Nat) (bytes : Bytes) (records : List WalRecord) :
    (s.pushBytes lib shard bytes records).active shard =
    if s.Torn lib shard then s.active shard else s.active shard ++
    records := setLog_active ..

theorem pushBytes_active_ne (hne : other ≠ shard) :
    (s.pushBytes lib shard bytes records).active other = s.active other := setLog_active_ne hne

theorem pushBytes_bytes (s : NodeState) (shard : Nat) (bytes : Bytes) (records : List WalRecord) :
    ((s.pushBytes lib shard bytes records).files shard).bytes = (s.files shard).bytes ++ bytes := by
  show (update s.files shard _ shard).bytes = _
  rw [update_self]

theorem mem_records_pushBytes {r : WalRecord}
    (h : r ∈ ((s.pushBytes lib shard bytes records).server.wal other).records) :
    r ∈ (s.server.wal other).records ∨ r ∈ records := by
  rcases mem_append.mp h with h | h
  · rw [pushBytes_archived] at h
    exact .inl (mem_append_left _ h)
  · have h : r ∈ (s.pushBytes lib shard bytes records).active other := h
    by_cases hne : other = shard
    · subst hne
      rw [pushBytes_active] at h
      split at h
      · exact .inl (mem_append_right _ h)
      · exact (mem_append.mp h).imp_left (mem_append_right _)
    · rw [pushBytes_active_ne hne] at h
      exact .inl (mem_append_right _ h)

/-- A segment is written in whole or in part. -/
theorem NodeInv.push {count : Nat} {segment : List WalRecord}
    {part : Bytes} (hlib : lib.Lawful) (h : NodeInv lib snapLib walShards s)
    (hsegment : ((s.queues shard).take count).mapM (signedRecord lib shard) = .ok segment)
    (hne : segment ≠ []) (hpart : encodeWalRecords lib records = .ok part)
    (hextends : part <+: bytes)
    (hrecords : ∀ r ∈ records, r ∈ segment)
    (hserver : t.server = (s.pushBytes lib shard bytes records).server)
    (hfiles : t.files = (s.pushBytes lib shard bytes records).files)
    (hqueues : t.queues = update s.queues shard ((s.queues shard).drop count))
    (hnext : t.nextLsn = s.nextLsn)
    (hanswered : (t.answered = s.answered ∧ ∀ r, r ∈ t.acked ∨ r ∈ t.accepted → r ∈ s.acked ∨
      r ∈ s.accepted) ∨
    t.answered = update s.answered shard ((s.files shard).bytes ++ bytes).length ∧ part = bytes ∧
      ∀ r,
    r ∈ t.acked ∨ r ∈ t.accepted → (r ∈ s.acked ∨ r ∈ s.accepted) ∨ r ∈ records) :
    NodeInv lib snapLib walShards t := by
  have hbytes : (t.files shard).bytes = (s.files shard).bytes ++ bytes := by rw [hfiles, pushBytes_bytes]
  have hsealed : ∀ r ∈ records, Sealed lib r := by
    intro r hr
    obtain ⟨c, -, hsign⟩ := mem_of_mapM_ok hsegment (hrecords r hr)
    exact sealed_of_signedRecord hsign
  have hactive : ∀ other, t.active other = (s.pushBytes lib shard bytes records).active other := fun other => by
    rw [NodeState.active, hserver]
    rfl
  have hactive' : t.active shard =
      if s.wholeEnd lib shard < (s.files shard).bytes.length then s.active shard
      else s.active shard ++ records := by
    rw [hactive, pushBytes_active]
    rfl
  have hlog : LogHolds lib (t.files shard).bytes (t.active shard) (s.answered shard) := by
    rw [hbytes, hactive']
    exact (h.logs shard).push hlib hpart hextends hsealed
  have hkept : ∀ r, KeptIn lib (s.active shard) (s.answered shard) r →
      KeptIn lib (t.active shard) (s.answered shard) r := by
    intro r hr
    rw [hactive']
    exact hr.push (h.logs shard)
  have hle : s.answered shard ≤ t.answered shard := by
    rcases hanswered with ⟨heq, -⟩ | ⟨heq, -, -⟩
    · rw [heq]
    · rw [heq, update_self, ← hbytes]
      exact hlog.answered_le
  refine @NodeInv.at_shard _ _ _ s t shard h ⟨⟨_, _, _, hserver⟩, fun other r hr => ?_,
    fun task htask => ?_⟩ (fun other hother => ⟨?_, ?_, ?_⟩) ?_ ?_ (fun r hr => .inr ((hkept r hr).raise hle)) ?_ ?_
  · rw [hserver, pushBytes_archived] at hr
    exact .inl hr
  · rw [hserver] at htask
    exact ⟨task, htask, rfl⟩
  · rw [hfiles]
    exact congrArg WalFile.bytes (update_of_ne hother ..)
  · rw [hactive, pushBytes_active_ne hother]
  · rcases hanswered with ⟨heq, -⟩ | ⟨heq, -, -⟩
    · rw [heq]
    · rw [heq, update_of_ne hother]
  · refine ⟨hlog.whole, hlog.sealed, ?_⟩
    rcases hanswered with ⟨heq, -⟩ | ⟨heq, -, -⟩
    · rw [heq]
      exact hlog.answered_le
    · rw [heq, update_self, hbytes]
  · intro other hor
    by_cases hother : other = shard
    · right
      intro hnil
      rw [hother] at hnil
      rw [hnil, take_nil] at hsegment
      exact hne (Except.ok.inj hsegment).symm
    · rwa [hqueues, update_of_ne hother, hactive, pushBytes_active_ne hother] at hor
  · intro r hr
    rcases hanswered with ⟨-, hknown⟩ | ⟨heq, rfl, hknown⟩
    · exact .inl (hknown r hr)
    · refine (hknown r hr).imp_right fun hmem => .inr ?_
      obtain ⟨hencode, hend⟩ := (h.logs shard).encode hlib
      rw [hactive', heq, update_self]
      split
      · -- the segment is behind torn bytes
        next htorn =>
        refine .inr (lt_of_lt_of_le htorn ?_)
        rw [length_append]
        exact Nat.le_add_right ..
      · next htorn =>
        have hall : (s.files shard).bytes.take (s.wholeEnd lib shard) = (s.files shard).bytes :=
          take_of_length_le (Nat.le_of_not_lt htorn)
        rw [show frameEnd lib (s.active shard) (s.active shard).length = s.wholeEnd lib shard from rfl, hall] at hencode
        exact .of_mem (mem_append_right _ hmem) (frameEnd_encode hlib (encodeWalRecords_append hencode hpart)).le
  · rw [hnext, hqueues]
    refine h.numbered.write hsegment fun r hr => ?_
    rcases hr with ⟨other, hr⟩ | hr
    · rw [hserver] at hr
      exact (mem_records_pushBytes hr).imp (fun hr => .inl ⟨other, hr⟩) (hrecords r)
    · rcases hanswered with ⟨-, hknown⟩ | ⟨-, -, hknown⟩
      · exact .inl (.inr (hknown r hr))
      · exact (hknown r hr).imp .inr (hrecords r)

end

/-! ### The steps -/

section

variable {s t : NodeState}

/-- A step that leaves the logs as they are. -/
theorem NodeInv.off_log (h : NodeInv lib snapLib walShards s)
    (hserver : SnapshotFile.Inv snapLib t.server)
    (hwal : t.server.wal = s.server.wal)
    (hlast : s.server.lastSnapshotLsn ≤ t.server.lastSnapshotLsn)
    (hfiles : t.files = s.files) (hanswered : t.answered = s.answered) (hacked : t.acked = s.acked)
    (haccepted : t.accepted = s.accepted)
    (hqueues : ∀ shard, t.queues shard ≠ [] → shard < walShards)
    (hnumbered : Numbered t.nextLsn t.queues s.Has) : NodeInv lib snapLib walShards t := by
  have hactive : ∀ shard, t.active shard = s.active shard := fun shard => by rw [NodeState.active, hwal]; rfl
  refine ⟨hserver, fun shard => ?_, fun shard hor => ?_, fun r hr => ?_, hnumbered.mono fun r hr => ?_⟩
  · rw [hfiles, hactive, hanswered]
    exact h.logs shard
  · rw [hactive] at hor
    exact hor.elim (fun hactive => h.shards shard (.inl hactive)) (hqueues shard)
  · rw [hacked, haccepted] at hr
    simp only [hactive, hanswered]
    exact (h.kept r hr).imp_left fun hle => hle.trans hlast
  · unfold NodeState.Has at hr
    rwa [hwal, hacked, haccepted] at hr

theorem NodeInv.queues_lt (h : NodeInv lib snapLib walShards s) (shard : Nat)
    (hne : s.queues shard ≠ []) :
    shard < walShards := h.shards shard (.inr hne)

variable {shard other compaction : Nat} {records : List WalRecord} {task new : CompactTask}
    {r : WalRecord}

theorem drop_queue {queues : Nat → List WalAppendCommand} {count : Nat}
    (h : update queues shard ((queues shard).drop count) other ≠ []) : queues other ≠ [] := by
  by_cases hne : other = shard
  · subst hne
    rw [update_self] at h
    rintro hnil
    rw [hnil, drop_nil] at h
    exact h rfl
  · rwa [update_of_ne hne] at h

theorem NodeInv.allocate {shard : Nat} {command : WalAppendCommand}
    (h : NodeInv lib snapLib walShards s) (hshard : shard < walShards)
    (hlsn : command.lsn = s.nextLsn + 1) :
    NodeInv lib snapLib walShards { s.setQueue shard (s.queues shard ++ [command]) with nextLsn := s.nextLsn + 1 } := by
  refine h.off_log h.server rfl (le_refl _) rfl rfl rfl rfl (fun other hother => ?_) (h.numbered.allocate hlsn)
  by_cases hne : other = shard
  · rwa [hne]
  · exact h.queues_lt other fun hnil => hother ((update_of_ne hne ..).trans hnil)

theorem NodeInv.reject (h : NodeInv lib snapLib walShards s) (shard count : Nat) :
    NodeInv lib snapLib walShards (s.setQueue shard ((s.queues shard).drop count)) :=
  h.off_log h.server rfl (le_refl _) rfl rfl rfl rfl (fun other hother => h.queues_lt other (drop_queue hother))
    (h.numbered.drop count)

theorem NodeInv.tear {count written : Nat} {bytes : Bytes} (hlib : lib.Lawful)
    (h : NodeInv lib snapLib walShards s)
    (hrecords : ((s.queues shard).take count).mapM (signedRecord lib shard) = .ok records)
    (hne : records ≠ []) (hencode : encodeWalRecords lib records = .ok bytes) :
    NodeInv lib snapLib walShards ((s.pushBytes lib shard (bytes.take written) (records.take
    (wholeFrames lib records (min written bytes.length)))).setQueue shard ((s.queues shard).drop count)) := by
  have hend : frameEnd lib records (wholeFrames lib records (min written bytes.length)) ≤ written :=
    (frameEnd_wholeFrames_le ..).trans (min_le_left ..)
  exact h.push hlib hrecords hne (encodeWalRecords_take hencode _) (take_prefix_take_left hend)
    (fun r hr => mem_of_mem_take hr) rfl rfl rfl rfl (.inl ⟨rfl, fun r hr => hr⟩)

theorem NodeInv.write {shard count : Nat} {answer : Bool} {accepted records : List WalRecord}
    {bytes : Bytes} (hlib :
    lib.Lawful) (h : NodeInv lib snapLib walShards s)
    (hrecords : ((s.queues shard).take count).mapM (signedRecord lib
    shard) = .ok records) (hne : records ≠ []) (hencode : encodeWalRecords lib records = .ok bytes)
    (haccepted : ∀ r ∈
    accepted, r ∈ records) : NodeInv lib snapLib walShards
      { (s.pushBytes lib shard bytes records).setQueue shard ((s.queues shard).drop count) with
        synced := if records.any (fun r => r.durability = .strict) then
            update s.synced shard ((s.files shard).bytes ++ bytes).length
          else s.synced
        answered := if answer || !accepted.isEmpty then
            update s.answered shard ((s.files shard).bytes ++ bytes).length
          else s.answered
        acked := if answer then s.acked ++ records else s.acked
        accepted := s.accepted ++ accepted } := by
  refine h.push hlib hrecords hne hencode prefix_rfl (fun r hr => hr) rfl rfl rfl rfl ?_
  cases hanswer : answer || !accepted.isEmpty with
  | false =>
    obtain ⟨rfl, hempty⟩ := Bool.or_eq_false_iff.mp hanswer
    rw [Bool.not_eq_false', List.isEmpty_iff] at hempty
    subst hempty
    refine .inl ⟨rfl, fun r hr => ?_⟩
    simpa using hr
  | true =>
    refine .inr ⟨rfl, rfl, fun r hr => ?_⟩
    rcases hr with hr | hr
    · have hr : r ∈ if answer then s.acked ++ records else s.acked := hr
      split at hr
      · exact (mem_append.mp hr).imp_left .inl
      · exact .inl (.inl hr)
    · exact (mem_append.mp hr).imp .inr (haccepted r)

/-- A file that is read to its end has no torn bytes, and holds what it starts with. -/
theorem NodeInv.read (hlib : lib.Lawful)
    (hjson : lib.JsonText) (h : NodeInv lib snapLib walShards s) (htorn : TornShow lib path s)
    {shard cut : Nat} (hcut : cut ≤ (s.files shard).bytes.length) {records : List WalRecord}
    (hread : readRecordsFile lib (path shard) (some ((s.files shard).bytes.take cut)) = .ok records) :
    cut ≤ s.wholeEnd lib shard ∧ FrameBoundary lib (s.active shard) cut ∧
    records = (s.active shard).take (wholeFrames lib (s.active shard) cut) := by
  have hle : cut ≤ s.wholeEnd lib shard := by
    by_contra hlt
    obtain ⟨err, he⟩ := htorn shard cut (Nat.lt_of_not_le hlt) hcut
    rw [he] at hread
    cases hread
  exact ⟨hle, (h.logs shard).read_cut hlib hjson hle hread⟩

/-- The same of the file as it is. -/
theorem NodeInv.read_all (hlib : lib.Lawful)
    (hjson : lib.JsonText) (h : NodeInv lib snapLib walShards s) (htorn : TornShow lib path s)
    (hread : readRecordsFile lib (path shard) (some (s.files shard).bytes) = .ok records) :
    (s.files shard).bytes.length = s.wholeEnd lib shard ∧ records = s.active shard := by
  rw [← take_length (l := (s.files shard).bytes)] at hread
  obtain ⟨hle, -, hrecords⟩ := h.read hlib hjson htorn (le_refl _) hread
  obtain ⟨-, hend⟩ := (h.logs shard).encode hlib
  exact ⟨le_antisymm hle hend, hrecords.trans (take_wholeFrames hend)⟩

theorem NodeInv.repair {accepted : List WalRecord} (hlib : lib.Lawful) (hjson : lib.JsonText)
    (h : NodeInv lib snapLib
    walShards s) (htorn : TornShow lib path s)
    (hread : readRecordsFile lib (path shard) (some (s.files shard).bytes) =
    .ok records) (haccepted : ∀ r ∈ accepted, r ∈ (s.server.wal shard).archived ++ records) :
    NodeInv lib snapLib
    walShards
      { s with
        synced := update s.synced shard (s.files shard).bytes.length
        answered := update s.answered shard (s.files shard).bytes.length
        accepted := s.accepted ++ accepted } := by
  obtain ⟨hlen, rfl⟩ := h.read_all hlib hjson htorn hread
  have hholds := h.logs shard
  have hself : update s.answered shard (s.files shard).bytes.length shard = (s.files shard).bytes.length :=
    update_self ..
  refine @NodeInv.at_shard _ _ _ s _ shard h ⟨⟨_, _, _, rfl⟩, fun other r hr => .inl hr,
      fun task htask => ⟨task, htask, rfl⟩⟩
    (fun other hother => ⟨rfl, rfl, update_of_ne hother ..⟩) ?_ (fun other hor => hor) (fun r hr => .inr ?_)
    (fun r hr => ?_) (h.numbered.mono fun r hr => ?_)
  · exact ⟨hholds.whole, hholds.sealed, hself.le⟩
  · show KeptIn lib (s.active shard) (update s.answered shard _ shard) r
    rw [hself]
    exact hr.raise hholds.answered_le
  · rcases hr with hr | hr
    · exact .inl (.inl hr)
    · rcases mem_append.mp hr with hr | hr
      · exact .inl (.inr hr)
      · rcases mem_append.mp (haccepted r hr) with hr | hr
        · exact .inr (.inl (h.server.archived shard r hr).2)
        · exact .inr (.inr (.of_mem hr (hlen.symm.le.trans hself.symm.le)))
  · rcases hr with hr | hr | hr
    · exact .inl hr
    · exact .inr (.inl hr)
    · rcases mem_append.mp hr with hr | hr
      · exact .inr (.inr hr)
      · exact .inl ⟨shard, haccepted r hr⟩

theorem compactions_set (htask : s.server.compactions[compaction]? = some task)
    (hnew : new.uptoLsn = task.uptoLsn) :
    ∀ c ∈ (s.setCompaction compaction new).server.compactions, ∃ old ∈ s.server.compactions,
    c.uptoLsn = old.uptoLsn := by
  intro c hc
  rcases mem_or_eq_of_mem_set hc with hc | rfl
  · exact ⟨c, hc, rfl⟩
  · exact ⟨task, mem_of_getElem? htask, hnew⟩

/-- A compaction goes on without a change to the logs. -/
theorem NodeInv.setCompaction (h : NodeInv lib snapLib walShards s)
    (htask : s.server.compactions[compaction]? = some task) (hnew : new.uptoLsn = task.uptoLsn) :
    NodeInv lib snapLib walShards (s.setCompaction compaction new) := by
  have harchived : Archived s (s.setCompaction compaction new) :=
    ⟨⟨_, _, _, rfl⟩, fun shard r hr => .inl hr, compactions_set htask hnew⟩
  exact h.off_log (harchived.inv h.server) rfl (le_refl _) rfl rfl rfl rfl h.queues_lt h.numbered

theorem mem_compactLog (hr : r ∈ (compactLog s task (s.active task.shard)).records) :
    r ∈ (s.server.wal task.shard).records := by
  rcases mem_append.mp hr with hr | hr
  · exact (mem_append.mp hr).elim (mem_append_left _) fun hr => mem_append_right _ (mem_of_mem_filter hr)
  · exact mem_append_right _ (mem_of_mem_filter hr)

theorem mem_archived_compactLog (hr : r ∈ (compactLog s task records).archived) :
    r ∈ (s.server.wal task.shard).archived ∨ r.lsn ≤ task.uptoLsn := by
  refine (mem_append.mp hr).imp_right fun hr => ?_
  simpa using (mem_filter.mp hr).2

theorem mem_records_update {log : ShardFile}
    (h : r ∈ (update s.server.wal shard log other).records) :
    other = shard ∧ r ∈ log.records ∨ r ∈ (s.server.wal other).records := by
  by_cases hne : other = shard
  · subst hne
    rw [update_self] at h
    exact .inl ⟨rfl, h⟩
  · rw [update_of_ne hne] at h
    exact .inr h

theorem archived_update {log : ShardFile} (h : r ∈ (update s.server.wal shard log other).archived) :
    other = shard ∧ r ∈ log.archived ∨ r ∈ (s.server.wal other).archived := by
  by_cases hne : other = shard
  · subst hne
    rw [update_self] at h
    exact .inl ⟨rfl, h⟩
  · rw [update_of_ne hne] at h
    exact .inr h

/-- The records up to an LSN are archived, and leave the active file or not. -/
theorem NodeInv.archive (h : NodeInv lib snapLib walShards s)
    (htask : s.server.compactions[compaction]? = some task)
    (hnew : new.uptoLsn = task.uptoLsn) :
    NodeInv lib snapLib walShards ((s.setCompaction compaction new).setLog
    task.shard { compactLog s task (s.active task.shard) with active := s.active task.shard }) := by
  have hactive : ∀ other, (update s.server.wal task.shard
      { compactLog s task (s.active task.shard) with active := s.active task.shard } other).active =
        s.active other := by
    intro other
    by_cases hne : other = task.shard
    · rw [hne, update_self]
    · rw [update_of_ne hne]
      rfl
  refine @NodeInv.at_shard _ _ _ s _ task.shard h ⟨⟨_, _, _, rfl⟩, fun other r hr => ?_,
    compactions_set htask hnew⟩ (fun other hother => ⟨rfl, hactive other, rfl⟩) ?_ (fun other hor => ?_)
    (fun r hr => .inr ?_) (fun r hr => .inl hr) (h.numbered.mono fun r hr => ?_)
  · rcases archived_update hr with ⟨rfl, hlog⟩ | hr
    · exact (mem_archived_compactLog hlog).imp_right fun hle => ⟨task, mem_of_getElem? htask, hle⟩
    · exact .inl hr
  · show LogHolds lib _ (update s.server.wal task.shard _ task.shard).active _
    rw [hactive]
    exact h.logs task.shard
  · exact hor.imp_left fun hne => by rwa [← hactive other]
  · show KeptIn lib (update s.server.wal task.shard _ task.shard).active _ r
    rwa [hactive]
  · refine hr.imp_left fun ⟨other, hr⟩ => ⟨other, ?_⟩
    rcases mem_records_update hr with ⟨rfl, hlog⟩ | hr
    · rcases mem_append.mp hlog with hr | hr
      · exact mem_compactLog (mem_append_left _ hr)
      · exact mem_append_right _ hr
    · exact hr

/-- The active file is replaced by one with the records above the LSN. -/
theorem NodeInv.replace {bytes : Bytes} {isOpen : Bool}
    (hlib : lib.Lawful) (h : NodeInv lib snapLib walShards s)
    (htask : s.server.compactions[compaction]? = some task)
    (hnew : new.uptoLsn = task.uptoLsn)
    (hwhole : (s.files task.shard).bytes.length = s.wholeEnd lib task.shard)
    (hencode : encodeWalRecords lib (compactLog s task (s.active task.shard)).active = .ok bytes) :
    NodeInv lib snapLib walShards ((s.setCompaction compaction new).replaceFile task.shard ⟨bytes,
    isOpen⟩ (compactLog s task (s.active task.shard))) := by
  have hholds := h.logs task.shard
  have hend := frameEnd_encode hlib hencode
  generalize ht : (s.setCompaction compaction new).replaceFile task.shard ⟨bytes,
    isOpen⟩ (compactLog s task (s.active task.shard)) = t
  have hbytes : (t.files task.shard).bytes = bytes := by
    rw [← ht]
    show (update s.files task.shard _ task.shard).bytes = _
    rw [update_self]
  have hactive : t.active task.shard = (compactLog s task (s.active task.shard)).active := by
    rw [← ht]
    exact congrArg ShardFile.active (update_self ..)
  have hanswered : t.answered task.shard = bytes.length := by
    rw [← ht]
    exact update_self ..
  have hwal : t.server.wal = update s.server.wal task.shard (compactLog s task (s.active task.shard)) := by
    rw [← ht]
    rfl
  refine @NodeInv.at_shard _ _ _ s t task.shard h ⟨?_, fun other r hr => ?_,
    ?_⟩ (fun other hother => ?_) ?_ (fun other hor => ?_) (fun r hr => ?_) (fun r hr => .inl ?_) ?_
  · rw [← ht]
    exact ⟨_, _, _, rfl⟩
  · rw [hwal] at hr
    rcases archived_update hr with ⟨rfl, hlog⟩ | hr
    · exact (mem_archived_compactLog hlog).imp_right fun hle => ⟨task, mem_of_getElem? htask, hle⟩
    · exact .inl hr
  · rw [← ht]
    exact compactions_set htask hnew
  · rw [← ht]
    exact ⟨congrArg WalFile.bytes (update_of_ne hother ..), congrArg ShardFile.active (update_of_ne hother ..),
      update_of_ne hother ..⟩
  · rw [hbytes, hactive, hanswered]
    exact ⟨⟨bytes, hencode, prefix_rfl⟩, fun r hr => hholds.sealed r (mem_of_mem_filter hr), le_refl _⟩
  · rw [← ht] at hor
    refine hor.imp_left fun hne hnil => hne ?_
    by_cases hother : other = task.shard
    · subst hother
      refine (congrArg ShardFile.active (update_self ..)).trans ?_
      show (s.active task.shard).filter _ = []
      rw [hnil]
      rfl
    · exact (congrArg ShardFile.active (update_of_ne hother ..)).trans hnil
  · have hr : r ∈ s.active task.shard := by
      refine mem_of_mem_take (hr.resolve_right fun hlt => ?_)
      have := hholds.answered_le
      have : s.wholeEnd lib task.shard < s.answered task.shard := hlt
      omega
    rw [hactive, hanswered]
    by_cases hle : r.lsn ≤ task.uptoLsn
    · exact .inl (hle.trans (h.server.compactions task (mem_of_getElem? htask)).2)
    · exact .inr (.of_mem (mem_filter.mpr ⟨hr, decide_eq_true (Nat.lt_of_not_le hle)⟩) hend.le)
  · rw [← ht] at hr
    exact hr
  · have hsame : t.nextLsn = s.nextLsn ∧ t.queues = s.queues ∧ t.acked = s.acked ∧ t.accepted = s.accepted := by
      rw [← ht]
      exact ⟨rfl, rfl, rfl, rfl⟩
    obtain ⟨hnext, hqueues, hacked, haccepted⟩ := hsame
    rw [hnext, hqueues]
    refine h.numbered.mono fun r hr => ?_
    unfold NodeState.Has at hr
    rw [hwal, hacked, haccepted] at hr
    refine hr.imp_left fun ⟨other, hr⟩ => ⟨other, ?_⟩
    rcases mem_records_update hr with ⟨rfl, hlog⟩ | hr
    · exact mem_compactLog hlog
    · exact hr

end

/-! ### Startup -/

theorem le_highestLsn_replay {sinceLsn : Nat} (records : List WalRecord) (state : ReplayState) :
    state.highestLsn ≤ (records.foldl (replayRecord sort hotWindow sinceLsn) state).highestLsn ∧
    ∀ r ∈ records, r.lsn ≤
    (records.foldl (replayRecord sort hotWindow sinceLsn) state).highestLsn := by
  induction records generalizing state with
  | nil => exact ⟨le_refl _, fun _ h => nomatch h⟩
  | cons record records ih =>
    have hstep : (replayRecord sort hotWindow sinceLsn state record).highestLsn = max state.highestLsn record.lsn := by
      simp only [replayRecord]
      split
      · rfl
      · split <;> rfl
    obtain ⟨hle, hall⟩ := ih (replayRecord sort hotWindow sinceLsn state record)
    rw [hstep] at hle
    refine ⟨(le_max_left _ _).trans hle, fun r hr => ?_⟩
    rcases mem_cons.mp hr with rfl | hr
    · exact (le_max_right _ _).trans hle
    · exact hall r hr

/-- `highest_lsn` is not below the snapshot, nor below a record that is read. -/
theorem le_highestLsn {sinceLsn lsn : Nat} {files : List (String × Bytes)}
    (h : highestLsn lib sort hotWindow sinceLsn files = .ok lsn) :
    sinceLsn ≤ lsn ∧ ∀ file ∈ files, ∀ recovered,
    readRecoverableRecordsFile lib file.1 (some file.2) = .ok recovered →
    ∀ r ∈ recovered.records, r.lsn ≤ lsn := by
  unfold highestLsn at h
  suffices hfold : ∀ highest, files.foldlM (fun highest file => do
      let replay ← replayFrom lib sort file.1 (some file.2) hotWindow sinceLsn ∅
      .ok (max highest replay.highestLsn)) highest = .ok lsn → highest ≤ lsn ∧ ∀ file ∈ files, ∀ recovered,
        readRecoverableRecordsFile lib file.1 (some file.2) = .ok recovered → ∀ r ∈ recovered.records, r.lsn ≤ lsn from
    hfold sinceLsn h
  clear h
  induction files with
  | nil =>
    intro highest h
    exact ⟨(Except.ok.inj h).le, fun _ h => nomatch h⟩
  | cons file files ih =>
    intro highest h
    rw [foldlM_cons] at h
    obtain ⟨next, hnext, h⟩ := bind_eq_ok.mp h
    obtain ⟨replay, hreplay, hnext⟩ := bind_eq_ok.mp hnext
    cases hnext
    obtain ⟨hle, hall⟩ := ih _ h
    refine ⟨(le_max_left _ _).trans hle, fun other hother recovered hrecovered r hr => ?_⟩
    rcases mem_cons.mp hother with rfl | hother
    · rw [replayFrom, hrecovered] at hreplay
      cases hreplay
      exact ((le_highestLsn_replay _ _).2 r hr).trans ((le_max_right _ _).trans hle)
    · exact hall other hother recovered hrecovered r hr

/-- The records of an encoding are what is recovered from it. -/
theorem recover_encode (hlib : lib.Lawful) {records : List WalRecord} {bytes : Bytes}
    (hencode : encodeWalRecords lib records = .ok bytes) (hsealed : ∀ r ∈ records, Sealed lib r)
    (file : String) :
    ∃ recovered, readRecoverableRecordsFile lib file (some bytes) = .ok recovered ∧
    recovered.records = records := by
  have hframed := framed_encode hlib hencode
  have hall : records.take (wholeFrames lib records bytes.length) = records :=
    take_wholeFrames (frameEnd_encode hlib hencode).le
  rw [← take_length (l := bytes)] at hframed
  obtain ⟨recovered, _, hread, -, -, -, hrecords, -⟩ := @recoversCut_of_framed lib .merge file 0 0 ∅ records bytes
    bytes.length hlib hencode (le_refl _) hframed fun r hr => (hsealed r (mem_of_mem_take hr)).fits
  rw [take_length] at hread
  rw [hall] at hrecords
  exact ⟨recovered, hread, eq_of_ensured hsealed hrecords⟩

section

variable {s : NodeState}

/-- Snapshots go forward, also over a restart. -/
theorem le_lastSnapshotLsn {server server' : ServerState} {event : ServerEvent}
    (h : SnapshotFile.Inv snapLib server)
    (hoff : OffLog event ∨ event = .restart)
    (hstep : ServerStep snapLib walShards server event server') :
    server'.wal = server.wal ∧ server.lastSnapshotLsn ≤ server'.lastSnapshotLsn := by
  cases hstep with
  | append | commit | compactShard | failCompaction => exact absurd hoff (by simp [OffLog])
  | create | checkpoint | capture | openTemp | write | rename | failSave | compact | finishCompaction =>
    exact ⟨rfl, le_refl _⟩
  | @store save task hi hphase =>
    have := h.saves_getElem hi
    simp only [SnapshotFile.SaveInv, hphase] at this
    exact ⟨rfl, this.1⟩
  | restartEmpty hnone => exact ⟨rfl, (h.empty hnone).le⟩
  | @restart file snapshot hfile hdecode =>
    obtain ⟨snapshot', ⟨file', hfile', hdecode'⟩, hle⟩ := h.loads (by simp [hfile])
    have hsame : file' = file := Option.some.inj (hfile'.symm.trans hfile)
    rw [hsame, hdecode] at hdecode'
    cases hdecode'
    exact ⟨rfl, hle⟩

theorem NodeInv.restart {cuts : Nat → Nat} {server : ServerState} {lsn : Nat}
    {records : Nat → List WalRecord} (hlib :
    lib.Lawful) (hjson : lib.JsonText) (hsnap : snapLib.Lawful)
    (h : NodeInv lib snapLib walShards s) (htorn : TornShow
    lib path s) (hanswered : ∀ shard, s.answered shard ≤ cuts shard)
    (hcuts : ∀ shard, cuts shard ≤ (s.files
    shard).bytes.length) (hserver : ServerStep snapLib walShards s.server .restart server)
    (hhighest : highestLsn lib
    sort hotWindow server.lastSnapshotLsn (s.filesAt path walShards cuts) = .ok lsn)
    (hread : ∀ shard, readRecordsFile
    lib (path shard) (some ((s.files shard).bytes.take (cuts shard))) =
      .ok (records shard)) :
    NodeInv lib snapLib walShards { s with
        server := { server with
          currentLsn := lsn
          wal := fun shard => { s.server.wal shard with active := records shard } }
        files := fun shard => ⟨(s.files shard).bytes.take (cuts shard), true⟩
        queues := fun _ => []
        nextLsn := lsn } := by
  obtain ⟨hwal, hlast⟩ := le_lastSnapshotLsn h.server (.inr rfl) hserver
  have hinv : SnapshotFile.Inv snapLib server :=
    h.server.step (e := ServerEvent.restart) hsnap (show OneAtATime snapLib s.server .restart from trivial) hserver
  have hcut := fun shard => h.read hlib hjson htorn (hcuts shard) (hread shard)
  have hencode : ∀ shard, encodeWalRecords lib (records shard) = .ok ((s.files shard).bytes.take (cuts shard)) := by
    intro shard
    obtain ⟨hle, hboundary, hrecords⟩ := hcut shard
    rw [hrecords]
    exact (h.logs shard).encode_cut hlib hle hboundary
  have hsub : ∀ shard, ∀ r ∈ records shard, r ∈ s.active shard := by
    intro shard r hr
    rw [(hcut shard).2.2] at hr
    exact mem_of_mem_take hr
  have hsealed : ∀ shard, ∀ r ∈ records shard, Sealed lib r := fun shard r hr => (h.logs shard).sealed r
      (hsub shard r hr)
  have hkeeps : ∀ shard r, KeptIn lib (s.active shard) (s.answered shard) r → r ∈ records shard := by
    intro shard r hr
    obtain ⟨hle, -, hrecords⟩ := hcut shard
    rw [hrecords]
    refine (hr.raise (hanswered shard)).resolve_right fun hlt => ?_
    exact absurd hlt (Nat.not_lt_of_le hle)
  obtain ⟨hsince, hall⟩ := le_highestLsn hhighest
  have hactive : ∀ shard, ∀ r ∈ records shard, r.lsn ≤ lsn := by
    intro shard r hr
    have hshard : shard < walShards := h.shards shard (.inl (ne_nil_of_mem (hsub shard r hr)))
    obtain ⟨recovered, hrecovered, heq⟩ := recover_encode hlib (hencode shard) (hsealed shard) (path shard)
    refine hall (path shard, _) ?_ recovered hrecovered r (heq ▸ hr)
    exact mem_map.mpr ⟨shard, mem_range.mpr hshard, rfl⟩
  have hhas : ∀ r, ((∃ shard, r ∈ (s.server.wal shard).archived ++ records shard) ∨ r ∈ s.acked ∨ r ∈ s.accepted) →
      s.Has r ∧ r.lsn ≤ lsn := by
    rintro r (⟨shard, hr⟩ | hr)
    · rcases mem_append.mp hr with hr | hr
      · refine ⟨.inl ⟨shard, mem_append_left _ hr⟩, ?_⟩
        exact ((h.server.archived shard r hr).2.trans hlast).trans hsince
      · exact ⟨.inl ⟨shard, mem_append_right _ (hsub shard r hr)⟩, hactive shard r hr⟩
    · refine ⟨.inr hr, ?_⟩
      rcases h.kept r hr with hle | ⟨shard, hin⟩
      · exact (hle.trans hlast).trans hsince
      · exact hactive shard r (hkeeps shard r hin)
  refine ⟨?_, fun shard => ⟨⟨_, hencode shard, prefix_rfl⟩, hsealed shard, ?_⟩, fun shard hor => ?_, fun r hr => ?_, ?_⟩
  · refine hinv.setWal (fun shard r hr => ?_) hinv.compactions
    exact hinv.archived shard r (hwal ▸ hr)
  · rw [length_take]
    exact Nat.le_min.mpr ⟨hanswered shard, (hanswered shard).trans (hcuts shard)⟩
  · refine h.shards shard (.inl fun hnil => ?_)
    rcases hor with hne | hne
    · obtain ⟨r, hr⟩ := exists_mem_of_ne_nil _ hne
      have := hsub shard r hr
      rw [hnil] at this
      cases this
    · exact hne rfl
  · refine (h.kept r hr).imp (fun hle => hle.trans hlast) fun ⟨shard, hin⟩ => ⟨shard, ?_⟩
    obtain ⟨hle, -, hrecords⟩ := hcut shard
    show KeptIn lib (records shard) (s.answered shard) r
    rw [hrecords]
    exact hin.cut (hanswered shard) hle
  · refine ⟨fun r hr => (hhas r hr).2, fun r r' hr hr' => h.numbered.once r r' (hhas r hr).1 (hhas r' hr').1, ?_,
        ?_, ?_⟩
    · exact fun _ _ h => nomatch h
    · exact fun shard => .nil
    · exact fun _ _ _ _ h => nomatch h

theorem NodeInv.step {event : NodeEvent} (hlib : lib.Lawful) (hjson : lib.JsonText)
    (hsnap : snapLib.Lawful)
    (h : NodeInv lib snapLib walShards s) (hkeeps : Keeps lib snapLib path s event)
    (hstep : NodeStep lib snapLib sort path hotWindow walShards s event t) :
    NodeInv lib snapLib walShards t := by
  cases hstep with
  | allocate hshard hlsn => exact h.allocate hshard hlsn
  | burn => exact h.off_log h.server rfl (le_refl _) rfl rfl rfl rfl h.queues_lt h.numbered.burn
  | @reject shard count => exact h.reject shard count
  | tear hopen hrecords hne hencode => exact h.tear hlib hrecords hne hencode
  | write hopen hrecords hne hencode haccepted => exact h.write hlib hrecords hne hencode haccepted
  | repair hread haccepted => exact h.repair hlib hjson hkeeps hread haccepted
  | commit hacked =>
    exact h.off_log (h.server.setWal h.server.archived h.server.compactions) rfl (le_refl _) rfl rfl rfl rfl
      h.queues_lt h.numbered
  | @server event server hoff hserver =>
    obtain ⟨hwal, hlast⟩ := le_lastSnapshotLsn h.server (.inl hoff) hserver
    exact h.off_log (h.server.step hsnap hkeeps hserver) hwal hlast rfl rfl rfl rfl h.queues_lt h.numbered
  | compactNothing htask | failCompaction htask => exact h.setCompaction htask rfl
  | compactShard htask _ _ hread hencode | failReplaced htask _ _ hread hencode =>
    obtain ⟨hwhole, rfl⟩ := h.read_all hlib hjson hkeeps hread
    exact h.replace hlib htask rfl hwhole hencode
  | failArchived htask _ _ hread =>
    obtain ⟨-, rfl⟩ := h.read_all hlib hjson hkeeps hread
    exact h.archive htask rfl
  | restart hcuts hserver hhighest hread =>
    obtain ⟨htorn, hanswered⟩ := hkeeps
    exact h.restart hlib hjson hsnap htorn hanswered (fun shard => (hcuts shard).2) hserver hhighest hread

theorem Fresh.inv (h : Fresh s) : NodeInv lib snapLib walShards s := by
  have hnone : ∀ r, ¬ s.Has r := by
    rintro r (⟨shard, hr⟩ | hr | hr)
    · rcases mem_append.mp hr with hr | hr
      · rw [h.server.archives] at hr
        cases hr
      · have hr : r ∈ s.active shard := hr
        rw [h.active] at hr
        cases hr
    · rw [h.known.1] at hr
      cases hr
    · rw [h.known.2] at hr
      cases hr
  refine ⟨h.server.inv, fun shard => ?_, fun shard hor => ?_, fun r hr => absurd (.inr hr) (hnone r), ?_⟩
  · rw [h.active, h.files, h.answered]
    exact ⟨⟨[], rfl, prefix_rfl⟩, (fun _ h => nomatch h), le_refl _⟩
  · rw [h.active, h.queues] at hor
    rcases hor with hne | hne <;> exact absurd rfl hne
  · refine ⟨fun r hr => absurd hr (hnone r), fun r r' hr => absurd hr (hnone r), fun shard c hc => ?_, fun shard => ?_,
      fun shard other _ c hc => ?_⟩
    · rw [h.queues] at hc
      cases hc
    · rw [h.queues]
      exact .nil
    · rw [h.queues] at hc
      cases hc

/-- No LSN is used twice, and none is above the next one, over any appends, snapshots, compactions,
crashes and starts in which a crash loses nothing that was answered. -/
theorem lsns_used_once {t : NodeState} (hlib : lib.Lawful) (hjson : lib.JsonText)
    (hsnap : snapLib.Lawful)
    (hs : Fresh s) (hrun : Reaches (NodeStep lib snapLib sort path hotWindow walShards) (Keeps lib snapLib path) s t) :
    LsnsOnce t := by
  have hinv : NodeInv lib snapLib walShards t :=
    hrun.invariant (fun _ _ _ h hkeeps hstep => h.step hlib hjson hsnap hkeeps hstep) hs.inv
  exact ⟨hinv.numbered.le_next, hinv.numbered.once⟩

end

/-! ## One segment and a crash -/

section Sample

/-- A node with one log, without snapshots. -/
def sampleNode (bytes : Bytes) (synced answered : Nat) (queue : List WalAppendCommand)
    (nextLsn : Nat) (active acked accepted : List WalRecord) : NodeState where
  server :=
    { wal := Function.update (fun _ => ⟨[], []⟩) 0 ⟨[], active⟩
      currentLsn := 0
      lastSnapshotLsn := 0
      lastCompactionLsn := 0
      contents := fun _ => []
      nextFile := 0
      temp := none
      file := none
      saves := []
      compactions := [] }
  files := Function.update (fun _ => ⟨[], true⟩) 0 ⟨bytes, true⟩
  synced := Function.update (fun _ => 0) 0 synced
  answered := Function.update (fun _ => 0) 0 answered
  queues := Function.update (fun _ => []) 0 queue
  nextLsn := nextLsn
  acked := acked
  accepted := accepted

theorem update_zero {α : Type} (f : Nat → α) (x y : α) : update (update f 0 x) 0 y = update f 0 y :=
  update_idem ..

theorem update_zero_same {α : Type} (x : α) : update (fun _ : Nat => x) 0 x = fun _ => x :=
  update_eq_self 0 _

theorem sampleNode_fresh : Fresh (sampleNode [] 0 0 [] 0 [] [] []) := by
  simp only [sampleNode, update_zero_same]
  exact ⟨⟨⟨rfl, rfl⟩, fun _ => rfl, rfl, rfl, rfl⟩, fun _ => rfl, fun _ => rfl, fun _ => rfl, fun _ => rfl, rfl, rfl⟩

/-- A record is allocated, written and accepted by a replica. -/
theorem reaches_written {meets : NodeState → NodeEvent → Prop} {command : WalAppendCommand}
    {record : WalRecord} {bytes : Bytes} {accepted : List WalRecord} {next before : Nat}
    (hlsn : command.lsn = next + 1)
    (hsign : signedRecord lib 0 command = .ok record)
    (hencode : encodeWalRecords lib [record] = .ok bytes)
    (hallocate : ∀ s, meets s (.allocate 0 command))
    (hwrite : ∀ s, meets s (.write 0 1 true [record])) :
    Reaches (NodeStep lib snapLib sort path hotWindow 1) meets (sampleNode [] 0 before [] next [] accepted accepted)
    (sampleNode bytes (if record.durability = .strict then bytes.length else 0) bytes.length [] (next + 1) [record]
    (accepted ++ [record]) (accepted ++ [record])) := by
  have h₁ : Reaches (NodeStep lib snapLib sort path hotWindow 1) meets (sampleNode [] 0 before [] next [] accepted
      accepted) (sampleNode [] 0 before [command] (next + 1) [] accepted accepted) := by
    have h := (Reaches.refl (sampleNode [] 0 before [] next [] accepted accepted)).take
      (@NodeStep.allocate lib snapLib sort path hotWindow 1 _ 0 command one_pos hlsn) (hallocate _)
    simpa [sampleNode, NodeState.setQueue, update_zero] using h
  have hrecords : (([command] : List WalAppendCommand).take 1).mapM (signedRecord lib 0) = .ok [record] := by
    rw [take_one, head?_cons, Option.toList_some, mapM_cons, hsign]
    rfl
  have htorn : ¬ (sampleNode [] 0 before [command] (next + 1) [] accepted accepted).Torn lib 0 := by
    simp [NodeState.Torn, sampleNode]
  have h := h₁.take (@NodeStep.write lib snapLib sort path hotWindow 1
      (sampleNode [] 0 before [command] (next + 1) [] accepted accepted)
    0 1 true [record] [record] bytes rfl hrecords (cons_ne_nil _ _) hencode fun r hr => hr) (hwrite _)
  simp only [NodeState.pushBytes, if_neg htorn] at h
  by_cases hstrict : record.durability = .strict
  · simpa [sampleNode, NodeState.setQueue, NodeState.setFile, NodeState.setLog, NodeState.active, hstrict,
      update_zero] using h
  · simpa [sampleNode, NodeState.setQueue, NodeState.setFile, NodeState.setLog, NodeState.active, hstrict,
      update_zero] using h

/-- The snapshot store's libraries, of which nothing is asked here. -/
noncomputable def snapshotLibraries : Actor.SnapshotStore.Libraries :=
  Actor.SnapshotStore.sampleLibraries ⟨0, 1, none, ∅, []⟩ []

theorem snapshotLibraries_lawful : snapshotLibraries.Lawful :=
  Actor.SnapshotStore.sampleLibraries_lawful _ _

/-- A `Strict` record is written, and the server starts again with the whole file. -/
theorem lsns_used_once_sample :
    ∃ t, sampleSigned ∈ t.accepted ∧ t.queues = (fun _ => []) ∧ t.active 0 = [sampleSigned] ∧
    LsnsOnce t := by
  have hsign := signedRecord_sample
  have hencode := encodeWalRecords_signed
  have hrun := @reaches_written sampleLibraries snapshotLibraries .merge (fun _ => "wal") 10
    (Keeps sampleLibraries snapshotLibraries fun _ => "wal") sampleCommand sampleSigned _ [] 0 0 rfl hsign hencode
    (fun _ => trivial) fun _ => trivial
  have hsealed : ∀ r ∈ [sampleSigned], Sealed sampleLibraries r := by
    intro r hr
    rw [mem_singleton.mp hr]
    exact sealed_of_signedRecord hsign
  generalize walFrame sampleLibraries sampleBytes = bytes at hencode hrun
  let s := sampleNode bytes (if sampleSigned.durability = .strict then bytes.length else 0) bytes.length [] 1
    [sampleSigned] [sampleSigned] [sampleSigned]
  have hlog : ∀ shard, encodeWalRecords sampleLibraries (s.active shard) = .ok (s.files shard).bytes ∧
      (∀ r ∈ s.active shard, Sealed sampleLibraries r) ∧ s.answered shard ≤ (s.files shard).bytes.length ∧
      s.synced shard ≤ (s.files shard).bytes.length := by
    intro shard
    by_cases hzero : shard = 0
    · subst hzero
      exact ⟨hencode, hsealed, le_refl _, le_refl _⟩
    · have hactive : s.active shard = [] := by
        show (update (fun _ => (⟨[], []⟩ : ShardFile)) 0 _ shard).active = []
        rw [update_of_ne hzero]
      have hfiles : (s.files shard).bytes = [] := by
        show (update (fun _ => (⟨[], true⟩ : WalFile)) 0 _ shard).bytes = []
        rw [update_of_ne hzero]
      have hanswered : s.answered shard = 0 := by
        show update (fun _ => 0) 0 _ shard = 0
        rw [update_of_ne hzero]
      have hsynced : s.synced shard = 0 := by
        show update (fun _ => 0) 0 _ shard = 0
        rw [update_of_ne hzero]
      rw [hactive, hfiles, hanswered, hsynced]
      exact ⟨rfl, forall_mem_nil _, le_refl _, le_refl _⟩
  have htorn : TornShow sampleLibraries (fun _ => "wal") s := by
    intro shard cut hlt hle
    have hend := frameEnd_encode sampleLibraries_lawful (hlog shard).1
    have : s.wholeEnd sampleLibraries shard = (s.files shard).bytes.length := hend
    omega
  obtain ⟨recovered, hrecovered, -⟩ := recover_encode sampleLibraries_lawful hencode hsealed "wal"
  obtain ⟨replay, hreplay, -⟩ := @replayFrom_ok _ .merge _ _ _ hrecovered 10 0 ∅
  have hhighest : highestLsn sampleLibraries .merge 10 0 [("wal", bytes)] = .ok (max 0 replay.highestLsn) := by
    rw [highestLsn, foldlM_cons, hreplay]
    rfl
  have hstep := @NodeStep.restart sampleLibraries snapshotLibraries .merge (fun _ => "wal") 10 1 s
    (fun shard => (s.files shard).bytes.length) s.server (max 0 replay.highestLsn) s.active
    (fun shard => ⟨(hlog shard).2.2.2, le_refl _⟩) (.restartEmpty rfl)
    (by
      show highestLsn sampleLibraries .merge 10 0 [("wal", bytes.take bytes.length)] = _
      rw [take_length, hhighest])
    (fun shard => by
      rw [take_length]
      have hfile : FileHolds sampleLibraries (some (s.files shard).bytes) (s.active shard) :=
        ⟨(hlog shard).1, (hlog shard).2.1⟩
      exact hfile.read sampleLibraries_lawful "wal")
  exact ⟨_, mem_singleton_self _, rfl, rfl, lsns_used_once sampleLibraries_lawful sampleLibraries_jsonText
    snapshotLibraries_lawful sampleNode_fresh (hrun.take hstep ⟨htorn, fun shard => (hlog shard).2.2.1⟩)⟩

/-! ## A crash that loses what a replica has -/

def messageCommand (id : String) : WalAppendCommand where
  lsn := 1
  shardEpoch := 1
  ownerNodeId := "a"
  durability := .relaxed
  schemaVersion := 1
  payload := .messageCreated ⟨id, none, "r", "u", "b", [], 0, "rooms/r/messages/" ++ id⟩
  nowMs := 0

def messageFrame (id : String) : PostcardWalRecordFrame where
  lsn := 1
  shard := 0
  shardEpoch := 1
  ownerNodeId := "a"
  timestampMs := 0
  schemaVersion := 1
  durability := .relaxed
  payload := .messageCreated ⟨id, none, "r", "u", "b", [], 0, "rooms/r/messages/" ++ id⟩
  checksum := some "sha256:"

def messageSigned (id : String) : WalRecord where
  lsn := 1
  shard := 0
  shardEpoch := 1
  ownerNodeId := "a"
  timestampMs := 0
  schemaVersion := 1
  durability := .relaxed
  payload := .messageCreated ⟨id, none, "r", "u", "b", [], 0, "rooms/r/messages/" ++ id⟩
  checksum := some "sha256:"

open Classical in
/-- Libraries that write two messages, with checksums of no length. -/
noncomputable def messageLibraries : Libraries :=
  { sampleLibraries with
    toAllocvec := fun frame =>
      if frame = messageFrame "m1" then .ok [1]
      else if frame = messageFrame "m2" then .ok [2] else bail "not sampled"
    fromBytes := fun bytes =>
      if bytes = [1] then .ok (messageFrame "m1")
      else if bytes = [2] then .ok (messageFrame "m2") else bail "Hit the end of buffer, expected more data"
    materialToVec := fun _ => .ok []
    sha256 := fun _ => []
    crc32c := fun _ => 0 }

theorem messageLibraries_lawful : messageLibraries.Lawful where
  postcard := by
    intro frame bytes h
    simp only [messageLibraries] at h ⊢
    split at h
    · next hframe =>
      cases h
      rw [if_pos rfl, hframe]
    · split at h
      · next hframe =>
        cases h
        rw [if_neg (by decide), if_pos rfl, hframe]
      · cases h
  postcard_ne_nil := by
    intro frame bytes h
    simp only [messageLibraries] at h
    split at h
    · cases h
      exact cons_ne_nil _ _
    · split at h
      · cases h
        exact cons_ne_nil _ _
      · cases h
  schema := @sampleLibraries_lawful.schema
  migration := @sampleLibraries_lawful.migration

theorem signedRecord_message (id : String) :
    signedRecord messageLibraries 0 (messageCommand id) = .ok (messageSigned id) := rfl

theorem encode_message {id : String} {byte : UInt8}
    (h : messageLibraries.toAllocvec (messageFrame id) = .ok [byte]) :
    encodeWalRecords messageLibraries [messageSigned id] = .ok (walFrame messageLibraries [byte]) :=
  encodeWalRecords_one rfl rfl h (show 1 ≤ walFrameMaxBytes by decide)

/-- A `Relaxed` message goes to a replica and is lost in a crash; the next one gets its LSN. -/
theorem lsn_used_twice :
    ¬ ∀ (lib : Libraries) (snapLib : Actor.SnapshotStore.Libraries) (sort : Actor.MessageSort)
    (path : Nat → String) (hotWindow walShards : Nat) (s t : NodeState), lib.Lawful → lib.JsonText →
    snapLib.Lawful →
    Fresh s → Reaches (NodeStep lib snapLib sort path hotWindow walShards) (fun _ _ => True) s t →
    LsnsOnce t := by
  intro h
  have hfirst : messageLibraries.toAllocvec (messageFrame "m1") = .ok [1] := if_pos rfl
  have hsecond : messageLibraries.toAllocvec (messageFrame "m2") = .ok [2] :=
    (if_neg (by simp [messageFrame])).trans (if_pos rfl)
  have h₁ := @reaches_written messageLibraries snapshotLibraries .merge (fun _ => "wal") 10 (fun _ _ => True)
    (messageCommand "m1") (messageSigned "m1") _ [] 0 0 rfl (signedRecord_message "m1") (encode_message hfirst)
    (fun _ => trivial) fun _ => trivial
  have hrestart : NodeStep messageLibraries snapshotLibraries .merge (fun _ => "wal") 10 1
      (sampleNode (walFrame messageLibraries [1]) 0 (walFrame messageLibraries [1]).length [] 1 [messageSigned "m1"]
        [messageSigned "m1"] [messageSigned "m1"]) (.restart fun _ => 0)
      (sampleNode [] 0 (walFrame messageLibraries [1]).length [] 0 [] [messageSigned "m1"] [messageSigned "m1"]) := by
    have hstep := @NodeStep.restart messageLibraries snapshotLibraries .merge (fun _ => "wal") 10 1
      (sampleNode (walFrame messageLibraries [1]) 0 (walFrame messageLibraries [1]).length [] 1 [messageSigned "m1"]
        [messageSigned "m1"] [messageSigned "m1"]) (fun _ => 0) _ 0 (fun _ => [])
      (fun shard => ⟨by simp [sampleNode], Nat.zero_le _⟩) (.restartEmpty rfl) rfl (fun _ => rfl)
    have hwal : ∀ shard, (update (fun _ => (⟨[], []⟩ : ShardFile)) 0 ⟨[], [messageSigned "m1"]⟩
        shard).archived = [] := by
      intro shard
      by_cases hzero : shard = 0
      · rw [hzero, update_self]
      · rw [update_of_ne hzero]
    simpa [sampleNode, hwal] using hstep
  have h₂ := @reaches_written messageLibraries snapshotLibraries .merge (fun _ => "wal") 10 (fun _ _ => True)
    (messageCommand "m2") (messageSigned "m2") _ [messageSigned "m1"] 0 (walFrame messageLibraries [1]).length rfl
    (signedRecord_message "m2") (encode_message hsecond) (fun _ => trivial) fun _ => trivial
  have honce :=
      (h _ _ _ _ _ _ _ _ messageLibraries_lawful ⟨sampleLibraries_jsonText.nul, sampleLibraries_jsonText.start⟩
    snapshotLibraries_lawful sampleNode_fresh (Relation.ReflTransGen.trans (h₁.take hrestart trivial) h₂)).once
  have hsame := honce (messageSigned "m1") (messageSigned "m2") (.inr (.inr (by simp [sampleNode])))
    (.inr (.inr (by simp [sampleNode]))) rfl
  simp [messageSigned] at hsame

end Sample

end NextDb.Api.NextLsn
