import NextDb.Api.Mutation
import NextDb.Wal.ByLsn
import NextDb.Wal.Writer

/-!
# Replication between nodes

Each node appends to the shards it owns, under LSNs of its own, and sends what it
appended to the other nodes. `replicate_wal` drops from a batch the records whose
LSN stands in some file of the replica, whatever the shard, and appends the rest
to the shard's file in a later step.

* `replicate_holds`: what a replica acknowledged it holds, exactly once, in every
  run in which an LSN that it drops is that of the same record in the shard's file,
  and an LSN that it appends is not there yet.
-/

namespace NextDb.Api.Replicate

open Run Wal List

/-- The log of a shard: its archived files and its active one. -/
structure ShardFile where
  archived : List WalRecord
  active : List WalRecord

def ShardFile.records (file : ShardFile) : List WalRecord := file.archived ++ file.active

/-- A node of the cluster. -/
structure Node where
  nextLsn : Nat
  currentLsn : Nat
  wal : Nat → ShardFile

structure WalReplicateRequest where
  shard : Nat
  records : List WalRecord
  /-- The token in a header of the request. -/
  token : Option String

structure WalReplicateResponse where
  shard : Nat
  accepted : Nat
  skipped : Nat
  currentLsn : Nat
deriving DecidableEq

/-- The shards, with their owners and epochs. -/
structure ClusterConfig where
  shardCount : Nat
  owner : Nat → String
  epoch : Nat → Nat
  walReplicationToken : Option String

variable (lib : Libraries) (cfg : ClusterConfig)

/-! ## `replicate_wal` -/

def authorizeReplication (token : Option String) : Except ApiError Unit :=
  match cfg.walReplicationToken with
  | none => .ok ()
  | some expected =>
    if token = some expected then .ok ()
    else .error (ApiError.unauthorized "invalid WAL replication token")

def validateReplicatedWalFence (shard : Nat) (record : WalRecord) : Except ApiError Unit :=
  let expectedEpoch := cfg.epoch shard
  let expectedOwner := cfg.owner shard
  if record.shard ≠ shard then
    .error (.conflict s!"replicated WAL record shard {record.shard} does not match request shard {shard}")
  else if record.shardEpoch ≠ expectedEpoch then
    .error (.conflict s!"replicated WAL record epoch {record.shardEpoch} does not match local shard epoch {expectedEpoch}")
  else if !record.ownerNodeId.isEmpty ∧ record.ownerNodeId ≠ expectedOwner then
    .error (.conflict s!"replicated WAL record owner {record.ownerNodeId} does not match configured shard owner {expectedOwner}")
  else .ok ()

/-- The checks of one record of a batch; a missing checksum is filled in. -/
def checkReplicatedRecord (shard : Nat) (record : WalRecord) : Except ApiError WalRecord := do
  validateReplicatedWalFence cfg shard record
  if record.lsn = 0 then .error (.badRequest "replicated WAL records must have lsn")
  else if record.durability = .volatile then
    .error (.badRequest "volatile records must not be replicated through WAL")
  else
    match ← (verifyChecksum lib record).mapError ApiError.internal with
    | .valid => .ok record
    | .missing => (ensureChecksum lib record).mapError ApiError.internal
    | .mismatch expected =>
      let found := record.checksum.getD ""
      .error (.badRequest s!"replicated WAL checksum mismatch for LSN {record.lsn}: expected {expected}, found {found}")

/-- The files of a node, in the order of the shards. -/
def Node.walFiles (node : Node) : List (List WalRecord × List WalRecord) :=
  (List.range cfg.shardCount).map fun shard => ((node.wal shard).archived, (node.wal shard).active)

/-- The records of a batch that no file has the LSN of, by LSN. -/
def uniqueRecords (node : Node) (requestedRecords : List WalRecord) : List WalRecord :=
  let existingLsns := (readRecordsFromWalPaths (node.walFiles cfg)).map (·.lsn)
  (firstByLsn (requestedRecords.filter fun record => record.lsn ∉ existingLsns)).toList.map Prod.snd

/-- `replicate_wal` up to the append: the records to append. -/
def replicateScan (node : Node) (request : WalReplicateRequest) :
    Except ApiError (List WalRecord) := do
  authorizeReplication cfg request.token
  if request.shard ≥ cfg.shardCount then
    .error (.badRequest "replication shard is out of range")
  else
    let requestedRecords ← request.records.mapM (checkReplicatedRecord lib cfg request.shard)
    .ok (uniqueRecords cfg node requestedRecords)

/-- The counters after a replicated record. -/
def applyReplicatedWalRecord (node : Node) (record : WalRecord) : Node :=
  { node with
    currentLsn := max node.currentLsn record.lsn
    nextLsn := max node.nextLsn record.lsn }

def Node.appendTo (node : Node) (shard : Nat) (records : List WalRecord) : Node :=
  { node with
    wal := Function.update node.wal shard
      { node.wal shard with active := (node.wal shard).active ++ records } }

/-! ## The cluster -/

/-- A batch that is sent to a node. -/
structure Replication where
  target : String
  request : WalReplicateRequest

/-- A request whose batch has been scanned. -/
structure PendingReplication where
  node : String
  shard : Nat
  batch : List WalRecord
  records : List WalRecord

/-- A request that was answered `Ok`. -/
structure Acknowledged where
  node : String
  shard : Nat
  batch : List WalRecord
  response : WalReplicateResponse

/-- The nodes, and the batches on their way. -/
structure ClusterState where
  nodes : String → Node
  network : List Replication
  pending : List PendingReplication
  acknowledged : List Acknowledged

/-- What becomes of appending a batch: it is written and applied; it is written,
and applying a record fails; or the append fails, with the batch in the file or
not. -/
inductive ReplicateOutcome where
  | applied
  | applyFails (applied : Nat)
  | appendFails (written : Bool)

/-- How an append ends: acknowledged, or failed with the record in the file or not. -/
inductive AppendOutcome where
  | acked
  | failed (written : Bool)

/-- Appends of owners, and deliveries to replicas. -/
inductive ClusterEvent where
  /-- The owner of a shard appends a record. -/
  | append (shard : Nat) (command : WalAppendCommand) (outcome : AppendOutcome)
  /-- The owner of a shard sends records of it to a node. -/
  | send (target : String) (request : WalReplicateRequest)
  | scan (message : Nat)
  | finish (pending : Nat) (outcome : ReplicateOutcome)

def ClusterState.setNode (s : ClusterState) (name : String) (node : Node) : ClusterState :=
  { s with nodes := Function.update s.nodes name node }

def acknowledge (s : ClusterState) (p : PendingReplication) (accepted : Nat) : ClusterState :=
  { s with acknowledged := s.acknowledged ++ [⟨p.node, p.shard, p.batch,
      ⟨p.shard, accepted, p.batch.length - accepted, (s.nodes p.node).currentLsn⟩⟩] }

def commitLsn (node : Node) (lsn : Nat) : Node :=
  { node with currentLsn := max node.currentLsn lsn }

def appendStep (s : ClusterState) (shard : Nat) (command : WalAppendCommand)
    (outcome : AppendOutcome) : ClusterState :=
  let name := cfg.owner shard
  let node := { s.nodes name with nextLsn := (s.nodes name).nextLsn + 1 }
  match signedRecord lib shard { command with lsn := node.nextLsn } with
  | .error _ => s.setNode name node
  | .ok record =>
    match outcome with
    | .acked => s.setNode name (commitLsn (node.appendTo shard [record]) record.lsn)
    | .failed true => s.setNode name (node.appendTo shard [record])
    | .failed false => s.setNode name node

def finishStep (s : ClusterState) (p : PendingReplication) (outcome : ReplicateOutcome) :
    ClusterState :=
  if p.records.isEmpty then acknowledge s p 0
  else
    let node := (s.nodes p.node).appendTo p.shard p.records
    match outcome with
    | .appendFails written => if written then s.setNode p.node node else s
    | .applyFails applied =>
      s.setNode p.node ((p.records.take applied).foldl applyReplicatedWalRecord node)
    | .applied =>
      acknowledge (s.setNode p.node (p.records.foldl applyReplicatedWalRecord node)) p p.records.length

/-- What each event does to the nodes. -/
inductive ClusterStep : ClusterState → ClusterEvent → ClusterState → Prop where
  | append {s shard command outcome} : shard < cfg.shardCount →
    ClusterStep s (.append shard command outcome) (appendStep lib cfg s shard command outcome)
  | send {s target request} : target ≠ cfg.owner request.shard → (request.records.map (·.lsn)).Nodup →
    (∀ r ∈ request.records, r ∈ ((s.nodes (cfg.owner request.shard)).wal request.shard).records) →
    ClusterStep s (.send target request) { s with network := s.network ++ [⟨target, request⟩] }
  | scanFails {s message m err} : s.network[message]? = some m →
    replicateScan lib cfg (s.nodes m.target) m.request = .error err → ClusterStep s (.scan message) s
  | scan {s message m records} : s.network[message]? = some m →
    replicateScan lib cfg (s.nodes m.target) m.request = .ok records →
    ClusterStep s (.scan message)
      { s with pending := s.pending ++ [⟨m.target, m.request.shard, m.request.records, records⟩] }
  | finish {s pending p outcome} : s.pending[pending]? = some p →
    ClusterStep s (.finish pending outcome) (finishStep { s with pending := s.pending.eraseIdx pending } p outcome)

/-- The file has a record with the LSN and the payload of this one. -/
def Holds (file : ShardFile) (r : WalRecord) : Prop :=
  ∃ stored ∈ file.records, stored.lsn = r.lsn ∧ stored.payload = r.payload

/-- A batch is scanned only when each of its LSNs that some file of the replica has
is that of the same record in the shard's file; and a batch is appended only when
the shard's file has none of its LSNs. -/
def LsnsAgree (s : ClusterState) : ClusterEvent → Prop
  | .scan message => ∀ m, s.network[message]? = some m → ∀ r ∈ m.request.records,
    ∀ shard < cfg.shardCount, (∃ r' ∈ ((s.nodes m.target).wal shard).records, r'.lsn = r.lsn) →
      Holds ((s.nodes m.target).wal m.request.shard) r
  | .finish pending _ => ∀ p, s.pending[pending]? = some p → ∀ r ∈ p.records,
    ∀ r' ∈ ((s.nodes p.node).wal p.shard).records, r'.lsn ≠ r.lsn
  | _ => True

/-- The LSNs of every file are distinct, and no request is on its way. -/
structure Started (s : ClusterState) : Prop where
  distinct : ∀ name shard, (((s.nodes name).wal shard).records.map (·.lsn)).Nodup
  allocated : ∀ name shard, ∀ r ∈ ((s.nodes name).wal shard).records, r.lsn ≤ (s.nodes name).nextLsn
  idle : s.network = [] ∧ s.pending = [] ∧ s.acknowledged = []

/-! ## What a scan leaves to append -/

variable {lib cfg}

/-- The same record, but for its checksum. -/
def SameRecord (r r' : WalRecord) : Prop := r'.lsn = r.lsn ∧ r'.payload = r.payload

variable {r : WalRecord} {node : Node} {batch : List WalRecord} {file : ShardFile}
    {s : ClusterState} {shard : Nat}
  {requested : List WalRecord} {file' : ShardFile}

theorem checkReplicatedRecord_ok {r' : WalRecord}
    (h : checkReplicatedRecord lib cfg shard r = .ok r') :
    SameRecord r r' := by
  obtain ⟨-, -, h⟩ := bind_eq_ok.mp h
  split at h
  · cases h
  split at h
  · cases h
  obtain ⟨status, -, h⟩ := bind_eq_ok.mp h
  split at h
  · cases h
    exact ⟨rfl, rfl⟩
  · rw [ensureChecksum] at h
    split at h
    · cases hr : refreshChecksum lib r with
      | error err => rw [hr] at h; cases h
      | ok signed =>
        rw [hr] at h
        cases h
        obtain ⟨checksum, -, rfl⟩ := refreshChecksum_ok hr
        exact ⟨rfl, rfl⟩
    · cases h
      exact ⟨rfl, rfl⟩
  · cases h

variable {records : List WalRecord}

theorem replicateScan_ok {request : WalReplicateRequest}
    (h : replicateScan lib cfg node request = .ok records) :
    ∃ requested, Forall₂ SameRecord request.records requested ∧
    records = uniqueRecords cfg node requested := by
  obtain ⟨-, -, h⟩ := bind_eq_ok.mp h
  split at h
  · cases h
  obtain ⟨requested, hr, h⟩ := bind_eq_ok.mp h
  cases h
  exact ⟨requested, (forall₂_of_mapM_ok hr).imp fun _ _ => checkReplicatedRecord_ok, rfl⟩

theorem uniqueRecords_nodup (node : Node) (requested : List WalRecord) :
    ((uniqueRecords cfg node requested).map (·.lsn)).Nodup := firstByLsn_nodup _

theorem mem_walFiles {n : Nat} : (∃ r ∈ readRecordsFromWalPaths (node.walFiles cfg), r.lsn = n) ↔
    ∃ shard < cfg.shardCount, ∃ r ∈ (node.wal shard).records, r.lsn = n := by
  rw [exists_lsn_readRecordsFromWalPaths]
  constructor
  · rintro ⟨file, hfile, hr⟩
    obtain ⟨shard, hshard, rfl⟩ := mem_map.mp hfile
    exact ⟨shard, mem_range.mp hshard, hr⟩
  · rintro ⟨shard, hshard, hr⟩
    exact ⟨_, mem_map.mpr ⟨shard, mem_range.mpr hshard, rfl⟩, hr⟩

/-- What is left to append has an LSN that no file has. -/
theorem uniqueRecords_fresh {requested : List WalRecord} (h : r ∈ uniqueRecords cfg node requested)
    (hshard : shard < cfg.shardCount) : ∀ r' ∈ (node.wal shard).records, r'.lsn ≠ r.lsn := by
  intro r' hr' heq
  have hnew := (mem_filter.mp (firstByLsn_some (mem_firstByLsn.mp h)).2).2
  obtain ⟨r'', hr'', hlsn⟩ := mem_walFiles.mpr ⟨shard, hshard, r', hr', heq⟩
  have hex : r.lsn ∈ (readRecordsFromWalPaths (node.walFiles cfg)).map (·.lsn) := mem_map.mpr ⟨r'', hr'', hlsn⟩
  exact absurd hex (of_decide_eq_true hnew)

/-- A requested record is left to append, unless some file has its LSN. -/
theorem uniqueRecords_covers {node : Node} {requested : List WalRecord}
    (hs : (requested.map (·.lsn)).Nodup)
    {r : WalRecord} (hr : r ∈ requested) :
    r ∈ uniqueRecords cfg node requested ∨ ∃ shard < cfg.shardCount,
    ∃ r' ∈ (node.wal shard).records, r'.lsn = r.lsn := by
  rw [← mem_walFiles]
  by_cases hex : ∃ r' ∈ readRecordsFromWalPaths (node.walFiles cfg), r'.lsn = r.lsn
  · exact .inr hex
  · refine .inl (mem_firstByLsn.mpr (firstByLsn_mem ?_ (mem_filter.mpr ⟨hr, ?_⟩)))
    · exact hs.sublist (filter_sublist.map _)
    · simpa using fun r' hr' he => hex ⟨r', hr', he⟩

theorem lsns_of_sameRecord (h : Forall₂ SameRecord batch requested) :
    requested.map (·.lsn) = batch.map (·.lsn) := by
  induction h with
  | nil => rfl
  | cons hr _ ih => rw [map_cons, map_cons, ih, hr.1]

theorem exists_sameRecord (h : Forall₂ SameRecord batch requested) (hr : r ∈ batch) :
    ∃ r' ∈ requested, SameRecord r r' :=
  exists_of_forall₂ h.flip hr

/-! ## The invariant -/

/-- Every record of a batch is in the file, or left to append. -/
def Covers (file : ShardFile) (batch records : List WalRecord) : Prop :=
  ∀ r ∈ batch, Holds file r ∨ ∃ r' ∈ records, SameRecord r r'

/-- No node has an LSN twice in a shard, and what was acknowledged is there. -/
structure ClusterInv (cfg : ClusterConfig) (s : ClusterState) : Prop where
  distinct : ∀ name shard, (((s.nodes name).wal shard).records.map (·.lsn)).Nodup
  allocated : ∀ shard, ∀ r ∈ ((s.nodes (cfg.owner shard)).wal shard).records,
    r.lsn ≤ (s.nodes (cfg.owner shard)).nextLsn
  network : ∀ m ∈ s.network, m.target ≠ cfg.owner m.request.shard ∧ (m.request.records.map (·.lsn)).Nodup
  pending : ∀ p ∈ s.pending, p.node ≠ cfg.owner p.shard ∧ (p.records.map (·.lsn)).Nodup ∧
    Covers ((s.nodes p.node).wal p.shard) p.batch p.records
  acknowledged : ∀ a ∈ s.acknowledged, ∀ r ∈ a.batch, Holds ((s.nodes a.node).wal a.shard) r

theorem Holds.mono (h : Holds file r) (hsub : file.records ⊆ file'.records) : Holds file' r := by
  obtain ⟨stored, hs, hr⟩ := h
  exact ⟨stored, hsub hs, hr⟩

theorem Covers.mono (h : Covers file batch records) (hsub : file.records ⊆ file'.records) :
    Covers file' batch records :=
  fun r hr => (h r hr).imp_left (·.mono hsub)

@[simp] theorem records_appendTo (node : Node) (shard : Nat) (records : List WalRecord)
    (other : Nat) :
    ((node.appendTo shard records).wal other).records = (node.wal other).records ++
    (if other = shard then records else []) := by
  unfold Node.appendTo
  rcases eq_or_ne other shard with rfl | hne
  · simp [ShardFile.records]
  · simp [hne]

@[simp] theorem nodes_setNode (s : ClusterState) (name : String) (node : Node) (other : String) :
    (s.setNode name node).nodes other = if other = name then node else s.nodes other := by
  unfold ClusterState.setNode
  rcases eq_or_ne other name with rfl | hne
  · simp
  · simp [hne]

/-- A node whose files grow. -/
theorem ClusterInv.setNode {name : String} (h : ClusterInv cfg s)
    (hgrow : ∀ shard, ((s.nodes name).wal shard).records ⊆ (node.wal shard).records)
    (hdistinct : ∀ shard, ((node.wal shard).records.map (·.lsn)).Nodup)
    (halloc : ∀ shard, cfg.owner shard = name → ∀ r ∈ (node.wal shard).records,
      r.lsn ≤ node.nextLsn) :
    ClusterInv cfg (s.setNode name node) := by
  have hfile : ∀ other shard,
      ((s.nodes other).wal shard).records ⊆ (((s.setNode name node).nodes other).wal shard).records := by
    intro other shard
    rw [nodes_setNode]
    split
    · next he => exact he ▸ hgrow shard
    · exact Subset.refl _
  refine ⟨fun other shard => ?_, fun shard => ?_, h.network, fun p hp => ?_, fun a ha r hr => ?_⟩
  · rw [nodes_setNode]
    split
    · exact hdistinct shard
    · exact h.distinct other shard
  · rw [nodes_setNode]
    split
    · next he => exact halloc shard he
    · exact h.allocated shard
  · obtain ⟨hne, hnodup, hcovers⟩ := h.pending p hp
    exact ⟨hne, hnodup, hcovers.mono (hfile p.node p.shard)⟩
  · exact (h.acknowledged a ha r hr).mono (hfile a.node a.shard)

/-! ## Steps -/

theorem nodup_lsns_append {more : List WalRecord} (h : (records.map (·.lsn)).Nodup)
    (hmore : (more.map (·.lsn)).Nodup)
    (hne : ∀ r ∈ more, ∀ r' ∈ records, r'.lsn ≠ r.lsn) : ((records ++ more).map (·.lsn)).Nodup := by
  rw [map_append, nodup_append]
  refine ⟨h, hmore, fun n hn n' hn' => ?_⟩
  obtain ⟨r', hr', rfl⟩ := mem_map.mp hn
  obtain ⟨r, hr, rfl⟩ := mem_map.mp hn'
  exact hne r hr r' hr'

theorem ClusterInv.append {s : ClusterState} (h : ClusterInv cfg s) (shard : Nat)
    (command : WalAppendCommand)
    (outcome : AppendOutcome) : ClusterInv cfg (appendStep lib cfg s shard command outcome) := by
  unfold appendStep
  dsimp only
  generalize hnode : ({ s.nodes (cfg.owner shard) with
    nextLsn := (s.nodes (cfg.owner shard)).nextLsn + 1 } : Node) = node
  have hwal : node.wal = (s.nodes (cfg.owner shard)).wal := by rw [← hnode]
  have hnext : node.nextLsn = (s.nodes (cfg.owner shard)).nextLsn + 1 := by rw [← hnode]
  -- what the shards of the owner hold is below the new LSN
  have hbelow : ∀ other, cfg.owner other = cfg.owner shard → ∀ r ∈ (node.wal other).records, r.lsn < node.nextLsn := by
    intro other he r hr
    rw [hwal, ← he] at hr
    have := h.allocated other r hr
    rw [he] at this
    omega
  have hskip : ClusterInv cfg (s.setNode (cfg.owner shard) node) := by
    refine h.setNode (fun other => ?_) (fun other => ?_) fun other he r hr => (hbelow other he r hr).le
    · rw [hwal]
      exact Subset.refl _
    · rw [hwal]
      exact h.distinct _ _
  split
  · exact hskip
  next record hrecord =>
  have hlsn : record.lsn = node.nextLsn := (signedRecord_data hrecord).2.trans hnext.symm
  have hwritten : ∀ node' : Node, node'.wal = (node.appendTo shard [record]).wal → node'.nextLsn = node.nextLsn →
      ClusterInv cfg (s.setNode (cfg.owner shard) node') := by
    intro node' hw hn
    refine h.setNode (fun other => ?_) (fun other => ?_) fun other he r hr => ?_
    · rw [hw, records_appendTo, hwal]
      exact subset_append_left ..
    · rw [hw, records_appendTo, hwal]
      split
      · next ho =>
        subst ho
        refine nodup_lsns_append (h.distinct _ _) (nodup_singleton _) fun r hr r' hr' => ?_
        rw [mem_singleton.mp hr, hlsn]
        exact (hbelow other rfl r' (hwal ▸ hr')).ne
      · rw [append_nil]
        exact h.distinct _ _
    · rw [hw, records_appendTo, mem_append] at hr
      rw [hn]
      rcases hr with hr | hr
      · exact (hbelow other he r hr).le
      · split at hr
        · exact (mem_singleton.mp hr ▸ hlsn).le
        · cases hr
  split
  · exact hwritten _ rfl rfl
  · exact hwritten _ rfl rfl
  · exact hskip

theorem ClusterInv.scan {m : Replication} {message : Nat} (h : ClusterInv cfg s)
    (hm : s.network[message]? = some m)
    (hscan : replicateScan lib cfg (s.nodes m.target) m.request = .ok records)
    (hagree : LsnsAgree cfg s (.scan message)) :
    ClusterInv cfg { s with pending := s.pending ++ [⟨m.target, m.request.shard, m.request.records,
    records⟩] } := by
  obtain ⟨hne, hnodup⟩ := h.network m (mem_of_getElem? hm)
  refine ⟨h.distinct, h.allocated, h.network, fun p hp => ?_, h.acknowledged⟩
  rcases mem_append.mp hp with hp | hp
  · exact h.pending p hp
  · rw [mem_singleton.mp hp]
    obtain ⟨requested, hsame, rfl⟩ := replicateScan_ok hscan
    refine ⟨hne, uniqueRecords_nodup _ _, fun r hr => ?_⟩
    obtain ⟨r', hr', hs⟩ := exists_sameRecord hsame hr
    rcases uniqueRecords_covers (lsns_of_sameRecord hsame ▸ hnodup) hr' with hmem | ⟨shard, hlt, hex⟩
    · exact .inr ⟨r', hmem, hs⟩
    · exact .inl (hagree m hm r hr shard hlt (hs.1 ▸ hex))

theorem foldl_applyReplicatedWalRecord (records : List WalRecord) (node : Node) :
    (records.foldl applyReplicatedWalRecord node).wal = node.wal ∧
    node.nextLsn ≤ (records.foldl applyReplicatedWalRecord node).nextLsn := by
  induction records generalizing node with
  | nil => exact ⟨rfl, le_rfl⟩
  | cons r records ih =>
    obtain ⟨hw, hn⟩ := ih (applyReplicatedWalRecord node r)
    exact ⟨hw, (le_max_left _ _).trans hn⟩

/-- A batch that is appended, with some of its records applied. -/
theorem ClusterInv.appendTo {p : PendingReplication} (h : ClusterInv cfg s)
    (hne : p.node ≠ cfg.owner p.shard) (hnodup : (p.records.map (·.lsn)).Nodup)
    (hfresh : ∀ r ∈ p.records,
    ∀ r' ∈ ((s.nodes p.node).wal p.shard).records, r'.lsn ≠ r.lsn) (applied : List WalRecord) :
    ClusterInv cfg
    (s.setNode p.node (applied.foldl applyReplicatedWalRecord ((s.nodes p.node).appendTo p.shard p.records))) := by
  obtain ⟨hwal, hnext⟩ := foldl_applyReplicatedWalRecord applied ((s.nodes p.node).appendTo p.shard p.records)
  refine h.setNode (fun other => ?_) (fun other => ?_) fun other he r hr => ?_
  · rw [hwal, records_appendTo]
    exact subset_append_left ..
  · rw [hwal, records_appendTo]
    split
    · next ho => exact ho ▸ nodup_lsns_append (h.distinct _ _) hnodup hfresh
    · rw [append_nil]
      exact h.distinct _ _
  · have hother : other ≠ p.shard := fun ho => hne (ho ▸ he.symm)
    rw [hwal, records_appendTo, if_neg hother, append_nil] at hr
    have := h.allocated other r (he ▸ hr)
    rw [he] at this
    exact this.trans hnext

theorem ClusterInv.acknowledge {s : ClusterState} {p : PendingReplication} (h : ClusterInv cfg s)
    (accepted : Nat)
    (hheld : ∀ r ∈ p.batch, Holds ((s.nodes p.node).wal p.shard) r) :
    ClusterInv cfg (acknowledge s p accepted) := by
  refine ⟨h.distinct, h.allocated, h.network, h.pending, fun a ha => ?_⟩
  rcases mem_append.mp ha with ha | ha
  · exact h.acknowledged a ha
  · rw [mem_singleton.mp ha]
    exact hheld

theorem ClusterInv.finish {s : ClusterState}
    {p : PendingReplication} {pending : Nat} (h : ClusterInv cfg s)
    (hp : s.pending[pending]? = some p)
    (outcome : ReplicateOutcome) (hagree : LsnsAgree cfg s (.finish pending outcome)) :
    ClusterInv cfg (finishStep { s with pending := s.pending.eraseIdx pending } p outcome) := by
  obtain ⟨hne, hnodup, hcovers⟩ := h.pending p (mem_of_getElem? hp)
  have h' : ClusterInv cfg { s with pending := s.pending.eraseIdx pending } :=
    ⟨h.distinct, h.allocated, h.network, fun q hq => h.pending q (mem_of_mem_eraseIdx hq), h.acknowledged⟩
  have happend := h'.appendTo hne hnodup (hagree p hp)
  unfold finishStep
  split
  · next hempty =>
    rw [List.isEmpty_iff] at hempty
    refine h'.acknowledge 0 fun r hr => (hcovers r hr).resolve_right ?_
    simp [hempty]
  · cases outcome with
    | appendFails written =>
      dsimp only
      split
      · exact happend []
      · exact h'
    | applyFails applied => exact happend _
    | applied =>
      refine (happend p.records).acknowledge _ fun r hr => ?_
      have hwal := (foldl_applyReplicatedWalRecord p.records ((s.nodes p.node).appendTo p.shard p.records)).1
      rw [nodes_setNode, if_pos rfl, hwal]
      rcases hcovers r hr with hheld | ⟨r', hr', hs⟩
      · refine hheld.mono ?_
        rw [records_appendTo]
        exact subset_append_left ..
      · refine ⟨r', ?_, hs⟩
        rw [records_appendTo, if_pos rfl]
        exact mem_append_right _ hr'

theorem ClusterInv.step {t : ClusterState} {e : ClusterEvent} (h : ClusterInv cfg s)
    (hagree : LsnsAgree cfg s e) (hstep : ClusterStep lib cfg s e t) : ClusterInv cfg t := by
  cases hstep with
  | append _ => exact h.append _ _ _
  | send hne hnodup _ =>
    refine ⟨h.distinct, h.allocated, fun m hm => ?_, h.pending, h.acknowledged⟩
    rcases mem_append.mp hm with hm | hm
    · exact h.network m hm
    · rw [mem_singleton.mp hm]
      exact ⟨hne, hnodup⟩
  | scanFails _ _ => exact h
  | scan hm hscan => exact h.scan hm hscan hagree
  | finish hp => exact h.finish hp _ hagree

theorem Started.inv (h : Started s) : ClusterInv cfg s := by
  obtain ⟨hnetwork, hpending, hacknowledged⟩ := h.idle
  exact ⟨h.distinct, fun shard => h.allocated _ shard, by simp [hnetwork], by simp [hpending], by simp [hacknowledged]⟩

/-- What a file holds with distinct LSNs it holds once. -/
theorem Holds.once (h : Holds file r) (hs : (file.records.map (·.lsn)).Nodup) :
    ∃ stored, file.records.filter (·.lsn = r.lsn) = [stored] ∧ stored.payload = r.payload := by
  obtain ⟨stored, hmem, hlsn, hpayload⟩ := h
  refine ⟨stored, ?_, hpayload⟩
  obtain ⟨before, after, he⟩ := append_of_mem hmem
  rw [he, map_append, map_cons, nodup_append, nodup_cons] at hs
  obtain ⟨-, ⟨hafter, -⟩, hne⟩ := hs
  have hb : before.filter (·.lsn = r.lsn) = [] := by
    refine filter_eq_nil_iff.mpr fun a ha => ?_
    have := hne a.lsn (mem_map_of_mem ha) stored.lsn mem_cons_self
    simpa [← hlsn] using this
  have ha : after.filter (·.lsn = r.lsn) = [] := by
    refine filter_eq_nil_iff.mpr fun a ha => ?_
    have : a.lsn ≠ stored.lsn := fun hl => hafter (hl ▸ mem_map_of_mem ha)
    simpa [← hlsn] using this
  rw [he, filter_append, hb, filter_cons_of_pos (by simpa using hlsn), ha]
  rfl

/-- A batch that a replica acknowledged is in its log of the shard, each record
once and with its payload: in every run in which the LSNs agree. -/
theorem replicate_holds {s t : ClusterState} (hs : Started s)
    (hrun : Reaches (ClusterStep lib cfg) (LsnsAgree cfg) s t)
    {a : Acknowledged} (ha : a ∈ t.acknowledged) {r : WalRecord} (hr : r ∈ a.batch) : ∃ stored,
    ((t.nodes a.node).wal a.shard).records.filter (·.lsn = r.lsn) = [stored] ∧
    stored.payload = r.payload := by
  have hinv : ClusterInv cfg t :=
    hrun.invariant (fun _ _ _ h hagree hstep => h.step hagree hstep) hs.inv
  exact (hinv.acknowledged a ha r hr).once (hinv.distinct _ _)

/-! ## Two nodes -/

def sampleOwner : Nat → String
  | 0 => "a"
  | _ => "b"

def sampleCluster : ClusterConfig := ⟨2, sampleOwner, fun _ => 1, none⟩

def sampleCommand (shard : Nat) : WalAppendCommand :=
  ⟨1, 1, sampleOwner shard, .strict, 1, .hostHttpCompleted "r" 7, 0⟩

/-- The JSON text of the first record of a shard. -/
def sampleJson (shard : Nat) : Bytes :=
  let text := s!"\x7b\"lsn\":1,\"shard\":{shard},\"shardEpoch\":1,\"ownerNodeId\":\"{sampleOwner shard}\"," ++
    "\"timestampMs\":0,\"schemaVersion\":1,\"durability\":\"strict\",\"payload\":\x7b" ++
    "\"type\":\"hostHttpCompleted\",\"requestId\":\"r\",\"completedAtMs\":7\x7d\x7d"
  text.toUTF8.toList

/-- The SHA-256 of that text. -/
def sampleDigest : Nat → Bytes
  | 0 =>
    [0xed, 0x62, 0xbd, 0x3f, 0x27, 0x41, 0xcc, 0x7d, 0x97, 0x13, 0xc6, 0x39, 0x09, 0xfc, 0xb7,
     0x73, 0xa5, 0xf1, 0xde, 0x1b, 0xef, 0xa0, 0x15, 0x78, 0x24, 0x90, 0x62, 0xb3, 0xb8, 0xa9,
     0xba, 0xae]
  | _ =>
    [0xcd, 0x4a, 0xa3, 0x09, 0x83, 0xbb, 0xd1, 0x68, 0x23, 0x2d, 0x5a, 0x30, 0x7f, 0xa9, 0x03,
     0xd7, 0x95, 0x33, 0xee, 0x07, 0x45, 0x9b, 0x33, 0xfa, 0x5f, 0x5d, 0x93, 0x7b, 0xb3, 0x26,
     0xe7, 0xbf]

/-- The libraries at the first records of the two shards. -/
def clusterLibraries : Libraries :=
  { sampleLibraries with
    materialToVec
      | ⟨1, shard, 1, owner, 0, 1, .strict, .hostHttpCompleted "r" 7⟩ =>
        if owner = sampleOwner shard then .ok (sampleJson shard) else bail "not sampled"
      | _ => bail "not sampled"
    sha256 := fun bytes => if bytes = sampleJson 0 then sampleDigest 0 else sampleDigest 1 }

def sampleStored (shard : Nat) : WalRecord where
  lsn := 1
  shard
  shardEpoch := 1
  ownerNodeId := sampleOwner shard
  timestampMs := 0
  schemaVersion := 1
  durability := .strict
  payload := .hostHttpCompleted "r" 7
  checksum := some ("sha256:" ++ hexLower (clusterLibraries.sha256 (sampleJson shard)))

theorem signedRecord_sampleStored (shard : Nat) :
    signedRecord clusterLibraries shard (sampleCommand shard) = .ok (sampleStored shard) := by
  have hm : clusterLibraries.materialToVec (sampleStored shard).checksumMaterial = .ok (sampleJson shard) := if_pos rfl
  exact congrArg (fun r => (r >>= fun bytes =>
    .ok ("sha256:" ++ hexLower (clusterLibraries.sha256 bytes)) : Result String) >>= fun checksum =>
      .ok { sampleStored shard with checksum := some checksum }) hm

theorem checkReplicatedRecord_sample :
    checkReplicatedRecord clusterLibraries sampleCluster 0 (sampleStored 0) =
    .ok (sampleStored 0) := by
  have hv : verifyChecksum clusterLibraries (sampleStored 0) = .ok .valid :=
    verifyChecksum_refreshChecksum (signedRecord_sampleStored 0)
  have hf : validateReplicatedWalFence sampleCluster 0 (sampleStored 0) = .ok () := rfl
  rw [checkReplicatedRecord, hf, hv]
  rfl

def sampleRequest : WalReplicateRequest := ⟨0, [sampleStored 0], none⟩

theorem replicateScan_sample (node : Node) :
    replicateScan clusterLibraries sampleCluster node sampleRequest =
    .ok (uniqueRecords sampleCluster node [sampleStored 0]) := by
  have hm : [sampleStored 0].mapM (checkReplicatedRecord clusterLibraries sampleCluster 0) = .ok [sampleStored 0] := by
    rw [mapM_cons, checkReplicatedRecord_sample]
    rfl
  have ha : authorizeReplication sampleCluster none = .ok () := rfl
  exact bind_eq_ok.mpr ⟨(), ha, (if_neg (by decide)).trans (bind_eq_ok.mpr ⟨_, hm, rfl⟩)⟩

def sampleStart : ClusterState := ⟨fun _ => ⟨0, 0, fun _ => ⟨[], []⟩⟩, [], [], []⟩

theorem sampleStart_started : Started sampleStart :=
  ⟨fun _ _ => nodup_nil, fun _ _ _ hr => (not_mem_nil hr).elim, rfl, rfl, rfl⟩

/-- The owner of a shard appends its first record. -/
def sampleAppend (s : ClusterState) (shard : Nat) : ClusterState :=
  let node : Node := { s.nodes (sampleOwner shard) with nextLsn := 1 }
  s.setNode (sampleOwner shard) (commitLsn (node.appendTo shard [sampleStored shard]) 1)

theorem append_sample (hshard : shard < 2) (hnext : (s.nodes (sampleOwner shard)).nextLsn = 0) :
    ClusterStep clusterLibraries sampleCluster s (.append shard (sampleCommand shard) .acked)
    (sampleAppend s shard) := by
  have h : ClusterStep clusterLibraries sampleCluster s (.append shard (sampleCommand shard) .acked) _ :=
    .append hshard
  have hs : signedRecord clusterLibraries shard { sampleCommand shard with lsn := 0 + 1 } = .ok (sampleStored shard) :=
      signedRecord_sampleStored shard
  have hnext' : (s.nodes (sampleCluster.owner shard)).nextLsn = 0 := hnext
  rw [appendStep, hnext'] at h
  dsimp only at h
  rwa [hs] at h

/-- The first record of shard 0 is sent to the other node. -/
def sampleSend (s : ClusterState) : ClusterState :=
  { s with network := s.network ++ [⟨"b", sampleRequest⟩] }

def samplePending (s : ClusterState) : PendingReplication :=
  ⟨"b", 0, [sampleStored 0], uniqueRecords sampleCluster (s.nodes "b") [sampleStored 0]⟩

/-- That node scans it, appends what is left and answers. -/
def sampleReceive (s : ClusterState) : ClusterState := finishStep s (samplePending s) .applied

theorem send_sample (hsent : sampleStored 0 ∈ ((s.nodes "a").wal 0).records) :
    ClusterStep clusterLibraries sampleCluster s (.send "b" sampleRequest) (sampleSend s) := by
  refine .send (by decide) (nodup_singleton _) fun r hr => ?_
  rw [mem_singleton.mp hr]
  exact hsent

theorem receive_sample {meets : ClusterState → ClusterEvent → Prop}
    (hnetwork : s.network = [⟨"b", sampleRequest⟩])
    (hpending : s.pending = []) (hscan : meets s (.scan 0))
    (hfinish : meets { s with pending := [samplePending s] } (.finish 0 .applied)) :
    Reaches (ClusterStep clusterLibraries sampleCluster) meets s (sampleReceive s) := by
  have h1 : ClusterStep clusterLibraries sampleCluster s (.scan 0)
      { s with pending := s.pending ++ [samplePending s] } := by
    refine .scan (m := ⟨"b", sampleRequest⟩) ?_ (replicateScan_sample _)
    rw [hnetwork]
    rfl
  rw [hpending] at h1
  have h2 : ClusterStep clusterLibraries sampleCluster { s with pending := [samplePending s] }
      (.finish 0 .applied) _ :=
    .finish (p := samplePending s) rfl
  have hs : ({ s with pending := [] } : ClusterState) = s := by
    rw [← hpending]
  have := ((Reaches.refl s).tail hscan h1).tail hfinish h2
  rwa [show (eraseIdx [samplePending s] 0) = [] from rfl, hs] at this

theorem scan_agrees (hnetwork : s.network = [⟨"b", sampleRequest⟩])
    (h : (∀ shard, ((s.nodes "b").wal shard).records = [])
    ∨ Holds ((s.nodes "b").wal 0) (sampleStored 0)) : LsnsAgree sampleCluster s (.scan 0) := by
  intro m hm r hr shard _ hex
  rw [hnetwork] at hm
  obtain rfl : ⟨"b", sampleRequest⟩ = m := Option.some.inj hm
  obtain rfl := mem_singleton.mp hr
  refine h.elim (fun hempty => ?_) id
  obtain ⟨r', hr', -⟩ := hex
  rw [hempty] at hr'
  cases hr'

theorem finish_agrees (s : ClusterState) :
    LsnsAgree sampleCluster { s with pending := [samplePending s] } (.finish 0 .applied) := by
  intro p hp r hr
  obtain rfl : samplePending s = p := Option.some.inj hp
  exact uniqueRecords_fresh hr (show 0 < 2 by decide)

theorem network_receive (s : ClusterState) : (sampleReceive s).network = s.network := by
  unfold sampleReceive finishStep
  split <;> rfl

theorem pending_receive (s : ClusterState) : (sampleReceive s).pending = s.pending := by
  unfold sampleReceive finishStep
  split <;> rfl

theorem receive_acknowledges (s : ClusterState) :
    ∃ response, ⟨"b", 0, [sampleStored 0], response⟩ ∈ (sampleReceive s).acknowledged := by
  unfold sampleReceive finishStep
  split
  · exact ⟨_, mem_concat_self⟩
  · exact ⟨_, mem_concat_self⟩

def sampleSent : ClusterState := sampleSend (sampleAppend sampleStart 0)

theorem receive_twice_sample :
    Reaches (ClusterStep clusterLibraries sampleCluster) (LsnsAgree sampleCluster) sampleStart
    (sampleReceive (sampleReceive sampleSent)) := by
  have hstored : ((sampleReceive sampleSent).nodes "b").wal 0 = ⟨[], [sampleStored 0]⟩ := rfl
  have hholds : Holds (((sampleReceive sampleSent).nodes "b").wal 0) (sampleStored 0) := by
    rw [hstored]
    exact ⟨_, mem_cons_self, rfl, rfl⟩
  have hsent : Reaches (ClusterStep clusterLibraries sampleCluster) (LsnsAgree sampleCluster) sampleStart sampleSent :=
    ((Reaches.refl _).take (append_sample (by decide) rfl) trivial).take (send_sample mem_cons_self) trivial
  have hfirst := hsent.trans (receive_sample rfl rfl (scan_agrees rfl (.inl fun _ => rfl)) (finish_agrees sampleSent))
  have hnetwork : (sampleReceive sampleSent).network = [⟨"b", sampleRequest⟩] := network_receive sampleSent
  exact hfirst.trans
    (receive_sample hnetwork (pending_receive sampleSent) (scan_agrees hnetwork (.inr hholds)) (finish_agrees _))

/-- A replica with an empty log takes the record, and the same batch comes to it a second time. -/
theorem replicate_holds_sample :
    ∃ stored, (((sampleReceive (sampleReceive sampleSent)).nodes "b").wal 0).records.filter
      (·.lsn = (sampleStored 0).lsn) = [stored] ∧ stored.payload = (sampleStored 0).payload := by
  obtain ⟨response, hack⟩ := receive_acknowledges (sampleReceive sampleSent)
  exact replicate_holds sampleStart_started receive_twice_sample hack mem_cons_self

/-- A replica that has appended a record of its own under the LSN acknowledges the
batch, and its file of the shard stays empty. -/
theorem replicate_drops_sample : ∃ t a r, Started sampleStart ∧
    Reaches (ClusterStep clusterLibraries sampleCluster) (fun _ _ => True) sampleStart t ∧
    a ∈ t.acknowledged ∧
    r ∈ a.batch ∧ ((t.nodes a.node).wal a.shard).records = [] := by
  have happend : Reaches (ClusterStep clusterLibraries sampleCluster) (fun _ _ => True) sampleStart
      (sampleAppend (sampleAppend sampleStart 0) 1) :=
    ((Reaches.refl _).take (append_sample (by decide) rfl) trivial).take (append_sample (by decide) rfl) trivial
  have hrun := (happend.take (send_sample mem_cons_self) trivial).trans (receive_sample rfl rfl trivial trivial)
  exact ⟨_, ⟨"b", 0, [sampleStored 0], ⟨0, 0, 1, 1⟩⟩, sampleStored 0, sampleStart_started, hrun,
    mem_singleton.mpr rfl, mem_cons_self, rfl⟩

end NextDb.Api.Replicate
