import NextDb.Lib.Run
import NextDb.Wal.ByLsn

/-!
# Remote replicas of a shard

The writer sends every segment it appends to the remote replicas of its shard,
each in a task of its own, and keeps one number for each replica: the highest LSN
it acknowledged. `repairRemoteRecords` sends a replica the local records above
that number.

The state holds, beside what the server holds, the records that each replica has
received.

* `repair_complete`: a repair that reports a replica as ok leaves no gap there, in
  every run in which a replica acknowledges a segment only when it has everything
  before it.
-/

namespace NextDb.Wal.Remote

open Run List Option

structure WalRemoteReplica where
  url : String
  token : Option String
deriving DecidableEq

inductive WalRemoteAckPolicy where
  | all
  | quorum
  | none
  | count (count : Nat)
deriving DecidableEq

/-- The times of the last attempt, success and error are left out. -/
structure WalRemoteReplicaStatus where
  url : String
  ok : Bool
  highestAckedLsn : Nat
  lastError : Option String
  ackedBatches : Nat
  failedBatches : Nat
deriving DecidableEq

structure WalRemoteRepairReplicaReport where
  url : String
  ok : Bool
  beforeAckedLsn : Nat
  afterAckedLsn : Nat
  sent : Nat
  error : Option String
deriving DecidableEq

structure WalRemoteRepairReport where
  shard : Nat
  remoteAckPolicy : WalRemoteAckPolicy
  remoteRequiredAcks : Nat
  remoteReplicaCount : Nat
  repairedReplicas : Nat
  recordsSent : Nat
  highestLsn : Nat
  satisfied : Bool
  replicas : List WalRemoteRepairReplicaReport
deriving DecidableEq

def requiredRemoteAcks (policy : WalRemoteAckPolicy) (replicaCount : Nat) : Nat :=
  match policy with
  | .all => replicaCount
  | .none => 0
  | .count count => min count replicaCount
  | .quorum => min ((replicaCount + 1) / 2 + 1 - 1) replicaCount

def replicatePath : List Char := "/v1/admin/wal/replicate".toList

def remoteReplicationEndpoint (url : String) : String :=
  let trimmed := (url.toList.reverse.dropWhile (· = '/')).reverse
  if replicatePath.isSuffixOf trimmed then String.ofList trimmed
  else String.ofList (trimmed ++ replicatePath)

/-! ## The status of a replica -/

def noteRemoteAttempt (status : List WalRemoteReplicaStatus) (index : Nat) (endpoint : String) :
    List WalRemoteReplicaStatus :=
  status.modify index fun replica => { replica with url := endpoint }

def noteRemoteSuccess (status : List WalRemoteReplicaStatus) (index : Nat) (endpoint : String)
    (highestLsn : Nat) : List WalRemoteReplicaStatus :=
  status.modify index fun replica =>
    { replica with
      url := endpoint
      ok := true
      highestAckedLsn := max replica.highestAckedLsn highestLsn
      lastError := none
      ackedBatches := replica.ackedBatches + 1 }

def noteRemoteFailure (status : List WalRemoteReplicaStatus) (index : Nat)
    (endpoint error : String) :
    List WalRemoteReplicaStatus :=
  status.modify index fun replica =>
    { replica with
      url := endpoint
      ok := false
      lastError := some error
      failedBatches := replica.failedBatches + 1 }

/-! ## The writer and its replicas -/

/-- A batch on its way to a replica. -/
structure RemoteTask where
  index : Nat
  endpoint : String
  records : List WalRecord

/-- How a request ends: acknowledged, or failed before or after the replica
received the batch. -/
inductive RemoteOutcome where
  | acked
  | failed (received : Bool) (message : String)

/-- A repair that the writer is working on. -/
structure Repair where
  afterLsn : Option Nat
  records : List WalRecord
  startingStatus : List WalRemoteReplicaStatus
  repairedReplicas : Nat
  recordsSent : Nat
  replicas : List WalRemoteRepairReplicaReport

/-- The log of the owner, what it knows of the replicas, and the requests on their way. -/
structure RemoteState where
  archived : List WalRecord
  active : List WalRecord
  status : List WalRemoteReplicaStatus
  inFlight : List RemoteTask
  repair : Option Repair
  /-- The repairs that were answered, with the `after_lsn` they were asked for. -/
  reports : List (Option Nat × WalRemoteRepairReport)
  /-- What each replica has received. -/
  received : Nat → List WalRecord

def RemoteState.localRecords (s : RemoteState) : List WalRecord :=
  readRecordsIncludingArchives s.archived s.active

/-- The replicas of a shard. -/
structure RemoteConfig where
  shard : Nat
  replicas : List WalRemoteReplica
  ackPolicy : WalRemoteAckPolicy

/-- Segments, answers of replicas, and the steps of a repair. -/
inductive RemoteEvent where
  /-- A segment is appended and sent; or its write fails with these records in the
  file, and it is not sent. -/
  | append (records : List WalRecord) (written : Bool)
  /-- The request of the task at `task` ends. -/
  | complete (task : Nat) (outcome : RemoteOutcome)
  | repairBegin (afterLsn : Option Nat)
  /-- The repair turns to the next replica; `outcome` is for a request it makes. -/
  | repairReplica (outcome : RemoteOutcome)
  | repairEnd

/-- A replica receives a batch. -/
def receive (received : Nat → List WalRecord) (index : Nat) (records : List WalRecord) :
    Nat → List WalRecord :=
  Function.update received index (received index ++ records)

/-- The LSNs of a segment ascend, and are above those of the local records: they
are allocated and queued under the lock of the shard. -/
def AppendsInOrder (s : RemoteState) (records : List WalRecord) : Prop :=
  records.Pairwise (fun a b => a.lsn < b.lsn) ∧ ∀ r ∈ records, highestLsnOf s.localRecords < r.lsn

variable (cfg : RemoteConfig)

/-- Starts the task of one replica. -/
def startRemoteTask (records : List WalRecord) (s : RemoteState)
    (replica : WalRemoteReplica × Nat) :
    RemoteState :=
  let endpoint := remoteReplicationEndpoint replica.1.url
  { s with
    status := noteRemoteAttempt s.status replica.2 endpoint
    inFlight := s.inFlight ++ [⟨replica.2, endpoint, records⟩] }

/-- A task for each replica. -/
def replicateRemoteRecords (s : RemoteState) (records : List WalRecord) : RemoteState :=
  if cfg.replicas.isEmpty || records.isEmpty then s
  else cfg.replicas.zipIdx.foldl (startRemoteTask records) s

def appendSegment (s : RemoteState) (records : List WalRecord) (written : Bool) : RemoteState :=
  let s := { s with active := s.active ++ records }
  if written then replicateRemoteRecords cfg s records else s

def completeTask (s : RemoteState) (task : RemoteTask) (outcome : RemoteOutcome) : RemoteState :=
  match outcome with
  | .acked =>
    { s with
      status := noteRemoteSuccess s.status task.index task.endpoint (lastLsn task.records)
      received := receive s.received task.index task.records }
  | .failed received message =>
    { s with
      status := noteRemoteFailure s.status task.index task.endpoint message
      received := if received then receive s.received task.index task.records else s.received }

/-- The acknowledged LSN of a replica when the repair began. -/
def Repair.beforeAckedLsn (repair : Repair) (index : Nat) (endpoint : String) : Nat :=
  (((repair.startingStatus[index]?).filter fun status => status.url = endpoint).map (·.highestAckedLsn)).getD 0

/-- The local records of the shard that a replica is sent. -/
def Repair.missingRecords (repair : Repair) (shard index : Nat) (endpoint : String) :
    List WalRecord :=
  repair.records.filter fun record =>
    record.shard = shard ∧ record.lsn > repair.afterLsn.getD (repair.beforeAckedLsn index endpoint)

/-- The body of the repair's loop over the replicas. -/
def repairOne (s : RemoteState) (repair : Repair) (index : Nat) (replica : WalRemoteReplica)
    (outcome : RemoteOutcome) : RemoteState :=
  let endpoint := remoteReplicationEndpoint replica.url
  let beforeAckedLsn := repair.beforeAckedLsn index endpoint
  let missing := repair.missingRecords cfg.shard index endpoint
  if missing.isEmpty then
    { s with repair := some { repair with
        repairedReplicas := repair.repairedReplicas + 1
        replicas := repair.replicas ++ [⟨endpoint, true, beforeAckedLsn, beforeAckedLsn, 0, none⟩] } }
  else
    let s := { s with status := noteRemoteAttempt s.status index endpoint }
    match outcome with
    | .acked =>
      let afterAckedLsn := lastLsn missing
      { s with
        status := noteRemoteSuccess s.status index endpoint afterAckedLsn
        received := receive s.received index missing
        repair := some { repair with
          repairedReplicas := repair.repairedReplicas + 1
          recordsSent := repair.recordsSent + missing.length
          replicas := repair.replicas ++ [⟨endpoint, true, beforeAckedLsn, afterAckedLsn, missing.length, none⟩] } }
    | .failed received message =>
      { s with
        status := noteRemoteFailure s.status index endpoint message
        received := if received then receive s.received index missing else s.received
        repair := some { repair with
          replicas := repair.replicas ++ [⟨endpoint, false, beforeAckedLsn, beforeAckedLsn, 0, some message⟩] } }

def Repair.report (repair : Repair) : WalRemoteRepairReport :=
  let requiredAcks := requiredRemoteAcks cfg.ackPolicy cfg.replicas.length
  { shard := cfg.shard
    remoteAckPolicy := cfg.ackPolicy
    remoteRequiredAcks := requiredAcks
    remoteReplicaCount := cfg.replicas.length
    repairedReplicas := repair.repairedReplicas
    recordsSent := repair.recordsSent
    highestLsn := highestLsnOf repair.records
    satisfied := requiredAcks ≤ repair.repairedReplicas
    replicas := repair.replicas }

/-- One step of the writer (which works on one command at a time), or the end of
one of its requests. -/
inductive RemoteStep : RemoteState → RemoteEvent → RemoteState → Prop where
  | append {s records written} : s.repair = none → AppendsInOrder s records →
    RemoteStep s (.append records written) (appendSegment cfg s records written)
  | complete {s task outcome} {t : RemoteTask} : s.inFlight[task]? = some t →
    RemoteStep s (.complete task outcome) (completeTask { s with inFlight := s.inFlight.eraseIdx task } t outcome)
  | repairBegin {s afterLsn} : s.repair = none →
    RemoteStep s (.repairBegin afterLsn)
      { s with repair := some ⟨afterLsn, s.localRecords, s.status, 0, 0, []⟩ }
  | repairReplica {s outcome repair replica} : s.repair = some repair →
    cfg.replicas[repair.replicas.length]? = some replica →
    RemoteStep s (.repairReplica outcome) (repairOne cfg s repair repair.replicas.length replica outcome)
  | repairEnd {s repair} : s.repair = some repair → repair.replicas.length = cfg.replicas.length →
    RemoteStep s .repairEnd
      { s with repair := none, reports := s.reports ++ [(repair.afterLsn, repair.report cfg)] }

/-- A server that has just started: no replica has acknowledged anything. -/
structure Started (s : RemoteState) : Prop where
  lsns : ∀ r ∈ s.localRecords, 0 < r.lsn
  status : s.status = cfg.replicas.map fun replica =>
    ⟨remoteReplicationEndpoint replica.url, true, 0, none, 0, 0⟩
  idle : s.inFlight = [] ∧ s.repair = none ∧ s.reports = []

/-- The replica has, or is being sent, every local record of the shard up to the
end of the batch. -/
def LeavesNoGap (s : RemoteState) (index : Nat) (batch : List WalRecord) : Prop :=
  ∀ r ∈ s.localRecords, r.shard = cfg.shard → r.lsn ≤ lastLsn batch → r ∈ s.received index ∨ r ∈ batch

/-- A replica acknowledges a segment, or a repair from an explicit LSN, only when
that leaves no gap. -/
def AcksInOrder (s : RemoteState) : RemoteEvent → Prop
  | .complete task .acked => ∀ t, s.inFlight[task]? = some t → LeavesNoGap cfg s t.index t.records
  | .repairReplica .acked => ∀ repair replica, s.repair = some repair → repair.afterLsn ≠ none →
    cfg.replicas[repair.replicas.length]? = some replica →
    LeavesNoGap cfg s repair.replicas.length (repair.missingRecords cfg.shard
      repair.replicas.length (remoteReplicationEndpoint replica.url))
  | _ => True

/-! ## What a replica has -/

variable {cfg}

/-- The replica has every local record of the shard up to an LSN. -/
def Covered (cfg : RemoteConfig) (s : RemoteState) (index n : Nat) : Prop :=
  ∀ r ∈ s.localRecords, r.shard = cfg.shard → r.lsn ≤ n → r ∈ s.received index

/-- The local records grow above the highest LSN only, and replicas lose nothing. -/
structure Grows (s t : RemoteState) : Prop where
  local_mem : ∀ r ∈ t.localRecords, r ∈ s.localRecords ∨ highestLsnOf s.localRecords < r.lsn
  highest : highestLsnOf s.localRecords ≤ highestLsnOf t.localRecords
  received : ∀ index, ∀ r ∈ s.received index, r ∈ t.received index

variable {s t : RemoteState} {index j : Nat} {records : List WalRecord}
    {status : List WalRemoteReplicaStatus}
  {repair : Repair} {n : Nat} {received : Nat → List WalRecord} {r : WalRecord} {endpoint : String}
    {u : RemoteState}

theorem Covered.grows (h : Covered cfg s index n) (hn : n ≤ highestLsnOf s.localRecords)
    (hg : Grows s t) :
    Covered cfg t index n := by
  intro r hr hshard hle
  rcases hg.local_mem r hr with hr | hlt
  · exact hg.received index r (h r hr hshard hle)
  · omega

theorem mem_receive : r ∈ receive received index records j ↔ r ∈ received j ∨ j = index ∧
    r ∈ records := by
  unfold receive
  rcases eq_or_ne j index with rfl | hne
  · simp
  · simp [hne]

theorem mem_receive_if {b : Bool} (h : r ∈ received j) :
    r ∈ (if b then receive received index records else received) j := by
  split
  · exact mem_receive.mpr (.inl h)
  · exact h

theorem Grows.of_eq (ha : t.archived = s.archived) (hl : t.active = s.active)
    (hr : ∀ index, ∀ r ∈ s.received index, r ∈ t.received index) : Grows s t := by
  have h : t.localRecords = s.localRecords := by rw [RemoteState.localRecords, ha, hl]; rfl
  exact ⟨fun r hr => .inl (h ▸ hr), by rw [h], hr⟩

/-- An acknowledgement that leaves no gap covers the replica up to its end. -/
theorem Covered.receive {s : RemoteState} {index n : Nat} {batch : List WalRecord}
    (h : Covered cfg s index n)
    (hgap : LeavesNoGap cfg s index batch) {t : RemoteState} (hl : t.localRecords = s.localRecords)
    (hr : t.received = receive s.received index batch) :
    Covered cfg t index (max n (lastLsn batch)) := by
  intro r hmem hshard hle
  rw [hl] at hmem
  rw [hr, mem_receive]
  rcases le_max_iff.mp hle with hle | hle
  · exact .inl (h r hmem hshard hle)
  · exact (hgap r hmem hshard hle).imp_right fun hb => ⟨rfl, hb⟩

/-! ## The status -/

/-- The acknowledged LSNs of a status are those of another. -/
def SameAcked (status status' : List WalRemoteReplicaStatus) : Prop :=
  ∀ (j : Nat) (st : WalRemoteReplicaStatus), status'[j]? = some st →
    ∃ st', status[j]? = some st' ∧ st.highestAckedLsn = st'.highestAckedLsn

theorem SameAcked.refl (status : List WalRemoteReplicaStatus) : SameAcked status status :=
  fun _ st h => ⟨st, h, rfl⟩

theorem SameAcked.trans {a b c : List WalRemoteReplicaStatus} (h : SameAcked a b)
    (h' : SameAcked b c) :
    SameAcked a c := by
  intro j st hj
  obtain ⟨st', hs', he'⟩ := h' j st hj
  obtain ⟨st'', hs'', he''⟩ := h j st' hs'
  exact ⟨st'', hs'', he'.trans he''⟩

theorem noteRemoteAttempt_sameAcked (status : List WalRemoteReplicaStatus) (index : Nat)
    (endpoint : String) :
    SameAcked status (noteRemoteAttempt status index endpoint) := by
  intro j st h
  rw [noteRemoteAttempt, getElem?_modify] at h
  obtain ⟨st', hs, rfl⟩ := map_eq_some_iff.mp h
  exact ⟨st', hs, by split <;> rfl⟩

theorem noteRemoteFailure_sameAcked (status : List WalRemoteReplicaStatus) (index : Nat)
    (endpoint error : String) :
    SameAcked status (noteRemoteFailure status index endpoint error) := by
  intro j st h
  rw [noteRemoteFailure, getElem?_modify] at h
  obtain ⟨st', hs, rfl⟩ := map_eq_some_iff.mp h
  exact ⟨st', hs, by split <;> rfl⟩

theorem noteRemoteSuccess_some {st : WalRemoteReplicaStatus}
    (h : (noteRemoteSuccess status index endpoint n)[j]? = some st) :
    ∃ st', status[j]? = some st' ∧ (j ≠ index ∧
    st.highestAckedLsn = st'.highestAckedLsn ∨ j = index ∧
    st.highestAckedLsn = max st'.highestAckedLsn n) := by
  rw [noteRemoteSuccess, getElem?_modify] at h
  obtain ⟨st', hs, rfl⟩ := map_eq_some_iff.mp h
  refine ⟨st', hs, ?_⟩
  split
  · next he => exact .inr ⟨he.symm, rfl⟩
  · next he => exact .inl ⟨fun h => he h.symm, rfl⟩

/-- What sending a segment changes: attempts are noted and tasks are started. -/
structure Sends (s t : RemoteState) (records : List WalRecord) : Prop where
  files : t.archived = s.archived ∧ t.active = s.active
  rest : t.repair = s.repair ∧ t.reports = s.reports ∧ t.received = s.received
  status : SameAcked s.status t.status
  inFlight : ∀ task ∈ t.inFlight, task ∈ s.inFlight ∨ task.records = records

theorem Sends.refl (s : RemoteState) (records : List WalRecord) : Sends s s records :=
  ⟨⟨rfl, rfl⟩, ⟨rfl, rfl, rfl⟩, .refl _, fun _ h => .inl h⟩

theorem Sends.trans (h : Sends s t records) (h' : Sends t u records) : Sends s u records where
  files := ⟨h'.files.1.trans h.files.1, h'.files.2.trans h.files.2⟩
  rest := ⟨h'.rest.1.trans h.rest.1, h'.rest.2.1.trans h.rest.2.1, h'.rest.2.2.trans h.rest.2.2⟩
  status := h.status.trans h'.status
  inFlight task ht := (h'.inFlight task ht).elim (h.inFlight task) .inr

theorem startRemoteTask_sends (records : List WalRecord) (s : RemoteState)
    (replica : WalRemoteReplica × Nat) :
    Sends s (startRemoteTask records s replica) records := by
  refine ⟨⟨rfl, rfl⟩, ⟨rfl, rfl, rfl⟩, noteRemoteAttempt_sameAcked _ _ _, fun task ht => ?_⟩
  rcases mem_append.mp ht with ht | ht
  · exact .inl ht
  · exact .inr (by rw [mem_singleton.mp ht])

theorem replicateRemoteRecords_sends (s : RemoteState) (records : List WalRecord) :
    Sends s (replicateRemoteRecords cfg s records) records := by
  unfold replicateRemoteRecords
  split
  · exact .refl s records
  · generalize cfg.replicas.zipIdx = replicas
    induction replicas generalizing s with
    | nil => exact .refl s records
    | cons replica replicas ih => exact (startRemoteTask_sends records s replica).trans (ih _)

/-! ## The invariant -/

/-- Every acknowledged LSN covers its replica. -/
def StatusCovered (cfg : RemoteConfig) (s : RemoteState) (status : List WalRemoteReplicaStatus) :
    Prop :=
  ∀ i st, status[i]? = some st → Covered cfg s i st.highestAckedLsn ∧ st.highestAckedLsn ≤ highestLsnOf s.localRecords

/-- What the repair has counted so far is covered. -/
structure RepairCovered (cfg : RemoteConfig) (s : RemoteState) (repair : Repair) : Prop where
  records : repair.records = s.localRecords
  starting : StatusCovered cfg s repair.startingStatus
  replicas : repair.afterLsn = none → ∀ i rep, repair.replicas[i]? = some rep → rep.ok →
    Covered cfg s i (highestLsnOf s.localRecords)

/-- A report holds: the replicas it calls ok have every record up to its highest LSN. -/
def ReportHolds (cfg : RemoteConfig) (s : RemoteState) (report : WalRemoteRepairReport) : Prop :=
  report.highestLsn ≤ highestLsnOf s.localRecords ∧
    ∀ i rep, report.replicas[i]? = some rep → rep.ok → Covered cfg s i report.highestLsn

/-- What the status says of a replica, the replica has. -/
structure RemoteInv (cfg : RemoteConfig) (s : RemoteState) : Prop where
  lsns : ∀ r ∈ s.localRecords, 0 < r.lsn
  status : StatusCovered cfg s s.status
  inFlight : ∀ task ∈ s.inFlight, lastLsn task.records ≤ highestLsnOf s.localRecords
  repair : ∀ repair, s.repair = some repair → RepairCovered cfg s repair
  reports : ∀ report, (none, report) ∈ s.reports → ReportHolds cfg s report

theorem StatusCovered.grows {status' : List WalRemoteReplicaStatus} (h : StatusCovered cfg s status)
    (hg : Grows s t) (hs : SameAcked status status') : StatusCovered cfg t status' := by
  intro i st hi
  obtain ⟨st', hst, he⟩ := hs i st hi
  obtain ⟨hc, hle⟩ := h i st' hst
  rw [he]
  exact ⟨hc.grows hle hg, hle.trans hg.highest⟩

theorem StatusCovered.grows_self (h : StatusCovered cfg s status) (hg : Grows s t) :
    StatusCovered cfg t status :=
  h.grows hg (.refl status)

theorem ReportHolds.grows {report : WalRemoteRepairReport} (h : ReportHolds cfg s report)
    (hg : Grows s t) :
    ReportHolds cfg t report :=
  ⟨h.1.trans hg.highest, fun i rep hi hok => (h.2 i rep hi hok).grows h.1 hg⟩

theorem RepairCovered.grows (h : RepairCovered cfg s repair) (hg : Grows s t)
    (hl : t.localRecords = s.localRecords) :
    RepairCovered cfg t repair where
  records := h.records.trans hl.symm
  starting := h.starting.grows_self hg
  replicas hn i rep hi hok := by
    rw [hl]
    exact (h.replicas hn i rep hi hok).grows le_rfl hg

/-- The batch of an acknowledgement that leaves no gap, noted. -/
theorem StatusCovered.acked {batch : List WalRecord} (h : StatusCovered cfg s status)
    (hgap : LeavesNoGap cfg s index batch) (hlast : lastLsn batch ≤ highestLsnOf s.localRecords)
    (hl : t.localRecords = s.localRecords) (hr : t.received = receive s.received index batch)
    (hg : Grows s t) :
    StatusCovered cfg t (noteRemoteSuccess status index endpoint (lastLsn batch)) := by
  intro i st hi
  obtain ⟨st', hst, ⟨hne, he⟩ | ⟨rfl, he⟩⟩ := noteRemoteSuccess_some hi
  · obtain ⟨hc, hle⟩ := h i st' hst
    rw [he]
    exact ⟨hc.grows hle hg, hle.trans hg.highest⟩
  · obtain ⟨hc, hle⟩ := h i st' hst
    rw [he, hl]
    exact ⟨hc.receive hgap hl hr, max_le hle hlast⟩

/-! ## Steps -/

theorem Grows.trans (h : Grows s t) (h' : Grows t u) : Grows s u where
  local_mem r hr := by
    rcases h'.local_mem r hr with hr | hlt
    · exact h.local_mem r hr
    · exact .inr (h.highest.trans_lt hlt)
  highest := h.highest.trans h'.highest
  received index r hr := h'.received index r (h.received index r hr)

theorem Sends.grows (h : Sends s t records) : Grows s t :=
  .of_eq h.files.1 h.files.2 fun _ _ hr => by rwa [h.rest.2.2]

theorem appendSegment_sends (s : RemoteState) (records : List WalRecord) (written : Bool) :
    Sends { s with active := s.active ++ records } (appendSegment cfg s records written) records := by
  unfold appendSegment
  split
  · exact replicateRemoteRecords_sends _ records
  · exact .refl _ records

theorem AppendsInOrder.grows (h : AppendsInOrder s records) :
    Grows s { s with active := s.active ++ records } := by
  have hmem : ∀ r, r ∈ readRecordsIncludingArchives s.archived (s.active ++ records) ↔ r ∈ s.localRecords ∨
      r ∈ records := fun _ => mem_readRecords_append h.1 h.2
  refine ⟨fun r hr => ((hmem r).mp hr).imp_right (h.2 r), ?_, fun _ _ hr => hr⟩
  exact highestLsnOf_le fun r hr => le_highestLsnOf ((hmem r).mpr (.inl hr))

theorem RemoteInv.append {s : RemoteState} {records : List WalRecord}
    {written : Bool} (h : RemoteInv cfg s) (hnone : s.repair = none)
    (hrecords : AppendsInOrder s records) :
    RemoteInv cfg (appendSegment cfg s records written) := by
  have hsends := @appendSegment_sends cfg s records written
  have hg : Grows s (appendSegment cfg s records written) := hrecords.grows.trans hsends.grows
  refine ⟨fun r hr => ?_, h.status.grows hg hsends.status, fun task htask => ?_, fun repair hrepair => ?_,
    fun report hreport => ?_⟩
  · exact (hg.local_mem r hr).elim (h.lsns r) fun hlt => Nat.zero_lt_of_lt hlt
  · rcases hsends.inFlight task htask with htask | he
    · exact (h.inFlight task htask).trans hg.highest
    · rw [he]
      refine lastLsn_le fun r hr => le_highestLsnOf ?_
      rw [RemoteState.localRecords, hsends.files.1, hsends.files.2]
      exact (mem_readRecords_append hrecords.1 hrecords.2).mpr (.inr hr)
  · rw [hsends.rest.1, hnone] at hrepair
    cases hrepair
  · rw [hsends.rest.2.1] at hreport
    exact (h.reports report hreport).grows hg

theorem RemoteInv.complete {s : RemoteState}
    {task : Nat} {outcome : RemoteOutcome} {t : RemoteTask} (h : RemoteInv cfg s)
    (ht : s.inFlight[task]? = some t)
    (hgap : outcome = .acked → LeavesNoGap cfg s t.index t.records) :
    RemoteInv cfg (completeTask { s with inFlight := s.inFlight.eraseIdx task } t outcome) := by
  have hflight : ∀ task' ∈ s.inFlight.eraseIdx task, lastLsn task'.records ≤ highestLsnOf s.localRecords :=
    fun task' hmem => h.inFlight task' (mem_of_mem_eraseIdx hmem)
  cases outcome with
  | acked =>
    have hg : Grows s (completeTask { s with inFlight := s.inFlight.eraseIdx task } t .acked) :=
      .of_eq rfl rfl fun _ _ hr => mem_receive.mpr (.inl hr)
    have hlast := h.inFlight t (mem_of_getElem? ht)
    exact ⟨h.lsns, h.status.acked (hgap rfl) hlast rfl rfl hg, hflight, fun repair hrepair =>
      (h.repair repair hrepair).grows hg rfl, fun report hreport => (h.reports report hreport).grows hg⟩
  | failed received message =>
    have hg : Grows s (completeTask { s with inFlight := s.inFlight.eraseIdx task } t (.failed received message)) :=
        .of_eq rfl rfl fun _ _ hr => mem_receive_if hr
    exact ⟨h.lsns, h.status.grows hg (noteRemoteFailure_sameAcked _ _ _ _), hflight, fun repair hrepair =>
      (h.repair repair hrepair).grows hg rfl, fun report hreport => (h.reports report hreport).grows hg⟩

theorem RemoteInv.repairBegin (h : RemoteInv cfg s) (afterLsn : Option Nat) :
    RemoteInv cfg { s with repair := some ⟨afterLsn, s.localRecords, s.status, 0, 0, []⟩ } := by
  refine ⟨h.lsns, h.status, h.inFlight, fun repair hrepair => ?_, h.reports⟩
  cases hrepair
  exact ⟨rfl, h.status, fun _ _ _ h => nomatch h⟩

/-- The acknowledged LSN that a repair starts from covers the replica. -/
theorem RepairCovered.before (h : RepairCovered cfg s repair) (index : Nat) (endpoint : String)
    (hpos : ∀ r ∈ s.localRecords, 0 < r.lsn) :
    Covered cfg s index (repair.beforeAckedLsn index endpoint) := by
  unfold Repair.beforeAckedLsn
  cases hs : (repair.startingStatus[index]?).filter fun status => status.url = endpoint with
  | none =>
    intro r hr _ hle
    exact absurd (hpos r hr) (Nat.not_lt.mpr hle)
  | some status => exact (h.starting index status (filter_eq_some_iff.mp hs).1).1

/-- What a repair sends a replica, on top of what it acknowledged, leaves no gap. -/
theorem RepairCovered.leavesNoGap (h : RepairCovered cfg s repair) (hnone : repair.afterLsn = none)
    (index : Nat)
    (endpoint : String) (hpos : ∀ r ∈ s.localRecords, 0 < r.lsn) :
    ∀ r ∈ s.localRecords, r.shard = cfg.shard →
    r ∈ s.received index ∨ r ∈ repair.missingRecords cfg.shard index endpoint := by
  intro r hr hshard
  rcases Nat.lt_or_ge (repair.beforeAckedLsn index endpoint) r.lsn with hlt | hle
  · refine .inr (mem_filter.mpr ⟨h.records ▸ hr, ?_⟩)
    rw [hnone]
    simpa using ⟨hshard, hlt⟩
  · exact .inl (h.before index endpoint hpos r hr hshard hle)

/-- The repair after another replica, with one more line in its report. -/
theorem RepairCovered.next {repair' : Repair} (h : RepairCovered cfg s repair)
    (hg : Grows s t) (hl : t.localRecords = s.localRecords) {rep : WalRemoteRepairReplicaReport}
    (hsame : repair'.afterLsn = repair.afterLsn ∧ repair'.records = repair.records ∧
    repair'.startingStatus = repair.startingStatus)
    (hreplicas : repair'.replicas = repair.replicas ++ [rep])
    (hrep : repair.afterLsn = none → rep.ok →
      Covered cfg t repair.replicas.length (highestLsnOf s.localRecords)) :
    RepairCovered cfg t repair' where
  records := hsame.2.1.trans (h.records.trans hl.symm)
  starting := hsame.2.2 ▸ h.starting.grows_self hg
  replicas hn i r hi hok := by
    rw [hsame.1] at hn
    rw [hreplicas] at hi
    rw [hl]
    rcases Nat.lt_trichotomy i repair.replicas.length with hlt | rfl | hgt
    · rw [getElem?_append_left hlt] at hi
      exact (h.replicas hn i r hi hok).grows le_rfl hg
    · rw [getElem?_concat_length] at hi
      cases hi
      exact hrep hn hok
    · rw [getElem?_eq_none (by simp; omega)] at hi
      cases hi

theorem RemoteInv.repairReplica {s : RemoteState} {repair : Repair}
    {replica : WalRemoteReplica} {outcome : RemoteOutcome} (h : RemoteInv cfg s)
    (hrepair : s.repair = some repair)
    (hgap : outcome = .acked → repair.afterLsn ≠ none → LeavesNoGap cfg s repair.replicas.length
    (repair.missingRecords cfg.shard repair.replicas.length (remoteReplicationEndpoint replica.url))) :
    RemoteInv cfg (repairOne cfg s repair repair.replicas.length replica outcome) := by
  have hr := h.repair repair hrepair
  have hsent : repair.afterLsn = none → ∀ r ∈ s.localRecords, r.shard = cfg.shard →
      r ∈ s.received repair.replicas.length ∨ r ∈ repair.missingRecords cfg.shard
        repair.replicas.length (remoteReplicationEndpoint replica.url) :=
    fun hnone => hr.leavesNoGap hnone _ _ h.lsns
  simp only [repairOne]
  generalize remoteReplicationEndpoint replica.url = endpoint at hgap hsent ⊢
  split
  · next hempty =>
    rw [List.isEmpty_iff] at hempty
    refine ⟨h.lsns, h.status, h.inFlight, fun repair' he => ?_, h.reports⟩
    cases he
    refine hr.next (.of_eq rfl rfl fun _ _ hr => hr) rfl ⟨rfl, rfl, rfl⟩ rfl ?_
    intro hnone _ r hmem hshard _
    exact (hsent hnone r hmem hshard).resolve_right (by simp [hempty])
  · cases outcome with
    | acked =>
      dsimp only
      generalize hm : repair.missingRecords cfg.shard repair.replicas.length endpoint = missing at hgap hsent
      have hmissing : ∀ r ∈ missing, r ∈ s.localRecords := by
        rw [← hm]
        exact fun r hmem => hr.records ▸ mem_of_mem_filter hmem
      have hlast : lastLsn missing ≤ highestLsnOf s.localRecords :=
        lastLsn_le fun r hmem => le_highestLsnOf (hmissing r hmem)
      have hno : LeavesNoGap cfg s repair.replicas.length missing := by
        by_cases hnone : repair.afterLsn = none
        · exact fun r hmem hshard _ => hsent hnone r hmem hshard
        · exact hgap rfl hnone
      have hstatus := h.status.grows (t := s) (.of_eq rfl rfl fun _ _ hr => hr)
        (noteRemoteAttempt_sameAcked s.status repair.replicas.length endpoint)
      refine ⟨h.lsns, hstatus.acked hno hlast rfl rfl (.of_eq rfl rfl fun _ _ hr => ?_), h.inFlight,
        fun repair' he => ?_, fun report hreport => (h.reports report hreport).grows (.of_eq rfl rfl fun _ _ hr => ?_)⟩
      · exact mem_receive.mpr (.inl hr)
      · cases he
        refine hr.next (.of_eq rfl rfl fun _ _ hr => ?_) rfl ⟨rfl, rfl, rfl⟩ rfl ?_
        · exact mem_receive.mpr (.inl hr)
        · intro hnone _ r hmem hshard _
          exact mem_receive.mpr ((hsent hnone r hmem hshard).imp_right fun hb => ⟨rfl, hb⟩)
      · exact mem_receive.mpr (.inl hr)
    | failed received message =>
      dsimp only
      have hg : ∀ index, ∀ r ∈ s.received index, r ∈ (if received then
          receive s.received repair.replicas.length
            (repair.missingRecords cfg.shard repair.replicas.length endpoint) else s.received) index :=
        fun _ _ hr => mem_receive_if hr
      refine ⟨h.lsns, h.status.grows (.of_eq rfl rfl hg)
        ((noteRemoteAttempt_sameAcked _ _ _).trans (noteRemoteFailure_sameAcked _ _ _ _)), h.inFlight,
        fun repair' he => ?_, fun report hreport => (h.reports report hreport).grows (.of_eq rfl rfl hg)⟩
      cases he
      refine hr.next (.of_eq rfl rfl hg) rfl ⟨rfl, rfl, rfl⟩ rfl ?_
      intro _ hok
      cases hok

theorem RemoteInv.repairEnd (h : RemoteInv cfg s) (hrepair : s.repair = some repair) :
    RemoteInv cfg { s with repair := none, reports := s.reports ++ [(repair.afterLsn,
    repair.report cfg)] } := by
  have hr := h.repair repair hrepair
  refine ⟨h.lsns, h.status, h.inFlight, (fun _ h => nomatch h), fun report hreport => ?_⟩
  rcases mem_append.mp hreport with hreport | hreport
  · exact h.reports report hreport
  · obtain ⟨hnone, rfl⟩ := Prod.mk.inj (mem_singleton.mp hreport)
    have hh : (repair.report cfg).highestLsn = highestLsnOf s.localRecords :=
      congrArg highestLsnOf hr.records
    exact ⟨hh.le, fun i rep hi hok => hh ▸ hr.replicas hnone.symm i rep hi hok⟩

theorem RemoteInv.step {e : RemoteEvent} (h : RemoteInv cfg s) (hacks : AcksInOrder cfg s e)
    (hstep : RemoteStep cfg s e t) : RemoteInv cfg t := by
  cases hstep with
  | append hnone hrecords => exact h.append hnone hrecords
  | complete ht =>
    refine h.complete ht fun he => ?_
    subst he
    exact hacks _ ht
  | repairBegin _ => exact h.repairBegin _
  | repairReplica hrepair hreplica =>
    refine h.repairReplica hrepair fun he hafter => ?_
    subst he
    exact hacks _ _ hrepair hafter hreplica
  | repairEnd hrepair _ => exact h.repairEnd hrepair

theorem Started.inv (h : Started cfg s) : RemoteInv cfg s := by
  obtain ⟨hflight, hrepair, hreports⟩ := h.idle
  refine ⟨h.lsns, fun i st hi => ?_, by simp [hflight], by simp [hrepair], by simp [hreports]⟩
  rw [h.status, getElem?_map] at hi
  obtain ⟨replica, -, rfl⟩ := map_eq_some_iff.mp hi
  refine ⟨fun r hr _ hle => ?_, Nat.zero_le _⟩
  exact absurd (h.lsns r hr) (Nat.not_lt.mpr hle)

/-- A repair from the acknowledged LSN that reports a replica as ok left it with
every local record of the shard up to the highest LSN reported: in every run in
which a replica acknowledges a batch only when that leaves no gap before its end. -/
theorem repair_complete {s t : RemoteState} (hs : Started cfg s)
    (hrun : Reaches (RemoteStep cfg) (AcksInOrder cfg) s t)
    {report : WalRemoteRepairReport} (hreport : (none, report) ∈ t.reports) {i : Nat}
    {rep : WalRemoteRepairReplicaReport} (hrep : report.replicas[i]? = some rep) (hok : rep.ok) :
    ∀ r ∈ t.localRecords, r.shard = cfg.shard → r.lsn ≤ report.highestLsn → r ∈ t.received i := by
  have hinv : RemoteInv cfg t :=
    hrun.invariant (fun _ _ _ h hacks hstep => h.step hacks hstep) hs.inv
  exact (hinv.reports report hreport).2 i rep hrep hok

/-! ## Two segments, the first of which does not arrive -/

def sampleConfig : RemoteConfig := ⟨0, [⟨"http://replica", none⟩], .none⟩

def sampleRecord (lsn : Nat) : WalRecord :=
  ⟨lsn, 0, 1, "", 0, 1, .strict, .hostHttpCompleted "r" 7, none⟩

def sampleEndpoint : String := remoteReplicationEndpoint "http://replica"

def sampleStart : RemoteState where
  archived := []
  active := []
  status := [⟨sampleEndpoint, true, 0, none, 0, 0⟩]
  inFlight := []
  repair := none
  reports := []
  received := fun _ => []

theorem sampleStart_started : Started sampleConfig sampleStart :=
  ⟨(fun _ h => nomatch h), rfl, rfl, rfl, rfl⟩

/-- A segment of one record, and how sending it ends. -/
def sampleSend (s : RemoteState) (lsn : Nat) (outcome : RemoteOutcome) : RemoteState :=
  let s := appendSegment sampleConfig s [sampleRecord lsn] true
  completeTask { s with inFlight := s.inFlight.eraseIdx 0 } ⟨0, sampleEndpoint, [sampleRecord lsn]⟩ outcome

theorem sampleSend_reaches {meets : RemoteState → RemoteEvent → Prop}
    {lsn : Nat} {outcome : RemoteOutcome} (hidle : s.inFlight = [] ∧ s.repair = none)
    (hlsn : highestLsnOf s.localRecords < lsn) (happend : meets s (.append [sampleRecord lsn] true))
    (hmeets : meets (appendSegment sampleConfig s [sampleRecord lsn] true) (.complete 0 outcome)) :
    Reaches (RemoteStep sampleConfig) meets s (sampleSend s lsn outcome) := by
  have hrecords : AppendsInOrder s [sampleRecord lsn] :=
    ⟨pairwise_singleton _ _, fun r hr => by rwa [mem_singleton.mp hr]⟩
  have htask : (appendSegment sampleConfig s [sampleRecord lsn] true).inFlight =
      [⟨0, sampleEndpoint, [sampleRecord lsn]⟩] := by
    show s.inFlight ++ _ = _
    rw [hidle.1]
    rfl
  refine ((Reaches.refl s).tail happend (.append hidle.2 hrecords)).tail hmeets (.complete ?_)
  rw [htask]
  rfl

/-- The repair of the one replica, from the acknowledged LSN. -/
def sampleRepair (s : RemoteState) : RemoteState :=
  let repair : Repair := ⟨none, s.localRecords, s.status, 0, 0, []⟩
  repairOne sampleConfig { s with repair := some repair } repair 0 ⟨"http://replica", none⟩ .acked

/-- The answer to that repair. -/
def sampleAnswer (s : RemoteState) (repair : Repair) : RemoteState :=
  { s with repair := none, reports := s.reports ++ [(repair.afterLsn, repair.report sampleConfig)] }

theorem sampleRepair_reaches {meets : RemoteState → RemoteEvent → Prop} {s t : RemoteState}
    {repair : Repair}
    (hnone : t.repair = none) (h : Reaches (RemoteStep sampleConfig) meets s t)
    (hbegin : meets t (.repairBegin none))
    (hacked : meets { t with repair := some ⟨none, t.localRecords, t.status, 0, 0,
      []⟩ } (.repairReplica .acked))
    (hrepair : (sampleRepair t).repair = some repair) (hdone : repair.replicas.length = 1)
    (hend : meets (sampleRepair t) .repairEnd) :
    Reaches (RemoteStep sampleConfig) meets s (sampleAnswer (sampleRepair t) repair) :=
  ((h.tail hbegin (.repairBegin hnone)).tail hacked (.repairReplica rfl rfl)).tail hend (.repairEnd hrepair hdone)

def sampleReport (recordsSent : Nat) (rep : WalRemoteRepairReplicaReport) : WalRemoteRepairReport :=
  ⟨0, .none, 0, 1, 1, recordsSent, 2, true, [rep]⟩

/-- The second segment does not arrive: the repair sends it. -/
theorem repair_complete_sample :
    let t := sampleRepair (sampleSend (sampleSend sampleStart 1 .acked) 2 (.failed false "refused"))
    ∀ r ∈ t.localRecords, r.shard = 0 → r.lsn ≤ 2 → r ∈ t.received 0 := by
  intro t
  let s1 := sampleSend sampleStart 1 .acked
  let s2 := sampleSend s1 2 (.failed false "refused")
  let rep : WalRemoteRepairReplicaReport := ⟨sampleEndpoint, true, 1, 2, 1, none⟩
  let repair : Repair := ⟨none, s2.localRecords, s2.status, 1, 1, [rep]⟩
  have h1 : Reaches (RemoteStep sampleConfig) (AcksInOrder sampleConfig) sampleStart s1 := by
    refine sampleSend_reaches ⟨rfl, rfl⟩ (by decide) trivial fun t ht => ?_
    cases ht
    exact fun r hr _ _ => .inr hr
  have h2 : Reaches (RemoteStep sampleConfig) (AcksInOrder sampleConfig) s1 s2 :=
    sampleSend_reaches ⟨rfl, rfl⟩ (by decide) trivial trivial
  have hrun := @sampleRepair_reaches _ _ _ repair rfl (h1.trans h2) trivial
    (fun repair' _ h hne => by cases h; exact absurd rfl hne) rfl rfl trivial
  have hreport : (none, sampleReport 1 rep) ∈ (sampleAnswer t repair).reports := mem_cons_self
  have hrep : (sampleReport 1 rep).replicas[0]? = some rep := rfl
  exact repair_complete sampleStart_started hrun hreport hrep rfl

/-- The first segment does not arrive, and the second does: the repair sends
nothing, and reports the replica as ok. -/
theorem repair_gap_sample : ∃ t report rep, Started sampleConfig sampleStart ∧
    Reaches (RemoteStep sampleConfig)
    (fun _ _ => True) sampleStart t ∧ (none, report) ∈ t.reports ∧ report.replicas[0]? = some rep ∧
    rep.ok ∧
    ∃ r ∈ t.localRecords, r.shard = sampleConfig.shard ∧ r.lsn ≤ report.highestLsn ∧
    r ∉ t.received 0 := by
  let s1 := sampleSend sampleStart 1 (.failed false "refused")
  let s2 := sampleSend s1 2 .acked
  let rep : WalRemoteRepairReplicaReport := ⟨sampleEndpoint, true, 2, 2, 0, none⟩
  let repair : Repair := ⟨none, s2.localRecords, s2.status, 1, 0, [rep]⟩
  have h1 : Reaches (RemoteStep sampleConfig) (fun _ _ => True) sampleStart s1 :=
    sampleSend_reaches ⟨rfl, rfl⟩ (by decide) trivial trivial
  have h2 : Reaches (RemoteStep sampleConfig) (fun _ _ => True) s1 s2 :=
    sampleSend_reaches ⟨rfl, rfl⟩ (by decide) trivial trivial
  have hrun := @sampleRepair_reaches _ _ _ repair rfl (h1.trans h2) trivial trivial rfl rfl trivial
  refine ⟨_, sampleReport 0 rep, rep, sampleStart_started, hrun, mem_cons_self, rfl, rfl, sampleRecord 1, ?_, rfl,
    by decide, ?_⟩
  · exact mem_cons_self
  · show sampleRecord 1 ∉ [sampleRecord 2]
    rw [mem_singleton]
    exact fun h => absurd (congrArg WalRecord.lsn h) (by decide)

end NextDb.Wal.Remote
