import NextDb.Api.Topology
import NextDb.Wal.Remote

/-!
# Handing a shard over

The owner of a shard freezes it, waits until the target has acknowledged the highest LSN of
the shard, and commits a topology in which the target is the owner. A writer checks the owner
and the freeze before it appends, and no lock holds the checks and the append together. The
acknowledged LSN of a replica is a maximum, which says nothing of the segments before it.

* `handoff_complete`: when replicas acknowledge segments in order, the node owns the shard
  whenever it appends, and the target is still caught up at the commit, an applied handoff has
  lost no acknowledged record.
-/

namespace NextDb.Api.Handoff

open Run Wal Wal.Remote List Option Function

structure ShardControl where
  shard : Nat
  frozen : Bool
  reason : Option String

/-- How far a workflow has come. -/
inductive HandoffWorkflowPhase where
  | waitingForCatchUp
  | readyToReconfigure
  | applied
  | aborted
deriving DecidableEq

/-- The times of the creation and of the last update are left out. -/
structure HandoffWorkflow where
  id : String
  shard : Nat
  currentOwner : String
  targetOwner : String
  currentEpoch : Nat
  nextEpoch : Nat
  phase : HandoffWorkflowPhase
  currentShardLsn : Nat
  targetAckedLsn : Nat
  lastError : Option String
  requiredEnv : BTreeMap String String

structure HandoffPlanRequest where
  shard : Nat
  targetOwner : String

structure HandoffPlanResponse where
  shard : Nat
  currentOwner : String
  targetOwner : String
  targetOwnerUrl : Option String
  currentEpoch : Nat
  nextEpoch : Nat
  currentShardLsn : Nat
  targetAckedLsn : Nat
  targetCaughtUp : Bool
  frozen : Bool
  ready : Bool
  requiredEnv : BTreeMap String String
  steps : List String

/-- The node, its shard, and how many shards it has. -/
structure HandoffConfig where
  cluster : ClusterConfig
  remote : RemoteConfig
  walShards : Nat
  enforceOwnership : Bool

variable (cfg : HandoffConfig)

/-! ## What the node reads -/

variable (overrides : Overrides)

def HandoffConfig.owner : String :=
  cfg.cluster.ownerForShardWithOverrides cfg.remote.shard overrides

def HandoffConfig.epoch : Nat :=
  cfg.cluster.epochForShardWithOverrides cfg.remote.shard overrides

/-- `latest_lsn_for_shard`. -/
def latestLsnForShard (records : List WalRecord) (shard : Nat) : Nat :=
  highestLsnOf (records.filter (·.shard = shard))

/-- `remote_ack_lsn_for_url`. `remoteReplicationEndpoint` is `normalize_replication_url`. -/
def remoteAckLsnForUrl (status : List WalRemoteReplicaStatus) (targetUrl : String) : Option Nat :=
  ((status.filter (·.url = remoteReplicationEndpoint targetUrl)).map (·.highestAckedLsn)).max?

def targetAckedLsn (status : List WalRemoteReplicaStatus) (targetOwner : String) : Nat :=
  ((cfg.cluster.nodeUrlFor targetOwner).bind (remoteAckLsnForUrl status)).getD 0

/-- `writable_wal_shard_for_index`. -/
def ensureWritable : Except ApiError Unit :=
  if cfg.enforceOwnership ∧ cfg.owner overrides ≠ cfg.cluster.nodeId then
    .error (.ownerConflict cfg.remote.shard (cfg.owner overrides)
      ((cfg.cluster.nodeUrlFor (cfg.owner overrides)).getD "unknown"))
  else .ok ()

def ensureShardNotFrozen (control : Option ShardControl) (shard : Nat) : Except ApiError Unit :=
  match control.filter (·.frozen) with
  | some control =>
    let reason := (control.reason.map fun reason => s!": {reason}").getD ""
    .error (.locked s!"shard {shard} is frozen{reason}")
  | none => .ok ()

/-! ## The plan -/

def handoffTargetReplicas (cluster : ClusterConfig) (shard : Nat) (overrides : Overrides)
    (currentOwner targetOwner : String) : List String :=
  let replicas := (cluster.replicasForShardWithOverrides shard overrides).foldl (fun replicas replica =>
      if replica ≠ targetOwner ∧ replica ∉ replicas then replicas ++ [replica] else replicas) []
  if !currentOwner.isEmpty ∧ currentOwner ∉ replicas then replicas ++ [currentOwner] else replicas

/-- The checks of `compute_handoff_plan`, up to the owner. -/
def checkHandoffTarget (request : HandoffPlanRequest) : Except ApiError Unit :=
  if cfg.walShards ≤ request.shard then .error (.badRequest "shard is out of range")
  else if (trim request.targetOwner).isEmpty then .error (.badRequest "targetOwner is required")
  else if cfg.owner overrides = request.targetOwner then
    .error (.badRequest "targetOwner is already the owner")
  else .ok ()

/-- The rest of `compute_handoff_plan`, from what it has read. -/
def handoffPlan (request : HandoffPlanRequest) (currentOwner : String)
    (currentEpoch currentShardLsn targetAckedLsn : Nat) (frozen : Bool)
    (targetReplicas : List String) :
    HandoffPlanResponse :=
  let nextEpoch := currentEpoch + 1
  let targetCaughtUp := decide (currentShardLsn ≤ targetAckedLsn)
  let replicas := "|".intercalate targetReplicas
  { shard := request.shard
    currentOwner
    targetOwner := request.targetOwner
    targetOwnerUrl := cfg.cluster.nodeUrlFor request.targetOwner
    currentEpoch
    nextEpoch
    currentShardLsn
    targetAckedLsn
    targetCaughtUp
    frozen
    ready := frozen && targetCaughtUp
    requiredEnv := .ofList [("NEXTDB_SHARD_OWNERS", s!"{request.shard}={request.targetOwner}"),
      ("NEXTDB_SHARD_EPOCHS", s!"{request.shard}={nextEpoch}"),
      ("NEXTDB_SHARD_REPLICAS", s!"{request.shard}={replicas}")]
    steps := [s!"Freeze shard {request.shard} on current owner {currentOwner}.",
      s!"Wait until target owner {request.targetOwner} has acknowledged LSN {currentShardLsn}.",
      s!"Restart or reconfigure every node with shard {request.shard} owner={request.targetOwner} epoch={nextEpoch} replicas={replicas}.",
      s!"Unfreeze shard {request.shard} on the new owner."] }

/-! ## The workflow -/

/-- The workflow that `start_handoff_workflow` stores. -/
def HandoffPlanResponse.workflow (plan : HandoffPlanResponse) (id : String) : HandoffWorkflow where
  id
  shard := plan.shard
  currentOwner := plan.currentOwner
  targetOwner := plan.targetOwner
  currentEpoch := plan.currentEpoch
  nextEpoch := plan.nextEpoch
  phase := if plan.targetCaughtUp then .readyToReconfigure else .waitingForCatchUp
  currentShardLsn := plan.currentShardLsn
  targetAckedLsn := plan.targetAckedLsn
  lastError := none
  requiredEnv := plan.requiredEnv

def HandoffWorkflow.stepped (workflow : HandoffWorkflow) (plan : HandoffPlanResponse) :
    HandoffWorkflow :=
  { workflow with
    currentShardLsn := plan.currentShardLsn
    targetAckedLsn := plan.targetAckedLsn
    requiredEnv := plan.requiredEnv
    lastError := none
    phase := if plan.ready then .readyToReconfigure else .waitingForCatchUp }

def HandoffWorkflow.abort (workflow : HandoffWorkflow) (plan : HandoffPlanResponse) :
    HandoffWorkflow :=
  { workflow with
    phase := .aborted
    lastError := some "aborted by operator"
    currentShardLsn := plan.currentShardLsn
    targetAckedLsn := plan.targetAckedLsn }

def HandoffWorkflow.apply (workflow : HandoffWorkflow) : HandoffWorkflow :=
  { workflow with phase := .applied, lastError := none }

def HandoffWorkflow.planRequest (workflow : HandoffWorkflow) : HandoffPlanRequest :=
  ⟨workflow.shard, workflow.targetOwner⟩

/-- The check of `step_handoff_workflow_inner`. -/
def HandoffWorkflow.checkStep (workflow : HandoffWorkflow) : Except ApiError Unit :=
  if workflow.phase = .aborted then .error (.conflict "handoff workflow is aborted")
  else if workflow.phase = .applied then .error (.conflict "handoff workflow is already applied")
  else .ok ()

/-- The check of `apply_handoff_workflow_inner`. -/
def HandoffWorkflow.checkApply (workflow : HandoffWorkflow) : Except ApiError Unit :=
  if workflow.phase = .readyToReconfigure then .ok ()
  else .error (.conflict "handoff workflow must be readyToReconfigure before apply")

/-- `handoff_replica_nodes`. -/
def handoffReplicaNodes (overrides : Overrides) (workflow : HandoffWorkflow) : List String :=
  let replicas := (cfg.cluster.replicasForShardWithOverrides workflow.shard overrides).foldl (fun replicas replica =>
      if replica ≠ workflow.targetOwner ∧ replica ∉ replicas then replicas ++ [replica] else replicas) []
  if workflow.currentOwner ∉ replicas then replicas ++ [workflow.currentOwner] else replicas

/-- The override that the handoff proposes. -/
def overrideRequest (overrides : Overrides) (workflow : HandoffWorkflow) :
    ApplyTopologyOverrideRequest where
  shard := workflow.shard
  owner := some workflow.targetOwner
  epoch := some workflow.nextEpoch
  replicas := some (handoffReplicaNodes cfg overrides workflow)

/-! ## Writers and calls -/

/-- What a write does next; a write of several records is several writers. -/
inductive Writer where
  | checking
  | owned
  | checked
  | fenced (shardEpoch : Nat)
  /-- The record is in the log, and the writer waits for the replicas. -/
  | appended (record : WalRecord)
  | returned (result : Except ApiError WalRecord)

/-- What a plan is made for. -/
inductive Purpose where
  | start
  | step (existing : HandoffWorkflow)
  | abort (existing : HandoffWorkflow)

/-- What a call on a workflow does next. -/
inductive HandoffCall where
  | aborting (existing : HandoffWorkflow)
  | planning (purpose : Purpose) (request : HandoffPlanRequest)
  /-- The owner, the epoch and the highest LSN are read. -/
  | measured (purpose : Purpose) (request : HandoffPlanRequest) (currentOwner : String)
      (currentEpoch currentShardLsn : Nat)
  | planned (purpose : Purpose) (plan : HandoffPlanResponse)
  /-- The shard is frozen for a new workflow. -/
  | starting (plan : HandoffPlanResponse)
  | committing (existing : HandoffWorkflow)
  | committed (existing : HandoffWorkflow)
  | unfrozen (existing : HandoffWorkflow)
  /-- The workflow is stored, and its file is to be written. -/
  | persisting (workflow : HandoffWorkflow)
  | returned (result : Except ApiError HandoffWorkflow)

/-- The node, beside what its log and its replicas' requests are: what each replica has of the
shard in its own log, and the records that the node has acknowledged. -/
structure HandoffState where
  remote : RemoteState
  stored : Nat → List WalRecord
  control : Option ShardControl
  overrides : Overrides
  workflows : BTreeMap String HandoffWorkflow
  writers : List Writer
  calls : List HandoffCall
  acknowledged : List WalRecord

def HandoffState.setWriter (s : HandoffState) (i : Nat) (writer : Writer) : HandoffState :=
  { s with writers := s.writers.set i writer }

def HandoffState.setCall (s : HandoffState) (i : Nat) (call : HandoffCall) : HandoffState :=
  { s with calls := s.calls.set i call }

def HandoffState.push (s : HandoffState) (call : HandoffCall) : HandoffState :=
  { s with calls := s.calls ++ [call] }

/-- A check of a writer, or the read of the epoch. -/
def Writer.advance (control : Option ShardControl) (overrides : Overrides) : Writer → Option Writer
  | .checking =>
    match ensureWritable cfg overrides with
    | .ok () => some .owned
    | .error err => some (.returned (.error err))
  | .owned =>
    match ensureShardNotFrozen control cfg.remote.shard with
    | .ok () => some .checked
    | .error err => some (.returned (.error err))
  | .checked => some (.fenced (cfg.epoch overrides))
  | _ => none

/-- The writers of a segment, each with its record. -/
abbrev Segment := List (Nat × WalRecord)

def setWriters (writers : List Writer) (segment : Segment) (after : WalRecord → Writer) :
    List Writer :=
  segment.foldl (fun writers entry => writers.set entry.1 (after entry.2)) writers

/-- The record is what its writer appends. -/
def Appends (s : HandoffState) (entry : Nat × WalRecord) : Prop :=
  s.writers[entry.1]? = some (.fenced entry.2.shardEpoch) ∧ entry.2.shard = cfg.remote.shard ∧
    entry.2.ownerNodeId = cfg.cluster.nodeId

/-- What a call goes on to without a change but its own. -/
inductive Moves (s : HandoffState) : HandoffCall → HandoffCall → Prop where
  | measure {purpose request}
      (hcheck : checkHandoffTarget cfg s.overrides request = .ok ()) :
    Moves s (.planning purpose request) (.measured purpose request (cfg.owner s.overrides)
      (cfg.epoch s.overrides) (latestLsnForShard s.remote.localRecords cfg.remote.shard))
  | refuse {purpose request err}
      (hcheck : checkHandoffTarget cfg s.overrides request = .error err) :
    Moves s (.planning purpose request) (.returned (.error err))
  /-- `try_status` finds the status free, or the target counts as without an acknowledgement. -/
  | plan {purpose} {request : HandoffPlanRequest} {currentOwner currentEpoch currentShardLsn status}
      (hstatus : status = s.remote.status ∨ status = []) :
    Moves s (.measured purpose request currentOwner currentEpoch currentShardLsn) (.planned purpose
      (handoffPlan cfg request currentOwner currentEpoch currentShardLsn
        (targetAckedLsn cfg status request.targetOwner) (s.control.any (·.frozen))
        (handoffTargetReplicas cfg.cluster request.shard s.overrides currentOwner request.targetOwner)))
  | finish {workflow} : Moves s (.persisting workflow) (.returned (.ok workflow))

/-- The workflow that a call is about to store; a new one under a fresh id. -/
def HandoffCall.decided (id : String) : HandoffCall → Option HandoffWorkflow
  | .starting plan => some (plan.workflow id)
  | .planned (.step existing) plan => some (existing.stepped plan)
  | .planned (.abort existing) plan => some (existing.abort plan)
  | .unfrozen existing => some existing.apply
  | _ => none

def HandoffCall.active : HandoffCall → Bool
  | .returned _ => false
  | _ => true

/-- The steps of writers, of deliveries and of workflows. -/
inductive HandoffEvent where
  | arrive
  | write (writer : Nat)
  /-- The records are in the log; they are sent to the replicas, or the write was not whole. -/
  | append (segment : Segment) (written : Bool)
  | acknowledge (writer : Nat)
  /-- The append of a writer fails, or its client is gone. -/
  | giveUp (writer : Nat)
  /-- A request to a replica ends, or a repair goes on. The replica leaves out what it skips. -/
  | remote (event : RemoteEvent) (skips : Nat → WalRecord → Bool)
  | freeze (reason : Option String)
  | unfreeze
  | start (request : HandoffPlanRequest)
  | step (id : String)
  | abort (id : String)
  | apply (id : String)
  | advance (call : Nat)
  | fail (call : Nat)

/-- What the replicas store of what they receive. -/
def store (stored received received' : Nat → List WalRecord) (skips : Nat → WalRecord → Bool)
    (i : Nat) :
    List WalRecord :=
  stored i ++ ((received' i).drop (received i).length).filter (!skips i ·)

/-- What each event does to the owner, the target and the calls. -/
inductive HandoffStep : HandoffState → HandoffEvent → HandoffState → Prop where
  | arrive {s : HandoffState} : HandoffStep s .arrive { s with writers := s.writers ++ [.checking] }
  | write {s : HandoffState} {i writer writer'} (hwriter : s.writers[i]? = some writer)
      (hadvance : writer.advance cfg s.control s.overrides = some writer') :
    HandoffStep s (.write i) (s.setWriter i writer')
  | append {s : HandoffState} {segment written remote}
      (hsegment : ∀ entry ∈ segment, Appends cfg s entry)
      (hremote : RemoteStep cfg.remote s.remote (.append (segment.map (·.2)) written) remote) :
    HandoffStep s (.append segment written)
      { s with
        remote
        writers := setWriters s.writers segment fun record =>
          if written then .appended record else .returned (.error (.internal ⟨"WAL append failed", []⟩)) }
  | acknowledge {s : HandoffState} {i : Nat} {record : WalRecord} {acked : List Nat}
      (hwriter : s.writers[i]? = some (.appended record)) (hdistinct : acked.Nodup)
      (hacked : ∀ replica ∈ acked, record ∈ s.remote.received replica)
      (henough : requiredRemoteAcks cfg.remote.ackPolicy cfg.remote.replicas.length ≤ acked.length) :
    HandoffStep s (.acknowledge i)
      ({ s with acknowledged := s.acknowledged ++ [record] }.setWriter i (.returned (.ok record)))
  | giveUp {s : HandoffState} {i writer err}
      (hwriter : s.writers[i]? = some writer) (hactive : ∀ result, writer ≠ .returned result) :
    HandoffStep s (.giveUp i) (s.setWriter i (.returned (.error err)))
  | remote {s : HandoffState} {event skips} {remote : RemoteState}
      (hother : ∀ records written, event ≠ .append records written)
      (hremote : RemoteStep cfg.remote s.remote event remote) :
    HandoffStep s (.remote event skips)
      { s with remote, stored := store s.stored s.remote.received remote.received skips }
  | freeze {s} {reason : Option String} :
    HandoffStep s (.freeze reason)
      { s with control := some ⟨cfg.remote.shard, true, reason.filter fun reason => !(trim reason).isEmpty⟩ }
  | unfreeze {s} : HandoffStep s .unfreeze { s with control := none }
  | start {s : HandoffState} {request} (hshard : request.shard = cfg.remote.shard) :
    HandoffStep s (.start request) (s.push (.planning .start request))
  | step {s : HandoffState} {id} {existing : HandoffWorkflow}
      (hexisting : s.workflows[id]? = some existing) (hcheck : existing.checkStep = .ok ()) :
    HandoffStep s (.step id) (s.push (.planning (.step existing) existing.planRequest))
  | abort {s : HandoffState} {id existing}
      (hexisting : s.workflows[id]? = some existing) :
    HandoffStep s (.abort id) (s.push (.aborting existing))
  | apply {s : HandoffState} {id existing}
      (hexisting : s.workflows[id]? = some existing) (hcheck : existing.checkApply = .ok ()) :
    HandoffStep s (.apply id) (s.push (.committing existing))
  | moves {s : HandoffState} {i call call'} (hcall : s.calls[i]? = some call)
      (hmoves : Moves cfg s call call') :
    HandoffStep s (.advance i) (s.setCall i call')
  | freezes {s i} {plan : HandoffPlanResponse}
      (hcall : s.calls[i]? = some (.planned .start plan)) :
    HandoffStep s (.advance i)
      ({ s with control := some ⟨cfg.remote.shard, true, some s!"handoff workflow to {plan.targetOwner}"⟩ }.setCall
        i (.starting plan))
  | unfreezes {s i} {existing : HandoffWorkflow}
      (hcall : s.calls[i]? = some (.aborting existing)) :
    HandoffStep s (.advance i) ({ s with control := none }.setCall i (.planning (.abort existing) existing.planRequest))
  | commit {s : HandoffState} {i existing normalized}
      (hcall : s.calls[i]? = some (.committing existing))
      (hnormalize : normalizeTopologyOverrideRequest cfg.cluster cfg.walShards s.overrides
        (overrideRequest cfg s.overrides existing) = .ok normalized) :
    HandoffStep s (.advance i)
      ({ s with overrides := buildTopologyOverridesAfterRequest s.overrides normalized }.setCall
        i (.committed existing))
  | release {s i existing}
      (hcall : s.calls[i]? = some (.committed existing)) :
    HandoffStep s (.advance i) ({ s with control := none }.setCall i (.unfrozen existing))
  | store {s : HandoffState} {i id call} {workflow : HandoffWorkflow}
      (hcall : s.calls[i]? = some call) (hfresh : s.workflows[id]? = none)
      (hdecided : call.decided id = some workflow) :
    HandoffStep s (.advance i)
      ({ s with workflows := s.workflows.insert workflow.id workflow }.setCall i (.persisting workflow))
  | fail {s : HandoffState} {i : Nat} {call : HandoffCall} {err : ApiError} (hcall : s.calls[i]? = some call)
      (hactive : call.active = true) :
    HandoffStep s (.fail i) (s.setCall i (.returned (.error err)))

/-- Replicas acknowledge segments in order and skip only what they hold, the node owns the shard
when it appends, and the target of a handoff is another node, which is caught up when the handoff
is committed. -/
def Meets (s : HandoffState) : HandoffEvent → Prop
  | .append .. => cfg.owner s.overrides = cfg.cluster.nodeId
  | .remote event skips => AcksInOrder cfg.remote s.remote event ∧ ∀ i r, skips i r = true →
    r ∈ s.stored i
  | .advance i => ∀ existing, s.calls[i]? = some (.committing existing) →
    trim existing.targetOwner ≠ cfg.cluster.nodeId ∧
    latestLsnForShard s.remote.localRecords cfg.remote.shard ≤
      targetAckedLsn cfg s.remote.status existing.targetOwner
  | _ => True

/-- The node has just started. -/
structure Started (s : HandoffState) : Prop where
  remote : Wal.Remote.Started cfg.remote s.remote
  stored : ∀ i, ∀ r ∈ s.remote.received i, r ∈ s.stored i
  idle : s.writers = [] ∧ s.calls = [] ∧ s.workflows = ∅
  acknowledged : ∀ r ∈ s.acknowledged, r ∈ s.remote.localRecords ∧ r.shard = cfg.remote.shard

/-- The record is in the log of the node. -/
def Stores (s : HandoffState) (node : String) (r : WalRecord) : Prop :=
  ∃ url i replica, cfg.cluster.nodeUrlFor node = some url ∧ cfg.remote.replicas[i]? = some replica ∧
    remoteReplicationEndpoint replica.url = remoteReplicationEndpoint url ∧ r ∈ s.stored i

/-- The target of each applied handoff has every record that the node acknowledged. -/
def Complete (s : HandoffState) : Prop :=
  ∀ (id : String) (workflow : HandoffWorkflow), s.workflows[id]? = some workflow → workflow.phase = .applied →
    ∀ r ∈ s.acknowledged, Stores cfg s workflow.targetOwner r

/-! ## The replicas of the log -/

section Replicas

variable {cfg : RemoteConfig} {s t : RemoteState} {event : RemoteEvent}

theorem remoteStep_received (h : RemoteStep cfg s event t) (i : Nat) :
    ∃ batch, t.received i = s.received i ++ batch := by
  have hreceive : ∀ (index : Nat) (records : List WalRecord), ∃ batch,
      receive s.received index records i = s.received i ++ batch := by
    intro index records
    by_cases hi : i = index
    · subst hi
      exact ⟨records, update_self ..⟩
    · exact ⟨[], by rw [receive, update_of_ne hi, append_nil]⟩
  have hsame : ∃ batch, s.received i = s.received i ++ batch := ⟨[], (append_nil _).symm⟩
  cases h with
  | @append records written hrepair hrecords =>
    have hsends := @appendSegment_sends cfg s records written
    exact ⟨[], by rw [hsends.rest.2.2, append_nil]⟩
  | @complete task outcome t htask =>
    cases outcome with
    | acked => exact hreceive t.index t.records
    | failed received message =>
      cases received with
      | true => exact hreceive t.index t.records
      | false => exact hsame
  | repairBegin | repairEnd => exact hsame
  | @repairReplica outcome repair replica hrepair hreplica =>
    unfold repairOne
    dsimp only
    split
    · exact hsame
    · cases outcome with
      | acked => exact hreceive _ _
      | failed received message =>
        cases received with
        | true => exact hreceive _ _
        | false => exact hsame

theorem remoteStep_localRecords (h : RemoteStep cfg s event t)
    (hother : ∀ records written, event ≠ .append records written) :
    t.localRecords = s.localRecords := by
  cases h with
  | append hrepair hrecords => exact absurd rfl (hother _ _)
  | @complete task outcome t htask => cases outcome <;> rfl
  | repairBegin | repairEnd => rfl
  | @repairReplica outcome repair replica hrepair hreplica =>
    unfold repairOne
    dsimp only
    split
    · rfl
    · cases outcome <;> rfl

theorem mem_localRecords_append {records : List WalRecord}
    {written : Bool} (h : RemoteStep cfg s (.append records written) t) {r : WalRecord} :
    r ∈ t.localRecords ↔ r ∈ s.localRecords ∨ r ∈ records := by
  cases h with
  | append hrepair hrecords =>
    have hsends := @appendSegment_sends cfg s records written
    rw [RemoteState.localRecords, hsends.files.1, hsends.files.2]
    exact mem_readRecords_append hrecords.1 hrecords.2

/-- Each status is that of the replica at its place. -/
def UrlsOk (cfg : RemoteConfig) (status : List WalRemoteReplicaStatus) : Prop :=
  ∀ (i : Nat) (st : WalRemoteReplicaStatus), status[i]? = some st →
    ∃ replica, cfg.replicas[i]? = some replica ∧ st.url = remoteReplicationEndpoint replica.url

/-- The status and the tasks name the replicas at their places. -/
structure UrlInv (cfg : RemoteConfig) (s : RemoteState) : Prop where
  status : UrlsOk cfg s.status
  inFlight : ∀ task ∈ s.inFlight, ∃ replica, cfg.replicas[task.index]? = some replica ∧
    task.endpoint = remoteReplicationEndpoint replica.url

theorem UrlsOk.modify {status : List WalRemoteReplicaStatus}
    (h : UrlsOk cfg status) {index : Nat} {replica : WalRemoteReplica}
    (hreplica : cfg.replicas[index]? = some replica)
    {note : WalRemoteReplicaStatus → WalRemoteReplicaStatus}
    (hnote : ∀ st, (note st).url = remoteReplicationEndpoint replica.url) :
    UrlsOk cfg (status.modify index note) := by
  intro i st hst
  rw [getElem?_modify] at hst
  obtain ⟨st', hst', rfl⟩ := map_eq_some_iff.mp hst
  by_cases hi : index = i
  · rw [if_pos hi]
    exact ⟨replica, hi ▸ hreplica, hnote st'⟩
  · rw [if_neg hi]
    exact h i st' hst'

theorem UrlInv.send (h : UrlInv cfg s) (records : List WalRecord) :
    UrlInv cfg (replicateRemoteRecords cfg s records) := by
  unfold replicateRemoteRecords
  split
  · exact h
  · have hplaces : ∀ entry ∈ cfg.replicas.zipIdx, cfg.replicas[entry.2]? = some entry.1 := by
      intro entry hentry
      exact mem_zipIdx_iff_getElem?.mp hentry
    generalize cfg.replicas.zipIdx = entries at hplaces
    induction entries generalizing s with
    | nil => exact h
    | cons entry entries ih =>
      have hentry := hplaces entry mem_cons_self
      refine ih ⟨h.status.modify hentry fun _ => rfl, ?_⟩ fun entry hentry =>
        hplaces entry (mem_cons_of_mem _ hentry)
      intro task htask
      rcases mem_append.mp htask with htask | htask
      · exact h.inFlight task htask
      · rw [mem_singleton.mp htask]
        exact ⟨entry.1, hentry, rfl⟩

theorem UrlInv.step (h : UrlInv cfg s) (hstep : RemoteStep cfg s event t) : UrlInv cfg t := by
  cases hstep with
  | @append records written hrepair hrecords =>
    have hactive : UrlInv cfg { s with active := s.active ++ records } := ⟨h.status, h.inFlight⟩
    cases written with
    | true => exact hactive.send records
    | false => exact hactive
  | @complete task outcome t htask =>
    obtain ⟨replica, hreplica, hendpoint⟩ := h.inFlight t (mem_of_getElem? htask)
    have hrest : ∀ task' ∈ s.inFlight.eraseIdx task, ∃ replica, cfg.replicas[task'.index]? = some replica ∧
        task'.endpoint = remoteReplicationEndpoint replica.url :=
      fun task' hmem => h.inFlight task' (mem_of_mem_eraseIdx hmem)
    cases outcome with
    | acked | failed => exact ⟨h.status.modify hreplica fun _ => hendpoint, hrest⟩
  | repairBegin | repairEnd => exact ⟨h.status, h.inFlight⟩
  | @repairReplica outcome repair replica hrepair hreplica =>
    unfold repairOne
    dsimp only
    split
    · exact ⟨h.status, h.inFlight⟩
    · have hattempt :
          UrlsOk cfg (noteRemoteAttempt s.status repair.replicas.length (remoteReplicationEndpoint replica.url)) :=
          h.status.modify hreplica fun _ => rfl
      cases outcome with
      | acked | failed => exact ⟨hattempt.modify hreplica fun _ => rfl, h.inFlight⟩

theorem urlInv_started (h : Wal.Remote.Started cfg s) : UrlInv cfg s := by
  obtain ⟨hflight, -, -⟩ := h.idle
  refine ⟨fun i st hst => ?_, fun task htask => ?_⟩
  · rw [h.status, getElem?_map] at hst
    obtain ⟨replica, hreplica, rfl⟩ := map_eq_some_iff.mp hst
    exact ⟨replica, hreplica, rfl⟩
  · rw [hflight] at htask
    cases htask

end Replicas

/-! ## The invariant -/

variable {cfg}

/-- The node is no longer the owner, and the target has every record of the shard. -/
def HandedOver (cfg : HandoffConfig) (s : HandoffState) (workflow : HandoffWorkflow) : Prop :=
  cfg.owner s.overrides ≠ cfg.cluster.nodeId ∧
    ∀ r ∈ s.remote.localRecords, r.shard = cfg.remote.shard → Stores cfg s workflow.targetOwner r

/-- The workflow is for the shard. -/
def HandoffWorkflow.Ok (cfg : HandoffConfig) (workflow : HandoffWorkflow) : Prop :=
  workflow.shard = cfg.remote.shard

/-- The plan is for the shard. -/
def HandoffPlanResponse.Ok (cfg : HandoffConfig) (plan : HandoffPlanResponse) : Prop :=
  plan.shard = cfg.remote.shard

/-- The workflow that a call goes on with is for the shard. -/
def Purpose.Ok (cfg : HandoffConfig) : Purpose → Prop
  | .start => True
  | .step existing | .abort existing => existing.Ok cfg

/-- What a call holds is for the shard. -/
def HandoffCall.Ok (cfg : HandoffConfig) : HandoffCall → Prop
  | .aborting existing | .committing existing | .committed existing | .unfrozen existing => existing.Ok cfg
  | .planning purpose request | .measured purpose request .. => purpose.Ok cfg ∧
    request.shard = cfg.remote.shard
  | .planned purpose plan => purpose.Ok cfg ∧ plan.Ok cfg
  | .starting plan => plan.Ok cfg
  | .persisting _ | .returned _ => True

/-- The workflow that a call has committed. -/
def HandoffCall.handed : HandoffCall → Option HandoffWorkflow
  | .committed existing | .unfrozen existing => some existing
  | _ => none

/-- What was acknowledged is in the log, and a call that goes on has measured what is there. -/
structure Inv (cfg : HandoffConfig) (s : HandoffState) : Prop where
  remote : RemoteInv cfg.remote s.remote
  urls : UrlInv cfg.remote s.remote
  stored : ∀ i, ∀ r ∈ s.remote.received i, r ∈ s.stored i
  appended : ∀ record, Writer.appended record ∈ s.writers →
    record ∈ s.remote.localRecords ∧ record.shard = cfg.remote.shard
  acknowledged : ∀ r ∈ s.acknowledged, r ∈ s.remote.localRecords ∧ r.shard = cfg.remote.shard
  calls : ∀ call ∈ s.calls, call.Ok cfg
  workflows : ∀ (id : String) (workflow : HandoffWorkflow), s.workflows[id]? = some workflow →
    workflow.Ok cfg ∧ (workflow.phase = .applied → HandedOver cfg s workflow)
  handed : ∀ call ∈ s.calls, ∀ workflow, call.handed = some workflow → HandedOver cfg s workflow

variable {s t : HandoffState} {r : WalRecord}

/-- A record of the shard that the target has acknowledged up to is in its log. -/
theorem Inv.stores (h : Inv cfg s) {target : String} (hr : r ∈ s.remote.localRecords)
    (hshard : r.shard = cfg.remote.shard)
    (hacked : r.lsn ≤ targetAckedLsn cfg s.remote.status target) :
    Stores cfg s target r := by
  have hpos := h.remote.lsns r hr
  unfold targetAckedLsn at hacked
  cases hurl : cfg.cluster.nodeUrlFor target with
  | none =>
    rw [hurl] at hacked
    exact absurd hacked (Nat.not_le.mpr hpos)
  | some url =>
    rw [hurl] at hacked
    have hacked : r.lsn ≤ (remoteAckLsnForUrl s.remote.status url).getD 0 := hacked
    cases hmax : remoteAckLsnForUrl s.remote.status url with
    | none =>
      rw [hmax] at hacked
      exact absurd hacked (Nat.not_le.mpr hpos)
    | some acked =>
      rw [hmax] at hacked
      obtain ⟨st, hst, rfl⟩ := mem_map.mp (max?_mem hmax)
      obtain ⟨hst, hname⟩ := mem_filter.mp hst
      obtain ⟨i, hi⟩ := mem_iff_getElem?.mp hst
      obtain ⟨replica, hreplica, hendpoint⟩ := h.urls.status i st hi
      have hcovered := (h.remote.status i st hi).1 r hr hshard hacked
      exact ⟨url, i, replica, hurl, hreplica, hendpoint.symm.trans (of_decide_eq_true hname), h.stored i r hcovered⟩

/-! ## The steps -/

section Steps

variable {s s' : HandoffState} {i : Nat} {call call' : HandoffCall} {workflow : HandoffWorkflow}
    {writers : List Writer}

theorem HandedOver.mono (h : HandedOver cfg s workflow)
    (howner : cfg.owner s'.overrides ≠ cfg.cluster.nodeId)
    (hlocal : ∀ r ∈ s'.remote.localRecords, r ∈ s.remote.localRecords)
    (hstored : ∀ i, ∀ r ∈ s.stored i, r ∈ s'.stored i) : HandedOver cfg s' workflow := by
  refine ⟨howner, fun r hr hshard => ?_⟩
  obtain ⟨url, j, replica, hurl, hreplica, hendpoint, hmem⟩ := h.2 r (hlocal r hr) hshard
  exact ⟨url, j, replica, hurl, hreplica, hendpoint, hstored j r hmem⟩

/-- A step of the writers. -/
theorem Inv.withWriters (h : Inv cfg s) {acknowledged : List WalRecord}
    (hwriters : ∀ record, Writer.appended record ∈ writers → Writer.appended record ∈ s.writers)
    (hacked : ∀ r ∈ acknowledged, r ∈ s.acknowledged ∨ Writer.appended r ∈ s.writers) :
    Inv cfg { s with writers, acknowledged } := by
  refine ⟨h.remote, h.urls, h.stored, fun record hmem => h.appended record (hwriters record hmem), fun r hr => ?_,
    h.calls, h.workflows, h.handed⟩
  rcases hacked r hr with hr | hr
  · exact h.acknowledged r hr
  · exact h.appended r hr

/-- A call goes on, or ends, and the shard is frozen or not. -/
theorem Inv.setCall (h : Inv cfg s) (control : Option ShardControl) (hok : call'.Ok cfg)
    (hhanded : ∀ workflow,
    call'.handed = some workflow → HandedOver cfg s workflow) :
    Inv cfg ({ s with control }.setCall i call') := by
  refine ⟨h.remote, h.urls, h.stored, h.appended, h.acknowledged, fun other hother => ?_, h.workflows,
    fun other hother workflow hother' => ?_⟩
  · rcases mem_or_eq_of_mem_set hother with hother | rfl
    · exact h.calls other hother
    · exact hok
  · rcases mem_or_eq_of_mem_set hother with hother | rfl
    · exact h.handed other hother workflow hother'
    · exact hhanded workflow hother'

theorem Inv.push (h : Inv cfg s) (hok : call'.Ok cfg) (hhanded : call'.handed = none) :
    Inv cfg (s.push call') := by
  refine ⟨h.remote, h.urls, h.stored, h.appended, h.acknowledged, fun other hother => ?_, h.workflows,
    fun other hother workflow hother' => ?_⟩
  · rcases mem_append.mp hother with hother | hother
    · exact h.calls other hother
    · rw [mem_singleton.mp hother]
      exact hok
  · rcases mem_append.mp hother with hother | hother
    · exact h.handed other hother workflow hother'
    · rw [mem_singleton.mp hother, hhanded] at hother'
      cases hother'

theorem mem_setWriters {segment : Segment} {after : WalRecord → Writer} {writer : Writer}
    (h : writer ∈ setWriters writers segment after) :
    writer ∈ writers ∨ ∃ entry ∈ segment, writer = after entry.2 := by
  induction segment generalizing writers with
  | nil => exact .inl h
  | cons entry segment ih =>
    rcases ih h with h | ⟨entry', hentry', heq⟩
    · rcases mem_or_eq_of_mem_set h with h | h
      · exact .inl h
      · exact .inr ⟨entry, mem_cons_self, h⟩
    · exact .inr ⟨entry', mem_cons_of_mem _ hentry', heq⟩

/-- A segment of the owner: no handoff has been committed. -/
theorem Inv.append (h : Inv cfg s) {segment : Segment} {written : Bool} {remote : RemoteState}
    {failed : Writer}
    (hfailed : ∀ record, failed ≠ .appended record)
    (hsegment : ∀ entry ∈ segment, Appends cfg s entry)
    (howner : cfg.owner s.overrides = cfg.cluster.nodeId)
    (hremote : RemoteStep cfg.remote s.remote (.append (segment.map (·.2)) written) remote) :
    Inv cfg { s with
      remote
      writers := setWriters s.writers segment fun record => if written then .appended record else failed } := by
  have hmem : ∀ r, r ∈ remote.localRecords ↔ r ∈ s.remote.localRecords ∨ r ∈ segment.map (·.2) :=
    fun r => mem_localRecords_append hremote
  have hreceived : ∀ i, remote.received i = s.remote.received i := by
    intro i
    cases hremote with
    | append hrepair hrecords => exact congrFun (appendSegment_sends _ _ _).rest.2.2 i
  have hacks : AcksInOrder cfg.remote s.remote (.append (segment.map (·.2)) written) := trivial
  refine ⟨h.remote.step hacks hremote, h.urls.step hremote, fun i r hr => h.stored i r (hreceived i ▸ hr), ?_,
    fun r hr => ⟨(hmem r).mpr (.inl (h.acknowledged r hr).1), (h.acknowledged r hr).2⟩, h.calls, ?_, ?_⟩
  · intro record hrecord
    have hset : Writer.appended record ∈ setWriters s.writers segment
      fun record => if written then .appended record else failed := hrecord
    rcases mem_setWriters hset with hrecord | ⟨entry, hentry, heq⟩
    · exact ⟨(hmem record).mpr (.inl (h.appended record hrecord).1), (h.appended record hrecord).2⟩
    · split at heq
      · cases heq
        exact ⟨(hmem _).mpr (.inr (mem_map_of_mem hentry)), (hsegment entry hentry).2.1⟩
      · exact absurd heq.symm (hfailed record)
  · intro id workflow hworkflow
    exact ⟨(h.workflows id workflow hworkflow).1,
      fun happlied => absurd howner ((h.workflows id workflow hworkflow).2 happlied).1⟩
  · intro other hother workflow hworkflow
    exact absurd howner (h.handed other hother workflow hworkflow).1

/-- A request to a replica ends, or a repair goes on. -/
theorem Inv.remoteStep (h : Inv cfg s) {event : RemoteEvent} {skips : Nat → WalRecord → Bool}
    {remote : RemoteState}
    (hother : ∀ records written, event ≠ .append records written)
    (hacks : AcksInOrder cfg.remote s.remote event)
    (hskips : ∀ i r, skips i r = true → r ∈ s.stored i)
    (hremote : RemoteStep cfg.remote s.remote event remote) :
    Inv cfg { s with remote, stored := store s.stored s.remote.received remote.received skips } := by
  have hlocal := remoteStep_localRecords hremote hother
  have hgrows : ∀ i, ∀ r ∈ s.stored i, r ∈ store s.stored s.remote.received remote.received skips i :=
    fun i r hr => mem_append_left _ hr
  have hover : ∀ workflow, HandedOver cfg s workflow →
      HandedOver cfg { s with remote, stored := store s.stored s.remote.received remote.received skips } workflow :=
    fun workflow hw => hw.mono hw.1 (fun r hr => hlocal ▸ hr) hgrows
  refine ⟨h.remote.step hacks hremote, h.urls.step hremote, fun i r hr => ?_,
    fun record hrecord => hlocal ▸ h.appended record hrecord, fun r hr => hlocal ▸ h.acknowledged r hr, h.calls,
    fun id workflow hworkflow => ?_, fun other hother workflow hworkflow => ?_⟩
  · obtain ⟨batch, hbatch⟩ := remoteStep_received hremote i
    by_cases hskip : skips i r = true
    · exact hgrows i r (hskips i r hskip)
    · rw [hbatch] at hr
      rcases mem_append.mp hr with hr | hr
      · exact hgrows i r (h.stored i r hr)
      · refine mem_append_right _ (mem_filter.mpr ⟨?_, by simp [hskip]⟩)
        rw [hbatch, drop_left]
        exact hr
  · exact ⟨(h.workflows id workflow hworkflow).1,
      fun happlied => hover workflow ((h.workflows id workflow hworkflow).2 happlied)⟩
  · exact hover workflow (h.handed other hother workflow hworkflow)

/-- The commit of a workflow whose target is another node and caught up. -/
theorem Inv.commit (h : Inv cfg s) {existing : HandoffWorkflow}
    {normalized : ApplyTopologyOverrideRequest}
    (hcall : s.calls[i]? = some (.committing existing))
    (hnormalize : normalizeTopologyOverrideRequest cfg.cluster
    cfg.walShards s.overrides (overrideRequest cfg s.overrides existing) = .ok normalized)
    (hother : trim existing.targetOwner ≠ cfg.cluster.nodeId) (hcaught : latestLsnForShard
    s.remote.localRecords cfg.remote.shard ≤ targetAckedLsn cfg s.remote.status existing.targetOwner) :
    Inv cfg ({ s with overrides := buildTopologyOverridesAfterRequest s.overrides normalized }.setCall i
    (.committed existing)) := by
  have hok : existing.Ok cfg := h.calls _ (mem_of_getElem? hcall)
  obtain ⟨hshard, -, howner, -⟩ := normalizeTopologyOverrideRequest_ok hnormalize
  have hnew : cfg.owner (buildTopologyOverridesAfterRequest s.overrides normalized) ≠ cfg.cluster.nodeId := by
    have hbuild :=
      @owner_buildTopologyOverridesAfterRequest cfg.cluster s.overrides normalized cfg.remote.shard
    rw [howner, hshard] at hbuild
    exact ne_of_eq_of_ne (hbuild.trans (if_pos hok)) hother
  have hover : ∀ workflow, HandedOver cfg s workflow →
      HandedOver cfg { s with overrides := buildTopologyOverridesAfterRequest s.overrides normalized } workflow :=
    fun workflow hw => hw.mono hnew (fun r hr => hr) fun _ _ hr => hr
  have hthis : HandedOver cfg { s with overrides := buildTopologyOverridesAfterRequest s.overrides normalized }
      existing := by
    refine ⟨hnew, fun r hr hrshard => ?_⟩
    have hle : r.lsn ≤ latestLsnForShard s.remote.localRecords cfg.remote.shard :=
      le_highestLsnOf (mem_filter.mpr ⟨hr, decide_eq_true hrshard⟩)
    exact h.stores hr hrshard (hle.trans hcaught)
  have hinv : Inv cfg { s with overrides := buildTopologyOverridesAfterRequest s.overrides normalized } :=
    ⟨h.remote, h.urls, h.stored, h.appended, h.acknowledged, h.calls,
      fun id workflow hworkflow => ⟨(h.workflows id workflow hworkflow).1,
        fun happlied => hover workflow ((h.workflows id workflow hworkflow).2 happlied)⟩,
      fun other hother workflow hworkflow => hover workflow (h.handed other hother workflow hworkflow)⟩
  refine hinv.setCall s.control hok fun workflow hworkflow => ?_
  cases hworkflow
  exact hthis

theorem Inv.moves (h : Inv cfg s) (hcall : s.calls[i]? = some call)
    (hmoves : Moves cfg s call call') :
    Inv cfg (s.setCall i call') := by
  have hok := h.calls call (mem_of_getElem? hcall)
  cases hmoves with
  | measure hcheck => exact h.setCall s.control hok nofun
  | refuse | finish => exact h.setCall s.control trivial nofun
  | plan hstatus => exact h.setCall s.control ⟨hok.1, hok.2⟩ nofun

/-- What is stored as applied has been handed over. -/
theorem Inv.decided (h : Inv cfg s) (hcall : s.calls[i]? = some call) {id : String}
    (hdecided : call.decided id = some workflow) :
    workflow.Ok cfg ∧ (workflow.phase = .applied → HandedOver cfg s workflow) := by
  have hok := h.calls call (mem_of_getElem? hcall)
  have hhanded := h.handed call (mem_of_getElem? hcall)
  unfold HandoffCall.decided at hdecided
  split at hdecided
  · next plan =>
    cases hdecided
    refine ⟨hok, fun happlied => ?_⟩
    simp only [HandoffPlanResponse.workflow] at happlied
    split at happlied <;> cases happlied
  · next existing plan =>
    cases hdecided
    refine ⟨hok.1, fun happlied => ?_⟩
    simp only [HandoffWorkflow.stepped] at happlied
    split at happlied <;> cases happlied
  · next existing plan =>
    cases hdecided
    exact ⟨hok.1, fun h => nomatch h⟩
  · next existing =>
    cases hdecided
    exact ⟨hok, fun _ => hhanded existing rfl⟩
  · cases hdecided

theorem Inv.store (h : Inv cfg s) (hcall : s.calls[i]? = some call)
    {id : String} {workflow : HandoffWorkflow} (hdecided : call.decided id = some workflow) :
    Inv cfg ({ s with workflows := s.workflows.insert workflow.id workflow }.setCall i (.persisting workflow)) := by
  have hthis := h.decided hcall hdecided
  have hinv : Inv cfg { s with workflows := s.workflows.insert workflow.id workflow } := by
    refine ⟨h.remote, h.urls, h.stored, h.appended, h.acknowledged, h.calls, fun id' workflow' hworkflow => ?_,
      h.handed⟩
    have hworkflow : (s.workflows.insert workflow.id workflow)[id']? = some workflow' := hworkflow
    rw [Std.ExtTreeMap.getElem?_insert] at hworkflow
    split at hworkflow
    · cases hworkflow
      exact hthis
    · exact h.workflows id' workflow' hworkflow
  exact hinv.setCall s.control trivial (fun _ h => nomatch h)

theorem Inv.step {event : HandoffEvent} (h : Inv cfg s) (hmeets : Meets cfg s event)
    (hstep : HandoffStep cfg s event s') : Inv cfg s' := by
  cases hstep with
  | arrive =>
    refine h.withWriters (fun record hmem => ?_) fun r hr => .inl hr
    rcases mem_append.mp hmem with hmem | hmem
    · exact hmem
    · cases mem_singleton.mp hmem
  | @write i writer writer' hwriter hadvance =>
    refine h.withWriters (fun record hmem => ?_) fun r hr => .inl hr
    rcases mem_or_eq_of_mem_set hmem with hmem | rfl
    · exact hmem
    · cases writer with
      | checking | owned =>
        dsimp only [Writer.advance] at hadvance
        split at hadvance <;> cases hadvance
      | checked | fenced | appended | returned => cases hadvance
  | append hsegment hremote => exact h.append (fun _ h => nomatch h) hsegment hmeets hremote
  | @acknowledge i record acked hwriter =>
    refine h.withWriters (fun record' hmem => ?_) fun r hr => ?_
    · rcases mem_or_eq_of_mem_set hmem with hmem | heq
      · exact hmem
      · cases heq
    · rcases mem_append.mp hr with hr | hr
      · exact .inl hr
      · rw [mem_singleton.mp hr]
        exact .inr (mem_of_getElem? hwriter)
  | giveUp =>
    refine h.withWriters (fun record hmem => ?_) fun r hr => .inl hr
    rcases mem_or_eq_of_mem_set hmem with hmem | heq
    · exact hmem
    · cases heq
  | remote hother hremote => exact h.remoteStep hother hmeets.1 hmeets.2 hremote
  | freeze | unfreeze => exact ⟨h.remote, h.urls, h.stored, h.appended, h.acknowledged, h.calls, h.workflows, h.handed⟩
  | start hshard => exact h.push ⟨trivial, hshard⟩ rfl
  | step hexisting =>
    have hok := (h.workflows _ _ hexisting).1
    exact h.push ⟨hok, hok⟩ rfl
  | abort hexisting | apply hexisting => exact h.push (h.workflows _ _ hexisting).1 rfl
  | moves hcall hmoves => exact h.moves hcall hmoves
  | freezes hcall => exact h.setCall _ (h.calls _ (mem_of_getElem? hcall)).2 nofun
  | unfreezes hcall =>
    have hok : HandoffWorkflow.Ok cfg _ := h.calls _ (mem_of_getElem? hcall)
    exact h.setCall _ ⟨hok, hok⟩ nofun
  | commit hcall hnormalize => exact h.commit hcall hnormalize (hmeets _ hcall).1 (hmeets _ hcall).2
  | release hcall =>
    have hmem := mem_of_getElem? hcall
    have hok : HandoffWorkflow.Ok cfg _ := h.calls _ hmem
    exact h.setCall _ hok fun workflow hworkflow => h.handed _ hmem workflow hworkflow
  | store hcall hfresh hdecided => exact h.store hcall hdecided
  | fail hcall hactive => exact h.setCall s.control trivial nofun

theorem Started.inv (h : Started cfg s) : Inv cfg s := by
  obtain ⟨hwriters, hcalls, hworkflows⟩ := h.idle
  refine ⟨h.remote.inv, urlInv_started h.remote, h.stored, ?_, h.acknowledged, ?_, ?_, ?_⟩
  · rw [hwriters]
    exact fun _ h => nomatch h
  · rw [hcalls]
    exact fun _ h => nomatch h
  · rw [hworkflows]
    intro id workflow hworkflow
    rw [Std.ExtTreeMap.getElem?_empty] at hworkflow
    cases hworkflow
  · rw [hcalls]
    exact fun _ h => nomatch h

/-- An applied handoff has lost no acknowledged record, in every run in which replicas acknowledge
segments in order and skip only what they hold, the node owns the shard when it appends, and the
target of a handoff is another node and still caught up when it is committed. -/
theorem handoff_complete {s₀ : HandoffState} (hstarted : Started cfg s₀)
    (h : Reaches (HandoffStep cfg) (Meets cfg) s₀ s) : Complete cfg s := by
  have hinv : Inv cfg s := h.invariant (fun _ _ _ hs hmeets hstep => hs.step hmeets hstep) hstarted.inv
  intro id workflow hworkflow happlied r hr
  obtain ⟨-, hover⟩ := hinv.workflows id workflow hworkflow
  obtain ⟨hlocal, hshard⟩ := hinv.acknowledged r hr
  exact (hover happlied).2 r hlocal hshard

end Steps

/-! ## Runs that are computed -/

/-- The events of a run that is computed. -/
inductive Action where
  | arrive
  | write (writer : Nat)
  /-- A segment of one record. -/
  | append (writer lsn : Nat)
  | complete (task : Nat) (outcome : RemoteOutcome)
  | acknowledge (writer : Nat)
  | start (targetOwner : String)
  | apply (id : String)
  | advance (call : Nat) (id : String)

/-- A call goes on; a new workflow has the id. -/
def HandoffState.advance (cfg : HandoffConfig) (s : HandoffState) (i : Nat) (id : String) :
    Option HandoffState := do
  match ← s.calls[i]? with
  | .planning purpose request =>
    match checkHandoffTarget cfg s.overrides request with
    | .ok () => return s.setCall i (.measured purpose request (cfg.owner s.overrides) (cfg.epoch s.overrides)
        (latestLsnForShard s.remote.localRecords cfg.remote.shard))
    | .error err => return s.setCall i (.returned (.error err))
  | .measured purpose request currentOwner currentEpoch currentShardLsn =>
    return s.setCall i (.planned purpose (handoffPlan cfg request currentOwner currentEpoch currentShardLsn
      (targetAckedLsn cfg s.remote.status request.targetOwner) (s.control.any (·.frozen))
      (handoffTargetReplicas cfg.cluster request.shard s.overrides currentOwner request.targetOwner)))
  | .planned .start plan =>
    return { s with control := some ⟨cfg.remote.shard, true, some s!"handoff workflow to {plan.targetOwner}"⟩ }.setCall
      i (.starting plan)
  | .committing existing =>
    match normalizeTopologyOverrideRequest cfg.cluster cfg.walShards s.overrides
        (overrideRequest cfg s.overrides existing) with
    | .ok normalized =>
      return { s with overrides := buildTopologyOverridesAfterRequest s.overrides normalized }.setCall
        i (.committed existing)
    | .error _ => none
  | .committed existing => return { s with control := none }.setCall i (.unfrozen existing)
  | .persisting workflow => return s.setCall i (.returned (.ok workflow))
  | call =>
    let workflow ← call.decided id
    if s.workflows[id]?.isNone then
      return { s with workflows := s.workflows.insert workflow.id workflow }.setCall i (.persisting workflow)
    else none

def HandoffState.next (cfg : HandoffConfig) (s : HandoffState) : Action → Option HandoffState
  | .arrive => some { s with writers := s.writers ++ [.checking] }
  | .write i => do
    let writer ← s.writers[i]?
    let writer' ← writer.advance cfg s.control s.overrides
    return s.setWriter i writer'
  | .append i lsn => do
    match ← s.writers[i]? with
    | .fenced shardEpoch =>
      let record := ⟨lsn, cfg.remote.shard, shardEpoch, cfg.cluster.nodeId, 0, 1, .strict,
        .hostHttpCompleted "r" 7, none⟩
      if s.remote.repair.isNone ∧ highestLsnOf s.remote.localRecords < lsn then
        return { s with
          remote := appendSegment cfg.remote s.remote [record] true
          writers := s.writers.set i (.appended record) }
      else none
    | _ => none
  | .complete task outcome => do
    let t ← s.remote.inFlight[task]?
    let remote := completeTask { s.remote with inFlight := s.remote.inFlight.eraseIdx task } t outcome
    return { s with remote, stored := store s.stored s.remote.received remote.received fun _ _ => false }
  | .acknowledge i => do
    match ← s.writers[i]? with
    | .appended record =>
      if requiredRemoteAcks cfg.remote.ackPolicy cfg.remote.replicas.length = 0 then
        return { s with acknowledged := s.acknowledged ++ [record] }.setWriter i (.returned (.ok record))
      else none
    | _ => none
  | .start targetOwner => some (s.push (.planning .start ⟨cfg.remote.shard, targetOwner⟩))
  | .apply id => do
    let existing ← s.workflows[id]?
    match existing.checkApply with
    | .ok () => return s.push (.committing existing)
    | .error _ => none
  | .advance i id => s.advance cfg i id

theorem HandoffStep.of_advance {i : Nat} {id : String} (h : s.advance cfg i id = some t) :
    HandoffStep cfg s (.advance i) t := by
  obtain ⟨call, hcall, h⟩ := bind_eq_some_iff.mp h
  have hstore : ∀ call', s.calls[i]? = some call' → (do
      let workflow ← call'.decided id
      if s.workflows[id]?.isNone then
        return { s with workflows := s.workflows.insert workflow.id workflow }.setCall i (.persisting workflow)
      else none) = some t → HandoffStep cfg s (.advance i) t := by
    intro call' hcall' hstore
    obtain ⟨workflow, hdecided, hstore⟩ := bind_eq_some_iff.mp hstore
    split at hstore
    · next hfresh =>
      cases hstore
      exact .store hcall' (isNone_iff_eq_none.mp hfresh) hdecided
    · cases hstore
  cases call with
  | planning purpose request =>
    dsimp only at h
    cases hcheck : checkHandoffTarget cfg s.overrides request with
    | ok =>
      rw [hcheck] at h
      cases h
      exact .moves hcall (.measure hcheck)
    | error err =>
      rw [hcheck] at h
      cases h
      exact .moves hcall (.refuse hcheck)
  | measured purpose request currentOwner currentEpoch currentShardLsn =>
    cases h
    exact .moves hcall (.plan (.inl rfl))
  | planned purpose plan =>
    cases purpose with
    | start =>
      cases h
      exact .freezes hcall
    | step | abort => exact hstore _ hcall h
  | committing existing =>
    dsimp only at h
    cases hnormalize : normalizeTopologyOverrideRequest cfg.cluster cfg.walShards s.overrides
        (overrideRequest cfg s.overrides existing) with
    | ok normalized =>
      rw [hnormalize] at h
      cases h
      exact .commit hcall hnormalize
    | error err =>
      rw [hnormalize] at h
      cases h
  | committed existing =>
    cases h
    exact .release hcall
  | persisting workflow =>
    cases h
    exact .moves hcall .finish
  | starting | unfrozen | aborting | returned => exact hstore _ hcall h

/-- The event of an action. -/
def Action.event (cfg : HandoffConfig) (s : HandoffState) : Action → HandoffEvent
  | .arrive => .arrive
  | .write i => .write i
  | .append i lsn =>
    match s.writers[i]? with
    | some (.fenced shardEpoch) => .append [(i, ⟨lsn, cfg.remote.shard, shardEpoch,
    cfg.cluster.nodeId, 0, 1,
        .strict, .hostHttpCompleted "r" 7, none⟩)] true
    | _ => .arrive
  | .complete task outcome => .remote (.complete task outcome) fun _ _ => false
  | .acknowledge i => .acknowledge i
  | .start targetOwner => .start ⟨cfg.remote.shard, targetOwner⟩
  | .apply id => .apply id
  | .advance i _ => .advance i

theorem HandoffStep.of_next {action : Action} (h : s.next cfg action = some t) :
    HandoffStep cfg s (action.event cfg s) t := by
  cases action with
  | arrive =>
    cases h
    exact .arrive
  | write i =>
    obtain ⟨writer, hwriter, h⟩ := bind_eq_some_iff.mp h
    obtain ⟨writer', hadvance, h⟩ := bind_eq_some_iff.mp h
    cases h
    exact .write hwriter hadvance
  | append i lsn =>
    obtain ⟨writer, hwriter, h⟩ := bind_eq_some_iff.mp h
    cases writer with
    | fenced shardEpoch =>
      dsimp only at h
      split at h
      · next hrecords =>
        cases h
        simp only [Action.event, hwriter]
        refine .append (fun entry hentry => ?_)
          (.append (isNone_iff_eq_none.mp hrecords.1) ⟨pairwise_singleton _ _, fun r hr => ?_⟩)
        · rw [mem_singleton.mp hentry]
          exact ⟨hwriter, rfl, rfl⟩
        · rw [mem_singleton.mp hr]
          exact hrecords.2
      · cases h
    | checking | owned | checked | appended | returned => cases h
  | complete task outcome =>
    obtain ⟨remoteTask, htask, h⟩ := bind_eq_some_iff.mp h
    cases h
    exact .remote (fun _ _ h => nomatch h) (.complete htask)
  | acknowledge i =>
    obtain ⟨writer, hwriter, h⟩ := bind_eq_some_iff.mp h
    cases writer with
    | appended record =>
      dsimp only at h
      split at h
      · next hnone =>
        cases h
        exact .acknowledge hwriter (show ([] : List Nat).Nodup from nodup_nil) (fun _ h => nomatch h)
          (Nat.le_of_eq hnone)
      · cases h
    | checking | owned | checked | fenced | returned => cases h
  | start targetOwner =>
    cases h
    exact .start rfl
  | apply id =>
    obtain ⟨existing, hexisting, h⟩ := bind_eq_some_iff.mp h
    cases hcheck : existing.checkApply with
    | ok =>
      simp only [hcheck] at h
      cases h
      exact .apply hexisting hcheck
    | error err =>
      simp only [hcheck] at h
      cases h
  | advance i id => exact .of_advance h

/-! ### A handoff between two nodes -/

section Sample

def twoNodes : HandoffConfig where
  cluster := ⟨"a", (∅ : BTreeMap String ClusterNode).insert "b" ⟨"b", some "http://b"⟩, ["a"], [1], [["b"]]⟩
  remote := ⟨0, [⟨"http://b", none⟩], .none⟩
  walShards := 1
  enforceOwnership := true

def startRemote : RemoteState where
  archived := []
  active := []
  status := [⟨remoteReplicationEndpoint "http://b", true, 0, none, 0, 0⟩]
  inFlight := []
  repair := none
  reports := []
  received := fun _ => []

def startState : HandoffState where
  remote := startRemote
  stored := fun _ => []
  control := none
  overrides := ∅
  workflows := ∅
  writers := []
  calls := []
  acknowledged := []

theorem startState_started : Started twoNodes startState where
  remote := ⟨(fun _ h => nomatch h), rfl, rfl, rfl, rfl⟩
  stored := fun _ _ h => nomatch h
  idle := ⟨rfl, rfl, rfl⟩
  acknowledged := fun _ h => nomatch h

def writeActions : List Action := [.arrive, .write 0, .write 0, .write 0]

def startActions : List Action :=
  [.start "b", .advance 0 "h", .advance 0 "h", .advance 0 "h", .advance 0 "h"]

def applyActions : List Action := [.apply "h", .advance 1 "i", .advance 1 "i", .advance 1 "i"]

/-- The handoff to `b` is applied, and one record is acknowledged. -/
def appliedToB (s : HandoffState) : Bool :=
  s.workflows["h"]?.any fun workflow => workflow.phase = .applied && workflow.targetOwner = "b" &&
    s.acknowledged.length = 1

theorem appliedToB_spec (h : appliedToB s = true) :
    ∃ workflow, s.workflows["h"]? = some workflow ∧ workflow.phase = .applied ∧
    workflow.targetOwner = "b" ∧
    s.acknowledged.length = 1 := by
  obtain ⟨workflow, hworkflow, hfacts⟩ := (any_eq_true _ _).mp h
  simp only [Bool.and_eq_true, decide_eq_true_eq] at hfacts
  exact ⟨workflow, hworkflow, hfacts.1.1, hfacts.1.2, hfacts.2⟩

theorem stores_b (h : Stores twoNodes s "b" r) : r ∈ s.stored 0 := by
  obtain ⟨url, i, replica, -, hreplica, -, hmem⟩ := h
  cases i with
  | zero => exact hmem
  | succ i => cases hreplica

/-- The writer has checked the shard before it was frozen, and appends before the commit. -/
theorem handoff_incomplete : ¬∀ (cfg : HandoffConfig) (s₀ s : HandoffState), Started cfg s₀ →
    Reaches (HandoffStep cfg) (fun _ _ => True) s₀ s → Complete cfg s := by
  intro h
  have hrun : (run (HandoffState.next twoNodes) (fun _ _ => true) startState
      (writeActions ++ startActions ++ [.append 0 1, .acknowledge 0] ++ applyActions)).any (fun s =>
        appliedToB s && (s.stored 0).isEmpty) = true := by
    decide +kernel
  obtain ⟨s, hs, hfacts⟩ := (any_eq_true _ _).mp hrun
  obtain ⟨happlied, hempty⟩ := Bool.and_eq_true_iff.mp hfacts
  obtain ⟨workflow, hworkflow, hphase, htarget, hone⟩ := appliedToB_spec happlied
  have hreaches : Reaches (HandoffStep twoNodes) (fun _ _ => True) startState s :=
    Reaches.of_actions (fun u action v hnext _ => ⟨action.event twoNodes u, trivial, .of_next hnext⟩) hs
  obtain ⟨r, hr⟩ := exists_mem_of_length_pos (by omega : 0 < s.acknowledged.length)
  have hstores := h twoNodes startState s startState_started hreaches "h" workflow hworkflow hphase r hr
  rw [htarget] at hstores
  have hmem := stores_b hstores
  rw [isEmpty_iff.mp hempty] at hmem
  cases hmem

def sampleRecord : WalRecord := ⟨1, 0, 1, "a", 0, 1, .strict, .hostHttpCompleted "r" 7, none⟩

/-- The record is in the log, and on its way. -/
def appendedState : HandoffState :=
  { startState with
    remote := appendSegment twoNodes.remote startRemote [sampleRecord] true
    writers := [.appended sampleRecord] }

/-- The target has acknowledged it. -/
def ackedState : HandoffState :=
  let remote := completeTask { appendedState.remote with inFlight := [] }
    ⟨0, remoteReplicationEndpoint "http://b", [sampleRecord]⟩ .acked
  { appendedState with
    remote
    stored := store appendedState.stored appendedState.remote.received remote.received fun _ _ => false }

/-- The node owns the shard at a write, no request ends, and another node is caught up at a commit.
-/
def checkAction (s : HandoffState) : Action → Bool
  | .append .. => twoNodes.owner s.overrides = twoNodes.cluster.nodeId
  | .complete _ _ => false
  | .advance i _ =>
    match s.calls[i]? with
    | some (.committing existing) => trim existing.targetOwner ≠ twoNodes.cluster.nodeId ∧
        latestLsnForShard s.remote.localRecords twoNodes.remote.shard ≤
          targetAckedLsn twoNodes s.remote.status existing.targetOwner
    | _ => true
  | _ => true

theorem meets_checkAction (s : HandoffState) (action : Action) (h : checkAction s action = true) :
    Meets twoNodes s (action.event twoNodes s) := by
  cases action with
  | append i lsn =>
    have howner : twoNodes.owner s.overrides = twoNodes.cluster.nodeId := of_decide_eq_true h
    dsimp only [Action.event]
    split
    · exact howner
    · trivial
  | advance i id =>
    intro existing hcall
    simp only [checkAction, hcall] at h
    exact of_decide_eq_true h
  | complete task outcome => cases h
  | arrive | write | acknowledge | start | apply => trivial

theorem reaches_checked {actions : List Action}
    (h : run (HandoffState.next twoNodes) checkAction s actions = some t) :
    Reaches (HandoffStep twoNodes) (Meets twoNodes) s t :=
  Reaches.of_actions
    (fun u action _ hnext hcheck => ⟨action.event twoNodes u, meets_checkAction u action hcheck, .of_next hnext⟩) h

theorem ackedState_reached :
    Reaches (HandoffStep twoNodes) (Meets twoNodes) startState ackedState := by
  have happended : Reaches (HandoffStep twoNodes) (Meets twoNodes) startState appendedState :=
    reaches_checked (show run _ _ _ (writeActions ++ [.append 0 1]) = _ from rfl)
  refine happended.take (e := .remote (.complete 0 .acked) fun _ _ => false)
    (.remote (fun _ _ h => nomatch h) (.complete rfl)) ⟨?_, fun _ _ h => nomatch h⟩
  intro task htask r hr _ _
  cases htask
  exact .inr hr

/-- The target acknowledges the record, and the handoff is applied. -/
theorem handoff_complete_sample : ∃ s, appliedToB s = true ∧ Complete twoNodes s := by
  have hrun : (run (HandoffState.next twoNodes) checkAction ackedState
      ([.acknowledge 0] ++ startActions ++ applyActions)).any appliedToB = true := by
    decide +kernel
  obtain ⟨s, hs, happlied⟩ := (any_eq_true _ _).mp hrun
  exact ⟨s, happlied, handoff_complete startState_started (ackedState_reached.trans (reaches_checked hs))⟩

end Sample

end NextDb.Api.Handoff
