import NextDb.Api.Handoff
import NextDb.Api.TopologyCluster

/-!
# Failing over to a replica

A replica takes a shard over when its peer monitor finds the owner unhealthy, and the highest LSN
in the replica's own log is at least the LSN that the owner reported when it was last healthy. The
replica compares two numbers; that nothing is missing below them is up to how its log was filled.

* `failover_complete`: when the log of the replica is filled without gaps, and the owner appends
  above it, a plan that is ready has every record up to the owner's last healthy LSN.
-/

namespace NextDb.Api.Failover

open Run Wal Wal.Remote Handoff List Option
open TopologyCluster (topologyPeerNodes requiredTopologyAcks)

structure FailoverPlanRequest where
  shard : Nat
  targetOwner : Option String

/-- The times and the latency of the check are left out. -/
structure PeerHealthStatus where
  nodeId : String
  url : String
  ok : Bool
  status : Option Nat
  acceptingWrites : Option Bool
  currentLsn : Option Nat
  lastSeenOkLsn : Option Nat
  error : Option String

/-- What the monitor knows of the peers. -/
structure PeerHealthMonitorState where
  enabled : Bool
  peers : BTreeMap String PeerHealthStatus

structure FailoverPlanResponse where
  shard : Nat
  currentOwner : String
  targetOwner : String
  targetOwnerUrl : Option String
  currentEpoch : Nat
  nextEpoch : Nat
  currentShardLsn : Nat
  localLsn : Nat
  ownerLastSeenOkLsn : Option Nat
  ownerHealthy : Bool
  targetIsLocal : Bool
  targetIsReplica : Bool
  targetCaughtUp : Bool
  ready : Bool
  reason : Option String
  requiredOverride : ApplyTopologyOverrideRequest
  requiredAcks : Nat
  ownerPeer : Option PeerHealthStatus
  steps : List String

/-- The replica and its topology; the owner and its replicas, one of which this is. -/
structure FailoverConfig where
  cluster : ClusterConfig
  overrides : Overrides
  walShards : Nat
  remote : RemoteConfig
  place : Nat

variable (cfg : FailoverConfig)

/-! ## The peer monitor -/

/-- How the request to a peer ends: with a body, or not. -/
inductive HealthAnswer where
  | body (status : Nat) (ok acceptingWrites : Option Bool) (currentLsn : Option Nat)
  | failed (status : Option Nat) (error : String)

/-- The status of a peer after a check. -/
def checkPeer (previous : BTreeMap String PeerHealthStatus) (nodeId url : String) :
    HealthAnswer → PeerHealthStatus
  | .body status ok acceptingWrites currentLsn =>
    let ok := ok.getD false
    { nodeId
      url
      ok
      status := some status
      acceptingWrites
      currentLsn
      lastSeenOkLsn := if ok then currentLsn else previous[nodeId]?.bind (·.lastSeenOkLsn)
      error := if ok then none else some "peer health returned ok=false" }
  | .failed status error =>
    { nodeId
      url
      ok := false
      status
      acceptingWrites := none
      currentLsn := none
      lastSeenOkLsn := previous[nodeId]?.bind (·.lastSeenOkLsn)
      error := some error }

variable (monitor : PeerHealthMonitorState)

/-- `run_peer_health_monitor_once`. -/
def runPeerHealthMonitorOnce (answer : String → HealthAnswer) :
    PeerHealthMonitorState :=
  { monitor with
    peers := (topologyPeerNodes cfg.cluster).foldl (fun next nodeId =>
      next.insert nodeId (checkPeer monitor.peers nodeId ((cfg.cluster.nodeUrlFor nodeId).getD "") (answer nodeId))) ∅ }

/-! ## The plan -/

def FailoverConfig.owner : String :=
  cfg.cluster.ownerForShardWithOverrides cfg.remote.shard cfg.overrides

variable (request : FailoverPlanRequest)

/-- The target of a request: the node itself, unless it names another. -/
def targetOf : String := trim (request.targetOwner.getD cfg.cluster.nodeId)

/-- The checks of `compute_failover_plan`. -/
def checkFailoverTarget : Except ApiError Unit :=
  if cfg.walShards ≤ request.shard then .error (.badRequest "shard is out of range")
  else if (targetOf cfg request).isEmpty then .error (.badRequest "targetOwner cannot be empty")
  else .ok ()

/-- What the plan knows of the owner as a peer. -/
def ownerPeer (currentOwner : String) : Option PeerHealthStatus :=
  if currentOwner = cfg.cluster.nodeId then none else monitor.peers[currentOwner]?

/-- Why a plan is not ready. -/
def failoverReason (peer : Option PeerHealthStatus)
    (currentOwner targetOwner : String) (shard localLsn : Nat) (targetIsReplica : Bool)
    (ownerLastSeenOkLsn : Option Nat) : Option String :=
  if currentOwner = cfg.cluster.nodeId then some "current owner is local; use handoff instead of failover"
  else if !monitor.enabled then some "owner health is unknown; enable NEXTDB_PEER_MONITOR_INTERVAL_MS"
  else if peer.isNone then some s!"owner {currentOwner} has not been observed by peer monitor"
  else if peer.any (·.ok) then some s!"owner {currentOwner} is still healthy"
  else if targetOwner ≠ cfg.cluster.nodeId then
    some "failover can only be promoted from the local target node"
  else if !targetIsReplica then some s!"target owner {targetOwner} is not a replica for shard {shard}"
  else
    match ownerLastSeenOkLsn with
    | none => some s!"owner {currentOwner} has no last healthy LSN; wait for peer monitor to observe it"
    | some ownerLsn =>
      if localLsn < ownerLsn then
        some s!"local LSN {localLsn} has not caught up to owner last healthy LSN {ownerLsn}"
      else none

/-- The rest of `compute_failover_plan`, from the highest LSN that it has read. -/
def failoverPlan (currentOwner : String) (currentEpoch currentShardLsn : Nat)
    (monitor : PeerHealthMonitorState) : FailoverPlanResponse :=
  let targetOwner := targetOf cfg request
  let nextEpoch := currentEpoch + 1
  let peer := ownerPeer cfg monitor currentOwner
  let ownerLastSeenOkLsn := peer.bind fun peer => peer.lastSeenOkLsn <|> peer.currentLsn
  let targetIsReplica := decide (targetOwner ∈ cfg.cluster.replicasForShardWithOverrides request.shard cfg.overrides)
  let targetReplicas := handoffTargetReplicas cfg.cluster request.shard cfg.overrides currentOwner targetOwner
  let requiredAcks := requiredTopologyAcks cfg.cluster
  let replicas := "|".intercalate targetReplicas
  let reason := failoverReason cfg monitor peer currentOwner targetOwner request.shard currentShardLsn
    targetIsReplica ownerLastSeenOkLsn
  { shard := request.shard
    currentOwner
    targetOwner
    targetOwnerUrl := cfg.cluster.nodeUrlFor targetOwner
    currentEpoch
    nextEpoch
    currentShardLsn
    localLsn := currentShardLsn
    ownerLastSeenOkLsn
    ownerHealthy := if currentOwner = cfg.cluster.nodeId then true else peer.any (·.ok)
    targetIsLocal := targetOwner = cfg.cluster.nodeId
    targetIsReplica
    targetCaughtUp := ownerLastSeenOkLsn.any (· ≤ currentShardLsn)
    ready := reason.isNone
    reason
    requiredOverride := ⟨request.shard, some targetOwner, some nextEpoch, some targetReplicas⟩
    requiredAcks
    ownerPeer := peer
    steps := [s!"Peer monitor marks current owner {currentOwner} unhealthy.",
      s!"Confirm local target {targetOwner} is a replica and has WAL LSN {currentShardLsn}.",
      s!"Prepare topology proposal: shard {request.shard} owner={targetOwner} epoch={nextEpoch} replicas={replicas}.",
      s!"Commit only after topology quorum accepts the proposal ({requiredAcks} required ack(s))."] }

/-! ## The owner and the replica -/

/-- A call of `compute_failover_plan`. -/
inductive PlanCall where
  | planning (request : FailoverPlanRequest)
  /-- The highest LSN is read. -/
  | measured (request : FailoverPlanRequest) (currentShardLsn : Nat)
  | returned (result : Except ApiError FailoverPlanResponse)

/-- The log of the owner and its requests, the greatest LSN that the owner has committed in any
shard, and the replica: its log of the shard, its monitor and its calls. -/
structure FailoverState where
  remote : RemoteState
  ownerLsn : Nat
  wal : List WalRecord
  monitor : PeerHealthMonitorState
  calls : List PlanCall

/-- Appends, deliveries and health checks, and the steps of a failover. -/
inductive FailoverEvent where
  | append (records : List WalRecord) (written : Bool)
  /-- A request of the owner ends, or a repair goes on. The replica leaves out what it skips. -/
  | remote (event : RemoteEvent) (skips : WalRecord → Bool)
  /-- Records reach the log of the replica from another owner of the shard. -/
  | other (records : List WalRecord)
  /-- The owner commits an LSN. -/
  | commit (lsn : Nat)
  | monitor (answer : String → HealthAnswer)
  | plan (request : FailoverPlanRequest)
  | advance (call : Nat)

variable (s : FailoverState)

/-- What the replica is given in a step of the owner. -/
def delivered (remote : RemoteState) : List WalRecord :=
  (remote.received cfg.place).drop (s.remote.received cfg.place).length

/-- What a call goes on to. -/
def PlanCall.advance (s : FailoverState) : PlanCall → PlanCall
  | .planning request =>
    match checkFailoverTarget cfg request with
    | .ok () => .measured request (latestLsnForShard s.wal request.shard)
    | .error err => .returned (.error err)
  | .measured request currentShardLsn =>
    .returned (.ok (failoverPlan cfg request (cfg.owner)
      (cfg.cluster.epochForShardWithOverrides cfg.remote.shard cfg.overrides) currentShardLsn s.monitor))
  | .returned result => .returned result

/-- What each event does to the owner, the replica and the calls. -/
inductive FailoverStep : FailoverState → FailoverEvent → FailoverState → Prop where
  | append {s records written remote}
      (hremote : RemoteStep cfg.remote s.remote (.append records written) remote) :
    FailoverStep s (.append records written) { s with remote }
  | remote {s : FailoverState} {event skips remote}
      (hother : ∀ records written, event ≠ .append records written)
      (hremote : RemoteStep cfg.remote s.remote event remote) :
    FailoverStep s (.remote event skips)
      { s with remote, wal := s.wal ++ (delivered cfg s remote).filter (!skips ·) }
  | other {s : FailoverState} {records} :
    FailoverStep s (.other records) { s with wal := s.wal ++ records }
  | commit {s : FailoverState} {lsn} :
    FailoverStep s (.commit lsn) { s with ownerLsn := max s.ownerLsn lsn }
  /-- A healthy owner reports an LSN that it has had. -/
  | monitor {s : FailoverState} {answer}
      (howner : ∀ status ok acceptingWrites lsn,
        answer cfg.owner = .body status ok acceptingWrites (some lsn) → lsn ≤ s.ownerLsn) :
    FailoverStep s (.monitor answer) { s with monitor := runPeerHealthMonitorOnce cfg s.monitor answer }
  | plan {s : FailoverState} {request} (hshard : request.shard = cfg.remote.shard) :
    FailoverStep s (.plan request) { s with calls := s.calls ++ [.planning request] }
  | advance {s : FailoverState} {i} {call : PlanCall} (hcall : s.calls[i]? = some call) :
    FailoverStep s (.advance i) { s with calls := s.calls.set i (call.advance cfg s) }

/-- With the batch, the replica has every record of the owner up to the greatest LSN of the batch.
-/
def FillsNoGap (batch : List WalRecord) : Prop :=
  ∀ r ∈ s.remote.localRecords, r.shard = cfg.remote.shard →
    r.lsn ≤ latestLsnForShard batch cfg.remote.shard → r ∈ s.wal ∨ r ∈ batch

/-- Records reach the log of the replica without gaps, it skips only what it holds, and the owner
appends above what the replica has of the shard. -/
def Meets : FailoverEvent → Prop
  | .append records _ => ∀ r ∈ records, latestLsnForShard s.wal cfg.remote.shard < r.lsn
  | .remote event skips => (∀ r, skips r = true → r ∈ s.wal) ∧
    ∀ remote, RemoteStep cfg.remote s.remote event remote →
    FillsNoGap cfg s (delivered cfg s remote)
  | .other records => FillsNoGap cfg s records
  | _ => True

/-- The replica has every record of the owner up to its own highest LSN. -/
def NoGap : Prop :=
  ∀ r ∈ s.remote.localRecords, r.shard = cfg.remote.shard → r.lsn ≤ latestLsnForShard s.wal cfg.remote.shard → r ∈ s.wal

/-- The log of the owner and that of the replica are any logs, the replica without a gap. -/
structure Started (s : FailoverState) : Prop where
  noGap : NoGap cfg s
  idle : s.calls = []

/-- The replica has every record of the owner up to the owner's last healthy LSN of each plan that
is ready. -/
def Complete : Prop :=
  ∀ plan, PlanCall.returned (.ok plan) ∈ s.calls → plan.ready = true → ∃ lsn, plan.ownerLastSeenOkLsn = some lsn ∧
      ∀ r ∈ s.remote.localRecords, r.shard = cfg.remote.shard → r.lsn ≤ lsn → r ∈ s.wal

/-! ## What a plan compares -/

variable {cfg}

/-- A ready plan has a last healthy LSN of the owner, and the LSN of the replica is not below it. -/
theorem failoverPlan_ready {request : FailoverPlanRequest} {currentOwner : String}
    {currentEpoch currentShardLsn : Nat} {monitor : PeerHealthMonitorState}
    (h : (failoverPlan cfg request currentOwner currentEpoch currentShardLsn monitor).ready = true) :
    ∃ lsn, (failoverPlan cfg request currentOwner currentEpoch currentShardLsn monitor).ownerLastSeenOkLsn = some lsn ∧
    lsn ≤ currentShardLsn := by
  have hreason := isNone_iff_eq_none.mp h
  simp only [failoverReason] at hreason
  repeat' split at hreason
  all_goals cases hreason
  next ownerLsn hlsn hlow => exact ⟨ownerLsn, hlsn, Nat.le_of_not_lt hlow⟩

theorem latestLsnForShard_append (a b : List WalRecord) (shard : Nat) :
    latestLsnForShard (a ++ b) shard =
    max (latestLsnForShard a shard) (latestLsnForShard b shard) := by
  unfold latestLsnForShard
  rw [filter_append]
  apply Nat.le_antisymm
  · refine highestLsnOf_le fun r hr => ?_
    rcases mem_append.mp hr with hr | hr
    · exact (le_highestLsnOf hr).trans (Nat.le_max_left _ _)
    · exact (le_highestLsnOf hr).trans (Nat.le_max_right _ _)
  · refine Nat.max_le.mpr ⟨highestLsnOf_le fun r hr => ?_, highestLsnOf_le fun r hr => ?_⟩
    · exact le_highestLsnOf (mem_append_left _ hr)
    · exact le_highestLsnOf (mem_append_right _ hr)

theorem latestLsnForShard_filter (records : List WalRecord) (keep : WalRecord → Bool)
    (shard : Nat) :
    latestLsnForShard (records.filter keep) shard ≤ latestLsnForShard records shard := by
  refine highestLsnOf_le fun r hr => ?_
  obtain ⟨hr, hshard⟩ := mem_filter.mp hr
  exact le_highestLsnOf (mem_filter.mpr ⟨mem_of_mem_filter hr, hshard⟩)

/-! ## The invariant -/

/-- What a call has read, or has compared, is not above the log of the replica. -/
def PlanCall.Ok (cfg : FailoverConfig) (s : FailoverState) : PlanCall → Prop
  | .planning request => request.shard = cfg.remote.shard
  | .measured _ currentShardLsn => currentShardLsn ≤ latestLsnForShard s.wal cfg.remote.shard
  | .returned (.ok plan) => plan.ready = true →
    ∃ lsn, plan.ownerLastSeenOkLsn = some lsn ∧ lsn ≤ latestLsnForShard s.wal cfg.remote.shard
  | .returned (.error _) => True

/-- The replica has no gap, and the calls have read what was there. -/
structure Inv (cfg : FailoverConfig) (s : FailoverState) : Prop where
  noGap : NoGap cfg s
  calls : ∀ call ∈ s.calls, call.Ok cfg s

section Steps

variable {s s' : FailoverState}

theorem PlanCall.Ok.mono {call : PlanCall} (h : call.Ok cfg s)
    (hle : latestLsnForShard s.wal cfg.remote.shard ≤ latestLsnForShard s'.wal cfg.remote.shard) :
    call.Ok cfg s' := by
  cases call with
  | planning request => exact h
  | measured request currentShardLsn => exact Nat.le_trans h hle
  | returned result =>
    cases result with
    | error err => trivial
    | ok plan =>
      intro hready
      obtain ⟨lsn, hlsn, hlow⟩ := h hready
      exact ⟨lsn, hlsn, hlow.trans hle⟩

theorem PlanCall.Ok.advance {call : PlanCall} (h : call.Ok cfg s) :
    (call.advance cfg s).Ok cfg s := by
  cases call with
  | planning request =>
    dsimp only [PlanCall.advance]
    split
    · exact Nat.le_of_eq (congrArg _ h)
    · trivial
  | measured request currentShardLsn =>
    intro hready
    obtain ⟨lsn, hlsn, hlow⟩ := failoverPlan_ready hready
    exact ⟨lsn, hlsn, hlow.trans h⟩
  | returned result => exact h

/-- Records that leave no gap reach the log of the replica. -/
theorem Inv.fill (h : Inv cfg s) {batch kept : List WalRecord} {remote : RemoteState}
    (hlocal : remote.localRecords = s.remote.localRecords) (hfills : FillsNoGap cfg s batch)
    (hkept : ∀ r ∈ batch,
    r ∈ s.wal ∨ r ∈ kept)
    (hsub : latestLsnForShard kept cfg.remote.shard ≤ latestLsnForShard batch cfg.remote.shard) :
    Inv cfg { s with remote, wal := s.wal ++ kept } := by
  have hlatest := latestLsnForShard_append s.wal kept cfg.remote.shard
  refine ⟨fun r hr hshard hle => ?_, fun call hcall => (h.calls call hcall).mono ?_⟩
  · have hr : r ∈ s.remote.localRecords := hlocal ▸ hr
    have hle : r.lsn ≤ latestLsnForShard (s.wal ++ kept) cfg.remote.shard := hle
    show r ∈ s.wal ++ kept
    rw [mem_append]
    by_cases hold : r.lsn ≤ latestLsnForShard s.wal cfg.remote.shard
    · exact .inl (h.noGap r hr hshard hold)
    · rcases hfills r hr hshard (by omega) with hwal | hbatch
      · exact .inl hwal
      · exact hkept r hbatch
  · show latestLsnForShard s.wal cfg.remote.shard ≤ latestLsnForShard (s.wal ++ kept) cfg.remote.shard
    omega

theorem Inv.step {event : FailoverEvent} (h : Inv cfg s) (hmeets : Meets cfg s event)
    (hstep : FailoverStep cfg s event s') : Inv cfg s' := by
  cases hstep with
  | append hremote =>
    refine ⟨fun r hr hshard hle => ?_, h.calls⟩
    rcases (mem_localRecords_append hremote).mp hr with hr | hr
    · exact h.noGap r hr hshard hle
    · exact absurd hle (Nat.not_le.mpr (hmeets r hr))
  | @remote event skips remote hother hremote =>
    refine h.fill (remoteStep_localRecords hremote hother) (hmeets.2 remote hremote) (fun r hr => ?_)
      (latestLsnForShard_filter _ _ _)
    by_cases hskip : skips r = true
    · exact .inl (hmeets.1 r hskip)
    · exact .inr (mem_filter.mpr ⟨hr, by simp [hskip]⟩)
  | other => exact h.fill rfl hmeets (fun r hr => .inr hr) (Nat.le_refl _)
  | commit | monitor => exact ⟨h.noGap, h.calls⟩
  | plan hshard =>
    refine ⟨h.noGap, fun call hcall => ?_⟩
    rcases mem_append.mp hcall with hcall | hcall
    · exact h.calls call hcall
    · rw [mem_singleton.mp hcall]
      exact hshard
  | @advance i call hcall =>
    refine ⟨h.noGap, fun other hother => ?_⟩
    rcases mem_or_eq_of_mem_set hother with hother | rfl
    · exact h.calls other hother
    · exact (h.calls call (mem_of_getElem? hcall)).advance

/-- A plan that is ready has every record of the shard up to the owner's last healthy LSN, in every
run in which the log of the replica is filled without gaps and the owner appends above it. -/
theorem failover_complete {s₀ : FailoverState} (hstarted : Started cfg s₀)
    (h : Reaches (FailoverStep cfg) (Meets cfg) s₀ s) : Complete cfg s := by
  have hnone : Inv cfg s₀ := by
    refine ⟨hstarted.noGap, fun call hcall => ?_⟩
    rw [hstarted.idle] at hcall
    cases hcall
  have hinv : Inv cfg s := h.invariant (fun _ _ _ hs hmeets hstep => hs.step hmeets hstep) hnone
  intro plan hplan hready
  obtain ⟨lsn, hlsn, hlow⟩ := hinv.calls _ hplan hready
  exact ⟨lsn, hlsn, fun r hr hshard hle => hinv.noGap r hr hshard (hle.trans hlow)⟩

end Steps

/-! ## Runs that are computed -/

/-- The events of a run that is computed. -/
inductive Action where
  /-- A segment of one record. -/
  | append (lsn : Nat)
  | complete (outcome : RemoteOutcome)
  | commit (lsn : Nat)
  /-- The monitor asks the owner. -/
  | monitor (answer : HealthAnswer)
  | plan
  | advance (call : Nat)

def sampleRequest (cfg : FailoverConfig) : FailoverPlanRequest := ⟨cfg.remote.shard, none⟩

def Action.event (cfg : FailoverConfig) : Action → FailoverEvent
  | .append lsn => .append [sampleRecord lsn] true
  | .complete outcome => .remote (.complete 0 outcome) fun _ => false
  | .commit lsn => .commit lsn
  | .monitor answer => .monitor fun _ => answer
  | .plan => .plan (sampleRequest cfg)
  | .advance i => .advance i

/-- The LSN that a healthy owner reports. -/
def HealthAnswer.lsn : HealthAnswer → Nat
  | .body _ _ _ currentLsn => currentLsn.getD 0
  | .failed _ _ => 0

def FailoverState.next (cfg : FailoverConfig) (s : FailoverState) : Action → Option FailoverState
  | .append lsn =>
    if s.remote.repair.isNone ∧ highestLsnOf s.remote.localRecords < lsn then
      some { s with remote := appendSegment cfg.remote s.remote [sampleRecord lsn] true }
    else none
  | .complete outcome => do
    let t ← s.remote.inFlight[0]?
    let remote := completeTask { s.remote with inFlight := s.remote.inFlight.eraseIdx 0 } t outcome
    return { s with remote, wal := s.wal ++ (delivered cfg s remote).filter fun _ => true }
  | .commit lsn => some { s with ownerLsn := max s.ownerLsn lsn }
  | .monitor answer =>
    if answer.lsn ≤ s.ownerLsn then
      some { s with monitor := runPeerHealthMonitorOnce cfg s.monitor fun _ => answer }
    else none
  | .plan => some { s with calls := s.calls ++ [.planning (sampleRequest cfg)] }
  | .advance i => do
    let call ← s.calls[i]?
    return { s with calls := s.calls.set i (call.advance cfg s) }

theorem FailoverStep.of_next {s t : FailoverState} {action : Action}
    (h : s.next cfg action = some t) :
    FailoverStep cfg s (action.event cfg) t := by
  cases action with
  | append lsn =>
    dsimp only [FailoverState.next] at h
    split at h
    · next hrecords =>
      cases h
      refine .append (.append (isNone_iff_eq_none.mp hrecords.1) ⟨pairwise_singleton _ _, fun r hr => ?_⟩)
      rw [mem_singleton.mp hr]
      exact hrecords.2
    · cases h
  | complete outcome =>
    obtain ⟨task, htask, h⟩ := bind_eq_some_iff.mp h
    cases h
    exact .remote nofun (.complete htask)
  | commit lsn =>
    cases h
    exact .commit
  | monitor answer =>
    dsimp only [FailoverState.next] at h
    split at h
    · next hlsn =>
      cases h
      refine .monitor fun status ok acceptingWrites lsn hanswer => ?_
      have hanswer : answer = .body status ok acceptingWrites (some lsn) := hanswer
      rwa [hanswer] at hlsn
    · cases h
  | plan =>
    cases h
    exact .plan rfl
  | advance i =>
    obtain ⟨call, hcall, h⟩ := bind_eq_some_iff.mp h
    cases h
    exact .advance hcall

/-! ### An owner and its replica -/

section Sample

def replicaOfA : FailoverConfig where
  cluster := ⟨"b", (∅ : BTreeMap String ClusterNode).insert "a" ⟨"a", some "http://a"⟩, ["a"], [1], [["b"]]⟩
  overrides := ∅
  walShards := 1
  remote := sampleConfig
  place := 0

def startState : FailoverState := ⟨sampleStart, 0, [], ⟨true, ∅⟩, []⟩

theorem startState_started : Started replicaOfA startState where
  noGap := fun _ h => nomatch h
  idle := rfl

/-- The owner is healthy, then it is not, and the replica makes a plan. -/
def planActions (lsn : Nat) : List Action :=
  [.commit lsn, .monitor (.body 200 (some true) (some true) (some lsn)),
    .monitor (.failed none "health request timed out"), .plan, .advance 0, .advance 0]

/-- The plan is ready, with this last healthy LSN. -/
def readyAt (s : FailoverState) (lsn : Nat) : Bool :=
  match s.calls with
  | [.returned (.ok plan)] => plan.ready && plan.ownerLastSeenOkLsn = some lsn
  | _ => false

theorem readyAt_spec {s : FailoverState} {lsn : Nat} (h : readyAt s lsn = true) :
    ∃ plan, PlanCall.returned (.ok plan) ∈ s.calls ∧ plan.ready = true ∧
    plan.ownerLastSeenOkLsn = some lsn := by
  unfold readyAt at h
  split at h
  · next plan hcalls =>
    obtain ⟨hready, hlsn⟩ := Bool.and_eq_true_iff.mp h
    exact ⟨plan, hcalls ▸ mem_singleton.mpr rfl, hready, of_decide_eq_true hlsn⟩
  · cases h

/-- The first segment does not arrive, and the second does. -/
theorem failover_incomplete : ¬∀ (cfg : FailoverConfig) (s₀ s : FailoverState), Started cfg s₀ →
    Reaches (FailoverStep cfg) (fun _ _ => True) s₀ s → Complete cfg s := by
  intro h
  have hrun : (run (FailoverState.next replicaOfA) (fun _ _ => true) startState
      ([.append 1, .complete (.failed false "refused"), .append 2, .complete .acked] ++ planActions 2)).any
        (fun s => readyAt s 2 && s.remote.localRecords.any (fun r => r.lsn = 1 && r.shard = 0) && s.wal.all
          (·.lsn = 2)) = true := by
    decide +kernel
  obtain ⟨s, hs, hfacts⟩ := (any_eq_true _ _).mp hrun
  obtain ⟨hfacts, hwal⟩ := Bool.and_eq_true_iff.mp hfacts
  obtain ⟨hready, hlocal⟩ := Bool.and_eq_true_iff.mp hfacts
  obtain ⟨plan, hplan, hready, hlsn⟩ := readyAt_spec hready
  have hreaches : Reaches (FailoverStep replicaOfA) (fun _ _ => True) startState s :=
    Reaches.of_actions (fun u action v hnext _ => ⟨action.event replicaOfA, trivial, .of_next hnext⟩) hs
  obtain ⟨r, hr, hfirst⟩ := any_eq_true.mp hlocal
  simp only [Bool.and_eq_true, decide_eq_true_eq] at hfirst
  obtain ⟨lsn, hlsn', hall⟩ := h replicaOfA startState s startState_started hreaches plan hplan hready
  rw [hlsn] at hlsn'
  cases hlsn'
  have hmem := hall r hr hfirst.2 (by omega)
  have htwo := of_decide_eq_true (all_eq_true.mp hwal r hmem)
  omega

/-- The first segment is on its way. -/
def appendedState : FailoverState :=
  { startState with remote := appendSegment sampleConfig sampleStart [sampleRecord 1] true }

/-- It has arrived. -/
def arrivedState : FailoverState :=
  { appendedState with
    remote := completeTask { appendedState.remote with inFlight := [] } ⟨0, sampleEndpoint, [sampleRecord 1]⟩ .acked
    wal := [sampleRecord 1] }

theorem arrivedState_reached :
    Reaches (FailoverStep replicaOfA) (Meets replicaOfA) startState arrivedState := by
  have hstart : FailoverStep replicaOfA startState (.append [sampleRecord 1] true) appendedState :=
    .of_next (show startState.next replicaOfA (.append 1) = some appendedState from rfl)
  have hend : FailoverStep replicaOfA appendedState (.remote (.complete 0 .acked) fun _ => false) arrivedState :=
    .of_next (show appendedState.next replicaOfA (.complete .acked) = some arrivedState from rfl)
  refine ((Reaches.refl _).take hstart ?_).take hend ⟨nofun, ?_⟩
  · intro r hr
    rw [mem_singleton.mp hr]
    decide
  · intro remote hremote
    cases hremote with
    | complete htask =>
      cases htask
      exact fun r hr _ _ => .inr hr

/-- The action is not one of the owner. -/
def ofReplica : Action → Bool
  | .append _ | .complete _ => false
  | _ => true

theorem meets_ofReplica (s : FailoverState) {action : Action} (h : ofReplica action = true) :
    Meets replicaOfA s (action.event replicaOfA) := by
  cases action with
  | append | complete => cases h
  | commit | monitor | plan | advance => trivial

/-- The replica has the record, and the plan is ready. -/
theorem failover_complete_sample : ∃ s, readyAt s 1 = true ∧ Complete replicaOfA s := by
  have hrun : (run (FailoverState.next replicaOfA) (fun _ => ofReplica) arrivedState (planActions 1)).any
      (readyAt · 1) = true := by
    decide +kernel
  obtain ⟨s, hs, hready⟩ := (any_eq_true _ _).mp hrun
  have hreaches : Reaches (FailoverStep replicaOfA) (Meets replicaOfA) arrivedState s :=
    Reaches.of_actions
      (fun u action v hnext hcheck => ⟨action.event replicaOfA, meets_ofReplica u hcheck, .of_next hnext⟩) hs
  exact ⟨s, hready, failover_complete startState_started (arrivedState_reached.trans hreaches)⟩

end Sample

end NextDb.Api.Failover
