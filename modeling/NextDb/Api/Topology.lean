import NextDb.Api.Mutation

/-!
# The topology of a cluster

Each shard has an owner, an epoch and replicas: those of the configuration, unless an
override of the node says otherwise. A request overrides some of them.

* `epoch_buildTopologyOverridesAfterRequest`: a request does not lower an epoch that it was
  checked against.
-/

namespace NextDb

structure ClusterShardOverride where
  owner : Option String
  epoch : Option Nat
  replicas : Option (List String)
deriving DecidableEq

/-- `ClusterShardOverride::default`. -/
def ClusterShardOverride.default : ClusterShardOverride := ⟨none, none, none⟩

abbrev Overrides := BTreeMap Nat ClusterShardOverride

structure ClusterNode where
  id : String
  url : Option String
deriving DecidableEq

structure ClusterConfig where
  nodeId : String
  nodes : BTreeMap String ClusterNode
  owners : List String
  epochs : List Nat
  replicas : List (List String)

variable (cluster : ClusterConfig)

def ClusterConfig.ownerForShard (shard : Nat) : String := cluster.owners[shard]?.getD cluster.nodeId

def ClusterConfig.ownerForShardWithOverrides (shard : Nat) (overrides : Overrides) : String :=
  (overrides[shard]?.bind (·.owner)).getD (cluster.ownerForShard shard)

def ClusterConfig.epochForShard (shard : Nat) : Nat := cluster.epochs[shard]?.getD 1

def ClusterConfig.epochForShardWithOverrides (shard : Nat) (overrides : Overrides) : Nat :=
  (overrides[shard]?.bind (·.epoch)).getD (cluster.epochForShard shard)

def ClusterConfig.replicasForShard (shard : Nat) : List String := cluster.replicas[shard]?.getD []

def ClusterConfig.replicasForShardWithOverrides (shard : Nat) (overrides : Overrides) :
    List String :=
  (overrides[shard]?.bind (·.replicas)).getD (cluster.replicasForShard shard)

def ClusterConfig.nodeUrlFor (nodeId : String) : Option String :=
  cluster.nodes[nodeId]?.bind (·.url)

namespace Api

structure ApplyTopologyOverrideRequest where
  shard : Nat
  owner : Option String
  epoch : Option Nat
  replicas : Option (List String)
deriving DecidableEq

structure TopologyPropagationResult where
  nodeId : String
  url : String
  applied : Bool
  status : Option Nat
  error : Option String
deriving DecidableEq

/-- `self_topology_result`. -/
def selfTopologyResult (operation : String) : TopologyPropagationResult where
  nodeId := cluster.nodeId
  url := (cluster.nodeUrlFor cluster.nodeId).getD "local"
  applied := true
  status := some 200
  error := some s!"local {operation}"

/-- The results that count as acknowledgements. -/
def ackCount (results : List TopologyPropagationResult) : Nat := results.countP (·.applied)

/-- The names that are left of the replicas of a request: without blanks, each once. -/
def normalizeReplicas (replicas : List String) : List String :=
  replicas.foldl (fun normalized replica =>
    let replica := trim replica
    if replica.isEmpty ∨ replica ∈ normalized then normalized else normalized ++ [replica]) []

/-- `normalize_topology_override_request`, of a node with the shards of its log. -/
def normalizeTopologyOverrideRequest (walShards : Nat) (overrides : Overrides)
    (request : ApplyTopologyOverrideRequest) : Except ApiError ApplyTopologyOverrideRequest :=
  if walShards ≤ request.shard then .error (.badRequest "shard is out of range")
  else
    let currentEpoch := cluster.epochForShardWithOverrides request.shard overrides
    match request.epoch.filter (· < currentEpoch) with
    | some epoch => .error (.conflict
        s!"topology override epoch {epoch} is lower than current epoch {currentEpoch}")
    | none =>
      if request.owner.any fun owner => (trim owner).isEmpty then .error (.badRequest "owner cannot be empty")
      else .ok { request with
        owner := request.owner.map trim
        replicas := request.replicas.map normalizeReplicas }

/-- The override of the shard that a request makes. -/
def ClusterShardOverride.after (entry : ClusterShardOverride)
    (request : ApplyTopologyOverrideRequest) :
    ClusterShardOverride where
  owner := request.owner <|> entry.owner
  epoch := request.epoch.map (max · 1) <|> entry.epoch
  replicas := request.replicas <|> entry.replicas

/-- `build_topology_overrides_after_request`. -/
def buildTopologyOverridesAfterRequest (overrides : Overrides)
    (request : ApplyTopologyOverrideRequest) :
    Overrides :=
  overrides.insert request.shard (ClusterShardOverride.after (overrides[request.shard]?.getD .default) request)

/-! ## What a request changes -/

variable {cluster} {walShards : Nat} {overrides : Overrides}
    {request normalized : ApplyTopologyOverrideRequest}

theorem normalizeTopologyOverrideRequest_ok
    (h : normalizeTopologyOverrideRequest cluster walShards overrides request = .ok normalized) :
    normalized.shard = request.shard ∧ normalized.epoch = request.epoch ∧
    normalized.owner = request.owner.map trim ∧
    ∀ epoch, request.epoch = some epoch →
    cluster.epochForShardWithOverrides request.shard overrides ≤ epoch := by
  unfold normalizeTopologyOverrideRequest at h
  split at h
  · cases h
  dsimp only at h
  split at h
  · cases h
  next hlower =>
    split at h
    · cases h
    · cases h
      refine ⟨rfl, rfl, rfl, fun epoch hepoch => ?_⟩
      rw [hepoch] at hlower
      by_contra hlt
      simp [Option.filter, Nat.lt_of_not_le hlt] at hlower

theorem normalizeTopologyOverrideRequest_shard
    (h : normalizeTopologyOverrideRequest cluster walShards overrides request = .ok normalized) :
    request.shard < walShards := by
  unfold normalizeTopologyOverrideRequest at h
  split at h
  · cases h
  · next hshard => exact Nat.lt_of_not_le hshard

theorem getElem?_buildTopologyOverridesAfterRequest (overrides : Overrides)
    (request : ApplyTopologyOverrideRequest)
    (shard : Nat) : (buildTopologyOverridesAfterRequest overrides request)[shard]? =
    if request.shard = shard then
    some (ClusterShardOverride.after (overrides[shard]?.getD .default) request) else overrides[shard]? := by
  rw [buildTopologyOverridesAfterRequest, Std.ExtTreeMap.getElem?_insert]
  by_cases h : request.shard = shard
  · subst h
    simp
  · simp [h]

/-- A request without an epoch keeps the epoch, and one with an epoch sets it. -/
theorem epoch_buildTopologyOverridesAfterRequest (overrides : Overrides)
    (request : ApplyTopologyOverrideRequest) (shard
    : Nat) : cluster.epochForShardWithOverrides shard (buildTopologyOverridesAfterRequest overrides request) =
      match request.epoch with
      | some epoch => if request.shard = shard then max epoch 1
          else cluster.epochForShardWithOverrides shard overrides
      | none => cluster.epochForShardWithOverrides shard overrides := by
  unfold ClusterConfig.epochForShardWithOverrides
  rw [getElem?_buildTopologyOverridesAfterRequest]
  by_cases h : request.shard = shard
  · rw [if_pos h]
    cases hepoch : request.epoch with
    | some epoch => simp [ClusterShardOverride.after, hepoch, h]
    | none =>
      cases hentry : overrides[shard]? with
      | none => simp [ClusterShardOverride.after, hepoch, ClusterShardOverride.default]
      | some entry => simp [ClusterShardOverride.after, hepoch]
  · rw [if_neg h]
    cases request.epoch <;> simp [h]

/-- A request without an owner keeps the owner, and one with an owner sets it. -/
theorem owner_buildTopologyOverridesAfterRequest (overrides : Overrides)
    (request : ApplyTopologyOverrideRequest) (shard
    : Nat) : cluster.ownerForShardWithOverrides shard (buildTopologyOverridesAfterRequest overrides request) =
      match request.owner with
      | some owner => if request.shard = shard then owner
          else cluster.ownerForShardWithOverrides shard overrides
      | none => cluster.ownerForShardWithOverrides shard overrides := by
  unfold ClusterConfig.ownerForShardWithOverrides
  rw [getElem?_buildTopologyOverridesAfterRequest]
  by_cases h : request.shard = shard
  · rw [if_pos h]
    cases howner : request.owner with
    | some owner => simp [ClusterShardOverride.after, howner, h]
    | none =>
      cases hentry : overrides[shard]? with
      | none => simp [ClusterShardOverride.after, howner, ClusterShardOverride.default]
      | some entry => simp [ClusterShardOverride.after, howner]
  · rw [if_neg h]
    cases request.owner <;> simp [h]

end Api

end NextDb
