import NextDb.Api.Topology
import NextDb.Lib.Run

/-!
# Topology proposals of a cluster

A node prepares a proposal: it takes its topology lease under a higher term, stores the
proposal and asks its peers one after another to do the same. A commit asks the peers to
apply the proposal, counts the answers and applies it itself. Requests to peers may be lost,
repeated and late, clocks may show anything, and calls on one node interleave wherever they
wait.

* `TopologyCall.advance`: what a call does between two such points; `TopologyCall.advances`
  lists it stage by stage.
* `ClusterStep`: the steps of a cluster.
-/

namespace NextDb.Api.TopologyCluster

open Option Function

/-! ## Proposals and leases -/

/-- How far a proposal has come. -/
inductive TopologyProposalPhase where
  | prepared
  | committed
  | failed
  | aborted
deriving DecidableEq

structure TopologyProposal where
  id : String
  proposedBy : String
  term : Nat
  leaseExpiresAtMs : Nat
  reason : String
  phase : TopologyProposalPhase
  request : ApplyTopologyOverrideRequest
  prepareAcks : List TopologyPropagationResult
  commitResults : List TopologyPropagationResult
  requiredAcks : Nat
  lastError : Option String
deriving DecidableEq

structure TopologyLease where
  currentTerm : Nat
  holderNodeId : Option String
  proposalId : Option String
  expiresAtMs : Option Nat

variable (lease : TopologyLease)

/-- The lease without its holder. -/
def TopologyLease.free : TopologyLease :=
  { lease with holderNodeId := none, proposalId := none, expiresAtMs := none }

/-- The holder, as the errors name it. -/
def TopologyLease.holder : String := lease.holderNodeId.getD ""

/-- `acquire_topology_lease_for_proposal`, on the node. -/
def acquireTopologyLeaseForProposal (nodeId : String) (topologyLeaseMs now : Nat)
    (lease : TopologyLease)
    (proposal : TopologyProposal) : Except ApiError (TopologyLease × TopologyProposal) :=
  if lease.expiresAtMs.any (now < ·) ∧ lease.holderNodeId.any (· ≠ nodeId) then
    .error (.conflict s!"topology lease is held by {lease.holder} until {lease.expiresAtMs.getD 0}")
  else
    let term := max (min (lease.currentTerm + 1) (2 ^ 64 - 1)) 1
    let expiresAt := now + topologyLeaseMs
    .ok (⟨term, some nodeId, some proposal.id, some expiresAt⟩,
      { proposal with term, leaseExpiresAtMs := expiresAt })

/-- The proposal holds the lease. -/
def TopologyLease.isFor (proposal : TopologyProposal) : Prop :=
  lease.holderNodeId = some proposal.proposedBy ∧ lease.proposalId = some proposal.id

instance (lease : TopologyLease) (proposal : TopologyProposal) : Decidable (lease.isFor proposal) :=
  inferInstanceAs (Decidable (_ ∧ _))

/-- `accept_topology_lease_for_proposal`, on a peer. -/
def acceptTopologyLeaseForProposal (now : Nat) (lease : TopologyLease)
    (proposal : TopologyProposal) :
    Except ApiError TopologyLease :=
  if proposal.term < lease.currentTerm then
    .error (.conflict s!"topology proposal term {proposal.term} is lower than current term {lease.currentTerm}")
  else if proposal.term = lease.currentTerm ∧ ¬lease.isFor proposal ∧ lease.expiresAtMs.any (now < ·) then
    .error (.conflict s!"topology lease term {lease.currentTerm} is held by {lease.holder}")
  else
    .ok ⟨proposal.term, some proposal.proposedBy, some proposal.id, some proposal.leaseExpiresAtMs⟩

def ensureTopologyLeaseMatches (now : Nat) (lease : TopologyLease) (proposal : TopologyProposal) :
    Except ApiError Unit :=
  if proposal.term ≠ lease.currentTerm then
    .error (.conflict s!"topology proposal term {proposal.term} does not match current term {lease.currentTerm}")
  else if ¬lease.isFor proposal then .error (.conflict "topology lease holder does not match proposal")
  else if lease.expiresAtMs.any (· < now) then .error (.conflict "topology lease has expired")
  else .ok ()

def releaseTopologyLease (proposal : TopologyProposal) : TopologyLease :=
  if lease.currentTerm = proposal.term ∧ lease.isFor proposal then lease.free else lease

def cleanupExpiredTopologyLease (now : Nat) (lease : TopologyLease) : TopologyLease :=
  if lease.holderNodeId.isSome ∧ lease.expiresAtMs.any (· ≤ now) then lease.free else lease

/-! ## The checks of a call -/

variable (proposal : TopologyProposal)

/-- `commit_topology_proposal_inner` on the proposal that it reads: the result, if there is one
already. -/
def commitTopologyProposal : Option (Except ApiError TopologyProposal) :=
  match proposal.phase with
  | .committed => some (.ok proposal)
  | .failed => some (.error (.conflict "topology proposal has failed"))
  | .prepared | .aborted =>
    if ackCount proposal.prepareAcks < proposal.requiredAcks then some (.error (.conflict
      s!"topology proposal requires {proposal.requiredAcks} prepare acks, got {ackCount proposal.prepareAcks}"))
    else none

/-- `abort_topology_proposal_inner` on the proposal that it reads. -/
def abortTopologyProposal : Option (Except ApiError TopologyProposal) :=
  if proposal.phase = .committed then
    some (.error (.conflict "committed topology proposal cannot be aborted"))
  else none

/-- `retry_topology_proposal_inner`: the proposal may be prepared again. -/
def retryTopologyProposal (now : Nat) (proposal : TopologyProposal) : Except ApiError Unit :=
  if proposal.phase = .committed then .error (.conflict "committed topology proposal cannot be retried")
  else if proposal.phase = .prepared ∧ now < proposal.leaseExpiresAtMs then
    .error (.conflict "prepared topology proposal still holds an active lease")
  else .ok ()

/-- The proposal with the answers of the peers to `prepare`. -/
def TopologyProposal.acknowledge (proposal : TopologyProposal)
    (results : List TopologyPropagationResult) :
    TopologyProposal :=
  let prepareAcks := proposal.prepareAcks ++ results
  let acked := ackCount prepareAcks
  if acked < proposal.requiredAcks then
    { proposal with
      prepareAcks
      phase := .failed
      lastError := some s!"topology proposal prepare requires {proposal.requiredAcks} acks, got {acked}" }
  else { proposal with prepareAcks }

def TopologyProposal.commitFailed (results : List TopologyPropagationResult) :
    TopologyProposal :=
  { proposal with
    phase := .failed
    commitResults := results
    lastError := some s!"topology proposal commit requires {proposal.requiredAcks} acks, got {ackCount results + 1}" }

def TopologyProposal.commit (config : ClusterConfig) (proposal : TopologyProposal)
    (results : List TopologyPropagationResult) : TopologyProposal :=
  { proposal with
    phase := .committed
    commitResults := results ++ [selfTopologyResult config "commit"]
    lastError := none }

def TopologyProposal.abort (proposal : TopologyProposal) : TopologyProposal :=
  { proposal with phase := .aborted, lastError := some "aborted by operator" }

/-! ## Calls -/

/-- A request to a peer. -/
inductive Message where
  | prepare (peer : String) (proposal : TopologyProposal)
  | commit (peer proposalId : String)
  | abort (peer proposalId : String)
deriving DecidableEq

def Message.peer : Message → String
  | .prepare peer _ | .commit peer _ | .abort peer _ => peer

/-- What a call was made for. -/
inductive Source where
  /-- `prepare_topology_proposal_inner_with_policy`. -/
  | prepare (returnFailed : Bool)
  | commit
  | abort
  | peer (message : Message)
deriving DecidableEq

/-- What a call does next. -/
inductive Stage where
  | normalizing
  | acquiring
  | accepting
  | inserting
  | matching
  | asking (peers : List String) (results : List TopologyPropagationResult)
  | applying (results : List TopologyPropagationResult)
  | checked (results : List TopologyPropagationResult)
  | normalized (results : List TopologyPropagationResult) (request : ApplyTopologyOverrideRequest)
  | built (results : List TopologyPropagationResult) (request : ApplyTopologyOverrideRequest)
      (next : Overrides)
  | releasing
  | storing
  | stored
  | returned (result : Except ApiError TopologyProposal)
  /-- The client is gone. -/
  | dropped

/-- The call has not ended. -/
def Stage.active : Stage → Bool
  | .returned _ | .dropped => false
  | _ => true

/-- A call on its way. -/
structure TopologyCall where
  source : Source
  /-- The call's copy of the proposal. -/
  proposal : TopologyProposal
  stage : Stage

/-- What a node has of the topology. -/
structure TopologyState where
  overrides : Overrides
  lease : TopologyLease
  proposals : BTreeMap String TopologyProposal

/-- `topology_peer_nodes`. -/
def topologyPeerNodes (config : ClusterConfig) : List String :=
  (config.nodes.toList.filter fun node => node.2.id ≠ config.nodeId ∧ node.2.url.isSome).map (·.2.id)

def requiredTopologyAcks (config : ClusterConfig) : Nat := config.nodes.size / 2 + 1

/-- The proposal of a prepare call. -/
def newProposal (config : ClusterConfig) (id reason : String)
    (request : ApplyTopologyOverrideRequest) :
    TopologyProposal where
  id
  proposedBy := config.nodeId
  term := 0
  leaseExpiresAtMs := 0
  reason
  phase := .prepared
  request
  prepareAcks := [selfTopologyResult config "prepare"]
  commitResults := []
  requiredAcks := requiredTopologyAcks config
  lastError := none

def TopologyCall.to (call : TopologyCall) (stage : Stage) : TopologyCall := { call with stage }

def TopologyCall.fails (call : TopologyCall) (err : ApiError) : TopologyCall :=
  call.to (.returned (.error err))

/-- All peers have answered. -/
def TopologyCall.answered (call : TopologyCall) (results : List TopologyPropagationResult) :
    TopologyCall :=
  match call.source with
  | .prepare _ =>
    let proposal := call.proposal.acknowledge results
    { call with proposal, stage := if proposal.phase = .failed then .releasing else .storing }
  | .commit =>
    if ackCount results + 1 < call.proposal.requiredAcks then
      { call with proposal := call.proposal.commitFailed results, stage := .releasing }
    else call.to (.applying results)
  | .abort | .peer _ => { call with proposal := call.proposal.abort, stage := .releasing }

/-- What a call returns whose proposal is stored. -/
def TopologyCall.result (call : TopologyCall) : Except ApiError TopologyProposal :=
  match call.source with
  | .prepare true => .ok call.proposal
  | _ =>
    if call.proposal.phase = .failed then .error (.conflict (call.proposal.lastError.getD ""))
    else .ok call.proposal

/-- The settings of a node. -/
structure NodeSettings where
  config : ClusterConfig
  walShards : Nat
  topologyLeaseMs : Nat

/-- A call goes on to the next point where it waits. -/
def TopologyCall.advance (settings : NodeSettings) (now : Nat) (answer : TopologyPropagationResult)
    (state : TopologyState) (call : TopologyCall) : TopologyState × TopologyCall :=
  let { config, walShards, topologyLeaseMs } := settings
  match call.stage with
  | .normalizing =>
    match normalizeTopologyOverrideRequest config walShards state.overrides call.proposal.request with
    | .error err => (state, call.fails err)
    | .ok request =>
      let stage := match call.source with
        | .peer _ => .accepting
        | _ => .acquiring
      (state, { call with proposal := { call.proposal with request }, stage })
  | .acquiring =>
    match acquireTopologyLeaseForProposal config.nodeId topologyLeaseMs now state.lease call.proposal with
    | .error err => (state, call.fails err)
    | .ok (lease, proposal) => ({ state with lease }, { call with proposal, stage := .inserting })
  | .accepting =>
    match acceptTopologyLeaseForProposal now state.lease call.proposal with
    | .error err => (state, call.fails err)
    | .ok lease =>
      ({ state with lease },
        { call with proposal := { call.proposal with phase := .prepared, lastError := none }, stage := .storing })
  | .inserting =>
    ({ state with proposals := state.proposals.insert call.proposal.id call.proposal },
      call.to (.asking (topologyPeerNodes config) []))
  | .matching =>
    match ensureTopologyLeaseMatches now state.lease call.proposal with
    | .error err => (state, call.fails err)
    | .ok _ =>
      (state, call.to (match call.source with
        | .peer _ => .applying []
        | _ => .asking (topologyPeerNodes config) []))
  | .asking (_ :: peers) results => (state, call.to (.asking peers (results ++ [answer])))
  | .asking [] results => (state, call.answered results)
  | .applying results =>
    match ensureTopologyLeaseMatches now state.lease call.proposal with
    | .error err => (state, call.fails err)
    | .ok _ => (state, call.to (.checked results))
  | .checked results =>
    match normalizeTopologyOverrideRequest config walShards state.overrides call.proposal.request with
    | .error err => (state, call.fails err)
    | .ok request => (state, call.to (.normalized results request))
  | .normalized results request =>
    (state, call.to (.built results request (buildTopologyOverridesAfterRequest state.overrides request)))
  | .built results _ next =>
    ({ state with overrides := next },
      { call with proposal := call.proposal.commit config results, stage := .releasing })
  | .releasing =>
    ({ state with lease := releaseTopologyLease state.lease call.proposal }, call.to .storing)
  | .storing =>
    ({ state with proposals := state.proposals.insert call.proposal.id call.proposal }, call.to .stored)
  | .stored => (state, call.to (.returned call.result))
  | .returned _ | .dropped => (state, call)

/-- The check of the call's stage refuses. -/
def TopologyCall.refuses (settings : NodeSettings) (now : Nat) (state : TopologyState)
    (call : TopologyCall) :
    Bool :=
  let { config, walShards, topologyLeaseMs } := settings
  match call.stage with
  | .normalizing | .checked _ => !(normalizeTopologyOverrideRequest config walShards state.overrides
      call.proposal.request).toBool
  | .acquiring => !(acquireTopologyLeaseForProposal config.nodeId topologyLeaseMs now state.lease
      call.proposal).toBool
  | .accepting => !(acceptTopologyLeaseForProposal now state.lease call.proposal).toBool
  | .matching | .applying _ => !(ensureTopologyLeaseMatches now state.lease call.proposal).toBool
  | _ => false

/-- The stages of a call, each with what it does. -/
inductive Advances (settings : NodeSettings) (now : Nat) (state : TopologyState) :
    TopologyCall → TopologyState → TopologyCall → Prop where
  | refuse {call : TopologyCall} {err} (hrefuses : call.refuses settings now state = true) :
    Advances settings now state call state (call.fails err)
  | normalize {source proposal request stage}
      (hnormalize : normalizeTopologyOverrideRequest settings.config settings.walShards
        state.overrides proposal.request = .ok request)
      (hstage : stage = .acquiring ∧ (∀ message, source ≠ .peer message) ∨
        stage = .accepting ∧ ∃ message, source = .peer message) :
    Advances settings now state ⟨source, proposal, .normalizing⟩ state ⟨source, { proposal with request }, stage⟩
  | acquire {source proposal proposal' lease}
      (hacquire : acquireTopologyLeaseForProposal settings.config.nodeId settings.topologyLeaseMs now
        state.lease proposal = .ok (lease, proposal')) :
    Advances settings now state ⟨source, proposal, .acquiring⟩ { state with lease } ⟨source, proposal', .inserting⟩
  | accept {source proposal lease}
      (haccept : acceptTopologyLeaseForProposal now state.lease proposal = .ok lease) :
    Advances settings now state ⟨source, proposal, .accepting⟩ { state with lease }
      ⟨source, { proposal with phase := .prepared, lastError := none }, .storing⟩
  | insert {source} {proposal : TopologyProposal} :
    Advances settings now state ⟨source, proposal, .inserting⟩
      { state with proposals := state.proposals.insert proposal.id proposal }
      ⟨source, proposal, .asking (topologyPeerNodes settings.config) []⟩
  | ensure {source proposal stage}
      (hmatches : ensureTopologyLeaseMatches now state.lease proposal = .ok ())
      (hstage : stage = .asking (topologyPeerNodes settings.config) [] ∧ (∀ message, source ≠ .peer message) ∨
        stage = .applying [] ∧ ∃ message, source = .peer message) :
    Advances settings now state ⟨source, proposal, .matching⟩ state ⟨source, proposal, stage⟩
  | answer {source proposal peer peers results answer} :
    Advances settings now state ⟨source, proposal, .asking (peer :: peers) results⟩ state
      ⟨source, proposal, .asking peers (results ++ [answer])⟩
  | answered {source proposal results} :
    Advances settings now state ⟨source, proposal, .asking [] results⟩ state
      (TopologyCall.answered ⟨source, proposal, .asking [] results⟩ results)
  | apply {source proposal results}
      (hmatches : ensureTopologyLeaseMatches now state.lease proposal = .ok ()) :
    Advances settings now state ⟨source, proposal, .applying results⟩ state ⟨source, proposal, .checked results⟩
  | check {source proposal results request} (hnormalize : normalizeTopologyOverrideRequest settings.config
        settings.walShards state.overrides proposal.request = .ok request) :
    Advances settings now state ⟨source, proposal, .checked results⟩ state
      ⟨source, proposal, .normalized results request⟩
  | build {source proposal results request} :
    Advances settings now state ⟨source, proposal, .normalized results request⟩ state
      ⟨source, proposal, .built results request (buildTopologyOverridesAfterRequest state.overrides request)⟩
  | replace {source} {proposal : TopologyProposal} {results request next} :
    Advances settings now state ⟨source, proposal, .built results request next⟩
      { state with overrides := next } ⟨source, proposal.commit settings.config results, .releasing⟩
  | release {source proposal} :
    Advances settings now state ⟨source, proposal, .releasing⟩
      { state with lease := releaseTopologyLease state.lease proposal } ⟨source, proposal, .storing⟩
  | store {source} {proposal : TopologyProposal} :
    Advances settings now state ⟨source, proposal, .storing⟩
      { state with proposals := state.proposals.insert proposal.id proposal } ⟨source, proposal, .stored⟩
  | finish {source proposal} :
    Advances settings now state ⟨source, proposal, .stored⟩ state
      ⟨source, proposal, .returned (TopologyCall.result ⟨source, proposal, .stored⟩)⟩
  | ended {call : TopologyCall} (hended : call.stage.active = false) : Advances settings now state call state call

/-- What a call does when it goes on. -/
theorem TopologyCall.advances (settings : NodeSettings) (now : Nat)
    (answer : TopologyPropagationResult)
    (state : TopologyState) (call : TopologyCall) : Advances settings now state call
    (call.advance settings now answer state).1 (call.advance settings now answer state).2 := by
  obtain ⟨config, walShards, topologyLeaseMs⟩ := settings
  obtain ⟨source, proposal, stage⟩ := call
  cases stage with
  | normalizing =>
    cases hn : normalizeTopologyOverrideRequest config walShards state.overrides proposal.request with
    | error err =>
      simp only [advance, hn]
      exact .refuse (by simp [refuses, hn, Except.toBool])
    | ok request =>
      simp only [advance, hn]
      refine .normalize hn ?_
      cases source with
      | peer message => exact .inr ⟨rfl, message, rfl⟩
      | _ => exact .inl ⟨rfl, by simp⟩
  | acquiring =>
    cases ha : acquireTopologyLeaseForProposal config.nodeId topologyLeaseMs now state.lease proposal with
    | error err =>
      simp only [advance, ha]
      exact .refuse (by simp [refuses, ha, Except.toBool])
    | ok acquired =>
      simp only [advance, ha]
      exact .acquire ha
  | accepting =>
    cases ha : acceptTopologyLeaseForProposal now state.lease proposal with
    | error err =>
      simp only [advance, ha]
      exact .refuse (by simp [refuses, ha, Except.toBool])
    | ok lease =>
      simp only [advance, ha]
      exact .accept ha
  | inserting => exact .insert
  | matching =>
    cases hm : ensureTopologyLeaseMatches now state.lease proposal with
    | error err =>
      simp only [advance, hm]
      exact .refuse (by simp [refuses, hm, Except.toBool])
    | ok =>
      simp only [advance, hm]
      refine .ensure hm ?_
      cases source with
      | peer message => exact .inr ⟨rfl, message, rfl⟩
      | _ => exact .inl ⟨rfl, by simp⟩
  | asking peers results =>
    cases peers with
    | nil => exact .answered
    | cons peer peers => exact .answer
  | applying results =>
    cases hm : ensureTopologyLeaseMatches now state.lease proposal with
    | error err =>
      simp only [advance, hm]
      exact .refuse (by simp [refuses, hm, Except.toBool])
    | ok =>
      simp only [advance, hm]
      exact .apply hm
  | checked results =>
    cases hn : normalizeTopologyOverrideRequest config walShards state.overrides proposal.request with
    | error err =>
      simp only [advance, hn]
      exact .refuse (by simp [refuses, hn, Except.toBool])
    | ok request =>
      simp only [advance, hn]
      exact .check hn
  | normalized results request => exact .build
  | built results request next => exact .replace
  | releasing => exact .release
  | storing => exact .store
  | stored => exact .finish
  | returned | dropped => exact .ended rfl

/-- The request that a call is making to a peer. -/
def TopologyCall.message (call : TopologyCall) (peer : String) : Message :=
  match call.source with
  | .prepare _ => .prepare peer call.proposal
  | .commit => .commit peer call.proposal.id
  | .abort | .peer _ => .abort peer call.proposal.id

/-- Behind the last point a file was written, or will be before the next. -/
def Stage.writes : Stage → Bool
  | .inserting | .asking .. | .built .. | .releasing | .storing | .stored => true
  | _ => false

def startTopologyProposal (proposal : TopologyProposal) (returnFailed : Bool) : TopologyCall :=
  ⟨.prepare returnFailed, proposal, .normalizing⟩

/-- A call that has read the proposal, and has its result or goes on. -/
def TopologyCall.read (source : Source) (proposal : TopologyProposal)
    (result : Option (Except ApiError TopologyProposal)) (stage : Stage) : TopologyCall :=
  ⟨source, proposal, (result.map .returned).getD stage⟩

def startCommit (proposal : TopologyProposal) : TopologyCall :=
  .read .commit proposal (commitTopologyProposal proposal) .matching

def startAbort (source : Source) (peers : List String) (proposal : TopologyProposal) :
    TopologyCall :=
  .read source proposal (abortTopologyProposal proposal) (.asking peers [])

/-- What a node does with a request: the call that handles it. -/
def Message.handler (state : TopologyState) (message : Message) : Option TopologyCall :=
  match message with
  | .prepare _ proposal => some ⟨.peer message, proposal, .normalizing⟩
  | .commit _ proposalId =>
    state.proposals[proposalId]?.map fun proposal => ⟨.peer message, proposal, .matching⟩
  | .abort _ proposalId => state.proposals[proposalId]?.map (startAbort (.peer message) [])

/-! ## The cluster -/

/-- A node with its calls. -/
structure Node where
  state : TopologyState
  calls : List TopologyCall

/-- The settings of the nodes. -/
structure Cluster where
  settings : String → NodeSettings
  nodeId : ∀ name, (settings name).config.nodeId = name

/-- The nodes, what was requested of peers and, to tell about a run, the proposals' ids with their
nodes, the requests that were started and the proposals that were applied on a node. -/
structure ClusterState where
  node : String → Node
  sent : List Message
  issued : List (String × String)
  started : List ApplyTopologyOverrideRequest
  applied : List (String × String)

/-- Each node has its overrides and its lease, and no proposals. -/
def ClusterState.initial (overrides : String → Overrides) (lease : String → TopologyLease) :
    ClusterState :=
  ⟨fun name => ⟨⟨overrides name, lease name, ∅⟩, []⟩, [], [], [], []⟩

def Node.push (node : Node) (call : TopologyCall) : Node :=
  { node with calls := node.calls ++ [call] }

def Node.setCall (node : Node) (i : Nat) (call : TopologyCall) : Node :=
  { node with calls := node.calls.set i call }

def Node.cleanup (now : Nat) (node : Node) : Node :=
  { node with state :=
      { node.state with lease := cleanupExpiredTopologyLease now node.state.lease } }

/-- A call of the node goes on. -/
def Node.advance (settings : NodeSettings) (now : Nat) (answer : TopologyPropagationResult)
    (i : Nat) (call : TopologyCall) (node : Node) : Node :=
  let (state, call) := call.advance settings now answer node.state
  ⟨state, node.calls.set i call⟩

variable (s : ClusterState)

def ClusterState.setNode (name : String) (node : Node) : ClusterState :=
  { s with node := Function.update s.node name node }

@[simp] theorem node_setNode_self (name : String) (node : Node) :
    (s.setNode name node).node name = node := by
  show update s.node name node name = node
  exact update_self ..

theorem node_setNode_of_ne {name other : String} (node : Node) (h : other ≠ name) :
    (s.setNode name node).node other = s.node other := by
  show update s.node name node other = s.node other
  exact update_of_ne h ..

/-- The proposal that a call applies when it goes on. -/
def TopologyCall.applies (name : String) (call : TopologyCall) : List (String × String) :=
  match call.stage with
  | .built .. => [(name, call.proposal.id)]
  | _ => []

/-- A peer has handled the request. -/
def ClusterState.Answered (message : Message) : Prop :=
  ∃ call ∈ (s.node message.peer).calls, call.source = .peer message ∧ ∃ proposal, call.stage = .returned (.ok proposal)

/-- The steps of calls, and requests between nodes. -/
inductive ClusterEvent where
  | start (name : String) (request : ApplyTopologyOverrideRequest)
  | retry (name id : String)
  | commit (name id : String)
  | abort (name id : String)
  | cleanup (name : String)
  | deliver (message : Message)
  | ask (name : String) (call : Nat)
  | advance (name : String) (call now : Nat)
  /-- A file can not be written. -/
  | fail (name : String) (call : Nat)
  | drop (name : String) (call : Nat)

/-- The id of a new proposal is one that was never used. -/
structure Fresh (s : ClusterState) (id : String) : Prop where
  issued : ∀ name, (id, name) ∉ s.issued
  lease : ∀ name, (s.node name).state.lease.proposalId ≠ some id
  stored : ∀ name, (s.node name).state.proposals[id]? = none

/-- What each event does to the nodes. -/
inductive ClusterStep (cluster : Cluster) : ClusterState → ClusterEvent → ClusterState → Prop where
  | start {s : ClusterState} {name id reason request returnFailed now} (hfresh : Fresh s id) :
    ClusterStep cluster s (.start name request)
      { s.setNode name (((s.node name).cleanup now).push (startTopologyProposal
          (newProposal (cluster.settings name).config id reason request) returnFailed)) with
        issued := (id, name) :: s.issued
        started := request :: s.started }
  | retry {s : ClusterState} {name id newId now} {proposal : TopologyProposal}
      (hstored : (s.node name).state.proposals[id]? = some proposal)
      (hretry : retryTopologyProposal now proposal = .ok ()) (hfresh : Fresh s newId) :
    ClusterStep cluster s (.retry name id)
      { s.setNode name (((s.node name).cleanup now).push (startTopologyProposal
          (newProposal (cluster.settings name).config newId s!"retry {proposal.reason}" proposal.request)
          false)) with
        issued := (newId, name) :: s.issued }
  | commit {s : ClusterState} {name id proposal}
      (hstored : (s.node name).state.proposals[id]? = some proposal) :
    ClusterStep cluster s (.commit name id) (s.setNode name ((s.node name).push (startCommit proposal)))
  | abort {s : ClusterState} {name id proposal}
      (hstored : (s.node name).state.proposals[id]? = some proposal) :
    ClusterStep cluster s (.abort name id) (s.setNode name ((s.node name).push
      (startAbort .abort (topologyPeerNodes (cluster.settings name).config) proposal)))
  | cleanup {s : ClusterState} {name now} :
    ClusterStep cluster s (.cleanup name) (s.setNode name ((s.node name).cleanup now))
  | deliver {s : ClusterState} {message : Message} {call} (hsent : message ∈ s.sent)
      (hhandler : message.handler (s.node message.peer).state = some call) :
    ClusterStep cluster s (.deliver message) (s.setNode message.peer ((s.node message.peer).push call))
  | ask {s : ClusterState} {name peer i} {call : TopologyCall} {peers results}
      (hcall : (s.node name).calls[i]? = some call)
      (hstage : call.stage = .asking (peer :: peers) results) :
    ClusterStep cluster s (.ask name i) { s with sent := call.message peer :: s.sent }
  | advance {s : ClusterState} {name i now} {call : TopologyCall}
      {answer} (hcall : (s.node name).calls[i]? = some call)
      (hanswer : ∀ peer peers results, call.stage = .asking (peer :: peers) results →
        answer.nodeId = peer ∧ (answer.applied = true → s.Answered (call.message peer))) :
    ClusterStep cluster s (.advance name i now)
      { s.setNode name ((s.node name).advance (cluster.settings name) now answer i call) with
        applied := call.applies name ++ s.applied }
  | fail {s : ClusterState} {name i} {call : TopologyCall} {err}
      (hcall : (s.node name).calls[i]? = some call) (hwrites : call.stage.writes = true) :
    ClusterStep cluster s (.fail name i) (s.setNode name ((s.node name).setCall i (call.fails err)))
  | drop {s : ClusterState} {name i} {call : TopologyCall}
      (hcall : (s.node name).calls[i]? = some call) (hactive : call.stage.active = true) :
    ClusterStep cluster s (.drop name i) (s.setNode name ((s.node name).setCall i (call.to .dropped)))

/-! ## Runs that are computed -/

/-- The events of a run that is computed. -/
inductive Action where
  | commit (name id : String)
  | deliver (message : Nat)
  | ask (name : String) (call : Nat)
  | advance (name : String) (call now : Nat) (applied : Bool)
  | fail (name : String) (call : Nat)
  | drop (name : String) (call : Nat)

def TopologyCall.succeeded (call : TopologyCall) : Bool :=
  match call.stage with
  | .returned (.ok _) => true
  | _ => false

def TopologyCall.asks (call : TopologyCall) : Option String :=
  match call.stage with
  | .asking (peer :: _) _ => some peer
  | _ => none

/-- The peer has handled the request. -/
def ClusterState.answered (s : ClusterState) (message : Message) : Bool :=
  (s.node message.peer).calls.any fun call => call.source = .peer message ∧ call.succeeded

def Action.event (s : ClusterState) : Action → ClusterEvent
  | .commit name id => .commit name id
  | .deliver message => .deliver (s.sent[message]?.getD (.abort "" ""))
  | .ask name call => .ask name call
  | .advance name call now _ => .advance name call now
  | .fail name call => .fail name call
  | .drop name call => .drop name call

def ClusterState.next (cluster : Cluster) (s : ClusterState) : Action → Option ClusterState
  | .commit name id => do
    let proposal ← (s.node name).state.proposals[id]?
    return s.setNode name ((s.node name).push (startCommit proposal))
  | .deliver message => do
    let message ← s.sent[message]?
    let call ← message.handler (s.node message.peer).state
    return s.setNode message.peer ((s.node message.peer).push call)
  | .ask name i => do
    let call ← (s.node name).calls[i]?
    let peer ← call.asks
    return { s with sent := call.message peer :: s.sent }
  | .advance name i now applied => do
    let call ← (s.node name).calls[i]?
    if applied ∧ ¬(call.asks.any fun peer => s.answered (call.message peer)) then none
    else
      let peer := call.asks.getD ""
      let answer := ⟨peer, peer, applied, none, none⟩
      return { s.setNode name ((s.node name).advance (cluster.settings name) now answer i call) with
        applied := call.applies name ++ s.applied }
  | .fail name i => do
    let call ← (s.node name).calls[i]?
    if call.stage.writes then
      return s.setNode name ((s.node name).setCall i (call.fails (.internal ⟨"No space left on device", []⟩)))
    else none
  | .drop name i => do
    let call ← (s.node name).calls[i]?
    if call.stage.active then return s.setNode name ((s.node name).setCall i (call.to .dropped))
    else none

theorem asks_some {call : TopologyCall} {peer : String} (h : call.asks = some peer) :
    ∃ peers results, call.stage = .asking (peer :: peers) results := by
  unfold TopologyCall.asks at h
  split at h
  · next hstage =>
    cases h
    exact ⟨_, _, hstage⟩
  · cases h

theorem answered_of_answered {s : ClusterState} {message : Message}
    (h : s.answered message = true) :
    s.Answered message := by
  obtain ⟨call, hcall, hok⟩ := List.any_eq_true.mp h
  obtain ⟨hsource, hsucceeded⟩ := of_decide_eq_true hok
  refine ⟨call, hcall, hsource, ?_⟩
  unfold TopologyCall.succeeded at hsucceeded
  split at hsucceeded
  · next proposal hstage => exact ⟨proposal, hstage⟩
  · cases hsucceeded

theorem ClusterStep.of_next {cluster : Cluster} {s t : ClusterState} {action : Action}
    (h : s.next cluster action = some t) : ClusterStep cluster s (action.event s) t := by
  cases action with
  | commit name id =>
    obtain ⟨proposal, hstored, h⟩ := bind_eq_some_iff.mp h
    cases h
    exact .commit hstored
  | deliver message =>
    obtain ⟨message, hsent, h⟩ := bind_eq_some_iff.mp h
    obtain ⟨call, hhandler, h⟩ := bind_eq_some_iff.mp h
    cases h
    rw [Action.event, hsent]
    exact .deliver (List.mem_of_getElem? hsent) hhandler
  | ask name i =>
    obtain ⟨call, hcall, h⟩ := bind_eq_some_iff.mp h
    obtain ⟨peer, hasks, h⟩ := bind_eq_some_iff.mp h
    obtain ⟨peers, results, hstage⟩ := asks_some hasks
    cases h
    exact .ask hcall hstage
  | advance name i now applied =>
    obtain ⟨call, hcall, h⟩ := bind_eq_some_iff.mp h
    split at h
    · cases h
    · next happlied =>
      cases h
      refine .advance hcall fun peer peers results hstage => ?_
      have hasks : call.asks = some peer := by rw [TopologyCall.asks, hstage]
      rw [hasks] at happlied ⊢
      refine ⟨rfl, fun ha => answered_of_answered ?_⟩
      by_contra hno
      exact happlied ⟨ha, hno⟩
  | fail name i =>
    obtain ⟨call, hcall, h⟩ := bind_eq_some_iff.mp h
    split at h
    · next hwrites =>
      cases h
      exact .fail hcall hwrites
    · cases h
  | drop name i =>
    obtain ⟨call, hcall, h⟩ := bind_eq_some_iff.mp h
    split at h
    · next hactive =>
      cases h
      exact .drop hcall hactive
    · cases h

/-! ## Two nodes -/

/-- Two nodes, and a shard that `a` owns. -/
def twoNodes : Cluster where
  settings name :=
    let nodes : BTreeMap String ClusterNode :=
      (∅ : BTreeMap String ClusterNode).insert "a" ⟨"a", some "http://a"⟩ |>.insert "b" ⟨"b", some "http://b"⟩
    ⟨⟨name, nodes, ["a"], [1], [[]]⟩, 1, 15000⟩
  nodeId _ := rfl

def noOverrides (_ : String) : Overrides := ∅

def noLease (_ : String) : TopologyLease := ⟨0, none, none, none⟩

/-- Node `a` begins to prepare a proposal. -/
def startedState (request : ApplyTopologyOverrideRequest) : ClusterState :=
  let s := ClusterState.initial noOverrides noLease
  { s.setNode "a" (((s.node "a").cleanup 0).push (startTopologyProposal
      (newProposal (twoNodes.settings "a").config "p" "move" request) false)) with
    issued := [("p", "a")]
    started := [request] }

theorem startedState_step (request : ApplyTopologyOverrideRequest) :
    ClusterStep twoNodes (.initial noOverrides noLease) (.start "a" request) (startedState request) := by
  refine .start ⟨fun name hmem => ?_, fun name hl => ?_, fun name => ?_⟩
  · cases hmem
  · cases hl
  · show (∅ : BTreeMap String TopologyProposal)["p"]? = none
    simp

/-- The peer prepares, and the proposal is stored. -/
def prepareActions : List Action :=
  List.replicate 3 (.advance "a" 0 0 false) ++ [.ask "a" 0, .deliver 0] ++
    List.replicate 4 (.advance "b" 0 0 false) ++ [.advance "a" 0 0 true] ++
    List.replicate 3 (.advance "a" 0 0 false)

/-- The peer applies the proposal, and the coordinator waits for its answer. -/
def commitActions : List Action :=
  [.commit "a" "p", .advance "a" 1 0 false, .ask "a" 1, .deliver 0] ++ List.replicate 5 (.advance "b" 1 0 false)

end NextDb.Api.TopologyCluster
