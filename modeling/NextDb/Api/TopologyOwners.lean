import NextDb.Api.TopologyCluster

/-!
# One owner for an epoch

A request may name an owner, an epoch, both or neither, and a node that misses a commit
keeps what it had. So an owner is tied to an epoch only if requests name both, and different
owners for different epochs.

* `one_owner`: then nodes with one epoch for a shard have one owner for it, at any times, and
  the epoch of a node does not decrease, unless two calls of a node override its topology at
  once.
-/

namespace NextDb.Api.TopologyOwners

open Run TopologyCluster List Option

/-! ## Owners and epochs -/

def ownerOf (cluster : Cluster) (name : String) (overrides : Overrides) (shard : Nat) : String :=
  (cluster.settings name).config.ownerForShardWithOverrides shard overrides

def epochOf (cluster : Cluster) (name : String) (overrides : Overrides) (shard : Nat) : Nat :=
  (cluster.settings name).config.epochForShardWithOverrides shard overrides

def owner (cluster : Cluster) (s : ClusterState) (name : String) (shard : Nat) : String :=
  ownerOf cluster name (s.node name).state.overrides shard

def epoch (cluster : Cluster) (s : ClusterState) (name : String) (shard : Nat) : Nat :=
  epochOf cluster name (s.node name).state.overrides shard

/-- A request names an owner for an epoch of its shard. -/
def Names (request : ApplyTopologyOverrideRequest) (epoch : Nat) (owner : String) : Prop :=
  request.epoch.map (max · 1) = some epoch ∧ request.owner.map trim = some owner

/-- A node had the owner at the start, or a request has named it. -/
def Assigned (cluster : Cluster) (initial : String → Overrides)
    (started : List ApplyTopologyOverrideRequest) (shard epoch : Nat) (owner : String) : Prop :=
  (∃ name, epochOf cluster name (initial name) shard = epoch ∧ ownerOf cluster name (initial name) shard = owner) ∨
    ∃ request ∈ started, request.shard = shard ∧ Names request epoch owner

/-- The call has checked its request against the overrides, and has not replaced them. -/
def replacing : Stage → Bool
  | .normalized .. | .built .. => true
  | _ => false

/-- Requests name both an owner and an epoch or neither, and for an epoch no other owner than
before, and while a call overrides the topology of a node no other call of the node begins to. -/
def Meets (cluster : Cluster) (initial : String → Overrides) (s : ClusterState) :
    ClusterEvent → Prop
  | .start _ request => request.owner.isSome = request.epoch.isSome ∧
      ∀ epoch owner owner', Names request epoch owner →
        Assigned cluster initial s.started request.shard epoch owner' → owner' = owner
  | .advance name i _ => ∀ call results, (s.node name).calls[i]? = some call →
    call.stage = .checked results →
      ∀ other ∈ (s.node name).calls, replacing other.stage = false
  | _ => True

/-! ## The invariant -/

variable {cluster : Cluster} {initial : String → Overrides}

/-- What a request names, it names for a shard and an epoch that have no other owner. -/
def Sound (cluster : Cluster) (initial : String → Overrides)
    (started : List ApplyTopologyOverrideRequest) (request : ApplyTopologyOverrideRequest) : Prop :=
  request.owner.isSome = request.epoch.isSome ∧
    ∀ epoch owner, Names request epoch owner → Assigned cluster initial started request.shard epoch owner

/-- What a call that is replacing the overrides of a node has checked and computed. -/
structure Checked (cluster : Cluster) (initial : String → Overrides)
    (started : List ApplyTopologyOverrideRequest)
    (name : String) (overrides : Overrides) (request : ApplyTopologyOverrideRequest) : Prop where
  sound : Sound cluster initial started request
  shard : request.shard < (cluster.settings name).walShards
  trimmed : ∀ owner, request.owner = some owner → trim owner = owner
  epoch : ∀ epoch, request.epoch = some epoch → epochOf cluster name overrides request.shard ≤ epoch

def StageHolds (cluster : Cluster) (initial : String → Overrides)
    (started : List ApplyTopologyOverrideRequest)
    (name : String) (overrides : Overrides) : Stage → Prop
  | .normalized _ request => Checked cluster initial started name overrides request
  | .built _ request next => Checked cluster initial started name overrides request ∧
      next = buildTopologyOverridesAfterRequest overrides request
  | _ => True

/-- The owners and epochs of a node are assigned by requests that were started. -/
structure NodeInv (cluster : Cluster) (initial : String → Overrides)
    (started : List ApplyTopologyOverrideRequest) (name : String) (node : Node) : Prop where
  topology : ∀ shard, shard < (cluster.settings name).walShards → Assigned cluster initial started shard
    (epochOf cluster name node.state.overrides shard) (ownerOf cluster name node.state.overrides shard)
  stored : ∀ (id : String) (proposal : TopologyProposal), node.state.proposals[id]? = some proposal →
    Sound cluster initial started proposal.request
  calls : ∀ call ∈ node.calls, Sound cluster initial started call.proposal.request ∧
    StageHolds cluster initial started name node.state.overrides call.stage
  /-- One call at most is replacing the overrides. -/
  alone : ∀ (i j : Nat) (call call' : TopologyCall), node.calls[i]? = some call → node.calls[j]? = some call' →
    replacing call.stage = true → replacing call'.stage = true → i = j

/-- One epoch of a shard has one owner. -/
structure Inv (cluster : Cluster) (initial : String → Overrides) (s : ClusterState) : Prop where
  unique : ∀ shard epoch owner owner', (∀ name, shard < (cluster.settings name).walShards) →
    Assigned cluster initial s.started shard epoch owner →
    Assigned cluster initial s.started shard epoch owner' → owner = owner'
  sent : ∀ peer proposal, Message.prepare peer proposal ∈ s.sent → Sound cluster initial s.started proposal.request
  nodes : ∀ name, NodeInv cluster initial s.started name (s.node name)

/-! ## Requests -/

variable {started : List ApplyTopologyOverrideRequest} {request : ApplyTopologyOverrideRequest}

theorem Assigned.cons {shard epoch : Nat} {owner : String}
    (h : Assigned cluster initial started shard epoch owner)
    (request : ApplyTopologyOverrideRequest) :
    Assigned cluster initial (request :: started) shard epoch owner := by
  rcases h with h | ⟨request', hmem, h⟩
  · exact .inl h
  · exact .inr ⟨request', mem_cons_of_mem _ hmem, h⟩

theorem Sound.cons (h : Sound cluster initial started request)
    (request' : ApplyTopologyOverrideRequest) :
    Sound cluster initial (request' :: started) request :=
  ⟨h.1, fun epoch owner hn => (h.2 epoch owner hn).cons request'⟩

variable {overrides : Overrides} {shard i : Nat} {call call' : TopologyCall}
    {normalized : ApplyTopologyOverrideRequest}
  {stage : Stage} {proposal : TopologyProposal} {e : ClusterEvent}

/-- A normalized request names what the request names. -/
theorem names_normalize {config : ClusterConfig} {walShards : Nat}
    (h : normalizeTopologyOverrideRequest config walShards overrides request = .ok normalized)
    (epoch : Nat) (owner : String) : Names normalized epoch owner ↔ Names request epoch owner := by
  obtain ⟨-, hepoch, howner, -⟩ := normalizeTopologyOverrideRequest_ok h
  rw [Names, Names, hepoch, howner, Option.map_map]
  have htrim : trim ∘ trim = trim := funext trim_trim
  rw [htrim]

theorem Sound.normalize (h : Sound cluster initial started request)
    {config : ClusterConfig} {walShards : Nat} {overrides : Overrides}
    {normalized : ApplyTopologyOverrideRequest}
    (hn : normalizeTopologyOverrideRequest config walShards overrides request = .ok normalized) :
    Sound cluster initial started normalized := by
  obtain ⟨hshard, hepoch, howner, -⟩ := normalizeTopologyOverrideRequest_ok hn
  refine ⟨?_, fun epoch owner hnames => ?_⟩
  · rw [howner, hepoch, isSome_map]
    exact h.1
  · rw [hshard]
    exact h.2 epoch owner ((names_normalize hn epoch owner).mp hnames)

variable {name : String}

theorem Checked.of_normalize (h : Sound cluster initial started request)
    (hn : normalizeTopologyOverrideRequest
    (cluster.settings name).config (cluster.settings name).walShards overrides request = .ok normalized) :
    Checked cluster initial started name overrides normalized := by
  obtain ⟨hshard, hepoch, howner, hle⟩ := normalizeTopologyOverrideRequest_ok hn
  refine ⟨h.normalize hn, ?_, fun owner ho => ?_, fun epoch he => ?_⟩
  · rw [hshard]
    exact normalizeTopologyOverrideRequest_shard hn
  · rw [howner] at ho
    obtain ⟨raw, -, rfl⟩ := map_eq_some_iff.mp ho
    exact trim_trim raw
  · rw [hepoch] at he
    rw [hshard]
    exact hle epoch he

theorem StageHolds.cons {name : String} {overrides : Overrides} {stage : Stage}
    (h : StageHolds cluster initial started name overrides stage)
    (request : ApplyTopologyOverrideRequest) :
    StageHolds cluster initial (request :: started) name overrides stage := by
  have hchecked : ∀ {request'}, Checked cluster initial started name overrides request' →
      Checked cluster initial (request :: started) name overrides request' :=
    fun h => ⟨h.sound.cons request, h.shard, h.trimmed, h.epoch⟩
  cases stage with
  | normalized results request' => exact hchecked h
  | built results request' next => exact ⟨hchecked h.1, h.2⟩
  | _ => trivial

theorem StageHolds.of_not_replacing (h : replacing stage = false) :
    StageHolds cluster initial started name overrides stage := by
  cases stage with
  | normalized | built => cases h
  | _ => trivial

/-- The overrides of a request that was checked: an owner that is assigned, and no lower epoch. -/
theorem Checked.assigned (h : Checked cluster initial started name overrides request)
    (hassigned : Assigned cluster initial started shard (epochOf cluster name overrides shard)
      (ownerOf cluster name overrides shard)) :
    let next := buildTopologyOverridesAfterRequest overrides request
    Assigned cluster initial started shard (epochOf cluster name next shard) (ownerOf cluster name next shard) ∧
      epochOf cluster name overrides shard ≤ epochOf cluster name next shard := by
  intro next
  have hepoch := @epoch_buildTopologyOverridesAfterRequest (cluster.settings name).config overrides request shard
  have howner := @owner_buildTopologyOverridesAfterRequest (cluster.settings name).config overrides request shard
  rw [epochOf, ownerOf, hepoch, howner]
  obtain ⟨hboth, hnames⟩ := h.sound
  cases he : request.epoch with
  | none =>
    rw [he] at hboth
    cases ho : request.owner with
    | none => exact ⟨hassigned, le_rfl⟩
    | some owner => rw [ho] at hboth; cases hboth
  | some epoch =>
    rw [he] at hboth
    cases ho : request.owner with
    | none => rw [ho] at hboth; cases hboth
    | some owner =>
      by_cases hshard : request.shard = shard
      · subst hshard
        simp only [if_true]
        refine ⟨hnames _ _ ⟨by rw [he]; rfl, ?_⟩, (h.epoch epoch he).trans (le_max_left epoch 1)⟩
        rw [ho, map_some, h.trimmed owner ho]
      · simp only [if_neg hshard]
        exact ⟨hassigned, le_rfl⟩

/-! ## Nodes -/

variable {node : Node}

section
variable (h : NodeInv cluster initial started name node)
include h

theorem NodeInv.cons (request : ApplyTopologyOverrideRequest) :
    NodeInv cluster initial (request :: started) name node where
  topology shard hshard := (h.topology shard hshard).cons request
  stored id proposal hstored := (h.stored id proposal hstored).cons request
  calls call hcall := ⟨(h.calls call hcall).1.cons request, (h.calls call hcall).2.cons request⟩
  alone := h.alone

theorem NodeInv.cleanup (now : Nat) : NodeInv cluster initial started name (node.cleanup now) :=
  ⟨h.topology, h.stored, h.calls, h.alone⟩

/-- A call begins, with a request that is sound. -/
theorem NodeInv.push (hsound : Sound cluster initial started call.proposal.request)
    (hstage : replacing call.stage = false) :
    NodeInv cluster initial started name (node.push call) where
  topology := h.topology
  stored := h.stored
  calls other hother := by
    rcases mem_append.mp hother with hother | hother
    · exact h.calls other hother
    · cases mem_singleton.mp hother
      exact ⟨hsound, .of_not_replacing hstage⟩
  alone i j a b hi hj ha hb := by
    have hold : ∀ (k : Nat) (c : TopologyCall), (node.calls ++ [call])[k]? = some c → replacing c.stage = true →
        node.calls[k]? = some c := by
      intro k c hk hc
      rw [getElem?_append] at hk
      split at hk
      · exact hk
      · cases mem_singleton.mp (mem_of_getElem? hk)
        cases hstage.symm.trans hc
    exact h.alone i j a b (hold i a hi ha) (hold j b hj hb) ha hb

variable {state : TopologyState}

/-- A call goes on, and the overrides are as they were. -/
theorem NodeInv.set (hcall : node.calls[i]? = some call)
    (hoverrides : state.overrides = node.state.overrides)
    (hstored : ∀ (id : String) (proposal : TopologyProposal),
    state.proposals[id]? = some proposal → Sound cluster initial started proposal.request)
    (hsound : Sound cluster initial started call'.proposal.request)
    (hstage : StageHolds cluster initial started name node.state.overrides call'.stage)
    (halone : replacing call'.stage = true → replacing call.stage = true ∨ ∀ other ∈ node.calls,
    replacing other.stage = false) :
    NodeInv cluster initial started name ⟨state, node.calls.set i call'⟩ where
  topology := by
    show ∀ shard, _ → Assigned _ _ _ _ (epochOf _ _ state.overrides _) (ownerOf _ _ state.overrides _)
    rw [hoverrides]
    exact h.topology
  stored := hstored
  calls other hother := by
    show Sound _ _ _ _ ∧ StageHolds _ _ _ _ state.overrides _
    rw [hoverrides]
    rcases mem_or_eq_of_mem_set hother with hother | rfl
    · exact h.calls other hother
    · exact ⟨hsound, hstage⟩
  alone := by
    have hother : ∀ (j : Nat) (other : TopologyCall), j ≠ i → node.calls[j]? = some other →
        replacing other.stage = true → replacing call'.stage = true → False := by
      intro j other hj hother hr hr'
      rcases halone hr' with hc | hnone
      · exact hj (h.alone j i other call hother hcall hr hc)
      · cases (hnone other (mem_of_getElem? hother)).symm.trans hr
    intro j k a b hj hk ha hb
    rcases getElem?_set_cases hj with ⟨hji, hja⟩ | ⟨hji, hj⟩
    · rcases getElem?_set_cases hk with ⟨hki, -⟩ | ⟨hki, hk⟩
      · rw [hji, hki]
      · exact (hother k b hki hk hb (hja ▸ ha)).elim
    · rcases getElem?_set_cases hk with ⟨-, hkb⟩ | ⟨-, hk⟩
      · exact (hother j a hji hj ha (hkb ▸ hb)).elim
      · exact h.alone j k a b hj hk ha hb

/-- A call goes on, and is not replacing the overrides. -/
theorem NodeInv.move (hcall : node.calls[i]? = some call)
    (hoverrides : state.overrides = node.state.overrides)
    (hproposals : state.proposals = node.state.proposals ∨
    state.proposals = node.state.proposals.insert call.proposal.id call.proposal)
    (hrequest : call'.proposal.request = call.proposal.request)
    (hstage : replacing call'.stage = false) :
    NodeInv cluster initial started name ⟨state, node.calls.set i call'⟩ := by
  have hsound := (h.calls call (mem_of_getElem? hcall)).1
  refine h.set hcall hoverrides ?_ (hrequest ▸ hsound) (.of_not_replacing hstage) fun hr => ?_
  · intro id proposal hstored
    rcases hproposals with hp | hp
    · rw [hp] at hstored
      exact h.stored id proposal hstored
    · rw [hp, Std.ExtTreeMap.getElem?_insert] at hstored
      split at hstored
      · cases hstored
        exact hsound
      · exact h.stored id proposal hstored
  · cases hstage.symm.trans hr

/-- The overrides are replaced by the call that has checked them. -/
theorem NodeInv.replace {results : List TopologyPropagationResult}
    {next : Overrides} (hcall : node.calls[i]? = some call)
    (hstage : call.stage = .built results request next)
    (hrequest : call'.proposal.request = call.proposal.request)
    (hstage' : replacing call'.stage = false) :
    NodeInv cluster initial started name ⟨{ node.state with overrides := next },
    node.calls.set i call'⟩ := by
  obtain ⟨hsound, hholds⟩ := h.calls call (mem_of_getElem? hcall)
  rw [hstage] at hholds
  obtain ⟨hchecked, rfl⟩ := hholds
  refine ⟨fun shard hshard => (hchecked.assigned (h.topology shard hshard)).1, h.stored, fun other hother => ?_, ?_⟩
  · obtain ⟨j, hj⟩ := mem_iff_getElem?.mp hother
    rcases getElem?_set_cases hj with ⟨-, rfl⟩ | ⟨hji, hj⟩
    · exact ⟨hrequest ▸ hsound, .of_not_replacing hstage'⟩
    · have hfree : replacing other.stage = false := by
        cases hr : replacing other.stage with
        | false => rfl
        | true => exact absurd (h.alone j i other call hj hcall hr (by rw [hstage]; rfl)) hji
      exact ⟨(h.calls other (mem_of_getElem? hj)).1, .of_not_replacing hfree⟩
  · intro j k a b hj hk ha hb
    rcases getElem?_set_cases hj with ⟨-, rfl⟩ | ⟨-, hj⟩
    · cases hstage'.symm.trans ha
    · rcases getElem?_set_cases hk with ⟨-, rfl⟩ | ⟨-, hk⟩
      · cases hstage'.symm.trans hb
      · exact h.alone j k a b hj hk ha hb

end

theorem answered_request (call : TopologyCall) (results : List TopologyPropagationResult) :
    (call.answered results).proposal.request = call.proposal.request ∧
    replacing (call.answered results).stage = false := by
  have hack : (call.proposal.acknowledge results).request = call.proposal.request := by
    unfold TopologyProposal.acknowledge
    dsimp only
    split <;> rfl
  unfold TopologyCall.answered
  split
  · refine ⟨hack, ?_⟩
    dsimp only
    split <;> rfl
  · split <;> exact ⟨rfl, rfl⟩
  · exact ⟨rfl, rfl⟩
  · exact ⟨rfl, rfl⟩

theorem acquire_request {nodeId : String} {topologyLeaseMs now : Nat} {lease lease' : TopologyLease}
    {proposal' : TopologyProposal}
    (h : acquireTopologyLeaseForProposal nodeId topologyLeaseMs now lease proposal = .ok (lease',
      proposal')) :
    proposal'.request = proposal.request := by
  unfold acquireTopologyLeaseForProposal at h
  split at h
  · cases h
  · cases h
    rfl

/-- A call of a node goes on: the invariant holds, and no epoch is lower than before. -/
theorem NodeInv.advance {now : Nat} {answer : TopologyPropagationResult}
    (h : NodeInv cluster initial started name node)
    {i : Nat} {call : TopologyCall} (hcall : node.calls[i]? = some call)
    (hfree : ∀ results, call.stage = .checked
    results → ∀ other ∈ node.calls, replacing other.stage = false) :
    let node' := node.advance (cluster.settings name) now answer i call
    NodeInv cluster initial started name node' ∧ ∀ shard, shard < (cluster.settings name).walShards →
      epochOf cluster name node.state.overrides shard ≤ epochOf cluster name node'.state.overrides shard := by
  intro node'
  have hsound := h.calls call (mem_of_getElem? hcall)
  have hadvances := call.advances (cluster.settings name) now answer node.state
  have hnode' : node' = ⟨(call.advance (cluster.settings name) now answer node.state).1,
    node.calls.set i (call.advance (cluster.settings name) now answer node.state).2⟩ := rfl
  generalize call.advance (cluster.settings name) now answer node.state = next at hadvances hnode'
  obtain ⟨state, call'⟩ := next
  rw [hnode']
  dsimp only at hadvances ⊢
  cases hadvances with
  | refuse | accept | answer | apply | release | finish =>
    exact ⟨h.move hcall rfl (.inl rfl) rfl rfl, fun _ _ => le_rfl⟩
  | @normalize source proposal request stage hnormalize hstage =>
    have hfree : replacing stage = false := by
      rcases hstage with ⟨rfl, -⟩ | ⟨rfl, -⟩ <;> rfl
    refine ⟨h.set hcall rfl h.stored (hsound.1.normalize hnormalize) (.of_not_replacing hfree) ?_, fun _ _ => le_rfl⟩
    intro hr
    cases hfree.symm.trans hr
  | acquire hacquire => exact ⟨h.move hcall rfl (.inl rfl) (acquire_request hacquire) rfl, fun _ _ => le_rfl⟩
  | insert | store => exact ⟨h.move hcall rfl (.inr rfl) rfl rfl, fun _ _ => le_rfl⟩
  | @ensure source proposal stage hmatches hstage =>
    have hfree : replacing stage = false := by
      rcases hstage with ⟨rfl, -⟩ | ⟨rfl, -⟩ <;> rfl
    exact ⟨h.move hcall rfl (.inl rfl) rfl hfree, fun _ _ => le_rfl⟩
  | answered =>
    obtain ⟨hrequest, hstage⟩ := answered_request _ _
    exact ⟨h.move hcall rfl (.inl rfl) hrequest hstage, fun _ _ => le_rfl⟩
  | @check _ _ results _ hnormalize =>
    refine ⟨h.set hcall rfl h.stored hsound.1 (Checked.of_normalize hsound.1 hnormalize) fun _ => ?_, fun _ _ => le_rfl⟩
    exact .inr (hfree results rfl)
  | build =>
    exact ⟨h.set hcall rfl h.stored hsound.1 ⟨hsound.2, rfl⟩ fun _ => .inl rfl, fun _ _ => le_rfl⟩
  | replace =>
    refine ⟨h.replace hcall rfl rfl rfl, fun shard hshard => ?_⟩
    obtain ⟨hchecked, rfl⟩ := hsound.2
    exact (hchecked.assigned (h.topology shard hshard)).2
  | ended hended =>
    refine ⟨h.move hcall rfl (.inl rfl) rfl ?_, fun _ _ => le_rfl⟩
    cases hstage : call.stage with
    | normalized | built => rw [hstage] at hended; cases hended
    | _ => rfl

/-! ## Steps -/

variable {s t : ClusterState}

theorem nodes_setNode (h : ∀ name, NodeInv cluster initial started name (s.node name))
    (hnode : NodeInv cluster initial started name node) (other : String) :
    NodeInv cluster initial started other ((s.setNode name node).node other) := by
  by_cases hname : other = name
  · subst hname
    rw [node_setNode_self]
    exact hnode
  · rw [node_setNode_of_ne s node hname]
    exact h other

theorem epoch_setNode (h : epochOf cluster name (s.node name).state.overrides shard ≤
    epochOf cluster name node.state.overrides shard) (other : String) :
    epoch cluster s other shard ≤ epoch cluster (s.setNode name node) other shard := by
  rw [epoch, epoch]
  by_cases hname : other = name
  · subst hname
    rw [node_setNode_self]
    exact h
  · rw [node_setNode_of_ne s node hname]

theorem assigned_cons {epoch : Nat} {owner : String}
    (h : Assigned cluster initial (request :: started) shard epoch owner) :
    Assigned cluster initial started shard epoch owner ∨ request.shard = shard ∧
    Names request epoch owner := by
  rcases h with h | ⟨request', hmem, h⟩
  · exact .inl (.inl h)
  · rcases mem_cons.mp hmem with rfl | hmem
    · exact .inr h
    · exact .inl (.inr ⟨request', hmem, h⟩)

/-- A request that keeps to the condition does not assign a second owner. -/
theorem Inv.unique_start (h : Inv cluster initial s) (hnames : ∀ epoch owner owner',
    Names request epoch owner → Assigned cluster initial s.started request.shard epoch owner' →
      owner' = owner)
    {epoch : Nat} {owner owner' : String}
    (hshard : ∀ name, shard < (cluster.settings name).walShards)
    (ha : Assigned cluster initial (request :: s.started) shard epoch owner)
    (hb : Assigned cluster initial (request :: s.started) shard epoch owner') : owner = owner' := by
  rcases assigned_cons ha with ha | ⟨hshard', ha⟩
  · rcases assigned_cons hb with hb | ⟨hshard', hnew⟩
    · exact h.unique shard epoch owner owner' hshard ha hb
    · exact hnames epoch owner' owner hnew (hshard' ▸ ha)
  · rcases assigned_cons hb with hold | ⟨-, hb⟩
    · exact (hnames epoch owner owner' ha (hshard' ▸ hold)).symm
    · exact some.inj (ha.2.symm.trans hb.2)

theorem sound_handler (h : Inv cluster initial s) {message : TopologyCluster.Message}
    (hsent : message ∈ s.sent)
    (hhandler : message.handler (s.node message.peer).state = some call) :
    Sound cluster initial s.started call.proposal.request ∧ replacing call.stage = false := by
  cases message with
  | prepare peer proposal =>
    cases hhandler
    exact ⟨h.sent peer proposal hsent, rfl⟩
  | commit peer proposalId =>
    obtain ⟨proposal, hstored, rfl⟩ := map_eq_some_iff.mp hhandler
    exact ⟨(h.nodes peer).stored proposalId proposal hstored, rfl⟩
  | abort peer proposalId =>
    obtain ⟨proposal, hstored, rfl⟩ := map_eq_some_iff.mp hhandler
    refine ⟨(h.nodes peer).stored proposalId proposal hstored, ?_⟩
    show replacing (((abortTopologyProposal proposal).map Stage.returned).getD (.asking [] [])) = false
    cases abortTopologyProposal proposal <;> rfl

/-- A node changes, and no epoch of it is lower than before. -/
theorem Inv.setNode (h : Inv cluster initial s) {sent : List TopologyCluster.Message}
    {issued applied : List (String × String)}
    (hsent : ∀ peer proposal, Message.prepare peer proposal ∈ sent →
    Message.prepare peer proposal ∈ s.sent ∨ Sound cluster initial s.started proposal.request)
    (hnode : NodeInv cluster initial s.started name node)
    (hepoch : ∀ shard, shard < (cluster.settings name).walShards →
    epochOf cluster name (s.node name).state.overrides shard ≤ epochOf cluster name node.state.overrides shard) :
    Inv cluster initial { s.setNode name node with sent, issued, applied } ∧
    ∀ other shard, (∀ name, shard < (cluster.settings name).walShards) →
    epoch cluster s other shard ≤ epoch cluster (s.setNode name node) other shard := by
  refine ⟨⟨h.unique, fun peer proposal hmem => ?_, nodes_setNode h.nodes hnode⟩, fun other shard hshard => ?_⟩
  · rcases hsent peer proposal hmem with hmem | hsound
    · exact h.sent peer proposal hmem
    · exact hsound
  · exact epoch_setNode (hepoch shard (hshard name)) other

/-- A prepare call begins on a node. -/
theorem Inv.start (h : Inv cluster initial s) {proposal : TopologyProposal} {returnFailed : Bool}
    {now : Nat}
    (hsound : Sound cluster initial s.started proposal.request) (name : String)
    {issued : List (String × String)} :
    Inv cluster initial
    { s.setNode name (((s.node name).cleanup now).push (startTopologyProposal proposal returnFailed)) with issued } ∧
    ∀ other shard, (∀ name, shard < (cluster.settings name).walShards) →
    epoch cluster s other shard ≤ epoch cluster
    (s.setNode name (((s.node name).cleanup now).push (startTopologyProposal proposal returnFailed))) other shard :=
  h.setNode (fun _ _ hmem => .inl hmem) (((h.nodes name).cleanup now).push hsound rfl) fun _ _ => le_rfl

theorem replacing_read {source : Source} {result : Option (Except ApiError TopologyProposal)}
    (h : replacing stage = false) :
    replacing (TopologyCall.read source proposal result stage).stage = false := by
  cases result with
  | none => exact h
  | some result => rfl

theorem Inv.step (h : Inv cluster initial s) (hmeets : Meets cluster initial s e)
    (hstep : ClusterStep cluster s e t) :
    Inv cluster initial t ∧ ∀ name shard,
    (∀ name, shard < (cluster.settings name).walShards) →
    epoch cluster s name shard ≤ epoch cluster t name shard := by
  cases hstep with
  | @start name id reason request returnFailed now hfresh =>
    have hstarted : Inv cluster initial { s with started := request :: s.started } :=
      ⟨fun _ _ _ _ => h.unique_start hmeets.2, fun peer proposal hmem => (h.sent peer proposal hmem).cons _,
        fun name => (h.nodes name).cons _⟩
    have hsound : Sound cluster initial (request :: s.started)
        (newProposal (cluster.settings name).config id reason request).request :=
      ⟨hmeets.1, fun epoch owner hn => .inr ⟨request, mem_cons_self, rfl, hn⟩⟩
    exact hstarted.start hsound name
  | @retry name id newId now proposal hstored hretry hfresh =>
    have hsound : Sound cluster initial s.started (newProposal (cluster.settings name).config newId
        s!"retry {proposal.reason}" proposal.request).request := (h.nodes name).stored id proposal hstored
    exact h.start hsound name
  | @commit name id proposal hstored | @abort name id proposal hstored =>
    exact h.setNode (fun _ _ hmem => .inl hmem)
      ((h.nodes name).push ((h.nodes name).stored id proposal hstored) (replacing_read rfl)) fun _ _ => le_rfl
  | @cleanup name now =>
    exact h.setNode (fun _ _ hmem => .inl hmem) ((h.nodes name).cleanup now) fun _ _ => le_rfl
  | @deliver message call hsent hhandler =>
    obtain ⟨hsound, hstage⟩ := sound_handler h hsent hhandler
    exact h.setNode (fun _ _ hmem => .inl hmem) ((h.nodes message.peer).push hsound hstage) fun _ _ => le_rfl
  | @ask name peer i call peers results hcall hstage =>
    refine ⟨⟨h.unique, fun peer' proposal hmem => ?_, h.nodes⟩, fun _ _ _ => le_rfl⟩
    rcases mem_cons.mp hmem with hmem | hmem
    · have hsound := ((h.nodes name).calls call (mem_of_getElem? hcall)).1
      have hproposal : call.proposal = proposal := by
        unfold TopologyCall.message at hmem
        split at hmem <;> cases hmem
        rfl
      exact hproposal ▸ hsound
    · exact h.sent peer' proposal hmem
  | @advance name i now call answer hcall hanswer =>
    obtain ⟨hnode, hepoch⟩ := @NodeInv.advance _ _ _ _ _ now answer (h.nodes name) _ _ hcall fun results hstage =>
      hmeets call results hcall hstage
    exact h.setNode (fun _ _ hmem => .inl hmem) hnode hepoch
  | @fail name _ _ _ hcall | @drop name _ _ hcall =>
    exact h.setNode (fun _ _ hmem => .inl hmem) ((h.nodes name).move hcall rfl (.inl rfl) rfl rfl) fun _ _ => le_rfl

theorem Inv.start_run {lease : String → TopologyLease}
    (hequal : ∀ a b shard, (∀ name, shard < (cluster.settings name).walShards) →
      epochOf cluster a (initial a) shard =
    epochOf cluster b (initial b) shard →
      ownerOf cluster a (initial a) shard = ownerOf cluster b (initial b) shard) :
    Inv cluster initial (.initial initial lease) where
  unique shard epoch owner owner' hshard ha hb := by
    rcases ha with ⟨a, ha, rfl⟩ | ⟨_, hmem, -⟩
    · rcases hb with ⟨b, hb, rfl⟩ | ⟨_, hmem, -⟩
      · exact hequal a b shard hshard (ha.trans hb.symm)
      · cases hmem
    · cases hmem
  sent _ _ hmem := by cases hmem
  nodes name := by
    refine ⟨fun shard _ => .inl ⟨name, rfl, rfl⟩, fun id proposal hstored => ?_, fun call hcall => ?_, ?_⟩
    · have hnone : (∅ : BTreeMap String TopologyProposal)[id]? = none := by simp
      cases hnone.symm.trans hstored
    · cases hcall
    · intro i j call call' hi
      cases hi

theorem Assigned.step (hstep : ClusterStep cluster s e t) {epoch : Nat} {owner : String}
    (h : Assigned cluster initial s.started shard epoch owner) :
    Assigned cluster initial t.started shard epoch owner := by
  cases hstep with
  | start => exact h.cons _
  | _ => exact h

/-- Nodes that begin with one topology: an owner that one node has for an epoch is the owner of
every node with this epoch, then and later, and no epoch decreases. -/
theorem one_owner {lease : String → TopologyLease}
    (hequal : ∀ a b shard, (∀ name, shard < (cluster.settings name).walShards) →
      epochOf cluster a (initial a) shard =
    epochOf cluster b (initial b) shard ∧
      ownerOf cluster a (initial a) shard = ownerOf cluster b (initial b) shard)
    (hs : Reaches (ClusterStep cluster) (Meets cluster initial) (.initial initial lease) s)
    (ht : Reaches (ClusterStep cluster) (Meets cluster initial) s t)
    (shard : Nat) (hshard : ∀ name, shard < (cluster.settings name).walShards) :
    (∀ a b, epoch cluster s a shard = epoch cluster t b shard →
    owner cluster s a shard = owner cluster t b shard) ∧
    ∀ a, epoch cluster s a shard ≤ epoch cluster t a shard := by
  have hinv : Inv cluster initial s := by
    refine hs.invariant (fun _ _ _ hs hmeets hstep => (hs.step hmeets hstep).1) (.start_run ?_)
    exact fun a b shard hshard _ => (hequal a b shard hshard).2
  have hinv' : Inv cluster initial t ∧ (∀ a, epoch cluster s a shard ≤ epoch cluster t a shard) ∧
      ∀ a, Assigned cluster initial t.started shard (epoch cluster s a shard) (owner cluster s a shard) := by
    induction ht with
    | refl => exact ⟨hinv, fun _ => le_rfl, fun a => (hinv.nodes a).topology shard (hshard a)⟩
    | tail _ hstep ih =>
      obtain ⟨hu, hle, hassigned⟩ := ih
      obtain ⟨e, hmeets, hstep⟩ := hstep
      obtain ⟨hv, hle'⟩ := hu.step hmeets hstep
      exact ⟨hv, fun a => (hle a).trans (hle' a shard hshard), fun a => (hassigned a).step hstep⟩
  obtain ⟨hinv', hle, hassigned⟩ := hinv'
  refine ⟨fun a b hepoch => ?_, hle⟩
  have hb := (hinv'.nodes b).topology shard (hshard b)
  have ha := hassigned a
  rw [hepoch] at ha
  exact hinv'.unique shard _ _ _ hshard ha hb

/-! ## A request that names no epoch -/

/-- No call of the node is replacing the overrides, or the call itself is. -/
def checkAction (s : ClusterState) : Action → Bool
  | .advance name i _ _ => (s.node name).calls.all (fun call => !replacing call.stage) ||
      (s.node name).calls[i]?.any fun call => replacing call.stage
  | _ => true

theorem meets_of_checkAction {action : Action} (h : checkAction s action = true) :
    Meets cluster initial s (action.event s) := by
  cases action with
  | advance name i now applied =>
    intro call results hcall hstage other hother
    rcases Bool.or_eq_true_iff.mp h with hall | hany
    · exact Bool.not_eq_true' _ ▸ all_eq_true.mp hall other hother
    · rw [hcall] at hany
      have hr : replacing call.stage = true := hany
      rw [hstage] at hr
      cases hr
  | _ => trivial

def appliedState (request : ApplyTopologyOverrideRequest) : Option ClusterState :=
  run (ClusterState.next twoNodes) checkAction (startedState request) (prepareActions ++ commitActions)

theorem reaches_appliedState {meets : ClusterState → ClusterEvent → Prop}
    {request : ApplyTopologyOverrideRequest}
    (hstart : meets (.initial noOverrides noLease) (.start "a" request))
    (hmeets : ∀ s action, checkAction s action = true → meets s (action.event s))
    (h : appliedState request = some s) :
    Reaches (ClusterStep twoNodes) meets (.initial noOverrides noLease) s := by
  have hfirst : Reaches (ClusterStep twoNodes) meets (.initial noOverrides noLease) (startedState request) :=
    (Reaches.refl _).take (startedState_step request) hstart
  refine hfirst.trans (Reaches.of_actions (fun u action v hnext hcheck => ?_) h)
  exact ⟨_, hmeets u action hcheck, .of_next hnext⟩

theorem noOverrides_equal (a b : String) (shard : Nat)
    (hshard : ∀ name, shard < (twoNodes.settings name).walShards) :
    epochOf twoNodes a (noOverrides a) shard = epochOf twoNodes b (noOverrides b) shard ∧
    ownerOf twoNodes a (noOverrides a) shard = ownerOf twoNodes b (noOverrides b) shard := by
  have hzero : shard = 0 := Nat.lt_one_iff.mp (hshard "a")
  subst hzero
  refine ⟨rfl, ?_⟩
  simp [ownerOf, noOverrides, ClusterConfig.ownerForShardWithOverrides, ClusterConfig.ownerForShard, twoNodes]

/-- The peer has the new owner and the new epoch before the coordinator. -/
theorem one_owner_sample : ∃ s : ClusterState,
    ((∀ a b, epoch twoNodes s a 0 = epoch twoNodes s b 0 →
    owner twoNodes s a 0 = owner twoNodes s b 0) ∧ ∀ a,
    epoch twoNodes s a 0 ≤ epoch twoNodes s a 0) ∧ owner twoNodes s "b" 0 = "b" ∧
    epoch twoNodes s "b" 0 = 2 := by
  have hrun : (appliedState ⟨0, some "b", some 2, none⟩).any (fun s =>
      owner twoNodes s "b" 0 = "b" ∧ epoch twoNodes s "b" 0 = 2) = true := by decide +kernel
  obtain ⟨s, hs, hfacts⟩ := (any_eq_true _ _).mp hrun
  have hmeets : Meets twoNodes noOverrides (.initial noOverrides noLease) (.start "a" ⟨0, some "b", some 2, none⟩) := by
    refine ⟨rfl, ?_⟩
    rintro epoch owner owner' ⟨hepoch, -⟩ (⟨name, hname, -⟩ | ⟨_, hmem, -⟩)
    · cases hepoch
      cases hname
    · cases hmem
  have hreach : Reaches (ClusterStep twoNodes) (Meets twoNodes noOverrides) (.initial noOverrides noLease) s :=
    reaches_appliedState hmeets (fun _ _ => meets_of_checkAction) hs
  exact ⟨s, one_owner noOverrides_equal hreach (.refl s) 0 (fun _ => Nat.one_pos), of_decide_eq_true hfacts⟩

/-- The peer applies the commit, and has another owner for the epoch than the coordinator. -/
theorem two_owners_sample :
    ¬∀ (cluster : Cluster) (initial : String → Overrides) (lease : String →
    TopologyLease) (s : ClusterState),
    (∀ a b shard, (∀ name, shard < (cluster.settings name).walShards) →
    epochOf cluster a (initial a) shard =
    epochOf cluster b (initial b) shard ∧
    ownerOf cluster a (initial a) shard = ownerOf cluster b (initial b) shard) →
    Reaches (ClusterStep cluster) (fun _ _ => True) (.initial initial lease) s → ∀ a b shard,
    (∀ name, shard < (cluster.settings name).walShards) →
    epoch cluster s a shard = epoch cluster s b shard →
    owner cluster s a shard = owner cluster s b shard := by
  intro h
  have hrun : (appliedState ⟨0, some "b", none, none⟩).any (fun s => owner twoNodes s "a" 0 = "a" ∧
      owner twoNodes s "b" 0 = "b" ∧ epoch twoNodes s "a" 0 = epoch twoNodes s "b" 0) = true := by
    decide +kernel
  obtain ⟨s, hs, hfacts⟩ := (any_eq_true _ _).mp hrun
  obtain ⟨ha, hb, hepoch⟩ := of_decide_eq_true hfacts
  have hreach : Reaches (ClusterStep twoNodes) (fun _ _ => True) (.initial noOverrides noLease) s :=
    reaches_appliedState trivial (fun _ _ _ => trivial) hs
  have howner := h twoNodes noOverrides noLease s noOverrides_equal hreach "a" "b" 0 (fun _ => Nat.one_pos) hepoch
  rw [ha, hb] at howner
  exact absurd howner (by decide)

end NextDb.Api.TopologyOwners
