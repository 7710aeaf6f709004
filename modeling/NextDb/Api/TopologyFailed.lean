import NextDb.Api.TopologyCluster

/-!
# Proposals that fail

A peer applies a proposal when it is asked to commit, before the coordinator has counted the
answers. So a commit that gives up leaves the proposal applied where a peer had handled it,
or handles it later. What the coordinator itself does is safe: it applies a proposal only
in a commit call that gets through, a failed proposal is refused by its phase, and an aborted
one by the lease, which was released under the proposal's own term.

* `failed_not_applied`: when no peer applies a proposal outside of a commit that gets through,
  and calls on one proposal do not overlap, a rejected proposal is applied nowhere.
-/

namespace NextDb.Api.TopologyFailed

open Run TopologyCluster List Option Std

/-! ## What a node knows of a proposal -/

/-- The proposal is stored in this phase. -/
def PhaseIs (id : String) (state : TopologyState) (phase : TopologyProposalPhase) : Prop :=
  ∃ proposal, state.proposals[id]? = some proposal ∧ proposal.phase = phase

/-- A commit of the proposal has returned an error. -/
def CommitErr (id : String) (calls : List TopologyCall) : Prop :=
  ∃ call ∈ calls, call.proposal.id = id ∧ call.source = .commit ∧ ∃ err, call.stage = .returned (.error err)

/-- A commit of the proposal has failed, or the proposal has ended failed or aborted. -/
def Rejected (id : String) (node : Node) : Prop :=
  CommitErr id node.calls ∨ PhaseIs id node.state .failed ∨ PhaseIs id node.state .aborted

/-- The call asks the peers to commit, and has not replaced the overrides. -/
def inRound : Stage → Bool
  | .asking .. | .applying _ | .checked _ | .normalized .. | .built .. => true
  | _ => false

def ending : Stage → Bool
  | .releasing | .storing | .stored => true
  | _ => false

/-- A commit that has not given up. -/
def Commits (call : TopologyCall) : Prop :=
  call.source = .commit ∧ (inRound call.stage = true ∨ ending call.stage = true ∧ call.proposal.phase = .committed)

/-- The proposal is being committed, or is. -/
def Open (id : String) (node : Node) : Prop :=
  (∃ call ∈ node.calls, call.proposal.id = id ∧ Commits call) ∨ PhaseIs id node.state .committed

/-- No call on the proposal is under way. -/
def Idle (id : String) (node : Node) : Prop :=
  ∀ call ∈ node.calls, call.proposal.id = id → call.stage.active = false

/-- A call on the proposal has gone through with it: a peer's that carried out a request to commit it,
or the commit that asked. -/
def CarriedOut (id : String) (node : Node) : Prop :=
  ∃ call ∈ node.calls, call.proposal.id = id ∧ call.proposal.phase = .committed

/-- The peers did not acknowledge, or a check refuses to apply the proposal. -/
def GivesUp (settings : NodeSettings) (now : Nat) (state : TopologyState) (call : TopologyCall) :
    Prop :=
  call.refuses settings now state = true ∨
    ∃ results, call.stage = .asking [] results ∧ ackCount results + 1 < call.proposal.requiredAcks

/-- Calls on a proposal are made on its coordinator, one after another, and none commits a proposal
whose commit has failed; a commit gives up only while no node has carried out a request to commit
the proposal, and does not fail once it has replaced the overrides itself; and a peer carries out a
request only while a commit of the proposal has not given up, or once it is committed. -/
def Meets (cluster : Cluster) (s : ClusterState) : ClusterEvent → Prop
  | .commit name id => ∀ proposal, (s.node name).state.proposals[id]? = some proposal →
      proposal.proposedBy = name ∧ Idle id (s.node name) ∧
        (proposal.phase = .prepared → ¬CommitErr id (s.node name).calls)
  | .abort name id => ∀ proposal, (s.node name).state.proposals[id]? = some proposal →
      proposal.proposedBy = name ∧ Idle id (s.node name)
  | .advance name i now => ∀ call, (s.node name).calls[i]? = some call →
      (call.source = .commit → inRound call.stage = true →
        GivesUp (cluster.settings name) now (s.node name).state call →
        ∀ other, ¬CarriedOut call.proposal.id (s.node other)) ∧
      ∀ message results request next, call.source = .peer message →
      call.stage = .built results request next →
        Open call.proposal.id (s.node call.proposal.proposedBy)
  | .fail name i => ∀ call, (s.node name).calls[i]? = some call → call.source = .commit →
      (inRound call.stage = true → ∀ other, ¬CarriedOut call.proposal.id (s.node other)) ∧
        ¬(ending call.stage = true ∧ call.proposal.phase = .committed)
  | .drop name i => ∀ call, (s.node name).calls[i]? = some call → call.source = .commit →
      (inRound call.stage = true → ∀ other, ¬CarriedOut call.proposal.id (s.node other)) ∧
        ¬(ending call.stage = true ∧ call.stage ≠ .stored ∧ call.proposal.phase = .committed)
  | _ => True

/-- No node has applied the proposal. -/
def NoneApplied (applied : List (String × String)) (id : String) : Prop :=
  ∀ name, (name, id) ∉ applied

/-! ## What the calls on a proposal have read and checked -/

/-- A lease of the proposal has its term and its coordinator. -/
def TermHolds (lease : TopologyLease) (proposal : TopologyProposal) : Prop :=
  lease.proposalId = some proposal.id →
    lease.currentTerm = proposal.term ∧ lease.holderNodeId = some proposal.proposedBy

/-- What a prepare has read and stored, stage by stage. -/
def PrepareHolds (id : String) (node : Node) (proposal : TopologyProposal) : Stage → Prop
  | .normalizing | .acquiring => node.state.proposals[id]? = none ∧
      node.state.lease.proposalId ≠ some id ∧ proposal.phase = .prepared
  | .inserting => node.state.proposals[id]? = none ∧ proposal.phase = .prepared
  | .asking .. => PhaseIs id node.state .prepared ∧ proposal.phase = .prepared
  | .releasing | .storing => PhaseIs id node.state .prepared ∧
      (proposal.phase = .prepared ∨ proposal.phase = .failed)
  | .stored => ¬PhaseIs id node.state .committed
  | _ => False

/-- What a commit has read and stored, stage by stage. -/
def CommitHolds (id : String) (node : Node) (proposal : TopologyProposal) : Stage → Prop
  | .matching => node.state.proposals[id]? = some proposal ∧
      (proposal.phase = .prepared ∧ ¬CommitErr id node.calls ∨ proposal.phase = .aborted)
  | .releasing | .storing => PhaseIs id node.state .prepared ∧
      (proposal.phase = .failed ∨ proposal.phase = .committed ∧ ¬CommitErr id node.calls)
  | .stored => proposal.phase = .failed ∧ PhaseIs id node.state .failed ∨
      proposal.phase = .committed ∧ PhaseIs id node.state .committed ∧ ¬CommitErr id node.calls
  | stage => inRound stage = true ∧ PhaseIs id node.state .prepared ∧ ¬CommitErr id node.calls

/-- What an abort has read and stored, stage by stage. -/
def AbortHolds (id : String) (node : Node) (proposal : TopologyProposal) : Stage → Prop
  | .asking .. | .stored => ¬PhaseIs id node.state .committed
  | .releasing => ¬PhaseIs id node.state .committed ∧ proposal.phase = .aborted
  | .storing => ¬PhaseIs id node.state .committed ∧ proposal.phase = .aborted ∧
      node.state.lease.proposalId ≠ some id
  | _ => False

/-- What a call of the coordinator has read and stored. -/
def CallHolds (id : String) (node : Node) (call : TopologyCall) : Prop :=
  match call.source with
  | .prepare _ => PrepareHolds id node call.proposal call.stage
  | .commit => CommitHolds id node call.proposal call.stage
  | .abort => AbortHolds id node call.proposal call.stage
  | .peer _ => False

/-- The proposal has its term. -/
def acquired : Stage → Bool
  | .normalizing | .acquiring => false
  | _ => true

/-- What holds of a proposal on its coordinator. -/
structure IdInv (id : String) (node : Node) (applied : List (String × String)) : Prop where
  alone : ∀ (i j : Nat) (a b : TopologyCall), node.calls[i]? = some a → node.calls[j]? = some b →
    a.proposal.id = id → b.proposal.id = id → a.stage.active = true → b.stage.active = true → i = j
  holds : ∀ call ∈ node.calls, call.proposal.id = id → call.stage.active = true → CallHolds id node call
  aborted : PhaseIs id node.state .aborted → node.state.lease.proposalId ≠ some id
  stored : ∀ proposal, node.state.proposals[id]? = some proposal → TermHolds node.state.lease proposal
  terms : ∀ call ∈ node.calls, call.proposal.id = id → call.stage.active = true → acquired call.stage = true →
    TermHolds node.state.lease call.proposal
  committed : PhaseIs id node.state .committed → ¬CommitErr id node.calls
  applied : ∀ name, (name, id) ∈ applied → Open id node

/-! ## Steps that are not about the proposal -/

variable {id : String} {node node' : Node} {applied applied' : List (String × String)}
    {call call' : TopologyCall}

theorem active_of_commits (h : Commits call) : call.stage.active = true := by
  obtain ⟨-, h | ⟨h, -⟩⟩ := h <;> cases hs : call.stage <;> rw [hs] at h <;> first | rfl | cases h

variable {phase : TopologyProposalPhase} {proposal : TopologyProposal} {peer : String}

theorem phaseIs_congr {state state' : TopologyState}
    (h : state'.proposals[id]? = state.proposals[id]?) :
    PhaseIs id state' phase ↔ PhaseIs id state phase := by
  rw [PhaseIs, PhaseIs, h]

/-- The stored proposal is the same, the lease is not given to it, and no commit has failed. -/
theorem CallHolds.mono (h : CallHolds id node call)
    (hstored : node'.state.proposals[id]? = node.state.proposals[id]?)
    (hlease : node.state.lease.proposalId ≠ some id → node'.state.lease.proposalId ≠ some id)
    (herr : CommitErr id node'.calls → CommitErr id node.calls) : CallHolds id node' call := by
  have hphase : ∀ phase, PhaseIs id node'.state phase ↔ PhaseIs id node.state phase :=
    fun _ => phaseIs_congr hstored
  obtain ⟨source, proposal, stage⟩ := call
  cases source with
  | prepare returnFailed =>
    show PrepareHolds id node' proposal stage
    have h : PrepareHolds id node proposal stage := h
    cases stage with
    | normalizing | acquiring => exact ⟨hstored.trans h.1, hlease h.2.1, h.2.2⟩
    | inserting => exact ⟨hstored.trans h.1, h.2⟩
    | asking | releasing | storing => exact ⟨(hphase _).mpr h.1, h.2⟩
    | stored => exact fun hc => h ((hphase _).mp hc)
    | _ => exact h.elim
  | commit =>
    show CommitHolds id node' proposal stage
    have h : CommitHolds id node proposal stage := h
    cases stage with
    | matching => exact ⟨hstored.trans h.1, h.2.imp_left fun h => ⟨h.1, fun he => h.2 (herr he)⟩⟩
    | releasing | storing =>
      exact ⟨(hphase _).mpr h.1, h.2.imp_right fun h => ⟨h.1, fun he => h.2 (herr he)⟩⟩
    | stored =>
      exact h.imp (fun h => ⟨h.1, (hphase _).mpr h.2⟩) fun h =>
        ⟨h.1, (hphase _).mpr h.2.1, fun he => h.2.2 (herr he)⟩
    | _ => exact ⟨h.1, (hphase _).mpr h.2.1, fun he => h.2.2 (herr he)⟩
  | abort =>
    show AbortHolds id node' proposal stage
    have h : AbortHolds id node proposal stage := h
    cases stage with
    | asking | stored => exact fun hc => h ((hphase _).mp hc)
    | releasing => exact ⟨fun hc => h.1 ((hphase _).mp hc), h.2⟩
    | storing => exact ⟨fun hc => h.1 ((hphase _).mp hc), h.2.1, hlease h.2.2⟩
    | _ => exact h.elim
  | peer message => exact h.elim

/-- The lease is as it was, or is not the proposal's. -/
def LeaseStep (id : String) (lease lease' : TopologyLease) : Prop :=
  lease' = lease ∨ lease'.proposalId ≠ some id

variable {lease lease' : TopologyLease} {calls : List TopologyCall} {proposal' : TopologyProposal}
    {source : Source}
  {stage : Stage} {results : List TopologyPropagationResult} {issued' : List (String × String)}
  {message : TopologyCluster.Message}

theorem LeaseStep.ne (h : LeaseStep id lease lease') (hne : lease.proposalId ≠ some id) :
    lease'.proposalId ≠ some id := by
  rcases h with rfl | h
  · exact hne
  · exact h

theorem LeaseStep.term (h : LeaseStep id lease lease') (hid : proposal.id = id)
    (hterm : TermHolds lease proposal) :
    TermHolds lease' proposal := by
  rcases h with rfl | h
  · exact hterm
  · exact fun hl => absurd (hl.trans (congrArg some hid)) h

/-- A step of a call on another proposal. -/
theorem IdInv.frame (h : IdInv id node applied) (hcalls : ∀ (i : Nat) (call : TopologyCall),
    call.proposal.id = id → (node'.calls[i]? = some call ↔ node.calls[i]? = some call))
    (hstored : node'.state.proposals[id]? = node.state.proposals[id]?)
    (hids : ∀ proposal, node.state.proposals[id]? = some proposal → proposal.id = id)
    (hlease : LeaseStep id node.state.lease node'.state.lease)
    (happlied : ∀ name, (name, id) ∈ applied' → (name, id) ∈ applied ∨ Open id node) :
    IdInv id node' applied' := by
  have hmem : ∀ call : TopologyCall, call.proposal.id = id → (call ∈ node'.calls ↔ call ∈ node.calls) := by
    intro call hid
    rw [mem_iff_getElem?, mem_iff_getElem?]
    exact exists_congr fun i => hcalls i call hid
  have hphase : ∀ phase, PhaseIs id node'.state phase ↔ PhaseIs id node.state phase :=
    fun _ => phaseIs_congr hstored
  have herr : CommitErr id node'.calls ↔ CommitErr id node.calls := by
    refine exists_congr fun call => ⟨fun ⟨hc, hid, hr⟩ => ⟨(hmem call hid).mp hc, hid, hr⟩, ?_⟩
    exact fun ⟨hc, hid, hr⟩ => ⟨(hmem call hid).mpr hc, hid, hr⟩
  have hopen : Open id node → Open id node' := by
    rintro (⟨call, hc, hid, hcommits⟩ | hc)
    · exact .inl ⟨call, (hmem call hid).mpr hc, hid, hcommits⟩
    · exact .inr ((hphase _).mpr hc)
  refine ⟨?_, ?_, ?_, ?_, ?_, ?_, ?_⟩
  · intro i j a b hi hj ha hb
    exact h.alone i j a b ((hcalls i a ha).mp hi) ((hcalls j b hb).mp hj) ha hb
  · intro call hc hid hactive
    exact (h.holds call ((hmem call hid).mp hc) hid hactive).mono hstored hlease.ne herr.mp
  · exact fun ha => hlease.ne (h.aborted ((hphase _).mp ha))
  · intro proposal hp
    have hp := hstored.symm.trans hp
    exact hlease.term (hids proposal hp) (h.stored proposal hp)
  · intro call hc hid hactive hacquired
    exact hlease.term hid (h.terms call ((hmem call hid).mp hc) hid hactive hacquired)
  · exact fun hc he => h.committed ((hphase _).mp hc) (herr.mp he)
  · intro name hn
    rcases happlied name hn with hn | ho
    · exact hopen (h.applied name hn)
    · exact hopen ho

/-! ## Steps of a call on the proposal -/

variable {i : Nat} {state : TopologyState}

theorem phaseIs_unique {phase' : TopologyProposalPhase} (h : PhaseIs id state phase)
    (h' : PhaseIs id state phase') :
    phase = phase' := by
  obtain ⟨proposal, hp, rfl⟩ := h
  obtain ⟨proposal', hp', rfl⟩ := h'
  cases hp.symm.trans hp'
  rfl

theorem IdInv.others (h : IdInv id node applied) (hcall : node.calls[i]? = some call)
    (hid : call.proposal.id = id)
    (hactive : call.stage.active = true) {j : Nat} {other : TopologyCall}
    (hj : node.calls[j]? = some other)
    (hother : other.proposal.id = id) (hji : j ≠ i) : other.stage.active = false := by
  cases ha : other.stage.active with
  | false => rfl
  | true => exact absurd (h.alone j i other call hj hcall hother hid ha hactive) hji

theorem commitErr_set (h : CommitErr id (calls.set i call')) :
    CommitErr id calls ∨ call'.source = .commit ∧ ∃ err, call'.stage = .returned (.error err) := by
  obtain ⟨call, hc, hid, hsource, herr⟩ := h
  rcases mem_or_eq_of_mem_set hc with hc | rfl
  · exact .inl ⟨call, hc, hid, hsource, herr⟩
  · exact .inr ⟨hsource, herr⟩

theorem CommitErr.set (h : CommitErr id calls) (hcall : calls[i]? = some call)
    (hactive : call.stage.active = true) :
    CommitErr id (calls.set i call') := by
  obtain ⟨other, hc, hid, hsource, err, herr⟩ := h
  obtain ⟨j, hj⟩ := mem_iff_getElem?.mp hc
  have hji : i ≠ j := by
    rintro rfl
    cases hcall.symm.trans hj
    rw [herr] at hactive
    cases hactive
  refine ⟨other, mem_iff_getElem?.mpr ⟨j, ?_⟩, hid, hsource, err, herr⟩
  rw [getElem?_set_ne hji]
  exact hj

/-- The proposal is open by the call that is under way, or stored as committed. -/
theorem IdInv.commits (h : IdInv id node applied) (hcall : node.calls[i]? = some call)
    (hid : call.proposal.id = id)
    (hactive : call.stage.active = true) (ho : Open id node) :
    Commits call ∨ PhaseIs id node.state .committed := by
  rcases ho with ⟨other, hc, hother, hcommits⟩ | hc
  · obtain ⟨j, hj⟩ := mem_iff_getElem?.mp hc
    by_cases hji : j = i
    · subst hji
      cases hcall.symm.trans hj
      exact .inl hcommits
    · cases (h.others hcall hid hactive hj hother hji).symm.trans (active_of_commits hcommits)
  · exact .inr hc

theorem mem_setCall (hcall : calls[i]? = some call) : call' ∈ calls.set i call' :=
  List.mem_set (List.getElem?_eq_some_iff.mp hcall).1 call'

/-- The call that is under way takes a step. -/
theorem IdInv.own (h : IdInv id node applied)
    (hcall : node.calls[i]? = some call) (hid : call.proposal.id = id)
    (hactive : call.stage.active = true)
    (hholds : call'.stage.active = true → CallHolds id ⟨state, node.calls.set i call'⟩ call')
    (haborted : PhaseIs id state .aborted → state.lease.proposalId ≠ some id)
    (hstored : ∀ proposal, state.proposals[id]? = some proposal → TermHolds state.lease proposal)
    (hterm : call'.stage.active = true → acquired call'.stage = true →
      TermHolds state.lease call'.proposal)
    (hcommitted : PhaseIs id state .committed → ¬CommitErr id (node.calls.set i call'))
    (happlied : ∀ name, (name, id) ∈ applied' → Commits call' ∧ call'.proposal.id = id ∨
      PhaseIs id state .committed) :
    IdInv id ⟨state, node.calls.set i call'⟩ applied' where
  alone := by
    intro j k a b hj hk ha hb hactivea hactiveb
    rcases getElem?_set_cases hj with ⟨hji, -⟩ | ⟨hji, hj⟩
    · rcases getElem?_set_cases hk with ⟨hki, -⟩ | ⟨hki, hk⟩
      · rw [hji, hki]
      · cases (h.others hcall hid hactive hk hb hki).symm.trans hactiveb
    · cases (h.others hcall hid hactive hj ha hji).symm.trans hactivea
  holds := by
    intro other hc hother hactive'
    obtain ⟨j, hj⟩ := mem_iff_getElem?.mp hc
    rcases getElem?_set_cases hj with ⟨-, rfl⟩ | ⟨hji, hj⟩
    · exact hholds hactive'
    · cases (h.others hcall hid hactive hj hother hji).symm.trans hactive'
  aborted := haborted
  stored := hstored
  terms := by
    intro other hc hother hactive' hacquired
    obtain ⟨j, hj⟩ := mem_iff_getElem?.mp hc
    rcases getElem?_set_cases hj with ⟨-, rfl⟩ | ⟨hji, hj⟩
    · exact hterm hactive' hacquired
    · cases (h.others hcall hid hactive hj hother hji).symm.trans hactive'
  committed := hcommitted
  applied := by
    intro name hn
    rcases happlied name hn with ⟨hcommits, hid'⟩ | hc
    · exact .inl ⟨call', mem_setCall hcall, hid', hcommits⟩
    · exact .inr hc

/-- The copies of a proposal that a call makes. -/
structure Copy (proposal proposal' : TopologyProposal) : Prop where
  id : proposal'.id = proposal.id
  term : proposal'.term = proposal.term
  proposedBy : proposal'.proposedBy = proposal.proposedBy

theorem Copy.refl (proposal : TopologyProposal) : Copy proposal proposal := ⟨rfl, rfl, rfl⟩

theorem TermHolds.copy (h : TermHolds lease proposal) (hcopy : Copy proposal proposal') :
    TermHolds lease proposal' := by
  intro hl
  rw [hcopy.id] at hl
  rw [hcopy.term, hcopy.proposedBy]
  exact h hl

/-- The call that is under way goes on, with the stored proposals as they are. -/
theorem IdInv.goOn (h : IdInv id node applied)
    (hcall : node.calls[i]? = some call) (hid : call.proposal.id = id)
    (hactive : call.stage.active = true)
    (hids : ∀ proposal, node.state.proposals[id]? = some proposal → proposal.id = id)
    (hproposals : state.proposals = node.state.proposals)
    (hlease : LeaseStep id node.state.lease state.lease)
    (hcopy : Copy call.proposal call'.proposal)
    (hacquired : acquired call'.stage = true → acquired call.stage = true)
    (hholds : call'.stage.active = true → CallHolds id ⟨state, node.calls.set i call'⟩ call')
    (herr : (call'.source = .commit ∧ ∃ err, call'.stage = .returned (.error err)) →
      ¬PhaseIs id node.state .committed)
    (happlied : ∀ name, (name, id) ∈ applied' → (name, id) ∈ applied ∨ Commits call')
    (hopen : Commits call → Commits call' ∨ PhaseIs id node.state .committed ∨
      NoneApplied applied' id) :
    IdInv id ⟨state, node.calls.set i call'⟩ applied' := by
  have hphase : ∀ phase, PhaseIs id state phase ↔ PhaseIs id node.state phase :=
    fun _ => phaseIs_congr (congrArg (·[id]?) hproposals)
  refine h.own hcall hid hactive hholds ?_ ?_ ?_ ?_ ?_
  · exact fun ha => hlease.ne (h.aborted ((hphase _).mp ha))
  · intro proposal hp
    rw [hproposals] at hp
    exact hlease.term (hids proposal hp) (h.stored proposal hp)
  · intro _ ha
    have hterm := h.terms call (mem_of_getElem? hcall) hid hactive (hacquired ha)
    exact (hlease.term hid hterm).copy hcopy
  · intro hc he
    have hc := (hphase _).mp hc
    rcases commitErr_set he with he | he
    · exact h.committed hc he
    · exact herr he hc
  · intro name hn
    have hid' : call'.proposal.id = id := hcopy.id.trans hid
    rcases happlied name hn with hold | hcommits
    · rcases h.commits hcall hid hactive (h.applied name hold) with hcommits | hc
      · rcases hopen hcommits with hcommits' | hc | hnone
        · exact .inl ⟨hcommits', hid'⟩
        · exact .inr ((hphase _).mpr hc)
        · exact absurd hn (hnone name)
      · exact .inr ((hphase _).mpr hc)
    · exact .inl ⟨hcommits, hid'⟩

/-! ## What each stage does -/

variable {settings : NodeSettings} {now : Nat} {name : String}

theorem leaseStep_release (id : String) (lease : TopologyLease) (proposal : TopologyProposal) :
    LeaseStep id lease (releaseTopologyLease lease proposal) := by
  unfold releaseTopologyLease
  split
  · exact .inr nofun
  · exact .inl rfl

theorem release_ne (h : TermHolds lease proposal) :
    (releaseTopologyLease lease proposal).proposalId ≠ some proposal.id := by
  unfold releaseTopologyLease
  split
  · exact nofun
  · next hne =>
    intro hl
    obtain ⟨hterm, hholder⟩ := h hl
    exact hne ⟨hterm, hholder, hl⟩

theorem ensure_ok (h : ensureTopologyLeaseMatches now lease proposal = .ok ()) :
    lease.proposalId = some proposal.id := by
  unfold ensureTopologyLeaseMatches at h
  split at h
  · cases h
  · split at h
    · cases h
    · next hfor => exact (not_not.mp hfor).2

theorem acquire_ok {topologyLeaseMs : Nat} {nodeId : String}
    (h : acquireTopologyLeaseForProposal nodeId topologyLeaseMs now lease proposal = .ok (lease',
      proposal')) :
    proposal'.id = proposal.id ∧ proposal'.proposedBy = proposal.proposedBy ∧
    proposal'.phase = proposal.phase ∧
    lease'.currentTerm = proposal'.term ∧ lease'.holderNodeId = some nodeId := by
  unfold acquireTopologyLeaseForProposal at h
  split at h
  · cases h
  · cases h
    exact ⟨rfl, rfl, rfl, rfl, rfl⟩

theorem not_ending_of_refuses (h : call.refuses settings now state = true) :
    ending call.stage = false := by
  obtain ⟨source, proposal, stage⟩ := call
  cases stage with
  | releasing | storing | stored => cases h
  | _ => rfl

theorem not_committed_of_refuses (h : CallHolds id node call)
    (hrefuses : call.refuses settings now node.state = true)
    (hsource : call.source = .commit) : ¬PhaseIs id node.state .committed := by
  obtain ⟨source, proposal, stage⟩ := call
  cases hsource
  have h : CommitHolds id node proposal stage := h
  intro hc
  cases stage with
  | matching =>
    have hphase := phaseIs_unique ⟨proposal, h.1, rfl⟩ hc
    rcases h.2 with ⟨hp, -⟩ | hp <;> cases hp.symm.trans hphase
  | applying | checked => cases phaseIs_unique h.2.1 hc
  | _ => first | cases hrefuses | exact h.1.elim | cases h.1

/-- A call ends before it has stored the proposal. -/
theorem IdInv.stop (h : IdInv id node applied) (hcall : node.calls[i]? = some call)
    (hid : call.proposal.id = id) (hactive : call.stage.active = true) {stage : Stage}
    (hended : stage.active = false)
    (herr : call.source = .commit → (∃ err, stage = .returned (.error err)) →
      ¬PhaseIs id node.state .committed)
    (hopen : Commits call → PhaseIs id node.state .committed ∨ NoneApplied applied id) :
    IdInv id ⟨node.state, node.calls.set i (call.to stage)⟩ applied := by
  refine h.own hcall hid hactive ?_ h.aborted h.stored ?_ ?_ ?_
  · intro ha
    cases hended.symm.trans ha
  · intro ha
    cases hended.symm.trans ha
  · intro hc he
    rcases commitErr_set he with he | ⟨hsource, he⟩
    · exact h.committed hc he
    · exact herr hsource he hc
  · intro name hn
    rcases h.commits hcall hid hactive (h.applied name hn) with hcommits | hc
    · rcases hopen hcommits with hc | hnone
      · exact .inr hc
      · exact absurd hn (hnone name)
    · exact .inr hc

/-- A check refuses. -/
theorem IdInv.refuse (h : IdInv id node applied) (hcall : node.calls[i]? = some call)
    (hid : call.proposal.id = id)
    (hactive : call.stage.active = true) {err : ApiError}
    (hrefuses : call.refuses settings now node.state = true)
    (hgives : call.source = .commit → inRound call.stage = true → NoneApplied applied id) :
    IdInv id ⟨node.state, node.calls.set i (call.fails err)⟩ applied := by
  have hholds := h.holds call (mem_of_getElem? hcall) hid hactive
  refine h.stop hcall hid hactive rfl (fun hsource _ => not_committed_of_refuses hholds hrefuses hsource) ?_
  rintro ⟨hsource, hround | ⟨hending, -⟩⟩
  · exact .inr (hgives hsource hround)
  · cases (not_ending_of_refuses hrefuses).symm.trans hending

/-- A prepare call gets its term with the lease. -/
theorem IdInv.acquire (h : IdInv id node applied)
    (hcall : node.calls[i]? = some ⟨source, proposal, .acquiring⟩) (hid : proposal.id = id)
    (hnode : proposal.proposedBy = settings.config.nodeId)
    (hacquire : acquireTopologyLeaseForProposal
    settings.config.nodeId settings.topologyLeaseMs now node.state.lease proposal = .ok (lease,
      proposal')) :
    IdInv id ⟨{ node.state with lease }, node.calls.set i ⟨source, proposal',
    .inserting⟩⟩ applied := by
  obtain ⟨hid', hby, hphase, hterm, hholder⟩ := acquire_ok hacquire
  have hholds := h.holds _ (mem_of_getElem? hcall) hid rfl
  cases source with
  | prepare returnFailed =>
    obtain ⟨hnone, -, hprepared⟩ := hholds
    have hno : ∀ phase, ¬PhaseIs id node.state phase := by
      rintro phase ⟨p, hp, -⟩
      cases hnone.symm.trans hp
    refine h.own hcall hid rfl (fun _ => ⟨hnone, hphase.trans hprepared⟩) (fun ha => absurd ha (hno _)) ?_ ?_
      (fun hc => absurd hc (hno _)) fun name hn => ?_
    · intro p hp
      cases hnone.symm.trans hp
    · intro _ _ _
      refine ⟨hterm, hholder.trans (congrArg some ?_)⟩
      rw [hby, hnode]
    · rcases h.commits hcall hid rfl (h.applied name hn) with ⟨hsource, -⟩ | hc
      · cases hsource
      · exact absurd hc (hno _)
  | commit =>
    cases hholds.1
  | abort | peer => exact hholds.elim

theorem phaseIs_insert (id : String) (state : TopologyState) {phase : TopologyProposalPhase}
    (hid : proposal.id = id) :
    PhaseIs id { state with proposals := state.proposals.insert proposal.id proposal } phase ↔
    proposal.phase = phase := by
  have hget : (state.proposals.insert proposal.id proposal)[id]? = some proposal := by
    rw [hid, ExtTreeMap.getElem?_insert_self]
  refine ⟨?_, fun hp => ⟨proposal, hget, hp⟩⟩
  rintro ⟨p, hp, rfl⟩
  cases hget.symm.trans hp
  rfl

/-- A call stores its copy of the proposal. -/
theorem IdInv.write (h : IdInv id node applied) {source : Source} {stage stage' : Stage}
    (hcall : node.calls[i]? = some ⟨source, proposal, stage⟩) (hid : proposal.id = id)
    (hactive : stage.active = true)
    (hacquired : acquired stage = true) (hactive' : stage'.active = true)
    (hholds : CallHolds id ⟨{ node.state with proposals := node.state.proposals.insert proposal.id proposal },
    node.calls.set i ⟨source, proposal, stage'⟩⟩ ⟨source, proposal, stage'⟩)
    (haborted : proposal.phase = .aborted → node.state.lease.proposalId ≠ some id)
    (hcommitted : proposal.phase = .committed → ¬CommitErr id node.calls)
    (hopen : Commits ⟨source, proposal, stage⟩ ∨
    PhaseIs id node.state .committed → Commits ⟨source, proposal, stage'⟩ ∨
      proposal.phase = .committed) :
    IdInv id ⟨{ node.state with proposals := node.state.proposals.insert proposal.id proposal },
    node.calls.set i ⟨source, proposal, stage'⟩⟩ applied := by
  have hphase := fun phase => @phaseIs_insert proposal id node.state phase hid
  have hterm := h.terms _ (mem_of_getElem? hcall) hid hactive hacquired
  refine h.own hcall hid hactive (fun _ => hholds) ?_ ?_ (fun _ _ => hterm) ?_ ?_
  · exact fun ha => haborted ((hphase _).mp ha)
  · intro p hp
    have hget : (node.state.proposals.insert proposal.id proposal)[id]? = some proposal := by
      rw [hid, ExtTreeMap.getElem?_insert_self]
    cases hget.symm.trans hp
    exact hterm
  · intro hc he
    rcases commitErr_set he with he | ⟨-, err, he⟩
    · exact hcommitted ((hphase _).mp hc) he
    · rw [show stage' = _ from he] at hactive'
      cases hactive'
  · intro name hn
    rcases hopen (h.commits hcall hid hactive (h.applied name hn)) with hcommits | hc
    · exact .inl ⟨hcommits, hid⟩
    · exact .inr ((hphase _).mpr hc)

theorem not_commits (h : source ≠ .commit) : ¬Commits ⟨source, proposal, stage⟩ :=
  fun hc => h hc.1

theorem IdInv.insert (h : IdInv id node applied) {source : Source}
    (peers : List String) (hcall : node.calls[i]? = some ⟨source, proposal, .inserting⟩)
    (hid : proposal.id = id) :
    IdInv id ⟨{ node.state with proposals := node.state.proposals.insert proposal.id proposal },
    node.calls.set i ⟨source, proposal, .asking peers []⟩⟩ applied := by
  have hholds := h.holds _ (mem_of_getElem? hcall) hid rfl
  cases source with
  | prepare returnFailed =>
    obtain ⟨hnone, hprepared⟩ := hholds
    refine h.write hcall hid rfl rfl rfl ⟨(phaseIs_insert id _ hid).mpr hprepared, hprepared⟩ ?_ ?_ ?_
    · intro ha
      cases hprepared.symm.trans ha
    · intro hc
      cases hprepared.symm.trans hc
    · rintro (hc | ⟨p, hp, -⟩)
      · exact absurd hc (not_commits nofun)
      · cases hnone.symm.trans hp
  | commit => cases hholds.1
  | abort | peer => exact hholds.elim

theorem IdInv.store (h : IdInv id node applied) {source : Source}
    (hcall : node.calls[i]? = some ⟨source, proposal, .storing⟩) (hid : proposal.id = id) :
    IdInv id ⟨{ node.state with proposals := node.state.proposals.insert proposal.id proposal },
    node.calls.set i ⟨source, proposal, .stored⟩⟩ applied := by
  have hholds := h.holds _ (mem_of_getElem? hcall) hid rfl
  have hphase := fun phase => @phaseIs_insert proposal id node.state phase hid
  cases source with
  | prepare returnFailed =>
    obtain ⟨hstored, hprepared⟩ := hholds
    have hne : proposal.phase ≠ .committed ∧ proposal.phase ≠ .aborted := by
      rcases hprepared with hp | hp <;> rw [hp] <;> decide
    refine h.write hcall hid rfl rfl rfl (fun hc => hne.1 ((hphase _).mp hc)) (fun ha => absurd ha hne.2)
      (fun hc => absurd hc hne.1) ?_
    rintro (hc | hc)
    · exact absurd hc (not_commits nofun)
    · cases phaseIs_unique hstored hc
  | commit =>
    obtain ⟨hstored, hprepared⟩ := hholds
    have hkeep : ∀ call' : TopologyCall, call'.stage = .stored → CommitErr id (node.calls.set i call') →
        CommitErr id node.calls := by
      intro call' hstage he
      rcases commitErr_set he with he | ⟨-, err, he⟩
      · exact he
      · cases hstage.symm.trans he
    refine h.write hcall hid rfl rfl rfl ?_ ?_ ?_ ?_
    · rcases hprepared with hf | ⟨hc, hne⟩
      · exact .inl ⟨hf, (hphase _).mpr hf⟩
      · exact .inr ⟨hc, (hphase _).mpr hc, fun he => hne (hkeep _ rfl he)⟩
    · intro ha
      rcases hprepared with hf | ⟨hc, -⟩
      · cases hf.symm.trans ha
      · cases hc.symm.trans ha
    · intro hc
      rcases hprepared with hf | ⟨-, hne⟩
      · cases hf.symm.trans hc
      · exact hne
    · rintro (⟨-, hround | ⟨-, hc⟩⟩ | hc)
      · cases hround
      · exact .inr hc
      · cases phaseIs_unique hstored hc
  | abort =>
    obtain ⟨hnot, habort, hlease⟩ := hholds
    have hne : proposal.phase ≠ .committed := by rw [habort]; decide
    refine h.write hcall hid rfl rfl rfl (fun hc => hne ((hphase _).mp hc)) (fun _ => hlease) (fun hc => absurd hc hne)
      ?_
    rintro (hc | hc)
    · exact absurd hc (not_commits nofun)
    · exact absurd hc hnot
  | peer => exact hholds.elim

/-- A commit that gets on with its round. -/
theorem IdInv.round (h : IdInv id node applied)
    {stage' : Stage} (hcall : node.calls[i]? = some ⟨.commit, proposal, stage⟩)
    (hid : proposal.id = id)
    (hids : ∀ proposal, node.state.proposals[id]? = some proposal → proposal.id = id)
    (hactive : stage.active = true) (hacquired : acquired stage = true)
    (hstored : PhaseIs id node.state .prepared)
    (herr : ¬CommitErr id node.calls) (hround' : inRound stage' = true) :
    IdInv id ⟨node.state, node.calls.set i ⟨.commit, proposal, stage'⟩⟩ applied := by
  have hreturned : ∀ err, stage' ≠ .returned (.error err) := by
    rintro err rfl
    cases hround'
  have hkeep : ¬CommitErr id (node.calls.set i ⟨.commit, proposal, stage'⟩) := by
    intro he
    rcases commitErr_set he with he | ⟨-, err, he⟩
    · exact herr he
    · exact hreturned err he
  refine h.goOn hcall hid hactive hids rfl (.inl rfl) (.refl _) (fun _ => hacquired) (fun _ => ?_) ?_
    (fun _ hn => .inl hn) fun _ => .inl ⟨rfl, .inl hround'⟩
  · show CommitHolds _ _ _ stage'
    cases stage' with
    | asking | applying | checked | normalized | built => exact ⟨rfl, hstored, hkeep⟩
    | _ => cases hround'
  · rintro ⟨-, err, he⟩
    exact absurd he (hreturned err)

theorem acknowledge_copy (proposal : TopologyProposal) (results : List TopologyPropagationResult) :
    Copy proposal (proposal.acknowledge results) ∧ (proposal.phase = .prepared →
    (proposal.acknowledge results).phase = .prepared ∨
    (proposal.acknowledge results).phase = .failed) := by
  unfold TopologyProposal.acknowledge
  dsimp only
  split
  · exact ⟨⟨rfl, rfl, rfl⟩, fun _ => .inr rfl⟩
  · exact ⟨⟨rfl, rfl, rfl⟩, fun h => .inl h⟩

section
variable (h : IdInv id node applied)
include h

theorem IdInv.answered {source : Source}
    {results : List TopologyPropagationResult}
    (hcall : node.calls[i]? = some ⟨source, proposal, .asking [] results⟩)
    (hid : proposal.id = id)
    (hids : ∀ proposal, node.state.proposals[id]? = some proposal → proposal.id = id)
    (hgives : source = .commit → ackCount results + 1 < proposal.requiredAcks →
      NoneApplied applied id) : IdInv id
    ⟨node.state, node.calls.set i (TopologyCall.answered ⟨source, proposal,
    .asking [] results⟩ results)⟩ applied := by
  have hholds := h.holds _ (mem_of_getElem? hcall) hid rfl
  cases source with
  | prepare returnFailed =>
    obtain ⟨hstored, hprepared⟩ := hholds
    obtain ⟨hcopy, hphase⟩ := acknowledge_copy proposal results
    refine h.goOn hcall hid rfl hids rfl (.inl rfl) hcopy (fun _ => rfl) (fun _ => ?_) (fun hc => by cases hc.1)
      (fun _ hn => .inl hn) fun hc => absurd hc (not_commits nofun)
    show PrepareHolds _ _ _ (if (proposal.acknowledge results).phase = .failed then .releasing else .storing)
    split <;> exact ⟨hstored, hphase hprepared⟩
  | commit =>
    obtain ⟨-, hstored, herr⟩ := hholds
    unfold TopologyCall.answered
    dsimp only
    split
    · next hfew =>
      refine h.goOn hcall hid rfl hids rfl (.inl rfl) ⟨rfl, rfl, rfl⟩ (fun _ => rfl) (fun _ => ⟨hstored, .inl rfl⟩) (fun
        ⟨_, _, hc⟩ => by cases hc) (fun _ hn => .inl hn) fun _ => .inr (.inr (hgives rfl hfew))
    · exact h.round hcall hid hids rfl rfl hstored herr rfl
  | abort =>
    exact h.goOn hcall hid rfl hids rfl (.inl rfl) ⟨rfl, rfl, rfl⟩ (fun _ => rfl) (fun _ => ⟨hholds, rfl⟩)
      (fun hc => by cases hc.1) (fun _ hn => .inl hn) fun hc => absurd hc (not_commits nofun)
  | peer => exact hholds.elim

/-- Only a prepared proposal has the lease. -/
theorem IdInv.ensure {source : Source} {stage : Stage}
    (hcall : node.calls[i]? = some ⟨source, proposal, .matching⟩)
    (hid : proposal.id = id)
    (hids : ∀ proposal, node.state.proposals[id]? = some proposal → proposal.id = id)
    (hmatches : ensureTopologyLeaseMatches now node.state.lease proposal = .ok ())
    (hround : source = .commit → inRound stage = true) :
    IdInv id ⟨node.state, node.calls.set i ⟨source, proposal, stage⟩⟩ applied := by
  have hholds := h.holds _ (mem_of_getElem? hcall) hid rfl
  cases source with
  | commit =>
    obtain ⟨hstored, ⟨hprepared, herr⟩ | haborted⟩ := hholds
    · exact h.round hcall hid hids rfl rfl ⟨proposal, hstored, hprepared⟩ herr (hround rfl)
    · have hlease := ensure_ok hmatches
      rw [hid] at hlease
      exact absurd hlease (h.aborted ⟨proposal, hstored, haborted⟩)
  | prepare | abort | peer => exact hholds.elim

theorem IdInv.replace {request : ApplyTopologyOverrideRequest}
    {next : Overrides} (name : String)
    (hcall : node.calls[i]? = some ⟨source, proposal, .built results request next⟩)
    (hid : proposal.id = id)
    (hids : ∀ proposal, node.state.proposals[id]? = some proposal → proposal.id = id) :
    IdInv id ⟨{ node.state with overrides := next }, node.calls.set i ⟨source,
    proposal.commit settings.config results,
    .releasing⟩⟩ ((name, proposal.id) :: applied) := by
  have hholds := h.holds _ (mem_of_getElem? hcall) hid rfl
  cases source with
  | commit =>
    obtain ⟨-, hstored, herr⟩ := hholds
    have hcommits : Commits ⟨.commit, proposal.commit settings.config results, .releasing⟩ :=
      ⟨rfl, .inr ⟨rfl, rfl⟩⟩
    refine h.goOn hcall hid rfl hids rfl (.inl rfl) ⟨rfl, rfl, rfl⟩ (fun _ => rfl) (fun _ => ⟨hstored,
      .inr ⟨rfl, fun he => ?_⟩⟩) (fun ⟨_, _, hc⟩ => by cases hc) (fun _ _ => .inr hcommits) fun _ => .inl hcommits
    rcases commitErr_set he with he | ⟨-, err, he⟩
    · exact herr he
    · cases he
  | prepare | abort | peer => exact hholds.elim

theorem IdInv.release {source : Source}
    (hcall : node.calls[i]? = some ⟨source, proposal, .releasing⟩)
    (hid : proposal.id = id)
    (hids : ∀ proposal, node.state.proposals[id]? = some proposal → proposal.id = id) :
    IdInv id ⟨{ node.state with lease := releaseTopologyLease node.state.lease proposal },
    node.calls.set i ⟨source, proposal, .storing⟩⟩ applied := by
  have hholds := h.holds _ (mem_of_getElem? hcall) hid rfl
  have hlease := leaseStep_release id node.state.lease proposal
  have hterm := h.terms _ (mem_of_getElem? hcall) hid rfl rfl
  cases source with
  | prepare returnFailed =>
    exact h.goOn hcall hid rfl hids rfl hlease (.refl _) (fun _ => rfl) (fun _ => hholds) (fun hc => by cases hc.1)
      (fun _ hn => .inl hn) fun hc => absurd hc (not_commits nofun)
  | commit =>
    refine h.goOn hcall hid rfl hids rfl hlease (.refl _) (fun _ => rfl) (fun _ => ⟨hholds.1,
      hholds.2.imp_right fun hc => ⟨hc.1, fun he => ?_⟩⟩) (fun ⟨_, _, hc⟩ => by cases hc) (fun _ hn => .inl hn) ?_
    · rcases commitErr_set he with he | ⟨-, err, he⟩
      · exact hc.2 he
      · cases he
    · rintro ⟨-, hround | ⟨-, hc⟩⟩
      · cases hround
      · exact .inl ⟨rfl, .inr ⟨rfl, hc⟩⟩
  | abort =>
    refine h.goOn hcall hid rfl hids rfl hlease (.refl _) (fun _ => rfl) (fun _ => ⟨hholds.1, hholds.2, fun hl => ?_⟩)
      (fun hc => by cases hc.1) (fun _ hn => .inl hn) fun hc => absurd hc (not_commits nofun)
    exact release_ne hterm (hl.trans (congrArg some hid.symm))
  | peer => exact hholds.elim

theorem IdInv.finish {source : Source} (hcall : node.calls[i]? = some ⟨source, proposal, .stored⟩)
    (hid : proposal.id = id) : IdInv id ⟨node.state,
    node.calls.set i ⟨source, proposal, .returned (TopologyCall.result ⟨source, proposal,
    .stored⟩)⟩⟩ applied := by
  have hholds := h.holds _ (mem_of_getElem? hcall) hid rfl
  refine h.stop hcall hid rfl rfl ?_ ?_
  · rintro rfl ⟨err, herr⟩ hc
    rcases hholds with ⟨-, hf⟩ | ⟨hcommitted, -⟩
    · cases phaseIs_unique hf hc
    · have hne : proposal.phase ≠ .failed := by rw [hcommitted]; decide
      have hok : TopologyCall.result ⟨.commit, proposal, .stored⟩ = .ok proposal := if_neg hne
      rw [hok] at herr
      cases herr
  · rintro ⟨hsource, hround | ⟨-, hcommitted⟩⟩
    · cases hround
    · cases hsource
      rcases hholds with ⟨hf, -⟩ | ⟨-, hc, -⟩
      · cases hf.symm.trans hcommitted
      · exact .inl hc

/-- The call that is under way goes on. -/
theorem IdInv.advance (hcall : node.calls[i]? = some call) (hid : call.proposal.id = id)
    (hactive : call.stage.active = true) (hnode : call.proposal.proposedBy = settings.config.nodeId)
    (hids : ∀ proposal, node.state.proposals[id]? = some proposal → proposal.id = id)
    (hgives : call.source = .commit → inRound call.stage = true →
      GivesUp settings now node.state call →
    NoneApplied applied id) (hadvances : Advances settings now node.state call state call') :
    IdInv id ⟨state, node.calls.set i call'⟩ (call.applies name ++ applied) := by
  have hholds := h.holds call (mem_of_getElem? hcall) hid hactive
  cases hadvances with
  | refuse hrefuses =>
    have hnil : call.applies name = [] := by
      unfold TopologyCall.applies
      split
      · next hstage =>
        rw [TopologyCall.refuses, hstage] at hrefuses
        cases hrefuses
      · rfl
    rw [hnil]
    exact h.refuse hcall hid hactive hrefuses fun hsource hround => hgives hsource hround (.inl hrefuses)
  | @normalize source proposal request stage hnormalize hstage =>
    cases source with
    | prepare returnFailed =>
      rcases hstage with ⟨rfl, -⟩ | ⟨-, message, hmessage⟩
      · exact h.goOn hcall hid rfl hids rfl (.inl rfl) ⟨rfl, rfl, rfl⟩ (fun h => by cases h) (fun _ => hholds)
          (fun hc => by cases hc.1) (fun _ hn => .inl hn) fun hc => absurd hc (not_commits (by simp))
      · cases hmessage
    | commit => cases hholds.1
    | abort | peer => exact hholds.elim
  | acquire hacquire => exact h.acquire hcall hid hnode hacquire
  | @accept source proposal lease haccept =>
    cases source with
    | commit => cases hholds.1
    | prepare | abort | peer => exact hholds.elim
  | insert => exact h.insert _ hcall hid
  | @ensure source proposal stage hmatches hstage =>
    refine h.ensure hcall hid hids hmatches ?_
    rintro rfl
    rcases hstage with ⟨rfl, -⟩ | ⟨-, message, hmessage⟩
    · rfl
    · cases hmessage
  | @answer source proposal peer peers results answer =>
    cases source with
    | prepare | abort =>
      exact h.goOn hcall hid rfl hids rfl (.inl rfl) (.refl _) (fun _ => rfl) (fun _ => hholds)
        (fun hc => by cases hc.1) (fun _ hn => .inl hn) fun hc => absurd hc (not_commits (by simp))
    | commit => exact h.round hcall hid hids rfl rfl hholds.2.1 hholds.2.2 rfl
    | peer => exact hholds.elim
  | @answered source proposal results =>
    exact h.answered hcall hid hids fun hsource hfew => hgives hsource rfl (.inr ⟨results, rfl, hfew⟩)
  | @apply source | @check source | @build source =>
    cases source with
    | commit => exact h.round hcall hid hids rfl rfl hholds.2.1 hholds.2.2 rfl
    | prepare | abort | peer => exact hholds.elim
  | replace => exact h.replace name hcall hid hids
  | release => exact h.release hcall hid hids
  | store => exact h.store hcall hid
  | finish => exact h.finish hcall hid
  | ended hended => cases hended.symm.trans hactive

/-- A proposal that was rejected stays so. -/
theorem IdInv.rejected (hcall : node.calls[i]? = some call)
    (hid : call.proposal.id = id) (hactive : call.stage.active = true) (hr : Rejected id node)
    (hadvances : Advances settings now node.state call state call') :
    Rejected id ⟨state, node.calls.set i call'⟩ := by
  rcases hr with hr | hr
  · exact .inl (hr.set hcall hactive)
  have hholds := h.holds call (mem_of_getElem? hcall) hid hactive
  have hprepared : ¬PhaseIs id node.state .prepared := by
    intro hp
    rcases hr with hr | hr <;> cases phaseIs_unique hp hr
  cases hadvances with
  | @insert source proposal =>
    cases source with
    | prepare returnFailed =>
      rcases hr with ⟨p, hp, -⟩ | ⟨p, hp, -⟩ <;> cases hholds.1.symm.trans hp
    | commit => cases hholds.1
    | abort | peer => exact hholds.elim
  | @store source proposal =>
    cases source with
    | prepare | commit => exact absurd hholds.1 hprepared
    | abort => exact .inr (.inr ((phaseIs_insert id _ hid).mpr hholds.2.1))
    | peer => exact hholds.elim
  | _ => exact .inr hr

end

/-! ## Calls that begin -/

/-- A call on the proposal begins when no other is under way, or returns at once. -/
theorem IdInv.push (h : IdInv id node applied)
    (hidle : call.stage.active = true ∨ CommitErr id [call] → Idle id node)
    (hholds : call.stage.active = true → CallHolds id (node.push call) call)
    (hterm : call.stage.active = true → TermHolds node.state.lease call.proposal)
    (herr : CommitErr id [call] → ¬PhaseIs id node.state .committed) :
    IdInv id (node.push call) applied := by
  have hget : ∀ (j : Nat) (a : TopologyCall), (node.push call).calls[j]? = some a → node.calls[j]? = some a ∨
      j = node.calls.length ∧ a = call := by
    intro j a hj
    rw [Node.push, getElem?_append] at hj
    split at hj
    · exact .inl hj
    · next hlt =>
      have hlast := List.getElem?_eq_some_iff.mp hj
      obtain ⟨hlen, rfl⟩ := hlast
      rw [length_singleton] at hlen
      exact .inr ⟨by omega, getElem_singleton ..⟩
  have hcommitErr : CommitErr id (node.push call).calls → CommitErr id node.calls ∨ CommitErr id [call] := by
    rintro ⟨other, hc, hr⟩
    rcases mem_append.mp hc with hc | hc
    · exact .inl ⟨other, hc, hr⟩
    · exact .inr ⟨other, hc, hr⟩
  have hopen : Open id node → Open id (node.push call) := by
    rintro (⟨other, hc, hr⟩ | hc)
    · exact .inl ⟨other, mem_append_left _ hc, hr⟩
    · exact .inr hc
  refine ⟨?_, ?_, h.aborted, h.stored, ?_, ?_, fun name hn => hopen (h.applied name hn)⟩
  · intro j k a b hj hk ha hb hactivea hactiveb
    rcases hget j a hj with hja | ⟨hjl, hac⟩
    · rcases hget k b hk with hkb | ⟨-, hbc⟩
      · exact h.alone j k a b hja hkb ha hb hactivea hactiveb
      · rw [hbc] at hactiveb
        cases (hidle (.inl hactiveb) a (mem_of_getElem? hja) ha).symm.trans hactivea
    · rcases hget k b hk with hkb | ⟨hkl, -⟩
      · rw [hac] at hactivea
        cases (hidle (.inl hactivea) b (mem_of_getElem? hkb) hb).symm.trans hactiveb
      · rw [hjl, hkl]
  · intro other hc hother hactive
    rcases mem_append.mp hc with hc | hc
    · refine (h.holds other hc hother hactive).mono rfl (fun hl => hl) fun he => ?_
      rcases hcommitErr he with he | he
      · exact he
      · cases (hidle (.inr he) other hc hother).symm.trans hactive
    · cases mem_singleton.mp hc
      exact hholds hactive
  · intro other hc hother hactive hacquired
    rcases mem_append.mp hc with hc | hc
    · exact h.terms other hc hother hactive hacquired
    · cases mem_singleton.mp hc
      exact hterm hactive
  · intro hc he
    rcases hcommitErr he with he | he
    · exact h.committed hc he
    · exact herr he hc

/-- Nothing is known of an id that was not used. -/
theorem IdInv.unused (hcalls : ∀ other ∈ node.calls, other.proposal.id ≠ id)
    (hstored : node.state.proposals[id]? = none) (happlied : NoneApplied applied id) :
    IdInv id node applied where
  alone j k a b hj _ ha := absurd ha (hcalls a (mem_of_getElem? hj))
  holds other hc hother := absurd hother (hcalls other hc)
  aborted := by
    rintro ⟨p, hp, -⟩
    cases hstored.symm.trans hp
  stored p hp := by cases hstored.symm.trans hp
  terms other hc hother := absurd hother (hcalls other hc)
  committed := by
    rintro ⟨p, hp, -⟩
    cases hstored.symm.trans hp
  applied name hn := absurd hn (happlied name)

/-! ## Ids -/

variable {issued : List (String × String)}

/-- The stages of calls that ask peers. -/
def Asks : Stage → Prop
  | .acquiring | .inserting => True
  | .asking peers _ => peers ≠ []
  | _ => False

/-- The call is on a proposal that was issued, and is where it belongs. -/
structure CallIssued (issued : List (String × String)) (name : String) (call : TopologyCall) :
    Prop where
  mem : (call.proposal.id, call.proposal.proposedBy) ∈ issued
  own : (∀ message, call.source ≠ .peer message) → call.proposal.proposedBy = name
  peer : ∀ message, call.source = .peer message → call.proposal.proposedBy ≠ name ∧ ¬Asks call.stage
  asking : ∀ peers results, call.stage = .asking peers results → ∀ peer ∈ peers, peer ≠ name

/-- The calls and the stored proposals of a node were issued. -/
structure NodeIssued (issued : List (String × String)) (name : String) (node : Node) : Prop where
  calls : ∀ call ∈ node.calls, CallIssued issued name call
  stored : ∀ (id : String) (proposal : TopologyProposal), node.state.proposals[id]? = some proposal →
    proposal.id = id ∧ (id, proposal.proposedBy) ∈ issued

/-- A request goes to another node than the coordinator. -/
def MessageIssued (issued : List (String × String)) : TopologyCluster.Message → Prop
  | .prepare peer proposal => (proposal.id, proposal.proposedBy) ∈ issued ∧
    proposal.proposedBy ≠ peer
  | .commit peer id | .abort peer id => ∃ name, (id, name) ∈ issued ∧ name ≠ peer

theorem CallIssued.mono (h : CallIssued issued name call) (hsub : issued ⊆ issued') :
    CallIssued issued' name call :=
  ⟨hsub h.mem, h.own, h.peer, h.asking⟩

theorem NodeIssued.mono (h : NodeIssued issued name node) (hsub : issued ⊆ issued') :
    NodeIssued issued' name node :=
  ⟨fun call hc => (h.calls call hc).mono hsub, fun id p hp => ⟨(h.stored id p hp).1, hsub (h.stored id p hp).2⟩⟩

theorem MessageIssued.mono (h : MessageIssued issued message) (hsub : issued ⊆ issued') :
    MessageIssued issued' message := by
  cases message with
  | prepare => exact ⟨hsub h.1, h.2⟩
  | commit | abort =>
    obtain ⟨name, hmem, hne⟩ := h
    exact ⟨name, hsub hmem, hne⟩

theorem ne_of_mem_topologyPeerNodes {config : ClusterConfig} (h : peer ∈ topologyPeerNodes config) :
    peer ≠ config.nodeId := by
  obtain ⟨node, hnode, rfl⟩ := mem_map.mp h
  exact (of_decide_eq_true (mem_filter.mp hnode).2).1

/-- A call keeps its source and its proposal's id and coordinator. -/
theorem advances_same (h : Advances settings now node.state call state call') :
    call'.source = call.source ∧
    call'.proposal.id = call.proposal.id ∧
    call'.proposal.proposedBy = call.proposal.proposedBy := by
  cases h with
  | acquire hacquire =>
    obtain ⟨hid, hby, -⟩ := acquire_ok hacquire
    exact ⟨rfl, hid, hby⟩
  | @answered source proposal results =>
    have hcopy := (acknowledge_copy proposal results).1
    unfold TopologyCall.answered
    dsimp only
    split
    · exact ⟨rfl, hcopy.id, hcopy.proposedBy⟩
    · split <;> exact ⟨rfl, rfl, rfl⟩
    · exact ⟨rfl, rfl, rfl⟩
    · exact ⟨rfl, rfl, rfl⟩
  | _ => exact ⟨rfl, rfl, rfl⟩

theorem stage_answered (call : TopologyCall) (results : List TopologyPropagationResult) :
    ∀ peers results', (call.answered results).stage ≠ .asking peers results' := by
  intro peers results' h
  unfold TopologyCall.answered at h
  split at h
  · dsimp only at h
    split at h <;> cases h
  · split at h <;> cases h
  · cases h
  · cases h

section
variable (h : Advances settings now node.state call state call')
include h

theorem advances_asking
    (hasking : ∀ peers results, call.stage = .asking peers results → ∀ peer ∈ peers,
    peer ≠ settings.config.nodeId) {peers : List String}
    (hstage : call'.stage = .asking peers results) :
    ∀ peer ∈ peers, peer ≠ settings.config.nodeId := by
  cases h with
  | insert =>
    cases hstage
    exact fun peer hp => ne_of_mem_topologyPeerNodes hp
  | ensure hmatches hnext =>
    rcases hnext with ⟨rfl, -⟩ | ⟨rfl, -⟩
    · cases hstage
      exact fun peer hp => ne_of_mem_topologyPeerNodes hp
    · cases hstage
  | normalize hnormalize hnext =>
    rcases hnext with ⟨rfl, -⟩ | ⟨rfl, -⟩ <;> cases hstage
  | answer =>
    cases hstage
    exact fun peer hp => hasking _ _ rfl peer (mem_cons_of_mem _ hp)
  | answered => exact absurd hstage (stage_answered _ _ _ _)
  | ended => exact hasking _ _ hstage
  | _ => cases hstage

theorem advances_asks (hsource : call.source = .peer message) (hasks : ¬Asks call.stage) :
    ¬Asks call'.stage := by
  cases h with
  | normalize _ hstage | ensure _ hstage =>
    rcases hstage with ⟨-, hno⟩ | ⟨rfl, -⟩
    · exact absurd hsource (hno message)
    · exact nofun
  | acquire | insert => exact absurd trivial hasks
  | answer => exact absurd (cons_ne_nil _ _) hasks
  | @answered source proposal results =>
    cases hsource
    exact nofun
  | ended => exact hasks
  | _ => exact nofun

theorem advances_stored {id : String} (hid : call.proposal.id ≠ id) :
    state.proposals[id]? = node.state.proposals[id]? := by
  cases h with
  | insert | store =>
    rw [ExtTreeMap.getElem?_insert, if_neg]
    exact fun hc => hid (LawfulEqCmp.eq_of_compare hc)
  | _ => rfl

theorem advances_lease {id : String} (hid : call.proposal.id ≠ id) :
    LeaseStep id node.state.lease state.lease := by
  cases h with
  | acquire hacquire =>
    unfold acquireTopologyLeaseForProposal at hacquire
    split at hacquire
    · cases hacquire
    · cases hacquire
      exact .inr fun hl => hid (some.inj hl)
  | accept haccept =>
    unfold acceptTopologyLeaseForProposal at haccept
    split at haccept
    · cases haccept
    · split at haccept
      · cases haccept
      · cases haccept
        exact .inr fun hl => hid (some.inj hl)
  | release => exact leaseStep_release id _ _
  | _ => exact .inl rfl

theorem advances_ended (hended : call.stage.active = false) :
    state = node.state ∧ call' = call := by
  cases h with
  | refuse hrefuses =>
    obtain ⟨source, proposal, stage⟩ := call
    cases stage with
    | returned | dropped => cases hrefuses
    | _ => cases hended
  | ended => exact ⟨rfl, rfl⟩
  | _ => cases hended

end

/-! ## Steps of the cluster -/

variable {cluster : Cluster} {s t : ClusterState}

/-- Each proposal has one coordinator, and is as that knows it. -/
structure Inv (s : ClusterState) : Prop where
  unique : ∀ id name name', (id, name) ∈ s.issued → (id, name') ∈ s.issued → name = name'
  nodes : ∀ name, NodeIssued s.issued name (s.node name)
  sent : ∀ message ∈ s.sent, MessageIssued s.issued message
  applied : ∀ name id, (name, id) ∈ s.applied → ∃ coordinator, (id, coordinator) ∈ s.issued
  ids : ∀ id name, (id, name) ∈ s.issued → IdInv id (s.node name) s.applied

/-- On its coordinator, the proposal's invariant holds after a step, and it stays rejected. -/
structure Keeps (id : String) (node node' : Node) (applied' : List (String × String)) : Prop where
  inv : IdInv id node' applied'
  rejected : Rejected id node → Rejected id node'

theorem rejected_congr (hcalls : ∀ call ∈ node.calls, call.proposal.id = id → call ∈ node'.calls)
    (hstored : node'.state.proposals[id]? = node.state.proposals[id]?) (h : Rejected id node) :
    Rejected id node' := by
  rcases h with ⟨call, hc, hid, hr⟩ | h
  · exact .inl ⟨call, hcalls call hc hid, hid, hr⟩
  · exact .inr (h.imp (phaseIs_congr hstored).mpr (phaseIs_congr hstored).mpr)

/-- A step that changes the node, and the calls of one of its nodes. -/
theorem Inv.setNode (h : Inv s) {name : String} {sent : List TopologyCluster.Message}
    {started : List ApplyTopologyOverrideRequest} (hnode : NodeIssued s.issued name node)
    (happlied : ∀ other id, (other, id) ∈ applied' → (other, id) ∈ s.applied ∨ other = name ∧
      ∃ coordinator,
    (id, coordinator) ∈ s.issued ∧ (coordinator ≠ name → Open id (s.node coordinator)))
    (hsent : ∀ message ∈ sent,
    MessageIssued s.issued message)
    (hkeeps : ∀ id, (id, name) ∈ s.issued → Keeps id (s.node name) node applied') :
    Inv { s.setNode name node with sent, started, applied := applied' } ∧
    s.issued ⊆ s.issued ∧ ∀ id coordinator, (id, coordinator) ∈ s.issued →
    Rejected id (s.node coordinator) →
    Rejected id ((s.setNode name node).node coordinator) := by
  refine ⟨⟨h.unique, fun other => ?_, hsent, fun other id hn => ?_, fun id coordinator hmem => ?_⟩, fun _ hm => hm, ?_⟩
  · show NodeIssued s.issued other ((s.setNode name node).node other)
    by_cases ho : other = name
    · subst ho
      rw [node_setNode_self]
      exact hnode
    · rw [node_setNode_of_ne s node ho]
      exact h.nodes other
  · rcases happlied other id hn with hn | ⟨-, coordinator, hmem, -⟩
    · exact h.applied other id hn
    · exact ⟨coordinator, hmem⟩
  · show IdInv id ((s.setNode name node).node coordinator) applied'
    by_cases hc : coordinator = name
    · subst hc
      rw [node_setNode_self]
      exact (hkeeps id hmem).inv
    · rw [node_setNode_of_ne s node hc]
      refine (h.ids id coordinator hmem).frame (fun _ _ _ => .rfl) rfl
        (fun p hp => ((h.nodes coordinator).stored id p hp).1) (.inl rfl) fun other hn => ?_
      rcases happlied other id hn with hn | ⟨-, coordinator', hmem', hopen⟩
      · exact .inl hn
      · cases h.unique id coordinator coordinator' hmem hmem'
        exact .inr (hopen hc)
  · intro id coordinator hmem hr
    by_cases hc : coordinator = name
    · subst hc
      rw [node_setNode_self]
      exact (hkeeps id hmem).rejected hr
    · rw [node_setNode_of_ne s node hc]
      exact hr

/-- A call on another proposal changes its place. -/
theorem getElem?_set_other {calls : List TopologyCall} (hcall : calls[i]? = some call)
    (hid : call.proposal.id ≠ id)
    (hid' : call'.proposal.id ≠ id) (j : Nat) (other : TopologyCall)
    (hother : other.proposal.id = id) :
    (calls.set i call')[j]? = some other ↔ calls[j]? = some other := by
  by_cases hij : i = j
  · subst hij
    rw [List.getElem?_set_self (List.getElem?_eq_some_iff.mp hcall).1, hcall]
    constructor
    · intro ho
      exact absurd (some.inj ho ▸ hother) hid'
    · intro ho
      exact absurd (some.inj ho ▸ hother) hid
  · rw [getElem?_set_ne hij]

theorem getElem?_push_other (hid : call.proposal.id ≠ id) (j : Nat) (other : TopologyCall)
    (hother : other.proposal.id = id) : (calls ++ [call])[j]? = some other ↔
    calls[j]? = some other := by
  rw [getElem?_append]
  split
  · rfl
  · next hlt =>
    rw [getElem?_eq_none (Nat.le_of_not_lt hlt)]
    constructor
    · intro ho
      cases mem_singleton.mp (mem_of_getElem? ho)
      exact absurd hother hid
    · intro ho
      cases ho

/-- A call goes on, on the coordinator of a proposal. -/
theorem keeps_advance (h : IdInv id node applied) (hissued : NodeIssued issued name node)
    (hunique : ∀ id name name', (id, name) ∈ issued → (id, name') ∈ issued → name = name')
    (hid : (id, name) ∈ issued) (hname : settings.config.nodeId = name)
    (hcall : node.calls[i]? = some call)
    (hgives : call.source = .commit → inRound call.stage = true →
      GivesUp settings now node.state call →
    NoneApplied applied call.proposal.id)
    (hadvances : Advances settings now node.state call state call') :
    Keeps id node ⟨state, node.calls.set i call'⟩ (call.applies name ++ applied) := by
  have hmem := mem_of_getElem? hcall
  have hids : ∀ p, node.state.proposals[id]? = some p → p.id = id := fun p hp => (hissued.stored id p hp).1
  obtain ⟨-, hid', -⟩ := advances_same hadvances
  by_cases hother : call.proposal.id = id
  · cases hactive : call.stage.active with
    | true =>
      have hby : call.proposal.proposedBy = settings.config.nodeId := by
        have hissuedCall := (hissued.calls call hmem).mem
        rw [hother] at hissuedCall
        exact (hunique id _ _ hissuedCall hid).trans hname.symm
      refine ⟨h.advance hcall hother hactive hby hids ?_ hadvances,
        fun hr => h.rejected hcall hother hactive hr hadvances⟩
      rw [← hother]
      exact hgives
    | false =>
      obtain ⟨rfl, rfl⟩ := advances_ended hadvances hactive
      have hset : node.calls.set i call' = node.calls := by
        obtain ⟨hi, hget⟩ := List.getElem?_eq_some_iff.mp hcall
        rw [← hget, List.set_getElem_self hi]
      have hnil : call'.applies name = [] := by
        unfold TopologyCall.applies
        split
        · next hstage =>
          rw [hstage] at hactive
          cases hactive
        · rfl
      rw [hset, hnil]
      exact ⟨h, fun hr => hr⟩
  · have hother' : call'.proposal.id ≠ id := by rw [hid']; exact hother
    have hset := getElem?_set_other hcall hother hother'
    have hstored := advances_stored hadvances hother
    refine ⟨h.frame hset hstored hids (advances_lease hadvances hother) fun n hn => ?_, fun hr => ?_⟩
    · rcases mem_append.mp hn with hn | hn
      · unfold TopologyCall.applies at hn
        split at hn
        · cases mem_singleton.mp hn
          exact absurd rfl hother
        · cases hn
      · exact .inl hn
    · refine rejected_congr (fun c hc hcid => ?_) hstored hr
      obtain ⟨j, hj⟩ := mem_iff_getElem?.mp hc
      exact mem_of_getElem? ((hset j c hcid).mpr hj)

theorem Keeps.trans {node'' : Node} (h : Keeps id node node' applied)
    (h' : Keeps id node' node'' applied') :
    Keeps id node node'' applied' :=
  ⟨h'.inv, fun hr => h'.rejected (h.rejected hr)⟩

theorem leaseStep_cleanup (id : String) (now : Nat) (lease : TopologyLease) :
    LeaseStep id lease (cleanupExpiredTopologyLease now lease) := by
  unfold cleanupExpiredTopologyLease
  split
  · exact .inr nofun
  · exact .inl rfl

theorem keeps_cleanup (h : IdInv id node applied)
    (hids : ∀ p, node.state.proposals[id]? = some p → p.id = id)
    (now : Nat) : Keeps id node (node.cleanup now) applied :=
  ⟨h.frame (fun _ _ _ => .rfl) rfl hids (leaseStep_cleanup id now _) fun _ hn => .inl hn, fun hr => hr⟩

theorem keeps_push_other (h : IdInv id node applied)
    (hids : ∀ p, node.state.proposals[id]? = some p → p.id = id)
    (hother : call.proposal.id ≠ id) : Keeps id node (node.push call) applied := by
  refine ⟨h.frame (getElem?_push_other hother) rfl hids (.inl rfl) fun _ hn => .inl hn, fun hr => ?_⟩
  exact rejected_congr (fun c hc _ => mem_append_left _ hc) rfl hr

theorem keeps_push (h : IdInv id (node.push call) applied) :
    Keeps id node (node.push call) applied :=
  ⟨h, fun hr => rejected_congr (fun _ hc _ => mem_append_left _ hc) rfl hr⟩

theorem NodeIssued.push (h : NodeIssued issued name node) (hcall : CallIssued issued name call) :
    NodeIssued issued name (node.push call) := by
  refine ⟨fun other hc => ?_, h.stored⟩
  rcases mem_append.mp hc with hc | hc
  · exact h.calls other hc
  · cases mem_singleton.mp hc
    exact hcall

theorem startCommit_stage (proposal : TopologyProposal) :
    (startCommit proposal).stage = .matching ∧
    (proposal.phase = .prepared ∨ proposal.phase = .aborted) ∨ ∃ result,
    (startCommit proposal).stage = .returned result ∧
    ((∃ err, result = .error err) → proposal.phase ≠ .committed) := by
  obtain ⟨id, proposedBy, term, expires, reason, phase, request, acks, results, required, err⟩ := proposal
  show Option.getD (Option.map _ (commitTopologyProposal _)) _ = _ ∧ _ ∨ _
  unfold commitTopologyProposal startCommit TopologyCall.read commitTopologyProposal
  cases phase with
  | committed => exact .inr ⟨_, rfl, fun ⟨_, he⟩ => by cases he⟩
  | failed => exact .inr ⟨_, rfl, fun _ => nofun⟩
  | prepared =>
    dsimp only
    split
    · exact .inr ⟨_, rfl, fun _ => nofun⟩
    · exact .inl ⟨rfl, .inl rfl⟩
  | aborted =>
    dsimp only
    split
    · exact .inr ⟨_, rfl, fun _ => nofun⟩
    · exact .inl ⟨rfl, .inr rfl⟩

theorem startAbort_stage (source : Source) (peers : List String) (proposal : TopologyProposal) :
    (startAbort source peers proposal).stage = .asking peers [] ∧ proposal.phase ≠ .committed ∨
    ∃ result, (startAbort source peers proposal).stage = .returned result := by
  unfold startAbort TopologyCall.read abortTopologyProposal
  split
  · exact .inr ⟨_, rfl⟩
  · next hphase => exact .inl ⟨rfl, hphase⟩

theorem commitErr_singleton (h : CommitErr id [call]) :
    call.source = .commit ∧ ∃ err, call.stage = .returned (.error err) := by
  obtain ⟨other, hc, -, hsource, herr⟩ := h
  cases mem_singleton.mp hc
  exact ⟨hsource, herr⟩

/-- A commit begins on the coordinator. -/
theorem keeps_commit (h : IdInv id node applied)
    (hstored : node.state.proposals[id]? = some proposal)
    (hidle : Idle id node) (herr : proposal.phase = .prepared → ¬CommitErr id node.calls) :
    Keeps id node (node.push (startCommit proposal)) applied := by
  refine keeps_push (h.push (fun _ => hidle) ?_ (fun _ => h.stored proposal hstored) ?_)
  · intro hactive
    rcases startCommit_stage proposal with ⟨hstage, hphase⟩ | ⟨result, hstage, -⟩
    · show CommitHolds id _ proposal (startCommit proposal).stage
      rw [hstage]
      refine ⟨hstored, hphase.imp_left fun hp => ⟨hp, ?_⟩⟩
      rintro ⟨other, hc, hr⟩
      rcases mem_append.mp hc with hc | hc
      · exact herr hp ⟨other, hc, hr⟩
      · obtain ⟨-, err, he⟩ := commitErr_singleton ⟨other, hc, hr⟩
        cases hstage.symm.trans he
    · rw [hstage] at hactive
      cases hactive
  · intro he hc
    obtain ⟨-, err, he⟩ := commitErr_singleton he
    rcases startCommit_stage proposal with ⟨hstage, -⟩ | ⟨result, hstage, hphase⟩
    · cases hstage.symm.trans he
    · have hresult : Stage.returned result = .returned (.error err) := hstage.symm.trans he
      injection hresult with hresult
      exact hphase ⟨err, hresult⟩ (phaseIs_unique ⟨proposal, hstored, rfl⟩ hc)

/-- An abort begins on the coordinator. -/
theorem keeps_abort (h : IdInv id node applied)
    (hstored : node.state.proposals[id]? = some proposal) (hidle : Idle id node)
    (peers : List String) :
    Keeps id node (node.push (startAbort .abort peers proposal)) applied := by
  refine keeps_push (h.push (fun _ => hidle) ?_ (fun _ => h.stored proposal hstored) ?_)
  · intro hactive
    rcases startAbort_stage .abort peers proposal with ⟨hstage, hphase⟩ | ⟨result, hstage⟩
    · show AbortHolds id _ proposal (startAbort .abort peers proposal).stage
      rw [hstage]
      exact fun hc => hphase (phaseIs_unique ⟨proposal, hstored, rfl⟩ hc)
    · rw [hstage] at hactive
      cases hactive
  · intro he
    cases (commitErr_singleton he).1

/-- A call ends where it is. -/
theorem keeps_stop (h : IdInv id node applied)
    (hids : ∀ p, node.state.proposals[id]? = some p → p.id = id)
    (hcall : node.calls[i]? = some call) (hactive : call.stage.active = true)
    (hended : stage.active = false)
    (herr : call.source = .commit → (∃ err, stage = .returned (.error err)) →
    call.stage.writes = true ∧ ¬(ending call.stage = true ∧ call.proposal.phase = .committed))
    (hopen : Commits call → inRound call.stage = true ∧ NoneApplied applied call.proposal.id ∨
      call.stage = .stored) :
    Keeps id node (node.setCall i (call.to stage)) applied := by
  by_cases hother : call.proposal.id = id
  · have hholds := h.holds call (mem_of_getElem? hcall) hother hactive
    refine ⟨h.stop hcall hother hactive hended (fun hsource he => ?_) fun hcommits => ?_, fun hr => ?_⟩
    · obtain ⟨hwrites, hnot⟩ := herr hsource he
      obtain ⟨source, proposal, from_⟩ := call
      cases hsource
      have hholds : CommitHolds id node proposal from_ := hholds
      intro hc
      cases from_ with
      | asking | built => cases phaseIs_unique hholds.2.1 hc
      | inserting => cases hholds.1
      | releasing | storing => cases phaseIs_unique hholds.1 hc
      | stored =>
        rcases hholds with ⟨-, hf⟩ | ⟨hcommitted, -⟩
        · cases phaseIs_unique hf hc
        · exact hnot ⟨rfl, hcommitted⟩
      | _ => cases hwrites
    · rcases hopen hcommits with ⟨-, hnone⟩ | hstored
      · exact .inr (hother ▸ hnone)
      · obtain ⟨source, proposal, from_⟩ := call
        cases hstored
        obtain ⟨hsource, hround | ⟨-, hcommitted⟩⟩ := hcommits
        · cases hround
        · cases hsource
          rcases hholds with ⟨hf, -⟩ | ⟨-, hc, -⟩
          · cases hf.symm.trans hcommitted
          · exact .inl hc
    · rcases hr with hr | hr
      · exact .inl (hr.set hcall hactive)
      · exact .inr hr
  · have hset := @getElem?_set_other id call (call.to stage) i node.calls hcall hother hother
    refine ⟨h.frame hset rfl hids (.inl rfl) fun _ hn => .inl hn, fun hr => ?_⟩
    refine @rejected_congr id node _ (fun c hc hcid => ?_) rfl hr
    obtain ⟨j, hj⟩ := mem_iff_getElem?.mp hc
    exact mem_of_getElem? ((hset j c hcid).mpr hj)

theorem NodeIssued.stop (h : NodeIssued issued name node) (hcall : node.calls[i]? = some call)
    {stage : Stage}
    (hended : stage.active = false) : NodeIssued issued name (node.setCall i (call.to stage)) := by
  refine ⟨fun other hc => ?_, h.stored⟩
  rcases mem_or_eq_of_mem_set hc with hc | rfl
  · exact h.calls other hc
  · have hissued := h.calls call (mem_of_getElem? hcall)
    refine ⟨hissued.mem, hissued.own, fun message hs => ⟨(hissued.peer message hs).1, ?_⟩, ?_⟩
    · cases stage with
      | returned | dropped => exact nofun
      | _ => cases hended
    · rintro peers results rfl
      cases hended

theorem NodeIssued.advance (h : NodeIssued issued name node) (hname : settings.config.nodeId = name)
    (hcall : node.calls[i]? = some call)
    (hadvances : Advances settings now node.state call state call') :
    NodeIssued issued name ⟨state, node.calls.set i call'⟩ := by
  have hissued := h.calls call (mem_of_getElem? hcall)
  obtain ⟨hsource, hid, hby⟩ := advances_same hadvances
  refine ⟨fun other hc => ?_, fun id p hp => ?_⟩
  · rcases mem_or_eq_of_mem_set hc with hc | rfl
    · exact h.calls other hc
    · refine ⟨?_, fun hs => ?_, fun message hs => ?_, fun peers results hstage => ?_⟩
      · rw [hid, hby]
        exact hissued.mem
      · rw [hby]
        exact hissued.own fun message => hsource ▸ hs message
      · obtain ⟨hne, hasks⟩ := hissued.peer message (hsource ▸ hs)
        exact ⟨hby ▸ hne, advances_asks hadvances (hsource ▸ hs) hasks⟩
      · rw [← hname]
        refine advances_asking hadvances (fun peers results hstage => ?_) hstage
        rw [hname]
        exact hissued.asking peers results hstage
  · by_cases hother : call.proposal.id = id
    · cases hadvances with
      | @insert source proposal | @store source proposal =>
        rw [show proposal.id = id from hother, ExtTreeMap.getElem?_insert_self] at hp
        cases hp
        have hmem := hissued.mem
        rw [hother] at hmem
        exact ⟨hother, hmem⟩
      | _ => exact h.stored id p hp
    · rw [advances_stored hadvances hother] at hp
      exact h.stored id p hp

theorem messageIssued_ask (h : CallIssued issued name call) {peers : List String}
    (hstage : call.stage = .asking (peer :: peers) results) :
    MessageIssued issued (call.message peer) := by
  have hsource : ∀ message, call.source ≠ .peer message := by
    intro message hs
    have hasks := (h.peer message hs).2
    rw [hstage] at hasks
    exact hasks (cons_ne_nil _ _)
  have hne : call.proposal.proposedBy ≠ peer := by
    rw [h.own hsource]
    exact (h.asking _ _ hstage peer mem_cons_self).symm
  unfold TopologyCall.message
  split
  · exact ⟨h.mem, hne⟩
  · exact ⟨_, h.mem, hne⟩
  · exact ⟨_, h.mem, hne⟩
  · next message hs => exact absurd hs (hsource message)

/-- A call begins with a new id. -/
theorem Inv.start (h : Inv s) {name id : String} (hfresh : Fresh s id) {config : ClusterConfig}
    (hconfig : config.nodeId = name) (reason : String) (request : ApplyTopologyOverrideRequest)
    (returnFailed : Bool) (now : Nat) {started : List ApplyTopologyOverrideRequest} :
    let node := ((s.node name).cleanup now).push
      (startTopologyProposal (newProposal config id reason request) returnFailed)
    Inv { s.setNode name node with issued := (id, name) :: s.issued, started } ∧ s.issued ⊆ (id, name) :: s.issued ∧
      ∀ id' coordinator, (id', coordinator) ∈ s.issued → Rejected id' (s.node coordinator) →
        Rejected id' ((s.setNode name node).node coordinator) := by
  intro node
  have hcalls : ∀ coordinator, ∀ call ∈ (s.node coordinator).calls, call.proposal.id ≠ id := by
    intro coordinator call hc hid
    have hmem := ((h.nodes coordinator).calls call hc).mem
    rw [hid] at hmem
    exact hfresh.issued _ hmem
  have hnone : NoneApplied s.applied id := by
    intro other hn
    obtain ⟨coordinator, hmem⟩ := h.applied other id hn
    exact hfresh.issued coordinator hmem
  have hissued : Inv { s with issued := (id, name) :: s.issued } := by
    refine ⟨fun id' a b ha hb => ?_, fun other => (h.nodes other).mono (subset_cons_self ..), fun message hm =>
      (h.sent message hm).mono (subset_cons_self ..), fun other id' hn => ?_, fun id' coordinator hmem => ?_⟩
    · rcases mem_cons.mp ha with hai | ha
      · rcases mem_cons.mp hb with hbi | hb
        · rw [(Prod.mk.inj hai).2, (Prod.mk.inj hbi).2]
        · rw [(Prod.mk.inj hai).1] at hb
          exact absurd hb (hfresh.issued b)
      · rcases mem_cons.mp hb with hbi | hb
        · rw [(Prod.mk.inj hbi).1] at ha
          exact absurd ha (hfresh.issued a)
        · exact h.unique id' a b ha hb
    · obtain ⟨coordinator, hmem⟩ := h.applied other id' hn
      exact ⟨coordinator, mem_cons_of_mem _ hmem⟩
    · rcases mem_cons.mp hmem with heq | hmem
      · rw [(Prod.mk.inj heq).1]
        exact .unused (hcalls coordinator) (hfresh.stored coordinator) hnone
      · exact h.ids id' coordinator hmem
  have hstored := fun id' p hp => ((hissued.nodes name).stored id' p hp).1
  have hnode : NodeIssued ((id, name) :: s.issued) name node := by
    have hcleaned : NodeIssued ((id, name) :: s.issued) name ((s.node name).cleanup now) :=
      ⟨(hissued.nodes name).calls, (hissued.nodes name).stored⟩
    refine hcleaned.push ⟨?_, fun _ => hconfig, nofun, nofun⟩
    show (id, config.nodeId) ∈ _
    rw [hconfig]
    exact mem_cons_self
  have hkeeps : ∀ id', (id', name) ∈ (id, name) :: s.issued → Keeps id' (s.node name) node s.applied := by
    intro id' hmem
    have hclean := keeps_cleanup (hissued.ids id' name hmem) (hstored id') now
    by_cases hid : id' = id
    · subst hid
      refine hclean.trans (keeps_push (hclean.inv.push ?_ (fun _ => ⟨hfresh.stored name, ?_, rfl⟩) ?_ ?_))
      · exact fun _ call hc hid => absurd hid (hcalls name call hc)
      · exact (leaseStep_cleanup id' now _).ne (hfresh.lease name)
      · exact fun _ hl => absurd hl ((leaseStep_cleanup id' now _).ne (hfresh.lease name))
      · intro he
        cases (commitErr_singleton he).1
    · exact hclean.trans (keeps_push_other hclean.inv (hstored id') fun hc => hid hc.symm)
  obtain ⟨hinv, -, hrejected⟩ := hissued.setNode hnode (fun _ _ hn => .inl hn) hissued.sent hkeeps
  exact ⟨hinv, subset_cons_self .., fun id' coordinator hmem =>
    hrejected id' coordinator (mem_cons_of_mem _ hmem)⟩

theorem handler_issued (h : Inv s) (hsent : message ∈ s.sent)
    (hhandler : message.handler (s.node message.peer).state = some call) :
    CallIssued s.issued message.peer call := by
  have hmessage := h.sent message hsent
  have hstored : ∀ {id : String} {proposal : TopologyProposal} {peer : String},
      (∃ name, (id, name) ∈ s.issued ∧ name ≠ peer) → (s.node peer).state.proposals[id]? = some proposal →
      (proposal.id, proposal.proposedBy) ∈ s.issued ∧ proposal.proposedBy ≠ peer := by
    rintro id proposal peer ⟨name, hmem, hne⟩ hp
    obtain ⟨rfl, hmem'⟩ := (h.nodes peer).stored id proposal hp
    exact ⟨hmem', h.unique _ name _ hmem hmem' ▸ hne⟩
  cases message with
  | prepare peer proposal =>
    cases hhandler
    exact ⟨hmessage.1, fun hs => absurd rfl (hs _), fun _ _ => ⟨hmessage.2, nofun⟩, nofun⟩
  | commit peer id =>
    obtain ⟨proposal, hp, rfl⟩ := map_eq_some_iff.mp hhandler
    obtain ⟨hmem, hne⟩ := hstored hmessage hp
    exact ⟨hmem, fun hs => absurd rfl (hs _), fun _ _ => ⟨hne, nofun⟩, nofun⟩
  | abort peer id =>
    obtain ⟨proposal, hp, rfl⟩ := map_eq_some_iff.mp hhandler
    obtain ⟨hmem, hne⟩ := hstored hmessage hp
    refine ⟨hmem, fun hs => absurd rfl (hs _), fun _ _ => ⟨hne, ?_⟩, fun peers results hstage peer hpeer => ?_⟩
    · rcases startAbort_stage (.peer (.abort peer id)) [] proposal with ⟨hstage, -⟩ | ⟨result, hstage⟩
      · rw [hstage]
        exact fun hne => hne rfl
      · rw [hstage]
        exact nofun
    · rcases startAbort_stage (.peer (.abort _ id)) [] proposal with ⟨hstage', -⟩ | ⟨result, hstage'⟩
      · cases hstage'.symm.trans hstage
        cases hpeer
      · cases hstage'.symm.trans hstage

/-! ## What is applied was carried out -/

/-- The call has still to ask the peers, or waits for them. -/
def Early (call : TopologyCall) : Prop :=
  match call.stage with
  | .normalizing | .acquiring | .accepting | .inserting | .asking .. => True
  | .matching => ∀ message, call.source ≠ .peer message
  | _ => False

theorem not_early_answered (call : TopologyCall) (results : List TopologyPropagationResult) :
    ¬Early (call.answered results) := by
  unfold TopologyCall.answered
  split
  · dsimp only
    by_cases hfailed : (call.proposal.acknowledge results).phase = .failed
    · rw [if_pos hfailed]
      exact id
    · rw [if_neg hfailed]
      exact id
  · split <;> exact id
  · exact id
  · exact id

/-- A call commits its copy once, and leaves it so. -/
theorem advances_copy {before : TopologyState} (h : Advances settings now before call state call')
    (hearly : Early call → call.proposal.phase ≠ .committed) :
    (Early call' → call'.proposal.phase ≠ .committed) ∧
    (call.proposal.phase = .committed → call'.proposal.phase = .committed) := by
  cases h with
  | acquire hacquire =>
    obtain ⟨-, -, hphase, -⟩ := acquire_ok hacquire
    rw [hphase]
    exact ⟨fun _ => hearly trivial, id⟩
  | normalize | insert | answer => exact ⟨fun _ => hearly trivial, id⟩
  | ensure _ hstage =>
    rcases hstage with ⟨rfl, hsource⟩ | ⟨rfl, -⟩
    · exact ⟨fun _ => hearly hsource, id⟩
    · exact ⟨False.elim, id⟩
  | accept => exact ⟨False.elim, fun hc => absurd hc (hearly trivial)⟩
  | answered =>
    exact ⟨fun h => absurd h (not_early_answered _ _), fun hc => absurd hc (hearly trivial)⟩
  | replace => exact ⟨False.elim, fun _ => rfl⟩
  | ended => exact ⟨hearly, id⟩
  | _ => exact ⟨False.elim, id⟩

theorem committed_of_applies {before : TopologyState} {other : String}
    (h : Advances settings now before call state call') (hn : (other, id) ∈ call.applies name) :
    other = name ∧ call.proposal.id = id ∧ call'.proposal.phase = .committed := by
  obtain ⟨source, proposal, stage⟩ := call
  cases stage with
  | built results request next =>
    cases mem_singleton.mp hn
    cases h with
    | replace => exact ⟨rfl, rfl, rfl⟩
    | refuse hrefuses => cases hrefuses
    | ended hended => cases hended
  | _ => cases hn

/-- A proposal is applied where a call has gone through with it. -/
structure Traced (s : ClusterState) : Prop where
  early : ∀ name, ∀ call ∈ (s.node name).calls, Early call → call.proposal.phase ≠ .committed
  sent : ∀ peer proposal, .prepare peer proposal ∈ s.sent → proposal.phase ≠ .committed
  applied : ∀ name id, (name, id) ∈ s.applied → CarriedOut id (s.node name)

theorem Traced.initial (overrides : String → Overrides) (lease : String → TopologyLease) :
    Traced (.initial overrides lease) where
  early _ _ hc := by cases hc
  sent _ _ hm := by cases hm
  applied _ _ hn := by cases hn

theorem Traced.noneApplied (h : Traced s) (hnone : ∀ name, ¬CarriedOut id (s.node name)) :
    NoneApplied s.applied id :=
  fun name hn => hnone name (h.applied name id hn)

theorem Traced.setNode (h : Traced s) {issued : List (String × String)}
    {started : List ApplyTopologyOverrideRequest}
    (hearly : ∀ call ∈ node.calls, Early call → call.proposal.phase ≠ .committed)
    (hkept : ∀ id, CarriedOut id (s.node name) → CarriedOut id node)
    (happlied : ∀ other id, (other, id) ∈ applied' → (other, id) ∈ s.applied ∨
      other = name ∧ CarriedOut id node) :
    Traced { s.setNode name node with issued, started, applied := applied' } := by
  refine ⟨fun other call hc => ?_, h.sent, fun other id hn => ?_⟩
  · have hc : call ∈ ((s.setNode name node).node other).calls := hc
    by_cases ho : other = name
    · subst ho
      rw [node_setNode_self] at hc
      exact hearly call hc
    · rw [node_setNode_of_ne s node ho] at hc
      exact h.early other call hc
  · show CarriedOut id ((s.setNode name node).node other)
    by_cases ho : other = name
    · subst ho
      rw [node_setNode_self]
      exact (happlied other id hn).elim (fun hn => hkept id (h.applied other id hn)) (·.2)
    · rw [node_setNode_of_ne s node ho]
      exact (happlied other id hn).elim (h.applied other id) fun hn => absurd hn.1 ho

theorem Traced.push (h : Traced s) {issued : List (String × String)}
    {started : List ApplyTopologyOverrideRequest}
    (hearly : Early call → call.proposal.phase ≠ .committed) :
    Traced { s.setNode name ⟨state, (s.node name).calls ++ [call]⟩ with issued, started } := by
  refine h.setNode (fun other hc => ?_) ?_ fun _ _ hn => .inl hn
  · rcases mem_append.mp hc with hc | hc
    · exact h.early name other hc
    · exact mem_singleton.mp hc ▸ hearly
  · rintro id ⟨other, hc, hcarried⟩
    exact ⟨other, mem_append_left _ hc, hcarried⟩

theorem Traced.set (h : Traced s) (hcall : (s.node name).calls[i]? = some call)
    (hid : call'.proposal.id = call.proposal.id)
    (hearly : Early call' → call'.proposal.phase ≠ .committed)
    (hcommitted : call.proposal.phase = .committed → call'.proposal.phase = .committed)
    (happlied : ∀ other id, (other, id) ∈ applied' → (other, id) ∈ s.applied ∨
      other = name ∧ call.proposal.id = id ∧ call'.proposal.phase = .committed) :
    Traced { s.setNode name ⟨state, (s.node name).calls.set i call'⟩ with applied := applied' } := by
  refine h.setNode (forall_mem_set (h.early name) hearly) ?_ fun other id hn => ?_
  · rintro id ⟨other, hc, hother, hphase⟩
    obtain ⟨j, hj⟩ := mem_iff_getElem?.mp hc
    by_cases hij : i = j
    · subst hij
      cases hcall.symm.trans hj
      exact ⟨call', mem_setCall hcall, hid.trans hother, hcommitted hphase⟩
    · refine ⟨other, mem_iff_getElem?.mpr ⟨j, ?_⟩, hother, hphase⟩
      rw [getElem?_set_ne hij]
      exact hj
  · refine (happlied other id hn).imp_right fun ⟨hname, hother, hphase⟩ => ⟨hname, ?_⟩
    exact ⟨call', mem_setCall hcall, hid.trans hother, hphase⟩

theorem early_startAbort {source : Source} {peers : List String}
    (h : Early (startAbort source peers proposal)) : proposal.phase ≠ .committed := by
  rcases startAbort_stage source peers proposal with ⟨-, hphase⟩ | ⟨result, hstage⟩
  · exact hphase
  · unfold Early at h
    rw [hstage] at h
    exact h.elim

theorem Traced.step {e : ClusterEvent} (h : Traced s) (hstep : ClusterStep cluster s e t) :
    Traced t := by
  cases hstep with
  | start | retry => exact h.push fun _ => nofun
  | @commit name id proposal hstored =>
    refine h.push fun hearly hc => ?_
    rcases startCommit_stage proposal with ⟨-, hphase⟩ | ⟨result, hstage, -⟩
    · rcases hphase with hphase | hphase <;> cases hphase.symm.trans hc
    · unfold Early at hearly
      rw [hstage] at hearly
      exact hearly
  | abort => exact h.push early_startAbort
  | @cleanup name now => exact h.setNode (h.early name) (fun _ hc => hc) fun _ _ hn => .inl hn
  | @deliver message call hsent hhandler =>
    refine h.push ?_
    cases message with
    | prepare peer proposal =>
      cases hhandler
      exact fun _ => h.sent peer proposal hsent
    | commit peer id =>
      obtain ⟨proposal, -, rfl⟩ := map_eq_some_iff.mp hhandler
      exact fun hearly => absurd rfl (hearly _)
    | abort peer id =>
      obtain ⟨proposal, -, rfl⟩ := map_eq_some_iff.mp hhandler
      exact early_startAbort
  | @ask name peer i call peers results hcall hstage =>
    refine ⟨h.early, fun other proposal hm => ?_, h.applied⟩
    rcases mem_cons.mp hm with hm | hm
    · obtain ⟨source, copy, stage⟩ := call
      cases source <;> cases hm
      refine h.early name _ (mem_of_getElem? hcall) ?_
      unfold Early
      rw [hstage]
      trivial
    · exact h.sent other proposal hm
  | @advance name i now call answer hcall _ =>
    have hadvances := call.advances (cluster.settings name) now answer (s.node name).state
    have hcopy := advances_copy hadvances (h.early name call (mem_of_getElem? hcall))
    refine h.set hcall (advances_same hadvances).2.1 hcopy.1 hcopy.2 fun other id hn => ?_
    rcases mem_append.mp hn with hn | hn
    · exact .inr (committed_of_applies hadvances hn)
    · exact .inl hn
  | fail hcall | drop hcall => exact h.set hcall rfl False.elim id fun _ _ hn => .inl hn

theorem Inv.step {e : ClusterEvent} (h : Inv s) (htraced : Traced s) (hmeets : Meets cluster s e)
    (hstep : ClusterStep cluster s e t) :
    Inv t ∧ s.issued ⊆ t.issued ∧ ∀ id coordinator, (id, coordinator) ∈ s.issued →
    Rejected id (s.node coordinator) →
    Rejected id (t.node coordinator) := by
  have hids := fun name id p hp => ((h.nodes name).stored id p hp).1
  cases hstep with
  | @start name id reason request returnFailed now hfresh =>
    exact h.start hfresh (cluster.nodeId name) reason request returnFailed now
  | @retry name id newId now proposal hstored hretry hfresh =>
    exact h.start hfresh (cluster.nodeId name) _ proposal.request false now
  | @commit name id proposal hstored =>
    obtain ⟨hby, hidle, herr⟩ := hmeets proposal hstored
    obtain ⟨hid, hmem⟩ := (h.nodes name).stored id proposal hstored
    have hissued : CallIssued s.issued name (startCommit proposal) := by
      refine ⟨hid ▸ hmem, fun _ => hby, nofun, fun peers results hstage => ?_⟩
      rcases startCommit_stage proposal with ⟨hs, -⟩ | ⟨result, hs, -⟩ <;> cases hs.symm.trans hstage
    refine h.setNode ((h.nodes name).push hissued) (fun _ _ hn => .inl hn) h.sent fun id' hmem' => ?_
    by_cases hid' : id' = id
    · subst hid'
      exact keeps_commit (h.ids id' name hmem') hstored hidle herr
    · exact keeps_push_other (h.ids id' name hmem') (hids name id') fun hc => hid' (hc.symm.trans hid)
  | @abort name id proposal hstored =>
    obtain ⟨hby, hidle⟩ := hmeets proposal hstored
    obtain ⟨hid, hmem⟩ := (h.nodes name).stored id proposal hstored
    let peers := topologyPeerNodes (cluster.settings name).config
    have hissued : CallIssued s.issued name (startAbort .abort peers proposal) := by
      refine ⟨hid ▸ hmem, fun _ => hby, nofun, fun peers' results hstage peer hpeer => ?_⟩
      rcases startAbort_stage .abort peers proposal with ⟨hs, -⟩ | ⟨result, hs⟩ <;> cases hs.symm.trans hstage
      exact cluster.nodeId name ▸ ne_of_mem_topologyPeerNodes hpeer
    refine h.setNode ((h.nodes name).push hissued) (fun _ _ hn => .inl hn) h.sent fun id' hmem' => ?_
    by_cases hid' : id' = id
    · subst hid'
      exact keeps_abort (h.ids id' name hmem') hstored hidle _
    · exact keeps_push_other (h.ids id' name hmem') (hids name id') fun hc => hid' (hc.symm.trans hid)
  | @cleanup name now =>
    have hnode : NodeIssued s.issued name ((s.node name).cleanup now) :=
      ⟨(h.nodes name).calls, (h.nodes name).stored⟩
    exact h.setNode hnode (fun _ _ hn => .inl hn) h.sent fun id hmem =>
      keeps_cleanup (h.ids id name hmem) (hids name id) now
  | @deliver message call hsent hhandler =>
    have hissued := handler_issued h hsent hhandler
    have hsource : ∃ m, call.source = .peer m := by
      cases message with
      | prepare => cases hhandler; exact ⟨_, rfl⟩
      | commit | abort =>
        obtain ⟨proposal, -, rfl⟩ := map_eq_some_iff.mp hhandler
        exact ⟨_, rfl⟩
    obtain ⟨m, hsource⟩ := hsource
    refine h.setNode ((h.nodes message.peer).push hissued) (fun _ _ hn => .inl hn) h.sent fun id hmem => ?_
    refine keeps_push_other (h.ids id message.peer hmem) (hids message.peer id) fun hid => ?_
    refine (hissued.peer m hsource).1 (h.unique id _ _ ?_ hmem)
    exact hid ▸ hissued.mem
  | @ask name peer i call peers results hcall hstage =>
    have hissued := (h.nodes name).calls call (mem_of_getElem? hcall)
    refine ⟨⟨h.unique, h.nodes, fun message hm => ?_, h.applied, h.ids⟩, fun _ hm => hm, fun _ _ _ hr => hr⟩
    rcases mem_cons.mp hm with rfl | hm
    · exact messageIssued_ask hissued hstage
    · exact h.sent message hm
  | @advance name i now call answer hcall hanswer =>
    have hissued := (h.nodes name).calls call (mem_of_getElem? hcall)
    obtain ⟨hgives, hpeer⟩ := hmeets call hcall
    have hadvances := call.advances (cluster.settings name) now answer (s.node name).state
    refine h.setNode ((h.nodes name).advance (cluster.nodeId name) hcall hadvances) ?_ h.sent fun id hmem =>
      keeps_advance (h.ids id name hmem) (h.nodes name) h.unique hmem (cluster.nodeId name) hcall
        (fun hsource hround hgives' => htraced.noneApplied (hgives hsource hround hgives')) hadvances
    intro other id hn
    rcases mem_append.mp hn with hn | hn
    · unfold TopologyCall.applies at hn
      split at hn
      · next results request next hstage =>
        cases mem_singleton.mp hn
        refine .inr ⟨rfl, call.proposal.proposedBy, hissued.mem, fun hne => ?_⟩
        cases hsource : call.source with
        | peer message => exact hpeer message results request next hsource hstage
        | prepare | commit | abort => exact absurd (hissued.own (by simp [hsource])) hne
      · cases hn
    · exact .inl hn
  | @fail name i call err hcall hwrites =>
    have hactive : call.stage.active = true := by
      cases hs : call.stage <;> rw [hs] at hwrites <;> first | rfl | cases hwrites
    have hnode : NodeIssued s.issued name ((s.node name).setCall i (call.to (.returned (.error err)))) :=
      (h.nodes name).stop hcall rfl
    refine h.setNode hnode (fun _ _ hn => .inl hn) h.sent fun id hmem => ?_
    refine keeps_stop (h.ids id name hmem) (hids name id) hcall hactive rfl
      (fun hsource _ => ⟨hwrites, (hmeets call hcall hsource).2⟩) ?_
    rintro ⟨hsource, hround | hending⟩
    · exact .inl ⟨hround, htraced.noneApplied ((hmeets call hcall hsource).1 hround)⟩
    · exact absurd hending (hmeets call hcall hsource).2
  | @drop name i call hcall hactive =>
    have hnode : NodeIssued s.issued name ((s.node name).setCall i (call.to .dropped)) :=
      (h.nodes name).stop hcall rfl
    refine h.setNode hnode (fun _ _ hn => .inl hn) h.sent fun id hmem => ?_
    refine keeps_stop (h.ids id name hmem) (hids name id) hcall hactive rfl (fun _ ⟨_, he⟩ => by cases he) ?_
    rintro ⟨hsource, hround | ⟨hending, hcommitted⟩⟩
    · exact .inl ⟨hround, htraced.noneApplied ((hmeets call hcall hsource).1 hround)⟩
    · by_cases hstored : call.stage = .stored
      · exact .inr hstored
      · exact absurd ⟨hending, hstored, hcommitted⟩ (hmeets call hcall hsource).2

theorem Inv.initial (overrides : String → Overrides) (lease : String → TopologyLease) :
    Inv (.initial overrides lease) where
  unique _ _ _ h := by cases h
  nodes name := by
    refine ⟨fun call hc => (by cases hc), fun id p hp => ?_⟩
    have hnone : (∅ : BTreeMap String TopologyProposal)[id]? = none := by simp
    cases hnone.symm.trans hp
  sent _ h := by cases h
  applied _ _ h := by cases h
  ids _ _ h := by cases h

theorem IdInv.not_rejected (h : IdInv id node applied) (ho : Open id node) : ¬Rejected id node := by
  rcases ho with ⟨call, hc, hid, hcommits⟩ | hc
  · have hactive := active_of_commits hcommits
    have hholds := h.holds call hc hid hactive
    obtain ⟨source, proposal, stage⟩ := call
    obtain ⟨hsource, hstage⟩ := hcommits
    cases hsource
    have hopen : ¬CommitErr id node.calls ∧ (PhaseIs id node.state .prepared ∨ PhaseIs id node.state .committed) := by
      rcases hstage with hround | ⟨hending, hcommitted⟩
      · have hholds : CommitHolds id node proposal stage := hholds
        cases stage with
        | asking | applying | checked | normalized | built => exact ⟨hholds.2.2, .inl hholds.2.1⟩
        | _ => cases hround
      · have hcommitted : proposal.phase = .committed := hcommitted
        have hholds : CommitHolds id node proposal stage := hholds
        cases stage with
        | releasing | storing =>
          obtain ⟨hp, hf | ⟨-, hne⟩⟩ := hholds
          · cases hf.symm.trans hcommitted
          · exact ⟨hne, .inl hp⟩
        | stored =>
          rcases hholds with ⟨hf, -⟩ | ⟨-, hc, hne⟩
          · cases hf.symm.trans hcommitted
          · exact ⟨hne, .inr hc⟩
        | _ => cases hending
    obtain ⟨hne, hp⟩ := hopen
    rintro (he | hr | hr)
    · exact hne he
    · rcases hp with hp | hp <;> cases phaseIs_unique hp hr
    · rcases hp with hp | hp <;> cases phaseIs_unique hp hr
  · rintro (he | hr | hr)
    · exact h.committed hc he
    · cases phaseIs_unique hc hr
    · cases phaseIs_unique hc hr

/-- A proposal whose commit has failed on its coordinator, or that has ended failed or aborted
there, is applied on no node, then and later. -/
theorem failed_not_applied {overrides : String → Overrides}
    {lease : String → TopologyLease}
    (hs : Reaches (ClusterStep cluster) (Meets cluster) (.initial overrides lease) s)
    (ht : Reaches (ClusterStep cluster) (Meets cluster) s t) {id coordinator : String}
    (hid : (id, coordinator) ∈ s.issued) (hrejected : Rejected id (s.node coordinator))
    (name : String) :
    (name, id) ∉ t.applied := by
  have hinv : Inv s ∧ Traced s :=
    hs.invariant (I := fun s => Inv s ∧ Traced s) (fun _ _ _ ⟨h, htraced⟩ hmeets hstep =>
      ⟨(h.step htraced hmeets hstep).1, htraced.step hstep⟩)
      ⟨.initial overrides lease, .initial overrides lease⟩
  have hlater : (Inv t ∧ Traced t) ∧ (id, coordinator) ∈ t.issued ∧
      Rejected id (t.node coordinator) := by
    induction ht with
    | refl => exact ⟨hinv, hid, hrejected⟩
    | tail _ hstep ih =>
      obtain ⟨⟨hu, htraced⟩, hmem, hr⟩ := ih
      obtain ⟨e, hmeets, hstep⟩ := hstep
      obtain ⟨hv, hsub, hkeep⟩ := hu.step htraced hmeets hstep
      exact ⟨⟨hv, htraced.step hstep⟩, hsub hmem, hkeep id coordinator hmem hr⟩
  obtain ⟨⟨ht, -⟩, hmem, hr⟩ := hlater
  intro hn
  have hids := ht.ids id coordinator hmem
  exact hids.not_rejected (hids.applied name hn) hr

/-! ## A commit whose answer is lost -/

/-- The coordinator gets no answer, and gives up. -/
def giveUpActions : List Action := List.replicate 6 (.advance "a" 1 0 false)

/-- The node that an action is on. -/
def nodeOf (s : ClusterState) : Action → String
  | .commit name _ | .ask name _ | .advance name .. | .fail name _ | .drop name _ => name
  | .deliver message => (s.sent[message]?.getD (.abort "" "")).peer

theorem node_next {action : Action} (h : s.next cluster action = some t) {name : String}
    (hne : name ≠ nodeOf s action) : t.node name = s.node name := by
  cases action with
  | commit other id =>
    obtain ⟨proposal, -, h⟩ := bind_eq_some_iff.mp h
    cases h
    exact node_setNode_of_ne s _ hne
  | deliver message =>
    obtain ⟨message', hsent, h⟩ := bind_eq_some_iff.mp h
    obtain ⟨call, -, h⟩ := bind_eq_some_iff.mp h
    cases h
    rw [nodeOf, hsent] at hne
    exact node_setNode_of_ne s _ hne
  | ask other i =>
    obtain ⟨call, -, h⟩ := bind_eq_some_iff.mp h
    obtain ⟨peer, -, h⟩ := bind_eq_some_iff.mp h
    cases h
    rfl
  | advance other i now applied =>
    obtain ⟨call, -, h⟩ := bind_eq_some_iff.mp h
    split at h <;> cases h
    exact node_setNode_of_ne s _ hne
  | fail other i | drop other i =>
    obtain ⟨call, -, h⟩ := bind_eq_some_iff.mp h
    split at h <;> cases h
    exact node_setNode_of_ne s _ hne

/-- No request is carried out, and no peer is about to; a call begins when none is under way. -/
def checkAction (s : ClusterState) (action : Action) : Bool :=
  ["a", "b"].contains (nodeOf s action) && match action with
  | .commit name id => (s.node name).state.proposals[id]?.all (·.proposedBy = name) &&
      (s.node name).calls.all fun call => !call.stage.active && call.source ≠ .commit
  | .advance name i _ _ =>
    (["a", "b"].all fun other => (s.node other).calls.all (·.proposal.phase ≠ .committed)) &&
      (s.node name).calls[i]?.all fun call => call.applies name = []
  | .fail .. | .drop .. => false
  | _ => true

/-- Only the two nodes have calls. -/
def OnlyTwo (s : ClusterState) : Prop := ∀ name, name ∉ ["a", "b"] → (s.node name).calls = []

theorem meets_of_checkAction {action : Action} (honly : OnlyTwo s)
    (h : checkAction s action = true) : Meets cluster s (action.event s) := by
  have h := (Bool.and_eq_true_iff.mp h).2
  cases action with
  | commit name id =>
    intro proposal hstored
    obtain ⟨hby, hcalls⟩ := Bool.and_eq_true_iff.mp h
    rw [hstored] at hby
    have hcalls : ∀ call ∈ (s.node name).calls, call.stage.active = false ∧ call.source ≠ .commit := by
      intro call hc
      obtain ⟨hidle, hsource⟩ := Bool.and_eq_true_iff.mp (all_eq_true.mp hcalls call hc)
      exact ⟨Bool.not_eq_true' _ ▸ hidle, of_decide_eq_true hsource⟩
    refine ⟨of_decide_eq_true hby, fun call hc _ => (hcalls call hc).1, ?_⟩
    rintro - ⟨call, hc, -, hsource, -⟩
    exact (hcalls call hc).2 hsource
  | advance name i now applied =>
    intro call hcall
    obtain ⟨hnone, happlies⟩ := Bool.and_eq_true_iff.mp h
    rw [hcall] at happlies
    refine ⟨fun _ _ _ other ⟨past, hc, _, hphase⟩ => ?_, fun message results request next _ hstage => ?_⟩
    · by_cases hother : other ∈ ["a", "b"]
      · have hcalls := all_eq_true.mp hnone other hother
        exact of_decide_eq_true (all_eq_true.mp hcalls past hc) hphase
      · rw [honly other hother] at hc
        cases hc
    · have hnil : call.applies name = [] := of_decide_eq_true happlies
      rw [TopologyCall.applies, hstage] at hnil
      cases hnil
  | fail | drop => cases h
  | _ => trivial

theorem reaches_of_run {actions : List Action} {s t : ClusterState} (honly : OnlyTwo s)
    (h : run (ClusterState.next cluster) checkAction s actions = some t) :
    Reaches (ClusterStep cluster) (Meets cluster) s t := by
  induction actions generalizing s with
  | nil =>
    cases h
    exact .refl _
  | cons action actions ih =>
    rw [run] at h
    split at h
    · next hcheck =>
      obtain ⟨u, hnext, h⟩ := bind_eq_some_iff.mp h
      have hin : nodeOf s action ∈ ["a", "b"] :=
        contains_iff_mem.mp (Bool.and_eq_true_iff.mp hcheck).1
      have honly' : OnlyTwo u := by
        intro name hname
        have hne : name ≠ nodeOf s action := fun heq => hname (heq ▸ hin)
        rw [node_next hnext hne]
        exact honly name hname
      have hmeets : Meets cluster s (action.event s) := meets_of_checkAction honly hcheck
      exact .head ⟨_, hmeets, .of_next hnext⟩ (ih honly' h)
    · cases h

theorem rejected_of_phase (h : node.state.proposals[id]?.any (·.phase = .failed) = true) :
    Rejected id node := by
  obtain ⟨proposal, hp, hphase⟩ := (any_eq_true _ _).mp h
  exact .inr (.inl ⟨proposal, hp, of_decide_eq_true hphase⟩)

def moveRequest : ApplyTopologyOverrideRequest := ⟨0, some "b", some 2, none⟩

/-- The request to commit is lost. -/
theorem failed_not_applied_sample :
    ∃ s : ClusterState, Rejected "p" (s.node "a") ∧ ("b", "p") ∉ s.applied := by
  have hrun : (run (ClusterState.next twoNodes) checkAction (startedState moveRequest) (prepareActions ++
      [.commit "a" "p", .advance "a" 1 0 false] ++ giveUpActions)).any (fun s =>
        (s.node "a").state.proposals["p"]?.any (·.phase = .failed) ∧ ("p", "a") ∈ s.issued) = true := by
    decide +kernel
  obtain ⟨s, hs, hfacts⟩ := (any_eq_true _ _).mp hrun
  obtain ⟨hphase, hissued⟩ := of_decide_eq_true hfacts
  have hfirst : Reaches (ClusterStep twoNodes) (Meets twoNodes) (.initial noOverrides noLease)
      (startedState moveRequest) := (Reaches.refl _).take (startedState_step moveRequest) trivial
  have hreach : Reaches (ClusterStep twoNodes) (Meets twoNodes) (.initial noOverrides noLease) s := by
    refine hfirst.trans (reaches_of_run (fun name hname => ?_) hs)
    show (((ClusterState.initial noOverrides noLease).setNode "a" _).node name).calls = []
    rw [node_setNode_of_ne _ _ (ne_of_not_mem_cons hname)]
    rfl
  have hrejected := rejected_of_phase hphase
  exact ⟨s, hrejected, failed_not_applied hreach (.refl s) hissued hrejected "b"⟩

/-- The peer applies the proposal, its answer is lost, and the proposal is stored as failed. -/
theorem failed_applied_sample :
    ¬∀ (cluster : Cluster) (overrides : String → Overrides) (lease : String →
    TopologyLease) (s : ClusterState)
    (id coordinator : String),
    Reaches (ClusterStep cluster) (fun _ _ => True) (.initial overrides lease) s →
    (id, coordinator) ∈ s.issued → Rejected id (s.node coordinator) →
    ∀ name, (name, id) ∉ s.applied := by
  intro h
  have hrun : (run (ClusterState.next twoNodes) (fun _ _ => true) (startedState moveRequest) (prepareActions ++
      commitActions ++ giveUpActions)).any (fun s => (s.node "a").state.proposals["p"]?.any (·.phase = .failed) ∧
        ("p", "a") ∈ s.issued ∧ ("b", "p") ∈ s.applied) = true := by
    decide +kernel
  obtain ⟨s, hs, hfacts⟩ := (any_eq_true _ _).mp hrun
  obtain ⟨hphase, hissued, happlied⟩ := of_decide_eq_true hfacts
  have hfirst : Reaches (ClusterStep twoNodes) (fun _ _ => True) (.initial noOverrides noLease)
      (startedState moveRequest) := (Reaches.refl _).take (startedState_step moveRequest) trivial
  have hreach : Reaches (ClusterStep twoNodes) (fun _ _ => True) (.initial noOverrides noLease) s := by
    refine hfirst.trans (Reaches.of_actions (fun u action v hnext _ => ?_) hs)
    exact ⟨_, trivial, .of_next hnext⟩
  exact h twoNodes noOverrides noLease s "p" "a" hreach hissued (rejected_of_phase hphase) "b" happlied

end NextDb.Api.TopologyFailed
