import NextDb.Api.ApplySchema
import NextDb.Api.Topology
import NextDb.Lib.Run

/-!
# Schema proposals

A prepared proposal is committed or aborted on its coordinator. `commit_schema_proposal`
reads the proposal, takes the apply lock, applies the schema and writes the proposal back;
`abort_schema_proposal` reads it, tells the peers and writes it back. What was read is not
checked again before it is written.

* `ends_records`: an application that fails behind no step after the record appends nothing.
* `proposal_agrees`: when no commit applies and no abort writes a proposal that is stored as
  committed, one record at most is appended, and the phase tells whether it was.
-/

namespace NextDb.Api.SchemaProposals

open Run Records ApplySchema Fallible List Option

variable {P : Type}

/-! ## The proposal -/

/-- How far a proposal has come. -/
inductive SchemaProposalPhase where
  | prepared
  | committed
  | failed
  | aborted
deriving DecidableEq

structure SchemaProposal where
  id : String
  proposedBy : String
  reason : String
  phase : SchemaProposalPhase
  expectedVersion : Option Nat
  allowBreakingReplay : Bool
  schema : DatabaseSchema
  report : SchemaValidationReport
  migration : SchemaMigrationPlan
  projectionRebuilt : Bool
  prepareAcks : List TopologyPropagationResult
  commitAcks : List TopologyPropagationResult
  requiredAcks : Nat
  schemaAuditLsn : Option Nat
  lastError : Option String

/-- The candidate that a commit applies. -/
def SchemaProposal.request (proposal : SchemaProposal) : SchemaApplyRequest :=
  ⟨proposal.schema, true, true, proposal.expectedVersion, proposal.allowBreakingReplay, none⟩

/-- What a commit does with the proposal that it reads. -/
def commitSchemaProposal (proposal : SchemaProposal) :
    Except ApiError (Option SchemaApplyRequest) :=
  match proposal.phase with
  | .committed => .ok none
  | .aborted => .error (.conflict "aborted schema proposal cannot be committed")
  | .failed => .error (.conflict "failed schema proposal cannot be committed")
  | .prepared => .ok (some proposal.request)

/-- The proposal that a commit writes, after the peers have answered. -/
def SchemaProposal.applied (cluster : ClusterConfig) (proposal : SchemaProposal)
    (peerResults : List TopologyPropagationResult) : Except ApiError SchemaApplyResponse →
    SchemaProposal
  | .ok apply =>
    let commitAcks := selfTopologyResult cluster "schema commit" :: peerResults
    let acked := ackCount commitAcks
    { proposal with
      phase := .committed
      report := apply.report
      migration := apply.migration
      projectionRebuilt := apply.projectionRebuilt
      schemaAuditLsn := apply.schemaAuditLsn
      commitAcks
      lastError := if acked < proposal.requiredAcks then
          some s!"schema proposal commit requires {proposal.requiredAcks} acks, got {acked}"
        else none }
  | .error error => { proposal with phase := .failed, lastError := some error.message }

/-- The proposal that an abort writes. -/
def abortSchemaProposal (proposal : SchemaProposal) : Except ApiError SchemaProposal :=
  if proposal.phase = .committed then
    .error (.conflict "committed schema proposal cannot be aborted")
  else .ok { proposal with phase := .aborted, lastError := some "aborted by operator" }

/-! ## What an application appends -/

/-- No step behind the record fails. -/
structure Finishes (env : Environment) : Prop where
  append : ∀ err, env.append ≠ .unacknowledged err
  persistHistory : env.persistHistory = .ok ()
  persistSchema : env.persistSchema = .ok ()
  renameRoot : env.renameRoot = .ok ()
  renameStaged : env.renameStaged = .ok ()
  openProjection : env.openProjection = .ok ()
  persistObjectRefs : env.persistObjectRefs = .ok ()
  bootstrap : env.bootstrap = .ok ()
  projectionStatus : env.projectionStatus = .ok ()

theorem ends_switchSchema_finishes (env : Environment) (request : SchemaApplyRequest)
    (prepared : Prepared P)
    (s : AppState P) : Ends (switchSchema env request prepared) s (fun _ _ => True) fun _ _ => ¬Finishes env := by
  by_cases h : Finishes env
  swap
  · unfold Ends
    split
    · trivial
    · exact h
  have hseq : ∀ {α β : Type} {m : Call P α} {f : α → Call P β} {s : AppState P}, Ends m s (fun _ _ => True) (fun _ _ =>
      ¬Finishes env) → (∀ a t, Ends (f a) t (fun _ _ => True) fun _ _ => ¬Finishes env) → Ends (m >>= f) s (fun _ _ =>
      True) fun _ _ => ¬Finishes env :=
    fun hm hf => hm.bind (fun a t _ => hf a t) fun _ _ h => h
  unfold switchSchema
  refine hseq ?_ fun _ t => hseq ?_ fun _ u => hseq ?_ fun _ _ => trivial
  · cases request.persist with
    | false => trivial
    | true =>
      show Ends (persistCandidate env request.schema) s _ _
      simp [persistCandidate, internal, h.persistHistory, h.persistSchema, Except.mapError]
  · cases prepared.staged with
    | none => trivial
    | some staged =>
      show Ends (commitStaged env staged) t _ _
      cases hroot : t.root.isSome <;>
        simp [commitStaged, placeStaged, internal, h.renameRoot, h.renameStaged, h.openProjection, Except.mapError,
          hroot]
  · cases prepared.objectRefs with
    | none => trivial
    | some refs =>
      show Ends (replaceObjectRefs env refs) u _ _
      simp [replaceObjectRefs, internal, h.persistObjectRefs, Except.mapError]

theorem ends_projectionStatus_finishes (store : ProjectionStore P) (env : Environment)
    (s : AppState P) :
    Ends (projectionStatus store env) s (fun _ _ => True) fun _ _ => ¬Finishes env := by
  unfold projectionStatus
  cases hbootstrap : env.bootstrap with
  | error err => exact fun h => by cases hbootstrap.symm.trans h.bootstrap
  | ok =>
    cases hstatus : env.projectionStatus with
    | error err => exact fun h => by cases hstatus.symm.trans h.projectionStatus
    | ok => trivial

theorem ends_appendSchemaApplied_finishes (env : Environment)
    (schema : DatabaseSchema) (migration : SchemaMigrationPlan) (s : AppState P) :
    Ends (appendSchemaAppliedWalRecord env schema migration) s (fun _ t => t = s.pushSchemaApplied env schema migration)
    fun _ t => Finishes env → t.wal.records = s.wal.records := by
  unfold appendSchemaAppliedWalRecord
  cases happ : env.append with
  | refused | unwritten => exact fun _ => rfl
  | unacknowledged err => exact fun h => absurd happ (h.append err)
  | acknowledged => rfl

/-- An application that returns appends one record, and one that fails none if no step behind the
record fails. -/
theorem ends_records (store : ProjectionStore P) (env : Environment) {request : SchemaApplyRequest}
    (happly : request.apply = true) (hpersist : request.persist = true) (s : AppState P) :
    Ends (applySchemaCandidate store env request) s (fun _ t => ∃ record,
    t.wal.records = s.wal.records ++ [record]) fun _ t => Finishes env →
    t.wal.records = s.wal.records := by
  unfold applySchemaCandidate
  rw [ends_bind, ends_read]
  refine (ends_prepare store env request s).bind ?_ fun _ _ h _ => h ▸ rfl
  rintro prepared s ⟨hprepared, rfl⟩
  have hfiles := (prepareSchemaCandidate_ok hprepared).2 happly hpersist
  have hpushed := records_pushSchemaApplied env request.schema prepared.migration hfiles
  rw [happly, hpersist]
  have happend : Ends (do return some (← appendSchemaAppliedWalRecord env request.schema prepared.migration))
      s (fun _ t => t = s.pushSchemaApplied env request.schema prepared.migration)
      (fun _ t => Finishes env → t.wal.records = s.wal.records) :=
    (ends_appendSchemaApplied_finishes env request.schema prepared.migration s).bind (fun _ _ h => h) fun _ _ h => h
  refine happend.bind ?_ fun _ _ h => h
  rintro _ _ rfl
  rw [if_pos rfl]
  have hswitch := (ends_switchSchema store env request prepared s (s.pushSchemaApplied env request.schema
    prepared.migration) rfl rfl rfl).and (ends_switchSchema_finishes env request prepared _)
  refine hswitch.bind ?_ fun _ _ h hfinishes => absurd hfinishes h.2
  rintro _ t ⟨⟨hwal, -⟩, -⟩
  have hstatus := (ends_projectionStatus store env t).and (ends_projectionStatus_finishes store env t)
  refine hstatus.bind (fun _ u h => ?_) fun _ _ h hfinishes => absurd hfinishes h.2
  refine ⟨schemaAppliedRecord env request.schema prepared.migration s.wal.allocateLsn.nextLsn, ?_⟩
  rw [h.1.1, hwal]
  exact hpushed

/-! ## Calls on one coordinator -/

/-- How far a call has come. -/
inductive ProposalCall where
  /-- A commit waits for the apply lock. -/
  | committing (proposal : SchemaProposal)
  /-- The schema was applied, or was not, and the peers are told. -/
  | applied (proposal : SchemaProposal) (result : Except ApiError SchemaApplyResponse)
  /-- An abort tells the peers, and then writes the proposal. -/
  | aborting (proposal : SchemaProposal)
  | persisting
  | returned
  /-- The client is gone. -/
  | dropped

/-- The application, the proposal and the calls on it. -/
structure ServerState (P : Type) where
  app : AppState P
  /-- The proposal that is stored. -/
  proposal : SchemaProposal
  schemaApplyLock : Option Nat
  calls : List ProposalCall
  /-- The records that commits of the proposal have appended. -/
  appended : List WalRecord

def ServerState.initial (app : AppState P) (proposal : SchemaProposal) : ServerState P :=
  ⟨app, proposal, none, [], []⟩

def ServerState.start (s : ServerState P) (call : ProposalCall) : ServerState P :=
  { s with calls := s.calls ++ [call] }

def ServerState.setCall (s : ServerState P) (i : Nat) (call : ProposalCall) : ServerState P :=
  { s with calls := s.calls.set i call }

/-- A call that ends gives the lock back. -/
def ServerState.endCall (s : ServerState P) (i : Nat) (call : ProposalCall) : ServerState P :=
  { s.setCall i call with
    schemaApplyLock := if s.schemaApplyLock = some i then none else s.schemaApplyLock }

def ServerState.write (s : ServerState P) (proposal : SchemaProposal) : ServerState P :=
  { s with proposal }

/-- The call has the lock and applies the proposal that it has read. -/
def ServerState.applySchema (store : ProjectionStore P) (env : Environment) (i : Nat)
    (proposal : SchemaProposal) (s : ServerState P) : ServerState P :=
  let (result, app) := exec (applySchemaCandidate store env proposal.request) s.app
  { s.setCall i (.applied proposal result) with
    app
    schemaApplyLock := some i
    appended := s.appended ++ app.wal.records.drop s.app.wal.records.length }

/-- The steps of commits and aborts. -/
inductive ServerEvent (P : Type) where
  | commit
  | abort
  | apply (call : Nat) (env : Environment)
  | store (call : Nat) (peerResults : List TopologyPropagationResult)
  | finish (call : Nat)
  | drop (call : Nat)
  /-- Calls that are not about the proposal. -/
  | other (app : AppState P)

/-- What each step does to the application and the proposal. -/
inductive ServerStep (store : ProjectionStore P) (cluster : ClusterConfig) :
    ServerState P → ServerEvent P → ServerState P → Prop where
  | commit {s : ServerState P} {request}
      (hcommit : commitSchemaProposal s.proposal = .ok (some request)) :
    ServerStep store cluster s .commit (s.start (.committing s.proposal))
  | commitSettled {s : ServerState P} (hcommit : ∀ request, commitSchemaProposal s.proposal ≠ .ok (some request)) :
    ServerStep store cluster s .commit (s.start .returned)
  | abort {s : ServerState P} {next} (habort : abortSchemaProposal s.proposal = .ok next) :
    ServerStep store cluster s .abort (s.start (.aborting next))
  | abortRefused {s : ServerState P} {err} (habort : abortSchemaProposal s.proposal = .error err) :
    ServerStep store cluster s .abort (s.start .returned)
  | apply {s : ServerState P} {call env proposal}
      (hcall : s.calls[call]? = some (.committing proposal)) (hlock : s.schemaApplyLock = none) :
    ServerStep store cluster s (.apply call env) (s.applySchema store env call proposal)
  | storeApplied {s : ServerState P} {call peerResults}
      {proposal : SchemaProposal} {result}
      (hcall : s.calls[call]? = some (.applied proposal result)) :
    ServerStep store cluster s (.store call peerResults)
      ((s.write (proposal.applied cluster peerResults result)).setCall call .persisting)
  | storeAborted {s : ServerState P} {call peerResults next} (hcall : s.calls[call]? = some (.aborting next)) :
    ServerStep store cluster s (.store call peerResults) ((s.write next).setCall call .persisting)
  | finish {s : ServerState P} {call} (hcall : s.calls[call]? = some .persisting) :
    ServerStep store cluster s (.finish call) (s.endCall call .returned)
  | drop {s : ServerState P} {call} : ServerStep store cluster s (.drop call) (s.endCall call .dropped)
  | other {s : ServerState P} {app} : ServerStep store cluster s (.other app) { s with app }

/-- No commit applies and no abort writes a proposal that is stored as committed, no application
fails behind its record, and no call is dropped between the application and the write. -/
def Meets (s : ServerState P) : ServerEvent P → Prop
  | .apply _ env => s.proposal.phase ≠ .committed ∧ Finishes env
  | .store call _ => ∀ next, s.calls[call]? = some (.aborting next) → s.proposal.phase ≠ .committed
  | .drop call => ∀ proposal response, s.calls[call]? ≠ some (.applied proposal (.ok response))
  | _ => True

/-! ## The invariant -/

/-- A call that has applied the schema and has not written the proposal. -/
def Applied (s : ServerState P) (i : Nat) : Prop :=
  ∃ proposal response, s.calls[i]? = some (.applied proposal (.ok response))

/-- What was appended, and what is stored. -/
inductive Mode (s : ServerState P) : Prop where
  | nothing (happended : s.appended = []) (hphase : s.proposal.phase ≠ .committed)
      (hcalls : ∀ i, ¬Applied s i)
  | pending (record : WalRecord) (happended : s.appended = [record])
      (hphase : s.proposal.phase ≠ .committed) (i : Nat) (hcall : Applied s i)
  | done (record : WalRecord) (happended : s.appended = [record]) (hphase : s.proposal.phase = .committed)
      (hcalls : ∀ (i : Nat) proposal result, s.calls[i]? ≠ some (.applied proposal result))

/-- What is stored agrees with what was applied. -/
structure Inv (s : ServerState P) : Prop where
  lock : ∀ (i : Nat) proposal result, s.calls[i]? = some (.applied proposal result) → s.schemaApplyLock = some i
  /-- An abort never writes a committed proposal. -/
  aborting : ∀ (i : Nat) next, s.calls[i]? = some (.aborting next) → next.phase ≠ .committed
  mode : Mode s

variable {proposal : SchemaProposal} {c : ProposalCall}

theorem Inv.initial (app : AppState P) (h : proposal.phase = .prepared) :
    Inv (.initial app proposal) where
  lock i proposal result h := by cases h
  aborting i next h := by cases h
  mode := .nothing rfl (fun hc => by cases h.symm.trans hc) fun i ⟨_, _, h⟩ => by cases h

/-! ## Every step keeps it -/

variable {s t : ServerState P} {call : ProposalCall} {i j : Nat}

theorem getElem?_start (h : (s.start call).calls[j]? = some c) :
    s.calls[j]? = some c ∨ c = call := by
  rcases getElem?_append.symm.trans h with h
  split at h
  · exact .inl h
  · exact .inr (mem_singleton.mp (mem_of_getElem? h))

theorem getElem?_setCall_ne (h : j ≠ i) : (s.setCall i call).calls[j]? = s.calls[j]? :=
  getElem?_set_ne fun hij => h hij.symm

theorem getElem?_setCall_self (h : s.calls[i]? = some c) :
    (s.setCall i call).calls[i]? = some call :=
  List.getElem?_set_self (List.getElem?_eq_some_iff.mp h).1

/-- A step that appends nothing, and that neither commits the proposal nor lets a call apply. -/
theorem Mode.keep (h : Mode s) (happended : t.appended = s.appended)
    (hphase : t.proposal.phase = .committed ↔
    s.proposal.phase = .committed) (hkeep : ∀ i, Applied s i → Applied t i)
    (hcalls : ∀ (i : Nat) proposal result,
    t.calls[i]? = some (.applied proposal result) → s.calls[i]? = some (.applied proposal result)) :
    Mode t := by
  cases h with
  | nothing happended' hphase' hcalls' =>
    refine .nothing (happended.trans happended') (fun h => hphase' (hphase.mp h)) ?_
    exact fun i ⟨proposal, response, hi⟩ => hcalls' i ⟨proposal, response, hcalls i _ _ hi⟩
  | pending record happended' hphase' i hcall =>
    exact .pending record (happended.trans happended') (fun h => hphase' (hphase.mp h)) i (hkeep i hcall)
  | done record happended' hphase' hcalls' =>
    refine .done record (happended.trans happended') (hphase.mpr hphase') ?_
    exact fun i proposal result hi => hcalls' i proposal result (hcalls i _ _ hi)

theorem Inv.start {s : ServerState P} (h : Inv s) {call : ProposalCall}
    (happlied : ∀ proposal result,
    call ≠ .applied proposal result)
    (haborting : ∀ next, call = .aborting next → next.phase ≠ .committed) :
    Inv (s.start call) where
  lock i proposal result hi := by
    rcases getElem?_start hi with hi | hi
    · exact h.lock i proposal result hi
    · exact absurd hi.symm (happlied proposal result)
  aborting i next hi := by
    rcases getElem?_start hi with hi | hi
    · exact h.aborting i next hi
    · exact haborting next hi.symm
  mode := by
    refine h.mode.keep rfl .rfl ?_ ?_
    · rintro i ⟨proposal, response, hi⟩
      refine ⟨proposal, response, ?_⟩
      exact (List.getElem?_append_left (List.getElem?_eq_some_iff.mp hi).1).trans hi
    · intro i proposal result hi
      rcases getElem?_start hi with hi | hi
      · exact hi
      · exact absurd hi.symm (happlied proposal result)

/-- A call that has not applied the schema ends, or is about to. -/
theorem Inv.setCall (h : Inv s) (happlied : ∀ proposal result, call ≠ .applied proposal result)
    (haborting : ∀ next, call ≠ .aborting next) (hcall : ¬Applied s i)
    (hcalls : t.calls = (s.setCall i call).calls)
    (happended : t.appended = s.appended)
    (hphase : t.proposal.phase = .committed ↔ s.proposal.phase = .committed)
    (hlock : ∀ j, j ≠ i → s.schemaApplyLock = some j → t.schemaApplyLock = some j) : Inv t where
  lock j proposal result hj := by
    rw [hcalls] at hj
    rcases getElem?_set_cases hj with ⟨-, hj⟩ | ⟨hij, hj⟩
    · exact absurd hj.symm (happlied proposal result)
    · exact hlock j hij (h.lock j proposal result hj)
  aborting j next hj := by
    rw [hcalls] at hj
    rcases getElem?_set_cases hj with ⟨-, hj⟩ | ⟨-, hj⟩
    · exact absurd hj.symm (haborting next)
    · exact h.aborting j next hj
  mode := by
    refine h.mode.keep happended hphase ?_ ?_
    · rintro j ⟨proposal, response, hj⟩
      have hij : j ≠ i := fun hij => hcall (hij ▸ ⟨proposal, response, hj⟩)
      refine ⟨proposal, response, ?_⟩
      rw [hcalls, getElem?_setCall_ne hij]
      exact hj
    · intro j proposal result hj
      rw [hcalls] at hj
      rcases getElem?_set_cases hj with ⟨-, hj⟩ | ⟨-, hj⟩
      · exact absurd hj.symm (happlied proposal result)
      · exact hj

theorem lock_endCall (call : ProposalCall) (hij : j ≠ i) (h : s.schemaApplyLock = some j) :
    (s.endCall i call).schemaApplyLock = some j := by
  have hne : s.schemaApplyLock ≠ some i := fun hi => hij (some.inj (h.symm.trans hi))
  exact (if_neg hne).trans h

/-- The call that has the lock is the only one that may have applied the schema. -/
theorem Inv.apply {store : ProjectionStore P} {env : Environment} {s : ServerState P}
    (h : Inv s) {call : Nat} {proposal : SchemaProposal}
    (hcall : s.calls[call]? = some (.committing proposal))
    (hlock : s.schemaApplyLock = none) (hphase : s.proposal.phase ≠ .committed)
    (henv : Finishes env) :
    Inv (s.applySchema store env call proposal) := by
  have hends := @ends_records _ store env proposal.request rfl rfl s.app
  have hfree : ∀ (i : Nat) proposal result, s.calls[i]? ≠ some (.applied proposal result) := by
    intro i proposal result hi
    cases hlock.symm.trans (h.lock i proposal result hi)
  have happended : s.appended = [] := by
    cases h.mode with
    | nothing happended => exact happended
    | pending _ _ _ i hi =>
      obtain ⟨_, _, hi⟩ := hi
      exact absurd hi (hfree i _ _)
    | done _ _ hdone => exact absurd hdone hphase
  rcases hexec : exec (applySchemaCandidate store env proposal.request) s.app with ⟨result, app⟩
  have hstate : s.applySchema store env call proposal = { s.setCall call (.applied proposal result) with
        app
        schemaApplyLock := some call
        appended := s.appended ++ app.wal.records.drop s.app.wal.records.length } := by
    rw [ServerState.applySchema, hexec]
  rw [hstate]
  have hcalls : ∀ (i : Nat) p r, (s.setCall call (.applied proposal result)).calls[i]? = some (.applied p r) →
      i = call ∧ r = result := by
    intro i p r hi
    rcases getElem?_set_cases hi with ⟨hij, hc⟩ | ⟨-, hc⟩
    · cases hc
      exact ⟨hij, rfl⟩
    · exact absurd hc (hfree i p r)
  refine ⟨fun i p r hi => congrArg some (hcalls i p r hi).1.symm, fun i next hi => ?_, ?_⟩
  · rcases getElem?_set_cases hi with ⟨-, hi⟩ | ⟨-, hi⟩
    · cases hi
    · exact h.aborting i next hi
  · cases result with
    | ok response =>
      obtain ⟨record, hrecord⟩ := hends.of_ok hexec
      refine .pending record ?_ hphase call ⟨proposal, response, getElem?_setCall_self hcall⟩
      show s.appended ++ app.wal.records.drop s.app.wal.records.length = [record]
      rw [happended, hrecord, drop_left, nil_append]
    | error err =>
      have hrecords : app.wal.records = s.app.wal.records := hends.of_error hexec henv
      refine .nothing ?_ hphase fun i ⟨p, response, hi⟩ => ?_
      · show s.appended ++ app.wal.records.drop s.app.wal.records.length = []
        rw [happended, hrecords, drop_length, nil_append]
      · cases (hcalls i p _ hi).2

/-- The call that has applied the schema writes the proposal. -/
theorem Inv.storeApplied {s : ServerState P} (h : Inv s)
    (cluster : ClusterConfig) {call : Nat} {peerResults : List TopologyPropagationResult}
    {proposal : SchemaProposal}
    {result : Except ApiError SchemaApplyResponse}
    (hcall : s.calls[call]? = some (.applied proposal result)) :
    Inv ((s.write (proposal.applied cluster peerResults result)).setCall call .persisting) := by
  have hholder := h.lock call proposal result hcall
  have hcalls : ∀ (i : Nat) p r,
      ((s.write (proposal.applied cluster peerResults result)).setCall call .persisting).calls[i]? ≠
      some (.applied p r) := by
    intro i p r hi
    rcases getElem?_set_cases hi with ⟨-, hi⟩ | ⟨hne, hi⟩
    · cases hi
    · exact hne (some.inj ((h.lock i p r hi).symm.trans hholder))
  have honly : ∀ i, Applied s i → ∃ response, result = .ok response := by
    rintro i ⟨p, response, hi⟩
    cases some.inj ((h.lock i p _ hi).symm.trans hholder)
    cases hi.symm.trans hcall
    exact ⟨response, rfl⟩
  refine ⟨fun i p r hi => absurd hi (hcalls i p r), fun i next hi => ?_, ?_⟩
  · rcases getElem?_set_cases hi with ⟨-, hi⟩ | ⟨-, hi⟩
    · cases hi
    · exact h.aborting i next hi
  · cases h.mode with
    | nothing happended hphase hnone =>
      cases result with
      | ok response => exact absurd ⟨proposal, response, hcall⟩ (hnone call)
      | error err => exact .nothing happended nofun fun i ⟨p, response, hi⟩ => hcalls i p _ hi
    | pending record happended hphase i hi =>
      obtain ⟨response, rfl⟩ := honly i hi
      exact .done record happended rfl hcalls
    | done _ _ _ hnone => exact absurd hcall (hnone call proposal result)

theorem abortSchemaProposal_ok {next : SchemaProposal}
    (h : abortSchemaProposal proposal = .ok next) :
    next.phase = .aborted := by
  unfold abortSchemaProposal at h
  split at h
  · cases h
  · cases h
    rfl

theorem Inv.startReturned (h : Inv s) : Inv (s.start .returned) :=
  h.start (fun _ _ h => by cases h) fun _ h => by cases h

theorem Inv.step {store : ProjectionStore P} {cluster : ClusterConfig} {event : ServerEvent P}
    (h : Inv s) (hmeets : Meets s event) (hstep : ServerStep store cluster s event t) : Inv t := by
  cases hstep with
  | commit hcommit => exact h.start (fun _ _ h => by cases h) fun _ h => by cases h
  | commitSettled | abortRefused => exact h.startReturned
  | abort habort =>
    refine h.start (fun _ _ h => by cases h) fun next heq hc => ?_
    cases heq
    cases (abortSchemaProposal_ok habort).symm.trans hc
  | apply hcall hlock => exact h.apply hcall hlock hmeets.1 hmeets.2
  | storeApplied hcall => exact h.storeApplied cluster hcall
  | storeAborted hcall =>
    refine h.setCall (fun _ _ h => by cases h) (fun _ h => by cases h) ?_ rfl rfl ?_ fun _ _ h => h
    · rintro ⟨proposal, response, hi⟩
      cases hcall.symm.trans hi
    · exact ⟨fun hc => absurd hc (h.aborting _ _ hcall), fun hc => absurd hc (hmeets _ hcall)⟩
  | finish hcall =>
    refine h.setCall (fun _ _ h => by cases h) (fun _ h => by cases h) ?_ rfl rfl .rfl fun j hij => lock_endCall _ hij
    rintro ⟨proposal, response, hi⟩
    cases hcall.symm.trans hi
  | drop =>
    refine h.setCall (fun _ _ h => by cases h) (fun _ h => by cases h) ?_ rfl rfl .rfl fun j hij => lock_endCall _ hij
    rintro ⟨proposal, response, hi⟩
    exact hmeets proposal response hi
  | other => exact ⟨h.lock, h.aborting, h.mode.keep rfl .rfl (fun _ h => h) fun _ _ _ h => h⟩

/-- A prepared proposal appends one record at most; when all calls have ended, it is stored as
committed if and only if the record was appended. -/
theorem proposal_agrees {store : ProjectionStore P} {cluster : ClusterConfig}
    {app : AppState P} {proposal : SchemaProposal} {s : ServerState P}
    (hprepared : proposal.phase = .prepared)
    (h : Reaches (ServerStep store cluster) Meets (.initial app proposal) s) :
    s.appended.length ≤ 1 ∧
    ((∀ call ∈ s.calls, call = .returned ∨ call = .dropped) → (s.proposal.phase = .committed ↔
    s.appended ≠ [])) := by
  have hinv : Inv s := h.invariant (fun _ _ _ hs hmeets hstep => hs.step hmeets hstep) (.initial app hprepared)
  cases hinv.mode with
  | nothing happended hphase _ =>
    rw [happended]
    exact ⟨Nat.zero_le 1, fun _ => ⟨fun h => absurd h hphase, fun h => absurd rfl h⟩⟩
  | pending record happended hphase i hcall =>
    rw [happended]
    refine ⟨le_rfl, fun hended => ?_⟩
    obtain ⟨p, response, hi⟩ := hcall
    rcases hended _ (mem_of_getElem? hi) with hc | hc <;> cases hc
  | done record happended hphase _ =>
    rw [happended]
    exact ⟨le_rfl, fun _ => ⟨fun _ => cons_ne_nil _ _, fun _ => hphase⟩⟩

/-! ## An abort that has read the proposal before the commit -/

def emptyDisk : Environment := { fullDisk with persistHistory := .ok () }

def postsProposal : SchemaProposal where
  id := "posts"
  proposedBy := "operator"
  reason := "manual schema proposal"
  phase := .prepared
  expectedVersion := none
  allowBreakingReplay := false
  schema := postsCandidate
  report := postsCandidate.validationReport
  migration := .between postsCurrent postsCandidate
  projectionRebuilt := false
  prepareAcks := []
  commitAcks := []
  requiredAcks := 1
  schemaAuditLsn := none
  lastError := none

def oneNode : ClusterConfig := ⟨"a", ∅, [], [], []⟩

theorem finishes_emptyDisk : Finishes emptyDisk := ⟨nofun, rfl, rfl, rfl, rfl, rfl, rfl, rfl, rfl⟩

theorem exec_emptyDisk :
    ∃ response app record, exec (applySchemaCandidate postsStore emptyDisk postsRequest)
    postsState = (.ok response, app) ∧ app.wal.records = postsState.wal.records ++ [record] := by
  have hreturns : (exec (applySchemaCandidate postsStore emptyDisk postsRequest) postsState).1.toBool = true := by
    decide +kernel
  rcases hexec : exec (applySchemaCandidate postsStore emptyDisk postsRequest) postsState with ⟨result, app⟩
  cases result with
  | ok response =>
    obtain ⟨record, hrecord⟩ := (ends_records postsStore emptyDisk rfl rfl postsState).of_ok hexec
    exact ⟨response, app, record, rfl, hrecord⟩
  | error err =>
    rw [hexec] at hreturns
    cases hreturns

abbrev postsStep := ServerStep (P := List (DbRecord × List String)) postsStore oneNode

/-- A commit that has read the proposal runs to its end. -/
theorem committed_sample {calls : List ProposalCall}
    (h : Reaches postsStep Meets (.initial postsState postsProposal)
    ⟨postsState, postsProposal, none, .committing postsProposal :: calls, []⟩) :
    ∃ app committed record, committed.phase = .committed ∧
    Reaches postsStep Meets (.initial postsState postsProposal)
    ⟨app, committed, none, .returned :: calls, [record]⟩ := by
  obtain ⟨response, app, record, hexec, hrecord⟩ := exec_emptyDisk
  have hexec' : exec (applySchemaCandidate postsStore emptyDisk postsProposal.request) postsState =
    (.ok response, app) := hexec
  have happlied : ServerState.applySchema postsStore emptyDisk 0 postsProposal ⟨postsState,
      postsProposal, none, .committing postsProposal :: calls, []⟩ = ⟨app, postsProposal, some 0,
      .applied postsProposal (.ok response) :: calls, [record]⟩ := by
    simp only [ServerState.applySchema, hexec', ServerState.setCall, hrecord, drop_left, set_cons_zero, nil_append]
  have hmeets : Meets ⟨postsState, postsProposal, none, .committing postsProposal :: calls, []⟩ (.apply 0 emptyDisk) :=
      ⟨nofun, finishes_emptyDisk⟩
  have h1 : Reaches postsStep Meets (.initial postsState postsProposal) ⟨app, postsProposal, some 0,
      .applied postsProposal (.ok response) :: calls, [record]⟩ :=
    happlied ▸ h.take (.apply rfl rfl) hmeets
  have h2 : Reaches postsStep Meets (.initial postsState postsProposal) ⟨app,
      postsProposal.applied oneNode [] (.ok response), some 0, .persisting :: calls, [record]⟩ :=
    h1.take (@ServerStep.storeApplied _ _ _ _ 0 [] _ (.ok response) rfl) fun _ h => nomatch h
  have h3 : Reaches postsStep Meets (.initial postsState postsProposal) ⟨app,
      postsProposal.applied oneNode [] (.ok response), none, .returned :: calls, [record]⟩ :=
    h2.take (e := .finish 0) (.finish rfl) trivial
  exact ⟨app, postsProposal.applied oneNode [] (.ok response), record, rfl, h3⟩

theorem committing_sample :
    Reaches postsStep Meets (.initial postsState postsProposal) ⟨postsState, postsProposal,
    none, [.committing postsProposal], []⟩ :=
  (Reaches.refl (ServerState.initial postsState postsProposal)).take
    (@ServerStep.commit _ _ _ _ postsRequest rfl) trivial

theorem proposal_agrees_sample :
    ∃ s : ServerState (List (DbRecord × List String)), (s.appended.length ≤ 1 ∧
    ((∀ call ∈ s.calls, call = .returned ∨ call = .dropped) → (s.proposal.phase = .committed ↔
    s.appended ≠ []))) ∧
    (∀ call ∈ s.calls, call = .returned ∨ call = .dropped) ∧ s.proposal.phase = .committed := by
  obtain ⟨app, committed, record, hphase, h⟩ := committed_sample committing_sample
  refine ⟨_, proposal_agrees rfl h, fun call hc => ?_, hphase⟩
  exact .inl (mem_singleton.mp hc)

/-- The proposal is applied, and then stored as aborted. -/
theorem committed_aborted_sample :
    ¬∀ (cluster : ClusterConfig) (app : AppState (List (DbRecord × List String)))
    (proposal : SchemaProposal) (s : ServerState (List (DbRecord × List String))), proposal.phase =
    .prepared →
    Reaches (ServerStep postsStore cluster) (fun _ _ => True) (.initial app proposal) s →
    (∀ call ∈ s.calls, call = .returned) → (s.proposal.phase = .committed ↔ s.appended ≠ []) := by
  intro h
  have h1 : Reaches postsStep Meets (.initial postsState postsProposal) ⟨postsState, postsProposal, none,
      [.committing postsProposal, .aborting { postsProposal with
        phase := .aborted, lastError := some "aborted by operator" }], []⟩ :=
    committing_sample.take (.abort rfl) trivial
  obtain ⟨app, committed, record, -, h2⟩ := committed_sample h1
  have h3 : Reaches postsStep (fun _ _ => True) (.initial postsState postsProposal) ⟨app,
      { postsProposal with phase := .aborted, lastError := some "aborted by operator" }, none,
      [.returned, .persisting], [record]⟩ :=
    (h2.weaken fun _ _ _ => trivial).take (e := .store 1 []) (.storeAborted rfl) trivial
  have h4 : Reaches postsStep (fun _ _ => True) (.initial postsState postsProposal) ⟨app,
      { postsProposal with phase := .aborted, lastError := some "aborted by operator" }, none,
      [.returned, .returned], [record]⟩ := h3.take (e := .finish 1) (.finish rfl) trivial
  have hiff := h oneNode postsState postsProposal _ rfl h4 fun call hc => by
    rcases mem_cons.mp hc with hc | hc
    · exact hc
    · exact mem_singleton.mp hc
  cases hiff.mpr (cons_ne_nil _ _)

end NextDb.Api.SchemaProposals
