import NextDb.Api.ObjectRefIndex
import NextDb.Api.ObjectPut

/-!
# Deleting objects

A durable write checks that each object that it refers to exists, and is logged and indexed
after that. A delete and a collection read the references and remove objects afterwards: a
delete once it has logged the deletion, a collection one object after the other. Nothing
holds one off while the other is between its steps.

* `referenced_stored`: in a run in which none reads the references while a write that has
  checked an object is not indexed, and no write checks an object that one is about to
  remove, the objects of all messages and live records of the log are stored.
-/

namespace NextDb.Api.ObjectGc

open Records Run Wal ObjectRefIndex List Std Std.ExtTreeMap

/-! ## What a write refers to -/

def draftObjectIds (message : MessageDraft) : List String := message.attachments.map (·.id)

/-- The objects that a request checks, one after the other. -/
def requestObjectIds (schema : DatabaseSchema) : WriteRequest → Result (List String)
  | .sendMessages messages => .ok (messages.flatMap draftObjectIds)
  | .record operation _ _ => operationObjectIds schema operation
  | .transaction operations _ _ => do return (← operations.mapM (operationObjectIds schema)).flatten
  | .other _ => .ok []

/-! ## The server -/

/-- How far a check of the objects of a write has come. -/
inductive CheckPhase where
  | checking (passed rest : List String)
  | ended

/-- A write that has not been given to the log. -/
structure Check where
  request : WriteRequest
  shard : Nat
  phase : CheckPhase

/-- How far a deletion has come. -/
inductive DeletePhase where
  | started
  | found
  /-- There were no references. -/
  | decided
  /-- The deletion is logged by a write. -/
  | logging (write : Nat)
  | filesRemoved
  | ended
deriving DecidableEq

/-- `commit_object_delete` without force. -/
structure Deletion where
  objectId : String
  phase : DeletePhase

/-- How far a collection has come. -/
inductive SweepPhase where
  | started
  | referenced (ids : List String)
  /-- The objects that are left, and when they were created. -/
  | sweeping (referenced : List String) (rest : List (String × Nat))
  | filesRemoved (objectId : String) (referenced : List String) (rest : List (String × Nat))

/-- `gc_objects`. -/
structure Sweep where
  dryRun : Bool
  force : Bool
  graceMs : Nat
  now : Nat
  phase : SweepPhase

/-- The references, the object store, and the calls that are on their way. -/
structure ServerState where
  index : ObjectRefIndex.ServerState
  /-- The objects that have a body and a metadata file. -/
  files : BTreeSet String
  /-- The index of the store: when each object was created. -/
  metadata : BTreeMap String Nat
  checks : List Check
  deletions : List Deletion
  sweeps : List Sweep

variable (s : ServerState)

/-- `metadata_exists`. -/
def ServerState.metadataExists (objectId : String) : Prop :=
  objectId ∈ s.metadata ∨ objectId ∈ s.files

def Deletion.removing (self : Deletion) : Bool := self.phase = .filesRemoved

def Sweep.removing (self : Sweep) : Bool :=
  match self.phase with
  | .filesRemoved _ _ _ => true
  | _ => false

/-- The write lock of the store is free. -/
def StoreFree : Prop :=
  (∀ deletion ∈ s.deletions, deletion.removing = false) ∧ ∀ sweep ∈ s.sweeps, sweep.removing = false

/-- Whether a collection removes the object that it has come to. -/
def Sweep.deletes (self : Sweep) (referenced : List String) (object : String × Nat) : Bool :=
  !referenced.contains object.1 && (self.force || self.graceMs ≤ self.now - object.2) && !self.dryRun

def ServerState.setCheck (i : Nat) (check : Check) (phase : CheckPhase) : ServerState :=
  { s with checks := s.checks.set i { check with phase } }

def ServerState.setDeletion (i : Nat) (deletion : Deletion) (phase : DeletePhase) : ServerState :=
  { s with deletions := s.deletions.set i { deletion with phase } }

def ServerState.setSweep (i : Nat) (sweep : Sweep) (phase : SweepPhase) : ServerState :=
  { s with sweeps := s.sweeps.set i { sweep with phase } }

def ServerState.removeFiles (objectId : String) : ServerState :=
  { s with files := s.files.erase objectId }

def ServerState.removeMetadata (objectId : String) : ServerState :=
  { s with metadata := s.metadata.erase objectId }

def deletedPayload (objectId : String) (deletedAtMs : Nat) (clientMutationId : Option String) :
    WalPayload :=
  .objectDeleted objectId deletedAtMs s!"objects/{objectId}" false clientMutationId

/-- Puts, checks and writes, deletions and collections. -/
inductive GcEvent where
  | put (objectId : String) (createdAtMs : Nat)
  | check (request : WriteRequest) (shard : Nat)
  | checkObject (check : Nat)
  | refuse (check : Nat)
  /-- The write is given to the log. -/
  | submit (check : Nat)
  | index (event : IndexEvent)
  | delete (objectId : String)
  | find (deletion : Nat)
  | decide (deletion : Nat)
  | logDeletion (deletion : Nat) (shard deletedAtMs : Nat) (clientMutationId : Option String)
  | removeFiles (deletion : Nat)
  | removeMetadata (deletion : Nat)
  | endDeletion (deletion : Nat)
  | gc (dryRun force : Bool) (graceMs now : Nat)
  | readReferenced (sweep : Nat)
  | list (sweep : Nat)
  | skip (sweep : Nat)
  | sweepFiles (sweep : Nat)
  | sweepMetadata (sweep : Nat)

variable (schema : DatabaseSchema)

/-- What each event does to the store and the references. -/
inductive GcStep : ServerState → GcEvent → ServerState → Prop where
  | put {s : ServerState} {objectId createdAtMs} : StoreFree s →
    GcStep s (.put objectId createdAtMs)
      { s with files := s.files.insert objectId, metadata := s.metadata.insert objectId createdAtMs }
  | check {s : ServerState} {request shard ids} : request.Checked schema → requestObjectIds schema request = .ok ids →
    shard < s.index.files.length →
    GcStep s (.check request shard) { s with checks := s.checks ++ [⟨request, shard, .checking [] ids⟩] }
  | checkObject {s : ServerState} {i} {check : Check} {passed rest objectId} : s.checks[i]? = some check →
    check.phase = .checking passed (objectId :: rest) → s.metadataExists objectId →
    GcStep s (.checkObject i) (s.setCheck i check (.checking (passed ++ [objectId]) rest))
  | refuse {s : ServerState} {i} {check} : s.checks[i]? = some check →
    GcStep s (.refuse i) (s.setCheck i check .ended)
  | submit {s : ServerState} {i} {check : Check} {passed} {index} : s.checks[i]? = some check →
    check.phase = .checking passed [] → IndexStep schema s.index (.request check.request check.shard) index →
    GcStep s (.submit i) { s.setCheck i check .ended with index }
  | index {s : ServerState} {event index} : (∀ request shard, event ≠ .request request shard) →
    IndexStep schema s.index event index → GcStep s (.index event) { s with index }
  | delete {s : ServerState} {objectId} : ObjectPut.ensureSafeObjectId objectId = true →
    GcStep s (.delete objectId) { s with deletions := s.deletions ++ [⟨objectId, .started⟩] }
  | find {s : ServerState} {i} {deletion : Deletion} : s.deletions[i]? = some deletion → deletion.phase = .started →
    s.metadataExists deletion.objectId → GcStep s (.find i) (s.setDeletion i deletion .found)
  | decide {s : ServerState} {i} {deletion : Deletion} : s.deletions[i]? = some deletion → deletion.phase = .found →
    s.index.refs.refs[deletion.objectId]? = none → GcStep s (.decide i) (s.setDeletion i deletion .decided)
  | logDeletion {s : ServerState} {i} {deletion : Deletion} {shard deletedAtMs clientMutationId index} :
    s.deletions[i]? = some deletion → deletion.phase = .decided →
    IndexStep schema s.index
      (.request (.other (deletedPayload deletion.objectId deletedAtMs clientMutationId)) shard) index →
    GcStep s (.logDeletion i shard deletedAtMs clientMutationId)
      { s.setDeletion i deletion (.logging s.index.writes.length) with index }
  | removeFiles {s : ServerState} {i} {deletion : Deletion} {w} {write : Write} : s.deletions[i]? = some deletion →
    deletion.phase = .logging w → s.index.writes[w]? = some write → write.loggedRecords ≠ [] → StoreFree s →
    GcStep s (.removeFiles i) ((s.setDeletion i deletion .filesRemoved).removeFiles deletion.objectId)
  | removeMetadata {s : ServerState} {i} {deletion : Deletion} : s.deletions[i]? = some deletion →
    deletion.phase = .filesRemoved →
    GcStep s (.removeMetadata i) ((s.setDeletion i deletion .ended).removeMetadata deletion.objectId)
  | endDeletion {s : ServerState} {i} {deletion : Deletion} : s.deletions[i]? = some deletion →
    deletion.removing = false → GcStep s (.endDeletion i) (s.setDeletion i deletion .ended)
  | gc {s : ServerState} {dryRun force graceMs now} :
    GcStep s (.gc dryRun force graceMs now)
      { s with sweeps := s.sweeps ++ [⟨dryRun, force, graceMs, now, .started⟩] }
  | readReferenced {s : ServerState} {i} {sweep : Sweep} : s.sweeps[i]? = some sweep → sweep.phase = .started →
    GcStep s (.readReferenced i) (s.setSweep i sweep (.referenced s.index.refs.refs.keys))
  | list {s : ServerState} {i} {sweep : Sweep} {ids} : s.sweeps[i]? = some sweep → sweep.phase = .referenced ids →
    GcStep s (.list i) (s.setSweep i sweep (.sweeping ids s.metadata.toList))
  | skip {s : ServerState} {i} {sweep : Sweep} {ids object rest} : s.sweeps[i]? = some sweep →
    sweep.phase = .sweeping ids (object :: rest) → sweep.deletes ids object = false →
    GcStep s (.skip i) (s.setSweep i sweep (.sweeping ids rest))
  | sweepFiles {s : ServerState} {i} {sweep : Sweep} {ids object rest} : s.sweeps[i]? = some sweep →
    sweep.phase = .sweeping ids (object :: rest) → sweep.deletes ids object = true → StoreFree s →
    GcStep s (.sweepFiles i) ((s.setSweep i sweep (.filesRemoved object.1 ids rest)).removeFiles object.1)
  | sweepMetadata {s : ServerState} {i} {sweep : Sweep} {ids objectId rest} : s.sweeps[i]? = some sweep →
    sweep.phase = .filesRemoved objectId ids rest →
    GcStep s (.sweepMetadata i) ((s.setSweep i sweep (.sweeping ids rest)).removeMetadata objectId)

/-! ## Writes and removals -/

/-- The objects that a write has found before it is given to the log. -/
def Check.passed (self : Check) : List String :=
  match self.phase with
  | .checking passed _ => passed
  | .ended => []

/-- A write that is not in the index yet. -/
def pending (write : Write) : Prop :=
  write.phase ≠ .failed ∧ ∀ records, write.phase ≠ .indexed records

/-- A write has checked an object and is not indexed. -/
def InFlight (s : ServerState) (objectId : String) : Prop :=
  (∃ check ∈ s.checks, objectId ∈ check.passed) ∨
    ∃ write ∈ s.index.writes, pending write ∧ ∃ ids, requestObjectIds schema write.request = .ok ids ∧ objectId ∈ ids

/-- The deletion has decided, and has not ended. -/
def Deletion.Removes (self : Deletion) (objectId : String) : Prop :=
  self.objectId = objectId ∧ match self.phase with
    | .decided | .logging _ | .filesRemoved => True
    | .started | .found | .ended => False

/-- The objects that a collection is about to remove. -/
def Sweep.Removes (self : Sweep) (objectId : String) : Prop :=
  match self.phase with
  | .started => False
  | .referenced ids => self.dryRun = false ∧ objectId ∉ ids
  | .sweeping ids rest => ∃ object ∈ rest, object.1 = objectId ∧ self.deletes ids object = true
  | .filesRemoved removed ids rest => objectId = removed ∨
      ∃ object ∈ rest, object.1 = objectId ∧ self.deletes ids object = true

/-- A delete or a collection has read that an object is not referenced, and has not removed it yet.
-/
def Doomed (s : ServerState) (objectId : String) : Prop :=
  (∃ deletion ∈ s.deletions, deletion.Removes objectId) ∨ ∃ sweep ∈ s.sweeps, sweep.Removes objectId

/-- What the index reads of an upsert is what was checked. -/
def ReadsAsChecked (request : WriteRequest) : Prop :=
  ∀ draft, .upsert draft ∈ request.mutations → ∃ ids all, declaredRecordObjectRefIds schema
    (draft.intoRecord 0) = .ok ids ∧
    requestObjectIds schema request = .ok all ∧ ∀ objectId ∈ ids, objectId ∈ all

/-- Nothing reads the references while a write is between its check and its update, and the other
way round. -/
def Apart (s : ServerState) : GcEvent → Prop
  | .check request _ => ReadsAsChecked schema request
  | .checkObject i => ∀ check passed objectId rest, s.checks[i]? = some check →
    check.phase = .checking passed (objectId :: rest) → ¬ Doomed s objectId
  | .decide i => ∀ deletion, s.deletions[i]? = some deletion → ¬ InFlight schema s deletion.objectId
  | .readReferenced i => ∀ sweep, s.sweeps[i]? = some sweep → sweep.dryRun = false →
    ∀ objectId, InFlight schema s objectId → objectId ∈ s.index.refs.refs
  | .index event => InOrder schema s.index event
  | _ => True

variable {request : WriteRequest} {schema} in
theorem ReadsAsChecked.readable (h : ReadsAsChecked schema request) : request.Readable schema :=
  fun draft hdraft =>
  have ⟨ids, _, hids, _⟩ := h draft hdraft
  ⟨ids, hids⟩

/-! ## Runs -/

section Invariant

variable {schema : DatabaseSchema} {base : WalRecord → Prop} {s t : ServerState}

/-- The object has its files, and the store knows it. -/
def Stored (s : ServerState) (objectId : String) : Prop :=
  objectId ∈ s.files ∧ objectId ∈ s.metadata

/-- Something refers to an object, or a write is about to. -/
def Needed (schema : DatabaseSchema) (s : ServerState) (objectId : String) : Prop :=
  (∃ source, s.index.refs.Refers source objectId) ∨ InFlight schema s objectId

/-- The files of an object are removed and the store still has its metadata. -/
def Removing (s : ServerState) (objectId : String) : Prop :=
  (∃ deletion ∈ s.deletions, deletion.phase = .filesRemoved ∧ deletion.objectId = objectId) ∨
    ∃ sweep ∈ s.sweeps, ∃ ids rest, sweep.phase = .filesRemoved objectId ids rest

/-- The request of the check is valid, and its objects are those that it refers to. -/
structure CheckOk (schema : DatabaseSchema) (check : Check) : Prop where
  checked : check.request.Checked schema
  reads : ReadsAsChecked schema check.request
  ids : ∀ passed rest, check.phase = .checking passed rest →
    requestObjectIds schema check.request = .ok (passed ++ rest)

/-- What is needed is stored, and nothing that is needed is about to be removed. -/
structure Inv (schema : DatabaseSchema) (base : WalRecord → Prop) (s : ServerState) : Prop where
  index : ObjectRefIndex.Inv base schema s.index
  checks : ∀ check ∈ s.checks, CheckOk schema check
  reads : ∀ write ∈ s.index.writes, ReadsAsChecked schema write.request
  stored : ∀ objectId, Needed schema s objectId → Stored s objectId
  apart : ∀ objectId, Doomed s objectId → ¬ Needed schema s objectId
  same : ∀ objectId, ¬ Removing s objectId → (objectId ∈ s.files ↔ objectId ∈ s.metadata)
  removed : ∀ objectId, Removing s objectId → objectId ∉ s.files

variable {objectId : String} {index : ObjectRefIndex.ServerState} {i : Nat} {deletion : Deletion}

theorem doomed_of_removing (h : Removing s objectId) : Doomed s objectId := by
  rcases h with ⟨deletion, hmem, hphase, hid⟩ | ⟨sweep, hmem, ids, rest, hphase⟩
  · exact .inl ⟨deletion, hmem, hid, by rw [hphase]; trivial⟩
  · refine .inr ⟨sweep, hmem, ?_⟩
    rw [Sweep.Removes, hphase]
    exact .inl rfl

theorem not_removing_of_free (h : StoreFree s) (objectId : String) : ¬ Removing s objectId := by
  rintro (⟨deletion, hmem, hphase, -⟩ | ⟨sweep, hmem, ids, rest, hphase⟩)
  · simpa [Deletion.removing, hphase] using h.1 deletion hmem
  · simpa [Sweep.removing, hphase] using h.2 sweep hmem

/-- The writes go on, and nothing else does. -/
theorem Inv.writes (h : Inv schema base s) (hindex : ObjectRefIndex.Inv base schema t.index)
    (hfiles : t.files = s.files) (hmetadata : t.metadata = s.metadata)
    (hdeletions : t.deletions = s.deletions)
    (hsweeps : t.sweeps = s.sweeps) (hchecks : ∀ check ∈ t.checks, CheckOk schema check)
    (hreads : ∀ write ∈ t.index.writes, ReadsAsChecked schema write.request) (hneeded : ∀ objectId,
    Needed schema t objectId → Needed schema s objectId ∨ ¬ Doomed s objectId ∧ Stored s objectId) :
    Inv schema base t := by
  have hdoomed : Doomed t = Doomed s := by
    unfold Doomed
    rw [hdeletions, hsweeps]
  have hremoving : Removing t = Removing s := by
    unfold Removing
    rw [hdeletions, hsweeps]
  refine ⟨hindex, hchecks, hreads, fun objectId hid => ?_, fun objectId hid hneed => ?_, ?_, ?_⟩
  · rw [Stored, hfiles, hmetadata]
    exact (hneeded objectId hid).elim (h.stored objectId) fun hnew => hnew.2
  · rw [hdoomed] at hid
    exact (hneeded objectId hneed).elim (h.apart objectId hid) fun hnew => hnew.1 hid
  · rw [hremoving, hfiles, hmetadata]
    exact h.same
  · rw [hremoving, hfiles]
    exact h.removed

/-- Deletes, collections and the store go on, and nothing else does. -/
theorem Inv.removals (h : Inv schema base s) (hindex : t.index = s.index)
    (hchecks : t.checks = s.checks)
    (hdoomed : ∀ objectId, Doomed t objectId → Doomed s objectId ∨ ¬ Needed schema s objectId)
    (hstored : ∀ objectId, Stored s objectId → Stored t objectId ∨ Doomed s objectId)
    (hsame : ∀ objectId, ¬ Removing t objectId → (objectId ∈ t.files ↔ objectId ∈ t.metadata))
    (hremoved : ∀ objectId, Removing t objectId → objectId ∉ t.files) : Inv schema base t := by
  have hneeded : Needed schema t = Needed schema s := by
    unfold Needed InFlight
    rw [hindex, hchecks]
  refine ⟨hindex ▸ h.index, hchecks ▸ h.checks, hindex ▸ h.reads, fun objectId hid => ?_, fun objectId hid => ?_, hsame,
    hremoved⟩
  · rw [hneeded] at hid
    exact (hstored objectId (h.stored objectId hid)).resolve_right fun hd => h.apart objectId hd hid
  · rw [hneeded]
    exact (hdoomed objectId hid).elim (h.apart objectId) id

/-! ### The log and the index -/

variable {e : IndexEvent} {shard : Nat} {phase : DeletePhase}

/-- What a step of the index does to the writes, and that it changes the index with an update only.
-/
theorem index_frame {s t : ObjectRefIndex.ServerState} (h : ObjectRefIndex.Inv base schema s)
    (hstep : IndexStep schema s e t) (he : ∀ request shard, e ≠ .request request shard) :
    ∃ i write phase, s.writes[i]? = some write ∧
    t.writes = s.writes.set i { write with phase } ∧
    (pending { write with phase } → pending write) ∧
    (t.refs = s.refs ∨ ∃ records, write.phase = .appended records ∧ phase = .indexed records) := by
  cases hstep with
  | @request request shard => exact absurd rfl (he request shard)
  | lock hi hphase | allocate hi hphase | enqueue hi hphase | append hi hphase =>
    exact ⟨_, _, _, hi, rfl, fun _ => by simp [pending, hphase], .inl rfl⟩
  | index hi hphase _ => exact ⟨_, _, _, hi, rfl, fun _ => by simp [pending, hphase], .inr ⟨_, hphase, rfl⟩⟩
  | rejectIndex hi hphase herror => exact absurd herror (h.not_rejected hi hphase)
  | fail hi _ => exact ⟨_, _, _, hi, rfl, fun hp => absurd rfl hp.1, .inl rfl⟩

theorem requestObjectIds_of_message (hchecked : request.Checked schema) {draft : MessageDraft}
    (hpayload : .messageCreated draft ∈ request.payloads) :
    ∃ ids, requestObjectIds schema request = .ok ids ∧ ∀ objectId ∈ draftObjectIds draft, objectId ∈
    ids := by
  cases request with
  | sendMessages messages =>
    obtain ⟨_, hdraft, he⟩ := mem_map.mp hpayload
    cases he
    exact ⟨_, rfl, fun objectId h => mem_flatMap.mpr ⟨draft, hdraft, h⟩⟩
  | record operation timestampMs clientMutationId =>
    have he := mem_singleton.mp hpayload
    cases operation <;> cases he
  | transaction operations timestampMs clientMutationId => cases mem_singleton.mp hpayload
  | other payload => exact absurd (mem_singleton.mp hpayload).symm (hchecked.2 draft)

/-- What the records of a write name, the write has checked. -/
theorem checked_of_names {write : Write} (hmade : Made schema index write)
    (hreads : ReadsAsChecked schema write.request) {r : WalRecord} (hr : r ∈ write.records)
    (h : RecordNames schema r objectId) : ∃ ids, requestObjectIds schema write.request = .ok ids ∧
    objectId ∈ ids := by
  have hpayload := hmade.payloads r hr
  rcases h with ⟨message, hmessage, hmem⟩ | ⟨draft, hdraft, ids, hids, hmem⟩
  · unfold messageOf at hmessage
    split at hmessage
    · next draft hdraft =>
      cases hmessage
      obtain ⟨ids, hids, hall⟩ := requestObjectIds_of_message hmade.checked (hdraft ▸ hpayload)
      exact ⟨ids, hids, hall objectId hmem⟩
    · cases hmessage
  · rw [hmade.checked.recordMutations_of_payload hpayload] at hdraft
    obtain ⟨ids', all, hids', hall, hsub⟩ := hreads draft hdraft
    have hsame : declaredRecordObjectRefIds schema (draft.intoRecord r.lsn) =
      declaredRecordObjectRefIds schema (draft.intoRecord 0) := rfl
    cases (hsame ▸ hids).symm.trans hids'
    exact ⟨all, hall, hsub objectId hmem⟩

/-- A step of the index needs no object that was not needed before. -/
theorem Inv.indexed (h : Inv schema base s) (hstep : IndexStep schema s.index e index)
    (he : ∀ request shard, e ≠ .request request shard) (horder : InOrder schema s.index e) :
    Inv schema base { s with index } := by
  have hindex := h.index.step horder hstep
  obtain ⟨i, write, phase, hi, hwrites, hpending, hrefs⟩ := index_frame h.index hstep he
  have hmem := mem_of_getElem? hi
  refine h.writes hindex rfl rfl rfl rfl h.checks ?_ fun objectId hneeded => .inl ?_
  · rw [hwrites]
    exact forall_mem_set h.reads (h.reads write hmem)
  rcases hneeded with ⟨source, hrefers⟩ | hcheck | ⟨other, hother, hotherPending, hids⟩
  · rcases hrefs with hrefs | ⟨records, happended, rfl⟩
    · rw [hrefs] at hrefers
      exact .inl ⟨source, hrefers⟩
    · have hset := @indexed_set base s.index index i write { write with phase := .indexed records } hi hwrites records
        (by simp [Write.indexedRecords, happended])
      rw [hindex.refers, hset] at hrefers
      rcases hrefers.of_add with hrefers | ⟨r, hr, hnames⟩
      · exact .inl ⟨source, (h.index.refers _ _).mpr hrefers⟩
      · refine .inr (.inr ⟨write, hmem, by simp [pending, happended], ?_⟩)
        exact checked_of_names (h.index.made write hmem) (h.reads write hmem) (by simp [Write.records, happended, hr])
          hnames
  · exact .inr (.inl hcheck)
  · rw [hwrites] at hother
    rcases mem_or_eq_of_mem_set hother with hother | rfl
    · exact .inr (.inr ⟨other, hother, hotherPending, hids⟩)
    · exact .inr (.inr ⟨write, hmem, hpending hotherPending, hids⟩)

/-- A request whose objects are checked is given to the log. -/
theorem Inv.requested (h : Inv schema base s)
    (hstep : IndexStep schema s.index (.request request shard) index)
    (hreads : ReadsAsChecked schema request)
    (hids : ∃ ids, requestObjectIds schema request = .ok ids ∧ ∀ objectId ∈ ids,
      InFlight schema s objectId) :
    Inv schema base { s with index } := by
  have hindex := h.index.step (show InOrder schema s.index (.request request shard) from hreads.readable) hstep
  cases hstep with
  | request hchecked hshard =>
    refine h.writes hindex rfl rfl rfl rfl h.checks (fun write hwrite => ?_) fun objectId hneeded => .inl ?_
    · rcases mem_append.mp hwrite with hwrite | hwrite
      · exact h.reads write hwrite
      · rw [mem_singleton.mp hwrite]
        exact hreads
    · rcases hneeded with hrefers | hcheck | ⟨other, hother, hpending, ids', hids', hmem⟩
      · exact .inl hrefers
      · exact .inr (.inl hcheck)
      · rcases mem_append.mp hother with hother | hother
        · exact .inr (.inr ⟨other, hother, hpending, ids', hids', hmem⟩)
        · rw [mem_singleton.mp hother] at hids'
          obtain ⟨ids, hok, hall⟩ := hids
          cases hok.symm.trans hids'
          exact .inr (hall objectId hmem)

variable {check : Check} {sweep : Sweep} {ids : List String}

/-- A check that goes on or ends. -/
theorem Inv.setCheck (h : Inv schema base s) {phase : CheckPhase} (hi : s.checks[i]? = some check)
    (hok : CheckOk schema { check with phase })
    (hpassed : ∀ objectId ∈ Check.passed { check with phase },
    objectId ∈ check.passed ∨ ¬ Doomed s objectId ∧ Stored s objectId) :
    Inv schema base (s.setCheck i check phase) := by
  refine h.writes h.index rfl rfl rfl rfl (forall_mem_set h.checks hok) h.reads fun objectId hneeded => ?_
  rcases hneeded with hrefers | ⟨other, hother, hmem⟩ | hwrite
  · exact .inl (.inl hrefers)
  · rcases mem_or_eq_of_mem_set hother with hother | rfl
    · exact .inl (.inr (.inl ⟨other, hother, hmem⟩))
    · exact (hpassed objectId hmem).imp_left fun hmem => .inr (.inl ⟨check, mem_of_getElem? hi, hmem⟩)
  · exact .inl (.inr (.inr hwrite))

/-! ### Deletes and collections -/

/-- The files of an object that is not needed are removed. -/
theorem Inv.removeFiles (h : Inv schema base s) (hfree : StoreFree s)
    (hindex : t.index = s.index) (hchecks : t.checks = s.checks)
    (hfiles : t.files = s.files.erase objectId)
    (hmetadata : t.metadata = s.metadata) (hdoomed : ∀ id, Doomed t id → Doomed s id)
    (hobject : Doomed s objectId)
    (hremoving : ∀ id, Removing t id ↔ id = objectId) : Inv schema base t := by
  refine h.removals hindex hchecks (fun id hid => .inl (hdoomed id hid)) (fun id hid => ?_) (fun id hid => ?_)
    fun id hid => ?_
  · by_cases he : id = objectId
    · exact .inr (he ▸ hobject)
    · rw [Stored, hfiles, hmetadata]
      exact .inl ⟨by simpa [ExtTreeSet.mem_erase, Ne.symm he] using hid.1, hid.2⟩
  · rw [hremoving] at hid
    rw [hfiles, hmetadata, ← h.same id (not_removing_of_free hfree id)]
    simp [ExtTreeSet.mem_erase, Ne.symm hid]
  · rw [hfiles, (hremoving id).mp hid]
    simp [ExtTreeSet.mem_erase]

/-- The store forgets an object whose files are removed. -/
theorem Inv.removeMetadata (h : Inv schema base s) (hobject : Removing s objectId)
    (hindex : t.index = s.index)
    (hchecks : t.checks = s.checks) (hfiles : t.files = s.files)
    (hmetadata : t.metadata = s.metadata.erase objectId)
    (hdoomed : ∀ id, Doomed t id → Doomed s id) (hremoving : ∀ id, Removing t id → Removing s id)
    (hothers : ∀ id, id ≠ objectId → Removing s id → Removing t id) : Inv schema base t := by
  refine h.removals hindex hchecks (fun id hid => .inl (hdoomed id hid)) (fun id hid => ?_) (fun id hid => ?_)
    fun id hid => hfiles ▸ h.removed id (hremoving id hid)
  · by_cases he : id = objectId
    · exact .inr (he ▸ doomed_of_removing hobject)
    · rw [Stored, hfiles, hmetadata]
      exact .inl ⟨hid.1, by simpa [mem_erase, Ne.symm he] using hid.2⟩
  · rw [hfiles, hmetadata, mem_erase]
    by_cases he : id = objectId
    · subst he
      simp [h.removed id hobject]
    · rw [h.same id fun hs => hid (hothers id he hs)]
      simp [Ne.symm he]

theorem doomed_setDeletion (h : Doomed (s.setDeletion i deletion phase) objectId) :
    Doomed s objectId ∨ Deletion.Removes { deletion with phase } objectId := by
  rcases h with ⟨other, hother, hremoves⟩ | hsweep
  · rcases mem_or_eq_of_mem_set hother with hother | rfl
    · exact .inl (.inl ⟨other, hother, hremoves⟩)
    · exact .inr hremoves
  · exact .inl (.inr hsweep)

theorem doomed_setSweep {i : Nat} {sweep : Sweep}
    {phase : SweepPhase} {objectId : String} (h : Doomed (s.setSweep i sweep phase) objectId) :
    Doomed s objectId ∨ Sweep.Removes { sweep with phase } objectId := by
  rcases h with hdeletion | ⟨other, hother, hremoves⟩
  · exact .inl (.inl hdeletion)
  · rcases mem_or_eq_of_mem_set hother with hother | rfl
    · exact .inl (.inr ⟨other, hother, hremoves⟩)
    · exact .inr hremoves

/-- A delete goes on and leaves the store as it is. -/
theorem Inv.setDeletion (h : Inv schema base s) (hi : s.deletions[i]? = some deletion)
    (hold : deletion.phase ≠ .filesRemoved) (hnew : phase ≠ .filesRemoved) (hremoves : ∀ objectId,
    Deletion.Removes { deletion with phase } objectId → deletion.Removes objectId ∨
      ¬ Needed schema s objectId) :
    Inv schema base (s.setDeletion i deletion phase) := by
  have hremoving : Removing (s.setDeletion i deletion phase) = Removing s := by
    funext objectId
    have hset := @exists_mem_set_iff _ s.deletions i { deletion with phase } deletion
      (fun deletion => deletion.phase = .filesRemoved ∧ deletion.objectId = objectId) False hi (by simp [hold, hnew])
    exact congrArg₂ Or (propext (hset.trans (Iff.of_eq (or_false _)))) rfl
  refine h.removals rfl rfl (fun objectId hd => ?_) (fun objectId hs => .inl hs) (hremoving ▸ h.same)
    (hremoving ▸ h.removed)
  rcases doomed_setDeletion hd with hd | hd
  · exact .inl hd
  · exact (hremoves objectId hd).imp_left fun hr => .inl ⟨deletion, mem_of_getElem? hi, hr⟩

/-- A collection goes on and leaves the store as it is. -/
theorem Inv.setSweep (h : Inv schema base s) {phase : SweepPhase} (hi : s.sweeps[i]? = some sweep)
    (hold : sweep.removing = false) (hnew : Sweep.removing { sweep with phase } = false)
    (hremoves : ∀ objectId,
    Sweep.Removes { sweep with phase } objectId → sweep.Removes objectId ∨
      ¬ Needed schema s objectId) :
    Inv schema base (s.setSweep i sweep phase) := by
  have hnot : ∀ sweep : Sweep, sweep.removing = false →
    ∀ objectId ids rest, sweep.phase ≠ .filesRemoved objectId ids rest := by
    intro sweep hfalse objectId ids rest hphase
    simp [Sweep.removing, hphase] at hfalse
  have hremoving : Removing (s.setSweep i sweep phase) = Removing s := by
    funext objectId
    have hset := @exists_mem_set_iff _ s.sweeps i { sweep with phase } sweep (fun sweep => ∃ ids rest,
      sweep.phase = .filesRemoved objectId ids rest) False hi (by simp [hnot sweep hold, hnot _ hnew])
    exact congrArg₂ Or rfl (propext (hset.trans (Iff.of_eq (or_false _))))
  refine h.removals rfl rfl (fun objectId hd => ?_) (fun objectId hs => .inl hs) (hremoving ▸ h.same)
    (hremoving ▸ h.removed)
  rcases doomed_setSweep hd with hd | hd
  · exact .inl hd
  · exact (hremoves objectId hd).imp_left fun hr => .inr ⟨sweep, mem_of_getElem? hi, hr⟩

theorem Inv.addDeletion (h : Inv schema base s) (objectId : String) :
    Inv schema base { s with deletions := s.deletions ++ [⟨objectId, .started⟩] } := by
  have hdoomed : ∀ id, Doomed { s with deletions := s.deletions ++ [⟨objectId, .started⟩] } id → Doomed s id := by
    rintro id (⟨deletion, hmem, hremoves⟩ | hsweep)
    · rcases mem_append.mp hmem with hmem | hmem
      · exact .inl ⟨deletion, hmem, hremoves⟩
      · rw [mem_singleton.mp hmem] at hremoves
        exact hremoves.2.elim
    · exact .inr hsweep
  have hremoving : Removing { s with deletions := s.deletions ++ [⟨objectId, .started⟩] } = Removing s := by
    funext id
    simp [Removing, or_and_right, exists_or]
  exact h.removals rfl rfl (fun id hd => .inl (hdoomed id hd)) (fun id hs => .inl hs) (hremoving ▸ h.same)
    (hremoving ▸ h.removed)

theorem Inv.addSweep (h : Inv schema base s) (dryRun force : Bool) (graceMs now : Nat) :
    Inv schema base { s with sweeps := s.sweeps ++ [⟨dryRun, force, graceMs, now, .started⟩] } := by
  have hdoomed : ∀ id, Doomed { s with sweeps := s.sweeps ++ [⟨dryRun, force, graceMs, now, .started⟩] } id →
      Doomed s id := by
    rintro id (hdeletion | ⟨sweep, hmem, hremoves⟩)
    · exact .inl hdeletion
    · rcases mem_append.mp hmem with hmem | hmem
      · exact .inr ⟨sweep, hmem, hremoves⟩
      · rw [mem_singleton.mp hmem] at hremoves
        exact hremoves.elim
  have hremoving :
      Removing { s with sweeps := s.sweeps ++ [⟨dryRun, force, graceMs, now, .started⟩] } =
      Removing s := by
    funext id
    simp [Removing, or_and_right, exists_or]
  exact h.removals rfl rfl (fun id hd => .inl (hdoomed id hd)) (fun id hs => .inl hs) (hremoving ▸ h.same)
    (hremoving ▸ h.removed)

theorem not_needed_of_read (hrefs : objectId ∉ s.index.refs.refs)
    (hflight : ¬ InFlight schema s objectId) :
    ¬ Needed schema s objectId := by
  rintro (⟨source, sources, hget, -⟩ | hin)
  · exact hrefs (mem_iff_isSome_getElem?.mpr (by rw [hget]; rfl))
  · exact hflight hin

section
variable (h : Inv schema base s)
include h

theorem Inv.deletionFiles {w : Nat} (hi : s.deletions[i]? = some deletion)
    (hphase : deletion.phase = .logging w) (hfree : StoreFree s) :
    Inv schema base ((s.setDeletion i deletion .filesRemoved).removeFiles deletion.objectId) := by
  have hremoves : deletion.Removes deletion.objectId := ⟨rfl, by rw [hphase]; trivial⟩
  have hobject : Doomed s deletion.objectId := .inl ⟨deletion, mem_of_getElem? hi, hremoves⟩
  refine h.removeFiles hfree rfl rfl rfl rfl (fun id hd => ?_) hobject fun id => ?_
  · rcases doomed_setDeletion hd with hd | hd
    · exact hd
    · exact hd.1 ▸ hobject
  · have hset := @exists_mem_set_iff _ s.deletions i { deletion with phase := .filesRemoved } deletion (fun deletion =>
      deletion.phase = .filesRemoved ∧ deletion.objectId = id) (deletion.objectId = id) hi (by simp [hphase])
    have hnone := not_removing_of_free hfree id
    show (∃ deletion ∈ s.deletions.set i _, _) ∨ (∃ sweep ∈ s.sweeps, _) ↔ _
    rw [hset]
    constructor
    · rintro ((hr | he) | hr)
      · exact absurd (.inl hr) hnone
      · exact he.symm
      · exact absurd (.inr hr) hnone
    · exact fun he => .inl (.inr he.symm)

theorem Inv.deletionMetadata (hi : s.deletions[i]? = some deletion)
    (hphase : deletion.phase = .filesRemoved) :
    Inv schema base ((s.setDeletion i deletion .ended).removeMetadata deletion.objectId) := by
  have hobject : Removing s deletion.objectId := .inl ⟨deletion, mem_of_getElem? hi, hphase, rfl⟩
  refine h.removeMetadata hobject rfl rfl rfl rfl (fun id hd => ?_) (fun id hr => ?_) fun id he hr => ?_
  · rcases doomed_setDeletion hd with hd | hd
    · exact hd
    · exact hd.2.elim
  · rcases hr with ⟨other, hother, hremoving⟩ | hsweep
    · rcases mem_or_eq_of_mem_set hother with hother | rfl
      · exact .inl ⟨other, hother, hremoving⟩
      · cases hremoving.1
    · exact .inr hsweep
  · have hset := @exists_mem_set_iff _ s.deletions i { deletion with phase := .ended } deletion (fun deletion =>
      deletion.phase = .filesRemoved ∧ deletion.objectId = id) False hi (by simp [Ne.symm he])
    exact hr.imp_left fun hdeletion => hset.mpr (.inl hdeletion)

theorem Inv.sweepFiles {i : Nat}
    {sweep : Sweep} {ids : List String} {object : String × Nat} {rest : List (String × Nat)}
    (hi : s.sweeps[i]? = some sweep) (hphase : sweep.phase = .sweeping ids (object :: rest))
    (hdeletes : sweep.deletes ids object = true) (hfree : StoreFree s) :
    Inv schema base ((s.setSweep i sweep (.filesRemoved object.1 ids rest)).removeFiles object.1) := by
  have hremoves : ∀ id, Sweep.Removes { sweep with phase := .filesRemoved object.1 ids rest } id →
    sweep.Removes id := by
    intro id hr
    rw [Sweep.Removes, hphase]
    rcases hr with rfl | ⟨other, hother, hr⟩
    · exact ⟨object, mem_cons_self, rfl, hdeletes⟩
    · exact ⟨other, mem_cons_of_mem _ hother, hr⟩
  have hdoomed : ∀ id, sweep.Removes id → Doomed s id := fun id hr => .inr ⟨sweep, mem_of_getElem? hi, hr⟩
  refine h.removeFiles hfree rfl rfl rfl rfl (fun id hd => ?_) (hdoomed _ (hremoves _ (.inl rfl))) fun id => ?_
  · rcases @doomed_setSweep s i sweep (.filesRemoved object.1 ids rest) id hd with hd | hr
    · exact hd
    · exact hdoomed id (hremoves id hr)
  · have hset := @exists_mem_set_iff _ s.sweeps i { sweep with phase := .filesRemoved object.1 ids rest } sweep
      (fun sweep => ∃ ids rest, sweep.phase = .filesRemoved id ids rest) (object.1 = id) hi (by simp [hphase])
    have hnone := not_removing_of_free hfree id
    show (∃ deletion ∈ s.deletions, _) ∨ (∃ sweep ∈ s.sweeps.set i _, _) ↔ _
    rw [hset]
    constructor
    · rintro (hr | hr | he)
      · exact absurd (.inl hr) hnone
      · exact absurd (.inr hr) hnone
      · exact he.symm
    · exact fun he => .inr (.inr he.symm)

theorem Inv.sweepMetadata {i : Nat} {objectId : String} {rest : List (String × Nat)}
    (hi : s.sweeps[i]? = some sweep) (hphase : sweep.phase = .filesRemoved objectId ids rest) :
    Inv schema base ((s.setSweep i sweep (.sweeping ids rest)).removeMetadata objectId) := by
  have hobject : Removing s objectId := .inr ⟨sweep, mem_of_getElem? hi, ids, rest, hphase⟩
  refine h.removeMetadata hobject rfl rfl rfl rfl (fun id hd => ?_) (fun id hr => ?_) fun id he hr => ?_
  · rcases @doomed_setSweep s i sweep (.sweeping ids rest) id hd with hd | hr
    · exact hd
    · refine .inr ⟨sweep, mem_of_getElem? hi, ?_⟩
      rw [Sweep.Removes, hphase]
      exact .inr hr
  · rcases hr with hdeletion | ⟨other, hother, ids', rest', hremoving⟩
    · exact .inl hdeletion
    · rcases mem_or_eq_of_mem_set hother with hother | rfl
      · exact .inr ⟨other, hother, ids', rest', hremoving⟩
      · cases hremoving
  · have hset := @exists_mem_set_iff _ s.sweeps i { sweep with phase := .sweeping ids rest } sweep
      (fun sweep => ∃ ids rest, sweep.phase = .filesRemoved id ids rest) False hi (by simp [hphase, Ne.symm he])
    exact hr.imp_right fun hsweep => hset.mpr (.inl hsweep)

theorem Inv.put (hfree : StoreFree s) (objectId : String) (createdAtMs : Nat) : Inv schema base
    { s with files := s.files.insert objectId, metadata := s.metadata.insert objectId createdAtMs } := by
  refine h.removals rfl rfl (fun id hd => .inl hd) (fun id hs => .inl ?_) (fun id hid => ?_)
    fun id hid => absurd hid (not_removing_of_free hfree id)
  · exact ⟨ExtTreeSet.mem_insert.mpr (.inr hs.1), mem_insert.mpr (.inr hs.2)⟩
  · show id ∈ s.files.insert objectId ↔ id ∈ s.metadata.insert objectId createdAtMs
    rw [ExtTreeSet.mem_insert, mem_insert, h.same id hid]

theorem Inv.checkObject {i : Nat} {passed rest : List String} {objectId : String}
    (hi : s.checks[i]? = some check)
    (hphase : check.phase = .checking passed (objectId :: rest))
    (hexists : s.metadataExists objectId)
    (hdoomed : ¬ Doomed s objectId) :
    Inv schema base (s.setCheck i check (.checking (passed ++ [objectId]) rest)) := by
  have hcheck := h.checks check (mem_of_getElem? hi)
  refine h.setCheck hi ⟨hcheck.checked, hcheck.reads, ?_⟩ fun id hid => ?_
  · rintro passed' rest' he
    cases he
    rw [append_assoc]
    exact hcheck.ids passed (objectId :: rest) hphase
  · rcases mem_append.mp hid with hid | hid
    · exact .inl (by simpa [Check.passed, hphase] using hid)
    · rw [mem_singleton.mp hid]
      have hsame := h.same objectId fun hr => hdoomed (doomed_of_removing hr)
      refine .inr ⟨hdoomed, ?_⟩
      rcases hexists with hm | hf
      · exact ⟨hsame.mpr hm, hm⟩
      · exact ⟨hf, hsame.mp hf⟩

theorem Inv.addCheck (hchecked : request.Checked schema) (hreads : ReadsAsChecked schema request)
    (hids : requestObjectIds schema request = .ok ids) :
    Inv schema base { s with checks := s.checks ++ [⟨request, shard, .checking [] ids⟩] } := by
  refine h.writes h.index rfl rfl rfl rfl (fun check hcheck => ?_) h.reads fun objectId hneeded => .inl ?_
  · rcases mem_append.mp hcheck with hcheck | hcheck
    · exact h.checks check hcheck
    · rw [mem_singleton.mp hcheck]
      refine ⟨hchecked, hreads, ?_⟩
      rintro passed rest he
      cases he
      exact hids
  · rcases hneeded with hrefers | ⟨check, hcheck, hmem⟩ | hwrite
    · exact .inl hrefers
    · rcases mem_append.mp hcheck with hcheck | hcheck
      · exact .inr (.inl ⟨check, hcheck, hmem⟩)
      · rw [mem_singleton.mp hcheck] at hmem
        cases hmem
    · exact .inr (.inr hwrite)

theorem Inv.endCheck (hi : s.checks[i]? = some check) :
    Inv schema base (s.setCheck i check .ended) := by
  have hcheck := h.checks check (mem_of_getElem? hi)
  exact h.setCheck hi ⟨hcheck.checked, hcheck.reads, nofun⟩
    nofun

end

theorem deletes_of_referenced {object : String × Nat} (h : sweep.deletes ids object = true) :
    sweep.dryRun = false ∧ object.1 ∉ ids := by
  simp only [Sweep.deletes, Bool.and_eq_true, Bool.not_eq_true'] at h
  exact ⟨h.2, by simpa using h.1.1⟩

theorem Inv.step {e : GcEvent} (h : Inv schema base s) (hapart : Apart schema s e)
    (hstep : GcStep schema s e t) :
    Inv schema base t := by
  cases hstep with
  | put hfree => exact h.put hfree _ _
  | check hchecked hids _ => exact h.addCheck hchecked hapart hids
  | checkObject hi hphase hexists => exact h.checkObject hi hphase hexists (hapart _ _ _ _ hi hphase)
  | refuse hi => exact h.endCheck hi
  | @submit i check passed index hi hphase hindex =>
    have hcheck := h.checks check (mem_of_getElem? hi)
    have hids := hcheck.ids passed [] hphase
    rw [append_nil] at hids
    have hrequested := h.requested hindex hcheck.reads ⟨passed, hids, fun objectId hmem =>
      .inl ⟨check, mem_of_getElem? hi, by simpa [Check.passed, hphase] using hmem⟩⟩
    exact hrequested.endCheck hi
  | index he hindex => exact h.indexed hindex he hapart
  | delete _ => exact h.addDeletion _
  | find hi hphase _ =>
    exact h.setDeletion hi (by simp [hphase]) (by decide) fun objectId hr => hr.2.elim
  | @decide i deletion hi hphase hnone =>
    refine h.setDeletion hi (by simp [hphase]) (by decide) fun objectId hr => .inr ?_
    rw [← hr.1]
    refine not_needed_of_read (fun hmem => ?_) (hapart deletion hi)
    simpa [hnone] using mem_iff_isSome_getElem?.mp hmem
  | @logDeletion i deletion shard deletedAtMs clientMutationId index hi hphase hindex =>
    have hrequested := h.requested hindex nofun ⟨[], rfl, nofun⟩
    exact hrequested.setDeletion hi (by simp [hphase]) (by simp) fun objectId hr => .inl ⟨hr.1, by rw [hphase]; trivial⟩
  | removeFiles hi hphase _ _ hfree => exact h.deletionFiles hi hphase hfree
  | removeMetadata hi hphase => exact h.deletionMetadata hi hphase
  | endDeletion hi hremoving =>
    exact h.setDeletion hi (by simpa [Deletion.removing] using hremoving) (by decide) fun objectId hr => hr.2.elim
  | gc => exact h.addSweep _ _ _ _
  | @readReferenced i sweep hi hphase =>
    refine h.setSweep hi (by simp [Sweep.removing, hphase]) rfl fun objectId hr => .inr ?_
    have hnot : objectId ∉ s.index.refs.refs := fun hmem => hr.2 (mem_keys.mpr hmem)
    exact not_needed_of_read hnot fun hflight => hnot (hapart sweep hi hr.1 objectId hflight)
  | @list i sweep ids hi hphase =>
    refine h.setSweep hi (by simp [Sweep.removing, hphase]) rfl fun objectId hr => .inl ?_
    obtain ⟨object, -, rfl, hdeletes⟩ := hr
    rw [Sweep.Removes, hphase]
    exact deletes_of_referenced hdeletes
  | skip hi hphase _ =>
    refine h.setSweep hi (by simp [Sweep.removing, hphase]) rfl fun objectId hr => .inl ?_
    obtain ⟨object, hobject, hr⟩ := hr
    rw [Sweep.Removes, hphase]
    exact ⟨object, mem_cons_of_mem _ hobject, hr⟩
  | sweepFiles hi hphase hdeletes hfree => exact h.sweepFiles hi hphase hdeletes hfree
  | sweepMetadata hi hphase => exact h.sweepMetadata hi hphase

theorem Inv.needed_of_logged (h : Inv schema base s) {source : String}
    (hrefers : LogRefers schema s.index.Logged source objectId) : Needed schema s objectId := by
  have hlogged : s.index.Logged = fun r => Indexed base s.index r ∨ ∃ write ∈ s.index.writes, pending write ∧
      r ∈ write.loggedRecords := by
    funext r
    rw [h.index.logged, Indexed, or_assoc]
    refine congrArg _ (propext ⟨?_, ?_⟩)
    · rintro ⟨write, hwrite, hr⟩
      cases hphase : write.phase with
      | indexed records =>
        exact .inl ⟨write, hwrite, by simpa [Write.loggedRecords, Write.indexedRecords, hphase] using hr⟩
      | appended records => exact .inr ⟨write, hwrite, by simp [pending, hphase], hr⟩
      | _ => simp [Write.loggedRecords, hphase] at hr
    · rintro (⟨write, hwrite, hr⟩ | ⟨write, hwrite, -, hr⟩)
      · refine ⟨write, hwrite, ?_⟩
        cases hphase : write.phase with
        | indexed records => simpa [Write.loggedRecords, Write.indexedRecords, hphase] using hr
        | _ => simp [Write.indexedRecords, hphase] at hr
      · exact ⟨write, hwrite, hr⟩
  rw [hlogged] at hrefers
  rcases hrefers.of_add with hrefers | ⟨r, ⟨write, hwrite, hpending, hr⟩, hnames⟩
  · exact .inl ⟨source, (h.index.refers _ _).mpr hrefers⟩
  · have hrecords : r ∈ write.records := by
      unfold Write.loggedRecords at hr
      unfold Write.records
      split at hr <;> simp_all
    exact .inr (.inr ⟨write, hwrite, hpending,
      checked_of_names (h.index.made write hwrite) (h.reads write hwrite) hrecords hnames⟩)

end Invariant

/-- A server that has loaded the index from its log and stores what the log refers to. -/
structure Started (s : ServerState) : Prop where
  index : ObjectRefIndex.Started schema s.index
  idle : s.checks = [] ∧ s.deletions = [] ∧ s.sweeps = []
  stored : ∀ source objectId, s.index.refs.Refers source objectId → objectId ∈ s.files
  same : ∀ objectId, objectId ∈ s.files ↔ objectId ∈ s.metadata

theorem Started.inv {schema : DatabaseSchema} {s : ServerState} (h : Started schema s) :
    Inv schema s.index.Logged s := by
  have hindex := h.index.inv
  have hremoving : ∀ objectId, ¬ Removing s objectId := fun objectId => by simp [Removing, h.idle]
  refine ⟨hindex, by simp [h.idle], by simp [h.index.idle], fun objectId hneeded => ?_, fun objectId hd => ?_,
    fun objectId _ => h.same objectId, fun objectId hr => absurd hr (hremoving objectId)⟩
  · rcases hneeded with ⟨source, hrefers⟩ | hflight
    · have hfile := h.stored source objectId hrefers
      exact ⟨hfile, (h.same objectId).mp hfile⟩
    · simp [InFlight, h.idle, h.index.idle] at hflight
  · simp [Doomed, h.idle] at hd

/-- What the messages and live records of the log refer to is stored. -/
theorem referenced_stored {schema : DatabaseSchema} {s t : ServerState} (hs : Started schema s)
    (hrun : Reaches (GcStep schema) (Apart schema) s t) :
    (∀ message ∈ messagesFromWalRecords t.index.walRecords,
    ∀ objectId ∈ messageObjectIds message, Stored t objectId) ∧
    ∀ record ∈ recordsFromWalRecords t.index.walRecords,
    ∀ objectId, RecordRefers schema record objectId → Stored t objectId := by
  have h : Inv schema s.index.Logged t := hrun.invariant (fun _ _ _ h hapart hstep => h.step hapart hstep) hs.inv
  have hlog : (· ∈ t.index.walRecords) = t.index.Logged := funext fun r => propext h.index.mem_walRecords
  have hstored : ∀ source objectId, LogRefers schema t.index.Logged source objectId → Stored t objectId :=
    fun source objectId hrefers => h.stored objectId (h.needed_of_logged hrefers)
  constructor
  · intro message hmessage objectId hobject
    obtain ⟨r, hr, hm⟩ := mem_messagesFromWalRecords.mp hmessage
    exact hstored message.path objectId (.inl ⟨r, message, h.index.mem_walRecords.mp hr, hm, rfl, hobject⟩)
  · intro record hrecord objectId hobject
    have hlive := (mem_recordsFromWalRecords (readRecordsFromWalPaths_ascending _)).mp hrecord
    rw [show (· ∈ readRecordsFromWalPaths t.index.files) = t.index.Logged from hlog] at hlive
    exact hstored record.path objectId (.inr ⟨record, hlive, hobject⟩)

section Sample

def attached : MessageDraft :=
  ⟨"m", none, "r", "u", "hello", [⟨"o", "objects/o", "text/plain", 1, "00"⟩], 0, "rooms/r/messages/m"⟩

def attachment : WriteRequest := .sendMessages [attached]

def messageRecord : WalRecord := stampRecord RecordCommit.postStamp 1 1 (.messageCreated attached)

/-- A server that stores one object. -/
def storing : ServerState :=
  ⟨⟨0, [([], [])], ⟨∅⟩, []⟩, ExtTreeSet.empty.insert "o", ExtTreeMap.empty.insert "o" 0, [], [], []⟩

theorem storing_started : Started postsCurrent storing where
  index :=
    { idle := rfl
      distinct := by simp [storing, ObjectRefIndex.ServerState.Logged]
      bound := by simp [storing, ObjectRefIndex.ServerState.Logged]
      named := by simp [storing, ObjectRefIndex.ServerState.Logged]
      loaded := rfl }
  idle := ⟨rfl, rfl, rfl⟩
  stored := by simp [storing]
  same := by simp [storing]

theorem attachment_checked : attachment.Checked postsCurrent := by
  intro message hmessage
  rw [mem_singleton.mp hmessage]
  decide +kernel

/-- The message is on its way. -/
def sending (phase : WritePhase) (nextLsn : Nat) (active : List WalRecord) (refs : RefState) :
    ServerState :=
  { storing with
    index := ⟨nextLsn, [([], active)], refs, [⟨attachment, 0, phase⟩]⟩
    checks := [⟨attachment, 0, .ended⟩] }

theorem reaches_submitted :
    Reaches (GcStep postsCurrent) (Apart postsCurrent) storing (sending .prepared 0 [] ⟨∅⟩) := by
  have h₁ := (@Reaches.refl _ _ (GcStep postsCurrent) (Apart postsCurrent) storing).take
    (e := GcEvent.check attachment 0) (.check attachment_checked rfl Nat.one_pos)
    nofun
  have h₂ := h₁.take (e := .checkObject 0) (.checkObject rfl rfl (.inr (by simp [storing]))) (by
    intro check passed objectId rest _ _
    simp [Doomed, storing])
  have h₃ := h₂.take (e := .submit 0) (.submit rfl rfl (.request attachment_checked Nat.one_pos)) (by trivial)
  exact h₃

def logs : IndexEvent → Bool
  | .lock _ | .allocate _ _ | .enqueue _ | .append _ => true
  | _ => false

theorem apart_of_logs {schema : DatabaseSchema} (s : ServerState) (e : IndexEvent)
    (h : logs e = true) :
    Apart schema s (.index e) := by
  cases e with
  | lock _ | allocate _ _ | enqueue _ | append _ => trivial
  | request _ _ | index _ | rejectIndex _ | fail _ _ => cases h

/-- The log takes the message, whatever else the server does. -/
theorem reaches_appended (store : ServerState) {meets : ServerState → GcEvent → Prop}
    (hmeets : ∀ s e, logs e = true → meets s (.index e)) (h : Reaches
    (GcStep postsCurrent) meets storing { store with index := ⟨0, [([], [])], ⟨∅⟩,
      [⟨attachment, 0, .prepared⟩]⟩ }) :
    Reaches (GcStep postsCurrent) meets storing
    { store with index := ⟨1, [([], [messageRecord])], ⟨∅⟩, [⟨attachment, 0,
    .appended [messageRecord]⟩]⟩ } := by
  have h₁ := h.take (e := .index (.lock 0))
    (.index (by simp) (.lock rfl rfl (by simp [Write.holdsLock]))) (hmeets _ _ rfl)
  have h₂ := h₁.take (e := .index (.allocate 0 RecordCommit.postStamp)) (.index (by simp) (.allocate rfl rfl rfl rfl))
    (hmeets _ _ rfl)
  have h₃ := h₂.take (e := .index (.enqueue 0)) (.index (by simp) (.enqueue rfl rfl rfl)) (hmeets _ _ rfl)
  have h₄ := h₃.take (e := .index (.append 0)) (.index (by simp)
    (.append rfl rfl (by simp [FirstInQueue, Write.queued, ObjectRefIndex.ServerState.setPhase]))) (hmeets _ _ rfl)
  exact h₄

def sent : ServerState := sending (.appended [messageRecord]) 1 [messageRecord] ⟨∅⟩

/-- The message is indexed, another object is stored, and a collection removes what nothing refers
to. -/
def collecting (files : BTreeSet String) (metadata : BTreeMap String Nat) (phase : SweepPhase) :
    ServerState :=
  { sending (.indexed [messageRecord]) 1 [messageRecord] (.retain ⟨∅⟩ "rooms/r/messages/m" "o") with
    files, metadata
    sweeps := [⟨false, false, 0, 0, phase⟩] }

def kept : ServerState :=
  collecting ((storing.files.insert "p").erase "p") ((storing.metadata.insert "p" 0).erase "p") (.sweeping ["o"] [])

theorem reaches_kept : Reaches (GcStep postsCurrent) (Apart postsCurrent) storing kept := by
  have h₀ : Reaches (GcStep postsCurrent) (Apart postsCurrent) storing sent :=
    reaches_appended (sending .prepared 0 [] ⟨∅⟩) apart_of_logs reaches_submitted
  have hrefs : [messageRecord].foldlM (updateFor postsCurrent) ⟨∅⟩ =
      .ok (.retain ⟨∅⟩ "rooms/r/messages/m" "o") := eq_ok_of_toOption (by decide +kernel)
  have horder : InOrder postsCurrent sent.index (.index 0) :=
    inOrder_index rfl (by simp [sent, sending, Write.indexedRecords])
  have h₁ := h₀.take (e := .index (.index 0)) (.index (by simp) (.index rfl rfl hrefs)) (by exact horder)
  have h₂ := h₁.take (e := .put "p" 0) (.put (by simp [StoreFree, sent, sending, storing])) (by trivial)
  have h₃ := h₂.take (e := .gc false false 0 0) .gc (by trivial)
  replace h₃ : Reaches _ _ storing
    (collecting (storing.files.insert "p") (storing.metadata.insert "p" 0) .started) := h₃
  have h₄ := h₃.take (e := .readReferenced 0) (.readReferenced rfl rfl) (by
    intro sweep _ _ objectId hflight
    simp [InFlight, collecting, sending, pending, Check.passed] at hflight)
  have hreferenced : (RefState.retain ⟨∅⟩ "rooms/r/messages/m" "o").refs.keys = ["o"] := by decide +kernel
  have hobjects : (storing.metadata.insert "p" 0).toList = [("o", 0), ("p", 0)] := by decide +kernel
  have h₅ := h₄.take (e := .list 0) (.list rfl (congrArg _ hreferenced)) (by trivial)
  have h₆ := h₅.take (e := .skip 0) (.skip rfl (congrArg _ hobjects) rfl) (by trivial)
  replace h₆ : Reaches _ _ storing (collecting (storing.files.insert "p") (storing.metadata.insert "p" 0)
    (.sweeping ["o"] [("p", 0)])) := h₆
  have h₇ := h₆.take (e := .sweepFiles 0)
    (.sweepFiles rfl rfl (by decide) (by simp [StoreFree, collecting, sending, storing, Sweep.removing])) (by trivial)
  have h₈ := h₇.take (e := .sweepMetadata 0) (.sweepMetadata rfl rfl) (by trivial)
  exact h₈

theorem referenced_stored_sample : (∀ message ∈ messagesFromWalRecords kept.index.walRecords,
    ∀ objectId ∈ messageObjectIds message, Stored kept objectId) ∧
    ∀ record ∈ recordsFromWalRecords kept.index.walRecords, ∀ objectId,
    RecordRefers postsCurrent record objectId →
    Stored kept objectId :=
  referenced_stored storing_started reaches_kept

/-- A collection reads the references before the message is indexed, and removes its attachment. -/
def swept : ServerState :=
  { sent with
    files := storing.files.erase "o"
    metadata := storing.metadata.erase "o"
    sweeps := [⟨false, true, 0, 0, .sweeping [] []⟩] }

theorem reaches_swept : Reaches (GcStep postsCurrent) (fun _ _ => True) storing swept := by
  have h₀ : Reaches (GcStep postsCurrent) (fun _ _ => True) storing _ := reaches_submitted.weaken fun _ _ _ => trivial
  have h₁ := h₀.take (e := .gc false true 0 0) .gc trivial
  have h₂ := h₁.take (e := .readReferenced 0) (.readReferenced rfl rfl) (by trivial)
  have h₃ := h₂.take (e := .list 0) (.list rfl rfl) (by trivial)
  have hobjects : storing.metadata.toList = [("o", 0)] := by decide +kernel
  have h₄ := h₃.take (e := .sweepFiles 0)
    (@GcStep.sweepFiles postsCurrent _ 0 ⟨false, true, 0, 0, .sweeping [] storing.metadata.toList⟩ [] ("o", 0) [] rfl
      (congrArg _ hobjects) (by decide) ⟨by simp [sending, storing, ServerState.setSweep], by
        simp [sending, storing, ServerState.setSweep, Sweep.removing]⟩) trivial
  have h₅ := h₄.take (e := .sweepMetadata 0) (.sweepMetadata rfl rfl) (by trivial)
  exact reaches_appended swept (fun _ _ _ => trivial) h₅

theorem referenced_removed : ¬ ∀ (schema : DatabaseSchema) (s t : ServerState), Started schema s →
    Reaches (GcStep schema) (fun _ _ => True) s t →
    (∀ message ∈ messagesFromWalRecords t.index.walRecords,
    ∀ objectId ∈ messageObjectIds message, Stored t objectId) ∧
    ∀ record ∈ recordsFromWalRecords t.index.walRecords,
    ∀ objectId, RecordRefers schema record objectId → Stored t objectId := by
  intro h
  have hstored := (h _ _ _ storing_started reaches_swept).1 (attached.intoMessage 1)
  have hmessage : messagesFromWalRecords swept.index.walRecords = [attached.intoMessage 1] := by decide +kernel
  have hfile := (hstored (by rw [hmessage]; exact mem_singleton.mpr rfl) "o" (by decide)).1
  exact absurd hfile (by simp [swept])

end Sample

end NextDb.Api.ObjectGc
