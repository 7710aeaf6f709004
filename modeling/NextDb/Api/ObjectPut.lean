import NextDb.Api.Mutation
import NextDb.Lib.BigEndian
import NextDb.Lib.Run

/-!
# Putting an object

A put looks for its client mutation and for the object's id, writes the body and the metadata under
the store's write lock, replicates them and appends the record; when one of the last two fails, it
deletes what it wrote.

* `object_stays_stored`: at most one put of an id commits until the id is deleted, and the object is
  that put's, in every run in which a put takes the write lock only while the id is still free, and
  a read puts metadata in the index only while the file still has it.
-/

namespace NextDb.Api.ObjectPut

open Run List Option Function

/-! ## The object store -/

inductive MetadataFile where
  /-- A write of the file came to no end. -/
  | torn
  | written (metadata : ObjectMetadata)

/-- How far a put has come. -/
inductive PutPhase where
  | started
  /-- The client mutation is new. -/
  | looked
  /-- The object's id is free. -/
  | checked
  | locked
  | blobWritten
  | metadataWritten (metadata : ObjectMetadata)
  /-- `put_with_id` returned. -/
  | stored (metadata : ObjectMetadata)
  | replicated (metadata : ObjectMetadata)
  | returned (metadata : ObjectMetadata)
  /-- The client mutation had been committed. -/
  | answered (object : ObjectMetadata)
  | rollingBack (metadata : ObjectMetadata)
  | rollbackLocked (metadata : ObjectMetadata)
  | blobRemoved
  | metadataRemoved
  | failed

/-- A call of `commit_object_put`. -/
structure PutCall where
  objectId : String
  contentType : String
  body : Bytes
  clientMutationId : Option String
  phase : PutPhase
  /-- The object was deleted after the put had returned. -/
  deletedSince : Bool

/-- The object store with its lock, and the calls that are on their way. -/
structure ServerState where
  blobs : String → Option Bytes
  metadataFiles : String → Option MetadataFile
  metadata : String → Option ObjectMetadata
  writeLock : Option Nat
  clientMutations : BTreeMap String CommittedMutation
  calls : List PutCall
  /-- What reads found in the files of objects that the index did not have, and have not put in it
  yet. -/
  loads : List (String × ObjectMetadata)

/-- `ObjectStore::metadata_exists`. -/
def ServerState.metadataExists (s : ServerState) (id : String) : Bool :=
  (s.metadata id).isSome || (s.metadataFiles id).isSome

/-- `ObjectStore::metadata`: the file is read when the index has no entry. -/
def ServerState.readMetadata (s : ServerState) (id : String) : Option ObjectMetadata :=
  match s.metadata id with
  | some metadata => some metadata
  | none =>
    match s.metadataFiles id with
    | some (.written metadata) => some metadata
    | _ => none

/-- An id of letters, digits, `-` and `_` is a path of one component unless it is empty. -/
def ensureSafeObjectId (id : String) : Bool :=
  !id.isEmpty && id.toList.all fun char => char.isAlphanum || char == '-' || char == '_'

/-- The limit and the digest of a store. -/
structure Config where
  maxObjectBytes : Nat
  sha256 : Bytes → Bytes

def Config.metadataOf (cfg : Config) (call : PutCall) (nowMs : Nat) : ObjectMetadata where
  id := call.objectId
  path := s!"objects/{call.objectId}"
  contentType := call.contentType
  byteSize := call.body.length
  sha256 := hexLower (cfg.sha256 call.body)
  createdAtMs := nowMs

def ServerState.setPhase (s : ServerState) (i : Nat) (call : PutCall) (phase : PutPhase) :
    ServerState :=
  { s with calls := s.calls.set i { call with phase } }

/-- A call that has returned before the object is deleted. -/
def PutCall.markDeleted (call : PutCall) (id : String) : PutCall :=
  match call.phase with
  | .returned _ => if call.objectId = id then { call with deletedSince := true } else call
  | _ => call

/-- A restart ends the calls that are on their way. -/
def PutCall.stop (call : PutCall) : PutCall :=
  match call.phase with
  | .returned _ | .answered _ => call
  | _ => { call with phase := .failed }

/-- The record's client mutation is remembered. -/
def noteMutation (clientMutations : BTreeMap String CommittedMutation)
    (clientMutationId : Option String)
    (metadata : ObjectMetadata) : BTreeMap String CommittedMutation :=
  match clientMutationId with
  | none => clientMutations
  | some clientMutationId => clientMutations.insert clientMutationId (.objectCommitted metadata)

/-- The steps of puts, deletions, reads and restarts. -/
inductive PutEvent where
  | call (objectId contentType : String) (body : Bytes) (clientMutationId : Option String)
  | look (i : Nat)
  | answer (i : Nat)
  | check (i : Nat)
  | lock (i : Nat)
  /-- A part of the body is written. -/
  | tearBlob (i length : Nat)
  | writeBlob (i : Nat)
  | tearMetadata (i : Nat)
  | writeMetadata (i nowMs : Nat)
  | insertMetadata (i : Nat)
  | replicate (i : Nat)
  /-- The record is appended, and the call returns. -/
  | commit (i : Nat)
  | failReplicate (i : Nat)
  | failAppend (i : Nat)
  | lockRollback (i : Nat)
  | removeBlob (i : Nat)
  | removeMetadataFile (i : Nat)
  | removeMetadata (i : Nat)
  /-- The call is refused, meets an I/O error, or its client is gone. -/
  | abandon (i : Nat)
  /-- `delete_object`, of a delete or of the garbage collection. -/
  | delete (id : String)
  /-- The metadata file of an object is read. -/
  | load (id : String)
  | insertLoaded (j : Nat)
  | restart

variable (cfg : Config)

/-- What each step does to the files, the index and the lock. -/
inductive PutStep : ServerState → PutEvent → ServerState → Prop where
  | call {s : ServerState} {objectId contentType body clientMutationId} :
    PutStep s (.call objectId contentType body clientMutationId)
      { s with calls := s.calls ++ [⟨objectId, contentType, body, clientMutationId, .started, false⟩] }
  | look {s : ServerState} {i call} : s.calls[i]? = some call → call.phase = .started →
    findCommittedMutation s.clientMutations call.clientMutationId = none →
    PutStep s (.look i) (s.setPhase i call .looked)
  | answer {s : ServerState} {i call object} : s.calls[i]? = some call → call.phase = .started →
    findCommittedMutation s.clientMutations call.clientMutationId = some (.objectCommitted object) →
    PutStep s (.answer i) (s.setPhase i call (.answered object))
  | check {s : ServerState} {i call} : s.calls[i]? = some call → call.phase = .looked →
    call.body.length ≤ cfg.maxObjectBytes → ensureSafeObjectId call.objectId = true →
    s.metadataExists call.objectId = false →
    PutStep s (.check i) (s.setPhase i call .checked)
  | lock {s : ServerState} {i call} : s.calls[i]? = some call → call.phase = .checked → s.writeLock = none →
    PutStep s (.lock i) { s.setPhase i call .locked with writeLock := some i }
  | tearBlob {s : ServerState} {i call length} : s.calls[i]? = some call → call.phase = .locked →
    PutStep s (.tearBlob i length)
      { s.setPhase i call .locked with
        blobs := Function.update s.blobs call.objectId (some (call.body.take length)) }
  | writeBlob {s : ServerState} {i call} : s.calls[i]? = some call → call.phase = .locked →
    PutStep s (.writeBlob i)
      { s.setPhase i call .blobWritten with blobs := Function.update s.blobs call.objectId (some call.body) }
  | tearMetadata {s : ServerState} {i call} : s.calls[i]? = some call → call.phase = .blobWritten →
    PutStep s (.tearMetadata i)
      { s.setPhase i call .blobWritten with
        metadataFiles := Function.update s.metadataFiles call.objectId (some .torn) }
  | writeMetadata {s : ServerState} {i call nowMs} : s.calls[i]? = some call → call.phase = .blobWritten →
    PutStep s (.writeMetadata i nowMs)
      { s.setPhase i call (.metadataWritten (cfg.metadataOf call nowMs)) with
        metadataFiles :=
          Function.update s.metadataFiles call.objectId (some (.written (cfg.metadataOf call nowMs))) }
  | insertMetadata {s : ServerState} {i call metadata} : s.calls[i]? = some call →
    call.phase = .metadataWritten metadata →
    PutStep s (.insertMetadata i)
      { s.setPhase i call (.stored metadata) with
        metadata := Function.update s.metadata call.objectId (some metadata)
        writeLock := none }
  | replicate {s : ServerState} {i call metadata} : s.calls[i]? = some call → call.phase = .stored metadata →
    PutStep s (.replicate i) (s.setPhase i call (.replicated metadata))
  | commit {s : ServerState} {i call metadata} : s.calls[i]? = some call → call.phase = .replicated metadata →
    PutStep s (.commit i)
      { s.setPhase i call (.returned metadata) with
        clientMutations := noteMutation s.clientMutations call.clientMutationId metadata }
  | failReplicate {s : ServerState} {i call metadata} : s.calls[i]? = some call → call.phase = .stored metadata →
    PutStep s (.failReplicate i) (s.setPhase i call (.rollingBack metadata))
  | failAppend {s : ServerState} {i call metadata} : s.calls[i]? = some call → call.phase = .replicated metadata →
    PutStep s (.failAppend i) (s.setPhase i call (.rollingBack metadata))
  | lockRollback {s : ServerState} {i call metadata} : s.calls[i]? = some call →
    call.phase = .rollingBack metadata → s.writeLock = none →
    PutStep s (.lockRollback i) { s.setPhase i call (.rollbackLocked metadata) with writeLock := some i }
  | removeBlob {s : ServerState} {i call metadata} : s.calls[i]? = some call →
    call.phase = .rollbackLocked metadata →
    PutStep s (.removeBlob i)
      { s.setPhase i call .blobRemoved with blobs := Function.update s.blobs call.objectId none }
  | removeMetadataFile {s : ServerState} {i call} : s.calls[i]? = some call → call.phase = .blobRemoved →
    PutStep s (.removeMetadataFile i)
      { s.setPhase i call .metadataRemoved with
        metadataFiles := Function.update s.metadataFiles call.objectId none }
  | removeMetadata {s : ServerState} {i call} : s.calls[i]? = some call → call.phase = .metadataRemoved →
    PutStep s (.removeMetadata i)
      { s.setPhase i call .failed with
        metadata := Function.update s.metadata call.objectId none
        writeLock := none }
  | abandon {s : ServerState} {i call} : s.calls[i]? = some call → (∀ metadata, call.phase ≠ .returned metadata) →
    PutStep s (.abandon i)
      { s.setPhase i call .failed with writeLock := if s.writeLock = some i then none else s.writeLock }
  | delete {s : ServerState} {id} : s.writeLock = none →
    PutStep s (.delete id)
      { s with
        blobs := Function.update s.blobs id none
        metadataFiles := Function.update s.metadataFiles id none
        metadata := Function.update s.metadata id none
        calls := s.calls.map fun call => call.markDeleted id }
  | load {s : ServerState} {id metadata} : s.metadata id = none → s.metadataFiles id = some (.written metadata) →
    PutStep s (.load id) { s with loads := s.loads ++ [(id, metadata)] }
  /-- Whatever the index has by then. -/
  | insertLoaded {s : ServerState} {j id metadata} : s.loads[j]? = some (id, metadata) →
    PutStep s (.insertLoaded j)
      { s with
        metadata := Function.update s.metadata id (some metadata)
        loads := s.loads.eraseIdx j }
  /-- The index has what was read of the files before one could not be. -/
  | restart {s : ServerState} {index} :
    (∀ id metadata, index id = some metadata → s.metadataFiles id = some (.written metadata)) →
    PutStep s .restart
      { s with metadata := index, writeLock := none, calls := s.calls.map PutCall.stop, loads := [] }

/-- The call has taken the lock, and has not ended. -/
def PutPhase.Active : PutPhase → Prop
  | .locked | .blobWritten | .metadataWritten _ | .stored _ | .replicated _ | .rollingBack _ | .rollbackLocked _
  | .blobRemoved | .metadataRemoved => True
  | _ => False

/-- A put takes the write lock while the id is still free, an id is not deleted while it is being
put, and what was read of a file is put in the index while the file still has it. -/
def WhileFree (s : ServerState) : PutEvent → Prop
  | .lock i => ∀ call, s.calls[i]? = some call → s.metadataExists call.objectId = false
  | .delete id => ∀ call ∈ s.calls, call.objectId = id → ¬ call.phase.Active
  | .insertLoaded j => ∀ id metadata, s.loads[j]? = some (id, metadata) →
      s.metadataFiles id = some (.written metadata)
  | _ => True

/-- A server that has had no puts. -/
structure Fresh (s : ServerState) : Prop where
  calls : s.calls = []

/-- The put has committed, and the object was not deleted since. -/
def PutCall.Commits (call : PutCall) (metadata : ObjectMetadata) : Prop :=
  call.phase = .returned metadata ∧ call.deletedSince = false

/-- Of the puts of an id at most one has committed since its last delete, and the object is that
one's. -/
structure StaysStored (s : ServerState) : Prop where
  once : ∀ {i j : Nat} {call other : PutCall} {metadata metadata' : ObjectMetadata}, s.calls[i]? = some call →
    s.calls[j]? = some other → call.objectId = other.objectId → call.Commits metadata → other.Commits metadata' → i = j
  stored : ∀ call ∈ s.calls, ∀ metadata, call.Commits metadata →
    s.readMetadata call.objectId = some metadata ∧ s.blobs call.objectId = some call.body

/-! ## The invariant -/

variable {cfg}

/-- The call holds the write lock. -/
def PutPhase.Holds : PutPhase → Prop
  | .locked | .blobWritten | .metadataWritten _ | .rollbackLocked _ | .blobRemoved | .metadataRemoved => True
  | _ => False

/-- The object's files are the call's, or become the call's. -/
def PutCall.Owns (call : PutCall) : Prop := call.phase.Active ∨ ∃ metadata, call.Commits metadata

/-- The files and the index have the put's object. -/
def ServerState.Stores (s : ServerState) (call : PutCall) (metadata : ObjectMetadata) : Prop :=
  (s.metadata call.objectId = none ∨ s.metadata call.objectId = some metadata) ∧
    s.metadataFiles call.objectId = some (.written metadata) ∧ s.blobs call.objectId = some call.body

/-- What a call has written. -/
def CallInv (s : ServerState) (call : PutCall) : Prop :=
  match call.phase with
  | .blobWritten => s.blobs call.objectId = some call.body
  | .metadataWritten metadata =>
    s.metadataFiles call.objectId = some (.written metadata) ∧ s.blobs call.objectId = some call.body
  | .stored metadata | .replicated metadata | .rollingBack metadata | .rollbackLocked metadata =>
    s.Stores call metadata
  | .returned metadata => call.deletedSince = false → s.Stores call metadata
  | _ => True

/-- Of the puts of an id one owns its files, and they are that put's. -/
structure Inv (s : ServerState) : Prop where
  calls : ∀ (i : Nat) (call : PutCall), s.calls[i]? = some call → CallInv s call
  sole : ∀ (i j : Nat) (call other : PutCall), s.calls[i]? = some call → s.calls[j]? = some other →
    call.objectId = other.objectId → call.Owns → other.Owns → i = j
  lock : ∀ (i : Nat) (call : PutCall), s.calls[i]? = some call → call.phase.Holds → s.writeLock = some i

/-- The files of an id are the same. -/
def SameAt (s t : ServerState) (id : String) : Prop :=
  t.metadata id = s.metadata id ∧ t.metadataFiles id = s.metadataFiles id ∧ t.blobs id = s.blobs id

variable {s t : ServerState} {call : PutCall} {i : Nat}

theorem CallInv.of_not_owns (h : ¬ call.Owns) : CallInv s call := by
  unfold CallInv
  unfold PutCall.Owns at h
  cases hphase : call.phase with
  | returned metadata =>
    intro hdeleted
    exact absurd (.inr ⟨metadata, hphase, hdeleted⟩) h
  | started | looked | checked | locked | blobRemoved | metadataRemoved | answered | failed => trivial
  | _ => exact absurd (.inl (by simp [hphase, PutPhase.Active])) h

theorem CallInv.congr (h : CallInv s call) (hsame : call.Owns → SameAt s t call.objectId) :
    CallInv t call := by
  by_cases howns : call.Owns
  · obtain ⟨hmetadata, hfiles, hblobs⟩ := hsame howns
    unfold CallInv ServerState.Stores at h ⊢
    rw [hmetadata, hfiles, hblobs]
    exact h
  · exact .of_not_owns howns

variable {new : PutCall} {phase : PutPhase}

/-- A step of one call, which alone owns the files that it changes. -/
theorem Inv.set (h : Inv s) (hi : s.calls[i]? = some call) (hcalls : t.calls = s.calls.set i new)
    (hid : new.objectId = call.objectId) (hframe : ∀ id, id ≠ call.objectId → SameAt s t id)
    (hothers : (∀ (j : Nat) (other : PutCall), s.calls[j]? = some other → j ≠ i →
      call.objectId = other.objectId →
    ¬ other.Owns) ∨ SameAt s t call.objectId ∧ ¬ new.Owns)
    (hlock : new.phase.Holds → t.writeLock = some i)
    (hkeep : ∀ j, j ≠ i → s.writeLock = some j → t.writeLock = some j) (hnew : CallInv t new) :
    Inv t := by
  have hsole : new.Owns → ∀ (j : Nat) (other : PutCall), s.calls[j]? = some other → j ≠ i →
      call.objectId = other.objectId → ¬ other.Owns :=
    fun howns => hothers.resolve_right fun hnot => hnot.2 howns
  refine ⟨fun j other hj => ?_, fun j k other another hj hk hsame hother hanother => ?_, fun j other hj hholds => ?_⟩
  · rw [hcalls] at hj
    rcases getElem?_set_cases hj with ⟨-, rfl⟩ | ⟨hne, hj⟩
    · exact hnew
    · refine (h.calls j other hj).congr fun howns => ?_
      by_cases hobject : call.objectId = other.objectId
      · rw [← hobject]
        exact (hothers.resolve_left fun hnot => hnot j other hj hne hobject howns).1
      · exact hframe _ fun heq => hobject heq.symm
  · rw [hcalls] at hj hk
    rcases getElem?_set_cases hj with ⟨hji, hother'⟩ | ⟨hne, hj'⟩
    · rcases getElem?_set_cases hk with ⟨hki, -⟩ | ⟨hne', hk'⟩
      · rw [hji, hki]
      · rw [hother'] at hother hsame
        exact absurd hanother (hsole hother k another hk' hne' (hid.symm.trans hsame))
    · rcases getElem?_set_cases hk with ⟨hki, hanother'⟩ | ⟨-, hk'⟩
      · rw [hanother'] at hanother hsame
        exact absurd hother (hsole hanother j other hj' hne (hid.symm.trans hsame.symm))
      · exact h.sole j k other another hj' hk' hsame hother hanother
  · rw [hcalls] at hj
    rcases getElem?_set_cases hj with ⟨rfl, rfl⟩ | ⟨hne, hj⟩
    · exact hlock hholds
    · exact hkeep j hne (h.lock j other hj hholds)

/-- No other call owns the files that a call owns. -/
theorem Inv.others (h : Inv s) (hi : s.calls[i]? = some call) (howns : call.phase.Active) :
    ∀ (j : Nat)
    (other : PutCall), s.calls[j]? = some other → j ≠ i → call.objectId = other.objectId →
    ¬ other.Owns := by
  intro j other hj hne hsame hother
  exact hne (h.sole j i other call hj hi hsame.symm hother (.inl howns))

theorem metadataExists_of_file {id : String} {file : MetadataFile}
    (h : s.metadataFiles id = some file) :
    s.metadataExists id = true := by
  simp [ServerState.metadataExists, h]

/-- Where the id is free and no call holds the lock, no call owns the id's files. -/
theorem Inv.free (h : Inv s) {id : String} (hlock : s.writeLock = none)
    (hfree : s.metadataExists id = false) {j : Nat}
    {other : PutCall} (hj : s.calls[j]? = some other) (hid : id = other.objectId) :
    ¬ other.Owns := by
  intro howns
  have hstores : ∀ metadata, ¬ s.Stores other metadata := by
    intro metadata hstores
    rw [hid, metadataExists_of_file hstores.2.1] at hfree
    cases hfree
  have hinv := h.calls j other hj
  have hholds : ¬ other.phase.Holds := fun hholds => by
    have := h.lock j other hj hholds
    rw [hlock] at this
    cases this
  rcases howns with hactive | ⟨metadata, hphase, hdeleted⟩
  · cases hphase : other.phase with
    | stored metadata | replicated metadata | rollingBack metadata =>
      exact hstores metadata (by simpa [CallInv, hphase] using hinv)
    | started | looked | checked | returned | answered | failed => simp [hphase, PutPhase.Active] at hactive
    | _ => exact hholds (by simp [hphase, PutPhase.Holds])
  · have hinv : other.deletedSince = false → s.Stores other metadata := by simpa [CallInv, hphase] using hinv
    exact hstores metadata (hinv hdeleted)

theorem Inv.push (h : Inv s) (hphase : call.phase = .started) :
    Inv { s with calls := s.calls ++ [call] } := by
  have hnot : ¬ call.Owns := by
    rintro (hactive | ⟨metadata, hreturned, -⟩)
    · simp [hphase, PutPhase.Active] at hactive
    · simp [hphase] at hreturned
  refine ⟨fun i other hi => ?_, fun i j other another hi hj hsame hother hanother => ?_, fun i other hi hholds => ?_⟩
  · rcases getElem?_push_cases hi with hi | ⟨-, rfl⟩
    · exact h.calls i other hi
    · simp [CallInv, hphase]
  · rcases getElem?_push_cases hi with hi | ⟨-, rfl⟩
    · rcases getElem?_push_cases hj with hj | ⟨-, rfl⟩
      · exact h.sole i j other another hi hj hsame hother hanother
      · exact absurd hanother hnot
    · exact absurd hother hnot
  · rcases getElem?_push_cases hi with hi | ⟨-, rfl⟩
    · exact h.lock i other hi hholds
    · simp [hphase, PutPhase.Holds] at hholds

/-- A step that leaves the files and the lock, of a call that does not come to own files. -/
theorem Inv.pass (h : Inv s) (hi : s.calls[i]? = some call) (hactive : ¬ phase.Active)
    (hreturned : ∀ metadata, phase ≠ .returned metadata) (hnew : CallInv s { call with phase }) :
    Inv (s.setPhase i call phase) := by
  refine h.set hi rfl rfl (fun _ _ => ⟨rfl, rfl, rfl⟩) (.inr ⟨⟨rfl, rfl, rfl⟩, ?_⟩) (fun hholds => ?_)
    (fun _ _ hlock => hlock) hnew
  · rintro (hnot | ⟨metadata, hphase, -⟩)
    · exact hactive hnot
    · exact hreturned metadata hphase
  · refine absurd ?_ hactive
    cases phase <;> trivial

/-- A step of a call that owns the files of its object. -/
theorem Inv.own (h : Inv s) (hi : s.calls[i]? = some call) (hactive : call.phase.Active)
    (hcalls : t.calls = s.calls.set i new) (hid : new.objectId = call.objectId)
    (hframe : ∀ id, id ≠ call.objectId → SameAt s t id)
    (hlock : new.phase.Holds → t.writeLock = some i)
    (hkeep : ∀ j, j ≠ i → s.writeLock = some j → t.writeLock = some j) (hnew : CallInv t new) :
    Inv t :=
  h.set hi hcalls hid hframe (.inl (h.others hi hactive)) hlock hkeep hnew

theorem PutPhase.Holds.active (h : phase.Holds) : phase.Active := by
  cases phase <;> trivial

/-- A step of the call that holds the lock, and keeps it. -/
theorem Inv.held (h : Inv s) (hi : s.calls[i]? = some call) (hholds : call.phase.Holds)
    (hcalls : t.calls = s.calls.set i new) (hid : new.objectId = call.objectId)
    (hwriter : t.writeLock = s.writeLock)
    (hframe : ∀ id, id ≠ call.objectId → SameAt s t id) (hnew : CallInv t new) : Inv t :=
  h.own hi hholds.active hcalls hid hframe (fun _ => hwriter.trans (h.lock i call hi hholds))
    (fun _ _ hj => hwriter.trans hj) hnew

/-- A step that leaves the files and the lock, of a call that owns the files of its object. -/
theorem Inv.stay (h : Inv s) (hi : s.calls[i]? = some call) (hactive : call.phase.Active)
    (hcalls : t.calls = s.calls.set i new) (hid : new.objectId = call.objectId)
    (hwriter : t.writeLock = s.writeLock)
    (hsame : ∀ id, SameAt s t id) (hnot : ¬ new.phase.Holds) (hnew : CallInv t new) : Inv t :=
  h.own hi hactive hcalls hid (fun id _ => hsame id) (absurd · hnot) (fun _ _ hj => hwriter.trans hj) hnew

theorem Inv.only_holder (h : Inv s) (hi : s.calls[i]? = some call) (hholds : call.phase.Holds)
    (lock : Option Nat) :
    ∀ j, j ≠ i → s.writeLock = some j → lock = some j := by
  intro j hne hj
  rw [h.lock i call hi hholds] at hj
  exact absurd (some.inj hj).symm hne

theorem Inv.getElem (h : Inv s) (hi : s.calls[i]? = some call) (hphase : call.phase = phase) :
    CallInv s { call with phase } := by
  have := h.calls i call hi
  rwa [← hphase]

@[simp] theorem phase_markDeleted (call : PutCall) (id : String) :
    (call.markDeleted id).phase = call.phase := by
  unfold PutCall.markDeleted
  split
  · split <;> rfl
  · rfl

theorem owns_markDeleted {id : String} (hidle : call.objectId = id → ¬ call.phase.Active)
    (h : (call.markDeleted id).Owns) : call.objectId ≠ id ∧ call.markDeleted id = call := by
  have hne : call.objectId ≠ id := by
    intro hid
    rcases h with hactive | ⟨metadata, hphase, hdeleted⟩
    · rw [phase_markDeleted] at hactive
      exact hidle hid hactive
    · rw [phase_markDeleted] at hphase
      unfold PutCall.markDeleted at hdeleted
      simp [hphase, hid] at hdeleted
  refine ⟨hne, ?_⟩
  unfold PutCall.markDeleted
  split
  · rw [if_neg hne]
  · rfl

theorem Inv.delete (h : Inv s) {id : String}
    (hidle : ∀ call ∈ s.calls, call.objectId = id → ¬ call.phase.Active) :
    Inv { s with
      blobs := update s.blobs id none
      metadataFiles := update s.metadataFiles id none
      metadata := update s.metadata id none
      calls := s.calls.map fun call => call.markDeleted id } := by
  have howner : ∀ {i : Nat} {call : PutCall}, (s.calls.map fun call => call.markDeleted id)[i]? = some call →
      call.Owns → call.objectId ≠ id ∧ s.calls[i]? = some call := by
    intro i call hi howns
    obtain ⟨before, hbefore, rfl⟩ := map_eq_some_iff.mp (getElem?_map ▸ hi)
    obtain ⟨hne, hsame⟩ := owns_markDeleted (hidle before (mem_of_getElem? hbefore)) howns
    rw [hsame]
    exact ⟨hne, hbefore⟩
  refine ⟨fun i call hi => ?_, fun i j call other hi hj hsame hcall hother => ?_, fun i call hi hholds => ?_⟩
  · by_cases howns : call.Owns
    · obtain ⟨hne, hbefore⟩ := howner hi howns
      refine (h.calls i call hbefore).congr fun _ => ⟨?_, ?_, ?_⟩
      · exact update_of_ne hne _ _
      · exact update_of_ne hne _ _
      · exact update_of_ne hne _ _
    · exact .of_not_owns howns
  · exact h.sole i j call other (howner hi hcall).2 (howner hj hother).2 hsame hcall hother
  · obtain ⟨before, hbefore, rfl⟩ := map_eq_some_iff.mp (getElem?_map ▸ hi)
    rw [phase_markDeleted] at hholds
    exact h.lock i before hbefore hholds

/-- What a call has written when only the index has changed, to what the files have. -/
theorem CallInv.index {index : String → Option ObjectMetadata} (h : CallInv s call)
    (hindex : ∀ metadata, s.metadataFiles call.objectId = some (.written metadata) →
      (s.metadata call.objectId = none ∨
    s.metadata call.objectId = some metadata) → index call.objectId = none ∨
      index call.objectId = some metadata)
    (writeLock : Option Nat) (calls : List PutCall) (loads : List (String × ObjectMetadata)) :
    CallInv { s with metadata := index, writeLock, calls, loads } call := by
  have hstores : ∀ {metadata}, s.Stores call metadata →
      ServerState.Stores { s with metadata := index, writeLock, calls, loads } call metadata :=
    fun ⟨hmetadata, hfile, hblob⟩ => ⟨hindex _ hfile hmetadata, hfile, hblob⟩
  unfold CallInv at h ⊢
  cases hphase : call.phase with
  | stored metadata | replicated metadata | rollingBack metadata | rollbackLocked metadata =>
    rw [hphase] at h
    exact hstores h
  | returned metadata =>
    rw [hphase] at h
    exact fun hdeleted => hstores (h hdeleted)
  | _ =>
    rw [hphase] at h
    exact h

theorem Inv.insertLoaded (h : Inv s) {id : String} {metadata : ObjectMetadata}
    (hfile : s.metadataFiles id = some (.written metadata))
    (loads : List (String × ObjectMetadata)) :
    Inv { s with metadata := update s.metadata id (some metadata), loads } := by
  refine ⟨fun i call hi => (h.calls i call hi).index (fun metadata' hfile' hindex => ?_) _ _ _, h.sole, h.lock⟩
  by_cases hid : call.objectId = id
  · rw [hid, hfile] at hfile'
    cases hfile'
    rw [hid, update_self]
    exact .inr rfl
  · rw [update_of_ne hid]
    exact hindex

theorem Inv.restart {s : ServerState} (h : Inv s) {index : String → Option ObjectMetadata}
    (hindex : ∀ id metadata, index id = some metadata →
      s.metadataFiles id = some (.written metadata)) :
    Inv { s with metadata := index, writeLock := none, calls := s.calls.map PutCall.stop, loads := [] } := by
  have howner : ∀ {i : Nat} {call : PutCall}, (s.calls.map PutCall.stop)[i]? = some call → ¬ call.phase.Active ∧
      ¬ call.phase.Holds ∧ (call.Owns → s.calls[i]? = some call) := by
    intro i call hi
    obtain ⟨before, hbefore, rfl⟩ := map_eq_some_iff.mp (getElem?_map ▸ hi)
    unfold PutCall.stop
    split
    · next metadata hphase =>
      exact ⟨by simp [hphase, PutPhase.Active], by simp [hphase, PutPhase.Holds], fun _ => hbefore⟩
    · next object hphase =>
      exact ⟨by simp [hphase, PutPhase.Active], by simp [hphase, PutPhase.Holds], fun _ => hbefore⟩
    · refine ⟨id, id, ?_⟩
      rintro (hactive | ⟨metadata, hphase, -⟩)
      · exact hactive.elim
      · cases hphase
  refine ⟨fun i call hi => ?_, fun i j call other hi hj hsame hcall hother => ?_, fun i call hi hholds => ?_⟩
  · by_cases howns : call.Owns
    · refine (h.calls i call ((howner hi).2.2 howns)).index (fun metadata hfile _ => ?_) _ _ _
      cases hmetadata : index call.objectId with
      | none => exact .inl rfl
      | some metadata' =>
        have := hindex _ _ hmetadata
        rw [hfile] at this
        cases this
        exact .inr rfl
    · exact .of_not_owns howns
  · exact h.sole i j call other ((howner hi).2.2 hcall) ((howner hj).2.2 hother) hsame hcall hother
  · exact absurd hholds (howner hi).2.1

theorem Inv.step {e : PutEvent} (h : Inv s) (hmeets : WhileFree s e) (hstep : PutStep cfg s e t) :
    Inv t := by
  cases hstep with
  | call => exact h.push rfl
  | look hi | answer hi | check hi => exact h.pass hi id nofun trivial
  | @lock i call hi _ hfree =>
    refine h.set hi rfl rfl (fun _ _ => ⟨rfl, rfl, rfl⟩) (.inl fun j other hj _ hsame => ?_) (fun _ => rfl)
      (fun j _ hj => ?_) trivial
    · exact h.free hfree (hmeets call hi) hj hsame
    · rw [hfree] at hj
      cases hj
  | @tearBlob _ _ _ hi hphase | @removeBlob _ _ _ hi hphase =>
    refine h.held hi (by simp [hphase, PutPhase.Holds]) rfl rfl rfl (fun id hne => ⟨rfl, rfl, ?_⟩) trivial
    exact update_of_ne hne _ _
  | @writeBlob i call hi hphase =>
    refine h.held hi (by simp [hphase, PutPhase.Holds]) rfl rfl rfl (fun id hne => ⟨rfl, rfl, ?_⟩) ?_
    · exact update_of_ne hne _ _
    · exact update_self ..
  | @tearMetadata i call hi hphase =>
    refine h.held hi (by simp [hphase, PutPhase.Holds]) rfl rfl rfl (fun id hne => ⟨rfl, ?_, rfl⟩) (h.getElem hi hphase)
    exact update_of_ne hne _ _
  | @writeMetadata i call nowMs hi hphase =>
    refine h.held hi (by simp [hphase, PutPhase.Holds]) rfl rfl rfl (fun id hne => ⟨rfl, ?_, rfl⟩)
      ⟨?_, h.getElem hi hphase⟩
    · exact update_of_ne hne _ _
    · exact update_self ..
  | @insertMetadata i call metadata hi hphase =>
    refine h.own hi (by simp [hphase, PutPhase.Active]) rfl rfl (fun id hne => ⟨?_, rfl, rfl⟩)
      (fun hholds => hholds.elim) (h.only_holder hi (by simp [hphase, PutPhase.Holds]) _) ⟨.inr ?_, h.getElem hi hphase⟩
    · exact update_of_ne hne _ _
    · exact update_self ..
  | replicate hi hphase | failReplicate hi hphase | failAppend hi hphase =>
    exact h.stay hi (by simp [hphase, PutPhase.Active]) rfl rfl rfl (fun _ => ⟨rfl, rfl, rfl⟩) id (h.getElem hi hphase)
  | commit hi hphase =>
    exact h.stay hi (by simp [hphase, PutPhase.Active]) rfl rfl rfl
      (fun _ => ⟨rfl, rfl, rfl⟩) id fun _ => h.getElem hi hphase
  | lockRollback hi hphase hfree =>
    refine h.own hi (by simp [hphase, PutPhase.Active]) rfl rfl (fun _ _ => ⟨rfl, rfl, rfl⟩) (fun _ => rfl)
      (fun j _ hj => ?_) (h.getElem hi hphase)
    rw [hfree] at hj
    cases hj
  | @removeMetadataFile i call hi hphase =>
    refine h.held hi (by simp [hphase, PutPhase.Holds]) rfl rfl rfl (fun id hne => ⟨rfl, ?_, rfl⟩) trivial
    exact update_of_ne hne _ _
  | removeMetadata hi hphase =>
    refine h.own hi (by simp [hphase, PutPhase.Active]) rfl rfl (fun id hne => ⟨?_, rfl, rfl⟩)
      (fun hholds => hholds.elim) (h.only_holder hi (by simp [hphase, PutPhase.Holds]) _) trivial
    exact update_of_ne hne _ _
  | @abandon i call hi _ =>
    refine h.set hi rfl rfl (fun _ _ => ⟨rfl, rfl, rfl⟩) (.inr ⟨⟨rfl, rfl, rfl⟩, ?_⟩) (fun hholds => hholds.elim)
      (fun j hne hj => ?_) trivial
    · rintro (hactive | ⟨metadata, hphase, -⟩)
      · exact hactive
      · cases hphase
    · show (if s.writeLock = some i then none else s.writeLock) = some j
      rw [if_neg, hj]
      rw [hj]
      exact fun heq => hne (some.inj heq)
  | delete _ => exact h.delete hmeets
  | load => exact ⟨fun i call hi => (h.calls i call hi).congr fun _ => ⟨rfl, rfl, rfl⟩, h.sole, h.lock⟩
  | insertLoaded hload => exact h.insertLoaded (hmeets _ _ hload) _
  | restart hindex => exact h.restart hindex

/-- Of the puts of an id at most one commits until the id is deleted, and the object stays that
one's. -/
theorem object_stays_stored {s t : ServerState} (hs : Fresh s)
    (hrun : Reaches (PutStep cfg) WhileFree s t) :
    StaysStored t := by
  have hinv : Inv t := hrun.invariant (fun _ _ _ h hmeets hstep => h.step hmeets hstep) (by
    constructor <;> simp [hs.calls])
  refine ⟨fun hi hj hsame hcall hother => ?_, fun call hmem metadata hcommits => ?_⟩
  · exact hinv.sole _ _ _ _ hi hj hsame (.inr ⟨_, hcall⟩) (.inr ⟨_, hother⟩)
  · obtain ⟨i, hi⟩ := mem_iff_getElem?.mp hmem
    have hcall : call.deletedSince = false → t.Stores call metadata := by
      have := hinv.calls i call hi
      simpa [CallInv, hcommits.1] using this
    obtain ⟨hindex, hfile, hblob⟩ := hcall hcommits.2
    refine ⟨?_, hblob⟩
    unfold ServerState.readMetadata
    rcases hindex with hindex | hindex
    · rw [hindex, hfile]
    · rw [hindex]

/-! ## Two puts -/

section Sample

/-- What a put leaves that found the lock free. -/
def storedState (cfg : Config) (s : ServerState) (i : Nat) (call : PutCall) (nowMs : Nat) :
    ServerState :=
  { s.setPhase i call (.stored (cfg.metadataOf call nowMs)) with
    blobs := Function.update s.blobs call.objectId (some call.body)
    metadataFiles := Function.update s.metadataFiles call.objectId (some (.written (cfg.metadataOf call nowMs)))
    metadata := Function.update s.metadata call.objectId (some (cfg.metadataOf call nowMs))
    writeLock := none }

/-- A put that found the id free stores its object. -/
theorem reaches_storedState {meets : ServerState → PutEvent → Prop} {s : ServerState} {i : Nat}
    {call : PutCall} (hi : s.calls[i]? = some call) (hphase : call.phase = .checked)
    (hfree : s.writeLock = none) (hlock : meets s (.lock i))
    (hrest : ∀ t e, (∀ j, e ≠ .lock j) → (∀ id, e ≠ .delete id) → (∀ j, e ≠ .insertLoaded j) →
      meets t e)
    (nowMs : Nat) :
    Reaches (PutStep cfg) meets s (storedState cfg s i call nowMs) := by
  let locked : PutCall := { call with phase := .locked }
  let blobWritten : PutCall := { call with phase := .blobWritten }
  let metadataWritten : PutCall := { call with phase := .metadataWritten (cfg.metadataOf call nowMs) }
  have h₁ := (@Reaches.refl _ _ (PutStep cfg) meets s).take (.lock hi hphase hfree) hlock
  have h₂ := h₁.take (@PutStep.writeBlob cfg _ i locked (getElem?_set_self_of hi) rfl) (hrest _ _ nofun nofun nofun)
  have h₃ := h₂.take (@PutStep.writeMetadata cfg _ i blobWritten nowMs
    (getElem?_set_self_of (getElem?_set_self_of hi)) rfl) (hrest _ _ nofun nofun nofun)
  have h₄ := h₃.take (@PutStep.insertMetadata cfg _ i metadataWritten (cfg.metadataOf call nowMs)
    (getElem?_set_self_of (getElem?_set_self_of (getElem?_set_self_of hi))) rfl) (hrest _ _ nofun nofun nofun)
  simpa [storedState, ServerState.setPhase, Config.metadataOf, locked, blobWritten, metadataWritten] using h₄

/-- With the digests of the two bodies. -/
def sampleConfig : Config where
  maxObjectBytes := 8
  sha256 body :=
    if body = [0x61] then
      BigEndian.toBe 32 0xca978112ca1bbdcafac231b39a23dc4da786eff8147c4e72b9807785afee48bb
    else BigEndian.toBe 32 0x3e23e8160039594a33894f6564e1b1348bbd7a0088d42c4acb73eeaed59c009d

def put (body : Bytes) (phase : PutPhase) : PutCall := ⟨"o", "text/plain", body, none, phase, false⟩

def fresh : ServerState := ⟨fun _ => none, fun _ => none, fun _ => none, none, ∅, [], []⟩

/-- Two puts of an id are on their way. -/
def twoPuts (first second : PutPhase) : ServerState :=
  { fresh with calls := [put [0x61] first, put [0x62] second] }

theorem reaches_twoPuts :
    Reaches (PutStep sampleConfig) WhileFree fresh (twoPuts .checked .checked) := by
  have h₁ := (@Reaches.refl _ _ (PutStep sampleConfig) WhileFree fresh).take
    (e := PutEvent.call "o" "text/plain" [0x61] none) .call trivial
  have h₂ := h₁.take (e := .call "o" "text/plain" [0x62] none) .call (by trivial)
  have h₃ := h₂.take (e := .look 0) (.look rfl rfl rfl) (by trivial)
  have h₄ := h₃.take (e := .look 1) (.look rfl rfl rfl) (by trivial)
  have h₅ := h₄.take (e := .check 0) (.check rfl rfl (by decide) (by decide) rfl) (by trivial)
  have h₆ := h₅.take (e := .check 1) (.check rfl rfl (by decide) (by decide) rfl) (by trivial)
  exact h₆

/-- The first one has returned. -/
def firstReturned : ServerState :=
  let s := storedState sampleConfig (twoPuts .checked .checked) 0 (put [0x61] .checked) 7
  { s with calls := [put [0x61] (.returned (sampleConfig.metadataOf (put [0x61] .checked) 7)), put [0x62] .checked] }

theorem reaches_firstReturned : Reaches (PutStep sampleConfig) WhileFree fresh firstReturned := by
  have hlock : WhileFree (twoPuts .checked .checked) (.lock 0) := fun call hcall => by
    cases (some.inj hcall : _ = call)
    rfl
  have hrest : ∀ t e, (∀ j, e ≠ .lock j) → (∀ id, e ≠ .delete id) → (∀ j, e ≠ .insertLoaded j) → WhileFree t e := by
    intro t e hnot hnot' hnot''
    cases e with
    | lock i => exact absurd rfl (hnot i)
    | delete id => exact absurd rfl (hnot' id)
    | insertLoaded j => exact absurd rfl (hnot'' j)
    | _ => trivial
  have h₁ :=
    reaches_twoPuts.trans (@reaches_storedState sampleConfig _ _ 0 (put [0x61] .checked) rfl rfl rfl hlock hrest 7)
  have h₂ := Reaches.take h₁ (e := .replicate 0) (.replicate rfl rfl) (by trivial)
  have h₃ := h₂.take (e := .commit 0) (.commit rfl rfl) (by trivial)
  exact h₃

theorem object_stays_stored_sample : StaysStored firstReturned :=
  object_stays_stored ⟨rfl⟩ reaches_firstReturned

/-- The second put overwrites the object, its replication fails, and it deletes what it wrote. -/
theorem object_not_stored :
    ¬ ∀ (cfg : Config) (s t : ServerState), Fresh s → Reaches (PutStep cfg) (fun _ _ => True) s t →
    StaysStored t := by
  intro h
  have h₁ := (reaches_firstReturned.weaken fun _ _ _ => trivial).trans
    (@reaches_storedState sampleConfig (fun _ _ => True) _ 1 (put [0x62] .checked) rfl rfl rfl trivial
      (fun _ _ _ _ _ => trivial) 8)
  have h₂ := Reaches.take h₁ (e := .failReplicate 1) (.failReplicate rfl rfl) (by trivial)
  have h₃ := h₂.take (e := .lockRollback 1) (.lockRollback rfl rfl rfl) (by trivial)
  have h₄ := h₃.take (e := .removeBlob 1) (.removeBlob rfl rfl) (by trivial)
  have hgone := (h _ _ _ ⟨rfl⟩ h₄).stored (put [0x61] (.returned (sampleConfig.metadataOf (put [0x61] .checked) 7)))
    mem_cons_self _ ⟨rfl, rfl⟩
  have hblob : update (storedState sampleConfig firstReturned 1 (put [0x62] .checked) 8).blobs "o" none "o" =
    some [0x61] := hgone.2
  rw [update_self] at hblob
  cases hblob

end Sample

end NextDb.Api.ObjectPut
