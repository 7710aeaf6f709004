import NextDb.Api.Mutation
import NextDb.Wal.Writer

/-!
# Sending a message

`send_message` looks its client mutation id up, appends a log record, and notes
the record under the id: three steps, between which other requests take theirs.

* `send_idempotent`: one record for each id, and one answer, in every run in which
  a request looks its id up while no other request is about to take it.
-/

namespace NextDb.Api

open Run Wal List

structure SendMessageRequest where
  roomId : String
  userId : String
  body : String
  attachments : List String
  durability : Durability
  clientMutationId : Option String

/-- What the rest of the server gives a request: whether it takes writes, a fresh
id, the clock, the stored attachments and the check of the schema. -/
structure Surroundings where
  acceptingWrites : Except ApiError Unit
  id : String
  nowMs : Nat
  resolveObjectRefs : List String → Except ApiError (List ObjectRef)
  validateMessageDraft : MessageDraft → Result Unit

/-- What a request comes to before the log. -/
inductive PreparedMessage where
  | existing (message : Message)
  | volatile (message : Message)
  | draft (draft : MessageDraft)

def ensureBytesLimit (label : String) (actual limit : Nat) : Except ApiError Unit :=
  if limit > 0 ∧ actual > limit then
    .error (.payloadTooLarge s!"{label} exceeds limit: {actual} bytes > {limit} bytes")
  else .ok ()

def messagePath (durability : Durability) (roomId id : String) : String :=
  if durability = .volatile then s!"volatile/rooms/{roomId}/messages/{id}"
  else s!"rooms/{roomId}/messages/{id}"

/-- `send_message` up to the log, with `clientMutations` as it is at the lookup. -/
def prepareMessage (maxMessageBytes : Nat) (clientMutations : BTreeMap String CommittedMutation)
    (request : SendMessageRequest) (server : Surroundings) : Except ApiError PreparedMessage := do
  server.acceptingWrites
  if (trim request.body).isEmpty then .error (.badRequest "message body cannot be empty")
  else
    let clientMutationId ← normalizeClientMutationId request.clientMutationId
    let existing := if request.durability ≠ .volatile then
      findCommittedMutation clientMutations clientMutationId else none
    match existing with
    | some (.messageCreated message) => .ok (.existing message)
    | some _ =>
      .error (.conflict "clientMutationId was already used for a different mutation kind")
    | none =>
      ensureBytesLimit "message body" request.body.utf8ByteSize maxMessageBytes
      let path := messagePath request.durability request.roomId server.id
      if request.durability = .volatile ∧ request.attachments = [] then
        .ok (.volatile ⟨server.id, request.roomId, request.userId, request.body, [], server.nowMs, 0, path⟩)
      else
        let attachments ← server.resolveObjectRefs request.attachments
        let draft : MessageDraft := ⟨server.id, clientMutationId, request.roomId, request.userId,
          request.body, attachments, server.nowMs, path⟩
        match server.validateMessageDraft draft with
        | .error err => .error (.badRequest err.message)
        | .ok () =>
          if request.durability = .volatile then .ok (.volatile (draft.intoMessage 0))
          else .ok (.draft draft)

def messageFromWalRecord (record : WalRecord) : Except ApiError Message :=
  match record.payload with
  | .messageCreated message => .ok (message.intoMessage record.lsn)
  | _ => .error (.internal ⟨"expected message WAL record", []⟩)

/-! ## Requests that take their steps in any order -/

/-- How far a send has come. -/
inductive SendPhase where
  | started
  | prepared (draft : MessageDraft)
  | appended (record : WalRecord)
  | noted (record : WalRecord)
  | answered (response : Except ApiError Message)

/-- A request that is sent. -/
structure SendTask where
  request : SendMessageRequest
  phase : SendPhase

/-- The log, the index of mutations and the requests that are on their way. -/
structure SendState where
  nextLsn : Nat
  currentLsn : Nat
  clientMutations : BTreeMap String CommittedMutation
  /-- The log records of these requests. -/
  appended : List WalRecord
  tasks : List SendTask

/-- What a record takes from the server when it is appended. -/
structure AppendContext where
  shard : Nat
  shardEpoch : Nat
  ownerNodeId : String
  schemaVersion : Nat
  nowMs : Nat

/-- How an append ends: acknowledged, or failed with the record in the log or not. -/
inductive AppendOutcome where
  | acked
  | failed (written : Bool) (err : ApiError)

/-- The steps of a request. -/
inductive SendEvent where
  | arrive (request : SendMessageRequest)
  | lookUp (task : Nat) (server : Surroundings)
  /-- Draining, an owner elsewhere or a frozen shard. -/
  | refuse (task : Nat) (err : ApiError)
  | append (task : Nat) (context : AppendContext) (outcome : AppendOutcome)
  | note (task : Nat)
  /-- The chat log, the attachments or the checkpoint may fail before the answer. -/
  | answer (task : Nat) (failure : Option ApiError)

def SendState.setTask (s : SendState) (task : Nat) (request : SendMessageRequest)
    (phase : SendPhase) : SendState :=
  { s with tasks := s.tasks.set task ⟨request, phase⟩ }

def phaseOf : Except ApiError PreparedMessage → SendPhase
  | .error err => .answered (.error err)
  | .ok (.existing message) => .answered (.ok message)
  | .ok (.volatile message) => .answered (.ok message)
  | .ok (.draft draft) => .prepared draft

variable (lib : Libraries)

/-- `append_ordered_wal_record` up to the acknowledgement. -/
def appendStep (s : SendState) (task : Nat) (request : SendMessageRequest) (draft : MessageDraft)
    (context : AppendContext) (outcome : AppendOutcome) : SendState :=
  let lsn := s.nextLsn + 1
  let s := { s with nextLsn := lsn }
  match signedRecord lib context.shard ⟨lsn, context.shardEpoch, context.ownerNodeId,
      request.durability, context.schemaVersion, .messageCreated draft, context.nowMs⟩ with
  | .error err => s.setTask task request (.answered (.error (.internal err)))
  | .ok record =>
    match outcome with
    | .acked => { s.setTask task request (.appended record) with appended := s.appended ++ [record] }
    | .failed written err =>
      { s.setTask task request (.answered (.error err)) with
        appended := if written then s.appended ++ [record] else s.appended }

def noteStep (s : SendState) (task : Nat) (request : SendMessageRequest) (record : WalRecord) :
    SendState :=
  { s.setTask task request (.noted record) with
    currentLsn := max s.currentLsn record.lsn
    clientMutations := noteCommittedMutationRecord s.clientMutations record }

/-- What each step does to the log and the index. -/
inductive SendStep (maxMessageBytes : Nat) : SendState → SendEvent → SendState → Prop where
  | arrive {s request} :
    SendStep maxMessageBytes s (.arrive request) { s with tasks := s.tasks ++ [⟨request, .started⟩] }
  | lookUp {s task request server} : s.tasks[task]? = some ⟨request, .started⟩ →
    SendStep maxMessageBytes s (.lookUp task server) (s.setTask task request
      (phaseOf (prepareMessage maxMessageBytes s.clientMutations request server)))
  | refuse {s task request draft err} : s.tasks[task]? = some ⟨request, .prepared draft⟩ →
    SendStep maxMessageBytes s (.refuse task err) (s.setTask task request (.answered (.error err)))
  | append {s task request draft context outcome} :
    s.tasks[task]? = some ⟨request, .prepared draft⟩ →
    SendStep maxMessageBytes s (.append task context outcome) (appendStep lib s task request draft context outcome)
  | note {s task request record} : s.tasks[task]? = some ⟨request, .appended record⟩ →
    SendStep maxMessageBytes s (.note task) (noteStep s task request record)
  | answer {s task request record failure} : s.tasks[task]? = some ⟨request, .noted record⟩ →
    SendStep maxMessageBytes s (.answer task failure) (s.setTask task request (.answered (match failure with
        | some err => .error err
        | none => messageFromWalRecord record)))

/-- The id that a request between its lookup and its note is about to take. -/
def SendPhase.taking : SendPhase → Option String
  | .prepared draft => draft.clientMutationId
  | .appended record => clientMutationIdOf record
  | _ => none

/-- The appended records with an id. -/
def SendState.appendedWith (s : SendState) (id : String) : List WalRecord :=
  s.appended.filter fun record => clientMutationIdOf record = some id

/-- A durable request that carries the id. -/
def SendMessageRequest.Carries (request : SendMessageRequest) (id : String) : Prop :=
  request.durability ≠ .volatile ∧ normalizeClientMutationId request.clientMutationId = .ok (some id)

/-- A request with the id looks it up only while no other request is about to take
it, and when what was appended with it has been noted. -/
def LooksUpAlone (id : String) (s : SendState) : SendEvent → Prop
  | .lookUp task _ => ∀ request phase, s.tasks[task]? = some ⟨request, phase⟩ → request.Carries id →
    (∀ other ∈ s.tasks, other.phase.taking ≠ some id) ∧
    (s.appendedWith id ≠ [] → s.clientMutations[id]?.isSome)
  | _ => True

/-! ## What the lookup finds -/

/-- What a prepared request says about the lookup of its id. -/
def PreparedMessage.FoundBy (clientMutations : BTreeMap String CommittedMutation)
    (request : SendMessageRequest) (mutationId : Option String) : PreparedMessage → Prop
  | .existing message => request.durability ≠ .volatile ∧
      findCommittedMutation clientMutations mutationId = some (.messageCreated message)
  | .volatile _ => request.durability = .volatile
  | .draft message => request.durability ≠ .volatile ∧ message.clientMutationId = mutationId ∧
      findCommittedMutation clientMutations mutationId = none

variable {request : SendMessageRequest} {i task : Nat} {s t : SendState} {known : Prop}

theorem SendMessageRequest.Carries.eq {id : String} {mutationId : Option String}
    (h : request.Carries id)
    (hn : normalizeClientMutationId request.clientMutationId = .ok mutationId) :
    mutationId = some id := by
  rw [h.2] at hn
  cases hn
  rfl

variable {maxMessageBytes : Nat} {tasks : List SendTask} {old new : SendTask}

theorem prepareMessage_ok {clientMutations : BTreeMap String CommittedMutation}
    {server : Surroundings}
    {prepared : PreparedMessage}
    (h : prepareMessage maxMessageBytes clientMutations request server = .ok prepared) :
    ∃ mutationId, normalizeClientMutationId request.clientMutationId = .ok mutationId ∧
    prepared.FoundBy clientMutations request mutationId := by
  obtain ⟨-, -, h⟩ := bind_eq_ok.mp h
  split at h
  · cases h
  obtain ⟨id, hid, h⟩ := bind_eq_ok.mp h
  refine ⟨id, hid, ?_⟩
  dsimp only at h
  split at h
  · next message he =>
    cases h
    split at he
    · next hd => exact ⟨hd, he⟩
    · cases he
  · cases h
  · next he =>
    obtain ⟨-, -, h⟩ := bind_eq_ok.mp h
    split at h
    · next hv => cases h; exact hv.1
    obtain ⟨attachments, -, h⟩ := bind_eq_ok.mp h
    split at h
    · cases h
    split at h
    · next hv => cases h; exact hv
    · next hv =>
      cases h
      rw [if_pos hv] at he
      exact ⟨hv, rfl, he⟩

/-! ## The invariant -/

variable {lib} {id : String}

/-- What a task knows of its id, from the entry and the records with the id. -/
def SendPhase.Holds (id : String) (entry : Option CommittedMutation) (records : List WalRecord)
    (request : SendMessageRequest) : SendPhase → Prop
  | .started => True
  | .prepared draft => request.durability ≠ .volatile ∧
      normalizeClientMutationId request.clientMutationId = .ok draft.clientMutationId ∧
      (draft.clientMutationId = some id → entry = none ∧ records = [])
  | .appended record => ∃ draft, record.payload = .messageCreated draft ∧
      request.durability ≠ .volatile ∧
      normalizeClientMutationId request.clientMutationId = .ok draft.clientMutationId ∧
      (draft.clientMutationId = some id → entry = none ∧ records = [record])
  | .noted record => ∃ draft, record.payload = .messageCreated draft ∧
      normalizeClientMutationId request.clientMutationId = .ok draft.clientMutationId ∧
      (draft.clientMutationId = some id →
      entry = some (.messageCreated (draft.intoMessage record.lsn)))
  | .answered response => request.Carries id → ∀ message, response = .ok message →
      entry = some (.messageCreated message)

def SendState.entry (s : SendState) (id : String) : Option CommittedMutation :=
  s.clientMutations[id]?

/-- At most one task is about to take the id. -/
def AtMostOneTakes (id : String) (tasks : List SendTask) : Prop :=
  ∀ (i j : Nat) (a b : SendTask), tasks[i]? = some a → tasks[j]? = some b →
    a.phase.taking = some id → b.phase.taking = some id → i = j

/-- At most one task takes the id, and at most one record has it. -/
structure SendInv (id : String) (known : Prop) (s : SendState) : Prop where
  tasks : ∀ task ∈ s.tasks, task.phase.Holds id (s.entry id) (s.appendedWith id) task.request
  one : AtMostOneTakes id s.tasks
  count : (s.appendedWith id).length ≤ 1
  known : known → (s.entry id).isSome ∧ s.appendedWith id = []

theorem clientMutationIdOf_message {record : WalRecord} {draft : MessageDraft}
    (h : record.payload = .messageCreated draft) :
    clientMutationIdOf record = draft.clientMutationId := by
  rw [clientMutationIdOf, committedMutationEntryFromWalRecord, h]
  exact (Option.map_map _ _ _).trans Option.map_id'

/-- A task that is not about to take a free id holds whatever becomes of the id. -/
theorem SendPhase.Holds.of_free {phase : SendPhase} {records records' : List WalRecord}
    {entry' : Option CommittedMutation} (h : phase.Holds id none records request)
    (hfree : phase.taking ≠ some id) :
    phase.Holds id entry' records' request := by
  cases phase with
  | started => trivial
  | prepared draft => exact ⟨h.1, h.2.1, fun he => absurd he hfree⟩
  | appended record =>
    obtain ⟨draft, hp, hd, hn, -⟩ := h
    refine ⟨draft, hp, hd, hn, fun he => absurd ?_ hfree⟩
    rw [← he]
    exact clientMutationIdOf_message hp
  | noted record =>
    obtain ⟨draft, hp, hn, hentry⟩ := h
    exact ⟨draft, hp, hn, fun he => by cases hentry he⟩
  | answered response => exact fun hc message hr => by cases h hc message hr

theorem AtMostOneTakes.set (h : AtMostOneTakes id tasks) (hi : tasks[i]? = some old)
    (hnew : new.phase.taking = some id → old.phase.taking = some id ∨ ∀ task ∈ tasks,
    task.phase.taking ≠ some id) : AtMostOneTakes id (tasks.set i new) := by
  -- a task that takes the id after the step took it before, or no task did
  have hback : ∀ {j : Nat} {a : SendTask}, (tasks.set i new)[j]? = some a → a.phase.taking = some id →
      (∃ b, tasks[j]? = some b ∧ b.phase.taking = some id) ∨ j = i ∧ ∀ task ∈ tasks, task.phase.taking ≠ some id := by
    intro j a hj ha
    rw [getElem?_set] at hj
    split at hj
    · next he =>
      subst he
      split at hj <;> cases hj
      exact (hnew ha).imp (fun ho => ⟨old, hi, ho⟩) (fun hno => ⟨rfl, hno⟩)
    · exact .inl ⟨a, hj, ha⟩
  intro j k a b hj hk ha hb
  rcases hback hj ha with ⟨a', hj', ha'⟩ | ⟨rfl, hno⟩
  · rcases hback hk hb with ⟨b', hk', hb'⟩ | ⟨rfl, hno⟩
    · exact h j k a' b' hj' hk' ha' hb'
    · exact absurd ha' (hno a' (mem_of_getElem? hj'))
  · rcases hback hk hb with ⟨b', hk', hb'⟩ | ⟨rfl, -⟩
    · exact absurd hb' (hno b' (mem_of_getElem? hk'))
    · rfl

/-- A task other than the one at `i`, which takes the id, does not. -/
theorem AtMostOneTakes.others (h : AtMostOneTakes id tasks) (hi : tasks[i]? = some old)
    (htakes : old.phase.taking = some id) :
    ∀ task ∈ tasks.set i new, task = new ∨ task ∈ tasks ∧ task.phase.taking ≠ some id := by
  intro task htask
  obtain ⟨j, hj⟩ := getElem?_of_mem htask
  rw [getElem?_set] at hj
  split at hj
  · split at hj
    · cases hj
      exact .inl rfl
    · cases hj
  · next hne =>
    refine .inr ⟨mem_of_getElem? hj, fun he => hne ?_⟩
    exact h i j old task hi hj htakes he

/-- A step of one task that leaves the entry and the records of the id alone. -/
theorem SendInv.set {old new : SendPhase} (h : SendInv id known s)
    (hi : s.tasks[i]? = some ⟨request, old⟩)
    (ht : t.tasks = s.tasks.set i ⟨request, new⟩) (hentry : t.entry id = s.entry id)
    (hrecords : t.appendedWith id = s.appendedWith id)
    (hnew : new.Holds id (s.entry id) (s.appendedWith id) request)
    (htaking : new.taking = some id → old.taking = some id ∨ ∀ task ∈ s.tasks,
      task.phase.taking ≠ some id) :
    SendInv id known t where
  tasks task htask := by
    rw [ht] at htask
    rw [hentry, hrecords]
    rcases mem_or_eq_of_mem_set htask with htask | rfl
    · exact h.tasks task htask
    · exact hnew
  one := ht ▸ h.one.set hi htaking
  count := by rw [hrecords]; exact h.count
  known hk := by rw [hentry, hrecords]; exact h.known hk

/-- A step of the task that takes the id, after which it holds. -/
theorem SendInv.take {old new : SendPhase} (h : SendInv id known s)
    (hi : s.tasks[i]? = some ⟨request, old⟩)
    (hfree : s.entry id = none) (hold : old.taking = some id)
    (ht : t.tasks = s.tasks.set i ⟨request, new⟩)
    (hcount : (t.appendedWith id).length ≤ 1)
    (hnew : new.Holds id (t.entry id) (t.appendedWith id) request) :
    SendInv id known t where
  tasks task htask := by
    rw [ht] at htask
    rcases h.one.others hi hold task htask with rfl | ⟨hmem, hother⟩
    · exact hnew
    · have := h.tasks task hmem
      rw [hfree] at this
      exact this.of_free hother
  one := ht ▸ h.one.set hi fun _ => .inl hold
  count := hcount
  known hk := absurd (h.known hk).1 (by simp [hfree])

/-! ## Steps -/

theorem SendInv.arrive (h : SendInv id known s) (request : SendMessageRequest) :
    SendInv id known { s with tasks := s.tasks ++ [⟨request, .started⟩] } where
  tasks task htask := by
    rcases mem_append.mp htask with htask | htask
    · exact h.tasks task htask
    · rw [mem_singleton.mp htask]
      trivial
  one := by
    have hold : ∀ {j : Nat} {a : SendTask}, (s.tasks ++ [⟨request, .started⟩])[j]? = some a → a.phase.taking = some id →
        s.tasks[j]? = some a := by
      intro j a hj ha
      rw [getElem?_append] at hj
      split at hj
      · exact hj
      · rw [mem_singleton.mp (mem_of_getElem? hj)] at ha
        cases ha
    exact fun i j a b hi hj ha hb => h.one i j a b (hold hi ha) (hold hj hb) ha hb
  count := h.count
  known := h.known

theorem SendInv.lookUp {known : Prop} {maxMessageBytes : Nat}
    {s : SendState} {task : Nat} {request : SendMessageRequest} {server : Surroundings}
    (h : SendInv id known s)
    (hi : s.tasks[task]? = some ⟨request, .started⟩)
    (halone : LooksUpAlone id s (.lookUp task server)) : SendInv id
    known (s.setTask task request (phaseOf (prepareMessage maxMessageBytes s.clientMutations request server))) := by
  have hset : ∀ {new : SendPhase}, new.Holds id (s.entry id) (s.appendedWith id) request → (new.taking = some id →
      ∀ other ∈ s.tasks, other.phase.taking ≠ some id) → SendInv id known (s.setTask task request new) :=
    fun hnew htaking => h.set hi rfl rfl rfl hnew fun ht => .inr (htaking ht)
  cases hp : prepareMessage maxMessageBytes s.clientMutations request server with
  | error err => exact hset nofun nofun
  | ok prepared =>
    obtain ⟨mutationId, hid, hspec⟩ := prepareMessage_ok hp
    cases prepared with
    | existing message =>
      refine hset (fun hc m he => ?_) nofun
      cases he
      rw [hc.eq hid] at hspec
      exact hspec.2
    | volatile message => exact hset (fun hc => absurd hspec hc.1) nofun
    | draft draft =>
      obtain ⟨hdurable, rfl, hnone⟩ := hspec
      have hcarries : draft.clientMutationId = some id → request.Carries id :=
        fun he => ⟨hdurable, he ▸ hid⟩
      refine hset ⟨hdurable, hid, fun he => ?_⟩ fun he => (halone _ _ hi (hcarries he)).1
      have hfree : s.entry id = none := by
        rw [he] at hnone
        exact hnone
      refine ⟨hfree, Classical.not_not.mp fun hne => ?_⟩
      have := (halone _ _ hi (hcarries he)).2 hne
      rw [show s.clientMutations[id]? = none from hfree] at this
      cases this

theorem SendState.appendedWith_append (s : SendState) (record : WalRecord) (id : String) :
    ({ s with appended := s.appended ++ [record] } : SendState).appendedWith id =
    s.appendedWith id ++
    (if clientMutationIdOf record = some id then [record] else []) := by
  simp only [SendState.appendedWith, filter_append, filter_cons, filter_nil, decide_eq_true_eq]

theorem SendInv.append {known : Prop} {s : SendState} {task : Nat} {request : SendMessageRequest}
    {draft : MessageDraft}
    (h : SendInv id known s) (hi : s.tasks[task]? = some ⟨request, .prepared draft⟩)
    (context : AppendContext)
    (outcome : AppendOutcome) :
    SendInv id known (appendStep lib s task request draft context outcome) := by
  obtain ⟨hdurable, hid, hfree⟩ := h.tasks _ (mem_of_getElem? hi)
  unfold appendStep
  dsimp only
  split
  · exact h.set hi rfl rfl rfl nofun nofun
  next record hrecord =>
  have hpayload : record.payload = .messageCreated draft := (signedRecord_data hrecord).1
  have hmutation := clientMutationIdOf_message hpayload
  -- with the record appended: either it has another id, or it is the first with the id
  have happend : ∀ {t : SendState} {new : SendPhase}, t.appended = s.appended ++ [record] →
      t.tasks = s.tasks.set task ⟨request, new⟩ → t.entry id = s.entry id → (draft.clientMutationId ≠ some id →
        new.Holds id (s.entry id) (s.appendedWith id) request ∧ new.taking ≠ some id) →
      (draft.clientMutationId = some id → new.Holds id none [record] request) →
      SendInv id known t := by
    intro t new ha ht he hother hsame
    have hrecords : t.appendedWith id = s.appendedWith id ++
        (if clientMutationIdOf record = some id then [record] else []) := by
      rw [← s.appendedWith_append record id, SendState.appendedWith, ha]
      rfl
    rw [hmutation] at hrecords
    by_cases hc : draft.clientMutationId = some id
    · obtain ⟨hentry, hnone⟩ := hfree hc
      rw [if_pos hc, hnone, nil_append] at hrecords
      refine h.take hi hentry hc ht (by rw [hrecords]; rfl) ?_
      rw [hrecords, he, hentry]
      exact hsame hc
    · rw [if_neg hc, append_nil] at hrecords
      exact h.set hi ht he hrecords (hother hc).1 fun hn => absurd hn (hother hc).2
  cases outcome with
  | acked =>
    refine happend rfl rfl rfl (fun hc => ⟨⟨draft, hpayload, hdurable, hid, fun he => absurd he hc⟩, ?_⟩) fun _ =>
      ⟨draft, hpayload, hdurable, hid, fun _ => ⟨rfl, rfl⟩⟩
    rw [SendPhase.taking, hmutation]
    exact hc
  | failed written err =>
    cases written with
    | true =>
      refine happend rfl rfl rfl (fun _ => ⟨fun _ _ he => ?_, nofun⟩) fun _ _ _ he => ?_ <;> cases he
    | false => exact h.set hi rfl rfl rfl nofun nofun

theorem SendInv.note {known : Prop} {s : SendState} {task : Nat} {request : SendMessageRequest}
    {record : WalRecord} (h : SendInv id known s)
    (hi : s.tasks[task]? = some ⟨request, .appended record⟩) :
    SendInv id known (noteStep s task request record) := by
  obtain ⟨draft, hpayload, -, hid, hfree⟩ := h.tasks _ (mem_of_getElem? hi)
  have hmutation := clientMutationIdOf_message hpayload
  by_cases hc : draft.clientMutationId = some id
  · obtain ⟨hentry, hrecords⟩ := hfree hc
    have hnoted : (noteStep s task request record).entry id = some (.messageCreated (draft.intoMessage record.lsn)) :=
        by
      refine noteCommittedMutationRecord_self ?_
      rw [committedMutationEntryFromWalRecord, hpayload]
      show draft.clientMutationId.map _ = _
      rw [hc]
      rfl
    refine h.take hi hentry (hmutation.trans hc) rfl h.count ?_
    exact ⟨draft, hpayload, hid, fun _ => hnoted⟩
  · refine h.set hi rfl (noteCommittedMutationRecord_of_ne (hmutation ▸ hc)) rfl ?_ nofun
    exact ⟨draft, hpayload, hid, fun he => absurd he hc⟩

theorem SendInv.answer {known : Prop} {s : SendState} {task : Nat} {request : SendMessageRequest}
    {record : WalRecord}
    (h : SendInv id known s) (hi : s.tasks[task]? = some ⟨request, .noted record⟩)
    (failure : Option ApiError) :
    SendInv id known (s.setTask task request (.answered (match failure with
      | some err => .error err
      | none => messageFromWalRecord record))) := by
  obtain ⟨draft, hpayload, hid, hentry⟩ := h.tasks _ (mem_of_getElem? hi)
  refine h.set hi rfl rfl rfl (fun hc message he => ?_) nofun
  cases failure with
  | some err => cases he
  | none =>
    rw [messageFromWalRecord, hpayload] at he
    cases he
    exact hentry (hc.eq hid)

theorem SendInv.step {e : SendEvent} (h : SendInv id known s) (halone : LooksUpAlone id s e)
    (hstep : SendStep lib maxMessageBytes s e t) : SendInv id known t := by
  cases hstep with
  | arrive => exact h.arrive _
  | lookUp hi => exact h.lookUp hi halone
  | refuse hi => exact h.set hi rfl rfl rfl nofun nofun
  | append hi => exact h.append hi _ _
  | note hi => exact h.note hi
  | answer hi => exact h.answer hi _

/-- No request has arrived, and the index of the log is any. -/
structure SendState.Idle (s : SendState) : Prop where
  tasks : s.tasks = []
  appended : s.appended = []

theorem SendState.Idle.inv (h : s.Idle) (id : String) : SendInv id (s.entry id).isSome s := by
  have hnone : s.appendedWith id = [] := by rw [SendState.appendedWith, h.appended]; rfl
  refine ⟨by simp [h.tasks], ?_, by rw [hnone]; exact Nat.zero_le 1, fun hk => ⟨hk, hnone⟩⟩
  intro i j a b hi
  rw [h.tasks] at hi
  cases hi

/-- The durable requests with one id append at most one record with it, and none
when the id was in the index before; and all that succeed answer the same
message: in every run in which each of them looks the id up alone. -/
theorem send_idempotent {maxMessageBytes : Nat} {s t : SendState} (hs : s.Idle) (id : String)
    (hrun : Reaches (SendStep lib maxMessageBytes) (LooksUpAlone id) s t) :
    (t.appendedWith id).length ≤ 1 ∧
    ((s.clientMutations[id]?).isSome → t.appendedWith id = []) ∧ ∀ a ∈ t.tasks, ∀ b ∈ t.tasks,
    a.request.Carries id →
    b.request.Carries id → ∀ m m', a.phase = .answered (.ok m) → b.phase = .answered (.ok m') →
    m = m' := by
  have hinv : SendInv id (s.entry id).isSome t :=
    hrun.invariant (fun _ _ _ h halone hstep => h.step halone hstep) (hs.inv id)
  refine ⟨hinv.count, fun hk => (hinv.known hk).2, ?_⟩
  intro a ha b hb hca hcb m m' hm hm'
  have hanswer := hinv.tasks a ha
  have hanswer' := hinv.tasks b hb
  rw [hm] at hanswer
  rw [hm'] at hanswer'
  have heq := (hanswer hca m rfl).symm.trans (hanswer' hcb m' rfl)
  injection heq with heq
  injection heq

/-! ## Two requests with one id -/

def sampleSend : SendMessageRequest := ⟨"r", "u", "b", [], .strict, some "c"⟩

def sampleSurroundings (id : String) : Surroundings where
  acceptingWrites := .ok ()
  id
  nowMs := 0
  resolveObjectRefs _ := .ok []
  validateMessageDraft _ := .ok ()

def sampleDraft (id : String) : MessageDraft :=
  ⟨id, some "c", "r", "u", "b", [], 0, messagePath .strict "r" id⟩

def sampleContext : AppendContext := ⟨0, 1, "n", 1, 0⟩

def sampleId : Nat → String
  | 1 => "01970000-0000-7000-8000-000000000001"
  | _ => "01970000-0000-7000-8000-000000000002"

def sampleMaterial (lsn : Nat) : WalRecordChecksumMaterial :=
  ⟨lsn, 0, 1, "n", 0, 1, .strict, .messageCreated (sampleDraft (sampleId lsn))⟩

/-- The JSON text of `sampleMaterial`. -/
def sampleJson (lsn : Nat) : Bytes :=
  let text := s!"\x7b\"lsn\":{lsn},\"shard\":0,\"shardEpoch\":1,\"ownerNodeId\":\"n\"," ++
    "\"timestampMs\":0,\"schemaVersion\":1,\"durability\":\"strict\",\"payload\":\x7b" ++
    "\"type\":\"messageCreated\",\"message\":\x7b" ++
    s!"\"id\":\"{sampleId lsn}\",\"clientMutationId\":\"c\",\"roomId\":\"r\",\"senderId\":\"u\"," ++
    s!"\"body\":\"b\",\"attachments\":[],\"createdAtMs\":0," ++
    s!"\"path\":\"rooms/r/messages/{sampleId lsn}\"\x7d\x7d\x7d"
  text.toUTF8.toList

/-- The SHA-256 of that text. -/
def sampleDigest : Nat → Bytes
  | 1 =>
    [0xce, 0x7e, 0xd6, 0xa5, 0x49, 0x61, 0x0c, 0xae, 0x9c, 0xe4, 0xae, 0x05, 0xe1, 0xe2, 0xef,
     0xf5, 0x86, 0x11, 0xd8, 0x37, 0xaa, 0x50, 0x95, 0xec, 0xda, 0x88, 0x16, 0x13, 0x8d, 0x0a,
     0x48, 0x37]
  | _ =>
    [0x93, 0x4c, 0xc1, 0x0c, 0x49, 0x78, 0xdc, 0x06, 0xa2, 0x5d, 0x77, 0xfa, 0x6e, 0x7a, 0x1b,
     0x41, 0x1e, 0x73, 0x96, 0xe8, 0xc8, 0xb7, 0x60, 0x39, 0xdd, 0xd4, 0x9a, 0xe7, 0x14, 0x56,
     0x20, 0x21]

/-- The libraries at `sampleMaterial`. -/
def sendLibraries : Libraries :=
  { sampleLibraries with
    materialToVec
      | ⟨lsn, 0, 1, "n", 0, 1, .strict, .messageCreated draft⟩ =>
        if draft = sampleDraft (sampleId lsn) then .ok (sampleJson lsn) else bail "not sampled"
      | _ => bail "not sampled"
    sha256 := fun bytes => if bytes = sampleJson 1 then sampleDigest 1 else sampleDigest 2 }

def sampleSent (lsn : Nat) : WalRecord where
  lsn
  shard := 0
  shardEpoch := 1
  ownerNodeId := "n"
  timestampMs := 0
  schemaVersion := 1
  durability := .strict
  payload := .messageCreated (sampleDraft (sampleId lsn))
  checksum := some ("sha256:" ++ hexLower (sendLibraries.sha256 (sampleJson lsn)))

theorem signedRecord_sampleSent (lsn : Nat) : signedRecord sendLibraries 0 ⟨lsn, 1, "n", .strict, 1,
    .messageCreated (sampleDraft (sampleId lsn)), 0⟩ = .ok (sampleSent lsn) := by
  have hm : sendLibraries.materialToVec (sampleMaterial lsn) = .ok (sampleJson lsn) := if_pos rfl
  exact congrArg (fun r => (r >>= fun bytes => .ok ("sha256:" ++ hexLower (sendLibraries.sha256 bytes)) :
    Result String) >>= fun checksum => .ok { sampleSent lsn with checksum := some checksum }) hm

def sampleSendState (nextLsn currentLsn : Nat) (clientMutations : BTreeMap String CommittedMutation)
    (appended : List WalRecord) (phases : List SendPhase) : SendState :=
  ⟨nextLsn, currentLsn, clientMutations, appended, phases.map (⟨sampleSend, ·⟩)⟩

theorem lookUp_sample (id : String) (hi : s.tasks[task]? = some ⟨sampleSend, .started⟩)
    (hfree : s.clientMutations["c"]? = none) :
    SendStep sendLibraries 0 s (.lookUp task (sampleSurroundings id))
    (s.setTask task sampleSend (.prepared (sampleDraft id))) := by
  have hp : prepareMessage 0 s.clientMutations sampleSend (sampleSurroundings id) = .ok (.draft (sampleDraft id)) := by
    have hn : normalizeClientMutationId (some "c") = .ok (some "c") := rfl
    have hfind : findCommittedMutation s.clientMutations (some "c") = none := hfree
    have hbody : ¬ trim "b" = "" := by decide
    simp [prepareMessage, sampleSurroundings, sampleSend, hn, hfind, hbody, bind, Except.bind, ensureBytesLimit,
      sampleDraft]
  have h : SendStep sendLibraries 0 s (.lookUp task (sampleSurroundings id)) _ := .lookUp hi
  rwa [hp] at h

theorem append_sample
    (hi : s.tasks[task]? = some ⟨sampleSend, .prepared (sampleDraft (sampleId (s.nextLsn + 1)))⟩) :
    SendStep sendLibraries 0 s (.append task sampleContext .acked)
      { s.setTask task sampleSend (.appended (sampleSent (s.nextLsn + 1))) with
        nextLsn := s.nextLsn + 1
        appended := s.appended ++ [sampleSent (s.nextLsn + 1)] } := by
  have h : SendStep sendLibraries 0 s (.append task sampleContext .acked) _ := .append hi
  rw [appendStep] at h
  have hs : signedRecord sendLibraries sampleContext.shard ⟨s.nextLsn + 1, sampleContext.shardEpoch,
      sampleContext.ownerNodeId, sampleSend.durability, sampleContext.schemaVersion,
      .messageCreated (sampleDraft (sampleId (s.nextLsn + 1))), sampleContext.nowMs⟩ =
        .ok (sampleSent (s.nextLsn + 1)) := signedRecord_sampleSent _
  dsimp only at h
  rwa [hs] at h

/-- What the index holds after the note of a sample. -/
theorem noted_sample (clientMutations : BTreeMap String CommittedMutation) (lsn : Nat) :
    (noteCommittedMutationRecord clientMutations (sampleSent lsn))["c"]? =
    some (.messageCreated ((sampleDraft (sampleId lsn)).intoMessage lsn)) :=
  noteCommittedMutationRecord_self rfl

def sampleIdle : SendState := sampleSendState 0 0 ∅ [] []

theorem sampleIdle_idle : sampleIdle.Idle := ⟨rfl, rfl⟩

theorem sampleSend_carries : sampleSend.Carries "c" := ⟨nofun, rfl⟩

def sampleAnswer (lsn : Nat) : SendPhase :=
  .answered (.ok ((sampleDraft (sampleId lsn)).intoMessage lsn))

theorem note_sample (lsn : Nat)
    (hi : s.tasks[task]? = some ⟨sampleSend, .appended (sampleSent lsn)⟩) :
    SendStep sendLibraries 0 s (.note task) (noteStep s task sampleSend (sampleSent lsn)) :=
  .note hi

theorem answer_sample (lsn : Nat)
    (hi : s.tasks[task]? = some ⟨sampleSend, .noted (sampleSent lsn)⟩) :
    SendStep sendLibraries 0 s (.answer task none) (s.setTask task sampleSend (sampleAnswer lsn)) :=
  .answer hi

/-- Two requests arrive. -/
theorem arrive_sample {meets : SendState → SendEvent → Prop}
    (hmeets : ∀ s, meets s (.arrive sampleSend)) :
    Reaches (SendStep sendLibraries 0) meets sampleIdle (sampleSendState 0 0 ∅ [] [.started,
    .started]) :=
  ((Reaches.refl _).tail (hmeets _) .arrive).tail (hmeets _) .arrive

/-- The second request looks the id up when the first has been answered. -/
theorem send_idempotent_sample :
    let t := sampleSendState 1 1 (noteCommittedMutationRecord ∅ (sampleSent 1)) [sampleSent 1]
      [sampleAnswer 1, sampleAnswer 1]
    (t.appendedWith "c").length ≤ 1 ∧ ((sampleIdle.clientMutations["c"]?).isSome → t.appendedWith "c" = []) ∧
      ∀ a ∈ t.tasks, ∀ b ∈ t.tasks, a.request.Carries "c" → b.request.Carries "c" →
        ∀ m m', a.phase = .answered (.ok m) → b.phase = .answered (.ok m') → m = m' := by
  let index := noteCommittedMutationRecord ∅ (sampleSent 1)
  let prepared := sampleSendState 0 0 ∅ [] [.prepared (sampleDraft (sampleId 1)), .started]
  let appended := sampleSendState 1 0 ∅ [sampleSent 1] [.appended (sampleSent 1), .started]
  let noted := sampleSendState 1 1 index [sampleSent 1] [.noted (sampleSent 1), .started]
  let answered := sampleSendState 1 1 index [sampleSent 1] [sampleAnswer 1, .started]
  have hprepared : Reaches (SendStep sendLibraries 0) (LooksUpAlone "c") sampleIdle prepared := by
    refine (arrive_sample fun _ => trivial).tail (e := SendEvent.lookUp 0 (sampleSurroundings (sampleId 1))) ?_
      (lookUp_sample (sampleId 1) rfl rfl)
    intro request phase _ _
    refine ⟨fun other hmem => ?_, fun h => absurd rfl h⟩
    have : other = ⟨sampleSend, .started⟩ := by simpa [sampleSendState] using hmem
    rw [this]
    nofun
  have happended :=
    hprepared.tail (u := appended) (e := SendEvent.append 0 sampleContext .acked) trivial (append_sample rfl)
  have hnoted := happended.tail (u := noted) (e := SendEvent.note 0) trivial (note_sample 1 rfl)
  have hanswered := hnoted.tail (u := answered) (e := SendEvent.answer 0 none) trivial (answer_sample 1 rfl)
  have hlookUp : SendStep sendLibraries 0 answered (.lookUp 1 (sampleSurroundings "")) _ := .lookUp rfl
  have hfound : prepareMessage 0 index sampleSend (sampleSurroundings "") =
      .ok (.existing ((sampleDraft (sampleId 1)).intoMessage 1)) := by
    have hn : normalizeClientMutationId (some "c") = .ok (some "c") := rfl
    have hfind : findCommittedMutation index (some "c") = _ := noted_sample ∅ 1
    have hbody : ¬ trim "b" = "" := by decide
    simp [prepareMessage, sampleSurroundings, sampleSend, hn, hfind, hbody, bind, Except.bind]
  rw [show answered.clientMutations = index from rfl, hfound] at hlookUp
  refine send_idempotent sampleIdle_idle "c" (hanswered.tail ?_ hlookUp)
  intro request phase _ _
  refine ⟨fun other hmem => ?_, fun _ => ?_⟩
  · have : other = ⟨sampleSend, sampleAnswer 1⟩ ∨ other = ⟨sampleSend, .started⟩ := by
      simpa [answered, sampleSendState] using hmem
    rcases this with rfl | rfl <;> nofun
  · show (index["c"]?).isSome
    rw [noted_sample]
    rfl

/-- Two requests look the id up before either notes it: both append a record, and
answer different messages. -/
theorem send_duplicated_sample :
    ∃ t, sampleIdle.Idle ∧ Reaches (SendStep sendLibraries 0) (fun _ _ => True) sampleIdle
    t ∧ (t.appendedWith "c").length = 2 ∧ ∃ a ∈ t.tasks, ∃ b ∈ t.tasks, a.request.Carries "c" ∧
    b.request.Carries "c" ∧
    ∃ m m', a.phase = .answered (.ok m) ∧ b.phase = .answered (.ok m') ∧ m ≠ m' := by
  let index := noteCommittedMutationRecord ∅ (sampleSent 1)
  let index' := noteCommittedMutationRecord index (sampleSent 2)
  let log := [sampleSent 1, sampleSent 2]
  let first := SendPhase.prepared (sampleDraft (sampleId 1))
  let second := SendPhase.prepared (sampleDraft (sampleId 2))
  have h2 := (@arrive_sample (fun _ _ => True) fun _ => trivial).tail (u := sampleSendState 0 0 ∅ [] [first, .started])
    (e := SendEvent.lookUp 0 (sampleSurroundings (sampleId 1)))
    trivial (lookUp_sample (sampleId 1) rfl rfl)
  have h3 := h2.tail (u := sampleSendState 0 0 ∅ [] [first, second])
    (e := SendEvent.lookUp 1 (sampleSurroundings (sampleId 2))) trivial (lookUp_sample (sampleId 2) rfl rfl)
  have h4 := h3.tail (u := sampleSendState 1 0 ∅ [sampleSent 1] [.appended (sampleSent 1), second])
    (e := SendEvent.append 0 sampleContext .acked) trivial (append_sample rfl)
  have h5 := h4.tail (u := sampleSendState 2 0 ∅ log [.appended (sampleSent 1), .appended (sampleSent 2)])
    (e := SendEvent.append 1 sampleContext .acked) trivial (append_sample rfl)
  have h6 := h5.tail (u := sampleSendState 2 1 index log [.noted (sampleSent 1), .appended (sampleSent 2)])
    (e := SendEvent.note 0) trivial (note_sample 1 rfl)
  have h7 := h6.tail (u := sampleSendState 2 2 index' log [.noted (sampleSent 1), .noted (sampleSent 2)])
    (e := SendEvent.note 1) trivial (note_sample 2 rfl)
  have h8 := h7.tail (u := sampleSendState 2 2 index' log [sampleAnswer 1, .noted (sampleSent 2)])
    (e := SendEvent.answer 0 none) trivial (answer_sample 1 rfl)
  have h9 := h8.tail (u := sampleSendState 2 2 index' log [sampleAnswer 1, sampleAnswer 2])
    (e := SendEvent.answer 1 none) trivial (answer_sample 2 rfl)
  refine ⟨_, sampleIdle_idle, h9, rfl, _, mem_cons_self, _, mem_cons_of_mem _ mem_cons_self, sampleSend_carries,
    sampleSend_carries, _, _, rfl, rfl, ?_⟩
  exact fun h => absurd (congrArg Message.lsn h) (by decide)

end NextDb.Api
