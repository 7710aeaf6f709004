import NextDb.Api.DurableMutation
import NextDb.Api.SendMessage

/-!
# Idempotent replies

All durable writes of all users share one map of client mutation ids. A write is answered from the
map if a mutation of its kind is under its id; nothing else of the two is compared. The map is
what the log says, also after a restart.

* `idempotent_reply`: an answer describes the request with the same id that committed the mutation.
* `reply_of_another_user`: that may be another user's.
-/

namespace NextDb.Api.IdempotentReply

open List

open RecordCommit (RecordOperation nestedRecordKey)
open Records (nestedRecordTable)
open Run
open Actor (ScopeLibraries shardIndex)

/-! ## Requests -/

structure SendMessagesItem where
  body : String
  clientMutationId : Option String
  attachments : List String

inductive DurableRequest where
  | mutate (mutation : Mutation) (clientMutationId : Option String)
  | sendMessages (roomId userId : String) (messages : List SendMessagesItem)
  | recordBatch (operations : List RecordOperation) (clientMutationId : Option String)

/-- A write of a request, under its id. -/
structure Part where
  clientMutationId : Option String
  mutation : Mutation

def maxBatchMessages : Nat := 10000
def maxRecordTransactionOperations : Nat := 500
def maxRecordBatchOperations : Nat := 5000

def sendMessagesParts (maxMessageBytes : Nat) (roomId userId : String) :
    List String → List SendMessagesItem → Except ApiError (List Part)
  | _, [] => .ok []
  | seen, item :: items =>
    if (trim item.body).isEmpty then .error (.badRequest "message body cannot be empty")
    else do
      ensureBytesLimit "message body" item.body.utf8ByteSize maxMessageBytes
      let part : Part :=
        ⟨← normalizeClientMutationId item.clientMutationId, .sendMessage roomId userId item.body item.attachments⟩
      match part.clientMutationId with
      | none => (sendMessagesParts maxMessageBytes roomId userId seen items).map (part :: ·)
      | some id =>
        if seen.contains id then .error (.badRequest "duplicate clientMutationId in sendMessages batch")
        else (sendMessagesParts maxMessageBytes roomId userId (id :: seen) items).map (part :: ·)

def recordTransactionOperationShardKey : RecordOperation → String
  | .upsert table key _ | .delete table key => s!"{table}:{key}"
  | .nestedUpsert table parentKey _ _ _ | .nestedDelete table parentKey _ _ => s!"{table}:{parentKey}"

def recordTransactionOperationIdentity : RecordOperation → String
  | .upsert table key _ | .delete table key => s!"{table}/{key}"
  | .nestedUpsert table parentKey nested nestedKey _ | .nestedDelete table parentKey nested nestedKey =>
    s!"{nestedRecordTable table nested}/{nestedRecordKey parentKey nestedKey}"

/-- The digest of the ids, the shards and the limit of a message. -/
structure Config where
  sha256 : Bytes → Bytes
  scopes : ScopeLibraries
  shardCount : Nat
  maxMessageBytes : Nat

variable (cfg : Config)

def recordBatchChildClientMutationId (base : String) (shard chunkIndex : Nat)
    (splitTransaction : Bool) : String :=
  if !splitTransaction then base
  else
    let suffix := s!":s{shard}p{chunkIndex}"
    if base.utf8ByteSize + suffix.utf8ByteSize ≤ 160 then base ++ suffix
    else
      let digest := String.ofList ((hexLower (cfg.sha256 base.toUTF8.toList)).toList.take 16)
      let marker := s!":h{digest}"
      let keep := 160 - (marker.utf8ByteSize + suffix.utf8ByteSize)
      String.ofList (base.toList.take keep) ++ marker ++ suffix

def ensureRecordBatchKeysOnce : List String → List RecordOperation → Except ApiError Unit
  | _, [] => .ok ()
  | seen, operation :: operations =>
    let identity := recordTransactionOperationIdentity operation
    if seen.contains identity then
      .error (.badRequest s!"record batch contains duplicate operation for {identity}")
    else ensureRecordBatchKeysOnce (identity :: seen) operations

/-- The operations of each shard. -/
def recordBatchGroups (operations : List RecordOperation) : BTreeMap Nat (List RecordOperation) :=
  operations.foldl (fun groups operation =>
    let shard := shardIndex cfg.scopes (recordTransactionOperationShardKey operation) cfg.shardCount
    groups.insert shard (groups[shard]?.getD [] ++ [operation])) ∅

/-- A transaction for each chunk of a shard's operations. -/
def recordBatchParts (operations : List RecordOperation) (clientMutationId : Option String) :
    Except ApiError (List Part) := do
  ensureRecordBatchKeysOnce [] operations
  let groups := (recordBatchGroups cfg operations).toList
  let splitTransaction := 1 < groups.length || groups.any fun group => maxRecordTransactionOperations < group.2.length
  let chunks := groups.flatMap fun group =>
    ((group.2.toChunks maxRecordTransactionOperations).zipIdx).map fun chunk => (group.1, chunk.2, chunk.1)
  chunks.mapM fun chunk => do
    let id ← normalizeClientMutationId (clientMutationId.map fun base =>
      recordBatchChildClientMutationId cfg base chunk.1 chunk.2.1 splitTransaction)
    return ⟨id, .recordTransaction chunk.2.2⟩

/-- The writes that a request comes to. -/
def DurableRequest.parts : DurableRequest → Except ApiError (List Part)
  | .mutate mutation clientMutationId => do
    return [⟨← normalizeClientMutationId clientMutationId, mutation⟩]
  | .sendMessages roomId userId messages =>
    if messages.isEmpty then .error (.badRequest "messages cannot be empty")
    else if messages.length > maxBatchMessages then
      .error (.badRequest s!"messages exceeds batch limit: {messages.length} > {maxBatchMessages}")
    else sendMessagesParts cfg.maxMessageBytes roomId userId [] messages
  | .recordBatch operations clientMutationId =>
    if operations.isEmpty then .error (.badRequest "record batch requires at least one operation")
    else if operations.length > maxRecordBatchOperations then
      .error (.badRequest s!"record batch supports at most {maxRecordBatchOperations} operations")
    else do
      recordBatchParts cfg operations (← normalizeClientMutationId clientMutationId)

/-! ## The server -/

/-- How far a part of a request has come. -/
inductive Phase where
  | started
  /-- Nothing is under its id. -/
  | absent
  | appended (record : WalRecord)
  | noted (record : WalRecord)
  /-- From the map, or from its own record. -/
  | answered (response : CommittedMutation)
  | refused (err : ApiError)
  /-- The server was restarted. -/
  | stopped

/-- A part of a request on its way. -/
structure Process where
  request : Nat
  part : Part
  phase : Phase

/-- A record of the log, and the write that appended it. -/
structure Committed where
  record : WalRecord
  process : Nat

/-- The log, the index of replies, and the requests with their processes. -/
structure ServerState where
  clientMutations : BTreeMap String CommittedMutation
  wal : List Committed
  requests : List DurableRequest
  processes : List Process

def ServerState.setPhase (self : ServerState) (i : Nat) (process : Process) (phase : Phase) :
    ServerState :=
  { self with processes := self.processes.set i { process with phase } }

def phaseOfReplay : Except ApiError (Option CommittedMutation) → Phase
  | .error err => .refused err
  | .ok (some response) => .answered response
  | .ok none => .absent

/-- What a write without a record answers. -/
def unrecordedResponse : Mutation → Option CommittedMutation
  | .deleteObject objectId _ => some (.objectDeleted ⟨objectId, false, 0, none,
    s!"objects/{objectId}"⟩)
  | .commitRecord operation =>
    match operation.mutation 0 none with
    | .upsert _ => none
    | .delete record => some (.recordDeleted ⟨record.table, record.key, false, 0, none,
    record.path⟩)
  | .recordTransaction _ => some (.recordTransactionCommitted ⟨0, []⟩)
  | _ => none

def Phase.stop : Phase → Phase
  | .answered response => .answered response
  | .refused err => .refused err
  | _ => .stopped

/-- Requests, look-ups, appends and their ends, and restarts. -/
inductive ReplyEvent where
  | arrive (request : DurableRequest)
  | lookUp (i : Nat)
  | append (i : Nat) (context : CommitContext) (record : WalRecord) (acked : Bool)
  | answerUnrecorded (i : Nat) (context : CommitContext)
  | note (i : Nat)
  | answer (i : Nat)
  | refuse (i : Nat) (err : ApiError)
  | restart (records : List WalRecord)

/-- The writes of the requests take their steps in any order. Any other check of a write may refuse
it, and what comes after its record may fail. A restart reads the log, or what is left of it. -/
inductive ReplyStep : ServerState → ReplyEvent → ServerState → Prop
  | arrive {s : ServerState} {request} {parts : List Part}
      (hparts : request.parts cfg = .ok parts) :
      ReplyStep s (.arrive request)
        { s with
          requests := s.requests ++ [request]
          processes := s.processes ++ parts.map (⟨s.requests.length, ·, .started⟩) }
  | lookUp {s : ServerState} {i} {process : Process} (hi : s.processes[i]? = some process)
      (hphase : process.phase = .started) :
      ReplyStep s (.lookUp i) (s.setPhase i process (phaseOfReplay (replay process.part.mutation.kind
          (findCommittedMutation s.clientMutations process.part.clientMutationId))))
  | append {s : ServerState} {i process context record acked} (hi : s.processes[i]? = some process)
      (hphase : process.phase = .absent)
      (hpayload : process.part.mutation.payload cfg.sha256 context process.part.clientMutationId =
        .ok (some record.payload)) :
      ReplyStep s (.append i context record acked)
        { s.setPhase i process (if acked then .appended record else .refused (.internal ⟨"",
        []⟩)) with
          wal := s.wal ++ [⟨record, i⟩] }
  | answerUnrecorded {s : ServerState} {i process context response}
      (hi : s.processes[i]? = some process) (hphase : process.phase = .absent)
      (hpayload : process.part.mutation.payload cfg.sha256 context process.part.clientMutationId = .ok none)
      (hresponse : unrecordedResponse process.part.mutation = some response) :
      ReplyStep s (.answerUnrecorded i context) (s.setPhase i process (.answered response))
  | note {s : ServerState} {i process record} (hi : s.processes[i]? = some process)
      (hphase : process.phase = .appended record) :
      ReplyStep s (.note i)
        { s.setPhase i process (.noted record) with
          clientMutations := noteCommittedMutationRecord s.clientMutations record }
  | answer {s : ServerState} {i process record response}
      (hi : s.processes[i]? = some process) (hphase : process.phase = .noted record)
      (hresponse : committedResponse record = some response) :
      ReplyStep s (.answer i) (s.setPhase i process (.answered response))
  | refuse {s : ServerState} {i process} (err : ApiError) (hi : s.processes[i]? = some process)
      (hphase : ∀ response, process.phase ≠ .answered response) :
      ReplyStep s (.refuse i err) (s.setPhase i process (.refused err))
  | restart {s : ServerState} {records}
      (hrecords : ∀ record ∈ records, ∃ committed ∈ s.wal, committed.record = record) :
      ReplyStep s (.restart records)
        { s with
          clientMutations := clientMutationIndexFromWalRecords records
          processes := s.processes.map fun process => { process with phase := process.phase.stop } }

/-- A server without requests. -/
structure Fresh (s : ServerState) : Prop where
  clientMutations : s.clientMutations = ∅
  wal : s.wal = []
  requests : s.requests = []
  processes : s.processes = []

/-! ## Answers -/

/-- A mutation of the log under this id: its record, and the write that appended it. -/
structure ServerState.CommittedAs (s : ServerState) (id : String) (response : CommittedMutation)
    (committed : Committed) : Prop where
  mem : committed ∈ s.wal
  entry : committedMutationEntryFromWalRecord committed.record = some (id, response)

/-- An answer to a write with an id: a mutation of its kind under its id, that some write with the
id committed and that describes that write; that is the write itself, or the write has no record. -/
def ServerState.AnswersPart (self : ServerState) (i : Nat) (part : Part)
    (response : CommittedMutation) : Prop :=
  ∀ id, part.clientMutationId = some id → response.kind = part.mutation.kind ∧
    ∃ committed, self.CommittedAs id response committed ∧
      (∃ process, self.processes[committed.process]? = some process ∧ process.part.clientMutationId = some id ∧
        response.Describes cfg.sha256 process.part.mutation) ∧
      (committed.process = i ∨ ∀ other ∈ self.wal, other.process ≠ i)

/-- The answer to a request: those of all its writes, in their order. -/
def ServerState.Replied (self : ServerState) (request : Nat) (responses : List CommittedMutation) :
    Prop :=
  List.Forall₂ (fun process response => process.phase = .answered response)
    (self.processes.filter (·.request = request)) responses

/-- It has no record. -/
def Phase.isFresh : Phase → Bool
  | .started | .absent => true
  | _ => false

/-- A reply in the index is that of a record in the log, and each record is of one process. -/
structure Inv (s : ServerState) : Prop where
  indexed : ∀ (id : String) response, s.clientMutations[id]? = some response →
    ∃ committed, s.CommittedAs id response committed
  committed : ∀ committed ∈ s.wal, ∃ process, s.processes[committed.process]? = some process ∧
    process.phase.isFresh = false ∧ clientMutationIdOf committed.record = process.part.clientMutationId ∧
    ∃ response, committedResponse committed.record = some response ∧ response.Describes cfg.sha256 process.part.mutation
  own : ∀ i process record, s.processes[i]? = some process →
    process.phase = .appended record ∨ process.phase = .noted record → ⟨record, i⟩ ∈ s.wal
  answers : ∀ i process response, s.processes[i]? = some process → process.phase = .answered response →
    s.AnswersPart cfg i process.part response
  requests : ∀ process ∈ s.processes, process.request < s.requests.length
  parts : ∀ (k : Nat) request, s.requests[k]? = some request →
    request.parts cfg = .ok ((s.processes.filter (·.request = k)).map (·.part))

variable {cfg} {s t : ServerState}

/-- A write belongs to a request, and asks for what it asks for. -/
def Process.ticket (self : Process) : Nat × Part := (self.request, self.part)

variable {processes : List Process} {phase : Phase} {record : WalRecord}
  {found : Except ApiError (Option CommittedMutation)}

theorem partsOf_eq {processes' : List Process} {k : Nat}
    (h : processes'.map Process.ticket = processes.map Process.ticket) :
    (processes'.filter (·.request = k)).map (·.part) =
    (processes.filter (·.request = k)).map (·.part) := by
  have htickets : ∀ processes : List Process, (processes.filter (·.request = k)).map (·.part) =
      ((processes.map Process.ticket).filter (·.1 = k)).map (·.2) := by
    intro processes
    rw [filter_map, map_map]
    rfl
  rw [htickets, htickets, h]

variable {i : Nat} {process : Process} {response : CommittedMutation}

theorem set_ticket (hi : processes[i]? = some process) :
    (processes.set i { process with phase }).map Process.ticket = processes.map Process.ticket := by
  refine ext_getElem? fun j => ?_
  rw [getElem?_map, getElem?_map]
  by_cases hij : i = j
  · subst hij
    rw [getElem?_set_self_of hi, hi]
    rfl
  · rw [getElem?_set_ne hij]

theorem Fresh.inv (h : Fresh s) : Inv cfg s where
  indexed id response hid := by simp [h.clientMutations] at hid
  committed := by simp [h.wal]
  own i process record hi := by simp [h.processes] at hi
  answers i process response hi := by simp [h.processes] at hi
  requests := by simp [h.processes]
  parts k request hk := by simp [h.requests] at hk

/-- An answer stays one while others append. -/
theorem ServerState.AnswersPart.mono {part : Part} (h : s.AnswersPart cfg i part response)
    (hwal : ∀ committed ∈ s.wal, committed ∈ t.wal) (hprocesses : ∀ (j : Nat) process,
    s.processes[j]? = some process → ∃ process', t.processes[j]? = some process' ∧
      process'.part = process.part)
    (hothers : ∀ committed ∈ t.wal, committed ∈ s.wal ∨ committed.process ≠ i) :
    t.AnswersPart cfg i part response := by
  intro id hid
  obtain ⟨hkind, committed, hcommitted, ⟨process, hprocess, hsame, hdescribes⟩, hown⟩ := h id hid
  obtain ⟨process', hprocess', hpart⟩ := hprocesses _ process hprocess
  refine ⟨hkind, committed, ⟨hwal committed hcommitted.mem, hcommitted.entry⟩, ⟨process', hprocess', ?_, ?_⟩,
    hown.imp_right fun hnone other hother => ?_⟩
  · rw [hpart]
    exact hsame
  · rw [hpart]
    exact hdescribes
  · exact (hothers other hother).elim (hnone other) fun hne => hne

/-- A write that has its record answers from it. -/
theorem Inv.answersOwn (h : Inv cfg s) (hi : s.processes[i]? = some process)
    (hmem : ⟨record, i⟩ ∈ s.wal)
    (hresponse : committedResponse record = some response) :
    s.AnswersPart cfg i process.part response := by
  obtain ⟨process', hprocess', -, hsame, response', hresponse', hdescribes⟩ := h.committed _ hmem
  cases hi.symm.trans hprocess'
  cases hresponse.symm.trans hresponse'
  intro id hid
  have hentry := committedMutationEntryFromWalRecord_eq_some.mpr ⟨hsame.trans hid, hresponse⟩
  exact ⟨hdescribes.kind_eq, ⟨record, i⟩, ⟨hmem, hentry⟩, ⟨process, hi, hid, hdescribes⟩, .inl rfl⟩

/-- A write that finds its id answers from what is under it. -/
theorem Inv.answersFound (h : Inv cfg s) (hi : s.processes[i]? = some process)
    (hfresh : process.phase.isFresh = true)
    (hfound : findCommittedMutation s.clientMutations process.part.clientMutationId = some response)
    (hkind : response.kind = process.part.mutation.kind) :
    s.AnswersPart cfg i process.part response := by
  intro id hid
  rw [findCommittedMutation, hid] at hfound
  obtain ⟨committed, hcommitted⟩ := h.indexed id response hfound
  obtain ⟨hrecordId, hresponse⟩ := committedMutationEntryFromWalRecord_eq_some.mp hcommitted.entry
  obtain ⟨other, hother, -, hsame, response', hresponse', hdescribes⟩ := h.committed _ hcommitted.mem
  cases hresponse.symm.trans hresponse'
  refine ⟨hkind, committed, hcommitted, ⟨other, hother, hsame.symm.trans hrecordId, hdescribes⟩, .inr ?_⟩
  intro committed' hcommitted' hprocess
  obtain ⟨process', hprocess', hnot, -⟩ := h.committed _ hcommitted'
  rw [hprocess, hi] at hprocess'
  cases hprocess'
  rw [hfresh] at hnot
  cases hnot

/-- A write goes on. -/
theorem Inv.setPhase (h : Inv cfg s) {clientMutations : BTreeMap String CommittedMutation}
    {wal : List Committed}
    (hi : s.processes[i]? = some process) (hwal : ∀ committed ∈ s.wal, committed ∈ wal)
    (hadded : ∀ committed ∈ wal, committed ∈ s.wal ∨ committed.process = i ∧
      clientMutationIdOf committed.record = process.part.clientMutationId ∧
      ∃ response, committedResponse committed.record = some response ∧
        response.Describes cfg.sha256 process.part.mutation)
    (hindexed : ∀ (id : String) response, clientMutations[id]? = some response →
      s.clientMutations[id]? = some response ∨
      ∃ committed ∈ wal, committedMutationEntryFromWalRecord committed.record = some (id, response))
    (hfresh : phase.isFresh = true → process.phase.isFresh = true ∧ wal = s.wal)
    (hown : ∀ record, phase = .appended record ∨ phase = .noted record → ⟨record, i⟩ ∈ wal)
    (hanswer : ∀ response, phase = .answered response → wal = s.wal ∧
      s.AnswersPart cfg i process.part response) :
    Inv cfg { s.setPhase i process phase with clientMutations, wal } := by
  have hprocesses : ∀ (j : Nat) other, s.processes[j]? = some other →
      ∃ other', (s.processes.set i { process with phase })[j]? = some other' ∧ other'.part = other.part := by
    intro j other hj
    by_cases hij : i = j
    · subst hij
      cases hi.symm.trans hj
      exact ⟨_, getElem?_set_self_of hi, rfl⟩
    · exact ⟨other, (getElem?_set_ne hij).trans hj, rfl⟩
  refine {
    indexed := fun id response hid => ?_
    committed := fun committed hmem => ?_
    own := fun j other record hj hphase => ?_
    answers := fun j other response hj hphase => ?_
    requests := fun other hother => ?_
    parts := fun k request hk => ?_ }
  · rcases hindexed id response hid with hold | ⟨committed, hmem, hentry⟩
    · obtain ⟨committed, hcommitted⟩ := h.indexed id response hold
      exact ⟨committed, hwal committed hcommitted.mem, hcommitted.entry⟩
    · exact ⟨committed, hmem, hentry⟩
  · rcases hadded committed hmem with hold | ⟨rfl, hid, hresponse⟩
    · obtain ⟨other, hother, hnot, hid, hresponse⟩ := h.committed committed hold
      by_cases hij : i = committed.process
      · subst hij
        cases hi.symm.trans hother
        refine ⟨_, getElem?_set_self_of hi, ?_, hid, hresponse⟩
        refine Bool.eq_false_iff.mpr fun hphase => ?_
        rw [(hfresh hphase).1] at hnot
        cases hnot
      · exact ⟨other, (getElem?_set_ne hij).trans hother, hnot, hid, hresponse⟩
    · refine ⟨_, getElem?_set_self_of hi, ?_, hid, hresponse⟩
      refine Bool.eq_false_iff.mpr fun hphase => ?_
      obtain ⟨hold, hsame⟩ := hfresh hphase
      obtain ⟨other, hother, hnot, -⟩ := h.committed committed (hsame ▸ hmem)
      cases hi.symm.trans hother
      rw [hold] at hnot
      cases hnot
  · rcases getElem?_set_cases hj with ⟨rfl, rfl⟩ | ⟨-, hj⟩
    · exact hown record hphase
    · exact hwal _ (h.own j other record hj hphase)
  · rcases getElem?_set_cases hj with ⟨rfl, rfl⟩ | ⟨hij, hj⟩
    · obtain ⟨hsame, hanswers⟩ := hanswer response hphase
      exact hanswers.mono hwal hprocesses fun committed hmem => .inl (hsame ▸ hmem)
    · refine (h.answers j other response hj hphase).mono hwal hprocesses fun committed hmem => ?_
      refine (hadded committed hmem).imp_right fun hnew => ?_
      rw [hnew.1]
      exact Ne.symm hij
  · rcases mem_or_eq_of_mem_set hother with hother | rfl
    · exact h.requests other hother
    · exact h.requests process (mem_of_getElem? hi)
  · exact (h.parts k request hk).trans (congrArg Except.ok (partsOf_eq (set_ticket hi)).symm)

theorem Inv.arrive (h : Inv cfg s) {request : DurableRequest} {parts : List Part}
    (hparts : request.parts cfg = .ok parts) :
    Inv cfg { s with
      requests := s.requests ++ [request]
      processes := s.processes ++ parts.map (⟨s.requests.length, ·, .started⟩) } := by
  have hnew : ∀ process ∈ parts.map (⟨s.requests.length, ·, .started⟩ : Part → Process),
      process.request = s.requests.length ∧ process.phase = .started := by
    intro process hprocess
    obtain ⟨part, -, rfl⟩ := mem_map.mp hprocess
    exact ⟨rfl, rfl⟩
  have hcases : ∀ (i : Nat) process, (s.processes ++ parts.map (⟨s.requests.length, ·, .started⟩))[i]? = some process →
      s.processes[i]? = some process ∨ process.phase = .started := by
    intro i process hi
    rw [getElem?_append] at hi
    split at hi
    · exact .inl hi
    · exact .inr (hnew process (mem_of_getElem? hi)).2
  have hkeeps : ∀ (i : Nat) process, s.processes[i]? = some process →
      (s.processes ++ parts.map (⟨s.requests.length, ·, .started⟩))[i]? = some process := by
    intro i process hi
    rw [List.getElem?_append_left (List.getElem?_eq_some_iff.mp hi).1]
    exact hi
  refine {
    indexed := fun id response hid => (h.indexed id response hid).imp fun _ hc => ⟨hc.mem, hc.entry⟩
    committed := fun committed hmem => ?_
    own := fun i process record hi hphase => ?_
    answers := fun i process response hi hphase => ?_
    requests := fun process hprocess => ?_
    parts := fun k request' hk => ?_ }
  · obtain ⟨process, hprocess, hrest⟩ := h.committed committed hmem
    exact ⟨process, hkeeps _ process hprocess, hrest⟩
  · rcases hcases i process hi with hi | hstarted
    · exact h.own i process record hi hphase
    · rw [hstarted] at hphase
      rcases hphase with hphase | hphase
      · cases hphase
      · cases hphase
  · rcases hcases i process hi with hi | hstarted
    · refine (h.answers i process response hi hphase).mono (fun _ hmem => hmem)
        (fun j other hj => ⟨other, hkeeps j other hj, rfl⟩) fun _ hmem => .inl hmem
    · rw [hstarted] at hphase
      cases hphase
  · rw [length_append, length_singleton]
    rcases mem_append.mp hprocess with hprocess | hprocess
    · exact Nat.lt_succ_of_lt (h.requests process hprocess)
    · rw [(hnew process hprocess).1]
      exact Nat.lt_succ_self _
  · rw [filter_append, map_append]
    rcases getElem?_push_cases hk with hk | ⟨rfl, rfl⟩
    · have hne : k ≠ s.requests.length := Nat.ne_of_lt (List.getElem?_eq_some_iff.mp hk).1
      have hnone : (parts.map (⟨s.requests.length, ·, .started⟩ : Part → Process)).filter (·.request = k) = [] :=
        filter_eq_nil_iff.mpr fun process hprocess => by simpa [(hnew process hprocess).1] using Ne.symm hne
      rw [hnone, map_nil, append_nil]
      exact h.parts k request' hk
    · have hnone : s.processes.filter (·.request = s.requests.length) = [] :=
        filter_eq_nil_iff.mpr fun process hprocess => by simpa using Nat.ne_of_lt (h.requests process hprocess)
      have hall : (parts.map (⟨s.requests.length, ·, .started⟩ : Part → Process)).filter
          (·.request = s.requests.length) = parts.map (⟨s.requests.length, ·, .started⟩) :=
        filter_eq_self.mpr fun process hprocess => by simpa using (hnew process hprocess).1
      rw [hnone, hall, map_map, hparts]
      exact congrArg Except.ok (map_id' parts).symm

theorem Inv.restart (h : Inv cfg s) {records : List WalRecord}
    (hrecords : ∀ record ∈ records, ∃ committed ∈ s.wal, committed.record = record) :
    Inv cfg { s with
      clientMutations := clientMutationIndexFromWalRecords records
      processes := s.processes.map fun process => { process with phase := process.phase.stop } } := by
  have hcases : ∀ (i : Nat) process,
      (s.processes.map fun process => { process with phase := process.phase.stop })[i]? = some process →
      ∃ old, s.processes[i]? = some old ∧ process = { old with phase := old.phase.stop } := by
    intro i process hi
    rw [getElem?_map] at hi
    obtain ⟨old, hold, rfl⟩ := Option.map_eq_some_iff.mp hi
    exact ⟨old, hold, rfl⟩
  have hkeeps : ∀ (i : Nat) process, s.processes[i]? = some process →
      (s.processes.map fun process => { process with phase := process.phase.stop })[i]? =
        some { process with phase := process.phase.stop } := by
    intro i process hi
    rw [getElem?_map, hi]
    rfl
  refine {
    indexed := fun id response hid => ?_
    committed := fun committed hmem => ?_
    own := fun i process record hi hphase => ?_
    answers := fun i process response hi hphase => ?_
    requests := fun process hprocess => ?_
    parts := fun k request hk => ?_ }
  · obtain ⟨record, hrecord, hentry⟩ := clientMutationIndexFromWalRecords_eq_some hid
    obtain ⟨committed, hmem, rfl⟩ := hrecords record hrecord
    exact ⟨committed, hmem, hentry⟩
  · obtain ⟨process, hprocess, -, hrest⟩ := h.committed committed hmem
    refine ⟨_, hkeeps _ process hprocess, ?_, hrest⟩
    show process.phase.stop.isFresh = false
    cases process.phase with
    | _ => rfl
  · obtain ⟨old, -, rfl⟩ := hcases i process hi
    have hphase : old.phase.stop = .appended record ∨ old.phase.stop = .noted record := hphase
    cases hold : old.phase with
    | _ => simp [hold, Phase.stop] at hphase
  · obtain ⟨old, hold, rfl⟩ := hcases i process hi
    have hphase : old.phase.stop = .answered response := hphase
    have hanswered : old.phase = .answered response := by
      cases hold : old.phase with
      | answered response' => rwa [hold] at hphase
      | _ => simp [hold, Phase.stop] at hphase
    refine (h.answers i old response hold hanswered).mono (fun _ hmem => hmem)
      (fun j other hj => ⟨_, hkeeps j other hj, rfl⟩) fun _ hmem => .inl hmem
  · obtain ⟨old, hold, rfl⟩ := mem_map.mp hprocess
    exact h.requests old hold
  · refine (h.parts k request hk).trans (congrArg Except.ok (partsOf_eq ?_).symm)
    rw [map_map]
    rfl

theorem replay_eq_some {kind : MutationKind} {found : Option CommittedMutation}
    (h : replay kind found = .ok (some response)) :
    found = some response ∧ response.kind = kind := by
  unfold replay at h
  split at h
  · cases h
  · split at h
    · next hkind =>
      cases h
      exact ⟨rfl, hkind⟩
    · cases h

theorem phaseOfReplay_eq_answered (h : phaseOfReplay found = .answered response) :
    found = .ok (some response) := by
  unfold phaseOfReplay at h
  split at h
  · cases h
  · cases h
    rfl
  · cases h

theorem phaseOfReplay_ne :
    phaseOfReplay found ≠ .appended record ∧ phaseOfReplay found ≠ .noted record := by
  unfold phaseOfReplay
  split
  · exact ⟨nofun, nofun⟩
  · exact ⟨nofun, nofun⟩
  · exact ⟨nofun, nofun⟩

theorem Inv.step (h : Inv cfg s) {e : ReplyEvent} (hstep : ReplyStep cfg s e t) : Inv cfg t := by
  have hsame : ∀ committed ∈ s.wal, committed ∈ s.wal := fun _ hmem => hmem
  cases hstep with
  | arrive hparts => exact h.arrive hparts
  | @lookUp i process hi hphase =>
    have hfresh : process.phase.isFresh = true := by rw [hphase]; rfl
    refine h.setPhase hi hsame (fun _ hmem => .inl hmem) (fun _ _ hid => .inl hid) (fun _ => ⟨hfresh, rfl⟩)
      (fun record hown => ?_) fun response hanswer => ⟨rfl, ?_⟩
    · exact absurd hown (not_or.mpr phaseOfReplay_ne)
    · obtain ⟨hfound, hkind⟩ := replay_eq_some (phaseOfReplay_eq_answered hanswer)
      exact h.answersFound hi hfresh hfound hkind
  | @append i process context record acked hi hphase hpayload =>
    obtain ⟨hid, hdescribes⟩ := Mutation.describes_of_payload hpayload
    refine h.setPhase hi (fun _ hmem => mem_append_left _ hmem) (fun committed hmem => ?_) (fun _ _ hid => .inl hid)
      (fun hfresh => ?_) (fun record' hown => ?_) fun response hanswer => ?_
    · refine (mem_append.mp hmem).imp_right fun hnew => ?_
      rw [mem_singleton.mp hnew]
      exact ⟨rfl, hid, hdescribes⟩
    · split at hfresh
      · cases hfresh
      · cases hfresh
    · split at hown
      · rcases hown with hown | hown
        · cases hown
          exact mem_append_right _ (mem_singleton_self _)
        · cases hown
      · rcases hown with hown | hown
        · cases hown
        · cases hown
    · split at hanswer
      · cases hanswer
      · cases hanswer
  | @answerUnrecorded i process context response hi hphase hpayload hresponse =>
    refine h.setPhase hi hsame (fun _ hmem => .inl hmem) (fun _ _ hid => .inl hid) nofun (fun record hown => ?_)
      fun response' _ => ⟨rfl, fun id hid => ?_⟩
    · rcases hown with hown | hown
      · cases hown
      · cases hown
    · rw [hid] at hpayload
      exact absurd hpayload Mutation.payload_ne_none
  | @note i process record hi hphase =>
    have hmem := h.own i process record hi (.inl hphase)
    refine h.setPhase hi hsame (fun _ hmem => .inl hmem) (fun id response hid => ?_) nofun
      (fun record' hown => ?_) nofun
    · exact (noteCommittedMutationRecord_eq_some hid).imp_right fun hentry => ⟨_, hmem, hentry⟩
    · rcases hown with hown | hown
      · cases hown
      · cases hown
        exact hmem
  | @answer i process record response hi hphase hresponse =>
    have hmem := h.own i process record hi (.inr hphase)
    refine h.setPhase hi hsame (fun _ hmem => .inl hmem) (fun _ _ hid => .inl hid) nofun (fun record' hown => ?_)
      fun response' hanswer => ⟨rfl, ?_⟩
    · rcases hown with hown | hown
      · cases hown
      · cases hown
    · cases hanswer
      exact h.answersOwn hi hmem hresponse
  | @refuse i process err hi hphase =>
    refine h.setPhase hi hsame (fun _ hmem => .inl hmem) (fun _ _ hid => .inl hid) nofun (fun record' hown => ?_) nofun
    rcases hown with hown | hown
    · cases hown
    · cases hown
  | restart hrecords => exact h.restart hrecords

/-- The answer to a request answers each of its writes that has an id from a mutation of the log
under the id and of the kind of the write. It describes the write that committed the mutation,
which is the write itself unless it has no record. -/
theorem idempotent_reply (hs : Fresh s) (hrun : Reaches (ReplyStep cfg) (fun _ _ => True) s t)
    {k : Nat} {request : DurableRequest} (hrequest : t.requests[k]? = some request)
    {responses : List CommittedMutation} (hreplied : t.Replied k responses) :
    ∃ parts, request.parts cfg = .ok parts ∧
    List.Forall₂ (fun part response => ∃ i process, t.processes[i]? = some process ∧
    process.request = k ∧
    process.part = part ∧ t.AnswersPart cfg i part response) parts responses := by
  have ht : Inv cfg t := hrun.invariant (fun _ _ _ h _ hstep => h.step hstep) hs.inv
  refine ⟨_, ht.parts k request hrequest, forall₂_map_left_iff.mpr ?_⟩
  have hmembers : Forall₂ (fun (process : Process) response => (process ∈ t.processes ∧ process.request = k) ∧
      process.phase = .answered response) (t.processes.filter (·.request = k)) responses := by
    refine (forall₂_and_left _ _).mpr ⟨fun process hprocess => ?_, hreplied⟩
    obtain ⟨hmem, hk⟩ := mem_filter.mp hprocess
    exact ⟨hmem, of_decide_eq_true hk⟩
  refine hmembers.imp fun process response h => ?_
  obtain ⟨⟨hmem, hk⟩, hphase⟩ := h
  obtain ⟨i, hi⟩ := mem_iff_getElem?.mp hmem
  exact ⟨i, process, hi, hk, rfl, ht.answers i process response hi hphase⟩

section Sample

def single : Config := ⟨fun _ => [], ⟨fun _ => 0, fun _ => 0⟩, 1, 0⟩

def empty : ServerState := ⟨∅, [], [], []⟩

theorem empty_fresh : Fresh empty := ⟨rfl, rfl, rfl, rfl⟩

def hello : Mutation := .sendMessage "general" "alice" "hello" []
def secret : Mutation := .sendMessage "private" "bob" "secret" []

def helloRecord : WalRecord where
  lsn := 1
  shard := 0
  shardEpoch := 1
  ownerNodeId := "n"
  timestampMs := 0
  schemaVersion := 1
  durability := .strict
  payload := .messageCreated ⟨"1", some "m", "general", "alice", "hello", [], 0, "rooms/general/messages/1"⟩
  checksum := none

def helloMessage : CommittedMutation :=
  .messageCreated ⟨"1", "general", "alice", "hello", [], 0, 1, "rooms/general/messages/1"⟩

theorem parts_single (mutation : Mutation) :
    (DurableRequest.mutate mutation (some "m")).parts single = .ok [⟨some "m", mutation⟩] := rfl

/-- Alice sends a message, and Bob another under the same id. -/
def answered : ServerState where
  clientMutations := noteCommittedMutationRecord ∅ helloRecord
  wal := [⟨helloRecord, 0⟩]
  requests := [.mutate hello (some "m"), .mutate secret (some "m")]
  processes := [⟨0, ⟨some "m", hello⟩, .answered helloMessage⟩, ⟨1, ⟨some "m", secret⟩, .answered helloMessage⟩]

def secretArrived : ServerState :=
  { answered with processes :=
      [⟨0, ⟨some "m", hello⟩, .answered helloMessage⟩, ⟨1, ⟨some "m", secret⟩, .started⟩] }

theorem lookUp_secret : ReplyStep single secretArrived (.lookUp 1) answered := by
  have hfound : findCommittedMutation (noteCommittedMutationRecord ∅ helloRecord) (some "m") = some helloMessage :=
    @noteCommittedMutationRecord_self ∅ helloRecord "m" helloMessage rfl
  have hstep : ReplyStep single secretArrived (.lookUp 1) (secretArrived.setPhase 1 ⟨1, ⟨some "m", secret⟩, .started⟩
      (phaseOfReplay (replay .messageCreated
        (findCommittedMutation (noteCommittedMutationRecord ∅ helloRecord) (some "m"))))) := .lookUp rfl rfl
  rw [hfound] at hstep
  exact hstep

theorem reaches_answered : Reaches (ReplyStep single) (fun _ _ => True) empty answered := by
  have hempty : Reaches (ReplyStep single) (fun _ _ => True) empty empty := Reaches.refl empty
  have harrived := hempty.take (.arrive (parts_single hello)) trivial
  have hlooked := harrived.take (.lookUp (i := 0) rfl rfl) trivial
  have hcommitted := ((hlooked.take (@ReplyStep.append single _ 0 ⟨0, ⟨some "m", hello⟩, .absent⟩
    ⟨"1", 0, fun _ => none, fun _ _ => false, none⟩ helloRecord true rfl rfl rfl) trivial).take
    (.note (i := 0) rfl rfl) trivial).take (.answer (i := 0) rfl rfl rfl) trivial
  have hsecond := hcommitted.take (.arrive (parts_single secret)) trivial
  exact hsecond.take lookUp_secret trivial

theorem answered_replied : answered.Replied 1 [helloMessage] := .cons rfl .nil

/-- Bob is answered with Alice's message, which committed the id. -/
theorem idempotent_reply_sample :
    ∃ (t : ServerState) (parts : List Part),
    (DurableRequest.mutate secret (some "m")).parts single = .ok parts ∧
    List.Forall₂ (fun part response => ∃ i process, t.processes[i]? = some process ∧
    process.request = 1 ∧
    process.part = part ∧ t.AnswersPart single i part response) parts [helloMessage] :=
  ⟨answered, idempotent_reply (k := 1) empty_fresh reaches_answered rfl answered_replied⟩

/-- An answer may describe the write of another user. -/
theorem reply_of_another_user :
    ¬ ∀ (cfg : Config) (s t : ServerState) (k : Nat) (request : DurableRequest)
    (parts : List Part) (responses : List CommittedMutation), Fresh s →
    Reaches (ReplyStep cfg) (fun _ _ => True) s t →
    t.requests[k]? = some request → request.parts cfg = .ok parts → t.Replied k responses →
    List.Forall₂ (fun part response => part.clientMutationId.isSome →
    response.Describes cfg.sha256 part.mutation) parts
    responses := by
  intro h
  have hall := h single empty answered 1 _ _ _ empty_fresh reaches_answered rfl (parts_single secret) answered_replied
  have hroom : "general" = "private" := ((forall₂_cons.mp hall).1 rfl).1
  exact absurd hroom (by decide)

end Sample

end NextDb.Api.IdempotentReply
