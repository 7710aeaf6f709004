import NextDb.Api.HostHttp

/-!
# Host HTTP requests in a run

A command looks its request up, appends it to the log and puts it into the index, and then
spawns a task, which makes the call, schedules the callback and appends the completion. Commands,
tasks and whatever else schedules reminders go on at the same time. A crash leaves the log; the
index is made from it, and the calls that have no callback yet are made again.

* `host_http_exactly_once`: a request is in the log once, its callback is scheduled, and no more
  than once without a crash, and the index is that of the log when nothing is under way: in every
  run in which no command looks an id up while another one with the id has yet to enter it, a
  crash finds no reminder that can be taken for a callback that is not scheduled, every callback
  can be scheduled and what is appended is reported as appended.
-/

namespace NextDb.Api.HostHttp

open Run Wal List Option Std.ExtTreeMap

/-! ## The server -/

/-- What is on its way to the log, and the calls. -/
inductive Work where
  /-- A command that has found no request with its id. -/
  | requesting (request : HostHttpRequest) (requestedAtMs : Nat)
  | executing (request : HostHttpRequest)
  | calling (request : HostHttpRequest) (reminder : ActorReminderDraft)
  | completing (request : HostHttpRequest) (completedAtMs : Nat)
  /-- A reminder that something else schedules. -/
  | reminding (reminder : ActorReminderDraft)
  | other (payload : WalPayload)

/-- How far the append of a task has come. -/
inductive Phase where
  | ready
  | allocated (lsn : Nat)
  | appended (lsn : Nat)
  | done

/-- A record that is to be appended. -/
structure Task where
  work : Work
  phase : Phase

/-- The log, the index of requests, and the tasks that are on their way. -/
structure ServerState where
  nextLsn : Nat
  /-- The archived and active records of each shard. -/
  files : List (List WalRecord × List WalRecord)
  requests : HostHttpRequestIndex
  tasks : List Task
  /-- The calls made, and what they gave. -/
  executed : List (String × Value)
  /-- The callbacks in the log. -/
  callbacks : List (String × WalRecord)
  crashes : Nat

def Work.payload : Work → Option WalPayload
  | .requesting request requestedAtMs => some (.hostHttpRequested (request.toDraft requestedAtMs))
  | .executing _ => none
  | .calling _ reminder | .reminding reminder => some (.actorReminderScheduled reminder)
  | .completing request completedAtMs => some (.hostHttpCompleted request.requestId completedAtMs)
  | .other payload => some payload

/-- The payloads that the index does not look at. -/
def Unindexed : WalPayload → Prop
  | .hostHttpRequested _ | .hostHttpCompleted .. | .actorReminderScheduled _ => False
  | _ => True

/-- The callback whose record a task appends. -/
def Work.callbackOf : Work → Option String
  | .calling request _ => some request.requestId
  | _ => none

/-- The log, as the readers of all shards read it. -/
def ServerState.walRecords (s : ServerState) : List WalRecord := readRecordsFromWalPaths s.files

def ServerState.setTask (s : ServerState) (i : Nat) (work : Work) (phase : Phase) : ServerState :=
  { s with tasks := s.tasks.set i ⟨work, phase⟩ }

/-- The log writer writes a record to its shard. -/
def ServerState.writeRecord (s : ServerState) (shard : Nat) (record : WalRecord)
    (callback : Option String) :
    ServerState :=
  { s with
    files := s.files.modify shard fun file => (file.1, file.2 ++ [record])
    callbacks := s.callbacks ++ (callback.toList.map fun requestId => (requestId, record)) }

/-- What follows an append: the index is changed, and the task goes on. -/
def ServerState.finish (s : ServerState) (i : Nat) (work : Work) (lsn nowMs : Nat) : ServerState :=
  match work with
  | .requesting request requestedAtMs =>
    { s.setTask i (.executing request) .ready with
      requests := s.requests.insert request.requestId ⟨request.toDraft requestedAtMs, lsn, .requested⟩ }
  | .calling request reminder =>
    { s.setTask i (.completing request nowMs) .ready with requests := noteHostHttpCallbackScheduled s.requests reminder }
  | .completing request completedAtMs =>
    { s.setTask i (.completing request completedAtMs) .done with
      requests := noteHostHttpCompleted s.requests request.requestId }
  | .reminding reminder =>
    { s.setTask i (.reminding reminder) .done with requests := noteHostHttpCallbackScheduled s.requests reminder }
  | work => s.setTask i work .done

variable (lib : HttpLibraries)

/-- `replay_pending_host_http_requests`. -/
def replayPendingHostHttpRequests (nowMs : Nat) (requests : List HostHttpRequestDraft) :
    List Task :=
  requests.filterMap fun draft =>
    (hostHttpRequestFromDraft lib nowMs draft).toOption.map fun request => ⟨.executing request, .ready⟩

/-- The server that is started on the log. -/
def ServerState.restart (s : ServerState) (nowMs : Nat) : ServerState where
  nextLsn := highestLsnOf s.walRecords
  files := s.files
  requests := hostHttpRequestIndexFromWalRecords s.walRecords
  tasks := replayPendingHostHttpRequests lib nowMs (pendingHostHttpRequestsFromWalRecords s.walRecords)
  executed := s.executed
  callbacks := s.callbacks
  crashes := s.crashes + 1

/-- Commands, calls, callbacks and the appends of their records. -/
inductive HostHttpEvent where
  | command (request : HostHttpRequest) (requestedAtMs : Nat)
  /-- The call gives a result, whose callback is to be scheduled. -/
  | executed (task : Nat) (result : Value) (newId : String) (acceptedAtMs dueAtMs : Nat)
  | remind (reminder : ActorReminderDraft)
  | other (payload : WalPayload)
  | allocate (task : Nat)
  | append (task : Nat) (shard : Nat) (record : WalRecord)
  | finish (task : Nat) (nowMs : Nat)
  /-- Nothing is appended, and the task ends. -/
  | fail (task : Nat)
  /-- What is appended is not reported as appended, or nobody waits for it any more. -/
  | lose (task : Nat)
  | crash (nowMs : Nat)

/-- What each event does to the log and the index. -/
inductive HostHttpStep : ServerState → HostHttpEvent → ServerState → Prop where
  | request {s : ServerState} {request requestedAtMs} : Accepted lib request →
    existingHostHttpRequest s.requests request = .ok none →
    HostHttpStep s (.command request requestedAtMs)
      { s with tasks := s.tasks ++ [⟨.requesting request requestedAtMs, .ready⟩] }
  | answered {s : ServerState} {request requestedAtMs} : existingHostHttpRequest s.requests request ≠ .ok none →
    HostHttpStep s (.command request requestedAtMs) s
  | executed {s : ServerState} {i : Nat} {request result newId acceptedAtMs dueAtMs reminder} :
    s.tasks[i]? = some ⟨.executing request, .ready⟩ →
    callbackReminder lib newId acceptedAtMs dueAtMs request result = .ok reminder →
    HostHttpStep s (.executed i result newId acceptedAtMs dueAtMs)
      { s.setTask i (.calling request reminder) .ready with executed := s.executed ++ [(request.requestId, result)] }
  | unscheduled {s : ServerState} {i : Nat} {request result newId acceptedAtMs dueAtMs err} :
    s.tasks[i]? = some ⟨.executing request, .ready⟩ →
    callbackReminder lib newId acceptedAtMs dueAtMs request result = .error err →
    HostHttpStep s (.executed i result newId acceptedAtMs dueAtMs)
      { s.setTask i (.executing request) .done with executed := s.executed ++ [(request.requestId, result)] }
  | remind {s : ServerState} {reminder} : trim reminder.actorKey = reminder.actorKey →
    HostHttpStep s (.remind reminder) { s with tasks := s.tasks ++ [⟨.reminding reminder, .ready⟩] }
  | other {s : ServerState} {payload} : Unindexed payload →
    HostHttpStep s (.other payload) { s with tasks := s.tasks ++ [⟨.other payload, .ready⟩] }
  | allocate {s : ServerState} {i : Nat} {work : Work} : s.tasks[i]? = some ⟨work, .ready⟩ → work.payload.isSome →
    HostHttpStep s (.allocate i) { s.setTask i work (.allocated (s.nextLsn + 1)) with nextLsn := s.nextLsn + 1 }
  | append {s : ServerState} {i shard : Nat} {work : Work} {record : WalRecord} :
    s.tasks[i]? = some ⟨work, .allocated record.lsn⟩ → work.payload = some record.payload → shard < s.files.length →
    HostHttpStep s (.append i shard record)
      ((s.writeRecord shard record work.callbackOf).setTask i work (.appended record.lsn))
  | finish {s : ServerState} {i nowMs : Nat} {work lsn} : s.tasks[i]? = some ⟨work, .appended lsn⟩ →
    HostHttpStep s (.finish i nowMs) (s.finish i work lsn nowMs)
  | failReady {s : ServerState} {i : Nat} {work : Work} : s.tasks[i]? = some ⟨work, .ready⟩ → work.payload.isSome →
    HostHttpStep s (.fail i) (s.setTask i work .done)
  | failAllocated {s : ServerState} {i : Nat} {work lsn} : s.tasks[i]? = some ⟨work, .allocated lsn⟩ →
    HostHttpStep s (.fail i) (s.setTask i work .done)
  | lose {s : ServerState} {i : Nat} {work lsn} : s.tasks[i]? = some ⟨work, .appended lsn⟩ →
    HostHttpStep s (.lose i) (s.setTask i work .done)
  | crash {s : ServerState} {nowMs} : HostHttpStep s (.crash nowMs) (s.restart lib nowMs)

/-! ## What a run has to meet -/

/-- The record is in a file of the log. -/
def ServerState.Logged (s : ServerState) (r : WalRecord) : Prop :=
  ∃ file ∈ s.files, r ∈ file.1 ++ file.2

/-- A callback of the request was made. -/
def ServerState.Called (s : ServerState) (requestId : String) : Prop :=
  ∃ r, (requestId, r) ∈ s.callbacks

/-- The command has found no request with the id and has not entered its own. -/
def Task.Entering (self : Task) (requestId : String) : Prop :=
  match self.work, self.phase with
  | .requesting _ _, .done => False
  | .requesting request _, _ => request.requestId = requestId
  | _, _ => False

/-- The requests of the log whose callbacks are not scheduled can be made again: no reminder has
been scheduled after them that can be taken for the callback, and their records are parsed. -/
def Recoverable (s : ServerState) (nowMs : Nat) : Prop :=
  ∀ r request, s.Logged r → r.payload = .hostHttpRequested request → ¬ s.Called request.requestId →
    ¬ After s.Logged r.lsn (RemindsHttp request) ∧ (hostHttpRequestFromDraft lib nowMs request).isOk

/-- What may end without a record. -/
def Work.MayFail : Work → Prop
  | .requesting .. | .completing .. | .reminding _ | .other _ => True
  | .executing _ | .calling .. => False

/-- What may be appended without changing the index. -/
def Work.MayBeLost : Work → Prop
  | .reminding _ | .other _ => True
  | .requesting .. | .completing .. | .executing _ | .calling .. => False

/-- The condition on the steps of a run. -/
def Sound (s : ServerState) : HostHttpEvent → Prop
  | .command request _ => ∀ task ∈ s.tasks, ¬ task.Entering request.requestId
  | .executed i result newId acceptedAtMs dueAtMs => ∀ request, s.tasks[i]? =
    some ⟨.executing request, .ready⟩ →
    (callbackReminder lib newId acceptedAtMs dueAtMs request result).isOk
  | .fail i => ∀ task, s.tasks[i]? = some task → task.work.MayFail
  | .lose i => ∀ task, s.tasks[i]? = some task → task.work.MayBeLost
  | .crash nowMs => Recoverable lib s nowMs
  | .remind _ | .other _ | .allocate _ | .append .. | .finish .. => True

/-- A server that was first started. -/
structure Fresh (s : ServerState) : Prop where
  files : ∀ file ∈ s.files, file = ([], [])
  requests : s.requests = ∅
  tasks : s.tasks = []
  executed : s.executed = []
  callbacks : s.callbacks = []
  crashes : s.crashes = 0

/-- Nothing is under way. -/
def Idle (s : ServerState) : Prop := ∀ task ∈ s.tasks, task.phase = .done

/-- The record schedules what a call of the request gave. -/
def IsCallback (s : ServerState) (request : HostHttpRequestDraft) (r : WalRecord) : Prop :=
  ∃ result dueAtMs, (request.requestId, result) ∈ s.executed ∧ r.payload = .actorReminderScheduled {
      actorKind := request.actorKind
      actorKey := trim request.actorKey
      reminderId := request.reminderId
      dueAtMs
      payload := some (hostHttpContinuationPayload request.continuation request.requestId request.method request.url
        result) }

/-! ## The invariant -/

def Phase.lsn : Phase → Option Nat
  | .allocated lsn | .appended lsn => some lsn
  | .ready | .done => none

/-- The request that a spawned task is about. -/
def Work.spawned : Work → Option HostHttpRequest
  | .executing request | .calling request _ | .completing request _ => some request
  | .requesting .. | .reminding _ | .other _ => none

/-- The task of a request has not ended. -/
def Task.Live (self : Task) (requestId : String) : Prop :=
  self.phase ≠ .done ∧ ∃ request, self.work.spawned = some request ∧ request.requestId = requestId

/-- The task is yet to append the callback. -/
def Task.Uncalled (self : Task) (requestId : String) : Prop :=
  self.Live requestId ∧
    match self.work, self.phase with
    | .completing .., _ | .calling .., .appended _ => False
    | _, _ => True

/-- Two tasks are not about one request, and have not allocated one LSN. -/
structure Task.Apart (task task' : Task) : Prop where
  entering : ∀ requestId, task.Entering requestId → ¬ task'.Entering requestId
  live : ∀ requestId, task.Live requestId → ¬ task'.Live requestId
  allocated : ∀ lsn, task.phase = .allocated lsn → task'.phase ≠ .allocated lsn

/-- An entry of the index, and what it may become. -/
structure Evolves (entry entry' : HostHttpRequestRecord) : Prop where
  request : entry'.request = entry.request
  requestedLsn : entry'.requestedLsn = entry.requestedLsn
  noted : entry.status ≠ .requested → entry'.status ≠ .requested
  completed : entry.status = .completed → entry'.status = .completed

/-- Nothing that was logged, executed or indexed is lost. -/
structure Grows (s t : ServerState) : Prop where
  logged : ∀ r, s.Logged r → t.Logged r
  executed : ∀ call ∈ s.executed, call ∈ t.executed
  callbacks : ∀ callback ∈ s.callbacks, callback ∈ t.callbacks
  entry : ∀ (requestId : String) entry, s.requests[requestId]? = some entry →
    ∃ entry', t.requests[requestId]? = some entry' ∧ Evolves entry entry'

/-- The index has been told of a callback, or of what can be taken for one. A callback is on the
key without the blanks around it, and is none of a request on a key with blanks. -/
def Settled (s : ServerState) (entry : HostHttpRequestRecord) : Prop :=
  trim entry.request.actorKey = entry.request.actorKey →
    entry.status ≠ .requested ∧ After s.Logged entry.requestedLsn (RemindsHttp entry.request)

/-- The request is indexed. -/
def HasEntry (s : ServerState) (request : HostHttpRequest) (entry : HostHttpRequestRecord) : Prop :=
  s.requests[request.requestId]? = some entry ∧ ∃ requestedAtMs, entry.request = request.toDraft requestedAtMs

/-- What the task has appended is its record, and its request was accepted. -/
structure Task.Ok (s : ServerState) (task : Task) : Prop where
  appended : ∀ lsn, task.phase = .appended lsn → ∃ r, s.Logged r ∧ r.lsn = lsn ∧ task.work.payload = some r.payload
  requesting : ∀ request requestedAtMs, task.work = .requesting request requestedAtMs → Accepted lib request
  executing : ∀ request, task.work = .executing request → Accepted lib request ∧ task.phase.lsn = none
  spawned : ∀ request, task.work.spawned = some request → ∃ entry, HasEntry s request entry ∧
    ∀ lsn, task.phase.lsn = some lsn → entry.requestedLsn < lsn
  calling : ∀ request reminder, task.work = .calling request reminder → Trimmed request.reminderId ∧
    (∃ result dueAtMs, (request.requestId, result) ∈ s.executed ∧ reminder = {
      actorKind := request.actorKind.asStr
      actorKey := trim request.actorKey
      reminderId := request.reminderId
      dueAtMs
      payload := some (hostHttpContinuationPayload request.continuation request.requestId request.method request.url
        result) }) ∧
    ∀ lsn, task.phase = .appended lsn → s.Called request.requestId
  completing : ∀ request completedAtMs, task.work = .completing request completedAtMs →
    s.Called request.requestId ∧ ∃ entry, HasEntry s request entry ∧ Settled s entry
  reminding : ∀ reminder, task.work = .reminding reminder → trim reminder.actorKey = reminder.actorKey
  other : ∀ payload, task.work = .other payload → Unindexed payload

/-- What the index has of a request is in the log. -/
structure EntryOk (s : ServerState) (requestId : String) (entry : HostHttpRequestRecord) :
    Prop where
  logged : ∃ r, s.Logged r ∧ r.payload = .hostHttpRequested entry.request ∧ entry.request.requestId = requestId ∧
    entry.requestedLsn = r.lsn
  completed : entry.status = .completed → ∃ r, s.Logged r ∧ CompletesHttp requestId r
  noted : entry.status = .callbackScheduled → trim entry.request.actorKey = entry.request.actorKey
  goesOn : entry.status = .completed ∨ Settled s entry ∨ ∃ task ∈ s.tasks, task.Live requestId
  called : s.Called requestId ∨ ∃ task ∈ s.tasks, task.Uncalled requestId

/-- A record of a request is indexed, or will be by the task that has appended it. -/
structure RecordOk (s : ServerState) (r : WalRecord) : Prop where
  accepted : ∀ draft, r.payload = .hostHttpRequested draft →
    ∃ request requestedAtMs, Accepted lib request ∧ draft = request.toDraft requestedAtMs
  requested : ∀ requestId, RequestsHttp requestId r → (s.requests[requestId]?).isSome ∨
    ∃ task ∈ s.tasks, task.phase = .appended r.lsn ∧ task.Entering requestId
  completed : ∀ requestId, CompletesHttp requestId r → s.Called requestId ∧
    ∃ entry, s.requests[requestId]? = some entry ∧ entry.requestedLsn < r.lsn ∧ (entry.status = .completed ∨
        ∃ task ∈ s.tasks, task.phase = .appended r.lsn ∧ task.Live requestId)
  reminds : ∀ reminder, r.payload = .actorReminderScheduled reminder → trim reminder.actorKey = reminder.actorKey

/-- No two records have one LSN, and no request is logged twice. -/
structure LogOk (s : ServerState) : Prop where
  bound : ∀ r, s.Logged r → r.lsn ≤ s.nextLsn
  distinct : ∀ r r', s.Logged r → s.Logged r' → r.lsn = r'.lsn → r = r'
  allocated : ∀ task ∈ s.tasks, ∀ lsn, task.phase = .allocated lsn → lsn ≤ s.nextLsn ∧ ∀ r, s.Logged r → r.lsn ≠ lsn
  once : RequestedOnce s.Logged

/-- The log, the index and the tasks agree. -/
structure Inv (s : ServerState) : Prop where
  log : LogOk s
  tasks : ∀ task ∈ s.tasks, Task.Ok lib s task
  entries : ∀ (requestId : String) entry, s.requests[requestId]? = some entry → EntryOk s requestId entry
  records : ∀ r, s.Logged r → RecordOk lib s r
  entering : ∀ task ∈ s.tasks, ∀ requestId, task.Entering requestId → s.requests[requestId]? = none
  apart : ∀ (i j : Nat) (task task' : Task), s.tasks[i]? = some task → s.tasks[j]? = some task' → i ≠ j →
    task.Apart task'
  callbacks : ∀ requestId r, (requestId, r) ∈ s.callbacks → s.Logged r ∧
    ∃ entry, s.requests[requestId]? = some entry ∧ entry.requestedLsn < r.lsn ∧ IsCallback s entry.request r
  never : s.crashes = 0 → (s.callbacks.map Prod.fst).Nodup ∧
    ∀ task ∈ s.tasks, ∀ requestId, task.Uncalled requestId → ¬ s.Called requestId

variable {lib} {s t : ServerState} {requestId : String} {task task' : Task}
    {entry : HostHttpRequestRecord}
  {r : WalRecord} {i nowMs : Nat} {work : Work} {reminder : ActorReminderDraft} {phase : Phase}

theorem Task.Uncalled.live (h : task.Uncalled requestId) : task.Live requestId := h.1

theorem Evolves.refl (entry : HostHttpRequestRecord) : Evolves entry entry := ⟨rfl, rfl, id, id⟩

theorem Evolves.noteReminder (entry : HostHttpRequestRecord) (reminder : ActorReminderDraft) :
    Evolves entry (entry.noteReminder reminder) := by
  refine ⟨entry.noteReminder_request _, entry.noteReminder_requestedLsn _, ?_, ?_⟩ <;>
    unfold HostHttpRequestRecord.noteReminder <;> split
  · exact fun _ => (by simp)
  · exact fun h => h
  · next hnote => exact fun h => by rw [hnote.2] at h; cases h
  · exact fun h => h

theorem Evolves.complete (entry : HostHttpRequestRecord) :
    Evolves entry { entry with status := .completed } :=
  ⟨rfl, rfl, fun _ => (by simp), fun _ => rfl⟩

variable {lsn : Nat} {request : HostHttpRequest}

theorem After.mono {log log' : WalRecord → Prop} {has : WalRecord → Prop} (h : After log lsn has)
    (hlog : ∀ r, log r → log' r) : After log' lsn has := by
  obtain ⟨r, hr, hlt, hhas⟩ := h
  exact ⟨r, hlog r hr, hlt, hhas⟩

variable {entry' : HostHttpRequestRecord} {requestedAtMs acceptedAtMs dueAtMs : Nat}
    {newId : String} {result : Value}
  {record : WalRecord} {change : String → HostHttpRequestRecord → HostHttpRequestRecord}
    {walRecords : List WalRecord}
  {draft : HostHttpRequestDraft}

theorem Settled.grow (h : Settled s entry) (hgrows : Grows s t) (he : Evolves entry entry') :
    Settled t entry' := by
  rw [Settled, he.request, he.requestedLsn]
  intro htrim
  obtain ⟨hstatus, hafter⟩ := h htrim
  exact ⟨he.noted hstatus, hafter.mono hgrows.logged⟩

theorem HasEntry.grow (h : HasEntry s request entry) (hgrows : Grows s t) :
    ∃ entry', HasEntry t request entry' ∧ Evolves entry entry' := by
  obtain ⟨hentry, requestedAtMs, hrequest⟩ := h
  obtain ⟨entry', hentry', he⟩ := hgrows.entry _ _ hentry
  exact ⟨entry', ⟨hentry', requestedAtMs, he.request.trans hrequest⟩, he⟩

theorem Called.grow (h : s.Called requestId) (hgrows : Grows s t) : t.Called requestId := by
  obtain ⟨r, hr⟩ := h
  exact ⟨r, hgrows.callbacks _ hr⟩

theorem Task.Ok.grow (h : task.Ok lib s) (hgrows : Grows s t) : task.Ok lib t where
  appended lsn hphase := by
    obtain ⟨r, hr, hlsn, hp⟩ := h.appended lsn hphase
    exact ⟨r, hgrows.logged r hr, hlsn, hp⟩
  requesting := h.requesting
  executing := h.executing
  spawned request hwork := by
    obtain ⟨entry, hentry, hlsn⟩ := h.spawned request hwork
    obtain ⟨entry', hentry', he⟩ := hentry.grow hgrows
    exact ⟨entry', hentry', fun lsn hphase => he.requestedLsn ▸ hlsn lsn hphase⟩
  calling request reminder hwork := by
    obtain ⟨htrimmed, ⟨result, dueAtMs, hexecuted, hreminder⟩, hcalled⟩ := h.calling request reminder hwork
    exact ⟨htrimmed, ⟨result, dueAtMs, hgrows.executed _ hexecuted, hreminder⟩,
      fun lsn hphase => Called.grow (hcalled lsn hphase) hgrows⟩
  completing request completedAtMs hwork := by
    obtain ⟨hcalled, hsettled⟩ := h.completing request completedAtMs hwork
    obtain ⟨entry, hentry, hsettled⟩ := hsettled
    obtain ⟨entry', hentry', he⟩ := hentry.grow hgrows
    exact ⟨Called.grow hcalled hgrows, entry', hentry', hsettled.grow hgrows he⟩
  reminding := h.reminding
  other := h.other

theorem IsCallback.grow {request : HostHttpRequestDraft} (h : IsCallback s request r)
    (hgrows : Grows s t) :
    IsCallback t request r := by
  obtain ⟨result, dueAtMs, hexecuted, hp⟩ := h
  exact ⟨result, dueAtMs, hgrows.executed _ hexecuted, hp⟩

theorem EntryOk.update (h : EntryOk s requestId entry) (hgrows : Grows s t)
    (he : Evolves entry entry')
    (hcompleted : entry'.status = .completed → entry.status = .completed ∨ ∃ r,
    t.Logged r ∧ CompletesHttp requestId r) (hnoted : entry'.status = .callbackScheduled →
    entry.status = .callbackScheduled ∨ trim entry.request.actorKey = entry.request.actorKey)
    (hlive : (∃ task ∈ s.tasks, task.Live requestId) → entry'.status = .completed ∨
      Settled t entry' ∨ ∃ task ∈ t.tasks,
    task.Live requestId)
    (huncalled : (∃ task ∈ s.tasks, task.Uncalled requestId) → t.Called requestId ∨
    ∃ task ∈ t.tasks, task.Uncalled requestId) : EntryOk t requestId entry' where
  logged := by
    obtain ⟨r, hr, hp, hid, hlsn⟩ := h.logged
    rw [he.request, he.requestedLsn]
    exact ⟨r, hgrows.logged r hr, hp, hid, hlsn⟩
  completed hstatus := by
    rcases hcompleted hstatus with hstatus | hlogged
    · obtain ⟨r, hr, hc⟩ := h.completed hstatus
      exact ⟨r, hgrows.logged r hr, hc⟩
    · exact hlogged
  noted hstatus := by
    rw [he.request]
    exact (hnoted hstatus).elim h.noted id
  goesOn := by
    rcases h.goesOn with hstatus | hsettled | hex
    · exact .inl (he.completed hstatus)
    · exact .inr (.inl (hsettled.grow hgrows he))
    · exact hlive hex
  called := by
    rcases h.called with hcalled | hex
    · exact .inl (Called.grow hcalled hgrows)
    · exact huncalled hex

theorem RecordOk.update (h : RecordOk lib s r) (hgrows : Grows s t)
    (hentering : ∀ requestId, (∃ task ∈ s.tasks, task.phase = .appended r.lsn ∧
      task.Entering requestId) →
    (t.requests[requestId]?).isSome ∨ ∃ task ∈ t.tasks, task.phase = .appended r.lsn ∧
      task.Entering requestId)
    (hlive : ∀ (requestId : String) entry, t.requests[requestId]? = some entry →
      CompletesHttp requestId r →
    (∃ task ∈ s.tasks, task.phase = .appended r.lsn ∧ task.Live requestId) →
      entry.status = .completed ∨
    ∃ task ∈ t.tasks, task.phase = .appended r.lsn ∧ task.Live requestId) : RecordOk lib t r where
  accepted := h.accepted
  reminds := h.reminds
  requested requestId hr := by
    rcases h.requested requestId hr with hsome | hex
    · obtain ⟨entry, hentry⟩ := isSome_iff_exists.mp hsome
      obtain ⟨entry', hentry', -⟩ := hgrows.entry _ _ hentry
      exact .inl (hentry' ▸ rfl)
    · exact hentering requestId hex
  completed requestId hc := by
    obtain ⟨hcalled, entry, hentry, hlt, hgoesOn⟩ := h.completed requestId hc
    obtain ⟨entry', hentry', he⟩ := hgrows.entry _ _ hentry
    refine ⟨Called.grow hcalled hgrows, entry', hentry', he.requestedLsn ▸ hlt, ?_⟩
    rcases hgoesOn with hstatus | hex
    · exact .inl (he.completed hstatus)
    · exact hlive requestId entry' hentry' hc hex

theorem grows_of_same (hfiles : t.files = s.files) (hrequests : t.requests = s.requests)
    (hcallbacks : t.callbacks = s.callbacks) (hexecuted : ∀ call ∈ s.executed, call ∈ t.executed) :
    Grows s t where
  logged r hr := by
    unfold ServerState.Logged
    rwa [hfiles]
  executed := hexecuted
  callbacks callback h := hcallbacks ▸ h
  entry requestId entry hentry := ⟨entry, by rw [hrequests]; exact hentry, .refl entry⟩

theorem exists_task_set (hi : s.tasks[i]? = some task) (htasks : t.tasks = s.tasks.set i task')
    {has : Task → Prop}
    (h : ∃ task ∈ s.tasks, has task) : has task ∨ ∃ task ∈ t.tasks, has task := by
  obtain ⟨other, hother, hhas⟩ := h
  obtain ⟨j, hj⟩ := mem_iff_getElem?.mp hother
  by_cases hij : i = j
  · subst hij
    cases hi.symm.trans hj
    exact .inl hhas
  · exact .inr ⟨other, mem_of_getElem? (by rw [htasks, getElem?_set_ne hij]; exact hj), hhas⟩

theorem self_mem_set (hi : s.tasks[i]? = some task) (htasks : t.tasks = s.tasks.set i task') :
    task' ∈ t.tasks :=
  mem_of_getElem? (htasks ▸ getElem?_set_self_of hi)

theorem Task.Apart.symm (h : task.Apart task') : task'.Apart task where
  entering requestId h' h'' := h.entering requestId h'' h'
  live requestId h' h'' := h.live requestId h'' h'
  allocated lsn h' h'' := h.allocated lsn h'' h'

/-- One task has gone on. -/
theorem apart_set (h : Inv lib s) (htasks : t.tasks = s.tasks.set i task')
    (hapart : ∀ (j : Nat) other, s.tasks[j]? = some other → j ≠ i → task'.Apart other) :
    ∀ (j k : Nat) (a b : Task), t.tasks[j]? = some a → t.tasks[k]? = some b → j ≠ k →
    a.Apart b := by
  intro j k a b hj hk hjk
  rw [htasks] at hj hk
  rcases getElem?_set_cases hj with ⟨rfl, rfl⟩ | ⟨hji, hj'⟩ <;>
    rcases getElem?_set_cases hk with ⟨rfl, rfl⟩ | ⟨hki, hk'⟩
  · exact absurd rfl hjk
  · exact hapart k b hk' hki
  · exact (hapart j a hj' hji).symm
  · exact h.apart j k a b hj' hk' hjk

/-- A task joins. -/
theorem apart_push (h : Inv lib s)
    (htasks : t.tasks = s.tasks ++ [task']) (hapart : ∀ other ∈ s.tasks, task'.Apart other) :
    ∀ (j k : Nat) (a b : Task), t.tasks[j]? = some a → t.tasks[k]? = some b → j ≠ k →
    a.Apart b := by
  intro j k a b hj hk hjk
  rw [htasks] at hj hk
  rcases getElem?_push_cases hj with hj' | ⟨rfl, rfl⟩ <;> rcases getElem?_push_cases hk with hk' | ⟨rfl, rfl⟩
  · exact h.apart j k a b hj' hk' hjk
  · exact (hapart a (mem_of_getElem? hj')).symm
  · exact hapart b (mem_of_getElem? hk')
  · exact absurd rfl hjk

/-- What a task does that only goes on keeps it apart from the others. -/
theorem Inv.apart_of (h : Inv lib s) (hi : s.tasks[i]? = some task)
    (hentering : ∀ requestId, task'.Entering requestId → task.Entering requestId)
    (hlive : ∀ requestId,
    task'.Live requestId → task.Live requestId)
    (hallocated : ∀ lsn, task'.phase = .allocated lsn → s.nextLsn < lsn)
    (j : Nat) (other : Task) (hj : s.tasks[j]? = some other) (hji : j ≠ i) : task'.Apart other := by
  have hapart := h.apart i j task other hi hj (Ne.symm hji)
  refine ⟨fun id h' => hapart.entering id (hentering id h'), fun id h' => hapart.live id (hlive id h'), ?_⟩
  intro lsn hphase hother
  have := (h.log.allocated other (mem_of_getElem? hj) lsn hother).1
  have := hallocated lsn hphase
  omega

theorem called_congr (hcallbacks : t.callbacks = s.callbacks) (requestId : String) :
    t.Called requestId ↔ s.Called requestId := by
  unfold ServerState.Called
  rw [hcallbacks]

/-! ## Tasks that join and go on -/

theorem Inv.push (h : Inv lib s) (hok : task'.Ok lib s)
    (hready : task'.phase = .ready) (hlive : ∀ requestId, ¬ task'.Live requestId)
    (hentering : ∀ requestId,
    task'.Entering requestId → s.requests[requestId]? = none ∧ ∀ other ∈ s.tasks,
      ¬ other.Entering requestId) :
    Inv lib { s with tasks := s.tasks ++ [task'] } := by
  have hgrows : Grows s { s with tasks := s.tasks ++ [task'] } := grows_of_same rfl rfl rfl fun _ h => h
  have hex : ∀ has : Task → Prop, (∃ task ∈ s.tasks, has task) → ∃ task ∈ s.tasks ++ [task'], has task :=
    fun has ⟨task, htask, hhas⟩ => ⟨task, mem_append_left _ htask, hhas⟩
  have hall : ∀ {has : Task → Prop}, (∀ task ∈ s.tasks, has task) → has task' → ∀ task ∈ s.tasks ++ [task'], has task :=
      by
    intro has hold hnew task htask
    rcases mem_append.mp htask with htask | htask
    · exact hold task htask
    · exact mem_singleton.mp htask ▸ hnew
  refine ⟨⟨h.log.bound, h.log.distinct, hall h.log.allocated fun lsn hphase => ?_, h.log.once⟩,
    hall (fun task htask => (h.tasks task htask).grow hgrows) (hok.grow hgrows), fun requestId entry hentry => ?_,
    fun r hr => ?_, hall h.entering fun requestId h' => (hentering requestId h').1, ?_, ?_, fun hcrashes => ?_⟩
  · rw [hready] at hphase
    cases hphase
  · exact (h.entries requestId entry hentry).update hgrows (.refl entry) .inl .inl
      (fun hold => .inr (.inr (hex _ hold))) fun hold => .inr (hex _ hold)
  · exact (h.records r hr).update hgrows (fun _ hold => .inr (hex _ hold)) fun _ _ _ _ hold => .inr (hex _ hold)
  · refine apart_push h rfl fun other hother => ⟨fun requestId h' => (hentering requestId h').2 other hother,
      fun requestId h' => absurd h' (hlive requestId), fun lsn hphase => ?_⟩
    rw [hready] at hphase
    cases hphase
  · intro requestId r hr
    obtain ⟨hlogged, entry, hentry, hlt, hcallback⟩ := h.callbacks requestId r hr
    exact ⟨hlogged, entry, hentry, hlt, hcallback.grow hgrows⟩
  · exact ⟨(h.never hcrashes).1, hall (h.never hcrashes).2 fun requestId h' => absurd h'.live (hlive requestId)⟩

/-- A task goes on, and the log and the index stay as they are. -/
theorem Inv.goOn (h : Inv lib s) (hi : s.tasks[i]? = some task)
    (htasks : t.tasks = s.tasks.set i task')
    (hfiles : t.files = s.files) (hrequests : t.requests = s.requests)
    (hcallbacks : t.callbacks = s.callbacks)
    (hcrashes : t.crashes = s.crashes) (hexecuted : ∀ call ∈ s.executed, call ∈ t.executed)
    (hnext : s.nextLsn ≤ t.nextLsn) (hok : task'.Ok lib t)
    (hentering : ∀ requestId, task'.Entering requestId →
    task.Entering requestId) (hlive : ∀ requestId, task'.Live requestId → task.Live requestId)
    (hallocated : ∀ lsn, task'.phase = .allocated lsn → s.nextLsn < lsn ∧ lsn ≤ t.nextLsn)
    (hphase : ∀ lsn requestId, task.phase = .appended lsn → ¬ task.Entering requestId ∧
      ¬ task.Live requestId)
    (hends : ∀ (requestId : String) entry,
    s.requests[requestId]? = some entry → task.Live requestId → task'.Live requestId ∨
      Settled s entry)
    (huncalled : ∀ requestId, task.Uncalled requestId ↔ task'.Uncalled requestId) : Inv lib t := by
  have hgrows : Grows s t := grows_of_same hfiles hrequests hcallbacks hexecuted
  have hlogged : t.Logged = s.Logged := by
    funext r
    unfold ServerState.Logged
    rw [hfiles]
  have hself : task' ∈ t.tasks := self_mem_set hi htasks
  have hall : ∀ {has : Task → Prop}, (∀ task ∈ s.tasks, has task) → has task' → ∀ task ∈ t.tasks, has task := by
    intro has hold hnew
    rw [htasks]
    exact forall_mem_set hold hnew
  refine ⟨⟨fun r hr => ?_, ?_, ?_, ?_⟩, hall (fun task htask => (h.tasks task htask).grow hgrows) hok,
    fun requestId entry hentry => ?_, fun r hr => ?_, ?_, ?_, ?_, fun hzero => ?_⟩
  · exact le_trans (h.log.bound r (hlogged ▸ hr)) hnext
  · rw [hlogged]
    exact h.log.distinct
  · rw [hlogged]
    refine hall (fun task htask lsn hp => ?_) fun lsn hp => ?_
    · exact ⟨le_trans (h.log.allocated task htask lsn hp).1 hnext, (h.log.allocated task htask lsn hp).2⟩
    · refine ⟨(hallocated lsn hp).2, fun r hr he => ?_⟩
      have := h.log.bound r hr
      have := (hallocated lsn hp).1
      omega
  · rw [hlogged]
    exact h.log.once
  · rw [hrequests] at hentry
    refine (h.entries requestId entry hentry).update hgrows (.refl entry) .inl .inl (fun hold => ?_) fun hold => ?_
    · rcases exists_task_set hi htasks hold with hl | hex
      · rcases hends requestId entry hentry hl with hl' | hsettled
        · exact .inr (.inr ⟨task', hself, hl'⟩)
        · exact .inr (.inl (hsettled.grow hgrows (.refl entry)))
      · exact .inr (.inr hex)
    · rcases exists_task_set hi htasks hold with hu | hex
      · exact .inr ⟨task', hself, (huncalled requestId).mp hu⟩
      · exact .inr hex
  · refine (h.records r (hlogged ▸ hr)).update hgrows (fun requestId hold => ?_) fun requestId entry _ _ hold => ?_
    · rcases exists_task_set hi htasks hold with ⟨hp, he⟩ | hex
      · exact absurd he (hphase _ requestId hp).1
      · exact .inr hex
    · rcases exists_task_set hi htasks hold with ⟨hp, hl⟩ | hex
      · exact absurd hl (hphase _ requestId hp).2
      · exact .inr hex
  · rw [hrequests]
    exact hall h.entering fun requestId h' =>
      h.entering task (mem_of_getElem? hi) requestId (hentering requestId h')
  · exact apart_set h htasks (h.apart_of hi hentering hlive fun lsn hp => (hallocated lsn hp).1)
  · intro requestId r hr
    rw [hcallbacks] at hr
    obtain ⟨hr, entry, hentry, hlt, hcallback⟩ := h.callbacks requestId r hr
    exact ⟨hgrows.logged r hr, entry, hrequests ▸ hentry, hlt, hcallback.grow hgrows⟩
  · rw [hcrashes] at hzero
    obtain ⟨hnodup, hnever⟩ := h.never hzero
    refine ⟨hcallbacks ▸ hnodup, hall (fun task htask requestId hu => ?_) fun requestId hu => ?_⟩
    · rw [called_congr hcallbacks]
      exact hnever task htask requestId hu
    · rw [called_congr hcallbacks]
      exact hnever task (mem_of_getElem? hi) requestId ((huncalled requestId).mpr hu)

/-! ## What the steps preserve -/

theorem Task.Entering.requesting (h : task.Entering requestId) :
    ∃ request requestedAtMs, task.work = .requesting request requestedAtMs ∧
    request.requestId = requestId := by
  obtain ⟨work, phase⟩ := task
  cases work <;> cases phase <;> first | exact ⟨_, _, rfl, h⟩ | exact h.elim

theorem Inv.command (h : Inv lib s) (haccepted : Accepted lib request)
    (hexisting : existingHostHttpRequest s.requests request = .ok none)
    (hsound : ∀ task ∈ s.tasks, ¬ task.Entering request.requestId) :
    Inv lib { s with tasks := s.tasks ++ [⟨.requesting request requestedAtMs, .ready⟩] } := by
  have hnone : s.requests[request.requestId]? = none := by
    unfold existingHostHttpRequest at hexisting
    split at hexisting
    · assumption
    · split at hexisting <;> cases hexisting
  refine h.push ⟨?_, ?_, ?_, ?_, ?_, ?_, ?_, ?_⟩ rfl ?_ ?_
  · exact fun _ h => nomatch h
  · rintro request' requestedAtMs' hwork
    cases hwork
    exact haccepted
  · exact fun _ h => nomatch h
  · exact fun _ h => nomatch h
  · exact fun _ _ h => nomatch h
  · exact fun _ _ h => nomatch h
  · exact fun _ h => nomatch h
  · exact fun _ h => nomatch h
  · rintro requestId ⟨-, request', hspawned, -⟩
    cases hspawned
  · intro requestId hentering
    obtain rfl : request.requestId = requestId := hentering
    exact ⟨hnone, hsound⟩

/-- Something else goes to the log. -/
theorem Inv.joinOther (h : Inv lib s)
    (hspawned : work.spawned = none)
    (hrequesting : ∀ request requestedAtMs, work ≠ .requesting request requestedAtMs)
    (hreminding : ∀ reminder, work = .reminding reminder →
      trim reminder.actorKey = reminder.actorKey)
    (hother : ∀ payload, work = .other payload → Unindexed payload) :
    Inv lib { s with tasks := s.tasks ++ [⟨work, .ready⟩] } := by
  refine h.push ⟨?_, ?_, ?_, ?_, ?_, ?_, hreminding, hother⟩ rfl ?_ ?_
  · exact fun _ h => nomatch h
  · exact fun request requestedAtMs hwork => absurd hwork (hrequesting request requestedAtMs)
  · rintro request rfl
    cases hspawned
  · intro request hwork
    rw [hspawned] at hwork
    cases hwork
  · rintro request reminder rfl
    cases hspawned
  · rintro request completedAtMs rfl
    cases hspawned
  · rintro requestId ⟨-, request, hwork, -⟩
    rw [hspawned] at hwork
    cases hwork
  · intro requestId hentering
    obtain ⟨request, requestedAtMs, hwork, -⟩ := hentering.requesting
    exact absurd hwork (hrequesting request requestedAtMs)

/-- The callback of a request, as it was made. -/
theorem callbackReminder_ok (htrimmed : Trimmed request.reminderId)
    (h : callbackReminder lib newId acceptedAtMs dueAtMs request result = .ok
    reminder) : reminder = {
      actorKind := request.actorKind.asStr
      actorKey := trim request.actorKey
      reminderId := request.reminderId
      dueAtMs := max dueAtMs 1
      payload := some (hostHttpContinuationPayload request.continuation request.requestId request.method request.url
        result) } := by
  unfold callbackReminder scheduledReminder at h
  obtain ⟨-, -, h⟩ := bind_eq_ok.mp h
  obtain ⟨-, -, h⟩ := bind_eq_ok.mp h
  obtain ⟨-, -, h⟩ := bind_eq_ok.mp h
  cases h
  rw [givenOr_of_trimmed htrimmed]

theorem Accepted.trimmed (h : Accepted lib request) : Trimmed request.reminderId := by
  obtain ⟨newId, nowMs, command, hnew, hne, hparse⟩ := h
  obtain ⟨method, body, -, -, rfl⟩ := parseHostHttpRequest_ok hparse
  exact givenOr_trimmed (givenOr_trimmed ⟨hnew, hne⟩ : Trimmed (givenOr command.requestId newId)).hostHttpReminderId

theorem Inv.executed (h : Inv lib s) {i : Nat} {reminder : ActorReminderDraft}
    (hi : s.tasks[i]? = some ⟨.executing request, .ready⟩)
    (hreminder : callbackReminder lib newId acceptedAtMs dueAtMs request result = .ok reminder) :
    Inv lib
    { s.setTask i (.calling request reminder) .ready with executed := s.executed ++ [(request.requestId, result)] }
    := by
  have hok := h.tasks _ (mem_of_getElem? hi)
  have htrimmed := (hok.executing request rfl).1.trimmed
  refine h.goOn hi rfl rfl rfl rfl rfl (fun call hcall => mem_append_left _ hcall) (le_refl _) ?_
    (fun requestId hentering => hentering.elim) ?_ (fun _ h => nomatch h) (fun _ _ h => nomatch h) ?_ ?_
  · refine ⟨(fun _ h => nomatch h), (fun _ _ h => nomatch h), (fun _ h => nomatch h), fun request' hspawned => ?_, fun
      request' reminder' hwork => ?_, (fun _ _ h => nomatch h), (fun _ h => nomatch h), fun _ h => nomatch h⟩
    · obtain ⟨entry, hentry, -⟩ := hok.spawned request' hspawned
      exact ⟨entry, hentry, fun _ h => nomatch h⟩
    · cases hwork
      refine ⟨htrimmed, ⟨result, max dueAtMs 1, ?_, callbackReminder_ok htrimmed hreminder⟩, fun _ h => nomatch h⟩
      exact mem_append_right _ (mem_singleton.mpr rfl)
  · rintro requestId ⟨-, hspawned⟩
    exact ⟨(fun h => nomatch h), hspawned⟩
  · rintro requestId entry - ⟨-, hspawned⟩
    exact .inl ⟨(fun h => nomatch h), hspawned⟩
  · intro requestId
    constructor
    · rintro ⟨⟨-, hspawned⟩, -⟩
      exact ⟨⟨(fun h => nomatch h), hspawned⟩, trivial⟩
    · rintro ⟨⟨-, hspawned⟩, -⟩
      exact ⟨⟨(fun h => nomatch h), hspawned⟩, trivial⟩

theorem Inv.allocate (h : Inv lib s)
    {i : Nat} {work : Work} (hi : s.tasks[i]? = some ⟨work, .ready⟩)
    (hpayload : work.payload.isSome) :
    Inv lib { s.setTask i work (.allocated (s.nextLsn + 1)) with nextLsn := s.nextLsn + 1 } := by
  have hok := h.tasks _ (mem_of_getElem? hi)
  refine h.goOn hi rfl rfl rfl rfl rfl (fun call hcall => hcall) (Nat.le_succ _) ?_ ?_ ?_ ?_ (fun _ _ h => nomatch h) ?_
    ?_
  · refine ⟨(fun _ h => nomatch h), hok.requesting, fun request hwork => ?_, fun request hspawned => ?_,
      fun request reminder hwork => ?_, hok.completing, hok.reminding, hok.other⟩
    · obtain rfl : work = .executing request := hwork
      cases hpayload
    · obtain ⟨entry, hentry, -⟩ := hok.spawned request hspawned
      refine ⟨entry, hentry, fun lsn hphase => ?_⟩
      cases hphase
      obtain ⟨r, hr, -, -, hlsn⟩ := (h.entries _ _ hentry.1).logged
      rw [hlsn]
      exact Nat.lt_succ_of_le (h.log.bound r hr)
    · obtain ⟨htrimmed, hmade, -⟩ := hok.calling request reminder hwork
      exact ⟨htrimmed, hmade, fun _ h => nomatch h⟩
  · intro requestId hentering
    cases work <;> exact hentering
  · rintro requestId ⟨-, hspawned⟩
    exact ⟨(fun h => nomatch h), hspawned⟩
  · rintro lsn hphase
    cases hphase
    exact ⟨Nat.lt_succ_self _, Nat.le_refl _⟩
  · rintro requestId entry - ⟨-, hspawned⟩
    exact .inl ⟨(fun h => nomatch h), hspawned⟩
  · intro requestId
    constructor
    · rintro ⟨⟨-, hspawned⟩, hmatch⟩
      refine ⟨⟨(fun h => nomatch h), hspawned⟩, ?_⟩
      cases work <;> exact hmatch
    · rintro ⟨⟨-, hspawned⟩, hmatch⟩
      refine ⟨⟨(fun h => nomatch h), hspawned⟩, ?_⟩
      cases work <;> exact hmatch

theorem Task.Ok.done (h : Task.Ok lib s ⟨work, phase⟩) : Task.Ok lib s ⟨work, .done⟩ where
  appended lsn hphase := by cases hphase
  requesting := h.requesting
  executing request hwork := ⟨(h.executing request hwork).1, rfl⟩
  spawned request hspawned := by
    obtain ⟨entry, hentry, -⟩ := h.spawned request hspawned
    exact ⟨entry, hentry, fun _ h => nomatch h⟩
  calling request reminder hwork := by
    obtain ⟨htrimmed, hmade, -⟩ := h.calling request reminder hwork
    exact ⟨htrimmed, hmade, fun _ h => nomatch h⟩
  completing := h.completing
  reminding := h.reminding
  other := h.other

theorem Task.not_entering_done (work : Work) (requestId : String) :
    ¬ Task.Entering ⟨work, .done⟩ requestId := by
  cases work <;> exact fun hentering => hentering.elim

theorem Task.Ok.mayFail (h : task.Ok lib s) (hmay : task.work.MayFail) : ¬ task.Uncalled requestId ∧
    (task.Live requestId → ∀ entry, s.requests[requestId]? = some entry → Settled s entry) := by
  obtain ⟨work, phase⟩ := task
  cases work with
  | executing | calling => exact hmay.elim
  | completing request completedAtMs =>
    refine ⟨fun hu => hu.2, ?_⟩
    rintro ⟨-, request', hspawned, rfl⟩ entry hentry
    cases hspawned
    obtain ⟨-, entry', hentry', hsettled⟩ := h.completing request completedAtMs rfl
    cases hentry.symm.trans hentry'.1
    exact hsettled
  | requesting | reminding | other =>
    exact ⟨fun ⟨⟨_, _, hspawned, _⟩, _⟩ => (by cases hspawned), fun ⟨_, _, hspawned, _⟩ => (by cases hspawned)⟩

/-- A task ends, and nothing changes. -/
theorem Inv.endTask (h : Inv lib s) (hi : s.tasks[i]? = some ⟨work, phase⟩)
    (hmay : work.MayFail)
    (hphase : ∀ lsn requestId, phase = .appended lsn → ¬ Task.Entering ⟨work, phase⟩ requestId ∧
    ¬ Task.Live ⟨work, phase⟩ requestId) : Inv lib (s.setTask i work .done) := by
  have hok := h.tasks _ (mem_of_getElem? hi)
  refine h.goOn hi rfl rfl rfl rfl rfl (fun call hcall => hcall) (le_refl _) (hok.done.grow ?_) ?_ ?_ ?_ hphase ?_ ?_
  · exact grows_of_same rfl rfl rfl fun call hcall => hcall
  · exact fun requestId hentering => absurd hentering (Task.not_entering_done work requestId)
  · exact fun requestId hlive => absurd rfl hlive.1
  · exact fun _ h => nomatch h
  · exact fun requestId entry hentry hlive => .inr ((hok.mayFail hmay).2 hlive entry hentry)
  · exact fun requestId => ⟨fun hu => absurd hu (hok.mayFail hmay).1, fun hu => absurd rfl hu.live.1⟩

theorem Inv.fail (h : Inv lib s) {i : Nat} {work : Work} {phase : Phase}
    (hi : s.tasks[i]? = some ⟨work, phase⟩)
    (hmay : work.MayFail) (happended : ∀ lsn, phase ≠ .appended lsn) :
    Inv lib (s.setTask i work .done) :=
  h.endTask hi hmay fun lsn _ hphase => absurd hphase (happended lsn)

theorem Inv.lose (h : Inv lib s) (hi : s.tasks[i]? = some ⟨work, .appended lsn⟩)
    (hmay : work.MayBeLost) :
    Inv lib (s.setTask i work .done) := by
  cases work with
  | reminding | other =>
    exact h.endTask hi trivial fun _ _ _ =>
      ⟨fun hentering => hentering.elim, fun ⟨_, _, hspawned, _⟩ => (by cases hspawned)⟩
  | requesting | executing | calling | completing => exact hmay.elim

theorem logged_writeRecord {shard : Nat} (hshard : shard < s.files.length) (record : WalRecord)
    (callback : Option String) (r : WalRecord) : (s.writeRecord shard record callback).Logged r ↔
    s.Logged r ∨
    r = record := by
  unfold ServerState.Logged ServerState.writeRecord
  have hfile : s.files[shard]? = some s.files[shard] := getElem?_eq_getElem hshard
  show (∃ file ∈ s.files.modify shard _, _) ↔ _
  rw [modify_eq_set_getElem?, hfile]
  exact exists_mem_set_iff hfile (by simp only [mem_append, mem_singleton]; tauto)

/-- The record of a command is the first with its id. -/
theorem Inv.unrequested (h : Inv lib s) (hi : s.tasks[i]? = some ⟨work, .allocated lsn⟩)
    (hentering : Task.Entering ⟨work, .allocated lsn⟩ requestId) (hr : s.Logged r) :
    ¬ RequestsHttp requestId r := by
  intro hrequests
  have hnone := h.entering _ (mem_of_getElem? hi) requestId hentering
  rcases (h.records r hr).requested requestId hrequests with hsome | ⟨other, hother, hphase, hentering'⟩
  · rw [hnone] at hsome
    cases hsome
  · obtain ⟨j, hj⟩ := mem_iff_getElem?.mp hother
    have hij : i ≠ j := by
      rintro rfl
      cases hi.symm.trans hj
      cases hphase
    exact (h.apart i j _ other hi hj hij).entering requestId hentering hentering'

/-- The work whose record is of a request is that of the command. -/
theorem Task.Ok.entering_of_requests (h : Task.Ok lib s ⟨work, phase⟩) (hphase : phase ≠ .done)
    (hpayload : work.payload = some record.payload) (hr : RequestsHttp requestId record) :
    Task.Entering ⟨work, phase⟩ requestId := by
  obtain ⟨draft, hp, hid⟩ := hr
  rw [hp] at hpayload
  cases work with
  | requesting request requestedAtMs =>
    cases hpayload
    cases phase <;> first | exact hid | exact absurd rfl hphase
  | executing | calling | completing | reminding => cases hpayload
  | other payload =>
    cases hpayload
    exact (h.other _ rfl).elim

theorem LogOk.append (h : Inv lib s) {i : Nat} {work : Work} {record : WalRecord}
    (hi : s.tasks[i]? = some ⟨work, .allocated record.lsn⟩)
    (hpayload : work.payload = some record.payload)
    (hlogged : ∀ r, t.Logged r ↔ s.Logged r ∨ r = record) (hnext : t.nextLsn = s.nextLsn)
    (htasks : t.tasks = s.tasks.set i ⟨work, .appended record.lsn⟩) : LogOk t := by
  have hi' := mem_of_getElem? hi
  obtain ⟨hle, hfresh⟩ := h.log.allocated _ hi' record.lsn rfl
  refine ⟨fun r hr => ?_, fun r r' hr hr' he => ?_, fun task htask lsn hphase => ?_,
    fun requestId r r' hr hr' h1 h2 => ?_⟩
  · rw [hnext]
    rcases (hlogged r).mp hr with hr | rfl
    · exact h.log.bound r hr
    · exact hle
  · rcases (hlogged r).mp hr with hr | rfl <;> rcases (hlogged r').mp hr' with hr' | rfl
    · exact h.log.distinct r r' hr hr' he
    · exact absurd he (hfresh r hr)
    · exact absurd he.symm (hfresh r' hr')
    · rfl
  · obtain ⟨j, hj⟩ := mem_iff_getElem?.mp (htasks ▸ htask)
    rcases getElem?_set_cases hj with ⟨-, rfl⟩ | ⟨hji, hj'⟩
    · cases hphase
    · obtain ⟨hlt, hne⟩ := h.log.allocated task (mem_of_getElem? hj') lsn hphase
      refine ⟨hnext ▸ hlt, fun r hr => ?_⟩
      rcases (hlogged r).mp hr with hr | rfl
      · exact hne r hr
      · rintro rfl
        exact (h.apart i j _ task hi hj' (Ne.symm hji)).allocated r.lsn rfl hphase
  · have hentering : ∀ {requestId}, RequestsHttp requestId record →
        Task.Entering ⟨work, .allocated record.lsn⟩ requestId :=
      fun hr => (h.tasks _ hi').entering_of_requests (fun h => nomatch h) hpayload hr
    rcases (hlogged r).mp hr with hr | rfl <;> rcases (hlogged r').mp hr' with hr' | rfl
    · exact h.log.once requestId r r' hr hr' h1 h2
    · exact absurd h1 (h.unrequested hi (hentering h2) hr)
    · exact absurd h2 (h.unrequested hi (hentering h1) hr')
    · rfl

/-- What a task has appended. -/
theorem RecordOk.appended (hok : Task.Ok lib t ⟨work, .appended record.lsn⟩)
    (hself : ⟨work, .appended record.lsn⟩ ∈ t.tasks)
    (hpayload : work.payload = some record.payload) :
    RecordOk lib t record where
  accepted draft hp := by
    rw [hp] at hpayload
    cases work with
    | requesting request requestedAtMs =>
      cases hpayload
      exact ⟨request, requestedAtMs, hok.requesting _ _ rfl, rfl⟩
    | executing | calling | completing | reminding => cases hpayload
    | other payload =>
      cases hpayload
      exact (hok.other _ rfl).elim
  requested requestId hr := .inr ⟨_, hself, rfl, hok.entering_of_requests (fun h => nomatch h) hpayload hr⟩
  completed requestId hc := by
    obtain ⟨completedAtMs, hp⟩ := hc
    rw [hp] at hpayload
    cases work with
    | completing request completedAtMs' =>
      cases hpayload
      obtain ⟨entry, hentry, hlt⟩ := hok.spawned request rfl
      exact ⟨(hok.completing request _ rfl).1, entry, hentry.1, hlt _ rfl,
        .inr ⟨_, hself, rfl, (fun h => nomatch h), request, rfl, rfl⟩⟩
    | requesting | executing | calling | reminding => cases hpayload
    | other payload =>
      cases hpayload
      exact (hok.other _ rfl).elim
  reminds reminder hp := by
    rw [hp] at hpayload
    cases work with
    | calling request reminder' =>
      cases hpayload
      obtain ⟨-, ⟨result, dueAtMs, -, hreminder⟩, -⟩ := hok.calling request reminder rfl
      rw [hreminder]
      exact trim_trim request.actorKey
    | reminding reminder' =>
      cases hpayload
      exact hok.reminding reminder rfl
    | requesting | executing | completing => cases hpayload
    | other payload =>
      cases hpayload
      exact (hok.other _ rfl).elim

theorem Task.Uncalled.callbackOf (h : Task.Uncalled ⟨work, .allocated lsn⟩ requestId)
    (hpayload : work.payload.isSome) :
    work.callbackOf = some requestId := by
  obtain ⟨⟨-, request, hspawned, rfl⟩, hmatch⟩ := h
  cases work with
  | calling request' reminder =>
    cases hspawned
    rfl
  | executing request' => cases hpayload
  | completing request' completedAtMs => exact hmatch.elim
  | requesting | reminding | other => cases hspawned

theorem Task.uncalled_of_callbackOf (h : work.callbackOf = some requestId) :
    Task.Uncalled ⟨work, .allocated lsn⟩ requestId := by
  cases work with
  | calling request reminder =>
    cases h
    exact ⟨⟨(fun h => nomatch h), request, rfl, rfl⟩, trivial⟩
  | _ => cases h

theorem Task.not_uncalled_appended (hpayload : work.payload.isSome) :
    ¬ Task.Uncalled ⟨work, .appended lsn⟩ requestId := by
  rintro ⟨⟨-, request, hspawned, -⟩, hmatch⟩
  cases work with
  | calling | completing => exact hmatch.elim
  | executing request' => cases hpayload
  | requesting | reminding | other => cases hspawned

/-- The record of a task is appended. -/
structure Appends (i : Nat) (work : Work) (record : WalRecord) (s t : ServerState) : Prop where
  logged : ∀ r, t.Logged r ↔ s.Logged r ∨ r = record
  tasks : t.tasks = s.tasks.set i ⟨work, .appended record.lsn⟩
  requests : t.requests = s.requests
  executed : t.executed = s.executed
  crashes : t.crashes = s.crashes
  nextLsn : t.nextLsn = s.nextLsn
  callbacks : t.callbacks =
    s.callbacks ++ (work.callbackOf.toList.map fun requestId => (requestId, record))

theorem appends_writeRecord {shard : Nat} (hshard : shard < s.files.length) (i : Nat) (work : Work)
    (record : WalRecord) : Appends i work record s
    ((s.writeRecord shard record work.callbackOf).setTask i work (.appended record.lsn)) :=
  ⟨logged_writeRecord hshard record work.callbackOf, rfl, rfl, rfl, rfl, rfl, rfl⟩

section Appends

variable {record : WalRecord}

theorem Appends.grows (h : Appends i work record s t) : Grows s t := by
  refine ⟨fun r hr => (h.logged r).mpr (.inl hr), fun call hcall => h.executed ▸ hcall,
    fun callback hcallback => ?_, fun requestId entry hentry => ⟨entry, h.requests ▸ hentry, .refl entry⟩⟩
  rw [h.callbacks]
  exact mem_append_left _ hcallback

theorem Appends.called (h : Appends i work record s t) (hcallback : work.callbackOf = some requestId) :
    t.Called requestId := by
  refine ⟨record, ?_⟩
  rw [h.callbacks, hcallback]
  exact mem_append_right _ (mem_singleton.mpr rfl)

theorem Appends.called_or (h : Appends i work record s t) (hcalled : t.Called requestId) :
    s.Called requestId ∨ work.callbackOf = some requestId := by
  obtain ⟨r, hr⟩ := hcalled
  rw [h.callbacks] at hr
  rcases mem_append.mp hr with hr | hr
  · exact .inl ⟨r, hr⟩
  · obtain ⟨requestId', hcallback, he⟩ := mem_map.mp hr
    cases he
    exact .inr (mem_toList.mp hcallback)

theorem Appends.ok (h : Appends i work record s t)
    (hold : Task.Ok lib s ⟨work, .allocated record.lsn⟩)
    (hpayload : work.payload = some record.payload) :
    Task.Ok lib t ⟨work, .appended record.lsn⟩ := by
  have hold' := hold.grow h.grows
  refine ⟨fun lsn hphase => ?_, hold'.requesting, fun request hwork => ?_, fun request hspawned => ?_,
    fun request reminder hwork => ?_, hold'.completing, hold'.reminding, hold'.other⟩
  · cases hphase
    exact ⟨record, (h.logged record).mpr (.inr rfl), rfl, hpayload⟩
  · obtain rfl : work = .executing request := hwork
    cases hpayload
  · obtain ⟨entry, hentry, hlt⟩ := hold'.spawned request hspawned
    exact ⟨entry, hentry, fun lsn hphase => hlt lsn (by cases hphase; rfl)⟩
  · obtain ⟨htrimmed, hmade, -⟩ := hold'.calling request reminder hwork
    obtain rfl : work = .calling request reminder := hwork
    exact ⟨htrimmed, hmade, fun lsn _ => h.called rfl⟩

/-- The task still enters what it entered. -/
theorem Task.entering_appended {lsn : Nat} :
    Task.Entering ⟨work, .appended lsn⟩ requestId ↔ Task.Entering ⟨work, .allocated lsn⟩ requestId := by
  cases work <;> exact Iff.rfl

theorem Task.live_appended {lsn : Nat} :
    Task.Live ⟨work, .appended lsn⟩ requestId ↔ Task.Live ⟨work, .allocated lsn⟩ requestId :=
  and_congr_left fun _ => ⟨(fun _ h => nomatch h), fun _ h => nomatch h⟩

/-- What the index has of a request stays right: the task that was to call it back has. -/
theorem Appends.entryOk (happends : Appends i work record s t) (h : Inv lib s)
    (hi : s.tasks[i]? = some ⟨work, .allocated record.lsn⟩) (hsome : work.payload.isSome)
    (hentry : s.requests[requestId]? = some entry) : EntryOk t requestId entry := by
  refine (h.entries requestId entry hentry).update happends.grows (.refl entry) .inl .inl
    (fun hex => ?_) fun hex => ?_
  · rcases exists_task_set hi happends.tasks hex with hl | hex
    · exact .inr (.inr ⟨_, self_mem_set hi happends.tasks, Task.live_appended.mpr hl⟩)
    · exact .inr (.inr hex)
  · rcases exists_task_set hi happends.tasks hex with hu | hex
    · exact .inl (happends.called (hu.callbackOf hsome))
    · exact .inr hex

theorem Appends.recordOk (happends : Appends i work record s t) (h : Inv lib s)
    (hi : s.tasks[i]? = some ⟨work, .allocated record.lsn⟩) (hr : s.Logged r) : RecordOk lib t r := by
  refine (h.records r hr).update happends.grows (fun requestId hex => ?_)
    fun requestId entry _ _ hex => ?_
  · rcases exists_task_set hi happends.tasks hex with ⟨hphase, -⟩ | hex
    · cases hphase
    · exact .inr hex
  · rcases exists_task_set hi happends.tasks hex with ⟨hphase, -⟩ | hex
    · cases hphase
    · exact .inr hex

/-- A callback that is appended is that of an indexed request. -/
theorem Appends.callbackOk (happends : Appends i work record s t) (h : Inv lib s)
    (hok : Task.Ok lib t ⟨work, .appended record.lsn⟩)
    (hpayload : work.payload = some record.payload) (hr : (requestId, r) ∈ t.callbacks) :
    t.Logged r ∧ ∃ entry, t.requests[requestId]? = some entry ∧ entry.requestedLsn < r.lsn ∧
    IsCallback t entry.request r := by
  rw [happends.callbacks] at hr
  rcases mem_append.mp hr with hr | hr
  · obtain ⟨hr, entry, hentry, hlt, hcallback⟩ := h.callbacks requestId r hr
    exact ⟨happends.grows.logged r hr, entry, happends.requests ▸ hentry, hlt,
      hcallback.grow happends.grows⟩
  · cases work with
    | calling request reminder =>
      cases mem_singleton.mp hr
      obtain ⟨entry, ⟨hentry, requestedAtMs, hrequest⟩, hlt⟩ := hok.spawned request rfl
      obtain ⟨-, ⟨result, dueAtMs, hcall, hreminder⟩, -⟩ := hok.calling request reminder rfl
      refine ⟨(happends.logged _).mpr (.inr rfl), entry, hentry, hlt _ rfl, result, dueAtMs, ?_, ?_⟩
      · rw [hrequest]
        exact hcall
      · rw [hrequest, ← some.inj hpayload, hreminder]
        rfl
    | _ => cases hr

/-- Without a crash no request is called back twice. -/
theorem Appends.never (happends : Appends i work record s t) (h : Inv lib s)
    (hi : s.tasks[i]? = some ⟨work, .allocated record.lsn⟩) (hsome : work.payload.isSome)
    (hzero : t.crashes = 0) : (t.callbacks.map Prod.fst).Nodup ∧
    ∀ task ∈ t.tasks, ∀ requestId, task.Uncalled requestId → ¬ t.Called requestId := by
  rw [happends.crashes] at hzero
  obtain ⟨hnodup, hnever⟩ := h.never hzero
  refine ⟨?_, ?_⟩
  · rw [happends.callbacks, map_append]
    cases hcallback : work.callbackOf with
    | none => simpa using hnodup
    | some requestId =>
      refine nodup_append.mpr ⟨hnodup, nodup_singleton _, fun a ha b hb hab => ?_⟩
      obtain rfl : b = requestId := mem_singleton.mp hb
      obtain ⟨callback, hmem, hfst⟩ := mem_map.mp ha
      refine hnever _ (mem_of_getElem? hi) b (Task.uncalled_of_callbackOf hcallback) ⟨callback.2, ?_⟩
      rw [← hab, ← hfst]
      exact hmem
  · intro task htask requestId hu hc
    obtain ⟨j, hj⟩ := mem_iff_getElem?.mp (happends.tasks ▸ htask)
    rcases getElem?_set_cases hj with ⟨-, rfl⟩ | ⟨hji, hj⟩
    · exact Task.not_uncalled_appended hsome hu
    · rcases happends.called_or hc with hc | hcallback
      · exact hnever task (mem_of_getElem? hj) requestId hu hc
      · have hapart := h.apart i j _ task hi hj (Ne.symm hji)
        exact hapart.live requestId (Task.uncalled_of_callbackOf hcallback).live hu.live

end Appends

theorem Inv.append (h : Inv lib s)
    {i shard : Nat} {work : Work} {record : WalRecord}
    (hi : s.tasks[i]? = some ⟨work, .allocated record.lsn⟩)
    (hpayload : work.payload = some record.payload) (hshard : shard < s.files.length) :
    Inv lib ((s.writeRecord shard record work.callbackOf).setTask i work (.appended record.lsn)) := by
  have happends := appends_writeRecord hshard i work record
  generalize (s.writeRecord shard record work.callbackOf).setTask i work (.appended record.lsn) = t at happends ⊢
  have hi' := mem_of_getElem? hi
  have hsome : work.payload.isSome := by
    rw [hpayload]
    rfl
  have hok := happends.ok (h.tasks _ hi') hpayload
  have hall : ∀ {has : Task → Prop}, (∀ task ∈ s.tasks, has task) → has ⟨work, .appended record.lsn⟩ →
      ∀ task ∈ t.tasks, has task := by
    intro has hothers hnew
    rw [happends.tasks]
    exact forall_mem_set hothers hnew
  refine ⟨.append h hi hpayload happends.logged happends.nextLsn happends.tasks,
    hall (fun task htask => (h.tasks task htask).grow happends.grows) hok,
    fun requestId entry hentry => ?_, fun r hr => ?_, ?_, ?_,
    fun requestId r hr => happends.callbackOk h hok hpayload hr, happends.never h hi hsome⟩
  · exact happends.entryOk h hi hsome (happends.requests ▸ hentry)
  · rcases (happends.logged r).mp hr with hr | rfl
    · exact happends.recordOk h hi hr
    · exact .appended hok (self_mem_set hi happends.tasks) hpayload
  · rw [happends.requests]
    exact hall h.entering fun requestId hentering =>
      h.entering _ hi' requestId (Task.entering_appended.mp hentering)
  · exact apart_set h happends.tasks (h.apart_of hi (fun _ => Task.entering_appended.mp)
      (fun _ => Task.live_appended.mp) (fun _ h => nomatch h))

/-! ## What follows an append -/

/-- A task goes on, and of the rest only the index is changed. -/
structure Indexes (i : Nat) (task' : Task) (s t : ServerState) : Prop where
  tasks : t.tasks = s.tasks.set i task'
  files : t.files = s.files
  callbacks : t.callbacks = s.callbacks
  executed : t.executed = s.executed
  crashes : t.crashes = s.crashes
  nextLsn : t.nextLsn = s.nextLsn

theorem Inv.index (h : Inv lib s) (hindexes : Indexes i task' s t) (hgrows : Grows s t)
    (hok : task'.Ok lib t)
    (hentries : ∀ (requestId : String) entry, t.requests[requestId]? = some entry →
      EntryOk t requestId entry)
    (hrecords : ∀ r, s.Logged r → RecordOk lib t r) (hentering : ∀ other ∈ t.tasks,
    ∀ requestId, other.Entering requestId → t.requests[requestId]? = none)
    (hapart : ∀ (j : Nat) other,
    s.tasks[j]? = some other → j ≠ i → task'.Apart other)
    (hphase : ∀ lsn, task'.phase ≠ .allocated lsn)
    (hcalled : ∀ requestId, task'.Uncalled requestId → ¬ s.Called requestId) : Inv lib t := by
  obtain ⟨htasks, hfiles, hcallbacks, -, hcrashes, hnext⟩ := hindexes
  have hlogged : t.Logged = s.Logged := by
    funext r
    unfold ServerState.Logged
    rw [hfiles]
  have hall : ∀ {has : Task → Prop}, (∀ task ∈ s.tasks, has task) → has task' → ∀ task ∈ t.tasks, has task := by
    intro has hold hnew
    rw [htasks]
    exact forall_mem_set hold hnew
  refine ⟨⟨?_, ?_, ?_, ?_⟩, hall (fun task htask => (h.tasks task htask).grow hgrows) hok, hentries, fun r hr =>
    hrecords r (hlogged ▸ hr), hentering, apart_set h htasks hapart, fun requestId r hr => ?_, fun hzero => ?_⟩
  · rw [hlogged, hnext]
    exact h.log.bound
  · rw [hlogged]
    exact h.log.distinct
  · rw [hlogged, hnext]
    exact hall h.log.allocated fun lsn hp => absurd hp (hphase lsn)
  · rw [hlogged]
    exact h.log.once
  · rw [hcallbacks] at hr
    obtain ⟨hr, entry, hentry, hlt, hcallback⟩ := h.callbacks requestId r hr
    obtain ⟨entry', hentry', he⟩ := hgrows.entry requestId entry hentry
    exact ⟨hgrows.logged r hr, entry', hentry', he.requestedLsn ▸ hlt, he.request ▸ hcallback.grow hgrows⟩
  · obtain ⟨hnodup, hnever⟩ := h.never (hcrashes ▸ hzero)
    refine ⟨hcallbacks ▸ hnodup, hall (fun task htask requestId hu => ?_) fun requestId hu => ?_⟩
    · rw [called_congr hcallbacks]
      exact hnever task htask requestId hu
    · rw [called_congr hcallbacks]
      exact hcalled requestId hu

/-- The command has its request in the index, and spawns the task that makes the call. -/
theorem Inv.finishRequesting (h : Inv lib s) (hi : s.tasks[i]? =
    some ⟨.requesting request requestedAtMs, .appended lsn⟩) :
    Inv lib { s.setTask i (.executing request) .ready with
      requests := s.requests.insert request.requestId ⟨request.toDraft requestedAtMs, lsn,
      .requested⟩ } := by
  obtain ⟨t, ht⟩ : ∃ t, t = { s.setTask i (.executing request) .ready with
      requests := s.requests.insert request.requestId ⟨request.toDraft requestedAtMs, lsn, .requested⟩ } := ⟨_, rfl⟩
  have hindexes : Indexes i ⟨.executing request, .ready⟩ s t := ht ▸ ⟨rfl, rfl, rfl, rfl, rfl, rfl⟩
  have htasks := hindexes.tasks
  have hrequests : ∀ requestId : String, t.requests[requestId]? =
      if request.requestId = requestId then some ⟨request.toDraft requestedAtMs, lsn, .requested⟩
      else s.requests[requestId]? := by
    intro requestId
    rw [ht]
    refine (Std.ExtTreeMap.getElem?_insert ..).trans (if_congr compare_eq_iff_eq rfl rfl)
  rw [← ht]
  clear ht
  have hi' := mem_of_getElem? hi
  have hold := h.tasks _ hi'
  have hnone : s.requests[request.requestId]? = none := h.entering _ hi' _ rfl
  have hnotlive : ∀ requestId, ¬ Task.Live ⟨.requesting request requestedAtMs, .appended lsn⟩ requestId :=
    fun requestId ⟨_, _, hspawned, _⟩ => (by cases hspawned)
  have hgrows : Grows s t := by
    refine ⟨fun r hr => ?_, fun call hcall => hindexes.executed ▸ hcall, fun callback hcallback =>
      hindexes.callbacks ▸ hcallback, fun requestId entry hentry => ⟨entry, ?_, .refl entry⟩⟩
    · unfold ServerState.Logged
      rwa [hindexes.files]
    · rw [hrequests, if_neg (fun hid => ?_)]
      · exact hentry
      · rw [← hid, hnone] at hentry
        cases hentry
  have hself : ⟨.executing request, .ready⟩ ∈ t.tasks := self_mem_set hi htasks
  have hlive : Task.Live ⟨.executing request, .ready⟩ request.requestId :=
    ⟨(fun h => nomatch h), request, rfl, rfl⟩
  have hentry : t.requests[request.requestId]? = some ⟨request.toDraft requestedAtMs, lsn, .requested⟩ := by
    rw [hrequests, if_pos rfl]
  refine h.index hindexes hgrows ?_ (fun requestId entry hentry' => ?_)
    (fun r hr => ?_) (fun other hother requestId hentering => ?_) (fun j other hj hji => ?_)
    (fun _ h => nomatch h) fun requestId hu hcalled => ?_
  · refine ⟨(fun _ h => nomatch h), (fun _ _ h => nomatch h), ?_, ?_, (fun _ _ h => nomatch h), (fun _ _ h => nomatch
      h), (fun _ h => nomatch h), fun _ h => nomatch h⟩
    · rintro request' hwork
      cases hwork
      exact ⟨hold.requesting request requestedAtMs rfl, rfl⟩
    · rintro request' hspawned
      cases hspawned
      exact ⟨_, ⟨hentry, requestedAtMs, rfl⟩, fun _ h => nomatch h⟩
  · rw [hrequests] at hentry'
    split at hentry'
    · next hid =>
      subst hid
      obtain rfl := some.inj hentry'
      obtain ⟨r, hr, hlsn, hpayload⟩ := hold.appended lsn rfl
      refine ⟨⟨r, hgrows.logged r hr, (some.inj hpayload).symm, rfl, hlsn.symm⟩, (fun h => nomatch h),
        (fun h => nomatch h), .inr (.inr ⟨_, hself, hlive⟩), .inr ⟨_, hself, hlive, trivial⟩⟩
    · refine (h.entries requestId entry hentry').update hgrows (.refl entry) .inl .inl (fun hex => ?_) fun hex => ?_
      · exact .inr (.inr ((exists_task_set hi htasks hex).resolve_left (hnotlive requestId)))
      · exact .inr ((exists_task_set hi htasks hex).resolve_left fun hu => hnotlive requestId hu.live)
  · refine (h.records r hr).update hgrows (fun requestId hex => ?_) fun requestId entry _ _ hex => ?_
    · rcases exists_task_set hi htasks hex with ⟨-, hentering⟩ | hex
      · obtain rfl : request.requestId = requestId := hentering
        exact .inl (hentry ▸ rfl)
      · exact .inr hex
    · exact .inr ((exists_task_set hi htasks hex).resolve_left fun hl => hnotlive requestId hl.2)
  · obtain ⟨j, hj⟩ := mem_iff_getElem?.mp (htasks ▸ hother)
    rcases getElem?_set_cases hj with ⟨-, rfl⟩ | ⟨hji, hj'⟩
    · exact hentering.elim
    · rw [hrequests, if_neg (fun hid => ?_)]
      · exact h.entering other (mem_of_getElem? hj') requestId hentering
      · exact (h.apart i j _ other hi hj' (Ne.symm hji)).entering requestId hid hentering
  · refine ⟨fun requestId hentering => hentering.elim, ?_, fun _ h => nomatch h⟩
    rintro requestId ⟨-, request', hspawned, rfl⟩ ⟨-, request'', hspawned', hid⟩
    cases hspawned
    obtain ⟨entry, hentry', -⟩ := (h.tasks other (mem_of_getElem? hj)).spawned request'' hspawned'
    have := hentry'.1
    rw [hid, hnone] at this
    cases this
  · obtain ⟨⟨-, request', hspawned, rfl⟩, -⟩ := hu
    cases hspawned
    obtain ⟨r, hr⟩ := hcalled
    obtain ⟨-, entry, hentry', -⟩ := h.callbacks _ r hr
    rw [hnone] at hentry'
    cases hentry'

theorem grows_of_map (hindexes : Indexes i task' s t)
    (hrequests : ∀ requestId : String,
      t.requests[requestId]? = s.requests[requestId]?.map (change requestId))
    (hchange : ∀ requestId entry, Evolves entry (change requestId entry)) : Grows s t where
  logged r hr := by
    unfold ServerState.Logged
    rwa [hindexes.files]
  executed call hcall := hindexes.executed ▸ hcall
  callbacks callback hcallback := hindexes.callbacks ▸ hcallback
  entry requestId entry hentry := ⟨change requestId entry, by rw [hrequests, hentry]; rfl, hchange requestId entry⟩

/-- A task has changed the entries of the index. -/
theorem Inv.mapIndex (h : Inv lib s) (hi : s.tasks[i]? = some ⟨work, .appended lsn⟩)
    (hindexes : Indexes i task' s t)
    (hrequests : ∀ requestId : String,
      t.requests[requestId]? = s.requests[requestId]?.map (change requestId))
    (hchange : ∀ requestId entry, Evolves entry (change requestId entry))
    (hcompleted : ∀ requestId entry, (change requestId entry).status = .completed →
      entry.status = .completed ∨ ∃ r,
    s.Logged r ∧ CompletesHttp requestId r)
    (hnoted : ∀ requestId entry, (change requestId entry).status =
    .callbackScheduled → entry.status = .callbackScheduled ∨
      trim entry.request.actorKey = entry.request.actorKey)
    (hok : task'.Ok lib t) (hwork : ∀ requestId, ¬ Task.Entering ⟨work, .appended lsn⟩ requestId)
    (hsome : work.payload.isSome) (hentering : ∀ requestId, ¬ task'.Entering requestId)
    (hlive : ∀ requestId, task'.Live requestId → Task.Live ⟨work, .appended lsn⟩ requestId)
    (hends : ∀ requestId entry,
    Task.Live ⟨work, .appended lsn⟩ requestId → task'.Live requestId ∨
      (change requestId entry).status = .completed)
    (hrecord : ∀ requestId entry r, Task.Live ⟨work, .appended lsn⟩ requestId → s.Logged r →
    r.lsn = lsn → CompletesHttp requestId r → (change requestId entry).status = .completed)
    (hphase : ∀ lsn,
    task'.phase ≠ .allocated lsn) (huncalled : ∀ requestId, ¬ task'.Uncalled requestId) :
    Inv lib t := by
  have htasks := hindexes.tasks
  have hgrows : Grows s t := grows_of_map hindexes hrequests hchange
  have hself : task' ∈ t.tasks := self_mem_set hi htasks
  have hentries : ∀ {requestId : String} {entry}, t.requests[requestId]? = some entry →
      ∃ before, s.requests[requestId]? = some before ∧ entry = change requestId before := by
    intro requestId entry hentry
    rw [hrequests] at hentry
    obtain ⟨before, hbefore, he⟩ := map_eq_some_iff.mp hentry
    exact ⟨before, hbefore, he.symm⟩
  refine h.index hindexes hgrows hok (fun requestId entry hentry => ?_) (fun r hr => ?_)
    (fun other hother requestId hother' => ?_) (fun j other hj hji => ?_) hphase
    fun requestId hu => absurd hu (huncalled requestId)
  · obtain ⟨before, hbefore, rfl⟩ := hentries hentry
    refine (h.entries requestId before hbefore).update hgrows (hchange requestId before) (fun hstatus => ?_)
      (hnoted requestId before) (fun hex => ?_) fun hex => ?_
    · refine (hcompleted requestId before hstatus).imp_right ?_
      rintro ⟨r, hr, hc⟩
      exact ⟨r, hgrows.logged r hr, hc⟩
    · rcases exists_task_set hi htasks hex with hl | hex
      · rcases hends requestId before hl with hl' | hstatus
        · exact .inr (.inr ⟨task', hself, hl'⟩)
        · exact .inl hstatus
      · exact .inr (.inr hex)
    · exact .inr ((exists_task_set hi htasks hex).resolve_left (Task.not_uncalled_appended hsome))
  · refine (h.records r hr).update hgrows (fun requestId hex => ?_) fun requestId entry hentry hc hex => ?_
    · exact .inr ((exists_task_set hi htasks hex).resolve_left fun he => hwork requestId he.2)
    · obtain ⟨before, -, rfl⟩ := hentries hentry
      rcases exists_task_set hi htasks hex with ⟨hp, hl⟩ | hex
      · cases hp
        exact .inl (hrecord requestId before r hl hr rfl hc)
      · exact .inr hex
  · obtain ⟨j, hj⟩ := mem_iff_getElem?.mp (htasks ▸ hother)
    rcases getElem?_set_cases hj with ⟨-, rfl⟩ | ⟨-, hj'⟩
    · exact absurd hother' (hentering requestId)
    · rw [hrequests, h.entering other (mem_of_getElem? hj') requestId hother']
      rfl
  · exact h.apart_of hi (fun requestId he => absurd he (hentering requestId)) hlive
      (fun lsn hp => absurd hp (hphase lsn)) j other hj hji

/-- What has appended a reminder has the index note it. -/
theorem Inv.note (h : Inv lib s) {i lsn : Nat} {work : Work} {task' : Task}
    {reminder : ActorReminderDraft}
    (hi : s.tasks[i]? = some ⟨work, .appended lsn⟩)
    (hpayload : work.payload = some (.actorReminderScheduled reminder))
    (hindexes : Indexes i task' s t)
    (hrequests : t.requests = noteHostHttpCallbackScheduled s.requests reminder)
    (hok : task'.Ok lib t) (hentering : ∀ requestId, ¬ task'.Entering requestId)
    (hlive : ∀ requestId,
    task'.Live requestId ↔ Task.Live ⟨work, .appended lsn⟩ requestId)
    (hphase : ∀ lsn, task'.phase ≠ .allocated lsn)
    (huncalled : ∀ requestId, ¬ task'.Uncalled requestId) : Inv lib t := by
  have hold := h.tasks _ (mem_of_getElem? hi)
  have hsame : ∀ entry : HostHttpRequestRecord, (entry.noteReminder reminder).status = .completed →
      entry.status = .completed := by
    intro entry hstatus
    unfold HostHttpRequestRecord.noteReminder at hstatus
    split at hstatus
    · cases hstatus
    · exact hstatus
  have htrimmed : trim reminder.actorKey = reminder.actorKey := by
    obtain ⟨r, hr, -, hp⟩ := hold.appended lsn rfl
    exact (h.records r hr).reminds reminder (some.inj (hp.symm.trans hpayload))
  have hnoted : ∀ entry : HostHttpRequestRecord, (entry.noteReminder reminder).status = .callbackScheduled →
      entry.status = .callbackScheduled ∨ trim entry.request.actorKey = entry.request.actorKey := by
    intro entry hstatus
    unfold HostHttpRequestRecord.noteReminder at hstatus
    split at hstatus
    · next hnote =>
      right
      rw [hnote.1.2.1]
      exact htrimmed
    · exact .inl hstatus
  refine h.mapIndex hi hindexes (fun requestId => by rw [hrequests, getElem?_noteHostHttpCallbackScheduled])
    (fun _ entry => .noteReminder entry reminder) (fun _ entry hstatus => .inl (hsame entry hstatus)) (fun _ entry =>
    hnoted entry) hok (fun requestId he => ?_) (by rw [hpayload]; rfl) hentering (fun requestId => (hlive requestId).mp)
    (fun requestId _ hl => .inl ((hlive requestId).mpr hl)) (fun requestId entry r _ hr hlsn hc => ?_) hphase huncalled
  · obtain ⟨request, requestedAtMs, rfl, -⟩ := he.requesting
    cases hpayload
  · obtain ⟨r', hr', hlsn', hpayload'⟩ := hold.appended lsn rfl
    obtain rfl := h.log.distinct r r' hr hr' (hlsn.trans hlsn'.symm)
    obtain ⟨completedAtMs, hp⟩ := hc
    rw [hpayload, hp] at hpayload'
    cases hpayload'

theorem Inv.finishCalling (h : Inv lib s) (nowMs : Nat)
    (hi : s.tasks[i]? = some ⟨.calling request reminder, .appended lsn⟩) : Inv lib { s.setTask i
    (.completing request nowMs) .ready with requests := noteHostHttpCallbackScheduled s.requests reminder } := by
  have hold := h.tasks _ (mem_of_getElem? hi)
  obtain ⟨-, ⟨result, dueAtMs, -, hreminder⟩, hcalled⟩ := hold.calling request reminder rfl
  obtain ⟨entry, ⟨hentry, requestedAtMs, hrequest⟩, hlt⟩ := hold.spawned request rfl
  have hnoted : (noteHostHttpCallbackScheduled s.requests reminder)[request.requestId]? =
      some (entry.noteReminder reminder) := by
    rw [getElem?_noteHostHttpCallbackScheduled, hentry]
    rfl
  refine h.note hi rfl ⟨rfl, rfl, rfl, rfl, rfl, rfl⟩ rfl ⟨?_, ?_, ?_, ?_, ?_, ?_, ?_, ?_⟩
    (fun requestId hentering => hentering.elim) (fun requestId => ?_) (fun _ h => nomatch h) fun requestId hu => hu.2
  · exact fun _ h => nomatch h
  · exact fun _ _ h => nomatch h
  · exact fun _ h => nomatch h
  · rintro request' hspawned
    cases hspawned
    refine ⟨_, ⟨hnoted, requestedAtMs, ?_⟩, fun _ h => nomatch h⟩
    rw [HostHttpRequestRecord.noteReminder_request, hrequest]
  · exact fun _ _ h => nomatch h
  · rintro request' completedAtMs hwork
    cases hwork
    refine ⟨hcalled lsn rfl, _, ⟨hnoted, requestedAtMs, ?_⟩, fun htrim => ?_⟩
    · rw [HostHttpRequestRecord.noteReminder_request, hrequest]
    rw [HostHttpRequestRecord.noteReminder_request] at htrim ⊢
    have hcallsBack : CallsBack entry.request reminder := by
      rw [hrequest] at htrim ⊢
      rw [hreminder]
      exact ⟨rfl, htrim.symm, rfl⟩
    refine ⟨?_, ?_⟩
    · unfold HostHttpRequestRecord.noteReminder
      split
      · exact fun h => nomatch h
      · next hnot => exact fun hstatus => hnot ⟨hcallsBack, hstatus⟩
    · obtain ⟨r, hr, hlsn, hpayload⟩ := hold.appended lsn rfl
      rw [HostHttpRequestRecord.noteReminder_requestedLsn]
      exact ⟨r, hr, hlsn ▸ hlt lsn rfl, reminder, (some.inj hpayload).symm, hcallsBack⟩
  · exact fun _ h => nomatch h
  · exact fun _ h => nomatch h
  · exact and_congr_left fun _ => ⟨(fun _ h => nomatch h), fun _ h => nomatch h⟩

theorem Inv.finishReminding (h : Inv lib s)
    (hi : s.tasks[i]? = some ⟨.reminding reminder, .appended lsn⟩) :
    Inv lib
    { s.setTask i (.reminding reminder) .done with requests := noteHostHttpCallbackScheduled s.requests reminder } := by
  refine h.note hi rfl ⟨rfl, rfl, rfl, rfl, rfl, rfl⟩ rfl ⟨?_, ?_, ?_, ?_, ?_, ?_, ?_, ?_⟩ (fun requestId hentering =>
    hentering.elim) (fun requestId => ?_) (fun _ h => nomatch h) fun requestId hu => hu.live.1 rfl
  · exact fun _ h => nomatch h
  · exact fun _ _ h => nomatch h
  · exact fun _ h => nomatch h
  · exact fun _ h => nomatch h
  · exact fun _ _ h => nomatch h
  · exact fun _ _ h => nomatch h
  · exact (h.tasks _ (mem_of_getElem? hi)).reminding
  · exact fun _ h => nomatch h
  · exact ⟨fun hlive => absurd rfl hlive.1, fun ⟨_, _, hspawned, _⟩ => (by cases hspawned)⟩

theorem Inv.finishCompleting (h : Inv lib s) {completedAtMs : Nat}
    (hi : s.tasks[i]? = some ⟨.completing request completedAtMs, .appended lsn⟩) :
    Inv lib { s.setTask i (.completing request completedAtMs) .done with
      requests := noteHostHttpCompleted s.requests request.requestId } := by
  obtain ⟨t, ht⟩ : ∃ t, t = { s.setTask i (.completing request completedAtMs) .done with
      requests := noteHostHttpCompleted s.requests request.requestId } := ⟨_, rfl⟩
  have hold := h.tasks _ (mem_of_getElem? hi)
  let change : String → HostHttpRequestRecord → HostHttpRequestRecord := fun requestId entry =>
    if request.requestId = requestId then { entry with status := .completed } else entry
  have hrequests : ∀ requestId : String, t.requests[requestId]? = s.requests[requestId]?.map (change requestId) := by
    intro requestId
    rw [ht]
    refine (getElem?_noteHostHttpCompleted ..).trans ?_
    show _ = s.requests[requestId]?.map fun entry => _
    by_cases hid : request.requestId = requestId
    · simp only [if_pos hid]
    · simp only [if_neg hid, Option.map_id']
  have hchange : ∀ requestId entry, Evolves entry (change requestId entry) := by
    intro requestId entry
    show Evolves entry (if _ then _ else _)
    split
    · exact .complete entry
    · exact .refl entry
  have hdone : ∀ requestId entry, Task.Live ⟨.completing request completedAtMs, .appended lsn⟩ requestId →
      (change requestId entry).status = .completed := by
    rintro requestId entry ⟨-, request', hspawned, rfl⟩
    cases hspawned
    show (if request.requestId = request.requestId then _ else _ : HostHttpRequestRecord).status = _
    rw [if_pos rfl]
  have hindexes : Indexes i ⟨.completing request completedAtMs, .done⟩ s t := ht ▸ ⟨rfl, rfl, rfl, rfl, rfl, rfl⟩
  rw [← ht]
  clear ht
  refine h.mapIndex hi hindexes hrequests hchange (fun requestId entry hstatus => ?_)
    (fun requestId entry hstatus => ?_) (hold.done.grow (grows_of_map hindexes hrequests hchange))
    (fun _ hentering => hentering.elim) rfl (Task.not_entering_done _)
    (fun requestId hlive => absurd rfl hlive.1)
    (fun requestId entry hlive => .inr (hdone requestId entry hlive))
    (fun requestId entry _ hlive _ _ _ => hdone requestId entry hlive) (fun _ h => nomatch h)
    fun requestId hu => hu.2
  · by_cases hid : request.requestId = requestId
    · obtain ⟨r, hr, -, hpayload⟩ := hold.appended lsn rfl
      exact .inr ⟨r, hr, completedAtMs, hid ▸ (some.inj hpayload).symm⟩
    · left
      have hkeep : change requestId entry = entry := if_neg hid
      rwa [hkeep] at hstatus
  · left
    by_cases hid : request.requestId = requestId
    · have hcompleted : change requestId entry = { entry with status := .completed } := if_pos hid
      rw [hcompleted] at hstatus
      cases hstatus
    · have hkeep : change requestId entry = entry := if_neg hid
      rwa [hkeep] at hstatus

theorem Inv.finish (h : Inv lib s) {i : Nat} (nowMs : Nat) {work : Work} {lsn : Nat}
    (hi : s.tasks[i]? = some ⟨work, .appended lsn⟩) : Inv lib (s.finish i work lsn nowMs) := by
  cases work with
  | requesting request requestedAtMs => exact h.finishRequesting hi
  | executing request =>
    have hphase := ((h.tasks _ (mem_of_getElem? hi)).executing request rfl).2
    cases hphase
  | calling request reminder => exact h.finishCalling nowMs hi
  | completing request completedAtMs => exact h.finishCompleting hi
  | reminding reminder => exact h.finishReminding hi
  | other payload => exact h.lose hi trivial

/-! ## Restarts -/

theorem LogOk.mem_walRecords (h : LogOk s) : r ∈ s.walRecords ↔ s.Logged r :=
  mem_readRecordsFromWalPaths fun file hfile file' hfile' r hr r' hr' he =>
    h.distinct r r' ⟨file, hfile, hr⟩ ⟨file', hfile', hr'⟩ he

/-- The index that is made from the log. -/
theorem LogOk.getElem?_index (h : LogOk s) (requestId : String) (entry : HostHttpRequestRecord) :
    (hostHttpRequestIndexFromWalRecords s.walRecords)[requestId]? = some entry ↔
    EntryOf s.Logged requestId entry := by
  have hlog : (· ∈ s.walRecords) = s.Logged := funext fun r => propext h.mem_walRecords
  have hasc : s.walRecords.Pairwise fun a b => a.lsn < b.lsn := readRecordsFromWalPaths_ascending s.files
  rw [getElem?_hostHttpRequestIndex hasc (hlog ▸ h.once), hlog]

/-- Each request of the log has an entry in the index that is made from it. -/
theorem LogOk.exists_entry (h : LogOk s)
    {request : HostHttpRequestDraft} (hr : s.Logged r)
    (hp : r.payload = .hostHttpRequested request) :
    ∃ status, (hostHttpRequestIndexFromWalRecords s.walRecords)[request.requestId]? =
    some ⟨request, r.lsn, status⟩ ∧
    StatusIs s.Logged r.lsn request status := by
  obtain ⟨status, hstatus⟩ := statusIs_exists s.Logged r.lsn request
  exact ⟨status, (h.getElem?_index _ _).mpr ⟨r, hr, hp, rfl, rfl, hstatus⟩, hstatus⟩

theorem mem_pendingHostHttpRequests :
    draft ∈ pendingHostHttpRequestsFromWalRecords walRecords ↔
    ∃ (requestId : String) (entry : HostHttpRequestRecord),
    (hostHttpRequestIndexFromWalRecords walRecords)[requestId]? = some entry ∧
    entry.status = .requested ∧
    entry.request = draft := by
  simp only [pendingHostHttpRequestsFromWalRecords, List.mem_map, List.mem_filter, decide_eq_true_eq, Prod.exists,
    mem_toList_iff_getElem?_eq_some]
  constructor
  · rintro ⟨entry, ⟨⟨requestId, entry', hentry, rfl⟩, hstatus⟩, hdraft⟩
    exact ⟨requestId, entry', hentry, hstatus, hdraft⟩
  · rintro ⟨requestId, entry, hentry, hstatus, hdraft⟩
    exact ⟨entry, ⟨⟨requestId, entry, hentry, rfl⟩, hstatus⟩, hdraft⟩

/-- The requests that are made again have different ids. -/
theorem pendingHostHttpRequests_distinct (hkeys : ∀ (requestId : String) entry,
    (hostHttpRequestIndexFromWalRecords walRecords)[requestId]? = some entry →
      entry.request.requestId = requestId) :
    (pendingHostHttpRequestsFromWalRecords walRecords).Pairwise fun a b => a.requestId ≠ b.requestId := by
  have hdistinct : (hostHttpRequestIndexFromWalRecords walRecords).toList.Pairwise fun a b =>
      a.2.request.requestId ≠ b.2.request.requestId := by
    refine Pairwise.imp_of_mem ?_ distinct_keys_toList
    intro a b ha hb hab he
    rw [hkeys a.1 a.2 (mem_toList_iff_getElem?_eq_some.mp ha),
      hkeys b.1 b.2 (mem_toList_iff_getElem?_eq_some.mp hb)] at he
    exact hab (compare_eq_iff_eq.mpr he)
  have hentries : ((hostHttpRequestIndexFromWalRecords walRecords).toList.map Prod.snd).Pairwise fun a b =>
      a.request.requestId ≠ b.request.requestId := pairwise_map.mpr hdistinct
  exact pairwise_map.mpr (hentries.filter _)

section
variable (h : Inv lib s)
include h

/-- What a request's record is parsed to is the request. -/
theorem Inv.parsed (hr : s.Logged r) (hp : r.payload = .hostHttpRequested draft)
    (hparse : hostHttpRequestFromDraft lib nowMs draft = .ok request) :
    Accepted lib request ∧ ∃ requestedAtMs, draft = request.toDraft requestedAtMs := by
  obtain ⟨request', requestedAtMs, haccepted, hdraft⟩ := (h.records r hr).accepted _ hp
  rw [hdraft] at hparse
  obtain rfl := HostHttpRequest.fromDraft_ok haccepted hparse
  exact ⟨haccepted, requestedAtMs, hdraft⟩

/-- A task of the restarted server makes a request of the log again. -/
theorem Inv.replayed (htask : task ∈ (s.restart lib nowMs).tasks) : ∃ request entry,
    task = ⟨.executing request, .ready⟩ ∧ Accepted lib request ∧
    HasEntry (s.restart lib nowMs) request entry := by
  obtain ⟨draft, hdraft, htask⟩ := mem_filterMap.mp htask
  obtain ⟨request, hrequest, rfl⟩ := map_eq_some_iff.mp htask
  obtain ⟨requestId, entry, hentry, -, rfl⟩ := mem_pendingHostHttpRequests.mp hdraft
  obtain ⟨r, hr, hp, hid, -⟩ := (h.log.getElem?_index _ _).mp hentry
  obtain ⟨haccepted, requestedAtMs, hdraft'⟩ := h.parsed hr hp (eq_ok_of_toOption hrequest)
  refine ⟨request, entry, rfl, haccepted, ?_, requestedAtMs, hdraft'⟩
  rw [← hid, hdraft'] at hentry
  exact hentry

theorem Inv.restart_apart (nowMs : Nat) :
    (s.restart lib nowMs).tasks.Pairwise fun task task' => task.Apart task' := by
  have hkeys : ∀ (requestId : String) entry, (hostHttpRequestIndexFromWalRecords s.walRecords)[requestId]? =
      some entry → entry.request.requestId = requestId := by
    intro requestId entry hentry
    obtain ⟨r, -, -, hid, -⟩ := (h.log.getElem?_index _ _).mp hentry
    exact hid
  have hsame : ∀ {draft request}, draft ∈ pendingHostHttpRequestsFromWalRecords s.walRecords →
      (hostHttpRequestFromDraft lib nowMs draft).toOption = some request → request.requestId = draft.requestId := by
    intro draft request hdraft hparse
    obtain ⟨requestId, entry, hentry, -, rfl⟩ := mem_pendingHostHttpRequests.mp hdraft
    obtain ⟨r, hr, hp, -⟩ := (h.log.getElem?_index _ _).mp hentry
    obtain ⟨-, requestedAtMs, hdraft⟩ := h.parsed hr hp (eq_ok_of_toOption hparse)
    rw [hdraft]
    rfl
  refine pairwise_filterMap.mpr ((pendingHostHttpRequests_distinct hkeys).imp_of_mem ?_)
  intro a b ha hb hab task htask task' htask'
  obtain ⟨request, hparse, rfl⟩ := map_eq_some_iff.mp htask
  obtain ⟨request', hparse', rfl⟩ := map_eq_some_iff.mp htask'
  refine ⟨fun requestId hentering => hentering.elim, ?_, fun _ h => nomatch h⟩
  rintro requestId ⟨-, _, hspawned, hrequest⟩ ⟨-, _, hspawned', hrequest'⟩
  cases hspawned
  cases hspawned'
  exact hab (((hsame ha hparse).symm.trans hrequest).trans (hrequest'.symm.trans (hsame hb hparse')))

/-- A request that has its callback, and is not taken for called back, is on a key with blanks
around it. -/
theorem Inv.untrimmed_of_called {request : HostHttpRequestDraft} (hr : s.Logged r)
    (hp : r.payload = .hostHttpRequested request) (hcalled : s.Called request.requestId)
    (hnot : ¬ After s.Logged r.lsn (RemindsHttp request)) :
    trim request.actorKey ≠ request.actorKey := by
  intro htrim
  obtain ⟨r', hr'⟩ := hcalled
  obtain ⟨hlogged, entry, hentry, hlt, result, dueAtMs, -, hp'⟩ := h.callbacks _ r' hr'
  obtain ⟨r'', hr'', hp'', hid, hlsn⟩ := (h.entries _ _ hentry).logged
  obtain rfl := h.log.once request.requestId r r'' hr hr'' ⟨request, hp, rfl⟩ ⟨_, hp'', hid⟩
  obtain rfl := WalPayload.hostHttpRequested.inj (hp.symm.trans hp'')
  exact hnot ⟨r', hlogged, hlsn ▸ hlt, _, hp', rfl, htrim.symm, rfl⟩

/-- A request without a callback has its task again. -/
theorem Inv.remade (hrecoverable : Recoverable lib s nowMs)
    (hentry : (s.restart lib nowMs).requests[requestId]? = some entry)
    (hstatus : entry.status = .requested)
    (hcalled : ¬ s.Called requestId) :
    ∃ request, ⟨.executing request, .ready⟩ ∈ (s.restart lib nowMs).tasks ∧
    request.requestId = requestId := by
  obtain ⟨r, hr, hp, hid, -⟩ := (h.log.getElem?_index _ _).mp hentry
  obtain ⟨-, hok⟩ := hrecoverable r entry.request hr hp (hid.symm ▸ hcalled)
  cases hparse : hostHttpRequestFromDraft lib nowMs entry.request with
  | error err =>
    rw [hparse] at hok
    cases hok
  | ok request =>
    obtain ⟨-, requestedAtMs, hdraft⟩ := h.parsed hr hp hparse
    refine ⟨request, mem_filterMap.mpr ⟨entry.request, ?_, by rw [hparse]; rfl⟩, ?_⟩
    · exact mem_pendingHostHttpRequests.mpr ⟨requestId, entry, hentry, hstatus, rfl⟩
    · rw [← hid, hdraft]
      rfl

theorem Inv.restart_entry (hrecoverable : Recoverable lib s nowMs)
    (hentry : (s.restart lib nowMs).requests[requestId]? = some entry) :
    EntryOk (s.restart lib nowMs) requestId entry := by
  obtain ⟨r, hr, hp, rfl, hlsn, hstatus⟩ := (h.log.getElem?_index _ _).mp hentry
  have hagain := h.remade hrecoverable hentry
  refine ⟨⟨r, hr, hp, rfl, hlsn⟩, fun hcompleted => ?_, fun hscheduled => ?_, ?_, ?_⟩
  · rw [hcompleted] at hstatus
    obtain ⟨r', hr', -, hc⟩ := hstatus
    exact ⟨r', hr', hc⟩
  · rw [hscheduled] at hstatus
    obtain ⟨-, r', hr', -, reminder, hp', hcalls⟩ := hstatus
    rw [hcalls.2.1]
    exact (h.records r' hr').reminds reminder hp'
  · cases hcase : entry.status with
    | completed => exact .inl rfl
    | callbackScheduled =>
      rw [hcase] at hstatus
      exact .inr (.inl fun _ => ⟨by rw [hcase]; simp, hlsn ▸ hstatus.2⟩)
    | requested =>
      right
      by_cases hc : s.Called entry.request.requestId
      · rw [hcase] at hstatus
        exact .inl fun htrim => absurd htrim (h.untrimmed_of_called hr hp hc hstatus.2)
      · obtain ⟨request, hmem, hrequestId⟩ := hagain hcase hc
        exact .inr ⟨_, hmem, (fun h => nomatch h), request, rfl, hrequestId⟩
  · by_cases hc : s.Called entry.request.requestId
    · exact .inl hc
    · right
      cases hcase : entry.status with
      | completed =>
        rw [hcase] at hstatus
        obtain ⟨r', hr', -, hcompletes⟩ := hstatus
        exact absurd ((h.records r' hr').completed _ hcompletes).1 hc
      | callbackScheduled =>
        rw [hcase] at hstatus
        exact absurd hstatus.2 (hrecoverable r entry.request hr hp hc).1
      | requested =>
        obtain ⟨request, hmem, hrequestId⟩ := hagain hcase hc
        exact ⟨_, hmem, ⟨(fun h => nomatch h), request, rfl, hrequestId⟩, trivial⟩

theorem Inv.restart_record (nowMs : Nat) (hr : s.Logged r) :
    RecordOk lib (s.restart lib nowMs) r where
  accepted := (h.records r hr).accepted
  requested requestId := by
    rintro ⟨request, hp, rfl⟩
    obtain ⟨status, hsome, -⟩ := h.log.exists_entry hr hp
    exact .inl (isSome_iff_exists.mpr ⟨_, hsome⟩)
  completed requestId hc := by
    obtain ⟨hcalled, before, hbefore, hlt, -⟩ := (h.records r hr).completed requestId hc
    obtain ⟨r', hr', hp', rfl, hlsn'⟩ := (h.entries requestId before hbefore).logged
    obtain ⟨status, hsome, hstatus⟩ := h.log.exists_entry hr' hp'
    have hcompleted : StatusIs s.Logged r'.lsn before.request .completed := ⟨r, hr, hlsn' ▸ hlt, hc⟩
    exact ⟨hcalled, _, hsome, hlsn' ▸ hlt, .inl (statusIs_unique hstatus hcompleted)⟩
  reminds := (h.records r hr).reminds

theorem Inv.crash {nowMs : Nat} (hrecoverable : Recoverable lib s nowMs) :
    Inv lib (s.restart lib nowMs) := by
  refine ⟨⟨?_, ?_, ?_, ?_⟩, ?_, ?_, ?_, ?_, ?_, ?_, fun hzero => ?_⟩
  · exact fun r hr => le_highestLsnOf (h.log.mem_walRecords.mpr hr)
  · exact h.log.distinct
  · intro task htask lsn hphase
    obtain ⟨request, entry, rfl, -⟩ := h.replayed htask
    cases hphase
  · exact h.log.once
  · intro task htask
    obtain ⟨request, entry, rfl, haccepted, hhas⟩ := h.replayed htask
    refine ⟨(fun _ h => nomatch h), (fun _ _ h => nomatch h), ?_, ?_, (fun _ _ h => nomatch h),
      (fun _ _ h => nomatch h), (fun _ h => nomatch h), fun _ h => nomatch h⟩
    · rintro request' hwork
      cases hwork
      exact ⟨haccepted, rfl⟩
    · rintro request' hspawned
      cases hspawned
      exact ⟨entry, hhas, fun _ h => nomatch h⟩
  · exact fun requestId entry hentry => h.restart_entry hrecoverable hentry
  · exact fun r hr => h.restart_record nowMs hr
  · intro task htask requestId hentering
    obtain ⟨request, entry, rfl, -⟩ := h.replayed htask
    exact hentering.elim
  · intro i j task task' hi hj hij
    obtain ⟨hilt, rfl⟩ := List.getElem?_eq_some_iff.mp hi
    obtain ⟨hjlt, rfl⟩ := List.getElem?_eq_some_iff.mp hj
    rcases lt_or_gt_of_ne hij with hlt | hlt
    · exact pairwise_iff_getElem.mp (h.restart_apart nowMs) i j hilt hjlt hlt
    · exact (pairwise_iff_getElem.mp (h.restart_apart nowMs) j i hjlt hilt hlt).symm
  · intro requestId r hr
    obtain ⟨hlogged, before, hbefore, hlt, hcallback⟩ := h.callbacks requestId r hr
    obtain ⟨r', hr', hp', rfl, hlsn⟩ := (h.entries requestId before hbefore).logged
    obtain ⟨status, hsome, -⟩ := h.log.exists_entry hr' hp'
    exact ⟨hlogged, _, hsome, hlsn ▸ hlt, hcallback⟩
  · cases hzero

end

/-! ## Runs -/

theorem Fresh.inv (h : Fresh s) : Inv lib s := by
  have hnone : ∀ r, ¬ s.Logged r := by
    rintro r ⟨file, hfile, hr⟩
    rw [h.files file hfile] at hr
    cases hr
  have htasks : ∀ task, task ∉ s.tasks := by
    intro task htask
    rw [h.tasks] at htask
    cases htask
  have hcallbacks : ∀ callback, callback ∉ s.callbacks := by
    intro callback hcallback
    rw [h.callbacks] at hcallback
    cases hcallback
  have hrequests : ∀ (requestId : String) entry, s.requests[requestId]? ≠ some entry := by
    intro requestId entry hentry
    rw [h.requests, getElem?_empty] at hentry
    cases hentry
  refine ⟨⟨?_, ?_, ?_, ?_⟩, ?_, ?_, ?_, ?_, ?_, ?_, fun _ => ⟨?_, ?_⟩⟩
  · exact fun r hr => absurd hr (hnone r)
  · exact fun r r' hr => absurd hr (hnone r)
  · exact fun task htask => absurd htask (htasks task)
  · exact fun requestId r r' hr => absurd hr (hnone r)
  · exact fun task htask => absurd htask (htasks task)
  · exact fun requestId entry hentry => absurd hentry (hrequests requestId entry)
  · exact fun r hr => absurd hr (hnone r)
  · exact fun task htask => absurd htask (htasks task)
  · exact fun i j task task' hi => absurd (mem_of_getElem? hi) (htasks task)
  · exact fun requestId r hr => absurd hr (hcallbacks _)
  · rw [h.callbacks]
    exact nodup_nil
  · exact fun task htask => absurd htask (htasks task)

theorem Inv.step (h : Inv lib s) {e : HostHttpEvent} (hsound : Sound lib s e)
    (hstep : HostHttpStep lib s e t) :
    Inv lib t := by
  cases hstep with
  | request haccepted hexisting => exact h.command haccepted hexisting hsound
  | answered hexisting => exact h
  | executed hi hreminder => exact h.executed hi hreminder
  | unscheduled hi hreminder =>
    have hok := hsound _ hi
    rw [hreminder] at hok
    cases hok
  | remind htrimmed =>
    refine h.joinOther rfl (fun _ _ h => nomatch h) ?_ (fun _ h => nomatch h)
    rintro reminder hwork
    cases hwork
    exact htrimmed
  | other hunindexed =>
    refine h.joinOther rfl (fun _ _ h => nomatch h) (fun _ h => nomatch h) ?_
    rintro payload hwork
    cases hwork
    exact hunindexed
  | allocate hi hpayload => exact h.allocate hi hpayload
  | append hi hpayload hshard => exact h.append hi hpayload hshard
  | @finish i nowMs work lsn hi => exact h.finish nowMs hi
  | failReady hi | failAllocated hi => exact h.fail hi (hsound _ hi) (fun _ h => nomatch h)
  | lose hi => exact h.lose hi (hsound _ hi)
  | crash => exact h.crash hsound

theorem Idle.not_live (hidle : Idle s) (htask : task ∈ s.tasks) (requestId : String) :
    ¬ task.Live requestId := fun hlive => hlive.1 (hidle task htask)

/-- A completion of the log is of a request before it. -/
theorem Inv.completes_after (h : Inv lib s) (hentry : s.requests[requestId]? = some entry)
    (hr : s.Logged r) (hc : CompletesHttp requestId r) : entry.requestedLsn < r.lsn ∧
    (entry.status = .completed ∨ ∃ task ∈ s.tasks, task.phase = .appended r.lsn ∧
    task.Live requestId) := by
  obtain ⟨-, entry', hentry', hgoesOn⟩ := (h.records r hr).completed requestId hc
  cases hentry.symm.trans hentry'
  exact hgoesOn

/-- With nothing under way each request of the log is in the index, with the status that the log
gives it. -/
theorem Inv.entry_of_idle (h : Inv lib s) (hidle : Idle s) {request : HostHttpRequestDraft}
    (hr : s.Logged r) (hp : r.payload = .hostHttpRequested request) : ∃ status,
    s.requests[request.requestId]? = some ⟨request, r.lsn, status⟩ ∧
    StatusIs s.Logged r.lsn request status := by
  rcases (h.records r hr).requested _ ⟨request, hp, rfl⟩ with hsome | ⟨task, htask, hphase, -⟩
  · obtain ⟨entry, hentry⟩ := isSome_iff_exists.mp hsome
    have hok := h.entries _ _ hentry
    obtain ⟨r', hr', hp', hid, hlsn⟩ := hok.logged
    obtain rfl := h.log.once request.requestId r r' hr hr' ⟨request, hp, rfl⟩ ⟨_, hp', hid⟩
    obtain rfl := WalPayload.hostHttpRequested.inj (hp.symm.trans hp')
    refine ⟨entry.status, by rw [hentry, ← hlsn], ?_⟩
    by_cases hcompleted : entry.status = .completed
    · rw [hcompleted]
      obtain ⟨r', hr', hc⟩ := hok.completed hcompleted
      exact ⟨r', hr', hlsn ▸ (h.completes_after hentry hr' hc).1, hc⟩
    · have hnever : ¬ After s.Logged r.lsn (CompletesHttp entry.request.requestId) := by
        rintro ⟨r', hr', -, hc⟩
        rcases (h.completes_after hentry hr' hc).2 with hstatus | ⟨task, htask, -, hlive⟩
        · exact hcompleted hstatus
        · exact hidle.not_live htask _ hlive
      have hsettled : Settled s entry := by
        rcases hok.goesOn with hstatus | hsettled | ⟨task, htask, hlive⟩
        · exact absurd hstatus hcompleted
        · exact hsettled
        · exact absurd hlive (hidle.not_live htask _)
      cases hcase : entry.status with
      | completed => exact absurd hcase hcompleted
      | callbackScheduled => exact ⟨hnever, hlsn ▸ (hsettled (hok.noted hcase)).2⟩
      | requested =>
        refine ⟨hnever, ?_⟩
        rintro ⟨r', hr', -, reminder, hp', hcalls⟩
        have htrim : trim entry.request.actorKey = entry.request.actorKey := by
          rw [hcalls.2.1]
          exact (h.records r' hr').reminds reminder hp'
        exact (hsettled htrim).1 hcase
  · have := hidle task htask
    rw [hphase] at this
    cases this

theorem host_http_exactly_once (hs : Fresh s) (hrun : Reaches (HostHttpStep lib) (Sound lib) s t) :
    RequestedOnce t.Logged ∧ (t.crashes = 0 → (t.callbacks.map Prod.fst).Nodup) ∧ (Idle t →
    (∀ r request, t.Logged r → r.payload = .hostHttpRequested request → ∃ r', (request.requestId,
    r') ∈ t.callbacks ∧
    t.Logged r' ∧ IsCallback t request r') ∧
    t.requests = hostHttpRequestIndexFromWalRecords t.walRecords) := by
  have h : Inv lib t := hrun.invariant (fun _ _ _ h hsound hstep => h.step hsound hstep) hs.inv
  refine ⟨h.log.once, fun hzero => (h.never hzero).1, fun hidle => ⟨fun r request hr hp => ?_, ?_⟩⟩
  · obtain ⟨status, hentry, -⟩ := h.entry_of_idle hidle hr hp
    rcases (h.entries _ _ hentry).called with ⟨r', hr'⟩ | ⟨task, htask, hu⟩
    · obtain ⟨hlogged, entry, hentry', -, hcallback⟩ := h.callbacks _ _ hr'
      cases hentry.symm.trans hentry'
      exact ⟨r', hr', hlogged, hcallback⟩
    · exact absurd hu.live (hidle.not_live htask _)
  · refine ext_getElem? fun {requestId} => ?_
    refine ext fun entry => ?_
    rw [h.log.getElem?_index]
    constructor
    · intro hentry
      obtain ⟨r, hr, hp, hid, hlsn⟩ := (h.entries requestId entry hentry).logged
      obtain ⟨status, hentry', hstatus⟩ := h.entry_of_idle hidle hr hp
      rw [hid, hentry] at hentry'
      have he : entry.status = status := congrArg (·.status) (some.inj hentry')
      exact ⟨r, hr, hp, hid, hlsn, he ▸ hstatus⟩
    · rintro ⟨r, hr, hp, hid, hlsn, hstatus⟩
      obtain ⟨status, hentry, hstatus'⟩ := h.entry_of_idle hidle hr hp
      rw [← hid, hentry, statusIs_unique hstatus' hstatus, ← hlsn]

section Sample

def fetchedJson : Json :=
  .object [("behavior", .string "posts"), ("mutation", .string "fetched"), ("type", .string "behaviorContinuation")]

def fetched : Value where
  json := fetchedJson
  wellFormed :=
    ⟨keysAscending_iff.mpr (show ["behavior", "mutation", "type"].Pairwise (· < ·) by decide +kernel), trivial, trivial,
      trivial, trivial⟩

def textField (value : Value) (field : String) : Except String String :=
  match (value.json.asObject.bind (·.lookup field)).bind Json.asStr with
  | some text => .ok text
  | none => .error ("missing field " ++ field)

/-- No header and no body is given. -/
def sampleHttp : HttpLibraries where
  continuationFromValue value := do
    return ⟨← textField value "type", ← textField value "behavior", ← textField value "mutation",
      none, none, none, none⟩
  headerName _ := .ok ()
  headerValue _ := .ok ()
  jsonLen _ := 0
  base64Len _ := .ok 0

def getCommand : RequestHostHttp :=
  ⟨some "r", "get", "http://a", ∅, none, none, none, .room, "k", none, fetched⟩

def getRequest : HostHttpRequest where
  requestId := "r"
  method := "GET"
  url := "http://a"
  rawHeaders := ∅
  body := none
  bodyBase64 := none
  timeoutMs := 5000
  actorKind := .room
  actorKey := "k"
  reminderId := hostHttpReminderId "r"
  continuation := fetched

theorem exists_ok {ε α : Type} {x : Except ε α} (h : x.isOk = true) : ∃ a, x = .ok a := by
  cases x with
  | error e => cases h
  | ok a => exact ⟨a, rfl⟩

theorem getRequest_accepted : Accepted sampleHttp getRequest := by
  obtain ⟨request, hparse⟩ :=
    exists_ok (show (parseHostHttpRequest sampleHttp "n" 0 getCommand).isOk = true by decide +kernel)
  obtain ⟨method, body, hmethod, hbody, he⟩ := parseHostHttpRequest_ok hparse
  have hget : (parseHostHttpMethod "get").toOption = some "GET" := by decide +kernel
  obtain rfl : method = "GET" := Except.ok.inj (hmethod.symm.trans (eq_ok_of_toOption hget))
  obtain rfl : body = none := (Except.ok.inj hbody).symm
  have hid : givenOr (some "r") "n" = "r" := by decide +kernel
  have hreminderId : givenOr none (hostHttpReminderId "r") = hostHttpReminderId "r" := rfl
  have htimeout : clampTimeout 5000 = 5000 := by decide
  refine ⟨"n", 0, getCommand, by decide +kernel, by decide, hparse.trans (congrArg Except.ok (he.trans ?_))⟩
  show HostHttpRequest.mk (givenOr (some "r") "n") _ _ _ _ _ (clampTimeout 5000) _ _
    (givenOr none (hostHttpReminderId (givenOr (some "r") "n"))) _ = getRequest
  rw [hid, hreminderId, htimeout]
  rfl

def answer : Value := ⟨.string "ok", trivial⟩

def answerReminder : ActorReminderDraft where
  actorKind := getRequest.actorKind.asStr
  actorKey := trim getRequest.actorKey
  reminderId := getRequest.reminderId
  dueAtMs := max 5 1
  payload := some (hostHttpContinuationPayload fetched "r" "GET" "http://a" answer)

theorem answerReminder_scheduled :
    callbackReminder sampleHttp "n" 5 5 getRequest answer = .ok answerReminder := by
  obtain ⟨reminder, h⟩ :=
    exists_ok (show (callbackReminder sampleHttp "n" 5 5 getRequest answer).isOk = true by decide +kernel)
  rw [h, callbackReminder_ok getRequest_accepted.trimmed h]
  rfl

def requested (lsn : Nat) : WalRecord :=
  ⟨lsn, 0, 1, "n", 0, 1, .strict, .hostHttpRequested (getRequest.toDraft 0), none⟩
def called (lsn : Nat) : WalRecord :=
  ⟨lsn, 0, 1, "n", 5, 1, .strict, .actorReminderScheduled answerReminder, none⟩
def completed (lsn : Nat) : WalRecord :=
  ⟨lsn, 0, 1, "n", 6, 1, .strict, .hostHttpCompleted "r" 6, none⟩

def serving (nextLsn : Nat) (records : List WalRecord) (requests : HostHttpRequestIndex)
    (tasks : List Task)
    (executed : List (String × Value)) (callbacks : List (String × WalRecord)) : ServerState :=
  ⟨nextLsn, [([], records)], requests, tasks, executed, callbacks, 0⟩

def started : ServerState := serving 0 [] ∅ [] [] []

theorem started_fresh : Fresh started := by
  refine ⟨fun file hfile => ?_, rfl, rfl, rfl, rfl, rfl⟩
  exact mem_singleton.mp hfile

def oneRequest : HostHttpRequestIndex :=
  Std.ExtTreeMap.insert ∅ "r" ⟨getRequest.toDraft 0, 1, .requested⟩

def oneDone : ServerState :=
  serving 3 [requested 1, called 2, completed 3]
    (noteHostHttpCompleted (noteHostHttpCallbackScheduled oneRequest answerReminder) "r")
    [⟨.completing getRequest 6, .done⟩] [("r", answer)] [("r", called 2)]

theorem not_existing : existingHostHttpRequest ∅ getRequest = .ok none := by
  unfold existingHostHttpRequest
  rw [getElem?_empty]

theorem executed_sound {s : ServerState} (hi : s.tasks[0]? = some ⟨.executing getRequest, .ready⟩) :
    Sound sampleHttp s (.executed 0 answer "n" 5 5) := by
  intro request hi'
  cases hi.symm.trans hi'
  rw [answerReminder_scheduled]
  rfl

theorem reaches_oneDone : Reaches (HostHttpStep sampleHttp) (Sound sampleHttp) started oneDone := by
  have h₀ : Reaches (HostHttpStep sampleHttp) (Sound sampleHttp) _ _ := .refl started
  have h₁ := h₀.take (e := .command getRequest 0) (.request getRequest_accepted not_existing)
    (by exact fun task htask => absurd htask not_mem_nil)
  have h₂ := h₁.take (e := .allocate 0) (.allocate rfl rfl) (by trivial)
  have h₃ := h₂.take (e := .append 0 0 (requested 1)) (.append rfl rfl one_pos) (by trivial)
  have h₄ := h₃.take (e := .finish 0 4) (.finish rfl) (by trivial)
  have h₅ := h₄.take (e := .executed 0 answer "n" 5 5) (.executed rfl answerReminder_scheduled)
    (by exact executed_sound rfl)
  have h₆ := h₅.take (e := .allocate 0) (.allocate rfl rfl) (by trivial)
  have h₇ := h₆.take (e := .append 0 0 (called 2)) (.append rfl rfl one_pos) (by trivial)
  have h₈ := h₇.take (e := .finish 0 6) (.finish rfl) (by trivial)
  have h₉ := h₈.take (e := .allocate 0) (.allocate rfl rfl) (by trivial)
  have h₁₀ := h₉.take (e := .append 0 0 (completed 3)) (.append rfl rfl one_pos) (by trivial)
  have h₁₁ := h₁₀.take (e := .finish 0 7) (.finish rfl) (by trivial)
  exact h₁₁

theorem host_http_exactly_once_sample :
    RequestedOnce oneDone.Logged ∧ (oneDone.callbacks.map Prod.fst).Nodup ∧
    (∃ r', ("r", r') ∈ oneDone.callbacks ∧ oneDone.Logged r' ∧
    IsCallback oneDone (getRequest.toDraft 0) r') ∧
    oneDone.requests = hostHttpRequestIndexFromWalRecords oneDone.walRecords := by
  obtain ⟨honce, hnever, hidle⟩ := host_http_exactly_once started_fresh reaches_oneDone
  obtain ⟨hcalled, hindex⟩ := hidle fun task htask => (by rw [mem_singleton.mp htask])
  refine ⟨honce, hnever rfl, hcalled (requested 1) _ ⟨_, mem_singleton.mpr rfl, ?_⟩ rfl, hindex⟩
  exact mem_cons_self

/-- The states of two commands with one id. -/
def both (nextLsn : Nat) (records : List WalRecord) (requests : HostHttpRequestIndex)
    (first second : Task)
    (executed : List (String × Value)) (callbacks : List (String × WalRecord)) : ServerState :=
  serving nextLsn records requests [first, second] executed callbacks

def bothCalled : ServerState :=
  both 4 [requested 1, requested 2, called 3, called 4] (oneRequest.insert "r" ⟨getRequest.toDraft 0, 2, .requested⟩)
    ⟨.calling getRequest answerReminder, .appended 3⟩ ⟨.calling getRequest answerReminder, .appended 4⟩
    [("r", answer), ("r", answer)] [("r", called 3), ("r", called 4)]

theorem reaches_bothCalled :
    Reaches (HostHttpStep sampleHttp) (fun _ _ => True) started bothCalled := by
  have h₀ : Reaches (HostHttpStep sampleHttp) (fun _ _ => True) _ _ := .refl started
  have h₁ := h₀.take (e := .command getRequest 0) (.request getRequest_accepted not_existing) trivial
  have h₂ := h₁.take (e := .command getRequest 0) (.request getRequest_accepted not_existing) trivial
  have h₃ := h₂.take (e := .allocate 0) (.allocate rfl rfl) trivial
  have h₄ := h₃.take (e := .allocate 1) (.allocate rfl rfl) trivial
  have h₅ := h₄.take (e := .append 0 0 (requested 1)) (.append rfl rfl one_pos) trivial
  have h₆ := h₅.take (e := .append 1 0 (requested 2)) (.append rfl rfl one_pos) trivial
  have h₇ := h₆.take (e := .finish 0 4) (.finish rfl) trivial
  have h₈ := h₇.take (e := .finish 1 4) (.finish rfl) trivial
  have h₉ := h₈.take (e := .executed 0 answer "n" 5 5) (.executed rfl answerReminder_scheduled) trivial
  have h₁₀ := h₉.take (e := .executed 1 answer "n" 5 5) (.executed rfl answerReminder_scheduled) trivial
  have h₁₁ := h₁₀.take (e := .allocate 0) (.allocate rfl rfl) trivial
  have h₁₂ := h₁₁.take (e := .allocate 1) (.allocate rfl rfl) trivial
  have h₁₃ := h₁₂.take (e := .append 0 0 (called 3)) (.append rfl rfl one_pos) trivial
  exact h₁₃.take (e := .append 1 0 (called 4)) (.append rfl rfl one_pos) trivial

/-- A request is logged twice, and called back twice. -/
theorem host_http_twice :
    Fresh started ∧ Reaches (HostHttpStep sampleHttp) (fun _ _ => True) started bothCalled ∧
    bothCalled.crashes = 0 ∧ ¬ RequestedOnce bothCalled.Logged ∧
    ¬ (bothCalled.callbacks.map Prod.fst).Nodup := by
  refine ⟨started_fresh, reaches_bothCalled, rfl, fun honce => ?_, by decide +kernel⟩
  have hlogged : ∀ r ∈ [requested 1, requested 2, called 3, called 4], bothCalled.Logged r := fun r hr =>
    ⟨_, mem_singleton.mpr rfl, hr⟩
  have hsame := honce "r" (requested 1) (requested 2) (hlogged _ mem_cons_self)
    (hlogged _ (mem_cons_of_mem _ mem_cons_self)) ⟨_, rfl, rfl⟩ ⟨_, rfl, rfl⟩
  have hlsn : (1 : Nat) = 2 := congrArg WalRecord.lsn hsame
  omega

end Sample

end NextDb.Api.HostHttp
