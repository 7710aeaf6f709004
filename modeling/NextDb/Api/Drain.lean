import NextDb.Lib.FairLock
import NextDb.Lib.Run

/-!
# Draining

A durable write takes the gate of the runtime writes to read, looks whether the node drains,
and counts itself until it drops its guard. `prepareRuntimeRestartInternal` sets the drain,
waits for the writes, by the count or by taking the gate to write, and reports a snapshot at
the current LSN. A guarded write may run inside another: a reminder sweep runs behaviors whose
commands write.

* `drain_barrier`: once a preparation is ready for the restart, no guarded write appends a
  record until the drain is lifted, and its snapshot is at or above all that they appended.
* `drain_waits_for_no_waiter`: no task that has a guard waits for the gate behind a drain, in a
  run in which the behaviors of a reminder sweep begin no write while a drain waits.
-/

namespace NextDb.Api.Drain

open FairLock Run List Option Bool

/-! ## What tasks do -/

/-- The writes that begin with `begin_runtime_write`. -/
inductive GuardedWrite where
  | publishUserEvent
  | sendMessage
  | sendMessages
  | commitObjectPut
  | commitObjectDelete
  | reloadBehaviors
  | upsertUser
  | commitRecordTransaction
  | commitRecordUpsert
  | commitRecordDelete
  | scheduleActorReminder
  | cancelActorReminder
deriving DecidableEq

/-- What a call does at the gate and to the log. -/
inductive Action where
  | beginRuntimeWrite
  /-- `append_ordered_wal_records`. -/
  | append (records : Nat)
  /-- `WalWriter::replicate`, of records that have LSNs. -/
  | replicate (lsns : List Nat)
  | dropGuard

/-- A guarded write, and how many records it appends. -/
def guarded (_ : GuardedWrite) (records : Nat) : List Action :=
  [.beginRuntimeWrite, .append records, .dropGuard]

inductive BehaviorCommand where
  | write (kind : GuardedWrite) (records : Nat)
  | requestHostHttp
  /-- A command that writes nothing. -/
  | volatile

def BehaviorCommand.actions : BehaviorCommand → List Action
  | .write kind records => guarded kind records
  | .requestHostHttp => [.append 1]
  | .volatile => []

/-- A due reminder: the commands of its behavior if it has one, and whether that replies. -/
structure DueReminder where
  continuation : Option (List BehaviorCommand)
  reply : Bool

/-- The turn of a reminder in the sweep: the behavior, `schedule_actor_reminder_after_runtime_write`
for its reply, and the fact that it fired. -/
def DueReminder.actions (self : DueReminder) : List Action :=
  (self.continuation.getD []).flatMap BehaviorCommand.actions ++ (if self.reply then [.append 1] else []) ++ [.append 1]

/-- The calls of the server that write. -/
inductive Call where
  | write (kind : GuardedWrite) (records : Nat)
  /-- Each operation of the batch on its own. -/
  | commitRecordBatch (operations : List GuardedWrite)
  | invokeBehavior (commands : List BehaviorCommand)
  | runDueActorReminders (due : List DueReminder)
  /-- The answer of a host HTTP request: the continuation, and the fact that it completed. -/
  | answerHostHttp
  | applySchema
  | replicateWal (lsns : List Nat)
  /-- The shards of an import bundle. -/
  | importBundle (lsnsByShard : List (List Nat))

def Call.actions : Call → List Action
  | .write kind records => guarded kind records
  | .commitRecordBatch operations => operations.flatMap (guarded · 1)
  | .invokeBehavior commands => commands.flatMap BehaviorCommand.actions
  | .runDueActorReminders due => .beginRuntimeWrite :: due.flatMap DueReminder.actions ++ [.dropGuard]
  | .answerHostHttp => guarded .scheduleActorReminder 1 ++ [.append 1]
  | .applySchema => [.append 1]
  | .replicateWal lsns => [.replicate lsns]
  | .importBundle lsnsByShard => lsnsByShard.map .replicate

/-! ## Which calls take the gate again -/

/-- How many guards a task has after an action. -/
def Action.guards (held : Nat) : Action → Nat
  | .beginRuntimeWrite => held + 1
  | .append _ | .replicate _ => held
  | .dropGuard => held - 1

def guardsAfter (held : Nat) (actions : List Action) : Nat := actions.foldl Action.guards held

/-- Each action is one that may be taken with the guards that the task has then. -/
def Along (may : Nat → Action → Prop) : Nat → List Action → Prop
  | _, [] => True
  | held, action :: actions => may held action ∧ Along may (action.guards held) actions

/-- A task asks for the gate only without a guard. -/
def AsksFree (held : Nat) : Action → Prop
  | .beginRuntimeWrite => held = 0
  | _ => True

/-- A task appends only under a guard. -/
def AppendsGuarded (held : Nat) : Action → Prop
  | .append _ => 0 < held
  | .replicate _ => False
  | _ => True

/-- The behavior of the reminder begins a write. -/
def DueReminder.Writes (self : DueReminder) : Prop :=
  ∃ kind records, BehaviorCommand.write kind records ∈ self.continuation.getD []

/-- The call begins a write under the guard of another: a sweep of reminders whose behaviors write.
-/
def Call.Nests : Call → Prop
  | .runDueActorReminders due => ∃ reminder ∈ due, reminder.Writes
  | _ => False

/-- The calls that append under the gate alone. -/
def Call.Gated : Call → Prop
  | .write .. | .commitRecordBatch _ | .runDueActorReminders _ => True
  | .invokeBehavior commands => .requestHostHttp ∉ commands
  | .answerHostHttp | .applySchema | .replicateWal _ | .importBundle _ => False

section Nesting

variable {α : Type} {may : Nat → Action → Prop} {held : Nat} {items : List α} {f : α → List Action}
  {before after : List Action}

theorem guardsAfter_append :
    guardsAfter held (before ++ after) = guardsAfter (guardsAfter held before) after :=
  foldl_append

theorem along_append :
    Along may held (before ++ after) ↔ Along may held before ∧
    Along may (guardsAfter held before) after := by
  induction before generalizing held with
  | nil => exact (and_iff_right trivial).symm
  | cons action before ih => exact (and_congr_right fun _ => ih).trans and_assoc.symm

theorem guardsAfter_flatMap (h : ∀ item ∈ items, guardsAfter held (f item) = held) :
    guardsAfter held (items.flatMap f) = held := by
  induction items with
  | nil => rfl
  | cons item items ih =>
    rw [flatMap_cons, guardsAfter_append, h item mem_cons_self]
    exact ih fun other hother => h other (mem_cons_of_mem _ hother)

theorem along_flatMap (h : ∀ item ∈ items, guardsAfter held (f item) = held) :
    Along may held (items.flatMap f) ↔ ∀ item ∈ items, Along may held (f item) := by
  induction items with
  | nil => simp [Along]
  | cons item items ih =>
    rw [flatMap_cons, along_append, h item mem_cons_self, forall_mem_cons,
      ih fun other hother => h other (mem_cons_of_mem _ hother)]

/-- What an action may be that is taken after others. -/
theorem Along.at {action : Action} (h : Along may held (before ++ action :: after)) :
    may (guardsAfter held before) action :=
  (along_append.mp h).2.1

theorem guardsAfter_guarded (kind : GuardedWrite) (records : Nat) :
    guardsAfter held (guarded kind records) = held := rfl

theorem guardsAfter_command (command : BehaviorCommand) :
    guardsAfter held command.actions = held := by
  cases command <;> rfl

theorem guardsAfter_reminder (reminder : DueReminder) :
    guardsAfter held reminder.actions = held := by
  unfold DueReminder.actions
  rw [guardsAfter_append, guardsAfter_append, guardsAfter_flatMap fun command _ => guardsAfter_command command]
  cases reminder.reply <;> rfl

theorem along_sweep {due : List DueReminder} (hbegin : may 0 .beginRuntimeWrite)
    (hdrop : may 1 .dropGuard) :
    Along may 0 (Call.runDueActorReminders due).actions ↔
    ∀ reminder ∈ due, Along may 1 reminder.actions := by
  have hdue : ∀ reminder ∈ due, guardsAfter 1 reminder.actions = 1 := fun reminder _ => guardsAfter_reminder reminder
  rw [Call.actions, cons_append, Along, and_iff_right hbegin, along_append]
  show Along may 1 _ ∧ Along may (guardsAfter 1 _) _ ↔ _
  rw [guardsAfter_flatMap hdue, along_flatMap hdue]
  exact and_iff_left ⟨hdrop, trivial⟩

theorem along_reminder {reminder : DueReminder} (happend : may held (.append 1)) :
    Along may held reminder.actions ↔
    ∀ command ∈ reminder.continuation.getD [], Along may held command.actions := by
  have hcommands : ∀ command ∈ reminder.continuation.getD [], guardsAfter held command.actions = held :=
    fun command _ => guardsAfter_command command
  unfold DueReminder.actions
  rw [along_append, along_append, guardsAfter_append, guardsAfter_flatMap hcommands, along_flatMap hcommands]
  cases reminder.reply <;> simp [Along, guardsAfter, Action.guards, happend]

/-- A call asks for the gate with a guard exactly if it is a sweep whose behaviors write. -/
theorem Call.along_asksFree_iff (call : Call) : Along AsksFree 0 call.actions ↔ ¬ call.Nests := by
  cases call with
  | write kind records => simp [actions, guarded, Along, AsksFree, Nests]
  | commitRecordBatch operations =>
    rw [actions, along_flatMap fun kind _ => guardsAfter_guarded kind 1]
    simp [guarded, Along, AsksFree, Nests]
  | invokeBehavior commands =>
    rw [actions, along_flatMap fun command _ => guardsAfter_command command]
    refine iff_of_true (fun command _ => ?_) (by simp [Nests])
    cases command <;> simp [BehaviorCommand.actions, guarded, Along, AsksFree]
  | runDueActorReminders due =>
    have hcommand : ∀ command : BehaviorCommand,
        Along AsksFree 1 command.actions ↔ ∀ kind records, command ≠ .write kind records := by
      intro command
      cases command <;> simp [BehaviorCommand.actions, guarded, Along, AsksFree]
    have hreminder : ∀ reminder : DueReminder, Along AsksFree 1 reminder.actions ↔
        ∀ command ∈ reminder.continuation.getD [], Along AsksFree 1 command.actions :=
      fun _ => along_reminder trivial
    rw [along_sweep rfl trivial]
    simp only [hreminder, hcommand, Nests, DueReminder.Writes]
    push Not
    exact ⟨fun h reminder hreminder kind records hmem => h reminder hreminder _ hmem kind records rfl,
      fun h reminder hreminder command hmem kind records heq => h reminder hreminder kind records (heq ▸ hmem)⟩
  | answerHostHttp => simp [actions, guarded, Along, AsksFree, Nests]
  | applySchema => simp [actions, Along, AsksFree, Nests]
  | replicateWal lsns => simp [actions, Along, AsksFree, Nests]
  | importBundle lsnsByShard =>
    refine iff_of_true ?_ (by simp [Nests])
    have himport : ∀ lsnsByShard : List (List Nat), Along AsksFree 0 (lsnsByShard.map Action.replicate) := by
      intro lsnsByShard
      induction lsnsByShard with
      | nil => trivial
      | cons lsns lsnsByShard ih => exact ⟨trivial, ih⟩
    exact himport lsnsByShard

/-- Every record of these calls is appended under a guard. -/
theorem Call.Gated.along {call : Call} (h : call.Gated) : Along AppendsGuarded 0 call.actions := by
  cases call with
  | write kind records => simp [actions, guarded, Along, AppendsGuarded, Action.guards]
  | commitRecordBatch operations =>
    rw [actions, along_flatMap fun kind _ => guardsAfter_guarded kind 1]
    simp [guarded, Along, AppendsGuarded, Action.guards]
  | invokeBehavior commands =>
    rw [actions, along_flatMap fun command _ => guardsAfter_command command]
    intro command hcommand
    cases command with
    | requestHostHttp => exact absurd hcommand h
    | write | volatile => simp [BehaviorCommand.actions, guarded, Along, AppendsGuarded, Action.guards]
  | runDueActorReminders due =>
    refine (along_sweep trivial trivial).mpr fun reminder _ => (along_reminder Nat.one_pos).mpr fun command _ => ?_
    cases command <;> simp [BehaviorCommand.actions, guarded, Along, AppendsGuarded, Action.guards]
  | answerHostHttp | applySchema | replicateWal | importBundle => exact h.elim

end Nesting

/-- What a task does next. -/
inductive Phase where
  | running
  /-- In `read_owned`. -/
  | waiting
  /-- It has the gate, and looks at the drain next. -/
  | gated
  /-- It has seen no drain, and counts itself next. -/
  | accepted
  /-- Its records are in the queue of the log writer. -/
  | queued (isGuarded : Bool) (lsns : List Nat)
  /-- Its records are in the log; these LSNs are not committed. -/
  | written (isGuarded : Bool) (lsns : List Nat)

/-- A call, and the actions that it has still to take. -/
structure Task where
  call : Call
  actions : List Action
  phase : Phase

/-! ## Preparations -/

structure RuntimePrepareRestartRequest where
  snapshot : Option Bool
  compactWal : Option Bool
  waitForWritesMs : Option Nat

def defaultRestartWriteWaitMs : Nat := 10000

def RuntimePrepareRestartRequest.waitMs (self : RuntimePrepareRestartRequest) : Nat :=
  self.waitForWritesMs.getD defaultRestartWriteWaitMs

/-- The response, of the snapshot its LSN and of the compaction whether there was one. -/
structure RuntimePrepareRestartResponse where
  writesQuiesced : Bool
  writeWaitTimedOut : Bool
  readyForRestart : Bool
  snapshot : Option Nat
  compactWal : Bool
  currentLsn : Nat

def prepareResponse (request : RuntimePrepareRestartRequest) (writesQuiesced : Bool)
    (snapshot : Option Nat) (currentLsn : Nat) : RuntimePrepareRestartResponse :=
  let compactWal := request.compactWal.getD false && writesQuiesced
  { writesQuiesced
    writeWaitTimedOut := !writesQuiesced
    readyForRestart := writesQuiesced && (!request.snapshot.getD true || snapshot.isSome) &&
      (!request.compactWal.getD false || compactWal)
    snapshot
    compactWal
    currentLsn }

/-- How far a preparation of a restart has come. -/
inductive PreparePhase where
  | started
  | draining
  /-- In `write_owned`. -/
  | waiting
  | holding
  | waited (writesQuiesced : Bool)
  | snapshotted (writesQuiesced : Bool) (snapshot : Option Nat)
  | answered (response : RuntimePrepareRestartResponse)
  | failed

/-- A call of `prepare_restart`. -/
structure Preparation where
  request : RuntimePrepareRestartRequest
  phase : PreparePhase

/-- It has set the drain and not answered. -/
def Preparation.Underway (self : Preparation) : Prop :=
  match self.phase with
  | .draining | .waiting | .holding | .waited _ | .snapshotted .. => True
  | .started | .answered _ | .failed => False

/-- It has found that there are no writes. -/
def Preparation.Quiesced (self : Preparation) : Prop :=
  match self.phase with
  | .holding | .waited true | .snapshotted true _ => True
  | _ => False

theorem Preparation.Quiesced.underway {self : Preparation} (h : self.Quiesced) : self.Underway := by
  unfold Quiesced at h
  unfold Underway
  split at h
  · next hphase => rw [hphase]; trivial
  · next hphase => rw [hphase]; trivial
  · next hphase => rw [hphase]; trivial
  · exact h.elim

/-! ## The node -/

/-- Who stands at the gate. -/
inductive Party where
  | task (i : Nat)
  | preparation (i : Nat)
deriving DecidableEq

/-- A record of the log, and whether a guarded write appended it. -/
structure Appended where
  lsn : Nat
  isGuarded : Bool

/-- The gate, the drain, the counters and the log of a node, with its tasks and preparations. -/
structure NodeState where
  draining : Bool
  gate : Lock Party
  /-- `runtime_writes`, by who counts. -/
  inFlight : List Nat
  nextLsn : Nat
  currentLsn : Nat
  log : List Appended
  /-- Queued records whose task is gone. -/
  orphans : List Appended
  tasks : List Task
  preparations : List Preparation
  /-- A preparation has answered that it is ready since the drain was last lifted. -/
  ready : Bool

def NodeState.setTask (self : NodeState) (i : Nat) (task : Task) : NodeState :=
  { self with tasks := self.tasks.set i task }

def NodeState.setPreparation (self : NodeState) (i : Nat) (preparation : Preparation)
    (phase : PreparePhase) :
    NodeState :=
  { self with preparations := self.preparations.set i { preparation with phase } }

@[simp] theorem NodeState.setTask_gate (s : NodeState) (i : Nat) (task : Task) :
    (s.setTask i task).gate = s.gate := rfl

/-- `allocate_lsn`, for each record. -/
def NodeState.allocateLsns (self : NodeState) (records : Nat) : List Nat :=
  (List.range records).map (self.nextLsn + 1 + ·)

/-- Everything of the task is dropped, but what stays in the queue of the log writer. -/
def NodeState.stop (self : NodeState) (i : Nat) (call : Call) (left : List Appended) : NodeState :=
  { self with
    gate := self.gate.abandon (.task i)
    inFlight := self.inFlight.filter (· ≠ i)
    orphans := self.orphans ++ left
    tasks := self.tasks.set i ⟨call, [], .running⟩ }

/-- The steps of tasks and preparations, the drain by hand, and replication. -/
inductive DrainEvent where
  | start (call : Call)
  | request (i : Nat)
  | enter (i : Nat)
  | accept (i : Nat)
  | count (i : Nat)
  | queue (i : Nat)
  | append (i : Nat)
  | commit (i : Nat)
  | finish (i : Nat)
  | release (i : Nat)
  | stop (i : Nat) (orphaned : Bool)
  | appendOrphan
  | prepare (request : RuntimePrepareRestartRequest)
  | drain (i : Nat)
  | readCount (i : Nat)
  | requestGate (i : Nat)
  | enterGate (i : Nat)
  | leaveGate (i : Nat)
  | timeOut (i : Nat)
  | snapshot (i : Nat)
  | answer (i : Nat)
  | fail (i : Nat)
  | setDrain (draining : Bool)

/-- A task takes its actions one after the other, and may stop at any point: with an error, of the
drain it sees in the gate or another, or because its request is gone. Then its records may
stay queued. A preparation takes its steps likewise. -/
inductive DrainStep : NodeState → DrainEvent → NodeState → Prop
  | start {s : NodeState} (call : Call) :
      DrainStep s (.start call) { s with tasks := s.tasks ++ [⟨call, call.actions, .running⟩] }
  | request {s : NodeState} {i call actions}
      (hi : s.tasks[i]? = some ⟨call, .beginRuntimeWrite :: actions, .running⟩) :
      DrainStep s (.request i)
        { s.setTask i ⟨call, .beginRuntimeWrite :: actions,
        .waiting⟩ with gate := s.gate.request .read (.task i) }
  | enter {s : NodeState} {i call actions gate}
      (hi : s.tasks[i]? = some ⟨call, actions, .waiting⟩) (hgrant : s.gate.grant = some (.read,
      .task i, gate)) :
      DrainStep s (.enter i) { s.setTask i ⟨call, actions, .gated⟩ with gate }
  | accept {s : NodeState} {i call actions} (hi : s.tasks[i]? = some ⟨call, actions, .gated⟩)
      (hdrain : s.draining = false) : DrainStep s (.accept i) (s.setTask i ⟨call, actions,
      .accepted⟩)
  | count {s : NodeState} {i call action actions}
      (hi : s.tasks[i]? = some ⟨call, action :: actions, .accepted⟩) :
      DrainStep s (.count i) { s.setTask i ⟨call, actions,
      .running⟩ with inFlight := i :: s.inFlight }
  | queue {s : NodeState} {i call records actions}
      (hi : s.tasks[i]? = some ⟨call, .append records :: actions, .running⟩) :
      DrainStep s (.queue i)
        { s.setTask i ⟨call, .append records :: actions,
        .queued (s.inFlight.contains i) (s.allocateLsns records)⟩ with
          nextLsn := s.nextLsn + records }
  | queueReplicated {s : NodeState} {i call lsns actions}
      (hi : s.tasks[i]? = some ⟨call, .replicate lsns :: actions, .running⟩) :
      DrainStep s (.queue i) (s.setTask i ⟨call, .replicate lsns :: actions,
      .queued (s.inFlight.contains i) lsns⟩)
  | append {s : NodeState} {i call actions isGuarded} {lsns : List Nat}
      (hi : s.tasks[i]? = some ⟨call, actions, .queued isGuarded lsns⟩) :
      DrainStep s (.append i)
        { s.setTask i ⟨call, actions, .written isGuarded lsns⟩ with
          log := s.log ++ lsns.map fun lsn => ⟨lsn, isGuarded⟩ }
  | commit {s : NodeState} {i call lsn actions isGuarded lsns}
      (hi : s.tasks[i]? = some ⟨call, actions, .written isGuarded (lsn :: lsns)⟩) :
      DrainStep s (.commit i)
        { s.setTask i ⟨call, actions, .written isGuarded lsns⟩ with
          currentLsn := max s.currentLsn lsn
          nextLsn := max s.nextLsn lsn }
  | finish {s : NodeState} {i call action actions isGuarded}
      (hi : s.tasks[i]? = some ⟨call, action :: actions, .written isGuarded []⟩) :
      DrainStep s (.finish i) (s.setTask i ⟨call, actions, .running⟩)
  | release {s : NodeState} {i call actions}
      (hi : s.tasks[i]? = some ⟨call, .dropGuard :: actions, .running⟩) :
      DrainStep s (.release i)
        { s.setTask i ⟨call, actions, .running⟩ with
          gate := s.gate.releaseRead (.task i)
          inFlight := s.inFlight.erase i }
  | stop {s : NodeState} {i task} (hi : s.tasks[i]? = some task) :
      DrainStep s (.stop i false) (s.stop i task.call [])
  | orphan {s : NodeState} {i call actions isGuarded} {lsns : List Nat}
      (hi : s.tasks[i]? = some ⟨call, actions, .queued isGuarded lsns⟩) :
      DrainStep s (.stop i true) (s.stop i call (lsns.map fun lsn => ⟨lsn, isGuarded⟩))
  | appendOrphan {s : NodeState} {before after record}
      (horphans : s.orphans = before ++ record :: after) :
      DrainStep s .appendOrphan { s with orphans := before ++ after, log := s.log ++ [record] }
  | prepare {s : NodeState} (request : RuntimePrepareRestartRequest) :
      DrainStep s (.prepare request) { s with preparations := s.preparations ++ [⟨request,
      .started⟩] }
  | drain {s : NodeState} {i preparation} (hi : s.preparations[i]? = some preparation)
      (hphase : preparation.phase = .started) :
      DrainStep s (.drain i) { s.setPreparation i preparation .draining with draining := true }
  | readCount {s : NodeState} {i preparation} (hi : s.preparations[i]? = some preparation)
      (hphase : preparation.phase = .draining) (hwait : preparation.request.waitMs = 0) :
      DrainStep s (.readCount i) (s.setPreparation i preparation (.waited s.inFlight.isEmpty))
  | requestGate {s : NodeState} {i preparation} (hi : s.preparations[i]? = some preparation)
      (hphase : preparation.phase = .draining) (hwait : preparation.request.waitMs ≠ 0) :
      DrainStep s (.requestGate i)
        { s.setPreparation i preparation .waiting with gate := s.gate.request .write (.preparation i) }
  | enterGate {s : NodeState} {i preparation gate}
      (hi : s.preparations[i]? = some preparation) (hphase : preparation.phase = .waiting)
      (hgrant : s.gate.grant = some (.write, .preparation i, gate)) :
      DrainStep s (.enterGate i) { s.setPreparation i preparation .holding with gate }
  | leaveGate {s : NodeState} {i preparation} (hi : s.preparations[i]? = some preparation)
      (hphase : preparation.phase = .holding) :
      DrainStep s (.leaveGate i) { s.setPreparation i preparation (.waited true) with gate := s.gate.releaseWrite }
  | timeOut {s : NodeState} {i preparation} (hi : s.preparations[i]? = some preparation)
      (hphase : preparation.phase = .waiting) :
      DrainStep s (.timeOut i)
        { s.setPreparation i preparation (.waited false) with gate := s.gate.withdraw (.preparation i) }
  | snapshot {s : NodeState} {i} {preparation : Preparation} {writesQuiesced}
      (hi : s.preparations[i]? = some preparation) (hphase : preparation.phase = .waited writesQuiesced) :
      DrainStep s (.snapshot i) (s.setPreparation i preparation (.snapshotted writesQuiesced
          (if preparation.request.snapshot.getD true && writesQuiesced then some s.currentLsn else none)))
  | answer {s : NodeState} {i} {preparation : Preparation} {writesQuiesced snapshot}
      (hi : s.preparations[i]? = some preparation)
      (hphase : preparation.phase = .snapshotted writesQuiesced snapshot) :
      DrainStep s (.answer i)
        { s.setPreparation i preparation
            (.answered (prepareResponse preparation.request writesQuiesced snapshot s.currentLsn)) with
          ready := s.ready ||
            (prepareResponse preparation.request writesQuiesced snapshot s.currentLsn).readyForRestart }
  | fail {s : NodeState} {i preparation} (hi : s.preparations[i]? = some preparation) :
      DrainStep s (.fail i)
        { s.setPreparation i preparation .failed with gate := s.gate.abandon (.preparation i) }
  | setDrain {s : NodeState} (draining : Bool) :
      DrainStep s (.setDrain draining) { s with draining, ready := draining && s.ready }

/-- A node before its first task. -/
structure Fresh (s : NodeState) : Prop where
  gate : s.gate = .free
  inFlight : s.inFlight = []
  log : ∀ record ∈ s.log, record.lsn ≤ s.currentLsn
  orphans : s.orphans = []
  tasks : s.tasks = []
  preparations : s.preparations = []
  ready : s.ready = false

/-! ## The barrier -/

/-- The drain is not lifted while a preparation is under way; the count is not read while a task
that has seen no drain has not counted itself; and a guarded write does not stop while its
records are in the queue, or in the log and not committed. -/
def Orderly (s : NodeState) : DrainEvent → Prop
  | .setDrain draining => draining = false → ∀ preparation ∈ s.preparations, ¬ preparation.Underway
  | .readCount _ => ∀ task ∈ s.tasks, task.phase ≠ .accepted
  | .stop i orphaned => ∀ task lsns, s.tasks[i]? = some task →
      (task.phase = .queued true lsns → orphaned = false) ∧
      (task.phase = .written true lsns → lsns = [])
  | _ => True

/-- The task has the gate and does not count yet. -/
def Phase.pending : Phase → Nat
  | .gated | .accepted => 1
  | _ => 0

/-- A number for the phase of the task, and none for no task. -/
def phaseAt (number : Phase → Nat) (tasks : List Task) (i : Nat) : Nat :=
  (tasks[i]?.map fun task => number task.phase).getD 0

/-- The task has records of a guarded write in the queue, or in the log. -/
def Phase.Writes (self : Phase) : Prop :=
  ∃ lsns, self = .queued true lsns ∨ self = .written true lsns

variable {isGuarded : Bool} {lsns : List Nat} {old new : Task}

@[simp] theorem Phase.writes_queued : (Phase.queued isGuarded lsns).Writes ↔ isGuarded = true := by
  simp [Writes]

@[simp] theorem Phase.writes_written : (Phase.written isGuarded lsns).Writes ↔
    isGuarded = true := by
  simp [Writes]

@[simp] theorem Phase.not_writes_running : ¬ Phase.running.Writes := by
  simp [Writes]

@[simp] theorem Phase.not_writes_waiting : ¬ Phase.waiting.Writes := by
  simp [Writes]

@[simp] theorem Phase.not_writes_gated : ¬ Phase.gated.Writes := by
  simp [Writes]

@[simp] theorem Phase.not_writes_accepted : ¬ Phase.accepted.Writes := by
  simp [Writes]

/-- Who holds the gate is counted, and while a node is quiet nobody has a write in hand. -/
structure Inv (s : NodeState) : Prop where
  readers : ∀ i, s.gate.readers.count (.task i) = s.inFlight.count i + phaseAt Phase.pending s.tasks i
  writing : ∀ (i : Nat) task, s.tasks[i]? = some task → task.phase.Writes → i ∈ s.inFlight
  underway : ∀ preparation ∈ s.preparations, preparation.Underway → s.draining = true
  quiet : (∃ preparation ∈ s.preparations, preparation.Quiesced) ∨ s.ready = true →
    s.draining = true ∧ s.inFlight = [] ∧ ∀ task ∈ s.tasks, task.phase ≠ .accepted
  orphans : ∀ record ∈ s.orphans, record.isGuarded = false
  committed : ∀ record ∈ s.log, record.isGuarded = true →
    record.lsn ≤ s.currentLsn ∨ ∃ task ∈ s.tasks, ∃ lsns, task.phase = .written true lsns ∧ record.lsn ∈ lsns
  snapshotted : ∀ preparation ∈ s.preparations, ∀ writesQuiesced lsn,
    preparation.phase = .snapshotted writesQuiesced (some lsn) →
    writesQuiesced = true ∧ ∀ record ∈ s.log, record.isGuarded = true → record.lsn ≤ lsn

variable {s t : NodeState}

theorem Fresh.inv (h : Fresh s) : Inv s where
  readers i := by rw [h.gate, h.inFlight, h.tasks]; rfl
  writing i task hi := by simp [h.tasks] at hi
  underway := by simp [h.preparations]
  quiet := by simp [h.preparations, h.ready]
  orphans := by simp [h.orphans]
  committed record hrecord _ := .inl (h.log record hrecord)
  snapshotted := by simp [h.preparations]

theorem Inv.not_writes (h : Inv s) (hnone : s.inFlight = []) {task : Task}
    (htask : task ∈ s.tasks) :
    ¬ task.phase.Writes := by
  intro hwrites
  obtain ⟨i, hi⟩ := mem_iff_getElem?.mp htask
  have := h.writing i task hi hwrites
  rw [hnone] at this
  cases this

section

variable {number : Phase → Nat} {tasks : List Task} {i j : Nat} {old new : Task}

theorem phaseAt_set (hi : tasks[i]? = some old) :
    phaseAt number (tasks.set i new) i = number new.phase := by
  rw [phaseAt, getElem?_set_self_of hi]
  rfl

theorem phaseAt_set_ne (hne : j ≠ i) :
    phaseAt number (tasks.set i new) j = phaseAt number tasks j := by
  rw [phaseAt, phaseAt, getElem?_set_ne hne.symm]

theorem phaseAt_of (hi : tasks[i]? = some old) : phaseAt number tasks i = number old.phase := by
  rw [phaseAt, hi]
  rfl

theorem phaseAt_push (hnew : number new.phase = 0) :
    phaseAt number (tasks ++ [new]) i = phaseAt number tasks i := by
  unfold phaseAt
  rcases Nat.lt_or_ge i tasks.length with hlt | hge
  · rw [getElem?_append_left hlt]
  · rw [getElem?_append_right hge, getElem?_eq_none hge]
    cases i - tasks.length with
    | zero => exact hnew
    | succ k => rfl

end

/-- A task goes on. -/
theorem Inv.advance (h : Inv s) {i : Nat} {old p : Task} (hi : s.tasks[i]? = some old)
    (htasks : t.tasks = s.tasks.set i p) (hdraining : t.draining = s.draining)
    (hpreparations : t.preparations = s.preparations) (hready : t.ready = s.ready)
    (hself : t.gate.readers.count (.task i) = t.inFlight.count i + p.phase.pending)
    (hothers : ∀ j, j ≠ i → t.gate.readers.count (.task j) = s.gate.readers.count (.task j) ∧
      t.inFlight.count j = s.inFlight.count j)
    (hwriting : p.phase.Writes → i ∈ t.inFlight)
    (hquiet : s.draining = true → s.inFlight = [] → old.phase ≠ .accepted → t.inFlight = [] ∧
      p.phase ≠ .accepted)
    (horphans : ∀ record ∈ t.orphans, record.isGuarded = false)
    (hlog : ∀ record ∈ t.log, record.isGuarded = true →
      record ∈ s.log ∨ ∃ lsns, p.phase = .written true lsns ∧ record.lsn ∈ lsns)
    (hcurrent : s.currentLsn ≤ t.currentLsn)
    (hpending : ∀ lsns, old.phase = .written true lsns → ∀ lsn ∈ lsns,
      lsn ≤ t.currentLsn ∨ ∃ lsns', p.phase = .written true lsns' ∧ lsn ∈ lsns') : Inv t := by
  have hnew : p ∈ t.tasks := by
    rw [htasks]
    exact mem_of_getElem? (getElem?_set_self_of hi)
  have hquiet' : (∃ preparation ∈ t.preparations, preparation.Quiesced) ∨ t.ready = true →
      t.draining = true ∧ t.inFlight = [] ∧ ∀ task ∈ t.tasks, task.phase ≠ .accepted := by
    rw [hpreparations, hready, hdraining, htasks]
    intro hor
    obtain ⟨hdrain, hnone, haccepted⟩ := h.quiet hor
    obtain ⟨hnone', hne⟩ := hquiet hdrain hnone (haccepted old (mem_of_getElem? hi))
    exact ⟨hdrain, hnone', forall_mem_set haccepted hne⟩
  refine {
    readers := fun j => ?_
    writing := fun j task hj hwrites => ?_
    underway := fun preparation hpreparation hunderway => ?_
    quiet := hquiet'
    orphans := horphans
    committed := fun record hrecord hguarded => ?_
    snapshotted := fun preparation hpreparation writesQuiesced lsn hphase => ?_ }
  · rw [htasks]
    by_cases hij : j = i
    · subst hij
      rw [phaseAt_set hi]
      exact hself
    · obtain ⟨hreaders, hcount⟩ := hothers j hij
      rw [phaseAt_set_ne hij, hreaders, hcount]
      exact h.readers j
  · rw [htasks] at hj
    rcases getElem?_set_cases hj with ⟨rfl, rfl⟩ | ⟨hij, hj⟩
    · exact hwriting hwrites
    · have hmem := h.writing j task hj hwrites
      have hcount := (hothers j hij).2
      exact count_pos_iff.mp (hcount ▸ count_pos_iff.mpr hmem)
  · rw [hpreparations] at hpreparation
    rw [hdraining]
    exact h.underway preparation hpreparation hunderway
  · rcases hlog record hrecord hguarded with hold | ⟨lsns, hphase, hmem⟩
    · rcases h.committed record hold hguarded with hle | ⟨task, htask, lsns, hphase, hmem⟩
      · exact .inl (Nat.le_trans hle hcurrent)
      · obtain ⟨j, hj⟩ := mem_iff_getElem?.mp htask
        by_cases hij : j = i
        · subst hij
          cases hi.symm.trans hj
          refine (hpending lsns hphase _ hmem).imp_right fun hwritten => ?_
          obtain ⟨lsns', hphase', hmem'⟩ := hwritten
          exact ⟨p, hnew, lsns', hphase', hmem'⟩
        · refine .inr ⟨task, ?_, lsns, hphase, hmem⟩
          rw [htasks]
          exact mem_of_getElem? ((getElem?_set_ne (Ne.symm hij)).trans hj)
    · exact .inr ⟨p, hnew, lsns, hphase, hmem⟩
  · rw [hpreparations] at hpreparation
    obtain ⟨hquiesced, hall⟩ := h.snapshotted preparation hpreparation writesQuiesced lsn hphase
    refine ⟨hquiesced, fun record hrecord hguarded => ?_⟩
    rcases hlog record hrecord hguarded with hold | ⟨lsns, hwritten, -⟩
    · exact hall record hold hguarded
    · -- nobody writes while there is a snapshot
      have hquiesced' : preparation.Quiesced := by
        rw [Preparation.Quiesced, hphase, hquiesced]
        trivial
      have hnone := (hquiet' (.inl ⟨preparation, hpreparations ▸ hpreparation, hquiesced'⟩)).2.1
      have hin := hwriting ⟨lsns, .inr hwritten⟩
      rw [hnone] at hin
      cases hin

variable {i : Nat} {e : DrainEvent}

/-- A preparation goes on. -/
theorem Inv.goOn (h : Inv s) {preparation : Preparation} {phase : PreparePhase}
    (hi : s.preparations[i]? = some preparation)
    (hpreparations : t.preparations = s.preparations.set i { preparation with phase })
    (hdraining : s.draining = true → t.draining = true)
    (hreaders : ∀ j, t.gate.readers.count (.task j) = s.gate.readers.count (.task j))
    (hinFlight : t.inFlight = s.inFlight) (hcurrent : t.currentLsn = s.currentLsn)
    (hlog : t.log = s.log) (horphans : t.orphans = s.orphans) (htasks : t.tasks = s.tasks)
    (hready : t.ready = true → s.ready = true ∨ preparation.Quiesced)
    (hunderway : Preparation.Underway { preparation with phase } → t.draining = true)
    (hquiesced : Preparation.Quiesced { preparation with phase } → preparation.Quiesced ∨
      t.draining = true ∧ s.inFlight = [] ∧ ∀ task ∈ s.tasks, task.phase ≠ .accepted)
    (hsnapshot : ∀ writesQuiesced lsn, phase = .snapshotted writesQuiesced (some lsn) →
      preparation.Quiesced ∧ writesQuiesced = true ∧ lsn = s.currentLsn) : Inv t := by
  have hmem : preparation ∈ s.preparations := mem_of_getElem? hi
  refine {
    readers := fun j => ?_
    writing := by rw [hinFlight, htasks]; exact h.writing
    underway := fun other hother hunder => ?_
    quiet := fun hor => ?_
    orphans := by rw [horphans]; exact h.orphans
    committed := by rw [hlog, htasks, hcurrent]; exact h.committed
    snapshotted := fun other hother writesQuiesced lsn hphase => ?_ }
  · rw [hreaders, hinFlight, htasks]
    exact h.readers j
  · rw [hpreparations] at hother
    rcases mem_or_eq_of_mem_set hother with hother | rfl
    · exact hdraining (h.underway other hother hunder)
    · exact hunderway hunder
  · rw [hinFlight, htasks]
    have hold : preparation.Quiesced ∨ (∃ other ∈ s.preparations, other.Quiesced) ∨ s.ready = true ∨
        t.draining = true ∧ s.inFlight = [] ∧ ∀ task ∈ s.tasks, task.phase ≠ .accepted := by
      rcases hor with ⟨other, hother, hother'⟩ | hr
      · rw [hpreparations] at hother
        rcases mem_or_eq_of_mem_set hother with hother | rfl
        · exact .inr (.inl ⟨other, hother, hother'⟩)
        · exact (hquiesced hother').imp_right fun hall => .inr (.inr hall)
      · exact (hready hr).elim (fun hr => .inr (.inr (.inl hr))) .inl
    have hthen : (∃ other ∈ s.preparations, other.Quiesced) ∨ s.ready = true →
        t.draining = true ∧ s.inFlight = [] ∧ ∀ task ∈ s.tasks, task.phase ≠ .accepted := fun hor =>
      (h.quiet hor).imp_left hdraining
    rcases hold with hq | hq | hr | hall
    · exact hthen (.inl ⟨preparation, hmem, hq⟩)
    · exact hthen (.inl hq)
    · exact hthen (.inr hr)
    · exact hall
  · rw [hlog]
    rw [hpreparations] at hother
    rcases mem_or_eq_of_mem_set hother with hother | rfl
    · exact h.snapshotted other hother writesQuiesced lsn hphase
    · obtain ⟨hq, hquiet, rfl⟩ := hsnapshot writesQuiesced lsn hphase
      refine ⟨hquiet, fun record hrecord hguarded => ?_⟩
      refine (h.committed record hrecord hguarded).resolve_right fun hwritten => ?_
      obtain ⟨task, htask, lsns, hphase', -⟩ := hwritten
      have hnone := (h.quiet (.inl ⟨preparation, hmem, hq⟩)).2.1
      exact h.not_writes hnone htask ⟨lsns, .inr hphase'⟩

/-- A task goes on that appends nothing, and has the gate and counts as before. -/
theorem Inv.advanceQuietly (h : Inv s) {gate : Lock Party} {nextLsn currentLsn : Nat}
    (hi : s.tasks[i]? = some old)
    (hreaders : ∀ j, gate.readers.count (.task j) = s.gate.readers.count (.task j) +
    (if j = i then new.phase.pending - old.phase.pending else 0))
    (hpending : old.phase.pending ≤ new.phase.pending)
    (hcurrent : s.currentLsn ≤ currentLsn) (hwriting : new.phase.Writes → i ∈ s.inFlight)
    (hquiet : s.draining = true → old.phase ≠ .accepted → new.phase ≠ .accepted)
    (hwritten : ∀ lsns, old.phase = .written true lsns → ∀ lsn ∈ lsns, lsn ≤ currentLsn ∨ ∃ lsns',
    new.phase = .written true lsns' ∧ lsn ∈ lsns') :
    Inv { s.setTask i new with gate, nextLsn, currentLsn } := by
  refine h.advance (p := new) hi rfl rfl rfl rfl ?_ (fun j hj => ?_) hwriting (fun hdrain hnone hphase =>
    ⟨hnone, hquiet hdrain hphase⟩) h.orphans (fun record hrecord _ => .inl hrecord) hcurrent hwritten
  · have hcount := h.readers i
    rw [phaseAt_of hi] at hcount
    have hown := hreaders i
    rw [if_pos rfl] at hown
    show gate.readers.count (.task i) = s.inFlight.count i + new.phase.pending
    omega
  · refine ⟨?_, rfl⟩
    have hother := hreaders j
    rwa [if_neg hj] at hother

theorem Inv.start (h : Inv s) (call : Call) :
    Inv { s with tasks := s.tasks ++ [⟨call, call.actions, .running⟩] } where
  readers i := by
    rw [h.readers i, phaseAt_push rfl]
  writing i task hi hwrites := by
    rcases getElem?_push_cases hi with hi | ⟨-, rfl⟩
    · exact h.writing i task hi hwrites
    · simp at hwrites
  underway := h.underway
  quiet hor := by
    obtain ⟨hdrain, hnone, haccepted⟩ := h.quiet hor
    refine ⟨hdrain, hnone, fun task htask => ?_⟩
    rcases mem_append.mp htask with htask | htask
    · exact haccepted task htask
    · rw [mem_singleton.mp htask]
      exact nofun
  orphans := h.orphans
  committed record hrecord hguarded :=
    (h.committed record hrecord hguarded).imp_right fun ⟨task, htask, hwritten⟩ =>
      ⟨task, mem_append_left _ htask, hwritten⟩
  snapshotted := h.snapshotted

theorem Inv.prepare (h : Inv s) (request : RuntimePrepareRestartRequest) :
    Inv { s with preparations := s.preparations ++ [⟨request, .started⟩] } where
  readers := h.readers
  writing := h.writing
  underway preparation hmem hunderway := by
    rcases mem_append.mp hmem with hmem | hmem
    · exact h.underway preparation hmem hunderway
    · rw [mem_singleton.mp hmem] at hunderway
      exact hunderway.elim
  quiet hor := by
    refine h.quiet (hor.imp_left fun hq => ?_)
    obtain ⟨preparation, hmem, hq⟩ := hq
    rcases mem_append.mp hmem with hmem | hmem
    · exact ⟨preparation, hmem, hq⟩
    · rw [mem_singleton.mp hmem] at hq
      exact hq.elim
  orphans := h.orphans
  committed := h.committed
  snapshotted preparation hmem writesQuiesced lsn hphase := by
    rcases mem_append.mp hmem with hmem | hmem
    · exact h.snapshotted preparation hmem writesQuiesced lsn hphase
    · rw [mem_singleton.mp hmem] at hphase
      cases hphase

theorem Inv.appendOrphan (h : Inv s) {before after : List Appended} {record : Appended}
    (horphans : s.orphans = before ++ record :: after) :
    Inv { s with orphans := before ++ after, log := s.log ++ [record] } := by
  have hhost : record.isGuarded = false := h.orphans record (by rw [horphans]; simp)
  have hlog : ∀ appended ∈ s.log ++ [record], appended.isGuarded = true → appended ∈ s.log := by
    intro appended hmem hguarded
    rcases mem_append.mp hmem with hmem | hmem
    · exact hmem
    · rw [mem_singleton.mp hmem, hhost] at hguarded
      cases hguarded
  exact {
    readers := h.readers
    writing := h.writing
    underway := h.underway
    quiet := h.quiet
    orphans := fun appended hmem => h.orphans appended (by
      rw [horphans]
      exact ((sublist_cons_self record after).append_left before).subset hmem)
    committed := fun appended hmem hguarded => h.committed appended (hlog appended hmem hguarded) hguarded
    snapshotted := fun preparation hmem writesQuiesced lsn hphase => by
      obtain ⟨hquiesced, hall⟩ := h.snapshotted preparation hmem writesQuiesced lsn hphase
      exact ⟨hquiesced, fun appended hmem hguarded => hall appended (hlog appended hmem hguarded) hguarded⟩ }

theorem Inv.setDrain (h : Inv s) {draining : Bool}
    (hmeets : draining = false → ∀ preparation ∈ s.preparations,
    ¬ preparation.Underway) : Inv { s with draining, ready := draining && s.ready } where
  readers := h.readers
  writing := h.writing
  underway preparation hmem hunderway := by
    by_contra hdrain
    exact hmeets (not_eq_true _ ▸ hdrain) preparation hmem hunderway
  quiet hor := by
    rcases hor with ⟨preparation, hmem, hq⟩ | hready
    · refine ⟨?_, (h.quiet (.inl ⟨preparation, hmem, hq⟩)).2⟩
      by_contra hdrain
      exact hmeets (not_eq_true _ ▸ hdrain) preparation hmem hq.underway
    · obtain ⟨hdrain, hready⟩ := and_eq_true_iff.mp hready
      exact ⟨hdrain, (h.quiet (.inr hready)).2⟩
  orphans := h.orphans
  committed := h.committed
  snapshotted := h.snapshotted

/-- A task appends records that are queued. -/
theorem Inv.append (h : Inv s) {i : Nat} {call : Call} {actions : List Action} {isGuarded : Bool}
    {lsns : List Nat} (hi : s.tasks[i]? = some ⟨call, actions, .queued isGuarded lsns⟩) :
    Inv { s.setTask i ⟨call, actions, .written isGuarded lsns⟩ with
      log := s.log ++ lsns.map fun lsn => ⟨lsn, isGuarded⟩ } := by
  refine h.advance (p := ⟨call, actions, .written isGuarded lsns⟩) hi rfl rfl rfl rfl ?_ (fun _ _ => ⟨rfl, rfl⟩)
    (fun hwrites => h.writing i _ hi ?_) (fun _ hnone _ => ⟨hnone, nofun⟩) h.orphans (fun record hrecord hguarded => ?_)
    (Nat.le_refl _) nofun
  · have := h.readers i
    rwa [phaseAt_of hi] at this
  · exact Phase.writes_queued.mpr (Phase.writes_written.mp hwrites)
  · refine (mem_append.mp hrecord).imp_right fun hnew => ?_
    obtain ⟨lsn, hlsn, rfl⟩ := mem_map.mp hnew
    have hguarded : isGuarded = true := hguarded
    exact ⟨lsns, by rw [hguarded], hlsn⟩

theorem Inv.stop (h : Inv s) {i : Nat} {task : Task}
    (hi : s.tasks[i]? = some task) {left : List Appended}
    (hleft : ∀ record ∈ left, record.isGuarded = false)
    (hwritten : ∀ lsns, task.phase = .written true lsns → lsns = []) (call : Call) :
    Inv (s.stop i call left) := by
  refine h.advance (p := ⟨call, [], .running⟩) hi rfl rfl rfl rfl ?_ (fun j hj => ⟨?_, ?_⟩) (fun hwrites => ?_)
    (fun _ hnone _ => ⟨?_, nofun⟩) (fun record hrecord => ?_) (fun record hrecord _ => .inl hrecord) (Nat.le_refl _)
    (fun lsns hphase lsn hlsn => ?_)
  · show (s.gate.readers.filter _).count _ = (s.inFlight.filter _).count _ + 0
    rw [count_eq_zero.mpr (by simp), count_eq_zero.mpr (by simp)]
  · exact count_filter (by simpa using hj)
  · exact count_filter (by simpa using hj)
  · simp at hwrites
  · show s.inFlight.filter _ = []
    rw [hnone]
    rfl
  · rcases mem_append.mp hrecord with hrecord | hrecord
    · exact h.orphans record hrecord
    · exact hleft record hrecord
  · rw [hwritten lsns hphase] at hlsn
    cases hlsn

section Tasks

variable {call : Call} {actions : List Action} {action : Action}

/-- A task gets the gate. -/
theorem Inv.enter (h : Inv s) {gate : Lock Party}
    (hi : s.tasks[i]? = some ⟨call, actions, .waiting⟩)
    (hgrant : s.gate.grant = some (.read, .task i, gate)) :
    Inv { s.setTask i ⟨call, actions, .gated⟩ with gate } := by
  obtain ⟨rfl, -, -⟩ := Lock.grant_read hgrant
  refine h.advanceQuietly hi (fun j => ?_) (Nat.zero_le _) (Nat.le_refl _) ?_ ?_ ?_
  · show (Party.task i :: s.gate.readers).count (.task j) = _
    by_cases hj : j = i
    · simp [hj, Phase.pending]
    · simp [hj, Ne.symm hj]
  · simp
  · exact nofun
  · exact nofun

/-- A task sees no drain. -/
theorem Inv.accept (h : Inv s) (hi : s.tasks[i]? = some ⟨call, actions, .gated⟩)
    (hdrain : s.draining = false) :
    Inv (s.setTask i ⟨call, actions, .accepted⟩) := by
  refine h.advanceQuietly hi (fun j => by simp [Phase.pending]) (Nat.le_refl 1) (Nat.le_refl _) ?_ ?_ ?_
  · simp
  · intro hdraining
    rw [hdrain] at hdraining
    cases hdraining
  · exact nofun

/-- A task counts itself, and has its guard. -/
theorem Inv.count (h : Inv s) (hi : s.tasks[i]? = some ⟨call, action :: actions, .accepted⟩) :
    Inv { s.setTask i ⟨call, actions, .running⟩ with inFlight := i :: s.inFlight } := by
  refine h.advance (p := ⟨call, actions, .running⟩) hi rfl rfl rfl rfl ?_ (fun j hj => ⟨rfl, ?_⟩) (fun hwrites => ?_)
    (fun _ _ hphase => absurd rfl hphase) h.orphans (fun record hrecord _ => .inl hrecord) (Nat.le_refl _)
    nofun
  · have := h.readers i
    rw [phaseAt_of hi] at this
    show _ = (i :: s.inFlight).count i + 0
    rw [count_cons_self]
    exact this
  · exact count_cons_of_ne hj.symm
  · simp at hwrites

/-- A record of a task is committed. -/
theorem Inv.commit (h : Inv s) {lsn : Nat} {nextLsn : Nat}
    (hi : s.tasks[i]? = some ⟨call, actions, .written isGuarded (lsn :: lsns)⟩) :
    Inv { s.setTask i ⟨call, actions,
    .written isGuarded lsns⟩ with currentLsn := max s.currentLsn lsn, nextLsn } := by
  refine h.advanceQuietly hi (fun j => by simp [Phase.pending]) (Nat.le_refl 0) (Nat.le_max_left _ _) ?_ ?_ ?_
  · exact fun hwrites => h.writing i _ hi (Phase.writes_written.mpr (Phase.writes_written.mp hwrites))
  · exact nofun
  · intro lsns' hphase lsn' hmem
    obtain ⟨rfl, rfl⟩ := Phase.written.inj hphase
    rcases mem_cons.mp hmem with rfl | hmem
    · exact .inl (Nat.le_max_right _ _)
    · exact .inr ⟨lsns, rfl, hmem⟩

/-- All records of a task are committed. -/
theorem Inv.finish (h : Inv s)
    (hi : s.tasks[i]? = some ⟨call, action :: actions, .written isGuarded []⟩) :
    Inv (s.setTask i ⟨call, actions, .running⟩) := by
  refine h.advanceQuietly hi (fun j => by simp [Phase.pending]) (Nat.le_refl 0) (Nat.le_refl _) ?_ ?_ ?_
  · simp
  · exact nofun
  · intro lsns' hphase lsn' hmem
    obtain ⟨-, rfl⟩ := Phase.written.inj hphase
    cases hmem

/-- A task drops its guard. -/
theorem Inv.release (h : Inv s) (hi : s.tasks[i]? = some ⟨call, .dropGuard :: actions, .running⟩) :
    Inv { s.setTask i ⟨call, actions, .running⟩ with
      gate := s.gate.releaseRead (.task i)
      inFlight := s.inFlight.erase i } := by
  refine h.advance (p := ⟨call, actions, .running⟩) hi rfl rfl rfl rfl ?_ (fun j hj => ⟨?_, ?_⟩) (fun hwrites => ?_)
    (fun _ hnone _ => ⟨?_, nofun⟩) h.orphans (fun record hrecord _ => .inl hrecord) (Nat.le_refl _) nofun
  · have hcount := h.readers i
    rw [phaseAt_of hi] at hcount
    show (s.gate.readers.erase _).count _ = (s.inFlight.erase i).count i + 0
    rw [count_erase_self, count_erase_self, hcount]
    rfl
  · exact count_erase_of_ne (by simpa using hj)
  · exact count_erase_of_ne hj
  · simp at hwrites
  · show s.inFlight.erase i = []
    rw [hnone]
    rfl

end Tasks

section Preparations

variable {preparation : Preparation}

theorem Inv.draining (h : Inv s) (hi : s.preparations[i]? = some preparation)
    (hunderway : preparation.Underway) :
    s.draining = true :=
  h.underway preparation (mem_of_getElem? hi) hunderway

/-- A preparation finds that the count is zero, or that it is not. -/
theorem Inv.readCount (h : Inv s) (hi : s.preparations[i]? = some preparation)
    (hphase : preparation.phase = .draining) (hnone : ∀ task ∈ s.tasks, task.phase ≠ .accepted) :
    Inv (s.setPreparation i preparation (.waited s.inFlight.isEmpty)) := by
  have hdrain := h.draining hi (by rw [Preparation.Underway, hphase]; trivial)
  refine h.goOn hi rfl id (fun _ => rfl) rfl rfl rfl rfl rfl .inl (fun _ => hdrain) (fun hq => .inr ?_)
    nofun
  refine ⟨hdrain, ?_, hnone⟩
  cases hempty : s.inFlight.isEmpty with
  | true => exact isEmpty_iff.mp hempty
  | false =>
    rw [hempty] at hq
    exact hq.elim

/-- A preparation gets the gate, which nobody else has. -/
theorem Inv.enterGate (h : Inv s) {gate : Lock Party} (hi : s.preparations[i]? = some preparation)
    (hphase : preparation.phase = .waiting)
    (hgrant : s.gate.grant = some (.write, .preparation i, gate)) :
    Inv { s.setPreparation i preparation .holding with gate } := by
  have hdrain := h.draining hi (by rw [Preparation.Underway, hphase]; trivial)
  obtain ⟨rfl, -, hreaders⟩ := Lock.grant_write hgrant
  refine h.goOn hi rfl id (fun _ => rfl) rfl rfl rfl rfl rfl .inl (fun _ => hdrain) (fun _ => .inr ⟨hdrain, ?_, ?_⟩)
    nofun
  · refine eq_nil_iff_forall_not_mem.mpr fun j hj => ?_
    have hcount := h.readers j
    rw [hreaders, count_nil] at hcount
    have := count_pos_iff.mpr hj
    omega
  · intro task htask haccepted
    obtain ⟨j, hj⟩ := mem_iff_getElem?.mp htask
    have hcount := h.readers j
    rw [hreaders, count_nil, phaseAt_of hj, haccepted, Phase.pending] at hcount
    omega

/-- A preparation writes its snapshot, when it has found no writes. -/
theorem Inv.snapshot (h : Inv s) {writesQuiesced : Bool}
    (hi : s.preparations[i]? = some preparation)
    (hphase : preparation.phase = .waited writesQuiesced) :
    Inv (s.setPreparation i preparation (.snapshotted writesQuiesced
      (if preparation.request.snapshot.getD true && writesQuiesced then some s.currentLsn else none))) := by
  have hdrain := h.draining hi (by rw [Preparation.Underway, hphase]; trivial)
  have hquiesced : writesQuiesced = true → preparation.Quiesced := fun hq => by
    rw [Preparation.Quiesced, hphase, hq]
    trivial
  refine h.goOn hi rfl id (fun _ => rfl) rfl rfl rfl rfl rfl .inl (fun _ => hdrain) (fun hq => .inl (hquiesced ?_))
    (fun writesQuiesced' lsn hsnap => ?_)
  · cases writesQuiesced with
    | true => rfl
    | false => exact hq.elim
  · obtain ⟨rfl, hlsn⟩ := PreparePhase.snapshotted.inj hsnap
    obtain ⟨hcond, hlsn⟩ := ite_none_right_eq_some.mp hlsn
    have hq := (and_eq_true_iff.mp hcond).2
    exact ⟨hquiesced hq, hq, (some.inj hlsn).symm⟩

/-- A preparation answers. -/
theorem Inv.answer (h : Inv s) {writesQuiesced : Bool} {snapshot : Option Nat}
    (hi : s.preparations[i]? = some preparation)
    (hphase : preparation.phase = .snapshotted writesQuiesced snapshot) :
    Inv { s.setPreparation i preparation
        (.answered (prepareResponse preparation.request writesQuiesced snapshot s.currentLsn)) with
      ready := s.ready ||
        (prepareResponse preparation.request writesQuiesced snapshot s.currentLsn).readyForRestart } := by
  refine h.goOn hi rfl id (fun _ => rfl) rfl rfl rfl rfl rfl (fun hready => ?_) (fun hu => hu.elim)
    (fun hq => hq.elim) nofun
  refine (or_eq_true_iff.mp hready).imp_right fun hready => ?_
  rw [Preparation.Quiesced, hphase, (and_eq_true_iff.mp (and_eq_true_iff.mp hready).1).1]
  trivial

end Preparations

theorem Inv.step (h : Inv s) (hmeets : Orderly s e) (hstep : DrainStep s e t) : Inv t := by
  cases hstep with
  | start call => exact h.start call
  | request hi =>
    refine h.advanceQuietly hi (fun j => ?_) (Nat.le_refl 0) (Nat.le_refl _) ?_ ?_ ?_
    · simp [Lock.request, Phase.pending]
    · simp
    · exact nofun
    · exact nofun
  | enter hi hgrant => exact h.enter hi hgrant
  | accept hi hdrain => exact h.accept hi hdrain
  | count hi => exact h.count hi
  | queue hi | queueReplicated hi =>
    refine h.advanceQuietly hi (fun j => by simp [Phase.pending]) (Nat.le_refl 0) (Nat.le_refl _) ?_ ?_ ?_
    · simp
    · exact nofun
    · exact nofun
  | append hi => exact h.append hi
  | commit hi => exact h.commit hi
  | finish hi => exact h.finish hi
  | release hi => exact h.release hi
  | @stop i task hi => exact h.stop hi (by simp) (fun lsns hphase => (hmeets task lsns hi).2 hphase) task.call
  | @orphan i call actions isGuarded lsns hi =>
    refine h.stop hi (fun record hrecord => ?_) nofun call
    obtain ⟨lsn, -, rfl⟩ := mem_map.mp hrecord
    by_contra hguarded
    have hguarded : isGuarded = true := not_eq_false _ ▸ hguarded
    have := (hmeets _ lsns hi).1 (by rw [hguarded])
    cases this
  | appendOrphan horphans => exact h.appendOrphan horphans
  | prepare request => exact h.prepare request
  | drain hi hphase =>
    exact h.goOn hi rfl (fun _ => rfl) (fun _ => rfl) rfl rfl rfl rfl rfl .inl (fun _ => rfl) (fun hq => hq.elim)
      nofun
  | readCount hi hphase => exact h.readCount hi hphase hmeets
  | requestGate hi hphase | timeOut hi hphase =>
    have hdrain := h.draining hi (by rw [Preparation.Underway, hphase]; trivial)
    exact h.goOn hi rfl id (fun _ => rfl) rfl rfl rfl rfl rfl .inl (fun _ => hdrain) (fun hq => hq.elim)
      nofun
  | enterGate hi hphase hgrant => exact h.enterGate hi hphase hgrant
  | @leaveGate i preparation hi hphase =>
    have hdrain := h.draining hi (by rw [Preparation.Underway, hphase]; trivial)
    exact h.goOn hi rfl id (fun _ => rfl) rfl rfl rfl rfl rfl .inl (fun _ => hdrain)
      (fun _ => .inl (by rw [Preparation.Quiesced, hphase]; trivial)) nofun
  | snapshot hi hphase => exact h.snapshot hi hphase
  | answer hi hphase => exact h.answer hi hphase
  | fail hi =>
    exact h.goOn hi rfl id (fun j => count_filter (by simp)) rfl rfl rfl rfl rfl .inl (fun hu => hu.elim)
      (fun hq => hq.elim) nofun
  | setDrain draining => exact h.setDrain hmeets

/-- The drain is not lifted either. -/
def UntilLifted (s : NodeState) (e : DrainEvent) : Prop := Orderly s e ∧ e ≠ .setDrain false

/-- The records of the guarded writes. -/
def NodeState.guardedLog (self : NodeState) : List Appended := self.log.filter (·.isGuarded)

theorem Inv.still (h : Inv s) (hready : s.ready = true) (hmeets : UntilLifted s e)
    (hstep : DrainStep s e t) :
    t.ready = true ∧ t.guardedLog = s.guardedLog := by
  have happended : ∀ records : List Appended, (∀ record ∈ records, record.isGuarded = false) →
      (s.log ++ records).filter (·.isGuarded) = s.guardedLog := fun records hrecords => by
    have hnone : records.filter (·.isGuarded) = [] :=
      filter_eq_nil_iff.mpr fun record hrecord => by simp [hrecords record hrecord]
    rw [filter_append, hnone, append_nil]
    rfl
  cases hstep with
  | @append i call actions isGuarded lsns hi =>
    refine ⟨hready, happended _ fun record hrecord => ?_⟩
    obtain ⟨lsn, -, rfl⟩ := mem_map.mp hrecord
    refine eq_false_iff.mpr fun hguarded => ?_
    exact h.not_writes (h.quiet (.inr hready)).2.1 (mem_of_getElem? hi) (Phase.writes_queued.mpr hguarded)
  | @appendOrphan before after record horphans =>
    refine ⟨hready, happended [record] fun appended happended => ?_⟩
    rw [mem_singleton.mp happended]
    exact h.orphans record (by rw [horphans]; simp)
  | answer hi hphase => exact ⟨or_eq_true_iff.mpr (.inl hready), rfl⟩
  | setDrain draining =>
    have hdraining : draining = true := by
      by_contra hlifted
      exact hmeets.2 (congrArg _ (eq_false_iff.mpr hlifted))
    exact ⟨and_eq_true_iff.mpr ⟨hdraining, hready⟩, rfl⟩
  | _ => exact ⟨hready, rfl⟩

/-- What holds when a preparation answers that it is ready. -/
theorem Inv.answered (h : Inv s) {i : Nat} {preparation : Preparation}
    {response : RuntimePrepareRestartResponse}
    (hanswer : DrainStep s (.answer i) t) (hi : t.preparations[i]? = some preparation)
    (hphase : preparation.phase = .answered response) (hready : response.readyForRestart = true) :
    t.ready = true ∧ ∀ lsn, response.snapshot = some lsn →
    ∀ record ∈ t.guardedLog, record.lsn ≤ lsn := by
  cases hanswer with
  | @answer i before writesQuiesced snapshot hbefore hbefore' =>
    obtain rfl := some.inj ((getElem?_set_self_of hbefore).symm.trans hi)
    obtain rfl := PreparePhase.answered.inj hphase
    refine ⟨or_eq_true_iff.mpr (.inr hready), fun lsn hlsn record hrecord => ?_⟩
    obtain rfl : snapshot = some lsn := hlsn
    obtain ⟨hmem, hguarded⟩ := mem_filter.mp hrecord
    exact (h.snapshotted before (mem_of_getElem? hbefore) writesQuiesced lsn hbefore').2 record hmem hguarded

/-- Once a preparation is ready for the restart, no guarded write appends a record until the drain
is lifted, and the snapshot is at or above all that the guarded writes ever appended. -/
theorem drain_barrier {u v w : NodeState} (hs : Fresh s) (hrun : Reaches DrainStep Orderly s u)
    {i : Nat}
    {preparation : Preparation} {response : RuntimePrepareRestartResponse}
    (hanswer : DrainStep u (.answer i) v)
    (hi : v.preparations[i]? = some preparation) (hphase : preparation.phase = .answered response)
    (hready : response.readyForRestart = true) (hafter : Reaches DrainStep UntilLifted v w) :
    w.guardedLog = v.guardedLog ∧ ∀ lsn, response.snapshot = some lsn →
    ∀ record ∈ w.guardedLog, record.lsn ≤ lsn := by
  have hu : Inv u := hrun.invariant (fun _ _ _ h => h.step) hs.inv
  obtain ⟨hvready, hsnapshot⟩ := hu.answered hanswer hi hphase hready
  have horderly : Orderly u (.answer i) := trivial
  have hv : Inv v := hu.step horderly hanswer
  have hw : Inv w ∧ w.ready = true ∧ w.guardedLog = v.guardedLog := by
    refine hafter.invariant (I := fun w => Inv w ∧ w.ready = true ∧ w.guardedLog = v.guardedLog)
      (fun w e w' hw hmeets hstep => ?_) ⟨hv, hvready, rfl⟩
    obtain ⟨hinv, hready, hlog⟩ := hw
    obtain ⟨hready', hlog'⟩ := hinv.still hready hmeets hstep
    exact ⟨hinv.step hmeets.1 hstep, hready', hlog'.trans hlog⟩
  refine ⟨hw.2.2, fun lsn hlsn record hrecord => ?_⟩
  rw [hw.2.2] at hrecord
  exact hsnapshot lsn hlsn record hrecord

section Sample

def idle : NodeState := ⟨false, .free, [], 0, 0, [], [], [], [], false⟩

theorem idle_fresh : Fresh idle := ⟨rfl, rfl, nofun, rfl, rfl, rfl, rfl⟩

def defaults : RuntimePrepareRestartRequest := ⟨none, none, none⟩

/-- A message is sent, and a preparation sees no writes. -/
def quiesced : NodeState :=
  ⟨true, .free, [], 1, 1, [⟨1, true⟩], [], [⟨.write .sendMessage 1, [], .running⟩],
    [⟨defaults, .snapshotted true (some 1)⟩], false⟩

def prepared : NodeState :=
  ⟨true, .free, [], 1, 1, [⟨1, true⟩], [], [⟨.write .sendMessage 1, [], .running⟩],
    [⟨defaults, .answered ⟨true, false, true, some 1, false, 1⟩⟩], true⟩

/-- A record with LSN 5 comes from another node. -/
def replicated : NodeState :=
  { prepared with
    log := [⟨1, true⟩, ⟨5, false⟩]
    tasks := [⟨.write .sendMessage 1, [], .running⟩, ⟨.replicateWal [5], [.replicate [5]], .written false [5]⟩] }

theorem reaches_quiesced : Reaches DrainStep Orderly idle quiesced := by
  have hidle : Reaches DrainStep Orderly idle idle := Reaches.refl idle
  have hcounted := ((((hidle.take (.start (.write .sendMessage 1)) (by exact trivial)).take (.request (i := 0) rfl)
    (by exact trivial)).take (.enter (i := 0) rfl rfl) (by exact trivial)).take (.accept (i := 0) rfl rfl)
    (by exact trivial)).take (.count (i := 0) rfl) (by exact trivial)
  have hsent :=
    ((((hcounted.take (.queue (i := 0) rfl) (by exact trivial)).take (.append (i := 0) rfl) (by exact trivial)).take
    (.commit (i := 0) rfl) (by exact trivial)).take (.finish (i := 0) rfl) (by exact trivial)).take
    (.release (i := 0) rfl) (by exact trivial)
  have hwaiting := ((hsent.take (.prepare defaults) (by exact trivial)).take (.drain (i := 0) rfl rfl)
    (by exact trivial)).take (.requestGate (i := 0) rfl rfl (by decide)) (by exact trivial)
  have hquiesced := ((hwaiting.take (.enterGate (i := 0) rfl rfl rfl) (by exact trivial)).take
    (.leaveGate (i := 0) rfl rfl) (by exact trivial)).take (.snapshot (i := 0) rfl rfl) (by exact trivial)
  exact hquiesced

theorem quiesced_answer : DrainStep quiesced (.answer 0) prepared :=
  @DrainStep.answer quiesced 0 ⟨defaults, .snapshotted true (some 1)⟩ true (some 1) rfl rfl

theorem reaches_replicated {meets : NodeState → DrainEvent → Prop} (hmeets : ∀ s e,
    (∀ i, e ≠ .readCount i) → (∀ i orphaned, e ≠ .stop i orphaned) →
      (∀ draining, e ≠ .setDrain draining) → meets s e) :
    Reaches DrainStep meets prepared replicated := by
  have hprepared : Reaches DrainStep meets prepared prepared := Reaches.refl prepared
  have hstarted := hprepared.take (.start (.replicateWal [5])) (hmeets _ _ (by simp) (by simp) (by simp))
  have hqueued := hstarted.take (.queueReplicated (i := 1) rfl) (hmeets _ _ (by simp) (by simp) (by simp))
  have happended := hqueued.take (.append (i := 1) rfl) (hmeets _ _ (by simp) (by simp) (by simp))
  exact happended

/-- A message, a preparation, and a record of another node. -/
theorem drain_barrier_sample : ∃ (u v w : NodeState) (response : RuntimePrepareRestartResponse),
    DrainStep u (.answer 0) v ∧ v.preparations = [⟨defaults, .answered response⟩] ∧
    response.readyForRestart = true ∧
    v.guardedLog = [⟨1, true⟩] ∧ w.log = [⟨1, true⟩, ⟨5, false⟩] ∧ w.guardedLog = v.guardedLog ∧
    ∀ lsn, response.snapshot = some lsn → ∀ record ∈ w.guardedLog, record.lsn ≤ lsn := by
  refine ⟨quiesced, prepared, replicated, _, quiesced_answer, rfl, rfl, rfl, rfl, ?_⟩
  refine drain_barrier idle_fresh reaches_quiesced quiesced_answer (i := 0) rfl rfl rfl (reaches_replicated ?_)
  intro s e hcount hstop hset
  refine ⟨?_, hset false⟩
  cases e with
  | readCount i => exact absurd rfl (hcount i)
  | stop i orphaned => exact absurd rfl (hstop i orphaned)
  | setDrain draining => exact absurd rfl (hset draining)
  | _ => trivial

/-- A record of another node is appended after the preparation, above its snapshot. -/
theorem drain_leaves_replication_open :
    ¬ ∀ (s u v w : NodeState) (i : Nat) (preparation : Preparation)
    (response : RuntimePrepareRestartResponse), Fresh s → Reaches DrainStep (fun _ _ => True) s u →
    DrainStep u (.answer i) v → v.preparations[i]? = some preparation →
    preparation.phase = .answered response →
    response.readyForRestart = true → Reaches DrainStep (fun _ e => e ≠ .setDrain false) v w →
    w.log = v.log ∧
    ∀ lsn, response.snapshot = some lsn → ∀ record ∈ w.log, record.lsn ≤ lsn := by
  intro h
  have hlog := (h idle quiesced prepared replicated 0 _ _ idle_fresh (reaches_quiesced.weaken fun _ _ _ => trivial)
    quiesced_answer rfl rfl rfl (reaches_replicated fun _ _ _ _ hset => hset false)).1
  exact absurd (congrArg length hlog) (by decide)

end Sample

/-! ## How far a task is in its call -/

/-- What a task in the phase is about to take. -/
def Phase.Takes (self : Phase) (action : Action) : Prop :=
  match self with
  | .running => True
  | .waiting | .gated | .accepted => action = .beginRuntimeWrite
  | .queued .. | .written .. => ∀ held, action.guards held = held

/-- The task has taken the first actions of its call, or stopped, and has the guards that they
leave. -/
structure Task.Follows (task : Task) (held : Nat) : Prop where
  takes : ∀ action ∈ task.actions.head?, task.phase.Takes action
  taken : task.actions = [] ∨ ∃ before, task.call.actions = before ++ task.actions ∧ guardsAfter 0 before = held

/-- Each task holds as many guards as its call has taken by now. -/
structure Follows (s : NodeState) : Prop where
  tasks : ∀ (i : Nat) task, s.tasks[i]? = some task → task.Follows (s.inFlight.count i)
  inFlight : ∀ i ∈ s.inFlight, i < s.tasks.length

theorem Fresh.follows (h : Fresh s) : Follows s where
  tasks i task hi := by
    rw [h.tasks] at hi
    cases hi
  inFlight i hi := by
    rw [h.inFlight] at hi
    cases hi

theorem Task.Follows.taken_cons {call : Call} {action : Action} {actions : List Action}
    {phase : Phase} {held : Nat} (h : Task.Follows ⟨call, action :: actions, phase⟩ held) :
    Task.Follows ⟨call, actions, .running⟩ (action.guards held) := by
  obtain ⟨before, hbefore, hheld⟩ := h.taken.resolve_left (cons_ne_nil _ _)
  refine ⟨fun _ _ => trivial, .inr ⟨before ++ [action], ?_, ?_⟩⟩
  · rw [append_assoc]
    exact hbefore
  · rw [guardsAfter_append, hheld]
    rfl

/-- One task goes on. -/
theorem Follows.advance (h : Follows s) (hi : s.tasks[i]? = some old)
    (htasks : t.tasks = s.tasks.set i new)
    (hothers : ∀ j, j ≠ i → t.inFlight.count j = s.inFlight.count j)
    (hnew : new.Follows (t.inFlight.count i)) :
    Follows t where
  tasks j task hj := by
    rw [htasks] at hj
    rcases getElem?_set_cases hj with ⟨rfl, rfl⟩ | ⟨hij, hj⟩
    · exact hnew
    · rw [hothers j hij]
      exact h.tasks j task hj
  inFlight j hj := by
    rw [htasks, length_set]
    by_cases hij : j = i
    · rw [hij]
      exact (List.getElem?_eq_some_iff.mp hi).1
    · exact h.inFlight j (count_pos_iff.mp (hothers j hij ▸ count_pos_iff.mpr hj))

theorem Follows.step (h : Follows s) (hstep : DrainStep s e t) : Follows t := by
  cases hstep with
  | start call =>
    refine ⟨fun i task hi => ?_, fun i hi => ?_⟩
    · rcases getElem?_push_cases hi with hi | ⟨rfl, rfl⟩
      · exact h.tasks i task hi
      · have hnone : s.tasks.length ∉ s.inFlight := fun hmem => Nat.lt_irrefl _ (h.inFlight _ hmem)
        exact ⟨fun _ _ => trivial, .inr ⟨[], rfl, (count_eq_zero.mpr hnone).symm⟩⟩
    · rw [length_append]
      exact Nat.lt_add_right _ (h.inFlight i hi)
  | request hi => exact h.advance hi rfl (fun _ _ => rfl) ⟨by simp [Phase.Takes], (h.tasks _ _ hi).taken⟩
  | enter hi | accept hi | append hi | commit hi =>
    exact h.advance hi rfl (fun _ _ => rfl) ⟨(h.tasks _ _ hi).takes, (h.tasks _ _ hi).taken⟩
  | queue hi | queueReplicated hi =>
    exact h.advance hi rfl (fun _ _ => rfl) ⟨by simp [Phase.Takes, Action.guards], (h.tasks _ _ hi).taken⟩
  | @count i call action actions hi =>
    have hold := h.tasks i _ hi
    obtain rfl : action = .beginRuntimeWrite := hold.takes action rfl
    refine h.advance hi rfl (fun j hj => count_cons_of_ne hj.symm) ?_
    show Task.Follows _ ((i :: s.inFlight).count i)
    rw [count_cons_self]
    exact hold.taken_cons
  | @finish i call action actions isGuarded hi =>
    have hold := h.tasks i _ hi
    have hsame : ∀ held, action.guards held = held := hold.takes action rfl
    have hnew := hold.taken_cons
    rw [hsame] at hnew
    exact h.advance hi rfl (fun _ _ => rfl) hnew
  | @release i call actions hi =>
    refine h.advance hi rfl (fun j hj => count_erase_of_ne hj) ?_
    show Task.Follows _ ((s.inFlight.erase i).count i)
    rw [count_erase_self]
    exact (h.tasks i _ hi).taken_cons
  | stop hi | orphan hi => exact h.advance hi rfl (fun j hj => count_filter (by simpa using hj)) ⟨nofun, .inl rfl⟩
  | _ => exact ⟨h.tasks, h.inFlight⟩

/-- A call that nests no writes asks for the gate without a guard. -/
theorem Follows.asks_free (h : Follows s) {call : Call} {actions : List Action}
    (hi : s.tasks[i]? = some ⟨call, .beginRuntimeWrite :: actions, .running⟩)
    (hnests : ¬ call.Nests) :
    i ∉ s.inFlight := by
  obtain ⟨before, hbefore, hheld⟩ := (h.tasks i _ hi).taken.resolve_left (cons_ne_nil _ _)
  have hfree : Along AsksFree 0 (before ++ .beginRuntimeWrite :: actions) :=
    hbefore ▸ call.along_asksFree_iff.mpr hnests
  exact count_eq_zero.mp (hheld.symm.trans hfree.at)

/-- The records that a gated call queues are those of a guarded write, so that they are in the
guarded log once they are appended. -/
theorem Call.Gated.queues_guarded (hs : Fresh s) {meets : NodeState → DrainEvent → Prop}
    (hrun : Reaches DrainStep meets s t) {u : NodeState} (hstep : DrainStep t (.queue i) u)
    {task : Task}
    (hi : u.tasks[i]? = some task) (hgated : task.call.Gated) : task.phase.Writes := by
  have hfollows : Follows t := hrun.invariant (fun _ _ _ h _ hstep => h.step hstep) hs.follows
  have hguards : ∀ {call : Call} {action : Action} {actions : List Action}, call.Gated →
      t.tasks[i]? = some ⟨call, action :: actions, .running⟩ → AppendsGuarded (t.inFlight.count i) action := by
    intro call action actions hgated hi
    obtain ⟨before, hbefore, hheld⟩ := (hfollows.tasks i _ hi).taken.resolve_left (cons_ne_nil _ _)
    have halong : Along AppendsGuarded 0 (before ++ action :: actions) := hbefore ▸ hgated.along
    exact hheld ▸ halong.at
  cases hstep with
  | queue hi' =>
    obtain rfl := some.inj ((getElem?_set_self_of hi').symm.trans hi)
    have hheld : 0 < t.inFlight.count i := hguards hgated hi'
    exact Phase.writes_queued.mpr (contains_iff_mem.mpr (count_pos_iff.mp hheld))
  | queueReplicated hi' =>
    obtain rfl := some.inj ((getElem?_set_self_of hi').symm.trans hi)
    exact (hguards hgated hi').elim

/-! ## Waiting for the gate -/

/-- A task that has a guard waits for the gate behind a preparation, which waits for the guard. -/
def NodeState.Stuck (self : NodeState) (i j : Nat) : Prop :=
  i ∈ self.inFlight ∧ [(.write, .preparation j), (.read, .task i)].Sublist self.gate.queue

/-- A sweep whose behaviors write asks for the gate again only while no preparation waits for it. -/
def AsksAheadOfDrains (s : NodeState) : DrainEvent → Prop
  | .request i => ∀ task, s.tasks[i]? = some task → task.call.Nests → i ∈ s.inFlight →
      ∀ entry ∈ s.gate.queue, entry.1 ≠ .write
  | _ => True

def Phase.waits : Phase → Nat
  | .waiting => 1
  | _ => 0

/-- Who waits is in the queue, and nobody who holds the gate stands behind a writer. -/
structure GateInv (s : NodeState) : Prop where
  queued : ∀ i, s.gate.queue.count (.read, .task i) = phaseAt Phase.waits s.tasks i
  behind : ∀ i ∈ s.inFlight, ¬ BehindWriter s.gate.queue (.task i)

theorem Fresh.gateInv (h : Fresh s) : GateInv s where
  queued i := by rw [h.gate, h.tasks]; rfl
  behind i hi := by
    rw [h.inFlight] at hi
    cases hi

/-- A task goes on. -/
theorem GateInv.advance (h : GateInv s) {i : Nat} {old p : Task} (hi : s.tasks[i]? = some old)
    (htasks : t.tasks = s.tasks.set i p)
    (hself : t.gate.queue.count (.read, .task i) = p.phase.waits)
    (hothers : ∀ j, j ≠ i → t.gate.queue.count (.read, .task j) = s.gate.queue.count (.read,
      .task j))
    (hbehind : ∀ j ∈ t.inFlight, ¬ BehindWriter t.gate.queue (.task j)) : GateInv t where
  queued j := by
    rw [htasks]
    by_cases hj : j = i
    · subst hj
      rw [phaseAt_set hi, hself]
    · rw [phaseAt_set_ne hj, hothers j hj, h.queued j]
  behind := hbehind

/-- A task goes on, and leaves the queue as it is. -/
theorem GateInv.advanceFree (h : GateInv s) (hi : s.tasks[i]? = some old)
    (htasks : t.tasks = s.tasks.set i new)
    (hgate : t.gate.queue = s.gate.queue) (hphase : old.phase.waits = new.phase.waits)
    (hinFlight : ∀ j ∈ t.inFlight, j ∈ s.inFlight) : GateInv t := by
  refine h.advance hi htasks ?_ (fun j _ => by rw [hgate]) fun j hj => ?_
  · rw [hgate, h.queued i, phaseAt_of hi, hphase]
  · rw [hgate]
    exact h.behind j (hinFlight j hj)

/-- A preparation goes on, and joins the queue or leaves it. -/
theorem GateInv.goOn (h : GateInv s) (htasks : t.tasks = s.tasks)
    (hinFlight : t.inFlight = s.inFlight)
    (hcount : ∀ i, t.gate.queue.count (.read, .task i) = s.gate.queue.count (.read, .task i))
    (hbehind : ∀ i, BehindWriter t.gate.queue (.task i) → BehindWriter s.gate.queue (.task i)) :
    GateInv t where
  queued i := by rw [hcount, htasks, h.queued i]
  behind i hi := by
    rw [hinFlight] at hi
    exact fun hb => h.behind i hi (hbehind i hb)

theorem GateInv.stop (h : GateInv s) {i : Nat} {task : Task} (hi : s.tasks[i]? = some task)
    (call : Call) {left : List Appended} : GateInv (s.stop i call left) := by
  refine h.advance (p := ⟨call, [], .running⟩) hi rfl (count_eq_zero.mpr ?_) (fun j hj => ?_) fun j hj hbehind => ?_
  · show _ ∉ s.gate.queue.filter _
    simp
  · exact count_filter (by simpa using hj)
  · exact h.behind j (mem_of_mem_filter hj) (hbehind.of_sublist filter_sublist)

theorem GateInv.step (h : GateInv s) (hfollows : Follows s) (hmeets : AsksAheadOfDrains s e)
    (hstep : DrainStep s e t) : GateInv t := by
  cases hstep with
  | start call =>
    exact {
      queued := fun i => by rw [phaseAt_push rfl]; exact h.queued i
      behind := h.behind }
  | @request i call actions hi =>
    have hnone := h.queued i
    rw [phaseAt_of hi] at hnone
    refine h.advance (p := ⟨call, _, .waiting⟩) hi rfl ?_ (fun j hj => ?_) fun j hj hbehind => ?_
    · show (s.gate.queue ++ [(Mode.read, Party.task i)]).count _ = 1
      rw [count_append, hnone, count_singleton_self]
      rfl
    · have hother : [(Mode.read, Party.task i)].count (.read, .task j) = 0 :=
        count_eq_zero.mpr (by simpa using hj)
      show (s.gate.queue ++ [(Mode.read, Party.task i)]).count _ = _
      rw [count_append, hother, Nat.add_zero]
    · rcases BehindWriter.of_request hbehind with hbehind | ⟨hsame, w, hw⟩
      · exact h.behind j hj hbehind
      · cases hsame
        by_cases hnests : call.Nests
        · exact hmeets _ hi hnests hj _ hw rfl
        · exact hfollows.asks_free hi hnests hj
  | @enter i call actions gate hi hgrant =>
    obtain ⟨rfl, hqueue, -⟩ := Lock.grant_read hgrant
    refine h.advance (p := ⟨call, actions, .gated⟩) hi rfl ?_ (fun j hj => ?_) fun j hj hbehind => ?_
    · have hone := h.queued i
      rw [phaseAt_of hi, hqueue, count_cons_self] at hone
      exact Nat.succ.inj hone
    · show s.gate.queue.tail.count _ = s.gate.queue.count _
      rw [hqueue, tail_cons, count_cons_of_ne (by simpa using Ne.symm hj)]
    · exact h.behind j hj (hbehind.of_sublist (tail_sublist _))
  | accept hi | queue hi | queueReplicated hi | append hi | commit hi | finish hi =>
    exact h.advanceFree hi rfl rfl rfl fun j hj => hj
  | @count i call action actions hi =>
    have hnone := h.queued i
    rw [phaseAt_of hi] at hnone
    refine h.advance (p := ⟨call, actions, .running⟩) hi rfl hnone (fun j _ => rfl) fun j hj hbehind => ?_
    rcases mem_cons.mp hj with rfl | hj
    · exact count_eq_zero.mp hnone hbehind.mem
    · exact h.behind j hj hbehind
  | release hi => exact h.advanceFree hi rfl rfl rfl fun j hj => mem_of_mem_erase hj
  | stop hi | orphan hi => exact h.stop hi _
  | appendOrphan | prepare | drain | readCount | leaveGate | snapshot | answer | setDrain => exact ⟨h.queued, h.behind⟩
  | requestGate hi hphase hwait =>
    refine h.goOn rfl rfl (fun i => ?_) fun i hbehind => ?_
    · exact (count_append ..).trans (by simp)
    · rcases BehindWriter.of_request hbehind with hbehind | ⟨hsame, -⟩
      · exact hbehind
      · cases hsame
  | enterGate hi hphase hgrant =>
    obtain ⟨rfl, hqueue, -⟩ := Lock.grant_write hgrant
    refine h.goOn rfl rfl (fun i => ?_) fun i hbehind => hbehind.of_sublist (tail_sublist _)
    show s.gate.queue.tail.count _ = s.gate.queue.count _
    rw [hqueue, tail_cons, count_cons_of_ne (by simp)]
  | timeOut | fail =>
    exact h.goOn rfl rfl (fun i => count_filter (by simp)) fun i hbehind =>
      hbehind.of_sublist filter_sublist

/-- In a run in which no sweep whose behaviors write asks for the gate again while a drain waits for
it, no task that has a guard waits behind a drain. -/
theorem drain_waits_for_no_waiter (hs : Fresh s) (hrun : Reaches DrainStep AsksAheadOfDrains s t)
    (i j : Nat) :
    ¬ t.Stuck i j := by
  have ht : GateInv t ∧ Follows t := hrun.invariant
    (fun _ _ _ h hmeets hstep => And.intro (h.1.step h.2 hmeets hstep) (h.2.step hstep)) ⟨hs.gateInv, hs.follows⟩
  intro hstuck
  exact ht.1.behind i hstuck.1 ⟨_, hstuck.2⟩

section Sample

/-- A reminder's behavior that sends a message. -/
def sweep : Call := .runDueActorReminders [⟨some [.write .sendMessage 1], false⟩]

/-- A sweep sends a message, and a preparation comes after it began. -/
def sending : NodeState :=
  ⟨true, ⟨[.task 0, .task 0], none, [(.write, .preparation 0)]⟩, [0, 0], 0, 0, [], [],
    [⟨sweep, [.append 1, .dropGuard, .append 1, .dropGuard], .running⟩], [⟨defaults, .waiting⟩], false⟩

/-- A sweep in which a message is sent waits for the gate again. -/
def sweeping : NodeState :=
  ⟨true, ⟨[.task 0], none, [(.write, .preparation 0), (.read, .task 0)]⟩, [0], 0, 0, [], [],
    [⟨sweep, [.beginRuntimeWrite, .append 1, .dropGuard, .append 1, .dropGuard], .waiting⟩], [⟨defaults, .waiting⟩],
    false⟩

/-- A sweep has its guard. -/
def swept : NodeState :=
  ⟨false, ⟨[.task 0], none, []⟩, [0], 0, 0, [], [],
    [⟨sweep, [.beginRuntimeWrite, .append 1, .dropGuard, .append 1, .dropGuard], .running⟩], [], false⟩

theorem reaches_swept {meets : NodeState → DrainEvent → Prop}
    (hmeets : ∀ s e, (∀ i, e = .request i → s.gate.queue = []) → meets s e) :
    Reaches DrainStep meets idle swept := by
  have hidle : Reaches DrainStep meets idle idle := Reaches.refl idle
  have hstarted := hidle.take (.start sweep) (hmeets _ _ (by simp))
  exact (((hstarted.take (.request (i := 0) rfl) (hmeets _ _ fun _ _ => rfl)).take (.enter (i := 0) rfl rfl)
    (hmeets _ _ (by simp))).take (.accept (i := 0) rfl rfl) (hmeets _ _ (by simp))).take (.count (i := 0) rfl)
    (hmeets _ _ (by simp))

/-- A preparation waits for a sweep, which has begun to send a message before. -/
theorem drain_waits_for_no_waiter_sample : sending.inFlight = [0, 0] ∧ ¬ sending.Stuck 0 0 := by
  refine ⟨rfl, drain_waits_for_no_waiter idle_fresh ?_ 0 0⟩
  have hmeets : ∀ s e, (∀ i, e = .request i → s.gate.queue = []) → AsksAheadOfDrains s e := by
    intro s e hrequest
    cases e with
    | request i => exact fun _ _ _ _ => by simp [hrequest i rfl]
    | _ => trivial
  have hsending := ((((reaches_swept hmeets).take (.request (i := 0) rfl) (hmeets _ _ fun _ _ => rfl)).take
    (.enter (i := 0) rfl rfl) (hmeets _ _ (by simp))).take (.accept (i := 0) rfl rfl) (hmeets _ _ (by simp))).take
    (.count (i := 0) rfl) (hmeets _ _ (by simp))
  have hdrained := (hsending.take (.prepare defaults) (hmeets _ _ (by simp))).take (.drain (i := 0) rfl rfl)
    (hmeets _ _ (by simp))
  exact hdrained.take (@DrainStep.requestGate _ 0 ⟨defaults, .draining⟩ rfl rfl (by decide))
    (hmeets _ _ (by simp))

/-- A sweep runs a behavior that sends a message, and a preparation comes before that. -/
theorem drain_waits_for_sweep : ¬ ∀ (s t : NodeState) (i j : Nat), Fresh s →
    Reaches DrainStep (fun _ _ => True) s t →
    ¬ t.Stuck i j := by
  intro h
  have hswept := @reaches_swept (fun _ _ => True) fun _ _ _ => trivial
  have hwaiting := ((hswept.take (.prepare defaults) trivial).take (.drain (i := 0) rfl rfl) trivial).take
    (.requestGate (i := 0) rfl rfl (by decide)) trivial
  have hsweeping : Reaches DrainStep (fun _ _ => True) idle sweeping := hwaiting.take (.request (i := 0) rfl) trivial
  exact h idle sweeping 0 0 idle_fresh hsweeping ⟨mem_singleton_self 0, Sublist.refl _⟩

end Sample

end NextDb.Api.Drain
