import NextDb.Api.IdempotentReply
import NextDb.Api.ReplayIndex

/-!
# Behaviors that are tried again

The commands of a behavior are executed in their order, each under an id that is made of the id of
the invocation and the place of the command. What is known under that id answers a command;
else it appends its record. An attempt may fail at any command, before its record or after.

* `commandId_inj`: the ids of the commands of an invocation are different.
* `BehaviorCommand.ask_eq`: what a command asks for is the same in all attempts.
* `behavior_retry_exactly_once`: an attempt that succeeds answers each command from its only record.
* `behavior_retry_twice`: a record that the attempt before was not answered for is appended again.
-/

namespace NextDb.Api.BehaviorRetry

open List Option Except

open RecordCommit (RecordOperation)
open Actor (ActorKind)
open Converge (ActorReminderEntry actorReminderEntryFromDraft)
open HostHttp Startup ReplayIndex IdempotentReply Run

/-! ## Commands -/

/-- A command of a behavior. Expected LSNs and durabilities are left out. -/
inductive BehaviorCommand where
  | sendMessage (roomId body : String) (attachments : List String)
  | publishUserEvent (userId name : String) (payload : Value) (clientMutationId : Option String)
  | putObject (objectId : Option String) (contentType : String) (body : Bytes) (clientMutationId : Option String)
  | deleteObject (objectId : String) (force : Bool) (clientMutationId : Option String)
  | upsertRecord (table key : String) (value : Value)
  | deleteRecord (table key : String)
  | recordTransaction (operations : List RecordOperation)
  | scheduleActorReminder (kind : ActorKind) (key : String) (reminderId : Option String) (dueAtMs : Option Nat)
      (payload : Option Value)
  | requestHostHttp (command : RequestHostHttp)
  /-- One of those that may not be tried again. -/
  | volatile

/-- The id that a command brings along. -/
def BehaviorCommand.explicitId : BehaviorCommand → Option String
  | .publishUserEvent _ _ _ clientMutationId => clientMutationId
  | .putObject _ _ _ clientMutationId => clientMutationId
  | .deleteObject _ _ clientMutationId => clientMutationId
  | .scheduleActorReminder _ _ reminderId _ _ => reminderId
  | .requestHostHttp command => command.requestId
  | _ => none

def BehaviorCommand.commandKind : BehaviorCommand → String
  | .sendMessage .. => "sendMessage"
  | .publishUserEvent .. => "publishUserEvent"
  | .putObject .. => "putObject"
  | .deleteObject .. => "deleteObject"
  | .upsertRecord .. => "upsertRecord"
  | .deleteRecord .. => "deleteRecord"
  | .recordTransaction .. => "recordTransaction"
  | .scheduleActorReminder .. => "scheduleActorReminder"
  | .requestHostHttp .. => "requestHostHttp"
  | .volatile => "publishVolatile"

/-- An index of at least three digits. -/
def paddedIndex (commandIndex : Nat) : String :=
  String.ofList ((Nat.toDigits 10 commandIndex).leftpad 3 '0')

def behaviorCommandClientMutationId (id : String) (commandIndex : Nat) (commandKind : String) :
    String :=
  id ++ (":" ++ (paddedIndex commandIndex ++ (":" ++ commandKind)))

/-- An invocation with a client mutation id, as it is after its checks: a behavior gives the same
commands for the same input. -/
structure Invocation where
  clientMutationId : String
  userId : Option String
  commands : List BehaviorCommand
  normalized : normalizeClientMutationId (some clientMutationId) = .ok (some clientMutationId)
  short : clientMutationId.utf8ByteSize ≤ 128
  replaySafe : ∀ command ∈ commands, command ≠ .volatile

/-- What a command asks for, and the id that it is known by. -/
inductive Ask where
  | mutation (clientMutationId : Option String) (mutation : Mutation)
  | reminder (reminder : ActorReminderDraft)
  | hostHttp (request : HostHttpRequest)

def Ask.key : Ask → Option ReplayKey
  | .mutation clientMutationId _ => clientMutationId.map .mutation
  | .reminder draft => some (.reminder (actorReminderIndexKeyFromDraft draft))
  | .hostHttp request => some (.hostHttp request.requestId)

def askMutation (clientMutationId : String) (mutation : Mutation) : Except ApiError Ask := do
  return .mutation (← normalizeClientMutationId (some clientMutationId)) mutation

variable (lib : HttpLibraries) (sha256 : Bytes → Bytes) (inv : Invocation)

/-- What a command under an id asks for in an attempt, with a new id for what has none and the
clock. -/
def BehaviorCommand.ask (userId : Option String) (id newId : String) (nowMs : Nat) :
    BehaviorCommand → Except ApiError Ask
  | .sendMessage roomId body attachments =>
    match userId with
    | none => .error (.badRequest "behavior sendMessage command requires userId")
    | some userId => askMutation id (.sendMessage roomId userId body attachments)
  | .publishUserEvent userId name payload _ => askMutation id (.publishUserEvent userId name payload)
  | .putObject objectId contentType body _ => askMutation id (.putObject objectId contentType body)
  | .deleteObject objectId force _ => askMutation id (.deleteObject objectId force)
  | .upsertRecord table key value => askMutation id (.commitRecord (.upsert table key value))
  | .deleteRecord table key => askMutation id (.commitRecord (.delete table key))
  | .recordTransaction operations => askMutation id (.recordTransaction operations)
  | .scheduleActorReminder kind key _ dueAtMs payload =>
    match dueAtMs with
    | none => .error (.badRequest
        "behavior scheduleActorReminder with clientMutationId requires dueAtMs; delayMs is relative and cannot be replayed exactly")
    | some dueAtMs => (scheduledReminder lib newId nowMs kind key (some id) dueAtMs payload).map .reminder
  | .requestHostHttp command =>
    (parseHostHttpRequest lib newId nowMs { command with requestId := some id }).map .hostHttp
  | .volatile => .error (.badRequest
      "behavior clientMutationId requires replay-safe durable host commands; publishVolatile, publishUserVolatile, broadcastRealtimeChannel, updateRealtimePresence, updateRealtimeChannelState, disconnectConnections, and runtime activation commands are not retry-safe")

/-- The id that a command is executed under. -/
def Invocation.commandId (commandIndex : Nat) (command : BehaviorCommand) : String :=
  command.explicitId.getD (behaviorCommandClientMutationId inv.clientMutationId commandIndex command.commandKind)

/-! ## Results -/

inductive BehaviorCommittedResponse where
  | messageCreated (message : Message)
  | objectCommitted (object : ObjectMetadata)
  | objectDeleted (objectId : String) (deleted : Bool) (lsn : Nat)
  | userEventPublished (event : UserEvent)
  | recordUpserted (record : DbRecord)
  | recordDeleted (table key : String) (lsn : Nat)
  | recordTransactionCommitted (lsn : Nat) (operations : List RecordTransactionOperationResponse)
  | actorReminderScheduled (reminder : ActorReminderEntry) (lsn acceptedAtMs : Nat)
  | hostHttpRequested (requestId method url actorKind actorKey reminderId : String)
      (acceptedAtMs requestedLsn : Nat)

/-- What a command lists of its mutation. A delete that found no record is not listed. -/
def listedOfMutation : CommittedMutation → Except ApiError (Option BehaviorCommittedResponse)
  | .messageCreated message => .ok (some (.messageCreated message))
  | .userEventPublished event => .ok (some (.userEventPublished event))
  | .userUpserted _ => .error (.internal ⟨"behavior sendMessage returned an unexpected response",
    []⟩)
  | .objectCommitted object => .ok (some (.objectCommitted object))
  | .objectDeleted response => .ok (some (.objectDeleted response.objectId response.deleted response.lsn))
  | .recordUpserted record => .ok (some (.recordUpserted record))
  | .recordDeleted response =>
    .ok (if response.deleted then some (.recordDeleted response.table response.key response.lsn) else none)
  | .recordTransactionCommitted response =>
    .ok (some (.recordTransactionCommitted response.lsn response.operations))

def actorReminderDraftMatches (existing reminder : ActorReminderDraft) : Bool :=
  existing.actorKind == reminder.actorKind && existing.actorKey == reminder.actorKey &&
    existing.reminderId == reminder.reminderId && existing.dueAtMs == reminder.dueAtMs &&
    match existing.payload, reminder.payload with
    | some left, some right => jsonEq left.json right.json
    | none, none => true
    | _, _ => false

def existingIdempotentActorReminder (reminders : ActorReminderIndex)
    (reminder : ActorReminderDraft) :
    Except ApiError (Option ActorReminderRecord) :=
  match actorReminderAt reminders (actorReminderIndexKeyFromDraft reminder) with
  | none => .ok none
  | some existing =>
    if actorReminderDraftMatches existing.reminder reminder then .ok (some existing)
    else .error (.badRequest "scheduleActorReminder reminderId was already used for a different reminder")

def listedReminder (reminder : ActorReminderDraft) (lsn acceptedAtMs : Nat) :
    Except ApiError (Option BehaviorCommittedResponse) :=
  match actorReminderEntryFromDraft reminder with
  | none => .error (.badRequest "invalid actor reminder target")
  | some entry => .ok (some (.actorReminderScheduled entry lsn acceptedAtMs))

def listedRequest (request : HostHttpRequestDraft) (acceptedAtMs requestedLsn : Nat) :
    BehaviorCommittedResponse :=
  .hostHttpRequested request.requestId request.method request.url request.actorKind request.actorKey request.reminderId
    acceptedAtMs requestedLsn

/-- What a command lists from what is known under its id, if anything is. -/
def Ask.lookUp (indexes : Indexes) :
    Ask → Except ApiError (Option (Option BehaviorCommittedResponse))
  | .mutation clientMutationId asked => do
    match ← replay asked.kind (findCommittedMutation indexes.clientMutations clientMutationId) with
    | none => return none
    | some existing => (listedOfMutation existing).map some
  | .reminder draft => do
    match ← existingIdempotentActorReminder indexes.actorReminders draft with
    | none => return none
    | some existing => (listedReminder existing.reminder existing.scheduledLsn existing.scheduledAtMs).map some
  | .hostHttp request => do
    match ← existingHostHttpRequest indexes.hostHttpRequests request with
    | none => return none
    | some existing =>
      return some (some (listedRequest existing.request existing.request.requestedAtMs existing.requestedLsn))

def Ask.payload (context : CommitContext) : Ask → Except ApiError (Option WalPayload)
  | .mutation clientMutationId asked => asked.payload sha256 context clientMutationId
  | .reminder draft => .ok (some (.actorReminderScheduled draft))
  | .hostHttp request => .ok (some (.hostHttpRequested (request.toDraft context.nowMs)))

/-- What a command lists that appended the record. -/
def Ask.listed (record : WalRecord) (acceptedAtMs : Nat) :
    Ask → Except ApiError (Option BehaviorCommittedResponse)
  | .mutation _ _ =>
    match committedResponse record with
    | none => .error (.internal ⟨"", []⟩)
    | some response => listedOfMutation response
  | .reminder draft => listedReminder draft record.lsn acceptedAtMs
  | .hostHttp request => .ok (some (listedRequest (request.toDraft acceptedAtMs) acceptedAtMs record.lsn))

/-- What a command lists that had no record to append. -/
def Ask.listedUnrecorded : Ask → Except ApiError (Option BehaviorCommittedResponse)
  | .mutation _ asked =>
    match unrecordedResponse asked with
    | none => .error (.internal ⟨"", []⟩)
    | some response => listedOfMutation response
  | _ => .error (.internal ⟨"", []⟩)

/-! ## Ids -/

def ReplayKey.text : ReplayKey → String
  | .mutation id => id
  | .reminder key => key.2.2
  | .hostHttp requestId => requestId

/-- The id that the command brings along, if any, is not blank. -/
def BehaviorCommand.Named (command : BehaviorCommand) : Prop :=
  ∀ id, command.explicitId = some id → trim id ≠ ""

/-- What the command asks for in some attempt. -/
def Invocation.Asks (commandIndex : Nat) (asked : Ask) : Prop :=
  ∃ command newId nowMs, inv.commands[commandIndex]? = some command ∧
    command.ask lib inv.userId (inv.commandId commandIndex command) newId nowMs = .ok asked

/-- The ids that commands bring along are not blank, and each is that of no other command. -/
structure Invocation.OwnIds : Prop where
  named : ∀ command ∈ inv.commands, command.Named
  distinct : ∀ (i j : Nat) (command : BehaviorCommand) asked asked' key, inv.commands[i]? = some command →
    command.explicitId.isSome → i ≠ j → inv.Asks lib i asked → inv.Asks lib j asked' →
    asked.key = some key → asked'.key ≠ some key

variable {lib sha256 inv}

theorem trimmed_append {first m last : String} (hfirst : Trimmed first) (hlast : Trimmed last) :
    Trimmed (first ++ (m ++ last)) := by
  have hlist : (first ++ (m ++ last)).toList = first.toList ++ (m.toList ++ last.toList) := by
    rw [String.toList_append, String.toList_append]
  have hfirst' : first.toList ≠ [] := by simpa using hfirst.2
  have hlast' : last.toList ≠ [] := by simpa using hlast.2
  have hstart : (first ++ (m ++ last)).toList.dropWhile isWhitespace = (first ++ (m ++ last)).toList := by
    rw [hlist, dropWhile_eq_self_iff]
    intro hlen
    have hpos : 0 < first.toList.length := length_pos_iff.mpr hfirst'
    rw [getElem_append_left hpos]
    exact dropWhile_eq_self_iff.mp (toList_of_trim hfirst.1).1 hpos
  have hend : (first ++ (m ++ last)).toList.rdropWhile isWhitespace = (first ++ (m ++ last)).toList := by
    rw [hlist, rdropWhile_eq_self_iff]
    intro hall
    rw [getLast_append_of_ne_nil _ (append_ne_nil_of_right_ne_nil _ hlast'), getLast_append_of_ne_nil _ hlast']
    exact rdropWhile_eq_self_iff.mp (toList_of_trim hlast.1).2 hlast'
  refine ⟨?_, fun he => ?_⟩
  · show String.ofList (((first ++ (m ++ last)).toList.dropWhile isWhitespace).rdropWhile isWhitespace) = _
    rw [hstart, hend, String.ofList_toList]
  · rw [he] at hlist
    exact hfirst' (append_eq_nil_iff.mp hlist.symm).1

theorem normalizeClientMutationId_some {id : String} {normalized : Option String}
    (hid : trim id ≠ "")
    (h : normalizeClientMutationId (some id) = .ok normalized) : normalized = some (trim id) := by
  have hempty : (trim id).isEmpty = false := by simpa using hid
  simp only [normalizeClientMutationId, map_some, hempty, Bool.false_eq_true, if_false] at h
  split at h
  · cases h
  · exact (ok.inj h).symm

theorem Invocation.trimmed_id : Trimmed inv.clientMutationId := by
  have h := inv.normalized
  have hne : trim inv.clientMutationId ≠ "" := by
    intro hblank
    have hempty : (trim inv.clientMutationId).isEmpty = true := by simpa using hblank
    simp only [normalizeClientMutationId, map_some, hempty, if_true] at h
    cases h
  have htrim := some.inj (normalizeClientMutationId_some hne h)
  exact ⟨htrim.symm, by rwa [← htrim] at hne⟩

def commandKinds : List String :=
  ["sendMessage", "publishUserEvent", "putObject", "deleteObject", "upsertRecord", "deleteRecord",
    "recordTransaction", "scheduleActorReminder", "requestHostHttp", "publishVolatile"]

theorem trimmed_commandKind (command : BehaviorCommand) : Trimmed command.commandKind := by
  have hall : ∀ kind ∈ commandKinds, trim kind = kind ∧ kind ≠ "" := by decide +kernel
  have hmem : command.commandKind ∈ commandKinds := by
    cases command with
    | _ => simp [BehaviorCommand.commandKind, commandKinds]
  exact hall _ hmem

theorem trimmed_behaviorCommandClientMutationId (commandIndex : Nat) (command : BehaviorCommand) :
    Trimmed (behaviorCommandClientMutationId inv.clientMutationId commandIndex command.commandKind) := by
  have h := trimmed_append (m := ":" ++ (paddedIndex commandIndex ++ ":")) inv.trimmed_id (trimmed_commandKind command)
  rwa [String.append_assoc, String.append_assoc] at h

variable {command : BehaviorCommand} {i j : Nat} {newId : String} {asked asked' : Ask}
    {record : WalRecord}

theorem Invocation.trim_commandId_ne (h : command.Named) (commandIndex : Nat) :
    trim (inv.commandId commandIndex command) ≠ "" := by
  unfold Invocation.commandId
  cases hexplicit : command.explicitId with
  | some id => exact h id hexplicit
  | none =>
    have htrimmed := @trimmed_behaviorCommandClientMutationId inv commandIndex command
    rw [getD_none, htrimmed.1]
    exact htrimmed.2

theorem paddedIndex_inj (h : paddedIndex i = paddedIndex j) : i = j := by
  have hvalue : ∀ n : Nat, Nat.ofDigitChars 10 ((Nat.toDigits 10 n).leftpad 3 '0') 0 = n := by
    intro n
    rw [leftpad, Nat.ofDigitChars_append, Nat.ofDigitChars_replicate_zero, Nat.mul_zero, Nat.ofDigitChars_ten_toDigits]
  rw [← hvalue i, ← hvalue j, String.ofList_injective h]

theorem takeWhile_paddedIndex (commandIndex : Nat) (rest : List Char) :
    ((paddedIndex commandIndex).toList ++ ':' :: rest).takeWhile (· ≠ ':') =
    (paddedIndex commandIndex).toList := by
  rw [takeWhile_append_of_pos]
  · simp
  · intro c hc
    rw [paddedIndex, String.toList_ofList, leftpad, mem_append] at hc
    refine decide_eq_true fun hcolon => ?_
    subst hcolon
    rcases hc with hc | hc
    · exact absurd (eq_of_mem_replicate hc) (by decide)
    · exact absurd (Nat.isDigit_of_mem_toDigits (by decide) (by decide) hc) (by decide)

theorem commandId_inj {id : String} {commandKind commandKind' : String}
    (h : behaviorCommandClientMutationId id i commandKind = behaviorCommandClientMutationId id j commandKind') :
    i = j := by
  have hcolon : ":".toList = [':'] := by decide
  have hlist := congrArg String.toList h
  simp only [behaviorCommandClientMutationId, String.toList_append, hcolon, append_cancel_left_eq] at hlist
  have hindex := congrArg (takeWhile (· ≠ ':')) hlist
  rw [singleton_append, singleton_append, takeWhile_paddedIndex, takeWhile_paddedIndex] at hindex
  exact paddedIndex_inj (String.toList_injective hindex)

theorem askMutation_ok {id : String} {asked : Mutation} {ask : Ask} (hid : trim id ≠ "")
    (h : askMutation id asked = .ok ask) : ask = .mutation (some (trim id)) asked := by
  obtain ⟨normalized, hnormalized, h⟩ := bind_eq_ok.mp h
  rw [normalizeClientMutationId_some hid hnormalized] at h
  exact (ok.inj h).symm

theorem givenOr_of_ne {id : String} (hid : trim id ≠ "") (default : String) :
    givenOr (some id) default = trim id := by
  rw [givenOr, map_some, filter_some, if_pos (decide_eq_true hid), getD_some]

theorem scheduledReminder_ok {key id : String} {acceptedAtMs dueAtMs : Nat} {kind : ActorKind}
    {payload : Option Value} {draft : ActorReminderDraft}
    (hid : trim id ≠ "")
    (h : scheduledReminder lib newId acceptedAtMs kind key (some id) dueAtMs payload = .ok draft) :
    draft = ⟨kind.asStr, trim key, trim id, dueAtMs, payload⟩ := by
  obtain ⟨-, -, h⟩ := bind_eq_ok.mp h
  obtain ⟨-, -, h⟩ := bind_eq_ok.mp h
  obtain ⟨-, -, h⟩ := bind_eq_ok.mp h
  rw [givenOr_of_ne hid] at h
  exact (ok.inj h).symm

/-- What a command asks for is known by the id that the command is executed under. -/
theorem BehaviorCommand.ask_key {userId : Option String} {id : String} {nowMs : Nat}
    (hid : trim id ≠ "") (h : command.ask lib userId id newId nowMs = .ok asked) :
    ∃ key, asked.key = some key ∧ ReplayKey.text key = trim id := by
  have hmutation : ∀ write, askMutation id write = .ok asked → ∃ key, asked.key = some key ∧
      ReplayKey.text key = trim id := by
    intro write hwrite
    rw [askMutation_ok hid hwrite]
    exact ⟨_, rfl, rfl⟩
  cases command with
  | sendMessage roomId body attachments =>
    simp only [BehaviorCommand.ask] at h
    split at h
    · cases h
    · exact hmutation _ h
  | scheduleActorReminder kind key reminderId dueAtMs payload =>
    simp only [BehaviorCommand.ask] at h
    split at h
    · cases h
    · obtain ⟨draft, hdraft, rfl⟩ := map_eq_ok.mp h
      rw [scheduledReminder_ok hid hdraft]
      exact ⟨_, rfl, trim_trim _⟩
  | requestHostHttp command =>
    obtain ⟨request, hrequest, rfl⟩ := map_eq_ok.mp h
    obtain ⟨method, body, -, -, rfl⟩ := parseHostHttpRequest_ok hrequest
    exact ⟨_, rfl, givenOr_of_ne hid newId⟩
  | volatile => cases h
  | _ => exact hmutation _ h

/-- A command asks for the same in all attempts. -/
theorem BehaviorCommand.ask_eq {userId : Option String} {id newId' : String}
    {nowMs nowMs' : Nat} (hid : trim id ≠ "")
    (h : command.ask lib userId id newId nowMs = .ok asked)
    (h' : command.ask lib userId id newId' nowMs' = .ok asked') : asked = asked' := by
  cases command with
  | scheduleActorReminder kind key reminderId dueAtMs payload =>
    simp only [BehaviorCommand.ask] at h h'
    split at h
    · cases h
    · obtain ⟨draft, hdraft, rfl⟩ := map_eq_ok.mp h
      obtain ⟨draft', hdraft', rfl⟩ := map_eq_ok.mp h'
      rw [scheduledReminder_ok hid hdraft, scheduledReminder_ok hid hdraft']
  | requestHostHttp command =>
    obtain ⟨request, hrequest, rfl⟩ := map_eq_ok.mp h
    obtain ⟨request', hrequest', rfl⟩ := map_eq_ok.mp h'
    obtain ⟨method, body, hmethod, hbody, rfl⟩ := parseHostHttpRequest_ok hrequest
    obtain ⟨method', body', hmethod', hbody', rfl⟩ := parseHostHttpRequest_ok hrequest'
    obtain rfl := ok.inj (hmethod.symm.trans hmethod')
    obtain rfl := ok.inj (hbody.symm.trans hbody')
    rw [givenOr_of_ne hid newId, givenOr_of_ne hid newId']
  | _ => exact ok.inj (h.symm.trans h')

theorem Invocation.Asks.key (hown : inv.OwnIds lib) {commandIndex : Nat}
    (h : inv.Asks lib commandIndex asked) :
    ∃ command key, inv.commands[commandIndex]? = some command ∧ asked.key = some key ∧
    ReplayKey.text key = trim (inv.commandId commandIndex command) := by
  obtain ⟨command, newId, nowMs, hcommand, hask⟩ := h
  have hid := inv.trim_commandId_ne (hown.named command (mem_of_getElem? hcommand)) commandIndex
  obtain ⟨key, hkey, htext⟩ := BehaviorCommand.ask_key hid hask
  exact ⟨command, key, hcommand, hkey, htext⟩

theorem Invocation.Asks.eq (hown : inv.OwnIds lib) {commandIndex : Nat}
    (h : inv.Asks lib commandIndex asked)
    (h' : inv.Asks lib commandIndex asked') : asked = asked' := by
  obtain ⟨command, newId, nowMs, hcommand, hask⟩ := h
  obtain ⟨command', newId', nowMs', hcommand', hask'⟩ := h'
  obtain rfl := some.inj (hcommand.symm.trans hcommand')
  have hnamed := hown.named command (mem_of_getElem? hcommand)
  exact BehaviorCommand.ask_eq (inv.trim_commandId_ne hnamed _) hask hask'

theorem Invocation.Asks.index_eq (hown : inv.OwnIds lib) {key : ReplayKey}
    (h : inv.Asks lib i asked)
    (h' : inv.Asks lib j asked') (hkey : asked.key = some key) (hkey' : asked'.key = some key) :
    i = j := by
  by_contra hne
  obtain ⟨command, keyI, hcommand, hkeyI, htext⟩ := h.key hown
  obtain ⟨command', keyJ, hcommand', hkeyJ, htext'⟩ := h'.key hown
  cases hexplicit : command.explicitId with
  | some id => exact hown.distinct i j command _ _ key hcommand (by rw [hexplicit]; rfl) hne h h' hkey hkey'
  | none =>
    cases hexplicit' : command'.explicitId with
    | some id =>
      exact hown.distinct j i command' _ _ key hcommand' (by rw [hexplicit']; rfl) (Ne.symm hne) h' h hkey' hkey
    | none =>
      obtain rfl := some.inj (hkeyI.symm.trans hkey)
      obtain rfl := some.inj (hkeyJ.symm.trans hkey')
      rw [htext, Invocation.commandId, Invocation.commandId,
        hexplicit, hexplicit', getD_none, getD_none, (trimmed_behaviorCommandClientMutationId i command).1,
        (trimmed_behaviorCommandClientMutationId j command').1] at htext'
      exact hne (commandId_inj htext')

/-! ## Records of commands -/

variable (sha256) in
/-- The record is what the command appends. -/
def Ask.Logs (asked : Ask) (record : WalRecord) : Prop :=
  ∃ context, asked.payload sha256 context = .ok (some record.payload)

theorem Ask.Logs.keyOf (h : asked.Logs sha256 record) : ReplayIndex.keyOf record = asked.key := by
  obtain ⟨context, hpayload⟩ := h
  cases asked with
  | mutation clientMutationId asked =>
    obtain ⟨hid, response, hresponse, -⟩ := Mutation.describes_of_payload hpayload
    have hfound : recordFound record = (committedMutationEntryFromWalRecord record).map fun entry =>
        (.mutation entry.1, .mutation entry.2) := by
      unfold recordFound
      unfold committedResponse at hresponse
      cases hrecord : record.payload with
      | actorReminderScheduled | hostHttpRequested =>
        rw [hrecord] at hresponse
        cases hresponse
      | _ => rfl
    rw [ReplayIndex.keyOf, hfound, Ask.key, ← hid, clientMutationIdOf, Option.map_map, Option.map_map]
    rfl
  | reminder | hostHttp =>
    rw [ReplayIndex.keyOf, recordFound, ← some.inj (ok.inj hpayload)]
    rfl

theorem Ask.lookUp_none {indexes : Indexes} (h : asked.lookUp indexes = .ok none) {key : ReplayKey}
    (hkey : asked.key = some key) : indexes.find key = none := by
  cases asked with
  | mutation clientMutationId asked =>
    obtain ⟨id, rfl, rfl⟩ := map_eq_some_iff.mp hkey
    obtain ⟨existing, hexisting, h⟩ := bind_eq_ok.mp h
    cases existing with
    | some existing =>
      obtain ⟨result, -, h⟩ := map_eq_ok.mp h
      cases h
    | none =>
      unfold replay at hexisting
      split at hexisting
      · next hnone => exact congrArg (Option.map Found.mutation) hnone
      · split at hexisting
        · cases hexisting
        · cases hexisting
  | reminder draft =>
    obtain rfl := some.inj hkey
    obtain ⟨existing, hexisting, h⟩ := bind_eq_ok.mp h
    cases existing with
    | some existing =>
      obtain ⟨result, -, h⟩ := map_eq_ok.mp h
      cases h
    | none =>
      unfold existingIdempotentActorReminder at hexisting
      split at hexisting
      · next hnone => exact congrArg (Option.map reminderFound) hnone
      · split at hexisting
        · cases hexisting
        · cases hexisting
  | hostHttp request =>
    obtain rfl := some.inj hkey
    obtain ⟨existing, hexisting, h⟩ := bind_eq_ok.mp h
    cases existing with
    | some existing => cases h
    | none =>
      unfold existingHostHttpRequest at hexisting
      split at hexisting
      · next hnone => exact congrArg (Option.map requestFound) hnone
      · split at hexisting
        · cases hexisting
        · cases hexisting

/-- What is listed of what is known is what the command lists that appended its record. -/
theorem Ask.lookUp_some {asked : Ask} {indexes : Indexes}
    {listed : Option BehaviorCommittedResponse}
    (h : asked.lookUp indexes = .ok (some listed)) :
    ∃ key found, asked.key = some key ∧ indexes.find key = some found ∧
    ∀ record, recordFound record = some (key, found) → asked.Logs sha256 record →
    ∃ acceptedAtMs, asked.listed record acceptedAtMs = .ok listed := by
  cases asked with
  | mutation clientMutationId asked =>
    obtain ⟨existing, hexisting, h⟩ := bind_eq_ok.mp h
    cases existing with
    | none => cases h
    | some existing =>
      obtain ⟨listed', hlisted, h⟩ := map_eq_ok.mp h
      cases h
      obtain ⟨hfound, -⟩ := replay_eq_some hexisting
      obtain ⟨id, rfl, hid⟩ := bind_eq_some_iff.mp hfound
      refine ⟨_, .mutation existing, rfl, congrArg (Option.map Found.mutation) hid, fun record hrecord _ => ⟨0, ?_⟩⟩
      obtain ⟨mutation, hentry, hmutation⟩ := recordFound_mutation.mp hrecord
      obtain rfl := Found.mutation.inj hmutation
      rw [Ask.listed, (committedMutationEntryFromWalRecord_eq_some.mp hentry).2]
      exact hlisted
  | reminder draft =>
    obtain ⟨existing, hexisting, h⟩ := bind_eq_ok.mp h
    cases existing with
    | none => cases h
    | some existing =>
      obtain ⟨listed', hlisted, h⟩ := map_eq_ok.mp h
      cases h
      have hfound : indexes.actorReminders[actorReminderIndexKeyFromDraft draft]? = some existing := by
        unfold existingIdempotentActorReminder at hexisting
        split at hexisting
        · cases hexisting
        · next hsome =>
          split at hexisting
          · rwa [some.inj (ok.inj hexisting)] at hsome
          · cases hexisting
      refine ⟨_, _, rfl, congrArg (Option.map reminderFound) hfound, fun record hrecord hlogs =>
        ⟨existing.scheduledAtMs, ?_⟩⟩
      obtain ⟨reminder, hpayload, -, heq⟩ := recordFound_reminder.mp hrecord
      obtain ⟨context, hown⟩ := hlogs
      have hdraft : draft = reminder := by
        have heq := (some.inj (ok.inj hown)).trans hpayload
        cases heq
        rfl
      have hexist := Found.reminder.inj heq
      rw [Ask.listed, hdraft, ← hexist.1, ← hexist.2.1]
      exact hlisted
  | hostHttp request =>
    obtain ⟨existing, hexisting, h⟩ := bind_eq_ok.mp h
    cases existing with
    | none => cases h
    | some existing =>
      have hlisted := some.inj (ok.inj h)
      have hfound : indexes.hostHttpRequests[request.requestId]? = some existing := by
        unfold existingHostHttpRequest at hexisting
        split at hexisting
        · cases hexisting
        · next hsome =>
          split at hexisting
          · rwa [some.inj (ok.inj hexisting)] at hsome
          · cases hexisting
      refine ⟨_, _, rfl, congrArg (Option.map requestFound) hfound, fun record hrecord hlogs =>
        ⟨existing.request.requestedAtMs, ?_⟩⟩
      obtain ⟨draft, hpayload, -, heq⟩ := recordFound_hostHttp.mp hrecord
      obtain ⟨context, hown⟩ := hlogs
      have hdraft : request.toDraft context.nowMs = draft := by
        have heq := (some.inj (ok.inj hown)).trans hpayload
        cases heq
        rfl
      have hexist := Found.hostHttp.inj heq
      rw [← hlisted, hexist.1, ← hdraft, hexist.2]
      rfl

/-! ## Attempts -/

/-- What an attempt does next for its command. -/
inductive Phase where
  /-- The next command is to be executed, if there is one. -/
  | ready
  /-- Nothing is known under the id of the command. -/
  | absent (asked : Ask)
  | appended (asked : Ask) (record : WalRecord)
  | noted (asked : Ask) (record : WalRecord)
  | succeeded
  | failed

/-- An execution of the commands, with what it lists of those that it is done with. -/
structure Attempt where
  phase : Phase
  committed : List (Option BehaviorCommittedResponse)

/-- The log, the indexes by mutation id, and the attempts at the invocation. -/
structure ServerState where
  wal : List WalRecord
  indexes : Indexes
  attempts : List Attempt

def Attempt.list (self : Attempt) : Except ApiError (Option BehaviorCommittedResponse) → Attempt
  | .error _ => { self with phase := .failed }
  | .ok listed => ⟨.ready, self.committed ++ [listed]⟩

def Attempt.afterLookUp (self : Attempt) (asked : Ask) :
    Except ApiError (Option (Option BehaviorCommittedResponse)) → Attempt
  | .error _ => { self with phase := .failed }
  | .ok none => { self with phase := .absent asked }
  | .ok (some listed) => self.list (.ok listed)

/-- A crash ends it. -/
def Attempt.stop (self : Attempt) : Attempt :=
  match self.phase with
  | .succeeded => self
  | _ => { self with phase := .failed }

def ServerState.setAttempt (self : ServerState) (i : Nat) (attempt : Attempt) : ServerState :=
  { self with attempts := self.attempts.set i attempt }

/-- The steps of an attempt, and a restart. -/
inductive RetryEvent where
  | invoke
  | lookUp (i : Nat) (newId : String) (nowMs : Nat)
  | append (i : Nat) (context : CommitContext) (record : WalRecord) (acked : Bool)
  | answerUnrecorded (i : Nat) (context : CommitContext)
  | note (i : Nat)
  | finish (i : Nat) (nowMs : Nat)
  | succeed (i : Nat)
  | fail (i : Nat)
  | other (record : WalRecord) (noted : Bool)
  | restart (records : List WalRecord)

variable (lib sha256 inv) in
/-- The attempts at an invocation take their steps in any order, and so do all other writers. An
append may be answered with an error although its record is written, and an attempt may fail
anywhere. A restart reads the log, or what is left of it. -/
inductive RetryStep : ServerState → RetryEvent → ServerState → Prop
  | invoke {s : ServerState} : RetryStep s .invoke { s with attempts := s.attempts ++ [⟨.ready,
    []⟩] }
  | lookUp {s : ServerState} {i} {attempt : Attempt} {command newId nowMs}
      {asked : Ask} (hi : s.attempts[i]? = some attempt) (hphase : attempt.phase = .ready)
      (hcommand : inv.commands[attempt.committed.length]? = some command)
      (hask : command.ask lib inv.userId (inv.commandId attempt.committed.length command) newId nowMs = .ok asked) :
      RetryStep s (.lookUp i newId nowMs) (s.setAttempt i (attempt.afterLookUp asked (asked.lookUp s.indexes)))
  | append {s : ServerState} {i attempt asked context record acked}
      (hi : s.attempts[i]? = some attempt) (hphase : attempt.phase = .absent asked)
      (hpayload : asked.payload sha256 context = .ok (some record.payload)) :
      RetryStep s (.append i context record acked)
        { s.setAttempt i { attempt with phase := if acked then .appended asked record else .failed } with
          wal := s.wal ++ [record] }
  | answerUnrecorded {s : ServerState} {i} {attempt : Attempt} {asked : Ask} {context}
      (hi : s.attempts[i]? = some attempt) (hphase : attempt.phase = .absent asked)
      (hpayload : asked.payload sha256 context = .ok none) :
      RetryStep s (.answerUnrecorded i context) (s.setAttempt i (attempt.list asked.listedUnrecorded))
  | note {s : ServerState} {i attempt asked record}
      (hi : s.attempts[i]? = some attempt) (hphase : attempt.phase = .appended asked record) :
      RetryStep s (.note i)
        { s.setAttempt i { attempt with phase := .noted asked record } with indexes := s.indexes.note record }
  | finish {s : ServerState} {i} {attempt : Attempt} {asked : Ask} {record nowMs}
      (hi : s.attempts[i]? = some attempt) (hphase : attempt.phase = .noted asked record) :
      RetryStep s (.finish i nowMs) (s.setAttempt i (attempt.list (asked.listed record nowMs)))
  | succeed {s : ServerState} {i attempt} (hi : s.attempts[i]? = some attempt)
      (hphase : attempt.phase = .ready) (hdone : attempt.committed.length = inv.commands.length) :
      RetryStep s (.succeed i) (s.setAttempt i { attempt with phase := .succeeded })
  | fail {s : ServerState} {i attempt} (hi : s.attempts[i]? = some attempt)
      (hphase : attempt.phase ≠ .succeeded) :
      RetryStep s (.fail i) (s.setAttempt i { attempt with phase := .failed })
  | other {s : ServerState} {record noted} :
      RetryStep s (.other record noted)
        { s with
          wal := s.wal ++ [record]
          indexes := if noted then s.indexes.note record else s.indexes }
  | restart {s : ServerState} {records} (hrecords : ∀ record ∈ records, record ∈ s.wal) :
      RetryStep s (.restart records)
        { s with
          indexes := .ofRecords records
          attempts := s.attempts.map Attempt.stop }

variable (lib inv) in
/-- An id that a command of the invocation is known by. -/
def Invocation.Uses (key : ReplayKey) : Prop :=
  ∃ commandIndex asked, inv.Asks lib commandIndex asked ∧ asked.key = some key

variable (lib inv) in
/-- A command is looked up while each record under its id is known, and while no other attempt
is between its lookup and its append. Nobody else uses the ids. -/
def Alone (s : ServerState) : RetryEvent → Prop
  | .lookUp i _ _ => ∀ attempt asked key, s.attempts[i]? = some attempt →
    inv.Asks lib attempt.committed.length asked → asked.key = some key →
    (∀ record ∈ s.wal, keyOf record = some key → (s.indexes.find key).isSome) ∧
      ∀ other ∈ s.attempts, ∀ asked', other.phase = .absent asked' → asked'.key ≠ some key
  | .other record _ => ∀ key, inv.Uses lib key → keyOf record ≠ some key
  | _ => True

variable (lib inv) in
/-- A server before the first attempt: no record of the log is under an id of the invocation. -/
structure Fresh (s : ServerState) : Prop where
  wal : ∀ record ∈ s.wal, ∀ key, inv.Uses lib key → keyOf record ≠ some key
  indexes : s.indexes = .ofRecords s.wal
  attempts : s.attempts = []

/-! ## What an attempt lists -/

variable (lib inv) in
/-- The commands that the attempt has listed were committed as the invocation asks. -/
structure AttemptOk (wal : List WalRecord) (attempt : Attempt) : Prop where
  absent : ∀ asked, attempt.phase = .absent asked → inv.Asks lib attempt.committed.length asked
  recorded : ∀ asked record, attempt.phase = .appended asked record ∨ attempt.phase = .noted asked record →
    inv.Asks lib attempt.committed.length asked ∧ record ∈ wal ∧ keyOf record = asked.key
  listed : ∀ (k : Nat) listed, attempt.committed[k]? = some listed → ∃ asked record acceptedAtMs,
    inv.Asks lib k asked ∧ record ∈ wal ∧ keyOf record = asked.key ∧ asked.listed record acceptedAtMs = .ok listed
  succeeded : attempt.phase = .succeeded → attempt.committed.length = inv.commands.length

variable (lib sha256 inv) in
/-- Under the id of a command there is at most one record, and it is what the command appends. -/
structure Inv (s : ServerState) : Prop where
  /-- What is known is in the log. -/
  sound : ∀ key found, s.indexes.find key = some found → ∃ record ∈ s.wal, recordFound record = some (key, found)
  /-- A record under the id of a command is what the command appends. -/
  logged : ∀ record ∈ s.wal, ∀ commandIndex asked key, inv.Asks lib commandIndex asked → asked.key = some key →
    keyOf record = some key → asked.Logs sha256 record
  once : ∀ key, inv.Uses lib key → (s.wal.filter (keyOf · = some key)).length ≤ 1
  absent : ∀ attempt ∈ s.attempts, ∀ asked key, attempt.phase = .absent asked → asked.key = some key →
    ∀ record ∈ s.wal, keyOf record ≠ some key
  apart : ∀ (i j : Nat) attempt other asked asked' key, i ≠ j → s.attempts[i]? = some attempt →
    s.attempts[j]? = some other → attempt.phase = .absent asked → other.phase = .absent asked' →
    asked.key = some key → asked'.key ≠ some key
  attempts : ∀ attempt ∈ s.attempts, AttemptOk lib inv s.wal attempt

variable {s t : ServerState} {attempt : Attempt}

theorem AttemptOk.mono {wal wal' : List WalRecord} (h : AttemptOk lib inv wal attempt)
    (hwal : ∀ record ∈ wal, record ∈ wal') : AttemptOk lib inv wal' attempt where
  absent := h.absent
  recorded asked record hphase := by
    obtain ⟨hasks, hmem, hkey⟩ := h.recorded asked record hphase
    exact ⟨hasks, hwal record hmem, hkey⟩
  listed k listed hk := by
    obtain ⟨asked, record, acceptedAtMs, hasks, hmem, hrest⟩ := h.listed k listed hk
    exact ⟨asked, record, acceptedAtMs, hasks, hwal record hmem, hrest⟩
  succeeded := h.succeeded

theorem AttemptOk.failed {wal : List WalRecord} {attempt : Attempt}
    (h : AttemptOk lib inv wal attempt) :
    AttemptOk lib inv wal { attempt with phase := .failed } where
  absent := fun _ h => nomatch h
  recorded := fun _ _ hphase => hphase.elim (fun h => nomatch h) (fun h => nomatch h)
  listed := h.listed
  succeeded := fun h => nomatch h

theorem AttemptOk.stop {wal : List WalRecord} {attempt : Attempt}
    (h : AttemptOk lib inv wal attempt) :
    AttemptOk lib inv wal attempt.stop := by
  unfold Attempt.stop
  split
  · exact h
  · exact h.failed

/-- A command that is answered is listed after those before it. -/
theorem AttemptOk.list {wal : List WalRecord} {attempt : Attempt}
    (h : AttemptOk lib inv wal attempt)
    {asked : Ask} {record : WalRecord} {acceptedAtMs : Nat}
    {listed : Option BehaviorCommittedResponse}
    (hasks : inv.Asks lib attempt.committed.length asked) (hmem : record ∈ wal)
    (hkey : keyOf record = asked.key)
    (hlisted : asked.listed record acceptedAtMs = .ok listed) :
    AttemptOk lib inv wal (attempt.list (.ok listed)) where
  absent := fun _ h => nomatch h
  recorded := fun _ _ hphase => hphase.elim (fun h => nomatch h) (fun h => nomatch h)
  listed k listed' hk := by
    rcases getElem?_push_cases hk with hk | ⟨rfl, rfl⟩
    · exact h.listed k listed' hk
    · exact ⟨asked, record, acceptedAtMs, hasks, hmem, hkey, hlisted⟩
  succeeded := fun h => nomatch h

section
variable (h : Inv lib sha256 inv s)
include h

theorem Inv.setAttempt (hok : AttemptOk lib inv s.wal attempt)
    (habsent : ∀ asked key, attempt.phase = .absent asked →
    asked.key = some key → (∀ record ∈ s.wal, keyOf record ≠ some key) ∧ ∀ other ∈ s.attempts,
      ∀ asked',
    other.phase = .absent asked' → asked'.key ≠ some key) :
    Inv lib sha256 inv (s.setAttempt i attempt) := by
  refine ⟨h.sound, h.logged, h.once, ?_, ?_, forall_mem_set h.attempts hok⟩
  · refine forall_mem_set h.absent fun asked key hphase hkey => ?_
    exact (habsent asked key hphase hkey).1
  · intro j k left right asked asked' key hne hj hk hphase hphase' hkey
    rcases getElem?_set_cases hj with ⟨rfl, rfl⟩ | ⟨-, hold⟩
    · rcases getElem?_set_cases hk with ⟨rfl, -⟩ | ⟨-, hold⟩
      · exact absurd rfl hne
      · exact (habsent asked key hphase hkey).2 right (mem_of_getElem? hold) asked' hphase'
    · rcases getElem?_set_cases hk with ⟨rfl, rfl⟩ | ⟨-, hold'⟩
      · intro hkey'
        exact (habsent asked' key hphase' hkey').2 left (mem_of_getElem? hold) asked hphase hkey
      · exact h.apart j k left right asked asked' key hne hold hold' hphase hphase' hkey

theorem Inv.setAttempt_of_ne (hok : AttemptOk lib inv s.wal attempt)
    (hne : ∀ asked, attempt.phase ≠ .absent asked) :
    Inv lib sha256 inv (s.setAttempt i attempt) :=
  h.setAttempt hok fun asked _ hphase => absurd hphase (hne asked)

theorem Inv.note {record : WalRecord} (hmem : record ∈ s.wal) :
    Inv lib sha256 inv { s with indexes := s.indexes.note record } := by
  refine ⟨fun key found hfind => ?_, h.logged, h.once, h.absent, h.apart, h.attempts⟩
  have hfind : (s.indexes.note record).find key = some found := hfind
  rw [find_note] at hfind
  cases htells : tellsFound key record with
  | none =>
    rw [htells] at hfind
    exact h.sound key found hfind
  | some left =>
    rw [htells] at hfind
    obtain ⟨found', hfound, hleft⟩ := tellsFound_eq_some.mp htells
    cases hleft.symm.trans hfind
    exact ⟨record, hmem, hfound⟩

/-- A record is appended under an id that no record has and no other attempt appends under. -/
theorem Inv.push (hlogs : ∀ commandIndex asked key,
    inv.Asks lib commandIndex asked → asked.key = some key → keyOf record = some key →
      asked.Logs sha256 record)
    (hnew : ∀ key, inv.Uses lib key → keyOf record = some key → ∀ r ∈ s.wal, keyOf r ≠ some key)
    (hothers : ∀ attempt ∈ s.attempts, ∀ asked key, attempt.phase = .absent asked →
      asked.key = some key →
    keyOf record ≠ some key) : Inv lib sha256 inv { s with wal := s.wal ++ [record] } := by
  have hsub : ∀ r ∈ s.wal, r ∈ s.wal ++ [record] := fun r hr => mem_append_left _ hr
  refine ⟨fun key found hfind => ?_,
    fun r hr => ?_, fun key huses => ?_, fun attempt hattempt asked key hphase hkey r hr => ?_, h.apart,
    fun attempt hattempt => (h.attempts attempt hattempt).mono hsub⟩
  · obtain ⟨r, hr, hfound⟩ := h.sound key found hfind
    exact ⟨r, hsub r hr, hfound⟩
  · rcases mem_append.mp hr with hr | hr
    · exact h.logged r hr
    · rw [mem_singleton.mp hr]
      exact hlogs
  · show ((s.wal ++ [record]).filter (keyOf · = some key)).length ≤ 1
    rw [filter_append, length_append]
    by_cases hkey : keyOf record = some key
    · have hnone : s.wal.filter (keyOf · = some key) = [] :=
        filter_eq_nil_iff.mpr fun r hr => by simpa using hnew key huses hkey r hr
      rw [hnone]
      simp [hkey]
    · have hone := h.once key huses
      simpa [hkey] using hone
  · rcases mem_append.mp hr with hr | hr
    · exact h.absent attempt hattempt asked key hphase hkey r hr
    · rw [mem_singleton.mp hr]
      exact hothers attempt hattempt asked key hphase hkey

theorem Inv.restart {records : List WalRecord} (hrecords : ∀ record ∈ records, record ∈ s.wal) :
    Inv lib sha256 inv { s with indexes := .ofRecords records, attempts := s.attempts.map Attempt.stop } := by
  have hstop : ∀ (attempt : Attempt) asked, attempt.stop.phase ≠ .absent asked := by
    intro attempt asked
    unfold Attempt.stop
    split
    · next hphase => exact fun h => (by cases hphase.symm.trans h)
    · exact fun h => nomatch h
  have hno : ∀ attempt ∈ s.attempts.map Attempt.stop, ∀ asked, attempt.phase ≠ .absent asked := by
    intro attempt hattempt asked
    obtain ⟨old, -, rfl⟩ := mem_map.mp hattempt
    exact hstop old asked
  refine ⟨fun key found hfind => ?_, h.logged, h.once, fun attempt hattempt asked key hphase => ?_,
    fun i j attempt other asked asked' key _ hi _ hphase => ?_, fun attempt hattempt => ?_⟩
  · obtain ⟨record, hrecord, hfound⟩ := find_ofRecords_some hfind
    exact ⟨record, hrecords record hrecord, hfound⟩
  · exact absurd hphase (hno attempt hattempt asked)
  · exact absurd hphase (hno attempt (mem_of_getElem? hi) asked)
  · obtain ⟨old, hold, rfl⟩ := mem_map.mp hattempt
    exact (h.attempts old hold).stop

theorem Inv.invoke : Inv lib sha256 inv { s with attempts := s.attempts ++ [⟨.ready, []⟩] } := by
  have hcases : ∀ attempt ∈ s.attempts ++ [⟨.ready, []⟩], attempt ∈ s.attempts ∨ attempt = ⟨.ready, []⟩ := by
    intro attempt hattempt
    exact (mem_append.mp hattempt).imp_right mem_singleton.mp
  refine ⟨h.sound, h.logged, h.once, fun attempt hattempt => ?_,
    fun i j attempt other asked asked' key hne hi hj hphase => ?_, fun attempt hattempt => ?_⟩
  · rcases hcases attempt hattempt with hold | rfl
    · exact h.absent attempt hold
    · exact fun _ _ h => nomatch h
  · rcases getElem?_push_cases hi with hold | ⟨-, rfl⟩
    · rcases getElem?_push_cases hj with hold' | ⟨-, rfl⟩
      · exact h.apart i j attempt other asked asked' key hne hold hold' hphase
      · exact fun h => nomatch h
    · cases hphase
  · rcases hcases attempt hattempt with hold | rfl
    · exact h.attempts attempt hold
    · refine ⟨(fun _ h => nomatch h), fun _ _ hphase => ?_, (fun _ _ h => nomatch h), fun h => nomatch h⟩
      exact hphase.elim (fun h => nomatch h) (fun h => nomatch h)

end

theorem Inv.append (hown : inv.OwnIds lib) (h : Inv lib sha256 inv s)
    {i : Nat} {attempt : Attempt} {asked : Ask} {record : WalRecord} (acked : Bool)
    (hi : s.attempts[i]? = some attempt)
    (hphase : attempt.phase = .absent asked) (hlogs : asked.Logs sha256 record) :
    Inv lib sha256 inv { s.setAttempt i
    { attempt with phase := if acked then .appended asked record else .failed } with wal := s.wal ++ [record] } := by
  have hmem := mem_of_getElem? hi
  have hok := h.attempts attempt hmem
  have hasks := hok.absent asked hphase
  have hfailed : Inv lib sha256 inv (s.setAttempt i { attempt with phase := .failed }) :=
    h.setAttempt_of_ne hok.failed (fun _ h => nomatch h)
  have hpushed :
      Inv lib sha256 inv { s.setAttempt i { attempt with phase := .failed } with wal := s.wal ++ [record] } := by
    refine hfailed.push (fun k asked' key hasks' hkey' hrecord => ?_) (fun key _ hrecord => ?_)
      fun other hother asked' key hphase' hkey' hrecord => ?_
    · have hkey := hlogs.keyOf.symm.trans hrecord
      obtain rfl := hasks.index_eq hown hasks' hkey hkey'
      obtain rfl := hasks.eq hown hasks'
      exact hlogs
    · exact h.absent attempt hmem asked key hphase (hlogs.keyOf.symm.trans hrecord)
    · obtain ⟨j, hj⟩ := mem_iff_getElem?.mp hother
      rcases getElem?_set_cases hj with ⟨-, rfl⟩ | ⟨hne, hold⟩
      · cases hphase'
      · exact h.apart i j attempt other asked asked' key (Ne.symm hne) hi hold hphase hphase'
          (hlogs.keyOf.symm.trans hrecord) hkey'
  cases acked with
  | false => exact hpushed
  | true =>
    have hok' : AttemptOk lib inv (s.wal ++ [record]) { attempt with phase := .appended asked record } := by
      refine ⟨(fun _ h => nomatch h), fun asked' record' hphase' => ?_,
        (hok.mono fun r hr => mem_append_left _ hr).listed, fun h => nomatch h⟩
      rcases hphase' with hphase' | hphase'
      · cases hphase'
        exact ⟨hasks, by simp, hlogs.keyOf⟩
      · cases hphase'
    have hset := hpushed.setAttempt_of_ne (i := i) hok' (fun _ h => nomatch h)
    simpa only [ServerState.setAttempt, set_set, if_true] using hset

/-- What follows the append of the record. -/
theorem Inv.noted (h : Inv lib sha256 inv s)
    (hi : s.attempts[i]? = some attempt) (hphase : attempt.phase = .appended asked record) :
    Inv lib sha256 inv
    { s.setAttempt i { attempt with phase := .noted asked record } with indexes := s.indexes.note record } := by
  have hok := h.attempts attempt (mem_of_getElem? hi)
  have hrecorded := hok.recorded asked record (.inl hphase)
  have hok' : AttemptOk lib inv s.wal { attempt with phase := .noted asked record } := by
    refine ⟨(fun _ h => nomatch h), fun asked' record' hphase' => ?_, hok.listed, fun h => nomatch h⟩
    rcases hphase' with hphase' | hphase'
    · cases hphase'
    · cases hphase'
      exact hrecorded
  have hset : Inv lib sha256 inv (s.setAttempt i { attempt with phase := .noted asked record }) :=
    h.setAttempt_of_ne hok' (fun _ h => nomatch h)
  exact hset.note hrecorded.2.1

theorem Inv.step (hown : inv.OwnIds lib) (h : Inv lib sha256 inv s) {e : RetryEvent}
    (halone : Alone lib inv s e)
    (hstep : RetryStep lib sha256 inv s e t) : Inv lib sha256 inv t := by
  cases hstep with
  | invoke => exact h.invoke
  | @lookUp i attempt command newId nowMs asked hi hphase hcommand hask =>
    have hok := h.attempts attempt (mem_of_getElem? hi)
    have hasks : inv.Asks lib attempt.committed.length asked := ⟨command, newId, nowMs, hcommand, hask⟩
    unfold Attempt.afterLookUp
    split
    · exact h.setAttempt_of_ne hok.failed (fun _ h => nomatch h)
    · next hnone =>
      have hok' : AttemptOk lib inv s.wal { attempt with phase := .absent asked } := by
        refine ⟨fun asked' hphase' => ?_, fun _ _ hphase' => ?_, hok.listed, fun h => nomatch h⟩
        · cases hphase'
          exact hasks
        · exact hphase'.elim (fun h => nomatch h) (fun h => nomatch h)
      refine h.setAttempt hok' fun asked' key hphase' hkey => ?_
      cases hphase'
      obtain ⟨hknown, hothers⟩ := halone attempt asked key hi hasks hkey
      refine ⟨fun record hrecord hrecordKey => ?_, hothers⟩
      have hsome := hknown record hrecord hrecordKey
      rw [Ask.lookUp_none hnone hkey] at hsome
      cases hsome
    · next listed hsome =>
      obtain ⟨key, found, hkey, hfind, hlisted⟩ := @Ask.lookUp_some sha256 _ _ _ hsome
      obtain ⟨record, hrecord, hfound⟩ := h.sound key found hfind
      have hrecordKey : keyOf record = some key := by rw [keyOf, hfound]; rfl
      obtain ⟨acceptedAtMs, hlisted⟩ :=
        hlisted record hfound (h.logged record hrecord _ asked key hasks hkey hrecordKey)
      exact h.setAttempt_of_ne (hok.list hasks hrecord (hrecordKey.trans hkey.symm) hlisted) (fun _ h => nomatch h)
  | @append i attempt asked context record acked hi hphase hpayload =>
    exact h.append hown acked hi hphase ⟨context, hpayload⟩
  | @answerUnrecorded i attempt asked context hi hphase hpayload =>
    have hasks := (h.attempts attempt (mem_of_getElem? hi)).absent asked hphase
    obtain ⟨-, key, -, hkey, -⟩ := hasks.key hown
    cases asked with
    | mutation clientMutationId asked =>
      obtain ⟨id, rfl, -⟩ := map_eq_some_iff.mp hkey
      exact absurd hpayload Mutation.payload_ne_none
    | reminder | hostHttp => cases hpayload
  | note hi hphase => exact h.noted hi hphase
  | @finish i attempt asked record nowMs hi hphase =>
    have hok := h.attempts attempt (mem_of_getElem? hi)
    obtain ⟨hasks, hmem, hkey⟩ := hok.recorded asked record (.inr hphase)
    cases hlisted : asked.listed record nowMs with
    | error err => exact h.setAttempt_of_ne hok.failed (fun _ h => nomatch h)
    | ok listed => exact h.setAttempt_of_ne (hok.list hasks hmem hkey hlisted) (fun _ h => nomatch h)
  | @succeed i attempt hi hphase hdone =>
    have hok := h.attempts attempt (mem_of_getElem? hi)
    refine h.setAttempt_of_ne ⟨(fun _ h => nomatch h), fun _ _ hphase' => ?_, hok.listed,
      fun _ => hdone⟩ (fun _ h => nomatch h)
    exact hphase'.elim (fun h => nomatch h) (fun h => nomatch h)
  | @fail i attempt hi hphase =>
    exact h.setAttempt_of_ne (h.attempts attempt (mem_of_getElem? hi)).failed (fun _ h => nomatch h)
  | @other record noted =>
    have hpushed : Inv lib sha256 inv { s with wal := s.wal ++ [record] } := by
      refine h.push (fun k asked key hasks hkey hrecord => ?_) (fun key huses hrecord => ?_)
        fun attempt hattempt asked key hphase hkey hrecord => ?_
      · exact absurd hrecord (halone key ⟨k, asked, hasks, hkey⟩)
      · exact absurd hrecord (halone key huses)
      · have hasks := (h.attempts attempt hattempt).absent asked hphase
        exact halone key ⟨_, asked, hasks, hkey⟩ hrecord
    cases noted with
    | false => exact hpushed
    | true => exact hpushed.note (mem_append_right _ (mem_singleton_self record))
  | restart hrecords => exact h.restart hrecords

theorem Fresh.initial (h : Fresh lib inv s) : Inv lib sha256 inv s := by
  refine ⟨fun key found hfind => ?_, fun record hrecord k asked key hasks hkey hrecordKey => ?_, fun key huses => ?_,
    fun attempt hattempt => ?_, fun i j attempt other asked asked' key _ hi => ?_, fun attempt hattempt => ?_⟩
  · rw [h.indexes] at hfind
    exact find_ofRecords_some hfind
  · exact absurd hrecordKey (h.wal record hrecord key ⟨k, asked, hasks, hkey⟩)
  · have hnone : s.wal.filter (keyOf · = some key) = [] :=
      filter_eq_nil_iff.mpr fun record hrecord => by simpa using h.wal record hrecord key huses
    rw [hnone]
    exact Nat.zero_le _
  · rw [h.attempts] at hattempt
    cases hattempt
  · rw [h.attempts] at hi
    cases hi
  · rw [h.attempts] at hattempt
    cases hattempt

/-- An attempt that succeeds lists, for each command, what the command lists that appends its
record; the time aside, at which it was accepted. The log has one record under the id of each
command, and it is what the command appends. -/
theorem behavior_retry_exactly_once (hown : inv.OwnIds lib)
    (hs : Fresh lib inv s) (hrun : Reaches (RetryStep lib sha256 inv) (Alone lib inv) s t)
    {attempt : Attempt} (hattempt : attempt ∈ t.attempts)
    (hsucceeded : attempt.phase = .succeeded) :
    attempt.committed.length = inv.commands.length ∧ ∀ k < inv.commands.length,
    ∃ asked key record acceptedAtMs listed,
    inv.Asks lib k asked ∧ asked.key = some key ∧ t.wal.filter (keyOf · = some key) = [record] ∧
    asked.Logs sha256 record ∧ attempt.committed[k]? = some listed ∧
    asked.listed record acceptedAtMs = .ok listed := by
  have ht : Inv lib sha256 inv t := hrun.invariant (fun _ _ _ h halone hstep => h.step hown halone hstep) hs.initial
  have hok := ht.attempts attempt hattempt
  have hlength := hok.succeeded hsucceeded
  refine ⟨hlength, fun k hk => ?_⟩
  obtain ⟨listed, hlisted⟩ : ∃ listed, attempt.committed[k]? = some listed :=
    ⟨_, getElem?_eq_getElem (by omega)⟩
  obtain ⟨asked, record, acceptedAtMs, hasks, hmem, hrecordKey, hanswer⟩ := hok.listed k listed hlisted
  obtain ⟨-, key, -, hkey, -⟩ := hasks.key hown
  rw [hkey] at hrecordKey
  have hfiltered : record ∈ t.wal.filter (keyOf · = some key) :=
    mem_filter.mpr ⟨hmem, decide_eq_true hrecordKey⟩
  obtain ⟨only, honly⟩ :=
    length_eq_one_iff.mp (Nat.le_antisymm (ht.once key ⟨k, asked, hasks, hkey⟩) (length_pos_of_mem hfiltered))
  rw [honly] at hfiltered
  obtain rfl := mem_singleton.mp hfiltered
  exact ⟨asked, key, record, acceptedAtMs, listed, hasks, hkey, honly,
    ht.logged record hmem k asked key hasks hkey hrecordKey, hlisted, hanswer⟩

section Sample

def noHttp : HttpLibraries where
  continuationFromValue _ := .error ""
  headerName _ := .ok ()
  headerValue _ := .ok ()
  jsonLen _ := 0
  base64Len _ := .ok 0

def hello : BehaviorCommand := .sendMessage "general" "hello" []

/-- Alice invokes a behavior that sends a message. -/
def greeting : Invocation where
  clientMutationId := "m"
  userId := some "alice"
  commands := [hello]
  normalized := rfl
  short := by decide
  replaySafe := fun command hmem => by
    rw [List.mem_singleton.mp hmem]
    exact fun h => nomatch h

def askedHello : Ask :=
  .mutation (some "m:000:sendMessage") (.sendMessage "general" "alice" "hello" [])

theorem hello_ask : hello.ask noHttp greeting.userId (greeting.commandId 0 hello) "" 0 =
    .ok askedHello := rfl

theorem greeting_ownIds : greeting.OwnIds noHttp where
  named command hmem := by
    rw [mem_singleton.mp hmem]
    exact fun _ h => nomatch h
  distinct i j command asked asked' key hcommand hexplicit := by
    rw [mem_singleton.mp (mem_of_getElem? hcommand)] at hexplicit
    cases hexplicit

def helloRecord (lsn : Nat) : WalRecord where
  lsn := lsn
  shard := 0
  shardEpoch := 1
  ownerNodeId := "n"
  timestampMs := 0
  schemaVersion := 1
  durability := .strict
  payload := .messageCreated
    ⟨"1", some "m:000:sendMessage", "general", "alice", "hello", [], 0, "rooms/general/messages/1"⟩
  checksum := none

def helloMessage (lsn : Nat) : BehaviorCommittedResponse :=
  .messageCreated ⟨"1", "general", "alice", "hello", [], 0, lsn, "rooms/general/messages/1"⟩

def helloContext : CommitContext := ⟨"1", 0, fun _ => none, fun _ _ => false, none⟩

theorem hello_payload (lsn : Nat) :
    askedHello.payload (fun _ => []) helloContext = .ok (some (helloRecord lsn).payload) := rfl

theorem hello_key (lsn : Nat) : keyOf (helloRecord lsn) = askedHello.key := rfl

def serving (wal : List WalRecord) (indexes : Indexes) (attempts : List Attempt) : ServerState :=
  ⟨wal, indexes, attempts⟩

def started : ServerState := serving [] (.ofRecords []) []

theorem started_fresh : Fresh noHttp greeting started :=
  ⟨(fun _ h => nomatch h), rfl, rfl⟩

theorem lookUp_started : askedHello.lookUp (.ofRecords []) = .ok none := rfl

theorem hello_lookUp {s : ServerState}
    {result : Except ApiError (Option (Option BehaviorCommittedResponse))}
    (hi : s.attempts[i]? = some ⟨.ready, []⟩) (hresult : askedHello.lookUp s.indexes = result) :
    RetryStep noHttp (fun _ => []) greeting s (.lookUp i "" 0)
    (s.setAttempt i (Attempt.afterLookUp ⟨.ready, []⟩ askedHello result)) := by
  rw [← hresult]
  exact .lookUp hi rfl rfl hello_ask

theorem hello_append {s : ServerState}
    (lsn : Nat) (acked : Bool) (hi : s.attempts[i]? = some ⟨.absent askedHello, []⟩) :
    RetryStep noHttp (fun _ => []) greeting s (.append i helloContext (helloRecord lsn) acked) { s.setAttempt i
    ⟨if acked then .appended askedHello (helloRecord lsn) else .failed,
    []⟩ with wal := s.wal ++ [helloRecord lsn] } :=
  .append hi rfl (hello_payload lsn)

theorem lookUp_found :
    askedHello.lookUp (.ofRecords [helloRecord 1]) = .ok (some (some (helloMessage 1))) := by
  have hfound : (clientMutationIndexFromWalRecords [helloRecord 1])["m:000:sendMessage"]? =
      some (.messageCreated ⟨"1", "general", "alice", "hello", [], 0, 1, "rooms/general/messages/1"⟩) :=
    @noteCommittedMutationRecord_self ∅ (helloRecord 1) _ _ rfl
  simp only [askedHello, Ask.lookUp, findCommittedMutation, bind_some, Indexes.ofRecords, hfound]
  rfl

/-- The server crashes once the record of the first attempt is written. -/
def answered : ServerState :=
  serving [helloRecord 1] (.ofRecords [helloRecord 1]) [⟨.failed, []⟩, ⟨.succeeded, [some (helloMessage 1)]⟩]

theorem reaches_answered :
    Reaches (RetryStep noHttp (fun _ => []) greeting) (Alone noHttp greeting) started answered := by
  have h₀ : Reaches (RetryStep noHttp (fun _ => []) greeting) (Alone noHttp greeting) started started :=
    Reaches.refl started
  have hinvoked := h₀.take .invoke trivial
  have hlooked := hinvoked.take (hello_lookUp (i := 0) rfl lookUp_started) (by
    refine fun attempt asked key _ _ _ => ⟨(fun _ h => nomatch h), fun other hother asked' hphase => ?_⟩
    rw [mem_singleton.mp hother] at hphase
    cases hphase)
  have happended := hlooked.take (hello_append (i := 0) 1 true rfl) trivial
  have hrestarted :=
      happended.take (e := RetryEvent.restart [helloRecord 1]) (.restart fun record hrecord => hrecord) trivial
  have hagain := hrestarted.take .invoke trivial
  have hfound := hagain.take (hello_lookUp (i := 1) rfl lookUp_found) (by
    refine fun attempt asked key _ _ _ => ⟨fun record hrecord hkey => find_ofRecords_isSome hrecord hkey,
      fun other hother asked' hphase => ?_⟩
    rcases mem_pair.mp hother with rfl | rfl
    · cases hphase
    · cases hphase)
  have hlast := hfound.take (.succeed (i := 1) rfl rfl rfl) trivial
  exact hlast

/-- The second attempt lists the message of the first, which is the only record. -/
theorem behavior_retry_exactly_once_sample : ∃ t attempt, attempt ∈ ServerState.attempts t ∧
    attempt.phase = .succeeded ∧ attempt.committed.length = greeting.commands.length ∧
    ∀ k < greeting.commands.length, ∃ asked key record acceptedAtMs listed,
    greeting.Asks noHttp k asked ∧
    asked.key = some key ∧ t.wal.filter (keyOf · = some key) = [record] ∧
    asked.Logs (fun _ => []) record ∧
    attempt.committed[k]? = some listed ∧ asked.listed record acceptedAtMs = .ok listed :=
  ⟨answered, ⟨.succeeded, [some (helloMessage 1)]⟩, mem_cons_of_mem _ (mem_singleton_self _), rfl,
    behavior_retry_exactly_once greeting_ownIds started_fresh reaches_answered
      (mem_cons_of_mem _ (mem_singleton_self _)) rfl⟩

/-- The append of the first attempt fails though its record is written. -/
def twice : ServerState :=
  serving [helloRecord 1, helloRecord 2] (Indexes.note (.ofRecords []) (helloRecord 2))
    [⟨.failed, []⟩, ⟨.succeeded, [some (helloMessage 2)]⟩]

theorem reaches_twice :
    Reaches (RetryStep noHttp (fun _ => []) greeting) (fun _ _ => True) started twice := by
  have h₀ : Reaches (RetryStep noHttp (fun _ => []) greeting) (fun _ _ => True) started started :=
    Reaches.refl started
  have hlooked := (h₀.take .invoke trivial).take (hello_lookUp (i := 0) rfl lookUp_started) trivial
  have hfailed := hlooked.take (hello_append (i := 0) 1 false rfl) trivial
  have hagain := (hfailed.take .invoke trivial).take (hello_lookUp (i := 1) rfl lookUp_started) trivial
  have happended := hagain.take (hello_append (i := 1) 2 true rfl) trivial
  have hnoted := happended.take (.note (i := 1) rfl rfl) trivial
  have hfinished := hnoted.take (e := RetryEvent.finish 1 0) (.finish rfl rfl) trivial
  have hlast := hfinished.take (.succeed (i := 1) rfl rfl rfl) trivial
  exact hlast

/-- An attempt that follows one whose append failed after its record was written appends another. -/
theorem behavior_retry_twice : ¬ ∀ (lib : HttpLibraries) (sha256 : Bytes → Bytes) (inv : Invocation)
    (s t : ServerState), inv.OwnIds lib → Fresh lib inv s →
    Reaches (RetryStep lib sha256 inv) (fun _ _ => True) s t →
    ∀ attempt ∈ t.attempts, attempt.phase = .succeeded → ∀ k asked key, inv.Asks lib k asked →
    asked.key = some key →
    ∃ record, t.wal.filter (keyOf · = some key) = [record] := by
  intro h
  obtain ⟨record, hrecord⟩ := h noHttp (fun _ => []) greeting started twice greeting_ownIds started_fresh reaches_twice
    ⟨.succeeded, [some (helloMessage 2)]⟩ (mem_cons_of_mem _ (mem_singleton_self _)) rfl 0 askedHello
    (.mutation "m:000:sendMessage") ⟨hello, "", 0, rfl, hello_ask⟩ rfl
  have hall : twice.wal.filter (keyOf · = some (.mutation "m:000:sendMessage")) = [helloRecord 1, helloRecord 2] := by
    refine filter_eq_self.mpr fun record hmem => decide_eq_true ?_
    rcases mem_pair.mp hmem with rfl | rfl
    · exact hello_key 1
    · exact hello_key 2
  cases hall.symm.trans hrecord

end Sample

end NextDb.Api.BehaviorRetry
