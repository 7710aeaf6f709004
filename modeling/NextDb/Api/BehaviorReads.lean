import NextDb.Api.Audit

/-!
# Scopes of a behavior

A behavior is sent what its caller's read plan asks for. The manifest of the behavior may name the
parts of the database that a plan may ask for; the plan is checked before anything is read.

* `Scopes.allows_of_validated`: what an accepted plan reads is in the scopes of the manifest.
-/

namespace NextDb.Api.BehaviorReads

open Audit

/-! ## Read plans -/

inductive BehaviorReadCapability where
  | records
  | nestedRecords
  | latestMessages
  | objects
  | objectBodies
  | realtimeChannelMembers
  | realtimeChannelStates
  | connectionSessions
  | auditTraces
  | auditReplays
deriving DecidableEq

/-- `{:?}`. -/
def BehaviorReadCapability.debugName : BehaviorReadCapability → String
  | .records => "Records"
  | .nestedRecords => "NestedRecords"
  | .latestMessages => "LatestMessages"
  | .objects => "Objects"
  | .objectBodies => "ObjectBodies"
  | .realtimeChannelMembers => "RealtimeChannelMembers"
  | .realtimeChannelStates => "RealtimeChannelStates"
  | .connectionSessions => "ConnectionSessions"
  | .auditTraces => "AuditTraces"
  | .auditReplays => "AuditReplays"

inductive ConnectionTransport where
  | webSocket
  | webTransport
  | custom
deriving DecidableEq

structure BehaviorRecordRead where
  table : String
  key : String

structure BehaviorNestedRecordRead where
  table : String
  parentKey : String
  nested : String
  nestedKey : String

structure BehaviorLatestMessagesRead where
  roomId : String
  limit : Option Nat

structure BehaviorConnectionSessionsRead where
  userId : Option String
  sessionId : Option String
  transport : Option ConnectionTransport

structure BehaviorAuditTraceRead where
  query : AuditTraceQuery
  afterLsn : Option Nat
  limit : Option Nat

inductive BehaviorAuditReplayKind where
  | user
  | object
  | record
  | nestedRecord
deriving DecidableEq

structure BehaviorAuditReplayRead where
  kind : BehaviorAuditReplayKind
  id : Option String
  table : Option String
  recordKey : Option String
  parentKey : Option String
  nested : Option String
  nestedKey : Option String
  atLsn : Option Nat

def behaviorAuditReplayKind : BehaviorAuditReplayKind → AuditTraceKind
  | .user => .user
  | .object => .object
  | .record => .record
  | .nestedRecord => .nestedRecord

def behaviorAuditReplayQuery (read : BehaviorAuditReplayRead) : AuditTraceQuery where
  kind := behaviorAuditReplayKind read.kind
  id := read.id
  table := read.table
  recordKey := read.recordKey
  parentKey := read.parentKey
  nested := read.nested
  nestedKey := read.nestedKey
  path := none
  clientMutationId := none

/-- Objects and channels are read by their ids. -/
structure BehaviorReadPlan where
  records : List BehaviorRecordRead
  nestedRecords : List BehaviorNestedRecordRead
  latestMessages : List BehaviorLatestMessagesRead
  objects : List String
  objectBodies : List String
  realtimeChannelMembers : List String
  realtimeChannelStates : List String
  connectionSessions : List BehaviorConnectionSessionsRead
  auditTraces : List BehaviorAuditTraceRead
  auditReplays : List BehaviorAuditReplayRead

def capabilityOf {α : Type} (capability : BehaviorReadCapability) (items : List α) :
    List BehaviorReadCapability :=
  if items.isEmpty then [] else [capability]

def BehaviorReadPlan.capabilities (self : BehaviorReadPlan) : List BehaviorReadCapability :=
  capabilityOf .records self.records ++ capabilityOf .nestedRecords self.nestedRecords ++
    capabilityOf .latestMessages self.latestMessages ++ capabilityOf .objects self.objects ++
    capabilityOf .objectBodies self.objectBodies ++
    capabilityOf .realtimeChannelMembers self.realtimeChannelMembers ++
    capabilityOf .realtimeChannelStates self.realtimeChannelStates ++
    capabilityOf .connectionSessions self.connectionSessions ++ capabilityOf .auditTraces self.auditTraces ++
    capabilityOf .auditReplays self.auditReplays

/-! ## Scopes -/

structure BehaviorRecordScopes where
  read : List String
  nestedRead : List String

/-- What may be read of objects, channels, connections or users. -/
structure BehaviorScopes where
  read : List String

structure BehaviorManifest where
  name : String
  version : String
  modulePath : String
  mutations : List String
  reads : Option (List BehaviorReadCapability)
  recordScopes : Option BehaviorRecordScopes
  objectScopes : Option BehaviorScopes
  realtimeScopes : Option BehaviorScopes
  connectionScopes : Option BehaviorScopes
  userScopes : Option BehaviorScopes

/-- The whole of it, the value itself, or a start of it before a star. -/
def wildcardScopeMatches (scope value : String) : Bool :=
  scope == "*" || scope == value ||
    scope.toList.getLast? == some '*' && !scope.toList.dropLast.isEmpty && scope.toList.dropLast.isPrefixOf value.toList

def ensureScopeContains (behavior label value : String) (allowed : List String) : Result Unit :=
  if allowed.contains value then .ok ()
  else bail ("behavior '" ++ behavior ++ "' is not allowed to " ++ label ++ " '" ++ value ++ "'")

variable (self : BehaviorScopes)

def BehaviorScopes.allows (value : String) : Bool :=
  self.read.any (wildcardScopeMatches · value)

def ensureWildcardScopeContains (behavior label value : String) (scopes : BehaviorScopes) :
    Result Unit :=
  if scopes.allows value then .ok ()
  else bail ("behavior '" ++ behavior ++ "' is not allowed to " ++ label ++ " '" ++ value ++ "'")

def BehaviorRecordScopes.ensureTableRead (self : BehaviorRecordScopes) (behavior table : String) :
    Result Unit :=
  ensureScopeContains behavior "read table" table self.read

def BehaviorRecordScopes.ensureNestedRead (self : BehaviorRecordScopes) (behavior nested : String) :
    Result Unit :=
  ensureScopeContains behavior "read nested table" nested self.nestedRead

def BehaviorScopes.ensureObjectRead (behavior objectId : String) : Result Unit :=
  ensureWildcardScopeContains behavior "read object" objectId self

def BehaviorScopes.ensureChannelRead (behavior channelId : String) : Result Unit :=
  ensureWildcardScopeContains behavior "read realtime channel" channelId self

def BehaviorScopes.ensureUserRead (behavior : String) : Option String → Result Unit
  | some userId => ensureWildcardScopeContains behavior "read connection sessions for user" userId self
  | none =>
    if self.read.contains "*" then .ok ()
    else bail ("behavior '" ++ behavior ++
      "' is not allowed to read all connection sessions without connectionScopes.read '*'")

def BehaviorScopes.ensureRead (behavior userId : String) : Result Unit :=
  ensureWildcardScopeContains behavior "read user audit" userId self

def requiredBehaviorAuditField (value : Option String) (message : String) : Result String :=
  match value with
  | none => bail message
  | some value => if trim value = "" then bail message else .ok value

def nestedScopeName (table nested : String) : String := s!"{table}.{nested}"

/-! ## Checks -/

/-- The tables that a trace or a replay is about. Traces of a room read its record and its messages.
-/
def BehaviorRecordScopes.ensureTraceRead (self : BehaviorRecordScopes) (behavior : String)
    (item : BehaviorAuditTraceRead) : Result Unit :=
  match item.query.kind with
  | .room => do
    self.ensureTableRead behavior "rooms"
    self.ensureNestedRead behavior "rooms.messages"
  | .record => do
    self.ensureTableRead behavior (← requiredBehaviorAuditField item.query.table "auditTraces record table is required")
  | .nestedRecord => do
    let table ← requiredBehaviorAuditField item.query.table "auditTraces nestedRecord table is required"
    let nested ← requiredBehaviorAuditField item.query.nested "auditTraces nestedRecord nested is required"
    self.ensureNestedRead behavior (nestedScopeName table nested)
  | .user | .object | .path | .clientMutation => .ok ()

def BehaviorRecordScopes.ensureReplayRead (self : BehaviorRecordScopes) (behavior : String)
    (item : BehaviorAuditReplayRead) : Result Unit :=
  match item.kind with
  | .record => do
    self.ensureTableRead behavior (← requiredBehaviorAuditField item.table "auditReplays record table is required")
  | .nestedRecord => do
    let table ← requiredBehaviorAuditField item.table "auditReplays nestedRecord table is required"
    let nested ← requiredBehaviorAuditField item.nested "auditReplays nestedRecord nested is required"
    self.ensureNestedRead behavior (nestedScopeName table nested)
  | .user | .object => .ok ()

variable (manifest : BehaviorManifest)

def validateRecordScopesForRead (read : BehaviorReadPlan) : Result Unit :=
  match manifest.recordScopes with
  | none => .ok ()
  | some scopes => do
    read.records.forM fun item => scopes.ensureTableRead manifest.name item.table
    read.nestedRecords.forM fun item =>
      scopes.ensureNestedRead manifest.name (nestedScopeName item.table item.nested)
    read.latestMessages.forM fun _ => scopes.ensureNestedRead manifest.name "rooms.messages"
    read.auditTraces.forM (scopes.ensureTraceRead manifest.name)
    read.auditReplays.forM (scopes.ensureReplayRead manifest.name)

def validateObjectScopesForRead (read : BehaviorReadPlan) : Result Unit :=
  match manifest.objectScopes with
  | none => .ok ()
  | some scopes => do
    read.objects.forM (scopes.ensureObjectRead manifest.name)
    read.objectBodies.forM (scopes.ensureObjectRead manifest.name)
    read.auditTraces.forM fun item =>
      if item.query.kind = .object then do
        scopes.ensureObjectRead manifest.name
          (← requiredBehaviorAuditField item.query.id "auditTraces object id is required")
      else .ok ()
    read.auditReplays.forM fun item =>
      if item.kind = .object then do
        scopes.ensureObjectRead manifest.name
          (← requiredBehaviorAuditField item.id "auditReplays object id is required")
      else .ok ()

def validateRealtimeScopesForRead (read : BehaviorReadPlan) : Result Unit :=
  match manifest.realtimeScopes with
  | none => .ok ()
  | some scopes => do
    read.realtimeChannelMembers.forM (scopes.ensureChannelRead manifest.name)
    read.realtimeChannelStates.forM (scopes.ensureChannelRead manifest.name)

def validateConnectionScopesForRead (read : BehaviorReadPlan) : Result Unit :=
  match manifest.connectionScopes with
  | none => .ok ()
  | some scopes => read.connectionSessions.forM fun item => scopes.ensureUserRead manifest.name item.userId

def validateUserScopesForRead (read : BehaviorReadPlan) : Result Unit :=
  match manifest.userScopes with
  | none => .ok ()
  | some scopes => do
    read.auditTraces.forM fun item =>
      if item.query.kind = .user then do
        scopes.ensureRead manifest.name (← requiredBehaviorAuditField item.query.id "auditTraces user id is required")
      else .ok ()
    read.auditReplays.forM fun item =>
      if item.kind = .user then do
        scopes.ensureRead manifest.name (← requiredBehaviorAuditField item.id "auditReplays user id is required")
      else .ok ()

def BehaviorManifest.ensureCapability (self : BehaviorManifest)
    (capability : BehaviorReadCapability) : Result
    Unit :=
  match self.reads with
  | none => .ok ()
  | some reads =>
    if reads.contains capability then .ok ()
    else bail ("behavior '" ++ self.name ++ "' is not allowed to use read plan " ++ capability.debugName)

def validateReadCapabilities (read : BehaviorReadPlan) : Result Unit := do
  read.capabilities.forM manifest.ensureCapability
  validateRecordScopesForRead manifest read
  validateObjectScopesForRead manifest read
  validateRealtimeScopesForRead manifest read
  validateConnectionScopesForRead manifest read
  validateUserScopesForRead manifest read

/-! ## What is accepted -/

/-- The record, object and user scopes of a manifest. -/
structure Scopes where
  records : BehaviorRecordScopes
  objects : BehaviorScopes
  users : BehaviorScopes

/-- The scopes are those that the manifest declares. -/
structure Scopes.Declared (s : Scopes) (manifest : BehaviorManifest) : Prop where
  records : manifest.recordScopes = some s.records
  objects : manifest.objectScopes = some s.objects
  users : manifest.userScopes = some s.users

/-- What a trace is about is in the scopes, unless it is about a path or a client mutation id. -/
def Scopes.AllowsTrace (self : Scopes) (query : AuditTraceQuery) : Prop :=
  match query.kind with
  | .room => "rooms" ∈ self.records.read ∧ "rooms.messages" ∈ self.records.nestedRead
  | .user => ∃ id, query.id = some id ∧ self.users.allows id = true
  | .object => ∃ id, query.id = some id ∧ self.objects.allows id = true
  | .record => ∃ table, query.table = some table ∧ table ∈ self.records.read
  | .nestedRecord => ∃ table nested, query.table = some table ∧ query.nested = some nested ∧
      nestedScopeName table nested ∈ self.records.nestedRead
  | .path | .clientMutation => True

/-- Every item that the behavior reads is in its scopes. -/
structure Scopes.Allows (s : Scopes) (read : BehaviorReadPlan) : Prop where
  records : ∀ item ∈ read.records, item.table ∈ s.records.read
  nestedRecords : ∀ item ∈ read.nestedRecords, nestedScopeName item.table item.nested ∈ s.records.nestedRead
  latestMessages : ∀ item ∈ read.latestMessages, "rooms.messages" ∈ s.records.nestedRead
  objects : ∀ objectId ∈ read.objects, s.objects.allows objectId = true
  objectBodies : ∀ objectId ∈ read.objectBodies, s.objects.allows objectId = true
  auditTraces : ∀ item ∈ read.auditTraces, s.AllowsTrace item.query
  auditReplays : ∀ item ∈ read.auditReplays, s.AllowsTrace (behaviorAuditReplayQuery item)

variable {behavior message : String} {value : Option String} {scopes : Scopes}
    {payload : WalPayload}

theorem ensureScopeContains_ok {label value : String} {allowed : List String}
    (h : ensureScopeContains behavior label value allowed = .ok ()) : value ∈ allowed := by
  unfold ensureScopeContains at h
  split at h
  · next hcontains => simpa using hcontains
  · cases h

theorem ensureWildcardScopeContains_ok {label value : String} {scopes : BehaviorScopes}
    (h : ensureWildcardScopeContains behavior label value scopes = .ok ()) :
    scopes.allows value = true := by
  unfold ensureWildcardScopeContains at h
  split at h
  · assumption
  · cases h

theorem requiredBehaviorAuditField_ok {text : String}
    (h : requiredBehaviorAuditField value message = .ok text) :
    value = some text := by
  unfold requiredBehaviorAuditField at h
  split at h
  · cases h
  · split at h
    · cases h
    · exact congrArg some (Except.ok.inj h)

theorem BehaviorRecordScopes.ensureTraceRead_ok {item : BehaviorAuditTraceRead}
    (h : scopes.records.ensureTraceRead behavior item = .ok ())
    (hobject : item.query.kind = .object → ∃ id, item.query.id = some id ∧
      scopes.objects.allows id = true)
    (huser : item.query.kind = .user → ∃ id, item.query.id = some id ∧
      scopes.users.allows id = true) :
    scopes.AllowsTrace item.query := by
  unfold BehaviorRecordScopes.ensureTraceRead at h
  unfold Scopes.AllowsTrace
  cases hkind : item.query.kind with
  | room =>
    rw [hkind] at h
    obtain ⟨hrooms, hmessages⟩ := check_eq_ok.mp h
    exact ⟨ensureScopeContains_ok hrooms, ensureScopeContains_ok hmessages⟩
  | record =>
    rw [hkind] at h
    obtain ⟨table, htable, h⟩ := bind_eq_ok.mp h
    exact ⟨table, requiredBehaviorAuditField_ok htable, ensureScopeContains_ok h⟩
  | nestedRecord =>
    rw [hkind] at h
    obtain ⟨table, htable, h⟩ := bind_eq_ok.mp h
    obtain ⟨nested, hnested, h⟩ := bind_eq_ok.mp h
    exact ⟨table, nested, requiredBehaviorAuditField_ok htable, requiredBehaviorAuditField_ok hnested,
      ensureScopeContains_ok h⟩
  | object => exact hobject hkind
  | user => exact huser hkind
  | path | clientMutation => trivial

theorem BehaviorRecordScopes.ensureReplayRead_ok {item : BehaviorAuditReplayRead}
    (h : scopes.records.ensureReplayRead behavior item = .ok ())
    (hobject : item.kind = .object → ∃ id, item.id = some id ∧ scopes.objects.allows id = true)
    (huser : item.kind = .user → ∃ id, item.id = some id ∧ scopes.users.allows id = true) :
    scopes.AllowsTrace (behaviorAuditReplayQuery item) := by
  unfold BehaviorRecordScopes.ensureReplayRead at h
  unfold Scopes.AllowsTrace behaviorAuditReplayQuery
  cases hkind : item.kind with
  | record =>
    rw [hkind] at h
    obtain ⟨table, htable, h⟩ := bind_eq_ok.mp h
    exact ⟨table, requiredBehaviorAuditField_ok htable, ensureScopeContains_ok h⟩
  | nestedRecord =>
    rw [hkind] at h
    obtain ⟨table, htable, h⟩ := bind_eq_ok.mp h
    obtain ⟨nested, hnested, h⟩ := bind_eq_ok.mp h
    exact ⟨table, nested, requiredBehaviorAuditField_ok htable, requiredBehaviorAuditField_ok hnested,
      ensureScopeContains_ok h⟩
  | object => exact hobject hkind
  | user => exact huser hkind

/-- A field that is required where a condition holds is allowed there. -/
theorem requiredWhere_ok {p : Prop} [Decidable p]
    {ensure : String → Result Unit} {allowed : String → Prop}
    (hensure : ∀ text, ensure text = .ok () → allowed text)
    (h : (if p then do ensure (← requiredBehaviorAuditField value message) else .ok ()) = .ok ())
    (hp : p) :
    ∃ text, value = some text ∧ allowed text := by
  rw [if_pos hp] at h
  obtain ⟨text, htext, h⟩ := bind_eq_ok.mp h
  exact ⟨text, requiredBehaviorAuditField_ok htext, hensure text h⟩

/-- What an accepted plan reads of records, messages, objects and users is in the scopes. -/
theorem Scopes.allows_of_validated {manifest : BehaviorManifest} {read : BehaviorReadPlan}
    (hdeclared : scopes.Declared manifest) (h : validateReadCapabilities manifest read = .ok ()) :
    scopes.Allows read := by
  obtain ⟨-, h⟩ := check_eq_ok.mp h
  obtain ⟨hrecords, h⟩ := check_eq_ok.mp h
  obtain ⟨hobjects, h⟩ := check_eq_ok.mp h
  obtain ⟨-, h⟩ := check_eq_ok.mp h
  obtain ⟨-, husers⟩ := check_eq_ok.mp h
  rw [validateRecordScopesForRead, hdeclared.records] at hrecords
  rw [validateObjectScopesForRead, hdeclared.objects] at hobjects
  rw [validateUserScopesForRead, hdeclared.users] at husers
  obtain ⟨htables, hrecords⟩ := check_eq_ok.mp hrecords
  obtain ⟨hnested, hrecords⟩ := check_eq_ok.mp hrecords
  obtain ⟨hmessages, hrecords⟩ := check_eq_ok.mp hrecords
  obtain ⟨htraces, hreplays⟩ := check_eq_ok.mp hrecords
  obtain ⟨hmetadata, hobjects⟩ := check_eq_ok.mp hobjects
  obtain ⟨hbodies, hobjects⟩ := check_eq_ok.mp hobjects
  obtain ⟨hobjectTraces, hobjectReplays⟩ := check_eq_ok.mp hobjects
  obtain ⟨huserTraces, huserReplays⟩ := check_eq_ok.mp husers
  refine ⟨fun item hitem => ensureScopeContains_ok (forM_eq_ok.mp htables item hitem), fun item hitem =>
    ensureScopeContains_ok (forM_eq_ok.mp hnested item hitem), fun item hitem => ensureScopeContains_ok (forM_eq_ok.mp
    hmessages item hitem), fun id hid => ensureWildcardScopeContains_ok (forM_eq_ok.mp hmetadata id hid), fun id hid =>
    ensureWildcardScopeContains_ok (forM_eq_ok.mp hbodies id hid), fun item hitem =>
    BehaviorRecordScopes.ensureTraceRead_ok (forM_eq_ok.mp htraces item hitem) ?_ ?_, fun item hitem =>
    BehaviorRecordScopes.ensureReplayRead_ok (forM_eq_ok.mp hreplays item hitem) ?_ ?_⟩
  · exact requiredWhere_ok (fun _ => ensureWildcardScopeContains_ok) (forM_eq_ok.mp hobjectTraces item hitem)
  · exact requiredWhere_ok (fun _ => ensureWildcardScopeContains_ok) (forM_eq_ok.mp huserTraces item hitem)
  · exact requiredWhere_ok (fun _ => ensureWildcardScopeContains_ok) (forM_eq_ok.mp hobjectReplays item hitem)
  · exact requiredWhere_ok (fun _ => ensureWildcardScopeContains_ok) (forM_eq_ok.mp huserReplays item hitem)

/-! ## What is in scope -/

/-- The tables whose records may be read, nested tables under their logical names. -/
def Scopes.CoversTable (self : Scopes) (table : String) : Prop :=
  table ∈ self.records.read ∨ table ∈ self.records.nestedRead

/-- A change to a table in scope, or one that writes a reference to an object in scope. -/
def Scopes.CoversMutation (self : Scopes) (operation : DbRecordMutationDraft) : Prop :=
  self.CoversTable (mutationTable operation) ∨
    ∃ objectId, self.objects.allows objectId = true ∧ mutationContainsObjectId objectId operation = true

/-- The scopes have the room messages, the sender or an attachment. -/
def Scopes.CoversMessage (self : Scopes) (message : MessageDraft) : Prop :=
  self.CoversTable "rooms.messages" ∨ self.users.allows message.senderId = true ∨
    ∃ object ∈ message.attachments, self.objects.allows object.id = true

/-- The scopes have what the operation would have changed. -/
def Scopes.CoversNoop (self : Scopes) : ClientMutationRecord → Prop
  | .recordDeleteNoop table _ _ => self.CoversTable table
  | .recordTransactionNoop => False
  | .objectDeleteNoop objectId _ => self.objects.allows objectId = true

/-- Something in a payload belongs to a table, an object or a user in scope. -/
def Scopes.Covers (self : Scopes) : WalPayload → Prop
  | .messageCreated message => self.CoversMessage message
  | .userEventPublished event => self.users.allows event.userId = true
  | .userUpserted user => self.users.allows user.userId = true
  | .objectCommitted object _ => self.objects.allows object.id = true
  | .objectDeleted objectId _ _ _ _ => self.objects.allows objectId = true
  | .clientMutationRecorded _ record => self.CoversNoop record
  | payload => ∃ operation ∈ payloadMutations payload, self.CoversMutation operation

open Classical in
/-- What a payload keeps of what is in scope: of a transaction, the operations in scope. -/
noncomputable def Scopes.part (self : Scopes) : WalPayload → Option WalPayload
  | .recordTransactionCommitted operations clientMutationId =>
    if self.Covers (.recordTransactionCommitted operations clientMutationId) then
      some (.recordTransactionCommitted (operations.filter fun operation => decide (self.CoversMutation operation))
        clientMutationId)
    else none
  | payload => if self.Covers payload then some payload else none

theorem Scopes.covers_of_mutation {operation : DbRecordMutationDraft}
    (hmem : operation ∈ payloadMutations payload)
    (h : scopes.CoversMutation operation) : scopes.Covers payload := by
  cases payload with
  | recordUpserted | recordDeleted | recordTransactionCommitted => exact ⟨operation, hmem, h⟩
  | _ => cases hmem

theorem Scopes.covers_of_room {roomId : String} (hrooms : "rooms" ∈ scopes.records.read)
    (hmessages : "rooms.messages" ∈ scopes.records.nestedRead)
    (h : payloadMatchesRoomTrace roomId payload = true) :
    scopes.Covers payload := by
  have hany : (payloadMutations payload).any (mutationInRoom roomId) = true → scopes.Covers payload := by
    intro hany
    obtain ⟨operation, hmem, hroom⟩ := List.any_eq_true.mp hany
    refine covers_of_mutation hmem (.inl ?_)
    rcases Bool.or_eq_true_iff.mp hroom with hroom | hroom
    · rw [beq_iff_eq.mp (Bool.and_eq_true_iff.mp hroom).1]
      exact .inl hrooms
    · rw [beq_iff_eq.mp (Bool.and_eq_true_iff.mp hroom).1]
      exact .inr hmessages
  cases payload with
  | messageCreated => exact .inl (.inr hmessages)
  | _ => exact hany h

theorem Scopes.covers_of_user {userId : String} (huser : scopes.users.allows userId = true)
    (h : payloadMatchesUserTrace userId payload = true) : scopes.Covers payload := by
  cases payload with
  | messageCreated message => exact .inr (.inl (beq_iff_eq.mp h ▸ huser))
  | userEventPublished event | userUpserted event =>
    exact (beq_iff_eq.mp h ▸ huser : scopes.users.allows event.userId = true)
  | _ => cases h

theorem Scopes.covers_of_object {objectId : String}
    (hobject : scopes.objects.allows objectId = true)
    (h : payloadMatchesObjectTrace objectId payload = true) : scopes.Covers payload := by
  have hany : (payloadMutations payload).any (mutationContainsObjectId objectId) = true → scopes.Covers payload := by
    intro hany
    obtain ⟨operation, hmem, hcontains⟩ := List.any_eq_true.mp hany
    exact covers_of_mutation hmem (.inr ⟨objectId, hobject, hcontains⟩)
  cases payload with
  | messageCreated message =>
    obtain ⟨object, hmem, hid⟩ := List.any_eq_true.mp h
    exact .inr (.inr ⟨object, hmem, beq_iff_eq.mp hid ▸ hobject⟩)
  | objectCommitted object _ => exact (beq_iff_eq.mp h ▸ hobject : scopes.objects.allows object.id = true)
  | objectDeleted deletedObjectId => exact (beq_iff_eq.mp h ▸ hobject : scopes.objects.allows deletedObjectId = true)
  | _ => exact hany h

theorem Scopes.covers_of_table {table key : String} (htable : scopes.CoversTable table)
    (h : payloadMatchesTableRecord table key payload = true) : scopes.Covers payload := by
  obtain ⟨operation, hmem, hat⟩ := List.any_eq_true.mp h
  exact covers_of_mutation hmem (.inl (beq_iff_eq.mp (Bool.and_eq_true_iff.mp hat).1 ▸ htable))

theorem requiredTraceValue_ok {text : String} (h : requiredTraceValue value message = .ok text) :
    text = value.getD "" := by
  unfold requiredTraceValue at h
  dsimp only at h
  split at h
  · cases h
  · exact (Except.ok.inj h).symm

/-- What a trace that is checked against the scopes matches is in scope. -/
theorem Scopes.covers_of_matches {query : AuditTraceQuery} {target : AuditTraceTarget}
    (htarget : auditTraceTarget query = .ok target)
    (hallows : scopes.AllowsTrace query) (hkind : query.kind ≠ .path ∧ query.kind ≠ .clientMutation)
    {r : WalRecord} (h : matchesAuditTraceTarget r target = true) : scopes.Covers r.payload := by
  unfold auditTraceTarget at htarget
  unfold AllowsTrace at hallows
  cases hquery : query.kind with
  | room =>
    rw [hquery] at htarget hallows
    obtain ⟨id, -, htarget⟩ := bind_eq_ok.mp htarget
    obtain ⟨-, htarget⟩ := check_eq_ok.mp htarget
    rw [← Except.ok.inj htarget] at h
    exact covers_of_room hallows.1 hallows.2 h
  | user =>
    rw [hquery] at htarget hallows
    obtain ⟨userId, hid, huser⟩ := hallows
    obtain ⟨id, hvalue, htarget⟩ := bind_eq_ok.mp htarget
    obtain ⟨-, htarget⟩ := check_eq_ok.mp htarget
    rw [← Except.ok.inj htarget] at h
    have heq : id = userId := by rw [requiredTraceValue_ok hvalue, hid, Option.getD_some]
    exact covers_of_user (heq ▸ huser) h
  | object =>
    rw [hquery] at htarget hallows
    obtain ⟨objectId, hid, hobject⟩ := hallows
    obtain ⟨id, hvalue, htarget⟩ := bind_eq_ok.mp htarget
    obtain ⟨-, htarget⟩ := check_eq_ok.mp htarget
    rw [← Except.ok.inj htarget] at h
    have heq : id = objectId := by rw [requiredTraceValue_ok hvalue, hid, Option.getD_some]
    exact covers_of_object (heq ▸ hobject) h
  | record =>
    rw [hquery] at htarget hallows
    obtain ⟨table, htable, hread⟩ := hallows
    obtain ⟨given, hvalue, htarget⟩ := bind_eq_ok.mp htarget
    obtain ⟨key, -, htarget⟩ := bind_eq_ok.mp htarget
    obtain ⟨-, htarget⟩ := check_eq_ok.mp htarget
    obtain ⟨-, htarget⟩ := check_eq_ok.mp htarget
    rw [← Except.ok.inj htarget] at h
    have heq : given = table := by rw [requiredTraceValue_ok hvalue, htable, Option.getD_some]
    exact covers_of_table (.inl (heq ▸ hread)) h
  | nestedRecord =>
    rw [hquery] at htarget hallows
    obtain ⟨table, nested, htable, hnested, hread⟩ := hallows
    obtain ⟨givenTable, hgivenTable, htarget⟩ := bind_eq_ok.mp htarget
    obtain ⟨parentKey, -, htarget⟩ := bind_eq_ok.mp htarget
    obtain ⟨givenNested, hgivenNested, htarget⟩ := bind_eq_ok.mp htarget
    obtain ⟨nestedKey, -, htarget⟩ := bind_eq_ok.mp htarget
    obtain ⟨-, htarget⟩ := check_eq_ok.mp htarget
    obtain ⟨-, htarget⟩ := check_eq_ok.mp htarget
    obtain ⟨-, htarget⟩ := check_eq_ok.mp htarget
    obtain ⟨-, htarget⟩ := check_eq_ok.mp htarget
    rw [← Except.ok.inj htarget] at h
    have htableEq : givenTable = table := by rw [requiredTraceValue_ok hgivenTable, htable, Option.getD_some]
    have hnestedEq : givenNested = nested := by rw [requiredTraceValue_ok hgivenNested, hnested, Option.getD_some]
    have hcovers : scopes.CoversTable (Records.nestedRecordTable givenTable givenNested) := by
      rw [htableEq, hnestedEq]
      exact .inr hread
    exact covers_of_table hcovers h
  | path => exact absurd hquery hkind.1
  | clientMutation => exact absurd hquery hkind.2

end NextDb.Api.BehaviorReads
