import NextDb.Lib.Run
import NextDb.Records.FromWal
import NextDb.Schema.Migration
import NextDb.Schema.Registry

/-!
# Record writers and schema changes

A writer validates its operations against the active schema one by one, then reads the
version of the active schema, then appends. A schema change computes its plan, appends
its `SchemaApplied` record, persists the schema files and makes the candidate active; a
lock lets one change run at a time, and nothing holds off the writers. The other checks
of a writer, and what may fail in a change, end it.

* `validateAt_of_compatible`: a compatible plan keeps what fits the candidate valid.
* `committed_valid`: in a run in which what is validated fits the candidate of a change
  that is about to become active, every upsert in the log is valid under the schema of
  its version and under the active schema.
-/

namespace NextDb.Api.RecordCommit

open Records Run List Option Std

/-! ## Validity -/

def tableFields (schema : DatabaseSchema) : TablePath → Option (BTreeMap String FieldSchema)
  | .table name => schema.tables[name]?.map TableSchema.fields
  | .nested parent name => (schema.nestedTable parent name).map NestedTableSchema.fields

def validateAt (schema : DatabaseSchema) : TablePath → Json → Result Unit
  | .table name, value => schema.validateTableRecord name value
  | .nested parent name, value => schema.validateNestedTableRecord parent name value

/-- Some table that an upsert names accepts its value. -/
def ValidUnder (schema : DatabaseSchema) (draft : DbRecordDraft) : Prop :=
  ∃ path : TablePath, draft.table = path.logicalName ∧ validateAt schema path draft.value.json = .ok ()

/-- What an upsert holds at the fields that the candidate adds to its table is accepted there, and
it holds those that are required. -/
def DraftFits (current candidate : DatabaseSchema) (draft : DbRecordDraft) : Prop :=
  ∀ path fields candidateFields, draft.table = TablePath.logicalName path →
    tableFields current path = some fields → tableFields candidate path = some candidateFields →
    RecordFits fields candidateFields draft.value.json

theorem validateAt_of_compatible {current candidate : DatabaseSchema}
    (hcompatible : (SchemaMigrationPlan.between current candidate).compatible = true)
    (hwf : candidate.WellFormed) {path : TablePath} {value : Json}
    (hvalid : validateAt current path value = .ok ())
    (hfits : ∀ fields candidateFields, tableFields current path = some fields →
      tableFields candidate path =
    some candidateFields → RecordFits fields candidateFields value) :
    validateAt candidate path value = .ok () := by
  have haccepts := acceptsFitting_of_harmless (compatible_iff.mp hcompatible) hwf
  cases path with
  | table name =>
    refine haccepts.table name value hvalid fun table candidateTable htable hcandidate => ?_
    exact hfits _ _ (by rw [tableFields, htable]; rfl) (by rw [tableFields, hcandidate]; rfl)
  | nested parent name =>
    refine haccepts.nestedTable parent name value hvalid fun nested candidateNested hnested hcandidate => ?_
    exact hfits _ _ (by rw [tableFields, hnested]; rfl) (by rw [tableFields, hcandidate]; rfl)

variable {draft : DbRecordDraft}

theorem ValidUnder.of_compatible {current candidate : DatabaseSchema} (h : ValidUnder current draft)
    (hcompatible : (SchemaMigrationPlan.between current candidate).compatible = true)
    (hwf : candidate.WellFormed)
    (hfits : DraftFits current candidate draft) : ValidUnder candidate draft := by
  obtain ⟨path, htable, hvalid⟩ := h
  exact ⟨path, htable, validateAt_of_compatible hcompatible hwf hvalid fun fields candidateFields =>
    hfits path fields candidateFields htable⟩

/-! ## Writers -/

inductive RecordOperation where
  | upsert (table key : String) (value : Value)
  | delete (table key : String)
  | nestedUpsert (table parentKey nested nestedKey : String) (value : Value)
  | nestedDelete (table parentKey nested nestedKey : String)

/-- What the active schema says of an operation. -/
def RecordOperation.validate (schema : DatabaseSchema) : RecordOperation → Result Unit
  | .upsert table _ value => validateAt schema (.table table) value.json
  | .nestedUpsert table _ nested _ value => validateAt schema (.nested table nested) value.json
  | .delete table _ => (okOr "table not found" schema.tables[table]?).map fun _ => ()
  | .nestedDelete table _ nested _ =>
    (okOr "nested table not found" (schema.nestedTable table nested)).map fun _ => ()

def nestedRecordKey (parentKey nestedKey : String) : String := s!"{parentKey}:{nestedKey}"

def nestedRecordPath (table parentKey nested nestedKey : String) : String :=
  s!"tables/{table}/{parentKey}/{nested}/{nestedKey}"

/-- What is logged of an operation. -/
def RecordOperation.mutation (timestampMs : Nat) (clientMutationId : Option String) :
    RecordOperation → DbRecordMutationDraft
  | .upsert table key value =>
    .upsert ⟨table, key, value, timestampMs, s!"tables/{table}/{key}", clientMutationId⟩
  | .delete table key => .delete ⟨table, key, timestampMs, s!"tables/{table}/{key}",
    clientMutationId⟩
  | .nestedUpsert table parentKey nested nestedKey value =>
    .upsert ⟨nestedRecordTable table nested, nestedRecordKey parentKey nestedKey, value,
    timestampMs,
      nestedRecordPath table parentKey nested nestedKey, clientMutationId⟩
  | .nestedDelete table parentKey nested nestedKey =>
    .delete ⟨nestedRecordTable table nested, nestedRecordKey parentKey nestedKey, timestampMs,
      nestedRecordPath table parentKey nested nestedKey, clientMutationId⟩

/-- How far a writer has come. -/
inductive WriterPhase where
  /-- The operations that are not validated yet. -/
  | preparing (rest : List RecordOperation)
  /-- `state.schema.version()` was read. -/
  | appending (schemaVersion : Nat)
  | finished

/-- A transaction, or a single upsert or delete. -/
structure Writer where
  transaction : Bool
  timestampMs : Nat
  clientMutationId : Option String
  phase : WriterPhase
  /-- What was validated. -/
  prepared : List DbRecordMutationDraft

/-- What a writer appends. A transaction whose deletes find no record is remembered under its id. -/
def Writer.payload (self : Writer) : Option WalPayload :=
  match self.transaction, self.prepared with
  | true, [] => self.clientMutationId.map fun id => .clientMutationRecorded id .recordTransactionNoop
  | true, operations => some (.recordTransactionCommitted operations self.clientMutationId)
  | false, [.upsert record] => some (.recordUpserted record)
  | false, [.delete record] => some (.recordDeleted record)
  | false, _ => none

/-! ## The server -/

/-- How far a change of the schema has come. -/
inductive ChangePhase where
  | planned
  | logged
  | persisted
deriving DecidableEq

/-- The schema change that holds the lock. -/
structure Change where
  candidate : { schema : DatabaseSchema // schema.WellFormed }
  phase : ChangePhase

/-- The schema, the log, the writers and a change that are on their way. -/
structure Server where
  schema : SchemaRegistry
  wal : List WalRecord
  nextLsn : Nat
  writers : List Writer
  change : Option Change

/-- A server that has loaded its schema, over an empty log. -/
def Server.new (defaultNextdb : DatabaseSchema) (file : Option DatabaseSchema)
    (history : BTreeMap Nat DatabaseSchema) : Server where
  schema := SchemaRegistry.load defaultNextdb file history
  wal := []
  nextLsn := 0
  writers := []
  change := none

/-- What the log writer adds to a record. -/
structure WalStamp where
  shard : Nat
  shardEpoch : Nat
  ownerNodeId : String
  timestampMs : Nat
  durability : Durability
  checksum : Option String

def Server.push (self : Server) (stamp : WalStamp) (schemaVersion : Nat) (payload : WalPayload) :
    Server :=
  { self with
    nextLsn := self.nextLsn + 1
    wal := self.wal ++ [{
      lsn := self.nextLsn + 1
      shard := stamp.shard
      shardEpoch := stamp.shardEpoch
      ownerNodeId := stamp.ownerNodeId
      timestampMs := stamp.timestampMs
      schemaVersion
      durability := stamp.durability
      payload
      checksum := stamp.checksum }] }

/-- The steps of a writer and of a change. -/
inductive Event where
  | request (transaction : Bool) (timestampMs : Nat) (clientMutationId : Option String)
      (operations : List RecordOperation)
  /-- The next operation of a writer. A delete of no record is not kept. -/
  | validate (writer : Nat) (kept : Bool)
  | readVersion (writer : Nat)
  | append (writer : Nat) (stamp : WalStamp)
  /-- Another check of a writer, or its append, fails. -/
  | refuse (writer : Nat)
  | plan (candidate : { schema : DatabaseSchema // schema.WellFormed })
  | appendSchemaApplied (stamp : WalStamp)
  | persistCandidate
  | activate
  /-- The change returns an error. -/
  | failChange

def Server.setWriter (self : Server) (index : Nat) (writer : Writer) : Server :=
  { self with writers := self.writers.set index writer }

def validateNext (schema : DatabaseSchema) (kept : Bool) (writer : Writer) : Option Writer :=
  match writer.phase with
  | .preparing (operation :: rest) =>
    match operation.validate schema with
    | .ok () =>
      let clientMutationId := if writer.transaction then none else writer.clientMutationId
      some { writer with
        phase := .preparing rest
        prepared := writer.prepared ++
          if kept then [operation.mutation writer.timestampMs clientMutationId] else [] }
    | .error _ => none
  | _ => none

def next (s : Server) : Event → Option Server
  | .request transaction timestampMs clientMutationId operations =>
    some { s with writers := s.writers ++ [⟨transaction, timestampMs, clientMutationId,
    .preparing operations, []⟩] }
  | .validate index kept => do
    let writer ← s.writers[index]?
    let writer ← validateNext s.schema.schema kept writer
    return s.setWriter index writer
  | .readVersion index => do
    let writer ← s.writers[index]?
    match writer.phase with
    | .preparing [] =>
      return s.setWriter index { writer with phase := .appending s.schema.schema.version }
    | _ => none
  | .append index stamp => do
    let writer ← s.writers[index]?
    match writer.phase with
    | .appending schemaVersion =>
      let payload ← writer.payload
      return (s.push stamp schemaVersion payload).setWriter index { writer with phase := .finished }
    | _ => none
  | .refuse index => do
    let writer ← s.writers[index]?
    return s.setWriter index { writer with phase := .finished }
  | .plan candidate =>
    if s.change.isNone ∧ candidate.1.validationReport.ok = true ∧
        (SchemaMigrationPlan.between s.schema.schema candidate.1).compatible = true then
      some { s with change := some ⟨candidate, .planned⟩ }
    else none
  | .appendSchemaApplied stamp => do
    let change ← s.change
    if change.phase = .planned then
      let candidate := change.candidate.1
      let logged := s.push stamp candidate.version
        (.schemaApplied candidate (SchemaMigrationPlan.between s.schema.schema candidate))
      return { logged with change := some { change with phase := .logged } }
    else none
  | .persistCandidate => do
    let change ← s.change
    if change.phase = .logged then
      let candidate := change.candidate.1
      return { s with
        schema := (s.schema.persistHistorySchema candidate).persistSchema candidate
        change := some { change with phase := .persisted } }
    else none
  | .activate => do
    let change ← s.change
    if change.phase = .persisted then
      return { s with schema := s.schema.apply change.candidate.1, change := none }
    else none
  | .failChange => do
    let _ ← s.change
    return { s with change := none }

/-! ## The condition -/

/-- A writer that may still append. -/
def Writer.live (self : Writer) : Bool :=
  match self.phase with
  | .finished => false
  | _ => true

/-- The candidate whose files are persisted and which is not active yet. -/
def Server.pending (self : Server) : Option DatabaseSchema :=
  match self.change with
  | some ⟨candidate, .persisted⟩ => some candidate.1
  | _ => none

/-- An upsert of the log. -/
def Logged (s : Server) (draft : DbRecordDraft) : Prop :=
  ∃ record ∈ s.wal, .upsert draft ∈ recordMutations record.payload

/-- An upsert that a writer has validated and not appended yet. -/
def Held (s : Server) (draft : DbRecordDraft) : Prop :=
  ∃ writer ∈ s.writers, writer.live = true ∧ .upsert draft ∈ writer.prepared

/-- The upsert that a writer validates next. -/
def NextUpsert (s : Server) (index : Nat) (draft : DbRecordDraft) : Prop :=
  ∃ writer operation rest clientMutationId, s.writers[index]? = some writer ∧
    writer.phase = .preparing (operation :: rest) ∧
    operation.mutation writer.timestampMs clientMutationId = .upsert draft

/-- What is validated before a change is active fits its candidate, and a change that keeps the
version does not fail once its files are persisted. -/
def Meets (s : Server) : Event → Prop
  | .persistCandidate => ∀ change, s.change = some change → ∀ draft, Logged s draft ∨ Held s draft →
    DraftFits s.schema.schema change.candidate.1 draft
  | .validate index _ => ∀ candidate, s.pending = some candidate →
    ∀ draft, NextUpsert s index draft →
    DraftFits s.schema.schema candidate draft
  | .failChange => ∀ candidate, s.pending = some candidate →
    candidate.version ≠ s.schema.schema.version
  | _ => True

/-! ## The invariant -/

/-- The active schema accepts an upsert, and so does one that is about to become active. -/
def Accepted (s : Server) (draft : DbRecordDraft) : Prop :=
  ValidUnder s.schema.schema draft ∧ ∀ candidate, s.pending = some candidate → ValidUnder candidate draft

/-- The schema of a version accepts an upsert. -/
def ValidAt (s : Server) (version : Nat) (draft : DbRecordDraft) : Prop :=
  ∃ schema, s.schema.history[version]? = some schema ∧ ValidUnder schema draft

/-- A change that is under way is compatible, and the records fit the schema that is current. -/
structure Inv (s : Server) : Prop where
  compatible : ∀ change, s.change = some change →
    (SchemaMigrationPlan.between s.schema.schema change.candidate.1).compatible = true
  current : ∃ schema, s.schema.history[s.schema.schema.version]? = some schema ∧
    (schema = s.schema.schema ∨ s.pending = some schema ∧ schema.version = s.schema.schema.version)
  persisted : ∀ candidate, s.pending = some candidate → s.schema.history[candidate.version]? = some candidate
  logged : ∀ record ∈ s.wal, ∀ draft, .upsert draft ∈ recordMutations record.payload →
    Accepted s draft ∧ ValidAt s record.schemaVersion draft
  held : ∀ writer ∈ s.writers, writer.live = true → ∀ draft, .upsert draft ∈ writer.prepared →
    Accepted s draft ∧ ∀ version, writer.phase = .appending version → ValidAt s version draft

theorem Inv.new (defaultNextdb : DatabaseSchema) (file : Option DatabaseSchema)
    (history : BTreeMap Nat DatabaseSchema) : Inv (Server.new defaultNextdb file history) where
  compatible _ h := by cases h
  current := ⟨_, ExtTreeMap.getElem?_insert_self, .inl rfl⟩
  persisted _ h := by cases h
  logged _ h := by cases h
  held _ h := by cases h

variable {s : Server}

theorem Inv.validAt_active (h : Inv s) (ha : Accepted s draft) :
    ValidAt s s.schema.schema.version draft := by
  obtain ⟨schema, hschema, rfl | ⟨hpending, -⟩⟩ := h.current
  · exact ⟨_, hschema, ha.1⟩
  · exact ⟨schema, hschema, ha.2 schema hpending⟩

variable {writer : Writer}

/-- A writer is replaced by one that keeps what was validated. -/
theorem Inv.setWriter (h : Inv s) {index : Nat}
    (hwriter : writer.live = true → ∀ draft, .upsert draft ∈ writer.prepared → Accepted s draft ∧
      ∀ version,
    writer.phase = .appending version → ValidAt s version draft) :
    Inv (s.setWriter index writer) where
  compatible := h.compatible
  current := h.current
  persisted := h.persisted
  logged := h.logged
  held other hother := by
    rcases mem_or_eq_of_mem_set hother with hother | rfl
    · exact h.held other hother
    · exact hwriter

/-- A record is appended whose upserts are accepted. -/
theorem Inv.push (h : Inv s) (stamp : WalStamp) {version : Nat} {payload : WalPayload}
    (hpayload : ∀ draft, .upsert draft ∈ recordMutations payload → Accepted s draft ∧
      ValidAt s version draft) :
    Inv (s.push stamp version payload) where
  compatible := h.compatible
  current := h.current
  persisted := h.persisted
  logged record hrecord := by
    rcases mem_append.mp hrecord with hrecord | hrecord
    · exact h.logged record hrecord
    · rw [mem_singleton.mp hrecord]
      exact hpayload
  held := h.held

theorem mem_prepared_of_payload {payload : WalPayload} (hp : writer.payload = some payload)
    (hd : .upsert draft ∈ recordMutations payload) : .upsert draft ∈ writer.prepared := by
  unfold Writer.payload at hp
  split at hp
  · obtain ⟨id, -, rfl⟩ := map_eq_some_iff.mp hp
    cases hd
  · cases hp
    exact hd
  · next hprepared =>
    cases hp
    rw [hprepared]
    exact hd
  · next hprepared =>
    cases hp
    rw [hprepared]
    exact hd
  · cases hp

/-- An upsert that passes is valid under the schema that it was checked against. -/
theorem validUnder_of_validate {schema : DatabaseSchema} {operation : RecordOperation}
    {timestampMs : Nat} {clientMutationId : Option String} (h : operation.validate schema = .ok ())
    (hd : operation.mutation timestampMs clientMutationId = .upsert draft) :
    ValidUnder schema draft := by
  cases operation with
  | upsert table key value =>
    cases hd
    exact ⟨.table table, rfl, h⟩
  | nestedUpsert table parentKey nested nestedKey value =>
    cases hd
    exact ⟨.nested table nested, rfl, h⟩
  | delete | nestedDelete => cases hd

/-! ## Steps -/

theorem Inv.validate (h : Inv s) {index : Nat} {kept : Bool} {writer writer' : Writer}
    (hmeets : Meets s (.validate index kept)) (hw : s.writers[index]? = some writer)
    (hv : validateNext s.schema.schema kept writer = some writer') :
    Inv (s.setWriter index writer') := by
  unfold validateNext at hv
  split at hv
  · next operation rest hphase =>
    split at hv
    · next hvalid =>
      cases hv
      refine h.setWriter fun _ draft hd => ?_
      dsimp only at hd ⊢
      rcases mem_append.mp hd with hd | hd
      · have hlive : writer.live = true := by rw [Writer.live, hphase]
        exact ⟨(h.held writer (mem_of_getElem? hw) hlive draft hd).1, nofun⟩
      · cases kept with
        | false => cases hd
        | true =>
          have hd := (mem_singleton.mp hd).symm
          have hactive := validUnder_of_validate hvalid hd
          refine ⟨⟨hactive, fun candidate hpending => ?_⟩, nofun⟩
          have hfits := hmeets candidate hpending draft ⟨writer, operation, rest, _, hw, hphase, hd⟩
          cases hchange : s.change with
          | none => simp [Server.pending, hchange] at hpending
          | some change =>
            have hcandidate : candidate = change.candidate.1 := by
              unfold Server.pending at hpending
              rw [hchange] at hpending
              split at hpending
              · next he =>
                cases he
                exact (some.inj hpending).symm
              · cases hpending
            subst hcandidate
            exact hactive.of_compatible (h.compatible change hchange) change.candidate.2 hfits
    · cases hv
  · cases hv

theorem Inv.readVersion (h : Inv s) {index : Nat}
    (hw : s.writers[index]? = some writer) (hphase : writer.phase = .preparing []) :
    Inv (s.setWriter index { writer with phase := .appending s.schema.schema.version }) := by
  refine h.setWriter fun _ draft hd => ?_
  have hlive : writer.live = true := by rw [Writer.live, hphase]
  have haccepted := (h.held writer (mem_of_getElem? hw) hlive draft hd).1
  refine ⟨haccepted, fun version hversion => ?_⟩
  cases hversion
  exact h.validAt_active haccepted

theorem Inv.append (h : Inv s) {index version : Nat}
    {writer : Writer} {payload : WalPayload} (stamp : WalStamp)
    (hw : s.writers[index]? = some writer)
    (hphase : writer.phase = .appending version) (hp : writer.payload = some payload) :
    Inv ((s.push stamp version payload).setWriter index { writer with phase := .finished }) := by
  refine Inv.setWriter (h.push stamp fun draft hd => ?_) nofun
  have hlive : writer.live = true := by rw [Writer.live, hphase]
  have hheld := h.held writer (mem_of_getElem? hw) hlive draft (mem_prepared_of_payload hp hd)
  exact ⟨hheld.1, hheld.2 version hphase⟩

theorem pending_of_ne {change : Option Change} {t : Server} (ht : t.change = change)
    (hphase : ∀ c, change = some c → c.phase ≠ .persisted) : t.pending = none := by
  unfold Server.pending
  rw [ht]
  split
  · exact absurd rfl (hphase _ rfl)
  · rfl

/-- The change is replaced by one that is not persisted, and none was. -/
theorem Inv.setChange (h : Inv s) {change : Option Change} (hpending : s.pending = none)
    (hphase : ∀ c, change = some c → c.phase ≠ .persisted) (hcompatible : ∀ c, change = some c →
    (SchemaMigrationPlan.between s.schema.schema c.candidate.1).compatible = true) :
    Inv { s with change } := by
  have hpending' : ({ s with change } : Server).pending = none := pending_of_ne rfl hphase
  have haccepted : ∀ {draft}, Accepted s draft → Accepted { s with change } draft := fun ha =>
    ⟨ha.1, fun _ hc => by rw [hpending'] at hc; cases hc⟩
  have hnone : ∀ {candidate}, ({ s with change } : Server).pending ≠ some candidate := by simp [hpending']
  refine ⟨hcompatible, ?_, fun _ hc => absurd hc hnone, ?_, ?_⟩
  · obtain ⟨schema, hschema, rfl | ⟨hp, -⟩⟩ := h.current
    · exact ⟨_, hschema, .inl rfl⟩
    · rw [hpending] at hp
      cases hp
  · exact fun record hrecord draft hd => (h.logged record hrecord draft hd).imp_left haccepted
  · exact fun writer hw hlive draft hd => (h.held writer hw hlive draft hd).imp_left haccepted

theorem Inv.persistCandidate (h : Inv s) {change : Change} (hmeets : Meets s .persistCandidate)
    (hchange : s.change =
    some change) (hphase : change.phase = .logged) : Inv { s with
      schema := (s.schema.persistHistorySchema change.candidate.1).persistSchema change.candidate.1
      change := some { change with phase := .persisted } } := by
  obtain ⟨⟨candidate, hwf⟩, phase⟩ := change
  cases hphase
  have hcompatible := h.compatible _ hchange
  have hfits := hmeets _ hchange
  dsimp only at hcompatible hfits
  set t : Server := { s with
    schema := (s.schema.persistHistorySchema candidate).persistSchema candidate
    change := some ⟨⟨candidate, hwf⟩, .persisted⟩ } with ht
  have hfound : ∀ version : Nat, t.schema.history[version]? =
      if candidate.version = version then some candidate else s.schema.history[version]? := by
    intro version
    show (s.schema.history.insert candidate.version candidate)[version]? = _
    rw [ExtTreeMap.getElem?_insert]
    simp only [Nat.compare_eq_eq]
  have hnew : ∀ {draft}, Logged s draft ∨ Held s draft → Accepted s draft → ValidUnder candidate draft :=
    fun hd ha => ha.1.of_compatible hcompatible hwf (hfits _ hd)
  have haccepted : ∀ {draft}, Logged s draft ∨ Held s draft → Accepted s draft → Accepted t draft := by
    refine fun hd ha => ⟨ha.1, fun candidate' hc => ?_⟩
    cases hc
    exact hnew hd ha
  have hvalidAt : ∀ {draft version}, Logged s draft ∨ Held s draft → Accepted s draft →
      ValidAt s version draft → ValidAt t version draft := by
    intro draft version hd ha ⟨schema, hschema, hvalid⟩
    by_cases hv : candidate.version = version
    · exact ⟨candidate, by rw [hfound, if_pos hv], hnew hd ha⟩
    · exact ⟨schema, by rw [hfound, if_neg hv, hschema], hvalid⟩
  refine ⟨fun c hc => by cases hc; exact hcompatible, ?_, fun c hc => ?_, ?_, ?_⟩
  · by_cases hv : candidate.version = s.schema.schema.version
    · exact ⟨candidate, by rw [hfound]; exact if_pos hv, .inr ⟨rfl, hv⟩⟩
    · obtain ⟨schema, hschema, rfl | ⟨hp, -⟩⟩ := h.current
      · exact ⟨s.schema.schema, by rw [hfound]; exact (if_neg hv).trans hschema, .inl rfl⟩
      · rw [pending_of_ne hchange fun c hc => by cases hc; nofun] at hp
        cases hp
  · cases hc
    rw [hfound, if_pos rfl]
  · intro record hrecord draft hd
    obtain ⟨ha, hv⟩ := h.logged record hrecord draft hd
    have hlogged : Logged s draft ∨ Held s draft := .inl ⟨record, hrecord, hd⟩
    exact ⟨haccepted hlogged ha, hvalidAt hlogged ha hv⟩
  · intro writer hw hlive draft hd
    obtain ⟨ha, hv⟩ := h.held writer hw hlive draft hd
    have hheld : Logged s draft ∨ Held s draft := .inr ⟨writer, hw, hlive, hd⟩
    exact ⟨haccepted hheld ha, fun version hphase => hvalidAt hheld ha (hv version hphase)⟩

theorem Inv.activate (h : Inv s)
    {change : Change} (hchange : s.change = some change) (hphase : change.phase = .persisted) :
    Inv { s with schema := s.schema.apply change.candidate.1, change := none } := by
  obtain ⟨⟨candidate, hwf⟩, phase⟩ := change
  cases hphase
  have hpending : s.pending = some candidate := by rw [Server.pending, hchange]
  have haccepted : ∀ {draft}, Accepted s draft →
      Accepted { s with schema := s.schema.apply candidate, change := none } draft :=
    fun ha => ⟨ha.2 candidate hpending, nofun⟩
  refine ⟨nofun, ⟨candidate, h.persisted candidate hpending, .inl rfl⟩, nofun, ?_, ?_⟩
  · exact fun record hrecord draft hd => (h.logged record hrecord draft hd).imp_left haccepted
  · exact fun writer hw hlive draft hd => (h.held writer hw hlive draft hd).imp_left haccepted

theorem Inv.failChange (h : Inv s) (hmeets : Meets s .failChange) :
    Inv { s with change := none } := by
  have haccepted : ∀ {draft}, Accepted s draft → Accepted { s with change := none } draft :=
    fun ha => ⟨ha.1, nofun⟩
  refine ⟨nofun, ?_, nofun, ?_, ?_⟩
  · obtain ⟨schema, hschema, rfl | ⟨hp, hversion⟩⟩ := h.current
    · exact ⟨_, hschema, .inl rfl⟩
    · exact absurd hversion (hmeets schema hp)
  · exact fun record hrecord draft hd => (h.logged record hrecord draft hd).imp_left haccepted
  · exact fun writer hw hlive draft hd => (h.held writer hw hlive draft hd).imp_left haccepted

theorem Inv.next (h : Inv s) {e : Event} (hmeets : Meets s e) {t : Server}
    (hs : next s e = some t) : Inv t := by
  cases e with
  | request transaction timestampMs clientMutationId operations =>
    cases hs
    refine ⟨h.compatible, h.current, h.persisted, h.logged, fun writer hw hlive draft hd => ?_⟩
    rcases mem_append.mp hw with hw | hw
    · exact h.held writer hw hlive draft hd
    · rw [mem_singleton.mp hw] at hd
      cases hd
  | validate index kept =>
    obtain ⟨writer, hw, hs⟩ := bind_eq_some_iff.mp hs
    obtain ⟨writer', hv, hs⟩ := bind_eq_some_iff.mp hs
    cases hs
    exact h.validate hmeets hw hv
  | readVersion index =>
    obtain ⟨writer, hw, hs⟩ := bind_eq_some_iff.mp hs
    split at hs
    · next hphase =>
      cases hs
      exact h.readVersion hw hphase
    · cases hs
  | append index stamp =>
    obtain ⟨writer, hw, hs⟩ := bind_eq_some_iff.mp hs
    split at hs
    · next version hphase =>
      obtain ⟨payload, hp, hs⟩ := bind_eq_some_iff.mp hs
      cases hs
      exact h.append stamp hw hphase hp
    · cases hs
  | refuse index =>
    obtain ⟨writer, hw, hs⟩ := bind_eq_some_iff.mp hs
    cases hs
    exact h.setWriter nofun
  | plan candidate =>
    simp only [RecordCommit.next] at hs
    split at hs
    · next hplan =>
      cases hs
      have hnone : s.change = none := isNone_iff_eq_none.mp hplan.1
      refine h.setChange (pending_of_ne hnone nofun) ?_ ?_
      · rintro _ ⟨⟩
        nofun
      · rintro _ ⟨⟩
        exact hplan.2.2
    · cases hs
  | appendSchemaApplied stamp =>
    obtain ⟨change, hchange, hs⟩ := bind_eq_some_iff.mp hs
    split at hs
    · next hphase =>
      cases hs
      have hpending : s.pending = none := pending_of_ne hchange fun c hc => by
        cases hc
        rw [hphase]
        nofun
      refine Inv.setChange (h.push stamp fun draft hd => ?_) hpending ?_ ?_
      · cases hd
      · rintro _ ⟨⟩
        nofun
      · rintro _ ⟨⟩
        exact h.compatible change hchange
    · cases hs
  | persistCandidate =>
    obtain ⟨change, hchange, hs⟩ := bind_eq_some_iff.mp hs
    split at hs
    · next hphase =>
      cases hs
      exact h.persistCandidate hmeets hchange hphase
    · cases hs
  | activate =>
    obtain ⟨change, hchange, hs⟩ := bind_eq_some_iff.mp hs
    split at hs
    · next hphase =>
      cases hs
      exact h.activate hchange hphase
    · cases hs
  | failChange =>
    obtain ⟨_, -, hs⟩ := bind_eq_some_iff.mp hs
    cases hs
    exact h.failChange hmeets

/-- Where what is validated fits the candidate of a change that is about to become active, every
upsert in the log is valid under the schema of its version and under the active schema. -/
theorem committed_valid {defaultNextdb : DatabaseSchema} {file : Option DatabaseSchema}
    {history : BTreeMap Nat DatabaseSchema}
    (h : Reaches (fun s e t => next s e = some t) Meets (Server.new defaultNextdb file history) s)
    {record : WalRecord}
    (hrecord : record ∈ s.wal) {draft : DbRecordDraft}
    (hd : .upsert draft ∈ recordMutations record.payload) :
    ValidAt s record.schemaVersion draft ∧ ValidUnder s.schema.schema draft := by
  have hinv := h.invariant (fun _ _ _ hs hmeets hstep => hs.next hmeets hstep) (Inv.new defaultNextdb file history)
  obtain ⟨haccepted, hvalid⟩ := hinv.logged record hrecord draft hd
  exact ⟨hvalid, haccepted.1⟩

/-! ## Two runs -/

/-- A check of a run in which changes and writers do not overlap. -/
def fenced (s : Server) : Event → Bool
  | .persistCandidate => s.writers.isEmpty && s.wal.all fun record => (recordMutations record.payload).isEmpty
  | .validate _ _ | .failChange => s.pending.isNone
  | _ => true

theorem meets_of_fenced (s : Server) (e : Event) (h : fenced s e = true) : Meets s e := by
  cases e with
  | persistCandidate =>
    rw [fenced, Bool.and_eq_true, List.isEmpty_iff, List.all_eq_true] at h
    rintro _ _ draft (⟨record, hrecord, hd⟩ | ⟨writer, hw, -⟩)
    · rw [isEmpty_iff.mp (h.2 record hrecord)] at hd
      cases hd
    · rw [h.1] at hw
      cases hw
  | validate | failChange =>
    rintro candidate hc
    rw [fenced, hc] at h
    cases h
  | _ => trivial

def postStamp : WalStamp := ⟨0, 1, "a", 0, .strict, none⟩

def postsServer : Server := Server.new postsCurrent none ∅

/-- The change to the candidate. -/
def changeTo (candidate : { schema : DatabaseSchema // schema.WellFormed }) : List Event :=
  [.plan candidate, .appendSchemaApplied postStamp, .persistCandidate, .activate]

/-- The change, and then a post. -/
def changeThenPost : List Event :=
  changeTo ⟨postsCandidate, postsCandidate_wellFormed⟩ ++
    [.request false 0 none [.upsert "posts" "a" postsRow.value], .validate 0 true, .readVersion 0, .append 0 postStamp]

/-- The log holds a post without a title, of this version. -/
def logsPost (version : Nat) (s : Server) : Bool :=
  s.wal.any fun record => record.schemaVersion == version && (recordMutations record.payload).any fun
    | .upsert draft => draft.table == "posts" && (draft.value.json.asObject.bind (·.lookup "title")).isNone
    | .delete _ => false

theorem exists_of_logsPost {version : Nat} {s : Server} (h : logsPost version s = true) :
    ∃ record ∈ s.wal, record.schemaVersion = version ∧
    ∃ draft, .upsert draft ∈ recordMutations record.payload ∧
    draft.table = "posts" ∧ (draft.value.json.asObject.bind (·.lookup "title")).isNone = true := by
  obtain ⟨record, hrecord, h⟩ := any_eq_true.mp h
  rw [Bool.and_eq_true, beq_iff_eq] at h
  obtain ⟨mutation, hmutation, hpost⟩ := any_eq_true.mp h.2
  cases mutation with
  | delete _ => cases hpost
  | upsert draft =>
    rw [Bool.and_eq_true, beq_iff_eq] at hpost
    exact ⟨record, hrecord, h.1, draft, hmutation, hpost⟩

theorem committed_valid_sample :
    ∃ s record draft, run next fenced postsServer changeThenPost = some s ∧
    record ∈ s.wal ∧ .upsert draft ∈ recordMutations record.payload ∧ record.schemaVersion = 2 ∧
    ValidAt s record.schemaVersion draft ∧ ValidUnder s.schema.schema draft := by
  have hlogs : (run next fenced postsServer changeThenPost).any (logsPost 2) = true := by decide +kernel
  cases hrun : run next fenced postsServer changeThenPost with
  | none =>
    rw [hrun] at hlogs
    cases hlogs
  | some s =>
    rw [hrun] at hlogs
    obtain ⟨record, hrecord, hversion, draft, hd, -⟩ := exists_of_logsPost hlogs
    exact ⟨s, record, draft, rfl, hrecord, hd, hversion,
      committed_valid (Reaches.of_run meets_of_fenced hrun) hrecord hd⟩

/-- A candidate that requires a title. -/
def titledPosts : DatabaseSchema := postsSchema 2 (idField.insert "title" ⟨.string, false⟩)

theorem titledPosts_wellFormed : titledPosts.WellFormed :=
  postsSchema_wellFormed 2 (mapWellFormed_insert idField_wellFormed trivial)

/-- A post is validated before the change, and appended after it. -/
def postAcrossChange : List Event :=
  [.request false 0 none [.upsert "posts" "a" postsRow.value], .validate 0 true] ++
    changeTo ⟨titledPosts, titledPosts_wellFormed⟩ ++ [.readVersion 0, .append 0 postStamp]

theorem not_validUnder_titledPosts (htable : draft.table = "posts")
    (htitle : (draft.value.json.asObject.bind (·.lookup "title")).isNone = true) :
    ¬ValidUnder titledPosts draft := by
  rintro ⟨path, hpath, hvalid⟩
  cases path with
  | table name =>
    obtain rfl : name = "posts" := hpath.symm.trans htable
    obtain ⟨table, hfound, hvalid⟩ := bind_eq_ok.mp hvalid
    obtain ⟨-, rfl⟩ := eq_of_insert_empty (okOr_eq_ok.mp hfound)
    obtain ⟨object, hobject, haccepts⟩ := validateObjectFields_ok.mp hvalid
    have hone := haccepts "title" ⟨.string, false⟩ ExtTreeMap.getElem?_insert_self
    rw [hobject, bind_some, isNone_iff_eq_none] at htitle
    rw [htitle] at hone
    cases hone
  | nested parent name =>
    obtain ⟨nested, hfound, -⟩ := bind_eq_ok.mp hvalid
    obtain ⟨table, hfound, hnested⟩ := bind_eq_some_iff.mp (okOr_eq_ok.mp hfound)
    obtain ⟨-, rfl⟩ := eq_of_insert_empty hfound
    simp at hnested

/-- A run across a change leaves an upsert that neither schema accepts. -/
theorem committed_across_change :
    ¬∀ s : Server, Reaches (fun s e t => next s e = some t) (fun _ _ => True)
    postsServer s → ∀ record ∈ s.wal, ∀ draft, .upsert draft ∈ recordMutations record.payload →
    ValidAt s record.schemaVersion draft ∧
    (s.change = none → ValidUnder s.schema.schema draft) := by
  intro h
  have hlogs : (run next (fun _ _ => true) postsServer postAcrossChange).any (fun s =>
      logsPost 2 s && decide (s.schema.history[2]? = some titledPosts)) = true := by decide +kernel
  cases hrun : run next (fun _ _ => true) postsServer postAcrossChange with
  | none =>
    rw [hrun] at hlogs
    cases hlogs
  | some s =>
    rw [hrun, any_some, Bool.and_eq_true, decide_eq_true_eq] at hlogs
    obtain ⟨record, hrecord, hversion, draft, hd, htable, htitle⟩ := exists_of_logsPost hlogs.1
    obtain ⟨schema, hschema, hvalid⟩ := (h s (Reaches.of_run (fun _ _ _ => trivial) hrun) record hrecord draft hd).1
    rw [hversion, hlogs.2] at hschema
    cases hschema
    exact not_validUnder_titledPosts htable htitle hvalid

end NextDb.Api.RecordCommit
