import NextDb.Api.ProjectionLists
import NextDb.Api.RecordChecks

/-!
# The projection job of a transaction

A transaction is validated as one step. Its job deletes records of the projection and then upserts
others one after the other, each under a check of the unique indexes.

* `transaction_projects_iff`: the job of a transaction that is accepted succeeds, and leaves the
  records that are then committed, exactly if no upsert takes the values of a record that a later
  upsert of it changes, and a record is changed at the path at which it is committed.
-/

namespace NextDb.Api.TransactionJob

open Records List Option Function Fallible TextKeys Converge ObjectRefIndex ProjectionKv CurrentRecords
open RecordChecks
open RecordCommit (RecordOperation)
open RecordMatch (recordIndexValues)

/-- The indexes and the orders of the tables of a schema. -/
def shapeOf (schema : DatabaseSchema) : ProjectionShape where
  indexes table := (recordIndexes schema table).toOption.getD ∅
  order table := (recordOrderForLogicalTable schema table).toOption.getD none

/-- The names of indexes that a schema declares. -/
theorem shapeOf_named {schema : DatabaseSchema}
    (htables : ∀ (table : String) (t : TableSchema), schema.tables[table]? =
    some t → ∀ (name : String) (index : IndexSchema), t.indexes[name]? = some index → NulFree name)
    (hnested : ∀ parent nested t, schema.nestedTable parent nested = some t →
      ∀ (name : String) (index : IndexSchema),
    t.indexes[name]? = some index → NulFree name) : (shapeOf schema).Named := by
  intro table name index hindex
  cases hindexes : recordIndexes schema table with
  | error err =>
    simp only [shapeOf, hindexes] at hindex
    cases hindex.symm.trans Std.ExtTreeMap.getElem?_empty
  | ok indexes =>
    simp only [shapeOf, hindexes] at hindex
    replace hindex : indexes[name]? = some index := hindex
    unfold recordIndexes at hindexes
    split at hindexes
    · next t htable =>
      obtain rfl := Except.ok.inj hindexes
      exact htables table t htable name index hindex
    · split at hindexes
      · next t hfound =>
        obtain ⟨⟨parent, nested⟩, -, hfound⟩ := bind_eq_some_iff.mp hfound
        obtain rfl := Except.ok.inj hindexes
        exact hnested parent nested t hfound name index hindex
      · cases hindexes

/-- A schema with one table, without nested ones. -/
theorem shapeOf_named_single {schema : DatabaseSchema} {table : String} {t : TableSchema}
    (htables : schema.tables = (∅ : BTreeMap String TableSchema).insert table t)
    (hnested : t.nested = ∅)
    (hindexes : ∀ (name : String) (index : IndexSchema), t.indexes[name]? = some index →
      NulFree name) :
    (shapeOf schema).Named := by
  have honly : ∀ {table' : String} {t' : TableSchema}, schema.tables[table']? = some t' → t' = t := by
    intro table' t' h
    rw [htables, Std.ExtTreeMap.getElem?_insert, Std.ExtTreeMap.getElem?_empty] at h
    split at h
    · exact (some.inj h).symm
    · cases h
  refine shapeOf_named (fun table' t' h => honly h ▸ hindexes) fun parent nested t' hfound => ?_
  obtain ⟨t₁, h, hfound⟩ := bind_eq_some_iff.mp hfound
  rw [honly h, hnested] at hfound
  cases hfound.symm.trans Std.ExtTreeMap.getElem?_empty

/-- The log's changes of records are those of operations whose components are safe. -/
def OperationsLogged (wal : List WalRecord) : Prop :=
  ∀ r ∈ wal, ∀ mutation ∈ recordMutations r.payload, ∃ operation nowMs clientMutationId,
    componentsSafe operation = true ∧ mutation = operation.mutation nowMs clientMutationId

/-- The committed records, by their paths, are the current ones, by their tables and keys. -/
def AreCurrent (committed : BTreeMap String DbRecord) (current : CurrentRecords) : Prop :=
  ∀ place record, rows current place = some record ↔
    ∃ path : String, committed[path]? = some record ∧ place = (record.table, record.key)

/-! ## Paths and places -/

/-- The path of a record is one of an operation on it. -/
structure Located (path : String) (place : String × String) : Prop where
  operation : ∃ operation nowMs clientMutationId, componentsSafe operation = true ∧
    mutationPath (operation.mutation nowMs clientMutationId) = path ∧
    mutationPlace (operation.mutation nowMs clientMutationId) = place

variable {operation : RecordOperation} {place : String × String} {path name : String}
    {record : DbRecord}
  {mutation : DbRecordMutationDraft} {draft : DbRecordDraft} {upserts : List DbRecordDraft}
  {committed : BTreeMap String DbRecord} {nowMs : Nat} {kept : List RecordOperation}
    {index : IndexSchema}

theorem place_of_components {operation' : RecordOperation}
    (h : operationComponents operation = operationComponents operation') (nowMs nowMs' : Nat)
    (clientMutationId clientMutationId' : Option String) :
    mutationPlace (operation.mutation nowMs clientMutationId) =
    mutationPlace (operation'.mutation nowMs' clientMutationId') := by
  cases operation <;> cases operation' <;> simp_all [operationComponents, RecordOperation.mutation, mutationPlace]

theorem Located.place_eq {place' : String × String} (h : Located path place)
    (h' : Located path place') :
    place = place' := by
  obtain ⟨operation, nowMs, id, hsafe, rfl, rfl⟩ := h.operation
  obtain ⟨operation', nowMs', id', hsafe', hpath, rfl⟩ := h'.operation
  have hlist := congrArg String.toList hpath
  rw [mutation_path, mutation_path] at hlist
  exact (place_of_components (joinSlash_inj (slash_notMem_components hsafe') (slash_notMem_components hsafe)
    (append_cancel_left hlist)) _ _ _ _).symm

/-- A character that components do not have is not in a table or key made of them. -/
theorem notMem_place {c : Char}
    (hc : ∀ value, ensureSafeRecordComponent value = true → c ∉ value.toList)
    (hdot : c ∉ ".".toList) (hcolon : c ∉ ":".toList) (h : componentsSafe operation = true)
    (nowMs : Nat)
    (clientMutationId : Option String) :
    c ∉ (mutationPlace (operation.mutation nowMs clientMutationId)).1.toList ∧
    c ∉ (mutationPlace (operation.mutation nowMs clientMutationId)).2.toList := by
  have hjoined : ∀ {a b d : String}, c ∉ a.toList → c ∉ b.toList → c ∉ d.toList → c ∉ (a ++ d ++ b).toList := by
    intro a b d ha hb hd
    simp only [String.toList_append, mem_append, not_or]
    exact ⟨⟨ha, hd⟩, hb⟩
  cases operation with
  | upsert | delete =>
    obtain ⟨htable, hkey⟩ := Bool.and_eq_true _ _ ▸ h
    exact ⟨hc _ htable, hc _ hkey⟩
  | nestedUpsert | nestedDelete =>
    simp only [componentsSafe, Bool.and_eq_true] at h
    exact ⟨hjoined (hc _ h.1.1.1) (hc _ h.1.2) hdot, hjoined (hc _ h.1.1.2) (hc _ h.2) hcolon⟩

/-- Two records of a safe table and key have different identities. -/
theorem Located.place_of_identity {path' : String} {place' : String × String}
    (h : Located path place)
    (h' : Located path' place')
    (hsame : identityOf place.1 place.2 = identityOf place'.1 place'.2) :
    place = place' := by
  have hslash : ∀ {path : String} {place : String × String}, Located path place → ∀ part ∈ [place.1, place.2],
      '/' ∉ part.toList := by
    rintro path place ⟨operation, nowMs, id, hsafe, -, rfl⟩ part hpart
    obtain ⟨htable, hkey⟩ := notMem_place (fun _ => slash_notMem_of_safe) (by decide) (by decide) hsafe nowMs id
    rcases mem_pair.mp hpart with rfl | rfl
    · exact htable
    · exact hkey
  have hjoin : ∀ place : String × String, joinSlash [place.1, place.2] = '/' :: (identityOf place.1 place.2).toList :=
      by
    intro place
    simp [joinSlash, identityOf]
  have hlist := joinSlash_inj (hslash h) (hslash h') (by rw [hjoin, hjoin, hsame])
  exact Prod.ext (cons.inj hlist).1 (cons.inj (cons.inj hlist).2).1

/-- A committed record is at the path of an operation on it. -/
structure CommittedAt (committed : BTreeMap String DbRecord) : Prop where
  path : ∀ (path : String) (record : DbRecord), committed[path]? = some record → record.path = path
  located : ∀ (path : String) (record : DbRecord), committed[path]? = some record →
      Located path (record.table, record.key)

theorem mutationLeaves_place {lsn : Nat} (h : mutationLeaves lsn mutation = some record) :
    mutationPlace mutation = (record.table, record.key) := by
  cases mutation with
  | upsert draft =>
    cases h
    rfl
  | delete draft => cases h

theorem committedAt_recordsByPath {wal : List WalRecord} (h : OperationsLogged wal) :
    CommittedAt (recordsByPath wal) := by
  induction wal using reverseRecOn with
  | nil => exact ⟨fun path record hnone => by simp [recordsByPath] at hnone, fun path record hnone => by
      simp [recordsByPath] at hnone⟩
  | append_singleton wal r ih =>
    have ih := ih fun r' hr' => h r' (mem_append_left _ hr')
    have hlast := h r (mem_append_right _ (mem_singleton.mpr rfl))
    have hcases : ∀ {path : String} {record : DbRecord}, (recordsByPath (wal ++ [r]))[path]? = some record →
        (∃ mutation ∈ recordMutations r.payload, mutationPath mutation = path ∧
          mutationLeaves r.lsn mutation = some record) ∨ (recordsByPath wal)[path]? = some record := by
      intro path record hfound
      rw [recordsByPath_concat, getElem?_applyWalRecord] at hfound
      cases hmutation : walMutationAt path r with
      | none => exact .inr (by rwa [hmutation] at hfound)
      | some mutation =>
        rw [hmutation] at hfound
        obtain ⟨hmem, hpath⟩ := mem_of_lastAt hmutation
        exact .inl ⟨mutation, hmem, hpath, hfound⟩
    constructor
    · intro path record hfound
      rcases hcases hfound with ⟨mutation, -, hpath, hleaves⟩ | hfound
      · exact (mutationLeaves_path hleaves).trans hpath
      · exact ih.path path record hfound
    · intro path record hfound
      rcases hcases hfound with ⟨mutation, hmem, hpath, hleaves⟩ | hfound
      · obtain ⟨operation, nowMs, id, hsafe, rfl⟩ := hlast mutation hmem
        exact ⟨operation, nowMs, id, hsafe, hpath, mutationLeaves_place hleaves⟩
      · exact ih.located path record hfound

/-! ## The job -/

def deleteMutation (draft : DbRecordDeleteDraft) : RecordProjectionMutation :=
  .delete draft.table draft.key

def upsertMutation (schema : DatabaseSchema) (lsn : Nat) (draft : DbRecordDraft) :
    RecordProjectionMutation :=
  .upsert (draft.intoRecord lsn) ((shapeOf schema).indexes draft.table) ((shapeOf schema).order draft.table)

variable {lib : ProjectionLibraries} {schema : DatabaseSchema} {current : CurrentRecords}
    {kv : RecordProjectionKv}
  {lsn : Nat}

theorem preparedUpsert_eq
    {prepared : DbRecord × BTreeMap String IndexSchema × Option (List RecordOrderTerm)}
    (h : preparedUpsert schema lsn draft = .ok prepared) :
    prepared = (draft.intoRecord lsn, (shapeOf schema).indexes draft.table,
    (shapeOf schema).order draft.table) :=
        by
  obtain ⟨indexes, hindexes, h⟩ := bind_eq_ok.mp h
  obtain ⟨order, horder, h⟩ := bind_eq_ok.mp h
  obtain rfl := Except.ok.inj h
  simp only [shapeOf, badRequest_eq_ok.mp hindexes, horder]
  rfl

theorem preparedUpserts_eq {drafts : List DbRecordDraft}
    {upserts : List (DbRecord × BTreeMap String IndexSchema × Option (List RecordOrderTerm))}
    (h : drafts.mapM (preparedUpsert schema lsn) = .ok upserts) : upserts = drafts.map fun draft =>
    (draft.intoRecord lsn, (shapeOf schema).indexes draft.table,
    (shapeOf schema).order draft.table) := by
  have hforall := forall₂_of_mapM_ok h
  clear h
  induction hforall with
  | nil => rfl
  | cons hone _ ih => rw [map_cons, preparedUpsert_eq hone, ih]

variable {operations : List DbRecordMutationDraft} {r : WalRecord}

/-- The job deletes, and then upserts. -/
theorem job_eq {effects : List (Effect RecordProjectionKv)}
    (h : applyRecordTransactionOperations schema operations lsn = .ok effects)
    {mutations : List RecordProjectionMutation}
    (hjob : .enqueue (.transaction lsn mutations) ∈ effects) : mutations =
    (deleteDrafts operations).map deleteMutation ++ (upsertDrafts operations).map (upsertMutation schema lsn) := by
  obtain ⟨upserts, hupserts, h⟩ := bind_eq_ok.mp h
  obtain rfl := Except.ok.inj h
  have hmutations : mutations = (deleteDrafts operations).map deleteMutation ++ upserts.map fun upsert =>
      .upsert upsert.1 upsert.2.1 upsert.2.2 := by
    rcases mem_append.mp hjob with hdelete | hjob
    · obtain ⟨draft, -, hdraft⟩ := mem_map.mp hdelete
      cases hdraft
    · rcases mem_cons.mp hjob with hhot | hjob
      · cases hhot
      · cases mem_singleton.mp hjob
        rfl
  rw [hmutations, preparedUpserts_eq hupserts, List.map_map]
  rfl

/-- The current records after the deletions of a job, and after its upserts. -/
def afterDeletes (current : CurrentRecords) (deletes : List DbRecordDeleteDraft) : CurrentRecords :=
  deletes.foldl (fun current draft => erase current draft.table draft.key) current

def afterUpserts (lsn : Nat) (current : CurrentRecords) (upserts : List DbRecordDraft) :
    CurrentRecords :=
  upserts.foldl (fun current draft => put current (draft.intoRecord lsn)) current

theorem exec_applyOperations_append (mutations more : List RecordProjectionMutation)
    (kv : RecordProjectionKv) :
    exec (applyOperations lib (mutations ++ more)) kv =
      match exec (applyOperations lib mutations) kv with
      | (.ok _, kv) => exec (applyOperations lib more) kv
      | (.error err, kv) => (.error err, kv) := by
  induction mutations generalizing kv with
  | nil => rfl
  | cons mutation mutations ih =>
    cases mutation with
    | upsert record indexes order =>
      rw [cons_append, applyOperations, applyOperations, exec_bind, exec_bind]
      generalize exec (upsertWithIndexes lib record indexes order) kv = outcome
      obtain ⟨_ | _, kv'⟩ := outcome
      · rfl
      · exact ih kv'
    | delete table key =>
      rw [cons_append, applyOperations, applyOperations, exec_bind, exec_bind]
      generalize exec (deleteFromProjection lib table key) kv = outcome
      obtain ⟨_ | _, kv'⟩ := outcome
      · rfl
      · exact ih kv'

/-- The deletions succeed. -/
theorem exec_deletes (hlib : lib.Lawful) (hshape : (shapeOf schema).Named)
    {deletes : List DbRecordDeleteDraft}
    (hdeletes : ∀ draft ∈ deletes, NulFree draft.table ∧ NulFree draft.key)
    (h : Agrees lib (shapeOf schema) current kv) :
    ∃ kv', exec (applyOperations lib (deletes.map deleteMutation)) kv =
    (.ok (), kv') ∧ Agrees lib (shapeOf schema) (afterDeletes current deletes) kv' := by
  induction deletes generalizing current kv with
  | nil => exact ⟨kv, rfl, h⟩
  | cons draft deletes ih =>
    obtain ⟨hdraft, hdeletes⟩ := forall_mem_cons.mp hdeletes
    obtain ⟨kv₁, hexec, h₁⟩ := h.delete hlib hshape hdraft.1 hdraft.2
    obtain ⟨kv₂, hrest, h₂⟩ := ih hdeletes h₁
    refine ⟨kv₂, ?_, h₂⟩
    rw [map_cons, deleteMutation, applyOperations, exec_bind, hexec]
    exact hrest

/-- No upsert has the values of another record in a unique index when it is made. -/
def NoConflicts (schema : DatabaseSchema) (lsn : Nat) : CurrentRecords → List DbRecordDraft → Prop
  | _, [] => True
  | current, draft :: upserts =>
    ¬ Conflicts (shapeOf schema) current (draft.intoRecord lsn) ∧
      NoConflicts schema lsn (put current (draft.intoRecord lsn)) upserts

theorem noConflicts_iff : NoConflicts schema lsn current upserts ↔
    ∀ before draft after, upserts = before ++ draft ::
    after → ¬ Conflicts (shapeOf schema) (afterUpserts lsn current before) (draft.intoRecord lsn) := by
  induction upserts generalizing current with
  | nil => exact iff_of_true trivial fun before draft after h => by simp at h
  | cons first upserts ih =>
    rw [NoConflicts, ih]
    constructor
    · rintro ⟨hfirst, hrest⟩ before draft after h
      cases before with
      | nil =>
        obtain ⟨rfl, -⟩ := cons.inj h
        exact hfirst
      | cons earlier before =>
        obtain ⟨rfl, hafter⟩ := cons.inj h
        exact hrest before draft after hafter
    · intro hall
      exact ⟨hall [] first upserts rfl, fun before draft after h => hall (first :: before) draft after (by rw [h]; rfl)⟩

/-- The record of an upsert can be stored with its indexes. -/
structure Storable (lib : ProjectionLibraries) (schema : DatabaseSchema) (lsn : Nat)
    (draft : DbRecordDraft) : Prop where
  named : Named (draft.intoRecord lsn)
  serializes : Serializes lib (draft.intoRecord lsn)
  indexable : Indexable (shapeOf schema) (draft.intoRecord lsn)
  indexesSerialize : IndexesSerialize lib (shapeOf schema) (draft.intoRecord lsn)
  updatedAtMs : draft.updatedAtMs ≤ maxU64

theorem exec_upserts (hlib : lib.Lawful) (hshape : (shapeOf schema).Named) (hlsn : lsn ≤ maxU64)
    (hupserts : ∀ draft ∈ upserts, Storable lib schema lsn draft)
    (h : Agrees lib (shapeOf schema) current kv) :
    ((exec (applyOperations lib (upserts.map (upsertMutation schema lsn))) kv).1 = .ok () ↔
    NoConflicts schema lsn current upserts) ∧
    (NoConflicts schema lsn current upserts →
    Agrees lib (shapeOf schema) (afterUpserts lsn current upserts)
    (exec (applyOperations lib (upserts.map (upsertMutation schema lsn))) kv).2) := by
  induction upserts generalizing current kv with
  | nil => exact ⟨iff_of_true rfl trivial, fun _ => h⟩
  | cons draft upserts ih =>
    obtain ⟨hdraft, hupserts⟩ := forall_mem_cons.mp hupserts
    have hiff := h.upsert_ok_iff hlib hshape hdraft.named
    rw [map_cons, upsertMutation, applyOperations, exec_bind]
    cases houtcome : exec (upsertWithIndexes lib (draft.intoRecord lsn) ((shapeOf schema).indexes draft.table)
        ((shapeOf schema).order draft.table)) kv with
    | mk outcome kv₁ =>
      have hfst :
          (exec (upsertWithIndexes lib (draft.intoRecord lsn) ((shapeOf schema).indexes (draft.intoRecord lsn).table)
        ((shapeOf schema).order (draft.intoRecord lsn).table)) kv) = (outcome, kv₁) := houtcome
      rw [hfst] at hiff
      cases outcome with
      | error err =>
        have hconflicts : Conflicts (shapeOf schema) current (draft.intoRecord lsn) := by
          by_contra hnone
          cases hiff.mpr ⟨hdraft.serializes, hdraft.indexable, hdraft.indexesSerialize, hnone⟩
        exact ⟨iff_of_false (fun h => nomatch h) fun hno => hno.1 hconflicts, fun hno => absurd hconflicts hno.1⟩
      | ok u =>
        have hno := (hiff.mp rfl).2.2.2
        have hagrees := h.upsert hlib hshape hdraft.named hlsn hdraft.updatedAtMs (by rw [hfst])
        rw [hfst] at hagrees
        have ih := ih hupserts hagrees
        exact ⟨ih.1.trans (and_iff_right hno).symm, fun hall => ih.2 hall.2⟩

/-! ## What the job leaves -/

theorem mem_upsertDrafts : draft ∈ upsertDrafts operations ↔ .upsert draft ∈ operations := by
  rw [upsertDrafts, mem_filterMap]
  constructor
  · rintro ⟨mutation, hmem, hdraft⟩
    cases mutation with
    | upsert draft' => exact some.inj hdraft ▸ hmem
    | delete draft' => cases hdraft
  · exact fun hmem => ⟨_, hmem, rfl⟩

theorem mem_deleteDrafts {draft : DbRecordDeleteDraft} :
    draft ∈ deleteDrafts operations ↔ .delete draft ∈ operations := by
  rw [deleteDrafts, mem_filterMap]
  constructor
  · rintro ⟨mutation, hmem, hdraft⟩
    cases mutation with
    | upsert draft' => cases hdraft
    | delete draft' => exact some.inj hdraft ▸ hmem
  · exact fun hmem => ⟨_, hmem, rfl⟩

theorem rows_afterDeletes {deletes : List DbRecordDeleteDraft} :
    rows (afterDeletes current deletes) place =
    some record ↔ (∀ draft ∈ deletes, (draft.table, draft.key) ≠ place) ∧
    rows current place = some record := by
  induction deletes generalizing current with
  | nil => simp [afterDeletes]
  | cons draft deletes ih =>
    rw [afterDeletes, foldl_cons, ← afterDeletes, ih, rows_erase, forall_mem_cons, and_assoc, and_left_comm]
    refine and_congr_right fun _ => ?_
    by_cases hplace : place = (draft.table, draft.key)
    · subst hplace
      simp
    · rw [update_of_ne hplace, and_iff_right (Ne.symm hplace)]

/-- Upserts of which each is for a record of its own. -/
theorem rows_afterUpserts
    (hone : ∀ a ∈ upserts, ∀ b ∈ upserts, (a.table, a.key) = (b.table, b.key) → a = b) :
    rows (afterUpserts lsn current upserts) place = some record ↔
    (∃ draft ∈ upserts, (draft.table, draft.key) = place ∧ draft.intoRecord lsn = record) ∨
    (∀ draft ∈ upserts, (draft.table, draft.key) ≠ place) ∧ rows current place = some record := by
  induction upserts generalizing current with
  | nil => simp [afterUpserts]
  | cons first upserts ih =>
    have hone' : ∀ a ∈ upserts, ∀ b ∈ upserts, (a.table, a.key) = (b.table, b.key) → a = b := fun a ha b hb =>
      hone a (mem_cons_of_mem _ ha) b (mem_cons_of_mem _ hb)
    rw [afterUpserts, foldl_cons, ← afterUpserts, ih hone', rows_put, forall_mem_cons]
    show _ ∨ _ ∧ update _ (first.table, first.key) _ place = _ ↔ _
    by_cases hplace : place = (first.table, first.key)
    · subst hplace
      rw [update_self, some.injEq]
      constructor
      · rintro (⟨draft, hdraft, hsame, hrecord⟩ | ⟨-, hrecord⟩)
        · exact .inl ⟨draft, mem_cons_of_mem _ hdraft, hsame, hrecord⟩
        · exact .inl ⟨first, mem_cons_self, rfl, hrecord⟩
      · rintro (⟨draft, hdraft, hsame, hrecord⟩ | ⟨⟨hne, -⟩, -⟩)
        · obtain rfl := hone draft hdraft first mem_cons_self hsame
          by_cases hagain : draft ∈ upserts
          · exact .inl ⟨draft, hagain, rfl, hrecord⟩
          · refine .inr ⟨fun other hother hplace => hagain ?_, hrecord⟩
            exact hone other (mem_cons_of_mem _ hother) draft mem_cons_self hplace ▸ hother
        · exact absurd rfl hne
    · rw [update_of_ne hplace, and_assoc, and_iff_right (Ne.symm hplace)]
      refine or_congr_left ⟨fun ⟨draft, hdraft, h⟩ => ⟨draft, mem_cons_of_mem _ hdraft, h⟩, ?_⟩
      rintro ⟨draft, hdraft, hsame, hrecord⟩
      rcases mem_cons.mp hdraft with rfl | hdraft
      · exact absurd hsame.symm hplace
      · exact ⟨draft, hdraft, hsame, hrecord⟩

/-- Each operation changes a record of its own, at a path of its own. -/
structure Once (operations : List DbRecordMutationDraft) : Prop where
  place : ∀ a ∈ operations, ∀ b ∈ operations, mutationPlace a = mutationPlace b → a = b
  path : ∀ a ∈ operations, ∀ b ∈ operations, mutationPath a = mutationPath b → a = b

/-- What the records are, by their places, after all changes. -/
theorem rows_afterJob (hone : Once operations) :
    rows (afterUpserts lsn (afterDeletes current (deleteDrafts operations)) (upsertDrafts operations)) place = some
    record ↔ (∃ mutation ∈ operations, mutationPlace mutation = place ∧
    mutationLeaves lsn mutation = some record) ∨
    (∀ mutation ∈ operations, mutationPlace mutation ≠ place) ∧
    rows current place = some record := by
  have honeUpserts : ∀ a ∈ upsertDrafts operations, ∀ b ∈ upsertDrafts operations, (a.table, a.key) = (b.table, b.key) →
      a = b := by
    intro a ha b hb hplace
    cases hone.place _ (mem_upsertDrafts.mp ha) _ (mem_upsertDrafts.mp hb) hplace
    rfl
  rw [rows_afterUpserts honeUpserts, rows_afterDeletes]
  constructor
  · rintro (⟨draft, hdraft, hplace, hrecord⟩ | ⟨hupserts, hdeletes, hrow⟩)
    · exact .inl ⟨_, mem_upsertDrafts.mp hdraft, hplace, congrArg some hrecord⟩
    · refine .inr ⟨fun mutation hmem => ?_, hrow⟩
      cases mutation with
      | upsert draft => exact hupserts draft (mem_upsertDrafts.mpr hmem)
      | delete draft => exact hdeletes draft (mem_deleteDrafts.mpr hmem)
  · rintro (⟨mutation, hmem, hplace, hleaves⟩ | ⟨hnone, hrow⟩)
    · cases mutation with
      | upsert draft => exact .inl ⟨draft, mem_upsertDrafts.mpr hmem, hplace, some.inj hleaves⟩
      | delete draft => cases hleaves
    · exact .inr ⟨fun draft hdraft => hnone _ (mem_upsertDrafts.mp hdraft),
        fun draft hdraft => hnone _ (mem_deleteDrafts.mp hdraft), hrow⟩

/-- What the records are, by their paths, after all changes. -/
theorem committed_afterTransaction (hone : Once operations)
    (hoperations : recordMutations r.payload = operations) :
    (applyWalRecord committed r)[path]? = some record ↔
    (∃ mutation ∈ operations, mutationPath mutation = path ∧
    mutationLeaves r.lsn mutation = some record) ∨
    (∀ mutation ∈ operations, mutationPath mutation ≠ path) ∧ committed[path]? = some record := by
  rw [getElem?_applyWalRecord]
  cases hlast : walMutationAt path r with
  | some mutation =>
    obtain ⟨hmem, hpath⟩ := mem_of_lastAt hlast
    rw [hoperations] at hmem
    constructor
    · exact fun hleaves => .inl ⟨mutation, hmem, hpath, hleaves⟩
    · rintro (⟨other, hother, hsame, hleaves⟩ | ⟨hnone, -⟩)
      · rw [hone.path other hother mutation hmem (hsame.trans hpath.symm)] at hleaves
        exact hleaves
      · exact absurd hpath (hnone mutation hmem)
  | none =>
    have hnone : ∀ mutation ∈ operations, mutationPath mutation ≠ path := by
      intro mutation hmem hpath
      have hempty : (recordMutations r.payload).filter (fun mutation => mutationPath mutation = path) = [] :=
        getLast?_eq_none_iff.mp hlast
      rw [hoperations] at hempty
      exact not_mem_nil (hempty ▸ mem_filter.mpr ⟨hmem, decide_eq_true hpath⟩)
    constructor
    · exact fun hfound => .inr ⟨hnone, hfound⟩
    · rintro (⟨mutation, hmem, hpath, -⟩ | ⟨-, hfound⟩)
      · exact absurd hpath (hnone mutation hmem)
      · exact hfound

/-! ## When the job succeeds -/

/-- No upsert takes the values of a record that only a later upsert changes, and a record is changed
at the path at which it is committed. -/
structure JobFits (schema : DatabaseSchema) (lsn : Nat) (current : CurrentRecords)
    (operations : List DbRecordMutationDraft) : Prop where
  freed : ∀ before draft after, upsertDrafts operations = before ++ draft :: after →
    ∀ (name : String) (index : IndexSchema) (other : DbRecord),
      ((shapeOf schema).indexes draft.table)[name]? = some index → index.unique = true → other.key ≠ draft.key →
      rows current (draft.table, other.key) = some other →
      indexValuesOf other index = indexValuesOf (draft.intoRecord lsn) index →
      (∃ deleted ∈ deleteDrafts operations, (deleted.table, deleted.key) = (draft.table, other.key)) ∨
        ∃ earlier ∈ before, (earlier.table, earlier.key) = (draft.table, other.key)
  paths : ∀ mutation ∈ operations, ∀ record, rows current (mutationPlace mutation) = some record →
    record.path = mutationPath mutation

theorem once_of_changes (h : Changes nowMs operations kept) : Once operations := by
  have hkept : ∀ a ∈ kept, ∀ b ∈ kept, recordIdentity a = recordIdentity b → a = b := fun a ha b hb =>
    inj_on_of_nodup_map h.once ha hb
  constructor
  · intro a ha b hb hplace
    rw [h.eq, List.mem_map] at ha hb
    obtain ⟨a, ha, rfl⟩ := ha
    obtain ⟨b, hb, rfl⟩ := hb
    rw [hkept a ha b hb ?_]
    rw [← @identityOf_mutation nowMs a, hplace, identityOf_mutation]
  · intro a ha b hb hpath
    rw [h.eq, List.mem_map] at ha hb
    obtain ⟨a, ha, rfl⟩ := ha
    obtain ⟨b, hb, rfl⟩ := hb
    have hlist := congrArg String.toList hpath
    rw [mutation_path, mutation_path] at hlist
    rw [hkept a ha b hb (recordIdentity_of_components (joinSlash_inj (slash_notMem_components (h.safe a ha))
      (slash_notMem_components (h.safe b hb)) (append_cancel_left hlist)))]

theorem located_of_changes (h : Changes nowMs operations kept) (hmem : mutation ∈ operations) :
    Located (mutationPath mutation) (mutationPlace mutation) := by
  rw [h.eq, List.mem_map] at hmem
  obtain ⟨operation, hoperation, rfl⟩ := hmem
  exact ⟨operation, nowMs, none, h.safe operation hoperation, rfl, rfl⟩

theorem nulFree_of_changes (h : Changes nowMs operations kept) (hmem : mutation ∈ operations) :
    NulFree (mutationPlace mutation).1 ∧ NulFree (mutationPlace mutation).2 := by
  rw [h.eq, List.mem_map] at hmem
  obtain ⟨operation, hoperation, rfl⟩ := hmem
  exact notMem_place (fun _ => nulFree_of_safe) (by decide) (by decide) (h.safe operation hoperation) nowMs none

theorem indexes_shapeOf {indexes : BTreeMap String IndexSchema} {table : String}
    (h : recordIndexes schema table = .ok indexes) : (shapeOf schema).indexes table = indexes := by
  simp only [shapeOf, h]
  rfl

/-- A record of a transaction that is accepted has its values. -/
theorem values_of_valid
    (h : UpsertsValid schema ((upsertDrafts operations).map fun draft => draft.intoRecord 0))
    (hdraft : draft ∈ upsertDrafts operations)
    (hindex : ((shapeOf schema).indexes draft.table)[name]? = some index) :
    recordIndexValues (draft.intoRecord lsn) index =
    .ok (indexValuesOf (draft.intoRecord lsn) index) := by
  obtain ⟨indexes, hindexes, hvalues⟩ := h.indexable _ (mem_map_of_mem hdraft)
  rw [indexes_shapeOf (show recordIndexes schema draft.table = .ok indexes from hindexes)] at hindex
  obtain ⟨values, hfound⟩ := hvalues (name, index) (Std.ExtTreeMap.mem_toList_iff_getElem?_eq_some.mpr hindex)
  have hfound : recordIndexValues (draft.intoRecord lsn) index = .ok values := hfound
  rw [indexValuesOf, hfound]
  rfl

/-- Two upserts of a table do not have the same values in a unique index. -/
theorem key_eq_of_valid
    (h : UpsertsValid schema ((upsertDrafts operations).map fun draft => draft.intoRecord 0))
    {a b : DbRecordDraft} (ha : a ∈ upsertDrafts operations) (hb : b ∈ upsertDrafts operations)
    (htable : a.table = b.table) (hindex : ((shapeOf schema).indexes a.table)[name]? = some index)
    (hunique : index.unique = true)
    (hvalues : indexValuesOf (a.intoRecord lsn) index = indexValuesOf (b.intoRecord lsn) index) :
    a.key = b.key :=
        by
  obtain ⟨indexes, hindexes, -⟩ := h.indexable _ (mem_map_of_mem ha)
  have hentry := hindex
  rw [indexes_shapeOf (show recordIndexes schema a.table = .ok indexes from hindexes)] at hentry
  refine h.unique _ (mem_map_of_mem ha) _ (mem_map_of_mem hb) htable indexes hindexes (name,
    index) (Std.ExtTreeMap.mem_toList_iff_getElem?_eq_some.mpr hentry) hunique ?_
  have hsame : recordIndexValues (a.intoRecord lsn) index = recordIndexValues (b.intoRecord lsn) index := by
    rw [values_of_valid h ha hindex, values_of_valid h hb (htable ▸ hindex), hvalues]
  exact hsame

/-- The upserts of the job meet no conflict exactly if the values that they take are free. -/
theorem noConflicts_iff_fits (haccepted : AcceptedOperations schema nowMs operations)
    (hpaths : ∀ mutation ∈ operations,
    ∀ record, rows current (mutationPlace mutation) = some record →
      record.path = mutationPath mutation) :
    NoConflicts schema lsn (afterDeletes current (deleteDrafts operations)) (upsertDrafts operations) ↔
    JobFits schema lsn current operations := by
  obtain ⟨kept, hkept⟩ := haccepted.changes
  have hone := once_of_changes hkept
  have honeBefore : ∀ {before draft after}, upsertDrafts operations = before ++ draft :: after →
      ∀ a ∈ before, ∀ b ∈ before, (a.table, a.key) = (b.table, b.key) → a = b := by
    intro before draft after hsplit a ha b hb hplace
    have hmem : ∀ d ∈ before, DbRecordMutationDraft.upsert d ∈ operations := fun d hd =>
      mem_upsertDrafts.mp (hsplit ▸ mem_append_left _ hd)
    cases hone.place _ (hmem a ha) _ (hmem b hb) hplace
    rfl
  rw [noConflicts_iff]
  constructor
  · refine fun hall => ⟨fun before draft after hsplit name index other hindex hunique hkey hrow hvalues => ?_, hpaths⟩
    by_contra hnone
    rw [not_or] at hnone
    refine hall before draft after hsplit ⟨name, index, other, hindex, hunique, hkey, ?_, hvalues⟩
    refine (rows_afterUpserts (honeBefore hsplit)).mpr (.inr ⟨fun earlier hearlier hplace => ?_, ?_⟩)
    · exact hnone.2 ⟨earlier, hearlier, hplace⟩
    · exact rows_afterDeletes.mpr ⟨fun deleted hdeleted hplace => hnone.1 ⟨deleted, hdeleted, hplace⟩, hrow⟩
  · rintro hfits before draft after hsplit ⟨name, index, other, hindex, hunique, hkey, hrow, hvalues⟩
    have hdraft : draft ∈ upsertDrafts operations := hsplit ▸ mem_append_right _ mem_cons_self
    rcases (rows_afterUpserts (honeBefore hsplit)).mp hrow with ⟨earlier, hearlier, hplace, rfl⟩ | ⟨hbefore, hrow⟩
    · have hearlier : earlier ∈ upsertDrafts operations := hsplit ▸ mem_append_left _ hearlier
      have htable : earlier.table = draft.table := (Prod.mk.inj hplace).1
      replace hindex : ((shapeOf schema).indexes draft.table)[name]? = some index := hindex
      exact hkey (key_eq_of_valid haccepted.upserts hearlier hdraft htable (htable ▸ hindex) hunique hvalues)
    · obtain ⟨hdeletes, hrow⟩ := rows_afterDeletes.mp hrow
      rcases hfits.freed before draft after hsplit name index other hindex hunique hkey hrow hvalues with
        ⟨deleted, hdeleted, hplace⟩ | ⟨earlier, hearlier, hplace⟩
      · exact hdeletes deleted hdeleted hplace
      · exact hbefore earlier hearlier hplace

/-- The records after the job are the committed ones if each was changed at its path. -/
theorem areCurrent_afterJob (hone : Once operations)
    (hlocated : ∀ mutation ∈ operations, Located (mutationPath mutation) (mutationPlace mutation))
    (hcommitted : CommittedAt committed) (hcurrent : AreCurrent committed current)
    (hoperations : recordMutations r.payload = operations) (hpaths : ∀ mutation ∈ operations,
    ∀ record, rows current (mutationPlace mutation) = some record →
      record.path = mutationPath mutation) :
    AreCurrent (applyWalRecord committed r)
    (afterUpserts r.lsn (afterDeletes current (deleteDrafts operations)) (upsertDrafts operations)) := by
  intro place record
  rw [rows_afterJob hone]
  simp only [committed_afterTransaction hone hoperations]
  constructor
  · rintro (⟨mutation, hmem, rfl, hleaves⟩ | ⟨hnone, hrow⟩)
    · exact ⟨mutationPath mutation, .inl ⟨mutation, hmem, rfl, hleaves⟩, mutationLeaves_place hleaves⟩
    · obtain ⟨path, hfound, rfl⟩ := (hcurrent place record).mp hrow
      refine ⟨path, .inr ⟨fun mutation hmem hpath => hnone mutation hmem ?_, hfound⟩, rfl⟩
      exact (hpath ▸ hlocated mutation hmem).place_eq (hcommitted.located path record hfound)
  · rintro ⟨path, ⟨mutation, hmem, rfl, hleaves⟩ | ⟨hnone, hfound⟩, rfl⟩
    · exact .inl ⟨mutation, hmem, mutationLeaves_place hleaves, hleaves⟩
    · have hrow := (hcurrent _ record).mpr ⟨path, hfound, rfl⟩
      refine .inr ⟨fun mutation hmem hplace => hnone mutation hmem ?_, hrow⟩
      rw [← hpaths mutation hmem record (hplace ▸ hrow)]
      exact hcommitted.path path record hfound

/-- What has come to be committed at the path of a current record stays there unless the record is
changed. -/
theorem path_of_areCurrent (hone : Once operations)
    (hlocated : ∀ mutation ∈ operations, Located (mutationPath mutation) (mutationPlace mutation))
    (hcommitted : CommittedAt committed) (hcurrent : AreCurrent committed current)
    (hoperations : recordMutations r.payload = operations) {after : CurrentRecords}
    (hafter : AreCurrent (applyWalRecord committed r) after) (hmem : mutation ∈ operations)
    (hleaves : rows after (mutationPlace mutation) = mutationLeaves r.lsn mutation)
    (hrow : rows current (mutationPlace mutation) = some record) :
    record.path = mutationPath mutation := by
  obtain ⟨path, hfound, hplace⟩ := (hcurrent _ record).mp hrow
  have hpath := hcommitted.path path record hfound
  by_contra hne
  have hkept : (applyWalRecord committed r)[path]? = some record := by
    refine (committed_afterTransaction hone hoperations).mpr (.inr ⟨fun other hother hsame => hne ?_, hfound⟩)
    have hlocation := hcommitted.located path record hfound
    have hplaces := (hsame ▸ hlocated other hother).place_eq hlocation
    rw [hpath, ← hsame, hone.place other hother mutation hmem (hplaces.trans hplace.symm)]
  have hrow' := (hafter _ record).mpr ⟨path, hkept, hplace⟩
  rw [hleaves] at hrow'
  exact hne (mutationLeaves_path hrow')

/-- The operations of a transaction that is accepted can be stored. -/
theorem storable_of_accepted (haccepted : AcceptedOperations schema nowMs operations)
    (hnow : nowMs ≤ maxU64)
    (hserialize : ∀ draft ∈ upsertDrafts operations, Serializes lib (draft.intoRecord lsn) ∧
    IndexesSerialize lib (shapeOf schema) (draft.intoRecord lsn))
    (hdraft : draft ∈ upsertDrafts operations) :
    Storable lib schema lsn draft := by
  obtain ⟨kept, hkept⟩ := haccepted.changes
  have hmem := mem_upsertDrafts.mp hdraft
  have hnul := nulFree_of_changes hkept hmem
  refine ⟨⟨hnul.1, hnul.2⟩, (hserialize draft hdraft).1, fun name index hindex => ?_, (hserialize draft hdraft).2, ?_⟩
  · exact ⟨_, values_of_valid haccepted.upserts hdraft hindex⟩
  · rw [hkept.eq, List.mem_map] at hmem
    obtain ⟨operation, -, hoperation⟩ := hmem
    have hupdated : draft.updatedAtMs = nowMs := by
      cases operation with
      | upsert | nestedUpsert => cases hoperation; rfl
      | delete | nestedDelete => cases hoperation
    exact hupdated ▸ hnow

/-- The job of accepted operations succeeds exactly if its upserts meet no conflict. -/
theorem exec_job (hlib : lib.Lawful) (hshape : (shapeOf schema).Named)
    (haccepted : AcceptedOperations schema nowMs operations) (hnow : nowMs ≤ maxU64)
    (hlsn : lsn ≤ maxU64) (hserialize : ∀ draft ∈ upsertDrafts operations,
    Serializes lib (draft.intoRecord lsn) ∧
      IndexesSerialize lib (shapeOf schema) (draft.intoRecord lsn))
    (hagrees : Agrees lib (shapeOf schema) current kv) : ((exec (applyOperations lib
    ((deleteDrafts operations).map deleteMutation ++ (upsertDrafts operations).map (upsertMutation schema lsn))) kv).1 =
    .ok () ↔ NoConflicts schema lsn (afterDeletes current (deleteDrafts operations)) (upsertDrafts operations)) ∧
    (NoConflicts schema lsn (afterDeletes current (deleteDrafts operations)) (upsertDrafts operations) → Agrees
    lib (shapeOf schema) (afterUpserts lsn (afterDeletes current (deleteDrafts operations)) (upsertDrafts operations))
    (exec (applyOperations lib ((deleteDrafts operations).map deleteMutation ++
    (upsertDrafts operations).map (upsertMutation schema lsn))) kv).2) := by
  obtain ⟨kept, hkept⟩ := haccepted.changes
  obtain ⟨kv₁, hdeletes, h₁⟩ := exec_deletes hlib hshape (fun draft hdraft =>
    nulFree_of_changes hkept (mem_deleteDrafts.mp hdraft)) hagrees
  rw [exec_applyOperations_append, hdeletes]
  exact exec_upserts hlib hshape hlsn (fun draft hdraft => storable_of_accepted haccepted hnow hserialize hdraft) h₁

theorem job_projects_iff (hlib : lib.Lawful) (hshape : (shapeOf schema).Named)
    (haccepted : AcceptedOperations schema nowMs operations) (hcommitted : CommittedAt committed)
    (hcurrent : AreCurrent committed current) (hagrees : Agrees lib (shapeOf schema) current kv)
    (hoperations : recordMutations r.payload = operations) (hlsn : r.lsn ≤ maxU64)
    (hnow : nowMs ≤ maxU64)
    (hserialize : ∀ draft ∈ upsertDrafts operations, Serializes lib (draft.intoRecord r.lsn) ∧
    IndexesSerialize lib (shapeOf schema) (draft.intoRecord r.lsn)) :
    (∃ kv' current', exec (applyOperations lib
    ((deleteDrafts operations).map deleteMutation ++ (upsertDrafts operations).map (upsertMutation schema r.lsn))) kv =
    (.ok (), kv') ∧ AreCurrent (applyWalRecord committed r) current' ∧
    Agrees lib (shapeOf schema) current' kv') ↔
    JobFits schema r.lsn current operations := by
  obtain ⟨kept, hkept⟩ := haccepted.changes
  have hone := once_of_changes hkept
  have hlocated : ∀ mutation ∈ operations, Located (mutationPath mutation) (mutationPlace mutation) := fun _ hmem =>
    located_of_changes hkept hmem
  obtain ⟨hok, hfinal⟩ := exec_job hlib hshape haccepted hnow hlsn hserialize hagrees
  constructor
  · rintro ⟨kv', current', hexec, hafter, hagrees'⟩
    have hno := hok.mp (congrArg Prod.fst hexec)
    have h₂ := hfinal hno
    rw [hexec] at h₂
    refine (noConflicts_iff_fits haccepted fun mutation hmem record hrow => ?_).mp hno
    have hnul := nulFree_of_changes hkept hmem
    refine path_of_areCurrent hone hlocated hcommitted hcurrent hoperations hafter hmem ?_ hrow
    have hsame := (hagrees'.getRecord_eq hlib hnul.1 hnul.2).symm.trans (h₂.getRecord_eq hlib hnul.1 hnul.2)
    refine (Except.ok.inj hsame).trans ?_
    cases hleaves : mutationLeaves r.lsn mutation with
    | some left => exact (rows_afterJob hone).mpr (.inl ⟨mutation, hmem, rfl, hleaves⟩)
    | none =>
      refine eq_none_iff_forall_ne_some.mpr fun found hfound => ?_
      rcases (rows_afterJob hone).mp hfound with ⟨other, hother, hplace, hother'⟩ | ⟨hnone, -⟩
      · rw [hone.place other hother mutation hmem hplace, hleaves] at hother'
        cases hother'
      · exact hnone mutation hmem rfl
  · intro hfits
    have hno := (noConflicts_iff_fits haccepted hfits.paths).mpr hfits
    refine ⟨_, _, Prod.ext (hok.mpr hno) rfl, ?_, hfinal hno⟩
    exact areCurrent_afterJob hone hlocated hcommitted hcurrent hoperations hfits.paths

/-- The projection agrees with the records of the log, and the transaction that is logged next was
accepted. -/
structure LoggedTransaction (lib : ProjectionLibraries) (schema : DatabaseSchema)
    (wal : List WalRecord)
    (current : CurrentRecords) (kv : RecordProjectionKv) (operations : List DbRecordMutationDraft)
    (r : WalRecord) (mutations : List RecordProjectionMutation) : Prop where
  lawful : lib.Lawful
  logged : OperationsLogged wal
  areCurrent : AreCurrent (recordsByPath wal) current
  agrees : Agrees lib (shapeOf schema) current kv
  accepted : ∃ (checks : OperationChecks) (hot : RecordHotState) (requests : List (RecordOperation × Option Nat))
    (nowMs shard : Nat), nowMs ≤ maxU64 ∧
      prepareRecordTransaction lib checks nowMs ⟨schema, kv, hot⟩ requests = .ok ⟨shard, operations⟩
  payload : ∃ clientMutationId, r.payload = .recordTransactionCommitted operations clientMutationId
  lsn : r.lsn ≤ maxU64
  serialize : ∀ draft ∈ upsertDrafts operations, Serializes lib (draft.intoRecord r.lsn) ∧
    IndexesSerialize lib (shapeOf schema) (draft.intoRecord r.lsn)
  job : ∃ effects : List (Effect RecordProjectionKv),
    applyRecordTransactionOperations schema operations r.lsn = .ok effects ∧
      .enqueue (.transaction r.lsn mutations) ∈ effects

/-- The job succeeds, and leaves the records that are committed with the transaction. -/
def Projects (lib : ProjectionLibraries) (schema : DatabaseSchema) (wal : List WalRecord)
    (kv : RecordProjectionKv) (r : WalRecord) (mutations : List RecordProjectionMutation) : Prop :=
  ∃ kv' current', exec (applyOperations lib mutations) kv = (.ok (), kv') ∧
    AreCurrent (recordsByPath (wal ++ [r])) current' ∧ Agrees lib (shapeOf schema) current' kv'

variable {wal : List WalRecord} {mutations : List RecordProjectionMutation}

theorem LoggedTransaction.projects_iff
    (h : LoggedTransaction lib schema wal current kv operations r mutations)
    (hshape : (shapeOf schema).Named) :
    Projects lib schema wal kv r mutations ↔ JobFits schema r.lsn current operations := by
  obtain ⟨checks, hot, requests, nowMs, shard, hnow, hprepare⟩ := h.accepted
  obtain ⟨clientMutationId, hpayload⟩ := h.payload
  obtain ⟨effects, heffects, hjob⟩ := h.job
  rw [Projects, job_eq heffects hjob, recordsByPath_concat]
  exact job_projects_iff h.lawful hshape (prepareRecordTransaction_accepted hprepare)
    (committedAt_recordsByPath h.logged) h.areCurrent h.agrees (by rw [hpayload]; rfl) h.lsn hnow h.serialize

/-- The projection of a transaction that is accepted. -/
theorem transaction_projects_iff
    (h : LoggedTransaction lib schema wal current kv operations r mutations)
    (hshape : (shapeOf schema).Named) :
    Projects lib schema wal kv r mutations ↔ JobFits schema r.lsn current operations :=
  h.projects_iff hshape

section Sample

def byEmail : IndexSchema := ⟨["email"], true⟩

def usersTable : TableSchema :=
  ⟨.resident, ∅, ∅, ⟨[]⟩, (∅ : BTreeMap String IndexSchema).insert "byEmail" byEmail⟩

/-- Users, with one email each. -/
def usersSchema : DatabaseSchema where
  name := "app"
  version := 1
  objects := ∅
  tables := (∅ : BTreeMap String TableSchema).insert "users" usersTable
  events := ∅
  behaviors := ∅

def email (address : String) : Value where
  json := .object [("email", .string address)]
  wellFormed := by simp [Json.WellFormed, Json.FieldsWellFormed, KeysAscending]

def setEmail (key address : String) : RecordOperation := .upsert "users" key (email address)

def userDraft (key address : String) : DbRecordDraft :=
  ⟨"users", key, email address, 0, "tables/users/" ++ key, none⟩

def userEnvelope (key address : String) (lsn : Nat) : ProjectedRecordEnvelope :=
  ⟨"users", key, .object [("email", .string address)], 0, lsn, "tables/users/" ++ key⟩

/-- Bytes for the users a and b and for three addresses. -/
def usersLibrary : ProjectionLibraries :=
  givenLibrary [(userEnvelope "a" "x" 1, [1]), (userEnvelope "b" "y" 2, [2]), (userEnvelope "a" "y" 3, [3]),
    (userEnvelope "b" "x" 3, [4]), (userEnvelope "b" "z" 3, [7])]
    [([.string "x"], [5]), ([.string "y"], [6]), ([.string "z"], [8])]

theorem usersLibrary_lawful : usersLibrary.Lawful := givenLibrary_lawful (by decide) (by decide)

theorem userMutation_eq (key address : String) :
    (setEmail key address).mutation 0 none = .upsert (userDraft key address) := by
  simp [setEmail, RecordOperation.mutation, userDraft, toString]

theorem usersIndexes :
    (shapeOf usersSchema).indexes "users" =
    (∅ : BTreeMap String IndexSchema).insert "byEmail" byEmail :=
  rfl

theorem index_users (h : ((shapeOf usersSchema).indexes "users")[name]? = some index) :
    name = "byEmail" ∧ index = byEmail := by
  rw [usersIndexes, Std.ExtTreeMap.getElem?_insert, Std.ExtTreeMap.getElem?_empty] at h
  split at h
  · next hname => exact ⟨(compare_eq_iff_eq.mp hname).symm, (some.inj h).symm⟩
  · cases h

def usersKv : RecordProjectionKv :=
  (exec (runCalls usersLibrary (shapeOf usersSchema)
    [.upsert ((userDraft "a" "x").intoRecord 1), .upsert ((userDraft "b" "y").intoRecord 2)]) .empty).2

def writable : OperationChecks := ⟨fun _ => .ok (), fun _ => .ok (), fun _ => .ok 0⟩

theorem usersShape_named : (shapeOf usersSchema).Named :=
  shapeOf_named_single rfl rfl fun _ _ hindex => by
    rw [(index_users hindex).1]
    decide

theorem emails (key address : String) (lsn : Nat) :
    indexValuesOf ((userDraft key address).intoRecord lsn) byEmail = [.string address] := rfl

theorem indexable (key address : String) (lsn : Nat) :
    Indexable (shapeOf usersSchema) ((userDraft key address).intoRecord lsn) := by
  intro name index hindex
  rw [(index_users hindex).2]
  exact ⟨[.string address], rfl⟩

theorem indexesSerialize {key address : String} {lsn : Nat}
    (h : ValuesSerialize usersLibrary [.string address]) :
    IndexesSerialize usersLibrary (shapeOf usersSchema) ((userDraft key address).intoRecord lsn) := by
  intro name index hindex
  rw [(index_users hindex).2]
  exact h

theorem serialize_x : ValuesSerialize usersLibrary [.string "x"] := ⟨_, rfl⟩

theorem serialize_y : ValuesSerialize usersLibrary [.string "y"] := ⟨_, rfl⟩

def usersRecord (lsn : Nat) (payload : WalPayload) : WalRecord :=
  ⟨lsn, 0, 0, "node", 0, 1, .strict, payload, none⟩

def usersWal : List WalRecord :=
  [usersRecord 1 (.recordUpserted (userDraft "a" "x")), usersRecord 2 (.recordUpserted (userDraft "b" "y"))]

def twoUsers : CurrentRecords :=
  put (put (fun _ => ∅) ((userDraft "a" "x").intoRecord 1)) ((userDraft "b" "y").intoRecord 2)

def twoUpserts : List StoreCall :=
  [.upsert ((userDraft "a" "x").intoRecord 1), .upsert ((userDraft "b" "y").intoRecord 2)]

theorem rows_twoUsers : rows twoUsers place = some record ↔ place = ("users", "b") ∧
    record = (userDraft "b" "y").intoRecord 2 ∨ place = ("users", "a") ∧
    record = (userDraft "a" "x").intoRecord 1 := by
  rw [twoUsers, rows_put, rows_put]
  show update (update _ ("users", "a") _) ("users", "b") _ place = _ ↔ _
  by_cases hb : place = ("users", "b")
  · subst hb
    simp [eq_comm]
  · by_cases ha : place = ("users", "a")
    · subst ha
      simp [eq_comm]
    · simp [ha, hb, rows]

theorem twoUpserts_accepted :
    AllAccepted usersLibrary (shapeOf usersSchema) (fun _ => ∅) twoUpserts := by
  refine ⟨⟨by decide +kernel, by decide +kernel, by decide, by decide, ⟨_, rfl⟩, indexable "a" "x" 1,
    indexesSerialize serialize_x, ?_⟩, ⟨by decide +kernel, by decide +kernel, by decide, by decide, ⟨_, rfl⟩,
    indexable "b" "y" 2, indexesSerialize serialize_y, ?_⟩, trivial⟩
  · rintro ⟨name, index, other, -, -, -, hrow, -⟩
    cases Std.ExtTreeMap.getElem?_empty.symm.trans hrow
  · rintro ⟨name, index, other, hindex, -, hkey, hrow, hvalues⟩
    have htwo : rows twoUsers ("users", other.key) = some other := by
      rw [twoUsers, rows_put]
      exact (update_of_ne (fun h => hkey (Prod.mk.inj h).2) _ _).trans hrow
    rcases rows_twoUsers.mp htwo with ⟨hplace, -⟩ | ⟨-, rfl⟩
    · exact hkey (Prod.mk.inj hplace).2
    · rw [(index_users hindex).2, emails, emails] at hvalues
      simp at hvalues

theorem usersKv_agrees : Agrees usersLibrary (shapeOf usersSchema) twoUsers usersKv := by
  have hempty : Agrees usersLibrary (shapeOf usersSchema) (fun _ => ∅) .empty := agrees_empty
  obtain ⟨kv, hexec, hagrees⟩ := hempty.calls usersLibrary_lawful usersShape_named twoUpserts_accepted
  obtain rfl : usersKv = kv := congrArg Prod.snd hexec
  exact hagrees

theorem setEmail_safe {key : String} (h : ensureSafeRecordComponent key = true) (address : String) :
    componentsSafe (setEmail key address) = true := by
  have htable : ensureSafeRecordComponent "users" = true := by decide +kernel
  rw [setEmail, componentsSafe, htable, h]
  rfl

theorem usersWal_logged : OperationsLogged usersWal := by
  intro r hr mutation hmem
  have ha : ensureSafeRecordComponent "a" = true := by decide +kernel
  have hb : ensureSafeRecordComponent "b" = true := by decide +kernel
  rcases mem_cons.mp hr with rfl | hr
  · obtain rfl := mem_singleton.mp hmem
    exact ⟨setEmail "a" "x", 0, none, setEmail_safe ha "x", (userMutation_eq "a" "x").symm⟩
  · obtain rfl := mem_singleton.mp hr
    obtain rfl := mem_singleton.mp hmem
    exact ⟨setEmail "b" "y", 0, none, setEmail_safe hb "y", (userMutation_eq "b" "y").symm⟩

theorem twoUsers_areCurrent : AreCurrent (recordsByPath usersWal) twoUsers := by
  intro place record
  have hcommitted : ∀ path : String, (recordsByPath usersWal)[path]? = some record ↔
      path = "tables/users/b" ∧ record = (userDraft "b" "y").intoRecord 2 ∨
        path = "tables/users/a" ∧ record = (userDraft "a" "x").intoRecord 1 := by
    intro path
    show (((∅ : BTreeMap String DbRecord).insert "tables/users/a" ((userDraft "a" "x").intoRecord 1)).insert
      "tables/users/b" ((userDraft "b" "y").intoRecord 2))[path]? = _ ↔ _
    simp only [Std.ExtTreeMap.getElem?_insert, Std.ExtTreeMap.getElem?_empty, compare_eq_iff_eq]
    by_cases hb : "tables/users/b" = path
    · subst hb
      simp [eq_comm]
    · by_cases ha : "tables/users/a" = path
      · subst ha
        simp [eq_comm]
      · simp [ha, hb, Ne.symm ha, Ne.symm hb]
  rw [rows_twoUsers]
  simp only [hcommitted]
  constructor
  · rintro (⟨rfl, rfl⟩ | ⟨rfl, rfl⟩)
    · exact ⟨_, .inl ⟨rfl, rfl⟩, rfl⟩
    · exact ⟨_, .inr ⟨rfl, rfl⟩, rfl⟩
  · rintro ⟨path, ⟨-, rfl⟩ | ⟨-, rfl⟩, rfl⟩
    · exact .inl ⟨rfl, rfl⟩
    · exact .inr ⟨rfl, rfl⟩

def usersReads (kv : RecordProjectionKv) : RecordReads := ⟨usersSchema, kv, ⟨∅, 0⟩⟩

def emailRequests (addresses : List (String × String)) : List (RecordOperation × Option Nat) :=
  addresses.map fun a => (setEmail a.1 a.2, none)

def emailOperations (addresses : List (String × String)) : List DbRecordMutationDraft :=
  addresses.map fun a => .upsert (userDraft a.1 a.2)

theorem accepted_of_isOk (kv : RecordProjectionKv) (addresses : List (String × String))
    (hok : (prepareRecordTransaction usersLibrary writable 0 (usersReads kv) (emailRequests addresses)).isOk = true) :
    ∃ shard, prepareRecordTransaction usersLibrary writable 0 (usersReads kv) (emailRequests addresses) =
    .ok ⟨shard, emailOperations addresses⟩ := by
  cases hprepared : prepareRecordTransaction usersLibrary writable 0 (usersReads kv) (emailRequests addresses) with
  | error err =>
    rw [hprepared] at hok
    cases hok
  | ok prepared =>
    have hupserts : ∀ request ∈ emailRequests addresses, isUpsert request.1 = true := by
      intro request hrequest
      obtain ⟨a, -, rfl⟩ := mem_map.mp hrequest
      rfl
    have hoperations : prepared.operations = emailOperations addresses := by
      rw [operations_of_upserts hupserts hprepared, emailRequests, List.map_map]
      exact List.map_congr_left fun a _ => userMutation_eq a.1 a.2
    exact ⟨prepared.shard, by rw [← hoperations]⟩

def exchanged : List (String × String) := [("a", "y"), ("b", "x")]

def exchangeRecord : WalRecord :=
  usersRecord 3 (.recordTransactionCommitted (emailOperations exchanged) none)

def exchangeJob : List RecordProjectionMutation :=
  [upsertMutation usersSchema 3 (userDraft "a" "y"), upsertMutation usersSchema 3 (userDraft "b" "x")]

theorem exchange_logged : LoggedTransaction usersLibrary usersSchema usersWal twoUsers usersKv
    (emailOperations exchanged) exchangeRecord exchangeJob where
  lawful := usersLibrary_lawful
  logged := usersWal_logged
  areCurrent := twoUsers_areCurrent
  agrees := usersKv_agrees
  accepted := by
    obtain ⟨shard, hprepared⟩ := accepted_of_isOk usersKv exchanged (by decide +kernel)
    exact ⟨writable, ⟨∅, 0⟩, emailRequests exchanged, 0, shard, by decide, hprepared⟩
  payload := ⟨none, rfl⟩
  lsn := by decide
  serialize := by
    intro draft hdraft
    rcases mem_pair.mp (show draft ∈ [userDraft "a" "y", userDraft "b" "x"] from hdraft) with rfl | rfl
    · exact ⟨⟨_, rfl⟩, indexesSerialize serialize_y⟩
    · exact ⟨⟨_, rfl⟩, indexesSerialize serialize_x⟩
  job := ⟨_, rfl, by simp [exchangeJob, upsertMutation]; rfl⟩

theorem not_exchange_fits : ¬ JobFits usersSchema 3 twoUsers (emailOperations exchanged) := by
  intro hfits
  have hother : rows twoUsers ("users", "b") = some ((userDraft "b" "y").intoRecord 2) := rows_twoUsers.mpr
      (.inl ⟨rfl, rfl⟩)
  have hindex : ((shapeOf usersSchema).indexes "users")["byEmail"]? = some
      byEmail := Std.ExtTreeMap.getElem?_insert_self
  rcases hfits.freed [] (userDraft "a" "y") [userDraft "b" "x"] rfl "byEmail" byEmail ((userDraft "b" "y").intoRecord 2)
    hindex rfl (by decide) hother rfl with ⟨deleted, hdeleted, -⟩ | ⟨earlier, hearlier, -⟩
  · exact not_mem_nil hdeleted
  · exact not_mem_nil hearlier

/-- The job of a transaction that exchanges two emails does not succeed. -/
theorem exchange_not_projected :
    ¬ ∀ (lib : ProjectionLibraries) (schema : DatabaseSchema) (wal : List WalRecord)
    (current : CurrentRecords) (kv : RecordProjectionKv) (operations : List DbRecordMutationDraft)
    (r : WalRecord) (mutations : List RecordProjectionMutation), (shapeOf schema).Named →
    LoggedTransaction lib schema wal current kv operations r mutations →
    Projects lib schema wal kv r mutations :=
  fun hall => not_exchange_fits
    ((exchange_logged.projects_iff usersShape_named).mp (hall _ _ _ _ _ _ _ _ usersShape_named exchange_logged))

/-- The email of b goes to a once b has another. -/
def moved : List (String × String) := [("b", "z"), ("a", "y")]

def moveRecord : WalRecord :=
  usersRecord 3 (.recordTransactionCommitted (emailOperations moved) none)

def moveJob : List RecordProjectionMutation :=
  [upsertMutation usersSchema 3 (userDraft "b" "z"), upsertMutation usersSchema 3 (userDraft "a" "y")]

theorem move_logged :
    LoggedTransaction usersLibrary usersSchema usersWal twoUsers usersKv (emailOperations moved)
    moveRecord moveJob where
  lawful := usersLibrary_lawful
  logged := usersWal_logged
  areCurrent := twoUsers_areCurrent
  agrees := usersKv_agrees
  accepted := by
    obtain ⟨shard, hprepared⟩ := accepted_of_isOk usersKv moved (by decide +kernel)
    exact ⟨writable, ⟨∅, 0⟩, emailRequests moved, 0, shard, by decide, hprepared⟩
  payload := ⟨none, rfl⟩
  lsn := by decide
  serialize := by
    intro draft hdraft
    rcases mem_pair.mp (show draft ∈ [userDraft "b" "z", userDraft "a" "y"] from hdraft) with rfl | rfl
    · exact ⟨⟨_, rfl⟩, indexesSerialize ⟨_, rfl⟩⟩
    · exact ⟨⟨_, rfl⟩, indexesSerialize serialize_y⟩
  job := ⟨_, rfl, by simp [moveJob, upsertMutation]; rfl⟩

theorem move_fits : JobFits usersSchema 3 twoUsers (emailOperations moved) where
  freed := by
    intro before draft after hsplit name index other hindex _ hkey hother hvalues
    change [userDraft "b" "z", userDraft "a" "y"] = _ at hsplit
    cases before with
    | nil =>
      obtain ⟨rfl, -⟩ := cons.inj hsplit
      rcases rows_twoUsers.mp hother with ⟨-, rfl⟩ | ⟨-, rfl⟩
      · exact absurd rfl hkey
      · rw [(index_users hindex).2, emails, emails] at hvalues
        simp at hvalues
    | cons first before =>
      obtain ⟨rfl, hrest⟩ := cons.inj hsplit
      cases before with
      | nil =>
        obtain ⟨rfl, -⟩ := cons.inj hrest
        rcases rows_twoUsers.mp hother with ⟨-, rfl⟩ | ⟨-, rfl⟩
        · exact .inr ⟨_, mem_cons_self, rfl⟩
        · exact absurd rfl hkey
      | cons second before => simp at hrest
  paths := by
    intro mutation hmem record hrecord
    rcases mem_pair.mp hmem with rfl | rfl
    · rcases rows_twoUsers.mp hrecord with ⟨-, rfl⟩ | ⟨hplace, -⟩
      · rfl
      · exact absurd hplace (by decide)
    · rcases rows_twoUsers.mp hrecord with ⟨hplace, -⟩ | ⟨-, rfl⟩
      · exact absurd hplace (by decide)
      · rfl

/-- A transaction over two records that are projected. -/
theorem transaction_projects_moved :
    Projects usersLibrary usersSchema usersWal usersKv moveRecord moveJob :=
  (transaction_projects_iff move_logged usersShape_named).mpr move_fits

end Sample

end NextDb.Api.TransactionJob
