import NextDb.Records.FromWal
import NextDb.Records.ObjectRefs

/-!
# What refers to what

A source refers to an object when the index has the source under the object's id. Each
operation of the index is described by the references it leaves, and an index without
empty entries is known by its references.

* `RefState.ext_refers`: two such indexes with the same references are equal.
* `refers_fromMessagesAndRecordsForSchema`: what an index built from data refers to.
* `refers_fromWalRecords`: the same of the data of a log.
-/

namespace NextDb.Records

open Wal List Std.ExtTreeSet

/-! ## References -/

/-- A source refers to an object. -/
def RefState.Refers (self : RefState) (source objectId : String) : Prop :=
  ∃ sources, self.refs[objectId]? = some sources ∧ source ∈ sources

/-- No object is kept without a source. -/
def RefState.Tight (self : RefState) : Prop :=
  ∀ (objectId : String) (sources : BTreeSet String), self.refs[objectId]? = some sources → ∃ source, source ∈ sources

variable {self : RefState} {record : DbRecord} {log : WalRecord → Prop} {records : List WalRecord}

theorem RefState.Tight.isSome_iff (h : self.Tight) (objectId : String) :
    self.refs[objectId]?.isSome ↔ ∃ source, self.Refers source objectId := by
  constructor
  · intro hsome
    obtain ⟨sources, hsources⟩ := Option.isSome_iff_exists.mp hsome
    obtain ⟨source, hsource⟩ := h objectId sources hsources
    exact ⟨source, sources, hsources, hsource⟩
  · rintro ⟨_, sources, hsources, -⟩
    rw [hsources]
    rfl

theorem RefState.ext_refers {other : RefState} (h : self.Tight) (h' : other.Tight)
    (hrefers : ∀ source objectId, self.Refers source objectId ↔ other.Refers source objectId) :
    self = other := by
  have hmap : self.refs = other.refs := by
    refine Std.ExtTreeMap.ext_getElem? fun objectId => ?_
    have hsome : self.refs[objectId]?.isSome = other.refs[objectId]?.isSome := by
      rw [Bool.eq_iff_iff, h.isSome_iff, h'.isSome_iff]
      exact exists_congr fun source => hrefers source objectId
    cases hself : self.refs[objectId]? with
    | none =>
      rw [hself] at hsome
      exact (Option.not_isSome_iff_eq_none.mp (by rw [← hsome]; decide)).symm
    | some sources =>
      rw [hself] at hsome
      obtain ⟨sources', hsources'⟩ := Option.isSome_iff_exists.mp hsome.symm
      rw [hsources']
      have hsame : sources = sources' := by
        refine ext_mem fun source => ?_
        have := hrefers source objectId
        simpa [RefState.Refers, hself, hsources'] using this
      rw [hsame]
  cases self
  cases other
  exact congrArg RefState.mk hmap

/-! ## The operations -/

@[simp] theorem refers_empty (source objectId : String) :
    ¬ RefState.Refers ⟨∅⟩ source objectId := by
  simp [RefState.Refers]

theorem tight_empty : RefState.Tight ⟨∅⟩ := by
  simp [RefState.Tight]

@[simp] theorem refers_retain (self : RefState) (source objectId s o : String) :
    (self.retain source objectId).Refers s o ↔ s = source ∧ o = objectId ∨ self.Refers s o := by
  unfold RefState.Refers RefState.retain
  rw [Std.ExtTreeMap.getElem?_alter]
  split
  · next heq =>
    have heq : objectId = o := Std.LawfulEqOrd.eq_of_compare heq
    subst heq
    cases hentry : self.refs[objectId]? with
    | none | some => simp [@eq_comm _ s]
  · next hne =>
    have hne : o ≠ objectId := fun he => hne (by simp [he])
    simp [hne]

theorem RefState.Tight.retain {self : RefState} (h : self.Tight) (source objectId : String) :
    (self.retain source objectId).Tight := by
  intro o sources hsources
  unfold RefState.retain at hsources
  rw [Std.ExtTreeMap.getElem?_alter] at hsources
  split at hsources
  · cases hsources
    exact ⟨source, by simp⟩
  · exact h o sources hsources

/-- Retains a source of references to several objects. -/
def RefState.retainAll (self : RefState) (source : String) (objectIds : List String) : RefState :=
  objectIds.foldl (fun state objectId => state.retain source objectId) self

@[simp] theorem refers_retainAll (self : RefState) (source : String) (objectIds : List String)
    (s o : String) :
    (self.retainAll source objectIds).Refers s o ↔ s = source ∧ o ∈ objectIds ∨
    self.Refers s o := by
  induction objectIds generalizing self with
  | nil => simp [RefState.retainAll]
  | cons objectId objectIds ih =>
    have hcons := ih (self.retain source objectId)
    rw [RefState.retainAll] at hcons
    rw [RefState.retainAll, foldl_cons, hcons, refers_retain, mem_cons]
    tauto

theorem RefState.Tight.retainAll (h : self.Tight) (source : String) (objectIds : List String) :
    (self.retainAll source objectIds).Tight := by
  induction objectIds generalizing self with
  | nil => exact h
  | cons objectId objectIds ih => exact ih (h.retain source objectId)

/-- The objects that a message is attached to. -/
def messageObjectIds (message : Message) : List String := message.attachments.map (·.id)

theorem retainMessage_eq (self : RefState) (message : Message) :
    self.retainMessage message = self.retainAll message.path (messageObjectIds message) := by
  rw [RefState.retainMessage, RefState.retainAll, messageObjectIds, foldl_map]

@[simp] theorem refers_removeSource (self : RefState) (source s o : String) :
    (self.removeSource source).Refers s o ↔ s ≠ source ∧ self.Refers s o := by
  unfold RefState.Refers RefState.removeSource
  rw [Std.ExtTreeMap.getElem?_filterMap']
  cases hentry : self.refs[o]? with
  | none => simp
  | some sources =>
    show (∃ rest,
      (if (sources.erase source).isEmpty then none else some (sources.erase source)) = some rest ∧ s ∈ rest) ↔ _
    by_cases hempty : (sources.erase source).isEmpty = true
    · have hnot : s ∉ sources.erase source := by
        rw [isEmpty_iff.mp hempty]
        exact not_mem_empty
      rw [mem_erase] at hnot
      rw [if_pos hempty]
      have : s ≠ source → s ∉ sources := fun hne hmem => hnot ⟨by simpa using hne.symm, hmem⟩
      simpa using this
    · rw [if_neg hempty]
      simp [mem_erase, @eq_comm _ s]

theorem tight_removeSource (self : RefState) (source : String) :
    (self.removeSource source).Tight := by
  intro o rest hrest
  unfold RefState.removeSource at hrest
  rw [Std.ExtTreeMap.getElem?_filterMap'] at hrest
  obtain ⟨sources, -, hrest⟩ := Option.bind_eq_some_iff.mp hrest
  dsimp only at hrest
  split at hrest
  · cases hrest
  · next hempty =>
    cases hrest
    by_contra hnone
    exact hempty (isEmpty_iff.mpr (ext_mem fun s => by
      simpa using fun hs => hnone ⟨s, hs⟩))

theorem retainRecordForSchema_eq_ok {schema : DatabaseSchema} {state : RefState} :
    self.retainRecordForSchema schema record = .ok state ↔
    ∃ ids, declaredRecordObjectRefIds schema record = .ok ids ∧
    state = (self.removeSource record.path).retainAll record.path ids := by
  rw [RefState.retainRecordForSchema, bind_eq_ok]
  refine exists_congr fun ids => and_congr_right fun _ => ?_
  exact ⟨fun h => (Except.ok.inj h).symm, fun h => congrArg Except.ok h.symm⟩

/-! ## Built from messages and records -/

variable {schema : DatabaseSchema}

/-- The message has the object as an attachment. -/
def MessageRefers (message : Message) (source objectId : String) : Prop :=
  message.path = source ∧ objectId ∈ messageObjectIds message

/-- The references of a record can be read. -/
def Readable (schema : DatabaseSchema) (record : DbRecord) : Prop :=
  ∃ ids, declaredRecordObjectRefIds schema record = .ok ids

/-- The record refers to the object. -/
def RecordRefers (schema : DatabaseSchema) (record : DbRecord) (objectId : String) : Prop :=
  ∃ ids, declaredRecordObjectRefIds schema record = .ok ids ∧ objectId ∈ ids

theorem RecordRefers.iff_mem {ids : List String}
    (h : declaredRecordObjectRefIds schema record = .ok ids)
    (objectId : String) : RecordRefers schema record objectId ↔ objectId ∈ ids := by
  simp [RecordRefers, h]

theorem refers_foldl_retainMessage (self : RefState) (messages : List Message)
    (source objectId : String) :
    (messages.foldl RefState.retainMessage self).Refers source objectId ↔
    (∃ message ∈ messages, MessageRefers message source objectId) ∨
    self.Refers source objectId := by
  induction messages generalizing self with
  | nil => simp
  | cons message messages ih =>
    rw [foldl_cons, ih, retainMessage_eq, refers_retainAll, @eq_comm _ source]
    simp only [mem_cons, exists_eq_or_imp, MessageRefers]
    rw [or_assoc, or_left_comm]

theorem RefState.Tight.foldl_retainMessage (h : self.Tight) (messages : List Message) :
    (messages.foldl RefState.retainMessage self).Tight := by
  induction messages generalizing self with
  | nil => exact h
  | cons message messages ih =>
    refine ih ?_
    rw [retainMessage_eq]
    exact h.retainAll _ _

/-- Retaining records with distinct paths: each is left with its own references. -/
theorem exists_foldlM_retainRecord {records : List DbRecord} (hpaths : (records.map (·.path)).Nodup)
    (hreadable : ∀ record ∈ records, Readable schema record) (htight : self.Tight) :
    ∃ state, records.foldlM
    (fun state record => state.retainRecordForSchema schema record) self = .ok state ∧ state.Tight ∧
    ∀ source objectId,
    state.Refers source objectId ↔
    (∃ record ∈ records, record.path = source ∧ RecordRefers schema record objectId) ∨
    (∀ record ∈ records, record.path ≠ source) ∧ self.Refers source objectId := by
  induction records generalizing self with
  | nil => exact ⟨self, rfl, htight, by simp⟩
  | cons record records ih =>
    rw [map_cons, nodup_cons] at hpaths
    obtain ⟨ids, hids⟩ := hreadable record mem_cons_self
    have hretained : self.retainRecordForSchema schema record = .ok _ :=
      retainRecordForSchema_eq_ok.mpr ⟨ids, hids, rfl⟩
    obtain ⟨state, hstate, hstateTight, hrefers⟩ := ih hpaths.2 (fun r hr => hreadable r (mem_cons_of_mem _ hr))
      ((tight_removeSource self record.path).retainAll record.path ids)
    refine ⟨state, ?_, hstateTight, fun source objectId => ?_⟩
    · rw [foldlM_cons, hretained]
      exact hstate
    rw [hrefers, refers_retainAll, refers_removeSource]
    simp only [mem_cons, exists_eq_or_imp, forall_eq_or_imp, RecordRefers.iff_mem hids]
    by_cases he : record.path = source
    · have hlater : ∀ r ∈ records, r.path ≠ source := fun r hr hpath =>
        hpaths.1 (mem_map.mpr ⟨r, hr, hpath.trans he.symm⟩)
      have hnone : ¬ ∃ r ∈ records, r.path = source ∧ RecordRefers schema r objectId :=
        fun ⟨r, hr, hpath, _⟩ => hlater r hr hpath
      simp only [hnone, he, ne_eq, not_true_eq_false, false_and, or_false, false_or, true_and, and_iff_right_iff_imp]
      exact fun _ => hlater
    · simp only [he, Ne.symm he, ne_eq, not_false_eq_true, false_and, false_or, true_and]

theorem exists_fromMessagesAndRecordsForSchema {messages : List Message} {records : List DbRecord}
    (hpaths : (records.map (·.path)).Nodup)
    (hreadable : ∀ record ∈ records, Readable schema record) : ∃ state,
    RefState.fromMessagesAndRecordsForSchema messages records schema = .ok state ∧ state.Tight ∧
    ∀ source objectId,
    state.Refers source objectId ↔
    (∃ record ∈ records, record.path = source ∧ RecordRefers schema record objectId) ∨
    (∀ record ∈ records, record.path ≠ source) ∧
    ∃ message ∈ messages, MessageRefers message source objectId := by
  obtain ⟨state, hstate, htight, hrefers⟩ :=
    exists_foldlM_retainRecord hpaths hreadable (tight_empty.foldl_retainMessage messages)
  refine ⟨state, hstate, htight, fun source objectId => ?_⟩
  rw [hrefers, refers_foldl_retainMessage]
  simp

/-! ## Built from a log -/

/-- The path of the record that a mutation is about. -/
def mutationPath : DbRecordMutationDraft → String
  | .upsert record => record.path
  | .delete record => record.path

/-- What a mutation leaves at its path. -/
def mutationLeaves (lsn : Nat) : DbRecordMutationDraft → Option DbRecord
  | .upsert record => some (record.intoRecord lsn)
  | .delete _ => none

theorem mutationLeaves_path {lsn : Nat} {mutation : DbRecordMutationDraft}
    (h : mutationLeaves lsn mutation = some record) : record.path = mutationPath mutation := by
  cases mutation with
  | upsert draft =>
    cases h
    rfl
  | delete draft => cases h

/-- The last of some mutations that is about a path. -/
def lastAt (path : String) (mutations : List DbRecordMutationDraft) :
    Option DbRecordMutationDraft :=
  (mutations.filter fun mutation => mutationPath mutation = path).getLast?

theorem mem_of_lastAt {path : String} {mutations : List DbRecordMutationDraft}
    {mutation : DbRecordMutationDraft}
    (h : lastAt path mutations = some mutation) :
    mutation ∈ mutations ∧ mutationPath mutation = path := by
  simpa using mem_filter.mp (mem_of_getLast? h)

theorem lastAt_concat (path : String) (mutations : List DbRecordMutationDraft)
    (mutation : DbRecordMutationDraft) :
    lastAt path (mutations ++ [mutation]) = if mutationPath mutation = path then
    some mutation else lastAt path mutations := by
  unfold lastAt
  rw [filter_append]
  split
  · next h => simp [h]
  · next h => simp [h]

theorem getElem?_applyMutation (lsn : Nat) (recordsByPath : BTreeMap String DbRecord)
    (mutation : DbRecordMutationDraft)
    (path : String) : (applyMutation lsn recordsByPath mutation)[path]? = if mutationPath mutation =
    path then
    mutationLeaves lsn mutation else recordsByPath[path]? := by
  cases mutation with
  | upsert draft =>
    rw [applyMutation, Std.ExtTreeMap.getElem?_insert]
    exact if_congr compare_eq_iff_eq rfl rfl
  | delete draft =>
    rw [applyMutation, Std.ExtTreeMap.getElem?_erase]
    exact if_congr compare_eq_iff_eq rfl rfl

/-- The changes that a log record makes at a path. -/
def walMutationAt (path : String) (r : WalRecord) : Option DbRecordMutationDraft :=
  lastAt path (recordMutations r.payload)

theorem getElem?_applyWalRecord (recordsByPath : BTreeMap String DbRecord) (r : WalRecord)
    (path : String) :
    (applyWalRecord recordsByPath r)[path]? =
    (walMutationAt path r).elim recordsByPath[path]? (mutationLeaves r.lsn) := by
  unfold applyWalRecord walMutationAt
  induction recordMutations r.payload using reverseRecOn with
  | nil => rfl
  | append_singleton mutations mutation ih =>
    rw [foldl_append, foldl_cons, foldl_nil, getElem?_applyMutation, lastAt_concat]
    split
    · rfl
    · exact ih

/-- The record of a log that changed a path last. -/
structure Newest (log : WalRecord → Prop) (path : String) (r : WalRecord) : Prop where
  mem : log r
  changes : (walMutationAt path r).isSome
  newest : ∀ r', log r' → (walMutationAt path r').isSome → r'.lsn ≤ r.lsn

theorem newest_add_self {log : WalRecord → Prop} {path : String} {r : WalRecord}
    (hchanges : (walMutationAt path r).isSome)
    (hold : ∀ r', log r' → (walMutationAt path r').isSome → r'.lsn < r.lsn)
    (r' : WalRecord) : Newest (fun r' => log r' ∨ r' = r) path r' ↔ r' = r := by
  constructor
  · intro h
    rcases h.mem with hmem | he
    · have hlt := hold r' hmem h.changes
      have hle := h.newest r (.inr rfl) hchanges
      omega
    · exact he
  · rintro rfl
    refine ⟨.inr rfl, hchanges, fun r hr hrchanges => ?_⟩
    rcases hr with hr | rfl
    · exact (hold r hr hrchanges).le
    · exact Nat.le_refl _

theorem newest_add_of_not {path : String} {more : WalRecord → Prop}
    (hmore : ∀ r, more r → walMutationAt path r = none)
    (r' : WalRecord) : Newest (fun r' => log r' ∨ more r') path r' ↔ Newest log path r' := by
  have hnot : ∀ r, more r → ¬ (walMutationAt path r).isSome := fun r hr => by simp [hmore r hr]
  constructor
  · intro h
    refine ⟨h.mem.resolve_right fun he => hnot _ he h.changes, h.changes, fun r hr hrchanges => ?_⟩
    exact h.newest r (.inl hr) hrchanges
  · intro h
    refine ⟨.inl h.mem, h.changes, fun r hr hrchanges => ?_⟩
    rcases hr with hr | hr
    · exact h.newest r hr hrchanges
    · exact absurd hrchanges (hnot _ hr)

/-- What a log has at a path. -/
def Live (log : WalRecord → Prop) (path : String) (record : DbRecord) : Prop :=
  ∃ r mutation, Newest log path r ∧ walMutationAt path r = some mutation ∧ mutationLeaves r.lsn mutation = some record

theorem Live.path {path : String} (h : Live log path record) : record.path = path := by
  obtain ⟨r, mutation, -, hmutation, hleaves⟩ := h
  exact (mutationLeaves_path hleaves).trans (mem_of_lastAt hmutation).2

theorem getElem?_recordsByPath (hasc : records.Pairwise fun a b => a.lsn < b.lsn) (path : String)
    (record : DbRecord) :
    (recordsByPath records)[path]? = some record ↔ Live (· ∈ records) path record := by
  induction records using reverseRecOn with
  | nil =>
    refine ⟨fun h => (by simp [recordsByPath] at h), fun h => ?_⟩
    obtain ⟨r, _, hnewest, -⟩ := h
    exact absurd hnewest.mem not_mem_nil
  | append_singleton records r ih =>
    obtain ⟨hrecords, -, hlt⟩ := pairwise_append.mp hasc
    have hlog : (· ∈ records ++ [r]) = fun r' => r' ∈ records ∨ r' = r := by
      funext r'
      simp
    rw [recordsByPath_concat, getElem?_applyWalRecord, hlog]
    cases hmutation : walMutationAt path r with
    | none =>
      rw [Option.elim_none, ih hrecords]
      refine exists_congr fun r' => exists_congr fun mutation => and_congr_left' ?_
      exact (newest_add_of_not (fun r'' (he : r'' = r) => he ▸ hmutation) r').symm
    | some mutation =>
      have hself := @newest_add_self (· ∈ records) _ _ (by rw [hmutation]; rfl) fun r' hr' _ =>
        hlt r' hr' r (mem_singleton.mpr rfl)
      constructor
      · exact fun hleaves => ⟨r, mutation, (hself r).mpr rfl, hmutation, hleaves⟩
      · rintro ⟨r', mutation', hnewest, hmutation', hleaves⟩
        cases (hself r').mp hnewest
        cases hmutation.symm.trans hmutation'
        exact hleaves

/-- What the messages and live records of a log refer to. -/
def LogRefers (schema : DatabaseSchema) (log : WalRecord → Prop) (source objectId : String) :
    Prop :=
  (∃ r message, log r ∧ messageOf r = some message ∧ MessageRefers message source objectId) ∨
    ∃ record, Live log source record ∧ RecordRefers schema record objectId

/-- What a log record itself refers to. -/
def RecordNames (schema : DatabaseSchema) (r : WalRecord) (objectId : String) : Prop :=
  (∃ message, messageOf r = some message ∧ objectId ∈ messageObjectIds message) ∨
    ∃ draft, .upsert draft ∈ recordMutations r.payload ∧ RecordRefers schema (draft.intoRecord r.lsn) objectId

/-- What more records bring in, they name. -/
theorem LogRefers.of_add {more : WalRecord → Prop} {source objectId : String}
    (h : LogRefers schema (fun r => log r ∨ more r) source objectId) :
    LogRefers schema log source objectId ∨ ∃ r, more r ∧ RecordNames schema r objectId := by
  rcases h with ⟨r, message, hr | hr, hmessage, hrefers⟩ | ⟨record, ⟨r, mutation, hnewest, hmutation, hleaves⟩, hrefers⟩
  · exact .inl (.inl ⟨r, message, hr, hmessage, hrefers⟩)
  · exact .inr ⟨r, hr, .inl ⟨message, hmessage, hrefers.2⟩⟩
  · rcases hnewest.mem with hr | hr
    · have hold : Newest log source r := ⟨hr, hnewest.changes, fun r' hr' => hnewest.newest r' (.inl hr')⟩
      exact .inl (.inr ⟨record, ⟨r, mutation, hold, hmutation, hleaves⟩, hrefers⟩)
    · cases mutation with
      | upsert draft =>
        cases hleaves
        exact .inr ⟨r, hr, .inr ⟨draft, (mem_of_lastAt hmutation).1, hrefers⟩⟩
      | delete draft => cases hleaves

/-- No message stands at the path of a record. -/
def PathsApart (log : WalRecord → Prop) : Prop :=
  ∀ r r' message, log r → messageOf r = some message → log r' → walMutationAt message.path r' = none

theorem mem_messagesFromWalRecords {message : Message} :
    message ∈ messagesFromWalRecords records ↔ ∃ r ∈ records, messageOf r = some message :=
  mem_filterMap

theorem mem_recordsFromWalRecords (hasc : records.Pairwise fun a b => a.lsn < b.lsn) :
    record ∈ recordsFromWalRecords records ↔ Live (· ∈ records) record.path record := by
  simp only [recordsFromWalRecords, mem_map, Prod.exists, Std.ExtTreeMap.mem_toList_iff_getElem?_eq_some,
    exists_eq_right, getElem?_recordsByPath hasc]
  exact ⟨fun ⟨path, h⟩ => by rwa [h.path], fun h => ⟨_, h⟩⟩

/-- The index of what a log has. -/
theorem refers_fromWalRecords {records : List WalRecord}
    (hasc : records.Pairwise fun a b => a.lsn < b.lsn) (hapart : PathsApart (· ∈ records))
    (hreadable : ∀ path record,
    Live (· ∈ records) path record → Readable schema record) :
    ∃ state, RefState.fromMessagesAndRecordsForSchema
    (messagesFromWalRecords records) (recordsFromWalRecords records) schema = .ok state ∧
    state.Tight ∧
    ∀ source objectId, state.Refers source objectId ↔
    LogRefers schema (· ∈ records) source objectId := by
  have hmem : ∀ record, record ∈ recordsFromWalRecords records ↔ Live (· ∈ records) record.path record :=
    fun record => mem_recordsFromWalRecords hasc
  have hpaths : ((recordsFromWalRecords records).map (·.path)).Nodup := by
    have hkeys : (recordsFromWalRecords records).map (·.path) = (recordsByPath records).keys := by
      rw [recordsFromWalRecords, map_map, ← Std.ExtTreeMap.map_fst_toList_eq_keys]
      refine map_congr_left fun entry hentry => ?_
      have := Std.ExtTreeMap.mem_toList_iff_getElem?_eq_some.mp (show (entry.1, entry.2) ∈ _ from hentry)
      exact ((getElem?_recordsByPath hasc _ _).mp this).path
    rw [hkeys]
    exact (Std.ExtTreeMap.distinct_keys (t := recordsByPath records)).imp fun h he => h (by simp [he])
  obtain ⟨state, hstate, htight, hrefers⟩ :=
    @exists_fromMessagesAndRecordsForSchema schema (messagesFromWalRecords records) _ hpaths fun record hrecord =>
      hreadable _ record ((hmem record).mp hrecord)
  refine ⟨state, hstate, htight, fun source objectId => ?_⟩
  have hmessages : (∃ message ∈ messagesFromWalRecords records, MessageRefers message source objectId) ↔
      ∃ r message, r ∈ records ∧ messageOf r = some message ∧ MessageRefers message source objectId := by
    simp only [mem_messagesFromWalRecords]
    exact ⟨fun ⟨message, ⟨r, hr, hm⟩, h⟩ => ⟨r, message, hr, hm, h⟩,
      fun ⟨r, message, hr, hm, h⟩ => ⟨message, ⟨r, hr, hm⟩, h⟩⟩
  have hrecords : (∃ record ∈ recordsFromWalRecords records,
      record.path = source ∧ RecordRefers schema record objectId) ↔ ∃ record, Live (· ∈ records) source record ∧
      RecordRefers schema record objectId := by
    refine exists_congr fun record => ?_
    rw [hmem]
    exact ⟨fun ⟨hlive, hpath, h⟩ => ⟨hpath ▸ hlive, h⟩, fun ⟨hlive, h⟩ => ⟨by rwa [hlive.path], hlive.path, h⟩⟩
  rw [hrefers, hmessages, hrecords, LogRefers, or_comm]
  refine or_congr_left ⟨fun h => h.2, fun h => ⟨fun record hrecord hpath => ?_, h⟩⟩
  obtain ⟨r, message, hr, hm, hrefersMessage⟩ := h
  obtain ⟨r', mutation, hnewest, hmutation, -⟩ := (hmem record).mp hrecord
  have hnone := hapart r r' message hr hm hnewest.mem
  rw [hrefersMessage.1, ← hpath, hmutation] at hnone
  cases hnone

end NextDb.Records
