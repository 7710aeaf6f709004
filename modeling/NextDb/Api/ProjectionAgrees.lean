import Mathlib.Data.List.ReduceOption
import NextDb.Api.ProjectionEntries

/-!
# The projection and the records it is of

The keyspaces of the projection hold exactly what the current records have there, in every state
that upserts and deletes leave.

* `Agrees.upsert_ok_iff`: an upsert succeeds if the record has its indexed values, and no other
  record has the values of a unique index.
* `Agrees.upsert`, `Agrees.delete`: the keyspaces hold what the records after an upsert, or a
  delete, have.
-/

namespace NextDb.Api.ProjectionKv

open List Option Function Prod TextKeys Entries Fallible
open RecordMatch (recordIndexValues)

/-- The records of each table, by their keys. -/
abbrev CurrentRecords := String → BTreeMap String DbRecord

namespace CurrentRecords

def rows (current : CurrentRecords) (place : String × String) : Option DbRecord :=
  (current place.1)[place.2]?

def put (current : CurrentRecords) (record : DbRecord) : CurrentRecords :=
  Function.update current record.table ((current record.table).insert record.key record)

def erase (current : CurrentRecords) (table key : String) : CurrentRecords :=
  Function.update current table ((current table).erase key)

theorem rows_put (current : CurrentRecords) (record : DbRecord) :
    rows (put current record) = update (rows current) (record.table, record.key) (some record) := by
  funext ⟨table, key⟩
  unfold rows put
  by_cases ht : table = record.table
  · subst ht
    rw [update_self, Std.ExtTreeMap.getElem?_insert]
    by_cases hk : record.key = key
    · subst hk
      simp
    · have hne : (record.table, key) ≠ (record.table, record.key) := fun h => hk (mk.inj h).2.symm
      rw [update_of_ne hne, if_neg fun h => hk (compare_eq_iff_eq.mp h)]
  · have hne : (table, key) ≠ (record.table, record.key) := fun h => ht (mk.inj h).1
    rw [update_of_ne hne, update_of_ne ht]

theorem rows_erase (current : CurrentRecords) (table key : String) :
    rows (erase current table key) = update (rows current) (table, key) none := by
  funext ⟨table', key'⟩
  unfold rows erase
  by_cases ht : table' = table
  · subst ht
    rw [update_self, Std.ExtTreeMap.getElem?_erase]
    by_cases hk : key = key'
    · subst hk
      simp
    · have hne : (table', key') ≠ (table', key) := fun h => hk (mk.inj h).2.symm
      rw [update_of_ne hne, if_neg fun h => hk (compare_eq_iff_eq.mp h)]
  · have hne : (table', key') ≠ (table, key) := fun h => ht (mk.inj h).1
    rw [update_of_ne hne, update_of_ne ht]

end CurrentRecords

open CurrentRecords

/-- The record has scalar values in the indexes of its table. -/
def Indexable (shape : ProjectionShape) (record : DbRecord) : Prop :=
  ∀ (name : String) (index : IndexSchema), (shape.indexes record.table)[name]? = some index →
    ∃ values, recordIndexValues record index = .ok values

/-- The values of the record in the indexes of its table can be stored. -/
def IndexesSerialize (lib : ProjectionLibraries) (shape : ProjectionShape) (record : DbRecord) :
    Prop :=
  ∀ (name : String) (index : IndexSchema), (shape.indexes record.table)[name]? = some index →
    ValuesSerialize lib (indexValuesOf record index)

/-- Another record of the table has the values of the record in a unique index. -/
def Conflicts (shape : ProjectionShape) (current : CurrentRecords) (record : DbRecord) : Prop :=
  ∃ (name : String) (index : IndexSchema) (other : DbRecord), (shape.indexes record.table)[name]? = some index ∧
    index.unique = true ∧ other.key ≠ record.key ∧ rows current (record.table, other.key) = some other ∧
    indexValuesOf other index = indexValuesOf record index

/-- A record that can be stored: its numbers are those of 64 bits. -/
structure InPlace (lib : ProjectionLibraries) (shape : ProjectionShape) (record : DbRecord) : Prop
    extends Named record where
  serializes : Serializes lib record
  indexable : Indexable shape record
  valuesSerialize : IndexesSerialize lib shape record
  lsn : record.lsn ≤ maxU64
  updatedAtMs : record.updatedAtMs ≤ maxU64

/-- The keyspaces hold what the current records have. -/
structure Agrees (lib : ProjectionLibraries) (shape : ProjectionShape) (current : CurrentRecords)
    (kv : RecordProjectionKv) : Prop where
  place : ∀ place record, rows current place = some record → place = (record.table, record.key)
  inPlace : ∀ place record, rows current place = some record → InPlace lib shape record
  records : Stored (recordEntries lib) (rows current) fun key => kv.records[key]?
  recent : Stored (recentEntries lib) (rows current) fun key => kv.recent[key]?
  recentRefs : Stored recentRefEntries (rows current) fun key => kv.recentRefs[key]?
  partitions : Stored (partitionEntries lib) (rows current) fun key => kv.partitions[key]?
  orders : Stored (orderEntries lib shape) (rows current) fun key => kv.orders[key]?
  orderRefs : Stored (orderRefEntries lib shape) (rows current) fun key => kv.orderRefs[key]?
  indexes : Stored (indexEntries lib shape) (rows current) fun key => kv.indexes[key]?
  indexRefs : Stored (indexRefEntries lib shape) (rows current) fun key => kv.indexRefs[key]?

variable {lib : ProjectionLibraries} {shape : ProjectionShape} {current : CurrentRecords}
    {kv : RecordProjectionKv}

theorem agrees_empty : Agrees lib shape (fun _ => ∅) .empty := by
  have hnone : ∀ {ν : Type} (entries : DbRecord → List (String × ν)), Stored entries (rows fun _ => ∅) fun key =>
      (∅ : BTreeMap String ν)[key]? := by
    intro ν entries key value
    simp [rows]
  exact ⟨by simp [rows], by simp [rows], hnone _, hnone _, hnone _, hnone _, hnone _, hnone _, hnone _, hnone _⟩

namespace Agrees

variable (h : Agrees lib shape current kv)
include h

theorem named {place : String × String} {record : DbRecord}
    (hrow : rows current place = some record) : Named record :=
  (h.inPlace place record hrow).toNamed

variable {ν : Type} {entries : DbRecord → List (String × ν)}

theorem apart (htells : Tells entries) {record : DbRecord} (hrecord : Named record) :
    Apart entries (rows current) (record.table, record.key) record := by
  intro place other hplace hother key v w hv hw
  have htold := htells record other key v w hrecord (h.named hother) hv hw
  exact hplace ((h.place place other hother).trans (Prod.ext htold.1.symm htold.2.symm))

variable {find : String → Option ν}

/-- A key of a record that is found is of the row at its place. -/
theorem ofRow (htells : Tells entries) (hstored : Stored entries (rows current) find)
    {record : DbRecord}
    (hrecord : Named record) {key : String} {v : ν} (hkey : (key, v) ∈ entries record) {value : ν}
    (hfound : find key = some value) :
    OfRow entries (rows current (record.table, record.key)) key := by
  obtain ⟨place, other, hother, hmem⟩ := (hstored key value).mp hfound
  have htold := htells record other key v value hrecord (h.named hother) hkey hmem
  have hplace : place = (record.table, record.key) :=
    (h.place place other hother).trans (Prod.ext htold.1.symm htold.2.symm)
  exact ⟨other, hplace ▸ hother, value, hmem⟩

/-- A store that holds what the records before have holds what those after have, once the entries
are replaced. -/
theorem stored_update (htells : Tells entries) {find' : String → Option ν}
    (hstored : Stored entries (rows current) find) {table key : String} {new : Option DbRecord}
    (hnew : ∀ r, new = some r → Named r ∧ r.table = table ∧ r.key = key)
    (hfind : Replaces entries (rows current (table, key)) new find find') :
    Stored entries (update (rows current) (table, key) new) find' := by
  refine hstored.update ?_ hfind
  rintro r (hr | hr)
  · obtain ⟨hnamed, rfl, rfl⟩ := hnew r hr
    exact h.apart htells hnamed
  · obtain ⟨rfl, rfl⟩ := mk.inj (h.place (table, key) r hr)
    exact h.apart htells (h.named hr)

theorem getRecord_eq (hlib : lib.Lawful) {table key : String} (htable : NulFree table)
    (hkey : NulFree key) :
    getRecord lib kv table key = .ok (rows current (table, key)) := by
  unfold getRecord
  cases hfound : kv.records[recordKey table key]? with
  | none =>
    cases hrow : rows current (table, key) with
    | none => rfl
    | some record =>
      obtain ⟨rfl, rfl⟩ := mk.inj (h.place (table, key) record hrow)
      have hstored := (h.records (recordKey record.table record.key) (projectedBytes lib record)).mpr ⟨_, record, hrow,
        mem_singleton.mpr rfl⟩
      cases hfound.symm.trans hstored
  | some bytes =>
    obtain ⟨place, record, hrow, hmem⟩ := (h.records _ _).mp hfound
    simp only [recordEntries, mem_singleton, mk.injEq] at hmem
    obtain ⟨hrecordKey, rfl⟩ := hmem
    have hnamed := h.named hrow
    obtain ⟨rfl, rfl⟩ := (joined_inj htable hnamed.table).mp hrecordKey
    rw [h.place place record hrow] at hrow
    simp only [decode_projectedBytes hlib (h.inPlace _ record hrow).serializes, withContext_ok, hrow]
    rfl

/-! ## References -/

/-- The entries whose keys begin with the place of a row are those of the row. -/
theorem mem_scan_row {entries : DbRecord → List (String × ν)} {store : BTreeMap String ν}
    (hstored : Stored entries (rows current) fun key => store[key]?)
    (hkeys : ∀ record, ∀ entry ∈ entries record,
    ∃ rest, entry.1 = joined record.table (joined record.key rest)) {table key : String}
    (htable : NulFree table)
    (hkey : NulFree key) {entry : String × ν} : entry ∈ scan (joined table (joined key "")) store ↔
    ∃ record, rows current (table, key) = some record ∧ entry ∈ entries record := by
  obtain ⟨k, v⟩ := entry
  rw [mem_scan, hstored k v]
  constructor
  · rintro ⟨hstarts, place, record, hrow, hmem⟩
    have hnamed := h.named hrow
    obtain ⟨rest, heq⟩ := hkeys record _ hmem
    rw [show k = _ from heq, joined_cancel htable hnamed.table, joined_cancel hkey hnamed.key] at hstarts
    obtain ⟨rfl, rfl, -⟩ := hstarts
    exact ⟨record, h.place place record hrow ▸ hrow, hmem⟩
  · rintro ⟨record, hrow, hmem⟩
    obtain ⟨rfl, rfl⟩ := mk.inj (h.place _ record hrow)
    obtain ⟨rest, heq⟩ := hkeys record _ hmem
    refine ⟨?_, _, record, hrow, hmem⟩
    rw [show k = _ from heq, joined_cancel htable htable, joined_cancel hkey hkey]
    exact ⟨rfl, rfl, starts_empty _⟩

theorem mem_orderRemovals {table key : String} (htable : NulFree table) (hkey : NulFree key)
    {entry : String × String} :
    entry ∈ orderRemovals kv table key ↔ ∃ record, rows current (table, key) = some record ∧
    entry ∈ orderRefEntries lib shape record := by
  refine h.mem_scan_row h.orderRefs (fun record entry hmem => ?_) htable hkey
  obtain ⟨_, _, -, heq, -⟩ := mem_orderRefEntries.mp hmem
  exact ⟨_, heq⟩

theorem erases_orderRefs {table key : String} (htable : NulFree table) (hkey : NulFree key) :
    Erases (orderRefEntries lib shape) (rows current (table,
    key)) (fun key => kv.orderRefs[key]?) fun k =>
    (removeOrders kv (orderRemovals kv table key)).orderRefs[k]? := by
  have hkeys : ∀ k, k ∈ (orderRemovals kv table key).map fst ↔
      OfRow (orderRefEntries lib shape) (rows current (table, key)) k := by
    intro k
    simp only [List.mem_map, h.mem_orderRemovals htable hkey, OfRow]
    constructor
    · rintro ⟨entry, ⟨record, hrow, hmem⟩, rfl⟩
      exact ⟨record, hrow, entry.2, hmem⟩
    · rintro ⟨record, hrow, v, hmem⟩
      exact ⟨(k, v), ⟨record, hrow, hmem⟩, rfl⟩
  exact erases_of_keys _ (getElem?_foldl_erase _ _) (fun k hk _ _ => (hkeys k).mp hk) fun k hk => (hkeys k).mpr hk

theorem erases_orders {table key : String} (htable : NulFree table) (hkey : NulFree key) :
    Erases (orderEntries lib shape) (rows current (table,
    key)) (fun key => kv.orders[key]?) fun k =>
    (removeOrders kv (orderRemovals kv table key)).orders[k]? := by
  have hkeys : ∀ k, k ∈ (orderRemovals kv table key).map snd ↔
      OfRow (orderEntries lib shape) (rows current (table, key)) k := by
    intro k
    simp only [List.mem_map, h.mem_orderRemovals htable hkey, OfRow, Prod.exists, mem_orderRefEntries, mem_orderEntries]
    constructor
    · rintro ⟨ref, entry, ⟨record, hrow, order, parentKey, horder, -, hentry⟩, rfl⟩
      exact ⟨record, hrow, _, order, parentKey, horder, hentry, rfl⟩
    · rintro ⟨record, hrow, _, order, parentKey, horder, hentry, -⟩
      exact ⟨_, k, ⟨record, hrow, order, parentKey, horder, rfl, hentry⟩, rfl⟩
  exact erases_of_keys _ (getElem?_foldl_erase _ _) (fun k hk _ _ => (hkeys k).mp hk) fun k hk => (hkeys k).mpr hk

end Agrees

variable {indexName key table : String} {index : IndexSchema} {kv' : RecordProjectionKv}
    {record : DbRecord}

/-- The reference of an index entry stands for the entry. -/
theorem indexRemoval_ok (hlib : lib.Lawful) (hshape : shape.Named)
    (hrecord : InPlace lib shape record)
    (hindex : (shape.indexes record.table)[indexName]? = some index) :
    indexRemoval lib record.table record.key (indexEntryRef lib record indexName index) =
    .ok (some (indexEntryRef lib record indexName index,
    indexEntryKey lib record indexName index)) := by
  have hserialize := hrecord.valuesSerialize indexName index hindex
  have hparse := parseIndexRefKey_ok hlib hrecord.table hrecord.key (hshape _ _ _ hindex)
    (wellFormed_indexValuesOf record index) hserialize
  have hencode := encodeIndexValues_eq hserialize
  have hkey : indexKey lib record.table indexName (indexValuesOf record index) record.key =
      .ok (indexEntryKey lib record indexName index) := bind_eq_ok.mpr ⟨_, hencode, rfl⟩
  exact bind_eq_ok.mpr ⟨_, hparse, bind_eq_ok.mpr ⟨_, hkey, rfl⟩⟩

theorem erases_removeIndexes (kv : RecordProjectionKv)
    {removals : List (String × String)} (hremovals : ∀ removal, removal ∈ removals ↔ ∃ record,
    rows current (table, key) = some record ∧ ∃ indexName index,
      (shape.indexes record.table)[indexName]? = some index ∧
    removal = (indexEntryRef lib record indexName index,
      indexEntryKey lib record indexName index)) :
    Erases (indexEntries lib shape) (rows current (table, key)) (fun key => kv.indexes[key]?)
    (fun k => (removeIndexes kv removals).indexes[k]?) ∧
    Erases (indexRefEntries lib shape) (rows current (table, key))
    (fun key => kv.indexRefs[key]?) fun k => (removeIndexes kv removals).indexRefs[k]? := by
  have hkeys : ∀ k, k ∈ removals.map snd ↔ OfRow (indexEntries lib shape) (rows current (table, key)) k := by
    intro k
    simp only [List.mem_map, hremovals, OfRow, mem_indexEntries]
    constructor
    · rintro ⟨removal, ⟨record, hrow, indexName, index, hindex, rfl⟩, rfl⟩
      exact ⟨record, hrow, _, rfl, indexName, index, hindex, rfl⟩
    · rintro ⟨record, hrow, _, rfl, indexName, index, hindex, rfl⟩
      exact ⟨_, ⟨record, hrow, indexName, index, hindex, rfl⟩, rfl⟩
  have hrefs : ∀ k, k ∈ removals.map fst ↔ OfRow (indexRefEntries lib shape) (rows current (table, key)) k := by
    intro k
    simp only [List.mem_map, hremovals, OfRow, mem_indexRefEntries]
    constructor
    · rintro ⟨removal, ⟨record, hrow, indexName, index, hindex, rfl⟩, rfl⟩
      exact ⟨record, hrow, (), indexName, index, hindex, rfl⟩
    · rintro ⟨record, hrow, _, indexName, index, hindex, rfl⟩
      exact ⟨_, ⟨record, hrow, indexName, index, hindex, rfl⟩, rfl⟩
  exact ⟨erases_of_keys _ (getElem?_foldl_erase _ _) (fun k hk _ _ => (hkeys k).mp hk) fun k hk => (hkeys k).mpr hk,
    erases_of_keys _ (getElem?_foldl_erase _ _) (fun k hk _ _ => (hrefs k).mp hk) fun k hk => (hrefs k).mpr hk⟩

namespace Agrees

variable (h : Agrees lib shape current kv)
include h

theorem mem_scan_indexRefs (htable : NulFree table) (hkey : NulFree key) {entry : String × Unit} :
    entry ∈ scan (indexRefPrefix table key) kv.indexRefs ↔
    ∃ record, rows current (table, key) = some record ∧
    entry ∈ indexRefEntries lib shape record := by
  refine h.mem_scan_row h.indexRefs (fun record entry hmem => ?_) htable hkey
  obtain ⟨_, _, _, heq⟩ := mem_indexRefEntries.mp hmem
  exact ⟨_, heq⟩

/-- The references of a record parse, and give its entries. -/
theorem indexRemovals_ok (hlib : lib.Lawful) (hshape : shape.Named) (htable : NulFree table)
    (hkey : NulFree key) :
    ∃ removals, indexRemovals lib kv table key = .ok removals ∧
    ∀ removal, removal ∈ removals.reduceOption ↔ ∃ record,
    rows current (table, key) = some record ∧
    ∃ indexName index, (shape.indexes record.table)[indexName]? = some index ∧
    removal = (indexEntryRef lib record indexName index,
    indexEntryKey lib record indexName index) := by
  have hone : ∀ entry ∈ scan (indexRefPrefix table key) kv.indexRefs, ∃ record, rows current (table, key) =
      some record ∧ ∃ indexName index, (shape.indexes record.table)[indexName]? = some index ∧
        entry.1 = indexEntryRef lib record indexName index ∧ indexRemoval lib table key entry.1 =
          .ok (some (indexEntryRef lib record indexName index, indexEntryKey lib record indexName index)) := by
    intro entry hentry
    obtain ⟨record, hrow, hmem⟩ := (h.mem_scan_indexRefs htable hkey).mp hentry
    obtain ⟨indexName, index, hindex, hentryKey⟩ := mem_indexRefEntries.mp hmem
    obtain ⟨rfl, rfl⟩ := mk.inj (h.place _ record hrow)
    refine ⟨record, hrow, indexName, index, hindex, hentryKey, ?_⟩
    rw [hentryKey]
    exact indexRemoval_ok hlib hshape (h.inPlace _ record hrow) hindex
  obtain ⟨removals, hremovals⟩ := mapM_ok_of_forall fun entry hentry =>
    let ⟨_, _, _, _, _, _, hok⟩ := hone entry hentry
    ⟨_, hok⟩
  refine ⟨removals, hremovals, fun removal => ?_⟩
  rw [reduceOption_mem_iff]
  constructor
  · intro hmem
    obtain ⟨entry, hentry, hok⟩ := mem_of_mapM_ok hremovals hmem
    obtain ⟨record, hrow, indexName, index, hindex, -, hok'⟩ := hone entry hentry
    exact ⟨record, hrow, indexName, index, hindex, some.inj (Except.ok.inj (hok.symm.trans hok'))⟩
  · rintro ⟨record, hrow, indexName, index, hindex, rfl⟩
    have hentry : (indexEntryRef lib record indexName index, ()) ∈ scan (indexRefPrefix table key) kv.indexRefs :=
      (h.mem_scan_indexRefs htable hkey).mpr ⟨record, hrow, mem_indexRefEntries.mpr ⟨indexName, index, hindex, rfl⟩⟩
    obtain ⟨removal, hmem, hok⟩ := mem_mapM_of_mem hremovals hentry
    obtain ⟨rfl, rfl⟩ := mk.inj (h.place _ record hrow)
    rw [indexRemoval_ok hlib hshape (h.inPlace _ record hrow) hindex] at hok
    rw [Except.ok.inj hok]
    exact hmem

/-! ## Entries that go -/

/-- A record of a table and key, whatever it holds. -/
def placeholder (table key : String) : DbRecord := ⟨table, key, .null, 0, 0, ""⟩

omit h in
theorem named_placeholder (htable : NulFree table) (hkey : NulFree key) :
    Named (placeholder table key) := ⟨htable, hkey⟩

theorem recentRef_eq (htable : NulFree table) (hkey : NulFree key) :
    kv.recentRefs[recentRefKey table key]? = (rows current (table, key)).map recentKey := by
  cases hrow : rows current (table, key) with
  | some record =>
    obtain ⟨rfl, rfl⟩ := mk.inj (h.place _ record hrow)
    exact (h.recentRefs _ _).mpr ⟨_, record, hrow, mem_singleton.mpr rfl⟩
  | none =>
    cases hfound : kv.recentRefs[recentRefKey table key]? with
    | none => rfl
    | some value =>
      obtain ⟨record, hrow', -⟩ := h.ofRow recentRefEntries_tells h.recentRefs (named_placeholder htable hkey)
        (v := recentKey (placeholder table key)) (mem_singleton.mpr rfl) hfound
      cases hrow.symm.trans hrow'

omit h in
theorem getElem?_eraseReferred (reference : Option String) (entries : BTreeMap String Bytes)
    (key : String) :
    (eraseReferred reference entries)[key]? = if key ∈
    reference.toList then none else entries[key]? := by
  cases reference with
  | none => simp [eraseReferred]
  | some k => exact getElem?_foldl_erase [k] entries key

section
variable (htable : NulFree table)
include htable

theorem erases_recent (hkey : NulFree key) : Erases (recentEntries lib) (rows current (table, key))
    (fun k => kv.recent[k]?) fun k => (eraseReferred kv.recentRefs[recentRefKey table key]? kv.recent)[k]? := by
  have hkeys : ∀ k, k ∈ (kv.recentRefs[recentRefKey table key]?).toList ↔
      OfRow (recentEntries lib) (rows current (table, key)) k := by
    intro k
    rw [h.recentRef_eq htable hkey, mem_toList, map_eq_some_iff]
    simp only [OfRow, recentEntries, mem_singleton, mk.injEq]
    constructor
    · rintro ⟨record, hrow, rfl⟩
      exact ⟨record, hrow, _, rfl, rfl⟩
    · rintro ⟨record, hrow, _, rfl, -⟩
      exact ⟨record, hrow, rfl⟩
  exact erases_of_keys _ (getElem?_eraseReferred _ _) (fun k hk _ _ => (hkeys k).mp hk) fun k hk => (hkeys k).mpr hk

/-- The only entry that a row can have is erased. -/
theorem erases_one (hkey : NulFree key) {entries : DbRecord → List (String × ν)}
    (htells : Tells entries)
    {store : BTreeMap String ν} (hstored : Stored entries (rows current) fun k => store[k]?)
    {only : String}
    {v : DbRecord → ν} (hone : ∀ record : DbRecord, record.table = table → record.key = key →
    entries record = [(only, v record)]) :
    Erases entries (rows current (table,
    key)) (fun k => store[k]?) fun k => (store.erase only)[k]? := by
  refine erases_of_keys [only] (getElem?_foldl_erase [only] store) (fun k hk found hfound => ?_) fun k hk => ?_
  · obtain rfl := mem_singleton.mp hk
    refine h.ofRow htells hstored (named_placeholder htable hkey) (v := v (placeholder table key)) ?_ hfound
    rw [hone (placeholder table key) rfl rfl]
    exact mem_singleton.mpr rfl
  · obtain ⟨record, hrow, _, hmem⟩ := hk
    obtain ⟨rfl, rfl⟩ := mk.inj (h.place _ record hrow)
    rw [hone record rfl rfl] at hmem
    exact mem_singleton.mpr (mk.inj (mem_singleton.mp hmem)).1

theorem erases_records (hkey : NulFree key) : Erases (recordEntries lib) (rows current (table, key))
    (fun k => kv.records[k]?) fun k => (kv.records.erase (recordKey table key))[k]? := by
  refine h.erases_one htable hkey recordEntries_tells h.records (v := projectedBytes lib) ?_
  rintro record rfl rfl
  rfl

theorem erases_recentRefs (hkey : NulFree key) : Erases recentRefEntries (rows current (table, key))
    (fun k => kv.recentRefs[k]?) fun k => (kv.recentRefs.erase (recentRefKey table key))[k]? := by
  refine h.erases_one htable hkey recentRefEntries_tells h.recentRefs (v := recentKey) ?_
  rintro record rfl rfl
  rfl

theorem erases_partitions (hkey : NulFree key) :
    Erases (partitionEntries lib) (rows current (table, key)) (fun k => kv.partitions[k]?)
      fun k => (match splitNestedKey key with
        | some (parentKey, nestedKey) => kv.partitions.erase (partitionKey table parentKey nestedKey)
        | none => kv.partitions)[k]? := by
  cases hsplit : splitNestedKey key with
  | none =>
    refine erases_of_keys [] (fun k => by simp) nofun fun k hk => ?_
    obtain ⟨record, hrow, v, hmem⟩ := hk
    obtain ⟨rfl, rfl⟩ := mk.inj (h.place _ record hrow)
    rw [partitionEntries, hsplit] at hmem
    exact absurd hmem not_mem_nil
  | some parts =>
    refine h.erases_one htable hkey partitionEntries_tells h.partitions (v := projectedBytes lib) ?_
    rintro record rfl rfl
    rw [partitionEntries, hsplit]

theorem orderRemovals_removed (hkey : NulFree key) {kv' : RecordProjectionKv}
    (hrefs : kv'.orderRefs = (removeOrders kv (orderRemovals kv table key)).orderRefs) :
    orderRemovals kv' table key = [] := by
  refine eq_nil_iff_forall_not_mem.mpr ?_
  rintro ⟨refKey, orderKey⟩ hmem
  obtain ⟨hstarts, hfound⟩ := mem_scan.mp hmem
  rw [hrefs] at hfound
  obtain ⟨hnot, hfound⟩ := (h.erases_orderRefs htable hkey refKey orderKey).mp hfound
  obtain ⟨record, hrow, hentry⟩ := (h.mem_orderRemovals htable hkey).mp (mem_scan.mpr ⟨hstarts, hfound⟩)
  exact hnot ⟨record, hrow, orderKey, hentry⟩

end

/-- A delete succeeds, and leaves what the records without the deleted one have. -/
theorem delete (hlib : lib.Lawful) (hshape : shape.Named) (htable : NulFree table)
    (hkey : NulFree key) :
    ∃ kv', exec (deleteFromProjection lib table key) kv =
    (.ok (rows current (table, key)).isSome, kv') ∧
    Agrees lib shape (current.erase table key) kv' := by
  obtain ⟨removals, hremovals, hmem⟩ := h.indexRemovals_ok hlib hshape htable hkey
  obtain ⟨kv₁, hkv₁⟩ : ∃ kv₁, exec (removeRecord table key) kv = (.ok (), kv₁) := ⟨_, rfl⟩
  have hrefs : kv₁.orderRefs = (removeOrders kv (orderRemovals kv table key)).orderRefs := by
    cases hkv₁
    rfl
  have hindexRefs : kv₁.indexRefs = kv.indexRefs := by
    cases hkv₁
    rfl
  have hsame : removeOrders kv₁ (orderRemovals kv₁ table key) = kv₁ := by
    rw [h.orderRemovals_removed htable hkey hrefs]
    rfl
  have hremovals₁ : indexRemovals lib kv₁ table key = .ok removals := by
    rw [indexRemovals, hindexRefs]
    exact hremovals
  have hexec : exec (deleteFromProjection lib table key) kv = (.ok (rows current (table, key)).isSome,
      removeIndexes kv₁ removals.reduceOption) := by
    simp only [deleteFromProjection, removeOrderEntries, removeIndexEntries, exec_bind, exec_get, exec_check,
      h.getRecord_eq hlib htable hkey, hkv₁, exec_change, hsame, hremovals₁, exec_pure]
  refine ⟨_, hexec, ?_⟩
  obtain ⟨hindexes, hindexRefs'⟩ := erases_removeIndexes kv hmem
  have hfields : Agrees lib shape (current.erase table key)
      (removeIndexes { kv₁ with indexes := kv.indexes, indexRefs := kv.indexRefs } removals.reduceOption) := by
    have hnew : ∀ r : DbRecord, none = some r → Named r ∧ r.table = table ∧ r.key = key := nofun
    have hcases : ∀ {place : String × String} {record : DbRecord}, rows (current.erase table key) place = some record →
        rows current place = some record := by
      intro place record hrow
      rw [rows_erase] at hrow
      by_cases hplace : place = (table, key)
      · rw [hplace, update_self] at hrow
        cases hrow
      · rwa [update_of_ne hplace] at hrow
    cases hkv₁
    constructor
    · exact fun place record hrow => h.place place record (hcases hrow)
    · exact fun place record hrow => h.inPlace place record (hcases hrow)
    all_goals rw [rows_erase]
    · exact h.stored_update recordEntries_tells h.records hnew (h.erases_records htable hkey).replaces
    · exact h.stored_update recentEntries_tells h.recent hnew (h.erases_recent htable hkey).replaces
    · exact h.stored_update recentRefEntries_tells h.recentRefs hnew (h.erases_recentRefs htable hkey).replaces
    · exact h.stored_update partitionEntries_tells h.partitions hnew (h.erases_partitions htable hkey).replaces
    · exact h.stored_update orderEntries_tells h.orders hnew (h.erases_orders htable hkey).replaces
    · exact h.stored_update orderRefEntries_tells h.orderRefs hnew (h.erases_orderRefs htable hkey).replaces
    · exact h.stored_update (indexEntries_tells hshape) h.indexes hnew hindexes.replaces
    · exact h.stored_update indexRefEntries_tells h.indexRefs hnew hindexRefs'.replaces
  cases hkv₁
  exact hfields

end Agrees

/-! ## Entries that come -/

/-- Another record of the table has the values of the record in the index. -/
def ConflictsAt (current : CurrentRecords) (record : DbRecord) (index : IndexSchema) : Prop :=
  index.unique = true ∧ ∃ other : DbRecord, other.key ≠ record.key ∧
    rows current (record.table, other.key) = some other ∧ indexValuesOf other index = indexValuesOf record index

/-- The record's values are scalar and can be stored, and no other record has them if the index is
unique. -/
structure Fits (lib : ProjectionLibraries) (current : CurrentRecords) (record : DbRecord)
    (index : IndexSchema) :
    Prop where
  indexable : ∃ values, recordIndexValues record index = .ok values
  serialize : ValuesSerialize lib (indexValuesOf record index)
  free : ¬ ConflictsAt current record index

theorem forall_fits_iff :
    (∀ entry ∈ (shape.indexes record.table).toList, Fits lib current record entry.2) ↔
    Indexable shape record ∧
    IndexesSerialize lib shape record ∧ ¬ Conflicts shape current record := by
  have hmem : ∀ {name : String} {index : IndexSchema}, (name, index) ∈ (shape.indexes record.table).toList ↔
      (shape.indexes record.table)[name]? = some index := Std.ExtTreeMap.mem_toList_iff_getElem?_eq_some
  constructor
  · intro hfits
    refine ⟨fun name index hindex => (hfits (name, index) (hmem.mpr hindex)).indexable,
      fun name index hindex => (hfits (name, index) (hmem.mpr hindex)).serialize, ?_⟩
    rintro ⟨name, index, other, hindex, hunique, hother⟩
    exact (hfits (name, index) (hmem.mpr hindex)).free ⟨hunique, other, hother⟩
  · rintro ⟨hindexable, hserialize, hconflicts⟩ ⟨name, index⟩ hentry
    refine ⟨hindexable name index (hmem.mp hentry), hserialize name index (hmem.mp hentry), ?_⟩
    rintro ⟨hunique, other, hother⟩
    exact hconflicts ⟨name, index, other, hmem.mp hentry, hunique, hother⟩

def putEntries (lib : ProjectionLibraries) (record : DbRecord) (kv : RecordProjectionKv)
    (indexes : List (String × IndexSchema)) : RecordProjectionKv :=
  { kv with
    indexes := (indexes.map fun entry => (indexEntryKey lib record entry.1 entry.2, projectedBytes lib record)).foldl
      (fun store entry => store.insert entry.1 entry.2) kv.indexes
    indexRefs := (indexes.map fun entry => (indexEntryRef lib record entry.1 entry.2, ())).foldl
      (fun store entry => store.insert entry.1 entry.2) kv.indexRefs }

theorem putEntries_append (record : DbRecord) (indexes more : List (String × IndexSchema)) :
    putEntries lib record kv (indexes ++ more) =
    putEntries lib record (putEntries lib record kv indexes) more := by
  simp [putEntries, foldl_append]

/-- What is found once the first of the record's index entries have come. -/
theorem getElem?_putEntries (record : DbRecord) (indexes : List (String × IndexSchema))
    (key : String) (bytes : Bytes) :
    (putEntries lib record kv indexes).indexes[key]? = some bytes ↔
    (∃ entry ∈ indexes, key = indexEntryKey lib record entry.1 entry.2 ∧
    bytes = projectedBytes lib record) ∨
    (∀ entry ∈ indexes, key ≠ indexEntryKey lib record entry.1 entry.2) ∧
    kv.indexes[key]? = some bytes := by
  rw [putEntries, getElem?_foldl_insert]
  · simp only [List.mem_map, mk.injEq, not_exists, not_and, eq_comm (b := key), eq_comm (b := bytes)]
    refine or_congr Iff.rfl (and_congr_left fun _ => ?_)
    exact ⟨fun h entry hentry he => h _ entry hentry he rfl, fun h v entry hentry he _ => h entry hentry he⟩
  · intro key v w hv hw
    obtain ⟨_, -, hv⟩ := mem_map.mp hv
    obtain ⟨_, -, hw⟩ := mem_map.mp hw
    rw [← (mk.inj hv).2, ← (mk.inj hw).2]

/-- The entries of the indexes, once those of a record went, are those of the records at other
places. -/
theorem Agrees.indexes_of_others (h : Agrees lib shape current kv) (hshape : shape.Named)
    {place : String × String}
    (herased : Erases (indexEntries lib shape) (rows current place) (fun key => kv.indexes[key]?) fun key =>
    kv'.indexes[key]?) (key : String) (bytes : Bytes) :
    kv'.indexes[key]? = some bytes ↔ ∃ other, rows current (other.table, other.key) = some other ∧
    (other.table, other.key) ≠ place ∧ (key, bytes) ∈ indexEntries lib shape other := by
  rw [herased key bytes, h.indexes key bytes]
  constructor
  · rintro ⟨hnot, place', other, hother, hmem⟩
    rw [h.place place' other hother] at hother
    exact ⟨other, hother, fun he => hnot ⟨other, he ▸ hother, bytes, hmem⟩, hmem⟩
  · rintro ⟨other, hother, hne, hmem⟩
    refine ⟨?_, _, other, hother, hmem⟩
    rintro ⟨old, hold, v, hv⟩
    have htold := indexEntries_tells hshape other old key bytes v (h.named hother) (h.named hold) hmem hv
    exact hne ((Prod.ext htold.1 htold.2).trans (h.place _ old hold).symm)

/-- The entries of an index under the values of a record start with this. -/
def indexStart (lib : ProjectionLibraries) (record : DbRecord) (indexName : String)
    (index : IndexSchema) : String :=
  joined record.table (joined indexName (joined (indexComponent lib (indexValuesOf record index)) ""))

theorem indexPrefix_eq (h : ValuesSerialize lib (indexValuesOf record index)) (indexName : String) :
    indexPrefix lib record.table indexName (indexValuesOf record index) =
    .ok (indexStart lib record indexName index) :=
  bind_eq_ok.mpr ⟨_, encodeIndexValues_eq h, rfl⟩

variable {other : DbRecord} {indexName' : String} {index' : IndexSchema} {values : List Json}
    {kv₁ : RecordProjectionKv}

/-- The entries under the values of a record are those of the index whose component is the same. -/
theorem starts_indexEntryKey (hrecord : Named record) (hother : Named other)
    (hname : NulFree indexName) (hname' : NulFree indexName') :
    Starts (indexStart lib record indexName index) (indexEntryKey lib other indexName' index') ↔
    record.table = other.table ∧ indexName = indexName' ∧
    indexComponent lib (indexValuesOf record index) =
    indexComponent lib (indexValuesOf other index') := by
  rw [indexStart, indexEntryKey, joined_cancel hrecord.table hother.table, joined_cancel hname hname',
    joined_cancel (nulFree_indexComponent _) (nulFree_indexComponent _)]
  simp [starts_empty]

/-- The key of an index entry ends with the key of its record. -/
theorem key_of_indexEntryKey (hrecord : Named record) (hother : Named other)
    (h : indexEntryKey lib record indexName index = indexEntryKey lib other indexName' index') :
    record.key = other.key := by
  have hjoined : ∀ (r : DbRecord) (name : String) (i : IndexSchema), indexEntryKey lib r name i =
      joined (r.table ++ ("\x00" ++ (name ++ ("\x00" ++ indexComponent lib (indexValuesOf r i))))) r.key := by
    intro r name i
    simp [indexEntryKey, joined, String.append_assoc]
  rw [hjoined, hjoined, joined_inj_last hrecord.key hother.key] at h
  exact h.2

/-- A check of a unique index passes when all records found under the values have the key. -/
theorem checkUnique_true_iff {start : String}
    (hstart : indexPrefix lib record.table indexName values = .ok start) (hdecodes : ∀ key bytes,
    Starts start key → kv.indexes[key]? = some bytes → ∃ existing,
      decodeProjectedRecord lib bytes = .ok existing) :
    checkUnique lib kv record indexName values true = .ok () ↔ ∀ key bytes, Starts start key →
    kv.indexes[key]? =
    some bytes → ∀ existing, decodeProjectedRecord lib bytes = .ok existing →
    existing.key = record.key := by
  rw [checkUnique, if_pos rfl, hstart]
  refine forM_eq_ok.trans ?_
  constructor
  · intro hall key bytes hstarts hfound existing hdecode
    obtain ⟨existing', hdecode', hone⟩ := bind_eq_ok.mp (hall (key, bytes) (mem_scan.mpr ⟨hstarts, hfound⟩))
    obtain rfl := Except.ok.inj (hdecode.symm.trans hdecode')
    by_contra hne
    rw [if_pos hne] at hone
    cases hone
  · rintro hall ⟨key, bytes⟩ hmem
    obtain ⟨hstarts, hfound⟩ := mem_scan.mp hmem
    obtain ⟨existing, hdecode⟩ := hdecodes key bytes hstarts hfound
    refine bind_eq_ok.mpr ⟨existing, hdecode, ?_⟩
    rw [if_neg fun hne => hne (hall key bytes hstarts hfound existing hdecode)]

variable (hlib : lib.Lawful) (hshape : shape.Named) (hrecord : Named record)
    (hserializes : Serializes lib record)
include hlib hshape hrecord hserializes

/-- The check of one index, when other records have their entries and the record some of its own. -/
theorem checkUnique_ok_iff (h : Agrees lib shape current kv)
    (herased : Erases (indexEntries lib shape)
    (rows current (record.table,
      record.key)) (fun key => kv.indexes[key]?) fun key => kv'.indexes[key]?)
    (hindex : (shape.indexes record.table)[indexName]? = some index)
    (hvalues : ValuesSerialize lib (indexValuesOf record index))
    (done : List (String × IndexSchema)) :
    checkUnique lib (putEntries lib record kv' done) record indexName (indexValuesOf record index) index.unique =
    .ok () ↔ ¬ ConflictsAt current record index := by
  have hname := hshape _ _ _ hindex
  have hothers := h.indexes_of_others hshape herased
  cases hunique : index.unique with
  | false => simp [checkUnique, ConflictsAt, hunique]
  | true =>
    rw [checkUnique_true_iff (indexPrefix_eq hvalues indexName) fun key bytes _ hfound => ?decodes]
    case decodes =>
      rcases (getElem?_putEntries record done key bytes).mp hfound with ⟨_, -, -, rfl⟩ | ⟨-, hfound⟩
      · exact ⟨record, decode_projectedBytes hlib hserializes⟩
      · obtain ⟨other, hother, -, hmem⟩ := (hothers key bytes).mp hfound
        rw [(mem_indexEntries.mp hmem).1]
        exact ⟨other, decode_projectedBytes hlib (h.inPlace _ other hother).serializes⟩
    constructor
    · rintro hall ⟨-, other, hne, hother, hsame⟩
      have hotherNamed := h.named hother
      have htable := (mk.inj (h.place _ other hother)).1
      have hfound : (putEntries lib record kv' done).indexes[indexEntryKey lib other indexName index]? =
          some (projectedBytes lib other) := by
        refine (getElem?_putEntries ..).mpr (.inr ⟨fun entry _ he => ?_, (hothers _ _).mpr ⟨other, htable ▸ hother,
          fun he => hne (mk.inj he).2, mem_indexEntries.mpr ⟨rfl, indexName, index, htable ▸ hindex, rfl⟩⟩⟩)
        exact hne (key_of_indexEntryKey hotherNamed hrecord he)
      refine hne (hall _ _ ?_ hfound other (decode_projectedBytes hlib (h.inPlace _ other hother).serializes))
      exact (starts_indexEntryKey hrecord hotherNamed hname hname).mpr ⟨htable, rfl, by rw [hsame]⟩
    · intro hconflicts key bytes hstarts hfound existing hdecode
      rcases (getElem?_putEntries record done key bytes).mp hfound with ⟨_, -, -, rfl⟩ | ⟨-, hfound⟩
      · rw [decode_projectedBytes hlib hserializes] at hdecode
        exact congrArg DbRecord.key (Except.ok.inj hdecode).symm
      · obtain ⟨other, hother, hne, hmem⟩ := (hothers key bytes).mp hfound
        obtain ⟨rfl, name, index', hindex', rfl⟩ := mem_indexEntries.mp hmem
        have hotherRow := h.inPlace _ other hother
        obtain rfl := Except.ok.inj ((decode_projectedBytes hlib hotherRow.serializes).symm.trans hdecode)
        obtain ⟨htable, rfl, hcomponent⟩ :=
          (starts_indexEntryKey hrecord hotherRow.toNamed hname (hshape _ _ _ hindex')).mp hstarts
        have hserialize := hotherRow.valuesSerialize _ _ hindex'
        rw [← htable, hindex] at hindex'
        obtain rfl := some.inj hindex'
        by_contra hkey
        refine hconflicts ⟨hunique, other, hkey, htable ▸ hother, ?_⟩
        exact indexComponent_inj hlib (wellFormed_indexValuesOf other index) (wellFormed_indexValuesOf record index)
          hserialize hvalues hcomponent.symm

theorem exec_putIndexEntry (h : Agrees lib shape current kv)
    (herased : Erases (indexEntries lib shape)
    (rows current (record.table,
      record.key)) (fun key => kv.indexes[key]?) fun key => kv'.indexes[key]?)
    (hindex : (shape.indexes record.table)[indexName]? = some index)
    (done : List (String × IndexSchema))
    (hvalues : ValuesSerialize lib (indexValuesOf record index))
    (hfree : ¬ ConflictsAt current record index) :
    exec (putIndexEntry lib record indexName (indexValuesOf record index) index.unique (projectedBytes lib record))
    (putEntries lib record kv' done) =
    (.ok (), putEntries lib record kv' (done ++ [(indexName, index)])) := by
  have hcheck := (checkUnique_ok_iff hlib hshape hrecord hserializes h herased hindex hvalues done).mpr hfree
  have hencode := encodeIndexValues_eq hvalues
  have hkey : indexKey lib record.table indexName (indexValuesOf record index) record.key =
      .ok (indexEntryKey lib record indexName index) := bind_eq_ok.mpr ⟨_, hencode, rfl⟩
  have hrefKey : indexRefKey lib record.table record.key indexName (indexValuesOf record index) =
      .ok (indexEntryRef lib record indexName index) := bind_eq_ok.mpr ⟨_, hencode, rfl⟩
  simp only [putIndexEntry, exec_bind, exec_get, exec_check, hcheck, hkey, hrefKey, exec_change, putEntries_append]
  rfl

omit hlib hshape hrecord hserializes in
/-- An index entry is put only if the check passes and its key can be made. -/
theorem putIndexEntry_ok {unique : Bool} {bytes : Bytes}
    (h : (exec (putIndexEntry lib record indexName values unique bytes) kv).1 = .ok ()) :
    checkUnique lib kv record indexName values unique = .ok () ∧ ValuesSerialize lib values := by
  simp only [putIndexEntry, exec_bind, exec_get, exec_check] at h
  cases hcheck : checkUnique lib kv record indexName values unique with
  | error err =>
    rw [hcheck] at h
    cases h
  | ok u =>
    refine ⟨rfl, ?_⟩
    rw [hcheck] at h
    cases hkey : indexKey lib record.table indexName values record.key with
    | error err =>
      simp only [hkey] at h
      cases h
    | ok key =>
      obtain ⟨component, hcomponent, -⟩ := bind_eq_ok.mp hkey
      exact ⟨component, hcomponent⟩

/-- The entries of the indexes come one after the other as long as the record fits each. -/
theorem exec_putIndexEntries (h : Agrees lib shape current kv)
    (herased : Erases (indexEntries lib shape) (rows current (record.table, record.key))
    (fun key => kv.indexes[key]?) fun key => kv'.indexes[key]?)
    (indexes done : List (String × IndexSchema))
    (hindexes : ∀ entry ∈ indexes, (shape.indexes record.table)[entry.1]? = some entry.2) :
    ((∀ entry ∈ indexes, Fits lib current record entry.2) →
    exec (putIndexEntries lib record (projectedBytes lib record)
    indexes) (putEntries lib record kv' done) = (.ok (),
    putEntries lib record kv' (done ++ indexes))) ∧
    ((exec (putIndexEntries lib record (projectedBytes lib record) indexes) (putEntries lib record kv' done)).1 =
    .ok () → ∀ entry ∈ indexes, Fits lib current record entry.2) := by
  induction indexes generalizing done with
  | nil => exact ⟨fun _ => by simp [putIndexEntries], nofun⟩
  | cons entry indexes ih =>
    obtain ⟨indexName, index⟩ := entry
    rw [forall_mem_cons] at hindexes
    have ih := ih (done ++ [(indexName, index)]) hindexes.2
    have hvaluesOf : ∀ {values}, recordIndexValues record index = .ok values → indexValuesOf record index = values := by
      intro values hvalues
      rw [indexValuesOf, hvalues]
      rfl
    constructor
    · intro hfits
      rw [forall_mem_cons] at hfits
      obtain ⟨values, hvalues⟩ := hfits.1.indexable
      have hput :=
        exec_putIndexEntry hlib hshape hrecord hserializes h herased hindexes.1 done hfits.1.serialize hfits.1.free
      rw [hvaluesOf hvalues] at hput
      rw [putIndexEntries, exec_bind, exec_check, hvalues]
      simp only [exec_bind, hput]
      rw [ih.1 hfits.2, append_assoc, singleton_append]
    · intro hok
      rw [putIndexEntries, exec_bind, exec_check] at hok
      cases hvalues : recordIndexValues record index with
      | error err =>
        rw [hvalues] at hok
        cases hok
      | ok values =>
        rw [hvalues] at hok
        simp only [exec_bind] at hok
        have hone : (exec (putIndexEntry lib record indexName values index.unique (projectedBytes lib record))
            (putEntries lib record kv' done)).1 = .ok () := by
          generalize exec (putIndexEntry lib record indexName values index.unique (projectedBytes lib record))
            (putEntries lib record kv' done) = r at hok ⊢
          obtain ⟨_ | _, _⟩ := r
          · cases hok
          · rfl
        obtain ⟨hcheck, hserialize⟩ := putIndexEntry_ok hone
        rw [← hvaluesOf hvalues] at hcheck hserialize hok
        have hfree := (checkUnique_ok_iff hlib hshape hrecord hserializes h herased hindexes.1 hserialize done).mp hcheck
        rw [exec_putIndexEntry hlib hshape hrecord hserializes h herased hindexes.1 done hserialize hfree] at hok
        exact forall_mem_cons.mpr ⟨⟨⟨values, hvalues⟩, hserialize, hfree⟩, ih.2 hok⟩

omit hrecord hserializes in
/-- The entries of the record as it was go, and nothing else changes. -/
theorem exec_removeOldEntries (h : Agrees lib shape current kv) (htable : NulFree table)
    (hkey : NulFree key) :
    ∃ kv', exec (removeOldEntries lib (rows current (table, key)).isSome table key) kv =
    (.ok (), kv') ∧ kv'.records =
    kv.records ∧ kv'.recent = kv.recent ∧ kv'.recentRefs = kv.recentRefs ∧
    kv'.partitions = kv.partitions ∧ Erases
    (orderEntries lib shape) (rows current (table,
    key)) (fun k => kv.orders[k]?) (fun k => kv'.orders[k]?) ∧ Erases
    (orderRefEntries lib shape) (rows current (table,
    key)) (fun k => kv.orderRefs[k]?) (fun k => kv'.orderRefs[k]?) ∧
    Erases (indexEntries lib shape) (rows current (table,
    key)) (fun k => kv.indexes[k]?) (fun k => kv'.indexes[k]?) ∧
    Erases (indexRefEntries lib shape) (rows current (table,
    key)) (fun k => kv.indexRefs[k]?) fun k =>
    kv'.indexRefs[k]? := by
  cases hrow : rows current (table, key) with
  | none =>
    have hnone : ∀ {ν : Type} (entries : DbRecord → List (String × ν)) (find : String → Option ν),
        Erases entries none find find := by
      intro ν entries find k value
      simp [OfRow]
    exact ⟨kv, rfl, rfl, rfl, rfl, rfl, hnone _ _, hnone _ _, hnone _ _, hnone _ _⟩
  | some record =>
    obtain ⟨removals, hremovals, hmem⟩ := h.indexRemovals_ok hlib hshape htable hkey
    have hremovals' : indexRemovals lib (removeOrders kv (orderRemovals kv table key)) table key = .ok removals :=
      hremovals
    have herased := erases_removeIndexes kv hmem
    have horders := h.erases_orders htable hkey
    have horderRefs := h.erases_orderRefs htable hkey
    rw [hrow] at herased horders horderRefs
    refine ⟨removeIndexes (removeOrders kv (orderRemovals kv table key)) removals.reduceOption, ?_, rfl, rfl, rfl, rfl,
      horders, horderRefs, herased.1, herased.2⟩
    simp only [removeOldEntries, isSome_some, if_true, removeOrderEntries, removeIndexEntries, exec_bind, exec_change,
      exec_get, exec_check, hremovals']

/-- The keyspaces hold the record in place of the one before, but for its index entries. -/
structure AllButIndexes (lib : ProjectionLibraries) (shape : ProjectionShape)
    (old : Option DbRecord) (record : DbRecord) (kv kv' : RecordProjectionKv) : Prop where
  records : Replaces (recordEntries lib) old (some record) (fun k => kv.records[k]?) fun k => kv'.records[k]?
  recent : Replaces (recentEntries lib) old (some record) (fun k => kv.recent[k]?) fun k => kv'.recent[k]?
  recentRefs : Replaces recentRefEntries old (some record) (fun k => kv.recentRefs[k]?) fun k => kv'.recentRefs[k]?
  partitions : Replaces (partitionEntries lib) old (some record)
    (fun k => kv.partitions[k]?) fun k => kv'.partitions[k]?
  orders : Replaces (orderEntries lib shape) old (some record) (fun k => kv.orders[k]?) fun k => kv'.orders[k]?
  orderRefs : Replaces (orderRefEntries lib shape) old (some record) (fun k => kv.orderRefs[k]?)
    fun k => kv'.orderRefs[k]?
  indexes : Erases (indexEntries lib shape) old (fun k => kv.indexes[k]?) fun k => kv'.indexes[k]?
  indexRefs : Erases (indexRefEntries lib shape) old (fun k => kv.indexRefs[k]?) fun k => kv'.indexRefs[k]?

omit hlib hshape hrecord hserializes in
theorem getElem?_insert_iff {ν : Type} (store : BTreeMap String ν) (key : String) (value : ν)
    (k : String) :
    (store.insert key value)[k]? = if key = k then some value else store[k]? := by
  rw [Std.ExtTreeMap.getElem?_insert]
  by_cases hk : key = k
  · rw [if_pos hk, if_pos (compare_eq_iff_eq.mpr hk)]
  · rw [if_neg hk, if_neg fun h => hk (compare_eq_iff_eq.mp h)]

omit hlib hshape hserializes in
/-- A record's bytes are put in place of those of the record before. -/
theorem exec_putRecordBytes (h : Agrees lib shape current kv) (hrecords : kv₁.records = kv.records)
    (hrecent : kv₁.recent = kv.recent) (hrefs : kv₁.recentRefs = kv.recentRefs)
    (hpartitions : kv₁.partitions = kv.partitions) :
    ∃ kv', exec (putRecordBytes record (projectedBytes lib record))
    kv₁ = (.ok (), kv') ∧ kv'.orders = kv₁.orders ∧ kv'.orderRefs = kv₁.orderRefs ∧
    kv'.indexes = kv₁.indexes ∧
    kv'.indexRefs = kv₁.indexRefs ∧
    Replaces (recordEntries lib) (rows current (record.table, record.key))
    (some record) (fun k => kv.records[k]?) (fun k => kv'.records[k]?) ∧
    Replaces (recentEntries lib)
    (rows current (record.table,
    record.key)) (some record) (fun k => kv.recent[k]?) (fun k => kv'.recent[k]?) ∧
    Replaces recentRefEntries (rows current (record.table,
    record.key)) (some record) (fun k => kv.recentRefs[k]?)
    (fun k => kv'.recentRefs[k]?) ∧
    Replaces (partitionEntries lib) (rows current (record.table, record.key))
    (some record) (fun k => kv.partitions[k]?) fun k => kv'.partitions[k]? := by
  have hsame : ∀ old, rows current (record.table, record.key) = some old → old.table = record.table ∧
      old.key = record.key := fun old hold =>
    ⟨(mk.inj (h.place _ old hold)).1.symm, (mk.inj (h.place _ old hold)).2.symm⟩
  refine ⟨_, rfl, rfl, rfl, rfl, rfl, ?_, ?_, ?_, ?_⟩
  · have hone : recordEntries lib record = [(recordKey record.table record.key, projectedBytes lib record)] := rfl
    rw [← hrecords]
    refine (inserts_one hone (getElem?_insert_iff _ _ _)).replaces ?_
    rintro key ⟨old, hold, v, hmem⟩
    obtain ⟨htable, hkey⟩ := hsame old hold
    rw [(mk.inj (mem_singleton.mp hmem)).1, htable, hkey]
    exact ⟨record, rfl, _, mem_singleton.mpr rfl⟩
  · have herased := h.erases_recent hrecord.table hrecord.key
    have hone : recentEntries lib record = [(recentKey record, projectedBytes lib record)] := rfl
    rw [← hrefs, ← hrecent] at herased
    rw [← hrecent]
    exact herased.inserts (inserts_one hone (getElem?_insert_iff _ _ _))
  · have hone : recentRefEntries record = [(recentRefKey record.table record.key, recentKey record)] := rfl
    rw [← hrefs]
    refine (inserts_one hone (getElem?_insert_iff _ _ _)).replaces ?_
    rintro key ⟨old, hold, v, hmem⟩
    obtain ⟨htable, hkey⟩ := hsame old hold
    rw [(mk.inj (mem_singleton.mp hmem)).1, htable, hkey]
    exact ⟨record, rfl, _, mem_singleton.mpr rfl⟩
  · show Replaces _ _ _ _ fun k => (match splitNestedKey record.key with
      | some (parentKey, nestedKey) =>
        kv₁.partitions.insert (partitionKey record.table parentKey nestedKey) (projectedBytes lib record)
      | none => kv₁.partitions)[k]?
    cases hsplit : splitNestedKey record.key with
    | none =>
      have hempty : partitionEntries lib record = [] := by rw [partitionEntries, hsplit]
      rw [hpartitions]
      refine (inserts_refl hempty).replaces ?_
      rintro key ⟨old, hold, v, hmem⟩
      rw [partitionEntries, (hsame old hold).2, hsplit] at hmem
      exact absurd hmem not_mem_nil
    | some parts =>
      have hone : partitionEntries lib record =
          [(partitionKey record.table parts.1 parts.2, projectedBytes lib record)] := by rw [partitionEntries, hsplit]
      rw [hpartitions]
      refine (inserts_one hone (getElem?_insert_iff _ _ _)).replaces ?_
      rintro key ⟨old, hold, v, hmem⟩
      rw [partitionEntries, (hsame old hold).1, (hsame old hold).2, hsplit] at hmem
      rw [(mk.inj (mem_singleton.mp hmem)).1]
      exact ⟨record, rfl, _, hone ▸ mem_singleton.mpr rfl⟩

omit hlib hshape hserializes in
/-- The record takes its place in the order of its parent's records. -/
theorem exec_putOrder (h : Agrees lib shape current kv)
    (horders : Erases (orderEntries lib shape) (rows current (record.table, record.key))
    (fun k => kv.orders[k]?) fun k => kv₁.orders[k]?)
    (horderRefs : Erases (orderRefEntries lib shape)
    (rows current (record.table,
      record.key)) (fun k => kv.orderRefs[k]?) fun k => kv₁.orderRefs[k]?) :
    ∃ kv', exec (putOrder lib record (shape.order record.table) (projectedBytes lib record)) kv₁ =
    (.ok (), kv') ∧
    kv'.records = kv₁.records ∧ kv'.recent = kv₁.recent ∧ kv'.recentRefs = kv₁.recentRefs ∧
    kv'.partitions = kv₁.partitions ∧ kv'.indexes = kv₁.indexes ∧ kv'.indexRefs = kv₁.indexRefs ∧
    Replaces (orderEntries lib shape) (rows current (record.table,
    record.key)) (some record) (fun k => kv.orders[k]?)
    (fun k => kv'.orders[k]?) ∧
    Replaces (orderRefEntries lib shape) (rows current (record.table, record.key))
    (some record) (fun k => kv.orderRefs[k]?) fun k => kv'.orderRefs[k]? := by
  have hunordered : orderOf shape record = none →
      Replaces (orderEntries lib shape) (rows current (record.table, record.key)) (some record) (fun k => kv.orders[k]?)
        (fun k => kv₁.orders[k]?) ∧
      Replaces (orderRefEntries lib shape) (rows current (record.table, record.key)) (some record)
        (fun k => kv.orderRefs[k]?) fun k => kv₁.orderRefs[k]? := fun hnone =>
    ⟨horders.inserts (inserts_refl (by rw [orderEntries, hnone])),
      horderRefs.inserts (inserts_refl (by rw [orderRefEntries, hnone]))⟩
  cases horder : shape.order record.table with
  | none =>
    have hnone : orderOf shape record = none := by rw [orderOf, horder]
    exact ⟨kv₁, rfl, rfl, rfl, rfl, rfl, rfl, rfl, hunordered hnone⟩
  | some order =>
    cases hsplit : splitNestedKey record.key with
    | none =>
      have hnone : orderOf shape record = none := by rw [orderOf, horder, hsplit]
      refine ⟨kv₁, ?_, rfl, rfl, rfl, rfl, rfl, rfl, hunordered hnone⟩
      simp only [putOrder, putOrderEntry, exec_change, hsplit]
    | some parts =>
      have hordered : orderOf shape record = some (order, parts.1) := by rw [orderOf, horder, hsplit]
      have hentries : orderEntries lib shape record =
          [(orderEntryKey lib record order parts.1, projectedBytes lib record)] := by rw [orderEntries, hordered]
      have hrefEntries : orderRefEntries lib shape record =
          [(orderRefKey record.table record.key (orderId order), orderEntryKey lib record order parts.1)] :=
          by rw [orderRefEntries, hordered]
      have hnoRef : kv₁.orderRefs[orderRefKey record.table record.key (orderId order)]? = none := by
        cases hfound : kv₁.orderRefs[orderRefKey record.table record.key (orderId order)]? with
        | none => rfl
        | some value =>
          obtain ⟨hnot, hfound⟩ := (horderRefs _ _).mp hfound
          exact absurd (h.ofRow orderRefEntries_tells h.orderRefs hrecord (hrefEntries ▸ mem_singleton.mpr rfl) hfound)
            hnot
      refine ⟨{ kv₁ with
        orders := kv₁.orders.insert (orderEntryKey lib record order parts.1) (projectedBytes lib record)
        orderRefs := kv₁.orderRefs.insert (orderRefKey record.table record.key (orderId order))
          (orderEntryKey lib record order parts.1) }, ?_, rfl, rfl, rfl, rfl, rfl, rfl,
        horders.inserts (inserts_one hentries (getElem?_insert_iff _ _ _)),
        horderRefs.inserts (inserts_one hrefEntries (getElem?_insert_iff _ _ _))⟩
      simp only [putOrder, putOrderEntry, exec_change, hsplit, hnoRef]
      rfl

/-- All of an upsert before the entries of the indexes. -/
theorem exec_upsertWithIndexes (h : Agrees lib shape current kv) :
    ∃ kv', AllButIndexes lib shape (rows current (record.table, record.key)) record kv kv' ∧
    exec (upsertWithIndexes lib record (shape.indexes record.table) (shape.order record.table)) kv =
    exec (putIndexEntries lib record (projectedBytes lib record) (shape.indexes record.table).toList) kv' := by
  obtain ⟨kv₁, hold, hrecords, hrecent, hrefs, hpartitions, horders, horderRefs, hindexes, hindexRefs⟩ :=
    exec_removeOldEntries hlib hshape h hrecord.table hrecord.key
  obtain ⟨kv₂, hput, horders₂, horderRefs₂, hindexes₂, hindexRefs₂, hrecords₂, hrecent₂, hrefs₂, hpartitions₂⟩ :=
    exec_putRecordBytes hrecord h hrecords hrecent hrefs hpartitions
  rw [← horders₂] at horders
  rw [← horderRefs₂] at horderRefs
  obtain ⟨kv₃, horder, hrecords₃, hrecent₃, hrefs₃, hpartitions₃, hindexes₃, hindexRefs₃, horders₃, horderRefs₃⟩ :=
    exec_putOrder hrecord h horders horderRefs
  refine ⟨kv₃, ⟨?_, ?_, ?_, ?_, horders₃, horderRefs₃, ?_, ?_⟩, ?_⟩
  · rw [hrecords₃]
    exact hrecords₂
  · rw [hrecent₃]
    exact hrecent₂
  · rw [hrefs₃]
    exact hrefs₂
  · rw [hpartitions₃]
    exact hpartitions₂
  · rw [hindexes₃, hindexes₂]
    exact hindexes
  · rw [hindexRefs₃, hindexRefs₂]
    exact hindexRefs
  · simp only [upsertWithIndexes, applyPreparedProjectionUpsert, exec_bind, exec_check, exec_get,
      encode_projectedRecord hserializes, h.getRecord_eq hlib hrecord.table hrecord.key, hold, hput, horder]

omit hserializes in
/-- An upsert succeeds exactly when the record can be stored, has its values and is alone with them.
-/
theorem Agrees.upsert_ok_iff (h : Agrees lib shape current kv) :
    (exec (upsertWithIndexes lib record (shape.indexes record.table) (shape.order record.table)) kv).1 = .ok () ↔
    Serializes lib record ∧ Indexable shape record ∧ IndexesSerialize lib shape record ∧
    ¬ Conflicts shape current record := by
  cases hencode : encodeProjectedRecord lib record with
  | error err =>
    refine iff_of_false (fun hok => ?_) fun ⟨⟨bytes, hbytes⟩, _⟩ => by cases hencode.symm.trans hbytes
    rw [upsertWithIndexes, exec_bind, exec_check, hencode] at hok
    cases hok
  | ok bytes =>
    have hserializes : Serializes lib record := ⟨bytes, hencode⟩
    obtain ⟨kv', hprepared, hexec⟩ := exec_upsertWithIndexes hlib hshape hrecord hserializes h
    have hindexes := exec_putIndexEntries hlib hshape hrecord hserializes h hprepared.indexes (shape.indexes
      record.table).toList [] fun entry hentry => Std.ExtTreeMap.mem_toList_iff_getElem?_eq_some.mp hentry
    rw [and_iff_right hserializes, hexec, ← forall_fits_iff]
    exact ⟨hindexes.2, fun hfits => congrArg fst (hindexes.1 hfits)⟩

omit hserializes in
/-- What an upsert that succeeds leaves is what the records with the new one have. -/
theorem Agrees.upsert (h : Agrees lib shape current kv)
    (hlsn : record.lsn ≤ maxU64) (hupdated : record.updatedAtMs ≤ maxU64) (hok :
    (exec (upsertWithIndexes lib record (shape.indexes record.table) (shape.order record.table)) kv).1 = .ok ()) :
    Agrees lib shape (current.put record)
    (exec (upsertWithIndexes lib record (shape.indexes record.table) (shape.order record.table)) kv).2 := by
  obtain ⟨hserializes, hindexable, hserialize, hconflicts⟩ := (h.upsert_ok_iff hlib hshape hrecord).mp hok
  obtain ⟨kv', hprepared, hexec⟩ := exec_upsertWithIndexes hlib hshape hrecord hserializes h
  have hput := (exec_putIndexEntries hlib hshape hrecord hserializes h hprepared.indexes
    (shape.indexes record.table).toList [] fun entry hentry =>
      Std.ExtTreeMap.mem_toList_iff_getElem?_eq_some.mp hentry).1
    (forall_fits_iff.mpr ⟨hindexable, hserialize, hconflicts⟩)
  rw [nil_append] at hput
  rw [hexec, show exec _ kv' = _ from hput]
  have hnew : ∀ r : DbRecord, some record = some r → Named r ∧ r.table = record.table ∧ r.key = record.key := by
    rintro r hr
    obtain rfl := some.inj hr
    exact ⟨hrecord, rfl, rfl⟩
  have hindexes : Inserts (indexEntries lib shape) record (fun k => kv'.indexes[k]?) fun k =>
      (putEntries lib record kv' (shape.indexes record.table).toList).indexes[k]? :=
    inserts_foldl (fun key v w hv hw => (mem_indexEntries.mp hv).1.trans (mem_indexEntries.mp hw).1.symm) rfl
  have hindexRefs : Inserts (indexRefEntries lib shape) record (fun k => kv'.indexRefs[k]?) fun k =>
      (putEntries lib record kv' (shape.indexes record.table).toList).indexRefs[k]? :=
    inserts_foldl (fun _ _ _ _ _ => rfl) rfl
  have hcases : ∀ {place : String × String} {r : DbRecord}, rows (current.put record) place = some r →
      place = (record.table, record.key) ∧ r = record ∨ rows current place = some r := by
    intro place r hrow
    rw [rows_put] at hrow
    by_cases hplace : place = (record.table, record.key)
    · rw [hplace, update_self] at hrow
      exact .inl ⟨hplace, (some.inj hrow).symm⟩
    · exact .inr (by rwa [update_of_ne hplace] at hrow)
  constructor
  · intro place r hrow
    rcases hcases hrow with ⟨rfl, rfl⟩ | hrow
    · rfl
    · exact h.place place r hrow
  · intro place r hrow
    rcases hcases hrow with ⟨-, rfl⟩ | hrow
    · exact ⟨hrecord, hserializes, hindexable, hserialize, hlsn, hupdated⟩
    · exact h.inPlace place r hrow
  all_goals rw [rows_put]
  · exact h.stored_update recordEntries_tells h.records hnew hprepared.records
  · exact h.stored_update recentEntries_tells h.recent hnew hprepared.recent
  · exact h.stored_update recentRefEntries_tells h.recentRefs hnew hprepared.recentRefs
  · exact h.stored_update partitionEntries_tells h.partitions hnew hprepared.partitions
  · exact h.stored_update orderEntries_tells h.orders hnew hprepared.orders
  · exact h.stored_update orderRefEntries_tells h.orderRefs hnew hprepared.orderRefs
  · exact h.stored_update (indexEntries_tells hshape) h.indexes hnew (hprepared.indexes.inserts hindexes)
  · exact h.stored_update indexRefEntries_tells h.indexRefs hnew (hprepared.indexRefs.inserts hindexRefs)

end NextDb.Api.ProjectionKv
