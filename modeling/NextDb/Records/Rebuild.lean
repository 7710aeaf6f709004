import NextDb.Schema.Report

/-!
# Building the record projection

The projection of the records is built from the indexes and orders that a schema
defines for each logical table. A nested table's logical name is that of its table
and its own, with a dot between them.

* `buildUnder_congr`: a build looks up the definitions of the tables of its records
  only.
-/

namespace NextDb.Records

open List Option Std.ExtTreeMap

inductive RecordOrderDirection where
  | asc
  | desc
deriving DecidableEq

structure RecordOrderTerm where
  field : String
  direction : RecordOrderDirection
deriving DecidableEq

def parseRecordOrderTerm (term : String) : Result RecordOrderTerm :=
  match (stripPrefix term "desc(").bind (stripSuffix · ")") with
  | some field =>
    if trim field = "" then bail "invalid schema order term" else .ok ⟨field, .desc⟩
  | none => if trim term = "" then bail "invalid schema order term" else .ok ⟨term, .asc⟩

def parseRecordOrderTerms (order : List String) : Result (List RecordOrderTerm) :=
  order.mapM parseRecordOrderTerm

def nestedRecordTable (table nested : String) : String := s!"{table}.{nested}"

/-- A table or a nested table of a schema. -/
inductive TablePath where
  | table (name : String)
  | nested (parent name : String)
deriving DecidableEq

/-- The table that the records of a table name. -/
def TablePath.logicalName : TablePath → String
  | .table name => name
  | .nested parent name => nestedRecordTable parent name

/-- The definitions of a table that its projection depends on. -/
structure TableShape where
  storage : StorageClass
  indexes : BTreeMap String IndexSchema

def tableShape (schema : DatabaseSchema) : TablePath → Option TableShape
  | .table name => schema.tables[name]?.map fun table => ⟨table.storage, table.indexes⟩
  | .nested parent name => (schema.nestedTable parent name).map fun nested =>
    ⟨nested.storage, nested.indexes⟩

/-- The order of a nested table whose storage defines one. -/
def tableOrder (path : TablePath) (shape : TableShape) : Option (List String) :=
  match path, shape.storage with
  | .nested _ _, .chatLog _ order _ => some order
  | _, _ => none

/-- Every table, each before its nested tables. -/
def tableShapes (schema : DatabaseSchema) : List (TablePath × TableShape) :=
  schema.tables.toList.flatMap fun (tableName, table) =>
    (.table tableName, ⟨table.storage, table.indexes⟩) :: table.nested.toList.map fun (nestedName, nested) =>
        (.nested tableName nestedName, ⟨nested.storage, nested.indexes⟩)

/-- No two tables have one logical name. -/
def LogicalNamesDistinct (schema : DatabaseSchema) : Prop :=
  ((tableShapes schema).map fun entry => entry.1.logicalName).Nodup

def schemaIndexesByTable (schema : DatabaseSchema) :
    BTreeMap String (BTreeMap String IndexSchema) :=
  schema.tables.toList.foldl (fun out (tableName, table) =>
    table.nested.toList.foldl (fun out (nestedName, nested) =>
      out.insert (nestedRecordTable tableName nestedName) nested.indexes)
      (out.insert tableName table.indexes)) ∅

def schemaOrdersByTable (schema : DatabaseSchema) :
    Result (BTreeMap String (List RecordOrderTerm)) :=
  schema.tables.toList.foldlM (fun out (tableName, table) =>
    table.nested.toList.foldlM (fun out (nestedName, nested) =>
      match nested.storage with
      | .chatLog _ order _ => do
        .ok (out.insert (nestedRecordTable tableName nestedName) (← parseRecordOrderTerms order))
      | _ => .ok out) out) ∅

/-- The key-value store that holds a projection. -/
structure ProjectionStore (P : Type) where
  empty : P
  upsertWithIndexesAndOrder : P → DbRecord → BTreeMap String IndexSchema → Option (List RecordOrderTerm) → Result P

/-- `build_projection_root`. -/
def buildProjection {P : Type} (store : ProjectionStore P) (records : List DbRecord)
    (indexesByTable : BTreeMap String (BTreeMap String IndexSchema))
    (ordersByTable : BTreeMap String (List RecordOrderTerm)) : Result P :=
  records.foldlM (fun projection record =>
    store.upsertWithIndexesAndOrder projection record (indexesByTable.getD record.table ∅)
      ordersByTable[record.table]?) store.empty

/-- The projection of the records under a schema. -/
def buildUnder {P : Type} (store : ProjectionStore P) (records : List DbRecord)
    (schema : DatabaseSchema) : Result P := do
  buildProjection store records (schemaIndexesByTable schema) (← schemaOrdersByTable schema)

/-! ## Looking up a table's definitions -/

variable {schema : DatabaseSchema}

theorem mem_tableShapes {path : TablePath} {shape : TableShape} :
    (path, shape) ∈ tableShapes schema ↔ tableShape schema path = some shape := by
  simp only [tableShapes, List.mem_flatMap, List.mem_cons, List.mem_map, Prod.exists, mem_toList_iff_getElem?_eq_some,
    Prod.mk.injEq]
  cases path with
  | table name =>
    simp only [tableShape, map_eq_some_iff, TablePath.table.injEq, reduceCtorEq, false_and, and_false, exists_false,
      or_false]
    constructor
    · rintro ⟨_, table, htable, rfl, rfl⟩
      exact ⟨table, htable, rfl⟩
    · rintro ⟨table, htable, rfl⟩
      exact ⟨name, table, htable, rfl, rfl⟩
  | nested table nested =>
    simp only [tableShape, DatabaseSchema.nestedTable, map_eq_some_iff, bind_eq_some_iff, TablePath.nested.injEq,
      reduceCtorEq, false_and, false_or]
    constructor
    · rintro ⟨_, entry, hentry, _, def', hdef, ⟨rfl, rfl⟩, rfl⟩
      exact ⟨def', ⟨entry, hentry, hdef⟩, rfl⟩
    · rintro ⟨def', ⟨entry, hentry, hdef⟩, rfl⟩
      exact ⟨table, entry, hentry, nested, def', hdef, ⟨rfl, rfl⟩, rfl⟩

/-- Inserts what there is for each entry. -/
def insertAll {α β : Type} (key : α → String) (value : α → Option β) (as : List α)
    (out : BTreeMap String β) : BTreeMap String β :=
  as.foldl (fun out a => match value a with
    | some b => out.insert (key a) b
    | none => out) out

theorem insertAll_of_not_mem {α β : Type} (key : α → String) (value : α → Option β) {as : List α}
    {k : String}
    (hk : k ∉ as.map key) (out : BTreeMap String β) :
    (insertAll key value as out)[k]? = out[k]? := by
  induction as generalizing out with
  | nil => rfl
  | cons a as ih =>
    rw [map_cons, mem_cons, not_or] at hk
    have hrest := ih hk.2
    unfold insertAll at hrest ⊢
    rw [foldl_cons, hrest]
    cases value a with
    | none => rfl
    | some b => exact getElem?_insert.trans (if_neg fun he => hk.1 (compare_eq_iff_eq.mp he).symm)

/-- At distinct keys nothing is overwritten. -/
theorem insertAll_of_mem {α β : Type} (key : α → String) (value : α → Option β) {as : List α}
    (hn : (as.map key).Nodup) {a : α} (ha : a ∈ as) {out : BTreeMap String β}
    (hout : out[key a]? = none) :
    (insertAll key value as out)[key a]? = value a := by
  induction as generalizing out with
  | nil => cases ha
  | cons b as ih =>
    rw [map_cons, nodup_cons] at hn
    have hcons : insertAll key value (b :: as) out = insertAll key value as (match value b with
      | some c => out.insert (key b) c
      | none => out) := rfl
    rw [hcons]
    rcases mem_cons.mp ha with rfl | ha
    · rw [insertAll_of_not_mem key value hn.1]
      cases value a with
      | none => exact hout
      | some c => exact getElem?_insert_self
    · refine ih hn.2 ha ?_
      cases value b with
      | none => exact hout
      | some c =>
        have hne : key b ≠ key a := fun he => hn.1 (he ▸ mem_map_of_mem ha)
        rw [Std.ExtTreeMap.getElem?_insert, if_neg fun he => hne (compare_eq_iff_eq.mp he)]
        exact hout

theorem schemaIndexesByTable_eq (schema : DatabaseSchema) : schemaIndexesByTable schema =
    insertAll (fun entry => entry.1.logicalName) (fun entry => some entry.2.indexes) (tableShapes schema) ∅ := by
  unfold schemaIndexesByTable tableShapes insertAll
  rw [foldl_flatMap]
  refine foldl_ext _ _ _ fun out entry _ => ?_
  obtain ⟨tableName, table⟩ := entry
  rw [foldl_cons, foldl_map]
  exact foldl_ext _ _ _ fun out nested _ => rfl

/-- The terms of a table's order, where they parse. -/
def orderTerms (path : TablePath) (shape : TableShape) : Option (List RecordOrderTerm) :=
  (tableOrder path shape).bind fun order => (parseRecordOrderTerms order).toOption

/-- Every order of the schema parses. -/
def OrdersParse (schema : DatabaseSchema) : Prop :=
  ∀ path shape order, tableShape schema path = some shape → tableOrder path shape = some order →
    ∃ terms, parseRecordOrderTerms order = .ok terms

theorem schemaOrdersByTable_eq (h : OrdersParse schema) :
    schemaOrdersByTable schema = .ok (insertAll
    (fun entry => entry.1.logicalName) (fun entry => orderTerms entry.1 entry.2) (tableShapes schema) ∅) := by
  unfold schemaOrdersByTable tableShapes insertAll
  rw [foldl_flatMap]
  refine foldlM_eq_ok (fun entry hentry out => ?_) ∅
  obtain ⟨tableName, table⟩ := entry
  have htable := mem_toList_iff_getElem?_eq_some.mp hentry
  rw [foldl_cons, foldl_map]
  refine foldlM_eq_ok (fun entry hentry out => ?_) out
  obtain ⟨nestedName, nested⟩ := entry
  have hnested := mem_toList_iff_getElem?_eq_some.mp hentry
  have hshape : tableShape schema (.nested tableName nestedName) = some ⟨nested.storage, nested.indexes⟩ := by
    rw [tableShape, DatabaseSchema.nestedTable, htable]
    exact congrArg (Option.map _) hnested
  have hparse := fun order => h _ _ order hshape
  simp only [tableOrder] at hparse
  simp only [orderTerms, tableOrder]
  cases hstorage : nested.storage with
  | chatLog bucket order liveWindow =>
    obtain ⟨terms, hterms⟩ := hparse order (by rw [hstorage])
    simp only [hterms, bind_some, Except.toOption]
    rfl
  | _ => rfl

theorem parseRecordOrderTerm_ok {term field : String}
    (h : parseChatLogOrderField term = .ok field) :
    ∃ parsed, parseRecordOrderTerm term = .ok parsed := by
  have hfield : ∀ {f : String}, parseStorageFieldName f = .ok field → trim f ≠ "" := by
    intro f hf he
    rw [parseStorageFieldName, if_pos he] at hf
    cases hf
  unfold parseChatLogOrderField at h
  unfold parseRecordOrderTerm
  cases hstrip : (stripPrefix term "desc(").bind fun rest => stripSuffix rest ")" with
  | some field' =>
    rw [hstrip] at h
    exact ⟨⟨field', .desc⟩, if_neg (hfield h)⟩
  | none =>
    rw [hstrip] at h
    exact ⟨⟨term, .asc⟩, if_neg (hfield h)⟩

theorem ordersParse_of_valid (h : schema.validationReport.ok = true) : OrdersParse schema := by
  intro path shape order hshape horder
  have herrors := validationReport_ok.mp h
  rw [validationErrors, append_eq_nil_iff] at herrors
  have htables := herrors.2
  cases path with
  | table name => cases horder
  | nested parent name =>
    rw [tableShape, DatabaseSchema.nestedTable] at hshape
    obtain ⟨nested, hnested, rfl⟩ := map_eq_some_iff.mp hshape
    obtain ⟨table, htable, hnested⟩ := bind_eq_some_iff.mp hnested
    have htable' := flatMap_eq_nil_iff.mp htables (parent, table) (mem_toList_iff_getElem?_eq_some.mpr htable)
    have hnested' := flatMap_eq_nil_iff.mp (append_eq_nil_iff.mp htable').2 (name,
      nested) (mem_toList_iff_getElem?_eq_some.mpr hnested)
    simp only [validateTable, append_eq_nil_iff] at hnested'
    have hstorage := hnested'.1.1.2
    simp only [tableOrder] at horder
    split at horder
    · next bucket order' liveWindow _ hs =>
      cases horder
      rw [show nested.storage = .chatLog bucket order liveWindow from hs, validateStorageClass] at hstorage
      have hterms := (append_eq_nil_iff.mp hstorage).2
      refine mapM_ok_of_forall fun term hterm => ?_
      obtain ⟨index, hindex⟩ := getElem?_of_mem hterm
      have hone := flatMap_eq_nil_iff.mp hterms (term, index) (mk_mem_zipIdx_iff_getElem?.mpr hindex)
      dsimp only at hone
      split at hone
      · next hf => exact parseRecordOrderTerm_ok hf
      · cases hone
    · cases horder

/-- A build looks up the definitions of the tables of its records only. -/
theorem buildUnder_congr {P : Type} (store : ProjectionStore P)
    {records : List DbRecord} {current candidate : DatabaseSchema}
    (hcurrent : LogicalNamesDistinct current) (hcandidate : LogicalNamesDistinct candidate)
    (hparse : OrdersParse current) (hparse' : OrdersParse candidate)
    (h : ∀ record ∈ records, ∃ path shape,
    record.table = path.logicalName ∧ tableShape current path = some shape ∧
      tableShape candidate path = some shape) :
    buildUnder store records current = buildUnder store records candidate := by
  have hlookup : ∀ {schema : DatabaseSchema} {path : TablePath} {shape : TableShape}, LogicalNamesDistinct schema →
      tableShape schema path = some shape → (schemaIndexesByTable schema).getD path.logicalName ∅ = shape.indexes ∧
      (insertAll (fun entry : TablePath × TableShape => entry.1.logicalName)
        (fun entry => orderTerms entry.1 entry.2) (tableShapes schema) ∅)[path.logicalName]? =
        orderTerms path shape := by
    intro schema path shape hn hs
    have hmem := mem_tableShapes.mpr hs
    have hindexes := insertAll_of_mem (fun entry : TablePath × TableShape => entry.1.logicalName)
      (fun entry => some entry.2.indexes) hn hmem getElem?_empty
    have horders := insertAll_of_mem (fun entry : TablePath × TableShape => entry.1.logicalName)
      (fun entry => orderTerms entry.1 entry.2) hn hmem getElem?_empty
    rw [schemaIndexesByTable_eq, getD_eq_getD_getElem?, hindexes]
    exact ⟨rfl, horders⟩
  unfold buildUnder
  rw [schemaOrdersByTable_eq hparse, schemaOrdersByTable_eq hparse']
  show buildProjection _ _ _ _ = buildProjection _ _ _ _
  unfold buildProjection
  generalize store.empty = projection
  induction records generalizing projection with
  | nil => rfl
  | cons record records ih =>
    obtain ⟨path, shape, htable, hs, hs'⟩ := h record mem_cons_self
    have ih := ih fun r hr => h r (mem_cons_of_mem _ hr)
    obtain ⟨hi, ho⟩ := hlookup hcurrent hs
    obtain ⟨hi', ho'⟩ := hlookup hcandidate hs'
    rw [foldlM_cons, foldlM_cons, htable, hi, ho, hi', ho']
    exact bind_congr fun projection => ih projection

end NextDb.Records
