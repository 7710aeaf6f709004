import NextDb.Api.ProjectionKv

/-!
# The entries of a record in the projection

What a record has in each keyspace of the projection, under which keys, and which record a key is
of.

* `decode_projectedBytes`, `parseIndexRefKey_ok`: what is written is read back.
* `recentEntries_tells`, `partitionEntries_tells`, `orderEntries_tells`, `indexEntries_tells` and
  the like: a key tells the record that it is of.
-/

namespace NextDb.Api.ProjectionKv

open Records List Option TextKeys
open Routing (splitAll splitAll_of_notMem)
open RecordMatch (jsonGet isScalar recordIndexValues)

/-! ## Values -/

theorem hexNibble_hexDigit {n : Nat} (hn : n < 16) :
    hexNibble (hexDigit n) = .ok (UInt8.ofNat n) := by
  have h : ∀ n : Fin 16, (hexNibble (hexDigit n)).toOption = some (UInt8.ofNat n) := by decide +kernel
  exact eq_ok_of_toOption (h ⟨n, hn⟩)

theorem decodeHex_hexLower (bytes : Bytes) : decodeHex (hexLower bytes).toList = .ok bytes := by
  rw [hexLower, String.toList_ofList]
  induction bytes with
  | nil => rfl
  | cons b bytes ih =>
    have hhigh : b.toNat / 16 < 16 := by have := b.toNat_lt; omega
    have hlow : b.toNat % 16 < 16 := Nat.mod_lt _ (by decide)
    have hbyte : UInt8.ofNat (b.toNat / 16) * 16 + UInt8.ofNat (b.toNat % 16) = b := by
      apply UInt8.toNat_inj.mp
      rw [UInt8.toNat_add, UInt8.toNat_mul, UInt8.toNat_ofNat', UInt8.toNat_ofNat']
      show (b.toNat / 16 % 256 * 16 % 256 + b.toNat % 16 % 256) % 256 = b.toNat
      have := b.toNat_lt
      omega
    rw [flatMap_cons, cons_append, cons_append, nil_append, decodeHex, hexNibble_hexDigit hhigh,
      hexNibble_hexDigit hlow, ih]
    exact congrArg (fun byte => Except.ok (byte :: bytes)) hbyte

theorem nulFree_hexLower (bytes : Bytes) : NulFree (hexLower bytes) := by
  have h : ∀ n : Fin 16, hexDigit n ≠ '\x00' := by decide +kernel
  rw [NulFree, hexLower, String.toList_ofList, mem_flatMap]
  rintro ⟨b, -, hb⟩
  have := b.toNat_lt
  rcases mem_cons.mp hb with hb | hb
  · exact h ⟨b.toNat / 16, by omega⟩ hb.symm
  · exact h ⟨b.toNat % 16, by omega⟩ (mem_singleton.mp hb).symm

theorem isPrefixOf_append (l r : Bytes) : l.isPrefixOf (l ++ r) = true :=
  isPrefixOf_iff_prefix.mpr ⟨r, rfl⟩

variable {lib : ProjectionLibraries}

/-- The bytes that a record is stored as. -/
def projectedBytes (lib : ProjectionLibraries) (record : DbRecord) : Bytes :=
  (encodeProjectedRecord lib record).toOption.getD []

variable {record : DbRecord} {bytes : Bytes} {values : List Json} {key parentKey : String}

theorem decode_encoded (hlib : lib.Lawful) (h : encodeProjectedRecord lib record = .ok bytes) :
    decodeProjectedRecord lib bytes = .ok record := by
  obtain ⟨value, hvalue, h⟩ := bind_eq_ok.mp h
  obtain ⟨postcard, hpostcard, h⟩ := bind_eq_ok.mp h
  obtain rfl := Except.ok.inj h
  have hback : value.intoValue = .ok record.value :=
    BinaryJsonValue.intoValue_ok (BinaryJsonValue.intoJson_fromJson record.value.wellFormed hvalue)
  rw [decodeProjectedRecord, isPrefixOf_append, if_neg (by simp), drop_left, hlib.envelope hpostcard]
  exact bind_eq_ok.mpr ⟨_, rfl, bind_eq_ok.mpr ⟨_, withContext_eq_ok.mpr hback, rfl⟩⟩

/-- The record can be stored. -/
def Serializes (lib : ProjectionLibraries) (record : DbRecord) : Prop :=
  ∃ bytes, encodeProjectedRecord lib record = .ok bytes

theorem encode_projectedRecord (h : Serializes lib record) :
    encodeProjectedRecord lib record = .ok (projectedBytes lib record) := by
  obtain ⟨bytes, hbytes⟩ := h
  rw [projectedBytes, hbytes]
  rfl

theorem decode_projectedBytes (hlib : lib.Lawful) (h : Serializes lib record) :
    decodeProjectedRecord lib (projectedBytes lib record) = .ok record :=
  decode_encoded hlib (encode_projectedRecord h)

/-- The text that index values are stored as. -/
def indexComponent (lib : ProjectionLibraries) (values : List Json) : String :=
  (encodeIndexValuesComponent lib values).toOption.getD ""

/-- The index values can be stored. -/
def ValuesSerialize (lib : ProjectionLibraries) (values : List Json) : Prop :=
  ∃ component, encodeIndexValuesComponent lib values = .ok component

theorem encodeIndexValues_eq (h : ValuesSerialize lib values) :
    encodeIndexValuesComponent lib values = .ok (indexComponent lib values) := by
  obtain ⟨component, hcomponent⟩ := h
  rw [indexComponent, hcomponent]
  rfl

theorem nulFree_indexComponent (values : List Json) : NulFree (indexComponent lib values) := by
  unfold indexComponent
  cases hencode : encodeIndexValuesComponent lib values with
  | error err => exact not_mem_nil
  | ok component =>
    obtain ⟨binaries, -, h⟩ := bind_eq_ok.mp hencode
    obtain ⟨payload, -, h⟩ := bind_eq_ok.mp h
    rw [← Except.ok.inj h]
    exact nulFree_hexLower _

theorem decode_indexComponent (hlib : lib.Lawful) (hvalues : ∀ v ∈ values, v.WellFormed)
    (h : ValuesSerialize lib values) :
    decodeIndexValuesComponent lib (indexComponent lib values) = .ok values := by
  have hencode := encodeIndexValues_eq h
  obtain ⟨binaries, hbinaries, hrest⟩ := bind_eq_ok.mp hencode
  obtain ⟨payload, hpayload, hcomponent⟩ := bind_eq_ok.mp hrest
  replace hcomponent := Except.ok.inj hcomponent
  have hback : binaries.mapM BinaryJsonValue.intoJson = .ok values := by
    have hforall := forall₂_of_mapM_ok hbinaries
    clear hbinaries hpayload hrest hcomponent hencode h
    induction hforall with
    | nil => rfl
    | cons hone _ ih =>
      rw [forall_mem_cons] at hvalues
      rw [mapM_cons, BinaryJsonValue.intoJson_fromJson hvalues.1 hone, ih hvalues.2]
      rfl
  have hfound : indexValuesPayload (indexComponent lib values) = some payload := by
    rw [indexValuesPayload, ← hcomponent, decodeHex_hexLower]
    simp only [Except.toOption, bind_some, isPrefixOf_append, if_true, drop_left]
  rw [decodeIndexValuesComponent, hfound]
  simp only [hlib.indexValues hpayload, withContext_ok]
  exact hback

theorem wellFormed_of_isScalar {value : Json} (h : isScalar value = true) : value.WellFormed := by
  cases value with
  | array | object => cases h
  | _ => trivial

variable {index : IndexSchema} {separator : Char} {cs : List Char} {nestedKey : String}

theorem recordIndexValues_scalar (h : recordIndexValues record index = .ok values) :
    ∀ v ∈ values, isScalar v = true := by
  intro v hv
  obtain ⟨field, -, hfield⟩ := mem_of_mapM_ok h hv
  cases hget : jsonGet record.value.json field with
  | none =>
    rw [hget] at hfield
    cases hfield
  | some value =>
    rw [hget] at hfield
    dsimp only at hfield
    split at hfield
    · next hscalar => exact Except.ok.inj hfield ▸ hscalar
    · cases hfield

/-! ## Splitting keys -/

theorem splitAll_append_cons (h : separator ∉ cs) (rest : List Char) :
    splitAll separator (cs ++ separator :: rest) = cs :: splitAll separator rest := by
  induction cs with
  | nil => rw [nil_append, splitAll, if_pos rfl]
  | cons c cs ih =>
    rw [mem_cons, not_or] at h
    rw [cons_append, splitAll, if_neg fun he => h.1 he.symm, ih h.2]

theorem splitAll_joined {part : String} (h : NulFree part) (rest : String) :
    splitAll '\x00' (joined part rest).toList = part.toList :: splitAll '\x00' rest.toList := by
  rw [toList_joined, splitAll_append_cons h]

theorem parseIndexRefKey_ok (hlib : lib.Lawful) {table indexName : String} (htable : NulFree table)
    (hkey : NulFree key)
    (hname : NulFree indexName) (hvalues : ∀ v ∈ values, v.WellFormed)
    (hserialize : ValuesSerialize lib values) :
    parseIndexRefKey lib (joined table (joined key (joined indexName (indexComponent lib values)))) =
    .ok (some ⟨indexName, values⟩) := by
  rw [parseIndexRefKey, splitAll_joined htable, splitAll_joined hkey, splitAll_joined hname,
    splitAll_of_notMem (nulFree_indexComponent values)]
  simp only [String.ofList_toList, decode_indexComponent hlib hvalues hserialize]
  rfl

/-- A nested key is its parent's, a colon and the rest. -/
theorem splitNestedKey_eq (h : splitNestedKey key = some (parentKey, nestedKey)) :
    key.toList = parentKey.toList ++ ':' :: nestedKey.toList ∧ ':' ∉ parentKey.toList ∧
    nestedKey ≠ "" := by
  obtain ⟨hsplit, hparts⟩ := filter_eq_some_iff.mp h
  unfold splitOnce at hsplit
  split at hsplit
  · next hmem =>
    have hparent := congrArg Prod.fst (some.inj hsplit)
    have hnested := congrArg Prod.snd (some.inj hsplit)
    have hparent : parentKey.toList = key.toList.takeWhile (· ≠ ':') := by
      rw [show parentKey = _ from hparent.symm, String.toList_ofList]
    have hnested : nestedKey.toList = (key.toList.dropWhile (· ≠ ':')).tail := by
      rw [show nestedKey = _ from hnested.symm, String.toList_ofList]
    have hdrop : key.toList.dropWhile (· ≠ ':') ≠ [] := by
      rw [ne_eq, dropWhile_eq_nil_iff]
      intro hall
      exact absurd (hall ':' hmem) (by decide)
    refine ⟨?_, ?_, by simpa using (by simpa using hparts : parentKey ≠ "" ∧ nestedKey ≠ "").2⟩
    · have hhead : (key.toList.dropWhile (· ≠ ':')).head hdrop = ':' := by
        have := head_dropWhile_not (fun c : Char => decide (c ≠ ':')) hdrop
        simpa using this
      rw [hparent, hnested]
      conv_lhs => rw [← takeWhile_append_dropWhile (p := fun c : Char => decide (c ≠ ':')) (l := key.toList)]
      conv_lhs => rw [← cons_head_tail hdrop, hhead]
    · rw [hparent]
      intro hc
      exact absurd (mem_takeWhile_imp hc) (by decide)
  · cases hsplit

theorem splitNestedKey_nulFree (h : splitNestedKey key = some (parentKey, nestedKey))
    (hkey : NulFree key) :
    NulFree parentKey ∧ NulFree nestedKey := by
  obtain ⟨heq, -⟩ := splitNestedKey_eq h
  rw [NulFree, heq, mem_append, mem_cons, not_or, not_or] at hkey
  exact ⟨hkey.1, hkey.2.2⟩

/-! ## Entries -/

/-- The indexes and the order of each table. -/
structure ProjectionShape where
  indexes : String → BTreeMap String IndexSchema
  order : String → Option (List RecordOrderTerm)

/-- No index has a NUL character in its name. -/
def ProjectionShape.Named (shape : ProjectionShape) : Prop :=
  ∀ (table name : String) (index : IndexSchema), (shape.indexes table)[name]? = some index → NulFree name

/-- Neither the table nor the key has the separator of entries. -/
structure Named (record : DbRecord) : Prop where
  table : NulFree record.table
  key : NulFree record.key

/-- The values of a record in an index. -/
def indexValuesOf (record : DbRecord) (index : IndexSchema) : List Json :=
  (recordIndexValues record index).toOption.getD []

def orderEntryKey (lib : ProjectionLibraries) (record : DbRecord) (order : List RecordOrderTerm)
    (parentKey : String) :
    String :=
  orderKey record.table parentKey (orderId order) (orderRecordCursor lib record order) record.key

def indexEntryKey (lib : ProjectionLibraries) (record : DbRecord) (indexName : String)
    (index : IndexSchema) : String :=
  joined record.table (joined indexName (joined (indexComponent lib (indexValuesOf record index)) record.key))

def indexEntryRef (lib : ProjectionLibraries) (record : DbRecord) (indexName : String)
    (index : IndexSchema) : String :=
  joined record.table (joined record.key (joined indexName (indexComponent lib (indexValuesOf record index))))

variable (lib) (shape : ProjectionShape)

def recordEntries (record : DbRecord) : List (String × Bytes) :=
  [(recordKey record.table record.key, projectedBytes lib record)]

def recentEntries (record : DbRecord) : List (String × Bytes) :=
  [(recentKey record, projectedBytes lib record)]

def recentRefEntries (record : DbRecord) : List (String × String) :=
  [(recentRefKey record.table record.key, recentKey record)]

def partitionEntries (record : DbRecord) : List (String × Bytes) :=
  match splitNestedKey record.key with
  | some (parentKey, nestedKey) => [(partitionKey record.table parentKey nestedKey, projectedBytes lib record)]
  | none => []

/-- The order of the record's table, and its parent, if it has both. -/
def orderOf (record : DbRecord) : Option (List RecordOrderTerm × String) :=
  match shape.order record.table, splitNestedKey record.key with
  | some order, some (parentKey, _) => some (order, parentKey)
  | _, _ => none

def orderEntries (record : DbRecord) : List (String × Bytes) :=
  match orderOf shape record with
  | some (order, parentKey) => [(orderEntryKey lib record order parentKey, projectedBytes lib record)]
  | none => []

def orderRefEntries (record : DbRecord) : List (String × String) :=
  match orderOf shape record with
  | some (order, parentKey) =>
    [(orderRefKey record.table record.key (orderId order), orderEntryKey lib record order parentKey)]
  | none => []

def indexEntries (record : DbRecord) : List (String × Bytes) :=
  (shape.indexes record.table).toList.map fun (indexName, index) =>
    (indexEntryKey lib record indexName index, projectedBytes lib record)

def indexRefEntries (record : DbRecord) : List (String × Unit) :=
  (shape.indexes record.table).toList.map fun (indexName, index) => (indexEntryRef lib record indexName index, ())

variable {lib shape}

theorem wellFormed_indexValuesOf (record : DbRecord) (index : IndexSchema) :
    ∀ v ∈ indexValuesOf record index, v.WellFormed := by
  unfold indexValuesOf
  cases hvalues : recordIndexValues record index with
  | error err => exact nofun
  | ok values => exact fun v hv => wellFormed_of_isScalar (recordIndexValues_scalar hvalues v hv)

/-- Values are stored as one text only if they are the same. -/
theorem indexComponent_inj (hlib : lib.Lawful) {values' : List Json}
    (hvalues : ∀ v ∈ values, v.WellFormed)
    (hvalues' : ∀ v ∈ values', v.WellFormed) (hserialize : ValuesSerialize lib values)
    (hserialize' : ValuesSerialize lib values')
    (h : indexComponent lib values = indexComponent lib values') :
    values = values' := by
  have hdecode := decode_indexComponent hlib hvalues hserialize
  rw [h, decode_indexComponent hlib hvalues' hserialize'] at hdecode
  exact (Except.ok.inj hdecode).symm

theorem orderOf_eq {order : List RecordOrderTerm}
    (h : orderOf shape record = some (order, parentKey)) :
    shape.order record.table = some order ∧ ∃ nestedKey, splitNestedKey record.key =
    some (parentKey, nestedKey) := by
  unfold orderOf at h
  cases horder : shape.order record.table with
  | none =>
    rw [horder] at h
    cases h
  | some terms =>
    cases hsplit : splitNestedKey record.key with
    | none =>
      rw [horder, hsplit] at h
      cases h
    | some parts =>
      rw [horder, hsplit] at h
      cases h
      exact ⟨rfl, parts.2, rfl⟩

theorem mem_orderEntries : (key, bytes) ∈ orderEntries lib shape record ↔ ∃ order parentKey,
    orderOf shape record = some (order, parentKey) ∧
    key = orderEntryKey lib record order parentKey ∧
    bytes = projectedBytes lib record := by
  unfold orderEntries
  cases orderOf shape record <;> simp [Prod.ext_iff]

theorem mem_orderRefEntries {entry : String} : (key, entry) ∈ orderRefEntries lib shape record ↔
    ∃ order parentKey, orderOf shape record = some (order, parentKey) ∧
    key = orderRefKey record.table record.key (orderId order) ∧
    entry = orderEntryKey lib record order parentKey := by
  unfold orderRefEntries
  cases orderOf shape record <;> simp [Prod.ext_iff]

theorem mem_indexEntries : (key, bytes) ∈ indexEntries lib shape record ↔
    bytes = projectedBytes lib record ∧
    ∃ indexName index, (shape.indexes record.table)[indexName]? = some index ∧
    key = indexEntryKey lib record indexName index := by
  simp only [indexEntries, List.mem_map, Prod.exists, Std.ExtTreeMap.mem_toList_iff_getElem?_eq_some, Prod.mk.injEq]
  constructor
  · rintro ⟨indexName, index, hindex, rfl, rfl⟩
    exact ⟨rfl, indexName, index, hindex, rfl⟩
  · rintro ⟨rfl, indexName, index, hindex, rfl⟩
    exact ⟨indexName, index, hindex, rfl, rfl⟩

theorem mem_indexRefEntries {u : Unit} : (key, u) ∈ indexRefEntries lib shape record ↔
    ∃ indexName index,
    (shape.indexes record.table)[indexName]? = some index ∧
    key = indexEntryRef lib record indexName index := by
  simp only [indexRefEntries, List.mem_map, Prod.exists, Std.ExtTreeMap.mem_toList_iff_getElem?_eq_some, Prod.mk.injEq]
  constructor
  · rintro ⟨indexName, index, hindex, rfl, -⟩
    exact ⟨indexName, index, hindex, rfl⟩
  · rintro ⟨indexName, index, hindex, rfl⟩
    exact ⟨indexName, index, hindex, rfl, trivial⟩

/-! ## Keys tell their records -/

/-- A key of an entry tells the table and the key of the record. -/
def Tells {ν : Type} (entries : DbRecord → List (String × ν)) : Prop :=
  ∀ r s key v w, Named r → Named s → (key, v) ∈ entries r → (key, w) ∈ entries s → r.table = s.table ∧ r.key = s.key

theorem recordEntries_tells : Tells (recordEntries lib) := by
  intro r s key v w hr hs hkey hkey'
  simp only [recordEntries, mem_singleton, Prod.mk.injEq] at hkey hkey'
  exact (joined_inj hr.table hs.table).mp (hkey.1.symm.trans hkey'.1)

theorem recentRefEntries_tells : Tells recentRefEntries := by
  intro r s key v w hr hs hkey hkey'
  simp only [recentRefEntries, mem_singleton, Prod.mk.injEq] at hkey hkey'
  exact (joined_inj hr.table hs.table).mp (hkey.1.symm.trans hkey'.1)

theorem recentEntries_tells : Tells (recentEntries lib) := by
  intro r s key v w hr hs hkey hkey'
  simp only [recentEntries, mem_singleton, Prod.mk.injEq] at hkey hkey'
  have h := hkey.1.symm.trans hkey'.1
  rw [recentKey, recentKey, joined_inj hr.table hs.table, joined_inj (nulFree_padded _ _) (nulFree_padded _ _),
    joined_inj (nulFree_padded _ _) (nulFree_padded _ _)] at h
  exact ⟨h.1, h.2.2.2⟩

theorem partitionEntries_tells : Tells (partitionEntries lib) := by
  intro r s key v w hr hs hkey hkey'
  unfold partitionEntries at hkey hkey'
  cases hsplit : splitNestedKey r.key with
  | none =>
    rw [hsplit] at hkey
    exact absurd hkey not_mem_nil
  | some parts =>
    cases hsplit' : splitNestedKey s.key with
    | none =>
      rw [hsplit'] at hkey'
      exact absurd hkey' not_mem_nil
    | some parts' =>
      rw [hsplit] at hkey
      rw [hsplit'] at hkey'
      simp only [mem_singleton, Prod.mk.injEq] at hkey hkey'
      have h := hkey.1.symm.trans hkey'.1
      rw [partitionKey, partitionKey, joined_inj hr.table hs.table,
        joined_inj (splitNestedKey_nulFree hsplit hr.key).1 (splitNestedKey_nulFree hsplit' hs.key).1] at h
      refine ⟨h.1, String.toList_injective ?_⟩
      rw [(splitNestedKey_eq hsplit).1, (splitNestedKey_eq hsplit').1, h.2.1, h.2.2]

theorem nulFree_orderId (order : List RecordOrderTerm) : NulFree (orderId order) :=
  nulFree_hexLower _

theorem orderEntries_tells : Tells (orderEntries lib shape) := by
  intro r s key v w hr hs hkey hkey'
  obtain ⟨_, _, horder, hfound, -⟩ := mem_orderEntries.mp hkey
  obtain ⟨_, _, horder', hfound', -⟩ := mem_orderEntries.mp hkey'
  have h := hfound.symm.trans hfound'
  obtain ⟨-, nestedKey, hsplit⟩ := orderOf_eq horder
  obtain ⟨-, nestedKey', hsplit'⟩ := orderOf_eq horder'
  rw [orderEntryKey, orderEntryKey, orderKey, orderKey, joined_inj hr.table hs.table,
    joined_inj (splitNestedKey_nulFree hsplit hr.key).1 (splitNestedKey_nulFree hsplit' hs.key).1,
    joined_inj (nulFree_orderId _) (nulFree_orderId _), joined_inj_last hr.key hs.key] at h
  exact ⟨h.1, h.2.2.2.2⟩

theorem orderRefEntries_tells : Tells (orderRefEntries lib shape) := by
  intro r s key v w hr hs hkey hkey'
  obtain ⟨_, _, -, hfound, -⟩ := mem_orderRefEntries.mp hkey
  obtain ⟨_, _, -, hfound', -⟩ := mem_orderRefEntries.mp hkey'
  have h := hfound.symm.trans hfound'
  rw [orderRefKey, orderRefKey, joined_inj hr.table hs.table, joined_inj hr.key hs.key] at h
  exact ⟨h.1, h.2.1⟩

theorem indexEntryKey_inj {r s : DbRecord} (hr : Named r) (hs : Named s) {name name' : String}
    (hname : NulFree name) (hname' : NulFree name') {index' : IndexSchema} :
    indexEntryKey lib r name index = indexEntryKey lib s name' index' ↔
    r.table = s.table ∧ name = name' ∧
    indexComponent lib (indexValuesOf r index) = indexComponent lib (indexValuesOf s index') ∧
    r.key = s.key := by
  rw [indexEntryKey, indexEntryKey, joined_inj hr.table hs.table, joined_inj hname hname',
    joined_inj (nulFree_indexComponent _) (nulFree_indexComponent _)]

theorem indexEntries_tells (hshape : shape.Named) : Tells (indexEntries lib shape) := by
  intro r s key v w hr hs hkey hkey'
  obtain ⟨-, name, index, hindex, rfl⟩ := mem_indexEntries.mp hkey
  obtain ⟨-, name', index', hindex', heq⟩ := mem_indexEntries.mp hkey'
  have h := (indexEntryKey_inj hr hs (hshape _ _ _ hindex) (hshape _ _ _ hindex')).mp heq
  exact ⟨h.1, h.2.2.2⟩

theorem indexRefEntries_tells : Tells (indexRefEntries lib shape) := by
  intro r s key v w hr hs hkey hkey'
  obtain ⟨name, index, hindex, rfl⟩ := mem_indexRefEntries.mp hkey
  obtain ⟨name', index', hindex', heq⟩ := mem_indexRefEntries.mp hkey'
  rw [indexEntryRef, indexEntryRef, joined_inj hr.table hs.table, joined_inj hr.key hs.key] at heq
  exact ⟨heq.1, heq.2.1⟩

/-! ## Libraries for given records -/

/-- Equality of values that are null, text, or an object with one field of text. -/
def plainEq : BinaryJsonValue → BinaryJsonValue → Bool
  | .null, .null => true
  | .string a, .string b => a == b
  | .object [(field, .string a)], .object [(field', .string b)] => field == field' && a == b
  | _, _ => false

def allPlainEq : List BinaryJsonValue → List BinaryJsonValue → Bool
  | [], [] => true
  | a :: as, b :: bs => plainEq a b && allPlainEq as bs
  | _, _ => false

def envelopeEq (a b : ProjectedRecordEnvelope) : Bool :=
  a.table == b.table && a.key == b.key && plainEq a.value b.value && a.updatedAtMs == b.updatedAtMs &&
    a.lsn == b.lsn && a.path == b.path

/-- `postcard` and `serde_json` for records and index values whose bytes are given. -/
def givenLibrary (records : List (ProjectedRecordEnvelope × Bytes))
    (values : List (List BinaryJsonValue × Bytes)) :
    ProjectionLibraries where
  envelopeToVec envelope := okOr "another record" ((records.find? fun r => envelopeEq envelope r.1).map Prod.snd)
  envelopeFromBytes bytes := okOr "another record" ((records.find? fun r => r.2 == bytes).map Prod.fst)
  recordFromSlice _ := bail "no legacy record"
  indexValuesToVec found := okOr "other values" ((values.find? fun v => allPlainEq found v.1).map Prod.snd)
  indexValuesFromBytes bytes := okOr "other values" ((values.find? fun v => v.2 == bytes).map Prod.fst)
  valuesFromSlice _ := bail "no legacy values"
  floatText _ := ""
  jsonText
    | .array [.string text] => "[\"" ++ text ++ "\"]"
    | _ => ""

theorem plainEq_eq {a b : BinaryJsonValue} (h : plainEq a b = true) : a = b := by
  unfold plainEq at h
  split at h
  · rfl
  · rw [beq_iff_eq.mp h]
  · rw [Bool.and_eq_true, beq_iff_eq, beq_iff_eq] at h
    rw [h.1, h.2]
  · cases h

theorem allPlainEq_eq {as bs : List BinaryJsonValue} (h : allPlainEq as bs = true) : as = bs := by
  induction as generalizing bs with
  | nil =>
    cases bs with
    | nil => rfl
    | cons b bs => cases h
  | cons a as ih =>
    cases bs with
    | nil => cases h
    | cons b bs =>
      rw [allPlainEq, Bool.and_eq_true] at h
      rw [plainEq_eq h.1, ih h.2]

theorem envelopeEq_eq {a b : ProjectedRecordEnvelope} (h : envelopeEq a b = true) : a = b := by
  obtain ⟨table, key, value, updatedAtMs, lsn, path⟩ := a
  simp only [envelopeEq, Bool.and_eq_true, beq_iff_eq] at h
  obtain ⟨⟨⟨⟨⟨rfl, rfl⟩, hvalue⟩, rfl⟩, rfl⟩, rfl⟩ := h
  rw [plainEq_eq hvalue]

/-- What is found by its value is found by its bytes. -/
theorem find_of_bytes {α : Type} {same : α → α → Bool} (hsame : ∀ {a b}, same a b = true → a = b)
    {known : List (α × Bytes)} (honce : (known.map Prod.snd).Nodup)
    {a : α} {m : String} (h : okOr m ((known.find? fun r => same a r.1).map Prod.snd) = .ok bytes)
    (message : String) :
    okOr message ((known.find? fun r => r.2 == bytes).map Prod.fst) = .ok a := by
  obtain ⟨row, hrow, rfl⟩ := map_eq_some_iff.mp (okOr_eq_ok.mp h)
  have hmem := mem_of_find?_eq_some hrow
  have hfound : same a row.1 = true := find?_some (p := fun r : α × Bytes => same a r.1) hrow
  obtain rfl := hsame hfound
  rw [okOr_eq_ok]
  cases hback : known.find? fun r => r.2 == row.2 with
  | none => exact absurd (beq_self_eq_true row.2) (find?_eq_none.mp hback row hmem)
  | some found =>
    have hbytes : (found.2 == row.2) = true := find?_some (p := fun r : α × Bytes => r.2 == row.2) hback
    rw [inj_on_of_nodup_map honce (mem_of_find?_eq_some hback) hmem (beq_iff_eq.mp hbytes), map_some]

theorem givenLibrary_lawful {records : List (ProjectedRecordEnvelope × Bytes)}
    {values : List (List BinaryJsonValue × Bytes)} (hrecords : (records.map Prod.snd).Nodup)
    (hvalues : (values.map Prod.snd).Nodup) : (givenLibrary records values).Lawful where
  envelope := fun h => find_of_bytes envelopeEq_eq hrecords h _
  indexValues := fun h => find_of_bytes allPlainEq_eq hvalues h _

end NextDb.Api.ProjectionKv
