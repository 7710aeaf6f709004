import NextDb.Api.ProjectionAgrees

/-!
# What the lists of the projection return

A list of the projection scans one keyspace. Where the keyspaces hold what the current records have,
it returns what filtering and sorting the current records returns; a key prefix that ends in a colon
is read as the name of a parent, though, and a parent's name ends at the first colon of a key.

* `Agrees.list_eq`, `Agrees.listRecent_eq`, `Agrees.query_eq`: each list, as a filter of the current
  records.
* `Agrees.listByKeyPrefix_iff`: when a list by a key prefix is.
* `projection_consistent`: after any upserts and deletes.
-/

namespace NextDb.Api.ProjectionKv

open Records List Option TextKeys Entries Fallible CurrentRecords
open Messages (normalizeLimit)
open Chat (strBytes)
open RecordMatch (recordIndexValues)
open ObjectRefIndex (ensureSafeRecordComponent)

/-- The records of a table in the order of their keys. -/
def tableRecords (current : CurrentRecords) (table : String) : List DbRecord :=
  (current table).toList.map Prod.snd

/-- The first records of which a test holds. -/
def page (keeps : DbRecord → Bool) (limit : Option Nat) (records : List DbRecord) : List DbRecord :=
  (records.filter keeps).take (normalizeLimit limit)

/-- The key starts with the prefix, and is behind the one after which the list goes on. -/
def listed (keyPrefix : String) (afterKey : Option String) (record : DbRecord) : Bool :=
  decide (Starts keyPrefix record.key) && !notAfter afterKey record.key

/-- The list after a key of a partition may name it without the prefix. -/
def logicalAfterKey (keyPrefix : String) (afterKey : Option String) : Option String :=
  match partitionParentFromPrefix keyPrefix with
  | some _ => afterKey.map fun afterKey => if Starts keyPrefix afterKey then afterKey else keyPrefix ++ afterKey
  | none => afterKey

/-- Later writes first: by LSN, then by time, then by key. -/
def Recent (a b : DbRecord) : Prop :=
  b.lsn < a.lsn ∨ b.lsn = a.lsn ∧ (b.updatedAtMs < a.updatedAtMs ∨ b.updatedAtMs = a.updatedAtMs ∧ a.key ≤ b.key)

instance (a b : DbRecord) : Decidable (Recent a b) := inferInstanceAs (Decidable (_ ∨ _))

open Classical in
/-- The record has the values in the index. -/
noncomputable def hasValues (index : IndexSchema) (values : List Json) (record : DbRecord) : Bool :=
  decide (recordIndexValues record index = .ok values)

/-! ## Decoding -/

variable {lib : ProjectionLibraries} {shape : ProjectionShape} {current : CurrentRecords}
    {kv : RecordProjectionKv}
  {records : List DbRecord} {keyPrefix : String}

/-- Stored records are decoded up to the limit. -/
theorem collect_map (hlib : lib.Lawful) {context : Result DbRecord → Result DbRecord}
    (hcontext : ∀ record,
    context (.ok record) = .ok record) {entryOf : DbRecord → String × Bytes}
    {skipsKey : String → Bool}
    {skips : DbRecord → Bool} (hentry : ∀ r ∈ records, (entryOf r).2 = projectedBytes lib r)
    (hrecords : ∀ r ∈ records, Serializes lib r) {limit : Nat} (hlimit : 0 < limit) :
    collect lib context skipsKey skips
    limit (records.map entryOf) =
    .ok ((records.filter fun r => !skipsKey (entryOf r).1 && !skips r).take limit) := by
  induction records generalizing limit with
  | nil => simp [collect]
  | cons r records ih =>
    obtain ⟨hbytes, hentry⟩ := forall_mem_cons.mp hentry
    obtain ⟨hr, hrecords⟩ := forall_mem_cons.mp hrecords
    replace ih := @ih hentry hrecords
    have hsplit : entryOf r = ((entryOf r).1, projectedBytes lib r) := Prod.ext rfl hbytes
    rw [map_cons, hsplit, collect]
    by_cases hkey : skipsKey (entryOf r).1 = true
    · rw [if_pos hkey, ih hlimit, filter_cons_of_neg (by simp [hkey])]
    · rw [if_neg hkey, decode_projectedBytes hlib hr, hcontext]
      show (if skips r = true then _ else _) = _
      by_cases hskips : skips r = true
      · rw [if_pos hskips, ih hlimit, filter_cons_of_neg (by simp [hskips])]
      · rw [if_neg hskips, filter_cons_of_pos (by simp [hkey, hskips])]
        by_cases hone : limit ≤ 1
        · obtain rfl : limit = 1 := by omega
          rw [if_pos hone, take_succ_cons, take_zero]
          rfl
        · obtain ⟨rest, rfl⟩ : ∃ rest, limit = rest + 2 := ⟨limit - 2, by omega⟩
          rw [if_neg hone, take_succ_cons, Nat.add_one_sub_one, ih (by omega)]
          rfl

theorem normalizeLimit_pos (limit : Option Nat) : 0 < normalizeLimit limit := by
  unfold normalizeLimit
  omega

/-! ## Nested keys -/

theorem starts_append (start rest : String) : Starts start (start ++ rest) := by
  rw [Starts, String.toList_append]
  exact prefix_append _ _

theorem behind_append (start rest : String) : behind start (start ++ rest) = some rest := by
  rw [behind, if_pos (starts_append start rest), String.toList_append, drop_left, String.ofList_toList]

variable {start parentKey : String} {record : DbRecord}

theorem behind_eq_some {text rest : String} (h : behind start text = some rest) :
    text = start ++ rest := by
  unfold behind at h
  split at h
  · next hstarts =>
    obtain ⟨cs, hcs⟩ := hstarts
    rw [← some.inj h, ← String.toList_inj, String.toList_append, String.toList_ofList, ← hcs, drop_left]
  · cases h

/-- What stands behind the first colon of a key. -/
def nestedKeyOf (record : DbRecord) : String := (splitNestedKey record.key).elim "" Prod.snd

/-- The record is nested under a record with the key. -/
def nestedUnder (parentKey : String) (record : DbRecord) : Bool :=
  decide ((splitNestedKey record.key).map Prod.fst = some parentKey)

theorem nestedUnder_iff :
    nestedUnder parentKey record = true ↔
    splitNestedKey record.key = some (parentKey, nestedKeyOf record) := by
  rw [nestedUnder, decide_eq_true_iff, nestedKeyOf]
  cases splitNestedKey record.key with
  | none => simp
  | some parts => simp [Prod.ext_iff]

theorem key_of_nestedUnder (h : nestedUnder parentKey record = true) :
    record.key = parentKey ++ ":" ++ nestedKeyOf record := by
  obtain ⟨hkey, -⟩ := splitNestedKey_eq (nestedUnder_iff.mp h)
  rw [← String.toList_inj, hkey]
  simp

theorem parsePartitionKey_partitionKey (table parentKey nestedKey : String) :
    parsePartitionKey table parentKey (partitionKey table parentKey nestedKey) =
    some nestedKey := by
  have hkey : partitionKey table parentKey nestedKey = partitionPrefix table parentKey ++ nestedKey := by
    simp [partitionKey, partitionPrefix, joined, String.append_assoc]
  rw [parsePartitionKey, hkey, behind_append]

theorem append_le_append_left {a b : String} : start ++ a ≤ start ++ b ↔ a ≤ b := by
  rw [← not_lt, ← not_lt, String.lt_iff_toList_lt, String.lt_iff_toList_lt, String.toList_append, String.toList_append,
    append_left_lt]

theorem partitionParent_eq (h : partitionParentFromPrefix keyPrefix = some parentKey) :
    keyPrefix = parentKey ++ ":" ∧ parentKey ≠ "" := by
  unfold partitionParentFromPrefix at h
  split at h
  · next hlast =>
    obtain ⟨hparent, hne⟩ := filter_eq_some_iff.mp h
    refine ⟨?_, of_decide_eq_true hne⟩
    rw [← String.toList_inj, String.toList_append, ← some.inj hparent, String.toList_ofList]
    exact (dropLast_append_getLast? ':' hlast).symm
  · cases h

theorem splitNestedKey_append {nestedKey : String} (hcolon : ':' ∉ parentKey.toList)
    (hparent : parentKey ≠ "")
    (hnested : nestedKey ≠ "") :
    splitNestedKey (parentKey ++ ":" ++ nestedKey) = some (parentKey, nestedKey) := by
  have hkey : (parentKey ++ ":" ++ nestedKey).toList = parentKey.toList ++ ':' :: nestedKey.toList := by
    simp
  have hall : ∀ c ∈ parentKey.toList, decide (c ≠ ':') = true := by
    intro c hc
    rw [decide_eq_true_iff]
    rintro rfl
    exact hcolon hc
  have hsplit : splitOnce (parentKey ++ ":" ++ nestedKey) ':' = some (parentKey, nestedKey) := by
    unfold splitOnce
    rw [hkey, if_pos (mem_append_right _ mem_cons_self), takeWhile_append_of_pos hall, dropWhile_append_of_pos hall]
    simp
  rw [splitNestedKey, hsplit]
  simp [hparent, hnested]

/-- A list after a nested key goes on where one after the key itself does. -/
theorem notAfter_nested (parentKey nestedKey : String) (afterKey : Option String)
    (h : parentKey ≠ "") :
    notAfter (logicalAfterKey (parentKey ++ ":") afterKey) (parentKey ++ ":" ++ nestedKey) =
    notAfter (partitionAfterNestedKey parentKey afterKey) nestedKey := by
  have hparent : partitionParentFromPrefix (parentKey ++ ":") = some parentKey := by
    simp [partitionParentFromPrefix, h]
  rw [logicalAfterKey, hparent, partitionAfterNestedKey]
  cases afterKey with
  | none => rfl
  | some afterKey =>
    simp only [map_some, notAfter, any_some]
    cases hbehind : behind (parentKey ++ ":") afterKey with
    | none =>
      have hstarts : ¬ Starts (parentKey ++ ":") afterKey := by
        intro hstarts
        rw [behind, if_pos hstarts] at hbehind
        cases hbehind
      rw [if_neg hstarts, getD_none]
      exact decide_eq_decide.mpr append_le_append_left
    | some rest =>
      have hafter := behind_eq_some hbehind
      have hstarts : Starts (parentKey ++ ":") afterKey := by
        rw [hafter]
        exact starts_append _ _
      rw [if_pos hstarts, getD_some, hafter]
      exact decide_eq_decide.mpr append_le_append_left

/-- A prefix that names a parent lists the records nested under it, and no others have the prefix.
-/
theorem nestedUnder_listed_iff (h : partitionParentFromPrefix keyPrefix = some parentKey)
    (afterKey : Option String) (record : DbRecord) :
    (nestedUnder parentKey record && !notAfter (partitionAfterNestedKey parentKey afterKey) (nestedKeyOf record)) =
    true ↔ listed keyPrefix (logicalAfterKey keyPrefix afterKey) record = true ∧
    ':' ∉ parentKey.toList ∧
    record.key ≠ keyPrefix := by
  obtain ⟨rfl, hne⟩ := partitionParent_eq h
  rw [listed, Bool.and_eq_true, Bool.and_eq_true, decide_eq_true_iff, Starts]
  constructor
  · rintro ⟨hnested, hafter⟩
    have hkey := key_of_nestedUnder hnested
    obtain ⟨-, hcolon, hrest⟩ := splitNestedKey_eq (nestedUnder_iff.mp hnested)
    refine ⟨⟨?_, ?_⟩, hcolon, fun hsame => hrest ?_⟩
    · rw [hkey]
      exact starts_append _ _
    · rwa [hkey, notAfter_nested _ _ _ hne]
    · rw [hkey, ← String.toList_inj, @String.toList_append _ (nestedKeyOf record), append_right_eq_self,
        String.toList_eq_nil_iff] at hsame
      exact hsame
  · rintro ⟨⟨⟨rest, hrest⟩, hafter⟩, hcolon, hkey⟩
    have hsame : record.key = parentKey ++ ":" ++ String.ofList rest := by
      rw [← String.toList_inj, ← hrest, @String.toList_append _ (String.ofList rest), String.toList_ofList]
    have hnonempty : String.ofList rest ≠ "" := by
      intro hempty
      rw [hempty, String.append_empty] at hsame
      exact hkey hsame
    have hsplit := splitNestedKey_append hcolon hne hnonempty
    rw [← hsame] at hsplit
    have hnested : nestedKeyOf record = String.ofList rest := by rw [nestedKeyOf, hsplit, elim_some]
    refine ⟨nestedUnder_iff.mpr (hnested ▸ hsplit), ?_⟩
    rw [hnested, ← notAfter_nested _ _ _ hne, ← hsame]
    exact hafter

/-- A prefix that names a parent is of nested records alone: a parent's name has no colon, and the
prefix is no key. -/
def PrefixNests (current : CurrentRecords) (table keyPrefix : String) (afterKey : Option String) :
    Prop :=
  ∀ parentKey, partitionParentFromPrefix keyPrefix = some parentKey → ∀ record ∈ tableRecords current table,
    listed keyPrefix (logicalAfterKey keyPrefix afterKey) record = true → ':' ∉ parentKey.toList ∧
      record.key ≠ keyPrefix

/-- Records are at their own tables and keys. -/
def Placed (current : CurrentRecords) : Prop :=
  ∀ place record, rows current place = some record → place = (record.table, record.key)

namespace Placed

variable (h : Placed current)
include h

theorem mem_tableRecords {table : String} : record ∈ tableRecords current table ↔
    record.table = table ∧
    rows current (table, record.key) = some record := by
  simp only [tableRecords, List.mem_map, Prod.exists, exists_eq_right, Std.ExtTreeMap.mem_toList_iff_getElem?_eq_some]
  constructor
  · rintro ⟨key, hkey⟩
    obtain ⟨rfl, rfl⟩ := Prod.mk.inj (h (table, key) record hkey)
    exact ⟨rfl, hkey⟩
  · rintro ⟨-, hrow⟩
    exact ⟨record.key, hrow⟩

theorem ascending_tableRecords (table : String) :
    (tableRecords current table).Pairwise (·.key < ·.key) := by
  refine pairwise_map.mpr (Pairwise.imp_of_mem (fun {a b} ha hb hlt => ?_) (current table).ordered_keys_toList)
  have hkey : ∀ e ∈ (current table).toList, e.1 = e.2.key := fun e he =>
    (Prod.mk.inj (h (table, e.1) e.2 (Std.ExtTreeMap.mem_toList_iff_getElem?_eq_some.mp he))).2
  rw [← hkey a ha, ← hkey b hb]
  simpa [compare_lt_iff_lt] using hlt

end Placed

namespace Agrees

variable (h : Agrees lib shape current kv)
include h

theorem placed : Placed current := h.place

variable {table name : String} {index : IndexSchema} {values : List Json}

theorem mem_tableRecords : record ∈ tableRecords current table ↔ record.table = table ∧
    rows current (table, record.key) = some record :=
  h.placed.mem_tableRecords

theorem inPlace_of_mem (hmem : record ∈ tableRecords current table) : InPlace lib shape record :=
  h.inPlace _ record (h.mem_tableRecords.mp hmem).2

theorem ascending_tableRecords (table : String) :
    (tableRecords current table).Pairwise (·.key < ·.key) :=
  h.placed.ascending_tableRecords table

/-- A scan of a keyspace returns the entries of the records that have keys with the start. -/
theorem scan_map {ν : Type} {entries : DbRecord → List (String × ν)} {store : BTreeMap String ν}
    (hstored : Stored entries (rows current) fun key => store[key]?)
    {entryOf : DbRecord → String × ν}
    (hrecords : ∀ r ∈ records, r ∈ tableRecords current table) (hmem : ∀ place r,
    rows current place = some r → ∀ entry, entry ∈ entries r ∧ Starts start entry.1 ↔ r ∈ records ∧
      entry = entryOf r)
    (hasc : records.Pairwise fun a b => (entryOf a).1 < (entryOf b).1) :
    scan start store = records.map entryOf := by
  refine scan_eq (List.pairwise_map.mpr hasc) fun key value => ?_
  rw [hstored key value, List.mem_map]
  constructor
  · rintro ⟨r, hr, hentry⟩
    have hrow := (h.mem_tableRecords.mp (hrecords r hr)).2
    obtain ⟨hentries, hstarts⟩ := (hmem _ r hrow (key, value)).mpr ⟨hr, hentry.symm⟩
    exact ⟨hstarts, _, r, hrow, hentries⟩
  · rintro ⟨hstarts, place, r, hrow, hentries⟩
    obtain ⟨hr, hentry⟩ := (hmem place r hrow (key, value)).mp ⟨hentries, hstarts⟩
    exact ⟨r, hr, hentry.symm⟩

/-! ## Lists of a table -/

theorem scan_records (htable : NulFree table) (keyPrefix : String) :
    scan (recordPrefix table keyPrefix) kv.records =
    ((tableRecords current table).filter fun r => decide (Starts keyPrefix r.key)).map fun r =>
    (recordKey r.table r.key, projectedBytes lib r) := by
  refine h.scan_map h.records (fun r hr => mem_of_mem_filter hr) ?_ ?_
  · rintro place r hrow entry
    have hplace := h.place place r hrow
    rw [recordEntries, mem_singleton, mem_filter, decide_eq_true_iff, h.mem_tableRecords, and_comm]
    refine and_congr_left fun hentry => ?_
    rw [hentry, recordPrefix, recordKey, joined_cancel htable (h.named hrow).table, eq_comm]
    exact and_congr_left fun _ => ⟨fun htable => ⟨htable, htable ▸ hplace ▸ hrow⟩, And.left⟩
  · refine ((h.ascending_tableRecords table).imp_of_mem fun {a b} ha hb hlt => ?_).filter _
    rw [(h.mem_tableRecords.mp ha).1, (h.mem_tableRecords.mp hb).1, recordKey, recordKey, joined_lt]
    exact hlt

theorem listByKeyPrefixRaw_eq (hlib : lib.Lawful) (htable : NulFree table) (keyPrefix : String)
    (afterKey : Option String) (limit : Option Nat) :
    listByKeyPrefixRaw lib kv table keyPrefix afterKey limit =
    .ok (page (listed keyPrefix afterKey) limit (tableRecords current table)) := by
  have hserializes : ∀ r ∈ (tableRecords current table).filter fun r => decide (Starts keyPrefix r.key),
      Serializes lib r := fun r hr => (h.inPlace_of_mem (mem_of_mem_filter hr)).serializes
  rw [listByKeyPrefixRaw, h.scan_records htable,
    collect_map hlib (fun _ => rfl) (fun _ _ => rfl) hserializes (normalizeLimit_pos limit), List.filter_filter, page]
  simp only [Bool.not_false, Bool.true_and, Bool.and_comm]
  rfl

theorem list_eq (hlib : lib.Lawful) (htable : NulFree table) (afterKey : Option String)
    (limit : Option Nat) :
    list lib kv table afterKey limit =
    .ok (page (fun record => !notAfter afterKey record.key) limit (tableRecords current table)) := by
  have hlisted : listed "" afterKey = fun record => !notAfter afterKey record.key := by
    funext record
    simp [listed, starts_empty]
  rw [list, h.listByKeyPrefixRaw_eq hlib htable, hlisted]

variable {a b : DbRecord}

omit h in
theorem recentKey_lt (htable : a.table = b.table) (ha : InPlace lib shape a)
    (hb : InPlace lib shape b)
    (hne : a.key ≠ b.key) (hrecent : Recent a b) : recentKey a < recentKey b := by
  have hmax : maxU64 < 10 ^ 20 := by decide
  have halsn := ha.lsn
  have hblsn := hb.lsn
  have haupdated := ha.updatedAtMs
  have hbupdated := hb.updatedAtMs
  rw [recentKey, recentKey, htable, joined_lt, joined_padded_lt (by omega) (by omega),
    joined_padded_lt (by omega) (by omega)]
  rcases hrecent with hlsn | ⟨hlsn, hupdated | ⟨hupdated, hkey⟩⟩
  · exact .inl (by omega)
  · exact .inr ⟨by omega, .inl (by omega)⟩
  · exact .inr ⟨by omega, .inr ⟨by omega, lt_of_le_of_ne hkey hne⟩⟩

omit h in
theorem recent_total (a b : DbRecord) : Recent a b ∨ Recent b a := by
  rcases le_total a.key b.key with hkey | hkey <;> simp only [Recent, hkey, and_true] <;> omega

omit h in
theorem recent_trans {c : DbRecord} (hab : Recent a b) (hbc : Recent b c) : Recent a c := by
  rcases hab with hab | ⟨hlsn, hab⟩
  · rcases hbc with hbc | ⟨hlsn', -⟩
    · exact .inl (hbc.trans hab)
    · exact .inl (hlsn' ▸ hab)
  · rcases hbc with hbc | ⟨hlsn', hbc⟩
    · exact .inl (hlsn ▸ hbc)
    · refine .inr ⟨hlsn'.trans hlsn, ?_⟩
      rcases hab with hab | ⟨hupdated, hab⟩
      · rcases hbc with hbc | ⟨hupdated', -⟩
        · exact .inl (hbc.trans hab)
        · exact .inl (hupdated' ▸ hab)
      · rcases hbc with hbc | ⟨hupdated', hbc⟩
        · exact .inl (hupdated ▸ hbc)
        · exact .inr ⟨hupdated'.trans hupdated, hab.trans hbc⟩

theorem scan_recent (htable : NulFree table) : scan (recentPrefix table) kv.recent =
    ((tableRecords current table).insertionSort Recent).map fun r => (recentKey r,
    projectedBytes lib r) := by
  have hmem : ∀ {r}, r ∈ (tableRecords current table).insertionSort Recent ↔ r ∈ tableRecords current table :=
    mem_insertionSort Recent
  refine h.scan_map h.recent (fun r hr => hmem.mp hr) ?_ ?_
  · rintro place r hrow entry
    have hplace := h.place place r hrow
    rw [recentEntries, mem_singleton, hmem, h.mem_tableRecords, and_comm]
    refine and_congr_left fun hentry => ?_
    rw [hentry, recentPrefix, recentKey, joined_cancel htable (h.named hrow).table, eq_comm]
    exact ⟨fun hstarts => ⟨hstarts.1, hstarts.1 ▸ hplace ▸ hrow⟩, fun hlisted => ⟨hlisted.1, starts_empty _⟩⟩
  · have hsorted : ((tableRecords current table).insertionSort Recent).Pairwise Recent :=
      @List.pairwise_insertionSort _ Recent _ ⟨recent_total⟩ ⟨fun _ _ _ => recent_trans⟩ _
    have hapart : ((tableRecords current table).insertionSort Recent).Pairwise (·.key ≠ ·.key) :=
      (perm_insertionSort Recent _).symm.pairwise ((h.ascending_tableRecords table).imp fun hlt => hlt.ne) fun hne =>
        hne.symm
    refine (hsorted.and hapart).imp_of_mem fun {a b} ha hb hboth => ?_
    have htables := (h.mem_tableRecords.mp (hmem.mp ha)).1.trans (h.mem_tableRecords.mp (hmem.mp hb)).1.symm
    exact recentKey_lt htables (h.inPlace_of_mem (hmem.mp ha)) (h.inPlace_of_mem (hmem.mp hb)) hboth.2 hboth.1

theorem listRecent_eq (hlib : lib.Lawful) (htable : NulFree table) (limit : Option Nat) :
    listRecent lib kv table
    limit = .ok (((tableRecords current table).insertionSort Recent).take (normalizeLimit limit)) := by
  have hserializes : ∀ r ∈ (tableRecords current table).insertionSort Recent, Serializes lib r := fun r hr =>
    (h.inPlace_of_mem ((mem_insertionSort Recent).mp hr)).serializes
  rw [listRecent, h.scan_recent htable,
    collect_map hlib (fun _ => rfl) (fun _ _ => rfl) hserializes (normalizeLimit_pos limit)]
  simp

/-! ## Lists by a key prefix -/

theorem scan_partitions (htable : NulFree table) (parentKey : String) :
    scan (partitionPrefix table parentKey)
    kv.partitions = ((tableRecords current table).filter (nestedUnder parentKey)).map fun r =>
    (partitionKey table parentKey (nestedKeyOf r), projectedBytes lib r) := by
  refine h.scan_map h.partitions (fun r hr => mem_of_mem_filter hr) ?_ ?_
  · rintro place r hrow entry
    have hplace := h.place place r hrow
    rw [mem_filter, nestedUnder_iff, h.mem_tableRecords, partitionEntries]
    cases hsplit : splitNestedKey r.key with
    | none => simp
    | some parts =>
      obtain ⟨hparent, hnested⟩ := splitNestedKey_nulFree hsplit (h.named hrow).key
      have hnestedKey : nestedKeyOf r = parts.2 := by rw [nestedKeyOf, hsplit, elim_some]
      have hstarts : Starts (partitionPrefix table parentKey) (partitionKey r.table parts.1 parts.2) ↔ table = r.table ∧
          parentKey = parts.1 := by
        rw [partitionPrefix, partitionKey, joined_cancel htable (h.named hrow).table,
          joined_empty_cancel hparent hnested]
      dsimp only
      rw [mem_singleton, hnestedKey]
      constructor
      · rintro ⟨rfl, hentry⟩
        obtain ⟨rfl, rfl⟩ := hstarts.mp hentry
        exact ⟨⟨⟨rfl, hplace ▸ hrow⟩, rfl⟩, rfl⟩
      · rintro ⟨⟨⟨rfl, -⟩, hparts⟩, rfl⟩
        obtain rfl : parts.1 = parentKey := congrArg Prod.fst (some.inj hparts)
        exact ⟨rfl, hstarts.mpr ⟨rfl, rfl⟩⟩
  · refine Pairwise.imp_of_mem (fun {a b} ha hb hlt => ?_) ((h.ascending_tableRecords table).filter _)
    rw [key_of_nestedUnder (mem_filter.mp ha).2, key_of_nestedUnder (mem_filter.mp hb).2] at hlt
    rw [partitionKey, partitionKey, joined_lt, joined_lt, ← not_le]
    exact fun hle => absurd hlt (not_lt.mpr (append_le_append_left.mpr hle))

theorem listPartition_eq (hlib : lib.Lawful) (htable : NulFree table) (parentKey : String)
    (afterKey : Option String) (limit : Option Nat) :
    listPartition lib kv table parentKey afterKey limit = .ok
    (page (fun r => nestedUnder parentKey r && !notAfter (partitionAfterNestedKey parentKey afterKey) (nestedKeyOf r))
    limit (tableRecords current table)) := by
  have hserializes : ∀ r ∈ (tableRecords current table).filter (nestedUnder parentKey), Serializes lib r := fun r hr =>
    (h.inPlace_of_mem (mem_of_mem_filter hr)).serializes
  rw [listPartition, h.scan_partitions htable,
    collect_map hlib (fun _ => rfl) (fun _ _ => rfl) hserializes (normalizeLimit_pos limit), List.filter_filter, page]
  simp only [parsePartitionKey_partitionKey, Option.all_some, Bool.not_false, Bool.true_and, Bool.and_comm]

theorem listByKeyPrefix_iff (hlib : lib.Lawful) (htable : NulFree table) (keyPrefix : String)
    (afterKey : Option String) (limit : Option Nat) :
    listByKeyPrefix lib kv table keyPrefix afterKey limit =
    .ok (page (listed keyPrefix (logicalAfterKey keyPrefix afterKey)) limit (tableRecords current table)) ↔
    PrefixNests current table keyPrefix afterKey := by
  rw [listByKeyPrefix]
  cases hparent : partitionParentFromPrefix keyPrefix with
  | none =>
    refine iff_of_true ?_ fun parentKey hsome => (by rw [hparent] at hsome; cases hsome)
    rw [logicalAfterKey, hparent]
    exact h.listByKeyPrefixRaw_eq hlib htable keyPrefix afterKey limit
  | some parentKey =>
    have hiff := nestedUnder_listed_iff hparent afterKey
    dsimp only
    rw [h.listPartition_eq hlib htable, Except.ok.injEq]
    constructor
    · intro heq parentKey' hparent' record hmem hlisted
      obtain rfl := some.inj (hparent.symm.trans hparent')
      have hmem' := mem_filter.mpr ⟨hmem, hlisted⟩
      obtain ⟨limit', hlimit⟩ : ∃ n, normalizeLimit limit = n + 1 :=
        ⟨normalizeLimit limit - 1, by have := normalizeLimit_pos limit; omega⟩
      obtain ⟨first, others, hfirst⟩ := exists_cons_of_ne_nil (ne_nil_of_mem hmem')
      have hpage : first ∈
          page (listed keyPrefix (logicalAfterKey keyPrefix afterKey)) limit (tableRecords current table) := by
        rw [page, hfirst, hlimit, take_succ_cons]
        exact mem_cons_self
      rw [← heq] at hpage
      have hkeeps := (hiff first).mp (mem_filter.mp (mem_of_mem_take hpage)).2
      refine ⟨hkeeps.2.1, fun hkey => ?_⟩
      -- the prefix itself would come before every other key that has it
      have hasc := (h.ascending_tableRecords table).filter (listed keyPrefix (logicalAfterKey keyPrefix afterKey))
      rw [hfirst] at hasc hmem'
      have hle : keyPrefix ≤ first.key := by
        have hlisted := hkeeps.1
        rw [listed, Bool.and_eq_true, decide_eq_true_iff] at hlisted
        exact le_of_starts hlisted.1
      rcases mem_cons.mp hmem' with rfl | hothers
      · exact hkeeps.2.2 hkey
      · exact absurd (hkey ▸ rel_of_pairwise_cons hasc hothers) (not_lt.mpr hle)
    · intro hnests
      rw [page, page]
      refine congrArg (take _) (filter_congr fun record hmem => ?_)
      rw [Bool.eq_iff_iff, hiff]
      exact ⟨And.left, fun hlisted => ⟨hlisted, hnests parentKey hparent record hmem hlisted⟩⟩

/-! ## Queries of an index -/

theorem hasValues_iff (hindex : (shape.indexes table)[name]? = some index)
    (hmem : record ∈ tableRecords current table) :
    hasValues index values record = true ↔ indexValuesOf record index = values := by
  obtain ⟨rfl, -⟩ := h.mem_tableRecords.mp hmem
  obtain ⟨found, hfound⟩ := (h.inPlace_of_mem hmem).indexable name index hindex
  simp only [hasValues, decide_eq_true_iff, indexValuesOf, hfound, Except.ok.injEq]
  rfl

theorem scan_indexes (hlib : lib.Lawful)
    (hshape : shape.Named) (htable : NulFree table)
    (hindex : (shape.indexes table)[name]? = some index)
    (hvalues : ∀ v ∈ values, v.WellFormed) (hserialize : ValuesSerialize lib values)
    (keyPrefix : String) :
    scan (joined table (joined name (joined (indexComponent lib values) keyPrefix))) kv.indexes =
    ((tableRecords current table).filter fun r => hasValues index values r && decide (Starts keyPrefix r.key)).map
    fun r => (indexEntryKey lib r name index, projectedBytes lib r) := by
  have hname := hshape _ _ _ hindex
  refine h.scan_map h.indexes (fun r hr => mem_of_mem_filter hr) ?_ ?_
  · rintro place r hrow ⟨key, bytes⟩
    have hplace := h.place place r hrow
    rw [mem_indexEntries, mem_filter, Prod.mk.injEq, Bool.and_eq_true, decide_eq_true_iff]
    constructor
    · rintro ⟨⟨rfl, name', index', hindex', rfl⟩, hstarts⟩
      rw [indexEntryKey, joined_cancel htable (h.named hrow).table, joined_cancel hname (hshape _ _ _ hindex'),
        joined_cancel (nulFree_indexComponent _) (nulFree_indexComponent _)] at hstarts
      obtain ⟨rfl, rfl, hcomponent, hkey⟩ := hstarts
      obtain rfl := some.inj (hindex.symm.trans hindex')
      have hmem : r ∈ tableRecords current r.table := h.mem_tableRecords.mpr ⟨rfl, hplace ▸ hrow⟩
      have hsame := indexComponent_inj hlib hvalues (wellFormed_indexValuesOf r index) hserialize
        ((h.inPlace _ r hrow).valuesSerialize name index hindex) hcomponent
      exact ⟨⟨hmem, (h.hasValues_iff hindex hmem).mpr hsame.symm, hkey⟩, rfl, rfl⟩
    · rintro ⟨⟨hmem, hhas, hkey⟩, rfl, rfl⟩
      obtain ⟨rfl, -⟩ := h.mem_tableRecords.mp hmem
      refine ⟨⟨rfl, name, index, hindex, rfl⟩, ?_⟩
      rw [indexEntryKey, joined_cancel htable htable, joined_cancel hname hname,
        joined_cancel (nulFree_indexComponent _) (nulFree_indexComponent _), (h.hasValues_iff hindex hmem).mp hhas]
      exact ⟨rfl, rfl, rfl, hkey⟩
  · refine Pairwise.imp_of_mem (fun {a b} ha hb hlt => ?_) ((h.ascending_tableRecords table).filter _)
    obtain ⟨hamem, ha⟩ := mem_filter.mp ha
    obtain ⟨hbmem, hb⟩ := mem_filter.mp hb
    rw [Bool.and_eq_true] at ha hb
    rw [indexEntryKey, indexEntryKey, (h.hasValues_iff hindex hamem).mp ha.1, (h.hasValues_iff hindex hbmem).mp hb.1,
      (h.mem_tableRecords.mp hamem).1, (h.mem_tableRecords.mp hbmem).1, joined_lt, joined_lt, joined_lt]
    exact hlt

theorem queryIndexWith_eq (hlib : lib.Lawful) (hshape : shape.Named)
    (htable : NulFree table) (hindex : (shape.indexes table)[name]? = some index)
    (hvalues : ∀ v ∈ values, v.WellFormed)
    (hserialize : ValuesSerialize lib values) (keyPrefix afterKey : Option String)
    (limit : Option Nat) :
    queryIndexWith lib kv table name values keyPrefix afterKey limit = .ok (page (fun r =>
    hasValues index values r && listed (keyPrefix.getD "") afterKey r) limit (tableRecords current table)) := by
  have hserializes : ∀ r ∈ (tableRecords current table).filter fun r =>
      hasValues index values r && decide (Starts (keyPrefix.getD "") r.key), Serializes lib r := fun r hr =>
    (h.inPlace_of_mem (mem_of_mem_filter hr)).serializes
  have hquery : queryIndexWith lib kv table name values keyPrefix afterKey limit =
      collect lib id (fun _ => false) (fun record => notAfter afterKey record.key) (normalizeLimit limit)
        (scan (joined table (joined name (joined (indexComponent lib values) (keyPrefix.getD "")))) kv.indexes) := by
    cases keyPrefix with
    | none =>
      simp only [queryIndexWith, indexPrefix, encodeIndexValues_eq hserialize]
      rfl
    | some keyPrefix =>
      simp only [queryIndexWith, indexKeyPrefix, encodeIndexValues_eq hserialize]
      rfl
  rw [hquery, h.scan_indexes hlib hshape htable hindex hvalues hserialize,
    collect_map hlib (fun _ => rfl) (fun _ _ => rfl) hserializes (normalizeLimit_pos limit), List.filter_filter, page]
  simp only [listed, Bool.not_false, Bool.true_and, Bool.and_comm, Bool.and_left_comm, Bool.and_assoc]

end Agrees

/-! ## Calls of the store -/

/-- A write to the projection. -/
inductive StoreCall where
  | upsert (record : DbRecord)
  | delete (table key : String)

/-- The indexes and the order of a table are the same in every call. -/
def StoreCall.run (lib : ProjectionLibraries) (shape : ProjectionShape) : StoreCall → KvTask Unit
  | .upsert record => upsertWithIndexes lib record (shape.indexes record.table) (shape.order record.table)
  | .delete table key => do let _ ← deleteFromProjection lib table key

def runCalls (lib : ProjectionLibraries) (shape : ProjectionShape) : List StoreCall → KvTask Unit
  | [] => pure ()
  | call :: calls => do
    call.run lib shape
    runCalls lib shape calls

/-- The current records after a call. -/
def StoreCall.next (current : CurrentRecords) : StoreCall → CurrentRecords
  | .upsert record => put current record
  | .delete table key => erase current table key

/-- A call for components that are safe; a record of 64-bit numbers that can be stored, with scalars
in the indexes of its table and no other record's values in a unique one. -/
def StoreCall.Accepted (lib : ProjectionLibraries) (shape : ProjectionShape)
    (current : CurrentRecords) :
    StoreCall → Prop
  | .upsert record => ensureSafeRecordComponent record.table = true ∧
    ensureSafeRecordComponent record.key = true ∧
      record.lsn ≤ maxU64 ∧ record.updatedAtMs ≤ maxU64 ∧ Serializes lib record ∧
      Indexable shape record ∧
      IndexesSerialize lib shape record ∧ ¬ Conflicts shape current record
  | .delete table key => ensureSafeRecordComponent table = true ∧ ensureSafeRecordComponent key =
    true

def AllAccepted (lib : ProjectionLibraries) (shape : ProjectionShape) :
    CurrentRecords → List StoreCall → Prop
  | _, [] => True
  | current, call :: calls => call.Accepted lib shape current ∧
    AllAccepted lib shape (call.next current) calls

/-- The keyspaces hold what the current records have, and the lists return what filtering and
sorting those returns. -/
structure Consistent (lib : ProjectionLibraries) (shape : ProjectionShape)
    (current : CurrentRecords) (kv : RecordProjectionKv) : Prop where
  agrees : Agrees lib shape current kv
  list : ∀ {table}, NulFree table → ∀ afterKey limit, list lib kv table afterKey limit =
    .ok (page (fun record => !notAfter afterKey record.key) limit (tableRecords current table))
  listByKeyPrefix : ∀ {table}, NulFree table → ∀ keyPrefix afterKey limit,
    listByKeyPrefix lib kv table keyPrefix afterKey limit =
        .ok (page (listed keyPrefix (logicalAfterKey keyPrefix afterKey)) limit (tableRecords current table)) ↔
      PrefixNests current table keyPrefix afterKey
  listRecent : ∀ {table}, NulFree table → ∀ limit, listRecent lib kv table limit =
    .ok (((tableRecords current table).insertionSort Recent).take (normalizeLimit limit))
  queryIndex : ∀ {table name index values}, NulFree table → (shape.indexes table)[name]? = some index →
    (∀ v ∈ values, v.WellFormed) → ValuesSerialize lib values → ∀ afterKey limit,
    queryIndex lib kv table name values afterKey limit =
      .ok (page (fun record => hasValues index values record && !notAfter afterKey record.key) limit
        (tableRecords current table))
  queryIndexByKeyPrefix : ∀ {table name index values}, NulFree table → (shape.indexes table)[name]? = some index →
    (∀ v ∈ values, v.WellFormed) → ValuesSerialize lib values → ∀ keyPrefix afterKey limit,
    queryIndexByKeyPrefix lib kv table name values keyPrefix afterKey limit =
      .ok (page (fun record => hasValues index values record && listed keyPrefix afterKey record) limit
        (tableRecords current table))

theorem Agrees.consistent (hlib : lib.Lawful) (hshape : shape.Named)
    (h : Agrees lib shape current kv) :
    Consistent lib shape current kv where
  agrees := h
  list := fun htable => h.list_eq hlib htable
  listByKeyPrefix := fun htable => h.listByKeyPrefix_iff hlib htable
  listRecent := fun htable => h.listRecent_eq hlib htable
  queryIndex := fun htable hindex hvalues hserialize afterKey limit => by
    have hquery := h.queryIndexWith_eq hlib hshape htable hindex hvalues hserialize none afterKey limit
    simpa [queryIndex, listed, starts_empty] using hquery
  queryIndexByKeyPrefix := fun htable hindex hvalues hserialize keyPrefix afterKey limit =>
    h.queryIndexWith_eq hlib hshape htable hindex hvalues hserialize (some keyPrefix) afterKey limit

theorem nulFree_of_safe {value : String} (h : ensureSafeRecordComponent value = true) :
    NulFree value := by
  intro hmem
  rw [ensureSafeRecordComponent, Bool.and_eq_true, List.all_eq_true] at h
  exact absurd (h.2 _ hmem) (by decide)

/-- A call that is accepted succeeds, and the keyspaces hold what the records after it have. -/
theorem Agrees.call (hlib : lib.Lawful) (hshape : shape.Named) (h : Agrees lib shape current kv)
    {call : StoreCall} (haccepted : call.Accepted lib shape current) :
    ∃ kv', exec (call.run lib shape) kv = (.ok (), kv') ∧
    Agrees lib shape (call.next current) kv' := by
  cases call with
  | upsert record =>
    obtain ⟨htable, hkey, hlsn, hupdated, haccepted⟩ := haccepted
    have hrecord : Named record := ⟨nulFree_of_safe htable, nulFree_of_safe hkey⟩
    have hok := (h.upsert_ok_iff hlib hshape hrecord).mpr haccepted
    exact ⟨_, Prod.ext hok rfl, h.upsert hlib hshape hrecord hlsn hupdated hok⟩
  | delete table key =>
    obtain ⟨kv', hexec, hagrees⟩ := h.delete hlib hshape (nulFree_of_safe haccepted.1) (nulFree_of_safe haccepted.2)
    refine ⟨kv', ?_, hagrees⟩
    rw [StoreCall.run, exec_bind, hexec]
    rfl

theorem Agrees.calls (hlib : lib.Lawful) (hshape : shape.Named) {calls : List StoreCall}
    {current : CurrentRecords}
    {kv : RecordProjectionKv} (h : Agrees lib shape current kv)
    (haccepted : AllAccepted lib shape current calls) :
    ∃ kv', exec (runCalls lib shape calls) kv = (.ok (), kv') ∧
    Agrees lib shape (calls.foldl StoreCall.next current) kv' := by
  induction calls generalizing current kv with
  | nil => exact ⟨kv, rfl, h⟩
  | cons call calls ih =>
    obtain ⟨kv₁, hcall, h₁⟩ := h.call hlib hshape haccepted.1
    obtain ⟨kv₂, hcalls, h₂⟩ := ih h₁ haccepted.2
    refine ⟨kv₂, ?_, h₂⟩
    rw [runCalls, exec_bind, hcall]
    exact hcalls

/-- From the empty store, after calls that are accepted. -/
theorem projection_consistent (hlib : lib.Lawful) (hshape : shape.Named) {calls : List StoreCall}
    (haccepted : AllAccepted lib shape (fun _ => ∅) calls) :
    ∃ kv, exec (runCalls lib shape calls) .empty =
    (.ok (), kv) ∧ Consistent lib shape (calls.foldl StoreCall.next fun _ => ∅) kv := by
  obtain ⟨kv, hexec, h⟩ := agrees_empty.calls hlib hshape haccepted
  exact ⟨kv, hexec, h.consistent hlib hshape⟩

section Sample

/-- A note under a key with two colons. -/
def note : DbRecord := ⟨"notes", "a:b:c", .null, 0, 1, ""⟩

def noteEnvelope : ProjectedRecordEnvelope := ⟨"notes", "a:b:c", .null, 0, 1, ""⟩

/-- The `postcard` bytes of the note's envelope. -/
def noteBytes : Bytes := 5 :: (strBytes "notes" ++ 5 :: (strBytes "a:b:c" ++ [0, 0, 1, 0]))

def noteLibrary : ProjectionLibraries := givenLibrary [(noteEnvelope, noteBytes)] []

theorem noteLibrary_lawful : noteLibrary.Lawful := givenLibrary_lawful (nodup_singleton _) nodup_nil

def unindexed : ProjectionShape := ⟨fun _ => ∅, fun _ => none⟩

theorem unindexed_named : unindexed.Named := by
  intro table name index hindex
  cases hindex.symm.trans Std.ExtTreeMap.getElem?_empty

theorem note_serializes : Serializes noteLibrary note := ⟨projectedRecordMagic ++ noteBytes, rfl⟩

theorem note_accepted : AllAccepted noteLibrary unindexed (fun _ => ∅) [.upsert note] := by
  have hnone : ∀ {name : String} {index : IndexSchema}, (unindexed.indexes note.table)[name]? ≠ some index :=
    fun h => by cases h.symm.trans Std.ExtTreeMap.getElem?_empty
  refine ⟨⟨by decide +kernel, by decide +kernel, by decide, by decide, note_serializes, ?_, ?_, ?_⟩, trivial⟩
  · exact fun name index hindex => absurd hindex hnone
  · exact fun name index hindex => absurd hindex hnone
  · rintro ⟨name, index, other, hindex, -⟩
    exact hnone hindex

/-! A table with a unique index. -/

def byTopic : IndexSchema := ⟨["topic"], true⟩

def topical : ProjectionShape :=
  ⟨fun _ => (∅ : BTreeMap String IndexSchema).insert "byTopic" byTopic, fun _ => none⟩

def topic (text : String) : Value where
  json := .object [("topic", .string text)]
  wellFormed := by simp [Json.WellFormed, Json.FieldsWellFormed, KeysAscending]

def memo (key text : String) (lsn : Nat) : DbRecord :=
  ⟨"memos", key, topic text, 0, lsn, "tables/memos/" ++ key⟩

def memoEnvelope (key text : String) (lsn : Nat) : ProjectedRecordEnvelope :=
  ⟨"memos", key, .object [("topic", .string text)], 0, lsn, "tables/memos/" ++ key⟩

def memoLibrary : ProjectionLibraries :=
  givenLibrary [(memoEnvelope "a" "x" 1, [1]), (memoEnvelope "b" "y" 2, [2]), (memoEnvelope "a" "z" 3, [3]),
    (memoEnvelope "c" "y" 5, [4])] [([.string "x"], [5]), ([.string "y"], [6]), ([.string "z"], [7])]

/-- A memo is written again, another is deleted, and a third takes the topic of that. -/
def memoCalls : List StoreCall :=
  [.upsert (memo "a" "x" 1), .upsert (memo "b" "y" 2), .upsert (memo "a" "z" 3), .delete "memos" "b",
    .upsert (memo "c" "y" 5)]

theorem memoLibrary_lawful : memoLibrary.Lawful := givenLibrary_lawful (by decide) (by decide)

theorem index_topical {table name : String} {index : IndexSchema}
    (h : (topical.indexes table)[name]? = some index) :
    name = "byTopic" ∧ index = byTopic := by
  rw [topical, Std.ExtTreeMap.getElem?_insert, Std.ExtTreeMap.getElem?_empty] at h
  split at h
  · next hname => exact ⟨(compare_eq_iff_eq.mp hname).symm, (Option.some.inj h).symm⟩
  · cases h

theorem topical_named : topical.Named := by
  intro table name index hindex
  rw [(index_topical hindex).1]
  decide

theorem topics (key text : String) (lsn : Nat) :
    indexValuesOf (memo key text lsn) byTopic = [.string text] := rfl

/-- Only a memo with the same topic under another key is in the way. -/
theorem memo_upsert_accepted {current : CurrentRecords} {key text : String} {lsn : Nat}
    (hkey : ensureSafeRecordComponent key = true) (hlsn : lsn ≤ maxU64)
    (hserializes : Serializes memoLibrary (memo key text lsn))
    (hvalues : ValuesSerialize memoLibrary [.string text])
    (hfree : ∀ other : DbRecord, other.key ≠ key →
    rows current ("memos", other.key) = some other → indexValuesOf other byTopic ≠ [.string text]) :
    (StoreCall.upsert (memo key text lsn)).Accepted memoLibrary topical current := by
  have htable : ensureSafeRecordComponent "memos" = true := by decide +kernel
  refine ⟨htable, hkey, hlsn, Nat.zero_le _, hserializes, fun name index hindex => ?_, fun name index hindex => ?_, ?_⟩
  · rw [(index_topical hindex).2]
    exact ⟨[.string text], rfl⟩
  · rw [(index_topical hindex).2]
    exact hvalues
  · rintro ⟨name, index, other, hindex, -, hother, hrow, hsame⟩
    rw [(index_topical hindex).2] at hsame
    exact hfree other hother hrow hsame

theorem memoCalls_accepted : AllAccepted memoLibrary topical (fun _ => ∅) memoCalls := by
  refine ⟨memo_upsert_accepted (by decide +kernel) (by decide) ⟨_, rfl⟩ ⟨_, rfl⟩ ?_,
    memo_upsert_accepted (by decide +kernel) (by decide) ⟨_, rfl⟩ ⟨_, rfl⟩ ?_,
    memo_upsert_accepted (by decide +kernel) (by decide) ⟨_, rfl⟩ ⟨_, rfl⟩ ?_, ⟨by decide +kernel, by decide +kernel⟩,
    memo_upsert_accepted (by decide +kernel) (by decide) ⟨_, rfl⟩ ⟨_, rfl⟩ ?_, trivial⟩
  all_goals
    intro other hkey hrow
    have hnone : rows (fun _ => ∅) ("memos", other.key) = none := Std.ExtTreeMap.getElem?_empty
    simp only [StoreCall.next, rows_put, rows_erase, Function.update_apply, memo, Prod.mk.injEq, true_and, hkey, hnone,
      if_false] at hrow
  · cases hrow
  · split at hrow
    · obtain rfl := Option.some.inj hrow
      exact (topics "a" "x" 1).trans_ne (by simp)
    · cases hrow
  · split at hrow
    · obtain rfl := Option.some.inj hrow
      exact (topics "b" "y" 2).trans_ne (by simp)
    · cases hrow
  · by_cases hb : other.key = "b"
    · rw [if_pos hb] at hrow
      cases hrow
    by_cases ha : other.key = "a"
    · rw [if_neg hb, if_pos ha] at hrow
      obtain rfl := Option.some.inj hrow
      exact (topics "a" "z" 3).trans_ne (by simp)
    · simp [ha, hb] at hrow

theorem projection_consistent_memos :
    ∃ kv, exec (runCalls memoLibrary topical memoCalls) .empty = (.ok (), kv) ∧
    Consistent memoLibrary topical (memoCalls.foldl StoreCall.next fun _ => ∅) kv :=
  projection_consistent memoLibrary_lawful topical_named memoCalls_accepted

/-! A prefix that ends in a colon. -/

theorem note_current : note ∈ tableRecords (put (fun _ => ∅) note) "notes" := by
  have hempty : Agrees noteLibrary unindexed (fun _ => ∅) .empty := agrees_empty
  obtain ⟨kv, -, h⟩ := hempty.calls noteLibrary_lawful unindexed_named note_accepted
  refine h.mem_tableRecords.mpr ⟨rfl, ?_⟩
  exact (congrFun (rows_put (fun _ => ∅) note) ("notes", "a:b:c")).trans (Function.update_self ..)

theorem not_prefixNests_note : ¬ PrefixNests (put (fun _ => ∅) note) "notes" "a:b:" none := by
  intro hnests
  have hparent : partitionParentFromPrefix "a:b:" = some "a:b" := by decide +kernel
  exact absurd (hnests "a:b" hparent note note_current (by decide +kernel)).1 (by decide +kernel)

/-- A key prefix that ends in a colon does not list the record that is nested two levels below. -/
theorem two_colons_not_listed :
    ¬ ∀ (lib : ProjectionLibraries) (shape : ProjectionShape) (calls : List StoreCall),
    lib.Lawful → AllAccepted lib shape (fun _ => ∅) calls →
    ∃ kv, exec (runCalls lib shape calls) .empty = (.ok (),
    kv) ∧ ∀ table keyPrefix afterKey limit, NulFree table →
    listByKeyPrefix lib kv table keyPrefix afterKey limit =
    .ok (page (listed keyPrefix (logicalAfterKey keyPrefix afterKey)) limit
    (tableRecords (calls.foldl StoreCall.next fun _ => ∅) table)) := by
  intro hall
  obtain ⟨kv, hexec, hlist⟩ := hall noteLibrary unindexed [.upsert note] noteLibrary_lawful note_accepted
  have hempty : Agrees noteLibrary unindexed (fun _ => ∅) .empty := agrees_empty
  obtain ⟨kv', hexec', h⟩ := hempty.calls noteLibrary_lawful unindexed_named note_accepted
  obtain rfl : kv' = kv := congrArg Prod.snd (hexec'.symm.trans hexec)
  have htable : NulFree "notes" := by decide +kernel
  exact not_prefixNests_note
    ((h.listByKeyPrefix_iff noteLibrary_lawful htable "a:b:" none none).mp (hlist "notes" "a:b:" none none htable))

end Sample

end NextDb.Api.ProjectionKv
