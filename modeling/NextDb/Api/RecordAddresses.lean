import NextDb.Api.ObjectRefIndex
import NextDb.Lib.TextKeys

/-!
# Addresses of records

A record is written under a table and a key, or as a nested record under a parent key. Both are
turned into the name of a table and a key, which '.' and ':' join.

* `apart_iff`: addresses stay apart where no key of a nested record has a ':' and no name of a table
  is read in two ways.
-/

namespace NextDb.Api.RecordAddresses

open List TextKeys ObjectRefIndex
open RecordCommit (nestedRecordKey nestedRecordPath)
open Records (nestedRecordTable)

inductive RecordAddress where
  | record (table key : String)
  | nestedRecord (table parentKey nested nestedKey : String)
deriving DecidableEq

namespace RecordAddress

def components : RecordAddress → List String
  | .record table key => [table, key]
  | .nestedRecord table parentKey nested nestedKey => [table, parentKey, nested, nestedKey]

/-- The table and key under which the record is stored. -/
def logical : RecordAddress → String × String
  | .record table key => (table, key)
  | .nestedRecord table parentKey nested nestedKey => (nestedRecordTable table nested,
    nestedRecordKey parentKey nestedKey)

def path : RecordAddress → String
  | .record table key => s!"tables/{table}/{key}"
  | .nestedRecord table parentKey nested nestedKey => nestedRecordPath table parentKey nested nestedKey

/-- `validate_record_path` and `validate_nested_record_path`. -/
def Accepted (schema : DatabaseSchema) (self : RecordAddress) : Prop :=
  (∀ component ∈ self.components, ensureSafeRecordComponent component = true) ∧
    match self with
    | .record table _ => (schema.tables[table]?).isSome
    | .nestedRecord table _ nested _ => (schema.nestedTable table nested).isSome

def nestedRecordPrefix (parentKey : String) : String := s!"{parentKey}:"

/-- No other parent key's prefix begins the key of a nested record. -/
def OwnPrefix : RecordAddress → Prop
  | .record _ _ => True
  | .nestedRecord _ parentKey _ nestedKey =>
    ∀ other, Starts (nestedRecordPrefix other) (nestedRecordKey parentKey nestedKey) →
    other = parentKey

/-- Two records differ in name and path, and no prefix but its own parent key's begins a nested key. -/
structure Apart (a b : RecordAddress) : Prop where
  logical : a.logical ≠ b.logical
  path : a.path ≠ b.path
  ownPrefix : a.OwnPrefix ∧ b.OwnPrefix

/-- The keys of a nested record have no colon. -/
def ColonFree : RecordAddress → Prop
  | .record _ _ => True
  | .nestedRecord _ parentKey _ nestedKey => ':' ∉ parentKey.toList ∧ ':' ∉ nestedKey.toList

/-- The text is two parts and a separator between them. -/
def Splits (separator : Char) (text left right : String) : Prop :=
  text.toList = left.toList ++ separator :: right.toList

/-- The table's name has a dot more than the other, with what stands between the two dots. -/
def DotMoves (table nested table' nested' : String) : Prop :=
  ∃ middle, Splits '.' table' table middle ∧ Splits '.' nested middle nested'

/-- The same keys under names that differ in the dot between table and nested table, or under a
table with a dot in its name. -/
def SameName : RecordAddress → RecordAddress → Prop
  | .nestedRecord table parentKey nested nestedKey,
    .nestedRecord table' parentKey' nested' nestedKey' =>
    parentKey = parentKey' ∧ nestedKey = nestedKey' ∧
      (DotMoves table nested table' nested' ∨ DotMoves table' nested' table nested)
  | .nestedRecord table parentKey nested nestedKey, .record table' key
  | .record table' key, .nestedRecord table parentKey nested nestedKey =>
    Splits '.' table' table nested ∧ Splits ':' key parentKey nestedKey
  | .record _ _, .record _ _ => False

theorem toList_nestedRecordKey (parentKey nestedKey : String) :
    (nestedRecordKey parentKey nestedKey).toList = parentKey.toList ++ ':' :: nestedKey.toList := by
  simp [nestedRecordKey, toString]

theorem toList_nestedRecordTable (table nested : String) :
    (nestedRecordTable table nested).toList = table.toList ++ '.' :: nested.toList := by
  simp [nestedRecordTable, toString]

variable {parentKey nestedKey : String} {a b : RecordAddress}

theorem starts_iff {other : String} : Starts (nestedRecordPrefix other)
    (nestedRecordKey parentKey nestedKey) ↔
    other.toList ++ [':'] <+: parentKey.toList ++ ':' :: nestedKey.toList := by
  rw [Starts, toList_nestedRecordKey]
  simp [nestedRecordPrefix, toString]

theorem ownPrefix_iff (a : RecordAddress) : a.OwnPrefix ↔ a.ColonFree := by
  cases a with
  | record table key => rfl
  | nestedRecord table parentKey nested nestedKey =>
    refine ⟨fun h => ⟨fun hmem => ?_, fun hmem => ?_⟩, fun h other hstarts => ?_⟩
    · obtain ⟨before, after, hsplit⟩ := append_of_mem hmem
      have heq := h (String.ofList before) (starts_iff.mpr ⟨after ++ ':' :: nestedKey.toList, by simp [hsplit]⟩)
      rw [← heq, String.toList_ofList] at hsplit
      simpa using congrArg length hsplit
    · obtain ⟨before, after, hsplit⟩ := append_of_mem hmem
      have heq := h (String.ofList (parentKey.toList ++ ':' :: before)) (starts_iff.mpr ⟨after, by simp [hsplit]⟩)
      have hlength := congrArg (fun text => text.toList.length) heq
      simp at hlength
    · exact String.toList_inj.mp ((append_cons_nil_prefix_iff h.1 h.2).mp (starts_iff.mp hstarts))

theorem toList_path (a : RecordAddress) :
    a.path.toList = "tables".toList ++ joinSlash a.components := by
  cases a <;> simp [path, nestedRecordPath, joinSlash, components, toString]

theorem path_inj (ha : ∀ component ∈ a.components, ensureSafeRecordComponent component = true)
    (hb : ∀ component ∈ b.components, ensureSafeRecordComponent component = true)
    (h : a.path = b.path) : a = b := by
  have hlist := congrArg String.toList h
  rw [toList_path, toList_path] at hlist
  have hcomponents := joinSlash_inj (fun c hc => slash_notMem_of_safe (ha c hc))
    (fun c hc => slash_notMem_of_safe (hb c hc)) (append_cancel_left hlist)
  cases a <;> cases b <;> simp_all [components]

theorem dotMoves_iff {table nested table' nested' : String} : DotMoves table nested table' nested' ↔
    ∃ m, table'.toList = table.toList ++ '.' :: m ∧ nested.toList = m ++ '.' :: nested'.toList :=
  ⟨fun ⟨middle, h⟩ => ⟨middle.toList, h⟩, fun ⟨m, h⟩ => ⟨String.ofList m, by simpa [Splits] using h⟩⟩

theorem nestedRecordTable_eq_iff {table nested table' nested' : String} :
    nestedRecordTable table nested = nestedRecordTable table' nested' ↔
    table = table' ∧ nested = nested' ∨
    DotMoves table nested table' nested' ∨ DotMoves table' nested' table nested := by
  rw [← String.toList_inj, toList_nestedRecordTable, toList_nestedRecordTable, append_cons_eq_iff, String.toList_inj,
    String.toList_inj, dotMoves_iff, dotMoves_iff]

theorem logical_record_eq_iff (table' key table parentKey nested nestedKey : String) :
    (table', key) = (nestedRecordTable table nested, nestedRecordKey parentKey nestedKey) ↔
    Splits '.' table' table nested ∧ Splits ':' key parentKey nestedKey := by
  rw [Prod.mk.injEq, ← String.toList_inj, ← String.toList_inj, toList_nestedRecordTable, toList_nestedRecordKey]
  rfl

theorem logical_eq_iff (hne : a ≠ b) (ha : a.ColonFree) (hb : b.ColonFree) :
    a.logical = b.logical ↔ a.SameName b := by
  cases a with
  | record table key =>
    cases b with
    | record table' key' => simpa [logical, SameName] using hne
    | nestedRecord table' parentKey nested nestedKey => exact logical_record_eq_iff ..
  | nestedRecord table parentKey nested nestedKey =>
    cases b with
    | record table' key => exact eq_comm.trans (logical_record_eq_iff ..)
    | nestedRecord table' parentKey' nested' nestedKey' =>
      have hkey : nestedRecordKey parentKey nestedKey = nestedRecordKey parentKey' nestedKey' ↔ parentKey = parentKey' ∧
          nestedKey = nestedKey' := by
        rw [← String.toList_inj, toList_nestedRecordKey, toList_nestedRecordKey, append_cons_inj ha.1 hb.1,
          String.toList_inj, String.toList_inj]
      have hother : parentKey = parentKey' → nestedKey = nestedKey' → ¬(table = table' ∧ nested = nested') := by
        rintro rfl rfl ⟨rfl, rfl⟩
        exact hne rfl
      rw [logical, logical, Prod.mk.injEq, nestedRecordTable_eq_iff, hkey, SameName]
      tauto

theorem apart_iff {schema : DatabaseSchema} {a b : RecordAddress} (ha : a.Accepted schema)
    (hb : b.Accepted schema)
    (hne : a ≠ b) : Apart a b ↔ (a.ColonFree ∧ b.ColonFree) ∧ ¬ a.SameName b := by
  constructor
  · rintro ⟨hlogical, -, hown⟩
    rw [ownPrefix_iff, ownPrefix_iff] at hown
    exact ⟨hown, fun hsame => hlogical ((logical_eq_iff hne hown.1 hown.2).mpr hsame)⟩
  · rintro ⟨hfree, hname⟩
    refine ⟨fun hlogical => hname ((logical_eq_iff hne hfree.1 hfree.2).mp hlogical), fun hpath => ?_, ?_⟩
    · exact hne (path_inj ha.1 hb.1 hpath)
    · rwa [ownPrefix_iff, ownPrefix_iff]

/-- Posts with comments. -/
def commentsSchema : DatabaseSchema :=
  { postsCurrent with
    tables := Std.ExtTreeMap.insert ∅ "posts" ⟨.disk, idField, Std.ExtTreeMap.insert ∅ "comments"
      ⟨.disk, idField, ⟨[]⟩, ∅⟩,
      ⟨[]⟩, ∅⟩ }

theorem comment_accepted (hparent : ensureSafeRecordComponent parentKey = true)
    (hkey : ensureSafeRecordComponent nestedKey = true) :
    (nestedRecord "posts" parentKey "comments" nestedKey).Accepted commentsSchema := by
  have htable : ensureSafeRecordComponent "posts" = true := by decide +kernel
  have hnested : ensureSafeRecordComponent "comments" = true := by decide +kernel
  refine ⟨by simp [components, htable, hnested, hparent, hkey], ?_⟩
  simp [DatabaseSchema.nestedTable, commentsSchema]

theorem apart_iff_sample :
    Apart (.nestedRecord "posts" "a" "comments" "b") (.nestedRecord "posts" "b" "comments" "a") ↔
    (ColonFree (.nestedRecord "posts" "a" "comments" "b") ∧
    ColonFree (.nestedRecord "posts" "b" "comments" "a")) ∧
    ¬ SameName (.nestedRecord "posts" "a" "comments" "b") (.nestedRecord "posts" "b" "comments" "a") :=
  apart_iff (comment_accepted (by decide +kernel) (by decide +kernel))
    (comment_accepted (by decide +kernel) (by decide +kernel)) (by decide)

/-- A ':' at the end of the parent key or at the start of the nested one makes the same key. -/
theorem colon_moves :
    ¬ ∀ (schema : DatabaseSchema) (a b : RecordAddress), schema.validationReport.ok = true →
    a.Accepted schema → b.Accepted schema → a ≠ b → Apart a b := by
  intro hall
  have hvalid : commentsSchema.validationReport.ok = true := by decide +kernel
  have hapart := hall commentsSchema (.nestedRecord "posts" "a:b" "comments" "c")
    (.nestedRecord "posts" "a" "comments" "b:c")
    hvalid (comment_accepted (by decide +kernel) (by decide +kernel))
    (comment_accepted (by decide +kernel) (by decide +kernel)) (by decide)
  exact hapart.logical (by decide +kernel)

end RecordAddress

end NextDb.Api.RecordAddresses
