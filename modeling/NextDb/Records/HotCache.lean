import NextDb.Records.ObjectRefs

/-!
# The hot cache of the records

The record hot cache keeps, for each table whose storage is hot, the records that were written
last, and for each deleted key a tombstone until the projection has the deletion. The counters and
the bookkeeping of volatile keys are left out.
-/

namespace NextDb.Records

structure HotTable where
  maxItems : Option Nat
  records : BTreeMap String DbRecord
  durableDeleteTombstones : BTreeMap String Nat
  access : BTreeMap String Nat

/-- The hot tables, with the count of accesses. -/
structure RecordHotState where
  tables : BTreeMap String HotTable
  accessSeq : Nat

def isDurableRecord (record : DbRecord) : Bool :=
  0 < record.lsn && !record.path.startsWith "volatile/"

/-- Removes the tombstone of a key if it is not of a later LSN. -/
def clearTombstone (key : String) (lsn : Nat) (tombstones : BTreeMap String Nat) :
    BTreeMap String Nat :=
  if tombstones[key]?.any (· ≤ lsn) then tombstones.erase key else tombstones

/-- The tombstone of a key is of the LSN at least. -/
def raiseTombstone (key : String) (lsn : Nat) (tombstones : BTreeMap String Nat) :
    BTreeMap String Nat :=
  tombstones.insert key (max (tombstones.getD key 0) lsn)

def HotTable.mapTombstones (f : BTreeMap String Nat → BTreeMap String Nat) (self : HotTable) :
    HotTable :=
  { self with durableDeleteTombstones := f self.durableDeleteTombstones }

/-- Removes a record from the cache. -/
def HotTable.forget (self : HotTable) (key : String) : HotTable :=
  { self with records := self.records.erase key, access := self.access.erase key }

/-- The keys that are read least recently come first. -/
def accessedBefore (left right : Nat × String) : Prop :=
  left.1 < right.1 ∨ left.1 = right.1 ∧ ¬ right.2 < left.2

instance : DecidableRel accessedBefore := fun left right =>
  inferInstanceAs (Decidable (left.1 < right.1 ∨ left.1 = right.1 ∧ ¬ right.2 < left.2))

def HotTable.evictLru (self : HotTable) : HotTable :=
  match self.maxItems with
  | none => self
  | some maxItems =>
    let overflow := self.records.size - maxItems
    let candidates := self.records.keys.map fun key => (self.access.getD key 0, key)
    let victims := (candidates.insertionSort accessedBefore).take overflow
    victims.foldl (fun table victim => table.forget victim.2) self

variable (self : RecordHotState)

/-- What a change makes of a table's state and of the access sequence, if the table is hot. -/
def RecordHotState.getMut (table : String) (f : HotTable → Nat → HotTable × Nat) :
    RecordHotState :=
  match self.tables[table]? with
  | none => self
  | some state => ⟨self.tables.insert table (f state self.accessSeq).1, (f state self.accessSeq).2⟩

/-- The record is put in its table and is the one accessed last. -/
def HotTable.put (record : DbRecord) (self : HotTable) (accessSeq : Nat) : HotTable × Nat :=
  let table := if isDurableRecord record then self.mapTombstones (clearTombstone record.key record.lsn) else self
  ({ table with
      records := table.records.insert record.key record
      access := table.access.insert record.key (accessSeq + 1) }, accessSeq + 1)

/-- `upsert_internal`. -/
def RecordHotState.upsertInternal (record : DbRecord) (evictLru : Bool) :
    RecordHotState :=
  let self := self.getMut record.table (HotTable.put record)
  if evictLru then self.getMut record.table fun table accessSeq => (table.evictLru, accessSeq) else self

def RecordHotState.upsert (record : DbRecord) : RecordHotState :=
  self.upsertInternal record true

def RecordHotState.upsertMany (records : List DbRecord) : RecordHotState :=
  let touchedTables := records.foldl (fun tables record => tables.insert record.table) (∅ : BTreeSet String)
  touchedTables.toList.foldl (fun self table => self.getMut table fun table accessSeq => (table.evictLru, accessSeq))
    (records.foldl (fun self record => self.upsertInternal record false) self)

/-- A deletion does not remove a durable record of a later LSN. -/
def HotTable.deleteDurable (key : String) (lsn : Nat) (self : HotTable) (accessSeq : Nat) :
    HotTable × Nat :=
  if self.records[key]?.any fun record => isDurableRecord record && lsn < record.lsn then (self, accessSeq)
  else ((self.forget key).mapTombstones (raiseTombstone key lsn), accessSeq)

def RecordHotState.deleteDurable (self : RecordHotState) (table key : String) (lsn : Nat) :
    RecordHotState :=
  self.getMut table (HotTable.deleteDurable key lsn)

def RecordHotState.clearDurableDeleteTombstone (table key : String) (lsn : Nat) :
    RecordHotState :=
  self.getMut table fun table accessSeq => (table.mapTombstones (clearTombstone key lsn), accessSeq)

/-! ## Clearing a tombstone -/

theorem getElem?_clearTombstone (key : String) (lsn : Nat) (tombstones : BTreeMap String Nat)
    (other : String) :
    (clearTombstone key lsn tombstones)[other]? = tombstones[other]?.filter fun deleted =>
    !(other == key && decide (deleted ≤ lsn)) := by
  unfold clearTombstone
  by_cases hk : key = other
  · subst hk
    cases ht : tombstones[key]? with
    | none => simp [ht]
    | some deleted =>
      by_cases hd : deleted ≤ lsn
      · simp [hd, Option.filter_some]
      · simp [hd, ht, Option.filter_some]
  · have hk' : other ≠ key := fun h => hk h.symm
    have hother : (if tombstones[key]?.any (· ≤ lsn) then tombstones.erase key else tombstones)[other]? =
        tombstones[other]? := by
      split
      · simp [Std.ExtTreeMap.getElem?_erase, hk]
      · rfl
    rw [hother]
    cases tombstones[other]? with
    | none => rfl
    | some deleted => simp [hk', Option.filter_some]

theorem getElem?_raiseTombstone (key : String) (lsn : Nat) (tombstones : BTreeMap String Nat)
    (other : String) :
    (raiseTombstone key lsn tombstones)[other]? =
    if key = other then some (max (tombstones[key]?.getD 0) lsn) else tombstones[other]? := by
  rw [raiseTombstone, Std.ExtTreeMap.getElem?_insert, Std.ExtTreeMap.getD_eq_getD_getElem?]
  simp

end NextDb.Records
