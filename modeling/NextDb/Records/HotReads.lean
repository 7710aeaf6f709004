import NextDb.Records.HotCache

/-!
# Reads of the hot cache, and what leaves it

A read of a hot table tells a record that the cache does not have from a table that is not hot.
Durable records leave the cache when it is full, when nothing reads them for some time, or on
request; and a record that was read from the projection enters it.

* `entry_put`, `entry_deleteDurable`, `entry_hydrateDurable`: what each leaves under a key.
* `fades_upsertMany`, `fades_hydrateDurableMany`, `fades_evict`, `fades_evictIdle`: what leaves the
  cache.
-/

namespace NextDb.Records

open List Option

namespace RecordHotState

variable (self : RecordHotState)

/-- What the cache has of a key; `none` if the table is not hot. Times of access are left out. -/
def get (table key : String) : Option (Option DbRecord) :=
  self.tables[table]?.map fun table => table.records[key]?

def durableDeleteLsn (table key : String) : Option (Option Nat) :=
  self.tables[table]?.map fun table => table.durableDeleteTombstones[key]?

def isWindowedTable (table : String) : Bool :=
  self.tables[table]?.any fun table => table.maxItems.isSome

/-- `scan_key_order` of a whole table. -/
def scanKeyOrder (table : String) : Option (List DbRecord) :=
  self.tables[table]?.map fun table => table.records.toList.map Prod.snd

/-- A record of the projection takes the place of a durable one, also of a later one. -/
def hydrateDurable (record : DbRecord) (evictLru : Bool) : RecordHotState :=
  if !isDurableRecord record then self
  else if ((self.get record.table record.key).join.any fun existing => !isDurableRecord existing) then self
  else self.upsertInternal record evictLru

def hydrateDurableMany (records : List DbRecord) : RecordHotState :=
  let touchedTables := records.foldl (fun tables record => tables.insert record.table) (∅ : BTreeSet String)
  touchedTables.toList.foldl (fun self table => self.getMut table fun table accessSeq => (table.evictLru, accessSeq))
    (records.foldl (fun self record => self.hydrateDurable record false) self)

def evict (self : RecordHotState) (table key : String) : RecordHotState :=
  self.getMut table fun table accessSeq => (table.forget key, accessSeq)

/-- The durable records that have been idle leave the cache. -/
def evictIdleDurableRecords (idle : String → String → Bool) : RecordHotState :=
  { self with
    tables := self.tables.map fun tableName table =>
      let victims := table.records.toList.filter fun (key, record) => isDurableRecord record && idle tableName key
      victims.foldl (fun table victim => table.forget victim.1) table }

/-- The record is the one accessed last, if the cache has it. -/
def touch (table key : String) : RecordHotState :=
  self.getMut table fun table accessSeq =>
    if table.records.contains key then ({ table with access := table.access.insert key (accessSeq + 1) }, accessSeq + 1)
    else (table, accessSeq)

end RecordHotState

/-! ## What the cache has of a key -/

/-- The record under a key, and the LSN of its deletion. -/
abbrev HotEntry := Option DbRecord × Option Nat

def HotTable.entry (self : HotTable) (key : String) : HotEntry :=
  (self.records[key]?, self.durableDeleteTombstones[key]?)

/-- What the cache has at a place; `none` if the table is not hot. -/
def RecordHotState.entry (self : RecordHotState) (place : String × String) : Option HotEntry :=
  self.tables[place.1]?.map fun table => table.entry place.2

namespace HotEntry

/-- The entry after a record was put there. -/
def put (record : DbRecord) (self : HotEntry) : HotEntry :=
  (some record, if isDurableRecord record then self.2.filter fun deleted => !decide (deleted ≤ record.lsn) else self.2)

/-- The entry after a deletion. -/
def delete (lsn : Nat) (self : HotEntry) : HotEntry :=
  if self.1.any fun record => isDurableRecord record && lsn < record.lsn then self
  else (none, some (max (self.2.getD 0) lsn))

theorem put_put (record : DbRecord) (self : HotEntry) :
    (self.put record).put record = self.put record := by
  unfold put
  split
  · rw [Option.filter_filter]
    simp
  · rfl

theorem delete_delete (lsn : Nat) (self : HotEntry) :
    (self.delete lsn).delete lsn = self.delete lsn := by
  unfold delete
  split
  · rfl
  · simp

end HotEntry

theorem clearTombstone_entry (key : String) (lsn : Nat) (tombstones : BTreeMap String Nat)
    (other : String) :
    (clearTombstone key lsn tombstones)[other]? =
    if other = key then tombstones[other]?.filter (fun deleted => !decide (deleted ≤ lsn)) else tombstones[other]? := by
  rw [getElem?_clearTombstone]
  split
  · next hkey => simp [hkey]
  · next hkey =>
    have hother : (other == key) = false := beq_eq_false_iff_ne.mpr hkey
    cases tombstones[other]? with
    | none => rfl
    | some deleted => simp [hother, filter_some]

namespace HotTable

theorem entry_put (record : DbRecord) (self : HotTable) (accessSeq : Nat) (key : String) :
    (HotTable.put record self accessSeq).1.entry key = if key = record.key then
    (self.entry key).put record else self.entry key := by
  unfold put entry HotEntry.put mapTombstones
  by_cases hkey : key = record.key
  · subst hkey
    split <;> simp [clearTombstone_entry]
  · split <;> simp [clearTombstone_entry, hkey, Std.ExtTreeMap.getElem?_insert, Ne.symm hkey]

variable (self : HotTable)

theorem entry_forget (victim key : String) :
    (self.forget victim).entry key = if key =
    victim then (none, (self.entry key).2) else self.entry key := by
  unfold forget entry
  by_cases hkey : key = victim
  · subst hkey
    simp
  · simp [Std.ExtTreeMap.getElem?_erase, hkey, Ne.symm hkey]

theorem entry_deleteDurable (deleted : String) (lsn accessSeq : Nat) (key : String) :
    (HotTable.deleteDurable deleted lsn self accessSeq).1.entry key = if key = deleted then
    (self.entry key).delete lsn else self.entry key := by
  unfold deleteDurable HotEntry.delete
  by_cases hkey : key = deleted
  · subst hkey
    rw [if_pos rfl]
    show (if self.records[key]?.any _ then _ else _ : HotTable × Nat).1.entry key = if self.records[key]?.any _ then _ else _
    split
    · rfl
    · simp [forget, mapTombstones, entry, getElem?_raiseTombstone]
  · rw [if_neg hkey]
    split
    · rfl
    · simp [forget, mapTombstones, entry, getElem?_raiseTombstone, Std.ExtTreeMap.getElem?_erase, Ne.symm hkey]

/-- Of the keys that are forgotten, the deletions stay. -/
theorem entry_forget_all (victims : List String) (key : String) :
    (victims.foldl (fun table victim => table.forget victim) self).entry key = self.entry key ∨
    (victims.foldl (fun table victim => table.forget victim) self).entry key =
    (none, (self.entry key).2) := by
  induction victims generalizing self with
  | nil => exact .inl rfl
  | cons victim victims ih =>
    have hfirst := self.entry_forget victim key
    rcases ih (self.forget victim) with h | h <;> rw [foldl_cons, h, hfirst] <;> split <;> simp

theorem maxItems_forget_all (victims : List String) :
    (victims.foldl (fun table victim => table.forget victim) self).maxItems = self.maxItems := by
  induction victims generalizing self with
  | nil => rfl
  | cons victim victims ih => exact ih (self.forget victim)

theorem maxItems_evictLru : self.evictLru.maxItems = self.maxItems := by
  unfold evictLru
  cases hmax : self.maxItems with
  | none => exact hmax
  | some maxItems =>
    dsimp only
    rw [← foldl_map (f := Prod.snd), maxItems_forget_all, hmax]

end HotTable

namespace RecordHotState

variable (self : RecordHotState) (place : String × String)

theorem entry_getMut (table : String) (f : HotTable → Nat → HotTable × Nat) :
    (self.getMut table f).entry place = if place.1 = table then self.tables[table]?.map fun state =>
    (f state self.accessSeq).1.entry place.2 else self.entry place := by
  unfold getMut
  cases hstate : self.tables[table]? with
  | none =>
    by_cases htable : place.1 = table
    · simp [entry, htable, hstate]
    · simp [htable]
  | some state =>
    by_cases htable : place.1 = table
    · simp [entry, htable]
    · simp [entry, htable, Std.ExtTreeMap.getElem?_insert, Ne.symm htable]

variable {table : String} {f : HotTable → Nat → HotTable × Nat} {change : HotEntry → HotEntry}
    {leave : String → Prop}
  {α : Type}

/-- A change of the entries under one key. -/
theorem entry_getMut_of_key {key : String}
    (h : ∀ (state : HotTable) accessSeq other, (f state accessSeq).1.entry other =
    if other = key then change (state.entry other) else state.entry other) :
    (self.getMut table f).entry place =
    if place = (table, key) then (self.entry place).map change else self.entry place := by
  rw [entry_getMut]
  obtain ⟨table', key'⟩ := place
  by_cases htable : table' = table
  · subst htable
    rw [if_pos rfl]
    by_cases hkey : key' = key
    · subst hkey
      simp [h, entry, Function.comp_def]
    · simp [h, entry, hkey]
  · simp [htable]

theorem isWindowedTable_getMut (table table' : String)
    (f : HotTable → Nat → HotTable × Nat)
    (h : ∀ state accessSeq, (f state accessSeq).1.maxItems = state.maxItems) :
    (self.getMut table f).isWindowedTable table' = self.isWindowedTable table' := by
  unfold getMut isWindowedTable
  cases hstate : self.tables[table]? with
  | none => rfl
  | some state =>
    simp only [Std.ExtTreeMap.getElem?_insert, compare_eq_iff_eq]
    split
    · next htable => simp [← htable, hstate, h]
    · rfl

theorem entry_put (record : DbRecord) :
    (self.getMut record.table (HotTable.put record)).entry place =
    if place = (record.table,
    record.key) then (self.entry place).map (HotEntry.put record) else self.entry place :=
  self.entry_getMut_of_key place (HotTable.entry_put record)

theorem entry_deleteDurable (table key : String) (lsn : Nat) :
    (self.deleteDurable table key lsn).entry place =
    if place = (table, key) then (self.entry place).map (HotEntry.delete lsn) else self.entry place :=
  self.entry_getMut_of_key place fun state accessSeq other => state.entry_deleteDurable key lsn accessSeq other

theorem entry_clearDurableDeleteTombstone (table key : String) (lsn : Nat) :
    (self.clearDurableDeleteTombstone table key lsn).entry place = if place =
    (table, key) then (self.entry place).map
    fun entry => (entry.1,
    entry.2.filter fun deleted => !decide (deleted ≤ lsn)) else self.entry place := by
  refine self.entry_getMut_of_key place fun state accessSeq other => ?_
  unfold HotTable.entry HotTable.mapTombstones
  rw [clearTombstone_entry]
  split <;> rfl

theorem entry_touch (table key : String) :
    (self.touch table key).entry place = self.entry place := by
  rw [touch, entry_getMut]
  split
  · next htable =>
    rw [entry, htable]
    congr 1
    funext state
    split <;> rfl
  · rfl

theorem isWindowedTable_touch (table key table' : String) :
    (self.touch table key).isWindowedTable table' = self.isWindowedTable table' := by
  refine self.isWindowedTable_getMut table table' _ fun state accessSeq => ?_
  split <;> rfl

/-! ## What leaves the cache -/

/-- Records of some tables have left the cache. -/
structure Fades (leave : String → Prop) (s t : RecordHotState) : Prop where
  windowed : ∀ table, t.isWindowedTable table = s.isWindowedTable table
  entry : ∀ place, t.entry place = s.entry place ∨
    leave place.1 ∧ ∃ record deleted, s.entry place = some (some record, deleted) ∧ t.entry place = some (none, deleted)

theorem Fades.refl (leave : String → Prop) : Fades leave self self :=
  ⟨fun _ => rfl, fun _ => .inl rfl⟩

theorem Fades.trans {a b c : RecordHotState} (hab : Fades leave a b) (hbc : Fades leave b c) :
    Fades leave a c := by
  refine ⟨fun table => (hbc.windowed table).trans (hab.windowed table), fun place => ?_⟩
  rcases hbc.entry place with hsame | ⟨hleave, record, deleted, hrecord, hgone⟩
  · rw [hsame]
    exact hab.entry place
  · rcases hab.entry place with hsame | ⟨-, _, _, -, hgone'⟩
    · exact .inr ⟨hleave, record, deleted, hsame ▸ hrecord, hgone⟩
    · cases (some.inj (hrecord.symm.trans hgone'))

/-- Forgetting a key changes its entry only if it has a record. -/
theorem HotEntry.fades {entry new : HotEntry} (h : new = entry ∨ new = (none, entry.2)) :
    new = entry ∨ ∃ record deleted, some entry = some (some record, deleted) ∧
    some new = some (none, deleted) := by
  obtain ⟨record?, deleted⟩ := entry
  cases record? with
  | none => exact h.elim .inl .inl
  | some record => exact h.imp id fun hgone => ⟨record, deleted, rfl, congrArg some hgone⟩

/-- A table whose keys are forgotten fades. -/
theorem fades_getMut (table : String)
    (hmax : ∀ state accessSeq, (f state accessSeq).1.maxItems = state.maxItems) (hleave : ∀ state,
    self.tables[table]? = some state → (f state self.accessSeq).1 = state ∨ leave table)
    (h : ∀ state accessSeq key,
    (f state accessSeq).1.entry key = state.entry key ∨ (f state accessSeq).1.entry key = (none,
      (state.entry key).2)) :
    Fades leave self (self.getMut table f) := by
  refine ⟨fun table' => self.isWindowedTable_getMut table table' f hmax, fun place => ?_⟩
  rw [entry_getMut]
  split
  · next htable =>
    rw [entry, htable]
    cases hstate : self.tables[table]? with
    | none => exact .inl rfl
    | some state =>
      rcases hleave state hstate with hsame | hleaves
      · exact .inl (by simp [hsame])
      · exact (HotEntry.fades (h state self.accessSeq place.2)).imp (congrArg some) fun hgone =>
          ⟨htable ▸ hleaves, hgone⟩
  · exact .inl rfl

theorem fades_evict (table key : String) : Fades (fun _ => True) self (self.evict table key) := by
  refine self.fades_getMut table (fun _ _ => rfl) (fun _ _ => .inr trivial) fun state accessSeq other => ?_
  rw [HotTable.entry_forget]
  split
  · exact .inr rfl
  · exact .inl rfl

theorem fades_evictIdle (idle : String → String → Bool) :
    Fades (fun _ => True) self (self.evictIdleDurableRecords idle) := by
  refine ⟨fun table => ?_, fun place => ?_⟩ <;> unfold evictIdleDurableRecords
  · unfold isWindowedTable
    rw [Std.ExtTreeMap.getElem?_map]
    cases hstate : self.tables[table]? with
    | none => rfl
    | some state =>
      dsimp only [map_some, any_some]
      rw [← foldl_map (f := Prod.fst), HotTable.maxItems_forget_all]
  unfold entry
  rw [Std.ExtTreeMap.getElem?_map]
  cases hstate : self.tables[place.1]? with
  | none => exact .inl rfl
  | some state =>
    have hforget := state.entry_forget_all ((state.records.toList.filter fun (key, record) =>
      isDurableRecord record && idle place.1 key).map Prod.fst) place.2
    rw [foldl_map] at hforget
    exact (HotEntry.fades hforget).imp (congrArg some) fun hgone => ⟨trivial, hgone⟩

theorem fades_evictLru (table : String) :
    Fades (fun table => self.isWindowedTable table = true) self
    (self.getMut table fun table accessSeq => (table.evictLru, accessSeq)) := by
  refine self.fades_getMut table (fun state _ => state.maxItems_evictLru) (fun state hstate => ?_)
    fun state accessSeq key => ?_
  · cases hmax : state.maxItems with
    | none => exact .inl (by simp [HotTable.evictLru, hmax])
    | some maxItems => exact .inr (by simp [isWindowedTable, hstate, hmax])
  · unfold HotTable.evictLru
    cases state.maxItems with
    | none => exact .inl rfl
    | some maxItems =>
      dsimp only
      rw [← foldl_map (f := Prod.snd)]
      exact state.entry_forget_all _ key

theorem fades_evictLru_all (tables : List String) :
    Fades (fun table => self.isWindowedTable table = true) self
    (tables.foldl (fun self table => self.getMut table fun table accessSeq => (table.evictLru,
    accessSeq)) self) := by
  induction tables generalizing self with
  | nil => exact .refl self _
  | cons table tables ih =>
    have hfirst := self.fades_evictLru table
    have hrest := ih (self.getMut table fun table accessSeq => (table.evictLru, accessSeq))
    simp only [hfirst.windowed] at hrest
    exact hfirst.trans hrest

/-! ## Records that enter the cache -/

/-- Changes that leave a key alone, or change its entry in one way. -/
theorem entry_foldl {f : RecordHotState → α → RecordHotState}
    (hidem : ∀ entry, change (change entry) = change entry)
    (about : α → Prop) [DecidablePred about] {as : List α} (h :
    ∀ self, ∀ a ∈ as, (f self a).entry place = if about a then (self.entry place).map change else self.entry place) :
    (as.foldl f self).entry place = if ∃ a ∈ as,
    about a then (self.entry place).map change else self.entry place := by
  induction as generalizing self with
  | nil => simp
  | cons a as ih =>
    rw [foldl_cons, ih _ fun self a' ha' => h self a' (mem_cons_of_mem a ha'), h self a mem_cons_self]
    by_cases hfirst : about a <;> by_cases hrest : ∃ a ∈ as, about a <;>
      simp [hfirst, hrest, Option.map_map, Function.comp_def, hidem]

theorem isWindowedTable_foldl {f : RecordHotState → α → RecordHotState}
    (h : ∀ self a, (f self a).isWindowedTable table = self.isWindowedTable table) (as : List α) :
    (as.foldl f self).isWindowedTable table = self.isWindowedTable table := by
  induction as generalizing self with
  | nil => rfl
  | cons a as ih => exact (ih (f self a)).trans (h self a)

variable (record : DbRecord)

theorem isWindowedTable_put (table : String) :
    (self.upsertInternal record false).isWindowedTable table = self.isWindowedTable table := by
  refine self.isWindowedTable_getMut record.table table _ fun state accessSeq => ?_
  unfold HotTable.put
  split <;> rfl

theorem isWindowedTable_deleteDurable (table key : String) (lsn : Nat) (table' : String) :
    (self.deleteDurable table key lsn).isWindowedTable table' = self.isWindowedTable table' := by
  refine self.isWindowedTable_getMut table table' _ fun state accessSeq => ?_
  unfold HotTable.deleteDurable
  split <;> rfl

theorem fades_upsert :
    Fades (fun table => self.isWindowedTable table = true) (self.upsertInternal record false) (self.upsert record) := by
  have hfades := (self.upsertInternal record false).fades_evictLru record.table
  simp only [isWindowedTable_put] at hfades
  exact hfades

theorem fades_upsertMany (records : List DbRecord) :
    Fades (fun table => self.isWindowedTable table = true)
    (records.foldl (fun self record => self.upsertInternal record false) self) (self.upsertMany records) := by
  have hfades := (records.foldl (fun self record => self.upsertInternal record false) self).fades_evictLru_all
    (records.foldl (fun tables record => tables.insert record.table) (∅ : BTreeSet String)).toList
  simp only [self.isWindowedTable_foldl fun self record => self.isWindowedTable_put record _] at hfades
  exact hfades

/-- A record that is read from the projection is put in the cache, or left out. -/
theorem entry_hydrateDurable : (self.hydrateDurable record false).entry place = self.entry place ∨
    place = (record.table, record.key) ∧ isDurableRecord record = true ∧
    (self.hydrateDurable record false).entry place =
    (self.entry place).map (HotEntry.put record) := by
  unfold hydrateDurable
  split
  · exact .inl rfl
  · next hdurable =>
    split
    · exact .inl rfl
    · have hput : (self.upsertInternal record false).entry place = _ := self.entry_put place record
      rw [hput]
      split
      · next hplace => exact .inr ⟨hplace, by simpa using hdurable, rfl⟩
      · exact .inl rfl

theorem isWindowedTable_hydrateDurable (table : String) :
    (self.hydrateDurable record false).isWindowedTable table = self.isWindowedTable table := by
  unfold hydrateDurable
  split
  · rfl
  · split
    · rfl
    · exact self.isWindowedTable_put record table

theorem fades_hydrateDurableMany (records : List DbRecord) :
    Fades (fun table => self.isWindowedTable table = true)
    (records.foldl (fun self record => self.hydrateDurable record false) self) (self.hydrateDurableMany records) := by
  have hfades := (records.foldl (fun self record => self.hydrateDurable record false) self).fades_evictLru_all
    (records.foldl (fun tables record => tables.insert record.table) (∅ : BTreeSet String)).toList
  simp only [self.isWindowedTable_foldl fun self record => self.isWindowedTable_hydrateDurable record _] at hfades
  exact hfades

end RecordHotState

end NextDb.Records
