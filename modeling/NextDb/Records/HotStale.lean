import NextDb.Records.HotReads

/-!
# Durable operations on a key of the hot cache

A record that is put in the cache takes the place of what is there without a look at its LSN; only a
deletion looks.

* `shows_greatest_iff`: the cache shows what the operation of the greatest LSN left, at all times,
  just if no record is put after an operation of a greater LSN.
-/

namespace NextDb.Records

open List Option Std.ExtTreeMap

/-! ## What is accessed last stays -/

theorem accessedBefore_total (a b : Nat × String) : accessedBefore a b ∨ accessedBefore b a := by
  rcases Nat.lt_trichotomy a.1 b.1 with h | h | h
  · exact .inl (.inl h)
  · rcases lt_or_ge b.2 a.2 with hlt | hle
    · exact .inr (.inr ⟨h.symm, hlt.asymm⟩)
    · exact .inl (.inr ⟨h, hle.not_gt⟩)
  · exact .inr (.inl h)

theorem accessedBefore_trans {a b c : Nat × String} (hab : accessedBefore a b)
    (hbc : accessedBefore b c) :
    accessedBefore a c := by
  rcases hab with hab | ⟨hab, hkeys⟩ <;> rcases hbc with hbc | ⟨hbc, hkeys'⟩
  · exact .inl (hab.trans hbc)
  · exact .inl (hbc ▸ hab)
  · exact .inl (hab ▸ hbc)
  · exact .inr ⟨hab.trans hbc, ((not_lt.mp hkeys).trans (not_lt.mp hkeys')).not_gt⟩

namespace HotTable

theorem access_forget (self : HotTable) (victim key : String) :
    (self.forget victim).access.getD key 0 ≤ self.access.getD key 0 := by
  simp only [forget, getD_erase]
  split <;> simp

theorem entry_forget_all_of_notMem {victims : List String} {key : String} (self : HotTable)
    (h : key ∉ victims) :
    (victims.foldl (fun table victim => table.forget victim) self).entry key = self.entry key := by
  induction victims generalizing self with
  | nil => rfl
  | cons victim victims ih =>
    rw [foldl_cons, ih (self.forget victim) (fun hmem => h (mem_cons_of_mem _ hmem)), entry_forget,
      if_neg fun (heq : key = victim) => h (heq ▸ mem_cons_self)]

theorem access_evictLru (self : HotTable) (key : String) :
    self.evictLru.access.getD key 0 ≤ self.access.getD key 0 := by
  unfold evictLru
  split
  · exact Nat.le_refl _
  · refine foldlRecOn (motive := fun (table : HotTable) => table.access.getD key 0 ≤ self.access.getD key 0) _ _
      (Nat.le_refl _) fun table h victim _ => (table.access_forget victim.2 key).trans h

theorem notMem_take_sort {candidates : List (Nat × String)} {last : Nat × String} {overflow : Nat}
    (hnodup : candidates.Nodup) (hoverflow : overflow < candidates.length)
    (hlast : ∀ other ∈ candidates,
    other ≠ last → other.1 < last.1) :
    last ∉ (candidates.insertionSort accessedBefore).take overflow := by
  intro hmem
  have hperm := perm_insertionSort accessedBefore candidates
  have hsort := @List.pairwise_insertionSort _ accessedBefore _ ⟨accessedBefore_total⟩
    ⟨fun _ _ _ => accessedBefore_trans⟩ candidates
  -- Not all overflow, so one is left that is accessed later than what is taken.
  obtain ⟨left, hleft⟩ : ∃ left, left ∈ (candidates.insertionSort accessedBefore).drop overflow :=
    exists_mem_of_length_pos (by rw [length_drop, hperm.length_eq]; omega)
  have hne : left ≠ last := fun heq =>
    disjoint_take_drop (hperm.nodup_iff.mpr hnodup) (Nat.le_refl _) hmem (heq ▸ hleft)
  rw [← take_append_drop overflow (candidates.insertionSort accessedBefore), pairwise_append] at hsort
  have hbefore := hsort.2.2 last hmem left hleft
  have hlt := hlast left (hperm.mem_iff.mp (mem_of_mem_drop hleft)) hne
  unfold accessedBefore at hbefore
  omega

theorem entry_evictLru {self : HotTable} {key : String} (hmax : self.maxItems ≠ some 0)
    (hlast : ∀ other,
    other ≠ key → self.access.getD other 0 < self.access.getD key 0) :
    self.evictLru.entry key = self.entry key := by
  unfold evictLru
  cases hitems : self.maxItems with
  | none => rfl
  | some maxItems =>
    dsimp only
    rw [← foldl_map (f := Prod.snd)]
    refine entry_forget_all_of_notMem self fun hmem => ?_
    obtain ⟨victim, hvictim, rfl⟩ := mem_map.mp hmem
    have hcandidate := (mem_insertionSort accessedBefore).mp (mem_of_mem_take hvictim)
    have hpos := length_pos_of_mem hcandidate
    obtain ⟨key, -, rfl⟩ := mem_map.mp hcandidate
    refine notMem_take_sort (self.records.nodup_keys.map fun _ _ h => (Prod.mk.inj h).2) ?_ ?_ hvictim
    · have hzero : maxItems ≠ 0 := fun h => hmax (hitems.trans (congrArg some h))
      rw [length_map, length_keys] at hpos ⊢
      omega
    · intro other hother hne
      obtain ⟨other, -, rfl⟩ := mem_map.mp hother
      exact hlast other fun heq => hne (by rw [heq])

end HotTable

/-! ## Operations on a key -/

/-- An operation of a durable record, on a key. -/
inductive DurableOperation where
  | upsert (record : DbRecord) (evictLru : Bool)
  | hydrate (record : DbRecord) (evictLru : Bool)
  | delete (lsn : Nat)

namespace DurableOperation

/-- The record that is put in the cache. -/
def record? : DurableOperation → Option DbRecord
  | .upsert record _ | .hydrate record _ => some record
  | .delete _ => none

def lsn : DurableOperation → Nat
  | .upsert record _ | .hydrate record _ => record.lsn
  | .delete lsn => lsn

/-- What is put is durable, and of the key. -/
def On (table key : String) (self : DurableOperation) : Prop :=
  ∀ record, self.record? = some record → record.table = table ∧ record.key = key ∧ isDurableRecord record = true

def apply (table key : String) (self : RecordHotState) : DurableOperation → RecordHotState
  | .upsert record evictLru => self.upsertInternal record evictLru
  | .hydrate record evictLru => self.hydrateDurable record evictLru
  | .delete lsn => self.deleteDurable table key lsn

def change (entry : HotEntry) (self : DurableOperation) : HotEntry :=
  match self.record? with
  | some record => entry.put record
  | none => entry.delete self.lsn

end DurableOperation

/-- The table is hot, has room for a record, and no access to it is later than the last. -/
def RecordHotState.IsHot (self : RecordHotState) (table : String) : Prop :=
  ∃ state, self.tables[table]? = some state ∧ state.maxItems ≠ some 0 ∧ ∀ key, state.access.getD key 0 ≤ self.accessSeq

/-- A record is shown only if no operation of a greater LSN was applied, and at the end what the
greatest left. -/
structure ShowsGreatest (table key : String) (s : RecordHotState)
    (operations : List DurableOperation) : Prop where
  always : ∀ before after, operations = before ++ after → ∀ shown,
    (before.foldl (DurableOperation.apply table key) s).get table key = some (some shown) →
      ∀ operation ∈ before, operation.lsn ≤ shown.lsn
  final : ∀ operation ∈ operations, (∀ other ∈ operations, other.lsn ≤ operation.lsn) →
    (operations.foldl (DurableOperation.apply table key) s).get table key = some operation.record?

namespace RecordHotState

variable {self : RecordHotState} {table key : String}

theorem getMut_eq {state : HotTable} (h : self.tables[table]? = some state)
    (f : HotTable → Nat → HotTable × Nat) :
    self.getMut table f = ⟨self.tables.insert table (f state self.accessSeq).1,
    (f state self.accessSeq).2⟩ := by
  rw [getMut, h]

theorem IsHot.upsertInternal (h : self.IsHot table) {record : DbRecord}
    (htable : record.table = table)
    (evictLru : Bool) : (self.upsertInternal record evictLru).IsHot table ∧
    (self.upsertInternal record evictLru).entry
    (table, record.key) = (self.entry (table, record.key)).map (HotEntry.put record) := by
  obtain ⟨state, hstate, hmax, haccess⟩ := h
  subst htable
  obtain ⟨put, hput⟩ : ∃ put, put = (HotTable.put record state self.accessSeq).1 := ⟨_, rfl⟩
  have hself : self.getMut record.table (HotTable.put record) = ⟨self.tables.insert record.table put,
      self.accessSeq + 1⟩ := hput ▸ getMut_eq hstate _
  have hmax' : put.maxItems ≠ some 0 := by
    rw [hput]
    unfold HotTable.put
    split <;> exact hmax
  have haccess' : ∀ key, put.access.getD key 0 =
      if record.key = key then self.accessSeq + 1 else state.access.getD key 0 := by
    intro key
    rw [hput]
    unfold HotTable.put
    split <;> simp [HotTable.mapTombstones, getD_insert]
  have hbound : ∀ key, put.access.getD key 0 ≤ self.accessSeq + 1 := by
    intro key
    rw [haccess']
    split
    · exact Nat.le_refl _
    · exact (haccess key).trans (Nat.le_succ _)
  have hentry := self.entry_put (record.table, record.key) record
  rw [if_pos rfl, hself] at hentry
  rw [RecordHotState.upsertInternal, hself]
  cases evictLru with
  | false => exact ⟨⟨put, by simp, hmax', hbound⟩, hentry⟩
  | true =>
    have hevicted := @getMut_eq ⟨self.tables.insert record.table put,
      self.accessSeq + 1⟩ record.table put (by simp) fun table accessSeq => (table.evictLru, accessSeq)
    refine ⟨hevicted ▸ ⟨put.evictLru,
      by simp, put.maxItems_evictLru ▸ hmax', fun key => (put.access_evictLru key).trans (hbound key)⟩, ?_⟩
    rw [← hentry]
    refine (congrArg (fun s => RecordHotState.entry s _) hevicted).trans ?_
    have hlast : put.evictLru.entry record.key = put.entry record.key := by
      refine HotTable.entry_evictLru hmax' fun other hother => ?_
      rw [haccess', haccess', if_pos rfl, if_neg (Ne.symm hother)]
      exact Nat.lt_succ_of_le (haccess other)
    simp [entry, hlast]

theorem IsHot.deleteDurable (h : self.IsHot table) (lsn : Nat) :
    (self.deleteDurable table key lsn).IsHot table := by
  obtain ⟨state, hstate, hmax, haccess⟩ := h
  rw [RecordHotState.deleteDurable, getMut_eq hstate]
  refine ⟨_, getElem?_insert_self, ?_⟩
  unfold HotTable.deleteDurable
  split
  · exact ⟨hmax, haccess⟩
  · exact ⟨hmax, fun other => (state.access_forget key other).trans (haccess other)⟩

/-- Each operation changes the entry of the key. -/
theorem IsHot.apply (h : self.IsHot table) {operation : DurableOperation}
    (hon : operation.On table key)
    {entry : HotEntry} (hentry : self.entry (table, key) = some entry) (hdurable : ∀ record,
    entry.1 = some record → isDurableRecord record = true) :
    (operation.apply table key self).IsHot table ∧
    (operation.apply table key self).entry (table, key) = some (operation.change entry) := by
  have hput : ∀ record evictLru, operation.record? = some record → (self.upsertInternal record evictLru).IsHot table ∧
        (self.upsertInternal record evictLru).entry (table, key) = some (entry.put record) := by
    intro record evictLru hrecord
    obtain ⟨htable, rfl, -⟩ := hon record hrecord
    obtain ⟨hhot, hchange⟩ := h.upsertInternal htable evictLru
    exact ⟨hhot, by rw [hchange, hentry, map_some]⟩
  cases operation with
  | upsert record evictLru => exact hput record evictLru rfl
  | hydrate record evictLru =>
    obtain ⟨htable, hkey, hrecord⟩ := hon record rfl
    have hget : (self.get record.table record.key).join = entry.1 := by
      rw [htable, hkey]
      obtain ⟨state, hstate, hsame⟩ := map_eq_some_iff.mp hentry
      rw [get, hstate, ← hsame]
      rfl
    have hkept : (self.get record.table record.key).join.any (fun existing => !isDurableRecord existing) = false := by
      rw [hget]
      cases hrecord' : entry.1 with
      | none => rfl
      | some existing => simp [hdurable existing hrecord']
    have happly : self.hydrateDurable record evictLru = self.upsertInternal record evictLru := by
      simp [hydrateDurable, hrecord, hkept]
    rw [DurableOperation.apply, happly]
    exact hput record evictLru rfl
  | delete lsn =>
    refine ⟨h.deleteDurable lsn, ?_⟩
    rw [DurableOperation.apply, entry_deleteDurable, if_pos rfl, hentry]
    rfl

end RecordHotState

/-! ## Stale rows -/

/-- No record is put after an operation of a greater LSN. -/
def InLsnOrder (operations : List DurableOperation) : Prop :=
  operations.Pairwise fun earlier later => later.record?.isSome → earlier.lsn < later.lsn

theorem DurableOperation.lsn_of_record? {self : DurableOperation} {record : DbRecord}
    (h : self.record? = some record) :
    record.lsn = self.lsn := by
  cases self <;> cases h <;> rfl

/-- The entry is what the operation of the greatest LSN left. -/
structure HotEntry.Latest (entry : HotEntry) (operations : List DurableOperation) : Prop where
  durable : ∀ record, entry.1 = some record → isDurableRecord record = true
  applied : ∀ record, entry.1 = some record → ∃ operation ∈ operations, operation.lsn = record.lsn
  greatest : ∀ record, entry.1 = some record → ∀ operation ∈ operations, operation.lsn ≤ record.lsn
  last : ∀ operation ∈ operations, (∀ other ∈ operations, other.lsn ≤ operation.lsn) → entry.1 = operation.record?

section
variable {table key : String} {entry : HotEntry} {operations : List DurableOperation}
    {operation : DurableOperation}

theorem HotEntry.latest_put {record : DbRecord} (hon : operation.On table key)
    (hrecord : operation.record? = some record)
    (hbelow : ∀ other ∈ operations, other.lsn < operation.lsn) :
    (entry.put record).Latest (operations ++ [operation]) := by
  have hlsn := DurableOperation.lsn_of_record? hrecord
  refine ⟨?_, ?_, ?_, fun other hother hall => ?_⟩
  · rintro _ ⟨⟩
    exact (hon record hrecord).2.2
  · rintro _ ⟨⟩
    exact ⟨operation, mem_append_right _ (mem_singleton_self _), hlsn.symm⟩
  · rintro _ ⟨⟩ other hother
    rcases mem_append.mp hother with hother | hother
    · exact hlsn ▸ (hbelow other hother).le
    · rw [mem_singleton.mp hother, hlsn]
  · rcases mem_append.mp hother with hother | hother
    · exact absurd (hall operation (mem_append_right _ (mem_singleton_self _))) (not_le.mpr (hbelow other hother))
    · rw [mem_singleton.mp hother, hrecord]
      rfl

theorem HotEntry.Latest.delete (h : entry.Latest operations)
    (hrecord : operation.record? = none)
    (hdistinct : ∀ other ∈ operations, other.lsn ≠ operation.lsn) :
    (entry.delete operation.lsn).Latest (operations ++ [operation]) := by
  unfold HotEntry.delete
  split
  · next hlater =>
    obtain ⟨record, hentry, hlater⟩ := (any_eq_true _ _).mp hlater
    have hlt : operation.lsn < record.lsn := of_decide_eq_true (Bool.and_eq_true_iff.mp hlater).2
    obtain ⟨earlier, hearlier, hsame⟩ := h.applied record hentry
    refine ⟨h.durable, fun r hr => ?_, fun r hr other hother => ?_, fun other hother hall => ?_⟩
    · exact (h.applied r hr).imp fun _ hmem => ⟨mem_append_left _ hmem.1, hmem.2⟩
    · rcases mem_append.mp hother with hother | hother
      · exact h.greatest r hr other hother
      · cases hentry.symm.trans hr
        exact mem_singleton.mp hother ▸ hlt.le
    · rcases mem_append.mp hother with hother | hother
      · exact h.last other hother fun o ho => hall o (mem_append_left _ ho)
      · have hle := hall earlier (mem_append_left _ hearlier)
        rw [mem_singleton.mp hother] at hle
        omega
  · next hkept =>
    refine ⟨(fun _ h => nomatch h), (fun _ h => nomatch h), (fun _ h => nomatch h), fun other hother hall => ?_⟩
    rcases mem_append.mp hother with hother | hother
    · have hlast := h.last other hother fun o ho => hall o (mem_append_left _ ho)
      cases hrecord' : other.record? with
      | none => rfl
      | some record =>
        -- Had the last word been a record, the deletion had left it.
        rw [hrecord'] at hlast
        have hle := hall operation (mem_append_right _ (mem_singleton_self _))
        have hne := hdistinct other hother
        have hlt : operation.lsn < record.lsn := by
          rw [DurableOperation.lsn_of_record? hrecord']
          omega
        exact absurd (by simp [hlast, h.durable record hlast, hlt]) hkept
    · rw [mem_singleton.mp hother, hrecord]

theorem latest_foldl (hon : ∀ operation ∈ operations, operation.On table key)
    (hnodup : (operations.map DurableOperation.lsn).Nodup) (horder : InLsnOrder operations) :
    (operations.foldl DurableOperation.change (none, none)).Latest operations := by
  induction operations using reverseRecOn with
  | nil => exact ⟨(fun _ h => nomatch h), (fun _ h => nomatch h), (fun _ h => nomatch h), fun _ h => nomatch h⟩
  | append_singleton operations operation ih =>
    rw [map_append, nodup_append] at hnodup
    obtain ⟨hnodup, -, hapart⟩ := hnodup
    obtain ⟨horder, -, hputs⟩ := pairwise_append.mp horder
    have hlatest := ih (fun o ho => hon o (mem_append_left _ ho)) hnodup horder
    have hlast : operation ∈ [operation] := mem_singleton_self _
    rw [foldl_append, foldl_cons, foldl_nil, DurableOperation.change]
    split
    · next record hrecord =>
      refine HotEntry.latest_put (hon operation (mem_append_right _ hlast)) hrecord fun other hother => ?_
      exact hputs other hother operation hlast (by rw [hrecord]; rfl)
    · next hrecord =>
      exact hlatest.delete hrecord fun other hother =>
        hapart _ (mem_map_of_mem hother) _ (mem_map_of_mem hlast)

theorem durable_change (hon : operation.On table key)
    (h : ∀ record, entry.1 = some record → isDurableRecord record = true) :
    ∀ record, (operation.change entry).1 = some record → isDurableRecord record = true := by
  intro record hrecord
  unfold DurableOperation.change at hrecord
  split at hrecord
  · next put hput =>
    cases hrecord
    exact (hon record hput).2.2
  · unfold HotEntry.delete at hrecord
    split at hrecord
    · exact h record hrecord
    · cases hrecord

variable {self : RecordHotState}

/-- A run of operations is one of the entry. -/
theorem RecordHotState.IsHot.foldl (h : self.IsHot table)
    (habsent : self.entry (table, key) = some (none, none))
    (hon : ∀ operation ∈ operations, operation.On table key) :
    (operations.foldl (DurableOperation.apply table key) self).IsHot table ∧
    (operations.foldl (DurableOperation.apply table key) self).entry (table, key) =
    some (operations.foldl DurableOperation.change (none, none)) ∧ ∀ record,
    (operations.foldl DurableOperation.change (none, none)).1 = some record →
    isDurableRecord record = true := by
  induction operations using reverseRecOn with
  | nil => exact ⟨h, habsent, fun _ h => nomatch h⟩
  | append_singleton operations operation ih =>
    have hlast := hon operation (mem_append_right _ (mem_singleton_self _))
    obtain ⟨hhot, hentry, hdurable⟩ := ih fun o ho => hon o (mem_append_left _ ho)
    simp only [foldl_append, foldl_cons, foldl_nil]
    obtain ⟨hhot', hentry'⟩ := hhot.apply hlast hentry hdurable
    exact ⟨hhot', hentry', durable_change hlast hdurable⟩

theorem RecordHotState.get_of_entry (h : self.entry (table, key) = some entry) :
    self.get table key = some entry.1 := by
  obtain ⟨state, hstate, rfl⟩ := map_eq_some_iff.mp h
  exact map_eq_some_iff.mpr ⟨state, hstate, rfl⟩

end

theorem shows_greatest_iff {self : RecordHotState} {table key : String}
    {operations : List DurableOperation}
    (hhot : self.IsHot table) (habsent : self.entry (table, key) = some (none, none))
    (hon : ∀ operation ∈ operations, operation.On table key)
    (hnodup : (operations.map DurableOperation.lsn).Nodup) :
    ShowsGreatest table key self operations ↔ InLsnOrder operations := by
  have hget : ∀ before after, operations = before ++ after →
      (before.foldl (DurableOperation.apply table key) self).get table key =
        some (before.foldl DurableOperation.change (none, none)).1 := by
    intro before after hsplit
    exact RecordHotState.get_of_entry (hhot.foldl habsent fun o ho => hon o (hsplit ▸ mem_append_left _ ho)).2.1
  constructor
  · intro h
    refine pairwise_iff_getElem.mpr fun i j hi hj hij hput => ?_
    obtain ⟨record, hrecord⟩ := isSome_iff_exists.mp hput
    have hsplit : operations = (operations.take j ++ [operations[j]]) ++ operations.drop (j + 1) := by
      rw [append_assoc, singleton_append, ← drop_eq_getElem_cons hj, take_append_drop]
    have hshown := hget _ _ hsplit
    rw [foldl_append (f := DurableOperation.change), foldl_cons, foldl_nil, DurableOperation.change, hrecord] at hshown
    have hmem : operations[i] ∈ operations.take j := mem_take_iff_getElem.mpr ⟨i, by omega, rfl⟩
    have hle := h.always _ _ hsplit record hshown _ (mem_append_left _ hmem)
    rw [DurableOperation.lsn_of_record? hrecord] at hle
    refine lt_of_le_of_ne hle fun hsame => ?_
    have hindex := (nodup_iff_getElem?_ne_getElem?.mp hnodup) i j hij (by simpa using hj)
    simp [hi, hj, hsame] at hindex
  · intro horder
    refine ⟨fun before after hsplit shown hshown operation hmem => ?_, fun operation hmem hall => ?_⟩
    · rw [hget before after hsplit] at hshown
      subst hsplit
      rw [map_append, nodup_append] at hnodup
      exact (latest_foldl (fun o ho => hon o (mem_append_left _ ho)) hnodup.1 (pairwise_append.mp horder).1).greatest
        shown (some.inj hshown) operation hmem
    · rw [hget operations [] (append_nil _).symm, (latest_foldl hon hnodup horder).last operation hmem hall]

section Sample

def note (lsn : Nat) : DbRecord := ⟨"notes", "a", ⟨.null, trivial⟩, 0, lsn, "tables/notes/a"⟩

def hotNotes : RecordHotState := ⟨Std.ExtTreeMap.insert ∅ "notes" ⟨none, ∅, ∅, ∅⟩, 0⟩

theorem hotNotes_isHot : hotNotes.IsHot "notes" :=
  ⟨_, getElem?_insert_self, (fun h => nomatch h), fun key => by simp⟩

theorem hotNotes_absent : hotNotes.entry ("notes", "a") = some (none, none) := by
  simp [RecordHotState.entry, HotTable.entry, hotNotes]

theorem on_notes {operation : DurableOperation}
    (h : operation ∈ [.delete 5, .hydrate (note 3) false]) :
    operation.On "notes" "a" := by
  rintro record hrecord
  rcases mem_pair.mp h with rfl | rfl
  · cases hrecord
  · cases hrecord
    exact ⟨rfl, rfl, by decide +kernel⟩

theorem shows_greatest_sample :
    ShowsGreatest "notes" "a" hotNotes [.hydrate (note 3) false, .delete 5] ↔
    InLsnOrder [.hydrate (note 3) false, .delete 5] :=
  shows_greatest_iff hotNotes_isHot hotNotes_absent (fun _ hmem => on_notes (mem_reverse.mp hmem)) (by decide)

/-- A row that is read before its deletion enters the cache after it, and is shown. -/
theorem stale_row_shown :
    ¬ ∀ (self : RecordHotState) (table key : String) (operations : List DurableOperation),
    self.IsHot table →
    self.entry (table, key) = some (none, none) →
    (∀ operation ∈ operations, operation.On table key) →
    (operations.map DurableOperation.lsn).Nodup → ShowsGreatest table key self operations := by
  intro hall
  have h := hall hotNotes "notes" "a" [.delete 5, .hydrate (note 3) false] hotNotes_isHot hotNotes_absent
    (fun _ => on_notes) (by decide)
  have hshown := RecordHotState.get_of_entry (hotNotes_isHot.foldl hotNotes_absent fun _ => on_notes).2.1
  have hle := h.always _ [] (append_nil _).symm (note 3) hshown (.delete 5) mem_cons_self
  exact absurd hle (by decide)

end Sample

end NextDb.Records
