import NextDb.Lib.Run
import NextDb.Records.ObjectRefs

/-!
# Counts and sums of a table

The registry keeps the keys of each table and, for the sums that were asked for, the number of each
record. Events of writes change both. A first request reads the projection page by page, without a
lock and behind the writes, and then adds the keys that it has read, or puts the numbers that it has
read in place of those that are there.

* `getElem?_next_passed`, `getElem?_next_reached`: a page leaves what was read before it, and has
  every row up to its last key.
* `Inv.step`: a key counts as its last write left it, or the event of that write is still to come,
  or a request that is still reading has it or is before it; and so for what the requests have read.
* `aggregates_equal`: where no event is published of a write that a request has read past, and no
  page is read with a row whose last write is published and not applied, the registry is equal to
  the table.
-/

namespace NextDb.Api.Aggregates

open Run List Option Function Std.ExtTreeMap

structure AggregateSumKey where
  table : String
  field : String
deriving DecidableEq

/-- Maps whose missing entries and empty entries are the same are functions. -/
structure AggregateInner (V : Type) where
  tableKeys : String → BTreeSet String
  hydratedTables : List String
  sumValues : AggregateSumKey → BTreeMap String V
  hydratedSums : List AggregateSumKey

/-- An upsert of a value, or a delete. -/
structure Write where
  table : String
  key : String
  value : Option Value

abbrev Tables := String → BTreeMap String Value

def Tables.apply (tables : Tables) (write : Write) : Tables :=
  Function.update tables write.table <| match write.value with
    | some value => (tables write.table).insert write.key value
    | none => (tables write.table).erase write.key

/-- A request that reads the projection, for the count of a table or for the sum of a field. -/
structure Hydration where
  table : String
  field : Option String
  afterKey : Option String
  /-- What was read, of which the keys or the numbers are taken. -/
  read : BTreeMap String Value
  done : Bool

/-- `records.list(table, after_key, Some(500))`. -/
def page (rows : BTreeMap String Value) (afterKey : Option String) : List (String × Value) :=
  (rows.toList.filter fun row => afterKey.all (· < row.1)).take 500

def Hydration.next (self : Hydration) (page : List (String × Value)) : Hydration :=
  { self with
    read := self.read.insertMany page
    afterKey := (page.getLast?.map Prod.fst).or self.afterKey
    done := decide (page.length < 500) }

/-- The request has read the page on which the key would be. -/
def Hydration.Passed (self : Hydration) (key : String) : Prop :=
  self.done = true ∨ ∃ after ∈ self.afterKey, key ≤ after

section

variable {V : Type} (numericFieldValue : Value → String → Option V)

/-- `collect_updates`, for one event. -/
def AggregateInner.apply (inner : AggregateInner V) (write : Write) : AggregateInner V :=
  { inner with
    tableKeys := Function.update inner.tableKeys write.table <|
      if write.value.isSome then (inner.tableKeys write.table).insert write.key
      else (inner.tableKeys write.table).erase write.key
    sumValues := fun key =>
      if key ∈ inner.hydratedSums ∧ key.table = write.table then
        match write.value.bind (numericFieldValue · key.field) with
        | some value => (inner.sumValues key).insert write.key value
        | none => (inner.sumValues key).erase write.key
      else inner.sumValues key }

def AggregateInner.hydrate (inner : AggregateInner V) (hydration : Hydration) : AggregateInner V :=
  match hydration.field with
  | none =>
    { inner with
      tableKeys := Function.update inner.tableKeys hydration.table
        ((inner.tableKeys hydration.table).insertMany hydration.read.keys)
      hydratedTables := inner.hydratedTables.insert hydration.table }
  | some field =>
    { inner with
      sumValues := fun key =>
        if key = ⟨hydration.table, field⟩ then hydration.read.filterMap fun _ value => numericFieldValue value field
        else inner.sumValues key
      hydratedSums := inner.hydratedSums.insert ⟨hydration.table, field⟩ }

def AggregateInner.tableCountIfHydrated (inner : AggregateInner V) (table : String) : Option Nat :=
  if table ∈ inner.hydratedTables then some (inner.tableKeys table).size else none

def AggregateInner.tableSumIfHydrated (sum : List V → V) (inner : AggregateInner V)
    (key : AggregateSumKey) : Option V :=
  if key ∈ inner.hydratedSums then some (sum (inner.sumValues key).values) else none

/-! ## Writers, the applier of the projection, and requests -/

/-- The registry, the projection, and what stands between a write and them. -/
structure ServerState (V : Type) where
  inner : AggregateInner V
  projection : Tables
  /-- The writes that the projection does not have yet. -/
  queue : List Write
  /-- The writes whose events are still to be published. -/
  pending : List Write
  hydrations : List Hydration

def ServerState.initial (projection : Tables) : ServerState V :=
  ⟨⟨fun _ => ∅, [], fun _ => ∅, []⟩, projection, [], [], []⟩

/-- A write, its event and its projection, and the reads of a first request. -/
inductive ServerEvent where
  | commit (write : Write)
  /-- An event is published; those of a transaction are one after the other. -/
  | publish (i : Nat)
  | apply
  | count (table : String)
  | sum (key : AggregateSumKey)
  | read (j : Nat)
  | finish (j : Nat)
  /-- The request fails, or its client is gone. -/
  | fail (j : Nat)

def step (s : ServerState V) : ServerEvent → Option (ServerState V)
  | .commit write => some { s with queue := s.queue ++ [write], pending := s.pending ++ [write] }
  | .publish i => do
    let write ← s.pending[i]?
    some { s with inner := s.inner.apply numericFieldValue write, pending := s.pending.eraseIdx i }
  | .apply => do
    let write ← s.queue.head?
    some { s with projection := s.projection.apply write, queue := s.queue.tail }
  | .count table =>
    if table ∈ s.inner.hydratedTables then some s
    else some { s with hydrations := s.hydrations ++ [⟨table, none, none, ∅, false⟩] }
  | .sum key =>
    if key ∈ s.inner.hydratedSums then some s
    else some { s with hydrations := s.hydrations ++ [⟨key.table, some key.field, none, ∅, false⟩] }
  | .read j => do
    let hydration ← s.hydrations[j]?
    if hydration.done then none
    else
      let read := page (s.projection hydration.table) hydration.afterKey
      some { s with hydrations := s.hydrations.set j (hydration.next read) }
  | .finish j => do
    let hydration ← s.hydrations[j]?
    if hydration.done then
      some { s with
        inner := s.inner.hydrate numericFieldValue hydration
        hydrations := s.hydrations.eraseIdx j }
    else none
  | .fail j => some { s with hydrations := s.hydrations.eraseIdx j }

/-! ## What the table is -/

/-- The records that there are after all writes. -/
def ServerState.rows (s : ServerState V) : Tables := s.queue.foldl Tables.apply s.projection

/-- An event of a write that leaves this of the record is still to be published. -/
def Owed (pending : List Write) (table key : String) (value : Option Value) : Prop :=
  ⟨table, key, value⟩ ∈ pending

/-- The request has read the record as this: the number of it or, for a count, no key of a record
that is deleted. -/
def Hydration.ReadsAs (self : Hydration) (key : String) (value : Option Value) : Prop :=
  match self.field with
  | none => key ∈ self.read → value.isSome = true
  | some field => (self.read[key]?).bind (numericFieldValue · field) = value.bind (numericFieldValue · field)

/-- An event that is published is of the last write of its record, and each request that has read
past the record has read it as that write left it; or the event of the last write is still to come.
A page reaches no record with a write that waits for the projection, unless the event of the last
write is still to come, or the page is for a count and the record was upserted. -/
def Meets (s : ServerState V) : ServerEvent → Prop
  | .publish i => ∀ write, s.pending[i]? = some write →
    Owed (s.pending.eraseIdx i) write.table write.key (s.rows write.table)[write.key]? ∨
    write.value = (s.rows write.table)[write.key]? ∧ ∀ hydration ∈ s.hydrations, hydration.table =
    write.table →
      hydration.Passed write.key → hydration.ReadsAs numericFieldValue write.key write.value
  | .read j => ∀ hydration, s.hydrations[j]? = some hydration → ∀ key, ¬ hydration.Passed key →
    (hydration.next (page (s.projection hydration.table) hydration.afterKey)).Passed key →
    (∀ write ∈ s.queue, ¬ (write.table = hydration.table ∧ write.key = key)) ∨
    Owed s.pending hydration.table key (s.rows hydration.table)[key]? ∨
    hydration.field = none ∧ key ∈ s.rows hydration.table
  | _ => True

end

variable {V : Type} {numericFieldValue : Value → String → Option V} {s t : ServerState V}
    {e : ServerEvent}
  {table key : String} {value : Option Value}

theorem getElem?_apply (tables : Tables) (write : Write) (table key : String) :
    (tables.apply write table)[key]? =
    if write.table = table ∧ write.key = key then write.value else (tables table)[key]? := by
  unfold Tables.apply
  by_cases htable : write.table = table
  · subst htable
    rw [update_self]
    cases hvalue : write.value with
    | none => simp [getElem?_erase]
    | some value => simp [Std.ExtTreeMap.getElem?_insert]
  · rw [update_of_ne (Ne.symm htable), if_neg fun h => htable h.1]

theorem mem_tableKeys_apply (inner : AggregateInner V) (write : Write) (table key : String) :
    key ∈ (inner.apply numericFieldValue write).tableKeys table ↔
    if write.table = table ∧ write.key = key then write.value.isSome = true else key ∈
    inner.tableKeys table := by
  by_cases htable : write.table = table
  · subst htable
    by_cases hkey : write.key = key <;> cases hvalue : write.value <;> simp [AggregateInner.apply, hkey, hvalue]
  · simp [AggregateInner.apply, htable, Ne.symm htable]

theorem getElem?_sumValues_apply (inner : AggregateInner V)
    (write : Write) {field : String} (h : ⟨table, field⟩ ∈ inner.hydratedSums) (key : String) :
    ((inner.apply numericFieldValue write).sumValues ⟨table, field⟩)[key]? = if write.table =
    table ∧
    write.key = key then write.value.bind (numericFieldValue · field) else (inner.sumValues ⟨table,
    field⟩)[key]? := by
  by_cases htable : write.table = table
  · subst htable
    cases hvalue : write.value.bind (numericFieldValue · field) with
    | none => simp [AggregateInner.apply, h, hvalue, getElem?_erase]
    | some value => simp [AggregateInner.apply, h, hvalue, Std.ExtTreeMap.getElem?_insert]
  · simp [AggregateInner.apply, htable, Ne.symm htable]

theorem rows_of_unwritten (h : ∀ write ∈ s.queue, ¬ (write.table = table ∧ write.key = key)) :
    (s.rows table)[key]? = (s.projection table)[key]? := by
  unfold ServerState.rows
  generalize s.projection = tables
  generalize s.queue = queue at h
  induction queue generalizing tables with
  | nil => rfl
  | cons write queue ih =>
    obtain ⟨hwrite, h⟩ := forall_mem_cons.mp h
    rw [foldl_cons, ih _ h, getElem?_apply, if_neg hwrite]

theorem Owed.eraseIdx {pending : List Write} (h : Owed pending table key value)
    {i : Nat} {write : Write} (hi : pending[i]? = some write)
    (hne : ¬ (write.table = table ∧ write.key = key)) :
    Owed (pending.eraseIdx i) table key value := by
  refine mem_eraseIdx_iff_getElem?.mpr ?_
  obtain ⟨j, hj⟩ := mem_iff_getElem?.mp h
  refine ⟨j, ?_, hj⟩
  rintro rfl
  cases hi.symm.trans hj
  exact hne ⟨rfl, rfl⟩

/-! ## Pages -/

section Pages

variable {rows : BTreeMap String Value} {afterKey : Option String}

theorem page_ascending : (page rows afterKey).Pairwise fun a b => a.1 < b.1 :=
  ((rows.ordered_keys_toList.imp fun hlt => compare_lt_iff_lt.mp hlt).filter _).sublist (take_sublist ..)

theorem mem_page {row : String × Value} (h : row ∈ page rows afterKey) :
    rows[row.1]? = some row.2 ∧ ∀ after ∈ afterKey, after < row.1 := by
  obtain ⟨hrow, hafter⟩ := mem_filter.mp (mem_of_mem_take h)
  refine ⟨mem_toList_iff_getElem?_eq_some.mp hrow, fun after hmem => ?_⟩
  obtain rfl : afterKey = some after := hmem
  exact of_decide_eq_true hafter

/-- A row is on the page, or behind one that is full. -/
theorem mem_page_of_row {value : Value} (hrow : rows[key]? = some value)
    (hafter : ∀ after ∈ afterKey, after < key) :
    (key, value) ∈ page rows afterKey ∨
    (page rows afterKey).length = 500 ∧ ∀ last ∈ (page rows afterKey).getLast?, last.1 < key := by
  have hlisted : (key, value) ∈ rows.toList.filter fun row => afterKey.all (· < row.1) := by
    refine mem_filter.mpr ⟨mem_toList_iff_getElem?_eq_some.mpr hrow, ?_⟩
    cases afterKey with
    | none => rfl
    | some after => exact decide_eq_true (hafter after rfl)
  have hasc := (rows.ordered_keys_toList.imp fun hlt => compare_lt_iff_lt.mp hlt).filter
    (fun row => afterKey.all (· < row.1))
  unfold page
  generalize rows.toList.filter _ = listed at hlisted hasc
  rw [← take_append_drop 500 listed] at hlisted hasc
  refine (mem_append.mp hlisted).imp_right fun hdrop => ⟨?_, fun last hlast => ?_⟩
  · have hlong : 500 < listed.length := by
      by_contra hshort
      rw [drop_eq_nil_of_le (Nat.not_lt.mp hshort)] at hdrop
      cases hdrop
    rw [length_take, min_eq_left hlong.le]
  · exact (pairwise_append.mp hasc).2.2 last (mem_of_getLast? hlast) _ hdrop

variable {hydration : Hydration}

theorem mem_read_next {rows : List (String × Value)} :
    key ∈ (hydration.next rows).read ↔ key ∈ hydration.read ∨ key ∈ rows.map Prod.fst := by
  simp [Hydration.next]

/-- A page gets past its keys. -/
theorem passed_of_mem_page (h : key ∈ (page rows afterKey).map Prod.fst) :
    (hydration.next (page rows afterKey)).Passed key := by
  obtain ⟨row, hrow, rfl⟩ := mem_map.mp h
  obtain ⟨last, hlast⟩ : ∃ last, (page rows afterKey).getLast? = some last :=
    isSome_iff_exists.mp (by simpa using ne_nil_of_mem hrow)
  refine .inr ⟨last.1, by simp [Hydration.next, hlast], ?_⟩
  obtain ⟨init, hinit⟩ := getLast?_eq_some_iff.mp hlast
  have hasc : (init ++ [last]).Pairwise fun a b => a.1 < b.1 := hinit ▸ page_ascending
  rw [hinit] at hrow
  rcases mem_append.mp hrow with hrow | hrow
  · exact ((pairwise_append.mp hasc).2.2 row hrow last (mem_singleton_self _)).le
  · exact (mem_singleton.mp hrow) ▸ le_refl _

theorem Hydration.Passed.next (h : hydration.Passed key) (hdone : hydration.done = false) :
    (hydration.next (page rows hydration.afterKey)).Passed key := by
  obtain ⟨after, hafter, hle⟩ := h.resolve_left (by simp [hdone])
  cases hlast : (page rows hydration.afterKey).getLast? with
  | none => exact .inr ⟨after, by simpa [Hydration.next, hlast] using hafter, hle⟩
  | some last =>
    exact .inr ⟨last.1, by simp [Hydration.next, hlast],
      hle.trans ((mem_page (mem_of_getLast? hlast)).2 after hafter).le⟩

/-- A page leaves what was read before it. -/
theorem getElem?_next_passed (h : hydration.Passed key) (hdone : hydration.done = false) :
    (hydration.next (page rows hydration.afterKey)).read[key]? = hydration.read[key]? := by
  obtain ⟨after, hafter, hle⟩ := h.resolve_left (by simp [hdone])
  refine getElem?_insertMany_list_of_contains_eq_false ?_
  by_contra hmem
  obtain ⟨row, hrow, rfl⟩ : ∃ row ∈ page rows hydration.afterKey, row.1 = key := by simpa using hmem
  exact absurd ((mem_page hrow).2 after hafter) (not_lt.mpr hle)

/-- A page has every row that it reaches. -/
theorem getElem?_next_reached (h : ¬ hydration.Passed key) (hread : key ∉ hydration.read)
    (hnext : (hydration.next (page rows hydration.afterKey)).Passed key) :
    (hydration.next (page rows hydration.afterKey)).read[key]? = rows[key]? := by
  cases hrow : rows[key]? with
  | none =>
    refine Std.ExtTreeMap.getElem?_eq_none fun hmem => ?_
    obtain ⟨row, hpage, rfl⟩ := mem_map.mp ((mem_read_next.mp hmem).resolve_left hread)
    cases hrow.symm.trans (mem_page hpage).1
  | some value =>
    have hafter : ∀ after ∈ hydration.afterKey, after < key :=
      fun after hmem => not_le.mp fun hle => h (.inr ⟨after, hmem, hle⟩)
    rcases mem_page_of_row hrow hafter with hmem | ⟨hfull, hbehind⟩
    · exact getElem?_insertMany_list_of_mem (compare_eq_iff_eq.mpr rfl)
        (page_ascending.imp fun hlt heq => hlt.ne (compare_eq_iff_eq.mp heq)) hmem
    · obtain ⟨last, hlast⟩ : ∃ last, (page rows hydration.afterKey).getLast? = some last :=
        isSome_iff_exists.mp (by simpa using ne_nil_of_length_pos (by omega))
      have hdone : (hydration.next (page rows hydration.afterKey)).done = false := by simp [Hydration.next, hfull]
      obtain ⟨after, hlast', hle⟩ := hnext.resolve_left (by simp [hdone])
      simp only [Hydration.next, hlast, map_some, some_or, mem_def, some.injEq] at hlast'
      exact absurd (hlast' ▸ hbehind last hlast) (not_lt.mpr hle)

theorem Hydration.ReadsAs.of_read (h : hydration.read[key]? = value) :
    hydration.ReadsAs numericFieldValue key value := by
  unfold ReadsAs
  cases hydration.field with
  | none => exact fun hmem => h ▸ mem_iff_isSome_getElem?.mp hmem
  | some field => exact h ▸ rfl

theorem Hydration.ReadsAs.congr {other : Hydration}
    (h : hydration.ReadsAs numericFieldValue key value)
    (hfield : other.field = hydration.field) (hread : other.read[key]? = hydration.read[key]?) :
    other.ReadsAs numericFieldValue key value := by
  simpa only [ReadsAs, mem_iff_isSome_getElem?, hfield, hread] using h

end Pages

/-! ## Runs -/

/-- The record was there before the first write, and every request for the count that gets past it
has it. -/
structure Waits (s : ServerState V) (table key : String) : Prop where
  isRow : key ∈ s.rows table
  unhydrated : table ∉ s.inner.hydratedTables
  unwritten : ∀ write ∈ s.queue, ¬ (write.table = table ∧ write.key = key)
  reads : ∀ hydration ∈ s.hydrations, hydration.table = table → hydration.field = none → hydration.Passed key →
    key ∈ hydration.read

/-- What the registry and the requests have of a record, where the event of its last write is not
still to come. -/
structure Inv (numericFieldValue : Value → String → Option V) (s : ServerState V) : Prop where
  keys : ∀ table key, Owed s.pending table key (s.rows table)[key]? ∨
    (key ∈ s.inner.tableKeys table ↔ key ∈ s.rows table) ∨ Waits s table key
  sums : ∀ table field key, ⟨table, field⟩ ∈ s.inner.hydratedSums → Owed s.pending table key (s.rows table)[key]? ∨
    (s.inner.sumValues ⟨table, field⟩)[key]? = ((s.rows table)[key]?).bind (numericFieldValue · field)
  passed : ∀ hydration ∈ s.hydrations, ∀ key ∈ hydration.read, hydration.Passed key
  reads : ∀ hydration ∈ s.hydrations, ∀ key, hydration.Passed key →
    Owed s.pending hydration.table key (s.rows hydration.table)[key]? ∨
    hydration.ReadsAs numericFieldValue key (s.rows hydration.table)[key]?

/-- A request changes the keys of the table that it counts. -/
theorem hydrate_other (numericFieldValue : Value → String → Option V) (inner : AggregateInner V)
    {hydration : Hydration} (h : ¬ (hydration.field = none ∧ hydration.table = table)) :
    (inner.hydrate numericFieldValue hydration).tableKeys table = inner.tableKeys table ∧
    (table ∈ (inner.hydrate numericFieldValue hydration).hydratedTables ↔
    table ∈ inner.hydratedTables) := by
  cases hfield : hydration.field with
  | none =>
    have hne : table ≠ hydration.table := fun htable => h ⟨hfield, htable.symm⟩
    simp [AggregateInner.hydrate, hfield, hne]
  | some field => simp [AggregateInner.hydrate, hfield]

/-- A request changes the numbers of the field that it sums. -/
theorem hydrate_otherSum (numericFieldValue : Value → String → Option V) (inner : AggregateInner V)
    {hydration : Hydration} {field : String}
    (h : ¬ (hydration.field = some field ∧ hydration.table = table)) :
    (inner.hydrate numericFieldValue hydration).sumValues ⟨table, field⟩ =
    inner.sumValues ⟨table, field⟩ ∧
    (⟨table, field⟩ ∈ (inner.hydrate numericFieldValue hydration).hydratedSums ↔
      ⟨table, field⟩ ∈ inner.hydratedSums) := by
  cases hsum : hydration.field with
  | none => simp [AggregateInner.hydrate, hsum]
  | some field' =>
    have hne : (⟨table, field⟩ : AggregateSumKey) ≠ ⟨hydration.table, field'⟩ := by
      rintro ⟨⟩
      exact h ⟨hsum, rfl⟩
    simp [AggregateInner.hydrate, hsum, hne]

theorem mem_iff_of_getElem? {rows : BTreeMap String Value} (h : rows[key]? = value) :
    key ∈ rows ↔ value.isSome = true := by
  rw [mem_iff_isSome_getElem?, h]

section
variable (h : Inv numericFieldValue s)
include h

theorem Inv.commit (write : Write) :
    Inv numericFieldValue { s with queue := s.queue ++ [write], pending := s.pending ++ [write] } := by
  have hrows : ServerState.rows { s with queue := s.queue ++ [write], pending := s.pending ++ [write] } =
      s.rows.apply write := foldl_concat ..
  have howed : ∀ {table key} {p : Option Value → Prop}, (Owed s.pending table key (s.rows table)[key]? ∨
      p (s.rows table)[key]?) → Owed (s.pending ++ [write]) table key (s.rows.apply write table)[key]? ∨
      p (s.rows.apply write table)[key]? := by
    intro table key p hold
    rw [getElem?_apply]
    split_ifs with hplace
    · obtain ⟨rfl, rfl⟩ := hplace
      exact .inl (mem_append_right _ (mem_singleton_self _))
    · exact hold.imp_left (mem_append_left _)
  refine ⟨fun table key => ?_, fun table field key hfield => ?_, h.passed, fun hydration hmem key hpassed => ?_⟩
  · rw [hrows, mem_iff_of_getElem? rfl, getElem?_apply]
    split_ifs with hplace
    · obtain ⟨rfl, rfl⟩ := hplace
      exact .inl (mem_append_right _ (mem_singleton_self _))
    · rw [← mem_iff_of_getElem? rfl]
      refine (h.keys table key).imp (mem_append_left _) (Or.imp_right fun hwaits => ?_)
      refine ⟨?_, hwaits.unhydrated, fun other hother => ?_, hwaits.reads⟩
      · rw [hrows, mem_iff_of_getElem? rfl, getElem?_apply, if_neg hplace]
        exact (mem_iff_of_getElem? rfl).mp hwaits.isRow
      · rcases mem_append.mp hother with hother | hother
        · exact hwaits.unwritten other hother
        · exact mem_singleton.mp hother ▸ hplace
  · rw [hrows]
    exact howed (p := fun value => (s.inner.sumValues ⟨table, field⟩)[key]? = value.bind (numericFieldValue · field))
      (h.sums table field key hfield)
  · rw [hrows]
    exact howed (h.reads hydration hmem key hpassed)

theorem Inv.publish {i : Nat} {write : Write}
    (hi : s.pending[i]? = some write) (hmeets : Meets numericFieldValue s (.publish i)) :
    Inv numericFieldValue
    { s with inner := s.inner.apply numericFieldValue write, pending := s.pending.eraseIdx i } := by
  have hmeets := hmeets write hi
  refine ⟨fun table key => ?_, fun table field key hfield => ?_, h.passed, fun hydration hmem key hpassed => ?_⟩
  · change Owed (s.pending.eraseIdx i) table key (s.rows table)[key]? ∨ _
    by_cases hplace : write.table = table ∧ write.key = key
    · obtain ⟨rfl, rfl⟩ := hplace
      refine hmeets.imp_right fun ⟨hlast, _⟩ => .inl ((mem_tableKeys_apply ..).trans ?_)
      rw [if_pos ⟨rfl, rfl⟩]
      exact (mem_iff_of_getElem? hlast.symm).symm
    · refine (h.keys table key).imp (Owed.eraseIdx · hi hplace) (Or.imp (fun hiff => ?_) fun hwaits => ?_)
      · refine (mem_tableKeys_apply ..).trans ?_
        rwa [if_neg hplace]
      · exact ⟨hwaits.isRow, hwaits.unhydrated, hwaits.unwritten, hwaits.reads⟩
  · change Owed (s.pending.eraseIdx i) table key (s.rows table)[key]? ∨ _
    by_cases hplace : write.table = table ∧ write.key = key
    · obtain ⟨rfl, rfl⟩ := hplace
      refine hmeets.imp_right fun ⟨hlast, _⟩ => (getElem?_sumValues_apply s.inner write hfield _).trans ?_
      rw [if_pos ⟨rfl, rfl⟩, hlast]
      rfl
    · refine (h.sums table field key hfield).imp (Owed.eraseIdx · hi hplace) fun hsum => ?_
      refine (getElem?_sumValues_apply s.inner write hfield _).trans ?_
      rw [if_neg hplace]
      exact hsum
  · change Owed (s.pending.eraseIdx i) hydration.table key (s.rows hydration.table)[key]? ∨
      hydration.ReadsAs numericFieldValue key (s.rows hydration.table)[key]?
    by_cases hplace : write.table = hydration.table ∧ write.key = key
    · obtain ⟨htable, rfl⟩ := hplace
      rw [← htable]
      exact hmeets.imp_right fun ⟨hlast, hreads⟩ => hlast ▸ hreads hydration hmem htable.symm hpassed
    · exact (h.reads hydration hmem key hpassed).imp_left (Owed.eraseIdx · hi hplace)

/-- Requests go on that have read the tables. -/
theorem Inv.reading (hydrations : List Hydration)
    (hold : ∀ hydration ∈ hydrations, hydration ∈ s.hydrations ∨
    (∀ key ∈ hydration.read, hydration.Passed key) ∧ ∀ key, hydration.Passed key →
    (Owed s.pending hydration.table key (s.rows hydration.table)[key]? ∨
      hydration.ReadsAs numericFieldValue key (s.rows hydration.table)[key]?) ∧
    (Waits s hydration.table key → hydration.field = none → key ∈ hydration.read)) :
    Inv numericFieldValue { s with hydrations } := by
  refine ⟨fun table key => (h.keys table key).imp_right (Or.imp_right fun hwaits => ?_), h.sums,
    fun hydration hmem => ?_, fun hydration hmem => ?_⟩
  · refine ⟨hwaits.isRow, hwaits.unhydrated, hwaits.unwritten, fun hydration hmem htable hfield hpassed => ?_⟩
    rcases hold hydration hmem with hmem | ⟨-, hreads⟩
    · exact hwaits.reads hydration hmem htable hfield hpassed
    · exact (hreads key hpassed).2 (htable ▸ hwaits) hfield
  · rcases hold hydration hmem with hmem | ⟨hpassed, -⟩
    · exact h.passed hydration hmem
    · exact hpassed
  · rcases hold hydration hmem with hmem | ⟨-, hreads⟩
    · exact h.reads hydration hmem
    · exact fun key hpassed => (hreads key hpassed).1

/-- A request reads the next page: what it reaches is what the writes left, or what is still to come
tells. -/
theorem Inv.read {j : Nat} {hydration : Hydration} (hj : s.hydrations[j]? = some hydration)
    (hdone : hydration.done = false) (hmeets : Meets numericFieldValue s (.read j)) :
    Inv numericFieldValue { s with
    hydrations := s.hydrations.set j (hydration.next (page (s.projection hydration.table) hydration.afterKey)) } := by
  refine h.reading _ fun other hmem => (mem_or_eq_of_mem_set hmem).imp_right ?_
  rintro rfl
  have hmem := mem_of_getElem? hj
  refine ⟨fun key hread => ?_, fun key hpassed => ?_⟩
  · rcases mem_read_next.mp hread with hread | hread
    · exact (h.passed hydration hmem key hread).next hdone
    · exact passed_of_mem_page hread
  by_cases hbefore : hydration.Passed key
  · refine ⟨(h.reads hydration hmem key hbefore).imp_right fun hreads => ?_, fun hwaits hfield => ?_⟩
    · exact hreads.congr rfl (getElem?_next_passed hbefore hdone)
    · exact mem_read_next.mpr (.inl (hwaits.reads hydration hmem rfl hfield hbefore))
  · have hread : key ∉ hydration.read := fun hread => hbefore (h.passed hydration hmem key hread)
    have hrow := getElem?_next_reached hbefore hread hpassed
    refine ⟨?_, fun hwaits _ => ?_⟩
    · rcases hmeets hydration hj key hbefore hpassed with hunwritten | howed | ⟨hcount, hkey⟩
      · exact .inr (.of_read (hrow.trans (rows_of_unwritten hunwritten).symm))
      · exact .inl howed
      · refine .inr ?_
        simp only [Hydration.ReadsAs, Hydration.next, hcount]
        exact fun _ => (mem_iff_of_getElem? rfl).mp hkey
    · have hunwritten : (s.rows hydration.table)[key]? = (s.projection hydration.table)[key]? :=
        rows_of_unwritten hwaits.unwritten
      rw [mem_iff_of_getElem? hrow, ← hunwritten]
      exact (mem_iff_of_getElem? rfl).mp hwaits.isRow

/-- A request ends: it has read past every record. -/
theorem Inv.finish {j : Nat} {hydration : Hydration} (hj : s.hydrations[j]? = some hydration)
    (hdone : hydration.done = true) : Inv numericFieldValue
    { s with inner := s.inner.hydrate numericFieldValue hydration, hydrations := s.hydrations.eraseIdx j } := by
  have hmem := mem_of_getElem? hj
  have hread := fun key => h.reads hydration hmem key (.inl hdone)
  refine ⟨fun table key => ?_, fun table field key hfield => ?_,
    fun other hother => h.passed other (mem_of_mem_eraseIdx hother),
    fun other hother => h.reads other (mem_of_mem_eraseIdx hother)⟩
  · change Owed s.pending table key (s.rows table)[key]? ∨ _
    by_cases hcount : hydration.field = none ∧ hydration.table = table
    · obtain ⟨hfield, rfl⟩ := hcount
      rcases hread key with howed | hreads
      · exact .inl howed
      refine (h.keys hydration.table key).imp_right fun hkeys => .inl ?_
      simp only [Hydration.ReadsAs, hfield] at hreads
      have hkeys' : key ∈ (s.inner.hydrate numericFieldValue hydration).tableKeys hydration.table ↔
          key ∈ s.inner.tableKeys hydration.table ∨ key ∈ hydration.read := by
        simp [AggregateInner.hydrate, hfield]
      have hrow : key ∈ hydration.read → key ∈ s.rows hydration.table :=
        fun hmem => (mem_iff_of_getElem? rfl).mpr (hreads hmem)
      rw [hkeys']
      rcases hkeys with hiff | hwaits
      · exact ⟨fun hmem => hmem.elim hiff.mp hrow, fun hmem => .inl (hiff.mpr hmem)⟩
      · exact ⟨fun _ => hwaits.isRow, fun _ => .inr (hwaits.reads hydration hmem rfl hfield (.inl hdone))⟩
    · obtain ⟨hkeys, htables⟩ := hydrate_other numericFieldValue s.inner hcount
      refine (h.keys table key).imp_right (Or.imp (fun hiff => hkeys ▸ hiff) fun hwaits => ?_)
      exact ⟨hwaits.isRow, fun hmem => hwaits.unhydrated (htables.mp hmem), hwaits.unwritten,
        fun other hother => hwaits.reads other (mem_of_mem_eraseIdx hother)⟩
  · change Owed s.pending table key (s.rows table)[key]? ∨ _
    by_cases hsame : hydration.field = some field ∧ hydration.table = table
    · obtain ⟨hsum, rfl⟩ := hsame
      refine (hread key).imp_right fun hreads => ?_
      have hvalues : (s.inner.hydrate numericFieldValue hydration).sumValues ⟨hydration.table, field⟩ =
          hydration.read.filterMap fun _ value => numericFieldValue value field := by
        simp [AggregateInner.hydrate, hsum]
      simp only [Hydration.ReadsAs, hsum] at hreads
      rw [hvalues, getElem?_filterMap']
      exact hreads
    · obtain ⟨hsums, hfields⟩ := hydrate_otherSum numericFieldValue s.inner hsame
      rw [hsums]
      exact h.sums table field key (hfields.mp hfield)

theorem Inv.step (hmeets : Meets numericFieldValue s e)
    (hstep : step numericFieldValue s e = some t) :
    Inv numericFieldValue t := by
  have hstart : ∀ (table : String) (field : Option String),
      Inv numericFieldValue { s with hydrations := s.hydrations ++ [⟨table, field, none, ∅, false⟩] } := by
    refine fun table field => h.reading _ fun hydration hmem => (mem_append.mp hmem).imp_right fun hmem => ?_
    obtain rfl := mem_singleton.mp hmem
    refine ⟨fun key hread => absurd hread Std.ExtTreeMap.not_mem_empty, fun key hpassed => ?_⟩
    obtain ⟨after, hafter, -⟩ := hpassed.resolve_left Bool.false_ne_true
    cases hafter
  cases e with
  | commit write =>
    cases hstep
    exact h.commit write
  | publish i =>
    obtain ⟨write, hi, hstep⟩ := bind_eq_some_iff.mp hstep
    cases hstep
    exact h.publish hi hmeets
  | apply =>
    obtain ⟨write, hhead, hstep⟩ := bind_eq_some_iff.mp hstep
    cases hstep
    obtain ⟨queue, hqueue⟩ := head?_eq_some_iff.mp hhead
    have hrows : ServerState.rows { s with projection := s.projection.apply write, queue := s.queue.tail } = s.rows := by
      simp [ServerState.rows, hqueue]
    refine ⟨fun table key => ?_, fun table field key hfield => ?_, h.passed, fun hydration hmem key hpassed => ?_⟩
    · rw [hrows]
      refine (h.keys table key).imp_right (Or.imp_right fun hwaits => ?_)
      exact ⟨hrows ▸ hwaits.isRow, hwaits.unhydrated, fun other hother =>
        hwaits.unwritten other (mem_of_mem_tail hother), hwaits.reads⟩
    · rw [hrows]
      exact h.sums table field key hfield
    · rw [hrows]
      exact h.reads hydration hmem key hpassed
  | count table =>
    simp only [Aggregates.step] at hstep
    split at hstep
    · exact some.inj hstep ▸ h
    · exact some.inj hstep ▸ hstart table none
  | sum key =>
    simp only [Aggregates.step] at hstep
    split at hstep
    · exact some.inj hstep ▸ h
    · exact some.inj hstep ▸ hstart key.table (some key.field)
  | read j =>
    obtain ⟨hydration, hj, hstep⟩ := bind_eq_some_iff.mp hstep
    split_ifs at hstep with hdone
    cases hstep
    exact h.read hj (by simpa using hdone) hmeets
  | finish j =>
    obtain ⟨hydration, hj, hstep⟩ := bind_eq_some_iff.mp hstep
    split_ifs at hstep with hdone
    cases hstep
    exact h.finish hj hdone
  | fail j =>
    cases hstep
    exact h.reading _ fun hydration hmem => .inl (mem_of_mem_eraseIdx hmem)

end

theorem inv_initial (projection : Tables) : Inv numericFieldValue (.initial projection) := by
  refine ⟨fun table key => .inr ?_, nofun, nofun, nofun⟩
  by_cases hkey : key ∈ projection table
  · exact .inr ⟨hkey, not_mem_nil, nofun, nofun⟩
  · exact .inl (iff_of_false Std.ExtTreeSet.not_mem_empty hkey)

theorem size_eq_of_mem_iff {keys : BTreeSet String} {rows : BTreeMap String Value}
    (h : ∀ key, key ∈ keys ↔ key ∈ rows) : keys.size = rows.size := by
  have hkeys : keys.toList.Nodup := keys.distinct_toList.imp fun hne he => hne (compare_eq_iff_eq.mpr he)
  have hrows : rows.keys.Nodup := rows.distinct_keys.imp fun hne he => hne (compare_eq_iff_eq.mpr he)
  rw [← Std.ExtTreeSet.length_toList, ← length_keys]
  exact ((perm_ext_iff_of_nodup hkeys hrows).mpr fun key => by simp [h]).length_eq

/-- Where no request has read past a record behind which its event is published, nor reads a row
whose event is published and not applied, the counts and the sums of the registry are those of the
tables whenever no event is to come. -/
theorem aggregates_equal (numericFieldValue : Value → String → Option V) (projection : Tables)
    {s : ServerState V}
    (h : Reaches (fun s e t => step numericFieldValue s e = some t) (Meets numericFieldValue) (.initial projection) s)
    (hpending : s.pending = []) (sum : List V → V) :
    (∀ table ∈ s.inner.hydratedTables,
    s.inner.tableCountIfHydrated table = some (s.rows table).size) ∧
    ∀ key ∈ s.inner.hydratedSums, s.inner.tableSumIfHydrated sum key =
    some (sum ((s.rows key.table).filterMap fun _ value => numericFieldValue value key.field).values) := by
  have hinv : Inv numericFieldValue s := h.invariant (I := Inv numericFieldValue)
    (fun _ _ _ hs hmeets hstep => hs.step hmeets hstep) (inv_initial projection)
  have hnone : ∀ {table key value}, ¬ Owed s.pending table key value := by simp [Owed, hpending]
  refine ⟨fun table htable => ?_, fun key hkey => ?_⟩
  · rw [AggregateInner.tableCountIfHydrated, if_pos htable, size_eq_of_mem_iff fun key => ?_]
    exact ((hinv.keys table key).resolve_left hnone).resolve_right fun hwaits => hwaits.unhydrated htable
  · rw [AggregateInner.tableSumIfHydrated, if_pos hkey]
    congr 3
    refine ext_getElem? fun name => ?_
    rw [getElem?_filterMap']
    exact (hinv.sums key.table key.field name hkey).resolve_left hnone

section Sample

def numbered (n : UInt64) : Value where
  json := .object [("n", .number (.posInt n))]
  wellFormed := ⟨pairwise_singleton _ _, trivial, trivial⟩

/-- `numeric_field_value`, on whole numbers. -/
def wholeNumber (value : Value) (field : String) : Option Nat :=
  do (← (← value.json.asObject).lookup field).asU64

def twoNotes : Tables := fun table =>
  if table = "notes" then ((∅ : BTreeMap String Value).insert "a" (numbered 1)).insert "b" (numbered 2) else ∅

abbrev Runs (meets : ServerState Nat → ServerEvent → Prop) :=
  Reaches (fun s e t => step wholeNumber s e = some t) meets (.initial twoNotes)

def unread : AggregateInner Nat := ⟨fun _ => ∅, [], fun _ => ∅, []⟩

def summing : Hydration := ⟨"notes", some "n", none, ∅, false⟩

def counting : Hydration := ⟨"notes", none, none, ∅, false⟩

def bIsFive : Write := ⟨"notes", "b", some (numbered 5)⟩

def aIsDeleted : Write := ⟨"notes", "a", none⟩

/-- The request has read all notes. -/
def allRead (hydration : Hydration) (projection : Tables) : Hydration :=
  hydration.next (page (projection "notes") none)

/-- Two requests have read the notes, and an event of a write was published between their pages. -/
def bothRead : ServerState Nat :=
  ⟨unread.apply wholeNumber bIsFive, twoNotes.apply bIsFive, [], [],
    [allRead summing (twoNotes.apply bIsFive), allRead counting (twoNotes.apply bIsFive)]⟩

theorem reaches_bothRead : Runs (Meets wholeNumber) bothRead := by
  have hsum : Runs (Meets wholeNumber) ⟨unread, twoNotes, [], [], [summing]⟩ :=
    (Reaches.refl _).take (e := .sum ⟨"notes", "n"⟩) rfl trivial
  have hcount : Runs (Meets wholeNumber) ⟨unread, twoNotes, [], [], [summing, counting]⟩ :=
    hsum.take (e := .count "notes") rfl trivial
  have hcommit : Runs (Meets wholeNumber) ⟨unread, twoNotes, [bIsFive], [bIsFive], [summing, counting]⟩ :=
    hcount.take (e := .commit bIsFive) rfl trivial
  have happly : Runs (Meets wholeNumber) ⟨unread, twoNotes.apply bIsFive, [], [bIsFive], [summing, counting]⟩ :=
    hcommit.take (e := .apply) rfl trivial
  have hread : Runs (Meets wholeNumber) ⟨unread, twoNotes.apply bIsFive, [], [bIsFive],
      [allRead summing (twoNotes.apply bIsFive), counting]⟩ :=
    happly.take (e := .read 0) rfl fun _ _ _ _ _ => .inl nofun
  have hpublish : Runs (Meets wholeNumber) ⟨unread.apply wholeNumber bIsFive, twoNotes.apply bIsFive, [], [],
      [allRead summing (twoNotes.apply bIsFive), counting]⟩ := by
    refine hread.take (e := .publish 0) rfl fun write hwrite => .inr ?_
    obtain rfl : bIsFive = write := some.inj hwrite
    refine ⟨rfl, fun hydration hmem _ hpassed => ?_⟩
    simp only [mem_cons, not_mem_nil, or_false] at hmem
    rcases hmem with rfl | rfl
    · exact .of_read rfl
    · obtain ⟨after, hafter, -⟩ := hpassed.resolve_left Bool.false_ne_true
      cases hafter
  exact hpublish.take (e := .read 1) rfl fun _ _ _ _ _ => .inl nofun

/-- The requests have ended, and the event of a deletion was published that the projection does not
have. -/
def bothKnown : ServerState Nat :=
  ⟨((bothRead.inner.hydrate wholeNumber (allRead summing (twoNotes.apply bIsFive))).hydrate wholeNumber
      (allRead counting (twoNotes.apply bIsFive))).apply wholeNumber aIsDeleted, twoNotes.apply bIsFive, [aIsDeleted], [],
    []⟩

def total (numbers : List Nat) : Nat := numbers.foldl (· + ·) 0

/-- One note is left, with the number that it was given while the requests read. -/
theorem aggregates_equal_sample :
    bothKnown.inner.tableCountIfHydrated "notes" = some (bothKnown.rows "notes").size ∧
    bothKnown.inner.tableSumIfHydrated total ⟨"notes", "n"⟩ =
    some (total ((bothKnown.rows "notes").filterMap fun _ value => wholeNumber value "n").values) := by
  have hsum := reaches_bothRead.take (e := .finish 0) rfl (by exact trivial)
  have hcount := hsum.take (e := .finish 0) rfl (by exact trivial)
  have hcommit := hcount.take (e := .commit aIsDeleted) rfl (by exact trivial)
  have hrun : Runs (Meets wholeNumber) bothKnown := hcommit.take (e := .publish 0) rfl (by
    intro write hwrite
    obtain rfl : aIsDeleted = write := some.inj hwrite
    exact .inr ⟨rfl, forall_mem_nil _⟩)
  have hequal := aggregates_equal wholeNumber twoNotes hrun rfl total
  exact ⟨hequal.1 "notes" mem_cons_self, hequal.2 ⟨"notes", "n"⟩ mem_cons_self⟩

example : bothKnown.inner.tableSumIfHydrated total ⟨"notes", "n"⟩ = some 5 := by decide +kernel

/-- A note is deleted between the page and the end of the request. -/
theorem deleted_is_counted : ¬ ∀ s, Runs (fun _ _ => True) s → s.pending = [] →
    ∀ table ∈ s.inner.hydratedTables, s.inner.tableCountIfHydrated table =
    some (s.rows table).size := by
  intro hall
  have hcount : Runs (fun _ _ => True) ⟨unread, twoNotes, [], [], [counting]⟩ :=
    (Reaches.refl _).take (e := .count "notes") rfl trivial
  have hread := (hcount.take (e := .read 0) rfl trivial).take (e := .commit aIsDeleted) rfl trivial
  have hrun := ((hread.take (e := .publish 0) rfl trivial).take (e := .apply) rfl trivial).take
    (e := .finish 0) rfl trivial
  have hsize := hall _ hrun rfl "notes" mem_cons_self
  exact absurd hsize (by decide +kernel)

end Sample

end NextDb.Api.Aggregates
