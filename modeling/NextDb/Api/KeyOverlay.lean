import NextDb.Api.RecordReads

/-!
# Scans of a hot table in the order of keys

* `scanKeyOrderOverlay_iff`: a scan under a prefix hides all deleted rows, unless it starts before
  the prefix at a deleted row.
* `keyed_of_reaches`: writes, reads and evictions keep records under their keys.
-/

namespace NextDb.Api.KeyOverlay

open Records List TextKeys Std.ExtTreeMap
open ProjectionKv (notAfter)

structure RecordHotKeyOrderOverlay where
  records : List DbRecord
  shadowKeys : List String

def keyOrderRecords (state : HotTable) (afterKey : Option String) : List DbRecord :=
  ((state.records.toList.filter fun entry => decide (afterKey.getD "" ≤ entry.1)).map Prod.snd).filter fun record =>
    !notAfter afterKey record.key

def keyPrefixRecords (state : HotTable) (keyPrefix : String) (afterKey : Option String) :
    List DbRecord :=
  let start := afterKey.elim keyPrefix (max keyPrefix)
  (((state.records.toList.filter fun entry => decide (start ≤ entry.1)).map Prod.snd).takeWhile fun record =>
    decide (Starts keyPrefix record.key)).filter fun record => !notAfter afterKey record.key

/-- The scan starts at `afterKey`, also where it is before the prefix. -/
def tombstoneKeys (state : HotTable) (keyPrefix afterKey : Option String) : List String :=
  let start := afterKey.getD (keyPrefix.getD "")
  ((state.durableDeleteTombstones.keys.filter fun key => decide (start ≤ key)).takeWhile fun key =>
    keyPrefix.all fun keyPrefix => decide (Starts keyPrefix key)).filter fun key => !notAfter afterKey key

/-- `scan_key_order_overlay` of a table; times of access are left out. -/
def scanKeyOrderOverlay (state : HotTable) (keyPrefix afterKey : Option String) :
    RecordHotKeyOrderOverlay :=
  let records := keyPrefix.elim (keyOrderRecords state afterKey) fun keyPrefix =>
    keyPrefixRecords state keyPrefix afterKey
  { records, shadowKeys := records.map DbRecord.key ++ tombstoneKeys state keyPrefix afterKey }

/-- Records are kept under their keys. -/
def Keyed (state : HotTable) : Prop := ∀ entry ∈ state.records.toList, entry.2.key = entry.1

/-- The key has the prefix and is greater than `afterKey`. -/
def listed (keyPrefix afterKey : Option String) (key : String) : Bool :=
  (keyPrefix.all fun keyPrefix => decide (Starts keyPrefix key)) && !notAfter afterKey key

variable {key start : String}

theorem le_of_after {afterKey : Option String} (h : notAfter afterKey key = false) :
    afterKey.getD "" ≤ key := by
  cases afterKey with
  | none => exact le_of_starts (starts_empty key)
  | some after => exact le_of_lt (not_le.mp (by simpa [notAfter] using h))

theorem listed_iff {keyPrefix afterKey : Option String} :
    listed keyPrefix afterKey key ↔ (∀ start ∈ keyPrefix, Starts start key) ∧
    ∀ after ∈ afterKey, after < key := by
  cases keyPrefix <;> cases afterKey <;> simp [listed, notAfter]

/-- The overlay has the records and the keys after the cursor and under the prefix. -/
structure Exact (state : HotTable) (keyPrefix afterKey : Option String)
    (overlay : RecordHotKeyOrderOverlay) : Prop where
  records : overlay.records = (state.records.toList.map Prod.snd).filter fun record =>
    listed keyPrefix afterKey record.key
  shadowKeys : ∀ key, key ∈ overlay.shadowKeys ↔ listed keyPrefix afterKey key ∧
    (key ∈ state.records ∨ key ∈ state.durableDeleteTombstones)

/-- A deleted row stands from `afterKey` on before the prefix, and one of the prefix is not in the
cache. -/
def Cut (state : HotTable) (keyPrefix afterKey : Option String) : Prop :=
  ∃ start ∈ keyPrefix, ∃ after ∈ afterKey,
    (∃ key ∈ state.durableDeleteTombstones, after ≤ key ∧ key < start) ∧
      ∃ key ∈ state.durableDeleteTombstones, Starts start key ∧ key ∉ state.records

theorem starts_of_between {low high : String} (hlow : start ≤ low) (hlt : low < high)
    (h : Starts start high) :
    Starts start low := by
  have hlist : ∀ {p x y : List Char}, ¬ x < p → x < y → p <+: y → p <+: x := by
    intro p
    induction p with
    | nil => exact fun _ _ _ => nil_prefix
    | cons c p ih =>
      rintro x _ hx hxy ⟨rest, rfl⟩
      cases x with
      | nil => exact absurd (nil_lt_cons c p) hx
      | cons d x =>
        rw [cons_lt_cons_iff, not_or, not_and] at hx
        rw [cons_append, cons_lt_cons_iff] at hxy
        obtain ⟨rfl, hxy⟩ := hxy.resolve_left hx.1
        have hxy' := hxy.resolve_left (lt_irrefl d)
        exact (prefix_cons_inj d).mpr (ih (hx.2 rfl) hxy'.2 (prefix_append ..))
  rw [← not_lt, String.lt_iff_toList_lt] at hlow
  exact hlist hlow (String.lt_iff_toList_lt.mp hlt) h

theorem takeWhile_eq_filter {α : Type} {p : α → Bool} {l : List α}
    (h : l.Pairwise fun a b => p b → p a) :
    l.takeWhile p = l.filter p := by
  induction l with
  | nil => rfl
  | cons a l ih =>
    obtain ⟨ha, h⟩ := pairwise_cons.mp h
    by_cases hp : p a
    · rw [takeWhile_cons_of_pos hp, filter_cons_of_pos hp, ih h]
    · rw [takeWhile_cons_of_neg hp, filter_eq_nil_iff.mpr]
      exact forall_mem_cons.mpr ⟨hp, fun b hb hpb => hp (ha b hb hpb)⟩

/-- A scan in the order of keys that starts at a listed key or behind it, and not before the prefix.
-/
theorem scan_eq {α : Type} {key : α → String} {l : List α}
    (hl : l.Pairwise fun a b => key a < key b) {low : String}
    {afterKey : Option String} (hlow : ∀ a ∈ l, low ≤ key a → start ≤ key a)
    (hlisted : ∀ a ∈ l, listed (some start) afterKey (key a) → low ≤ key a) :
    ((l.filter fun a => decide (low ≤ key a)).takeWhile fun a => decide (Starts start (key a))).filter
    (fun a => !notAfter afterKey (key a)) =
    l.filter fun a => listed (some start) afterKey (key a) := by
  rw [takeWhile_eq_filter, filter_filter, filter_filter]
  · refine filter_congr fun a ha => ?_
    have h := hlisted a ha
    simp only [listed, Option.all_some, Bool.and_eq_true] at h ⊢
    grind
  · refine (hl.filter _).imp_of_mem fun {a b} ha _ hlt hstarts => ?_
    obtain ⟨ha, hle⟩ := mem_filter.mp ha
    simpa using starts_of_between (hlow a ha (by simpa using hle)) hlt (by simpa using hstarts)

variable {state : HotTable} {keyPrefix afterKey : Option String}

theorem listed_none (key : String) : listed none afterKey key = listed (some "") afterKey key := by
  simp [listed, starts_empty]

theorem records_eq (hkeyed : Keyed state) : (scanKeyOrderOverlay state keyPrefix afterKey).records =
    (state.records.toList.map Prod.snd).filter fun record => listed keyPrefix afterKey record.key := by
  have hmap : ∀ low : String, (state.records.toList.filter fun entry => decide (low ≤ entry.1)).map Prod.snd =
      (state.records.toList.map Prod.snd).filter fun record => decide (low ≤ record.key) := by
    intro low
    rw [filter_map]
    exact congrArg _ (filter_congr fun entry hentry => by simp [hkeyed entry hentry])
  have hsorted : (state.records.toList.map Prod.snd).Pairwise fun a b => a.key < b.key := by
    refine pairwise_map.mpr (Pairwise.imp_of_mem (fun ha hb hlt => ?_) state.records.ordered_keys_toList)
    rw [hkeyed _ ha, hkeyed _ hb]
    simpa [compare_lt_iff_lt] using hlt
  cases keyPrefix with
  | none =>
    simp only [scanKeyOrderOverlay, Option.elim_none, keyOrderRecords, hmap, filter_filter]
    refine filter_congr fun record _ => ?_
    have h : notAfter afterKey record.key = false → _ := le_of_after
    simp only [listed, Option.all_none, Bool.true_and]
    grind
  | some start =>
    simp only [scanKeyOrderOverlay, Option.elim_some, keyPrefixRecords, hmap]
    refine scan_eq hsorted (fun record _ hle => ?_) fun record _ hlisted => ?_
    · cases afterKey with
      | none => exact hle
      | some after => exact (le_max_left ..).trans hle
    · obtain ⟨hstarts, hafter⟩ := listed_iff.mp hlisted
      have hstart := le_of_starts (hstarts start rfl)
      cases afterKey with
      | none => exact hstart
      | some after => exact max_le hstart (hafter after rfl).le

/-- The scan of the deleted rows is right where it meets none before the prefix. -/
theorem tombstoneKeys_eq (h : ∀ start ∈ keyPrefix,
    ∀ key ∈ state.durableDeleteTombstones, afterKey.getD start ≤ key → start ≤ key) :
    tombstoneKeys state keyPrefix afterKey =
    state.durableDeleteTombstones.keys.filter (listed keyPrefix afterKey) := by
  have hscan : ∀ start, (∀ key ∈ state.durableDeleteTombstones, afterKey.getD start ≤ key → start ≤ key) →
      tombstoneKeys state (some start) afterKey =
        state.durableDeleteTombstones.keys.filter (listed (some start) afterKey) := by
    intro start h
    have hsorted : state.durableDeleteTombstones.keys.Pairwise fun a b => id a < id b := by
      simpa [compare_lt_iff_lt] using state.durableDeleteTombstones.ordered_keys
    refine scan_eq hsorted (fun key hkey => h key (Std.ExtTreeMap.mem_keys.mp hkey)) fun key _ hlisted => ?_
    obtain ⟨hstarts, hafter⟩ := listed_iff.mp hlisted
    cases afterKey with
    | none => exact le_of_starts (hstarts start rfl)
    | some after => exact (hafter after rfl).le
  cases keyPrefix with
  | none =>
    rw [filter_congr fun key _ => listed_none key, ← hscan "" fun key _ _ => le_of_starts (starts_empty key)]
    simp [tombstoneKeys, starts_empty]
  | some start => exact hscan start (h start rfl)

theorem tombstoneKeys_nil {after : String} (hkey : key ∈ state.durableDeleteTombstones)
    (hafter : after ≤ key)
    (hlt : key < start) : tombstoneKeys state (some start) (some after) = [] := by
  have hsorted := (state.durableDeleteTombstones.ordered_keys).filter fun key => decide (after ≤ key)
  have hmem : key ∈ state.durableDeleteTombstones.keys.filter fun key => decide (after ≤ key) :=
    mem_filter.mpr ⟨Std.ExtTreeMap.mem_keys.mpr hkey, by simpa⟩
  simp only [tombstoneKeys, Option.getD_some, Option.all_some]
  cases hscanned : state.durableDeleteTombstones.keys.filter fun key => decide (after ≤ key) with
  | nil => rfl
  | cons first rest =>
    rw [hscanned] at hsorted hmem
    have hfirst : first < start := by
      rcases mem_cons.mp hmem with rfl | hmem
      · exact hlt
      · exact (compare_lt_iff_lt.mp ((pairwise_cons.mp hsorted).1 key hmem)).trans hlt
    rw [takeWhile_cons_of_neg]
    · rfl
    · simpa using fun hstarts => (le_of_starts hstarts).not_gt hfirst

theorem mem_shadowKeys (hkeyed : Keyed state) :
    key ∈ (scanKeyOrderOverlay state keyPrefix afterKey).shadowKeys ↔
    listed keyPrefix afterKey key ∧
    key ∈ state.records ∨ key ∈ tombstoneKeys state keyPrefix afterKey := by
  refine mem_append.trans (or_congr_left ?_)
  change key ∈ (scanKeyOrderOverlay state keyPrefix afterKey).records.map DbRecord.key ↔ _
  rw [records_eq hkeyed, mem_map]
  constructor
  · rintro ⟨record, hrecord, rfl⟩
    obtain ⟨hrecord, hlisted⟩ := mem_filter.mp hrecord
    obtain ⟨entry, hentry, rfl⟩ := mem_map.mp hrecord
    have hfound := mem_toList_iff_getElem?_eq_some.mp hentry
    exact ⟨hlisted, hkeyed entry hentry ▸ mem_iff_isSome_getElem?.mpr (Option.isSome_of_eq_some hfound)⟩
  · rintro ⟨hlisted, hkey⟩
    have hentry := mem_toList_iff_getElem?_eq_some.mpr (getElem?_eq_some_getElem hkey)
    refine ⟨_, mem_filter.mpr ⟨mem_map.mpr ⟨_, hentry, rfl⟩, ?_⟩, hkeyed _ hentry⟩
    rwa [hkeyed _ hentry]

theorem scanKeyOrderOverlay_iff (hkeyed : Keyed state) :
    Exact state keyPrefix afterKey (scanKeyOrderOverlay state keyPrefix afterKey) ↔
    ¬ Cut state keyPrefix afterKey := by
  constructor
  · rintro h ⟨start, rfl, after, rfl, ⟨low, hlow, hafter, hlt⟩, key, hkey, hstarts, hnot⟩
    have hgreater : after < key := (hafter.trans_lt hlt).trans_le (le_of_starts hstarts)
    have hlisted : listed (some start) (some after) key :=
      listed_iff.mpr ⟨by rintro _ ⟨⟩; exact hstarts, by rintro _ ⟨⟩; exact hgreater⟩
    have hshadow := (mem_shadowKeys hkeyed).mp ((h.shadowKeys key).mpr ⟨hlisted, .inr hkey⟩)
    rw [tombstoneKeys_nil hlow hafter hlt] at hshadow
    exact hshadow.elim (fun h => hnot h.2) nofun
  · intro hcut
    refine ⟨records_eq hkeyed, fun key => (mem_shadowKeys hkeyed).trans ?_⟩
    by_cases h : ∀ start ∈ keyPrefix, ∀ key ∈ state.durableDeleteTombstones, afterKey.getD start ≤ key → start ≤ key
    · rw [tombstoneKeys_eq h, mem_filter, Std.ExtTreeMap.mem_keys]
      grind
    · push Not at h
      obtain ⟨start, rfl, low, hlow, hle, hlt⟩ := h
      cases afterKey with
      | none => exact absurd hlt hle.not_gt
      | some after =>
        have hle : after ≤ low := hle
        rw [tombstoneKeys_nil hlow hle hlt]
        refine ⟨fun h => ?_, fun h => .inl ⟨h.1, h.2.elim id fun hkey => ?_⟩⟩
        · exact h.elim (fun h => ⟨h.1, .inl h.2⟩) nofun
        · by_contra hnot
          exact hcut ⟨start, rfl, after, rfl, ⟨low, hlow, hle, hlt⟩, key, hkey, (listed_iff.mp h.1).1 start rfl, hnot⟩

/-! ## The states of the server -/

section Kept

open Run RecordChecks RecordWriters Converge RecordReads ProjectionKv

/-- In every hot table, records are kept under their keys. -/
def KeptByKey (hot : RecordHotState) : Prop :=
  ∀ place entry, hot.entry place = some entry → ∀ record ∈ entry.1, record.key = place.2

variable {hot hot' : RecordHotState} {table : String}

theorem KeptByKey.keyed (h : KeptByKey hot) (hstate : hot.tables[table]? = some state) :
    Keyed state := by
  intro entry hentry
  have hfound : hot.entry (table, entry.1) = some (state.entry entry.1) := by
    rw [RecordHotState.entry, hstate]
    rfl
  exact h _ _ hfound entry.2 (mem_toList_iff_getElem?_eq_some.mp hentry)

theorem KeptByKey.fades {leave : String → Prop} (h : KeptByKey hot)
    (hfades : hot.Fades leave hot') : KeptByKey hot' := by
  intro place entry hentry
  rcases hfades.entry place with hsame | ⟨-, _, _, -, hgone⟩
  · exact h place entry (hsame ▸ hentry)
  · obtain rfl := Option.some.inj (hgone.symm.trans hentry)
    exact nofun

/-- What a change leaves under a key, it had there, or it is a record of the key, or there is none.
-/
theorem KeptByKey.of_entry (h : KeptByKey hot)
    (hentry : ∀ place entry, hot'.entry place = some entry →
    (∃ old, hot.entry place = some old ∧ entry.1 = old.1) ∨ ∀ record ∈ entry.1,
      record.key = place.2) :
    KeptByKey hot' := by
  intro place entry hfound
  rcases hentry place entry hfound with ⟨old, hold, hsame⟩ | hkey
  · exact hsame ▸ h place old hold
  · exact hkey

theorem KeptByKey.upsertInternal (h : KeptByKey hot) (record : DbRecord) :
    KeptByKey (hot.upsertInternal record false) := by
  refine h.of_entry fun place entry hentry => ?_
  have hput : (hot.upsertInternal record false).entry place = _ := hot.entry_put place record
  rw [hput] at hentry
  split at hentry
  · next hplace =>
    obtain ⟨old, -, rfl⟩ := Option.map_eq_some_iff.mp hentry
    exact .inr fun other hother => by rw [← Option.some.inj hother, hplace]
  · exact .inl ⟨entry, hentry, rfl⟩

theorem KeptByKey.deleteDurable (h : KeptByKey hot) (table key : String) (lsn : Nat) :
    KeptByKey (hot.deleteDurable table key lsn) := by
  refine h.of_entry fun place entry hentry => ?_
  rw [RecordHotState.entry_deleteDurable] at hentry
  split at hentry
  · obtain ⟨old, hold, rfl⟩ := Option.map_eq_some_iff.mp hentry
    unfold HotEntry.delete
    split
    · exact .inl ⟨old, hold, rfl⟩
    · exact .inr nofun
  · exact .inl ⟨entry, hentry, rfl⟩

theorem KeptByKey.clearDeleted (h : KeptByKey hot) (lsn : Nat)
    (mutation : RecordProjectionMutation) :
    KeptByKey (clearDeleted lsn hot mutation) := by
  cases mutation with
  | upsert => exact h
  | delete table key =>
    refine h.of_entry fun place entry hentry => .inl ?_
    rw [Converge.clearDeleted, RecordHotState.entry_clearDurableDeleteTombstone] at hentry
    split at hentry
    · obtain ⟨old, hold, rfl⟩ := Option.map_eq_some_iff.mp hentry
      exact ⟨old, hold, rfl⟩
    · exact ⟨entry, hentry, rfl⟩

theorem KeptByKey.hydrateDurable (h : KeptByKey hot) (record : DbRecord) :
    KeptByKey (hot.hydrateDurable record false) := by
  unfold RecordHotState.hydrateDurable
  split
  · exact h
  · split
    · exact h
    · exact h.upsertInternal record

theorem KeptByKey.foldl {α : Type} {f : RecordHotState → α → RecordHotState}
    (hf : ∀ {hot}, KeptByKey hot → ∀ a, KeptByKey (f hot a)) (h : KeptByKey hot) (as : List α) :
    KeptByKey (as.foldl f hot) := by
  induction as generalizing hot with
  | nil => exact h
  | cons a as ih => exact ih (hf h a)

theorem KeptByKey.hotAfter (h : KeptByKey hot) (r : WalRecord) : KeptByKey (hotAfter hot r) := by
  refine KeptByKey.fades ?_ (fades_hotAfter hot r)
  have hdeleted := h.foldl (fun h (delete : DbRecordDeleteDraft) => h.deleteDurable delete.table delete.key r.lsn)
    (deleteDrafts (recordMutations r.payload))
  exact hdeleted.foldl (fun h record => h.upsertInternal record) _

/-- In every run, the records of the hot tables stay under their keys. -/
theorem keptByKey_of_reaches {lib : ProjectionLibraries} {checks : OperationChecks}
    {schema : DatabaseSchema}
    {meets : WriteState → WriteEvent → Prop} {s t : WriteState}
    (hrun : Reaches (WriteStep lib checks schema) meets s t)
    (hs : KeptByKey s.hot) : KeptByKey t.hot := by
  refine hrun.invariant (I := fun s => KeptByKey s.hot) (fun s e t h _ hstep => ?_) hs
  cases hstep with
  | cache => exact h.hotAfter _
  | @apply job queue hqueue =>
    unfold WriteState.work
    split
    · exact h.foldl (fun h mutation => h.clearDeleted job.lsn mutation) job.mutations
    · exact h
  | @hydrate j rows _ =>
    exact (h.foldl (fun h record => h.hydrateDurable record) rows).fades (s.hot.fades_hydrateDurableMany rows)
  | touch table key =>
    exact h.of_entry fun place entry hentry => .inl ⟨entry, by rwa [s.hot.entry_touch] at hentry, rfl⟩
  | evict table key => exact h.fades (s.hot.fades_evict table key)
  | evictIdle idle => exact h.fades (s.hot.fades_evictIdle idle)
  | _ => exact h

/-- So a scan in a run meets keyed tables only. -/
theorem keyed_of_reaches {lib : ProjectionLibraries} {checks : OperationChecks}
    {schema : DatabaseSchema}
    {meets : WriteState → WriteEvent → Prop} {s t : WriteState}
    (hrun : Reaches (WriteStep lib checks schema) meets s t)
    (hs : KeptByKey s.hot) (hstate : t.hot.tables[table]? = some state) : Keyed state :=
  (keptByKey_of_reaches hrun hs).keyed hstate

end Kept

section Sample

/-- The rows a and b1 are deleted. -/
def deletedRows : HotTable := ⟨none, ∅, ((∅ : BTreeMap String Nat).insert "a" 1).insert "b1" 2, ∅⟩

def rowB2 : DbRecord := ⟨"rows", "b2", .null, 0, 3, "tables/rows/b2"⟩

/-- The row b2 is there. -/
def mixedRows : HotTable :=
  { deletedRows with records := (∅ : BTreeMap String DbRecord).insert "b2" rowB2 }

/-- The rows of a prefix behind the first of them, which is deleted. -/
theorem scanKeyOrderOverlay_sample :
    Exact mixedRows (some "b") (some "b1") (scanKeyOrderOverlay mixedRows (some "b") (some "b1")) := by
  have hkeyed : Keyed mixedRows := by
    intro entry hentry
    have hfound := mem_toList_iff_getElem?_eq_some.mp hentry
    rw [mixedRows, Std.ExtTreeMap.getElem?_insert, getElem?_empty] at hfound
    split at hfound
    · next hkey => rw [← Option.some.inj hfound, ← compare_eq_iff_eq.mp hkey]; rfl
    · cases hfound
  refine (scanKeyOrderOverlay_iff hkeyed).mpr ?_
  rintro ⟨_, ⟨⟩, _, ⟨⟩, ⟨key, -, hle, hlt⟩, -⟩
  exact absurd (hle.trans_lt hlt) (by decide +kernel)

theorem deleted_row_missed :
    ¬ ∀ (state : HotTable) (keyPrefix afterKey : Option String), Keyed state →
    Exact state keyPrefix afterKey (scanKeyOrderOverlay state keyPrefix afterKey) := by
  intro hall
  have hkeyed : Keyed deletedRows := by simp [Keyed, deletedRows]
  have hlisted : listed (some "b") (some "a") "b1" = true := by decide +kernel
  have hshadow := ((hall deletedRows _ _ hkeyed).shadowKeys "b1").mpr ⟨hlisted, .inr (by simp [deletedRows])⟩
  have hdeleted : "a" ∈ deletedRows.durableDeleteTombstones := by simp [deletedRows]
  rw [mem_shadowKeys hkeyed, tombstoneKeys_nil hdeleted le_rfl (by decide +kernel)] at hshadow
  simp [deletedRows] at hshadow

end Sample

end NextDb.Api.KeyOverlay
