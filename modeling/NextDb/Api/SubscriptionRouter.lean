import NextDb.Api.LiveQuery
import NextDb.Lib.Multimap
import NextDb.Lib.TextKeys

/-!
# The router of a connection

A connection adds and removes subscriptions of ranges of keys and of nested tables. Its router
keeps, for each table, the widest upper bound of the ranges from each lower bound or below, and the
prefixes of the nested tables; for a key it looks at the last lower bound and at the last prefix
that are not above the key.

* `TableKeyRangeIndex.matches_iff`: one lookup finds a range that has the key, if there is one.
* `Routes.step`: the router holds the ranges and the prefixes of the subscriptions that are held.
* `router_agrees`: it matches what the subscriptions match, unless another nested table is passed
  over.
-/

namespace NextDb.Api.LiveQuery

open List Option Std.ExtTreeMap

open Auth (startsWith)
open Frames Multimap RecordMatch Run TextKeys

/-! ## The last text up to a key -/

variable {key : String}

theorem lastUpTo_eq_some {texts : List String} {text : String} :
    lastUpTo texts key = some text ↔ (text ∈ texts ∧ text ≤ key) ∧ ∀ other ∈ texts, other ≤ key →
    other ≤ text := by
  rw [lastUpTo, max?_eq_some_iff]
  simp [mem_filter]

theorem lastUpTo_eq_none {texts : List String} :
    lastUpTo texts key = none ↔ ∀ text ∈ texts, ¬ text ≤ key := by
  rw [lastUpTo, max?_eq_none_iff, filter_eq_nil_iff]
  simp

/-! ## Widest upper bounds -/

/-- The key is below the upper bound, if there is one. -/
def belowUpper (key : String) (upper : Option String) : Bool := upper.all fun upper => key < upper

theorem bestUpperMatchesKey_set (uppers : List (Option String)) (key : String) :
    bestUpperMatchesKey (bestUpperForSet uppers) key = uppers.any (belowUpper key) := by
  unfold bestUpperForSet
  split
  · next hempty => simp [isEmpty_iff.mp hempty, bestUpperMatchesKey]
  · split
    · next hnone =>
      have hany : uppers.any (belowUpper key) = true := any_eq_true.mpr ⟨none, hnone, rfl⟩
      simp [hany, bestUpperMatchesKey]
    · next hempty hnone =>
      have hsome : ∀ upper ∈ uppers, ∃ text, upper = some text := by
        intro upper hupper
        cases upper with
        | none => exact absurd hupper hnone
        | some text => exact ⟨text, rfl⟩
      cases hmax : (uppers.filterMap id).max? with
      | none =>
        have hnil : uppers.filterMap id = [] := max?_eq_none_iff.mp hmax
        obtain ⟨upper, hupper⟩ := exists_mem_of_ne_nil uppers (by simpa using hempty)
        obtain ⟨text, rfl⟩ := hsome upper hupper
        cases filterMap_eq_nil_iff.mp hnil (some text) hupper
      | some last =>
        obtain ⟨hmem, hlast⟩ := max?_eq_some_iff.mp hmax
        have hmem : some last ∈ uppers := by simpa using hmem
        rw [Bool.eq_iff_iff, List.any_eq_true]
        simp only [bestUpperMatchesKey, Option.any_some, Option.all_some, decide_eq_true_eq]
        constructor
        · exact fun hlt => ⟨some last, hmem, by simpa [belowUpper] using hlt⟩
        · rintro ⟨upper, hupper, hbelow⟩
          obtain ⟨text, rfl⟩ := hsome upper hupper
          have hle : text ≤ last := hlast text (by simpa using hupper)
          have hlt : key < text := by simpa [belowUpper] using hbelow
          exact lt_of_lt_of_le hlt hle

theorem bestUpperMatchesKey_wider (current candidate : Option (Option String)) (key : String) :
    bestUpperMatchesKey
    (widerUpper current candidate) key =
    (bestUpperMatchesKey current key || bestUpperMatchesKey candidate key) := by
  cases current with
  | none => rcases candidate with _ | _ | candidate <;> simp [widerUpper, bestUpperMatchesKey]
  | some current =>
    cases current with
    | none => simp [widerUpper, bestUpperMatchesKey]
    | some current =>
      rcases candidate with _ | _ | candidate
      · simp [widerUpper, bestUpperMatchesKey]
      · simp [widerUpper, bestUpperMatchesKey]
      · simp only [widerUpper, bestUpperMatchesKey, any_some, all_some]
        rw [← Bool.decide_or]
        exact decide_eq_decide.mpr lt_max_iff

theorem bestUppers_concat (entries : List (String × List (Option String)))
    (entry : String × List (Option String)) :
    bestUppers (entries ++ [entry]) = (widerUpper (bestUppers entries).1 (bestUpperForSet entry.2),
    (widerUpper (bestUppers entries).1 (bestUpperForSet entry.2)).elim (bestUppers entries).2 fun upper =>
    (bestUppers entries).2.insert entry.1 upper) := by
  simp [bestUppers, foldl_append]

/-- The ranges of an entry have a bound, and their bounds ascend. -/
structure EntriesOk (entries : List (String × List (Option String))) : Prop where
  ascending : entries.Pairwise (·.1 < ·.1)
  nonempty : ∀ entry ∈ entries, entry.2 ≠ []

theorem bestUpperForSet_isSome {uppers : List (Option String)} (h : uppers ≠ []) :
    (bestUpperForSet uppers).isSome = true := by
  unfold bestUpperForSet
  rw [if_neg (by simpa using h)]
  split <;> rfl

theorem widerUpper_isSome (current : Option (Option String)) {candidate : Option (Option String)}
    (h : candidate.isSome = true) : (widerUpper current candidate).isSome = true := by
  rcases current with _ | _ | current <;> rcases candidate with _ | _ | candidate <;> simp_all [widerUpper]

/-- The widest upper bound of all ranges, and the widest ones up to each lower bound. -/
structure BestOf (entries : List (String × List (Option String))) (best : Option (Option String))
    (bestByLower : BTreeMap String (Option String)) : Prop where
  best : ∀ key, bestUpperMatchesKey best key = entries.any fun entry => entry.2.any (belowUpper key)
  lowers : ∀ lower, lower ∈ bestByLower ↔ lower ∈ entries.map Prod.fst
  upTo : ∀ lower ∈ entries.map Prod.fst, ∀ key, bestUpperMatchesKey bestByLower[lower]? key =
    entries.any fun entry => decide (entry.1 ≤ lower) && entry.2.any (belowUpper key)

theorem bestOf_bestUppers {entries : List (String × List (Option String))} (h : EntriesOk entries) :
    BestOf entries (bestUppers entries).1 (bestUppers entries).2 := by
  induction entries using reverseRecOn with
  | nil => exact ⟨fun key => rfl, fun lower => by simp [bestUppers], fun lower hlower => by simp at hlower⟩
  | append_singleton entries entry ih =>
    obtain ⟨hasc, -, hlast⟩ := pairwise_append.mp h.ascending
    have hlast : ∀ other ∈ entries, other.1 < entry.1 := fun other hother =>
      hlast other hother entry (mem_singleton_self _)
    have ih := ih ⟨hasc, fun other hother => h.nonempty other (mem_append_left _ hother)⟩
    obtain ⟨upper, hupper⟩ := isSome_iff_exists.mp
      (widerUpper_isSome (bestUppers entries).1 (bestUpperForSet_isSome (h.nonempty entry (by simp))))
    have hbest : ∀ key, bestUpperMatchesKey (some upper) key =
        ((entries ++ [entry]).any fun entry => entry.2.any (belowUpper key)) := by
      intro key
      rw [← hupper, bestUpperMatchesKey_wider, ih.best, bestUpperMatchesKey_set, any_append, any_cons, any_nil,
        Bool.or_false]
    rw [bestUppers_concat, hupper, elim_some]
    refine ⟨hbest, fun lower => ?_, fun lower hlower key => ?_⟩
    · rw [mem_insert, ih.lowers, compare_eq_iff_eq, map_append, mem_append, map_singleton, mem_singleton]
      constructor
      · exact fun hor => hor.elim (fun heq => .inr heq.symm) .inl
      · exact fun hor => hor.elim .inr fun heq => .inl heq.symm
    · rw [Std.ExtTreeMap.getElem?_insert]
      by_cases hsame : entry.1 = lower
      · subst hsame
        rw [if_pos (compare_eq_iff_eq.mpr rfl), hbest]
        have hall : ∀ other ∈ entries ++ [entry], other.1 ≤ entry.1 := by
          intro other hother
          rcases mem_append.mp hother with hother | hother
          · exact le_of_lt (hlast other hother)
          · rw [mem_singleton.mp hother]
        rw [Bool.eq_iff_iff, List.any_eq_true, List.any_eq_true]
        refine exists_congr fun other => and_congr_right fun hother => ?_
        rw [decide_eq_true (hall other hother), Bool.true_and]
      · have hbefore : lower ∈ entries.map Prod.fst := by
          rw [map_append, mem_append] at hlower
          exact hlower.resolve_right fun hmem => hsame (mem_singleton.mp hmem).symm
        obtain ⟨other, hother, rfl⟩ := mem_map.mp hbefore
        have habove : ¬ entry.1 ≤ other.1 := not_le.mpr (hlast other hother)
        rw [if_neg (by rwa [compare_eq_iff_eq]), ih.upTo _ hbefore, any_append]
        simp [habove]

/-! ## The ranges of a table -/

namespace TableKeyRangeIndex

/-- The index has the range. -/
def Has (index : TableKeyRangeIndex) (lower upper : Option String) : Prop :=
  match lower with
  | none => upper ∈ index.unboundedLowerUppers
  | some lower => ∃ uppers, index.uppersByLower[lower]? = some uppers ∧ upper ∈ uppers

/-- No range is there twice, no lower bound is without a range, and the cache is of these ranges. -/
structure Ok (index : TableKeyRangeIndex) : Prop where
  unbounded : index.unboundedLowerUppers.Nodup
  uppers : ∀ (lower : String) (uppers : List (Option String)), index.uppersByLower[lower]? = some uppers →
    uppers.Nodup ∧ uppers ≠ []
  cached : index.rebuildMatchCache = index

variable {index : TableKeyRangeIndex}

theorem Ok.entries (h : index.Ok) : EntriesOk index.uppersByLower.toList where
  ascending := index.uppersByLower.ordered_keys_toList.imp fun hlt => by simpa [compare_lt_iff_lt] using hlt
  nonempty := fun entry hentry =>
    (h.uppers entry.1 entry.2 (mem_toList_iff_getElem?_eq_some.mp hentry)).2

theorem has_iff_of_some {lower : String} {upper : Option String} :
    index.Has (some lower) upper ↔ ∃ entry ∈ index.uppersByLower.toList, entry.1 = lower ∧
    upper ∈ entry.2 := by
  constructor
  · rintro ⟨uppers, hfound, hmem⟩
    exact ⟨(lower, uppers), mem_toList_iff_getElem?_eq_some.mpr hfound, rfl, hmem⟩
  · rintro ⟨⟨_, uppers⟩, hentry, rfl, hmem⟩
    exact ⟨uppers, mem_toList_iff_getElem?_eq_some.mp hentry, hmem⟩

/-- A range of the index has the key. -/
def HasKey (index : TableKeyRangeIndex) (key : String) : Prop :=
  ∃ lower upper, index.Has lower upper ∧ (lower.all fun lower => lower ≤ key) = true ∧ belowUpper key upper = true

theorem hasKey_iff :
    index.HasKey key ↔ index.unboundedLowerUppers.any (belowUpper key) = true ∨
    ∃ entry ∈ index.uppersByLower.toList,
    entry.1 ≤ key ∧ entry.2.any (belowUpper key) = true := by
  constructor
  · rintro ⟨lower, upper, hhas, hlower, hupper⟩
    cases lower with
    | none => exact .inl (any_eq_true.mpr ⟨upper, hhas, hupper⟩)
    | some lower =>
      obtain ⟨entry, hentry, rfl, hmem⟩ := has_iff_of_some.mp hhas
      exact .inr ⟨entry, hentry, by simpa using hlower, any_eq_true.mpr ⟨upper, hmem, hupper⟩⟩
  · rintro (hany | ⟨entry, hentry, hlower, hany⟩)
    · obtain ⟨upper, hmem, hupper⟩ := any_eq_true.mp hany
      exact ⟨none, upper, hmem, rfl, hupper⟩
    · obtain ⟨upper, hmem, hupper⟩ := any_eq_true.mp hany
      exact ⟨some entry.1, upper, has_iff_of_some.mpr ⟨entry, hentry, rfl, hmem⟩, by simpa using hlower, hupper⟩

/-- One lookup finds a range that has the key, if there is one. -/
theorem matches_iff (h : index.Ok) (key : String) :
    index.matches key = true ↔ index.HasKey key := by
  have hspec := bestOf_bestUppers h.entries
  rw [hasKey_iff, ← h.cached]
  simp only [TableKeyRangeIndex.matches, rebuildMatchCache, Bool.or_eq_true, bestUpperMatchesKey_set]
  refine or_congr_right ?_
  have hkeys : ∀ lower, lower ∈ (bestUppers index.uppersByLower.toList).2.keys ↔
      lower ∈ index.uppersByLower.toList.map Prod.fst := fun lower =>
    mem_keys.trans (hspec.lowers lower)
  cases hlast : lastUpTo (bestUppers index.uppersByLower.toList).2.keys key with
  | none =>
    refine iff_of_false (by simp) ?_
    rintro ⟨entry, hentry, hle, -⟩
    exact lastUpTo_eq_none.mp hlast entry.1 ((hkeys entry.1).mpr (mem_map_of_mem hentry)) hle
  | some lower =>
    obtain ⟨⟨hmem, hle⟩, hall⟩ := lastUpTo_eq_some.mp hlast
    rw [Option.any_some, hspec.upTo lower ((hkeys lower).mp hmem), List.any_eq_true]
    refine exists_congr fun entry => and_congr_right fun hentry => ?_
    rw [Bool.and_eq_true, decide_eq_true_eq]
    refine and_congr_left fun _ => ⟨fun hup => le_trans hup hle, fun hup => ?_⟩
    exact hall entry.1 ((hkeys entry.1).mpr (mem_map_of_mem hentry)) hup

theorem ok_empty : TableKeyRangeIndex.empty.Ok :=
  ⟨nodup_nil, fun lower uppers hfound => by simp [empty] at hfound, by
    have hnone : (∅ : BTreeMap String (List (Option String))).toList = [] := by simp
    rw [rebuildMatchCache, empty, hnone]
    rfl⟩

theorem not_has_empty (lower upper : Option String) :
    ¬ TableKeyRangeIndex.empty.Has lower upper := by
  cases lower with
  | none => exact not_mem_nil
  | some lower => rintro ⟨uppers, hfound, -⟩; simp [empty] at hfound

variable (lower upper lower' upper' : Option String)

theorem has_insert : (index.insert lower upper).Has lower' upper' ↔
    lower' = lower ∧ upper' = upper ∨
    index.Has lower' upper' := by
  cases lower with
  | none =>
    cases lower' with
    | none | some => simp [insert, rebuildMatchCache, Has]
  | some lower =>
    cases lower' with
    | none => simp [insert, rebuildMatchCache, Has]
    | some lower' =>
      rw [some.injEq]
      exact holds_insertEntry (upper' ∈ ·) lower (all_trivial index.uppersByLower) trivial not_mem_nil
        (fun uppers _ => mem_insert_iff) lower'

theorem Ok.insert (h : index.Ok) : (index.insert lower upper).Ok := by
  cases lower with
  | none => exact ⟨h.unbounded.insert, h.uppers, rfl⟩
  | some lower =>
    have hnew : ∀ {uppers : List (Option String)}, uppers.Nodup → (uppers.insert upper).Nodup ∧
        uppers.insert upper ≠ [] :=
      fun hnodup => ⟨hnodup.insert, ne_nil_of_mem mem_insert_self⟩
    exact ⟨h.unbounded, all_insertEntry h.uppers (hnew nodup_nil) fun _ huppers => hnew huppers.1, rfl⟩

theorem remove_some (h : index.Ok) (lower : String) : index.remove (some lower) upper =
    { index with uppersByLower := removeEntry index.uppersByLower lower (·.erase upper) (·.isEmpty) }.rebuildMatchCache := by
  cases hold : index.uppersByLower[lower]? with
  | none =>
    simp only [remove, removeEntry, hold]
    exact h.cached.symm
  | some uppers => simp only [remove, removeEntry, hold]

theorem has_remove (h : index.Ok) : (index.remove lower upper).Has lower' upper' ↔
    index.Has lower' upper' ∧ ¬ (lower' = lower ∧ upper' = upper) := by
  cases lower with
  | none =>
    cases lower' with
    | none => simp [remove, rebuildMatchCache, Has, h.unbounded.mem_erase_iff, and_comm]
    | some lower' => simp [remove, rebuildMatchCache, Has]
  | some lower =>
    rw [remove_some upper h]
    cases lower' with
    | none => simp [rebuildMatchCache, Has]
    | some lower' =>
      rw [some.injEq]
      refine holds_removeEntry (upper' ∈ ·) lower h.uppers (fun uppers huppers => ?_) (fun uppers hempty => ?_) lower'
      · rw [huppers.1.mem_erase_iff, and_comm]
      · simp [isEmpty_iff.mp hempty]

theorem Ok.remove (h : index.Ok) : (index.remove lower upper).Ok := by
  cases lower with
  | none => exact ⟨h.unbounded.erase _, h.uppers, rfl⟩
  | some lower =>
    rw [remove_some upper h]
    exact ⟨h.unbounded, all_removeEntry h.uppers fun uppers huppers hleft =>
      ⟨huppers.1.erase _, by simpa using hleft⟩, rfl⟩

end TableKeyRangeIndex

/-! ## The router -/

namespace RecordSubscriptionRouter

def HasRange (router : RecordSubscriptionRouter) (table : String) (lower upper : Option String) :
    Prop :=
  ∃ index, router.keyRangesByTable[table]? = some index ∧ index.Has lower upper

/-- The router has the prefix of the table. -/
def HasPrefix (router : RecordSubscriptionRouter) (table keyPrefix : String) : Prop :=
  ∃ prefixes, router.keyPrefixesByTable[table]? = some prefixes ∧ keyPrefix ∈ prefixes

/-- The ranges are kept as built, and no prefix twice. -/
structure Ok (router : RecordSubscriptionRouter) : Prop where
  ranges : ∀ (table : String) (index : TableKeyRangeIndex), router.keyRangesByTable[table]? = some index → index.Ok
  prefixes : ∀ (table : String) (prefixes : List String), router.keyPrefixesByTable[table]? = some prefixes →
    prefixes.Nodup

variable {router : RecordSubscriptionRouter} (subscription : TableSubscription)

theorem removeTableSubscription_eq : router.removeTableSubscription subscription =
    { router with
      keyRangesByTable := removeEntry router.keyRangesByTable subscription.table
        (·.remove subscription.lowerKey subscription.upperKey) (·.isEmpty) } := by
  cases hold : router.keyRangesByTable[subscription.table]? <;>
    simp only [removeTableSubscription, removeEntry, hold]

theorem removeNestedTableSubscription_eq (subscription : NestedTableSubscription) :
    router.removeNestedTableSubscription subscription =
      { router with
        keyPrefixesByTable := removeEntry router.keyPrefixesByTable subscription.logicalTable
          (·.erase subscription.keyPrefix) (·.isEmpty) } := by
  cases hold : router.keyPrefixesByTable[subscription.logicalTable]? <;>
    simp only [removeNestedTableSubscription, removeEntry, hold]

theorem Ok.insertTable (h : router.Ok) (subscription : TableSubscription) :
    (router.insertTableSubscription subscription).Ok where
  ranges := all_insertEntry h.ranges (TableKeyRangeIndex.ok_empty.insert subscription.lowerKey subscription.upperKey)
    fun _ hindex => hindex.insert subscription.lowerKey subscription.upperKey
  prefixes := h.prefixes

theorem hasRange_insertTable (table : String) (lower upper : Option String) :
    (router.insertTableSubscription subscription).HasRange table lower upper ↔
    table = subscription.table ∧
    lower = subscription.lowerKey ∧ upper = subscription.upperKey ∨
    router.HasRange table lower upper :=
  holds_insertEntry (TableKeyRangeIndex.Has · lower upper) subscription.table (all_trivial router.keyRangesByTable)
    trivial (TableKeyRangeIndex.not_has_empty lower upper) (fun _ _ => TableKeyRangeIndex.has_insert ..) table

theorem Ok.removeTable (h : router.Ok) (subscription : TableSubscription) :
    (router.removeTableSubscription subscription).Ok := by
  rw [removeTableSubscription_eq]
  exact ⟨all_removeEntry h.ranges fun _ hindex _ => hindex.remove _ _, h.prefixes⟩

theorem not_has_of_isEmpty {index : TableKeyRangeIndex} (h : index.isEmpty = true)
    (lower upper : Option String) :
    ¬ index.Has lower upper := by
  rw [TableKeyRangeIndex.isEmpty, Bool.and_eq_true, List.isEmpty_iff] at h
  cases lower with
  | none => simp [TableKeyRangeIndex.Has, h.1]
  | some lower =>
    rintro ⟨uppers, hfound, -⟩
    rw [isEmpty_iff.mp h.2, getElem?_empty] at hfound
    cases hfound

theorem hasRange_removeTable (h : router.Ok)
    (subscription : TableSubscription) (table : String) (lower upper : Option String) :
    (router.removeTableSubscription subscription).HasRange table lower upper ↔
    router.HasRange table lower upper ∧
    ¬ (table = subscription.table ∧ lower = subscription.lowerKey ∧
    upper = subscription.upperKey) := by
  rw [removeTableSubscription_eq]
  exact holds_removeEntry (TableKeyRangeIndex.Has · lower upper) subscription.table h.ranges
    (fun _ hindex => TableKeyRangeIndex.has_remove _ _ _ _ hindex) (fun _ hempty => not_has_of_isEmpty hempty _ _) table

theorem hasPrefix_removeTable (table keyPrefix : String) :
    (router.removeTableSubscription subscription).HasPrefix table keyPrefix ↔
    router.HasPrefix table keyPrefix := by
  unfold removeTableSubscription
  split <;> rfl

theorem Ok.insertNested (h : router.Ok) (subscription : NestedTableSubscription) :
    (router.insertNestedTableSubscription subscription).Ok where
  ranges := h.ranges
  prefixes := all_insertEntry h.prefixes nodup_nil.insert fun _ hprefixes => hprefixes.insert

theorem hasPrefix_insertNested (subscription : NestedTableSubscription) (table keyPrefix : String) :
    (router.insertNestedTableSubscription subscription).HasPrefix table keyPrefix ↔
    table = subscription.logicalTable ∧
    keyPrefix = subscription.keyPrefix ∨ router.HasPrefix table keyPrefix :=
  holds_insertEntry (keyPrefix ∈ ·) subscription.logicalTable (all_trivial router.keyPrefixesByTable) trivial
    not_mem_nil (fun _ _ => mem_insert_iff) table

theorem Ok.removeNested (h : router.Ok) (subscription : NestedTableSubscription) :
    (router.removeNestedTableSubscription subscription).Ok := by
  rw [removeNestedTableSubscription_eq]
  exact ⟨h.ranges, all_removeEntry h.prefixes fun _ hprefixes _ => hprefixes.erase _⟩

theorem hasPrefix_removeNested (h : router.Ok) (subscription : NestedTableSubscription)
    (table keyPrefix : String) :
    (router.removeNestedTableSubscription subscription).HasPrefix table keyPrefix ↔
    router.HasPrefix table keyPrefix ∧
        ¬ (table = subscription.logicalTable ∧ keyPrefix = subscription.keyPrefix) := by
  rw [removeNestedTableSubscription_eq]
  refine holds_removeEntry (keyPrefix ∈ ·) subscription.logicalTable h.prefixes (fun prefixes hnodup => ?_)
    (fun prefixes hempty => ?_) table
  · rw [Nodup.mem_erase_iff hnodup, and_comm]
  · simp [isEmpty_iff.mp hempty]

theorem hasRange_removeNested (subscription : NestedTableSubscription) (table : String)
    (lower upper : Option String) :
    (router.removeNestedTableSubscription subscription).HasRange table lower upper ↔
    router.HasRange table lower upper := by
  unfold removeNestedTableSubscription
  dsimp only
  split <;> rfl

/-- A range has the key, or the last prefix up to the key is one of the key. -/
theorem matches_iff (h : router.Ok) (table key : String) :
    router.matches table key = true ↔
    (∃ keyPrefix, (router.HasPrefix table keyPrefix ∧ keyPrefix ≤ key) ∧ (∀ other,
    router.HasPrefix table other → other ≤ key → other ≤ keyPrefix) ∧
    startsWith key keyPrefix = true) ∨ ∃ lower upper,
    router.HasRange table lower upper ∧ (lower.all fun lower => lower ≤ key) = true ∧
    belowUpper key upper = true := by
  rw [RecordSubscriptionRouter.matches, Bool.or_eq_true]
  refine or_congr ?_ ?_
  · cases hfound : router.keyPrefixesByTable[table]? with
    | none => simp [HasPrefix, hfound]
    | some prefixes =>
      simp only [HasPrefix, hfound, Option.any_some, Option.some.injEq, exists_eq_left', Option.any_eq_true,
        lastUpTo_eq_some]
      simp only [and_assoc]
  · cases hfound : router.keyRangesByTable[table]? with
    | none => simp [HasRange, hfound]
    | some index =>
      rw [any_some, TableKeyRangeIndex.matches_iff (h.ranges table index hfound)]
      simp [HasRange, hfound, TableKeyRangeIndex.HasKey]

end RecordSubscriptionRouter

/-! ## The subscriptions of a connection -/

/-- A range of keys, or a whole table. -/
def keyRange (table : String) (lowerKey upperKey : Option String) : TableSubscription :=
  ⟨table, lowerKey, upperKey, none, none⟩

inductive SubscriptionChange where
  | addTable (table : String) (lowerKey upperKey : Option String)
  | removeTable (table : String) (lowerKey upperKey : Option String)
  | addNestedTable (subscription : NestedTableSubscription)
  | removeNestedTable (subscription : NestedTableSubscription)

def SubscriptionChange.apply (connection : RealtimeConnectionState) :
    SubscriptionChange → RealtimeConnectionState
  | .addTable table lowerKey upperKey => (connection.addTableSubscription (keyRange table lowerKey upperKey)).1
  | .removeTable table lowerKey upperKey => (connection.removeTableSubscription (keyRange table lowerKey upperKey)).1
  | .addNestedTable subscription => (connection.addNestedTableSubscription subscription).1
  | .removeNestedTable subscription => (connection.removeNestedTableSubscription subscription).1

def Changes (connection : RealtimeConnectionState) (change : SubscriptionChange)
    (next : RealtimeConnectionState) : Prop := next = change.apply connection

/-- A nested table that is removed is the only one with its logical name and its prefix. -/
def RemovesNoTwin (connection : RealtimeConnectionState) : SubscriptionChange → Prop
  | .removeNestedTable subscription => subscription ∈ connection.subscribedNestedTables →
    ∀ other ∈ connection.subscribedNestedTables, other.logicalTable = subscription.logicalTable →
      other.keyPrefix = subscription.keyPrefix → other = subscription
  | _ => True

/-- The router holds the ranges and the prefixes of the subscriptions that are held. -/
structure Routes (connection : RealtimeConnectionState) : Prop where
  ok : connection.recordSubscriptionRouter.Ok
  rangesNodup : connection.subscribedTableRanges.Nodup
  nestedNodup : connection.subscribedNestedTables.Nodup
  plain : ∀ subscription ∈ connection.subscribedTableRanges,
    subscription = keyRange subscription.table subscription.lowerKey subscription.upperKey
  ranges : ∀ table lower upper, connection.recordSubscriptionRouter.HasRange table lower upper ↔
    keyRange table lower upper ∈ connection.subscribedTableRanges
  prefixes : ∀ table keyPrefix, connection.recordSubscriptionRouter.HasPrefix table keyPrefix ↔
    ∃ subscription ∈ connection.subscribedNestedTables,
      subscription.logicalTable = table ∧ subscription.keyPrefix = keyPrefix

theorem routes_new : Routes .new where
  ok := ⟨fun table index hfound => by simp [RealtimeConnectionState.new] at hfound,
    fun table prefixes hfound => by simp [RealtimeConnectionState.new] at hfound⟩
  rangesNodup := nodup_nil
  nestedNodup := nodup_nil
  plain := nofun
  ranges := fun table lower upper => by simp [RecordSubscriptionRouter.HasRange, RealtimeConnectionState.new]
  prefixes := fun table keyPrefix => by simp [RecordSubscriptionRouter.HasPrefix, RealtimeConnectionState.new]

namespace Routes

variable {connection : RealtimeConnectionState} (h : Routes connection)
include h

theorem addTable (table : String) (lowerKey upperKey : Option String) :
    Routes (connection.addTableSubscription (keyRange table lowerKey upperKey)).1 := by
  unfold RealtimeConnectionState.addTableSubscription
  split
  · exact ⟨h.ok, h.rangesNodup, h.nestedNodup, h.plain, h.ranges, h.prefixes⟩
  · split
    · exact h
    · next hnew =>
      refine ⟨h.ok.insertTable _, nodup_cons.mpr ⟨hnew, h.rangesNodup⟩, h.nestedNodup, ?_, ?_, h.prefixes⟩
      · rintro subscription hmem
        rcases mem_cons.mp hmem with rfl | hmem
        · rfl
        · exact h.plain subscription hmem
      · intro table' lower upper
        refine (RecordSubscriptionRouter.hasRange_insertTable _ table' lower upper).trans ?_
        rw [h.ranges, mem_cons]
        simp [keyRange]

theorem removeTable (table : String) (lowerKey upperKey : Option String) :
    Routes (connection.removeTableSubscription (keyRange table lowerKey upperKey)).1 := by
  unfold RealtimeConnectionState.removeTableSubscription
  split
  · exact ⟨h.ok, h.rangesNodup, h.nestedNodup, h.plain, h.ranges, h.prefixes⟩
  · split
    · exact h
    · refine ⟨h.ok.removeTable _, h.rangesNodup.erase _, h.nestedNodup, ?_, ?_, fun table' keyPrefix =>
        (RecordSubscriptionRouter.hasPrefix_removeTable _ table' keyPrefix).trans (h.prefixes table' keyPrefix)⟩
      · exact fun subscription hmem => h.plain subscription (mem_of_mem_erase hmem)
      · intro table' lower upper
        refine (RecordSubscriptionRouter.hasRange_removeTable h.ok _ table' lower upper).trans ?_
        rw [h.ranges, h.rangesNodup.mem_erase_iff, and_comm]
        simp [keyRange]

theorem addNestedTable (subscription : NestedTableSubscription) :
    Routes (connection.addNestedTableSubscription subscription).1 := by
  unfold RealtimeConnectionState.addNestedTableSubscription
  split
  · exact h
  · next hnew =>
    refine ⟨h.ok.insertNested _, h.rangesNodup, nodup_cons.mpr ⟨hnew, h.nestedNodup⟩, h.plain, h.ranges, ?_⟩
    intro table keyPrefix
    refine (RecordSubscriptionRouter.hasPrefix_insertNested subscription table keyPrefix).trans ?_
    rw [h.prefixes]
    simp [eq_comm]

theorem removeNestedTable {subscription : NestedTableSubscription}
    (htwin : RemovesNoTwin connection (.removeNestedTable subscription)) :
    Routes (connection.removeNestedTableSubscription subscription).1 := by
  unfold RealtimeConnectionState.removeNestedTableSubscription
  split
  · exact h
  · next hheld =>
    have htwin := htwin (Classical.not_not.mp hheld)
    refine ⟨h.ok.removeNested _, h.rangesNodup, h.nestedNodup.erase _, h.plain, fun table lower upper =>
      (RecordSubscriptionRouter.hasRange_removeNested _ table lower upper).trans (h.ranges table lower upper), ?_⟩
    intro table keyPrefix
    refine (RecordSubscriptionRouter.hasPrefix_removeNested h.ok subscription table keyPrefix).trans ?_
    rw [h.prefixes]
    constructor
    · rintro ⟨⟨other, hother, rfl, rfl⟩, hne⟩
      refine ⟨other, h.nestedNodup.mem_erase_iff.mpr ⟨?_, hother⟩, rfl, rfl⟩
      rintro rfl
      exact hne ⟨rfl, rfl⟩
    · rintro ⟨other, hother, rfl, rfl⟩
      obtain ⟨hne, hother⟩ := h.nestedNodup.mem_erase_iff.mp hother
      exact ⟨⟨other, hother, rfl, rfl⟩, fun hsame => hne (htwin other hother hsame.1 hsame.2)⟩

theorem step {change : SubscriptionChange} (hmeets : RemovesNoTwin connection change) :
    Routes (change.apply connection) := by
  cases change with
  | addTable table lowerKey upperKey => exact h.addTable table lowerKey upperKey
  | removeTable table lowerKey upperKey => exact h.removeTable table lowerKey upperKey
  | addNestedTable subscription => exact h.addNestedTable subscription
  | removeNestedTable subscription => exact h.removeNestedTable hmeets

end Routes

/-! ## What the router matches -/

/-- The held nested table has the key. -/
def NestedHas (connection : RealtimeConnectionState) (table key : String)
    (subscription : NestedTableSubscription) :
    Prop :=
  subscription ∈ connection.subscribedNestedTables ∧ subscription.logicalTable = table ∧
    startsWith key subscription.keyPrefix = true

/-- No range has the key, a nested table does, and the prefix of another one stands between the key
and the prefixes of those that do. -/
def PassedOver (connection : RealtimeConnectionState) (table key : String) : Prop :=
  (∀ subscription ∈ connection.subscribedTableRanges, subscription.matches table key = false) ∧
    (∃ subscription, NestedHas connection table key subscription) ∧
    ∃ other ∈ connection.subscribedNestedTables, other.logicalTable = table ∧ other.keyPrefix ≤ key ∧
      startsWith key other.keyPrefix = false ∧
      ∀ subscription, NestedHas connection table key subscription → subscription.keyPrefix < other.keyPrefix

theorem startsWith_iff {start : String} : startsWith key start = true ↔ Starts start key :=
  isPrefixOf_iff_prefix

variable {connection : RealtimeConnectionState} {table : String}

theorem Routes.range_iff (h : Routes connection) :
    (∃ lower upper, connection.recordSubscriptionRouter.HasRange table
    lower upper ∧ (lower.all fun lower => lower ≤ key) = true ∧ belowUpper key upper = true) ↔
    (connection.subscribedTableRanges.any fun subscription => subscription.matches table key) =
    true := by
  rw [List.any_eq_true]
  constructor
  · rintro ⟨lower, upper, hhas, hlower, hupper⟩
    refine ⟨_, (h.ranges table lower upper).mp hhas, ?_⟩
    have htable : (keyRange table lower upper).table = table := rfl
    have hplain : (keyRange table lower upper).hasIndexPrefix = false := rfl
    rw [TableSubscription.matches, htable, hplain, beq_self_eq_true, Bool.not_false, Bool.true_and, Bool.true_and,
      Bool.and_eq_true]
    exact ⟨hlower, hupper⟩
  · rintro ⟨subscription, hmem, hmatches⟩
    have hplain := h.plain subscription hmem
    simp only [TableSubscription.matches, Bool.and_eq_true, beq_iff_eq] at hmatches
    obtain ⟨⟨⟨rfl, -⟩, hlower⟩, hupper⟩ := hmatches
    exact ⟨_, _, (h.ranges _ _ _).mpr (hplain ▸ hmem), hlower, hupper⟩

theorem nestedTableMatches_iff :
    nestedTableMatches connection.subscribedNestedTables table key = true ↔
    ∃ subscription, NestedHas connection table key subscription := by
  rw [nestedTableMatches, List.any_eq_true]
  refine exists_congr fun subscription => and_congr_right fun _ => ?_
  rw [Bool.and_eq_true, beq_iff_eq]

/-- The last prefix up to the key is one of the key, if the key is in a nested table and none is
passed over. -/
theorem Routes.prefix_iff (h : Routes connection)
    (hranges : ∀ subscription ∈ connection.subscribedTableRanges,
      subscription.matches table key = false) :
    (∃ keyPrefix, (connection.recordSubscriptionRouter.HasPrefix table keyPrefix ∧
    keyPrefix ≤ key) ∧
    (∀ other, connection.recordSubscriptionRouter.HasPrefix table other → other ≤ key →
    other ≤ keyPrefix) ∧
    startsWith key keyPrefix = true) ↔
    (∃ subscription, NestedHas connection table key subscription) ∧
    ¬ PassedOver connection table key := by
  constructor
  · rintro ⟨keyPrefix, ⟨hhas, -⟩, hlast, hstarts⟩
    obtain ⟨subscription, hheld, rfl, rfl⟩ := (h.prefixes table keyPrefix).mp hhas
    refine ⟨⟨subscription, hheld, rfl, hstarts⟩, ?_⟩
    rintro ⟨-, -, other, hother, htable, hle, -, hbetween⟩
    have hbelow := hlast _ ((h.prefixes _ _).mpr ⟨other, hother, htable, rfl⟩) hle
    exact absurd (hbetween subscription ⟨hheld, rfl, hstarts⟩) (not_lt.mpr hbelow)
  · rintro ⟨hexists, hnot⟩
    let upTo := (connection.subscribedNestedTables.filter fun subscription =>
      subscription.logicalTable == table && decide (subscription.keyPrefix ≤ key)).map NestedTableSubscription.keyPrefix
    have hupTo : ∀ keyPrefix, keyPrefix ∈ upTo ↔ connection.recordSubscriptionRouter.HasPrefix table keyPrefix ∧
        keyPrefix ≤ key := by
      intro keyPrefix
      rw [h.prefixes]
      simp only [upTo, List.mem_map, List.mem_filter, Bool.and_eq_true, beq_iff_eq, decide_eq_true_eq]
      constructor
      · rintro ⟨subscription, ⟨hheld, htable, hle⟩, rfl⟩
        exact ⟨⟨subscription, hheld, htable, rfl⟩, hle⟩
      · rintro ⟨⟨subscription, hheld, htable, rfl⟩, hle⟩
        exact ⟨subscription, ⟨hheld, htable, hle⟩, rfl⟩
    obtain ⟨found, hheld, htable, hstarts⟩ := hexists
    have hmem : found.keyPrefix ∈ upTo :=
      (hupTo _).mpr ⟨(h.prefixes _ _).mpr ⟨found, hheld, htable, rfl⟩, le_of_starts (startsWith_iff.mp hstarts)⟩
    cases hmax : upTo.max? with
    | none => simp [max?_eq_none_iff.mp hmax] at hmem
    | some last =>
      obtain ⟨hlast, hall⟩ := max?_eq_some_iff.mp hmax
      have hhas := (hupTo last).mp hlast
      have hothers : ∀ other, connection.recordSubscriptionRouter.HasPrefix table other → other ≤ key → other ≤ last :=
        fun other hother hle => hall other ((hupTo other).mpr ⟨hother, hle⟩)
      refine ⟨last, hhas, hothers, ?_⟩
      by_contra hpassed
      obtain ⟨other, hother, hothertable, rfl⟩ := (h.prefixes _ _).mp hhas.1
      refine hnot ⟨hranges, ⟨found, hheld, htable, hstarts⟩, other, hother, hothertable, hhas.2,
        Bool.eq_false_iff.mpr hpassed, ?_⟩
      rintro subscription ⟨hsub, hsubtable, hsubstarts⟩
      refine lt_of_le_of_ne (hothers _ ((h.prefixes _ _).mpr ⟨subscription, hsub, hsubtable, rfl⟩)
        (le_of_starts (startsWith_iff.mp hsubstarts))) fun heq => ?_
      exact hpassed (heq ▸ hsubstarts)

theorem Routes.matches_eq_iff (h : Routes connection) :
    connection.recordSubscriptionRouter.matches table key =
    recordMatchesTableFilters table key [] connection.subscribedTableRanges connection.subscribedNestedTables ↔
    ¬ PassedOver connection table key := by
  have hmatches := RecordSubscriptionRouter.matches_iff h.ok table key
  rw [h.range_iff] at hmatches
  have hfilters : recordMatchesTableFilters table key [] connection.subscribedTableRanges
      connection.subscribedNestedTables = true ↔
        (connection.subscribedTableRanges.any fun subscription => subscription.matches table key) = true ∨
          ∃ subscription, NestedHas connection table key subscription := by
    rw [recordMatchesTableFilters, Bool.or_eq_true, Bool.or_eq_true, nestedTableMatches_iff]
    simp
  rw [Bool.eq_iff_iff, hmatches, hfilters]
  cases hany : connection.subscribedTableRanges.any fun subscription => subscription.matches table key with
  | true =>
    refine iff_of_true (by simp) fun hpassed => ?_
    obtain ⟨subscription, hmem, hmatch⟩ := any_eq_true.mp hany
    simp [hpassed.1 subscription hmem] at hmatch
  | false =>
    have hranges : ∀ subscription ∈ connection.subscribedTableRanges, subscription.matches table key = false := by
      simpa using hany
    rw [h.prefix_iff hranges]
    simp only [Bool.false_eq_true, or_false, false_or, and_iff_left_iff_imp]
    constructor
    · exact fun himp hpassed => himp hpassed.2.1 hpassed
    · exact fun hnot _ => hnot

/-- After any changes, the router tells of a key what the subscriptions that are held do, if and
only if no nested table is passed over. -/
theorem router_agrees (h : Reaches Changes RemovesNoTwin .new connection) (table key : String) :
    connection.recordSubscriptionRouter.matches table key = recordMatchesTableFilters table key []
    connection.subscribedTableRanges connection.subscribedNestedTables ↔
    ¬ PassedOver connection table key := by
  have hroutes : Routes connection := h.invariant (fun connection change next hroutes hmeets hnext => by
    rw [hnext]
    exact hroutes.step hmeets) routes_new
  exact hroutes.matches_eq_iff

section Sample

def roomA : NestedTableSubscription := ⟨"rooms", "a", "messages"⟩

def roomAB : NestedTableSubscription := ⟨"rooms", "a:b", "messages"⟩

def afterChanges (changes : List SubscriptionChange) : RealtimeConnectionState :=
  changes.foldl SubscriptionChange.apply .new

/-- A range and two rooms are subscribed, and one of the rooms is given up. -/
def roomChanges : List SubscriptionChange :=
  [.addTable "users" (some "a") none, .addNestedTable roomA, .addNestedTable roomAB, .removeNestedTable roomAB]

theorem nested_roomChanges :
    (afterChanges roomChanges).subscribedNestedTables = [roomA] := by decide +kernel

theorem reaches_roomChanges : Reaches Changes RemovesNoTwin .new (afterChanges roomChanges) := by
  have hadded : Reaches Changes RemovesNoTwin .new (afterChanges (roomChanges.take 3)) :=
    (((Reaches.refl _).tail (e := .addTable "users" (some "a") none) trivial rfl).tail
      (e := .addNestedTable roomA) trivial
      rfl).tail (e := .addNestedTable roomAB) trivial rfl
  refine hadded.tail (e := .removeNestedTable roomAB) (fun _ other hother _ hprefix => ?_) rfl
  have hheld : (afterChanges (roomChanges.take 3)).subscribedNestedTables = [roomAB, roomA] := by decide +kernel
  rw [hheld] at hother
  rcases mem_pair.mp hother with rfl | rfl
  · rfl
  · exact absurd hprefix (by decide +kernel)

/-- The router tells the room that is still held of its messages. -/
theorem router_agrees_room :
    (afterChanges roomChanges).recordSubscriptionRouter.matches "rooms.messages" "a:m" =
    recordMatchesTableFilters "rooms.messages" "a:m" [] (afterChanges roomChanges).subscribedTableRanges
    (afterChanges roomChanges).subscribedNestedTables := by
  refine (router_agrees reaches_roomChanges "rooms.messages" "a:m").mpr ?_
  rintro ⟨-, -, other, hother, -, -, hnot, -⟩
  rw [nested_roomChanges] at hother
  rw [mem_singleton.mp hother] at hnot
  revert hnot
  decide +kernel

/-- A room is passed over when the key of another one goes on where its key ends. -/
theorem router_misses_room : ¬ ∀ (changes : List SubscriptionChange) (table key : String),
    (afterChanges changes).recordSubscriptionRouter.matches table key =
    recordMatchesTableFilters table key []
    (afterChanges changes).subscribedTableRanges (afterChanges changes).subscribedNestedTables := by
  intro hall
  have hmisses := hall [.addNestedTable roomA, .addNestedTable roomAB] "rooms.messages" "a:c"
  revert hmisses
  decide +kernel

end Sample

end NextDb.Api.LiveQuery
