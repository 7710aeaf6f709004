import NextDb.Api.RealtimeFanout

/-!
# Ranges of the fanout

The ranges of a table stand in every bucket that a key of them may be of, and in a bucket under
their lower bound. A lookup goes from the last lower bound up to the key down, and stops where no
wider range comes.

* `rangeFanoutBucket_mono`: a bucket is the first byte of the key's text, which is in the order of
  keys.
* `bucket_mem`: a key of a range is of a bucket that the range stands in.
* `RangeFanoutBucketIndex.mem_matchingSessionIds`: the lookup finds the sessions of every range with
  the key.
-/

namespace NextDb.Api.RealtimeFanout

open Frames LiveQuery List Std.ExtTreeMap Multimap

/-! ## First bytes -/

/-- The first byte of a character in UTF-8. -/
def firstByte (c : Char) : Nat :=
  if c.toNat ≤ 0x7f then c.toNat
  else if c.toNat ≤ 0x7ff then c.toNat / 64 + 192
  else if c.toNat ≤ 0xffff then c.toNat / 4096 + 224
  else c.toNat / 262144 + 240

theorem char_toNat_lt (c : Char) : c.toNat < 0x110000 := by
  rcases c.valid with h | h
  · have hlt : c.toNat < 0xd800 := h
    omega
  · exact h.2

theorem utf8EncodeChar_head (c : Char) :
    (String.utf8EncodeChar c).head?.map UInt8.toNat = some (firstByte c) := by
  have hlt := char_toNat_lt c
  have hval : c.val.toNat = c.toNat := rfl
  simp only [String.utf8EncodeChar, firstByte, hval]
  split_ifs <;> simp <;> omega

theorem firstByte_mono {c d : Char} (h : c ≤ d) : firstByte c ≤ firstByte d := by
  have hle : c.toNat ≤ d.toNat := h
  have hlt := char_toNat_lt d
  unfold firstByte
  split_ifs <;> omega

theorem firstByte_lt (c : Char) : firstByte c < 256 := by
  have hlt := char_toNat_lt c
  unfold firstByte
  split_ifs <;> omega

theorem rangeFanoutBucket_eq (key : String) :
    rangeFanoutBucket key = (key.toList.head?.map firstByte).getD 0 := by
  have hbytes : key.toUTF8 = key.toList.utf8Encode := String.utf8Encode_toList.symm
  rw [rangeFanoutBucket, hbytes]
  cases key.toList with
  | nil => rfl
  | cons c rest =>
    have hfirst := utf8EncodeChar_head c
    rw [← singleton_append, utf8Encode_append, utf8Encode_singleton]
    cases hhead : (String.utf8EncodeChar c).head? with
    | none => simp [hhead] at hfirst
    | some byte =>
      rw [hhead] at hfirst
      simpa [head?_append, hhead] using hfirst

theorem rangeFanoutBucket_lt (key : String) : rangeFanoutBucket key < 256 := by
  rw [rangeFanoutBucket_eq]
  cases key.toList with
  | nil => simp
  | cons c rest => exact firstByte_lt c

variable {key : String} {upper : Option String}

theorem rangeFanoutBucket_mono {key' : String} (h : key ≤ key') :
    rangeFanoutBucket key ≤ rangeFanoutBucket key' := by
  rw [rangeFanoutBucket_eq, rangeFanoutBucket_eq]
  rw [← not_lt, String.lt_iff_toList_lt] at h
  cases hkey : key.toList with
  | nil => simp
  | cons c rest =>
    cases hkey' : key'.toList with
    | nil =>
      rw [hkey, hkey'] at h
      exact absurd (nil_lt_cons c rest) h
    | cons d rest' =>
      rw [hkey, hkey'] at h
      refine firstByte_mono (not_lt.mp fun hlt => h ?_)
      exact cons_lt_cons_iff.mpr (.inl hlt)

/-! ## Buckets of a range -/

/-- The buckets that a range stands in, where `none` is the one for all first bytes. -/
def FanoutBucketSelection.places : FanoutBucketSelection → List (Option Nat)
  | .empty => []
  | .fallback => [none]
  | .buckets selected => selected.map some

/-- The range has the key. -/
def InRange (key : String) (lower upper : Option String) : Prop :=
  (lower.all fun lower => lower ≤ key) = true ∧ belowUpper key upper = true

variable {subscription : TableSubscription} {uppers : BTreeMap (Option String) SessionIds}
    {sessionId : String}

theorem not_emptyRange (h : InRange key subscription.lowerKey subscription.upperKey) :
    emptyRange subscription = false := by
  obtain ⟨hlower, hupper⟩ := h
  unfold emptyRange
  split
  · next lower upper hl hu =>
    rw [hl] at hlower
    rw [hu] at hupper
    have hlt : lower < upper := lt_of_le_of_lt (by simpa using hlower) (by simpa [belowUpper] using hupper)
    simpa using hlt
  · rfl

/-- A key of a range is of a bucket that the range stands in. -/
theorem bucket_mem (h : InRange key subscription.lowerKey subscription.upperKey) :
    none ∈ (rangeFanoutBuckets subscription).places ∨
    some (rangeFanoutBucket key) ∈ (rangeFanoutBuckets subscription).places := by
  have hlower : (subscription.lowerKey.map rangeFanoutBucket).getD 0 ≤ rangeFanoutBucket key := by
    cases hl : subscription.lowerKey with
    | none => simp
    | some lower =>
      have hle := h.1
      rw [hl] at hle
      exact rangeFanoutBucket_mono (by simpa using hle)
  have hupper : rangeFanoutBucket key ≤ (subscription.upperKey.map rangeFanoutBucket).getD 255 := by
    cases hu : subscription.upperKey with
    | none => exact Nat.le_of_lt_succ (rangeFanoutBucket_lt key)
    | some upper =>
      have hlt := h.2
      rw [hu] at hlt
      exact rangeFanoutBucket_mono (le_of_lt (by simpa [belowUpper] using hlt))
  simp only [rangeFanoutBuckets, not_emptyRange h, Bool.false_eq_true, if_false]
  split_ifs with hfallback hall
  · simp [FanoutBucketSelection.places]
  · simp [FanoutBucketSelection.places]
  · right
    simp only [FanoutBucketSelection.places, mem_map, Option.some.injEq, exists_eq_right, mem_range'_1]
    omega

/-! ## Upper bounds -/

theorem mem_collectMatchingUpperSessions {sessionIds : SessionIds} :
    sessionId ∈ collectMatchingUpperSessions uppers key sessionIds ↔
    (∃ upper, belowUpper key upper = true ∧ Lists uppers upper sessionId) ∨
    sessionId ∈ sessionIds := by
  have hentry : ∀ (sessionIds : SessionIds) (entry : Option String × SessionIds),
      sessionId ∈ (if belowUpper key entry.1 then sessionIds ∪ entry.2 else sessionIds) ↔
        (belowUpper key entry.1 = true ∧ sessionId ∈ entry.2) ∨ sessionId ∈ sessionIds := by
    intro sessionIds entry
    split
    · next hbelow => simp [hbelow, Std.ExtTreeSet.mem_union_iff, or_comm]
    · next hbelow => simp [hbelow]
  rw [collectMatchingUpperSessions, iff_foldl_add (sessionId ∈ ·) hentry]
  refine or_congr_left ?_
  constructor
  · rintro ⟨⟨upper, listed⟩, hmem, hbelow, hlisted⟩
    exact ⟨upper, hbelow, listed, mem_toList_iff_getElem?_eq_some.mp hmem, hlisted⟩
  · rintro ⟨upper, hbelow, listed, hfound, hlisted⟩
    exact ⟨(upper, listed), mem_toList_iff_getElem?_eq_some.mpr hfound, hbelow, hlisted⟩

theorem mem_keys_of_lists (h : Lists uppers upper sessionId) : upper ∈ uppers.keys := by
  obtain ⟨listed, hfound, -⟩ := h
  exact mem_keys.mpr (mem_iff_isSome_getElem?.mpr (by simp [hfound]))

/-! ## A bucket -/

namespace RangeFanoutBucketIndex

/-- The range stands in the bucket for the session. -/
def Has (index : RangeFanoutBucketIndex) (lower upper : Option String) (sessionId : String) :
    Prop :=
  match lower with
  | none => Lists index.unboundedLowerUppers upper sessionId
  | some lower => Holds index.uppersByLower lower fun uppers => Lists uppers upper sessionId

/-- Nothing in it is empty, and the cache is of these ranges. -/
structure Ok (index : RangeFanoutBucketIndex) : Prop where
  unbounded : Full index.unboundedLowerUppers
  uppers : All index.uppersByLower fun uppers => Full uppers ∧ uppers.isEmpty = false
  cached : index.rebuildMatchCache = index

theorem ok_default : default.Ok where
  unbounded := all_empty _
  uppers := all_empty _
  cached := by
    have hnone : default.entries = [] := by simp [entries, default]
    rw [rebuildMatchCache, hnone]
    simp [default, bestUpperForSessionMap, bestUpperForSet, bestUppers]

theorem not_has_default (lower upper : Option String) (sessionId : String) :
    ¬ default.Has lower upper sessionId := by
  cases lower with
  | none | some => exact not_holds_empty _ _

variable {index : RangeFanoutBucketIndex} (subscription : TableSubscription) (sessionId : String)

theorem has_insert (lower upper : Option String) (other : String) :
    (index.insert subscription sessionId).Has
    lower upper other ↔ (lower = subscription.lowerKey ∧ upper = subscription.upperKey ∧
    other = sessionId) ∨
    index.Has lower upper other := by
  cases hl : subscription.lowerKey with
  | none =>
    simp only [insert, hl, rebuildMatchCache]
    cases lower with
    | none => simpa [Has] using lists_addValue subscription.upperKey upper sessionId other
    | some lower => simp [Has]
  | some lowerKey =>
    simp only [insert, hl, rebuildMatchCache]
    cases lower with
    | none => simp [Has]
    | some lower =>
      have hentry := holds_insertEntry (Lists · upper other) lowerKey (all_trivial index.uppersByLower)
        trivial (not_lists_empty upper other)
        (fun uppers _ => lists_addValue subscription.upperKey upper sessionId other) lower
      simpa [Has] using hentry

theorem has_remove (lower upper : Option String) (other : String) :
    (index.remove subscription sessionId).Has lower upper other ↔ index.Has lower upper other ∧
    ¬ (lower = subscription.lowerKey ∧ upper = subscription.upperKey ∧ other = sessionId) := by
  cases hl : subscription.lowerKey with
  | none =>
    simp only [remove, hl, rebuildMatchCache]
    cases lower with
    | none => simpa [Has] using lists_removeValue subscription.upperKey upper sessionId other
    | some lower => simp [Has]
  | some lowerKey =>
    simp only [remove, hl]
    split
    · cases lower with
      | none => simp [Has, rebuildMatchCache]
      | some lower =>
        have hentry := holds_removeEntry (Lists · upper other) lowerKey (all_trivial index.uppersByLower)
          (fun uppers _ => lists_removeValue subscription.upperKey upper sessionId other)
          (fun uppers (hempty : uppers.isEmpty = true) => by
            rw [isEmpty_iff.mp hempty]
            exact not_lists_empty upper other) lower
        simpa [Has, rebuildMatchCache] using hentry
    · next habsent =>
      refine ⟨fun hhas => ⟨hhas, ?_⟩, And.left⟩
      rintro ⟨rfl, -, -⟩
      obtain ⟨uppers, hfound, -⟩ := hhas
      exact habsent (mem_iff_isSome_getElem?.mpr (by simp [hfound]))

theorem isEmpty_addValue (uppers : BTreeMap (Option String) SessionIds) (upper : Option String) :
    (addValue uppers upper sessionId).isEmpty = false := by
  refine isEmpty_eq_false_iff.mpr (ne_empty_of_mem (a := upper) ?_)
  simp [Multimap.addValue, Multimap.insertEntry]

theorem Ok.insert (h : index.Ok) : (index.insert subscription sessionId).Ok := by
  unfold RangeFanoutBucketIndex.insert
  split
  · refine ⟨h.unbounded, ?_, rfl⟩
    exact all_insertEntry h.uppers ⟨Full.addValue _ _ (all_empty _), isEmpty_addValue _ _ _⟩ fun uppers huppers =>
      ⟨huppers.1.addValue _ _, isEmpty_addValue _ _ _⟩
  · exact ⟨h.unbounded.addValue _ _, h.uppers, rfl⟩

theorem Ok.remove (h : index.Ok) : (index.remove subscription sessionId).Ok := by
  unfold RangeFanoutBucketIndex.remove
  split
  · split
    · refine ⟨h.unbounded, ?_, rfl⟩
      exact all_removeEntry h.uppers fun uppers huppers hleft => ⟨huppers.1.removeValue _ _, hleft⟩
    · exact h
  · exact ⟨h.unbounded.removeValue _ _, h.uppers, rfl⟩

theorem Ok.entries (h : index.Ok) : EntriesOk index.entries where
  ascending := by
    rw [RangeFanoutBucketIndex.entries, pairwise_map]
    exact index.uppersByLower.ordered_keys_toList.imp fun hlt => by simpa [compare_lt_iff_lt] using hlt
  nonempty := by
    intro entry hentry
    obtain ⟨⟨lower, uppers⟩, hmem, rfl⟩ := mem_map.mp hentry
    have hfull := (h.uppers lower uppers (mem_toList_iff_getElem?_eq_some.mp hmem)).2
    intro hnil
    have hkeys : uppers.keys = [] := hnil
    rw [← isEmpty_keys, hkeys] at hfull
    cases hfull

variable {lower : String}

theorem has_iff_of_some : index.Has (some lower) upper sessionId ↔
    ∃ entry ∈ index.uppersByLower.toList, entry.1 = lower ∧ Lists entry.2 upper sessionId := by
  constructor
  · rintro ⟨uppers, hfound, hlists⟩
    exact ⟨(lower, uppers), mem_toList_iff_getElem?_eq_some.mpr hfound, rfl, hlists⟩
  · rintro ⟨⟨_, uppers⟩, hentry, rfl, hlists⟩
    exact ⟨uppers, mem_toList_iff_getElem?_eq_some.mp hentry, hlists⟩

/-- Where no range from a lower bound or below has the key, none below it is found. -/
theorem not_lists_of_pruned (h : index.Ok) (hlower : lower ∈ index.entries.map Prod.fst)
    (hpruned : bestUpperMatchesKey index.prefixBestUpperByLower[lower]? key = false)
    {entry : String × BTreeMap (Option String) SessionIds}
    (hentry : entry ∈ index.uppersByLower.toList)
    (hle : entry.1 ≤ lower) (hbelow : belowUpper key upper = true) :
    ¬ Lists entry.2 upper sessionId := by
  intro hlists
  rw [← h.cached] at hpruned
  have hbest : bestUpperMatchesKey (bestUppers index.entries).2[lower]? key = _ :=
    (bestOf_bestUppers h.entries).upTo lower hlower key
  rw [show bestUpperMatchesKey (bestUppers index.entries).2[lower]? key = false from hpruned] at hbest
  have hnone := any_eq_false.mp hbest.symm (entry.1,
    entry.2.keys) (mem_map_of_mem (f := fun entry => (entry.1, entry.2.keys)) hentry)
  simp only [hle, decide_true, Bool.true_and] at hnone
  exact hnone (any_eq_true.mpr ⟨upper, mem_keys_of_lists hlists, hbelow⟩)

theorem mem_collectDown (h : index.Ok) {down : List (String × BTreeMap (Option String) SessionIds)}
    (hdown : down.Pairwise fun entry previous => previous.1 < entry.1) (hentries : ∀ entry ∈ down,
    entry ∈ index.uppersByLower.toList) (sessionIds : SessionIds) :
    sessionId ∈ index.collectDown key down sessionIds ↔
    (∃ entry ∈ down, ∃ upper, belowUpper key upper = true ∧ Lists entry.2 upper sessionId) ∨
    sessionId ∈ sessionIds := by
  induction down generalizing sessionIds with
  | nil => simp [collectDown]
  | cons entry previous ih =>
    obtain ⟨hbelow, hprevious⟩ := pairwise_cons.mp hdown
    have ih := ih hprevious fun entry hentry => hentries entry (mem_cons_of_mem _ hentry)
    have hsplit : (∃ other ∈ entry :: previous, ∃ upper, belowUpper key upper = true ∧ Lists other.2 upper sessionId) ↔
        (∃ upper, belowUpper key upper = true ∧ Lists entry.2 upper sessionId) ∨
          ∃ other ∈ previous, ∃ upper, belowUpper key upper = true ∧ Lists other.2 upper sessionId := by
      simp only [mem_cons, exists_eq_or_imp]
    rw [hsplit]
    cases previous with
    | nil => simp [collectDown, mem_collectMatchingUpperSessions]
    | cons next rest =>
      rw [collectDown]
      split
      · rw [ih, mem_collectMatchingUpperSessions]
        exact or_left_comm.trans or_assoc.symm
      · next hpruned =>
        have hnone : ¬ ∃ other ∈ next :: rest, ∃ upper, belowUpper key upper = true ∧ Lists other.2 upper sessionId :=
            by
          rintro ⟨other, hother, upper, hupper, hlists⟩
          have hmem : next ∈ index.uppersByLower.toList := hentries next (by simp)
          have hle : other.1 ≤ next.1 := by
            rcases mem_cons.mp hother with rfl | hother
            · exact le_refl _
            · exact le_of_lt ((pairwise_cons.mp hprevious).1 other hother)
          exact not_lists_of_pruned sessionId h
              (mem_map_of_mem (f := Prod.fst) (mem_map_of_mem (f := fun entry => (entry.1, entry.2.keys)) hmem))
            (by simpa using hpruned) (hentries other (mem_cons_of_mem _ hother)) hle hupper hlists
        rw [mem_collectMatchingUpperSessions, or_iff_left hnone]

/-- The lookup finds the sessions of every range with the key. -/
theorem mem_matchingSessionIds (h : index.Ok) (key : String) :
    sessionId ∈ index.matchingSessionIds key ↔
    ∃ lower upper, index.Has lower upper sessionId ∧ InRange key lower upper := by
  have hunbounded : sessionId ∈ (if bestUpperMatchesKey index.unboundedLowerBestUpper key then
        collectMatchingUpperSessions index.unboundedLowerUppers key ∅ else ∅) ↔
      ∃ upper, belowUpper key upper = true ∧ Lists index.unboundedLowerUppers upper sessionId := by
    have hbest : bestUpperMatchesKey index.unboundedLowerBestUpper key =
        index.unboundedLowerUppers.keys.any (belowUpper key) := by
      rw [← h.cached]
      exact bestUpperMatchesKey_set _ key
    rw [hbest]
    split
    · simp [mem_collectMatchingUpperSessions]
    · next hnone =>
      refine iff_of_false (by simp) ?_
      rintro ⟨upper, hbelow, hlists⟩
      exact hnone (any_eq_true.mpr ⟨upper, mem_keys_of_lists hlists, hbelow⟩)
  have hascending : index.uppersByLower.toList.Pairwise (·.1 < ·.1) :=
    index.uppersByLower.ordered_keys_toList.imp fun hlt => by simpa [compare_lt_iff_lt] using hlt
  rw [matchingSessionIds, mem_collectDown sessionId h (pairwise_reverse.mpr (hascending.filter _))
    (fun entry hentry => (mem_filter.mp (mem_reverse.mp hentry)).1), hunbounded]
  constructor
  · rintro (⟨entry, hentry, upper, hbelow, hlists⟩ | ⟨upper, hbelow, hlists⟩)
    · obtain ⟨hmem, hle⟩ := mem_filter.mp (mem_reverse.mp hentry)
      exact ⟨some entry.1, upper, (has_iff_of_some sessionId).mpr ⟨entry, hmem, rfl, hlists⟩, hle, hbelow⟩
    · exact ⟨none, upper, hlists, rfl, hbelow⟩
  · rintro ⟨lower, upper, hhas, hle, hbelow⟩
    cases lower with
    | none => exact .inr ⟨upper, hbelow, hhas⟩
    | some lower =>
      obtain ⟨entry, hmem, rfl, hlists⟩ := (has_iff_of_some sessionId).mp hhas
      exact .inl ⟨entry, mem_reverse.mpr (mem_filter.mpr ⟨hmem, hle⟩), upper, hbelow, hlists⟩

theorem isEmpty_of_not_has (h : index.Ok)
    (hnone : ∀ lower upper sessionId, ¬ index.Has lower upper sessionId) :
    index.isEmpty = true := by
  have hunbounded : index.unboundedLowerUppers = ∅ :=
    h.unbounded.eq_empty fun upper sessionId => hnone none upper sessionId
  have huppers : index.uppersByLower = ∅ := by
    refine Multimap.eq_empty (fun uppers (listed : Option String × String) => Lists uppers listed.1 listed.2)
      (h.uppers.imp fun uppers huppers => ?_) fun lower listed => hnone (some lower) listed.1 listed.2
    by_contra hno
    exact isEmpty_eq_false_iff.mp huppers.2
      (huppers.1.eq_empty fun upper sessionId hlists => hno ⟨(upper, sessionId), hlists⟩)
  simp [isEmpty, hunbounded, huppers]

theorem not_has_of_isEmpty (h : index.isEmpty = true) (lower upper : Option String) :
    ¬ index.Has lower upper sessionId := by
  rw [isEmpty, Bool.and_eq_true] at h
  cases lower with
  | none =>
    rw [Has, isEmpty_iff.mp h.1]
    exact not_holds_empty _ _
  | some lower =>
    rw [Has, isEmpty_iff.mp h.2]
    exact not_holds_empty _ _

theorem isEmpty_insert : (index.insert subscription sessionId).isEmpty = false := by
  by_contra hempty
  exact not_has_of_isEmpty sessionId (by simpa using hempty) _ _
    ((has_insert subscription sessionId subscription.lowerKey subscription.upperKey sessionId).mpr
      (.inl ⟨rfl, rfl, rfl⟩))

end RangeFanoutBucketIndex

/-! ## The ranges of a table -/

namespace RangeFanoutIndex

/-- The range stands in a place of the index for the session. -/
def Has (index : RangeFanoutIndex) (place : Option Nat) (lower upper : Option String)
    (sessionId : String) : Prop :=
  match place with
  | none => index.fallback.Has lower upper sessionId
  | some bucket => Holds index.buckets bucket fun bucket => bucket.Has lower upper sessionId

/-- The buckets have ranges, and none is empty. -/
structure Ok (index : RangeFanoutIndex) : Prop where
  fallback : index.fallback.Ok
  buckets : All index.buckets fun bucket => bucket.Ok ∧ bucket.isEmpty = false

theorem ok_default : default.Ok := ⟨RangeFanoutBucketIndex.ok_default, all_empty _⟩

theorem not_has_default (place : Option Nat) (lower upper : Option String) (sessionId : String) :
    ¬ default.Has place lower upper sessionId := by
  cases place with
  | none => exact RangeFanoutBucketIndex.not_has_default lower upper sessionId
  | some bucket => exact not_holds_empty _ _

variable {index : RangeFanoutIndex} (subscription : TableSubscription) (sessionId : String)

theorem has_insert (place : Option Nat) (lower upper : Option String) (other : String) :
    (index.insert subscription sessionId).Has place lower upper other ↔
    (place ∈ (rangeFanoutBuckets subscription).places ∧ lower = subscription.lowerKey ∧
    upper = subscription.upperKey ∧
    other = sessionId) ∨ index.Has place lower upper other := by
  have hinsert : ∀ bucket : RangeFanoutBucketIndex, (bucket.insert subscription sessionId).Has lower upper other ↔ _ :=
    fun bucket => RangeFanoutBucketIndex.has_insert subscription sessionId lower upper other
  rw [RangeFanoutIndex.insert]
  cases rangeFanoutBuckets subscription with
  | empty => simp [FanoutBucketSelection.places]
  | fallback => cases place <;> simp [Has, FanoutBucketSelection.places, hinsert]
  | buckets selected =>
    cases place with
    | none => simp [Has, FanoutBucketSelection.places]
    | some place =>
      have hall := holds_foldl_insertEntry (RangeFanoutBucketIndex.Has · lower upper other) id
        (RangeFanoutBucketIndex.not_has_default lower upper other) (fun _ => hinsert) selected index.buckets place
      simpa [Has, FanoutBucketSelection.places] using hall

theorem has_remove (place : Option Nat) (lower upper : Option String) (other : String) :
    (index.remove subscription sessionId).Has place lower upper other ↔
    index.Has place lower upper other ∧
    ¬ (place ∈ (rangeFanoutBuckets subscription).places ∧ lower = subscription.lowerKey ∧
    upper = subscription.upperKey ∧ other = sessionId) := by
  have hremove : ∀ bucket : RangeFanoutBucketIndex, (bucket.remove subscription sessionId).Has lower upper other ↔ _ :=
    fun bucket => RangeFanoutBucketIndex.has_remove subscription sessionId lower upper other
  rw [RangeFanoutIndex.remove]
  cases rangeFanoutBuckets subscription with
  | empty => simp [FanoutBucketSelection.places]
  | fallback => cases place <;> simp [Has, FanoutBucketSelection.places, hremove]
  | buckets selected =>
    cases place with
    | none => simp [Has, FanoutBucketSelection.places]
    | some place =>
      have hall := holds_foldl_removeEntry (RangeFanoutBucketIndex.Has · lower upper other) id
        (fun index hempty => RangeFanoutBucketIndex.not_has_of_isEmpty other hempty lower upper) (fun _ => hremove)
        selected index.buckets place
      refine hall.trans (and_congr_right fun _ => ?_)
      simp only [FanoutBucketSelection.places, mem_map, Option.some.injEq, exists_eq_right, id_eq]
      constructor
      · exact fun h hin => h place hin.1 ⟨rfl, hin.2⟩
      · rintro h bucket hbucket ⟨rfl, hsame⟩
        exact h ⟨hbucket, hsame⟩

theorem Ok.insert (h : index.Ok) : (index.insert subscription sessionId).Ok := by
  unfold RangeFanoutIndex.insert
  split
  · exact h
  · exact ⟨h.fallback.insert _ _, h.buckets⟩
  · refine ⟨h.fallback, all_foldl_insertEntry h.buckets (fun _ => ?_) (fun _ bucket hbucket => ?_) _⟩
    · exact ⟨RangeFanoutBucketIndex.ok_default.insert _ _, RangeFanoutBucketIndex.isEmpty_insert _ _⟩
    · exact ⟨hbucket.1.insert _ _, RangeFanoutBucketIndex.isEmpty_insert _ _⟩

theorem Ok.remove (h : index.Ok) : (index.remove subscription sessionId).Ok := by
  unfold RangeFanoutIndex.remove
  split
  · exact h
  · exact ⟨h.fallback.remove _ _, h.buckets⟩
  · exact ⟨h.fallback, all_foldl_removeEntry h.buckets (fun _ bucket hbucket hleft => ⟨hbucket.1.remove _ _, hleft⟩) _⟩

/-- The lookup looks for all first bytes and for that of the key. -/
theorem mem_matchingSessionIds (h : index.Ok) (key : String) :
    sessionId ∈ index.matchingSessionIds key ↔
    ∃ place lower upper, (place = none ∨ place = some (rangeFanoutBucket key)) ∧
    index.Has place lower upper sessionId ∧
    InRange key lower upper := by
  have hfallback := RangeFanoutBucketIndex.mem_matchingSessionIds sessionId h.fallback key
  simp only [or_and_right, exists_or, exists_and_left, exists_eq_left]
  rw [matchingSessionIds]
  cases hfound : index.buckets[rangeFanoutBucket key]? with
  | none => simpa [Has, Holds, hfound] using hfallback
  | some bucket =>
    have hbucket := RangeFanoutBucketIndex.mem_matchingSessionIds sessionId (h.buckets _ bucket hfound).1 key
    simp [Has, Holds, hfound, Std.ExtTreeSet.mem_union_iff, hfallback, hbucket]

theorem isEmpty_of_not_has (h : index.Ok)
    (hnone : ∀ place lower upper sessionId, ¬ index.Has place lower upper sessionId) :
    index.isEmpty = true := by
  have hbuckets : index.buckets = ∅ := by
    refine Multimap.eq_empty (fun bucket (range : Option String × Option String × String) =>
      bucket.Has range.1 range.2.1 range.2.2) (h.buckets.imp fun bucket hbucket => ?_)
      fun bucket range => hnone (some bucket) range.1 range.2.1 range.2.2
    by_contra hno
    have hempty := RangeFanoutBucketIndex.isEmpty_of_not_has hbucket.1 fun lower upper sessionId hhas =>
      hno ⟨(lower, upper, sessionId), hhas⟩
    rw [hempty] at hbucket
    cases hbucket.2
  rw [isEmpty, hbuckets, RangeFanoutBucketIndex.isEmpty_of_not_has h.fallback (hnone none)]
  simp

theorem not_has_of_isEmpty (h : index.isEmpty = true) (place : Option Nat)
    (lower upper : Option String) :
    ¬ index.Has place lower upper sessionId := by
  rw [isEmpty, Bool.and_eq_true] at h
  cases place with
  | none => exact RangeFanoutBucketIndex.not_has_of_isEmpty sessionId h.1 lower upper
  | some bucket =>
    rw [Has, isEmpty_iff.mp h.2]
    exact not_holds_empty _ _

end RangeFanoutIndex

end NextDb.Api.RealtimeFanout
