import NextDb.Model.Record

/-!
# Records by LSN

The readers of several log files collect their records in a map by LSN, where a
later record replaces an earlier one with its LSN.
-/

namespace NextDb.Wal

open List Std

/-- The records of the files read, by LSN. -/
def recordsByLsn (records : List WalRecord) : BTreeMap Nat WalRecord :=
  records.foldl (fun m record => m.insert record.lsn record) ∅

/-- `read_records_including_archives`, of files that hold these records. -/
def readRecordsIncludingArchives (archived active : List WalRecord) : List WalRecord :=
  (recordsByLsn (archived ++ active)).toList.map Prod.snd

/-- `read_records_from_wal_paths`, of files that hold these archived and active records. -/
def readRecordsFromWalPaths (files : List (List WalRecord × List WalRecord)) : List WalRecord :=
  (recordsByLsn (files.flatMap fun file =>
    readRecordsIncludingArchives file.1 file.2)).toList.map Prod.snd

/-- `sort_by_key(|record| record.lsn)`. -/
def orderedByLsn (records : List WalRecord) : List WalRecord :=
  records.insertionSort fun left right => left.lsn ≤ right.lsn

/-- The first record with each LSN. -/
def firstByLsn (records : List WalRecord) : BTreeMap Nat WalRecord :=
  records.foldl (fun m record => m.insertIfNew record.lsn record) ∅

/-- The greatest LSN, or 0. -/
def highestLsnOf (records : List WalRecord) : Nat := (records.map (·.lsn)).foldr max 0

/-- The LSN of the last record, or 0. -/
def lastLsn (records : List WalRecord) : Nat := (records.getLast?.map (·.lsn)).getD 0

variable {records more : List WalRecord} {r : WalRecord} {k n : Nat}

theorem le_highestLsnOf (h : r ∈ records) : r.lsn ≤ highestLsnOf records := by
  induction records with
  | nil => cases h
  | cons a records ih =>
    simp only [highestLsnOf, map_cons, foldr_cons] at ih ⊢
    rcases mem_cons.mp h with rfl | h
    · exact le_max_left ..
    · exact (ih h).trans (le_max_right ..)

theorem highestLsnOf_le (h : ∀ r ∈ records, r.lsn ≤ n) : highestLsnOf records ≤ n := by
  induction records with
  | nil => exact Nat.zero_le n
  | cons a records ih =>
    simp only [highestLsnOf, map_cons, foldr_cons] at ih ⊢
    exact max_le (h a mem_cons_self) (ih fun r hr => h r (mem_cons_of_mem _ hr))

theorem lastLsn_le (h : ∀ r ∈ records, r.lsn ≤ n) : lastLsn records ≤ n := by
  unfold lastLsn
  cases hl : records.getLast? with
  | none => exact Nat.zero_le n
  | some r => exact h r (mem_of_getLast? hl)

theorem orderedByLsn_of_ascending (h : records.Pairwise fun a b => a.lsn < b.lsn) :
    orderedByLsn records = records :=
  Pairwise.insertionSort_eq (h.imp fun h => Nat.le_of_lt h)

theorem recordsByLsn_append (records more : List WalRecord) : recordsByLsn (records ++ more) =
    more.foldl (fun m record => m.insert record.lsn record) (recordsByLsn records) := by
  rw [recordsByLsn, foldl_append]
  rfl

theorem recordsByLsn_concat (records : List WalRecord) (r : WalRecord) :
    recordsByLsn (records ++ [r]) = (recordsByLsn records).insert r.lsn r := by
  rw [recordsByLsn_append]
  rfl

theorem recordsByLsn_some (h : (recordsByLsn records)[k]? = some r) : r.lsn = k ∧ r ∈ records := by
  induction records using reverseRecOn with
  | nil => simp [recordsByLsn] at h
  | append_singleton records a ih =>
    rw [recordsByLsn_concat, ExtTreeMap.getElem?_insert] at h
    split at h
    · next hk =>
      cases h
      exact ⟨by simpa using hk, by simp⟩
    · obtain ⟨hl, hm⟩ := ih h
      exact ⟨hl, mem_append_left _ hm⟩

theorem recordsByLsn_append_of_fresh (h : ∀ r ∈ more, r.lsn ≠ k) :
    (recordsByLsn (records ++ more))[k]? = (recordsByLsn records)[k]? := by
  induction more using reverseRecOn with
  | nil => rw [append_nil]
  | append_singleton more a ih =>
    rw [← append_assoc, recordsByLsn_concat, ExtTreeMap.getElem?_insert, if_neg (by simpa using h a (by simp))]
    exact ih fun r hr => h r (mem_append_left _ hr)

theorem recordsByLsn_append_some (h : (recordsByLsn (records ++ more))[k]? = some r) :
    (recordsByLsn records)[k]? = some r ∨ r ∈ more := by
  induction more using reverseRecOn with
  | nil => rw [append_nil] at h; exact .inl h
  | append_singleton more a ih =>
    rw [← append_assoc, recordsByLsn_concat, ExtTreeMap.getElem?_insert] at h
    split at h
    · cases h
      exact .inr (by simp)
    · exact (ih h).imp_right (mem_append_left _)

theorem recordsByLsn_append_mem (hs : more.Pairwise fun a b => a.lsn ≠ b.lsn) (h : r ∈ more) :
    (recordsByLsn (records ++ more))[r.lsn]? = some r := by
  obtain ⟨before, after, rfl⟩ := append_of_mem h
  have hafter : ∀ a ∈ after, a.lsn ≠ r.lsn := fun a ha =>
    ((pairwise_cons.mp (pairwise_append.mp hs).2.1).1 a ha).symm
  rw [← singleton_append, ← append_assoc, ← append_assoc, recordsByLsn_append_of_fresh hafter, recordsByLsn_concat,
    ExtTreeMap.getElem?_insert_self]

theorem mem_readRecordsIncludingArchives {archived active : List WalRecord} {r : WalRecord} :
    r ∈ readRecordsIncludingArchives archived active ↔
    (recordsByLsn (archived ++ active))[r.lsn]? = some r := by
  simp only [readRecordsIncludingArchives, mem_map, Prod.exists,
    ExtTreeMap.mem_toList_iff_getElem?_eq_some, exists_eq_right]
  constructor
  · rintro ⟨k, h⟩
    rwa [(recordsByLsn_some h).1]
  · exact fun h => ⟨_, h⟩

/-- Appending a segment above every LSN adds its records and replaces none. -/
theorem mem_readRecords_append {archived active : List WalRecord}
    (hs : more.Pairwise fun a b => a.lsn < b.lsn)
    (habove : ∀ r ∈ more, highestLsnOf (readRecordsIncludingArchives archived active) < r.lsn) :
    r ∈ readRecordsIncludingArchives archived (active ++ more) ↔
    r ∈ readRecordsIncludingArchives archived active ∨
    r ∈ more := by
  rw [mem_readRecordsIncludingArchives, ← append_assoc]
  constructor
  · intro h
    rcases recordsByLsn_append_some h with h | h
    · exact .inl (mem_readRecordsIncludingArchives.mpr h)
    · exact .inr h
  · rintro (h | h)
    · have hle := le_highestLsnOf h
      rw [recordsByLsn_append_of_fresh fun a ha => by have := habove a ha; omega]
      exact mem_readRecordsIncludingArchives.mp h
    · exact recordsByLsn_append_mem (hs.imp fun h => h.ne) h

theorem exists_lsn_recordsByLsn : (∃ r ∈ (recordsByLsn records).toList.map Prod.snd, r.lsn = n) ↔
    ∃ r ∈ records, r.lsn = n := by
  have hmem : ∀ r, r ∈ (recordsByLsn records).toList.map Prod.snd ↔ (recordsByLsn records)[r.lsn]? = some r :=
      fun r => by
    have := @mem_readRecordsIncludingArchives [] records r
    rwa [readRecordsIncludingArchives, nil_append] at this
  constructor
  · rintro ⟨r, hr, he⟩
    exact ⟨r, (recordsByLsn_some ((hmem r).mp hr)).2, he⟩
  · intro ⟨r, hr, he⟩
    have hin : ∃ r', (recordsByLsn records)[n]? = some r' := by
      clear hmem
      induction records using reverseRecOn with
      | nil => cases hr
      | append_singleton records a ih =>
        rw [recordsByLsn_concat, ExtTreeMap.getElem?_insert]
        split
        · exact ⟨a, rfl⟩
        · next hne =>
          rcases mem_append.mp hr with hr | hr
          · exact ih hr
          · rw [mem_singleton.mp hr] at he
            exact absurd (by simpa using he) hne
    obtain ⟨r', h⟩ := hin
    have hlsn := (recordsByLsn_some h).1
    exact ⟨r', (hmem r').mpr (hlsn ▸ h), hlsn⟩

/-- Records that their LSNs tell apart are all read. -/
theorem mem_readRecords_of_distinct {archived active : List WalRecord}
    (h : ∀ r ∈ archived ++ active, ∀ r' ∈ archived ++ active, r.lsn = r'.lsn → r = r')
    {r : WalRecord} :
    r ∈ readRecordsIncludingArchives archived active ↔ r ∈ archived ++ active := by
  constructor
  · exact fun hr => (recordsByLsn_some (mem_readRecordsIncludingArchives.mp hr)).2
  · intro hr
    obtain ⟨r', hr', hl⟩ := exists_lsn_recordsByLsn.mpr ⟨r, hr, rfl⟩
    have hmem := (recordsByLsn_some (mem_readRecordsIncludingArchives.mp hr')).2
    rwa [← h r' hmem r hr hl]

theorem readRecords_ascending (archived active : List WalRecord) :
    (readRecordsIncludingArchives archived active).Pairwise fun a b => a.lsn < b.lsn := by
  rw [readRecordsIncludingArchives, pairwise_map]
  refine (ExtTreeMap.ordered_keys_toList (t := recordsByLsn (archived ++ active))).imp_of_mem ?_
  intro a b ha hb hlt
  rw [(recordsByLsn_some (ExtTreeMap.mem_toList_iff_getElem?_eq_some.mp ha)).1,
    (recordsByLsn_some (ExtTreeMap.mem_toList_iff_getElem?_eq_some.mp hb)).1]
  exact Std.compare_eq_lt.mp hlt

/-- A record whose LSN no record after it has is found under its LSN. -/
theorem recordsByLsn_insert {before after : List WalRecord} {record : WalRecord}
    (h : ∀ other ∈ after, other.lsn ≠ record.lsn) (k : Nat) :
    (recordsByLsn (before ++ record :: after))[k]? =
    if record.lsn = k then some record else (recordsByLsn (before ++ after))[k]? := by
  induction after using reverseRecOn with
  | nil =>
    rw [append_nil, recordsByLsn_concat, ExtTreeMap.getElem?_insert]
    simp
  | append_singleton after a ih =>
    have ha : a.lsn ≠ record.lsn := h a (by simp)
    rw [← cons_append, ← append_assoc, ← append_assoc,
      recordsByLsn_concat, recordsByLsn_concat, ExtTreeMap.getElem?_insert, ExtTreeMap.getElem?_insert,
      ih fun other hother => h other (mem_append_left _ hother)]
    simp only [Nat.compare_eq_eq]
    by_cases hk : a.lsn = k
    · rw [if_pos hk, if_pos hk, if_neg (by omega)]
    · rw [if_neg hk, if_neg hk]

/-- A record above all others is read last, wherever it stands. -/
theorem readByLsn_insert {before after : List WalRecord} {record : WalRecord}
    (h : ∀ other ∈ before ++ after, other.lsn < record.lsn) :
    (recordsByLsn (before ++ record :: after)).toList.map
    Prod.snd = (recordsByLsn (before ++ after)).toList.map Prod.snd ++ [record] := by
  have hasc := readRecords_ascending [] (before ++ record :: after)
  have hasc' := readRecords_ascending [] (before ++ after)
  have hmem := fun r => @mem_readRecordsIncludingArchives [] (before ++ record :: after) r
  have hmem' := fun r => @mem_readRecordsIncludingArchives [] (before ++ after) r
  simp only [readRecordsIncludingArchives, nil_append] at hasc hasc' hmem hmem'
  have hlt : ∀ r ∈ (recordsByLsn (before ++ after)).toList.map Prod.snd, r.lsn < record.lsn :=
    fun r hr => h r (recordsByLsn_some ((hmem' r).mp hr)).2
  have hfresh : ∀ other ∈ after, other.lsn ≠ record.lsn := fun other hother =>
    (h other (mem_append_right _ hother)).ne
  have hlast : ((recordsByLsn (before ++ after)).toList.map Prod.snd ++ [record]).Pairwise fun a b => a.lsn < b.lsn :=
    pairwise_append.mpr ⟨hasc', pairwise_singleton _ _, fun a ha b hb =>
      mem_singleton.mp hb ▸ hlt a ha⟩
  have hnodup : ∀ {records : List WalRecord}, records.Pairwise (fun a b => a.lsn < b.lsn) → records.Nodup :=
      fun h => h.imp fun hab he => by rw [he] at hab; omega
  refine Perm.eq_of_pairwise (fun a b _ _ hab hba => by omega) hasc hlast
    ((perm_ext_iff_of_nodup (hnodup hasc) (hnodup hlast)).mpr fun r => ?_)
  rw [mem_append, mem_singleton, hmem, hmem', recordsByLsn_insert hfresh]
  split
  · next he =>
    have hnone : (recordsByLsn (before ++ after))[r.lsn]? ≠ some r := fun hr => by
      have := h r (recordsByLsn_some hr).2
      omega
    simp [hnone, eq_comm]
  · next he =>
    have : r ≠ record := fun hr => he (by rw [hr])
    simp [this]

variable {files : List (List WalRecord × List WalRecord)}

theorem exists_lsn_readRecordsFromWalPaths :
    (∃ r ∈ readRecordsFromWalPaths files, r.lsn = n) ↔
    ∃ file ∈ files, ∃ r ∈ file.1 ++ file.2, r.lsn = n := by
  rw [readRecordsFromWalPaths, exists_lsn_recordsByLsn]
  constructor
  · rintro ⟨r, hr, he⟩
    obtain ⟨file, hfile, hr⟩ := mem_flatMap.mp hr
    exact ⟨file, hfile, exists_lsn_recordsByLsn.mp ⟨r, hr, he⟩⟩
  · rintro ⟨file, hfile, hr⟩
    obtain ⟨r, hr, he⟩ := exists_lsn_recordsByLsn.mpr hr
    exact ⟨r, mem_flatMap.mpr ⟨file, hfile, hr⟩, he⟩

theorem readRecordsFromWalPaths_eq (files : List (List WalRecord × List WalRecord)) :
    readRecordsFromWalPaths files =
    readRecordsIncludingArchives [] (files.flatMap fun file => readRecordsIncludingArchives file.1 file.2) := by
  rw [readRecordsIncludingArchives, nil_append]
  rfl

theorem readRecordsFromWalPaths_ascending (files : List (List WalRecord × List WalRecord)) :
    (readRecordsFromWalPaths files).Pairwise fun a b => a.lsn < b.lsn := by
  rw [readRecordsFromWalPaths_eq]
  exact readRecords_ascending ..

/-- Files whose records their LSNs tell apart are read whole. -/
theorem mem_readRecordsFromWalPaths
    (h : ∀ file ∈ files, ∀ file' ∈ files, ∀ r ∈ file.1 ++ file.2, ∀ r' ∈ file'.1 ++ file'.2,
      r.lsn = r'.lsn → r = r') :
    r ∈ readRecordsFromWalPaths files ↔ ∃ file ∈ files, r ∈ file.1 ++ file.2 := by
  have hall : ∀ r, r ∈ [] ++ (files.flatMap fun file => readRecordsIncludingArchives file.1 file.2) ↔
      ∃ file ∈ files, r ∈ file.1 ++ file.2 := by
    intro r
    rw [nil_append, mem_flatMap]
    exact exists_congr fun file => and_congr_right fun hfile =>
      mem_readRecords_of_distinct (h file hfile file hfile)
  rw [readRecordsFromWalPaths_eq, mem_readRecords_of_distinct, hall]
  intro r hr r' hr' hlsn
  obtain ⟨file, hfile, hr⟩ := (hall r).mp hr
  obtain ⟨file', hfile', hr'⟩ := (hall r').mp hr'
  exact h file hfile file' hfile' r hr r' hr' hlsn

theorem firstByLsn_concat (records : List WalRecord) (r : WalRecord) :
    firstByLsn (records ++ [r]) = (firstByLsn records).insertIfNew r.lsn r := by
  rw [firstByLsn, foldl_append]
  rfl

theorem firstByLsn_some (h : (firstByLsn records)[k]? = some r) : r.lsn = k ∧ r ∈ records := by
  induction records using reverseRecOn with
  | nil => simp [firstByLsn] at h
  | append_singleton records a ih =>
    rw [firstByLsn_concat, ExtTreeMap.getElem?_insertIfNew] at h
    split at h
    · next hk =>
      cases h
      exact ⟨by simpa using hk.1, by simp⟩
    · obtain ⟨hl, hm⟩ := ih h
      exact ⟨hl, mem_append_left _ hm⟩

theorem firstByLsn_mem (hs : (records.map (·.lsn)).Nodup) (h : r ∈ records) :
    (firstByLsn records)[r.lsn]? = some r := by
  induction records using reverseRecOn with
  | nil => cases h
  | append_singleton records a ih =>
    rw [map_append, nodup_append] at hs
    rw [firstByLsn_concat, ExtTreeMap.getElem?_insertIfNew]
    rcases mem_append.mp h with h | h
    · have hne : a.lsn ≠ r.lsn := fun he =>
        hs.2.2 r.lsn (mem_map_of_mem h) a.lsn (by simp) he.symm
      rw [if_neg (by simp [hne])]
      exact ih hs.1 h
    · rw [mem_singleton.mp h]
      have hfresh : a.lsn ∉ firstByLsn records := by
        intro hmem
        obtain ⟨r', hr'⟩ := ExtTreeMap.isSome_getElem?_iff_mem.mpr hmem |> Option.isSome_iff_exists.mp
        obtain ⟨hl, hm⟩ := firstByLsn_some hr'
        exact hs.2.2 r'.lsn (mem_map_of_mem hm) a.lsn (by simp) hl
      rw [if_pos ⟨by simp, hfresh⟩]

theorem mem_firstByLsn : r ∈ (firstByLsn records).toList.map Prod.snd ↔
    (firstByLsn records)[r.lsn]? = some r := by
  simp only [mem_map, Prod.exists, ExtTreeMap.mem_toList_iff_getElem?_eq_some, exists_eq_right]
  constructor
  · rintro ⟨k, h⟩
    rwa [(firstByLsn_some h).1]
  · exact fun h => ⟨_, h⟩

theorem firstByLsn_nodup (records : List WalRecord) :
    (((firstByLsn records).toList.map Prod.snd).map (·.lsn)).Nodup := by
  have hkeys : ((firstByLsn records).toList.map Prod.snd).map (·.lsn) = (firstByLsn records).toList.map Prod.fst := by
    rw [map_map]
    refine map_congr_left fun kr h => ?_
    exact (firstByLsn_some (ExtTreeMap.mem_toList_iff_getElem?_eq_some.mp h)).1
  rw [hkeys, ExtTreeMap.map_fst_toList_eq_keys]
  exact (ExtTreeMap.distinct_keys (t := firstByLsn records)).imp fun h he => h (by simp [he])

end NextDb.Wal
