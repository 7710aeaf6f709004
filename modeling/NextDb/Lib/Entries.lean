import NextDb.Lib.TextKeys
import Std.Data.ExtTreeMap.Lemmas

/-!
# Entries that rows have in a store

A store of entries under keys that are texts is kept beside rows: `entries r` is what a row has in
it. `Stored entries rows find` says that what is found under a key is what the rows have there.

* `Stored.update`: a row that comes, goes or is replaced, with its entries.
* `scan_eq`: the entries whose keys start with a text, in the order of the keys.
-/

namespace NextDb.Entries

open TextKeys List Option Function

variable {ι ρ ν : Type}

/-- What is found under a key is an entry of a row, and every entry of a row is found. -/
def Stored (entries : ρ → List (String × ν)) (rows : ι → Option ρ) (find : String → Option ν) :
    Prop :=
  ∀ key value, find key = some value ↔ ∃ i r, rows i = some r ∧ (key, value) ∈ entries r

/-- The row has no key of a row at another place. -/
def Apart (entries : ρ → List (String × ν)) (rows : ι → Option ρ) (i : ι) (r : ρ) : Prop :=
  ∀ j s, j ≠ i → rows j = some s → ∀ key v w, (key, v) ∈ entries r → (key, w) ∉ entries s

/-- The key is one of the row that is there, if there is one. -/
def OfRow (entries : ρ → List (String × ν)) (row : Option ρ) (key : String) : Prop :=
  ∃ r, row = some r ∧ ∃ v, (key, v) ∈ entries r

/-- What is found after the entries of one row went and those of another came. -/
structure Replaces (entries : ρ → List (String × ν)) (old new : Option ρ)
    (find find' : String → Option ν) : Prop where
  found : ∀ key value, find' key = some value ↔ (∃ r, new = some r ∧ (key, value) ∈ entries r) ∨
      ¬ OfRow entries new key ∧ ¬ OfRow entries old key ∧ find key = some value

variable {entries : ρ → List (String × ν)} {rows : ι → Option ρ} {find find' : String → Option ν}
    {r : ρ} {key : String}
  {old : Option ρ} {value : ν}

theorem Apart.not_ofRow {i j : ι} {s : ρ} (h : Apart entries rows i r) (hj : j ≠ i)
    (hs : rows j = some s) {w : ν} (hw : (key, w) ∈ entries s) : ¬ OfRow entries (some r) key := by
  rintro ⟨r', hr', v, hv⟩
  rw [← some.inj hr'] at hv
  exact h j s hj hs key v w hv hw

/-- The store after a row is put at a place, or taken from it. -/
theorem Stored.update [DecidableEq ι] (h : Stored entries rows find) {i : ι} {new : Option ρ}
    (hapart : ∀ r,
    new = some r ∨ rows i = some r → Apart entries rows i r)
    (hfind : Replaces entries (rows i) new find find') :
    Stored entries (update rows i new) find' := by
  intro key value
  rw [hfind.found]
  constructor
  · rintro (⟨r, hr, hmem⟩ | ⟨-, hold, hfound⟩)
    · exact ⟨i, r, (update_self ..).trans hr, hmem⟩
    · obtain ⟨j, s, hs, hmem⟩ := (h key value).mp hfound
      have hj : j ≠ i := fun hj => hold ⟨s, hj ▸ hs, value, hmem⟩
      exact ⟨j, s, (update_of_ne hj ..).trans hs, hmem⟩
  · rintro ⟨j, s, hs, hmem⟩
    by_cases hj : j = i
    · subst hj
      rw [update_self] at hs
      exact .inl ⟨s, hs, hmem⟩
    · rw [update_of_ne hj] at hs
      have hnot : ∀ row : Option ρ, (∀ r, row = some r → new = some r ∨ rows i = some r) → ¬ OfRow entries row key := by
        rintro row hrow ⟨r, hr, hv⟩
        exact (hapart r (hrow r hr)).not_ofRow hj hs hmem ⟨r, rfl, hv⟩
      exact .inr ⟨hnot new fun r hr => .inl hr, hnot (rows i) fun r hr => .inr hr, (h key value).mpr ⟨j, s, hs, hmem⟩⟩

/-- What is found after the entries of a row went. -/
def Erases (entries : ρ → List (String × ν)) (old : Option ρ) (find find' : String → Option ν) :
    Prop :=
  ∀ key value, find' key = some value ↔ ¬ OfRow entries old key ∧ find key = some value

/-- What is found after the entries of a row came. -/
def Inserts (entries : ρ → List (String × ν)) (r : ρ) (find find' : String → Option ν) : Prop :=
  ∀ key value, find' key = some value ↔ (key, value) ∈ entries r ∨ ¬ OfRow entries (some r) key ∧ find key = some value

theorem Erases.replaces (h : Erases entries old find find') :
    Replaces entries old none find find' := by
  refine ⟨fun key value => ?_⟩
  rw [h]
  simp [OfRow]

theorem Erases.inserts {find'' : String → Option ν} (h : Erases entries old find find')
    (h' : Inserts entries r find' find'') : Replaces entries old (some r) find find'' := by
  refine ⟨fun key value => ?_⟩
  rw [h', h]
  simp

/-- Entries that are put where those of the old row are. -/
theorem Inserts.replaces (h : Inserts entries r find find')
    (hold : ∀ key, OfRow entries old key → OfRow entries (some r) key) :
    Replaces entries old (some r) find find' := by
  refine ⟨fun key value => ?_⟩
  rw [h]
  simp only [some.injEq, exists_eq_left']
  refine or_congr_right (and_congr_right fun hnew => ?_)
  exact ⟨fun hfound => ⟨fun hrow => hnew (hold key hrow), hfound⟩, And.right⟩

theorem inserts_refl (h : entries r = []) : Inserts entries r find find := by
  intro key value
  have hnot : ¬ OfRow entries (some r) key := by
    rintro ⟨s, hs, v, hv⟩
    rw [← some.inj hs, h] at hv
    exact not_mem_nil hv
  simp [h, hnot]

/-! ## Stores that are maps -/

variable {store store' : Std.ExtTreeMap String ν}

theorem getElem?_foldl_erase (keys : List String) (store : Std.ExtTreeMap String ν) (key : String) :
    (keys.foldl (·.erase ·) store)[key]? = if key ∈ keys then none else store[key]? := by
  induction keys generalizing store with
  | nil => rfl
  | cons k keys ih =>
    rw [foldl_cons, ih, Std.ExtTreeMap.getElem?_erase]
    by_cases hk : k = key
    · simp [hk]
    · simp [hk, Ne.symm hk]

/-- Keys are removed of which those that are found are of the row, and all that are of it. -/
theorem erases_of_keys (keys : List String)
    (hstore : ∀ key, store'[key]? = if key ∈ keys then none else store[key]?)
    (hfound : ∀ key ∈ keys, ∀ value, store[key]? = some value → OfRow entries old key)
    (hold : ∀ key,
    OfRow entries old key → key ∈ keys) :
    Erases entries old (fun key => store[key]?) fun key => store'[key]? := by
  intro key value
  dsimp only
  rw [hstore]
  split
  · next hk =>
    refine iff_of_false nofun fun ⟨hnot, h⟩ => hnot (hfound key hk value h)
  · next hk => exact ⟨fun h => ⟨fun hrow => hk (hold key hrow), h⟩, And.right⟩

theorem inserts_one (h : entries r = [(key, value)])
    (hstore : ∀ k, store'[k]? = if key = k then some value else store[k]?) :
    Inserts entries r (fun key => store[key]?) fun key => store'[key]? := by
  intro k v
  have hrow : OfRow entries (some r) k ↔ k = key := by
    simp [OfRow, h]
  dsimp only
  rw [hstore, hrow, h, mem_singleton, Prod.mk.injEq]
  by_cases hk : key = k
  · simp [hk, eq_comm]
  · have hk' : k ≠ key := fun he => hk he.symm
    simp [hk, hk']

/-- Entries that are inserted one after the other, if a key has one value. -/
theorem getElem?_foldl_insert {es : List (String × ν)}
    {store : Std.ExtTreeMap String ν} (hone : ∀ key v w, (key, v) ∈ es → (key, w) ∈ es → v = w) :
    (es.foldl (fun store entry => store.insert entry.1 entry.2) store)[key]? = some value ↔
    (key, value) ∈ es ∨
    (∀ w, (key, w) ∉ es) ∧ store[key]? = some value := by
  induction es generalizing store with
  | nil => simp
  | cons e es ih =>
    have hone' : ∀ key v w, (key, v) ∈ es → (key, w) ∈ es → v = w := fun key v w hv hw =>
      hone key v w (mem_cons_of_mem _ hv) (mem_cons_of_mem _ hw)
    rw [foldl_cons, ih hone', Std.ExtTreeMap.getElem?_insert]
    by_cases hk : e.1 = key
    · subst hk
      rw [if_pos (compare_eq_iff_eq.mpr rfl)]
      constructor
      · rintro (hmem | ⟨-, hvalue⟩)
        · exact .inl (mem_cons_of_mem _ hmem)
        · exact .inl (some.inj hvalue ▸ mem_cons_self)
      · rintro (hmem | ⟨hnot, -⟩)
        · by_cases hin : ∃ w, (e.1, w) ∈ es
          · obtain ⟨w, hw⟩ := hin
            exact .inl (hone _ _ _ hmem (mem_cons_of_mem _ hw) ▸ hw)
          · exact .inr ⟨fun w hw => hin ⟨w, hw⟩, congrArg some (hone _ _ _ mem_cons_self hmem)⟩
        · exact absurd mem_cons_self (hnot e.2)
    · rw [if_neg fun h => hk (compare_eq_iff_eq.mp h)]
      have hne : ∀ w, (key, w) ∈ e :: es ↔ (key, w) ∈ es := by
        intro w
        rw [mem_cons, or_iff_right]
        rintro rfl
        exact hk rfl
      simp only [hne]

theorem inserts_foldl (hone : ∀ key v w, (key, v) ∈ entries r → (key, w) ∈ entries r → v = w)
    (hstore : store' = (entries r).foldl (fun store entry => store.insert entry.1 entry.2) store) :
    Inserts entries r (fun key => store[key]?) fun key => store'[key]? := by
  intro key value
  have hrow : ¬ OfRow entries (some r) key ↔ ∀ w, (key, w) ∉ entries r := by simp [OfRow]
  dsimp only
  rw [hrow, hstore, getElem?_foldl_insert hone]

/-! ## Scanning -/

/-- The entries whose keys start with a text. -/
def scan (start : String) (store : Std.ExtTreeMap String ν) : List (String × ν) :=
  store.toList.filter fun entry => decide (Starts start entry.1)

theorem mem_scan {start : String} : (key, value) ∈ scan start store ↔
    Starts start key ∧ store[key]? = some value := by
  rw [scan, mem_filter, Std.ExtTreeMap.mem_toList_iff_getElem?_eq_some, decide_eq_true_iff, and_comm]

/-- A list of the entries in the order of their keys is what a scan gives. -/
theorem scan_eq {start : String} {expected : List (String × ν)}
    (hasc : expected.Pairwise fun a b => a.1 < b.1)
    (hmem : ∀ key value, (key, value) ∈ expected ↔ Starts start key ∧ store[key]? = some value) :
    scan start store = expected := by
  have hlt : (scan start store).Pairwise fun a b => a.1 < b.1 := by
    refine Pairwise.filter _ (store.ordered_keys_toList.imp fun h => ?_)
    simpa [compare_lt_iff_lt] using h
  have hnodup : ∀ {l : List (String × ν)}, (l.Pairwise fun a b => a.1 < b.1) → l.Nodup := by
    intro l h
    refine Pairwise.imp (fun {a b} (hab : a.1 < b.1) => ?_) h
    rintro rfl
    exact lt_irrefl _ hab
  have hperm : (scan start store).Perm expected := by
    refine (perm_ext_iff_of_nodup (hnodup hlt) (hnodup hasc)).mpr fun ⟨key, value⟩ => ?_
    rw [mem_scan, hmem]
  exact hperm.eq_of_pairwise (fun a b _ _ hab hba => absurd (hab.trans hba) (lt_irrefl _)) hlt hasc

end NextDb.Entries
