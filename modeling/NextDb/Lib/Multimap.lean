import Mathlib.Data.List.Basic
import Std.Data.ExtTreeMap.Lemmas
import Std.Data.ExtTreeSet.Lemmas

/-!
# Maps of indexes

A map from keys to indexes. The entry of a key is made when something is put into it and goes when
nothing is left in it. An index may be a set of values, or again such a map.

* `holds_insertEntry`, `holds_removeEntry`: what the entries have after a change of one of them.
* `all_insertEntry`, `all_removeEntry`: what is true of every entry.
* `eq_empty`: a map whose entries have nothing is empty, if no entry is empty.
* `lists_addValue`, `lists_removeValue`: sets of values.
* `iff_foldl_add`, `iff_foldl_remove`: a list of changes.
-/

namespace NextDb.Multimap

open List Option Std Std.ExtTreeMap

/-! ## Lists of changes -/

section Changes

variable {σ α : Type} {step : σ → α → σ} (has : σ → Prop)

theorem iff_foldl_add {new : α → Prop} (hstep : ∀ s a, has (step s a) ↔ new a ∨ has s)
    (changes : List α) (s : σ) :
    has (changes.foldl step s) ↔ (∃ a ∈ changes, new a) ∨ has s := by
  induction changes generalizing s with
  | nil => simp
  | cons a changes ih =>
    rw [foldl_cons, ih, hstep]
    simp only [mem_cons, exists_eq_or_imp]
    exact or_left_comm.trans or_assoc.symm

theorem iff_foldl_remove {old : α → Prop} (hstep : ∀ s a, has (step s a) ↔ has s ∧ ¬ old a)
    (changes : List α) (s : σ) :
    has (changes.foldl step s) ↔ has s ∧ ∀ a ∈ changes, ¬ old a := by
  induction changes generalizing s with
  | nil => simp
  | cons a changes ih =>
    rw [foldl_cons, ih, hstep]
    simp only [forall_mem_cons, and_assoc]

theorem foldl_keeps {I : σ → Prop} (hstep : ∀ s a, I s → I (step s a)) (changes : List α) {s : σ}
    (h : I s) :
    I (changes.foldl step s) := by
  induction changes generalizing s with
  | nil => exact h
  | cons a changes ih => exact ih (hstep s a h)

end Changes

/-! ## Entries -/

section Entries

variable {κ ι : Type} {cmp : κ → κ → Ordering} [Std.TransCmp cmp]

/-- Changes the entry of a key, which starts as `fresh`. -/
def insertEntry (map : ExtTreeMap κ ι cmp) (key : κ) (fresh : ι) (change : ι → ι) :
    ExtTreeMap κ ι cmp :=
  map.insert key (change (map.getD key fresh))

/-- Changes the entry of a key, if there is one, and removes it if it is empty afterwards. -/
def removeEntry (map : ExtTreeMap κ ι cmp) (key : κ) (change : ι → ι) (isEmpty : ι → Bool) :
    ExtTreeMap κ ι cmp :=
  match map[key]? with
  | none => map
  | some index => if isEmpty (change index) then map.erase key else map.insert key (change index)

/-- The entry of the key is there, and has it. -/
def Holds (map : ExtTreeMap κ ι cmp) (key : κ) (has : ι → Prop) : Prop :=
  ∃ index, map[key]? = some index ∧ has index

/-- Every index of the map satisfies the predicate. -/
def All (map : ExtTreeMap κ ι cmp) (P : ι → Prop) : Prop :=
  ∀ (key : κ) (index : ι), map[key]? = some index → P index

theorem not_holds_empty (key : κ) (has : ι → Prop) : ¬ Holds (∅ : ExtTreeMap κ ι cmp) key has := by
  simp [Holds]

theorem all_empty (P : ι → Prop) : All (∅ : ExtTreeMap κ ι cmp) P := by
  simp [All]

theorem all_trivial (map : ExtTreeMap κ ι cmp) : All map fun _ => True := fun _ _ _ => trivial

variable {map : Std.ExtTreeMap κ ι cmp} {P : ι → Prop}

theorem All.imp {Q : ι → Prop} (hmap : All map P) (h : ∀ index, P index → Q index) : All map Q :=
  fun key index hfound => h index (hmap key index hfound)

theorem eq_empty {ρ : Type} (has : ι → ρ → Prop) (hall : All map fun index => ∃ r,
    has index r) (hnone : ∀ key r, ¬ Holds map key fun index => has index r) : map = ∅ := by
  refine eq_empty_iff_forall_not_mem.mpr fun key hkey => ?_
  obtain ⟨index, hfound⟩ := mem_iff_isSome_getElem?.mp hkey |> isSome_iff_exists.mp
  obtain ⟨r, hr⟩ := hall key index hfound
  exact hnone key r ⟨index, hfound, hr⟩

theorem erase_of_absent [LawfulEqCmp cmp] {key : κ} (h : map[key]? = none) :
    map.erase key = map := by
  refine ext_getElem? fun key' => ?_
  rw [getElem?_erase]
  split
  · next hsame => rw [← getElem?_congr hsame, h]
  · rfl

theorem modify_of_absent [LawfulEqCmp cmp] {key : κ} (change : ι → ι) (h : map[key]? = none) :
    map.modify key change = map := by
  refine ext_getElem? fun key' => ?_
  rw [ExtTreeMap.getElem?_modify]
  split
  · next hsame => rw [← getElem?_congr hsame, h, map_none]
  · rfl

variable {key : κ} {fresh : ι} {change : ι → ι} {isEmpty : ι → Bool}

theorem all_insertEntry (hmap : All map P) (hfresh : P (change fresh))
    (hchange : ∀ index, P index → P (change index)) :
    All (insertEntry map key fresh change) P := by
  intro key' index hfound
  rw [insertEntry, ExtTreeMap.getElem?_insert, ExtTreeMap.getD_eq_getD_getElem?] at hfound
  split at hfound
  · obtain rfl := some.inj hfound
    cases hold : map[key]? with
    | none => exact hfresh
    | some index => exact hchange index (hmap key index hold)
  · exact hmap key' index hfound

theorem all_removeEntry (hmap : All map P) (hchange : ∀ index,
    P index → isEmpty (change index) = false → P (change index)) :
    All (removeEntry map key change isEmpty) P := by
  cases hold : map[key]? with
  | none => simpa only [removeEntry, hold] using hmap
  | some index =>
    intro key' index' hfound
    simp only [removeEntry, hold] at hfound
    split at hfound
    · rw [getElem?_erase] at hfound
      split at hfound
      · cases hfound
      · exact hmap key' index' hfound
    · next hleft =>
      rw [ExtTreeMap.getElem?_insert] at hfound
      split at hfound
      · obtain rfl := some.inj hfound
        exact hchange index (hmap key index hold) (by simpa using hleft)
      · exact hmap key' index' hfound

variable [Std.LawfulEqCmp cmp] {good : ι → Prop} (has : ι → Prop)

theorem holds_insertEntry {new : Prop} (key : κ) (hmap : All map good) (hgood : good fresh)
    (hfresh : ¬ has fresh) (hchange : ∀ index, good index → (has (change index) ↔ new ∨ has index))
    (key' : κ) :
    Holds (insertEntry map key fresh change) key' has ↔ key' = key ∧ new ∨ Holds map key' has := by
  simp only [Holds, insertEntry, ExtTreeMap.getElem?_insert, LawfulEqCmp.compare_eq_iff_eq]
  by_cases hsame : key = key'
  · subst hsame
    rw [getD_eq_getD_getElem?]
    cases hold : map[key]? with
    | none => simp [hchange fresh hgood, hfresh]
    | some index => simp [hchange index (hmap key index hold)]
  · simp [hsame, Ne.symm hsame]

theorem holds_removeEntry {old : Prop} (key : κ) (hmap : All map good) (hchange : ∀ index,
    good index → (has (change index) ↔ has index ∧ ¬ old))
    (hempty : ∀ index, isEmpty index = true → ¬ has index)
    (key' : κ) : Holds (removeEntry map key change isEmpty) key' has ↔ Holds map key' has ∧
    ¬ (key' = key ∧ old) := by
  cases hold : map[key]? with
  | none =>
    simp only [removeEntry, hold]
    refine ⟨fun hholds => ⟨hholds, ?_⟩, And.left⟩
    rintro ⟨rfl, -⟩
    obtain ⟨index, hfound, -⟩ := hholds
    cases hold.symm.trans hfound
  | some index =>
    have hchange := hchange index (hmap key index hold)
    simp only [removeEntry, hold, Holds]
    by_cases hsame : key = key'
    · subst hsame
      split
      · next hnothing =>
        have hnot := hempty _ hnothing
        rw [hchange] at hnot
        simpa [hold] using hnot
      · simp [hold, hchange]
    · split <;> simp [ExtTreeMap.getElem?_erase, ExtTreeMap.getElem?_insert, hsame, Ne.symm hsame]

/-- An empty entry that is left was there before, of another key. -/
theorem empty_removeEntry {key' : κ} {index : ι}
    (hfound : (removeEntry map key change isEmpty)[key']? = some index)
    (hempty : isEmpty index = true) : map[key']? = some index ∧ key' ≠ key := by
  cases hold : map[key]? with
  | none =>
    simp only [removeEntry, hold] at hfound
    refine ⟨hfound, ?_⟩
    rintro rfl
    cases hold.symm.trans hfound
  | some old =>
    simp only [removeEntry, hold] at hfound
    by_cases hsame : key = key'
    · subst hsame
      split at hfound
      · simp at hfound
      · next hleft =>
        rw [getElem?_insert_self] at hfound
        exact absurd (some.inj hfound ▸ hempty) hleft
    · split at hfound <;> simp_all [ExtTreeMap.getElem?_erase, ExtTreeMap.getElem?_insert, Ne.symm hsame]

/-! ## Lists of entries -/

variable {α : Type} (keyOf : α → κ) {changeBy : α → ι → ι}

theorem holds_foldl_insertEntry {new : α → Prop} (hfresh : ¬ has fresh)
    (hchange : ∀ a index, has (changeBy a index) ↔ new a ∨ has index) (changes : List α)
    (map : ExtTreeMap κ ι cmp)
    (key' : κ) : Holds (changes.foldl (fun map a => insertEntry map (keyOf a) fresh (changeBy a)) map) key' has ↔
    (∃ a ∈ changes, key' = keyOf a ∧ new a) ∨ Holds map key' has :=
  iff_foldl_add (Holds · key' has) (fun map a =>
    holds_insertEntry has (keyOf a) (all_trivial map) trivial hfresh (fun index _ => hchange a index) key') changes map

theorem holds_foldl_removeEntry {old : α → Prop}
    (hempty : ∀ index, isEmpty index = true → ¬ has index)
    (hchange : ∀ a index, has (changeBy a index) ↔ has index ∧ ¬ old a) (changes : List α)
    (map : ExtTreeMap κ ι cmp) (key' : κ) :
    Holds (changes.foldl (fun map a => removeEntry map (keyOf a) (changeBy a) isEmpty) map) key' has ↔
    Holds map key' has ∧ ∀ a ∈ changes, ¬ (key' = keyOf a ∧ old a) :=
  iff_foldl_remove (Holds · key' has) (fun map a =>
    holds_removeEntry has (keyOf a) (all_trivial map) (fun index _ => hchange a index) hempty key') changes map

end Entries

section EveryEntry

variable {κ ι α : Type} {cmp : κ → κ → Ordering} [Std.TransCmp cmp] {map : Std.ExtTreeMap κ ι cmp}
    {fresh : ι}
  {isEmpty : ι → Bool} {keyOf : α → κ} {changeBy : α → ι → ι} {P : ι → Prop}

theorem all_foldl_insertEntry (hmap : All map P)
    (hfresh : ∀ a, P (changeBy a fresh)) (hchange : ∀ a index, P index → P (changeBy a index))
    (changes : List α) :
    All (changes.foldl (fun map a => insertEntry map (keyOf a) fresh (changeBy a)) map) P :=
  foldl_keeps (I := fun map => All map P) (fun _ a hmap => all_insertEntry hmap (hfresh a) (hchange a)) changes hmap

theorem all_foldl_removeEntry (hmap : All map P)
    (hchange : ∀ a index, P index → isEmpty (changeBy a index) = false → P (changeBy a index))
    (changes : List α) :
    All (changes.foldl (fun map a => removeEntry map (keyOf a) (changeBy a) isEmpty) map) P :=
  foldl_keeps (I := fun map => All map P) (fun _ a hmap => all_removeEntry hmap (hchange a)) changes hmap

/-- An entry is of one of the keys, or was there before. -/
theorem entry_foldl_insertEntry [LawfulEqCmp cmp] (changes : List α) {key : κ} {index : ι}
    (hfound : (changes.foldl (fun map a => insertEntry map (keyOf a) fresh (changeBy a)) map)[key]? = some index) :
    (∃ a ∈ changes, key = keyOf a) ∨ map[key]? = some index := by
  induction changes generalizing map with
  | nil => exact .inr hfound
  | cons a changes ih =>
    rcases ih hfound with ⟨a', ha', hsame⟩ | hbefore
    · exact .inl ⟨a', mem_cons_of_mem _ ha', hsame⟩
    · simp only [insertEntry, ExtTreeMap.getElem?_insert] at hbefore
      split at hbefore
      · next hsame => exact .inl ⟨a, mem_cons_self, (LawfulEqCmp.compare_eq_iff_eq.mp hsame).symm⟩
      · exact .inr hbefore

/-- An empty entry that is left was there before, and is of none of the keys. -/
theorem empty_foldl_removeEntry [LawfulEqCmp cmp] (changes : List α) {key : κ} {index : ι}
    (hfound : (changes.foldl (fun map a => removeEntry map (keyOf a) (changeBy a) isEmpty) map)[key]? = some index)
    (hempty : isEmpty index = true) : map[key]? = some index ∧ ∀ a ∈ changes, key ≠ keyOf a := by
  induction changes generalizing map with
  | nil => exact ⟨hfound, by simp⟩
  | cons a changes ih =>
    obtain ⟨hfirst, hothers⟩ := ih hfound
    obtain ⟨hbefore, hne⟩ := empty_removeEntry hfirst hempty
    exact ⟨hbefore, forall_mem_cons.mpr ⟨hne, hothers⟩⟩

end EveryEntry

/-! ## Sets of values -/

section Values

variable {κ ν : Type} {cmp : κ → κ → Ordering} {cmp' : ν → ν → Ordering} [Std.TransCmp cmp]
    [Std.TransCmp cmp']

def addValue (map : ExtTreeMap κ (ExtTreeSet ν cmp') cmp) (key : κ) (value : ν) :
    ExtTreeMap κ (ExtTreeSet ν cmp') cmp :=
  insertEntry map key ∅ (·.insert value)

def removeValue (map : ExtTreeMap κ (ExtTreeSet ν cmp') cmp) (key : κ) (value : ν) :
    ExtTreeMap κ (ExtTreeSet ν cmp') cmp :=
  removeEntry map key (·.erase value) (·.isEmpty)

/-- The value is listed under the key. -/
def Lists (map : ExtTreeMap κ (ExtTreeSet ν cmp') cmp) (key : κ) (value : ν) : Prop :=
  Holds map key (value ∈ ·)

/-- No set is empty. -/
def Full (map : ExtTreeMap κ (ExtTreeSet ν cmp') cmp) : Prop :=
  All map fun values => ∃ value, value ∈ values

theorem exists_mem_of_isEmpty {values : ExtTreeSet ν cmp'} (h : values.isEmpty = false) :
    ∃ value, value ∈ values := by
  by_contra hnone
  exact ExtTreeSet.isEmpty_eq_false_iff.mp h
    (ExtTreeSet.eq_empty_iff_forall_not_mem.mpr fun value hvalue => hnone ⟨value, hvalue⟩)

variable {map : Std.ExtTreeMap κ (Std.ExtTreeSet ν cmp') cmp} (key key' : κ) (value value' : ν)

theorem Full.addValue (h : Full map) : Full (addValue map key value) :=
  all_insertEntry h ⟨value, ExtTreeSet.mem_insert_self⟩ fun _ _ => ⟨value, ExtTreeSet.mem_insert_self⟩

theorem Full.removeValue (h : Full map) : Full (removeValue map key value) :=
  all_removeEntry h fun _ _ hleft => exists_mem_of_isEmpty hleft

theorem Full.eq_empty (h : Full map) (hnone : ∀ key value, ¬ Lists map key value) : map = ∅ :=
  Multimap.eq_empty (fun values value => value ∈ values) h hnone

theorem not_lists_empty : ¬ Lists (∅ : ExtTreeMap κ (ExtTreeSet ν cmp') cmp) key value :=
  not_holds_empty _ _

variable [Std.LawfulEqCmp cmp] [Std.LawfulEqCmp cmp']

theorem lists_addValue : Lists (addValue map key value) key' value' ↔ key' = key ∧ value' = value ∨
    Lists map key' value' := by
  refine holds_insertEntry (value' ∈ ·) key (all_trivial map) trivial (by simp) (fun values _ => ?_) key'
  rw [ExtTreeSet.mem_insert, LawfulEqCmp.compare_eq_iff_eq, eq_comm]

theorem lists_removeValue : Lists (removeValue map key value) key' value' ↔ Lists map key' value' ∧
    ¬ (key' = key ∧ value' = value) := by
  refine holds_removeEntry (value' ∈ ·) key (all_trivial map) (fun values _ => ?_) (fun values hempty => ?_) key'
  · rw [ExtTreeSet.mem_erase, ne_eq, LawfulEqCmp.compare_eq_iff_eq, and_comm, eq_comm (a := value)]
  · rw [ExtTreeSet.isEmpty_iff.mp hempty]
    simp

end Values

end NextDb.Multimap
