import Mathlib.Data.List.Nodup
import NextDb.Lib.Descent

/-!
# Rows in a tree that grows

Rows are stored at the nodes of a tree, each under its key. A row may be held outside
of the tree, to be stored at a node. In a `Placed` tree each key has its latest row and
no other, stored or held, and it is for the node where the key rests.

* `Placed.put`: a new row of a key that is not held is stored.
* `Placed.take`: the rows of a node are held.
* `Placed.split`: a node without rows becomes inner.
* `Placed.give`: a held row is stored.
-/

namespace NextDb.Placement

open Descent List

variable {ν κ ρ : Type} {child : ν → κ → ν} {root : κ → ν} {key : ρ → κ}

/-- Each key's latest row is at the node where the key rests, or is held by a call. -/
structure Placed (child : ν → κ → ν) (root : κ → ν) (key : ρ → κ) (inner : ν → Prop)
    (rowAt : ν → κ → Option ρ) (latest : κ → Option ρ) (held : List (ν × ρ)) : Prop where
  keyed : ∀ k r, latest k = some r → key r = k
  stored : ∀ t k r, rowAt t k = some r → latest k = some r ∧ Rests child inner (root k) k t
  taken : ∀ t r, (t, r) ∈ held → latest (key r) = some r ∧
    Rests child inner (root (key r)) (key r) t ∧ ∀ t', rowAt t' (key r) = none
  nodup : (held.map fun h => key h.2).Nodup
  complete : ∀ k r, latest k = some r → (∃ t, rowAt t k = some r) ∨ ∃ t, (t, r) ∈ held

variable {inner : ν → Prop} {rowAt : ν → κ → Option ρ} {latest : κ → Option ρ}
    {held held' : List (ν × ρ)}

theorem Placed.perm (h : Placed child root key inner rowAt latest held) (hp : held'.Perm held) :
    Placed child root key inner rowAt latest held' where
  keyed := h.keyed
  stored := h.stored
  taken t r hmem := h.taken t r (hp.mem_iff.mp hmem)
  nodup := (hp.map _).nodup_iff.mpr h.nodup
  complete k r hk := (h.complete k r hk).imp_right fun ⟨t, ht⟩ => ⟨t, hp.mem_iff.mpr ht⟩

theorem Placed.congr_inner {inner' : ν → Prop} (h : Placed child root key inner rowAt latest held)
    (hiff : ∀ x, inner' x ↔ inner x) : Placed child root key inner' rowAt latest held := by
  rw [show inner' = inner from funext fun x => propext (hiff x)]
  exact h

variable {t : ν} {r : ρ}

variable [DecidableEq ν]

/-- The rows of a node are taken out, to be stored there again. -/
theorem Placed.take (h : Placed child root key inner rowAt latest held)
    {rows : List ρ} (hrows : ∀ r, r ∈ rows ↔ ∃ k, rowAt t k = some r)
    (hnodup : (rows.map key).Nodup) :
    Placed child root key inner (fun t' k => if t' = t then none else rowAt t' k) latest (rows.map (t, ·) ++ held) where
  keyed := h.keyed
  stored t' k r hrow := by
    split at hrow
    · cases hrow
    · exact h.stored t' k r hrow
  taken t' r hmem := by
    rcases mem_append.mp hmem with hmem | hmem
    · obtain ⟨r', hr', he⟩ := mem_map.mp hmem
      cases he
      obtain ⟨k, hk⟩ := (hrows r).mp hr'
      obtain ⟨hlatest, hrests⟩ := h.stored t k r hk
      have hkey := h.keyed k r hlatest
      subst hkey
      refine ⟨hlatest, hrests, fun t' => ?_⟩
      split
      · rfl
      · next hne =>
        cases hother : rowAt t' (key r) with
        | none => rfl
        | some r' => exact absurd ((h.stored t' _ r' hother).2.unique hrests) hne
    · obtain ⟨hlatest, hrests, hnone⟩ := h.taken t' r hmem
      refine ⟨hlatest, hrests, fun t'' => ?_⟩
      split
      · rfl
      · exact hnone t''
  nodup := by
    rw [map_append, map_map]
    refine nodup_append.mpr ⟨hnodup, h.nodup, fun k hk k' hk' he => ?_⟩
    obtain ⟨r, hr, rfl⟩ := mem_map.mp hk
    obtain ⟨⟨t', r'⟩, hmem, rfl⟩ := mem_map.mp hk'
    obtain ⟨k, hk⟩ := (hrows r).mp hr
    have hkey := h.keyed k r (h.stored t k r hk).1
    subst hkey
    have hnone := (h.taken t' r' hmem).2.2 t
    rw [show key r' = key r from he.symm, hk] at hnone
    cases hnone
  complete k r hk := by
    rcases h.complete k r hk with ⟨t', ht'⟩ | ⟨t', ht'⟩
    · by_cases ht : t' = t
      · subst ht
        exact .inr ⟨t', mem_append_left _ (mem_map_of_mem ((hrows r).mpr ⟨k, ht'⟩))⟩
      · exact .inl ⟨t', (if_neg ht).trans ht'⟩
    · exact .inr ⟨t', mem_append_right _ ht'⟩

/-- A held row is for a child of the node that becomes inner, if it was for that node. -/
def aim (child : ν → κ → ν) (key : ρ → κ) (t : ν) (g : ν × ρ) : ν × ρ :=
  if g.1 = t then (child t (key g.2), g.2) else g

theorem aim_row (t : ν) (g : ν × ρ) : (aim child key t g).2 = g.2 := by
  unfold aim
  split <;> rfl

theorem Placed.split (h : Placed child root key inner rowAt latest held)
    (hempty : ∀ k, rowAt t k = none) (hchild : ∀ k, ¬inner (child t k)) (hne : ∀ k, child t k ≠ t) :
    Placed child root key (fun x => inner x ∨ x = t) rowAt latest (held.map (aim child key t)) where
  keyed := h.keyed
  stored t' k r hrow := by
    obtain ⟨hlatest, hrests⟩ := h.stored t' k r hrow
    have ht : t' ≠ t := by
      rintro rfl
      rw [hempty k] at hrow
      cases hrow
    exact ⟨hlatest, hrests.mono (fun _ hx => .inl hx) fun hx => hx.elim hrests.not_inner ht⟩
  taken t' r hmem := by
    obtain ⟨⟨s, r'⟩, hg, he⟩ := mem_map.mp hmem
    obtain rfl : r' = r := (aim_row t (s, r')).symm.trans (congrArg Prod.snd he)
    obtain ⟨hlatest, hrests, hnone⟩ := h.taken s r' hg
    refine ⟨hlatest, ?_, hnone⟩
    by_cases hs : s = t
    · subst hs
      rw [aim, if_pos rfl] at he
      obtain rfl : child s (key r') = t' := congrArg Prod.fst he
      exact hrests.split (fun _ hx => .inl hx) (.inr rfl) fun hx => hx.elim (hchild _) (hne _)
    · rw [aim, if_neg hs] at he
      obtain rfl : s = t' := congrArg Prod.fst he
      exact hrests.mono (fun _ hx => .inl hx) fun hx => hx.elim hrests.not_inner hs
  nodup := by
    rw [map_map]
    have : ((fun g : ν × ρ => key g.2) ∘ aim child key t) = fun g => key g.2 :=
      funext fun g => congrArg key (aim_row t g)
    rw [this]
    exact h.nodup
  complete k r hk := by
    refine (h.complete k r hk).imp_right fun ⟨s, hs⟩ => ?_
    have hmem := mem_map_of_mem (f := aim child key t) hs
    exact ⟨(aim child key t (s, r)).1, (Prod.ext rfl (aim_row t (s, r)) : aim child key t (s, r) = (_, r)) ▸ hmem⟩

variable [DecidableEq κ]

/-- A row is stored at a node. -/
def store (key : ρ → κ) (t : ν) (rowAt : ν → κ → Option ρ) (r : ρ) : ν → κ → Option ρ :=
  fun t' k => if t' = t ∧ k = key r then some r else rowAt t' k

theorem store_self (t : ν) (r : ρ) : store key t rowAt r t (key r) = some r := if_pos ⟨rfl, rfl⟩

theorem store_ne {t' : ν} {k : κ} (h : t' ≠ t ∨ k ≠ key r) :
    store key t rowAt r t' k = rowAt t' k :=
  if_neg fun ⟨ht, hk⟩ => h.elim (· ht) (· hk)

theorem Placed.put (h : Placed child root key inner rowAt latest held)
    (hrests : Rests child inner (root (key r)) (key r) t) (hheld : ∀ g ∈ held, key g.2 ≠ key r) :
    Placed child root key inner (store key t rowAt r) (fun k => if k = key r then some r else latest k) held where
  keyed k r' hk := by
    split at hk
    · next he =>
      cases hk
      exact he.symm
    · exact h.keyed k r' hk
  stored t' k r' hrow := by
    by_cases hkey : k = key r
    · subst hkey
      rw [if_pos rfl]
      by_cases ht : t' = t
      · subst ht
        rw [store_self] at hrow
        cases hrow
        exact ⟨rfl, hrests⟩
      · rw [store_ne (.inl ht)] at hrow
        exact absurd ((h.stored t' _ r' hrow).2.unique hrests) ht
    · rw [store_ne (.inr hkey)] at hrow
      rw [if_neg hkey]
      exact h.stored t' k r' hrow
  taken t' r' hmem := by
    have hne : key r' ≠ key r := hheld (t', r') hmem
    obtain ⟨hlatest, hrests', hnone⟩ := h.taken t' r' hmem
    refine ⟨(if_neg hne).trans hlatest, hrests', fun t'' => ?_⟩
    rw [store_ne (.inr hne)]
    exact hnone t''
  nodup := h.nodup
  complete k r' hk := by
    split at hk
    · next he =>
      cases hk
      subst he
      exact .inl ⟨t, store_self t r⟩
    · next hne =>
      refine (h.complete k r' hk).imp_left fun ⟨t', ht'⟩ => ⟨t', ?_⟩
      rw [store_ne (.inr hne)]
      exact ht'

/-- A held row is stored where it is for. -/
theorem Placed.give (h : Placed child root key inner rowAt latest ((t, r) :: held)) :
    Placed child root key inner (store key t rowAt r) latest held := by
  obtain ⟨hlatest, hrests, hnone⟩ := h.taken t r mem_cons_self
  have hfresh : ∀ g ∈ held, key g.2 ≠ key r := by
    intro g hg he
    exact (nodup_cons.mp h.nodup).1 (mem_map.mpr ⟨g, hg, he⟩)
  refine ⟨h.keyed, fun t' k r' hrow => ?_, fun t' r' hmem => ?_, (nodup_cons.mp h.nodup).2, fun k r' hk => ?_⟩
  · by_cases hkey : k = key r
    · subst hkey
      by_cases ht : t' = t
      · subst ht
        rw [store_self] at hrow
        cases hrow
        exact ⟨hlatest, hrests⟩
      · rw [store_ne (.inl ht), hnone t'] at hrow
        cases hrow
    · rw [store_ne (.inr hkey)] at hrow
      exact h.stored t' k r' hrow
  · obtain ⟨hlatest', hrests', hnone'⟩ := h.taken t' r' (mem_cons_of_mem _ hmem)
    refine ⟨hlatest', hrests', fun t'' => ?_⟩
    rw [store_ne (.inr (hfresh (t', r') hmem))]
    exact hnone' t''
  · by_cases hkey : k = key r
    · subst hkey
      obtain rfl : r = r' := Option.some.inj (hlatest.symm.trans hk)
      exact .inl ⟨t, store_self t r⟩
    · rcases h.complete k r' hk with ⟨t', ht'⟩ | ⟨t', ht'⟩
      · exact .inl ⟨t', (store_ne (.inr hkey)).trans ht'⟩
      · rcases mem_cons.mp ht' with he | ht'
        · cases he
          exact absurd (h.keyed k r hk).symm hkey
        · exact .inr ⟨t', ht'⟩

/-- New rows of keys that rest at one node. -/
theorem Placed.putAll (rows : List ρ) (h : Placed child root key inner rowAt latest held)
    (hrows : ∀ r ∈ rows, Rests child inner (root (key r)) (key r) t ∧ ∀ g ∈ held, key g.2 ≠ key r) :
    Placed child root key inner (rows.foldl (store key t) rowAt)
    (rows.foldl (fun latest r k => if k = key r then some r else latest k) latest) held := by
  induction rows generalizing rowAt latest with
  | nil => exact h
  | cons r rows ih =>
    obtain ⟨hrests, hheld⟩ := hrows r mem_cons_self
    exact ih (h.put hrests hheld) fun r' hr' => hrows r' (mem_cons_of_mem _ hr')

theorem Placed.giveAll (rows : List ρ)
    (h : Placed child root key inner rowAt latest (rows.map (t, ·) ++ held)) :
    Placed child root key inner (rows.foldl (store key t) rowAt) latest held := by
  induction rows generalizing rowAt with
  | nil => exact h
  | cons r rows ih => exact ih h.give

end NextDb.Placement
