import Mathlib.Data.Nat.Find

/-!
# Descending a tree that grows

A key descends from its root to the child that each inner node has for it, and rests
at the first node that is not inner.

* `Rests.unique`: it rests at one node.
* `Rests.mono`: it stays there while that node does not become inner.
* `Rests.split`: when that node becomes inner, it rests at the node's child.
-/

namespace NextDb.Descent

variable {ν κ : Type} {child : ν → κ → ν} {inner inner' : ν → Prop} {root s t : ν} {k : κ}

/-- The nodes that a key would pass. -/
def path (child : ν → κ → ν) (root : ν) (k : κ) : Nat → ν
  | 0 => root
  | n + 1 => child (path child root k n) k

/-- The key's path from the root ends at the node. -/
def Rests (child : ν → κ → ν) (inner : ν → Prop) (root : ν) (k : κ) (t : ν) : Prop :=
  ∃ n, path child root k n = t ∧ (∀ m < n, inner (path child root k m)) ∧ ¬inner t

theorem path_succ (n : Nat) : path child root k (n + 1) = path child (child root k) k n := by
  induction n with
  | zero => rfl
  | succ n ih => exact congrArg (child · k) ih

/-- A key rests if not every node on its path is inner. -/
theorem exists_rests {n : Nat} (h : ¬inner (path child root k n)) :
    ∃ t, Rests child inner root k t := by
  classical
  have hex : ∃ n, ¬inner (path child root k n) := ⟨n, h⟩
  exact ⟨_, Nat.find hex, rfl, fun m hm => not_not.mp (Nat.find_min hex hm), Nat.find_spec hex⟩

theorem Rests.not_inner (h : Rests child inner root k t) : ¬inner t := by
  obtain ⟨n, -, -, ht⟩ := h
  exact ht

theorem Rests.unique (hs : Rests child inner root k s) (ht : Rests child inner root k t) :
    s = t := by
  obtain ⟨m, rfl, hm, hs⟩ := hs
  obtain ⟨n, rfl, hn, ht⟩ := ht
  rcases Nat.lt_trichotomy m n with hlt | rfl | hlt
  · exact absurd (hn m hlt) hs
  · rfl
  · exact absurd (hm n hlt) ht

theorem Rests.mono (h : Rests child inner root k t) (hle : ∀ x, inner x → inner' x)
    (ht : ¬inner' t) :
    Rests child inner' root k t := by
  obtain ⟨n, hn, hinner, -⟩ := h
  exact ⟨n, hn, fun m hm => hle _ (hinner m hm), ht⟩

theorem Rests.split (h : Rests child inner root k s) (hle : ∀ x, inner x → inner' x) (hs : inner' s)
    (hchild : ¬inner' (child s k)) : Rests child inner' root k (child s k) := by
  obtain ⟨n, rfl, hinner, -⟩ := h
  refine ⟨n + 1, rfl, fun m hm => ?_, hchild⟩
  rcases Nat.lt_or_eq_of_le (Nat.le_of_lt_succ hm) with hlt | rfl
  · exact hle _ (hinner m hlt)
  · exact hs

/-- The parent of the node where a key rests is inner. -/
theorem Rests.parent_inner (h : Rests child inner root k t) :
    t = root ∨ ∃ p, inner p ∧ t = child p k := by
  obtain ⟨n, rfl, hinner, -⟩ := h
  cases n with
  | zero => exact .inl rfl
  | succ n => exact .inr ⟨_, hinner n (Nat.lt_succ_self n), rfl⟩

end NextDb.Descent
