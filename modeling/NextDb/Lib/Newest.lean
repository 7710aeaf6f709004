import Mathlib.Data.List.DropRight
import Mathlib.Data.List.Perm.Subperm
import Mathlib.Data.List.Sort

/-!
# The newest elements

`newest key n l` is the `n` elements of `l` with the greatest keys, oldest first.

* `mem_newest`: with distinct keys, the elements that fewer than `n` others exceed.
* `KeyTells.newest_append`: keeping the newest of what came before loses nothing.
-/

namespace NextDb.Newest

open List

variable {α κ : Type} [LinearOrder κ] {key : α → κ}

/-- The keys ascend. -/
def Ascending (key : α → κ) (l : List α) : Prop := l.Pairwise fun a b => key a < key b

def newest (key : α → κ) (n : Nat) (l : List α) : List α :=
  (l.mergeSort fun a b => key a ≤ key b).rtake n

@[simp] theorem newest_nil (n : Nat) : newest key n [] = [] := by
  simp [newest]

/-- How many elements of `l` exceed `x`. -/
def above (key : α → κ) (l : List α) (x : α) : Nat := l.countP fun y => key x < key y

/-! ## Ascending lists -/

variable {l l' whole top : List α} {n : Nat} {x : α}

theorem Ascending.eq_of_mem_iff (h : Ascending key l) (h' : Ascending key l')
    (hmem : ∀ a, a ∈ l ↔ a ∈ l') :
    l = l' := by
  let r : α → α → Prop := fun a b => key a < key b
  have : Std.Antisymm r := ⟨fun _ _ hab hba => absurd hab hba.asymm⟩
  have : Std.Irrefl r := ⟨fun a => lt_irrefl (key a)⟩
  exact Pairwise.eq_of_mem_iff (r := r) h h' hmem

theorem Ascending.nodup (h : Ascending key l) : (l.map key).Nodup :=
  pairwise_map.mpr (h.imp fun hlt => hlt.ne)

theorem Ascending.concat {a : α} (h : Ascending key l) (ha : ∀ x ∈ l, key x < key a) :
    Ascending key (l ++ [a]) :=
  pairwise_append.mpr ⟨h, pairwise_singleton _ a, fun x hx y hy => by
    rw [mem_singleton.mp hy]
    exact ha x hx⟩

theorem pairwise_mergeSort_key (l : List α) :
    (l.mergeSort fun a b => key a ≤ key b).Pairwise fun a b => key a ≤ key b := by
  have := @List.pairwise_mergeSort _ (fun a b => decide (key a ≤ key b))
    (fun a b c hab hbc => by simpa using le_trans (by simpa using hab) (by simpa using hbc))
    (fun a b => by simpa using le_total (key a) (key b)) l
  exact this.imp fun h => by simpa using h

theorem ascending_mergeSort (hn : (l.map key).Nodup) :
    Ascending key (l.mergeSort fun a b => key a ≤ key b) := by
  have hne : (l.mergeSort fun a b => key a ≤ key b).Pairwise fun a b => key a ≠ key b :=
    pairwise_map.mp (((mergeSort_perm l _).map key).nodup_iff.mpr hn)
  exact ((pairwise_mergeSort_key l).and hne).imp fun h => lt_of_le_of_ne h.1 h.2

/-- An ascending list is its own sort. -/
theorem Ascending.mergeSort (h : Ascending key l) : l.mergeSort (fun a b => key a ≤ key b) = l :=
  (ascending_mergeSort h.nodup).eq_of_mem_iff h fun _ => mem_mergeSort

theorem Ascending.newest (h : Ascending key l) (n : Nat) : newest key n l = l.rtake n := by
  rw [Newest.newest, h.mergeSort]

/-! ## The elements that few exceed -/

/-- An element is among the last `n` if and only if fewer than `n` exceed it. -/
theorem Ascending.mem_rtake (h : Ascending key l) : x ∈ l.rtake n ↔ x ∈ l ∧ above key l x < n := by
  obtain ⟨old, hsplit⟩ := drop_suffix (l.length - n) l
  have hlen := congrArg length hsplit
  rw [length_append, length_drop] at hlen
  have hcount : above key l x = above key old x + above key (l.rtake n) x := by
    rw [above, above, above, ← countP_append, rtake, hsplit]
  rw [← hsplit] at h
  obtain ⟨-, -, hcross⟩ := pairwise_append.mp h
  rw [hcount]
  constructor
  · intro hx
    have hnone : above key old x = 0 := countP_eq_zero.mpr fun y hy => by simpa using (hcross y hy x hx).le
    have hless : above key (l.rtake n) x < (l.rtake n).length :=
      lt_of_le_of_ne countP_le_length fun hall => lt_irrefl (key x) (by simpa using countP_eq_length.mp hall x hx)
    rw [rtake, length_drop] at hless
    exact ⟨mem_of_mem_drop hx, by rw [rtake, hnone]; omega⟩
  · rintro ⟨hx, hlt⟩
    refine (mem_append.mp (hsplit.symm ▸ hx)).resolve_left fun hx => ?_
    have hall : above key (l.rtake n) x = (l.rtake n).length :=
      countP_eq_length.mpr fun y hy => by simpa using hcross x hx y hy
    have := length_pos_of_mem hx
    rw [hall, rtake, length_drop] at hlt
    omega

theorem above_perm (h : l.Perm l') (x : α) : above key l x = above key l' x :=
  h.countP_eq _

theorem mem_newest (hn : (l.map key).Nodup) : x ∈ newest key n l ↔ x ∈ l ∧ above key l x < n := by
  rw [newest, (ascending_mergeSort hn).mem_rtake, mem_mergeSort, above_perm (mergeSort_perm l _)]

theorem ascending_newest (hn : (l.map key).Nodup) (n : Nat) : Ascending key (newest key n l) :=
  (ascending_mergeSort hn).sublist (drop_sublist ..)

/-- The newest depend only on which elements there are. -/
theorem newest_perm (hn : (l.map key).Nodup) (h : l.Perm l') (n : Nat) :
    newest key n l = newest key n l' := by
  have hn' : (l'.map key).Nodup := (h.map key).nodup_iff.mp hn
  refine (ascending_newest hn n).eq_of_mem_iff (ascending_newest hn' n) fun x => ?_
  rw [mem_newest hn, mem_newest hn', h.mem_iff, above_perm h]

theorem length_newest (n : Nat) (l : List α) : (newest key n l).length = min n l.length := by
  rw [newest, rtake, length_drop, length_mergeSort]
  omega

theorem newest_eq_nil (hn : 0 < n) (h : newest key n l = []) : l = [] := by
  have hlen := @length_newest _ _ _ key n l
  rw [h, length_nil] at hlen
  exact eq_nil_of_length_eq_zero (by omega)

/-! ## Elements that may be repeated -/

/-- Elements are told apart by their keys. -/
def KeyTells (key : α → κ) (l : List α) : Prop := ∀ a ∈ l, ∀ b ∈ l, key a = key b → a = b

omit [LinearOrder κ] in
theorem KeyTells.mono (h : KeyTells key l') (hs : ∀ a ∈ l, a ∈ l') : KeyTells key l :=
  fun a ha b hb => h a (hs a ha) b (hs b hb)

/-- A sorted list of the same elements is the sort. -/
theorem KeyTells.eq_mergeSort (h : KeyTells key l) (hp : l'.Perm l)
    (hs : l'.Pairwise fun a b => key a ≤ key b) :
    l' = l.mergeSort fun a b => key a ≤ key b :=
  Perm.eq_of_pairwise (fun a b ha hb hab hba => h a (hp.mem_iff.mp ha) b (mem_mergeSort.mp hb) (le_antisymm hab hba)) hs
    (pairwise_mergeSort_key l) (hp.trans (mergeSort_perm l _).symm)

theorem KeyTells.newest_perm (h : KeyTells key l) (hp : l'.Perm l) (n : Nat) :
    newest key n l' = newest key n l := by
  rw [newest, newest, h.eq_mergeSort ((mergeSort_perm l' _).trans hp) (pairwise_mergeSort_key l')]

/-- A sorted list that is short enough is its newest. -/
theorem KeyTells.newest_of_sorted (h : KeyTells key l) (hs : l.Pairwise fun a b => key a ≤ key b)
    (hn : l.length ≤ n) :
    newest key n l = l := by
  rw [newest, ← h.eq_mergeSort .rfl hs, rtake, Nat.sub_eq_zero_of_le hn, drop_zero]

/-- An element that `n` others reach is not among the newest `n`. -/
theorem newest_cons {a : α} (h : n ≤ l.countP fun b => key a ≤ key b) :
    newest key n (a :: l) = newest key n l := by
  obtain ⟨low, high, hcons, hsort, hlow⟩ := @mergeSort_cons _ (fun a b => decide (key a ≤ key b))
    (fun a b c => by simpa using le_trans) (fun a b => by simpa using le_total (key a) (key b)) a l
  have hhigh : n ≤ high.length := by
    refine h.trans ?_
    rw [← (mergeSort_perm l _).countP_eq, hsort, countP_append, countP_eq_zero.mpr (by simpa using hlow), Nat.zero_add]
    exact countP_le_length
  have hrtake : ∀ before, (before ++ high).rtake n = high.rtake n := by
    intro before
    rw [rtake, rtake, length_append, drop_append, drop_of_length_le (by omega), nil_append]
    congr 1
    omega
  rw [newest, newest, hcons, hsort, hrtake, ← singleton_append, ← append_assoc, hrtake]

/-- Elements that `n` of the others reach are not among the newest `n`. -/
theorem newest_append_left {old : List α} (h : ∀ a ∈ old, n ≤ l.countP fun b => key a ≤ key b) :
    newest key n (old ++ l) = newest key n l := by
  induction old with
  | nil => rfl
  | cons a old ih =>
    obtain ⟨ha, hold⟩ := forall_mem_cons.mp h
    rw [cons_append, newest_cons (ha.trans (sublist_append_right ..).countP_le), ih hold]

/-- Keeping the newest of what came before loses nothing. -/
theorem KeyTells.newest_append (h : KeyTells key (l ++ l')) (n : Nat) :
    newest key n (newest key n l ++ l') = newest key n (l ++ l') := by
  obtain ⟨old, hsplit⟩ := drop_suffix (l.length - n) (l.mergeSort fun a b => key a ≤ key b)
  have hlen := congrArg length hsplit
  rw [length_append, length_drop, length_mergeSort] at hlen
  have hnewest : newest key n l = (l.mergeSort fun a b => key a ≤ key b).drop (l.length - n) := by
    rw [newest, rtake, length_mergeSort]
  rw [← hnewest] at hsplit
  have hperm : (old ++ (newest key n l ++ l')).Perm (l ++ l') := by
    rw [← append_assoc, hsplit]
    exact (mergeSort_perm l _).append_right l'
  rw [← h.newest_perm hperm]
  -- all of the newest, which are `n` if one is older, reach what is older
  refine (newest_append_left fun a ha => ?_).symm
  have hold := length_pos_of_mem ha
  have hsorted := @pairwise_mergeSort_key _ _ _ key l
  rw [← hsplit] at hsorted
  have hle : ∀ b ∈ newest key n l, key a ≤ key b := (pairwise_append.mp hsorted).2.2 a ha
  rw [countP_append, countP_eq_length.mpr (by simpa using hle), length_newest]
  omega

/-! ## The top of a list -/

/-- The list holds, ascending, every element of the whole above any of its own. -/
structure IsTop (key : α → κ) (whole top : List α) : Prop where
  ascending : Ascending key top
  subset : ∀ x ∈ top, x ∈ whole
  upward : ∀ x ∈ top, ∀ y ∈ whole, key x < key y → y ∈ top

theorem isTop_nil (whole : List α) : IsTop key whole [] := ⟨.nil, nofun, nofun⟩

theorem isTop_newest {l : List α} (hn : (l.map key).Nodup) (n : Nat) :
    IsTop key l (newest key n l) := by
  refine ⟨ascending_newest hn n, fun x hx => ((mem_newest hn).mp hx).1, fun x hx y hy hlt => ?_⟩
  refine (mem_newest hn).mpr ⟨hy, lt_of_le_of_lt ?_ ((mem_newest hn).mp hx).2⟩
  exact countP_mono_left fun z _ hz => by simpa using hlt.trans (by simpa using hz)

section
variable (h : IsTop key whole top)
include h

/-- How many there are tells which. -/
theorem IsTop.eq_newest (hn : (whole.map key).Nodup) : top = newest key top.length whole := by
  classical
  have hperm : (whole.filter (· ∉ top) ++ top).Perm whole := by
    refine (perm_ext_iff_of_nodup ?_ (Nodup.of_map _ hn)).mpr fun x => ?_
    · refine ((Nodup.of_map _ hn).filter _).append (Nodup.of_map _ h.ascending.nodup) fun x hx htop => ?_
      simpa [htop] using (mem_filter.mp hx).2
    · by_cases hx : x ∈ top <;> simp [hx, h.subset]
  have hall : newest key top.length top = top := by
    rw [h.ascending.newest, rtake, Nat.sub_self, drop_zero]
  refine .trans ?_ (newest_perm (((hperm.map key).nodup_iff).mpr hn) hperm _)
  refine ((newest_append_left fun x hx => ?_).trans hall).symm
  obtain ⟨hx, hnot⟩ := mem_filter.mp hx
  have hle : ∀ y ∈ top, key x ≤ key y := fun y hy =>
    not_lt.mp fun hlt => (of_decide_eq_true hnot) (h.upward y hy x hx hlt)
  rw [countP_eq_length.mpr (by simpa using hle)]

theorem IsTop.of_suffix (hs : l <:+ top) : IsTop key whole l := by
  obtain ⟨before, rfl⟩ := hs
  obtain ⟨-, hl, hcross⟩ := pairwise_append.mp h.ascending
  refine ⟨hl, fun x hx => h.subset x (mem_append_right _ hx), fun x hx y hy hlt => ?_⟩
  rcases mem_append.mp (h.upward x (mem_append_right _ hx) y hy hlt) with hmem | hmem
  · exact absurd (hcross y hmem x hx) hlt.asymm
  · exact hmem

theorem IsTop.rtake (n : Nat) : IsTop key whole (top.rtake n) := h.of_suffix (drop_suffix ..)

theorem IsTop.filter (p : α → Bool) : IsTop key (whole.filter p) (top.filter p) := by
  refine ⟨h.ascending.sublist filter_sublist, fun x hx => ?_, fun x hx y hy hlt => ?_⟩
  · exact mem_filter.mpr ⟨h.subset x (mem_filter.mp hx).1, (mem_filter.mp hx).2⟩
  · obtain ⟨hy, hp⟩ := mem_filter.mp hy
    exact mem_filter.mpr ⟨h.upward x (mem_filter.mp hx).1 y hy hlt, hp⟩

/-- The last elements of a top are the newest, when it has as many. -/
theorem IsTop.rtake_eq_newest (hn : (whole.map key).Nodup) (hlen : n ≤ top.length) :
    top.rtake n = newest key n whole := by
  have := (h.rtake n).eq_newest hn
  rwa [show (top.rtake n).length = n by rw [List.rtake, List.length_drop]; omega] at this

/-- Of two tops the shorter is the end of the longer. -/
theorem IsTop.suffix {top' : List α} (h' : IsTop key whole top') (hn : (whole.map key).Nodup)
    (hlen : top.length ≤ top'.length) : top <:+ top' := by
  rw [h.eq_newest hn, ← h'.rtake_eq_newest hn hlen]
  exact drop_suffix ..

end

end NextDb.Newest
