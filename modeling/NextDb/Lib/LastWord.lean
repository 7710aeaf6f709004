import Mathlib.Data.List.Induction

/-!
# What a log says last

The records of a log are numbered, and some are about a key: `tells r` is what a record leaves
there, which may be nothing. What a log leaves at the key is what the last record about it tells.

* `read_foldl`: an index that takes a record at a time holds what reading the records leaves.
* `read_eq_some_iff`: reading the records in order gives what the last one tells.
* `KeepsLast.leaves_iff`: records may go as long as the last about the key stays, or nothing is
  left.
* `Lasting`: which is so after more records went, or came.
* `foldl_filter_about`: what a log makes of a state at the key, its records about the key make.
* `eq_of_numbers`: two logs of the same records are equal if their numbers ascend.
-/

namespace NextDb.LastWord

open List Option

variable {ρ ν : Type}

/-- What the records leave at the key, read in order. -/
def read (tells : ρ → Option (Option ν)) (records : List ρ) : Option ν :=
  records.foldl (fun left r => (tells r).getD left) none

theorem read_concat (tells : ρ → Option (Option ν)) (records : List ρ) (r : ρ) :
    read tells (records ++ [r]) = (tells r).getD (read tells records) := by
  rw [read, foldl_append]
  rfl

variable {number : ρ → Nat} {tells : ρ → Option (Option ν)} {log kept : ρ → Prop} {records : List ρ}
    {value : ν}

/-- Records that are not about the key may follow. -/
theorem read_append_of_none {more : List ρ} (h : ∀ r ∈ more, tells r = none) :
    read tells (records ++ more) = read tells records := by
  induction more using reverseRecOn with
  | nil => rw [append_nil]
  | append_singleton more r ih =>
    rw [← append_assoc, read_concat, h r (by simp), getD_none, ih fun r' hr' => h r' (mem_append_left _ hr')]

/-- What a record at a time leaves at the key is what reading the records leaves there. -/
theorem read_foldl {ι : Type} {f : ι → Option ν} {next : ι → ρ → ι}
    (hnext : ∀ i r, f (next i r) = (tells r).getD (f i))
    {i : ι} (hi : f i = none) (records : List ρ) :
    f (records.foldl next i) = read tells records := by
  induction records using reverseRecOn with
  | nil => exact hi
  | append_singleton records r ih => rw [foldl_append, foldl_cons, foldl_nil, hnext, ih, read_concat]

theorem mem_of_read (h : read tells records = some value) :
    ∃ r ∈ records, tells r = some (some value) := by
  induction records using reverseRecOn with
  | nil => cases h
  | append_singleton records r ih =>
    rw [read_concat] at h
    cases htells : tells r with
    | none =>
      rw [htells] at h
      obtain ⟨r', hr', hvalue⟩ := ih h
      exact ⟨r', mem_append_left _ hr', hvalue⟩
    | some left =>
      rw [htells] at h
      exact ⟨r, by simp, htells.trans (congrArg some h)⟩

/-- Where no record leaves nothing, one that is about the key leaves something. -/
theorem read_isSome (hleaves : ∀ r ∈ records, tells r ≠ some none) {r : ρ} (hr : r ∈ records)
    (habout : (tells r).isSome) : (read tells records).isSome := by
  induction records using reverseRecOn with
  | nil => cases hr
  | append_singleton records last ih =>
    rw [read_concat]
    cases htells : tells last with
    | none =>
      refine ih (fun r hr => hleaves r (mem_append_left _ hr)) ((mem_append.mp hr).resolve_right fun he => ?_)
      rw [mem_singleton.mp he, htells] at habout
      cases habout
    | some left =>
      rw [getD_some]
      refine isSome_iff_ne_none.mpr fun hnone => ?_
      exact hleaves last (by simp) (htells.trans (congrArg some hnone))

/-- The last record of a log that is about the key. -/
structure Last (number : ρ → Nat) (tells : ρ → Option (Option ν)) (log : ρ → Prop) (r : ρ) :
    Prop where
  mem : log r
  about : (tells r).isSome
  last : ∀ r', log r' → (tells r').isSome → number r' ≤ number r

/-- What a log leaves at the key. -/
def Leaves (number : ρ → Nat) (tells : ρ → Option (Option ν)) (log : ρ → Prop) (value : ν) : Prop :=
  ∃ r, Last number tells log r ∧ tells r = some (some value)

theorem Last.mono {r : ρ} (h : Last number tells log r) (hsub : ∀ r, kept r → log r) (hr : kept r) :
    Last number tells kept r :=
  ⟨hr, h.about, fun r' hr' => h.last r' (hsub r' hr')⟩

/-- A log whose records are among those of a list has a last record about the key, if it has any. -/
theorem exists_last {records : List ρ} (hsub : ∀ r, log r → r ∈ records) {r : ρ} (hr : log r)
    (habout : (tells r).isSome) : ∃ r, Last number tells log r := by
  by_contra hnone
  -- every record about the key has one above it, so there is one above each number
  have habove : ∀ n, ∃ r, log r ∧ (tells r).isSome ∧ n ≤ number r := by
    intro n
    induction n with
    | zero => exact ⟨r, hr, habout, Nat.zero_le _⟩
    | succ n ih =>
      obtain ⟨r, hr, habout, hn⟩ := ih
      by_contra hno
      refine hnone ⟨r, hr, habout, fun r' hr' habout' => ?_⟩
      by_contra hlt
      exact hno ⟨r', hr', habout', by omega⟩
  obtain ⟨top, htop⟩ : ∃ top, ∀ r ∈ records, number r < top := by
    clear hsub
    induction records with
    | nil => exact ⟨0, by simp⟩
    | cons a records ih =>
      obtain ⟨top, htop⟩ := ih
      refine ⟨max top (number a + 1), fun r hr => ?_⟩
      rcases mem_cons.mp hr with rfl | hr
      · omega
      · have := htop r hr
        omega
  obtain ⟨r, hr, -, hn⟩ := habove top
  have := htop r (hsub r hr)
  omega

/-- Records that are read in the order of their numbers leave what the last one tells. -/
theorem read_eq_some_iff (hasc : records.Pairwise fun a b => number a < number b) :
    read tells records = some value ↔ Leaves number tells (· ∈ records) value := by
  induction records using reverseRecOn with
  | nil =>
    refine ⟨fun h => (by simp [read] at h), fun h => ?_⟩
    obtain ⟨r, hlast, -⟩ := h
    exact absurd hlast.mem not_mem_nil
  | append_singleton records r ih =>
    obtain ⟨hrecords, -, hlt⟩ := pairwise_append.mp hasc
    have hbelow : ∀ r' ∈ records, number r' < number r := fun r' hr' => hlt r' hr' r (mem_singleton_self r)
    rw [read_concat]
    cases htells : tells r with
    | none =>
      rw [getD_none, ih hrecords]
      refine exists_congr fun r' => and_congr_left' ?_
      constructor
      · intro h
        refine ⟨mem_append_left _ h.mem, h.about, fun r'' hr'' habout => ?_⟩
        rcases mem_append.mp hr'' with hr'' | hr''
        · exact h.last r'' hr'' habout
        · rw [mem_singleton.mp hr'', htells] at habout
          cases habout
      · intro h
        refine h.mono (fun r hr => mem_append_left _ hr) ?_
        refine (mem_append.mp h.mem).resolve_right fun he => ?_
        have habout := h.about
        rw [mem_singleton.mp he, htells] at habout
        cases habout
    | some left =>
      have habout : (tells r).isSome := by rw [htells]; rfl
      rw [getD_some]
      constructor
      · rintro rfl
        refine ⟨r, ⟨by simp, habout, fun r' hr' _ => ?_⟩, htells⟩
        rcases mem_append.mp hr' with hr' | hr'
        · exact Nat.le_of_lt (hbelow r' hr')
        · exact Nat.le_of_eq (congrArg number (mem_singleton.mp hr'))
      · rintro ⟨r', hlast, htells'⟩
        rcases mem_append.mp hlast.mem with hr' | hr'
        · have := hbelow r' hr'
          have := hlast.last r (by simp) habout
          omega
        · rw [mem_singleton.mp hr', htells] at htells'
          exact some.inj htells'

/-! ## Logs that lose records -/

/-- The last record about the key stays; or none does, where that may be. -/
def KeepsLast (number : ρ → Nat) (tells : ρ → Option (Option ν)) (may : ρ → Prop)
    (log kept : ρ → Prop) : Prop :=
  ∀ r, Last number tells log r → kept r ∨ may r ∧ ∀ r', kept r' → tells r' = none

variable {may : ρ → Prop}

theorem KeepsLast.refl : KeepsLast number tells may log log := fun _ h => .inl h.mem

theorem KeepsLast.trans {kept' : ρ → Prop} (h : KeepsLast number tells may log kept)
    (h' : KeepsLast number tells may kept kept') (hsub : ∀ r, kept r → log r)
    (hsub' : ∀ r, kept' r → kept r) :
    KeepsLast number tells may log kept' := by
  intro r hr
  rcases h r hr with hk | ⟨hmay, hnone⟩
  · exact h' r (hr.mono hsub hk)
  · exact .inr ⟨hmay, fun r' hr' => hnone r' (hsub' r' hr')⟩

/-- Records that come later stay the last. -/
theorem KeepsLast.add {more : ρ → Prop}
    (h : KeepsLast number tells may log kept)
    (hlater : ∀ r r', log r → more r' → number r < number r') :
    KeepsLast number tells may (fun r => log r ∨ more r) (fun r => kept r ∨ more r) := by
  intro r hr
  rcases hr.mem with hlog | hmore
  · have hold : Last number tells log r := hr.mono (fun _ h => .inl h) hlog
    refine (h r hold).imp .inl fun ⟨hmay, hnone⟩ => ⟨hmay, fun r' hr' => ?_⟩
    rcases hr' with hr' | hr'
    · exact hnone r' hr'
    · cases htells : tells r' with
      | none => rfl
      | some _ =>
        have hle := hr.last r' (.inr hr') (by rw [htells]; rfl)
        have := hlater r r' hlog hr'
        omega
  · exact .inl (.inr hmore)

/-- What is left at the key was left there before. -/
theorem KeepsLast.leaves_of (h : KeepsLast number tells may log kept) (hsub : ∀ r, kept r → log r)
    (hin : ∀ r, log r → r ∈ records)
    (hnumbers : ∀ r r', log r → log r' → number r = number r' → r = r')
    (hleaves : Leaves number tells kept value) : Leaves number tells log value := by
  obtain ⟨r, hr, hvalue⟩ := hleaves
  obtain ⟨r₀, hr₀⟩ := @exists_last _ _ number _ _ _ hin r (hsub r hr.mem) hr.about
  rcases h r₀ hr₀ with hk | ⟨-, hnone⟩
  · have hle := hr.last r₀ hk hr₀.about
    have hge := hr₀.last r (hsub r hr.mem) hr.about
    cases hnumbers r r₀ (hsub r hr.mem) hr₀.mem (by omega)
    exact ⟨r, hr₀, hvalue⟩
  · rw [hnone r hr.mem] at hvalue
    cases hvalue

/-- What was left at the key is left there still, unless it was nothing. -/
theorem KeepsLast.leaves_iff (h : KeepsLast number tells (tells · = some none) log kept)
    (hsub : ∀ r, kept r → log r)
    (hin : ∀ r, log r → r ∈ records)
    (hnumbers : ∀ r r', log r → log r' → number r = number r' → r = r') :
    Leaves number tells kept value ↔ Leaves number tells log value := by
  constructor
  · exact h.leaves_of hsub hin hnumbers
  · rintro ⟨r, hr, hvalue⟩
    rcases h r hr with hk | ⟨hmay, -⟩
    · exact ⟨r, hr.mono hsub hk, hvalue⟩
    · rw [hmay] at hvalue
      cases hvalue

/-! ## What every loss so far has kept -/

/-- A relation of a log to what is kept of it that withstands more losses, and more records. -/
structure Lasting (number : ρ → Nat) (keeps : (ρ → Prop) → (ρ → Prop) → Prop) : Prop where
  refl : ∀ log, keeps log log
  trans : ∀ {log kept kept' : ρ → Prop}, keeps log kept → keeps kept kept' → (∀ r, kept r → log r) →
    (∀ r, kept' r → kept r) → keeps log kept'
  add : ∀ {log kept more : ρ → Prop}, keeps log kept → (∀ r r', log r → more r' → number r < number r') →
    keeps (fun r => log r ∨ more r) (fun r => kept r ∨ more r)

/-- Every record of a kind stays. -/
def KeepsEvery (kind : ρ → Prop) (log kept : ρ → Prop) : Prop := ∀ r, log r → kind r → kept r

theorem lasting_keepsEvery (kind : ρ → Prop) : Lasting number (KeepsEvery kind) where
  refl _ _ h _ := h
  trans h h' _ _ r hr hkind := h' r (h r hr hkind) hkind
  add h _ r hr hkind := hr.imp_left fun hr => h r hr hkind

theorem lasting_keepsLast (may : ρ → Prop) : Lasting number (KeepsLast number tells may) where
  refl _ := .refl
  trans h h' hsub hsub' := h.trans h' hsub hsub'
  add h hlater := h.add hlater

theorem Lasting.forall {κ : Type} {keeps : κ → (ρ → Prop) → (ρ → Prop) → Prop}
    (h : ∀ k, Lasting number (keeps k)) :
    Lasting number fun log kept => ∀ k, keeps k log kept where
  refl log k := (h k).refl log
  trans hkept hkept' hsub hsub' k := (h k).trans (hkept k) (hkept' k) hsub hsub'
  add hkept hlater k := (h k).add (hkept k) hlater

/-! ## What a log makes of a state -/

section State

variable {σ : Type} {next : σ → ρ → σ} {f : σ → ν} {about : ρ → Bool}

/-- Records that are not about the key may be left out. -/
theorem foldl_filter_about (hskip : ∀ r ∈ records, about r = false → ∀ s, f (next s r) = f s)
    (hkeep : ∀ r ∈ records, about r = true → ∀ s s', f s = f s' → f (next s r) = f (next s' r))
    (s : σ) :
    f (records.foldl next s) = f ((records.filter about).foldl next s) := by
  induction records using reverseRecOn with
  | nil => rfl
  | append_singleton records r ih =>
    have ih := ih (fun r' hr' => hskip r' (mem_append_left _ hr')) fun r' hr' => hkeep r' (mem_append_left _ hr')
    have hr : r ∈ records ++ [r] := mem_append_right _ (mem_singleton_self r)
    rw [foldl_append, filter_append, foldl_append]
    cases habout : about r with
    | false =>
      rw [filter_cons_of_neg (by simp [habout]), filter_nil]
      exact (hskip r hr habout _).trans ih
    | true =>
      rw [filter_cons_of_pos habout, filter_nil]
      exact hkeep r hr habout _ _ ih

/-- Logs with the same records about the key make the same of a state there. -/
theorem foldl_eq_of_filter_eq {records' : List ρ} (hskip : ∀ r ∈ records ++ records',
    about r = false → ∀ s, f (next s r) = f s)
    (hkeep : ∀ r ∈ records ++ records', about r = true → ∀ s s',
    f s = f s' → f (next s r) = f (next s' r)) (h : records.filter about = records'.filter about)
    (s : σ) :
    f (records.foldl next s) = f (records'.foldl next s) := by
  rw [foldl_filter_about (fun r hr => hskip r (mem_append_left _ hr)) fun r hr => hkeep r (mem_append_left _ hr),
    h, ← foldl_filter_about (fun r hr => hskip r (mem_append_right _ hr)) fun r hr =>
      hkeep r (mem_append_right _ hr)]

/-- A log is its records in the order of their numbers. -/
theorem eq_of_numbers {records' : List ρ} (h : records.Pairwise fun a b => number a < number b)
    (h' : records'.Pairwise fun a b => number a < number b)
    (hmem : ∀ r, r ∈ records ↔ r ∈ records') :
    records = records' := by
  have hnodup : ∀ {records : List ρ}, records.Pairwise (fun a b => number a < number b) → records.Nodup := fun h =>
    h.imp fun hab he => by rw [he] at hab; omega
  exact Perm.eq_of_pairwise (fun a b _ _ hab hba => by omega) h h'
    ((perm_ext_iff_of_nodup (hnodup h) (hnodup h')).mpr hmem)

end State

end NextDb.LastWord
