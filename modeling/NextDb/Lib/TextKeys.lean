import Mathlib.Data.String.Basic
import Mathlib.Tactic.IntervalCases

/-!
# Keys of texts

Keys made of texts that NUL characters join compare from the left, and a part without a NUL is read
back. A number written with a fixed number of decimal digits compares as the number.

* `joined_inj`, `joined_cancel`, `joined_lt`: a first part without a NUL, and what comes behind it.
* `joined_padded_lt`: of two numbers with as many digits.
-/

namespace NextDb.TextKeys

open List

/-- The text has no NUL. -/
def NulFree (text : String) : Prop := '\x00' ∉ text.toList

instance (text : String) : Decidable (NulFree text) := inferInstanceAs (Decidable (_ ∉ _))

/-- A part, a NUL, and what comes behind it. -/
def joined (part rest : String) : String := part ++ ("\x00" ++ rest)

/-- The text starts with these characters. -/
def Starts (start text : String) : Prop := start.toList <+: text.toList

instance (start text : String) : Decidable (Starts start text) :=
  inferInstanceAs (Decidable (_ <+: _))

theorem toList_joined (part rest : String) :
    (joined part rest).toList = part.toList ++ '\x00' :: rest.toList := by
  have hnul : "\x00".toList = ['\x00'] := by decide
  simp [joined, String.toList_append, hnul]

theorem starts_empty (text : String) : Starts "" text := nil_prefix

variable {l l' r r' : List Char} {rest' part rest part' : String} {m n : Nat}

theorem append_cons_inj {c : Char} (hl : c ∉ l) (hl' : c ∉ l') :
    l ++ c :: r = l' ++ c :: r' ↔ l = l' ∧ r = r' := by
  induction l generalizing l' with
  | nil =>
    cases l' with
    | nil => simp
    | cons d l' =>
      have hd : c ≠ d := fun he => hl' (he ▸ mem_cons_self)
      simp [hd]
  | cons a l ih =>
    cases l' with
    | nil =>
      have ha : a ≠ c := fun he => hl (he ▸ mem_cons_self)
      simp [ha]
    | cons d l' =>
      have ih := ih (fun h => hl (mem_cons_of_mem _ h)) (fun h => hl' (mem_cons_of_mem _ h))
      simp [ih, and_assoc]

/-- Two texts with one separator each are the same, or one has its separator further to the right.
-/
theorem append_cons_eq_iff {c : Char} : l ++ c :: r = l' ++ c :: r' ↔ l = l' ∧ r = r' ∨
    (∃ m, l' = l ++ c :: m ∧ r = m ++ c :: r') ∨ ∃ m, l = l' ++ c :: m ∧ r' = m ++ c :: r := by
  constructor
  · intro h
    rcases append_eq_append_iff.mp h with ⟨m, rfl, hm⟩ | ⟨m, rfl, hm⟩
    · cases m with
      | nil => exact .inl ⟨(append_nil l).symm, (cons.inj hm).2⟩
      | cons d m =>
        obtain ⟨rfl, rfl⟩ := cons.inj hm
        exact .inr (.inl ⟨m, rfl, rfl⟩)
    · cases m with
      | nil => exact .inl ⟨append_nil l', (cons.inj hm).2.symm⟩
      | cons d m =>
        obtain ⟨rfl, rfl⟩ := cons.inj hm
        exact .inr (.inr ⟨m, rfl, rfl⟩)
  · rintro (⟨rfl, rfl⟩ | ⟨m, rfl, rfl⟩ | ⟨m, rfl, rfl⟩) <;> simp

theorem append_cons_prefix_iff {c : Char} (hl : c ∉ l) (hl' : c ∉ l') :
    l ++ c :: r <+: l' ++ c :: r' ↔ l = l' ∧ r <+: r' := by
  constructor
  · rintro ⟨rest, hrest⟩
    rw [append_assoc, cons_append, append_cons_inj hl hl'] at hrest
    exact ⟨hrest.1, rest, hrest.2⟩
  · rintro ⟨rfl, rest, rfl⟩
    exact ⟨rest, by rw [append_assoc, cons_append]⟩

theorem joined_inj (h : NulFree part) (h' : NulFree part') :
    joined part rest = joined part' rest' ↔ part = part' ∧ rest = rest' := by
  rw [← String.toList_inj, toList_joined, toList_joined, append_cons_inj h h', String.toList_inj, String.toList_inj]

theorem joined_cancel (h : NulFree part) (h' : NulFree part') :
    Starts (joined part rest) (joined part' rest') ↔ part = part' ∧ Starts rest rest' := by
  rw [Starts, toList_joined, toList_joined, append_cons_prefix_iff h h', String.toList_inj]
  rfl

/-- The part before the only separator is told by what stands up to it. -/
theorem append_cons_nil_prefix_iff {c : Char} (hl' : c ∉ l') (hr' : c ∉ r') :
    l ++ [c] <+: l' ++ c :: r' ↔ l = l' := by
  by_cases hl : c ∈ l
  · refine iff_of_false (fun hprefix => ?_) fun heq => hl' (heq ▸ hl)
    have hcount := hprefix.sublist.count_le c
    have hpos := count_pos_iff.mpr hl
    rw [count_append, count_append, count_cons_self, count_cons_self, count_eq_zero_of_not_mem hl',
      count_eq_zero_of_not_mem hr'] at hcount
    omega
  · exact (append_cons_prefix_iff hl hl').trans (and_iff_left nil_prefix)

theorem joined_empty_cancel (h' : NulFree part') (hrest : NulFree rest') :
    Starts (joined part "") (joined part' rest') ↔ part = part' := by
  rw [Starts, toList_joined, toList_joined]
  exact (append_cons_nil_prefix_iff h' hrest).trans String.toList_inj

/-- Of the part behind the last NUL, the rest tells the parts before it. -/
theorem joined_inj_last (h : NulFree rest) (h' : NulFree rest') :
    joined part rest = joined part' rest' ↔ part = part' ∧ rest = rest' := by
  rw [← String.toList_inj, toList_joined, toList_joined, ← reverse_inj, reverse_append, reverse_append, reverse_cons,
    reverse_cons, append_assoc, append_assoc, singleton_append, singleton_append, append_cons_inj (by rwa [mem_reverse])
    (by rwa [mem_reverse]), reverse_inj, reverse_inj, String.toList_inj, String.toList_inj, and_comm]

theorem append_left_lt (l : List Char) : l ++ r < l ++ r' ↔ r < r' := by
  induction l with
  | nil => rfl
  | cons a l ih =>
    rw [cons_append, cons_append, cons_lt_cons_iff, ih]
    simp

theorem le_of_starts {start text : String} (h : Starts start text) : start ≤ text := by
  obtain ⟨rest, hrest⟩ := h
  rw [← not_lt, String.lt_iff_toList_lt, ← hrest]
  intro hlt
  have hlt : start.toList ++ rest < start.toList ++ [] := by rwa [append_nil]
  exact not_lt_nil _ ((append_left_lt _).mp hlt)

theorem joined_lt : joined part rest < joined part rest' ↔ rest < rest' := by
  rw [String.lt_iff_toList_lt, toList_joined, toList_joined, append_left_lt, cons_lt_cons_iff, String.lt_iff_toList_lt]
  simp

/-! ## Numbers -/

/-- The last `width` decimal digits of a number. -/
def decimalDigits : Nat → Nat → List Char
  | 0, _ => []
  | width + 1, n => decimalDigits width (n / 10) ++ [Nat.digitChar (n % 10)]

/-- A number of `width` digits. -/
def padded (width n : Nat) : String := String.ofList (decimalDigits width n)

theorem length_decimalDigits (width n : Nat) : (decimalDigits width n).length = width := by
  induction width generalizing n with
  | zero => rfl
  | succ width ih => rw [decimalDigits, length_append, ih, length_singleton]

/-- What comes behind texts of one length does not matter when they differ. -/
theorem append_lt_of_lt (hlen : l.length = l'.length) (hlt : l < l') (r r' : List Char) :
    l ++ r < l' ++ r' := by
  induction l generalizing l' with
  | nil =>
    cases l' with
    | nil => exact absurd hlt (not_lt_nil _)
    | cons b l' => cases hlen
  | cons a l ih =>
    cases l' with
    | nil => cases hlen
    | cons b l' =>
      rw [cons_lt_cons_iff] at hlt
      rw [cons_append, cons_append, cons_lt_cons_iff]
      exact hlt.imp_right fun ⟨heq, hlt⟩ => ⟨heq, ih (Nat.succ.inj hlen) hlt⟩

theorem digitChar_lt (hlt : m < n) (hn : n < 10) : Nat.digitChar m < Nat.digitChar n := by
  interval_cases n <;> interval_cases m <;> decide

theorem digitChar_ne_nul (hn : n < 10) : Nat.digitChar n ≠ '\x00' := by
  interval_cases n <;> decide

theorem decimalDigits_lt {width : Nat} (hlt : m < n) (hn : n < 10 ^ width) :
    decimalDigits width m < decimalDigits width n := by
  induction width generalizing m n with
  | zero =>
    rw [Nat.pow_zero] at hn
    omega
  | succ width ih =>
    rw [decimalDigits, decimalDigits]
    rcases Nat.lt_or_ge (m / 10) (n / 10) with hdiv | hdiv
    · refine append_lt_of_lt (by rw [length_decimalDigits, length_decimalDigits]) (ih hdiv ?_) _ _
      rw [Nat.pow_succ] at hn
      omega
    · have heq : m / 10 = n / 10 := by omega
      rw [heq, append_left_lt, cons_lt_cons_iff]
      exact .inl (digitChar_lt (by omega) (by omega))

theorem nulFree_padded (width n : Nat) : NulFree (padded width n) := by
  have h : ∀ width n, '\x00' ∉ decimalDigits width n := by
    intro width
    induction width with
    | zero => exact fun _ => not_mem_nil
    | succ width ih =>
      intro n
      rw [decimalDigits, mem_append, mem_singleton, not_or]
      exact ⟨ih _, (digitChar_ne_nul (Nat.mod_lt _ (by decide))).symm⟩
  rw [NulFree, padded, String.toList_ofList]
  exact h width n

/-- What comes behind the numbers decides when they are the same. -/
theorem joined_padded_lt {width : Nat} (hm : m < 10 ^ width) (hn : n < 10 ^ width) :
    joined (padded width m) rest < joined (padded width n) rest' ↔
    m < n ∨ m = n ∧ rest < rest' := by
  have hlt : ∀ {m n : Nat} {rest rest' : String}, m < n → n < 10 ^ width →
      joined (padded width m) rest < joined (padded width n) rest' := by
    intro m n rest rest' hlt hn
    rw [String.lt_iff_toList_lt, toList_joined, toList_joined]
    refine append_lt_of_lt (by simp [padded, length_decimalDigits]) ?_ _ _
    rw [padded, padded, String.toList_ofList, String.toList_ofList]
    exact decimalDigits_lt hlt hn
  rcases Nat.lt_trichotomy m n with hmn | rfl | hmn
  · exact iff_of_true (hlt hmn hn) (.inl hmn)
  · rw [joined_lt]
    exact ⟨fun h => .inr ⟨rfl, h⟩, fun h => h.elim (fun h => absurd h (lt_irrefl _)) And.right⟩
  · refine iff_of_false (fun h => lt_irrefl _ (h.trans (hlt hmn hm))) ?_
    omega

end NextDb.TextKeys
