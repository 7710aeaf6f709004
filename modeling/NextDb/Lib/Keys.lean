import Mathlib.Algebra.Group.Nat.Defs
import Mathlib.Data.List.Basic
import Std.Data.ExtTreeMap.Lemmas

/-!
# Keys of bytes

Keys compare byte by byte, from the left. A number written with a fixed number of
decimal digits compares as the number, and a part that a zero byte ends is read back
when the part behind has none.

* `compare_decimal`: of two numbers with as many digits.
* `append_zero_inj`: the parts before and behind the last zero byte.
-/

namespace NextDb.Keys

@[simp] theorem compare_append_left (p l l' : List UInt8) :
    compare (p ++ l) (p ++ l') = compare l l' := by
  induction p with
  | nil => rfl
  | cons b p ih =>
    rw [List.cons_append, List.cons_append, List.compare_eq_compareLex, List.compareLex_cons_cons,
      Std.ReflOrd.compare_self, Ordering.eq_then]
    exact ih

/-- What comes behind keys of one length does not matter when they differ. -/
theorem compare_append_lt {l l' : List UInt8} (hlen : l.length = l'.length)
    (hlt : compare l l' = .lt) (r r' : List UInt8) : compare (l ++ r) (l' ++ r') = .lt := by
  induction l generalizing l' with
  | nil =>
    cases l' with
    | nil => cases hlt
    | cons b l' => cases hlen
  | cons a l ih =>
    cases l' with
    | nil => cases hlen
    | cons b l' =>
      rw [List.compare_eq_compareLex, List.compareLex_cons_cons, Ordering.then_eq_lt] at hlt
      rw [List.cons_append, List.cons_append, List.compare_eq_compareLex, List.compareLex_cons_cons,
        Ordering.then_eq_lt]
      exact hlt.imp_right fun ⟨heq, hlt⟩ => ⟨heq, ih (Nat.succ.inj hlen) hlt⟩

/-- The last `width` decimal digits of a number. -/
def decimal : Nat → Nat → List UInt8
  | 0, _ => []
  | width + 1, n => decimal width (n / 10) ++ [48 + UInt8.ofNat (n % 10)]

@[simp] theorem length_decimal (width n : Nat) : (decimal width n).length = width := by
  induction width generalizing n with
  | zero => rfl
  | succ width ih => rw [decimal, List.length_append, ih, List.length_singleton]

theorem digit_toNat (n : Nat) : (48 + UInt8.ofNat (n % 10)).toNat = 48 + n % 10 := by
  have : n % 10 < 10 := Nat.mod_lt _ (by decide)
  rw [UInt8.toNat_add, UInt8.toNat_ofNat']
  show (48 + n % 10 % 256) % 256 = _
  omega

/-- Numbers of as many digits compare as their decimals do. -/
theorem compare_decimal {width m n : Nat} (hlt : m < n) (hn : n < 10 ^ width) :
    compare (decimal width m) (decimal width n) = .lt := by
  induction width generalizing m n with
  | zero =>
    rw [Nat.pow_zero] at hn
    omega
  | succ width ih =>
    rw [decimal, decimal]
    rcases Nat.lt_or_ge (m / 10) (n / 10) with hdiv | hdiv
    · refine compare_append_lt (by rw [length_decimal, length_decimal]) (ih hdiv ?_) _ _
      rw [Nat.pow_succ] at hn
      omega
    · have heq : m / 10 = n / 10 := by omega
      have hdigit : (48 + UInt8.ofNat (m % 10)).toNat < (48 + UInt8.ofNat (n % 10)).toNat := by
        rw [digit_toNat, digit_toNat]
        omega
      rw [heq, compare_append_left, List.compare_eq_compareLex, List.compareLex_cons_cons, Ordering.then_eq_lt]
      exact .inl (Std.compare_eq_lt.mpr hdigit)

/-- The part behind the last zero byte tells the part before it. -/
theorem append_zero_inj {l l' r r' : List UInt8} (hr : 0 ∉ r) (hr' : 0 ∉ r')
    (h : l ++ 0 :: r = l' ++ 0 :: r') :
    l = l' ∧ r = r' := by
  have hlast : ∀ {l r : List UInt8}, 0 ∉ r → (l ++ 0 :: r).reverse.takeWhile (· ≠ 0) = r.reverse := by
    intro l r hr
    rw [List.reverse_append, List.reverse_cons, List.append_assoc, List.takeWhile_append_of_pos]
    · simp
    · intro b hb
      simpa using fun he => hr (by simpa [he] using hb)
  have hreq : r = r' := List.reverse_inj.mp ((hlast hr).symm.trans ((congrArg _ (congrArg _ h)).trans (hlast hr')))
  exact ⟨List.append_cancel_right (hreq ▸ h), hreq⟩

end NextDb.Keys
