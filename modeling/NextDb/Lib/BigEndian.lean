import Mathlib.Tactic.NormNum

/-!
# Big-endian words

`toBe n w` is the word `w` in `n` bytes, most significant first, and `ofBe`
reads bytes back.
-/

namespace NextDb.BigEndian

/-- The lowest `n` bytes of a number, most significant first. -/
def toBe : Nat → Nat → List UInt8
  | 0, _ => []
  | n + 1, w => UInt8.ofNat (w / 256 ^ n) :: toBe n w

/-- The number that bytes spell, most significant first. -/
def ofBe (bytes : List UInt8) : Nat := bytes.foldl (fun w b => w * 256 + b.toNat) 0

@[simp] theorem length_toBe (n w : Nat) : (toBe n w).length = n := by
  induction n with
  | zero => rfl
  | succ n ih => simp [toBe, ih]

theorem foldl_toBe (n w acc : Nat) :
    (toBe n w).foldl (fun w b => w * 256 + b.toNat) acc = acc * 256 ^ n + w % 256 ^ n := by
  induction n generalizing acc with
  | zero => simp [toBe, Nat.mod_one]
  | succ n ih =>
    have hb : (UInt8.ofNat (w / 256 ^ n)).toNat = w / 256 ^ n % 256 := by simp
    rw [toBe, List.foldl_cons, ih, hb, Nat.add_mul, Nat.mul_assoc, ← Nat.pow_succ', Nat.pow_succ, Nat.mod_mul,
      Nat.mul_comm (256 ^ n) (w / 256 ^ n % 256)]
    omega

/-- A word that fits in its bytes is read back. -/
theorem ofBe_toBe {n w : Nat} (h : w < 256 ^ n) : ofBe (toBe n w) = w := by
  rw [ofBe, foldl_toBe, Nat.zero_mul, Nat.zero_add, Nat.mod_eq_of_lt h]

end NextDb.BigEndian
