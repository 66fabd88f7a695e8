import Mathlib.Algebra.Order.Ring.Abs
import Mathlib.Tactic.Linarith

/-!
# Checked machine arithmetic

The operations on signed machine integers of `w` bits as C defines them, with no value where C leaves
the result undefined: when it does not fit, when a divisor is zero, and when a shift is negative or at
least the width. A computation in which every operation has a value is the exact one; the rules
`…_bind` take one operation off the front of a computation.
-/

namespace Checked

/-- The values of a signed type of `w` bits. -/
def Fits (w : ℕ) (x : ℤ) : Prop := -2 ^ (w - 1) ≤ x ∧ x < 2 ^ (w - 1)

/-- Whether a value fits is a pair of comparisons. -/
instance (w : ℕ) (x : ℤ) : Decidable (Fits w x) := inferInstanceAs (Decidable (_ ∧ _))

/-- A result, which has to fit. -/
def ret (w : ℕ) (x : ℤ) : Option ℤ := if Fits w x then some x else none

/-- A sum. -/
def add (w : ℕ) (a b : ℤ) : Option ℤ := ret w (a + b)

/-- A difference. -/
def sub (w : ℕ) (a b : ℤ) : Option ℤ := ret w (a - b)

/-- A negation. -/
def neg (w : ℕ) (a : ℤ) : Option ℤ := ret w (-a)

/-- A product. -/
def mul (w : ℕ) (a b : ℤ) : Option ℤ := ret w (a * b)

/-- A division truncates. -/
def div (w : ℕ) (a b : ℤ) : Option ℤ := if b = 0 then none else ret w (a.tdiv b)

/-- A shift to the left, by less than the width. -/
def shl (w : ℕ) (a n : ℤ) : Option ℤ := if 0 ≤ n ∧ n < w then ret w (a * 2 ^ n.toNat) else none

/-- A right shift is arithmetic. -/
def shr (w : ℕ) (a n : ℤ) : Option ℤ := if 0 ≤ n ∧ n < w then ret w (a >>> n.toNat) else none

/-! ## Values that fit -/

/-- What 64 bits hold. -/
theorem fits64 {x : ℤ} (h : -2 ^ 62 ≤ x ∧ x ≤ 2 ^ 62) : Fits 64 x := by
  obtain ⟨h0, h1⟩ := h
  constructor <;> norm_num at * <;> omega

/-- The bound of a product is the product of the bounds. -/
theorem abs_mul_le {a b m n : ℤ} (ha : |a| ≤ m) (hb : |b| ≤ n) : |a * b| ≤ m * n := by
  rw [abs_mul]
  exact mul_le_mul ha hb (abs_nonneg b) ((abs_nonneg a).trans ha)

/-- A quotient in units of the divisor is at most the dividend. -/
theorem abs_tdiv_mul_le (a d : ℤ) : |a.tdiv d| * |d| ≤ |a| := by
  have hnat : (a.tdiv d).natAbs * d.natAbs ≤ a.natAbs := by
    rw [Int.natAbs_tdiv]
    exact Nat.div_mul_le_self _ _
  rw [Int.abs_eq_natAbs, Int.abs_eq_natAbs, Int.abs_eq_natAbs]
  exact_mod_cast hnat

/-- A quotient that truncates is within the bound that its divisor leaves. -/
theorem abs_tdiv_le {a d n : ℤ} (hd : 0 < d) (h : |a| ≤ n * d) : |a.tdiv d| ≤ n := by
  have hmul := abs_tdiv_mul_le a d
  rw [abs_of_pos hd] at hmul
  exact le_of_mul_le_mul_right (hmul.trans h) hd

/-- A right shift does not make a value larger. -/
theorem abs_shiftRight_le (x : ℤ) (i : ℕ) : |x >>> i| ≤ |x| := by
  rw [Int.shiftRight_eq_div_pow, Int.abs_eq_natAbs, Int.abs_eq_natAbs]
  exact_mod_cast Int.natAbs_ediv_le_natAbs x _

/-! ## Operations with a value -/

/-- A value that fits is returned. -/
theorem ret_eq {w : ℕ} {x : ℤ} (h : Fits w x) : ret w x = some x := if_pos h

/-- What follows goes on with a value that fits. -/
theorem ret_bind {w : ℕ} {x : ℤ} {α : Type} {k : ℤ → Option α} (h : Fits w x) : (ret w x >>= k) = k x := by
  rw [ret_eq h]
  rfl

section Bind

variable {w : ℕ} {a b n : ℤ} {i : ℕ} {α : Type} {k : ℤ → Option α}

/-- A quotient that fits. -/
theorem div_eq (hb : b ≠ 0) (h : Fits w (a.tdiv b)) : div w a b = some (a.tdiv b) :=
  (if_neg hb).trans (ret_eq h)

/-- A shift to the left that fits. -/
theorem shl_eq (hi : i < w) (h : Fits w (a * 2 ^ i)) : shl w a i = some (a * 2 ^ i) :=
  (if_pos ⟨Int.natCast_nonneg i, Int.ofNat_lt.mpr hi⟩).trans (ret_eq h)

/-- A shift to the right that fits. -/
theorem shr_eq (hi : i < w) (h : Fits w (a >>> i)) : shr w a i = some (a >>> i) :=
  (if_pos ⟨Int.natCast_nonneg i, Int.ofNat_lt.mpr hi⟩).trans (ret_eq h)

/-- What follows a sum that fits goes on with it. -/
theorem add_bind (h : Fits w (a + b)) : (add w a b >>= k) = k (a + b) := ret_bind h

/-- What follows a difference that fits goes on with it. -/
theorem sub_bind (h : Fits w (a - b)) : (sub w a b >>= k) = k (a - b) := ret_bind h

/-- What follows a negation that fits goes on with it. -/
theorem neg_bind (h : Fits w (-a)) : (neg w a >>= k) = k (-a) := ret_bind h

/-- What follows a product that fits goes on with it. -/
theorem mul_bind (h : Fits w (a * b)) : (mul w a b >>= k) = k (a * b) := ret_bind h

/-- What follows a quotient that fits goes on with it. -/
theorem div_bind (hb : b ≠ 0) (h : Fits w (a.tdiv b)) : (div w a b >>= k) = k (a.tdiv b) := by
  rw [div_eq hb h]
  rfl

/-- What follows a shift to the left that fits goes on with it. -/
theorem shl_bind (hi : i < w) (h : Fits w (a * 2 ^ i)) : (shl w a i >>= k) = k (a * 2 ^ i) := by
  rw [shl_eq hi h]
  rfl

/-- What follows a shift to the right that fits goes on with it. -/
theorem shr_bind (hi : i < w) (h : Fits w (a >>> i)) : (shr w a i >>= k) = k (a >>> i) := by
  rw [shr_eq hi h]
  rfl

end Bind

end Checked
