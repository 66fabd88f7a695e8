import Mathlib.Data.Nat.Basic
import Mathlib.Algebra.Order.Group.Nat
import Mathlib.Tactic.Common

/-!
# Multiples between bounds

Rounding to the multiples of a step, as C code does it on unsigned numbers. Among the multiples,
`roundDown` and `roundUp` are the two adjoints of the order: a multiple is below `n` exactly when it
is below `roundDown n m`, and above `n` exactly when it is above `roundUp n m`.
-/

namespace Multiples

/-- `rounddown`. -/
def roundDown (n m : ℕ) : ℕ := n - n % m

/-- `DIV_ROUND_UP`. -/
def divRoundUp (n d : ℕ) : ℕ := (n + d - 1) / d

/-- `roundup`. -/
def roundUp (n m : ℕ) : ℕ := (n + (m - 1)) / m * m

/-- What is rounded down is a multiple. -/
theorem dvd_roundDown (n m : ℕ) : m ∣ roundDown n m := Nat.dvd_sub_mod n

/-- It is rounded down. -/
theorem roundDown_le (n m : ℕ) : roundDown n m ≤ n := Nat.sub_le n (n % m)

/-- What is rounded up is a multiple. -/
theorem dvd_roundUp (n m : ℕ) : m ∣ roundUp n m := Nat.dvd_mul_left m _

/-- A multiple is at most `n` when it is at most `n` rounded down. -/
theorem le_roundDown_iff {v n m : ℕ} (h : m ∣ v) : v ≤ roundDown n m ↔ v ≤ n := by
  refine ⟨fun hv => hv.trans (roundDown_le n m), fun hv => ?_⟩
  -- The part of `n` above `v` rounds down on its own.
  have hmod : n % m ≤ n - v := by
    have hsub : (n - v) % m = n % m := by
      obtain ⟨k, rfl⟩ := h
      rw [Nat.sub_mul_mod hv]
    rw [← hsub]
    exact Nat.mod_le _ _
  unfold roundDown
  omega

/-- A multiple is at least `n` when it is at least `n` rounded up. -/
theorem roundUp_le_iff {v n m : ℕ} (hm : 0 < m) (h : m ∣ v) : roundUp n m ≤ v ↔ n ≤ v := by
  obtain ⟨k, rfl⟩ := h
  unfold roundUp
  rw [Nat.mul_comm m k, Nat.mul_le_mul_right_iff hm, ← Nat.lt_succ_iff, Nat.div_lt_iff_lt_mul hm,
    Nat.succ_mul]
  omega

/-- It is rounded up. -/
theorem le_roundUp {n m : ℕ} (hm : 0 < m) : n ≤ roundUp n m :=
  (roundUp_le_iff hm (dvd_roundUp n m)).mp le_rfl

/-- There is a multiple between two bounds exactly when the lower one rounds up to below both the upper
one rounded down and a further bound. -/
theorem exists_multiple_iff {lo hi top m : ℕ} (hm : 0 < m) :
    (∃ v, m ∣ v ∧ lo ≤ v ∧ v ≤ min hi top) ↔ roundUp lo m ≤ roundDown hi m ∧ roundUp lo m ≤ top := by
  constructor
  · rintro ⟨v, hv, hlo, hmin⟩
    have hup : roundUp lo m ≤ v := (roundUp_le_iff hm hv).mpr hlo
    have hdown : v ≤ roundDown hi m := (le_roundDown_iff hv).mpr (hmin.trans (min_le_left _ _))
    exact ⟨hup.trans hdown, hup.trans (hmin.trans (min_le_right _ _))⟩
  · rintro ⟨hhi, htop⟩
    exact ⟨roundUp lo m, dvd_roundUp lo m, le_roundUp hm,
      le_min (hhi.trans (roundDown_le hi m)) htop⟩

/-- Half of the parts, rounded up, is at most half of their bound. -/
theorem divRoundUp_two_le {n k : ℕ} (h : n ≤ 2 * k) : divRoundUp n 2 ≤ k := by
  unfold divRoundUp
  omega

end Multiples
