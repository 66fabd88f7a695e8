import Mathlib.Analysis.SpecialFunctions.Complex.Arctan
import Mathlib.Analysis.SpecificLimits.Normed

/-!
# Rotation by shifts and additions

A vector of the plane is turned through an angle by a fixed sequence of elementary turns, the `i`-th
through the arc tangent of `2^-i` to one side or the other. Each stretches the vector by a factor that
the side does not change, and each may be off by a rounding error. `Turned` says how far the outcome is
from a rotation; it composes, and `Turns.turned` is its rule for a whole sequence.
-/

namespace Rotation

open Complex (I exp)

-- By name, so that the numeral of the reals is one term wherever it is written.
/-- The literal 2 is at least 2, as a numeral has to be. -/
instance two_atLeastTwo : Nat.AtLeastTwo 2 := ⟨le_rfl⟩

/-! ## Approximate rotations -/

/-- `v'` is `v` turned by `θ` and stretched by `g`, within a distance of `ε`. -/
def Turned (g θ ε : ℝ) (v v' : ℂ) : Prop := ‖v' - g * exp (θ * I) * v‖ ≤ ε

/-- A vector is itself, turned by nothing. -/
theorem Turned.refl (v : ℂ) : Turned 1 0 0 v v := by
  simp [Turned]

/-- A larger error. -/
theorem Turned.mono {g θ ε ε' : ℝ} {v v' : ℂ} (h : Turned g θ ε v v') (hε : ε ≤ ε') :
    Turned g θ ε' v v' := le_trans h hε

/-- A further rotation stretches the error of the first. -/
theorem Turned.trans {g g' θ θ' ε ε' : ℝ} {v v' v'' : ℂ} (hg : 0 ≤ g') (h : Turned g θ ε v v')
    (h' : Turned g' θ' ε' v' v'') : Turned (g * g') (θ + θ') (g' * ε + ε') v v'' := by
  have hsplit : v'' - (g * g' : ℝ) * exp ((θ + θ' : ℝ) * I) * v =
      g' * exp (θ' * I) * (v' - g * exp (θ * I) * v) + (v'' - g' * exp (θ' * I) * v') := by
    push_cast
    rw [add_mul, Complex.exp_add]
    ring
  have hfirst : ‖(g' : ℂ) * exp (θ' * I) * (v' - g * exp (θ * I) * v)‖ ≤ g' * ε := by
    rw [norm_mul, norm_mul, Complex.norm_exp_ofReal_mul_I, Complex.norm_real, Real.norm_of_nonneg hg,
      mul_one]
    exact mul_le_mul_of_nonneg_left h hg
  unfold Turned
  calc ‖v'' - (g * g' : ℝ) * exp ((θ + θ' : ℝ) * I) * v‖
      ≤ ‖(g' : ℂ) * exp (θ' * I) * (v' - g * exp (θ * I) * v)‖ + ‖v'' - g' * exp (θ' * I) * v'‖ := by
        rw [hsplit]
        exact norm_add_le _ _
    _ ≤ g' * ε + ε' := add_le_add hfirst h'

/-- Two angles that are close turn a vector to places that are close. -/
theorem norm_exp_sub_exp_le (θ θ' : ℝ) : ‖exp (θ * I) - exp (θ' * I)‖ ≤ |θ - θ'| := by
  have hfactor : exp (θ * I) - exp (θ' * I) = exp (θ' * I) * (exp ((θ - θ' : ℝ) * I) - 1) := by
    rw [mul_sub, mul_one, ← Complex.exp_add]
    congr 2
    push_cast
    ring
  rw [hfactor, norm_mul, Complex.norm_exp_ofReal_mul_I, one_mul, mul_comm ((_ : ℝ) : ℂ) I]
  exact Real.norm_exp_I_mul_ofReal_sub_one_le

/-- The vector of length `r` at the angle `θ`, after an exact rotation of the real axis. -/
theorem Turned.near {g θ ε r α : ℝ} {x : ℝ} {v : ℂ} (h : Turned g θ ε x v) (hr : 0 ≤ r) :
    ‖v - r * exp (α * I)‖ ≤ ε + |g * x - r| + r * |θ - α| := by
  have hsplit : v - r * exp (α * I) = (v - g * exp (θ * I) * x) + ((g * x - r : ℝ) * exp (θ * I)
      + r * (exp (θ * I) - exp (α * I))) := by
    push_cast
    ring
  have hstretch : ‖((g * x - r : ℝ) : ℂ) * exp (θ * I)‖ = |g * x - r| := by
    rw [norm_mul, Complex.norm_exp_ofReal_mul_I, mul_one, Complex.norm_real, Real.norm_eq_abs]
  have hangle : ‖(r : ℂ) * (exp (θ * I) - exp (α * I))‖ ≤ r * |θ - α| := by
    rw [norm_mul, Complex.norm_real, Real.norm_of_nonneg hr]
    exact mul_le_mul_of_nonneg_left (norm_exp_sub_exp_le θ α) hr
  have hsum := norm_add_le (v - g * exp (θ * I) * x) (((g * x - r : ℝ) : ℂ) * exp (θ * I)
      + r * (exp (θ * I) - exp (α * I)))
  have htail := norm_add_le (((g * x - r : ℝ) : ℂ) * exp (θ * I)) (r * (exp (θ * I) - exp (α * I)))
  rw [← hsplit] at hsum
  unfold Turned at h
  linarith

/-! ## Elementary turns -/

/-- How much the `i`-th turn stretches a vector. -/
noncomputable def growth (i : ℕ) : ℝ := √(1 + (1 / 4) ^ i)

/-- A complex number of real part one. -/
theorem one_add_mul_I (x : ℝ) : (1 + x * I : ℂ) = √(1 + x ^ 2) * exp (Real.arctan x * I) := by
  have hpos : (0 : ℝ) < √(1 + x ^ 2) := Real.sqrt_pos.mpr (by positivity)
  rw [Complex.exp_mul_I, ← Complex.ofReal_cos, ← Complex.ofReal_sin, Real.cos_arctan, Real.sin_arctan,
    mul_add, ← mul_assoc, ← Complex.ofReal_mul, ← Complex.ofReal_mul, mul_one_div_cancel hpos.ne',
    mul_div_cancel₀ _ hpos.ne', Complex.ofReal_one]

/-- An elementary turn rotates and stretches. -/
theorem turn_eq (i : ℕ) {d : ℤ} (hd : d = 1 ∨ d = -1) :
    (1 + (d * (1 / 2) ^ i : ℝ) * I : ℂ) =
      growth i * exp ((d * Real.arctan ((1 / 2) ^ i) : ℝ) * I) := by
  have hsq : ((d : ℝ) * (1 / 2) ^ i) ^ 2 = (1 / 4) ^ i := by
    obtain rfl | rfl := hd <;> push_cast <;> rw [mul_pow, ← pow_mul, mul_comm i 2, pow_mul] <;> norm_num
  have hang : Real.arctan (d * (1 / 2) ^ i) = d * Real.arctan ((1 / 2) ^ i) := by
    obtain rfl | rfl := hd <;> simp [Real.arctan_neg]
  rw [one_add_mul_I, hsq, hang]
  rfl

/-- The growth over `n` turns from the `i`-th on. -/
noncomputable def gain (i : ℕ) : ℕ → ℝ
  | 0 => 1
  | n + 1 => growth i * gain (i + 1) n

/-- What errors of at most one in each of `n` turns have added up to after the last. -/
noncomputable def drift (i : ℕ) : ℕ → ℝ
  | 0 => 0
  | n + 1 => gain (i + 1) n + drift (i + 1) n

/-- A gain is not negative. -/
theorem gain_nonneg (i n : ℕ) : 0 ≤ gain i n := by
  induction n generalizing i with
  | zero => exact zero_le_one
  | succ n ih => exact mul_nonneg (Real.sqrt_nonneg _) (ih (i + 1))

/-- The square of the growth, a rational number. -/
def gainSq (i : ℕ) : ℕ → ℚ
  | 0 => 1
  | n + 1 => (1 + (1 / 4) ^ i) * gainSq (i + 1) n

/-- The square of the gain is the product of the squares of its steps. -/
theorem gain_sq (i n : ℕ) : gain i n ^ 2 = gainSq i n := by
  induction n generalizing i with
  | zero => simp [gain, gainSq]
  | succ n ih =>
    unfold gain gainSq growth
    rw [mul_pow, ih, Real.sq_sqrt (by positivity)]
    push_cast
    ring

/-- The later turns hardly stretch a vector. -/
theorem gain_le (i n : ℕ) : gain i n ≤ 1 + (1 / 4) ^ i := by
  induction n generalizing i with
  | zero => simp [gain]
  | succ n ih =>
    have hx : (0 : ℝ) < (1 / 4) ^ i := by positivity
    have hx1 : ((1 / 4) ^ i : ℝ) ≤ 1 := pow_le_one₀ (by norm_num) (by norm_num)
    have hroot : growth i ≤ 1 + (1 / 4) ^ i / 2 := by
      unfold growth
      rw [Real.sqrt_le_left (by positivity)]
      nlinarith
    have hstep : gain (i + 1) n ≤ 1 + (1 / 4) ^ i / 4 := by
      calc gain (i + 1) n ≤ 1 + (1 / 4) ^ (i + 1) := ih (i + 1)
        _ = 1 + (1 / 4) ^ i / 4 := by rw [pow_succ]; ring
    calc growth i * gain (i + 1) n ≤ (1 + (1 / 4) ^ i / 2) * (1 + (1 / 4) ^ i / 4) :=
          mul_le_mul hroot hstep (gain_nonneg _ _) (by positivity)
      _ ≤ 1 + (1 / 4) ^ i := by nlinarith

/-- The errors add up to little more than their number. -/
theorem drift_le (i n : ℕ) : drift i n ≤ n + (1 / 4) ^ i / 3 := by
  induction n generalizing i with
  | zero =>
    unfold drift
    positivity
  | succ n ih =>
    have hstep := ih (i + 1)
    have hgain := gain_le (i + 1) n
    have hpow : ((1 / 4) ^ (i + 1) : ℝ) = (1 / 4) ^ i / 4 := by
      rw [pow_succ]
      ring
    unfold drift
    rw [hpow] at hstep hgain
    push_cast
    linarith

/-- A sequence of `n` turns from the `i`-th on, through the angle `θ` in all, each off by at most
`ε`. -/
inductive Turns (ε : ℝ) : ℕ → ℕ → ℝ → ℂ → ℂ → Prop
  | done (i : ℕ) (v : ℂ) : Turns ε i 0 0 v v
  | turn {i n : ℕ} {d : ℤ} {θ : ℝ} {v v' v'' : ℂ} (hd : d = 1 ∨ d = -1)
      (h : ‖v' - (1 + (d * (1 / 2) ^ i : ℝ) * I) * v‖ ≤ ε) (hs : Turns ε (i + 1) n θ v' v'') :
      Turns ε i (n + 1) (d * Real.arctan ((1 / 2) ^ i) + θ) v v''

/-- What some steps do, as one turn with their gain and their drift. -/
theorem Turns.turned {ε θ : ℝ} {i n : ℕ} {v v' : ℂ} (h : Turns ε i n θ v v') :
    Turned (gain i n) θ (ε * drift i n) v v' := by
  induction h with
  | done i v =>
    simpa only [gain, drift, mul_zero] using Turned.refl v
  | @turn i n d θ v v' v'' hd h _ ih =>
    have hfirst : Turned (growth i) (d * Real.arctan ((1 / 2) ^ i)) ε v v' := by
      unfold Turned
      rwa [← turn_eq i hd]
    have hall := hfirst.trans (gain_nonneg _ _) ih
    refine hall.mono (le_of_eq ?_)
    rw [drift, mul_add, mul_comm ε (gain _ _)]

/-! ## The parts of an error -/

/-- Both parts of `v` are at most `ε` in size. -/
def Within (ε : ℝ) (v : ℂ) : Prop := |v.re| ≤ ε ∧ |v.im| ≤ ε

/-- A vector of a small norm is within the bound. -/
theorem Within.of_norm {ε : ℝ} {v : ℂ} (h : ‖v‖ ≤ ε) : Within ε v :=
  ⟨(Complex.abs_re_le_norm v).trans h, (Complex.abs_im_le_norm v).trans h⟩

/-- A larger bound. -/
theorem Within.mono {ε ε' : ℝ} {v : ℂ} (h : Within ε v) (hε : ε ≤ ε') : Within ε' v :=
  ⟨h.1.trans hε, h.2.trans hε⟩

/-- The bound of a sum is the sum of the bounds. -/
theorem Within.add {ε ε' : ℝ} {v v' : ℂ} (h : Within ε v) (h' : Within ε' v') :
    Within (ε + ε') (v + v') := by
  unfold Within
  rw [Complex.add_re, Complex.add_im]
  exact ⟨(abs_add_le _ _).trans (add_le_add h.1 h'.1), (abs_add_le _ _).trans (add_le_add h.2 h'.2)⟩

/-- A vector and its negative are within the same bound. -/
theorem Within.neg {ε : ℝ} {v : ℂ} (h : Within ε v) : Within ε (-v) := by
  simpa only [Within, Complex.neg_re, Complex.neg_im, abs_neg] using h

/-- So are a vector and its conjugate. -/
theorem Within.conj {ε : ℝ} {v : ℂ} (h : Within ε v) : Within ε ((starRingEnd ℂ) v) := by
  simpa only [Within, Complex.conj_re, Complex.conj_im, abs_neg] using h

/-- A small rotation mixes the parts a little. -/
theorem Within.rotate {ε g θ r : ℝ} {v : ℂ} (h : Within ε v) (hg : 0 ≤ g) (hθ : |θ| ≤ r) :
    Within ((1 + r) * g * ε) (g * exp (θ * I) * v) := by
  have hε : 0 ≤ ε := (abs_nonneg _).trans h.1
  -- One part keeps nearly all of an error, the other one gets the sine's share of it.
  have hmix : ∀ a b : ℝ, |a| ≤ ε → |b| ≤ ε →
      |g * (Real.cos θ * a)| + |g * (Real.sin θ * b)| ≤ (1 + r) * g * ε := fun a b ha hb => by
    have hcos : |Real.cos θ * a| ≤ 1 * ε := by
      rw [abs_mul]
      exact mul_le_mul (Real.abs_cos_le_one θ) ha (abs_nonneg _) zero_le_one
    have hsin : |Real.sin θ * b| ≤ r * ε := by
      rw [abs_mul]
      exact mul_le_mul (Real.abs_sin_le_abs.trans hθ) hb (abs_nonneg _) ((abs_nonneg θ).trans hθ)
    rw [abs_mul g, abs_mul g, abs_of_nonneg hg]
    calc g * |Real.cos θ * a| + g * |Real.sin θ * b| ≤ g * (1 * ε) + g * (r * ε) :=
          add_le_add (mul_le_mul_of_nonneg_left hcos hg) (mul_le_mul_of_nonneg_left hsin hg)
      _ = (1 + r) * g * ε := by ring
  -- The two parts of the product.
  have hparts : (g : ℂ) * exp (θ * I) * v = ((g * (Real.cos θ * v.re) - g * (Real.sin θ * v.im) : ℝ) : ℂ) +
      ((g * (Real.cos θ * v.im) + g * (Real.sin θ * v.re) : ℝ) : ℂ) * I := by
    nth_rewrite 1 [← Complex.re_add_im v]
    rw [Complex.exp_mul_I, ← Complex.ofReal_cos, ← Complex.ofReal_sin]
    push_cast
    linear_combination ((g : ℂ) * Complex.sin θ * v.im) * Complex.I_mul_I
  unfold Within
  rw [hparts]
  simp only [Complex.add_re, Complex.add_im, Complex.ofReal_re, Complex.ofReal_im, Complex.re_ofReal_mul,
    Complex.im_ofReal_mul, Complex.I_re, Complex.I_im, mul_zero, mul_one, add_zero, zero_add]
  constructor
  · exact (abs_sub _ _).trans (hmix _ _ h.1 h.2)
  · exact (abs_add_le _ _).trans (hmix _ _ h.2 h.1)

/-- What errors of parts of at most one in each of `n` turns have added up to in a part: the later turns
hardly mix the parts. -/
noncomputable def sway (i : ℕ) : ℕ → ℝ
  | 0 => 0
  | n + 1 => (1 + (1 / 2) ^ i) * gain (i + 1) n + sway (i + 1) n

/-- The errors add up to little more than their number in each part. -/
theorem sway_le (i n : ℕ) : sway i n ≤ n + 2 * (1 / 2) ^ i + (1 / 4) ^ i := by
  induction n generalizing i with
  | zero =>
    unfold sway
    positivity
  -- Over the `n` rotations that follow, the error of this one grows by the gain only.
  | succ n ih =>
    have hstep := ih (i + 1)
    have hgain := gain_le (i + 1) n
    have hquarter : ((1 / 4) ^ i : ℝ) = (1 / 2) ^ i * (1 / 2) ^ i := by
      rw [← mul_pow]
      norm_num
    have hx0 : (0 : ℝ) ≤ (1 / 2) ^ i := by positivity
    have hx1 : ((1 / 2) ^ i : ℝ) ≤ 1 := pow_le_one₀ (by norm_num) (by norm_num)
    rw [pow_succ, pow_succ, hquarter] at hstep
    rw [pow_succ, hquarter] at hgain
    rw [hquarter, sway]
    -- With `x` for the power of two that is left, the rest is a polynomial inequality.
    generalize ((1 / 2) ^ i : ℝ) = x at *
    have hmix : (1 + x) * gain (i + 1) n ≤ (1 + x) * (1 + x * x * (1 / 4)) :=
      mul_le_mul_of_nonneg_left hgain (by linarith)
    have hcube : x * x * x ≤ x * x * 1 := mul_le_mul_of_nonneg_left hx1 (by positivity)
    have hsq : 0 ≤ x * x := mul_nonneg hx0 hx0
    push_cast
    linarith

/-- An elementary turn goes through a small angle. -/
theorem abs_turn_le (i : ℕ) {d : ℤ} (hd : d = 1 ∨ d = -1) : |d * Real.arctan ((1 / 2) ^ i)| ≤ (1 / 2) ^ i := by
  have hpos : (0 : ℝ) ≤ Real.arctan ((1 / 2) ^ i) := Real.arctan_nonneg.mpr (by positivity)
  have hle := Real.le_tan hpos (Real.arctan_lt_pi_div_two _)
  rw [Real.tan_arctan] at hle
  have hside : |(d : ℝ)| = 1 := by
    obtain rfl | rfl := hd <;> simp
  rwa [abs_mul, hside, one_mul, abs_of_nonneg hpos]

/-- One more turn in front: its error is turned by those after it. -/
theorem Within.turn {i n : ℕ} {d : ℤ} {θ ε : ℝ} {v v' v'' : ℂ} (hd : d = 1 ∨ d = -1)
    (h : Within 1 (v' - (1 + (d * (1 / 2) ^ i : ℝ) * I) * v)) (hθ : |θ| ≤ (1 / 2) ^ i)
    (hs : Within ε (v'' - gain (i + 1) n * exp (θ * I) * v')) :
    Within ((1 + (1 / 2) ^ i) * gain (i + 1) n + ε)
      (v'' - gain i (n + 1) * exp ((d * Real.arctan ((1 / 2) ^ i) + θ : ℝ) * I) * v) := by
  have hsplit : v'' - gain i (n + 1) * exp ((d * Real.arctan ((1 / 2) ^ i) + θ : ℝ) * I) * v =
      gain (i + 1) n * exp (θ * I) * (v' - (1 + (d * (1 / 2) ^ i : ℝ) * I) * v) +
        (v'' - gain (i + 1) n * exp (θ * I) * v') := by
    rw [turn_eq i hd, gain]
    push_cast
    rw [add_mul, Complex.exp_add]
    ring
  have hfirst := h.rotate (gain_nonneg (i + 1) n) hθ
  rw [mul_one] at hfirst
  rw [hsplit]
  exact hfirst.add hs

/-! ## The choice of the sides -/

/-- The angle left after turns through the angles of a table, each to the side of what is left. -/
def left (z : ℤ) : List ℤ → ℤ
  | [] => z
  | a :: tab => left (z - (if 0 ≤ z then 1 else -1) * a) tab

/-- Each turn can be undone by those after it, within `δ`. -/
def Covers (δ : ℤ) : List ℤ → Prop
  | [] => True
  | a :: tab => 0 ≤ a ∧ a ≤ tab.sum + δ ∧ Covers δ tab

/-- Whether the angles of a table cover one another is decided from its head. -/
instance Covers.decidable (δ : ℤ) : (tab : List ℤ) → Decidable (Covers δ tab)
  | [] => inferInstanceAs (Decidable True)
  | a :: tab =>
    have := Covers.decidable δ tab
    inferInstanceAs (Decidable (0 ≤ a ∧ a ≤ tab.sum + δ ∧ Covers δ tab))

/-- An angle within reach of the table is turned through but for `δ`. -/
theorem abs_left_le {δ z : ℤ} {tab : List ℤ} (h : Covers δ tab) (hz : |z| ≤ tab.sum + δ) :
    |left z tab| ≤ δ := by
  induction tab generalizing z with
  | nil => simpa [left] using hz
  | cons a tab ih =>
    obtain ⟨ha, hrest, hcov⟩ := h
    rw [List.sum_cons, abs_le] at hz
    refine ih hcov (abs_le.mpr ?_)
    split_ifs <;> omega

/-! ## Arc tangents -/

/-- The partial sums of the arc tangent's series. -/
noncomputable def arctanSum (x : ℝ) (n : ℕ) : ℝ :=
  ∑ i ∈ Finset.range n, (-1) ^ i * (x ^ (2 * i + 1) / (2 * i + 1))

/-- The partial sums are below and above the arc tangent by turns. -/
theorem arctan_mem {x : ℝ} (h0 : 0 ≤ x) (h1 : x < 1) (k : ℕ) :
    arctanSum x (2 * k) ≤ Real.arctan x ∧ Real.arctan x ≤ arctanSum x (2 * k + 1) := by
  have hanti : Antitone fun i : ℕ => x ^ (2 * i + 1) / (2 * (i : ℝ) + 1) := by
    refine antitone_nat_of_succ_le fun i => ?_
    have hpow : x ^ (2 * (i + 1) + 1) ≤ x ^ (2 * i + 1) :=
      pow_le_pow_of_le_one h0 h1.le (by omega)
    push_cast
    exact div_le_div₀ (by positivity) hpow (by positivity) (by linarith)
  have hsum : HasSum (fun i : ℕ => (-1) ^ i * (x ^ (2 * i + 1) / (2 * (i : ℝ) + 1))) (Real.arctan x) := by
    simpa [mul_div_assoc] using Real.hasSum_arctan (show ‖x‖ < 1 by rwa [Real.norm_of_nonneg h0])
  exact ⟨hanti.alternating_series_le_tendsto hsum.tendsto_sum_nat k,
    hanti.tendsto_le_alternating_series hsum.tendsto_sum_nat k⟩

end Rotation
