import BabyfacePro.Eq.Range
import BabyfacePro.Rates

/-!
# A bell at the ends of the spectrum

At 0 Hz and at half the sample rate a bell's response is the quotient of two sums of words. Before they
are rounded, numerator and denominator have the same sums there: the gain drops out. Each of the five
quotients is rounded by less than one and a half of its units, which leaves less than sixteen.
-/

namespace BabyfacePro

open Checked (abs_mul_le)

/-! ## How far a word is off -/

section Word

variable {num den w : ℤ}

/-- A word times its divisor is off by at most one and a half divisors, a half to the lower side. -/
theorem WordQuot.mul_word_mem (h : WordQuot num den)
    (hw : w = toInt32 ((num * BF_EQ_Q27 + den.tdiv 2).tdiv den)) :
    -den < 2 * (den * w - num * 2 ^ 27) ∧ 2 * (den * w - num * 2 ^ 27) < 3 * den := by
  have hhalf := half_mem h.pos.1
  have hmod := Int.mul_tdiv_add_tmod (num * 2 ^ 27 + den.tdiv 2) den
  have hlt := Int.tmod_lt_of_pos (num * 2 ^ 27 + den.tdiv 2) h.pos.1
  have hgt := Int.lt_tmod_of_pos (num * 2 ^ 27 + den.tdiv 2) h.pos.1
  rw [h.toInt32_eq] at hw
  unfold BF_EQ_Q27 at hw
  rw [← hw] at hmod
  constructor <;> omega

/-- Of a quotient that is not negative, it is off by at most half a divisor. -/
theorem WordQuot.mul_word_le (h : WordQuot num den) (hnum : 0 ≤ num)
    (hw : w = toInt32 ((num * BF_EQ_Q27 + den.tdiv 2).tdiv den)) :
    2 * (den * w - num * 2 ^ 27) ≤ den := by
  have hpos := h.pos.1
  have hhalf := half_mem hpos
  have hmod := Int.mul_tdiv_add_tmod (num * 2 ^ 27 + den.tdiv 2) den
  have hnonneg := Int.tmod_nonneg den (show 0 ≤ num * 2 ^ 27 + den.tdiv 2 by omega)
  rw [h.toInt32_eq] at hw
  unfold BF_EQ_Q27 at hw
  rw [← hw] at hmod
  omega

end Word

/-! ## The scale -/

/-- A bell's gain at its centre is less than four. -/
theorem eqBell_scale_le {c alpha A sq : ℤ} (h : BandTerms c alpha A sq) :
    100 * (eqBell c alpha A).b0 ≤ 399 * (eqBell c alpha A).a0 ∧ 2 ^ 27 - 172 ≤ (eqBell c alpha A).b0 := by
  obtain ⟨-, halpha, hA, -⟩ := h
  have hround := round27_mem (alpha * A)
  have hhalf := half_mem (show 0 < A by omega)
  have hmod := Int.mul_tdiv_add_tmod (alpha * 2 ^ 27 + A.tdiv 2) A
  have hlt := Int.tmod_lt_of_pos (alpha * 2 ^ 27 + A.tdiv 2) (show 0 < A by omega)
  unfold eqBell BF_EQ_Q27
  dsimp only
  -- With a negative bandwidth term, which only the error of the sine can give, both products are small.
  obtain hneg | hpos := lt_or_ge alpha 0
  · have hta : -43 * 534330320 ≤ alpha * A ∧ alpha * A ≤ 0 := by
      constructor <;> nlinarith
    have hd : -172 ≤ (alpha * 2 ^ 27 + A.tdiv 2).tdiv A := Int.le_tdiv_of_mul_le (by omega) (by omega)
    constructor <;> omega
  · -- The larger the amplitude, the larger the numerator and the smaller the denominator.
    have hta : 0 ≤ alpha * A ∧ alpha * A ≤ alpha * 534330320 :=
      ⟨mul_nonneg hpos (by omega), mul_le_mul_of_nonneg_left hA.2 hpos⟩
    have hd : 0 ≤ (alpha * 2 ^ 27 + A.tdiv 2).tdiv A := Int.tdiv_nonneg (by omega) (by omega)
    have hmul : A * (alpha * 2 ^ 27 + A.tdiv 2).tdiv A ≤ 534330320 * (alpha * 2 ^ 27 + A.tdiv 2).tdiv A :=
      mul_le_mul_of_nonneg_right hA.2 hd
    constructor <;> omega

/-! ## What leaks -/

/-- The two ends of the spectrum: the denominator `a0 ± a1 + a2` and the numerator `b0 ± b1 + b2` are the
same sum `S`, and the words are off by `f` and `e` in all, and the scale by `r`. -/
theorem leak_le {a0 b0 w4 u v S e f r : ℤ} (ha0 : 0 < a0) (hb0 : 2 ^ 27 - 172 ≤ b0)
    (hscale : 100 * b0 ≤ 399 * a0) (hS : -88 ≤ S ∧ S ≤ 4 * 2 ^ 27 + 88)
    (hu : b0 * u = S * 2 ^ 27 + e) (hv : a0 * v = S * 2 ^ 27 + f) (hw : a0 * w4 = b0 * 2 ^ 27 + r)
    (he : -(2 * b0) ≤ e ∧ e ≤ 3 * b0) (hf : -(2 * a0) ≤ f ∧ f ≤ 3 * a0) (hr : -a0 ≤ 2 * r ∧ 2 * r ≤ a0) :
    |w4 * u - 2 ^ 27 * v| ≤ 16 * 2 ^ 27 := by
  have hb : 0 < b0 := by omega
  have hP : 0 < a0 * b0 := mul_pos ha0 hb
  have hsplit : a0 * b0 * (w4 * u - 2 ^ 27 * v) =
      2 ^ 27 * (b0 * e) + 2 ^ 27 * (r * S) + r * e - 2 ^ 27 * (b0 * f) := by
    calc a0 * b0 * (w4 * u - 2 ^ 27 * v) = a0 * w4 * (b0 * u) - 2 ^ 27 * b0 * (a0 * v) := by ring
      _ = (b0 * 2 ^ 27 + r) * (S * 2 ^ 27 + e) - 2 ^ 27 * b0 * (S * 2 ^ 27 + f) := by rw [hw, hu, hv]
      _ = _ := by ring
  -- Each product in units of `a0 * b0`.
  have hbb : 100 * (b0 * b0) ≤ 399 * (a0 * b0) := by nlinarith
  have hbe : -(2 * (b0 * b0)) ≤ b0 * e ∧ b0 * e ≤ 3 * (b0 * b0) := by constructor <;> nlinarith
  have hbf : -(2 * (a0 * b0)) ≤ b0 * f ∧ b0 * f ≤ 3 * (a0 * b0) := by constructor <;> nlinarith
  have hrS := abs_le.mp (abs_mul_le (abs_le.mpr hr) (abs_le.mpr ⟨by omega, hS.2⟩))
  have hSb : a0 * (100 * (4 * 2 ^ 27 + 88)) ≤ a0 * (401 * b0) :=
    mul_le_mul_of_nonneg_left (by omega) ha0.le
  have hre := abs_le.mp (abs_mul_le (abs_le.mpr hr) (abs_le.mpr ⟨by omega, he.2⟩))
  have hlin : a0 * (401 * b0) = 401 * (a0 * b0) ∧ a0 * (3 * b0) = 3 * (a0 * b0) ∧ 2 * r * S = 2 * (r * S) ∧
      2 * r * e = 2 * (r * e) := ⟨by ring, by ring, by ring, by ring⟩
  rw [abs_le]
  constructor
  · refine le_of_mul_le_mul_left ?_ hP
    rw [hsplit]
    omega
  · refine le_of_mul_le_mul_left ?_ hP
    rw [hsplit]
    omega

/-- The words of a biquad that is in range, each with what its rounding leaves. -/
theorem Biquad.InRange.words {k : Biquad} (h : k.InRange) :
    ∃ ρ : Fin 5 → ℤ, k.a0 * k.words 0 = k.a1 * 2 ^ 27 + ρ 0 ∧ k.a0 * k.words 1 = k.a2 * 2 ^ 27 + ρ 1 ∧
      k.b0 * k.words 2 = k.b1 * 2 ^ 27 + ρ 2 ∧ k.b0 * k.words 3 = k.b2 * 2 ^ 27 + ρ 3 ∧
      k.a0 * k.words 4 = k.b0 * 2 ^ 27 + ρ 4 ∧ (-k.a0 < 2 * ρ 0 ∧ 2 * ρ 0 < 3 * k.a0) ∧
      (-k.a0 < 2 * ρ 1 ∧ 2 * ρ 1 < 3 * k.a0) ∧ (-k.b0 < 2 * ρ 2 ∧ 2 * ρ 2 < 3 * k.b0) ∧
      (-k.b0 < 2 * ρ 3 ∧ 2 * ρ 3 < 3 * k.b0) ∧ (-k.a0 < 2 * ρ 4 ∧ 2 * ρ 4 ≤ k.a0) :=
  ⟨![k.a0 * k.words 0 - k.a1 * 2 ^ 27, k.a0 * k.words 1 - k.a2 * 2 ^ 27, k.b0 * k.words 2 - k.b1 * 2 ^ 27,
    k.b0 * k.words 3 - k.b2 * 2 ^ 27, k.a0 * k.words 4 - k.b0 * 2 ^ 27],
    (add_sub_cancel _ _).symm, (add_sub_cancel _ _).symm, (add_sub_cancel _ _).symm,
    (add_sub_cancel _ _).symm, (add_sub_cancel _ _).symm, h.a1.mul_word_mem rfl, h.a2.mul_word_mem rfl,
    h.b1.mul_word_mem rfl, h.b2.mul_word_mem rfl, (h.scale.mul_word_mem rfl).1,
    h.scale.mul_word_le h.b1.pos.1.le rfl⟩

/-- The words of a bell, at both ends of the spectrum. -/
theorem eqBell_leak_le {c alpha A sq : ℤ} (h : BandTerms c alpha A sq) :
    let w := (eqBell c alpha A).words
    |w 4 * (2 ^ 27 + w 2 + w 3) - 2 ^ 27 * (2 ^ 27 + w 0 + w 1)| ≤ 16 * 2 ^ 27 ∧
      |w 4 * (2 ^ 27 - w 2 + w 3) - 2 ^ 27 * (2 ^ 27 - w 0 + w 1)| ≤ 16 * 2 ^ 27 := by
  obtain ⟨-, hin⟩ := eqBell64_eq h
  obtain ⟨hscale, hb0⟩ := eqBell_scale_le h
  obtain ⟨ρ, h0, h1, h2, h3, h4, hr0, hr1, hr2, hr3, hr4⟩ := hin.words
  have ha0 := hin.a1.pos.1
  -- Both sums are `2 - 2 * cos` at 0 Hz, and `2 + 2 * cos` at half the rate.
  have hsum : (eqBell c alpha A).b0 + (eqBell c alpha A).b2 = 2 * 2 ^ 27 ∧
      (eqBell c alpha A).a0 + (eqBell c alpha A).a2 = 2 * 2 ^ 27 ∧ (eqBell c alpha A).b1 = -2 * c ∧
      (eqBell c alpha A).a1 = -2 * c := by
    unfold eqBell BF_EQ_Q27
    exact ⟨by ring, by ring, rfl, rfl⟩
  have hc := h.cos
  generalize eqBell c alpha A = k at *
  generalize k.words = w at *
  constructor
  · refine leak_le (S := 2 * 2 ^ 27 - 2 * c) (e := ρ 2 + ρ 3) (f := ρ 0 + ρ 1) ha0 hb0 hscale (by omega) ?_ ?_ h4
      (by omega) (by omega) (by omega)
    · linear_combination h2 + h3 + 2 ^ 27 * hsum.1 + 2 ^ 27 * hsum.2.2.1
    · linear_combination h0 + h1 + 2 ^ 27 * hsum.2.1 + 2 ^ 27 * hsum.2.2.2
  · refine leak_le (S := 2 * 2 ^ 27 + 2 * c) (e := ρ 3 - ρ 2) (f := ρ 1 - ρ 0) ha0 hb0 hscale (by omega) ?_ ?_ h4
      (by omega) (by omega) (by omega)
    · linear_combination h3 - h2 + 2 ^ 27 * hsum.1 - 2 ^ 27 * hsum.2.2.1
    · linear_combination h1 - h0 + 2 ^ 27 * hsum.2.1 - 2 ^ 27 * hsum.2.2.2

/-- A bell that is on has the words of its coefficients. -/
theorem bfEqBandWords_bell {freq_hz q100 gain_x10 fs : ℤ} (h : BandAdmits freq_hz q100 gain_x10)
    (hgain : gain_x10 ≠ 0) :
    bfEqBandWords 1 freq_hz q100 gain_x10 fs = (eqBell (eqSincos (eqAngle freq_hz fs)).2
      (eqAlpha (eqAngle freq_hz fs) q100) (bfExp2 (gain_x10 * 0x11021E))).words := by
  have hq := h.q
  unfold bfEqBandWords
  rw [if_neg (by omega)]
  rfl

/-- A bell is flat at 0 Hz and at half the sample rate: with the words as values of 27 fractional bits,
numerator and denominator differ there by at most sixteen units. -/
theorem bell_flat {freq_hz q100 gain_x10 : ℤ} (h : BandAdmits freq_hz q100 gain_x10) (hgain : gain_x10 ≠ 0)
    {r : BfRate} (hr : r ∈ bfRates) :
    let v := fun i => (bfEqBandWords 1 freq_hz q100 gain_x10 r.rate i : ℚ) / 2 ^ 27
    |v 4 * (1 + v 2 + v 3) - (1 + v 0 + v 1)| ≤ 16 / 2 ^ 27 ∧
      |v 4 * (1 - v 2 + v 3) - (1 - v 0 + v 1)| ≤ 16 / 2 ^ 27 := by
  -- Sixteen units of the words are sixteen of their products, scaled twice.
  have hscale : ∀ x : ℤ, |x| ≤ 16 * 2 ^ 27 → |(x : ℚ) / (2 ^ 27) ^ 2| ≤ 16 / 2 ^ 27 := fun x hx => by
    have hcast : |(x : ℚ)| ≤ 16 * 2 ^ 27 := by exact_mod_cast hx
    rw [abs_div, abs_of_pos (by positivity : (0 : ℚ) < (2 ^ 27) ^ 2), div_le_iff₀ (by positivity)]
    linarith
  obtain ⟨hdc, hnyquist⟩ := eqBell_leak_le (h.terms (rate_ge hr))
  rw [← bfEqBandWords_bell h hgain] at hdc hnyquist
  generalize bfEqBandWords 1 freq_hz q100 gain_x10 r.rate = w at hdc hnyquist ⊢
  constructor
  · convert hscale _ hdc using 2
    push_cast
    ring
  · convert hscale _ hnyquist using 2
    push_cast
    ring

/-- A narrow bell at 1 kHz, up by 24 dB, at 48 kHz. -/
theorem bell_flat_narrow :
    let v := fun i => (bfEqBandWords 1 1000 1000 240 (48000 : ℕ) i : ℚ) / 2 ^ 27
    |v 4 * (1 + v 2 + v 3) - (1 + v 0 + v 1)| ≤ 16 / 2 ^ 27 ∧
      |v 4 * (1 - v 2 + v 3) - (1 - v 0 + v 1)| ≤ 16 / 2 ^ 27 :=
  bell_flat ⟨by decide, by decide, by decide⟩ (by decide) (r := ⟨48000, BF_ALT_1, 56, 8⟩) (by decide)

end BabyfacePro
