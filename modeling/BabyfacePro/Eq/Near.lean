import BabyfacePro.Eq.Bell
import BabyfacePro.Eq.Rbj

/-!
# Words near the reference's

A word is a quotient of two sums. How far it is from the reference's quotient is decided by how far both
sums are off, in units, set against the size of the divisor. For a bell the divisor is at least one, and the
errors of its terms are enough.
-/

namespace BabyfacePro

/-- The words are within 2048 units of the values they stand for. -/
def WordsNear (w : Fin 5 → ℤ) (v : Fin 5 → ℝ) : Prop := ∀ i, |(w i : ℝ) - 2 ^ 27 * v i| ≤ 2048

/-! ## Products and quotients -/

/-- The rounding to 27 bits is off by at most a half. -/
theorem abs_round27_sub_le (x : ℤ) : |(round27 x : ℝ) - x / 2 ^ 27| ≤ 1 / 2 := by
  obtain ⟨hlo, hhi⟩ := round27_mem x
  have hlo' : (2 ^ 27 * round27 x : ℝ) ≤ x + 2 ^ 26 := by exact_mod_cast hlo
  have hhi' : (x + 2 ^ 26 : ℝ) ≤ 2 ^ 27 * round27 x + 2 ^ 27 := by exact_mod_cast hhi.le
  rw [abs_le]
  constructor <;> linarith

/-- The rounded product of two values. -/
theorem round27_mul_near {x y : ℤ} {X Y dx dy : ℝ} (hx : |(x : ℝ) - 2 ^ 27 * X| ≤ dx)
    (hy : |(y : ℝ) - 2 ^ 27 * Y| ≤ dy) :
    |(round27 (x * y) : ℝ) - 2 ^ 27 * (X * Y)| ≤ |X| * dy + |Y| * dx + dx * dy / 2 ^ 27 + 1 / 2 := by
  have hround := abs_round27_sub_le (x * y)
  -- The error of a product: each factor's error, their product and the rounding.
  have hsplit : (round27 (x * y) : ℝ) - 2 ^ 27 * (X * Y) = X * (y - 2 ^ 27 * Y) + Y * (x - 2 ^ 27 * X) +
      (x - 2 ^ 27 * X) * (y - 2 ^ 27 * Y) / 2 ^ 27 + (round27 (x * y) - (x * y : ℤ) / 2 ^ 27) := by
    push_cast
    ring
  have h0 : |X * (y - 2 ^ 27 * Y)| ≤ |X| * dy := by
    rw [abs_mul]
    exact mul_le_mul_of_nonneg_left hy (abs_nonneg X)
  have h1 : |Y * (x - 2 ^ 27 * X)| ≤ |Y| * dx := by
    rw [abs_mul]
    exact mul_le_mul_of_nonneg_left hx (abs_nonneg Y)
  have h2 : |(x - 2 ^ 27 * X) * (y - 2 ^ 27 * Y) / 2 ^ 27| ≤ dx * dy / 2 ^ 27 := by
    rw [abs_div, abs_mul, abs_of_pos (by positivity : (0 : ℝ) < 2 ^ 27)]
    exact div_le_div_of_nonneg_right (mul_le_mul hx hy (abs_nonneg _) ((abs_nonneg _).trans hx)) (by positivity)
  rw [hsplit]
  refine (abs_add_le _ _).trans (add_le_add ((abs_add_le _ _).trans (add_le_add ?_ h2)) hround)
  exact (abs_add_le _ _).trans (add_le_add h0 h1)

/-- A quotient `W` of exact sums, times a divisor that is off. -/
theorem abs_sub_quot_le {num den N D W x y : ℝ} (hW : W * D = N) (hnum : |num - 2 ^ 27 * N| ≤ x)
    (hden : |den - 2 ^ 27 * D| ≤ y) : |num - W * den| ≤ x + |W| * y := by
  have hsplit : num - W * den = (num - 2 ^ 27 * N) - W * (den - 2 ^ 27 * D) := by
    rw [← hW]
    ring
  have hmul : |W * (den - 2 ^ 27 * D)| ≤ |W| * y := by
    rw [abs_mul]
    exact mul_le_mul_of_nonneg_left hden (abs_nonneg W)
  rw [hsplit]
  exact (abs_sub _ _).trans (add_le_add hnum hmul)

/-- The word of a quotient is as close to the exact quotient as the sums are in the units of the divisor, but
for its rounding. -/
theorem WordQuot.word_near {num den w : ℤ} {W D : ℝ} (h : WordQuot num den)
    (hw : w = toInt32 ((num * BF_EQ_Q27 + den.tdiv 2).tdiv den)) (hden : |(den : ℝ) - 2 ^ 27 * D| ≤ 2000 * D)
    (hnum : |(num : ℝ) - W * den| ≤ 2040 * D) : |(w : ℝ) - 2 ^ 27 * W| ≤ 2048 := by
  have hpos : (0 : ℝ) < den := by exact_mod_cast h.pos.1
  obtain ⟨hlo, hhi⟩ := h.mul_word_mem hw
  have hlo' : (-den : ℝ) ≤ 2 * (den * w - num * 2 ^ 27) := by exact_mod_cast hlo.le
  have hhi' : (2 * (den * w - num * 2 ^ 27) : ℝ) ≤ 3 * den := by exact_mod_cast hhi.le
  have hD : 2 ^ 27 * D ≤ 1.0001 * den := by
    rw [abs_le] at hden
    linarith
  rw [abs_le] at hnum
  have hmul : |(den : ℝ) * (w - 2 ^ 27 * W)| ≤ (den : ℝ) * 2048 := by
    rw [abs_le]
    constructor <;> linarith
  rw [abs_mul, abs_of_pos hpos] at hmul
  exact le_of_mul_le_mul_left hmul hpos

/-- How far the coefficients of a biquad may be off for its words to be near the reference's. -/
structure Biquad.Near (k : Biquad) (r : Rbj) : Prop where
  a0 : |(k.a0 : ℝ) - 2 ^ 27 * r.a0| ≤ 2000 * r.a0
  b0 : |(k.b0 : ℝ) - 2 ^ 27 * r.b0| ≤ 2000 * r.b0
  a1 : |(k.a1 : ℝ) - r.a1 / r.a0 * k.a0| ≤ 2040 * r.a0
  a2 : |(k.a2 : ℝ) - r.a2 / r.a0 * k.a0| ≤ 2040 * r.a0
  b1 : |(k.b1 : ℝ) - r.b1 / r.b0 * k.b0| ≤ 2040 * r.b0
  b2 : |(k.b2 : ℝ) - r.b2 / r.b0 * k.b0| ≤ 2040 * r.b0
  scale : |(k.b0 : ℝ) - r.b0 / r.a0 * k.a0| ≤ 2040 * r.a0

/-- Coefficients that are near have words that are near. -/
theorem Biquad.Near.words {k : Biquad} {r : Rbj} (h : k.Near r) (hin : k.InRange) :
    WordsNear k.words r.words := by
  intro i
  fin_cases i
  · exact hin.a1.word_near rfl h.a0 h.a1
  · exact hin.a2.word_near rfl h.a0 h.a2
  · exact hin.b1.word_near rfl h.b0 h.b1
  · exact hin.b2.word_near rfl h.b0 h.b2
  · exact hin.scale.word_near rfl h.a0 h.scale

/-! ## The terms of a band -/

/-- A band's terms, and the exact ones. -/
structure NearTerms (c alpha A sq : ℤ) (C al S : ℝ) : Prop where
  cos : |(c : ℝ) - 2 ^ 27 * C| ≤ 42
  alpha : |(alpha : ℝ) - 2 ^ 27 * al| ≤ 107
  amp : |(A : ℝ) - 2 ^ 27 * S ^ 2| ≤ 20 * S ^ 2
  root : |(sq : ℝ) - 2 ^ 27 * S| ≤ 12 * S
  cos_mem : -1 ≤ C ∧ C ≤ 1
  alpha_mem : 0 ≤ al ∧ al ≤ 1
  root_mem : 1 / 2 ≤ S ∧ S ≤ 1.99527

/-- The amplitude is between a quarter and four. -/
theorem root_sq_mem {S : ℝ} (h : 1 / 2 ≤ S ∧ S ≤ 1.99527) : 1 / 4 ≤ S ^ 2 ∧ S ^ 2 ≤ 3.9812 := by
  constructor <;> nlinarith [h.1, h.2]

/-! ## A bell -/

section Bell

variable {c alpha A sq : ℤ} {C al S : ℝ}

/-- The bandwidth times the amplitude. -/
theorem NearTerms.mul_amp (h : NearTerms c alpha A sq C al S) :
    |(round27 (alpha * A) : ℝ) - 2 ^ 27 * (al * S ^ 2)| ≤ 511 := by
  obtain ⟨hS0, hS1⟩ := root_sq_mem h.root_mem
  have hnear := round27_mul_near h.alpha h.amp
  rw [abs_of_nonneg h.alpha_mem.1, abs_of_nonneg (by linarith : 0 ≤ S ^ 2)] at hnear
  have hal : al * (20 * S ^ 2) ≤ 1 * (20 * S ^ 2) := mul_le_mul_of_nonneg_right h.alpha_mem.2 (by linarith)
  refine hnear.trans ?_
  linarith

/-- The bandwidth over the amplitude. -/
theorem NearTerms.div_amp (h : NearTerms c alpha A sq C al S) (hA : 0 < A) :
    |((alpha * BF_EQ_Q27 + A.tdiv 2).tdiv A : ℝ) - 2 ^ 27 * (al / S ^ 2)| ≤ 134 / S ^ 2 := by
  obtain ⟨hS0, hS1⟩ := root_sq_mem h.root_mem
  have hhalf := half_mem hA
  have hmod := Int.mul_tdiv_add_tmod (alpha * 2 ^ 27 + A.tdiv 2) A
  have hlt := Int.tmod_lt_of_pos (alpha * 2 ^ 27 + A.tdiv 2) hA
  have hgt := Int.lt_tmod_of_pos (alpha * 2 ^ 27 + A.tdiv 2) hA
  unfold BF_EQ_Q27
  generalize (alpha * 2 ^ 27 + A.tdiv 2).tdiv A = x at hmod ⊢
  have hlo : (2 * (A * x - alpha * 2 ^ 27) : ℝ) ≤ 3 * A := by
    exact_mod_cast (by omega : 2 * (A * x - alpha * 2 ^ 27) ≤ 3 * A)
  have hhi : (-(3 * A) : ℝ) ≤ 2 * (A * x - alpha * 2 ^ 27) := by
    exact_mod_cast (by omega : -(3 * A) ≤ 2 * (A * x - alpha * 2 ^ 27))
  have hpos : (0 : ℝ) < A := by exact_mod_cast hA
  obtain ⟨-, halpha, hamp, -, -, ⟨hal0, hal1⟩, -⟩ := h
  -- The exact quotient, times the exact divisor.
  obtain ⟨X, hX⟩ : ∃ X : ℝ, X * S ^ 2 = al := ⟨al / S ^ 2, div_mul_cancel₀ _ (by linarith)⟩
  have hdiv : al / S ^ 2 = X := by rw [← hX, mul_div_cancel_right₀ _ (by linarith)]
  have hX0 : 0 ≤ X := nonneg_of_mul_nonneg_left (by rwa [hX]) (by linarith)
  have hmul : |X * (A - 2 ^ 27 * S ^ 2)| ≤ 20 := by
    rw [abs_mul, abs_of_nonneg hX0]
    calc X * |(A : ℝ) - 2 ^ 27 * S ^ 2| ≤ X * (20 * S ^ 2) := mul_le_mul_of_nonneg_left hamp hX0
      _ = 20 * al := by rw [← hX]; ring
      _ ≤ 20 := by linarith
  have hprod : X * (2 ^ 27 * S ^ 2) = 2 ^ 27 * al := by
    rw [← hX]
    ring
  rw [abs_le] at halpha hamp hmul
  have habs : |(A : ℝ) * (x - 2 ^ 27 * X)| ≤ (A : ℝ) * (134 / S ^ 2) := by
    have hlower : 2 ^ 27 * (133.9 : ℝ) ≤ A * (134 / S ^ 2) := by
      rw [← mul_div_assoc, le_div_iff₀ (by linarith)]
      linarith
    rw [abs_le]
    constructor <;> linarith
  rw [hdiv]
  rw [abs_mul, abs_of_pos hpos] at habs
  exact le_of_mul_le_mul_left habs hpos

/-- Half the divisors of a bell: the sum of one and a term, over their difference. -/
theorem bell_quot_near {c x : ℤ} {C X y : ℝ} (hc : |(c : ℝ) - 2 ^ 27 * C| ≤ 42) (hC : -1 ≤ C ∧ C ≤ 1)
    (hx : |(x : ℝ) - 2 ^ 27 * X| ≤ y) (hX : 0 ≤ X) (hy : y ≤ 536) :
    |((2 ^ 27 + x : ℤ) : ℝ) - 2 ^ 27 * (1 + X)| ≤ 2000 * (1 + X) ∧
      |((-2 * c : ℤ) : ℝ) - -2 * C / (1 + X) * (2 ^ 27 + x : ℤ)| ≤ 2040 * (1 + X) ∧
      |((2 ^ 27 - x : ℤ) : ℝ) - (1 - X) / (1 + X) * (2 ^ 27 + x : ℤ)| ≤ 2040 * (1 + X) := by
  have hpos : 0 < 1 + X := by linarith
  have hden : |((2 ^ 27 + x : ℤ) : ℝ) - 2 ^ 27 * (1 + X)| ≤ y := by
    convert hx using 2
    push_cast
    ring
  have hfirst : |((-2 * c : ℤ) : ℝ) - 2 ^ 27 * (-2 * C)| ≤ 84 := by
    rw [abs_le] at hc ⊢
    push_cast
    constructor <;> linarith
  have hlast : |((2 ^ 27 - x : ℤ) : ℝ) - 2 ^ 27 * (1 - X)| ≤ y := by
    rw [abs_le] at hx ⊢
    push_cast
    constructor <;> linarith
  -- Both quotients are at most two, so the divisor's error counts twice at most.
  have hW0 : |-2 * C / (1 + X)| ≤ 2 := by
    rw [abs_div, abs_of_pos hpos, div_le_iff₀ hpos, abs_le]
    constructor <;> linarith
  have hW1 : |(1 - X) / (1 + X)| ≤ 1 := by
    rw [abs_div, abs_of_pos hpos, div_le_iff₀ hpos, abs_le]
    constructor <;> linarith
  have hy0 : 0 ≤ y := (abs_nonneg _).trans hx
  refine ⟨hden.trans (by linarith), ?_, ?_⟩
  · calc |((-2 * c : ℤ) : ℝ) - -2 * C / (1 + X) * (2 ^ 27 + x : ℤ)| ≤ 84 + |-2 * C / (1 + X)| * y :=
          abs_sub_quot_le (div_mul_cancel₀ _ hpos.ne') hfirst hden
      _ ≤ 84 + 2 * y := add_le_add_right (mul_le_mul_of_nonneg_right hW0 hy0) _
      _ ≤ 2040 * (1 + X) := by linarith
  · calc |((2 ^ 27 - x : ℤ) : ℝ) - (1 - X) / (1 + X) * (2 ^ 27 + x : ℤ)| ≤ y + |(1 - X) / (1 + X)| * y :=
          abs_sub_quot_le (div_mul_cancel₀ _ hpos.ne') hlast hden
      _ ≤ y + 1 * y := add_le_add_right (mul_le_mul_of_nonneg_right hW1 hy0) _
      _ ≤ 2040 * (1 + X) := by linarith

/-- A bell's scale is at most the amplitude. -/
theorem bell_scale_near {x y : ℤ} {X Y a : ℝ} (hx : |(x : ℝ) - 2 ^ 27 * X| ≤ 134 / a)
    (hy : |(y : ℝ) - 2 ^ 27 * Y| ≤ 511) (hX : 0 ≤ X) (hY : 0 ≤ Y ∧ Y ≤ a) (ha : 1 / 4 ≤ a) :
    |((2 ^ 27 + y : ℤ) : ℝ) - (1 + Y) / (1 + X) * (2 ^ 27 + x : ℤ)| ≤ 2040 * (1 + X) := by
  have hpos : 0 < 1 + X := by linarith
  have hnum : |((2 ^ 27 + y : ℤ) : ℝ) - 2 ^ 27 * (1 + Y)| ≤ 511 := by
    convert hy using 2
    push_cast
    ring
  have hden : |((2 ^ 27 + x : ℤ) : ℝ) - 2 ^ 27 * (1 + X)| ≤ 134 / a := by
    convert hx using 2
    push_cast
    ring
  -- The scale is at most one more than the amplitude, which the divisor's error is divided by.
  have hW : |(1 + Y) / (1 + X)| ≤ 1 + a := by
    rw [abs_of_nonneg (div_nonneg (by linarith) hpos.le), div_le_iff₀ hpos]
    nlinarith
  have hinv : (1 + a) * (134 / a) = 134 / a + 134 := by
    field_simp
  have hquarter : 134 / a ≤ 536 := by
    rw [div_le_iff₀ (by linarith)]
    linarith
  calc |((2 ^ 27 + y : ℤ) : ℝ) - (1 + Y) / (1 + X) * (2 ^ 27 + x : ℤ)|
      ≤ 511 + |(1 + Y) / (1 + X)| * (134 / a) := abs_sub_quot_le (div_mul_cancel₀ _ hpos.ne') hnum hden
    _ ≤ 511 + (1 + a) * (134 / a) := add_le_add_right (mul_le_mul_of_nonneg_right hW (by positivity)) _
    _ ≤ 2040 * (1 + X) := by linarith

/-- The words of a bell are near the reference's. -/
theorem eqBell_near (h : NearTerms c alpha A sq C al S) (hA : 0 < A) :
    (eqBell c alpha A).Near (rbjPeaking C al (S ^ 2)) := by
  obtain ⟨hS0, hS1⟩ := root_sq_mem h.root_mem
  obtain ⟨hal0, hal1⟩ := h.alpha_mem
  have hpos : 0 < S ^ 2 := by linarith
  have hquarter : 134 / S ^ 2 ≤ 536 := by
    rw [div_le_iff₀ hpos]
    linarith
  have hmul0 : 0 ≤ al * S ^ 2 := by positivity
  have hmul1 : al * S ^ 2 ≤ S ^ 2 := mul_le_of_le_one_left hpos.le hal1
  have hdiv0 : 0 ≤ al / S ^ 2 := by positivity
  obtain ⟨ha0, ha1, ha2⟩ := bell_quot_near h.cos h.cos_mem (h.div_amp hA) hdiv0 hquarter
  obtain ⟨hb0, hb1, hb2⟩ := bell_quot_near h.cos h.cos_mem h.mul_amp hmul0 (by norm_num)
  have hscale := bell_scale_near (h.div_amp hA) h.mul_amp hdiv0 ⟨hmul0, hmul1⟩ hS0
  exact ⟨ha0, hb0, ha1, ha2, hb1, hb2, hscale⟩

end Bell

end BabyfacePro
