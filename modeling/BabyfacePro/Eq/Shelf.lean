import BabyfacePro.Eq.Near

/-!
# The sums of a shelf

A shelf's scale can get as large as the square of its amplitude, near half of the rate for a low shelf: the
divisor is small there, and every error of it counts for many. So the errors of the amplitude, the cosine and
the bandwidth are followed through the two sums of the scale, where they partly cancel.
-/

namespace BabyfacePro

/-! ## The sums -/

/-- The divisor of a shelf: at the cosine `C` of the denominator, at `-C` that of the numerator. -/
noncomputable def shelfSum (C S T : ℝ) : ℝ := (S ^ 2 + 1) + (S ^ 2 - 1) * C + T

/-- The terms that the sums of a shelf are put together from. -/
structure ShelfNear (A c p ab : ℤ) (C S T : ℝ) : Prop where
  amp : |(A : ℝ) - 2 ^ 27 * S ^ 2| ≤ 20 * S ^ 2
  cos : |(c : ℝ) - 2 ^ 27 * C| ≤ 42
  prod : |(p : ℝ) - (A - 2 ^ 27) * c / 2 ^ 27| ≤ 1 / 2
  band : |(ab : ℝ) - 2 ^ 27 * T| ≤ 214 * S + 12 * T + 1
  cos_mem : -1 ≤ C ∧ C ≤ 1
  root_mem : 1 / 2 ≤ S ∧ S ≤ 1.99527
  band_mem : 0 ≤ T ∧ T ≤ 2 * S

section Shelf

variable {A c p ab : ℤ} {C S T : ℝ}

/-- The numerator has the terms of the denominator at the opposite cosine. -/
theorem ShelfNear.neg (h : ShelfNear A c p ab C S T) : ShelfNear A (-c) (-p) ab (-C) S T := by
  obtain ⟨hamp, hcos, hprod, hband, hC, hS, hT⟩ := h
  refine ⟨hamp, ?_, ?_, hband, ⟨by linarith, by linarith⟩, hS, hT⟩
  · rw [← abs_neg] at hcos
    convert hcos using 2
    push_cast
    ring
  · rw [← abs_neg] at hprod
    convert hprod using 2
    push_cast
    ring

/-- How small the divisor can get. -/
theorem ShelfNear.sum_ge (h : ShelfNear A c p ab C S T) :
    1 / 2 ≤ shelfSum C S T ∧ S ≤ shelfSum C S T ∧ S ^ 2 ≤ 2 * shelfSum C S T ∧
      S ^ 2 * (1 + C) ≤ shelfSum C S T ∧ T ≤ shelfSum C S T := by
  obtain ⟨hC0, hC1⟩ := h.cos_mem
  obtain ⟨hS0, hS1⟩ := h.root_mem
  obtain ⟨hT0, -⟩ := h.band_mem
  obtain ⟨hsq0, hsq1⟩ := root_sq_mem h.root_mem
  have hsplit : shelfSum C S T = S ^ 2 * (1 + C) + (1 - C) + T := by
    unfold shelfSum
    ring
  have hsum : 0 ≤ S ^ 2 * (1 + C) := mul_nonneg (by linarith) (by linarith)
  have hroot : S ≤ 2 * S ^ 2 := by nlinarith
  rw [hsplit]
  -- The sum lies between twice the amplitude and two.
  obtain hle | hge := le_total (S ^ 2) 1
  · have hmix : S ^ 2 * (1 - C) ≤ 1 - C := mul_le_of_le_one_left (by linarith) hle
    exact ⟨by linarith, by linarith, by linarith, by linarith, by linarith⟩
  · have hmix : 1 + C ≤ S ^ 2 * (1 + C) := le_mul_of_one_le_left (by linarith) hge
    exact ⟨by linarith, by linarith, by linarith, by linarith, by linarith⟩

/-- What the product is off. -/
theorem ShelfNear.prod_off (h : ShelfNear A c p ab C S T) :
    |(p : ℝ) - 2 ^ 27 * ((S ^ 2 - 1) * C) - (S ^ 2 - 1) * (c - 2 ^ 27 * C) - C * (A - 2 ^ 27 * S ^ 2)| ≤ 0.51 := by
  obtain ⟨hsq0, hsq1⟩ := root_sq_mem h.root_mem
  have hsplit : (p : ℝ) - 2 ^ 27 * ((S ^ 2 - 1) * C) - (S ^ 2 - 1) * (c - 2 ^ 27 * C) -
      C * (A - 2 ^ 27 * S ^ 2) =
      (p - (A - 2 ^ 27) * c / 2 ^ 27) + (A - 2 ^ 27 * S ^ 2) * (c - 2 ^ 27 * C) / 2 ^ 27 := by
    ring
  have hmul : |(A - 2 ^ 27 * S ^ 2) * (c - 2 ^ 27 * C) / 2 ^ 27| ≤ 0.01 := by
    rw [abs_div, abs_mul, abs_of_pos (by positivity : (0 : ℝ) < 2 ^ 27), div_le_iff₀ (by positivity)]
    calc |(A : ℝ) - 2 ^ 27 * S ^ 2| * |(c : ℝ) - 2 ^ 27 * C| ≤ 20 * S ^ 2 * 42 :=
          mul_le_mul h.amp h.cos (abs_nonneg _) (by linarith)
      _ ≤ 0.01 * 2 ^ 27 := by linarith
  rw [hsplit]
  exact (abs_add_le _ _).trans ((add_le_add h.prod hmul).trans (by norm_num))

/-- What the amplitude and the cosine put a sum off. -/
theorem ShelfNear.abs_terms_le (h : ShelfNear A c p ab C S T) {m : ℝ} (hm : |m| ≤ S ^ 2 + 1) :
    |(1 + C) * (A - 2 ^ 27 * S ^ 2) + m * (c - 2 ^ 27 * C)| ≤ 20 * (S ^ 2 * (1 + C)) + 42 * (S ^ 2 + 1) := by
  have hC := h.cos_mem.1
  have hamp : |(1 + C) * (A - 2 ^ 27 * S ^ 2)| ≤ 20 * (S ^ 2 * (1 + C)) := by
    rw [abs_mul, abs_of_nonneg (by linarith : 0 ≤ 1 + C)]
    calc (1 + C) * |(A : ℝ) - 2 ^ 27 * S ^ 2| ≤ (1 + C) * (20 * S ^ 2) :=
          mul_le_mul_of_nonneg_left h.amp (by linarith)
      _ = 20 * (S ^ 2 * (1 + C)) := by ring
  have hcos : |m * (c - 2 ^ 27 * C)| ≤ 42 * (S ^ 2 + 1) := by
    rw [abs_mul]
    calc |m| * |(c : ℝ) - 2 ^ 27 * C| ≤ (S ^ 2 + 1) * 42 :=
          mul_le_mul hm h.cos (abs_nonneg _) (by positivity)
      _ = 42 * (S ^ 2 + 1) := by ring
  exact (abs_add_le _ _).trans (add_le_add hamp hcos)

/-- The divisor, and what is left of it without the bandwidth. -/
theorem ShelfNear.sum_near (h : ShelfNear A c p ab C S T) :
    |((A + 2 ^ 27 + p + ab : ℤ) : ℝ) - 2 ^ 27 * shelfSum C S T| ≤ 450 * shelfSum C S T ∧
      |((A + 2 ^ 27 + p - ab : ℤ) : ℝ) - 2 ^ 27 * (shelfSum C S T - 2 * T)| ≤ 450 * shelfSum C S T ∧
      |((-2 * (A - 2 ^ 27 + (p + 2 * c)) : ℤ) : ℝ) - 2 ^ 27 * (-2 * ((S ^ 2 - 1) + (S ^ 2 + 1) * C))| ≤
        380 * shelfSum C S T := by
  -- The errors of the amplitude, the product and the bandwidth add up, each against the sum itself.
  obtain ⟨hD, hDS, hDA, hDC, hDT⟩ := h.sum_ge
  have hS : 0 ≤ S ^ 2 := sq_nonneg S
  have hprod := h.prod_off
  have hband := h.band
  have hterms := h.abs_terms_le (m := S ^ 2 - 1) (by rw [abs_le]; constructor <;> linarith)
  have hterms' := h.abs_terms_le (m := S ^ 2 + 1) (abs_of_nonneg (by linarith)).le
  have hsum : shelfSum C S T = (S ^ 2 + 1) + (S ^ 2 - 1) * C + T := rfl
  generalize shelfSum C S T = D at *
  rw [abs_le] at hprod hband hterms hterms'
  simp only [abs_le]
  push_cast
  refine ⟨?_, ?_, ?_⟩
  · constructor <;> rw [hsum] <;> linarith
  · constructor <;> rw [hsum] <;> linarith
  · constructor <;> linarith

/-- The quotients of a shelf by its divisor. -/
theorem ShelfNear.quot_near (h : ShelfNear A c p ab C S T) :
    |((-2 * (A - 2 ^ 27 + (p + 2 * c)) : ℤ) : ℝ) - -2 * ((S ^ 2 - 1) + (S ^ 2 + 1) * C) / shelfSum C S T *
        (A + 2 ^ 27 + p + ab : ℤ)| ≤ 1300 * shelfSum C S T ∧
      |((A + 2 ^ 27 + p - ab : ℤ) : ℝ) - (shelfSum C S T - 2 * T) / shelfSum C S T *
        (A + 2 ^ 27 + p + ab : ℤ)| ≤ 1300 * shelfSum C S T := by
  obtain ⟨hden, hlast, hfirst⟩ := h.sum_near
  obtain ⟨hD, -, -, hDC, hDT⟩ := h.sum_ge
  obtain ⟨hC0, hC1⟩ := h.cos_mem
  have hS : 0 ≤ S ^ 2 := sq_nonneg S
  have hT := h.band_mem.1
  have hsum : shelfSum C S T = (S ^ 2 + 1) + (S ^ 2 - 1) * C + T := rfl
  have hmix : 0 ≤ S ^ 2 * (1 + C) := mul_nonneg hS (by linarith)
  generalize shelfSum C S T = D at *
  have hpos : 0 < D := by linarith
  -- The quotients themselves are bounded, so that the divisor's error counts a few times only.
  have hW0 : |-2 * ((S ^ 2 - 1) + (S ^ 2 + 1) * C) / D| ≤ 2 := by
    rw [abs_div, abs_of_pos hpos, div_le_iff₀ hpos, abs_le]
    constructor <;> linarith
  have hW1 : |(D - 2 * T) / D| ≤ 1 := by
    rw [abs_div, abs_of_pos hpos, div_le_iff₀ hpos, abs_le]
    constructor <;> linarith
  constructor
  · calc _ ≤ 380 * D + |-2 * ((S ^ 2 - 1) + (S ^ 2 + 1) * C) / D| * (450 * D) :=
          abs_sub_quot_le (div_mul_cancel₀ _ hpos.ne') hfirst hden
      _ ≤ 380 * D + 2 * (450 * D) := add_le_add_right (mul_le_mul_of_nonneg_right hW0 (by linarith)) _
      _ ≤ 1300 * D := by linarith
  · calc _ ≤ 450 * D + |(D - 2 * T) / D| * (450 * D) :=
          abs_sub_quot_le (div_mul_cancel₀ _ hpos.ne') hlast hden
      _ ≤ 450 * D + 1 * (450 * D) := add_le_add_right (mul_le_mul_of_nonneg_right hW1 (by linarith)) _
      _ ≤ 1300 * D := by linarith

/-- The amplitude times a sum. -/
theorem round27_amp_near {A n : ℤ} {a N D : ℝ} (hA : |(A : ℝ) - 2 ^ 27 * a| ≤ 20 * a) (ha : 1 / 4 ≤ a)
    (hN : |N| ≤ 2 * D) (hD : 1 / 2 ≤ D) (hn : |(n : ℝ) - 2 ^ 27 * N| ≤ 450 * D) :
    |(round27 (A * n) : ℝ) - 2 ^ 27 * (a * N)| ≤ 500 * (a * D) := by
  have hnear := round27_mul_near hA hn
  have hN' : |N| * (20 * a) ≤ 2 * D * (20 * a) := mul_le_mul_of_nonneg_right hN (by linarith)
  have hquarter : 1 / 4 * D ≤ a * D := mul_le_mul_of_nonneg_right ha (by linarith)
  rw [abs_of_nonneg (by linarith : 0 ≤ a)] at hnear
  refine hnear.trans ?_
  linarith

/-- Both sums of a quotient, times the amplitude: nothing but the rounding changes. -/
theorem round27_quot_near {A n d : ℤ} {a W D : ℝ} (hA : |(A : ℝ) - 2 ^ 27 * a| ≤ 20 * a) (ha : 1 / 4 ≤ a)
    (hW : |W| ≤ 2) (hD : 1 / 2 ≤ D) (h : |(n : ℝ) - W * d| ≤ 1300 * D) :
    |(round27 (A * n) : ℝ) - W * round27 (A * d)| ≤ 1400 * (a * D) := by
  have h0 := abs_round27_sub_le (A * n)
  have h1 := abs_round27_sub_le (A * d)
  -- The error of the sums, scaled by the amplitude, and the rounding of each.
  have hsplit : (round27 (A * n) : ℝ) - W * round27 (A * d) = A / 2 ^ 27 * (n - W * d) +
      ((round27 (A * n) - (A * n : ℤ) / 2 ^ 27) - W * (round27 (A * d) - (A * d : ℤ) / 2 ^ 27)) := by
    push_cast
    ring
  have hamp : |(A : ℝ) / 2 ^ 27| ≤ 1.01 * a := by
    rw [abs_le] at hA ⊢
    constructor <;> linarith
  have hmul : |(A : ℝ) / 2 ^ 27 * (n - W * d)| ≤ 1.01 * a * (1300 * D) := by
    rw [abs_mul]
    exact mul_le_mul hamp h (abs_nonneg _) (by linarith)
  have hrest : |W * (round27 (A * d) - (A * d : ℤ) / 2 ^ 27)| ≤ 2 * (1 / 2) := by
    rw [abs_mul]
    exact mul_le_mul hW h1 (abs_nonneg _) (by norm_num)
  have hquarter : 1 / 4 * D ≤ a * D := mul_le_mul_of_nonneg_right ha (by linarith)
  rw [hsplit]
  calc _ ≤ 1.01 * a * (1300 * D) + (1 / 2 + 2 * (1 / 2)) :=
        (abs_add_le _ _).trans (add_le_add hmul ((abs_sub _ _).trans (add_le_add h0 hrest)))
    _ ≤ 1400 * (a * D) := by linarith

/-- The scale of a low shelf: what each term puts it off. The terms are the same in both sums, so that the
errors of the amplitude and of the bandwidth cancel in part. -/
theorem ShelfNear.scale_terms (h : ShelfNear A c p ab C S T) {W y : ℝ} (hy : |(ab : ℝ) - 2 ^ 27 * T| ≤ y)
    (hW : W * shelfSum C S T = S ^ 2 * shelfSum (-C) S T) (hW0 : 0 ≤ W) :
    |(round27 (A * (A + 2 ^ 27 - p + ab)) : ℝ) - W * (A + 2 ^ 27 + p + ab : ℤ)| ≤
      20 * S ^ 2 * (S ^ 2 * (1 - C) + shelfSum (-C) S T) + (42 * |S ^ 2 - 1| + 0.51) * (S ^ 2 + W) +
        |S ^ 2 - W| * y + 1 := by
  obtain ⟨hD, -, -, hDC, -⟩ := h.sum_ge
  obtain ⟨hd, -⟩ := h.neg.sum_ge
  obtain ⟨hC0, hC1⟩ := h.cos_mem
  obtain ⟨hsq0, hsq1⟩ := root_sq_mem h.root_mem
  obtain ⟨hT0, hT1⟩ := h.band_mem
  have hS1 := h.root_mem.2
  have hamp := h.amp
  have hcos := h.cos
  have hprod := h.prod_off
  have hsum := h.neg.sum_near.1
  have hround := abs_round27_sub_le (A * (A + 2 ^ 27 - p + ab))
  have hsumD : shelfSum C S T = (S ^ 2 + 1) + (S ^ 2 - 1) * C + T := rfl
  have hsumd : shelfSum (-C) S T = (S ^ 2 + 1) + (S ^ 2 - 1) * -C + T := rfl
  -- The sum of the reflected cosine is bounded, which bounds the products of two errors.
  have hd' : shelfSum (-C) S T ≤ 14 := by
    rw [hsumd]
    nlinarith
  generalize shelfSum C S T = D at *
  generalize shelfSum (-C) S T = d at *
  -- The amplitude's error enters the divisor with a part of the weight that it has in the dividend.
  have hpart : W * (1 + C) ≤ d := by
    have hscaled : W * (1 + C) * D ≤ d * D := by
      calc W * (1 + C) * D = S ^ 2 * (1 + C) * d := by linear_combination (1 + C) * hW
        _ ≤ D * d := mul_le_mul_of_nonneg_right hDC (by linarith)
        _ = d * D := mul_comm _ _
    exact le_of_mul_le_mul_right hscaled (by linarith)
  have hpart0 : 0 ≤ W * (1 + C) := mul_nonneg hW0 (by linarith)
  have hplus : 0 ≤ S ^ 2 * (1 - C) := mul_nonneg (by linarith) (by linarith)
  -- The amplitude's own error.
  have h0 : |(S ^ 2 * (1 - C) + d - W * (1 + C)) * (A - 2 ^ 27 * S ^ 2)| ≤
      20 * S ^ 2 * (S ^ 2 * (1 - C) + d) := by
    rw [abs_mul, abs_of_nonneg (by linarith : 0 ≤ S ^ 2 * (1 - C) + d - W * (1 + C)), mul_comm]
    exact mul_le_mul hamp (by linarith) (by linarith) (by linarith)
  -- The cosine's.
  have h1 : |(S ^ 2 - 1) * (S ^ 2 + W) * (c - 2 ^ 27 * C)| ≤ 42 * |S ^ 2 - 1| * (S ^ 2 + W) := by
    rw [abs_mul, abs_mul, abs_of_nonneg (by linarith : 0 ≤ S ^ 2 + W)]
    calc |S ^ 2 - 1| * (S ^ 2 + W) * |(c : ℝ) - 2 ^ 27 * C| ≤ |S ^ 2 - 1| * (S ^ 2 + W) * 42 :=
          mul_le_mul_of_nonneg_left hcos (mul_nonneg (abs_nonneg _) (by linarith))
      _ = 42 * |S ^ 2 - 1| * (S ^ 2 + W) := by ring
  -- The bandwidth's.
  have h2 : |(S ^ 2 - W) * (ab - 2 ^ 27 * T)| ≤ |S ^ 2 - W| * y := by
    rw [abs_mul]
    exact mul_le_mul_of_nonneg_left hy (abs_nonneg _)
  -- The rounding of the product.
  have h3 : |(S ^ 2 + W) * (p - 2 ^ 27 * ((S ^ 2 - 1) * C) - (S ^ 2 - 1) * (c - 2 ^ 27 * C) -
      C * (A - 2 ^ 27 * S ^ 2))| ≤ (S ^ 2 + W) * 0.51 := by
    rw [abs_mul, abs_of_nonneg (by linarith : 0 ≤ S ^ 2 + W)]
    exact mul_le_mul_of_nonneg_left hprod (by linarith)
  -- What is left of second order, and the rounding of the whole.
  have h4 : |(A - 2 ^ 27 * S ^ 2) * ((A + 2 ^ 27 + -p + ab : ℤ) - 2 ^ 27 * d) / 2 ^ 27| ≤ 1 / 2 := by
    rw [abs_div, abs_mul, abs_of_pos (by positivity : (0 : ℝ) < 2 ^ 27), div_le_iff₀ (by positivity)]
    calc |(A : ℝ) - 2 ^ 27 * S ^ 2| * |((A + 2 ^ 27 + -p + ab : ℤ) : ℝ) - 2 ^ 27 * d| ≤
          20 * 3.9812 * (450 * 14) :=
          mul_le_mul (hamp.trans (by linarith)) (hsum.trans (by linarith)) (abs_nonneg _) (by norm_num)
      _ ≤ 1 / 2 * 2 ^ 27 := by norm_num
  have hsplit : (round27 (A * (A + 2 ^ 27 - p + ab)) : ℝ) - W * (A + 2 ^ 27 + p + ab : ℤ) =
      (S ^ 2 * (1 - C) + d - W * (1 + C)) * (A - 2 ^ 27 * S ^ 2) -
        (S ^ 2 - 1) * (S ^ 2 + W) * (c - 2 ^ 27 * C) + (S ^ 2 - W) * (ab - 2 ^ 27 * T) -
        (S ^ 2 + W) * (p - 2 ^ 27 * ((S ^ 2 - 1) * C) - (S ^ 2 - 1) * (c - 2 ^ 27 * C) -
          C * (A - 2 ^ 27 * S ^ 2)) +
        (A - 2 ^ 27 * S ^ 2) * ((A + 2 ^ 27 + -p + ab : ℤ) - 2 ^ 27 * d) / 2 ^ 27 +
        (round27 (A * (A + 2 ^ 27 - p + ab)) - (A * (A + 2 ^ 27 - p + ab) : ℤ) / 2 ^ 27) := by
    push_cast
    rw [hsumd]
    rw [hsumD, hsumd] at hW
    linear_combination (-2 ^ 27) * hW
  -- The error is the sum of these six.
  rw [hsplit]
  rw [abs_le] at h0 h1 h2 h3 h4 hround ⊢
  constructor <;> linarith

/-- The bound of `scale_terms` for a cut. -/
theorem ShelfNear.scale_le_cut (h : ShelfNear A c p ab C S T) {W : ℝ} (ha : S ^ 2 ≤ 1)
    (hW : W * shelfSum C S T = S ^ 2 * shelfSum (-C) S T) (hW0 : 0 ≤ W) :
    20 * S ^ 2 * (S ^ 2 * (1 - C) + shelfSum (-C) S T) + (42 * |S ^ 2 - 1| + 0.51) * (S ^ 2 + W) +
      |S ^ 2 - W| * (214 * S + 12 * T + 1) + 1 ≤ 2039 * shelfSum C S T := by
  obtain ⟨hD, -, hDA, -, -⟩ := h.sum_ge
  obtain ⟨hC0, hC1⟩ := h.cos_mem
  obtain ⟨hsq0, -⟩ := root_sq_mem h.root_mem
  obtain ⟨hT0, hT1⟩ := h.band_mem
  have hS : S ≤ 1 := by nlinarith [h.root_mem.1]
  -- With a cut both sums are of the same sign, and the reflected one is at most four.
  have hsumD : shelfSum C S T = S ^ 2 * (1 + C) + (1 - C) + T := by
    unfold shelfSum
    ring
  have hsumd : shelfSum (-C) S T = S ^ 2 * (1 - C) + (1 + C) + T := by
    unfold shelfSum
    ring
  have hminus : S ^ 2 * (1 - C) ≤ 1 - C := mul_le_of_le_one_left (by linarith) ha
  have hminus0 : 0 ≤ S ^ 2 * (1 - C) := mul_nonneg (by linarith) (by linarith)
  have htwice : 2 * S ^ 2 ≤ shelfSum C S T := by linarith
  have hd : shelfSum (-C) S T ≤ 4 := by linarith
  generalize shelfSum C S T = D at *
  generalize shelfSum (-C) S T = d at *
  have hWle : W ≤ 2 := by
    have hscaled : W * D ≤ 2 * D := by
      rw [hW]
      nlinarith
    exact le_of_mul_le_mul_right hscaled (by linarith)
  -- Each term of `scale_terms` is bounded by a constant, as the scale is at most two.
  have h0 : 20 * S ^ 2 * (S ^ 2 * (1 - C) + d) ≤ 20 * S ^ 2 * 6 :=
    mul_le_mul_of_nonneg_left (by linarith) (by linarith)
  have h1 : (42 * |S ^ 2 - 1| + 0.51) * (S ^ 2 + W) ≤ (42 * 0.75 + 0.51) * 3 := by
    have habs : |S ^ 2 - 1| ≤ 0.75 := abs_le.mpr ⟨by linarith, by linarith⟩
    exact mul_le_mul (by linarith) (by linarith) (by linarith) (by norm_num)
  have h2 : |S ^ 2 - W| * (214 * S + 12 * T + 1) ≤ 2 * 239 := by
    have habs : |S ^ 2 - W| ≤ 2 := abs_le.mpr ⟨by linarith, by linarith⟩
    exact mul_le_mul habs (by linarith) (by linarith [h.root_mem.1]) (by norm_num)
  linarith

section Boost

variable {a C T D W y M D0 κ : ℝ}

/-- A number, in units of the divisor. -/
theorem le_div_mul_of_le {x : ℝ} (hD0 : D0 ≤ D) (h2 : 2 ≤ D0) (hx : 0 ≤ x) : x ≤ x / D0 * D := by
  rw [div_mul_eq_mul_div, le_div_iff₀ (by linarith)]
  exact mul_le_mul_of_nonneg_left hD0 hx

/-- What the amplitude puts the scale off, in units of the divisor. -/
theorem boost_amp_le (hC : -1 ≤ C ∧ C ≤ 1) (ha : 1 ≤ a) (hM : a ≤ M) (hD0 : D0 ≤ D) (h2 : 2 ≤ D0) :
    20 * a * (a * (1 - C) + (D - 2 * ((a - 1) * C))) ≤ 20 * M * (1 + (4 * M - 2) / D0) * D := by
  have hlin : 0 ≤ (3 * a - 2) * (1 + C) := mul_nonneg (by linarith) (by linarith)
  have hsmall : a * (1 - C) + (D - 2 * ((a - 1) * C)) ≤ D + (4 * M - 2) := by linarith
  have hunit := le_div_mul_of_le hD0 h2 (x := 4 * M - 2) (by linarith)
  calc 20 * a * (a * (1 - C) + (D - 2 * ((a - 1) * C))) ≤ 20 * a * (D + (4 * M - 2)) :=
        mul_le_mul_of_nonneg_left hsmall (by linarith)
    _ ≤ 20 * M * (D + (4 * M - 2)) := mul_le_mul_of_nonneg_right (by linarith) (by linarith)
    _ ≤ 20 * M * (D + (4 * M - 2) / D0 * D) := mul_le_mul_of_nonneg_left (by linarith) (by linarith)
    _ = 20 * M * (1 + (4 * M - 2) / D0) * D := by ring

/-- What the cosine does. -/
theorem boost_cos_le (hC : -1 ≤ C ∧ C ≤ 1) (ha : 1 ≤ a) (hM : a ≤ M) (hD0 : D0 ≤ D) (h2 : 2 ≤ D0)
    (hW : W * D = a * (D - 2 * ((a - 1) * C))) : (42 * (a - 1) + 0.51) * (a + W) ≤
      (42 * (M - 1) + 0.51) * (2 * M * (1 + (M - 1) / D0)) / D0 * D := by
  -- The bound is taken at the largest amplitude and the smallest divisor.
  have hunit := le_div_mul_of_le hD0 h2 (x := M - 1) (by linarith)
  have hR : 0 ≤ 2 * M * (1 + (M - 1) / D0) :=
    mul_nonneg (by linarith) (add_nonneg zero_le_one (div_nonneg (by linarith) (by linarith)))
  have hsum : a + W ≤ 2 * M * (1 + (M - 1) / D0) := by
    have hcross : -((a - 1) * C) ≤ M - 1 := by nlinarith
    have hscaled : (a + W) * D ≤ 2 * M * (1 + (M - 1) / D0) * D := by
      calc (a + W) * D = 2 * a * (D + -((a - 1) * C)) := by linear_combination hW
        _ ≤ 2 * a * (D + (M - 1)) := mul_le_mul_of_nonneg_left (by linarith) (by linarith)
        _ ≤ 2 * M * (D + (M - 1)) := mul_le_mul_of_nonneg_right (by linarith) (by linarith)
        _ ≤ 2 * M * (D + (M - 1) / D0 * D) := mul_le_mul_of_nonneg_left (by linarith) (by linarith)
        _ = 2 * M * (1 + (M - 1) / D0) * D := by ring
    exact le_of_mul_le_mul_right hscaled (by linarith)
  calc (42 * (a - 1) + 0.51) * (a + W) ≤ (42 * (a - 1) + 0.51) * (2 * M * (1 + (M - 1) / D0)) :=
        mul_le_mul_of_nonneg_left hsum (by linarith)
    _ ≤ (42 * (M - 1) + 0.51) * (2 * M * (1 + (M - 1) / D0)) := mul_le_mul_of_nonneg_right (by linarith) hR
    _ ≤ _ := le_div_mul_of_le hD0 h2 (mul_nonneg (by linarith) hR)

/-- What the bandwidth does: its error has no more weight than the amplitude gives it. -/
theorem boost_band_le (hC : -1 ≤ C ∧ C ≤ 1) (ha : 1 ≤ a) (hM : a ≤ M) (hD0 : D0 ≤ D) (h2 : 2 ≤ D0) (hκ : 0 ≤ κ)
    (hy0 : 0 ≤ y) (hy : y ≤ κ + 20 * T) (hT : T ≤ D - 2) (hW : W * D = a * (D - 2 * ((a - 1) * C))) :
    |a - W| * y ≤ 2 * M * (M - 1) * (κ / D0 ^ 2 + 5 / 2) * D := by
  have hpos : 0 < D := by linarith
  -- What the scale differs from the amplitude by comes from the cosine alone.
  have hdiff : |a - W| * D ≤ 2 * M * (M - 1) := by
    have hcross : |2 * a * ((a - 1) * C)| ≤ 2 * M * (M - 1) := by
      have hmul : |(a - 1) * C| ≤ M - 1 := by
        rw [abs_mul, abs_of_nonneg (by linarith : 0 ≤ a - 1)]
        exact (mul_le_of_le_one_right (by linarith) (abs_le.mpr hC)).trans (by linarith)
      rw [abs_mul, abs_of_nonneg (by linarith : 0 ≤ 2 * a)]
      exact mul_le_mul (by linarith) hmul (abs_nonneg _) (by linarith)
    have hsplit : (a - W) * D = 2 * a * ((a - 1) * C) := by linear_combination -hW
    rw [← abs_of_pos hpos, ← abs_mul, hsplit]
    exact hcross
  -- The error of the bandwidth grows with the divisor, and has room in its square.
  have hwidth : κ + 20 * T ≤ (κ / D0 ^ 2 + 5 / 2) * D ^ 2 := by
    have hsq : κ ≤ κ / D0 ^ 2 * D ^ 2 := by
      rw [div_mul_eq_mul_div, le_div_iff₀ (by positivity)]
      exact mul_le_mul_of_nonneg_left (pow_le_pow_left₀ (by linarith) hD0 2) hκ
    nlinarith [sq_nonneg (D - 4)]
  have hscaled : |a - W| * y * D ≤ 2 * M * (M - 1) * (κ / D0 ^ 2 + 5 / 2) * D * D := by
    calc |a - W| * y * D = |a - W| * D * y := by ring
      _ ≤ 2 * M * (M - 1) * ((κ / D0 ^ 2 + 5 / 2) * D ^ 2) :=
          mul_le_mul hdiff (hy.trans hwidth) hy0 (mul_nonneg (by linarith) (by linarith))
      _ = _ := by ring
  exact le_of_mul_le_mul_right hscaled hpos

end Boost

/-- The bound of `scale_terms` for a boost of an amplitude of at most `M`, where the divisor is at least
`D0`. -/
theorem ShelfNear.scale_le_boost (h : ShelfNear A c p ab C S T) (D0 κ : ℝ) {W y M : ℝ} (ha : 1 ≤ S ^ 2)
    (hM : S ^ 2 ≤ M) (hD0 : D0 ≤ shelfSum C S T) (h2 : 2 ≤ D0) (hκ : 0 ≤ κ) (hy0 : 0 ≤ y) (hy : y ≤ κ + 20 * T)
    (hW : W * shelfSum C S T = S ^ 2 * shelfSum (-C) S T) :
    20 * S ^ 2 * (S ^ 2 * (1 - C) + shelfSum (-C) S T) + (42 * |S ^ 2 - 1| + 0.51) * (S ^ 2 + W) +
        |S ^ 2 - W| * y + 1 ≤
      (20 * M * (1 + (4 * M - 2) / D0) + (42 * (M - 1) + 0.51) * (2 * M * (1 + (M - 1) / D0)) / D0 +
        2 * M * (M - 1) * (κ / D0 ^ 2 + 5 / 2) + 1) * shelfSum C S T := by
  have hT0 := h.band_mem.1
  have hgain : 0 ≤ (S ^ 2 - 1) * (1 + C) := mul_nonneg (by linarith) (by linarith [h.cos_mem.1])
  -- The divisor of a boost is at least two.
  have hsumD : shelfSum C S T = 2 + (S ^ 2 - 1) * (1 + C) + T := by
    unfold shelfSum
    ring
  have hsumd : shelfSum (-C) S T = shelfSum C S T - 2 * ((S ^ 2 - 1) * C) := by
    unfold shelfSum
    ring
  have habs : |S ^ 2 - 1| = S ^ 2 - 1 := abs_of_nonneg (by linarith)
  rw [hsumd] at hW ⊢
  rw [habs, add_mul, add_mul, add_mul]
  -- The three terms, each against the divisor.
  have hamp := boost_amp_le h.cos_mem ha hM hD0 h2
  have hcos := boost_cos_le h.cos_mem ha hM hD0 h2 hW
  have hband := boost_band_le h.cos_mem ha hM hD0 h2 hκ hy0 hy (by linarith) hW
  linarith

/-- The scale of a low shelf is near, unless the band is narrow, the boost large and the frequency close to half
of the rate. Even there the band is not the narrowest: its bandwidth keeps the divisor from the
smallest. -/
theorem ShelfNear.scale_near (h : ShelfNear A c p ab C S T) {al : ℝ} (hT : T = 2 * S * al)
    (hwhere : 0 ≤ C ∨ al = 1 ∨ 0.147 - 0.41 * (1 + C) ≤ al ∧
      |(ab : ℝ) - 2 ^ 27 * T| ≤ 68 * S + 20 * T + 1) :
    |(round27 (A * (A + 2 ^ 27 - p + ab)) : ℝ) - S ^ 2 * shelfSum (-C) S T / shelfSum C S T *
      (A + 2 ^ 27 + p + ab : ℤ)| ≤ 2040 * shelfSum C S T := by
  obtain ⟨hD, -⟩ := h.sum_ge
  obtain ⟨hd, -⟩ := h.neg.sum_ge
  obtain ⟨hC0, hC1⟩ := h.cos_mem
  obtain ⟨hS0, hS1⟩ := h.root_mem
  obtain ⟨hsq0, hsq1⟩ := root_sq_mem h.root_mem
  have hT0 := h.band_mem.1
  have hpos : 0 < shelfSum C S T := by linarith
  have hW := div_mul_cancel₀ (S ^ 2 * shelfSum (-C) S T) hpos.ne'
  have hW0 : 0 ≤ S ^ 2 * shelfSum (-C) S T / shelfSum C S T :=
    div_nonneg (mul_nonneg (by linarith) (by linarith)) hpos.le
  have hbound : ∀ {K : ℝ}, K ≤ 2040 → K * shelfSum C S T ≤ 2040 * shelfSum C S T := fun hK =>
    mul_le_mul_of_nonneg_right hK hpos.le
  -- A cut is near whatever the band.
  obtain hcut | hboost := le_total (S ^ 2) 1
  · exact ((h.scale_terms h.band hW hW0).trans (h.scale_le_cut hcut hW hW0)).trans (hbound (by norm_num))
  have hsum : shelfSum C S T = 2 + (S ^ 2 - 1) * (1 + C) + T := by
    unfold shelfSum
    ring
  have hgain : 0 ≤ (S ^ 2 - 1) * (1 + C) := mul_nonneg (by linarith) (by linarith)
  have hy0 : 0 ≤ 214 * S + 12 * T + 1 := by linarith
  -- So is a boost of a moderate amplitude, with the smallest divisor there is.
  obtain hsmall | hlarge := le_total (S ^ 2) 2.8
  · have hroot : S ≤ 1.6734 := by nlinarith
    exact ((h.scale_terms h.band hW hW0).trans (h.scale_le_boost 2 360 hboost hsmall
      (by linarith) (by norm_num) (by norm_num) hy0 (by linarith) hW)).trans (hbound (by norm_num))
  have hroot : 1.67 ≤ S := by nlinarith
  -- A large boost needs a larger divisor.
  have hwide : 3.8 ≤ shelfSum C S T → |(round27 (A * (A + 2 ^ 27 - p + ab)) : ℝ) - S ^ 2 * shelfSum (-C) S T /
      shelfSum C S T * (A + 2 ^ 27 + p + ab : ℤ)| ≤ 2040 * shelfSum C S T := fun hge =>
    ((h.scale_terms h.band hW hW0).trans (h.scale_le_boost 3.8 428 hboost hsq1 hge
      (by norm_num) (by norm_num) hy0 (by linarith) hW)).trans (hbound (by norm_num))
  obtain hcos | hone | ⟨hband, hy⟩ := hwhere
  · exact hwide (by nlinarith)
  · exact hwide (by rw [hsum, hT, hone]; linarith)
  -- The band is narrow, but not so narrow that the divisor gets too small.
  · have hnarrow : 2.49 ≤ shelfSum C S T := by
      have hmul : 3.34 * al ≤ 2 * S * al := mul_le_mul_of_nonneg_right (by linarith) (by nlinarith)
      rw [hsum]
      nlinarith
    exact ((h.scale_terms hy hW hW0).trans (h.scale_le_boost 2.49 137 hboost hsq1 hnarrow
      (by norm_num) (by norm_num) (by linarith) (by linarith) hW)).trans (hbound (by norm_num))

end Shelf

end BabyfacePro
