import BabyfacePro.Eq.Shelf

/-!
# How exact a band's words are

The words of every bell and of every low shelf are within 2048 units of the reference's, on the whole range
of the controls and at every sample rate. A high shelf's first coefficient has the wrong sign.
-/

namespace BabyfacePro

open Real (pi cos)

/-! ## The words of a shelf -/

section ShelfWords

variable {c alpha A sq : ℤ} {C al S : ℝ}

/-- The bandwidth of a shelf, when that of the band is off by `δ`. -/
theorem NearTerms.band_near (h : NearTerms c alpha A sq C al S) {δ : ℝ} (hδ : |(alpha : ℝ) - 2 ^ 27 * al| ≤ δ)
    (hle : δ ≤ 107) :
    |(round27 (2 * sq * alpha) : ℝ) - 2 ^ 27 * (2 * S * al)| ≤ 2 * S * δ + 12 * (2 * S * al) + 1 := by
  obtain ⟨hS0, hS1⟩ := h.root_mem
  have hroot : |((2 * sq : ℤ) : ℝ) - 2 ^ 27 * (2 * S)| ≤ 24 * S := by
    have hroot := h.root
    rw [abs_le] at hroot ⊢
    push_cast
    constructor <;> linarith
  have hnear := round27_mul_near hroot hδ
  have hδ0 : 0 ≤ δ := (abs_nonneg _).trans hδ
  have hprod : S * δ ≤ 1.99527 * 107 := mul_le_mul hS1 hle hδ0 (by norm_num)
  rw [abs_of_nonneg (by linarith : 0 ≤ 2 * S), abs_of_nonneg h.alpha_mem.1] at hnear
  refine hnear.trans ?_
  linarith

/-- The terms of a band as those of a shelf. -/
theorem NearTerms.shelf (h : NearTerms c alpha A sq C al S) :
    ShelfNear A c (round27 ((A - 2 ^ 27) * c)) (round27 (2 * sq * alpha)) C S (2 * S * al) := by
  obtain ⟨hS0, hS1⟩ := h.root_mem
  obtain ⟨hal0, hal1⟩ := h.alpha_mem
  refine ⟨h.amp, h.cos, ?_, ?_, h.cos_mem, h.root_mem, by positivity, ?_⟩
  · have hround := abs_round27_sub_le ((A - 2 ^ 27) * c)
    rwa [Int.cast_mul, Int.cast_sub, Int.cast_pow, Int.cast_ofNat] at hround
  · refine (h.band_near h.alpha le_rfl).trans (le_of_eq ?_)
    ring
  · exact mul_le_of_le_one_right (by linarith) hal1

/-- The sums of a shelf's numerator carry the amplitude. -/
theorem ShelfNear.amp_near {p ab : ℤ} {T : ℝ} (h : ShelfNear A c p ab C S T) :
    |(round27 (A * (A + 2 ^ 27 + p + ab)) : ℝ) - 2 ^ 27 * (S ^ 2 * shelfSum C S T)| ≤
        500 * (S ^ 2 * shelfSum C S T) ∧
      |(round27 (A * (2 * (A - 2 ^ 27 + (p + 2 * c)))) : ℝ) -
        2 * ((S ^ 2 - 1) + (S ^ 2 + 1) * C) / shelfSum C S T * round27 (A * (A + 2 ^ 27 + p + ab))| ≤
        1400 * (S ^ 2 * shelfSum C S T) ∧
      |(round27 (A * (A + 2 ^ 27 + p - ab)) : ℝ) -
        (shelfSum C S T - 2 * T) / shelfSum C S T * round27 (A * (A + 2 ^ 27 + p + ab))| ≤
        1400 * (S ^ 2 * shelfSum C S T) := by
  obtain ⟨hD, -, -, hDC, hDT⟩ := h.sum_ge
  obtain ⟨hsq0, -⟩ := root_sq_mem h.root_mem
  obtain ⟨hC0, hC1⟩ := h.cos_mem
  have hT := h.band_mem.1
  obtain ⟨hfirst, hlast⟩ := h.quot_near
  have hsum : shelfSum C S T = (S ^ 2 + 1) + (S ^ 2 - 1) * C + T := rfl
  have hmix : 0 ≤ S ^ 2 * (1 + C) := mul_nonneg (by linarith) (by linarith)
  have hpos : 0 < shelfSum C S T := by linarith
  -- The sums of the numerator have the other sign of those of the quotient.
  have hfirst' : |((2 * (A - 2 ^ 27 + (p + 2 * c)) : ℤ) : ℝ) - 2 * ((S ^ 2 - 1) + (S ^ 2 + 1) * C) /
      shelfSum C S T * (A + 2 ^ 27 + p + ab : ℤ)| ≤ 1300 * shelfSum C S T := by
    rw [← abs_neg]
    convert hfirst using 2
    push_cast
    ring
  refine ⟨round27_amp_near h.amp hsq0 ?_ hD h.sum_near.1, round27_quot_near h.amp hsq0 ?_ hD hfirst',
    round27_quot_near h.amp hsq0 ?_ hD hlast⟩
  · rw [abs_of_pos hpos]
    linarith
  · rw [abs_div, abs_of_pos hpos, div_le_iff₀ hpos, abs_le]
    constructor <;> linarith
  · rw [abs_div, abs_of_pos hpos, div_le_iff₀ hpos, abs_le]
    constructor <;> linarith

/-- A low shelf's coefficients, as sums of its terms. -/
theorem eqShelf_low (c alpha A sq : ℤ) : eqShelf true c alpha A sq =
    let p := round27 ((A - 2 ^ 27) * c)
    let ab := round27 (2 * sq * alpha)
    { b0 := round27 (A * (A + 2 ^ 27 + -p + ab))
      b1 := round27 (A * (2 * (A - 2 ^ 27 + (-p + 2 * -c))))
      b2 := round27 (A * (A + 2 ^ 27 + -p - ab))
      a0 := A + 2 ^ 27 + p + ab
      a1 := -2 * (A - 2 ^ 27 + (p + 2 * c))
      a2 := A + 2 ^ 27 + p - ab } := by
  unfold eqShelf BF_EQ_Q27
  dsimp only
  rw [round27_shelf, if_pos rfl]
  congr 2
  ring

/-- The reference's, too. -/
theorem rbjLowShelf_eq (C al : ℝ) {S : ℝ} (hS : 0 ≤ S) : rbjLowShelf C al (S ^ 2) =
    let T := 2 * S * al
    { b0 := S ^ 2 * shelfSum (-C) S T
      b1 := S ^ 2 * (2 * ((S ^ 2 - 1) + (S ^ 2 + 1) * -C))
      b2 := S ^ 2 * (shelfSum (-C) S T - 2 * T)
      a0 := shelfSum C S T
      a1 := -2 * ((S ^ 2 - 1) + (S ^ 2 + 1) * C)
      a2 := shelfSum C S T - 2 * T } := by
  unfold rbjLowShelf shelfSum
  rw [Real.sqrt_sq hS]
  congr 1 <;> ring

/-- The words of a low shelf are near the reference's. -/
theorem eqShelf_near (h : NearTerms c alpha A sq C al S)
    (hwhere : 0 ≤ C ∨ al = 1 ∨ 0.147 - 0.41 * (1 + C) ≤ al ∧
      |(alpha : ℝ) - 2 ^ 27 * al| ≤ 34 + 7.3 * al) :
    (eqShelf true c alpha A sq).Near (rbjLowShelf C al (S ^ 2)) := by
  obtain ⟨hS0, hS1⟩ := h.root_mem
  obtain ⟨hal0, hal1⟩ := h.alpha_mem
  -- The shelf's terms are near the reference's, and so is the scale of its first sum.
  have hshelf := h.shelf
  have hscale := hshelf.scale_near rfl (hwhere.imp_right (Or.imp_right fun ⟨hge, hδ⟩ =>
    ⟨hge, (h.band_near hδ (by linarith)).trans (by nlinarith)⟩))
  rw [eqShelf_low, rbjLowShelf_eq C al (by linarith : 0 ≤ S)]
  dsimp only
  generalize 2 * S * al = T at *
  generalize round27 (2 * sq * alpha) = ab at *
  generalize round27 ((A - 2 ^ 27) * c) = p at *
  obtain ⟨hD, -⟩ := hshelf.sum_ge
  obtain ⟨hd, -⟩ := hshelf.neg.sum_ge
  obtain ⟨hsq0, -⟩ := root_sq_mem h.root_mem
  obtain ⟨hden, -⟩ := hshelf.sum_near
  obtain ⟨hfirst, hlast⟩ := hshelf.quot_near
  obtain ⟨hamp, hbfirst, hblast⟩ := hshelf.neg.amp_near
  have hsq : S ^ 2 ≠ 0 := by linarith
  have hb : 0 ≤ S ^ 2 * shelfSum (-C) S T := mul_nonneg (by linarith) (by linarith)
  rw [sub_eq_add_neg (A + 2 ^ 27) p] at hscale
  -- The two sums, the two quotients by the divisor, the two of the numerator and the scale.
  constructor
  · exact hden.trans (by linarith)
  · exact hamp.trans (by linarith)
  · exact hfirst.trans (by linarith)
  · exact hlast.trans (by linarith)
  · rw [mul_div_mul_left _ _ hsq]
    exact hbfirst.trans (by linarith)
  · rw [mul_div_mul_left _ _ hsq]
    exact hblast.trans (by linarith)
  · exact hscale

/-- The first word of a high shelf is near the reference's with the wrong sign. -/
theorem eqShelf_high_first (h : NearTerms c alpha A sq C al S) (hin : (eqShelf false c alpha A sq).InRange) :
    |((eqShelf false c alpha A sq).words 0 : ℝ) + 2 ^ 27 * (rbjHighShelf C al (S ^ 2)).words 0| ≤ 2048 := by
  have hS : 0 ≤ S := by linarith [h.root_mem.1]
  -- A high shelf has the sums of a low shelf at the negated cosine, but for the sign of `a1`.
  have hshelf := h.shelf.neg
  have hD := hshelf.sum_ge.1
  have ha0 : (eqShelf false c alpha A sq).a0 =
      A + 2 ^ 27 + -round27 ((A - 2 ^ 27) * c) + round27 (2 * sq * alpha) := by
    unfold eqShelf BF_EQ_Q27
    dsimp only
    rw [if_neg (by decide)]
    ring
  have ha1 : (eqShelf false c alpha A sq).a1 =
      -2 * (A - 2 ^ 27 + (-round27 ((A - 2 ^ 27) * c) + 2 * -c)) := by
    unfold eqShelf BF_EQ_Q27
    dsimp only
    rw [round27_shelf, if_neg (by decide)]
    ring
  -- The reference's first word has the sign that the code's has not.
  have href : (rbjHighShelf C al (S ^ 2)).words 0 =
      -(-2 * ((S ^ 2 - 1) + (S ^ 2 + 1) * -C) / shelfSum (-C) S (2 * S * al)) := by
    have ha0 : (rbjHighShelf C al (S ^ 2)).a0 = shelfSum (-C) S (2 * S * al) := by
      unfold rbjHighShelf shelfSum
      rw [Real.sqrt_sq hS]
      ring
    have ha1 : (rbjHighShelf C al (S ^ 2)).a1 = 2 * ((S ^ 2 - 1) + (S ^ 2 + 1) * -C) := by
      unfold rbjHighShelf
      ring
    show (rbjHighShelf C al (S ^ 2)).a1 / (rbjHighShelf C al (S ^ 2)).a0 = _
    rw [ha0, ha1]
    ring
  rw [href, mul_neg, ← sub_eq_add_neg]
  refine hin.a1.word_near rfl (D := shelfSum (-C) S (2 * S * al)) ?_ ?_
  · rw [ha0]
    exact hshelf.sum_near.1.trans (by linarith)
  · rw [ha0, ha1]
    exact hshelf.quot_near.1.trans (by linarith)

end ShelfWords

/-! ## Every band -/

section Band

variable {type freq_hz q100 gain_x10 fs : ℤ}

/-- The terms of an admitted band are near the exact ones. -/
theorem BandAdmits.near (h : BandAdmits freq_hz q100 gain_x10) (hfs : 32000 ≤ fs) :
    NearTerms (eqSincos (eqAngle freq_hz fs)).2 (eqAlpha (eqAngle freq_hz fs) q100)
      (bfExp2 (gain_x10 * 0x11021E)) (bfExp2 (gain_x10 * 0x8810F)) (cos (rbjAngle freq_hz fs))
      (rbjAlpha (rbjAngle freq_hz fs) (q100 / 100)) (rbjRoot (gain_x10 / 10)) := by
  obtain ⟨hamp, hroot⟩ := bfExp2_near h.gain
  have hq : (5 : ℝ) ≤ q100 := by exact_mod_cast h.q.1
  have hwide : (365 / q100 : ℝ) ≤ 73 := by
    rw [div_le_iff₀ (by linarith)]
    linarith
  have hangle : 0 ≤ rbjAngle freq_hz fs := by
    have hf : (0 : ℝ) ≤ freq_hz := by exact_mod_cast h.freq.1
    have hpos : (0 : ℝ) < fs := by exact_mod_cast (by omega : 0 < fs)
    unfold rbjAngle
    positivity
  exact ⟨eqCos_near h.freq hfs, (eqAlpha_near h.freq hfs (by linarith [h.q.1])).trans (by linarith), hamp, hroot,
    ⟨Real.neg_one_le_cos _, Real.cos_le_one _⟩, rbjAlpha_mem hangle (by positivity), rbjRoot_mem h.gain⟩

/-- Above a quarter of the rate the bandwidth is as wide as it gets, or is computed the better the narrower it
is. -/
theorem BandAdmits.near_where (h : BandAdmits freq_hz q100 gain_x10) (hfs : 32000 ≤ fs) :
    0 ≤ cos (rbjAngle freq_hz fs) ∨ rbjAlpha (rbjAngle freq_hz fs) (q100 / 100) = 1 ∨
      0.147 - 0.41 * (1 + cos (rbjAngle freq_hz fs)) ≤ rbjAlpha (rbjAngle freq_hz fs) (q100 / 100) ∧
        |(eqAlpha (eqAngle freq_hz fs) q100 : ℝ) - 2 ^ 27 * rbjAlpha (rbjAngle freq_hz fs) (q100 / 100)| ≤
          34 + 7.3 * rbjAlpha (rbjAngle freq_hz fs) (q100 / 100) := by
  have hq0 : (5 : ℝ) ≤ q100 := by exact_mod_cast h.q.1
  have hq1 : (q100 : ℝ) ≤ 1000 := by exact_mod_cast h.q.2
  have hf0 : (0 : ℝ) ≤ freq_hz := by exact_mod_cast h.freq.1
  have hf1 : (freq_hz : ℝ) ≤ 20000 := by exact_mod_cast h.freq.2
  have hrate : (32000 : ℝ) ≤ fs := by exact_mod_cast hfs
  have hpi := Real.pi_pos
  have hnear := eqAlpha_near h.freq hfs (show 0 < q100 by linarith [h.q.1])
  have hangle : 0 ≤ rbjAngle freq_hz fs ∧ rbjAngle freq_hz fs ≤ pi + pi / 4 := by
    unfold rbjAngle
    refine ⟨by positivity, ?_⟩
    rw [div_le_iff₀ (by linarith)]
    nlinarith
  generalize rbjAngle freq_hz fs = w at hnear hangle ⊢
  -- Below a quarter of the rate the cosine is not negative.
  obtain hcos | hneg := le_or_gt 0 (cos w)
  · exact .inl hcos
  have hhalf : pi / 2 ≤ w := by
    by_contra hlt
    have hpos := Real.cos_pos_of_mem_Ioo (x := w) ⟨by linarith, by linarith⟩
    linarith
  -- A wide band is as wide as it gets, a narrow one is computed the better.
  obtain hwide | hnarrow := le_total (q100 : ℝ) 50
  · exact .inr (.inl (rbjAlpha_wide hhalf ⟨by linarith, by linarith⟩))
  · have hge := rbjAlpha_ge_inv hhalf (Q := q100 / 100) (by linarith)
    have hinv : (365 / q100 : ℝ) = 7.3 * (1 / (2 * (q100 / 100))) := by
      field_simp
      norm_num
    exact .inr (.inr ⟨rbjAlpha_ge ⟨hhalf, hangle.2⟩ ⟨by linarith, by linarith⟩, hnear.trans (by linarith)⟩)

/-- The words of an active band that is no high shelf are near the reference's. -/
theorem bfEqBandWords_near (ht : type = 1 ∨ type = 2) (h : BandAdmits freq_hz q100 gain_x10) (hg : gain_x10 ≠ 0)
    (hfs : 32000 ≤ fs) :
    WordsNear (bfEqBandWords type freq_hz q100 gain_x10 fs) (rbjWords type freq_hz q100 gain_x10 fs) := by
  have hq := h.q
  have hterms := h.terms hfs
  have hnear := h.near hfs
  unfold bfEqBandWords rbjWords
  rw [if_neg (by omega)]
  dsimp only
  rw [← rbjRoot_sq]
  obtain rfl | rfl := ht
  · exact (eqBell_near hnear (by linarith [hterms.amp.1])).words (eqBell64_eq hterms).2
  · exact (eqShelf_near hnear (h.near_where hfs)).words (eqShelf_inRange true hterms)

/-- The first word of an active high shelf has the wrong sign. -/
theorem bfEqBandWords_high_first (h : BandAdmits freq_hz q100 gain_x10) (hg : gain_x10 ≠ 0) (hfs : 32000 ≤ fs) :
    |(bfEqBandWords 3 freq_hz q100 gain_x10 fs 0 : ℝ) + 2 ^ 27 * rbjWords 3 freq_hz q100 gain_x10 fs 0| ≤
      2048 := by
  have hq := h.q
  have hterms := h.terms hfs
  unfold bfEqBandWords rbjWords
  rw [if_neg (by omega)]
  rw [← rbjRoot_sq]
  exact eqShelf_high_first (h.near hfs) (eqShelf_inRange false hterms)

/-- A bell's and a low shelf's words are all within 2048 units of the reference's. A high shelf's first word is
within them of the reference's with the opposite sign, so that it is right only where it is next to
zero. -/
theorem band_words_near (ht : 1 ≤ type ∧ type ≤ 3) (h : BandAdmits freq_hz q100 gain_x10) (hg : gain_x10 ≠ 0)
    {r : BfRate} (hr : r ∈ bfRates) :
    let w := bfEqBandWords type freq_hz q100 gain_x10 r.rate
    let v := rbjWords type freq_hz q100 gain_x10 r.rate
    (type ≠ 3 → WordsNear w v) ∧ (WordsNear w v → type ≠ 3 ∨ |2 ^ 27 * v 0| ≤ 2048) := by
  constructor
  · intro hne
    exact bfEqBandWords_near (by omega) h hg (rate_ge hr)
  · intro hnear
    obtain rfl | hne := eq_or_ne type 3
    · right
      have hright := hnear 0
      have hwrong := bfEqBandWords_high_first h hg (rate_ge hr)
      rw [abs_le] at hright hwrong ⊢
      constructor <;> linarith
    · exact .inl hne

end Band

/-- A narrow low shelf close to half of 32 kHz, up by 24 dB: the divisor is next to its smallest. -/
theorem band_words_near_narrow :
    let w := bfEqBandWords 2 15650 1000 240 (32000 : ℕ)
    let v := rbjWords 2 15650 1000 240 (32000 : ℕ)
    ((2 : ℤ) ≠ 3 → WordsNear w v) ∧ (WordsNear w v → (2 : ℤ) ≠ 3 ∨ |2 ^ 27 * v 0| ≤ 2048) :=
  band_words_near (by decide) ⟨by decide, by decide, by decide⟩ (by decide) (r := ⟨32000, BF_ALT_1, 56, 8⟩)
    (by decide)

/-- A high shelf at a quarter of the rate is not near the reference: its first word is negative where the
reference's is positive. -/
theorem high_shelf_not_near : ¬ ∀ type freq_hz q100 gain_x10 : ℤ, 1 ≤ type ∧ type ≤ 3 →
    BandAdmits freq_hz q100 gain_x10 → gain_x10 ≠ 0 → ∀ r ∈ bfRates,
      WordsNear (bfEqBandWords type freq_hz q100 gain_x10 r.rate) (rbjWords type freq_hz q100 gain_x10 r.rate) := by
  intro hall
  have hnear := hall 3 8000 50 240 (by decide) ⟨by decide, by decide, by decide⟩ (by decide)
    ⟨32000, BF_ALT_1, 56, 8⟩ (by decide) 0
  -- The word of the code is evaluated, that of the reference only has its sign taken.
  have hword : bfEqBandWords 3 8000 50 240 (32000 : ℕ) 0 ≤ -3000 := by decide +kernel
  have hword' : (bfEqBandWords 3 8000 50 240 (32000 : ℕ) 0 : ℝ) ≤ -3000 := by exact_mod_cast hword
  have hangle : rbjAngle (8000 : ℤ) ((32000 : ℕ) : ℤ) = pi / 2 := by
    unfold rbjAngle
    push_cast
    ring
  have hvalue : 0 ≤ rbjWords 3 8000 50 240 (32000 : ℕ) 0 := by
    have hA : (1 : ℝ) ≤ 10 ^ (((240 : ℤ) : ℝ) / 10 / 40) := Real.one_le_rpow (by norm_num) (by norm_num)
    have halpha := (rbjAlpha_mem (w := pi / 2) (Q := (50 : ℤ) / 100) (by positivity) (by norm_num)).1
    unfold rbjWords
    rw [hangle, if_neg (by decide), if_neg (by decide)]
    rw [Real.cos_pi_div_two]
    generalize (10 : ℝ) ^ (((240 : ℤ) : ℝ) / 10 / 40) = A at hA ⊢
    generalize rbjAlpha (pi / 2) ((50 : ℤ) / 100) = al at halpha ⊢
    show 0 ≤ 2 * ((A - 1) - (A + 1) * 0) / ((A + 1) - (A - 1) * 0 + 2 * √A * al)
    have hroot := Real.sqrt_nonneg A
    refine div_nonneg (by linarith) (add_nonneg (by linarith) ?_)
    positivity
  rw [abs_le] at hnear
  linarith [hnear.1]

end BabyfacePro
