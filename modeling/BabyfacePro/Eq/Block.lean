import BabyfacePro.Eq.Strip
import Mathlib.Data.Fintype.Basic
import Mathlib.Tactic.FinCases

/-!
# The EQ blocks, read back

What a block of 64 bytes says: its channel, named twice, and a payload of four parts. A block that the
driver built is read back as what it was built from, and a slope byte never comes with the low-cut word
for off.
-/

namespace BabyfacePro

/-! ## Words in bytes -/

/-- The 32-bit word at an offset of a block, the low byte first. -/
def le32At (b : List U8) (off : ℕ) : BitVec 32 :=
  .ofNat 32 ((b.getD off 0).toNat + 0x100 * (b.getD (off + 1) 0).toNat
    + 0x10000 * (b.getD (off + 2) 0).toNat + 0x1000000 * (b.getD (off + 3) 0).toNat)

/-- The four bytes of a word give the word back. -/
theorem le32At_of_bytes {b : List U8} {off : ℕ} {v : BitVec 32}
    (h : [b.getD off 0, b.getD (off + 1) 0, b.getD (off + 2) 0, b.getD (off + 3) 0] = le32 v) :
    le32At b off = v := by
  simp only [le32, List.cons.injEq, and_true] at h
  obtain ⟨h0, h1, h2, h3⟩ := h
  have hv : v.toNat < 2 ^ 32 := v.isLt
  unfold le32At
  rw [h0, h1, h2, h3]
  apply BitVec.eq_of_toNat_eq
  simp only [BitVec.toNat_ofNat, BitVec.toNat_setWidth, BitVec.toNat_ushiftRight, Nat.shiftRight_eq_div_pow]
  omega

/-! ## Blocks -/

/-- What a block says besides its channel. -/
structure EqPayload where
  slope : U8
  bands : Fin 3 → Fin 4 → BitVec 32
  shared : BitVec 32
  lc : BitVec 32

/-- The payload of a channel that passes its input on: the words of no band, the scale 1.0, no low
cut. -/
def EqPayload.identity : EqPayload := ⟨0, fun _ _ => 0, .ofInt 32 BF_EQ_Q27, BF_EQ_LC_OFF⟩

/-- The channel and the payload of a block: its header names the channel twice around the slope, and
marks the engine as active. -/
def decodeBlock (b : List U8) : Option (U8 × EqPayload) :=
  if b.length = 64 ∧ b.getD 2 0 = b.getD 0 0 ∧ b.getD 3 0 = 0x80 ∧ b.drop 60 = List.replicate 4 0 then
    some (b.getD 0 0,
      { slope := b.getD 1 0
        bands := fun slot k => le32At b (0x04 + slot * 0x10 + 4 * k)
        shared := le32At b 0x34
        lc := le32At b 0x38 })
  else none

/-- A block is read back as what it was built from. -/
theorem decodeBlock_build (ch slope : U8) (bands : Fin 3 → Fin 4 → ℤ) (shared : ℤ) (lc : BitVec 32) :
    decodeBlock (bfEqBuildBlock ch slope bands shared lc) =
      some (ch, ⟨slope, fun slot k => .ofInt 32 (bands slot k), .ofInt 32 shared, lc⟩) := by
  have hbands : ∀ (slot : Fin 3) (k : Fin 4),
      le32At (bfEqBuildBlock ch slope bands shared lc) (0x04 + slot * 0x10 + 4 * k) =
        .ofInt 32 (bands slot k) := by
    intro slot k
    apply le32At_of_bytes
    fin_cases slot <;> fin_cases k <;> rfl
  have hshared : le32At (bfEqBuildBlock ch slope bands shared lc) 0x34 = .ofInt 32 shared :=
    le32At_of_bytes rfl
  have hlc : le32At (bfEqBuildBlock ch slope bands shared lc) 0x38 = lc := le32At_of_bytes rfl
  unfold decodeBlock
  rw [if_pos ⟨rfl, rfl, rfl, rfl⟩, hshared, hlc]
  simp only [hbands]
  rfl

/-- The payload that a strip's two blocks carry. -/
def EqChannel.payload (e : EqChannel) : EqPayload where
  slope := if e.on && decide (e.lc_hz > 0) then e.slope else 0
  bands slot k := .ofInt 32 (if e.on then e.words slot k else 0)
  shared := .ofInt 32 (if e.on then e.shared else BF_EQ_Q27)
  lc := if e.on then e.lc_raw else BF_EQ_LC_OFF

/-- The blocks of a strip differ in the channel only. -/
theorem EqChannel.decodeBlock_block (e : EqChannel) (ch : U8) :
    decodeBlock (e.block ch) = some (ch, e.payload) := by
  unfold EqChannel.block EqChannel.payload
  rw [decodeBlock_build]
  cases e.on <;> rfl

/-! ## The low cut -/

/-- No low cut has the word for off: about 11670 Hz, where the two are closest, the word steps over it. -/
theorem bfEqLcFreqRaw_ne_off {freq_hz : ℤ} (hf : 0 < freq_hz) (slope_db : ℤ) :
    bfEqLcFreqRaw freq_hz slope_db ≠ BF_EQ_LC_OFF := by
  have hword : ∀ f : ℤ, 0 ≤ f →
      BitVec.ofInt 32 ((11508 * f * 11656 + (11656 + f).tdiv 2).tdiv (11656 + f)) ≠ BF_EQ_LC_OFF := by
    intro f h0
    have hhalf : (11656 + f).tdiv 2 = (11656 + f) / 2 := Int.tdiv_eq_ediv_of_nonneg (by omega)
    rw [hhalf, Int.tdiv_eq_ediv_of_nonneg (by omega)]
    generalize hq : (11508 * f * 11656 + (11656 + f) / 2) / (11656 + f) = q
    have hpos : 0 < 11656 + f := by omega
    have hlow : q * (11656 + f) ≤ 11508 * f * 11656 + (11656 + f) / 2 := by
      rw [← hq]
      exact Int.ediv_mul_le _ (by omega)
    have hhigh : 11508 * f * 11656 + (11656 + f) / 2 < (q + 1) * (11656 + f) := by
      rw [← hq]
      exact Int.lt_ediv_add_one_mul_self _ hpos
    have hle : q < 2 ^ 28 := by
      by_contra hge
      have hmul : 2 ^ 28 * (11656 + f) ≤ q * (11656 + f) :=
        Int.mul_le_mul_of_nonneg_right (by omega) (by omega)
      omega
    have hnonneg : 0 ≤ q := by
      rw [← hq]
      exact Int.ediv_nonneg (by omega) (by omega)
    intro hoff
    -- Both words are below 2^31, so the integers agree.
    have hint := congrArg BitVec.toInt hoff
    rw [BitVec.toInt_ofInt, Int.bmod_eq_of_le (by omega) (by omega)] at hint
    have hoffInt : BF_EQ_LC_OFF.toInt = 67108864 := by decide
    rw [hoffInt] at hint
    subst hint
    omega
  have hslope : ∀ k : ℤ, 0 ≤ k → 0 ≤ (freq_hz * k).tdiv 10000 := fun k hk =>
    Int.tdiv_nonneg (mul_nonneg hf.le hk) (by norm_num)
  unfold bfEqLcFreqRaw
  rw [if_neg (by omega)]
  dsimp only
  split_ifs
  · exact hword _ (hslope 15267 (by norm_num))
  · exact hword _ (hslope 8061 (by norm_num))
  · exact hword _ (hslope 6977 (by norm_num))
  · exact hword _ hf.le

end BabyfacePro
