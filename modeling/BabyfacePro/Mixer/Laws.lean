import BabyfacePro.Regs
import Mathlib.Algebra.Order.Group.MinMax
import Mathlib.Data.List.Range
import Mathlib.Tactic.NormNum

/-!
# Gain laws

The values of the master, gain and crosspoint registers, computed from the steps and decibels that
the controls count in. Divisions of `int` truncate, as in C.
-/

namespace BabyfacePro

/-- `bf_twelfth`: `2^(n/12)`, with `0x1000` for one. -/
def bfTwelfth : Fin 12 → BitVec 32 :=
  ![0x1000, 0x10f4, 0x11f6, 0x1307, 0x1429, 0x155c, 0x16a1, 0x17f9, 0x1966, 0x1ae9, 0x1c82, 0x1e34]

/-- `bf_master_16bit`: twice a level in dB to the 16-bit master, rounded. -/
def bfMaster16bit (half_db : ℤ) : U16 :=
  let k := half_db.tdiv 12
  let n := half_db.tmod 12
  let kn := if n < 0 then (k - 1, n + 12) else (k, n)
  let v := bfTwelfth (Fin.ofNat 12 kn.2.toNat) <<< 1
  let v := if 0 ≤ kn.1 then v <<< kn.1.toNat
    else (v + 1#32 <<< (-kn.1 - 1).toNat) >>> (-kn.1).toNat
  .ofNat 16 (max 1 (min v.toNat 0x4000))

/-- `bf_master_reg8`: a master control step to the 8-bit register. -/
def bfMasterReg8 (step : U16) : U8 :=
  if step = 0 then BF_MASTER_MUTE
  else .ofInt 8 (max BF_MASTER_8_MIN (min (step.toNat - BF_MASTER_STEP_0DB + BF_MASTER_8_0DB) 0xff))

/-- `bf_master_reg16`: a master control step to the 16-bit register. -/
def bfMasterReg16 (step : U16) : U16 :=
  if step = 0 then 0 else bfMaster16bit (step.toNat - BF_MASTER_STEP_0DB)

/-- `bf_out_reg8`: the 8-bit master to put on the wire. -/
def bfOutReg8 (muted dim : Bool) (step : U16) : U8 :=
  if muted then BF_MASTER_MUTE
  else if dim then BF_MASTER_MINUS20_8
  else bfMasterReg8 step

/-- `bf_out_reg16`: the 16-bit master to put on the wire. -/
def bfOutReg16 (muted dim : Bool) (step : U16) : U16 :=
  if muted then 0
  else if dim then BF_MASTER_MINUS20_16
  else bfMasterReg16 step

/-- A muted output is step 0 to `bf_apply_masters`. -/
theorem bfMasterReg8_muted (muted : Bool) (step : U16) :
    bfMasterReg8 (if muted then 0 else step) = bfOutReg8 muted false step := by
  cases muted <;> simp [bfOutReg8, bfMasterReg8]

/-- The 16-bit word of a muted master is that of step 0. -/
theorem bfMasterReg16_muted (muted : Bool) (step : U16) :
    bfMasterReg16 (if muted then 0 else step) = bfOutReg16 muted false step := by
  cases muted <;> simp [bfOutReg16, bfMasterReg16]

/-- `bf_gain_max_db`. -/
def bfGainMaxDb (mic : Mic) : ℤ := if mic.val < 2 then BF_GAIN_MAX_DB else 9

/-- `bf_gain_raw`: an input gain in dB to its register, packed for the microphones. -/
def bfGainRaw (mic : Mic) (db : ℤ) : U8 :=
  if mic.val ≥ 2 then .ofInt 8 (db * 2)
  else
    let coarse := min (db.tdiv 3) BF_GAIN_COARSE_MAX
    let fine := db - 3 * coarse
    .ofInt 8 (fine <<< BF_GAIN_FINE_SHIFT) ||| .ofInt 8 coarse

/-! ## The crosspoint fader's curve -/

/-- A point of a piecewise linear curve: twice a level in dB, and the register's value there. -/
structure CurvePoint where
  db2 : ℤ
  raw : ℤ

/-- `BF_FADER_DB2_INF`. -/
def BF_FADER_DB2_INF : ℤ := -130

/-- `bf_fader_curve`. -/
def bfFaderCurve : List CurvePoint :=
  [⟨-124, 0x0003⟩, ⟨-122, 0x0004⟩, ⟨-120, 0x0005⟩, ⟨-118, 0x0006⟩, ⟨-116, 0x0007⟩,
    ⟨-114, 0x0008⟩, ⟨-112, 0x0009⟩, ⟨-110, 0x000a⟩, ⟨-108, 0x000b⟩, ⟨-106, 0x000d⟩,
    ⟨-104, 0x000e⟩, ⟨-102, 0x0010⟩, ⟨-100, 0x0012⟩, ⟨-98, 0x0014⟩, ⟨-96, 0x0017⟩,
    ⟨-94, 0x0019⟩, ⟨-92, 0x001d⟩, ⟨-90, 0x0020⟩, ⟨-88, 0x0024⟩, ⟨-86, 0x0029⟩,
    ⟨-84, 0x002e⟩, ⟨-82, 0x0033⟩, ⟨-80, 0x003a⟩, ⟨-78, 0x0041⟩, ⟨-76, 0x0049⟩,
    ⟨-74, 0x0051⟩, ⟨-72, 0x005b⟩, ⟨-70, 0x0067⟩, ⟨-68, 0x0073⟩, ⟨-66, 0x0081⟩,
    ⟨-64, 0x0091⟩, ⟨-62, 0x00a3⟩, ⟨-60, 0x00b7⟩, ⟨-58, 0x00cd⟩, ⟨-56, 0x00e6⟩,
    ⟨-54, 0x0102⟩, ⟨-52, 0x0122⟩, ⟨-50, 0x0145⟩, ⟨-48, 0x016d⟩, ⟨-46, 0x019a⟩,
    ⟨-44, 0x01cc⟩, ⟨-42, 0x0204⟩, ⟨-40, 0x0243⟩, ⟨-38, 0x028a⟩, ⟨-36, 0x02d9⟩,
    ⟨-34, 0x0332⟩, ⟨-32, 0x0396⟩, ⟨-30, 0x0406⟩, ⟨-28, 0x0483⟩, ⟨-26, 0x0510⟩,
    ⟨-24, 0x05af⟩, ⟨-22, 0x0660⟩, ⟨-20, 0x0727⟩, ⟨-18, 0x0807⟩, ⟨-16, 0x0902⟩,
    ⟨-14, 0x0a1b⟩, ⟨-12, 0x0b57⟩, ⟨-10, 0x0cb9⟩, ⟨-8, 0x0e47⟩, ⟨-6, 0x1004⟩,
    ⟨-4, 0x11f9⟩, ⟨-2, 0x142a⟩, ⟨0, 0x16a0⟩, ⟨2, 0x1963⟩, ⟨4, 0x1c7c⟩, ⟨6, 0x1ff6⟩,
    ⟨8, 0x23dc⟩, ⟨10, 0x283d⟩, ⟨12, 0x2d41⟩]

/-- The rounded interpolation between two points of a curve, from `x` on the scale of `x0..x1` to the
scale of `y0..y1`. -/
def interpolate (x x0 x1 y0 y1 : ℤ) : ℤ :=
  let num := (x - x0) * (y1 - y0)
  let den := x1 - x0
  y0 + (num + den.tdiv 2).tdiv den

/-- The loop of `bf_fader_raw_to_db2` over the segments of the curve. -/
def faderRawToDb2 (raw : ℤ) : List CurvePoint → ℤ
  | p :: p' :: ps =>
    if raw ≤ p'.raw then interpolate raw p.raw p'.raw p.db2 p'.db2 else faderRawToDb2 raw (p' :: ps)
  | [p] => p.db2
  | [] => 0

/-- `bf_fader_raw_to_db2`. -/
def bfFaderRawToDb2 (raw : U16) : ℤ :=
  if raw = 0 ∨ raw.toNat < 0x0003 then BF_FADER_DB2_INF else faderRawToDb2 raw.toNat bfFaderCurve

/-- The loop of `bf_fader_db2_to_raw` over the segments of the curve. -/
def faderDb2ToRaw (db2 : ℤ) : List CurvePoint → ℤ
  | p :: p' :: ps =>
    if db2 ≤ p'.db2 then interpolate db2 p.db2 p'.db2 p.raw p'.raw else faderDb2ToRaw db2 (p' :: ps)
  | [p] => p.raw
  | [] => 0

/-- `bf_fader_db2_to_raw`. -/
def bfFaderDb2ToRaw (db2 : ℤ) : U16 :=
  if db2 ≤ -124 then if db2 < -124 then 0 else 0x0003
  else .ofInt 16 (faderDb2ToRaw db2 bfFaderCurve)

end BabyfacePro
