import BabyfacePro.Eq.Words
import BabyfacePro.Mixer.Put

/-!
# The EQ strips

A strip's parameters are cached together with the words computed from them. Each of its two channels
takes one 64-byte block on the bulk endpoint. A put caches the parameter, computes the words, and
uploads both blocks; it does not put the parameter back when an upload fails.
-/

namespace BabyfacePro

open Bus.M (get modify throw each writeBack settle)

/-- `put_unaligned_le32`. -/
def le32 (v : BitVec 32) : List U8 :=
  [v.setWidth 8, (v >>> 8).setWidth 8, (v >>> 16).setWidth 8, (v >>> 24).setWidth 8]

/-- `bf_eq_build_block`: a header, the bands' words, the shared scale, and the low-cut word, in a
block of 64 bytes that is otherwise zero. -/
def bfEqBuildBlock (ch slope : U8) (bands : Fin 3 → Fin 4 → ℤ) (shared : ℤ) (lc : BitVec 32) :
    List U8 :=
  [ch, slope, ch, 0x80]
    ++ (List.finRange 3).flatMap (fun slot =>
      (List.finRange 4).flatMap fun k => le32 (.ofInt 32 (bands slot k)))
    ++ le32 (.ofInt 32 shared) ++ le32 lc ++ List.replicate 4 0

/-- `bf_eq_upload`. -/
def bfEqUpload (block : List U8) : Usb Unit := Bus.M.send .usb (.bulk block)

/-- The block that `bf_eq_write_strip` uploads for channel `ch`. A strip that is off is the identity,
and the slope is sent only while the low cut is engaged. -/
def EqChannel.block (e : EqChannel) (ch : U8) : List U8 :=
  bfEqBuildBlock ch (if e.on && decide (e.lc_hz > 0) then e.slope else 0)
    (if e.on then e.words else fun _ _ => 0) (if e.on then e.shared else BF_EQ_Q27)
    (if e.on then e.lc_raw else BF_EQ_LC_OFF)

/-- The channel number of a strip's left or right block. -/
def eqCh (strip : Mic) (side : Side) : U8 := .ofNat 8 (strip * 2 + side)

/-- `bf_eq_write_strip`. -/
def bfEqWriteStrip (strip : Mic) : Usb Unit := do
  let chip ← get
  each (List.finRange 2) fun ch => bfEqUpload ((chip.eq strip).block (eqCh strip ch))

/-- The two blocks of a strip. -/
def eqRegs (strip : Mic) (e : EqChannel) : List (Reg × Datum) :=
  (List.finRange 2).map fun ch => (.eq (eqCh strip ch), .block (e.block (eqCh strip ch)))

/-- A channel's upload is one block. -/
theorem bfEqUpload_writes (ch : U8) (e : EqChannel) :
    Writes (bfEqUpload (e.block ch)) fun _ => [(.eq ch, .block (e.block ch))] :=
  Bus.Sends.send _

/-- A strip's upload is both its blocks. -/
theorem bfEqWriteStrip_writes (strip : Mic) :
    Writes (bfEqWriteStrip strip) fun c => eqRegs strip (c.eq strip) := by
  refine Writes.get fun c => ⟨_, Bus.Sends.each _ fun ch _ => bfEqUpload_writes _ _, ?_⟩
  simp only [eqRegs, List.map_eq_flatMap]
  rfl

/-- The words, the shared scale and the low cut of a strip, computed from its parameters at the
sample rate `fs`. The scale is that of the last band with a type and a gain. -/
def EqChannel.recompute (e : EqChannel) (fs : ℤ) : EqChannel :=
  let w := fun band =>
    bfEqBandWords (e.band_type band) (e.band_freq band) (e.band_q band) (e.band_gain band) fs
  { e with
    words := fun band i => w band i.castSucc
    shared := (List.finRange 3).foldl (fun last_c4 band =>
      if e.band_type band ≠ 0 ∧ e.band_gain band ≠ 0 then w band 4 else last_c4) BF_EQ_Q27
    lc_raw := bfEqLcFreqRaw e.lc_hz e.slope_db
    slope := bfEqLcSlopeByte e.slope_db }

/-- The sample rate that the words are computed for. -/
def Chip.eqFs (c : Chip) : ℤ := if c.rate ≠ 0 then c.rate else 48000

/-- The change of the cache that `bf_eq_update_strip` makes. -/
def recomputeStrip (strip : Mic) (c : Chip) : Chip :=
  { c with eq := Function.update c.eq strip ((c.eq strip).recompute c.eqFs) }

/-- `bf_eq_update_strip`. -/
def bfEqUpdateStrip (strip : Mic) : Usb Unit := do
  modify (recomputeStrip strip)
  bfEqWriteStrip strip

/-- `bf_eq_reupload`: a strip whose upload fails does not keep the others from theirs. -/
def bfEqReupload : Usb Unit :=
  each (List.finRange 4) fun strip => do
    let _ ← Bus.M.attempt (bfEqUpdateStrip strip)

/-! ## The controls -/

/-- A parameter as `bf_eq_put` compares and stores it. -/
def EqChannel.param (e : EqChannel) : EqParam → ℤ
  | .enable => if e.on then 1 else 0
  | .type band => e.band_type band
  | .freq band => e.band_freq band
  | .q band => e.band_q band
  | .gain band => e.band_gain band
  | .lcFreq => e.lc_hz
  | .lcSlope => e.slope_db

/-- A new value of a parameter. -/
def EqChannel.setParam (e : EqChannel) (p : EqParam) (nv : ℤ) : EqChannel :=
  match p with
  | .enable => { e with on := nv ≠ 0 }
  | .type band => { e with band_type := Function.update e.band_type band nv }
  | .freq band => { e with band_freq := Function.update e.band_freq band nv }
  | .q band => { e with band_q := Function.update e.band_q band nv }
  | .gain band => { e with band_gain := Function.update e.band_gain band nv }
  | .lcFreq => { e with lc_hz := nv }
  | .lcSlope => { e with slope_db := nv }

/-- Whether a parameter is an enumeration. -/
def EqParam.isEnum : EqParam → Bool
  | .type _ | .lcSlope => true
  | _ => false

/-- The least value of a parameter's control. -/
def EqParam.min : EqParam → ℤ
  | .q _ => 5
  | .gain _ => -240
  | _ => 0

/-- The greatest value of a parameter's control. -/
def EqParam.max : EqParam → ℤ
  | .enable => 1
  | .type _ | .lcSlope => 3
  | .freq _ | .lcFreq => 20000
  | .q _ => 1000
  | .gain _ => 240

/-- What a parameter stores for a value of its control: the slope's items are decibels. -/
def EqParam.stored (p : EqParam) (nv : ℤ) : ℤ :=
  match p with
  | .lcSlope => if nv = 0 then 6 else if nv = 1 then 12 else if nv = 2 then 18 else 24
  | _ => nv

/-- What a control reports of the stored value: the slope's decibels are items. -/
def EqParam.shown (p : EqParam) (v : ℤ) : ℤ :=
  match p with
  | .lcSlope => if v ≥ 24 then 3 else if v ≥ 18 then 2 else if v ≥ 12 then 1 else 0
  | _ => v

/-- A parameter in the cache, and the words that follow from it. -/
def cacheEq (strip : Mic) (p : EqParam) (v : ℤ) (c : Chip) : Chip :=
  recomputeStrip strip { c with eq := Function.update c.eq strip ((c.eq strip).setParam p v) }

/-- The value of a parameter's control that a put is given. -/
def EqParam.arg (p : EqParam) (value : ℤ) (item : ℕ) : ℤ :=
  toInt32 (if p.isEnum then item else value)

/-- `bf_eq_put`. An error leaves the new parameter and its words in the cache. -/
def bfEqPut (strip : Mic) (p : EqParam) (value : ℤ) (item : ℕ) : Usb ℕ :=
  let nv := p.arg value item
  if nv < p.min ∨ nv > p.max then
    throw .einval
  else
    let nv := p.stored nv
    writeBack (fun c => (c.eq strip).param p == nv)
      (fun c => { c with eq := Function.update c.eq strip ((c.eq strip).setParam p nv) })
      (bfEqUpdateStrip strip) fun _ c => c

/-- The put of a parameter caches it first, whether the upload gets through or not. -/
theorem bfEqPut_handles (strip : Mic) (p : EqParam) {value : ℤ} {item : ℕ}
    (h : p.min ≤ p.arg value item ∧ p.arg value item ≤ p.max) :
    Handles (bfEqPut strip p value item)
      (fun c => (c.eq strip).param p == p.stored (p.arg value item))
      (fun c => eqRegs strip ((cacheEq strip p (p.stored (p.arg value item)) c).eq strip))
      (cacheEq strip p (p.stored (p.arg value item)))
      (cacheEq strip p (p.stored (p.arg value item))) fun _ => [] := by
  unfold bfEqPut
  rw [if_neg (by omega)]
  unfold writeBack bfEqUpdateStrip
  simp only [Bus.M.settle_modify]
  exact Handles.writeBack (bfEqWriteStrip_writes strip) (fun _ => rfl) (fun _ => rfl)
    fun _ _ => rfl

end BabyfacePro
