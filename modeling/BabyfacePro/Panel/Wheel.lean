import BabyfacePro.Core.Restore
import BabyfacePro.Lib.Frame

/-!
# The front panel's wheel

What a turn of the wheel does, by the panel's mode: the output master, its balance, the input gain,
or the monitoring level. The panel's writes go on whatever becomes of each.
-/

namespace BabyfacePro

open Bus.M (get modify each notify ignore)

/-- A panel routine: it turns the state into `f`, tries to write each of `ws`, and raises `ns`. -/
abbrev Moves (m : Usb Unit) (f : Chip → Chip) (ws : Chip → List (Reg × Datum))
    (ns : Chip → List Ctl) : Prop :=
  Bus.Does Chip.quiet Xfer.write m f ws ns

/-- A vendor write whose failure the panel ignores. -/
def post (req : ℕ) (val : U16) (idx : ℕ) : Usb Unit := ignore (bfVendorWrite req val idx)

/-- A write whose error is dropped. -/
theorem post_moves {req : ℕ} (val : U16) (idx : ℕ) (h : req ≠ BF_REQ_CROSSPOINT) :
    Moves (post req val idx) id (fun _ => [word req idx val]) fun _ => [] := by
  have := @Bus.Does.send Chip Xfer Ctl (Reg × Datum) Errno Chip.quiet Xfer.write .usb
    (fun _ => rfl) (.ctl req val idx)
  rwa [Xfer.write, if_neg h] at this

/-- A write to the crosspoints, with the bits of a flag. -/
theorem post_moves_flag (val : U16) {idx : ℕ} (h : idx < BF_INDEX_MASK) (i : Fin 4) :
    Moves (post BF_REQ_CROSSPOINT val (idx ||| bfFlagCycle i)) id (fun _ => [xreg idx val])
      fun _ => [] := by
  have := @Bus.Does.send Chip Xfer Ctl (Reg × Datum) Errno Chip.quiet Xfer.write .usb
    (fun _ => rfl) (.ctl BF_REQ_CROSSPOINT val (idx ||| bfFlagCycle i))
  rwa [Xfer.write, if_pos rfl, or_flag_mod, Nat.mod_eq_of_lt h] at this

/-- A step of the flag cycle before a routine that does not depend on it. -/
theorem Moves.nextFlag {k : ℕ → Usb Unit} {f : Chip → Chip} {ws : Chip → List (Reg × Datum)}
    {ns : Chip → List Ctl} (h : ∀ i, Moves (k (bfFlagCycle i)) f ws ns) :
    Moves (do let flag ← nextFlag; k flag) f ws ns := fun w =>
  h w.chip.flag_cnt { w with chip := { w.chip with flag_cnt := w.chip.flag_cnt + 1 } }

/-! ## Masters -/

/-- The two 8-bit writes of an output. -/
def post8 (out : Out) (l8 r8 : U8) : Usb Unit := do
  post BF_REQ_GAIN (l8.setWidth 16) (BF_REG_MASTER_8 + 2 * out)
  post BF_REQ_GAIN (r8.setWidth 16) (BF_REG_MASTER_8 + 2 * out + 1)

/-- The two 16-bit writes of an output, under a flag. -/
def post16 (out : Out) (l16 r16 : U16) (flag : ℕ) : Usb Unit := do
  post BF_REQ_CROSSPOINT l16 (BF_REG_MASTER_16 + 2 * out ||| flag)
  post BF_REQ_CROSSPOINT r16 (BF_REG_MASTER_16 + 2 * out + 1 ||| flag)

/-- The 8-bit registers of an output. -/
def regs8 (out : Out) (l8 r8 : U8) : List (Reg × Datum) :=
  [word BF_REQ_GAIN (BF_REG_MASTER_8 + 2 * out) (l8.setWidth 16),
    word BF_REQ_GAIN (BF_REG_MASTER_8 + 2 * out + 1) (r8.setWidth 16)]

/-- The 16-bit registers of an output. -/
def regs16 (out : Out) (l16 r16 : U16) : List (Reg × Datum) :=
  [xreg (BF_REG_MASTER_16 + 2 * out) l16, xreg (BF_REG_MASTER_16 + 2 * out + 1) r16]

/-- The masters of an output are its 8-bit ones and its 16-bit ones. -/
theorem masterRegs_eq (out : Out) (l8 r8 : U8) (l16 r16 : U16) :
    masterRegs out l8 r8 l16 r16 = regs8 out l8 r8 ++ regs16 out l16 r16 := rfl

/-- The 8-bit masters. -/
theorem post8_moves (out : Out) (l8 r8 : U8) :
    Moves (post8 out l8 r8) id (fun _ => regs8 out l8 r8) fun _ => [] :=
  (post_moves _ _ (by decide)).seq (post_moves _ _ (by decide)) fun _ => rfl

/-- The 16-bit masters, under one flag. -/
theorem post16_moves (out : Out) (l16 r16 : U16) (i : Fin 4) :
    Moves (post16 out l16 r16 (bfFlagCycle i)) id (fun _ => regs16 out l16 r16) fun _ => [] := by
  have h : 2 * out.val + 1 < 12 := by omega
  unfold post16 BF_REG_MASTER_16
  exact (post_moves_flag _ (by unfold BF_INDEX_MASK; omega) i).seq
    (post_moves_flag _ (by unfold BF_INDEX_MASK; omega) i) fun _ => rfl

/-- `bf_panel_out_pair`: the output pair of the OUT selection. -/
def bfPanelOutPair (c : Chip) : Out :=
  match c.panel_out with
  | 2 => 1
  | 3 => 2
  | _ => 0

/-- The panel selects outputs 0 to 2. -/
theorem bfPanelOutPair_lt (c : Chip) : (bfPanelOutPair c).val < 3 := by
  unfold bfPanelOutPair
  split <;> decide

/-- `bf_panel_remute`. -/
def bfPanelRemute (out : Out) : Usb Unit := post8 out BF_MASTER_MUTE BF_MASTER_MUTE

/-- A change of the cache that the control's subscribers are told of. -/
def announce (f : Chip → Chip) (ctl : Ctl) : Usb Unit := do
  modify f
  notify ctl

/-- A note, and what comes after it. -/
theorem announce_then (f : Chip → Chip) (ctl : Ctl) (k : Usb Unit) (w : World) :
    (do announce f ctl; k) w = k { w with chip := f w.chip, notes := w.notes ++ [ctl] } := rfl

/-- A change of the cache that is told of. -/
theorem announce_moves {f : Chip → Chip} (ctl : Ctl)
    (hf : ∀ c : Chip, (f c.quiet).quiet = (f c).quiet) :
    Moves (announce f ctl) f (fun _ => []) fun _ => [ctl] := by
  have hm : Moves (modify f) f (fun _ => []) fun _ => [] := Bus.Does.modify hf
  have hn : Moves (notify ctl) id (fun _ => []) fun _ => [ctl] := Bus.Does.notify Chip.quiet_quiet ctl
  exact hm.seq hn fun _ => rfl

/-- The four master writes of an output at steps `l` and `r`, under one flag. -/
def postOut (out : Out) (muted dim : Bool) (l r : U16) : Usb Unit := do
  let flag ← nextFlag
  post8 out (bfOutReg8 muted dim l) (bfOutReg8 muted dim r)
  post16 out (bfOutReg16 muted dim l) (bfOutReg16 muted dim r) flag

/-- All four masters of an output, as mute and DIM have them. -/
theorem postOut_moves (out : Out) (muted dim : Bool) (l r : U16) :
    Moves (postOut out muted dim l r) id (fun _ => outRegs out muted dim l r) fun _ => [] :=
  Moves.nextFlag fun i => (post8_moves _ _ _).seq (post16_moves _ _ _ i) fun _ => rfl

/-- `bf_panel_write_master`. -/
def bfPanelWriteMaster (out : Out) (l r : U16) : Usb Unit := do
  let chip ← get
  postOut out (chip.muted out) (out = 1 && chip.dim) l r
  announce (cacheMaster out l r) (.master out)

/-- The panel caches a master, writes it and tells of it. -/
theorem bfPanelWriteMaster_moves (out : Out) (l r : U16) :
    Moves (bfPanelWriteMaster out l r) (cacheMaster out l r)
      (fun c => outRegs out (c.muted out) (out = 1 && c.dim) l r) fun _ => [.master out] := by
  refine Bus.Does.get fun c => ⟨_, _, _, (postOut_moves _ _ _ _ _).seq
    (announce_moves _ fun _ => rfl) fun _ => rfl, rfl, ?_, rfl⟩
  exact List.append_nil _

/-- `bf_panel_out_wheel_write`: the 16-bit masters only. -/
def bfPanelOutWheelWrite (out : Out) (l r : U16) : Usb Unit := do
  let chip ← get
  let muted := chip.muted out
  let dim := out = 1 && chip.dim
  let flag ← nextFlag
  post16 out (bfOutReg16 muted dim l) (bfOutReg16 muted dim r) flag
  announce (cacheMaster out l r) (.master out)

/-- While the wheel turns, it writes the 16-bit masters only. -/
theorem bfPanelOutWheelWrite_moves (out : Out) (l r : U16) :
    Moves (bfPanelOutWheelWrite out l r) (cacheMaster out l r)
      (fun c => regs16 out (bfOutReg16 (c.muted out) (out = 1 && c.dim) l)
        (bfOutReg16 (c.muted out) (out = 1 && c.dim) r))
      fun _ => [.master out] := by
  exact Bus.Does.get fun c => ⟨_, _, _, Moves.nextFlag fun i =>
    (post16_moves _ _ _ i).seq (announce_moves _ fun _ => rfl) fun _ => rfl, rfl, rfl, rfl⟩

/-! ## The OUT wheel -/

/-- A click that follows the last one within this time moves twice as far. -/
def BF_OUT_WHEEL_ACCEL_MS : ℤ := 62
/-- The rest after the last click before the resync. -/
def BF_OUT_WHEEL_RESYNC_MS : ℤ := 150
/-- -90 dB, below which a side is muted. -/
def BF_OUT_WHEEL_FLOOR : ℤ := -180
/-- Where a muted louder side is kept. -/
def BF_OUT_WHEEL_MUTED : ℤ := BF_OUT_WHEEL_FLOOR - 1
/-- The lowest level of the 8-bit master. -/
def BF_OUT_WHEEL_8BIT_MIN : ℤ := BF_MASTER_8_MIN - BF_MASTER_8_0DB

/-- `ktime_ms_delta`, of two times in nanoseconds. -/
def ktimeMsDelta (later earlier : ℤ) : ℤ := (later - earlier).tdiv 1000000

/-- The `s16` that an `int` is narrowed to. -/
def toInt16 (v : ℤ) : ℤ := v.bmod (2 ^ 16)

/-- `bf_out_wheel_step`: the firmware's step at a level, in half-dB. -/
def bfOutWheelStep (half_db : ℤ) : ℤ :=
  if half_db ≥ -19 then 1
  else if half_db ≥ -51 then 2
  else if half_db ≥ -83 then 3
  else if half_db ≥ -115 then 4
  else 6

/-- `bf_out_wheel_level`: the wheel's own level of a side, if the master is still what it wrote. -/
def bfOutWheelLevel (c : Chip) (out : Out) (ch : Side) : ℤ :=
  let step := c.master out ch
  if step = c.panel_master_last out ch then c.panel_out_hdb out ch
  else if step = 0 then BF_OUT_WHEEL_MUTED
  else step.toNat - BF_MASTER_STEP_0DB

/-- `bf_out_wheel_click`: one click on both sides. -/
def bfOutWheelClick (db : ℤ × ℤ) (step : ℤ) : ℤ × ℤ :=
  let louder := max db.1 db.2
  if louder < BF_OUT_WHEEL_FLOOR ∧ step < 0 then
    db
  else
    let shift :=
      if louder < BF_OUT_WHEEL_FLOOR then BF_OUT_WHEEL_FLOOR - louder + step
      else if louder + step < BF_OUT_WHEEL_FLOOR then BF_OUT_WHEEL_MUTED - louder
      else if louder + step > 12 then 12 - louder
      else step
    (db.1 + shift, db.2 + shift)

/-- The clicks of one poll. All but the first are fast. -/
def outWheelClicks (dir : ℤ) (fast : Bool) : ℕ → ℤ × ℤ → ℤ × ℤ
  | 0, db => db
  | n + 1, db =>
    let louder := max (max db.1 db.2) BF_OUT_WHEEL_FLOOR
    let step := dir * bfOutWheelStep louder
    outWheelClicks dir true n (bfOutWheelClick db (if fast then step * 2 else step))

/-- The master step of a level of the wheel. -/
def wheelStep (db : ℤ) : U16 :=
  if db < BF_OUT_WHEEL_FLOOR then 0 else .ofInt 16 (db + BF_MASTER_STEP_0DB)

/-- The estimated time of a click: the middle between the previous poll and now. -/
def clickTime (c : Chip) (now : ℤ) : ℤ :=
  if c.panel_poll_t ≠ 0 then now - (now - c.panel_poll_t).tdiv 2 else now

/-- The levels that the OUT wheel leaves on both sides of an output. -/
def outWheelLevels (c : Chip) (delta now : ℤ) : ℤ × ℤ :=
  let out := bfPanelOutPair c
  let dir := if delta > 0 then 1 else -1
  let fast := c.panel_out_wheel_t ≠ 0 ∧ dir = c.panel_out_wheel_dir ∧
    out = c.panel_out_wheel_out ∧
    ktimeMsDelta now c.panel_out_wheel_t < BF_OUT_WHEEL_ACCEL_MS
  outWheelClicks dir fast delta.natAbs (bfOutWheelLevel c out 0, bfOutWheelLevel c out 1)

/-- What the OUT wheel remembers of a turn. -/
def trackWheel (out : Out) (db : ℤ × ℤ) (delta now : ℤ) (c : Chip) : Chip :=
  { c with
    panel_master_last := Function.update c.panel_master_last out ![wheelStep db.1, wheelStep db.2]
    panel_out_hdb := Function.update c.panel_out_hdb out ![toInt16 db.1, toInt16 db.2]
    panel_out_wheel_t := now
    panel_out_wheel_dir := if delta > 0 then 1 else -1
    panel_out_wheel_out := out
    panel_out_resync := true }

/-- `bf_panel_out_wheel`, at the time `now`. -/
def bfPanelOutWheel (delta now : ℤ) : Usb Unit := do
  let chip ← get
  let out := bfPanelOutPair chip
  let now := clickTime chip now
  if chip.muted out then
    bfPanelRemute out
  else
    let db := outWheelLevels chip delta now
    bfPanelOutWheelWrite out (wheelStep db.1) (wheelStep db.2)
    modify (trackWheel out db delta now)

/-- `bf_panel_out_resync`, at the time `now`. -/
def bfPanelOutResync (now : ℤ) : Usb Unit := do
  let chip ← get
  if ¬ chip.panel_out_resync ∨
      ktimeMsDelta now chip.panel_out_wheel_t < BF_OUT_WHEEL_RESYNC_MS then
    return
  modify fun c => { c with panel_out_resync := false }
  let out := chip.panel_out_wheel_out
  if ∃ ch, chip.master out ch ≠ chip.panel_master_last out ch ∨
      chip.panel_out_hdb out ch < BF_OUT_WHEEL_8BIT_MIN then
    return
  if chip.muted out then
    return
  postOut out false (out = 1 && chip.dim) (chip.master out 0) (chip.master out 1)

/-- The levels of the cached masters. -/
def balanceLevels (c : Chip) (out : Out) : ℤ × ℤ :=
  let level := fun ch =>
    if c.master out ch ≠ 0 then (c.master out ch).toNat - BF_MASTER_STEP_0DB else BF_OUT_WHEEL_MUTED
  (level 0, level 1)

/-- The clicks of the balance wheel: they step by the distance between the sides. -/
def balanceClicks (dir : ℤ) : ℕ → ℤ → ℤ
  | 0, bal => bal
  | n + 1, bal => balanceClicks dir n (bal + dir * bfOutWheelStep (-|bal|))

/-- The levels that the balance wheel leaves: the louder side stays. -/
def balanceTurn (db : ℤ × ℤ) (delta : ℤ) : ℤ × ℤ :=
  let louder := max db.1 db.2
  let bal := balanceClicks (if delta > 0 then 1 else -1) delta.natAbs (db.2 - db.1)
  let lim := louder - BF_OUT_WHEEL_MUTED
  let bal := max (-lim) (min bal lim)
  (if bal > 0 then louder - bal else louder, if bal < 0 then louder + bal else louder)

/-- `bf_panel_balance_wheel`. -/
def bfPanelBalanceWheel (delta : ℤ) : Usb Unit := do
  let chip ← get
  let out := bfPanelOutPair chip
  if chip.muted out then
    bfPanelRemute out
  else
    let db := balanceLevels chip out
    if max db.1 db.2 < BF_OUT_WHEEL_FLOOR then
      return
    let db := balanceTurn db delta
    bfPanelWriteMaster out (wheelStep db.1) (wheelStep db.2)

/-! ## The IN wheel -/

/-- The microphones of the selection: the IN pair's left, right or both. -/
def selMics (c : Chip) : List Mic :=
  let base : Mic := if c.panel_in = 2 then 2 else 0
  (if c.panel_select = 1 then base + 1 else base) ::
    if c.panel_select = 2 then [base + 1] else []

/-- The gain of a microphone after a turn. -/
def gainTurn (c : Chip) (mic : Mic) (delta : ℤ) : ℤ :=
  max 0 (min ((c.gain mic).toNat + delta) (bfGainMaxDb mic))

/-- The loop body of `bf_panel_gain_wheel`. -/
def gainClick (delta : ℤ) (mic : Mic) : Usb Unit := do
  let chip ← get
  let db := gainTurn chip mic delta
  post BF_REQ_GAIN ((bfGainRaw mic db).setWidth 16) (BF_REG_PANEL_GAIN + mic)
  if db ≠ (chip.gain mic).toNat then
    announce (fun c => { c with gain := Function.update c.gain mic (.ofInt 8 db) }) (.gain mic)

/-- `bf_panel_gain_wheel`. -/
def bfPanelGainWheel (delta : ℤ) : Usb Unit := do
  let chip ← get
  if chip.panel_in = 3 ∨ chip.panel_select = 3 then
    return
  each (selMics chip) (gainClick delta)

/-! ## The MIX wheel -/

/-- The table of `bf_mix_display`. -/
def mixDisplayPts : List CurvePoint :=
  [⟨-124, 0⟩, ⟨-108, 1⟩, ⟨-96, 2⟩, ⟨-85, 3⟩, ⟨-70, 4⟩, ⟨-57, 5⟩, ⟨-15, 10⟩, ⟨-13, 11⟩, ⟨-9, 12⟩]

/-- `bf_mix_display`: twice a monitoring level in dB to the value of the level display. -/
def bfMixDisplay (db2 : ℤ) : ℤ :=
  if db2 ≤ -124 then 0
  else if db2 ≤ -9 then faderDb2ToRaw db2 mixDisplayPts
  else 12 + max 0 (min ((db2 + 9).tdiv 4) 12)

/-- The reference source of MIX: the first selected channel of the IN pair. -/
def mixRef (c : Chip) : Src :=
  if c.panel_in = 3 then 4
  else (if c.panel_in = 2 then 2 else 0) + (if c.panel_select = 1 then 1 else 0)

/-- `bf_panel_mix_seed`: the level that MIX starts from. -/
def bfPanelMixSeed (c : Chip) : Chip :=
  { c with
    panel_mix_db2 := max (-124) (bfFaderRawToDb2 (c.xpoint (bfPanelOutPair c) (mixRef c) 0)) }

/-- The sources that the MIX wheel moves. -/
def mixTargets (c : Chip) : List Src :=
  if c.panel_in = 3 then [4]
  else if c.panel_select ≠ 3 then (selMics c).map Mic.src
  else []

/-- The level display of an analog input, which is written when its value changes. -/
def mixDisp (db2 : ℤ) (mic : Mic) : Usb Unit := do
  let chip ← get
  let disp := bfMixDisplay db2
  if disp ≠ (chip.panel_mix_disp mic).toNat then
    post BF_REQ_GAIN (.ofInt 16 disp) (BF_REG_PANEL_GAIN + mic)
    modify fun c => { c with panel_mix_disp := Function.update c.panel_mix_disp mic (.ofInt 8 disp) }

/-- The loop body of `bf_panel_mix_wheel`. -/
def mixClick (out : Out) (db2 : ℤ) (src : Src) : Usb Unit := do
  let raw := bfFaderDb2ToRaw db2
  let flag ← nextFlag
  post BF_REQ_CROSSPOINT raw (xpointL out src ||| flag)
  post BF_REQ_CROSSPOINT raw (xpointR out src ||| flag)
  announce (cacheXpoint out src raw raw) (.xpoint out src)
  if h : src.val < 4 then
    mixDisp db2 ⟨src, h⟩

/-- `bf_panel_mix_wheel`. -/
def bfPanelMixWheel (delta : ℤ) : Usb Unit := do
  let chip ← get
  let out := bfPanelOutPair chip
  let db2 := max BF_FADER_DB2_INF (min (chip.panel_mix_db2 + delta) 12)
  modify fun c => { c with panel_mix_db2 := db2 }
  each (mixTargets chip) (mixClick out db2)

/-! ## What the wheel leaves alone -/

/-- A relation that the flag cycle keeps, and a set of transfers with all of the wheel's in it. -/
structure WheelFrame (R : Chip → Chip → Prop) (T : Reg × Datum → Prop) : Prop where
  /-- Routines in sequence keep the relation. -/
  framing : Bus.Framing R
  /-- The place in the flag cycle is not in it. -/
  flag : ∀ c n, R c { c with flag_cnt := n }
  /-- The writes of gains, 8-bit masters and displays. -/
  gain : ∀ idx v, T (word BF_REQ_GAIN idx v)
  /-- The writes of crosspoints and 16-bit masters. -/
  cross : ∀ idx v, T (xreg idx v)

section Frames

variable {R : Chip → Chip → Prop} {T : Reg × Datum → Prop} {X : Errno → Prop}

/-- A write whose error is dropped changes nothing of the cache. -/
theorem post_frames (hR : Bus.Framing R) {req : ℕ} {val : U16} {idx : ℕ}
    (h : T (Xfer.ctl req val idx).write) : Bus.Frames Xfer.write R T X (post req val idx) :=
  hR.ignore (hR.send (X := fun _ => True) trivial h)

/-- A note is no change of the cache. -/
theorem announce_frames (hR : Bus.Framing R) {f : Chip → Chip} (h : ∀ c, R c (f c)) (ctl : Ctl) :
    Bus.Frames Xfer.write R T X (announce f ctl) :=
  hR.bind (hR.modify h) fun _ => hR.notify ctl

/-- The flag count is within every such frame. -/
theorem WheelFrame.nextFlag (h : WheelFrame R T) : Bus.Frames Xfer.write R T X nextFlag :=
  h.framing.bind h.framing.get fun _ => h.framing.bind (h.framing.modify fun _ => h.flag _ _)
    fun _ => h.framing.pure _

/-- So are the 8-bit masters. -/
theorem WheelFrame.post8 (h : WheelFrame R T) (out : Out) (l8 r8 : U8) :
    Bus.Frames Xfer.write R T X (post8 out l8 r8) :=
  h.framing.bind (post_frames h.framing (h.gain _ _)) fun _ => post_frames h.framing (h.gain _ _)

/-- And the 16-bit ones. -/
theorem WheelFrame.post16 (h : WheelFrame R T) (out : Out) (l16 r16 : U16) (flag : ℕ) :
    Bus.Frames Xfer.write R T X (post16 out l16 r16 flag) :=
  h.framing.bind (post_frames h.framing (h.cross _ _)) fun _ => post_frames h.framing (h.cross _ _)

/-- And all four. -/
theorem WheelFrame.postOut (h : WheelFrame R T) (out : Out) (muted dim : Bool) (l r : U16) :
    Bus.Frames Xfer.write R T X (postOut out muted dim l r) :=
  h.framing.bind h.nextFlag fun _ => h.framing.bind (h.post8 _ _ _) fun _ => h.post16 _ _ _ _

/-- The masters' part of the wheel keeps what a new master and the wheel's notes keep. -/
theorem bfPanelOutWheel_frames (h : WheelFrame R T)
    (hm : ∀ out l r c, R c (cacheMaster out l r c))
    (ht : ∀ out db delta now c, out.val < 3 → R c (trackWheel out db delta now c)) (delta now : ℤ) :
    Bus.Frames Xfer.write R T X (bfPanelOutWheel delta now) := by
  have hR := h.framing
  have hw : ∀ out l r, Bus.Frames Xfer.write R T X (bfPanelOutWheelWrite out l r) := fun out l r =>
    hR.bind hR.get fun _ => hR.bind h.nextFlag fun _ => hR.bind (h.post16 _ _ _ _) fun _ =>
      announce_frames hR (hm out l r) _
  unfold bfPanelOutWheel
  refine hR.bind hR.get fun c => hR.ite _ (fun _ => h.post8 _ _ _) fun _ => ?_
  exact hR.bind (hw _ _ _) fun _ => hR.modify fun c => ht _ _ _ _ c (bfPanelOutPair_lt _)

/-- A turn of the balance caches a master. -/
theorem bfPanelBalanceWheel_frames (h : WheelFrame R T)
    (hm : ∀ out l r c, R c (cacheMaster out l r c)) (delta : ℤ) :
    Bus.Frames Xfer.write R T X (bfPanelBalanceWheel delta) := by
  have hR := h.framing
  have hw : ∀ out l r, Bus.Frames Xfer.write R T X (bfPanelWriteMaster out l r) := fun out l r =>
    hR.bind hR.get fun _ => hR.bind (h.postOut _ _ _ _ _) fun _ =>
      announce_frames hR (hm out l r) _
  unfold bfPanelBalanceWheel
  exact hR.bind hR.get fun c => hR.ite _ (fun _ => h.post8 _ _ _) fun _ =>
    hR.ite _ (fun _ => hR.pure _) fun _ => hw _ _ _

/-- The resync is no longer due after it. -/
theorem bfPanelOutResync_frames (h : WheelFrame R T)
    (hr : ∀ c, R c { c with panel_out_resync := false }) (now : ℤ) :
    Bus.Frames Xfer.write R T X (bfPanelOutResync now) := by
  have hR := h.framing
  unfold bfPanelOutResync
  refine hR.bind hR.get fun c => hR.ite _ (fun _ => hR.pure _) fun _ => ?_
  refine hR.bind (hR.modify hr) fun _ => hR.ite _ (fun _ => hR.pure _) fun _ => ?_
  exact hR.ite _ (fun _ => hR.pure _) fun _ => h.postOut _ _ _ _ _

/-- A turn on a gain caches gains. -/
theorem bfPanelGainWheel_frames (h : WheelFrame R T)
    (hg : ∀ (c : Chip) gain, R c { c with gain := gain }) (delta : ℤ) :
    Bus.Frames Xfer.write R T X (bfPanelGainWheel delta) := by
  have hR := h.framing
  have hc : ∀ mic, Bus.Frames Xfer.write R T X (gainClick delta mic) := fun mic => by
    unfold gainClick
    exact hR.bind hR.get fun c => hR.bind (post_frames hR (h.gain _ _)) fun _ =>
      hR.ite _ (fun _ => announce_frames hR (fun c => hg c _) _) fun _ => hR.pure _
  unfold bfPanelGainWheel
  exact hR.bind hR.get fun c => hR.ite _ (fun _ => hR.pure _) fun _ => hR.each _ fun mic _ => hc mic

/-- The gain wheel has no target while nothing is selected. -/
theorem bfPanelGainWheel_idle {w : World} (h : w.chip.panel_select = 3) (delta : ℤ) :
    bfPanelGainWheel delta w = (.ok (), w) := by
  unfold bfPanelGainWheel
  rw [Bus.M.bind_of_ok (Bus.M.get_run w), if_pos (.inr h), Bus.M.pure_run]

/-- A turn on the mix caches faders, their level and their displays. -/
theorem bfPanelMixWheel_frames (h : WheelFrame R T)
    (hx : ∀ out src l r c, R c (cacheXpoint out src l r c))
    (hd : ∀ (c : Chip) db2, R c { c with panel_mix_db2 := db2 })
    (hv : ∀ (c : Chip) disp, R c { c with panel_mix_disp := disp }) (delta : ℤ) :
    Bus.Frames Xfer.write R T X (bfPanelMixWheel delta) := by
  have hR := h.framing
  -- A display is one gain register and its shadow.
  have hdisp : ∀ db2 mic, Bus.Frames Xfer.write R T X (mixDisp db2 mic) := fun db2 mic => by
    unfold mixDisp
    exact hR.bind hR.get fun c => hR.ite _ (fun _ => hR.bind (post_frames hR (h.gain _ _)) fun _ =>
      hR.modify fun c => hv c _) fun _ => hR.pure _
  -- A click is the two sides of a crosspoint, its announcement and the display.
  have hc : ∀ out db2 src, Bus.Frames Xfer.write R T X (mixClick out db2 src) := fun out db2 src => by
    unfold mixClick
    refine hR.bind h.nextFlag fun _ => hR.bind (post_frames hR (h.cross _ _)) fun _ =>
      hR.bind (post_frames hR (h.cross _ _)) fun _ => hR.bind (announce_frames hR (hx _ _ _ _) _)
      fun _ => ?_
    split
    · exact hdisp _ _
    · exact hR.pure _
  unfold bfPanelMixWheel
  exact hR.bind hR.get fun c => hR.bind (hR.modify fun c => hd c _) fun _ =>
    hR.each _ fun src _ => hc _ _ _

end Frames

end BabyfacePro
