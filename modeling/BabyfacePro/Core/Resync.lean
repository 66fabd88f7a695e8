import BabyfacePro.Core.Masters
import BabyfacePro.Lib.Relates

/-!
# The wheel at rest

The firmware moves the 8-bit masters of an output by itself at a click of the OUT wheel, and the driver
guesses by how much. Once the wheel rests, the resync writes the level that the driver keeps. The card
is watched from a probe on, through polls and puts of masters, mutes and DIM, with no failed transfer.
The resync has room for one output: in the runs in which no click overtakes an output that it still owes
a rewrite, it reaches every output that the wheel moved (`resync_reaches`).
-/

namespace BabyfacePro

open Registers (last)

/-! ## What the wheel works on -/

/-- The 8-bit masters of the outputs that the panel can select. The displays of the panel follow. -/
def Reg.isOutWheel : Reg → Bool
  | .ctl req idx => req = BF_REQ_GAIN && decide (BF_REG_MASTER_8 ≤ idx) && decide (idx < BF_REG_PANEL_GAIN)
  | _ => false

/-- The masters of the first three outputs are the wheel's. -/
theorem reg8_isOutWheel {out : Out} (h : out.val < 3) (side : Side) :
    (reg8 out side).isOutWheel = true := by
  revert out side
  decide

/-- The wheel's registers are masters. -/
theorem Reg.isMaster_of_isOutWheel {a : Reg} (h : a.isOutWheel = true) : a.isMaster = true := by
  cases a with
  | ctl req idx =>
    simp only [Reg.isOutWheel, Bool.and_eq_true] at h
    simp only [Reg.isMaster, h.1.1, h.1.2, Bool.and_self, Bool.true_or]
  | _ => cases h

/-- The volumes of the outputs, and what the wheel remembers of its clicks. -/
def Chip.wheelView (c : Chip) :
    (Out → Side → U16) × (Out → Bool) × Bool × (Out → Side → U16) × (Out → Side → ℤ) × Out × Bool :=
  (c.master, c.muted, c.dim, c.panel_master_last, c.panel_out_hdb, c.panel_out_wheel_out,
    c.panel_out_resync)

/-! ## The stages that leave the wheel alone -/

/-- A routine that keeps the view, and writes none of the wheel's registers. -/
abbrev Aside {α : Type} (m : Usb α) : Prop :=
  Bus.Frames Xfer.write (fun c d : Chip => d.wheelView = c.wheelView)
    (fun x => ¬ x.1.isOutWheel = true) (fun _ => True) m

/-- What leaves the wheel's part of the card alone, part by part. -/
theorem wheelView_framing : Bus.Framing fun c d : Chip => d.wheelView = c.wheelView :=
  Bus.Framing.view Chip.wheelView

/-- A write elsewhere. -/
theorem post_aside {req : ℕ} (val : U16) {idx : ℕ}
    (h : req ≠ BF_REQ_GAIN ∨ BF_REG_PANEL_GAIN ≤ idx) : Aside (post req val idx) := by
  refine post_frames wheelView_framing ?_
  by_cases hx : req = BF_REQ_CROSSPOINT
  · simp [Xfer.write, hx, Reg.isOutWheel, BF_REQ_CROSSPOINT, BF_REQ_GAIN]
  · simp only [Xfer.write, hx, Reg.isOutWheel]
    grind

/-- A note leaves it alone. -/
theorem announce_aside {f : Chip → Chip} (hf : ∀ c, (f c).wheelView = c.wheelView) (ctl : Ctl) :
    Aside (announce f ctl) := announce_frames wheelView_framing hf ctl

/-- So does the flag count. -/
theorem nextFlag_aside : Aside nextFlag := by
  have hR := wheelView_framing
  exact hR.bind hR.get fun _ => hR.bind (hR.modify fun _ => rfl) fun _ => hR.pure _

/-- So do the buttons of a readback. -/
theorem tickButton_aside (st : Readback) : Aside (tickButton st) := by
  have hR := wheelView_framing
  unfold tickButton
  exact hR.bind hR.get fun _ => hR.ite _ (fun _ => announce_aside (fun _ => by rfl) _) fun _ =>
    hR.pure _

/-- The gains are beyond the masters that the panel selects. -/
theorem bfPanelGainWheel_aside (delta : ℤ) : Aside (bfPanelGainWheel delta) := by
  have hR := wheelView_framing
  have hclick : ∀ mic, Aside (gainClick delta mic) := fun mic => by
    unfold gainClick
    refine hR.bind hR.get fun _ => hR.bind (post_aside _ (.inr (Nat.le_add_right _ _))) fun _ => ?_
    exact hR.ite _ (fun _ => announce_aside (fun _ => by rfl) _) fun _ => hR.pure _
  unfold bfPanelGainWheel
  exact hR.bind hR.get fun _ => hR.ite _ (fun _ => hR.pure _) fun _ => hR.each _ fun mic _ => hclick mic

/-- So does a display of the mix. -/
theorem mixDisp_aside (db2 : ℤ) (mic : Mic) : Aside (mixDisp db2 mic) := by
  have hR := wheelView_framing
  unfold mixDisp
  refine hR.bind hR.get fun _ => hR.ite _ (fun _ => ?_) fun _ => hR.pure _
  exact hR.bind (post_aside _ (.inr (Nat.le_add_right _ _))) fun _ => hR.modify fun _ => rfl

/-- So does a turn on the mix. -/
theorem bfPanelMixWheel_aside (delta : ℤ) : Aside (bfPanelMixWheel delta) := by
  have hR := wheelView_framing
  have hcross : ∀ val idx, Aside (post BF_REQ_CROSSPOINT val idx) := fun val idx =>
    post_aside val (.inl (by decide))
  have hclick : ∀ out db2 src, Aside (mixClick out db2 src) := fun out db2 src => by
    unfold mixClick
    refine hR.bind nextFlag_aside fun _ => hR.bind (hcross _ _) fun _ => hR.bind (hcross _ _) fun _ => ?_
    refine hR.bind (announce_aside (fun _ => by rfl) _) fun _ => ?_
    split
    · exact mixDisp_aside _ _
    · exact hR.pure _
  unfold bfPanelMixWheel
  exact hR.bind hR.get fun _ => hR.bind (hR.modify fun _ => rfl) fun _ =>
    hR.each _ fun src _ => hclick _ _ _

/-- From the IN selection to SELECT. -/
theorem decodeMid_aside (p : Poll) : Aside (decodeMid p) := by
  have hR := wheelView_framing
  -- None of the three changes a field that the OUT wheel looks at, or writes one of its registers.
  have hin : Aside (tickIn p.st) := by
    unfold tickIn
    exact hR.bind hR.get fun _ => hR.ite _ (fun _ => announce_aside (fun _ => by rfl) _) fun _ =>
      hR.pure _
  have hout : Aside (tickOut p.st) := by
    unfold tickOut
    exact hR.bind hR.get fun _ => hR.ite _ (fun _ => announce_aside (fun _ => by rfl) _) fun _ =>
      hR.pure _
  have hselect : Aside (tickSelect p.st) := by
    unfold tickSelect
    refine hR.bind hR.get fun _ => hR.ite _ (fun _ => ?_) fun _ => hR.pure _
    refine hR.ite _ (fun _ => ?_) fun _ => hR.modify fun _ => rfl
    split
    · exact hR.throw trivial
    · exact hR.bind (announce_aside (fun _ => by rfl) _) fun _ => hR.when _ fun _ =>
        hR.modify fun _ => rfl
  exact hR.bind hin fun _ => hR.bind hout fun _ => hR.bind hselect fun _ => hR.modify fun _ => rfl

/-- So does the SET key. -/
theorem tickSet_aside (st : Readback) : Aside (tickSet st) := by
  have hR := wheelView_framing
  have hnotify : ∀ old, Aside (phantomNotify old) := fun old =>
    hR.bind hR.get fun _ => hR.bind (hR.when _ fun _ => hR.notify _) fun _ =>
      hR.bind (hR.when _ fun _ => hR.notify _) fun _ => hR.modify fun _ => rfl
  have hwrite : Aside bfPreampStateWrite :=
    bfPreampStateWrite_frames hR trivial (fun _ => Bool.false_ne_true) fun _ => Bool.false_ne_true
  unfold tickSet bfPanelSetPhantom
  refine hR.bind hR.get fun _ => hR.when _ fun _ => hR.bind hR.get fun _ => ?_
  refine hR.ite _ (fun _ => hR.pure _) fun _ => hR.bind (hR.ignore (Y := fun _ => True) ?_) fun _ =>
    hnotify _
  exact hR.bind hR.get fun _ => hR.bind (hR.modify fun _ => rfl) fun _ =>
    hR.rollback hwrite fun _ => rfl

/-- After SET. -/
theorem decodeTail_aside (p : Poll) : Aside (decodeTail p) := by
  have hR := wheelView_framing
  -- MIX writes preamp displays only, which are no masters.
  have hpreamp : ∀ val idx, Aside (post BF_REQ_PREAMP val idx) := fun val idx =>
    post_aside val (.inl (by decide))
  have hexit : Aside mixExit :=
    hR.bind (hpreamp _ _) fun _ => hR.bind (hpreamp _ _) fun _ => announce_aside (fun _ => by rfl) _
  have hseed : Aside mixSeedDisp := by
    unfold mixSeedDisp
    refine hR.bind hR.get fun _ => ?_
    split
    · exact hR.bind (post_aside _ (.inr (Nat.le_add_right _ _))) fun _ => hR.modify fun _ => rfl
    · exact hR.pure _
  -- The exits and entries of MIX, then the stages that may take them.
  have hengage : Aside mixEngage :=
    hR.bind (hpreamp _ _) fun _ => hR.bind (hR.modify fun _ => rfl) fun _ => hR.bind hseed fun _ =>
      hR.notify _
  have hpress : Aside (tickDimPress p.st) :=
    hR.bind hR.get fun _ => hR.when _ fun _ => announce_aside (fun _ => by rfl) _
  have hmix : Aside (tickMix p.st) :=
    hR.bind hR.get fun _ => hR.when _ fun _ => hR.ite _ (fun _ => hexit) fun _ => hengage
  have hfader : Aside (tickFader p.st) := by
    unfold tickFader
    exact hR.bind hR.get fun _ => hR.ite _ (fun _ => hR.when _ fun _ => hR.modify fun _ => rfl)
      fun _ => hR.when _ fun _ => hexit
  have hdim : Aside (tickDim p.st) := by
    unfold tickDim
    exact hR.bind hR.get fun _ => hR.ite _ (fun _ => announce_aside (fun _ => by rfl) _) fun _ =>
      hR.pure _
  exact hR.bind hpress fun _ => hR.bind hmix fun _ => hR.bind hfader fun _ => hR.bind hdim fun _ =>
    hR.modify fun _ => rfl

/-! ## The levels that the wheel leaves -/

/-- The steps of the masters are those of their control. -/
def StepsOk (c : Chip) : Prop := ∀ out side, ((c.master out side).toNat : ℤ) ≤ BF_MASTER_STEP_MAX

/-- A click moves by one to six half decibels. -/
theorem bfOutWheelStep_mem (half_db : ℤ) : 1 ≤ bfOutWheelStep half_db ∧ bfOutWheelStep half_db ≤ 6 := by
  unfold bfOutWheelStep
  grind

/-- A click leaves no side above +6 dB, wherever it starts. -/
theorem bfOutWheelClick_le (db : ℤ × ℤ) {step : ℤ} (h : step ≤ 12) :
    (bfOutWheelClick db step).1 ≤ 12 ∧ (bfOutWheelClick db step).2 ≤ 12 := by
  unfold bfOutWheelClick BF_OUT_WHEEL_MUTED BF_OUT_WHEEL_FLOOR
  grind

/-- No click goes above the top of the range. -/
theorem outWheelClicks_le {dir : ℤ} (hdir : dir = 1 ∨ dir = -1) (n : ℕ) (fast : Bool) (db : ℤ × ℤ) :
    (outWheelClicks dir fast (n + 1) db).1 ≤ 12 ∧ (outWheelClicks dir fast (n + 1) db).2 ≤ 12 := by
  induction n generalizing fast db with
  | zero =>
    obtain ⟨hlow, hhigh⟩ := bfOutWheelStep_mem (max (max db.1 db.2) BF_OUT_WHEEL_FLOOR)
    refine bfOutWheelClick_le db ?_
    obtain rfl | rfl := hdir
    · split <;> omega
    · split <;> omega
  | succ n ih => exact ih true _

/-- A turn of at least one click leaves both sides at most at +6 dB. -/
theorem outWheelLevels_le (c : Chip) {delta : ℤ} (h : delta ≠ 0) (now : ℤ) :
    (outWheelLevels c delta now).1 ≤ 12 ∧ (outWheelLevels c delta now).2 ≤ 12 := by
  obtain ⟨n, hn⟩ : ∃ n, delta.natAbs = n + 1 := Nat.exists_eq_succ_of_ne_zero (Int.natAbs_ne_zero.mpr h)
  unfold outWheelLevels
  rw [hn]
  exact outWheelClicks_le (by split <;> simp) n _ _

/-- Nor does a turn of the balance. -/
theorem balanceTurn_le (c : Chip) (h : StepsOk c) (out : Out) (delta : ℤ) :
    (balanceTurn (balanceLevels c out) delta).1 ≤ 12 ∧
      (balanceTurn (balanceLevels c out) delta).2 ≤ 12 := by
  have hlevel : (balanceLevels c out).1 ≤ 12 ∧ (balanceLevels c out).2 ≤ 12 := by
    have hl := h out 0
    have hr := h out 1
    unfold balanceLevels BF_OUT_WHEEL_MUTED BF_OUT_WHEEL_FLOOR BF_MASTER_STEP_0DB
    unfold BF_MASTER_STEP_MAX at hl hr
    constructor <;> dsimp only <;> split <;> omega
  -- The louder side stays, the other one is lowered.
  unfold balanceTurn
  dsimp only
  constructor <;> split <;> omega

/-- The step of a level, as a number. -/
theorem wheelStep_toNat {db : ℤ} (h : db ≤ 12) : ((wheelStep db).toNat : ℤ) =
    if db < BF_OUT_WHEEL_FLOOR then 0 else db + BF_MASTER_STEP_0DB := by
  unfold wheelStep
  split
  · rfl
  · unfold BF_OUT_WHEEL_FLOOR at *
    rw [BitVec.toNat_ofInt, Int.toNat_of_nonneg (Int.emod_nonneg _ (by decide))]
    unfold BF_MASTER_STEP_0DB
    omega

/-- A level of the range has a step of the range. -/
theorem wheelStep_le {db : ℤ} (h : db ≤ 12) : ((wheelStep db).toNat : ℤ) ≤ BF_MASTER_STEP_MAX := by
  rw [wheelStep_toNat h]
  unfold BF_OUT_WHEEL_FLOOR BF_MASTER_STEP_0DB BF_MASTER_STEP_MAX
  split <;> omega

/-- From the floor of the 8-bit masters on, the level that the wheel keeps is that of the step. -/
theorem wheelStep_level {db : ℤ} (h : db ≤ 12)
    (hmin : BF_OUT_WHEEL_8BIT_MIN ≤ (wheelStep db).toNat - BF_MASTER_STEP_0DB) :
    toInt16 db = (wheelStep db).toNat - BF_MASTER_STEP_0DB := by
  rw [wheelStep_toNat h] at hmin ⊢
  unfold BF_OUT_WHEEL_8BIT_MIN BF_MASTER_8_MIN BF_MASTER_8_0DB BF_MASTER_STEP_0DB at *
  unfold BF_OUT_WHEEL_FLOOR at *
  split at hmin
  · omega
  · rename_i hfloor
    rw [if_neg hfloor, toInt16]
    have hbmod : db.bmod (2 ^ 16) = db := Int.bmod_eq_of_le (by omega) (by omega)
    omega

/-! ## The watch -/

/-- A card, and for each output how long the log of the wire was at its last click of the OUT wheel. -/
structure WheelWatch where
  w : World
  mark : Out → Option ℕ

/-- The output that a readback clicks, by the panel's OUT selection. -/
def turns (st : Readback) (c : Chip) : Option Out :=
  if wheelDelta (c.panel_prev 2) (st 2) ≠ 0 ∧ wheelClass (st 2) = wheelClass (c.panel_prev 2) ∧
      c.panel_mix = false ∧ c.panel_sel_hold < 10 ∧ wheelClass (st 2) = .out then
    some (bfPanelOutPair c)
  else none

/-- The output that a poll clicks. The first snapshot clicks none. -/
def clicks (p : Poll) (c : Chip) : Option Out :=
  if c.shutdown = false ∧ c.panel_seen = true then turns p.st c else none

/-- The marks after a click, or without one, when the log is `n` long. -/
def stamp (mark : Out → Option ℕ) (n : ℕ) : Option Out → Out → Option ℕ
  | some out => Function.update mark out (some n)
  | none => mark

/-- An unmuted output whose steps are those that the wheel wrote, at or above the floor of the 8-bit
masters. -/
structure WheelLevel (c : Chip) (out : Out) : Prop where
  unmuted : c.muted out = false
  floor : ∀ side, BF_OUT_WHEEL_8BIT_MIN ≤ (c.master out side).toNat - BF_MASTER_STEP_0DB
  tracked : ∀ side, c.master out side = c.panel_master_last out side

/-- Since its last click both 8-bit masters of the output were last written with the code of its
cached steps. -/
def WheelWatch.Rewritten (m : WheelWatch) (out : Out) : Prop :=
  ∃ n, m.mark out = some n ∧ ∀ side,
    last ((m.w.wire.map Xfer.write).drop n) (reg8 out side) = some (m.w.chip.word8 out side)

/-- The output has the pending resync. -/
def Pending (c : Chip) (out : Out) : Prop :=
  c.panel_out_resync = true ∧ c.panel_out_wheel_out = out

/-- With no resync pending, every output at the wheel's level was rewritten since its last click. -/
def WheelWatch.Reached (m : WheelWatch) : Prop :=
  m.w.chip.panel_out_resync = false → ∀ out, WheelLevel m.w.chip out → m.Rewritten out

/-- A click on the unmuted output `out` while another output, at the wheel's level, waits for its
rewrite. -/
def WheelWatch.Overtakes (m : WheelWatch) (out : Out) : Prop :=
  m.w.chip.muted out = false ∧ ∃ late, late ≠ out ∧ Pending m.w.chip late ∧
    WheelLevel m.w.chip late ∧ ¬ m.Rewritten late

/-- The watch after a poll. -/
def WheelWatch.poll (m : WheelWatch) (p : Poll) (t : ℤ) : WheelWatch :=
  ⟨(babyfacePanelWork p t m.w).2, stamp m.mark m.w.wire.length (clicks p m.w.chip)⟩

/-- The output that is clicked is stamped. -/
theorem stamp_self (mark : Out → Option ℕ) (n : ℕ) (o : Out) : stamp mark n (some o) o = some n :=
  Function.update_self _ _ _

/-- The others keep their stamps. -/
theorem stamp_ne (mark : Out → Option ℕ) (n : ℕ) {o out : Out} (h : out ≠ o) :
    stamp mark n (some o) out = mark out := Function.update_of_ne h _ _

/-- An output without a stamp is not the one that is clicked, and had none. -/
theorem stamp_eq_none {mark : Out → Option ℕ} {n : ℕ} {o out : Out}
    (h : stamp mark n (some o) out = none) : out ≠ o ∧ mark out = none := by
  have hne : out ≠ o := fun he => by
    rw [he, stamp_self] at h
    cases h
  exact ⟨hne, (stamp_ne mark n hne).symm.trans h⟩

/-- The marks stay on outputs that the panel selects, and within the log. -/
theorem stamp_marked {mark : Out → Option ℕ} {N N' : ℕ}
    (hold : ∀ {out k}, mark out = some k → out.val < 3 ∧ k ≤ N) {o : Out} (ho : o.val < 3) {n : ℕ}
    (hn : n ≤ N') (hN : N ≤ N') {out : Out} {k : ℕ}
    (h : stamp mark n (some o) out = some k) : out.val < 3 ∧ k ≤ N' := by
  by_cases he : out = o
  · rw [he, stamp_self] at h
    rw [he, ← Option.some.inj h]
    exact ⟨ho, hn⟩
  · obtain ⟨hlt, hk⟩ := hold ((stamp_ne mark n he).symm.trans h)
    exact ⟨hlt, hk.trans hN⟩

/-- A step of the watched card, whose clicks meet the condition `ok`. -/
inductive WheelStep (ok : WheelWatch → Out → Prop) (m : WheelWatch) : WheelWatch → Prop
  | poll (p : Poll) (t : ℤ) (h : ∀ out, clicks p m.w.chip = some out → ok m out) :
    WheelStep ok m (m.poll p t)
  | put (k : Clock) (x : ElemValue) {ctl : Ctl} (h : ctl.isMasterPut = true) :
    WheelStep ok m ⟨(bfPut k x ctl m.w).2, m.mark⟩

/-- A card watched from its probe on, with no failed transfer and no new start of the panel. -/
inductive WheelRun (ok : WheelWatch → Out → Prop) : WheelWatch → Prop
  | probe {st0 : U8} {reprobe : Bool} {jiffies : ℤ} {p : Params} {w : World}
    (h : Probed st0 reprobe jiffies p w) : WheelRun ok ⟨{ w with wire := [], usb := fun _ => true }, fun _ => none⟩
  | step {m m' : WheelWatch} (h : WheelRun ok m) (hs : WheelStep ok m m') : WheelRun ok m'

/-! ## What holds between the stages -/

/-- What the wheel keeps: an output at its level has been rewritten, or has the pending resync. -/
structure WheelSafe (m : WheelWatch) : Prop where
  live : Live m.w
  steps : StepsOk m.w.chip
  /-- The outputs that were clicked are those that the panel selects. -/
  marked : ∀ {out n}, m.mark out = some n → out.val < 3 ∧ n ≤ m.w.wire.length
  /-- The others stand at no step that the wheel wrote. -/
  unmarked : ∀ {out}, m.mark out = none → ∀ side, m.w.chip.panel_master_last out side = 0xffff
  /-- The level that the wheel keeps is that of the step that it wrote. -/
  level : ∀ {out side}, m.w.chip.panel_master_last out side ≠ 0xffff →
    BF_OUT_WHEEL_8BIT_MIN ≤ (m.w.chip.panel_master_last out side).toNat - BF_MASTER_STEP_0DB →
    m.w.chip.panel_out_hdb out side =
      (m.w.chip.panel_master_last out side).toNat - BF_MASTER_STEP_0DB
  served : ∀ {out}, WheelLevel m.w.chip out → m.Rewritten out ∨ Pending m.w.chip out

/-- An output at the wheel's level was clicked: before, no step stands for it. -/
theorem WheelLevel.clicked {c : Chip} {out : Out} (h : WheelLevel c out) (hs : StepsOk c) (side : Side) :
    c.panel_master_last out side ≠ 0xffff := fun hlast => by
  have hstep := hs out side
  rw [h.tracked side, hlast] at hstep
  exact absurd hstep (by decide)

/-- The volume decides, and what the wheel wrote. -/
theorem WheelLevel.congr {c d : Chip} {out : Out} (h : WheelLevel d out)
    (hv : d.volume out = c.volume out) (hlast : d.panel_master_last out = c.panel_master_last out) :
    WheelLevel c out := by
  simp only [Chip.volume, Prod.mk.injEq] at hv
  obtain ⟨hmaster, hmute, -⟩ := hv
  refine ⟨hmute ▸ h.unmuted, fun side => ?_, fun side => ?_⟩
  · rw [← hmaster]
    exact h.floor side
  · rw [← hmaster, ← hlast]
    exact h.tracked side

/-- Transfers are added to the wire. -/
theorem wire_le {w w' : World} {ws : List (Reg × Datum)}
    (hw : w'.wire.map Xfer.write = w.wire.map Xfer.write ++ ws) : w.wire.length ≤ w'.wire.length := by
  have hcount := congrArg List.length hw
  rw [List.length_append, List.length_map, List.length_map] at hcount
  omega

/-- What was written since a mark, after more writes. -/
theorem drop_wire {w w' : World} {ws : List (Reg × Datum)} {n : ℕ} (hn : n ≤ w.wire.length)
    (hw : w'.wire.map Xfer.write = w.wire.map Xfer.write ++ ws) :
    (w'.wire.map Xfer.write).drop n = (w.wire.map Xfer.write).drop n ++ ws := by
  rw [hw, List.drop_append_of_le_length (by rwa [List.length_map])]

/-- An output whose registers and volume a step leaves alone stays rewritten. -/
theorem WheelWatch.Rewritten.keep {mark mark' : Out → Option ℕ} {w w' : World} {out : Out}
    (h : WheelWatch.Rewritten ⟨w, mark⟩ out) (hmark : mark' out = mark out)
    (hn : ∀ n, mark out = some n → n ≤ w.wire.length) {ws : List (Reg × Datum)}
    (hw : w'.wire.map Xfer.write = w.wire.map Xfer.write ++ ws)
    (hws : ∀ side, last ws (reg8 out side) = none) (hv : w'.chip.volume out = w.chip.volume out) :
    WheelWatch.Rewritten ⟨w', mark'⟩ out := by
  obtain ⟨n, hm, hlast⟩ := h
  refine ⟨n, hmark.trans hm, fun side => ?_⟩
  rw [drop_wire (hn n hm) hw, Registers.last_append, hws side, Option.none_or, hlast side,
    (words_of_volume hv side).1]

/-- A step that leaves the wheel's notes on the levels alone. An output that is at the wheel's level
after it is written in full, or is left as it was. -/
theorem WheelSafe.step {mark : Out → Option ℕ} {w w' : World} (h : WheelSafe ⟨w, mark⟩)
    {ws : List (Reg × Datum)} (hl : Live w') (hw : w'.wire.map Xfer.write = w.wire.map Xfer.write ++ ws)
    (hsteps : StepsOk w'.chip) (hlast : w'.chip.panel_master_last = w.chip.panel_master_last)
    (hhdb : w'.chip.panel_out_hdb = w.chip.panel_out_hdb)
    (howed : ∀ out, out.val < 3 → WheelLevel w'.chip out →
      (∀ side, last ws (reg8 out side) = some (w'.chip.word8 out side)) ∨
        (∀ side, last ws (reg8 out side) = none) ∧ w'.chip.volume out = w.chip.volume out ∧
          (Pending w.chip out → Pending w'.chip out)) :
    WheelSafe ⟨w', mark⟩ := by
  have hmarked : ∀ {out n}, mark out = some n → out.val < 3 ∧ n ≤ w'.wire.length := fun hm =>
    ⟨(h.marked hm).1, (h.marked hm).2.trans (wire_le hw)⟩
  refine ⟨hl, hsteps, hmarked, fun hm side => ?_, fun {out side} hne hmin => ?_, fun {out} ho => ?_⟩
  -- An output that was not clicked has no step of the wheel's own.
  · show w'.chip.panel_master_last _ side = _
    rw [hlast]
    exact h.unmarked hm side
  · show w'.chip.panel_out_hdb out side = (w'.chip.panel_master_last out side).toNat - _
    have hne' : w'.chip.panel_master_last out side ≠ 0xffff := hne
    have hmin' : BF_OUT_WHEEL_8BIT_MIN ≤
        (w'.chip.panel_master_last out side).toNat - BF_MASTER_STEP_0DB := hmin
    rw [hlast] at hne' hmin'
    rw [hhdb, hlast]
    exact h.level hne' hmin'
  -- An output at the wheel's level was clicked, so that it has a mark.
  · obtain ⟨n, hm⟩ : ∃ n, mark out = some n := Option.ne_none_iff_exists'.mp fun hnone =>
      ho.clicked hsteps 0 (hlast ▸ h.unmarked hnone 0)
    obtain ⟨hout, hn⟩ := h.marked hm
    obtain hall | ⟨hnone, hv, hpend⟩ := howed out hout ho
    -- Written in full by this step.
    · refine .inl ⟨n, hm, fun side => ?_⟩
      rw [drop_wire hn hw, Registers.last_append, hall side]
      rfl
    -- Left alone by it: it was served before, or waits for the resync still.
    · obtain hr | hp := h.served (ho.congr hv (by rw [hlast]))
      · exact .inl (hr.keep rfl (fun n hm => (h.marked hm).2) hw hnone hv)
      · exact .inr (hpend hp)

/-- A routine that leaves the wheel alone. -/
theorem WheelSafe.aside {mark : Out → Option ℕ} {w : World} (h : WheelSafe ⟨w, mark⟩) {α : Type}
    {m : Usb α} (hm : Aside m) : WheelSafe ⟨(m w).2, mark⟩ := by
  have hview : (m w).2.chip.wheelView = w.chip.wheelView := hm.state w
  simp only [Chip.wheelView, Prod.mk.injEq] at hview
  obtain ⟨hmaster, hmute, hdim, hlast, hhdb, hout, hresync⟩ := hview
  obtain ⟨ws, hw, hws⟩ := hm.wire w
  have hmisses : Misses Reg.isOutWheel ws := hws
  have hsteps : StepsOk (m w).2.chip := fun out side => by
    rw [hmaster]
    exact h.steps out side
  refine h.step (hm.live h.live) hw hsteps hlast hhdb fun out ho _ => .inr ⟨fun side => ?_, ?_, ?_⟩
  · exact hmisses.last_eq_none (reg8_isOutWheel ho side)
  · unfold Chip.volume
    rw [hmaster, hmute, hdim]
  · unfold Pending
    rw [hout, hresync]
    exact id

/-- A step that writes the masters of the output `o` in full, from the cache that it leaves. -/
theorem WheelSafe.serve {mark : Out → Option ℕ} {w w' : World} (h : WheelSafe ⟨w, mark⟩) (o : Out)
    {vs : List (Reg × Datum)} (hl : Live w')
    (hw : w'.wire.map Xfer.write = w.wire.map Xfer.write ++ (w'.chip.outRegs o ++ vs))
    (hvs : Misses Reg.isOutWheel vs)
    (ho : ∀ side, ((w'.chip.master o side).toNat : ℤ) ≤ BF_MASTER_STEP_MAX)
    (hother : ∀ out, out ≠ o → w'.chip.volume out = w.chip.volume out ∧
      (Pending w.chip out → Pending w'.chip out))
    (hlast : w'.chip.panel_master_last = w.chip.panel_master_last)
    (hhdb : w'.chip.panel_out_hdb = w.chip.panel_out_hdb) : WheelSafe ⟨w', mark⟩ := by
  -- The other outputs keep their masters, and `o` has a step of its control.
  have hsteps : StepsOk w'.chip := fun out side => by
    by_cases he : out = o
    · subst he
      exact ho side
    · have hv := (hother out he).1
      simp only [Chip.volume, Prod.mk.injEq] at hv
      rw [hv.1]
      exact h.steps out side
  refine h.step hl hw hsteps hlast hhdb fun out hout _ => ?_
  by_cases he : out = o
  -- What follows the write of `o` is no master of the wheel, so its words are the last ones.
  · subst he
    refine .inl fun side => ?_
    rw [Registers.last_append, hvs.last_eq_none (reg8_isOutWheel hout side), Option.none_or]
    exact (last_outRegs_self w'.chip out side).1
  -- The write of `o` misses the registers of the others.
  · refine .inr ⟨fun side => ?_, hother out he⟩
    rw [Registers.last_append, hvs.last_eq_none (reg8_isOutWheel hout side), Option.none_or]
    exact (last_outRegs_ne he side _ _ _ _).1

/-- A new master within the range. -/
theorem cacheMaster_stepsOk {c : Chip} (h : StepsOk c) (o : Out) {l r : U16}
    (hl : (l.toNat : ℤ) ≤ BF_MASTER_STEP_MAX) (hr : (r.toNat : ℤ) ≤ BF_MASTER_STEP_MAX) :
    StepsOk (cacheMaster o l r c) := by
  intro out side
  show ((Function.update c.master o ![l, r] out side).toNat : ℤ) ≤ _
  by_cases ho : out = o
  · subst ho
    rw [Function.update_self]
    match side with
    | 0 => exact hl
    | 1 => exact hr
  · rw [Function.update_of_ne ho]
    exact h out side

/-- A put keeps the steps in their range. -/
theorem Setting.stepsOk {ctl : Ctl} {x : ElemValue} {s : Setting} (hs : ctl.setting x = some s) {c : Chip}
    (h : StepsOk c) : StepsOk (s.cache c) := by
  cases s with
  | master o l r =>
    have hword : ∀ v : ℤ, within v 0 BF_MASTER_STEP_MAX = true →
        ((BitVec.ofInt 16 v).toNat : ℤ) ≤ BF_MASTER_STEP_MAX := by
      intro v hv
      obtain ⟨hlow, hhigh⟩ : 0 ≤ v ∧ v ≤ BF_MASTER_STEP_MAX := by simpa [within] using hv
      have hlt : v < ((2 ^ 16 : ℕ) : ℤ) := lt_of_le_of_lt hhigh (by decide)
      rw [BitVec.toNat_ofInt, Int.toNat_of_nonneg (Int.emod_nonneg _ (by decide)),
        Int.emod_eq_of_lt hlow hlt]
      exact hhigh
    cases ctl <;> simp only [Ctl.setting, Option.ite_none_right_eq_some, Option.some.injEq,
      reduceCtorEq, and_false, Setting.master.injEq, Bool.and_eq_true] at hs
    obtain ⟨⟨hl, hr⟩, rfl, rfl, rfl⟩ := hs
    exact cacheMaster_stepsOk h _ (hword _ hl) (hword _ hr)
  | _ => exact h

/-- The masters' puts write their output in full. -/
theorem put_safe (k : Clock) (x : ElemValue) {ctl : Ctl} (hb : ctl.isMasterPut = true)
    {mark : Out → Option ℕ} {w : World} (h : WheelSafe ⟨w, mark⟩) (hd : w.chip.DimSaved) :
    WheelSafe ⟨(bfPut k x ctl w).2, mark⟩ := by
  obtain ⟨s, hs, hh⟩ | ⟨pair, rfl⟩ | ⟨-, hr⟩ := bfPut_cases k x ctl
  · obtain ⟨-, hp⟩ | ⟨hsame, w', hp, hc, hw, hl'⟩ := hh.run_live h.live
    -- The put found its value cached, and does nothing.
    · rw [hp]
      exact h
    -- Else it writes one output in full, from the cache that it leaves.
    · obtain ⟨o, vs, hwrites, hvs, hother, hpanel⟩ :=
        Setting.serves hs hb (c := w.chip.quiet) hd hsame
      rw [hwrites] at hw
      rw [hp]
      have hmix : w'.chip.toMixer = (s.cache w.chip.quiet).toMixer := by rw [Chip.quiet_eq hc]
      have hpan : w'.chip.toPanel = w.chip.toPanel := by
        rw [Chip.quiet_eq hc]
        exact hpanel
      have hsteps : StepsOk w'.chip := by
        unfold StepsOk
        rw [hmix]
        exact Setting.stepsOk hs h.steps
      have hregs : w'.chip.outRegs o = (s.cache w.chip.quiet).outRegs o := by
        unfold Chip.outRegs
        rw [hmix]
      rw [← hregs] at hw
      refine h.serve o hl' hw (hvs.mono fun _ => Reg.isMaster_of_isOutWheel) (hsteps o)
        (fun out ho => ⟨?_, ?_⟩) (by rw [hpan]) (by rw [hpan])
      · have hv : (s.cache w.chip.quiet).volume out = w.chip.volume out := hother out ho
        rw [← hv]
        unfold Chip.volume
        rw [hmix]
      · unfold Pending
        rw [hpan]
        exact id
  · cases hb
  · obtain ⟨e, -, hp⟩ := hr w
    rw [hp]
    exact h

/-! ## The wheel -/

/-- Muted, the firmware's changes are written over. -/
theorem remute_safe {mark : Out → Option ℕ} {w : World} (h : WheelSafe ⟨w, mark⟩) {o : Out}
    (hm : w.chip.muted o = true) : WheelSafe ⟨(bfPanelRemute o w).2, mark⟩ := by
  obtain ⟨w', hrun, hc, hw, hl'⟩ := (post8_moves o BF_MASTER_MUTE BF_MASTER_MUTE).run_live h.live
  have hmix : w'.chip.toMixer = w.chip.toMixer := by rw [Chip.quiet_eq hc]; rfl
  have hpan : w'.chip.toPanel = w.chip.toPanel := by rw [Chip.quiet_eq hc]; rfl
  have hsteps : StepsOk w'.chip := by
    unfold StepsOk
    rw [hmix]
    exact h.steps
  unfold bfPanelRemute
  rw [hrun]
  -- Neither master that is written here belongs to an output at the wheel's level.
  refine h.step hl' hw hsteps (by rw [hpan]) (by rw [hpan]) fun out _ ho => .inr ⟨fun side => ?_, ?_, ?_⟩
  · have hne : out ≠ o := fun he => by
      have hoff := ho.unmuted
      rw [hmix, he, hm] at hoff
      cases hoff
    exact last_regs8_ne hne side _ _
  · unfold Chip.volume
    rw [hmix]
  · unfold Pending
    rw [hpan]
    exact id

/-- A turn of the balance leaves the outputs as their resync finds them. -/
theorem balanceWheel_safe {mark : Out → Option ℕ} {w : World} (h : WheelSafe ⟨w, mark⟩) (delta : ℤ) :
    WheelSafe ⟨(bfPanelBalanceWheel delta w).2, mark⟩ := by
  unfold bfPanelBalanceWheel
  rw [Bus.M.bind_of_ok (Bus.M.get_run w), Bus.M.ite_run]
  split
  -- Muted, the mute is written over.
  · exact remute_safe h ‹_›
  rw [Bus.M.ite_run]
  split
  -- At the floor there is nothing to balance.
  · exact h
  -- The balance writes its output in full, and the others keep their volume.
  · obtain ⟨hl, hr⟩ := balanceTurn_le w.chip h.steps (bfPanelOutPair w.chip) delta
    generalize balanceTurn (balanceLevels w.chip (bfPanelOutPair w.chip)) delta = db at hl hr ⊢
    generalize bfPanelOutPair w.chip = o
    obtain ⟨w', hm, hc, hw, hl'⟩ :=
      (bfPanelWriteMaster_moves o (wheelStep db.1) (wheelStep db.2)).run_live h.live
    have hmix : w'.chip.toMixer = (cacheMaster o (wheelStep db.1) (wheelStep db.2) w.chip).toMixer := by
      rw [Chip.quiet_eq hc]
      rfl
    have hpan : w'.chip.toPanel = w.chip.toPanel := by rw [Chip.quiet_eq hc]; rfl
    have hsteps := cacheMaster_stepsOk h.steps o (wheelStep_le hl) (wheelStep_le hr)
    have hregs : outRegs o (w.chip.muted o) (o = 1 && w.chip.dim) (wheelStep db.1) (wheelStep db.2) =
        w'.chip.outRegs o ++ [] := by
      have hup : (cacheMaster o (wheelStep db.1) (wheelStep db.2) w.chip).master o =
          ![wheelStep db.1, wheelStep db.2] := Function.update_self _ _ _
      unfold Chip.outRegs
      rw [List.append_nil, hmix, hup]
      rfl
    rw [hm]
    refine h.serve o hl' (hw.trans (congrArg _ hregs)) .nil (fun side => ?_) (fun out ho => ⟨?_, ?_⟩)
      (by rw [hpan]) (by rw [hpan])
    · rw [hmix]
      exact hsteps o side
    · rw [← cacheMaster_volume ho (wheelStep db.1) (wheelStep db.2) w.chip]
      unfold Chip.volume
      rw [hmix]
    · unfold Pending
      rw [hpan]
      exact id

/-- The resync settles the output that it is for. -/
theorem resync_safe {mark : Out → Option ℕ} {w : World} (h : WheelSafe ⟨w, mark⟩) (now : ℤ) :
    WheelSafe ⟨(bfPanelOutResync now w).2, mark⟩ := by
  unfold bfPanelOutResync
  rw [Bus.M.bind_of_ok (Bus.M.get_run w), Bus.M.ite_run]
  split
  · exact h
  rename_i hdue
  have hresync : w.chip.panel_out_resync = true := by
    by_contra hoff
    exact hdue (.inl hoff)
  -- The flag falls: what it stands for is served now, or is not owed.
  let w₀ : World := { w with chip := { w.chip with panel_out_resync := false } }
  let o := w.chip.panel_out_wheel_out
  have hidle : ¬ WheelLevel w.chip o → WheelSafe ⟨w₀, mark⟩ := fun hnot => by
    refine WheelSafe.step h h.live (List.append_nil _).symm h.steps rfl rfl fun out _ ho => ?_
    have hlevel : WheelLevel w.chip out := ho.congr rfl rfl
    refine .inr ⟨fun _ => rfl, rfl, fun hp => absurd hlevel ?_⟩
    rw [← hp.2]
    exact hnot
  rw [Bus.M.bind_of_ok (Bus.M.modify_run _ w), Bus.M.ite_run, Bus.M.ite_run]
  split
  -- The masters were put since, or lie below the floor: no rewrite is owed.
  · rename_i hcond
    refine hidle fun hlevel => ?_
    obtain ⟨side, hne | hlow⟩ := hcond
    · exact hne (hlevel.tracked side)
    · have hmin := hlevel.floor side
      rw [hlevel.tracked side] at hmin
      have hhdb := h.level (hlevel.clicked h.steps side) hmin
      exact absurd hlow (by rw [hhdb]; exact not_lt.mpr hmin)
  split
  -- Nor is one while the output is muted.
  · rename_i hmute
    exact hidle fun hlevel => absurd (hlevel.unmuted.symm.trans hmute) (by decide)
  -- The output is written in full, as its cache has it.
  · rename_i hmute
    obtain ⟨w', hm, hc, hw, hl'⟩ := (postOut_moves o false (o = 1 && w.chip.dim)
      (w.chip.master o 0) (w.chip.master o 1)).run_live (w := w₀) h.live
    have hmix : w'.chip.toMixer = w.chip.toMixer := by rw [Chip.quiet_eq hc]; rfl
    have hlast : w'.chip.panel_master_last = w.chip.panel_master_last := by rw [Chip.quiet_eq hc]; rfl
    have hhdb : w'.chip.panel_out_hdb = w.chip.panel_out_hdb := by rw [Chip.quiet_eq hc]; rfl
    have hregs : outRegs o false (o = 1 && w.chip.dim) (w.chip.master o 0) (w.chip.master o 1) =
        w'.chip.outRegs o ++ [] := by
      unfold Chip.outRegs
      rw [List.append_nil, hmix, (Bool.not_eq_true _).mp hmute]
    have hrun : (postOut o false (o = 1 && w.chip.dim) (w.chip.master o 0) (w.chip.master o 1) w₀).2 =
        w' := congrArg Prod.snd hm
    have hserve : WheelSafe ⟨w', mark⟩ := by
      refine h.serve o hl' (hw.trans (congrArg _ hregs)) .nil (fun side => ?_) (fun out ho => ⟨?_, ?_⟩)
        hlast hhdb
      · rw [hmix]
        exact h.steps o side
      · unfold Chip.volume
        rw [hmix]
      · exact fun hp => absurd hp.2.symm ho
    rwa [← hrun] at hserve

/-- A click that leaves the output muted, or waiting for its rewrite. -/
theorem WheelSafe.stamp {mark : Out → Option ℕ} {w : World} (h : WheelSafe ⟨w, mark⟩) {o : Out}
    (ho : o.val < 3) {n : ℕ} (hn : n ≤ w.wire.length) (hwait : WheelLevel w.chip o → Pending w.chip o) :
    WheelSafe ⟨w, stamp mark n (some o)⟩ := by
  refine ⟨h.live, h.steps, stamp_marked h.marked ho hn (Nat.le_refl _), fun {out} hm => ?_, h.level,
    fun {out} hlevel => ?_⟩
  · exact h.unmarked (stamp_eq_none hm).2
  · by_cases he : out = o
    · subst he
      exact .inr (hwait hlevel)
    · refine (h.served hlevel).imp (fun hr => ?_) id
      exact hr.keep (stamp_ne mark n he) (fun _ hm => (h.marked hm).2) (List.append_nil _).symm
        (fun _ => rfl) rfl

/-- A click on a muted output writes the mute over, and leaves the output without a level. -/
theorem remute_stamped {mark : Out → Option ℕ} {w : World} (h : WheelSafe ⟨w, mark⟩) {o : Out}
    (ho : o.val < 3) (hmute : w.chip.muted o = true) {n : ℕ} (hn : n ≤ w.wire.length) :
    WheelSafe ⟨(bfPanelRemute o w).2, stamp mark n (some o)⟩ := by
  have hsafe := remute_safe h hmute
  obtain ⟨w', hrun, hc, hw, -⟩ := (post8_moves o BF_MASTER_MUTE BF_MASTER_MUTE).run_live h.live
  unfold bfPanelRemute at hsafe ⊢
  rw [hrun] at hsafe ⊢
  refine hsafe.stamp ho (hn.trans (wire_le hw)) fun hlevel => ?_
  have hoff : w'.chip.muted o = false := hlevel.unmuted
  rw [Chip.quiet_eq hc] at hoff
  exact absurd (hmute.symm.trans hoff) (by decide)

/-- What a turn of the wheel to the levels `db` of the output `o` leaves of a card. -/
structure OutClicked (o : Out) (db : ℤ × ℤ) (w w' : World) : Prop where
  live : Live w'
  steps : StepsOk w'.chip
  pending : Pending w'.chip o
  /-- The levels of the output and their steps are noted. -/
  noted (side : Side) : w'.chip.panel_out_hdb o side = toInt16 (![db.1, db.2] side) ∧
    w'.chip.panel_master_last o side = wheelStep (![db.1, db.2] side)
  /-- The other outputs stand as they stood. -/
  kept {out : Out} : out ≠ o → w'.chip.volume out = w.chip.volume out ∧
    w'.chip.panel_master_last out = w.chip.panel_master_last out ∧
    w'.chip.panel_out_hdb out = w.chip.panel_out_hdb out
  /-- The wheel writes no 8-bit master. -/
  wire : ∃ ws, w'.wire.map Xfer.write = w.wire.map Xfer.write ++ ws ∧
    ∀ out side, last ws (reg8 out side) = none

/-- The wheel's write and its notes leave that. -/
theorem outClicked {w : World} (hlive : Live w) (hsteps : StepsOk w.chip) (o : Out) {db : ℤ × ℤ}
    (hl : db.1 ≤ 12) (hr : db.2 ≤ 12) (delta t : ℤ) :
    OutClicked o db w ((do
      bfPanelOutWheelWrite o (wheelStep db.1) (wheelStep db.2)
      Bus.M.modify (trackWheel o db delta t) : Usb Unit) w).2 := by
  -- The write caches the steps, and the notes follow without a transfer.
  have htrack : Moves (Bus.M.modify (trackWheel o db delta t)) (trackWheel o db delta t)
      (fun _ => []) fun _ => [] := Bus.Does.modify fun _ => rfl
  obtain ⟨w', hm, hc, hw, hl'⟩ := ((bfPanelOutWheelWrite_moves o (wheelStep db.1)
    (wheelStep db.2)).seq htrack fun _ => rfl).run_live hlive
  have hmix : w'.chip.toMixer = (cacheMaster o (wheelStep db.1) (wheelStep db.2) w.chip).toMixer := by
    rw [Chip.quiet_eq hc]
    rfl
  have hlast : w'.chip.panel_master_last =
      Function.update w.chip.panel_master_last o ![wheelStep db.1, wheelStep db.2] := by
    rw [Chip.quiet_eq hc]
    rfl
  have hhdb : w'.chip.panel_out_hdb =
      Function.update w.chip.panel_out_hdb o ![toInt16 db.1, toInt16 db.2] := by
    rw [Chip.quiet_eq hc]
    rfl
  have hpend : Pending w'.chip o := by
    rw [Chip.quiet_eq hc]
    exact ⟨rfl, rfl⟩
  have hstepsOk : StepsOk w'.chip := by
    unfold StepsOk
    rw [hmix]
    exact cacheMaster_stepsOk hsteps o (wheelStep_le hl) (wheelStep_le hr)
  have hnoted : ∀ side : Side, w'.chip.panel_out_hdb o side = toInt16 (![db.1, db.2] side) ∧
      w'.chip.panel_master_last o side = wheelStep (![db.1, db.2] side) := by
    rw [hlast, hhdb, Function.update_self, Function.update_self]
    exact Fin.forall_fin_two.mpr ⟨⟨rfl, rfl⟩, ⟨rfl, rfl⟩⟩
  have hkept {out : Out} (ho : out ≠ o) : w'.chip.volume out = w.chip.volume out ∧
      w'.chip.panel_master_last out = w.chip.panel_master_last out ∧
      w'.chip.panel_out_hdb out = w.chip.panel_out_hdb out := by
    refine ⟨?_, ?_, ?_⟩
    · rw [← cacheMaster_volume ho (wheelStep db.1) (wheelStep db.2) w.chip]
      unfold Chip.volume
      rw [hmix]
    · rw [hlast, Function.update_of_ne ho]
    · rw [hhdb, Function.update_of_ne ho]
  rw [List.append_nil] at hw
  have hturned : OutClicked o db w w' := ⟨hl', hstepsOk, hpend, hnoted, hkept, _, hw, fun out side =>
    (last_halves o out side 0 0 (bfOutReg16 (w.chip.muted o) (o = 1 && w.chip.dim) (wheelStep db.1))
      (bfOutReg16 (w.chip.muted o) (o = 1 && w.chip.dim) (wheelStep db.2))).2⟩
  exact (congrArg Prod.snd hm).symm ▸ hturned

/-- The level that the wheel keeps is that of the step that it wrote, of the output turned and of the
others. -/
theorem OutClicked.level {o : Out} {db : ℤ × ℤ} {w w' : World} (ht : OutClicked o db w w')
    (hle : ∀ side : Side, ![db.1, db.2] side ≤ 12) {mark : Out → Option ℕ} (h : WheelSafe ⟨w, mark⟩)
    {out : Out} {side : Side} (hne : w'.chip.panel_master_last out side ≠ 0xffff)
    (hmin : BF_OUT_WHEEL_8BIT_MIN ≤ (w'.chip.panel_master_last out side).toNat - BF_MASTER_STEP_0DB) :
    w'.chip.panel_out_hdb out side =
      (w'.chip.panel_master_last out side).toNat - BF_MASTER_STEP_0DB := by
  by_cases he : out = o
  · subst he
    obtain ⟨hhdb, hstep⟩ := ht.noted side
    rw [hstep] at hmin
    rw [hhdb, hstep]
    exact wheelStep_level (hle side) hmin
  · obtain ⟨-, hlast, hhdb⟩ := ht.kept he
    rw [hlast] at hne hmin
    rw [hhdb, hlast]
    exact h.level hne hmin

/-- A turn of an output, when no other output that waits is overtaken. -/
theorem turned_safe {mark : Out → Option ℕ} {w w' : World} (h : WheelSafe ⟨w, mark⟩) {o : Out}
    (ho : o.val < 3) {db : ℤ × ℤ} (hle : ∀ side : Side, ![db.1, db.2] side ≤ 12)
    (ht : OutClicked o db w w') {n : ℕ} (hn : n ≤ w.wire.length)
    (hfree : ∀ late, late ≠ o → Pending w.chip late → WheelLevel w.chip late →
      WheelWatch.Rewritten ⟨w, mark⟩ late) : WheelSafe ⟨w', stamp mark n (some o)⟩ := by
  obtain ⟨ws, hw, hws⟩ := ht.wire
  have hmarked : ∀ {out k}, stamp mark n (some o) out = some k → out.val < 3 ∧ k ≤ w'.wire.length :=
    fun hm => stamp_marked h.marked ho (hn.trans (wire_le hw)) (wire_le hw) hm
  refine ⟨ht.live, ht.steps, hmarked, fun {out} hm side => ?_, fun hne hmin => ht.level hle h hne hmin,
    fun {out} hlevel => ?_⟩
  -- An output that was never clicked stays without a step of the wheel.
  · obtain ⟨he, hold⟩ := stamp_eq_none hm
    show w'.chip.panel_master_last out side = _
    rw [(ht.kept he).2.1]
    exact h.unmarked hold side
  · by_cases he : out = o
    · -- The output that is turned waits for its rewrite.
      subst he
      exact .inr ht.pending
    · -- Another output stands as it stood: it was rewritten, or the click would overtake it.
      obtain ⟨hv, hlast, -⟩ := ht.kept he
      have hold : WheelLevel w.chip out := hlevel.congr hv hlast
      have hr : WheelWatch.Rewritten ⟨w, mark⟩ out := (h.served hold).elim id fun hp => hfree out he hp hold
      exact .inl (hr.keep (stamp_ne mark n he) (fun _ hm => (h.marked hm).2) hw (hws out) hv)

/-- A turn of the OUT wheel. The output that is clicked waits for its rewrite, unless it is muted; no
other output waits. -/
theorem outWheel_safe {mark : Out → Option ℕ} {w : World} (h : WheelSafe ⟨w, mark⟩) {delta : ℤ}
    (hd : delta ≠ 0) (now : ℤ) {n : ℕ} (hn : n ≤ w.wire.length)
    (hfree : ¬ WheelWatch.Overtakes ⟨w, mark⟩ (bfPanelOutPair w.chip)) :
    WheelSafe ⟨(bfPanelOutWheel delta now w).2, stamp mark n (some (bfPanelOutPair w.chip))⟩ := by
  have hlt := bfPanelOutPair_lt w.chip
  unfold bfPanelOutWheel
  rw [Bus.M.bind_of_ok (Bus.M.get_run w), Bus.M.ite_run]
  split
  · rename_i hmute
    exact remute_stamped h hlt hmute hn
  · rename_i hmute
    obtain ⟨hl, hr⟩ := outWheelLevels_le w.chip hd (clickTime w.chip now)
    generalize outWheelLevels w.chip delta (clickTime w.chip now) = db at hl hr ⊢
    have hle : ∀ side : Side, ![db.1, db.2] side ≤ 12 := Fin.forall_fin_two.mpr ⟨hl, hr⟩
    refine turned_safe h hlt hle (outClicked h.live h.steps _ hl hr delta _) hn fun late hne hp hold => ?_
    by_contra hnot
    exact hfree ⟨(Bool.not_eq_true _).mp hmute, late, hne, hp, hold, hnot⟩

/-! ## A poll -/

/-- The wheel's registers and notes decide. -/
theorem WheelWatch.Overtakes.congr {mark : Out → Option ℕ} {w w' : World} {out : Out}
    (h : WheelWatch.Overtakes ⟨w', mark⟩ out) (hwire : w'.wire = w.wire)
    (hview : w'.chip.wheelView = w.chip.wheelView) : WheelWatch.Overtakes ⟨w, mark⟩ out := by
  simp only [Chip.wheelView, Prod.mk.injEq] at hview
  obtain ⟨hmaster, hmute, hdim, hlast, -, hout, hresync⟩ := hview
  have hv : ∀ o, w'.chip.volume o = w.chip.volume o := fun o => by
    unfold Chip.volume
    rw [hmaster, hmute, hdim]
  obtain ⟨hoff, late, hne, ⟨hp₁, hp₂⟩, hlevel, hnot⟩ := h
  refine ⟨by rw [← hmute]; exact hoff, late, hne, ⟨hresync ▸ hp₁, hout ▸ hp₂⟩,
    hlevel.congr (hv late) (by rw [hlast]), fun hr => hnot ?_⟩
  obtain ⟨n, hm, hregs⟩ := hr
  refine ⟨n, hm, fun side => ?_⟩
  show last ((w'.wire.map Xfer.write).drop n) _ = some (w'.chip.word8 late side)
  rw [hwire, (words_of_volume (hv late) side).1]
  exact hregs side

/-- The wheel's stage, by mode. -/
theorem tickWheel_safe {mark : Out → Option ℕ} {w : World} (h : WheelSafe ⟨w, mark⟩) (st : Readback)
    (now : ℤ) {n : ℕ} (hn : n ≤ w.wire.length)
    (hfree : ∀ out, turns st w.chip = some out → ¬ WheelWatch.Overtakes ⟨w, mark⟩ out) :
    WheelSafe ⟨(tickWheel st now w).2, stamp mark n (turns st w.chip)⟩ := by
  unfold tickWheel
  rw [Bus.M.bind_of_ok (Bus.M.get_run w), Bus.M.ite_run]
  split
  swap
  -- Without a turn, or with one of another class, nothing is stamped.
  · rename_i hidle
    have hnone : turns st w.chip = none := if_neg fun hc => hidle ⟨hc.1, hc.2.1⟩
    rw [hnone]
    exact h
  rename_i hact
  rw [announce_then]
  -- The count of the wheel is for its control only.
  generalize max (-32768) (min (w.chip.panel_wheel + wheelDelta (w.chip.panel_prev 2) (st 2)) 32767) =
    count
  have h₁ : WheelSafe ⟨{ w with
      chip := { w.chip with panel_wheel := count }, notes := w.notes ++ [.panelWheel] }, mark⟩ :=
    h.aside (announce_aside (f := fun c : Chip => { c with panel_wheel := count }) (fun _ => rfl) _)
  rw [Bus.M.ite_run, Bus.M.ite_run, Bus.M.ite_run, Bus.M.ite_run]
  split
  -- In MIX the wheel turns faders, and while SELECT is held the balance: neither stamps.
  · rename_i hmix
    have hnone : turns st w.chip = none := if_neg fun hc => by
      rw [hc.2.2.1] at hmix
      cases hmix
    rw [hnone]
    exact h₁.aside (bfPanelMixWheel_aside _)
  rename_i hmix
  split
  · rename_i hhold
    have hnone : turns st w.chip = none := if_neg fun hc => absurd hc.2.2.2.1 (not_lt.mpr hhold.1)
    rw [hnone]
    exact balanceWheel_safe h₁ _
  rename_i hhold
  split
  -- The one mode that clicks an output.
  · rename_i hcls
    have hclick : turns st w.chip = some (bfPanelOutPair w.chip) :=
      if_pos ⟨hact.1, hact.2, (Bool.not_eq_true _).mp hmix,
        lt_of_not_ge fun hge => hhold ⟨hge, hcls⟩, hcls⟩
    rw [hclick]
    exact outWheel_safe h₁ hact.1 now hn fun ho => hfree _ hclick (ho.congr rfl rfl)
  rename_i hcls
  have hnone : turns st w.chip = none := if_neg fun hc => hcls hc.2.2.2.2
  rw [hnone]
  split
  · exact h₁.aside (bfPanelGainWheel_aside _)
  · exact h₁

/-- The button event changes the reading of the button only. -/
theorem tickButton_run (st : Readback) (w : World) : ∃ btn ns, tickButton st w =
    (.ok (), { w with chip := { w.chip with panel_button := btn }, notes := ns }) := by
  unfold tickButton
  rw [Bus.M.bind_of_ok (Bus.M.get_run w), Bus.M.ite_run]
  split
  · exact ⟨_, _, rfl⟩
  · exact ⟨w.chip.panel_button, w.notes, rfl⟩

/-- A readback turns at most one output, and stamps it. -/
theorem decode_wheelSafe {mark : Out → Option ℕ} {w : World} (h : WheelSafe ⟨w, mark⟩) (p : Poll) {n : ℕ}
    (hn : n ≤ w.wire.length)
    (hfree : ∀ out, turns p.st w.chip = some out → ¬ WheelWatch.Overtakes ⟨w, mark⟩ out) :
    WheelSafe ⟨(decode p w).2, stamp mark n (turns p.st w.chip)⟩ := by
  -- The wheel's stage stamps its output, and the resync may serve one.
  have hhead : WheelSafe ⟨(decodeHead p w).2, stamp mark n (turns p.st w.chip)⟩ := by
    obtain ⟨btn, ns, hrun⟩ := tickButton_run p.st w
    have h₁ := h.aside (tickButton_aside p.st)
    unfold decodeHead
    rw [hrun] at h₁
    rw [Bus.M.bind_of_ok hrun]
    refine Bus.holds_bind (Q := fun w' => WheelSafe ⟨w', stamp mark n (turns p.st w.chip)⟩) ?_
      fun _ w' hw => resync_safe hw p.rest
    exact tickWheel_safe h₁ p.st p.now hn fun out ho hover => hfree out ho (hover.congr rfl rfl)
  -- The other stages stand aside.
  have hQ : ∀ {m : Usb Unit}, Aside m → ∀ (_ : Unit) w',
      WheelSafe ⟨w', stamp mark n (turns p.st w.chip)⟩ →
        WheelSafe ⟨(m w').2, stamp mark n (turns p.st w.chip)⟩ := fun hm _ w' hw => hw.aside hm
  rw [decode_eq]
  refine Bus.holds_bind (Q := fun w' => WheelSafe ⟨w', _⟩) hhead fun _ w₁ h₁ => ?_
  refine Bus.holds_bind (Q := fun w' => WheelSafe ⟨w', _⟩) (hQ (decodeMid_aside p) () w₁ h₁)
    fun _ w₂ h₂ => ?_
  refine Bus.holds_bind (Q := fun w' => WheelSafe ⟨w', _⟩) (hQ (tickSet_aside p.st) () w₂ h₂)
    fun _ w₃ h₃ => ?_
  exact hQ (decodeTail_aside p) () w₃ h₃

/-- So does a tick. -/
theorem bfPanelTick_wheelSafe {mark : Out → Option ℕ} {w : World} (h : WheelSafe ⟨w, mark⟩)
    (hshut : w.chip.shutdown = false) (p : Poll)
    (hfree : ∀ out, clicks p w.chip = some out → ¬ WheelWatch.Overtakes ⟨w, mark⟩ out) :
    WheelSafe ⟨(bfPanelTick p w).2, stamp mark w.wire.length (clicks p w.chip)⟩ := by
  -- A poll receives the readback first.
  have hR := wheelView_framing
  have hrecv : Aside (Bus.M.recv Errno.usb () : Usb Unit) := hR.recv trivial ()
  have h₁ : WheelSafe ⟨{ w with usb := Bus.shift w.usb 1 }, mark⟩ := h.aside hrecv
  have hgot : (Bus.M.attempt (Bus.M.recv .usb ()) : Usb Bool) w =
      (.ok true, { w with usb := Bus.shift w.usb 1 }) := by
    have husb : w.usb 0 = true := h.live 0
    simp only [Bus.M.attempt, Bus.M.recv, husb, if_true]
  unfold bfPanelTick
  rw [Bus.M.bind_of_ok hgot, Bus.M.when, if_pos rfl, Bus.M.bind_of_ok (Bus.M.get_run _), Bus.M.ite_run]
  split
  -- Once the panel was seen, the readback is decoded.
  · rename_i hseen
    have hclicks : clicks p w.chip = turns p.st w.chip := if_pos ⟨hshut, hseen⟩
    rw [hclicks] at hfree ⊢
    exact decode_wheelSafe h₁ p (Nat.le_refl _) fun out ho hover => hfree out ho (hover.congr rfl rfl)
  -- The first snapshot clicks nothing.
  · rename_i hseen
    have hclicks : clicks p w.chip = none := if_neg fun hc => hseen hc.2
    rw [hclicks]
    exact h₁.aside (hR.modify fun _ => rfl)

/-- So does a poll, whatever it does besides. -/
theorem babyfacePanelWork_wheelSafe {mark : Out → Option ℕ} {w : World} (h : WheelSafe ⟨w, mark⟩)
    (p : Poll) (t : ℤ)
    (hfree : ∀ out, clicks p w.chip = some out → ¬ WheelWatch.Overtakes ⟨w, mark⟩ out) :
    WheelSafe ⟨(babyfacePanelWork p t w).2, stamp mark w.wire.length (clicks p w.chip)⟩ := by
  have hR := wheelView_framing
  have htime : Aside (Bus.M.modify (fun c : Chip => { c with panel_poll_t := t }) : Usb Unit) :=
    hR.modify fun _ => rfl
  unfold babyfacePanelWork
  rw [Bus.M.bind_of_ok (Bus.M.get_run w)]
  cases hshut : w.chip.shutdown with
  | true =>
    have hclicks : clicks p w.chip = none := if_neg fun hc => by
      rw [hshut] at hc
      cases hc.1
    rw [hclicks]
    exact h
  | false =>
    exact Bus.holds_bind (Q := fun w' => WheelSafe ⟨w', stamp mark w.wire.length (clicks p w.chip)⟩)
      (bfPanelTick_wheelSafe h hshut p hfree) fun _ _ hw => hw.aside htime

/-! ## Every run -/

/-- A new card has no click behind it. -/
theorem Probed.wheelSafe {st0 : U8} {reprobe : Bool} {jiffies : ℤ} {p : Params} {w : World}
    (h : Probed st0 reprobe jiffies p w) :
    WheelSafe ⟨{ w with wire := [], usb := fun _ => true }, fun _ => none⟩ := by
  obtain ⟨st, hq, -⟩ := babyfaceProbe_run h
  have hchip : w.chip.quiet = (probedChip st reprobe jiffies p).quiet := by rw [← hq, Chip.quiet_quiet]
  -- The device's start notes no level for any output.
  have hlast : w.chip.panel_master_last = fun _ _ => 0xffff := by
    rw [Chip.quiet_eq hchip]
    rfl
  have hsteps : StepsOk w.chip := fun out side => by
    have hmaster : w.chip.master out = ![defaultStep out, defaultStep out] := by
      rw [Chip.quiet_eq hchip]
      exact (cacheDefaultMixer_masters (readChip st p) out).1
    have hrange : ∀ out side, ((![defaultStep out, defaultStep out] side).toNat : ℤ) ≤
        BF_MASTER_STEP_MAX := by decide
    rw [hmaster]
    exact hrange out side
  refine ⟨fun _ => rfl, hsteps, fun hm => (nomatch hm), fun {out} _ side => ?_, fun {out side} hne _ => ?_,
    fun {out} hlevel => ?_⟩
  · exact congrFun (congrFun hlast out) side
  · exact absurd (congrFun (congrFun hlast out) side) hne
  · exact absurd (congrFun (congrFun hlast out) 0) (hlevel.clicked hsteps 0)

/-- One step. -/
theorem WheelStep.safe {m m' : WheelWatch} (hs : WheelStep (fun m out => ¬ m.Overtakes out) m m')
    (h : WheelSafe m) (hc : m.w.chip.Sound) : WheelSafe m' ∧ m'.w.chip.Sound := by
  cases hs with
  | poll p t hfree =>
    have hstep : CardStep m.w (babyfacePanelWork p t m.w).2 := .poll p t m.w
    exact ⟨babyfacePanelWork_wheelSafe h p t hfree, hstep.sound hc⟩
  | put k x hb => exact ⟨put_safe k x hb h hc.dim, bfPut_sound k x _ hc⟩

/-- Along a run without overtaking clicks every output is safe. -/
theorem WheelRun.safe {m : WheelWatch} (h : WheelRun (fun m out => ¬ m.Overtakes out) m) :
    WheelSafe m ∧ m.w.chip.Sound := by
  induction h with
  | probe hp => exact ⟨hp.wheelSafe, hp.sound⟩
  | step _ hs ih => exact hs.safe ih.1 ih.2

/-- In every run whose clicks overtake no output, whenever no resync is pending every output at the
wheel's level has been rewritten since its last click. -/
theorem resync_reaches {m : WheelWatch} (h : WheelRun (fun m out => ¬ m.Overtakes out) m) :
    m.Reached := by
  intro hoff out hlevel
  obtain hr | hp := h.safe.1.served hlevel
  · exact hr
  · exact absurd (hp.1.symm.trans hoff) (by decide)

/-! ## Two gestures -/

/-- A new card. -/
def freshWheel : WheelWatch := ⟨{ freshCard with wire := [], usb := fun _ => true }, fun _ => none⟩

/-- The watch after polls that read `l`, each with its time in milliseconds. -/
def WheelWatch.polls (m : WheelWatch) : List (Readback × ℤ) → WheelWatch
  | [] => m
  | (st, ms) :: l => (m.poll ⟨st, ms * 1000000, ms * 1000000⟩ (ms * 1000000)).polls l

/-- The first snapshot, and a click on output 0. -/
def clickedWheel : WheelWatch := freshWheel.polls [(![0, 0, 0x80, 0], 980), (![0, 0, 0x81, 0], 1000)]

/-- The click, and a rest. -/
def restedWheel : WheelWatch := clickedWheel.polls [(![0, 0, 0x81, 0], 1300)]

/-- The click, a new OUT selection, a click on output 1 within the quiet time, and a rest. -/
def overtakenWheel : WheelWatch :=
  clickedWheel.polls [(![0, 1, 0x81, 0], 1020), (![0, 1, 0x82, 0], 1040), (![0, 1, 0x82, 0], 1300)]

/-- Polls are steps, when no click of theirs violates the condition. -/
theorem WheelRun.polls {ok : WheelWatch → Out → Prop} {m : WheelWatch} (h : WheelRun ok m)
    (l : List (Readback × ℤ)) (hok : ∀ m out, ok m out) : WheelRun ok (m.polls l) := by
  induction l generalizing m with
  | nil => exact h
  | cons x l ih => exact ih (h.step (.poll _ _ fun out _ => hok m out))

/-- The gesture that rests is rewritten. -/
theorem resync_reaches_rest : restedWheel.Rewritten 0 := by
  have hsnap : WheelRun (fun m out => ¬ m.Overtakes out) (freshWheel.polls [(![0, 0, 0x80, 0], 980)]) := by
    refine (WheelRun.probe freshCard_probed).step (.poll _ _ fun out hc => ?_)
    cases hc.symm.trans (show clicks _ _ = none by decide +kernel)
  have hclick : WheelRun (fun m out => ¬ m.Overtakes out) clickedWheel := by
    refine hsnap.step (.poll _ _ fun out _ hover => ?_)
    obtain ⟨-, late, -, hp, -⟩ := hover
    exact absurd hp.1 (by decide +kernel)
  have hrest : WheelRun (fun m out => ¬ m.Overtakes out) restedWheel := by
    refine hclick.step (.poll _ _ fun out hc => ?_)
    cases hc.symm.trans (show clicks _ _ = none by decide +kernel)
  exact resync_reaches hrest (by decide +kernel) 0
    ⟨by decide +kernel, by decide +kernel, by decide +kernel⟩

/-- The gesture that moves on leaves the first output's 8-bit masters to the firmware. -/
theorem resync_overtaken : ¬ ∀ m, WheelRun (fun _ _ => True) m → m.Reached := by
  intro hall
  have hrun : WheelRun (fun _ _ => True) overtakenWheel :=
    ((WheelRun.probe freshCard_probed).polls _ fun _ _ => trivial).polls _ fun _ _ => trivial
  obtain ⟨n, hm, hregs⟩ := hall _ hrun (by decide +kernel) 0
    ⟨by decide +kernel, by decide +kernel, by decide +kernel⟩
  have hmark : overtakenWheel.mark 0 = some 0 := by decide +kernel
  obtain rfl : n = 0 := Option.some.inj (hm.symm.trans hmark)
  have hnone : last ((overtakenWheel.w.wire.map Xfer.write).drop 0) (reg8 0 0) = none := by decide +kernel
  exact absurd (hnone.symm.trans (hregs 0)) (Option.some_ne_none _).symm

end BabyfacePro
