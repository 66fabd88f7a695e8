import BabyfacePro.Panel.Wheel

/-!
# The front panel's poll

`bf_panel_tick` reads four bytes and decodes them in stages: buttons, the wheel, the IN and OUT
selections, SELECT, SET, DIM and MIX. Each stage below is one block of the function, in its order.
-/

namespace BabyfacePro

open Bus.M (get modify throw each notify attempt when)

/-- The four bytes of a panel readback. -/
abbrev Readback := Fin 4 → U8

/-- The IN button flashes. -/
def BF_PANEL_FLASH_IN : U8 := 0x41
/-- The SET button flashes. -/
def BF_PANEL_FLASH_SET : U8 := 0x42
/-- The MIX button flashes, or MIX is engaged. -/
def BF_PANEL_FLASH_MIX : U8 := 0x44
/-- The OUT button flashes. -/
def BF_PANEL_FLASH_OUT : U8 := 0x48
/-- The SELECT button flashes. -/
def BF_PANEL_FLASH_SELECT : U8 := 0x50
/-- The DIM button flashes. -/
def BF_PANEL_FLASH_DIM : U8 := 0x60

/-- `bf_panel_button_decode`. -/
def bfPanelButtonDecode (flash : U8) : ℕ :=
  if flash = BF_PANEL_FLASH_IN then 1
  else if flash = BF_PANEL_FLASH_SET then 2
  else if flash = BF_PANEL_FLASH_MIX then 3
  else if flash = BF_PANEL_FLASH_OUT then 4
  else if flash = BF_PANEL_FLASH_SELECT then 5
  else if flash = BF_PANEL_FLASH_DIM then 6
  else 0

/-- `bf_panel_in_decode`, of the IN position in byte 2. -/
def bfPanelInDecode (st : Readback) : ℕ :=
  let nib := (st 2 >>> 4) &&& 0x7
  if nib = 0x04 then 1 else if nib = 0x05 then 2 else if nib = 0x06 then 3 else 0

/-- `bf_panel_out_decode`, of the OUT position in byte 1. -/
def bfPanelOutDecode (st : Readback) : ℕ :=
  let v := st 1 &&& 0x07
  if v = 0x00 ∨ v = 0x04 then 1
  else if v = 0x01 ∨ v = 0x05 then 2
  else if v = 0x02 ∨ v = 0x06 then 3
  else 0

/-- The IN pair that the panel shows. -/
def shownPair (c : Chip) : Option (Fin 3) :=
  if h : 1 ≤ c.panel_in ∧ c.panel_in ≤ 3 then some ⟨c.panel_in - 1, by omega⟩ else none

/-- The selection of the IN pair that the panel shows, `-1` without one. -/
def shownSel (c : Chip) : ℤ :=
  match shownPair c with
  | some pair => c.panel_sel pair
  | none => -1

/-- `bf_panel_sel_load`. -/
def bfPanelSelLoad (c : Chip) : Chip :=
  { c with
    panel_select_known := 0 ≤ shownSel c
    panel_select := if 0 ≤ shownSel c then shownSel c else 3 }

/-! ## The stages of a tick -/

/-- The first snapshot: it seeds the state and acts on nothing. -/
def snapshot (st : Readback) (c : Chip) : Chip :=
  let c := { c with
    panel_seen := true
    panel_prev := st
    panel_in := if bfPanelInDecode st ≠ 0 then bfPanelInDecode st else c.panel_in }
  { bfPanelSelLoad c with
    panel_out := if bfPanelOutDecode st ≠ 0 then bfPanelOutDecode st else c.panel_out
    panel_mix := st 0 &&& 0x80 ≠ 0
    panel_saw_fader := st 2 >>> 4 = 0
    panel_dim := st 1 &&& 0x20 ≠ 0 }

/-- The button event. -/
def tickButton (st : Readback) : Usb Unit := do
  let chip ← get
  let btn := bfPanelButtonDecode (st 3)
  if btn ≠ 0 ∧ chip.panel_prev 3 ≠ st 3 then
    announce (fun c => { c with panel_button := btn }) .panelButton

/-- The mode class of byte 2: fader, OUT, or IN. -/
inductive WheelClass where
  | fader
  | out
  | in
  deriving DecidableEq

/-- The mode class that a readback shows. -/
def wheelClass (byte2 : U8) : WheelClass :=
  if byte2 >>> 4 = 0x8 ∨ byte2 >>> 4 = 0x9 then .out
  else if byte2 >>> 4 = 0x0 then .fader
  else .in

/-- The turn of the wheel between two readbacks of byte 2: the difference of their counters, as a
signed 4-bit number. -/
def wheelDelta (prev byte2 : U8) : ℤ :=
  let delta : ℤ := (byte2 &&& 0x0f).toNat - (prev &&& 0x0f).toNat
  if delta > 8 then delta - 16 else if delta < -8 then delta + 16 else delta

/-- The wheel, by mode: it acts only while the mode class stays the same. -/
def tickWheel (st : Readback) (now : ℤ) : Usb Unit := do
  let chip ← get
  let delta := wheelDelta (chip.panel_prev 2) (st 2)
  let cls := wheelClass (st 2)
  if delta ≠ 0 ∧ cls = wheelClass (chip.panel_prev 2) then
    announce (fun c => { c with panel_wheel := max (-32768) (min (c.panel_wheel + delta) 32767) })
      .panelWheel
    if chip.panel_mix then bfPanelMixWheel delta
    else if chip.panel_sel_hold ≥ 10 ∧ cls = .out then bfPanelBalanceWheel delta
    else if cls = .out then bfPanelOutWheel delta now
    else if cls = .in then bfPanelGainWheel delta
    else pure ()

/-- The IN selection: the panel switches to the selection of the new pair. -/
def tickIn (st : Readback) : Usb Unit := do
  let chip ← get
  let sel := bfPanelInDecode st
  if sel ≠ 0 ∧ sel ≠ chip.panel_in then
    announce (fun c => { bfPanelSelLoad { c with panel_in := sel } with panel_select_armed := false })
      .panelIn

/-- The OUT selection. -/
def tickOut (st : Readback) : Usb Unit := do
  let chip ← get
  let sel := bfPanelOutDecode st
  if sel ≠ 0 ∧ sel ≠ chip.panel_out then
    announce (fun c => { c with panel_out := sel }) .panelOut

/-- A press edge of a button: byte 3 shows its flash and did not before. -/
def pressed (flash : U8) (st : Readback) (c : Chip) : Bool := st 3 = flash && c.panel_prev 3 ≠ flash

/-- A step of the selection of the pair shown. -/
def stepSelect (pair : Fin 3) (c : Chip) : Chip :=
  { c with
    panel_select := (c.panel_select + 1) % 4
    panel_sel := Function.update c.panel_sel pair ((c.panel_select + 1) % 4) }

/-- SELECT: the first press after an IN switch only shows the selection, the next ones step it. -/
def tickSelect (st : Readback) : Usb Unit := do
  let chip ← get
  if pressed BF_PANEL_FLASH_SELECT st chip && chip.panel_select_known then
    if chip.panel_select_armed then
      match shownPair chip with
      | none => throw .fault
      | some pair => do
        announce (stepSelect pair) (.panelSelect pair)
        when chip.panel_mix (modify bfPanelMixSeed)
    else
      modify fun c => { c with panel_select_armed := true }

/-- How long SELECT has been held. -/
def tickHold (st : Readback) : Usb Unit :=
  modify fun c =>
    { c with panel_sel_hold := if st 3 = BF_PANEL_FLASH_SELECT then c.panel_sel_hold + 1 else 0 }

/-- The 48V bits of the selected microphones. -/
def phantomBits (c : Chip) : U16 :=
  (if c.panel_select ≠ 1 then BF_PREAMP_48V_MIC1 else 0) |||
    (if c.panel_select ≠ 0 then BF_PREAMP_48V_MIC2 else 0)

/-- The preamp byte after SET: one microphone is toggled, both are aligned. -/
def phantomToggle (c : Chip) : U16 :=
  let bits := phantomBits c
  if c.panel_select = 2 then
    if c.preamp &&& bits = bits then c.preamp &&& ~~~bits else c.preamp ||| bits
  else c.preamp ^^^ bits

/-- The preamp byte after SET, in the cache. -/
def cachePhantom (c : Chip) : Chip := { c with preamp := phantomToggle c }

/-- What follows a write of the phantom bits: the switches that changed are announced. -/
def phantomNotify (old : U16) : Usb Unit := do
  let c ← get
  when ((c.preamp ^^^ old) &&& BF_PREAMP_48V_MIC1 ≠ 0) (notify (.phantom 0))
  when ((c.preamp ^^^ old) &&& BF_PREAMP_48V_MIC2 ≠ 0) (notify (.phantom 1))
  modify fun c => { c with panel_mix_disp := fun _ => 0 }

/-- `bf_panel_set_phantom`. A failed write puts the byte back. -/
def bfPanelSetPhantom : Usb Unit := do
  let chip ← get
  if chip.panel_mix ∨ chip.panel_in ≠ 1 ∨ chip.panel_select = 3 then
    return
  Bus.M.ignore (Bus.M.settle cachePhantom bfPreampStateWrite restorePreamp)
  phantomNotify chip.preamp

/-- SET. -/
def tickSet (st : Readback) : Usb Unit := do
  let chip ← get
  when (pressed BF_PANEL_FLASH_SET st chip) bfPanelSetPhantom

/-- DIM: the presses are counted. -/
def tickDimPress (st : Readback) : Usb Unit := do
  let chip ← get
  when (pressed BF_PANEL_FLASH_DIM st chip)
    (announce (fun c => { c with dim_press_count := (c.dim_press_count + 1) % 2 ^ 31 }) .dimPress)

/-- The writes and the flags of leaving MIX. -/
def mixExit : Usb Unit := do
  post BF_REQ_PREAMP 0x0400 0x8000
  post BF_REQ_PREAMP 0x0400 0x8080
  announce (fun c => { c with panel_mix := false, panel_saw_fader := false }) .panelMix

/-- The level display of the reference source as MIX is engaged. -/
def mixSeedDisp : Usb Unit := do
  let chip ← get
  if h : (mixRef chip).val < 4 then
    post BF_REQ_GAIN (.ofInt 16 (bfMixDisplay chip.panel_mix_db2)) (BF_REG_PANEL_GAIN + mixRef chip)
    modify fun c =>
      { c with
        panel_mix_disp :=
          Function.update c.panel_mix_disp ⟨mixRef chip, h⟩ (.ofInt 8 (bfMixDisplay c.panel_mix_db2)) }

/-- The writes and the seeds of engaging MIX. -/
def mixEngage : Usb Unit := do
  post BF_REQ_PREAMP 0x8480 0x8c80
  modify fun c => { bfPanelMixSeed { c with panel_mix := true } with panel_mix_disp := fun _ => 0 }
  mixSeedDisp
  notify .panelMix

/-- MIX: a press engages or leaves it. -/
def tickMix (st : Readback) : Usb Unit := do
  let chip ← get
  when (pressed BF_PANEL_FLASH_MIX st chip) (if chip.panel_mix then mixExit else mixEngage)

/-- Fader mode: once it was seen, the device may leave MIX by itself. -/
def tickFader (st : Readback) : Usb Unit := do
  let chip ← get
  if st 2 >>> 4 = 0x0 then
    when chip.panel_mix (modify fun c => { c with panel_saw_fader := true })
  else
    when (chip.panel_mix && chip.panel_saw_fader && st 3 ≠ BF_PANEL_FLASH_MIX) mixExit

/-- The panel's DIM light. -/
def tickDim (st : Readback) : Usb Unit := do
  let chip ← get
  let dim : Bool := st 1 &&& 0x20 ≠ 0
  if dim ≠ chip.panel_dim then
    announce (fun c => { c with panel_dim := dim }) .panelDim

/-! ## What the stages leave alone -/

section Frames

variable {R : Chip → Chip → Prop} {T : Reg × Datum → Prop} {X : Errno → Prop}

/-- The buttons of a readback change the cached button only. -/
theorem tickButton_frames (hR : Bus.Framing R) (hb : ∀ (c : Chip) btn, R c { c with panel_button := btn })
    (st : Readback) : Bus.Frames Xfer.write R T X (tickButton st) := by
  unfold tickButton
  exact hR.bind hR.get fun c =>
    hR.ite _ (fun _ => announce_frames hR (fun c => hb c _) _) fun _ => hR.pure _

/-- Its clicks change the cached value, and what the wheel's handlers change. -/
theorem tickWheel_frames (h : WheelFrame R T) (hw : ∀ (c : Chip) n, R c { c with panel_wheel := n })
    (hm : ∀ out l r c, R c (cacheMaster out l r c))
    (ht : ∀ out db delta now c, out.val < 3 → R c (trackWheel out db delta now c))
    (hg : ∀ (c : Chip) gain, R c { c with gain := gain })
    (hx : ∀ out src l r c, R c (cacheXpoint out src l r c))
    (hd : ∀ (c : Chip) db2, R c { c with panel_mix_db2 := db2 })
    (hv : ∀ (c : Chip) disp, R c { c with panel_mix_disp := disp }) (st : Readback) (now : ℤ) :
    Bus.Frames Xfer.write R T X (tickWheel st now) := by
  have hR := h.framing
  unfold tickWheel
  refine hR.bind hR.get fun c => hR.ite _ (fun _ => ?_) fun _ => hR.pure _
  refine hR.bind (announce_frames hR (fun c => hw c _) _) fun _ => ?_
  refine hR.ite _ (fun _ => bfPanelMixWheel_frames h hx hd hv _) fun _ => ?_
  refine hR.ite _ (fun _ => bfPanelBalanceWheel_frames h hm _) fun _ => ?_
  refine hR.ite _ (fun _ => bfPanelOutWheel_frames h hm ht _ _) fun _ => ?_
  exact hR.ite _ (fun _ => bfPanelGainWheel_frames h hg _) fun _ => hR.pure _

/-- A new input selection loads its channels. -/
theorem tickIn_frames (hR : Bus.Framing R)
    (hi : ∀ (c : Chip) sel,
      R c { bfPanelSelLoad { c with panel_in := sel } with panel_select_armed := false })
    (st : Readback) : Bus.Frames Xfer.write R T X (tickIn st) := by
  unfold tickIn
  exact hR.bind hR.get fun c =>
    hR.ite _ (fun _ => announce_frames hR (fun c => hi c _) _) fun _ => hR.pure _

/-- A new output selection is cached. -/
theorem tickOut_frames (hR : Bus.Framing R) (ho : ∀ (c : Chip) sel, R c { c with panel_out := sel })
    (st : Readback) : Bus.Frames Xfer.write R T X (tickOut st) := by
  unfold tickOut
  exact hR.bind hR.get fun c =>
    hR.ite _ (fun _ => announce_frames hR (fun c => ho c _) _) fun _ => hR.pure _

/-- SELECT steps through the channels, or is armed for it. -/
theorem tickSelect_frames (hR : Bus.Framing R) (hX : X .fault) (hs : ∀ pair c, R c (stepSelect pair c))
    (ha : ∀ c : Chip, R c { c with panel_select_armed := true }) (hd : ∀ c, R c (bfPanelMixSeed c))
    (st : Readback) : Bus.Frames Xfer.write R T X (tickSelect st) := by
  unfold tickSelect
  refine hR.bind hR.get fun c => hR.ite _ (fun _ => ?_) fun _ => hR.pure _
  refine hR.ite _ (fun _ => ?_) fun _ => hR.modify ha
  split
  · exact hR.throw hX
  · exact hR.bind (announce_frames hR (hs _) _) fun _ => hR.when _ fun _ => hR.modify hd

/-- The hold of SELECT is counted. -/
theorem tickHold_frames (hR : Bus.Framing R) (hh : ∀ (c : Chip) n, R c { c with panel_sel_hold := n })
    (st : Readback) : Bus.Frames Xfer.write R T X (tickHold st) :=
  hR.modify fun c => hh c _

/-- The preamp's write changes nothing of the cache. -/
theorem bfPreampStateWrite_frames (hR : Bus.Framing R) (hX : X .usb)
    (hp : ∀ v, T (word BF_REQ_PREAMP BF_REG_PREAMP v)) (hc : ∀ v, T (word BF_REQ_PREAMP_COMMIT 0 v)) :
    Bus.Frames Xfer.write R T X bfPreampStateWrite :=
  hR.bind hR.get fun _ => hR.bind (hR.send hX (hp _)) fun _ =>
    hR.bind hR.get fun _ => hR.send hX (hc _)

/-- SET changes 48V in the cache. -/
theorem tickSet_frames (hR : Bus.Framing R) (hp : ∀ (c : Chip) v, R c { c with preamp := v })
    (hv : ∀ (c : Chip) disp, R c { c with panel_mix_disp := disp })
    (hw : ∀ v, T (word BF_REQ_PREAMP BF_REG_PREAMP v)) (hc : ∀ v, T (word BF_REQ_PREAMP_COMMIT 0 v))
    (st : Readback) : Bus.Frames Xfer.write R T X (tickSet st) := by
  have hn : ∀ old, Bus.Frames Xfer.write R T X (phantomNotify old) := fun old =>
    hR.bind hR.get fun _ => hR.bind (hR.when _ fun _ => hR.notify _) fun _ =>
      hR.bind (hR.when _ fun _ => hR.notify _) fun _ => hR.modify fun c => hv c _
  unfold tickSet bfPanelSetPhantom
  refine hR.bind hR.get fun _ => hR.when _ fun _ => hR.bind hR.get fun _ =>
    hR.ite _ (fun _ => hR.pure _) fun _ => hR.bind (hR.ignore (Y := fun _ => True) ?_) fun _ => hn _
  exact hR.bind hR.get fun _ => hR.bind (hR.modify fun c => hp c _) fun _ =>
    hR.rollback (bfPreampStateWrite_frames hR trivial hw hc) fun c => hp c _

/-- A press of DIM is counted. -/
theorem tickDimPress_frames (hR : Bus.Framing R)
    (hp : ∀ (c : Chip) n, R c { c with dim_press_count := n }) (st : Readback) :
    Bus.Frames Xfer.write R T X (tickDimPress st) :=
  hR.bind hR.get fun _ => hR.when _ fun _ =>
    announce_frames hR (fun c => hp c _) _

/-- The transfers that engage and leave MIX. -/
structure MixXfers (T : Reg × Datum → Prop) : Prop where
  engage : T (word BF_REQ_PREAMP 0x8c80 0x8480)
  leave : T (word BF_REQ_PREAMP 0x8000 0x0400)
  leave' : T (word BF_REQ_PREAMP 0x8080 0x0400)

/-- Leaving MIX clears its two flags. -/
theorem mixExit_frames (hR : Bus.Framing R) (hx : MixXfers T)
    (hm : ∀ c : Chip, R c { c with panel_mix := false, panel_saw_fader := false }) :
    Bus.Frames Xfer.write R T X mixExit :=
  hR.bind (post_frames hR hx.leave) fun _ =>
    hR.bind (post_frames hR hx.leave') fun _ => announce_frames hR hm _

/-- The MIX key engages it, or leaves it. -/
theorem tickMix_frames (h : WheelFrame R T) (hx : MixXfers T)
    (hm : ∀ c : Chip, R c { c with panel_mix := false, panel_saw_fader := false })
    (hd : ∀ c : Chip, R c { bfPanelMixSeed { c with panel_mix := true } with panel_mix_disp := fun _ => 0 })
    (hv : ∀ (c : Chip) disp, R c { c with panel_mix_disp := disp }) (st : Readback) :
    Bus.Frames Xfer.write R T X (tickMix st) := by
  have hR := h.framing
  have hs : Bus.Frames Xfer.write R T X mixSeedDisp := by
    unfold mixSeedDisp
    refine hR.bind hR.get fun c => ?_
    split
    · exact hR.bind (post_frames hR (h.gain _ _)) fun _ => hR.modify fun c => hv c _
    · exact hR.pure _
  have he : Bus.Frames Xfer.write R T X mixEngage :=
    hR.bind (post_frames hR hx.engage) fun _ => hR.bind (hR.modify hd) fun _ =>
      hR.bind hs fun _ => hR.notify _
  exact hR.bind hR.get fun _ => hR.when _ fun _ =>
    hR.ite _ (fun _ => mixExit_frames hR hx hm) fun _ => he

/-- The display of the fader is seen, or MIX is left for it. -/
theorem tickFader_frames (hR : Bus.Framing R) (hx : MixXfers T)
    (hm : ∀ c : Chip, R c { c with panel_mix := false, panel_saw_fader := false })
    (hf : ∀ c : Chip, R c { c with panel_saw_fader := true }) (st : Readback) :
    Bus.Frames Xfer.write R T X (tickFader st) := by
  unfold tickFader
  exact hR.bind hR.get fun _ => hR.ite _ (fun _ => hR.when _ fun _ => hR.modify hf) fun _ =>
    hR.when _ fun _ => mixExit_frames hR hx hm

/-- What the panel shows of DIM is cached. -/
theorem tickDim_frames (hR : Bus.Framing R) (hd : ∀ (c : Chip) dim, R c { c with panel_dim := dim })
    (st : Readback) : Bus.Frames Xfer.write R T X (tickDim st) := by
  unfold tickDim
  exact hR.bind hR.get fun c =>
    hR.ite _ (fun _ => announce_frames hR (fun c => hd c _) _) fun _ => hR.pure _

end Frames

/-! ## A tick -/

/-- A poll: the bytes read back, and the times of its wheel and resync stages. -/
structure Poll where
  st : Readback
  now : ℤ
  rest : ℤ

/-- A tick after the first. -/
def decode (p : Poll) : Usb Unit := do
  tickButton p.st
  tickWheel p.st p.now
  bfPanelOutResync p.rest
  tickIn p.st
  tickOut p.st
  tickSelect p.st
  tickHold p.st
  tickSet p.st
  tickDimPress p.st
  tickMix p.st
  tickFader p.st
  tickDim p.st
  modify fun c => { c with panel_prev := p.st }

/-- The stages of a poll up to the wheel's resync. -/
def decodeHead (p : Poll) : Usb Unit := do
  tickButton p.st
  tickWheel p.st p.now
  bfPanelOutResync p.rest

/-- The stages of a poll from the IN selection to SELECT. -/
def decodeMid (p : Poll) : Usb Unit := do
  tickIn p.st
  tickOut p.st
  tickSelect p.st
  tickHold p.st

/-- The stages of a poll after SET. -/
def decodeTail (p : Poll) : Usb Unit := do
  tickDimPress p.st
  tickMix p.st
  tickFader p.st
  tickDim p.st
  modify fun c => { c with panel_prev := p.st }

/-- The decoding of a readback is its head, its middle, the SET key and its tail. -/
theorem decode_eq (p : Poll) :
    decode p = (do decodeHead p; decodeMid p; tickSet p.st; decodeTail p) := by
  simp only [decode, decodeHead, decodeMid, decodeTail, bind_assoc]

/-- `bf_panel_tick`. -/
def bfPanelTick (p : Poll) : Usb Unit := do
  let got ← attempt (Bus.M.recv .usb ())
  when got do
    let chip ← get
    if chip.panel_seen then decode p else modify (snapshot p.st)

/-- The panel's part of `babyface_panel_work`: a tick, and the time `t` after it. -/
def babyfacePanelWork (p : Poll) (t : ℤ) : Usb Unit := do
  let chip ← get
  when (!chip.shutdown) do
    bfPanelTick p
    modify fun c => { c with panel_poll_t := t }

section Frames

variable {R : Chip → Chip → Prop} {T : Reg × Datum → Prop} {X : Errno → Prop}

/-- Before the IN selection a poll keeps what no change of the panel's part of the state breaks, and
none of the changes of the mixer cache that the wheel makes. -/
theorem decodeHead_frames (h : WheelFrame R T)
    (hpanel : ∀ c d : Chip, d.toStream = c.toStream → d.toMixer = c.toMixer → d.eq = c.eq → R c d)
    (hm : ∀ out l r c, R c (cacheMaster out l r c))
    (hx : ∀ out src l r c, R c (cacheXpoint out src l r c))
    (hg : ∀ (c : Chip) gain, R c { c with gain := gain }) (p : Poll) :
    Bus.Frames Xfer.write R T X (decodeHead p) := by
  have hR := h.framing
  refine hR.bind (tickButton_frames h.framing (fun c _ => hpanel c _ rfl rfl rfl) _) fun _ => ?_
  refine hR.bind (tickWheel_frames h (fun c _ => hpanel c _ rfl rfl rfl) hm
    (fun _ _ _ _ c _ => hpanel c _ rfl rfl rfl) hg hx (fun c _ => hpanel c _ rfl rfl rfl)
    (fun c _ => hpanel c _ rfl rfl rfl) _ _) fun _ => ?_
  exact bfPanelOutResync_frames h (fun c => hpanel c _ rfl rfl rfl) _

/-- From the IN selection to SELECT a poll works on the panel's part of the state. -/
theorem decodeMid_panel (h : WheelFrame R T) (hX : X .fault)
    (hpanel : ∀ c d : Chip, d.toStream = c.toStream → d.toMixer = c.toMixer → d.eq = c.eq → R c d) (p : Poll) :
    Bus.Frames Xfer.write R T X (decodeMid p) := by
  have hR := h.framing
  refine hR.bind (tickIn_frames h.framing (fun c _ => hpanel c _ rfl rfl rfl) _) fun _ => ?_
  refine hR.bind (tickOut_frames h.framing (fun c _ => hpanel c _ rfl rfl rfl) _) fun _ => ?_
  refine hR.bind (tickSelect_frames h.framing hX (fun _ c => hpanel c _ rfl rfl rfl) (fun c => hpanel c _ rfl rfl rfl)
    (fun c => hpanel c _ rfl rfl rfl) _) fun _ => ?_
  exact tickHold_frames h.framing (fun c _ => hpanel c _ rfl rfl rfl) _

/-- After SET too. -/
theorem decodeTail_panel (h : WheelFrame R T) (hx : MixXfers T)
    (hpanel : ∀ c d : Chip, d.toStream = c.toStream → d.toMixer = c.toMixer → d.eq = c.eq → R c d) (p : Poll) :
    Bus.Frames Xfer.write R T X (decodeTail p) := by
  have hR := h.framing
  refine hR.bind (tickDimPress_frames h.framing (fun c _ => hpanel c _ rfl rfl rfl) _) fun _ => ?_
  refine hR.bind (tickMix_frames h hx (fun c => hpanel c _ rfl rfl rfl) (fun c => hpanel c _ rfl rfl rfl)
    (fun c _ => hpanel c _ rfl rfl rfl) _) fun _ => ?_
  refine hR.bind (tickFader_frames h.framing hx (fun c => hpanel c _ rfl rfl rfl) (fun c => hpanel c _ rfl rfl rfl) _)
    fun _ => ?_
  exact hR.bind (tickDim_frames h.framing (fun c _ => hpanel c _ rfl rfl rfl) _) fun _ =>
    hR.modify fun c => hpanel c _ rfl rfl rfl

/-- A poll keeps what no change of the panel's part of the state breaks, and none of the changes of
the mixer cache that the panel makes. -/
theorem babyfacePanelWork_frames (hR : Bus.Framing R)
    (hpanel : ∀ c d : Chip, d.toStream = c.toStream → d.toMixer = c.toMixer → d.eq = c.eq → R c d)
    (hm : ∀ out l r c, R c (cacheMaster out l r c))
    (hx : ∀ out src l r c, R c (cacheXpoint out src l r c))
    (hg : ∀ (c : Chip) gain, R c { c with gain := gain })
    (hp : ∀ (c : Chip) v, R c { c with preamp := v }) (p : Poll) (t : ℤ) :
    Bus.Frames Xfer.write R (fun _ => True) (· = .fault) (babyfacePanelWork p t) := by
  have h : WheelFrame R fun _ => True :=
    ⟨hR, fun c _ => hpanel c _ rfl rfl rfl, fun _ _ => trivial, fun _ _ => trivial⟩
  -- Only SET writes the preamp byte.
  have hset : Bus.Frames Xfer.write R (fun _ => True) (· = .fault) (tickSet p.st) :=
    tickSet_frames h.framing hp (fun c _ => hpanel c _ rfl rfl rfl) (fun _ => trivial) (fun _ => trivial) _
  -- The stages in the order of the source.
  have hdec : Bus.Frames Xfer.write R (fun _ => True) (· = .fault) (decode p) := by
    rw [decode_eq]
    refine hR.bind (decodeHead_frames h hpanel hm hx hg p) fun _ => ?_
    refine hR.bind (decodeMid_panel (X := (· = .fault)) h rfl hpanel p) fun _ => hR.bind hset fun _ => ?_
    exact decodeTail_panel h ⟨trivial, trivial, trivial⟩ hpanel p
  have htick : Bus.Frames Xfer.write R (fun _ => True) (· = .fault) (bfPanelTick p) := by
    unfold bfPanelTick
    -- The first read is the snapshot, which is the panel's own.
    refine hR.bind (hR.attempt (hR.recv (X := fun _ => True) trivial ())) fun _ =>
      hR.when _ fun _ => hR.bind hR.get fun c => hR.ite _ (fun _ => hdec) fun _ => ?_
    exact hR.modify fun c => hpanel c _ rfl rfl rfl
  unfold babyfacePanelWork
  exact hR.bind hR.get fun _ => hR.when _ fun _ => hR.bind htick fun _ =>
    hR.modify fun c => hpanel c _ rfl rfl rfl

end Frames

/-- `babyface_panel_start`, at the time `jiffies`. -/
def babyfacePanelStart (jiffies : ℤ) (c : Chip) : Chip :=
  { bfPanelSelLoad { c with panel_seen := false } with
    panel_select_armed := false
    panel_start := jiffies
    panel_poll_t := 0
    panel_master_last := fun _ _ => 0xffff }

/-- The kernel's clock: the width of `unsigned long`, the ticks in a second, and the tick count. -/
structure Clock where
  bits : ℕ
  HZ : ℤ
  jiffies : ℤ

/-- `time_is_after_jiffies`. -/
def Clock.timeIsAfterJiffies (k : Clock) (a : ℤ) : Bool := (k.jiffies - a).bmod (2 ^ k.bits) < 0

/-- A new selection of a pair. -/
def cacheSel (pair : Fin 3) (sel : ℤ) (c : Chip) : Chip :=
  { c with panel_sel := Function.update c.panel_sel pair sel }

/-- `bf_panel_select_put`. -/
def bfPanelSelectPut (k : Clock) (pair : Fin 3) (v : ℕ) : Usb ℕ := do
  let chip ← get
  let restore := k.timeIsAfterJiffies (chip.panel_start + 3 * k.HZ)
  let sel : ℤ := if v < 4 then v else -1
  if v > 4 then
    throw .einval
  else if restore && chip.reprobe then
    return 0
  else
    when (shownPair chip = some pair ∧ ¬ restore ∧ sel ≥ 0)
      (modify fun c => { c with panel_select_armed := true })
    if sel = chip.panel_sel pair then
      return 0
    else
      modify (cacheSel pair sel)
      when (shownPair chip = some pair) do
        modify bfPanelSelLoad
        when chip.panel_mix (modify bfPanelMixSeed)
      return 1

end BabyfacePro
