import BabyfacePro.Core.Card

/-!
# A poll, stage by stage

Every stage of a poll returns, so the world after a poll is the world after its last stage. What the
panel's modes keep is shown stage by stage on these worlds: a poll that reads nothing leaves the panel
alone, the first one takes a snapshot, and the others decode.
-/

namespace BabyfacePro

open Bus.M (get modify attempt when)

/-- A probe leaves the panel at its start: nothing was read, and no selection is known. -/
theorem Probed.panel {st0 : U8} {reprobe : Bool} {jiffies : ℤ} {p : Params} {w : World}
    (h : Probed st0 reprobe jiffies p w) :
    w.chip.toPanel =
      { panel_sel := fun _ => -1
        reprobe := reprobe
        panel_start := jiffies
        panel_select := 3
        panel_master_last := fun _ _ => 0xffff } := by
  obtain ⟨st, hc, -⟩ := babyfaceProbe_run h
  -- The default mixer touches the mixer alone.
  have hmixer : ∀ c : Chip, (cacheDefaultMixer c).toPanel = c.toPanel := fun c =>
    List.foldlRecOn (motive := fun d : Chip => d.toPanel = c.toPanel) (List.finRange 6) _ rfl
      fun _ hd _ _ => hd
  -- Nor does what was read back name a selection.
  have hread : (probedMixer st p).toPanel = { panel_sel := fun _ => -1 } := by
    unfold probedMixer
    rw [hmixer]
    cases st <;> rfl
  -- The start loads the selection, finds none, and stamps its time.
  have hstart : ∀ d : Chip, d.toPanel = { panel_sel := fun _ => -1 } →
      (babyfacePanelStart jiffies { d with reprobe := reprobe }).toPanel =
        { panel_sel := fun _ => -1
          reprobe := reprobe
          panel_start := jiffies
          panel_select := 3
          panel_master_last := fun _ _ => 0xffff } := by
    rintro ⟨_, _, _, _, _⟩ rfl
    rfl
  have hquiet := congrArg Chip.toPanel hc
  exact hquiet.trans (hstart _ hread)

/-! ## What a poll does -/

/-- A poll reads the panel: the card is not shut down, and the transfer gets through. -/
def Reads (w : World) : Prop := w.chip.shutdown = false ∧ w.usb 0 = true

/-- Whether a poll reads the panel is a test of the world. -/
instance (w : World) : Decidable (Reads w) := inferInstanceAs (Decidable (_ ∧ _))

/-- A poll that takes the first snapshot after a start. -/
def FirstPoll (w : World) : Prop := Reads w ∧ w.chip.panel_seen = false

/-- A poll that decodes what it reads. -/
def Decodes (w : World) : Prop := Reads w ∧ w.chip.panel_seen = true

/-- The world once the panel has been read. -/
def heard (w : World) : World := { w with usb := Bus.shift w.usb 1 }

/-- The world after the time of a poll has been noted. -/
def timed (t : ℤ) (w : World) : World := { w with chip := { w.chip with panel_poll_t := t } }

/-- A poll that reads nothing changes no more than its time. -/
theorem babyfacePanelWork_deaf (p : Poll) (t : ℤ) {w : World} (h : ¬ Reads w) :
    ∃ usb t', (babyfacePanelWork p t w).2 = timed t' { w with usb := usb } := by
  cases hs : w.chip.shutdown with
  -- After a disconnect the work does not even read.
  | true =>
    refine ⟨w.usb, w.chip.panel_poll_t, ?_⟩
    unfold babyfacePanelWork
    rw [Bus.M.bind_of_ok (Bus.M.get_run w), hs]
    rfl
  | false =>
    -- The read of the panel has failed.
    have hu : w.usb 0 = false := by
      cases hu : w.usb 0 with
      | true => exact absurd ⟨hs, hu⟩ h
      | false => rfl
    have htick : bfPanelTick p w = (.ok (), heard w) := by
      unfold bfPanelTick
      simp only [Bus.M.bind_run, attempt, Bus.M.recv, hu]
      rfl
    refine ⟨Bus.shift w.usb 1, t, ?_⟩
    unfold babyfacePanelWork
    rw [Bus.M.bind_of_ok (Bus.M.get_run w), hs]
    show ((do bfPanelTick p; modify fun c => { c with panel_poll_t := t } : Usb Unit) w).2 = _
    rw [Bus.M.bind_of_ok htick]
    rfl

/-- A poll that reads runs the tick's choice on what it read. -/
theorem babyfacePanelWork_reads (p : Poll) (t : ℤ) {w : World} (h : Reads w) :
    babyfacePanelWork p t w =
      (do (if w.chip.panel_seen then decode p else modify (snapshot p.st))
          modify fun c => { c with panel_poll_t := t } : Usb Unit) (heard w) := by
  have htick : bfPanelTick p w =
      (if w.chip.panel_seen then decode p else modify (snapshot p.st) : Usb Unit) (heard w) := by
    unfold bfPanelTick
    simp only [Bus.M.bind_run, attempt, Bus.M.recv, h.2]
    rfl
  unfold babyfacePanelWork
  rw [Bus.M.bind_of_ok (Bus.M.get_run w), h.1]
  show (do bfPanelTick p; modify fun c => { c with panel_poll_t := t } : Usb Unit) w = _
  rw [Bus.M.bind_run, Bus.M.bind_run, htick]

/-- The first poll after a start takes a snapshot. -/
theorem babyfacePanelWork_first (p : Poll) (t : ℤ) {w : World} (h : Reads w)
    (hs : w.chip.panel_seen = false) :
    (babyfacePanelWork p t w).2 = timed t { heard w with chip := snapshot p.st w.chip } := by
  rw [babyfacePanelWork_reads p t h, hs]
  rfl

/-- A poll leaves the stream alone. -/
theorem babyfacePanelWork_stream (p : Poll) (t : ℤ) :
    Bus.Frames Xfer.write (fun c d : Chip => d.toStream = c.toStream) (fun _ => True) (· = .fault)
      (babyfacePanelWork p t) :=
  babyfacePanelWork_frames (Bus.Framing.view fun c : Chip => c.toStream) (fun _ _ hs _ _ => hs)
    (fun _ _ _ _ => rfl) (fun _ _ _ _ _ => rfl) (fun _ _ => rfl) (fun _ _ => rfl) p t

/-! ## The stages -/

/-- A part of the state that the flag cycle is not in, for any transfers. -/
theorem viewFrame {β : Type} {v : Chip → β} (h : ∀ c n, v { c with flag_cnt := n } = v c) :
    WheelFrame (fun c d => v d = v c) fun _ => True :=
  ⟨Bus.Framing.view v, h, fun _ _ => trivial, fun _ _ => trivial⟩

/-- For a routine of which only its return matters. -/
theorem frameAll : WheelFrame (fun _ _ : Chip => () = ()) fun _ => True :=
  viewFrame (v := fun _ => ()) fun _ _ => rfl

/-- Where every transfer is allowed, so are MIX's. -/
theorem mixXfers_all : MixXfers fun _ => True := ⟨trivial, trivial, trivial⟩

/-- The stages up to the wheel's resync, one after the other. -/
theorem decodeHead_run (p : Poll) (w : World) :
    decodeHead p w = bfPanelOutResync p.rest (tickWheel p.st p.now (tickButton p.st w).2).2 := by
  unfold decodeHead
  rw [(tickButton_frames (T := fun _ => True) frameAll.framing (fun _ _ => rfl) _).then_run, (tickWheel_spares p.st p.now).then_run]

/-- The selections, one after the other. -/
theorem decodeMid_run (p : Poll) {w : World} (h : w.chip.SelTracked) :
    decodeMid p w = tickHold p.st (tickSelect p.st (tickOut p.st (tickIn p.st w).2).2).2 := by
  have hin := tickIn_frames (X := fun _ => False) (T := fun _ => True)
    (R := fun s t : Chip => s.SelTracked → t.SelTracked)
    (Bus.Framing.keeps _)
    (fun c sel hc => (selLoad_tracked (c := { c with panel_in := sel }) hc.range).congr rfl) p.st
  have hout := tickOut_frames (T := fun _ => True) (X := fun _ => False) (Bus.Framing.view Chip.sel)
    (fun _ _ => rfl) p.st
  have htracked : (tickOut p.st (tickIn p.st w).2).2.chip.SelTracked :=
    (hin.state w h).congr (hout.state _)
  obtain ⟨_, w₁, hselect, -⟩ := tickSelect_tracked p.st _ htracked
  unfold decodeMid
  rw [hin.then_run, hout.then_run, Bus.M.bind_of_ok hselect, hselect]

/-- The stages after SET, one after the other, and the readback for the next poll. -/
theorem decodeTail_run (p : Poll) (w : World) :
    decodeTail p w = (do modify fun c => { c with panel_prev := p.st } : Usb Unit)
      (tickDim p.st (tickFader p.st (tickMix p.st (tickDimPress p.st w).2).2).2).2 := by
  unfold decodeTail
  rw [(tickDimPress_frames (T := fun _ => True) frameAll.framing (fun _ _ => rfl) _).then_run,
    (tickMix_frames frameAll mixXfers_all (fun _ => rfl) (fun _ => rfl) (fun _ _ => rfl) _).then_run,
    (tickFader_frames (T := fun _ => True) frameAll.framing mixXfers_all (fun _ => rfl) (fun _ => rfl) _).then_run,
    (tickDim_frames (T := fun _ => True) frameAll.framing (fun _ _ => rfl) _).then_run]

/-- The stages up to SELECT, SET, and those after it, one after the other. -/
theorem decode_run (p : Poll) {w : World} (h : w.chip.SelTracked) :
    decode p w = decodeTail p (tickSet p.st (decodeMid p (decodeHead p w).2).2).2 := by
  have hsel := (decodeHead_spares p).state w
  simp only [Prod.mk.injEq] at hsel
  obtain ⟨_, w₂, hmid, -⟩ := decodeMid_tracked p (decodeHead p w).2 (h.congr hsel.1)
  rw [decode_eq, (decodeHead_spares p).then_run, Bus.M.bind_of_ok hmid, (tickSet_spares p.st).then_run,
    hmid]

/-- A poll that decodes, and its time. -/
theorem babyfacePanelWork_decode (p : Poll) (t : ℤ) {w : World} (h : Reads w)
    (hs : w.chip.panel_seen = true) (ht : w.chip.SelTracked) :
    (babyfacePanelWork p t w).2 = timed t (decode p (heard w)).2 := by
  obtain ⟨w', -, hrun, -⟩ := decode_safe p (w := heard w) ht hs
  rw [babyfacePanelWork_reads p t h, hs, if_pos rfl, Bus.M.bind_of_ok hrun, hrun]
  rfl

/-! ## The outputs that the panel selects -/

/-- The OUT wheel's last output is one that the panel selects. -/
def Chip.OutWheeled (c : Chip) : Prop := c.panel_out_wheel_out.val < 3

/-- A relation that new masters and the notes of the OUT wheel keep, and a set of transfers with the masters of
the outputs that the panel selects in it: their 8-bit registers lie between those of the gains and those of the
displays. -/
structure OutFrame (R : Chip → Chip → Prop) (T : Reg × Datum → Prop) : Prop where
  framing : Bus.Framing R
  flag : ∀ c n, R c { c with flag_cnt := n }
  low : ∀ idx v, BF_REG_MASTER_8 ≤ idx → idx < BF_REG_PANEL_GAIN → T (word BF_REQ_GAIN idx v)
  cross : ∀ idx v, T (xreg idx v)
  master : ∀ out l r c, R c (cacheMaster out l r c)
  tracked : ∀ out db delta now c, R c (trackWheel out db delta now c)
  resynced : ∀ c : Chip, R c { c with panel_out_resync := false }

namespace OutFrame

variable {R : Chip → Chip → Prop} {T : Reg × Datum → Prop} {X : Errno → Prop} (h : OutFrame R T)

include h

/-- The 8-bit masters of a selected output. -/
theorem post8 {out : Out} (hout : out.val < 3) (l8 r8 : U8) : Bus.Frames Xfer.write R T X (post8 out l8 r8) := by
  have hpost : ∀ idx val, BF_REG_MASTER_8 ≤ idx → idx < BF_REG_PANEL_GAIN →
      Bus.Frames Xfer.write R T X (post BF_REQ_GAIN val idx) := fun idx val hlow hhigh =>
    post_frames h.framing (h.low idx val hlow hhigh)
  have hright : BF_REG_MASTER_8 + 2 * out + 1 < BF_REG_PANEL_GAIN := by
    unfold BF_REG_MASTER_8 BF_REG_PANEL_GAIN
    omega
  exact h.framing.bind (hpost _ _ (by omega) (by omega)) fun _ => hpost _ _ (by omega) hright

/-- The 16-bit masters. -/
theorem post16 (out : Out) (l16 r16 : U16) (flag : ℕ) : Bus.Frames Xfer.write R T X (post16 out l16 r16 flag) :=
  h.framing.bind (post_frames h.framing (h.cross _ _)) fun _ => post_frames h.framing (h.cross _ _)

/-- The flag cycle. -/
theorem nextFlag : Bus.Frames Xfer.write R T X nextFlag :=
  h.framing.bind h.framing.get fun _ => h.framing.bind (h.framing.modify fun _ => h.flag _ _)
    fun _ => h.framing.pure _

/-- All masters of a selected output. -/
theorem postOut {out : Out} (hout : out.val < 3) (muted dim : Bool) (l r : U16) :
    Bus.Frames Xfer.write R T X (postOut out muted dim l r) :=
  h.framing.bind h.nextFlag fun _ => h.framing.bind (h.post8 hout _ _) fun _ => h.post16 _ _ _ _

/-- A turn of the OUT wheel writes masters of a selected output. -/
theorem outWheel (delta now : ℤ) : Bus.Frames Xfer.write R T X (bfPanelOutWheel delta now) := by
  have hwrite : ∀ out l r, Bus.Frames Xfer.write R T X (bfPanelOutWheelWrite out l r) := fun out l r =>
    h.framing.bind h.framing.get fun _ => h.framing.bind h.nextFlag fun _ =>
      h.framing.bind (h.post16 _ _ _ _) fun _ => announce_frames h.framing (h.master out l r) _
  unfold bfPanelOutWheel
  refine h.framing.bind h.framing.get fun c =>
    h.framing.ite _ (fun _ => h.post8 (bfPanelOutPair_lt c) _ _) fun _ => ?_
  exact h.framing.bind (hwrite _ _ _) fun _ => h.framing.modify fun c => h.tracked _ _ _ _ c

/-- So does a turn of the balance wheel. -/
theorem balanceWheel (delta : ℤ) : Bus.Frames Xfer.write R T X (bfPanelBalanceWheel delta) := by
  have hwrite : ∀ out : Out, out.val < 3 → ∀ l r, Bus.Frames Xfer.write R T X (bfPanelWriteMaster out l r) :=
    fun out hout l r => h.framing.bind h.framing.get fun _ => h.framing.bind (h.postOut hout _ _ _ _) fun _ =>
      announce_frames h.framing (h.master out l r) _
  unfold bfPanelBalanceWheel
  exact h.framing.bind h.framing.get fun c =>
    h.framing.ite _ (fun _ => h.post8 (bfPanelOutPair_lt c) _ _) fun _ =>
      h.framing.ite _ (fun _ => h.framing.pure _) fun _ => hwrite _ (bfPanelOutPair_lt c) _ _

/-- The resync is of an output of the OUT wheel. -/
theorem resync (now : ℤ) {w : World} (ho : w.chip.OutWheeled) :
    ∃ m : Usb Unit, Bus.Frames Xfer.write R T X m ∧ bfPanelOutResync now w = m w := by
  refine ⟨do
    if ¬ w.chip.panel_out_resync ∨ ktimeMsDelta now w.chip.panel_out_wheel_t < BF_OUT_WHEEL_RESYNC_MS then
      return
    modify fun c => { c with panel_out_resync := false }
    let out := w.chip.panel_out_wheel_out
    if ∃ ch, w.chip.master out ch ≠ w.chip.panel_master_last out ch ∨
        w.chip.panel_out_hdb out ch < BF_OUT_WHEEL_8BIT_MIN then
      return
    if w.chip.muted out then
      return
    BabyfacePro.postOut out false (out = 1 && w.chip.dim) (w.chip.master out 0) (w.chip.master out 1), ?_, rfl⟩
  refine h.framing.ite _ (fun _ => h.framing.pure _) fun _ => h.framing.bind (h.framing.modify h.resynced) fun _ => ?_
  refine h.framing.ite _ (fun _ => h.framing.pure _) fun _ => ?_
  exact h.framing.ite _ (fun _ => h.framing.pure _) fun _ => h.postOut ho _ _ _ _

end OutFrame

/-! ## MIX -/

/-- A write of the panel changes no state. -/
theorem post_run (req : ℕ) (val : U16) (idx : ℕ) (w : World) :
    ∃ w', post req val idx w = (.ok (), w') ∧ w'.chip = w.chip := by
  have hframe : Bus.Frames Xfer.write (fun c d : Chip => d = c) (fun _ => True) (fun _ => False)
      (post req val idx) := post_frames (Bus.Framing.view fun c : Chip => c) trivial
  obtain ⟨_, w', hrun⟩ := hframe.run_ok w
  have hstate := hframe.state w
  rw [hrun] at hstate
  exact ⟨w', hrun, hstate⟩

/-- What leaving MIX does to the state. -/
theorem mixExit_run (w : World) :
    ∃ w', mixExit w = (.ok (), w') ∧
      w'.chip = { w.chip with panel_mix := false, panel_saw_fader := false } := by
  obtain ⟨w₁, h₁, hc₁⟩ := post_run BF_REQ_PREAMP 0x0400 0x8000 w
  obtain ⟨w₂, h₂, hc₂⟩ := post_run BF_REQ_PREAMP 0x0400 0x8080 w₁
  have hrun : mixExit w = (.ok (), { w₂ with
      chip := { w₂.chip with panel_mix := false, panel_saw_fader := false }
      notes := w₂.notes ++ [.panelMix] }) := by
    unfold mixExit
    rw [Bus.M.bind_of_ok h₁, Bus.M.bind_of_ok h₂]
    rfl
  refine ⟨_, hrun, ?_⟩
  rw [hc₂, hc₁]

/-- The state but for the level displays. -/
def Chip.undisplayed (c : Chip) : Chip := { c with panel_mix_disp := fun _ => 0 }

/-- The level display of the reference source is not seen elsewhere. -/
theorem mixSeedDisp_frames :
    Bus.Frames Xfer.write (fun c d : Chip => d.undisplayed = c.undisplayed) (fun _ => True)
      (fun _ => False) mixSeedDisp := by
  have hR := Bus.Framing.view Chip.undisplayed
  unfold mixSeedDisp
  refine hR.bind hR.get fun c => ?_
  split
  · exact hR.bind (post_frames hR trivial) fun _ => hR.modify fun _ => rfl
  · exact hR.pure _

/-- What engaging MIX does to the state. -/
theorem mixEngage_run (w : World) :
    ∃ w', mixEngage w = (.ok (), w') ∧
      w'.chip.undisplayed = (bfPanelMixSeed { w.chip with panel_mix := true }).undisplayed := by
  obtain ⟨w₁, h₁, hc₁⟩ := post_run BF_REQ_PREAMP 0x8480 0x8c80 w
  have hseed := mixSeedDisp_frames.state { w₁ with chip :=
    { bfPanelMixSeed { w₁.chip with panel_mix := true } with panel_mix_disp := fun _ => 0 } }
  obtain ⟨_, w₂, h₂⟩ := mixSeedDisp_frames.run_ok { w₁ with chip :=
    { bfPanelMixSeed { w₁.chip with panel_mix := true } with panel_mix_disp := fun _ => 0 } }
  have hrun : mixEngage w = (.ok (), { w₂ with notes := w₂.notes ++ [.panelMix] }) := by
    unfold mixEngage
    rw [Bus.M.bind_of_ok h₁, Bus.M.bind_of_ok (Bus.M.modify_run _ _), Bus.M.bind_of_ok h₂]
    rfl
  refine ⟨_, hrun, ?_⟩
  rw [h₂] at hseed
  rw [← hc₁]
  exact hseed

end BabyfacePro
