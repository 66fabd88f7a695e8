import BabyfacePro.Panel.Shadow

/-!
# Polls with nothing selected

SET and the wheel of the IN modes work on the selected microphones. While the selection of the pair shown is
unknown or none, a poll changes neither phantom power nor an input gain: the cached values stay, the preamp
byte and the gains' registers are not written, and a display is written only as MIX is engaged
(`babyfacePanelWork_idle`). `panel_selection_safe` has this for every run of polls, with what holds of the
selection and of SET at all times.
-/

namespace BabyfacePro

open Bus.M (get modify when)

/-! ## Writes that reach no gain -/

/-- The register of a microphone's gain. -/
def gainReg (mic : Mic) : Reg := .ctl BF_REQ_GAIN (BF_REG_GAIN + mic)

/-- A write of neither a gain nor a display. -/
def OffGain (x : Reg × Datum) : Prop := ∀ mic, x.1 ≠ gainReg mic ∧ x.1 ≠ dispReg mic

/-- Requests for other registers. -/
theorem offGain_req {req idx : ℕ} {v : Datum} (h : req ≠ BF_REQ_GAIN) : OffGain (.ctl req idx, v) :=
  fun _ => ⟨fun he => h (Reg.ctl.inj he).1, fun he => h (Reg.ctl.inj he).1⟩

/-- The registers between the gains and the displays. -/
theorem offGain_low {idx : ℕ} {v : Datum} (hlow : BF_REG_MASTER_8 ≤ idx) (hhigh : idx < BF_REG_PANEL_GAIN) :
    OffGain (.ctl BF_REQ_GAIN idx, v) := fun mic => by
  refine ⟨fun he => ?_, fun he => ?_⟩
  · have hidx := (Reg.ctl.inj he).2
    unfold BF_REG_MASTER_8 at hlow
    unfold BF_REG_GAIN at hidx
    omega
  · have hidx := (Reg.ctl.inj he).2
    omega

/-- From `w` to `w'` only transfers in `T` were made. -/
def OnlySent (T : Reg × Datum → Prop) (w w' : World) : Prop :=
  ∃ ws, w'.wire.map Xfer.write = w.wire.map Xfer.write ++ ws ∧ ∀ x ∈ ws, T x

section Sent

variable {T : Reg × Datum → Prop} {w w₁ w₂ : World}

/-- Nothing was sent. -/
theorem OnlySent.refl (w : World) : OnlySent T w w := ⟨[], (List.append_nil _).symm, by simp⟩

/-- One after the other. -/
theorem OnlySent.trans (h : OnlySent T w w₁) (h' : OnlySent T w₁ w₂) : OnlySent T w w₂ := by
  obtain ⟨ws, hw, hT⟩ := h
  obtain ⟨vs, hv, hT'⟩ := h'
  refine ⟨ws ++ vs, ?_, fun x hx => (List.mem_append.mp hx).elim (hT x) (hT' x)⟩
  rw [hv, hw, List.append_assoc]

/-- In a larger set. -/
theorem OnlySent.mono {T' : Reg × Datum → Prop} (h : OnlySent T w w₁) (hT : ∀ x, T x → T' x) : OnlySent T' w w₁ := by
  obtain ⟨ws, hw, hs⟩ := h
  exact ⟨ws, hw, fun x hx => hT x (hs x hx)⟩

/-- A routine sends what its frame allows. -/
theorem sent_of_frames {R : Chip → Chip → Prop} {X : Errno → Prop} {m : Usb Unit}
    (h : Bus.Frames Xfer.write R T X m) (w : World) : OnlySent T w (m w).2 := h.wire w

/-- A routine of the panel sends no more than its list. -/
theorem sent_of_moves {m : Usb Unit} {f : Chip → Chip} {ws : Chip → List (Reg × Datum)} {ns : Chip → List Ctl}
    (h : Moves m f ws ns) (hT : ∀ x ∈ ws w.chip.quiet, T x) : OnlySent T w (m w).2 := by
  obtain ⟨w', vs, hm, -, hw, hsub, -⟩ := h w
  rw [hm]
  exact ⟨vs, hw, fun x hx => hT x (hsub.subset hx)⟩

end Sent

/-- For a routine of which only its writes matter. -/
theorem anyState : Bus.Framing fun _ _ : Chip => True := ⟨fun _ => trivial, fun _ _ => trivial⟩

/-- The masters of the outputs that the panel selects are no gains. -/
theorem gainOutFrame : OutFrame (fun _ _ : Chip => True) OffGain where
  framing := anyState
  flag _ _ := trivial
  low _ _ hlow hhigh := offGain_low hlow hhigh
  cross _ _ := offGain_req (by decide)
  master _ _ _ _ := trivial
  tracked _ _ _ _ _ := trivial
  resynced _ := trivial

/-- Leaving MIX writes no gain. -/
theorem mixXfers_offGain : MixXfers OffGain :=
  ⟨offGain_req (by decide), offGain_req (by decide), offGain_req (by decide)⟩

/-! ## The stages of a poll -/

/-- With nothing selected the MIX wheel moves the optical pair at most, which has no display. -/
theorem mixWheelRegs_offGain {c : Chip} (h : c.panel_select = 3) (delta : ℤ) :
    ∀ x ∈ mixWheelRegs delta c, OffGain x := by
  intro x hx
  obtain ⟨src, hsrc, hx⟩ := List.mem_flatMap.mp hx
  -- Nothing selected leaves the optical pair as the only target, and only where it is shown.
  have hfour : src = 4 := by
    unfold mixTargets at hsrc
    split at hsrc
    · exact List.mem_singleton.mp hsrc
    · rw [if_neg (not_not.mpr h)] at hsrc
      cases hsrc
  subst hfour
  -- The optical pair has no display, so the click is its crosspoint.
  have hclick : x ∈ xpointRegs (bfPanelOutPair c) 4 (bfFaderDb2ToRaw (mixLevel c delta))
      (bfFaderDb2ToRaw (mixLevel c delta)) := by
    obtain hx | hx := List.mem_append.mp hx
    · exact hx
    · cases hx
  simp only [xpointRegs, List.mem_cons, List.not_mem_nil, or_false] at hclick
  -- Both registers are crosspoints.
  obtain rfl | rfl := hclick
  · exact offGain_req (by decide)
  · exact offGain_req (by decide)

/-- With nothing selected the wheel writes neither a gain nor a display. -/
theorem tickWheel_idle (st : Readback) (now : ℤ) {w : World} (h : w.chip.panel_select = 3) :
    OnlySent OffGain w (tickWheel st now w).2 := by
  rw [tickWheel_turn]
  split
  · exact .refl w
  -- The count of the wheel sends nothing; its handler is the mode's.
  have hstart : OnlySent OffGain w { w with
      chip := countWheel (turnOf st w.chip) w.chip, notes := w.notes ++ [.panelWheel] } := .refl w
  refine hstart.trans ?_
  cases wheelMode w.chip (wheelClass (st 2)) with
  | mix => exact sent_of_moves (bfPanelMixWheel_moves _) (mixWheelRegs_offGain h _)
  | balance => exact sent_of_frames (gainOutFrame.balanceWheel (X := fun _ => True) _) _
  | out => exact sent_of_frames (gainOutFrame.outWheel (X := fun _ => True) _ _) _
  | gain =>
    have hidle := bfPanelGainWheel_idle (w := { w with
      chip := countWheel (turnOf st w.chip) w.chip, notes := w.notes ++ [.panelWheel] }) h (turnOf st w.chip)
    show OnlySent OffGain _ (bfPanelGainWheel (turnOf st w.chip) _).2
    rw [hidle]
    exact .refl _
  | none => exact .refl _

/-- So do the stages up to the resync. -/
theorem decodeHead_idle (p : Poll) {w : World} (h : w.chip.panel_select = 3) (ho : w.chip.OutWheeled) :
    OnlySent OffGain w (decodeHead p w).2 := by
  have hbutton := tickButton_frames (T := OffGain) (X := fun _ => True)
    (Bus.Framing.view fun c : Chip => (c.panel_select, c.panel_out_wheel_out)) (fun _ _ => rfl) p.st
  have hview := hbutton.state w
  simp only [Prod.mk.injEq] at hview
  rw [decodeHead_run]
  have hwheel := tickWheel_idle p.st p.now (hview.1.trans h)
  have hout : (tickWheel p.st p.now (tickButton p.st w).2).2.chip.OutWheeled := by
    refine (tickWheel_outWheeled p.st p.now).state _ ?_
    unfold Chip.OutWheeled
    rw [hview.2]
    exact ho
  obtain ⟨m, hm, hresync⟩ := gainOutFrame.resync (X := fun _ => True) p.rest hout
  rw [hresync]
  exact ((sent_of_frames hbutton w).trans hwheel).trans (sent_of_frames hm _)

/-- The selections send nothing. -/
theorem decodeMid_idle (p : Poll) (w : World) : OnlySent OffGain w (decodeMid p w).2 := by
  have hmid : Bus.Frames Xfer.write (fun _ _ : Chip => True) OffGain (fun _ => True) (decodeMid p) := by
    refine anyState.bind (tickIn_frames anyState (fun _ _ => trivial) _) fun _ => ?_
    refine anyState.bind (tickOut_frames anyState (fun _ _ => trivial) _) fun _ => ?_
    refine anyState.bind (tickSelect_frames anyState trivial (fun _ _ => trivial) (fun _ => trivial)
      (fun _ => trivial) _) fun _ => ?_
    exact tickHold_frames anyState (fun _ _ => trivial) _
  exact sent_of_frames hmid w

/-- SET writes the preamp byte and its commit. -/
theorem tickSet_idle (st : Readback) (w : World) : OnlySent OffGain w (tickSet st w).2 :=
  sent_of_frames (tickSet_frames (X := fun _ => True) anyState (fun _ _ => trivial) (fun _ _ => trivial)
    (fun _ => offGain_req (by decide)) (fun _ => offGain_req (by decide)) st) w

/-- A press that engages MIX. -/
def EngagesMix (st : Readback) (c : Chip) : Prop :=
  c.panel_mix = false ∧ pressed BF_PANEL_FLASH_MIX st c = true

/-- A write of neither a gain nor a display, or, where MIX is engaged, the display of its level. -/
def IdleWrite (engages : Prop) (db2 : ℤ) (x : Reg × Datum) : Prop :=
  OffGain x ∨ engages ∧ ∃ mic, x = (dispReg mic, dispWord db2)

/-- The press of MIX displays the level that MIX starts from; its end displays nothing. -/
theorem tickMix_idle (st : Readback) (w : World) :
    OnlySent (IdleWrite (EngagesMix st w.chip) (tickMix st w).2.chip.panel_mix_db2) w (tickMix st w).2 := by
  unfold tickMix
  rw [Bus.M.bind_of_ok (Bus.M.get_run w)]
  -- Without the press nothing is sent.
  cases hpress : pressed BF_PANEL_FLASH_MIX st w.chip with
  | false => exact .refl w
  | true =>
    cases hmix : w.chip.panel_mix with
    -- The end of MIX sends its two words to the panel, and no display.
    | true =>
      have hexit : Bus.Frames Xfer.write (fun _ _ : Chip => True) OffGain (fun _ => True) mixExit :=
        mixExit_frames anyState mixXfers_offGain fun _ => trivial
      exact (sent_of_frames hexit w).mono fun x hx => .inl hx
    -- MIX is engaged, and the display shows the level that it starts from.
    | false =>
      obtain ⟨w', vs, hrun, hc, hw, hsub, -⟩ := mixEngage_moves w
      show OnlySent _ w (mixEngage w).2
      -- The level shown is the one that the seed took.
      have hlevel : w'.chip.panel_mix_db2 = (cacheEngage w.chip.quiet).panel_mix_db2 := by
        have hdb2 := congrArg (fun c : Chip => c.panel_mix_db2) hc
        refine hdb2.trans ?_
        show (cacheSeed (cacheEngage w.chip.quiet)).panel_mix_db2 = _
        unfold cacheSeed
        split <;> rfl
      show OnlySent (IdleWrite _ (mixEngage w).2.chip.panel_mix_db2) w (mixEngage w).2
      rw [hrun, hlevel]
      refine ⟨vs, hw, fun x hx => ?_⟩
      -- The first write turns the panel to MIX; a display only follows where the reference has one.
      obtain rfl | hx := List.mem_cons.mp (hsub.subset hx)
      · exact .inl (offGain_req (by decide))
      · unfold seedRegs at hx
        split at hx
        · exact .inr ⟨⟨hmix, hpress⟩, _, List.mem_singleton.mp hx⟩
        · cases hx

/-- The stages after SET. -/
theorem decodeTail_idle (p : Poll) (w : World) :
    OnlySent (IdleWrite (EngagesMix p.st w.chip) (decodeTail p w).2.chip.panel_mix_db2) w (decodeTail p w).2 := by
  have hlevel := Bus.Framing.view fun c : Chip => c.panel_mix_db2
  -- The stages before the press of MIX do not touch it.
  have hdim := tickDimPress_frames (T := OffGain) (X := fun _ => True)
    (Bus.Framing.view fun c : Chip => (c.panel_mix, c.panel_prev)) (fun _ _ => rfl) p.st
  have hview := hdim.state w
  simp only [Prod.mk.injEq] at hview
  -- So MIX is engaged in the poll exactly where this stage engages it.
  have hengages : EngagesMix p.st (tickDimPress p.st w).2.chip ↔ EngagesMix p.st w.chip := by
    unfold EngagesMix pressed
    rw [hview.1, hview.2]
  have hmix := tickMix_idle p.st (tickDimPress p.st w).2
  have hfader := tickFader_frames (X := fun _ => True) hlevel mixXfers_offGain (fun _ => rfl) (fun _ => rfl) p.st
  have hlight := tickDim_frames (T := OffGain) (X := fun _ => True) hlevel (fun _ _ => rfl) p.st
  -- The level is not touched after the press either.
  rw [decodeTail_run]
  generalize (tickMix p.st (tickDimPress p.st w).2).2 = w₁ at hmix ⊢
  have hafter := (hlight.state (tickFader p.st w₁).2).trans (hfader.state w₁)
  show OnlySent (IdleWrite _ (tickDim p.st (tickFader p.st w₁).2).2.chip.panel_mix_db2) w
    (tickDim p.st (tickFader p.st w₁).2).2
  rw [hafter, ← hengages]
  have hoff : ∀ {e : Prop} {db2 : ℤ} (x : Reg × Datum), OffGain x → IdleWrite e db2 x := fun _ hx => .inl hx
  exact ((((sent_of_frames hdim w).mono hoff).trans hmix).trans ((sent_of_frames hfader w₁).mono hoff)).trans
    ((sent_of_frames hlight _).mono hoff)

/-! ## A poll -/

/-- With nothing selected a poll writes no gain, and a display only as it engages MIX. -/
theorem babyfacePanelWork_idle (p : Poll) (t : ℤ) {w : World} (ht : w.chip.SelTracked) (ho : w.chip.OutWheeled)
    (h : w.chip.panel_select = 3) :
    OnlySent (IdleWrite (Decodes w ∧ EngagesMix p.st w.chip) (babyfacePanelWork p t w).2.chip.panel_mix_db2) w
      (babyfacePanelWork p t w).2 := by
  -- A poll that reads nothing sends nothing.
  by_cases hreads : Reads w
  swap
  · obtain ⟨usb, t', hdeaf⟩ := babyfacePanelWork_deaf p t hreads
    rw [hdeaf]
    exact .refl w
  -- The first snapshot sends nothing.
  cases hseen : w.chip.panel_seen with
  | false =>
    rw [babyfacePanelWork_first p t hreads hseen]
    exact .refl w
  | true =>
    rw [babyfacePanelWork_decode p t hreads hseen ht]
    -- What is pressed is not changed by the stages before that of MIX.
    have hhead := (decodeHead_press p).state (heard w)
    have hsel := (decodeMid_press p).state (decodeHead p (heard w)).2
    have hset := (tickSet_press p.st).state (decodeMid p (decodeHead p (heard w)).2).2
    have hbefore := hset.trans (hsel.trans hhead)
    simp only [Chip.pressView, Chip.latch, Prod.mk.injEq] at hbefore
    have hengages : EngagesMix p.st (tickSet p.st (decodeMid p (decodeHead p (heard w)).2).2).2.chip ↔
        EngagesMix p.st w.chip := by
      unfold EngagesMix pressed
      rw [hbefore.1.1, hbefore.2]
      rfl
    have hoff : ∀ {e : Prop} {db2 : ℤ} (x : Reg × Datum), OffGain x → IdleWrite e db2 x := fun _ hx => .inl hx
    -- The stages up to SET send nothing but what is no gain.
    have hstages := (decodeHead_idle p (w := heard w) h ho).trans ((decodeMid_idle p _).trans (tickSet_idle p.st _))
    have htail := decodeTail_idle p (tickSet p.st (decodeMid p (decodeHead p (heard w)).2).2).2
    rw [← decode_run p (w := heard w) ht, hengages] at htail
    exact ((hstages.mono hoff).trans htail).mono fun x hx => hx.imp_right fun hx => ⟨⟨⟨hreads, hseen⟩, hx.1⟩, hx.2⟩

/-! ## Runs -/

/-- A step of the panel keeps the OUT wheel's last output one that the panel selects. -/
theorem PanelStep.outWheeled {w w' : World} (hs : PanelStep w w') (ht : w.chip.SelTracked)
    (h : w.chip.OutWheeled) : w'.chip.OutWheeled := by
  cases hs with
  | poll p t => exact babyfacePanelWork_outWheeled p t ht h
  | put k pair v =>
    have hput : Keeps (fun c d : Chip => d.panel_out_wheel_out = c.panel_out_wheel_out)
        (bfPanelSelectPut k pair v) :=
      bfPanelSelectPut_keeps (Bus.Framing.view _) (fun _ => rfl) (fun _ _ _ => rfl) (fun _ => rfl) (fun _ => rfl)
        k pair v
    have hview := hput.state w
    unfold Chip.OutWheeled
    rw [hview]
    exact h
  | restart jiffies => exact h

/-- What polls with nothing selected write: neither the preamp byte nor a gain, and on a display a level. -/
def SpareWrite (x : Reg × Datum) : Prop :=
  x.1 ≠ preampReg ∧ ∀ mic, x.1 ≠ gainReg mic ∧ (x.1 = dispReg mic → ∃ db2, x.2 = dispWord db2)

/-- A poll with nothing selected. -/
theorem IdlePoll.spares {w w' : World} (hi : IdlePoll w w') (ht : w.chip.SelTracked) (ho : w.chip.OutWheeled) :
    w'.chip.OutWheeled ∧ OnlySent SpareWrite w w' := by
  obtain ⟨-, -, -, ws, hw, hpreamp⟩ := hi.keeps ht
  obtain ⟨p, t, hrun⟩ := hi.poll
  have hout := babyfacePanelWork_outWheeled p t ht ho
  obtain ⟨vs, hv, hidle⟩ := babyfacePanelWork_idle p t ht ho (ht.untargeted hi.before)
  rw [hrun] at hout hv hidle
  obtain rfl : ws = vs := List.append_cancel_left (hw.symm.trans hv)
  refine ⟨hout, ws, hw, fun x hx => ⟨hpreamp x hx, fun mic => ?_⟩⟩
  obtain hoff | ⟨-, mic', rfl⟩ := hidle x hx
  · exact ⟨(hoff mic).1, fun he => absurd he (hoff mic).2⟩
  · refine ⟨fun he => ?_, fun _ => ⟨_, rfl⟩⟩
    have hidx := (Reg.ctl.inj he).2
    unfold BF_REG_PANEL_GAIN BF_REG_GAIN at hidx
    omega

/-- In every run of polls, puts of the selection and restarts after a probe: the fields of the
selection belong together; a poll stays within its arrays, and writes or changes the preamp byte only
on SET and within the 48V bits of the selected microphones. Polls with nothing selected change neither
phantom power nor gains, in the cache and on the device: they write no gain, and a display only as MIX is
engaged, with the level that it starts from. -/
theorem panel_selection_safe {st0 : U8} {reprobe : Bool} {jiffies : ℤ} {params : Params}
    {w₀ w : World} (hp : Probed st0 reprobe jiffies params w₀)
    (hr : Relation.ReflTransGen PanelStep w₀ w) :
    w.chip.SelTracked ∧
      (∀ p t, ∃ w' ws, babyfacePanelWork p t w = (.ok (), w') ∧
        w'.wire.map Xfer.write = w.wire.map Xfer.write ++ ws ∧ PollSafe p.st w.chip w'.chip ws) ∧
      (∀ w', Relation.ReflTransGen IdlePoll w w' →
        w'.chip.preamp = w.chip.preamp ∧ w'.chip.gain = w.chip.gain ∧ OnlySent SpareWrite w w') ∧
      ∀ p t, Untargeted w.chip →
        OnlySent (IdleWrite (Decodes w ∧ EngagesMix p.st w.chip) (babyfacePanelWork p t w).2.chip.panel_mix_db2) w
          (babyfacePanelWork p t w).2 := by
  have ht : w.chip.SelTracked ∧ w.chip.OutWheeled := by
    -- By induction on the run of steps.
    induction hr with
    | refl => exact ⟨hp.tracked, hp.outWheeled⟩
    | tail _ hs ih => exact ⟨hs.tracked ih.1, hs.outWheeled ih.1 ih.2⟩
  refine ⟨ht.1, fun p t => ?_, fun w' hi => ?_, fun p t hu => ?_⟩
  · obtain ⟨w', ws, hm, -, hw, hs⟩ := babyfacePanelWork_safe p t ht.1
    exact ⟨w', ws, hm, hw, hs⟩
  · -- The fields of the selection and the wheel's output go along with what the polls keep.
    have hk : (w'.chip.SelTracked ∧ w'.chip.OutWheeled) ∧
        w'.chip.preamp = w.chip.preamp ∧ w'.chip.gain = w.chip.gain ∧ OnlySent SpareWrite w w' := by
      -- By induction on the run of idle polls, with what each one sends added.
      induction hi with
      | refl => exact ⟨ht, rfl, rfl, .refl w⟩
      | tail _ hs ih =>
        obtain ⟨⟨htracked, hout⟩, hpre, hgain, hsent⟩ := ih
        obtain ⟨htracked', hpre', hgain', -⟩ := hs.keeps htracked
        obtain ⟨hout', hsent'⟩ := hs.spares htracked hout
        exact ⟨⟨htracked', hout'⟩, hpre'.trans hpre, hgain'.trans hgain, hsent.trans hsent'⟩
    exact hk.2
  · exact babyfacePanelWork_idle p t ht.1 ht.2 (ht.1.untargeted hu)

/-- A new card on which the panel shows Ch 1/2, with both channels selected. -/
def bothCard : World :=
  (bfPanelSelectPut clock0 0 2 (babyfacePanelWork ⟨![0, 0, 0x40, 0x40], 0, 0⟩ 0 freshCard).2).2

/-- SET is pressed. -/
def poweredCard : World := (babyfacePanelWork ⟨![0, 0, 0x40, 0x42], 0, 0⟩ 0 bothCard).2

/-- It is released, and none is selected. -/
def noneCard : World :=
  (bfPanelSelectPut clock0 0 3 (babyfacePanelWork ⟨![0, 0, 0x40, 0x40], 0, 0⟩ 0 poweredCard).2).2

/-- SET is pressed again, with the wheel turned by a click. -/
def sparedCard : World := (babyfacePanelWork ⟨![0, 0, 0x41, 0x42], 0, 0⟩ 0 noneCard).2

/-- MIX is pressed. -/
def shownCard : World := (babyfacePanelWork ⟨![0, 0, 0x41, 0x44], 0, 0⟩ 0 sparedCard).2

/-- The run to `bothCard`. -/
theorem bothCard_run : Relation.ReflTransGen PanelStep freshCard bothCard :=
  (Relation.ReflTransGen.single (.poll _ _ _)).tail (.put _ _ _ _)

/-- The run to `noneCard`. -/
theorem noneCard_run : Relation.ReflTransGen PanelStep freshCard noneCard :=
  ((bothCard_run.tail (.poll _ _ _)).tail (.poll _ _ _)).tail (.put _ _ _ _)

/-- The run to `sparedCard`. -/
theorem sparedCard_run : Relation.ReflTransGen PanelStep freshCard sparedCard := noneCard_run.tail (.poll _ _ _)

/-- SET has changed the preamp byte. -/
theorem poweredCard_preamp : poweredCard.chip.preamp ≠ bothCard.chip.preamp := by decide +kernel

/-- None is selected from then on. -/
theorem untargeted_cards : Untargeted noneCard.chip ∧ Untargeted sparedCard.chip ∧ Untargeted shownCard.chip := by
  have hnone : ∀ pair, (noneCard.chip.panel_sel pair < 0 ∨ noneCard.chip.panel_sel pair = 3) ∧
      (sparedCard.chip.panel_sel pair < 0 ∨ sparedCard.chip.panel_sel pair = 3) ∧
      (shownCard.chip.panel_sel pair < 0 ∨ shownCard.chip.panel_sel pair = 3) := by
    decide +kernel
  exact ⟨fun pair _ => (hnone pair).1, fun pair _ => (hnone pair).2.1, fun pair _ => (hnone pair).2.2⟩

/-- With both channels selected SET powers both microphones. With none selected SET, the gain wheel and the
press of MIX leave phantom power and the gains alone; the press writes the display of its level. -/
theorem panel_selection_safe_set :
    (SetActs ![0, 0, 0x40, 0x42] bothCard.chip poweredCard.chip ∧
        Toggled poweredCard.chip bothCard.chip.preamp poweredCard.chip.preamp) ∧
      noneCard.chip.SelTracked ∧
      (shownCard.chip.preamp = noneCard.chip.preamp ∧ shownCard.chip.gain = noneCard.chip.gain ∧
        OnlySent SpareWrite noneCard shownCard) ∧
      OnlySent (IdleWrite (Decodes sparedCard ∧ EngagesMix ![0, 0, 0x41, 0x44] sparedCard.chip)
        shownCard.chip.panel_mix_db2) sparedCard shownCard := by
  obtain ⟨hnone, hspared, hshown⟩ := untargeted_cards
  obtain ⟨-, hpoll, -⟩ := panel_selection_safe freshCard_probed bothCard_run
  obtain ⟨htracked, hpolls, hidle, -⟩ := panel_selection_safe freshCard_probed noneCard_run
  obtain ⟨-, hpolls', -, hengage⟩ := panel_selection_safe freshCard_probed sparedCard_run
  obtain ⟨w₁, ws, hset, -, hsafe⟩ := hpoll ⟨![0, 0, 0x40, 0x42], 0, 0⟩ 0
  obtain rfl : poweredCard = w₁ := congrArg Prod.snd hset
  -- The two polls with nothing selected.
  obtain ⟨w₂, -, hset₂, -⟩ := hpolls ⟨![0, 0, 0x41, 0x42], 0, 0⟩ 0
  obtain rfl : sparedCard = w₂ := congrArg Prod.snd hset₂
  obtain ⟨w₃, -, hset₃, -⟩ := hpolls' ⟨![0, 0, 0x41, 0x44], 0, 0⟩ 0
  obtain rfl : shownCard = w₃ := congrArg Prod.snd hset₃
  have hfirst : IdlePoll noneCard sparedCard := ⟨hnone, hspared, _, _, hset₂⟩
  have hsecond : IdlePoll sparedCard shownCard := ⟨hspared, hshown, _, _, hset₃⟩
  have hshows := hengage ⟨![0, 0, 0x41, 0x44], 0, 0⟩ 0 hspared
  rw [hset₃] at hshows
  dsimp only at hshows
  exact ⟨⟨hsafe.set (.inl poweredCard_preamp), hsafe.cached.resolve_left poweredCard_preamp⟩, htracked,
    hidle _ ((Relation.ReflTransGen.single hfirst).tail hsecond), hshows⟩

end BabyfacePro
