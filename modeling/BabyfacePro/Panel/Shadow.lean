import BabyfacePro.Panel.Display
import BabyfacePro.Panel.Latch

/-!
# The shadow of the level displays

The MIX wheel remembers the value that each microphone's display was given, and leaves a write out where
the value is the same. The shadow is in step with the display's register where the register holds it. A
turn of the MIX wheel keeps that, and so do all stages but three: the gain wheel writes the register
alone, and SET and the engagement of MIX reset the shadow alone.
-/

namespace BabyfacePro

open Registers (last Avoids)
open Bus.M (get modify when)

/-! ## Display and shadow -/

/-- What is displayed is a byte. -/
theorem bfMixDisplay_bounds (db2 : ℤ) : 0 ≤ bfMixDisplay db2 ∧ bfMixDisplay db2 < 256 := by
  have hcurve : ∀ n : Fin 116, 0 ≤ faderDb2ToRaw ((n.val : ℤ) - 124) mixDisplayPts ∧
      faderDb2ToRaw ((n.val : ℤ) - 124) mixDisplayPts < 256 := by decide
  unfold bfMixDisplay
  split
  · omega
  · rename_i hlow
    split
    · rename_i hhigh
      have hn := hcurve ⟨(db2 + 124).toNat, by omega⟩
      have hdb : (((db2 + 124).toNat : ℕ) : ℤ) - 124 = db2 := by omega
      rwa [show ((⟨(db2 + 124).toNat, by omega⟩ : Fin 116).val : ℤ) - 124 = db2 from hdb] at hn
    · omega

/-- A display in the shadow reads back as it is. -/
theorem disp_toNat (db2 : ℤ) : (((.ofInt 8 (bfMixDisplay db2) : U8)).toNat : ℤ) = bfMixDisplay db2 := by
  obtain ⟨hlow, hhigh⟩ := bfMixDisplay_bounds db2
  rw [BitVec.toNat_ofInt]
  omega

/-- The word that a microphone's shadow stands for. -/
def shadowWord (c : Chip) (mic : Mic) : Datum := .word ((c.panel_mix_disp mic).setWidth 16)

/-- A microphone's shadow is in step: its register was last given it. -/
def InStep (w : World) (mic : Mic) : Prop :=
  last (w.wire.map Xfer.write) (dispReg mic) = some (shadowWord w.chip mic)

/-- The word of a display has its byte. -/
theorem dispWord_eq (db2 : ℤ) :
    dispWord db2 = .word ((.ofInt 8 (bfMixDisplay db2) : U8).setWidth 16) := by
  obtain ⟨hlow, hhigh⟩ := bfMixDisplay_bounds db2
  have hword : (.ofInt 16 (bfMixDisplay db2) : U16) = (.ofInt 8 (bfMixDisplay db2) : U8).setWidth 16 := by
    apply BitVec.eq_of_toNat_eq
    rw [BitVec.toNat_setWidth, BitVec.toNat_ofInt, BitVec.toNat_ofInt]
    omega
  exact congrArg Datum.word hword

/-- A display is left out where the shadow has it. -/
theorem disp_of_not_moves {db2 : ℤ} {mic : Mic} {c : Chip} (h : ¬ DispMoves db2 mic c) :
    c.panel_mix_disp mic = .ofInt 8 (bfMixDisplay db2) := by
  apply BitVec.eq_of_toNat_eq
  have hdisp := disp_toNat db2
  unfold DispMoves at h
  omega

/-! ## A turn of the MIX wheel -/

/-- A display in the cache is that of its own input. -/
theorem cacheDisp_disp (db2 : ℤ) (mic mic' : Mic) (c : Chip) :
    (cacheDisp db2 mic c).panel_mix_disp mic' =
      if mic' = mic then .ofInt 8 (bfMixDisplay db2) else c.panel_mix_disp mic' := by
  unfold cacheDisp
  split
  · exact Function.update_apply ..
  · rename_i h
    split
    · rename_i he
      rw [he]
      exact disp_of_not_moves h
    · rfl

/-- A click on the mix displays the level of its source. -/
theorem cacheClick_disp (out : Out) (db2 : ℤ) (src : Src) (mic : Mic) (c : Chip) :
    (cacheClick out db2 src c).panel_mix_disp mic =
      if mic.src = src then .ofInt 8 (bfMixDisplay db2) else c.panel_mix_disp mic := by
  unfold cacheClick
  dsimp only
  split
  · rename_i hs
    have hmic : mic = ⟨src, hs⟩ ↔ mic.src = src := by
      rw [Fin.ext_iff, Fin.ext_iff]
      rfl
    rw [cacheDisp_disp]
    simp only [hmic]
    rfl
  · rename_i hs
    have hne : mic.src ≠ src := fun he => hs (he ▸ mic.isLt)
    rw [if_neg hne]
    rfl

/-- The shadows after the loop of the MIX wheel. -/
theorem foldl_cacheClick_disp (out : Out) (db2 : ℤ) (mic : Mic) (l : List Src) (c : Chip) :
    (l.foldl (fun d src => cacheClick out db2 src d) c).panel_mix_disp mic =
      if mic.src ∈ l then .ofInt 8 (bfMixDisplay db2) else c.panel_mix_disp mic := by
  induction l generalizing c with
  | nil => simp
  | cons src l ih =>
    rw [List.foldl_cons, ih, cacheClick_disp]
    by_cases hl : mic.src ∈ l
    · rw [if_pos hl, if_pos (List.mem_cons_of_mem _ hl)]
    · rw [if_neg hl]
      simp only [List.mem_cons, hl, or_false]

/-- What a turn leaves in the shadows: the display of its level for the microphones that it moves. -/
theorem cacheMixWheel_disp (delta : ℤ) (mic : Mic) (c : Chip) :
    (cacheMixWheel delta c).panel_mix_disp mic =
      if mic.src ∈ mixTargets c then .ofInt 8 (bfMixDisplay (mixLevel c delta)) else c.panel_mix_disp mic :=
  foldl_cacheClick_disp ..

/-- A fader writes no display. -/
theorem xpointRegs_dispReg (out : Out) (src : Src) (l r : U16) (mic : Mic) :
    last (xpointRegs out src l r) (dispReg mic) = none := by
  have hne : ∀ idx v, (xreg idx v).1 ≠ dispReg mic := fun idx v he => by
    have hreq := (Reg.ctl.inj he).1
    revert hreq
    decide
  refine Registers.last_eq_none fun hm => ?_
  obtain ⟨x, hx, he⟩ := List.mem_map.mp hm
  simp only [xpointRegs, List.mem_cons, List.not_mem_nil, or_false] at hx
  obtain rfl | rfl := hx
  · exact hne _ _ he
  · exact hne _ _ he

/-- A click on the mix writes the display of its input, if it changes. -/
theorem last_clickRegs (out : Out) (db2 : ℤ) (src : Src) (mic : Mic) (c : Chip) :
    last (clickRegs out db2 src c) (dispReg mic) =
      if mic.src = src ∧ DispMoves db2 mic c then some (dispWord db2) else none := by
  -- A display register belongs to one source, so a click on another does not write it.
  have hapart : mic.src ≠ src → last (srcDispRegs db2 src c) (dispReg mic) = none := fun hne => by
    unfold srcDispRegs
    split
    · rename_i hs
      refine Registers.last_eq_none fun hm => hne ?_
      unfold dispRegs at hm
      split at hm
      · have he := dispReg_injective (List.mem_singleton.mp hm)
        rw [he]
        rfl
      · cases hm
    · rfl
  -- The crosspoint's registers are not those of the displays, so the display's own are what counts.
  rw [clickRegs, Registers.last_append, xpointRegs_dispReg, Option.or_none]
  by_cases hs : mic.src = src
  · rw [← hs, srcDispRegs_src, dispRegs]
    split
    · rename_i hmoves
      rw [if_pos ⟨rfl, hmoves⟩, Registers.last_singleton, if_pos rfl]
    · rename_i hmoves
      rw [if_neg fun h => hmoves h.2]
      rfl
  · rw [hapart hs, if_neg fun h => hs h.1]

/-- What a turn leaves in the display registers: the display of its level, where it is not left out. -/
theorem last_mixWheelRegs (delta : ℤ) (mic : Mic) (c : Chip) :
    last (mixWheelRegs delta c) (dispReg mic) =
      if mic.src ∈ mixTargets c ∧ DispMoves (mixLevel c delta) mic c then
        some (dispWord (mixLevel c delta))
      else none := by
  -- Each source of the turn is one click.
  have hclick := fun src => last_clickRegs (bfPanelOutPair c) (mixLevel c delta) src mic c
  -- A click on another source does not write this display.
  have havoid : ∀ src, mic.src ≠ src → Avoids (fun a => a = dispReg mic)
      (clickRegs (bfPanelOutPair c) (mixLevel c delta) src c) := fun src hne x hx he => by
    have hmem : dispReg mic ∈ (clickRegs (bfPanelOutPair c) (mixLevel c delta) src c).map Prod.fst :=
      List.mem_map.mpr ⟨x, hx, he⟩
    obtain ⟨v, hv⟩ := Registers.last_isSome hmem
    rw [hclick, if_neg fun h => hne h.1] at hv
    cases hv
  -- The microphone's own source is the last that writes it.
  by_cases hm : mic.src ∈ mixTargets c
  · have hown := Registers.last_flatMap_of_mem (a := dispReg mic) hm fun src _ hne => havoid src hne.symm
    rw [mixWheelRegs, hown, hclick]
    simp only [hm, true_and]
  · rw [if_neg fun h => hm h.1]
    refine Avoids.last_eq_none (.flatMap fun src hs => havoid src fun he => hm (he ▸ hs)) rfl

/-- A turn of the MIX wheel leaves every shadow of a microphone that it moves at the level's display, and
its register holds the display exactly where the write was not left out, or the shadow was in step. -/
theorem bfPanelMixWheel_inStep (delta : ℤ) {w : World} (hl : Live w) (mic : Mic) :
    (mic.src ∈ mixTargets w.chip →
      (last ((bfPanelMixWheel delta w).2.wire.map Xfer.write) (dispReg mic) =
          some (dispWord (mixLevel w.chip delta)) ↔
        DispMoves (mixLevel w.chip delta) mic w.chip ∨ InStep w mic)) ∧
      (InStep w mic → InStep (bfPanelMixWheel delta w).2 mic) := by
  obtain ⟨w', hrun, hc, hw, -⟩ := (bfPanelMixWheel_moves delta).run_live hl
  have hquiet : mixTargets w.chip.quiet = mixTargets w.chip := rfl
  have hlevel : mixLevel w.chip.quiet delta = mixLevel w.chip delta := rfl
  have hmoves : DispMoves (mixLevel w.chip delta) mic w.chip.quiet ↔
      DispMoves (mixLevel w.chip delta) mic w.chip := Iff.rfl
  -- The shadow is set to the level's display whether the register is written or not.
  have hshadow : w'.chip.panel_mix_disp mic =
      if mic.src ∈ mixTargets w.chip then .ofInt 8 (bfMixDisplay (mixLevel w.chip delta))
      else w.chip.panel_mix_disp mic := by
    have hdisp := congrArg (fun c : Chip => c.panel_mix_disp mic) hc
    exact hdisp.trans (cacheMixWheel_disp delta mic w.chip.quiet)
  -- The register has the level's display where a click wrote it, else what it had.
  have hlast : last (w'.wire.map Xfer.write) (dispReg mic) =
      if mic.src ∈ mixTargets w.chip ∧ DispMoves (mixLevel w.chip delta) mic w.chip then
        some (dispWord (mixLevel w.chip delta))
      else last (w.wire.map Xfer.write) (dispReg mic) := by
    rw [hw, Registers.last_append, last_mixWheelRegs]
    simp only [hquiet, hlevel, hmoves]
    split
    · rfl
    · rw [Option.none_or]
  rw [hrun]
  constructor
  · intro hm
    -- A write that was left out needs the register to hold what the shadow says.
    rw [hlast]
    by_cases hd : DispMoves (mixLevel w.chip delta) mic w.chip
    · rw [if_pos ⟨hm, hd⟩]
      exact iff_of_true rfl (.inl hd)
    · rw [if_neg fun h => hd h.2, or_iff_right hd, InStep, shadowWord, disp_of_not_moves hd, ← dispWord_eq]
  · intro hin
    show last (w'.wire.map Xfer.write) (dispReg mic) = some (shadowWord w'.chip mic)
    rw [hlast, shadowWord, hshadow]
    -- The microphone is moved: its write was made, or left out as the shadow was already there.
    by_cases hm : mic.src ∈ mixTargets w.chip
    · rw [if_pos hm, ← dispWord_eq]
      split
      · rfl
      · rename_i hno
        have hd : ¬ DispMoves (mixLevel w.chip delta) mic w.chip := fun h => hno ⟨hm, h⟩
        have hsame : last (w.wire.map Xfer.write) (dispReg mic) = some (shadowWord w.chip mic) := hin
        rw [hsame, shadowWord, disp_of_not_moves hd, ← dispWord_eq]
    -- It is not moved: neither shadow nor register changes.
    · rw [if_neg hm, if_neg fun h => hm h.1]
      exact hin

/-! ## The other stages -/

/-- The registers of the displays and their shadows are left alone. -/
structure Unshown (w w' : World) : Prop where
  wire : ∀ mic, last (w'.wire.map Xfer.write) (dispReg mic) = last (w.wire.map Xfer.write) (dispReg mic)
  shadow : w'.chip.panel_mix_disp = w.chip.panel_mix_disp

/-- Nothing is displayed. -/
theorem Unshown.refl (w : World) : Unshown w w := ⟨fun _ => rfl, rfl⟩

/-- Nor by two parts that display nothing. -/
theorem Unshown.trans {w w₁ w₂ : World} (h : Unshown w w₁) (h' : Unshown w₁ w₂) : Unshown w w₂ :=
  ⟨fun mic => (h'.wire mic).trans (h.wire mic), h'.shadow.trans h.shadow⟩

/-- The displays stay in step, or out of it. -/
theorem Unshown.inStep_iff {w w' : World} (h : Unshown w w') (mic : Mic) : InStep w' mic ↔ InStep w mic := by
  unfold InStep shadowWord
  rw [h.wire, h.shadow]

/-- A write that is not of a display. -/
def OffDisp (x : Reg × Datum) : Prop := ∀ mic, x.1 ≠ dispReg mic

/-- A routine that leaves the displays and the shadows alone. -/
abbrev Unshows (m : Usb Unit) : Prop :=
  Bus.Frames Xfer.write (fun c d : Chip => d.panel_mix_disp = c.panel_mix_disp) OffDisp (fun _ => True) m

/-- What displays nothing leaves the displays. -/
theorem Unshows.unshown {m : Usb Unit} (h : Unshows m) (w : World) : Unshown w (m w).2 where
  wire mic := by
    obtain ⟨ws, hw, hoff⟩ := h.wire w
    have hnone : last ws (dispReg mic) = none := Avoids.last_eq_none (S := fun a => a = dispReg mic)
      (fun x hx he => hoff x hx mic he) rfl
    rw [hw, Registers.last_append, hnone, Option.none_or]
  shadow := h.state w

/-- What leaves the cached displays alone, part by part. -/
theorem dispFrame : Bus.Framing fun c d : Chip => d.panel_mix_disp = c.panel_mix_disp :=
  Bus.Framing.view fun c : Chip => c.panel_mix_disp

/-- A word of another request is no display. -/
theorem offDisp_req {req idx : ℕ} {v : Datum} (h : req ≠ BF_REQ_GAIN) : OffDisp (.ctl req idx, v) :=
  fun _ he => h (Reg.ctl.inj he).1

/-- A gain is no display. -/
theorem offDisp_low {idx : ℕ} {v : Datum} (h : idx < BF_REG_PANEL_GAIN) : OffDisp (.ctl BF_REQ_GAIN idx, v) :=
  fun mic he => by
    have hidx := (Reg.ctl.inj he).2
    omega

/-- The masters of the outputs that the panel selects are no displays. -/
theorem dispOutFrame : OutFrame (fun c d : Chip => d.panel_mix_disp = c.panel_mix_disp) OffDisp where
  framing := dispFrame
  flag _ _ := rfl
  low _ _ _ h := offDisp_low h
  cross _ _ := offDisp_req (by decide)
  master _ _ _ _ := rfl
  tracked _ _ _ _ _ := rfl
  resynced _ := rfl

/-- The resync is of an output of the OUT wheel. -/
theorem bfPanelOutResync_unshown (now : ℤ) {w : World} (h : w.chip.OutWheeled) :
    Unshown w (bfPanelOutResync now w).2 := by
  obtain ⟨m, hm, hrun⟩ := dispOutFrame.resync (X := fun _ => True) now h
  rw [hrun]
  exact Unshows.unshown hm w

/-! ## The output of the OUT wheel -/

/-- The wheel's frame for the output of the OUT wheel. -/
theorem outWheelFrame : WheelFrame (fun c d : Chip => c.OutWheeled → d.OutWheeled) fun _ => True :=
  ⟨Bus.Framing.keeps _, fun _ _ hc => hc, fun _ _ => trivial, fun _ _ => trivial⟩

/-- The clicks of a readback keep the wheel on the outputs in its range. -/
theorem tickWheel_outWheeled (st : Readback) (now : ℤ) :
    Bus.Frames Xfer.write (fun c d : Chip => c.OutWheeled → d.OutWheeled) (fun _ => True) (· = .fault)
      (tickWheel st now) :=
  tickWheel_frames outWheelFrame (fun _ _ hc => hc) (fun _ _ _ _ hc => hc) (fun _ _ _ _ _ hlt _ => hlt)
    (fun _ _ hc => hc) (fun _ _ _ _ _ hc => hc) (fun _ _ hc => hc) (fun _ _ hc => hc) st now

/-- So does a readback. -/
theorem decode_outWheeled (p : Poll) :
    Bus.Frames Xfer.write (fun c d : Chip => c.OutWheeled → d.OutWheeled) (fun _ => True) (· = .fault)
      (decode p) := by
  have h := outWheelFrame
  have hR := h.framing
  -- The stages in the order of the source, each with what it may set.
  unfold decode
  refine hR.bind (tickButton_frames hR (fun _ _ hc => hc) _) fun _ => ?_
  refine hR.bind (tickWheel_outWheeled _ _) fun _ => ?_
  refine hR.bind (bfPanelOutResync_frames h (fun _ hc => hc) _) fun _ => ?_
  refine hR.bind (tickIn_frames hR (fun _ _ hc => hc) _) fun _ => ?_
  refine hR.bind (tickOut_frames hR (fun _ _ hc => hc) _) fun _ => ?_
  refine hR.bind (tickSelect_frames (X := (· = .fault)) hR rfl (fun _ _ hc => hc) (fun _ hc => hc)
    (fun _ hc => hc) _) fun _ => ?_
  refine hR.bind (tickHold_frames hR (fun _ _ hc => hc) _) fun _ => ?_
  refine hR.bind (tickSet_frames hR (fun _ _ hc => hc) (fun _ _ hc => hc) (fun _ => trivial)
    (fun _ => trivial) _) fun _ => ?_
  refine hR.bind (tickDimPress_frames hR (fun _ _ hc => hc) _) fun _ => ?_
  refine hR.bind (tickMix_frames h mixXfers_all (fun _ hc => hc) (fun _ hc => hc) (fun _ _ hc => hc) _)
    fun _ => ?_
  refine hR.bind (tickFader_frames hR mixXfers_all (fun _ hc => hc) (fun _ hc => hc) _) fun _ => ?_
  exact hR.bind (tickDim_frames hR (fun _ _ hc => hc) _) fun _ => hR.modify fun _ hc => hc

/-- A poll keeps the OUT wheel's last output one that the panel selects. -/
theorem babyfacePanelWork_outWheeled (p : Poll) (t : ℤ) {w : World} (ht : w.chip.SelTracked)
    (h : w.chip.OutWheeled) : (babyfacePanelWork p t w).2.chip.OutWheeled := by
  by_cases hreads : Reads w
  swap
  · obtain ⟨usb, t', hdeaf⟩ := babyfacePanelWork_deaf p t hreads
    rw [hdeaf]
    exact h
  cases hseen : w.chip.panel_seen with
  | false =>
    rw [babyfacePanelWork_first p t hreads hseen]
    exact h
  | true =>
    rw [babyfacePanelWork_decode p t hreads hseen ht]
    exact (decode_outWheeled p).state (heard w) h

/-- A new card has turned no OUT wheel. -/
theorem Probed.outWheeled {st0 : U8} {reprobe : Bool} {jiffies : ℤ} {p : Params} {w : World}
    (h : Probed st0 reprobe jiffies p w) : w.chip.OutWheeled := by
  have hzero : w.chip.panel_out_wheel_out = 0 := congrArg Panel.panel_out_wheel_out h.panel
  unfold Chip.OutWheeled
  rw [hzero]
  decide

/-- At all times the OUT wheel's last output is one that the panel selects. -/
theorem Reachable.outWheeled {w : World} (h : Reachable w) : w.chip.OutWheeled := by
  obtain ⟨_, _, _, _, w₀, hp, hr⟩ := h
  induction hr with
  | refl => exact hp.outWheeled
  | @tail w w' hrun hs ih =>
    obtain ⟨p, t, rfl⟩ | hoff := hs.poll_or
    · exact babyfacePanelWork_outWheeled p t (Reachable.tracked ⟨_, _, _, _, w₀, hp, hrun⟩) ih
    · have hput : ∀ (s : Setting) (c : Chip), (s.cache c).panel_out_wheel_out = c.panel_out_wheel_out ∧
          (s.failed c).panel_out_wheel_out = c.panel_out_wheel_out :=
        fun s c => by cases s <;> exact ⟨rfl, rfl⟩
      have hview := hoff.view (v := fun c => c.panel_out_wheel_out) (fun _ => rfl) hput
        (bfPanelSelectPut_keeps (Bus.Framing.view _) (fun _ => rfl) (fun _ _ _ => rfl) (fun _ => rfl)
          fun _ => rfl)
        (fun _ _ => rfl) (fun _ => rfl) (fun _ => rfl) (fun _ _ => rfl) fun _ _ => rfl
      unfold Chip.OutWheeled
      rwa [hview]

/-! ## A poll -/

/-- A turn of the gain wheel that moves a microphone. -/
def GainTurned (p : Poll) (w : World) (mic : Mic) : Prop :=
  turnOf p.st w.chip ≠ 0 ∧ wheelMode w.chip (wheelClass (p.st 2)) = .gain ∧ ¬ GainIdle w.chip ∧
    mic ∈ selMics w.chip

/-- A press that resets the shadows: SET or MIX, with MIX off. -/
def Resets (p : Poll) (w : World) : Prop :=
  w.chip.panel_mix = false ∧
    (pressed BF_PANEL_FLASH_SET p.st w.chip = true ∨ pressed BF_PANEL_FLASH_MIX p.st w.chip = true)

/-- A poll that may take a microphone's shadow out of step. -/
def Unsettles (p : Poll) (w : World) (mic : Mic) : Prop := Decodes w ∧ (GainTurned p w mic ∨ Resets p w)

/-- What MIX writes besides is no display. -/
theorem mixXfers_offDisp : MixXfers OffDisp :=
  ⟨offDisp_req (by decide), offDisp_req (by decide), offDisp_req (by decide)⟩

/-- The middle of the decoding displays nothing. -/
theorem decodeMid_unshows (p : Poll) : Unshows (decodeMid p) := by
  refine dispFrame.bind (tickIn_frames dispFrame (fun _ _ => rfl) _) fun _ => ?_
  refine dispFrame.bind (tickOut_frames dispFrame (fun _ _ => rfl) _) fun _ => ?_
  refine dispFrame.bind (tickSelect_frames dispFrame trivial (fun _ _ => rfl) (fun _ => rfl)
    (fun _ => rfl) _) fun _ => ?_
  exact tickHold_frames dispFrame (fun _ _ => rfl) _

/-- SET resets the shadows only with MIX off. -/
theorem tickSet_unshown {st : Readback} {w : World}
    (h : ¬ (w.chip.panel_mix = false ∧ pressed BF_PANEL_FLASH_SET st w.chip = true)) :
    Unshown w (tickSet st w).2 := by
  obtain hrun | ⟨hpress, hmix, -⟩ := tickSet_run st w
  · rw [hrun]
    exact .refl w
  · exact absurd ⟨hmix, hpress⟩ h

/-- MIX resets them as it is engaged. -/
theorem tickMix_unshown {st : Readback} {w : World}
    (h : ¬ (w.chip.panel_mix = false ∧ pressed BF_PANEL_FLASH_MIX st w.chip = true)) :
    Unshown w (tickMix st w).2 := by
  have hexit : Unshows mixExit := mixExit_frames dispFrame mixXfers_offDisp fun _ => rfl
  unfold tickMix
  rw [Bus.M.bind_of_ok (Bus.M.get_run w)]
  cases hpress : pressed BF_PANEL_FLASH_MIX st w.chip with
  | false => exact .refl w
  | true =>
    have hmix : w.chip.panel_mix = true := Bool.not_eq_false _ ▸ fun hm => h ⟨hm, hpress⟩
    rw [hmix]
    exact hexit.unshown w

/-- After the wheel's stage only a reset touches the displays or their shadows. -/
theorem decode_unshown (p : Poll) {w : World} (ht : w.chip.SelTracked) (ho : w.chip.OutWheeled)
    (h : ¬ Resets p w) : Unshown (tickWheel p.st p.now (tickButton p.st w).2).2 (decode p w).2 := by
  have hhead := (decodeHead_press p).state w
  have hout : (tickWheel p.st p.now (tickButton p.st w).2).2.chip.OutWheeled :=
    (tickWheel_outWheeled _ _).state _ ((tickButton_frames (T := fun _ => True) (X := fun _ => True)
      outWheelFrame.framing (fun _ _ hc => hc) p.st).state w ho)
  have hresync := bfPanelOutResync_unshown p.rest hout
  rw [← decodeHead_run] at hresync
  have hsel := (decodeMid_press p).state (decodeHead p w).2
  have hset := (tickSet_press p.st).state (decodeMid p (decodeHead p w).2).2
  have hdim := (tickDimPress_press p.st).state (tickSet p.st (decodeMid p (decodeHead p w).2).2).2
  have hmid := (decodeMid_unshows p).unshown (decodeHead p w).2
  rw [decode_run p ht, decodeTail_run]
  -- The worlds before SET and before MIX.
  generalize (decodeMid p (decodeHead p w).2).2 = w₄ at hsel hset hdim hmid ⊢
  have hbefore₄ := hsel.trans hhead
  simp only [Chip.pressView, Chip.latch, Prod.mk.injEq] at hbefore₄
  have hset₅ : Unshown w₄ (tickSet p.st w₄).2 := tickSet_unshown fun hs => h
    ⟨hbefore₄.1.1 ▸ hs.1, .inl (pressed_congr hbefore₄.2 _ _ ▸ hs.2)⟩
  have hpress₆ := Unshows.unshown (tickDimPress_frames dispFrame (fun _ _ => rfl) p.st) (tickSet p.st w₄).2
  generalize (tickDimPress p.st (tickSet p.st w₄).2).2 = w₆ at hdim hpress₆ ⊢
  have hbefore₆ := hdim.trans (hset.trans (hsel.trans hhead))
  simp only [Chip.pressView, Chip.latch, Prod.mk.injEq] at hbefore₆
  have hmix₇ : Unshown w₆ (tickMix p.st w₆).2 := tickMix_unshown fun hs => h
    ⟨hbefore₆.1.1 ▸ hs.1, .inr (pressed_congr hbefore₆.2 _ _ ▸ hs.2)⟩
  have hfader₈ := Unshows.unshown (tickFader_frames dispFrame mixXfers_offDisp (fun _ => rfl) (fun _ => rfl)
    p.st) (tickMix p.st w₆).2
  have hdim₉ := Unshows.unshown (tickDim_frames dispFrame (fun _ _ => rfl) p.st)
    (tickFader p.st (tickMix p.st w₆).2).2
  have hrest := hresync.trans (hmid.trans (hset₅.trans (hpress₆.trans (hmix₇.trans (hfader₈.trans hdim₉)))))
  exact ⟨hrest.wire, hrest.shadow⟩

/-- The gain wheel leaves the microphones alone that it does not move. -/
theorem bfPanelGainWheel_inStep (delta : ℤ) {w : World} (hl : Live w) {mic : Mic}
    (h : GainIdle w.chip ∨ mic ∉ selMics w.chip) (hin : InStep w mic) :
    InStep (bfPanelGainWheel delta w).2 mic := by
  -- No gain turn touches the shadows, so only the registers can get out of step.
  have hshadow := (bfPanelGainWheel_frames (X := fun _ => False) (viewFrame (v := fun c => c.panel_mix_disp)
    fun _ _ => rfl) (fun _ _ => rfl) delta).state w
  obtain ⟨w', hrun, -, hw, -⟩ := (bfPanelGainWheel_moves delta).run_live hl
  rw [hrun] at hshadow ⊢
  -- The gain wheel writes the gains of the selected microphones, in the registers of their displays.
  have hnone : last (gainWheelRegs delta w.chip.quiet) (dispReg mic) = none := by
    unfold gainWheelRegs
    split
    · rfl
    · rename_i hidle
      have hmic : mic ∉ selMics w.chip := h.resolve_left hidle
      refine Avoids.last_eq_none (S := fun a => a = dispReg mic) (.flatMap fun mic' hm' x hx he => ?_) rfl
      rw [List.mem_singleton.mp hx] at he
      exact hmic (dispReg_injective he ▸ hm')
  show last (w'.wire.map Xfer.write) (dispReg mic) = some (shadowWord w'.chip mic)
  have hsame : shadowWord w'.chip mic = shadowWord w.chip mic := by
    unfold shadowWord
    rw [hshadow]
  rw [hw, Registers.last_append, hnone, Option.none_or, hsame]
  exact hin

/-- The wheel's stage keeps a shadow in step, unless the gain wheel moves the microphone. -/
theorem tickWheel_inStep {p : Poll} {w : World} (hl : Live w) {mic : Mic} (h : ¬ GainTurned p w mic)
    (hin : InStep w mic) : InStep (tickWheel p.st p.now w).2 mic := by
  rw [tickWheel_turn]
  split
  · exact hin
  rename_i hturn
  -- Counting the clicks sends nothing and sets no shadow.
  have hcount : Unshown w { w with chip := countWheel (turnOf p.st w.chip) w.chip, notes := w.notes ++ [.panelWheel] } :=
    ⟨fun _ => rfl, rfl⟩
  have hin₁ := (hcount.inStep_iff mic).mpr hin
  -- The modes but the gain wheel move no microphone out of step.
  cases hmode : wheelMode w.chip (wheelClass (p.st 2)) with
  | mix => exact (bfPanelMixWheel_inStep _ (by exact hl) mic).2 hin₁
  | balance =>
    have hrest := Unshows.unshown (dispOutFrame.balanceWheel (turnOf p.st w.chip)) { w with
      chip := countWheel (turnOf p.st w.chip) w.chip, notes := w.notes ++ [.panelWheel] }
    exact (hrest.inStep_iff mic).mpr hin₁
  | out =>
    have hrest := Unshows.unshown (dispOutFrame.outWheel (turnOf p.st w.chip) p.now) { w with
      chip := countWheel (turnOf p.st w.chip) w.chip, notes := w.notes ++ [.panelWheel] }
    exact (hrest.inStep_iff mic).mpr hin₁
  | gain =>
    -- The gain wheel does not move this microphone, as it was not turned on it.
    have hapart : GainIdle w.chip ∨ mic ∉ selMics w.chip := by
      by_contra hno
      rw [not_or, not_not] at hno
      exact h ⟨hturn, hmode, hno.1, hno.2⟩
    exact bfPanelGainWheel_inStep _ (by exact hl) hapart hin₁
  | none => exact hin₁

/-- Only a turn of the gain wheel and a reset take a shadow out of step. -/
theorem babyfacePanelWork_inStep {w : World} (hr : Reachable w) (hl : Live w) (p : Poll) (t : ℤ) {mic : Mic}
    (h : ¬ Unsettles p w mic) (hin : InStep w mic) : InStep (babyfacePanelWork p t w).2 mic := by
  by_cases hreads : Reads w
  swap
  · obtain ⟨usb, t', hdeaf⟩ := babyfacePanelWork_deaf p t hreads
    rw [hdeaf]
    exact hin
  cases hseen : w.chip.panel_seen with
  | false =>
    rw [babyfacePanelWork_first p t hreads hseen]
    exact hin
  | true =>
    have hno : ¬ (GainTurned p w mic ∨ Resets p w) := fun hor => h ⟨⟨hreads, hseen⟩, hor⟩
    rw [not_or] at hno
    rw [babyfacePanelWork_decode p t hreads hseen hr.tracked]
    have hbutton := Unshows.unshown (tickButton_frames dispFrame (fun _ _ => rfl) p.st) (heard w)
    have hlive : Live (tickButton p.st (heard w)).2 := (tickButton_frames (T := fun _ => True)
      (X := fun _ => True) dispFrame (fun _ _ => rfl) p.st).live fun i => hl _
    have hafter := decode_unshown p (w := heard w) hr.tracked hr.outWheeled hno.2
    -- The button's stage is not seen by the wheel.
    have hview := (tickButton_frames (T := fun _ => True) (X := fun _ => True)
      (Bus.Framing.view fun c => (c.panel_prev, c.panel_mix, c.panel_sel_hold, c.panel_in, c.panel_select))
      (fun _ _ => rfl) p.st).state (heard w)
    generalize (tickButton p.st (heard w)).2 = w₁ at hbutton hlive hafter hview
    simp only [Prod.mk.injEq] at hview
    obtain ⟨hprev, hmix, hhold, hpair, hselect⟩ := hview
    have hturned : ¬ GainTurned p w₁ mic := by
      unfold GainTurned turnOf wheelMode GainIdle selMics
      rw [hprev, hmix, hhold, hpair, hselect]
      exact hno.1
    have hwheel := tickWheel_inStep hlive hturned ((hbutton.inStep_iff mic).mpr hin)
    exact (hafter.inStep_iff mic).mpr hwheel

/-- A poll that turns the MIX wheel. -/
def MixTurned (p : Poll) (w : World) : Prop :=
  Decodes w ∧ w.chip.panel_mix = true ∧ turnOf p.st w.chip ≠ 0

/-- After a turn of the MIX wheel each microphone that it moved has the display of the turn's level. -/
def Displays (p : Poll) (t : ℤ) (w : World) : Prop :=
  ∀ mic : Mic, mic.src ∈ mixTargets w.chip →
    last ((babyfacePanelWork p t w).2.wire.map Xfer.write) (dispReg mic) =
      some (dispWord (mixLevel w.chip (turnOf p.st w.chip)))

/-- The turn writes the display of each microphone whose shadow is out of step. -/
def Refreshes (p : Poll) (w : World) : Prop :=
  ∀ mic : Mic, mic.src ∈ mixTargets w.chip → ¬ InStep w mic →
    DispMoves (mixLevel w.chip (turnOf p.st w.chip)) mic w.chip

/-- A turn on the mix displays its level if and only if the shadow differs. -/
theorem MixTurned.displays_iff {p : Poll} {w : World} (h : MixTurned p w) (hr : Reachable w) (hl : Live w)
    (t : ℤ) : Displays p t w ↔ Refreshes p w := by
  obtain ⟨⟨hreads, hseen⟩, hmix, hturn⟩ := h
  -- In MIX no display is reset before the wheel's stage.
  have hno : ¬ Resets p (heard w) := fun hs => by
    rw [show w.chip.panel_mix = false from hs.1] at hmix
    cases hmix
  -- The button's stage comes before the wheel's and sends nothing to a display.
  have hbutton := Unshows.unshown (tickButton_frames dispFrame (fun _ _ => rfl) p.st) (heard w)
  have hlive : Live (tickButton p.st (heard w)).2 := (tickButton_frames (T := fun _ => True)
    (X := fun _ => True) dispFrame (fun _ _ => rfl) p.st).live fun i => hl _
  -- Nor does what comes after it.
  have hafter := decode_unshown p (w := heard w) hr.tracked hr.outWheeled hno
  -- What the wheel goes by is as it was before the button.
  have hview := (tickButton_frames (T := fun _ => True) (X := fun _ => True)
    (Bus.Framing.view fun c => (c.panel_prev, c.panel_mix, c.panel_in, c.panel_select, c.panel_mix_db2))
    (fun _ _ => rfl) p.st).state (heard w)
  unfold Displays Refreshes
  rw [babyfacePanelWork_decode p t hreads hseen hr.tracked]
  generalize (tickButton p.st (heard w)).2 = w₁ at hbutton hlive hafter hview
  simp only [Prod.mk.injEq] at hview
  obtain ⟨hprev, hmix₁, hpair, hselect, hdb2⟩ := hview
  have hturn₁ : turnOf p.st w₁.chip = turnOf p.st w.chip := by
    unfold turnOf
    rw [hprev]
    rfl
  have hmode : wheelMode w₁.chip (wheelClass (p.st 2)) = .mix := if_pos (hmix₁.trans hmix)
  have htargets : mixTargets w₁.chip = mixTargets w.chip := by
    unfold mixTargets selMics
    rw [hpair, hselect]
    rfl
  have hlevel : mixLevel w₁.chip (turnOf p.st w.chip) = mixLevel w.chip (turnOf p.st w.chip) := by
    unfold mixLevel
    rw [hdb2]
    rfl
  rw [tickWheel_turn, hturn₁, if_neg hturn, hmode] at hafter
  -- For each microphone that is moved: the register holds the display, or the shadow was in step.
  refine forall₂_congr fun mic hm => ?_
  have hwheel := (bfPanelMixWheel_inStep (turnOf p.st w.chip) (w := { w₁ with
    chip := countWheel (turnOf p.st w.chip) w₁.chip, notes := w₁.notes ++ [.panelWheel] }) (by exact hlive)
    mic).1 (htargets ▸ hm)
  have hin : InStep w₁ mic ↔ InStep w mic := hbutton.inStep_iff mic
  have hmoves : DispMoves (mixLevel w.chip (turnOf p.st w.chip)) mic w₁.chip ↔
      DispMoves (mixLevel w.chip (turnOf p.st w.chip)) mic w.chip := by
    unfold DispMoves
    rw [hbutton.shadow]
    rfl
  have hdisplay : last ((decode p (heard w)).2.wire.map Xfer.write) (dispReg mic) =
      some (dispWord (mixLevel w.chip (turnOf p.st w.chip))) ↔
        DispMoves (mixLevel w.chip (turnOf p.st w.chip)) mic w₁.chip ∨ InStep w₁ mic := by
    rw [hafter.wire mic, ← hlevel]
    exact hwheel
  -- That is what it means to refresh what is out of step.
  have hor : DispMoves (mixLevel w.chip (turnOf p.st w.chip)) mic w₁.chip ∨ InStep w₁ mic ↔
      (¬ InStep w mic → DispMoves (mixLevel w.chip (turnOf p.st w.chip)) mic w.chip) := by
    rw [hmoves, hin, or_comm, or_iff_not_imp_left]
  exact hdisplay.trans hor

/-! ## Runs of polls -/

/-- A poll of the panel. -/
def Ticks (w w' : World) : Prop := ∃ p t, w' = (babyfacePanelWork p t w).2

/-- A run of ticks leads to a reachable card, whose transfers get through. -/
theorem Ticks.run {w w' : World} (h : Relation.ReflTransGen Ticks w w') (hr : Reachable w) (hl : Live w) :
    Reachable w' ∧ Live w' := by
  induction h with
  | refl => exact ⟨hr, hl⟩
  | tail _ hs ih =>
    obtain ⟨hr₁, hl₁⟩ := ih
    obtain ⟨p, t, rfl⟩ := hs
    exact ⟨hr₁.step (.poll p t _), (babyfacePanelWork_stream p t).live hl₁⟩

/-- In every run of polls without a failed transfer: a turn of the MIX wheel leaves the display of its
level in the registers of the microphones that it moves exactly where it writes the display of each whose
shadow is out of step. A shadow falls out of step only by a turn of the gain wheel that moves its
microphone, by SET, or as MIX is engaged. -/
theorem display_shadow {w w' : World} (hr : Reachable w) (hl : Live w)
    (hrun : Relation.ReflTransGen Ticks w w') :
    (∀ p t, MixTurned p w' → (Displays p t w' ↔ Refreshes p w')) ∧
      ∀ p t mic, InStep w' mic → ¬ Unsettles p w' mic → InStep (babyfacePanelWork p t w').2 mic := by
  obtain ⟨hr', hl'⟩ := Ticks.run hrun hr hl
  exact ⟨fun p t h => h.displays_iff hr' hl' t, fun p t mic hin h => babyfacePanelWork_inStep hr' hl' p t h hin⟩

/-- Polls of readbacks, one after the other. -/
def polls (w : World) : List Readback → World
  | [] => w
  | st :: l => polls (babyfacePanelWork ⟨st, 0, 0⟩ 0 w).2 l

/-- Polls in a row are such a run. -/
theorem polls_run (w : World) (l : List Readback) : Relation.ReflTransGen Ticks w (polls w l) := by
  induction l generalizing w with
  | nil => exact .refl
  | cons st l ih => exact .head ⟨_, _, rfl⟩ (ih _)

/-- The card in MIX at −117 half-dB, with one channel selected. -/
def raisedMix : World := polls (selectedCard 0) [![0, 0, 0x40, 0x44], ![0, 0, 0x47, 0x44]]

/-- Seven more clicks there. -/
theorem display_shadow_raised : Displays ⟨![0, 0, 0x4e, 0x44], 0, 0⟩ 0 raisedMix := by
  have hturned : MixTurned ⟨![0, 0, 0x4e, 0x44], 0, 0⟩ raisedMix :=
    ⟨⟨by decide +kernel, by decide +kernel⟩, by decide +kernel, by decide +kernel⟩
  have hmoves : ∀ mic : Mic, mic.src ∈ mixTargets raisedMix.chip →
      DispMoves (mixLevel raisedMix.chip (turnOf ![0, 0, 0x4e, 0x44] raisedMix.chip)) mic raisedMix.chip := by
    decide +kernel
  have hrun : Relation.ReflTransGen Ticks (selectedCard 0) raisedMix := polls_run _ _
  exact ((display_shadow (selectedCard_reachable 0) (fun _ => rfl) hrun).1 _ 0 hturned).mpr
    fun mic hm _ => hmoves mic hm

/-- With both selected, a click of the gain wheel, the press of MIX at the lowest level, and a click of the
MIX wheel: the right channel's display keeps the gain. -/
theorem display_shadow_lost :
    ¬ ∀ w w', Reachable w → Live w → Relation.ReflTransGen Ticks w w' →
      ∀ p t, MixTurned p w' → Displays p t w' := by
  intro hall
  have hturned : MixTurned ⟨![0, 0, 0x40, 0x44], 0, 0⟩
      (polls (selectedCard 2) [![0, 0, 0x41, 0], ![0, 0, 0x41, 0x44]]) :=
    ⟨⟨by decide +kernel, by decide +kernel⟩, by decide +kernel, by decide +kernel⟩
  have hright := hall _ _ (selectedCard_reachable 2) (fun _ => rfl) (polls_run _ _) _ 0 hturned 1
    (by decide +kernel)
  revert hright
  decide +kernel

end BabyfacePro
