import BabyfacePro.Core.Masters
import BabyfacePro.Panel.Counter

/-!
# The panel's gains and level displays

The gain wheel, the MIX wheel and the engagement of MIX write the panel's registers of the microphones:
gains in the IN modes, level displays in MIX. The registers are those of the 8-bit masters of outputs 3
and 4. The MIX wheel leaves a display out where its shadow agrees already, but the gain wheel writes the
same registers behind the shadow, and SET and the engagement of MIX reset it without a write.
-/

namespace BabyfacePro

open Registers (last Avoids)
open Bus.M (get modify each notify when)

/-! ## What the routines write -/

/-- A write in the range of the gains. -/
theorem postGain_moves (val : U16) (idx : ℕ) :
    Moves (post BF_REQ_GAIN val idx) id (fun _ => [word BF_REQ_GAIN idx val]) fun _ => [] :=
  post_moves val idx (by decide)

/-- A write in the range of the panel's modes. -/
theorem postPreamp_moves (val : U16) (idx : ℕ) :
    Moves (post BF_REQ_PREAMP val idx) id (fun _ => [word BF_REQ_PREAMP idx val]) fun _ => [] :=
  post_moves val idx (by decide)

/-- A loop over different elements, where what the body does for one is not seen by the others. -/
theorem Moves.each {B : Type} {body : B → Usb Unit} {f : B → Chip → Chip}
    {ws : B → Chip → List (Reg × Datum)} {ns : B → Chip → List Ctl}
    (hf : ∀ b c, (f b c.quiet).quiet = (f b c).quiet) {l : List B} (hn : l.Nodup)
    (h : ∀ b ∈ l, Moves (body b) (f b) (ws b) (ns b))
    (hapart : ∀ a b c, b ≠ a → ws b (f a c).quiet = ws b c ∧ ns b (f a c).quiet = ns b c) :
    Moves (each l body) (fun c => l.foldl (fun c b => f b c) c) (fun c => l.flatMap (ws · c))
      fun c => l.flatMap (ns · c) :=
  Bus.Does.each Chip.quiet_quiet hf hn h hapart

/-- The panel's register of a microphone. -/
def dispReg (mic : Mic) : Reg := .ctl BF_REQ_GAIN (BF_REG_PANEL_GAIN + mic)

/-- Each input has its own display. -/
theorem dispReg_injective {mic mic' : Mic} (h : dispReg mic = dispReg mic') : mic = mic' := by
  have hidx := (Reg.ctl.inj h).2
  exact Fin.ext (by omega)

/-- The gain that the wheel writes for a microphone. -/
def gainTurnRegs (delta : ℤ) (mic : Mic) (c : Chip) : List (Reg × Datum) :=
  [(dispReg mic, .word ((bfGainRaw mic (gainTurn c mic delta)).setWidth 16))]

/-- A gain in the cache. -/
def setGain (mic : Mic) (db : ℤ) (c : Chip) : Chip :=
  { c with gain := Function.update c.gain mic (.ofInt 8 db) }

/-- Whether a turn changes a gain. -/
def GainMoves (delta : ℤ) (mic : Mic) (c : Chip) : Prop := gainTurn c mic delta ≠ (c.gain mic).toNat

/-- Whether a click changes a gain is a comparison. -/
instance (delta : ℤ) (mic : Mic) (c : Chip) : Decidable (GainMoves delta mic c) :=
  inferInstanceAs (Decidable (_ ≠ _))

/-- The gain in the cache after a turn. -/
def cacheGainTurn (delta : ℤ) (mic : Mic) (c : Chip) : Chip :=
  if GainMoves delta mic c then setGain mic (gainTurn c mic delta) c else c

/-- The announcement of a gain that changed. -/
def gainTurnNotes (delta : ℤ) (mic : Mic) (c : Chip) : List Ctl :=
  if GainMoves delta mic c then [.gain mic] else []

/-- A click on a gain writes its register, and says so if the gain has changed. -/
theorem gainClick_moves (delta : ℤ) (mic : Mic) :
    Moves (gainClick delta mic) (cacheGainTurn delta mic) (gainTurnRegs delta mic)
      (gainTurnNotes delta mic) := by
  refine Bus.Does.get fun c => ?_
  have hpost := postGain_moves ((bfGainRaw mic (gainTurn c mic delta)).setWidth 16) (BF_REG_PANEL_GAIN + mic)
  have hgain : Moves (announce (setGain mic (gainTurn c mic delta)) (.gain mic))
      (setGain mic (gainTurn c mic delta)) (fun _ => []) fun _ => [.gain mic] :=
    announce_moves _ fun _ => rfl
  refine ⟨_, _, _, hpost.seq (Bus.Does.ite (GainMoves delta mic c) (fun _ => hgain) fun _ =>
    Bus.Does.pure Chip.quiet_quiet) fun s => ?_, ?_, ?_, ?_⟩
  · split <;> rfl
  · rfl
  · unfold gainTurnRegs
    split <;> rfl
  · rfl

/-- The new gain does not depend on the flag count. -/
theorem cacheGainTurn_quiet (delta : ℤ) (mic : Mic) (c : Chip) :
    (cacheGainTurn delta mic c.quiet).quiet = (cacheGainTurn delta mic c).quiet := by
  have hquiet : GainMoves delta mic c.quiet ↔ GainMoves delta mic c := Iff.rfl
  unfold cacheGainTurn
  by_cases h : GainMoves delta mic c
  · rw [if_pos (hquiet.mpr h), if_pos h]
    rfl
  · rw [if_neg (mt hquiet.mp h), if_neg h]
    rfl

/-- The turn of one gain is not seen by another. -/
theorem cacheGainTurn_apart (delta : ℤ) {mic mic' : Mic} (h : mic' ≠ mic) (c : Chip) :
    (cacheGainTurn delta mic c).gain mic' = c.gain mic' := by
  unfold cacheGainTurn
  split
  · exact Function.update_of_ne h _ _
  · rfl

/-- No input is selected twice. -/
theorem selMics_nodup (c : Chip) : (selMics c).Nodup := by
  have hall : ∀ base : Mic, base = 0 ∨ base = 2 → ∀ right both : Bool, right = false ∨ both = false →
      ((if right then base + 1 else base) :: if both then [base + 1] else []).Nodup := by decide
  have hexclusive : decide (c.panel_select = 1) = false ∨ decide (c.panel_select = 2) = false := by
    simp only [decide_eq_false_iff_not]
    omega
  have hbase : (if c.panel_in = 2 then 2 else 0 : Mic) = 0 ∨ (if c.panel_in = 2 then 2 else 0 : Mic) = 2 := by
    split
    · exact .inr rfl
    · exact .inl rfl
  have hmics := hall _ hbase _ _ hexclusive
  simp only [decide_eq_true_eq] at hmics
  exact hmics

/-- Where the gain wheel has no target. -/
def GainIdle (c : Chip) : Prop := c.panel_in = 3 ∨ c.panel_select = 3

/-- Whether a gain is to be turned is a test of the cache. -/
instance (c : Chip) : Decidable (GainIdle c) := inferInstanceAs (Decidable (_ ∨ _))

/-- What the gain wheel writes. -/
def gainWheelRegs (delta : ℤ) (c : Chip) : List (Reg × Datum) :=
  if GainIdle c then [] else (selMics c).flatMap fun mic => gainTurnRegs delta mic c

/-- A turn on a gain turns the selected inputs, one after the other. -/
theorem bfPanelGainWheel_moves (delta : ℤ) :
    Moves (bfPanelGainWheel delta)
      (fun c => if GainIdle c then c else (selMics c).foldl (fun c mic => cacheGainTurn delta mic c) c)
      (gainWheelRegs delta)
      fun c => if GainIdle c then [] else (selMics c).flatMap fun mic => gainTurnNotes delta mic c := by
  refine Bus.Does.get fun c => ?_
  -- A turn of one microphone does not change what the turn of another sees, so the loop writes what each
  -- would write alone.
  have hloop := Moves.each (cacheGainTurn_quiet delta) (selMics_nodup c) (fun mic _ => gainClick_moves delta mic)
    fun mic mic' c hne => by
      have hgain : (cacheGainTurn delta mic c).quiet.gain mic' = c.gain mic' :=
        cacheGainTurn_apart delta hne c
      have hturn : gainTurn (cacheGainTurn delta mic c).quiet mic' delta = gainTurn c mic' delta := by
        unfold gainTurn
        rw [hgain]
      have hmoves : GainMoves delta mic' (cacheGainTurn delta mic c).quiet ↔ GainMoves delta mic' c := by
        unfold GainMoves
        rw [hturn, hgain]
      exact ⟨by simp only [gainTurnRegs, hturn], by simp only [gainTurnNotes, hmoves]⟩
  refine ⟨_, _, _, Bus.Does.ite (GainIdle c) (fun _ => Bus.Does.pure Chip.quiet_quiet) fun _ => hloop,
    ?_, ?_, ?_⟩
  · rfl
  · rfl
  · rfl

/-- Whether a microphone's display is written for a level: where its shadow differs. -/
def DispMoves (db2 : ℤ) (mic : Mic) (c : Chip) : Prop := bfMixDisplay db2 ≠ (c.panel_mix_disp mic).toNat

/-- Whether a display changes is a comparison. -/
instance (db2 : ℤ) (mic : Mic) (c : Chip) : Decidable (DispMoves db2 mic c) :=
  inferInstanceAs (Decidable (_ ≠ _))

/-- The display of a level on the wire. -/
def dispWord (db2 : ℤ) : Datum := .word (.ofInt 16 (bfMixDisplay db2))

/-- A display in the shadow. -/
def setDisp (mic : Mic) (db2 : ℤ) (c : Chip) : Chip :=
  { c with panel_mix_disp := Function.update c.panel_mix_disp mic (.ofInt 8 (bfMixDisplay db2)) }

/-- What the display of a level writes. -/
def dispRegs (db2 : ℤ) (mic : Mic) (c : Chip) : List (Reg × Datum) :=
  if DispMoves db2 mic c then [(dispReg mic, dispWord db2)] else []

/-- The shadow after the display of a level. -/
def cacheDisp (db2 : ℤ) (mic : Mic) (c : Chip) : Chip :=
  if DispMoves db2 mic c then setDisp mic db2 c else c

/-- The cached display does not depend on the flag count. -/
theorem cacheDisp_quiet (db2 : ℤ) (mic : Mic) (c : Chip) :
    (cacheDisp db2 mic c.quiet).quiet = (cacheDisp db2 mic c).quiet := by
  have hquiet : DispMoves db2 mic c.quiet ↔ DispMoves db2 mic c := Iff.rfl
  unfold cacheDisp
  by_cases h : DispMoves db2 mic c
  · rw [if_pos (hquiet.mpr h), if_pos h]
    rfl
  · rw [if_neg (mt hquiet.mp h), if_neg h]
    rfl

/-- A display is written if it changes. -/
theorem mixDisp_moves (db2 : ℤ) (mic : Mic) :
    Moves (mixDisp db2 mic) (cacheDisp db2 mic) (dispRegs db2 mic) fun _ => [] := by
  refine Bus.Does.get fun c => ?_
  have hpost := postGain_moves (.ofInt 16 (bfMixDisplay db2)) (BF_REG_PANEL_GAIN + mic)
  have hset : Moves (modify (setDisp mic db2)) (setDisp mic db2) (fun _ => []) fun _ => [] :=
    Bus.Does.modify fun _ => rfl
  refine ⟨_, _, _, Bus.Does.ite (DispMoves db2 mic c) (fun _ => hpost.seq hset fun _ => rfl) fun _ =>
    Bus.Does.pure Chip.quiet_quiet, ?_, ?_, ?_⟩
  · rfl
  · rfl
  · show (if DispMoves db2 mic c then _ else _) = _
    split <;> rfl

/-- The part of a display in the loop of the MIX wheel: the analog inputs have one. -/
def srcDispRegs (db2 : ℤ) (src : Src) (c : Chip) : List (Reg × Datum) :=
  if h : src.val < 4 then dispRegs db2 ⟨src, h⟩ c else []

/-- The cache after one source in the loop of the MIX wheel. -/
def cacheClick (out : Out) (db2 : ℤ) (src : Src) (c : Chip) : Chip :=
  let c := cacheXpoint out src (bfFaderDb2ToRaw db2) (bfFaderDb2ToRaw db2) c
  if h : src.val < 4 then cacheDisp db2 ⟨src, h⟩ c else c

/-- What one source in the loop of the MIX wheel writes. -/
def clickRegs (out : Out) (db2 : ℤ) (src : Src) (c : Chip) : List (Reg × Datum) :=
  xpointRegs out src (bfFaderDb2ToRaw db2) (bfFaderDb2ToRaw db2) ++ srcDispRegs db2 src c

/-- Nor does what a click on the mix caches. -/
theorem cacheClick_quiet (out : Out) (db2 : ℤ) (src : Src) (c : Chip) :
    (cacheClick out db2 src c.quiet).quiet = (cacheClick out db2 src c).quiet := by
  unfold cacheClick
  dsimp only
  split
  · exact cacheDisp_quiet db2 _ (cacheXpoint out src _ _ c)
  · rfl

/-- A click on the mix writes a fader and its display, and says so. -/
theorem mixClick_moves (out : Out) (db2 : ℤ) (src : Src) :
    Moves (mixClick out db2 src) (cacheClick out db2 src) (clickRegs out db2 src)
      fun _ => [.xpoint out src] := by
  -- The cells are cached and announced after both sides were sent.
  have hcache : Moves (announce (cacheXpoint out src (bfFaderDb2ToRaw db2) (bfFaderDb2ToRaw db2)) (.xpoint out src))
      (cacheXpoint out src (bfFaderDb2ToRaw db2) (bfFaderDb2ToRaw db2)) (fun _ => [])
      fun _ => [.xpoint out src] := announce_moves _ fun _ => rfl
  -- The microphones among the sources also have a display.
  have hdisp : Moves (if h : src.val < 4 then mixDisp db2 ⟨src, h⟩ else pure ())
      (fun c => if h : src.val < 4 then cacheDisp db2 ⟨src, h⟩ c else c) (srcDispRegs db2 src) fun _ => [] := by
    unfold srcDispRegs
    split
    · exact mixDisp_moves _ _
    · exact Bus.Does.pure Chip.quiet_quiet
  have hquiet : ∀ c : Chip, (if h : src.val < 4 then cacheDisp db2 ⟨src, h⟩ c.quiet else c.quiet).quiet =
      (if h : src.val < 4 then cacheDisp db2 ⟨src, h⟩ c else c).quiet := fun c => by
    split
    · exact cacheDisp_quiet _ _ _
    · rfl
  -- In the order of the source: left, right, the cache, and the display.
  exact Moves.nextFlag fun i => (post_moves_flag _ (xpointL_lt out src) i).seq
    ((post_moves_flag _ (xpointR_lt out src) i).seq (hcache.seq hdisp hquiet) fun c =>
      cacheClick_quiet out db2 src c) fun c => cacheClick_quiet out db2 src c

/-- The shadow of one source is not seen by another. -/
theorem cacheClick_apart (out : Out) (db2 : ℤ) {src src' : Src} (h : src' ≠ src) (c : Chip) :
    srcDispRegs db2 src' (cacheClick out db2 src c).quiet = srcDispRegs db2 src' c := by
  unfold srcDispRegs
  split
  · rename_i hs'
    -- Another microphone has its own shadow.
    have hdisp : (cacheClick out db2 src c).quiet.panel_mix_disp ⟨src', hs'⟩ = c.panel_mix_disp ⟨src', hs'⟩ := by
      unfold cacheClick cacheDisp
      dsimp only
      split
      · rename_i hs
        have hne : (⟨src', hs'⟩ : Mic) ≠ ⟨src, hs⟩ := fun he => h (Fin.ext (Fin.mk.inj he))
        split
        · exact Function.update_of_ne hne _ _
        · rfl
      · rfl
    -- So whether its display moves is the same before and after.
    have hmoves : DispMoves db2 ⟨src', hs'⟩ (cacheClick out db2 src c).quiet ↔ DispMoves db2 ⟨src', hs'⟩ c := by
      unfold DispMoves
      rw [hdisp]
    simp only [dispRegs, hmoves]
  · rfl

/-- The level of the MIX wheel after a turn. -/
def mixLevel (c : Chip) (delta : ℤ) : ℤ := max BF_FADER_DB2_INF (min (c.panel_mix_db2 + delta) 12)

/-- No source is turned twice. -/
theorem mixTargets_nodup (c : Chip) : (mixTargets c).Nodup := by
  unfold mixTargets
  split
  · exact List.nodup_singleton _
  split
  · exact (selMics_nodup c).map (Fin.castLE_injective (by decide))
  · exact List.nodup_nil

/-- What the MIX wheel writes. -/
def mixWheelRegs (delta : ℤ) (c : Chip) : List (Reg × Datum) :=
  (mixTargets c).flatMap fun src => clickRegs (bfPanelOutPair c) (mixLevel c delta) src c

/-- The level of the MIX wheel, in the state. -/
def setMixLevel (db2 : ℤ) (c : Chip) : Chip := { c with panel_mix_db2 := db2 }

/-- The cache after a turn of the MIX wheel. -/
def cacheMixWheel (delta : ℤ) (c : Chip) : Chip :=
  (mixTargets c).foldl (fun d src => cacheClick (bfPanelOutPair c) (mixLevel c delta) src d)
    (setMixLevel (mixLevel c delta) c)

/-- A turn on the mix turns its targets, one after the other. -/
theorem bfPanelMixWheel_moves (delta : ℤ) :
    Moves (bfPanelMixWheel delta) (cacheMixWheel delta) (mixWheelRegs delta) fun c =>
      (mixTargets c).map fun src => .xpoint (bfPanelOutPair c) src := by
  refine Bus.Does.get fun c => ?_
  have hset : Moves (modify (setMixLevel (mixLevel c delta))) (setMixLevel (mixLevel c delta)) (fun _ => [])
      fun _ => [] := Bus.Does.modify fun _ => rfl
  have hloop := Moves.each (cacheClick_quiet (bfPanelOutPair c) (mixLevel c delta)) (mixTargets_nodup c)
    (fun src _ => mixClick_moves (bfPanelOutPair c) (mixLevel c delta) src) fun src src' d hne =>
      ⟨by rw [clickRegs, clickRegs, cacheClick_apart _ _ hne], rfl⟩
  refine ⟨_, _, _, hset.seq hloop (Bus.foldl_seen Chip.quiet_quiet
    (cacheClick_quiet (bfPanelOutPair c) (mixLevel c delta)) (mixTargets c)), ?_, ?_, ?_⟩
  · rfl
  · rfl
  · exact List.map_eq_flatMap.symm

/-- What the engagement of MIX displays: the level of the reference source, if it is analog. -/
def seedRegs (c : Chip) : List (Reg × Datum) :=
  if h : (mixRef c).val < 4 then [(dispReg ⟨mixRef c, h⟩, dispWord c.panel_mix_db2)] else []

/-- The shadow of that display. -/
def cacheSeed (c : Chip) : Chip :=
  if h : (mixRef c).val < 4 then setDisp ⟨mixRef c, h⟩ c.panel_mix_db2 c else c

/-- The displays that MIX starts with. -/
theorem mixSeedDisp_moves : Moves mixSeedDisp cacheSeed seedRegs fun _ => [] := by
  refine Bus.Does.get fun c => ⟨fun d => if h : (mixRef c).val < 4 then setDisp ⟨mixRef c, h⟩ d.panel_mix_db2 d
    else d, fun _ => seedRegs c, fun _ => [], ?_, rfl, rfl, rfl⟩
  unfold seedRegs
  split
  · exact (postGain_moves _ _).seq (Bus.Does.modify fun _ => rfl) fun _ => rfl
  · exact Bus.Does.pure Chip.quiet_quiet

/-- They do not depend on the flag count. -/
theorem cacheSeed_quiet (c : Chip) : (cacheSeed c.quiet).quiet = (cacheSeed c).quiet := by
  unfold cacheSeed
  by_cases h : (mixRef c).val < 4
  · rw [dif_pos (show (mixRef c.quiet).val < 4 from h), dif_pos h]
    rfl
  · rw [dif_neg (show ¬ (mixRef c.quiet).val < 4 from h), dif_neg h]
    rfl

/-- MIX engaged, at the level of the reference source, and no display known. -/
def cacheEngage (c : Chip) : Chip :=
  { bfPanelMixSeed { c with panel_mix := true } with panel_mix_disp := fun _ => 0 }

/-- Engaging MIX sends its word, and then the displays. -/
theorem mixEngage_moves :
    Moves mixEngage (fun c => cacheSeed (cacheEngage c))
      (fun c => word BF_REQ_PREAMP 0x8c80 0x8480 :: seedRegs (cacheEngage c)) fun _ => [.panelMix] := by
  have hpost := postPreamp_moves 0x8480 0x8c80
  have hset : Moves (modify cacheEngage) cacheEngage (fun _ => []) fun _ => [] := Bus.Does.modify fun _ => rfl
  have hnote : Moves (notify .panelMix) id (fun _ => []) fun _ => [.panelMix] :=
    Bus.Does.notify Chip.quiet_quiet _
  have hall := hpost.seq (hset.seq (mixSeedDisp_moves.seq hnote fun _ => rfl) cacheSeed_quiet)
    fun c => cacheSeed_quiet (cacheEngage c)
  simp only [List.append_nil] at hall
  exact hall

/-- Leaving MIX sends its word. -/
theorem mixExit_moves :
    Moves mixExit (fun c => { c with panel_mix := false, panel_saw_fader := false })
      (fun _ => [word BF_REQ_PREAMP 0x8000 0x0400, word BF_REQ_PREAMP 0x8080 0x0400]) fun _ => [.panelMix] :=
  (postPreamp_moves _ _).seq ((postPreamp_moves _ _).seq (announce_moves _ fun _ => rfl) fun _ => rfl) fun _ => rfl

/-! ## The masters behind the panel's registers -/

/-- No write of the list is to a master register. -/
abbrev NoMaster (ws : List (Reg × Datum)) : Prop :=
  Avoids (fun a => ∃ out side, a = reg8 out side ∨ a = reg16 out side) ws

/-- The panel's registers are 8-bit masters of outputs 3 and 4. -/
theorem dispReg_master (mic : Mic) : ∃ out side, dispReg mic = reg8 out side := by
  revert mic
  decide

/-- Writes elsewhere write no master. -/
theorem noMaster_of_misses {ws : List (Reg × Datum)} (h : Misses Reg.isMaster ws) : NoMaster ws := by
  refine h.mono fun a ha => ?_
  obtain ⟨out, side, rfl | rfl⟩ := ha
  · exact reg8_isMaster out side
  · exact reg16_isMaster out side

/-- One write to a panel's register is one too many. -/
theorem not_noMaster (mic : Mic) (v : Datum) {ws : List (Reg × Datum)} (h : (dispReg mic, v) ∈ ws) :
    ¬ NoMaster ws := fun hno => by
  obtain ⟨out, side, he⟩ := dispReg_master mic
  exact hno _ h ⟨out, side, .inl he⟩

/-- Whatever becomes of its transfers, `m` writes no master register. -/
def SparesMasters (m : Usb Unit) (w : World) : Prop :=
  ∀ usb : ℕ → Bool, ∃ ws, (m { w with usb := usb }).2.wire.map Xfer.write = w.wire.map Xfer.write ++ ws ∧
    NoMaster ws

/-- A routine spares the masters if its list of writes does. -/
theorem Moves.spares_iff {m : Usb Unit} {f : Chip → Chip} {ws : Chip → List (Reg × Datum)}
    {ns : Chip → List Ctl} (h : Moves m f ws ns) (w : World) :
    SparesMasters m w ↔ NoMaster (ws w.chip.quiet) := by
  constructor
  · intro hs
    obtain ⟨vs, hw, hno⟩ := hs fun _ => true
    obtain ⟨w', hm, -, hw', -⟩ := h.run_live (w := { w with usb := fun _ => true }) fun _ => rfl
    rw [hm, hw'] at hw
    rwa [List.append_cancel_left hw]
  · intro hno usb
    obtain ⟨w', vs, hm, -, hw, hsub, -⟩ := h { w with usb := usb }
    rw [hm]
    exact ⟨vs, hw, fun x hx => hno x (hsub.subset hx)⟩

/-- A turn on a gain writes no master if and only if it does nothing: the gain registers are masters too. -/
theorem gainWheelRegs_noMaster (delta : ℤ) (c : Chip) : NoMaster (gainWheelRegs delta c) ↔ GainIdle c := by
  unfold gainWheelRegs
  split
  · rename_i h
    exact iff_of_true Avoids.nil h
  · rename_i h
    refine iff_of_false (fun hno => ?_) h
    have hmem : ∀ mic ∈ selMics c, ¬ NoMaster ((selMics c).flatMap fun mic => gainTurnRegs delta mic c) :=
      fun mic hm => not_noMaster mic _ (List.mem_flatMap.mpr ⟨mic, hm, List.mem_singleton_self _⟩)
    exact hmem _ List.mem_cons_self hno

/-- A source's display in the loop of the MIX wheel. -/
theorem srcDispRegs_src (db2 : ℤ) (mic : Mic) (c : Chip) : srcDispRegs db2 mic.src c = dispRegs db2 mic c :=
  dif_pos mic.isLt

/-- A click on the mix writes none unless the display of its input changes. -/
theorem clickRegs_noMaster (out : Out) (db2 : ℤ) (src : Src) (c : Chip) :
    NoMaster (clickRegs out db2 src c) ↔ ∀ mic : Mic, mic.src = src → ¬ DispMoves db2 mic c := by
  have hcross := noMaster_of_misses (xpointRegs_not_master out src (bfFaderDb2ToRaw db2) (bfFaderDb2ToRaw db2))
  constructor
  · rintro hno mic rfl hmoves
    refine not_noMaster mic (dispWord db2) (List.mem_append_right _ ?_) hno
    rw [srcDispRegs_src, dispRegs, if_pos hmoves]
    exact List.mem_singleton_self _
  · intro hall
    refine hcross.append ?_
    unfold srcDispRegs
    split
    · rename_i hs
      rw [dispRegs, if_neg (hall ⟨src, hs⟩ (Fin.ext rfl))]
      exact Avoids.nil
    · exact Avoids.nil

/-- Nor does a turn on the mix unless a display changes. -/
theorem mixWheelRegs_noMaster (delta : ℤ) (c : Chip) :
    NoMaster (mixWheelRegs delta c) ↔
      ∀ mic : Mic, mic.src ∈ mixTargets c → ¬ DispMoves (mixLevel c delta) mic c := by
  constructor
  · intro hno mic hm
    refine (clickRegs_noMaster (bfPanelOutPair c) _ _ c).mp (fun x hx => ?_) mic rfl
    exact hno x (List.mem_flatMap.mpr ⟨mic.src, hm, hx⟩)
  · intro hall
    exact Avoids.flatMap fun src hs => (clickRegs_noMaster _ _ src c).mpr fun mic he => hall mic (he ▸ hs)

/-- What MIX takes its level from is an input unless a playback is selected. -/
theorem mixRef_lt (c : Chip) : (mixRef c).val < 4 ↔ c.panel_in ≠ 3 := by
  unfold mixRef
  split
  · rename_i h
    exact iff_of_false (by decide) (not_not.mpr h)
  · rename_i h
    refine iff_of_true ?_ h
    split <;> split <;> decide

/-- Engaging MIX writes a display, and so a master's register, unless a playback is selected. -/
theorem engageRegs_noMaster (c : Chip) :
    NoMaster (word BF_REQ_PREAMP 0x8c80 0x8480 :: seedRegs (cacheEngage c)) ↔ c.panel_in = 3 := by
  have hfirst : ¬ ∃ out side, (word BF_REQ_PREAMP 0x8c80 0x8480).1 = reg8 out side ∨
      (word BF_REQ_PREAMP 0x8c80 0x8480).1 = reg16 out side := by decide
  have href : mixRef (cacheEngage c) = mixRef c := rfl
  by_cases h : (mixRef c).val < 4
  · refine iff_of_false (fun hno => ?_) ((mixRef_lt c).mp h)
    refine not_noMaster ⟨mixRef (cacheEngage c), h⟩ (dispWord (cacheEngage c).panel_mix_db2)
      (List.mem_cons_of_mem _ ?_) hno
    rw [seedRegs, dif_pos (href ▸ h)]
    exact List.mem_singleton_self _
  · refine iff_of_true (Avoids.cons hfirst ?_) (not_not.mp fun hne => h ((mixRef_lt c).mpr hne))
    rw [seedRegs, dif_neg (href ▸ h)]
    exact Avoids.nil

/-- Leaving MIX writes no master. -/
theorem mixExit_spares (w : World) : SparesMasters mixExit w := by
  have hword : ∀ idx v, ¬ ∃ out side, (word BF_REQ_PREAMP idx v).1 = reg8 out side ∨
      (word BF_REQ_PREAMP idx v).1 = reg16 out side := fun idx v ⟨out, side, he⟩ => by
    have hreq : BF_REQ_PREAMP = BF_REQ_GAIN ∨ BF_REQ_PREAMP = BF_REQ_CROSSPOINT :=
      he.imp (fun h => (Reg.ctl.inj h).1) fun h => (Reg.ctl.inj h).1
    revert hreq
    decide
  exact (mixExit_moves.spares_iff w).mpr (Avoids.cons (hword _ _) (Avoids.cons (hword _ _) Avoids.nil))

/-- A routine that does nothing writes nothing. -/
theorem spares_of_idle {m : Usb Unit} {w : World} (h : ∀ usb, (m { w with usb := usb }).2.wire = w.wire) :
    SparesMasters m w := fun usb => ⟨[], by rw [h, List.append_nil], Avoids.nil⟩

/-- A stage that runs a routine, from a state with the same wire. -/
theorem spares_of_run {m k : Usb Unit} {w w₁ : World} (hw : w₁.wire = w.wire)
    (h : ∀ usb, m { w with usb := usb } = k { w₁ with usb := usb }) : SparesMasters m w ↔ SparesMasters k w₁ := by
  unfold SparesMasters
  simp only [h, hw]

/-- The wheel's stage in a tick that turns it runs the handler of the mode. -/
theorem tickWheel_spares_iff {st : Readback} (now : ℤ) {w : World} (h : turnOf st w.chip ≠ 0) :
    SparesMasters (tickWheel st now) w ↔
      SparesMasters (turnWheel (wheelMode w.chip (wheelClass (st 2))) (turnOf st w.chip) now)
        { w with chip := countWheel (turnOf st w.chip) w.chip, notes := w.notes ++ [.panelWheel] } := by
  refine spares_of_run rfl fun usb => ?_
  rw [tickWheel_turn, if_neg h]

/-- The gain wheel, the MIX wheel and the MIX button write no master exactly where they write no gain and
no display: the gain wheel without a target, the MIX wheel where no selected microphone's display changes,
and the engagement of MIX with the optical pair shown. Leaving MIX writes none. -/
theorem gestures_spare_masters (st : Readback) (now : ℤ) (w : World) :
    (turnOf st w.chip ≠ 0 → wheelMode w.chip (wheelClass (st 2)) = .gain →
      (SparesMasters (tickWheel st now) w ↔ GainIdle w.chip)) ∧
    (turnOf st w.chip ≠ 0 → wheelMode w.chip (wheelClass (st 2)) = .mix →
      (SparesMasters (tickWheel st now) w ↔ ∀ mic : Mic, mic.src ∈ mixTargets w.chip →
        ¬ DispMoves (mixLevel w.chip (turnOf st w.chip)) mic w.chip)) ∧
    (pressed BF_PANEL_FLASH_MIX st w.chip = true →
      (SparesMasters (tickMix st) w ↔ w.chip.panel_mix = true ∨ w.chip.panel_in = 3)) ∧
    SparesMasters (tickFader st) w := by
  refine ⟨fun hturn hmode => ?_, fun hturn hmode => ?_, fun hpress => ?_, ?_⟩
  -- The gain wheel only writes gains, which lie where the masters do.
  · rw [tickWheel_spares_iff now hturn, hmode]
    exact ((bfPanelGainWheel_moves _).spares_iff _).trans (gainWheelRegs_noMaster _ _)
  -- The MIX wheel only writes a master where a display changes.
  · rw [tickWheel_spares_iff now hturn, hmode]
    exact ((bfPanelMixWheel_moves _).spares_iff _).trans (mixWheelRegs_noMaster _ _)
  -- A press ends MIX, which writes no master, or engages it.
  · cases hm : w.chip.panel_mix with
    | true =>
      have hrun : SparesMasters (tickMix st) w ↔ SparesMasters mixExit w := spares_of_run rfl fun usb => by
        show (when (pressed BF_PANEL_FLASH_MIX st w.chip) (if w.chip.panel_mix then mixExit else mixEngage) :
          Usb Unit) _ = _
        rw [hpress, hm]
        rfl
      exact iff_of_true (hrun.mpr (mixExit_spares w)) (.inl rfl)
    | false =>
      have hrun : SparesMasters (tickMix st) w ↔ SparesMasters mixEngage w := spares_of_run rfl fun usb => by
        show (when (pressed BF_PANEL_FLASH_MIX st w.chip) (if w.chip.panel_mix then mixExit else mixEngage) :
          Usb Unit) _ = _
        rw [hpress, hm]
        rfl
      -- Engaging displays the reference, except for the optical pair.
      rw [hrun, mixEngage_moves.spares_iff]
      exact (engageRegs_noMaster w.chip.quiet).trans (or_iff_right (by decide)).symm
  -- The fader's stage only ends MIX.
  · have hrun : ∀ usb, tickFader st { w with usb := usb } =
        (if st 2 >>> 4 = 0x0 then when w.chip.panel_mix (modify fun c => { c with panel_saw_fader := true })
          else when (w.chip.panel_mix && w.chip.panel_saw_fader && st 3 ≠ BF_PANEL_FLASH_MIX) mixExit :
          Usb Unit) { w with usb := usb } := fun usb => rfl
    refine (spares_of_run rfl hrun).mpr ?_
    split
    · exact spares_of_idle fun usb => by cases w.chip.panel_mix <;> rfl
    · cases w.chip.panel_mix && w.chip.panel_saw_fader && decide (st 3 ≠ BF_PANEL_FLASH_MIX)
      · exact spares_of_idle fun usb => rfl
      · exact mixExit_spares w

/-- The fresh card with Ch 1/2 shown and a selection put, and no failed transfer. -/
def selectedCard (sel : ℕ) : World :=
  { (bfPut clock0 ⟨fun _ => 0, sel⟩ (.panelSelect 0)
      (babyfacePanelWork ⟨![0, 0, 0x40, 0], 0, 0⟩ 0 (freshCardWith fun _ => true)).2).2 with
    usb := fun _ => true }

/-- A card on which an input was selected is reachable. -/
theorem selectedCard_reachable (sel : ℕ) : Reachable (selectedCard sel) :=
  (((freshCardWith_reachable _).step (.poll _ _ _)).step (.put _ _ _ _)).step (.outcomes _ _)

/-- The card with a crosspoint faded, and MIX pressed and released. -/
def mixedCard : World :=
  (babyfacePanelWork ⟨![0, 0, 0x40, 0x40], 0, 0⟩ 0
    (babyfacePanelWork ⟨![0, 0, 0x40, 0x44], 0, 0⟩ 0
      (bfPut clock0 ⟨fun _ => 8192, 0⟩ (.xpoint 0 0) (selectedCard 0)).2).2).2

/-- The left channel's gain, the press that engages MIX, and a click of the MIX wheel that moves the display
write a master each; the gain wheel with no channel selected, a click too small for the display, the press
that ends MIX and a turned fader write none. -/
theorem gestures_spare_masters_mixed :
    (SparesMasters (tickWheel ![0, 0, 0x41, 0] 0) (selectedCard 3) ∧
        ¬ SparesMasters (tickWheel ![0, 0, 0x41, 0] 0) (selectedCard 0)) ∧
      (SparesMasters (tickWheel ![0, 0, 0x4f, 0x40] 0) mixedCard ∧
        ¬ SparesMasters (tickWheel ![0, 0, 0x41, 0x40] 0) mixedCard) ∧
      (SparesMasters (tickMix ![0, 0, 0x40, 0x44]) mixedCard ∧
        ¬ SparesMasters (tickMix ![0, 0, 0x40, 0x44]) (selectedCard 0)) ∧
      SparesMasters (tickFader ![0, 0, 0, 0x40]) mixedCard := by
  obtain ⟨hnone, -⟩ := gestures_spare_masters ![0, 0, 0x41, 0] 0 (selectedCard 3)
  obtain ⟨hleft, -, -⟩ := gestures_spare_masters ![0, 0, 0x41, 0] 0 (selectedCard 0)
  obtain ⟨-, hdown, -⟩ := gestures_spare_masters ![0, 0, 0x4f, 0x40] 0 mixedCard
  obtain ⟨-, hup, -⟩ := gestures_spare_masters ![0, 0, 0x41, 0x40] 0 mixedCard
  obtain ⟨-, -, hexit, -⟩ := gestures_spare_masters ![0, 0, 0x40, 0x44] 0 mixedCard
  obtain ⟨-, -, hengage, -⟩ := gestures_spare_masters ![0, 0, 0x40, 0x44] 0 (selectedCard 0)
  have hmoved : ¬ ∀ mic : Mic, mic.src ∈ mixTargets mixedCard.chip →
      ¬ DispMoves (mixLevel mixedCard.chip (turnOf ![0, 0, 0x41, 0x40] mixedCard.chip)) mic mixedCard.chip :=
    fun h => h 0 (by decide +kernel) (by decide +kernel)
  exact ⟨⟨(hnone (by decide +kernel) (by decide +kernel)).mpr (by decide +kernel),
      (hleft (by decide +kernel) (by decide +kernel)).not.mpr (by decide +kernel)⟩,
    ⟨(hdown (by decide +kernel) (by decide +kernel)).mpr (by decide +kernel),
      (hup (by decide +kernel) (by decide +kernel)).not.mpr hmoved⟩,
    ⟨(hexit (by decide +kernel)).mpr (by decide +kernel), (hengage (by decide +kernel)).not.mpr (by decide +kernel)⟩,
    (gestures_spare_masters ![0, 0, 0, 0x40] 0 mixedCard).2.2.2⟩

/-- With the left channel selected a click of the gain wheel writes the gain to an 8-bit master of
output 3. -/
theorem gestures_move_master :
    ¬ ∀ (st : Readback) (now : ℤ) (w : World), Reachable w → turnOf st w.chip ≠ 0 →
      wheelMode w.chip (wheelClass (st 2)) = .gain → SparesMasters (tickWheel st now) w := by
  intro hall
  have hturn : turnOf ![0, 0, 0x41, 0] (selectedCard 0).chip ≠ 0 := by decide +kernel
  have hmode : wheelMode (selectedCard 0).chip (wheelClass ((![0, 0, 0x41, 0] : Readback) 2)) = .gain := by
    decide +kernel
  have hwrite : (reg8 3 0, Datum.word 0x20) ∈ gainWheelRegs (turnOf ![0, 0, 0x41, 0] (selectedCard 0).chip)
      (countWheel (turnOf ![0, 0, 0x41, 0] (selectedCard 0).chip) (selectedCard 0).chip).quiet := by decide +kernel
  have hspare := hall ![0, 0, 0x41, 0] 0 (selectedCard 0) (selectedCard_reachable 0) hturn hmode
  rw [tickWheel_spares_iff 0 hturn, hmode] at hspare
  exact ((bfPanelGainWheel_moves _).spares_iff _).mp hspare _ hwrite ⟨3, 0, .inl rfl⟩

end BabyfacePro
