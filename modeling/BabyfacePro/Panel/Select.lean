import BabyfacePro.Core.Probe
import Mathlib.Logic.Relation

/-!
# The selection and phantom power

SELECT's state is kept in four fields and rewritten by IN switches, presses, puts, first snapshots,
and restarts. `Chip.SelTracked` says how the fields belong together; every one of these keeps it, so
no poll reads outside an array, and SET can only reach the microphones that the selection names. A
poll is taken apart at SET: what comes before keeps the preamp byte, and what comes after keeps the
selection.
-/

namespace BabyfacePro

open Bus.M (get modify when)

/-! ## The fields of the selection -/

/-- The four fields of the selection belong together. -/
structure Chip.SelTracked (c : Chip) : Prop where
  /-- The selection is known when the panel shows an IN pair and that pair's entry is known. -/
  known : c.panel_select_known = true ↔ ∃ pair, shownPair c = some pair ∧ 0 ≤ c.panel_sel pair
  /-- The known selection is the pair's entry. -/
  select : ∀ pair, shownPair c = some pair → 0 ≤ c.panel_sel pair → c.panel_select = c.panel_sel pair
  /-- An unknown selection targets nothing. -/
  unknown : c.panel_select_known = false → c.panel_select = 3
  /-- The entries are selections or unknown. -/
  range : ∀ pair, -1 ≤ c.panel_sel pair ∧ c.panel_sel pair ≤ 3

/-- The fields of the selection. -/
def Chip.sel (c : Chip) : ℕ × (Fin 3 → ℤ) × ℤ × Bool :=
  (c.panel_in, c.panel_sel, c.panel_select, c.panel_select_known)

/-- Another cache with the same input shows the same pair. -/
theorem shownPair_congr {c d : Chip} (h : d.panel_in = c.panel_in) : shownPair d = shownPair c := by
  unfold shownPair
  simp only [h]

/-- The selection shown depends on its fields only. -/
theorem Chip.SelTracked.congr {c d : Chip} (hc : c.SelTracked) (h : d.sel = c.sel) :
    d.SelTracked := by
  simp only [Chip.sel, Prod.mk.injEq] at h
  obtain ⟨hi, hs, hp, hk⟩ := h
  have hsp := shownPair_congr hi
  refine ⟨?_, ?_, ?_, ?_⟩
  · rw [hk, hsp, hs]; exact hc.known
  · rw [hsp, hs, hp]; exact hc.select
  · rw [hk, hp]; exact hc.unknown
  · rw [hs]; exact hc.range

/-- What is shown of a pair is its selection. -/
theorem shownSel_eq {c : Chip} {pair : Fin 3} (h : shownPair c = some pair) :
    shownSel c = c.panel_sel pair := by
  unfold shownSel
  rw [h]

/-- Where no pair is shown, nothing is selected. -/
theorem shownSel_of_none {c : Chip} (h : shownPair c = none) : shownSel c = -1 := by
  unfold shownSel
  rw [h]

/-- Loading the selection of the pair shown brings the fields together, whatever they were. -/
theorem selLoad_tracked {c : Chip} (h : ∀ pair, -1 ≤ c.panel_sel pair ∧ c.panel_sel pair ≤ 3) :
    (bfPanelSelLoad c).SelTracked where
  known := by
    -- Loading does not change which pair is shown.
    have hs : shownPair (bfPanelSelLoad c) = shownPair c := rfl
    rw [hs]
    show decide (0 ≤ shownSel c) = true ↔ ∃ pair, shownPair c = some pair ∧ 0 ≤ c.panel_sel pair
    rw [decide_eq_true_iff]
    cases hp : shownPair c with
    | none => simp [shownSel_of_none hp]
    | some pair => simp [shownSel_eq hp]
  select pair hp hs := by
    have hp : shownPair c = some pair := hp
    have hs : 0 ≤ c.panel_sel pair := hs
    show (if 0 ≤ shownSel c then shownSel c else 3) = c.panel_sel pair
    rw [shownSel_eq hp, if_pos hs]
  -- Where nothing is known the selection is the one past the inputs.
  unknown hk := by
    have hk : decide (0 ≤ shownSel c) = false := hk
    exact if_neg (of_decide_eq_false hk)
  range := h

/-- SELECT's step keeps the fields together. -/
theorem stepSelect_tracked {c : Chip} (hc : c.SelTracked) {pair : Fin 3}
    (hp : shownPair c = some pair) (hk : c.panel_select_known = true) :
    (stepSelect pair c).SelTracked where
  known := by
    -- The step goes on to the next selection, which is not the unknown one.
    have hu : (stepSelect pair c).panel_sel pair = (c.panel_select + 1) % 4 :=
      Function.update_self _ _ _
    have : 0 ≤ (stepSelect pair c).panel_sel pair := by rw [hu]; omega
    exact iff_of_true hk ⟨pair, hp, this⟩
  select pair' hp' _ := by
    -- The pair that is shown is the one that was stepped.
    have hp' : shownPair c = some pair' := hp'
    obtain rfl : pair = pair' := Option.some.inj (hp.symm.trans hp')
    exact (Function.update_self pair ((c.panel_select + 1) % 4) c.panel_sel).symm
  unknown h := by
    have h : c.panel_select_known = false := h
    rw [hk] at h
    cases h
  range pair' := by
    show -1 ≤ Function.update c.panel_sel pair ((c.panel_select + 1) % 4) pair' ∧
      Function.update c.panel_sel pair ((c.panel_select + 1) % 4) pair' ≤ 3
    -- The other pairs keep their selection.
    by_cases h : pair' = pair
    · subst h
      rw [Function.update_self]
      omega
    · rw [Function.update_of_ne h]
      exact hc.range pair'

/-- Where SELECT acts, an IN pair is shown: the index is in range. -/
theorem Chip.SelTracked.shown {c : Chip} (hc : c.SelTracked) (hk : c.panel_select_known = true) :
    ∃ pair, shownPair c = some pair :=
  let ⟨pair, hp, _⟩ := hc.known.mp hk
  ⟨pair, hp⟩

/-- A selection that targets something is left, right or both. -/
theorem Chip.SelTracked.target {c : Chip} (hc : c.SelTracked) (h : c.panel_select ≠ 3) :
    c.panel_select_known = true ∧ 0 ≤ c.panel_select ∧ c.panel_select ≤ 2 := by
  cases hk : c.panel_select_known with
  | false => exact absurd (hc.unknown hk) h
  | true =>
    obtain ⟨pair, hp, hs⟩ := hc.known.mp hk
    have he := hc.select pair hp hs
    have hr := hc.range pair
    exact ⟨rfl, by omega, by omega⟩

/-! ## The stages -/

/-- The preamp byte's register. -/
abbrev preampReg : Reg := .ctl BF_REQ_PREAMP BF_REG_PREAMP

/-- A write other than one of the preamp byte. -/
def OffPreamp (x : Reg × Datum) : Prop := x.1 ≠ preampReg

/-- A panel routine that leaves `v` alone, does not write the preamp byte, and returns. -/
abbrev Spares {β : Type} (v : Chip → β) (m : Usb Unit) : Prop :=
  Bus.Frames Xfer.write (fun s t => v t = v s) OffPreamp (fun _ => False) m

/-- A word of another request is off the preamp. -/
theorem offPreamp_of_req {req : ℕ} (idx : ℕ) (v : U16) (h : req ≠ BF_REQ_PREAMP) :
    OffPreamp (word req idx v) := fun he => h (Reg.ctl.inj he).1

/-- So is what MIX writes. -/
theorem offPreamp_mix : MixXfers OffPreamp := by
  constructor <;> unfold OffPreamp <;> decide

/-- A view without the place in the flag cycle, for the wheel. -/
theorem wheelFrame_view {β : Type} {v : Chip → β} (h : ∀ c n, v { c with flag_cnt := n } = v c) :
    WheelFrame (fun s t => v t = v s) OffPreamp where
  framing := Bus.Framing.view v
  flag := h
  gain idx v := offPreamp_of_req idx v (by decide)
  cross idx v := offPreamp_of_req idx v (by decide)

/-- The clicks of a readback spare the selection, 48V and MIX. -/
theorem tickWheel_spares (st : Readback) (now : ℤ) :
    Spares (fun c => (c.sel, c.preamp, c.panel_mix, c.panel_prev)) (tickWheel st now) :=
  tickWheel_frames (wheelFrame_view fun _ _ => rfl) (fun _ _ => rfl) (fun _ _ _ _ => rfl)
    (fun _ _ _ _ _ _ => rfl) (fun _ _ => rfl) (fun _ _ _ _ _ => rfl) (fun _ _ => rfl)
    (fun _ _ => rfl) _ _

/-- So does the head of the decoding. -/
theorem decodeHead_spares (p : Poll) :
    Spares (fun c => (c.sel, c.preamp, c.panel_mix, c.panel_prev)) (decodeHead p) := by
  have h : WheelFrame (fun s t : Chip => (t.sel, t.preamp, t.panel_mix, t.panel_prev) =
      (s.sel, s.preamp, s.panel_mix, s.panel_prev)) OffPreamp := wheelFrame_view fun _ _ => rfl
  exact h.framing.bind (tickButton_frames h.framing (fun _ _ => rfl) _) fun _ =>
    h.framing.bind (tickWheel_spares _ _) fun _ => bfPanelOutResync_frames h (fun _ => rfl) _

/-- Its middle spares 48V, the gains and MIX. -/
theorem decodeMid_frames (p : Poll) :
    Bus.Frames Xfer.write (fun s t : Chip => (t.preamp, t.gain, t.panel_mix, t.panel_prev) =
      (s.preamp, s.gain, s.panel_mix, s.panel_prev)) OffPreamp (· = .fault) (decodeMid p) := by
  have h : WheelFrame (fun s t : Chip => (t.preamp, t.gain, t.panel_mix, t.panel_prev) =
      (s.preamp, s.gain, s.panel_mix, s.panel_prev)) OffPreamp := wheelFrame_view fun _ _ => rfl
  refine h.framing.bind (tickIn_frames h.framing (fun _ _ => rfl) _) fun _ => ?_
  refine h.framing.bind (tickOut_frames h.framing (fun _ _ => rfl) _) fun _ => ?_
  refine h.framing.bind (tickSelect_frames (X := (· = .fault)) h.framing rfl (fun _ _ => rfl) (fun _ => rfl)
    (fun _ => rfl) _) fun _ => ?_
  exact tickHold_frames h.framing (fun _ _ => rfl) _

/-- Its tail spares the selection, 48V and the gains. -/
theorem decodeTail_spares (p : Poll) :
    Spares (fun c => (c.sel, c.preamp, c.gain)) (decodeTail p) := by
  have h : WheelFrame (fun s t : Chip => (t.sel, t.preamp, t.gain) =
      (s.sel, s.preamp, s.gain)) OffPreamp := wheelFrame_view fun _ _ => rfl
  refine h.framing.bind (tickDimPress_frames h.framing (fun _ _ => rfl) _) fun _ => ?_
  refine h.framing.bind (tickMix_frames h offPreamp_mix (fun _ => rfl) (fun _ => rfl)
    (fun _ _ => rfl) _) fun _ => ?_
  refine h.framing.bind (tickFader_frames h.framing offPreamp_mix (fun _ => rfl) (fun _ => rfl) _)
    fun _ => ?_
  exact h.framing.bind (tickDim_frames h.framing (fun _ _ => rfl) _) fun _ => h.framing.modify fun _ => rfl

/-! ## SET -/

/-- The 48V bits that a value differs in are those of the selection, and with both selected it has
both or none. -/
structure Toggled (sel : Chip) (old v : U16) : Prop where
  /-- Only the bits of the selected microphones differ. -/
  frame : (v ^^^ old) &&& ~~~phantomBits sel = 0
  /-- Both microphones end equal. -/
  both : sel.panel_select = 2 → (v &&& BF_PREAMP_48V_MIC1 ≠ 0 ↔ v &&& BF_PREAMP_48V_MIC2 ≠ 0)

/-- Bits that are set, cleared or flipped within a mask leave the others alone. -/
theorem frame_bits (p bits : U16) :
    ((p ||| bits) ^^^ p) &&& ~~~bits = 0 ∧ ((p &&& ~~~bits) ^^^ p) &&& ~~~bits = 0 ∧
      ((p ^^^ bits) ^^^ p) &&& ~~~bits = 0 := by
  refine ⟨?_, ?_, ?_⟩ <;> ext i hi <;> simp <;> cases p[i] <;> cases bits[i] <;> decide

/-- A bit that is set is set. -/
theorem or_and_of_and {p a b : U16} (h : a &&& b = b) : (p ||| a) &&& b = b := by
  rw [BitVec.and_or_distrib_right, h]
  ext i hi
  simp

/-- A bit that is cleared is clear. -/
theorem and_not_and {p a b : U16} (h : ~~~a &&& b = 0#16) : p &&& ~~~a &&& b = 0#16 := by
  rw [BitVec.and_assoc, h, BitVec.and_zero]

/-- Setting or clearing both 48V bits makes them equal. -/
theorem both_bits (p : U16) :
    ((p ||| 3) &&& BF_PREAMP_48V_MIC1 ≠ 0 ↔ (p ||| 3) &&& BF_PREAMP_48V_MIC2 ≠ 0) ∧
      (p &&& ~~~3 &&& BF_PREAMP_48V_MIC1 ≠ 0 ↔ p &&& ~~~3 &&& BF_PREAMP_48V_MIC2 ≠ 0) := by
  constructor
  · rw [or_and_of_and (by decide), or_and_of_and (by decide)]
    decide
  · rw [and_not_and (by decide), and_not_and (by decide)]

/-- SET toggles 48V on the selected inputs. -/
theorem phantomToggle_toggled (c : Chip) : Toggled c c.preamp (phantomToggle c) where
  frame := by
    obtain ⟨hor, hand, hxor⟩ := frame_bits c.preamp (phantomBits c)
    unfold phantomToggle
    -- Both microphones: on if one of them was off.
    by_cases h : c.panel_select = 2
    · rw [if_pos h]
      by_cases hb : c.preamp &&& phantomBits c = phantomBits c
      · rw [if_pos hb]; exact hand
      · rw [if_neg hb]; exact hor
    · rw [if_neg h]; exact hxor
  both h := by
    -- Of both selected the two bits go together.
    have hb : phantomBits c = 3 := by
      unfold phantomBits
      rw [h]
      decide
    obtain ⟨hor, hand⟩ := both_bits c.preamp
    unfold phantomToggle
    rw [if_pos h, hb]
    by_cases hp : c.preamp &&& 3 = 3
    · rw [if_pos hp]; exact hand
    · rw [if_neg hp]; exact hor

/-- The selection decides which bits are toggled. -/
theorem Toggled.congr {c d : Chip} {old v : U16} (h : Toggled c old v)
    (hd : d.panel_select = c.panel_select) : Toggled d old v where
  frame := by
    have hb : phantomBits d = phantomBits c := by unfold phantomBits; rw [hd]
    rw [hb]
    exact h.frame
  both hs := h.both (hd ▸ hs)

/-- SET toggles the phantom power of the selected microphones, or nothing: where a transfer fails,
the cached byte is what it was. -/
theorem bfPanelSetPhantom_run (w : World) :
    (bfPanelSetPhantom w = (.ok (), w)) ∨
      (w.chip.panel_mix = false ∧ w.chip.panel_in = 1 ∧ w.chip.panel_select ≠ 3 ∧
        ∃ w' ws, bfPanelSetPhantom w = (.ok (), w') ∧
          w'.wire.map Xfer.write = w.wire.map Xfer.write ++ ws ∧
          (w'.chip.preamp = w.chip.preamp ∨ w'.chip.preamp = phantomToggle w.chip) ∧
          ∀ x ∈ ws, x.1 = preampReg → x.2 = .word (phantomToggle w.chip)) := by
  -- In MIX, on another input or with nothing selected the button does nothing.
  by_cases hg : w.chip.panel_mix ∨ w.chip.panel_in ≠ 1 ∨ w.chip.panel_select = 3
  · left
    unfold bfPanelSetPhantom
    rw [Bus.M.bind_of_ok (Bus.M.get_run w), if_pos hg]
    rfl
  simp only [not_or, not_not, Bool.not_eq_true] at hg
  refine .inr ⟨hg.1, hg.2.1, hg.2.2, ?_⟩
  -- The write of the byte, with the cache set before it and put back where it fails.
  set m : Usb Unit := Bus.M.settle cachePhantom bfPreampStateWrite restorePreamp with hm
  obtain ⟨-, hc, hw, -, -⟩ := Bus.Sends.settle bfPreampStateWrite_writes Chip.quiet_quiet
    (fun c => rfl : ∀ c : Chip, (cachePhantom c.quiet).quiet = (cachePhantom c).quiet)
    (fun _ _ => rfl : ∀ old c : Chip,
      (restorePreamp old.quiet c.quiet).quiet = (restorePreamp old c).quiet) w
  rw [← hm] at hc hw
  generalize Bus.delivered w.usb _ = k at hc hw
  obtain ⟨b, hi⟩ := Bus.M.attempt_run m w
  -- What follows the write changes neither the byte nor the wire.
  have hf : Bus.Frames Xfer.write (fun s t : Chip => t.preamp = s.preamp) (fun _ => False) (fun _ => False)
      (phantomNotify w.chip.preamp) := by
    have hR := Bus.Framing.view fun c : Chip => c.preamp
    exact hR.bind hR.get fun _ => hR.bind (hR.when _ fun _ => hR.notify _) fun _ =>
      hR.bind (hR.when _ fun _ => hR.notify _) fun _ => hR.modify fun _ => rfl
  -- The notifications and the read of the byte follow.
  obtain ⟨_, w', hw'⟩ := hf.run_ok (m w).2
  have hp := hf.state (m w).2
  obtain ⟨vs, hv, hno⟩ := hf.wire (m w).2
  rw [hw'] at hp hv
  obtain rfl : vs = [] := List.eq_nil_iff_forall_not_mem.mpr fun x hx => hno x hx
  refine ⟨w', (preampRegs (cachePhantom w.chip.quiet).quiet).take k, ?_, ?_, ?_, ?_⟩
  · unfold bfPanelSetPhantom
    rw [Bus.M.bind_of_ok (Bus.M.get_run w), if_neg (by simp [hg]), ← hm]
    unfold Bus.M.ignore
    simp only [bind_assoc, Bus.M.bind_of_ok hi, pure_bind]
    exact hw'
  · rw [hv, List.append_nil]
    exact hw
  -- The byte is the one written, or the one put back.
  · have hq : (m w).2.chip.quiet.preamp = w.chip.preamp ∨
        (m w).2.chip.quiet.preamp = phantomToggle w.chip := by
      rw [hc]
      split
      · exact .inr rfl
      · exact .inl rfl
    rw [hp]
    exact hq
  · intro x hx he
    have hx := List.mem_of_mem_take hx
    -- Of the two registers written only the first is that of the byte.
    simp only [preampRegs, commitRegs, List.mem_cons, List.not_mem_nil, or_false] at hx
    obtain rfl | rfl := hx
    · rfl
    · exact absurd he (show Reg.ctl BF_REQ_PREAMP_COMMIT 0x0000 ≠ preampReg by decide)

/-- The SET key does nothing, or writes 48V toggled where an input is selected. -/
theorem tickSet_run (st : Readback) (w : World) :
    tickSet st w = (.ok (), w) ∨
      (pressed BF_PANEL_FLASH_SET st w.chip = true ∧ w.chip.panel_mix = false ∧
        w.chip.panel_in = 1 ∧ w.chip.panel_select ≠ 3 ∧
        ∃ w' ws, tickSet st w = (.ok (), w') ∧
          w'.wire.map Xfer.write = w.wire.map Xfer.write ++ ws ∧
          (w'.chip.preamp = w.chip.preamp ∨ w'.chip.preamp = phantomToggle w.chip) ∧
          ∀ x ∈ ws, x.1 = preampReg → x.2 = .word (phantomToggle w.chip)) := by
  have ht : tickSet st w = (when (pressed BF_PANEL_FLASH_SET st w.chip) bfPanelSetPhantom : Usb Unit) w :=
    rfl
  rw [ht]
  cases pressed BF_PANEL_FLASH_SET st w.chip with
  | false => exact .inl rfl
  | true =>
    obtain h | h := bfPanelSetPhantom_run w
    · exact .inl h
    · exact .inr ⟨rfl, h⟩

/-- It leaves the selection and the gains. -/
theorem tickSet_spares (st : Readback) :
    Bus.Frames Xfer.write (fun s t : Chip => (t.sel, t.gain) = (s.sel, s.gain)) (fun _ => True)
      (fun _ => False) (tickSet st) := by
  have h : WheelFrame (fun s t : Chip => (t.sel, t.gain) = (s.sel, s.gain)) fun _ => True :=
    ⟨Bus.Framing.view fun c : Chip => (c.sel, c.gain), fun _ _ => rfl, fun _ _ => trivial,
      fun _ _ => trivial⟩
  exact tickSet_frames h.framing (fun _ _ => rfl) (fun _ _ => rfl) (fun _ => trivial) (fun _ => trivial) st

/-! ## A poll -/

/-- SELECT stays within the array. -/
theorem tickSelect_tracked (st : Readback) :
    Bus.Returns Chip.SelTracked (tickSelect st) fun _ => Chip.SelTracked := by
  have hseed : ∀ c : Chip, c.SelTracked → (bfPanelMixSeed c).SelTracked := fun c hc => hc.congr rfl
  unfold tickSelect
  refine Bus.Returns.get.bind fun c => Bus.Returns.ite _ (fun hp => ?_) fun _ =>
    Bus.Returns.pure fun s hs => hs.1
  simp only [Bool.and_eq_true] at hp
  refine Bus.Returns.ite _ (fun _ => ?_) fun _ => Bus.Returns.modify fun s hs => hs.1.congr rfl
  -- SELECT only steps where a pair is shown, and a known selection says that one is.
  cases hs : shownPair c with
  | none =>
    rintro w ⟨hw, rfl⟩
    obtain ⟨pair, hpair⟩ := hw.shown hp.2
    rw [hs] at hpair
    cases hpair
  | some pair =>
    -- The step stays within the array, and the announcement changes nothing of it.
    have hstep : Bus.Returns (fun s => s.SelTracked ∧ c = s)
        (announce (stepSelect pair) (.panelSelect pair)) fun _ => Chip.SelTracked := by
      refine Bus.Returns.bind (Bus.Returns.modify (Q := Chip.SelTracked) ?_) fun _ w hw =>
        ⟨(), _, rfl, hw⟩
      rintro s ⟨hw, rfl⟩
      exact stepSelect_tracked hw hs hp.2
    exact hstep.bind fun _ => Bus.Returns.when _ fun _ => Bus.Returns.modify hseed

/-- The middle of the decoding keeps track of the selection. -/
theorem decodeMid_tracked (p : Poll) :
    Bus.Returns Chip.SelTracked (decodeMid p) fun _ => Chip.SelTracked := by
  have h : WheelFrame (fun s t : Chip => s.SelTracked → t.SelTracked) fun _ => True := by
    refine ⟨Bus.Framing.keeps _, fun c n hc => hc.congr rfl, ?_, ?_⟩ <;> intros <;> trivial
  have hin := tickIn_frames (T := fun _ => True) (X := fun _ => False) h.framing
    (fun c sel hc => (selLoad_tracked (c := { c with panel_in := sel }) hc.range).congr rfl) p.st
  have hout := tickOut_frames (T := fun _ => True) (X := fun _ => False) h.framing (fun c _ hc => hc.congr rfl) p.st
  have hhold := tickHold_frames (T := fun _ => True) (X := fun _ => False) h.framing (fun c _ hc => hc.congr rfl) p.st
  exact hin.returns.bind fun _ => hout.returns.bind fun _ => (tickSelect_tracked p.st).bind fun _ =>
    hhold.returns

/-- A poll from `c` to `d` in which SET reaches a microphone. -/
structure SetActs (st : Readback) (c d : Chip) : Prop where
  /-- The poll is not the first one. -/
  seen : c.panel_seen = true
  /-- It carries a press edge of SET. -/
  edge : pressed BF_PANEL_FLASH_SET st c = true
  /-- MIX is off. -/
  mix : c.panel_mix = false
  /-- The panel shows Ch 1/2. -/
  pair : d.panel_in = 1
  /-- The selection is known. -/
  known : d.panel_select_known = true
  /-- The selection is left, right or both. -/
  target : 0 ≤ d.panel_select ∧ d.panel_select ≤ 2

/-- What a poll from `c` to `d` that made the writes `ws` did to the preamp byte and the gains. -/
structure PollSafe (st : Readback) (c d : Chip) (ws : List (Reg × Datum)) : Prop where
  /-- The cached byte changes, or the register is written, by SET only. -/
  set : d.preamp ≠ c.preamp ∨ (∃ x ∈ ws, x.1 = preampReg) → SetActs st c d
  /-- The cached byte changes in the selected microphones' 48V bits only. -/
  cached : d.preamp = c.preamp ∨ Toggled d c.preamp d.preamp
  /-- The written bytes differ from the cached one in these bits only. -/
  written : ∀ x ∈ ws, x.1 = preampReg → ∃ v, x.2 = .word v ∧ Toggled d c.preamp v
  /-- With nothing selected the gains stay. -/
  gain : c.panel_select = 3 → d.gain = c.gain

/-- The wheel keeps the gains while nothing is selected. -/
theorem tickWheel_gain (st : Readback) (now : ℤ) {w : World} (h : w.chip.panel_select = 3) :
    (tickWheel st now w).2.chip.gain = w.chip.gain := by
  have hv : WheelFrame (fun s t : Chip => t.gain = s.gain) OffPreamp := wheelFrame_view fun _ _ => rfl
  have hg : ∀ w₁ : World, w₁.chip.panel_select = 3 → ∀ delta,
      (bfPanelGainWheel delta w₁).2.chip.gain = w₁.chip.gain := fun w₁ h₁ delta => by
    rw [bfPanelGainWheel_idle h₁]
  unfold tickWheel
  rw [Bus.M.bind_of_ok (Bus.M.get_run w), Bus.M.ite_run]
  split
  swap
  · rfl
  -- The count of the wheel leaves the selection as it is.
  rw [announce_then]
  simp only [Bus.M.ite_run]
  split
  · exact (bfPanelMixWheel_frames (X := fun _ => True) hv (fun _ _ _ _ _ => rfl) (fun _ _ => rfl)
      (fun _ _ => rfl) _).state _
  split
  · exact (bfPanelBalanceWheel_frames (X := fun _ => True) hv (fun _ _ _ _ => rfl) _).state _
  split
  · exact (bfPanelOutWheel_frames (X := fun _ => True) hv (fun _ _ _ _ => rfl)
      (fun _ _ _ _ _ _ => rfl) _ _).state _
  split
  · refine hg _ ?_ _
    exact h
  · rfl

/-- With nothing selected the wheel turns no gain. -/
theorem decodeHead_gain (p : Poll) {w : World} (h : w.chip.panel_select = 3) :
    (decodeHead p w).2.chip.gain = w.chip.gain := by
  have hv : WheelFrame (fun s t : Chip => (t.gain, t.panel_select) = (s.gain, s.panel_select))
      OffPreamp := wheelFrame_view fun _ _ => rfl
  have hg : WheelFrame (fun s t : Chip => t.gain = s.gain) OffPreamp := wheelFrame_view fun _ _ => rfl
  have hb := tickButton_frames (T := fun _ => True) (X := fun _ => False) hv.framing (fun _ _ => rfl) p.st
  have hr := bfPanelOutResync_frames (X := fun _ => False) hg (fun _ => rfl) p.rest
  have hbw := hb.state w
  simp only [Prod.mk.injEq] at hbw
  have hw := tickWheel_gain p.st p.now (hbw.2.trans h)
  unfold decodeHead
  rw [hb.then_run, (tickWheel_spares p.st p.now).then_run, hr.state, hw, hbw.1]

/-- A poll that neither changes nor writes the byte, and no gain unasked. -/
theorem PollSafe.unset {st : Readback} {c d : Chip} {ws : List (Reg × Datum)} (hp : d.preamp = c.preamp)
    (hg : c.panel_select = 3 → d.gain = c.gain) (hno : ∀ x ∈ ws, x.1 ≠ preampReg) : PollSafe st c d ws where
  set h := by
    obtain h | ⟨x, hx, he⟩ := h
    · exact absurd hp h
    · exact absurd he (hno x hx)
  cached := .inl hp
  written x hx he := absurd he (hno x hx)
  gain := hg

/-- A poll that touches neither the byte nor the gains. -/
theorem PollSafe.idle {st : Readback} {c d : Chip} (hp : d.preamp = c.preamp) (hg : d.gain = c.gain) :
    PollSafe st c d [] :=
  .unset hp (fun _ => hg) fun _ hx => absurd hx List.not_mem_nil

/-- A readback selects, or toggles 48V, and does neither unasked. -/
theorem decode_safe (p : Poll) {w : World} (h : w.chip.SelTracked) (hs : w.chip.panel_seen = true) :
    ∃ w' ws, decode p w = (.ok (), w') ∧ w'.chip.SelTracked ∧
      w'.wire.map Xfer.write = w.wire.map Xfer.write ++ ws ∧ PollSafe p.st w.chip w'.chip ws := by
  rw [decode_eq, (decodeHead_spares p).then_run]
  have hgain := fun hsel => decodeHead_gain p (w := w) hsel
  obtain ⟨vs₁, hw₁, hT₁⟩ := (decodeHead_spares p).wire w
  have hv₁ := (decodeHead_spares p).state w
  simp only [Prod.mk.injEq] at hv₁
  obtain ⟨hsel₁, hpre₁, hmix₁, hprev₁⟩ := hv₁
  generalize (decodeHead p w).2 = w₁ at *
  -- The selections.
  obtain ⟨_, w₂, hm, ht₂⟩ := decodeMid_tracked p w₁ (h.congr hsel₁)
  obtain ⟨vs₂, hw₂, hT₂⟩ := (decodeMid_frames p).wire w₁
  have hv₂ := (decodeMid_frames p).state w₁
  rw [hm] at hw₂ hv₂
  simp only [Prod.mk.injEq] at hv₂
  obtain ⟨hpre₂, hgain₂, hmix₂, hprev₂⟩ := hv₂
  rw [Bus.M.bind_of_ok hm, (tickSet_spares p.st).then_run]
  -- SET.
  have hset := tickSet_run p.st w₂
  have hv₃ := (tickSet_spares p.st).state w₂
  simp only [Prod.mk.injEq] at hv₃
  obtain ⟨hsel₃, hgain₃⟩ := hv₃
  generalize hw₃ : (tickSet p.st w₂).2 = w₃ at *
  -- The stages after SET.
  obtain ⟨_, w', htail⟩ := (decodeTail_spares p).run_ok w₃
  obtain ⟨vs₄, hw₄, hT₄⟩ := (decodeTail_spares p).wire w₃
  have hv₄ := (decodeTail_spares p).state w₃
  rw [htail] at hw₄ hv₄
  simp only [Prod.mk.injEq] at hv₄
  obtain ⟨hsel₄, hpre₄, hgain₄⟩ := hv₄
  have hsel : w'.chip.sel = w₂.chip.sel := hsel₄.trans hsel₃
  have ht : w'.chip.SelTracked := ht₂.congr hsel
  have hg : w.chip.panel_select = 3 → w'.chip.gain = w.chip.gain := fun h3 => by
    rw [hgain₄, hgain₃, hgain₂, hgain h3]
  obtain hidle | ⟨hedge, hmix, hin, hne, w₃', ws, hrun, hws, hpre₃, hval⟩ := hset
  · obtain rfl : w₂ = w₃ := by rw [← hw₃, hidle]
    refine ⟨w', vs₁ ++ (vs₂ ++ vs₄), htail, ht, ?_, ?_⟩
    · rw [hw₄, hw₂, hw₁]
      simp only [List.append_assoc]
    have hno : ∀ x ∈ vs₁ ++ (vs₂ ++ vs₄), x.1 ≠ preampReg := fun x hx => by
      simp only [List.mem_append] at hx
      obtain hx | hx | hx := hx
      exacts [hT₁ x hx, hT₂ x hx, hT₄ x hx]
    exact .unset (by rw [hpre₄, hpre₂, hpre₁]) hg hno
  · obtain rfl : w₃' = w₃ := by rw [← hw₃, hrun]
    refine ⟨w', vs₁ ++ (vs₂ ++ (ws ++ vs₄)), htail, ht,
      ?_, ?_⟩
    · rw [hw₄, hws, hw₂, hw₁]
      simp only [List.append_assoc]
    simp only [Chip.sel, Prod.mk.injEq] at hsel
    obtain ⟨hsin, -, hssel, hsknown⟩ := hsel
    obtain ⟨hk, hlo, hhi⟩ := ht₂.target hne
    have htog : Toggled w'.chip w.chip.preamp (phantomToggle w₂.chip) := by
      rw [← hpre₁, ← hpre₂]
      exact (phantomToggle_toggled w₂.chip).congr hssel
    refine ⟨fun _ => ⟨hs, ?_, ?_, hsin.trans hin, hsknown.trans hk, ?_⟩, ?_, fun x hx he => ?_, hg⟩
    · unfold pressed at hedge ⊢
      rwa [hprev₂, hprev₁] at hedge
    · rw [← hmix₁, ← hmix₂, hmix]
    · rw [hssel]
      exact ⟨hlo, hhi⟩
    · rw [hpre₄]
      obtain hp | hp := hpre₃
      · left
        rw [hp, hpre₂, hpre₁]
      · right
        rw [hp]
        exact htog
    · refine ⟨_, ?_, htog⟩
      simp only [List.mem_append] at hx
      obtain hx | hx | hx | hx := hx
      exacts [absurd he (hT₁ x hx), absurd he (hT₂ x hx), hval x hx he, absurd he (hT₄ x hx)]

/-- What follows a poll and touches neither the byte, nor the gains, nor the selection. -/
theorem PollSafe.congr {st : Readback} {c d d' : Chip} {ws : List (Reg × Datum)}
    (h : PollSafe st c d ws) (hs : d'.sel = d.sel) (hp : d'.preamp = d.preamp)
    (hg : d'.gain = d.gain) : PollSafe st c d' ws := by
  simp only [Chip.sel, Prod.mk.injEq] at hs
  obtain ⟨hin, -, hsel, hk⟩ := hs
  refine ⟨fun hc => ?_, ?_, fun x hx he => ?_, fun h3 => hg.trans (h.gain h3)⟩
  · obtain ⟨h₁, h₂, h₃, h₄, h₅, h₆⟩ := h.set (by rwa [← hp])
    exact ⟨h₁, h₂, h₃, hin.trans h₄, hk.trans h₅, by rwa [hsel]⟩
  · rw [hp]
    exact h.cached.imp_right fun ht => ht.congr hsel
  · obtain ⟨v, hv, ht⟩ := h.written x hx he
    exact ⟨v, hv, ht.congr hsel⟩

/-- The first snapshot brings the fields of the selection together. -/
theorem snapshot_tracked (st : Readback) {c : Chip} (h : c.SelTracked) : (snapshot st c).SelTracked :=
  (selLoad_tracked (c := { c with panel_in := (snapshot st c).panel_in }) h.range).congr rfl

/-- The panel's part of a poll returns, and is safe. -/
theorem babyfacePanelWork_safe (p : Poll) (t : ℤ) {w : World} (h : w.chip.SelTracked) :
    ∃ w' ws, babyfacePanelWork p t w = (.ok (), w') ∧ w'.chip.SelTracked ∧
      w'.wire.map Xfer.write = w.wire.map Xfer.write ++ ws ∧ PollSafe p.st w.chip w'.chip ws := by
  have htick : ∃ w' ws, bfPanelTick p w = (.ok (), w') ∧ w'.chip.SelTracked ∧
      w'.wire.map Xfer.write = w.wire.map Xfer.write ++ ws ∧ PollSafe p.st w.chip w'.chip ws := by
    unfold bfPanelTick
    simp only [Bus.M.bind_run, Bus.M.attempt, Bus.M.recv]
    -- A poll whose read fails does nothing.
    cases hu : w.usb 0 with
    | false => exact ⟨{ w with usb := Bus.shift w.usb 1 }, [], rfl, h, by simp, .idle rfl rfl⟩
    | true =>
      simp only [if_true, when, Bus.M.bind_run, Bus.M.get_run, Bus.M.ite_run]
      split
      -- The first read only takes a snapshot.
      · exact decode_safe p (w := { w with usb := Bus.shift w.usb 1 }) h ‹_›
      · exact ⟨_, [], rfl, snapshot_tracked p.st h, by simp, .idle rfl rfl⟩
  unfold babyfacePanelWork
  rw [Bus.M.bind_of_ok (Bus.M.get_run w)]
  cases w.chip.shutdown with
  -- After a disconnect the work does nothing.
  | true => exact ⟨w, [], rfl, h, by simp, .idle rfl rfl⟩
  | false =>
    obtain ⟨w', ws, hm, ht, hw, hs⟩ := htick
    -- What is left of the poll is its time.
    refine ⟨{ w' with chip := { w'.chip with panel_poll_t := t } }, ws, ?_, ht.congr rfl, hw, ?_⟩
    · show (do bfPanelTick p; modify fun c => { c with panel_poll_t := t } : Usb Unit) w = _
      rw [Bus.M.bind_of_ok hm]
      rfl
    · exact hs.congr rfl rfl rfl

/-! ## Runs -/

/-- A new entry keeps the entries in range. -/
theorem cacheSel_range {c : Chip} (h : ∀ pair, -1 ≤ c.panel_sel pair ∧ c.panel_sel pair ≤ 3)
    {sel : ℤ} (hs : -1 ≤ sel ∧ sel ≤ 3) (pair pair' : Fin 3) :
    -1 ≤ (cacheSel pair sel c).panel_sel pair' ∧ (cacheSel pair sel c).panel_sel pair' ≤ 3 := by
  rw [show (cacheSel pair sel c).panel_sel = Function.update c.panel_sel pair sel from rfl]
  by_cases hp : pair' = pair
  · rw [hp, Function.update_self]
    exact hs
  · rw [Function.update_of_ne hp]
    exact h pair'

/-- The entry of a pair that is not shown is not the selection in use. -/
theorem cacheSel_tracked {c : Chip} (h : c.SelTracked) {sel : ℤ} (hs : -1 ≤ sel ∧ sel ≤ 3)
    {pair : Fin 3} (hp : shownPair c ≠ some pair) : (cacheSel pair sel c).SelTracked := by
  have hn : ∀ pair', shownPair c = some pair' →
      (cacheSel pair sel c).panel_sel pair' = c.panel_sel pair' := fun pair' hp' =>
    Function.update_of_ne (fun he => hp (by rw [hp', he])) _ _
  refine ⟨h.known.trans (exists_congr fun pair' => and_congr_right fun hp' => ?_),
    fun pair' hp' h0 => ?_, h.unknown, cacheSel_range h.range hs pair⟩
  · rw [hn pair' hp']
  · rw [hn pair' hp'] at h0 ⊢
    exact h.select pair' hp' h0

/-- A put of the selection keeps the fields together. -/
theorem bfPanelSelectPut_tracked (k : Clock) (pair : Fin 3) (v : ℕ) {w : World}
    (h : w.chip.SelTracked) : (bfPanelSelectPut k pair v w).2.chip.SelTracked := by
  have hs : -1 ≤ (if v < 4 then (v : ℤ) else -1) ∧ (if v < 4 then (v : ℤ) else -1) ≤ 3 := by
    split <;> omega
  unfold bfPanelSelectPut
  rw [Bus.M.bind_of_ok (Bus.M.get_run w), Bus.M.ite_run]
  split
  · exact h
  rw [Bus.M.ite_run]
  split
  · exact h
  generalize (if v < 4 then (v : ℤ) else -1) = sel at *
  -- Arming SELECT leaves the fields of the selection alone.
  have harm : ∀ b : Bool, ∃ w₁ : World, (when b (modify fun c : Chip =>
      { c with panel_select_armed := true }) : Usb Unit) w = (.ok (), w₁) ∧
        w₁.chip.sel = w.chip.sel := fun b => by
    cases b
    · exact ⟨w, rfl, rfl⟩
    · exact ⟨_, rfl, rfl⟩
  obtain ⟨w₁, hw₁, hsel⟩ := harm _
  have h₁ := h.congr hsel
  rw [Bus.M.bind_of_ok hw₁, Bus.M.ite_run]
  split
  · exact h₁
  rw [Bus.M.bind_of_ok (Bus.M.modify_run _ _)]
  have hload : (bfPanelSelLoad (cacheSel pair sel w₁.chip)).SelTracked :=
    selLoad_tracked (cacheSel_range h₁.range hs pair)
  by_cases hp : shownPair w.chip = some pair
  · rw [decide_eq_true hp]
    cases w.chip.panel_mix
    · exact hload
    · exact hload.congr rfl
  · rw [decide_eq_false hp]
    simp only [Chip.sel, Prod.mk.injEq] at hsel
    exact cacheSel_tracked h₁ hs (by rwa [shownPair_congr hsel.1])

/-- A step of the panel: a poll, a put of the selection, or a restart. -/
inductive PanelStep : World → World → Prop
  | poll (p : Poll) (t : ℤ) (w : World) : PanelStep w (babyfacePanelWork p t w).2
  | put (k : Clock) (pair : Fin 3) (v : ℕ) (w : World) : PanelStep w (bfPanelSelectPut k pair v w).2
  | restart (jiffies : ℤ) (w : World) :
    PanelStep w { w with chip := babyfacePanelStart jiffies w.chip }

/-- A restart loads the selection of the pair shown. -/
theorem babyfacePanelStart_tracked (jiffies : ℤ) {c : Chip}
    (h : ∀ pair, -1 ≤ c.panel_sel pair ∧ c.panel_sel pair ≤ 3) :
    (babyfacePanelStart jiffies c).SelTracked :=
  (selLoad_tracked h).congr rfl

/-- After a probe no selection is known. -/
theorem Probed.tracked {st0 : U8} {reprobe : Bool} {jiffies : ℤ} {p : Params} {w : World}
    (h : Probed st0 reprobe jiffies p w) : w.chip.SelTracked := by
  obtain ⟨st, hc, -⟩ := babyfaceProbe_run h
  have hd : ∀ c : Chip, (cacheDefaultMixer c).panel_sel = c.panel_sel := fun c =>
    List.foldlRecOn (motive := fun d : Chip => d.panel_sel = c.panel_sel) (List.finRange 6) _ rfl
      fun d hd out _ => hd
  have hp : (probedMixer st p).panel_sel = fun _ => -1 := by
    unfold probedMixer
    rw [hd]
    cases st <;> rfl
  have ht : w.chip.quiet.SelTracked := by
    rw [hc]
    refine babyfacePanelStart_tracked jiffies fun pair => ?_
    rw [show ({ probedMixer st p with reprobe := reprobe } : Chip).panel_sel = fun _ => -1 from hp]
    exact ⟨le_refl _, (by decide : (-1 : ℤ) ≤ 3)⟩
  exact ht.congr rfl

/-- Each step keeps track of the selection. -/
theorem PanelStep.tracked {w w' : World} (hs : PanelStep w w') (h : w.chip.SelTracked) :
    w'.chip.SelTracked := by
  cases hs with
  | poll p t =>
    obtain ⟨w₁, _, hm, ht, -⟩ := babyfacePanelWork_safe p t h
    rwa [hm]
  | put k pair v => exact bfPanelSelectPut_tracked k pair v h
  | restart jiffies => exact babyfacePanelStart_tracked jiffies h.range

/-- The selection of the pair shown is unknown or none. -/
def Untargeted (c : Chip) : Prop :=
  ∀ pair, shownPair c = some pair → c.panel_sel pair < 0 ∨ c.panel_sel pair = 3

/-- With no channel of a pair selected, SELECT points to none. -/
theorem Chip.SelTracked.untargeted {c : Chip} (h : c.SelTracked) (hu : Untargeted c) :
    c.panel_select = 3 := by
  cases hk : c.panel_select_known with
  | false => exact h.unknown hk
  | true =>
    obtain ⟨pair, hp, h0⟩ := h.known.mp hk
    have := h.select pair hp h0
    have := hu pair hp
    omega

/-- A poll before and after which the selection of the pair shown is unknown or none. -/
structure IdlePoll (w w' : World) : Prop where
  before : Untargeted w.chip
  after : Untargeted w'.chip
  poll : ∃ p t, babyfacePanelWork p t w = (.ok (), w')

/-- With nothing selected a poll changes neither the phantom power nor a gain. -/
theorem IdlePoll.keeps {w w' : World} (hi : IdlePoll w w') (h : w.chip.SelTracked) :
    w'.chip.SelTracked ∧ w'.chip.preamp = w.chip.preamp ∧ w'.chip.gain = w.chip.gain ∧
      ∃ ws, w'.wire.map Xfer.write = w.wire.map Xfer.write ++ ws ∧ ∀ x ∈ ws, x.1 ≠ preampReg := by
  obtain ⟨p, t, hr⟩ := hi.poll
  obtain ⟨w₁, ws, hm, ht, hw, hs⟩ := babyfacePanelWork_safe p t h
  rw [hm] at hr
  cases hr
  have h3 : w'.chip.panel_select = 3 := ht.untargeted hi.after
  have hno : ¬ SetActs p.st w.chip w'.chip := fun ha => by
    have := ha.target
    omega
  refine ⟨ht, ?_, hs.gain (h.untargeted hi.before), ws, hw, fun x hx he => ?_⟩
  · by_contra hne
    exact hno (hs.set (.inl hne))
  · exact hno (hs.set (.inr ⟨x, hx, he⟩))

end BabyfacePro
