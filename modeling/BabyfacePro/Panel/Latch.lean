import BabyfacePro.Panel.Stages

/-!
# The MIX latch

A press of MIX engages it and the next press leaves it; the device leaves it too when another mode
button is pressed. The readbacks lag the press, so a gate flag holds the device's exit back until a
readback has shown fader mode. The flag is followed here through every run of readbacks after a probe.
The first snapshot after a start sets the flag whatever the state of MIX, and engaging MIX does not
clear it: with MIX off, a first snapshot in fader mode opens the gate of the next engagement.
-/

namespace BabyfacePro

open Bus.M (get modify when)

/-! ## The latch through a poll -/

/-- MIX, and its gate. -/
abbrev MixLatch := Bool × Bool

/-- MIX and its gate, in the driver's state. -/
def Chip.latch (c : Chip) : MixLatch := (c.panel_mix, c.panel_saw_fader)

/-- A readback in fader mode. -/
def faderShown (st : Readback) : Bool := st 2 >>> 4 = 0x0

/-- The latch after the press of a tick, if there is one. -/
def pressLatch (press : Bool) (l : MixLatch) : MixLatch :=
  if press then if l.1 then (false, false) else (true, l.2) else l

/-- The latch after the mode of a readback, by whether the flash of MIX is shown. -/
def faderLatch (fader flash : Bool) (l : MixLatch) : MixLatch :=
  if fader then (l.1, l.1 || l.2) else if l.1 && l.2 && !flash then (false, false) else l

/-- The latch, and the readback that a press edge is seen against. -/
def Chip.pressView (c : Chip) : MixLatch × Readback := (c.latch, c.panel_prev)

/-- A press of MIX moves the latch. -/
theorem tickMix_latch (st : Readback) (w : World) :
    (tickMix st w).2.chip.latch =
      pressLatch (pressed BF_PANEL_FLASH_MIX st w.chip) w.chip.latch := by
  unfold tickMix pressLatch
  rw [Bus.M.bind_of_ok (Bus.M.get_run w)]
  -- Without a press the latch stays.
  cases pressed BF_PANEL_FLASH_MIX st w.chip with
  | false => rfl
  | true =>
    rw [if_pos rfl]
    cases hm : w.chip.panel_mix with
    -- The press ends MIX, which clears it.
    | true =>
      obtain ⟨w', hrun, hc⟩ := mixExit_run w
      show (mixExit w).2.chip.latch = if w.chip.panel_mix then (false, false) else _
      rw [hrun, hm, hc]
      rfl
    | false =>
      -- It engages MIX, which sets it.
      obtain ⟨w', hrun, hc⟩ := mixEngage_run w
      have hlatch := congrArg Chip.latch hc
      show (mixEngage w).2.chip.latch = if w.chip.panel_mix then (false, false) else _
      rw [hrun, hm]
      exact hlatch

/-- The display of the fader moves it once the fader was shown. -/
theorem tickFader_latch (st : Readback) (w : World) :
    (tickFader st w).2.chip.latch =
      faderLatch (faderShown st) (st 3 = BF_PANEL_FLASH_MIX) w.chip.latch := by
  unfold tickFader faderLatch faderShown
  rw [Bus.M.bind_of_ok (Bus.M.get_run w), Bus.M.ite_run]
  -- The fader is shown, which the latch keeps while MIX is engaged.
  by_cases hf : st 2 >>> 4 = 0x0
  · rw [if_pos hf, decide_eq_true hf, if_pos rfl]
    cases hm : w.chip.panel_mix with
    | false =>
      show w.chip.latch = (w.chip.panel_mix, w.chip.panel_mix || w.chip.panel_saw_fader)
      rw [Chip.latch, hm, Bool.false_or]
    | true =>
      show (w.chip.panel_mix, true) = (w.chip.panel_mix, w.chip.panel_mix || w.chip.panel_saw_fader)
      rw [hm, Bool.true_or]
  -- Else MIX ends where the fader was shown before and the panel does not show MIX.
  · rw [if_neg hf, decide_eq_false hf, if_neg Bool.false_ne_true]
    have hflash : decide (st 3 ≠ BF_PANEL_FLASH_MIX) = !decide (st 3 = BF_PANEL_FLASH_MIX) := decide_not
    rw [hflash]
    show _ = if (w.chip.panel_mix && w.chip.panel_saw_fader && !decide (st 3 = BF_PANEL_FLASH_MIX)) = true
      then (false, false) else w.chip.latch
    cases w.chip.panel_mix && w.chip.panel_saw_fader && !decide (st 3 = BF_PANEL_FLASH_MIX) with
    | false => rfl
    | true =>
      -- The end of MIX clears the latch.
      obtain ⟨w', hrun, hc⟩ := mixExit_run w
      show (mixExit w).2.chip.latch = (false, false)
      rw [hrun, hc]
      rfl

/-- What a press is told by, and the wheel leaves alone. -/
theorem pressFrame : WheelFrame (fun s t : Chip => t.pressView = s.pressView) fun _ => True :=
  viewFrame fun _ _ => rfl

/-- The head of the decoding leaves it alone. -/
theorem decodeHead_press (p : Poll) :
    Bus.Frames Xfer.write (fun s t : Chip => t.pressView = s.pressView) (fun _ => True) (fun _ => False)
      (decodeHead p) := by
  have hR := pressFrame.framing
  refine hR.bind (tickButton_frames hR (fun _ _ => rfl) _) fun _ => ?_
  refine hR.bind (tickWheel_frames pressFrame (fun _ _ => rfl) (fun _ _ _ _ => rfl) (fun _ _ _ _ _ _ => rfl)
    (fun _ _ => rfl) (fun _ _ _ _ _ => rfl) (fun _ _ => rfl) (fun _ _ => rfl) _ _) fun _ => ?_
  exact bfPanelOutResync_frames pressFrame (fun _ => rfl) _

/-- So does the middle. -/
theorem decodeMid_press (p : Poll) :
    Bus.Frames Xfer.write (fun s t : Chip => t.pressView = s.pressView) (fun _ => True) (· = .fault)
      (decodeMid p) := by
  have hR := pressFrame.framing
  refine hR.bind (tickIn_frames hR (fun _ _ => rfl) _) fun _ => ?_
  refine hR.bind (tickOut_frames hR (fun _ _ => rfl) _) fun _ => ?_
  refine hR.bind (tickSelect_frames (X := (· = .fault)) hR rfl (fun _ _ => rfl) (fun _ => rfl)
    (fun _ => rfl) _) fun _ => ?_
  exact tickHold_frames hR (fun _ _ => rfl) _

/-- So does the SET key. -/
theorem tickSet_press (st : Readback) :
    Bus.Frames Xfer.write (fun s t : Chip => t.pressView = s.pressView) (fun _ => True) (fun _ => False)
      (tickSet st) :=
  tickSet_frames pressFrame.framing (fun _ _ => rfl) (fun _ _ => rfl) (fun _ => trivial)
    (fun _ => trivial) st

/-- So does the press of DIM. -/
theorem tickDimPress_press (st : Readback) :
    Bus.Frames Xfer.write (fun s t : Chip => t.pressView = s.pressView) (fun _ => True) (fun _ => False)
      (tickDimPress st) :=
  tickDimPress_frames pressFrame.framing (fun _ _ => rfl) st

/-- A press edge is the same for states with the same readback. -/
theorem pressed_congr {c d : Chip} (h : d.panel_prev = c.panel_prev) (flash : U8) (st : Readback) :
    pressed flash st d = pressed flash st c := by
  unfold pressed
  rw [h]

/-- The stages before MIX leave the latch alone. -/
theorem decode_latch (p : Poll) {w : World} (h : w.chip.SelTracked) :
    (decode p w).2.chip.latch = faderLatch (faderShown p.st) (p.st 3 = BF_PANEL_FLASH_MIX)
      (pressLatch (pressed BF_PANEL_FLASH_MIX p.st w.chip) w.chip.latch) := by
  have hdim := tickDim_frames (T := fun _ => True) (X := fun _ => False) (Bus.Framing.view Chip.latch)
    (fun _ _ => rfl) p.st
  -- The world before MIX.
  have hbefore := ((tickDimPress_press p.st).state _).trans (((tickSet_press p.st).state _).trans
    (((decodeMid_press p).state (decodeHead p w).2).trans ((decodeHead_press p).state w)))
  rw [decode_run p h, decodeTail_run]
  generalize (tickDimPress p.st (tickSet p.st (decodeMid p (decodeHead p w).2).2).2).2 = w₁ at hbefore ⊢
  simp only [Chip.pressView, Prod.mk.injEq] at hbefore
  have hedge := pressed_congr hbefore.2 BF_PANEL_FLASH_MIX p.st
  have hlast := hdim.state (tickFader p.st (tickMix p.st w₁).2).2
  rw [← hbefore.1, ← hedge, ← tickMix_latch, ← tickFader_latch, ← hlast]
  rfl

/-! ## The latch through a run -/

/-- A step other than a poll leaves the latch alone. -/
theorem OffPoll.latch {w w' : World} (hs : OffPoll w w') : w'.chip.latch = w.chip.latch := by
  have hput : ∀ (s : Setting) (c : Chip), (s.cache c).latch = c.latch ∧ (s.failed c).latch = c.latch :=
    fun s c => by cases s <;> exact ⟨rfl, rfl⟩
  have hsel : ∀ k pair n, Keeps (fun c d : Chip => d.latch = c.latch) (bfPanelSelectPut k pair n) :=
    bfPanelSelectPut_keeps (Bus.Framing.view Chip.latch) (fun _ => rfl) (fun _ _ _ => rfl) (fun _ => rfl)
      fun _ => rfl
  exact hs.view (fun _ => rfl) hput hsel (fun _ _ => rfl) (fun _ => rfl) (fun _ => rfl) (fun _ _ => rfl)
    fun _ _ => rfl

/-- A card, and whether MIX is engaged by a press since which no readback has shown fader mode. -/
structure LatchWatch where
  w : World
  waits : Bool

/-- A poll with a press edge of MIX. -/
def MixPress (p : Poll) (w : World) : Prop :=
  Decodes w ∧ pressed BF_PANEL_FLASH_MIX p.st w.chip = true

/-- A poll in which MIX ends without a press: the device left it. -/
def DeviceExit (p : Poll) (t : ℤ) (w : World) : Prop :=
  Decodes w ∧ ¬ MixPress p w ∧ w.chip.panel_mix = true ∧ (babyfacePanelWork p t w).2.chip.panel_mix = false

/-- Whether a readback is decoded is a test of the cache. -/
instance (w : World) : Decidable (Decodes w) := inferInstanceAs (Decidable (_ ∧ _))

/-- Whether it has a press of MIX is a test of two readbacks. -/
instance (p : Poll) (w : World) : Decidable (MixPress p w) := inferInstanceAs (Decidable (_ ∧ _))

/-- The watch after a poll: a press that engages MIX starts the wait, a readback in fader mode and the
end of MIX end it. -/
def LatchWatch.poll (m : LatchWatch) (p : Poll) (t : ℤ) : LatchWatch :=
  let w := (babyfacePanelWork p t m.w).2
  ⟨w, if Reads m.w then
      (if MixPress p m.w then !m.w.chip.panel_mix else m.waits) && !faderShown p.st && w.chip.panel_mix
    else m.waits⟩

/-- A step of the watched card, whose first snapshots meet the condition `ok`. -/
inductive LatchStep (ok : Readback → Prop) (m : LatchWatch) : LatchWatch → Prop
  | poll (p : Poll) (t : ℤ) (h : FirstPoll m.w → ok p.st) : LatchStep ok m (m.poll p t)
  | other {w' : World} (hs : OffPoll m.w w') : LatchStep ok m ⟨w', m.waits⟩

/-- MIX is off in a first snapshot only in another mode than fader mode. -/
def SnapshotShut (st : Readback) : Prop := faderShown st = true → st 0 &&& 0x80 ≠ 0

/-- What a poll may do to MIX. -/
structure LatchKept (m : LatchWatch) (p : Poll) (t : ℤ) : Prop where
  /-- A press toggles it. -/
  press : MixPress p m.w → (babyfacePanelWork p t m.w).2.chip.panel_mix = !m.w.chip.panel_mix
  /-- It changes by nothing but a press, the device's exit, or the first snapshot. -/
  only : (babyfacePanelWork p t m.w).2.chip.panel_mix ≠ m.w.chip.panel_mix →
    MixPress p m.w ∨ DeviceExit p t m.w ∨ FirstPoll m.w
  /-- The device's exit waits for a readback in fader mode since the press. -/
  exit : DeviceExit p t m.w → m.waits = false

/-- With MIX off, or waiting for its first readback in fader mode, the gate is shut. -/
structure GateShut (m : LatchWatch) : Prop where
  reachable : Reachable m.w
  off : m.w.chip.panel_mix = false → m.w.chip.panel_saw_fader = false
  waits : m.waits = true → m.w.chip.panel_mix = true ∧ m.w.chip.panel_saw_fader = false

/-- A poll that reads nothing. -/
theorem babyfacePanelWork_latch_deaf (p : Poll) (t : ℤ) {w : World} (h : ¬ Reads w) :
    (babyfacePanelWork p t w).2.chip.latch = w.chip.latch := by
  obtain ⟨usb, t', hrun⟩ := babyfacePanelWork_deaf p t h
  rw [hrun]
  rfl

/-- The first snapshot takes both from the readback. -/
theorem babyfacePanelWork_latch_first (p : Poll) (t : ℤ) {w : World} (h : FirstPoll w) :
    (babyfacePanelWork p t w).2.chip.latch = (decide (p.st 0 &&& 0x80 ≠ 0), faderShown p.st) := by
  rw [babyfacePanelWork_first p t h.1 h.2]
  rfl

/-- A poll moves the latch by its press, and then by its display. -/
theorem babyfacePanelWork_latch (p : Poll) (t : ℤ) {w : World} (h : Decodes w) (ht : w.chip.SelTracked) :
    (babyfacePanelWork p t w).2.chip.latch = faderLatch (faderShown p.st) (p.st 3 = BF_PANEL_FLASH_MIX)
      (pressLatch (pressed BF_PANEL_FLASH_MIX p.st w.chip) w.chip.latch) := by
  rw [babyfacePanelWork_decode p t h.1 h.2 ht]
  exact decode_latch p (w := heard w) ht

/-- A press edge shows the flash. -/
theorem flash_of_pressed {flash : U8} {st : Readback} {c : Chip} (h : pressed flash st c = true) :
    st 3 = flash := by
  unfold pressed at h
  simp only [Bool.and_eq_true, decide_eq_true_iff] at h
  exact h.1

/-- What the turn of a latch does to MIX, when a press comes with its flash. -/
theorem faderLatch_mix {press fader flash : Bool} (h : press = true → flash = true) (l : MixLatch) :
    (press = true → (faderLatch fader flash (pressLatch press l)).1 = !l.1) ∧
      (press = false → (faderLatch fader flash (pressLatch press l)).1 ≠ l.1 →
        l = (true, true) ∧ (faderLatch fader flash (pressLatch press l)).1 = false) := by
  obtain ⟨mix, saw⟩ := l
  revert h
  revert press fader flash mix saw
  decide

/-- A turn keeps a gate shut that is shut while MIX is off. -/
theorem faderLatch_off {press fader flash : Bool} {l : MixLatch} (h : l.1 = false → l.2 = false) :
    (faderLatch fader flash (pressLatch press l)).1 = false →
      (faderLatch fader flash (pressLatch press l)).2 = false := by
  obtain ⟨mix, saw⟩ := l
  revert h
  revert press fader flash mix saw
  decide

/-- A turn without fader mode opens no gate. -/
theorem faderLatch_saw {press flash : Bool} {l : MixLatch} (h : l.2 = false) :
    (faderLatch false flash (pressLatch press l)).2 = false := by
  obtain ⟨mix, saw⟩ := l
  revert h
  revert press flash mix saw
  decide

/-- MIX changes only as it may. -/
theorem GateShut.kept {m : LatchWatch} (h : GateShut m) (p : Poll) (t : ℤ) : LatchKept m p t := by
  have ht := h.reachable.tracked
  have hturn : ∀ hd : Decodes m.w, _ := fun hd => congrArg Prod.fst (babyfacePanelWork_latch p t hd ht)
  have hedge : ∀ {w : World}, pressed BF_PANEL_FLASH_MIX p.st w.chip = true →
      decide (p.st 3 = BF_PANEL_FLASH_MIX) = true := fun hp => decide_eq_true (flash_of_pressed hp)
  refine ⟨fun hp => ?_, fun hne => ?_, fun hexit => ?_⟩
  · exact (hturn hp.1).trans ((faderLatch_mix hedge _).1 hp.2)
  · by_cases hreads : Reads m.w
    swap
    · exact absurd (congrArg Prod.fst (babyfacePanelWork_latch_deaf p t hreads)) hne
    cases hseen : m.w.chip.panel_seen with
    | false => exact .inr (.inr ⟨hreads, hseen⟩)
    | true =>
      have hd : Decodes m.w := ⟨hreads, hseen⟩
      by_cases hp : MixPress p m.w
      · exact .inl hp
      · have hpress : pressed BF_PANEL_FLASH_MIX p.st m.w.chip = false :=
          Bool.eq_false_iff.mpr fun he => hp ⟨hd, he⟩
        have hmix := hturn hd
        obtain ⟨hl, hoff⟩ := (faderLatch_mix hedge m.w.chip.latch).2 hpress fun he =>
          hne (hmix.trans he)
        exact .inr (.inl ⟨hd, hp, congrArg Prod.fst hl, hmix.trans hoff⟩)
  · obtain ⟨hd, hp, hon, hoff⟩ := hexit
    have hpress : pressed BF_PANEL_FLASH_MIX p.st m.w.chip = false :=
      Bool.eq_false_iff.mpr fun he => hp ⟨hd, he⟩
    have hne : (faderLatch (faderShown p.st) (p.st 3 = BF_PANEL_FLASH_MIX)
        (pressLatch (pressed BF_PANEL_FLASH_MIX p.st m.w.chip) m.w.chip.latch)).1 ≠ m.w.chip.latch.1 := by
      rw [← hturn hd]
      show (babyfacePanelWork p t m.w).2.chip.panel_mix ≠ m.w.chip.panel_mix
      rw [hoff, hon]
      exact Bool.false_ne_true
    obtain ⟨hl, -⟩ := (faderLatch_mix hedge m.w.chip.latch).2 hpress hne
    -- The exit needs an open gate, and it is shut while MIX waits.
    refine Bool.eq_false_iff.mpr fun hw => ?_
    have hsaw := (h.waits hw).2
    rw [show m.w.chip.panel_saw_fader = true from congrArg Prod.snd hl] at hsaw
    cases hsaw

/-- A poll keeps the gate shut, unless it is a first snapshot in fader mode with MIX off. -/
theorem GateShut.poll {m : LatchWatch} (h : GateShut m) (p : Poll) (t : ℤ)
    (hok : FirstPoll m.w → SnapshotShut p.st) : GateShut (m.poll p t) := by
  have hreach : Reachable (m.poll p t).w := h.reachable.step (.poll p t m.w)
  by_cases hreads : Reads m.w
  swap
  · have hlatch := babyfacePanelWork_latch_deaf p t hreads
    have hwaits : (m.poll p t).waits = m.waits := if_neg hreads
    refine ⟨hreach, fun hoff => ?_, fun hw => ?_⟩
    · exact (congrArg Prod.snd hlatch).trans (h.off ((congrArg Prod.fst hlatch).symm.trans hoff))
    · obtain ⟨hon, hsaw⟩ := h.waits (hwaits.symm.trans hw)
      exact ⟨(congrArg Prod.fst hlatch).trans hon, (congrArg Prod.snd hlatch).trans hsaw⟩
  -- What the wait says once the panel was read.
  have hwait : (m.poll p t).waits = true →
      (if MixPress p m.w then !m.w.chip.panel_mix else m.waits) = true ∧ faderShown p.st = false ∧
        (m.poll p t).w.chip.panel_mix = true := fun hw => by
    simp only [LatchWatch.poll, if_pos hreads, Bool.and_eq_true, Bool.not_eq_true'] at hw
    exact ⟨hw.1.1, hw.1.2, hw.2⟩
  cases hseen : m.w.chip.panel_seen with
  | false =>
    have hlatch := babyfacePanelWork_latch_first p t ⟨hreads, hseen⟩
    have hmix : (m.poll p t).w.chip.panel_mix = decide (p.st 0 &&& 0x80 ≠ 0) := congrArg Prod.fst hlatch
    have hsaw : (m.poll p t).w.chip.panel_saw_fader = faderShown p.st := congrArg Prod.snd hlatch
    refine ⟨hreach, fun hoff => ?_, fun hw => ?_⟩
    · rw [hsaw]
      refine Bool.eq_false_iff.mpr fun hf => ?_
      rw [hmix, decide_eq_true (hok ⟨hreads, hseen⟩ hf)] at hoff
      cases hoff
    · obtain ⟨-, hfader, hon⟩ := hwait hw
      exact ⟨hon, hsaw.trans hfader⟩
  | true =>
    have hlatch := babyfacePanelWork_latch p t ⟨hreads, hseen⟩ h.reachable.tracked
    refine ⟨hreach, fun hoff => ?_, fun hw => ?_⟩
    · exact (congrArg Prod.snd hlatch).trans
        (faderLatch_off (l := m.w.chip.latch) h.off ((congrArg Prod.fst hlatch).symm.trans hoff))
    · obtain ⟨hstart, hfader, hon⟩ := hwait hw
      have hshut : m.w.chip.panel_saw_fader = false := by
        split at hstart
        · exact h.off (by simpa using hstart)
        · exact (h.waits hstart).2
      rw [hfader] at hlatch
      exact ⟨hon, (congrArg Prod.snd hlatch).trans (faderLatch_saw (l := m.w.chip.latch) hshut)⟩

/-- Each step keeps the gate shut. -/
theorem LatchStep.shut {m m' : LatchWatch} (hs : LatchStep SnapshotShut m m') (h : GateShut m) :
    GateShut m' := by
  cases hs with
  | poll p t hok => exact h.poll p t hok
  | @other w' hoff =>
    have hlatch := hoff.latch
    refine ⟨h.reachable.step hoff.step, fun hmix => ?_, fun hw => ?_⟩
    · exact (congrArg Prod.snd hlatch).trans (h.off ((congrArg Prod.fst hlatch).symm.trans hmix))
    · obtain ⟨hon, hsaw⟩ := h.waits hw
      exact ⟨(congrArg Prod.fst hlatch).trans hon, (congrArg Prod.snd hlatch).trans hsaw⟩

/-- A run of a card from its probe, whose first snapshots meet the condition `ok`. -/
inductive LatchRun (ok : Readback → Prop) : LatchWatch → Prop
  | probe {st0 : U8} {reprobe : Bool} {jiffies : ℤ} {p : Params} {w : World}
    (h : Probed st0 reprobe jiffies p w) : LatchRun ok ⟨w, false⟩
  | step {m m' : LatchWatch} (h : LatchRun ok m) (hs : LatchStep ok m m') : LatchRun ok m'

/-- The gate is shut along the run. -/
theorem LatchRun.shut {m : LatchWatch} (h : LatchRun SnapshotShut m) : GateShut m := by
  induction h with
  | @probe _ _ _ _ w hp =>
    have hsaw : w.chip.panel_saw_fader = false := congrArg Panel.panel_saw_fader hp.panel
    refine ⟨⟨_, _, _, _, _, hp, .refl⟩, fun _ => hsaw, fun hw => ?_⟩
    cases hw
  | step _ hs ih => exact hs.shut ih

/-- In every run of readbacks in which no first snapshot after a start of the panel shows fader mode with
MIX off: a press edge toggles MIX, nothing else changes it but the device's exit and the first snapshot,
and the device's exit waits for a readback in fader mode at or after the press that engaged MIX. -/
theorem mix_latch {m : LatchWatch} (h : LatchRun SnapshotShut m) :
    (∀ p t, LatchKept m p t) ∧ ∀ w', OffPoll m.w w' → w'.chip.panel_mix = m.w.chip.panel_mix :=
  ⟨fun p t => h.shut.kept p t, fun _ hs => congrArg Prod.fst hs.latch⟩

/-- A poll goes on with the run. -/
theorem LatchRun.poll {ok : Readback → Prop} {m : LatchWatch} (h : LatchRun ok m) (p : Poll) (t : ℤ)
    (hok : FirstPoll m.w → ok p.st) : LatchRun ok (m.poll p t) :=
  h.step (.poll p t hok)

/-- The outcomes of later transfers are no part of the run. -/
theorem LatchRun.outcomes {ok : Readback → Prop} {w : World} {waits : Bool} (h : LatchRun ok ⟨w, waits⟩)
    (usb : ℕ → Bool) : LatchRun ok ⟨{ w with usb := usb }, waits⟩ :=
  h.step (.other (.outcomes usb w))

/-- The fresh card, without a failed transfer. -/
def freshLatch : LatchWatch := ⟨freshCardWith fun _ => true, false⟩

/-- A new card. -/
theorem freshLatch_run (ok : Readback → Prop) : LatchRun ok freshLatch :=
  LatchRun.outcomes (.probe freshCard_probed) fun _ => true

/-- The fresh card after a first snapshot with byte 2 at `mode`, and a press of MIX. -/
def pressedMix (mode : U8) : LatchWatch :=
  (freshLatch.poll ⟨![0, 0, mode, 0x40], 0, 0⟩ 0).poll ⟨![0, 0, 0x40, 0x44], 0, 0⟩ 0

/-- MIX is pressed on it. -/
theorem pressedMix_run {ok : Readback → Prop} {mode : U8} (h : ok ![0, 0, mode, 0x40])
    (h' : ok ![0, 0, 0x40, 0x44]) : LatchRun ok (pressedMix mode) :=
  ((freshLatch_run ok).poll _ _ fun _ => h).poll _ _ fun _ => h'

/-- After a first snapshot in Ch 1/2's mode the MIX that a press engaged waits. -/
theorem mix_latch_pressed : LatchKept (pressedMix 0x40) ⟨![0, 0, 0x40, 0x40], 0, 0⟩ 0 :=
  (mix_latch (pressedMix_run (fun hf => absurd hf (by decide)) fun hf => absurd hf (by decide))).1 _ _

/-- A first snapshot in fader mode with MIX off opens the gate, and the press that follows leaves it open:
the next readback, before any in fader mode, ends MIX. -/
theorem mix_latch_open : ¬ ∀ m, LatchRun (fun _ => True) m → ∀ p t, LatchKept m p t := by
  intro hall
  have hrun : LatchRun (fun _ => True) (pressedMix 0x00) := pressedMix_run trivial trivial
  have hkept := hall _ hrun ⟨![0, 0, 0x40, 0x40], 0, 0⟩ 0
  have hexit : DeviceExit ⟨![0, 0, 0x40, 0x40], 0, 0⟩ 0 (pressedMix 0x00).w := by
    unfold DeviceExit
    decide +kernel
  have hwaits : (pressedMix 0x00).waits = true := by decide +kernel
  rw [hkept.exit hexit] at hwaits
  cases hwaits

end BabyfacePro
