import BabyfacePro.Panel.Stages

/-!
# The wheel's count

The device counts the clicks of its wheel, and a readback carries the count modulo 16. A tick takes the
difference to the readback before, adds it to the value of the wheel's control, which stays within 16
bits, and hands it to the handler of the mode. The device's count is followed here as an integer: each
tick hands on the clicks since the tick before, and the value moves with them up to its limits.
-/

namespace BabyfacePro

open Bus.M (get modify)

/-! ## The clicks of a tick -/

/-- Where a turn of the wheel goes. -/
inductive WheelMode where
  | mix
  | balance
  | out
  | gain
  | none
  deriving DecidableEq

/-- The handler of the panel's mode. -/
def wheelMode (c : Chip) (cls : WheelClass) : WheelMode :=
  if c.panel_mix then .mix
  else if c.panel_sel_hold ≥ 10 ∧ cls = .out then .balance
  else if cls = .out then .out
  else if cls = .in then .gain
  else .none

/-- A handler's turn. -/
def turnWheel (mode : WheelMode) (delta now : ℤ) : Usb Unit :=
  match mode with
  | .mix => bfPanelMixWheel delta
  | .balance => bfPanelBalanceWheel delta
  | .out => bfPanelOutWheel delta now
  | .gain => bfPanelGainWheel delta
  | .none => pure ()

/-- The clicks that a tick takes from its readback: none where the mode class changes. -/
def turnOf (st : Readback) (c : Chip) : ℤ :=
  if wheelClass (st 2) = wheelClass (c.panel_prev 2) then wheelDelta (c.panel_prev 2) (st 2) else 0

/-- The value of the wheel's control after a turn. -/
def wheelValue (v delta : ℤ) : ℤ := max (-32768) (min (v + delta) 32767)

/-- The turn in the control's value. -/
def countWheel (delta : ℤ) (c : Chip) : Chip := { c with panel_wheel := wheelValue c.panel_wheel delta }

/-- The wheel's stage counts the clicks and hands them to the handler. -/
theorem tickWheel_turn (st : Readback) (now : ℤ) (w : World) :
    tickWheel st now w =
      if turnOf st w.chip = 0 then (.ok (), w) else
        turnWheel (wheelMode w.chip (wheelClass (st 2))) (turnOf st w.chip) now
          { w with
            chip := countWheel (turnOf st w.chip) w.chip
            notes := w.notes ++ [.panelWheel] } := by
  unfold tickWheel turnOf
  rw [Bus.M.bind_of_ok (Bus.M.get_run w), Bus.M.ite_run]
  by_cases hcls : wheelClass (st 2) = wheelClass (w.chip.panel_prev 2)
  swap
  · rw [if_neg (by simp [hcls]), if_neg hcls, if_pos rfl]
    rfl
  rw [if_pos hcls]
  by_cases hd : wheelDelta (w.chip.panel_prev 2) (st 2) = 0
  · rw [if_neg (by simp [hd]), if_pos hd]
    rfl
  rw [if_pos ⟨hd, hcls⟩, if_neg hd, announce_then]
  -- The handler is chosen by the state before the count.
  unfold turnWheel wheelMode
  simp only [Bus.M.ite_run]
  split_ifs <;> rfl

/-- The readback that the next tick compares with, and the control's value. -/
def Chip.counter (c : Chip) : Bool × Readback × ℤ := (c.panel_seen, c.panel_prev, c.panel_wheel)

/-- What touches neither the readback nor the value leaves the counter alone. -/
theorem counterFrame : WheelFrame (fun c d : Chip => d.counter = c.counter) fun _ => True :=
  viewFrame fun _ _ => rfl

/-- A turn that is handed on leaves the counter alone. -/
theorem turnWheel_counter (mode : WheelMode) (delta now : ℤ) (w : World) :
    (turnWheel mode delta now w).2.chip.counter = w.chip.counter := by
  have h := counterFrame
  cases mode with
  | mix => exact (bfPanelMixWheel_frames (X := fun _ => False) h (fun _ _ _ _ _ => rfl) (fun _ _ => rfl)
      (fun _ _ => rfl) _).state w
  | balance => exact (bfPanelBalanceWheel_frames (X := fun _ => False) h (fun _ _ _ _ => rfl) _).state w
  | out => exact (bfPanelOutWheel_frames (X := fun _ => False) h (fun _ _ _ _ => rfl)
      (fun _ _ _ _ _ _ => rfl) _ _).state w
  | gain => exact (bfPanelGainWheel_frames (X := fun _ => False) h (fun _ _ => rfl) _).state w
  | none => rfl

/-- The value of the control is within 16 bits. -/
def Chip.WheelBounded (c : Chip) : Prop := -32768 ≤ c.panel_wheel ∧ c.panel_wheel ≤ 32767

/-- The stages of the selections keep the counter. -/
theorem decodeMid_counter (p : Poll) :
    Bus.Frames Xfer.write (fun c d : Chip => d.counter = c.counter) (fun _ => True) (· = .fault)
      (decodeMid p) := by
  have hR := counterFrame.framing
  exact hR.bind (tickIn_frames hR (fun _ _ => rfl) _) fun _ =>
    hR.bind (tickOut_frames hR (fun _ _ => rfl) _) fun _ =>
      hR.bind (tickSelect_frames (X := (· = .fault)) hR rfl (fun _ _ => rfl) (fun _ => rfl) (fun _ => rfl) _)
        fun _ => tickHold_frames hR (fun _ _ => rfl) _

/-- The last stages keep the value, and the readback becomes the one to compare with. -/
theorem decodeTail_counter (p : Poll) (w : World) :
    (decodeTail p w).2.chip.counter = (w.chip.panel_seen, p.st, w.chip.panel_wheel) := by
  have hR := counterFrame.framing
  have hpress := (tickDimPress_frames (T := fun _ => True) (X := fun _ => False) hR (fun _ _ => rfl) p.st).state w
  have hmix := (tickMix_frames (X := fun _ => False) counterFrame mixXfers_all (fun _ => rfl) (fun _ => rfl)
    (fun _ _ => rfl) p.st).state (tickDimPress p.st w).2
  have hfader := (tickFader_frames (T := fun _ => True) (X := fun _ => False) hR mixXfers_all (fun _ => rfl)
    (fun _ => rfl) p.st).state (tickMix p.st (tickDimPress p.st w).2).2
  have hdim := (tickDim_frames (T := fun _ => True) (X := fun _ => False) hR (fun _ _ => rfl) p.st).state
    (tickFader p.st (tickMix p.st (tickDimPress p.st w).2).2).2
  have hall := hdim.trans (hfader.trans (hmix.trans hpress))
  rw [decodeTail_run]
  simp only [Chip.counter, Prod.mk.injEq] at hall ⊢
  exact ⟨hall.1, rfl, hall.2.2⟩

/-- A tick adds its turn to the value. -/
theorem decode_counter (p : Poll) {w : World} (h : w.chip.SelTracked) (hb : w.chip.WheelBounded) :
    (decode p w).2.chip.counter =
      (w.chip.panel_seen, p.st, wheelValue w.chip.panel_wheel (turnOf p.st w.chip)) := by
  have hR := counterFrame.framing
  -- The count is watched through each stage: before the wheel and after it nothing touches it.
  have hbutton := tickButton_frames (T := fun _ => True) (X := fun _ => False) hR (fun _ _ => rfl) p.st
  have hresync := bfPanelOutResync_frames (X := fun _ => False) counterFrame (fun _ => rfl) p.rest
  have hset := tickSet_frames (T := fun _ => True) (X := fun _ => False) hR (fun _ _ => rfl) (fun _ _ => rfl)
    (fun _ => trivial) (fun _ => trivial) p.st
  have hfirst := hbutton.state w
  generalize hw₁ : (tickButton p.st w).2 = w₁ at hfirst
  have hturn : turnOf p.st w₁.chip = turnOf p.st w.chip := by
    simp only [Chip.counter, Prod.mk.injEq] at hfirst
    unfold turnOf
    rw [hfirst.2.1]
  -- What is left after the wheel keeps the count, so the poll leaves the value as it is then.
  have hrest : ∀ {w₂ : World}, (tickWheel p.st p.now w₁).2 = w₂ → (decode p w).2.chip.counter =
      (w₂.chip.panel_seen, p.st, w₂.chip.panel_wheel) := fun {w₂} hw₂ => by
    have hall := (hset.state _).trans
      (((decodeMid_counter p).state (bfPanelOutResync p.rest w₂).2).trans (hresync.state w₂))
    rw [decode_run p h, decodeHead_run, hw₁, hw₂, decodeTail_counter]
    simp only [Chip.counter, Prod.mk.injEq] at hall ⊢
    exact ⟨hall.1, trivial, hall.2.2⟩
  have hrun := tickWheel_turn p.st p.now w₁
  rw [hturn] at hrun
  simp only [Chip.counter, Prod.mk.injEq] at hfirst
  obtain ⟨hseen, -, hwheel⟩ := hfirst
  -- Without a movement the value stays, within its limits as it was.
  by_cases hd : turnOf p.st w.chip = 0
  · rw [if_pos hd] at hrun
    have hsame : wheelValue w.chip.panel_wheel 0 = w.chip.panel_wheel := by
      obtain ⟨hlow, hhigh⟩ := hb
      unfold wheelValue
      omega
    rw [hrest rfl, hrun, hd, hsame, hseen, hwheel]
  · rw [if_neg hd] at hrun
    rw [hrest rfl, hrun]
    -- With one it is counted, whatever the mode then does with it.
    have hcount := turnWheel_counter (wheelMode w₁.chip (wheelClass (p.st 2))) (turnOf p.st w.chip) p.now
      { w₁ with chip := countWheel (turnOf p.st w.chip) w₁.chip, notes := w₁.notes ++ [.panelWheel] }
    simp only [Chip.counter, Prod.mk.injEq] at hcount
    rw [hcount.1, hcount.2.2]
    simp only [countWheel, hseen, hwheel]

/-! ## Steps -/

/-- The value stays within 16 bits. -/
theorem wheelValue_bounded (v delta : ℤ) : -32768 ≤ wheelValue v delta ∧ wheelValue v delta ≤ 32767 := by
  unfold wheelValue
  omega

/-- A selection put is no click. -/
theorem bfPanelSelectPut_clicks (k : Clock) (pair : Fin 3) (v : ℕ) :
    Keeps (fun c d => (d.panel_prev, d.panel_wheel) = (c.panel_prev, c.panel_wheel))
      (bfPanelSelectPut k pair v) :=
  bfPanelSelectPut_keeps (Bus.Framing.view _) (fun _ => rfl) (fun _ _ _ => rfl) (fun _ => rfl) (fun _ => rfl) k pair v

/-- A step other than a poll is no click. -/
theorem OffPoll.clicks {w w' : World} (hs : OffPoll w w') :
    w'.chip.panel_prev = w.chip.panel_prev ∧ w'.chip.panel_wheel = w.chip.panel_wheel := by
  have hput : ∀ (s : Setting) (c : Chip),
      ((s.cache c).panel_prev, (s.cache c).panel_wheel) = (c.panel_prev, c.panel_wheel) ∧
        ((s.failed c).panel_prev, (s.failed c).panel_wheel) = (c.panel_prev, c.panel_wheel) :=
    fun s c => by cases s <;> exact ⟨rfl, rfl⟩
  have hview := hs.view (v := fun c => (c.panel_prev, c.panel_wheel)) (fun _ => rfl) hput
    bfPanelSelectPut_clicks (fun _ _ => rfl) (fun _ => rfl) (fun _ => rfl) (fun _ _ => rfl) fun _ _ => rfl
  simpa only [Prod.mk.injEq] using hview

/-- A tick that decodes adds its turn to the value. -/
theorem babyfacePanelWork_counter (p : Poll) (t : ℤ) {w : World} (h : Reads w)
    (hs : w.chip.panel_seen = true) (ht : w.chip.SelTracked) (hb : w.chip.WheelBounded) :
    (babyfacePanelWork p t w).2.chip.counter =
      (true, p.st, wheelValue w.chip.panel_wheel (turnOf p.st w.chip)) := by
  have hdecode : (decode p (heard w)).2.chip.counter =
      (w.chip.panel_seen, p.st, wheelValue w.chip.panel_wheel (turnOf p.st w.chip)) :=
    decode_counter p (w := heard w) ht hb
  rw [babyfacePanelWork_decode p t h hs ht, ← hs]
  exact hdecode

/-- The value stays within 16 bits. -/
theorem Reachable.wheelBounded {w : World} (h : Reachable w) : w.chip.WheelBounded := by
  obtain ⟨_, _, _, _, w₀, hp, hr⟩ := h
  -- By induction on the run; only a poll counts.
  induction hr with
  | refl =>
    have hzero : w₀.chip.panel_wheel = 0 := congrArg Panel.panel_wheel hp.panel
    unfold Chip.WheelBounded
    omega
  | @tail w w' hrun hs ih =>
    have ht : w.chip.SelTracked := Reachable.tracked ⟨_, _, _, _, w₀, hp, hrun⟩
    obtain ⟨p, t, rfl⟩ | hoff := hs.poll_or
    swap
    · unfold Chip.WheelBounded
      rwa [hoff.clicks.2]
    -- A poll that reads nothing, a first snapshot, or one that counts within the limits.
    by_cases hreads : Reads w
    swap
    · obtain ⟨usb, t', hdeaf⟩ := babyfacePanelWork_deaf p t hreads
      rw [hdeaf]
      exact ih
    cases hseen : w.chip.panel_seen with
    | false =>
      rw [babyfacePanelWork_first p t hreads hseen]
      exact ih
    | true =>
      have hcount := babyfacePanelWork_counter p t hreads hseen ht ih
      simp only [Chip.counter, Prod.mk.injEq] at hcount
      unfold Chip.WheelBounded
      rw [hcount.2.2]
      exact wheelValue_bounded _ _

/-! ## Runs of ticks -/

/-- Byte 2 shows the device's count: its low nibble is the count modulo 16. -/
def Shows (byte2 : U8) (n : ℤ) : Prop := ((byte2 &&& 0x0f).toNat : ℤ) = n % 16

/-- A count that moves by at most 7 is read off its low nibbles. -/
theorem wheelDelta_of_shows {prev byte2 : U8} {n n' : ℤ} (h : Shows prev n) (h' : Shows byte2 n')
    (hmove : |n' - n| ≤ 7) : wheelDelta prev byte2 = n' - n := by
  unfold Shows at h h'
  unfold wheelDelta
  rw [h, h']
  rw [abs_le] at hmove
  dsimp only
  split_ifs <;> omega

/-- A card, the device's count at the last readback, and the calls of the wheel's handlers so far. -/
structure WheelTally where
  w : World
  n : ℤ
  calls : List (WheelMode × ℤ)

/-- The last readback was in the mode class, at the count. -/
structure WheelTally.Follows (cls : WheelClass) (m : WheelTally) : Prop where
  seen : m.w.chip.panel_seen = true
  cls : wheelClass (m.w.chip.panel_prev 2) = cls
  shows : Shows (m.w.chip.panel_prev 2) m.n

/-- The handler that a tick calls, with the clicks that it hands on. -/
def callsOf (st : Readback) (c : Chip) : List (WheelMode × ℤ) :=
  if turnOf st c = 0 then [] else [(wheelMode c (wheelClass (st 2)), turnOf st c)]

/-- A tick that reads the count `n'` in the mode class, at most 7 clicks from the last one. -/
structure WheelTally.Reads (cls : WheelClass) (m : WheelTally) (p : Poll) (n' : ℤ) : Prop where
  reads : BabyfacePro.Reads m.w
  cls : wheelClass (p.st 2) = cls
  shows : Shows (p.st 2) n'
  move : |n' - m.n| ≤ 7

/-- A step of the watched card in one mode class, whose ticks meet the condition `ok`. -/
inductive CountStep (cls : WheelClass) (ok : WheelTally → ℤ → Prop) (m : WheelTally) : WheelTally → Prop
  | tick (p : Poll) (t n' : ℤ) (hr : m.Reads cls p n') (hok : ok m n') :
    CountStep cls ok m ⟨(babyfacePanelWork p t m.w).2, n', m.calls ++ callsOf p.st m.w.chip⟩
  | deaf (p : Poll) (t : ℤ) (hr : ¬ Reads m.w) :
    CountStep cls ok m { m with w := (babyfacePanelWork p t m.w).2 }
  /-- Anything else that happens to the card, short of a new start of the panel. -/
  | other {w' : World} (hs : OffPoll m.w w') (hseen : w'.chip.panel_seen = m.w.chip.panel_seen) :
    CountStep cls ok m { m with w := w' }

/-- The clicks handed on so far. -/
def WheelTally.dispatched (m : WheelTally) : ℤ := (m.calls.map Prod.snd).sum

/-- The value of the control. -/
def WheelTally.value (m : WheelTally) : ℤ := m.w.chip.panel_wheel

/-- The calls of a readback add up to its turn. -/
theorem sum_callsOf (st : Readback) (c : Chip) : ((callsOf st c).map Prod.snd).sum = turnOf st c := by
  unfold callsOf
  split
  · rename_i h
    exact h.symm
  · simp

/-- In one class a tick's turn is the count's movement. -/
theorem WheelTally.Reads.turn {cls : WheelClass} {m : WheelTally} {p : Poll} {n' : ℤ} (h : m.Reads cls p n')
    (hf : m.Follows cls) : turnOf p.st m.w.chip = n' - m.n := by
  unfold turnOf
  rw [if_pos (h.cls.trans hf.cls.symm)]
  exact wheelDelta_of_shows hf.shows h.shows h.move

/-- What a tick does to the watch. -/
theorem WheelTally.Reads.step {cls : WheelClass} {m : WheelTally} {p : Poll} {n' : ℤ} (h : m.Reads cls p n')
    (hf : m.Follows cls) (hr : Reachable m.w) (t : ℤ) :
    (babyfacePanelWork p t m.w).2.chip.counter = (true, p.st, wheelValue m.value (n' - m.n)) := by
  rw [babyfacePanelWork_counter p t h.reads hf.seen hr.tracked hr.wheelBounded, h.turn hf]
  rfl

/-- A step keeps the watch on the count, and hands on the movement. -/
theorem CountStep.follows {cls : WheelClass} {ok : WheelTally → ℤ → Prop} {m m' : WheelTally}
    (h : CountStep cls ok m m') (hr : Reachable m.w) (hf : m.Follows cls) :
    Reachable m'.w ∧ m'.Follows cls ∧ m'.dispatched - m.dispatched = m'.n - m.n := by
  cases h with
  | tick p t n' hp hok =>
    -- The tick counts its movement, and the readback is the next to compare with.
    have hcount := hp.step hf hr t
    simp only [Chip.counter, Prod.mk.injEq] at hcount
    obtain ⟨hseen, hprev, -⟩ := hcount
    refine ⟨hr.step (.poll p t m.w), ⟨hseen, ?_, ?_⟩, ?_⟩
    · show wheelClass ((babyfacePanelWork p t m.w).2.chip.panel_prev 2) = cls
      rw [hprev]
      exact hp.cls
    · show Shows ((babyfacePanelWork p t m.w).2.chip.panel_prev 2) n'
      rw [hprev]
      exact hp.shows
    -- What was dispatched is the sum over the ticks, to which this one adds its own.
    · show ((m.calls ++ callsOf p.st m.w.chip).map Prod.snd).sum - (m.calls.map Prod.snd).sum = n' - m.n
      rw [List.map_append, List.sum_append, sum_callsOf, hp.turn hf]
      omega
  -- A read that fails leaves the count where it was.
  | deaf p t hdeaf =>
    obtain ⟨usb, t', hrun⟩ := babyfacePanelWork_deaf p t hdeaf
    refine ⟨hr.step (.poll p t m.w), ?_, by simp [WheelTally.dispatched]⟩
    rw [hrun]
    exact ⟨hf.seen, hf.cls, hf.shows⟩
  -- The other steps do not touch the readback that is compared with.
  | @other w' hs hseen =>
    obtain ⟨hprev, -⟩ := hs.clicks
    refine ⟨hr.step hs.step, ⟨hseen.trans hf.seen, ?_, ?_⟩, by simp [WheelTally.dispatched]⟩
    · show wheelClass (w'.chip.panel_prev 2) = cls
      rw [hprev]
      exact hf.cls
    · show Shows (w'.chip.panel_prev 2) m.n
      rw [hprev]
      exact hf.shows

/-- Along a run the tally follows the counter, and what is dispatched is what was counted. -/
theorem CountRun.follows {cls : WheelClass} {ok : WheelTally → ℤ → Prop} {m m' : WheelTally}
    (h : Relation.ReflTransGen (CountStep cls ok) m m') (hr : Reachable m.w) (hf : m.Follows cls) :
    Reachable m'.w ∧ m'.Follows cls ∧ m'.dispatched - m.dispatched = m'.n - m.n := by
  induction h with
  | refl => exact ⟨hr, hf, by omega⟩
  | tail _ hs ih =>
    obtain ⟨hr₁, hf₁, hsum₁⟩ := ih
    obtain ⟨hr₂, hf₂, hsum₂⟩ := hs.follows hr₁ hf₁
    exact ⟨hr₂, hf₂, by omega⟩

/-- The value with a tick's movement is within the control's limits. -/
def WheelTally.Within (m : WheelTally) (n' : ℤ) : Prop :=
  -32768 ≤ m.value + (n' - m.n) ∧ m.value + (n' - m.n) ≤ 32767

/-- Within its limits the value moves with the count. -/
theorem CountStep.value {cls : WheelClass} {m m' : WheelTally} (h : CountStep cls WheelTally.Within m m')
    (hr : Reachable m.w) (hf : m.Follows cls) : m'.value - m.value = m'.n - m.n := by
  cases h with
  | tick p t n' hp hok =>
    have hcount := hp.step hf hr t
    simp only [Chip.counter, Prod.mk.injEq] at hcount
    obtain ⟨hlow, hhigh⟩ := hok
    -- Within the limits the movement is added without a clamp.
    have hvalue : (babyfacePanelWork p t m.w).2.chip.panel_wheel = m.value + (n' - m.n) := by
      rw [hcount.2.2]
      unfold wheelValue
      omega
    show (babyfacePanelWork p t m.w).2.chip.panel_wheel - m.value = n' - m.n
    omega
  | deaf p t hdeaf =>
    obtain ⟨usb, t', hrun⟩ := babyfacePanelWork_deaf p t hdeaf
    show (babyfacePanelWork p t m.w).2.chip.panel_wheel - m.value = m.n - m.n
    rw [hrun]
    show m.w.chip.panel_wheel - m.w.chip.panel_wheel = m.n - m.n
    omega
  | @other w' hs hseen =>
    show w'.chip.panel_wheel - m.w.chip.panel_wheel = m.n - m.n
    rw [hs.clicks.2]
    omega

/-- Within the limits the value moves with the count. -/
theorem CountRun.value {cls : WheelClass} {m m' : WheelTally}
    (h : Relation.ReflTransGen (CountStep cls WheelTally.Within) m m') (hr : Reachable m.w)
    (hf : m.Follows cls) : m'.value - m.value = m'.n - m.n := by
  induction h with
  | refl => omega
  | tail hrun hs ih =>
    obtain ⟨hr₁, hf₁, -⟩ := CountRun.follows hrun hr hf
    have := hs.value hr₁ hf₁
    omega

/-- In the tick of the world `w` the wheel's stage hands `delta` clicks to the mode's handler, and does
nothing else but count them; without clicks it does nothing. -/
def WheelHands (p : Poll) (w : World) (delta : ℤ) : Prop :=
  let w₁ := (tickButton p.st (heard w)).2
  tickWheel p.st p.now w₁ =
    if delta = 0 then (.ok (), w₁) else
      turnWheel (wheelMode w.chip (wheelClass (p.st 2))) delta p.now
        { w₁ with chip := countWheel delta w₁.chip, notes := w₁.notes ++ [.panelWheel] }

/-- A readback hands on its turn. -/
theorem tickWheel_hands (p : Poll) (w : World) : WheelHands p w (turnOf p.st w.chip) := by
  have hbutton := (tickButton_frames (T := fun _ => True) (X := fun _ => False)
    (Bus.Framing.view fun c => (c.panel_prev, c.panel_mix, c.panel_sel_hold)) (fun _ _ => rfl) p.st).state (heard w)
  simp only [Prod.mk.injEq] at hbutton
  obtain ⟨hprev, hmix, hhold⟩ := hbutton
  have hturn : turnOf p.st (tickButton p.st (heard w)).2.chip = turnOf p.st w.chip := by
    unfold turnOf
    rw [hprev]
    rfl
  have hmode : wheelMode (tickButton p.st (heard w)).2.chip (wheelClass (p.st 2)) =
      wheelMode w.chip (wheelClass (p.st 2)) := by
    unfold wheelMode
    rw [hmix, hhold]
    rfl
  have hrun := tickWheel_turn p.st p.now (tickButton p.st (heard w)).2
  rwa [hturn, hmode] at hrun

/-- In every run of ticks in one mode class, in which the count moves by at most 7 from one readback
to the next: the handlers got exactly the clicks that the device counted, each tick hands its movement
to the handler of its mode and adds it to the value, up to the control's limits, and a tick in which the
class changes adds nothing. While the sum stays within the limits, the value moves with the count. -/
theorem wheel_counts {cls : WheelClass} {m : WheelTally} (hr : Reachable m.w) (hf : m.Follows cls) :
    (∀ ok m', Relation.ReflTransGen (CountStep cls ok) m m' →
      m'.dispatched - m.dispatched = m'.n - m.n ∧
        (∀ p t n', m'.Reads cls p n' → WheelHands p m'.w (n' - m'.n) ∧
          (babyfacePanelWork p t m'.w).2.chip.panel_wheel = wheelValue m'.value (n' - m'.n)) ∧
        ∀ p t, Reads m'.w → wheelClass (p.st 2) ≠ cls → WheelHands p m'.w 0 ∧
          (babyfacePanelWork p t m'.w).2.chip.panel_wheel = m'.value) ∧
      ∀ m', Relation.ReflTransGen (CountStep cls WheelTally.Within) m m' →
        m'.value - m.value = m'.n - m.n := by
  refine ⟨fun ok m' hrun => ?_, fun m' hrun => CountRun.value hrun hr hf⟩
  -- The run keeps the watch on the count, so what a tick does can be said at its end.
  obtain ⟨hr', hf', hsum⟩ := CountRun.follows hrun hr hf
  refine ⟨hsum, fun p t n' hp => ⟨?_, ?_⟩, fun p t hreads hcls => ?_⟩
  · rw [← hp.turn hf']
    exact tickWheel_hands p m'.w
  · have hcount := hp.step hf' hr' t
    simp only [Chip.counter, Prod.mk.injEq] at hcount
    exact hcount.2.2
  -- A readback of another class is no movement.
  · have hturn : turnOf p.st m'.w.chip = 0 := if_neg fun he => hcls (he.trans hf'.cls)
    have hcount := babyfacePanelWork_counter p t hreads hf'.seen hr'.tracked hr'.wheelBounded
    simp only [Chip.counter, Prod.mk.injEq, hturn] at hcount
    constructor
    · rw [← hturn]
      exact tickWheel_hands p m'.w
    -- Adding nothing to a value within the limits leaves it.
    · obtain ⟨hlow, hhigh⟩ := hr'.wheelBounded
      rw [hcount.2.2]
      unfold wheelValue WheelTally.value
      omega

/-! ## The limits of the value -/

/-- A card after a first snapshot in fader mode, at the count 0. -/
def snapped (w : World) : WheelTally := ⟨(babyfacePanelWork ⟨fun _ => 0, 0, 0⟩ 0 w).2, 0, []⟩

/-- A tally that starts at a snapshot follows the counter. -/
theorem snapped_follows {w : World} (h : Reads w) (hs : w.chip.panel_seen = false) :
    (snapped w).Follows .fader := by
  have hrun := babyfacePanelWork_first ⟨fun _ => 0, 0, 0⟩ 0 h hs
  have hprev : (snapped w).w.chip.panel_prev = fun _ => 0 := by rw [snapped, hrun]; rfl
  refine ⟨by rw [snapped, hrun]; rfl, ?_, ?_⟩ <;> rw [hprev]
  · decide
  · rfl

/-- What it starts from is reachable. -/
theorem snapped_reachable {w : World} (h : Reachable w) : Reachable (snapped w).w :=
  h.step (.poll ⟨fun _ => 0, 0, 0⟩ 0 w)

/-- A fresh card without a failed transfer. -/
theorem freshCard_reads :
    Reads (freshCardWith fun _ => true) ∧ (freshCardWith fun _ => true).chip.panel_seen = false := by
  decide +kernel

/-- The readback of a count in fader mode. -/
def faderSt (n : ℕ) : Readback := ![0, 0, .ofNat 8 (n % 16), 0]

/-- A readback of the fader shows its count. -/
theorem faderSt_shows (n : ℕ) : wheelClass (faderSt n 2) = .fader ∧ Shows (faderSt n 2) n := by
  have hall : ∀ r : Fin 16, wheelClass (.ofNat 8 r) = .fader ∧ ((BitVec.ofNat 8 r &&& 0x0f).toNat) = r := by
    decide
  obtain ⟨hcls, hlow⟩ := hall ⟨n % 16, Nat.mod_lt _ (by decide)⟩
  refine ⟨hcls, ?_⟩
  have hcast : (((BitVec.ofNat 8 (n % 16) &&& 0x0f).toNat : ℕ) : ℤ) = ((n % 16 : ℕ) : ℤ) := congrArg _ hlow
  exact hcast.trans (by push_cast; rfl)

/-- A tick of 7 clicks after the count 0. -/
def WheelTally.turned (m : WheelTally) : WheelTally :=
  ⟨(babyfacePanelWork ⟨faderSt 7, 0, 0⟩ 0 m.w).2, 7, m.calls ++ callsOf (faderSt 7) m.w.chip⟩

/-- The fresh card in fader mode after a tick of 7 clicks. -/
theorem wheel_counts_fresh :
    (snapped (freshCardWith fun _ => true)).turned.value - (snapped (freshCardWith fun _ => true)).value = 7 - 0 := by
  obtain ⟨hreads, hseen⟩ := freshCard_reads
  have hr := snapped_reachable (freshCardWith_reachable fun _ => true)
  have hf := snapped_follows hreads hseen
  have hreads' : Reads (snapped (freshCardWith fun _ => true)).w := by decide +kernel
  have hwithin : (snapped (freshCardWith fun _ => true)).Within 7 := by
    unfold WheelTally.Within WheelTally.value
    decide +kernel
  have hstep : CountStep .fader WheelTally.Within (snapped (freshCardWith fun _ => true))
      (snapped (freshCardWith fun _ => true)).turned :=
    .tick ⟨faderSt 7, 0, 0⟩ 0 7 ⟨hreads', (faderSt_shows 7).1, (faderSt_shows 7).2, by decide⟩ hwithin
  exact (wheel_counts hr hf).2 _ (.single hstep)

/-- The wheel may be turned on and on, by 7 clicks in each tick. -/
theorem snapped_turned {w : World} (h : Reads w) (hlive : ∀ i, w.usb i = true) (k : ℕ) :
    ∃ m, Relation.ReflTransGen (CountStep .fader fun _ _ => True) (snapped w) m ∧
      m.n = 7 * k ∧ m.w.chip.shutdown = false ∧ ∀ i, m.w.usb i = true := by
  have hframe := babyfacePanelWork_stream
  -- By induction on the number of ticks, of 7 clicks each.
  induction k with
  | zero =>
    refine ⟨snapped w, .refl, rfl, ?_, (hframe _ 0).live hlive⟩
    have hstream := congrArg Stream.shutdown ((hframe ⟨fun _ => 0, 0, 0⟩ 0).state w)
    exact hstream.trans h.1
  | succ k ih =>
    obtain ⟨m, hrun, hn, hup, hlive⟩ := ih
    -- The readback shows a count that is 7 on.
    obtain ⟨hcls, hshows⟩ := faderSt_shows (7 * (k + 1))
    have hmove : |((7 * (k + 1) : ℕ) : ℤ) - m.n| ≤ 7 := by
      rw [hn, abs_le]
      omega
    refine ⟨_, hrun.tail (.tick ⟨faderSt (7 * (k + 1)), 0, 0⟩ 0 _ ⟨⟨hup, hlive 0⟩, hcls, hshows, hmove⟩
      trivial), ?_, ?_, (hframe _ 0).live hlive⟩
    · show ((7 * (k + 1) : ℕ) : ℤ) = 7 * ((k + 1 : ℕ) : ℤ)
      omega
    · have hstream := congrArg Stream.shutdown ((hframe ⟨faderSt (7 * (k + 1)), 0, 0⟩ 0).state m.w)
      exact hstream.trans hup

/-- The value is clamped: after enough ticks of 7 clicks it stands at its limit, behind the count. -/
theorem wheel_counts_clamped :
    ¬ ∀ cls m m', Reachable m.w → m.Follows cls →
      Relation.ReflTransGen (CountStep cls fun _ _ => True) m m' → m'.value - m.value = m'.n - m.n := by
  intro hall
  obtain ⟨hreads, hseen⟩ := freshCard_reads
  have hreach := snapped_reachable (freshCardWith_reachable fun _ => true)
  have hfollows := snapped_follows hreads hseen
  obtain ⟨m, hrun, hn, -⟩ := snapped_turned hreads (fun _ => rfl) 9363
  have hvalue := hall _ _ _ hreach hfollows hrun
  have hlow := hreach.wheelBounded.1
  have hhigh := (CountRun.follows hrun hreach hfollows).1.wheelBounded.2
  have hzero : (snapped (freshCardWith fun _ => true)).n = 0 := rfl
  rw [hn, hzero] at hvalue
  unfold WheelTally.value at hvalue
  omega

end BabyfacePro
