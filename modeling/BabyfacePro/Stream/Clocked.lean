import BabyfacePro.Core.Clock
import BabyfacePro.Stream.Session

/-!
# The rate that a session runs at

hw_params switches the interface, and a session's start writes the rate family; in between lie other
applications' calls, puts, polls, failed transfers and resumes. `session_clocked` says that in every
session the device runs at the cached rate all the same.
-/

namespace BabyfacePro

open Registers (last)

/-! ## The substreams -/

/-- A session that stops leaves the clock alone. -/
theorem sessionStopped_offClock (k : Card) : OffClock k.chip (sessionStopped k).chip := by
  unfold sessionStopped
  split
  · exact ⟨nofun, rfl, rfl, rfl, rfl⟩
  · exact ⟨id, rfl, rfl, rfl, rfl⟩

/-- So does one that is killed. -/
theorem killedLive_offClock (k : Card) : OffClock k.chip (killedLive k).chip := by
  unfold killedLive
  split
  · exact ⟨nofun, rfl, rfl, rfl, rfl⟩
  · exact ⟨id, rfl, rfl, rfl, rfl⟩

/-- So does an hw_free. -/
theorem freed_offClock (d : Dir) (k : Card) : OffClock k.chip (freed d k).chip := by
  unfold freed
  dsimp only
  split
  · split
    · exact ⟨nofun, rfl, rfl, rfl, rfl⟩
    · exact ⟨id, rfl, rfl, rfl, rfl⟩
  · exact ⟨id, rfl, rfl, rfl, rfl⟩

/-- So does the choice of the URBs. -/
theorem chooseUrbs_offClock (urb_split : ℤ) (d : Dir) (r : BfRate) (urb period : ℕ) (new : Bool) (k : Card) :
    OffClock k.chip (chooseUrbs urb_split d r urb period new k).chip := by
  have hsession := sessionStopped_offClock k
  unfold chooseUrbs
  dsimp only [ledBy]
  split_ifs
  · exact ⟨hsession.live, hsession.rate, hsession.alt, hsession.clock, hsession.optical⟩
  · exact ⟨id, rfl, rfl, rfl, rfl⟩
  · exact ⟨id, rfl, rfl, rfl, rfl⟩

/-- The device runs at the cached rate. -/
abbrev PcmClocked (w : PcmWorld) : Prop := Clocked w.chip.chip w.wire

/-- The rate's part of hw_params switches the interface once the session is stopped. -/
theorem hwParamsRate_clocked (d : Dir) {r : BfRate} (hr : r ∈ bfRates) {w : PcmWorld} (h : PcmClocked w) :
    PcmClocked (hwParamsRate d r w).2 := by
  unfold hwParamsRate
  rw [Bus.M.bind_of_ok (Bus.M.get_run w), Bus.M.ite_run, Bus.M.ite_run]
  split_ifs
  · exact h
  · exact h
  · have hidle : (sessionStopped w.chip).chip.streaming = false := by
      have hstream := congrArg Stream.streaming (sessionStopped_stream w.chip)
      exact hstream
    have hstopped : Clocked (sessionStopped w.chip).chip w.wire := h.offClock (sessionStopped_offClock w.chip)
    rw [Bus.M.bind_of_ok (stopSession_run w)]
    exact Bus.holds_bind (Q := PcmClocked) (m := onChip (bfRetune r))
      (bfRetune_clocked (w := ⟨(sessionStopped w.chip).chip, w.wire, w.notes, w.usb⟩) hr hstopped hidle)
      fun _ _ hw => hw

/-- hw_params leaves the clock in agreement, whatever it does. -/
theorem babyfacePcmHwParams_clocked (urb_split : ℤ) (d : Dir) (params : Runtime) {w : PcmWorld}
    (h : PcmClocked w) : PcmClocked (babyfacePcmHwParams urb_split d params w).2 := by
  unfold babyfacePcmHwParams
  cases hr : bfRateLookup params.rate with
  | none => exact h
  | some r =>
    dsimp only
    rw [Bus.M.bind_of_ok (Bus.M.get_run w), Bus.M.ite_run, Bus.M.ite_run]
    split_ifs
    · exact h
    · exact h
    -- Each half of hw_params keeps the clock: the rate, and then the URBs.
    · refine Bus.holds_bind (Q := PcmClocked) (hwParamsRate_clocked d (bfRateLookup_some hr).1 h)
        fun new w₁ hw₁ => ?_
      refine Bus.holds_bind (Q := PcmClocked) ?_ fun _ w₂ hw₂ => ?_
      -- The URBs are only chosen; what stops writes nothing.
      · rw [hwParamsUrbs_run]
        split_ifs
        · exact hw₁
        · exact hw₁
        · exact hw₁.offClock (chooseUrbs_offClock _ _ _ _ _ _ _)
      -- The setup of the direction is no part of the clock.
      · show Clocked (setUp d w₂.chip).chip w₂.wire
        unfold setUp
        split
        · exact hw₂
        · exact hw₂.offClock ⟨id, rfl, rfl, rfl, rfl⟩

/-- So does the core's hw_free. -/
theorem sndPcmHwFree_clocked (d : Dir) {w : PcmWorld} (h : PcmClocked w) :
    PcmClocked (sndPcmHwFree d w).2 := by
  unfold sndPcmHwFree
  rw [Bus.M.bind_of_ok (babyfacePcmHwFree_run d w)]
  exact h.offClock (freed_offClock d w.chip)

/-- So does its hw_params. -/
theorem sndPcmHwParams_clocked (urb_split : ℤ) (d : Dir) (params : Runtime) {w : PcmWorld}
    (h : PcmClocked w) : PcmClocked (sndPcmHwParams urb_split d params w).2 := by
  have hparams := babyfacePcmHwParams_clocked urb_split d params h
  unfold sndPcmHwParams
  split
  · rename_i w' hrun
    rw [hrun] at hparams
    exact hparams
  · rename_i e w' hrun
    rw [hrun] at hparams
    exact sndPcmHwFree_clocked d hparams

/-- The URBs of a session and its arm do not concern the clock. -/
theorem submitAndArm_frames (n : ℕ) :
    Bus.Frames Xfer.write (fun k k' : Card => k'.chip.clockView = k.chip.clockView)
      (fun x => ¬ x.1.isHost = true) (fun _ => True) (submitAndArm n) := by
  have hR := Bus.Framing.view fun k : Card => k.chip.clockView
  -- The arm is one word, and not to a register of the clock.
  have hsend : Writes bfSessionArm fun _ => [word BF_REQ_SESSION_ARM 0xc000 0x0000] :=
    bfVendorWrite_writes _ _ (by decide)
  have hview : Bus.Respects Chip.quiet fun c d : Chip => d.clockView = c.clockView :=
    fun c c' d d' hc hd hcd => by
      rw [Chip.quiet_eq hc, Chip.quiet_eq hd]
      exact hcd
  have harm : Bus.Frames Xfer.write (fun c d : Chip => d.clockView = c.clockView)
      (fun x => ¬ x.1.isHost = true) (fun _ => True) bfSessionArm :=
    hsend.frames (Bus.Framing.view Chip.clockView) hview (fun _ x hx => by
      rw [List.mem_singleton] at hx
      rw [hx]
      exact word_not_host _ _ (by decide)) trivial
  have hchip : Bus.Frames Xfer.write (fun k k' : Card => k'.chip.clockView = k.chip.clockView)
      (fun x => ¬ x.1.isHost = true) (fun _ => True) (onChip bfSessionArm) :=
    (harm.zoom fun _ _ => rfl).mono (fun _ _ hk => hk.1) (fun _ hx => hx) fun _ hx => hx
  exact hR.bind (hR.each _ fun _ _ => hR.bind (hR.recv trivial ()) fun _ => hR.recv trivial ()) fun _ => hchip

/-- A session is marked live once the family was written; what follows writes neither it nor the
settings, and a start that fails ends the session. -/
theorem babyfaceStreamStart_clocked {w : PcmWorld} (h : PcmClocked w) (hidle : w.chip.chip.streaming = false) :
    PcmClocked (babyfaceStreamStart w).2 := by
  -- The trigger is the part that writes: it brings the session's family to the device.
  obtain ⟨htrigger, hfamily⟩ := bfSessionTrigger_clocked (w := w.zoom Card.chip) h hidle
  have hkill : ∀ {v : PcmWorld}, PcmClocked v → PcmClocked { v with chip := killed v.chip } := fun hv =>
    hv.offClock ⟨nofun, rfl, rfl, rfl, rfl⟩
  -- A start that fails at the trigger has the clock as the trigger left it, one that goes on has written the
  -- family before it is live.
  have hbody : PcmClocked (startSession w).2 := by
    unfold startSession
    rcases hrun : bfSessionTrigger (w.zoom Card.chip) with ⟨e | _, w₁⟩
    · rw [hrun] at htrigger
      have hchip : onChip bfSessionTrigger w =
          (.error e, ⟨{ w.chip with chip := w₁.chip }, w₁.wire, w₁.notes, w₁.usb⟩) := by
        simp only [onChip, Bus.M.zoom, hrun]
      rw [Bus.M.bind_of_error hchip]
      exact htrigger
    · rw [hrun] at htrigger
      have hchip : onChip bfSessionTrigger w =
          (.ok (), ⟨{ w.chip with chip := w₁.chip }, w₁.wire, w₁.notes, w₁.usb⟩) := by
        simp only [onChip, Bus.M.zoom, hrun]
      have hlive : Clocked (live { w.chip with chip := w₁.chip }).chip w₁.wire :=
        ⟨htrigger.rate, htrigger.alt, htrigger.settings, fun _ => hfamily w₁ hrun⟩
      rw [Bus.M.bind_of_ok hchip, Bus.M.bind_of_ok (Bus.M.get_run _), Bus.M.bind_of_ok (Bus.M.modify_run _ _)]
      -- What is submitted and armed afterwards writes neither the rate nor the family.
      have hsubmit := submitAndArm_frames w₁.chip.urbs_active
      obtain ⟨vs, hw, hmiss⟩ := hsubmit.wire _
      exact (hlive.of_view (hsubmit.state _)).misses hw hmiss
  unfold babyfaceStreamStart
  -- A failed start is rolled back by a kill, which only ends the session.
  rcases hs : startSession w with ⟨e | _, w'⟩
  · rw [hs] at hbody
    rw [Bus.M.rollback_of_error hs]
    exact hkill hbody
  · rw [hs] at hbody
    rw [Bus.M.rollback_of_ok hs]
    exact hbody

/-- So does its prepare. -/
theorem sndPcmPrepare_clocked (d : Dir) {w : PcmWorld} (h : PcmClocked w) :
    PcmClocked (sndPcmPrepare d w).2 := by
  unfold sndPcmPrepare
  refine Bus.holds_bind (Q := PcmClocked) ?_ fun _ _ hw => hw.offClock ⟨id, rfl, rfl, rfl, rfl⟩
  unfold babyfacePcmPrepare
  rw [Bus.M.bind_of_ok (Bus.M.get_run w), Bus.M.ite_run, Bus.M.ite_run]
  split_ifs
  · exact h
  · exact h
  · refine Bus.holds_bind (Q := PcmClocked) ?_ fun _ _ hw => hw.offClock ⟨id, rfl, rfl, rfl, rfl⟩
    cases hidle : w.chip.chip.streaming with
    | true => exact h
    | false => exact babyfaceStreamStart_clocked h hidle

/-! ## The substreams and the mixer -/

/-- What the substreams leave alone. -/
def Chip.mixerView (c : Chip) : Mixer × (Mic → ℤ) := (c.toMixer, fun strip => (c.eq strip).slope_db)

/-- A routine of the substreams. -/
abbrev SparesMixer {α : Type} (m : Pcm α) : Prop :=
  Bus.Frames Xfer.write (fun k k' : Card => k'.chip.mixerView = k.chip.mixerView) (fun _ => True)
    (fun _ => True) m

/-- The mixer does not depend on the flag count. -/
theorem mixer_respects : Bus.Respects Chip.quiet fun c d : Chip => d.mixerView = c.mixerView :=
  fun c c' d d' hc hd hcd => by
    rw [Chip.quiet_eq hc, Chip.quiet_eq hd]
    exact hcd

/-- A routine of the rest of the driver. -/
theorem onChip_spares {α : Type} {m : Usb α} (h : Keeps (fun c d : Chip => d.mixerView = c.mixerView) m) :
    SparesMixer (onChip m) :=
  (h.zoom fun _ _ => rfl).mono (fun _ _ hk => hk.1) (fun _ h => h) fun _ h => h

/-- A change of the rate spares the mixer. -/
theorem bfRetune_spares (r : BfRate) : Keeps (fun c d : Chip => d.mixerView = c.mixerView) (bfRetune r) := by
  have hF := Bus.Framing.view Chip.mixerView
  have hblocks : Keeps (fun c d : Chip => d.mixerView = c.mixerView) bfEqReupload :=
    bfEqReupload_frames hF mixer_respects
      (fun strip c => Prod.ext rfl (funext fun strip' => recomputeStrip_slope strip strip' c))
      fun _ _ => trivial
  exact hF.bind (hF.send trivial trivial) fun _ => hF.bind (hF.modify fun _ => rfl) fun _ => hblocks

/-- So does the start of a session. -/
theorem bfSessionTrigger_spares :
    Keeps (fun c d : Chip => d.mixerView = c.mixerView) bfSessionTrigger := by
  have hF := Bus.Framing.view Chip.mixerView
  exact hF.bind (bfClockWrite_keeps hF mixer_respects) fun _ =>
    hF.bind ((bfVendorWrite_writes _ _ (by decide)).keeps hF mixer_respects) fun _ =>
      (bfVendorWrite_writes _ _ (by decide)).keeps hF mixer_respects

section Spares

variable (hR : Bus.Framing fun k k' : Card => k'.chip.mixerView = k.chip.mixerView)

include hR

/-- So does its stop. -/
theorem stopSession_spares : SparesMixer stopSession :=
  hR.bind hR.get fun _ => hR.when _ fun _ => hR.bind (hR.modify fun _ => rfl) fun _ => hR.modify fun _ => rfl

/-- So does hw_params. -/
theorem babyfacePcmHwParams_spares (urb_split : ℤ) (d : Dir) (params : Runtime) :
    SparesMixer (babyfacePcmHwParams urb_split d params) := by
  -- Each part of hw_params is a chain of sections that do not write the mixer.
  have hstop := stopSession_spares hR
  have hrate : ∀ r, SparesMixer (hwParamsRate d r) := fun r =>
    hR.bind hR.get fun _ => hR.ite _ (fun _ => hR.pure _) fun _ => hR.ite _ (fun _ => hR.throw trivial) fun _ =>
      hR.bind hstop fun _ => hR.bind (onChip_spares (bfRetune_spares r)) fun _ => hR.pure _
  have hurbs : ∀ r urb period new, SparesMixer (hwParamsUrbs urb_split d r urb period new) :=
    fun r urb period new => hR.bind hR.get fun _ => hR.ite _
      (fun _ => hR.ite _ (fun _ => hR.throw trivial) fun _ => hR.pure _)
      fun _ => hR.ite _ (fun _ => hR.ite _
        (fun _ => hR.bind hstop fun _ => hR.bind (hR.modify fun _ => rfl) fun _ => hR.modify fun _ => rfl)
        fun _ => hR.modify fun _ => rfl) fun _ => hR.pure _
  have hset : ∀ k, (setUp d k).chip.mixerView = k.chip.mixerView := fun k => by
    unfold setUp
    split <;> rfl
  unfold babyfacePcmHwParams
  split
  · exact hR.throw trivial
  · exact hR.bind hR.get fun _ => hR.ite _ (fun _ => hR.throw trivial) fun _ =>
      hR.ite _ (fun _ => hR.throw trivial) fun _ => hR.bind (hrate _) fun _ =>
        hR.bind (hurbs _ _ _ _) fun _ => hR.modify hset

/-- So does a session's start with its URBs. -/
theorem babyfaceStreamStart_spares : SparesMixer babyfaceStreamStart := by
  have harm : SparesMixer (onChip bfSessionArm) := onChip_spares <|
    (bfVendorWrite_writes _ _ (by decide)).keeps (Bus.Framing.view Chip.mixerView) mixer_respects
  have hbody : SparesMixer startSession :=
    hR.bind (onChip_spares bfSessionTrigger_spares) fun _ => hR.bind hR.get fun _ =>
      hR.bind (hR.modify fun _ => rfl) fun _ => hR.bind (hR.each _ fun _ _ =>
        hR.bind (hR.recv trivial ()) fun _ => hR.recv trivial ()) fun _ => harm
  exact hR.rollback hbody fun _ => rfl

end Spares

/-- Every step of the substreams leaves the mixer cache alone. -/
theorem PcmStep.spares {urb_split : ℤ} {w w' : PcmWorld} (hs : PcmStep urb_split w w') :
    w'.chip.chip.mixerView = w.chip.chip.mixerView ∨
      ∃ c : Chip, c.toStream = w.chip.chip.toStream ∧ w' = { w with chip := { w.chip with chip := c } } := by
  have hR := Bus.Framing.view fun k : Card => k.chip.mixerView
  -- The core also releases the parameters, which leaves the mixer alone.
  have hfree : ∀ d (w : PcmWorld), (sndPcmHwFree d w).2.chip.chip.mixerView = w.chip.chip.mixerView :=
    fun d w => by
      unfold sndPcmHwFree
      rw [Bus.M.bind_of_ok (babyfacePcmHwFree_run d w)]
      show (freed d w.chip).chip.mixerView = _
      unfold freed
      dsimp only
      split
      · split <;> rfl
      · rfl
  cases hs with
  | «open» | close | stop | shutdown | disconnect | suspend | urb | outcomes => exact .inl rfl
  -- A hw_params that fails goes through the release as well.
  | hwParams d params _ _ =>
    have hparams := (babyfacePcmHwParams_spares hR urb_split d params).state w
    left
    unfold sndPcmHwParams
    split
    · rename_i w' hrun
      rw [hrun] at hparams
      exact hparams
    · rename_i e w' hrun
      rw [hrun] at hparams
      exact (hfree d w').trans hparams
  | hwFree d _ => exact .inl (hfree d w)
  -- A prepare may start the session, whose writes are not the mixer's.
  | prepare d _ _ _ =>
    have hprepare : SparesMixer (sndPcmPrepare d) :=
      hR.bind (hR.bind hR.get fun _ => hR.ite _ (fun _ => hR.throw trivial) fun _ =>
        hR.ite _ (fun _ => hR.throw trivial) fun _ =>
          hR.bind (hR.when _ fun _ => babyfaceStreamStart_spares hR) fun _ => hR.modify fun _ => rfl)
        fun _ => hR.modify fun _ => rfl
    exact .inl (hprepare.state w)
  | start d _ =>
    left
    unfold sndPcmStart
    rcases babyfacePcmStart_cases d w with hrun | ⟨hrun, _, _⟩
    · rw [Bus.M.bind_of_error hrun]
    · rw [Bus.M.bind_of_ok hrun]
      rfl
  | work =>
    left
    rw [babyfaceStreamWork_run]
    split
    · show (killedLive w.chip).chip.mixerView = _
      unfold killedLive
      split <;> rfl
    · rfl
  -- A kill only touches the URBs.
  | kill =>
    left
    rw [killSection_run]
    unfold killedLive
    split <;> rfl
  -- The step that is left is some other part of the driver, under the same stream.
  | rest c hc => exact .inr ⟨c, hc, rfl⟩

/-! ## Runs -/

/-- A step of a card with its substreams. A suspend kills the session before the device loses its
registers, and nothing happens until the resume; a resume that failed ends the run. -/
inductive ClockStep (urb_split : ℤ) : PcmWorld → PcmWorld → Prop
  /-- A step of the substreams. They leave the mixer cache alone, and what does not is one of the others. -/
  | pcm {w w' : PcmWorld} (h : PcmStep urb_split w w')
      (hm : w'.chip.chip.mixerView = w.chip.chip.mixerView) : ClockStep urb_split w w'
  | put (k : Clock) (x : ElemValue) (ctl : Ctl) (w : PcmWorld) :
      ClockStep urb_split w (onChip (bfPut k x ctl) w).2
  | poll (p : Poll) (t : ℤ) (w : PcmWorld) : ClockStep urb_split w (onChip (babyfacePanelWork p t) w).2
  | sleep (jiffies : ℤ) {w w' : PcmWorld}
      (h : onChip (babyfaceResume jiffies) { (killSection w).2 with wire := [] } = (.ok (), w')) :
      ClockStep urb_split w w'

/-- A step of the substreams that changes the stream's part of the state. -/
theorem PcmStep.clockStep {urb_split : ℤ} {w w' : PcmWorld} (hs : PcmStep urb_split w w')
    (hne : w'.chip.chip.toStream ≠ w.chip.chip.toStream) : ClockStep urb_split w w' := by
  obtain hm | ⟨c, hc, rfl⟩ := hs.spares
  · exact .pcm hs hm
  · exact absurd hc hne

/-- The states of a card with its substreams after a probe. -/
def ClockReachable (p : Params) (w : PcmWorld) : Prop :=
  ∃ st0 reprobe jiffies w₀, Probed st0 reprobe jiffies p w₀ ∧
    Relation.ReflTransGen (ClockStep p.urb_split) ⟨{ chip := w₀.chip }, w₀.wire, w₀.notes, w₀.usb⟩ w

/-- Every step of the substreams that leaves the mixer cache alone keeps the device at the cached rate. -/
theorem PcmStep.clocked {urb_split : ℤ} {w w' : PcmWorld} (hs : PcmStep urb_split w w')
    (hm : w'.chip.chip.toMixer = w.chip.chip.toMixer) (h : PcmClocked w) : PcmClocked w' := by
  cases hs with
  -- None of these writes anything or changes the clock's part of the cache.
  | «open» | close | stop | shutdown | disconnect | suspend | urb =>
    exact h.offClock ⟨id, rfl, rfl, rfl, rfl⟩
  | hwParams d params _ _ => exact sndPcmHwParams_clocked urb_split d params h
  | hwFree d _ => exact sndPcmHwFree_clocked d h
  | prepare d _ _ _ => exact sndPcmPrepare_clocked d h
  | start d _ =>
    unfold sndPcmStart
    refine Bus.holds_bind (Q := PcmClocked) ?_ fun _ _ hw => hw.offClock ⟨id, rfl, rfl, rfl, rfl⟩
    rcases babyfacePcmStart_cases d w with hrun | ⟨hrun, _, _⟩
    · rw [hrun]
      exact h
    · rw [hrun]
      exact h.offClock ⟨id, rfl, rfl, rfl, rfl⟩
  -- The work and the kill end a session, after which less has to hold.
  | work =>
    rw [babyfaceStreamWork_run]
    have hkilled : Clocked (killedLive w.chip).chip w.wire := h.offClock (killedLive_offClock w.chip)
    split
    · exact hkilled.offClock ⟨id, rfl, rfl, rfl, rfl⟩
    · exact h
  | kill =>
    rw [killSection_run]
    exact h.offClock (killedLive_offClock w.chip)
  -- The rest of the driver may write the mixer, which this step is said not to do.
  | rest c hc =>
    refine h.of_view ?_
    show c.clockView = w.chip.chip.clockView
    have hmixer : c.toMixer = w.chip.chip.toMixer := hm
    unfold Chip.clockView
    rw [hc, hmixer]
  | outcomes => exact h

/-- What every step keeps. -/
structure ClockSafe (w : PcmWorld) : Prop where
  sound : w.chip.chip.Sound
  clocked : PcmClocked w

/-- Each step keeps what the clock relies on. -/
theorem ClockStep.safe {urb_split : ℤ} {w w' : PcmWorld} (hs : ClockStep urb_split w w')
    (h : ClockSafe w) : ClockSafe w' := by
  cases hs with
  -- A substream's step leaves the mixer, so what is sound stays so.
  | pcm hp hm =>
    have hmixer := Prod.ext_iff.mp hm
    exact ⟨h.sound.congr hmixer.1 (congrFun hmixer.2), hp.clocked hmixer.1 h.clocked⟩
  | put k x ctl => exact ⟨bfPut_sound k x ctl h.sound, bfPut_clocks k x ctl (w.zoom Card.chip) h.clocked⟩
  | poll p t =>
    exact ⟨(CardStep.poll p t (w.zoom Card.chip)).sound h.sound,
      babyfacePanelWork_clocks p t (w.zoom Card.chip) h.clocked⟩
  -- A suspend kills the session first; the resume then rebuilds the device from the cache.
  | sleep jiffies hr =>
    have hkilled : Clocked (killedLive w.chip).chip w.wire := h.clocked.offClock (killedLive_offClock w.chip)
    have hsound : (killedLive w.chip).chip.Sound := by
      unfold killedLive
      split
      · exact h.sound.congr rfl fun _ => rfl
      · exact h.sound
    -- With the session down, the resume needs no family on the device.
    have hidle : (killedLive w.chip).chip.streaming = false := by
      unfold killedLive
      cases hlive : w.chip.chip.streaming with
      | true => rfl
      | false => exact hlive
    rw [killSection_run] at hr
    -- A resume that fails has put nothing back, so only one that succeeds is a step.
    rcases hrun : babyfaceResume jiffies ⟨(killedLive w.chip).chip, [], w.notes, w.usb⟩ with ⟨e | _, w₁⟩
    · simp only [onChip, Bus.M.zoom, Bus.World.zoom, hrun] at hr
      cases hr
    · simp only [onChip, Bus.M.zoom, Bus.World.zoom, hrun] at hr
      cases hr
      have hstep := (CardStep.resume jiffies
        (⟨(killedLive w.chip).chip, [], w.notes, w.usb⟩ : World)).sound hsound
      rw [hrun] at hstep
      exact ⟨hstep, babyfaceResume_clocked (w := ⟨(killedLive w.chip).chip, [], w.notes, w.usb⟩) rfl
        hsound.dim hkilled.rate hidle hrun⟩

/-- So does a run. -/
theorem ClockReachable.safe {p : Params} {w : PcmWorld} (h : ClockReachable p w) : ClockSafe w := by
  obtain ⟨_, _, _, w₀, hp, hrun⟩ := h
  induction hrun with
  | refl => exact ⟨hp.sound, hp.clocked⟩
  | tail _ hs ih => exact hs.safe ih

/-- In every session the device runs at the cached rate: the interface has its alternate setting, and the
host's settings register its family, the cached clock source and the cached optical format. Any puts,
polls, hw_params, session starts and resumes may come before, and any of their transfers may fail. -/
theorem session_clocked {p : Params} {w : PcmWorld} (h : ClockReachable p w)
    (hlive : w.chip.chip.streaming = true) : ∃ r ∈ bfRates, r.rate = w.chip.chip.rate ∧
      last (w.wire.map Xfer.write) .iface = some (.alt r.alt) ∧
      ∀ x, hostRegister x w.wire &&& (familyField ||| settingsField) =
        .ofNat 16 (bfRateFamily r <<< 4) ||| settingsWord w.chip.chip := by
  have hclocked := h.safe.clocked
  obtain ⟨r, hr, hrate, halt⟩ := hclocked.rate
  refine ⟨r, hr, hrate, halt ▸ hclocked.alt, fun x => ?_⟩
  rw [BitVec.and_or_distrib_left, hclocked.family hlive x, hclocked.settings x, ← hrate,
    familyWord_of_mem hr]

/-- A card whose playback was opened. -/
def openedPcm : PcmWorld := (babyfacePcmOpen .playback 1
  ⟨{ chip := freshCard.chip }, freshCard.wire, freshCard.notes, freshCard.usb⟩).2

/-- And set up at 88.2 kHz. -/
def retunedPcm : PcmWorld := (sndPcmHwParams 0 .playback ⟨88200, 2, 1024, 4096⟩ openedPcm).2

/-- Its session. -/
def retunedSession : PcmWorld := (sndPcmPrepare .playback retunedPcm).2

/-- The run to `retunedSession`. -/
theorem retunedSession_reachable : ClockReachable {} retunedSession := by
  refine ⟨0, false, 0, freshCard, freshCard_probed, ?_⟩
  have hopen : ClockStep 0 _ openedPcm := (PcmStep.open .playback 1 (by decide +kernel) rfl).clockStep fun he =>
    absurd (congrArg (fun s : Stream => s.subs .playback) he) (by decide +kernel)
  have hset : ClockStep 0 openedPcm retunedPcm :=
    (PcmStep.hwParams .playback ⟨88200, 2, 1024, 4096⟩ rfl (.inl rfl)).clockStep fun he =>
      absurd (congrArg Stream.rate he) (by decide +kernel)
  have hprepare : ClockStep 0 retunedPcm retunedSession :=
    (PcmStep.prepare .playback (by decide +kernel) (by decide +kernel) (by decide +kernel)).clockStep
      fun he => absurd (congrArg Stream.streaming he) (by decide +kernel)
  exact ((Relation.ReflTransGen.single hopen).tail hset).tail hprepare

/-- The family of 44.1 kHz at twice the speed, and the internal clock. -/
theorem session_clocked_retuned :
    last (retunedSession.wire.map Xfer.write) .iface = some (.alt BF_ALT_2) ∧
      ∀ x, hostRegister x retunedSession.wire &&& 0x05ff = 0x0011 := by
  obtain ⟨r, hr, hrate, halt, hword⟩ := session_clocked retunedSession_reachable (by decide +kernel)
  have hrow : ∀ r ∈ bfRates, r.rate = 88200 → r = ⟨88200, BF_ALT_2, 40, 16⟩ := by decide
  have htuned : retunedSession.chip.chip.rate = 88200 := by decide +kernel
  obtain rfl := hrow r hr (hrate.trans htuned)
  have hsettings : settingsWord retunedSession.chip.chip = 0x0001 := by decide +kernel
  rw [hsettings] at hword
  exact ⟨halt, hword⟩

end BabyfacePro
