import BabyfacePro.Stream.Interleave

/-!
# Calls that no other thread cuts into

The calls of the core that `BabyfacePro.Stream.Session` takes in one step are runs of the threads, and so
are the two in which a START comes in between: a start of the session that fails once its flag is raised,
and an hw_free of the substream that is started.
-/

namespace BabyfacePro

open Bus.M (get modify)

namespace Interleaved

variable {p : Params} {C : LoneKill → Shared → Prop} {s : Shared}
  {m m' : Section.Monitor Shared LoneKill Errno Unit}

/-- What further steps lead to is reached. -/
theorem Reaches.steps (h : Reaches p C m)
    (hs : Relation.ReflTransGen (Section.Step Other (Waits p.urb_split) C) m m') :
    Reaches p C m' := by
  obtain ⟨w₀, hfresh, hrun⟩ := h
  exact ⟨w₀, hfresh, hrun.trans hs⟩

/-- So is what a step of another thread leads to, with the mutex free. -/
theorem Reaches.other (h : Reaches p C ⟨s, none⟩) {s' : Shared} (hs : Other s s') :
    Reaches p C ⟨s', none⟩ := h.steps (.single (.other hs none))

/-- A section that waits for nothing runs through. -/
theorem Reaches.through (h : Reaches p C ⟨s, none⟩) {q : Sec Unit} (hw : Waits p.urb_split s q)
    (hclear : Section.Clear C q s) : Reaches p C ⟨(q.run s).2, none⟩ :=
  h.steps ((Section.Step.through hclear).head (.take hw))

/-- The section of a call of the core that succeeds alone. -/
theorem Reaches.call {d : Dir} {c₀ ok bad : Call} {q : Sec Unit} {w : PcmWorld}
    (h : Reaches p C ⟨s.called d c₀, none⟩)
    (hw : Waits p.urb_split (s.called d c₀) (inCall d q ok bad))
    (hrun : q.run (s.called d c₀) = (.ok (), { s.called d c₀ with world := w }))
    (hclear : Section.Clear C q (s.called d c₀)) :
    Reaches p C ⟨{ s.called d ok with world := w }, none⟩ := by
  have hcall : (inCall d q ok bad).run (s.called d c₀) =
      (.ok (), { s.called d ok with world := w }) := by
    rw [inCall, Section.Prog.settle_run, hrun]
    simp [Section.Prog.change, Section.Prog.run, Shared.called]
  have hthrough := h.through hw (hclear.settle (fun _ _ => ⟨trivial, trivial, trivial⟩)
    fun _ _ => ⟨trivial, trivial, trivial⟩)
  rwa [hcall] at hthrough

/-- A call of the core that has returned. -/
theorem called_back {d : Dir} (c : Call) (hidle : s.call d = .idle) (w : PcmWorld) :
    Shared.called d .idle { s.called d c with world := w } = { s with world := w } := by
  simp [Shared.called, ← hidle]

/-- Open is a step of the core, also with the triggers in between. -/
theorem Reaches.opened (h : Reaches p C ⟨s, none⟩) (d : Dir) (pid : ℕ)
    (hs : s.card.state d = .open) (hidle : s.call d = .idle) :
    Reaches p C ⟨{ s with world := (babyfacePcmOpen d pid s.world).2 }, none⟩ := by
  have howner := h.through (.owner d pid hs hidle) ⟨trivial, trivial, trivial⟩
  exact howner.other (.subs d true hs hidle)

/-- hw_params is a step of the core, also with the triggers in between. -/
theorem Reaches.hwParams (h : Reaches p C ⟨s, none⟩) (hfree : ∀ d, s.starting d = false) (d : Dir)
    (params : Runtime) (hidle : s.call d = .idle) (ho : s.card.chip.subs d = true)
    (hs : s.card.state d = .open ∨ s.card.state d = .setup ∨ s.card.state d = .prepared)
    (hp : 2 * params.period_size ≤ params.buffer_size)
    (hok : (BabyfacePro.babyfacePcmHwParams p.urb_split d params s.world).1 = .ok ()) :
    Reaches p C ⟨{ s with world := (sndPcmHwParams p.urb_split d params s.world).2 }, none⟩ := by
  rcases hrun : BabyfacePro.babyfacePcmHwParams p.urb_split d params s.world with ⟨res, w⟩
  obtain rfl : res = .ok () := by
    rw [hrun] at hok
    exact hok
  -- Run alone, the section is the call itself, and nothing of it forbids the run.
  obtain ⟨halone, hclear⟩ := babyfacePcmHwParams_alone (C := C) p.urb_split d params
    (s.called d (.hwParams params))
  -- The core enters the call, its section runs, and the core leaves it with the parameters set.
  have hsection := (h.other (.hwParams d params hidle ho hs hp)).call
    (.hwParams d params (Function.update_self ..)) (w := w)
    (halone.trans (by rw [show (s.called d (.hwParams params)).world = s.world from rfl, hrun]))
    (hclear hfree)
  have hend := hsection.other (.accepted d params (Function.update_self ..) (hfree d))
  -- This is what the core's step on a whole hw_params does.
  have hstep : (sndPcmHwParams p.urb_split d params s.world).2 =
      { w with chip := withParams d params w.chip } := by
    rw [sndPcmHwParams, hrun]
  rw [hstep, ← called_back (.accepted params) hidle]
  exact hend

/-- prepare is a step of the core, also with the triggers in between. -/
theorem Reaches.prepare (h : Reaches p C ⟨s, none⟩) (hfree : ∀ d, s.starting d = false) (d : Dir)
    (hidle : s.call d = .idle) (ho : s.card.state d ≠ .open) (hd : s.card.state d ≠ .disconnected)
    (hs : (s.card.state d).isRunning d = false)
    (hok : (prepareSection d s.world).1 = .ok ()) :
    Reaches p C ⟨{ s with world := (sndPcmPrepare d s.world).2 }, none⟩ := by
  rcases hrun : prepareSection d s.world with ⟨res, w⟩
  -- A prepare that succeeds keeps the run's constraint.
  have hclear := babyfacePcmPrepare_clear (C := C) (s := s.called d .prepare) hfree hok
  obtain rfl : res = .ok () := by
    rw [hrun] at hok
    exact hok
  have halone := (babyfacePcmPrepare_alone (C := fun _ _ => True) (fun _ => trivial) d
    (s.called d .prepare)).1
  -- The core enters the call and its section runs.
  have hsection := (h.other (.prepare d hidle ho hd hs)).call
    (.prepare d (Function.update_self ..)) (w := w)
    (halone.trans (by rw [show (s.called d .prepare).world = s.world from rfl, hrun])) hclear
  have hend := hsection.other (.prepared d (Function.update_self ..) (hfree d))
  -- This is what the core's step on a whole prepare does.
  have hstep : (sndPcmPrepare d s.world).2 =
      { w with chip := inState d .prepared (ptrReset d w.chip) } := by
    rw [sndPcmPrepare, babyfacePcmPrepare_section, bind_assoc, Bus.M.bind_of_ok hrun]
    rfl
  rw [hstep, ← called_back .prepared hidle]
  exact hend

/-- A START on a live session that fits sets the substream running. -/
theorem sndPcmStart_run {d : Dir} {w : PcmWorld} (hlive : w.chip.chip.streaming = true)
    (hfits : ¬ Misfits w.chip d) :
    sndPcmStart d w = (.ok (), { w with chip := inState d .running (ptrReset d w.chip) }) := by
  unfold sndPcmStart babyfacePcmStart
  rw [bind_assoc, Bus.M.bind_of_ok (Bus.M.get_run w), Bus.M.bind_run, Bus.M.ite_run,
    Bus.M.ite_run, if_neg (by simpa using hlive), if_neg hfits]
  rfl

/-- START is a step of the core. -/
theorem Reaches.start (h : Reaches p C m) (hfree : ∀ d, m.state.starting d = false) (d : Dir)
    (hs : m.state.card.state d = .prepared) (hlive : m.state.card.chip.streaming = true)
    (hfits : ¬ Misfits m.state.card d) :
    Reaches p C { m with
      state := { m.state with world := (sndPcmStart d m.state.world).2 } } := by
  obtain ⟨s, q⟩ := m
  -- A trigger is two steps: it looks at the session, and then sets the substream running.
  have hread : Section.Step Other (Waits p.urb_split) C ⟨s, q⟩ ⟨s.startedBy d true, q⟩ :=
    .other (.startRead d hs (hfree d) hlive) q
  have hrun : Section.Step Other (Waits p.urb_split) C ⟨s.startedBy d true, q⟩
      ⟨((s.startedBy d true).onCard fun k => inState d .running (ptrReset d k)).startedBy d false,
        q⟩ := .other (.startRun d (Function.update_self ..) hfits) q
  -- Both together are the core's step, as the mark of the first is gone after the second.
  have hstep : ((s.startedBy d true).onCard fun k =>
      inState d .running (ptrReset d k)).startedBy d false =
        { s with world := (sndPcmStart d s.world).2 } := by
    have hlock : Function.update (Function.update s.starting d true) d false = s.starting := by
      rw [Function.update_idem, ← hfree d, Function.update_eq_self]
    rw [sndPcmStart_run hlive hfits]
    unfold Shared.startedBy Shared.onCard
    dsimp only
    rw [hlock]
  rw [hstep] at hrun
  exact h.steps ((Relation.ReflTransGen.single hread).tail hrun)

/-- What is left of a prepare whose start has raised the flag: the URBs and the arm, and the error path. -/
def submitting (d : Dir) (n : ℕ) : Sec Unit :=
  (submitAndArm n).settle (fun _ => .change none (fun _ => True) (Shared.called d .prepared))
    fun _ => (babyfaceStreamKill (some .startFailed)).settle
      (fun _ => .change none (fun _ => True) (Shared.called d .idle))
      fun _ => .change none (fun _ => True) (Shared.called d .idle)

section

variable {α : Type} {F : α → Sec Unit} {G : Errno → Sec Unit} {urb_split : ℤ}

/-- The holder of the mutex gets through a part of its section that succeeds. -/
theorem atomic_step {β : Type} {a : β} {w : PcmWorld} {q : Pcm β} {f : β → Sec α}
    (hq : q s.world = (.ok a, w)) :
    Relation.ReflTransGen (Section.Step Other (Waits urb_split) C)
      ⟨s, some ((atomic q >>= f).settle F G)⟩ ⟨{ s with world := w }, some ((f a).settle F G)⟩ := by
  have hrun : (atomic q).run s = (.ok a, { s with world := w }) := by
    rw [(Alone.atomic (C := fun _ _ => True) q s).1, hq]
  refine Section.Step.bind ?_ hrun
  unfold atomic
  refine ⟨trivial, trivial, ?_⟩
  dsimp only
  rw [hq]
  trivial

/-- The holder of the mutex reads the card. -/
theorem read_step {f : Card → Sec α} :
    Relation.ReflTransGen (Section.Step Other (Waits urb_split) C)
      ⟨s, some ((getCard >>= f).settle F G)⟩ ⟨s, some ((f s.card).settle F G)⟩ :=
  atomic_step (q := get) rfl

end

/-- A prepare without a session gets to where its start has raised the flag. -/
theorem Reaches.raised (h : Reaches p C ⟨s, none⟩) (d : Dir) (hidle : s.call d = .idle)
    (ho : s.card.state d ≠ .open) (hd : s.card.state d ≠ .disconnected)
    (hs : (s.card.state d).isRunning d = false) (hdown : s.card.chip.shutdown = false)
    (hmis : ¬ Misfits s.card d) (hdead : s.card.chip.streaming = false) {w : PcmWorld}
    (htrigger : onChip bfSessionTrigger s.world = (.ok (), w)) :
    Reaches p C ⟨{ s.called d .prepare with world := { w with chip := live w.chip } },
      some (submitting d w.chip.chip.urbs_active)⟩ := by
  -- The prepare may take the mutex as soon as the core is in the call.
  have hwait : Waits p.urb_split (s.called d .prepare)
      (inCall d (babyfacePcmPrepare d) .prepared .idle) :=
    .prepare d (Function.update_self ..)
  -- It reads the card, and goes the way of a session that has to be started.
  refine (h.other (.prepare d hidle ho hd hs)).steps (.head (.take hwait) ?_)
  refine (read_step (f := fun k => if k.chip.shutdown then .throw .enodev
    else if Misfits k d then .throw .einval
    else .when (!k.chip.streaming) babyfaceStreamStart)).trans ?_
  rw [Shared.called_card, if_neg (by simp [hdown]), if_neg hmis, hdead, Bool.not_false,
    Section.Prog.when, if_pos rfl, babyfaceStreamStart, Section.Prog.onError,
    Section.Prog.settle_assoc]
  -- The start goes through the trigger, the counts and the flag, one section each.
  unfold startSession
  refine (atomic_step (s := s.called d .prepare) htrigger).trans ?_
  refine read_step.trans ?_
  refine (atomic_step (q := modify counted) rfl).trans ?_
  exact Section.Step.bind (p := .change none (fun _ => True) (Shared.onCard Interleaved.raised))
    ⟨trivial, trivial, trivial⟩ rfl

/-- The first URB of a session cannot be submitted. -/
theorem submitAndArm_fails {n : ℕ} (hn : 0 < n) {w : PcmWorld} (husb : w.usb 0 = false) :
    BabyfacePro.submitAndArm n w = (.error .usb, { w with usb := Bus.shift w.usb 1 }) := by
  obtain ⟨k, rfl⟩ := Nat.exists_eq_add_of_lt hn
  have hsubmit : usbSubmitUrb w = (.error .usb, { w with usb := Bus.shift w.usb 1 }) := by
    simp [usbSubmitUrb, Bus.M.recv, husb]
  rw [BabyfacePro.submitAndArm, Nat.zero_add, List.range_succ_eq_map, Bus.M.each_cons]
  exact Bus.M.bind_of_error (Bus.M.bind_of_error (Bus.M.bind_of_error hsubmit _) _) _

/-- What a start that fails on its first URB leaves, once the flag was raised. -/
theorem submitting_fails {d : Dir} {n : ℕ} (hn : 0 < n) (husb : s.world.usb 0 = false) :
    ((submitting d n).run s).2 = { s.called d .idle with
      world := { s.world with chip := killed s.world.chip, usb := Bus.shift s.world.usb 1 } } := by
  have hrun := (submitAndArm_alone (C := fun _ _ => True) n s).1
  rw [submitAndArm_fails hn husb] at hrun
  rw [submitting, Section.Prog.settle_run, hrun]
  rfl

/-- Where a prepare starts the session, a START of a substream that was prepared before can come in between
the flag and the first URB. If that URB then fails, the substream is left running without a session. -/
theorem Reaches.stranded (h : Reaches p (fun _ _ => True) ⟨s, none⟩)
    (hfree : ∀ d, s.starting d = false) {d e : Dir} (hidle : s.call d = .idle)
    (ho : s.card.state d ≠ .open) (hd : s.card.state d ≠ .disconnected)
    (hs : (s.card.state d).isRunning d = false) (he : s.card.state e = .prepared)
    (hdown : s.card.chip.shutdown = false) (hdead : s.card.chip.streaming = false)
    (hmis : ∀ e, ¬ Misfits s.card e) (hn : 0 < s.card.chip.urbs_active) {w : PcmWorld}
    (htrigger : onChip bfSessionTrigger s.world = (.ok (), w)) :
    ∃ s', Reaches p (fun _ _ => True) ⟨s', none⟩ ∧ s'.card.chip.shutdown = false ∧
      s'.card.state e = .running ∧ s'.card.chip.streaming = false := by
  -- The trigger leaves the stream part, the states and the parameters, so the START below still sees them.
  have hkeep := (onChip_keeps bfSessionTrigger_keeps
    (fun k : Card => (k.chip.toStream, k.state, k.runtime)) fun k c hc => by
      simp only [hc]).state s.world
  rw [htrigger] at hkeep
  simp only [Prod.mk.injEq] at hkeep
  obtain ⟨hstream, hstate, hruntime⟩ := hkeep
  -- The prepare has raised the flag, and the START of the other substream comes now.
  have hraised := h.raised d hidle ho hd hs hdown (hmis d) hdead htrigger
  obtain ⟨s₁, hs₁⟩ : ∃ s₁ : Shared, s₁ =
      { s.called d .prepare with world := { w with chip := live w.chip } } := ⟨_, rfl⟩
  rw [← hs₁] at hraised
  have hcard : s₁.world.chip = live w.chip := by rw [hs₁]
  have hfree₁ : ∀ d, s₁.starting d = false := by rw [hs₁]; exact hfree
  have hlive : s₁.world.chip.chip.streaming = true := by rw [hcard]; rfl
  have hfits : ¬ Misfits s₁.world.chip e := by
    have hsame : Misfits s₁.world.chip e ↔ Misfits s.card e := by
      simp only [Misfits, bfSessionPeriod, hcard, live, hruntime, hstream]
    exact hsame.not.mpr (hmis e)
  have hprepared : s₁.world.chip.state e = .prepared := by
    rw [hcard]
    exact (congrFun hstate e).trans he
  have hstart := hraised.start hfree₁ e hprepared hlive hfits
  dsimp only at hstart
  rw [sndPcmStart_run hlive hfits] at hstart
  -- From here on, no transfer gets through.
  have hfailing := hstart.steps (.single (.other (.outcomes (fun _ => false) _) _))
  have hn₁ : 0 < w.chip.chip.urbs_active := by rw [hstream]; exact hn
  have hend := hfailing.steps (Section.Step.through (.settle
    ((submitAndArm_alone (C := fun _ _ => True) _ _).2 hfree₁)
    (fun _ _ => ⟨trivial, trivial, trivial⟩)
    fun _ _ => ⟨trivial, trivial, trivial, trivial, trivial⟩))
  -- The start then goes on alone and is rolled back at its first URB.
  have hlast := submitting_fails (d := d) hn₁ (s := { s₁ with
    world := { s₁.world with
      chip := inState e .running (ptrReset e s₁.world.chip)
      usb := fun _ => false } }) rfl
  have hdown₁ : s₁.world.chip.chip.shutdown = false := by
    have hfield := congrArg Stream.shutdown hstream
    rw [hcard]
    exact hfield.trans hdown
  refine ⟨_, hend, ?_, ?_, ?_⟩
  · exact (congrArg (fun s : Shared => s.card.chip.shutdown) hlast).trans hdown₁
  · exact (congrArg (fun s : Shared => s.card.state e) hlast).trans (Function.update_self ..)
  · exact congrArg (fun s : Shared => s.card.chip.streaming) hlast

/-- A START comes in between the core's check of an hw_free and its section. The last hw_free then leaves the
substream running without a session, until the core has released it. -/
theorem Reaches.strandedFreed (h : Reaches p (fun _ _ => True) ⟨s, none⟩)
    (hfree : ∀ d, s.starting d = false) {d : Dir} (hidle : s.call d = .idle)
    (hs : s.card.state d = .prepared) (hdown : s.card.chip.shutdown = false)
    (hlive : s.card.chip.streaming = true) (hfits : ¬ Misfits s.card d)
    (hset : s.card.chip.stream_setup d = true) (hlast : s.card.chip.stream_users = 1) :
    ∃ s', Reaches p (fun _ _ => True) ⟨s', none⟩ ∧ s'.card.chip.shutdown = false ∧
      s'.card.state d = .running ∧ s'.card.chip.streaming = false := by
  -- The core has checked that the substream does not run, and enters its hw_free.
  have hbegin := h.other (.hwFree d hidle (by rw [hs]; simp) (by rw [hs]; rfl))
  -- In between it is started.
  have hstart := hbegin.start hfree d hs hlive hfits
  dsimp only at hstart
  rw [sndPcmStart_run (w := (s.called d .hwFree).world) hlive hfits] at hstart
  have halone := babyfacePcmHwFree_alone (C := fun _ _ => True) (fun _ => trivial) d
  have hend := hstart.through (.hwFree d (Function.update_self ..)) (.settle ((halone _).2 hfree)
    (fun _ _ => ⟨trivial, trivial, trivial⟩) fun _ _ => ⟨trivial, trivial, trivial⟩)
  -- The hw_free is the last user's, so it kills the session.
  have hfreed : freed d (inState d .running (ptrReset d s.card)) =
      killed (released d (inState d .running (ptrReset d s.card))) := by
    have hzero : s.card.chip.stream_users - 1 = 0 := by
      rw [hlast]
      rfl
    unfold freed
    exact (if_pos hset).trans (if_pos ⟨hzero, hlive⟩)
  rw [inCall, Section.Prog.settle_run, (halone _).1, babyfacePcmHwFree_run] at hend
  refine ⟨_, hend, ?_, ?_, ?_⟩
  · show (freed d (inState d .running (ptrReset d s.card))).chip.shutdown = false
    rw [hfreed]
    exact hdown
  · show (freed d (inState d .running (ptrReset d s.card))).state d = .running
    rw [hfreed]
    exact Function.update_self ..
  · show (freed d (inState d .running (ptrReset d s.card))).chip.streaming = false
    rw [hfreed]
    rfl

end Interleaved

open Interleaved

/-! ## Playback and capture -/

/-- Playback at 48 kHz, prepared on a session that it started. -/
def playbackPrepared : PcmWorld := (sndPcmPrepare .playback playbackSetUp).2

/-- Playback is opened, set up and prepared, with no other thread in between. -/
theorem playbackPrepared_reaches (C : LoneKill → Shared → Prop) :
    Reaches {} C ⟨⟨playbackPrepared, fun _ => false, fun _ => .idle⟩, none⟩ := by
  have hfresh : Reaches {} C ⟨⟨freshPcm, fun _ => false, fun _ => .idle⟩, none⟩ :=
    ⟨freshPcm, ⟨rfl, rfl⟩, .refl⟩
  have hopened := hfresh.opened .playback 7 rfl rfl
  have hset := hopened.hwParams (fun _ => rfl) .playback ⟨48000, 2, 256, 1024⟩ rfl rfl (Or.inl rfl)
    (by decide) rfl
  exact hset.prepare (fun _ => rfl) .playback rfl (by decide) (by decide) rfl rfl

/-- Capture of the same application, set up with a shorter period: its URBs are others, so the session of
playback is stopped. -/
def shorterCapture : PcmWorld :=
  (sndPcmHwParams 0 .capture ⟨48000, 2, 128, 512⟩ (babyfacePcmOpen .capture 7 playbackPrepared).2).2

end BabyfacePro
