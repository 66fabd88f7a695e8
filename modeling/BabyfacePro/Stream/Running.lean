import BabyfacePro.Stream.Calls
import BabyfacePro.Stream.Threads

/-!
# A substream that runs

Which kills of a session can leave a substream running, and what holds of one that runs whenever the
mutex is free. Every kill but two is followed by `babyface_pcm_stop_both`: that a START checks the flag
under the stream lock then makes it safe. The error path of `babyface_stream_start` and the last hw_free
rely on no substream having been started.
-/

namespace BabyfacePro

open Section (Safe Triple Held)
open Interleaved
open Bus.M (get modify)

/-! ## The acts of the sections -/

namespace Interleaved

variable {b : Option (Dir × Call)} {P Q : Shared → Prop} {s s' : Shared} {α : Type} {C : LoneKill → Shared → Prop} {R : α → Shared → Prop}
  {X : Errno → Shared → Prop}

/-- Two cards that the substreams and the triggers cannot tell apart. -/
structure Unseen (k k' : Card) : Prop where
  fixed : k'.fixed = k.fixed
  subs : k'.chip.subs = k.chip.subs
  shutdown : k'.chip.shutdown = k.chip.shutdown
  state : k'.state = k.state
  runtime : k'.runtime = k.runtime

/-- A part of a section that the substreams and the triggers do not see. -/
theorem unseen_act (hP : Lasting P) {m : Pcm α} (hm : ∀ w : PcmWorld, Unseen w.chip (m w).2.chip) :
    Triple Other C (Up b P) (atomic m) (fun _ => Up b P) fun _ => Up b P := by
  refine Triple.act (Up.stable hP) fun s hs _ _ => ?_
  have hu := hm s.world
  have hkeep : Up b P { s with world := (m s.world).2 } := by
    have hnurbs : (m s.world).2.chip.chip.nurbs = s.card.chip.nurbs := by
      have hfield := congrArg Stream.nurbs hu.fixed
      exact hfield
    have heffect : Effect .playback s { s with world := (m s.world).2 } := by
      refine Effect.unseen hu.fixed fun e => ?_
      simp only [Shared.sub, Shared.card, hu.subs, hu.state, hu.runtime]
    refine ⟨hnurbs ▸ hs.1, fun hup => ?_⟩
    exact (hs.2 (hu.shutdown.symm.trans hup)).step heffect (hP heffect)
  revert hkeep
  rcases (m s.world).1 with e | a <;> exact id

/-- A section that reads the card goes on in the state in which it found it. -/
theorem read_card (hP : Lasting P) {f : Card → Sec α}
    (h : ∀ s, Up b P s → Safe Other C R X (f s.card) s) :
    Triple Other C (Up b P) (getCard >>= f) R X :=
  Triple.act (Up.stable hP) fun s hs _ _ => h s hs

/-- After a kill, no session runs. -/
theorem kill_act (i : Option LoneKill) {X : Errno → Shared → Prop} :
    Triple Other C (Up b Sound) (babyfaceStreamKill i) (fun _ => Up b (Still fun _ => False)) X :=
  Triple.change (Up.stable sound_lasting) fun _ hs _ _ =>
    hs.onCard (fun _ => ⟨rfl, rfl⟩) fun _ h =>
      ⟨⟨h.inv.urbs_active, h.inv.users, h.inv.sub⟩, ⟨rfl, fun _ hf => hf.elim⟩⟩

/-- Under the stream lock, a substream is stopped whatever its START has read. -/
theorem stopped_effect {d : Dir} (hinv : SharedInv s) (hl : s.starting d = false) :
    Effect d s (s.onCard (stoppedOne d .xrun)) ∧ ¬ (s.onCard (stoppedOne d .xrun)).Started d := by
  have hready := (hinv.sub d).ready
  obtain ⟨st, hst⟩ : ∃ st, st = if s.card.chip.subs d ∧ (s.card.state d).isRunning d then
      PcmState.xrun else s.card.state d := ⟨_, rfl⟩
  have hrun : st ≠ .running := by
    rintro rfl
    split_ifs at hst with hcond
    -- A substream that runs is open, so it would have been stopped.
    refine hcond ⟨(hready ?_).1, ?_⟩
    · show s.card.state d ≠ .open
      simp [← hst]
    · rw [← hst]
      rfl
  have hopen : st = .open ↔ s.card.state d = .open := by
    rw [hst]
    split_ifs with hcond
    · have hne : s.card.state d ≠ .open := by
        intro hcard
        simp [hcard, PcmState.isRunning] at hcond
      simp [hne]
    · rfl
  have heffect : Effect d s ((s.onCard (stoppedOne d .xrun)).called d (s.call d)) := by
    refine ended_effect (s.call d) (s.card.runtime d) (Or.inr rfl) hrun hl
      ⟨by rw [hst]; rfl, (Function.update_eq_self ..).symm, rfl, rfl⟩ fun hx hl => ?_
    exact ⟨fun hne => hx.ready (fun hcard => hne (hopen.mpr hcard)), hx.params, hx.accepted,
      fun hc hst' => hx.prepare hc (hopen.mp hst'), fun hs => absurd (hl.symm.trans hs) (by simp)⟩
  refine ⟨called_self d (s.onCard (stoppedOne d .xrun)) ▸ heffect, ?_⟩
  have hstate : (s.onCard (stoppedOne d .xrun)).card.state d = st := by
    rw [hst]
    exact Function.update_self ..
  rintro (hs | hs)
  · exact hrun (hstate.symm.trans hs)
  · exact absurd (hl.symm.trans hs) (by simp)

/-- The turn of one direction in `babyface_pcm_stop_both`. -/
theorem stop_act (d : Dir) (D : Dir → Prop) {X : Errno → Shared → Prop} :
    Triple Other C (Up b (Still D)) (stopOne d .xrun)
      (fun _ => Up b (Still fun e => D e ∨ e = d)) X := by
  refine Triple.change (Up.stable (still_lasting D)) fun s hs hl _ => ⟨hs.1, fun hup => ?_⟩
  have hthere := hs.2 hup
  obtain ⟨heffect, hquiet⟩ := stopped_effect hthere.inv hl
  refine hthere.step heffect fun hstill => ⟨(heffect.still hstill).dead, ?_⟩
  rintro e (he | rfl)
  · exact (heffect.still hstill).quiet e he
  · exact hquiet

/-- Once a session is killed, `babyface_pcm_stop_both` leaves no substream started. -/
theorem stop_both_act {X : Errno → Shared → Prop} :
    Triple Other C (Up b (Still fun _ => False)) (babyfacePcmStopBoth .xrun)
      (fun _ => Up b (Still fun _ => True)) X := by
  refine (stop_act .playback _).bind fun _ => ?_
  refine (stop_act .capture _).post (fun _ s hs => hs.mono fun s h => ?_) fun _ _ h => h
  exact ⟨h.dead, fun d _ => h.quiet d (by cases d <;> simp)⟩

/-- A session that runs is stopped with both substreams. -/
theorem stopSession_act {X : Errno → Shared → Prop} :
    Triple Other C (Up b Sound) stopSession (fun _ => Up b (Still fun _ => True)) X := by
  refine read_card sound_lasting fun s hs => ?_
  cases hlive : s.card.chip.streaming with
  | true => exact ((kill_act none).bind fun _ => stop_both_act) s hs
  | false =>
    refine ⟨hs.1, fun hup => ?_⟩
    have hthere := hs.2 hup
    exact ⟨hthere.inv, hthere.call, hthere.holds.still hlive⟩

/-- Another rate, or other URBs, for a session that does not run. -/
theorem Still.moved {t : Stream} (hstream : s'.card.chip.toStream = { s.card.chip.toStream with
      rate := t.rate, alt := t.alt, frame_bytes := t.frame_bytes, urb_frames := t.urb_frames,
      urbs_active := t.urbs_active })
    (hn : 2 ≤ s.card.chip.nurbs → 2 ≤ s.card.chip.urbs_active → 2 ≤ t.urbs_active)
    (hstate : s'.card.state = s.card.state) (hruntime : s'.card.runtime = s.card.runtime)
    (hthreads : s'.starting = s.starting ∧ s'.call = s.call) (h : Up b (Still fun _ => True) s) :
    Up b (Still fun _ => True) s' := by
  have hfield : ∀ {α : Type} (g : Stream → α), g s'.card.chip.toStream = g _ := fun g =>
    congrArg g hstream
  obtain ⟨hstarting, hcall⟩ := hthreads
  -- The states of the substreams do not see which rate or URBs the session has.
  have hsub : ∀ e, s'.sub e = s.sub e := by
    intro e
    have hsubs := hfield Stream.subs
    simp only [Shared.sub, hsubs, hstate, hruntime, hstarting, hcall]
  have hlive := hfield Stream.streaming
  have hdown := hfield Stream.shutdown
  have hnurbs := hfield Stream.nurbs
  have hurbs := hfield Stream.urbs_active
  have husers := hfield Stream.stream_users
  have hsetup := hfield Stream.stream_setup
  refine ⟨hnurbs ▸ h.1, fun hup => ?_⟩
  -- Nothing is live, so none of the started ones rests on the URBs that change.
  have hthere := h.2 (hdown.symm.trans hup)
  refine ⟨⟨hurbs ▸ hn h.1 hthere.inv.urbs_active, ?_, fun d => ?_⟩, hcall ▸ hthere.call,
    ⟨hlive.trans hthere.holds.dead, fun d _ => ?_⟩⟩
  · rw [husers, hsetup]
    exact hthere.inv.users
  · rw [hsub, hsetup]
    exact hthere.inv.sub d
  · rw [Shared.Started, hstate, hstarting]
    exact hthere.holds.quiet d trivial

/-- A new rate, set while no session runs. -/
theorem retune_act (r : BfRate) :
    Triple Other C (Up b (Still fun _ => True)) (atomic (onChip (bfRetune r)))
      (fun _ => Up b (Still fun _ => True)) fun _ => Up b (Still fun _ => True) := by
  refine Triple.act (Up.stable (still_lasting _)) fun s hs _ _ => ?_
  have hmoved : Up b (Still fun _ => True)
      { s with world := (onChip (bfRetune r) s.world).2 } := by
    rcases bfRetune_cases r { s.world with chip := s.world.chip.chip } with
      ⟨_, hchip, _⟩ | ⟨_, hstream, _⟩
    · refine Still.moved (t := s.card.chip.toStream) ?_ (fun _ h => h) rfl rfl ⟨rfl, rfl⟩ hs
      exact congrArg Chip.toStream hchip
    · exact Still.moved (t := s.card.chip.toStream.retuned r) hstream (fun _ h => h) rfl rfl
        ⟨rfl, rfl⟩ hs
  revert hmoved
  rcases (onChip (bfRetune r) s.world).1 with e | a <;> exact id

/-- The URBs of a session that does not run. -/
theorem chosenUrbs_act {urb n : ℕ} (hn : 2 ≤ n) {X : Errno → Shared → Prop} :
    Triple Other C (Up b (Still fun _ => True)) (atomic (modify (chosenUrbs urb n)))
      (fun _ => Up b (Still fun _ => True)) X :=
  Triple.act (Up.stable (still_lasting _)) fun s hs _ _ =>
    Still.moved (t := { s.card.chip.toStream with urb_frames := urb, urbs_active := n }) rfl
      (fun _ _ => hn) rfl rfl ⟨rfl, rfl⟩ hs

/-- The rate's part of hw_params. -/
theorem hwParamsRate_act (d : Dir) (r : BfRate) :
    Triple Other C (Up b Sound) (hwParamsRate d r) (fun _ => Up b Sound) fun _ => Up b Sound := by
  refine read_card sound_lasting fun s hs => ?_
  have hsound : ∀ s, Up b (Still fun _ => True) s → Up b Sound s := fun s h =>
    h.mono fun _ => Still.sound
  split
  · exact hs
  split
  · exact hs
  · have hretune : Triple Other C (Up b (Still fun _ => True)) (atomic (onChip (bfRetune r)))
        (fun _ => Up b Sound) fun _ => Up b Sound :=
      (retune_act r).post (fun _ => hsound) fun _ => hsound
    have hdone : Triple Other C (Up b Sound) (.ret true : Sec Bool) (fun _ => Up b Sound)
        fun _ => Up b Sound := Triple.ret fun _ h => h
    exact (stopSession_act.bind fun _ => hretune.bind fun _ => hdone) s hs

/-- The URBs' part of hw_params. -/
theorem hwParamsUrbs_act (urb_split : ℤ) (d : Dir) (r : BfRate) {urb period : ℕ} (new_rate : Bool)
    (hurb : 0 < urb) (hle : urb ≤ period) :
    Triple Other C (Up b Sound) (hwParamsUrbs urb_split d r urb period new_rate)
      (fun _ => Up b Sound) fun _ => Up b Sound := by
  -- The count of URBs for the new length is read off the state the section finds.
  refine read_card sound_lasting fun s hs => ?_
  have hn := (bfUrbCount_spec urb_split r hs.1 hurb hle).1
  have hled : Triple Other C (Up b Sound) (atomic (modify (ledBy d))) (fun _ => Up b Sound)
      fun _ => Up b Sound :=
    unseen_act sound_lasting fun _ => ⟨rfl, rfl, rfl, rfl, rfl⟩
  -- Under a session that runs, and that this direction does not lead, the URBs stay.
  split
  · split
    · exact hs
    · exact hs
  split
  -- Another length or count: the session is stopped before the URBs are set.
  · dsimp only
    split
    · refine (stopSession_act.bind fun _ => (chosenUrbs_act hn).bind fun _ => ?_) s hs
      exact hled.pre fun s h => h.mono fun _ => Still.sound
    · exact hled s hs
  · exact hs

/-- A substream that becomes a user of the session. -/
theorem setUp_act (d : Dir) {X : Errno → Shared → Prop} :
    Triple Other C (Up b Sound) (atomic (modify (setUp d)))
      (fun _ => Up b fun s => Sound s ∧ s.card.chip.stream_setup d = true) X := by
  refine Triple.act (Up.stable sound_lasting) fun s hs _ _ => ?_
  show Up b _ (s.onCard (setUp d))
  refine hs.onCard (fun k => ?_) fun s h => ?_
  · unfold setUp
    split <;> exact ⟨rfl, rfl⟩
  -- A substream that was set up before is no further user.
  · obtain ⟨hinv, _, hsound⟩ := h
    cases hset : s.card.chip.stream_setup d with
    | true =>
      have hsame : s.onCard (setUp d) = s := by
        unfold Shared.onCard setUp
        rw [if_pos hset]
      rw [hsame]
      exact ⟨hinv, hsound, hset⟩
    -- A substream that was not is one more user of the session.
    | false =>
      have hnew : s.onCard (setUp d) = s.onCard fun k =>
          { k with
            chip :=
              { k.chip with
                stream_setup := Function.update k.chip.stream_setup d true
                stream_users := k.chip.stream_users + 1 } } := by
        unfold Shared.onCard setUp
        rw [if_neg (by simp [hset])]
      rw [hnew]
      refine ⟨⟨hinv.urbs_active, ?_, fun e => ?_⟩, ⟨hsound.live, hsound.fits⟩,
        Function.update_self ..⟩
      · have husers := hinv.users
        rw [Shared.onCard_card]
        dsimp only
        rw [husers]
        cases d with
        | playback => simp [Function.update, hset, Int.add_comm]
        | capture => simp [Function.update, hset]
      -- The other direction has the setup it had, and this one is set up now.
      · refine (hinv.sub e).mono fun he => ?_
        show Function.update s.card.chip.stream_setup d true e = true
        by_cases hed : e = d
        · rw [hed, Function.update_self]
        · rw [Function.update_of_ne hed, he]

/-- hw_params, in its section. -/
theorem babyfacePcmHwParams_act (urb_split : ℤ) (d : Dir) (params : Runtime) :
    Triple Other C (Up b Sound) (babyfacePcmHwParams urb_split d params)
      (fun _ => Up b fun s => Sound s ∧ s.card.chip.stream_setup d = true) fun _ => Up b Sound := by
  unfold babyfacePcmHwParams
  split
  · exact Triple.throw fun _ h => h
  rename_i r _
  refine read_card sound_lasting fun s hs => ?_
  dsimp only
  split
  · exact hs
  rename_i hurb
  split
  · exact hs
  have hle := (bfUrbFrames_spec urb_split s.card.chip params.period_size hurb).2.2.2
  exact ((hwParamsRate_act d r).bind fun new => (hwParamsUrbs_act urb_split d r new
    (Nat.pos_of_ne_zero hurb) hle).bind fun _ => setUp_act d) s hs

/-- A routine of the rest of the driver, which leaves the stream's part of the state alone. -/
theorem onChip_unseen {m : Usb α} (h : Keeps (fun c d : Chip => d.toStream = c.toStream) m)
    (w : PcmWorld) : Unseen w.chip (onChip m w).2.chip := by
  have hview := (onChip_keeps h
    (fun k : Card => (k.fixed, k.chip.subs, k.chip.shutdown, k.state, k.runtime)) fun k c hc => by
      simp only [Card.fixed, hc]).state w
  simp only [Prod.mk.injEq] at hview
  obtain ⟨hfixed, hsubs, hdown, hstate, hruntime⟩ := hview
  exact ⟨hfixed, hsubs, hdown, hstate, hruntime⟩

/-- The URBs of a session and its arm. -/
theorem submitAndArm_act (hP : Lasting P) (n : ℕ) :
    Triple Other C (Up b P) (submitAndArm n) (fun _ => Up b P) fun _ => Up b P := by
  have hurb : Triple Other C (Up b P) (atomic usbSubmitUrb) (fun _ => Up b P) fun _ => Up b P :=
    unseen_act hP fun _ => ⟨rfl, rfl, rfl, rfl, rfl⟩
  exact (Triple.each fun _ _ => hurb.bind fun _ => hurb).bind fun _ =>
    unseen_act hP (onChip_unseen bfSessionArm_keeps)

/-- The flag is raised while no substream is started. -/
theorem raised_act {X : Errno → Shared → Prop} :
    Triple Other C (Up b (Still fun _ => True))
      (.change none (fun _ => True) (Shared.onCard raised)) (fun _ => Up b Sound) X := by
  refine Triple.change (Up.stable (still_lasting _)) fun s hs _ _ => ?_
  refine hs.onCard (fun _ => ⟨rfl, rfl⟩) fun s h => ⟨⟨h.inv.urbs_active, h.inv.users, h.inv.sub⟩,
    fun _ _ => rfl, fun d hd => ?_⟩
  exact absurd (Or.inl hd) (h.holds.quiet d trivial)

/-- `babyface_stream_start` up to its error path. -/
theorem startSession_act :
    Triple Other C (Up b (Still fun _ => True)) startSession (fun _ => Up b Sound)
      fun _ => Up b Sound := by
  have hsound : ∀ s, Up b (Still fun _ => True) s → Up b Sound s := fun s h =>
    h.mono fun _ => Still.sound
  have htrigger : Triple Other C (Up b (Still fun _ => True)) (atomic (onChip bfSessionTrigger))
      (fun _ => Up b (Still fun _ => True)) fun _ => Up b Sound :=
    (unseen_act (still_lasting _) (onChip_unseen bfSessionTrigger_keeps)).post (fun _ _ h => h)
      fun _ => hsound
  have hcounted : Triple Other C (Up b (Still fun _ => True)) (atomic (modify counted))
      (fun _ => Up b (Still fun _ => True)) fun _ => Up b Sound :=
    (unseen_act (still_lasting _) fun _ => ⟨rfl, rfl, rfl, rfl, rfl⟩).post (fun _ _ h => h)
      fun _ => hsound
  refine htrigger.bind fun _ => read_card (still_lasting _) fun s hs => ?_
  exact (hcounted.bind fun _ => raised_act.bind fun _ => submitAndArm_act sound_lasting _) s hs

end Interleaved

/-- What the lone kills rely on: no substream was started on the session that fails to start, and the last
hw_free does not stop a session on which a substream that is being released was started. -/
def Orderly : LoneKill → Shared → Prop
  | .startFailed, s => ∀ d, ¬ s.Started d
  | .lastFreed, s => ∀ d, (s.call d).frees = true → ¬ s.Started d

namespace Interleaved

variable {b : Option (Dir × Call)}

/-- `babyface_stream_start`. -/
theorem babyfaceStreamStart_act :
    Triple Other Orderly (Up b (Still fun _ => True)) babyfaceStreamStart (fun _ => Up b Sound)
      fun _ => Up b Sound := by
  refine startSession_act.onError (fun _ => ?_) fun _ _ _ h => h
  refine Triple.change (Up.stable sound_lasting) fun s hs _ (hquiet : ∀ d, ¬ s.Started d) => ?_
  refine ⟨hs.1, fun hup => ?_⟩
  obtain ⟨hinv, hcall, _⟩ := hs.2 hup
  exact ⟨⟨hinv.urbs_active, hinv.users, hinv.sub⟩, hcall,
    Still.sound ⟨rfl, fun d _ => hquiet d⟩⟩

/-- The section of prepare. -/
theorem babyfacePcmPrepare_act (d : Dir) :
    Triple Other Orderly (Up b Sound) (babyfacePcmPrepare d) (fun _ => Up b Sound)
      fun _ => Up b Sound := by
  refine read_card sound_lasting fun s hs => ?_
  split
  · exact hs
  split
  · exact hs
  cases hlive : s.card.chip.streaming with
  | true => exact hs
  | false =>
    refine babyfaceStreamStart_act s ⟨hs.1, fun hup => ?_⟩
    have hthere := hs.2 hup
    exact ⟨hthere.inv, hthere.call, hthere.holds.still hlive⟩

/-- A substream that is no user of the session any more. -/
theorem released_act (d : Dir) {X : Errno → Shared → Prop} :
    Triple Other Orderly (Up (some (d, .hwFree)) fun s =>
        Sound s ∧ s.card.chip.stream_setup d = true)
      (atomic (modify (released d))) (fun _ => Up (some (d, .hwFree)) Sound) X := by
  refine Triple.act (Up.stable (sound_lasting.and (setup_lasting d))) fun s hs _ _ => ?_
  refine hs.onCard (f := released d) (fun _ => ⟨rfl, rfl⟩) fun s h => ?_
  obtain ⟨hinv, hcall, hsound, hset⟩ := h
  refine ⟨⟨hinv.urbs_active, ?_, fun e => ?_⟩, ⟨hsound.live, hsound.fits⟩⟩
  -- One user less, and its setup with it.
  · have husers := hinv.users
    rw [Shared.onCard_card]
    dsimp only [released]
    rw [husers]
    cases d with
    | playback => simp [Function.update, hset]
    | capture => simp [Function.update, hset]
  -- The substream released is in its hw_free, which may have parameters without a setup.
  · show SubInv (Function.update s.card.chip.stream_setup d false e) (s.sub e)
    by_cases hed : e = d
    · subst hed
      have hd : (s.sub e).call = .hwFree := (hcall e .hwFree rfl).1
      have hx := hinv.sub e
      rw [Function.update_self]
      refine ⟨fun hne => ?_, hx.params, fun params hc => absurd (hd.symm.trans hc) (by simp),
        hx.prepare, hx.starting⟩
      obtain ⟨hsubs, hbuffer, _⟩ := hx.ready hne
      exact ⟨hsubs, hbuffer, Or.inr (by rw [hd]; rfl)⟩
    · rw [Function.update_of_ne hed]
      exact hinv.sub e

/-- The last hw_free leaves no substream started but one that is being released. -/
theorem last_quiet {s : Shared} (hinv : SharedInv s) (hlast : s.card.chip.stream_users = 0)
    (hfreed : ∀ d, (s.call d).frees = true → ¬ s.Started d) (d : Dir) : ¬ s.Started d := by
  intro hd
  have hsub := hinv.sub d
  -- A substream that is started has parameters.
  have hne : (s.sub d).state ≠ .open := by
    rcases hd with hrun | hstart
    · show s.card.state d ≠ .open
      simp [hrun]
    · rw [hsub.starting hstart]
      simp
  have husers := hinv.users
  -- With no user left no direction is set up, so only one in its hw_free can have parameters.
  rcases (hsub.ready hne).2.2 with hset | hfrees
  · cases d with
    | playback =>
      rw [hlast, if_pos hset] at husers
      split at husers <;> omega
    | capture =>
      rw [hlast, if_pos hset] at husers
      split at husers <;> omega
  · exact hfreed d hfrees hd

/-- hw_free, in its section. -/
theorem babyfacePcmHwFree_act (d : Dir) :
    Triple Other Orderly (Up (some (d, .hwFree)) Sound) (babyfacePcmHwFree d)
      (fun _ => Up (some (d, .hwFree)) Sound) fun _ => Up (some (d, .hwFree)) Sound := by
  -- Without a setup the release has nothing to do.
  refine read_card sound_lasting fun s hs => ?_
  cases hset : s.card.chip.stream_setup d with
  | false => exact hs
  | true =>
    have hkeep : Up (some (d, .hwFree)) (fun s => Sound s ∧ s.card.chip.stream_setup d = true) s :=
      ⟨hs.1, fun hup => ⟨(hs.2 hup).inv, (hs.2 hup).call, (hs.2 hup).holds, hset⟩⟩
    -- Else the setup goes first, and the session with its last user.
    refine ((released_act d).bind fun _ => read_card sound_lasting fun s hs => ?_) s hkeep
    -- The last user stops the session, at which no substream that is released is started.
    by_cases hlast : s.card.chip.stream_users = 0 ∧ s.card.chip.streaming = true
    · have hkill : Triple Other Orderly
          (Up (some (d, .hwFree)) fun s => Sound s ∧ s.card.chip.stream_users = 0)
          (babyfaceStreamKill (some .lastFreed)) (fun _ => Up (some (d, .hwFree)) Sound)
          fun _ => Up (some (d, .hwFree)) Sound := by
        refine Triple.change (Up.stable (sound_lasting.and users_lasting)) fun s hs _
          (hfreed : ∀ d, (s.call d).frees = true → ¬ s.Started d) => ⟨hs.1, fun hup => ?_⟩
        obtain ⟨hinv, hcall, _, hzero⟩ := hs.2 hup
        exact ⟨⟨hinv.urbs_active, hinv.users, hinv.sub⟩, hcall,
          Still.sound ⟨rfl, fun e _ => last_quiet hinv hzero hfreed e⟩⟩
      rw [show (decide (s.card.chip.stream_users = 0) && s.card.chip.streaming) = true by
        simpa using hlast]
      exact hkill s ⟨hs.1, fun hup => ⟨(hs.2 hup).inv, (hs.2 hup).call, (hs.2 hup).holds, hlast.1⟩⟩
    · rw [show (decide (s.card.chip.stream_users = 0) && s.card.chip.streaming) = false by
        simpa using hlast]
      exact hs

/-- `babyface_stream_work`. -/
theorem babyfaceStreamWork_act :
    Triple Other Orderly (Up b Sound) babyfaceStreamWork (fun _ => Up b Sound)
      fun _ => Up b Sound := by
  have hkill : Triple Other Orderly (Up b Sound) killSection
      (fun _ => Up b (Still fun _ => False)) fun _ => Up b Sound := by
    refine read_card sound_lasting fun s hs => ?_
    cases hlive : s.card.chip.streaming with
    | true => exact kill_act none s hs
    | false =>
      refine ⟨hs.1, fun hup => ?_⟩
      obtain ⟨hinv, hcall, hsound⟩ := hs.2 hup
      exact ⟨hinv, hcall, hlive, fun _ hf => hf.elim⟩
  have hcleared : Triple Other Orderly (Up b (Still fun _ => True)) (atomic (modify errCleared))
      (fun _ => Up b Sound) fun _ => Up b Sound :=
    (unseen_act (still_lasting _) fun _ => ⟨rfl, rfl, rfl, rfl, rfl⟩).post
      (fun _ s h => h.mono fun _ => Still.sound) fun _ s h => h.mono fun _ => Still.sound
  refine read_card sound_lasting fun s hs => ?_
  exact Triple.when (fun _ => hkill.bind fun _ => stop_both_act.bind fun _ => hcleared)
    (fun _ _ h => h) s hs

/-- The section of disconnect has nothing to keep any more. -/
theorem killSection_act :
    Triple Other Orderly (fun s => 2 ≤ s.card.chip.nurbs ∧ s.card.chip.shutdown = true)
      killSection (fun _ => Up none Sound) fun _ => Up none Sound := by
  have hgone : Section.Stable Other fun s : Shared =>
      2 ≤ s.card.chip.nurbs ∧ s.card.chip.shutdown = true := by
    intro s s' hs h
    obtain ⟨hthere, hnurbs⟩ := hs.up
    refine ⟨hnurbs ▸ h.1, ?_⟩
    cases hup : s'.card.chip.shutdown with
    | true => rfl
    | false => exact absurd ((hthere hup).symm.trans h.2) (by simp)
  have hvoid : ∀ s : Shared, 2 ≤ s.card.chip.nurbs ∧ s.card.chip.shutdown = true →
      Up none Sound s := fun s h => ⟨h.1, fun hup => absurd (hup.symm.trans h.2) (by simp)⟩
  refine Triple.act hgone fun s hs _ _ => ?_
  refine Triple.when (P := fun s => 2 ≤ s.card.chip.nurbs ∧ s.card.chip.shutdown = true)
    (fun _ => Triple.change hgone fun s hs _ _ => hvoid (s.onCard killed) hs) (fun _ => hvoid) s hs

/-- The end of a section: its call of the core goes on. -/
theorem called_act {d : Dir} {c₀ c : Call} {P : Shared → Prop} {R : Unit → Shared → Prop}
    {X : Errno → Shared → Prop} (hP : Lasting P) (hsound : ∀ s, P s → Sound s)
    (hsub : ∀ s, P s → s.call d = c₀ → SubInv (s.card.chip.stream_setup d) (s.sub d) →
      SubInv (s.card.chip.stream_setup d) { s.sub d with call := c })
    (hR : ∀ s, Up none Sound s → R () s) :
    Triple Other Orderly (Up (some (d, c₀)) P)
      (.change none (fun _ => True) (Shared.called d c)) R X := by
  refine Triple.change (Up.stable hP) fun s hs _ _ => hR _ ⟨hs.1, fun hup => ?_⟩
  obtain ⟨hinv, hcall, hholds⟩ := hs.2 hup
  have hsound := hsound s hholds
  refine ⟨⟨hinv.urbs_active, hinv.users, fun e => ?_⟩, fun _ _ h => (by cases h),
    ⟨hsound.live, hsound.fits⟩⟩
  by_cases hed : e = d
  · subst hed
    have hnew := hsub s hholds (hcall e c₀ rfl).1 (hinv.sub e)
    have heq : (s.called e c).sub e = { s.sub e with call := c } := by
      simp [Shared.sub]
    rw [heq]
    exact hnew
  · have heq : (s.called d c).sub e = s.sub e := by
      simp [Shared.sub, hed]
    rw [heq]
    exact hinv.sub e

/-- Every section that waits for the mutex restores what holds while it is free. -/
theorem Waits.safe {urb_split : ℤ} {s : Shared} {p : Sec Unit} (h : Waits urb_split s p)
    (hs : Up none Sound s) :
    Safe Other Orderly (fun _ => Up none Sound) (fun _ => Up none Sound) p s := by
  have hin : ∀ d c, s.call d = c → c.busy = true → Up (some (d, c)) Sound s := by
    intro d c hcall hbusy
    refine ⟨hs.1, fun hup => ⟨(hs.2 hup).inv, ?_, (hs.2 hup).holds⟩⟩
    rintro _ _ ⟨⟩
    exact ⟨hcall, hbusy⟩
  cases h with
  | hwParams d params hcall =>
    refine (babyfacePcmHwParams_act urb_split d params s (hin d _ hcall rfl)).settle
      (fun _ => called_act (sound_lasting.and (setup_lasting d)) (fun _ h => h.1) ?_ fun _ h => h)
      fun _ => called_act sound_lasting (fun _ h => h) ?_ fun _ h => h
    · -- An accepted hw_params has set its direction up.
      intro s hP hcall hx
      refine hx.calls (fun _ => Or.inl hP.2) (fun params' hc => ?_) (fun _ _ => hP.2) (by simp)
      rcases hc with hc | hc
      · cases hc
      · cases hc
        exact hx.params params (Or.inl hcall)
    · intro s _ hcall hx
      refine hx.calls (fun hf => ?_) (by simp) (by simp) (by simp)
      rw [Shared.sub_call hcall] at hf
      cases hf
  | hwFree d hcall =>
    have hfreed : Triple Other Orderly (Up (some (d, .hwFree)) Sound)
        (.change none (fun _ => True) (Shared.called d .freed) : Sec Unit)
        (fun _ => Up none Sound) fun _ => Up none Sound := by
      refine called_act sound_lasting (fun _ h => h) (fun s _ hcall hx => ?_) fun _ h => h
      exact hx.calls (fun _ => Or.inr rfl) (by simp) (by simp) (by simp)
    exact (babyfacePcmHwFree_act d s (hin d _ hcall rfl)).settle (fun _ => hfreed) fun _ => hfreed
  | prepare d hcall =>
    refine (babyfacePcmPrepare_act d s (hin d _ hcall rfl)).settle
      (fun _ => called_act sound_lasting (fun _ h => h) ?_ fun _ h => h)
      fun _ => called_act sound_lasting (fun _ h => h) ?_ fun _ h => h
    · intro s _ hcall hx
      -- A prepare that succeeds goes on to where the core sets the substream prepared.
      refine hx.calls (fun hf => ?_) (by simp) (by simp) fun _ => hx.prepare (Or.inl hcall)
      rw [Shared.sub_call hcall] at hf
      cases hf
    · intro s _ hcall hx
      -- One that fails leaves it as set up as it was.
      refine hx.calls (fun hf => ?_) (by simp) (by simp) (by simp)
      rw [Shared.sub_call hcall] at hf
      cases hf
  | owner d pid _ _ => exact unseen_act sound_lasting (fun _ => ⟨rfl, rfl, rfl, rfl, rfl⟩) s hs
  | work => exact babyfaceStreamWork_act s hs
  | disconnect hgone => exact killSection_act s ⟨hs.1, hgone⟩
  | rest hf =>
    -- What lies beside the stream part is seen by no substream.
    refine unseen_act sound_lasting (fun w => ?_) s hs
    have hstream := hf w.chip.chip
    refine ⟨?_, congrArg Stream.subs hstream, congrArg Stream.shutdown hstream, rfl, rfl⟩
    simp [Card.fixed, hstream]

end Interleaved

/-! ## Runs -/

/-- What holds of a substream that runs: its session is live at its rate, the URBs of a completion cross at
most one boundary of its periods, and those in flight are at most two of its periods, which its buffer
holds. -/
structure OnSession (k : Card) (d : Dir) : Prop where
  streaming : k.chip.streaming = true
  rate : (k.runtime d).rate = k.chip.rate
  period : bfSessionPeriod k.chip ≤ (k.runtime d).period_size
  crosses : ∀ ptr frames, frames ≤ k.chip.urb_frames →
    (ptr + frames) / (k.runtime d).period_size ≤ ptr / (k.runtime d).period_size + 1
  queue : k.chip.urb_frames * k.chip.urbs_active ≤ 2 * (k.runtime d).period_size
  buffer : 2 * (k.runtime d).period_size ≤ (k.runtime d).buffer_size

/-- A URB is within the period of a session of at least two, and all of them within two. -/
theorem bfSessionPeriod_bounds {c : Chip} (h : 2 ≤ c.urbs_active) :
    c.urb_frames ≤ bfSessionPeriod c ∧ c.urb_frames * c.urbs_active ≤ 2 * bfSessionPeriod c := by
  have hhalf : 1 ≤ Multiples.divRoundUp c.urbs_active 2 ∧
      c.urbs_active ≤ 2 * Multiples.divRoundUp c.urbs_active 2 := by
    unfold Multiples.divRoundUp
    omega
  constructor
  · exact Nat.le_mul_of_pos_right _ hhalf.1
  · calc c.urb_frames * c.urbs_active
        ≤ c.urb_frames * (2 * Multiples.divRoundUp c.urbs_active 2) :=
          Nat.mul_le_mul_left _ hhalf.2
      _ = 2 * bfSessionPeriod c := Nat.mul_left_comm ..

/-- A part of a period crosses at most one boundary. -/
theorem crosses_one {ptr frames period : ℕ} (h : frames ≤ period) :
    (ptr + frames) / period ≤ ptr / period + 1 := by
  rcases Nat.eq_zero_or_pos period with rfl | hpos
  · simp
  · calc (ptr + frames) / period
        ≤ (ptr + period) / period := Nat.div_le_div_right (Nat.add_le_add_left h ptr)
      _ = ptr / period + 1 := Nat.add_div_right ptr hpos

/-- A substream that runs on a session whose state is sound fits it. -/
theorem There.onSession {s : Shared} (h : There none Sound s) {d : Dir}
    (hd : s.card.state d = .running) : OnSession s.card d := by
  obtain ⟨hinv, _, hsound⟩ := h
  have hfits := hsound.fits d hd
  simp only [Misfits, not_or, not_not, Nat.not_lt] at hfits
  obtain ⟨hrate, hperiod⟩ := hfits
  obtain ⟨hurb, hqueue⟩ := bfSessionPeriod_bounds hinv.urbs_active
  have hready := (hinv.sub d).ready (by
    show s.card.state d ≠ .open
    simp [hd])
  exact ⟨hsound.live d (Or.inl hd), hrate, hperiod,
    fun _ _ hframes => crosses_one (hframes.trans (hurb.trans hperiod)),
    hqueue.trans (Nat.mul_le_mul_left 2 hperiod), hready.2.1⟩

/-- What holds after a probe. -/
theorem FreshPcm.up {p : Params} {w : PcmWorld} (h : FreshPcm p w) :
    Up none Sound ⟨w, fun _ => false, fun _ => .idle⟩ := by
  obtain ⟨hstream, hstate⟩ := h
  have hg : Geometry w.chip.chip.toStream := hstream ▸ probeChip_geometry p
  have hopen : ∀ d, w.chip.state d = .open := fun d => congrFun hstate d
  refine ⟨hg.clamped.nurbs.1, fun _ => ⟨⟨hg.urbs_active.1, hg.users, fun d => ?_⟩, ?_, ?_⟩⟩
  · exact ⟨fun hne => absurd (hopen d) hne, by simp [Shared.sub], by simp [Shared.sub],
      by simp [Shared.sub], by simp [Shared.sub]⟩
  · exact fun _ _ h => by cases h
  · refine ⟨fun d hd => ?_, fun d hd => absurd ((hopen d).symm.trans hd) (by simp)⟩
    rcases hd with hd | hd
    · exact absurd ((hopen d).symm.trans hd) (by simp)
    · cases hd

/-- In every run in which the lone kills leave no substream started, a substream that runs sits on a live
session that it fits, whenever the mutex is free and disconnect has not begun. -/
theorem running_on_session {p : Params} {m : Section.Monitor Shared LoneKill Errno Unit}
    (h : Reaches p Orderly m) (hfree : m.holder = none) (hup : m.state.card.chip.shutdown = false)
    (d : Dir) (hd : m.state.card.state d = .running) : OnSession m.state.card d := by
  obtain ⟨w₀, hfresh, hrun⟩ := h
  have hheld : Held Other Orderly (Up none Sound) m :=
    Held.run (Up.stable sound_lasting) (fun _ _ hw hs => Waits.safe hw hs)
      (show Held Other Orderly (Up none Sound) ⟨⟨w₀, fun _ => false, fun _ => .idle⟩, none⟩ from
        hfresh.up) hrun
  rw [Held, hfree] at hheld
  exact (hheld.2 hup).onSession hd

/-- Playback that was prepared and started. -/
theorem running_on_session_playback :
    OnSession (sndPcmStart .playback playbackPrepared).2.chip .playback :=
  running_on_session
    ((playbackPrepared_reaches Orderly).start (fun _ => rfl) .playback rfl rfl (by decide)) rfl rfl
    .playback rfl

/-- Playback was prepared before its session was stopped, and it still fits. Its START comes while the
prepare of capture starts the next session, which fails to submit its first URB. -/
theorem running_without_session :
    ¬ ∀ (p : Params) (m : Section.Monitor Shared LoneKill Errno Unit),
      Reaches p (fun _ _ => True) m → m.holder = none → m.state.card.chip.shutdown = false →
        ∀ d, m.state.card.state d = .running → OnSession m.state.card d := by
  intro hclaim
  have hopened := (playbackPrepared_reaches fun _ _ => True).opened .capture 7 rfl rfl
  have hset : Reaches {} (fun _ _ => True)
      ⟨⟨shorterCapture, fun _ => false, fun _ => .idle⟩, none⟩ :=
    hopened.hwParams (fun _ => rfl) .capture ⟨48000, 2, 128, 512⟩ rfl rfl (Or.inl rfl)
      (by decide) rfl
  have hfits : ∀ e, ¬ Misfits shorterCapture.chip e := by
    intro e
    cases e <;> decide
  obtain ⟨s', hreach, hup, hrun, hdead⟩ := hset.stranded (d := .capture) (e := .playback)
    (fun _ => rfl) rfl (by decide) (by decide) rfl rfl rfl rfl hfits (by decide) rfl
  have hon := hclaim {} _ hreach rfl hup .playback hrun
  exact absurd (hdead.symm.trans hon.streaming) (by simp)

end BabyfacePro
