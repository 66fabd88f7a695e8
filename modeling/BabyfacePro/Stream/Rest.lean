import BabyfacePro.Stream.Teardown

/-!
# A card at rest

Between suspend and resume, and once it is freed, nothing of the card is in use: no URB, no work, no mutex
and no reader, and no thread of the driver has a step to take (`suspended_silent`, `nothing_outlives_card`).
In between the panel is polled (`panel_poll_lives`). All three come from the invariant of the threads; the
runs that show them start with a session up and with the work, a handler and the panel's poll under way.
-/

namespace BabyfacePro

open Grace (Rcu)

/-! ## Nothing in use -/

namespace Life

/-- No URB is queued or being handled, no work is queued or runs, the mutex is free, and nobody reads
`chip->subs`. -/
structure Unused (s : Life) : Prop where
  urbs (d : Dir) (i : ℕ) : (s.queue.urb d i).dead = true
  pending : s.queue.pending = false
  active : s.queue.active = false
  panel : s.panel.Idle
  mutex : s.queue.holder = .free
  readers (r : Reader) : s.rcu.reading r = false

/-- Once both works are stopped, and with no callback in the driver, nothing of the card is in use. -/
theorem Sound.unused {s : Life} (h : s.Sound) (hc : s.core.parked = true) (hcore : s.core ≠ .stopSubs)
    (hcall : ∀ d, s.call d = false) : s.Unused := by
  have hcancelled : s.core.cancelled = true := by
    cases hs : s.core with
    | halt why p => cases p <;> simp [hs, CoreAt.parked] at hc
    | _ => first | rfl | simp [hs, CoreAt.parked] at hc
  have hsettled := h.guarded.settled (CoreAt.quiet_of_cancelled hcancelled)
  obtain ⟨hpending, hactive⟩ := h.guarded.cancelled hcancelled
  have hdead := hsettled.dead h.guarded.queue.inv
  have hmutex : s.queue.holder = .free := by
    -- The other places are those of the work.
    have hwork : s.queue.holder.isWork = false := by
      apply Bool.eq_false_iff.mpr
      exact fun hw => by simp [h.guarded.active hw] at hactive
    rcases hsettled.2 with hm | hm | hm | hm
    · exact hm
    all_goals simp [hm, Holder.isWork] at hwork
  refine ⟨hdead, hpending, hactive, h.polls.parked hc, hmutex, fun r => ?_⟩
  apply Bool.eq_false_iff.mpr
  intro hr
  have hplace := h.readers.place r hr
  cases r with
  | urb d i =>
    have := hdead d i
    simp [show s.queue.urb d i = .audio from hplace, UrbAt.dead] at this
  | work => simp [show s.queue.holder = .clear from hplace] at hmutex
  | call =>
    obtain ⟨d, hd⟩ := hplace
    simp [hcall d] at hd
  | core => exact hcore hplace

/-- Where nothing is in use and no callback is in the driver, the threads stand still. -/
theorem Unused.stands {s : Life} (h : s.Unused) (hcall : ∀ d, s.call d = false)
    (hs : s.queue.chip.streaming = false) {q : UrbQueue} (hst : QueueStep s.queue q) (ho : s.Owned q) :
    q = s.queue := by
  -- An application would have to be in a call.
  have hnone : ¬ Takes s.queue q := fun htakes => by
    obtain ⟨d, hd⟩ := ho.call htakes
    simp [hcall d] at hd
  have hmutex := h.mutex
  cases hst with
  | handler d i hh =>
    have halive := hh.handled.alive
    simp [h.urbs d i] at halive
  | prepare hf => exact absurd ⟨hf, .inl rfl⟩ hnone
  | stop _ hrun => simp [hs] at hrun
  -- The URBs are only set anew in a call of an application.
  | @geometry n _ hf =>
    have hn : n = s.queue.chip.urbs_active := by
      by_contra hne
      exact hnone ⟨hf, .inr hne⟩
    subst hn
    rfl
  -- The flag is the core's, and it is up by now.
  | shutdown =>
    have hdown : true = s.queue.chip.shutdown := ho.shutdown
    simp [hdown]
  | workBegin hp => simp [h.pending] at hp
  | workLock _ ha => simp [h.active] at ha
  | cancel => simp [← h.pending]
  -- The mutex is free, so no section goes on.
  | startFails hp => rcases hp with hp | ⟨k, hp⟩ <;> simp [hmutex] at hp
  | workLeave hp => rcases hp with ⟨hp, -⟩ | ⟨hp, -⟩ <;> simp [hmutex] at hp
  | startWritten hp | startFill hp | startCount hp | startInflight hp | startLive hp | startSubmit _ _ hp
  | startDone hp | killMark hp | unlink _ _ hp | killUrb _ _ hp | killDone hp | workTest hp
  | workStop hp | workClear hp => simp [hmutex] at hp

/-- Where nothing is in use and no callback is in the driver, what is left to move are the files, and the
calls of the USB core. -/
theorem Sound.stands {s t : Life} (h : s.Sound) (hu : s.Unused) (hcall : ∀ d, s.call d = false)
    (hpark : s.core.parked = true) (hopen : s.core.frozen = true ∨ s.core = .freed)
    (hst : LifeStep s t) : t = s ∨ t.core ≠ s.core := by
  -- Frozen or freed, no substream is on its way to open or to close.
  have hsub (d : Dir) : s.sub d = .closed ∨ s.sub d = .opened ∧ s.core.frozen = true := by
    rcases hopen with hf | hf
    · exact (h.frozen hf d).2.imp_right fun ho => ⟨ho, hf⟩
    · exact .inl ((h.freed hf).2 d)
  have hpanel := hu.panel
  -- What the threads of the stream do is nothing, by the lemma above.
  cases hst with
  | thread hq ho =>
    have hs : s.queue.chip.streaming = false := by
      refine (h.guarded.settled ?_).1
      cases hc : s.core <;> first | rfl | simp [hc, CoreAt.parked] at hpark
    rw [hu.stands hcall hs hq ho]
    exact .inl rfl
  -- A reader enters from a handler, from the work, from a call or from the core's stop, none of which is
  -- there.
  | @enter r hm =>
    exfalso
    cases r with
    | urb d i =>
      have hdead := hu.urbs d i
      simp [show s.queue.urb d i = .audio from hm, UrbAt.dead] at hdead
    | work =>
      have hclear := hu.mutex
      simp [show s.queue.holder = .clear from hm] at hclear
    | call =>
      obtain ⟨d, hd⟩ := hm
      simp [hcall d] at hd
    | core =>
      have hcore : s.core = .stopSubs := hm
      rcases hopen with hf | hf <;> simp [hcore, CoreAt.frozen] at hf
  | @load r hr | @leave r hr => simp [hu.readers r] at hr
  -- The processes are frozen, or the card is freed and cannot be opened.
  | openFile hc hf =>
    rcases hopen with hf' | hf'
    · simp [hf'] at hf
    · exact absurd hf' hc.2
  | closeFile hn hf =>
    rcases hopen with hf' | hf'
    · simp [hf'] at hf
    · simp [(h.freed hf').1] at hn
  | openBegin _ hc hf =>
    rcases hopen with hf' | hf'
    · simp [hf'] at hf
    · exact absurd hf' hc.2
  | @openFails d ho | @openDone d ho | @closeClear d ho | @closeDone d ho =>
    rcases hsub d with hd | ⟨hd, -⟩ <;> simp [ho] at hd
  | @callBegin d ho hf | @closeBegin d ho _ hf =>
    rcases hsub d with hd | ⟨-, hd⟩
    · simp [ho] at hd
    · simp [hd] at hf
  | @callEnd d hd => simp [hcall d] at hd
  -- The panel's work is idle.
  | panelBegin hp => simp [hpanel.1] at hp
  | panelTest hp | panelRearm hp | panelEnd hp => simp [hpanel.2] at hp
  | @panelStopped why hc => simp [hc, CoreAt.parked] at hpark
  -- These are the USB core's own steps, and each goes to another place.
  | gone hc | resume hc | resumed hc | free hc => exact .inr (by simp [hc])
  | disconnect hc => exact .inr (by rcases hc with ⟨b, hc⟩ | hc <;> simp [hc])
  | probed hc | suspend hc | lockKill hc | lockPass hc | killed hc | cancelled hc | panelCancel hc =>
    simp [hc, CoreAt.parked] at hpark

end Life

/-- `freed` is the last place of the USB core. -/
theorem LifeStep.core_of_freed {s t : Life} (hst : LifeStep s t) (hc : s.core = .freed) :
    t.core = .freed := by
  cases hst with
  | disconnect h => rcases h with ⟨b, h⟩ | h <;> simp [hc] at h
  | probed h | suspend h | lockKill h | lockPass h | killed h | cancelled h | panelCancel h
  | panelStopped h | gone h | resume h | resumed h | free h => simp [hc] at h
  | _ => exact hc

/-- What may follow a suspend. -/
theorem LifeStep.core_of_suspended {s t : Life} (hst : LifeStep s t) (hc : s.core = .suspended) :
    t.core = .suspended ∨ t.core = .resume ∨ t.core = .halt .disconnect .lock := by
  cases hst with
  | disconnect => exact .inr (.inr rfl)
  | resume => exact .inr (.inl rfl)
  | probed h | suspend h | lockKill h | lockPass h | killed h | cancelled h | panelCancel h
  | panelStopped h | gone h | resumed h | free h => simp [hc] at h
  | _ => exact .inl hc

/-! ## From a card in use to a card that is freed -/

namespace Life

/-- A substream that nobody reads is closed. -/
theorem closes {s : Life} {d : Dir} (hopen : s.sub d = .opened) (hcall : s.call d = false)
    (hfrozen : s.core.frozen = false) (hread : ∀ r, s.rcu.reading r = false) :
    Relation.ReflTransGen LifeStep s
      { s with sub := Function.update s.sub d .closed, rcu := s.rcu.retract d } := by
  have hclear := LifeStep.closeClear (s := { s with sub := Function.update s.sub d .closing }) (d := d)
    (Function.update_self ..)
  dsimp only at hclear
  rw [Function.update_idem] at hclear
  -- No section was open when the pointer was cleared, so there is none to wait for.
  have hover : (s.rcu.retract d).Over d := fun r => by
    show Function.update s.rcu.owed d s.rcu.reading d r = false
    rw [Function.update_self]
    exact hread r
  have hdone := LifeStep.closeDone
    (s := { s with sub := Function.update s.sub d .waiting, rcu := s.rcu.retract d }) (d := d)
    (Function.update_self ..) hover
  dsimp only at hdone
  rw [Function.update_idem] at hdone
  exact ((Relation.ReflTransGen.single (.closeBegin hopen hcall hfrozen)).tail hclear).tail hdone

/-- The other files are closed. -/
theorem closesFiles {s : Life} (hfrozen : s.core.frozen = false) :
    Relation.ReflTransGen LifeStep s { s with files := 0 } := by
  induction hn : s.files generalizing s with
  | zero => exact hn ▸ .refl
  | succ n ih => exact (ih (s := { s with files := n }) hfrozen rfl).head (.closeFile hn hfrozen)

/-- A card that is gone is freed once its files are closed. -/
theorem Sound.frees_gone {s : Life} (h : s.Sound) (hc : s.core = .gone) (hcall : ∀ d, s.call d = false)
    {d : Dir} (hopen : s.sub d = .opened) (hother : s.sub d.other = .closed) :
    ∃ t, Relation.ReflTransGen LifeStep s t ∧ t.core = .freed := by
  have hunused := h.unused (by rw [hc]; rfl) (by simp [hc]) hcall
  have hfrozen : s.core.frozen = false := by rw [hc]; rfl
  have hfiles := (closes hopen (hcall d) hfrozen hunused.readers).trans (closesFiles hfrozen)
  refine ⟨_, hfiles.tail (.free hc rfl fun e => ?_), rfl⟩
  show Function.update s.sub d .closed e = _
  rcases d.eq_or_eq_other e with rfl | rfl
  · exact Function.update_self ..
  · rw [Function.update_of_ne d.other_ne]
    exact hother

/-- A resume gets through, and the panel is polled again. -/
theorem wakes {s : Life} (hc : s.core = .suspended) :
    Relation.ReflTransGen LifeStep s
      { s with core := .bound true, panel := { s.panel with pending := s.panel.pending || true } } :=
  .tail (.single (.resume hc)) (.resumed rfl true)

/-- The card of `busy` is suspended, and its applications stay as they are. -/
theorem busy_sleeps : ∃ s, Relation.ReflTransGen LifeStep busy s ∧ s.core = .suspended ∧
    s.sub = busy.sub ∧ s.call = busy.call := by
  have hst : LifeStep busy _ := .suspend rfl busy_freezable
  obtain ⟨s, hrun, hc⟩ := (hst.sound reachable_busy.sound).comes rfl
  obtain ⟨hsub, hcall, -⟩ := Inner.kept hrun
  exact ⟨s, (Inner.steps hrun).head hst, hc, hsub, hcall⟩

/-- It wakes up, is unplugged and freed. -/
theorem busy_freed : ∃ s t, Relation.ReflTransGen LifeStep busy s ∧ s.core = .suspended ∧
    Relation.ReflTransGen LifeStep s t ∧ t.core = .freed := by
  obtain ⟨s, hrun, hc, hsub, hcall⟩ := busy_sleeps
  have hplug := (wakes hc).tail (.disconnect (.inl ⟨true, rfl⟩))
  obtain ⟨s₀, hfresh, hrun₀⟩ := reachable_busy
  have hsound := Reachable.sound ⟨s₀, hfresh, (hrun₀.trans hrun).trans hplug⟩
  obtain ⟨t, hhalt, hct⟩ := hsound.comes rfl
  have ht := hsound.inner hhalt
  obtain ⟨u, hrest, hcu⟩ := comes_of_stopSubs hct
  obtain ⟨hsub', hcall', -⟩ := Inner.kept (hhalt.trans hrest)
  obtain ⟨v, hfree, hcv⟩ := (ht.inner hrest).frees_gone hcu
    (fun d => by rw [hcall']; exact congrFun hcall d) (d := .playback)
    (by rw [hsub']; exact congrFun hsub _) (by rw [hsub']; exact congrFun hsub _)
  have hgone := Inner.steps (hhalt.trans hrest)
  exact ⟨s, v, hrun, hc, hplug.trans (hgone.trans hfree), hcv⟩

end Life

/-! ## The life of a card -/

/-- When the card is freed, no URB is queued or being handled, no work is queued or runs, nobody has the
mutex or reads the substreams; and nothing of the driver steps any more. -/
theorem nothing_outlives_card {s : Life} (h : s.Reachable) (hf : s.core = .freed) :
    s.Unused ∧ ∀ t, LifeStep s t → t = s := by
  have hsound := h.sound
  have hcall (d : Dir) : s.call d = false :=
    hsound.readers.idle (by simp [(hsound.freed hf).2 d])
  have hunused := hsound.unused (by rw [hf]; rfl) (by simp [hf]) hcall
  refine ⟨hunused, fun t hst => ?_⟩
  rcases hsound.stands hunused hcall (by rw [hf]; rfl) (.inr hf) hst with heq | hne
  · exact heq
  · exact absurd ((hst.core_of_freed hf).trans hf.symm) hne

/-- A card in use is suspended and resumed, then unplugged; its files are closed after that. -/
theorem nothing_outlives_busy : ∃ s t, Relation.ReflTransGen LifeStep Life.busy s ∧ s.core = .suspended ∧
    Relation.ReflTransGen LifeStep s t ∧ t.core = .freed ∧ t.Unused ∧ ∀ u, LifeStep t u → u = t := by
  obtain ⟨s, t, hrun, hs, hfree, ht⟩ := Life.busy_freed
  obtain ⟨s₀, hfresh, hrun₀⟩ := Life.reachable_busy
  obtain ⟨hunused, hstill⟩ := nothing_outlives_card ⟨s₀, hfresh, hrun₀.trans (hrun.trans hfree)⟩ ht
  exact ⟨s, t, hrun, hs, hfree, ht, hunused, hstill⟩

/-- Between suspend and resume nothing of the card is in use, and nothing of the driver steps but for the
next call of the USB core. -/
theorem suspended_silent {s : Life} (h : s.Reachable) (hs : s.core = .suspended) :
    s.Unused ∧ ∀ t, LifeStep s t → t = s ∨ t.core = .resume ∨ t.core = .halt .disconnect .lock := by
  have hsound := h.sound
  have hfrozen : s.core.frozen = true := by rw [hs]; rfl
  have hcall := hsound.guarded.frozen hfrozen
  have hpark : s.core.parked = true := by rw [hs]; rfl
  have hunused := hsound.unused hpark (by simp [hs]) hcall
  refine ⟨hunused, fun t hst => ?_⟩
  rcases hsound.stands hunused hcall hpark (.inl hfrozen) hst with heq | hne
  · exact .inl heq
  · exact .inr ((hst.core_of_suspended hs).resolve_left fun ht => hne (ht.trans hs.symm))

/-- A card is suspended with its session up, its stream's work stopping it, and a poll under way. -/
theorem suspended_silent_busy : ∃ s, Relation.ReflTransGen LifeStep Life.busy s ∧ s.core = .suspended ∧
    s.Unused ∧ ∀ t, LifeStep s t → t = s ∨ t.core = .resume ∨ t.core = .halt .disconnect .lock := by
  obtain ⟨s, hrun, hs, -⟩ := Life.busy_sleeps
  obtain ⟨s₀, hfresh, hrun₀⟩ := Life.reachable_busy
  obtain ⟨hunused, hstill⟩ := suspended_silent ⟨s₀, hfresh, hrun₀.trans hrun⟩ hs
  exact ⟨s, hrun, hs, hunused, hstill⟩

/-- The panel is polled for the whole life of the card: while no call of the USB core is under way, and
unless the last resume has failed, its work is queued or about to queue itself. -/
theorem panel_poll_lives {s : Life} (h : s.Reachable) (hc : s.core = .bound true) : s.panel.Lives :=
  h.sound.polls.lives hc

/-- A poll is under way when the card is suspended, and the panel is polled again once it is resumed. -/
theorem panel_poll_lives_busy : ∃ s t, Relation.ReflTransGen LifeStep Life.busy s ∧ s.core = .suspended ∧
    Relation.ReflTransGen LifeStep s t ∧ t.core = .bound true ∧ t.panel.Lives := by
  obtain ⟨s, hrun, hs, -⟩ := Life.busy_sleeps
  obtain ⟨s₀, hfresh, hrun₀⟩ := Life.reachable_busy
  have hwake := Life.wakes hs
  exact ⟨s, _, hrun, hs, hwake, rfl, panel_poll_lives ⟨s₀, hfresh, hrun₀.trans (hrun.trans hwake)⟩ rfl⟩

end BabyfacePro
