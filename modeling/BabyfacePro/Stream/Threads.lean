import BabyfacePro.Stream.Interleave

/-!
# What the triggers and the core leave alone

The invariant of the state that the threads share, and what the steps without the mutex do to it. Each is
about one direction, and a START is let in only on a session that is live; so what holds of a session
that runs, and of one that does not, is kept between the acts of any section.
-/

namespace BabyfacePro

open Interleaved

/-! ## What holds of the shared state -/

/-- What the threads share of one substream. -/
structure Substream where
  subs : Bool
  state : PcmState
  runtime : Runtime
  starting : Bool
  call : Call

/-- What the threads share of the substream `d`. -/
def Shared.sub (s : Shared) (d : Dir) : Substream :=
  ⟨s.card.chip.subs d, s.card.state d, s.card.runtime d, s.starting d, s.call d⟩

/-- What holds of a substream, whatever the section under the mutex is at: once it is set up it is open,
its buffer has two periods, and it is a user of the session or is being released. -/
structure SubInv (setup : Bool) (x : Substream) : Prop where
  ready : x.state ≠ .open → x.subs = true ∧ 2 * x.runtime.period_size ≤ x.runtime.buffer_size ∧
    (setup = true ∨ x.call.frees = true)
  params : ∀ params, x.call = .hwParams params ∨ x.call = .accepted params →
    x.subs = true ∧ 2 * params.period_size ≤ params.buffer_size
  accepted : ∀ params, x.call = .accepted params → setup = true
  prepare : x.call = .prepare ∨ x.call = .prepared → x.state ≠ .open
  starting : x.starting = true → x.state = .prepared

/-- A substream that needs less. -/
theorem SubInv.mono {a b : Bool} {x : Substream} (h : SubInv a x) (hab : a = true → b = true) :
    SubInv b x where
  ready hne := by
    obtain ⟨hsubs, hbuffer, huser⟩ := h.ready hne
    exact ⟨hsubs, hbuffer, huser.imp_left hab⟩
  params := h.params
  accepted params hc := hab (h.accepted params hc)
  prepare := h.prepare
  starting := h.starting

/-- A call of the core that goes to another place keeps the substream right, where it has what that place
needs. -/
theorem SubInv.calls {setup : Bool} {x : Substream} (h : SubInv setup x) {c : Call}
    (hfrees : x.call.frees = true → setup = true ∨ c.frees = true)
    (hparams : ∀ params, c = .hwParams params ∨ c = .accepted params →
      x.subs = true ∧ 2 * params.period_size ≤ params.buffer_size)
    (haccepted : ∀ params, c = .accepted params → setup = true)
    (hprepare : c = .prepare ∨ c = .prepared → x.state ≠ .open) :
    SubInv setup { x with call := c } where
  ready hne := by
    obtain ⟨hsubs, hbuffer, huser⟩ := h.ready hne
    exact ⟨hsubs, hbuffer, huser.elim Or.inl hfrees⟩
  params := hparams
  accepted := haccepted
  prepare := hprepare
  starting := h.starting

/-- A substream in OPEN has no parameters that a call of the core could rest on. -/
theorem SubInv.in_open {setup : Bool} {x : Substream} (hopen : x.state = .open)
    (hcall : x.call = .idle ∨ x.call = .hwFree) (hstarting : x.starting = false) : SubInv setup x where
  ready hne := absurd hopen hne
  params params hp := by rcases hcall with hc | hc <;> simp [hc] at hp
  accepted params hp := by rcases hcall with hc | hc <;> simp [hc] at hp
  prepare hp := by rcases hcall with hc | hc <;> simp [hc] at hp
  starting hs := by simp [hstarting] at hs

/-- What holds of the shared state, whatever the section under the mutex is at. -/
structure SharedInv (s : Shared) : Prop where
  urbs_active : 2 ≤ s.card.chip.urbs_active
  users : s.card.chip.stream_users =
    (if s.card.chip.stream_setup .playback then 1 else 0) +
      if s.card.chip.stream_setup .capture then 1 else 0
  sub : ∀ d, SubInv (s.card.chip.stream_setup d) (s.sub d)

/-- A substream is only started on a session that is live, and one that runs fits it. -/
structure Sound (s : Shared) : Prop where
  live : ∀ d, s.Started d → s.card.chip.streaming = true
  fits : ∀ d, s.card.state d = .running → ¬ Misfits s.card d

/-- No session runs, and no substream of those in `D` is started. -/
structure Still (D : Dir → Prop) (s : Shared) : Prop where
  dead : s.card.chip.streaming = false
  quiet : ∀ d, D d → ¬ s.Started d

/-- What holds while the card is there, in the section of the call `b` of the core if it is one. -/
structure There (b : Option (Dir × Call)) (P : Shared → Prop) (s : Shared) : Prop where
  inv : SharedInv s
  call : ∀ d c, b = some (d, c) → s.call d = c ∧ c.busy = true
  holds : P s

/-- `There`, unless disconnect has begun. -/
def Up (b : Option (Dir × Call)) (P : Shared → Prop) (s : Shared) : Prop :=
  2 ≤ s.card.chip.nurbs ∧ (s.card.chip.shutdown = false → There b P s)

/-- With no session and no substream that is started, all is well. -/
theorem Still.sound {s : Shared} (h : Still (fun _ => True) s) : Sound s where
  live d hd := absurd hd (h.quiet d trivial)
  fits d hd := absurd (Or.inl hd) (h.quiet d trivial)

/-- Without a session, nothing is started. -/
theorem Sound.still {s : Shared} (h : Sound s) (hdead : s.card.chip.streaming = false) :
    Still (fun _ => True) s where
  dead := hdead
  quiet d _ hd := by
    have hlive := h.live d hd
    rw [hdead] at hlive
    cases hlive

/-! ## What the other threads keep -/

/-- What only the sections under the mutex change. -/
def Card.fixed (k : Card) : Stream :=
  { k.chip.toStream.setting with
    streaming := k.chip.streaming
    owner := fun _ => 0
    session_dir := .playback
    subs := fun _ => false
    shutdown := false }

/-- What a step without the mutex does: it is about one direction `d`, and starts it only on a session
that is live. -/
structure Effect (d : Dir) (s s' : Shared) : Prop where
  fixed : s'.card.fixed = s.card.fixed
  other : ∀ e, e ≠ d → s'.sub e = s.sub e
  busy : (s.call d).busy = true → s'.call d = s.call d
  sub : SubInv (s.card.chip.stream_setup d) (s.sub d) →
    SubInv (s.card.chip.stream_setup d) (s'.sub d)
  started : s'.Started d → s.Started d ∨ s.card.chip.streaming = true
  running : s'.card.state d = .running → ¬ Misfits s'.card d ∨
    s.card.state d = .running ∧ s'.card.runtime d = s.card.runtime d

/-- A call of the core at another place. -/
theorem called_effect {d : Dir} {c : Call} {s : Shared} (hb : (s.call d).busy = false)
    (h : SubInv (s.card.chip.stream_setup d) (s.sub d) →
      SubInv (s.card.chip.stream_setup d) { s.sub d with call := c }) :
    Effect d s (s.called d c) where
  fixed := rfl
  other e he := by simp [Shared.sub, he]
  busy hbusy := absurd (hb.symm.trans hbusy) (by simp)
  sub hx := by simpa [Shared.sub] using h hx
  started := Or.inl
  running hd := Or.inr ⟨hd, rfl⟩

/-- A step that leaves the substream in a state `st` that is not RUNNING, and the call of the core at
`c`. -/
theorem ended_effect {d : Dir} (c : Call) {st : PcmState} (rt : Runtime) {f : Card → Card}
    {s : Shared} (hb : (s.call d).busy = false ∨ c = s.call d) (hst : st ≠ .running)
    (hl : s.starting d = false)
    (hf : (f s.card).state = Function.update s.card.state d st ∧
      (f s.card).runtime = Function.update s.card.runtime d rt ∧
      (f s.card).chip.toStream.setting = s.card.chip.toStream.setting ∧
      (f s.card).chip.streaming = s.card.chip.streaming)
    (h : SubInv (s.card.chip.stream_setup d) (s.sub d) → s.starting d = false →
      SubInv (s.card.chip.stream_setup d)
        { s.sub d with state := st, runtime := rt, call := c }) :
    Effect d s ((s.onCard f).called d c) := by
  obtain ⟨hstate, hruntime, hstream, hlive⟩ := hf
  have hsubs := congrArg Stream.subs hstream
  dsimp only [Stream.setting] at hsubs
  -- Neither the geometry nor the other direction changes, and this substream does not run afterwards.
  refine ⟨?_, fun e he => ?_, fun hbusy => ?_, fun hx => ?_, fun hd => ?_, fun hd => ?_⟩
  · simp [Card.fixed, hstream, hlive]
  · simp [Shared.sub, hsubs, hstate, hruntime, he]
  · rcases hb with hb | rfl
    · exact absurd (hb.symm.trans hbusy) (by simp)
    · simp
  · simpa [Shared.sub, hsubs, hstate, hruntime] using h hx hl
  · have hd : st = .running ∨ s.starting d = true := by simpa [Shared.Started, hstate] using hd
    rcases hd with hd | hd
    · exact absurd hd hst
    · rw [hl] at hd
      cases hd
  · rw [Shared.called_card, Shared.onCard_card, hstate, Function.update_self] at hd
    exact absurd hd hst

/-- A step that no substream sees. -/
theorem Effect.unseen {d : Dir} {s s' : Shared} (hfixed : s'.card.fixed = s.card.fixed)
    (hsub : ∀ e, s'.sub e = s.sub e) : Effect d s s' where
  fixed := hfixed
  other e _ := hsub e
  busy _ := congrArg Substream.call (hsub d)
  sub hx := (hsub d).symm ▸ hx
  started hd := by
    have hstate := congrArg Substream.state (hsub d)
    have hstarting := congrArg Substream.starting (hsub d)
    dsimp only [Shared.sub] at hstate hstarting
    rw [Shared.Started, hstate, hstarting] at hd
    exact Or.inl hd
  running hd := Or.inr ⟨(congrArg Substream.state (hsub d)).symm.trans hd,
    congrArg Substream.runtime (hsub d)⟩

/-- A call of the core that stays where it is. -/
theorem called_self (d : Dir) (s : Shared) : s.called d (s.call d) = s := by
  simp [Shared.called]

/-- The call of a substream is that of its direction. -/
theorem Shared.sub_call {s : Shared} {d : Dir} {c : Call} (h : s.call d = c) :
    (s.sub d).call = c := h

/-- A card that is there was there before the step, and has as many URBs. -/
theorem Interleaved.Other.up {s s' : Shared} (h : Other s s') :
    (s'.card.chip.shutdown = false → s.card.chip.shutdown = false) ∧
      s'.card.chip.nurbs = s.card.chip.nurbs := by
  cases h with
  | shutdown => exact ⟨fun hup => absurd hup (by simp), rfl⟩
  | _ => exact ⟨id, rfl⟩

/-- Open and close set the pointer of a substream that has no parameters. -/
theorem subs_effect {d : Dir} (b : Bool) {s : Shared} (hs : s.card.state d = .open) (hidle : s.call d = .idle) :
    Effect d s (s.onCard fun k =>
      { k with chip := { k.chip with subs := Function.update k.chip.subs d b } }) where
  fixed := rfl
  other e he := by simp [Shared.sub, he]
  busy _ := rfl
  sub hx := by
    refine ⟨fun hne => absurd hs hne, fun params hp => ?_, hx.accepted, hx.prepare, hx.starting⟩
    rcases hp with hp | hp <;> exact absurd (hidle.symm.trans hp) (by simp)
  started := Or.inl
  running hd := Or.inr ⟨hd, rfl⟩

/-- The trigger's look at the session, before and after: it is only under way for a substream that is prepared,
and only where the session is live or the substream was started before. -/
theorem startedBy_effect {d : Dir} (b : Bool) {s : Shared}
    (hprepared : SubInv (s.card.chip.stream_setup d) (s.sub d) → b = true → s.card.state d = .prepared)
    (hlive : s.starting d = true ∨ s.card.chip.streaming = true) : Effect d s (s.startedBy d b) where
  fixed := rfl
  other e he := by simp [Shared.sub, he]
  busy _ := rfl
  sub hx := by
    refine ⟨hx.ready, hx.params, hx.accepted, hx.prepare, fun hb => hprepared hx ?_⟩
    have hself : (s.startedBy d b).starting d = b := Function.update_self ..
    exact hself.symm.trans hb
  started _ := hlive.imp_left Or.inr
  running hd := Or.inr ⟨hd, rfl⟩

/-- A START that succeeds: the substream that was prepared runs. -/
theorem startRun_effect {d : Dir} {s : Shared} (hs : s.starting d = true) (hm : ¬ Misfits s.card d) :
    Effect d s ((s.onCard fun k => inState d .running (ptrReset d k)).startedBy d false) where
  fixed := rfl
  other e he := by simp [Shared.sub, he, inState, ptrReset, resetPtr]
  busy _ := rfl
  sub hx := by
    have hprep := hx.starting hs
    have hready := hx.ready (by rw [hprep]; simp)
    refine ⟨fun _ => hready, hx.params, hx.accepted, fun _ => ?_, fun hs' => ?_⟩
    · simp [Shared.sub, inState]
    · simp [Shared.sub] at hs'
  started _ := Or.inl (Or.inr hs)
  running _ := Or.inl hm

/-- While the card is there, each step without the mutex is about one direction. -/
theorem Interleaved.Other.effect {s s' : Shared} (h : Other s s')
    (hup : s'.card.chip.shutdown = false) : ∃ d, Effect d s s' := by
  cases h with
  | subs d b hs hidle => exact ⟨d, subs_effect b hs hidle⟩
  | hwParams d params hidle ho hs hp =>
    refine ⟨d, called_effect (by rw [hidle]; rfl) fun hx =>
      hx.calls (fun hf => ?_) (fun params' hp' => ?_) (by simp) (by simp)⟩
    · rw [Shared.sub_call hidle] at hf
      cases hf
    · rcases hp' with hp' | hp'
      · cases hp'
        exact ⟨ho, hp⟩
      · cases hp'
  | accepted d params hcall hl =>
    refine ⟨d, ended_effect .idle params (Or.inl (by rw [hcall]; rfl)) (by simp) hl
      ⟨rfl, rfl, rfl, rfl⟩ fun hx hl => ?_⟩
    obtain ⟨hsubs, hbuffer⟩ := hx.params params (Or.inr hcall)
    exact ⟨fun _ => ⟨hsubs, hbuffer, Or.inl (hx.accepted params hcall)⟩, by simp, by simp, by simp,
      fun hs => absurd (hl.symm.trans hs) (by simp)⟩
  -- The parameters are refused, and the core goes on to release what there was.
  | refuse d hidle ho hs =>
    refine ⟨d, called_effect (by rw [hidle]; rfl) fun hx =>
      hx.calls (fun hf => ?_) (by simp) (by simp) (by simp)⟩
    rw [Shared.sub_call hidle] at hf
    cases hf
  | refused d hcall hl =>
    exact ⟨d, ended_effect .hwFree (s.card.runtime d) (Or.inl (by rw [hcall]; rfl)) (by simp) hl
      ⟨rfl, (Function.update_eq_self ..).symm, rfl, rfl⟩ fun _ hl => .in_open rfl (.inr rfl) hl⟩
  -- Without a setup the substream is from now on in its own hw_free.
  | hwFree d hidle ho hs =>
    exact ⟨d, called_effect (by rw [hidle]; rfl) fun hx =>
      hx.calls (fun _ => Or.inr rfl) (by simp) (by simp) (by simp)⟩
  | freed d hcall hl =>
    exact ⟨d, ended_effect .idle (s.card.runtime d) (Or.inl (by rw [hcall]; rfl)) (by simp) hl
      ⟨rfl, (Function.update_eq_self ..).symm, rfl, rfl⟩ fun _ hl => .in_open rfl (.inl rfl) hl⟩
  -- The parameters are still there, and stay while the core is in prepare.
  | prepare d hidle ho hd hs =>
    refine ⟨d, called_effect (by rw [hidle]; rfl) fun hx =>
      hx.calls (fun hf => ?_) (by simp) (by simp) fun _ => ho⟩
    rw [Shared.sub_call hidle] at hf
    cases hf
  | prepared d hcall hl =>
    refine ⟨d, ended_effect .idle (s.card.runtime d)
      (Or.inl (by rw [hcall]; rfl)) (by simp) hl
      ⟨rfl, (Function.update_eq_self ..).symm, rfl, rfl⟩ fun hx hl => ?_⟩
    obtain ⟨hsubs, hbuffer, huser⟩ := hx.ready (hx.prepare (Or.inr hcall))
    rw [Shared.sub_call hcall] at huser
    exact ⟨fun _ => ⟨hsubs, hbuffer, huser⟩, by simp, by simp, by simp,
      fun hs => absurd (hl.symm.trans hs) (by simp)⟩
  -- The trigger has looked: from here on the substream counts as started, under a session that lives.
  | startRead d hs hl hlive => exact ⟨d, startedBy_effect true (fun _ _ => hs) (Or.inr hlive)⟩
  -- The parameters do not fit, so the trigger leaves the substream as it was.
  | startMisfit d hs hm => exact ⟨d, startedBy_effect false (fun hx _ => hx.starting hs) (Or.inl hs)⟩
  -- It runs now, under the session that the first half of the trigger has seen.
  | startRun d hs hm => exact ⟨d, startRun_effect hs hm⟩
  -- A substream that stops has kept its parameters and runs no more.
  | stop d st hl ho hd hst =>
    obtain ⟨hrun, hne⟩ : st ≠ .running ∧ st ≠ .open := by
      rcases hst with rfl | rfl | rfl <;> simp
    refine ⟨d, called_self d (s.onCard (inState d st)) ▸ ended_effect (s.call d) (s.card.runtime d)
      (Or.inr rfl) hrun hl ⟨rfl, (Function.update_eq_self ..).symm, rfl, rfl⟩ fun hx hl => ?_⟩
    exact ⟨fun _ => hx.ready ho, hx.params, hx.accepted, fun _ => hne,
      fun hs => absurd (hl.symm.trans hs) (by simp)⟩
  -- What the handlers write is seen by no substream.
  | urb ptr period inflight err => exact ⟨.playback, .unseen rfl fun _ => rfl⟩
  | shutdown => cases hup
  | disconnected d hdown hl => exact absurd (hdown.symm.trans hup) (by simp)
  | outcomes usb => exact ⟨.playback, .unseen rfl fun _ => rfl⟩

/-- The fields that only the sections change. -/
theorem fixed_eq {s s' : Shared} (h : s'.card.fixed = s.card.fixed) :
    (s'.card.chip.rate = s.card.chip.rate ∧ s'.card.chip.urb_frames = s.card.chip.urb_frames ∧
      s'.card.chip.urbs_active = s.card.chip.urbs_active) ∧
    s'.card.chip.streaming = s.card.chip.streaming ∧
    s'.card.chip.stream_setup = s.card.chip.stream_setup ∧
    s'.card.chip.stream_users = s.card.chip.stream_users := by
  have hfield : ∀ {α : Type} (f : Stream → α), f s'.card.fixed = f s.card.fixed :=
    fun f => congrArg f h
  exact ⟨⟨hfield Stream.rate, hfield Stream.urb_frames, hfield Stream.urbs_active⟩,
    hfield Stream.streaming, hfield Stream.stream_setup, hfield Stream.stream_users⟩

/-- Whether a substream fits depends on its runtime and on what the sections set. -/
theorem misfits_congr {s s' : Shared} {d : Dir} (hfixed : s'.card.fixed = s.card.fixed)
    (hruntime : s'.card.runtime d = s.card.runtime d) :
    Misfits s'.card d ↔ Misfits s.card d := by
  obtain ⟨⟨hrate, hurb, hcount⟩, _⟩ := fixed_eq hfixed
  simp only [Misfits, bfSessionPeriod, hrate, hurb, hcount, hruntime]

namespace Effect

variable {d : Dir} {s s' : Shared}

/-- The flag stays. -/
theorem streaming (h : Effect d s s') : s'.card.chip.streaming = s.card.chip.streaming :=
  (fixed_eq h.fixed).2.1

/-- No other substream is started by it. -/
theorem started_other (h : Effect d s s') {e : Dir} (he : e ≠ d) (hs : s'.Started e) :
    s.Started e := by
  have hstate : s'.card.state e = s.card.state e := congrArg Substream.state (h.other e he)
  have hstarting : s'.starting e = s.starting e := congrArg Substream.starting (h.other e he)
  rwa [Shared.Started, hstate, hstarting] at hs

/-- It keeps the invariant. -/
theorem inv (h : Effect d s s') (hs : SharedInv s) : SharedInv s' := by
  obtain ⟨⟨_, _, hcount⟩, _, hsetup, husers⟩ := fixed_eq h.fixed
  refine ⟨hcount ▸ hs.urbs_active, by rw [husers, hsetup]; exact hs.users, fun e => ?_⟩
  rw [hsetup]
  by_cases he : e = d
  · subst he
    exact h.sub (hs.sub e)
  · rw [h.other e he]
    exact hs.sub e

/-- What runs still fits its session. -/
theorem sound (h : Effect d s s') (hs : Sound s) : Sound s' where
  live e hstarted := by
    rw [h.streaming]
    -- Only this direction can have become started, and it says itself under which session.
    by_cases he : e = d
    · subst he
      rcases h.started hstarted with hold | hlive
      · exact hs.live e hold
      · exact hlive
    · exact hs.live e (h.started_other he hstarted)
  fits e hrun := by
    -- A substream that runs fits its session when it started, and neither of them has changed since.
    by_cases he : e = d
    · subst he
      rcases h.running hrun with hfits | ⟨hold, hruntime⟩
      · exact hfits
      · rw [misfits_congr h.fixed hruntime]
        exact hs.fits e hold
    · have hstate : s'.card.state e = s.card.state e := congrArg Substream.state (h.other e he)
      rw [misfits_congr h.fixed (congrArg Substream.runtime (h.other e he))]
      exact hs.fits e (hstate.symm.trans hrun)

/-- What is not started stays so. -/
theorem still (h : Effect d s s') {D : Dir → Prop} (hs : Still D s) : Still D s' where
  dead := h.streaming.trans hs.dead
  quiet e he hstarted := by
    by_cases hed : e = d
    · subst hed
      rcases h.started hstarted with hold | hlive
      · exact hs.quiet e he hold
      · exact absurd (hs.dead.symm.trans hlive) (by simp)
    · exact hs.quiet e he (h.started_other hed hstarted)

end Effect

/-- What no step about one direction breaks. -/
def Lasting (P : Shared → Prop) : Prop := ∀ ⦃d s s'⦄, Effect d s s' → P s → P s'

/-- Soundness lasts while other threads step. -/
theorem sound_lasting : Lasting Sound := fun _ _ _ h => h.sound

/-- So does stillness. -/
theorem still_lasting (D : Dir → Prop) : Lasting (Still D) := fun _ _ _ h => h.still

/-- Two properties that last. -/
theorem Lasting.and {P Q : Shared → Prop} (hP : Lasting P) (hQ : Lasting Q) :
    Lasting fun s => P s ∧ Q s := fun _ _ _ h hs => ⟨hP h hs.1, hQ h hs.2⟩

/-- A substream that is set up stays so. -/
theorem setup_lasting (d : Dir) : Lasting fun s => s.card.chip.stream_setup d = true := by
  intro e s s' h hs
  rwa [(fixed_eq h.fixed).2.2.1]

/-- A session without users stays so. -/
theorem users_lasting : Lasting fun s => s.card.chip.stream_users = 0 := by
  intro e s s' h hs
  rwa [(fixed_eq h.fixed).2.2.2]

section Sections

variable {b : Option (Dir × Call)} {P Q : Shared → Prop} {s s' : Shared}

/-- A step that leads from one property to another. -/
theorem There.step {d : Dir} (h : Effect d s s') (hP : P s → Q s') (hs : There b P s) :
    There b Q s' where
  inv := h.inv hs.inv
  call e c hb := by
    obtain ⟨hcall, hbusy⟩ := hs.call e c hb
    refine ⟨?_, hbusy⟩
    by_cases he : e = d
    · subst he
      rw [h.busy (hcall ▸ hbusy), hcall]
    · exact (congrArg Substream.call (h.other e he)).trans hcall
  holds := hP hs.holds

/-- What no step about one direction breaks, the other threads keep. -/
theorem Up.stable (hP : Lasting P) : Section.Stable Other (Up b P) := by
  intro s s' hs hup
  obtain ⟨hthere, hnurbs⟩ := hs.up
  refine ⟨hnurbs ▸ hup.1, fun hdown => ?_⟩
  obtain ⟨d, heffect⟩ := hs.effect hdown
  exact (hup.2 (hthere hdown)).step heffect (hP heffect)

/-- A weaker property. -/
theorem Up.mono (h : ∀ s, P s → Q s) (hs : Up b P s) : Up b Q s :=
  ⟨hs.1, fun hup => ⟨(hs.2 hup).inv, (hs.2 hup).call, h s (hs.2 hup).holds⟩⟩

/-- A change of the card that keeps its parameters, and the card. -/
theorem Up.onCard {f : Card → Card} (hf : ∀ k, (f k).chip.nurbs = k.chip.nurbs ∧
      (f k).chip.shutdown = k.chip.shutdown)
    (h : ∀ s, There b P s → SharedInv (s.onCard f) ∧ Q (s.onCard f)) (hs : Up b P s) :
    Up b Q (s.onCard f) := by
  obtain ⟨hnurbs, hdown⟩ := hf s.card
  refine ⟨?_, fun hup => ?_⟩
  · rw [Shared.onCard_card, hnurbs]
    exact hs.1
  · rw [Shared.onCard_card, hdown] at hup
    obtain ⟨hinv, hholds⟩ := h s (hs.2 hup)
    exact ⟨hinv, (hs.2 hup).call, hholds⟩

end Sections

end BabyfacePro
