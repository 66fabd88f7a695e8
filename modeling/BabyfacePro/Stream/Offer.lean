import BabyfacePro.Stream.Session

/-!
# What a substream is offered

The configurations that `babyface_pcm_open` leaves to an application, and what becomes of one that it
picks. The offer is made in frames, without the rate, so it can hold a period shorter than the smallest
URB of the rate: `offered_params_accepted` says that this alone is refused.
-/

namespace BabyfacePro

/-- `bf_hw_rule_rate`: while another application holds the clock, its rate alone. -/
def bfHwRuleRate (c : Chip) (d : Dir) (rate : ℕ) : Prop :=
  bfOtherHoldsClock c d = true → rate = c.rate

/-- `bf_hw_rule_period`: while another application holds the session, a period that spans its URBs. -/
def bfHwRulePeriod (c : Chip) (d : Dir) (period : ℕ) : Prop :=
  bfOtherHoldsClock c d = true → bfSessionPeriod c ≤ period

/-- A configuration that is left on offer to the direction `d`. -/
structure Offered (c : Chip) (d : Dir) (rt : Runtime) : Prop where
  admitted : Admitted c rt
  rule_rate : bfHwRuleRate c d rt.rate
  rule_period : bfHwRulePeriod c d rt.period_size

/-- A whole number of the rate's packets fits the limits of the parameters and the period. -/
def PacketFits (c : Chip) (r : BfRate) (period : ℕ) : Prop :=
  ∃ u, r.min_fpu ∣ u ∧ max c.urb_frames_min r.min_fpu ≤ u ∧ u ≤ min c.frames_per_urb period

/-- A period has a URB if and only if a packet fits it. -/
theorem bfUrbFrames_ne_zero_iff (urb_split : ℤ) (c : Chip) {r : BfRate} (hr : r ∈ bfRates)
    (period : ℕ) : bfUrbFrames urb_split c r period ≠ 0 ↔ PacketFits c r period := by
  rw [ne_eq, bfUrbFrames_eq_zero_iff urb_split c period hr, not_not]
  exact (Multiples.exists_multiple_iff (min_fpu_pos hr)).symm

/-- The URBs of a session fit its period. -/
theorem urb_frames_le_bfSessionPeriod {s : Chip} (h : Geometry s.toStream) :
    s.urb_frames ≤ bfSessionPeriod s := by
  have hcount := h.urbs_active.1
  have hhalf : 1 ≤ Multiples.divRoundUp s.urbs_active 2 := by
    unfold Multiples.divRoundUp
    omega
  calc s.urb_frames = s.urb_frames * 1 := (Nat.mul_one _).symm
    _ ≤ bfSessionPeriod s := Nat.mul_le_mul_left _ hhalf

/-- What is offered beside another application's session has URBs: those of the session. -/
theorem Offered.packetFits {c : Chip} {d : Dir} {rt : Runtime} {r : BfRate} (h : Offered c d rt)
    (hg : Geometry c.toStream) (hr : r ∈ bfRates) (hrate : r.rate = rt.rate)
    (hheld : bfOtherHoldsClock c d = true) : PacketFits c r rt.period_size := by
  obtain ⟨r', hr', hset, _, _, hdvd⟩ := hg.rate
  obtain rfl : r = r' := by
    refine bfRates_inj r hr r' hr' ?_
    rw [hrate, h.rule_rate hheld]
    exact hset
  have hmin := hg.clamped.urb_frames_min.1
  have hurb := hg.urb_frames
  have hpkt : r.min_fpu ≤ c.urb_frames := Nat.le_of_dvd (by omega) hdvd
  have hperiod : c.urb_frames ≤ rt.period_size :=
    (urb_frames_le_bfSessionPeriod hg).trans (h.rule_period hheld)
  exact ⟨c.urb_frames, hdvd, max_le hurb.1 hpkt, le_min hurb.2 hperiod⟩

/-- The session that a hw_params chose fits the parameters. -/
theorem Accepted.fits {urb_split : ℤ} {d : Dir} {params : Runtime} {k k' : Card}
    (h : Accepted urb_split d params k k') (hg : Geometry k.chip.toStream) :
    k'.chip.rate = params.rate ∧ bfSessionPeriod k'.chip ≤ params.period_size ∧
      k'.chip.shutdown = false := by
  obtain ⟨r, new, k₁, hr, hurb, hrated, hcases⟩ := h.accepted
  obtain ⟨_, hparams⟩ := bfRateLookup_some hr
  -- The setup of the direction is no part of the session.
  have hset : ∀ k₂ : Card, (setUp d k₂).chip.rate = k₂.chip.rate ∧
      bfSessionPeriod (setUp d k₂).chip = bfSessionPeriod k₂.chip ∧
      (setUp d k₂).chip.shutdown = k₂.chip.shutdown := by
    intro k₂
    unfold setUp
    split <;> exact ⟨rfl, rfl, rfl⟩
  -- The rate is the one asked for, whether it was set before or is new.
  have hfields : k₁.chip.rate = params.rate ∧ k₁.chip.nurbs = k.chip.nurbs ∧
      k₁.chip.shutdown = false := by
    cases hrated with
    | same hrate => exact ⟨hrate.symm.trans hparams, rfl, h.not_shutdown⟩
    | new _ _ hstream =>
      rw [sessionStopped_stream] at hstream
      have hrate := congrArg Stream.rate hstream
      have hnurbs := congrArg Stream.nurbs hstream
      have hdown := congrArg Stream.shutdown hstream
      exact ⟨hrate.trans hparams, hnurbs, hdown.trans h.not_shutdown⟩
  rcases hcases with ⟨_, hperiod, rfl⟩ | ⟨_, rfl⟩
  · rw [(hset k₁).1, (hset k₁).2.1, (hset k₁).2.2]
    exact ⟨hfields.1, hperiod, hfields.2.2⟩
  · rw [(hset _).1, (hset _).2.1, (hset _).2.2]
    -- Either the URBs were chosen for this period, or it is one that the session can serve.
    by_cases hcond : new = true ∨ ¬ k₁.chip.stream_setup d.other ∨ k₁.chip.session_dir = d ∨
        params.period_size < bfSessionPeriod k₁.chip
    · obtain ⟨b, hstream, _⟩ := chooseUrbs_stream urb_split r
        (bfUrbFrames urb_split k.chip r params.period_size) hcond
      have hrate := congrArg Stream.rate hstream
      have hframes := congrArg Stream.urb_frames hstream
      have hactive := congrArg Stream.urbs_active hstream
      have hdown := congrArg Stream.shutdown hstream
      dsimp only at hrate hframes hactive hdown
      -- They were chosen within the period, so half of the count lies within it.
      obtain ⟨_, _, _, hle⟩ := bfUrbFrames_spec urb_split k.chip params.period_size hurb
      obtain ⟨_, _, _, hhalf⟩ := bfUrbCount_spec urb_split r
        (hfields.2.1.symm ▸ hg.clamped.nurbs.1 : 2 ≤ k₁.chip.nurbs) (Nat.pos_of_ne_zero hurb) hle
      refine ⟨hrate.trans hfields.1, ?_, hdown.trans hfields.2.2⟩
      unfold bfSessionPeriod
      rw [hframes, hactive]
      exact hhalf
    · unfold chooseUrbs
      rw [if_neg hcond]
      push Not at hcond
      exact ⟨hfields.1, hcond.2.2.2, hfields.2.2⟩

/-- Of what is offered, hw_params refuses a period that no packet of the rate fits, and else only for a card
that is going away. -/
theorem Refused.offered {urb_split : ℤ} {d : Dir} {rt : Runtime} {k : Card} {e : Errno}
    (h : Refused urb_split d rt k e) (hoffer : Offered k.chip d rt) {r : BfRate} (hr : r ∈ bfRates)
    (hrate : r.rate = rt.rate) :
    e = .einval ∧ ¬ PacketFits k.chip r rt.period_size ∨
      e = .enodev ∧ PacketFits k.chip r rt.period_size ∧ k.chip.shutdown = true := by
  have hlookup : bfRateLookup rt.rate = some r := hrate ▸ bfRateLookup_of_mem hr
  have hfit := bfUrbFrames_ne_zero_iff urb_split k.chip hr rt.period_size
  cases h with
  | rate hnone =>
    rw [hlookup] at hnone
    cases hnone
  | urb hr' hzero =>
    obtain rfl : r = _ := Option.some_inj.mp (hlookup.symm.trans hr')
    exact .inl ⟨rfl, fun hp => hfit.mpr hp hzero⟩
  | shutdown hr' hurb hdown =>
    obtain rfl : r = _ := Option.some_inj.mp (hlookup.symm.trans hr')
    exact .inr ⟨rfl, hfit.mp hurb, hdown⟩
  | held hr' hheld hwhy =>
    -- The rules have left nothing that the holder of the clock refuses.
    exfalso
    obtain rfl : r = _ := Option.some_inj.mp (hlookup.symm.trans hr')
    rcases hwhy with hne | hlt
    · exact hne (hrate.trans (hoffer.rule_rate hheld))
    · exact absurd (hoffer.rule_period hheld) (Nat.not_le.mpr hlt)

/-- The prepare that follows an accepted hw_params is not refused while no transfer fails. -/
theorem Accepted.prepares {urb_split : ℤ} {d : Dir} {params : Runtime} {k : Card} {w : PcmWorld}
    (h : Accepted urb_split d params k w.chip) (hg : Geometry k.chip.toStream) (hlive : ∀ i, w.usb i = true) :
    ∃ w', babyfacePcmPrepare d { w with chip := withParams d params w.chip } = (.ok (), w') := by
  -- It finds a session that the parameters fit, and its start has every transfer get through.
  obtain ⟨hset, hsession, hdown⟩ := h.fits hg
  obtain ⟨r, hr, hrate, _⟩ := (h.geometry hg).rate
  refine babyfacePcmPrepare_live hlive ?_ hdown ?_
  · show (bfRateLookup w.chip.chip.rate).isSome = true
    rw [hrate, bfRateLookup_of_mem hr]
    rfl
  · have hruntime : (withParams d params w.chip).runtime d = params := Function.update_self ..
    unfold Misfits
    rw [hruntime]
    rintro (hne | hlt)
    · exact hne hset.symm
    · exact absurd hsession (Nat.not_le.mpr hlt)

/-- Of what is offered, hw_params refuses nothing as busy, and as invalid exactly the periods that no whole
number of the rate's packets fits, which beside another application's session there are none of; the
rest it accepts, unless the card is going away, and the prepare that follows is not refused. -/
theorem offered_params_accepted {p : Params} {w : PcmWorld} (h : PcmReachable p w) {d : Dir}
    {rt : Runtime} (hoffer : Offered w.chip.chip d rt) (hlive : ∀ i, w.usb i = true) {r : BfRate}
    (hr : r ∈ bfRates) (hrate : r.rate = rt.rate) :
    (babyfacePcmHwParams p.urb_split d rt w).1 ≠ .error .ebusy ∧
    ((babyfacePcmHwParams p.urb_split d rt w).1 = .error .einval ↔
      ¬ PacketFits w.chip.chip r rt.period_size) ∧
    (bfOtherHoldsClock w.chip.chip d = true → PacketFits w.chip.chip r rt.period_size) ∧
    (w.chip.chip.shutdown = false → PacketFits w.chip.chip r rt.period_size →
      ∃ w', babyfacePcmHwParams p.urb_split d rt w = (.ok (), w')) ∧
    ∀ w', babyfacePcmHwParams p.urb_split d rt w = (.ok (), w') →
      ∃ w'', babyfacePcmPrepare d { w' with chip := withParams d rt w'.chip } = (.ok (), w'') := by
  have hg := h.inv.geometry
  have hheldFits := hoffer.packetFits hg hr hrate
  -- Accepted, refused with a reason, or the switch has failed, which no transfer does here.
  rcases babyfacePcmHwParams_cases p.urb_split d rt w with
    ⟨w₁, hrun, hacc, hlive₁⟩ | ⟨e, hrun, hwhy⟩ | ⟨_, _, _, _, i, husb⟩
  · rw [hrun]
    -- What is accepted had a length that fits.
    have hpacket : PacketFits w.chip.chip r rt.period_size := by
      have hlookup : bfRateLookup rt.rate = some r := hrate ▸ bfRateLookup_of_mem hr
      obtain ⟨r', _, _, hr', hurb, _⟩ := hacc.accepted
      obtain rfl : r = r' := Option.some_inj.mp (hlookup.symm.trans hr')
      exact (bfUrbFrames_ne_zero_iff p.urb_split w.chip.chip hr rt.period_size).mp hurb
    have hok : ∀ e : Errno, (Except.ok () : Except Errno Unit) ≠ .error e := fun e => nofun
    refine ⟨hok _, iff_of_false (hok _) (not_not.mpr hpacket), hheldFits, fun _ _ => ⟨w₁, rfl⟩, ?_⟩
    rintro w' ⟨⟩
    exact hacc.prepares hg (hlive₁ hlive)
  · rw [hrun]
    have herr : ∀ w' : PcmWorld, ((.error e, w) : Except Errno Unit × PcmWorld) = (.ok (), w') →
        ∃ w'', babyfacePcmPrepare d { w' with chip := withParams d rt w'.chip } = (.ok (), w'') :=
      fun w' he => by cases he
    have hne : ∀ {e₁ e₂ : Errno}, e₁ ≠ e₂ → (Except.error e₁ : Except Errno Unit) ≠ .error e₂ :=
      fun hne he => hne (Except.error.inj he)
    rcases hwhy.offered hoffer hr hrate with ⟨rfl, hnot⟩ | ⟨rfl, hpacket, hdown⟩
    · exact ⟨hne (by decide), iff_of_true rfl hnot, hheldFits, fun _ hp => absurd hp hnot, herr⟩
    · refine ⟨hne (by decide), iff_of_false (hne (by decide)) (not_not.mpr hpacket), hheldFits,
        fun hup _ => ?_, herr⟩
      rw [hup] at hdown
      cases hdown
  · rw [hlive i] at husb
    cases husb

/-- Playback, opened on a card with the parameters `p`. -/
def playbackOpen (p : Params) : PcmWorld :=
  (babyfacePcmOpen .playback 7 ⟨{ chip := probeChip p }, [], [], fun _ => true⟩).2

/-- The run to `playbackOpen`. -/
theorem playbackOpen_reachable (p : Params) : PcmReachable p (playbackOpen p) :=
  ⟨_, ⟨rfl, rfl⟩, .single (.open .playback 7 rfl rfl)⟩

/-- Nobody else has set up the other direction. -/
theorem playbackOpen_rules (p : Params) (rt : Runtime) :
    bfHwRuleRate (playbackOpen p).chip.chip .playback rt.rate ∧
      bfHwRulePeriod (playbackOpen p).chip.chip .playback rt.period_size := by
  have hfree : bfOtherHoldsClock (playbackOpen p).chip.chip .playback = false := rfl
  unfold bfHwRuleRate bfHwRulePeriod
  rw [hfree]
  exact ⟨nofun, nofun⟩

/-- A period of 256 frames at 48 kHz, with the default parameters. -/
theorem offered_params_accepted_default :
    ∃ w', babyfacePcmHwParams 0 .playback ⟨48000, 2, 256, 1024⟩ (playbackOpen {}) = (.ok (), w') := by
  have hoffer : Offered (playbackOpen {}).chip.chip .playback ⟨48000, 2, 256, 1024⟩ :=
    ⟨⟨⟨⟨48000, BF_ALT_1, 56, 8⟩, by decide, rfl⟩, by decide, by decide, by decide, by decide,
      by decide⟩, (playbackOpen_rules {} ⟨48000, 2, 256, 1024⟩).1,
      (playbackOpen_rules {} ⟨48000, 2, 256, 1024⟩).2⟩
  exact (offered_params_accepted (playbackOpen_reachable {}) hoffer (fun _ => rfl)
    (r := ⟨48000, BF_ALT_1, 56, 8⟩) (by decide) rfl).2.2.2.1 rfl
    ⟨128, by decide, by decide, by decide⟩

/-- A period of 40 frames at 96 kHz is offered with a floor of 40 frames, and refused: the smallest URB of
whole packets has 48. -/
theorem offered_period_refused :
    PcmReachable { urb_frames_min := 40 } (playbackOpen { urb_frames_min := 40 }) ∧
      Offered (playbackOpen { urb_frames_min := 40 }).chip.chip .playback ⟨96000, 2, 40, 80⟩ ∧
      (∀ i, (playbackOpen { urb_frames_min := 40 }).usb i = true) ∧
      (babyfacePcmHwParams 0 .playback ⟨96000, 2, 40, 80⟩
        (playbackOpen { urb_frames_min := 40 })).1 = .error .einval := by
  refine ⟨playbackOpen_reachable _, ⟨?_, ?_, ?_⟩, fun _ => rfl, rfl⟩
  · exact ⟨⟨⟨96000, BF_ALT_2, 40, 16⟩, by decide, rfl⟩, by decide, by decide, by decide, by decide,
      by decide⟩
  · exact (playbackOpen_rules _ ⟨96000, 2, 40, 80⟩).1
  · exact (playbackOpen_rules _ ⟨96000, 2, 40, 80⟩).2

end BabyfacePro
