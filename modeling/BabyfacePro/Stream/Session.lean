import BabyfacePro.Stream.Pcm

/-!
# Runs of the two substreams

What the PCM core and the driver do with the substreams, in any order and with any outcome of the
transfers, and what holds of the session in every state that this leads to: its URBs are whole packets of
the device's rate within the limits of the parameters, and a session only runs for a user.
-/

namespace BabyfacePro

open Bus.M (get modify when)

/-! ## The PCM core -/

/-- A substream in a new state. -/
def inState (d : Dir) (st : PcmState) (k : Card) : Card :=
  { k with state := Function.update k.state d st }

/-- The core's release of the parameters of a substream. -/
def sndPcmHwFree (d : Dir) : Pcm Unit := do
  babyfacePcmHwFree d
  modify (inState d .open)

/-- A substream with the parameters that the driver accepted. -/
def withParams (d : Dir) (params : Runtime) (k : Card) : Card :=
  { inState d .setup k with runtime := Function.update k.runtime d params }

/-- The core's hw_params: a substream whose parameters were refused is released. -/
def sndPcmHwParams (urb_split : ℤ) (d : Dir) (params : Runtime) : Pcm Unit := fun w =>
  match babyfacePcmHwParams urb_split d params w with
  | (.ok (), w') => (.ok (), { w' with chip := withParams d params w'.chip })
  | (.error e, w') => (.error e, (sndPcmHwFree d w').2)

/-- The core's prepare. -/
def sndPcmPrepare (d : Dir) : Pcm Unit := do
  babyfacePcmPrepare d
  modify (inState d .prepared)

/-- The core's start of a substream that was prepared. -/
def sndPcmStart (d : Dir) : Pcm Unit := do
  babyfacePcmStart d
  modify (inState d .running)

/-- The substreams that ran, once the core has suspended them. -/
def suspendedAll (k : Card) : Card :=
  { k with state := fun d => if (k.state d).isRunning d then .suspended else k.state d }

/-- The substreams of a card that went away. -/
def disconnectedAll (k : Card) : Card := { k with state := fun _ => .disconnected }

/-- A step of the substreams, or of the rest of the driver. -/
inductive PcmStep (urb_split : ℤ) : PcmWorld → PcmWorld → Prop
  | open (d : Dir) (pid : ℕ) {w : PcmWorld} (h : w.chip.chip.subs d = false)
      (hs : w.chip.state d = .open) : PcmStep urb_split w (babyfacePcmOpen d pid w).2
  | close (d : Dir) {w : PcmWorld} (hs : w.chip.state d = .open) :
      PcmStep urb_split w (babyfacePcmClose d w).2
  | hwParams (d : Dir) (params : Runtime) {w : PcmWorld} (h : w.chip.chip.subs d = true)
      (hs : w.chip.state d = .open ∨ w.chip.state d = .setup ∨ w.chip.state d = .prepared) :
      PcmStep urb_split w (sndPcmHwParams urb_split d params w).2
  /-- Of a substream that has parameters, also when the card has gone away. -/
  | hwFree (d : Dir) {w : PcmWorld} (hs : (w.chip.state d).isRunning d = false) :
      PcmStep urb_split w (sndPcmHwFree d w).2
  | prepare (d : Dir) {w : PcmWorld} (ho : w.chip.state d ≠ .open)
      (hd : w.chip.state d ≠ .disconnected) (hs : (w.chip.state d).isRunning d = false) :
      PcmStep urb_split w (sndPcmPrepare d w).2
  | start (d : Dir) {w : PcmWorld} (hs : w.chip.state d = .prepared) :
      PcmStep urb_split w (sndPcmStart d w).2
  /-- A stop, an xrun, a drop or a drain. -/
  | stop (d : Dir) (st : PcmState) {w : PcmWorld} (ho : w.chip.state d ≠ .open)
      (hd : w.chip.state d ≠ .disconnected)
      (hst : st = .setup ∨ st = .xrun ∨ st = .draining ∧ (w.chip.state d).isRunning d = true) :
      PcmStep urb_split w { w with chip := inState d st w.chip }
  | work (w : PcmWorld) : PcmStep urb_split w (babyfaceStreamWork w).2
  | shutdown (w : PcmWorld) :
      PcmStep urb_split w
        { w with chip := { w.chip with chip := { w.chip.chip with shutdown := true } } }
  /-- The sections of disconnect and suspend. -/
  | kill (w : PcmWorld) : PcmStep urb_split w (killSection w).2
  | disconnect (w : PcmWorld) : PcmStep urb_split w { w with chip := disconnectedAll w.chip }
  | suspend (w : PcmWorld) : PcmStep urb_split w { w with chip := suspendedAll w.chip }
  /-- What a URB handler counts. -/
  | urb (ptr period : Dir → ℕ) (inflight : ℕ) (err : ℤ) (w : PcmWorld) :
      PcmStep urb_split w
        { w with
          chip :=
            { w.chip with
              chip :=
                { w.chip.chip with
                  hw_ptr := ptr
                  prev_period := period
                  out_inflight := inflight
                  urb_err := err } } }
  /-- The controls, the panel and the resume leave the stream's part of the state alone. -/
  | rest (c : Chip) {w : PcmWorld} (h : c.toStream = w.chip.chip.toStream) :
      PcmStep urb_split w { w with chip := { w.chip with chip := c } }
  | outcomes (usb : ℕ → Bool) (w : PcmWorld) : PcmStep urb_split w { w with usb := usb }

/-- The state of the substreams after a probe with the parameters `p`. -/
def FreshPcm (p : Params) (w : PcmWorld) : Prop :=
  w.chip.chip.toStream = (probeChip p).toStream ∧ w.chip.state = fun _ => .open

/-- The states that the steps lead to after a probe. -/
def PcmReachable (p : Params) (w : PcmWorld) : Prop :=
  ∃ w₀, FreshPcm p w₀ ∧ Relation.ReflTransGen (PcmStep p.urb_split) w₀ w

/-! ## The geometry of the session -/

/-- The URBs of the session: whole packets of the rate that is set, within the limits of the parameters;
and the users that keep a session running. -/
structure Geometry (s : Stream) : Prop where
  clamped : Clamped s
  urb_frames : s.urb_frames_min ≤ s.urb_frames ∧ s.urb_frames ≤ s.frames_per_urb
  urbs_active : 2 ≤ s.urbs_active ∧ s.urbs_active ≤ s.nurbs
  rate : ∃ r ∈ bfRates, s.rate = r.rate ∧ s.alt = r.alt ∧ s.frame_bytes = r.frame_bytes ∧
    r.min_fpu ∣ s.urb_frames
  users : s.stream_users =
    (if s.stream_setup .playback then 1 else 0) + if s.stream_setup .capture then 1 else 0
  live : s.streaming = true → 1 ≤ s.stream_users

/-- The geometry of the probe. -/
theorem probeChip_geometry (p : Params) : Geometry (probeChip p).toStream where
  clamped := probeChip_clamped p
  urb_frames := ⟨(probeChip_clamped p).urb_frames_min.2.1, le_refl _⟩
  urbs_active := ⟨(probeChip_clamped p).nurbs.1, le_refl _⟩
  rate := ⟨⟨48000, BF_ALT_1, 56, 8⟩, by decide, rfl, rfl, rfl,
    (probeChip_clamped p).frames_per_urb.2.2⟩
  users := rfl
  live h := by cases h

/-- A session that stops, or moves its counters, keeps the geometry. -/
theorem Geometry.of_setting {s t : Stream} (h : Geometry s) (hs : t.setting = s.setting)
    (hlive : t.streaming = true → 1 ≤ s.stream_users) : Geometry t := by
  rw [Stream.setting_eq hs]
  exact ⟨⟨h.clamped.nurbs, h.clamped.frames_per_urb, h.clamped.urb_frames_min⟩, h.urb_frames,
    h.urbs_active, h.rate, h.users, hlive⟩

/-- A new choice of the URBs, at the rate set or at a new one, keeps the geometry. -/
theorem Geometry.chosen {s : Stream} (h : Geometry s) {r : BfRate} (hr : r ∈ bfRates) {u n : ℕ}
    (hdvd : r.min_fpu ∣ u) (hu : s.urb_frames_min ≤ u ∧ u ≤ s.frames_per_urb)
    (hn : 2 ≤ n ∧ n ≤ s.nurbs) (d : Dir) {b : Bool} (hb : b = true → s.streaming = true) :
    Geometry { s.retuned r with
      streaming := b, urb_frames := u, urbs_active := n, session_dir := d } where
  clamped := ⟨h.clamped.nurbs, h.clamped.frames_per_urb, h.clamped.urb_frames_min⟩
  urb_frames := hu
  urbs_active := hn
  rate := ⟨r, hr, rfl, rfl, rfl, hdvd⟩
  users := h.users
  live hlive := h.live (hb hlive)

/-- A direction that becomes a user of the session. -/
theorem Geometry.setUp {k : Card} (h : Geometry k.chip.toStream) (d : Dir) :
    Geometry (setUp d k).chip.toStream := by
  unfold BabyfacePro.setUp
  split
  · exact h
  · rename_i hfree
    have hfree : k.chip.stream_setup d = false := by simpa using hfree
    have husers := h.users
    refine ⟨⟨h.clamped.nurbs, h.clamped.frames_per_urb, h.clamped.urb_frames_min⟩, h.urb_frames,
      h.urbs_active, h.rate, ?_, fun hlive => ?_⟩
    · dsimp only
      rw [husers]
      cases d with
      | playback => simp [Function.update, hfree, Int.add_comm]
      | capture => simp [Function.update, hfree]
    · have hlive := h.live hlive
      dsimp only
      omega

/-- What hw_free does to the card. -/
def freed (d : Dir) (k : Card) : Card :=
  if k.chip.stream_setup d then
    let k' : Card :=
      { k with
        chip :=
          { k.chip with
            stream_setup := Function.update k.chip.stream_setup d false
            stream_users := k.chip.stream_users - 1 } }
    if k'.chip.stream_users = 0 ∧ k.chip.streaming = true then killed k' else k'
  else k

/-- What hw_free leaves. -/
theorem babyfacePcmHwFree_run (d : Dir) (w : PcmWorld) :
    babyfacePcmHwFree d w = (.ok (), { w with chip := freed d w.chip }) := by
  unfold babyfacePcmHwFree freed
  rw [Bus.M.bind_of_ok (Bus.M.get_run w)]
  cases w.chip.chip.stream_setup d with
  | false => rfl
  | true =>
    dsimp only [when]
    rw [if_pos rfl, if_pos rfl, Bus.M.bind_of_ok (Bus.M.modify_run _ _),
      Bus.M.bind_of_ok (Bus.M.get_run _), Bus.M.ite_run]
    by_cases hlast : w.chip.chip.stream_users - 1 = 0 ∧ w.chip.chip.streaming = true
    · rw [if_pos hlast, if_pos (by simpa using hlast)]
      rfl
    · rw [if_neg hlast, if_neg (by simpa using hlast)]
      rfl

/-- A direction that is released; the last one stops the session. -/
theorem Geometry.freed {k : Card} (h : Geometry k.chip.toStream) (d : Dir) :
    Geometry (freed d k).chip.toStream := by
  unfold BabyfacePro.freed
  split
  · rename_i hset
    have husers := h.users
    have hless : k.chip.stream_users - 1 =
        (if Function.update k.chip.stream_setup d false .playback then 1 else 0) +
          if Function.update k.chip.stream_setup d false .capture then 1 else 0 := by
      rw [husers]
      cases d <;> simp [Function.update, hset]
    have hpos : 0 ≤ k.chip.stream_users - 1 := by
      rw [hless]
      split <;> split <;> decide
    dsimp only
    split
    · exact ⟨⟨h.clamped.nurbs, h.clamped.frames_per_urb, h.clamped.urb_frames_min⟩, h.urb_frames,
        h.urbs_active, h.rate, hless, fun hlive => by cases hlive⟩
    · rename_i hlast
      refine ⟨⟨h.clamped.nurbs, h.clamped.frames_per_urb, h.clamped.urb_frames_min⟩, h.urb_frames,
        h.urbs_active, h.rate, hless, fun hlive => ?_⟩
      -- A session that still runs has a user left.
      have hne : k.chip.stream_users - 1 ≠ 0 := fun hzero => hlast ⟨hzero, hlive⟩
      show 1 ≤ k.chip.stream_users - 1
      omega
  · exact h

/-- The rates of the table are different. -/
theorem bfRates_inj : ∀ r ∈ bfRates, ∀ r' ∈ bfRates, r.rate = r'.rate → r = r' := by decide

/-- At the rate that is set, the rate's entry is that of the speed and the frames. -/
theorem Geometry.retuned_eq {s : Stream} (h : Geometry s) {r : BfRate} (hr : r ∈ bfRates)
    (hrate : r.rate = s.rate) : s.retuned r = s := by
  obtain ⟨r', hr', hrate', halt, hbytes, _⟩ := h.rate
  obtain rfl := bfRates_inj r hr r' hr' (hrate.trans hrate')
  unfold Stream.retuned
  rw [← hrate', ← halt, ← hbytes]

/-- The stream's part of the state after a choice of the URBs. -/
theorem chooseUrbs_stream (urb_split : ℤ) {d : Dir} (r : BfRate) (urb : ℕ) {period : ℕ}
    {new : Bool} {k : Card} (h : new = true ∨ ¬ k.chip.stream_setup d.other ∨ k.chip.session_dir = d ∨
      period < bfSessionPeriod k.chip) :
    ∃ b, (chooseUrbs urb_split d r urb period new k).chip.toStream =
        { k.chip.toStream with
          streaming := b
          urb_frames := urb
          urbs_active := bfUrbCount urb_split k.chip r period urb
          session_dir := d } ∧
      (b = true → k.chip.streaming = true) := by
  unfold chooseUrbs
  rw [if_pos h]
  dsimp only
  -- Only another URB length or count stops the session; the setting is written in both cases.
  split
  · refine ⟨false, ?_, fun hb => by cases hb⟩
    have hstop := sessionStopped_stream k
    unfold ledBy chosenUrbs
    dsimp only
    rw [hstop]
  · rename_i hsame
    push Not at hsame
    obtain ⟨hurb, hcount⟩ := hsame
    refine ⟨k.chip.streaming, ?_, id⟩
    rw [hcount, hurb]
    rfl

/-- A choice of the URBs for a rate keeps the geometry, where the stream was `s` before the rate was
set. -/
theorem Geometry.chooseUrbs {urb_split : ℤ} {d : Dir} {r : BfRate} {period : ℕ} {new : Bool}
    {c : Chip} {k : Card} (h : Geometry c.toStream) (hr : r ∈ bfRates)
    (hurb : bfUrbFrames urb_split c r period ≠ 0) {b : Bool}
    (hstream : k.chip.toStream = { c.toStream.retuned r with streaming := b })
    (hb : b = true → c.streaming = true)
    (hcond : new = true ∨ ¬ k.chip.stream_setup d.other ∨ k.chip.session_dir = d ∨
      period < bfSessionPeriod k.chip) :
    Geometry (BabyfacePro.chooseUrbs urb_split d r (bfUrbFrames urb_split c r period) period new
      k).chip.toStream := by
  -- The length chosen is whole packets between the least URB and the one the buffers were made for.
  obtain ⟨hdvd, hlo, hhi, hle⟩ := bfUrbFrames_spec urb_split c period hurb
  have hpkt : 0 < r.min_fpu := min_fpu_pos hr
  have hmin : c.urb_frames_min ≤ bfUrbFrames urb_split c r period :=
    (le_max_left _ _).trans ((Multiples.le_roundUp hpkt).trans hlo)
  have hmax : bfUrbFrames urb_split c r period ≤ c.frames_per_urb :=
    hhi.trans (Multiples.roundDown_le _ _)
  have hnurbs := congrArg Stream.nurbs hstream
  have hlive₀ := congrArg Stream.streaming hstream
  dsimp only [Stream.retuned] at hnurbs hlive₀
  obtain ⟨htwo, hcount, _, _⟩ := bfUrbCount_spec urb_split r
    (hnurbs.symm ▸ h.clamped.nurbs.1 : 2 ≤ k.chip.nurbs) (Nat.pos_of_ne_zero hurb) hle
  obtain ⟨b', hchosen, hb'⟩ := chooseUrbs_stream urb_split r (bfUrbFrames urb_split c r period)
    hcond
  -- The new session can only be live where the old one was, as the choice stops it or leaves it.
  have hlive : b' = true → c.streaming = true := by
    intro hb₁
    have hk := hb' hb₁
    rw [hlive₀] at hk
    exact hb hk
  rw [hchosen, hstream]
  rw [hnurbs] at hcount
  exact h.chosen hr hdvd ⟨hmin, hmax⟩ ⟨htwo, hcount⟩ d hlive

/-- A hw_params that is accepted keeps the geometry. -/
theorem Accepted.geometry {urb_split : ℤ} {d : Dir} {params : Runtime} {k k' : Card}
    (h : Accepted urb_split d params k k') (hg : Geometry k.chip.toStream) :
    Geometry k'.chip.toStream := by
  obtain ⟨r, new, k₁, hr, hurb, hrated, hcases⟩ := h.accepted
  obtain ⟨hmem, _⟩ := bfRateLookup_some hr
  have hfree := hrated.held d
  rcases hcases with ⟨hheld, _, rfl⟩ | ⟨_, rfl⟩
  · -- While another application holds the clock, nothing is chosen.
    cases hrated with
    | same => exact hg.setUp d
    -- A new rate is only set where no other application holds the clock, which this case says one does.
    | new _ hnot =>
      rw [hfree, hnot] at hheld
      cases hheld
  · refine Geometry.setUp ?_ d
    cases hrated with
    -- At the same rate the URBs are only chosen again where this direction may decide them.
    | same hrate =>
      by_cases hcond : false = true ∨ ¬ k.chip.stream_setup d.other ∨ k.chip.session_dir = d ∨
          params.period_size < bfSessionPeriod k.chip
      · refine hg.chooseUrbs hmem hurb (b := k.chip.streaming) ?_ id hcond
        rw [hg.retuned_eq hmem hrate]
      · unfold BabyfacePro.chooseUrbs
        rw [if_neg hcond]
        exact hg
    | new _ _ hstream =>
      -- Under a new rate the session stops first and its URBs are always chosen.
      rw [sessionStopped_stream] at hstream
      exact hg.chooseUrbs hmem hurb (b := false) hstream (fun hb => by cases hb) (Or.inl rfl)

/-! ## What every step keeps -/

/-- What holds in every state: the geometry, and that a substream with parameters is a user of the
session. -/
structure PcmInv (k : Card) : Prop where
  geometry : Geometry k.chip.toStream
  ready : ∀ d, k.state d ≠ .open → k.state d ≠ .disconnected → k.chip.stream_setup d = true

/-- A substream that runs is a user of the session. -/
theorem PcmInv.of_running {k : Card} (h : PcmInv k) {d : Dir}
    (hrun : (k.state d).isRunning d = true) : k.chip.stream_setup d = true := by
  refine h.ready d ?_ ?_ <;> intro hst <;> rw [hst] at hrun <;> cases hrun

/-- A session that stops keeps the invariant. -/
theorem sessionStopped_inv {k : Card} (h : PcmInv k) : PcmInv (sessionStopped k) where
  geometry := by
    rw [sessionStopped_stream]
    exact h.geometry.of_setting rfl fun hlive => by cases hlive
  ready d := by
    unfold sessionStopped stoppedBoth killed
    split
    · dsimp only
      split
      · rename_i hrun
        exact fun _ _ => h.of_running hrun.2
      · exact h.ready d
    · exact h.ready d

/-- Some of the substreams that ran were stopped by an xrun. -/
def Xrun (k k' : Card) : Prop :=
  ∀ d, k'.state d = k.state d ∨ (k.state d).isRunning d = true ∧ k'.state d = .xrun

/-- Two changes that stop nothing but what ran. -/
theorem Xrun.trans {k k₁ k' : Card} (h : Xrun k k₁) (h' : Xrun k₁ k') : Xrun k k' := by
  intro d
  rcases h d with heq | ⟨hrun, hx⟩
  · have hnext := h' d
    rwa [heq] at hnext
  · rcases h' d with heq' | ⟨hrun', _⟩
    · exact Or.inr ⟨hrun, heq'.trans hx⟩
    · rw [hx] at hrun'
      cases hrun'

/-- A session that stops gives an xrun to what ran. -/
theorem sessionStopped_xrun (k : Card) : Xrun k (sessionStopped k) := by
  intro d
  unfold sessionStopped stoppedBoth killed
  split
  · dsimp only
    split
    · rename_i hrun
      exact Or.inr ⟨hrun.2, rfl⟩
    · exact Or.inl rfl
  · exact Or.inl rfl

/-- So does the choice of other URBs. -/
theorem chooseUrbs_xrun (urb_split : ℤ) (d : Dir) (r : BfRate) (urb period : ℕ) (new : Bool)
    (k : Card) : Xrun k (chooseUrbs urb_split d r urb period new k) := by
  unfold chooseUrbs
  split
  · dsimp only
    split
    · exact sessionStopped_xrun k
    · exact fun _ => Or.inl rfl
  · exact fun _ => Or.inl rfl

/-- The states of the substreams after a hw_params that is accepted. -/
theorem Accepted.xrun {urb_split : ℤ} {d : Dir} {params : Runtime} {k k' : Card}
    (h : Accepted urb_split d params k k') : Xrun k k' := by
  obtain ⟨r, new, k₁, _, _, hrated, hcases⟩ := h.accepted
  have hset : ∀ k₂ : Card, (setUp d k₂).state = k₂.state := by
    intro k₂
    unfold setUp
    split <;> rfl
  -- Setting the rate stops at most what ran, and neither the choice nor the setup does more.
  have hrated₁ : Xrun k k₁ := by
    cases hrated with
    | same => exact fun _ => Or.inl rfl
    | new _ _ _ hstate =>
      intro e
      rw [hstate]
      exact sessionStopped_xrun k e
  rcases hcases with ⟨_, _, rfl⟩ | ⟨_, rfl⟩
  · intro e
    rw [hset]
    exact hrated₁ e
  · intro e
    rw [hset]
    exact hrated₁.trans (chooseUrbs_xrun _ _ _ _ _ _ _) e

/-- The setup of the directions after a hw_params that is accepted. -/
theorem Accepted.stream_setup {urb_split : ℤ} {d : Dir} {params : Runtime} {k k' : Card}
    (h : Accepted urb_split d params k k') :
    k'.chip.stream_setup d = true ∧
      k'.chip.stream_setup d.other = k.chip.stream_setup d.other := by
  obtain ⟨r, new, k₁, _, _, hrated, hcases⟩ := h.accepted
  have hset : ∀ k₂ : Card, (setUp d k₂).chip.stream_setup d = true ∧
      (setUp d k₂).chip.stream_setup d.other = k₂.chip.stream_setup d.other := by
    intro k₂
    unfold setUp
    split
    · rename_i hd
      exact ⟨hd, rfl⟩
    · exact ⟨Function.update_self .., Function.update_of_ne d.other_ne ..⟩
  -- Neither the rate nor the choice of the URBs touches the setup, so only the last write to it counts.
  have hrated₁ : k₁.chip.stream_setup = k.chip.stream_setup := by
    cases hrated with
    | same => rfl
    | new _ _ hstream =>
      rw [sessionStopped_stream] at hstream
      have hsetup := congrArg Stream.stream_setup hstream
      exact hsetup
  have hchosen : (chooseUrbs urb_split d r (bfUrbFrames urb_split k.chip r params.period_size)
      params.period_size new k₁).chip.stream_setup = k₁.chip.stream_setup := by
    by_cases hcond : new = true ∨ ¬ k₁.chip.stream_setup d.other ∨ k₁.chip.session_dir = d ∨
        params.period_size < bfSessionPeriod k₁.chip
    · obtain ⟨b, hstream, _⟩ := chooseUrbs_stream urb_split r
        (bfUrbFrames urb_split k.chip r params.period_size) hcond
      have hsetup := congrArg Stream.stream_setup hstream
      exact hsetup
    · unfold chooseUrbs
      rw [if_neg hcond]
  rcases hcases with ⟨_, _, rfl⟩ | ⟨_, rfl⟩
  · exact ⟨(hset k₁).1, (hset k₁).2.trans (congrFun hrated₁ d.other)⟩
  · refine ⟨(hset _).1, (hset _).2.trans ?_⟩
    rw [hchosen, hrated₁]

/-- A hw_params keeps what holds in every state. -/
theorem babyfacePcmHwParams_inv (urb_split : ℤ) (d : Dir) (params : Runtime) {w : PcmWorld}
    (h : PcmInv w.chip) : PcmInv (babyfacePcmHwParams urb_split d params w).2.chip := by
  rcases babyfacePcmHwParams_cases urb_split d params w with
    ⟨w', hrun, hacc, _⟩ | ⟨e, hrun, _⟩ | ⟨w', hrun, _, hk, _⟩ <;> rw [hrun]
  · refine ⟨hacc.geometry h.geometry, fun e ho hd => ?_⟩
    obtain ⟨hself, hother⟩ := hacc.stream_setup
    rcases d.eq_or_eq_other e with rfl | rfl
    · exact hself
    · rw [hother]
      rcases hacc.xrun d.other with heq | ⟨hrunning, _⟩
      · exact h.ready _ (heq ▸ ho) (heq ▸ hd)
      · exact h.of_running hrunning
  · exact h
  · show PcmInv w'.chip
    rw [hk]
    exact sessionStopped_inv h

/-- A release of the parameters keeps what holds in every state. -/
theorem sndPcmHwFree_inv (d : Dir) {w : PcmWorld} (h : PcmInv w.chip) :
    PcmInv (sndPcmHwFree d w).2.chip := by
  unfold sndPcmHwFree
  rw [Bus.M.bind_of_ok (babyfacePcmHwFree_run d w)]
  -- The direction released goes to OPEN, so what the other one has is all there is to keep.
  refine ⟨h.geometry.freed d, fun e ho hd => ?_⟩
  have hne : e ≠ d := by
    rintro rfl
    exact ho (Function.update_self ..)
  have hstate : (inState d .open (freed d w.chip)).state e = w.chip.state e := by
    unfold inState freed
    dsimp only
    rw [Function.update_of_ne hne]
    split
    · split <;> rfl
    · rfl
  have hsetup : (freed d w.chip).chip.stream_setup e = w.chip.chip.stream_setup e := by
    unfold freed
    split
    · dsimp only
      split <;> exact Function.update_of_ne hne ..
    · rfl
  refine hsetup.trans (h.ready e ?_ ?_)
  · exact hstate ▸ ho
  · exact hstate ▸ hd

/-- The core's hw_params keeps what holds in every state. -/
theorem sndPcmHwParams_inv (urb_split : ℤ) (d : Dir) (params : Runtime) {w : PcmWorld}
    (h : PcmInv w.chip) : PcmInv (sndPcmHwParams urb_split d params w).2.chip := by
  have hdriver := babyfacePcmHwParams_inv urb_split d params h
  unfold sndPcmHwParams
  rcases hrun : babyfacePcmHwParams urb_split d params w with ⟨e | _, w'⟩ <;>
    rw [hrun] at hdriver
  -- The driver refused, and the core releases the parameters.
  · exact sndPcmHwFree_inv d (w := w') hdriver
  · refine ⟨hdriver.geometry, fun e ho hd => ?_⟩
    -- The direction itself is set up by the driver; the other one keeps its setup and its state.
    by_cases he : e = d
    · subst he
      rcases babyfacePcmHwParams_cases urb_split e params w with
        ⟨w₁, hok, hacc, _⟩ | ⟨_, herr, _⟩ | ⟨_, herr, _⟩
      · rw [hrun] at hok
        cases hok
        exact hacc.stream_setup.1
      · rw [hrun] at herr
        cases herr
      · rw [hrun] at herr
        cases herr
    · have hstate : Function.update w'.chip.state d .setup e = w'.chip.state e :=
        Function.update_of_ne he ..
      exact hdriver.ready e (hstate ▸ ho) (hstate ▸ hd)

/-- What leaves the parameters alone, and makes no session without a user, keeps what holds in every
state. -/
theorem PcmInv.of_setting {k k' : Card} (h : PcmInv k)
    (hs : k'.chip.toStream.setting = k.chip.toStream.setting)
    (hlive : k'.chip.streaming = true → 1 ≤ k.chip.stream_users)
    (hready : ∀ d, k'.state d ≠ .open → k'.state d ≠ .disconnected →
      k.chip.stream_setup d = true) : PcmInv k' where
  geometry := h.geometry.of_setting hs hlive
  ready d ho hd := by
    rw [Stream.setting_eq hs]
    exact hready d ho hd

/-- A direction that is set up is a user. -/
theorem Geometry.one_le {s : Stream} (h : Geometry s) {d : Dir} (hd : s.stream_setup d = true) :
    1 ≤ s.stream_users := by
  rw [h.users]
  cases d with
  | playback =>
    rw [if_pos hd]
    split <;> decide
  | capture =>
    rw [if_pos hd]
    split <;> decide

/-- The core's prepare of a substream with parameters keeps what holds in every state. -/
theorem sndPcmPrepare_inv (d : Dir) {w : PcmWorld} (h : PcmInv w.chip)
    (hd : w.chip.chip.stream_setup d = true) : PcmInv (sndPcmPrepare d w).2.chip := by
  unfold sndPcmPrepare
  rcases babyfacePcmPrepare_cases d w with
    ⟨e, hrun, _⟩ | ⟨_, _, ⟨e, w', hrun, _, _, hset, hidle⟩ | ⟨w', hrun, hset, _⟩⟩
  -- Nothing was done: the card goes away, or the parameters no longer fit the session.
  · rw [Bus.M.bind_of_error hrun]
    exact h
  -- The start of the session failed, which leaves it stopped.
  · rw [Bus.M.bind_of_error hrun]
    obtain ⟨hstream, hstate, _⟩ := Prod.ext_iff.mp hset |>.imp_right Prod.ext_iff.mp
    refine h.of_setting hstream (fun hlive => ?_) fun e ho hd => ?_
    · rw [hidle] at hlive
      cases hlive
    · exact h.ready e (fun hst => ho ((congrFun hstate e).trans hst))
        fun hst => hd ((congrFun hstate e).trans hst)
  · rw [Bus.M.bind_of_ok hrun]
    obtain ⟨hstream, hstate, _⟩ := Prod.ext_iff.mp hset |>.imp_right Prod.ext_iff.mp
    refine h.of_setting hstream (fun _ => h.geometry.one_le hd) fun e ho hdis => ?_
    -- Only this direction becomes prepared, and it was set up before.
    by_cases he : e = d
    · rw [he]
      exact hd
    · have hprep : (inState d .prepared w'.chip).state e = w'.chip.state e :=
        Function.update_of_ne he ..
      exact h.ready e (fun hst => ho (hprep.trans ((congrFun hstate e).trans hst)))
        fun hst => hdis (hprep.trans ((congrFun hstate e).trans hst))

/-- A substream with parameters that takes a state of its own keeps what holds in every state. -/
theorem PcmInv.inState {k : Card} (h : PcmInv k) {d : Dir} (hd : k.chip.stream_setup d = true)
    (st : PcmState) : PcmInv (inState d st k) := by
  refine h.of_setting rfl h.geometry.live fun e ho hdis => ?_
  by_cases he : e = d
  · rw [he]
    exact hd
  · have hstate : (BabyfacePro.inState d st k).state e = k.state e := Function.update_of_ne he ..
    exact h.ready e (hstate ▸ ho) (hstate ▸ hdis)

/-- Who holds the substreams does not matter to the geometry, nor does a disconnect. -/
theorem PcmInv.with_owner {k : Card} (h : PcmInv k) (owner : Dir → ℕ) (subs : Dir → Bool)
    (down : Bool) :
    PcmInv { k with
      chip := { k.chip with owner := owner, subs := subs, shutdown := down } } where
  geometry := ⟨⟨h.geometry.clamped.nurbs, h.geometry.clamped.frames_per_urb,
    h.geometry.clamped.urb_frames_min⟩, h.geometry.urb_frames, h.geometry.urbs_active,
    h.geometry.rate, h.geometry.users, h.geometry.live⟩
  ready := h.ready

/-- A kill of the session keeps what holds in every state. -/
theorem PcmInv.killedLive {k : Card} (h : PcmInv k) : PcmInv (killedLive k) := by
  unfold BabyfacePro.killedLive
  split
  · exact h.of_setting rfl (fun hlive => by cases hlive) h.ready
  · exact h

/-- An xrun of the substreams that run keeps what holds in every state. -/
theorem PcmInv.xrun {k k' : Card} (h : PcmInv k)
    (hs : k'.chip.toStream.setting = k.chip.toStream.setting)
    (hlive : k'.chip.streaming = true → k.chip.streaming = true)
    (hstate : ∀ d, k'.state d = k.state d ∨ (k.state d).isRunning d = true) : PcmInv k' := by
  refine h.of_setting hs (fun hk => h.geometry.live (hlive hk)) fun d ho hd => ?_
  rcases hstate d with heq | hrun
  · exact h.ready d (heq ▸ ho) (heq ▸ hd)
  · exact h.of_running hrun

/-- Every step keeps what holds in every state. -/
theorem PcmStep.inv {urb_split : ℤ} {w w' : PcmWorld} (hs : PcmStep urb_split w w')
    (h : PcmInv w.chip) : PcmInv w'.chip := by
  cases hs with
  | «open» d pid _ _ => exact h.with_owner _ _ _
  | close d _ => exact h.with_owner _ _ _
  | hwParams d params _ _ => exact sndPcmHwParams_inv urb_split d params h
  | hwFree d _ => exact sndPcmHwFree_inv d h
  | prepare d ho hd _ => exact sndPcmPrepare_inv d h (h.ready d ho hd)
  | start d hst =>
    -- A substream that is prepared was set up.
    have hd : w.chip.chip.stream_setup d = true :=
      h.ready d (by rw [hst]; decide) (by rw [hst]; decide)
    unfold sndPcmStart
    rcases babyfacePcmStart_cases d w with hrun | ⟨hrun, _, _⟩
    · rw [Bus.M.bind_of_error hrun]
      exact h
    · have hreset : PcmInv (ptrReset d w.chip) := h.of_setting rfl h.geometry.live h.ready
      rw [Bus.M.bind_of_ok hrun]
      exact hreset.inState hd .running
  | stop d st ho hd _ => exact h.inState (h.ready d ho hd) st
  | work =>
    rw [babyfaceStreamWork_run]
    split
    -- The work marks both substreams as XRUN; their setup stays as it is.
    · show PcmInv (errCleared (stoppedBoth .xrun (BabyfacePro.killedLive w.chip)))
      refine h.killedLive.xrun rfl id fun d => ?_
      unfold errCleared stoppedBoth
      dsimp only
      split
      · rename_i hrun
        exact Or.inr hrun.2
      · exact Or.inl rfl
    · exact h
  | shutdown => exact h.with_owner _ _ _
  | kill =>
    rw [killSection_run]
    exact h.killedLive
  -- A disconnect leaves every substream DISCONNECTED, so none is left to be set up.
  | disconnect => exact ⟨h.geometry, fun d _ hd => absurd rfl hd⟩
  | suspend =>
    show PcmInv (suspendedAll w.chip)
    refine h.xrun rfl id fun d => ?_
    unfold suspendedAll
    dsimp only
    split
    · rename_i hrun
      exact Or.inr hrun
    · exact Or.inl rfl
  | urb => exact h.of_setting rfl h.geometry.live h.ready
  -- Anything else in the driver leaves the stream part as it is.
  | rest c hc =>
    refine ⟨?_, fun d ho hd => ?_⟩
    · show Geometry c.toStream
      rw [hc]
      exact h.geometry
    · show c.stream_setup d = true
      rw [hc]
      exact h.ready d ho hd
  | outcomes => exact h

/-- What holds in every state of the substreams. -/
theorem PcmReachable.inv {p : Params} {w : PcmWorld} (h : PcmReachable p w) : PcmInv w.chip := by
  obtain ⟨w₀, ⟨hstream, hstate⟩, hrun⟩ := h
  induction hrun with
  | refl =>
    refine ⟨?_, fun d ho _ => absurd (congrFun hstate d) ho⟩
    rw [hstream]
    exact probeChip_geometry p
  | tail _ hstep ih => exact hstep.inv ih

/-! ## The geometry in every state -/

/-- The fields that a refused hw_params leaves alone. -/
structure Unchanged (c c' : Chip) : Prop where
  rate : c'.rate = c.rate
  alt : c'.alt = c.alt
  frame_bytes : c'.frame_bytes = c.frame_bytes
  urb_frames : c'.urb_frames = c.urb_frames
  urbs_active : c'.urbs_active = c.urbs_active
  session_dir : c'.session_dir = c.session_dir
  stream_setup : c'.stream_setup = c.stream_setup
  stream_users : c'.stream_users = c.stream_users

/-- Nothing has changed. -/
theorem Unchanged.refl (c : Chip) : Unchanged c c := ⟨rfl, rfl, rfl, rfl, rfl, rfl, rfl, rfl⟩

/-- The flag is no part of the geometry. -/
theorem Unchanged.of_stream {c c' : Chip} {b : Bool}
    (h : c'.toStream = { c.toStream with streaming := b }) : Unchanged c c' := by
  have hfield : ∀ {α : Type} (f : Stream → α), f c'.toStream = f { c.toStream with streaming := b } :=
    fun f => congrArg f h
  exact ⟨hfield Stream.rate, hfield Stream.alt, hfield Stream.frame_bytes, hfield Stream.urb_frames,
    hfield Stream.urbs_active, hfield Stream.session_dir, hfield Stream.stream_setup,
    hfield Stream.stream_users⟩

/-- A hw_params that returns an error leaves the session's choices and users alone. -/
theorem babyfacePcmHwParams_unchanged {urb_split : ℤ} {d : Dir} {params : Runtime} {w w' : PcmWorld}
    {e : Errno} (h : babyfacePcmHwParams urb_split d params w = (.error e, w')) :
    Unchanged w.chip.chip w'.chip.chip := by
  rcases babyfacePcmHwParams_cases urb_split d params w with
    ⟨_, hrun, _⟩ | ⟨_, hrun, _⟩ | ⟨_, hrun, _, hk, _⟩ <;> rw [hrun] at h <;> cases h
  · exact .refl _
  · rw [hk]
    exact .of_stream (sessionStopped_stream w.chip)

/-- A direction that is released as the last one leaves no session. -/
theorem freed_idle {d : Dir} {k : Card} (hd : k.chip.stream_setup d = true)
    (hlast : (freed d k).chip.stream_users = 0) : (freed d k).chip.streaming = false := by
  unfold freed at hlast ⊢
  rw [if_pos hd] at hlast ⊢
  dsimp only at hlast ⊢
  split
  · rfl
  · rename_i hlive
    rw [if_neg hlive] at hlast
    have hidle : ¬ k.chip.streaming = true := fun hs => hlive ⟨hlast, hs⟩
    exact Bool.eq_false_iff.mpr hidle

/-- No session, on a card that is going away. -/
def Down (k : Card) : Prop := k.chip.shutdown = true ∧ k.chip.streaming = false

/-- An hw_free leaves a card down that is. -/
theorem Down.freed {k : Card} (h : Down k) (d : Dir) : Down (freed d k) := by
  unfold BabyfacePro.freed
  split
  · dsimp only
    split
    · exact ⟨h.1, rfl⟩
    · exact h
  · exact h

/-- So does the core's. -/
theorem sndPcmHwFree_down {d : Dir} {w : PcmWorld} (h : Down w.chip) :
    Down (sndPcmHwFree d w).2.chip := by
  unfold sndPcmHwFree
  rw [Bus.M.bind_of_ok (babyfacePcmHwFree_run d w)]
  exact h.freed d

/-- A card that is going away starts no session. -/
theorem PcmStep.down {urb_split : ℤ} {w w' : PcmWorld} (hs : PcmStep urb_split w w')
    (h : Down w.chip) : Down w'.chip := by
  cases hs with
  | hwParams d params _ _ =>
    unfold sndPcmHwParams
    rcases babyfacePcmHwParams_cases urb_split d params w with
      ⟨_, _, hacc, _⟩ | ⟨_, hrun, _⟩ | ⟨w₁, hrun, _, hk, _⟩
    -- The parameters are only accepted while the card does not go away.
    · exact absurd (h.1.symm.trans hacc.not_shutdown) (by decide)
    · rw [hrun]
      exact sndPcmHwFree_down h
    · rw [hrun]
      -- The interface could not be switched once the session was stopped, and the core's release starts none.
      refine sndPcmHwFree_down ?_
      rw [hk]
      have hstream := sessionStopped_stream w.chip
      exact ⟨(congrArg Stream.shutdown hstream).trans h.1, congrArg Stream.streaming hstream⟩
  | hwFree d _ => exact sndPcmHwFree_down h
  | prepare d _ _ _ =>
    unfold sndPcmPrepare
    rcases babyfacePcmPrepare_cases d w with ⟨_, hrun, _⟩ | ⟨hup, _, _⟩
    · rw [Bus.M.bind_of_error hrun]
      exact h
    -- Nor is a session prepared once it goes away.
    · exact absurd (h.1.symm.trans hup) (by decide)
  | start d _ =>
    unfold sndPcmStart
    rcases babyfacePcmStart_cases d w with hrun | ⟨hrun, _, _⟩
    · rw [Bus.M.bind_of_error hrun]
      exact h
    · rw [Bus.M.bind_of_ok hrun]
      exact h
  | work =>
    -- The work finds that the card goes away and returns.
    rw [babyfaceStreamWork_run, if_neg (by simp [h.1])]
    exact h
  | kill =>
    rw [killSection_run, killedLive, if_neg (by simp [h.2])]
    exact h
  | shutdown => exact ⟨rfl, h.2⟩
  | rest c hc =>
    refine ⟨?_, ?_⟩
    · exact (congrArg Stream.shutdown hc).trans h.1
    · exact (congrArg Stream.streaming hc).trans h.2
  | «open» | close | stop | disconnect | suspend | urb | outcomes => exact h

/-- The frames of the rates fit the words of the largest one. -/
theorem frame_bytes_le : ∀ r ∈ bfRates, r.frame_bytes ≤ 56 := by decide

/-- The geometry of the session holds in every state: whole packets of the rate within the limits, so
within the buffers of 14 words a frame that the probe allocates; a session has a user, and none is left
by its last one, nor started once the card goes away; and a hw_params that fails changes
nothing. -/
theorem stream_geometry {p : Params} {w : PcmWorld} (h : PcmReachable p w) :
    (w.chip.chip.urb_frames_min ≤ w.chip.chip.urb_frames ∧
      w.chip.chip.urb_frames ≤ w.chip.chip.frames_per_urb) ∧
    (2 ≤ w.chip.chip.urbs_active ∧ w.chip.chip.urbs_active ≤ w.chip.chip.nurbs) ∧
    (∃ r ∈ bfRates, w.chip.chip.rate = r.rate ∧ w.chip.chip.alt = r.alt ∧
      w.chip.chip.frame_bytes = r.frame_bytes ∧ 0 < w.chip.chip.urb_frames ∧
      r.min_fpu ∣ w.chip.chip.urb_frames) ∧
    w.chip.chip.frame_bytes * w.chip.chip.urb_frames ≤ 14 * 4 * w.chip.chip.frames_per_urb ∧
    w.chip.chip.stream_users =
      (if w.chip.chip.stream_setup .playback then 1 else 0) +
        (if w.chip.chip.stream_setup .capture then 1 else 0) ∧
    (w.chip.chip.streaming = true → 1 ≤ w.chip.chip.stream_users) ∧
    (∀ d, w.chip.chip.stream_setup d = true →
      (babyfacePcmHwFree d w).2.chip.chip.stream_users = 0 →
      (babyfacePcmHwFree d w).2.chip.chip.streaming = false) ∧
    (w.chip.chip.shutdown = true → ∀ w',
      Relation.ReflTransGen (PcmStep p.urb_split) (killSection w).2 w' →
      w'.chip.chip.streaming = false) ∧
    ∀ d params e w', babyfacePcmHwParams p.urb_split d params w = (.error e, w') →
      Unchanged w.chip.chip w'.chip.chip := by
  -- Every part but the last ones is a field of the invariant that all steps keep.
  have hg := h.inv.geometry
  have hmin := hg.clamped.urb_frames_min.1
  have hurb := hg.urb_frames
  obtain ⟨r, hr, hrate, halt, hbytes, hdvd⟩ := hg.rate
  refine ⟨hurb, hg.urbs_active, ⟨r, hr, hrate, halt, hbytes, by omega, hdvd⟩, ?_, hg.users, hg.live,
    fun d hd => ?_, fun hdown w' hrun => ?_, fun d params e w' => babyfacePcmHwParams_unchanged⟩
  · calc w.chip.chip.frame_bytes * w.chip.chip.urb_frames
        ≤ 56 * w.chip.chip.frames_per_urb := by
          rw [hbytes]
          exact Nat.mul_le_mul (frame_bytes_le r hr) hurb.2
      _ = 14 * 4 * w.chip.chip.frames_per_urb := rfl
  · rw [babyfacePcmHwFree_run]
    exact freed_idle hd
  · have hkilled : Down (killSection w).2.chip := by
      rw [killSection_run]
      unfold killedLive
      split
      · exact ⟨hdown, rfl⟩
      · rename_i hidle
        exact ⟨hdown, by simpa using hidle⟩
    -- By induction on the run after the kill: no step of a card that goes away starts a session.
    have hdown' : Down w'.chip := by
      induction hrun with
      | refl => exact hkilled
      | tail _ hstep ih => exact hstep.down ih
    exact hdown'.2

/-- The substreams after a probe with the default parameters. -/
def freshPcm : PcmWorld := ⟨{ chip := probeChip {} }, [], [], fun _ => true⟩

/-- Playback, opened and set up at 48 kHz. -/
def playbackSetUp : PcmWorld :=
  (sndPcmHwParams 0 .playback ⟨48000, 2, 256, 1024⟩ (babyfacePcmOpen .playback 7 freshPcm).2).2

/-- The run to `playbackSetUp`. -/
theorem playbackSetUp_reachable : PcmReachable {} playbackSetUp := by
  have hopen : PcmStep 0 freshPcm (babyfacePcmOpen .playback 7 freshPcm).2 :=
    .open .playback 7 rfl rfl
  exact ⟨freshPcm, ⟨rfl, rfl⟩, (Relation.ReflTransGen.single hopen).tail
    (.hwParams .playback ⟨48000, 2, 256, 1024⟩ rfl (Or.inl rfl))⟩

/-- Playback at 48 kHz. -/
theorem stream_geometry_set_up : 2 ≤ playbackSetUp.chip.chip.urbs_active :=
  (stream_geometry playbackSetUp_reachable).2.1.1

/-! ## The holder of the clock -/

/-- What processes other than `P` do with the direction `e`. -/
inductive OtherStep (urb_split : ℤ) (P : ℕ) (e : Dir) : PcmWorld → PcmWorld → Prop
  | open {pid : ℕ} (hpid : pid ≠ P) {w : PcmWorld} (h : w.chip.chip.subs e = false)
      (hs : w.chip.state e = .open) : OtherStep urb_split P e w (babyfacePcmOpen e pid w).2
  | close {w : PcmWorld} (hs : w.chip.state e = .open) :
      OtherStep urb_split P e w (babyfacePcmClose e w).2
  | hwParams (params : Runtime) {w : PcmWorld} (h : w.chip.chip.subs e = true)
      (hs : w.chip.state e = .open ∨ w.chip.state e = .setup ∨ w.chip.state e = .prepared) :
      OtherStep urb_split P e w (sndPcmHwParams urb_split e params w).2
  | hwFree {w : PcmWorld} (hs : (w.chip.state e).isRunning e = false) :
      OtherStep urb_split P e w (sndPcmHwFree e w).2
  | prepare {w : PcmWorld} (ho : w.chip.state e ≠ .open) (hd : w.chip.state e ≠ .disconnected)
      (hs : (w.chip.state e).isRunning e = false) :
      OtherStep urb_split P e w (sndPcmPrepare e w).2
  | start {w : PcmWorld} (hs : w.chip.state e = .prepared) :
      OtherStep urb_split P e w (sndPcmStart e w).2
  | stop (st : PcmState) {w : PcmWorld} (ho : w.chip.state e ≠ .open)
      (hd : w.chip.state e ≠ .disconnected)
      (hst : st = .setup ∨ st = .xrun ∨ st = .draining ∧ (w.chip.state e).isRunning e = true) :
      OtherStep urb_split P e w { w with chip := inState e st w.chip }
  | outcomes (usb : ℕ → Bool) (w : PcmWorld) : OtherStep urb_split P e w { w with usb := usb }

/-- A step of the other direction is one of the card. -/
theorem OtherStep.step {urb_split : ℤ} {P : ℕ} {e : Dir} {w w' : PcmWorld}
    (h : OtherStep urb_split P e w w') : PcmStep urb_split w w' := by
  cases h with
  | «open» _ h hs => exact .open e _ h hs
  | close hs => exact .close e hs
  | hwParams params h hs => exact .hwParams e params h hs
  | hwFree hs => exact .hwFree e hs
  | prepare ho hd hs => exact .prepare e ho hd hs
  | start hs => exact .start e hs
  | stop st ho hd hst => exact .stop e st ho hd hst
  | outcomes usb => exact .outcomes usb w

/-- The clock and the session are as `P` set them up through `d`, and its substream is as it was. -/
structure Kept (d : Dir) (k k' : Card) : Prop where
  rate : k'.chip.rate = k.chip.rate
  alt : k'.chip.alt = k.chip.alt
  frame_bytes : k'.chip.frame_bytes = k.chip.frame_bytes
  urb_frames : k'.chip.urb_frames = k.chip.urb_frames
  urbs_active : k'.chip.urbs_active = k.chip.urbs_active
  session_dir : k'.chip.session_dir = k.chip.session_dir
  live : k.chip.streaming = true → k'.chip.streaming = true
  state : k'.state d = k.state d
  runtime : k'.runtime d = k.runtime d
  stream_setup : k'.chip.stream_setup d = k.chip.stream_setup d
  owner : k'.chip.owner d = k.chip.owner d

/-- Nothing happens to the session. -/
theorem Kept.refl (d : Dir) (k : Card) : Kept d k k :=
  ⟨rfl, rfl, rfl, rfl, rfl, rfl, id, rfl, rfl, rfl, rfl⟩

/-- Nor by two parts that keep it. -/
theorem Kept.trans {d : Dir} {k k₁ k' : Card} (h : Kept d k k₁) (h' : Kept d k₁ k') :
    Kept d k k' :=
  ⟨h'.rate.trans h.rate, h'.alt.trans h.alt, h'.frame_bytes.trans h.frame_bytes,
    h'.urb_frames.trans h.urb_frames, h'.urbs_active.trans h.urbs_active,
    h'.session_dir.trans h.session_dir, fun hl => h'.live (h.live hl), h'.state.trans h.state,
    h'.runtime.trans h.runtime, h'.stream_setup.trans h.stream_setup, h'.owner.trans h.owner⟩

/-- What keeps the parameters keeps what `P` set up. -/
theorem Kept.of_setting {d : Dir} {k k' : Card} (h : k'.setting = k.setting)
    (hlive : k.chip.streaming = true → k'.chip.streaming = true) : Kept d k k' := by
  obtain ⟨hstream, hrest⟩ := Prod.ext_iff.mp h
  obtain ⟨hstate, hruntime⟩ := Prod.ext_iff.mp hrest
  have hfield : ∀ {α : Type} (f : Stream → α), f k'.chip.toStream.setting =
      f k.chip.toStream.setting := fun f => congrArg f hstream
  exact ⟨hfield Stream.rate, hfield Stream.alt, hfield Stream.frame_bytes,
    hfield Stream.urb_frames, hfield Stream.urbs_active, hfield Stream.session_dir, hlive,
    congrFun hstate d, congrFun hruntime d, congrFun (hfield Stream.stream_setup) d,
    congrFun (hfield Stream.owner) d⟩

/-- The other application's hw_params, while `d` is held: refused with nothing done, or accepted with the
session as it was. -/
theorem babyfacePcmHwParams_held (urb_split : ℤ) {d : Dir} (params : Runtime) {w : PcmWorld}
    (hheld : bfOtherHoldsClock w.chip.chip d.other = true) :
    (∃ e, babyfacePcmHwParams urb_split d.other params w = (.error e, w)) ∨
      ∃ w', babyfacePcmHwParams urb_split d.other params w = (.ok (), w') ∧
        w'.chip = setUp d.other w.chip := by
  rcases babyfacePcmHwParams_cases urb_split d.other params w with
    ⟨w', hrun, hacc, _⟩ | ⟨e, hrun, _⟩ | ⟨_, _, hfree, _⟩
  · refine Or.inr ⟨w', hrun, ?_⟩
    -- Accepted while the clock is held: the rate is the one that is set, and nothing was chosen.
    obtain ⟨r, new, k₁, _, _, hrated, hcases⟩ := hacc.accepted
    have hsame := hrated.held d.other
    rw [hheld] at hsame
    rcases hcases with ⟨_, _, hk⟩ | ⟨hfree, _⟩
    · cases hrated with
      | same => exact hk
      | new _ hfree =>
        rw [hheld] at hfree
        cases hfree
    · rw [hsame] at hfree
      cases hfree
  · exact Or.inl ⟨e, hrun⟩
  · rw [hheld] at hfree
    cases hfree

/-- The other direction is set up on it. -/
theorem setUp_kept (d : Dir) (k : Card) : Kept d k (setUp d.other k) := by
  have hne : d ≠ d.other := d.other_ne.symm
  unfold setUp
  split
  · exact .refl d k
  · exact ⟨rfl, rfl, rfl, rfl, rfl, rfl, id, rfl, rfl, Function.update_of_ne hne .., rfl⟩

/-- Or it changes its state. -/
theorem inState_kept (d : Dir) (st : PcmState) (k : Card) : Kept d k (inState d.other st k) := by
  have hne : d ≠ d.other := d.other_ne.symm
  exact ⟨rfl, rfl, rfl, rfl, rfl, rfl, id, Function.update_of_ne hne .., rfl, rfl, rfl⟩

/-- The release of the other direction leaves a session that `d` uses. -/
theorem freed_kept {d : Dir} {k : Card} (h : PcmInv k) (hd : k.chip.stream_setup d = true) :
    Kept d k (freed d.other k) := by
  have hne : d ≠ d.other := d.other_ne.symm
  unfold freed
  split
  · rename_i hother
    have husers := h.geometry.users
    have htwo : k.chip.stream_users = 2 := by
      rw [husers]
      cases d <;> simp_all [Dir.other]
    dsimp only
    rw [htwo, if_neg (by simp)]
    exact ⟨rfl, rfl, rfl, rfl, rfl, rfl, id, rfl, rfl, Function.update_of_ne hne .., rfl⟩
  · exact .refl d k

/-- An hw_free leaves who owns the session. -/
theorem freed_owner (e : Dir) (k : Card) : (freed e k).chip.owner = k.chip.owner := by
  unfold freed
  split
  · dsimp only
    split <;> rfl
  · rfl

/-- So does a set-up. -/
theorem setUp_owner (e : Dir) (k : Card) : (setUp e k).chip.owner = k.chip.owner := by
  unfold setUp
  split <;> rfl

/-- The hw_free of the other direction keeps the session of one that is set up. -/
theorem sndPcmHwFree_kept {d : Dir} {w : PcmWorld} (h : PcmInv w.chip)
    (hd : w.chip.chip.stream_setup d = true) :
    Kept d w.chip (sndPcmHwFree d.other w).2.chip ∧
      (sndPcmHwFree d.other w).2.chip.chip.owner = w.chip.chip.owner := by
  unfold sndPcmHwFree
  rw [Bus.M.bind_of_ok (babyfacePcmHwFree_run d.other w)]
  exact ⟨(freed_kept h hd).trans (inState_kept d .open _), freed_owner d.other w.chip⟩

/-- One step of the others keeps what `P` set up, and leaves it its hold on the clock. -/
theorem OtherStep.kept {urb_split : ℤ} {P : ℕ} {d : Dir} {w w' : PcmWorld}
    (hs : OtherStep urb_split P d.other w w') (hinv : PcmInv w.chip) (hP : 0 < P)
    (hset : w.chip.chip.stream_setup d = true) (howner : w.chip.chip.owner d = P)
    (hother : w.chip.chip.owner d.other ≠ P) :
    Kept d w.chip w'.chip ∧ w'.chip.chip.owner d.other ≠ P := by
  have hne : d ≠ d.other := d.other_ne.symm
  -- The owner of the other direction is someone else, so each step runs with the clock held.
  have hheld : bfOtherHoldsClock w.chip.chip d.other = true := by
    simp only [bfOtherHoldsClock, Dir.other_other, hset, howner, Bool.true_and, decide_eq_true_eq]
    exact hother.symm
  cases hs with
  | «open» hpid _ _ =>
    refine ⟨⟨rfl, rfl, rfl, rfl, rfl, rfl, id, rfl, rfl, rfl, Function.update_of_ne hne ..⟩, ?_⟩
    exact (Function.update_self ..).trans_ne hpid
  | close _ =>
    refine ⟨⟨rfl, rfl, rfl, rfl, rfl, rfl, id, rfl, rfl, rfl, Function.update_of_ne hne ..⟩, ?_⟩
    exact (Function.update_self ..).trans_ne hP.ne
  | hwParams params _ _ =>
    unfold sndPcmHwParams
    rcases babyfacePcmHwParams_held urb_split params hheld with
      ⟨e, hrun⟩ | ⟨w₁, hrun, hk⟩
    · rw [hrun]
      obtain ⟨hkept, hown⟩ := sndPcmHwFree_kept hinv hset
      exact ⟨hkept, (congrFun hown d.other).trans_ne hother⟩
    · rw [hrun]
      have hparams : Kept d w₁.chip (withParams d.other params w₁.chip) :=
        ⟨rfl, rfl, rfl, rfl, rfl, rfl, id, Function.update_of_ne hne .., Function.update_of_ne hne ..,
          rfl, rfl⟩
      rw [hk] at hparams
      refine ⟨(setUp_kept d w.chip).trans (hk ▸ hparams), ?_⟩
      show w₁.chip.chip.owner d.other ≠ P
      rw [hk, setUp_owner]
      exact hother
  | hwFree _ =>
    obtain ⟨hkept, hown⟩ := sndPcmHwFree_kept hinv hset
    exact ⟨hkept, (congrFun hown d.other).trans_ne hother⟩
  | prepare _ _ _ =>
    unfold sndPcmPrepare
    rcases babyfacePcmPrepare_cases d.other w with
      ⟨e, hrun, _⟩ | ⟨_, _, ⟨e, w₁, hrun, _, hidle, hkeep, _⟩ | ⟨w₁, hrun, hkeep, hlive⟩⟩
    · rw [Bus.M.bind_of_error hrun]
      exact ⟨.refl d w.chip, hother⟩
    · -- Only a session that did not run is started, and so killed by its failure.
      rw [Bus.M.bind_of_error hrun]
      have hkept : Kept d w.chip w₁.chip := .of_setting hkeep fun hs => by
        rw [hidle] at hs
        cases hs
      exact ⟨hkept, (congrFun (congrArg (fun s => s.1.owner) hkeep) d.other).trans_ne hother⟩
    · rw [Bus.M.bind_of_ok hrun]
      have hkept : Kept d w.chip w₁.chip := .of_setting hkeep fun _ => hlive
      exact ⟨hkept.trans (inState_kept d .prepared _),
        (congrFun (congrArg (fun s => s.1.owner) hkeep) d.other).trans_ne hother⟩
  | start _ =>
    unfold sndPcmStart
    rcases babyfacePcmStart_cases d.other w with hrun | ⟨hrun, _, _⟩
    · rw [Bus.M.bind_of_error hrun]
      exact ⟨.refl d w.chip, hother⟩
    · rw [Bus.M.bind_of_ok hrun]
      have hreset : Kept d w.chip (ptrReset d.other w.chip) :=
        ⟨rfl, rfl, rfl, rfl, rfl, rfl, id, rfl, rfl, rfl, rfl⟩
      exact ⟨hreset.trans (inState_kept d .running _), hother⟩
  | stop st _ _ _ => exact ⟨inState_kept d st w.chip, hother⟩
  | outcomes => exact ⟨.refl d w.chip, hother⟩

/-- While `P` holds the clock through `d`, nothing that others do with the other direction changes the
rate or the session, stops it or `P`'s substream, and each of their hw_params is refused with nothing
done or accepted with the session as it was. Two directions of one owner are never refused each other's
rate as busy. -/
theorem clock_holder {p : Params} {w : PcmWorld} (h : PcmReachable p w) (d : Dir) :
    (∀ P, 0 < P → w.chip.chip.stream_setup d = true → w.chip.chip.owner d = P →
      w.chip.chip.owner d.other ≠ P →
      ∀ w', Relation.ReflTransGen (OtherStep p.urb_split P d.other) w w' →
        Kept d w.chip w'.chip ∧
        ∀ params, (∃ e, babyfacePcmHwParams p.urb_split d.other params w' = (.error e, w')) ∨
          ∃ w'', babyfacePcmHwParams p.urb_split d.other params w' = (.ok (), w'') ∧
            Kept d w.chip w''.chip) ∧
    (w.chip.chip.owner d = w.chip.chip.owner d.other →
      ∀ params, (babyfacePcmHwParams p.urb_split d params w).1 ≠ .error .ebusy) := by
  refine ⟨fun P hP hset howner hother w' hrun => ?_, fun hsame params => ?_⟩
  -- By induction on the run of the others: each step keeps what the holder set up and that another owns the
  -- other direction.
  · have hkeep : Kept d w.chip w'.chip ∧ w'.chip.chip.owner d.other ≠ P ∧ PcmInv w'.chip := by
      induction hrun with
      | refl => exact ⟨.refl d w.chip, hother, h.inv⟩
      | tail _ hstep ih =>
        obtain ⟨hkept, hown, hinv⟩ := ih
        obtain ⟨hkept', hown'⟩ := hstep.kept hinv hP (hkept.stream_setup.trans hset)
          (hkept.owner.trans howner) hown
        exact ⟨hkept.trans hkept', hown', hstep.step.inv hinv⟩
    obtain ⟨hkept, hown, _⟩ := hkeep
    refine ⟨hkept, fun params => ?_⟩
    -- The hold survives the run, so the next hw_params is judged as the first.
    have hheld : bfOtherHoldsClock w'.chip.chip d.other = true := by
      simp only [bfOtherHoldsClock, Dir.other_other, hkept.stream_setup.trans hset,
        hkept.owner.trans howner, Bool.true_and, decide_eq_true_eq]
      exact hown.symm
    rcases babyfacePcmHwParams_held p.urb_split params hheld with
      hrefused | ⟨w'', hok, hk⟩
    · exact Or.inl hrefused
    · refine Or.inr ⟨w'', hok, hkept.trans ?_⟩
      rw [hk]
      exact setUp_kept d w'.chip
  -- With one owner no other application holds the clock, which is what the refusal rests on.
  · have hfree : bfOtherHoldsClock w.chip.chip d = false := by
      simp [bfOtherHoldsClock, hsame]
    rcases babyfacePcmHwParams_cases p.urb_split d params w with
      ⟨_, hrun, _⟩ | ⟨e, hrun, hwhy⟩ | ⟨_, hrun, _⟩ <;> rw [hrun]
    · exact fun he => by cases he
    · rintro ⟨⟩
      cases hwhy with
      | held _ hheld _ =>
        rw [hfree] at hheld
        cases hheld
    · exact fun he => by cases he

/-- A capture substream that process 8 opens leaves the session of process 7 as it is. -/
theorem clock_holder_set_up :
    Kept .playback playbackSetUp.chip (babyfacePcmOpen .capture 8 playbackSetUp).2.chip :=
  ((clock_holder playbackSetUp_reachable .playback).1 7 (by decide) rfl rfl (by decide) _
    (.single (.open (by decide) rfl rfl))).1

end BabyfacePro
