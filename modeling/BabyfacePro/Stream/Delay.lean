import BabyfacePro.Stream.Queue

/-!
# The delay that the pointer reports

`bf_delay`, and the time line of a capture substream that an application reads from it: the frames of
`hw_ptr` and the delay together. A completed IN URB moves that line in two sections under the lock of
the chip, the time stamp first and the copy later, and a call of pointer() may fall between them.

`capture_time_line` says which runs never lead back; `capture_time_back` is a run that does.
-/

namespace BabyfacePro

/-! ## The delay -/

/-- The fixed delays inside the device, in frames. -/
structure DeviceDelay where
  playback : ℕ
  capture : ℕ

/-- `bf_device_delay`, by the speed. -/
def bfDeviceDelay (alt : ℕ) : DeviceDelay :=
  if alt = BF_ALT_1 then ⟨40, 16⟩
  else if alt = BF_ALT_2 then ⟨72, 24⟩
  else if alt = BF_ALT_3 then ⟨136, 38⟩
  else ⟨0, 0⟩

/-- The frames of `bf_delay` that have passed in `ns` since the last IN URB, at most one URB. The
product is one of 64 bits. -/
def bfMoved (rate urb : ℕ) (ns : ℤ) : ℕ :=
  if 0 < ns then min (ns.toNat * rate % 2 ^ 64 / 1000000000) urb else 0

/-- The value of `bf_delay`, before it is cut to an `unsigned int`. -/
def bfDelayFrames (d : Dir) (rate : ℕ) (ns : ℤ) (c : Chip) : ℤ :=
  let moved := bfMoved rate c.urb_frames ns
  match d with
  | .capture => moved + (bfDeviceDelay c.alt).capture
  | .playback =>
    if c.out_inflight < 2 then 0
    else (c.out_inflight - 1) * c.urb_frames - moved + (bfDeviceDelay c.alt).playback

/-- `bf_delay`, `ns` after the last IN URB. -/
def bfDelay (d : Dir) (rate : ℕ) (ns : ℤ) (c : Chip) : ℕ := (bfDelayFrames d rate ns c % 2 ^ 32).toNat

section Delay

variable (rate : ℕ) (ns : ℤ) (c : Chip)

/-- What a URB is taken to have moved is at most all of it. -/
theorem bfMoved_le (urb : ℕ) : bfMoved rate urb ns ≤ urb := by
  unfold bfMoved
  split
  · exact min_le_right _ _
  · exact Nat.zero_le _

/-- Nothing is taken from an empty queue: `bf_delay` does not wrap below zero. -/
theorem bfDelayFrames_nonneg (d : Dir) : 0 ≤ bfDelayFrames d rate ns c := by
  have hmoved := bfMoved_le rate ns c.urb_frames
  cases d with
  | capture =>
    show (0 : ℤ) ≤ bfMoved rate c.urb_frames ns + (bfDeviceDelay c.alt).capture
    omega
  | playback =>
    show (0 : ℤ) ≤ (if c.out_inflight < 2 then 0
      else (c.out_inflight - 1) * c.urb_frames - bfMoved rate c.urb_frames ns +
        (bfDeviceDelay c.alt).playback : ℤ)
    split
    · exact le_refl 0
    · rename_i htwo
      have hqueue : (c.urb_frames : ℤ) ≤ (c.out_inflight - 1) * c.urb_frames :=
        le_mul_of_one_le_left (Int.natCast_nonneg _) (by omega)
      omega

/-- The delay of the device is at most 38 frames. -/
theorem bfDeviceDelay_le (alt : ℕ) : (bfDeviceDelay alt).capture ≤ 38 := by
  unfold bfDeviceDelay
  split_ifs <;> decide

/-- The delay of a capture substream is small. -/
theorem bfDelay_capture (hurb : c.urb_frames ≤ 1024) :
    bfDelay .capture rate ns c = bfMoved rate c.urb_frames ns + (bfDeviceDelay c.alt).capture := by
  have hmoved := bfMoved_le rate ns c.urb_frames
  have hdevice := bfDeviceDelay_le c.alt
  unfold bfDelay
  show ((bfMoved rate c.urb_frames ns + (bfDeviceDelay c.alt).capture : ℤ) % 2 ^ 32).toNat = _
  omega

end Delay

/-! ## The time line -/

/-- The substreams with the clock, and with what the driver and an application keep of the time. -/
structure Timeline where
  world : PcmWorld
  /-- The ring of the capture substream. -/
  area : Mem
  /-- `ktime_get`, in ns. -/
  now : ℤ
  in_done : ℤ := 0
  /-- The IN URB whose handler has stamped the time, and has not come to its copy yet. -/
  handling : Option InUrb := none
  /-- What the calls of pointer() showed since the stream runs, oldest first. -/
  seen : List ℕ := []

namespace Timeline

/-- The driver's state. -/
abbrev chip (q : Timeline) : Chip := q.world.chip.chip

/-- The parameters of the capture substream. -/
abbrev rt (q : Timeline) : Runtime := q.world.chip.runtime .capture

/-- The capture substream runs. -/
def capturing (w : PcmWorld) : Bool :=
  w.chip.chip.subs .capture && (w.chip.state .capture).isRunning .capture

/-- The capture substream runs on a session. -/
def recording (w : PcmWorld) : Bool := w.chip.chip.streaming && capturing w

/-- A new state of the driver. -/
def withChip (q : Timeline) (c : Chip) : Timeline :=
  { q with world := { q.world with chip := { q.world.chip with chip := c } } }

/-- `babyface_complete_in` for a URB of status 0, up to its time stamp. -/
def stamp (urb : InUrb) (q : Timeline) : Timeline :=
  { q.withChip (babyfaceUrbOk q.chip) with in_done := q.now, handling := some urb }

/-- The rest of `babyface_complete_in`, up to its resubmission. -/
def copy (w : ℕ) (urb : InUrb) (q : Timeline) : Timeline :=
  let (_, c, area) := babyfaceCaptureUrb w (capturing q.world) q.rt urb q.chip q.area
  { q.withChip c with area := area, handling := none }

/-- `hw_ptr` and the delay that `babyface_pcm_pointer` reports beside it. -/
def reported (q : Timeline) : ℕ :=
  q.chip.hw_ptr .capture + bfDelay .capture q.rt.rate (q.now - q.in_done) q.chip

/-- The substreams after a step of the driver or of the PCM core. `babyface_stream_start` stamps the
time, and the application starts anew with each stream. -/
def stepped (w : PcmWorld) (q : Timeline) : Timeline :=
  { q with
    world := w
    in_done := if !q.chip.streaming && w.chip.chip.streaming then q.now else q.in_done
    seen := if recording w then q.seen else [] }

end Timeline

/-- What may happen next to a capture substream. -/
inductive TimeAct where
  /-- Time passes. -/
  | tick (now : ℤ)
  /-- A good IN URB completes: the first section. -/
  | stamp (urb : InUrb)
  /-- The second section. -/
  | copy
  /-- The application, or the PCM core for it, asks for the position. -/
  | pointer
  /-- What the rest of the driver and the PCM core do. -/
  | rest (w : PcmWorld)

/-- When an action may happen. The handlers of the IN URBs run one at a time, and only they move
`hw_ptr` while the stream runs; a session is started once the handlers of the last one are done. -/
def TimeAct.enabled (urb_split : ℤ) (q : Timeline) : TimeAct → Prop
  | .tick now => q.now ≤ now
  | .stamp urb => q.handling = none ∧ urb.actual_length = q.chip.frame_bytes * q.chip.urb_frames
  | .copy => q.handling.isSome
  | .pointer => Timeline.recording q.world = true
  | .rest w => PcmStep urb_split q.world w ∧
      (Timeline.recording q.world = true → w.chip.chip.hw_ptr .capture = q.chip.hw_ptr .capture) ∧
      (q.chip.streaming = false → w.chip.chip.streaming = true → q.handling = none)

/-- What an action does; the word of `hw_ptr` has `w` bits. -/
def Timeline.act (w : ℕ) (q : Timeline) : TimeAct → Timeline
  | .tick now => { q with now := now }
  | .stamp urb => q.stamp urb
  | .copy => q.handling.elim q (q.copy w ·)
  | .pointer => { q with seen := q.seen ++ [q.reported] }
  | .rest w' => q.stepped w'

/-- The steps whose actions all meet a condition. -/
def TimeStep (urb_split : ℤ) (w : ℕ) (ok : Timeline → TimeAct → Prop) (q q' : Timeline) : Prop :=
  ∃ a : TimeAct, a.enabled urb_split q ∧ ok q a ∧ q' = q.act w a

/-- The runs of such steps. -/
abbrev TimeSteps (urb_split : ℤ) (w : ℕ) (ok : Timeline → TimeAct → Prop) :
    Timeline → Timeline → Prop :=
  Relation.ReflTransGen (TimeStep urb_split w ok)

/-- A card after its probe with the parameters `p`. -/
structure Timeline.Fresh (p : Params) (q : Timeline) : Prop where
  world : FreshPcm p q.world
  handling : q.handling = none
  seen : q.seen = []

/-- The steps that keep the time: no call of pointer() falls between the two sections of a URB, or comes
so late after the last one that the product of `bf_delay` leaves its 64 bits; and no URB takes
`hw_ptr` past its word. -/
def KeepsTime (w : ℕ) (q : Timeline) : TimeAct → Prop
  | .pointer => q.handling = none ∧ (q.now - q.in_done).toNat * q.rt.rate < 2 ^ 64
  | .copy => Timeline.recording q.world = true →
      q.chip.hw_ptr .capture + q.chip.urb_frames < 2 ^ w
  | _ => True

/-! ## What a step leaves of the session -/

/-- What a session counts its URBs by. -/
def Card.counting (k : Card) : ℕ × ℕ × ℕ := (k.chip.urb_frames, k.chip.alt, k.chip.frame_bytes)

/-- The two cards count their URBs alike, for substreams with the same parameters. -/
def SameCount (k k' : Card) : Prop := k'.counting = k.counting ∧ k'.runtime = k.runtime

section Session

variable {urb_split : ℤ}

/-- The counts depend on the setting of the card only. -/
theorem SameCount.of_setting {k k' : Card} (h : k'.setting = k.setting) : SameCount k k' :=
  ⟨congrArg (fun x : Stream × (Dir → PcmState) × (Dir → Runtime) =>
    (x.1.urb_frames, x.1.alt, x.1.frame_bytes)) h, congrArg (fun x => x.2.2) h⟩

/-- Two changes that leave the counts. -/
theorem SameCount.trans {k k₁ k' : Card} (h : SameCount k k₁) (h' : SameCount k₁ k') :
    SameCount k k' :=
  ⟨h'.1.trans h.1, h'.2.trans h.2⟩

/-- An hw_free leaves them. -/
theorem freed_sameCount (d : Dir) (k : Card) :
    SameCount k (freed d k) ∧ ((freed d k).chip.streaming = true → k.chip.streaming = true) := by
  unfold freed
  split
  · dsimp only
    split
    · exact ⟨⟨rfl, rfl⟩, fun hlive => by cases hlive⟩
    · exact ⟨⟨rfl, rfl⟩, id⟩
  · exact ⟨⟨rfl, rfl⟩, id⟩

/-- So does the core's. -/
theorem sndPcmHwFree_sameCount (d : Dir) (w : PcmWorld) :
    SameCount w.chip (sndPcmHwFree d w).2.chip ∧
      ((sndPcmHwFree d w).2.chip.chip.streaming = true → w.chip.chip.streaming = true) := by
  unfold sndPcmHwFree
  rw [Bus.M.bind_of_ok (babyfacePcmHwFree_run d w)]
  exact freed_sameCount d w.chip

/-- A session that stopped does not run. -/
theorem sessionStopped_idle (k : Card) : (sessionStopped k).chip.streaming = false :=
  congrArg Stream.streaming (sessionStopped_stream k)

/-- A substream that is set up leaves the counts and the session. -/
theorem setUp_sameCount (d : Dir) (k : Card) :
    SameCount k (setUp d k) ∧ (setUp d k).chip.streaming = k.chip.streaming := by
  unfold setUp
  split
  · exact ⟨⟨rfl, rfl⟩, rfl⟩
  · exact ⟨⟨rfl, rfl⟩, rfl⟩

/-- A choice of the URBs stops the session, or leaves them as they are. -/
theorem chooseUrbs_sameCount (d : Dir) (r : BfRate) (urb period : ℕ) (new : Bool) (k : Card) :
    (chooseUrbs urb_split d r urb period new k).chip.streaming = false ∨
      SameCount k (chooseUrbs urb_split d r urb period new k) ∧
        (chooseUrbs urb_split d r urb period new k).chip.streaming = k.chip.streaming := by
  unfold chooseUrbs
  split
  · dsimp only
    split
    · exact Or.inl (sessionStopped_idle k)
    · exact Or.inr ⟨⟨rfl, rfl⟩, rfl⟩
  · exact Or.inr ⟨⟨rfl, rfl⟩, rfl⟩

/-- A hw_params that leaves the session running leaves its URBs as they are. -/
theorem Accepted.sameCount {d : Dir} {params : Runtime} {k k' : Card}
    (h : Accepted urb_split d params k k') (hlive : k'.chip.streaming = true) : SameCount k k' := by
  obtain ⟨r, new, k₁, -, -, hrated, hcases⟩ := h.accepted
  -- A new rate has stopped the session, and nothing in hw_params starts one.
  have hrate : k₁.chip.streaming = true → SameCount k k₁ := by
    intro hlive₁
    cases hrated with
    | same => exact ⟨rfl, rfl⟩
    | new _ _ hstream =>
      have hidle := congrArg Stream.streaming hstream
      have hidle : k₁.chip.streaming = (sessionStopped k).chip.streaming := hidle
      rw [hidle, sessionStopped_idle] at hlive₁
      exact absurd hlive₁ Bool.false_ne_true
  rcases hcases with ⟨-, -, rfl⟩ | ⟨-, rfl⟩
  · rw [(setUp_sameCount d k₁).2] at hlive
    exact (hrate hlive).trans (setUp_sameCount d k₁).1
  · rw [(setUp_sameCount d _).2] at hlive
    rcases @chooseUrbs_sameCount urb_split d r
      (bfUrbFrames urb_split k.chip r params.period_size) params.period_size new k₁ with
      hidle | ⟨hsame, hkept⟩
    · rw [hidle] at hlive
      exact absurd hlive Bool.false_ne_true
    · rw [hkept] at hlive
      exact ((hrate hlive).trans hsame).trans (setUp_sameCount d _).1

/-- A step after which the session runs has left its URBs as they were, and the parameters of a capture
substream that ran. -/
theorem PcmStep.counting {w w' : PcmWorld} (h : PcmStep urb_split w w')
    (hlive : w'.chip.chip.streaming = true) :
    w'.chip.counting = w.chip.counting ∧
      ((w.chip.state .capture).isRunning .capture = true →
        w'.chip.runtime .capture = w.chip.runtime .capture) := by
  -- All that counts are the URBs and the parameters of the capture.
  have hkept : ∀ {k k' : Card}, SameCount k k' → k'.counting = k.counting ∧
      ((k.state .capture).isRunning .capture = true → k'.runtime .capture = k.runtime .capture) :=
    fun hsame => ⟨hsame.1, fun _ => congrFun hsame.2 .capture⟩
  cases h with
  | hwParams d params _ hs =>
    unfold sndPcmHwParams at hlive ⊢
    rcases babyfacePcmHwParams_cases urb_split d params w with
      ⟨w₁, hok, hacc, -⟩ | ⟨e, herr, -⟩ | ⟨w₁, herr, -, hstop, -⟩
    -- An accepted hw_params under a session that runs on did not choose the URBs again.
    · rw [hok] at hlive ⊢
      obtain ⟨hsame, hruntime⟩ := hacc.sameCount hlive
      refine ⟨hsame, fun hrun => ?_⟩
      cases d with
      | playback =>
        show Function.update w₁.chip.runtime .playback params .capture = _
        rw [Function.update_of_ne (by decide), hruntime]
      -- The parameters of a capture are not changed while it runs.
      | capture => rcases hs with hs | hs | hs <;> rw [hs] at hrun <;> cases hrun
    · rw [herr]
      exact hkept (sndPcmHwFree_sameCount d w).1
    -- The switch failed, so the session was stopped and does not run on.
    · rw [herr] at hlive
      have hlive₁ := (sndPcmHwFree_sameCount d w₁).2 hlive
      rw [hstop, sessionStopped_idle] at hlive₁
      exact absurd hlive₁ Bool.false_ne_true
  | hwFree d _ => exact hkept (sndPcmHwFree_sameCount d w).1
  | prepare d _ _ _ =>
    unfold sndPcmPrepare
    rcases babyfacePcmPrepare_cases d w with
      ⟨e, hfail, -⟩ | ⟨-, -, ⟨e, w₁, hfail, -, -, hset, -⟩ | ⟨w₁, hok, hset, -⟩⟩
    -- A prepare leaves the URBs as hw_params set them, whether it starts the session or not.
    · rw [Bus.M.bind_of_error hfail]
      exact ⟨rfl, fun _ => rfl⟩
    · rw [Bus.M.bind_of_error hfail]
      exact hkept (.of_setting hset)
    · rw [Bus.M.bind_of_ok hok]
      exact hkept ((SameCount.of_setting hset).trans ⟨rfl, rfl⟩)
  | start d _ =>
    unfold sndPcmStart
    rcases babyfacePcmStart_cases d w with hfail | ⟨hok, -, -⟩
    · rw [Bus.M.bind_of_error hfail]
      exact ⟨rfl, fun _ => rfl⟩
    · rw [Bus.M.bind_of_ok hok]
      exact ⟨rfl, fun _ => rfl⟩
  -- What ends the session leaves its setting.
  | work =>
    rw [babyfaceStreamWork_run]
    unfold killedLive
    split_ifs <;> exact ⟨rfl, fun _ => rfl⟩
  | kill =>
    rw [killSection_run]
    unfold killedLive
    split <;> exact ⟨rfl, fun _ => rfl⟩
  | rest c hc =>
    exact ⟨congrArg (fun s : Stream => (s.urb_frames, s.alt, s.frame_bytes)) hc, fun _ => rfl⟩
  | _ => exact ⟨rfl, fun _ => rfl⟩

end Session

/-! ## What a step leaves of the time -/

/-- The frames since the last time stamp, at most a URB. -/
def Timeline.elapsed (q : Timeline) : ℕ :=
  min ((q.now - q.in_done).toNat * q.rt.rate / 1000000000) q.chip.urb_frames

/-- The frames that an application may have seen: a URB whose handler has not copied it counts whole. -/
def Timeline.reach (q : Timeline) : ℕ :=
  q.chip.hw_ptr .capture + (if q.handling.isSome then q.chip.urb_frames else q.elapsed) +
    (bfDeviceDelay q.chip.alt).capture

/-- What holds at every time: a URB in the hands of its handler is full, and what was seen never went
back and is within reach. -/
structure Timed (q : Timeline) : Prop where
  inv : PcmInv q.world.chip
  full : q.chip.streaming = true → ∀ urb, q.handling = some urb →
    urb.actual_length = q.chip.frame_bytes * q.chip.urb_frames
  idle : Timeline.recording q.world = false → q.seen = []
  sorted : q.seen.Pairwise (· ≤ ·)
  seen_le : ∀ s ∈ q.seen, s ≤ q.reach

section Timed

variable {urb_split : ℤ} {w : ℕ} {q : Timeline}

/-- What has elapsed since the last URB is at most one URB. -/
theorem Timeline.elapsed_le (q : Timeline) : q.elapsed ≤ q.chip.urb_frames := min_le_right _ _

/-- While the product fits its 64 bits, `bf_delay` counts the frames that have elapsed. -/
theorem bfMoved_eq {rate urb : ℕ} {ns : ℤ} (hfit : ns.toNat * rate < 2 ^ 64) :
    bfMoved rate urb ns = min (ns.toNat * rate / 1000000000) urb := by
  unfold bfMoved
  split
  · rw [Nat.mod_eq_of_lt hfit]
  · rename_i hpast
    have hzero : ns.toNat = 0 := Int.toNat_of_nonpos (not_lt.mp hpast)
    simp [hzero]

/-- A URB has at most 1024 frames. -/
theorem Geometry.urb_frames_le {s : Stream} (h : Geometry s) : s.urb_frames ≤ 1024 :=
  h.urb_frames.2.trans h.clamped.frames_per_urb.2.1

/-- Outside a handler, pointer() shows the reach. -/
theorem Timed.reported (h : Timed q) (hnone : q.handling = none)
    (hfit : (q.now - q.in_done).toNat * q.rt.rate < 2 ^ 64) : q.reported = q.reach := by
  rw [Timeline.reported, Timeline.reach, Timeline.elapsed,
    bfDelay_capture _ _ _ h.inv.geometry.urb_frames_le, bfMoved_eq hfit, hnone]
  exact (Nat.add_assoc _ _ _).symm

/-- A state whose reach is no less, with the same things seen. -/
theorem Timed.onward (h : Timed q) {q' : Timeline} (hinv : PcmInv q'.world.chip)
    (hfull : q'.chip.streaming = true → ∀ urb, q'.handling = some urb →
      urb.actual_length = q'.chip.frame_bytes * q'.chip.urb_frames)
    (hrec : Timeline.recording q'.world = Timeline.recording q.world) (hseen : q'.seen = q.seen)
    (hreach : Timeline.recording q.world = true → q.reach ≤ q'.reach) : Timed q' where
  inv := hinv
  full := hfull
  idle hidle := by
    rw [hseen]
    exact h.idle (hrec ▸ hidle)
  sorted := by
    rw [hseen]
    exact h.sorted
  seen_le s hs := by
    rw [hseen] at hs
    -- Where nothing is recording nothing has been seen.
    cases hlive : Timeline.recording q.world with
    | false =>
      rw [h.idle hlive] at hs
      exact absurd hs List.not_mem_nil
    | true => exact (h.seen_le s hs).trans (hreach hlive)

/-- Time passes. -/
theorem Timed.tick (h : Timed q) {now : ℤ} (hnow : q.now ≤ now) : Timed { q with now := now } := by
  refine h.onward h.inv h.full rfl rfl fun _ => ?_
  have htime : (q.now - q.in_done).toNat ≤ (now - q.in_done).toNat := by omega
  have helapsed : q.elapsed ≤ Timeline.elapsed { q with now := now } :=
    min_le_min_right _ (Nat.div_le_div_right (Nat.mul_le_mul_right _ htime))
  refine Nat.add_le_add_right (Nat.add_le_add_left ?_ _) _
  split
  · exact le_refl _
  · exact helapsed

/-- The time stamp alone takes nothing from the reach: the URB counts whole from now on. -/
theorem Timed.stamp (h : Timed q) {urb : InUrb} (hnone : q.handling = none)
    (hfull : urb.actual_length = q.chip.frame_bytes * q.chip.urb_frames) : Timed (q.stamp urb) := by
  obtain ⟨err, herr⟩ := babyfaceUrbOk_eq q.chip
  have hstamp : q.stamp urb =
      { q.withChip { q.chip with urb_err := err } with in_done := q.now, handling := some urb } := by
    rw [Timeline.stamp, herr]
  rw [hstamp]
  refine h.onward (h.inv.of_setting rfl h.inv.geometry.live h.inv.ready) ?_ rfl rfl fun _ => ?_
  · rintro - _ ⟨⟩
    exact hfull
  · refine Nat.add_le_add_right (Nat.add_le_add_left ?_ _) _
    rw [hnone, Option.isSome_none, if_neg Bool.false_ne_true]
    exact q.elapsed_le

/-- The frames of a full URB. -/
theorem Geometry.full_frames {s : Stream} (h : Geometry s) {urb : InUrb}
    (hfull : urb.actual_length = s.frame_bytes * s.urb_frames) :
    urb.actual_length / s.frame_bytes = s.urb_frames ∧ s.urb_frames ≠ 0 := by
  obtain ⟨r, hr, -, -, hbytes, -⟩ := h.rate
  have hpos : ∀ r ∈ bfRates, 0 < r.frame_bytes := by decide
  have hleast := h.clamped.urb_frames_min.1
  have hmin := h.urb_frames.1
  constructor
  · rw [hfull, Nat.mul_div_cancel_left _ (hbytes ▸ hpos r hr)]
  · omega

/-- The copy of a URB only moves the counters, by its frames. -/
theorem Timeline.copy_eq (w : ℕ) (urb : InUrb) (q : Timeline) :
    ∃ ptr period area, q.copy w urb =
        { q.withChip { q.chip with hw_ptr := ptr, prev_period := period } with
          area := area, handling := none } ∧
      (capturing q.world = true → urb.actual_length / q.chip.frame_bytes ≠ 0 → ptr .capture =
        (q.chip.hw_ptr .capture + urb.actual_length / q.chip.frame_bytes) % 2 ^ w) := by
  unfold copy babyfaceCaptureUrb
  -- A capture that does not run is not copied.
  cases hcap : capturing q.world with
  | false => exact ⟨q.chip.hw_ptr, q.chip.prev_period, q.area, rfl, nofun⟩
  | true =>
    rw [if_neg (by decide)]
    -- Nor is a URB of less than a frame.
    by_cases hzero : urb.actual_length / q.chip.frame_bytes = 0
    · rw [if_pos hzero]
      exact ⟨q.chip.hw_ptr, q.chip.prev_period, q.area, rfl, fun _ hne => absurd hzero hne⟩
    · rw [if_neg hzero]
      generalize urb.actual_length / q.chip.frame_bytes = n
      obtain ⟨ptr, period, hadvance⟩ := advance_eq w q.rt .capture n q.chip
      have hptr : (advance w q.rt .capture n q.chip).2.hw_ptr .capture =
          (q.chip.hw_ptr .capture + n) % 2 ^ w := by
        unfold advance
        dsimp only
        split <;> simp only [Function.update_self]
      rw [hadvance] at hptr
      simp only [babyfaceCaptureCopy, hadvance]
      exact ⟨ptr, period, _, rfl, fun _ _ => hptr⟩

/-- Recording is a session that runs, with a substream that captures. -/
theorem recording_eq_true {v : PcmWorld} :
    Timeline.recording v = true ↔ v.chip.chip.streaming = true ∧ Timeline.capturing v = true :=
  Bool.and_eq_true_iff

/-- The copy of a URB keeps the time of the frames that are left. -/
theorem Timed.copy (h : Timed q) {urb : InUrb} (hurb : q.handling = some urb)
    (hfit : Timeline.recording q.world = true →
      q.chip.hw_ptr .capture + q.chip.urb_frames < 2 ^ w) : Timed (q.copy w urb) := by
  obtain ⟨ptr, period, area, hcopy, hptr⟩ := Timeline.copy_eq w urb q
  rw [hcopy]
  refine h.onward (h.inv.of_setting rfl h.inv.geometry.live h.inv.ready) (fun _ _ => nofun) rfl rfl
    fun hrec => ?_
  obtain ⟨hlive, hcap⟩ := recording_eq_true.mp hrec
  obtain ⟨hframes, hpos⟩ := h.inv.geometry.full_frames (h.full hlive urb hurb)
  have hnext : ptr .capture = q.chip.hw_ptr .capture + q.chip.urb_frames := by
    rw [hptr hcap (hframes ▸ hpos), hframes, Nat.mod_eq_of_lt (hfit hrec)]
  refine Nat.add_le_add_right ?_ _
  calc q.chip.hw_ptr .capture + (if q.handling.isSome then q.chip.urb_frames else q.elapsed)
      = ptr .capture := by rw [hurb, hnext, Option.isSome_some, if_pos rfl]
    _ ≤ ptr .capture + _ := Nat.le_add_right _ _

/-- What is seen outside a handler is the furthest so far. -/
theorem Timed.pointer (h : Timed q) (hrec : Timeline.recording q.world = true)
    (hnone : q.handling = none) (hfit : (q.now - q.in_done).toNat * q.rt.rate < 2 ^ 64) :
    Timed { q with seen := q.seen ++ [q.reported] } where
  inv := h.inv
  full := h.full
  idle hidle := by
    rw [hrec] at hidle
    cases hidle
  sorted := by
    rw [h.reported hnone hfit, List.pairwise_append]
    refine ⟨h.sorted, List.pairwise_singleton _ _, fun s hs s' hs' => ?_⟩
    rw [List.mem_singleton.mp hs']
    exact h.seen_le s hs
  seen_le s hs := by
    rcases List.mem_append.mp hs with hold | hnew
    · exact h.seen_le s hold
    · rw [List.mem_singleton.mp hnew, h.reported hnone hfit]
      exact le_refl _

/-- A step of the driver or of the core keeps the stream and its reach, or ends or starts a stream. -/
theorem Timed.rest (h : Timed q) {v : PcmWorld} (hv : (TimeAct.rest v).enabled urb_split q) :
    Timed (q.stepped v) := by
  obtain ⟨hstep, hptr, hstart⟩ := hv
  have hfull : v.chip.chip.streaming = true → ∀ urb, q.handling = some urb →
      urb.actual_length = v.chip.chip.frame_bytes * v.chip.chip.urb_frames := by
    intro hlive urb hurb
    -- No handler is left from before the session.
    have hlive₀ : q.chip.streaming = true := by
      by_contra hidle
      rw [hstart (Bool.not_eq_true _ ▸ hidle) hlive] at hurb
      cases hurb
    have hcount := (hstep.counting hlive).1
    simp only [Card.counting, Prod.mk.injEq] at hcount
    rw [h.full hlive₀ urb hurb, hcount.1, hcount.2.2]
  -- Recording before and after: the reach can only have grown. Else what was seen is empty.
  by_cases hrec : Timeline.recording v = true ∧ Timeline.recording q.world = true
  · obtain ⟨hrec, hrec₀⟩ := hrec
    obtain ⟨hlive, -⟩ := recording_eq_true.mp hrec
    obtain ⟨hlive₀, hcap₀⟩ := recording_eq_true.mp hrec₀
    obtain ⟨hcount, hruntime⟩ := hstep.counting hlive
    simp only [Card.counting, Prod.mk.injEq] at hcount
    have hrt := hruntime (Bool.and_eq_true_iff.mp hcap₀).2
    refine h.onward (hstep.inv h.inv) hfull (hrec.trans hrec₀.symm) (if_pos hrec) fun _ => ?_
    -- The stamp of the last URB is renewed at the start of a session only.
    have hstamped : (q.stepped v).in_done = q.in_done := by
      show (if !q.chip.streaming && v.chip.chip.streaming then q.now else q.in_done) = q.in_done
      rw [hlive₀]
      rfl
    -- With the stamp, the rate and the URBs the same, so are the frames estimated since it.
    have helapsed : (q.stepped v).elapsed = q.elapsed := by
      unfold Timeline.elapsed
      rw [hstamped]
      show min ((q.now - q.in_done).toNat * (v.chip.runtime .capture).rate / _) v.chip.chip.urb_frames = _
      rw [hrt, hcount.1]
    unfold Timeline.reach
    rw [helapsed]
    show _ ≤ v.chip.chip.hw_ptr .capture + (if q.handling.isSome then v.chip.chip.urb_frames
      else q.elapsed) + (bfDeviceDelay v.chip.chip.alt).capture
    rw [hptr hrec₀, hcount.1, hcount.2.1]
  -- Before this stream nothing was seen, or the stream ends here.
  · have hseen : (q.stepped v).seen = [] := by
      show (if Timeline.recording v then q.seen else []) = []
      split
      · rename_i hrec'
        exact h.idle (by simpa using fun hrec₀ => hrec ⟨hrec', hrec₀⟩)
      · rfl
    refine ⟨hstep.inv h.inv, hfull, fun _ => hseen, ?_, ?_⟩
    · rw [hseen]
      exact List.Pairwise.nil
    · rw [hseen]
      exact fun _ hs => absurd hs List.not_mem_nil

/-- Every step that keeps the time keeps what was seen in order. -/
theorem Timed.act (h : Timed q) (a : TimeAct) (ha : a.enabled urb_split q) (hok : KeepsTime w q a) :
    Timed (q.act w a) := by
  cases a with
  | tick now => exact h.tick ha
  | stamp urb => exact h.stamp ha.1 ha.2
  | copy =>
    obtain ⟨urb, hurb⟩ := Option.isSome_iff_exists.mp ha
    rw [Timeline.act, hurb]
    exact h.copy hurb hok
  | pointer => exact h.pointer ha hok.1 hok.2
  | rest v => exact h.rest ha

/-- A card that was just probed. -/
theorem Timeline.Fresh.timed {p : Params} (h : q.Fresh p) : Timed q where
  inv := PcmReachable.inv ⟨q.world, h.world, .refl⟩
  full _ urb hurb := by
    rw [h.handling] at hurb
    cases hurb
  idle _ := h.seen
  sorted := by
    rw [h.seen]
    exact List.Pairwise.nil
  seen_le s hs := by
    rw [h.seen] at hs
    exact absurd hs List.not_mem_nil

end Timed

/-- In every run of the substreams whose steps keep the time, what pointer() shows while a capture stream
runs, `hw_ptr` and the delay together, never goes back; and for either direction, whatever is queued
and however much time has passed, the delay is not below zero. -/
theorem capture_time_line {p : Params} {w : ℕ} {q₀ q : Timeline} (h₀ : q₀.Fresh p)
    (h : TimeSteps p.urb_split w (KeepsTime w) q₀ q) :
    q.seen.Pairwise (· ≤ ·) ∧ ∀ d rate ns c, 0 ≤ bfDelayFrames d rate ns c := by
  have htimed : Timed q := by
    induction h with
    | refl => exact h₀.timed
    | tail _ hstep ih =>
      obtain ⟨a, ha, hok, rfl⟩ := hstep
      exact ih.act a ha hok
  exact ⟨htimed.sorted, fun d rate ns c => bfDelayFrames_nonneg rate ns c d⟩

/-- A capture substream at 48 kHz, opened and set up, then prepared, then running. -/
def captureSetUp : PcmWorld :=
  (sndPcmHwParams 0 .capture ⟨48000, 2, 256, 1024⟩ (babyfacePcmOpen .capture 7 freshPcm).2).2

/-- Capture that was prepared. -/
def capturePrepared : PcmWorld := (sndPcmPrepare .capture captureSetUp).2

/-- Capture that runs. -/
def captureRunning : PcmWorld := (sndPcmStart .capture capturePrepared).2

/-- The card after its probe. -/
def freshTimeline : Timeline := ⟨freshPcm, fun _ => 0, 0, 0, none, []⟩

/-- It starts from a card that was just probed. -/
theorem freshTimeline_fresh : freshTimeline.Fresh {} := ⟨⟨rfl, rfl⟩, rfl, rfl⟩

/-- A full URB of the session. -/
def fullUrb : InUrb := ⟨56 * 128, fun _ => 0⟩

/-- A capture stream is started; the application asks for its position after the time of a URB, which is
then stamped. -/
def firstUrb : List TimeAct :=
  [.rest (babyfacePcmOpen .capture 7 freshPcm).2, .rest captureSetUp, .rest capturePrepared,
    .rest captureRunning, .tick 2666667, .pointer, .stamp fullUrb]

/-- The time line after some actions. -/
def Timeline.acts (w : ℕ) (q : Timeline) (as : List TimeAct) : Timeline := as.foldl (·.act w) q

/-- The actions may happen one after the other, and all meet a condition. -/
def Timeline.Takes (urb_split : ℤ) (w : ℕ) (ok : Timeline → TimeAct → Prop) :
    Timeline → List TimeAct → Prop
  | _, [] => True
  | q, a :: as => a.enabled urb_split q ∧ ok q a ∧ (q.act w a).Takes urb_split w ok as

/-- The actions of a run are steps of it. -/
theorem Timeline.Takes.steps {urb_split : ℤ} {w : ℕ} {ok : Timeline → TimeAct → Prop} :
    ∀ {as : List TimeAct} {q : Timeline}, q.Takes urb_split w ok as →
      TimeSteps urb_split w ok q (q.acts w as)
  | [], _, _ => .refl
  | a :: _, _, ⟨henabled, hok, hrest⟩ => .head ⟨a, henabled, hok, rfl⟩ hrest.steps

/-- A weaker condition on the actions. -/
theorem Timeline.Takes.mono {urb_split : ℤ} {w : ℕ} {ok ok' : Timeline → TimeAct → Prop}
    (h : ∀ q a, ok q a → ok' q a) : ∀ {as : List TimeAct} {q : Timeline}, q.Takes urb_split w ok as →
      q.Takes urb_split w ok' as
  | [], _, _ => trivial
  | a :: _, q, ⟨henabled, hok, hrest⟩ => ⟨henabled, h q a hok, hrest.mono h⟩

/-- Actions, and others after them. -/
theorem Timeline.Takes.append {urb_split : ℤ} {w : ℕ} {ok : Timeline → TimeAct → Prop} :
    ∀ {as bs : List TimeAct} {q : Timeline}, q.Takes urb_split w ok as →
      (q.acts w as).Takes urb_split w ok bs → q.Takes urb_split w ok (as ++ bs)
  | [], _, _, _, h => h
  | _ :: _, _, _, ⟨henabled, hok, hrest⟩, h => ⟨henabled, hok, hrest.append h⟩

/-- Capture records. -/
theorem captureRunning_records : Timeline.recording captureRunning = true := by decide +kernel

/-- The first URB is handled in time. -/
theorem firstUrb_takes : freshTimeline.Takes 0 64 (KeepsTime 64) firstUrb :=
  ⟨⟨.open .capture 7 rfl rfl, nofun, fun _ => nofun⟩, trivial,
    ⟨.hwParams .capture ⟨48000, 2, 256, 1024⟩ rfl (Or.inl rfl), nofun, fun _ => nofun⟩, trivial,
    ⟨.prepare .capture (by decide) (by decide) rfl, nofun, fun _ _ => rfl⟩, trivial,
    ⟨.start .capture (by decide +kernel), by decide +kernel, fun _ _ => rfl⟩, trivial,
    show (0 : ℤ) ≤ 2666667 by decide, trivial,
    captureRunning_records, ⟨rfl, by decide +kernel⟩,
    ⟨rfl, by decide +kernel⟩, trivial, trivial⟩

/-- The position after the copy of the first URB is that before its time stamp. -/
theorem capture_time_line_copied :
    (freshTimeline.acts 64 (firstUrb ++ [.copy, .pointer])).seen.Pairwise (· ≤ ·) := by
  have hcopied : (freshTimeline.acts 64 firstUrb).Takes 0 64 (KeepsTime 64) [.copy, .pointer] :=
    ⟨rfl, fun _ => by decide +kernel, captureRunning_records, ⟨rfl, by decide +kernel⟩, trivial⟩
  exact (capture_time_line freshTimeline_fresh (firstUrb_takes.append hcopied).steps).1

/-- A call between the time stamp of the first URB and its copy shows 128 frames less than one before
both. -/
theorem capture_time_back :
    ∃ q, TimeSteps 0 64 (fun _ _ => True) freshTimeline q ∧ q.seen = [144, 16] ∧
      ¬ q.seen.Pairwise (· ≤ ·) := by
  have hbetween : (freshTimeline.acts 64 firstUrb).Takes 0 64 (fun _ _ => True) [.pointer] :=
    ⟨captureRunning_records, trivial, trivial⟩
  have hseen : (freshTimeline.acts 64 (firstUrb ++ [.pointer])).seen = [144, 16] := by decide +kernel
  refine ⟨_, ?_, hseen, by rw [hseen]; decide⟩
  exact ((firstUrb_takes.mono fun _ _ _ => trivial).append hbetween).steps

end BabyfacePro
