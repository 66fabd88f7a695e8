import BabyfacePro.Core.Card
import BabyfacePro.Stream.Copy

/-!
# The PCM callbacks

The callbacks of the two substreams, each with its sections under `chip->mutex` as one step of the
card: the session that they share, who chooses its rate and its URBs, and who starts and stops it. A
`Card` is the driver's state with what the PCM core keeps for each substream.
-/

namespace BabyfacePro

open Bus.M (get modify each when rollback throw)

/-- The state of a substream in the PCM core, `snd_pcm_state_t`. -/
inductive PcmState where
  /-- No parameters are set: also that of a substream that is not open. -/
  | open
  | setup
  | prepared
  | running
  | draining
  | xrun
  | suspended
  | disconnected
  deriving DecidableEq, Repr

/-- `snd_pcm_running`. -/
def PcmState.isRunning (d : Dir) : PcmState → Bool
  | running => true
  | draining => d = .playback
  | _ => false

/-- The driver's state, and the core's state of each substream. -/
structure Card where
  chip : Chip
  state : Dir → PcmState := fun _ => .open
  runtime : Dir → Runtime := fun _ => ⟨0, 0, 0, 0⟩

/-- The PCM callbacks: they return a value or a negative error code. -/
abbrev Pcm := Bus.M Card Xfer Ctl Errno

/-- The card, the transfers and the notifications. -/
abbrev PcmWorld := Bus.World Card Xfer Ctl

/-- A routine of the rest of the driver. -/
def onChip {α : Type} (m : Usb α) : Pcm α := m.zoom Card.chip fun c k => { k with chip := c }

/-! ## The session -/

/-- The bad URBs in a row that stop a session. -/
def BF_URB_ERR_STOP : ℤ := 3

/-- The state once `babyface_stream_kill` has stopped the URBs. -/
def killed (k : Card) : Card := { k with chip := { k.chip with streaming := false } }

/-- `babyface_stream_kill`. -/
def babyfaceStreamKill : Pcm Unit := modify killed

/-- The substreams, once those that ran are in the state `st`. -/
def stoppedBoth (st : PcmState) (k : Card) : Card :=
  { k with
    state := fun d => if k.chip.subs d ∧ (k.state d).isRunning d then st else k.state d }

/-- `babyface_pcm_stop_both`. -/
def babyfacePcmStopBoth (st : PcmState) : Pcm Unit := modify (stoppedBoth st)

/-- A session that runs is stopped, and the substreams that ran get an xrun. -/
def stopSession : Pcm Unit := do
  let k ← get
  when k.chip.streaming (do
    babyfaceStreamKill
    babyfacePcmStopBoth .xrun)

/-- `usb_submit_urb`. -/
def usbSubmitUrb : Pcm Unit := Bus.M.recv .usb ()

/-- The session once `babyface_stream_start` has marked it live. -/
def live (k : Card) : Card :=
  { k with
    chip := { k.chip with urb_err := 0, out_inflight := k.chip.urbs_active, streaming := true } }

/-- The end of `babyface_stream_start`: the URBs of a session, and its arm. -/
def submitAndArm (urbs_active : ℕ) : Pcm Unit := do
  each (List.range urbs_active) fun _ => do
    usbSubmitUrb
    usbSubmitUrb
  onChip bfSessionArm

/-- `babyface_stream_start` up to its error path. -/
def startSession : Pcm Unit := do
  onChip bfSessionTrigger
  let k ← get
  modify live
  submitAndArm k.chip.urbs_active

/-- `babyface_stream_start`. -/
def babyfaceStreamStart : Pcm Unit := rollback startSession killed

/-- The section of `babyface_disconnect` under the mutex, and the one of `babyface_suspend`. -/
def killSection : Pcm Unit := do
  let k ← get
  when k.chip.streaming babyfaceStreamKill

/-- The count of bad URBs, cleared. -/
def errCleared (k : Card) : Card := { k with chip := { k.chip with urb_err := 0 } }

/-- `babyface_stream_work`. -/
def babyfaceStreamWork : Pcm Unit := do
  let k ← get
  when (!k.chip.shutdown && decide (BF_URB_ERR_STOP ≤ k.chip.urb_err)) (do
    killSection
    babyfacePcmStopBoth .xrun
    modify errCleared)

/-! ## The callbacks -/

/-- `bf_other_holds_clock`. -/
def bfOtherHoldsClock (c : Chip) (d : Dir) : Bool :=
  c.stream_setup d.other && decide (c.owner d.other ≠ c.owner d)

/-- `babyface_pcm_open` by the process `pid`. -/
def babyfacePcmOpen (d : Dir) (pid : ℕ) : Pcm Unit :=
  modify fun k =>
    { k with
      chip :=
        { k.chip with
          owner := Function.update k.chip.owner d pid
          subs := Function.update k.chip.subs d true } }

/-- `babyface_pcm_close`. -/
def babyfacePcmClose (d : Dir) : Pcm Unit :=
  modify fun k =>
    { k with
      chip :=
        { k.chip with
          owner := Function.update k.chip.owner d 0
          subs := Function.update k.chip.subs d false } }

/-- The rate's part of `babyface_pcm_hw_params`: whether the rate is a new one. -/
def hwParamsRate (d : Dir) (r : BfRate) : Pcm Bool := do
  let k ← get
  if r.rate = k.chip.rate then pure false
  else if bfOtherHoldsClock k.chip d then throw .ebusy
  else do
    stopSession
    onChip (bfRetune r)
    pure true

/-- The URBs of a session that the direction `d` chose. -/
def chosenUrbs (urb n : ℕ) (k : Card) : Card :=
  { k with chip := { k.chip with urb_frames := urb, urbs_active := n } }

/-- A session that the direction `d` set up. -/
def ledBy (d : Dir) (k : Card) : Card := { k with chip := { k.chip with session_dir := d } }

/-- The URBs' part of `babyface_pcm_hw_params`, for URBs of `urb` frames. -/
def hwParamsUrbs (urb_split : ℤ) (d : Dir) (r : BfRate) (urb period : ℕ) (new_rate : Bool) :
    Pcm Unit := do
  let k ← get
  if bfOtherHoldsClock k.chip d then
    if period < bfSessionPeriod k.chip then throw .ebusy else pure ()
  else if new_rate ∨ ¬ k.chip.stream_setup d.other ∨ k.chip.session_dir = d ∨
      period < bfSessionPeriod k.chip then do
    let n := bfUrbCount urb_split k.chip r period urb
    if urb ≠ k.chip.urb_frames ∨ n ≠ k.chip.urbs_active then do
      stopSession
      modify (chosenUrbs urb n)
    else pure ()
    modify (ledBy d)
  else pure ()

/-- The substream as a user of the session. -/
def setUp (d : Dir) (k : Card) : Card :=
  if k.chip.stream_setup d then k
  else
    { k with
      chip :=
        { k.chip with
          stream_setup := Function.update k.chip.stream_setup d true
          stream_users := k.chip.stream_users + 1 } }

/-- `babyface_pcm_hw_params`. -/
def babyfacePcmHwParams (urb_split : ℤ) (d : Dir) (params : Runtime) : Pcm Unit :=
  match bfRateLookup params.rate with
  | none => throw .einval
  | some r => do
    let k ← get
    let urb := bfUrbFrames urb_split k.chip r params.period_size
    if urb = 0 then throw .einval
    else if k.chip.shutdown then throw .enodev
    else do
      let new_rate ← hwParamsRate d r
      hwParamsUrbs urb_split d r urb params.period_size new_rate
      modify (setUp d)

/-- `babyface_pcm_hw_free`. -/
def babyfacePcmHwFree (d : Dir) : Pcm Unit := do
  let k ← get
  when (k.chip.stream_setup d) (do
    modify fun k =>
      { k with
        chip :=
          { k.chip with
            stream_setup := Function.update k.chip.stream_setup d false
            stream_users := k.chip.stream_users - 1 } }
    let k ← get
    when (decide (k.chip.stream_users = 0) && k.chip.streaming) babyfaceStreamKill)

/-- The runtime of `d` does not fit the session. -/
def Misfits (k : Card) (d : Dir) : Prop :=
  (k.runtime d).rate ≠ k.chip.rate ∨ (k.runtime d).period_size < bfSessionPeriod k.chip

/-- Whether a substream misfits its session is a pair of comparisons. -/
instance (k : Card) (d : Dir) : Decidable (Misfits k d) :=
  inferInstanceAs (Decidable (_ ∨ _))

/-- The counters of a substream, cleared. -/
def ptrReset (d : Dir) (k : Card) : Card := { k with chip := resetPtr d k.chip }

/-- `babyface_pcm_prepare`. -/
def babyfacePcmPrepare (d : Dir) : Pcm Unit := do
  let k ← get
  if k.chip.shutdown then throw .enodev
  else if Misfits k d then throw .einval
  else when (!k.chip.streaming) babyfaceStreamStart
  modify (ptrReset d)

/-- `babyface_pcm_trigger` with START. -/
def babyfacePcmStart (d : Dir) : Pcm Unit := do
  let k ← get
  if k.chip.streaming = false then throw .epipe
  else if Misfits k d then throw .epipe
  else modify (ptrReset d)

/-! ## What the callbacks do -/

/-- The card after a session that may run is stopped. -/
def sessionStopped (k : Card) : Card :=
  if k.chip.streaming then stoppedBoth .xrun (killed k) else k

/-- What the stop of a session leaves. -/
theorem stopSession_run (w : PcmWorld) :
    stopSession w = (.ok (), { w with chip := sessionStopped w.chip }) := by
  unfold stopSession sessionStopped
  rw [Bus.M.bind_of_ok (Bus.M.get_run w)]
  cases w.chip.chip.streaming <;> rfl

/-- The card after a kill of a session that may run. -/
def killedLive (k : Card) : Card := if k.chip.streaming then killed k else k

/-- What the section of disconnect leaves. -/
theorem killSection_run (w : PcmWorld) :
    killSection w = (.ok (), { w with chip := killedLive w.chip }) := by
  unfold killSection killedLive
  rw [Bus.M.bind_of_ok (Bus.M.get_run w)]
  cases w.chip.chip.streaming <;> rfl

/-- What the work leaves: nothing unless the count has stopped the session. -/
theorem babyfaceStreamWork_run (w : PcmWorld) :
    babyfaceStreamWork w = (.ok (),
      if w.chip.chip.shutdown = false ∧ BF_URB_ERR_STOP ≤ w.chip.chip.urb_err then
        { w with chip := errCleared (stoppedBoth .xrun (killedLive w.chip)) }
      else w) := by
  unfold babyfaceStreamWork
  rw [Bus.M.bind_of_ok (Bus.M.get_run w)]
  by_cases hstop : w.chip.chip.shutdown = false ∧ BF_URB_ERR_STOP ≤ w.chip.chip.urb_err
  · rw [if_pos hstop, when, if_pos (by simpa using hstop), Bus.M.bind_of_ok (killSection_run w)]
    rfl
  · rw [if_neg hstop, when, if_neg (by simpa using hstop)]
    rfl

/-- What a new rate makes of the stream's part of the state. -/
def Stream.retuned (r : BfRate) (s : Stream) : Stream :=
  { s with rate := r.rate, alt := r.alt, frame_bytes := r.frame_bytes }

/-- The stream's part of the state does not depend on the flag cycle. -/
theorem stream_respects : Bus.Respects Chip.quiet fun c d => d.toStream = c.toStream := by
  intro c c' d d' hc hd h
  have hc' := congrArg Chip.toStream hc
  have hd' := congrArg Chip.toStream hd
  calc d'.toStream = d.toStream := hd'
    _ = c.toStream := h
    _ = c'.toStream := hc'.symm

/-- A new rate is set unless the interface cannot be switched. -/
theorem bfRetune_cases (r : BfRate) (w : World) :
    ((bfRetune r w).1 = .error .usb ∧ (bfRetune r w).2.chip = w.chip ∧ w.usb 0 = false) ∨
      ((bfRetune r w).1 = .ok () ∧
        (bfRetune r w).2.chip.toStream = w.chip.toStream.retuned r ∧
        ((∀ i, w.usb i = true) → ∀ i, (bfRetune r w).2.usb i = true)) := by
  have hkeep : Bus.Frames Xfer.write (fun c d : Chip => d.toStream = c.toStream) (fun _ => True)
      (fun _ => False) bfEqReupload :=
    bfEqReupload_frames (Bus.Framing.view Chip.toStream) stream_respects (fun _ _ => rfl)
      fun _ _ => trivial
  unfold bfRetune
  -- The switch of the interface is the first transfer, and the only one whose failure is an error.
  by_cases h0 : w.usb 0 = true
  · right
    have hset : usbSetInterface r.alt w =
        (.ok (), { w with wire := w.wire ++ [.setInterface r.alt], usb := Bus.shift w.usb 1 }) :=
      if_pos h0
    rw [Bus.M.bind_of_ok hset, Bus.M.bind_of_ok (Bus.M.modify_run _ _)]
    -- The EQ is uploaded again afterwards, which always succeeds and leaves the stream part.
    obtain ⟨_, w', hrun⟩ := hkeep.run_ok _
    have hstate := hkeep.state { w with
      chip := { w.chip with rate := r.rate, alt := r.alt, frame_bytes := r.frame_bytes }
      wire := w.wire ++ [.setInterface r.alt]
      usb := Bus.shift w.usb 1 }
    refine ⟨by rw [hrun], hstate, fun hlive => hkeep.live fun i => ?_⟩
    exact hlive _
  · left
    have hset : usbSetInterface r.alt w = (.error .usb, { w with usb := Bus.shift w.usb 1 }) :=
      if_neg h0
    rw [Bus.M.bind_of_error hset]
    exact ⟨rfl, rfl, by simpa using h0⟩

/-- What the rate's part of hw_params leaves, when it goes on: the same card, or one whose session was
stopped for a new rate. -/
inductive Rated (d : Dir) (r : BfRate) (k : Card) : Bool → Card → Prop
  | same (h : r.rate = k.chip.rate) : Rated d r k false k
  | new {k' : Card} (h : r.rate ≠ k.chip.rate) (hfree : bfOtherHoldsClock k.chip d = false)
      (hstream : k'.chip.toStream = (sessionStopped k).chip.toStream.retuned r)
      (hstate : k'.state = (sessionStopped k).state)
      (hruntime : k'.runtime = k.runtime) : Rated d r k true k'

/-- A session that stops leaves the parameters of the substreams. -/
theorem sessionStopped_runtime (k : Card) : (sessionStopped k).runtime = k.runtime := by
  unfold sessionStopped
  split <;> rfl

/-- Of the stream it clears the flag only. -/
theorem sessionStopped_stream (k : Card) :
    (sessionStopped k).chip.toStream = { k.chip.toStream with streaming := false } := by
  unfold sessionStopped
  split
  · rfl
  · rename_i hidle
    have hidle : k.chip.streaming = false := by simpa using hidle
    rw [← hidle]

/-- A new rate is only set for an application that no other keeps from it. -/
theorem Rated.free {d : Dir} {r : BfRate} {k k' : Card} (h : Rated d r k true k') :
    bfOtherHoldsClock k.chip d = false := by
  cases h with
  | new _ hfree => exact hfree

/-- The rate's part of hw_params changes no one's hold on the clock. -/
theorem Rated.held {d : Dir} {r : BfRate} {k k' : Card} {new : Bool} (h : Rated d r k new k')
    (e : Dir) : bfOtherHoldsClock k'.chip e = bfOtherHoldsClock k.chip e := by
  cases h with
  | same => rfl
  | new _ _ hstream =>
    rw [sessionStopped_stream] at hstream
    have hsetup := congrArg Stream.stream_setup hstream
    have howner := congrArg Stream.owner hstream
    dsimp only [Stream.retuned] at hsetup howner
    simp only [bfOtherHoldsClock, hsetup, howner]

/-- The rate's part of hw_params goes on, or refuses for the holder of the clock, or fails to switch
the interface once the session is stopped. -/
theorem hwParamsRate_cases (d : Dir) (r : BfRate) (w : PcmWorld) :
    (∃ new w', hwParamsRate d r w = (.ok new, w') ∧ Rated d r w.chip new w'.chip ∧
        (new = false → w' = w) ∧ ((∀ i, w.usb i = true) → ∀ i, w'.usb i = true)) ∨
      (hwParamsRate d r w = (.error .ebusy, w) ∧ r.rate ≠ w.chip.chip.rate ∧
        bfOtherHoldsClock w.chip.chip d = true) ∨
      ∃ w', hwParamsRate d r w = (.error .usb, w') ∧ r.rate ≠ w.chip.chip.rate ∧
        bfOtherHoldsClock w.chip.chip d = false ∧ w'.chip = sessionStopped w.chip ∧
        ∃ i, w.usb i = false := by
  unfold hwParamsRate
  rw [Bus.M.bind_of_ok (Bus.M.get_run w), Bus.M.ite_run, Bus.M.ite_run]
  -- At the same rate nothing is done.
  split
  · rename_i hrate
    exact Or.inl ⟨false, w, rfl, .same hrate, fun _ => rfl, id⟩
  · rename_i hrate
    -- Another rate is refused while another application holds the clock.
    split
    · rename_i hheld
      exact Or.inr (Or.inl ⟨rfl, hrate, hheld⟩)
    · rename_i hfree
      have hfree : bfOtherHoldsClock w.chip.chip d = false := by simpa using hfree
      -- Else the session stops first, whether the switch then works or not.
      rw [Bus.M.bind_of_ok (stopSession_run w), Bus.M.bind_run]
      rcases bfRetune_cases r { w with chip := (sessionStopped w.chip).chip } with
        ⟨hres, hchip, husb⟩ | ⟨hres, hstream, hlive⟩
      -- The interface could not be switched: what is left is the stop.
      · refine Or.inr (Or.inr ?_)
        have hrun : (onChip (bfRetune r) { w with chip := sessionStopped w.chip }).1 =
            .error .usb := hres
        have hk : (onChip (bfRetune r) { w with chip := sessionStopped w.chip }).2.chip =
            sessionStopped w.chip :=
          congrArg (fun c => { sessionStopped w.chip with chip := c }) hchip
        revert hrun hk
        rcases onChip (bfRetune r) { w with chip := sessionStopped w.chip } with ⟨res, w'⟩
        rintro rfl hk
        exact ⟨w', rfl, hrate, hfree, hk, 0, husb⟩
      -- It was switched, with the new rate in the cache.
      · refine Or.inl ?_
        have hrun : (onChip (bfRetune r) { w with chip := sessionStopped w.chip }).1 = .ok () :=
          hres
        have hnew : Rated d r w.chip true
            (onChip (bfRetune r) { w with chip := sessionStopped w.chip }).2.chip :=
          .new hrate hfree hstream rfl (sessionStopped_runtime w.chip)
        have husb : (∀ i, w.usb i = true) → ∀ i,
            (onChip (bfRetune r) { w with chip := sessionStopped w.chip }).2.usb i = true := hlive
        revert hrun hnew husb
        rcases onChip (bfRetune r) { w with chip := sessionStopped w.chip } with ⟨res, w'⟩
        rintro rfl hnew husb
        exact ⟨true, w', rfl, hnew, fun hsame => absurd hsame (by decide), husb⟩

/-- The card after the URBs of a session that the direction `d` may choose. -/
def chooseUrbs (urb_split : ℤ) (d : Dir) (r : BfRate) (urb period : ℕ) (new_rate : Bool) (k : Card) :
    Card :=
  if new_rate ∨ ¬ k.chip.stream_setup d.other ∨ k.chip.session_dir = d ∨
      period < bfSessionPeriod k.chip then
    let n := bfUrbCount urb_split k.chip r period urb
    ledBy d (if urb ≠ k.chip.urb_frames ∨ n ≠ k.chip.urbs_active then
      chosenUrbs urb n (sessionStopped k) else k)
  else k

/-- What the URBs' part of hw_params leaves, or why it is refused. -/
theorem hwParamsUrbs_run (urb_split : ℤ) (d : Dir) (r : BfRate) (urb period : ℕ) (new : Bool)
    (w : PcmWorld) :
    hwParamsUrbs urb_split d r urb period new w =
      if bfOtherHoldsClock w.chip.chip d then
        if period < bfSessionPeriod w.chip.chip then (.error .ebusy, w) else (.ok (), w)
      else (.ok (), { w with chip := chooseUrbs urb_split d r urb period new w.chip }) := by
  unfold hwParamsUrbs chooseUrbs
  rw [Bus.M.bind_of_ok (Bus.M.get_run w), Bus.M.ite_run, Bus.M.ite_run]
  split
  · split <;> rfl
  · rw [Bus.M.ite_run]
    split
    · dsimp only
      rw [Bus.M.ite_run]
      split
      · rw [Bus.M.bind_of_ok (stopSession_run w)]
        rfl
      · rfl
    · rfl

/-- What a hw_params that was accepted leaves. -/
structure Accepted (urb_split : ℤ) (d : Dir) (params : Runtime) (k k' : Card) : Prop where
  not_shutdown : k.chip.shutdown = false
  accepted : ∃ r new k₁, bfRateLookup params.rate = some r ∧
    bfUrbFrames urb_split k.chip r params.period_size ≠ 0 ∧ Rated d r k new k₁ ∧
    ((bfOtherHoldsClock k₁.chip d = true ∧ bfSessionPeriod k₁.chip ≤ params.period_size ∧
        k' = setUp d k₁) ∨
      (bfOtherHoldsClock k₁.chip d = false ∧
        k' = setUp d (chooseUrbs urb_split d r (bfUrbFrames urb_split k.chip r params.period_size)
          params.period_size new k₁)))

/-- Why a hw_params is refused, with nothing done. -/
inductive Refused (urb_split : ℤ) (d : Dir) (params : Runtime) (k : Card) : Errno → Prop
  | rate (h : bfRateLookup params.rate = none) : Refused urb_split d params k .einval
  | urb {r : BfRate} (hr : bfRateLookup params.rate = some r)
      (h : bfUrbFrames urb_split k.chip r params.period_size = 0) :
      Refused urb_split d params k .einval
  | shutdown {r : BfRate} (hr : bfRateLookup params.rate = some r)
      (hurb : bfUrbFrames urb_split k.chip r params.period_size ≠ 0) (h : k.chip.shutdown = true) :
      Refused urb_split d params k .enodev
  | held {r : BfRate} (hr : bfRateLookup params.rate = some r)
      (hheld : bfOtherHoldsClock k.chip d = true)
      (h : r.rate ≠ k.chip.rate ∨ params.period_size < bfSessionPeriod k.chip) :
      Refused urb_split d params k .ebusy

/-- A hw_params is accepted, or refused with nothing done, or fails to switch the interface for an
application that no other keeps from it. -/
theorem babyfacePcmHwParams_cases (urb_split : ℤ) (d : Dir) (params : Runtime) (w : PcmWorld) :
    (∃ w', babyfacePcmHwParams urb_split d params w = (.ok (), w') ∧
        Accepted urb_split d params w.chip w'.chip ∧
        ((∀ i, w.usb i = true) → ∀ i, w'.usb i = true)) ∨
      (∃ e, babyfacePcmHwParams urb_split d params w = (.error e, w) ∧
        Refused urb_split d params w.chip e) ∨
      ∃ w', babyfacePcmHwParams urb_split d params w = (.error .usb, w') ∧
        bfOtherHoldsClock w.chip.chip d = false ∧ w'.chip = sessionStopped w.chip ∧
        ∃ i, w.usb i = false := by
  unfold babyfacePcmHwParams
  -- The guards in the order of the source: an unknown rate, no URB that fits, a card that goes away.
  rcases hr : bfRateLookup params.rate with _ | r
  · exact Or.inr (Or.inl ⟨.einval, rfl, .rate hr⟩)
  · dsimp only
    rw [Bus.M.bind_of_ok (Bus.M.get_run w), Bus.M.ite_run, Bus.M.ite_run]
    split
    · rename_i hurb
      exact Or.inr (Or.inl ⟨.einval, rfl, .urb hr hurb⟩)
    rename_i hurb
    split
    · rename_i hdown
      exact Or.inr (Or.inl ⟨.enodev, rfl, .shutdown hr hurb hdown⟩)
    rename_i hdown
    rcases hwParamsRate_cases d r w with
      ⟨new, w₁, hrun, hrated, hsame, hlive⟩ | ⟨hrun, hrate, hheld⟩ | ⟨w₁, hrun, _, hfree, hk, husb⟩
    · rw [Bus.M.bind_of_ok hrun, Bus.M.bind_run, hwParamsUrbs_run]
      have hup : w.chip.chip.shutdown = false := by simpa using hdown
      split_ifs with hheld hperiod
      · -- The clock is held, so the rate was not a new one.
        obtain rfl : new = false := by
          cases new with
          | false => rfl
          | true =>
            rw [hrated.held, hrated.free] at hheld
            cases hheld
        obtain rfl := hsame rfl
        exact Or.inr (Or.inl ⟨.ebusy, rfl, .held hr hheld (Or.inr hperiod)⟩)
      -- While the clock is held, a period that the session can serve is accepted as it is.
      · exact Or.inl ⟨_, rfl, ⟨hup, r, new, w₁.chip, hr, hurb, hrated,
          Or.inl ⟨hheld, Nat.not_lt.mp hperiod, rfl⟩⟩, hlive⟩
      · exact Or.inl ⟨_, rfl, ⟨hup, r, new, w₁.chip, hr, hurb, hrated,
          Or.inr ⟨by simpa using hheld, rfl⟩⟩, hlive⟩
    · rw [Bus.M.bind_of_error hrun]
      exact Or.inr (Or.inl ⟨.ebusy, rfl, .held hr hheld (Or.inl hrate)⟩)
    -- The switch of the interface failed after the session was stopped.
    · rw [Bus.M.bind_of_error hrun]
      exact Or.inr (Or.inr ⟨w₁, rfl, hfree, hk, husb⟩)

/-! ## Prepare -/

/-- The stream's part of the state but for what a session moves while it runs. -/
def Stream.setting (s : Stream) : Stream :=
  { s with
    streaming := false
    urb_err := 0
    out_inflight := 0
    hw_ptr := fun _ => 0
    prev_period := fun _ => 0 }

/-- Two streams that agree but for what a session moves. -/
theorem Stream.setting_eq {s t : Stream} (h : s.setting = t.setting) :
    s = { t with
      streaming := s.streaming
      urb_err := s.urb_err
      out_inflight := s.out_inflight
      hw_ptr := s.hw_ptr
      prev_period := s.prev_period } := by
  have hs := congrArg (fun x : Stream => { x with
    streaming := s.streaming
    urb_err := s.urb_err
    out_inflight := s.out_inflight
    hw_ptr := s.hw_ptr
    prev_period := s.prev_period }) h
  exact hs

/-- What only the parameters, their release, and the core change. -/
def Card.setting (k : Card) : Stream × (Dir → PcmState) × (Dir → Runtime) :=
  (k.chip.toStream.setting, k.state, k.runtime)

section Start

variable {R : Stream → Stream → Prop} {X : Errno → Prop}

/-- A routine of the rest of the driver that leaves the stream's part of the state alone. -/
theorem onChip_keeps {α β : Type} {m : Usb α}
    (h : Keeps (fun c d : Chip => d.toStream = c.toStream) m) (v : Card → β)
    (hv : ∀ (k : Card) (c : Chip), c.toStream = k.chip.toStream → v { k with chip := c } = v k) :
    Bus.Frames Xfer.write (fun k k' => v k' = v k) (fun _ => True) (fun _ => True) (onChip m) :=
  (h.zoom fun _ _ => rfl).mono
    (fun k k' hk => by
      obtain ⟨hstream, hcard⟩ := hk
      rw [hcard]
      exact hv k k'.chip hstream)
    (fun _ h => h) fun _ h => h

/-- The trigger pair leaves the stream. -/
theorem bfSessionTrigger_keeps :
    Keeps (fun c d : Chip => d.toStream = c.toStream) bfSessionTrigger := by
  have hR := Bus.Framing.view Chip.toStream
  exact hR.bind (bfClockWrite_keeps hR stream_respects) fun _ =>
    hR.bind ((bfVendorWrite_writes _ _ (by decide)).keeps hR stream_respects) fun _ =>
      (bfVendorWrite_writes _ _ (by decide)).keeps hR stream_respects

/-- So does the arm. -/
theorem bfSessionArm_keeps : Keeps (fun c d : Chip => d.toStream = c.toStream) bfSessionArm :=
  (bfVendorWrite_writes _ _ (by decide)).keeps (Bus.Framing.view Chip.toStream) stream_respects

/-- The submissions leave whatever does not depend on the flag count. -/
theorem submitAndArm_keeps {β : Type} (n : ℕ) (v : Card → β)
    (hv : ∀ (k : Card) (c : Chip), c.toStream = k.chip.toStream → v { k with chip := c } = v k) :
    Bus.Frames Xfer.write (fun k k' => v k' = v k) (fun _ => True) (fun _ => True)
      (submitAndArm n) := by
  have hR : Bus.Framing fun k k' => v k' = v k := Bus.Framing.view v
  exact hR.bind (hR.each _ fun _ _ => hR.bind (hR.recv trivial ()) fun _ => hR.recv trivial ())
    fun _ => onChip_keeps bfSessionArm_keeps v hv

/-- The start of a session changes nothing that the parameters set. -/
theorem babyfaceStreamStart_setting (w : PcmWorld) :
    (babyfaceStreamStart w).2.chip.setting = w.chip.setting := by
  have hv : ∀ (k : Card) (c : Chip), c.toStream = k.chip.toStream →
      Card.setting { k with chip := c } = k.setting := by
    intro k c hc
    simp only [Card.setting, hc]
  have hR : Bus.Framing fun k k' : Card => k'.setting = k.setting := Bus.Framing.view Card.setting
  have hbody := hR.bind (onChip_keeps bfSessionTrigger_keeps Card.setting hv) fun _ =>
    hR.bind hR.get fun k : Card => hR.bind (hR.modify (f := live) fun _ => rfl) fun _ =>
      submitAndArm_keeps k.chip.urbs_active Card.setting hv
  have hkill : ∀ k : Card, (killed k).setting = k.setting := fun _ => rfl
  exact (hR.rollback hbody hkill).state w

/-- A session that was started runs, and one whose start failed does not. -/
theorem babyfaceStreamStart_streaming (w : PcmWorld) :
    (∃ w', babyfaceStreamStart w = (.ok (), w') ∧ w'.chip.chip.streaming = true) ∨
      ∃ e w', babyfaceStreamStart w = (.error e, w') ∧ w'.chip.chip.streaming = false := by
  rcases hm : startSession w with ⟨_ | _, w'⟩
  · exact Or.inr ⟨_, _, Bus.M.rollback_of_error hm killed, rfl⟩
  · refine Or.inl ⟨w', Bus.M.rollback_of_ok hm killed, ?_⟩
    obtain ⟨_, w₁, _, hm⟩ := Bus.M.bind_eq_ok hm
    rw [Bus.M.bind_of_ok (Bus.M.get_run w₁), Bus.M.bind_of_ok (Bus.M.modify_run _ _)] at hm
    have hkeep := (submitAndArm_keeps w₁.chip.chip.urbs_active (fun k => k.chip.streaming)
      fun k c hc => congrArg Stream.streaming hc).state { w₁ with chip := live w₁.chip }
    rw [hm] at hkeep
    exact hkeep

/-- With no failure to come, a session of a supported rate starts. -/
theorem babyfaceStreamStart_lives :
    Bus.Lives (fun k : Card => (bfRateLookup k.chip.rate).isSome = true) babyfaceStreamStart := by
  have hrate : ∀ c d : Chip, d.quiet = c.quiet → (bfRateLookup c.rate).isSome = true →
      (bfRateLookup d.rate).isSome = true := by
    intro c d hq hc
    rw [Chip.quiet_eq hq]
    exact hc
  -- A rate of the table is looked up, so the clock is written and not refused.
  have hclock : Bus.Lives (fun c : Chip => (bfRateLookup c.rate).isSome = true) bfClockWrite := by
    refine Bus.Lives.get fun c hc => ?_
    cases hr : bfRateLookup c.rate with
    | none =>
      rw [hr] at hc
      cases hc
    | some r =>
      exact ((bfVendorWrite_writes _ _ (by decide)).seq bfSettingsWrite_writes).lives hrate
  have htrigger : Bus.Lives (fun c : Chip => (bfRateLookup c.rate).isSome = true)
      bfSessionTrigger :=
    hclock.bind fun _ => ((bfVendorWrite_writes _ _ (by decide)).lives hrate).bind fun _ =>
      (bfVendorWrite_writes _ _ (by decide)).lives hrate
  have harm : Bus.Lives (fun c : Chip => (bfRateLookup c.rate).isSome = true) bfSessionArm :=
    (bfVendorWrite_writes _ _ (by decide)).lives hrate
  -- The submissions ask the bus twice a URB, and the arm writes once.
  have hsubmit : ∀ n, Bus.Lives (fun k : Card => (bfRateLookup k.chip.rate).isSome = true)
      (submitAndArm n) := fun n =>
    (Bus.Lives.each _ fun _ _ => (Bus.Lives.recv _ _).bind fun _ => Bus.Lives.recv _ _).bind
      fun _ => harm.zoom fun _ _ => rfl
  -- With every transfer getting through, nothing is rolled back.
  exact Bus.Lives.rollback killed ((htrigger.zoom fun _ _ => rfl).bind fun _ =>
    Bus.Lives.get fun k _ => (Bus.Lives.modify (f := live) fun _ hk => hk).bind fun _ =>
      hsubmit k.chip.urbs_active)

end Start

/-- A prepare is refused with nothing done, or fails to start the session, or leaves a session that
runs. -/
theorem babyfacePcmPrepare_cases (d : Dir) (w : PcmWorld) :
    (∃ e, babyfacePcmPrepare d w = (.error e, w) ∧
        (w.chip.chip.shutdown = true ∨ Misfits w.chip d)) ∨
      (w.chip.chip.shutdown = false ∧ ¬ Misfits w.chip d ∧
        ((∃ e w', babyfacePcmPrepare d w = (.error e, w') ∧ babyfaceStreamStart w = (.error e, w') ∧
            w.chip.chip.streaming = false ∧ w'.chip.setting = w.chip.setting ∧
            w'.chip.chip.streaming = false) ∨
          ∃ w', babyfacePcmPrepare d w = (.ok (), w') ∧ w'.chip.setting = w.chip.setting ∧
            w'.chip.chip.streaming = true)) := by
  unfold babyfacePcmPrepare
  rw [Bus.M.bind_of_ok (Bus.M.get_run w), Bus.M.ite_run, Bus.M.ite_run]
  -- Refused before anything is done.
  by_cases hdown : w.chip.chip.shutdown = true
  · rw [if_pos hdown]
    exact Or.inl ⟨.enodev, rfl, Or.inl hdown⟩
  by_cases hmis : Misfits w.chip d
  · rw [if_neg hdown, if_pos hmis]
    exact Or.inl ⟨.einval, rfl, Or.inr hmis⟩
  rw [if_neg hdown, if_neg hmis]
  refine Or.inr ⟨by simpa using hdown, hmis, ?_⟩
  -- A session that runs is joined, else it is started.
  cases hlive : w.chip.chip.streaming with
  | true => exact Or.inr ⟨_, rfl, rfl, hlive⟩
  | false =>
    have hset := babyfaceStreamStart_setting w
    have hwhen : when (!false) babyfaceStreamStart = babyfaceStreamStart := rfl
    rw [hwhen]
    rcases babyfaceStreamStart_streaming w with ⟨w', hrun, hrunning⟩ | ⟨e, w', hrun, hidle⟩ <;>
      rw [hrun] at hset
    · rw [Bus.M.bind_of_ok hrun]
      exact Or.inr ⟨_, rfl, hset, hrunning⟩
    -- A start that failed has left the cached setting and no session.
    · rw [Bus.M.bind_of_error hrun]
      exact Or.inl ⟨e, w', rfl, hrun, rfl, hset, hidle⟩

/-- With no failure to come, a prepare of a substream that fits is accepted. -/
theorem babyfacePcmPrepare_live {d : Dir} {w : PcmWorld} (hlive : ∀ i, w.usb i = true)
    (hrate : (bfRateLookup w.chip.chip.rate).isSome = true) (hdown : w.chip.chip.shutdown = false)
    (hmis : ¬ Misfits w.chip d) : ∃ w', babyfacePcmPrepare d w = (.ok (), w') := by
  rcases babyfacePcmPrepare_cases d w with ⟨e, _, hdown' | hmis'⟩ | ⟨_, _, hstart | ⟨w', hrun, _⟩⟩
  · rw [hdown] at hdown'
    cases hdown'
  · exact absurd hmis' hmis
  · obtain ⟨e, w', _, hfail, _⟩ := hstart
    obtain ⟨_, w'', hok, _⟩ := babyfaceStreamStart_lives w hlive hrate
    rw [hok] at hfail
    cases hfail
  · exact ⟨w', hrun⟩

/-- A START is refused with nothing done, or the substream fits a session that runs. -/
theorem babyfacePcmStart_cases (d : Dir) (w : PcmWorld) :
    babyfacePcmStart d w = (.error .epipe, w) ∨
      (babyfacePcmStart d w = (.ok (), { w with chip := ptrReset d w.chip }) ∧
        w.chip.chip.streaming = true ∧ ¬ Misfits w.chip d) := by
  unfold babyfacePcmStart
  rw [Bus.M.bind_of_ok (Bus.M.get_run w), Bus.M.ite_run, Bus.M.ite_run]
  by_cases hidle : w.chip.chip.streaming = false
  · rw [if_pos hidle]
    exact Or.inl rfl
  by_cases hmis : Misfits w.chip d
  · rw [if_neg hidle, if_pos hmis]
    exact Or.inl rfl
  rw [if_neg hidle, if_neg hmis]
  exact Or.inr ⟨rfl, by simpa using hidle, hmis⟩

end BabyfacePro
